import ChainExplorer.Indexer.InFlight

/-!
# Clean metadata

A token's name, symbol and currency are read off what a contract answers, which may be anything. An
older build stored control characters; at startup the rows that have some are asked for again
(`indexer.rs`), beside the loops and the other writers.

* `Texts.Clean`, `sanitizeMetadataText_clean`: texts without control characters.
* `Database.Cleaner`: every token has the texts it had, or clean ones.
* `repairTokenMetadata`: the repair's three steps among those of the indexer and of the other writers.
* **`repairTokenMetadata_heals`**: no token becomes garbled, and one that still is after a repair is
  one that answered with neither a name nor a symbol.
-/

namespace ChainExplorer

open Text

/-! ## Texts -/

/-- The texts of a token. -/
structure Texts where
  name : String
  symbol : String
  currency : String

def TokenMeta.texts (m : TokenMeta) : Texts := ⟨m.name, m.symbol, m.currency⟩

def TokenRow.texts (row : TokenRow) : Texts := ⟨row.name, row.symbol, row.currency⟩

/-- None has a control character. -/
structure Texts.Clean (t : Texts) : Prop where
  name : hasControlChars t.name.toList = false
  symbol : hasControlChars t.symbol.toList = false
  currency : hasControlChars t.currency.toList = false

theorem hasControlChars_eq_false {s : List Char} :
    hasControlChars s = false ↔ ∀ c ∈ s, isControl c = false := by
  simp [hasControlChars]

theorem sanitizeMetadataText_clean (s : String) :
    hasControlChars (sanitizeMetadataText s).toList = false := by
  unfold sanitizeMetadataText
  simp only
  split_ifs with hcontrol
  · rfl
  · rw [Bool.not_eq_true, hasControlChars_eq_false] at hcontrol
    rw [String.toList_ofList, hasControlChars_eq_false]
    intro c hc
    refine hcontrol c ?_
    have hsub := (List.rdropWhile_prefix isWhitespace
      (l := (s.toList.rdropWhile (· = Char.ofNat 0)).dropWhile isWhitespace)).subset hc
    exact (List.dropWhile_suffix isWhitespace).subset hsub

theorem tokenMeta_clean (address : String) (views : List (Except RpcError Json)) :
    (tokenMeta address views).texts.Clean := by
  constructor
  · simp only [TokenMeta.texts, tokenMeta, sanitizeMetadataText_clean]
  · simp only [TokenMeta.texts, tokenMeta, sanitizeMetadataText_clean]
  · simp only [TokenMeta.texts, tokenMeta, sanitizeMetadataText_clean]

theorem tokenMetas_clean (addresses : List String) (results : List (Except RpcError Json)) :
    ∀ m ∈ tokenMetas addresses results, m.texts.Clean := by
  induction addresses generalizing results with
  | nil => exact fun m hm => absurd hm List.not_mem_nil
  | cons address rest ih =>
    unfold tokenMetas
    split_ifs
    · exact fun m hm => absurd hm List.not_mem_nil
    · exact List.forall_mem_cons.mpr ⟨tokenMeta_clean _ _, ih _⟩

theorem fetchTokenMetadata_clean [Keccak] {addresses : List String} {node : Node}
    {log log' : List Exchange} {metas : List TokenMeta}
    (h : fetchTokenMetadata addresses node log = (.ok metas, log')) :
    ∀ m ∈ metas, m.texts.Clean := by
  unfold fetchTokenMetadata at h
  split_ifs at h with hempty
  · rw [← Except.ok.inj (Prod.mk.inj h).1]
    exact fun m hm => absurd hm List.not_mem_nil
  · obtain ⟨results, log1, -, h⟩ := Rpc.bind_ok h
    rw [← Except.ok.inj (Prod.mk.inj h).1]
    exact tokenMetas_clean _ _

/-! ## Bundles -/

/-- The metadata a bundle carries is clean. -/
def BlockBundle.Clean (bundle : BlockBundle) : Prop := ∀ m ∈ bundle.tokens, m.texts.Clean

section Keccak

variable [Keccak]

theorem describeTokens_clean {ch : ℕ → Choices} {wanted : List String}
    {bundles bundles' : List BlockBundle} {new : Finset String} {node : Node} {log : List Exchange}
    (h : (describeTokens ch wanted bundles node log).1 = .ok (bundles', new))
    (hbundles : ∀ bundle ∈ bundles, bundle.Clean) : ∀ bundle ∈ bundles', bundle.Clean := by
  rcases describeTokens_run ch wanted bundles node log with
    ⟨metas, log', hmetas, hrun⟩ | ⟨e, log', -, hrun⟩
  · rw [hrun] at h
    rw [← (Prod.mk.inj (Except.ok.inj h)).1]
    intro bundle hmem m hm
    obtain ⟨i, hi, rfl⟩ := List.mem_mapIdx.mp hmem
    obtain ⟨addr, -, hlookup⟩ := List.mem_filterMap.mp hm
    exact fetchTokenMetadata_clean hmetas m (mem_of_byAddress hlookup).1
  · rw [hrun] at h
    rw [← (Prod.mk.inj (Except.ok.inj h)).1]
    exact hbundles

theorem FetchStep.keeps_clean [Codec] (f : RangeFetch) (step : FetchStep) :
    step.Keeps BlockBundle.Clean f := by
  cases step with
  | rawBlocks i node =>
    intro chunk raws bundles _ _ hbundles bundle hmem m hm
    obtain ⟨raw, -, hraw⟩ := (Fallible.mem_of_mapM hbundles bundle).mp hmem
    rw [(block_of_assembleBundle hraw).2] at hm
    exact absurd hm List.not_mem_nil
  | describe i ch node =>
    intro bundles wanted bundles' new _ hbundles hrun
    exact describeTokens_clean hrun hbundles
  | _ => trivial

theorem IndexerState.keeps_clean [Codec] (s : IndexerState) (a : IndexerAction) :
    s.Keeps BlockBundle.Clean a := by
  cases a with
  | forwardFetch step => exact fun _ _ f _ => step.keeps_clean f
  | descentFetch step => exact fun _ _ f _ => step.keeps_clean f
  | _ => trivial

end Keccak

/-! ## Rows -/

namespace Database

/-- What is stored of a token's texts. -/
def textsOf (db : Database) (token : Bytes) : Option Texts :=
  (db.tokenMetadata.lookup token).map TokenRow.texts

theorem textsOf_upsertTokenMeta (db : Database) (m : TokenMeta) (token : Bytes) :
    (db.upsertTokenMeta m).textsOf token =
      if token = hexBlob m.address then some m.texts else db.textsOf token := by
  rw [textsOf, upsertTokenMeta, Keyed.lookup_upsert]
  split_ifs with htoken
  · cases db.tokenMetadata.lookup (hexBlob m.address) <;> rfl
  · rfl

theorem textsOf_foldl_upsertTokenMeta (metas : List TokenMeta) (db : Database) (token : Bytes) :
    (∃ m ∈ metas, hexBlob m.address = token ∧
      (metas.foldl upsertTokenMeta db).textsOf token = some m.texts) ∨
    (∀ m ∈ metas, hexBlob m.address ≠ token) ∧
      (metas.foldl upsertTokenMeta db).textsOf token = db.textsOf token := by
  induction metas generalizing db with
  | nil => exact .inr ⟨fun m hm => absurd hm List.not_mem_nil, rfl⟩
  | cons m metas ih =>
    rw [List.foldl_cons]
    rcases ih (db.upsertTokenMeta m) with ⟨m', hm', hrest⟩ | ⟨hnone, hsame⟩
    · exact .inl ⟨m', List.mem_cons_of_mem _ hm', hrest⟩
    · rw [textsOf_upsertTokenMeta] at hsame
      by_cases htoken : token = hexBlob m.address
      · rw [if_pos htoken] at hsame
        exact .inl ⟨m, List.mem_cons_self, htoken.symm, hsame⟩
      · rw [if_neg htoken] at hsame
        exact .inr ⟨List.forall_mem_cons.mpr ⟨fun heq => htoken heq.symm, hnone⟩, hsame⟩

theorem CountsMoved.textsOf {db db' : Database} {c : Bytes → ℤ} (h : CountsMoved db db' c)
    (token : Bytes) : db'.textsOf token = db.textsOf token := by
  rw [Database.textsOf, h.2, Option.map_map]
  rfl

/-- **The texts one block's writes leave**: those of what the bundle carries, and those before. -/
theorem textsOf_writeBlock {ch : Choices} {db db' : Database} {bundle : BlockBundle} {nb nt : ℤ}
    (h : db.writeBlock ch bundle = .ok (db', nb, nt)) (token : Bytes) :
    (∃ m ∈ bundle.tokens, db'.textsOf token = some m.texts) ∨
      db'.textsOf token = db.textsOf token := by
  obtain ⟨db1, h1, h⟩ := bind_ok h
  obtain ⟨⟨db2, new⟩, h2, h⟩ := bind_ok h
  obtain ⟨rfl, -⟩ := Prod.mk.inj (Except.ok.inj h)
  have hblock : db1.tokenMetadata = db.tokenMetadata := by
    unfold upsertBlock at h1
    split_ifs at h1
    rw [← Except.ok.inj h1]
  have hrows : db2.tokenMetadata = db.tokenMetadata := by
    rw [(insertTransfers_inserted h2).1, foldl_upsertTransaction]
    exact hblock
  have hbefore : ∀ anchoring : List AnchoringEvent,
      (anchoring.foldl (fun db e => (insertAnchoring db e).1) db2).textsOf token =
        db.textsOf token := by
    intro anchoring
    rw [foldl_insertAnchoring, textsOf, textsOf, ← hrows]
  have hafter : ∀ mid : Database,
      (mid.applyTransferBalances ch new).textsOf token = mid.textsOf token := by
    intro mid
    rw [applyTransferBalances, (addToHolderCounts_moved ch _ _).textsOf, adjustBalances_frame]
    rfl
  rw [hafter]
  rcases textsOf_foldl_upsertTokenMeta bundle.tokens _ token with ⟨m, hm, -, htexts⟩ | ⟨-, hsame⟩
  · exact .inl ⟨m, hm, htexts⟩
  · exact .inr (hsame.trans (hbefore _))

end Database

/-! ## Writers -/

/-- **Every token has the texts it had, or clean ones.** -/
def Database.Cleaner (db db' : Database) : Prop :=
  ∀ token, db'.textsOf token = db.textsOf token ∨ ∃ t, db'.textsOf token = some t ∧ t.Clean

/-- A token's name or symbol has a control character. -/
def Database.Garbled (db : Database) (token : Bytes) : Prop :=
  ∃ t, db.textsOf token = some t ∧
    (hasControlChars t.name.toList = true ∨ hasControlChars t.symbol.toList = true)

theorem Texts.Clean.not_garbled {t : Texts} (h : t.Clean) :
    ¬(hasControlChars t.name.toList = true ∨ hasControlChars t.symbol.toList = true) := by
  rw [h.name, h.symbol]
  simp

namespace Database

variable {db db' db'' : Database}

theorem Cleaner.refl (db : Database) : db.Cleaner db := fun _ => .inl rfl

theorem Cleaner.trans (h : db.Cleaner db') (h' : db'.Cleaner db'') : db.Cleaner db'' := by
  intro token
  rcases h' token with hsame | hclean
  · rw [hsame]
    exact h token
  · exact .inr hclean

theorem Cleaner.garbled (h : db.Cleaner db') {token : Bytes} (hg : db'.Garbled token) :
    db.Garbled token := by
  obtain ⟨t, ht, hcontrol⟩ := hg
  rcases h token with hsame | ⟨t', ht', hclean⟩
  · exact ⟨t, hsame ▸ ht, hcontrol⟩
  · obtain rfl := Option.some.inj (ht.symm.trans ht')
    exact absurd hcontrol hclean.not_garbled

theorem saveBlockBundles_cleaner {ch : ℕ → Choices} {bundles : List BlockBundle}
    (hbundles : ∀ bundle ∈ bundles, bundle.Clean) (h : db.saveBlockBundles ch bundles = .ok db') :
    db.Cleaner db' := by
  refine saveBlockBundles_induction (P := db.Cleaner) ?_ (fun _ _ hd => hd) h (.refl db)
  intro d d' bundle ch nb nt hmem hd hwrite
  refine hd.trans fun token => ?_
  rcases textsOf_writeBlock hwrite token with ⟨m, hm, htexts⟩ | hsame
  · exact .inr ⟨_, htexts, hbundles bundle hmem m hm⟩
  · exact .inl hsame

theorem saveTokenMetadata_cleaner (db : Database) {metas : List TokenMeta}
    (hmetas : ∀ m ∈ metas, m.texts.Clean) : db.Cleaner (db.saveTokenMetadata metas) := by
  intro token
  rcases textsOf_foldl_upsertTokenMeta metas db token with ⟨m, hm, -, htexts⟩ | ⟨-, hsame⟩
  · exact .inr ⟨_, htexts, hmetas m hm⟩
  · exact .inl hsame

theorem textsOf_adjustBalance (db : Database) (token holder : String) (delta : ℤ) (T : Bytes) :
    (db.adjustBalance token holder delta).1.textsOf T = db.textsOf T := by
  unfold adjustBalance
  split_ifs <;> rfl

theorem textsOf_addGenesisRows (rows : List (Holder × String)) (T : Bytes) :
    ∀ (db : Database) (moved : Keyed String ℤ),
      (db.addGenesisRows moved rows).1.textsOf T = db.textsOf T := by
  induction rows with
  | nil => exact fun _ _ => rfl
  | cons row rows ih =>
    obtain ⟨⟨token, holder⟩, balance⟩ := row
    intro db moved
    simp only [addGenesisRows]
    split_ifs
    · exact ih db moved
    · rw [ih, textsOf_adjustBalance]
      rfl

theorem textsOf_updateHolderCount (db : Database) (token : String) (T : Bytes) :
    (db.updateHolderCount token).textsOf T = db.textsOf T := by
  rw [textsOf, updateHolderCount, Keyed.lookup_modify]
  split_ifs with hT
  · rw [hT, Option.map_map]
    rfl
  · rfl

theorem textsOf_foldl_updateHolderCount (tokens : List String) (db : Database) (T : Bytes) :
    (tokens.foldl updateHolderCount db).textsOf T = db.textsOf T := by
  induction tokens generalizing db with
  | nil => rfl
  | cons token tokens ih => rw [List.foldl_cons, ih, textsOf_updateHolderCount]

theorem textsOf_saveGenesisBalances (db : Database) (ch : Choices) (rows : List (Holder × String))
    (cursor : ℤ) (T : Bytes) : (db.saveGenesisBalances ch rows cursor).textsOf T = db.textsOf T := by
  have hkv : ∀ d : Database, (d.setKv genesisCursor (toString cursor)).textsOf T = d.textsOf T :=
    fun _ => rfl
  rw [saveGenesisBalances, hkv, (addToHolderCounts_moved ch _ _).textsOf, textsOf_addGenesisRows]

section Keccak

variable [Keccak]

theorem textsOf_rebuildTokenBalances (db : Database) (ch : Choices) (T : Bytes) :
    (db.rebuildTokenBalances ch).textsOf T = db.textsOf T := by
  have htransfers : ∀ (rows : List TransferRow) (s : Database × List String),
      (rows.foldl replayTransfer s).1.textsOf T = s.1.textsOf T := by
    intro rows
    induction rows with
    | nil => exact fun _ => rfl
    | cons row rows ih =>
      intro s
      rw [List.foldl_cons, ih, replayTransfer, textsOf_adjustBalance, textsOf_adjustBalance]
  have hgenesis : ∀ (rows : List (Σ _ : HolderKey, String)) (s : Database × List String),
      (rows.foldl replayGenesis s).1.textsOf T = s.1.textsOf T := by
    intro rows
    induction rows with
    | nil => exact fun _ => rfl
    | cons row rows ih =>
      intro s
      rw [List.foldl_cons, ih, replayGenesis, textsOf_adjustBalance]
  rw [rebuildTokenBalances, textsOf_foldl_updateHolderCount, hgenesis, htransfers]
  rfl

theorem textsOf_syncHolderCounts (db : Database) (ch : Choices) (T : Bytes) :
    (db.syncHolderCounts ch).textsOf T = db.textsOf T := by
  rw [syncHolderCounts, textsOf_foldl_updateHolderCount]

end Keccak

end Database

/-! ## The repair beside the loops -/

/-- Tokens genesis puts at reserved addresses, as metadata rows are read. -/
def reservedTokens : List String :=
  ["0x20C0000000000000000000000000000000000000", "0x20C0000000000000000000000000000000000001",
    "0x20C0000000000000000000000000000000000002", "0x20C0000000000000000000000000000000000003"]

/-- A row that cannot be trusted. -/
def isStale (address : String) (row : TokenRow) : Bool :=
  reservedTokens.contains address || hasControlChars row.name.toList ||
    hasControlChars row.symbol.toList

theorem isStale_of_control (address : String) {row : TokenRow}
    (h : hasControlChars row.name.toList = true ∨ hasControlChars row.symbol.toList = true) :
    isStale address row = true := by
  rw [isStale, Bool.or_assoc]
  exact Bool.or_eq_true_iff.mpr (.inr (Bool.or_eq_true_iff.mpr h))

/-- The token answered to one of the two views. -/
def TokenMeta.isAnswered (m : TokenMeta) : Bool := !(m.name.isEmpty && m.symbol.isEmpty)

/-- The calls of the other tasks: the genesis loop and the repair of the derived tables. -/
def Call.derives : Call → Bool
  | .saveGenesisBalances .. | .rebuildTokenBalances _ | .syncHolderCounts _ => true
  | .saveBlockBundles .. | .saveTokenMetadata _ => false

def IndexerAction.isCrash : IndexerAction → Bool
  | .crash => true
  | _ => false

/-- Where the repair is: not started, asking for some tokens, about to save what they answered, over
with that, or given up. -/
inductive MetadataPc
  | start
  | asking (stale : List String)
  | saving (metas : List TokenMeta)
  | done (metas : List TokenMeta)
  | failed

structure MetadataState where
  indexer : IndexerState
  pc : MetadataPc

inductive MetadataAction
  | indexer (a : IndexerAction)
  | commit (c : Call) (fails : Bool)
  | readStale (ch : Choices) (fails : Bool)
  | ask (node : Node)
  | save (fails : Bool)

section Keccak

variable [Keccak]

namespace Database

/-- Every stored row. -/
def getAllTokenMetas (db : Database) (ch : Choices) : List (String × TokenRow) :=
  (ch.order db.tokenMetadata.entries).map fun e => (blobAddr e.1, e.2)

/-- The tokens of the rows that cannot be trusted. -/
def staleTokens (db : Database) (ch : Choices) : List String :=
  ((db.getAllTokenMetas ch).filter fun row => isStale row.1 row.2).map Prod.fst

end Database

variable [Codec]

/-- A step of the loops, of another writer, or of the repair, which starts again with the process. -/
def MetadataState.exec (cfg : IndexerConfig) (s : MetadataState) :
    MetadataAction → Option MetadataState
  | .indexer a => (s.indexer.exec cfg a).map fun indexer =>
      ⟨indexer, if a.isCrash then .start else s.pc⟩
  | .commit c fails =>
    if c.derives then
      some { s with indexer := { s.indexer with db := s.indexer.db.attempt c fails } }
    else none
  | .readStale ch fails =>
    match s.pc with
    | .start =>
      -- A query that fails reads as no rows, and then there is nothing to repair.
      if fails then some { s with pc := .failed }
      else
        let stale := s.indexer.db.staleTokens ch
        some { s with pc := if stale.isEmpty then .done [] else .asking stale }
    | _ => none
  | .ask node =>
    match s.pc with
    | .asking stale =>
      match (fetchTokenMetadata stale node []).1 with
      | .ok metas => some { s with pc := .saving metas }
      | .error _ => some { s with pc := .failed }
    | _ => none
  | .save fails =>
    match s.pc with
    | .saving metas =>
      -- The row of a token that answered nothing is left for the next start.
      if fails then some { s with pc := .failed }
      else some ⟨{ s.indexer with
        db := s.indexer.db.saveTokenMetadata (metas.filter TokenMeta.isAnswered) }, .done metas⟩
    | _ => none

/-- **The repair beside the loops and the other writers**, from a database. -/
def repairTokenMetadata (cfg : IndexerConfig) (db : Database) :
    System MetadataState MetadataAction where
  init s := s = ⟨.boot db, .start⟩
  exec := MetadataState.exec cfg

/-! ## What is garbled is repaired -/

/-- Every garbled token is among those the repair has in hand; after it, among those that answered
nothing. -/
def MetadataPc.Sound (db : Database) : MetadataPc → Prop
  | .start | .failed => True
  | .asking stale => ∀ token, db.Garbled token → blobAddr token ∈ stale
  | .saving metas => (∀ m ∈ metas, m.texts.Clean) ∧
      ∀ token, db.Garbled token → ∃ m ∈ metas, hexBlob m.address = token
  | .done metas => ∀ token, db.Garbled token →
      ∃ m ∈ metas, hexBlob m.address = token ∧ m.name = "" ∧ m.symbol = ""

omit [Codec] in
/-- What has become no worse is still in hand. -/
theorem MetadataPc.Sound.cleaner {db db' : Database} {pc : MetadataPc} (h : pc.Sound db)
    (hc : db.Cleaner db') : pc.Sound db' := by
  cases pc with
  | start => trivial
  | failed => trivial
  | asking stale => exact fun token hg => h token (hc.garbled hg)
  | saving metas => exact ⟨h.1, fun token hg => h.2 token (hc.garbled hg)⟩
  | done metas => exact fun token hg => h token (hc.garbled hg)

namespace Database

omit [Codec] in
theorem mem_staleTokens {db : Database} (ch : Choices) {token : Bytes} (h : db.Garbled token) :
    blobAddr token ∈ db.staleTokens ch := by
  obtain ⟨t, ht, hcontrol⟩ := h
  obtain ⟨row, hrow, rfl⟩ := Option.map_eq_some_iff.mp ht
  have hentry : ⟨token, row⟩ ∈ ch.order db.tokenMetadata.entries :=
    (ch.perm _).mem_iff.mpr (AList.mem_lookup_iff.mp hrow)
  have hread : (blobAddr token, row) ∈ db.getAllTokenMetas ch := List.mem_map.mpr ⟨_, hentry, rfl⟩
  have hstale : isStale (blobAddr token) row = true := isStale_of_control _ hcontrol
  rw [staleTokens, List.mem_map]
  refine ⟨(blobAddr token, row), ?_, by dsimp only⟩
  simp only [List.mem_filter, hread, hstale, true_and]

omit [Codec] in
theorem attempt_textsOf (db : Database) {c : Call} (hc : c.derives = true) (fails : Bool)
    (token : Bytes) : (db.attempt c fails).textsOf token = db.textsOf token := by
  refine attempt_induction (P := fun db' => db'.textsOf token = db.textsOf token) rfl
    (fun db' hcall => ?_) fails
  cases c with
  | saveGenesisBalances ch balances cursor =>
    obtain rfl := Except.ok.inj hcall
    exact textsOf_saveGenesisBalances db ch balances cursor token
  | rebuildTokenBalances ch =>
    obtain rfl := Except.ok.inj hcall
    exact textsOf_rebuildTokenBalances db ch token
  | syncHolderCounts ch =>
    obtain rfl := Except.ok.inj hcall
    exact textsOf_syncHolderCounts db ch token
  | saveBlockBundles ch bundles => cases hc
  | saveTokenMetadata metas => cases hc

end Database

omit [Codec] in
theorem exists_meta_of_mem {stale : List String} {node : Node} {log log' : List Exchange}
    {metas : List TokenMeta} (h : fetchTokenMetadata stale node log = (.ok metas, log'))
    {token : Bytes} (hstale : blobAddr token ∈ stale) : ∃ m ∈ metas, hexBlob m.address = token := by
  have hmem : checksumAddress (blobAddr token) ∈ metas.map TokenMeta.address := by
    rw [fetchTokenMetadata_addresses h]
    exact List.mem_map_of_mem hstale
  obtain ⟨m, hm, haddress⟩ := List.mem_map.mp hmem
  refine ⟨m, hm, ?_⟩
  rw [haddress, blobAddr, checksumAddress_checksumAddress]
  exact hexBlob_blobAddr token

omit [Codec] in
theorem sound_saveTokenMetadata {db : Database} {metas : List TokenMeta}
    (h : (MetadataPc.saving metas).Sound db) : (MetadataPc.done metas).Sound
      (db.saveTokenMetadata (metas.filter TokenMeta.isAnswered)) := by
  obtain ⟨hclean, hmetas⟩ := h
  have hcleaner : db.Cleaner (db.saveTokenMetadata (metas.filter TokenMeta.isAnswered)) :=
    db.saveTokenMetadata_cleaner fun m hm => hclean m (List.mem_of_mem_filter hm)
  intro token hg
  obtain ⟨m, hm, haddress⟩ := hmetas token (hcleaner.garbled hg)
  refine ⟨m, hm, haddress, ?_⟩
  by_cases hanswered : m.isAnswered
  · -- Its row was written, and what was written is clean.
    obtain ⟨t, ht, hcontrol⟩ := hg
    rcases Database.textsOf_foldl_upsertTokenMeta (metas.filter TokenMeta.isAnswered) db token with
      ⟨m', hm', -, htexts⟩ | ⟨hnone, -⟩
    · obtain rfl := Option.some.inj (ht.symm.trans htexts)
      exact absurd hcontrol (hclean m' (List.mem_of_mem_filter hm')).not_garbled
    · exact absurd haddress (hnone m (List.mem_filter.mpr ⟨hm, hanswered⟩))
  · simpa [TokenMeta.isAnswered] using hanswered

/-- **The invariant.** -/
structure MetadataState.Inv (db : Database) (s : MetadataState) : Prop where
  inFlight : s.indexer.InFlight BlockBundle.Clean
  cleaner : db.Cleaner s.indexer.db
  consistent : s.indexer.db.Consistent
  sound : s.pc.Sound s.indexer.db

theorem MetadataState.Inv.step {cfg : IndexerConfig} {db : Database} {s s' : MetadataState}
    {a : MetadataAction} (hs : s.Inv db) (h : s.exec cfg a = some s') : s'.Inv db := by
  cases a with
  | indexer a =>
    obtain ⟨indexer, hexec, rfl⟩ := Option.map_eq_some_iff.mp h
    have hstep := IndexerState.step_of_exec hexec
    have hdb : s.indexer.db.Cleaner indexer.db ∧ indexer.db.Consistent := by
      rcases hstep.db_cases with hsame | ⟨ch, hcommit⟩
      · rw [hsame]
        exact ⟨.refl _, hs.consistent⟩
      · exact ⟨Database.saveBlockBundles_cleaner hs.inFlight.batch hcommit,
          Database.saveBlockBundles_consistent hs.consistent hcommit⟩
    refine ⟨hstep.inFlight hs.inFlight (s.indexer.keeps_clean a), hs.cleaner.trans hdb.1, hdb.2, ?_⟩
    by_cases hcrash : a.isCrash
    · simp only [hcrash, if_true]
      trivial
    · simp only [hcrash]
      exact hs.sound.cleaner hdb.1
  | commit c fails =>
    simp only [MetadataState.exec] at h
    split_ifs at h with hc
    obtain rfl := Option.some.inj h
    have hcleaner : s.indexer.db.Cleaner (s.indexer.db.attempt c fails) :=
      fun token => .inl (Database.attempt_textsOf _ hc fails token)
    exact ⟨⟨hs.inFlight.forward, hs.inFlight.descent, hs.inFlight.channel, hs.inFlight.batch⟩,
      hs.cleaner.trans hcleaner, Database.attempt_consistent hs.consistent c fails,
      hs.sound.cleaner hcleaner⟩
  | readStale ch fails =>
    simp only [MetadataState.exec] at h
    split at h
    · split_ifs at h with hfails hempty
      · obtain rfl := Option.some.inj h
        exact ⟨hs.inFlight, hs.cleaner, hs.consistent, trivial⟩
      · obtain rfl := Option.some.inj h
        refine ⟨hs.inFlight, hs.cleaner, hs.consistent, fun token hg => ?_⟩
        have hmem := Database.mem_staleTokens ch hg
        rw [List.isEmpty_iff.mp hempty] at hmem
        exact absurd hmem List.not_mem_nil
      · obtain rfl := Option.some.inj h
        exact ⟨hs.inFlight, hs.cleaner, hs.consistent,
          fun token hg => Database.mem_staleTokens ch hg⟩
    · cases h
  | ask node =>
    simp only [MetadataState.exec] at h
    split at h
    · rename_i stale hpc
      split at h
      · rename_i metas hmetas
        obtain rfl := Option.some.inj h
        have hsound := hs.sound
        rw [hpc] at hsound
        have hrun : fetchTokenMetadata stale node [] =
            (.ok metas, (fetchTokenMetadata stale node []).2) := by
          rw [← hmetas]
        refine ⟨hs.inFlight, hs.cleaner, hs.consistent, fetchTokenMetadata_clean hrun, ?_⟩
        exact fun token hg => exists_meta_of_mem hrun (hsound token hg)
      · obtain rfl := Option.some.inj h
        exact ⟨hs.inFlight, hs.cleaner, hs.consistent, trivial⟩
    · cases h
  | save fails =>
    simp only [MetadataState.exec] at h
    split at h
    · rename_i metas hpc
      split_ifs at h with hfails
      · obtain rfl := Option.some.inj h
        exact ⟨hs.inFlight, hs.cleaner, hs.consistent, trivial⟩
      · obtain rfl := Option.some.inj h
        have hsound := hs.sound
        rw [hpc] at hsound
        have hcleaner : s.indexer.db.Cleaner
            (s.indexer.db.saveTokenMetadata (metas.filter TokenMeta.isAnswered)) :=
          s.indexer.db.saveTokenMetadata_cleaner fun m hm => hsound.1 m (List.mem_of_mem_filter hm)
        exact ⟨⟨hs.inFlight.forward, hs.inFlight.descent, hs.inFlight.channel, hs.inFlight.batch⟩,
          hs.cleaner.trans hcleaner, Database.saveTokenMetadata_consistent hs.consistent _,
          sound_saveTokenMetadata hsound⟩
    · cases h

/-- **The repair heals**: in every state reached, each token has the texts it had at the start or
clean ones, and the balances and the counts are right; once a repair is over, a token whose name or
symbol still has control characters is one that answered with neither. -/
theorem repairTokenMetadata_heals {cfg : IndexerConfig} {db : Database} (hdb : db.Consistent)
    {s : MetadataState} (h : (repairTokenMetadata cfg db).Reachable s) :
    db.Cleaner s.indexer.db ∧ s.indexer.db.Consistent ∧
      ∀ metas, s.pc = .done metas → ∀ token, s.indexer.db.Garbled token →
        ∃ m ∈ metas, hexBlob m.address = token ∧ m.name = "" ∧ m.symbol = "" := by
  have hs : s.Inv db := by
    refine h.invariant (I := MetadataState.Inv db) ?_ ?_
    · rintro s rfl
      exact ⟨IndexerState.inFlight_boot db, .refl db, hdb, trivial⟩
    · exact fun s a s' hs _ hexec => hs.step hexec
  refine ⟨hs.cleaner, hs.consistent, fun metas hpc => ?_⟩
  have hsound := hs.sound
  rw [hpc] at hsound
  exact hsound

end Keccak

/-! ## A token with a garbled name that answers nothing -/

section Sample

attribute [local instance] Keccak.sponge Codec.bare

def feeBytes : Bytes := 0x20 :: 0xc0 :: List.replicate 18 0

def garbledRow : TokenRow := ⟨"\u0001", "", 18, "", "0", "", 0⟩

/-- The fee token, as an older build may have named it. -/
def garbled : Database :=
  { Database.fresh with tokenMetadata := (∅ : Keyed Bytes TokenRow).insert feeBytes garbledRow }

theorem garbled_consistent : garbled.Consistent := by
  refine ⟨Database.fresh_consistent.balanced, fun token row hrow => ?_⟩
  rw [garbled, Keyed.lookup_insert_eq] at hrow
  split_ifs at hrow
  · rw [← Option.some.inj hrow]
    rfl
  · rw [AList.lookup_empty] at hrow
    cases hrow

theorem blobAddr_feeBytes : blobAddr feeBytes = feeToken := by
  have hhex : blobHex feeBytes = "0x20c0000000000000000000000000000000000000" := by rfl
  rw [blobAddr, hhex, feeToken]

theorem staleTokens_garbled : garbled.staleTokens .plain = [feeToken] := by
  have hrows : garbled.getAllTokenMetas .plain = [(feeToken, garbledRow)] := by
    rw [← blobAddr_feeBytes]
    rfl
  have hstale : isStale feeToken garbledRow = true := isStale_of_control _ (.inl (by decide))
  simp only [Database.staleTokens, hrows, List.filter_cons, hstale, if_true, List.filter_nil,
    List.map_cons, List.map_nil]

/-- **The row of a token that answers nothing** is found and left. -/
theorem repairTokenMetadata_heals_unanswered : ∃ s : MetadataState,
    s.pc = .done [feeMeta] ∧ s.indexer.db.Garbled feeBytes ∧
      garbled.Cleaner s.indexer.db ∧ s.indexer.db.Consistent ∧
      ∀ metas, s.pc = .done metas → ∀ token, s.indexer.db.Garbled token →
        ∃ m ∈ metas, hexBlob m.address = token ∧ m.name = "" ∧ m.symbol = "" := by
  have hread : (repairTokenMetadata oneByOne garbled).Reachable
      ⟨.boot garbled, .asking [feeToken]⟩ := by
    refine .step (a := .readStale .plain false) (.start rfl) trivial ?_
    have hdb : (IndexerState.boot garbled).db = garbled := rfl
    simp only [repairTokenMetadata, MetadataState.exec, hdb, staleTokens_garbled]
    rfl
  have hasked : (repairTokenMetadata oneByOne garbled).Reachable
      ⟨.boot garbled, .saving [feeMeta]⟩ := by
    refine .step (a := .ask (feeNode .null)) hread trivial ?_
    obtain ⟨log, hmetas⟩ := fetchTokenMetadata_feeNode .null
    simp only [repairTokenMetadata, MetadataState.exec, hmetas]
  have hnothing : [feeMeta].filter TokenMeta.isAnswered = [] := by rfl
  have hsaved : (repairTokenMetadata oneByOne garbled).Reachable
      ⟨.boot garbled, .done [feeMeta]⟩ := by
    refine .step (a := .save false) hasked trivial ?_
    simp only [repairTokenMetadata, MetadataState.exec, hnothing]
    rfl
  obtain ⟨hcleaner, hconsistent, hdone⟩ := repairTokenMetadata_heals garbled_consistent hsaved
  have hgarbled : garbled.Garbled feeBytes := ⟨garbledRow.texts, rfl, .inl (by decide)⟩
  exact ⟨_, rfl, hgarbled, hcleaner, hconsistent, hdone⟩

end Sample

end ChainExplorer
