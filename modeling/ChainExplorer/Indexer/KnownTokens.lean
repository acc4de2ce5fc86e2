import ChainExplorer.Indexer.Holes
import ChainExplorer.Lib.Collect
import ChainExplorer.Rpc.Served

/-!
# Tokens that are known

A token becomes known when its metadata is fetched, and has a row when a bundle of that fetch is
committed. In between the bundle may be cut off and its block fetched again, or be overtaken by
another that mentions the token.

* `Database.Mentions`, `IndexerState.TokensKept`: a token that is stored as one of a transfer or a
  fee has a row, or is not known.
* `IndexerState.ReadsInOrder`, `IndexerState.CutSpares`: no block is read while the metadata of its
  tokens is on its way behind it, and no cut drops the last block that mentions a token.
* `IndexerState.Tracked`: every known token has a row or is mentioned by a bundle on its way, and each
  of these carries the rows of the tokens it mentions, or has them ahead of it.
* **`indexer_tokensKept`**: in every run that reads in order and cuts so; **`indexer_tokenLost`**: a
  token that is known for good and has no row.
-/

namespace ChainExplorer

open Queue

/-! ## Tokens stored -/

/-- A committed block mentions a token: a transfer of it is stored, or a transaction that paid its
fee in it. -/
def Database.Mentions (db : Database) (token : Bytes) : Prop :=
  (∃ row ∈ db.transferRows, row.tokenAddr = token) ∨
    ∃ hash, ∃ row ∈ db.transactions.lookup hash, row.feeToken = some token

/-- The tokens with a metadata row. -/
def Database.described (db : Database) : Set Bytes := {token | token ∈ db.tokenMetadata}

/-- The tokens a bundle mentions, as they are stored. -/
def BlockBundle.mentioned (bundle : BlockBundle) : List Bytes := (bundleTokenAddrs bundle).map hexBlob

/-- The tokens whose metadata a bundle carries. -/
def BlockBundle.described (bundle : BlockBundle) : Set Bytes :=
  {token | token ∈ bundle.tokens.map fun m => hexBlob m.address}

namespace Database

theorem lookup_putTx (t : Keyed Bytes TxRow) (tx : Transaction) :
    ∃ row, (putTx t tx).lookup (hexBlob tx.hash) = some row ∧
      row.feeToken = tx.feeToken.map hexBlob := by
  rw [putTx, Keyed.lookup_upsert, if_pos rfl]
  cases t.lookup (hexBlob tx.hash) with
  | none => exact ⟨_, rfl, rfl⟩
  | some old => exact ⟨_, rfl, rfl⟩

theorem feeToken_putTx {t : Keyed Bytes TxRow} {tx : Transaction} {hash : Bytes} {row : TxRow}
    (h : row ∈ (putTx t tx).lookup hash) :
    row.feeToken = tx.feeToken.map hexBlob ∨ row ∈ t.lookup hash := by
  by_cases hhash : hash = hexBlob tx.hash
  · obtain ⟨written, hwritten, hfee⟩ := lookup_putTx t tx
    rw [hhash, hwritten] at h
    obtain rfl := Option.some.inj h
    exact .inl hfee
  · rw [putTx, Keyed.lookup_upsert, if_neg hhash] at h
    exact .inr h

theorem feeToken_foldl_putTx {txs : List Transaction} {t : Keyed Bytes TxRow} {hash : Bytes}
    {row : TxRow} (h : row ∈ (txs.foldl putTx t).lookup hash) :
    (∃ tx ∈ txs, row.feeToken = tx.feeToken.map hexBlob) ∨ row ∈ t.lookup hash := by
  induction txs generalizing t with
  | nil => exact .inr h
  | cons tx txs ih =>
    rcases ih h with ⟨tx', htx', hfee⟩ | hmid
    · exact .inl ⟨tx', List.mem_cons_of_mem _ htx', hfee⟩
    · rcases feeToken_putTx hmid with hfee | hold
      · exact .inl ⟨tx, List.mem_cons_self, hfee⟩
      · exact .inr hold

theorem mentions_of_writeBlock {ch : Choices} {db db' : Database} {bundle : BlockBundle} {nb nt : ℤ}
    (h : db.writeBlock ch bundle = .ok (db', nb, nt)) {token : Bytes} (htoken : db'.Mentions token) :
    db.Mentions token ∨ token ∈ bundle.mentioned := by
  obtain ⟨hframe, new, hsub, -, hins⟩ := writeBlock_frame h
  have htxs : db'.transactions = bundle.txs.foldl putTx db.transactions :=
    (congrArg Database.transactions hframe :)
  rcases htoken with ⟨row, hrow, rfl⟩ | ⟨hash, row, hrow, hfee⟩
  · rw [transferRows, hins.rows] at hrow
    rcases List.mem_append.mp hrow with hold | hnew
    · exact .inl (.inl ⟨row, hold, rfl⟩)
    · obtain ⟨t, ht, rfl⟩ := List.mem_map.mp hnew
      refine .inr (List.mem_map.mpr ⟨t.tokenAddr, ?_, rfl⟩)
      exact List.mem_append_left _ (List.mem_map_of_mem (hsub.subset ht))
  · rw [htxs] at hrow
    rcases feeToken_foldl_putTx hrow with ⟨tx, htx, hpaid⟩ | hold
    · obtain ⟨addr, haddr, rfl⟩ := Option.map_eq_some_iff.mp (hpaid.symm.trans hfee)
      refine .inr (List.mem_map.mpr ⟨addr, ?_, rfl⟩)
      exact List.mem_append_right _ (List.mem_filterMap.mpr ⟨tx, htx, haddr⟩)
    · exact .inl (.inr ⟨hash, row, hold, hfee⟩)

theorem mentions_of_saveBlockBundles {ch : ℕ → Choices} {db db' : Database}
    {bundles : List BlockBundle} (h : db.saveBlockBundles ch bundles = .ok db') {token : Bytes}
    (htoken : db'.Mentions token) :
    db.Mentions token ∨ ∃ bundle ∈ bundles, token ∈ bundle.mentioned := by
  refine saveBlockBundles_induction (P := fun d => d.Mentions token →
    db.Mentions token ∨ ∃ bundle ∈ bundles, token ∈ bundle.mentioned) ?_ ?_ h .inl htoken
  · intro d d' bundle ch' nb nt hmem hd hwrite hmentions
    rcases mentions_of_writeBlock hwrite hmentions with hold | hnew
    · exact hd hold
    · exact .inr ⟨bundle, hmem, hnew⟩
  · exact fun d c hd => hd

theorem described_saveBlockBundles {ch : ℕ → Choices} {db db' : Database}
    {bundles : List BlockBundle} (h : db.saveBlockBundles ch bundles = .ok db') :
    db'.described = grown BlockBundle.described db.described bundles := by
  refine saveBlockBundles_keys described BlockBundle.described (fun hwrite => ?_) (fun _ _ => rfl) h
  ext token
  exact mem_tokenMetadata_writeBlock hwrite token

end Database

/-! ## What describes a token -/

/-- Some bundles mention a token. -/
def Mentioned (bundles : List BlockBundle) (addr : String) : Prop :=
  ∃ bundle ∈ bundles, addr ∈ bundleTokenAddrs bundle

/-- Some bundles mint or burn a token. -/
def Moved (bundles : List BlockBundle) (addr : String) : Prop :=
  ∃ bundle ∈ bundles, ∃ t ∈ bundle.transfers,
    (t.fromAddr = zeroAddress ∨ t.toAddr = zeroAddress) ∧ t.tokenAddr = addr

/-- A bundle's tokens are among some tokens or described by the bundle. -/
def BlockBundle.Covered (tokens : Set Bytes) (bundle : BlockBundle) : Prop :=
  ∀ token ∈ bundle.mentioned, token ∈ tokens ∪ bundle.described

theorem BlockBundle.Covered.mono {tokens tokens' : Set Bytes} {bundle : BlockBundle}
    (hsub : tokens ⊆ tokens') (h : bundle.Covered tokens) : bundle.Covered tokens' :=
  fun token htoken => (h token htoken).imp_left fun hin => hsub hin

theorem BlockBundle.Covered.chained {tokens tokens' : Set Bytes} {bundles : List BlockBundle}
    (h : Chained BlockBundle.Covered BlockBundle.described tokens bundles) (hsub : tokens ⊆ tokens') :
    Chained BlockBundle.Covered BlockBundle.described tokens' bundles := by
  refine Chained.mono ?_ hsub h
  exact BlockBundle.Covered.mono

theorem BlockBundle.Covered.mem_grown {tokens : Set Bytes} {bundles : List BlockBundle}
    (h : Chained BlockBundle.Covered BlockBundle.described tokens bundles) {bundle : BlockBundle}
    (hmem : bundle ∈ bundles) {token : Bytes} (htoken : token ∈ bundle.mentioned) :
    token ∈ grown BlockBundle.described tokens bundles := by
  have hcovered : bundle.Covered (grown BlockBundle.described tokens bundles) := by
    refine h.of_mem ?_ hmem
    exact BlockBundle.Covered.mono
  rcases hcovered token htoken with hin | hcarried
  · exact hin
  · exact .inr ⟨bundle, hmem, hcarried⟩

/-- The first bundle of some being covered, their tokens are, or are mentioned by the others. -/
theorem BlockBundle.Covered.mentioned_cons {tokens : Set Bytes} {bundle : BlockBundle}
    (h : bundle.Covered tokens) {rest : List BlockBundle} {addr : String}
    (hmem : Mentioned (bundle :: rest) addr) :
    hexBlob addr ∈ tokens ∪ bundle.described ∨ Mentioned rest addr := by
  obtain ⟨b, hin, haddr⟩ := hmem
  rcases List.mem_cons.mp hin with rfl | hlater
  · exact .inl (h _ (List.mem_map_of_mem haddr))
  · exact .inr ⟨b, hlater, haddr⟩

theorem not_mentioned_nil {addr : String} : ¬Mentioned [] addr :=
  fun ⟨_, hmem, _⟩ => List.not_mem_nil hmem

theorem Mentioned.mono {bundles bundles' : List BlockBundle} (hsub : bundles ⊆ bundles')
    {addr : String} (h : Mentioned bundles addr) : Mentioned bundles' addr :=
  h.imp fun _ hb => ⟨hsub hb.1, hb.2⟩

theorem known_or_wanted {bundles : List BlockBundle} (known : Finset String) {addr : String}
    (h : Mentioned bundles addr) : addr ∈ known ∨ addr ∈ tokensToFetch bundles known := by
  obtain ⟨bundle, hbundle, haddr⟩ := h
  by_cases hknown : addr ∈ known
  · exact .inl hknown
  · refine .inr (List.mem_dedup.mpr (List.mem_flatMap.mpr ⟨bundle, hbundle, ?_⟩))
    exact List.mem_append_left _ (List.mem_filter.mpr ⟨haddr, decide_eq_true hknown⟩)

theorem Moved.wanted {bundles : List BlockBundle} (known : Finset String) {addr : String}
    (h : Moved bundles addr) : addr ∈ tokensToFetch bundles known := by
  obtain ⟨bundle, hbundle, t, ht, hzero, rfl⟩ := h
  refine List.mem_dedup.mpr (List.mem_flatMap.mpr ⟨bundle, hbundle, List.mem_append_right _ ?_⟩)
  exact List.mem_map_of_mem (List.mem_filter.mpr ⟨ht, decide_eq_true hzero⟩)

theorem mentioned_of_wanted {bundles : List BlockBundle} {known : Finset String} {addr : String}
    (h : addr ∈ tokensToFetch bundles known) : Mentioned bundles addr := by
  obtain ⟨bundle, hbundle, haddr⟩ := List.mem_flatMap.mp (List.mem_dedup.mp h)
  refine ⟨bundle, hbundle, ?_⟩
  rcases List.mem_append.mp haddr with haddr | haddr
  · exact (List.mem_filter.mp haddr).1
  · obtain ⟨t, ht, rfl⟩ := List.mem_map.mp haddr
    exact List.mem_append_left _ (List.mem_map_of_mem (List.mem_filter.mp ht).1)

theorem mem_byAddress {metas : List TokenMeta} {addr : String} :
    addr ∈ byAddress metas ↔ addr ∈ metas.map TokenMeta.address := by
  have hfold : ∀ t : Keyed String TokenMeta,
      addr ∈ metas.foldl (fun t m => t.insert m.address m) t ↔
        addr ∈ t ∨ addr ∈ metas.map TokenMeta.address := by
    induction metas with
    | nil => simp
    | cons m metas ih =>
      intro t
      rw [List.foldl_cons, ih, AList.mem_insert, List.map_cons, List.mem_cons]
      tauto
  rw [byAddress, hfold]
  exact or_iff_right (AList.notMem_empty addr)

theorem mem_of_byAddress {metas : List TokenMeta} {addr : String} {m : TokenMeta}
    (h : (byAddress metas).lookup addr = some m) : m ∈ metas ∧ m.address = addr := by
  induction metas using List.reverseRecOn with
  | nil => exact absurd h nofun
  | append_singleton metas last ih =>
    rw [byAddress, List.foldl_append, List.foldl_cons, List.foldl_nil,
      Keyed.lookup_insert_eq] at h
    split_ifs at h with hsame
    · obtain rfl := Option.some.inj h
      exact ⟨List.mem_append_right _ List.mem_cons_self, hsame.symm⟩
    · exact (ih h).imp_left (List.mem_append_left _)

theorem mem_described_describe {ch : Choices} {metas : List TokenMeta} {bundle : BlockBundle}
    {addr : String} (haddr : addr ∈ bundleTokenAddrs bundle)
    (hthere : addr ∈ metas.map TokenMeta.address) :
    hexBlob addr ∈ (describe ch (byAddress metas) bundle).described := by
  obtain ⟨m, hlookup⟩ := Option.isSome_iff_exists.mp (AList.lookup_isSome.mpr (mem_byAddress.mpr hthere))
  obtain ⟨-, rfl⟩ := mem_of_byAddress hlookup
  refine List.mem_map.mpr ⟨m, List.mem_filterMap.mpr ⟨m.address, ?_, hlookup⟩, rfl⟩
  exact (ch.perm _).mem_iff.mpr (List.mem_dedup.mpr haddr)

section Keccak

variable [Keccak]

/-- The node answers the request a step makes for metadata. -/
def FetchStep.Answered (f : RangeFetch) : FetchStep → Prop
  | .describe i ch node => ∀ bundles wanted, f.tasks[i]? = some (.assembled bundles wanted) →
    ∃ metas log, fetchTokenMetadata ((ch 0).order wanted) node [] = (.ok metas, log)
  | _ => True

/-- **Bundles described**: they are the bundles they were, each with the metadata of its tokens that
were asked for, and no other token is known by it. -/
structure Describes (wanted : List String) (bundles bundles' : List BlockBundle)
    (new : Finset String) : Prop where
  back : ∀ bundle ∈ bundles', ∃ before ∈ bundles, bundle.bare = before.bare ∧
    ∀ addr ∈ bundleTokenAddrs before, addr ∈ wanted → hexBlob addr ∈ bundle.described
  mentioned : ∀ addr, Mentioned bundles addr → Mentioned bundles' addr
  new : ∀ addr ∈ new, addr ∈ wanted

theorem describes_of_answered {ch : ℕ → Choices} {wanted : List String}
    {bundles bundles' : List BlockBundle} {new : Finset String} {node : Node}
    (h : (describeTokens ch wanted bundles node []).1 = .ok (bundles', new))
    (hanswer : ∃ metas log, fetchTokenMetadata ((ch 0).order wanted) node [] = (.ok metas, log))
    (hspelled : ∀ addr ∈ wanted, Checksummed addr) : Describes wanted bundles bundles' new := by
  rcases describeTokens_run ch wanted bundles node [] with
    ⟨metas, log, hmetas, hrun⟩ | ⟨e, log, herror, -⟩
  · rw [hrun] at h
    obtain ⟨rfl, rfl⟩ := Prod.mk.inj (Except.ok.inj h)
    have hthere : ∀ addr, addr ∈ metas.map TokenMeta.address ↔ addr ∈ wanted := by
      intro addr
      rw [fetchTokenMetadata_addresses hmetas, List.mem_map]
      refine ⟨fun ⟨asked, hasked, hsame⟩ => ?_, fun haddr => ⟨addr, ?_, (hspelled addr haddr).eq⟩⟩
      · have hmem := ((ch 0).perm wanted).mem_iff.mp hasked
        rwa [← hsame, (hspelled asked hmem).eq]
      · exact ((ch 0).perm wanted).mem_iff.mpr haddr
    refine ⟨fun bundle hbundle => ?_, fun addr ⟨before, hbefore, haddr⟩ => ?_, fun addr haddr => ?_⟩
    · obtain ⟨i, hi, rfl⟩ := List.mem_mapIdx.mp hbundle
      refine ⟨bundles[i], List.getElem_mem hi, rfl, fun addr haddr hwanted => ?_⟩
      exact mem_described_describe haddr ((hthere addr).mpr hwanted)
    · obtain ⟨i, hi, rfl⟩ := List.mem_iff_getElem.mp hbefore
      exact ⟨_, List.mem_mapIdx.mpr ⟨i, hi, rfl⟩, haddr⟩
    · exact (hthere addr).mp (mem_byAddress.mp (List.mem_toFinset.mp haddr))
  · obtain ⟨metas, log', hmetas⟩ := hanswer
    exact absurd (Prod.mk.inj (herror.symm.trans hmetas)).1 nofun

theorem checksummed_of_assemble [Codec] {raws : List RawBlock} {bundles : List BlockBundle}
    (h : assemble raws = some bundles) {addr : String} (haddr : Mentioned bundles addr) :
    Checksummed addr := by
  obtain ⟨bundle, hbundle, haddr⟩ := haddr
  obtain ⟨raw, -, hraw⟩ := (Fallible.mem_of_mapM h bundle).mp hbundle
  obtain ⟨htxs, -, htransfers⟩ := assembleBundle_holds hraw
  rcases List.mem_append.mp haddr with haddr | haddr
  · obtain ⟨t, ht, rfl⟩ := List.mem_map.mp haddr
    exact htransfers t ht
  · obtain ⟨tx, htx, hfee⟩ := List.mem_filterMap.mp haddr
    exact (htxs tx htx).feeToken addr hfee

end Keccak

/-! ## A fetch -/

/-- The bundles of a chunk that came back, with its metadata if any was asked for. -/
def FetchTask.back : FetchTask → List BlockBundle
  | .done bundles => bundles
  | _ => []

/-- The bundles of a fetch that came back. -/
def RangeFetch.back (f : RangeFetch) : List BlockBundle := f.out ++ f.tasks.flatMap FetchTask.back

theorem RangeFetch.mem_bundles {f : RangeFetch} {bundle : BlockBundle} :
    bundle ∈ f.bundles ↔ bundle ∈ f.out := (List.perm_insertionSort _ _).mem_iff

theorem RangeFetch.back_of_isOver {f : RangeFetch} (h : f.isOver = true) : f.back = f.out := by
  rw [isOver, Bool.and_eq_true, List.isEmpty_iff, List.isEmpty_iff] at h
  rw [back, h.2, List.flatMap_nil, List.append_nil]

theorem RangeFetch.mentioned_bundles {f : RangeFetch} (hover : f.isOver = true) {addr : String}
    (h : Mentioned f.back addr) : Mentioned f.bundles addr := by
  rw [back_of_isOver hover] at h
  exact h.mono fun _ => mem_bundles.mpr

theorem RangeFetch.mem_back_set {f : RangeFetch} {i : ℕ} {task task' : FetchTask}
    (h : f.tasks[i]? = some task) (hnil : task.back = []) {bundle : BlockBundle} :
    bundle ∈ RangeFetch.back { f with tasks := f.tasks.set i task' } ↔
      bundle ∈ f.back ∨ bundle ∈ task'.back := by
  rw [back, back, List.mem_append, List.mem_append, Collect.mem_flatMap_set h hnil, or_assoc]

section Keccak

variable [Keccak] [Codec]

theorem RangeFetch.Step.back_subset {known known' : Finset String} {f f' : RangeFetch}
    {step : FetchStep} (h : f.Step known step f' known') : f.back ⊆ f'.back := by
  intro bundle hmem
  cases h with
  | spawn hchunks =>
    rw [RangeFetch.back, List.flatMap_append, ← List.append_assoc]
    exact List.mem_append_left _ hmem
  | failed htask => exact (RangeFetch.mem_back_set htask rfl).mpr (.inl hmem)
  | plain htask hraws hbundles hwanted => exact (RangeFetch.mem_back_set htask rfl).mpr (.inl hmem)
  | assembled htask hraws hbundles => exact (RangeFetch.mem_back_set htask rfl).mpr (.inl hmem)
  | described htask hrun => exact (RangeFetch.mem_back_set htask rfl).mpr (.inl hmem)
  | @joined i bundles htask =>
    have hperm := Collect.perm_flatMap_eraseIdx FetchTask.back htask
    rw [RangeFetch.back, List.append_assoc]
    rcases List.mem_append.mp hmem with hout | htasks
    · exact List.mem_append_left _ hout
    · exact List.mem_append_right _ (hperm.mem_iff.mpr htasks)

end Keccak

/-- The tokens described by what came back of a fetch and is sent before a bundle; `before` is the
order of the numbers in which the loop sends. -/
def RangeFetch.ahead (before : ℤ → ℤ → Prop) (f : RangeFetch) (bundle : BlockBundle) : Set Bytes :=
  {token | ∃ earlier ∈ f.back, before earlier.block.number bundle.block.number ∧
    token ∈ earlier.described}

/-- **No block is read ahead of its tokens' metadata**: each token that a block of the node's answer
mentions is settled, or moved in the chunk, or mentioned by no bundle that came back and is not sent,
or by one of this fetch that is sent before the block. -/
def RangeFetch.ReadsInOrder [Keccak] [Codec] (before : ℤ → ℤ → Prop) (settled : String → Prop)
    (inHand : List BlockBundle) (f : RangeFetch) : FetchStep → Prop
  | .rawBlocks i node => ∀ chunk raws bundles, f.tasks[i]? = some (.asked chunk) →
    (fetchRawBlocks chunk.1 chunk.2 node []).1 = .ok raws → assemble raws = some bundles →
      ∀ bundle ∈ bundles, ∀ addr ∈ bundleTokenAddrs bundle,
        settled addr ∨ Moved bundles addr ∨ ¬Mentioned inHand addr ∨
          ∃ earlier ∈ f.back, before earlier.block.number bundle.block.number ∧
            addr ∈ bundleTokenAddrs earlier
  | _ => True

section Keccak

variable [Keccak]

/-- A chunk waits for the metadata of tokens its blocks mention, of all that are not described
elsewhere. -/
def FetchTask.Awaits (elsewhere : BlockBundle → Set Bytes) : FetchTask → Prop
  | .assembled bundles wanted =>
    (∀ bundle ∈ bundles, ∀ addr ∈ bundleTokenAddrs bundle,
      addr ∈ wanted ∨ hexBlob addr ∈ elsewhere bundle) ∧
    ∀ addr ∈ wanted, Checksummed addr ∧ Mentioned bundles addr
  | _ => True

theorem FetchTask.Awaits.mono {elsewhere elsewhere' : BlockBundle → Set Bytes}
    (hsub : ∀ bundle, elsewhere bundle ⊆ elsewhere' bundle) {task : FetchTask}
    (h : task.Awaits elsewhere) : task.Awaits elsewhere' := by
  cases task with
  | assembled bundles wanted =>
    exact ⟨fun bundle hbundle addr haddr => (h.1 bundle hbundle addr haddr).imp_right fun hin =>
      hsub bundle hin, h.2⟩
  | _ => trivial

/-- **Every bundle that came back is covered** by some tokens, its own metadata and that of the ones
sent before it; those still awaited will be. -/
structure RangeFetch.Covers (before : ℤ → ℤ → Prop) (tokens : Set Bytes) (f : RangeFetch) : Prop where
  back : ∀ bundle ∈ f.back, bundle.Covered (tokens ∪ f.ahead before bundle)
  tasks : ∀ task ∈ f.tasks, task.Awaits fun bundle => tokens ∪ f.ahead before bundle

namespace RangeFetch

variable {before : ℤ → ℤ → Prop} {tokens tokens' : Set Bytes} {f f' : RangeFetch}

omit [Keccak] in
theorem ahead_mono (before : ℤ → ℤ → Prop) (hback : f.back ⊆ f'.back) (bundle : BlockBundle) :
    f.ahead before bundle ⊆ f'.ahead before bundle :=
  fun _ ⟨earlier, hmem, hrest⟩ => ⟨earlier, hback hmem, hrest⟩

theorem covers_first (before : ℤ → ℤ → Prop) (tokens : Set Bytes) (start stop : ℕ) :
    (RangeFetch.first start stop).Covers before tokens where
  back _ hmem := absurd hmem List.not_mem_nil
  tasks _ hmem := absurd hmem List.not_mem_nil

theorem Covers.mono (h : f.Covers before tokens) (hsub : tokens ⊆ tokens') :
    f.Covers before tokens' where
  back bundle hmem := (h.back bundle hmem).mono (Set.union_subset_union_left _ hsub)
  tasks task hmem := (h.tasks task hmem).mono fun _ => Set.union_subset_union_left _ hsub

theorem Covers.set (h : f.Covers before tokens) {i : ℕ} {task task' : FetchTask}
    (htask : f.tasks[i]? = some task) (hnil : task.back = [])
    (hback : ∀ bundle ∈ task'.back, bundle.Covered (tokens ∪ f.ahead before bundle))
    (hawaits : task'.Awaits fun bundle => tokens ∪ f.ahead before bundle) :
    RangeFetch.Covers before tokens { f with tasks := f.tasks.set i task' } := by
  have hgrows : ∀ bundle, tokens ∪ f.ahead before bundle ⊆
      tokens ∪ RangeFetch.ahead before { f with tasks := f.tasks.set i task' } bundle := fun bundle =>
    Set.union_subset_union_right _
      (ahead_mono before (fun _ hmem => (mem_back_set htask hnil).mpr (.inl hmem)) bundle)
  refine ⟨fun bundle hmem => ?_, fun t ht => ?_⟩
  · rcases (mem_back_set htask hnil).mp hmem with hold | hnew
    · exact (h.back bundle hold).mono (hgrows bundle)
    · exact (hback bundle hnew).mono (hgrows bundle)
  · rcases List.mem_or_eq_of_mem_set ht with hold | rfl
    · exact (h.tasks t hold).mono hgrows
    · exact hawaits.mono hgrows

/-- **A token that was read** is asked for, or described by what is sent before. -/
theorem Covers.read (h : f.Covers before tokens)
    (htrans : ∀ {a b c}, before a b → before b c → before a c)
    {known : Finset String} {settled : String → Prop} {inHand : List BlockBundle}
    (hknown : ∀ addr ∈ known, hexBlob addr ∈ tokens ∨ Mentioned inHand addr)
    (hsettled : ∀ addr, settled addr → hexBlob addr ∈ tokens) {bundles : List BlockBundle}
    {bundle : BlockBundle} (hmem : bundle ∈ bundles) {addr : String}
    (haddr : addr ∈ bundleTokenAddrs bundle)
    (hread : settled addr ∨ Moved bundles addr ∨ ¬Mentioned inHand addr ∨
      ∃ earlier ∈ f.back, before earlier.block.number bundle.block.number ∧
        addr ∈ bundleTokenAddrs earlier) :
    addr ∈ tokensToFetch bundles known ∨ hexBlob addr ∈ tokens ∪ f.ahead before bundle := by
  rcases hread with hset | hmoved | hnone | ⟨earlier, hearlier, hbefore, hin⟩
  · exact .inr (.inl (hsettled addr hset))
  · exact .inl (hmoved.wanted known)
  · rcases known_or_wanted known ⟨bundle, hmem, haddr⟩ with hold | hwanted
    · exact .inr (.inl ((hknown addr hold).resolve_right hnone))
    · exact .inl hwanted
  · -- The earlier bundle is covered itself, and what is sent before it is sent before this one.
    rcases h.back earlier hearlier _ (List.mem_map_of_mem hin) with (hrow | hfirst) | hcarried
    · exact .inr (.inl hrow)
    · obtain ⟨first, hfirst, hlt, hdescribed⟩ := hfirst
      exact .inr (.inr ⟨first, hfirst, htrans hlt hbefore, hdescribed⟩)
    · exact .inr (.inr ⟨earlier, hearlier, hbefore, hcarried⟩)

variable [Codec]

theorem Step.covers {known known' : Finset String} {step : FetchStep}
    (h : f.Step known step f' known') (hf : f.Covers before tokens)
    (htrans : ∀ {a b c}, before a b → before b c → before a c) {settled : String → Prop}
    {inHand : List BlockBundle}
    (hknown : ∀ addr ∈ known, hexBlob addr ∈ tokens ∨ Mentioned inHand addr)
    (hsettled : ∀ addr, settled addr → hexBlob addr ∈ tokens) (hanswer : step.Answered f)
    (hread : f.ReadsInOrder before settled inHand step) :
    f'.Covers before tokens ∧ ∀ addr ∈ known', addr ∈ known ∨ Mentioned f'.back addr := by
  cases h with
  | @spawn chunk rest hchunks =>
    have hsame : RangeFetch.back { f with chunks := rest, tasks := f.tasks ++ [.asked chunk] } =
        f.back := by
      simp [RangeFetch.back, FetchTask.back]
    have hgrows := ahead_mono before fun bundle (hmem : bundle ∈ f.back) => hsame.symm ▸ hmem
    refine ⟨⟨fun bundle hmem => ?_, fun task htask => ?_⟩, fun addr hin => .inl hin⟩
    · rw [hsame] at hmem
      exact (hf.back bundle hmem).mono (Set.union_subset_union_right _ (hgrows bundle))
    · rcases List.mem_append.mp htask with hold | hnew
      · exact (hf.tasks task hold).mono fun bundle => Set.union_subset_union_right _ (hgrows bundle)
      · rw [List.mem_singleton.mp hnew]
        trivial
  | failed htask => exact ⟨hf.set htask rfl (fun _ hmem => absurd hmem List.not_mem_nil) trivial,
      fun addr hin => .inl hin⟩
  | @plain i node chunk raws bundles htask hraws hbundles hwanted =>
    refine ⟨hf.set htask rfl (fun bundle hmem token htoken => ?_) trivial, fun addr hin => .inl hin⟩
    have hmem : bundle ∈ bundles := hmem
    obtain ⟨addr, haddr, rfl⟩ := List.mem_map.mp htoken
    rcases hf.read htrans hknown hsettled hmem haddr
      (hread chunk raws bundles htask hraws hbundles bundle hmem addr haddr) with hasked | hin
    · rw [hwanted] at hasked
      exact absurd hasked List.not_mem_nil
    · exact .inl hin
  | @assembled i node chunk raws bundles htask hraws hbundles =>
    refine ⟨hf.set htask rfl (fun _ hmem => absurd hmem List.not_mem_nil)
      ⟨fun bundle hmem addr haddr => ?_, fun addr hwanted => ?_⟩, fun addr hin => .inl hin⟩
    · exact hf.read htrans hknown hsettled hmem haddr
        (hread chunk raws bundles htask hraws hbundles bundle hmem addr haddr)
    · have hmentioned := mentioned_of_wanted hwanted
      exact ⟨checksummed_of_assemble hbundles hmentioned, hmentioned⟩
  | @described i ch node bundles bundles' wanted new htask hrun =>
    obtain ⟨hawaits, hasked⟩ := hf.tasks _ (List.mem_of_getElem? htask)
    have hdescribes := describes_of_answered hrun (hanswer bundles wanted htask)
      fun addr hin => (hasked addr hin).1
    refine ⟨hf.set htask rfl (fun bundle hmem token htoken => ?_) trivial, fun addr hin => ?_⟩
    · obtain ⟨bare, hbare, hsame, hcarried⟩ := hdescribes.back bundle hmem
      have haddrs : bundleTokenAddrs bundle = bundleTokenAddrs bare :=
        (congrArg bundleTokenAddrs hsame :)
      have hblock : bundle.block = bare.block := (congrArg BlockBundle.block hsame :)
      obtain ⟨addr, haddr, rfl⟩ := List.mem_map.mp htoken
      rw [haddrs] at haddr
      rcases hawaits bare hbare addr haddr with hwanted | hin
      · exact .inr (hcarried addr haddr hwanted)
      · rw [ahead, hblock]
        exact .inl hin
    · rcases Finset.mem_union.mp hin with hold | hnew
      · exact .inl hold
      · refine .inr ((hdescribes.mentioned addr (hasked addr (hdescribes.new addr hnew)).2).mono ?_)
        exact fun bundle hmem => (mem_back_set htask rfl).mpr (.inr hmem)
  | @joined i bundles htask =>
    have hsame : ∀ bundle, bundle ∈ RangeFetch.back
        { f with tasks := f.tasks.eraseIdx i, out := f.out ++ bundles } ↔ bundle ∈ f.back := by
      intro bundle
      have hperm := (Collect.perm_flatMap_eraseIdx FetchTask.back htask).append_left f.out
      rw [RangeFetch.back, List.append_assoc]
      exact hperm.mem_iff
    have hgrows := ahead_mono before fun bundle hmem => (hsame bundle).mpr hmem
    refine ⟨⟨fun bundle hmem => ?_, fun task hmem => ?_⟩, fun addr hin => .inl hin⟩
    · exact (hf.back bundle ((hsame bundle).mp hmem)).mono
        (Set.union_subset_union_right _ (hgrows bundle))
    · exact (hf.tasks task (List.mem_of_mem_eraseIdx hmem)).mono fun bundle =>
        Set.union_subset_union_right _ (hgrows bundle)

omit [Codec] in
/-- **A cut keeps what covers the bundles it keeps**, as it drops only bundles sent after them. -/
theorem Covers.chained (h : f.Covers before tokens) (hover : f.isOver = true)
    {sorted kept : List BlockBundle} (hmem : ∀ bundle, bundle ∈ sorted ↔ bundle ∈ f.out)
    (hsorted : sorted.Pairwise fun a b => ¬before b.block.number a.block.number)
    (hirrefl : ∀ n, ¬before n n) (hkept : kept <+: sorted) :
    Chained BlockBundle.Covered BlockBundle.described tokens kept := by
  refine chained_of_forall fun first bundle later hsplit token htoken => ?_
  obtain ⟨dropped, hdropped⟩ := hkept
  rw [hsplit, List.append_assoc, List.cons_append] at hdropped
  rw [← hdropped] at hsorted hmem
  have hback : bundle ∈ f.back := by
    rw [back_of_isOver hover, ← hmem]
    exact List.mem_append_right _ List.mem_cons_self
  rcases h.back bundle hback token htoken with (hrow | ⟨earlier, hearlier, hlt, hin⟩) | hcarried
  · exact .inl (.inl hrow)
  · rw [back_of_isOver hover, ← hmem] at hearlier
    rcases List.mem_append.mp hearlier with hfirst | hrest
    · exact .inl (.inr ⟨earlier, hfirst, hin⟩)
    · rcases List.mem_cons.mp hrest with rfl | hlater
      · exact absurd hlt (hirrefl _)
      · have hpair := (List.pairwise_append.mp hsorted).2.1
        exact absurd hlt ((List.pairwise_cons.mp hpair).1 earlier hlater)
  · exact .inr hcarried

end RangeFetch

end Keccak

/-! ## What is on its way -/

/-- The bundles of the forward loop that came back and are not sent. -/
def ForwardPc.back : ForwardPc → List BlockBundle
  | .fetching _ _ f => f.back
  | .sending _ _ rest => rest
  | _ => []

/-- Those of the descent. -/
def DescentPc.back : DescentPc → List BlockBundle
  | .fetching _ _ f => f.back
  | .sending _ rest => rest
  | _ => []

section Keccak

variable [Keccak]

/-- What the forward loop is to send, lower numbers first, is covered. -/
def ForwardPc.Covers (tokens : Set Bytes) : ForwardPc → Prop
  | .fetching _ _ f => f.Covers (· < ·) tokens
  | .sending _ _ rest => Chained BlockBundle.Covered BlockBundle.described tokens rest
  | _ => True

/-- What the descent is to send, higher numbers first, is. -/
def DescentPc.Covers (tokens : Set Bytes) : DescentPc → Prop
  | .fetching _ _ f => f.Covers (· > ·) tokens
  | .sending _ rest => Chained BlockBundle.Covered BlockBundle.described tokens rest
  | _ => True

theorem ForwardPc.Covers.mono {tokens tokens' : Set Bytes} {pc : ForwardPc} (h : pc.Covers tokens)
    (hsub : tokens ⊆ tokens') : pc.Covers tokens' := by
  cases pc with
  | fetching sent head f => exact RangeFetch.Covers.mono h hsub
  | sending reached head rest => exact BlockBundle.Covered.chained h hsub
  | _ => trivial

theorem DescentPc.Covers.mono {tokens tokens' : Set Bytes} {pc : DescentPc} (h : pc.Covers tokens)
    (hsub : tokens ⊆ tokens') : pc.Covers tokens' := by
  cases pc with
  | fetching frontier target f => exact RangeFetch.Covers.mono h hsub
  | sending reached rest => exact BlockBundle.Covered.chained h hsub
  | _ => trivial

namespace IndexerState

/-- **No token is known without being stored**: one that a committed block mentions has a row, or is
not known. -/
def TokensKept (s : IndexerState) : Prop :=
  ∀ token, s.db.Mentions token → token ∈ s.db.tokenMetadata ∨ ∀ addr ∈ s.known, hexBlob addr ≠ token

/-- The node answers every request for metadata. -/
def MetadataAnswered (s : IndexerState) : IndexerAction → Prop
  | .forwardFetch step => ∀ sent head f, s.forward = .fetching sent head f → step.Answered f
  | .descentFetch step => ∀ frontier target f, s.descent = .fetching frontier target f →
    step.Answered f
  | _ => True

omit [Keccak] in
/-- A token has a row, or a bundle queued for the writer mentions it. -/
def Settled (s : IndexerState) (addr : String) : Prop :=
  hexBlob addr ∈ s.db.tokenMetadata ∨ Mentioned s.queue addr

omit [Keccak] in
/-- The bundles of both loops that came back and are not sent. -/
def inHand (s : IndexerState) : List BlockBundle := s.forward.back ++ s.descent.back

/-- **No block is read ahead of its tokens' metadata** by either loop. -/
def ReadsInOrder [Codec] (s : IndexerState) : IndexerAction → Prop
  | .forwardFetch step => ∀ sent head f, s.forward = .fetching sent head f →
    f.ReadsInOrder (· < ·) s.Settled s.inHand step
  | .descentFetch step => ∀ frontier target f, s.descent = .fetching frontier target f →
    f.ReadsInOrder (· > ·) s.Settled s.inHand step
  | _ => True

omit [Keccak] in
/-- **No cut drops the last block that mentions a token**: each token of what came back is settled,
or a block that is kept, or that the other loop has in hand, mentions it. -/
def CutSpares (s : IndexerState) : IndexerAction → Prop
  | .forwardFetched => ∀ sent head f, s.forward = .fetching sent head f → f.isOver = true →
    ∀ addr, Mentioned f.bundles addr →
      s.Settled addr ∨ Mentioned (contiguousFrom f.bundles (sent + 1)) addr ∨
        Mentioned s.descent.back addr
  | .descentFetched => ∀ frontier target f, s.descent = .fetching frontier target f →
    f.isOver = true → ∀ addr, Mentioned f.bundles addr →
      s.Settled addr ∨ Mentioned (contiguousDownTo f.bundles (wrapU64 (target - 1))) addr ∨
        Mentioned s.forward.back addr
  | _ => True

omit [Keccak] in
/-- The tokens that have a row once the queue is written. -/
def coming (s : IndexerState) : Set Bytes :=
  grown BlockBundle.described s.db.described s.queue

/-- **What every state keeps**: a known token has a row once the queue is written, or a bundle in
hand mentions it; what is queued carries the metadata of its tokens or has it ahead, and what is in
hand will; and every token stored has a row. -/
structure Tracked (s : IndexerState) : Prop where
  known : ∀ addr ∈ s.known,
    hexBlob addr ∈ s.coming ∨ Mentioned s.forward.back addr ∨ Mentioned s.descent.back addr
  forward : s.forward.Covers s.coming
  descent : s.descent.Covers s.coming
  queue : Chained BlockBundle.Covered BlockBundle.described s.db.described s.queue
  stored : ∀ token, s.db.Mentions token → token ∈ s.db.described

omit [Keccak] in
theorem coming_concat (s : IndexerState) (bundle : BlockBundle) :
    coming { s with channel := s.channel ++ [bundle] } = s.coming ∪ bundle.described := by
  rw [coming, queue, ← List.append_assoc, grown_concat]
  rfl

namespace Tracked

variable {s : IndexerState}

theorem boot {db : Database} (h : ∀ token, db.Mentions token → token ∈ db.described) :
    (IndexerState.boot db).Tracked where
  known addr hknown := by
    obtain ⟨token, htoken, rfl⟩ := List.mem_map.mp (List.mem_toFinset.mp hknown)
    rw [hexBlob_blobAddr]
    exact .inl (.inl (AList.mem_keys.mp htoken))
  forward := trivial
  descent := trivial
  queue := trivial
  stored := h

theorem tokensKept (h : s.Tracked) : s.TokensKept :=
  fun token htoken => .inl (h.stored token htoken)

theorem coming_of_settled (h : s.Tracked) {addr : String} (hset : s.Settled addr) :
    hexBlob addr ∈ s.coming := by
  rcases hset with hrow | ⟨bundle, hmem, haddr⟩
  · exact .inl hrow
  · exact BlockBundle.Covered.mem_grown h.queue hmem (List.mem_map_of_mem haddr)

theorem known_inHand (h : s.Tracked) : ∀ addr ∈ s.known,
    hexBlob addr ∈ s.coming ∨ Mentioned s.inHand addr := by
  intro addr hknown
  refine (h.known addr hknown).imp_right fun hmem => ?_
  rcases hmem with hforward | hdescent
  · exact hforward.mono (List.subset_append_left _ _)
  · exact hdescent.mono (List.subset_append_right _ _)

/-- The forward loop goes on, and the tokens of what it drops are described or mentioned
elsewhere. -/
theorem moveForward (h : s.Tracked) {pc : ForwardPc} (hcovers : pc.Covers s.coming)
    (hback : ∀ addr, Mentioned s.forward.back addr →
      hexBlob addr ∈ s.coming ∨ Mentioned pc.back addr ∨ Mentioned s.descent.back addr) :
    Tracked { s with forward := pc } := by
  refine { h with known := fun addr hknown => ?_, forward := hcovers }
  rcases h.known addr hknown with hcoming | hforward | hdescent
  · exact .inl hcoming
  · exact hback addr hforward
  · exact .inr (.inr hdescent)

theorem moveDescent (h : s.Tracked) {pc : DescentPc} (hcovers : pc.Covers s.coming)
    (hback : ∀ addr, Mentioned s.descent.back addr →
      hexBlob addr ∈ s.coming ∨ Mentioned s.forward.back addr ∨ Mentioned pc.back addr) :
    Tracked { s with descent := pc } := by
  refine { h with known := fun addr hknown => ?_, descent := hcovers }
  rcases h.known addr hknown with hcoming | hforward | hdescent
  · exact .inl hcoming
  · exact .inr (.inl hforward)
  · exact hback addr hdescent

theorem moveIdleForward (h : s.Tracked) (pc : ForwardPc) (hidle : s.forward.back = [])
    (hcovers : pc.Covers s.coming) : Tracked { s with forward := pc } :=
  h.moveForward hcovers fun _ hmem => absurd (hidle ▸ hmem) not_mentioned_nil

theorem moveIdleDescent (h : s.Tracked) (pc : DescentPc) (hidle : s.descent.back = [])
    (hcovers : pc.Covers s.coming) : Tracked { s with descent := pc } :=
  h.moveDescent hcovers fun _ hmem => absurd (hidle ▸ hmem) not_mentioned_nil

theorem send (h : s.Tracked) {bundle : BlockBundle} (hcovered : bundle.Covered s.coming) :
    Tracked { s with channel := s.channel ++ [bundle] } := by
  have hcoming := coming_concat s bundle
  refine ⟨?_, ?_, ?_, ?_, h.stored⟩
  · rw [hcoming]
    exact fun addr hknown => (h.known addr hknown).imp_left .inl
  · rw [hcoming]
    exact h.forward.mono Set.subset_union_left
  · rw [hcoming]
    exact h.descent.mono Set.subset_union_left
  · rw [IndexerState.queue, ← List.append_assoc]
    exact chained_concat.mpr ⟨h.queue, hcovered⟩

theorem sendForward (h : s.Tracked) {reached head : ℕ} {b : BlockBundle} {rest : List BlockBundle}
    (hpc : s.forward = .sending reached head (b :: rest)) :
    Tracked { s with channel := s.channel ++ [b], forward := .sending reached head rest } := by
  have hcovers := h.forward
  have hback : s.forward.back = b :: rest := by rw [hpc]; rfl
  rw [hpc] at hcovers
  obtain ⟨hfirst, hrest⟩ := hcovers
  refine (h.send hfirst).moveForward ?_ fun addr hmem => ?_
  · rw [coming_concat]
    exact hrest
  · rw [hback] at hmem
    rw [coming_concat]
    exact (hfirst.mentioned_cons hmem).imp_right .inl

theorem sendDescent (h : s.Tracked) {reached : ℕ} {b : BlockBundle} {rest : List BlockBundle}
    (hpc : s.descent = .sending reached (b :: rest)) :
    Tracked { s with channel := s.channel ++ [b], descent := .sending reached rest } := by
  have hcovers := h.descent
  have hback : s.descent.back = b :: rest := by rw [hpc]; rfl
  rw [hpc] at hcovers
  obtain ⟨hfirst, hrest⟩ := hcovers
  refine (h.send hfirst).moveDescent ?_ fun addr hmem => ?_
  · rw [coming_concat]
    exact hrest
  · rw [hback] at hmem
    rw [coming_concat]
    exact (hfirst.mentioned_cons hmem).imp_right .inr

theorem save (h : s.Tracked) {ch : ℕ → Choices} {db : Database}
    (hsave : s.db.saveBlockBundles ch s.batch = .ok db) :
    Tracked { s with db := db, batch := [] } := by
  obtain ⟨hbatch, hchannel⟩ := chained_append.mp h.queue
  have hrows := Database.described_saveBlockBundles hsave
  have hcoming : coming { s with db := db, batch := [] } = s.coming := by
    rw [coming, coming, IndexerState.queue, IndexerState.queue, List.nil_append, grown_append, hrows]
  refine ⟨?_, ?_, ?_, ?_, fun token htoken => ?_⟩
  · rw [hcoming]
    exact h.known
  · rw [hcoming]
    exact h.forward
  · rw [hcoming]
    exact h.descent
  · rw [hrows]
    exact hchannel
  · rw [hrows]
    rcases Database.mentions_of_saveBlockBundles hsave htoken with hold | ⟨bundle, hmem, hnew⟩
    · exact .inl (h.stored token hold)
    · exact BlockBundle.Covered.mem_grown hbatch hmem hnew

theorem take (h : s.Tracked) (hbatch : s.batch = []) {s' : IndexerState} (hs' : s' = { s with
    batch := s.channel.take maxBatch, channel := s.channel.drop maxBatch }) : s'.Tracked := by
  subst hs'
  have hqueue : IndexerState.queue { s with
      batch := s.channel.take maxBatch, channel := s.channel.drop maxBatch } = s.queue := by
    rw [IndexerState.queue, IndexerState.queue, hbatch, List.nil_append, List.take_append_drop]
  have hcoming : coming { s with
      batch := s.channel.take maxBatch, channel := s.channel.drop maxBatch } = s.coming := by
    rw [coming, hqueue, coming]
  refine ⟨?_, ?_, ?_, ?_, h.stored⟩
  · rw [hcoming]
    exact h.known
  · rw [hcoming]
    exact h.forward
  · rw [hcoming]
    exact h.descent
  · rw [hqueue]
    exact h.queue

variable [Codec] {cfg : IndexerConfig}

theorem forwardFetch (h : s.Tracked) {step : FetchStep} {sent head : ℕ} {f f' : RangeFetch}
    {known : Finset String} (hpc : s.forward = .fetching sent head f)
    (hstep : f.Step s.known step f' known) (hanswer : step.Answered f)
    (hread : f.ReadsInOrder (· < ·) s.Settled s.inHand step) :
    Tracked { s with known := known, forward := .fetching sent head f' } := by
  have hf := h.forward
  have hback : s.forward.back = f.back := by rw [hpc]; rfl
  rw [hpc] at hf
  obtain ⟨hcovers, hnew⟩ := hstep.covers hf lt_trans h.known_inHand
    (fun _ => h.coming_of_settled) hanswer hread
  refine { h with known := fun addr hknown => ?_, forward := hcovers }
  rcases hnew addr hknown with hold | hmentioned
  · refine (h.known addr hold).imp_right (.imp_left fun hmem => ?_)
    rw [hback] at hmem
    exact hmem.mono hstep.back_subset
  · exact .inr (.inl hmentioned)

theorem descentFetch (h : s.Tracked) {step : FetchStep} {frontier : Option ℕ} {target : ℕ}
    {f f' : RangeFetch} {known : Finset String} (hpc : s.descent = .fetching frontier target f)
    (hstep : f.Step s.known step f' known) (hanswer : step.Answered f)
    (hread : f.ReadsInOrder (· > ·) s.Settled s.inHand step) :
    Tracked { s with known := known, descent := .fetching frontier target f' } := by
  have hf := h.descent
  have hback : s.descent.back = f.back := by rw [hpc]; rfl
  rw [hpc] at hf
  obtain ⟨hcovers, hnew⟩ := hstep.covers hf gt_trans h.known_inHand
    (fun _ => h.coming_of_settled) hanswer hread
  refine { h with known := fun addr hknown => ?_, descent := hcovers }
  rcases hnew addr hknown with hold | hmentioned
  · refine (h.known addr hold).imp_right (.imp_right fun hmem => ?_)
    rw [hback] at hmem
    exact hmem.mono hstep.back_subset
  · exact .inr (.inr hmentioned)

omit [Codec] in
theorem cutForward (h : s.Tracked) {sent head : ℕ} {f : RangeFetch}
    (hpc : s.forward = .fetching sent head f) (hover : f.isOver = true)
    (hcut : s.CutSpares .forwardFetched) {pc : ForwardPc} (hcovers : pc.Covers s.coming)
    (hkept : pc.back = contiguousFrom f.bundles (sent + 1)) : Tracked { s with forward := pc } := by
  refine h.moveForward hcovers fun addr hmem => ?_
  rw [hpc] at hmem
  rw [hkept]
  exact (hcut sent head f hpc hover addr (RangeFetch.mentioned_bundles hover hmem)).imp_left
    h.coming_of_settled

omit [Codec] in
theorem cutDescent (h : s.Tracked) {frontier : Option ℕ} {target : ℕ} {f : RangeFetch}
    (hpc : s.descent = .fetching frontier target f) (hover : f.isOver = true)
    (hcut : s.CutSpares .descentFetched) {pc : DescentPc} (hcovers : pc.Covers s.coming)
    (hkept : contiguousDownTo f.bundles (wrapU64 (target - 1)) ⊆ pc.back) :
    Tracked { s with descent := pc } := by
  refine h.moveDescent hcovers fun addr hmem => ?_
  rw [hpc] at hmem
  have hbundles := RangeFetch.mentioned_bundles hover hmem
  rcases hcut frontier target f hpc hover addr hbundles with hset | hkeeps | hother
  · exact .inl (h.coming_of_settled hset)
  · exact .inr (.inr (hkeeps.mono hkept))
  · exact .inr (.inl hother)

end Tracked

end IndexerState

omit [Keccak] in
theorem RangeFetch.pairwise_bundles (f : RangeFetch) :
    f.bundles.Pairwise fun a b => a.block.number ≤ b.block.number := List.pairwise_insertionSort _ _

variable [Codec]

/-- **One step keeps it**, if the node answers for the metadata, no block is read ahead of it and no
cut drops the last block that mentions a token. -/
theorem IndexerState.Step.tracked {cfg : IndexerConfig} {s s' : IndexerState} {a : IndexerAction}
    (h : s.Step cfg a s') (hs : s.Tracked) (hanswered : s.MetadataAnswered a)
    (hread : s.ReadsInOrder a) (hcut : s.CutSpares a) : s'.Tracked := by
  have hidle : ∀ {pc : ForwardPc}, s.forward = pc → pc.back = [] → s.forward.back = [] :=
    fun hpc hnil => hpc ▸ hnil
  have hidle' : ∀ {pc : DescentPc}, s.descent = pc → pc.back = [] → s.descent.back = [] :=
    fun hpc hnil => hpc ▸ hnil
  cases h with
  | announce hmax => exact { hs with }
  | forwardBoot hpc => exact { hs.moveIdleForward (.waiting _) (hidle hpc rfl) trivial with }
  | receiveFirst hpc hheads =>
    exact { hs.moveIdleForward (.seeding _) (hidle hpc rfl) trivial with }
  | receive hpc hheads hseed =>
    exact { hs.moveIdleForward (.catching _ _) (hidle hpc rfl) trivial with }
  | seededAbove hpc hlatest =>
    exact { hs.moveIdleForward (.waiting _) (hidle hpc rfl) trivial with }
  | seeded hpc hlatest hsent hlt =>
    exact { hs.moveIdleForward (.catching _ _) (hidle hpc rfl) trivial with }
  | unseeded hpc hlatest => exact hs.moveIdleForward (.waiting _) (hidle hpc rfl) trivial
  | seedWait hpc hlatest => exact hs
  | catchUp hpc hlt =>
    exact { hs.moveIdleForward (.fetching _ _ (.first _ _)) (hidle hpc rfl)
      (RangeFetch.covers_first _ _ _ _) with }
  | caughtUp hpc hle => exact { hs.moveIdleForward (.waiting _) (hidle hpc rfl) trivial with }
  | @forwardFetch step sent head f f' known hpc hstep =>
    exact hs.forwardFetch hpc (RangeFetch.step_of_exec hstep) (hanswered sent head f hpc)
      (hread sent head f hpc)
  | forwardNothing hpc hover hnil => exact hs.cutForward hpc hover hcut trivial hnil.symm
  | @forwardFetched sent head f last hpc hover hlast =>
    have hf := hs.forward
    rw [hpc] at hf
    refine hs.cutForward hpc hover hcut ?_ rfl
    exact hf.chained hover (fun _ => RangeFetch.mem_bundles)
      (f.pairwise_bundles.imp fun hle => not_lt.mpr hle) (fun n => lt_irrefl n)
      (isPrefix_contiguousFrom _ _)
  | forwardSend hpc => exact { hs.sendForward hpc with }
  | forwardSentAll hpc => exact hs.moveIdleForward (.catching _ _) (hidle hpc rfl) trivial
  | descentBoot hpc => exact { hs.moveIdleDescent (.top _) (hidle' hpc rfl) trivial with }
  | yield hpc => exact hs
  | pickBelow hpc hmin =>
    exact hs.moveIdleDescent _ (hidle' hpc rfl) (RangeFetch.covers_first _ _ _ _)
  | pickNone hpc hmin => exact hs.moveIdleDescent .low (hidle' hpc rfl) trivial
  | pickHead hpc hlag hhead =>
    exact { hs.moveIdleDescent (.fetching _ _ (.first _ _)) (hidle' hpc rfl)
      (RangeFetch.covers_first _ _ _ _) with }
  | readLowest hpc => exact { hs.moveIdleDescent (.top _) (hidle' hpc rfl) trivial with }
  | @descentFetch step frontier target f f' known hpc hstep =>
    exact hs.descentFetch hpc (RangeFetch.step_of_exec hstep) (hanswered frontier target f hpc)
      (hread frontier target f hpc)
  | descentNothing hpc hover hnil =>
    exact hs.cutDescent hpc hover hcut trivial (hnil ▸ List.nil_subset _)
  | @descentFetched frontier target f lowest hpc hover hhead =>
    have hf := hs.descent
    rw [hpc] at hf
    refine hs.cutDescent hpc hover hcut ?_ fun _ hmem => List.mem_reverse.mpr hmem
    have hall : ∀ bundle, bundle ∈ f.bundles.reverse ↔ bundle ∈ f.out := fun _ =>
      List.mem_reverse.trans RangeFetch.mem_bundles
    refine hf.chained hover hall ?_ (fun n => lt_irrefl n) ?_
    · exact List.pairwise_reverse.mpr (f.pairwise_bundles.imp fun hle => not_lt.mpr hle)
    · rw [contiguousDownTo, List.reverse_reverse]
      exact isPrefix_descending _ _
  | descentSend hpc => exact { hs.sendDescent hpc with }
  | descentSentAll hpc => exact hs.moveIdleDescent (.top _) (hidle' hpc rfl) trivial
  | writerTake hbatch => exact hs.take hbatch rfl
  | writerFails => exact hs
  | writerSaves hsave => exact hs.save hsave
  | crash => exact .boot hs.stored

/-- **No token is known without being stored**, whatever blocks the node has, the order of steps,
the chunks, the commits and the crashes, in every run in which the node answers for the metadata, no
block is read ahead of the metadata of its tokens and no cut drops the last block that mentions
one. -/
theorem indexer_tokensKept {cfg : IndexerConfig} {db : Database} {s : IndexerState}
    (hdb : ∀ token, db.Mentions token → token ∈ db.tokenMetadata)
    (h : (indexer cfg db).ReachableUnder
      (fun s a => s.MetadataAnswered a ∧ s.ReadsInOrder a ∧ s.CutSpares a) s) : s.TokensKept := by
  have hs : s.Tracked := by
    refine h.invariant ?_ ?_
    · rintro s rfl
      exact .boot hdb
    · intro s a s' hs hok hexec
      exact (IndexerState.step_of_exec hexec).tracked hs hok.1 hok.2.1 hok.2.2
  exact hs.tokensKept

end Keccak

/-! ## A fetch that is cut -/

section Sample

attribute [local instance] Keccak.sponge Codec.bare

theorem exists_results (answer : MethodCall → Json) (log : List Exchange) (calls : List MethodCall) :
    ∃ results, (batchExchange (answeringNode answer) log calls).results = .ok results := by
  unfold batchExchange batchRequest
  split
  · exact ⟨_, rfl⟩
  · exact ⟨_, rfl⟩

theorem exists_fetchTokenMetadata (answer : MethodCall → Json) (addresses : List String) :
    ∃ metas log, fetchTokenMetadata addresses (answeringNode answer) [] = (.ok metas, log) := by
  by_cases hempty : (addresses.map checksumAddress).isEmpty
  · refine ⟨[], [], ?_⟩
    rw [fetchTokenMetadata, if_pos hempty]
    rfl
  · let calls := (addresses.map checksumAddress).flatMap tokenCalls
    obtain ⟨results, hresults⟩ := exists_results answer [] calls
    have hbatch : batchCall calls (answeringNode answer) [] =
        (.ok results, [batchExchange (answeringNode answer) [] calls]) := by
      rw [batchCall_eq, hresults]
      rfl
    refine ⟨tokenMetas (addresses.map checksumAddress) results,
      [batchExchange (answeringNode answer) [] calls], ?_⟩
    rw [fetchTokenMetadata, if_neg hempty]
    exact Rpc.bind_run hbatch _

def feeBlock : Json := .obj [("number", .str "0x1"), ("hash", .str "0x01"),
  ("transactions", .arr [.obj [("hash", .str "0xaa")]])]

def feeReceipts : Json := .arr [.obj [("transactionHash", .str "0xaa"),
  ("feeToken", .str "0x20c0000000000000000000000000000000000000")]]

/-- Two blocks, of which the node may not have the second. -/
def feeAnswer (second : Json) : MethodCall → Json
  | ⟨"eth_blockNumber", _⟩ => quantity 2
  | ⟨"eth_getBlockByNumber", .arr (.str "0x1" :: _)⟩ => feeBlock
  | ⟨"eth_getBlockByNumber", _⟩ => second
  | ⟨"eth_getBlockReceipts", _⟩ => feeReceipts
  | _ => .str "0x"

def feeNode (second : Json) : Node := answeringNode (feeAnswer second)

/-- The token the first block's transaction paid its fee in. -/
def feeToken : String := checksumAddress "0x20c0000000000000000000000000000000000000"

theorem checksumAddress_feeToken : checksumAddress feeToken = feeToken := by
  rw [feeToken, checksumAddress_checksumAddress]

def feeMeta : TokenMeta := tokenMeta feeToken (List.replicate 5 (.ok (.str "0x")))

/-- The first block, with some metadata. -/
def feeBundle (tokens : List TokenMeta) : BlockBundle :=
  { (assembleBundle feeBlock (some feeReceipts)).getD (bareBundle 1) with tokens := tokens }

theorem assemble_feeBlock :
    assemble [⟨1, feeBlock, some feeReceipts⟩] = some [feeBundle []] := by
  rfl

theorem assemble_both : assemble [⟨1, feeBlock, some feeReceipts⟩, ⟨2, bareBlock 2, none⟩] =
    some [feeBundle [], bareBundle 2] := by
  rfl

theorem fetchRawBlocks_feeNode :
    (fetchRawBlocks 1 2 (feeNode .null) []).1 = .ok [⟨1, feeBlock, some feeReceipts⟩] := by
  rw [fetchRawBlocks]
  rfl

theorem fetchRawBlocks_feeNode_both :
    (fetchRawBlocks 1 2 (feeNode (bareBlock 2)) []).1 =
      .ok [⟨1, feeBlock, some feeReceipts⟩, ⟨2, bareBlock 2, none⟩] := by
  rw [fetchRawBlocks]
  rfl

theorem batchCall_tokenCalls (second : Json) (address : String) :
    batchCall (tokenCalls address) (feeNode second) [] =
      (.ok (List.replicate 5 (.ok (.str "0x"))),
        [batchExchange (feeNode second) [] (tokenCalls address)]) := by
  have hresults : (batchExchange (feeNode second) [] (tokenCalls address)).results =
      batchResults 5 (.body (.arr ((List.range 5).map fun i =>
        .obj [("id", .int (i + 1)), ("result", .str "0x")]))) := by
    rfl
  rw [batchCall_eq, hresults]
  rfl

theorem fetchTokenMetadata_feeNode (second : Json) :
    ∃ log, fetchTokenMetadata [feeToken] (feeNode second) [] = (.ok [feeMeta], log) := by
  refine ⟨[batchExchange (feeNode second) [] (tokenCalls feeToken)], ?_⟩
  rw [fetchTokenMetadata, List.map_singleton, checksumAddress_feeToken, List.flatMap_singleton]
  exact Rpc.bind_run (batchCall_tokenCalls second feeToken) _

theorem bundleTokenAddrs_feeBundle (tokens : List TokenMeta) :
    bundleTokenAddrs (feeBundle tokens) = [feeToken] := by
  rfl

theorem bundleTokenAddrs_bareBundle (n : ℕ) : bundleTokenAddrs (bareBundle n) = [] := by
  rfl

/-- The metadata goes to the bundle that mentions its token. -/
theorem describe_feeBundle :
    describe .plain (byAddress [feeMeta]) (feeBundle []) = feeBundle [feeMeta] := by
  have haddress : feeToken = feeMeta.address := rfl
  have hlookup : (byAddress [feeMeta]).lookup feeToken = some feeMeta := by
    rw [byAddress, List.foldl_cons, List.foldl_nil, Keyed.lookup_insert_eq, if_pos haddress]
  have hfilter : [feeToken].filterMap (byAddress [feeMeta]).lookup = [feeMeta] :=
    List.filterMap_cons_some hlookup
  have hdedup : [feeToken].dedup = [feeToken] := by simp
  have horder : Choices.plain.order [feeToken] = [feeToken] := rfl
  rw [describe, bundleTokenAddrs_feeBundle, hdedup, horder, hfilter]
  rfl

/-- Two blocks in one window. -/
def twoAtOnce : IndexerConfig := ⟨2, 1⟩

section Window

variable {ok : IndexerState → IndexerAction → Prop}
  (hok : ∀ s a, s.MetadataAnswered a → s.ReadsInOrder a → s.CutSpares a → ok s a)
include hok

/-- A descent from height 2 asks for both blocks. -/
theorem reachable_asked {s : IndexerState} (h : (indexer twoAtOnce .fresh).ReachableUnder ok s)
    (htop : s.descent = .top none) (hlag : s.tipLag = 0) :
    (indexer twoAtOnce .fresh).ReachableUnder ok { s with
      target := 3
      descentSent := []
      descent := .fetching none 3 ⟨[], [.asked (1, 2)], []⟩ } := by
  have hwindow : (indexer twoAtOnce .fresh).ReachableUnder ok { s with
      target := 3
      descentSent := []
      descent := .fetching none 3 (.first 1 2) } := by
    refine .step (a := .pickTarget (feeNode .null)) h (hok _ _ trivial trivial trivial) ?_
    simp only [indexer, IndexerState.exec, htop, hlag]
    rfl
  exact .step (a := .descentFetch .spawn) hwindow
    (hok _ _ (fun _ _ _ _ => trivial) (fun _ _ _ _ => trivial) trivial) rfl

/-- A chunk that is read while nothing is in hand is read in order. -/
theorem ok_read {s : IndexerState} {node : Node} (hforward : s.forward = .boot)
    (hpc : s.descent = .fetching none 3 ⟨[], [.asked (1, 2)], []⟩) :
    ok s (.descentFetch (.rawBlocks 0 node)) := by
  refine hok _ _ (fun _ _ _ _ => trivial) ?_ trivial
  intro frontier target f hf chunk raws bundles _ _ _ bundle _ addr _
  refine .inr (.inr (.inl ?_))
  rw [IndexerState.inHand, hforward, hpc]
  exact not_mentioned_nil

theorem reachable_described {s : IndexerState} {raws : List RawBlock} {bundles : List BlockBundle}
    {second : Json} (hraws : (fetchRawBlocks 1 2 (feeNode second) []).1 = .ok raws)
    (hbundles : assemble raws = some bundles) (hwanted : tokensToFetch bundles s.known = [feeToken])
    (h : (indexer twoAtOnce .fresh).ReachableUnder ok s) (hforward : s.forward = .boot)
    (hpc : s.descent = .fetching none 3 ⟨[], [.asked (1, 2)], []⟩) :
    (indexer twoAtOnce .fresh).ReachableUnder ok { s with
      known := s.known ∪ {feeToken}
      descent := .fetching none 3
        ⟨[], [], bundles.mapIdx fun _ b => describe .plain (byAddress [feeMeta]) b⟩ } := by
  have hassembled : (indexer twoAtOnce .fresh).ReachableUnder ok { s with
      descent := .fetching none 3 ⟨[], [.assembled bundles [feeToken]], []⟩ } := by
    refine .step (a := .descentFetch (.rawBlocks 0 (feeNode second))) h (ok_read hok hforward hpc) ?_
    simp only [indexer, IndexerState.exec, hpc, RangeFetch.exec, List.getElem?_cons_zero, hraws,
      hbundles, hwanted]
    rfl
  have hrun : (describeTokens (fun _ => .plain) [feeToken] bundles (feeNode second) []).1 =
      .ok (bundles.mapIdx fun _ b => describe .plain (byAddress [feeMeta]) b, {feeToken}) := by
    obtain ⟨log, hmetas⟩ := fetchTokenMetadata_feeNode second
    rcases describeTokens_run (fun _ => .plain) [feeToken] bundles (feeNode second) [] with
      ⟨metas, log', hmetas', hrun⟩ | ⟨e, log', herror, -⟩
    · obtain rfl := Except.ok.inj (Prod.mk.inj (hmetas.symm.trans hmetas')).1
      rw [hrun]
      rfl
    · cases (Prod.mk.inj (herror.symm.trans hmetas)).1
  have hdescribed : (indexer twoAtOnce .fresh).ReachableUnder ok { s with
      known := s.known ∪ {feeToken}
      descent := .fetching none 3
        ⟨[], [.done (bundles.mapIdx fun _ b => describe .plain (byAddress [feeMeta]) b)], []⟩ } := by
    refine .step (a := .descentFetch (.describe 0 (fun _ => .plain) (feeNode second))) hassembled
      (hok _ _ (fun _ _ _ _ _ _ _ => exists_fetchTokenMetadata _ _) (fun _ _ _ _ => trivial)
        trivial) ?_
    simp only [indexer, IndexerState.exec, RangeFetch.exec, List.getElem?_cons_zero, hrun]
    rfl
  exact .step (a := .descentFetch (.join 0)) hdescribed
    (hok _ _ (fun _ _ _ _ => trivial) (fun _ _ _ _ => trivial) trivial) rfl

theorem reachable_known {s : IndexerState} (hknown : feeToken ∈ s.known)
    (h : (indexer twoAtOnce .fresh).ReachableUnder ok s) (hforward : s.forward = .boot)
    (hpc : s.descent = .fetching none 3 ⟨[], [.asked (1, 2)], []⟩) :
    (indexer twoAtOnce .fresh).ReachableUnder ok
      { s with descent := .fetching none 3 ⟨[], [], [feeBundle [], bareBundle 2]⟩ } := by
  have hwanted : tokensToFetch [feeBundle [], bareBundle 2] s.known = [] := by
    have hfee : (feeBundle []).transfers = [] := by rfl
    have hbare : (bareBundle 2).transfers = [] := by rfl
    simp [tokensToFetch, bundleTokenAddrs_feeBundle, bundleTokenAddrs_bareBundle, hfee, hbare, hknown]
  have hdone : (indexer twoAtOnce .fresh).ReachableUnder ok
      { s with descent := .fetching none 3 ⟨[], [.done [feeBundle [], bareBundle 2]], []⟩ } := by
    refine .step (a := .descentFetch (.rawBlocks 0 (feeNode (bareBlock 2)))) h
      (ok_read hok hforward hpc) ?_
    simp only [indexer, IndexerState.exec, hpc, RangeFetch.exec, List.getElem?_cons_zero,
      fetchRawBlocks_feeNode_both, assemble_both, hwanted]
    rfl
  exact .step (a := .descentFetch (.join 0)) hdone
    (hok _ _ (fun _ _ _ _ => trivial) (fun _ _ _ _ => trivial) trivial) rfl

theorem reachable_stored {s : IndexerState} {tokens : List TokenMeta}
    (h : (indexer twoAtOnce .fresh).ReachableUnder ok s)
    (hpc : s.descent = .fetching none 3 ⟨[], [], [feeBundle tokens, bareBundle 2]⟩)
    (hdb : s.db = .fresh) (hbatch : s.batch = []) (hchannel : s.channel = [])
    {db : Database} (hsave : Database.fresh.saveBlockBundles (fun _ => .plain)
      [bareBundle 2, feeBundle tokens] = .ok db) :
    ∃ t, (indexer twoAtOnce .fresh).ReachableUnder ok t ∧ t.known = s.known ∧ t.db = db := by
  have hsending : (indexer twoAtOnce .fresh).ReachableUnder ok
      { s with descent := .sending 1 [bareBundle 2, feeBundle tokens] } := by
    refine .step (a := .descentFetched) h (hok _ _ trivial trivial ?_) ?_
    · -- Nothing is dropped.
      intro frontier target f hf _ addr hmem
      obtain ⟨-, rfl, rfl⟩ := DescentPc.fetching.inj (hpc.symm.trans hf)
      exact .inr (.inl hmem)
    · simp only [indexer, IndexerState.exec, hpc]
      rfl
  have hfirst : (indexer twoAtOnce .fresh).ReachableUnder ok { s with
      channel := [bareBundle 2]
      descent := .sending 1 [feeBundle tokens]
      descentSent := s.descentSent ++ [2] } := by
    refine .step (a := .descentSend) hsending (hok _ _ trivial trivial trivial) ?_
    simp only [indexer, IndexerState.exec, hchannel]
    rfl
  have hsecond : (indexer twoAtOnce .fresh).ReachableUnder ok { s with
      channel := [bareBundle 2, feeBundle tokens]
      descent := .sending 1 []
      descentSent := s.descentSent ++ [2] ++ [1] } :=
    .step (a := .descentSend) hfirst (hok _ _ trivial trivial trivial) rfl
  have htaken : (indexer twoAtOnce .fresh).ReachableUnder ok { s with
      batch := [bareBundle 2, feeBundle tokens]
      channel := []
      descent := .sending 1 []
      descentSent := s.descentSent ++ [2] ++ [1] } := by
    refine .step (a := .writerTake) hsecond (hok _ _ trivial trivial trivial) ?_
    simp only [indexer, IndexerState.exec, hbatch]
    rfl
  refine ⟨{ s with
      db := db
      batch := []
      channel := []
      descent := .sending 1 []
      descentSent := s.descentSent ++ [2] ++ [1] }, ?_, rfl, rfl⟩
  refine .step (a := .writerSave (fun _ => .plain) false) htaken
    (hok _ _ trivial trivial trivial) ?_
  simp only [indexer, IndexerState.exec, hdb, hsave]
  rfl

/-- A process that has read an empty database asks for both blocks. -/
theorem reachable_asked_empty : (indexer twoAtOnce .fresh).ReachableUnder ok
    { IndexerState.boot .fresh with
      target := 3
      descent := .fetching none 3 ⟨[], [.asked (1, 2)], []⟩ } := by
  have htop : (indexer twoAtOnce .fresh).ReachableUnder ok
      { IndexerState.boot .fresh with descent := .top none } :=
    .step (a := .descentBoot) (.start rfl) (hok _ _ trivial trivial trivial) rfl
  have hasked := reachable_asked hok htop rfl rfl
  exact hasked

end Window

theorem mentions_feeToken {tokens : List TokenMeta} {db : Database}
    (hsave : Database.fresh.saveBlockBundles (fun _ => .plain) [bareBundle 2, feeBundle tokens] =
      .ok db) : db.Mentions (hexBlob feeToken) := by
  obtain ⟨mid, x, y, hwrites, rfl⟩ := Database.saveBlockBundles_ok hsave
  obtain ⟨⟨db1, nb1, nt1⟩, -, hwrites⟩ := Database.bind_ok hwrites
  obtain ⟨⟨db2, nb2, nt2⟩, hwrite, hwrites⟩ := Database.bind_ok hwrites
  obtain rfl : db2 = mid := (Prod.mk.inj (Except.ok.inj hwrites)).1
  obtain ⟨tx, htxs, hpaid⟩ : ∃ tx, (feeBundle tokens).txs = [tx] ∧ tx.feeToken = some feeToken :=
    ⟨_, rfl, rfl⟩
  have hrows : db2.transactions = Database.putTx db1.transactions tx := by
    rw [(congrArg Database.transactions (Database.writeBlock_frame hwrite).1 :), htxs]
    rfl
  obtain ⟨row, hrow, hfee⟩ := Database.lookup_putTx db1.transactions tx
  rw [Database.addToCounter_frame, Database.addToCounter_frame db2]
  refine .inr ⟨hexBlob tx.hash, row, ?_, ?_⟩
  · rw [hrows]
    exact hrow
  · rw [hfee, hpaid]
    rfl

theorem mentions_fresh {token : Bytes} (h : Database.fresh.Mentions token) : False := by
  rcases h with ⟨row, hrow, -⟩ | ⟨hash, row, hrow, -⟩
  · exact absurd hrow List.not_mem_nil
  · exact absurd hrow nofun

/-- **A token is described and stored**, and known. -/
theorem indexer_tokensKept_described : ∃ s : IndexerState,
    feeToken ∈ s.known ∧ s.db.Mentions (hexBlob feeToken) ∧ s.TokensKept := by
  have hok : ∀ (s : IndexerState) (a : IndexerAction), s.MetadataAnswered a → s.ReadsInOrder a →
      s.CutSpares a → s.MetadataAnswered a ∧ s.ReadsInOrder a ∧ s.CutSpares a :=
    fun s a hanswered hread hcut => ⟨hanswered, hread, hcut⟩
  have hfetched := reachable_described hok fetchRawBlocks_feeNode_both assemble_both (by rfl)
    (reachable_asked_empty hok) rfl rfl
  have hout : [feeBundle [], bareBundle 2].mapIdx
      (fun _ b => describe .plain (byAddress [feeMeta]) b) = [feeBundle [feeMeta], bareBundle 2] := by
    rw [← describe_feeBundle]
    rfl
  rw [hout] at hfetched
  obtain ⟨db, hsave⟩ := Database.exists_commit .fresh [bareBundle 2, feeBundle [feeMeta]] (by decide)
  obtain ⟨t, ht, hknown, rfl⟩ := reachable_stored hok hfetched rfl rfl rfl rfl hsave
  refine ⟨t, ?_, mentions_feeToken hsave,
    indexer_tokensKept (fun token htoken => (mentions_fresh htoken).elim) ht⟩
  rw [hknown]
  exact Finset.mem_union_right _ (Finset.mem_singleton_self _)

/-- **A token lost**: the first block comes back without the second, its token is described, and the
fetch is cut. Fetched again with the second, the block is stored without the metadata, as the token
is known. -/
theorem indexer_tokenLost : ¬ ∀ s : IndexerState,
    (indexer twoAtOnce .fresh).ReachableUnder IndexerState.MetadataAnswered s → s.TokensKept := by
  intro hall
  have hok : ∀ (s : IndexerState) (a : IndexerAction), s.MetadataAnswered a → s.ReadsInOrder a →
      s.CutSpares a → s.MetadataAnswered a := fun _ _ hanswered _ _ => hanswered
  have hfetched := reachable_described hok fetchRawBlocks_feeNode assemble_feeBlock (by rfl)
    (reachable_asked_empty hok) rfl rfl
  have hout : [feeBundle []].mapIdx (fun _ b => describe .plain (byAddress [feeMeta]) b) =
      [feeBundle [feeMeta]] := by
    rw [← describe_feeBundle]
    rfl
  rw [hout] at hfetched
  have hcut : (indexer twoAtOnce .fresh).ReachableUnder IndexerState.MetadataAnswered
      { IndexerState.boot .fresh with
        known := (IndexerState.boot .fresh).known ∪ {feeToken}
        target := 3
        descent := .top none } :=
    .step (a := .descentFetched) hfetched trivial rfl
  have hmem : feeToken ∈ (IndexerState.boot .fresh).known ∪ {feeToken} :=
    Finset.mem_union_right _ (Finset.mem_singleton_self _)
  have hagain := reachable_known hok hmem (reachable_asked hok hcut rfl rfl) rfl rfl
  obtain ⟨db, hsave⟩ := Database.exists_commit .fresh [bareBundle 2, feeBundle []] (by decide)
  obtain ⟨t, ht, hknown, rfl⟩ := reachable_stored hok hagain rfl rfl rfl rfl hsave
  rcases hall t ht _ (mentions_feeToken hsave) with hrow | habsent
  · have hrows : hexBlob feeToken ∈ t.db.described := hrow
    rw [Database.described_saveBlockBundles hsave] at hrows
    rcases hrows with hold | ⟨bundle, hbundle, hcarried⟩
    · exact absurd hold (AList.notMem_empty _)
    · have htokens : bundle.tokens = [] := by
        rcases List.mem_pair.mp hbundle with rfl | rfl
        · rfl
        · rfl
      rw [BlockBundle.described, htokens] at hcarried
      exact absurd hcarried List.not_mem_nil
  · exact habsent feeToken (hknown ▸ hmem) rfl

end Sample

end ChainExplorer
