import ChainExplorer.Db.Ledger
import ChainExplorer.Lib.Queue

/-!
# What the block writes do

One statement for each write of a block; what follows cites these and unfolds no write.

* `Inserted t t' new`: the transfers `new` were appended to the table under fresh ids.
* `Settled b db db' d`: the balances moved from `b` by `d`, the holder counts with them.
* **`writeBlock_written`**: one block's writes, table by table.
* **`saveBlockBundles_induction`**: what every block's writes keep, the transaction keeps.
-/

namespace ChainExplorer

open Ledger (balanceOf balanceOf_perm balanceOf_net postings net Holds)
open Queue (grown grown_nil grown_cons)

/-! ## Transfers -/

/-- The unique key of a transfer. -/
def transferKey (t : TransferEvent) : LogKey := (t.blockNumber, t.logIndex)

/-- **The transfers `new` were appended**, each under an id past the old sequence. -/
structure Inserted (t t' : SeqTable LogKey TransferRow) (new : List TransferEvent) : Prop where
  entries : ∃ added, t'.entries = t.entries ++ added ∧ (∀ e ∈ added, t.seq < e.id) ∧
    added.map (fun e => (e.key, e.row)) = new.map fun x => (transferKey x, transferRow x)
  seq_le : t.seq ≤ t'.seq

namespace Inserted

variable {t t' t'' : SeqTable LogKey TransferRow} {new new' : List TransferEvent}

theorem refl (t : SeqTable LogKey TransferRow) : Inserted t t [] where
  entries := ⟨[], (List.append_nil _).symm, by simp, rfl⟩
  seq_le := le_rfl

theorem trans (h : Inserted t t' new) (h' : Inserted t' t'' new') :
    Inserted t t'' (new ++ new') := by
  obtain ⟨added, he, hid, hrow⟩ := h.entries
  obtain ⟨added', he', hid', hrow'⟩ := h'.entries
  refine ⟨⟨added ++ added', by rw [he', he, List.append_assoc], fun e hmem => ?_, ?_⟩,
    h.seq_le.trans h'.seq_le⟩
  · rcases List.mem_append.mp hmem with hmem | hmem
    · exact hid e hmem
    · exact h.seq_le.trans_lt (hid' e hmem)
  · rw [List.map_append, List.map_append, hrow, hrow']

theorem keyedRows (h : Inserted t t' new) :
    t'.entries.map (fun e => (e.key, e.row)) =
      t.entries.map (fun e => (e.key, e.row)) ++ new.map fun x => (transferKey x, transferRow x) := by
  obtain ⟨added, he, -, hrow⟩ := h.entries
  rw [he, List.map_append, hrow]

theorem keys (h : Inserted t t' new) :
    t'.entries.map Entry.key = t.entries.map Entry.key ++ new.map transferKey := by
  have hrows := congrArg (List.map Prod.fst) h.keyedRows
  simpa only [List.map_append, List.map_map, Function.comp_def] using hrows

theorem rows (h : Inserted t t' new) :
    t'.entries.map Entry.row = t.entries.map Entry.row ++ new.map transferRow := by
  have hrows := congrArg (List.map Prod.snd) h.keyedRows
  simpa only [List.map_append, List.map_map, Function.comp_def] using hrows

theorem mem_of_mem (h : Inserted t t' new) {e : Entry LogKey TransferRow} (he : e ∈ t.entries) :
    e ∈ t'.entries := by
  obtain ⟨added, heq, -, -⟩ := h.entries
  rw [heq]
  exact List.mem_append_left _ he

theorem mem_or_lt (h : Inserted t t' new) {e : Entry LogKey TransferRow} (he : e ∈ t'.entries) :
    e ∈ t.entries ∨ t.seq < e.id := by
  obtain ⟨added, heq, hid, -⟩ := h.entries
  rw [heq] at he
  exact (List.mem_append.mp he).imp_right (hid e)

end Inserted

/-- The journal of a list of new transfers. -/
def newPostings (new : List TransferEvent) : List (HolderKey × ℤ) :=
  (new.map transferRow).flatMap rowPostings

theorem map_flatMap_transferPostings (new : List TransferEvent) :
    (new.flatMap Database.transferPostings).map (Prod.map holderKey id) = newPostings new := by
  rw [newPostings, List.map_flatMap, List.flatMap_map]
  rfl

namespace Database

theorem bind_ok {ε α β : Type} {x : Except ε α} {f : α → Except ε β} {r : β}
    (h : (x >>= f) = .ok r) : ∃ a, x = .ok a ∧ f a = .ok r := by
  cases x with
  | error e => exact absurd h nofun
  | ok a => exact ⟨a, rfl, h⟩

theorem insertTransfer_inserted {ch : Choices} {db : Database} {t : TransferEvent}
    {db' : Database} {isNew : Bool} (h : db.insertTransfer ch t = .ok (db', isNew)) :
    db' = { db with transferEvents := db'.transferEvents } ∧
      transferKey t ∈ db'.transferEvents.entries.map Entry.key ∧
      Inserted db.transferEvents db'.transferEvents (if isNew then [t] else []) := by
  unfold insertTransfer at h
  by_cases hmax : ch.nextId db.transferEvents.seq ≤ maxId
  swap
  · rw [dif_neg hmax] at h
    exact absurd h nofun
  rw [dif_pos hmax] at h
  obtain ⟨rfl, rfl⟩ := Prod.mk.inj (Except.ok.inj h)
  refine ⟨rfl, ?_⟩
  cases hk : db.transferEvents.has (t.blockNumber, t.logIndex) with
  | true =>
    rw [SeqTable.insertOrIgnore_of_has (ch.lt_nextId _) hmax hk]
    exact ⟨SeqTable.has_iff.mp hk, .refl _⟩
  | false =>
    have happend := SeqTable.entries_insertOrIgnore_of_not_has (ch.lt_nextId _) hmax
      (r := transferRow t) hk
    have hle := SeqTable.seq_le_insertOrIgnore (k := transferKey t) (r := transferRow t)
      (ch.lt_nextId db.transferEvents.seq) hmax
    refine ⟨?_, ⟨_, happend, fun e he => ?_, rfl⟩, hle⟩
    · rw [happend, List.map_append]
      exact List.mem_append_right _ (List.mem_singleton.mpr rfl)
    · rw [List.mem_singleton.mp he]
      exact ch.lt_nextId _

theorem insertTransfers_inserted {ch : Choices} {ts : List TransferEvent} :
    ∀ {db db' : Database} {new : List TransferEvent}, db.insertTransfers ch ts = .ok (db', new) →
      db' = { db with transferEvents := db'.transferEvents } ∧ new.Sublist ts ∧
        (∀ t ∈ ts, transferKey t ∈ db'.transferEvents.entries.map Entry.key) ∧
        Inserted db.transferEvents db'.transferEvents new := by
  induction ts with
  | nil =>
    intro db db' new h
    obtain ⟨rfl, rfl⟩ := Prod.mk.inj (Except.ok.inj h)
    exact ⟨rfl, .slnil, by simp, .refl _⟩
  | cons t ts ih =>
    intro db db' new h
    rw [insertTransfers] at h
    obtain ⟨⟨db1, isNew⟩, h1, h⟩ := bind_ok h
    obtain ⟨⟨db2, inserted⟩, h2, h⟩ := bind_ok h
    obtain ⟨rfl, rfl⟩ := Prod.mk.inj (Except.ok.inj h)
    obtain ⟨hf1, hk1, hi1⟩ := insertTransfer_inserted h1
    obtain ⟨hf2, hs2, hk2, hi2⟩ := ih h2
    have hi := hi1.trans hi2
    refine ⟨by rw [hf2, hf1], ?_, fun t' ht' => ?_, ?_⟩
    · cases isNew with
      | true => exact hs2.cons_cons t
      | false => exact hs2.cons t
    · rcases List.mem_cons.mp ht' with rfl | ht'
      · rw [hi2.keys]
        exact List.mem_append_left _ hk1
      · exact hk2 t' ht'
    · cases isNew <;> exact hi

theorem inserted_eq_nil {t t' : SeqTable LogKey TransferRow} {new ts : List TransferEvent}
    (h : Inserted t t' new) (hsub : new.Sublist ts)
    (hall : ∀ x ∈ ts, transferKey x ∈ t.entries.map Entry.key) : new = [] := by
  have hnodup := t'.keys
  rw [h.keys, List.nodup_append] at hnodup
  refine List.eq_nil_iff_forall_not_mem.mpr fun x hx => ?_
  exact hnodup.2.2 _ (hall x (hsub.subset hx)) _ (List.mem_map_of_mem hx) rfl

theorem inserted_eq_self {t t' : SeqTable LogKey TransferRow} {new ts : List TransferEvent}
    (h : Inserted t t' new) (hsub : new.Sublist ts)
    (hkeys : ∀ x ∈ ts, transferKey x ∈ t'.entries.map Entry.key)
    (hnone : ∀ x ∈ ts, transferKey x ∉ t.entries.map Entry.key)
    (hnodup : (ts.map transferKey).Nodup) : new = ts := by
  have hsubset : ts ⊆ new := by
    intro x hx
    have hmem := hkeys x hx
    rw [h.keys] at hmem
    obtain ⟨y, hy, hxy⟩ := List.mem_map.mp ((List.mem_append.mp hmem).resolve_left (hnone x hx))
    rwa [List.inj_on_of_nodup_map hnodup hx (hsub.subset hy) hxy.symm]
  refine hsub.eq_of_length_le ?_
  exact (hnodup.of_map.subperm hsubset).length_le

/-! ## Balances -/

/-- **The balances moved** from `b` by `d`, and the holder counts with them. -/
structure Settled (b : HolderKey → ℤ) (db db' : Database) (d : HolderKey → ℤ) : Prop where
  frame : db' = { db with
    tokenBalances := db'.tokenBalances
    tokenMetadata := db'.tokenMetadata }
  holds : Holds db'.tokenBalances (b + d)
  tokens : ∀ token, token ∈ db'.tokenMetadata ↔ token ∈ db.tokenMetadata
  counted : db.Counted → db'.Counted

theorem CountsMoved.mem_iff {db db' : Database} {c : Bytes → ℤ} (h : CountsMoved db db' c)
    (token : Bytes) : token ∈ db'.tokenMetadata ↔ token ∈ db.tokenMetadata := by
  rw [← AList.lookup_isSome, ← AList.lookup_isSome, h.2, Option.isSome_map]

theorem Adjusts.settled {b d : HolderKey → ℤ} {c : Bytes → ℤ} {db mid db' : Database}
    (ha : Adjusts b db mid d c) (hm : CountsMoved mid db' c) : Settled b db db' d := by
  have hbal : db'.tokenBalances = mid.tokenBalances := by rw [hm.1]
  have hmeta : mid.tokenMetadata = db.tokenMetadata := by rw [ha.frame]
  have hholders : ∀ T, db'.countHolders T = mid.countHolders T := by
    intro T
    unfold countHolders
    rw [hbal]
  refine ⟨?_, ?_, fun T => ?_, fun hc => ?_⟩
  · rw [hm.1, ha.frame]
  · rw [hbal]
    exact ha.holds
  · rw [hm.mem_iff, hmeta]
  · intro T row hrow
    rw [hm.2, hmeta] at hrow
    obtain ⟨old, hold, rfl⟩ := Option.map_eq_some_iff.mp hrow
    rw [hholders, ha.counts, hc T old hold]

theorem applyTransferBalances_settled {b : HolderKey → ℤ} {db : Database}
    (h : Holds db.tokenBalances b) (ch : Choices) (new : List TransferEvent) :
    Settled b db (db.applyTransferBalances ch new) (balanceOf (newPostings new)) := by
  let deltas := net (new.flatMap transferPostings)
  obtain ⟨c, hc, hm⟩ := adjustBalances_adjusts (ch.order (postings deltas)) h ∅
  have hnet : balanceOf ((ch.order (postings deltas)).map (Prod.map holderKey id)) =
      balanceOf (newPostings new) := by
    rw [balanceOf_perm ((ch.perm _).map _), balanceOf_net, map_flatMap_transferPostings]
  rw [movedOf_empty, zero_add] at hm
  rw [hnet] at hc
  have hmoved := addToHolderCounts_moved ch (db.adjustBalances ∅ (ch.order (postings deltas))).1
    (db.adjustBalances ∅ (ch.order (postings deltas))).2
  rw [hm] at hmoved
  exact hc.settled hmoved

/-! ## Metadata -/

theorem upsertTokenMeta_counted {db : Database} (h : db.Counted) (m : TokenMeta) :
    (db.upsertTokenMeta m).Counted := by
  intro T row hrow
  have hholders : (db.upsertTokenMeta m).countHolders T = db.countHolders T := rfl
  rw [hholders]
  unfold upsertTokenMeta at hrow
  rw [Keyed.lookup_upsert] at hrow
  split_ifs at hrow with hT
  · cases hold : db.tokenMetadata.lookup (hexBlob m.address) with
    | none =>
      rw [hold] at hrow
      rw [← Option.some.inj hrow, hT]
      rfl
    | some old =>
      rw [hold] at hrow
      have hcount := h _ old hold
      rw [← Option.some.inj hrow, hT]
      exact hcount
  · exact h T row hrow

theorem mem_upsertTokenMeta (db : Database) (m : TokenMeta) (T : Bytes) :
    T ∈ (db.upsertTokenMeta m).tokenMetadata ↔ T = hexBlob m.address ∨ T ∈ db.tokenMetadata := by
  rw [← AList.lookup_isSome, ← AList.lookup_isSome, upsertTokenMeta, Keyed.lookup_upsert]
  split_ifs with hT <;> simp [hT]

theorem foldl_upsertTokenMeta (metas : List TokenMeta) (db : Database) :
    metas.foldl upsertTokenMeta db =
        { db with tokenMetadata := (metas.foldl upsertTokenMeta db).tokenMetadata } ∧
      (db.Counted → (metas.foldl upsertTokenMeta db).Counted) ∧
      ∀ T, T ∈ (metas.foldl upsertTokenMeta db).tokenMetadata ↔
        T ∈ db.tokenMetadata ∨ T ∈ metas.map fun m => hexBlob m.address := by
  induction metas generalizing db with
  | nil => exact ⟨rfl, id, fun T => by simp⟩
  | cons m metas ih =>
    obtain ⟨hf, hc, hT⟩ := ih (db.upsertTokenMeta m)
    rw [List.foldl_cons]
    refine ⟨by rw [hf]; rfl, fun h => hc (upsertTokenMeta_counted h m), fun T => ?_⟩
    rw [hT, mem_upsertTokenMeta, List.map_cons, List.mem_cons]
    tauto

/-! ## One block -/

/-- A transaction's row, written over what is stored. -/
def putTx (t : Keyed Bytes TxRow) (tx : Transaction) : Keyed Bytes TxRow :=
  t.upsert (hexBlob tx.hash) (txRow tx) (coalesce (txRow tx))

/-- An anchoring row, unless its key is taken. -/
def putAnchoring (t : Keyed LogKey AnchoringRow) (e : AnchoringEvent) : Keyed LogKey AnchoringRow :=
  t.insertOrIgnore (e.blockNumber, e.logIndex) (anchoringRow e)

theorem writes_putAnchoring :
    Keyed.Writes (fun e : AnchoringEvent => (e.blockNumber, e.logIndex)) anchoringRow
      putAnchoring := by
  intro t e ht k
  rw [putAnchoring, Keyed.lookup_insertOrIgnore]
  split_ifs with hk
  · cases hold : t.lookup (e.blockNumber, e.logIndex) with
    | none => rfl
    | some old => rw [ht old hold, Option.getD_some]
  · rfl

theorem foldl_upsertTransaction (txs : List Transaction) (db : Database) :
    txs.foldl upsertTransaction db = { db with transactions := txs.foldl putTx db.transactions } := by
  induction txs generalizing db with
  | nil => rfl
  | cons tx txs ih =>
    rw [List.foldl_cons, ih]
    rfl

theorem foldl_insertAnchoring (es : List AnchoringEvent) (db : Database) :
    es.foldl (fun db e => (db.insertAnchoring e).1) db =
      { db with anchoringEvents := es.foldl putAnchoring db.anchoringEvents } := by
  induction es generalizing db with
  | nil => rfl
  | cons e es ih =>
    rw [List.foldl_cons, ih]
    rfl

/-- The transactions stored at a height. -/
def txsAt (db : Database) (number : ℤ) : ℕ :=
  db.transactions.count fun _ row => row.blockNumber = number

/-- **What one block's writes leave**, table by table, from the balances `b`; `new` are the
transfers that were not stored yet. -/
structure Written (b : HolderKey → ℤ) (db db' : Database) (bundle : BlockBundle)
    (new : List TransferEvent) : Prop where
  blocks : db'.blocks = db.blocks.insert bundle.block.number (blockRow bundle.block)
  transactions : db'.transactions = bundle.txs.foldl putTx db.transactions
  sublist : new.Sublist bundle.transfers
  stored : ∀ t ∈ bundle.transfers, transferKey t ∈ db'.transferEvents.entries.map Entry.key
  inserted : Inserted db.transferEvents db'.transferEvents new
  anchoring : db'.anchoringEvents = bundle.anchoring.foldl putAnchoring db.anchoringEvents
  kv : db'.kv = db.kv
  counters : db'.counters = db.counters
  genesis : db'.genesisBalances = db.genesisBalances
  tokens : ∀ T, T ∈ db'.tokenMetadata ↔
    T ∈ db.tokenMetadata ∨ T ∈ bundle.tokens.map fun m => hexBlob m.address
  balances : Holds db'.tokenBalances (b + balanceOf (newPostings new))
  counted : db.Counted → db'.Counted

/-- **One block's writes**, and the counts they return. -/
theorem writeBlock_written {b : HolderKey → ℤ} {ch : Choices} {db db' : Database}
    {bundle : BlockBundle} {nb nt : ℤ} (hb : Holds db.tokenBalances b)
    (h : db.writeBlock ch bundle = .ok (db', nb, nt)) :
    (∃ new, Written b db db' bundle new) ∧
      nb = 1 - (if bundle.block.number ∈ db.blocks then 1 else 0) ∧
      nt = max ((bundle.txs.length : ℤ) -
        (if bundle.txs.isEmpty then 0 else (db.txsAt bundle.block.number : ℤ))) 0 := by
  obtain ⟨db1, h1, h⟩ := bind_ok h
  obtain ⟨⟨db2, new⟩, h2, h⟩ := bind_ok h
  obtain ⟨rfl, hcounts⟩ := Prod.mk.inj (Except.ok.inj h)
  obtain ⟨hnb, hnt⟩ := Prod.mk.inj hcounts
  refine ⟨⟨new, ?_⟩, hnb.symm, hnt.symm⟩
  have hblock : db1 = { db with
      blocks := db.blocks.insert bundle.block.number (blockRow bundle.block) } := by
    unfold upsertBlock at h1
    split_ifs at h1
    exact (Except.ok.inj h1).symm
  subst hblock
  rw [foldl_upsertTransaction] at h2
  obtain ⟨hf2, hsub, hstored, hins⟩ := insertTransfers_inserted h2
  generalize db2.transferEvents = events at hf2 hstored hins
  subst hf2
  rw [foldl_insertAnchoring]
  set db3 : Database := { db with
    blocks := db.blocks.insert bundle.block.number (blockRow bundle.block)
    transactions := bundle.txs.foldl putTx db.transactions
    transferEvents := events
    anchoringEvents := bundle.anchoring.foldl putAnchoring db.anchoringEvents }
  obtain ⟨hf3, hcounted, htokens⟩ := foldl_upsertTokenMeta bundle.tokens db3
  have hb3 : Holds (bundle.tokens.foldl upsertTokenMeta db3).tokenBalances b := by
    rw [hf3]
    exact hb
  have hset := applyTransferBalances_settled hb3 ch new
  generalize (bundle.tokens.foldl upsertTokenMeta db3).applyTransferBalances ch new = db' at hset
  have hframe : db' = { db3 with
      tokenBalances := db'.tokenBalances
      tokenMetadata := db'.tokenMetadata } := by
    have hf := hset.frame
    rwa [hf3] at hf
  have hevents : db'.transferEvents = events := congrArg Database.transferEvents hframe
  exact {
    blocks := congrArg Database.blocks hframe
    transactions := congrArg Database.transactions hframe
    sublist := hsub
    stored := by rw [hevents]; exact hstored
    inserted := by rw [hevents]; exact hins
    anchoring := congrArg Database.anchoringEvents hframe
    kv := (congrArg Database.kv hframe :)
    counters := (congrArg Database.counters hframe :)
    genesis := (congrArg Database.genesisBalances hframe :)
    tokens := fun T => (hset.tokens T).trans (htokens T)
    balances := hset.holds
    counted := fun hc => hset.counted (hcounted hc) }

/-! ## Rows, whatever the balances -/

theorem adjustBalances_frame (ps : List (Holder × ℤ)) (db : Database) (moved : Keyed String ℤ) :
    (db.adjustBalances moved ps).1 =
      { db with tokenBalances := (db.adjustBalances moved ps).1.tokenBalances } := by
  induction ps generalizing db moved with
  | nil => rfl
  | cons p ps ih =>
    obtain ⟨⟨token, holder⟩, delta⟩ := p
    have h1 : (db.adjustBalance token holder delta).1 =
        { db with tokenBalances := (db.adjustBalance token holder delta).1.tokenBalances } := by
      unfold adjustBalance
      split_ifs <;> rfl
    rw [adjustBalances, ih, h1]

theorem applyTransferBalances_frame (ch : Choices) (db : Database) (new : List TransferEvent) :
    db.applyTransferBalances ch new =
      { db with
        tokenBalances := (db.applyTransferBalances ch new).tokenBalances
        tokenMetadata := (db.applyTransferBalances ch new).tokenMetadata } := by
  rw [applyTransferBalances, (addToHolderCounts_moved ch _ _).1, adjustBalances_frame]

/-- What one block's writes leave alone, and the transfers that are new. -/
theorem writeBlock_frame {ch : Choices} {db db' : Database} {bundle : BlockBundle} {nb nt : ℤ}
    (h : db.writeBlock ch bundle = .ok (db', nb, nt)) :
    db' = { db with
        blocks := db.blocks.insert bundle.block.number (blockRow bundle.block)
        transactions := bundle.txs.foldl putTx db.transactions
        transferEvents := db'.transferEvents
        anchoringEvents := bundle.anchoring.foldl putAnchoring db.anchoringEvents
        tokenBalances := db'.tokenBalances
        tokenMetadata := db'.tokenMetadata } ∧
      ∃ new, new.Sublist bundle.transfers ∧
        (∀ t ∈ bundle.transfers, transferKey t ∈ db'.transferEvents.entries.map Entry.key) ∧
        Inserted db.transferEvents db'.transferEvents new := by
  obtain ⟨db1, h1, h⟩ := bind_ok h
  obtain ⟨⟨db2, new⟩, h2, h⟩ := bind_ok h
  obtain ⟨rfl, -⟩ := Prod.mk.inj (Except.ok.inj h)
  have hblock : db1 = { db with
      blocks := db.blocks.insert bundle.block.number (blockRow bundle.block) } := by
    unfold upsertBlock at h1
    split_ifs at h1
    exact (Except.ok.inj h1).symm
  subst hblock
  rw [foldl_upsertTransaction] at h2
  obtain ⟨hf2, hsub, hstored, hins⟩ := insertTransfers_inserted h2
  rw [applyTransferBalances_frame, (foldl_upsertTokenMeta _ _).1, foldl_insertAnchoring]
  refine ⟨?_, new, hsub, hstored, hins⟩
  rw [hf2]

/-- **The rows one block's writes leave**: its block, and the transfers and the anchoring writes
that were not stored yet. -/
theorem writeBlock_rows {ch : Choices} {db db' : Database} {bundle : BlockBundle} {nb nt : ℤ}
    (h : db.writeBlock ch bundle = .ok (db', nb, nt)) :
    db'.blocks = db.blocks.insert bundle.block.number (blockRow bundle.block) ∧
      db'.anchoringEvents = bundle.anchoring.foldl putAnchoring db.anchoringEvents ∧
      ∃ new, new.Sublist bundle.transfers ∧
        (∀ t ∈ bundle.transfers, transferKey t ∈ db'.transferEvents.entries.map Entry.key) ∧
        Inserted db.transferEvents db'.transferEvents new := by
  obtain ⟨hframe, hnew⟩ := writeBlock_frame h
  exact ⟨(congrArg Database.blocks hframe :), (congrArg Database.anchoringEvents hframe :), hnew⟩

theorem writeBlock_kv {ch : Choices} {db db' : Database} {bundle : BlockBundle} {nb nt : ℤ}
    (h : db.writeBlock ch bundle = .ok (db', nb, nt)) : db'.kv = db.kv :=
  (congrArg Database.kv (writeBlock_frame h).1 :)

theorem writeBlock_blocks {ch : Choices} {db db' : Database} {bundle : BlockBundle} {nb nt : ℤ}
    (h : db.writeBlock ch bundle = .ok (db', nb, nt)) :
    db'.blocks = db.blocks.insert bundle.block.number (blockRow bundle.block) :=
  (writeBlock_rows h).1

theorem mem_tokenMetadata_applyTransferBalances (ch : Choices) (db : Database) (new : List TransferEvent)
    (token : Bytes) :
    token ∈ (db.applyTransferBalances ch new).tokenMetadata ↔ token ∈ db.tokenMetadata := by
  rw [applyTransferBalances, (addToHolderCounts_moved ch _ _).mem_iff, adjustBalances_frame]

theorem mem_tokenMetadata_writeBlock {ch : Choices} {db db' : Database} {bundle : BlockBundle}
    {nb nt : ℤ}
    (h : db.writeBlock ch bundle = .ok (db', nb, nt)) (token : Bytes) :
    token ∈ db'.tokenMetadata ↔
      token ∈ db.tokenMetadata ∨ token ∈ bundle.tokens.map fun m => hexBlob m.address := by
  obtain ⟨db1, h1, h⟩ := bind_ok h
  obtain ⟨⟨db2, new⟩, h2, h⟩ := bind_ok h
  obtain ⟨rfl, -⟩ := Prod.mk.inj (Except.ok.inj h)
  have hblock : db1.tokenMetadata = db.tokenMetadata := by
    unfold upsertBlock at h1
    split_ifs at h1
    rw [← Except.ok.inj h1]
  have hrows : db2.tokenMetadata = db1.tokenMetadata := by
    rw [(insertTransfers_inserted h2).1, foldl_upsertTransaction]
  rw [mem_tokenMetadata_applyTransferBalances, (foldl_upsertTokenMeta _ _).2.2, foldl_insertAnchoring]
  simp only [hrows, hblock]

/-! ## The block transaction -/

theorem writeBlocks_induction {P : Database → ℤ → ℤ → Prop} {ch : ℕ → Choices} :
    ∀ {bundles : List BlockBundle} {db db' : Database} {i : ℕ} {x y x' y' : ℤ},
      (∀ {db db' : Database} {bundle : BlockBundle} {ch : Choices} {nb nt x y : ℤ},
        bundle ∈ bundles → P db x y → db.writeBlock ch bundle = .ok (db', nb, nt) →
          P db' (x + nb) (y + nt)) →
      db.writeBlocks ch x y i bundles = .ok (db', x', y') → P db x y → P db' x' y' := by
  intro bundles
  induction bundles with
  | nil =>
    intro db db' i x y x' y' _ h hP
    obtain ⟨rfl, hxy⟩ := Prod.mk.inj (Except.ok.inj h)
    obtain ⟨rfl, rfl⟩ := Prod.mk.inj hxy
    exact hP
  | cons bundle rest ih =>
    intro db db' i x y x' y' hstep h hP
    obtain ⟨⟨db1, nb, nt⟩, h1, h⟩ := bind_ok h
    have hP1 := hstep List.mem_cons_self hP h1
    exact ih (fun hmem => hstep (List.mem_cons_of_mem _ hmem)) h hP1

theorem addToCounter_frame (db : Database) (table : String) (delta : ℤ) :
    db.addToCounter table delta =
      { db with counters := (db.addToCounter table delta).counters } := by
  unfold addToCounter
  split_ifs <;> rfl

theorem saveBlockBundles_ok {ch : ℕ → Choices} {db db' : Database} {bundles : List BlockBundle}
    (h : db.saveBlockBundles ch bundles = .ok db') :
    ∃ mid x y, db.writeBlocks ch 0 0 0 bundles = .ok (mid, x, y) ∧
      db' = (mid.addToCounter "blocks" x).addToCounter "transactions" y := by
  cases bundles with
  | nil => exact ⟨db, 0, 0, rfl, (Except.ok.inj h).symm⟩
  | cons bundle rest =>
    obtain ⟨⟨mid, x, y⟩, hw, h⟩ := bind_ok h
    exact ⟨mid, x, y, hw, (Except.ok.inj h).symm⟩

/-- **What every block's writes keep, the transaction keeps.** -/
theorem saveBlockBundles_induction {P : Database → Prop} {ch : ℕ → Choices} {db db' : Database}
    {bundles : List BlockBundle}
    (hstep : ∀ {db db' : Database} {bundle : BlockBundle} {ch : Choices} {nb nt : ℤ},
      bundle ∈ bundles → P db → db.writeBlock ch bundle = .ok (db', nb, nt) → P db')
    (hcounters : ∀ (db : Database) (c : Keyed String ℤ), P db → P { db with counters := c })
    (h : db.saveBlockBundles ch bundles = .ok db') (hP : P db) : P db' := by
  obtain ⟨mid, x, y, hw, rfl⟩ := saveBlockBundles_ok h
  have hmid : P mid :=
    writeBlocks_induction (P := fun db _ _ => P db) (fun hmem hP h => hstep hmem hP h) hw hP
  rw [addToCounter_frame, addToCounter_frame]
  exact hcounters _ _ (hcounters _ _ hmid)

theorem saveBlockBundles_keys {κ : Type} (keys : Database → Set κ) (added : BlockBundle → Set κ)
    (hwrite : ∀ {db db' : Database} {bundle : BlockBundle} {ch : Choices} {nb nt : ℤ},
      db.writeBlock ch bundle = .ok (db', nb, nt) → keys db' = keys db ∪ added bundle)
    (hcounters : ∀ (db : Database) (c : Keyed String ℤ), keys { db with counters := c } = keys db)
    {ch : ℕ → Choices} {db db' : Database} {bundles : List BlockBundle}
    (h : db.saveBlockBundles ch bundles = .ok db') : keys db' = grown added (keys db) bundles := by
  have hrun : ∀ {bundles : List BlockBundle} {db db' : Database} {i : ℕ} {x y x' y' : ℤ},
      db.writeBlocks ch x y i bundles = .ok (db', x', y') →
        keys db' = grown added (keys db) bundles := by
    intro bundles
    induction bundles with
    | nil =>
      intro db db' i x y x' y' h
      rw [(Prod.mk.inj (Except.ok.inj h)).1, grown_nil]
    | cons bundle rest ih =>
      intro db db' i x y x' y' h
      obtain ⟨⟨db1, nb, nt⟩, h1, h⟩ := bind_ok h
      rw [ih h, hwrite h1, grown_cons]
  obtain ⟨mid, x, y, hmid, rfl⟩ := saveBlockBundles_ok h
  rw [addToCounter_frame, addToCounter_frame mid, hcounters, hcounters, hrun hmid]

/-- **The heights stored** afterwards are those stored before and those written. -/
theorem saveBlockBundles_heights {ch : ℕ → Choices} {db db' : Database}
    {bundles : List BlockBundle} (h : db.saveBlockBundles ch bundles = .ok db') (n : ℤ) :
    n ∈ db'.blocks ↔ n ∈ db.blocks ∨ ∃ bundle ∈ bundles, bundle.block.number = n := by
  have hgrown : {n | n ∈ db'.blocks} =
      grown (fun bundle => {bundle.block.number}) {n | n ∈ db.blocks} bundles := by
    refine saveBlockBundles_keys (fun db => {n | n ∈ db.blocks}) _ (fun hwrite => ?_)
      (fun _ _ => rfl) h
    ext n
    rw [Set.mem_ofPred_eq, writeBlock_blocks hwrite, AList.mem_insert, Set.mem_union, or_comm]
    rfl
  have hmem : n ∈ db'.blocks ↔ n ∈ {n | n ∈ db'.blocks} := Iff.rfl
  rw [hmem, hgrown, grown, Set.mem_union]
  exact or_congr_right (exists_congr fun bundle => and_congr_right fun _ => eq_comm)

theorem exists_commit (db : Database) (bundles : List BlockBundle)
    (h : (db.saveBlockBundles (fun _ => .plain) bundles).toBool = true) :
    ∃ db', db.saveBlockBundles (fun _ => .plain) bundles = .ok db' := by
  cases hsave : db.saveBlockBundles (fun _ => .plain) bundles with
  | ok db' => exact ⟨db', rfl⟩
  | error e =>
    rw [hsave] at h
    exact absurd h nofun

/-- One call of `save_block_bundles`, rolled back where it fails: for what SQLite refuses, or for a
reason of its own such as a full disk. -/
def trySave (ch : ℕ → Choices) (db : Database) (bundles : List BlockBundle) (fails : Bool) :
    Database :=
  if fails then db
  else
    match db.saveBlockBundles ch bundles with
    | .ok db' => db'
    | .error _ => db

theorem trySave_cases (ch : ℕ → Choices) (db : Database) (bundles : List BlockBundle)
    (fails : Bool) :
    trySave ch db bundles fails = db ∨
      db.saveBlockBundles ch bundles = .ok (trySave ch db bundles fails) := by
  unfold trySave
  by_cases hf : fails
  · exact .inl (if_pos hf)
  · rw [if_neg hf]
    cases hs : db.saveBlockBundles ch bundles with
    | ok db' => exact .inr rfl
    | error e => exact .inl rfl

end Database

end ChainExplorer
