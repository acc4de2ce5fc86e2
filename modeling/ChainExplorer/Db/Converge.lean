import ChainExplorer.Db.Writer

/-!
# Convergence of the writer

* `Chain`: one bundle per height, with distinct transaction hashes and, within a block, distinct
  log indexes.
* `Batch`, `commitAll`: batches of heights of a chain, in any order and with any repeats, each
  committed or rolled back.
* `Mirrors c S db`: the database holds exactly the blocks of the heights `S`.
* **`commitAll_kept`**: a run leaves exactly the heights it committed, and counters that count.
* **`commitAll_converges`**: two runs that committed the same heights leave the same tables.
-/

namespace ChainExplorer

open Ledger (balanceOf balanceOf_perm Holds)

/-- **A chain**: the bundle of every height. -/
structure Chain where
  bundle : ℤ → BlockBundle
  number : ∀ n, (bundle n).block.number = n
  txNumber : ∀ n, ∀ tx ∈ (bundle n).txs, tx.blockNumber = n
  transferNumber : ∀ n, ∀ t ∈ (bundle n).transfers, t.blockNumber = n
  anchoringNumber : ∀ n, ∀ e ∈ (bundle n).anchoring, e.blockNumber = n
  /-- No hash occurs at two heights, nor twice in a block. -/
  hashes : ∀ n m, ∀ tx ∈ (bundle n).txs, ∀ tx' ∈ (bundle m).txs,
    hexBlob tx.hash = hexBlob tx'.hash → n = m
  hashNodup : ∀ n, ((bundle n).txs.map fun tx => hexBlob tx.hash).Nodup
  transferIndexes : ∀ n, ((bundle n).transfers.map TransferEvent.logIndex).Nodup
  anchoringIndexes : ∀ n, ((bundle n).anchoring.map AnchoringEvent.logIndex).Nodup

/-- One call of `save_block_bundles` on the bundles of some heights, and whether it fails for a
reason of its own. -/
structure Batch where
  ch : ℕ → Choices
  heights : List ℤ
  fails : Bool

/-- A database and the heights committed to it. -/
abbrev Progress := Database × List ℤ

/-- **One batch**: committed whole, or rolled back. -/
def commit (c : Chain) (p : Progress) (batch : Batch) : Progress :=
  if batch.fails then p
  else
    match p.1.saveBlockBundles batch.ch (batch.heights.map c.bundle) with
    | .ok db => (db, p.2 ++ batch.heights)
    | .error _ => p

/-- A sequence of batches on an empty database. -/
def commitAll (c : Chain) (batches : List Batch) : Progress :=
  batches.foldl (commit c) (Database.fresh, [])

/-! ## What a database that mirrors some heights holds -/

/-- The transfers of a table with their keys, without the ids. -/
def keyedTransfers (t : SeqTable LogKey TransferRow) : List (LogKey × TransferRow) :=
  t.entries.map fun e => (e.key, e.row)

/-- **The database holds exactly the blocks of the heights `S`.** -/
structure Mirrors (c : Chain) (S : Set ℤ) (db : Database) : Prop where
  blocks : ∀ n row, db.blocks.lookup n = some row ↔ n ∈ S ∧ row = blockRow (c.bundle n).block
  transactions : ∀ h row, db.transactions.lookup h = some row ↔
    ∃ n ∈ S, ∃ tx ∈ (c.bundle n).txs, hexBlob tx.hash = h ∧ txRow tx = row
  transfers : ∀ k row, (k, row) ∈ keyedTransfers db.transferEvents ↔
    ∃ n ∈ S, ∃ t ∈ (c.bundle n).transfers, transferKey t = k ∧ transferRow t = row
  anchoring : ∀ k row, db.anchoringEvents.lookup k = some row ↔
    ∃ n ∈ S, ∃ e ∈ (c.bundle n).anchoring, (e.blockNumber, e.logIndex) = k ∧ anchoringRow e = row
  held : ∀ n ∈ S, db.txsAt n = (c.bundle n).txs.length
  genesis : db.genesisBalances = ∅
  balanced : db.Balanced

/-- The counters, with what a batch under way has added, count the rows. -/
def Counters (db : Database) (blocks txs : ℤ) : Prop :=
  db.counter "blocks" + blocks = db.blocks.entries.length ∧
    db.counter "transactions" + txs = db.transactions.entries.length

variable {c : Chain} {S : Set ℤ} {db db' : Database} {n : ℤ}

theorem fresh_mirrors (c : Chain) : Mirrors c ∅ Database.fresh where
  blocks n row := by simp [Database.fresh]
  transactions h row := by simp [Database.fresh]
  transfers k row := by simp [Database.fresh, keyedTransfers, SeqTable.empty]
  anchoring k row := by simp [Database.fresh]
  held n hn := absurd hn (Set.notMem_empty n)
  genesis := rfl
  balanced := Database.fresh_consistent.balanced

theorem fresh_counters : Counters Database.fresh 0 0 := by
  constructor <;> decide

namespace Mirrors

theorem mem_blocks (h : Mirrors c S db) : n ∈ db.blocks ↔ n ∈ S := by
  rw [← AList.lookup_isSome, Option.isSome_iff_exists]
  constructor
  · rintro ⟨row, hrow⟩
    exact ((h.blocks n row).mp hrow).1
  · intro hn
    exact ⟨_, (h.blocks n _).mpr ⟨hn, rfl⟩⟩

theorem txsAt_eq_zero (h : Mirrors c S db) (hn : n ∉ S) : db.txsAt n = 0 := by
  refine Keyed.count_eq_zero fun hash row hrow => decide_eq_false ?_
  obtain ⟨m, hm, tx, htx, -, rfl⟩ := (h.transactions hash row).mp hrow
  intro heq
  have hnumber : (txRow tx).blockNumber = m := c.txNumber m tx htx
  exact hn (heq ▸ hnumber ▸ hm)

end Mirrors

/-! ## One block -/

theorem writes_putTx :
    Keyed.Writes (fun tx : Transaction => hexBlob tx.hash) txRow Database.putTx := by
  intro t tx ht k
  rw [Database.putTx, Keyed.lookup_upsert]
  split_ifs with hk
  · cases hold : t.lookup (hexBlob tx.hash) with
    | none => rfl
    | some old =>
      -- A rewrite carries what is stored, so `COALESCE` keeps every column.
      rw [ht old hold, Option.elim_some, Database.coalesce]
      simp only [Option.or_self]
  · rfl

section Block

variable {b : HolderKey → ℤ} {new : List TransferEvent}

theorem Mirrors.eq_txRow (h : Mirrors c S db) {tx : Transaction} (htx : tx ∈ (c.bundle n).txs)
    {row : TxRow} (hrow : db.transactions.lookup (hexBlob tx.hash) = some row) :
    n ∈ S ∧ row = txRow tx := by
  obtain ⟨m, hm, tx', htx', hhash, rfl⟩ := (h.transactions _ row).mp hrow
  obtain rfl : m = n := c.hashes m n tx' htx' tx htx hhash
  have heq : tx' = tx := List.inj_on_of_nodup_map (c.hashNodup m) htx' htx hhash
  exact ⟨hm, congrArg txRow heq⟩

theorem Mirrors.eq_anchoringRow (h : Mirrors c S db) {e : AnchoringEvent}
    (he : e ∈ (c.bundle n).anchoring) {row : AnchoringRow}
    (hrow : db.anchoringEvents.lookup (e.blockNumber, e.logIndex) = some row) :
    row = anchoringRow e := by
  obtain ⟨m, hm, e', he', hkey, rfl⟩ := (h.anchoring _ row).mp hrow
  obtain ⟨hnumber, hindex⟩ := Prod.mk.inj hkey
  rw [c.anchoringNumber m e' he', c.anchoringNumber n e he] at hnumber
  subst hnumber
  have heq : e' = e := List.inj_on_of_nodup_map (c.anchoringIndexes m) he' he hindex
  exact congrArg anchoringRow heq

theorem Mirrors.mem_transferKeys (h : Mirrors c S db) {t : TransferEvent}
    (ht : t ∈ (c.bundle n).transfers) :
    transferKey t ∈ db.transferEvents.entries.map Entry.key ↔ n ∈ S := by
  constructor
  · intro hmem
    obtain ⟨e, he, hkey⟩ := List.mem_map.mp hmem
    have hpair : (e.key, e.row) ∈ keyedTransfers db.transferEvents :=
      List.mem_map.mpr ⟨e, he, rfl⟩
    obtain ⟨m, hm, t', ht', hkey', -⟩ := (h.transfers _ _).mp hpair
    have hnumber := congrArg Prod.fst (hkey'.trans hkey)
    simp only [transferKey] at hnumber
    rw [c.transferNumber m t' ht', c.transferNumber n t ht] at hnumber
    exact hnumber ▸ hm
  · intro hn
    have hpair := (h.transfers (transferKey t) (transferRow t)).mpr ⟨n, hn, t, ht, rfl, rfl⟩
    obtain ⟨e, he, hkey⟩ := List.mem_map.mp hpair
    exact List.mem_map.mpr ⟨e, he, (Prod.mk.inj hkey).1⟩

theorem Chain.transferKeys_nodup (c : Chain) (n : ℤ) :
    ((c.bundle n).transfers.map transferKey).Nodup := by
  have h : ((c.bundle n).transfers.map transferKey).map Prod.snd =
      (c.bundle n).transfers.map TransferEvent.logIndex := by
    rw [List.map_map]
    rfl
  have hnodup := c.transferIndexes n
  rw [← h] at hnodup
  exact hnodup.of_map

theorem Mirrors.new_eq (h : Mirrors c S db) (hw : Database.Written b db db' (c.bundle n) new) :
    (n ∈ S → new = []) ∧ (n ∉ S → new = (c.bundle n).transfers) := by
  constructor
  · intro hn
    exact Database.inserted_eq_nil hw.inserted hw.sublist
      fun t ht => (h.mem_transferKeys ht).mpr hn
  · intro hn
    exact Database.inserted_eq_self hw.inserted hw.sublist hw.stored
      (fun t ht hmem => hn ((h.mem_transferKeys ht).mp hmem)) (c.transferKeys_nodup n)

theorem Mirrors.written_transactions (h : Mirrors c S db)
    (hw : Database.Written b db db' (c.bundle n) new) (hash : Bytes) (row : TxRow) :
    db'.transactions.lookup hash = some row ↔
      ∃ m ∈ insert n S, ∃ tx ∈ (c.bundle m).txs, hexBlob tx.hash = hash ∧ txRow tx = row := by
  have hl : ∀ tx ∈ (c.bundle n).txs, ∀ tx' ∈ (c.bundle n).txs,
      hexBlob tx.hash = hexBlob tx'.hash → txRow tx = txRow tx' := by
    intro tx htx tx' htx' hhash
    exact congrArg txRow (List.inj_on_of_nodup_map (c.hashNodup n) htx htx' hhash)
  rw [hw.transactions, writes_putTx.lookup_foldl hl (fun tx htx w hrow => (h.eq_txRow htx hrow).2),
    h.transactions, Set.exists_mem_insert]

theorem Mirrors.written_anchoring (h : Mirrors c S db)
    (hw : Database.Written b db db' (c.bundle n) new) (k : LogKey) (row : AnchoringRow) :
    db'.anchoringEvents.lookup k = some row ↔
      ∃ m ∈ insert n S, ∃ e ∈ (c.bundle m).anchoring,
        (e.blockNumber, e.logIndex) = k ∧ anchoringRow e = row := by
  have hl : ∀ e ∈ (c.bundle n).anchoring, ∀ e' ∈ (c.bundle n).anchoring,
      (e.blockNumber, e.logIndex) = (e'.blockNumber, e'.logIndex) →
        anchoringRow e = anchoringRow e' := by
    intro e he e' he' hkey
    exact congrArg anchoringRow
      (List.inj_on_of_nodup_map (c.anchoringIndexes n) he he' (Prod.mk.inj hkey).2)
  rw [hw.anchoring,
    Database.writes_putAnchoring.lookup_foldl hl (fun e he w hrow => h.eq_anchoringRow he hrow),
    h.anchoring, Set.exists_mem_insert]

theorem Mirrors.written_transfers (h : Mirrors c S db)
    (hw : Database.Written b db db' (c.bundle n) new) (k : LogKey) (row : TransferRow) :
    (k, row) ∈ keyedTransfers db'.transferEvents ↔
      ∃ m ∈ insert n S, ∃ t ∈ (c.bundle m).transfers, transferKey t = k ∧ transferRow t = row := by
  have hrows : keyedTransfers db'.transferEvents =
      keyedTransfers db.transferEvents ++ new.map fun t => (transferKey t, transferRow t) :=
    hw.inserted.keyedRows
  have hnew := h.new_eq hw
  rw [hrows, List.mem_append, h.transfers, Set.exists_mem_insert]
  by_cases hn : n ∈ S
  · rw [hnew.1 hn]
    constructor
    · rintro (hold | hmem)
      · exact .inr hold
      · exact absurd hmem List.not_mem_nil
    · rintro (⟨t, ht⟩ | hold)
      · exact .inl ⟨n, hn, t, ht⟩
      · exact .inl hold
  · rw [hnew.2 hn, List.mem_map]
    simp only [Prod.mk.injEq]
    exact or_comm

theorem Mirrors.written_blocks (h : Mirrors c S db)
    (hw : Database.Written b db db' (c.bundle n) new) (m : ℤ) (row : BlockRow) :
    db'.blocks.lookup m = some row ↔ m ∈ insert n S ∧ row = blockRow (c.bundle m).block := by
  rw [hw.blocks, c.number, Keyed.lookup_insert_eq, Set.mem_insert_iff]
  split_ifs with hm
  · subst hm
    simp [eq_comm]
  · rw [h.blocks]
    simp [hm]

theorem Mirrors.count_transactions_new (h : Mirrors c S db)
    (hw : Database.Written b db db' (c.bundle n) new) (hn : n ∉ S) (p : Bytes → TxRow → Bool) :
    db'.transactions.count p = db.transactions.count p +
      (c.bundle n).txs.countP fun tx => p (hexBlob tx.hash) (txRow tx) := by
  have hfresh : ∀ tx ∈ (c.bundle n).txs, db.transactions.lookup (hexBlob tx.hash) = none := by
    intro tx htx
    by_contra hsome
    obtain ⟨row, hrow⟩ := Option.ne_none_iff_exists'.mp hsome
    exact hn (h.eq_txRow htx hrow).1
  rw [hw.transactions, writes_putTx.count_foldl p (c.hashNodup n) hfresh]

theorem Mirrors.transactions_again (h : Mirrors c S db)
    (hw : Database.Written b db db' (c.bundle n) new) (hn : n ∈ S) (hash : Bytes) :
    db'.transactions.lookup hash = db.transactions.lookup hash := by
  refine Option.ext fun row => ?_
  rw [h.written_transactions hw, Set.insert_eq_of_mem hn, ← h.transactions]

theorem Mirrors.written_held (h : Mirrors c S db)
    (hw : Database.Written b db db' (c.bundle n) new) {m : ℤ} (hm : m ∈ insert n S) :
    db'.txsAt m = (c.bundle m).txs.length := by
  by_cases hn : n ∈ S
  · rw [Set.insert_eq_of_mem hn] at hm
    rw [← h.held m hm]
    exact Keyed.count_congr_lookup _ (h.transactions_again hw hn)
  · have hcount : db'.txsAt m = db.txsAt m +
        (c.bundle n).txs.countP fun tx => decide ((txRow tx).blockNumber = m) :=
      h.count_transactions_new hw hn fun _ row => decide (row.blockNumber = m)
    rcases Set.mem_insert_iff.mp hm with rfl | hm
    · have hall : (c.bundle m).txs.countP (fun tx => decide ((txRow tx).blockNumber = m)) =
          (c.bundle m).txs.length :=
        List.countP_eq_length.mpr fun tx htx => decide_eq_true (c.txNumber m tx htx)
      rw [hcount, h.txsAt_eq_zero hn, hall, zero_add]
    · have hne : n ≠ m := fun heq => hn (heq ▸ hm)
      have hzero : (c.bundle n).txs.countP (fun tx => decide ((txRow tx).blockNumber = m)) = 0 := by
        refine List.countP_eq_zero.mpr fun tx htx => ?_
        have hnumber : (txRow tx).blockNumber = n := c.txNumber n tx htx
        simp [hnumber, hne]
      rw [hcount, h.held m hm, hzero, add_zero]

theorem Mirrors.written (h : Mirrors c S db)
    (hw : Database.Written (fun k => db.ledger k.1 k.2) db db' (c.bundle n) new) :
    Mirrors c (insert n S) db' where
  blocks := h.written_blocks hw
  transactions := h.written_transactions hw
  transfers := h.written_transfers hw
  anchoring := h.written_anchoring hw
  held _ hm := h.written_held hw hm
  genesis := hw.genesis.trans h.genesis
  balanced := hw.balanced

theorem Mirrors.written_counters (h : Mirrors c S db) {x y nb nt : ℤ} (hxy : Counters db x y)
    (hw : Database.Written b db db' (c.bundle n) new)
    (hnb : nb = 1 - (if (c.bundle n).block.number ∈ db.blocks then 1 else 0))
    (hnt : nt = max (((c.bundle n).txs.length : ℤ) - (if (c.bundle n).txs.isEmpty then 0
      else (db.txsAt (c.bundle n).block.number : ℤ))) 0) :
    Counters db' (x + nb) (y + nt) := by
  have hcounter : ∀ table, db'.counter table = db.counter table := by
    intro table
    rw [Database.counter, hw.counters]
    rfl
  rw [c.number] at hnb hnt
  unfold Counters at hxy ⊢
  rw [hcounter, hcounter, ← Keyed.count_true db'.blocks, ← Keyed.count_true db'.transactions]
  rw [← Keyed.count_true db.blocks, ← Keyed.count_true db.transactions] at hxy
  by_cases hn : n ∈ S
  · have hblocks : db'.blocks.count (fun _ _ => true) = db.blocks.count fun _ _ => true := by
      refine Keyed.count_congr_lookup _ fun m => Option.ext fun row => ?_
      rw [h.written_blocks hw, Set.insert_eq_of_mem hn, ← h.blocks]
    have htxs : db'.transactions.count (fun _ _ => true) =
        db.transactions.count fun _ _ => true :=
      Keyed.count_congr_lookup _ (h.transactions_again hw hn)
    rw [if_pos (h.mem_blocks.mpr hn)] at hnb
    rw [h.held n hn] at hnt
    have hzero : nt = 0 := by
      cases htx : (c.bundle n).txs with
      | nil => simp [hnt, htx]
      | cons tx txs => simp [hnt, htx]
    rw [hblocks, htxs]
    omega
  · have hnone : db.blocks.lookup n = none := AList.lookup_eq_none.mpr (mt h.mem_blocks.mp hn)
    have hblocks : db'.blocks.count (fun _ _ => true) =
        db.blocks.count (fun _ _ => true) + 1 := by
      rw [hw.blocks, c.number, Keyed.count_insert, Keyed.erase_eq_self hnone, add_comm]
      rfl
    have htxs : db'.transactions.count (fun _ _ => true) =
        db.transactions.count (fun _ _ => true) + (c.bundle n).txs.length := by
      rw [h.count_transactions_new hw hn]
      exact congrArg _ (List.countP_eq_length.mpr fun _ _ => rfl)
    rw [if_neg (mt h.mem_blocks.mp hn)] at hnb
    rw [h.txsAt_eq_zero hn] at hnt
    rw [hblocks, htxs]
    simp only [Nat.cast_zero, ite_self] at hnt
    push_cast
    omega

end Block

/-! ## Runs -/

theorem Mirrors.writeBlocks {ch : ℕ → Choices} (heights : List ℤ) :
    ∀ {S : Set ℤ} {db db' : Database} {i : ℕ} {x y x' y' : ℤ}, Mirrors c S db → Counters db x y →
      db.writeBlocks ch x y i (heights.map c.bundle) = .ok (db', x', y') →
        Mirrors c (S ∪ {m | m ∈ heights}) db' ∧ Counters db' x' y' := by
  induction heights with
  | nil =>
    intro S db db' i x y x' y' h hxy hok
    obtain ⟨rfl, hcounts⟩ := Prod.mk.inj (Except.ok.inj hok)
    obtain ⟨rfl, rfl⟩ := Prod.mk.inj hcounts
    have hS : S ∪ {m | m ∈ ([] : List ℤ)} = S := by ext m; simp
    rw [hS]
    exact ⟨h, hxy⟩
  | cons n heights ih =>
    intro S db db' i x y x' y' h hxy hok
    obtain ⟨⟨db1, nb, nt⟩, h1, hok⟩ := Database.bind_ok hok
    obtain ⟨⟨new, hw⟩, hnb, hnt⟩ := Database.writeBlock_written h.balanced h1
    have hrest := ih (h.written hw) (h.written_counters hxy hw hnb hnt) hok
    have hS : insert n S ∪ {m | m ∈ heights} = S ∪ {m | m ∈ n :: heights} := by
      ext m
      simp only [Set.mem_union, Set.mem_insert_iff, Set.mem_ofPred_eq, List.mem_cons]
      tauto
    rwa [hS] at hrest

theorem counter_addToCounter (db : Database) (table table' : String) (delta : ℤ) :
    (db.addToCounter table delta).counter table' =
      db.counter table' + if table' = table then delta else 0 := by
  unfold Database.addToCounter Database.counter
  by_cases hd : delta = 0
  · simp [hd]
  · rw [if_neg hd]
    simp only [Keyed.lookup_upsert]
    split_ifs with ht
    · subst ht
      cases db.counters.lookup table' <;> simp
    · simp

theorem Mirrors.withCounters (h : Mirrors c S db) (counters : Keyed String ℤ) :
    Mirrors c S { db with counters := counters } :=
  ⟨h.blocks, h.transactions, h.transfers, h.anchoring, h.held, h.genesis, h.balanced⟩

/-- What a run keeps: its heights are mirrored, and the counters count the rows. -/
def Kept (c : Chain) (p : Progress) : Prop :=
  Mirrors c {n | n ∈ p.2} p.1 ∧ Counters p.1 0 0

theorem commit_kept {p : Progress} (hp : Kept c p) (batch : Batch) : Kept c (commit c p batch) := by
  unfold commit
  split_ifs
  · exact hp
  cases hsave : p.1.saveBlockBundles batch.ch (batch.heights.map c.bundle) with
  | error e => exact hp
  | ok db =>
    obtain ⟨mid, x, y, hwrite, rfl⟩ := Database.saveBlockBundles_ok hsave
    obtain ⟨hmid, hblocks, htxs⟩ := hp.1.writeBlocks batch.heights hp.2 hwrite
    have hheights : {n | n ∈ p.2} ∪ {n | n ∈ batch.heights} = {n | n ∈ p.2 ++ batch.heights} := by
      ext n
      simp
    have hframe : (mid.addToCounter "blocks" x).addToCounter "transactions" y =
        { mid with
          counters := ((mid.addToCounter "blocks" x).addToCounter "transactions" y).counters } := by
      rw [Database.addToCounter_frame, Database.addToCounter_frame mid]
    have hcounter : ∀ table, ((mid.addToCounter "blocks" x).addToCounter "transactions" y).counter
        table = mid.counter table + (if table = "blocks" then x else 0) +
          if table = "transactions" then y else 0 := by
      intro table
      rw [counter_addToCounter, counter_addToCounter]
    constructor
    · rw [hheights] at hmid
      simp only
      rw [hframe]
      exact hmid.withCounters _
    · constructor
      · simp only [hcounter]
        rw [hframe]
        simpa using hblocks
      · simp only [hcounter]
        rw [hframe]
        simpa using htxs

/-- **A run leaves exactly the heights it committed**, and counters that count the rows. -/
theorem commitAll_kept (c : Chain) (batches : List Batch) : Kept c (commitAll c batches) := by
  have hrun : ∀ p : Progress, Kept c p → Kept c (batches.foldl (commit c) p) := by
    induction batches with
    | nil => exact fun p hp => hp
    | cons batch batches ih => exact fun p hp => ih _ (commit_kept hp batch)
  refine hrun _ ⟨?_, fresh_counters⟩
  have hempty : {n : ℤ | n ∈ ([] : List ℤ)} = ∅ := by ext n; simp
  simp only [hempty]
  exact fresh_mirrors c

/-- **Two databases of the same content**, up to the ids of the transfers. -/
structure SameContent (a b : Database) : Prop where
  blocks : ∀ n, a.blocks.lookup n = b.blocks.lookup n
  transactions : ∀ hash, a.transactions.lookup hash = b.transactions.lookup hash
  transfers : (keyedTransfers a.transferEvents).Perm (keyedTransfers b.transferEvents)
  anchoring : ∀ k, a.anchoringEvents.lookup k = b.anchoringEvents.lookup k
  balances : ∀ k, a.tokenBalances.lookup k = b.tokenBalances.lookup k

theorem keyedTransfers_nodup (t : SeqTable LogKey TransferRow) : (keyedTransfers t).Nodup := by
  have hkeys : (keyedTransfers t).map Prod.fst = t.entries.map Entry.key := by
    rw [keyedTransfers, List.map_map]
    rfl
  have h := t.keys
  rw [← hkeys] at h
  exact h.of_map

theorem Mirrors.sameContent {a b : Database} (ha : Mirrors c S a) (hb : Mirrors c S b) :
    SameContent a b := by
  have htransfers : (keyedTransfers a.transferEvents).Perm (keyedTransfers b.transferEvents) := by
    refine (List.perm_ext_iff_of_nodup (keyedTransfers_nodup _) (keyedTransfers_nodup _)).mpr ?_
    rintro ⟨k, row⟩
    rw [ha.transfers, hb.transfers]
  have hjournal : a.journal.Perm b.journal := by
    have hrows : ∀ db : Database,
        db.transferRows = (keyedTransfers db.transferEvents).map Prod.snd := by
      intro db
      rw [Database.transferRows, keyedTransfers, List.map_map]
      rfl
    unfold Database.journal
    rw [hrows, hrows]
    exact (htransfers.map _).flatMap_right _
  refine ⟨fun n => Option.ext fun row => ?_, fun hash => Option.ext fun row => ?_, htransfers,
    fun k => Option.ext fun row => ?_, fun k => ?_⟩
  · rw [ha.blocks, hb.blocks]
  · rw [ha.transactions, hb.transactions]
  · rw [ha.anchoring, hb.anchoring]
  · have hledger : a.ledger k.1 k.2 = b.ledger k.1 k.2 := by
      rw [Database.ledger_eq, Database.ledger_eq, Database.genesisBalance_eq,
        Database.genesisBalance_eq, ha.genesis, hb.genesis, balanceOf_perm hjournal]
    exact (ha.balanced k).trans ((congrArg Ledger.rowOf hledger).trans (hb.balanced k).symm)

/-- The counters are the numbers of rows. -/
def CountersExact (db : Database) : Prop :=
  db.counter "blocks" = db.blocks.entries.length ∧
    db.counter "transactions" = db.transactions.entries.length

theorem Kept.countersExact {p : Progress} (h : Kept c p) : CountersExact p.1 := by
  obtain ⟨-, hblocks, htxs⟩ := h
  exact ⟨by rw [← hblocks, add_zero], by rw [← htxs, add_zero]⟩

/-- **The writer converges**: two runs that committed the same heights, in any order, with any
repeats, divided into any batches, and with any that failed, leave the same content and counters
that are the numbers of rows. -/
theorem commitAll_converges (c : Chain) (xs ys : List Batch)
    (h : ∀ n, n ∈ (commitAll c xs).2 ↔ n ∈ (commitAll c ys).2) :
    SameContent (commitAll c xs).1 (commitAll c ys).1 ∧
      CountersExact (commitAll c xs).1 ∧ CountersExact (commitAll c ys).1 := by
  have hx := commitAll_kept c xs
  have hy := commitAll_kept c ys
  have hS : {n | n ∈ (commitAll c xs).2} = {n | n ∈ (commitAll c ys).2} := by
    ext n
    exact h n
  exact ⟨(hS ▸ hx.1).sameContent hy.1, hx.countersExact, hy.countersExact⟩

/-! ## A chain with a mint at height 1 -/

def sampleTx : Transaction where
  hash := "0x0a"
  blockNumber := 1
  position := 0
  fromAddr := Database.sampleHolder
  toAddr := some Database.sampleToken
  status := 1
  gasUsed := 0
  baseFee := "0"
  contractAddress := none
  feeToken := none
  feeAmount := "0"
  input := "0x"
  raw := none
  traceData := none
  receiptData := none
  timestamp := 0

def sampleBundle (n : ℤ) : BlockBundle where
  block := { Database.mintBlock with number := n, hash := if n = 1 then "0x01" else "0x02" }
  txs := if n = 1 then [sampleTx] else []
  transfers := if n = 1 then [Database.mint] else []
  anchoring := []
  tokens := []

theorem mem_of_mem_ite {α : Type} {p : Prop} [Decidable p] {l : List α} {x : α}
    (h : x ∈ if p then l else []) : p ∧ x ∈ l := by
  split_ifs at h with hp
  · exact ⟨hp, h⟩
  · exact absurd h List.not_mem_nil

theorem nodup_map_ite {α β : Type} {p : Prop} [Decidable p] {x : α} (f : α → β) :
    ((if p then [x] else []).map f).Nodup := by
  split_ifs
  · exact List.nodup_singleton _
  · exact List.nodup_nil

def sampleChain : Chain where
  bundle := sampleBundle
  number _ := rfl
  txNumber n tx htx := by
    obtain ⟨rfl, hmem⟩ := mem_of_mem_ite htx
    rw [List.mem_singleton.mp hmem]
    rfl
  transferNumber n t ht := by
    obtain ⟨rfl, hmem⟩ := mem_of_mem_ite ht
    rw [List.mem_singleton.mp hmem]
    rfl
  anchoringNumber n e he := absurd he List.not_mem_nil
  hashes n m tx htx tx' htx' _ := by
    obtain ⟨rfl, -⟩ := mem_of_mem_ite htx
    exact (mem_of_mem_ite htx').1.symm
  hashNodup n := nodup_map_ite _
  transferIndexes n := nodup_map_ite _
  anchoringIndexes n := List.nodup_nil

/-- Heights 1 and 2 in one batch. -/
def straight : List Batch := [⟨fun _ => .plain, [1, 2], false⟩]

/-- The other way round, with a failure and a repeat. -/
def shuffled : List Batch :=
  [⟨fun _ => .plain, [1], true⟩, ⟨fun _ => .plain, [2], false⟩, ⟨fun _ => .plain, [1, 2], false⟩]

theorem straight_heights : (commitAll sampleChain straight).2 = [1, 2] := by decide

theorem shuffled_heights : (commitAll sampleChain shuffled).2 = [2, 1, 2] := by decide

theorem commitAll_converges_sample :
    SameContent (commitAll sampleChain straight).1 (commitAll sampleChain shuffled).1 ∧
      CountersExact (commitAll sampleChain straight).1 ∧
      CountersExact (commitAll sampleChain shuffled).1 := by
  have h : ∀ n, n ∈ (commitAll sampleChain straight).2 ↔
      n ∈ (commitAll sampleChain shuffled).2 := by
    intro n
    rw [straight_heights, shuffled_heights]
    simp only [List.mem_cons, List.not_mem_nil, or_false]
    tauto
  exact commitAll_converges sampleChain straight shuffled h

end ChainExplorer
