import ChainExplorer.Db.Converge
import ChainExplorer.Db.Pages
import ChainExplorer.Lib.Bisect
import ChainExplorer.Web.Blocks

/-!
# What the live feed says of a block

A payload of the feed is a block with its first transactions. All those of a range are read by two
queries, not by two for each height, and dealt out to the blocks by two searches each (`web.rs`,
`models.rs`).

* `Database.getTransactionsInRange`, `Database.getBlockTransactions`: the query of a range, and the
  plain one of a height.
* `Database.blockPayloads`: the payloads of a range, whose two queries a writer may come between.
* **`payloads_whole`**: over the blocks of a chain every payload has its own block's transactions,
  all of them up to the fifteen it shows, in order.
-/

namespace ChainExplorer

open Bisect Collect

/-! ## A payload -/

/-- How many transactions a payload shows. -/
def streamTxCap : ℕ := 15

/-- A transaction of a payload. -/
def streamTx (tx : Transaction) : Json :=
  .obj [("hash", .str tx.hash), ("status", .int tx.status), ("from_addr", .str tx.fromAddr),
    ("to_addr", tx.toAddr.elim .null .str), ("block_number", .int tx.blockNumber),
    ("timestamp", .int tx.timestamp)]

/-- **The payload of a block**, with its first transactions. -/
def blockEventJson (block : Block) (txs : List Transaction) (txCap : ℕ) : Json :=
  .obj [("type", .str "block"), ("block",
    .obj [("number", .int block.number), ("hash", .str block.hash),
      ("timestamp", .int block.timestamp), ("timestamp_ms", .int block.timestampMs),
      ("tx_count", .int block.txCount), ("gas_used", .int block.gasUsed),
      ("gas_limit", .int block.gasLimit), ("txs", .arr ((txs.take txCap).map streamTx))])]

/-! ## The queries -/

namespace Database

section Keccak

variable [Keccak]

/-- Transactions of every block in a range, in block then position order. -/
def getTransactionsInRange (ch : Choices) (db : Database) (start stop : ℤ) (columns : TxColumns) :
    List Transaction :=
  (sortBy (fun e => (txPageRow e).key) (ch.order (db.transactions.entries.filter fun e =>
    start ≤ e.2.blockNumber ∧ e.2.blockNumber ≤ stop))).map (rowToTx columns)

/-- The plain query: the transactions of one block, in position order. -/
def getBlockTransactions (ch : Choices) (db : Database) (number : ℤ) (columns : TxColumns) :
    List Transaction :=
  (sortBy (fun e : TxEntry => e.2.position) (ch.order (db.transactions.entries.filter fun e =>
    e.2.blockNumber = number))).map (rowToTx columns)

/-- **The payloads of a range**, oldest first. The lock is taken for each of the two queries, so the
transactions may be of a later database than the blocks. `none` is a slice that panics. -/
def blockPayloads (ch : Choices) (db later : Database) (start stop : ℤ) : Option (List Json) :=
  let blocks := db.getBlocksInRange start stop
  let txs := later.getTransactionsInRange ch start stop .list
  blocks.reverse.mapM fun block => do
    let first := partitionPoint (fun tx => tx.blockNumber < block.number) txs
    let past := partitionPoint (fun tx => tx.blockNumber ≤ block.number) txs
    let own ← cut? txs first past
    return blockEventJson (rowToBlock block) own streamTxCap

/-! ## The transactions of a block -/

/-- **What the plain query may answer**: the transactions stored at a height, in position order. -/
structure TxsAt (db : Database) (number : ℤ) (columns : TxColumns) (txs : List Transaction) :
    Prop where
  ordered : txs.Pairwise fun tx tx' => tx.position ≤ tx'.position
  perm : txs.Perm ((db.transactions.entries.filter fun e => e.2.blockNumber = number).map
    (rowToTx columns))

variable {db : Database} {number start stop : ℤ} {columns : TxColumns}

theorem getBlockTransactions_txsAt (ch : Choices) (db : Database) (number : ℤ)
    (columns : TxColumns) :
    db.TxsAt number columns (getBlockTransactions ch db number columns) where
  ordered := List.pairwise_map.mpr (pairwise_sortBy _ _)
  perm := ((sortBy_perm _ _).trans (ch.perm _)).map _

theorem TxsAt.unique {txs txs' : List Transaction} (h : db.TxsAt number columns txs)
    (h' : db.TxsAt number columns txs') (hpositions : (txs.map Transaction.position).Nodup) :
    txs = txs' := by
  refine (h.perm.trans h'.perm.symm).eq_of_pairwise ?_ h.ordered h'.ordered
  intro a b ha hb hab hba
  exact List.inj_on_of_nodup_map hpositions ha ((h.perm.trans h'.perm.symm).mem_iff.mpr hb)
    (le_antisymm hab hba)

theorem pairwise_getTransactionsInRange (ch : Choices) (db : Database) (start stop : ℤ)
    (columns : TxColumns) : (getTransactionsInRange ch db start stop columns).Pairwise
      fun tx tx' => toLex (tx.blockNumber, tx.position) ≤ toLex (tx'.blockNumber, tx'.position) :=
  List.pairwise_map.mpr (pairwise_sortBy _ _)

theorem filter_getTransactionsInRange (ch : Choices) (db : Database) (columns : TxColumns)
    (hstart : start ≤ number) (hstop : number ≤ stop) : db.TxsAt number columns
      ((getTransactionsInRange ch db start stop columns).filter fun tx =>
        tx.blockNumber = number) where
  ordered := by
    have hin : ∀ tx ∈ (getTransactionsInRange ch db start stop columns).filter
        (fun tx => tx.blockNumber = number), tx.blockNumber = number := by
      intro tx htx
      exact of_decide_eq_true (List.mem_filter.mp htx).2
    have hlex := (pairwise_getTransactionsInRange ch db start stop columns).filter
      fun tx => tx.blockNumber = number
    refine hlex.imp_of_mem fun {tx tx'} htx htx' hle => ?_
    rcases Prod.Lex.le_iff.mp hle with hlt | heq
    · have hne : tx.blockNumber < tx'.blockNumber := hlt
      rw [hin tx htx, hin tx' htx'] at hne
      exact absurd hne (lt_irrefl number)
    · exact heq.2
  perm := by
    have hperm : (getTransactionsInRange ch db start stop columns).Perm
        ((db.transactions.entries.filter fun e =>
          start ≤ e.2.blockNumber ∧ e.2.blockNumber ≤ stop).map (rowToTx columns)) :=
      ((sortBy_perm _ _).trans (ch.perm _)).map _
    refine (hperm.filter _).trans (List.Perm.of_eq ?_)
    rw [List.filter_map, List.filter_filter]
    refine congrArg (List.map (rowToTx columns)) (List.filter_congr fun e _ => ?_)
    have hnumber : (rowToTx columns e).blockNumber = e.2.blockNumber := rfl
    rw [Function.comp_apply, hnumber, Bool.eq_iff_iff, Bool.and_eq_true]
    simp only [decide_eq_true_iff]
    exact ⟨fun h => h.1, fun h => ⟨h, h ▸ hstart, h ▸ hstop⟩⟩

/-! ## The payloads -/

theorem blockPayloads_eq (ch : Choices) (db later : Database) (start stop : ℤ) :
    blockPayloads ch db later start stop =
      some ((db.blockEventsInRange start stop).map fun block =>
        blockEventJson (rowToBlock block) ((getTransactionsInRange ch later start stop .list).filter
          fun tx => tx.blockNumber = block.number) streamTxCap) := by
  have hblocks : (getTransactionsInRange ch later start stop .list).Pairwise
      fun tx tx' => tx.blockNumber ≤ tx'.blockNumber := by
    refine (pairwise_getTransactionsInRange ch later start stop .list).imp fun {tx tx'} hle => ?_
    rcases Prod.Lex.le_iff.mp hle with hlt | heq
    · exact le_of_lt hlt
    · exact heq.1.le
  rw [blockPayloads, blockEventsInRange]
  simp only [cut?_partitionPoint hblocks, Option.bind_eq_bind, Option.bind_some]
  exact List.mapM_pure

end Keccak

end Database

/-! ## A chain's blocks -/

section Whole

variable [Keccak] {c : Chain} {S : Set ℤ} {db : Database}

/-- A transaction of a block as it is read. -/
def asRead (tx : Transaction) : Transaction :=
  Database.rowToTx .list ⟨hexBlob tx.hash, txRow tx⟩

omit [Keccak] in
theorem Mirrors.transactionsAt (h : Mirrors c S db) {n : ℤ} (hn : n ∈ S) :
    (db.transactions.entries.filter fun e => e.2.blockNumber = n).Perm
      ((c.bundle n).txs.map fun tx => ⟨hexBlob tx.hash, txRow tx⟩) := by
  have hentries : (db.transactions.entries.filter fun e => e.2.blockNumber = n).Nodup :=
    (List.Nodup.of_map Sigma.fst db.transactions.nodupKeys).filter _
  have hown : ((c.bundle n).txs.map fun tx =>
      (⟨hexBlob tx.hash, txRow tx⟩ : Database.TxEntry)).Nodup := by
    refine List.Nodup.of_map Sigma.fst ?_
    rw [List.map_map]
    exact c.hashNodup n
  refine (List.perm_ext_iff_of_nodup hentries hown).mpr fun e => ?_
  rw [List.mem_filter, decide_eq_true_iff, List.mem_map]
  constructor
  · rintro ⟨hmem, hnumber⟩
    have hlookup := Keyed.mem_entries_iff.mp hmem
    obtain ⟨m, -, tx, htx, hhash, hrow⟩ := (h.transactions e.1 e.2).mp hlookup
    have hm : m = n := by
      rw [← hnumber, ← hrow]
      exact (c.txNumber m tx htx).symm
    subst hm
    exact ⟨tx, htx, Sigma.ext hhash (heq_of_eq hrow)⟩
  · rintro ⟨tx, htx, rfl⟩
    refine ⟨Keyed.mem_entries_iff.mpr ?_, c.txNumber n tx htx⟩
    exact (h.transactions _ _).mpr ⟨n, hn, tx, htx, rfl, rfl⟩

omit [Keccak] in
theorem Mirrors.blockEventsInRange [DecidablePred (· ∈ S)] (h : Mirrors c S db) (start stop : ℤ) :
    db.blockEventsInRange start stop = ((span start stop).filter fun n => n ∈ S).map fun n =>
      ⟨n, blockRow (c.bundle n).block⟩ := by
  have hmem : ∀ e : BlockEvent, e ∈ db.blockEventsInRange start stop ↔
      (e.number ∈ S ∧ e.row = blockRow (c.bundle e.number).block) ∧
        start ≤ e.number ∧ e.number ≤ stop := by
    intro e
    rw [Database.blockEventsInRange, List.mem_reverse, mem_getBlocksInRange, Keyed.mem_entries_iff,
      h.blocks]
  have hrows : db.blockEventsInRange start stop =
      ((db.blockEventsInRange start stop).map BlockEvent.number).map fun n =>
        ⟨n, blockRow (c.bundle n).block⟩ := by
    rw [List.map_map]
    refine (List.map_id _).symm.trans (List.map_congr_left fun e he => ?_)
    obtain ⟨⟨-, hrow⟩, -⟩ := (hmem e).mp he
    rw [Function.comp_apply, ← hrow]
    rfl
  have hup : ((db.blockEventsInRange start stop).map BlockEvent.number).Pairwise (· < ·) := by
    rw [List.pairwise_map, Database.blockEventsInRange, List.pairwise_reverse]
    exact pairwise_getBlocksInRange db start stop
  rw [hrows]
  congr 1
  refine eq_of_pairwise_lt hup ((pairwise_span start stop).filter _) fun n => ?_
  rw [List.mem_map, List.mem_filter, mem_span, decide_eq_true_iff]
  constructor
  · rintro ⟨e, he, rfl⟩
    obtain ⟨⟨hS, -⟩, hrange⟩ := (hmem e).mp he
    exact ⟨hrange, hS⟩
  · rintro ⟨hrange, hS⟩
    exact ⟨⟨n, blockRow (c.bundle n).block⟩, (hmem _).mpr ⟨⟨hS, rfl⟩, hrange⟩, rfl⟩

omit [Keccak] in
theorem subset_commit (c : Chain) (p : Progress) (batch : Batch) : p.2 ⊆ (commit c p batch).2 := by
  unfold commit
  split_ifs
  · exact List.Subset.refl _
  · cases p.1.saveBlockBundles batch.ch (batch.heights.map c.bundle) with
    | ok db => exact List.subset_append_left _ _
    | error e => exact List.Subset.refl _

omit [Keccak] in
theorem subset_commitAll (c : Chain) (xs ys : List Batch) :
    (commitAll c xs).2 ⊆ (commitAll c (xs ++ ys)).2 := by
  have hrun : ∀ p : Progress, p.2 ⊆ (ys.foldl (commit c) p).2 := by
    induction ys with
    | nil => exact fun p => List.Subset.refl _
    | cons batch ys ih => exact fun p => List.Subset.trans (subset_commit c p batch) (ih _)
  rw [commitAll, commitAll, List.foldl_append]
  exact hrun _

/-- **Every payload has its own block's transactions.** Whatever batches of a chain's blocks were
written before a range is read, and whatever more between its two queries, the payloads are those of
the blocks written before, oldest first and each once; the transactions each is given are all those
of its block in position order, and where their positions differ they are what the query of that
block alone answers. No slice panics. -/
theorem payloads_whole (c : Chain) (xs ys : List Batch) (ch : Choices) (start stop : ℤ) :
    ∃ txs : ℤ → List Transaction,
      Database.blockPayloads ch (commitAll c xs).1 (commitAll c (xs ++ ys)).1 start stop =
          some (((span start stop).filter fun n => n ∈ (commitAll c xs).2).map fun n =>
            blockEventJson (rowToBlock ⟨n, blockRow (c.bundle n).block⟩) (txs n) streamTxCap) ∧
        ∀ n ∈ (commitAll c xs).2, start ≤ n → n ≤ stop →
          (txs n).Pairwise (fun tx tx' => tx.position ≤ tx'.position) ∧
          (txs n).Perm ((c.bundle n).txs.map asRead) ∧
          (((c.bundle n).txs.map Transaction.position).Nodup → ∀ ch' : Choices,
            txs n = Database.getBlockTransactions ch' (commitAll c (xs ++ ys)).1 n .list) := by
  have hbefore := (commitAll_kept c xs).1
  have hafter := (commitAll_kept c (xs ++ ys)).1
  refine ⟨fun n => (Database.getTransactionsInRange ch (commitAll c (xs ++ ys)).1 start stop
    .list).filter fun tx => tx.blockNumber = n, ?_, fun n hn hstart hstop => ?_⟩
  · rw [Database.blockPayloads_eq, hbefore.blockEventsInRange, List.map_map]
    rfl
  · have hown := Database.filter_getTransactionsInRange ch (commitAll c (xs ++ ys)).1 .list
      hstart hstop
    have hperm := hown.perm.trans ((hafter.transactionsAt (subset_commitAll c xs ys hn)).map _)
    rw [List.map_map] at hperm
    refine ⟨hown.ordered, hperm, fun hpositions ch' => ?_⟩
    refine hown.unique (Database.getBlockTransactions_txsAt ch' _ n .list) ?_
    refine ((hperm.map Transaction.position).nodup_iff).mpr ?_
    rw [List.map_map]
    exact hpositions

end Whole

end ChainExplorer
