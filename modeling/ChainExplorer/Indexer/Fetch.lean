import ChainExplorer.Indexer.Assemble
import ChainExplorer.Rpc.Client

/-!
# Fetching raw blocks

A range of blocks and their receipts, in as few requests as the node allows (`indexer.rs`): the
blocks in one batch, halved while the node refuses it, then the receipts of those with
transactions, and for a block still without any, its transactions' receipts one by one.

* `fetchRawBlocks`: the fetch.
* **`fetchRawBlocks_ok`**: how one that succeeds has gone.
-/

namespace ChainExplorer

/-! ## The calls -/

/-- A number as the node takes it. -/
def quantity (n : ℕ) : Json := .str ("0x" ++ hexDigits n)

def blockCall (n : ℕ) : MethodCall := ⟨"eth_getBlockByNumber", .arr [quantity n, .bool true]⟩

def receiptsCall (n : ℕ) : MethodCall := ⟨"eth_getBlockReceipts", .arr [quantity n]⟩

def receiptCall (hash : String) : MethodCall := ⟨"eth_getTransactionReceipt", .arr [.str hash]⟩

theorem quantity_injective : Function.Injective quantity := fun m n h => by
  have htext : "0x" ++ hexDigits m = "0x" ++ hexDigits n := Json.str.inj h
  exact hexDigits_injective (String.append_right_inj _ |>.mp htext)

theorem blockCall_injective : Function.Injective blockCall := fun m n h => by
  have hparams : Json.arr [quantity m, .bool true] = .arr [quantity n, .bool true] :=
    congrArg MethodCall.params h
  exact quantity_injective (List.cons_eq_cons.mp (Json.arr.inj hparams)).1

theorem receiptsCall_injective : Function.Injective receiptsCall := fun m n h => by
  have hparams : Json.arr [quantity m] = .arr [quantity n] := congrArg MethodCall.params h
  exact quantity_injective (List.cons_eq_cons.mp (Json.arr.inj hparams)).1

theorem receiptCall_injective : Function.Injective receiptCall := fun g h heq => by
  have hparams : Json.arr [.str g] = .arr [.str h] := congrArg MethodCall.params heq
  exact Json.str.inj (List.cons_eq_cons.mp (Json.arr.inj hparams)).1

/-! ## The fetch -/

/-- A block that was found, by the number asked for, and the receipts got for it. -/
structure RawBlock where
  number : ℕ
  block : Json
  receipts : Option Json

/-- A result that is there. -/
def present : Except RpcError Json → Option Json
  | .ok v => if v.isNull then none else some v
  | .error _ => none

def hasTxs (block : Json) : Bool := !(block.arrayField "transactions").isEmpty

/-- The blocks among the results for some numbers. -/
def foundBlocks (nums : List ℕ) (results : List (Except RpcError Json)) : List RawBlock :=
  (nums.zip results).filterMap fun p => (present p.2).map fun v => ⟨p.1, v, none⟩

/-- Hand the results to the blocks that have transactions, in order. -/
def takeReceipts : List RawBlock → List (Except RpcError Json) → List RawBlock
  | [], _ => []
  | b :: bs, results =>
    if hasTxs b.block then
      match results with
      | [] => b :: takeReceipts bs []
      | r :: results => { b with receipts := present r } :: takeReceipts bs results
    else b :: takeReceipts bs results

/-- The receipts of some hashes as one array; `none` unless every one is there. -/
def eachReceipt (hashes : List String) :
    Except Failure (List (Except RpcError Json)) → Option Json
  | .ok results => if results.length = hashes.length then (results.mapM present).map .arr else none
  | .error _ => none

/-- A block with transactions and no receipts. -/
def RawBlock.short (b : RawBlock) : Bool := hasTxs b.block && b.receipts.isNone

/-- One more try for the blocks that are short of their receipts, a receipt at a time. -/
def fillReceipts : List RawBlock → Rpc (List RawBlock)
  | [] => pure []
  | b :: bs =>
    if b.short then do
      let hashes := txHashes b.block
      let results ← (batchCall (hashes.map receiptCall)).attempt
      let rest ← fillReceipts bs
      return { b with receipts := eachReceipt hashes results } :: rest
    else do
      let rest ← fillReceipts bs
      return b :: rest

/-- The blocks that can be written: every block with transactions has its receipts. -/
def withoutMissingReceipts (blocks : List RawBlock) : List RawBlock :=
  blocks.filter fun b => b.receipts.isSome || !hasTxs b.block

/-- The receipts of the blocks found, in one batch and then block by block. -/
def fetchReceipts (blocks : List RawBlock) : Rpc (List RawBlock) :=
  let need := blocks.filter fun b => hasTxs b.block
  if need.isEmpty then pure blocks
  else do
    let results ← (batchCall (need.map fun b => receiptsCall b.number)).attempt
    let blocks := match results with
      | .ok results => takeReceipts blocks results
      | .error _ => blocks
    let blocks ← fillReceipts blocks
    return withoutMissingReceipts blocks

/-- **Fetch a range.** One the node answers with a single error is fetched in halves; a request that
fails outright is not retried. -/
def fetchRawBlocks (start stop : ℕ) : Rpc (List RawBlock) :=
  if stop < start then pure []
  else do
    let nums := List.range' start (stop + 1 - start)
    match ← (batchCall (nums.map blockCall)).attempt with
    | .ok results => fetchReceipts (foundBlocks nums results)
    | .error (.rpc e) =>
      if start < stop then do
        let mid := start + (stop - start) / 2
        let lower ← fetchRawBlocks start mid
        let upper ← fetchRawBlocks (mid + 1) stop
        return lower ++ upper
      else Rpc.fail (.rpc e)
    | .error e => Rpc.fail e
termination_by stop - start

/-- The request for the blocks of a range, and its answer. -/
def blocksExchange (node : Node) (log : List Exchange) (start stop : ℕ) : Exchange :=
  batchExchange node log ((List.range' start (stop + 1 - start)).map blockCall)

theorem fetchRawBlocks_answered {start stop : ℕ} {node : Node} {log : List Exchange}
    {results : List (Except RpcError Json)} (hle : start ≤ stop)
    (hresults : (blocksExchange node log start stop).results = .ok results) :
    fetchRawBlocks start stop node log =
      fetchReceipts (foundBlocks (List.range' start (stop + 1 - start)) results) node
        (log ++ [blocksExchange node log start stop]) := by
  have hasked : (batchCall ((List.range' start (stop + 1 - start)).map blockCall)).attempt node log =
      (.ok (.ok results), log ++ [blocksExchange node log start stop]) := by
    rw [Rpc.attempt_run, batchCall_eq, ← hresults]
    rfl
  rw [fetchRawBlocks, if_neg (not_lt.mpr hle)]
  exact Rpc.bind_run hasked _

theorem fetchRawBlocks_refused {start stop : ℕ} {node : Node} {log log1 log2 : List Exchange}
    {e : RpcError} {lower upper : List RawBlock} (hlt : start < stop)
    (hresults : (blocksExchange node log start stop).results = .error (.rpc e))
    (hlower : fetchRawBlocks start (start + (stop - start) / 2) node
      (log ++ [blocksExchange node log start stop]) = (.ok lower, log1))
    (hupper : fetchRawBlocks (start + (stop - start) / 2 + 1) stop node log1 = (.ok upper, log2)) :
    fetchRawBlocks start stop node log = (.ok (lower ++ upper), log2) := by
  have hasked : (batchCall ((List.range' start (stop + 1 - start)).map blockCall)).attempt node log =
      (.ok (.error (.rpc e)), log ++ [blocksExchange node log start stop]) := by
    rw [Rpc.attempt_run, batchCall_eq, ← hresults]
    rfl
  rw [fetchRawBlocks, if_neg (not_lt.mpr hlt.le)]
  refine (Rpc.bind_run hasked _).trans ?_
  simp only [if_pos hlt]
  exact (Rpc.bind_run hlower _).trans (Rpc.bind_run hupper _)

/-- **How a fetch that succeeds has gone**: the range is empty, its blocks were answered, or it was
refused and its halves were fetched. -/
theorem fetchRawBlocks_ok {start stop : ℕ} {node : Node} {log log' : List Exchange}
    {raws : List RawBlock} (h : fetchRawBlocks start stop node log = (.ok raws, log')) :
    (stop < start ∧ raws = [] ∧ log' = log) ∨
      (start ≤ stop ∧ ∃ results, (blocksExchange node log start stop).results = .ok results ∧
        fetchReceipts (foundBlocks (List.range' start (stop + 1 - start)) results) node
          (log ++ [blocksExchange node log start stop]) = (.ok raws, log')) ∨
      start < stop ∧ ∃ e lower upper log1,
        (blocksExchange node log start stop).results = .error (.rpc e) ∧
        fetchRawBlocks start (start + (stop - start) / 2) node
          (log ++ [blocksExchange node log start stop]) = (.ok lower, log1) ∧
        fetchRawBlocks (start + (stop - start) / 2 + 1) stop node log1 = (.ok upper, log') ∧
        raws = lower ++ upper := by
  rw [fetchRawBlocks] at h
  by_cases hlt : stop < start
  · rw [if_pos hlt] at h
    obtain ⟨hraws, hlog⟩ := Prod.mk.inj h
    exact .inl ⟨hlt, (Except.ok.inj hraws).symm, hlog.symm⟩
  · have hle : start ≤ stop := not_lt.mp hlt
    rw [if_neg hlt] at h
    simp only at h
    rw [Rpc.bind_run (Rpc.attempt_run _ _ _), batchCall_eq] at h
    change (match (blocksExchange node log start stop).results with
      | .ok results => _
      | .error (.rpc e) => _
      | .error e => _ : Rpc (List RawBlock)) node (log ++ [blocksExchange node log start stop]) = _ at h
    cases hresults : (blocksExchange node log start stop).results with
    | ok results =>
      rw [hresults] at h
      exact .inr (.inl ⟨hle, results, rfl, h⟩)
    | error e =>
      rw [hresults] at h
      cases e with
      | other message => exact absurd (Prod.mk.inj h).1 nofun
      | rpc e =>
        simp only at h
        by_cases hhalves : start < stop
        · rw [if_pos hhalves] at h
          obtain ⟨lower, log1, hlower, h⟩ := Rpc.bind_ok h
          obtain ⟨upper, log2, hupper, h⟩ := Rpc.bind_ok h
          obtain ⟨hraws, hlog⟩ := Prod.mk.inj h
          rw [hlog] at hupper
          exact .inr (.inr ⟨hhalves, e, lower, upper, log1, rfl, hlower, hupper,
            (Except.ok.inj hraws).symm⟩)
        · rw [if_neg hhalves] at h
          exact absurd (Prod.mk.inj h).1 nofun

end ChainExplorer
