import ChainExplorer.Lib.Fallible
import ChainExplorer.Parse
import ChainExplorer.Spelling

/-!
# One block's bundle

A raw block and its receipts as the rows they are indexed to (`indexer.rs`). No request is made
here.

* `applyReceipt`: what only the receipt of a transaction knows, with the transfers and the anchoring
  writes among its logs.
* `assembleBundle`: a block, each transaction with the receipt of its hash.
* **`assembleBundle_holds`**: the transactions of a bundle, each with its receipt's data exactly when
  there is one, and the spelling of the tokens it names.
-/

namespace ChainExplorer

open Text

/-- Where the anchoring contract is. -/
def anchoringAddress : String := "0x0000000000000000000000000000000000000a00"

/-! ## Receipts by hash -/

/-- The transaction a receipt says it is of. -/
def receiptHash (receipt : Json) : Option String := (receipt.get "transactionHash").bind Json.asStr

/-- The receipt of a hash, the last of several. -/
def receiptByHash (receipts : Option Json) (hash : String) : Option Json :=
  ((receipts.bind Json.asArray).getD []).reverse.find? fun r => receiptHash r = some hash

/-- The hashes of a block's transactions, in order. -/
def txHashes (block : Json) : List String :=
  (block.arrayField "transactions").filterMap fun t => (t.get "hash").bind Json.asStr

theorem receiptByHash_some {receipts : Option Json} {hash : String} {r : Json}
    (h : receiptByHash receipts hash = some r) :
    ∃ items, receipts = some (.arr items) ∧ r ∈ items ∧ receiptHash r = some hash := by
  unfold receiptByHash at h
  have hmem := List.mem_reverse.mp (List.mem_of_find?_eq_some h)
  have hhash : receiptHash r = some hash := by simpa using List.find?_some h
  cases receipts with
  | none => exact absurd hmem List.not_mem_nil
  | some j =>
    cases j with
    | arr items => exact ⟨items, rfl, hmem, hhash⟩
    | _ => exact absurd hmem List.not_mem_nil

theorem receiptByHash_none {receipts : Option Json} {hash : String}
    (h : receiptByHash receipts hash = none) {items : List Json}
    (hitems : receipts = some (.arr items)) {r : Json} (hr : r ∈ items) :
    receiptHash r ≠ some hash := by
  subst hitems
  have hall := List.find?_eq_none.mp h r (List.mem_reverse.mpr hr)
  simpa using hall

/-! ## Receipts -/

/-- The fee a receipt did not state, read off the transfer of the fee token to the fee manager. -/
def deriveFeeFromTransfer [Lowercase] (tx : Transaction) (log : Json) (dst amount : String) :
    Transaction :=
  if amount.isEmpty ∨ ((parseI64 tx.feeAmount).map fun n => decide (0 < n)).getD false then tx
  else
    let emitter := Lowercase.toLowercase (log.text "address" "")
    let isFeeToken := (tx.feeToken.map fun f => decide (Lowercase.toLowercase f = emitter)).getD false
    if isFeeToken && eqIgnoreAsciiCase dst.toList feeManagerAddress.toList then
      { tx with feeAmount := amount }
    else tx

theorem deriveFeeFromTransfer_frame [Lowercase] (tx : Transaction) (log : Json) (dst amount : String) :
    deriveFeeFromTransfer tx log dst amount =
      { tx with feeAmount := (deriveFeeFromTransfer tx log dst amount).feeAmount } := by
  unfold deriveFeeFromTransfer
  split_ifs
  · rfl
  · simp only
    split_ifs <;> rfl

section Keccak

variable [Keccak]

/-- Copy onto a transaction what only its receipt knows. -/
def applyReceiptFields [Codec] (tx : Transaction) (receipt : Json) : Transaction :=
  { tx with
    receiptData := some (Codec.jsonText receipt)
    status := ((receipt.get "status").map parseIntAny).getD 1
    -- Some nodes fill it with the first call's destination.
    toAddr := tx.toAddr.or ((receipt.get "to").bind Json.asStr)
    gasUsed := intField "gasUsed" receipt
    contractAddress :=
      (((receipt.get "contractAddress").bind Json.asStr).map checksumAddress).or tx.contractAddress
    feeToken := (((receipt.get "feeToken").bind Json.asStr).map checksumAddress).or tx.feeToken
    feeAmount :=
      match receipt.get "feeAmount" with
      | some (.str s) => decimalAmount (.str s)
      | some (.int n) => decimalAmount (.int n)
      | some (.float text) => decimalAmount (.float text)
      | _ => tx.feeAmount
    baseFee := ((receipt.get "effectiveGasPrice").map intToHexStr).getD tx.baseFee }

/-- One anchoring row; `none` for a log that names no registry, whatever its topic. -/
def anchoringEvent (decoded : DecodedEvent) (txHash : String)
    (blockNumber logIndex timestamp : ℤ) : Option AnchoringEvent := do
  let event ← decoded.name
  let registryId ← (decoded.param "registryId").bind parseI64
  return {
    txHash := txHash
    blockNumber := blockNumber
    logIndex := logIndex
    timestamp := timestamp
    event := event
    registryId := registryId
    recordId := ((decoded.param "recordId").bind parseI64).getD 0
    caller := (decoded.param "caller").getD "" }

/-- A transaction and what has been indexed of its block so far. -/
structure Indexing where
  tx : Transaction
  transfers : List TransferEvent
  anchoring : List AnchoringEvent
  nextLogIndex : ℕ

/-- The first topic of a log. -/
def firstTopic (log : Json) : String :=
  (((log.get "topics").bind fun topics =>
    (topics.asArray.bind List.head?).or (topics.get "0")).bind Json.asStr).getD ""

/-- Index a transfer, which may also tell the transaction what it was charged. -/
def indexTransfer [Lowercase] (decoded : DecodedEvent) (log : Json) (logIndex : ℤ) (s : Indexing) :
    Indexing :=
  let src := (decoded.param "from").getD ""
  let dst := (decoded.param "to").getD ""
  let amount := (decoded.param "amount").getD ""
  let tx := deriveFeeFromTransfer s.tx log dst amount
  -- A log that does not carry all three is not a transfer.
  if src.isEmpty ∨ dst.isEmpty ∨ amount.isEmpty then { s with tx := tx }
  else
    let transfer : TransferEvent := {
      txHash := tx.hash
      blockNumber := tx.blockNumber
      logIndex := logIndex
      tokenAddr := checksumAddress (log.text "address" "")
      fromAddr := src
      toAddr := dst
      amount := amount
      timestamp := tx.timestamp }
    { s with tx := tx, transfers := s.transfers ++ [transfer] }

/-- **Index one log**: an anchoring write of the contract, a transfer, or neither, which is not
decoded. -/
def indexLog [Codec] (log : Json) (logIndex : ℤ) (s : Indexing) : Option Indexing :=
  let isTransfer := eqIgnoreAsciiCase (firstTopic log).toList transferTopic.toList
  let isAnchoring := eqIgnoreAsciiCase (log.text "address" "").toList anchoringAddress.toList
  if !isTransfer && !isAnchoring then some s
  else
    (decodeEvent log).map fun
      | none => s
      | some decoded =>
        let anchored := if isAnchoring then
            (anchoringEvent decoded s.tx.hash s.tx.blockNumber logIndex s.tx.timestamp).toList
          else []
        let s := { s with anchoring := s.anchoring ++ anchored }
        if isTransfer then indexTransfer decoded log logIndex s else s

/-- The index of a log: the node's, or the next one. -/
def logIndexOf (next : ℕ) (log : Json) : ℤ :=
  (((log.get "logIndex").map parseIntAny).filter fun n => decide (0 ≤ n)).getD (wrapI64 next)

/-- Every log counts, decodable or not. -/
def applyLog [Codec] (s : Indexing) (log : Json) : Option Indexing :=
  let logIndex := logIndexOf s.nextLogIndex log
  indexLog log logIndex { s with nextLogIndex := max s.nextLogIndex (wrapU64 logIndex + 1) }

/-- A transaction with its receipt. -/
def applyReceipt [Codec] (receipt : Json) (s : Indexing) : Option Indexing :=
  (receipt.arrayField "logs").foldlM applyLog { s with tx := applyReceiptFields s.tx receipt }

/-! ## The bundle -/

/-- What has been assembled of a block so far. -/
structure Assembly where
  txs : List Transaction
  transfers : List TransferEvent
  anchoring : List AnchoringEvent
  nextLogIndex : ℕ

/-- One more transaction; one without a hash is passed over. -/
def assembleTx [Codec] (block : Block) (receipts : Option Json) (s : Assembly) (txData : Json) :
    Option Assembly :=
  let hash := txData.text "hash" ""
  if hash.isEmpty then some s
  else
    let tx := { parseTransaction txData block with
      raw := (Codec.encodeSigned txData).map blobHex }
    let start : Indexing := ⟨tx, s.transfers, s.anchoring, s.nextLogIndex⟩
    let done := (receiptByHash receipts hash).elim (some start) fun receipt => applyReceipt receipt start
    done.map fun done => ⟨s.txs ++ [done.tx], done.transfers, done.anchoring, done.nextLogIndex⟩

/-- **A raw block and its receipts as a bundle**, where no log panics. Token metadata is filled in
later. -/
def assembleBundle [Codec] (rawBlock : Json) (receipts : Option Json) : Option BlockBundle :=
  let block := parseBlock rawBlock
  let done := (rawBlock.arrayField "transactions").foldlM (assembleTx block receipts) ⟨[], [], [], 0⟩
  done.map fun done =>
    { block := block
      txs := done.txs
      transfers := done.transfers
      anchoring := done.anchoring
      tokens := [] }

/-! ## What a log leaves alone -/

/-- **Logs have been indexed**: the transaction's fee may have changed, and transfers may have been
added, whose token is in its checksummed spelling. -/
structure Indexing.Grown (s s' : Indexing) : Prop where
  tx : s'.tx = { s.tx with feeAmount := s'.tx.feeAmount }
  transfers : ∀ t ∈ s'.transfers, t ∈ s.transfers ∨ ∃ addr, t.tokenAddr = checksumAddress addr

theorem Indexing.Grown.of_tx {s s' : Indexing} (htx : s'.tx = s.tx)
    (htransfers : s'.transfers = s.transfers) : s.Grown s' := by
  refine ⟨?_, fun t ht => .inl (htransfers ▸ ht)⟩
  rw [htx]

theorem Indexing.Grown.trans {s s' s'' : Indexing} (h : s.Grown s') (h' : s'.Grown s'') :
    s.Grown s'' := by
  refine ⟨?_, fun t ht => ?_⟩
  · rw [h'.tx, h.tx]
  · rcases h'.transfers t ht with hmem | haddr
    · exact h.transfers t hmem
    · exact .inr haddr

theorem indexTransfer_grown [Lowercase] (decoded : DecodedEvent) (log : Json) (logIndex : ℤ)
    (s : Indexing) :
    s.Grown (indexTransfer decoded log logIndex s) := by
  unfold indexTransfer
  simp only
  split_ifs
  · exact ⟨deriveFeeFromTransfer_frame _ _ _ _, fun t ht => .inl ht⟩
  · refine ⟨deriveFeeFromTransfer_frame _ _ _ _, fun t ht => ?_⟩
    rcases List.mem_append.mp ht with hold | hnew
    · exact .inl hold
    · have htoken : t.tokenAddr = checksumAddress (log.text "address" "") := by
        simp only [List.mem_singleton.mp hnew]
      exact .inr ⟨_, htoken⟩

theorem indexLog_grown [Codec] {log : Json} {logIndex : ℤ} {s s' : Indexing}
    (h : indexLog log logIndex s = some s') : s.Grown s' := by
  unfold indexLog at h
  simp only at h
  split_ifs at h
  · obtain rfl := Option.some.inj h
    exact .of_tx rfl rfl
  all_goals
    obtain ⟨event, -, rfl⟩ := Option.map_eq_some_iff.mp h
    cases event with
    | none => exact .of_tx rfl rfl
    | some decoded =>
      first
      | exact .of_tx rfl rfl
      | refine .trans ?_ (indexTransfer_grown _ _ _ _)
        exact .of_tx rfl rfl

theorem foldlM_applyLog_grown [Codec] {logs : List Json} {s s' : Indexing}
    (h : logs.foldlM applyLog s = some s') : s.Grown s' := by
  have hrun : ∀ (done : List Json) (s1 : Indexing) (log : Json) (s2 : Indexing),
      s.Grown s1 → applyLog s1 log = some s2 → s.Grown s2 := by
    intro done s1 log s2 hs1 hlog
    refine hs1.trans (.trans ?_ (indexLog_grown hlog))
    exact .of_tx rfl rfl
  exact Fallible.foldlM_run (P := fun _ s' => s.Grown s') hrun [] (.of_tx rfl rfl) h

/-! ## What a bundle holds -/

/-- A transaction of a bundle: it has the data of the receipt of its hash, and its fee token, if
any, is in its checksummed spelling. -/
structure Assembled [Codec] (receipts : Option Json) (tx : Transaction) : Prop where
  receiptData : tx.receiptData = (receiptByHash receipts tx.hash).map Codec.jsonText
  feeToken : ∀ addr ∈ tx.feeToken, Checksummed addr

/-- What has been assembled so far, of some transaction objects. -/
structure Assembly.Holds [Codec] (receipts : Option Json) (raw : List Json) (s : Assembly) : Prop where
  txs : ∀ tx ∈ s.txs, Assembled receipts tx
  hashes : s.txs.map Transaction.hash =
    (raw.filterMap fun t => (t.get "hash").bind Json.asStr).filter fun h => !h.isEmpty
  transfers : ∀ t ∈ s.transfers, Checksummed t.tokenAddr

theorem applyReceipt_spec [Codec] {receipt : Json} {s s' : Indexing}
    (h : applyReceipt receipt s = some s') :
    s'.tx.hash = s.tx.hash ∧ s'.tx.receiptData = some (Codec.jsonText receipt) ∧
      ((∀ addr ∈ s.tx.feeToken, Checksummed addr) → ∀ addr ∈ s'.tx.feeToken, Checksummed addr) ∧
      ∀ t ∈ s'.transfers, t ∈ s.transfers ∨ Checksummed t.tokenAddr := by
  have hgrown := foldlM_applyLog_grown h
  have htx : s'.tx = { applyReceiptFields s.tx receipt with feeAmount := s'.tx.feeAmount } := hgrown.tx
  refine ⟨?_, ?_, fun hfee addr haddr => ?_, hgrown.transfers⟩
  · rw [htx]
    rfl
  · rw [htx]
    rfl
  · rw [htx] at haddr
    have hor : addr ∈ (((receipt.get "feeToken").bind Json.asStr).map checksumAddress).or
        s.tx.feeToken := haddr
    cases hr : (receipt.get "feeToken").bind Json.asStr with
    | none =>
      rw [hr] at hor
      exact hfee addr hor
    | some text =>
      rw [hr] at hor
      exact ⟨text, (Option.some.inj hor).symm⟩

theorem assembleTx_holds [Codec] (block : Block) {receipts : Option Json} {raw : List Json}
    {s s' : Assembly} (h : s.Holds receipts raw) {txData : Json}
    (hrun : assembleTx block receipts s txData = some s') : s'.Holds receipts (raw ++ [txData]) := by
  have hhashes : ∀ {hash : String}, (txData.get "hash").bind Json.asStr = some hash →
      ((raw ++ [txData]).filterMap fun t => (t.get "hash").bind Json.asStr) =
        (raw.filterMap fun t => (t.get "hash").bind Json.asStr) ++ [hash] := by
    intro hash hhash
    rw [List.filterMap_append, List.filterMap_cons, hhash, List.filterMap_nil]
  unfold assembleTx at hrun
  simp only at hrun
  by_cases hempty : (txData.text "hash" "").isEmpty
  · -- A transaction without a hash is passed over.
    rw [if_pos hempty] at hrun
    obtain rfl := Option.some.inj hrun
    refine ⟨h.txs, ?_, h.transfers⟩
    cases hhash : (txData.get "hash").bind Json.asStr with
    | none =>
      rw [List.filterMap_append, List.filterMap_cons, hhash, List.filterMap_nil, List.append_nil]
      exact h.hashes
    | some hash =>
      rw [Json.text, hhash, Option.getD_some] at hempty
      rw [hhashes hhash, List.filter_append, h.hashes]
      simp [hempty]
  · rw [if_neg hempty] at hrun
    obtain ⟨hash, hhash⟩ : ∃ hash, (txData.get "hash").bind Json.asStr = some hash := by
      cases hhash : (txData.get "hash").bind Json.asStr with
      | some hash => exact ⟨hash, rfl⟩
      | none =>
        rw [Json.text, hhash] at hempty
        exact absurd rfl hempty
    have htext : txData.text "hash" "" = hash := by rw [Json.text, hhash, Option.getD_some]
    rw [htext] at hempty hrun
    set tx : Transaction := { parseTransaction txData block with
      raw := (Codec.encodeSigned txData).map blobHex }
    have hhash' : tx.hash = hash := htext
    have hfresh : ∀ addr ∈ tx.feeToken, Checksummed addr := nofun
    obtain ⟨done, hdone, rfl⟩ := Option.map_eq_some_iff.mp hrun
    -- The transaction as it is added, with its receipt if there is one.
    obtain ⟨hsame, hassembled, htransfers⟩ : done.tx.hash = hash ∧ Assembled receipts done.tx ∧
        ∀ t ∈ done.transfers, Checksummed t.tokenAddr := by
      cases hr : receiptByHash receipts hash with
      | none =>
        rw [hr] at hdone
        obtain rfl := Option.some.inj hdone
        refine ⟨hhash', ⟨?_, hfresh⟩, h.transfers⟩
        show none = (receiptByHash receipts tx.hash).map Codec.jsonText
        rw [hhash', hr]
        rfl
      | some receipt =>
        rw [hr] at hdone
        obtain ⟨hsame, hdata, hfee, htransfers⟩ := applyReceipt_spec hdone
        refine ⟨hsame.trans hhash', ⟨?_, hfee hfresh⟩, fun t ht => ?_⟩
        · rw [hdata, hsame, hhash', hr]
          rfl
        · exact (htransfers t ht).elim (h.transfers t) id
    refine ⟨fun tx' htx' => ?_, ?_, htransfers⟩
    · rcases List.mem_append.mp htx' with hold | hnew
      · exact h.txs tx' hold
      · obtain rfl := List.mem_singleton.mp hnew
        exact hassembled
    · rw [List.map_append, List.map_cons, List.map_nil, hsame, h.hashes, hhashes hhash,
        List.filter_append]
      simp [hempty]

/-- **What a bundle holds**: the transactions with a hash, in order, each with the data of its
receipt if there is one; and every token it names is in its checksummed spelling. -/
theorem assembleBundle_holds [Codec] {rawBlock : Json} {receipts : Option Json}
    {bundle : BlockBundle} (h : assembleBundle rawBlock receipts = some bundle) :
    (∀ tx ∈ bundle.txs, Assembled receipts tx) ∧
      bundle.txs.map Transaction.hash = (txHashes rawBlock).filter (fun h => !h.isEmpty) ∧
      ∀ t ∈ bundle.transfers, Checksummed t.tokenAddr := by
  obtain ⟨done, hdone, rfl⟩ := Option.map_eq_some_iff.mp h
  have hempty : Assembly.Holds receipts [] ⟨[], [], [], 0⟩ := by
    refine ⟨fun tx htx => ?_, rfl, fun t ht => ?_⟩
    · exact absurd htx List.not_mem_nil
    · exact absurd ht List.not_mem_nil
  have hall := Fallible.foldlM_run (P := fun raw s => Assembly.Holds receipts raw s)
    (fun _ _ _ _ hs hrun => assembleTx_holds (parseBlock rawBlock) hs hrun) [] hempty hdone
  exact ⟨hall.txs, hall.hashes, hall.transfers⟩

theorem block_of_assembleBundle [Codec] {rawBlock : Json} {receipts : Option Json}
    {bundle : BlockBundle} (h : assembleBundle rawBlock receipts = some bundle) :
    bundle.block = parseBlock rawBlock ∧ bundle.tokens = [] := by
  obtain ⟨done, -, rfl⟩ := Option.map_eq_some_iff.mp h
  exact ⟨rfl, rfl⟩

end Keccak

end ChainExplorer
