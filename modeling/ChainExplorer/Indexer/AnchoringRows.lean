import ChainExplorer.Indexer.LogIndex

/-!
# Anchoring rows, by either path

An anchoring write is a log among the receipts of its block. A block brings its own rows when it is
indexed; the rows of a block indexed before the table existed come from the node's logs, one by one
(`indexer.rs`).

* `ChainBlock`, `Sound`: the blocks of a chain, and what their logs are promised to be.
* `ChainBlock.row`: the row a log of a block is, under its key.
* **`assembleBundle_anchoring`**: what a block brings.
* **`anchoringEventFromLog_row`**: what a log of its own brings is the same row.
-/

namespace ChainExplorer

/-! ## The log path -/

namespace Database

def getBlockTimestamp (db : Database) (number : ℤ) : Option ℤ :=
  (db.blocks.lookup number).map BlockRow.timestamp

end Database

/-- One row from a raw log, stamped from the block that is stored, or a panic. A block not indexed yet
brings its own rows when it is. -/
def anchoringEventFromLog [Codec] (db : Database) (log : Json) : Option (Option AnchoringEvent) :=
  let stored := ((log.get "blockNumber").map parseIntAny).bind fun blockNumber =>
    (db.getBlockTimestamp blockNumber).map fun timestamp => (blockNumber, timestamp)
  match stored with
  | none => some none
  | some (blockNumber, timestamp) =>
    (decodeEvent log).map fun event =>
      event.bind fun decoded =>
        decoded.transactionHash.bind fun txHash =>
          ((log.get "logIndex").map parseIntAny).bind fun logIndex =>
            anchoringEvent decoded txHash blockNumber logIndex timestamp

/-! ## A chain -/

/-- A block and its receipts, as the node answers for them. -/
structure ChainBlock where
  raw : Json
  receipts : Option Json

def anchoringKey (e : AnchoringEvent) : LogKey := (e.blockNumber, e.logIndex)

namespace ChainBlock

def block (b : ChainBlock) : Block := parseBlock b.raw

def number (b : ChainBlock) : ℤ := b.block.number

/-- A log among the receipts of a block, in the receipt of the transaction object `txData`. -/
structure Has (b : ChainBlock) (txData log : Json) : Prop where
  tx : txData ∈ b.raw.arrayField "transactions"
  log : log ∈ txLogs b.receipts txData

/-- **The row a log of a block is**, under its key, if it is an anchoring write that decodes. -/
def row [Codec] (b : ChainBlock) (txData log : Json) : Option (LogKey × AnchoringRow) :=
  (logAnchoring (parseTransaction txData b.block) log (intField "logIndex" log)).map fun e =>
    (anchoringKey e, anchoringRow e)

end ChainBlock

/-- **A chain whose logs are told apart**: a height has one block, a transaction has the number of
its block, and the logs of the contract have indexes of their own. -/
structure Sound (chain : Set ChainBlock) : Prop where
  nonneg : ∀ b ∈ chain, 0 ≤ b.number
  unique : ∀ b ∈ chain, ∀ b' ∈ chain, b.number = b'.number → b = b'
  txNumber : ∀ b ∈ chain, ∀ txData ∈ b.raw.arrayField "transactions",
    intField "blockNumber" txData = b.number
  indexed : ∀ b ∈ chain, ∀ txData log, b.Has txData log → isAnchoringLog log = true →
    ∃ v, log.get "logIndex" = some v ∧ 0 ≤ parseIntAny v
  distinct : ∀ b ∈ chain, ∀ txData log txData' log', b.Has txData log → b.Has txData' log' →
    isAnchoringLog log = true → isAnchoringLog log' = true →
    intField "logIndex" log = intField "logIndex" log' →
    txData.text "hash" "" = txData'.text "hash" "" ∧ log = log'

/-- A row of the chain. -/
def ChainRow [Codec] (chain : Set ChainBlock) (k : LogKey) (row : AnchoringRow) : Prop :=
  ∃ b ∈ chain, ∃ txData log, b.Has txData log ∧ b.row txData log = some (k, row)

theorem ChainBlock.row_eq_some [Codec] {b : ChainBlock} {txData log : Json} {k : LogKey}
    {row : AnchoringRow} (h : b.row txData log = some (k, row)) :
    isAnchoringLog log = true ∧ k = (intField "blockNumber" txData, intField "logIndex" log) := by
  obtain ⟨e, he, heq⟩ := Option.map_eq_some_iff.mp h
  obtain ⟨rfl, -⟩ := Prod.mk.inj heq
  obtain ⟨hnumber, hindex⟩ := logAnchoring_eq he
  have hlog : isAnchoringLog log = true := by
    by_contra hnot
    rw [logAnchoring, if_neg hnot] at he
    cases he
  refine ⟨hlog, ?_⟩
  rw [anchoringKey, hnumber, hindex]
  rfl

theorem Sound.row_unique [Codec] {chain : Set ChainBlock} (h : Sound chain) {k : LogKey}
    {row row' : AnchoringRow} (hr : ChainRow chain k row) (hr' : ChainRow chain k row') :
    row = row' := by
  obtain ⟨b, hb, txData, log, hhas, hrow⟩ := hr
  obtain ⟨b', hb', txData', log', hhas', hrow'⟩ := hr'
  obtain ⟨hlog, hk⟩ := b.row_eq_some hrow
  obtain ⟨hlog', hk'⟩ := b'.row_eq_some hrow'
  rw [hk] at hk'
  have hnumber : b.number = b'.number := by
    rw [← h.txNumber b hb txData hhas.tx, ← h.txNumber b' hb' txData' hhas'.tx]
    exact congrArg Prod.fst hk'
  obtain rfl := h.unique b hb b' hb' hnumber
  obtain ⟨hhash, rfl⟩ := h.distinct b hb txData log txData' log' hhas hhas' hlog hlog'
    (congrArg Prod.snd hk')
  -- The row reads of its transaction only the hash, the number and the block's timestamp.
  have hsame : b.row txData log = b.row txData' log := by
    have hn := (h.txNumber b hb txData hhas.tx).trans (h.txNumber b hb txData' hhas'.tx).symm
    unfold ChainBlock.row logAnchoring parseTransaction
    simp only [hhash, hn]
  rw [hsame, hrow'] at hrow
  exact (congrArg Prod.snd (Option.some.inj hrow)).symm

/-! ## The block path -/

/-- Where every log of the contract has an index, the counter is not needed. -/
theorem logAnchorings_stated [Codec] (tx : Transaction) (next : ℕ) (logs : List Json)
    (h : ∀ log ∈ logs, isAnchoringLog log = true →
      ∃ v, log.get "logIndex" = some v ∧ 0 ≤ parseIntAny v) :
    logAnchorings tx next logs =
      logs.filterMap fun log => logAnchoring tx log (intField "logIndex" log) := by
  induction logs generalizing next with
  | nil => rfl
  | cons log logs ih =>
    have hhead : logAnchoring tx log (logIndexOf next log) =
        logAnchoring tx log (intField "logIndex" log) := by
      by_cases hlog : isAnchoringLog log = true
      · obtain ⟨v, hv, hpos⟩ := h log List.mem_cons_self hlog
        rw [logIndexOf_of_nonneg hv hpos, intField, hv, Option.map_some, Option.getD_some]
      · rw [logAnchoring, logAnchoring, if_neg hlog, if_neg hlog]
    rw [logAnchorings_cons, hhead, ih _ fun l hl => h l (List.mem_cons_of_mem _ hl),
      List.filterMap_cons]
    cases logAnchoring tx log (intField "logIndex" log) <;> rfl

/-- The anchoring writes of one transaction object. -/
def txAnchoring [Codec] (block : Block) (receipts : Option Json) (txData : Json) :
    List AnchoringEvent :=
  (txLogs receipts txData).filterMap fun log =>
    logAnchoring (parseTransaction txData block) log (intField "logIndex" log)

theorem assembleTx_anchoring [Keccak] [Codec] {block : Block} {receipts : Option Json}
    {s s' : Assembly} {txData : Json} (hrun : assembleTx block receipts s txData = some s')
    (h : ∀ log ∈ txLogs receipts txData, isAnchoringLog log = true →
      ∃ v, log.get "logIndex" = some v ∧ 0 ≤ parseIntAny v) :
    s'.anchoring = s.anchoring ++ txAnchoring block receipts txData := by
  unfold txAnchoring
  unfold txLogs at h ⊢
  unfold assembleTx at hrun
  simp only at hrun h ⊢
  by_cases hempty : (txData.text "hash" "").isEmpty
  · rw [if_pos hempty] at hrun
    obtain rfl := Option.some.inj hrun
    rw [if_pos hempty, List.filterMap_nil, List.append_nil]
  · rw [if_neg hempty] at h hrun ⊢
    obtain ⟨done, hdone, rfl⟩ := Option.map_eq_some_iff.mp hrun
    cases hr : receiptByHash receipts (txData.text "hash" "") with
    | none =>
      rw [hr] at hdone
      obtain rfl := Option.some.inj hdone
      rw [Option.elim_none, List.filterMap_nil, List.append_nil]
    | some receipt =>
      rw [hr] at hdone
      rw [hr, Option.elim_some] at h
      rw [Option.elim_some, applyReceipt_of_some hdone]
      simp only
      rw [logAnchorings_stated _ _ _ h]
      rfl

/-- **The anchoring writes a block brings**, where every log of the contract has an index. -/
theorem assembleBundle_anchoring [Keccak] [Codec] {rawBlock : Json} {receipts : Option Json}
    {bundle : BlockBundle} (hbundle : assembleBundle rawBlock receipts = some bundle)
    (h : ∀ txData ∈ rawBlock.arrayField "transactions", ∀ log ∈ txLogs receipts txData,
      isAnchoringLog log = true → ∃ v, log.get "logIndex" = some v ∧ 0 ≤ parseIntAny v) :
    bundle.anchoring =
      (rawBlock.arrayField "transactions").flatMap (txAnchoring (parseBlock rawBlock) receipts) := by
  obtain ⟨done, hdone, rfl⟩ := Option.map_eq_some_iff.mp hbundle
  have hfold : ∀ (l : List Json) (s s' : Assembly),
      l.foldlM (assembleTx (parseBlock rawBlock) receipts) s = some s' →
      (∀ txData ∈ l, ∀ log ∈ txLogs receipts txData, isAnchoringLog log = true →
        ∃ v, log.get "logIndex" = some v ∧ 0 ≤ parseIntAny v) →
      s'.anchoring = s.anchoring ++ l.flatMap (txAnchoring (parseBlock rawBlock) receipts) := by
    intro l
    induction l with
    | nil =>
      intro s s' hrun _
      obtain rfl := Option.some.inj hrun
      rw [List.flatMap_nil, List.append_nil]
    | cons txData l ih =>
      intro s s' hrun hl
      rw [List.foldlM_cons] at hrun
      obtain ⟨mid, hmid, hrun⟩ := Option.bind_eq_some_iff.mp hrun
      rw [ih mid s' hrun fun t ht => hl t (List.mem_cons_of_mem _ ht),
        assembleTx_anchoring hmid (hl txData List.mem_cons_self), List.flatMap_cons,
        List.append_assoc]
  exact hfold _ ⟨[], [], [], 0⟩ done hdone h

theorem mem_assembleBundle_anchoring [Keccak] [Codec] {chain : Set ChainBlock} (hs : Sound chain)
    {b : ChainBlock} (hb : b ∈ chain) {bundle : BlockBundle}
    (hbundle : assembleBundle b.raw b.receipts = some bundle) (k : LogKey) (row : AnchoringRow) :
    (∃ e ∈ bundle.anchoring, anchoringKey e = k ∧ anchoringRow e = row) ↔
      ∃ txData log, b.Has txData log ∧ b.row txData log = some (k, row) := by
  rw [assembleBundle_anchoring hbundle
    fun txData htx log hlog => hs.indexed b hb txData log ⟨htx, hlog⟩]
  constructor
  · rintro ⟨e, he, rfl, rfl⟩
    obtain ⟨txData, htx, he⟩ := List.mem_flatMap.mp he
    obtain ⟨log, hlog, he⟩ := List.mem_filterMap.mp he
    exact ⟨txData, log, ⟨htx, hlog⟩, congrArg (Option.map _) he⟩
  · rintro ⟨txData, log, ⟨htx, hlog⟩, hrow⟩
    obtain ⟨e, he, heq⟩ := Option.map_eq_some_iff.mp hrow
    obtain ⟨rfl, rfl⟩ := Prod.mk.inj heq
    exact ⟨e, List.mem_flatMap.mpr ⟨txData, htx, List.mem_filterMap.mpr ⟨log, hlog, he⟩⟩, rfl, rfl⟩

/-! ## One row by either path -/

/-- **A log of its own**: the node reports, under the number of its block and the hash of its
transaction, a log of the contract that is in the receipts. -/
structure Reports (b : ChainBlock) (txData log answer : Json) : Prop where
  has : b.Has txData log
  anchoring : isAnchoringLog log = true
  topics : answer.get "topics" = log.get "topics"
  data : answer.get "data" = log.get "data"
  logIndex : answer.get "logIndex" = log.get "logIndex"
  blockNumber : (answer.get "blockNumber").map parseIntAny = some b.number
  transactionHash : ∃ text, (answer.get "transactionHash").bind Json.asStr = some text ∧
    hexBlob text = hexBlob (txData.text "hash" "")

theorem decodeEvent_congr [Codec] {log answer : Json}
    (htopics : answer.get "topics" = log.get "topics") (hdata : answer.get "data" = log.get "data") :
    decodeEvent answer = (decodeEvent log).map fun event => event.map fun d =>
      { d with
        contract := answer.text "address" ""
        logIndex := (answer.get "logIndex").bind Json.asStr
        transactionHash := (answer.get "transactionHash").bind Json.asStr } := by
  have hd : answer.text "data" "0x" = log.text "data" "0x" := by rw [Json.text, Json.text, hdata]
  unfold decodeEvent
  rw [htopics, hd]
  cases (log.get "topics").bind Json.asArray with
  | none => rfl
  | some topics =>
    cases topics with
    | nil => rfl
    | cons first rest =>
      simp only [Option.map_map]
      rfl

theorem anchoringEvent_row (decoded : DecodedEvent) {text hash : String}
    (h : hexBlob text = hexBlob hash) (number logIndex timestamp : ℤ) :
    (anchoringEvent decoded text number logIndex timestamp).map
        (fun e => (anchoringKey e, anchoringRow e)) =
      (anchoringEvent decoded hash number logIndex timestamp).map
        fun e => (anchoringKey e, anchoringRow e) := by
  unfold anchoringEvent
  cases decoded.name with
  | none => rfl
  | some event =>
    cases (decoded.param "registryId").bind parseI64 with
    | none => rfl
    | some registryId =>
      simp [anchoringKey, anchoringRow, h]

/-- **The row of a log is the same by either path**, once its block is stored. -/
theorem anchoringEventFromLog_row [Codec] {chain : Set ChainBlock} (hs : Sound chain)
    {b : ChainBlock} (hb : b ∈ chain) {txData log answer : Json} (h : Reports b txData log answer)
    {db : Database} (hdb : db.blocks.lookup b.number = some (blockRow b.block))
    {event : Option AnchoringEvent} (hevent : anchoringEventFromLog db answer = some event) :
    event.map (fun e => (anchoringKey e, anchoringRow e)) = b.row txData log := by
  obtain ⟨v, hv, -⟩ := hs.indexed b hb txData log h.has h.anchoring
  obtain ⟨text, htext, hhash⟩ := h.transactionHash
  have hindex : intField "logIndex" log = parseIntAny v := by
    rw [intField, hv, Option.map_some, Option.getD_some]
  have htime : db.getBlockTimestamp b.number = some b.block.timestamp := by
    rw [Database.getBlockTimestamp, hdb, Option.map_some]
    rfl
  have hnumber : (parseTransaction txData b.block).blockNumber = b.number :=
    hs.txNumber b hb txData h.has.tx
  unfold anchoringEventFromLog at hevent
  rw [h.blockNumber, Option.bind_some, htime, Option.map_some,
    decodeEvent_congr h.topics h.data] at hevent
  simp only [Option.map_map] at hevent
  obtain ⟨decoded, hdecoded, rfl⟩ := Option.map_eq_some_iff.mp hevent
  unfold ChainBlock.row logAnchoring
  rw [if_pos h.anchoring, hindex, hnumber, logEvent, hdecoded, Option.join_some]
  cases decoded with
  | none => rfl
  | some decoded =>
    simp only [Function.comp_apply, Option.map_some, Option.bind_some, htext, h.logIndex, hv]
    exact anchoringEvent_row decoded hhash b.number (parseIntAny v) b.block.timestamp

theorem anchoringEventFromLog_absent [Codec] {b : ChainBlock} {txData log answer : Json}
    (h : Reports b txData log answer) {db : Database} (hdb : b.number ∉ db.blocks) :
    anchoringEventFromLog db answer = some none := by
  rw [anchoringEventFromLog, h.blockNumber, Option.bind_some, Database.getBlockTimestamp,
    AList.lookup_eq_none.mpr hdb]
  rfl

end ChainExplorer
