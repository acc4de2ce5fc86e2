import ChainExplorer.Indexer.Assemble

/-!
# What the logs of a block are indexed to

One statement for a log, one for the logs of a receipt; what follows cites these and unfolds no
indexing.

* `Decodable`, `logPanics`: a log that can be decoded, and one that cannot be indexed.
* `logTransfer`, `logAnchoring`, `logFee`: what one log adds, and what it tells of the fee.
* `logIndexes`: the index each log is given, from the running counter on.
* **`indexLog_eq`**, **`foldlM_applyLog_eq`**: the logs, one by one and together.
-/

namespace ChainExplorer

open Text

/-! ## One log -/

/-- A log under the topic of a transfer. -/
def isTransferLog [Keccak] (log : Json) : Bool :=
  eqIgnoreAsciiCase (firstTopic log).toList transferTopic.toList

/-- A log of the anchoring contract. -/
def isAnchoringLog (log : Json) : Bool :=
  eqIgnoreAsciiCase (log.text "address" "").toList anchoringAddress.toList

theorem firstTopic_of_cons {log first : Json} {rest : List Json}
    (h : (log.get "topics").bind Json.asArray = some (first :: rest)) :
    firstTopic log = first.asStr.getD "" := by
  obtain ⟨t, ht, harr⟩ := Option.bind_eq_some_iff.mp h
  rw [firstTopic, ht, Option.bind_some, harr]
  rfl

/-- **A log that can be decoded**: one without topics or under a known one, or one whose data is at
most 200 bytes or has a character start after 200. -/
def Decodable [Codec] (log : Json) : Prop :=
  ((log.get "topics").bind Json.asArray).getD [] = [] ∨ (registryEvent (firstTopic log)).isSome ∨
    Utf8.byteLength (log.text "data" "0x").toList ≤ 200 ∨
      ∃ cut rest, (log.text "data" "0x").toList = cut ++ rest ∧ Utf8.byteLength cut = 200

theorem rawData_isSome_iff {data : String} : (rawData data).isSome ↔
    Utf8.byteLength data.toList ≤ 200 ∨
      ∃ cut rest, data.toList = cut ++ rest ∧ Utf8.byteLength cut = 200 := by
  unfold rawData
  split_ifs with hlong
  · rw [Option.isSome_map, Option.isSome_iff_exists, or_iff_right (not_le.mpr hlong), Prod.exists]
    exact exists₂_congr fun cut rest => Utf8.splitBytes_eq_some_iff
  · exact iff_of_true rfl (.inl (not_lt.mp hlong))

theorem decodeEvent_isSome_iff [Codec] {log : Json} : (decodeEvent log).isSome ↔ Decodable log := by
  unfold decodeEvent Decodable
  split
  · next htopics => exact iff_of_true rfl (.inl (by rw [htopics]; rfl))
  · next htopics => exact iff_of_true rfl (.inl (by rw [htopics]; rfl))
  · next first rest htopics =>
    have htopic := firstTopic_of_cons htopics
    rw [htopics, Option.getD_some, or_iff_right (List.cons_ne_nil first rest), htopic,
      ← rawData_isSome_iff, Option.isSome_map]
    cases registryEvent (first.asStr.getD "") with
    | none => rw [Option.isSome_map, or_iff_right (by simp)]
    | some event => exact iff_of_true rfl (.inl rfl)

/-- A log whose indexing panics: it is decoded, and its data cannot be cut. -/
def logPanics [Keccak] [Codec] (log : Json) : Bool :=
  (isTransferLog log || isAnchoringLog log) && (decodeEvent log).isNone

/-- The event a log is, where it can be decoded. -/
def logEvent [Codec] (log : Json) : Option DecodedEvent := (decodeEvent log).join

theorem logPanics_eq_false_iff [Keccak] [Codec] {log : Json} : logPanics log = false ↔
    (isTransferLog log = true ∨ isAnchoringLog log = true → Decodable log) := by
  rw [← decodeEvent_isSome_iff, logPanics, Bool.and_eq_false_imp, Bool.or_eq_true,
    Option.isNone_eq_false_iff]

/-- What a log moves. -/
structure LogTransfer where
  token : String
  src : String
  dst : String
  amount : String
deriving DecidableEq, Repr

/-- The transfer a log is, if it carries all of one. -/
def logTransfer [Keccak] [Codec] (log : Json) : Option LogTransfer :=
  if isTransferLog log then
    (logEvent log).bind fun decoded =>
      let src := (decoded.param "from").getD ""
      let dst := (decoded.param "to").getD ""
      let amount := (decoded.param "amount").getD ""
      if src.isEmpty ∨ dst.isEmpty ∨ amount.isEmpty then none
      else some ⟨checksumAddress (log.text "address" ""), src, dst, amount⟩
  else none

/-- The row of a transfer, in a transaction. -/
def LogTransfer.event (m : LogTransfer) (tx : Transaction) (logIndex : ℤ) : TransferEvent where
  txHash := tx.hash
  blockNumber := tx.blockNumber
  logIndex := logIndex
  tokenAddr := m.token
  fromAddr := m.src
  toAddr := m.dst
  amount := m.amount
  timestamp := tx.timestamp

/-- The anchoring write a log is. -/
def logAnchoring [Codec] (tx : Transaction) (log : Json) (logIndex : ℤ) : Option AnchoringEvent :=
  if isAnchoringLog log then
    (logEvent log).bind fun decoded =>
      anchoringEvent decoded tx.hash tx.blockNumber logIndex tx.timestamp
  else none

/-- The transaction after a log, which may tell what it was charged. -/
def logFee [Keccak] [Codec] (tx : Transaction) (log : Json) : Transaction :=
  if isTransferLog log then
    (logEvent log).elim tx fun decoded =>
      deriveFeeFromTransfer tx log ((decoded.param "to").getD "") ((decoded.param "amount").getD "")
  else tx

theorem logFee_frame [Keccak] [Codec] (tx : Transaction) (log : Json) :
    logFee tx log = { tx with feeAmount := (logFee tx log).feeAmount } := by
  unfold logFee
  split_ifs
  · cases logEvent log with
    | none => rfl
    | some decoded => exact deriveFeeFromTransfer_frame tx log _ _
  · rfl

theorem indexTransfer_eq [Keccak] [Codec] {log : Json} {decoded : DecodedEvent}
    (ht : isTransferLog log = true)
    (hd : logEvent log = some decoded) (logIndex : ℤ) (s : Indexing) :
    indexTransfer decoded log logIndex s =
      { s with
        tx := logFee s.tx log
        transfers := s.transfers ++
          ((logTransfer log).map fun m => m.event s.tx logIndex).toList } := by
  have hfee : logFee s.tx log = deriveFeeFromTransfer s.tx log ((decoded.param "to").getD "")
      ((decoded.param "amount").getD "") := by
    rw [logFee, if_pos ht, hd, Option.elim_some]
  unfold indexTransfer logTransfer
  rw [if_pos ht, hd, Option.bind_some]
  simp only [← hfee]
  split_ifs
  · simp
  · rw [logFee_frame, Option.map_some, Option.toList_some, LogTransfer.event]

/-- What one log adds, whatever it is. -/
def indexed [Keccak] [Codec] (s : Indexing) (log : Json) (logIndex : ℤ) : Indexing where
  tx := logFee s.tx log
  transfers := s.transfers ++ ((logTransfer log).map fun m => m.event s.tx logIndex).toList
  anchoring := s.anchoring ++ (logAnchoring s.tx log logIndex).toList
  nextLogIndex := s.nextLogIndex

theorem indexed_of_neither [Keccak] [Codec] {log : Json} (ht : isTransferLog log = false)
    (ha : isAnchoringLog log = false) (s : Indexing) (logIndex : ℤ) : indexed s log logIndex = s := by
  simp [indexed, logFee, logTransfer, logAnchoring, ht, ha]

theorem indexed_of_none [Keccak] [Codec] {log : Json} (hd : logEvent log = none) (s : Indexing)
    (logIndex : ℤ) : indexed s log logIndex = s := by
  simp [indexed, logFee, logTransfer, logAnchoring, hd]

theorem indexed_of_some [Keccak] [Codec] {log : Json} {decoded : DecodedEvent}
    (hd : logEvent log = some decoded) (s : Indexing) (logIndex : ℤ) :
    indexed s log logIndex =
      let anchored := if isAnchoringLog log then
          (anchoringEvent decoded s.tx.hash s.tx.blockNumber logIndex s.tx.timestamp).toList
        else []
      let s := { s with anchoring := s.anchoring ++ anchored }
      if isTransferLog log then indexTransfer decoded log logIndex s else s := by
  have hanchored : (logAnchoring s.tx log logIndex).toList = if isAnchoringLog log then
      (anchoringEvent decoded s.tx.hash s.tx.blockNumber logIndex s.tx.timestamp).toList
    else [] := by
    rw [logAnchoring, hd, Option.bind_some, apply_ite Option.toList]
    rfl
  simp only [← hanchored]
  cases ht : isTransferLog log with
  | true =>
    rw [if_pos rfl, indexTransfer_eq ht hd]
    rfl
  | false =>
    have hnone : logTransfer log = none := by rw [logTransfer, ht, if_neg Bool.false_ne_true]
    have hfee : logFee s.tx log = s.tx := by rw [logFee, ht, if_neg Bool.false_ne_true]
    rw [indexed, hnone, hfee, Option.map_none, Option.toList_none, List.append_nil]
    rfl

/-- **One log**, whatever it is. -/
theorem indexLog_eq [Keccak] [Codec] (log : Json) (logIndex : ℤ) (s : Indexing) :
    indexLog log logIndex s = if logPanics log then none else some (indexed s log logIndex) := by
  have hdef : indexLog log logIndex s =
      if !isTransferLog log && !isAnchoringLog log then some s
      else (decodeEvent log).map fun event => event.elim s fun decoded =>
        let anchored := if isAnchoringLog log then
            (anchoringEvent decoded s.tx.hash s.tx.blockNumber logIndex s.tx.timestamp).toList
          else []
        let s := { s with anchoring := s.anchoring ++ anchored }
        if isTransferLog log then indexTransfer decoded log logIndex s else s := by
    unfold indexLog
    cases decodeEvent log with
    | none => rfl
    | some event => cases event <;> rfl
  rw [hdef]
  by_cases hneither : (!isTransferLog log && !isAnchoringLog log) = true
  · rw [if_pos hneither]
    rw [Bool.and_eq_true, Bool.not_eq_true', Bool.not_eq_true'] at hneither
    have hcalm : logPanics log = false := by simp [logPanics, hneither]
    rw [hcalm, if_neg Bool.false_ne_true, indexed_of_neither hneither.1 hneither.2]
  · rw [if_neg hneither]
    have hdecoded : (isTransferLog log || isAnchoringLog log) = true := by
      rwa [← Bool.not_or, Bool.not_eq_true', Bool.not_eq_false] at hneither
    cases hd : decodeEvent log with
    | none =>
      have hpanics : logPanics log = true := by simp [logPanics, hdecoded, hd]
      rw [if_pos hpanics, Option.map_none]
    | some event =>
      have hcalm : logPanics log = false := by simp [logPanics, hd]
      rw [hcalm, if_neg Bool.false_ne_true, Option.map_some]
      cases event with
      | none => rw [Option.elim_none, indexed_of_none (by rw [logEvent, hd]; rfl)]
      | some decoded => rw [Option.elim_some, indexed_of_some (by rw [logEvent, hd]; rfl)]

/-! ## The logs of a receipt -/

/-- The counter after a log. -/
def nextIndex (next : ℕ) (log : Json) : ℕ := max next (wrapU64 (logIndexOf next log) + 1)

/-- The index each log is given, from the counter on. -/
def logIndexes (next : ℕ) : List Json → List ℤ
  | [] => []
  | log :: logs => logIndexOf next log :: logIndexes (nextIndex next log) logs

theorem length_logIndexes (next : ℕ) (logs : List Json) :
    (logIndexes next logs).length = logs.length := by
  induction logs generalizing next with
  | nil => rfl
  | cons log logs ih => rw [logIndexes, List.length_cons, ih, List.length_cons]

theorem logIndexes_append (next : ℕ) (l l' : List Json) :
    logIndexes next (l ++ l') = logIndexes next l ++ logIndexes (l.foldl nextIndex next) l' := by
  induction l generalizing next with
  | nil => rfl
  | cons log l ih => rw [List.cons_append, logIndexes, ih, logIndexes, List.cons_append, List.foldl_cons]

/-- The transfers of some logs, each with its index. -/
def logTransfers [Keccak] [Codec] (tx : Transaction) (next : ℕ) (logs : List Json) :
    List TransferEvent :=
  (logs.zip (logIndexes next logs)).filterMap fun p => (logTransfer p.1).map fun m => m.event tx p.2

/-- The anchoring writes of some logs, each with its index. -/
def logAnchorings [Codec] (tx : Transaction) (next : ℕ) (logs : List Json) : List AnchoringEvent :=
  (logs.zip (logIndexes next logs)).filterMap fun p => logAnchoring tx p.1 p.2

theorem logTransfers_cons [Keccak] [Codec] (tx : Transaction) (next : ℕ) (log : Json)
    (logs : List Json) :
    logTransfers tx next (log :: logs) =
      ((logTransfer log).map fun m => m.event tx (logIndexOf next log)).toList ++
        logTransfers tx (nextIndex next log) logs := by
  unfold logTransfers
  rw [logIndexes, List.zip_cons_cons, List.filterMap_cons]
  cases logTransfer log <;> rfl

theorem logAnchorings_cons [Codec] (tx : Transaction) (next : ℕ) (log : Json) (logs : List Json) :
    logAnchorings tx next (log :: logs) =
      (logAnchoring tx log (logIndexOf next log)).toList ++
        logAnchorings tx (nextIndex next log) logs := by
  unfold logAnchorings
  rw [logIndexes, List.zip_cons_cons, List.filterMap_cons]
  cases logAnchoring tx log (logIndexOf next log) <;> rfl

theorem logTransfers_fee [Keccak] [Codec] (tx : Transaction) (fee : String) (next : ℕ)
    (logs : List Json) :
    logTransfers { tx with feeAmount := fee } next logs = logTransfers tx next logs := rfl

theorem logAnchorings_fee [Codec] (tx : Transaction) (fee : String) (next : ℕ) (logs : List Json) :
    logAnchorings { tx with feeAmount := fee } next logs = logAnchorings tx next logs := rfl

/-- What has been indexed after a log that does not panic. -/
def applied [Keccak] [Codec] (s : Indexing) (log : Json) : Indexing :=
  indexed { s with nextLogIndex := nextIndex s.nextLogIndex log } log (logIndexOf s.nextLogIndex log)

theorem foldl_applied [Keccak] [Codec] (logs : List Json) (s : Indexing) :
    logs.foldl applied s =
      { tx := logs.foldl logFee s.tx
        transfers := s.transfers ++ logTransfers s.tx s.nextLogIndex logs
        anchoring := s.anchoring ++ logAnchorings s.tx s.nextLogIndex logs
        nextLogIndex := logs.foldl nextIndex s.nextLogIndex } := by
  induction logs generalizing s with
  | nil =>
    show s = _
    simp [logTransfers, logAnchorings]
  | cons log logs ih =>
    have htransfers := logTransfers_fee s.tx (logFee s.tx log).feeAmount
      (nextIndex s.nextLogIndex log) logs
    have hanchoring := logAnchorings_fee s.tx (logFee s.tx log).feeAmount
      (nextIndex s.nextLogIndex log) logs
    rw [← logFee_frame] at htransfers hanchoring
    rw [List.foldl_cons, ih]
    simp only [applied, indexed, htransfers, hanchoring, logTransfers_cons, logAnchorings_cons,
      List.append_assoc, List.foldl_cons]

/-- **The logs of a receipt**, in order. -/
theorem foldlM_applyLog_eq [Keccak] [Codec] (logs : List Json) (s : Indexing) :
    logs.foldlM applyLog s =
      if logs.any logPanics then none
      else some {
        tx := logs.foldl logFee s.tx
        transfers := s.transfers ++ logTransfers s.tx s.nextLogIndex logs
        anchoring := s.anchoring ++ logAnchorings s.tx s.nextLogIndex logs
        nextLogIndex := logs.foldl nextIndex s.nextLogIndex } := by
  have hstep : ∀ (s : Indexing) (log : Json),
      applyLog s log = if logPanics log then none else some (applied s log) :=
    fun s log => indexLog_eq log _ _
  rw [Fallible.foldlM_eq_of_guard hstep, foldl_applied]

theorem applyReceipt_eq [Keccak] [Codec] (receipt : Json) (s : Indexing) :
    applyReceipt receipt s =
      if (receipt.arrayField "logs").any logPanics then none
      else some {
        tx := (receipt.arrayField "logs").foldl logFee (applyReceiptFields s.tx receipt)
        transfers := s.transfers ++ logTransfers s.tx s.nextLogIndex (receipt.arrayField "logs")
        anchoring := s.anchoring ++ logAnchorings s.tx s.nextLogIndex (receipt.arrayField "logs")
        nextLogIndex := (receipt.arrayField "logs").foldl nextIndex s.nextLogIndex } :=
  foldlM_applyLog_eq _ _

theorem applyReceipt_of_some [Keccak] [Codec] {receipt : Json} {s s' : Indexing}
    (h : applyReceipt receipt s = some s') :
    s' = {
      tx := (receipt.arrayField "logs").foldl logFee (applyReceiptFields s.tx receipt)
      transfers := s.transfers ++ logTransfers s.tx s.nextLogIndex (receipt.arrayField "logs")
      anchoring := s.anchoring ++ logAnchorings s.tx s.nextLogIndex (receipt.arrayField "logs")
      nextLogIndex := (receipt.arrayField "logs").foldl nextIndex s.nextLogIndex } := by
  rw [applyReceipt_eq] at h
  split_ifs at h
  exact (Option.some.inj h).symm

end ChainExplorer
