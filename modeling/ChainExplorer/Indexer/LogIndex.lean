import ChainExplorer.Indexer.Logs
import ChainExplorer.Db.Effects

/-!
# Log indexes of a block

The index a node gives a log is the half of a row's key that is unique in a block, and a log without
one takes the next. What the node sends is read as 0 where it is no number.

* `Positioned logs`: every index the node spells out is the log's position.
* `Legible logs`: no log after the first has an index that is read as 0.
* **`logIndexes_nodup_iff`**: the indexes are distinct exactly where the logs are legible.
* **`assembleBundle_stored`**: a legible block loses no row when it is saved.
-/

namespace ChainExplorer

open Text

/-! ## What a node spells out -/

/-- The integer a value spells, of any size. -/
def spelledInt : Json → Option ℤ
  | .int n => some n
  | .str s =>
    match stripPrefix ['0', 'x'] (trim s.toList) with
    | some hex => (Numeral.natural 16 hex).map Int.ofNat
    | none => Numeral.integer 10 (trim s.toList)
  | _ => none

/-- **Every index that is a non-negative integer is the position of its log.** -/
def Positioned (logs : List Json) : Prop :=
  ∀ (i : ℕ) (log v : Json) (n : ℤ), logs[i]? = some log → log.get "logIndex" = some v →
    spelledInt v = some n → 0 ≤ n → n = i

/-- **No log after the first has an index that is read as 0.** -/
def Legible (logs : List Json) : Prop :=
  ∀ (i : ℕ) (log v : Json), logs[i]? = some log → log.get "logIndex" = some v → 0 < i →
    parseIntAny v ≠ 0

/-- A signed 64-bit integer. -/
def IsI64 (n : ℤ) : Prop := -9223372036854775808 ≤ n ∧ n ≤ 9223372036854775807

theorem wrapI64_isI64 (n : ℤ) : IsI64 (wrapI64 n) := by
  have hlo := Int.le_bmod (x := n) (m := 2 ^ 64) (by norm_num)
  have hhi := Int.bmod_lt (x := n) (m := 2 ^ 64) (by norm_num)
  unfold IsI64 wrapI64
  generalize n.bmod (2 ^ 64) = r at hlo hhi
  norm_num at hlo hhi
  omega

theorem getD_isI64 {o : Option ℤ} (h : ∀ n ∈ o, IsI64 n) : IsI64 (o.getD 0) := by
  cases o with
  | none => exact ⟨by decide, by decide⟩
  | some n => exact h n rfl

theorem getD_filter {α : Type} (o : Option α) (p : α → Prop) [DecidablePred p] (f : α → ℤ) :
    ((o.filter fun a => decide (p a)).map f).getD 0 = o.elim 0 fun a => if p a then f a else 0 := by
  cases o with
  | none => rfl
  | some a =>
    rw [Option.filter_some, Option.elim_some]
    by_cases ha : p a
    · rw [if_pos ha, if_pos (decide_eq_true ha), Option.map_some, Option.getD_some]
    · rw [if_neg ha, if_neg (by simpa using ha), Option.map_none, Option.getD_none]

/-- How a hexadecimal is read: 0 past 64 bits, and negative in the upper half of them. -/
theorem parseIntAny_hex {s : String} {hex : List Char}
    (hp : stripPrefix ['0', 'x'] (trim s.toList) = some hex) :
    parseIntAny (.str s) = (Numeral.natural 16 hex).elim 0 fun n =>
      if n ≤ 18446744073709551615 then wrapI64 n else 0 := by
  have hne : ¬(trim s.toList).isEmpty := by
    intro hempty
    rw [List.isEmpty_iff.mp hempty] at hp
    exact absurd hp nofun
  unfold parseIntAny
  simp only [if_neg hne, hp, Option.bind_eq_bind, Option.pure_def, Option.map_bind, Function.comp_def,
    Option.map_some]
  exact (congrArg (Option.getD · 0) Option.map_eq_bind.symm).trans
    (getD_filter _ _ fun a : ℕ => wrapI64 a)

/-- How a decimal is read: 0 past 64 bits. -/
theorem parseIntAny_decimal {s : String} (hp : stripPrefix ['0', 'x'] (trim s.toList) = none) :
    parseIntAny (.str s) = (Numeral.integer 10 (trim s.toList)).elim 0 fun n =>
      if -9223372036854775808 ≤ n ∧ n ≤ 9223372036854775807 then n else 0 := by
  unfold parseIntAny
  simp only
  by_cases hempty : (trim s.toList).isEmpty
  · rw [if_pos hempty, List.isEmpty_iff.mp hempty]
    rfl
  · have hread := getD_filter (Numeral.integer 10 (trim s.toList))
      (fun n => -9223372036854775808 ≤ n ∧ n ≤ 9223372036854775807) id
    rw [Option.map_id_fun] at hread
    simp only [if_neg hempty, hp, parseI64, Numeral.signed_eq, String.toList_ofList]
    exact hread

theorem parseIntAny_isI64 (v : Json) : IsI64 (parseIntAny v) := by
  have hzero : IsI64 0 := ⟨by decide, by decide⟩
  cases v with
  | int n =>
    refine getD_isI64 fun m hm => ?_
    simp only [Json.asI64, Option.mem_def] at hm
    split_ifs at hm with h
    rw [← Option.some.inj hm]
    exact h
  | str s =>
    cases hp : stripPrefix ['0', 'x'] (trim s.toList) with
    | some hex =>
      rw [parseIntAny_hex hp]
      cases Numeral.natural 16 hex with
      | none => exact hzero
      | some n =>
        rw [Option.elim_some]
        split_ifs
        · exact wrapI64_isI64 n
        · exact hzero
    | none =>
      rw [parseIntAny_decimal hp]
      cases Numeral.integer 10 (trim s.toList) with
      | none => exact hzero
      | some n =>
        rw [Option.elim_some]
        split_ifs with h
        · exact h
        · exact hzero
  | _ => exact hzero

theorem wrapI64_of_ge {n : ℕ} (h : 2 ^ 63 ≤ n) (hmax : n ≤ 18446744073709551615) :
    wrapI64 n < 0 := by
  rw [wrapI64, Int.bmod_def]
  norm_num at h ⊢
  omega

theorem spelledInt_of_parseIntAny {v : Json} (h : 0 < parseIntAny v) :
    spelledInt v = some (parseIntAny v) := by
  cases v with
  | int n =>
    have hread : parseIntAny (.int n) =
        (if -9223372036854775808 ≤ n ∧ n ≤ 9223372036854775807 then some n else none).getD 0 := rfl
    rw [hread] at h ⊢
    by_cases hn : -9223372036854775808 ≤ n ∧ n ≤ 9223372036854775807
    · rw [if_pos hn]
      rfl
    · rw [if_neg hn] at h
      exact absurd h (lt_irrefl 0)
  | str s =>
    cases hp : stripPrefix ['0', 'x'] (trim s.toList) with
    | some hex =>
      have hspelled : spelledInt (.str s) = (Numeral.natural 16 hex).map Int.ofNat := by
        simp only [spelledInt, hp]
      rw [hspelled]
      rw [parseIntAny_hex hp] at h ⊢
      cases hn : Numeral.natural 16 hex with
      | none =>
        rw [hn] at h
        exact absurd h (lt_irrefl 0)
      | some n =>
        rw [hn, Option.elim_some] at h
        rw [Option.map_some, Option.elim_some]
        split_ifs at h ⊢ with hmax
        · have hn63 : n < 2 ^ 63 := by
            by_contra hge
            have hneg := wrapI64_of_ge (not_lt.mp hge) hmax
            omega
          rw [wrapI64_of_lt hn63]
          rfl
        · exact absurd h (lt_irrefl 0)
    | none =>
      have hspelled : spelledInt (.str s) = Numeral.integer 10 (trim s.toList) := by
        simp only [spelledInt, hp]
      rw [hspelled]
      rw [parseIntAny_decimal hp] at h ⊢
      cases hn : Numeral.integer 10 (trim s.toList) with
      | none =>
        rw [hn] at h
        exact absurd h (lt_irrefl 0)
      | some n =>
        rw [hn, Option.elim_some] at h
        rw [Option.elim_some]
        split_ifs at h ⊢
        · rfl
        · exact absurd h (lt_irrefl 0)
  | _ => exact absurd h (lt_irrefl 0)

/-! ## The index of one log -/

theorem logIndexOf_of_none {next : ℕ} {log : Json} (h : log.get "logIndex" = none) :
    logIndexOf next log = wrapI64 next := by
  rw [logIndexOf, h, Option.map_none, Option.filter_none, Option.getD_none]

theorem logIndexOf_of_neg {next : ℕ} {log v : Json} (hv : log.get "logIndex" = some v)
    (h : parseIntAny v < 0) : logIndexOf next log = wrapI64 next := by
  have hneg : ¬0 ≤ parseIntAny v := by omega
  rw [logIndexOf, hv, Option.map_some, Option.filter_some, if_neg (by simpa using hneg),
    Option.getD_none]

theorem logIndexOf_of_nonneg {next : ℕ} {log v : Json} (hv : log.get "logIndex" = some v)
    (h : 0 ≤ parseIntAny v) : logIndexOf next log = parseIntAny v := by
  rw [logIndexOf, hv, Option.map_some, Option.filter_some, if_pos (decide_eq_true h),
    Option.getD_some]

theorem logIndexOf_cases (next : ℕ) (log : Json) :
    logIndexOf next log = wrapI64 next ∨
      ∃ v, log.get "logIndex" = some v ∧ 0 ≤ parseIntAny v ∧ logIndexOf next log = parseIntAny v := by
  cases hv : log.get "logIndex" with
  | none => exact .inl (logIndexOf_of_none hv)
  | some v =>
    by_cases hpos : 0 ≤ parseIntAny v
    · exact .inr ⟨v, rfl, hpos, logIndexOf_of_nonneg hv hpos⟩
    · exact .inl (logIndexOf_of_neg hv (not_le.mp hpos))

theorem logIndexOf_isI64 (next : ℕ) (log : Json) : IsI64 (logIndexOf next log) := by
  rcases logIndexOf_cases next log with h | ⟨v, -, -, h⟩
  · rw [h]
    exact wrapI64_isI64 next
  · rw [h]
    exact parseIntAny_isI64 v

/-! ## Distinct indexes -/

/-- A log that may follow `i` others: it has no index, or a negative one, or `i`. -/
def Numbered (i : ℕ) (log : Json) : Prop :=
  ∀ v, log.get "logIndex" = some v → 0 ≤ parseIntAny v → parseIntAny v = i

/-- Such a log is given the index `i`. -/
theorem logIndexOf_numbered {i : ℕ} {log : Json} (h : Numbered i log) :
    logIndexOf i log = wrapI64 i := by
  rcases logIndexOf_cases i log with hi | ⟨v, hv, hpos, hi⟩
  · exact hi
  · have heq := h v hv hpos
    have hmax := (parseIntAny_isI64 v).2
    have hlt : i < 2 ^ 63 := by omega
    rw [hi, heq, wrapI64_of_lt hlt]

theorem logIndexes_numbered (logs : List Json) (next : ℕ) (hsize : next + logs.length ≤ 2 ^ 64)
    (h : ∀ (i : ℕ) (log : Json), logs[i]? = some log → Numbered (next + i) log) :
    logIndexes next logs = (List.range' next logs.length).map fun i : ℕ => wrapI64 i := by
  induction logs generalizing next with
  | nil => rfl
  | cons log logs ih =>
    have hhead := logIndexOf_numbered (h 0 log rfl)
    rw [Nat.add_zero] at hhead
    rw [List.length_cons] at hsize
    have hnext : nextIndex next log = next + 1 := by
      rw [nextIndex, hhead, wrapU64_wrapI64 (by omega)]
      omega
    have hrest : ∀ (i : ℕ) (l : Json), logs[i]? = some l → Numbered (next + 1 + i) l := by
      intro i l hl
      have hi := h (i + 1) l hl
      rwa [show next + (i + 1) = next + 1 + i by omega] at hi
    rw [logIndexes, hhead, hnext, ih (next + 1) (by omega) hrest, List.length_cons,
      List.range'_succ, List.map_cons]

theorem logIndexOf_first {logs : List Json} (h : Positioned logs) {log : Json}
    (hlog : logs[0]? = some log) : logIndexOf 0 log = 0 := by
  rcases logIndexOf_cases 0 log with hi | ⟨v, hv, hpos, hi⟩
  · rw [hi]
    decide
  · rw [hi]
    rcases hpos.lt_or_eq with hlt | heq
    · exact h 0 log v _ hlog hv (spelledInt_of_parseIntAny hlt) hpos
    · exact heq.symm

theorem Positioned.numbered {logs : List Json} (h : Positioned logs) (hl : Legible logs) {i : ℕ}
    {log : Json} (hlog : logs[i]? = some log) : Numbered i log := by
  intro v hv hpos
  rcases hpos.lt_or_eq with hlt | heq
  · exact h i log v _ hlog hv (spelledInt_of_parseIntAny hlt) hpos
  · rcases Nat.eq_zero_or_pos i with rfl | hi
    · exact heq.symm
    · exact absurd heq.symm (hl i log v hlog hv hi)

theorem logIndexes_getElem? (logs : List Json) (next i : ℕ) (log : Json) (h : logs[i]? = some log) :
    ∃ counter, (logIndexes next logs)[i]? = some (logIndexOf counter log) := by
  induction logs generalizing next i with
  | nil => exact absurd h nofun
  | cons head logs ih =>
    cases i with
    | zero =>
      obtain rfl : head = log := by simpa using h
      exact ⟨next, rfl⟩
    | succ i => exact ih _ i h

theorem length_le_of_nodup {logs : List Json} {next : ℕ} (h : (logIndexes next logs).Nodup) :
    logs.length ≤ 2 ^ 64 := by
  have hsub : (logIndexes next logs).toFinset ⊆
      Finset.Icc (-9223372036854775808 : ℤ) 9223372036854775807 := by
    intro n hn
    obtain ⟨i, hi⟩ := List.mem_iff_getElem?.mp (List.mem_toFinset.mp hn)
    have hlt : i < logs.length := by
      rw [← length_logIndexes next logs]
      exact (List.getElem?_eq_some_iff.mp hi).1
    obtain ⟨counter, hc⟩ := logIndexes_getElem? logs next i _ (List.getElem?_eq_getElem hlt)
    rw [hi] at hc
    rw [Option.some.inj hc]
    exact Finset.mem_Icc.mpr (logIndexOf_isI64 counter _)
  have hcard := Finset.card_le_card hsub
  rw [List.toFinset_card_of_nodup h, length_logIndexes, Int.card_Icc] at hcard
  exact hcard

/-- **The indexes are distinct exactly where the logs are legible**, no more than can be counted. -/
theorem logIndexes_nodup_iff {logs : List Json} (h : Positioned logs) :
    (logIndexes 0 logs).Nodup ↔ Legible logs ∧ logs.length ≤ 2 ^ 64 := by
  constructor
  · intro hnodup
    refine ⟨fun i log v hlog hv hi hzero => ?_, length_le_of_nodup hnodup⟩
    -- A log read as 0 has the index of the first.
    have hlt : i < logs.length := (List.getElem?_eq_some_iff.mp hlog).1
    have hfirst : logs[0]? = some logs[0] := List.getElem?_eq_getElem (by omega)
    obtain ⟨c, hc⟩ := logIndexes_getElem? logs 0 i log hlog
    have hlogi : logIndexOf c log = 0 := (logIndexOf_of_nonneg hv hzero.ge).trans hzero
    have hc0 : (logIndexes 0 logs)[0]? = some 0 := by
      cases logs with
      | nil => exact absurd hlt (Nat.not_lt_zero _)
      | cons head rest =>
        rw [← logIndexOf_first h hfirst]
        rfl
    rw [hlogi] at hc
    have hlen : 0 < (logIndexes 0 logs).length := by
      rw [length_logIndexes]
      omega
    have heq := (List.nodup_iff_getElem?_ne_getElem?.mp hnodup) 0 i hi
      (by rw [length_logIndexes]; exact hlt)
    exact heq (hc0.trans hc.symm)
  · rintro ⟨hlegible, hsize⟩
    rw [logIndexes_numbered logs 0 (by omega) fun i log hlog => by
      rw [Nat.zero_add]
      exact h.numbered hlegible hlog]
    refine List.Nodup.map_on ?_ List.nodup_range'
    intro i hi j hj heq
    have hi := List.mem_range'_1.mp hi
    have hj := List.mem_range'_1.mp hj
    exact wrapI64_injOn (by omega) (by omega) heq

/-! ## The rows of a block -/

/-- The logs of a transaction: those of its receipt. -/
def txLogs (receipts : Option Json) (txData : Json) : List Json :=
  let hash := txData.text "hash" ""
  if hash.isEmpty then []
  else (receiptByHash receipts hash).elim [] (Json.arrayField "logs")

/-- **The logs of a block**, in receipt order. -/
def blockLogs (rawBlock : Json) (receipts : Option Json) : List Json :=
  (rawBlock.arrayField "transactions").flatMap (txLogs receipts)

/-- What has been assembled of a block, of the logs met so far: each row has the index of one of
them, in order, and the block number of a transaction. -/
structure Assembly.Indexed (logs : List Json) (s : Assembly) : Prop where
  transfers : (s.transfers.map TransferEvent.logIndex).Sublist (logIndexes 0 logs)
  anchoring : (s.anchoring.map AnchoringEvent.logIndex).Sublist (logIndexes 0 logs)
  next : s.nextLogIndex = logs.foldl nextIndex 0
  transferNumber : ∀ t ∈ s.transfers, ∃ tx ∈ s.txs, tx.blockNumber = t.blockNumber
  anchoringNumber : ∀ e ∈ s.anchoring, ∃ tx ∈ s.txs, tx.blockNumber = e.blockNumber

theorem mem_logTransfers [Keccak] [Codec] {tx : Transaction} {next : ℕ} {logs : List Json}
    {t : TransferEvent} (h : t ∈ logTransfers tx next logs) : t.blockNumber = tx.blockNumber := by
  obtain ⟨p, -, hp⟩ := List.mem_filterMap.mp h
  obtain ⟨m, -, rfl⟩ := Option.map_eq_some_iff.mp hp
  rfl

theorem logAnchoring_eq [Codec] {tx : Transaction} {log : Json} {logIndex : ℤ} {e : AnchoringEvent}
    (h : logAnchoring tx log logIndex = some e) :
    e.blockNumber = tx.blockNumber ∧ e.logIndex = logIndex := by
  unfold logAnchoring at h
  split_ifs at h
  obtain ⟨decoded, -, h⟩ := Option.bind_eq_some_iff.mp h
  obtain ⟨event, -, h⟩ := Option.bind_eq_some_iff.mp h
  obtain ⟨registryId, -, h⟩ := Option.bind_eq_some_iff.mp h
  rw [← Option.some.inj h]
  exact ⟨rfl, rfl⟩

theorem mem_logAnchorings [Codec] {tx : Transaction} {next : ℕ} {logs : List Json}
    {e : AnchoringEvent} (h : e ∈ logAnchorings tx next logs) : e.blockNumber = tx.blockNumber := by
  obtain ⟨p, -, hp⟩ := List.mem_filterMap.mp h
  exact (logAnchoring_eq hp).1

theorem logTransfers_sublist [Keccak] [Codec] (tx : Transaction) (next : ℕ) (logs : List Json) :
    ((logTransfers tx next logs).map TransferEvent.logIndex).Sublist (logIndexes next logs) := by
  induction logs generalizing next with
  | nil => exact .slnil
  | cons log logs ih =>
    rw [logTransfers_cons, logIndexes, List.map_append]
    cases logTransfer log with
    | none => exact (ih _).cons _
    | some m => exact (ih _).cons_cons _

theorem logAnchorings_sublist [Codec] (tx : Transaction) (next : ℕ) (logs : List Json) :
    ((logAnchorings tx next logs).map AnchoringEvent.logIndex).Sublist (logIndexes next logs) := by
  induction logs generalizing next with
  | nil => exact .slnil
  | cons log logs ih =>
    rw [logAnchorings_cons, logIndexes, List.map_append]
    cases he : logAnchoring tx log (logIndexOf next log) with
    | none => exact (ih _).cons _
    | some e =>
      have hindex := (logAnchoring_eq he).2
      simp only [Option.toList_some, List.map_cons, List.map_nil, List.singleton_append, hindex]
      exact (ih _).cons_cons _

theorem assembleTx_indexed [Keccak] [Codec] (block : Block) (receipts : Option Json)
    {logs : List Json} {s s' : Assembly} (h : s.Indexed logs) {txData : Json}
    (hrun : assembleTx block receipts s txData = some s') :
    s'.Indexed (logs ++ txLogs receipts txData) := by
  unfold assembleTx at hrun
  unfold txLogs
  simp only at hrun ⊢
  by_cases hempty : (txData.text "hash" "").isEmpty
  · rw [if_pos hempty] at hrun
    obtain rfl := Option.some.inj hrun
    rw [if_pos hempty, List.append_nil]
    exact h
  rw [if_neg hempty] at hrun ⊢
  set tx : Transaction := { parseTransaction txData block with
    raw := (Codec.encodeSigned txData).map blobHex }
  have hold : ∀ {n : ℤ} (tx' : Transaction), (∃ t ∈ s.txs, t.blockNumber = n) →
      ∃ t ∈ s.txs ++ [tx'], t.blockNumber = n := by
    rintro n tx' ⟨t, ht, rfl⟩
    exact ⟨t, List.mem_append_left _ ht, rfl⟩
  obtain ⟨done, hdone, rfl⟩ := Option.map_eq_some_iff.mp hrun
  cases hr : receiptByHash receipts (txData.text "hash" "") with
  | none =>
    rw [hr] at hdone
    obtain rfl := Option.some.inj hdone
    rw [Option.elim_none, List.append_nil]
    exact ⟨h.transfers, h.anchoring, h.next, fun t ht => hold _ (h.transferNumber t ht),
      fun e he => hold _ (h.anchoringNumber e he)⟩
  | some receipt =>
    rw [hr] at hdone
    rw [Option.elim_some, applyReceipt_of_some hdone]
    set new := receipt.arrayField "logs"
    have hnumber : ((new.foldl logFee (applyReceiptFields tx receipt))).blockNumber =
        tx.blockNumber := by
      have hfold : ∀ (l : List Json) (tx : Transaction),
          (l.foldl logFee tx).blockNumber = tx.blockNumber := by
        intro l
        induction l with
        | nil =>
          intro tx
          rfl
        | cons log l ih =>
          intro tx
          rw [List.foldl_cons, ih, logFee_frame]
      exact hfold new _
    refine ⟨?_, ?_, ?_, fun t ht => ?_, fun e he => ?_⟩
    · rw [List.map_append, logIndexes_append, ← h.next]
      exact h.transfers.append (logTransfers_sublist tx _ _)
    · rw [List.map_append, logIndexes_append, ← h.next]
      exact h.anchoring.append (logAnchorings_sublist tx _ _)
    · rw [List.foldl_append, ← h.next]
    · rcases List.mem_append.mp ht with ht | ht
      · exact hold _ (h.transferNumber t ht)
      · exact ⟨_, List.mem_append_right _ (List.mem_singleton.mpr rfl),
          hnumber.trans (mem_logTransfers ht).symm⟩
    · rcases List.mem_append.mp he with he | he
      · exact hold _ (h.anchoringNumber e he)
      · exact ⟨_, List.mem_append_right _ (List.mem_singleton.mpr rfl),
          hnumber.trans (mem_logAnchorings he).symm⟩

theorem assembleBundle_indexed [Keccak] [Codec] {rawBlock : Json} {receipts : Option Json}
    {bundle : BlockBundle} (h : assembleBundle rawBlock receipts = some bundle) :
    (bundle.transfers.map TransferEvent.logIndex).Sublist
        (logIndexes 0 (blockLogs rawBlock receipts)) ∧
      (bundle.anchoring.map AnchoringEvent.logIndex).Sublist
        (logIndexes 0 (blockLogs rawBlock receipts)) ∧
      (∀ t ∈ bundle.transfers, ∃ tx ∈ bundle.txs, tx.blockNumber = t.blockNumber) ∧
      ∀ e ∈ bundle.anchoring, ∃ tx ∈ bundle.txs, tx.blockNumber = e.blockNumber := by
  obtain ⟨done, hdone, rfl⟩ := Option.map_eq_some_iff.mp h
  have hempty : Assembly.Indexed [] ⟨[], [], [], 0⟩ :=
    ⟨.slnil, .slnil, rfl, fun t ht => absurd ht List.not_mem_nil,
      fun e he => absurd he List.not_mem_nil⟩
  have hstep : ∀ (txs : List Json) (s : Assembly) (txData : Json) (s' : Assembly),
      s.Indexed (txs.flatMap (txLogs receipts)) →
        assembleTx (parseBlock rawBlock) receipts s txData = some s' →
          s'.Indexed ((txs ++ [txData]).flatMap (txLogs receipts)) := by
    intro txs s txData s' hs hrun
    rw [List.flatMap_append, List.flatMap_singleton]
    exact assembleTx_indexed _ _ hs hrun
  have hall := Fallible.foldlM_run (P := fun txs s => s.Indexed (txs.flatMap (txLogs receipts)))
    hstep [] hempty hdone
  exact ⟨hall.transfers, hall.anchoring, hall.transferNumber, hall.anchoringNumber⟩

/-! ## Saving them -/

/-- Nothing is stored of the logs of a block. -/
def Database.LacksLogs (db : Database) (number : ℤ) : Prop :=
  (∀ e ∈ db.transferEvents.entries, e.key.1 ≠ number) ∧ ∀ k ∈ db.anchoringEvents, k.1 ≠ number

/-- **Every transfer and every anchoring write of a bundle is stored**, the transfers as new rows. -/
structure StoredAll (db db' : Database) (bundle : BlockBundle) : Prop where
  transfers : db'.transferEvents.entries.map (fun e => (e.key, e.row)) =
    db.transferEvents.entries.map (fun e => (e.key, e.row)) ++
      bundle.transfers.map fun t => (transferKey t, transferRow t)
  anchoring : ∀ e ∈ bundle.anchoring,
    db'.anchoringEvents.lookup (e.blockNumber, e.logIndex) = some (anchoringRow e)

theorem writeBlock_storedAll {ch : Choices} {db db' : Database} {bundle : BlockBundle} {nb nt : ℤ}
    (h : db.writeBlock ch bundle = .ok (db', nb, nt))
    (htransfers : (bundle.transfers.map TransferEvent.logIndex).Nodup)
    (hanchoring : (bundle.anchoring.map AnchoringEvent.logIndex).Nodup)
    (htlacks : ∀ t ∈ bundle.transfers, db.LacksLogs t.blockNumber)
    (halacks : ∀ e ∈ bundle.anchoring, db.LacksLogs e.blockNumber) : StoredAll db db' bundle := by
  obtain ⟨-, hrows, new, hsub, hstored, hins⟩ := Database.writeBlock_rows h
  constructor
  · have hnodup : (bundle.transfers.map transferKey).Nodup := by
      refine List.Nodup.of_map Prod.snd ?_
      rwa [List.map_map]
    have hnone : ∀ t ∈ bundle.transfers,
        transferKey t ∉ db.transferEvents.entries.map Entry.key := by
      intro t ht hmem
      obtain ⟨e, he, hkey⟩ := List.mem_map.mp hmem
      exact (htlacks t ht).1 e he (congrArg Prod.fst hkey)
    have hnew := Database.inserted_eq_self hins hsub hstored hnone hnodup
    rw [hins.keyedRows, hnew]
  · intro e he
    rw [hrows]
    refine (Database.writes_putAnchoring.lookup_foldl ?_ ?_ _ _).mpr (.inl ⟨e, he, rfl, rfl⟩)
    · intro i hi j hj hkey
      have heq : i = j := List.inj_on_of_nodup_map hanchoring hi hj (congrArg Prod.snd hkey)
      rw [heq]
    · intro i hi w hw
      have hmem : (i.blockNumber, i.logIndex) ∈ db.anchoringEvents :=
        AList.lookup_isSome.mp (hw ▸ rfl)
      exact absurd rfl ((halacks i hi).2 _ hmem)

/-- **No row of a legible block is lost**: in a block whose indexes are positions, wherever a node
spells them out, the indexes given are distinct and a save stores every row, exactly where no log
after the first has an index that is read as 0. -/
theorem assembleBundle_stored [Keccak] [Codec] (rawBlock : Json) (receipts : Option Json)
    (h : Positioned (blockLogs rawBlock receipts)) :
    ((logIndexes 0 (blockLogs rawBlock receipts)).Nodup ∧
      ∀ bundle, assembleBundle rawBlock receipts = some bundle →
      ∀ (tokens : List TokenMeta) (ch : Choices) (db db' : Database) (nb nt : ℤ),
        (∀ tx ∈ bundle.txs, db.LacksLogs tx.blockNumber) →
        db.writeBlock ch { bundle with tokens := tokens } = .ok (db', nb, nt) →
        StoredAll db db' bundle) ↔
      Legible (blockLogs rawBlock receipts) ∧ (blockLogs rawBlock receipts).length ≤ 2 ^ 64 := by
  rw [← logIndexes_nodup_iff h, and_iff_left_iff_imp]
  intro hnodup bundle hbundle tokens ch db db' nb nt hlacks hwrite
  obtain ⟨htransfers, hanchoring, htnumber, hanumber⟩ := assembleBundle_indexed hbundle
  have hall := writeBlock_storedAll hwrite (hnodup.sublist htransfers) (hnodup.sublist hanchoring)
    (fun t ht => by
      obtain ⟨tx, htx, hnumber⟩ := htnumber t ht
      exact hnumber ▸ hlacks tx htx)
    (fun e he => by
      obtain ⟨tx, htx, hnumber⟩ := hanumber e he
      exact hnumber ▸ hlacks tx htx)
  exact ⟨hall.transfers, hall.anchoring⟩

/-! ## A block of two logs -/

section Sample

attribute [local instance] Keccak.sponge Codec.bare

def oneTxBlock : Json := .obj [("transactions", .arr [.obj [("hash", .str "0xaa")]])]

/-- The receipt of its transaction, with the indexes its two logs are sent with. -/
def twoLogs (first second : Json) : Option Json :=
  some (.arr [.obj [("transactionHash", .str "0xaa"),
    ("logs", .arr [.obj [("logIndex", first)], .obj [("logIndex", second)]])]])

theorem blockLogs_twoLogs (first second : Json) :
    blockLogs oneTxBlock (twoLogs first second) =
      [.obj [("logIndex", first)], .obj [("logIndex", second)]] := rfl

theorem positioned_pair {first second : Json}
    (h0 : ∀ n, spelledInt first = some n → 0 ≤ n → n = 0)
    (h1 : ∀ n, spelledInt second = some n → 0 ≤ n → n = 1) :
    Positioned [.obj [("logIndex", first)], .obj [("logIndex", second)]] := by
  intro i log v n hlog hv hn hpos
  match i with
  | 0 =>
    obtain rfl := Option.some.inj hlog
    obtain rfl := Option.some.inj hv
    exact h0 n hn hpos
  | 1 =>
    obtain rfl := Option.some.inj hlog
    obtain rfl := Option.some.inj hv
    exact h1 n hn hpos
  | i + 2 => exact absurd hlog nofun

/-- A first log without an index takes 0, and the second is the node's. -/
theorem assembleBundle_stored_first :
    (logIndexes 0 (blockLogs oneTxBlock (twoLogs .null (.str "0x1")))).Nodup := by
  refine ((assembleBundle_stored oneTxBlock (twoLogs .null (.str "0x1")) ?_).mpr ⟨?_, ?_⟩).1
  · refine positioned_pair (fun n hn => absurd hn nofun) fun n hn _ => ?_
    have h1 : spelledInt (.str "0x1") = some 1 := by decide
    exact (Option.some.inj (h1.symm.trans hn)).symm
  · intro i log v hlog hv hi
    rw [blockLogs_twoLogs] at hlog
    match i with
    | 1 =>
      obtain rfl := Option.some.inj hlog
      obtain rfl := Option.some.inj hv
      decide
    | i + 2 => exact absurd hlog nofun
  · rw [blockLogs_twoLogs]
    decide

/-- **A `null` after the first log is read as 0**, which the first log has already. -/
theorem logIndexes_null_collides :
    Positioned (blockLogs oneTxBlock (twoLogs (.str "0x0") .null)) ∧
      ¬(logIndexes 0 (blockLogs oneTxBlock (twoLogs (.str "0x0") .null))).Nodup := by
  constructor
  · refine positioned_pair (fun n hn _ => ?_) fun n hn => absurd hn nofun
    have h0 : spelledInt (.str "0x0") = some 0 := by decide
    exact (Option.some.inj (h0.symm.trans hn)).symm
  · rw [blockLogs_twoLogs]
    decide

end Sample

end ChainExplorer
