import ChainExplorer.Indexer.Transfers

/-!
# The charged fee

A transaction's fee is what its receipt states, else what its transfers pay into the Fee Manager.
Whether one is stated is decided by reading it back as a signed 64-bit integer.

* `statedFee`, `feePaid`: what a receipt states, and what a log pays.
* `FeeCharged`: the fee is the one stated, or the first one paid.
* **`applyReceipt_fee`**: it is exactly where `FeeLegible`: the fee fits the integer, or nothing
  paid replaces it by another.
-/

namespace ChainExplorer

open Text

/-! ## What a receipt states -/

/-- A decimal of any size. -/
def readDecimal (s : String) : Option ℤ := Numeral.integer 10 s.toList

/-- A fee that reads back as a positive 64-bit integer. -/
def standing (fee : String) : Bool := ((parseI64 fee).map fun n => decide (0 < n)).getD false

/-- The fee a value states, of any size. -/
def feeValue : Json → Option ℤ
  | .int n => some n
  | .float text => readDecimal text
  | .str s =>
    match stripPrefix ['0', 'x'] s.toList with
    | some [] => some 0
    | some hex => Numeral.bigInt 16 hex
    | none => readDecimal s
  | _ => none

/-- The fee a receipt states. -/
def statedFee (receipt : Json) : Option ℤ := (receipt.get "feeAmount").bind feeValue

/-- A fee that is stated and positive. -/
def Positive (fee : Option ℤ) : Prop := ∃ n, fee = some n ∧ 0 < n

theorem readDecimal_toString (n : ℤ) : readDecimal (toString n) = some n := by
  have h := Numeral.signed_toString (le_refl n) (le_refl n)
  rw [Numeral.signed_eq] at h
  exact (Option.filter_eq_some_iff.mp h).1

theorem readDecimal_natCast (n : ℕ) : readDecimal (toString n) = some (n : ℤ) :=
  readDecimal_toString (n : ℤ)

/-- A text kept as it is reads as no decimal where it starts as hexadecimal. -/
theorem readDecimal_of_prefix {s : String} {hex : List Char}
    (h : stripPrefix ['0', 'x'] s.toList = some hex) : readDecimal s = none := by
  unfold stripPrefix at h
  split_ifs at h with hp
  obtain ⟨rest, hrest⟩ := List.isPrefixOf_iff_prefix.mp hp
  rw [readDecimal, ← hrest]
  rfl

/-- A string or a number: what a receipt's fee is taken from. -/
def isAmount : Json → Bool
  | .str _ | .int _ | .float _ => true
  | _ => false

theorem readDecimal_decimalAmount {v : Json} (hv : isAmount v = true) :
    readDecimal (decimalAmount v) = feeValue v := by
  cases v with
  | int n => exact readDecimal_toString n
  | float text => rfl
  | str s =>
    unfold decimalAmount feeValue
    simp only
    cases hp : stripPrefix ['0', 'x'] s.toList with
    | none => rfl
    | some hex =>
      cases hex with
      | nil => exact readDecimal_toString 0
      | cons c cs =>
        simp only
        cases hn : Numeral.bigInt 16 (c :: cs) with
        | none =>
          rw [Option.map_none, Option.getD_none]
          exact readDecimal_of_prefix hp
        | some n =>
          rw [Option.map_some, Option.getD_some]
          exact readDecimal_toString n
  | _ => exact absurd hv Bool.false_ne_true

theorem standing_iff {fee : String} :
    standing fee = true ↔ ∃ n, readDecimal fee = some n ∧ 0 < n ∧ n < 2 ^ 63 := by
  unfold standing parseI64
  rw [Numeral.signed_eq, ← readDecimal]
  cases readDecimal fee with
  | none => simp
  | some n =>
    rw [Option.filter_some]
    split_ifs with h
    · simp only [decide_eq_true_eq] at h
      simp only [Option.map_some, Option.getD_some, decide_eq_true_eq, Option.some.injEq,
        exists_eq_left']
      omega
    · simp only [decide_eq_true_eq] at h
      simp only [Option.map_none, Option.getD_none, Bool.false_eq_true, Option.some.injEq,
        exists_eq_left', false_iff]
      omega

/-! ## Payments -/

/-- A fee after a payment. -/
def settle (fee amount : String) : String := if standing fee then fee else amount

/-- An amount that is positive. -/
def isPositive (amount : String) : Bool := (readDecimal amount).any fun n => decide (0 < n)

theorem isPositive_iff {amount : String} : isPositive amount = true ↔ Positive (readDecimal amount) := by
  unfold isPositive Positive
  cases readDecimal amount with
  | none => simp
  | some n => simp

/-- The first payment that stands is kept, else the last one. -/
theorem foldl_settle (paid : List String) (fee : String) :
    paid.foldl settle fee =
      if standing fee then fee else (paid.find? standing).getD (paid.getLastD fee) := by
  induction paid generalizing fee with
  | nil =>
    rw [List.foldl_nil, List.find?_nil, Option.getD_none, List.getLastD_nil, ite_self]
  | cons a paid ih =>
    rw [List.foldl_cons, ih, settle]
    by_cases hfee : standing fee
    · rw [if_pos hfee, if_pos hfee]
      simp [hfee]
    · rw [if_neg hfee, if_neg hfee, List.find?_cons, List.getLastD_cons]
      cases ha : standing a <;> simp

theorem eq_zero_of_not_positive {a : String} (ha : ∃ n : ℕ, a = toString n)
    (hpos : isPositive a = false) : a = "0" := by
  obtain ⟨n, rfl⟩ := ha
  have hn : ¬Positive (readDecimal (toString n)) := by
    rw [← isPositive_iff, hpos]
    exact Bool.false_ne_true
  rw [readDecimal_natCast] at hn
  have hzero : n = 0 := by
    by_contra hne
    exact hn ⟨n, rfl, by omega⟩
  rw [hzero]
  rfl

theorem isPositive_of_standing {a : String} (h : standing a = true) : isPositive a = true := by
  obtain ⟨n, hn, hpos, -⟩ := standing_iff.mp h
  exact isPositive_iff.mpr ⟨n, hn, hpos⟩

theorem find?_standing_none {paid : List String} (h : ∀ a ∈ paid, standing a = false) :
    paid.find? standing = none := by
  rw [List.find?_eq_none]
  intro a ha
  rw [h a ha]
  exact Bool.false_ne_true

/-- The first positive payment is the first that stands, where it stands. -/
theorem find?_standing_of_positive {paid : List String} {p : String}
    (h : paid.find? isPositive = some p) (hp : standing p = true) :
    paid.find? standing = some p := by
  induction paid with
  | nil => exact absurd h nofun
  | cons a paid ih =>
    rw [List.find?_cons] at h ⊢
    cases ha : isPositive a with
    | true =>
      rw [ha] at h
      obtain rfl := Option.some.inj h
      rw [hp]
    | false =>
      rw [ha] at h
      have hstand : standing a = false := by
        by_contra hne
        exact absurd (isPositive_of_standing (by simpa using hne)) (by simp [ha])
      rw [hstand]
      exact ih h

theorem stated_iff {paid : List String} {base : String} {n : ℤ} (hbase : readDecimal base = some n)
    (hpos : 0 < n) :
    readDecimal (paid.foldl settle base) = some n ↔
      n < 2 ^ 63 ∨ paid = [] ∨ (∀ a ∈ paid, standing a = false) ∧
        ∃ a ∈ paid.getLast?, readDecimal a = some n := by
  rw [foldl_settle]
  by_cases hn : n < 2 ^ 63
  · rw [if_pos (standing_iff.mpr ⟨n, hbase, hpos, hn⟩)]
    exact iff_of_true hbase (.inl hn)
  have hstand : ¬standing base = true := by
    intro h
    obtain ⟨m, hm, -, hlt⟩ := standing_iff.mp h
    rw [hbase] at hm
    exact hn (Option.some.inj hm ▸ hlt)
  rw [if_neg hstand, or_iff_right hn]
  cases hfind : paid.find? standing with
  | some a =>
    -- A payment that stands is below the fee.
    have hmem := List.mem_of_find?_eq_some hfind
    have ha := List.find?_some hfind
    obtain ⟨m, hm, -, hlt⟩ := standing_iff.mp ha
    rw [Option.getD_some, hm]
    refine iff_of_false (fun h => hn (Option.some.inj h ▸ hlt)) ?_
    rintro (rfl | ⟨hall, -⟩)
    · exact absurd hmem List.not_mem_nil
    · exact absurd (hall a hmem) (by rw [ha]; exact Bool.noConfusion)
  | none =>
    have hall : ∀ a ∈ paid, standing a = false := fun a ha => by
      simpa using List.find?_eq_none.mp hfind a ha
    rw [Option.getD_none]
    cases hlast : paid.getLast? with
    | none =>
      rw [List.getLast?_eq_none_iff] at hlast
      subst hlast
      exact iff_of_true hbase (.inl rfl)
    | some a =>
      have hne : paid ≠ [] := by
        rintro rfl
        exact absurd hlast nofun
      rw [List.getLastD_eq_getLast?, hlast, Option.getD_some]
      constructor
      · intro h
        exact .inr ⟨hall, a, rfl, h⟩
      · rintro (h | ⟨-, a', ha', h⟩)
        · exact absurd h hne
        · rwa [Option.some.inj ha']

theorem derived_iff {paid : List String} {base : String}
    (hpaid : ∀ a ∈ paid, ∃ n : ℕ, a = toString n) (hbase : ¬Positive (readDecimal base)) :
    paid.foldl settle base = (paid.find? isPositive).getD base ↔
      match paid.find? isPositive with
      | some p => standing p = true ∨
          (∀ a ∈ paid, standing a = false) ∧ paid.getLast? = some p
      | none => paid = [] ∨ base = "0" := by
  have hstand : ¬standing base = true := fun h =>
    hbase (isPositive_iff.mp (isPositive_of_standing h))
  rw [foldl_settle, if_neg hstand]
  cases hfind : paid.find? isPositive with
  | some p =>
    simp only [Option.getD_some]
    by_cases hp : standing p
    · rw [find?_standing_of_positive hfind hp, Option.getD_some]
      exact iff_of_true rfl (.inl hp)
    · rw [or_iff_right hp]
      have hmem := List.mem_of_find?_eq_some hfind
      cases hs : paid.find? standing with
      | some q =>
        have hq := List.find?_some hs
        rw [Option.getD_some]
        refine iff_of_false (fun h => hp (h ▸ hq)) fun h => ?_
        exact absurd (h.1 q (List.mem_of_find?_eq_some hs)) (by rw [hq]; exact Bool.noConfusion)
      | none =>
        have hall : ∀ a ∈ paid, standing a = false := fun a ha => by
          simpa using List.find?_eq_none.mp hs a ha
        rw [Option.getD_none, List.getLastD_eq_getLast?, and_iff_right hall]
        cases hlast : paid.getLast? with
        | none =>
          rw [List.getLast?_eq_none_iff] at hlast
          subst hlast
          exact absurd hmem List.not_mem_nil
        | some a => rw [Option.getD_some, Option.some.injEq]
  | none =>
    simp only [Option.getD_none]
    have hnone : ∀ a ∈ paid, isPositive a = false := fun a ha => by
      simpa using List.find?_eq_none.mp hfind a ha
    have hall : ∀ a ∈ paid, standing a = false := fun a ha => by
      by_contra hne
      have hpos := isPositive_of_standing (a := a) (by simpa using hne)
      exact absurd (hnone a ha) (by rw [hpos]; exact Bool.noConfusion)
    rw [find?_standing_none hall, Option.getD_none, List.getLastD_eq_getLast?]
    cases hlast : paid.getLast? with
    | none =>
      rw [List.getLast?_eq_none_iff] at hlast
      exact iff_of_true rfl (.inl hlast)
    | some a =>
      have hmem : a ∈ paid := List.mem_of_getLast? hlast
      have hne : paid ≠ [] := List.ne_nil_of_mem hmem
      rw [Option.getD_some, eq_zero_of_not_positive (hpaid a hmem) (hnone a hmem), or_iff_right hne,
        eq_comm]

/-- A transfer to `dst` that the fee token emitted pays the Fee Manager. -/
def paysFee [Lowercase] (feeToken : Option String) (log : Json) (dst : String) : Bool :=
  let emitter := Lowercase.toLowercase (log.text "address" "")
  let isFeeToken := (feeToken.map fun f => decide (Lowercase.toLowercase f = emitter)).getD false
  isFeeToken && eqIgnoreAsciiCase dst.toList feeManagerAddress.toList

theorem deriveFeeFromTransfer_eq [Lowercase] (tx : Transaction) (log : Json) (dst : String)
    {amount : String} (h : amount.isEmpty = false) :
    deriveFeeFromTransfer tx log dst amount =
      if paysFee tx.feeToken log dst then { tx with feeAmount := settle tx.feeAmount amount }
      else tx := by
  have hdef : deriveFeeFromTransfer tx log dst amount =
      if amount.isEmpty ∨ standing tx.feeAmount then tx
      else if paysFee tx.feeToken log dst then { tx with feeAmount := amount } else tx := rfl
  rw [hdef, h, settle]
  by_cases hstand : standing tx.feeAmount
  · rw [if_pos (.inr hstand), if_pos hstand, ite_self]
  · rw [if_neg (by simp [hstand]), if_neg hstand]

theorem statedFee_eq (receipt : Json) :
    statedFee receipt = ((receipt.get "feeAmount").filter isAmount).bind feeValue := by
  unfold statedFee
  cases receipt.get "feeAmount" with
  | none => rfl
  | some v => cases v <;> rfl

section Keccak

variable [Keccak] [Codec]

theorem readDecimal_applyReceiptFields (tx : Transaction) (receipt : Json) :
    readDecimal (applyReceiptFields tx receipt).feeAmount =
      ((receipt.get "feeAmount").filter isAmount).elim (readDecimal tx.feeAmount) feeValue := by
  unfold applyReceiptFields
  simp only
  cases receipt.get "feeAmount" with
  | none => rfl
  | some v =>
    cases v with
    | str s => exact readDecimal_decimalAmount rfl
    | int n => exact readDecimal_decimalAmount rfl
    | float text => exact readDecimal_decimalAmount rfl
    | _ => rfl

theorem readDecimal_of_stated {tx : Transaction} {receipt : Json} {n : ℤ}
    (h : statedFee receipt = some n) :
    readDecimal (applyReceiptFields tx receipt).feeAmount = some n := by
  rw [statedFee_eq] at h
  obtain ⟨v, hv, hn⟩ := Option.bind_eq_some_iff.mp h
  rw [readDecimal_applyReceiptFields, hv, Option.elim_some, hn]

theorem not_positive_applyReceiptFields {tx : Transaction} {receipt : Json}
    (hr : ¬Positive (statedFee receipt)) (ht : ¬Positive (readDecimal tx.feeAmount)) :
    ¬Positive (readDecimal (applyReceiptFields tx receipt).feeAmount) := by
  rw [statedFee_eq] at hr
  rw [readDecimal_applyReceiptFields]
  cases hv : (receipt.get "feeAmount").filter isAmount with
  | none => exact ht
  | some v =>
    rw [hv, Option.bind_some] at hr
    exact hr

/-! ## What the logs pay -/

/-- What a log pays into the Fee Manager from the fee token. -/
def feePaid (feeToken : Option String) (log : Json) : Option String :=
  (logTransfer log).bind fun m => if paysFee feeToken log m.dst then some m.amount else none

/-- What the logs of a receipt pay, in order. -/
def feesPaid (tx : Transaction) (receipt : Json) : List String :=
  (receipt.arrayField "logs").filterMap (feePaid (applyReceiptFields tx receipt).feeToken)

variable {event : AbiEvent}

theorem feePaid_number (habi : TransferAbi event) {feeToken : Option String} {log : Json}
    {amount : String} (h : feePaid feeToken log = some amount) : ∃ n : ℕ, amount = toString n := by
  unfold feePaid at h
  obtain ⟨m, hm, h⟩ := Option.bind_eq_some_iff.mp h
  split_ifs at h
  rcases logTransfer_cases habi log with ⟨hnone, -⟩ | ⟨src, dst, n, hsome, -⟩
  · exact absurd (hm.symm.trans hnone) nofun
  · have heq := Option.some.inj (hm.symm.trans hsome)
    exact ⟨n, by rw [← Option.some.inj h, heq]⟩

theorem logFee_settle (habi : TransferAbi event) (tx : Transaction) (log : Json) :
    (logFee tx log).feeAmount = (feePaid tx.feeToken log).elim tx.feeAmount (settle tx.feeAmount) := by
  unfold feePaid
  rcases logTransfer_cases habi log with ⟨hnone, hfee⟩ | ⟨src, dst, n, hsome, hfee⟩
  · rw [hnone, hfee, Option.bind_none, Option.elim_none]
  · have hamount : (toString n).isEmpty = false := by simp
    rw [hsome, hfee, Option.bind_some, deriveFeeFromTransfer_eq tx log dst hamount]
    split_ifs
    · rfl
    · rfl

theorem foldl_logFee (habi : TransferAbi event) (logs : List Json) (tx : Transaction) :
    (logs.foldl logFee tx).feeAmount =
      (logs.filterMap (feePaid tx.feeToken)).foldl settle tx.feeAmount := by
  induction logs generalizing tx with
  | nil => rfl
  | cons log logs ih =>
    have htoken : (logFee tx log).feeToken = tx.feeToken := by rw [logFee_frame]
    rw [List.foldl_cons, ih, htoken, logFee_settle habi, List.filterMap_cons]
    cases feePaid tx.feeToken log <;> rfl

/-! ## The fee stored -/

/-- A fee is the one stated; or else the first one paid, if any. -/
structure FeeOwed (s : Indexing) (receipt : Json) (fee : String) : Prop where
  stated : ∀ n, 0 < n → statedFee receipt = some n → readDecimal fee = some n
  derived : ¬Positive (statedFee receipt) → ¬Positive (readDecimal s.tx.feeAmount) →
    fee = ((feesPaid s.tx receipt).find? isPositive).getD (applyReceiptFields s.tx receipt).feeAmount

/-- **The fee charged**: the receipt is applied, and its transaction has the fee owed. -/
def FeeCharged (s : Indexing) (receipt : Json) : Prop :=
  ∃ done, applyReceipt receipt s = some done ∧ FeeOwed s receipt done.tx.feeAmount

/-- **The fee owed fits 63 bits**, or no payment does and the last is of the same amount. Where
nothing positive is paid, the fee is written as a payment of nothing is. The logs that are read can
be decoded. -/
structure FeeLegible (tx : Transaction) (receipt : Json) : Prop where
  decodable : ∀ log ∈ receipt.arrayField "logs",
    isTransferLog log = true ∨ isAnchoringLog log = true → Decodable log
  stated : ∀ n, 0 < n → statedFee receipt = some n →
    n < 2 ^ 63 ∨ feesPaid tx receipt = [] ∨
      (∀ a ∈ feesPaid tx receipt, standing a = false) ∧
        ∃ a ∈ (feesPaid tx receipt).getLast?, readDecimal a = some n
  derived : ¬Positive (statedFee receipt) → ¬Positive (readDecimal tx.feeAmount) →
    match (feesPaid tx receipt).find? isPositive with
    | some p => standing p = true ∨
        (∀ a ∈ feesPaid tx receipt, standing a = false) ∧ (feesPaid tx receipt).getLast? = some p
    | none => feesPaid tx receipt = [] ∨ (applyReceiptFields tx receipt).feeAmount = "0"

theorem applyReceipt_isSome_iff {receipt : Json} {s : Indexing} :
    (applyReceipt receipt s).isSome ↔ ∀ log ∈ receipt.arrayField "logs",
      isTransferLog log = true ∨ isAnchoringLog log = true → Decodable log := by
  have hany : (receipt.arrayField "logs").any logPanics = false ↔
      ∀ log ∈ receipt.arrayField "logs",
        isTransferLog log = true ∨ isAnchoringLog log = true → Decodable log := by
    rw [List.any_eq_false]
    refine forall₂_congr fun log _ => ?_
    rw [Bool.not_eq_true, logPanics_eq_false_iff]
  rw [← hany, applyReceipt_eq]
  split_ifs with hpanics
  · simp [hpanics]
  · simpa using hpanics

theorem applyReceipt_feeAmount (habi : TransferAbi event) {s done : Indexing} {receipt : Json}
    (h : applyReceipt receipt s = some done) : done.tx.feeAmount =
      (feesPaid s.tx receipt).foldl settle (applyReceiptFields s.tx receipt).feeAmount := by
  rw [applyReceipt_of_some h]
  exact foldl_logFee habi _ _

/-- **The fee stored is the fee charged** exactly where it is legible. -/
theorem applyReceipt_fee (habi : TransferAbi event) (s : Indexing) (receipt : Json) :
    FeeCharged s receipt ↔ FeeLegible s.tx receipt := by
  have hpaid : ∀ a ∈ feesPaid s.tx receipt, ∃ n : ℕ, a = toString n := by
    intro a ha
    obtain ⟨log, -, hlog⟩ := List.mem_filterMap.mp ha
    exact feePaid_number habi hlog
  constructor
  · rintro ⟨done, hdone, h⟩
    have hfee := applyReceipt_feeAmount habi hdone
    refine ⟨applyReceipt_isSome_iff.mp (by rw [hdone]; rfl), fun n hn hstated => ?_, fun hr ht => ?_⟩
    · have hread := h.stated n hn hstated
      rw [hfee] at hread
      exact (stated_iff (readDecimal_of_stated hstated) hn).mp hread
    · have hderived := h.derived hr ht
      rw [hfee] at hderived
      exact (derived_iff hpaid (not_positive_applyReceiptFields hr ht)).mp hderived
  · intro h
    obtain ⟨done, hdone⟩ := Option.isSome_iff_exists.mp (applyReceipt_isSome_iff.mpr h.decodable)
    have hfee := applyReceipt_feeAmount habi hdone
    refine ⟨done, hdone, fun n hn hstated => ?_, fun hr ht => ?_⟩
    · rw [hfee]
      exact (stated_iff (readDecimal_of_stated hstated) hn).mpr (h.stated n hn hstated)
    · rw [hfee]
      exact (derived_iff hpaid (not_positive_applyReceiptFields hr ht)).mpr (h.derived hr ht)

end Keccak

/-! ## A payment of five -/

section Sample

attribute [local instance] Keccak.sponge Codec.transfers

/-- The token fees are paid in, a payer, and the Fee Manager. -/
def feeTokenBytes : Bytes := [0x20, 0xc0] ++ List.replicate 18 0
def payerBytes : Bytes := List.replicate 20 0x11
def feeManagerBytes : Bytes := [0xfe, 0xec] ++ List.replicate 18 0

/-- A payment of 5. -/
def feeLog : Json :=
  transferLog feeTokenBytes payerBytes feeManagerBytes (List.replicate 31 0 ++ [5])

/-- A receipt with that log, and a fee if it states one. -/
def feeReceipt (stated : List (String × Json)) : Json :=
  .obj ([("feeToken", .str (blobHex feeTokenBytes)), ("logs", .arr [feeLog])] ++ stated)

/-- A transaction that states no fee. -/
def feeTx : Transaction := parseTransaction (.obj [("hash", .str "0xaa")]) (parseBlock .null)

theorem feesPaid_feeReceipt (stated : List (String × Json)) :
    feesPaid feeTx (feeReceipt stated) = ["5"] := by
  have htoken : (applyReceiptFields feeTx (feeReceipt stated)).feeToken =
      some (blobAddr feeTokenBytes) := rfl
  have hlog : logTransfer feeLog =
      some ⟨blobAddr feeTokenBytes, blobAddr payerBytes, blobAddr feeManagerBytes, "5"⟩ :=
    logTransfer_transferLog rfl rfl rfl
  have hpays : paysFee (some (blobAddr feeTokenBytes)) feeLog (blobAddr feeManagerBytes) = true := by
    have hemitter : feeLog.text "address" "" = blobHex feeTokenBytes := rfl
    have hlower : Lowercase.toLowercase (blobAddr feeTokenBytes) =
        Lowercase.toLowercase (blobHex feeTokenBytes) := by
      have hhex : toAsciiLower (blobHex feeTokenBytes).toList = (blobHex feeTokenBytes).toList := by
        decide
      show String.ofList (toAsciiLower _) = String.ofList (toAsciiLower _)
      rw [toAsciiLower_blobAddr, hhex]
    have hmanager : (blobHex feeManagerBytes).toList = toAsciiLower feeManagerAddress.toList := by
      decide
    simp only [paysFee, hemitter, hlower, Option.map_some, Option.getD_some, toAsciiLower_blobAddr,
      eqIgnoreAsciiCase, hmanager, decide_true, Bool.and_true]
  show [feeLog].filterMap (feePaid (applyReceiptFields feeTx (feeReceipt stated)).feeToken) = ["5"]
  rw [htoken, List.filterMap_cons, feePaid, hlog, Option.bind_some]
  simp only [hpays, if_true]
  rfl

theorem feeReceipt_decodable (stated : List (String × Json)) :
    ∀ log ∈ (feeReceipt stated).arrayField "logs",
      isTransferLog log = true ∨ isAnchoringLog log = true → Decodable log := by
  intro log hlog _
  have hlogs : (feeReceipt stated).arrayField "logs" = [feeLog] := rfl
  rw [hlogs] at hlog
  rw [List.mem_singleton.mp hlog]
  exact transferLog_decodable _ _ _ _

/-- Nothing is stated, and the payment is the fee. -/
theorem applyReceipt_fee_paid : FeeCharged ⟨feeTx, [], [], 0⟩ (feeReceipt []) := by
  have hnone : statedFee (feeReceipt []) = none := by rfl
  have hfind : (feesPaid feeTx (feeReceipt [])).find? isPositive = some "5" := by
    have hpos : isPositive "5" = true := by decide
    rw [feesPaid_feeReceipt, List.find?_cons_of_pos hpos]
  have hlegible : FeeLegible feeTx (feeReceipt []) := by
    refine ⟨feeReceipt_decodable [], ?_, ?_⟩
    · intro n _ hn
      rw [hnone] at hn
      exact absurd hn nofun
    · intro _ _
      have hstand : standing "5" = true := by decide
      rw [hfind]
      exact .inl hstand
  exact (applyReceipt_fee transferEvent_abi ⟨feeTx, [], [], 0⟩ (feeReceipt [])).mpr hlegible

/-- **A stated fee of 2⁶³ is replaced** by a payment of 5. -/
theorem applyReceipt_fee_overwritten :
    statedFee (feeReceipt [("feeAmount", .str "0x8000000000000000")]) = some (2 ^ 63) ∧
      (∃ done, applyReceipt (feeReceipt [("feeAmount", .str "0x8000000000000000")])
        ⟨feeTx, [], [], 0⟩ = some done ∧ done.tx.feeAmount = "5") ∧
      ¬FeeCharged ⟨feeTx, [], [], 0⟩ (feeReceipt [("feeAmount", .str "0x8000000000000000")]) := by
  have hstated : statedFee (feeReceipt [("feeAmount", .str "0x8000000000000000")]) =
      some (2 ^ 63) := by decide
  have hbase : standing (applyReceiptFields feeTx
      (feeReceipt [("feeAmount", .str "0x8000000000000000")])).feeAmount = false := by decide
  have hfee : ∀ done, applyReceipt (feeReceipt [("feeAmount", .str "0x8000000000000000")])
      ⟨feeTx, [], [], 0⟩ = some done → done.tx.feeAmount = "5" := by
    intro done hdone
    rw [applyReceipt_feeAmount transferEvent_abi hdone, feesPaid_feeReceipt, List.foldl_cons,
      List.foldl_nil, settle, hbase, if_neg Bool.false_ne_true]
  obtain ⟨done, hdone⟩ := Option.isSome_iff_exists.mp
    (applyReceipt_isSome_iff.mpr (feeReceipt_decodable [("feeAmount", .str "0x8000000000000000")]))
  refine ⟨hstated, ⟨done, hdone, hfee done hdone⟩, ?_⟩
  rintro ⟨done', hdone', h⟩
  have hread := h.stated _ (by decide) hstated
  rw [hfee done' hdone', show readDecimal "5" = some 5 by decide] at hread
  exact absurd (Option.some.inj hread) (by decide)

end Sample

end ChainExplorer
