import ChainExplorer.Lib.Fraction
import ChainExplorer.Web.Summary

/-!
# Amounts as they are shown

A token amount as text (`tokens.rs`).

* `amountDigits`: the digits that are shown after the point.
* **`formatTokenAmount_denotes`**: the text is the amount, cut to six places, with its sign.
* `LastDigitShown`: nothing is cut off, or what is shown does not end in a zero.
* **`formatTokenAmount_canonical`**: no text ends in a zero exactly there, and amounts that are the
  same to six places are shown the same exactly where it holds of both or of neither.
-/

namespace ChainExplorer

open Fraction

/-! ## Digits after the point -/

/-- The digits of an amount below one token, as many as the scale has places. -/
def scaleDigits (amount scale : ℕ) : List Char :=
  (toString (amount % 10 ^ scale)).toList.leftpad scale '0'

/-- The digits that are shown after the point. -/
def amountDigits (amount scale : ℕ) : List Char :=
  ((scaleDigits amount scale).rdropWhile (· = '0')).take 6

/-- An amount in millionths of a token, cut to a whole number. -/
def millionths (amount scale : ℕ) : ℕ := amount * 10 ^ 6 / 10 ^ scale

theorem formatTokenAmount_eq {amount : String} {n decimals : ℤ}
    (hn : Numeral.bigInt 10 amount.toList = some n) (h0 : 0 ≤ decimals) (h30 : decimals ≤ 30) :
    (formatTokenAmount amount decimals).toList =
      (if n < 0 then ['-'] else []) ++
        withPoint (n.natAbs / 10 ^ decimals.toNat) (amountDigits n.natAbs decimals.toNat) := by
  have hclamp : max 0 (min decimals 30) = decimals := by omega
  have hsign : (if n < 0 then "-" else "").toList = if n < 0 then ['-'] else [] := by
    split_ifs <;> rfl
  unfold formatTokenAmount
  simp only [hn, Option.getD_some, hclamp]
  rw [amountDigits, scaleDigits]
  set frac := ((toString (n.natAbs % 10 ^ decimals.toNat)).toList.leftpad decimals.toNat
    '0').rdropWhile (· = '0') with hfrac
  by_cases hzero : n = 0
  · -- Nothing but zeros, none of which is shown.
    have hnil : frac = [] := by
      rw [hfrac, hzero, List.rdropWhile_eq_nil_iff]
      intro c hc
      rcases List.mem_append.mp hc with hpad | hdigit
      · exact decide_eq_true (List.eq_of_mem_replicate hpad)
      · have hlast : (toString (Int.natAbs 0 % 10 ^ decimals.toNat)).toList = ['0'] := by
          rw [Int.natAbs_zero, Nat.zero_mod]
          rfl
        rw [hlast] at hdigit
        exact decide_eq_true (List.mem_singleton.mp hdigit)
    rw [if_pos hzero, hnil, hzero]
    simp [withPoint]
  · rw [if_neg hzero]
    by_cases hempty : frac = []
    · simp [hempty, withPoint, hsign]
    · have htake : frac.take 6 ≠ [] := by simp [hempty]
      simp [hempty, htake, withPoint, hsign]

theorem digits_scaleDigits (amount scale : ℕ) : Digits (scaleDigits amount scale) :=
  (digits_replicate _).append (digits_toString _)

theorem digits_amountDigits (amount scale : ℕ) : Digits (amountDigits amount scale) :=
  (digits_scaleDigits amount scale).sublist
    ((List.take_sublist _ _).trans (List.rdropWhile_prefix _ _).sublist)

theorem fraction_scaleDigits (amount scale : ℕ) :
    fraction (scaleDigits amount scale) = (amount % 10 ^ scale : ℕ) / 10 ^ scale := by
  have hdigits : (toString (amount % 10 ^ scale)).toList = Nat.toDigits 10 (amount % 10 ^ scale) :=
    Nat.toList_repr
  have hvalue : Nat.ofDigitChars 10 (scaleDigits amount scale) 0 = amount % 10 ^ scale := by
    rw [scaleDigits, List.leftpad, ofDigitChars_append, ofDigitChars_replicate, Nat.zero_mul,
      Nat.zero_add, hdigits, Nat.ofDigitChars_ten_toDigits]
  rw [fraction, hvalue]
  by_cases hscale : scale = 0
  · simp [hscale, Nat.mod_one]
  · have hshort : (Nat.toDigits 10 (amount % 10 ^ scale)).length ≤ scale := by
      have hlt : amount % 10 ^ scale < 10 ^ scale := Nat.mod_lt _ (by positivity)
      exact (Nat.length_toDigits_le_iff (by decide) (Nat.pos_of_ne_zero hscale)).mpr hlt
    have hlen : (scaleDigits amount scale).length = scale := by
      rw [scaleDigits, List.leftpad, List.length_append, List.length_replicate, hdigits]
      omega
    rw [hlen]

theorem fraction_amountDigits (amount scale : ℕ) :
    (amount / 10 ^ scale : ℕ) + fraction (amountDigits amount scale) =
      (millionths amount scale : ℚ) / 10 ^ 6 := by
  have hrow : Digits ((scaleDigits amount scale).rdropWhile (· = '0')) :=
    (digits_scaleDigits amount scale).sublist (List.rdropWhile_prefix _ _).sublist
  have hscaled : ((amount % 10 ^ scale : ℕ) : ℚ) / 10 ^ scale * 10 ^ 6 =
      ((amount % 10 ^ scale * 10 ^ 6 : ℕ) : ℚ) / (10 ^ scale : ℕ) := by
    push_cast
    ring
  have hsplit : millionths amount scale =
      amount / 10 ^ scale * 10 ^ 6 + amount % 10 ^ scale * 10 ^ 6 / 10 ^ scale := by
    have hpos : 0 < 10 ^ scale := by positivity
    rw [millionths, ← Nat.mul_add_div hpos]
    congr 1
    conv_lhs => rw [← Nat.div_add_mod amount (10 ^ scale)]
    ring
  have hfloor : ⌊((amount % 10 ^ scale * 10 ^ 6 : ℕ) : ℚ) / (10 ^ scale : ℕ)⌋ =
      ((amount % 10 ^ scale * 10 ^ 6 / 10 ^ scale : ℕ) : ℤ) := by
    rw [Rat.floor_natCast_div_natCast]
    norm_cast
  rw [amountDigits, fraction_take hrow, fraction_rdropWhile, fraction_scaleDigits, hscaled, hfloor,
    hsplit, Int.cast_natCast, Nat.cast_add, Nat.cast_mul]
  field_simp
  norm_num

/-! ## The text -/

theorem truncateAt_tokens (n : ℤ) (scale : ℕ) :
    truncateAt 6 (n / 10 ^ scale) =
      (if n < 0 then -(millionths n.natAbs scale : ℚ) else millionths n.natAbs scale) / 10 ^ 6 := by
  have hfloor : ⌊(n.natAbs : ℚ) / 10 ^ scale * 10 ^ 6⌋ = (millionths n.natAbs scale : ℤ) := by
    have hscaled : (n.natAbs : ℚ) / 10 ^ scale * 10 ^ 6 =
        ((n.natAbs * 10 ^ 6 : ℕ) : ℚ) / (10 ^ scale : ℕ) := by
      push_cast
      ring
    rw [hscaled, Rat.floor_natCast_div_natCast, millionths]
    norm_cast
  by_cases hneg : n < 0
  · have habs : (n.natAbs : ℚ) = -n := by
      rw [Nat.cast_natAbs, abs_of_neg hneg, Int.cast_neg]
    have hnegq : (n : ℚ) / 10 ^ scale < 0 :=
      div_neg_of_neg_of_pos (by exact_mod_cast hneg) (by positivity)
    have hceil : ⌈(n : ℚ) / 10 ^ scale * 10 ^ 6⌉ = -(millionths n.natAbs scale : ℤ) := by
      rw [← hfloor, ← Int.ceil_neg, habs]
      congr 1
      ring
    rw [truncateAt, if_pos hnegq, if_pos hneg, hceil, Int.cast_neg, Int.cast_natCast]
  · have habs : (n.natAbs : ℚ) = n := by
      rw [Nat.cast_natAbs, abs_of_nonneg (not_lt.mp hneg)]
    have hnonneg : ¬(n : ℚ) / 10 ^ scale < 0 := by
      rw [← habs, not_lt]
      positivity
    rw [truncateAt, if_neg hnonneg, if_neg hneg, ← habs, hfloor, Int.cast_natCast]

/-- **The text is the amount**, cut toward zero to at most six places, and it starts with `-` exactly
where the amount is negative. -/
theorem formatTokenAmount_denotes {amount : String} {n decimals : ℤ}
    (hn : Numeral.bigInt 10 amount.toList = some n) (h0 : 0 ≤ decimals) (h30 : decimals ≤ 30) :
    decimalValue (formatTokenAmount amount decimals).toList =
        some (truncateAt 6 (n / 10 ^ decimals.toNat)) ∧
      (∀ frac, afterPoint (formatTokenAmount amount decimals).toList = some frac →
        frac.length ≤ 6) ∧
      ((formatTokenAmount amount decimals).toList.head? = some '-' ↔ n < 0) := by
  have hdigits := digits_amountDigits n.natAbs decimals.toNat
  have hvalue := unsignedValue_withPoint (n.natAbs / 10 ^ decimals.toNat) hdigits
  have hlength : ∀ frac, afterPoint (withPoint (n.natAbs / 10 ^ decimals.toNat)
      (amountDigits n.natAbs decimals.toNat)) = some frac → frac.length ≤ 6 := by
    intro frac hfrac
    rw [afterPoint_withPoint _ hdigits] at hfrac
    split_ifs at hfrac
    rw [← Option.some.inj hfrac]
    exact List.length_take_le _ _
  rw [fraction_amountDigits] at hvalue
  rw [formatTokenAmount_eq hn h0 h30, truncateAt_tokens]
  by_cases hneg : n < 0
  · rw [if_pos hneg, if_pos hneg, List.singleton_append]
    refine ⟨?_, ?_, iff_of_true rfl hneg⟩
    · rw [decimalValue_neg, hvalue, Option.map_some, neg_div]
    · rw [afterPoint_neg]
      exact hlength
  · have hhead := head?_withPoint (n.natAbs / 10 ^ decimals.toNat)
      (amountDigits n.natAbs decimals.toNat)
    rw [if_neg hneg, if_neg hneg, List.nil_append]
    refine ⟨?_, hlength, iff_of_false hhead hneg⟩
    rw [decimalValue, if_neg hhead, hvalue]

/-- Under one token and negative, down to a third place. -/
theorem formatTokenAmount_denotes_small :
    decimalValue (formatTokenAmount "-4000" 6).toList =
        some (truncateAt 6 ((-4000 : ℤ) / 10 ^ (6 : ℤ).toNat)) ∧
      (∀ frac, afterPoint (formatTokenAmount "-4000" 6).toList = some frac → frac.length ≤ 6) ∧
      ((formatTokenAmount "-4000" 6).toList.head? = some '-' ↔ (-4000 : ℤ) < 0) := by
  have hread : Numeral.bigInt 10 "-4000".toList = some (-4000) := by decide
  exact formatTokenAmount_denotes hread (by decide) (by decide)

/-! ## One text for one amount -/

/-- Nothing is cut off, or the last digit that is shown is not a zero. -/
def LastDigitShown (amount scale : ℕ) : Prop :=
  10 ^ scale ∣ amount * 10 ^ 6 ∨ ¬10 ∣ millionths amount scale

theorem dvd_iff (amount scale : ℕ) : 10 ^ scale ∣ amount * 10 ^ 6 ↔
    ∃ m : ℕ, ((amount % 10 ^ scale : ℕ) : ℚ) / 10 ^ scale * 10 ^ 6 = m := by
  have hmod : 10 ^ scale ∣ amount * 10 ^ 6 ↔ 10 ^ scale ∣ amount % 10 ^ scale * 10 ^ 6 := by
    rw [Nat.dvd_iff_mod_eq_zero, Nat.dvd_iff_mod_eq_zero, Nat.mod_mul_mod]
  have hm : ∀ m : ℕ, ((amount % 10 ^ scale : ℕ) : ℚ) / 10 ^ scale * 10 ^ 6 = m ↔
      amount % 10 ^ scale * 10 ^ 6 = 10 ^ scale * m := by
    intro m
    rw [div_mul_eq_mul_div, div_eq_iff (by positivity), mul_comm (m : ℚ)]
    exact_mod_cast Iff.rfl
  simp only [hm]
  exact hmod

theorem amountDigits_spec (amount scale : ℕ) :
    ((amountDigits amount scale).getLast? ≠ some '0' ↔ LastDigitShown amount scale) ∧
      (¬LastDigitShown amount scale → (amountDigits amount scale).length = 6) := by
  have hz := getLast?_rdropWhile (scaleDigits amount scale)
  have hrow : Digits ((scaleDigits amount scale).rdropWhile (· = '0')) :=
    (digits_scaleDigits amount scale).sublist (List.rdropWhile_prefix _ _).sublist
  have hwhole := length_le_iff hrow hz (k := 6)
  rw [fraction_rdropWhile, fraction_scaleDigits, ← dvd_iff] at hwhole
  by_cases hlen : ((scaleDigits amount scale).rdropWhile (· = '0')).length ≤ 6
  · have hlast : LastDigitShown amount scale := .inl (hwhole.mp hlen)
    rw [amountDigits, List.take_of_length_le hlen]
    exact ⟨iff_of_true hz hlast, fun h => absurd hlast h⟩
  · have hcut : ¬10 ^ scale ∣ amount * 10 ^ 6 := fun h => hlen (hwhole.mpr h)
    have hsix : (amountDigits amount scale).length = 6 := by
      rw [amountDigits, List.length_take]
      omega
    have hne : amountDigits amount scale ≠ [] := List.ne_nil_of_length_pos (by omega)
    have hvalue := fraction_amountDigits amount scale
    rw [fraction, hsix] at hvalue
    have hnat : amount / 10 ^ scale * 10 ^ 6 + Nat.ofDigitChars 10 (amountDigits amount scale) 0 =
        millionths amount scale := by
      field_simp at hvalue
      exact_mod_cast hvalue
    refine ⟨?_, fun _ => hsix⟩
    rw [ne_eq, getLast?_eq_zero_iff (digits_amountDigits amount scale) hne, LastDigitShown]
    have hmod : 10 ∣ Nat.ofDigitChars 10 (amountDigits amount scale) 0 ↔
        10 ∣ millionths amount scale := by omega
    rw [hmod]
    exact ⟨.inr, fun h => h.resolve_left hcut⟩

theorem afterPoint_formatTokenAmount {amount : String} {n decimals : ℤ}
    (hn : Numeral.bigInt 10 amount.toList = some n) (h0 : 0 ≤ decimals) (h30 : decimals ≤ 30) :
    afterPoint (formatTokenAmount amount decimals).toList =
      if amountDigits n.natAbs decimals.toNat = [] then none
      else some (amountDigits n.natAbs decimals.toNat) := by
  rw [formatTokenAmount_eq hn h0 h30,
    ← afterPoint_withPoint (n.natAbs / 10 ^ decimals.toNat) (digits_amountDigits _ _)]
  by_cases hneg : n < 0
  · rw [if_pos hneg, List.singleton_append, afterPoint_neg]
  · rw [if_neg hneg, List.nil_append]

theorem endsInZero_iff {amount : String} {n decimals : ℤ}
    (hn : Numeral.bigInt 10 amount.toList = some n) (h0 : 0 ≤ decimals) (h30 : decimals ≤ 30) :
    (∀ frac, afterPoint (formatTokenAmount amount decimals).toList = some frac →
      frac.getLast? ≠ some '0') ↔ LastDigitShown n.natAbs decimals.toNat := by
  rw [afterPoint_formatTokenAmount hn h0 h30, ← (amountDigits_spec _ _).1]
  by_cases hempty : amountDigits n.natAbs decimals.toNat = []
  · rw [if_pos hempty, hempty]
    exact iff_of_true nofun nofun
  · rw [if_neg hempty]
    exact ⟨fun h => h _ rfl, fun h frac hfrac => Option.some.inj hfrac ▸ h⟩

theorem amountDigits_congr {amount amount' scale scale' : ℕ}
    (h : millionths amount scale = millionths amount' scale')
    (hlast : LastDigitShown amount scale ↔ LastDigitShown amount' scale') :
    amount / 10 ^ scale = amount' / 10 ^ scale' ∧
      amountDigits amount scale = amountDigits amount' scale' := by
  have hwhole : ∀ a s : ℕ, millionths a s / 10 ^ 6 = a / 10 ^ s := by
    intro a s
    rw [millionths, Nat.div_div_eq_div_mul, Nat.mul_comm (10 ^ s), Nat.mul_comm a]
    exact Nat.mul_div_mul_left a (10 ^ s) (by positivity)
  have hwholes : amount / 10 ^ scale = amount' / 10 ^ scale' := by
    rw [← hwhole amount scale, h, hwhole]
  have hfraction : fraction (amountDigits amount scale) = fraction (amountDigits amount' scale') := by
    have hleft := fraction_amountDigits amount scale
    have hright := fraction_amountDigits amount' scale'
    rw [hwholes, h, ← hright] at hleft
    exact add_left_cancel hleft
  have hdigits := digits_amountDigits amount scale
  have hdigits' := digits_amountDigits amount' scale'
  obtain ⟨hzero, hsix⟩ := amountDigits_spec amount scale
  obtain ⟨hzero', hsix'⟩ := amountDigits_spec amount' scale'
  refine ⟨hwholes, ?_⟩
  by_cases hshown : LastDigitShown amount scale
  · exact eq_of_fraction_eq hdigits hdigits' (hzero.mpr hshown) (hzero'.mpr (hlast.mp hshown)) hfraction
  · have hlen := hsix hshown
    have hlen' := hsix' fun h' => hshown (hlast.mpr h')
    refine eq_of_ofDigitChars_eq hdigits hdigits' (hlen.trans hlen'.symm) ?_
    rw [fraction, fraction, hlen, hlen'] at hfraction
    have hvalue := (div_left_inj' (by positivity)).mp hfraction
    exact_mod_cast hvalue

/-- **No text ends in a zero** after its point exactly where nothing is cut off or the last digit
shown is not a zero. Amounts of one sign that are the same to six places are shown by the same text
exactly where that holds of both or of neither. -/
theorem formatTokenAmount_canonical {amount : String} {n decimals : ℤ}
    (hn : Numeral.bigInt 10 amount.toList = some n) (h0 : 0 ≤ decimals) (h30 : decimals ≤ 30) :
    ((∀ frac, afterPoint (formatTokenAmount amount decimals).toList = some frac →
        frac.getLast? ≠ some '0') ↔ LastDigitShown n.natAbs decimals.toNat) ∧
      ∀ (amount' : String) (n' decimals' : ℤ), Numeral.bigInt 10 amount'.toList = some n' →
        0 ≤ decimals' → decimals' ≤ 30 → n.sign = n'.sign →
        truncateAt 6 (n / 10 ^ decimals.toNat) = truncateAt 6 (n' / 10 ^ decimals'.toNat) →
          (formatTokenAmount amount decimals = formatTokenAmount amount' decimals' ↔
            (LastDigitShown n.natAbs decimals.toNat ↔ LastDigitShown n'.natAbs decimals'.toNat)) := by
  refine ⟨endsInZero_iff hn h0 h30, fun amount' n' decimals' hn' h0' h30' hsign hsame => ?_⟩
  refine ⟨fun htext => ?_, fun hlast => ?_⟩
  · rw [← endsInZero_iff hn h0 h30, ← endsInZero_iff hn' h0' h30', htext]
  · have hneg : n < 0 ↔ n' < 0 := by
      rw [← Int.sign_eq_neg_one_iff_neg, hsign, Int.sign_eq_neg_one_iff_neg]
    have hmillionths : millionths n.natAbs decimals.toNat = millionths n'.natAbs decimals'.toNat := by
      rw [truncateAt_tokens, truncateAt_tokens, div_left_inj' (by positivity)] at hsame
      by_cases hn0 : n < 0
      · rw [if_pos hn0, if_pos (hneg.mp hn0), neg_inj] at hsame
        exact_mod_cast hsame
      · rw [if_neg hn0, if_neg fun h => hn0 (hneg.mpr h)] at hsame
        exact_mod_cast hsame
    obtain ⟨hwhole, hdigits⟩ := amountDigits_congr hmillionths hlast
    refine String.toList_inj.mp ?_
    rw [formatTokenAmount_eq hn h0 h30, formatTokenAmount_eq hn' h0' h30', hwhole, hdigits]
    simp only [hneg]

/-- Two amounts with nothing below their sixth place, on scales of six and of nine. -/
theorem formatTokenAmount_canonical_scales :
    ((∀ frac, afterPoint (formatTokenAmount "1500000" 6).toList = some frac →
        frac.getLast? ≠ some '0') ↔ LastDigitShown 1500000 6) ∧
      formatTokenAmount "1500000" 6 = formatTokenAmount "1500000000" 9 := by
  have hread : Numeral.bigInt 10 "1500000".toList = some 1500000 := by decide
  have hread' : Numeral.bigInt 10 "1500000000".toList = some 1500000000 := by decide
  have h := @formatTokenAmount_canonical _ _ 6 hread (by decide) (by decide)
  have hsix : LastDigitShown 1500000 6 := .inl (by decide)
  have hnine : LastDigitShown 1500000000 9 := .inl (by decide)
  have hsame : truncateAt 6 ((1500000 : ℤ) / 10 ^ (6 : ℤ).toNat) =
      truncateAt 6 ((1500000000 : ℤ) / 10 ^ (9 : ℤ).toNat) := by
    have hsix : (6 : ℤ).toNat = 6 := rfl
    have hnine : (9 : ℤ).toNat = 9 := rfl
    rw [hsix, hnine, truncateAt_tokens, truncateAt_tokens]
    norm_num [millionths]
  exact ⟨h.1, (h.2 "1500000000" 1500000000 9 hread' (by decide) (by decide) rfl hsame).mpr
    (iff_of_true hsix hnine)⟩

/-- **A zero is left at the end** where it is cut before a digit that is not one: two amounts that
are both one token to six places are shown differently. -/
theorem formatTokenAmount_zeros :
    formatTokenAmount "1000000001" 9 = "1.000000" ∧ formatTokenAmount "1000000000" 9 = "1" ∧
      afterPoint (formatTokenAmount "1000000001" 9).toList = some ['0', '0', '0', '0', '0', '0'] ∧
      truncateAt 6 ((1000000001 : ℤ) / 10 ^ 9) = truncateAt 6 ((1000000000 : ℤ) / 10 ^ 9) := by
  have hshown : formatTokenAmount "1000000001" 9 = "1.000000" := by decide +kernel
  refine ⟨hshown, by decide +kernel, ?_, ?_⟩
  · rw [hshown]
    decide
  · rw [truncateAt_tokens, truncateAt_tokens]
    norm_num [millionths]

end ChainExplorer
