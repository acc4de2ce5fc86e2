import Mathlib.Algebra.Order.Floor.Ring
import Mathlib.Data.Rat.Floor
import Mathlib.Data.List.DropRight
import ChainExplorer.Lib.Decimal
import ChainExplorer.Lib.Numeral

/-!
# Decimal fractions

The digits after a point, and the number a text with a point denotes.

* `fraction`: the number below one that some digits are.
* `decimalValue`: the number a text denotes; `withPoint`, `afterPoint`: such a text and its end.
* `truncateAt`: cut a number to so many places, toward zero.
* **`fraction_take`**: cutting the digits is cutting the number.
* **`eq_of_fraction_eq`**: digits with no zero at the end are those of their number alone.
-/

namespace Fraction

/-- The number below one that some digits are. -/
def fraction (l : List Char) : ℚ := Nat.ofDigitChars 10 l 0 / 10 ^ l.length

/-- Every character is a digit. -/
def Digits (l : List Char) : Prop := ∀ c ∈ l, c.isDigit = true

/-- The number a text without a sign denotes. -/
def unsignedValue (s : List Char) : Option ℚ :=
  match s.splitOn '.' with
  | [whole] => (Numeral.digits 10 whole).map fun w : ℕ => (w : ℚ)
  | [whole, frac] =>
    (Numeral.digits 10 whole).bind fun w : ℕ => (Numeral.digits 10 frac).map fun _ => w + fraction frac
  | _ => none

/-- The number a text denotes: an optional sign, digits, and more digits after a point. -/
def decimalValue (s : List Char) : Option ℚ :=
  if s.head? = some '-' then (unsignedValue s.tail).map fun q => -q else unsignedValue s

/-- What follows the point of a text, when it has one. -/
def afterPoint (s : List Char) : Option (List Char) :=
  match s.splitOn '.' with
  | [_, frac] => some frac
  | _ => none

/-- A number and, where there are any, the digits after its point. -/
def withPoint (whole : ℕ) (frac : List Char) : List Char :=
  (toString whole).toList ++ if frac = [] then [] else '.' :: frac

/-- Cut a number to `k` decimal places, toward zero. -/
def truncateAt (k : ℕ) (q : ℚ) : ℚ :=
  (if q < 0 then ⌈q * 10 ^ k⌉ else ⌊q * 10 ^ k⌋ : ℤ) / 10 ^ k

/-! ## Digits -/

theorem Digits.append {l l' : List Char} (h : Digits l) (h' : Digits l') : Digits (l ++ l') := by
  intro c hc
  rcases List.mem_append.mp hc with hc | hc
  · exact h c hc
  · exact h' c hc

theorem Digits.sublist {l l' : List Char} (h : Digits l) (hsub : l'.Sublist l) : Digits l' :=
  fun c hc => h c (hsub.subset hc)

theorem digits_toString (n : ℕ) : Digits (toString n).toList := fun _ hc =>
  Numeral.isDigit_of_mem_repr hc

theorem digits_replicate (n : ℕ) : Digits (List.replicate n '0') := by
  intro c hc
  rw [List.eq_of_mem_replicate hc]
  rfl

theorem fraction_nonneg (l : List Char) : 0 ≤ fraction l := by
  unfold fraction
  positivity

theorem fraction_lt_one {l : List Char} (h : Digits l) : fraction l < 1 := by
  have hlt := Decimal.ofDigitChars_lt h
  rw [fraction, div_lt_one (by positivity)]
  exact_mod_cast hlt

theorem ofDigitChars_append (l l' : List Char) :
    Nat.ofDigitChars 10 (l ++ l') 0 =
      Nat.ofDigitChars 10 l 0 * 10 ^ l'.length + Nat.ofDigitChars 10 l' 0 := by
  rw [Nat.ofDigitChars_append, Nat.ofDigitChars_eq_ofDigitChars_zero (l := l'), Nat.mul_comm]

theorem fraction_append (l l' : List Char) :
    fraction (l ++ l') = fraction l + fraction l' / 10 ^ l.length := by
  unfold fraction
  rw [ofDigitChars_append, List.length_append, pow_add]
  push_cast
  field_simp

theorem ofDigitChars_replicate (n : ℕ) : Nat.ofDigitChars 10 (List.replicate n '0') 0 = 0 := by
  induction n with
  | zero => simp [Nat.ofDigitChars_nil]
  | succ n ih =>
    rw [List.replicate_succ, Nat.ofDigitChars_cons]
    exact ih

theorem fraction_append_zeros (l : List Char) (n : ℕ) :
    fraction (l ++ List.replicate n '0') = fraction l := by
  have hzero : fraction (List.replicate n '0') = 0 := by
    rw [fraction, ofDigitChars_replicate, Nat.cast_zero, zero_div]
  rw [fraction_append, hzero, zero_div, add_zero]

theorem rdropWhile_append_zeros (l : List Char) :
    ∃ n, l = l.rdropWhile (· = '0') ++ List.replicate n '0' := by
  induction l using List.reverseRecOn with
  | nil => exact ⟨0, rfl⟩
  | append_singleton l c ih =>
    by_cases hc : c = '0'
    · obtain ⟨n, hn⟩ := ih
      refine ⟨n + 1, ?_⟩
      have hdrop : (l ++ [c]).rdropWhile (· = '0') = l.rdropWhile (· = '0') := by
        simp [hc]
      rw [hdrop, List.replicate_succ', ← List.append_assoc, ← hn, hc]
    · refine ⟨0, ?_⟩
      simp [hc]

theorem fraction_rdropWhile (l : List Char) : fraction (l.rdropWhile (· = '0')) = fraction l := by
  obtain ⟨n, hn⟩ := rdropWhile_append_zeros l
  conv_rhs => rw [hn, fraction_append_zeros]

/-- **Cutting the digits is cutting the number.** -/
theorem fraction_take {l : List Char} (h : Digits l) (k : ℕ) :
    fraction (l.take k) = (⌊fraction l * 10 ^ k⌋ : ℤ) / 10 ^ k := by
  by_cases hk : l.length ≤ k
  · -- Nothing is cut, and the number has `k` places already.
    rw [List.take_of_length_le hk]
    have hint : fraction l * 10 ^ k =
        ((Nat.ofDigitChars 10 l 0 * 10 ^ (k - l.length) : ℕ) : ℤ) := by
      have hpow : (10 : ℚ) ^ k = 10 ^ l.length * 10 ^ (k - l.length) := by
        rw [← pow_add, Nat.add_sub_cancel' hk]
      rw [fraction, hpow]
      push_cast
      field_simp
    rw [hint, Int.floor_intCast, ← hint]
    field_simp
  · have hlen : (l.take k).length = k := List.length_take_of_le (by omega)
    have hsplit : fraction l = fraction (l.take k) + fraction (l.drop k) / 10 ^ k := by
      conv_lhs => rw [← List.take_append_drop k l, fraction_append, hlen]
    have hlow : 0 ≤ fraction (l.drop k) := fraction_nonneg _
    have hhigh : fraction (l.drop k) < 1 := fraction_lt_one (h.sublist (List.drop_sublist k l))
    have hfloor : ⌊fraction l * 10 ^ k⌋ = (Nat.ofDigitChars 10 (l.take k) 0 : ℤ) := by
      rw [Int.floor_eq_iff]
      have hscaled : fraction l * 10 ^ k =
          (Nat.ofDigitChars 10 (l.take k) 0 : ℚ) + fraction (l.drop k) := by
        rw [hsplit, fraction, hlen]
        field_simp
      rw [hscaled]
      constructor
      · push_cast
        linarith
      · push_cast
        linarith
    rw [hfloor, fraction, hlen]
    push_cast
    rfl

/-! ## Texts -/

theorem Digits.not_mem {l : List Char} (h : Digits l) {c : Char} (hc : c.isDigit = false) :
    c ∉ l := by
  intro hmem
  rw [h c hmem] at hc
  exact Bool.noConfusion hc

theorem splitOn_withPoint (whole : ℕ) {frac : List Char} (h : Digits frac) :
    (withPoint whole frac).splitOn '.' =
      (toString whole).toList :: if frac = [] then [] else [frac] := by
  have hwhole : '.' ∉ (toString whole).toList := (digits_toString whole).not_mem (by decide)
  by_cases hfrac : frac = []
  · rw [withPoint, if_pos hfrac, if_pos hfrac, List.append_nil, List.splitOn_eq_singleton hwhole]
  · rw [withPoint, if_neg hfrac, if_neg hfrac, List.splitOn_append_cons_self_of_not_mem hwhole,
      List.splitOn_eq_singleton (h.not_mem (by decide))]

theorem digits_eq_some {l : List Char} (h : Digits l) (hne : l ≠ []) :
    Numeral.digits 10 l = some (Nat.ofDigitChars 10 l 0) := by
  rw [Numeral.digits, if_neg hne, Numeral.foldlM_digits Numeral.plainStep_digit l h]

theorem unsignedValue_withPoint (whole : ℕ) {frac : List Char} (h : Digits frac) :
    unsignedValue (withPoint whole frac) = some (whole + fraction frac) := by
  have hwhole : Numeral.digits 10 (toString whole).toList = some whole := Numeral.digits_repr whole
  rw [unsignedValue, splitOn_withPoint whole h]
  by_cases hfrac : frac = []
  · have hzero : fraction ([] : List Char) = 0 := by simp [fraction]
    rw [if_pos hfrac, hfrac, hzero, add_zero]
    simp only [hwhole, Option.map_some]
  · rw [if_neg hfrac]
    simp only [hwhole, Option.bind_some, digits_eq_some h hfrac, Option.map_some]

theorem afterPoint_withPoint (whole : ℕ) {frac : List Char} (h : Digits frac) :
    afterPoint (withPoint whole frac) = if frac = [] then none else some frac := by
  rw [afterPoint, splitOn_withPoint whole h]
  by_cases hfrac : frac = []
  · rw [if_pos hfrac, if_pos hfrac]
  · rw [if_neg hfrac, if_neg hfrac]

theorem afterPoint_neg (s : List Char) : afterPoint ('-' :: s) = afterPoint s := by
  have hne : ('-' == '.') = false := by decide
  rw [afterPoint, afterPoint, List.splitOn_cons_eq_if_modifyHead, hne]
  rcases s.splitOn '.' with _ | ⟨whole, _ | ⟨frac, _ | ⟨more, rest⟩⟩⟩ <;> rfl

theorem decimalValue_neg (s : List Char) :
    decimalValue ('-' :: s) = (unsignedValue s).map fun q => -q := by
  rw [decimalValue, if_pos List.head?_cons, List.tail_cons]

theorem head?_withPoint (whole : ℕ) (frac : List Char) :
    (withPoint whole frac).head? ≠ some '-' := by
  obtain ⟨c, cs, hc, hdigit⟩ := Numeral.exists_repr_cons whole
  have htext : (toString whole).toList = c :: cs := hc
  rw [withPoint, htext, List.cons_append, List.head?_cons]
  rintro ⟨⟩
  exact absurd hdigit (by decide)

/-! ## Digits of a number -/

theorem getLast?_rdropWhile (l : List Char) :
    (l.rdropWhile (· = '0')).getLast? ≠ some '0' := by
  intro h
  have hne : l.rdropWhile (· = '0') ≠ [] := by
    intro hnil
    rw [hnil] at h
    exact absurd h nofun
  have hlast := List.rdropWhile_last_not (· = '0') l hne
  rw [List.getLast?_eq_some_getLast hne, Option.some_inj] at h
  exact hlast (decide_eq_true h)

theorem eq_of_ofDigitChars_eq {l l' : List Char} (hl : Digits l) (hl' : Digits l')
    (hlen : l.length = l'.length) (h : Nat.ofDigitChars 10 l 0 = Nat.ofDigitChars 10 l' 0) :
    l = l' := by
  induction l using List.reverseRecOn generalizing l' with
  | nil => exact (List.length_eq_zero_iff.mp hlen.symm).symm
  | append_singleton l c ih =>
    cases l' using List.reverseRecOn with
    | nil => simp at hlen
    | append_singleton l' c' =>
      have hc := Char.isDigit_iff_toNat.mp (hl c (by simp))
      have hc' := Char.isDigit_iff_toNat.mp (hl' c' (by simp))
      have h48 : ('0').toNat = 48 := rfl
      have h57 : ('9').toNat = 57 := rfl
      rw [ofDigitChars_append, ofDigitChars_append, Nat.ofDigitChars_cons, Nat.ofDigitChars_cons,
        Nat.ofDigitChars_nil, Nat.ofDigitChars_nil, List.length_singleton, List.length_singleton] at h
      have hlast : c.toNat = c'.toNat := by omega
      have hrest : Nat.ofDigitChars 10 l 0 = Nat.ofDigitChars 10 l' 0 := by omega
      have hlen' : l.length = l'.length := by simpa using hlen
      rw [ih (hl.sublist (List.sublist_append_left l [c]))
        (hl'.sublist (List.sublist_append_left l' [c'])) hlen' hrest, Char.toNat_inj.mp hlast]

theorem getLast?_eq_zero_iff {l : List Char} (hl : Digits l) (hne : l ≠ []) :
    l.getLast? = some '0' ↔ 10 ∣ Nat.ofDigitChars 10 l 0 := by
  cases l using List.reverseRecOn with
  | nil => exact absurd rfl hne
  | append_singleton l c =>
    have hc := Char.isDigit_iff_toNat.mp (hl c (by simp))
    have h48 : ('0').toNat = 48 := rfl
    have h57 : ('9').toNat = 57 := rfl
    rw [List.getLast?_concat, Option.some_inj, ofDigitChars_append, Nat.ofDigitChars_cons,
      Nat.ofDigitChars_nil, List.length_singleton, ← Char.toNat_inj]
    omega

/-- Digits with no zero at the end are no more than the places of their number. -/
theorem length_le_of_fraction {l : List Char} (hl : Digits l) (hz : l.getLast? ≠ some '0') {k m : ℕ}
    (h : fraction l * 10 ^ k = m) : l.length ≤ k := by
  by_contra hlt
  rw [not_le] at hlt
  have hne : l ≠ [] := List.ne_nil_of_length_pos (by omega)
  refine hz ((getLast?_eq_zero_iff hl hne).mpr ?_)
  obtain ⟨d, hd⟩ := Nat.exists_eq_add_of_lt hlt
  have hvalue : Nat.ofDigitChars 10 l 0 = m * 10 ^ (d + 1) := by
    rw [fraction, hd, Nat.add_assoc, pow_add] at h
    have hq : (Nat.ofDigitChars 10 l 0 : ℚ) = m * 10 ^ (d + 1) := by
      field_simp at h
      rw [h, mul_comm]
    exact_mod_cast hq
  rw [hvalue, pow_succ]
  exact ⟨m * 10 ^ d, by ring⟩

theorem length_le_iff {l : List Char} (hl : Digits l) (hz : l.getLast? ≠ some '0') {k : ℕ} :
    l.length ≤ k ↔ ∃ m : ℕ, fraction l * 10 ^ k = m := by
  refine ⟨fun hk => ⟨Nat.ofDigitChars 10 l 0 * 10 ^ (k - l.length), ?_⟩,
    fun ⟨m, hm⟩ => length_le_of_fraction hl hz hm⟩
  have hpow : (10 : ℚ) ^ k = 10 ^ l.length * 10 ^ (k - l.length) := by
    rw [← pow_add, Nat.add_sub_cancel' hk]
  rw [fraction, hpow]
  push_cast
  field_simp

/-- **Digits with no zero at the end** are those of their number alone. -/
theorem eq_of_fraction_eq {l l' : List Char} (hl : Digits l) (hl' : Digits l')
    (hz : l.getLast? ≠ some '0') (hz' : l'.getLast? ≠ some '0') (h : fraction l = fraction l') :
    l = l' := by
  have hplaces : ∀ r : List Char, fraction r * 10 ^ r.length = Nat.ofDigitChars 10 r 0 := by
    intro r
    rw [fraction]
    field_simp
  have hlen : l.length = l'.length := by
    refine le_antisymm (length_le_of_fraction hl hz (m := Nat.ofDigitChars 10 l' 0) ?_)
      (length_le_of_fraction hl' hz' (m := Nat.ofDigitChars 10 l 0) ?_)
    · rw [h, hplaces]
    · rw [← h, hplaces]
  refine eq_of_ofDigitChars_eq hl hl' hlen ?_
  have hvalue : (Nat.ofDigitChars 10 l 0 : ℚ) = Nat.ofDigitChars 10 l' 0 := by
    rw [← hplaces l, ← hplaces l', h, hlen]
  exact_mod_cast hvalue

end Fraction
