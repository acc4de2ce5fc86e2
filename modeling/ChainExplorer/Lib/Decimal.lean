import Mathlib.Data.String.Basic
import Mathlib.Data.Prod.Lex
import Mathlib.Data.Nat.Digits.Defs
import Mathlib.Tactic.Ring

/-!
# The order of decimals

* **`repr_lt_repr`**: decimals are ordered by their length and then as texts.
-/

namespace Decimal

theorem ofDigitChars_lt {l : List Char} (hl : ∀ c ∈ l, c.isDigit = true) :
    Nat.ofDigitChars 10 l 0 < 10 ^ l.length := by
  induction l with
  | nil => simp [Nat.ofDigitChars_nil]
  | cons c l ih =>
    have hc := Char.isDigit_iff_toNat.mp (hl c List.mem_cons_self)
    have hrest := ih fun c' hc' => hl c' (List.mem_cons_of_mem _ hc')
    rw [Nat.ofDigitChars_cons, Nat.ofDigitChars_eq_ofDigitChars_zero, List.length_cons, pow_succ]
    have h48 : ('0').toNat = 48 := rfl
    have h57 : ('9').toNat = 57 := rfl
    have hdigit : 10 * 0 + (c.toNat - ('0').toNat) ≤ 9 := by omega
    calc 10 ^ l.length * (10 * 0 + (c.toNat - ('0').toNat)) + Nat.ofDigitChars 10 l 0
        < 10 ^ l.length * 9 + 10 ^ l.length := by
          exact Nat.add_lt_add_of_le_of_lt (Nat.mul_le_mul_left _ hdigit) hrest
      _ = 10 ^ l.length * 10 := by ring

/-- Of rows of digits of one length, the one that comes first as a text is the smaller number. -/
theorem lt_of_ofDigitChars_lt : ∀ {l l' : List Char}, l.length = l'.length →
    (∀ c ∈ l, c.isDigit = true) → (∀ c ∈ l', c.isDigit = true) → ∀ {acc : ℕ},
      Nat.ofDigitChars 10 l acc < Nat.ofDigitChars 10 l' acc → l < l'
  | [], [], _, _, _, acc, h => absurd h (lt_irrefl _)
  | c :: l, c' :: l', hlength, hl, hl', acc, h => by
    have hrest := fun c hc => hl c (List.mem_cons_of_mem _ hc)
    have hrest' := fun c hc => hl' c (List.mem_cons_of_mem _ hc)
    have hlen : l.length = l'.length := Nat.succ.inj hlength
    rw [Nat.ofDigitChars_cons, Nat.ofDigitChars_cons] at h
    rcases lt_trichotomy c c' with hlt | rfl | hgt
    · exact List.cons_lt_cons_iff.mpr (.inl hlt)
    · exact List.cons_lt_cons_iff.mpr (.inr ⟨rfl, lt_of_ofDigitChars_lt hlen hrest hrest' h⟩)
    · -- A larger first digit makes the larger number.
      have hc := Char.isDigit_iff_toNat.mp (hl c List.mem_cons_self)
      have hc' := Char.isDigit_iff_toNat.mp (hl' c' List.mem_cons_self)
      have hnat : c'.toNat < c.toNat := hgt
      have h48 : ('0').toNat = 48 := rfl
      have hstep : 10 * acc + (c'.toNat - ('0').toNat) + 1 ≤ 10 * acc + (c.toNat - ('0').toNat) := by
        omega
      have hbound := ofDigitChars_lt hrest'
      have hmul := Nat.mul_le_mul_left (10 ^ l'.length) hstep
      rw [Nat.ofDigitChars_eq_ofDigitChars_zero (l := l),
        Nat.ofDigitChars_eq_ofDigitChars_zero (l := l'), hlen] at h
      rw [Nat.mul_add, Nat.mul_one] at hmul
      omega

/-- **Decimals are ordered by length and then as texts.** -/
theorem repr_lt_repr {m n : ℕ} (h : m < n) :
    toLex (m.repr.length, m.repr) < toLex (n.repr.length, n.repr) := by
  have hlen : ∀ k : ℕ, k.repr.length = (Nat.toDigits 10 k).length := by
    intro k
    rw [← String.length_toList, Nat.toList_repr]
  have hle : (Nat.toDigits 10 m).length ≤ (Nat.toDigits 10 n).length := by
    have hpos : 0 < (Nat.toDigits 10 n).length := Nat.length_toDigits_pos
    have hn : n < 10 ^ (Nat.toDigits 10 n).length :=
      (Nat.length_toDigits_le_iff (by decide) hpos).mp le_rfl
    exact (Nat.length_toDigits_le_iff (by decide) hpos).mpr (h.trans hn)
  rw [Prod.Lex.toLex_lt_toLex]
  rcases hle.lt_or_eq with hlt | heq
  · left
    simp only [hlen]
    exact hlt
  · right
    refine ⟨(hlen m).trans (heq.trans (hlen n).symm), ?_⟩
    rw [String.lt_iff_toList_lt, Nat.toList_repr, Nat.toList_repr]
    have hdigits : ∀ k : ℕ, ∀ c ∈ Nat.toDigits 10 k, c.isDigit = true := fun k c hc =>
      Nat.isDigit_of_mem_toDigits (by decide) (by decide) hc
    have hvalues : Nat.ofDigitChars 10 (Nat.toDigits 10 m) 0 <
        Nat.ofDigitChars 10 (Nat.toDigits 10 n) 0 := by
      rw [Nat.ofDigitChars_ten_toDigits, Nat.ofDigitChars_ten_toDigits]
      exact h
    exact lt_of_ofDigitChars_lt heq (hdigits m) (hdigits n) hvalues
end Decimal
