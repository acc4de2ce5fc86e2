import Mathlib.Data.Nat.Digits.Defs
import Mathlib.Data.Int.Notation
import Mathlib.Order.Basic

/-!
# Numerals

Reading an integer of any size from text, with the grammar of a big-integer library: an optional
sign, digits of the radix in either case, and `_` between digits.

* `digitVal`, `bigUint`, `bigInt`: the reader.
* `unsigned`, `signed`: the readers of numbers of a fixed width, with no separators; `natural` and
  `integer` read any size.
* **`bigInt_toString`**, **`signed_toString`**: the decimal of an integer reads back as it.
* **`digits_toDigits`**: so does the hexadecimal of a number.
* `head?_toString`: a decimal starts with `-` exactly when the number is negative.
-/

namespace Numeral

/-- The value of a digit: `0`–`9`, then the letters in either case. -/
def digitVal (c : Char) : Option ℕ :=
  if c.isDigit then some (c.toNat - 48)
  else if 'a' ≤ c ∧ c ≤ 'z' then some (c.toNat - 87)
  else if 'A' ≤ c ∧ c ≤ 'Z' then some (c.toNat - 55)
  else none

/-- One more digit of a number. -/
def plainStep (radix acc : ℕ) (c : Char) : Option ℕ :=
  (digitVal c).bind fun d => if d < radix then some (radix * acc + d) else none

/-- One more character of a number; `_` separates and counts for nothing. -/
def digitStep (radix acc : ℕ) (c : Char) : Option ℕ :=
  if c = '_' then some acc else plainStep radix acc c

/-- Drop a leading sign, unless a `+` follows it. -/
def dropSign (sign : Char) : List Char → List Char
  | [] => []
  | c :: cs => if c = sign ∧ cs.head? ≠ some '+' then cs else c :: cs

/-- An unsigned integer: it holds a character and does not start with a separator. -/
def bigUint (radix : ℕ) (s : List Char) : Option ℕ :=
  let s := dropSign '+' s
  if s = [] ∨ s.head? = some '_' then none else s.foldlM (digitStep radix) 0

/-- A signed integer. -/
def bigInt (radix : ℕ) (s : List Char) : Option ℤ :=
  if s.head? = some '-' then (bigUint radix (dropSign '-' s)).map fun n => -Int.ofNat n
  else (bigUint radix s).map Int.ofNat

/-! ## Numbers of a fixed width -/

/-- Digits and nothing else, and at least one. -/
def digits (radix : ℕ) (s : List Char) : Option ℕ :=
  if s = [] then none else s.foldlM (plainStep radix) 0

/-- An unsigned number up to `max`, with an optional `+`. -/
def unsigned (radix max : ℕ) (s : List Char) : Option ℕ :=
  (digits radix (if s.head? = some '+' then s.tail else s)).filter fun n => n ≤ max

/-- A signed number between `lo` and `hi`, with an optional sign. -/
def signed (radix : ℕ) (lo hi : ℤ) (s : List Char) : Option ℤ :=
  let n :=
    if s.head? = some '-' then (digits radix s.tail).map fun n => -Int.ofNat n
    else (digits radix (if s.head? = some '+' then s.tail else s)).map Int.ofNat
  n.filter fun n => lo ≤ n ∧ n ≤ hi

/-- A number of any size, with an optional `+`. -/
def natural (radix : ℕ) (s : List Char) : Option ℕ :=
  digits radix (if s.head? = some '+' then s.tail else s)

/-- A signed number of any size, with an optional sign. -/
def integer (radix : ℕ) (s : List Char) : Option ℤ :=
  if s.head? = some '-' then (digits radix s.tail).map fun n => -Int.ofNat n
  else (natural radix s).map Int.ofNat

theorem unsigned_eq (radix max : ℕ) (s : List Char) :
    unsigned radix max s = (natural radix s).filter fun n => n ≤ max := rfl

theorem signed_eq (radix : ℕ) (lo hi : ℤ) (s : List Char) :
    signed radix lo hi s = (integer radix s).filter fun n => lo ≤ n ∧ n ≤ hi := rfl

/-! ## Decimals read back -/

theorem plainStep_digit {acc : ℕ} {c : Char} (hc : c.isDigit = true) :
    plainStep 10 acc c = some (10 * acc + (c.toNat - 48)) := by
  have h := Char.isDigit_iff_toNat.mp hc
  have hlt : c.toNat - 48 < 10 := by
    have : ('0').toNat = 48 := rfl
    have : ('9').toNat = 57 := rfl
    omega
  rw [plainStep, digitVal, if_pos hc, Option.bind_some, if_pos hlt]

theorem digitStep_digit {acc : ℕ} {c : Char} (hc : c.isDigit = true) :
    digitStep 10 acc c = some (10 * acc + (c.toNat - 48)) := by
  have hne : c ≠ '_' := by
    rintro rfl
    exact absurd hc (by decide)
  rw [digitStep, if_neg hne, plainStep_digit hc]

/-- Any reader that reads single digits reads a row of them. -/
theorem foldlM_digits {step : ℕ → Char → Option ℕ}
    (hstep : ∀ {acc c}, c.isDigit = true → step acc c = some (10 * acc + (c.toNat - 48)))
    (l : List Char) (hl : ∀ c ∈ l, c.isDigit = true) (acc : ℕ) :
    l.foldlM step acc = some (Nat.ofDigitChars 10 l acc) := by
  induction l generalizing acc with
  | nil => simp [Nat.ofDigitChars_nil]
  | cons c l ih =>
    rw [List.foldlM_cons, hstep (hl c List.mem_cons_self), Nat.ofDigitChars_cons]
    exact ih (fun c' hc' => hl c' (List.mem_cons_of_mem _ hc')) _

theorem isDigit_of_mem_repr {n : ℕ} {c : Char} (hc : c ∈ n.repr.toList) : c.isDigit = true := by
  rw [Nat.toList_repr] at hc
  exact Nat.isDigit_of_mem_toDigits (by decide) (by decide) hc

theorem exists_repr_cons (n : ℕ) : ∃ c cs, n.repr.toList = c :: cs ∧ c.isDigit = true := by
  cases h : n.repr.toList with
  | nil => exact absurd (Nat.toList_repr.symm.trans h) Nat.toDigits_ne_nil
  | cons c cs => exact ⟨c, cs, rfl, isDigit_of_mem_repr (h ▸ List.mem_cons_self)⟩

theorem dropSign_of_ne {sign c : Char} (h : c ≠ sign) (cs : List Char) :
    dropSign sign (c :: cs) = c :: cs := by
  rw [dropSign, if_neg fun hc => h hc.1]

theorem bigUint_repr (n : ℕ) : bigUint 10 n.repr.toList = some n := by
  obtain ⟨c, cs, hn, hc⟩ := exists_repr_cons n
  have hplus : c ≠ '+' := by rintro rfl; exact absurd hc (by decide)
  have hsep : c ≠ '_' := by rintro rfl; exact absurd hc (by decide)
  have hs : dropSign '+' n.repr.toList = n.repr.toList := by rw [hn, dropSign_of_ne hplus]
  rw [bigUint, hs, if_neg (by rw [hn]; simp [hsep]),
    foldlM_digits digitStep_digit _ (fun c hc => isDigit_of_mem_repr hc), Nat.toList_repr,
    Nat.ofDigitChars_ten_toDigits]

theorem digits_repr (n : ℕ) : digits 10 n.repr.toList = some n := by
  obtain ⟨c, cs, hn, -⟩ := exists_repr_cons n
  rw [digits, if_neg (by rw [hn]; exact List.cons_ne_nil c cs),
    foldlM_digits plainStep_digit _ (fun c hc => isDigit_of_mem_repr hc), Nat.toList_repr,
    Nat.ofDigitChars_ten_toDigits]

/-! ## Hexadecimals read back -/

theorem digitVal_digitChar {d : ℕ} (h : d < 16) : digitVal d.digitChar = some d := by
  revert d
  decide

theorem foldlM_toDigits (n : ℕ) : (Nat.toDigits 16 n).foldlM (plainStep 16) 0 = some n := by
  have hstep : ∀ {acc d : ℕ}, d < 16 → plainStep 16 acc d.digitChar = some (16 * acc + d) := by
    intro acc d hd
    rw [plainStep, digitVal_digitChar hd, Option.bind_some, if_pos hd]
  induction n using Nat.strong_induction_on with
  | _ n ih =>
    by_cases hn : n < 16
    · rw [Nat.toDigits_of_lt_base hn, List.foldlM_cons, hstep hn]
      simp
    · rw [Nat.toDigits_of_base_le (by decide) (not_lt.mp hn), List.foldlM_append,
        ih (n / 16) (by omega)]
      simp only [Option.bind_eq_bind, Option.bind_some, List.foldlM_cons, List.foldlM_nil]
      rw [hstep (Nat.mod_lt n (by decide)), Option.bind_some, Nat.div_add_mod]
      rfl

/-- **The hexadecimal of a number reads back as it.** -/
theorem digits_toDigits (n : ℕ) : digits 16 (Nat.toDigits 16 n) = some n := by
  rw [digits, if_neg Nat.toDigits_ne_nil, foldlM_toDigits]

/-! ## Signed decimals -/

/-- A decimal starts with `-` exactly when the number is negative. -/
theorem head?_toString (n : ℤ) : (toString n).toList.head? = some '-' ↔ n < 0 := by
  cases n with
  | ofNat m =>
    obtain ⟨c, cs, hm, hc⟩ := exists_repr_cons m
    have hne : c ≠ '-' := by rintro rfl; exact absurd hc (by decide)
    have hs : (toString (Int.ofNat m)).toList = c :: cs := hm
    rw [hs, List.head?_cons]
    exact iff_of_false (fun h => hne (Option.some.inj h)) (by simp)
  | negSucc m =>
    have hs : (toString (Int.negSucc m)).toList = '-' :: (m + 1).repr.toList := by
      change ("-" ++ (m + 1).repr).toList = _
      rw [String.toList_append]
      rfl
    rw [hs, List.head?_cons]
    exact iff_of_true rfl (Int.negSucc_lt_zero m)

/-- **The decimal of an integer reads back as that integer.** -/
theorem bigInt_toString (n : ℤ) : bigInt 10 (toString n).toList = some n := by
  cases n with
  | ofNat m =>
    have h : ¬ (toString (Int.ofNat m)).toList.head? = some '-' := by
      rw [head?_toString]
      simp
    rw [bigInt, if_neg h]
    change (bigUint 10 m.repr.toList).map _ = _
    rw [bigUint_repr]
    rfl
  | negSucc m =>
    have hs : (toString (Int.negSucc m)).toList = '-' :: (m + 1).repr.toList := by
      change ("-" ++ (m + 1).repr).toList = _
      rw [String.toList_append]
      rfl
    obtain ⟨c, cs, hn, hc⟩ := exists_repr_cons (m + 1)
    have hplus : c ≠ '+' := by rintro rfl; exact absurd hc (by decide)
    have hd : dropSign '-' ('-' :: (m + 1).repr.toList) = (m + 1).repr.toList := by
      rw [dropSign, if_pos ⟨rfl, by rw [hn]; simpa using hplus⟩]
    rw [bigInt, hs, List.head?_cons, if_pos rfl, hd, bigUint_repr]
    rfl

/-- **A decimal in range reads back** as a number of that width. -/
theorem signed_toString {lo hi n : ℤ} (hlo : lo ≤ n) (hhi : n ≤ hi) :
    signed 10 lo hi (toString n).toList = some n := by
  have hrange : decide (lo ≤ n ∧ n ≤ hi) = true := decide_eq_true ⟨hlo, hhi⟩
  cases n with
  | ofNat m =>
    obtain ⟨c, cs, hm, hc⟩ := exists_repr_cons m
    have hs : (toString (Int.ofNat m)).toList = m.repr.toList := rfl
    have hminus : m.repr.toList.head? ≠ some '-' := by
      rw [hm, List.head?_cons]
      rintro ⟨⟩
      exact absurd hc (by decide)
    have hplus : m.repr.toList.head? ≠ some '+' := by
      rw [hm, List.head?_cons]
      rintro ⟨⟩
      exact absurd hc (by decide)
    rw [signed, hs]
    simp only [if_neg hminus, if_neg hplus, digits_repr, Option.map_some, Option.filter_some, hrange,
      if_true]
  | negSucc m =>
    have hs : (toString (Int.negSucc m)).toList = '-' :: (m + 1).repr.toList := by
      change ("-" ++ (m + 1).repr).toList = _
      rw [String.toList_append]
      rfl
    have hneg : -Int.ofNat (m + 1) = Int.negSucc m := rfl
    rw [signed, hs]
    simp only [List.head?_cons, if_true, List.tail_cons, digits_repr, Option.map_some, hneg,
      Option.filter_some, hrange]

theorem unsigned_toString {max n : ℕ} (h : n ≤ max) :
    unsigned 10 max (toString n).toList = some n := by
  obtain ⟨c, cs, hn, hc⟩ := exists_repr_cons n
  have hs : (toString n).toList = n.repr.toList := rfl
  have hplus : n.repr.toList.head? ≠ some '+' := by
    rw [hn, List.head?_cons]
    rintro ⟨⟩
    exact absurd hc (by decide)
  rw [unsigned, hs, if_neg hplus, digits_repr, Option.filter_some, if_pos (decide_eq_true h)]

example : bigInt 10 "-1_000".toList = some (-1000) := by decide
example : bigInt 10 "0x1f".toList = none := by decide

end Numeral
