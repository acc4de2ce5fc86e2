import Mathlib.Data.List.Basic
import Mathlib.Data.UInt

/-!
# Reading UTF-8 that may be broken

* `lossy`: the characters of some bytes; each longest start of a sequence that cannot go on reads as
  one replacement character.
* **`lossy_encode`**: the bytes of a text read as that text.
* `splitBytes`: a text cut after so many bytes.
-/

namespace Utf8

/-- What stands for bytes that are no character. -/
def replacement : Char := Char.ofNat 0xFFFD

/-- A byte inside a sequence. -/
def isContinuation (b : UInt8) : Bool := 0x80 ≤ b && b ≤ 0xBF

/-- The second byte of a sequence of three, which rules out a longer spelling and a surrogate. -/
def isSecondOfThree (b0 b1 : UInt8) : Bool :=
  if b0 == 0xE0 then 0xA0 ≤ b1 && b1 ≤ 0xBF
  else if b0 == 0xED then 0x80 ≤ b1 && b1 ≤ 0x9F
  else isContinuation b1

/-- The second byte of a sequence of four, which rules out a longer spelling and what is past the
last character. -/
def isSecondOfFour (b0 b1 : UInt8) : Bool :=
  if b0 == 0xF0 then 0x90 ≤ b1 && b1 ≤ 0xBF
  else if b0 == 0xF4 then 0x80 ≤ b1 && b1 ≤ 0x8F
  else isContinuation b1

/-- The six bits a continuation byte holds. -/
def low (b : UInt8) : ℕ := b.toNat % 64

/-- **Read bytes as UTF-8**, with a replacement for what is none. -/
def lossy : List UInt8 → List Char
  | [] => []
  | b0 :: rest =>
    if b0 < 0x80 then Char.ofNat b0.toNat :: lossy rest
    else if 0xC2 ≤ b0 && b0 ≤ 0xDF then
      match rest with
      | [] => [replacement]
      | b1 :: rest1 =>
        if isContinuation b1 then Char.ofNat (b0.toNat % 32 * 64 + low b1) :: lossy rest1
        else replacement :: lossy (b1 :: rest1)
    else if 0xE0 ≤ b0 && b0 ≤ 0xEF then
      match rest with
      | [] => [replacement]
      | b1 :: rest1 =>
        if isSecondOfThree b0 b1 then
          match rest1 with
          | [] => [replacement]
          | b2 :: rest2 =>
            if isContinuation b2 then
              Char.ofNat ((b0.toNat % 16 * 64 + low b1) * 64 + low b2) :: lossy rest2
            else replacement :: lossy (b2 :: rest2)
        else replacement :: lossy (b1 :: rest1)
    else if 0xF0 ≤ b0 && b0 ≤ 0xF4 then
      match rest with
      | [] => [replacement]
      | b1 :: rest1 =>
        if isSecondOfFour b0 b1 then
          match rest1 with
          | [] => [replacement]
          | b2 :: rest2 =>
            if isContinuation b2 then
              match rest2 with
              | [] => [replacement]
              | b3 :: rest3 =>
                if isContinuation b3 then
                  Char.ofNat (((b0.toNat % 8 * 64 + low b1) * 64 + low b2) * 64 + low b3) :: lossy rest3
                else replacement :: lossy (b3 :: rest3)
            else replacement :: lossy (b2 :: rest2)
        else replacement :: lossy (b1 :: rest1)
    else replacement :: lossy rest

example : lossy [0x61, 0xC3, 0xA9, 0xE2, 0x82, 0x41, 0xFF] =
    ['a', 'é', replacement, 'A', replacement] := by decide

/-! ## What is no broken reads back -/

section RoundTrip

variable {b0 b1 b2 b3 : UInt8} (rest : List UInt8)

theorem isContinuation_iff {b : UInt8} :
    isContinuation b = true ↔ 0x80 ≤ b.toNat ∧ b.toNat ≤ 0xBF := by
  simp [isContinuation, UInt8.le_iff_toNat_le]

theorem isContinuation_low (n : ℕ) : isContinuation (UInt8.ofNat (n % 64 + 128)) = true := by
  have hlt : n % 64 + 128 < 256 := by omega
  rw [isContinuation_iff, UInt8.toNat_ofNat_of_lt' hlt]
  omega

theorem isSecondOfThree_of (h : 0x80 ≤ b1.toNat ∧ b1.toNat ≤ 0xBF)
    (hlow : b0.toNat = 0xE0 → 0xA0 ≤ b1.toNat) (hhigh : b0.toNat = 0xED → b1.toNat ≤ 0x9F) :
    isSecondOfThree b0 b1 = true := by
  unfold isSecondOfThree
  by_cases h0 : b0 = 0xE0
  · rw [if_pos (beq_iff_eq.mpr h0)]
    have hle := hlow (congrArg UInt8.toNat h0)
    simp [UInt8.le_iff_toNat_le]
    omega
  · rw [if_neg (mt beq_iff_eq.mp h0)]
    by_cases h1 : b0 = 0xED
    · rw [if_pos (beq_iff_eq.mpr h1)]
      have hle := hhigh (congrArg UInt8.toNat h1)
      simp [UInt8.le_iff_toNat_le]
      omega
    · rw [if_neg (mt beq_iff_eq.mp h1), isContinuation_iff]
      exact h

theorem isSecondOfFour_of (h : 0x80 ≤ b1.toNat ∧ b1.toNat ≤ 0xBF)
    (hlow : b0.toNat = 0xF0 → 0x90 ≤ b1.toNat) (hhigh : b0.toNat = 0xF4 → b1.toNat ≤ 0x8F) :
    isSecondOfFour b0 b1 = true := by
  unfold isSecondOfFour
  by_cases h0 : b0 = 0xF0
  · rw [if_pos (beq_iff_eq.mpr h0)]
    have hle := hlow (congrArg UInt8.toNat h0)
    simp [UInt8.le_iff_toNat_le]
    omega
  · rw [if_neg (mt beq_iff_eq.mp h0)]
    by_cases h1 : b0 = 0xF4
    · rw [if_pos (beq_iff_eq.mpr h1)]
      have hle := hhigh (congrArg UInt8.toNat h1)
      simp [UInt8.le_iff_toNat_le]
      omega
    · rw [if_neg (mt beq_iff_eq.mp h1), isContinuation_iff]
      exact h

theorem not_ascii {b : UInt8} (h : 0x80 ≤ b.toNat) : ¬b < 0x80 := by
  have hlimit : (0x80 : UInt8).toNat = 0x80 := rfl
  rw [UInt8.lt_iff_toNat_lt]
  omega

theorem lossy_one (h : b0.toNat < 0x80) :
    lossy (b0 :: rest) = Char.ofNat b0.toNat :: lossy rest := by
  have h0 : b0 < 0x80 := UInt8.lt_iff_toNat_lt.mpr h
  rw [lossy.eq_def]
  simp only [if_pos h0]

theorem lossy_two (h0 : 0xC2 ≤ b0.toNat ∧ b0.toNat ≤ 0xDF) (h1 : isContinuation b1 = true) :
    lossy (b0 :: b1 :: rest) = Char.ofNat (b0.toNat % 32 * 64 + low b1) :: lossy rest := by
  have hascii : ¬b0 < 0x80 := not_ascii (by omega)
  have htwo : (0xC2 ≤ b0 && b0 ≤ 0xDF) = true := by
    simpa [UInt8.le_iff_toNat_le] using h0
  rw [lossy.eq_def]
  simp only [if_neg hascii, if_pos htwo, h1, if_true]

theorem lossy_three (h0 : 0xE0 ≤ b0.toNat ∧ b0.toNat ≤ 0xEF) (h1 : isSecondOfThree b0 b1 = true)
    (h2 : isContinuation b2 = true) :
    lossy (b0 :: b1 :: b2 :: rest) =
      Char.ofNat ((b0.toNat % 16 * 64 + low b1) * 64 + low b2) :: lossy rest := by
  have hascii : ¬b0 < 0x80 := not_ascii (by omega)
  have htwo : ¬(0xC2 ≤ b0 && b0 ≤ 0xDF) = true := by
    simp [UInt8.le_iff_toNat_le]
    omega
  have hthree : (0xE0 ≤ b0 && b0 ≤ 0xEF) = true := by
    simpa [UInt8.le_iff_toNat_le] using h0
  rw [lossy.eq_def]
  simp only [if_neg hascii, if_neg htwo, if_pos hthree, h1, h2, if_true]

theorem lossy_four (h0 : 0xF0 ≤ b0.toNat ∧ b0.toNat ≤ 0xF4) (h1 : isSecondOfFour b0 b1 = true)
    (h2 : isContinuation b2 = true) (h3 : isContinuation b3 = true) :
    lossy (b0 :: b1 :: b2 :: b3 :: rest) =
      Char.ofNat (((b0.toNat % 8 * 64 + low b1) * 64 + low b2) * 64 + low b3) :: lossy rest := by
  have hascii : ¬b0 < 0x80 := not_ascii (by omega)
  have htwo : ¬(0xC2 ≤ b0 && b0 ≤ 0xDF) = true := by
    simp [UInt8.le_iff_toNat_le]
    omega
  have hthree : ¬(0xE0 ≤ b0 && b0 ≤ 0xEF) = true := by
    simp [UInt8.le_iff_toNat_le]
    omega
  have hfour : (0xF0 ≤ b0 && b0 ≤ 0xF4) = true := by
    simpa [UInt8.le_iff_toNat_le] using h0
  rw [lossy.eq_def]
  simp only [if_neg hascii, if_neg htwo, if_neg hthree, if_pos hfour, h1, h2, h3, if_true]

theorem lossy_encodeChar (c : Char) :
    lossy (String.utf8EncodeChar c ++ rest) = c :: lossy rest := by
  have hbyte : ∀ {n : ℕ}, n < 256 → (UInt8.ofNat n).toNat = n := fun h =>
    UInt8.toNat_ofNat_of_lt' h
  have htail : ∀ n : ℕ, (UInt8.ofNat (n % 64 + 128)).toNat = n % 64 + 128 := fun n => hbyte (by omega)
  have hlow : ∀ n : ℕ, low (UInt8.ofNat (n % 64 + 128)) = n % 64 := by
    intro n
    rw [low, htail]
    omega
  have hvalid : c.toNat < 0xD800 ∨ 0xDFFF < c.toNat ∧ c.toNat < 0x110000 := c.valid
  have hback : Char.ofNat c.toNat = c := Char.ofNat_toNat c
  have hnat : c.val.toNat = c.toNat := rfl
  unfold String.utf8EncodeChar
  simp only [hnat]
  by_cases h1 : c.toNat ≤ 0x7f
  · rw [if_pos h1, List.singleton_append, lossy_one, hbyte (by omega), hback]
    rw [hbyte (by omega)]
    omega
  rw [if_neg h1]
  by_cases h2 : c.toNat ≤ 0x7ff
  · rw [if_pos h2]
    have hfirst : (UInt8.ofNat (c.toNat / 64 % 32 + 192)).toNat = c.toNat / 64 % 32 + 192 :=
      hbyte (by omega)
    have hcode : (c.toNat / 64 % 32 + 192) % 32 * 64 + c.toNat % 64 = c.toNat := by omega
    have hlead : 0xC2 ≤ (UInt8.ofNat (c.toNat / 64 % 32 + 192)).toNat ∧
        (UInt8.ofNat (c.toNat / 64 % 32 + 192)).toNat ≤ 0xDF := by omega
    have h := lossy_two rest hlead (isContinuation_low c.toNat)
    rw [hfirst, hlow, hcode, hback] at h
    exact h
  rw [if_neg h2]
  by_cases h3 : c.toNat ≤ 0xffff
  · rw [if_pos h3]
    have hfirst : (UInt8.ofNat (c.toNat / 4096 % 16 + 224)).toNat = c.toNat / 4096 % 16 + 224 :=
      hbyte (by omega)
    have hcode : ((c.toNat / 4096 % 16 + 224) % 16 * 64 + c.toNat / 64 % 64) * 64 + c.toNat % 64 =
        c.toNat := by omega
    have hsecond : isSecondOfThree (UInt8.ofNat (c.toNat / 4096 % 16 + 224))
        (UInt8.ofNat (c.toNat / 64 % 64 + 128)) = true :=
      isSecondOfThree_of (by rw [htail]; omega) (by rw [hfirst, htail]; omega)
        (by rw [hfirst, htail]; omega)
    have hlead : 0xE0 ≤ (UInt8.ofNat (c.toNat / 4096 % 16 + 224)).toNat ∧
        (UInt8.ofNat (c.toNat / 4096 % 16 + 224)).toNat ≤ 0xEF := by omega
    have h := lossy_three rest hlead hsecond (isContinuation_low c.toNat)
    rw [hfirst, hlow, hlow, hcode, hback] at h
    exact h
  · rw [if_neg h3]
    have hfirst : (UInt8.ofNat (c.toNat / 262144 % 8 + 240)).toNat = c.toNat / 262144 % 8 + 240 :=
      hbyte (by omega)
    have hcode : (((c.toNat / 262144 % 8 + 240) % 8 * 64 + c.toNat / 4096 % 64) * 64 +
        c.toNat / 64 % 64) * 64 + c.toNat % 64 = c.toNat := by omega
    have hsecond : isSecondOfFour (UInt8.ofNat (c.toNat / 262144 % 8 + 240))
        (UInt8.ofNat (c.toNat / 4096 % 64 + 128)) = true :=
      isSecondOfFour_of (by rw [htail]; omega) (by rw [hfirst, htail]; omega)
        (by rw [hfirst, htail]; omega)
    have hlead : 0xF0 ≤ (UInt8.ofNat (c.toNat / 262144 % 8 + 240)).toNat ∧
        (UInt8.ofNat (c.toNat / 262144 % 8 + 240)).toNat ≤ 0xF4 := by omega
    have h := lossy_four rest hlead hsecond (isContinuation_low (c.toNat / 64))
      (isContinuation_low c.toNat)
    rw [hfirst, hlow, hlow, hlow, hcode, hback] at h
    exact h

/-- **How the bytes of a character start**: one byte below 128, which is NUL for NUL alone, or a byte
from 192 on and more bytes, all of them continuations. -/
theorem encodeChar_cases (c : Char) :
    (c.toNat < 0x80 ∧ String.utf8EncodeChar c = [UInt8.ofNat c.toNat]) ∨
      ∃ b0 b1 l, String.utf8EncodeChar c = b0 :: b1 :: l ∧ 0xC0 ≤ b0.toNat ∧
        ∀ b ∈ b1 :: l, isContinuation b = true := by
  have hlead : ∀ n : ℕ, 0xC0 ≤ n → n < 256 → 0xC0 ≤ (UInt8.ofNat n).toNat := by
    intro n hn hlt
    rwa [UInt8.toNat_ofNat_of_lt' hlt]
  have hnat : c.val.toNat = c.toNat := rfl
  unfold String.utf8EncodeChar
  simp only [hnat]
  split_ifs with h1 h2 h3
  · exact .inl ⟨by omega, rfl⟩
  · refine .inr ⟨_, _, _, rfl, hlead _ (by omega) (by omega), ?_⟩
    simp only [List.forall_mem_cons, isContinuation_low, List.not_mem_nil, false_implies, implies_true,
      and_self]
  · refine .inr ⟨_, _, _, rfl, hlead _ (by omega) (by omega), ?_⟩
    simp only [List.forall_mem_cons, isContinuation_low, List.not_mem_nil, false_implies, implies_true,
      and_self]
  · refine .inr ⟨_, _, _, rfl, hlead _ (by omega) (by omega), ?_⟩
    simp only [List.forall_mem_cons, isContinuation_low, List.not_mem_nil, false_implies, implies_true,
      and_self]

theorem ne_zero_of_mem_encodeChar {c : Char} (hc : c.toNat ≠ 0) {b : UInt8}
    (hb : b ∈ String.utf8EncodeChar c) : b ≠ 0 := by
  rintro rfl
  rcases encodeChar_cases c with ⟨hlt, heq⟩ | ⟨b0, b1, l, heq, hlead, hcont⟩
  · rw [heq, List.mem_singleton] at hb
    have hbyte : c.toNat < 256 := by omega
    have h := congrArg UInt8.toNat hb
    rw [UInt8.toNat_ofNat_of_lt' hbyte] at h
    exact hc h.symm
  · rw [heq] at hb
    rcases List.mem_cons.mp hb with rfl | hb
    · exact absurd hlead (by decide)
    · exact absurd (hcont 0 hb) (by decide)

/-- **The bytes of a text read as that text.** -/
theorem lossy_encode (s : List Char) : lossy (s.flatMap String.utf8EncodeChar) = s := by
  induction s with
  | nil => rw [List.flatMap_nil, lossy]
  | cons c s ih => rw [List.flatMap_cons, lossy_encodeChar, ih]

end RoundTrip

/-! ## Slices -/

/-- How many bytes a text is. -/
def byteLength (s : List Char) : ℕ := (s.flatMap String.utf8EncodeChar).length

/-- A text cut after `n` bytes; `none` inside a character, or past the end. -/
def splitBytes : ℕ → List Char → Option (List Char × List Char)
  | 0, s => some ([], s)
  | _ + 1, [] => none
  | n + 1, c :: s =>
    if c.utf8Size ≤ n + 1 then (splitBytes (n + 1 - c.utf8Size) s).map fun r => (c :: r.1, r.2)
    else none

example : splitBytes 4 ['€', '€'] = none := by decide

theorem byteLength_cons (c : Char) (s : List Char) :
    byteLength (c :: s) = c.utf8Size + byteLength s := by
  rw [byteLength, List.flatMap_cons, List.length_append, String.length_utf8EncodeChar, byteLength]

theorem byteLength_append (s t : List Char) :
    byteLength (s ++ t) = byteLength s + byteLength t := by
  rw [byteLength, List.flatMap_append, List.length_append, byteLength, byteLength]

theorem length_le_byteLength (s : List Char) : s.length ≤ byteLength s := by
  induction s with
  | nil => exact le_rfl
  | cons c s ih =>
    have hpos := c.utf8Size_pos
    rw [byteLength_cons, List.length_cons]
    omega

theorem utf8Size_of_ascii {c : Char} (h : c.toNat < 128) : c.utf8Size = 1 := by
  have hval : c.val ≤ 0x7f := by
    rw [UInt32.le_iff_toNat_le]
    exact Nat.le_of_lt_succ h
  rw [Char.utf8Size]
  exact if_pos hval

theorem byteLength_ascii {s : List Char} (h : ∀ c ∈ s, c.utf8Size = 1) : byteLength s = s.length := by
  induction s with
  | nil => rfl
  | cons c s ih =>
    have hc := h c List.mem_cons_self
    have htail := ih fun d hd => h d (List.mem_cons_of_mem c hd)
    rw [byteLength_cons, List.length_cons]
    omega

theorem splitBytes_eq_some_iff {n : ℕ} {s a b : List Char} :
    splitBytes n s = some (a, b) ↔ s = a ++ b ∧ byteLength a = n := by
  induction s generalizing n a with
  | nil =>
    cases n with
    | zero =>
      rw [splitBytes, Option.some.injEq, Prod.mk.injEq]
      constructor
      · rintro ⟨rfl, rfl⟩
        exact ⟨rfl, rfl⟩
      · rintro ⟨heq, -⟩
        obtain ⟨rfl, rfl⟩ := List.append_eq_nil_iff.mp heq.symm
        exact ⟨rfl, rfl⟩
    | succ n =>
      simp only [splitBytes, reduceCtorEq, false_iff, not_and]
      intro h
      rw [(List.append_eq_nil_iff.mp h.symm).1]
      exact (Nat.succ_ne_zero n).symm
  | cons c s ih =>
    have hpos := c.utf8Size_pos
    cases n with
    | zero =>
      rw [splitBytes, Option.some.injEq, Prod.mk.injEq]
      constructor
      · rintro ⟨rfl, rfl⟩
        exact ⟨rfl, rfl⟩
      · rintro ⟨heq, hlength⟩
        cases a with
        | nil => exact ⟨rfl, heq⟩
        | cons d a =>
          have hd := d.utf8Size_pos
          rw [byteLength_cons] at hlength
          omega
    | succ n =>
      rw [splitBytes]
      constructor
      · intro h
        split_ifs at h with hle
        obtain ⟨⟨a', b'⟩, hr, heq⟩ := Option.map_eq_some_iff.mp h
        obtain ⟨rfl, rfl⟩ := Prod.mk.inj heq
        obtain ⟨hs, hlength⟩ := ih.mp hr
        refine ⟨congrArg (List.cons c) hs, ?_⟩
        show byteLength (c :: a') = n + 1
        rw [byteLength_cons, hlength]
        omega
      · rintro ⟨heq, hlength⟩
        cases a with
        | nil => exact absurd hlength (Nat.succ_ne_zero n).symm
        | cons d a =>
          rw [List.cons_append] at heq
          obtain ⟨rfl, rfl⟩ := List.cons.inj heq
          rw [byteLength_cons] at hlength
          have hsplit : splitBytes (n + 1 - c.utf8Size) (a ++ b) = some (a, b) :=
            ih.mpr ⟨rfl, by omega⟩
          rw [if_pos (by omega), hsplit]
          rfl

theorem splitBytes_ascii {n : ℕ} {s : List Char} (h : ∀ c ∈ s, c.utf8Size = 1)
    (hn : n ≤ s.length) : splitBytes n s = some (s.take n, s.drop n) := by
  refine splitBytes_eq_some_iff.mpr ⟨(List.take_append_drop n s).symm, ?_⟩
  rw [byteLength_ascii fun c hc => h c (List.mem_of_mem_take hc), List.length_take]
  exact min_eq_left hn

end Utf8
