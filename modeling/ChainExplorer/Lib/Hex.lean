import Mathlib.Data.List.Basic
import Mathlib.Data.UInt

/-!
# Hexadecimal

* `encode`, `decode`: two digits a byte, lowercase when written, either case when read.
* **`decode_encode`**: what is written reads back.
* `decode_take`: the first bytes are those of the first digits.
* **`decode_congr`**: the case of the digits does not matter.
-/

namespace Hex

/-- The value of a hex digit. -/
def nibble? (c : Char) : Option ℕ :=
  if '0' ≤ c ∧ c ≤ '9' then some (c.toNat - 48)
  else if 'a' ≤ c ∧ c ≤ 'f' then some (c.toNat - 87)
  else if 'A' ≤ c ∧ c ≤ 'F' then some (c.toNat - 55)
  else none

/-- The lowercase digit of a value below sixteen. -/
def digit (n : ℕ) : Char := Char.ofNat (if n < 10 then 48 + n else 87 + n)

/-- Two digits a byte, the high half first. -/
def encode (bytes : List UInt8) : List Char :=
  bytes.flatMap fun b => [digit (b.toNat / 16), digit (b.toNat % 16)]

/-- The bytes of a text of hex digits; `none` for an odd length or any other character. -/
def decode : List Char → Option (List UInt8)
  | [] => some []
  | [_] => none
  | a :: b :: rest => do
    let hi ← nibble? a
    let lo ← nibble? b
    let tail ← decode rest
    return UInt8.ofNat (16 * hi + lo) :: tail

theorem nibble?_digit {n : ℕ} (h : n < 16) : nibble? (digit n) = some n := by
  revert n
  decide

theorem toNat_lt_of_nibble? {c : Char} {n : ℕ} (h : nibble? c = some n) : c.toNat < 128 := by
  unfold nibble? at h
  split_ifs at h with h1 h2 h3
  · have h57 : c.toNat ≤ 57 := h1.2
    omega
  · have h102 : c.toNat ≤ 102 := h2.2
    omega
  · have h70 : c.toNat ≤ 70 := h3.2
    omega

theorem encode_cons (b : UInt8) (bs : List UInt8) :
    encode (b :: bs) = digit (b.toNat / 16) :: digit (b.toNat % 16) :: encode bs := rfl

theorem length_encode (bytes : List UInt8) : (encode bytes).length = 2 * bytes.length := by
  induction bytes with
  | nil => rfl
  | cons b bs ih => rw [encode_cons, List.length_cons, List.length_cons, ih, List.length_cons]; omega

/-- **What is written reads back.** -/
theorem decode_encode (bytes : List UInt8) : decode (encode bytes) = some bytes := by
  induction bytes with
  | nil => rfl
  | cons b bs ih =>
    have hb : b.toNat < 256 := b.toNat_lt
    have hi : nibble? (digit (b.toNat / 16)) = some (b.toNat / 16) := nibble?_digit (by omega)
    have lo : nibble? (digit (b.toNat % 16)) = some (b.toNat % 16) := nibble?_digit (by omega)
    have hbyte : UInt8.ofNat (16 * (b.toNat / 16) + b.toNat % 16) = b := by
      rw [Nat.div_add_mod, UInt8.ofNat_toNat]
    rw [encode_cons, decode, hi, lo, ih]
    exact congrArg (fun x => some (x :: bs)) hbyte

theorem exists_digit_of_mem_encode {bytes : List UInt8} {c : Char} (hc : c ∈ encode bytes) :
    ∃ n < 16, c = digit n := by
  obtain ⟨b, -, hb⟩ := List.mem_flatMap.mp hc
  have hlt : b.toNat < 256 := b.toNat_lt
  simp only [List.mem_cons, List.not_mem_nil, or_false] at hb
  rcases hb with rfl | rfl
  · exact ⟨_, by omega, rfl⟩
  · exact ⟨_, by omega, rfl⟩

theorem ascii_of_mem_encode {bytes : List UInt8} {c : Char} (hc : c ∈ encode bytes) :
    c.toNat < 128 := by
  have hdigit : ∀ n < 16, (digit n).toNat < 128 := by decide
  obtain ⟨n, hn, rfl⟩ := exists_digit_of_mem_encode hc
  exact hdigit n hn

/-- **The case of the digits does not matter.** -/
theorem decode_congr {l l' : List Char} (h : l.map nibble? = l'.map nibble?) :
    decode l = decode l' := by
  induction l using decode.induct generalizing l' with
  | case1 => rw [List.map_eq_nil_iff.mp h.symm]
  | case2 a =>
    obtain ⟨a', rfl⟩ : ∃ a', l' = [a'] :=
      List.length_eq_one_iff.mp (by simpa using congrArg List.length h.symm)
    rfl
  | case3 a b rest ih =>
    obtain ⟨a', t, rfl, ha, ht⟩ := List.map_eq_cons_iff.mp h.symm
    obtain ⟨b', rest', rfl, hb, hrest⟩ := List.map_eq_cons_iff.mp ht
    rw [decode, decode, ha, hb, ih hrest.symm]

theorem digits_of_decode {s : List Char} {bytes : List UInt8} (h : decode s = some bytes) :
    s.length = 2 * bytes.length ∧ ∀ c ∈ s, (nibble? c).isSome = true := by
  induction s using decode.induct generalizing bytes with
  | case1 =>
    cases Option.some.inj h
    exact ⟨rfl, nofun⟩
  | case2 a =>
    rw [decode] at h
    exact nomatch h
  | case3 a b rest ih =>
    rw [decode] at h
    obtain ⟨hi, ha, h⟩ := Option.bind_eq_some_iff.mp h
    obtain ⟨lo, hb, h⟩ := Option.bind_eq_some_iff.mp h
    obtain ⟨tail, htail, h⟩ := Option.bind_eq_some_iff.mp h
    cases Option.some.inj h
    obtain ⟨hlength, hall⟩ := ih htail
    refine ⟨?_, ?_⟩
    · rw [List.length_cons, List.length_cons, List.length_cons, hlength]
      omega
    · simp only [List.forall_mem_cons, ha, hb, Option.isSome_some, true_and]
      exact hall

/-- The first bytes are those of the first digits. -/
theorem decode_take {s : List Char} {bytes : List UInt8} (h : decode s = some bytes) (n : ℕ) :
    decode (s.take (2 * n)) = some (bytes.take n) := by
  induction s using decode.induct generalizing bytes n with
  | case1 =>
    cases Option.some.inj h
    rw [List.take_nil, List.take_nil, decode]
  | case2 a =>
    rw [decode] at h
    exact nomatch h
  | case3 a b rest ih =>
    rw [decode] at h
    obtain ⟨hi, ha, h⟩ := Option.bind_eq_some_iff.mp h
    obtain ⟨lo, hb, h⟩ := Option.bind_eq_some_iff.mp h
    obtain ⟨tail, htail, h⟩ := Option.bind_eq_some_iff.mp h
    cases Option.some.inj h
    cases n with
    | zero => rfl
    | succ n =>
      rw [Nat.mul_succ, List.take_succ_cons, List.take_succ_cons, decode, ha, hb, ih htail n]
      rfl

end Hex
