import Mathlib.Data.List.Basic
import Mathlib.Data.UInt
import Mathlib.Tactic.Ring

/-!
# Numbers as bytes

The first byte is the most significant.

* `value`, `bytes`: the number some bytes are, and the bytes of a number in a given width.
* **`value_bytes`**: a number that fits reads back.
* `value_append`: bytes side by side.
-/

namespace BigEndian

/-- The number some bytes are. -/
def value (l : List UInt8) : ℕ := l.foldl (fun acc b => 256 * acc + b.toNat) 0

/-- The low bytes of a number, `k` of them. -/
def bytes : ℕ → ℕ → List UInt8
  | 0, _ => []
  | k + 1, n => bytes k (n / 256) ++ [UInt8.ofNat (n % 256)]

theorem foldl_eq (l : List UInt8) (acc : ℕ) :
    l.foldl (fun acc b => 256 * acc + b.toNat) acc = acc * 256 ^ l.length + value l := by
  induction l using List.reverseRecOn with
  | nil => simp [value]
  | append_singleton l b ih =>
    have hvalue : value (l ++ [b]) = 256 * value l + b.toNat := by
      rw [value, List.foldl_append]
      rfl
    rw [List.foldl_append, List.foldl_cons, List.foldl_nil, ih, hvalue, List.length_append,
      List.length_singleton, pow_succ]
    ring

/-- **Bytes side by side.** -/
theorem value_append (l l' : List UInt8) :
    value (l ++ l') = value l * 256 ^ l'.length + value l' := by
  rw [value, List.foldl_append, foldl_eq]
  rfl

theorem value_singleton (b : UInt8) : value [b] = b.toNat := by simp [value]

theorem value_lt (l : List UInt8) : value l < 256 ^ l.length := by
  induction l using List.reverseRecOn with
  | nil => simp [value]
  | append_singleton l b ih =>
    have hb : b.toNat < 256 := b.toNat_lt
    rw [value_append, value_singleton, List.length_append, List.length_singleton, pow_one, pow_succ]
    omega

theorem length_bytes (k n : ℕ) : (bytes k n).length = k := by
  induction k generalizing n with
  | zero => rfl
  | succ k ih => rw [bytes, List.length_append, ih, List.length_singleton]

/-- **What is written reads back**, as far as it fits. -/
theorem value_bytes (k n : ℕ) : value (bytes k n) = n % 256 ^ k := by
  induction k generalizing n with
  | zero => simp [bytes, value, Nat.mod_one]
  | succ k ih =>
    have hlow : (UInt8.ofNat (n % 256)).toNat = n % 256 := by
      rw [UInt8.toNat_ofNat']
      exact Nat.mod_mod_of_dvd n (dvd_refl 256)
    rw [bytes, value_append, value_singleton, ih, hlow, List.length_singleton, pow_one, pow_succ,
      Nat.mul_comm (256 ^ k) 256, Nat.mod_mul]
    ring

theorem bytes_add (j k n : ℕ) : bytes (j + k) n = bytes j (n / 256 ^ k) ++ bytes k n := by
  induction k generalizing n with
  | zero => simp [bytes]
  | succ k ih =>
    rw [← Nat.add_assoc, bytes, ih, bytes, List.append_assoc, Nat.div_div_eq_div_mul, pow_succ,
      Nat.mul_comm 256]

theorem value_eq_zero {l : List UInt8} : value l = 0 ↔ ∀ b ∈ l, b = 0 := by
  induction l using List.reverseRecOn with
  | nil => simp [value]
  | append_singleton l b ih =>
    have hb : b.toNat = 0 ↔ b = 0 := UInt8.toNat_inj (b := 0)
    rw [value_append, value_singleton, List.length_singleton, pow_one, Nat.add_eq_zero_iff, hb,
      Nat.mul_eq_zero, or_iff_left (by decide), ih]
    simp only [List.mem_append, List.mem_singleton, or_imp, forall_and, forall_eq]

end BigEndian
