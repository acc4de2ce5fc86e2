import Mathlib.Data.List.Nodup
import Mathlib.Data.Int.Notation
import Mathlib.Algebra.Order.Group.Int
import Mathlib.Data.List.Sort

/-!
# Spans of consecutive integers

* `span a b`: the integers from `a` to `b`, in order; none when `b < a`.
* **`span_append`**: a span is cut anywhere.
* **`eq_span`**: an increasing list of exactly those integers is the span.
* `take_reverse_span`, `drop_reverse_span`: a span read downwards.
-/

/-- The integers from `a` to `b`, in order. -/
def span (a b : ℤ) : List ℤ := (List.range (b - a + 1).toNat).map fun i => a + Int.ofNat i

theorem mem_span {a b n : ℤ} : n ∈ span a b ↔ a ≤ n ∧ n ≤ b := by
  simp only [span, List.mem_map, List.mem_range]
  constructor
  · rintro ⟨i, hi, rfl⟩
    simp only [Int.ofNat_eq_natCast]
    omega
  · rintro ⟨ha, hb⟩
    refine ⟨(n - a).toNat, by omega, ?_⟩
    simp only [Int.ofNat_eq_natCast]
    omega

theorem length_span (a b : ℤ) : (span a b).length = (b - a + 1).toNat := by
  rw [span, List.length_map, List.length_range]

theorem span_of_lt {a b : ℤ} (h : b < a) : span a b = [] := by
  rw [← List.length_eq_zero_iff, length_span]
  omega

theorem pairwise_span (a b : ℤ) : (span a b).Pairwise (· < ·) := by
  rw [span, List.pairwise_map]
  refine List.pairwise_lt_range.imp fun {i j} hij => ?_
  simp only [Int.ofNat_eq_natCast]
  omega

theorem eq_of_pairwise_lt {l l' : List ℤ} (hl : l.Pairwise (· < ·)) (hl' : l'.Pairwise (· < ·))
    (h : ∀ n, n ∈ l ↔ n ∈ l') : l = l' := by
  have hnodup : l.Nodup := hl.imp fun hlt => hlt.ne
  have hnodup' : l'.Nodup := hl'.imp fun hlt => hlt.ne
  have hperm : l.Perm l' := (List.perm_ext_iff_of_nodup hnodup hnodup').mpr h
  exact hperm.eq_of_pairwise (fun a b _ _ hab hba => absurd (hab.trans hba) (lt_irrefl a)) hl hl'

/-- **An increasing list of exactly the integers from `a` to `b` is the span.** -/
theorem eq_span {a b : ℤ} {l : List ℤ} (hl : l.Pairwise (· < ·))
    (h : ∀ n, n ∈ l ↔ a ≤ n ∧ n ≤ b) : l = span a b :=
  eq_of_pairwise_lt hl (pairwise_span a b) fun n => (h n).trans mem_span.symm

/-- **A span is cut anywhere.** -/
theorem span_append {a b c : ℤ} (hab : a ≤ b + 1) (hbc : b ≤ c) :
    span a b ++ span (b + 1) c = span a c := by
  refine eq_span ?_ fun n => ?_
  · rw [List.pairwise_append]
    refine ⟨pairwise_span _ _, pairwise_span _ _, fun m hm n hn => ?_⟩
    have h1 := mem_span.mp hm
    have h2 := mem_span.mp hn
    omega
  · rw [List.mem_append, mem_span, mem_span]
    omega

theorem span_self (a : ℤ) : span a a = [a] := by
  simp [span]

theorem span_succ {a b : ℤ} (h : a ≤ b + 1) : span a (b + 1) = span a b ++ [b + 1] := by
  rw [← span_append h (by omega : b ≤ b + 1), span_self]

theorem span_cons {a b : ℤ} (h : a ≤ b) : span a b = a :: span (a + 1) b := by
  have hcut := span_append (a := a) (b := a) (c := b) (by omega) h
  rw [span_self] at hcut
  exact hcut.symm

theorem span_eq_cons {a b n : ℤ} {l : List ℤ} (h : span a b = n :: l) :
    n = a ∧ a ≤ b ∧ l = span (a + 1) b := by
  by_cases hab : a ≤ b
  · rw [span_cons hab] at h
    obtain ⟨rfl, rfl⟩ := List.cons_eq_cons.mp h
    exact ⟨rfl, hab, rfl⟩
  · rw [span_of_lt (by omega)] at h
    exact absurd h nofun

theorem eq_span_of_append {a b : ℤ} {l l' : List ℤ} (h : l ++ l' = span a b) :
    l = span a (a + l.length - 1) := by
  have hlength : l.length ≤ (b - a + 1).toNat := by
    rw [← length_span, ← h, List.length_append]
    exact Nat.le_add_right _ _
  have htake : l = (span a b).take l.length := by rw [← h, List.take_left]
  have hcount : (a + l.length - 1 - a + 1).toNat = min l.length (b - a + 1).toNat := by omega
  conv_lhs => rw [htake]
  rw [span, ← List.map_take, List.take_range, span, hcount]

/-! ## Downwards -/

/-- A span read downwards starts with the last of its numbers. -/
theorem take_reverse_span (a b : ℤ) (k : ℕ) :
    (span a b).reverse.take k = (span (max a (b - k + 1)) b).reverse := by
  rw [List.take_reverse]
  congr 1
  by_cases hk : a ≤ b - k + 1
  · have hcut := span_append hk (by omega : b - k ≤ b)
    have hlength : (span a b).length - k = (span a (b - k)).length := by
      rw [length_span, length_span]
      omega
    rw [hlength, ← hcut, List.drop_left, max_eq_right hk]
  · have hzero : (span a b).length - k = 0 := by
      rw [length_span]
      omega
    rw [hzero, List.drop_zero, max_eq_left (by omega)]

/-- What follows is the span below them. -/
theorem drop_reverse_span (a b : ℤ) (k : ℕ) :
    (span a b).reverse.drop k = (span a (b - k)).reverse := by
  rw [List.drop_reverse]
  congr 1
  by_cases hk : a ≤ b - k + 1
  · have hcut := span_append hk (by omega : b - k ≤ b)
    have hlength : (span a b).length - k = (span a (b - k)).length := by
      rw [length_span, length_span]
      omega
    rw [hlength, ← hcut, List.take_left]
  · have hzero : (span a b).length - k = 0 := by
      rw [length_span]
      omega
    rw [hzero, List.take_zero, span_of_lt (by omega)]
