import Mathlib.Data.Nat.Notation
import Mathlib.Data.List.Basic

/-!
# Windows over the naturals

A range read a window at a time. A window is its first and its last number.

* `Contiguous start windows`: each window starts after the one before it, the first at `start`.
* `nextStart`, `lastEnd`: where the next one starts, and how far the last one went.
* `numbers`: the numbers of a window.
* **`contiguous_append`**: one more window.
* **`Contiguous.flatMap_numbers`**: the windows hold every number up to their end, once and in order.
-/

namespace Windows

/-- **The windows follow one another** from `start` on. -/
def Contiguous : ℕ → List (ℕ × ℕ) → Prop
  | _, [] => True
  | start, w :: rest => w.1 = start ∧ w.1 ≤ w.2 ∧ Contiguous (w.2 + 1) rest

/-- Where the next window starts. -/
def nextStart (start : ℕ) (windows : List (ℕ × ℕ)) : ℕ :=
  (windows.getLast?.map fun w => w.2 + 1).getD start

/-- The end of the last window. -/
def lastEnd (start : ℕ) (windows : List (ℕ × ℕ)) : ℕ := (windows.getLast?.map Prod.snd).getD start

theorem nextStart_cons (start : ℕ) (w : ℕ × ℕ) (rest : List (ℕ × ℕ)) :
    nextStart start (w :: rest) = nextStart (w.2 + 1) rest := by
  cases rest with
  | nil => rfl
  | cons v rest => rw [nextStart, nextStart, List.getLast?_cons_cons, List.getLast?_cons]; rfl

/-- One more window. -/
theorem contiguous_append {start : ℕ} {windows : List (ℕ × ℕ)} (h : Contiguous start windows)
    {last : ℕ} (hlast : nextStart start windows ≤ last) :
    Contiguous start (windows ++ [(nextStart start windows, last)]) := by
  induction windows generalizing start with
  | nil => exact ⟨rfl, hlast, trivial⟩
  | cons w rest ih =>
    obtain ⟨hfirst, hle, hrest⟩ := h
    rw [nextStart_cons] at hlast ⊢
    exact ⟨hfirst, hle, ih hrest hlast⟩

theorem nextStart_append (start : ℕ) (windows : List (ℕ × ℕ)) (w : ℕ × ℕ) :
    nextStart start (windows ++ [w]) = w.2 + 1 := by
  rw [nextStart, List.getLast?_append, List.getLast?_singleton]
  rfl

theorem lastEnd_append (start : ℕ) (windows : List (ℕ × ℕ)) (w : ℕ × ℕ) :
    lastEnd start (windows ++ [w]) = w.2 := by
  rw [lastEnd, List.getLast?_append, List.getLast?_singleton]
  rfl

theorem nextStart_eq {start : ℕ} {windows : List (ℕ × ℕ)} (h : windows ≠ []) :
    nextStart start windows = lastEnd start windows + 1 := by
  rw [nextStart, lastEnd, List.getLast?_eq_some_getLast h]
  rfl

theorem lastEnd_le_nextStart (start : ℕ) (windows : List (ℕ × ℕ)) :
    lastEnd start windows ≤ nextStart start windows := by
  cases windows with
  | nil => exact Nat.le_refl _
  | cons w rest =>
    rw [nextStart_eq (List.cons_ne_nil w rest)]
    exact Nat.le_succ _

/-! ## The numbers of windows that follow one another -/

/-- The numbers of a window, in order. -/
def numbers (w : ℕ × ℕ) : List ℕ := List.range' w.1 (w.2 + 1 - w.1)

theorem numbers_append {first mid last : ℕ} (hfirst : first ≤ mid + 1) (hmid : mid ≤ last) :
    numbers (first, mid) ++ numbers (mid + 1, last) = numbers (first, last) := by
  have hend : first + (mid + 1 - first) = mid + 1 := by omega
  have hlength : (mid + 1 - first) + (last + 1 - (mid + 1)) = last + 1 - first := by omega
  have h := List.range'_append_1 (s := first) (m := mid + 1 - first) (n := last + 1 - (mid + 1))
  rwa [hend, hlength] at h

section

variable {start : ℕ} {windows : List (ℕ × ℕ)}

theorem Contiguous.le_nextStart (h : Contiguous start windows) : start ≤ nextStart start windows := by
  induction windows generalizing start with
  | nil => exact Nat.le_refl _
  | cons w rest ih =>
    obtain ⟨rfl, hle, hrest⟩ := h
    have hnext := ih hrest
    rw [nextStart_cons]
    omega

theorem Contiguous.of_mem (h : Contiguous start windows) {w : ℕ × ℕ} (hw : w ∈ windows) :
    start ≤ w.1 ∧ w.1 ≤ w.2 := by
  induction windows generalizing start with
  | nil => exact absurd hw List.not_mem_nil
  | cons v rest ih =>
    obtain ⟨rfl, hle, hrest⟩ := h
    rcases List.mem_cons.mp hw with rfl | hw
    · exact ⟨Nat.le_refl _, hle⟩
    · have hrest := ih hrest hw
      exact ⟨by omega, hrest.2⟩

theorem Contiguous.ascending (h : Contiguous start windows) :
    windows.Pairwise fun v w => v.2 < w.1 := by
  induction windows generalizing start with
  | nil => exact .nil
  | cons v rest ih =>
    obtain ⟨rfl, hle, hrest⟩ := h
    exact .cons (fun w hw => (hrest.of_mem hw).1) (ih hrest)

/-- **Every number up to their end**, once and in order. -/
theorem Contiguous.flatMap_numbers (h : Contiguous start windows) :
    windows.flatMap numbers = List.range' start (nextStart start windows - start) := by
  induction windows generalizing start with
  | nil =>
    rw [List.flatMap_nil, nextStart, List.getLast?_nil, Option.map_none, Option.getD_none,
      Nat.sub_self]
    rfl
  | cons w rest ih =>
    obtain ⟨rfl, hle, hrest⟩ := h
    have hnext := hrest.le_nextStart
    have hend : w.1 + (w.2 + 1 - w.1) = w.2 + 1 := by omega
    have hlength : nextStart (w.2 + 1) rest - w.1 =
        (w.2 + 1 - w.1) + (nextStart (w.2 + 1) rest - (w.2 + 1)) := by omega
    rw [List.flatMap_cons, ih hrest, nextStart_cons, hlength, ← List.range'_append_1, hend, numbers]

end

end Windows
