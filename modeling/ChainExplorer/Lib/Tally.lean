import Mathlib.Algebra.BigOperators.Group.List.Basic
import Mathlib.Algebra.GroupWithZero.Nat

/-!
# Tallies of a list of tasks

* **`tally_set`**, **`tally_eraseIdx`**: replacing or removing one task moves a tally by its share.
-/

namespace Tally

variable {α : Type}

/-- The sum of the tasks' shares. -/
def tally (share : α → ℕ) (tasks : List α) : ℕ := (tasks.map share).sum

@[simp] theorem tally_nil (share : α → ℕ) : tally share [] = 0 := rfl

@[simp] theorem tally_cons (share : α → ℕ) (a : α) (tasks : List α) :
    tally share (a :: tasks) = share a + tally share tasks := by
  rw [tally, List.map_cons, List.sum_cons, tally]

@[simp] theorem tally_append (share : α → ℕ) (tasks tasks' : List α) :
    tally share (tasks ++ tasks') = tally share tasks + tally share tasks' := by
  rw [tally, List.map_append, List.sum_append, tally, tally]

/-- **A task is replaced.** -/
theorem tally_set (share : α → ℕ) {tasks : List α} {i : ℕ} {a : α} (h : tasks[i]? = some a)
    (b : α) : tally share (tasks.set i b) + share a = tally share tasks + share b := by
  induction tasks generalizing i with
  | nil => exact absurd h nofun
  | cons t tasks ih =>
    cases i with
    | zero =>
      obtain rfl : t = a := Option.some.inj h
      rw [List.set_cons_zero, tally_cons, tally_cons, Nat.add_comm, Nat.add_assoc, Nat.add_left_comm,
        Nat.add_comm (share b), Nat.add_assoc]
    | succ i =>
      have hrest := ih h
      rw [List.set_cons_succ, tally_cons, tally_cons, Nat.add_assoc, hrest, Nat.add_assoc]

/-- **A task is removed.** -/
theorem tally_eraseIdx (share : α → ℕ) {tasks : List α} {i : ℕ} {a : α} (h : tasks[i]? = some a) :
    tally share (tasks.eraseIdx i) + share a = tally share tasks := by
  induction tasks generalizing i with
  | nil => exact absurd h nofun
  | cons t tasks ih =>
    cases i with
    | zero =>
      obtain rfl : t = a := Option.some.inj h
      rw [List.eraseIdx_cons_zero, tally_cons, Nat.add_comm]
    | succ i =>
      have hrest := ih h
      rw [List.eraseIdx_cons_succ, tally_cons, tally_cons, Nat.add_assoc, hrest]

end Tally
