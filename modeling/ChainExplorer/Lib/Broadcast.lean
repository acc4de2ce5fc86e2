import Mathlib.Data.List.Basic

/-!
# A bounded broadcast

A channel that keeps its last `capacity` messages. A receiver that falls further behind is told so
once and goes on with the oldest message kept.

* `oldest`, `receive`: the channel as the list of everything ever sent, and one receiver's place.
* **`receive_cases`**: what one call of `receive` does.
-/

namespace Broadcast

variable {α : Type}

/-- What a receiver gets. -/
inductive Received (α : Type)
  | message (a : α)
  | lagged
  | empty

/-- The place of the oldest message kept. -/
def oldest (capacity : ℕ) (log : List α) : ℕ := log.length - capacity

/-- Receive at place `next`; the place after. -/
def receive (capacity : ℕ) (log : List α) (next : ℕ) : Received α × ℕ :=
  if next < oldest capacity log then (.lagged, oldest capacity log)
  else
    match log[next]? with
    | some a => (.message a, next + 1)
    | none => (.empty, next)

/-- The messages a lag notice at place `next` reports as dropped. -/
def dropped (capacity : ℕ) (log : List α) (next : ℕ) : List α :=
  (log.take (oldest capacity log)).drop next

/-- **One receive**: a message, which is then behind the receiver; a lag, which moves it to the
oldest message kept; or nothing. -/
theorem receive_cases (capacity : ℕ) (log : List α) (next : ℕ) :
    (∃ a, receive capacity log next = (.message a, next + 1) ∧
      log.take (next + 1) = log.take next ++ [a] ∧ next < log.length) ∨
    (next < oldest capacity log ∧
      receive capacity log next = (.lagged, oldest capacity log) ∧
      log.take (oldest capacity log) = log.take next ++ dropped capacity log next) ∨
    receive capacity log next = (.empty, next) := by
  unfold receive
  by_cases hlag : next < oldest capacity log
  · refine .inr (.inl ⟨hlag, if_pos hlag, ?_⟩)
    have hmin : min next (oldest capacity log) = next := Nat.min_eq_left (Nat.le_of_lt hlag)
    have hcut := List.take_append_drop next (log.take (oldest capacity log))
    rw [List.take_take, hmin] at hcut
    exact hcut.symm
  · rw [if_neg hlag]
    cases hget : log[next]? with
    | none => exact .inr (.inr rfl)
    | some a =>
      have hlt : next < log.length := (List.getElem?_eq_some_iff.mp hget).1
      refine .inl ⟨a, rfl, ?_, hlt⟩
      rw [List.take_add_one, hget]
      rfl

end Broadcast
