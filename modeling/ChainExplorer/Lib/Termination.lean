import ChainExplorer.Lib.System
import Mathlib.Logic.Relation

/-!
# Runs that come to an end

* **`System.length_run_le`**: where every step lowers a measure, a run has no more steps than that.
-/

namespace System

variable {σ α : Type*} {S : System σ α}

/-- **The measure rule**, under an invariant. -/
theorem length_run_le {I : σ → Prop} {μ : σ → ℕ}
    (hstep : ∀ s a s', I s → S.exec s a = some s' → I s' ∧ μ s' < μ s) {s t : σ} (hs : I s)
    {as : List α} (hrun : S.run s as = some t) : I t ∧ as.length + μ t ≤ μ s := by
  induction as generalizing s with
  | nil =>
    obtain rfl := Option.some.inj hrun
    exact ⟨hs, (Nat.zero_add _).le⟩
  | cons a as ih =>
    obtain ⟨s', hexec, hrest⟩ := Option.bind_eq_some_iff.mp hrun
    obtain ⟨hs', hlt⟩ := hstep s a s' hs hexec
    obtain ⟨ht, hle⟩ := ih hs' hrest
    refine ⟨ht, ?_⟩
    rw [List.length_cons]
    omega

end System
