import ChainExplorer.Lib.System

/-!
# What a run shows

* `System.observe`: what every step of a run shows, in order.
* **`observe_balance`**: where every step takes out of a queue what it was ahead of and puts in
  behind, so does every run: what was in it and what was put in are what was taken out and what is
  left, in order.
-/

namespace System

variable {σ α β γ : Type*} (S : System σ α)

/-- What the steps of a run show, one after the other. -/
def observe (show_ : σ → α → List β) : σ → List α → List β
  | _, [] => []
  | s, a :: as => show_ s a ++ (S.exec s a).elim [] fun s' => observe show_ s' as

variable {S}

theorem observe_cons (show_ : σ → α → List β) {s s' : σ} {a : α} (h : S.exec s a = some s')
    (as : List α) : S.observe show_ s (a :: as) = show_ s a ++ S.observe show_ s' as := by
  rw [observe, h]
  rfl

theorem observe_forall {I : σ → Prop} {P : β → Prop} {show_ : σ → α → List β}
    (hI : ∀ s a s', I s → S.exec s a = some s' → I s')
    (hP : ∀ s a, I s → ∀ b ∈ show_ s a, P b) {s : σ} (hs : I s) (as : List α) :
    ∀ b ∈ S.observe show_ s as, P b := by
  induction as generalizing s with
  | nil => exact fun b hb => absurd hb List.not_mem_nil
  | cons a as ih =>
    intro b hb
    rcases List.mem_append.mp hb with hfirst | hrest
    · exact hP s a hs b hfirst
    · cases hexec : S.exec s a with
      | none =>
        rw [hexec] at hrest
        exact absurd hrest List.not_mem_nil
      | some s' =>
        rw [hexec] at hrest
        exact ih (hI s a s' hs hexec) b hrest

/-- **A queue is balanced along every run**: what is put in is taken out in the same order, or is
still there. A taking may take several items, or none. -/
theorem observe_balance {held : σ → List β} {put : σ → α → List β} {take : σ → α → List γ}
    {items : γ → List β}
    (hstep : ∀ s a s', S.exec s a = some s' →
      held s ++ put s a = (take s a).flatMap items ++ held s') {as : List α} {s s' : σ}
    (hrun : S.run s as = some s') :
    held s ++ S.observe put s as = (S.observe take s as).flatMap items ++ held s' := by
  induction as generalizing s with
  | nil =>
    obtain rfl := Option.some.inj hrun
    rw [observe, observe, List.append_nil]
    rfl
  | cons a as ih =>
    obtain ⟨mid, hexec, hrest⟩ := Option.bind_eq_some_iff.mp hrun
    rw [observe_cons put hexec, observe_cons take hexec, List.flatMap_append, ← List.append_assoc,
      hstep s a mid hexec, List.append_assoc, ih hrest, List.append_assoc]

end System
