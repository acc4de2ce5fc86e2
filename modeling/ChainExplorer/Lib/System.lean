import Mathlib.Data.List.Infix
import Mathlib.Data.Option.Basic

/-!
# Systems of named actions

* `System σ α`: initial states and an executable step; an action that cannot happen in a state
  gives `none`.
* `System.run`: the state after a list of actions.
* `System.ReachableUnder ok`: the states reached by runs all of whose steps meet `ok`;
  `System.Reachable` is the case without a condition.
* **`ReachableUnder.invariant`**: what holds initially and is kept by every step that meets the
  condition holds in every state reached.
-/

/-- **A system**: initial states, and what each action does. -/
structure System (σ : Type*) (α : Type*) where
  init : σ → Prop
  exec : σ → α → Option σ

namespace System

variable {σ α : Type*} (S : System σ α)

/-- The state after a list of actions. -/
def run : σ → List α → Option σ
  | s, [] => some s
  | s, a :: as => (S.exec s a).bind fun s' => run s' as

/-- The states reached by runs all of whose steps meet `ok`, a condition on the state before the
step and the action taken. -/
inductive ReachableUnder (ok : σ → α → Prop) : σ → Prop
  | start {s : σ} : S.init s → ReachableUnder ok s
  | step {s s' : σ} {a : α} : ReachableUnder ok s → ok s a → S.exec s a = some s' →
      ReachableUnder ok s'

/-- The states reached by any run. -/
abbrev Reachable : σ → Prop := S.ReachableUnder fun _ _ => True

variable {S}

/-- **The invariant rule.** -/
theorem ReachableUnder.invariant {ok : σ → α → Prop} {I : σ → Prop} (h0 : ∀ s, S.init s → I s)
    (hstep : ∀ s a s', I s → ok s a → S.exec s a = some s' → I s') {s : σ}
    (h : S.ReachableUnder ok s) : I s := by
  induction h with
  | start hs => exact h0 _ hs
  | step _ hok hex ih => exact hstep _ _ _ ih hok hex

theorem ReachableUnder.mono {ok ok' : σ → α → Prop} (hsub : ∀ s a, ok s a → ok' s a) {s : σ}
    (h : S.ReachableUnder ok s) : S.ReachableUnder ok' s := by
  induction h with
  | start hs => exact .start hs
  | step _ hok hex ih => exact .step ih (hsub _ _ hok) hex

variable (S) in
/-- Every step of a run meets a condition. -/
def Meets (ok : σ → α → Prop) : σ → List α → Prop
  | _, [] => True
  | s, a :: as => ok s a ∧ ∀ s' ∈ S.exec s a, Meets ok s' as

instance decidableMeets {ok : σ → α → Prop} [∀ s a, Decidable (ok s a)] :
    ∀ (s : σ) (as : List α), Decidable (S.Meets ok s as)
  | _, [] => isTrue trivial
  | s, a :: as =>
    have : ∀ s', Decidable (S.Meets ok s' as) := fun s' => decidableMeets s' as
    inferInstanceAs (Decidable (ok s a ∧ ∀ s' ∈ S.exec s a, S.Meets ok s' as))

/-- **A run that meets the condition**, from a state reached, reaches its end. -/
theorem ReachableUnder.run {ok : σ → α → Prop} {s : σ} (h : S.ReachableUnder ok s) :
    ∀ {as : List α} {s' : σ}, S.Meets ok s as → S.run s as = some s' → S.ReachableUnder ok s'
  | [], s', _, hr => by
    obtain rfl : s = s' := Option.some.inj hr
    exact h
  | a :: as, s', hok, hr => by
    obtain ⟨t, ht, hr'⟩ := Option.bind_eq_some_iff.mp hr
    exact ReachableUnder.run (.step h hok.1 ht) (hok.2 t ht) hr'

theorem meets_true (s : σ) (as : List α) : S.Meets (fun _ _ => True) s as := by
  induction as generalizing s with
  | nil => trivial
  | cons a as ih => exact ⟨trivial, fun s' _ => ih s'⟩

/-- A run from a reachable state reaches its end. -/
theorem Reachable.run {s s' : σ} {as : List α} (h : S.Reachable s) (hr : S.run s as = some s') :
    S.Reachable s' :=
  ReachableUnder.run h (meets_true s as) hr

theorem Meets.of_prefix {ok : σ → α → Prop} {s : σ} {as bs : List α} (h : S.Meets ok s as)
    (hpre : bs <+: as) : S.Meets ok s bs := by
  induction bs generalizing s as with
  | nil => trivial
  | cons a bs ih =>
    obtain ⟨rest, rfl⟩ := hpre
    exact ⟨h.1, fun s' hs' => ih (h.2 s' hs') (List.prefix_append bs rest)⟩

theorem Reachable.meets {ok : σ → α → Prop} {P : σ → Prop}
    (hstep : ∀ s a s', S.Reachable s → S.exec s a = some s' → P s' → ok s a) {s s' : σ}
    (hs : S.Reachable s) {as : List α} (hr : S.run s as = some s')
    (hP : ∀ pre t, pre <+: as → S.run s pre = some t → P t) : S.Meets ok s as := by
  induction as generalizing s with
  | nil => trivial
  | cons a as ih =>
    obtain ⟨t, ht, hr'⟩ := Option.bind_eq_some_iff.mp hr
    have hfirst : S.run s [a] = some t := by
      rw [System.run, ht, Option.bind_some, System.run]
    refine ⟨hstep s a t hs ht (hP [a] t ⟨as, rfl⟩ hfirst), fun u hu => ?_⟩
    obtain rfl : t = u := Option.some.inj (ht.symm.trans hu)
    refine ih (.step hs trivial ht) hr' fun pre v hpre hv => hP (a :: pre) v ?_ ?_
    · exact (List.prefix_cons_inj a).mpr hpre
    · rw [System.run, ht, Option.bind_some, hv]

end System
