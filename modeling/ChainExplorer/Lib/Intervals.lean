import Mathlib.Order.Cover
import Mathlib.Order.Interval.Set.OrdConnected
import ChainExplorer.Lib.Queue

/-!
# Intervals that grow at their ends

* `Adjoins a s`: there is no gap between a set and one more element.
* `Grows s as`: elements come one after the other, and none leaves a gap.
* **`Grows.ordConnected`**: an interval that grows stays one.
-/

namespace Intervals

open Queue

variable {α : Type*} [LinearOrder α] {s : Set α} {a : α}

/-- There is no gap between a set and an element. -/
def Adjoins (a : α) (s : Set α) : Prop := s = ∅ ∨ a ∈ s ∨ ∃ b ∈ s, a ⋖ b ∨ b ⋖ a

theorem Adjoins.of_mem (h : a ∈ s) : Adjoins a s := .inr (.inl h)

theorem Adjoins.below {b : α} (hb : b ∈ s) (h : a ⋖ b) : Adjoins a s := .inr (.inr ⟨b, hb, .inl h⟩)

theorem Adjoins.above {b : α} (hb : b ∈ s) (h : b ⋖ a) : Adjoins a s := .inr (.inr ⟨b, hb, .inr h⟩)

theorem Adjoins.mono {t : Set α} (h : Adjoins a s) (hne : s.Nonempty) (hsub : s ⊆ t) :
    Adjoins a t := by
  rcases h with hempty | hmem | ⟨b, hb, hcov⟩
  · exact absurd hempty hne.ne_empty
  · exact .of_mem (hsub hmem)
  · exact .inr (.inr ⟨b, hsub hb, hcov⟩)

/-- **An element that adjoins an interval extends it.** -/
theorem Adjoins.ordConnected (h : Adjoins a s) (hs : s.OrdConnected) : (insert a s).OrdConnected := by
  rcases h with rfl | hmem | ⟨b, hb, hcov⟩
  · rw [insert_empty_eq]
    exact Set.ordConnected_singleton
  · rwa [Set.insert_eq_of_mem hmem]
  · refine ⟨fun x hx y hy z hz => ?_⟩
    -- What lies between `a` and an element of `s` lies between `b` and it, or is `a`.
    rcases hx with rfl | hx
    · rcases hy with rfl | hy
      · exact .inl (le_antisymm hz.2 hz.1)
      · rcases hz.1.eq_or_lt with rfl | hlt
        · exact .inl rfl
        · refine .inr (hs.out hb hy ⟨?_, hz.2⟩)
          rcases hcov with hcov | hcov
          · exact hcov.ge_of_gt hlt
          · exact hcov.le.trans hz.1
    · rcases hy with rfl | hy
      · rcases hz.2.eq_or_lt with rfl | hlt
        · exact .inl rfl
        · refine .inr (hs.out hx hb ⟨hz.1, ?_⟩)
          rcases hcov with hcov | hcov
          · exact hz.2.trans hcov.le
          · exact hcov.le_of_lt hlt
      · exact .inr (hs.out hx hy hz)

/-- The elements of a list come one after the other, and none leaves a gap. -/
def Grows : Set α → List α → Prop
  | _, [] => True
  | s, a :: as => Adjoins a s ∧ Grows (insert a s) as

/-- It is a queue whose elements adjoin what came before. -/
theorem grows_iff {as : List α} :
    Grows s as ↔ Chained (fun s a => Adjoins a s) (fun a => {a}) s as := by
  induction as generalizing s with
  | nil => rfl
  | cons a as ih => rw [Grows, Chained, ih, Set.union_singleton]

omit [LinearOrder α] in
theorem grown_singleton (s : Set α) (as : List α) :
    grown (fun a => {a}) s as = s ∪ {x | x ∈ as} := by
  simp [grown]

theorem grows_append {as bs : List α} :
    Grows s (as ++ bs) ↔ Grows s as ∧ Grows (s ∪ {x | x ∈ as}) bs := by
  rw [grows_iff, grows_iff, grows_iff, chained_append, grown_singleton]

/-- **An interval that grows stays one.** -/
theorem Grows.ordConnected {as : List α} (h : Grows s as) (hs : s.OrdConnected) :
    (s ∪ {x | x ∈ as}).OrdConnected := by
  rw [← grown_singleton]
  refine (grows_iff.mp h).grown_of (fun hset hadj => ?_) hs
  rw [Set.union_singleton]
  exact hadj.ordConnected hset

end Intervals
