import Mathlib.Data.List.Forall2
import Mathlib.Data.List.Nodup

/-!
# Lists side by side

* `Forall₂.exists_right`, `Forall₂.exists_left`: the partner of a member.
* **`eq_of_mem_zip`**: beside a list without repeats, a member has one partner.
-/

namespace List

variable {α β γ : Type} {R : α → β → Prop}

theorem Forall₂.exists_right {l : List α} {l' : List β} (h : Forall₂ R l l') {a : α}
    (ha : a ∈ l) : ∃ b ∈ l', R a b := by
  induction h with
  | nil => exact absurd ha not_mem_nil
  | @cons x y xs ys hxy _ ih =>
    rcases mem_cons.mp ha with rfl | ha
    · exact ⟨y, mem_cons_self, hxy⟩
    · obtain ⟨b, hb, hab⟩ := ih ha
      exact ⟨b, mem_cons_of_mem _ hb, hab⟩

theorem Forall₂.exists_left {l : List α} {l' : List β} (h : Forall₂ R l l') {b : β}
    (hb : b ∈ l') : ∃ a ∈ l, R a b := by
  obtain ⟨a, ha, hab⟩ := h.flip.exists_right hb
  exact ⟨a, ha, hab⟩

theorem Forall₂.map_eq {l : List α} {l' : List β} (h : Forall₂ R l l') {f : α → γ} {g : β → γ}
    (hfg : ∀ {a b}, R a b → f a = g b) : l.map f = l'.map g := by
  induction h with
  | nil => rfl
  | cons hxy _ ih => rw [map_cons, map_cons, hfg hxy, ih]

theorem Forall₂.comp {S : β → γ → Prop} {T : α → γ → Prop} {l : List α} {l' : List β}
    {l'' : List γ} (h : Forall₂ R l l') (h' : Forall₂ S l' l'')
    (hT : ∀ {a b c}, R a b → S b c → T a c) : Forall₂ T l l'' := by
  induction h generalizing l'' with
  | nil =>
    cases h'
    exact .nil
  | cons hxy _ ih =>
    cases h' with
    | cons hyz hrest => exact .cons (hT hxy hyz) (ih hrest)

/-- **Beside a list without repeats a member has one partner.** -/
theorem eq_of_mem_zip {l : List α} {l' : List β} (h : l.Nodup) {a : α} {b b' : β}
    (hb : (a, b) ∈ l.zip l') (hb' : (a, b') ∈ l.zip l') : b = b' := by
  induction l generalizing l' with
  | nil => exact absurd hb not_mem_nil
  | cons x xs ih =>
    cases l' with
    | nil => exact absurd hb not_mem_nil
    | cons y ys =>
      obtain ⟨hx, hxs⟩ := nodup_cons.mp h
      rw [zip_cons_cons, mem_cons, Prod.mk.injEq] at hb hb'
      rcases hb with ⟨rfl, rfl⟩ | hb
      · rcases hb' with ⟨-, rfl⟩ | hb'
        · rfl
        · exact absurd (of_mem_zip hb').1 hx
      · rcases hb' with ⟨rfl, -⟩ | hb'
        · exact absurd (of_mem_zip hb).1 hx
        · exact ih hxs hb hb'

end List
