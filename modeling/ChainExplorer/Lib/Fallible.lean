import Mathlib.Data.List.Forall2

/-!
# Passes over a list that may fail

* `isSome_mapM_iff`, `forall₂_of_mapM`: when a pass succeeds, and each element with its result.
* `mem_of_mapM`: the results.
* **`foldlM_run`**: what every step of a fold keeps, for the steps taken so far.
* **`foldlM_eq_of_guard`**: a fold whose steps fail on some elements whatever they find.
-/

namespace Fallible

variable {α β : Type*}

/-- A pass that succeeds did so on every element. -/
theorem forall₂_of_mapM {f : α → Option β} {l : List α} {r : List β} (h : l.mapM f = some r) :
    List.Forall₂ (fun a b => f a = some b) l r := by
  induction l generalizing r with
  | nil =>
    obtain rfl := Option.some.inj h
    exact .nil
  | cons a l ih =>
    rw [List.mapM_cons] at h
    obtain ⟨b, hb, h⟩ := Option.bind_eq_some_iff.mp h
    obtain ⟨rest, hrest, h⟩ := Option.bind_eq_some_iff.mp h
    obtain rfl := Option.some.inj h
    exact .cons hb (ih hrest)

/-- A pass succeeds where it fails on no element. -/
theorem isSome_mapM_iff {f : α → Option β} {l : List α} :
    (l.mapM f).isSome ↔ ∀ a ∈ l, (f a).isSome := by
  induction l with
  | nil => simp
  | cons a l ih =>
    rw [List.mapM_cons, List.forall_mem_cons, ← ih]
    cases f a with
    | none => simp
    | some b => cases l.mapM f <;> simp

/-- What a pass results in is what its elements do. -/
theorem mem_of_mapM {f : α → Option β} {l : List α} {r : List β} (h : l.mapM f = some r) (b : β) :
    b ∈ r ↔ ∃ a ∈ l, f a = some b := by
  have hall := forall₂_of_mapM h
  clear h
  induction hall with
  | nil => simp
  | cons hab _ ih =>
    rw [List.exists_mem_cons_iff, hab, Option.some.injEq, List.mem_cons]
    exact or_congr eq_comm ih

theorem eq_map_of_mapM {f : α → Option β} {g : α → β} {l : List α} {r : List β}
    (hvalue : ∀ a b, f a = some b → b = g a) (h : l.mapM f = some r) : r = l.map g := by
  have hall := (forall₂_of_mapM h).imp hvalue
  clear h
  induction hall with
  | nil => rfl
  | cons hab _ ih => rw [List.map_cons, hab, ih]

/-- **What one step keeps, the fold keeps**; `P` may speak of the elements done. -/
theorem foldlM_run {f : β → α → Option β} {P : List α → β → Prop}
    (hstep : ∀ done b a b', P done b → f b a = some b' → P (done ++ [a]) b') {l : List α}
    (done : List α) {b b' : β} (hb : P done b) (h : l.foldlM f b = some b') : P (done ++ l) b' := by
  induction l generalizing done b with
  | nil =>
    obtain rfl := Option.some.inj h
    rwa [List.append_nil]
  | cons a l ih =>
    rw [List.foldlM_cons] at h
    obtain ⟨mid, hmid, hrest⟩ := Option.bind_eq_some_iff.mp h
    have hall := ih (done ++ [a]) (hstep done b a mid hb hmid) hrest
    rwa [List.append_assoc] at hall

theorem isSome_foldlM {f : β → α → Option β} {l : List α} (h : ∀ b, ∀ a ∈ l, (f b a).isSome) (b : β) :
    (l.foldlM f b).isSome := by
  induction l generalizing b with
  | nil => rfl
  | cons a l ih =>
    obtain ⟨mid, hmid⟩ := Option.isSome_iff_exists.mp (h b a List.mem_cons_self)
    rw [List.foldlM_cons, hmid]
    exact ih (fun b' a' ha' => h b' a' (List.mem_cons_of_mem _ ha')) mid

/-- **A fold that fails on some elements**, whatever it has found so far. -/
theorem foldlM_eq_of_guard {f : β → α → Option β} {g : β → α → β} {bad : α → Bool}
    (h : ∀ b a, f b a = if bad a then none else some (g b a)) (l : List α) (b : β) :
    l.foldlM f b = if l.any bad then none else some (l.foldl g b) := by
  induction l generalizing b with
  | nil => rfl
  | cons a l ih =>
    rw [List.foldlM_cons, h, List.any_cons]
    cases bad a with
    | true => rfl
    | false =>
      rw [if_neg Bool.false_ne_true, Bool.false_or, List.foldl_cons]
      exact ih (g b a)

end Fallible
