import Mathlib.Data.Set.Basic

/-!
# Queues whose items build on what came before

* `Chained ok adds s bs`: each item of a queue is in order on a set and what the items before it add.
* `grown adds s bs`: the set with all they add.
* **`chained_append`**: a queue and what is put behind it.
-/

namespace Queue

variable {α β : Type*} {ok : Set α → β → Prop} {adds : β → Set α} {s : Set α}

/-- Each item is in order on the set and what the items before it add. -/
def Chained (ok : Set α → β → Prop) (adds : β → Set α) : Set α → List β → Prop
  | _, [] => True
  | s, b :: bs => ok s b ∧ Chained ok adds (s ∪ adds b) bs

/-- A set with what the items of a list add. -/
def grown (adds : β → Set α) (s : Set α) (bs : List β) : Set α := s ∪ {a | ∃ b ∈ bs, a ∈ adds b}

theorem grown_nil (adds : β → Set α) (s : Set α) : grown adds s [] = s := by
  simp [grown]

theorem grown_cons (adds : β → Set α) (s : Set α) (b : β) (bs : List β) :
    grown adds s (b :: bs) = grown adds (s ∪ adds b) bs := by
  ext a
  simp only [grown, Set.mem_union, Set.mem_ofPred_eq, List.mem_cons, or_and_right, exists_or,
    exists_eq_left, or_assoc]

theorem grown_append (adds : β → Set α) (s : Set α) (bs cs : List β) :
    grown adds s (bs ++ cs) = grown adds (grown adds s bs) cs := by
  induction bs generalizing s with
  | nil => rw [List.nil_append, grown_nil]
  | cons b bs ih => rw [List.cons_append, grown_cons, grown_cons, ih]

theorem grown_concat (adds : β → Set α) (s : Set α) (bs : List β) (b : β) :
    grown adds s (bs ++ [b]) = grown adds s bs ∪ adds b := by
  rw [grown_append, grown_cons, grown_nil]

theorem chained_append {bs cs : List β} :
    Chained ok adds s (bs ++ cs) ↔ Chained ok adds s bs ∧ Chained ok adds (grown adds s bs) cs := by
  induction bs generalizing s with
  | nil =>
    rw [grown_nil]
    exact ⟨fun h => ⟨trivial, h⟩, And.right⟩
  | cons b bs ih => rw [List.cons_append, Chained, Chained, ih, grown_cons, and_assoc]

theorem chained_concat {bs : List β} {b : β} :
    Chained ok adds s (bs ++ [b]) ↔ Chained ok adds s bs ∧ ok (grown adds s bs) b := by
  rw [chained_append, Chained, Chained, and_true]

theorem chained_of_forall {bs : List β}
    (h : ∀ before b after, bs = before ++ b :: after → ok (grown adds s before) b) :
    Chained ok adds s bs := by
  induction bs generalizing s with
  | nil => trivial
  | cons b bs ih =>
    refine ⟨?_, ih fun before c after hsplit => ?_⟩
    · have hfirst := h [] b bs rfl
      rwa [grown_nil] at hfirst
    · have hlater := h (b :: before) c after (congrArg (b :: ·) hsplit)
      rwa [grown_cons] at hlater

theorem Chained.mono (hok : ∀ {s t b}, s ⊆ t → ok s b → ok t b) {t : Set α} (hst : s ⊆ t)
    {bs : List β} (h : Chained ok adds s bs) : Chained ok adds t bs := by
  induction bs generalizing s t with
  | nil => trivial
  | cons b bs ih => exact ⟨hok hst h.1, ih (Set.union_subset_union_left _ hst) h.2⟩

theorem Chained.grown_of {P : Set α → Prop} (hstep : ∀ {s b}, P s → ok s b → P (s ∪ adds b))
    {bs : List β} (h : Chained ok adds s bs) (hs : P s) : P (grown adds s bs) := by
  induction bs generalizing s with
  | nil => rwa [grown_nil]
  | cons b bs ih =>
    rw [grown_cons]
    exact ih h.2 (hstep hs h.1)

theorem Chained.of_mem (hok : ∀ {s t b}, s ⊆ t → ok s b → ok t b) {bs : List β}
    (h : Chained ok adds s bs) {b : β} (hb : b ∈ bs) : ok (grown adds s bs) b := by
  induction bs generalizing s with
  | nil => exact absurd hb List.not_mem_nil
  | cons c bs ih =>
    rw [grown_cons]
    rcases List.mem_cons.mp hb with rfl | hb
    · exact hok (Set.subset_union_left.trans Set.subset_union_left) h.1
    · exact ih h.2 hb

end Queue
