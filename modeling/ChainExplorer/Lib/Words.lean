import Mathlib.Data.List.Basic

/-!
# Words

A list cut at its separators into words, none of them empty.

* `words`, `unwords`: cutting, and joining with one separator between two words.
* **`words_unwords`**: joined words are read back.
* `Normal`: a list that is its words, joined; what is joined from words is one.
-/

namespace Words

variable {α : Type*} {p : α → Bool} {sep : α}

/-- The words between the separators. -/
def words (p : α → Bool) (l : List α) : List (List α) := (l.splitOnP p).filter fun w => !w.isEmpty

/-- Words joined by one separator each. -/
def unwords (sep : α) (ws : List (List α)) : List α := [sep].intercalate ws

/-- **A list with one separator between two words**, and none at either end. -/
def Normal (p : α → Bool) (sep : α) (l : List α) : Prop := unwords sep (words p l) = l

@[simp]
theorem words_nil : words p [] = [] := by simp [words, List.splitOnP_nil]

theorem words_append_cons {c : α} (hc : p c = true) (l l' : List α) :
    words p (l ++ c :: l') = words p l ++ words p l' := by
  rw [words, List.splitOnP_append_cons l l' hc, List.filter_append, ← words, ← words]

theorem words_of_forall {w : List α} (hne : w ≠ []) (h : ∀ c ∈ w, p c = false) :
    words p w = [w] := by
  rw [words, List.splitOnP_eq_singleton h]
  exact List.filter_cons_of_pos (by simpa using hne)

theorem not_sep_of_mem_prepend {l acc w : List α} (hacc : ∀ c ∈ acc, p c = false)
    (hw : w ∈ l.splitOnPPrepend p acc) : ∀ c ∈ w, p c = false := by
  induction l generalizing acc with
  | nil =>
    rw [List.splitOnPPrepend_nil, List.mem_singleton] at hw
    intro c hc
    rw [hw, List.mem_reverse] at hc
    exact hacc c hc
  | cons a l ih =>
    cases ha : p a with
    | true =>
      rw [List.splitOnPPrepend_cons_pos ha, List.mem_cons] at hw
      rcases hw with hdone | hlater
      · intro c hc
        rw [hdone, List.mem_reverse] at hc
        exact hacc c hc
      · exact ih (List.forall_mem_nil _) hlater
    | false =>
      rw [List.splitOnPPrepend_cons_neg ha] at hw
      exact ih (List.forall_mem_cons.mpr ⟨ha, hacc⟩) hw

theorem of_mem_words {l w : List α} (hw : w ∈ words p l) : w ≠ [] ∧ ∀ c ∈ w, p c = false := by
  obtain ⟨hsplit, hne⟩ := List.mem_filter.mp hw
  exact ⟨by simpa using hne, not_sep_of_mem_prepend (List.forall_mem_nil _) hsplit⟩

@[simp]
theorem unwords_nil : unwords sep [] = [] := rfl

theorem unwords_singleton (w : List α) : unwords sep [w] = w := by
  simp [unwords, List.intercalate]

theorem unwords_cons_cons (w w' : List α) (ws : List (List α)) :
    unwords sep (w :: w' :: ws) = w ++ sep :: unwords sep (w' :: ws) := by
  rw [unwords, List.intercalate_cons_cons, ← unwords, List.append_assoc, List.singleton_append]

/-- **Joined words are read back.** -/
theorem words_unwords (hsep : p sep = true) {ws : List (List α)}
    (h : ∀ w ∈ ws, w ≠ [] ∧ ∀ c ∈ w, p c = false) : words p (unwords sep ws) = ws := by
  induction ws with
  | nil => rw [unwords_nil, words_nil]
  | cons w ws ih =>
    obtain ⟨hne, hw⟩ := h w List.mem_cons_self
    have hrest := ih fun v hv => h v (List.mem_cons_of_mem w hv)
    cases ws with
    | nil => rw [unwords_singleton, words_of_forall hne hw]
    | cons w' ws =>
      rw [unwords_cons_cons, words_append_cons hsep, words_of_forall hne hw, hrest,
        List.singleton_append]

theorem normal_unwords_words (hsep : p sep = true) (l : List α) :
    Normal p sep (unwords sep (words p l)) := by
  rw [Normal, words_unwords hsep fun w hw => of_mem_words hw]

end Words
