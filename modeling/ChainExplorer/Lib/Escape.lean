import Mathlib.Data.List.Infix

/-!
# Escaped text

Text for a page has its special characters replaced by entities, and is searched after that.

* `Escapes`: every character is kept, or becomes an entity.
* `splitOnce`: what is before and after the first place a text occurs at.
* **`exists_of_escaped`**: a text that could not be part of an entity is found only where it stands
  in the text before.
* `stripTags`: a page without its tags.
-/

namespace Escape

variable {α : Type*}

/-! ## Cuts -/

theorem flatMap_cut {β : Type*} {f : α → List β} {s : List α} {x y : List β}
    (h : s.flatMap f = x ++ y) :
    (∃ a b, s = a ++ b ∧ x = a.flatMap f ∧ y = b.flatMap f) ∨
      ∃ a d b e e', s = a ++ d :: b ∧ f d = e ++ e' ∧ e ≠ [] ∧ e' ≠ [] ∧
        x = a.flatMap f ++ e ∧ y = e' ++ b.flatMap f := by
  rw [List.flatMap_def, List.flatten_eq_append_iff] at h
  rcases h with ⟨as, bs, hs, rfl, rfl⟩ | ⟨as, e, c, e', ds, hs, rfl, rfl⟩
  · obtain ⟨a, b, rfl, rfl, rfl⟩ := List.map_eq_append_iff.mp hs
    exact .inl ⟨a, b, rfl, rfl, rfl⟩
  · obtain ⟨a, b, rfl, rfl, hb⟩ := List.map_eq_append_iff.mp hs
    obtain ⟨d, b, rfl, hd, rfl⟩ := List.map_eq_cons_iff.mp hb
    by_cases he : e = []
    · refine .inl ⟨a, d :: b, rfl, ?_, ?_⟩
      · rw [he, List.append_nil, List.flatMap_def]
      · rw [List.flatMap_cons, hd, he, List.nil_append, List.flatMap_def]
    · exact .inr ⟨a, d, b, e, c :: e', rfl, hd, he, List.cons_ne_nil c e', rfl, rfl⟩

/-- **Escaping**: a character is kept, or becomes an entity from `first` to `last`. -/
def Escapes (f : α → List α) (first last : α) : Prop :=
  ∀ d, f d = [d] ∨ ∃ name, f d = first :: (name ++ [last])

variable {f : α → List α} {first last : α}

theorem flatMap_eq_self (hf : Escapes f first last) {s : List α} (h : first ∉ s.flatMap f) :
    s.flatMap f = s := by
  have hkept : ∀ d ∈ s, f d = [d] := by
    intro d hd
    rcases hf d with hkept | ⟨name, hentity⟩
    · exact hkept
    · refine absurd (List.mem_flatMap.mpr ⟨d, hd, ?_⟩) h
      rw [hentity]
      exact List.mem_cons_self
  calc s.flatMap f
      = s.flatMap fun d => [d] := List.flatMap_congr hkept
    _ = s := List.flatMap_singleton' s

theorem mem_of_cut (hf : Escapes f first last) {d : α} {e e' : List α} (h : f d = e ++ e')
    (he : e ≠ []) (he' : e' ≠ []) : first ∈ e ∧ last ∈ e' ∧ f d ≠ [d] := by
  obtain ⟨c, e, rfl⟩ := List.exists_cons_of_ne_nil he
  obtain ⟨e', c', rfl⟩ := (List.eq_nil_or_concat e').resolve_left he'
  rw [List.concat_eq_append] at h ⊢
  have hlength : f d ≠ [d] := by
    intro hd
    have hlen := congrArg List.length (h.symm.trans hd)
    simp only [List.length_append, List.length_cons, List.length_nil] at hlen
    omega
  rcases hf d with hd | ⟨name, hentity⟩
  · exact absurd hd hlength
  · rw [hentity, List.cons_append, ← List.append_assoc] at h
    obtain ⟨rfl, hrest⟩ := List.cons.inj h
    obtain ⟨-, hend⟩ := List.append_inj' hrest rfl
    obtain ⟨rfl, -⟩ := List.cons.inj hend
    exact ⟨List.mem_cons_self, List.mem_append_right _ List.mem_cons_self, hlength⟩

/-- **What is found in an escaped text is found in the text**, if it holds neither end of an entity
and something no entity holds. -/
theorem exists_of_escaped (hf : Escapes f first last) {p : List α} (hfirst : first ∉ p)
    (hlast : last ∉ p) {m : α} (hm : m ∈ p) (hout : ∀ d, f d ≠ [d] → m ∉ f d) {s x y : List α}
    (h : s.flatMap f = x ++ (p ++ y)) :
    ∃ a c, s = a ++ (p ++ c) ∧ a.flatMap f = x ∧ p.flatMap f = p ∧ c.flatMap f = y := by
  rcases flatMap_cut h with ⟨a, t, rfl, rfl, ht⟩ | ⟨a, d, b, e, e', -, hd, he, he', -, ht⟩
  · rcases flatMap_cut ht.symm with ⟨b, c, rfl, hb, rfl⟩ | ⟨b, d, c, e, e', -, hd, he, he', hb, -⟩
    · have hkept : b.flatMap f = b := flatMap_eq_self hf (hb ▸ hfirst)
      obtain rfl : p = b := hb.trans hkept
      exact ⟨a, c, rfl, rfl, hkept, rfl⟩
    · -- The end would be inside an entity.
      refine absurd ?_ hfirst
      rw [hb]
      exact List.mem_append_right _ (mem_of_cut hf hd he he').1
  · -- The start would be inside an entity.
    obtain ⟨-, hmem, hne⟩ := mem_of_cut hf hd he he'
    have hpre : e' <+: p ++ y := ⟨_, ht.symm⟩
    rcases List.prefix_or_prefix_of_prefix hpre (List.prefix_append p y) with hin | hin
    · exact absurd (hin.subset hmem) hlast
    · refine absurd ?_ (hout d hne)
      rw [hd]
      exact List.mem_append_right _ (hin.subset hm)

/-! ## Search -/

/-- What is before and after the first place a text occurs at. -/
def splitOnce [DecidableEq α] (p : List α) : List α → Option (List α × List α)
  | [] => if p = [] then some ([], []) else none
  | c :: s =>
    if p <+: c :: s then some ([], (c :: s).drop p.length)
    else (splitOnce p s).map fun r => (c :: r.1, r.2)

theorem eq_append_of_splitOnce [DecidableEq α] {p s x y : List α}
    (h : splitOnce p s = some (x, y)) : s = x ++ (p ++ y) := by
  induction s generalizing x with
  | nil =>
    rw [splitOnce] at h
    split_ifs at h with hp
    obtain ⟨rfl, rfl⟩ := Prod.mk.inj (Option.some.inj h)
    rw [hp]
    rfl
  | cons c s ih =>
    rw [splitOnce] at h
    split_ifs at h with hp
    · obtain ⟨rfl, rfl⟩ := Prod.mk.inj (Option.some.inj h)
      obtain ⟨y, hy⟩ := hp
      rw [← hy, List.drop_left, List.nil_append]
    · obtain ⟨r, hr, heq⟩ := Option.map_eq_some_iff.mp h
      obtain ⟨rfl, rfl⟩ := Prod.mk.inj heq
      rw [List.cons_append, ← ih hr]

/-! ## Tags -/

/-- What is left of a page without its tags, from outside one or from inside. -/
def stripTags : Bool → List Char → List Char
  | _, [] => []
  | false, c :: s => if c = '<' then stripTags true s else c :: stripTags false s
  | true, c :: s => stripTags (c ≠ '>') s

theorem stripTags_text {s : List Char} (h : '<' ∉ s) (t : List Char) :
    stripTags false (s ++ t) = s ++ stripTags false t := by
  induction s with
  | nil => rfl
  | cons c s ih =>
    have hc : c ≠ '<' := fun heq => h (heq ▸ List.mem_cons_self)
    rw [List.cons_append, stripTags, if_neg hc, ih fun hmem => h (List.mem_cons_of_mem c hmem)]
    rfl

theorem stripTags_inside {s : List Char} (h : '>' ∉ s) (t : List Char) :
    stripTags true (s ++ '>' :: t) = stripTags false t := by
  induction s with
  | nil => rfl
  | cons c s ih =>
    have hc : c ≠ '>' := fun heq => h (heq ▸ List.mem_cons_self)
    rw [List.cons_append, stripTags, decide_eq_true hc, ih fun hmem => h (List.mem_cons_of_mem c hmem)]

theorem stripTags_tag {s : List Char} (h : '>' ∉ s) (t : List Char) :
    stripTags false ('<' :: (s ++ '>' :: t)) = stripTags false t := by
  rw [stripTags, if_pos rfl, stripTags_inside h]

end Escape
