import Mathlib.Data.List.Infix
import ChainExplorer.Lib.Text

/-!
# `LIKE`

SQLite's pattern match: `%` is any text, `_` any character, and what follows the escape character
stands for itself. The case of `A`–`Z` does not count, and a text ends at its first NUL.

* `like`: whether a text matches a pattern.
* `escaped`: a text as a pattern of itself.
* `nocase`: equality under `COLLATE NOCASE`.
* **`like_anywhere`**: a text matches every spelling of it between two `%`.
* **`fits_anywhere_iff`**, **`fits_start_iff`**: an escaped text between two `%`, or before one, fits
  exactly the texts that contain it, or start with it, up to case.
-/

namespace Like

open Text

/-- A text up to its first NUL. -/
def cString (s : List Char) : List Char := s.takeWhile (· ≠ Char.ofNat 0)

/-- A pattern and a text without a NUL. -/
def fits (esc : Char) : List Char → List Char → Bool
  | [], s => s.isEmpty
  | p :: ps, s =>
    if p = esc then
      match ps, s with
      | c :: ps, d :: s => c.toLower = d.toLower && fits esc ps s
      | _, _ => false
    else if p = '%' then s.tails.any fun t => fits esc ps t
    else
      match s with
      | [] => false
      | d :: s => (p = '_' || p.toLower = d.toLower) && fits esc ps s

theorem fits_escape (esc c d : Char) (ps s : List Char) :
    fits esc (esc :: c :: ps) (d :: s) = (c.toLower = d.toLower && fits esc ps s) := by
  rw [fits.eq_def]
  exact if_pos rfl

theorem fits_percent {esc : Char} (h : '%' ≠ esc) (ps s : List Char) :
    fits esc ('%' :: ps) s = s.tails.any fun t => fits esc ps t := by
  rw [fits.eq_def]
  simp only [if_neg h, if_true]

theorem fits_char {esc p : Char} (hesc : p ≠ esc) (hpercent : p ≠ '%') (d : Char)
    (ps s : List Char) :
    fits esc (p :: ps) (d :: s) = ((p = '_' || p.toLower = d.toLower) && fits esc ps s) := by
  rw [fits.eq_def]
  simp only [if_neg hesc, if_neg hpercent]

/-- **`text LIKE pattern ESCAPE esc`**. -/
def like (esc : Char) (pattern text : List Char) : Bool :=
  fits esc (cString pattern) (cString text)

/-- **`s = t COLLATE NOCASE`**, of texts in bytes: the lengths, and the texts up to a NUL. -/
def nocase (s t : List Char) : Bool :=
  (s.flatMap String.utf8EncodeChar).length = (t.flatMap String.utf8EncodeChar).length &&
    eqIgnoreAsciiCase (cString s) (cString t)

/-- `str::replace` of one character. -/
def replaceChar (c : Char) (text : List Char) (s : List Char) : List Char :=
  s.flatMap fun d => if d = c then text else [d]

/-- A text with what is special in a pattern escaped. -/
def escaped (s : List Char) : List Char :=
  replaceChar '_' ['\\', '_'] (replaceChar '%' ['\\', '%'] (replaceChar '\\' ['\\', '\\'] s))

/-- A character of the text, escaped. -/
def escapedChar (c : Char) : List Char :=
  if c = '\\' ∨ c = '%' ∨ c = '_' then ['\\', c] else [c]

theorem escaped_eq_flatMap (s : List Char) : escaped s = s.flatMap escapedChar := by
  have hone : ∀ c : Char, escaped [c] = escapedChar c := by
    intro c
    unfold escapedChar
    by_cases h1 : c = '\\'
    · subst h1
      decide
    by_cases h2 : c = '%'
    · subst h2
      decide
    by_cases h3 : c = '_'
    · subst h3
      decide
    simp [escaped, replaceChar, h1, h2, h3]
  have happend : ∀ s t : List Char, escaped (s ++ t) = escaped s ++ escaped t := by
    intro s t
    simp only [escaped, replaceChar, List.flatMap_append]
  induction s with
  | nil => rfl
  | cons c s ih =>
    rw [← List.singleton_append, happend, hone, ih, List.flatMap_append, List.flatMap_singleton]

/-! ## A text against itself -/

theorem fits_escaped {p t : List Char} (h : toAsciiLower p = toAsciiLower t)
    (rest s : List Char) : fits '\\' (escaped p ++ rest) (t ++ s) = fits '\\' rest s := by
  rw [escaped_eq_flatMap]
  induction p generalizing t with
  | nil =>
    obtain rfl : t = [] := List.map_eq_nil_iff.mp h.symm
    rfl
  | cons c p ih =>
    cases t with
    | nil => exact absurd h (List.cons_ne_nil _ _)
    | cons d t =>
      obtain ⟨hchar, hrest⟩ := List.cons.inj h
      have hchar : c.toLower = d.toLower := hchar
      rw [List.flatMap_cons, List.append_assoc, escapedChar]
      by_cases hspecial : c = '\\' ∨ c = '%' ∨ c = '_'
      · rw [if_pos hspecial]
        rw [List.cons_append, List.cons_append, List.cons_append, List.nil_append, fits_escape,
          hchar, decide_eq_true rfl, Bool.true_and]
        exact ih hrest
      · rw [if_neg hspecial]
        simp only [not_or] at hspecial
        rw [List.cons_append, List.cons_append, List.nil_append, fits_char hspecial.1 hspecial.2.1,
          hchar, decide_eq_true (p := d.toLower = d.toLower) rfl, Bool.or_true,
          Bool.true_and]
        exact ih hrest

theorem fits_percent_self {ps s : List Char} (h : fits '\\' ps s = true) :
    fits '\\' ('%' :: ps) s = true := by
  have hself : s ∈ s.tails := (List.mem_tails s s).mpr List.suffix_rfl
  rw [fits_percent (by decide)]
  exact List.any_eq_true.mpr ⟨s, hself, h⟩

theorem cString_escaped (s t : List Char) : cString (escaped s ++ t) =
    escaped (cString s) ++ if Char.ofNat 0 ∈ s then [] else cString t := by
  rw [escaped_eq_flatMap, escaped_eq_flatMap]
  induction s with
  | nil => rfl
  | cons c s ih =>
    rw [List.flatMap_cons, List.append_assoc]
    by_cases hc : c = Char.ofNat 0
    · subst hc
      rw [if_pos List.mem_cons_self]
      rfl
    · have hplain : ∀ d ∈ escapedChar c, d ≠ Char.ofNat 0 := by
        intro d hd
        unfold escapedChar at hd
        split_ifs at hd
        · rcases List.mem_cons.mp hd with rfl | hd
          · decide
          · exact (List.mem_singleton.mp hd).symm ▸ hc
        · exact (List.mem_singleton.mp hd).symm ▸ hc
      have hcut : cString (escapedChar c ++ (s.flatMap escapedChar ++ t)) =
          escapedChar c ++ cString (s.flatMap escapedChar ++ t) :=
        List.takeWhile_append_of_pos fun d hd => decide_eq_true (hplain d hd)
      have hhead : cString (c :: s) = c :: cString s :=
        List.takeWhile_cons_of_pos (decide_eq_true hc)
      have hmem : Char.ofNat 0 ∈ c :: s ↔ Char.ofNat 0 ∈ s := by
        rw [List.mem_cons, or_iff_right (Ne.symm hc)]
      rw [hcut, ih, hhead, List.flatMap_cons, List.append_assoc]
      simp only [hmem]

theorem toAsciiLower_cString (s : List Char) :
    toAsciiLower (cString s) = cString (toAsciiLower s) := by
  have hnul : ∀ c : Char, decide (c.toLower ≠ Char.ofNat 0) = decide (c ≠ Char.ofNat 0) := by
    intro c
    rw [decide_eq_decide]
    by_cases hup : c.isUpper
    · exact forall_upper (P := fun c => c.toLower ≠ Char.ofNat 0 ↔ c ≠ Char.ofNat 0) (by decide) hup
    · rw [toLower_eq_self hup]
  unfold cString toAsciiLower
  rw [List.takeWhile_map]
  exact congrArg (fun p => (s.takeWhile p).map Char.toLower) (funext fun c => (hnul c).symm)

/-- **A text is found anywhere in its spellings.** -/
theorem like_anywhere {q s : List Char} (h : toAsciiLower s = toAsciiLower q) :
    like '\\' ('%' :: (escaped q ++ ['%'])) s = true := by
  have hspelled : toAsciiLower (cString q) = toAsciiLower (cString s) := by
    rw [toAsciiLower_cString, toAsciiLower_cString, h]
  have hpattern : cString ('%' :: (escaped q ++ ['%'])) = '%' :: cString (escaped q ++ ['%']) := rfl
  have hself := fits_escaped hspelled (if Char.ofNat 0 ∈ q then [] else cString ['%']) []
  rw [like, hpattern, cString_escaped]
  refine fits_percent_self ?_
  rw [List.append_nil] at hself
  rw [hself]
  split_ifs <;> decide

/-! ## What an escaped text fits -/

/-- **An escaped text fits its spellings and nothing else**, and the rest of the pattern the rest of
the text. -/
theorem fits_escaped_iff {p rest s : List Char} : fits '\\' (escaped p ++ rest) s = true ↔
    ∃ t u, s = t ++ u ∧ toAsciiLower t = toAsciiLower p ∧ fits '\\' rest u = true := by
  constructor
  · rw [escaped_eq_flatMap]
    intro h
    induction p generalizing s with
    | nil => exact ⟨[], s, rfl, rfl, h⟩
    | cons c p ih =>
      rw [List.flatMap_cons, List.append_assoc, escapedChar] at h
      cases s with
      | nil =>
        -- No character is left for one of the pattern that is not `%`.
        rw [fits.eq_def] at h
        split_ifs at h <;> simp_all
      | cons d s =>
        have hchar : c.toLower = d.toLower ∧ fits '\\' (p.flatMap escapedChar ++ rest) s = true := by
          by_cases hspecial : c = '\\' ∨ c = '%' ∨ c = '_'
          · rw [if_pos hspecial, List.cons_append, List.cons_append, List.nil_append,
              fits_escape, Bool.and_eq_true, decide_eq_true_iff] at h
            exact h
          · rw [if_neg hspecial] at h
            simp only [not_or] at hspecial
            rw [List.cons_append, List.nil_append, fits_char hspecial.1 hspecial.2.1,
              decide_eq_false hspecial.2.2, Bool.false_or, Bool.and_eq_true,
              decide_eq_true_iff] at h
            exact h
        obtain ⟨t, u, rfl, ht, hu⟩ := ih hchar.2
        refine ⟨d :: t, u, rfl, ?_, hu⟩
        exact congrArg₂ List.cons hchar.1.symm ht
  · rintro ⟨t, u, rfl, ht, hu⟩
    rw [fits_escaped ht.symm, hu]

theorem fits_percent_only (s : List Char) : fits '\\' ['%'] s = true := by
  rw [fits_percent (by decide), List.any_eq_true]
  exact ⟨[], (List.mem_tails _ _).mpr List.nil_suffix, rfl⟩

/-- **Before a `%`** an escaped text fits what starts with it. -/
theorem fits_start_iff {q s : List Char} : fits '\\' (escaped q ++ ['%']) s = true ↔
    toAsciiLower q <+: toAsciiLower s := by
  rw [fits_escaped_iff]
  constructor
  · rintro ⟨t, u, rfl, ht, -⟩
    rw [← ht, toAsciiLower, toAsciiLower, List.map_append]
    exact List.prefix_append _ _
  · rintro ⟨rest, hrest⟩
    obtain ⟨t, u, rfl, ht, -⟩ := List.map_eq_append_iff.mp hrest.symm
    exact ⟨t, u, rfl, ht, fits_percent_only u⟩

/-- **Between two `%`** it fits what contains it. -/
theorem fits_anywhere_iff {q s : List Char} : fits '\\' ('%' :: (escaped q ++ ['%'])) s = true ↔
    toAsciiLower q <:+: toAsciiLower s := by
  rw [fits_percent (by decide), List.any_eq_true]
  constructor
  · rintro ⟨t, ht, hfits⟩
    obtain ⟨before, rfl⟩ := (List.mem_tails _ _).mp ht
    rw [toAsciiLower, toAsciiLower, List.map_append]
    exact (fits_start_iff.mp hfits).isInfix.trans (List.suffix_append _ _).isInfix
  · rintro ⟨before, after, hs⟩
    rw [List.append_assoc] at hs
    obtain ⟨t, u, rfl, -, hu⟩ := List.map_eq_append_iff.mp hs.symm
    refine ⟨u, (List.mem_tails _ _).mpr (List.suffix_append _ _), fits_start_iff.mpr ?_⟩
    exact ⟨after, hu.symm⟩

/-! ## Up to a NUL -/

theorem cString_starts (s : List Char) : cString s <+: s := List.takeWhile_prefix _

theorem cString_eq_self {s : List Char} (h : Char.ofNat 0 ∉ s) : cString s = s := by
  refine List.takeWhile_eq_self_iff.mpr fun c hc => decide_eq_true ?_
  rintro rfl
  exact h hc

theorem prefix_cString {p s : List Char} (h : Char.ofNat 0 ∉ p) (hp : p <+: s) :
    p <+: cString s := by
  obtain ⟨rest, rfl⟩ := hp
  have hcut : cString (p ++ rest) = p ++ cString rest := by
    refine List.takeWhile_append_of_pos fun c hc => decide_eq_true ?_
    rintro rfl
    exact h hc
  rw [hcut]
  exact List.prefix_append _ _

variable {q s : List Char}

theorem nul_not_mem_toAsciiLower (h : Char.ofNat 0 ∉ q) : Char.ofNat 0 ∉ toAsciiLower q := by
  intro hmem
  have hcut : cString (toAsciiLower q) = toAsciiLower q := by
    rw [← toAsciiLower_cString, cString_eq_self h]
  have hnot := List.mem_takeWhile_imp (hcut ▸ hmem)
  simp at hnot

theorem cString_pattern (h : Char.ofNat 0 ∉ q) :
    cString (escaped q ++ ['%']) = escaped q ++ ['%'] := by
  rw [cString_escaped, cString_eq_self h, if_neg h]
  rfl

theorem like_start_iff (h : Char.ofNat 0 ∉ q) : like '\\' (escaped q ++ ['%']) s = true ↔
    toAsciiLower q <+: toAsciiLower s := by
  rw [like, cString_pattern h, fits_start_iff, toAsciiLower_cString]
  exact ⟨fun hq => hq.trans (cString_starts _), prefix_cString (nul_not_mem_toAsciiLower h)⟩

theorem infix_of_like_anywhere (h : Char.ofNat 0 ∉ q)
    (hlike : like '\\' ('%' :: (escaped q ++ ['%'])) s = true) :
    toAsciiLower q <:+: toAsciiLower s := by
  have hpattern : cString ('%' :: (escaped q ++ ['%'])) = '%' :: cString (escaped q ++ ['%']) := rfl
  rw [like, hpattern, cString_pattern h, fits_anywhere_iff, toAsciiLower_cString] at hlike
  exact hlike.trans (cString_starts _).isInfix

theorem utf8Size_toLower (c : Char) : c.toLower.utf8Size = c.utf8Size := by
  by_cases hup : c.isUpper
  · exact forall_upper (P := fun c => c.toLower.utf8Size = c.utf8Size) (by decide) hup
  · rw [toLower_eq_self hup]

theorem length_utf8_congr {s t : List Char} (h : toAsciiLower s = toAsciiLower t) :
    (s.flatMap String.utf8EncodeChar).length = (t.flatMap String.utf8EncodeChar).length := by
  have hlower : ∀ l : List Char, (l.flatMap String.utf8EncodeChar).length =
      ((toAsciiLower l).map Char.utf8Size).sum := by
    intro l
    rw [List.length_flatMap, toAsciiLower, List.map_map]
    congr 1
    refine List.map_congr_left fun c _ => ?_
    rw [String.length_utf8EncodeChar]
    exact (utf8Size_toLower c).symm
  rw [hlower, hlower, h]

theorem nocase_iff (h : Char.ofNat 0 ∉ q) : nocase s q = true ↔ toAsciiLower s = toAsciiLower q := by
  rw [nocase, Bool.and_eq_true, decide_eq_true_iff, eqIgnoreAsciiCase, decide_eq_true_iff,
    cString_eq_self h]
  constructor
  · rintro ⟨hlength, hcut⟩
    -- Of one length with what is before the NUL, the text has none.
    obtain ⟨rest, hrest⟩ := cString_starts s
    have hsame := length_utf8_congr hcut
    rw [← hlength] at hsame
    conv_rhs at hsame => rw [← hrest]
    rw [List.flatMap_append, List.length_append] at hsame
    have hnone : (rest.flatMap String.utf8EncodeChar).length = 0 := by omega
    cases rest with
    | nil =>
      rw [List.append_nil] at hrest
      rwa [hrest] at hcut
    | cons c rest =>
      rw [List.flatMap_cons, List.length_append, String.length_utf8EncodeChar] at hnone
      have hpos := c.utf8Size_pos
      omega
  · intro heq
    refine ⟨length_utf8_congr heq, ?_⟩
    rw [toAsciiLower_cString, heq, ← toAsciiLower_cString, cString_eq_self h]

end Like
