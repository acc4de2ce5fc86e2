import Mathlib.Data.List.Basic
import Mathlib.Data.List.DropRight

/-!
# Text

The string functions of a systems language's standard library, on the characters of a text.

* `stripPrefix`, `trim`, `toAsciiLower`, `eqIgnoreAsciiCase`, `utf8`.
-/

namespace Text

/-- What follows a prefix. -/
def stripPrefix (p s : List Char) : Option (List Char) :=
  if p.isPrefixOf s then some (s.drop p.length) else none

/-- The characters of Unicode's `White_Space`. -/
def isWhitespace (c : Char) : Bool :=
  let n := c.toNat
  (9 ≤ n && n ≤ 13) || n == 0x20 || n == 0x85 || n == 0xA0 || n == 0x1680 ||
    (0x2000 ≤ n && n ≤ 0x200A) || n == 0x2028 || n == 0x2029 || n == 0x202F || n == 0x205F ||
    n == 0x3000

/-- C0 and C1 control characters. -/
def isControl (c : Char) : Bool :=
  c.toNat ≤ 0x1f || (0x7f ≤ c.toNat && c.toNat ≤ 0x9f)

/-- Drop the whitespace at both ends. -/
def trim (s : List Char) : List Char := (s.dropWhile isWhitespace).rdropWhile isWhitespace

/-- Lowercase the letters `A`–`Z`. -/
def toAsciiLower (s : List Char) : List Char := s.map Char.toLower

/-- Equality up to the case of `A`–`Z`. -/
def eqIgnoreAsciiCase (s t : List Char) : Bool := decide (toAsciiLower s = toAsciiLower t)

/-- The UTF-8 bytes of a text. -/
def utf8 (s : String) : List UInt8 := s.toList.flatMap String.utf8EncodeChar

theorem forall_upper {P : Char → Prop} (h : ∀ n ∈ List.range' 65 26, P (Char.ofNat n)) {c : Char}
    (hup : c.isUpper = true) : P c := by
  obtain ⟨h65, h90⟩ : 65 ≤ c.toNat ∧ c.toNat ≤ 90 := of_decide_eq_true hup
  have hc := h c.toNat (List.mem_range'_1.mpr ⟨h65, by omega⟩)
  rwa [Char.ofNat_toNat] at hc

theorem toLower_eq_self {c : Char} (h : ¬c.isUpper) : c.toLower = c := by
  unfold Char.toLower
  refine dif_neg fun hup => h ?_
  exact decide_eq_true hup

theorem rdropWhile_eq_self {α : Type*} {p : α → Bool} {l : List α} (h : ∀ c ∈ l, p c = false) :
    l.rdropWhile p = l := by
  rw [List.rdropWhile_eq_self_iff]
  intro hl hp
  rw [h _ (List.getLast_mem hl)] at hp
  exact Bool.noConfusion hp

theorem trim_eq_self {s : List Char} (h : ∀ c ∈ s, isWhitespace c = false) : trim s = s := by
  have hd : s.dropWhile isWhitespace = s := by
    cases s with
    | nil => rfl
    | cons c cs => rw [List.dropWhile_cons, h c List.mem_cons_self]; rfl
  rw [trim, hd, rdropWhile_eq_self h]

theorem strip_between {α : Type*} {p : α → Bool} {before l after : List α}
    (hb : ∀ c ∈ before, p c = true) (ha : ∀ c ∈ after, p c = true) (h : ∀ c ∈ l, p c = false) :
    ((before ++ l ++ after).dropWhile p).rdropWhile p = l := by
  have hfront : (before ++ l ++ after).dropWhile p = (l ++ after).dropWhile p := by
    rw [List.append_assoc, List.dropWhile_append_of_pos hb]
  rw [hfront]
  cases l with
  | nil =>
    have hnone : after.dropWhile p = [] := List.dropWhile_eq_nil_iff.mpr ha
    rw [List.nil_append, hnone, List.rdropWhile_nil]
  | cons c l =>
    have hc : p c = false := h c List.mem_cons_self
    have hstop : (c :: l ++ after).dropWhile p = c :: l ++ after := by
      rw [List.cons_append, List.dropWhile_cons_of_neg (by rw [hc]; exact Bool.false_ne_true)]
    rw [hstop, List.rdropWhile, List.reverse_append,
      List.dropWhile_append_of_pos fun d hd => ha d (List.mem_reverse.mp hd)]
    exact rdropWhile_eq_self h

theorem trim_between {before s after : List Char} (hb : ∀ c ∈ before, isWhitespace c = true)
    (ha : ∀ c ∈ after, isWhitespace c = true) (h : ∀ c ∈ s, isWhitespace c = false) :
    trim (before ++ s ++ after) = s :=
  strip_between hb ha h

theorem trim_trim (s : List Char) : trim (trim s) = trim s := by
  have hdrop : (trim s).dropWhile isWhitespace = trim s := by
    rw [List.dropWhile_eq_self_iff]
    intro hl hw
    obtain ⟨rest, hrest⟩ := List.rdropWhile_prefix isWhitespace (l := s.dropWhile isWhitespace)
    have hhead : (s.dropWhile isWhitespace).head? = some ((trim s)[0]) := by
      rw [← hrest]
      change (trim s ++ rest).head? = _
      rw [List.head?_append, List.head?_eq_getElem?, List.getElem?_eq_getElem hl]
      rfl
    have hnot := List.head?_dropWhile_not isWhitespace s
    rw [hhead] at hnot
    simp [hw] at hnot
  rw [trim, hdrop]
  exact List.rdropWhile_idempotent _ _

theorem mem_trim_or {s : List Char} {c : Char} (hc : c ∈ s) :
    c ∈ trim s ∨ isWhitespace c = true := by
  rw [← List.takeWhile_append_dropWhile (p := isWhitespace) (l := s)] at hc
  rcases List.mem_append.mp hc with hfront | hrest
  · exact .inr (List.mem_takeWhile_imp hfront)
  · rw [← List.rdropWhile_append_rtakeWhile (p := isWhitespace)
      (l := s.dropWhile isWhitespace)] at hrest
    rcases List.mem_append.mp hrest with hin | hback
    · exact .inl hin
    · exact .inr (List.mem_rtakeWhile_imp hback)

theorem length_trim_le (s : List Char) : (trim s).length ≤ s.length := by
  have hdrop := (List.rdropWhile_prefix isWhitespace (l := s.dropWhile isWhitespace)).length_le
  have hfront := (List.dropWhile_suffix isWhitespace (l := s)).length_le
  rw [trim]
  omega

end Text
