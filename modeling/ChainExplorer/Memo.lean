import ChainExplorer.Address
import ChainExplorer.Lib.Utf8
import ChainExplorer.Lib.Words

/-!
# Transfer memos

A memo is whatever bytes the sender put there: a short note, a machine payload, or nothing worth
showing (`memo.rs`).

* `readMemo`: what a memo carries.
* **`readMemo_note`**: a padded note reads back, and what reads as a note is readable.
-/

namespace ChainExplorer

open Text

/-- The words of a text. -/
def splitWhitespace (s : List Char) : List (List Char) :=
  (s.splitOnP isWhitespace).filter fun w => !w.isEmpty

/-- What a memo carries. -/
inductive Memo
  | note (text : String)
  /-- The attribution payload, which marks a payment but reads as noise. -/
  | attribution
  | nothing
deriving DecidableEq, Repr

def mppAttributionPrefix : String := "ef1ed712"

def isMppAttribution (memo : Bytes) : Bool :=
  memo.length = 32 && String.ofList (Hex.encode (memo.take 4)) = mppAttributionPrefix

/-- The displayable text of a memo, without the padding at both ends. -/
def decodeForDisplay (memo : Bytes) : Option String := do
  let payload := (memo.dropWhile (· = 0)).rdropWhile (· = 0)
  if payload.isEmpty then none
  else
    let text ← String.fromUTF8? ⟨payload.toArray⟩
    let normalized := " ".intercalate ((splitWhitespace text.toList).map String.ofList)
    if normalized.isEmpty || normalized.toList.any isControl then none else some normalized

def readMemo (memo : String) : Memo :=
  match Hex.decode (without0x memo.toList) with
  | none => .nothing
  | some bytes =>
    if isMppAttribution bytes then .attribution
    else (decodeForDisplay bytes).elim .nothing .note

theorem isMppAttribution_iff {memo : Bytes} : isMppAttribution memo = true ↔
    memo.length = 32 ∧ memo.take 4 = [0xef, 0x1e, 0xd7, 0x12] := by
  have hdigits : Hex.encode [0xef, 0x1e, 0xd7, 0x12] = mppAttributionPrefix.toList := by decide
  rw [isMppAttribution, Bool.and_eq_true, decide_eq_true_iff, decide_eq_true_iff]
  refine and_congr_right fun _ => ?_
  rw [← String.toList_inj, String.toList_ofList, ← hdigits]
  constructor
  · intro h
    have hdecode := congrArg Hex.decode h
    rw [Hex.decode_encode, Hex.decode_encode] at hdecode
    exact Option.some.inj hdecode
  · intro h
    rw [h]

/-! ## Notes -/

/-- **A note**: words, one space between two of them, and no control character. -/
structure IsNote (text : String) : Prop where
  nonempty : text ≠ ""
  normal : Words.Normal isWhitespace ' ' text.toList
  plain : ∀ c ∈ text.toList, isControl c = false

/-- Bytes in hex, with or without `0x`. -/
def hexText (zeroX : Bool) (bytes : Bytes) : String :=
  String.ofList ((if zeroX then ['0', 'x'] else []) ++ Hex.encode bytes)

/-- A text's bytes with NUL bytes around. -/
def padded (before after : ℕ) (text : String) : Bytes :=
  List.replicate before 0 ++ utf8 text ++ List.replicate after 0

theorem decode_hexText (zeroX : Bool) (bytes : Bytes) :
    Hex.decode (without0x (hexText zeroX bytes).toList) = some bytes := by
  rw [hexText, String.toList_ofList]
  cases zeroX
  · rw [if_neg Bool.false_ne_true, List.nil_append, without0x_encode, Hex.decode_encode]
  · rw [if_pos rfl, List.cons_append, List.cons_append, List.nil_append, without0x_cons,
      Hex.decode_encode]

theorem toList_normalized (s : List Char) :
    (" ".intercalate ((splitWhitespace s).map String.ofList)).toList =
      Words.unwords ' ' (Words.words isWhitespace s) := by
  rw [String.toList_intercalate, List.map_map]
  have hid : String.toList ∘ String.ofList = id := funext fun l => String.toList_ofList
  rw [hid, List.map_id]
  rfl

theorem fromUTF8?_utf8 (text : String) : String.fromUTF8? ⟨(utf8 text).toArray⟩ = some text := by
  have hbytes : (⟨(utf8 text).toArray⟩ : ByteArray) = text.toByteArray := by
    rw [← String.utf8Encode_toList]
    exact ByteArray.ext (by rw [List.utf8Encode, List.data_toByteArray]; rfl)
  rw [hbytes, String.fromUTF8?, dif_pos text.isValidUTF8]
  rfl

section Note

variable {text : String}

theorem toNat_ne_zero_of_isControl {c : Char} (h : isControl c = false) : c.toNat ≠ 0 := by
  intro h0
  rw [isControl, h0] at h
  exact absurd h (by decide)

theorem IsNote.ne_zero (h : IsNote text) : ∀ b ∈ utf8 text, b ≠ 0 := by
  intro b hb
  obtain ⟨c, hc, hbc⟩ := List.mem_flatMap.mp hb
  exact Utf8.ne_zero_of_mem_encodeChar (toNat_ne_zero_of_isControl (h.plain c hc)) hbc

theorem IsNote.strip_padded (h : IsNote text) (before after : ℕ) :
    ((padded before after text).dropWhile (· = 0)).rdropWhile (· = 0) = utf8 text := by
  refine strip_between ?_ ?_ ?_
  · intro b hb
    exact decide_eq_true (List.eq_of_mem_replicate hb)
  · intro b hb
    exact decide_eq_true (List.eq_of_mem_replicate hb)
  · intro b hb
    exact decide_eq_false (h.ne_zero b hb)

theorem utf8_ne_nil (h : text ≠ "") : utf8 text ≠ [] := by
  intro hnil
  have hlist := Utf8.lossy_encode text.toList
  rw [← utf8, hnil, Utf8.lossy] at hlist
  exact h (String.toList_eq_nil_iff.mp hlist.symm)

theorem IsNote.decodeForDisplay_padded (h : IsNote text) (before after : ℕ) :
    decodeForDisplay (padded before after text) = some text := by
  have hbytes : (utf8 text).isEmpty = false :=
    List.isEmpty_eq_false_iff.mpr (utf8_ne_nil h.nonempty)
  have hsame : " ".intercalate ((splitWhitespace text.toList).map String.ofList) = text := by
    rw [← String.toList_inj, toList_normalized]
    exact h.normal
  have hshown : (text.isEmpty || text.toList.any isControl) = false := by
    rw [Bool.or_eq_false_iff, List.any_eq_false]
    refine ⟨?_, fun c hc => Bool.eq_false_iff.mp (h.plain c hc)⟩
    rw [Bool.eq_false_iff, ne_eq, String.isEmpty_iff]
    exact h.nonempty
  unfold decodeForDisplay
  simp only [h.strip_padded, hbytes, Bool.false_eq_true, if_false, fromUTF8?_utf8, hsame, hshown,
    Option.bind_eq_bind, Option.bind_some]

/-- The bytes of a text do not start like the payload: `1e` goes on no character. -/
theorem padded_not_attribution (before after : ℕ) (h : text ≠ "") :
    isMppAttribution (padded before after text) = false := by
  rw [Bool.eq_false_iff, ne_eq, isMppAttribution_iff]
  rintro ⟨-, hfour⟩
  obtain ⟨rest, hstart⟩ : ∃ rest, padded before after text = 0xef :: 0x1e :: rest :=
    ⟨_, by rw [← List.take_append_drop 4 (padded before after text), hfour]; rfl⟩
  cases before with
  | succ before =>
    rw [padded, List.replicate_succ, List.cons_append, List.cons_append] at hstart
    exact absurd (List.cons.inj hstart).1 (by decide)
  | zero =>
    cases hs : text.toList with
    | nil => exact h (String.toList_eq_nil_iff.mp hs)
    | cons c s =>
      rw [padded, utf8, hs, List.replicate_zero, List.nil_append, List.flatMap_cons] at hstart
      rcases Utf8.encodeChar_cases c with ⟨hlt, hone⟩ | ⟨b0, b1, l, hmore, -, hcont⟩
      · rw [hone, List.singleton_append, List.cons_append] at hstart
        have hbyte := congrArg UInt8.toNat (List.cons.inj hstart).1
        have hsmall : c.toNat < 256 := by omega
        rw [UInt8.toNat_ofNat_of_lt' hsmall] at hbyte
        have hlead : (0xef : UInt8).toNat = 0xef := rfl
        omega
      · rw [hmore, List.cons_append, List.cons_append] at hstart
        have hsecond : b1 = 0x1e := (List.cons.inj (List.cons.inj hstart).2).1
        have hc := hcont b1 List.mem_cons_self
        rw [hsecond] at hc
        exact absurd hc (by decide)

theorem isNote_of_decodeForDisplay {memo : Bytes} (h : decodeForDisplay memo = some text) :
    IsNote text := by
  unfold decodeForDisplay at h
  simp only [Option.ite_none_left_eq_some] at h
  obtain ⟨-, h⟩ := h
  obtain ⟨raw, -, h⟩ := Option.bind_eq_some_iff.mp h
  simp only [Option.ite_none_left_eq_some, Option.some.injEq] at h
  obtain ⟨hshown, rfl⟩ := h
  rw [Bool.or_eq_true, not_or] at hshown
  obtain ⟨hne, hplain⟩ := hshown
  refine ⟨mt String.isEmpty_iff.mpr hne, ?_, ?_⟩
  · rw [toList_normalized]
    exact Words.normal_unwords_words (by decide) _
  · intro c hc
    rw [List.any_eq_true, not_exists] at hplain
    exact Bool.eq_false_iff.mpr fun hcontrol => hplain c ⟨hc, hcontrol⟩

end Note

/-! ## Reading -/

theorem readMemo_of_decode {memo : String} {bytes : Bytes}
    (h : Hex.decode (without0x memo.toList) = some bytes) :
    readMemo memo = if isMppAttribution bytes then .attribution
      else (decodeForDisplay bytes).elim .nothing .note := by
  unfold readMemo
  rw [h]

theorem decodeForDisplay_of_note {memo text : String} (h : readMemo memo = .note text) :
    ∃ bytes, Hex.decode (without0x memo.toList) = some bytes ∧
      decodeForDisplay bytes = some text := by
  cases hdecode : Hex.decode (without0x memo.toList) with
  | none =>
    unfold readMemo at h
    rw [hdecode] at h
    exact Memo.noConfusion h
  | some bytes =>
    rw [readMemo_of_decode hdecode] at h
    split_ifs at h
    refine ⟨bytes, rfl, ?_⟩
    cases hshown : decodeForDisplay bytes with
    | none =>
      rw [hshown] at h
      exact Memo.noConfusion h
    | some shown =>
      rw [hshown] at h
      exact congrArg some (Memo.note.inj h)

/-- **Memos read back.** A note reads back from its bytes in hex, with or without `0x`, whatever NUL
bytes are around them. What reads as a note is one. Thirty-two bytes with the prefix of the
attribution payload read as that, so never as a note. -/
theorem readMemo_note :
    (∀ note, IsNote note → ∀ before after zeroX,
      readMemo (hexText zeroX (padded before after note)) = .note note) ∧
      (∀ memo note, readMemo memo = .note note → IsNote note) ∧
      ∀ memo bytes, Hex.decode (without0x memo.toList) = some bytes → bytes.length = 32 →
        bytes.take 4 = [0xef, 0x1e, 0xd7, 0x12] → readMemo memo = .attribution := by
  refine ⟨?_, ?_, ?_⟩
  · intro note hnote before after zeroX
    rw [readMemo_of_decode (decode_hexText zeroX _), padded_not_attribution before after
      hnote.nonempty, hnote.decodeForDisplay_padded before after]
    rfl
  · intro memo note h
    obtain ⟨bytes, -, hshown⟩ := decodeForDisplay_of_note h
    exact isNote_of_decodeForDisplay hshown
  · intro memo bytes hdecode hlength hfour
    rw [readMemo_of_decode hdecode, if_pos (isMppAttribution_iff.mpr ⟨hlength, hfour⟩)]

theorem forall_of_any {p : Char → Bool} {s : List Char} (h : s.any p = false) :
    ∀ c ∈ s, p c = false := fun c hc => Bool.eq_false_iff.mpr (List.any_eq_false.mp h c hc)

theorem readMemo_note_invoice :
    readMemo (hexText true (padded 0 22 "invoice 42")) = .note "invoice 42" ∧
      readMemo (hexText false ([0xef, 0x1e, 0xd7, 0x12] ++ List.replicate 28 0x41)) =
        .attribution := by
  have hwords : "invoice 42".toList =
      Words.unwords ' ' ["invoice".toList, "42".toList] := by decide
  have hnoBlank : ∀ w ∈ ["invoice".toList, "42".toList],
      w ≠ [] ∧ ∀ c ∈ w, isWhitespace c = false := by
    rw [List.forall_mem_cons, List.forall_mem_singleton]
    exact ⟨⟨by decide, forall_of_any (by decide)⟩, by decide, forall_of_any (by decide)⟩
  have hnormal : Words.Normal isWhitespace ' ' "invoice 42".toList := by
    rw [Words.Normal, hwords, Words.words_unwords (by decide) hnoBlank]
  obtain ⟨hnote, -, hattribution⟩ := readMemo_note
  exact ⟨hnote "invoice 42" ⟨by decide, hnormal, forall_of_any (by decide)⟩ 0 22 true,
    hattribution _ _ (decode_hexText false _) rfl rfl⟩

end ChainExplorer
