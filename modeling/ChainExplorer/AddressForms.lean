import ChainExplorer.Spelling

/-!
# One spelling for an address

An address comes in any case, with or without `0x`, and with whitespace around it.

* `AddressForm`: a text that is an address, by its bytes.
* **`exists_form_iff`**: these are the texts that read as the bytes.
* **`checksumAddress_form`**: all of them have one spelling, which the bytes have too, also from
  storage.
-/

namespace ChainExplorer

open Text

/-- **A way to write an address**: its digits in any case, with or without `0x`, and whitespace
around. -/
structure AddressForm (bytes : Bytes) where
  before : List Char
  zeroX : Bool
  digits : List Char
  after : List Char
  blankBefore : ∀ c ∈ before, isWhitespace c = true
  blankAfter : ∀ c ∈ after, isWhitespace c = true
  spelled : toAsciiLower digits = Hex.encode bytes

namespace AddressForm

variable {bytes : Bytes} (a : AddressForm bytes)

/-- The text without the whitespace. -/
def core : List Char := (if a.zeroX then ['0', 'x'] else []) ++ a.digits

def text : String := String.ofList (a.before ++ a.core ++ a.after)

def trimmed : String := String.ofList a.core

theorem isWhitespace_digits : ∀ c ∈ a.digits, isWhitespace c = false := by
  intro c hc
  refine isWhitespace_of_toLower ?_
  have hmem : c.toLower ∈ Hex.encode bytes := a.spelled ▸ List.mem_map_of_mem hc
  obtain ⟨n, hn, hdigit⟩ := Hex.exists_digit_of_mem_encode hmem
  rw [hdigit]
  exact (digit_facts hn).1

theorem isWhitespace_core : ∀ c ∈ a.core, isWhitespace c = false := by
  intro c hc
  rcases List.mem_append.mp hc with hzx | hdigits
  · split_ifs at hzx
    · simp only [List.mem_cons, List.not_mem_nil, or_false] at hzx
      rcases hzx with rfl | rfl <;> decide
    · exact absurd hzx List.not_mem_nil
  · exact a.isWhitespace_digits c hdigits

theorem trim_text : trim a.text.toList = a.core := by
  rw [text, String.toList_ofList]
  exact trim_between a.blankBefore a.blankAfter a.isWhitespace_core

theorem trim_trimmed : trim a.trimmed.toList = a.core := by
  rw [trimmed, String.toList_ofList]
  exact trim_eq_self a.isWhitespace_core

theorem without0x_digits : without0x a.digits = a.digits := by
  rw [without0x, stripPrefix, if_neg]
  · rfl
  · intro hprefix
    obtain ⟨rest, hrest⟩ := List.isPrefixOf_iff_prefix.mp hprefix
    have hlower : Hex.encode bytes = '0' :: 'x' :: toAsciiLower rest := by
      rw [← a.spelled, ← hrest]
      rfl
    have hdrop := without0x_encode bytes
    rw [hlower, without0x_cons] at hdrop
    have hlen := congrArg List.length hdrop
    simp only [List.length_cons] at hlen
    omega

theorem without0x_core : without0x a.core = a.digits := by
  rw [core]
  split_ifs
  · exact without0x_cons a.digits
  · exact a.without0x_digits

theorem without0x_toAsciiLower_core : without0x (toAsciiLower a.core) = Hex.encode bytes := by
  rw [core, ← a.spelled]
  split_ifs
  · exact without0x_cons (toAsciiLower a.digits)
  · rw [List.nil_append, a.spelled, without0x_encode]

theorem decode_digits : Hex.decode a.digits = some bytes := by
  have hdigits : toAsciiLower a.digits = toAsciiLower (Hex.encode bytes) := by
    rw [a.spelled, toAsciiLower_encode]
  rw [decode_of_toAsciiLower hdigits, Hex.decode_encode]

theorem hexBlob_trimmed : hexBlob a.trimmed = bytes := by
  rw [hexBlob, trimmed, String.toList_ofList, a.without0x_core, a.decode_digits, Option.getD_some]

theorem decode_text : Hex.decode (without0x (trim a.text.toList)) = some bytes := by
  rw [a.trim_text, a.without0x_core, a.decode_digits]

end AddressForm

theorem exists_before_after (s : List Char) : ∃ before after,
    (∀ c ∈ before, isWhitespace c = true) ∧ (∀ c ∈ after, isWhitespace c = true) ∧
      s = before ++ trim s ++ after := by
  refine ⟨s.takeWhile isWhitespace, (s.dropWhile isWhitespace).rtakeWhile isWhitespace,
    fun c hc => List.mem_takeWhile_imp hc, fun c hc => List.mem_rtakeWhile_imp hc, ?_⟩
  rw [List.append_assoc, trim, List.rdropWhile_append_rtakeWhile,
    List.takeWhile_append_dropWhile]

theorem exists_zeroX (s : List Char) :
    ∃ zeroX : Bool, s = (if zeroX then ['0', 'x'] else []) ++ without0x s := by
  unfold without0x stripPrefix
  split_ifs with hprefix
  · obtain ⟨rest, rfl⟩ := List.isPrefixOf_iff_prefix.mp hprefix
    exact ⟨true, by rw [List.drop_left]; rfl⟩
  · exact ⟨false, rfl⟩

/-- **The ways to write bytes are the texts that read as them.** -/
theorem exists_form_iff {text : String} {bytes : Bytes} :
    (∃ a : AddressForm bytes, a.text = text) ↔
      Hex.decode (without0x (trim text.toList)) = some bytes := by
  constructor
  · rintro ⟨a, rfl⟩
    exact a.decode_text
  · intro h
    obtain ⟨before, after, hbefore, hafter, htext⟩ := exists_before_after text.toList
    obtain ⟨zeroX, hcore⟩ := exists_zeroX (trim text.toList)
    refine ⟨⟨before, zeroX, without0x (trim text.toList), after, hbefore, hafter,
      toAsciiLower_of_decode h⟩, ?_⟩
    rw [AddressForm.text, AddressForm.core]
    simp only [← hcore, ← htext, String.ofList_toList]

/-! ## The spelling -/

theorem isValidAddress_encode {bytes : Bytes} (h : bytes.length = 20) :
    isValidAddress (Hex.encode bytes) = true := by
  rw [isValidAddress]
  simp only [without0x_encode, Bool.and_eq_true, beq_iff_eq, List.all_eq_true]
  refine ⟨by rw [Hex.length_encode, h], fun c hc => ?_⟩
  obtain ⟨n, hn, rfl⟩ := Hex.exists_digit_of_mem_encode hc
  rw [Hex.nibble?_digit hn]
  rfl

section Keccak

variable [Keccak] {bytes : Bytes}

/-- The digits of an address in their cases. -/
def casedDigits (bytes : Bytes) : List Char :=
  (Hex.encode bytes).zipIdx.map fun p =>
    checksumChar (Keccak.keccak256 (utf8 (String.ofList (Hex.encode bytes)))) p.1 p.2

theorem checksumAddress_of_lower (h : bytes.length = 20) {addr : String}
    (hlower : without0x (toAsciiLower (trim addr.toList)) = Hex.encode bytes) :
    checksumAddress addr = String.ofList ('0' :: 'x' :: casedDigits bytes) := by
  unfold checksumAddress
  simp only [hlower, if_pos (isValidAddress_encode h)]
  rfl

theorem AddressForm.checksumAddress_text (h : bytes.length = 20) (a : AddressForm bytes) :
    checksumAddress a.text = String.ofList ('0' :: 'x' :: casedDigits bytes) :=
  checksumAddress_of_lower h (by rw [a.trim_text, a.without0x_toAsciiLower_core])

theorem AddressForm.checksumAddress_trimmed (h : bytes.length = 20) (a : AddressForm bytes) :
    checksumAddress a.trimmed = String.ofList ('0' :: 'x' :: casedDigits bytes) :=
  checksumAddress_of_lower h (by rw [a.trim_trimmed, a.without0x_toAsciiLower_core])

theorem blobAddr_eq (h : bytes.length = 20) :
    blobAddr bytes = String.ofList ('0' :: 'x' :: casedDigits bytes) := by
  refine checksumAddress_of_lower h ?_
  have hlower : toAsciiLower ('0' :: 'x' :: Hex.encode bytes) = '0' :: 'x' :: Hex.encode bytes :=
    congrArg (fun l => '0' :: 'x' :: l) (toAsciiLower_encode bytes)
  rw [blobHex, String.toList_ofList, trim_blobHex, hlower, without0x_cons]

theorem isValidAddress_casedDigits (h : bytes.length = 20) :
    isValidAddress ('0' :: 'x' :: casedDigits bytes) = true := by
  rw [isValidAddress]
  simp only [without0x_cons, Bool.and_eq_true, beq_iff_eq, List.all_eq_true]
  refine ⟨by rw [casedDigits, List.length_map, List.length_zipIdx, Hex.length_encode, h],
    fun c hc => ?_⟩
  obtain ⟨p, hp, rfl⟩ := List.mem_map.mp hc
  have hdigit := List.fst_mem_of_mem_zipIdx hp
  rw [nibble?_checksumChar _ hdigit]
  obtain ⟨n, hn, hdn⟩ := Hex.exists_digit_of_mem_encode hdigit
  rw [hdn, Hex.nibble?_digit hn]
  rfl

end Keccak

/-- **One spelling per address**, whatever the hash: every way to write 20 bytes has the same
spelling of 42 characters, which is a valid address and its own spelling; other bytes have another;
and what is stored of a text without the whitespace reads back as its spelling. -/
theorem checksumAddress_form [Keccak] {bytes bytes' : Bytes} (h : bytes.length = 20)
    (h' : bytes'.length = 20) (a b : AddressForm bytes) (c : AddressForm bytes') :
    checksumAddress a.text = checksumAddress b.text ∧
      (checksumAddress a.text).length = 42 ∧
      isValidAddress (checksumAddress a.text).toList = true ∧
      checksumAddress (checksumAddress a.text) = checksumAddress a.text ∧
      (checksumAddress a.text = checksumAddress c.text ↔ bytes = bytes') ∧
      blobAddr (hexBlob a.trimmed) = checksumAddress a.trimmed ∧
      checksumAddress a.trimmed = checksumAddress a.text := by
  rw [checksumAddress_checksumAddress, a.checksumAddress_text h, b.checksumAddress_text h,
    c.checksumAddress_text h', a.checksumAddress_trimmed h, a.hexBlob_trimmed, ← blobAddr_eq h,
    ← blobAddr_eq h']
  refine ⟨rfl, ?_, ?_, rfl, blobAddr_injective.eq_iff, rfl, rfl⟩
  · rw [blobAddr_eq h, ← String.length_toList, String.toList_ofList]
    simp [casedDigits, Hex.length_encode, h]
  · rw [blobAddr_eq h, String.toList_ofList]
    exact isValidAddress_casedDigits h

section Sample

attribute [local instance] Keccak.sponge

/-- Twenty bytes in capitals, without `0x` and on a line of its own. -/
def shouted : AddressForm (List.replicate 20 0xab) where
  before := []
  zeroX := false
  digits := (List.replicate 20 ['A', 'B']).flatten
  after := ['\n']
  blankBefore := nofun
  blankAfter c hc := by
    rw [List.mem_singleton.mp hc]
    decide
  spelled := by decide

/-- The same with `0x`, in both cases. -/
def mixed : AddressForm (List.replicate 20 0xab) where
  before := [' ']
  zeroX := true
  digits := (List.replicate 20 ['a', 'B']).flatten
  after := []
  blankBefore c hc := by
    rw [List.mem_singleton.mp hc]
    decide
  blankAfter := nofun
  spelled := by decide

theorem checksumAddress_form_shouted :
    checksumAddress shouted.text = checksumAddress mixed.text ∧
      blobAddr (hexBlob mixed.trimmed) = checksumAddress shouted.text := by
  obtain ⟨hsame, -, -, -, -, -, -⟩ := checksumAddress_form rfl rfl shouted mixed mixed
  obtain ⟨-, -, -, -, -, hstored, htrimmed⟩ := checksumAddress_form rfl rfl mixed shouted mixed
  exact ⟨hsame, hstored.trans (htrimmed.trans hsame.symm)⟩

end Sample

end ChainExplorer
