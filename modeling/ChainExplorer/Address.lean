import ChainExplorer.Lib.Hex
import ChainExplorer.Lib.Keccak
import ChainExplorer.Lib.Text

/-!
# Addresses and hashes, as text and as stored bytes

Hashes and addresses are stored binary and shown as `0x…` text, addresses in their EIP-55
spelling.

* `checksumAddress`, `isValidAddress`: the spelling (`decoder.rs`). Keccak-256 is a parameter.
* `hexBlob`, `blobHex`, `blobAddr`: to storage and back (`db.rs`).
* **`hexBlob_blobAddr`**: what is read from storage goes back to the same bytes.
-/

namespace ChainExplorer

open Text

/-- A blob column's value. -/
abbrev Bytes := List UInt8

/-- The hash function the spelling of an address comes from. -/
class Keccak where
  keccak256 : Bytes → Vector UInt8 32

/-- The hash itself; everything here holds of any. -/
@[reducible] def Keccak.sponge : Keccak := ⟨Keccak256.hash⟩

/-- **Lowercase of the whole of Unicode.** A parameter, by what is relied on: it is the ASCII one on
ASCII, and nothing else lowers to hex digits. -/
class Lowercase where
  toLowercase : String → String
  ascii : ∀ s : String, (∀ c ∈ s.toList, c.toNat < 128) →
    toLowercase s = String.ofList (toAsciiLower s.toList)
  hex : ∀ s : String, (∀ c ∈ (toLowercase s).toList, ∃ n < 16, c = Hex.digit n) →
    ∀ c ∈ s.toList, c.toNat < 128

theorem ascii_of_toLower {c : Char} (h : c.toLower.toNat < 128) : c.toNat < 128 := by
  unfold Char.toLower at h
  split_ifs at h with hupper
  · have hle : c.toNat ≤ 90 := hupper.2
    omega
  · exact h

/-- Lowercase of ASCII only. -/
@[reducible] def Lowercase.plain : Lowercase where
  toLowercase s := String.ofList (toAsciiLower s.toList)
  ascii _ _ := rfl
  hex s h c hc := by
    rw [String.toList_ofList] at h
    obtain ⟨n, hn, hdigit⟩ := h c.toLower (List.mem_map_of_mem hc)
    have hascii : ∀ n < 16, (Hex.digit n).toNat < 128 := by decide
    exact ascii_of_toLower (hdigit ▸ hascii n hn)

def zeroAddress : String := "0x0000000000000000000000000000000000000000"

/-- `s.strip_prefix("0x").unwrap_or(s)`. -/
def without0x (s : List Char) : List Char := (stripPrefix ['0', 'x'] s).getD s

/-- Twenty hex-encoded bytes: the shape, not the checksum. -/
def isValidAddress (addr : List Char) : Bool :=
  let s := without0x addr
  s.length == 40 && s.all fun c => (Hex.nibble? c).isSome

section Keccak

variable [Keccak]

/-- The letter at position `i` of an address, uppercase where the hash's nibble says so. -/
def checksumChar (hash : Vector UInt8 32) (c : Char) (i : ℕ) : Char :=
  let nibble := (hash.toList.getD (i / 2) 0 >>> if i % 2 = 0 then 4 else 0) &&& 0x0f
  if c.isAlpha && 8 ≤ nibble then c.toUpper else c

/-- EIP-55 spelling of any 40 hex digits, with or without `0x`; any other text is only trimmed.
`to_lowercase` is the ASCII one here: no other character lowers to a hex digit. -/
def checksumAddress (addr : String) : String :=
  let trimmed := trim addr.toList
  let lower := without0x (toAsciiLower trimmed)
  if isValidAddress lower then
    let hash := Keccak.keccak256 (utf8 (String.ofList lower))
    String.ofList ('0' :: 'x' :: lower.zipIdx.map fun p => checksumChar hash p.1 p.2)
  else String.ofList trimmed

end Keccak

/-! ## Storage -/

/-- The bytes a hash or an address is stored as; a text that is not hex is stored as it is. -/
def hexBlob (s : String) : Bytes := (Hex.decode (without0x s.toList)).getD (utf8 s)

/-- Stored bytes as `0x…` text. -/
def blobHex (bytes : Bytes) : String := String.ofList ('0' :: 'x' :: Hex.encode bytes)

/-- One stored address, in its checksummed spelling. -/
def blobAddr [Keccak] (bytes : Bytes) : String := checksumAddress (blobHex bytes)

/-! ## Round trip -/

theorem without0x_cons (s : List Char) : without0x ('0' :: 'x' :: s) = s := by
  simp [without0x, stripPrefix]

theorem without0x_encode (bytes : Bytes) : without0x (Hex.encode bytes) = Hex.encode bytes := by
  cases bytes with
  | nil => rfl
  | cons b bs =>
    have hx : ∀ n < 16, Hex.digit n ≠ 'x' := by decide
    have hlow : b.toNat % 16 < 16 := Nat.mod_lt _ (by decide)
    have hne : 'x' ≠ Hex.digit (b.toNat % 16) := (hx _ hlow).symm
    rw [Hex.encode_cons, without0x, stripPrefix, if_neg]
    · rfl
    · simp [hne]

theorem hexBlob_of_decode {s : List Char} {bytes : Bytes} (h : Hex.decode s = some bytes) :
    hexBlob (String.ofList ('0' :: 'x' :: s)) = bytes := by
  rw [hexBlob, String.toList_ofList, without0x_cons, h, Option.getD_some]

theorem hexBlob_blobHex (bytes : Bytes) : hexBlob (blobHex bytes) = bytes :=
  hexBlob_of_decode (Hex.decode_encode bytes)

theorem digit_facts {n : ℕ} (h : n < 16) : isWhitespace (Hex.digit n) = false ∧
    (Hex.digit n).toLower = Hex.digit n ∧
      Hex.nibble? (Hex.digit n).toUpper = Hex.nibble? (Hex.digit n) := by
  revert n
  decide

theorem nibble?_checksumChar (hash : Vector UInt8 32) {c : Char} {bytes : Bytes}
    (hc : c ∈ Hex.encode bytes) (i : ℕ) :
    Hex.nibble? (checksumChar hash c i) = Hex.nibble? c := by
  obtain ⟨n, hn, rfl⟩ := Hex.exists_digit_of_mem_encode hc
  unfold checksumChar
  simp only [apply_ite Hex.nibble?, (digit_facts hn).2.2, ite_self]

theorem trim_blobHex (bytes : Bytes) :
    trim ('0' :: 'x' :: Hex.encode bytes) = '0' :: 'x' :: Hex.encode bytes := by
  refine trim_eq_self fun c hc => ?_
  rcases List.mem_cons.mp hc with rfl | hc
  · decide
  rcases List.mem_cons.mp hc with rfl | hc
  · decide
  obtain ⟨n, hn, rfl⟩ := Hex.exists_digit_of_mem_encode hc
  exact (digit_facts hn).1

theorem toAsciiLower_encode (bytes : Bytes) :
    toAsciiLower (Hex.encode bytes) = Hex.encode bytes := by
  have h : ∀ c ∈ Hex.encode bytes, c.toLower = c := fun c hc => by
    obtain ⟨n, hn, rfl⟩ := Hex.exists_digit_of_mem_encode hc
    exact (digit_facts hn).2.1
  exact (List.map_congr_left h).trans (List.map_id' _)

/-- **What is read from storage goes back to the same bytes.** -/
theorem hexBlob_blobAddr [Keccak] (bytes : Bytes) : hexBlob (blobAddr bytes) = bytes := by
  have hlow : without0x (toAsciiLower ('0' :: 'x' :: Hex.encode bytes)) = Hex.encode bytes := by
    rw [toAsciiLower, List.map_cons, List.map_cons, ← toAsciiLower, toAsciiLower_encode]
    exact without0x_cons _
  unfold blobAddr checksumAddress
  simp only [blobHex, String.toList_ofList, trim_blobHex, hlow]
  split_ifs
  · refine hexBlob_of_decode ?_
    rw [← Hex.decode_encode bytes]
    refine Hex.decode_congr ?_
    rw [List.map_map]
    conv_rhs => rw [← List.zipIdx_map_fst 0 (Hex.encode bytes), List.map_map]
    refine List.map_congr_left fun p hp => ?_
    exact nibble?_checksumChar _ (List.fst_mem_of_mem_zipIdx hp) _
  · exact hexBlob_blobHex bytes

theorem checksumChar_of_not_alpha (hash : Vector UInt8 32) {c : Char} (hc : c.isAlpha = false)
    (i : ℕ) : checksumChar hash c i = c := by
  simp [checksumChar, hc]

/-- An address of digits alone is spelled as it is, whatever the hash. -/
theorem blobAddr_of_digits [Keccak] {bytes : Bytes}
    (h : ∀ c ∈ Hex.encode bytes, c.isAlpha = false) : blobAddr bytes = blobHex bytes := by
  have hlow : without0x (toAsciiLower ('0' :: 'x' :: Hex.encode bytes)) = Hex.encode bytes := by
    rw [toAsciiLower, List.map_cons, List.map_cons, ← toAsciiLower, toAsciiLower_encode]
    exact without0x_cons _
  unfold blobAddr checksumAddress
  simp only [blobHex, String.toList_ofList, trim_blobHex, hlow]
  split_ifs
  · congr 3
    conv_rhs => rw [← List.zipIdx_map_fst 0 (Hex.encode bytes)]
    refine List.map_congr_left fun p hp => ?_
    exact checksumChar_of_not_alpha _ (h _ (List.fst_mem_of_mem_zipIdx hp)) _
  · rfl

theorem blobAddr_injective [Keccak] : Function.Injective blobAddr := fun a b h => by
  rw [← hexBlob_blobAddr a, ← hexBlob_blobAddr b, h]

end ChainExplorer
