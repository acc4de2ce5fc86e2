import Mathlib
import ChainExplorer.Address

/-!
# The checksummed spelling

* **`checksumAddress_checksumAddress`**: a checksummed spelling is its own.
* `toAsciiLower_blobAddr`: the case aside, an address is its hexadecimal.
-/

namespace ChainExplorer

open Text

theorem toLower_checksumChar (hash : Vector UInt8 32) (c : Char) (i : ℕ) :
    (checksumChar hash c i).toLower = c.toLower := by
  unfold checksumChar
  simp only [apply_ite Char.toLower, Char.toLower_toUpper_eq_toLower, ite_self]

theorem isWhitespace_of_lt {c : Char} (h : 0x20 < c.toNat) (h' : c.toNat < 0x80) :
    isWhitespace c = false := by
  simp only [isWhitespace, Bool.or_eq_false_iff, Bool.and_eq_false_iff, decide_eq_false_iff_not,
    beq_eq_false_iff_ne]
  omega

theorem isWhitespace_of_nibble? {c : Char} (h : (Hex.nibble? c).isSome) :
    isWhitespace c = false := by
  unfold Hex.nibble? at h
  split_ifs at h with h1 h2 h3
  · have h48 : 48 ≤ c.toNat := h1.1
    have h57 : c.toNat ≤ 57 := h1.2
    exact isWhitespace_of_lt (by omega) (by omega)
  · have h97 : 97 ≤ c.toNat := h2.1
    have h102 : c.toNat ≤ 102 := h2.2
    exact isWhitespace_of_lt (by omega) (by omega)
  · have h65 : 65 ≤ c.toNat := h3.1
    have h70 : c.toNat ≤ 70 := h3.2
    exact isWhitespace_of_lt (by omega) (by omega)
  · exact absurd h nofun

theorem mem_without0x_or {s : List Char} {c : Char} (hc : c ∈ s) :
    c ∈ without0x s ∨ c = '0' ∨ c = 'x' := by
  unfold without0x stripPrefix
  split_ifs with hprefix
  · obtain ⟨rest, rfl⟩ := List.isPrefixOf_iff_prefix.mp hprefix
    rw [List.drop_left, Option.getD_some]
    rcases List.mem_append.mp hc with hzx | hrest
    · simp only [List.mem_cons, List.not_mem_nil, or_false] at hzx
      exact .inr hzx
    · exact .inl hrest
  · exact .inl hc

theorem length_without0x_le (s : List Char) : (without0x s).length ≤ s.length := by
  unfold without0x stripPrefix
  split_ifs
  · exact (List.drop_sublist _ s).length_le
  · exact le_rfl

theorem chars_of_isValidAddress {s : List Char} (h : isValidAddress s = true) :
    (∀ c ∈ s, (Hex.nibble? c).isSome = true ∨ c = 'x') ∧ 40 ≤ s.length := by
  simp only [isValidAddress, Bool.and_eq_true, beq_iff_eq, List.all_eq_true] at h
  refine ⟨fun c hc => ?_, h.1.ge.trans (length_without0x_le s)⟩
  rcases mem_without0x_or hc with hdigit | rfl | rfl
  · exact .inl (h.2 c hdigit)
  · exact .inl rfl
  · exact .inr rfl

theorem isWhitespace_of_isValidAddress {s : List Char} (h : isValidAddress s = true) :
    ∀ c ∈ s, isWhitespace c = false := by
  intro c hc
  rcases (chars_of_isValidAddress h).1 c hc with hnibble | rfl
  · exact isWhitespace_of_nibble? hnibble
  · decide

theorem isWhitespace_of_toLower {c : Char} (h : isWhitespace c.toLower = false) :
    isWhitespace c = false := by
  by_cases hup : c.isUpper
  · obtain ⟨h65, h90⟩ : 65 ≤ c.toNat ∧ c.toNat ≤ 90 := of_decide_eq_true hup
    exact isWhitespace_of_lt (by omega) (by omega)
  · rwa [Char.toLower_eq_of_not_isUpper hup] at h

/-! ## The case of hex digits -/

theorem nibble?_toLower (c : Char) : Hex.nibble? c.toLower = Hex.nibble? c := by
  by_cases hup : c.isUpper
  · exact forall_upper (P := fun c => Hex.nibble? c.toLower = Hex.nibble? c) (by decide) hup
  · rw [Char.toLower_eq_of_not_isUpper hup]

theorem decode_of_toAsciiLower {s t : List Char} (h : toAsciiLower s = toAsciiLower t) :
    Hex.decode s = Hex.decode t := by
  refine Hex.decode_congr ?_
  have hs : ∀ l : List Char, (toAsciiLower l).map Hex.nibble? = l.map Hex.nibble? := by
    intro l
    rw [toAsciiLower, List.map_map]
    exact List.map_congr_left fun c _ => nibble?_toLower c
  rw [← hs s, h, hs t]

theorem toLower_of_nibble? {c : Char} {n : ℕ} (h : Hex.nibble? c = some n) :
    n < 16 ∧ c.toLower = Hex.digit n := by
  have hall : ∀ k < 128, ∀ n, Hex.nibble? (Char.ofNat k) = some n →
      n < 16 ∧ (Char.ofNat k).toLower = Hex.digit n := by decide
  have hc := hall c.toNat (Hex.toNat_lt_of_nibble? h) n
  rw [Char.ofNat_toNat] at hc
  exact hc h

theorem toAsciiLower_of_decode {s : List Char} {bytes : Bytes} (h : Hex.decode s = some bytes) :
    toAsciiLower s = Hex.encode bytes := by
  induction s using Hex.decode.induct generalizing bytes with
  | case1 =>
    cases Option.some.inj h
    rfl
  | case2 a =>
    rw [Hex.decode] at h
    cases h
  | case3 a b rest ih =>
    rw [Hex.decode] at h
    obtain ⟨hi, ha, h⟩ := Option.bind_eq_some_iff.mp h
    obtain ⟨lo, hb, h⟩ := Option.bind_eq_some_iff.mp h
    obtain ⟨tail, htail, h⟩ := Option.bind_eq_some_iff.mp h
    cases Option.some.inj h
    obtain ⟨hi16, hila⟩ := toLower_of_nibble? ha
    obtain ⟨lo16, hlob⟩ := toLower_of_nibble? hb
    have hbyte : (UInt8.ofNat (16 * hi + lo)).toNat = 16 * hi + lo := by
      have hlt : 16 * hi + lo < 256 := by omega
      exact UInt8.toNat_ofNat_of_lt' hlt
    have hhigh : (16 * hi + lo) / 16 = hi := by omega
    have hlow : (16 * hi + lo) % 16 = lo := by omega
    rw [Hex.encode_cons, hbyte, hhigh, hlow, ← hila, ← hlob, ← ih htail]
    rfl

theorem eq_of_toLower_zero {c : Char} (h : c.toLower = '0') : c = '0' := by
  by_cases hup : c.isUpper
  · exact absurd h (forall_upper (P := fun c => c.toLower ≠ '0') (by decide) hup)
  · rwa [Char.toLower_eq_of_not_isUpper hup] at h

theorem eq_of_toLower_x {c : Char} (h : c.toLower = 'x') : c = 'x' ∨ c = 'X' := by
  by_cases hup : c.isUpper
  · exact .inr (forall_upper (P := fun c => c.toLower = 'x' → c = 'X') (by decide) hup h)
  · rw [Char.toLower_eq_of_not_isUpper hup] at h
    exact .inl h

/-! ## The spelling -/

/-- A text in its checksummed spelling. -/
def Checksummed [Keccak] (addr : String) : Prop := ∃ text, addr = checksumAddress text

/-- **A checksummed spelling is its own.** -/
theorem checksumAddress_checksumAddress [Keccak] (addr : String) :
    checksumAddress (checksumAddress addr) = checksumAddress addr := by
  set lower := without0x (toAsciiLower (trim addr.toList)) with hlower
  by_cases hvalid : isValidAddress lower
  · -- The characters of the spelling go back to `lower`.
    have hspell : ∀ t : String, without0x (toAsciiLower (trim t.toList)) = lower →
        checksumAddress t = String.ofList ('0' :: 'x' :: lower.zipIdx.map fun p =>
          checksumChar (Keccak.keccak256 (utf8 (String.ofList lower))) p.1 p.2) := by
      intro t ht
      unfold checksumAddress
      simp only [ht, if_pos hvalid]
    rw [hspell addr rfl, hspell]
    have hlow : ∀ c ∈ lower, c.toLower = c := by
      intro c hc
      have hmem : c ∈ toAsciiLower (trim addr.toList) := by
        rw [hlower, without0x, stripPrefix] at hc
        split_ifs at hc
        · exact List.mem_of_mem_drop hc
        · exact hc
      obtain ⟨c', -, rfl⟩ := List.mem_map.mp hmem
      exact Char.toLower_toLower_eq_toLower c'
    set hash := Keccak.keccak256 (utf8 (String.ofList lower))
    set chars := lower.zipIdx.map fun p => checksumChar hash p.1 p.2 with hchars
    have hback : toAsciiLower chars = lower := by
      rw [hchars, toAsciiLower, List.map_map]
      conv_rhs => rw [← List.zipIdx_map_fst 0 lower]
      refine List.map_congr_left fun p hp => ?_
      have hp := hlow p.1 (List.fst_mem_of_mem_zipIdx hp)
      exact (toLower_checksumChar hash p.1 p.2).trans hp
    have hplain : ∀ c ∈ '0' :: 'x' :: chars, isWhitespace c = false := by
      intro c hc
      rcases List.mem_cons.mp hc with rfl | hc
      · decide
      rcases List.mem_cons.mp hc with rfl | hc
      · decide
      refine isWhitespace_of_toLower (isWhitespace_of_isValidAddress hvalid c.toLower ?_)
      rw [← hback]
      exact List.mem_map_of_mem hc
    rw [String.toList_ofList, trim_eq_self hplain]
    show without0x ('0' :: 'x' :: toAsciiLower chars) = lower
    rw [hback, without0x_cons]
  · have hspell : ∀ t : String, trim t.toList = trim addr.toList →
        checksumAddress t = String.ofList (trim addr.toList) := by
      intro t ht
      unfold checksumAddress
      simp only [ht, ← hlower, if_neg hvalid]
    rw [hspell addr rfl, hspell]
    rw [String.toList_ofList, trim_trim]

theorem Checksummed.eq [Keccak] {addr : String} (h : Checksummed addr) :
    checksumAddress addr = addr := by
  obtain ⟨text, rfl⟩ := h
  exact checksumAddress_checksumAddress text

/-- A stored address as it is shown is its hexadecimal, but for the case. -/
theorem toAsciiLower_blobAddr [Keccak] (bytes : Bytes) :
    toAsciiLower (blobAddr bytes).toList = (blobHex bytes).toList := by
  have hlow : without0x (toAsciiLower ('0' :: 'x' :: Hex.encode bytes)) = Hex.encode bytes := by
    rw [toAsciiLower, List.map_cons, List.map_cons, ← toAsciiLower, toAsciiLower_encode]
    exact without0x_cons _
  unfold blobAddr checksumAddress
  simp only [blobHex, String.toList_ofList, trim_blobHex, hlow]
  split_ifs
  · rw [String.toList_ofList, toAsciiLower, List.map_cons, List.map_cons, List.map_map]
    have hdigits : ((Hex.encode bytes).zipIdx.map (Char.toLower ∘ fun p =>
        checksumChar (Keccak.keccak256 (utf8 (String.ofList (Hex.encode bytes)))) p.1 p.2)) =
          Hex.encode bytes := by
      conv_rhs => rw [← toAsciiLower_encode, toAsciiLower,
        ← List.zipIdx_map_fst 0 (Hex.encode bytes), List.map_map]
      exact List.map_congr_left fun p _ => toLower_checksumChar _ p.1 p.2
    rw [hdigits]
    rfl
  · rw [String.toList_ofList, toAsciiLower, List.map_cons, List.map_cons, ← toAsciiLower,
      toAsciiLower_encode]
    rfl

theorem ascii_blobAddr [Keccak] (bytes : Bytes) : ∀ c ∈ (blobAddr bytes).toList, c.toNat < 128 := by
  intro c hc
  refine ascii_of_toLower ?_
  have hlower : c.toLower ∈ toAsciiLower (blobAddr bytes).toList := List.mem_map_of_mem hc
  rw [toAsciiLower_blobAddr, blobHex, String.toList_ofList, List.mem_cons, List.mem_cons] at hlower
  rcases hlower with hzero | hx | hdigit
  · rw [hzero]
    decide
  · rw [hx]
    decide
  · exact Hex.ascii_of_mem_encode hdigit

end ChainExplorer
