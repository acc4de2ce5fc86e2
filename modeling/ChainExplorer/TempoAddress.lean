import ChainExplorer.AddressForms

/-!
# Virtual addresses

Four bytes of a master's id, ten of a mark and six of a user's tag (`tempo_address.rs`).

* `parseVirtual`, `virtualAddress`: the fields of an address, and the address of the fields.
* **`parseVirtual_eq_some_iff`**: what parses is the ways to write the bytes of two fields.
* **`parseVirtual_virtualAddress`**: both round trips.
-/

namespace ChainExplorer

open Text

/-- The ten bytes that mark an address as virtual. -/
def virtualMagic : Bytes := List.replicate 10 0xfd

/-- The two fields of a virtual address, which its operator chose. -/
structure VirtualAddress where
  masterId : String
  userTag : String
deriving DecidableEq, Repr

def addressBytes (address : String) : Option Bytes :=
  (Hex.decode (without0x (trim address.toList))).filter fun b => b.length = 20

/-- **The fields of a virtual address**; `none` for any other. -/
def parseVirtual (address : String) : Option VirtualAddress := do
  let bytes ← addressBytes address
  if (bytes.drop 4).take 10 ≠ virtualMagic then none
  else some ⟨blobHex (bytes.take 4), blobHex (bytes.drop 14)⟩

/-- Whether an address has the virtual-address shape. -/
def isVirtual (address : String) : Bool :=
  ((Hex.decode (without0x (trim address.toList))).filter fun b => b.length = 20).any fun b =>
    (b.drop 4).take 10 = List.replicate 10 0xfd

/-- The bytes of a virtual address. -/
def virtualBytes (masterId : Vector UInt8 4) (userTag : Vector UInt8 6) : Bytes :=
  masterId.toList ++ virtualMagic ++ userTag.toList

/-- **A virtual address from its fields.** -/
def virtualAddress [Keccak] (masterId : Vector UInt8 4) (userTag : Vector UInt8 6) : String :=
  checksumAddress (blobHex (virtualBytes masterId userTag))

/-- The fields in hex, as they are parsed. -/
def VirtualAddress.ofFields (masterId : Vector UInt8 4) (userTag : Vector UInt8 6) :
    VirtualAddress :=
  ⟨blobHex masterId.toList, blobHex userTag.toList⟩

/-! ## Bytes -/

section Fields

variable (masterId : Vector UInt8 4) (userTag : Vector UInt8 6)

theorem length_virtualBytes : (virtualBytes masterId userTag).length = 20 := by
  simp [virtualBytes, virtualMagic]

theorem take_virtualBytes : (virtualBytes masterId userTag).take 4 = masterId.toList := by
  rw [virtualBytes, List.append_assoc]
  exact List.take_left' masterId.length_toList

theorem drop_virtualBytes : (virtualBytes masterId userTag).drop 14 = userTag.toList :=
  List.drop_left' (by simp [virtualMagic])

theorem magic_virtualBytes : ((virtualBytes masterId userTag).drop 4).take 10 = virtualMagic := by
  rw [virtualBytes, List.append_assoc, List.drop_left' masterId.length_toList]
  exact List.take_left' rfl

end Fields

theorem exists_fields {bytes : Bytes} (hlength : bytes.length = 20)
    (hmagic : (bytes.drop 4).take 10 = virtualMagic) :
    ∃ masterId userTag, bytes = virtualBytes masterId userTag := by
  have hid : (bytes.take 4).length = 4 := by simp [hlength]
  have htag : (bytes.drop 14).length = 6 := by simp [hlength]
  refine ⟨⟨(bytes.take 4).toArray, hid⟩, ⟨(bytes.drop 14).toArray, htag⟩, ?_⟩
  have hrest : bytes.drop 14 = (bytes.drop 4).drop 10 := by rw [List.drop_drop]
  change bytes = bytes.take 4 ++ virtualMagic ++ bytes.drop 14
  rw [hrest, ← hmagic, List.append_assoc, List.take_append_drop, List.take_append_drop]

/-! ## Round trips -/

theorem addressBytes_eq_some_iff {address : String} {bytes : Bytes} :
    addressBytes address = some bytes ↔
      (∃ a : AddressForm bytes, a.text = address) ∧ bytes.length = 20 := by
  rw [addressBytes, Option.filter_eq_some_iff, decide_eq_true_iff, exists_form_iff]

/-- **What parses is the ways to write the bytes of two fields.** -/
theorem parseVirtual_eq_some_iff {address : String} {v : VirtualAddress} :
    parseVirtual address = some v ↔ ∃ masterId userTag, v = .ofFields masterId userTag ∧
      ∃ a : AddressForm (virtualBytes masterId userTag), a.text = address := by
  unfold parseVirtual
  constructor
  · intro h
    obtain ⟨bytes, hbytes, h⟩ := Option.bind_eq_some_iff.mp h
    obtain ⟨hform, hlength⟩ := addressBytes_eq_some_iff.mp hbytes
    split_ifs at h with hmagic
    obtain ⟨masterId, userTag, rfl⟩ := exists_fields hlength (not_not.mp hmagic)
    refine ⟨masterId, userTag, ?_, hform⟩
    rw [take_virtualBytes, drop_virtualBytes] at h
    exact (Option.some.inj h).symm
  · rintro ⟨masterId, userTag, rfl, hform⟩
    refine Option.bind_eq_some_iff.mpr ⟨virtualBytes masterId userTag,
      addressBytes_eq_some_iff.mpr ⟨hform, length_virtualBytes masterId userTag⟩, ?_⟩
    rw [if_neg (not_not.mpr (magic_virtualBytes masterId userTag)), take_virtualBytes,
      drop_virtualBytes]
    rfl

section Keccak

variable [Keccak]

theorem toAsciiLower_virtualAddress (masterId : Vector UInt8 4) (userTag : Vector UInt8 6) :
    toAsciiLower (virtualAddress masterId userTag).toList =
      '0' :: 'x' :: Hex.encode (virtualBytes masterId userTag) := by
  have h := toAsciiLower_blobAddr (virtualBytes masterId userTag)
  rwa [blobHex, String.toList_ofList] at h

theorem exists_form_of_casing {masterId : Vector UInt8 4} {userTag : Vector UInt8 6}
    {address : String}
    (hcase : toAsciiLower address.toList = toAsciiLower (virtualAddress masterId userTag).toList)
    (hstart : ['0', 'x'] <+: address.toList) :
    ∃ a : AddressForm (virtualBytes masterId userTag), a.text = address := by
  obtain ⟨digits, hdigits⟩ := hstart
  rw [toAsciiLower_virtualAddress, ← hdigits] at hcase
  have hspelled : toAsciiLower digits = Hex.encode (virtualBytes masterId userTag) :=
    (List.cons.inj (List.cons.inj hcase).2).2
  have hnone : ∀ c ∈ ([] : List Char), isWhitespace c = true :=
    fun _ hc => absurd hc List.not_mem_nil
  refine ⟨⟨[], true, digits, [], hnone, hnone, hspelled⟩, ?_⟩
  rw [← String.toList_inj, AddressForm.text, String.toList_ofList, ← hdigits]
  exact List.append_nil _

end Keccak

/-- **Virtual addresses round-trip.** The address of two fields parses as their hex, its digits in
any case; and an address that parses has the spelling of the address of its fields. -/
theorem parseVirtual_virtualAddress [Keccak] :
    (∀ masterId userTag (address : String),
      toAsciiLower address.toList = toAsciiLower (virtualAddress masterId userTag).toList →
        ['0', 'x'] <+: address.toList →
          parseVirtual address = some (.ofFields masterId userTag)) ∧
      ∀ address v, parseVirtual address = some v → ∃ masterId userTag,
        v = .ofFields masterId userTag ∧
          virtualAddress masterId userTag = checksumAddress address := by
  refine ⟨?_, ?_⟩
  · intro masterId userTag address hcase hstart
    exact parseVirtual_eq_some_iff.mpr
      ⟨masterId, userTag, rfl, exists_form_of_casing hcase hstart⟩
  · intro address v h
    obtain ⟨masterId, userTag, hv, a, rfl⟩ := parseVirtual_eq_some_iff.mp h
    have hlength := length_virtualBytes masterId userTag
    refine ⟨masterId, userTag, hv, ?_⟩
    rw [a.checksumAddress_text hlength, ← blobAddr_eq hlength]
    rfl

section Sample

attribute [local instance] Keccak.sponge

theorem parseVirtual_virtualAddress_lower :
    parseVirtual "0xdeadbeeffdfdfdfdfdfdfdfdfdfd010203040506" =
      some ⟨"0xdeadbeef", "0x010203040506"⟩ := by
  refine parseVirtual_virtualAddress.1 #v[0xde, 0xad, 0xbe, 0xef] #v[1, 2, 3, 4, 5, 6] _ ?_ ?_
  · rw [toAsciiLower_virtualAddress]
    decide
  · exact ⟨_, rfl⟩

/-- An uppercase `X` is not stripped. -/
theorem parseVirtual_uppercase :
    toAsciiLower "0XDEADBEEFFDFDFDFDFDFDFDFDFDFD010203040506".toList =
        toAsciiLower (virtualAddress #v[0xde, 0xad, 0xbe, 0xef] #v[1, 2, 3, 4, 5, 6]).toList ∧
      parseVirtual "0XDEADBEEFFDFDFDFDFDFDFDFDFDFD010203040506" = none := by
  refine ⟨?_, by decide⟩
  rw [toAsciiLower_virtualAddress]
  decide

end Sample

end ChainExplorer
