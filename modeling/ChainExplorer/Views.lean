import ChainExplorer.Lib.BigEndian
import ChainExplorer.Tokens

/-!
# What the answer of a view reads as

Return data is the contract's to fill (`tokens.rs`).

* `decodeStringSlices`: a string read slice by slice, each of which may be out of range.
* **`decodeStringResult_exact`**: none ever is, and both ways to write a string read back.
* **`decodeUint256Result_firstWord`**: a number is that of the first word exactly where nothing
  follows it, or all is zero.
-/

namespace ChainExplorer

open Text

theorem bigEndian_eq (bytes : Bytes) : bigEndian bytes = BigEndian.value bytes := rfl

/-- A number as a word of 32 bytes. -/
def abiWord (n : ℕ) : Bytes := BigEndian.bytes 32 n

theorem length_abiWord (n : ℕ) : (abiWord n).length = 32 := BigEndian.length_bytes 32 n

theorem abiWords_blobHex {bytes : Bytes} (h : 32 ≤ bytes.length) :
    abiWords (blobHex bytes) = some bytes := by
  rw [abiWords, blobHex, String.toList_ofList, without0x_cons, Hex.decode_encode,
    Option.filter_some, if_pos (decide_eq_true h)]

theorem wordU64_abiWord (before after : Bytes) {n : ℕ} (h : n < 2 ^ 64) :
    wordU64 (before ++ abiWord n ++ after) before.length = n := by
  have hword : abiWord n = BigEndian.bytes 24 (n / 256 ^ 8) ++ BigEndian.bytes 8 n :=
    BigEndian.bytes_add 24 8 n
  have hdrop : (before ++ abiWord n ++ after).drop (before.length + 24) =
      BigEndian.bytes 8 n ++ after := by
    rw [List.append_assoc, List.drop_append, List.drop_of_length_le (by omega), List.nil_append,
      Nat.add_sub_cancel_left, hword, List.append_assoc,
      List.drop_left' (BigEndian.length_bytes 24 _)]
  rw [wordU64, hdrop, List.take_left' (BigEndian.length_bytes 8 n), bigEndian_eq,
    BigEndian.value_bytes]
  exact Nat.mod_eq_of_lt h

/-! ## Strings -/

/-- `&bytes[start..stop]`; `none` where that is out of range. -/
def slice (bytes : Bytes) (start stop : ℕ) : Option Bytes :=
  if start ≤ stop ∧ stop ≤ bytes.length then some ((bytes.drop start).take (stop - start)) else none

/-- `decodeStringResult` with every slice it takes; `none` where one is out of range. -/
def decodeStringSlices (raw : String) : Option String :=
  match abiWords raw with
  | none => some ""
  | some bytes => do
    let offset := bigEndian (← slice bytes 24 32)
    if 32 ≤ offset ∧ offset + 32 < 2 ^ 64 ∧ offset + 32 ≤ bytes.length then
      let len := bigEndian (← slice bytes (offset + 24) (offset + 32))
      let payload ← slice bytes (offset + 32) bytes.length
      return String.ofList (Utf8.lossy (← slice payload 0 (min len payload.length)))
    else
      let len := min offset (bytes.length - 32)
      return String.ofList (Utf8.lossy (← slice bytes 32 (32 + len)))

theorem slice_of_le {bytes : Bytes} {start stop : ℕ} (h : start ≤ stop) (h' : stop ≤ bytes.length) :
    slice bytes start stop = some ((bytes.drop start).take (stop - start)) := if_pos ⟨h, h'⟩

theorem decodeStringSlices_eq (raw : String) :
    decodeStringSlices raw = some (decodeStringResult raw) := by
  unfold decodeStringSlices decodeStringResult
  cases hwords : abiWords raw with
  | none => rfl
  | some bytes =>
    have hlen : 32 ≤ bytes.length := of_decide_eq_true (Option.filter_eq_some_iff.mp hwords).2
    have hfirst : slice bytes 24 32 = some ((bytes.drop (0 + 24)).take 8) := slice_of_le (by omega) hlen
    have hoffset : bigEndian ((bytes.drop (0 + 24)).take 8) = wordU64 bytes 0 := rfl
    simp only [hfirst, Option.bind_eq_bind, Option.bind_some, hoffset]
    split_ifs with hstandard
    · have hend : wordU64 bytes 0 + 32 - (wordU64 bytes 0 + 24) = 8 := by omega
      have hsecond : slice bytes (wordU64 bytes 0 + 24) (wordU64 bytes 0 + 32) =
          some ((bytes.drop (wordU64 bytes 0 + 24)).take 8) := by
        rw [slice_of_le (by omega) hstandard.2.2, hend]
      have hpayload : slice bytes (wordU64 bytes 0 + 32) bytes.length =
          some (bytes.drop (wordU64 bytes 0 + 32)) := by
        rw [slice_of_le hstandard.2.2 le_rfl, List.take_of_length_le (List.length_drop.le)]
      have hlength : bigEndian ((bytes.drop (wordU64 bytes 0 + 24)).take 8) =
          wordU64 bytes (wordU64 bytes 0) := rfl
      simp only [hsecond, hpayload, Option.bind_some, hlength]
      rw [slice_of_le (Nat.zero_le _) (Nat.min_le_right _ _), Nat.sub_zero, List.drop_zero,
        ← List.take_eq_take_min]
      rfl
    · have htext : slice bytes 32 (32 + min (wordU64 bytes 0) (bytes.length - 32)) =
          some ((bytes.drop 32).take (min (wordU64 bytes 0) (bytes.length - 32))) := by
        rw [slice_of_le (by omega) (by omega), Nat.add_sub_cancel_left]
      simp only [htext, Option.bind_some]
      rfl

/-- A string as the ABI writes it: where it is, its length, and its bytes up to a whole word. -/
def abiString (s : String) : Bytes :=
  abiWord 32 ++ abiWord (utf8 s).length ++ utf8 s ++
    List.replicate (32 * (((utf8 s).length + 31) / 32) - (utf8 s).length) 0

/-- A string in place: its length, its bytes, and whatever follows. -/
def inPlaceString (s : String) (rest : Bytes) : Bytes := abiWord (utf8 s).length ++ utf8 s ++ rest

theorem lossy_utf8 (s : String) : String.ofList (Utf8.lossy (utf8 s)) = s := by
  rw [utf8, Utf8.lossy_encode, String.ofList_toList]

theorem decodeStringResult_abiString {s : String} (h : (utf8 s).length < 2 ^ 64) :
    decodeStringResult (blobHex (abiString s)) = s := by
  set padding := List.replicate (32 * (((utf8 s).length + 31) / 32) - (utf8 s).length) (0 : UInt8)
  have hbytes : abiString s = abiWord 32 ++ abiWord (utf8 s).length ++ (utf8 s ++ padding) := by
    rw [abiString, List.append_assoc _ (utf8 s)]
  have hhead : (abiWord 32 ++ abiWord (utf8 s).length).length = 64 := by
    rw [List.length_append, length_abiWord, length_abiWord]
  have hlength : 64 ≤ (abiString s).length := by
    rw [hbytes, List.length_append]
    omega
  have hoffset : wordU64 (abiString s) 0 = 32 := by
    have hword := wordU64_abiWord [] (abiWord (utf8 s).length ++ utf8 s ++ padding)
      (n := 32) (by decide)
    rw [List.nil_append, List.length_nil] at hword
    rw [abiString, List.append_assoc, List.append_assoc, ← List.append_assoc (abiWord (utf8 s).length)]
    exact hword
  have hlen : wordU64 (abiString s) 32 = (utf8 s).length := by
    have hword := wordU64_abiWord (abiWord 32) (utf8 s ++ padding) h
    rw [length_abiWord, ← hbytes] at hword
    exact hword
  have hstandard : 32 ≤ 32 ∧ 32 + 32 < 2 ^ 64 ∧ 32 + 32 ≤ (abiString s).length :=
    ⟨le_rfl, by decide, hlength⟩
  have hpayload : ((abiString s).drop (32 + 32)).take (utf8 s).length = utf8 s := by
    rw [hbytes, List.drop_left' hhead, List.take_left' rfl]
  rw [decodeStringResult, abiWords_blobHex (by omega)]
  simp only [hoffset, hlen, if_pos hstandard, hpayload, lossy_utf8]

theorem decodeStringResult_inPlace {s : String} (h : (utf8 s).length < 32) (rest : Bytes) :
    decodeStringResult (blobHex (inPlaceString s rest)) = s := by
  have hbytes : inPlaceString s rest = abiWord (utf8 s).length ++ (utf8 s ++ rest) :=
    List.append_assoc ..
  have hlength : (inPlaceString s rest).length = 32 + (utf8 s).length + rest.length := by
    rw [inPlaceString, List.length_append, List.length_append, length_abiWord]
  have hlen : wordU64 (inPlaceString s rest) 0 = (utf8 s).length := by
    have hword := wordU64_abiWord [] (utf8 s ++ rest) (n := (utf8 s).length)
      (by omega)
    rw [List.nil_append, List.length_nil, ← hbytes] at hword
    exact hword
  have hshort : ¬(32 ≤ (utf8 s).length ∧ (utf8 s).length + 32 < 2 ^ 64 ∧
      (utf8 s).length + 32 ≤ (inPlaceString s rest).length) := fun hlong => absurd hlong.1 (by omega)
  have hmin : min (utf8 s).length ((inPlaceString s rest).length - 32) = (utf8 s).length := by omega
  have htext : ((inPlaceString s rest).drop 32).take (utf8 s).length = utf8 s := by
    rw [hbytes, List.drop_left' (length_abiWord _), List.take_left' rfl]
  rw [decodeStringResult, abiWords_blobHex (by omega)]
  simp only [hlen, if_neg hshort, hmin, htext, lossy_utf8]

/-- **A string is read within its bytes, and exactly**: every slice is in range whatever the answer;
what the ABI writes reads as the string, which memory keeps below 64 bits long; and so does a string
shorter than a word in place. -/
theorem decodeStringResult_exact :
    (∀ raw, decodeStringSlices raw = some (decodeStringResult raw)) ∧
      (∀ s : String, (utf8 s).length < 2 ^ 64 → decodeStringResult (blobHex (abiString s)) = s) ∧
      ∀ (s : String) (rest : Bytes), (utf8 s).length < 32 →
        decodeStringResult (blobHex (inPlaceString s rest)) = s :=
  ⟨decodeStringSlices_eq, fun _ => decodeStringResult_abiString,
    fun _ rest h => decodeStringResult_inPlace h rest⟩

/-- A name of a token, both ways. -/
theorem decodeStringResult_exact_name :
    decodeStringResult (blobHex (abiString "TestUSD")) = "TestUSD" ∧
      decodeStringResult (blobHex (inPlaceString "TestUSD" (List.replicate 25 0))) = "TestUSD" :=
  ⟨decodeStringResult_exact.2.1 "TestUSD" (by decide),
    decodeStringResult_exact.2.2 "TestUSD" (List.replicate 25 0) (by decide)⟩

/-! ## Numbers -/

/-- **An answer read as one number**: the decimal of its first word, of which a smaller reader takes
the low 64 bits; the supply of a token and a balance at genesis are that number, below `2 ^ 256`. -/
structure ReadsFirstWord (raw : String) (bytes : Bytes) : Prop where
  value : decodeUint256Result raw = toString (bigEndian (bytes.take 32))
  low : ∀ default, ∃ n : ℕ, decodeUint256Result raw = toString n ∧
    decodeUintResult raw default = wrapI64 (n % 2 ^ 64 : ℕ)
  supply : ∀ address views, viewHex views 3 = raw →
    ∃ n < 2 ^ 256, (tokenMeta address views).totalSupply = toString n
  balance : ∀ answer : Json, answer.asStr.getD "0x" = raw →
    ∃ n < 2 ^ 256, genesisResult (.ok answer) = .ok (toString n)

/-- Nothing follows the first word, or all is zero. -/
def OneWord (bytes : Bytes) : Prop := bytes.length = 32 ∨ ∀ b ∈ bytes, b = 0

theorem bigEndian_firstWord {bytes : Bytes} (hlen : 32 ≤ bytes.length) :
    bigEndian bytes = bigEndian (bytes.take 32) ↔ OneWord bytes := by
  have hsplit : bigEndian bytes =
      bigEndian (bytes.take 32) * 256 ^ (bytes.length - 32) + bigEndian (bytes.drop 32) := by
    rw [bigEndian_eq, bigEndian_eq, bigEndian_eq, ← List.length_drop, ← BigEndian.value_append,
      List.take_append_drop]
  by_cases hone : bytes.length = 32
  · have htake : bytes.take 32 = bytes := List.take_of_length_le hone.le
    rw [htake]
    exact iff_of_true rfl (.inl hone)
  · have hzero : (∀ b ∈ bytes, b = 0) ↔ bigEndian bytes = 0 := BigEndian.value_eq_zero.symm
    rw [OneWord, or_iff_right hone, hzero]
    refine ⟨fun h => ?_, fun h => ?_⟩
    · -- More bytes make any other number larger.
      obtain ⟨k, hk⟩ : ∃ k, bytes.length - 32 = k + 1 := ⟨bytes.length - 33, by omega⟩
      rw [h, hk, pow_succ] at hsplit
      have hpos : 1 ≤ 256 ^ k := Nat.one_le_pow _ _ (by decide)
      have hle : bigEndian (bytes.take 32) * 256 ≤ bigEndian (bytes.take 32) * (256 ^ k * 256) :=
        Nat.mul_le_mul_left _ (by omega)
      omega
    · rw [h] at hsplit
      have hpos : 1 ≤ 256 ^ (bytes.length - 32) := Nat.one_le_pow _ _ (by decide)
      have hle : bigEndian (bytes.take 32) ≤ bigEndian (bytes.take 32) * 256 ^ (bytes.length - 32) :=
        Nat.le_mul_of_pos_right _ hpos
      omega

theorem wordU64_eq {bytes : Bytes} (hlen : 32 ≤ bytes.length) :
    wordU64 bytes 0 = bigEndian (bytes.take 32) % 2 ^ 64 := by
  have hsplit : bytes.take 32 = bytes.take 24 ++ (bytes.drop 24).take 8 :=
    List.take_add (i := 24) (j := 8)
  have hlow : ((bytes.drop 24).take 8).length = 8 := by
    rw [List.length_take, List.length_drop]
    omega
  have hlt := BigEndian.value_lt ((bytes.drop 24).take 8)
  have hword : wordU64 bytes 0 = BigEndian.value ((bytes.drop 24).take 8) := rfl
  have hpow : 256 ^ 8 = 2 ^ 64 := by norm_num
  rw [hlow, hpow] at hlt
  rw [hsplit, bigEndian_eq, BigEndian.value_append, hlow, hword, hpow, Nat.mul_add_mod_of_lt hlt]

/-- **An answer is read as its first word** exactly where nothing follows that word, or all is
zero. -/
theorem decodeUint256Result_firstWord {raw : String} {bytes : Bytes}
    (h : abiWords raw = some bytes) : ReadsFirstWord raw bytes ↔ OneWord bytes := by
  have hlen : 32 ≤ bytes.length := of_decide_eq_true (Option.filter_eq_some_iff.mp h).2
  have hread : decodeUint256Result raw = toString (bigEndian bytes) := by
    rw [decodeUint256Result, h, Option.elim_some]
  rw [← bigEndian_firstWord hlen]
  refine ⟨fun hreads => ?_, fun hone => ?_⟩
  · have hvalue := hread.symm.trans hreads.value
    have hrepr : (bigEndian bytes).repr = (bigEndian (bytes.take 32)).repr := hvalue
    have hdigits := Numeral.digits_repr (bigEndian bytes)
    rw [hrepr, Numeral.digits_repr] at hdigits
    exact (Option.some.inj hdigits).symm
  · have hlt : bigEndian (bytes.take 32) < 2 ^ 256 := by
      have hbound := BigEndian.value_lt (bytes.take 32)
      rw [List.length_take_of_le hlen] at hbound
      exact hbound.trans_eq (by norm_num)
    rw [hone] at hread
    refine ⟨hread, fun default => ⟨_, hread, ?_⟩, fun address views hviews => ⟨_, hlt, ?_⟩,
      fun answer hanswer => ⟨_, hlt, ?_⟩⟩
    · rw [decodeUintResult, h, Option.elim_some, wordU64_eq hlen]
    · rw [← hread, ← hviews]
      rfl
    · rw [← hread, ← hanswer]
      rfl

/-- One word and nothing more. -/
theorem decodeUint256Result_firstWord_one : ReadsFirstWord (blobHex (abiWord 1000)) (abiWord 1000) :=
  (decodeUint256Result_firstWord (abiWords_blobHex (length_abiWord 1000).ge)).mpr
    (.inl (length_abiWord 1000))

/-- A number of 256 bits and one byte more. -/
def longAnswer : Bytes := abiWord (2 ^ 255) ++ [0]

/-- **A byte after the word** makes the number 256 times as large, and more than 256 bits long. -/
theorem decodeUint256Result_long :
    abiWords (blobHex longAnswer) = some longAnswer ∧
      bigEndian (longAnswer.take 32) = 2 ^ 255 ∧
      decodeUint256Result (blobHex longAnswer) = toString (2 ^ 263) ∧
      genesisResult (.ok (.str (blobHex longAnswer))) = .ok (toString (2 ^ 263)) ∧
      ¬ReadsFirstWord (blobHex longAnswer) longAnswer := by
  have hlen : longAnswer.length = 33 := by
    rw [longAnswer, List.length_append, length_abiWord, List.length_singleton]
  have hwords : abiWords (blobHex longAnswer) = some longAnswer := abiWords_blobHex (by omega)
  have hfirst : bigEndian (abiWord (2 ^ 255)) = 2 ^ 255 := by
    rw [bigEndian_eq, abiWord, BigEndian.value_bytes]
    norm_num
  have hpow : (2 : ℕ) ^ 263 = 2 ^ 255 * 256 := by
    rw [show 263 = 255 + 8 from rfl, pow_add]
    norm_num
  have hvalue : bigEndian longAnswer = 2 ^ 263 := by
    rw [longAnswer, bigEndian_eq, BigEndian.value_append, ← bigEndian_eq, hfirst,
      BigEndian.value_singleton, List.length_singleton, pow_one, hpow]
    rfl
  have htake : bigEndian (longAnswer.take 32) = 2 ^ 255 := by
    rw [longAnswer, List.take_left' (length_abiWord _), hfirst]
  have hread : decodeUint256Result (blobHex longAnswer) = toString (2 ^ 263) := by
    rw [decodeUint256Result, hwords, Option.elim_some, hvalue]
  refine ⟨hwords, htake, hread, congrArg Except.ok hread, fun hreads => ?_⟩
  have htext := hread.symm.trans hreads.value
  rw [htake] at htext
  have hdigits := Numeral.digits_repr (2 ^ 263)
  have hrepr : (2 ^ 263 : ℕ).repr = (2 ^ 255 : ℕ).repr := htext
  rw [hrepr, Numeral.digits_repr] at hdigits
  exact absurd (Nat.pow_right_injective le_rfl (Option.some.inj hdigits)) (by decide)

end ChainExplorer
