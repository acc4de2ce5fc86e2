import ChainExplorer.Address
import ChainExplorer.Lib.SignedWord

/-!
# Decoded values as text

How the explorer shows the values that an ABI library decodes (`decoder.rs`).

* `ParamType`, `Token`: an ABI type, and a decoded value.
* `formatToken`: a value as text, and whether its arithmetic stays in range.
* `AbiValue`: the values of a type, with signed integers as numbers.
* **`formatToken_signed`**: they are shown as themselves, at any depth.
-/

namespace ChainExplorer

/-- A word of the ABI. -/
abbrev EthersUint := BitVec 256

inductive ParamType
  | address
  | bytes
  | int (bits : ℕ)
  | uint (bits : ℕ)
  | bool
  | string
  | array (elem : ParamType)
  | fixedBytes (size : ℕ)
  | fixedArray (elem : ParamType) (size : ℕ)
  | tuple (types : List ParamType)

/-- A decoded value. Integers are the words they came in. -/
inductive Token
  | address (addr : Vector UInt8 20)
  | fixedBytes (bytes : Bytes)
  | bytes (bytes : Bytes)
  | int (n : EthersUint)
  | uint (n : EthersUint)
  | bool (b : Bool)
  | string (s : String)
  | fixedArray (items : List Token)
  | array (items : List Token)
  | tuple (items : List Token)

/-- The text the ABI library gives a value by itself. -/
class AbiDisplay where
  display : Token → String

/-- `hex_bytes`. -/
def hexBytes (value : Bytes) : String := blobHex value

/-- A word as a decimal. -/
def decimal (n : EthersUint) : String := toString n.toNat

/-- The branch of signed integers. -/
def formatInt (bits : ℕ) (n : EthersUint) : Arith String := do
  let unused ← Arith.fit .u64 (256 - bits)
  let mask ← Arith.shiftRight (BitVec.allOnes 256) unused.toNat
  let n := n &&& mask
  let place ← Arith.fit .u64 (bits - 1)
  let signBit ← Arith.shiftLeft 1#256 place.toNat
  if n < signBit then pure (decimal n)
  else do
    let magnitude ← Arith.addWords (n ^^^ mask) 1#256
    pure ("-" ++ decimal magnitude)

def brackets (parts : List String) : String := "[" ++ ", ".intercalate parts ++ "]"

def parens (parts : List String) : String := "(" ++ ", ".intercalate parts ++ ")"

section Format

variable [Keccak] [AbiDisplay]

mutual

/-- **`format_token`.** -/
def formatToken : ParamType → Token → Arith String
  | .address, .address addr => pure (checksumAddress (String.ofList (Hex.encode addr.toList)))
  | .bool, .bool b => pure (toString b)
  | .uint _, .uint n => pure (decimal n)
  | .int bits, .int n => formatInt bits n
  | .fixedBytes _, .fixedBytes bytes => pure (hexBytes bytes)
  | .bytes, .bytes bytes => pure (hexBytes bytes)
  | .string, .string s => pure s
  | .array elem, .array items => do pure (brackets (← formatItems elem items))
  | .fixedArray elem _, .fixedArray items => do pure (brackets (← formatItems elem items))
  | .tuple types, .tuple items => do pure (parens (← formatFields types items))
  | _, token => pure (AbiDisplay.display token)

def formatItems (elem : ParamType) : List Token → Arith (List String)
  | [] => pure []
  | t :: items => do
    let part ← formatToken elem t
    pure (part :: (← formatItems elem items))

/-- Types and values are paired as far as there are both. -/
def formatFields : List ParamType → List Token → Arith (List String)
  | ty :: types, t :: items => do
    let part ← formatToken ty t
    pure (part :: (← formatFields types items))
  | _, _ => pure []

end

end Format

/-! ## Signed integers -/

section Ints

open SignedWord

theorem shiftRight_eq {w : ℕ} (h0 : 0 < w) (hw : w ≤ 256) :
    Arith.shiftRight (BitVec.allOnes 256) (256 - w) = ⟨(BitVec.allOnes w).setWidth 256, true⟩ := by
  have hlt : 256 - w < 256 := by omega
  rw [Arith.shiftRight, mask_eq hw, decide_eq_true hlt]

theorem shiftLeft_eq {w : ℕ} (h0 : 0 < w) (hw : w ≤ 256) :
    Arith.shiftLeft 1#256 (w - 1) = ⟨1#256 <<< (w - 1), true⟩ := by
  have hone : (1#256).toNat * 2 ^ (w - 1) < 2 ^ 256 := by
    rw [show (1#256).toNat = 1 from rfl, Nat.one_mul]
    exact Nat.pow_lt_pow_right Nat.one_lt_two (by omega)
  have hlt : w - 1 < 256 := by omega
  rw [Arith.shiftLeft, decide_eq_true (And.intro hlt hone)]

theorem neg_append_toString {n : ℕ} {v : ℤ} (hv : v < 0) (hn : (n : ℤ) = -v) :
    "-" ++ toString n = toString v := by
  obtain ⟨k, rfl⟩ := Int.eq_negSucc_of_lt_zero hv
  obtain rfl : n = k + 1 := by omega
  rfl

theorem formatInt_eq {w : ℕ} (h0 : 0 < w) (hw : w ≤ 256) (n : EthersUint) :
    formatInt w n = ⟨toString (n.setWidth w).toInt, true⟩ := by
  have hunused : Arith.fit .u64 (256 - w) = ⟨256 - w, true⟩ :=
    Arith.fit_of_holds (IntType.holds_u64.mpr (by omega))
  have hplace : Arith.fit .u64 (w - 1) = ⟨w - 1, true⟩ :=
    Arith.fit_of_holds (IntType.holds_u64.mpr (by omega))
  have hunused' : (256 - w : ℤ).toNat = 256 - w := by omega
  have hplace' : (w - 1 : ℤ).toNat = w - 1 := by omega
  simp only [formatInt, hunused, hunused', hplace, hplace', shiftRight_eq h0 hw, shiftLeft_eq h0 hw,
    Arith.mk_true_bind, and_mask, xor_mask]
  generalize n.setWidth w = x
  by_cases hsign : 0 ≤ x.toInt
  · rw [if_pos ((lt_signBit_iff h0 hw x).mpr hsign), decimal, toNat_setWidth hw,
      ← toNat_eq_toInt hsign]
    rfl
  · obtain ⟨hsize, hcarry⟩ := magnitude h0 hw (not_le.mp hsign)
    have hadd : Arith.addWords ((~~~x).setWidth 256) 1#256 =
        ⟨(~~~x).setWidth 256 + 1#256, true⟩ := by
      rw [Arith.addWords, show (1#256).toNat = 1 from rfl, decide_eq_true hcarry]
    have hvalue : (((~~~x).setWidth 256 + 1#256).toNat : ℤ) = -x.toInt := by
      rw [BitVec.toNat_add, show (1#256).toNat = 1 from rfl, Nat.mod_eq_of_lt hcarry]
      exact hsize
    rw [if_neg (mt (lt_signBit_iff h0 hw x).mp hsign), hadd, Arith.mk_true_bind, decimal,
      neg_append_toString (not_le.mp hsign) hvalue]
    rfl

theorem formatInt_ofInt {w : ℕ} (h0 : 0 < w) (hw : w ≤ 256) {v : ℤ} (hlow : -2 ^ (w - 1) ≤ v)
    (hhigh : v < 2 ^ (w - 1)) : formatInt w (BitVec.ofInt 256 v) = ⟨toString v, true⟩ := by
  rw [formatInt_eq h0 hw, setWidth_ofInt hw, BitVec.toInt_ofInt_eq_self h0 hlow hhigh]

theorem formatInt_congr {w : ℕ} {m n : EthersUint} (h : m.setWidth w = n.setWidth w) :
    formatInt w m = formatInt w n := by
  by_cases hw : w ≤ 256
  · have hunused : (Arith.fit .u64 (256 - w)).value.toNat = 256 - w := by
      rw [Arith.value_fit (IntType.holds_u64.mpr (by omega))]
      omega
    have hlow : ∀ n : EthersUint,
        n &&& (Arith.shiftRight (BitVec.allOnes 256) (256 - w)).value =
          (n.setWidth w).setWidth 256 := by
      intro n
      rw [Arith.shiftRight, mask_eq hw, and_mask]
    unfold formatInt
    apply Arith.bind_congr
    apply Arith.bind_congr
    simp only [hunused, hlow, h]
  · have hwide : ∀ n : EthersUint, (n.setWidth w).setWidth 256 = n := by
      intro n
      rw [BitVec.setWidth_setWidth_of_le _ (not_le.mp hw).le, BitVec.setWidth_eq]
    rw [← hwide m, h, hwide n]

end Ints

/-! ## Values -/

/-- Neither a signed integer nor made of other types. -/
def ParamType.isPlain : ParamType → Bool
  | .int _ | .array _ | .fixedArray _ _ | .tuple _ => false
  | _ => true

/-- **The values of a type**, with signed integers as numbers. -/
inductive AbiValue : ParamType → Type
  | int {w : ℕ} (h0 : 0 < w) (hw : w ≤ 256) (v : ℤ) (hlow : -2 ^ (w - 1) ≤ v)
      (hhigh : v < 2 ^ (w - 1)) : AbiValue (.int w)
  | plain {ty : ParamType} (h : ty.isPlain) (t : Token) : AbiValue ty
  | array {elem : ParamType} (n : ℕ) (items : Fin n → AbiValue elem) : AbiValue (.array elem)
  | fixedArray {elem : ParamType} (n : ℕ) (items : Fin n → AbiValue elem) :
      AbiValue (.fixedArray elem n)
  | tuple {types : List ParamType} (fields : ∀ i : Fin types.length, AbiValue (types.get i)) :
      AbiValue (.tuple types)

namespace AbiValue

/-- As it is decoded: every signed integer is sign-extended to a word. -/
def token {ty : ParamType} : AbiValue ty → Token
  | int _ _ v _ _ => .int (BitVec.ofInt 256 v)
  | plain _ t => t
  | array _ items => .array (List.ofFn fun i => (items i).token)
  | fixedArray _ items => .fixedArray (List.ofFn fun i => (items i).token)
  | tuple fields => .tuple (List.ofFn fun i => (fields i).token)

/-- As it is to be shown: every signed integer is the number, in decimal. -/
def text [Keccak] [AbiDisplay] {ty : ParamType} : AbiValue ty → String
  | int _ _ v _ _ => toString v
  | plain _ t => (formatToken ty t).value
  | array _ items => brackets (List.ofFn fun i => (items i).text)
  | fixedArray _ items => brackets (List.ofFn fun i => (items i).text)
  | tuple fields => parens (List.ofFn fun i => (fields i).text)

end AbiValue

section Values

variable [Keccak] [AbiDisplay]

theorem formatToken_plain {ty : ParamType} (h : ty.isPlain) (t : Token) :
    formatToken ty t = ⟨(formatToken ty t).value, true⟩ := by
  cases ty with
  | int | array | fixedArray | tuple => cases h
  | address | bytes | uint | bool | string | fixedBytes =>
    cases t <;> simp only [formatToken, Arith.pure_eq]

theorem formatItems_ofFn {elem : ParamType} {n : ℕ} {tokens : Fin n → Token}
    {texts : Fin n → String} (h : ∀ i, formatToken elem (tokens i) = ⟨texts i, true⟩) :
    formatItems elem (List.ofFn tokens) = ⟨List.ofFn texts, true⟩ := by
  induction n with
  | zero => rfl
  | succ n ih =>
    rw [List.ofFn_succ, List.ofFn_succ, formatItems, h 0, Arith.mk_true_bind,
      ih fun i => h i.succ]
    rfl

theorem formatFields_ofFn {types : List ParamType} {tokens : Fin types.length → Token}
    {texts : Fin types.length → String}
    (h : ∀ i, formatToken (types.get i) (tokens i) = ⟨texts i, true⟩) :
    formatFields types (List.ofFn tokens) = ⟨List.ofFn texts, true⟩ := by
  induction types with
  | nil => rfl
  | cons ty types ih =>
    have hfirst : formatToken ty (tokens 0) = ⟨texts 0, true⟩ := h 0
    rw [List.ofFn_succ, List.ofFn_succ, formatFields, hfirst, Arith.mk_true_bind,
      ih fun i => h i.succ]
    rfl

theorem formatToken_token {ty : ParamType} (v : AbiValue ty) :
    formatToken ty v.token = ⟨v.text, true⟩ := by
  induction v with
  | int h0 hw v hlow hhigh => exact formatInt_ofInt h0 hw hlow hhigh
  | plain h t => exact formatToken_plain h t
  | array n items ih =>
    rw [AbiValue.token, formatToken, formatItems_ofFn ih]
    rfl
  | fixedArray n items ih =>
    rw [AbiValue.token, formatToken, formatItems_ofFn ih]
    rfl
  | tuple fields ih =>
    rw [AbiValue.token, formatToken, formatFields_ofFn ih]
    rfl

end Values

/-! ## The low bits -/

mutual

/-- A value with nothing but the low bits of its signed integers. -/
def Token.lowBits : ParamType → Token → Token
  | .int w, .int n => .int ((n.setWidth w).setWidth 256)
  | .array elem, .array items => .array (itemsLowBits elem items)
  | .fixedArray elem _, .fixedArray items => .fixedArray (itemsLowBits elem items)
  | .tuple types, .tuple items => .tuple (fieldsLowBits types items)
  | _, t => t

def itemsLowBits (elem : ParamType) : List Token → List Token
  | [] => []
  | t :: items => t.lowBits elem :: itemsLowBits elem items

def fieldsLowBits : List ParamType → List Token → List Token
  | ty :: types, t :: items => t.lowBits ty :: fieldsLowBits types items
  | _, items => items

end

section LowBits

variable [Keccak] [AbiDisplay]

mutual

theorem formatToken_lowBits (ty : ParamType) :
    ∀ t : Token, formatToken ty (t.lowBits ty) = formatToken ty t
  | .int n => by
    cases ty with
    | int w => exact formatInt_congr (SignedWord.setWidth_low n w)
    | _ => simp only [Token.lowBits]
  | .array items => by
    cases ty with
    | array elem => rw [Token.lowBits, formatToken, formatToken, formatItems_lowBits elem items]
    | _ => simp only [Token.lowBits]
  | .fixedArray items => by
    cases ty with
    | fixedArray elem _ =>
      rw [Token.lowBits, formatToken, formatToken, formatItems_lowBits elem items]
    | _ => simp only [Token.lowBits]
  | .tuple items => by
    cases ty with
    | tuple types => rw [Token.lowBits, formatToken, formatToken, formatFields_lowBits types items]
    | _ => simp only [Token.lowBits]
  | .address _ | .fixedBytes _ | .bytes _ | .uint _ | .bool _ | .string _ => by
    cases ty <;> simp only [Token.lowBits]

theorem formatItems_lowBits (elem : ParamType) :
    ∀ items : List Token, formatItems elem (itemsLowBits elem items) = formatItems elem items
  | [] => rfl
  | t :: items => by
    rw [itemsLowBits, formatItems, formatItems, formatToken_lowBits elem t,
      formatItems_lowBits elem items]

theorem formatFields_lowBits : ∀ (types : List ParamType) (items : List Token),
    formatFields types (fieldsLowBits types items) = formatFields types items
  | [], [] => rfl
  | [], _ :: _ => rfl
  | _ :: _, [] => rfl
  | ty :: types, t :: items => by
    rw [fieldsLowBits, formatFields, formatFields, formatToken_lowBits ty t,
      formatFields_lowBits types items]

end

/-- **Signed integers are shown as themselves.** The sign-extended word of a number of any width is
shown as the number, and only its low bits matter; so does every value made of others, at any depth;
and no step of the arithmetic overflows. -/
theorem formatToken_signed :
    (∀ (w : ℕ) (v : ℤ), 0 < w → w ≤ 256 → -2 ^ (w - 1) ≤ v → v < 2 ^ (w - 1) →
      formatToken (.int w) (.int (BitVec.ofInt 256 v)) = ⟨toString v, true⟩) ∧
    (∀ (w : ℕ) (m n : EthersUint), m.setWidth w = n.setWidth w →
      formatToken (.int w) (.int m) = formatToken (.int w) (.int n)) ∧
    (∀ (ty : ParamType) (v : AbiValue ty), formatToken ty v.token = ⟨v.text, true⟩) ∧
    ∀ (ty : ParamType) (t t' : Token), t.lowBits ty = t'.lowBits ty →
      formatToken ty t = formatToken ty t' := by
  refine ⟨fun w v h0 hw hlow hhigh => formatInt_ofInt h0 hw hlow hhigh,
    fun w m n h => formatInt_congr h, fun ty v => formatToken_token v, fun ty t t' h => ?_⟩
  rw [← formatToken_lowBits ty t, h, formatToken_lowBits ty t']

end LowBits

/-! ## The least number of a byte, by itself and in a tuple -/

section Sample

/-- No other value is shown. -/
@[reducible] def AbiDisplay.blank : AbiDisplay := ⟨fun _ => ""⟩

attribute [local instance] Keccak.sponge AbiDisplay.blank

example : formatToken (.int 8) (.int 0x80#256) = ⟨"-128", true⟩ := rfl

/-- The least number of a byte and two numbers of a word. -/
def leastAndMore : AbiValue (.tuple [.int 8, .array (.int 256)]) :=
  .tuple fun
    | 0 => .int (by decide) (by decide) (-128) (by decide) (by decide)
    | 1 => .array 2 fun
      | 0 => .int (by decide) (by decide) (-1) (by decide) (by decide)
      | 1 => .int (by decide) (by decide) 42 (by decide) (by decide)

theorem formatToken_signed_least :
    formatToken (.tuple [.int 8, .array (.int 256)]) (.tuple [.int (BitVec.ofInt 256 (-128)),
        .array [.int (BitVec.ofInt 256 (-1)), .int (BitVec.ofInt 256 42)]]) =
      ⟨"(-128, [-1, 42])", true⟩ :=
  formatToken_signed.2.2.1 _ leastAndMore

end Sample

end ChainExplorer
