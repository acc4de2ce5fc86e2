import ChainExplorer.Lib.Numeral
import ChainExplorer.Decoder
import ChainExplorer.Models

/-!
# Blocks and transactions from raw JSON

What the node answered, as the row types (`rpc.rs`, `parse.rs`).

* `parseIntAny`, `decimalAmount`, `intToHexStr`: a number in whichever shape the node sent it.
* `parseBlock`, `parseTransaction`: a block and its transactions, before any receipt.
-/

namespace ChainExplorer

open Text

/-! ## Machine integers -/

/-- `as i64`. -/
def wrapI64 (n : ℤ) : ℤ := n.bmod (2 ^ 64)

/-- `as u64`. -/
def wrapU64 (n : ℤ) : ℕ := (n % 2 ^ 64).toNat

theorem wrapU64_of_nonneg {n : ℤ} (h0 : 0 ≤ n) (h : n < 2 ^ 64) : wrapU64 n = n.toNat := by
  rw [wrapU64, Int.emod_eq_of_lt h0 h]

theorem wrapI64_of_lt {n : ℕ} (h : n < 2 ^ 63) : wrapI64 n = n := by
  rw [wrapI64, Int.bmod_eq_of_le]
  · omega
  · omega

theorem wrapU64_wrapI64 {i : ℕ} (h : i < 2 ^ 64) : wrapU64 (wrapI64 i) = i := by
  have hmod : (wrapI64 i) % 2 ^ 64 = (i : ℤ) % 2 ^ 64 := Int.bmod_emod
  have hself : (i : ℤ) % 2 ^ 64 = i := Int.emod_eq_of_lt (by omega) (by exact_mod_cast h)
  rw [wrapU64, hmod, hself, Int.toNat_natCast]

theorem wrapI64_injOn {i j : ℕ} (hi : i < 2 ^ 64) (hj : j < 2 ^ 64) (h : wrapI64 i = wrapI64 j) :
    i = j := by
  rw [← wrapU64_wrapI64 hi, ← wrapU64_wrapI64 hj, h]

/-- The number some bytes are, the first the most significant. -/
def bigEndian (bytes : Bytes) : ℕ := bytes.foldl (fun acc b => 256 * acc + b.toNat) 0

def parseI64 (s : String) : Option ℤ :=
  Numeral.signed 10 (-9223372036854775808) 9223372036854775807 s.toList

/-! ## Values -/

/-- A `0x` hex string or a decimal number as a signed 64-bit integer; 0 on garbage. -/
def parseIntAny : Json → ℤ
  | .int n => (Json.asI64 (.int n)).getD 0
  | .str s =>
    let s := trim s.toList
    if s.isEmpty then 0
    else
      match stripPrefix ['0', 'x'] s with
      | some hex => ((Numeral.unsigned 16 18446744073709551615 hex).map fun v => wrapI64 v).getD 0
      | none => (parseI64 (String.ofList s)).getD 0
  | _ => 0

/-- An amount as a decimal string: `0x` hex of any size, a number, or a string kept verbatim. -/
def decimalAmount : Json → String
  | .int n => toString n
  | .float text => text
  | .str s =>
    match stripPrefix ['0', 'x'] s.toList with
    | some [] => "0"
    | some hex => ((Numeral.bigInt 16 hex).map toString).getD s
    | none => s
  | _ => "0"

/-- A number in lowercase hex. -/
def hexDigits (n : ℕ) : String := String.ofList (Nat.toDigits 16 n)

theorem hexDigits_injective : Function.Injective hexDigits := fun m n h => by
  have hdigits : Nat.toDigits 16 m = Nat.toDigits 16 n := String.ofList_injective h
  have hread := Numeral.digits_toDigits m
  rw [hdigits, Numeral.digits_toDigits] at hread
  exact (Option.some.inj hread).symm

/-- A JSON number as hex; a string is kept as the node spelled it. -/
def intToHexStr : Json → String
  | .str s => s
  | .int n => "0x" ++ hexDigits n.toNat
  | _ => "0x0"

/-- The integer of a field, or 0. -/
def intField (key : String) (j : Json) : ℤ := ((j.get key).map parseIntAny).getD 0

/-! ## Rows -/

def parseBlock (raw : Json) : Block :=
  let consensus := raw.get "consensusContext"
  { number := intField "number" raw
    hash := raw.text "hash" ""
    parentHash := raw.text "parentHash" ""
    timestamp := intField "timestamp" raw
    timestampMs := ((raw.get "timestampMillis").map parseIntAny).getD
      (wrapI64 (intField "timestamp" raw * 1000))
    gasUsed := intField "gasUsed" raw
    gasLimit := intField "gasLimit" raw
    baseFee := ((raw.get "baseFeePerGas").map decimalAmount).getD "0"
    size := intField "size" raw
    extraData := raw.text "extraData" ""
    epoch := (consensus.map (intField "epoch")).getD 0
    view := (consensus.map (intField "view")).getD 0
    proposer := (consensus.map (Json.text "proposer" "")).getD ""
    miner := raw.text "miner" ""
    txCount := (raw.arrayField "transactions").length }

/-- A transaction's destination: its own, or that of its first call. -/
def txToAddr (tx : Json) : Option String :=
  ((tx.get "to").bind Json.asStr).or
    (((((tx.get "calls").bind Json.asArray).bind List.head?).bind (Json.get "to")).bind Json.asStr)

/-- A transaction of a block, as far as the block says. -/
def parseTransaction (tx : Json) (block : Block) : Transaction where
  hash := tx.text "hash" ""
  blockNumber := intField "blockNumber" tx
  position := intField "transactionIndex" tx
  fromAddr := tx.text "from" ""
  toAddr := txToAddr tx
  status := 1
  gasUsed := 0
  baseFee := "0x0"
  contractAddress := none
  feeToken := none
  feeAmount := ((tx.get "feeAmount").map decimalAmount).getD "0"
  input :=
    let input := tx.text "input" ""
    let data := tx.text "data" ""
    if input.isEmpty ∧ ¬data.isEmpty then data else input
  raw := none
  traceData := none
  receiptData := none
  timestamp := block.timestamp

end ChainExplorer
