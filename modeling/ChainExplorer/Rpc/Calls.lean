import ChainExplorer.Rpc.Client
import ChainExplorer.Parse

/-!
# Typed calls

Calls whose result the client reads (`rpc.rs`).

* `hexToU64`: a quantity; an empty one is 0.
* `ethBlockNumber`, `ethGetLogs`: the head, and the logs a filter asks for.
-/

namespace ChainExplorer

open Text

/-- A hex string as an unsigned 64-bit number, its `0x` optional. -/
def hexToU64 (value : Json) : Option ℕ :=
  value.asStr.bind fun s =>
    let digits := (stripPrefix ['0', 'x'] s.toList).getD s.toList
    if digits.isEmpty then some 0 else Numeral.unsigned 16 18446744073709551615 digits

def ethBlockNumber : Rpc ℕ := do
  let result ← call "eth_blockNumber" (.arr [])
  match hexToU64 result with
  | some n => return n
  | none => Rpc.fail (.other "invalid eth_blockNumber result")

/-- The logs of a filter; an answer that is no array is none. -/
def ethGetLogs (filter : Json) : Rpc (List Json) := do
  let result ← call "eth_getLogs" (.arr [filter])
  return result.asArray.getD []

theorem hexToU64_lt {value : Json} {n : ℕ} (h : hexToU64 value = some n) : n < 2 ^ 64 := by
  obtain ⟨s, -, h⟩ := Option.bind_eq_some_iff.mp h
  simp only at h
  split_ifs at h
  · rw [← Option.some.inj h]
    exact Nat.two_pow_pos 64
  · rw [Numeral.unsigned_eq, Option.filter_eq_some_iff] at h
    have hle := of_decide_eq_true h.2
    omega

theorem ethBlockNumber_lt {node : Node} {log : List Exchange} {n : ℕ}
    (h : (ethBlockNumber node log).1 = .ok n) : n < 2 ^ 64 := by
  have hrun : ethBlockNumber node log = (.ok n, (ethBlockNumber node log).2) := Prod.ext h rfl
  obtain ⟨result, log', -, hread⟩ := Rpc.bind_ok hrun
  cases hn : hexToU64 result with
  | none =>
    rw [hn] at hread
    exact absurd (Prod.mk.inj hread).1 nofun
  | some m =>
    rw [hn] at hread
    obtain rfl : m = n := Except.ok.inj (Prod.mk.inj hread).1
    exact hexToU64_lt hn

end ChainExplorer
