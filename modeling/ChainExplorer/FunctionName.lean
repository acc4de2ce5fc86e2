import ChainExplorer.Lib.Utf8
import ChainExplorer.Trace

/-!
# The name of a call

A listing names a call by the first eight digits of its calldata, a transaction's page by the whole
of it (`decoder.rs`).

* `functionName`: the name from the selector alone.
* **`functionName_decodeFunctionCall`**: both names are the same.
-/

namespace ChainExplorer

open Text

section

variable [FunctionRegistry]

/-- **A call's function name, else its selector**, read from the selector alone. -/
def functionName (data : String) : Option String := do
  let (selectorHex, _) ← Utf8.splitBytes 8 (without0x data.toList)
  let selector ← (Hex.decode selectorHex).filter fun selector => selector.length = 4
  return match FunctionRegistry.functions selector with
    | some function => function.name
    | none => blobHex selector

/-- What a selector is called. -/
def selectorName (selector : Bytes) : String :=
  ((FunctionRegistry.functions selector).map AbiFunction.name).getD (blobHex selector)

end

theorem utf8Size_of_nibble? {c : Char} (h : (Hex.nibble? c).isSome = true) : c.utf8Size = 1 := by
  obtain ⟨n, hn⟩ := Option.isSome_iff_exists.mp h
  exact Utf8.utf8Size_of_ascii (Hex.toNat_lt_of_nibble? hn)

theorem functionName_of_start [FunctionRegistry] {data : String} {selectorHex rest : List Char}
    {selector : Bytes} (hdata : without0x data.toList = selectorHex ++ rest)
    (hselector : Hex.decode selectorHex = some selector) (hlength : selector.length = 4) :
    functionName data = some (selectorName selector) := by
  obtain ⟨hdigits, hall⟩ := Hex.digits_of_decode hselector
  have hbytes : Utf8.byteLength selectorHex = 8 := by
    rw [Utf8.byteLength_ascii fun c hc => utf8Size_of_nibble? (hall c hc), hdigits, hlength]
  have hcut : Utf8.splitBytes 8 (without0x data.toList) = some (selectorHex, rest) :=
    Utf8.splitBytes_eq_some_iff.mpr ⟨hdata, hbytes⟩
  have hfour : (Hex.decode selectorHex).filter (fun b => b.length = 4) = some selector := by
    rw [hselector, Option.filter_some, if_pos (decide_eq_true hlength)]
  unfold functionName selectorName
  rw [hcut]
  simp only [Option.bind_eq_bind, Option.bind_some, hfour]
  cases FunctionRegistry.functions selector <;> rfl

theorem start_of_splitCalldata {data : String} {selector args : Bytes}
    (h : splitCalldata data = some (selector, args)) : selector.length = 4 ∧
      Hex.decode ((without0x data.toList).take 8) = some selector := by
  unfold splitCalldata at h
  simp only at h
  split_ifs at h
  obtain ⟨raw, hraw, hparts⟩ := Option.bind_eq_some_iff.mp h
  split_ifs at hparts with hshort
  obtain ⟨rfl, rfl⟩ := Prod.mk.inj (Option.some.inj hparts)
  refine ⟨?_, Hex.decode_take hraw 4⟩
  rw [List.length_take]
  omega

/-- **Both name a call alike.** What decodes has the name that its decoded call has, or its selector
where that has none; and a text that starts with the digits of four bytes, with or without `0x`, is
named by these bytes, whatever is behind them. -/
theorem functionName_decodeFunctionCall [FunctionRegistry] :
    (∀ data call, decodeFunctionCall data = some call →
      functionName data = some (call.name.getD call.selector)) ∧
      ∀ data selectorHex rest selector, without0x data.toList = selectorHex ++ rest →
        Hex.decode selectorHex = some selector → selector.length = 4 →
          functionName data = some (selectorName selector) := by
  refine ⟨?_, ?_⟩
  · intro data call h
    obtain ⟨⟨selector, args⟩, hsplit, h⟩ := Option.bind_eq_some_iff.mp h
    cases Option.some.inj h
    obtain ⟨hlength, hselector⟩ := start_of_splitCalldata hsplit
    exact functionName_of_start (List.take_append_drop 8 _).symm hselector hlength
  · intro data selectorHex rest selector hdata hselector hlength
    exact functionName_of_start hdata hselector hlength

section Sample

/-- A registry of one function without arguments. -/
@[reducible] def blockNumberRegistry : FunctionRegistry where
  functions selector :=
    if selector = [0x42, 0xcb, 0xb1, 0x5c] then
      some ⟨"getBlockNumber", "getBlockNumber()", fun _ => []⟩
    else none

attribute [local instance] blockNumberRegistry

theorem functionName_decodeFunctionCall_number :
    functionName "0x42CBB15C" = some "getBlockNumber" ∧
      functionName "deadbeef" = some "0xdeadbeef" ∧
        functionName "0x42cbb15c…" = some "getBlockNumber" := by
  obtain ⟨hname, hstart⟩ := functionName_decodeFunctionCall
  exact ⟨hname "0x42CBB15C" _ rfl, hname "deadbeef" _ rfl,
    hstart "0x42cbb15c…" "42cbb15c".toList ['…'] [0x42, 0xcb, 0xb1, 0x5c] rfl (by decide) rfl⟩

end Sample

end ChainExplorer
