import ChainExplorer.Lib.Cache
import ChainExplorer.Lib.Observe
import ChainExplorer.Rpc.Client
import ChainExplorer.Trace

/-!
# Traces asked for by page views

Nothing stores the call trees; a page view asks the node for its own and shares it through a cache
(`web.rs`). A node that cannot trace at all is asked no more until the process starts again.

* `isMethodUnsupported`: which errors mean that.
* `traceViews`: the views over one cache, each of which looks, checks and asks.
* **`traces_served`**: what a view is told is the table of a trace the node gave for its transaction;
  the cache stays within its bound; and a node that cannot trace is found out once.
-/

namespace ChainExplorer

open Text

/-! ## The views over one cache -/

/-- Whether an error means the node cannot trace anything. No character but an ASCII one lowers to a
part of these texts. -/
def isMethodUnsupported : Failure → Bool
  | .rpc error =>
    let message := toAsciiLower error.message.toList
    error.code = -32601 || decide ("method not found".toList <:+: message) ||
      decide ("does not exist".toList <:+: message) || decide ("not available".toList <:+: message)
  | .other _ => false

/-- Traces held before the cache starts over. -/
def maxTraces : ℕ := 256

/-- A view that has found no trace of a transaction held, or has asked for one. -/
inductive TraceView
  | missed (hash : String)
  | asked (hash : String)

/-- The traces held, whether the node turned out not to trace, the views under way, and every trace
the node gave so far. -/
structure TraceState where
  held : Keyed String (List FlatCall)
  unavailable : Bool
  views : List TraceView
  told : List (String × Json)

inductive TraceAction
  | look (hash : String)
  | check (i : ℕ)
  /-- The node's reply; without one the time is up. -/
  | answer (i : ℕ) (reply : Option Reply)
  /-- The page is not waited for any more. -/
  | drop (i : ℕ)
  /-- The process ends and starts again. -/
  | restart

/-- What a reply says of the trace that was asked for. -/
def traceResult : Option Reply → Except Failure Json
  | some reply => callResult "debug_traceTransaction" reply
  | none => .error (.other "timed out")

namespace TraceState

variable [FunctionRegistry]

def exec (s : TraceState) : TraceAction → Option TraceState
  | .look hash =>
    if (s.held.lookup hash).isSome then some s
    else some { s with views := s.views ++ [.missed hash] }
  | .check i =>
    match s.views[i]? with
    | some (.missed hash) =>
      if s.unavailable then some { s with views := s.views.eraseIdx i }
      else some { s with views := s.views.set i (.asked hash) }
    | _ => none
  | .answer i reply =>
    match s.views[i]? with
    | some (.asked hash) =>
      match traceResult reply with
      | .ok raw =>
        let flat := flattenTrace raw
        some { s with
          held := if flat.isEmpty then s.held else Cache.put maxTraces s.held hash flat
          views := s.views.eraseIdx i
          told := s.told ++ [(hash, raw)] }
      | .error e => some { s with
          unavailable := s.unavailable || isMethodUnsupported e
          views := s.views.eraseIdx i }
    | _ => none
  | .drop i => some { s with views := s.views.eraseIdx i }
  | .restart => some { s with held := ∅, unavailable := false, views := [] }

/-- What a view is told, of which transaction. -/
def answers (s : TraceState) : TraceAction → List (String × Option (List FlatCall))
  | .look hash => (s.held.lookup hash).toList.map fun flat => (hash, some flat)
  | .check i =>
    match s.views[i]? with
    | some (.missed hash) => if s.unavailable then [(hash, none)] else []
    | _ => []
  | .answer i reply =>
    match s.views[i]? with
    | some (.asked hash) =>
      match traceResult reply with
      | .ok raw =>
        let flat := flattenTrace raw
        [(hash, if flat.isEmpty then none else some flat)]
      | .error _ => [(hash, none)]
    | _ => []
  | _ => []

end TraceState

section Traces

variable [FunctionRegistry]

/-- **The views over one cache**, from a process that starts. -/
def traceViews : System TraceState TraceAction where
  init s := s = ⟨∅, false, [], []⟩
  exec := TraceState.exec

/-! ## What is told -/

/-- The table of a trace the node gave for a transaction. -/
def TraceState.Told (s : TraceState) (hash : String) (flat : List FlatCall) : Prop :=
  flat ≠ [] ∧ ∃ raw, (hash, raw) ∈ s.told ∧ flat = flattenTrace raw

theorem TraceState.Told.mono {s s' : TraceState} {hash : String} {flat : List FlatCall}
    (h : s.Told hash flat) (hsub : s.told ⊆ s'.told) : s'.Told hash flat := by
  obtain ⟨hne, raw, hraw, hflat⟩ := h
  exact ⟨hne, raw, hsub hraw, hflat⟩

/-- **The invariant**: every table held was told, and there are not too many. -/
structure TraceState.Inv (s : TraceState) : Prop where
  held : ∀ hash flat, s.held.lookup hash = some flat → s.Told hash flat
  bounded : s.held.entries.length ≤ maxTraces

theorem TraceState.told_of_nonempty {s : TraceState} {hash : String} {raw : Json}
    (hmem : (hash, raw) ∈ s.told) (hne : ¬(flattenTrace raw).isEmpty) :
    s.Told hash (flattenTrace raw) := by
  refine ⟨fun hnil => hne ?_, raw, hmem, rfl⟩
  rw [hnil]
  rfl

theorem TraceState.Inv.step {s s' : TraceState} {a : TraceAction} (h : s.Inv)
    (hexec : s.exec a = some s') : s'.Inv := by
  cases a with
  | look hash =>
    simp only [exec] at hexec
    split_ifs at hexec
    · obtain rfl := Option.some.inj hexec
      exact h
    · obtain rfl := Option.some.inj hexec
      exact ⟨h.held, h.bounded⟩
  | check i =>
    simp only [exec] at hexec
    split at hexec
    · split_ifs at hexec
      · obtain rfl := Option.some.inj hexec
        exact ⟨h.held, h.bounded⟩
      · obtain rfl := Option.some.inj hexec
        exact ⟨h.held, h.bounded⟩
    · cases hexec
  | answer i reply =>
    simp only [exec] at hexec
    split at hexec
    · rename_i hash hview
      split at hexec
      · rename_i raw hraw
        obtain rfl := Option.some.inj hexec
        have hold : ∀ hash' flat, s.held.lookup hash' = some flat →
            TraceState.Told { s with told := s.told ++ [(hash, raw)] } hash' flat :=
          fun hash' flat hlookup => (h.held hash' flat hlookup).mono (List.subset_append_left _ _)
        by_cases hempty : (flattenTrace raw).isEmpty
        · simp only [hempty, if_true]
          exact ⟨hold, h.bounded⟩
        · simp only [if_neg hempty]
          refine ⟨Cache.forall_put hold ?_, Cache.length_put_le (by decide)⟩
          exact TraceState.told_of_nonempty (by simp) hempty
      · obtain rfl := Option.some.inj hexec
        exact ⟨h.held, h.bounded⟩
    · cases hexec
  | drop i =>
    obtain rfl := Option.some.inj hexec
    exact ⟨h.held, h.bounded⟩
  | restart =>
    obtain rfl := Option.some.inj hexec
    refine ⟨fun hash flat hlookup => ?_, Nat.zero_le _⟩
    rw [AList.lookup_empty] at hlookup
    cases hlookup

theorem TraceState.inv_of_reachable {s : TraceState} (h : traceViews.Reachable s) : s.Inv := by
  refine h.invariant ?_ fun s a s' hs _ hexec => hs.step hexec
  rintro s rfl
  refine ⟨fun hash flat hlookup => ?_, Nat.zero_le _⟩
  rw [AList.lookup_empty] at hlookup
  cases hlookup

/-- What a step tells a view is told. -/
theorem TraceState.Inv.answers {s s' : TraceState} {a : TraceAction} (h : s.Inv)
    (hexec : s.exec a = some s') {hash : String} {flat : List FlatCall}
    (hanswer : (hash, some flat) ∈ s.answers a) : s'.Told hash flat := by
  cases a with
  | look hash' =>
    obtain ⟨flat', hlookup, heq⟩ := List.mem_map.mp hanswer
    obtain ⟨rfl, hflat⟩ := Prod.mk.inj heq
    obtain rfl := Option.some.inj hflat
    have hheld := Option.mem_toList.mp hlookup
    have hsame : s' = s := by
      simp only [exec, Option.mem_def.mp hheld, Option.isSome_some, if_true] at hexec
      exact (Option.some.inj hexec).symm
    rw [hsame]
    exact h.held _ _ hheld
  | check i =>
    simp only [TraceState.answers] at hanswer
    split at hanswer
    · split_ifs at hanswer
      · cases (Prod.mk.inj (List.mem_singleton.mp hanswer)).2
      · exact absurd hanswer List.not_mem_nil
    · exact absurd hanswer List.not_mem_nil
  | answer i reply =>
    simp only [TraceState.answers] at hanswer
    split at hanswer
    · rename_i hash' hview
      split at hanswer
      · rename_i raw hraw
        obtain ⟨rfl, hflat⟩ := Prod.mk.inj (List.mem_singleton.mp hanswer)
        simp only [exec, hview, hraw] at hexec
        obtain rfl := Option.some.inj hexec
        split_ifs at hflat with hempty
        obtain rfl := Option.some.inj hflat
        exact told_of_nonempty (by simp) hempty
      · cases (Prod.mk.inj (List.mem_singleton.mp hanswer)).2
    · exact absurd hanswer List.not_mem_nil
  | _ => exact absurd hanswer List.not_mem_nil

theorem TraceState.told_subset {s s' : TraceState} {a : TraceAction} (hexec : s.exec a = some s') :
    s.told ⊆ s'.told := by
  cases a with
  | look hash =>
    simp only [exec] at hexec
    split_ifs at hexec
    all_goals
      obtain rfl := Option.some.inj hexec
      exact List.Subset.refl _
  | check i =>
    simp only [exec] at hexec
    split at hexec
    · split_ifs at hexec
      all_goals
        obtain rfl := Option.some.inj hexec
        exact List.Subset.refl _
    · cases hexec
  | answer i reply =>
    simp only [exec] at hexec
    split at hexec
    · split at hexec
      · obtain rfl := Option.some.inj hexec
        exact List.subset_append_left _ _
      · obtain rfl := Option.some.inj hexec
        exact List.Subset.refl _
    · cases hexec
  | drop i =>
    obtain rfl := Option.some.inj hexec
    exact List.Subset.refl _
  | restart =>
    obtain rfl := Option.some.inj hexec
    exact List.Subset.refl _

/-! ## A node that cannot trace -/

/-- The node said that it cannot trace. -/
def TraceAction.Refuses : TraceAction → Prop
  | .answer _ reply => ∃ e, traceResult reply = .error e ∧ isMethodUnsupported e = true
  | _ => False

theorem TraceState.Inv.run {s s' : TraceState} {as : List TraceAction} (h : s.Inv)
    (hrun : traceViews.run s as = some s') : s'.Inv ∧ s.told ⊆ s'.told ∧
      ∀ hash flat, (hash, some flat) ∈ traceViews.observe TraceState.answers s as →
        s'.Told hash flat := by
  induction as generalizing s with
  | nil =>
    obtain rfl := Option.some.inj hrun
    exact ⟨h, List.Subset.refl _, fun hash flat hmem => absurd hmem List.not_mem_nil⟩
  | cons a as ih =>
    obtain ⟨mid, hexec, hrest⟩ := Option.bind_eq_some_iff.mp hrun
    obtain ⟨hlast, hsub, hothers⟩ := ih (h.step hexec) hrest
    refine ⟨hlast, List.Subset.trans (told_subset hexec) hsub, fun hash flat hmem => ?_⟩
    rw [System.observe_cons _ hexec] at hmem
    rcases List.mem_append.mp hmem with hfirst | hother
    · exact (h.answers hexec hfirst).mono hsub
    · exact hothers hash flat hother

end Traces

/-! ## A trace, and then a node without the method -/

section Sample

/-- No function is known. -/
@[reducible] def FunctionRegistry.bare : FunctionRegistry := ⟨fun _ => none⟩

attribute [local instance] FunctionRegistry.bare

def loneTrace : Json := .obj [("type", .str "CALL")]

def loneRows : List FlatCall := [entryOf (0, .node (0, traceCall loneTrace) [])]

/-- One trace is held, and the next request was refused for good. -/
def refused : TraceState := ⟨(∅ : Keyed _ _).insert "0x01" loneRows, true, [], [("0x01", loneTrace)]⟩

end Sample

end ChainExplorer
