import ChainExplorer.Lib.Rose
import ChainExplorer.Parse
import ChainExplorer.Signatures

/-!
# Call trees

The page of a transaction lists the calls of its trace in one table, each with the places of the
calls it made (`decoder.rs`).

* `walkTrace`, `flattenTrace`: the calls of a trace, depth first.
* `readTrace`, `traceForest`: the trees a trace is of.
* **`walkTrace_eq`**: a walk appends the listing of its tree, numbered from the end of the table.
* **`flattenTrace_exact`**: the table lists every call once, and determines the trees.
-/

namespace ChainExplorer

open Rose

/-- **The functions of the registry**, by selector. -/
class FunctionRegistry where
  functions : Bytes → Option AbiFunction

/-- One call of a trace, without its place. -/
structure TraceCall where
  kind : String
  fromAddr : String
  toAddr : String
  data : String
  output : String
  value : String
  gas : String
  gasUsed : String
  decoded : Option DecodedCall
  status : String
  error : Option String
deriving DecidableEq

/-- A row of the table: a call, its depth and the places of the calls it made. -/
structure FlatCall extends TraceCall where
  depth : ℕ
  children : List ℕ
deriving DecidableEq

section

variable [FunctionRegistry]

/-- **Decode `0x…` calldata.** An unknown selector still yields a descriptor. -/
def decodeFunctionCall (data : String) : Option DecodedCall := do
  let (selector, args) ← splitCalldata data
  let function := FunctionRegistry.functions selector
  return {
    name := function.map AbiFunction.name
    signature := function.map AbiFunction.signature
    params := (function.map fun f => f.decodedParams args).getD []
    selector := blobHex selector
    rawArgs := blobHex args }

/-- The calls a call made. -/
def traceCalls (node : Json) : List Json :=
  (((node.get "calls").or (node.get "children")).bind Json.asArray).getD []

/-- What a walk reads of one call. The input of a creation is code, not calldata. -/
def traceCall (node : Json) : TraceCall :=
  let input := node.text "input" "0x"
  let kind := node.text "type" "CALL"
  let decoded :=
    if "CREATE".toList.isPrefixOf kind.toList then none else decodeFunctionCall input
  let error := (((node.get "error").or (node.get "revertReason")).bind Json.asStr).filter
    fun s => !s.isEmpty
  { kind := kind
    fromAddr := node.text "from" ""
    toAddr := node.text "to" ""
    data := input
    output := node.text "output" ""
    value := decimalAmount (node.take "value")
    gas := decimalAmount (node.take "gas")
    gasUsed := decimalAmount (node.take "gasUsed")
    decoded := decoded
    status := if error.isSome then "failed" else "success"
    error := error }

omit [FunctionRegistry] in
theorem sizeOf_lt_of_mem_traceCalls {node child : Json} (h : child ∈ traceCalls node) :
    sizeOf child < sizeOf node := by
  unfold traceCalls at h
  cases hfield : (node.get "calls").or (node.get "children") with
  | none =>
    rw [hfield] at h
    exact absurd h List.not_mem_nil
  | some field =>
    have hget : sizeOf field < sizeOf node := by
      rcases Option.or_eq_some_iff.mp hfield with hcalls | ⟨_, hchildren⟩
      · exact Json.sizeOf_lt_of_get hcalls
      · exact Json.sizeOf_lt_of_get hchildren
    rw [hfield, Option.bind_some] at h
    cases hitems : field.asArray with
    | none =>
      rw [hitems] at h
      exact absurd h List.not_mem_nil
    | some items =>
      rw [hitems] at h
      exact (Json.sizeOf_lt_of_mem_asArray hitems h).trans hget

/-- **Walk a call**: push it, then what it called, and then its `children`, which are the lengths
the table had before each of them. -/
def walkTrace (node : Json) (depth : ℕ) (result : List FlatCall) : List FlatCall :=
  let idx := result.length
  let pushed := result ++ [{ traceCall node with depth := depth, children := [] }]
  let walked := (traceCalls node).attach.foldl (fun acc child =>
    (acc.1 ++ [acc.2.length], walkTrace child.1 (depth + 1) acc.2)) (([] : List ℕ), pushed)
  walked.2.modify idx fun entry => { entry with children := walked.1 }
termination_by sizeOf node
decreasing_by exact sizeOf_lt_of_mem_traceCalls child.2

/-- **Flatten a trace**: a call, or several side by side. -/
def flattenTrace : Json → List FlatCall
  | .null => []
  | .arr nodes => nodes.foldl (fun result node => walkTrace node 0 result) []
  | .obj fields => walkTrace (.obj fields) 0 []
  | _ => []

/-! ## The trees of a trace -/

/-- The tree below a call. -/
def readTrace (node : Json) : Rose TraceCall :=
  .node (traceCall node) ((traceCalls node).attach.map fun child => readTrace child.1)
termination_by sizeOf node
decreasing_by exact sizeOf_lt_of_mem_traceCalls child.2

/-- The trees of a trace. -/
def traceForest : Json → List (Rose TraceCall)
  | .null => []
  | .arr nodes => nodes.map readTrace
  | .obj fields => [readTrace (.obj fields)]
  | _ => []

/-- The row of a numbered call. -/
def entryOf (s : ℕ × Rose (ℕ × TraceCall)) : FlatCall :=
  { s.2.value.2 with depth := s.1, children := s.2.children.map fun c => c.value.1 }

theorem readTrace_eq (node : Json) :
    readTrace node = .node (traceCall node) ((traceCalls node).map readTrace) := by
  rw [readTrace, List.attach_map_val]

/-! ## A walk -/

/-- The rows of a forest, the first at place `n`. -/
def rows (depth n : ℕ) (forest : List (Rose TraceCall)) : List FlatCall :=
  (preorderAll depth (numberAll n forest)).map entryOf

omit [FunctionRegistry] in
theorem length_rows (depth n : ℕ) (forest : List (Rose TraceCall)) :
    (rows depth n forest).length = sizeAll forest := by
  rw [rows, List.length_map, length_preorderAll, sizeAll_number]

omit [FunctionRegistry] in
theorem rows_cons (depth n : ℕ) (t : Rose TraceCall) (ts : List (Rose TraceCall)) :
    rows depth n (t :: ts) = rows depth n [t] ++ rows depth (n + sizeAll [t]) ts := by
  simp only [rows, numberAll, preorderAll, List.map_append, List.append_nil, sizeAll, Nat.add_zero]

omit [FunctionRegistry] in
theorem modify_append_cons {α : Type*} (l l' : List α) (a : α) (f : α → α) :
    (l ++ a :: l').modify l.length f = l ++ f a :: l' := by
  rw [List.modify_eq_take_cons_drop (by simp)]
  simp

theorem walkChildren_eq {depth : ℕ} {nodes : List Json}
    (h : ∀ node ∈ nodes, ∀ result, walkTrace node depth result =
      result ++ rows depth result.length [readTrace node])
    (places : List ℕ) (result : List FlatCall) :
    nodes.foldl (fun acc child => (acc.1 ++ [acc.2.length], walkTrace child depth acc.2))
      (places, result) =
    (places ++ (numberAll result.length (nodes.map readTrace)).map (fun c => c.value.1),
      result ++ rows depth result.length (nodes.map readTrace)) := by
  induction nodes generalizing places result with
  | nil => simp [rows, numberAll, preorderAll]
  | cons node nodes ih =>
    have hnode := h node List.mem_cons_self result
    have hlength : (walkTrace node depth result).length = result.length + size (readTrace node) := by
      rw [hnode, List.length_append, length_rows, sizeAll, sizeAll, Nat.add_zero]
    have hplace : (number result.length (readTrace node)).value.1 = result.length := by
      rw [readTrace_eq]
      rfl
    rw [List.foldl_cons, ih fun n hn => h n (List.mem_cons_of_mem _ hn), hlength, hnode,
      List.map_cons, rows_cons depth _ (readTrace node) (nodes.map readTrace), numberAll,
      List.map_cons, hplace]
    simp only [List.append_assoc, List.singleton_append, sizeAll, Nat.add_zero]

/-- **A walk appends the rows of its tree**, from the end of the table on, and keeps what is
before them. -/
theorem walkTrace_eq (node : Json) (depth : ℕ) (result : List FlatCall) :
    walkTrace node depth result = result ++ rows depth result.length [readTrace node] := by
  have hchildren : ∀ child ∈ traceCalls node, ∀ result, walkTrace child (depth + 1) result =
      result ++ rows (depth + 1) result.length [readTrace child] := by
    intro child hchild result
    have := sizeOf_lt_of_mem_traceCalls hchild
    exact walkTrace_eq child (depth + 1) result
  rw [walkTrace, List.foldl_attach (f := fun acc child =>
      (acc.1 ++ [acc.2.length], walkTrace child (depth + 1) acc.2)),
    walkChildren_eq hchildren, List.nil_append, List.append_assoc, List.singleton_append,
    modify_append_cons, List.length_append, List.length_singleton, readTrace_eq, rows, rows,
    numberAll, numberAll, number, preorderAll, preorderAll, preorder, List.append_nil,
    List.map_cons]
  rfl
termination_by sizeOf node

theorem flattenTrace_eq (trace : Json) :
    flattenTrace trace = (listing (traceForest trace)).map entryOf := by
  cases trace with
  | arr nodes =>
    have hwalks : ∀ result : List FlatCall, nodes.foldl (fun r node => walkTrace node 0 r) result =
        result ++ rows 0 result.length (nodes.map readTrace) := by
      intro result
      induction nodes generalizing result with
      | nil => simp [rows, numberAll, preorderAll]
      | cons node nodes ih =>
        rw [List.foldl_cons, ih, walkTrace_eq, List.map_cons,
          rows_cons 0 _ (readTrace node) (nodes.map readTrace), List.append_assoc,
          List.length_append, length_rows]
    exact (hwalks []).trans (List.nil_append _)
  | obj fields => exact (walkTrace_eq (.obj fields) 0 []).trans (List.nil_append _)
  | _ => rfl

/-! ## What a table shows -/

/-- **A table lists some trees.** -/
structure Lists (flat : List FlatCall) (forest : List (Rose TraceCall)) : Prop where
  /-- One row for each call, depth first, with its distance from the root. -/
  preorder : flat.map (fun e => (e.depth, e.toTraceCall)) = (preorderAll 0 forest).map shown
  /-- The children of a row are the places of the calls its own call made, in order. -/
  places : ∃ numbered, mapAll Prod.snd numbered = forest ∧
    (preorderAll 0 numbered).map place = List.range flat.length ∧
    flat.map FlatCall.children =
      (preorderAll 0 numbered).map fun s => s.2.children.map fun c => c.value.1
  /-- They come later, one level deeper. -/
  deeper : ∀ (i : ℕ) (e : FlatCall), flat[i]? = some e → ∀ c ∈ e.children,
    i < c ∧ ∃ child : FlatCall, flat[c]? = some child ∧ child.depth = e.depth + 1
  /-- A row that is no root is among the children of one row, once. -/
  once : ∀ (c : ℕ) (e : FlatCall), flat[c]? = some e →
    (flat.flatMap FlatCall.children).count c = if e.depth = 0 then 0 else 1

omit [FunctionRegistry] in
theorem lists_listing (forest : List (Rose TraceCall)) :
    Lists ((listing forest).map entryOf) forest where
  preorder := by
    have herased : preorderAll 0 forest =
        (listing forest).map fun s => (s.1, map Prod.snd s.2) := by
      rw [listing, ← preorderAll_map, mapAll_snd_number]
    rw [herased, List.map_map, List.map_map]
    refine List.map_congr_left fun s _ => ?_
    simp only [Function.comp_apply, shown, value_map]
    rfl
  places := by
    refine ⟨numberAll 0 forest, mapAll_snd_number 0 forest, ?_, ?_⟩
    · rw [List.length_map]
      exact map_place_listing forest
    · rw [List.map_map]
      rfl
  deeper := by
    intro i e he c hc
    rw [List.getElem?_map] at he
    obtain ⟨s, hs, rfl⟩ := Option.map_eq_some_iff.mp he
    have hmem := List.mem_of_getElem? hs
    obtain ⟨child, hchild, rfl⟩ := List.mem_map.mp hc
    have hlisted := mem_listing_of_mem_children hmem hchild
    rw [place_eq_of_getElem? hs] at hlisted
    refine ⟨hlisted.2, entryOf (s.1 + 1, child), ?_, rfl⟩
    rw [List.getElem?_map]
    exact congrArg (Option.map entryOf) (getElem?_place hlisted.1)
  once := by
    intro c e he
    rw [List.getElem?_map] at he
    obtain ⟨s, hs, rfl⟩ := Option.map_eq_some_iff.mp he
    have hcount := count_place (List.mem_of_getElem? hs)
    have hchildren : ((listing forest).map entryOf).flatMap FlatCall.children =
        ((listing forest).flatMap offspring).map place := by
      rw [List.flatMap_map, List.map_flatMap]
      refine List.flatMap_congr fun s _ => ?_
      rw [offspring, List.map_map]
      rfl
    rw [place_eq_of_getElem? hs] at hcount
    rw [hchildren, hcount]
    rfl

/-- **Flattening a trace loses nothing.** The table lists the calls of its trees, and another trace
of the same table has the same trees. -/
theorem flattenTrace_exact (trace : Json) :
    Lists (flattenTrace trace) (traceForest trace) ∧
    ∀ trace', flattenTrace trace' = flattenTrace trace → traceForest trace' = traceForest trace := by
  have hlists : ∀ trace, Lists (flattenTrace trace) (traceForest trace) := by
    intro trace
    rw [flattenTrace_eq]
    exact lists_listing _
  refine ⟨hlists trace, fun trace' heq => eq_of_listing (d := 0) ?_⟩
  rw [← (hlists trace').preorder, heq]
  exact (hlists trace).preorder

end

end ChainExplorer
