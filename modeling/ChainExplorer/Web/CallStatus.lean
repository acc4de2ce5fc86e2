import ChainExplorer.Models
import ChainExplorer.Parse
import ChainExplorer.Rpc.Client

/-!
# Which call failed

A failed transaction of several calls records no reason, so its calls are replayed one by one and
each is marked with what became of it (`web.rs`).

* `replayTxCalls`: the replay, one request for all calls that have a destination.
* `applyReplayOutcomes`: what the replay said, put onto the calls.
* `resolveCallStatuses`: both, and the fallback for a call nothing is known of.
* **`resolveCallStatuses_blames`**: blame falls on the call that reverted, exactly when the
  transaction has one call or the replay says something of its first one.
-/

namespace ChainExplorer

/-- The columns of a raw transaction that are read here. -/
structure ParsedTx where
  gasLimit : Option ℤ
  /-- The top-level calls. -/
  calls : List Json

/-- The destination of a call; none of one that creates a contract. -/
def destination (call : Json) : Option String :=
  ((call.get "to").bind Json.asStr).filter fun dst => !dst.isEmpty

/-- The calldata of a call. -/
def calldata (call : Json) : String :=
  ((((call.get "data").bind Json.asStr).filter fun s => !s.isEmpty).or
    ((call.get "input").bind Json.asStr)).getD "0x"

/-- A number that is not negative, in hex. -/
def hexQuantity (n : ℤ) : String := "0x" ++ hexDigits n.toNat

/-- **Replay the calls that have a destination**: the node's error for each, in order. A replay
that fails as a whole says nothing. -/
def replayTxCalls (tx : Transaction) (parsed : ParsedTx) : Rpc (List (Option String)) :=
  if parsed.calls.isEmpty then pure []
  else do
    let gas := hexQuantity (parsed.gasLimit.getD 0)
    let block := hexQuantity tx.blockNumber
    let batch := parsed.calls.filterMap fun call => (destination call).map fun dst =>
      (⟨"eth_call", .arr [.obj [("from", .str tx.fromAddr), ("to", .str dst),
        ("data", .str (calldata call)), ("gas", .str gas)], .str block]⟩ : MethodCall)
    match ← (batchCall batch).attempt with
    | .ok results => return results.map fun r =>
        match r with
        | .ok _ => none
        | .error e => some e.message
    | .error _ => return []

def isTopLevel (call : Json) : Bool := (call.get "depth").bind Json.asI64 = some 0

/-- Mark the replayed calls, in order, up to the one that reverted. -/
def applyReplayOutcomes : List Json → List (Option String) → List Json
  | [], _ => []
  | call :: calls, outcomes =>
    if !isTopLevel call then call :: applyReplayOutcomes calls outcomes
    else if (destination call).isNone then call :: applyReplayOutcomes calls outcomes
    else
      match outcomes with
      | [] => call :: calls
      | some err :: _ => (call.set "status" (.str "failed")).set "error" (.str err) :: calls
      | none :: outcomes =>
        call.set "status" (.str "success") :: applyReplayOutcomes calls outcomes

/-- The error a call carries, if any. -/
def callError (call : Json) : Option String := (call.get "error").bind Json.asStr

/-- What stands on the first call when nothing else does: the outcome of the transaction. -/
def markFirst (tx : Transaction) (failReason : Option String) : List Json → List Json
  | [] => []
  | first :: rest =>
    if (first.get "status").isNone then
      let first := first.set "status" (.str (if tx.status = 1 then "success" else "failed"))
      (if tx.status = 0 then
        failReason.elim first fun reason => first.set "error" (.str reason)
      else first) :: rest
    else first :: rest

/-- **What each call did**, and the reason the transaction failed for. -/
def resolveCallStatuses (tx : Transaction) (parsed : ParsedTx) (calls : List Json)
    (failReason : Option String) : Rpc (List Json × Option String) :=
  if tx.status = 0 then
    match failReason.or (calls.findSome? callError) with
    | some reason => return (markFirst tx (some reason) calls, some reason)
    | none => do
      let outcomes ← replayTxCalls tx parsed
      let failReason := outcomes.findSome? id
      return (markFirst tx failReason (applyReplayOutcomes calls outcomes), failReason)
  else
    -- A lone top-level call of a transaction that went through was executed.
    let calls := if (calls.filter isTopLevel).length = 1 then
        calls.modifyHead fun call => call.set "status" (.str "success")
      else calls
    return (markFirst tx failReason calls, failReason)

/-! ## What is known of each call -/

/-- The outcomes of the replay, each beside the call it is of; a call without a destination has
none. -/
def ownReplays : List Json → List (Option String) → List (Option (Option String))
  | [], _ => []
  | call :: calls, outcomes =>
    if (destination call).isNone then none :: ownReplays calls outcomes
    else
      match outcomes with
      | [] => none :: ownReplays calls []
      | o :: outcomes => some o :: ownReplays calls outcomes

/-- Nothing is on a call of the transaction itself yet. -/
structure Untouched (call : Json) : Prop where
  obj : call.IsObj
  topLevel : (call.get "depth").bind Json.asI64 = some 0
  status : call.get "status" = none
  error : call.get "error" = none

/-- The call at `i` is the first whose own replay errored. -/
def FirstError (replays : List (Option (Option String))) (i : ℕ) : Prop :=
  (∃ err, replays[i]? = some (some (some err))) ∧
    ∀ j < i, ∀ err, replays[j]? ≠ some (some (some err))

/-- **Blame is right**: a call is marked failed only when it is the first whose own replay errored or
the only call there is; before that call the replayed ones are marked as successes, and after it
none is marked. -/
structure Blames (replays : List (Option (Option String))) (marks : List (Option Json)) : Prop where
  failed : ∀ i, marks[i]? = some (some (.str "failed")) →
    FirstError replays i ∨ marks.length = 1
  before : ∀ i, FirstError replays i → ∀ j < i, replays[j]? = some (some none) →
    marks[j]? = some (some (.str "success"))
  after : ∀ i, FirstError replays i → ∀ j, i < j → ∀ mark, marks[j]? = some mark → mark = none

theorem firstError_error {err : String} {replays : List (Option (Option String))} {i : ℕ} :
    FirstError (some (some err) :: replays) i ↔ i = 0 := by
  constructor
  · intro h
    by_contra hi
    exact h.2 0 (Nat.pos_of_ne_zero hi) err rfl
  · rintro rfl
    exact ⟨⟨err, rfl⟩, fun j hj => absurd hj (Nat.not_lt_zero j)⟩

theorem firstError_cons {r : Option (Option String)} (hr : ∀ err, r ≠ some (some err))
    {replays : List (Option (Option String))} {i : ℕ} :
    FirstError (r :: replays) i ↔ ∃ k, i = k + 1 ∧ FirstError replays k := by
  constructor
  · rintro ⟨⟨err, herr⟩, hfirst⟩
    cases i with
    | zero => exact absurd (Option.some.inj herr) (hr err)
    | succ k => exact ⟨k, rfl, ⟨err, herr⟩, fun j hj => hfirst (j + 1) (Nat.succ_lt_succ hj)⟩
  · rintro ⟨k, rfl, ⟨err, herr⟩, hfirst⟩
    refine ⟨⟨err, herr⟩, fun j hj err' hj' => ?_⟩
    cases j with
    | zero => exact hr err' (Option.some.inj hj')
    | succ j => exact hfirst j (Nat.lt_of_succ_lt_succ hj) err' hj'

/-- The marks that replays leave: none from the first error on. -/
def marksOf : List (Option (Option String)) → List (Option Json)
  | [] => []
  | some (some _) :: rest => some (.str "failed") :: rest.map fun _ => none
  | some none :: rest => some (.str "success") :: marksOf rest
  | none :: rest => none :: marksOf rest

theorem length_marksOf (replays : List (Option (Option String))) :
    (marksOf replays).length = replays.length := by
  induction replays with
  | nil => rfl
  | cons r replays ih =>
    rcases r with _ | _ | err
    · rw [marksOf, List.length_cons, ih, List.length_cons]
    · rw [marksOf, List.length_cons, ih, List.length_cons]
    · rw [marksOf, List.length_cons, List.length_map, List.length_cons]

theorem success_ne_failed : (some (.str "success") : Option Json) ≠ some (.str "failed") := by
  intro h
  exact absurd (Json.str.inj (Option.some.inj h)) (by decide)

theorem marksOf_blames (replays : List (Option (Option String))) :
    (∀ i, (marksOf replays)[i]? = some (some (.str "failed")) → FirstError replays i) ∧
    (∀ i, FirstError replays i → ∀ j < i, replays[j]? = some (some none) →
      (marksOf replays)[j]? = some (some (.str "success"))) ∧
    ∀ i, FirstError replays i → ∀ j, i < j → ∀ mark, (marksOf replays)[j]? = some mark →
      mark = none := by
  induction replays with
  | nil =>
    refine ⟨fun i h => absurd h nofun, fun i h => ?_, fun i h => ?_⟩
    · obtain ⟨⟨err, herr⟩, -⟩ := h
      exact absurd herr nofun
    · obtain ⟨⟨err, herr⟩, -⟩ := h
      exact absurd herr nofun
  | cons r replays ih =>
    obtain ⟨hfailed, hbefore, hafter⟩ := ih
    by_cases herror : ∃ err, r = some (some err)
    · -- The first error: nothing after it is marked.
      obtain ⟨err, rfl⟩ := herror
      have hrest : ∀ j mark, (marksOf (some (some err) :: replays))[j + 1]? = some mark →
          mark = none := by
        intro j mark hmark
        rw [marksOf, List.getElem?_cons_succ, List.getElem?_map] at hmark
        obtain ⟨_, -, rfl⟩ := Option.map_eq_some_iff.mp hmark
        rfl
      refine ⟨fun i h => ?_, fun i h j hj => ?_, fun i h j hj mark hmark => ?_⟩
      · cases i with
        | zero => exact firstError_error.mpr rfl
        | succ i => exact absurd (hrest i _ h) nofun
      · obtain rfl := firstError_error.mp h
        exact absurd hj (Nat.not_lt_zero j)
      · cases j with
        | zero => exact absurd hj (Nat.not_lt_zero i)
        | succ j => exact hrest j mark hmark
    · have hr : ∀ err, r ≠ some (some err) := fun err h => herror ⟨err, h⟩
      have hmarks : ∃ m, marksOf (r :: replays) = m :: marksOf replays ∧
          m ≠ some (.str "failed") ∧ (r = some none → m = some (.str "success")) := by
        rcases r with _ | _ | err
        · exact ⟨none, rfl, nofun, nofun⟩
        · exact ⟨some (.str "success"), rfl, success_ne_failed, fun _ => rfl⟩
        · exact absurd rfl (hr err)
      obtain ⟨m, hm, hnot, hsuccess⟩ := hmarks
      rw [hm]
      refine ⟨fun i h => ?_, fun i h j hj hrj => ?_, fun i h j hj mark hmark => ?_⟩
      · cases i with
        | zero => exact absurd (Option.some.inj h) hnot
        | succ i => exact (firstError_cons hr).mpr ⟨i, rfl, hfailed i h⟩
      · obtain ⟨k, rfl, hk⟩ := (firstError_cons hr).mp h
        cases j with
        | zero => exact congrArg some (hsuccess (Option.some.inj hrj))
        | succ j => exact hbefore k hk j (Nat.lt_of_succ_lt_succ hj) hrj
      · obtain ⟨k, rfl, hk⟩ := (firstError_cons hr).mp h
        cases j with
        | zero => exact absurd hj (Nat.not_lt_zero _)
        | succ j => exact hafter k hk j (Nat.lt_of_succ_lt_succ hj) mark hmark

/-- A first call without a mark gets the failure of the transaction. -/
def failFirst : List (Option Json) → List (Option Json)
  | none :: marks => some (.str "failed") :: marks
  | marks => marks

/-- **The failure on the first call** is right exactly for a lone call, or where the first call has
a mark already. -/
theorem failFirst_blames (replays : List (Option (Option String))) :
    Blames replays (failFirst (marksOf replays)) ↔
      replays.length ≤ 1 ∨ ∃ o, replays.head? = some (some o) := by
  obtain ⟨hfailed, hbefore, hafter⟩ := marksOf_blames replays
  cases replays with
  | nil =>
    refine iff_of_true ⟨fun i h => absurd h nofun, hbefore, hafter⟩ (.inl (Nat.zero_le 1))
  | cons r replays =>
    cases r with
    | some o =>
      have hmarks : failFirst (marksOf (some o :: replays)) = marksOf (some o :: replays) := by
        cases o <;> rfl
      refine iff_of_true ?_ (.inr ⟨o, rfl⟩)
      rw [hmarks]
      exact ⟨fun i h => .inl (hfailed i h), hbefore, hafter⟩
    | none =>
      have hnone : ∀ err, (none : Option (Option String)) ≠ some (some err) := by
        intro err h
        cases h
      have hempty : ∀ i, ¬FirstError [none] i := by
        intro i h
        obtain ⟨k, rfl, ⟨err, herr⟩, -⟩ := (firstError_cons hnone).mp h
        exact absurd herr nofun
      cases replays with
      | nil =>
        refine iff_of_true ⟨fun i _ => .inr rfl, fun i h => ?_, fun i h => ?_⟩ (.inl le_rfl)
        · exact absurd h (hempty i)
        · exact absurd h (hempty i)
      | cons r' replays =>
        refine iff_of_false (fun h => ?_) ?_
        · rcases h.failed 0 rfl with hfirst | hlength
          · obtain ⟨k, hk, -⟩ := (firstError_cons hnone).mp hfirst
            exact absurd hk nofun
          · have hmarks : (failFirst (marksOf (none :: r' :: replays))).length =
                (marksOf (r' :: replays)).length + 1 := rfl
            rw [hmarks, length_marksOf] at hlength
            simp at hlength
        · rintro (hle | ⟨o, ho⟩)
          · simp at hle
          · exact absurd (Option.some.inj ho) nofun

/-! ## The calls as they are marked -/

theorem marksOf_ownReplays_nil (calls : List Json) :
    marksOf (ownReplays calls []) = calls.map fun _ => none := by
  induction calls with
  | nil => rfl
  | cons call calls ih =>
    unfold ownReplays
    split_ifs
    · rw [marksOf, ih, List.map_cons]
    · simp only [marksOf, ih, List.map_cons]

theorem length_ownReplays (calls : List Json) (outcomes : List (Option String)) :
    (ownReplays calls outcomes).length = calls.length := by
  induction calls generalizing outcomes with
  | nil => rfl
  | cons call calls ih =>
    unfold ownReplays
    split_ifs
    · rw [List.length_cons, ih, List.length_cons]
    · cases outcomes with
      | nil => rw [List.length_cons, ih, List.length_cons]
      | cons o outcomes => rw [List.length_cons, ih, List.length_cons]

/-- Only the destinations decide whose outcome is whose. -/
theorem ownReplays_congr {calls calls' : List Json}
    (h : calls.map destination = calls'.map destination) (outcomes : List (Option String)) :
    ownReplays calls outcomes = ownReplays calls' outcomes := by
  induction calls generalizing calls' outcomes with
  | nil => rw [List.map_eq_nil_iff.mp h.symm]
  | cons call calls ih =>
    obtain ⟨call', rest, rfl, hcall, hrest⟩ := List.map_eq_cons_iff.mp h.symm
    unfold ownReplays
    rw [hcall]
    split_ifs
    · rw [ih hrest.symm]
    · cases outcomes with
      | nil => simp only [ih hrest.symm]
      | cons o outcomes => simp only [ih hrest.symm]

theorem statuses_applyReplayOutcomes {calls : List Json} (h : ∀ call ∈ calls, Untouched call)
    (outcomes : List (Option String)) :
    (applyReplayOutcomes calls outcomes).map (Json.get "status") =
      marksOf (ownReplays calls outcomes) := by
  induction calls generalizing outcomes with
  | nil => rfl
  | cons call calls ih =>
    have hcall := h call List.mem_cons_self
    have hcalls := fun c hc => h c (List.mem_cons_of_mem _ hc)
    have htop : isTopLevel call = true := decide_eq_true hcall.topLevel
    have hnone : calls.map (Json.get "status") = calls.map fun _ => none :=
      List.map_congr_left fun c hc => (hcalls c hc).status
    unfold applyReplayOutcomes ownReplays
    rw [htop]
    by_cases hdst : (destination call).isNone
    · rw [if_neg (by decide), if_pos hdst, if_pos hdst, List.map_cons, marksOf, hcall.status,
        ih hcalls]
    · rw [if_neg (by decide), if_neg hdst, if_neg hdst]
      cases outcomes with
      | nil =>
        simp only [List.map_cons, marksOf, hcall.status, hnone, marksOf_ownReplays_nil]
      | cons o outcomes =>
        cases o with
        | none =>
          simp only [List.map_cons, marksOf, Json.get_set hcall.obj, if_true, ih hcalls]
        | some err =>
          have hrest : (ownReplays calls outcomes).map (fun _ => (none : Option Json)) =
              calls.map fun _ => none := by
            rw [List.map_const', List.map_const', length_ownReplays]
          have hstatus : ((call.set "status" (.str "failed")).set "error" (.str err)).get "status" =
              some (.str "failed") := by
            rw [Json.get_set (hcall.obj.set _ _), if_neg (by decide), Json.get_set hcall.obj,
              if_pos rfl]
          simp only [List.map_cons, marksOf, hstatus, hnone, hrest]

theorem applyReplayOutcomes_isObj {calls : List Json} (h : ∀ call ∈ calls, Untouched call)
    (outcomes : List (Option String)) :
    ∀ call ∈ applyReplayOutcomes calls outcomes, call.IsObj := by
  induction calls generalizing outcomes with
  | nil => exact fun call hc => absurd hc List.not_mem_nil
  | cons call calls ih =>
    have hcall := (h call List.mem_cons_self).obj
    have hrest := fun c hc => h c (List.mem_cons_of_mem _ hc)
    have hcons : ∀ (c : Json) (cs : List Json), c.IsObj → (∀ c ∈ cs, c.IsObj) →
        ∀ c' ∈ c :: cs, c'.IsObj := by
      intro c cs hc hcs c' hc'
      rcases List.mem_cons.mp hc' with rfl | hc'
      · exact hc
      · exact hcs c' hc'
    unfold applyReplayOutcomes
    split_ifs
    · exact hcons _ _ hcall (ih hrest _)
    · exact hcons _ _ hcall (ih hrest _)
    · cases outcomes with
      | nil => exact hcons _ _ hcall fun c hc => (hrest c hc).obj
      | cons o outcomes =>
        cases o with
        | none => exact hcons _ _ (hcall.set _ _) (ih hrest _)
        | some err =>
          exact hcons _ _ ((hcall.set _ _).set _ _) fun c hc => (hrest c hc).obj

theorem statuses_markFirst {tx : Transaction} (htx : tx.status = 0) (reason : Option String)
    {calls : List Json} (h : ∀ call ∈ calls, call.IsObj) :
    (markFirst tx reason calls).map (Json.get "status") =
      failFirst (calls.map (Json.get "status")) := by
  cases calls with
  | nil => rfl
  | cons first rest =>
    have hobj := h first List.mem_cons_self
    cases hstatus : first.get "status" with
    | some mark =>
      simp only [markFirst, hstatus, Option.isNone_some, Bool.false_eq_true, if_false, List.map_cons,
        failFirst]
    | none =>
      have hone : ¬(0 : ℤ) = 1 := by decide
      have hset : (first.set "status" (.str "failed")).get "status" = some (.str "failed") := by
        rw [Json.get_set hobj, if_pos rfl]
      simp only [markFirst, hstatus, Option.isNone_none, if_true, htx, if_neg hone, List.map_cons,
        failFirst]
      cases reason with
      | none => rw [Option.elim_none, hset]
      | some reason =>
        rw [Option.elim_some, Json.get_set (hobj.set _ _), if_neg (by decide), hset]

/-- The replay always comes to an end; one that failed says nothing. -/
theorem exists_replayTxCalls (tx : Transaction) (parsed : ParsedTx) (node : Node)
    (log : List Exchange) :
    ∃ outcomes log', replayTxCalls tx parsed node log = (.ok outcomes, log') := by
  unfold replayTxCalls
  split_ifs
  · exact ⟨_, _, rfl⟩
  · simp only
    rw [Rpc.bind_run (Rpc.attempt_run _ _ _), batchCall_eq]
    cases (batchExchange node log _).results with
    | ok results => exact ⟨_, _, rfl⟩
    | error e => exact ⟨_, _, rfl⟩

/-- **Blame falls on the call that reverted**, in a failed transaction with no reason recorded,
exactly when it has one call or the replay says something of its first one. -/
theorem resolveCallStatuses_blames {tx : Transaction} (htx : tx.status = 0) (parsed : ParsedTx)
    {calls : List Json} (huntouched : ∀ call ∈ calls, Untouched call)
    (hshown : calls.map destination = parsed.calls.map destination ∨
      parsed.calls = [] ∧ calls.length = 1) (node : Node) (log : List Exchange) :
    ∃ outcomes marked reason log', replayTxCalls tx parsed node log = (.ok outcomes, log') ∧
      resolveCallStatuses tx parsed calls none node log = (.ok (marked, reason), log') ∧
      (Blames (ownReplays parsed.calls outcomes) (marked.map (Json.get "status")) ↔
        calls.length ≤ 1 ∨ (∃ dst, calls.head?.map destination = some (some dst)) ∧
          outcomes ≠ []) := by
  obtain ⟨outcomes, log', hreplay⟩ := exists_replayTxCalls tx parsed node log
  have hreason : calls.findSome? callError = none := by
    refine List.findSome?_eq_none_iff.mpr fun call hcall => ?_
    rw [callError, (huntouched call hcall).error]
    rfl
  have hresolve : resolveCallStatuses tx parsed calls none node log =
      (.ok (markFirst tx (outcomes.findSome? id) (applyReplayOutcomes calls outcomes),
        outcomes.findSome? id), log') := by
    unfold resolveCallStatuses
    rw [if_pos htx, hreason, Option.or_none]
    exact Rpc.bind_run hreplay _
  refine ⟨outcomes, _, _, log', hreplay, hresolve, ?_⟩
  rw [statuses_markFirst htx _ (applyReplayOutcomes_isObj huntouched outcomes),
    statuses_applyReplayOutcomes huntouched]
  rcases hshown with hsame | ⟨hparsed, hone⟩
  · rw [ownReplays_congr hsame.symm, failFirst_blames, length_ownReplays]
    refine or_congr_right ?_
    cases calls with
    | nil =>
      refine iff_of_false ?_ ?_
      · rintro ⟨o, ho⟩
        exact absurd ho nofun
      · rintro ⟨⟨dst, hdst⟩, -⟩
        exact absurd hdst nofun
    | cons call calls =>
      unfold ownReplays
      cases hdst : destination call with
      | none => simp [hdst]
      | some dst => cases outcomes <;> simp [hdst]
  · -- A call made up for a transaction that lists none.
    have hempty : ∀ i, ¬FirstError (ownReplays [] outcomes) i := by
      rintro i ⟨⟨err, herr⟩, -⟩
      exact absurd herr nofun
    have hlength : (failFirst (marksOf (ownReplays calls outcomes))).length = 1 := by
      have hmarks := length_marksOf (ownReplays calls outcomes)
      rw [length_ownReplays, hone] at hmarks
      obtain ⟨m, hm⟩ := List.length_eq_one_iff.mp hmarks
      rw [hm]
      cases m <;> rfl
    rw [hparsed]
    refine iff_of_true ⟨fun i _ => .inr hlength, fun i h => ?_, fun i h => ?_⟩ (.inl hone.le)
    · exact absurd h (hempty i)
    · exact absurd h (hempty i)

/-! ## Two calls -/

section Sample

/-- A call as a raw transaction lists it. -/
def listedCall (dst : String) : Json :=
  .obj [("depth", .int 0), ("type", .str "CALL"), ("to", .str dst), ("data", .str "0x")]

def twoCalls : ParsedTx := ⟨some 21000, [listedCall "0x01", listedCall "0x02"]⟩

def failedTx : Transaction where
  hash := "0x0a"
  blockNumber := 1
  position := 0
  fromAddr := "0x03"
  toAddr := some "0x01"
  status := 0
  gasUsed := 21000
  baseFee := "0x0"
  contractAddress := none
  feeToken := none
  feeAmount := "0"
  input := "0x"
  raw := none
  traceData := none
  receiptData := none
  timestamp := 0

/-- The first call goes through, the second reverts. -/
def revertingNode : Node := fun _ _ => .body (.arr [
  .obj [("id", .int 1), ("result", .str "0x")],
  .obj [("id", .int 2), ("error", .obj [("code", .int 3), ("message", .str "reverted")])]])

theorem untouched_twoCalls : ∀ call ∈ twoCalls.calls, Untouched call := by
  intro call hcall
  simp only [twoCalls, List.mem_cons, List.not_mem_nil, or_false] at hcall
  rcases hcall with rfl | rfl
  · exact ⟨⟨_, rfl⟩, by decide, rfl, rfl⟩
  · exact ⟨⟨_, rfl⟩, by decide, rfl, rfl⟩

theorem resolveCallStatuses_blames_second : ∃ outcomes marked reason log',
    replayTxCalls failedTx twoCalls revertingNode [] = (.ok outcomes, log') ∧
      resolveCallStatuses failedTx twoCalls twoCalls.calls none revertingNode [] =
        (.ok (marked, reason), log') ∧
      outcomes = [none, some "reverted"] ∧
      Blames (ownReplays twoCalls.calls outcomes) (marked.map (Json.get "status")) := by
  have hfailed : failedTx.status = 0 := rfl
  obtain ⟨outcomes, marked, reason, log', hreplay, hresolve, hblames⟩ := resolveCallStatuses_blames
    hfailed twoCalls untouched_twoCalls (.inl rfl) revertingNode []
  have houtcomes : (replayTxCalls failedTx twoCalls revertingNode []).1 =
      .ok [none, some "reverted"] := by
    rfl
  rw [hreplay] at houtcomes
  obtain rfl := Except.ok.inj houtcomes
  exact ⟨_, marked, reason, log', hreplay, hresolve, rfl,
    hblames.mpr (.inr ⟨⟨"0x01", rfl⟩, List.cons_ne_nil _ _⟩)⟩

/-- **A replay that fails as a whole** still has the first of two calls marked failed. -/
theorem resolveCallStatuses_blames_unreplayed : ¬ ∀ (tx : Transaction) (parsed : ParsedTx)
    (calls : List Json), tx.status = 0 → (∀ call ∈ calls, Untouched call) →
      calls.map destination = parsed.calls.map destination →
        ∀ (node : Node) (log : List Exchange) (outcomes : List (Option String))
          (marked : List Json) (reason : Option String) (log' : List Exchange),
          replayTxCalls tx parsed node log = (.ok outcomes, log') →
            resolveCallStatuses tx parsed calls none node log = (.ok (marked, reason), log') →
              Blames (ownReplays parsed.calls outcomes) (marked.map (Json.get "status")) := by
  intro hall
  have h := hall failedTx twoCalls twoCalls.calls rfl untouched_twoCalls rfl (fun _ _ => .failed) []
    [] _ _ _ rfl rfl
  rcases h.failed 0 rfl with ⟨⟨err, herr⟩, -⟩ | hlength
  · exact absurd herr nofun
  · exact absurd hlength (by decide)

end Sample

end ChainExplorer
