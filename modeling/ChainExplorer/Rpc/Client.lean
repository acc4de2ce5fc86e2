import ChainExplorer.Lib.Json
import ChainExplorer.Lib.Keyed

/-!
# The JSON-RPC client

Requests to the node and what its answers are read as (`rpc.rs`). The client is the one the
settings give, without a pace.

* `Node`: any answer to any request, which may depend on all that was asked before.
* `Rpc`: a run of the client against a node, which records what was asked and answered.
* `call`, `batchCall`: one call, and several in one request.
* **`batchCall_eq`**: a batch is one exchange, read as `Exchange.results`.
-/

namespace ChainExplorer

/-- A method and its parameters. -/
structure MethodCall where
  method : String
  params : Json

/-- One HTTP request. The calls of a batch carry the ids 1, 2, …. -/
inductive Request
  | one (call : MethodCall)
  | many (calls : List MethodCall)

/-- What comes back for a request. -/
inductive Reply
  /-- No answer: a refused connection, a timeout. -/
  | failed
  | notJson
  | body (value : Json)

/-- A request and what came back. -/
structure Exchange where
  request : Request
  reply : Reply

/-- **A node**: its answer to a request after the exchanges before, whatever it is. -/
abbrev Node := List Exchange → Request → Reply

structure RpcError where
  code : ℤ
  message : String
  data : Option Json

/-- An error of the client: the node's own, or any other. -/
inductive Failure
  | rpc (error : RpcError)
  | other (message : String)

/-- **A run of the client**: the node and the exchanges before; the result and the exchanges
after. -/
def Rpc (α : Type) := Node → List Exchange → Except Failure α × List Exchange

namespace Rpc

instance : Monad Rpc where
  pure a := fun _ log => (.ok a, log)
  bind x f := fun node log =>
    match x node log with
    | (.ok a, log') => f a node log'
    | (.error e, log') => (.error e, log')

def fail {α : Type} (e : Failure) : Rpc α := fun _ log => (.error e, log)

/-- A result that no request is needed for. -/
def lift {α : Type} (r : Except Failure α) : Rpc α := fun _ log => (r, log)

/-- Run and keep the error. -/
def attempt {α : Type} (x : Rpc α) : Rpc (Except Failure α) := fun node log =>
  let r := x node log
  (.ok r.1, r.2)

/-- Send a request. -/
def send (request : Request) : Rpc Reply := fun node log =>
  let reply := node log request
  (.ok reply, log ++ [⟨request, reply⟩])

variable {α β : Type}

theorem attempt_run (x : Rpc α) (node : Node) (log : List Exchange) :
    x.attempt node log = (.ok (x node log).1, (x node log).2) := rfl

theorem bind_run {x : Rpc α} {node : Node} {log log' : List Exchange} {a : α}
    (h : x node log = (.ok a, log')) (f : α → Rpc β) : (x >>= f) node log = f a node log' := by
  change (match x node log with
    | (.ok a, log') => f a node log'
    | (.error e, log') => (.error e, log')) = f a node log'
  rw [h]

theorem bind_ok {x : Rpc α} {f : α → Rpc β} {node : Node} {log log'' : List Exchange} {b : β}
    (h : (x >>= f) node log = (.ok b, log'')) :
    ∃ a log', x node log = (.ok a, log') ∧ f a node log' = (.ok b, log'') := by
  change (match x node log with
    | (.ok a, log') => f a node log'
    | (.error e, log') => (.error e, log')) = (.ok b, log'') at h
  cases hx : x node log with
  | mk r log' =>
    rw [hx] at h
    cases r with
    | error e => exact absurd (Prod.mk.inj h).1 nofun
    | ok a => exact ⟨a, log', rfl, h⟩

theorem bind_pure_log (x : Rpc α) (f : α → β) (node : Node) (log : List Exchange) :
    ((x >>= fun a => pure (f a)) node log).2 = (x node log).2 := by
  change (match x node log with
    | (.ok a, log') => (pure (f a) : Rpc β) node log'
    | (.error e, log') => (.error e, log')).2 = (x node log).2
  cases hx : x node log with
  | mk r log' => cases r <;> rfl

end Rpc

/-- The error a JSON-RPC response carries, if any. -/
def RpcError.of (response : Json) : Option RpcError :=
  match (response.get "error").filter fun e => !e.isNull with
  | none => none
  | some err => some {
      code := ((err.get "code").bind Json.asI64).getD 0
      message := ((err.get "message").bind Json.asStr).getD "unknown"
      data := err.get "data" }

/-! ## One call -/

/-- The result of a call from what came back. -/
def callResult (method : String) : Reply → Except Failure Json
  | .failed => .error (.other s!"RPC request {method} failed")
  | .notJson => .error (.other s!"RPC response for {method} was not JSON")
  | .body body =>
    match RpcError.of body with
    | some err => .error (.rpc err)
    | none => .ok (body.take "result")

/-- One call. -/
def call (method : String) (params : Json) : Rpc Json := do
  let reply ← Rpc.send (.one ⟨method, params⟩)
  Rpc.lift (callResult method reply)

/-! ## Several calls -/

/-- The answer to a call the node left out of a batch. -/
def noResponse : RpcError := ⟨-32603, "no response for batched request", none⟩

/-- The items of a batch by their id; of two with one id the last counts. -/
def itemsById (items : List Json) : Keyed ℕ Json :=
  items.foldl (fun byId item =>
    match (item.get "id").bind Json.asU64 with
    | some id => byId.insert id item
    | none => byId) ∅

/-- The result of the call with that id. -/
def itemResult (byId : Keyed ℕ Json) (id : ℕ) : Except RpcError Json :=
  match byId.lookup id with
  | none => .error noResponse
  | some item =>
    match RpcError.of item with
    | some err => .error err
    | none => .ok (item.take "result")

/-- The results of a batch, in request order, from what came back. -/
def batchResults (n : ℕ) : Reply → Except Failure (List (Except RpcError Json))
  | .failed => .error (.other "batch RPC request failed")
  | .notJson => .error (.other "batch RPC response was not JSON")
  | .body body =>
    match body.asArray with
    | some items => .ok ((List.range n).map fun i => itemResult (itemsById items) (i + 1))
    | none =>
      -- One error for the whole batch.
      match RpcError.of body with
      | some err => .error (.rpc err)
      | none => .error (.other "batch RPC response is not an array")

/-- **Several calls in one request**, each with its own result or error. One call goes alone. -/
def batchCall (calls : List MethodCall) : Rpc (List (Except RpcError Json)) :=
  match calls with
  | [c] => do
    match ← (call c.method c.params).attempt with
    | .ok value => return [.ok value]
    | .error (.rpc err) => return [.error err]
    | .error e => Rpc.fail e
  | calls => do
    let reply ← Rpc.send (.many calls)
    Rpc.lift (batchResults calls.length reply)

/-! ## What an exchange says -/

/-- The request that several calls go in. -/
def batchRequest : List MethodCall → Request
  | [c] => .one c
  | calls => .many calls

/-- The calls of a request. -/
def Request.calls : Request → List MethodCall
  | .one c => [c]
  | .many calls => calls

/-- The results an exchange is read as, one for each call of the request. -/
def Exchange.results (e : Exchange) : Except Failure (List (Except RpcError Json)) :=
  match e.request with
  | .many calls => batchResults calls.length e.reply
  | .one c =>
    match callResult c.method e.reply with
    | .ok value => .ok [.ok value]
    | .error (.rpc err) => .ok [.error err]
    | .error e => .error e

/-- The exchange that several calls make. -/
def batchExchange (node : Node) (log : List Exchange) (calls : List MethodCall) : Exchange :=
  ⟨batchRequest calls, node log (batchRequest calls)⟩

theorem calls_batchRequest (calls : List MethodCall) : (batchRequest calls).calls = calls := by
  unfold batchRequest
  split <;> rfl

/-- **A batch is one exchange**, and its result is what that is read as. -/
theorem batchCall_eq (calls : List MethodCall) (node : Node) (log : List Exchange) :
    batchCall calls node log =
      ((batchExchange node log calls).results, log ++ [batchExchange node log calls]) := by
  unfold batchCall batchExchange batchRequest
  split
  · rename_i c
    have hcall : call c.method c.params node log =
        (callResult c.method (node log (.one c)), log ++ [⟨.one c, node log (.one c)⟩]) := rfl
    rw [Rpc.bind_run (Rpc.attempt_run _ _ _), hcall]
    simp only [Exchange.results]
    cases callResult c.method (node log (.one c)) with
    | ok value => rfl
    | error e => cases e <;> rfl
  · rfl

theorem length_batchResults {n : ℕ} {reply : Reply} {results : List (Except RpcError Json)}
    (h : batchResults n reply = .ok results) : results.length = n := by
  unfold batchResults at h
  split at h
  · exact absurd h nofun
  · exact absurd h nofun
  · split at h
    · rw [← Except.ok.inj h, List.length_map, List.length_range]
    · split at h <;> exact absurd h nofun

theorem Exchange.length_results {e : Exchange} {results : List (Except RpcError Json)}
    (h : e.results = .ok results) : results.length = e.request.calls.length := by
  unfold Exchange.results at h
  cases hreq : e.request with
  | many calls =>
    rw [hreq] at h
    exact length_batchResults h
  | one c =>
    rw [hreq] at h
    simp only at h
    split at h
    · rw [← Except.ok.inj h]
      rfl
    · rw [← Except.ok.inj h]
      rfl
    · exact absurd h nofun

/-- The node's own exchange. -/
def Node.Made (node : Node) (e : Exchange) : Prop := ∃ log calls, e = batchExchange node log calls

theorem made_batchExchange (node : Node) (log : List Exchange) (calls : List MethodCall) :
    node.Made (batchExchange node log calls) := ⟨log, calls, rfl⟩

theorem Node.Made.request {node : Node} {e : Exchange} (h : node.Made e) :
    e.request = batchRequest e.request.calls ∧ ∃ log, e.reply = node log e.request := by
  obtain ⟨log, calls, rfl⟩ := h
  refine ⟨?_, log, rfl⟩
  rw [show (batchExchange node log calls).request = batchRequest calls from rfl, calls_batchRequest]

/-- Among some exchanges, a call was given a result. -/
def Answered (log : List Exchange) (c : MethodCall) (r : Except RpcError Json) : Prop :=
  ∃ e ∈ log, ∃ results, e.results = .ok results ∧ (c, r) ∈ e.request.calls.zip results

theorem Answered.mono {log log' : List Exchange} {c : MethodCall} {r : Except RpcError Json}
    (h : Answered log c r) (hsub : log ⊆ log') : Answered log' c r := by
  obtain ⟨e, he, hrest⟩ := h
  exact ⟨e, hsub he, hrest⟩

theorem answered_append {log log' : List Exchange} {c : MethodCall} {r : Except RpcError Json} :
    Answered (log ++ log') c r ↔ Answered log c r ∨ Answered log' c r := by
  simp only [Answered, List.mem_append, or_and_right, exists_or]

theorem length_batchCall {calls : List MethodCall} {node : Node} {log log' : List Exchange}
    {results : List (Except RpcError Json)}
    (h : batchCall calls node log = (.ok results, log')) : results.length = calls.length := by
  rw [batchCall_eq] at h
  rw [Exchange.length_results (Prod.mk.inj h).1]
  exact congrArg List.length (calls_batchRequest calls)

end ChainExplorer
