import ChainExplorer.Lib.Pairs
import ChainExplorer.Rpc.Client

/-!
# A node that answers right

Its answer to one call is right, and to several they all are, in any order, or the whole request is
refused with one error.

* `Node.Serves`: such a node, for the answers that are right.
* **`Node.Serves.results`**: what the client reads from an exchange with it.
* `answeringNode`: a node that answers each call by itself, and what the client reads from it.
-/

namespace ChainExplorer

/-! ## Items of a batch -/

/-- The id an item carries. -/
def itemId (item : Json) : Option ℕ := (item.get "id").bind Json.asU64

theorem itemsById_concat (items : List Json) (last : Json) :
    itemsById (items ++ [last]) =
      match itemId last with
      | some id => (itemsById items).insert id last
      | none => itemsById items := by
  rw [itemsById, List.foldl_append]
  rfl

theorem itemsById_spec (items : List Json) (id : ℕ) :
    (∀ item, (itemsById items).lookup id = some item → item ∈ items ∧ itemId item = some id) ∧
      ((∃ item ∈ items, itemId item = some id) → ∃ item, (itemsById items).lookup id = some item) := by
  induction items using List.reverseRecOn with
  | nil => exact ⟨nofun, nofun⟩
  | append_singleton items last ih =>
    rw [itemsById_concat]
    cases hlast : itemId last with
    | none =>
      refine ⟨fun item h => ?_, fun ⟨item, hitem, hid⟩ => ?_⟩
      · obtain ⟨hmem, hid⟩ := ih.1 item h
        exact ⟨List.mem_append_left _ hmem, hid⟩
      · rcases List.mem_append.mp hitem with hitem | hitem
        · exact ih.2 ⟨item, hitem, hid⟩
        · rw [List.mem_singleton.mp hitem, hlast] at hid
          exact absurd hid nofun
    | some id' =>
      simp only [Keyed.lookup_insert_eq]
      by_cases hsame : id = id'
      · refine ⟨fun item h => ?_, fun _ => ⟨last, if_pos hsame⟩⟩
        rw [if_pos hsame] at h
        obtain rfl := Option.some.inj h
        exact ⟨List.mem_append_right _ List.mem_cons_self, hsame ▸ hlast⟩
      · rw [if_neg hsame]
        refine ⟨fun item h => ?_, fun ⟨item, hitem, hid⟩ => ?_⟩
        · obtain ⟨hmem, hid⟩ := ih.1 item h
          exact ⟨List.mem_append_left _ hmem, hid⟩
        · rcases List.mem_append.mp hitem with hitem | hitem
          · exact ih.2 ⟨item, hitem, hid⟩
          · rw [List.mem_singleton.mp hitem, hlast] at hid
            exact absurd (Option.some.inj hid).symm hsame

/-! ## Answers -/

/-- A response that carries a result and no error. -/
def Carries (response v : Json) : Prop := RpcError.of response = none ∧ response.take "result" = v

/-- The items answer every call right: each is there, and no other item has its id. -/
def AnswersAll (Right : MethodCall → Json → Prop) (calls : List MethodCall) (items : List Json) : Prop :=
  ∀ i call v, calls[i]? = some call → Right call v →
    (∃ item ∈ items, itemId item = some (i + 1)) ∧
      ∀ item ∈ items, itemId item = some (i + 1) → Carries item v

/-- One error for the whole request. -/
def Refuses (reply : Reply) : Prop :=
  ∃ body error, reply = .body body ∧ body.asArray = none ∧ RpcError.of body = some error

/-- **A node that answers right**, or refuses several calls at once as it likes. -/
structure Node.Serves (node : Node) (Right : MethodCall → Json → Prop) : Prop where
  one : ∀ log call v, Right call v → ∃ body, node log (.one call) = .body body ∧ Carries body v
  many : ∀ log calls, 2 ≤ calls.length → (∀ call ∈ calls, ∃ v, Right call v) →
    Refuses (node log (.many calls)) ∨
      ∃ items, node log (.many calls) = .body (.arr items) ∧ AnswersAll Right calls items

theorem Node.Serves.mono {node : Node} {Right Right' : MethodCall → Json → Prop}
    (h : node.Serves Right) (hsub : ∀ call v, Right' call v → Right call v) : node.Serves Right' where
  one log call v hv := h.one log call v (hsub call v hv)
  many log calls hlen hright := by
    have hall : ∀ call ∈ calls, ∃ v, Right call v := fun call hcall =>
      (hright call hcall).imp fun v hv => hsub call v hv
    refine (h.many log calls hlen hall).imp_right ?_
    rintro ⟨items, hitems, hanswers⟩
    exact ⟨items, hitems, fun i call v hi hv => hanswers i call v hi (hsub call v hv)⟩

/-- The exchange was refused. -/
def Exchange.Refused (e : Exchange) : Prop := ∃ error, e.results = .error (.rpc error)

theorem batchResults_answersAll {Right : MethodCall → Json → Prop} {calls : List MethodCall}
    {vs : List Json} (hright : List.Forall₂ Right calls vs) {items : List Json}
    (h : AnswersAll Right calls items) :
    batchResults calls.length (.body (.arr items)) = .ok (vs.map .ok) := by
  have hresults : batchResults calls.length (.body (.arr items)) =
      .ok ((List.range calls.length).map fun i => itemResult (itemsById items) (i + 1)) := rfl
  rw [hresults]
  refine congrArg Except.ok (List.ext_getElem ?_ fun i hi hi' => ?_)
  · rw [List.length_map, List.length_map, List.length_range, hright.length_eq]
  · rw [List.length_map, List.length_range] at hi
    rw [List.length_map] at hi'
    have hpair : Right calls[i] vs[i] := hright.get hi hi'
    obtain ⟨hthere, hcarries⟩ := h i calls[i] vs[i] (List.getElem?_eq_getElem hi) hpair
    obtain ⟨item, hlookup⟩ := (itemsById_spec items (i + 1)).2 hthere
    obtain ⟨hmem, hid⟩ := (itemsById_spec items (i + 1)).1 item hlookup
    obtain ⟨herror, htake⟩ := hcarries item hmem hid
    rw [List.getElem_map, List.getElem_map, List.getElem_range, itemResult, hlookup]
    simp only [herror, htake]

/-- **An exchange with it** gives every right answer, or is refused if it has several calls. -/
theorem Node.Serves.results {node : Node} {Right : MethodCall → Json → Prop} (h : node.Serves Right)
    {calls : List MethodCall} {vs : List Json} (hright : List.Forall₂ Right calls vs)
    (hne : calls ≠ []) {e : Exchange} (hmade : node.Made e) (hcalls : e.request.calls = calls) :
    e.results = .ok (vs.map .ok) ∨ 2 ≤ calls.length ∧ e.Refused := by
  obtain ⟨hrequest, log, hreply⟩ := hmade.request
  rw [hcalls] at hrequest
  cases hright with
  | nil => exact absurd rfl hne
  | @cons call v calls vs hcall hrest =>
    cases hrest with
    | nil =>
      have hone : e.request = .one call := hrequest
      obtain ⟨body, hbody, herror, htake⟩ := h.one log call v hcall
      rw [hone, hbody] at hreply
      left
      simp only [Exchange.results, hone, hreply, callResult, herror, htake, List.map_cons, List.map_nil]
    | @cons call' v' calls vs hcall' hrest =>
      have hmany : e.request = .many (call :: call' :: calls) := hrequest
      have hall := List.Forall₂.cons hcall (List.Forall₂.cons hcall' hrest)
      have hlen : 2 ≤ (call :: call' :: calls).length := Nat.le_add_left _ _
      have hresults : e.results = batchResults (call :: call' :: calls).length e.reply := by
        simp only [Exchange.results, hmany]
      rw [hmany] at hreply
      rcases h.many log _ hlen (fun c hc => (hall.exists_right hc).imp fun v hv => hv.2) with
        ⟨body, error, hbody, harray, herror⟩ | ⟨items, hitems, hanswers⟩
      · right
        refine ⟨hlen, error, ?_⟩
        rw [hresults, hreply, hbody]
        simp only [batchResults, harray, herror]
      · left
        rw [hresults, hreply, hitems]
        exact batchResults_answersAll hall hanswers

/-! ## Each call by itself -/

/-- An item of a batch that carries a result. -/
def response (id : ℕ) (v : Json) : Json := .obj [("id", .int id), ("result", v)]

theorem eq_of_itemId_response {id id' : ℕ} {v : Json} (h : itemId (response id v) = some id') :
    id' = id := by
  have hget : (response id v).get "id" = some (.int id) := rfl
  rw [itemId, hget, Option.bind_some, Json.asU64] at h
  split_ifs at h
  exact (Option.some.inj h).symm

/-- A node that answers each call by itself, whatever was asked before. -/
def answeringNode (answer : MethodCall → Json) : Node
  | _, .one call => .body (.obj [("result", answer call)])
  | _, .many calls => .body (.arr (calls.mapIdx fun i call => response (i + 1) (answer call)))

variable {answer : MethodCall → Json}

theorem itemResult_answeringNode {calls : List MethodCall} {i : ℕ} {v : Json}
    (h : itemResult (itemsById (calls.mapIdx fun i call => response (i + 1) (answer call))) (i + 1) =
      .ok v) : ∃ call, calls[i]? = some call ∧ v = answer call := by
  let items := calls.mapIdx fun i call => response (i + 1) (answer call)
  cases hlookup : (itemsById items).lookup (i + 1) with
  | none =>
    rw [itemResult, hlookup] at h
    exact absurd h nofun
  | some item =>
    obtain ⟨hmem, hid⟩ := (itemsById_spec items (i + 1)).1 item hlookup
    obtain ⟨j, hj, rfl⟩ := List.mem_mapIdx.mp hmem
    obtain rfl : i = j := Nat.succ.inj (eq_of_itemId_response hid)
    rw [itemResult, hlookup] at h
    exact ⟨_, List.getElem?_eq_getElem hj, (Except.ok.inj h).symm⟩

theorem eq_answer_of_made {e : Exchange} (hmade : (answeringNode answer).Made e)
    {results : List (Except RpcError Json)} (hresults : e.results = .ok results) {call : MethodCall}
    {v : Json} (h : (call, .ok v) ∈ e.request.calls.zip results) : v = answer call := by
  obtain ⟨log, calls, rfl⟩ := hmade
  rw [batchExchange] at hresults h
  cases hrequest : batchRequest calls with
  | one c =>
    rw [hrequest] at hresults h
    obtain rfl : [.ok (answer c)] = results := Except.ok.inj hresults
    obtain ⟨rfl, hv⟩ := Prod.mk.inj (List.mem_singleton.mp h)
    exact Except.ok.inj hv
  | many cs =>
    rw [hrequest] at hresults h
    obtain rfl := Except.ok.inj hresults
    obtain ⟨i, hi, hpair⟩ := List.mem_iff_getElem.mp h
    rw [List.getElem_zip, List.getElem_map, List.getElem_range] at hpair
    obtain ⟨hcall, hv⟩ := Prod.mk.inj hpair
    obtain ⟨c, hc, rfl⟩ := itemResult_answeringNode hv
    rw [List.getElem?_eq_getElem, Option.some.injEq] at hc
    rw [← hc, ← hcall]
    rfl

end ChainExplorer
