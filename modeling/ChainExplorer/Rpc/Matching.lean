import ChainExplorer.Rpc.Served

/-!
# Answers go to their questions

* `itemsOf`, `answerOf`: the items of an array with an id, and what the last of some items answers.
* `Replies`: a batch of calls, and the array that came back for it.
* **`batchCall_matched`**: a call is answered by the items with its id alone, in whatever order they
  come, and a call that goes alone as it would be in a batch.
-/

namespace ChainExplorer

/-! ## Items and ids -/

/-- The items with an id. -/
def itemsOf (items : List Json) (id : ℕ) : List Json := items.filter fun item => itemId item = some id

/-- What some items answer: the error of the last of them, or else its result. -/
def answerOf (items : List Json) : Except RpcError Json :=
  match items.getLast? with
  | none => .error noResponse
  | some item =>
    match RpcError.of item with
    | some err => .error err
    | none => .ok (item.take "result")

theorem itemsOf_append (items items' : List Json) (id : ℕ) :
    itemsOf (items ++ items') id = itemsOf items id ++ itemsOf items' id := List.filter_append ..

theorem lookup_itemsById (items : List Json) (id : ℕ) :
    (itemsById items).lookup id = (itemsOf items id).getLast? := by
  induction items using List.reverseRecOn with
  | nil => rfl
  | append_singleton items last ih =>
    have hlast : itemsOf [last] id = if itemId last = some id then [last] else [] := by
      by_cases hid : itemId last = some id
      · simp [itemsOf, hid]
      · simp [itemsOf, hid]
    rw [itemsById_concat, itemsOf_append, hlast]
    cases hid : itemId last with
    | none =>
      rw [if_neg nofun, List.append_nil]
      exact ih
    | some id' =>
      rw [Keyed.lookup_insert_eq]
      by_cases hsame : id = id'
      · rw [if_pos hsame, if_pos (congrArg some hsame.symm), List.getLast?_concat]
      · rw [if_neg hsame, if_neg fun h => hsame (Option.some.inj h).symm, List.append_nil]
        exact ih

theorem itemResult_itemsById (items : List Json) (id : ℕ) :
    itemResult (itemsById items) id = answerOf (itemsOf items id) := by
  have hlast := lookup_itemsById items id
  unfold itemResult answerOf
  generalize (itemsById items).lookup id = found at hlast ⊢
  subst hlast
  rfl

/-- Where no id comes twice, an array in another order has the same items of each. -/
theorem itemsOf_perm {items items' : List Json} (h : items.Perm items')
    (hnodup : (items.filterMap itemId).Nodup) (id : ℕ) : itemsOf items id = itemsOf items' id := by
  have hperm : (itemsOf items id).Perm (itemsOf items' id) := h.filter _
  have hcount : (itemsOf items id).length = (items.filterMap itemId).count id := by
    rw [itemsOf, ← List.countP_eq_length_filter, List.count_filterMap]
    refine List.countP_congr fun item _ => ?_
    simp
  have hone : (itemsOf items id).length ≤ 1 := hcount ▸ List.nodup_iff_count_le_one.mp hnodup id
  cases hitems : itemsOf items id with
  | nil =>
    rw [hitems] at hperm
    exact (List.nil_perm.mp hperm).symm
  | cons item rest =>
    rw [hitems, List.length_cons] at hone
    have hrest : rest = [] := List.length_eq_zero_iff.mp (by omega)
    rw [hitems, hrest] at hperm
    rw [hrest]
    exact (List.singleton_perm.mp hperm)

/-! ## Batches -/

/-- An array came back for several calls. -/
structure Replies (node : Node) (log : List Exchange) (calls : List MethodCall) (items : List Json) :
    Prop where
  several : 2 ≤ calls.length
  reply : node log (.many calls) = .body (.arr items)

theorem Replies.batchCall {node : Node} {log : List Exchange} {calls : List MethodCall}
    {items : List Json} (h : Replies node log calls items) :
    (batchCall calls node log).1 =
      .ok ((List.range calls.length).map fun i => answerOf (itemsOf items (i + 1))) := by
  have hrequest : batchRequest calls = .many calls := by
    unfold batchRequest
    split
    · exact absurd h.several (by simp)
    · rfl
  have hresults : (batchExchange node log calls).results =
      batchResults calls.length (.body (.arr items)) := by
    rw [batchExchange, hrequest, h.reply]
    rfl
  rw [batchCall_eq, hresults]
  simp only [batchResults, Json.asArray, itemResult_itemsById]

/-- A field that is neither read is no part of an answer. -/
theorem answerOf_set_id {body : Json} (h : body.IsObj) (id : Json) :
    answerOf [body.set "id" id] = answerOf [body] := by
  have herror : (body.set "id" id).get "error" = body.get "error" := by
    rw [Json.get_set h, if_neg (by decide)]
  have hresult : (body.set "id" id).get "result" = body.get "result" := by
    rw [Json.get_set h, if_neg (by decide)]
  simp only [answerOf, List.getLast?_singleton, RpcError.of, Json.take, herror, hresult]

theorem batchCall_one {c : MethodCall} {node : Node} {log : List Exchange} {body : Json}
    (h : node log (.one c) = .body body) : (batchCall [c] node log).1 = .ok [answerOf [body]] := by
  rw [batchCall_eq]
  simp only [batchExchange, batchRequest, Exchange.results, h, callResult, answerOf,
    List.getLast?_singleton]
  cases RpcError.of body with
  | none => rfl
  | some err => rfl

/-- **Answers go to their questions.** Of several calls each has one result, in order, which is what
the items with its id answer, whatever else came; in another order an array with no id twice gives
the same; and a call that goes alone has the result that its response would have as the item with id
1 of any batch. -/
theorem batchCall_matched :
    (∀ node log calls items, Replies node log calls items →
      ∃ results, (batchCall calls node log).1 = .ok results ∧ results.length = calls.length ∧
        ∀ i < calls.length, results[i]? = some (answerOf (itemsOf items (i + 1)))) ∧
    (∀ node node' log log' calls items items', Replies node log calls items →
      Replies node' log' calls items' → items.Perm items' → (items.filterMap itemId).Nodup →
        (batchCall calls node log).1 = (batchCall calls node' log').1) ∧
    ∀ node node' log log' c calls items body, node log (.one c) = .body body → body.IsObj →
      Replies node' log' calls items → itemsOf items 1 = [body.set "id" (.int 1)] →
        ∃ result rest, (batchCall [c] node log).1 = .ok [result] ∧
          (batchCall calls node' log').1 = .ok (result :: rest) := by
  refine ⟨fun node log calls items h => ?_, fun node node' log log' calls items items' h h' hperm
    hnodup => ?_, fun node node' log log' c calls items body hbody hobj h hitem => ?_⟩
  · refine ⟨_, h.batchCall, by rw [List.length_map, List.length_range], fun i hi => ?_⟩
    rw [List.getElem?_map, List.getElem?_range hi, Option.map_some]
  · rw [h.batchCall, h'.batchCall]
    simp only [itemsOf_perm hperm hnodup]
  · have hrange : List.range calls.length =
        0 :: (List.range (calls.length - 1)).map Nat.succ := by
      rw [← List.range_succ_eq_map, Nat.sub_add_cancel (le_trans (by decide) h.several)]
    refine ⟨answerOf [body], ((List.range (calls.length - 1)).map Nat.succ).map fun i =>
      answerOf (itemsOf items (i + 1)), batchCall_one hbody, ?_⟩
    rw [h.batchCall, hrange, List.map_cons, hitem, answerOf_set_id hobj]

/-- The error of the second call before the result of the first, and an item nobody asked for. -/
def shuffledItems : List Json :=
  [.obj [("id", .int 2), ("error", .obj [("code", .int 3), ("message", .str "execution reverted")])],
    .obj [("id", .int 7), ("result", .str "0x7")],
    .obj [("id", .int 1), ("result", .str "0x1")]]

def numberAndCall : List MethodCall := [⟨"eth_blockNumber", .arr []⟩, ⟨"eth_call", .arr []⟩]

/-- They come back in the order of the calls. -/
theorem batchCall_matched_shuffled :
    ∃ results, (batchCall numberAndCall (fun _ _ => .body (.arr shuffledItems)) []).1 = .ok results ∧
      results[0]? = some (.ok (.str "0x1")) ∧
      results[1]? = some (.error ⟨3, "execution reverted", none⟩) := by
  obtain ⟨results, hresults, -, hget⟩ := batchCall_matched.1 (fun _ _ => .body (.arr shuffledItems))
    [] numberAndCall shuffledItems ⟨le_rfl, rfl⟩
  exact ⟨results, hresults, hget 0 (by decide), hget 1 (by decide)⟩

end ChainExplorer
