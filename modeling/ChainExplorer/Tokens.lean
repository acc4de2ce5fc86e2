import ChainExplorer.Lib.Utf8
import ChainExplorer.Parse
import ChainExplorer.Rpc.Client

/-!
# What tokens answer

The views of a token and the balances of its holders, each asked of the node in one request
(`tokens.rs`).

* `decodeStringResult`, `decodeUintResult`, `decodeUint256Result`: an answer as text or a number.
* `fetchTokenMetadata`; **`fetchTokenMetadata_addresses`**: one row per address, in order, or none.
* `balancesAtGenesis`; **`length_balancesAtGenesis`**: one balance per holder, or none at all.
-/

namespace ChainExplorer

open Text

def balanceOfCall : String := "0x70a08231"

def genesisTag : String := "0x0"

/-- The JSON-RPC error code of a call that ran and reverted. -/
def executionReverted : ℤ := 3

/-- A call's return data as bytes, if it holds at least one ABI word. -/
def abiWords (raw : String) : Option Bytes :=
  (Hex.decode (without0x raw.toList)).filter fun bytes => 32 ≤ bytes.length

/-- The last eight bytes of the word at `start`, as a number. -/
def wordU64 (bytes : Bytes) (start : ℕ) : ℕ := bigEndian ((bytes.drop (start + 24)).take 8)

/-- Text behind an offset and a length, or in place. -/
def decodeStringResult (raw : String) : String :=
  match abiWords raw with
  | none => ""
  | some bytes =>
    let offset := wordU64 bytes 0
    -- `checked_add`: an offset at the end of 64 bits has no end.
    if 32 ≤ offset ∧ offset + 32 < 2 ^ 64 ∧ offset + 32 ≤ bytes.length then
      let payload := bytes.drop (offset + 32)
      -- A length past the end of the payload reads what there is.
      String.ofList (Utf8.lossy (payload.take (wordU64 bytes offset)))
    else
      -- The length is in the first word, and the text in the second.
      String.ofList (Utf8.lossy ((bytes.drop 32).take (min offset (bytes.length - 32))))

def decodeUintResult (raw : String) (default : ℤ) : ℤ :=
  (abiWords raw).elim default fun bytes => wrapI64 (wordU64 bytes 0)

def decodeUint256Result (raw : String) : String :=
  (abiWords raw).elim "0" fun bytes => toString (bigEndian bytes)

/-! ## Metadata -/

def hasControlChars (s : List Char) : Bool := s.any isControl

/-- A name or a symbol without the padding; none where it still has control characters. -/
def sanitizeMetadataText (s : String) : String :=
  let trimmed := s.toList.rdropWhile (· = Char.ofNat 0)
  if hasControlChars trimmed then "" else String.ofList (trim trimmed)

/-- The views read for each token: `name`, `symbol`, `decimals`, `totalSupply`, `currency`. -/
def tokenViews : List String := ["0x06fdde03", "0x95d89b41", "0x313ce567", "0x18160ddd", "0xe5a6b10f"]

def tokenCalls (address : String) : List MethodCall :=
  tokenViews.map fun data =>
    ⟨"eth_call", .arr [.obj [("to", .str address), ("data", .str data)], .str "latest"]⟩

/-- The hex of one view; `0x` where there is no answer. -/
def viewHex (views : List (Except RpcError Json)) (i : ℕ) : String :=
  ((views[i]?.bind fun
    | .ok v => v.asStr.filter fun hex => !hex.isEmpty
    | .error _ => none)).getD "0x"

/-- The row of an address from its five views. -/
def tokenMeta (address : String) (views : List (Except RpcError Json)) : TokenMeta where
  address := address
  name := sanitizeMetadataText (decodeStringResult (viewHex views 0))
  symbol := sanitizeMetadataText (decodeStringResult (viewHex views 1))
  currency := sanitizeMetadataText (decodeStringResult (viewHex views 4))
  decimals := decodeUintResult (viewHex views 2) 18
  totalSupply := decodeUint256Result (viewHex views 3)

/-- Five results an address, in order. -/
def tokenMetas : List String → List (Except RpcError Json) → List TokenMeta
  | [], _ => []
  | address :: rest, results =>
    if results.isEmpty then []
    else tokenMeta address (results.take tokenViews.length) ::
      tokenMetas rest (results.drop tokenViews.length)

/-- **The metadata of some tokens**, in one request. A token that answers to no view has an empty
name and symbol. -/
def fetchTokenMetadata [Keccak] (addresses : List String) : Rpc (List TokenMeta) :=
  let addresses := addresses.map checksumAddress
  if addresses.isEmpty then pure []
  else do
    let results ← batchCall (addresses.flatMap tokenCalls)
    return tokenMetas addresses results

theorem tokenMetas_addresses (addresses : List String) (results : List (Except RpcError Json))
    (h : results.length = tokenViews.length * addresses.length) :
    (tokenMetas addresses results).map TokenMeta.address = addresses := by
  induction addresses generalizing results with
  | nil => rfl
  | cons address rest ih =>
    have hviews : tokenViews.length = 5 := rfl
    rw [List.length_cons, Nat.mul_succ] at h
    have hne : ¬results.isEmpty := by
      rw [List.isEmpty_iff_length_eq_zero]
      omega
    rw [tokenMetas, if_neg hne, List.map_cons, ih _ (by rw [List.length_drop]; omega)]
    rfl

/-- **One row per address**, in order, where the node answers. -/
theorem fetchTokenMetadata_addresses [Keccak] {addresses : List String} {node : Node}
    {log log' : List Exchange} {metas : List TokenMeta}
    (h : fetchTokenMetadata addresses node log = (.ok metas, log')) :
    metas.map TokenMeta.address = addresses.map checksumAddress := by
  unfold fetchTokenMetadata at h
  split_ifs at h with hempty
  · rw [← Except.ok.inj (Prod.mk.inj h).1, List.isEmpty_iff.mp hempty]
    rfl
  · obtain ⟨results, k, hbatch, h⟩ := Rpc.bind_ok h
    have hlength := length_batchCall hbatch
    have hcalls : ∀ l : List String,
        (l.flatMap tokenCalls).length = tokenViews.length * l.length := by
      intro l
      induction l with
      | nil => rfl
      | cons a l ih =>
        rw [List.flatMap_cons, List.length_append, ih, List.length_cons, Nat.mul_succ, tokenCalls,
          List.length_map]
        omega
    rw [hcalls] at hlength
    rw [← Except.ok.inj (Prod.mk.inj h).1]
    exact tokenMetas_addresses _ _ hlength

theorem fetchTokenMetadata_log [Keccak] (addresses : List String) (node : Node)
    (log : List Exchange) :
    ∃ exchanges, (fetchTokenMetadata addresses node log).2 = log ++ exchanges ∧
      ∀ e ∈ exchanges, ∀ c ∈ e.request.calls, c.method = "eth_call" := by
  by_cases hempty : (addresses.map checksumAddress).isEmpty
  · refine ⟨[], ?_, nofun⟩
    rw [fetchTokenMetadata, if_pos hempty, List.append_nil]
    rfl
  · let calls := (addresses.map checksumAddress).flatMap tokenCalls
    refine ⟨[batchExchange node log calls], ?_, fun e he c hc => ?_⟩
    · have hrun : (fetchTokenMetadata addresses node log).2 = (batchCall calls node log).2 := by
        rw [fetchTokenMetadata, if_neg hempty]
        exact Rpc.bind_pure_log _ _ _ _
      rw [hrun, batchCall_eq]
    · obtain rfl := List.mem_singleton.mp he
      have hcalls : (batchExchange node log calls).request.calls = calls := calls_batchRequest calls
      rw [hcalls] at hc
      obtain ⟨address, -, hc⟩ := List.mem_flatMap.mp hc
      obtain ⟨data, -, rfl⟩ := List.mem_map.mp hc
      rfl

/-! ## Balances at genesis -/

/-- `trim_start_matches("0x")`. -/
def trimStart0x : List Char → List Char
  | '0' :: 'x' :: rest => trimStart0x rest
  | s => s

/-- The call data that asks for a holder's balance. -/
def balanceOfData [Lowercase] (holder : String) : String :=
  balanceOfCall ++
    String.ofList ((Lowercase.toLowercase
      (String.ofList (trimStart0x holder.toList))).toList.leftpad 64 '0')

/-- The balance an answer gives. A token not created yet reverts, which reads as 0. -/
def genesisResult : Except RpcError Json → Except Failure String
  | .ok v => .ok (decodeUint256Result (v.asStr.getD "0x"))
  | .error e => if e.code = executionReverted then .ok "0" else .error (.rpc e)

/-- **Each holder's balance at block 0**, in one request. -/
def balancesAtGenesis [Lowercase] (holders : List (String × String)) : Rpc (List String) :=
  if holders.isEmpty then pure []
  else do
    let results ← batchCall (holders.map fun h =>
      ⟨"eth_call", .arr [.obj [("to", .str h.1), ("data", .str (balanceOfData h.2))],
        .str genesisTag]⟩)
    Rpc.lift (results.mapM genesisResult)

theorem length_mapM_except {ε α β : Type} {f : α → Except ε β} {l : List α} {r : List β}
    (h : l.mapM f = .ok r) : r.length = l.length := by
  induction l generalizing r with
  | nil =>
    rw [← Except.ok.inj h]
    rfl
  | cons a l ih =>
    rw [List.mapM_cons] at h
    cases ha : f a with
    | error e =>
      rw [ha] at h
      exact absurd h nofun
    | ok b =>
      cases hl : l.mapM f with
      | error e =>
        rw [ha] at h
        simp only [bind, Except.bind, hl] at h
        exact absurd h nofun
      | ok bs =>
        rw [ha] at h
        simp only [bind, Except.bind, hl, pure, Except.pure] at h
        rw [← Except.ok.inj h, List.length_cons, List.length_cons, ih hl]

/-- **One balance per holder**, or none at all. -/
theorem length_balancesAtGenesis [Lowercase] {holders : List (String × String)} {node : Node}
    {log log' : List Exchange} {balances : List String}
    (h : balancesAtGenesis holders node log = (.ok balances, log')) :
    balances.length = holders.length := by
  unfold balancesAtGenesis at h
  split_ifs at h with hempty
  · rw [← Except.ok.inj (Prod.mk.inj h).1, List.isEmpty_iff.mp hempty]
    rfl
  · obtain ⟨results, k, hbatch, h⟩ := Rpc.bind_ok h
    rw [length_mapM_except (Prod.mk.inj h).1, length_batchCall hbatch, List.length_map]

end ChainExplorer
