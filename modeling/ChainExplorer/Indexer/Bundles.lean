import ChainExplorer.Db.Schema
import ChainExplorer.Indexer.Fetch
import ChainExplorer.Tokens

/-!
# Bundles of a range

Raw blocks assembled, and the metadata of the tokens they name attached (`indexer.rs`). The tokens
already described are shared by every range that is being fetched, so a range reads them first and
adds to them later.

* `tokensToFetch`, `describeTokens`: what is asked, and what the answer becomes.
* `fetchBlockBundles`: the bundles of a range.
* **`length_fetchRawBlocks_le`**: no more blocks than were asked for.
-/

namespace ChainExplorer

/-! ## Tokens of a bundle -/

def bundleTokenAddrs (bundle : BlockBundle) : List String :=
  bundle.transfers.map TransferEvent.tokenAddr ++ bundle.txs.filterMap Transaction.feeToken

/-- Tokens with no metadata row yet, and tokens a mint or burn here moved the supply of. -/
def tokensToFetch (bundles : List BlockBundle) (known : Finset String) : List String :=
  (bundles.flatMap fun bundle =>
    (bundleTokenAddrs bundle).filter (fun addr => decide (addr ∉ known)) ++
      (bundle.transfers.filter fun t =>
        t.fromAddr = zeroAddress ∨ t.toAddr = zeroAddress).map TransferEvent.tokenAddr).dedup

/-- Metadata by address, the last of several. -/
def byAddress (metas : List TokenMeta) : Keyed String TokenMeta :=
  metas.foldl (fun t m => t.insert m.address m) ∅

/-- A bundle with the metadata of its tokens, each once. -/
def describe (ch : Choices) (metas : Keyed String TokenMeta) (bundle : BlockBundle) : BlockBundle :=
  { bundle with tokens := (ch.order (bundleTokenAddrs bundle).dedup).filterMap metas.lookup }

section Keccak

variable [Keccak]

/-- Describe the tokens wanted of some bundles: the bundles, and the tokens that are known now. An
error leaves the bundles as they are and nothing remembered. -/
def describeTokens (ch : ℕ → Choices) (wanted : List String) (bundles : List BlockBundle) :
    Rpc (List BlockBundle × Finset String) := do
  match ← (fetchTokenMetadata ((ch 0).order wanted)).attempt with
  | .ok metas =>
    let metas := byAddress metas
    return (bundles.mapIdx fun i bundle => describe (ch (i + 1)) metas bundle, metas.keys.toFinset)
  | .error _ => return (bundles, ∅)

/-- Attach to some bundles the metadata of the tokens not known yet. -/
def attachTokenMetadata (ch : ℕ → Choices) (known : Finset String) (bundles : List BlockBundle) :
    Rpc (List BlockBundle × Finset String) :=
  let wanted := tokensToFetch bundles known
  if wanted.isEmpty then pure (bundles, ∅) else describeTokens ch wanted bundles

/-- Raw blocks as bundles, where no log of theirs panics. -/
def assemble [Codec] (raws : List RawBlock) : Option (List BlockBundle) :=
  raws.mapM fun b => assembleBundle b.block b.receipts

/-- **The bundles of a range**, and the tokens known by it; those known before are not described
again. `none` where assembling them panics. -/
def fetchBlockBundles [Codec] (ch : ℕ → Choices) (known : Finset String) (start stop : ℕ) :
    Rpc (Option (List BlockBundle × Finset String)) := do
  let raws ← fetchRawBlocks start stop
  match assemble raws with
  | none => return none
  | some bundles => return some (← attachTokenMetadata ch known bundles)

theorem length_assemble [Codec] {raws : List RawBlock} {bundles : List BlockBundle}
    (h : assemble raws = some bundles) : bundles.length = raws.length :=
  (Fallible.forall₂_of_mapM h).length_eq.symm

/-! ## What the metadata leaves alone -/

/-- **Metadata is all that is attached**, and an error attaches none: `metas` are what came back. -/
theorem describeTokens_run (ch : ℕ → Choices) (wanted : List String) (bundles : List BlockBundle)
    (node : Node) (log : List Exchange) :
    (∃ metas log', fetchTokenMetadata ((ch 0).order wanted) node log = (.ok metas, log') ∧
      describeTokens ch wanted bundles node log =
        (.ok (bundles.mapIdx fun i bundle => describe (ch (i + 1)) (byAddress metas) bundle,
          (byAddress metas).keys.toFinset), log')) ∨
    ∃ e log', fetchTokenMetadata ((ch 0).order wanted) node log = (.error e, log') ∧
      describeTokens ch wanted bundles node log = (.ok (bundles, ∅), log') := by
  unfold describeTokens
  rw [Rpc.bind_run (Rpc.attempt_run _ _ _)]
  cases hrun : fetchTokenMetadata ((ch 0).order wanted) node log with
  | mk result log' =>
    cases result with
    | ok metas => exact .inl ⟨metas, log', rfl, rfl⟩
    | error e => exact .inr ⟨e, log', rfl, rfl⟩

/-- A bundle without its metadata. -/
def BlockBundle.bare (bundle : BlockBundle) : BlockBundle := { bundle with tokens := [] }

theorem describeTokens_bare {ch : ℕ → Choices} {wanted : List String}
    {bundles bundles' : List BlockBundle} {new : Finset String} {node : Node} {log : List Exchange}
    (h : (describeTokens ch wanted bundles node log).1 = .ok (bundles', new)) :
    bundles'.map BlockBundle.bare = bundles.map BlockBundle.bare := by
  rcases describeTokens_run ch wanted bundles node log with
    ⟨metas, log', -, hrun⟩ | ⟨e, log', -, hrun⟩
  · rw [hrun] at h
    rw [← (Prod.mk.inj (Except.ok.inj h)).1]
    refine List.ext_getElem (by simp) fun i _ _ => ?_
    simp [describe, BlockBundle.bare]
  · rw [hrun] at h
    rw [← (Prod.mk.inj (Except.ok.inj h)).1]

theorem describeTokens_length {ch : ℕ → Choices} {wanted : List String}
    {bundles bundles' : List BlockBundle} {new : Finset String} {node : Node} {log : List Exchange}
    (h : (describeTokens ch wanted bundles node log).1 = .ok (bundles', new)) :
    bundles'.length = bundles.length := by
  have hlength := congrArg List.length (describeTokens_bare h)
  rwa [List.length_map, List.length_map] at hlength

end Keccak

/-! ## How many -/

theorem length_foundBlocks_le (nums : List ℕ) (results : List (Except RpcError Json)) :
    (foundBlocks nums results).length ≤ nums.length := by
  have hzip : (nums.zip results).length ≤ nums.length := by
    rw [List.length_zip]
    exact Nat.min_le_left _ _
  exact (List.length_filterMap_le _ _).trans hzip

theorem length_takeReceipts (blocks : List RawBlock) (results : List (Except RpcError Json)) :
    (takeReceipts blocks results).length = blocks.length := by
  induction blocks generalizing results with
  | nil => rfl
  | cons b bs ih =>
    unfold takeReceipts
    split_ifs
    · cases results with
      | nil => exact congrArg Nat.succ (ih [])
      | cons r results => exact congrArg Nat.succ (ih results)
    · exact congrArg Nat.succ (ih results)

theorem length_fillReceipts {blocks blocks' : List RawBlock} {node : Node}
    {log log' : List Exchange} (h : fillReceipts blocks node log = (.ok blocks', log')) :
    blocks'.length = blocks.length := by
  induction blocks generalizing blocks' log log' with
  | nil =>
    rw [← Except.ok.inj (Prod.mk.inj h).1]
  | cons b bs ih =>
    unfold fillReceipts at h
    split_ifs at h
    · obtain ⟨results, log1, -, h⟩ := Rpc.bind_ok h
      obtain ⟨rest, log2, hrest, h⟩ := Rpc.bind_ok h
      rw [← Except.ok.inj (Prod.mk.inj h).1, List.length_cons, List.length_cons, ih hrest]
    · obtain ⟨rest, log2, hrest, h⟩ := Rpc.bind_ok h
      rw [← Except.ok.inj (Prod.mk.inj h).1, List.length_cons, List.length_cons, ih hrest]

theorem length_fetchReceipts_le {blocks blocks' : List RawBlock} {node : Node}
    {log log' : List Exchange} (h : fetchReceipts blocks node log = (.ok blocks', log')) :
    blocks'.length ≤ blocks.length := by
  unfold fetchReceipts at h
  simp only at h
  split_ifs at h
  · rw [← Except.ok.inj (Prod.mk.inj h).1]
  · obtain ⟨results, log1, -, h⟩ := Rpc.bind_ok h
    obtain ⟨filled, log2, hfilled, h⟩ := Rpc.bind_ok h
    have htaken : filled.length = blocks.length := by
      rw [length_fillReceipts hfilled]
      cases results with
      | ok results => exact length_takeReceipts blocks results
      | error e => rfl
    rw [← Except.ok.inj (Prod.mk.inj h).1, ← htaken]
    exact List.length_filter_le _ _

/-- **No more blocks than were asked for.** -/
theorem length_fetchRawBlocks_le {start stop : ℕ} {node : Node} {log log' : List Exchange}
    {raws : List RawBlock} (h : fetchRawBlocks start stop node log = (.ok raws, log')) :
    raws.length ≤ stop + 1 - start := by
  induction hn : stop - start using Nat.strong_induction_on
    generalizing start stop log log' raws with
  | _ n ih =>
    rcases fetchRawBlocks_ok h with ⟨-, rfl, -⟩ | ⟨-, results, -, hrest⟩ |
      ⟨hlt, e, lower, upper, log1, -, hlower, hupper, rfl⟩
    · exact Nat.zero_le _
    · have hfound := length_foundBlocks_le (List.range' start (stop + 1 - start)) results
      rw [List.length_range'] at hfound
      exact (length_fetchReceipts_le hrest).trans hfound
    · have hl := ih _ (by omega) hlower rfl
      have hu := ih _ (by omega) hupper rfl
      rw [List.length_append]
      omega

end ChainExplorer
