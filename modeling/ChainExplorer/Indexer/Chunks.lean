import ChainExplorer.Indexer.Gapless
import ChainExplorer.Indexer.Receipts
import ChainExplorer.Lib.Collect
import ChainExplorer.Lib.System
import ChainExplorer.Lib.Windows

/-!
# A range fetched in chunks

The chunks of a range are fetched side by side and come back in any order (`indexer.rs`).

* `blockChunks_contiguous`: the chunks follow one another.
* `chunkBundles`: the bundles of the blocks that were fetched of a chunk.
* **`fetchRange_tiles`**: the chunks tile the range, and what comes back is the bundles of all of
  them, in the order of their numbers.
-/

namespace ChainExplorer

open Collect Windows

/-! ## The chunks -/

/-- **Chunks tile a range**: none is empty or too wide, and in ascending order they hold every number
of it, once, and nothing else. -/
structure Tiles (start stop width : ℕ) (chunks : List (ℕ × ℕ)) : Prop where
  nonempty : ∀ c ∈ chunks, c.1 ≤ c.2
  narrow : ∀ c ∈ chunks, (numbers c).length ≤ width
  ascending : chunks.Pairwise fun c d => c.2 < d.1
  covers : chunks.flatMap numbers = List.range' start (stop + 1 - start)

/-- The chunk that starts at a number. -/
def chunkAt (stop batch a : ℕ) : ℕ × ℕ := (a, min (saturatingAddU64 a (batch - 1)) stop)

/-- The start of the chunk after it, if there is one. -/
def nextChunk (stop batch a : ℕ) : Option ℕ := (checkedAdd a batch).filter fun n => n ≤ stop

theorem blockChunks_eq (start stop batch : ℕ) : blockChunks start stop batch =
    (successors (nextChunk stop (max batch 1)) (stop + 1 - start)
      (if start ≤ stop then some start else none)).map (chunkAt stop (max batch 1)) := rfl

theorem chunkAt_next {stop batch a : ℕ} (hbatch : 1 ≤ batch) (hstop : stop ≤ maxU64) (ha : a ≤ stop) :
    a ≤ (chunkAt stop batch a).2 ∧ (chunkAt stop batch a).2 < a + batch ∧
      (∀ b ∈ nextChunk stop batch a, b = (chunkAt stop batch a).2 + 1 ∧ b ≤ stop) ∧
      (nextChunk stop batch a = none → (chunkAt stop batch a).2 = stop) := by
  unfold chunkAt nextChunk checkedAdd saturatingAddU64
  by_cases hadd : a + batch ≤ maxU64
  · rw [if_pos hadd, Option.filter_some]
    by_cases hnext : a + batch ≤ stop
    · rw [if_pos (decide_eq_true hnext)]
      refine ⟨by omega, by omega, ?_, nofun⟩
      rintro b hb
      obtain rfl := Option.some.inj hb
      omega
    · rw [if_neg (by simpa using hnext)]
      exact ⟨by omega, by omega, nofun, fun _ => by omega⟩
  · rw [if_neg hadd]
    exact ⟨by omega, by omega, nofun, fun _ => by omega⟩

theorem successors_contiguous {stop batch : ℕ} (hbatch : 1 ≤ batch) (hstop : stop ≤ maxU64)
    {fuel a : ℕ} (ha : a ≤ stop) (hfuel : stop < a + fuel) :
    Contiguous a ((successors (nextChunk stop batch) fuel (some a)).map (chunkAt stop batch)) ∧
      nextStart a ((successors (nextChunk stop batch) fuel (some a)).map (chunkAt stop batch)) =
        stop + 1 ∧
      ∀ c ∈ (successors (nextChunk stop batch) fuel (some a)).map (chunkAt stop batch),
        c.2 < c.1 + batch := by
  induction fuel generalizing a with
  | zero => exact absurd hfuel (by omega)
  | succ fuel ih =>
    obtain ⟨hle, hwidth, hsome, hnone⟩ := chunkAt_next hbatch hstop ha
    rw [successors, List.map_cons, nextStart_cons]
    cases hnext : nextChunk stop batch a with
    | none =>
      have hnil : successors (nextChunk stop batch) fuel none = [] := by
        cases fuel <;> rfl
      rw [hnil, List.map_nil]
      refine ⟨⟨rfl, hle, trivial⟩, congrArg (· + 1) (hnone hnext), ?_⟩
      intro c hc
      obtain rfl := List.mem_singleton.mp hc
      exact hwidth
    | some b =>
      obtain ⟨hb, hbstop⟩ := hsome b hnext
      obtain ⟨hcontiguous, hend, hnarrow⟩ := ih hbstop (by omega)
      rw [← hb]
      exact ⟨⟨rfl, hle, hb ▸ hcontiguous⟩, hend, List.forall_mem_cons.mpr ⟨hwidth, hnarrow⟩⟩

theorem blockChunks_tiles (start batch : ℕ) {stop : ℕ} (hstop : stop ≤ maxU64) :
    Tiles start stop (max batch 1) (blockChunks start stop batch) := by
  rw [blockChunks_eq]
  by_cases hle : start ≤ stop
  · have hfuel : stop < start + (stop + 1 - start) := by omega
    obtain ⟨hcontiguous, hend, hnarrow⟩ :=
      successors_contiguous (le_max_right batch 1) hstop hle hfuel
    rw [if_pos hle]
    refine ⟨fun c hc => (hcontiguous.of_mem hc).2, fun c hc => ?_, hcontiguous.ascending, ?_⟩
    · have hc' := hnarrow c hc
      rw [numbers, List.length_range']
      omega
    · rw [hcontiguous.flatMap_numbers, hend]
  · have hnil : stop + 1 - start = 0 := by omega
    rw [if_neg hle, hnil]
    exact ⟨fun _ hc => absurd hc List.not_mem_nil, fun _ hc => absurd hc List.not_mem_nil, .nil,
      by rw [hnil]; rfl⟩

/-! ## The blocks of a chunk -/

/-- **A node that answers a number with its block** or with nothing: what is taken for the block of a
number has that number. -/
def Node.AnswersAsked (node : Node) : Prop :=
  ∀ e, node.Made e → ∀ results, e.results = .ok results → ∀ n r, (blockCall n, r) ∈
    e.request.calls.zip results → ∀ v, present r = some v → (parseBlock v).number = wrapI64 n

theorem foundBlocks_numbers (nums : List ℕ) (results : List (Except RpcError Json)) :
    ((foundBlocks nums results).map RawBlock.number).Sublist nums := by
  induction nums generalizing results with
  | nil => exact .slnil
  | cons n nums ih =>
    cases results with
    | nil => exact List.nil_sublist _
    | cons r results =>
      have hrest := ih results
      rw [foundBlocks, List.zip_cons_cons, List.filterMap_cons]
      cases hr : present r with
      | none => exact hrest.cons n
      | some v => exact hrest.cons_cons n

theorem foundBlocks_number {node : Node} (hnode : node.AnswersAsked) {e : Exchange} (hmade : node.Made e)
    {nums : List ℕ} (hcalls : e.request.calls = nums.map blockCall)
    {results : List (Except RpcError Json)} (hresults : e.results = .ok results) {b : RawBlock}
    (hb : b ∈ foundBlocks nums results) : (parseBlock b.block).number = wrapI64 b.number := by
  obtain ⟨⟨n, r⟩, hzip, hfound⟩ := List.mem_filterMap.mp hb
  obtain ⟨v, hv, rfl⟩ := Option.map_eq_some_iff.mp hfound
  refine hnode e hmade results hresults n r ?_ v hv
  rw [hcalls, List.zip_map_left]
  exact List.mem_map.mpr ⟨(n, r), hzip, rfl⟩

theorem Fetched.same {exchanges : List Exchange} {b b' : RawBlock} (h : Fetched exchanges b b') :
    b'.number = b.number ∧ b'.block = b.block := by
  cases h <;> exact ⟨rfl, rfl⟩

theorem fetchRawBlocks_numbers {node : Node} (hnode : node.AnswersAsked) {start stop : ℕ}
    {log log' : List Exchange} {raws : List RawBlock}
    (h : fetchRawBlocks start stop node log = (.ok raws, log')) :
    (raws.map RawBlock.number).Sublist (numbers (start, stop)) ∧
      ∀ b ∈ raws, (parseBlock b.block).number = wrapI64 b.number := by
  induction hn : stop - start using Nat.strong_induction_on
    generalizing start stop log log' raws with
  | _ n ih =>
    rcases fetchRawBlocks_ok h with ⟨-, rfl, -⟩ | ⟨-, results, hresults, hrest⟩ |
      ⟨hlt, e, lower, upper, log1, -, hlower, hupper, rfl⟩
    · exact ⟨List.nil_sublist _, nofun⟩
    · let found := foundBlocks (numbers (start, stop)) results
      have hnone : ∀ b ∈ found, b.receipts = none := by
        intro b hb
        obtain ⟨p, -, hp⟩ := List.mem_filterMap.mp hb
        obtain ⟨v, -, rfl⟩ := Option.map_eq_some_iff.mp hp
        rfl
      obtain ⟨fetched, exchanges, hrun, hfetched, -⟩ := fetchReceipts_run hnone node
        (log ++ [blocksExchange node log start stop])
      obtain rfl : raws = withoutMissingReceipts fetched :=
        Except.ok.inj (Prod.mk.inj (hrest.symm.trans hrun)).1
      have hsame := hfetched.imp fun b b' hb => hb.same
      have hnumbers : found.map RawBlock.number = fetched.map RawBlock.number :=
        hsame.map_eq fun hb => hb.1.symm
      refine ⟨?_, fun b hb => ?_⟩
      · have hkept : (withoutMissingReceipts fetched).Sublist fetched := List.filter_sublist
        have hall := foundBlocks_numbers (numbers (start, stop)) results
        rw [hnumbers] at hall
        exact (hkept.map _).trans hall
      · obtain ⟨b0, hb0, hnumber, hblock⟩ := hsame.exists_left (List.mem_filter.mp hb).1
        rw [hnumber, hblock]
        exact foundBlocks_number hnode (made_batchExchange _ _ _) (calls_batchRequest _) hresults hb0
    · obtain ⟨hl, hlb⟩ := ih _ (by omega) hlower rfl
      obtain ⟨hu, hub⟩ := ih _ (by omega) hupper rfl
      refine ⟨?_, fun b hb => (List.mem_append.mp hb).elim (hlb b) (hub b)⟩
      have hmid : start + (stop - start) / 2 ≤ stop := by omega
      rw [List.map_append, ← numbers_append (by omega) hmid]
      exact hl.append hu

/-! ## A fetch that comes to its end -/

section Run

/-- The blocks that were fetched of a chunk; none of one that fails. -/
def chunkRaws (node : Node) (chunk : ℕ × ℕ) : List RawBlock :=
  match (fetchRawBlocks chunk.1 chunk.2 node []).1 with
  | .ok raws => raws
  | .error _ => []

variable [Keccak] [Codec]

/-- **Their bundles**, without the metadata of the tokens; none where assembling them panics. -/
def chunkBundles (nodes : ℕ × ℕ → Node) (chunk : ℕ × ℕ) : List BlockBundle :=
  (assemble (chunkRaws (nodes chunk) chunk)).getD []

/-- What a task is to bring, but for the metadata. -/
def FetchTask.brings (nodes : ℕ × ℕ → Node) : FetchTask → List BlockBundle
  | .asked chunk => chunkBundles nodes chunk
  | .assembled bundles _ | .done bundles => bundles.map BlockBundle.bare

/-- **What a fetch is to bring.** -/
def RangeFetch.brings (nodes : ℕ × ℕ → Node) (f : RangeFetch) : List BlockBundle :=
  f.out.map BlockBundle.bare ++ f.tasks.flatMap (FetchTask.brings nodes) ++
    f.chunks.flatMap (chunkBundles nodes)

/-- **A range being fetched**, from its first step on. Others may add to the known tokens before any
step. -/
def rangeFetch (cfg : IndexerConfig) (start stop : ℕ) :
    System RangeFetch (Finset String × FetchStep) where
  init f := f = .first start stop
  exec f a := (f.exec cfg a.1 a.2).map Prod.fst

omit [Keccak] [Codec] in
/-- A chunk is asked of the node that is its own: each may be answered in another way. -/
def AskedOf (nodes : ℕ × ℕ → Node) (f : RangeFetch) : Finset String × FetchStep → Prop
  | (_, .rawBlocks i node) => ∀ chunk, f.tasks[i]? = some (.asked chunk) → node = nodes chunk
  | _ => True

theorem map_bare_assemble {raws : List RawBlock} {bundles : List BlockBundle}
    (h : assemble raws = some bundles) : bundles.map BlockBundle.bare = bundles := by
  refine (List.map_congr_left fun bundle hbundle => ?_).trans (List.map_id bundles)
  obtain ⟨b, -, hb⟩ := (Fallible.mem_of_mapM h bundle).mp hbundle
  rw [BlockBundle.bare, ← (block_of_assembleBundle hb).2]
  rfl

theorem RangeFetch.rawBlocks_cases {cfg : IndexerConfig} {known known' : Finset String}
    {f f' : RangeFetch} {i : ℕ} {node : Node}
    (h : f.exec cfg known (.rawBlocks i node) = some (f', known')) :
    ∃ chunk task, f.tasks[i]? = some (.asked chunk) ∧ f' = { f with tasks := f.tasks.set i task } ∧
      ∀ nodes, FetchTask.brings nodes task = (assemble (chunkRaws node chunk)).getD [] := by
  simp only [exec] at h
  split at h
  · next chunk htask =>
    unfold chunkRaws
    split at h
    · next raws hraws =>
      split at h
      · next bundles hbundles =>
        obtain ⟨rfl, -⟩ := Prod.mk.inj (Option.some.inj h)
        refine ⟨chunk, _, htask, rfl, fun nodes => ?_⟩
        rw [hraws]
        simp only [hbundles, Option.getD_some]
        split_ifs <;> exact map_bare_assemble hbundles
      · next hbundles =>
        obtain ⟨rfl, -⟩ := Prod.mk.inj (Option.some.inj h)
        refine ⟨chunk, .done [], htask, rfl, fun nodes => ?_⟩
        rw [hraws]
        simp only [hbundles, Option.getD_none]
        rfl
    · next e hraws =>
      obtain ⟨rfl, -⟩ := Prod.mk.inj (Option.some.inj h)
      refine ⟨chunk, .done [], htask, rfl, fun nodes => ?_⟩
      rw [hraws]
      rfl
  · cases h

theorem RangeFetch.brings_of_exec {cfg : IndexerConfig} {nodes : ℕ × ℕ → Node}
    {f f' : RangeFetch} {a : Finset String × FetchStep} (hasked : AskedOf nodes f a)
    (h : (rangeFetch cfg 0 0).exec f a = some f') : (f'.brings nodes).Perm (f.brings nodes) := by
  obtain ⟨known, step⟩ := a
  obtain ⟨⟨f1, known'⟩, hexec, rfl⟩ := Option.map_eq_some_iff.mp h
  cases step with
  | spawn =>
    cases RangeFetch.step_of_exec hexec with
    | spawn hchunks =>
      simp [brings, hchunks, FetchTask.brings]
  | rawBlocks i node =>
    obtain ⟨chunk, task, htask, rfl, hbrings⟩ := rawBlocks_cases hexec
    have hsame : FetchTask.brings nodes task = FetchTask.brings nodes (.asked chunk) := by
      rw [hbrings, hasked chunk htask]
      rfl
    simp only [brings, flatMap_set _ htask hsame, List.Perm.refl]
  | describe i ch node =>
    cases RangeFetch.step_of_exec hexec with
    | @described _ _ _ bundles bundles' wanted new htask hrun =>
      have hsame : FetchTask.brings nodes (.done bundles') =
          FetchTask.brings nodes (.assembled bundles wanted) := describeTokens_bare hrun
      simp only [brings, flatMap_set _ htask hsame, List.Perm.refl]
  | join i =>
    cases RangeFetch.step_of_exec hexec with
    | joined htask =>
      have hperm := perm_flatMap_eraseIdx (FetchTask.brings nodes) htask
      simp only [brings, List.map_append, List.append_assoc]
      refine .append_left _ ?_
      rw [← List.append_assoc]
      exact hperm.append_right _

theorem perm_of_isOver {cfg : IndexerConfig} {nodes : ℕ × ℕ → Node} {start stop : ℕ} {f : RangeFetch}
    (h : (rangeFetch cfg start stop).ReachableUnder (AskedOf nodes) f) (hover : f.isOver = true) :
    (f.out.map BlockBundle.bare).Perm
      ((blockChunks start stop rpcBlockBatch).flatMap (chunkBundles nodes)) := by
  have hbrings : (f.brings nodes).Perm
      ((blockChunks start stop rpcBlockBatch).flatMap (chunkBundles nodes)) := by
    refine h.invariant (I := fun f => (f.brings nodes).Perm
      ((blockChunks start stop rpcBlockBatch).flatMap (chunkBundles nodes))) ?_ ?_
    · rintro f rfl
      exact .refl _
    · intro f a f' hf hasked hexec
      exact (RangeFetch.brings_of_exec hasked hexec).trans hf
  rw [RangeFetch.isOver, Bool.and_eq_true, List.isEmpty_iff, List.isEmpty_iff] at hover
  simpa only [RangeFetch.brings, hover.1, hover.2, List.flatMap_nil, List.append_nil] using hbrings

/-- The number of a bundle's block. -/
def BlockBundle.number (b : BlockBundle) : ℤ := b.block.number

theorem numbers_assemble {raws : List RawBlock} {bundles : List BlockBundle}
    (h : assemble raws = some bundles) :
    bundles.map BlockBundle.number = raws.map fun b => (parseBlock b.block).number :=
  (List.Forall₂.map_eq (Fallible.forall₂_of_mapM h) fun hb =>
    (congrArg Block.number (block_of_assembleBundle hb).1).symm).symm

theorem chunkBundles_numbers {nodes : ℕ × ℕ → Node} (hnodes : ∀ c, (nodes c).AnswersAsked)
    {start stop : ℕ} (hstop : stop ≤ maxU64) :
    (((blockChunks start stop rpcBlockBatch).flatMap (chunkBundles nodes)).map
      BlockBundle.number).Sublist ((numbers (start, stop)).map fun n : ℕ => wrapI64 n) := by
  have hchunk : ∀ c : ℕ × ℕ, ((chunkBundles nodes c).map BlockBundle.number).Sublist
      ((numbers c).map fun n : ℕ => wrapI64 n) := by
    intro c
    unfold chunkBundles chunkRaws
    cases hrun : fetchRawBlocks c.1 c.2 (nodes c) [] with
    | mk result log =>
      cases result with
      | error e => exact List.nil_sublist _
      | ok raws =>
        obtain ⟨hnumbers, hblocks⟩ := fetchRawBlocks_numbers (hnodes c) hrun
        cases hbundles : assemble raws with
        | none =>
          exact List.nil_sublist _
        | some bundles =>
          rw [Option.getD_some, numbers_assemble hbundles]
          have hmap : (raws.map fun b => (parseBlock b.block).number) =
              (raws.map RawBlock.number).map fun n : ℕ => wrapI64 n := by
            rw [List.map_map]
            refine List.map_congr_left fun b hb => ?_
            rw [Function.comp_apply, ← hblocks b hb]
          rw [hmap]
          exact hnumbers.map _
  have hall := List.Sublist.flatMap_right (blockChunks start stop rpcBlockBatch) fun c _ => hchunk c
  rwa [← List.map_flatMap, ← List.map_flatMap,
    (blockChunks_tiles start rpcBlockBatch hstop).covers] at hall

end Run

/-- **Chunks tile the range, and their blocks come back in order.** The chunks of every range up to
the last number are neither empty nor too wide and hold it once, in ascending order. And a fetch that
comes to its end, its chunks done in whatever order, gives the bundles of the blocks fetched of all of
them, but for the metadata of the tokens, in the order of their numbers, which all differ; below
`2 ^ 63` that is the order of the heights. -/
theorem fetchRange_tiles [Keccak] [Codec] :
    (∀ start stop batch, stop ≤ maxU64 →
      Tiles start stop (max batch 1) (blockChunks start stop batch)) ∧
      ∀ cfg start stop nodes f, stop ≤ maxU64 → (∀ c, (nodes c).AnswersAsked) →
        (rangeFetch cfg start stop).ReachableUnder (AskedOf nodes) f → f.isOver = true →
          let fetched := (blockChunks start stop rpcBlockBatch).flatMap (chunkBundles nodes)
          f.bundles.map BlockBundle.bare = sortBy BlockBundle.number fetched ∧
            (f.bundles.map BlockBundle.number).Pairwise (· < ·) ∧
            (stop < 2 ^ 63 → f.bundles.map BlockBundle.bare = fetched) := by
  refine ⟨fun start stop batch hstop => blockChunks_tiles start batch hstop, ?_⟩
  intro cfg start stop nodes f hstop hnodes hreach hover fetched
  have hperm : (f.out.map BlockBundle.bare).Perm fetched := perm_of_isOver hreach hover
  have hnumbers : (fetched.map BlockBundle.number).Sublist
      ((numbers (start, stop)).map fun n : ℕ => wrapI64 n) := chunkBundles_numbers hnodes hstop
  have hbound : ∀ n ∈ numbers (start, stop), n ≤ stop := by
    intro n hn
    have hmem := List.mem_range'_1.mp hn
    omega
  have hdistinct : (fetched.map BlockBundle.number).Nodup := by
    refine hnumbers.nodup (List.Nodup.map_on ?_ List.nodup_range')
    intro m hm n hn heq
    have hlast : stop < 2 ^ 64 := Nat.lt_of_le_of_lt hstop (by decide)
    exact wrapI64_injOn ((hbound m hm).trans_lt hlast) ((hbound n hn).trans_lt hlast) heq
  have hbare : f.bundles.map BlockBundle.bare = sortBy BlockBundle.number fetched := by
    rw [← sortBy_eq_of_perm BlockBundle.number hperm
      (((hperm.map BlockBundle.number).nodup_iff).mpr hdistinct)]
    exact map_sortBy BlockBundle.number BlockBundle.bare (fun _ => rfl) f.out
  have hkeys : f.bundles.map BlockBundle.number =
      (sortBy BlockBundle.number fetched).map BlockBundle.number := by
    rw [← hbare, List.map_map]
    rfl
  refine ⟨hbare, ?_, fun hsmall => ?_⟩
  · rw [hkeys]
    exact pairwise_lt_sortBy BlockBundle.number hdistinct
  · rw [hbare]
    -- Below `2 ^ 63` a height is its number.
    have hheights : ((numbers (start, stop)).map fun n : ℕ => wrapI64 n) =
        (numbers (start, stop)).map fun n : ℕ => (n : ℤ) :=
      List.map_congr_left fun n hn => wrapI64_of_lt ((hbound n hn).trans_lt hsmall)
    have hascending : ((numbers (start, stop)).map fun n : ℕ => (n : ℤ)).Pairwise (· ≤ ·) := by
      refine List.pairwise_map.mpr ((List.pairwise_lt_range' ..).imp fun hlt => ?_)
      exact Int.ofNat_le.mpr (Nat.le_of_lt hlt)
    rw [← hheights] at hascending
    exact sortBy_eq_self BlockBundle.number (List.pairwise_map.mp (hascending.sublist hnumbers))

section Sample

attribute [local instance] Keccak.sponge Codec.bare

/-- The blocks at heights 1, 17 and 18, and no others. -/
def sparseAnswer (c : MethodCall) : Json :=
  match c with
  | ⟨"eth_getBlockByNumber", .arr (.str number :: _)⟩ =>
    if number ∈ ["0x1", "0x11", "0x12"] then numberedBlock (.str number) else .null
  | _ => .null

theorem sparseAnswer_answersAsked : (answeringNode sparseAnswer).AnswersAsked := by
  intro e hmade results hresults n r hzip v hv
  obtain ⟨rfl, hnull⟩ := present_eq_some hv
  obtain rfl := eq_answer_of_made hmade hresults hzip
  have hanswer : sparseAnswer (blockCall n) = if "0x" ++ hexDigits n ∈ ["0x1", "0x11", "0x12"] then
      numberedBlock (quantity n) else .null := rfl
  rw [hanswer] at hnull ⊢
  split_ifs at hnull ⊢ with hmem
  · have hheight : n = 1 ∨ n = 17 ∨ n = 18 := by
      simp only [List.mem_cons, List.not_mem_nil, or_false] at hmem
      exact hmem.imp (fun h => quantity_injective (congrArg Json.str h)) (.imp
        (fun h => quantity_injective (congrArg Json.str h))
        fun h => quantity_injective (congrArg Json.str h))
    rcases hheight with rfl | rfl | rfl <;> decide
  · exact absurd hnull (by decide)

theorem fetchRawBlocks_sparse_low : (fetchRawBlocks 1 16 (answeringNode sparseAnswer) []).1 =
    .ok [⟨1, bareBlock 1, none⟩] := by
  rw [fetchRawBlocks]
  rfl

theorem fetchRawBlocks_sparse_high : (fetchRawBlocks 17 18 (answeringNode sparseAnswer) []).1 =
    .ok [⟨17, bareBlock 17, none⟩, ⟨18, bareBlock 18, none⟩] := by
  rw [fetchRawBlocks]
  rfl

/-- Two chunks at once. -/
def sideBySide : IndexerConfig := ⟨32, 32⟩

/-- A state of the fetch of 18 blocks. -/
abbrev SparseRun : RangeFetch → Prop :=
  (rangeFetch sideBySide 1 18).ReachableUnder (AskedOf fun _ => answeringNode sparseAnswer)

/-- Two chunks, of which **the second comes back first**. -/
theorem fetchRange_tiles_one :
    ∃ f : RangeFetch, f.out = [bareBundle 17, bareBundle 18, bareBundle 1] ∧
      Tiles 1 18 16 [(1, 16), (17, 18)] ∧
      f.bundles.map BlockBundle.bare = ([(1, 16), (17, 18)] : List (ℕ × ℕ)).flatMap
        (chunkBundles fun _ => answeringNode sparseAnswer) := by
  have hspawned : SparseRun ⟨[], [.asked (1, 16), .asked (17, 18)], []⟩ :=
    .step (a := (∅, .spawn)) (.step (a := (∅, .spawn)) (.start rfl) trivial rfl) trivial rfl
  have hsecond : SparseRun
      ⟨[], [.asked (1, 16), .done [bareBundle 17, bareBundle 18]], []⟩ := by
    refine .step (a := (∅, .rawBlocks 1 (answeringNode sparseAnswer))) hspawned (fun _ _ => rfl) ?_
    simp only [rangeFetch, RangeFetch.exec, List.getElem?_cons_succ, List.getElem?_cons_zero,
      fetchRawBlocks_sparse_high]
    rfl
  have hjoined : SparseRun ⟨[], [.asked (1, 16)], [bareBundle 17, bareBundle 18]⟩ :=
    .step (a := (∅, .join 1)) hsecond trivial rfl
  have hfirst : SparseRun ⟨[], [.done [bareBundle 1]], [bareBundle 17, bareBundle 18]⟩ := by
    refine .step (a := (∅, .rawBlocks 0 (answeringNode sparseAnswer))) hjoined (fun _ _ => rfl) ?_
    simp only [rangeFetch, RangeFetch.exec, List.getElem?_cons_zero, fetchRawBlocks_sparse_low]
    rfl
  have hover : SparseRun ⟨[], [], [bareBundle 17, bareBundle 18, bareBundle 1]⟩ :=
    .step (a := (∅, .join 0)) hfirst trivial rfl
  obtain ⟨htiles, hfetch⟩ := fetchRange_tiles
  exact ⟨_, rfl, htiles 1 18 16 (by decide), (hfetch _ 1 18 _ _ (by decide)
    (fun _ => sparseAnswer_answersAsked) hover rfl).2.2 (by decide)⟩

end Sample

end ChainExplorer
