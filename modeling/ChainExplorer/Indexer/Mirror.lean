import ChainExplorer.Db.Converge
import ChainExplorer.Indexer.InFlight
import ChainExplorer.Indexer.LogIndex
import ChainExplorer.Indexer.Refused
import ChainExplorer.Indexer.Transfers

/-!
# The database mirrors the chain

A node may fail, refuse, leave blocks out and answer with less than all receipts, but what it says of
a block is true. Whatever the loops, the writer and the crashes do, the database then holds exactly
the blocks of some heights of the chain, whole, and counts them.

* `ServedChain.Says`, `Exchange.TrueOf`: what is true of a chain, and an exchange that says no more.
* `ServedChain.Assembles`: the chain as its blocks and receipts are assembled.
* **`indexer_mirrors`**: in every state reached the database mirrors the heights it has.
* **`indexer_complete`**: a process at rest has every height up to the one it rests at.
-/

namespace ChainExplorer

/-! ## What is true of a chain -/

/-- **What is true of a chain**: its blocks, and their receipts, together and one by one. -/
inductive ServedChain.Says (chain : ServedChain) : MethodCall → Json → Prop
  | block (n : ℕ) : Says chain (blockCall n) (chain.block n)
  | receipts (n : ℕ) : Says chain (receiptsCall n) (.arr (chain.receipts n))
  | receipt (hash : String) : Says chain (receiptCall hash) (chain.receipt hash)

/-- **An exchange that says only what is true**: of the calls that are about the chain, each is
answered with what is true, or with null or an error. -/
def Exchange.TrueOf (e : Exchange) (chain : ServedChain) : Prop :=
  ∀ results, e.results = .ok results → ∀ call v w, (call, .ok v) ∈ e.request.calls.zip results →
    v.isNull = false → chain.Says call w → v = w

/-- A block with transactions has the chain's receipts for them, any other none. -/
def ServedChain.rawReceipts (chain : ServedChain) (n : ℕ) : Option Json :=
  if hasTxs (chain.block n) then some (.arr (chain.receipts n)) else none

/-- The receipts of every block are those of its transactions, in order. -/
def ServedChain.Ordered (chain : ServedChain) : Prop :=
  ∀ n, chain.receipts n = (txHashes (chain.block n)).map chain.receipt

/-- **A raw block of the chain**, whole. -/
structure ServedChain.Raw (chain : ServedChain) (b : RawBlock) : Prop where
  there : (chain.block b.number).isNull = false
  block : b.block = chain.block b.number
  receipts : b.receipts = chain.rawReceipts b.number

variable {chain : ServedChain}

theorem Exchange.TrueOf.answered {exchanges : List Exchange}
    (htrue : ∀ e ∈ exchanges, e.TrueOf chain) {call : MethodCall} {v w : Json}
    (h : Answered exchanges call (.ok v)) (hv : v.isNull = false) (hw : chain.Says call w) :
    v = w := by
  obtain ⟨e, he, results, hresults, hmem⟩ := h
  exact htrue e he results hresults call v w hmem hv hw

theorem presents_eq {said : String → Json} {hashes : List String}
    {results : List (Except RpcError Json)} {vs : List Json} (h : results.mapM present = some vs)
    (hlen : results.length = hashes.length)
    (hsaid : ∀ p ∈ hashes.zip results, ∀ v, p.2 = .ok v → v.isNull = false → v = said p.1) :
    vs = hashes.map said := by
  have hthere := (Fallible.forall₂_of_mapM h).imp fun _ _ hv => present_eq_some hv
  clear h
  induction hthere generalizing hashes with
  | nil =>
    rw [List.length_eq_zero_iff.mp hlen.symm]
    rfl
  | @cons r v results vs hrv hrest ih =>
    cases hashes with
    | nil => cases hlen
    | cons hash hashes =>
      rw [List.zip_cons_cons, List.forall_mem_cons] at hsaid
      rw [List.map_cons, hsaid.1 v hrv.1 hrv.2, ih (Nat.succ.inj hlen) hsaid.2]

theorem eachReceipt_true {e : Exchange} (htrue : e.TrueOf chain) {hashes : List String}
    (hcalls : e.request.calls = hashes.map receiptCall) {v : Json}
    (h : eachReceipt hashes e.results = some v) : v = .arr (hashes.map chain.receipt) := by
  cases hresults : e.results with
  | error failure =>
    rw [hresults] at h
    cases h
  | ok results =>
    rw [hresults] at h
    simp only [eachReceipt] at h
    split_ifs at h with hlen
    obtain ⟨vs, hvs, rfl⟩ := Option.map_eq_some_iff.mp h
    refine congrArg Json.arr (presents_eq hvs hlen fun p hp v hv hnull => ?_)
    refine htrue results hresults (receiptCall p.1) v _ ?_ hnull (.receipt p.1)
    rw [hcalls, List.zip_map_left]
    exact List.mem_map.mpr ⟨p, hp, Prod.ext rfl hv⟩

/-! ## A fetch -/

theorem foundBlocks_true {e : Exchange} (htrue : e.TrueOf chain) {nums : List ℕ}
    (hcalls : e.request.calls = nums.map blockCall) {results : List (Except RpcError Json)}
    (hresults : e.results = .ok results) {b : RawBlock} (hb : b ∈ foundBlocks nums results) :
    (chain.block b.number).isNull = false ∧ b.block = chain.block b.number := by
  obtain ⟨⟨n, r⟩, hp, hb⟩ := List.mem_filterMap.mp hb
  obtain ⟨v, hv, rfl⟩ := Option.map_eq_some_iff.mp hb
  obtain ⟨rfl, hnull⟩ := present_eq_some hv
  have hsaid : v = chain.block n := by
    refine htrue results hresults (blockCall n) v _ ?_ hnull (.block n)
    rw [hcalls, List.zip_map_left]
    exact List.mem_map.mpr ⟨_, hp, rfl⟩
  exact ⟨hsaid ▸ hnull, hsaid⟩

theorem Fetched.raw (hordered : chain.Ordered) {exchanges : List Exchange}
    (htrue : ∀ e ∈ exchanges, e.TrueOf chain) {b b' : RawBlock} (hnone : b.receipts = none)
    (hthere : (chain.block b.number).isNull = false) (hblock : b.block = chain.block b.number)
    (h : Fetched exchanges b b') (hkept : (b'.receipts.isSome || !hasTxs b'.block) = true) :
    chain.Raw b' := by
  cases h with
  | plain htxs =>
    refine ⟨hthere, hblock, ?_⟩
    rw [ServedChain.rawReceipts, ← hblock, htxs, hnone]
    rfl
  | bulk htxs hanswered hv =>
    refine ⟨hthere, hblock, ?_⟩
    rw [ServedChain.rawReceipts, if_pos (hblock ▸ htxs),
      Exchange.TrueOf.answered htrue hanswered hv (.receipts b.number)]
  | @single e e' htxs he hasked hmissed he' hrequest =>
    have hsome : (eachReceipt (txHashes b.block) e'.results).isSome = true := by
      simpa [htxs] using hkept
    obtain ⟨v, hv⟩ := Option.isSome_iff_exists.mp hsome
    have hcalls : e'.request.calls = (txHashes b.block).map receiptCall := by
      rw [hrequest, calls_batchRequest]
    refine ⟨hthere, hblock, ?_⟩
    show eachReceipt (txHashes b.block) e'.results = _
    rw [ServedChain.rawReceipts, if_pos (hblock ▸ htxs), hv, eachReceipt_true (htrue e' he') hcalls hv,
      hordered, hblock]

theorem fetchRawBlocks_true (hordered : chain.Ordered) {start stop : ℕ} {node : Node}
    {log log' : List Exchange} {raws : List RawBlock}
    (h : fetchRawBlocks start stop node log = (.ok raws, log')) :
    ∃ exchanges, log' = log ++ exchanges ∧
      ((∀ e ∈ exchanges, e.TrueOf chain) → ∀ b ∈ raws, chain.Raw b) := by
  induction hn : stop - start using Nat.strong_induction_on
    generalizing start stop log log' raws with
  | _ n ih =>
    have hcalls : (blocksExchange node log start stop).request.calls =
        (List.range' start (stop + 1 - start)).map blockCall := calls_batchRequest _
    rcases fetchRawBlocks_ok h with ⟨-, rfl, rfl⟩ | ⟨-, results, hresults, hrest⟩ |
      ⟨hlt, failure, lower, upper, log1, hresults, hlower, hupper, rfl⟩
    · exact ⟨[], (List.append_nil _).symm, fun _ b hb => absurd hb List.not_mem_nil⟩
    · have hnone : ∀ b ∈ foundBlocks (List.range' start (stop + 1 - start)) results,
          b.receipts = none := fun b hb => (mem_foundBlocks hb).1
      obtain ⟨fetched, exchanges, hrun, hfetched, -⟩ := fetchReceipts_run hnone node
        (log ++ [blocksExchange node log start stop])
      obtain ⟨hraws, hlog⟩ := Prod.mk.inj (hrest.symm.trans hrun)
      rw [Except.ok.inj hraws]
      refine ⟨blocksExchange node log start stop :: exchanges, ?_, fun htrue b' hb' => ?_⟩
      · rw [hlog]
        exact (List.append_cons _ _ _).symm
      · obtain ⟨hfirst, htrue⟩ := List.forall_mem_cons.mp htrue
        obtain ⟨hmem, hkept⟩ := List.mem_filter.mp hb'
        obtain ⟨b, hb, hfetch⟩ := hfetched.exists_left hmem
        obtain ⟨hthere, hblock⟩ := foundBlocks_true hfirst hcalls hresults hb
        exact hfetch.raw hordered htrue (hnone b hb) hthere hblock hkept
    · obtain ⟨lowers, rfl, hl⟩ := ih _ (by omega) hlower rfl
      obtain ⟨uppers, rfl, hu⟩ := ih _ (by omega) hupper rfl
      refine ⟨blocksExchange node log start stop :: (lowers ++ uppers), ?_, fun htrue b hb => ?_⟩
      · simp only [List.append_assoc, List.cons_append, List.nil_append]
      · obtain ⟨-, htrue⟩ := List.forall_mem_cons.mp htrue
        obtain ⟨htrueLower, htrueUpper⟩ := List.forall_mem_append.mp htrue
        exact (List.mem_append.mp hb).elim (hl htrueLower b) (hu htrueUpper b)

/-! ## Bundles of a chain -/

/-- A chain whose bundles carry some metadata. -/
def Chain.describing (c : Chain) (tokens : List TokenMeta) : Chain :=
  { c with bundle := fun n => { c.bundle n with tokens := tokens } }

/-- A bundle of the chain, whatever metadata it carries. -/
def Chain.Has (c : Chain) (bundle : BlockBundle) : Prop :=
  ∃ n : ℕ, n < 2 ^ 63 ∧ bundle.bare = (c.bundle n).bare

section Mirrors

variable {c : Chain} {S : Set ℤ} {db db' : Database}

theorem Chain.eq_describing (c : Chain) {n : ℤ} {bundle : BlockBundle}
    (h : bundle.bare = (c.bundle n).bare) : bundle = (c.describing bundle.tokens).bundle n := by
  have hsame : ∀ a b : BlockBundle, a.bare = b.bare → a = { b with tokens := a.tokens } := by
    rintro ⟨block, txs, transfers, anchoring, tokens⟩ ⟨block', txs', transfers', anchoring', tokens'⟩ h
    simpa [BlockBundle.bare] using h
  exact hsame bundle (c.bundle n) h

theorem Mirrors.describing {tokens : List TokenMeta} :
    Mirrors (c.describing tokens) S db ↔ Mirrors c S db :=
  ⟨fun h => ⟨h.blocks, h.transactions, h.transfers, h.anchoring, h.held, h.genesis, h.balanced⟩,
    fun h => ⟨h.blocks, h.transactions, h.transfers, h.anchoring, h.held, h.genesis, h.balanced⟩⟩

/-- Heights that a chain's numbers reach. -/
def Reached (S : Set ℤ) : Prop := ∀ n ∈ S, 0 ≤ n ∧ n < 2 ^ 63

/-- What the writes of a batch keep: some heights are mirrored, and the counters with what the batch
has added count them. -/
def Mirroring (c : Chain) (db : Database) (blocks txs : ℤ) : Prop :=
  ∃ S, Reached S ∧ Mirrors c S db ∧ Counters db blocks txs

theorem Mirroring.writeBlock {ch : Choices} {bundle : BlockBundle} {nb nt x y : ℤ}
    (h : Mirroring c db x y) (hbundle : c.Has bundle)
    (hok : db.writeBlock ch bundle = .ok (db', nb, nt)) : Mirroring c db' (x + nb) (y + nt) := by
  obtain ⟨S, hreached, hmirrors, hcounters⟩ := h
  obtain ⟨n, hn, hbare⟩ := hbundle
  have hdescribing : Mirrors (c.describing bundle.tokens) S db := Mirrors.describing.mpr hmirrors
  rw [c.eq_describing hbare] at hok
  obtain ⟨⟨new, hw⟩, hnb, hnt⟩ := Database.writeBlock_written hmirrors.balanced hok
  refine ⟨insert (n : ℤ) S, ?_, Mirrors.describing.mp (hdescribing.written hw),
    hdescribing.written_counters hcounters hw hnb hnt⟩
  rintro m (rfl | hm)
  · exact ⟨Int.natCast_nonneg n, by exact_mod_cast hn⟩
  · exact hreached m hm

theorem Mirroring.save {ch : ℕ → Choices} {bundles : List BlockBundle} (h : Mirroring c db 0 0)
    (hbundles : ∀ bundle ∈ bundles, c.Has bundle)
    (hok : db.saveBlockBundles ch bundles = .ok db') : Mirroring c db' 0 0 := by
  obtain ⟨mid, x, y, hwrites, rfl⟩ := Database.saveBlockBundles_ok hok
  obtain ⟨S, hreached, hmirrors, hblocks, htxs⟩ : Mirroring c mid x y :=
    Database.writeBlocks_induction (P := Mirroring c)
      (fun hmem hmirroring hwrite => hmirroring.writeBlock (hbundles _ hmem) hwrite) hwrites h
  have hframe : (mid.addToCounter "blocks" x).addToCounter "transactions" y =
      { mid with
        counters := ((mid.addToCounter "blocks" x).addToCounter "transactions" y).counters } := by
    rw [Database.addToCounter_frame, Database.addToCounter_frame mid]
  refine ⟨S, hreached, ?_, ?_, ?_⟩
  · rw [hframe]
    exact hmirrors.withCounters _
  · rw [counter_addToCounter, counter_addToCounter, hframe]
    simpa using hblocks
  · rw [counter_addToCounter, counter_addToCounter, hframe]
    simpa using htxs

theorem Mirroring.stored (h : Mirroring c db 0 0) :
    Reached {n | n ∈ db.blocks} ∧ Mirrors c {n | n ∈ db.blocks} db ∧ CountersExact db := by
  obtain ⟨S, hreached, hmirrors, hblocks, htxs⟩ := h
  have hS : {n | n ∈ db.blocks} = S := by
    ext n
    exact hmirrors.mem_blocks
  rw [hS]
  refine ⟨hreached, hmirrors, ?_, ?_⟩
  · rw [← hblocks, add_zero]
  · rw [← htxs, add_zero]

end Mirrors

/-! ## Every run -/

/-- The blocks a step of a fetch is answered with are the chain's. -/
def FetchStep.TrueOf (chain : ServedChain) (f : RangeFetch) : FetchStep → Prop
  | .rawBlocks i node => ∀ chunk, f.tasks[i]? = some (.asked chunk) →
    ∀ e ∈ (fetchRawBlocks chunk.1 chunk.2 node []).2, e.TrueOf chain
  | _ => True

/-- **What the node says of blocks is true**, in a step of either loop. -/
def IndexerState.TrueOf (chain : ServedChain) (s : IndexerState) : IndexerAction → Prop
  | .forwardFetch step => ∀ sent head f, s.forward = .fetching sent head f → step.TrueOf chain f
  | .descentFetch step => ∀ frontier target f, s.descent = .fetching frontier target f →
    step.TrueOf chain f
  | _ => True

section Keccak

variable [Keccak]

theorem Chain.has_described {c : Chain} {ch : ℕ → Choices} {wanted : List String}
    {bundles bundles' : List BlockBundle} {new : Finset String} {node : Node} {log : List Exchange}
    (h : (describeTokens ch wanted bundles node log).1 = .ok (bundles', new))
    (hbundles : ∀ bundle ∈ bundles, c.Has bundle) : ∀ bundle ∈ bundles', c.Has bundle := by
  intro bundle hmem
  have hbare : bundle.bare ∈ bundles.map BlockBundle.bare := by
    rw [← describeTokens_bare h]
    exact List.mem_map_of_mem hmem
  obtain ⟨before, hbefore, hsame⟩ := List.mem_map.mp hbare
  obtain ⟨n, hn, hhas⟩ := hbundles before hbefore
  exact ⟨n, hn, hsame.symm.trans hhas⟩

variable [Codec]

/-- **A chain as it is indexed**: its blocks are assembled, with their receipts, to the bundles
of `c`. -/
structure ServedChain.Assembles (chain : ServedChain) (c : Chain) : Prop where
  ordered : chain.Ordered
  bundle : ∀ n bundle, (chain.block n).isNull = false →
    assembleBundle (chain.block n) (chain.rawReceipts n) = some bundle → bundle = c.bundle n

variable {c : Chain}

theorem ServedChain.Assembles.has (h : chain.Assembles c) {b : RawBlock} (hb : chain.Raw b)
    {bundle : BlockBundle} (hassemble : assembleBundle b.block b.receipts = some bundle) :
    c.Has bundle := by
  have hbundle : bundle = c.bundle b.number := by
    refine h.bundle b.number bundle hb.there ?_
    rw [← hb.block, ← hb.receipts, hassemble]
  refine ⟨b.number, ?_, by rw [hbundle]⟩
  have hnumber : intField "number" b.block = b.number := by
    rw [← c.number b.number, ← hbundle, (block_of_assembleBundle hassemble).1]
    rfl
  have hmax := (getD_isI64 (o := (b.block.get "number").map parseIntAny) fun n hn => ?_).2
  · rw [← intField, hnumber] at hmax
    omega
  · obtain ⟨v, -, rfl⟩ := Option.map_eq_some_iff.mp hn
    exact parseIntAny_isI64 v

theorem FetchStep.TrueOf.keeps (h : chain.Assembles c) {f : RangeFetch} {step : FetchStep}
    (hstep : step.TrueOf chain f) : step.Keeps c.Has f := by
  cases step with
  | rawBlocks i node =>
    intro chunk raws bundles htask hraws hbundles bundle hbundle
    obtain ⟨exchanges, hlog, hraw⟩ := fetchRawBlocks_true h.ordered (Prod.ext hraws rfl)
    obtain ⟨b, hb, hassemble⟩ := (Fallible.mem_of_mapM hbundles bundle).mp hbundle
    refine h.has (hraw (fun e he => hstep chunk htask e ?_) b hb) hassemble
    have hmem : e ∈ [] ++ exchanges := List.mem_append_right _ he
    rwa [← hlog] at hmem
  | describe i ch node =>
    intro bundles wanted bundles' new _ hbundles hrun
    exact Chain.has_described hrun hbundles
  | _ => trivial

theorem IndexerState.TrueOf.keeps (h : chain.Assembles c) {s : IndexerState} {a : IndexerAction}
    (ha : s.TrueOf chain a) : s.Keeps c.Has a := by
  cases a with
  | forwardFetch step => exact fun sent head f hpc => (ha sent head f hpc).keeps h
  | descentFetch step => exact fun frontier target f hpc => (ha frontier target f hpc).keeps h
  | _ => trivial

theorem indexer_mirroring {cfg : IndexerConfig} (h : chain.Assembles c)
    {ok : IndexerState → IndexerAction → Prop} (hok : ∀ s a, ok s a → s.TrueOf chain a)
    {s : IndexerState} (hs : (indexer cfg .fresh).ReachableUnder ok s) : Mirroring c s.db 0 0 := by
  have hfresh : Mirroring c .fresh 0 0 :=
    ⟨∅, fun n hn => absurd hn (Set.notMem_empty n), fresh_mirrors c, fresh_counters⟩
  have hkeeps := hs.mono fun s a ha => (hok s a ha).keeps h
  refine (indexer_commits (Q := fun db => Mirroring c db 0 0) hfresh ?_ hkeeps).2
  exact fun d d' ch bundles hd hbundles hsave => hd.save hbundles hsave

/-- **The database mirrors the chain**, whatever the order of steps, the blocks and receipts that are
missing or refused, the cuts, the repeats, the commits that fail and the crashes: in every state
reached it holds exactly the blocks of the heights it has, with all their transactions, transfers and
anchoring writes and with balances that are the ledger, and its counters are the numbers of rows. -/
theorem indexer_mirrors {cfg : IndexerConfig} (h : chain.Assembles c) {s : IndexerState}
    (hs : (indexer cfg .fresh).ReachableUnder (IndexerState.TrueOf chain) s) :
    Mirrors c {n | n ∈ s.db.blocks} s.db ∧ CountersExact s.db :=
  (indexer_mirroring h (fun _ _ ha => ha) hs).stored.2

/-! ## At rest -/

omit [Keccak] [Codec] in
/-- **A process at rest**: the forward loop waits for a head above a height, the descent has reached
height 1, and nothing is on its way. -/
structure IndexerState.AtRest (s : IndexerState) (height : ℕ) : Prop where
  forward : s.forward = .waiting height
  descent : s.descent = .low
  batch : s.batch = []
  channel : s.channel = []

theorem IndexerState.Step.low_cases {cfg : IndexerConfig} {s s' : IndexerState} {a : IndexerAction}
    (h : s.Step cfg a s') (hlow : s'.descent = .low) :
    s.descent = .low ∨ ∃ min ≤ 1, s.descent = .top (some min) := by
  cases h with
  | pickNone hpc hmin => exact .inr ⟨_, hmin, hpc⟩
  | descentBoot hpc => cases hlow
  | pickBelow hpc hmin => cases hlow
  | pickHead hpc hlag hhead => cases hlow
  | readLowest hpc => cases hlow
  | descentFetch hpc hexec => cases hlow
  | descentNothing hpc hover => cases hlow
  | descentFetched hpc hover hhead => cases hlow
  | descentSend hpc => cases hlow
  | descentSentAll hpc => cases hlow
  | crash => cases hlow
  | _ => exact .inl hlow

theorem IndexerState.Step.sighted_subset {cfg : IndexerConfig} {s s' : IndexerState}
    {a : IndexerAction} (h : s.Step cfg a s') (hcrash : s'.descent ≠ .boot) :
    s.sighted ⊆ s'.sighted := by
  cases h with
  | @forwardSend reached head b rest hpc =>
    obtain ⟨-, hsighted⟩ := sighted_push s { s with
      channel := s.channel ++ [b]
      forward := .sending reached head rest
      forwardSent := s.forwardSent ++ [b.height] } rfl rfl rfl
    rw [hsighted]
    exact Set.subset_insert _ _
  | @descentSend reached b rest hpc =>
    obtain ⟨-, hsighted⟩ := sighted_push s { s with
      channel := s.channel ++ [b]
      descent := .sending reached rest
      descentSent := s.descentSent ++ [b.height] } rfl rfl rfl
    rw [hsighted]
    exact Set.subset_insert _ _
  | writerTake hbatch =>
    simp only [sighted, onTheWay, hbatch, List.nil_append, List.take_append_drop]
    exact Set.Subset.refl _
  | writerSaves hsave =>
    simp only [sighted, onTheWay, stored_saveBlockBundles hsave, List.map_append, List.nil_append]
    intro n hn
    simp only [Set.mem_union, Set.mem_ofPred_eq, List.mem_append] at hn ⊢
    tauto
  | crash => exact absurd rfl hcrash
  | _ => exact Set.Subset.refl _

/-- What every state keeps: no hole, and a descent at its end has a height at or below 1. -/
structure IndexerState.Bottomed (s : IndexerState) : Prop where
  whole : s.Whole
  low : s.descent = .low → ∃ n ≤ 1, n ∈ s.sighted

theorem IndexerState.Step.bottomed {cfg : IndexerConfig} {s s' : IndexerState} {a : IndexerAction}
    (h : s.Step cfg a s') (hs : s.Bottomed) (hadj : s.HeadAdjoins a) : s'.Bottomed := by
  refine ⟨h.whole hs.whole hadj, fun hlow => ?_⟩
  have hsub : s.sighted ⊆ s'.sighted := h.sighted_subset (by rw [hlow]; simp)
  rcases h.low_cases hlow with hbefore | ⟨min, hmin, htop⟩
  · obtain ⟨n, hn, hmem⟩ := hs.low hbefore
    exact ⟨n, hn, hsub hmem⟩
  · have hat := hs.whole.gapless.descent
    have hrooted := hs.whole.descent
    rw [htop] at hat hrooted
    have hfrontier : min = s.target - s.descentSent.length := hat min rfl
    exact ⟨min, hmin, hsub (hfrontier ▸ hrooted rfl)⟩

omit [Keccak] [Codec] in
theorem mem_blocks_of_stored {db : Database} (h : Reached {n | n ∈ db.blocks}) {n : ℕ}
    (hn : n ∈ db.stored) : (n : ℤ) ∈ db.blocks := by
  obtain ⟨m, hm, rfl⟩ := hn
  obtain ⟨hlo, hhi⟩ := h m hm
  rwa [wrapU64_of_nonneg hlo (by omega), Int.toNat_of_nonneg hlo]

/-- **A process at rest has everything**: every height from 1 to the one it rests at is mirrored, in
every run in which a descent that starts over asks for a head that adjoins what was sent. -/
theorem indexer_complete {cfg : IndexerConfig} (h : chain.Assembles c) {s : IndexerState}
    (hs : (indexer cfg .fresh).ReachableUnder (fun s a => s.TrueOf chain a ∧ s.HeadAdjoins a) s)
    {height : ℕ} (hrest : s.AtRest height) :
    (∀ n : ℕ, 1 ≤ n → n ≤ height → (n : ℤ) ∈ s.db.blocks) ∧
      Mirrors c {n | n ∈ s.db.blocks} s.db ∧ CountersExact s.db := by
  obtain ⟨hreached, hmirrors, hcounters⟩ := (indexer_mirroring h (fun _ _ ha => ha.1) hs).stored
  refine ⟨fun n hpos hle => mem_blocks_of_stored hreached ?_, hmirrors, hcounters⟩
  have hbottomed : s.Bottomed := by
    refine hs.invariant ?_ ?_
    · rintro s rfl
      refine ⟨.boot ?_, fun hlow => by cases hlow⟩
      rw [stored_fresh]
      exact Set.ordConnected_empty
    · intro s a s' hs hok hexec
      exact (IndexerState.step_of_exec hexec).bottomed hs hok.2
  have hsighted : s.sighted = s.db.stored := by
    have hway : s.onTheWay = [] := by rw [IndexerState.onTheWay, hrest.batch, hrest.channel]; rfl
    rw [IndexerState.sighted, hway]
    exact Set.union_eq_self_of_subset_right fun n hn => absurd hn List.not_mem_nil
  obtain ⟨low, hlow, hlowMem⟩ := hbottomed.low hrest.descent
  have hat := hbottomed.whole.gapless.forward
  have hrooted := hbottomed.whole.forward
  rw [hrest.forward] at hat hrooted
  have hheight : height = s.base + s.forwardSent.length := hat
  have hhighMem : height ∈ s.sighted := by
    rw [hheight]
    refine hrooted.resolve_left fun hzero => ?_
    omega
  rw [hsighted] at hlowMem hhighMem
  exact hbottomed.whole.stored.out hlowMem hhighMem ⟨hlow.trans hpos, hle⟩

end Keccak

/-! ## A chain of two blocks -/

section Sample

attribute [local instance] Keccak.sponge Codec.transfers

/-- A transfer of 5 coins. -/
def coinLog : Json := .obj [
  ("address", .str "0x20c0000000000000000000000000000000000000"),
  ("topics", .arr [.str transferTopic,
    .str "0x0000000000000000000000000000000000000000000000000000000000000001",
    .str "0x0000000000000000000000000000000000000000000000000000000000000002"]),
  ("data", .str "0x0000000000000000000000000000000000000000000000000000000000000005"),
  ("logIndex", .str "0x0")]

def coinReceipt (hash : String) : Json :=
  .obj [("transactionHash", .str hash), ("logs", .arr [coinLog])]

/-- The blocks at heights 1 and 2, each with one transaction. -/
def coinBlock : Json → Json
  | .str number =>
    if number ∈ ["0x1", "0x2"] then
      .obj [("number", .str number), ("hash", .str (number ++ "f")), ("transactions", .arr
        [.obj [("hash", .str (number ++ "a")), ("blockNumber", .str number)]])]
    else .null
  | _ => .null

def coinReceipts (block : Json) : List Json := (txHashes block).map coinReceipt

def coinChain : ServedChain where
  block n := coinBlock (quantity n)
  receipts n := coinReceipts (coinBlock (quantity n))
  receipt := coinReceipt

/-- A node at height 2 that has both, with their receipts. -/
def coinNode : Node := answeringNode fun
  | ⟨"eth_blockNumber", _⟩ => quantity 2
  | ⟨"eth_getBlockByNumber", .arr (number :: _)⟩ => coinBlock number
  | ⟨"eth_getBlockReceipts", .arr (number :: _)⟩ => .arr (coinReceipts (coinBlock number))
  | ⟨"eth_getTransactionReceipt", .arr (.str hash :: _)⟩ => coinReceipt hash
  | _ => .null

theorem coinNode_true {e : Exchange} (hmade : coinNode.Made e) : e.TrueOf coinChain := by
  intro results hresults call v w hmem _ hsays
  rw [eq_answer_of_made hmade hresults hmem]
  cases hsays <;> rfl

/-- What is stored of the block at a height. -/
def coinBundle (n : ℕ) : BlockBundle where
  block := parseBlock (coinChain.block n)
  txs := [{
    hash := "0x" ++ toString n ++ "a"
    blockNumber := n
    position := 0
    fromAddr := ""
    toAddr := none
    status := 1
    gasUsed := 0
    baseFee := "0x0"
    contractAddress := none
    feeToken := none
    feeAmount := "0"
    input := ""
    raw := none
    traceData := none
    receiptData := some ""
    timestamp := 0 }]
  transfers := [{
    txHash := "0x" ++ toString n ++ "a"
    blockNumber := n
    logIndex := 0
    tokenAddr := "0x20C0000000000000000000000000000000000000"
    fromAddr := "0x0000000000000000000000000000000000000001"
    toAddr := "0x0000000000000000000000000000000000000002"
    amount := "5"
    timestamp := 0 }]
  anchoring := []
  tokens := []

theorem coinBundle_assembled {n : ℕ} (hn : n = 1 ∨ n = 2) :
    assembleBundle (coinChain.block n) (coinChain.rawReceipts n) = some (coinBundle n) := by
  have hboth : ∀ n ∈ [1, 2],
      assembleBundle (coinChain.block n) (coinChain.rawReceipts n) = some (coinBundle n) := by
    decide +kernel
  exact hboth n (by simpa using hn)

theorem coinChain_block {n : ℕ} (h : (coinChain.block n).isNull = false) : n = 1 ∨ n = 2 := by
  by_contra hne
  have hnull : coinChain.block n = .null := by
    refine if_neg fun hmem => hne ?_
    simp only [List.mem_cons, List.not_mem_nil, or_false] at hmem
    exact hmem.imp (fun h => quantity_injective (congrArg Json.str h))
      fun h => quantity_injective (congrArg Json.str h)
  rw [hnull] at h
  exact absurd h (by decide)

/-- What the bundle at a height is to be. -/
structure FitsAt (n : ℤ) (bundle : BlockBundle) : Prop where
  number : bundle.block.number = n
  txs : ∀ tx ∈ bundle.txs, tx.blockNumber = n ∧ (n = 1 ∨ n = 2) ∧
    hexBlob tx.hash = [.ofNat (16 * n.toNat + 10)]
  hashNodup : (bundle.txs.map fun tx => hexBlob tx.hash).Nodup
  transfers : ∀ t ∈ bundle.transfers, t.blockNumber = n
  transferIndexes : (bundle.transfers.map TransferEvent.logIndex).Nodup
  anchoring : bundle.anchoring = []

theorem coinBundle_fits {n : ℕ} (hn : n = 1 ∨ n = 2) : FitsAt n (coinBundle n) where
  number := by rcases hn with rfl | rfl <;> decide +kernel
  txs := by
    refine List.forall_mem_singleton.mpr ⟨rfl, by omega, ?_⟩
    rcases hn with rfl | rfl <;> decide +kernel
  hashNodup := List.nodup_singleton _
  transfers := List.forall_mem_singleton.mpr rfl
  transferIndexes := List.nodup_singleton _
  anchoring := rfl

/-- The two blocks, and at any other height a block of no chain. -/
def coinBundleAt (n : ℤ) : BlockBundle :=
  if n = 1 ∨ n = 2 then coinBundle n.toNat
  else ⟨{ parseBlock .null with number := n }, [], [], [], []⟩

theorem coinBundleAt_natCast {n : ℕ} (hn : n = 1 ∨ n = 2) : coinBundleAt n = coinBundle n := by
  rw [coinBundleAt, if_pos (by omega), Int.toNat_natCast]

theorem coinBundleAt_fits (n : ℤ) : FitsAt n (coinBundleAt n) := by
  by_cases hn : n = 1 ∨ n = 2
  · obtain ⟨m, rfl⟩ := Int.eq_ofNat_of_zero_le (a := n) (by omega)
    have hm : m = 1 ∨ m = 2 := by omega
    rw [coinBundleAt_natCast hm]
    exact coinBundle_fits hm
  · rw [coinBundleAt, if_neg hn]
    exact ⟨rfl, fun _ h => absurd h List.not_mem_nil, .nil, fun _ h => absurd h List.not_mem_nil,
      .nil, rfl⟩

def coinBundles : Chain where
  bundle := coinBundleAt
  number n := (coinBundleAt_fits n).number
  txNumber n tx htx := ((coinBundleAt_fits n).txs tx htx).1
  transferNumber n := (coinBundleAt_fits n).transfers
  anchoringNumber n e he := by
    rw [(coinBundleAt_fits n).anchoring] at he
    exact absurd he List.not_mem_nil
  hashes n m tx htx tx' htx' hsame := by
    obtain ⟨-, hn, hhash⟩ := (coinBundleAt_fits n).txs tx htx
    obtain ⟨-, hm, hhash'⟩ := (coinBundleAt_fits m).txs tx' htx'
    rw [hhash, hhash'] at hsame
    rcases hn with rfl | rfl <;> rcases hm with rfl | rfl
    · rfl
    · exact absurd hsame (by decide)
    · exact absurd hsame (by decide)
    · rfl
  hashNodup n := (coinBundleAt_fits n).hashNodup
  transferIndexes n := (coinBundleAt_fits n).transferIndexes
  anchoringIndexes n := by
    rw [(coinBundleAt_fits n).anchoring]
    exact .nil

theorem coinChain_assembles : coinChain.Assembles coinBundles where
  ordered n := rfl
  bundle n bundle hthere hassemble := by
    have hn := coinChain_block hthere
    rw [coinBundle_assembled hn] at hassemble
    rw [← Option.some.inj hassemble]
    exact (coinBundleAt_natCast hn).symm

/-- A node that answers nothing. -/
def silentNode : Node := fun _ _ => .failed

theorem describeTokens_silent (ch : ℕ → Choices) {wanted : List String} (hne : wanted ≠ [])
    (bundles : List BlockBundle) :
    (describeTokens ch wanted bundles silentNode []).1 = .ok (bundles, ∅) := by
  rcases describeTokens_run ch wanted bundles silentNode [] with
    ⟨metas, log, hmetas, -⟩ | ⟨e, log, -, hrun⟩
  · unfold fetchTokenMetadata at hmetas
    split_ifs at hmetas with hempty
    · rw [List.isEmpty_iff, List.map_eq_nil_iff] at hempty
      exact absurd (List.nil_perm.mp (hempty ▸ (ch 0).perm wanted)) hne
    · obtain ⟨results, log', hbatch, -⟩ := Rpc.bind_ok hmetas
      rw [batchCall_eq] at hbatch
      have herror : ∀ request, ∃ error, Exchange.results ⟨request, .failed⟩ = .error error := by
        rintro (call | calls) <;> exact ⟨_, rfl⟩
      obtain ⟨error, herror⟩ := herror (batchRequest _)
      exact absurd (herror.symm.trans (Prod.mk.inj hbatch).1) nofun
  · rw [hrun]

theorem fetchRawBlocks_coinNode : fetchRawBlocks 1 2 coinNode [] =
    (.ok [⟨1, coinChain.block 1, coinChain.rawReceipts 1⟩,
      ⟨2, coinChain.block 2, coinChain.rawReceipts 2⟩],
      [batchExchange coinNode [] [blockCall 1, blockCall 2],
        batchExchange coinNode [batchExchange coinNode [] [blockCall 1, blockCall 2]]
          [receiptsCall 1, receiptsCall 2]]) := by
  rw [fetchRawBlocks]
  rfl

theorem assemble_coins : assemble [⟨1, coinChain.block 1, coinChain.rawReceipts 1⟩,
    ⟨2, coinChain.block 2, coinChain.rawReceipts 2⟩] = some [coinBundle 1, coinBundle 2] := by
  simp only [assemble, List.mapM_cons, List.mapM_nil, coinBundle_assembled (.inl rfl),
    coinBundle_assembled (.inr rfl)]
  rfl

theorem coinBundle_height {n : ℕ} (hn : n = 1 ∨ n = 2) : (coinBundle n).height = n := by
  rw [BlockBundle.height, (coinBundle_fits hn).number]
  rcases hn with rfl | rfl <;> rfl

theorem tokensToFetch_coins (known : Finset String) (hnone : known = ∅) :
    tokensToFetch [coinBundle 1, coinBundle 2] known ≠ [] := by
  have hmentioned : Mentioned [coinBundle 1, coinBundle 2]
      "0x20C0000000000000000000000000000000000000" :=
    ⟨coinBundle 1, List.mem_cons_self, List.mem_append_left _ List.mem_cons_self⟩
  rcases known_or_wanted known hmentioned with hknown | hwanted
  · rw [hnone] at hknown
    exact absurd hknown (Finset.notMem_empty _)
  · exact List.ne_nil_of_mem hwanted

/-- The two blocks have come back, without the metadata of the coin, and are to be sent. -/
def coinsFetched : IndexerState := { IndexerState.boot .fresh with
  known := (IndexerState.boot .fresh).known ∪ ∅
  target := 3
  descent := .sending 1 [coinBundle 2, coinBundle 1] }

/-- **A descent fetches both blocks**, of a node that says only what is true. -/
theorem reachable_coinsFetched {ok : IndexerState → IndexerAction → Prop}
    (hok : ∀ s a, s.TrueOf coinChain a → s.HeadAdjoins a → ok s a) :
    (indexer twoAtOnce .fresh).ReachableUnder ok coinsFetched := by
  have hempty : (indexer twoAtOnce .fresh).ReachableUnder ok
      { IndexerState.boot .fresh with descent := .top none } :=
    .step (a := .descentBoot) (.start rfl) (hok _ _ trivial trivial) rfl
  have hpicked : (indexer twoAtOnce .fresh).ReachableUnder ok { IndexerState.boot .fresh with
      target := 3, descent := .fetching none 3 (.first 1 2) } := by
    refine .step (a := .pickTarget coinNode) hempty (hok _ _ trivial fun _ _ head _ => .inl ?_) rfl
    simp [IndexerState.sighted, IndexerState.onTheWay, IndexerState.boot, stored_fresh]
  have hasked : (indexer twoAtOnce .fresh).ReachableUnder ok { IndexerState.boot .fresh with
      target := 3, descent := .fetching none 3 ⟨[], [.asked (1, 2)], []⟩ } :=
    .step (a := .descentFetch .spawn) hpicked (hok _ _ (fun _ _ _ _ => trivial) trivial) rfl
  have hwanted := tokensToFetch_coins (IndexerState.boot .fresh).known rfl
  have hread : (indexer twoAtOnce .fresh).ReachableUnder ok { IndexerState.boot .fresh with
      target := 3
      descent := .fetching none 3 ⟨[], [.assembled [coinBundle 1, coinBundle 2]
        (tokensToFetch [coinBundle 1, coinBundle 2] (IndexerState.boot .fresh).known)], []⟩ } := by
    refine .step (a := .descentFetch (.rawBlocks 0 coinNode)) hasked (hok _ _ ?_ trivial) ?_
    · intro frontier target f hpc chunk htask e he
      obtain ⟨-, -, rfl⟩ := DescentPc.fetching.inj hpc
      obtain rfl : (1, 2) = chunk := FetchTask.asked.inj (Option.some.inj htask)
      rw [fetchRawBlocks_coinNode] at he
      rcases List.mem_pair.mp he with rfl | rfl
      · exact coinNode_true (made_batchExchange _ _ _)
      · exact coinNode_true (made_batchExchange _ _ _)
    · simp only [indexer, IndexerState.exec, RangeFetch.exec, List.getElem?_cons_zero,
        fetchRawBlocks_coinNode, assemble_coins, List.isEmpty_iff, if_neg hwanted]
      rfl
  have hdescribed : (indexer twoAtOnce .fresh).ReachableUnder ok { IndexerState.boot .fresh with
      known := (IndexerState.boot .fresh).known ∪ ∅
      target := 3
      descent := .fetching none 3 ⟨[], [.done [coinBundle 1, coinBundle 2]], []⟩ } := by
    refine .step (a := .descentFetch (.describe 0 (fun _ => .plain) silentNode)) hread
      (hok _ _ (fun _ _ _ _ => trivial) trivial) ?_
    simp only [indexer, IndexerState.exec, RangeFetch.exec, List.getElem?_cons_zero,
      describeTokens_silent _ hwanted]
    rfl
  have hjoined : (indexer twoAtOnce .fresh).ReachableUnder ok { IndexerState.boot .fresh with
      known := (IndexerState.boot .fresh).known ∪ ∅
      target := 3
      descent := .fetching none 3 ⟨[], [], [coinBundle 1, coinBundle 2]⟩ } :=
    .step (a := .descentFetch (.join 0)) hdescribed (hok _ _ (fun _ _ _ _ => trivial) trivial) rfl
  refine .step (a := .descentFetched) hjoined (hok _ _ trivial trivial) ?_
  have hbundles : (⟨[], [], [coinBundle 1, coinBundle 2]⟩ : RangeFetch).bundles =
      [coinBundle 1, coinBundle 2] := by
    refine List.Pairwise.insertionSort_eq (List.pairwise_pair.mpr ?_)
    rw [(coinBundle_fits (.inl rfl)).number, (coinBundle_fits (.inr rfl)).number]
    decide
  have hcut : contiguousDownTo [coinBundle 1, coinBundle 2] 2 = [coinBundle 1, coinBundle 2] := by
    have hnext : wrapU64 ((2 : ℕ) - 1) = 1 := rfl
    rw [contiguousDownTo]
    simp only [List.reverse_cons, List.reverse_nil, List.nil_append, List.cons_append, descending,
      coinBundle_height (.inl rfl), coinBundle_height (.inr rfl), if_pos, hnext]
  have hbelow : wrapU64 ((3 : ℕ) - 1) = 2 := rfl
  simp only [indexer, IndexerState.exec, hbundles, hbelow, hcut, List.head?_cons,
    coinBundle_height (.inl rfl)]
  rfl

/-- A state of a run on the chain. -/
abbrev CoinRun : IndexerState → Prop :=
  (indexer twoAtOnce .fresh).ReachableUnder fun s a => s.TrueOf coinChain a ∧ s.HeadAdjoins a

/-- **Both blocks are stored**, and both loops come to rest above them. -/
theorem reachable_rest : ∃ s : IndexerState, CoinRun s ∧ s.AtRest 2 := by
  have hfetched : CoinRun coinsFetched := reachable_coinsFetched fun _ _ htrue hadj => ⟨htrue, hadj⟩
  have hfirst : CoinRun { coinsFetched with
      descent := .sending 1 [coinBundle 1]
      channel := [coinBundle 2]
      descentSent := [(coinBundle 2).height] } :=
    .step (a := .descentSend) hfetched ⟨trivial, trivial⟩ rfl
  have hsecond : CoinRun { coinsFetched with
      descent := .sending 1 []
      channel := [coinBundle 2, coinBundle 1]
      descentSent := [(coinBundle 2).height, (coinBundle 1).height] } :=
    .step (a := .descentSend) hfirst ⟨trivial, trivial⟩ rfl
  have htop : CoinRun { coinsFetched with
      descent := .top (some 1)
      channel := [coinBundle 2, coinBundle 1]
      descentSent := [(coinBundle 2).height, (coinBundle 1).height] } :=
    .step (a := .descentSend) hsecond ⟨trivial, trivial⟩ rfl
  have hlow : CoinRun { coinsFetched with
      descent := .low
      channel := [coinBundle 2, coinBundle 1]
      descentSent := [(coinBundle 2).height, (coinBundle 1).height] } :=
    .step (a := .pickTarget coinNode) htop ⟨trivial, fun hpc => absurd hpc nofun⟩ rfl
  have htaken : CoinRun { coinsFetched with
      descent := .low
      batch := [coinBundle 2, coinBundle 1]
      descentSent := [(coinBundle 2).height, (coinBundle 1).height] } :=
    .step (a := .writerTake) hlow ⟨trivial, trivial⟩ rfl
  obtain ⟨db, hsave⟩ :=
    Database.exists_commit .fresh [coinBundle 2, coinBundle 1] (by decide +kernel)
  have hstored : CoinRun { coinsFetched with
      db := db
      descent := .low
      descentSent := [(coinBundle 2).height, (coinBundle 1).height] } := by
    refine .step (a := .writerSave (fun _ => .plain) false) htaken ⟨trivial, trivial⟩ ?_
    have hdb : coinsFetched.db = .fresh := rfl
    simp only [indexer, IndexerState.exec, hdb, hsave]
    rfl
  have hlatest : IndexerState.latest { coinsFetched with
      db := db
      descent := .low
      descentSent := [(coinBundle 2).height, (coinBundle 1).height] } = some 2 := by
    have hmax : db.getMaxBlockNumber = some 2 := by
      rw [Database.getMaxBlockNumber_eq_some]
      simp only [Database.saveBlockBundles_heights hsave, List.mem_cons, List.not_mem_nil, or_false,
        exists_eq_or_imp, exists_eq_left, (coinBundle_fits (.inl rfl)).number,
        (coinBundle_fits (.inr rfl)).number]
      refine ⟨.inr (.inl rfl), ?_⟩
      rintro n (hold | rfl | rfl)
      · exact absurd hold (AList.notMem_empty n)
      · decide
      · decide
    rw [IndexerState.latest, hmax]
    rfl
  refine ⟨_, .step (a := .forwardBoot) hstored ⟨trivial, trivial⟩ rfl, ?_⟩
  refine ⟨?_, rfl, rfl, rfl⟩
  show ForwardPc.waiting _ = _
  rw [hlatest]
  rfl

/-- **A chain of two blocks** is mirrored. -/
theorem indexer_mirrors_coins : ∃ s : IndexerState, s.AtRest 2 ∧
    Mirrors coinBundles {n | n ∈ s.db.blocks} s.db ∧ CountersExact s.db := by
  obtain ⟨s, hs, hrest⟩ := reachable_rest
  exact ⟨s, hrest, indexer_mirrors coinChain_assembles (hs.mono fun _ _ ha => ha.1)⟩

/-- **A process at rest** has its blocks. -/
theorem indexer_complete_coins : ∃ s : IndexerState,
    (∀ n : ℕ, 1 ≤ n → n ≤ 2 → (n : ℤ) ∈ s.db.blocks) ∧
    Mirrors coinBundles {n | n ∈ s.db.blocks} s.db ∧ CountersExact s.db := by
  obtain ⟨s, hs, hrest⟩ := reachable_rest
  exact ⟨s, indexer_complete coinChain_assembles hs hrest⟩

end Sample

end ChainExplorer
