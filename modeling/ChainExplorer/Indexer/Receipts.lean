import ChainExplorer.Indexer.Bundles
import ChainExplorer.Lib.Pairs
import ChainExplorer.Rpc.Served

/-!
# Receipts of the blocks fetched

How each block of a fetch came by its receipts, and whether they are all there.

* `Taken`, `Filled`: what the batch of receipts and the requests after it make of one block.
* **`fetchReceipts_run`**: the fetch of receipts never fails; what it asks, and what becomes of every
  block.
* **`fetchBlockBundles_receipts`**: every transaction has its receipt exactly when whatever was taken
  for a block's receipts had all of them.
-/

namespace ChainExplorer

/-! ## One block at a time -/

/-- A block after the batch of receipts, whose calls and results are `pairs`. -/
inductive Taken (pairs : List (MethodCall × Except RpcError Json)) (b : RawBlock) : RawBlock → Prop
  | plain (htxs : hasTxs b.block = false) : Taken pairs b b
  | asked {r : Except RpcError Json} (htxs : hasTxs b.block = true)
      (hpair : (receiptsCall b.number, r) ∈ pairs) : Taken pairs b { b with receipts := present r }

/-- A block after the requests for the receipts of one block each. -/
inductive Filled (exchanges : List Exchange) (b : RawBlock) : RawBlock → Prop
  | whole (hshort : b.short = false) : Filled exchanges b b
  | asked {e : Exchange} (hshort : b.short = true) (he : e ∈ exchanges)
      (hrequest : e.request = batchRequest ((txHashes b.block).map receiptCall)) :
      Filled exchanges b { b with receipts := eachReceipt (txHashes b.block) e.results }

/-- The blocks whose receipts are asked for. -/
def needReceipts (blocks : List RawBlock) : List RawBlock := blocks.filter fun b => hasTxs b.block

theorem takeReceipts_spec (blocks : List RawBlock) {results : List (Except RpcError Json)}
    (hlen : results.length = (needReceipts blocks).length) :
    List.Forall₂ (Taken (((needReceipts blocks).map fun b => receiptsCall b.number).zip results)) blocks
        (takeReceipts blocks results) ∧
      ∀ p ∈ ((needReceipts blocks).map fun b => receiptsCall b.number).zip results,
        ∃ b ∈ blocks, p.1 = receiptsCall b.number ∧
          { b with receipts := present p.2 } ∈ takeReceipts blocks results := by
  induction blocks generalizing results with
  | nil => exact ⟨.nil, fun p hp => absurd hp List.not_mem_nil⟩
  | cons b blocks ih =>
    unfold takeReceipts
    cases htxs : hasTxs b.block with
    | false =>
      have hneed : needReceipts (b :: blocks) = needReceipts blocks := by
        rw [needReceipts, List.filter_cons, htxs]
        rfl
      rw [hneed] at hlen ⊢
      obtain ⟨htaken, hback⟩ := ih hlen
      refine ⟨.cons (.plain htxs) htaken, fun p hp => ?_⟩
      obtain ⟨b', hb', hcall, hmem⟩ := hback p hp
      exact ⟨b', List.mem_cons_of_mem _ hb', hcall, List.mem_cons_of_mem _ hmem⟩
    | true =>
      have hneed : needReceipts (b :: blocks) = b :: needReceipts blocks := by
        rw [needReceipts, List.filter_cons, htxs]
        rfl
      rw [hneed] at hlen ⊢
      cases results with
      | nil => exact absurd hlen.symm (Nat.succ_ne_zero _)
      | cons r results =>
        obtain ⟨htaken, hback⟩ := ih (Nat.succ.inj hlen)
        rw [List.map_cons, List.zip_cons_cons]
        refine ⟨.cons (.asked htxs List.mem_cons_self) (htaken.imp fun b b' h => ?_), fun p hp => ?_⟩
        · cases h with
          | plain htxs => exact .plain htxs
          | asked htxs hpair => exact .asked htxs (List.mem_cons_of_mem _ hpair)
        · rcases List.mem_cons.mp hp with rfl | hp
          · exact ⟨b, List.mem_cons_self, rfl, List.mem_cons_self⟩
          · obtain ⟨b', hb', hcall, hmem⟩ := hback p hp
            exact ⟨b', List.mem_cons_of_mem _ hb', hcall, List.mem_cons_of_mem _ hmem⟩

/-- The requests for the receipts of one block each: they never fail, and each is made for a block
that is short of them. -/
theorem fillReceipts_run (blocks : List RawBlock) (node : Node) (log : List Exchange) :
    ∃ filled exchanges, fillReceipts blocks node log = (.ok filled, log ++ exchanges) ∧
      List.Forall₂ (Filled exchanges) blocks filled ∧
      ∀ e ∈ exchanges, node.Made e ∧ ∃ b ∈ blocks, b.short = true ∧
        e.request = batchRequest ((txHashes b.block).map receiptCall) ∧
        { b with receipts := eachReceipt (txHashes b.block) e.results } ∈ filled := by
  induction blocks generalizing log with
  | nil =>
    refine ⟨[], [], ?_, .nil, fun e he => absurd he List.not_mem_nil⟩
    rw [List.append_nil]
    rfl
  | cons b blocks ih =>
    unfold fillReceipts
    cases hshort : b.short with
    | false =>
      obtain ⟨filled, exchanges, hrun, hfilled, hback⟩ := ih log
      refine ⟨b :: filled, exchanges, ?_, .cons (.whole hshort) hfilled, fun e he => ?_⟩
      · exact Rpc.bind_run hrun _
      · obtain ⟨hmade, b', hb', hs, hrequest, hmem⟩ := hback e he
        exact ⟨hmade, b', List.mem_cons_of_mem _ hb', hs, hrequest, List.mem_cons_of_mem _ hmem⟩
    | true =>
      let e := batchExchange node log ((txHashes b.block).map receiptCall)
      obtain ⟨filled, exchanges, hrun, hfilled, hback⟩ := ih (log ++ [e])
      have hasked : (batchCall ((txHashes b.block).map receiptCall)).attempt node log =
          (.ok e.results, log ++ [e]) := by
        rw [Rpc.attempt_run, batchCall_eq]
      refine ⟨{ b with receipts := eachReceipt (txHashes b.block) e.results } :: filled,
        e :: exchanges, ?_, .cons (.asked hshort List.mem_cons_self rfl) (hfilled.imp ?_), ?_⟩
      · rw [List.append_cons]
        exact (Rpc.bind_run hasked _).trans (Rpc.bind_run hrun _)
      · intro b b' h
        cases h with
        | whole hshort => exact .whole hshort
        | asked hshort he hrequest => exact .asked hshort (List.mem_cons_of_mem _ he) hrequest
      · intro e' he'
        rcases List.mem_cons.mp he' with rfl | he'
        · exact ⟨made_batchExchange _ _ _, b, List.mem_cons_self, hshort, rfl, List.mem_cons_self⟩
        · obtain ⟨hmade, b', hb', hs, hrequest, hmem⟩ := hback e' he'
          exact ⟨hmade, b', List.mem_cons_of_mem _ hb', hs, hrequest, List.mem_cons_of_mem _ hmem⟩

/-! ## Both requests -/

/-- A block after its receipts were asked for: what the batch answered, and else what the request for
its own receipts did. -/
inductive Fetched (exchanges : List Exchange) (b : RawBlock) : RawBlock → Prop
  | plain (htxs : hasTxs b.block = false) : Fetched exchanges b b
  | bulk {v : Json} (htxs : hasTxs b.block = true)
      (hanswered : Answered exchanges (receiptsCall b.number) (.ok v)) (hv : v.isNull = false) :
      Fetched exchanges b { b with receipts := some v }
  | single {e e' : Exchange} (htxs : hasTxs b.block = true) (he : e ∈ exchanges)
      (hasked : receiptsCall b.number ∈ e.request.calls)
      (hmissed : ∀ results, e.results = .ok results →
        ∃ r, (receiptsCall b.number, r) ∈ e.request.calls.zip results ∧ present r = none)
      (he' : e' ∈ exchanges)
      (hrequest : e'.request = batchRequest ((txHashes b.block).map receiptCall)) :
      Fetched exchanges b { b with receipts := eachReceipt (txHashes b.block) e'.results }

/-- What an exchange for receipts was made for, and what was taken from it. -/
inductive AskedFor (blocks fetched : List RawBlock) (e : Exchange) : Prop
  | bulk (hcalls : e.request.calls = (needReceipts blocks).map fun b => receiptsCall b.number)
      (htaken : ∀ results, e.results = .ok results → ∀ p ∈ e.request.calls.zip results,
        ∀ v, present p.2 = some v →
          ∃ b ∈ blocks, p.1 = receiptsCall b.number ∧ { b with receipts := some v } ∈ fetched)
  | single {b : RawBlock} (hb : b ∈ blocks)
      (hcalls : e.request.calls = (txHashes b.block).map receiptCall)
      (htaken : { b with receipts := eachReceipt (txHashes b.block) e.results } ∈ fetched)

theorem present_eq_some {r : Except RpcError Json} {v : Json} (h : present r = some v) :
    r = .ok v ∧ v.isNull = false := by
  cases r with
  | error e => exact absurd h nofun
  | ok w =>
    simp only [present] at h
    split_ifs at h with hnull
    obtain rfl := Option.some.inj h
    exact ⟨rfl, Bool.eq_false_of_not_eq_true hnull⟩

theorem short_of_none {b : RawBlock} (htxs : hasTxs b.block = true) (hnone : b.receipts = none) :
    b.short = true := by
  rw [RawBlock.short, htxs, hnone]
  rfl

theorem short_of_some {b : RawBlock} {v : Json} (hsome : b.receipts = some v) : b.short = false := by
  rw [RawBlock.short, hsome]
  exact Bool.and_false _

theorem short_of_plain {b : RawBlock} (htxs : hasTxs b.block = false) : b.short = false := by
  rw [RawBlock.short, htxs]
  rfl

theorem Filled.fetched {exchanges : List Exchange} {e : Exchange} {b b' : RawBlock}
    (hnone : b.receipts = none) (h : Filled exchanges b b')
    (hasked : hasTxs b.block = true → receiptsCall b.number ∈ e.request.calls)
    (hmissed : hasTxs b.block = true → ∀ results, e.results = .ok results →
      ∃ r, (receiptsCall b.number, r) ∈ e.request.calls.zip results ∧ present r = none) :
    Fetched (e :: exchanges) b b' := by
  cases htxs : hasTxs b.block with
  | false =>
    cases h with
    | whole hshort => exact .plain htxs
    | asked hshort he hrequest =>
      rw [short_of_plain htxs] at hshort
      exact absurd hshort nofun
  | true =>
    cases h with
    | whole hshort =>
      rw [short_of_none htxs hnone] at hshort
      exact absurd hshort nofun
    | asked hshort he hrequest =>
      exact .single htxs List.mem_cons_self (hasked htxs) (hmissed htxs)
        (List.mem_cons_of_mem _ he) hrequest

theorem Taken.fetched {exchanges : List Exchange} {e : Exchange}
    {results : List (Except RpcError Json)} (hresults : e.results = .ok results) {b b1 b' : RawBlock}
    (h : Taken (e.request.calls.zip results) b b1) (h' : Filled exchanges b1 b') :
    Fetched (e :: exchanges) b b' := by
  cases h with
  | plain htxs =>
    cases h' with
    | whole hshort => exact .plain htxs
    | asked hshort he hrequest =>
      rw [short_of_plain htxs] at hshort
      exact absurd hshort nofun
  | @asked r htxs hpair =>
    cases hr : present r with
    | some v =>
      rw [hr] at h'
      cases h' with
      | whole hshort =>
        obtain ⟨rfl, hv⟩ := present_eq_some hr
        exact .bulk htxs ⟨e, List.mem_cons_self, results, hresults, hpair⟩ hv
      | asked hshort he hrequest =>
        rw [short_of_some rfl] at hshort
        exact absurd hshort nofun
    | none =>
      rw [hr] at h'
      cases h' with
      | whole hshort =>
        have hshort' : ({ b with receipts := none } : RawBlock).short = true := short_of_none htxs rfl
        exact absurd (hshort.symm.trans hshort') nofun
      | asked hshort he hrequest =>
        refine .single htxs List.mem_cons_self (List.of_mem_zip hpair).1 (fun results' h => ?_)
          (List.mem_cons_of_mem _ he) hrequest
        obtain rfl := Except.ok.inj (hresults.symm.trans h)
        exact ⟨r, hpair, hr⟩

/-- **The receipts of the blocks found**: the fetch never fails, every block has been through both
requests, and everything that was asked was for one of them. -/
theorem fetchReceipts_run {blocks : List RawBlock} (hnone : ∀ b ∈ blocks, b.receipts = none)
    (node : Node) (log : List Exchange) :
    ∃ fetched exchanges,
      fetchReceipts blocks node log = (.ok (withoutMissingReceipts fetched), log ++ exchanges) ∧
        List.Forall₂ (Fetched exchanges) blocks fetched ∧
        ∀ e ∈ exchanges, node.Made e ∧ AskedFor blocks fetched e := by
  by_cases hneed : needReceipts blocks = []
  · have hplain : ∀ b ∈ blocks, hasTxs b.block = false := by
      intro b hb
      exact Bool.eq_false_of_not_eq_true (List.filter_eq_nil_iff.mp hneed b hb)
    refine ⟨blocks, [], ?_, List.forall₂_same.mpr fun b hb => .plain (hplain b hb),
      fun _ he => absurd he List.not_mem_nil⟩
    have hkept : withoutMissingReceipts blocks = blocks := by
      refine List.filter_eq_self.mpr fun b hb => ?_
      rw [hplain b hb]
      exact Bool.or_true _
    have hempty : (blocks.filter fun b => hasTxs b.block).isEmpty := List.isEmpty_iff.mpr hneed
    unfold fetchReceipts
    rw [if_pos hempty, hkept, List.append_nil]
    rfl
  · let e := batchExchange node log ((needReceipts blocks).map fun b => receiptsCall b.number)
    have hcalls : e.request.calls = (needReceipts blocks).map fun b => receiptsCall b.number :=
      calls_batchRequest _
    have hasked : (batchCall ((needReceipts blocks).map fun b => receiptsCall b.number)).attempt
        node log = (.ok e.results, log ++ [e]) := by
      rw [Rpc.attempt_run, batchCall_eq]
    have hfetch : ∀ {answered fetched : List RawBlock} {exchanges : List Exchange},
        (e.results.map (takeReceipts blocks)).toOption.getD blocks = answered →
        fillReceipts answered node (log ++ [e]) = (.ok fetched, log ++ [e] ++ exchanges) →
          fetchReceipts blocks node log =
            (.ok (withoutMissingReceipts fetched), log ++ (e :: exchanges)) := by
      rintro answered fetched exchanges rfl hfill
      have hempty : ¬(blocks.filter fun b => hasTxs b.block).isEmpty :=
        fun h => hneed (List.isEmpty_iff.mp h)
      unfold fetchReceipts
      rw [if_neg hempty, List.append_cons]
      refine (Rpc.bind_run hasked _).trans (Rpc.bind_run ?_ _)
      cases hresults : e.results with
      | ok results =>
        rw [hresults] at hfill
        exact hfill
      | error failure =>
        rw [hresults] at hfill
        exact hfill
    cases hresults : e.results with
    | error failure =>
      obtain ⟨fetched, exchanges, hfill, hfilled, hback⟩ := fillReceipts_run blocks node (log ++ [e])
      refine ⟨fetched, e :: exchanges, hfetch (by rw [hresults]; rfl) hfill, ?_, ?_⟩
      · have hblocks : ∀ b ∈ blocks, b.receipts = none ∧
            (hasTxs b.block = true → receiptsCall b.number ∈ e.request.calls) := by
          refine fun b hb => ⟨hnone b hb, fun htxs => ?_⟩
          rw [hcalls]
          exact List.mem_map.mpr ⟨b, List.mem_filter.mpr ⟨hb, htxs⟩, rfl⟩
        refine ((List.forall₂_and_left _ _).mpr ⟨hblocks, hfilled⟩).imp fun b b' h => ?_
        refine h.2.fetched h.1.1 h.1.2 fun _ results h => ?_
        rw [hresults] at h
        cases h
      · rw [List.forall_mem_cons]
        refine ⟨⟨made_batchExchange _ _ _, .bulk hcalls fun results h => ?_⟩, fun e' he' => ?_⟩
        · rw [hresults] at h
          cases h
        · obtain ⟨hmade, b, hb, -, hrequest, hmem⟩ := hback e' he'
          refine ⟨hmade, .single hb ?_ hmem⟩
          rw [hrequest, calls_batchRequest]
    | ok results =>
      have hlen : results.length = (needReceipts blocks).length := by
        rw [Exchange.length_results hresults, hcalls, List.length_map]
      obtain ⟨htaken, hpairs⟩ := takeReceipts_spec blocks hlen
      rw [← hcalls] at htaken hpairs
      obtain ⟨fetched, exchanges, hfill, hfilled, hback⟩ :=
        fillReceipts_run (takeReceipts blocks results) node (log ++ [e])
      refine ⟨fetched, e :: exchanges, hfetch (by rw [hresults]; rfl) hfill,
        htaken.comp hfilled (Taken.fetched hresults), ?_⟩
      rw [List.forall_mem_cons]
      refine ⟨⟨made_batchExchange _ _ _, .bulk hcalls fun results' h p hp v hv => ?_⟩,
        fun e' he' => ?_⟩
      · obtain rfl := Except.ok.inj (hresults.symm.trans h)
        obtain ⟨b, hb, hcall, hmem⟩ := hpairs p hp
        rw [hv] at hmem
        obtain ⟨b', hb', hfill'⟩ := hfilled.exists_right hmem
        cases hfill' with
        | whole hshort => exact ⟨b, hb, hcall, hb'⟩
        | asked hshort he hrequest =>
          have hwhole : ({ b with receipts := some v } : RawBlock).short = false := short_of_some rfl
          exact absurd (hwhole.symm.trans hshort) Bool.false_ne_true
      · obtain ⟨hmade, b1, hb1, -, hrequest, hmem⟩ := hback e' he'
        obtain ⟨b, hb, htake⟩ := htaken.exists_left hb1
        have hsame : b1.number = b.number ∧ b1.block = b.block := by
          cases htake <;> exact ⟨rfl, rfl⟩
        rw [hsame.1, hsame.2] at hmem
        refine ⟨hmade, .single hb ?_ hmem⟩
        rw [hrequest, calls_batchRequest, hsame.2]

/-! ## What was taken for a block's receipts -/

/-- **What was taken** for the receipts of a block whose transactions have these hashes: the answer
for the whole block, or the answers for each of them. -/
inductive Offered (exchanges : List Exchange) : List String → Json → Prop
  | bulk {n : ℕ} {block v : Json} (hblock : Answered exchanges (blockCall n) (.ok block))
      (hanswered : Answered exchanges (receiptsCall n) (.ok v)) (hv : v.isNull = false) :
      Offered exchanges (txHashes block) v
  | single {hashes : List String} {e : Exchange} {v : Json} (hne : hashes ≠ []) (he : e ∈ exchanges)
      (hcalls : e.request.calls = hashes.map receiptCall)
      (hv : eachReceipt hashes e.results = some v) : Offered exchanges hashes v

/-- Receipts for every hash: an array that has one with each. -/
def HoldsAll (hashes : List String) (receipts : Json) : Prop :=
  ∀ hash ∈ hashes, hash ≠ "" → ∃ items, receipts = .arr items ∧ ∃ r ∈ items, receiptHash r = some hash

theorem Offered.mono {exchanges exchanges' : List Exchange} {hashes : List String} {v : Json}
    (h : Offered exchanges hashes v) (hsub : exchanges ⊆ exchanges') : Offered exchanges' hashes v := by
  cases h with
  | bulk hblock hanswered hv => exact .bulk (hblock.mono hsub) (hanswered.mono hsub) hv
  | single hne he hcalls hv => exact .single hne (hsub he) hcalls hv

theorem not_answered_of_method {exchanges : List Exchange} {method : String}
    (h : ∀ e ∈ exchanges, ∀ c ∈ e.request.calls, c.method = method) {c : MethodCall}
    (hc : c.method ≠ method) {r : Except RpcError Json} : ¬Answered exchanges c r := by
  rintro ⟨e, he, results, -, hmem⟩
  exact hc (h e he c (List.of_mem_zip hmem).1)

theorem AskedFor.not_block {blocks fetched : List RawBlock} {e : Exchange}
    (h : AskedFor blocks fetched e) (n : ℕ) : blockCall n ∉ e.request.calls := by
  intro hmem
  cases h with
  | bulk hcalls htaken =>
    rw [hcalls] at hmem
    obtain ⟨b, -, hb⟩ := List.mem_map.mp hmem
    have hmethod : "eth_getBlockReceipts" = "eth_getBlockByNumber" := congrArg MethodCall.method hb
    exact absurd hmethod (by decide)
  | single hb hcalls htaken =>
    rw [hcalls] at hmem
    obtain ⟨hash, -, hhash⟩ := List.mem_map.mp hmem
    have hmethod : "eth_getTransactionReceipt" = "eth_getBlockByNumber" :=
      congrArg MethodCall.method hhash
    exact absurd hmethod (by decide)

/-- The receipts of a block are asked for in the batch only. -/
theorem AskedFor.calls_of_receiptsCall {blocks fetched : List RawBlock} {e : Exchange}
    (h : AskedFor blocks fetched e) {n : ℕ} (hmem : receiptsCall n ∈ e.request.calls) :
    e.request.calls = (needReceipts blocks).map fun b => receiptsCall b.number := by
  cases h with
  | bulk hcalls htaken => exact hcalls
  | single hb hcalls htaken =>
    rw [hcalls] at hmem
    obtain ⟨hash, -, hhash⟩ := List.mem_map.mp hmem
    have hmethod : "eth_getTransactionReceipt" = "eth_getBlockReceipts" :=
      congrArg MethodCall.method hhash
    exact absurd hmethod (by decide)

theorem AskedFor.of_receiptsCall {blocks fetched : List RawBlock} {e : Exchange}
    (h : AskedFor blocks fetched e) {n : ℕ} {r : Except RpcError Json}
    {results : List (Except RpcError Json)} (hresults : e.results = .ok results)
    (hmem : (receiptsCall n, r) ∈ e.request.calls.zip results) :
    (∃ b ∈ blocks, b.number = n) ∧ ∀ v, present r = some v →
      ∃ b ∈ blocks, b.number = n ∧ { b with receipts := some v } ∈ fetched := by
  have hcall := (List.of_mem_zip hmem).1
  have hcalls := h.calls_of_receiptsCall hcall
  refine ⟨?_, fun v hv => ?_⟩
  · rw [hcalls] at hcall
    obtain ⟨b, hb, heq⟩ := List.mem_map.mp hcall
    exact ⟨b, (List.mem_filter.mp hb).1, receiptsCall_injective heq⟩
  · cases h with
    | bulk _ htaken =>
      obtain ⟨b, hb, heq, hkept⟩ := htaken results hresults _ hmem v hv
      exact ⟨b, hb, (receiptsCall_injective heq).symm, hkept⟩
    | single hb hcalls' htaken =>
      rw [hcalls'] at hcall
      obtain ⟨hash, -, hhash⟩ := List.mem_map.mp hcall
      have hmethod : "eth_getTransactionReceipt" = "eth_getBlockReceipts" :=
        congrArg MethodCall.method hhash
      exact absurd hmethod (by decide)

theorem AskedFor.of_hashes {blocks fetched : List RawBlock} {e : Exchange}
    (h : AskedFor blocks fetched e) {hashes : List String} (hne : hashes ≠ [])
    (hcalls : e.request.calls = hashes.map receiptCall) :
    ∃ b ∈ blocks, txHashes b.block = hashes ∧
      { b with receipts := eachReceipt hashes e.results } ∈ fetched := by
  cases h with
  | bulk hcalls' htaken =>
    obtain ⟨hash, rest, rfl⟩ := List.exists_cons_of_ne_nil hne
    have hmem : receiptCall hash ∈ (needReceipts blocks).map fun b => receiptsCall b.number := by
      rw [← hcalls', hcalls]
      exact List.mem_cons_self
    obtain ⟨b, -, hb⟩ := List.mem_map.mp hmem
    have hmethod : "eth_getBlockReceipts" = "eth_getTransactionReceipt" :=
      congrArg MethodCall.method hb
    exact absurd hmethod (by decide)
  | @single b hb hcalls' htaken =>
    have hhashes : txHashes b.block = hashes :=
      List.map_injective_iff.mpr receiptCall_injective (hcalls'.symm.trans hcalls)
    rw [hhashes] at htaken
    exact ⟨b, hb, hhashes, htaken⟩

theorem method_of_blocks {e : Exchange} {nums : List ℕ} (hcalls : e.request.calls = nums.map blockCall)
    {c : MethodCall} (hc : c ∈ e.request.calls) : c.method = "eth_getBlockByNumber" := by
  rw [hcalls] at hc
  obtain ⟨n, -, rfl⟩ := List.mem_map.mp hc
  rfl

theorem not_hashes_of_blocks {e : Exchange} {nums : List ℕ}
    (hcalls : e.request.calls = nums.map blockCall) {hashes : List String} (hne : hashes ≠ []) :
    e.request.calls ≠ hashes.map receiptCall := by
  intro heq
  obtain ⟨hash, rest, rfl⟩ := List.exists_cons_of_ne_nil hne
  have hmem : receiptCall hash ∈ e.request.calls := by
    rw [heq]
    exact List.mem_cons_self
  have hmethod : "eth_getTransactionReceipt" = "eth_getBlockByNumber" := method_of_blocks hcalls hmem
  exact absurd hmethod (by decide)

theorem not_receipts_of_blocks {e : Exchange} {nums : List ℕ}
    (hcalls : e.request.calls = nums.map blockCall) (n : ℕ) : receiptsCall n ∉ e.request.calls := by
  intro hmem
  have hmethod : "eth_getBlockReceipts" = "eth_getBlockByNumber" := method_of_blocks hcalls hmem
  exact absurd hmethod (by decide)

/-- How a fetch stands to what it asked: the numbers, the receipts of every block kept, and a block
kept for everything taken. -/
structure Accounted (start stop : ℕ) (exchanges : List Exchange) (raws : List RawBlock) : Prop where
  blocks : ∀ n r, Answered exchanges (blockCall n) r → start ≤ n ∧ n ≤ stop
  receipts : ∀ n r, Answered exchanges (receiptsCall n) r → start ≤ n ∧ n ≤ stop
  kept : ∀ b ∈ raws, hasTxs b.block = true → txHashes b.block = [] ∨
    ∃ v, b.receipts = some v ∧ Offered exchanges (txHashes b.block) v
  taken : ∀ hashes v, Offered exchanges hashes v →
    ∃ b ∈ raws, txHashes b.block = hashes ∧ b.receipts = some v

theorem mem_foundBlocks {nums : List ℕ} {results : List (Except RpcError Json)} {b : RawBlock}
    (h : b ∈ foundBlocks nums results) :
    b.receipts = none ∧ (b.number, .ok b.block) ∈ nums.zip results := by
  obtain ⟨⟨n, r⟩, hp, hb⟩ := List.mem_filterMap.mp h
  obtain ⟨v, hv, rfl⟩ := Option.map_eq_some_iff.mp hb
  obtain ⟨rfl, -⟩ := present_eq_some hv
  exact ⟨rfl, hp⟩

/-- A range in one request. -/
theorem accounted_leaf {start stop : ℕ} {e : Exchange} {results : List (Except RpcError Json)}
    (hcalls : e.request.calls = (List.range' start (stop + 1 - start)).map blockCall)
    (hresults : e.results = .ok results) {fetched : List RawBlock} {exchanges : List Exchange}
    (hfetched : List.Forall₂ (Fetched exchanges)
      (foundBlocks (List.range' start (stop + 1 - start)) results) fetched)
    (hasked : ∀ e ∈ exchanges,
      AskedFor (foundBlocks (List.range' start (stop + 1 - start)) results) fetched e) :
    Accounted start stop (e :: exchanges) (withoutMissingReceipts fetched) := by
  let nums := List.range' start (stop + 1 - start)
  have hrange : ∀ n ∈ nums, start ≤ n ∧ n ≤ stop := by
    intro n hn
    have hmem := List.mem_range'_1.mp hn
    omega
  have hblock : ∀ n r, Answered (e :: exchanges) (blockCall n) r → (n, r) ∈ nums.zip results := by
    rintro n r ⟨e', he', results', hresults', hmem⟩
    rcases List.mem_cons.mp he' with rfl | he'
    · obtain rfl := Except.ok.inj (hresults.symm.trans hresults')
      rw [hcalls, List.zip_map_left] at hmem
      obtain ⟨⟨m, r'⟩, hm, heq⟩ := List.mem_map.mp hmem
      obtain ⟨hcall, rfl⟩ := Prod.mk.inj heq
      obtain rfl := blockCall_injective hcall
      exact hm
    · exact absurd (List.of_mem_zip hmem).1 ((hasked e' he').not_block n)
  have hbulk : ∀ n r, Answered (e :: exchanges) (receiptsCall n) r →
      (∃ b ∈ foundBlocks nums results, b.number = n) ∧ ∀ v, present r = some v →
        ∃ b ∈ foundBlocks nums results, b.number = n ∧ { b with receipts := some v } ∈ fetched := by
    rintro n r ⟨e', he', results', hresults', hmem⟩
    rcases List.mem_cons.mp he' with rfl | he'
    · exact absurd (List.of_mem_zip hmem).1 (not_receipts_of_blocks hcalls n)
    · exact (hasked e' he').of_receiptsCall hresults' hmem
  have hkept : ∀ {b : RawBlock} {v : Json}, { b with receipts := some v } ∈ fetched →
      { b with receipts := some v } ∈ withoutMissingReceipts fetched :=
    fun hmem => List.mem_filter.mpr ⟨hmem, rfl⟩
  refine ⟨fun n r h => ?_, fun n r h => ?_, fun b hb htxs => ?_, fun hashes v h => ?_⟩
  · exact hrange n (List.of_mem_zip (hblock n r h)).1
  · obtain ⟨⟨b, hb, rfl⟩, -⟩ := hbulk n r h
    exact hrange _ (List.of_mem_zip (mem_foundBlocks hb).2).1
  · obtain ⟨hmem, hthere⟩ := List.mem_filter.mp hb
    have hsome : b.receipts.isSome = true := by simpa [htxs] using hthere
    obtain ⟨b0, hb0, hfetch⟩ := hfetched.exists_left hmem
    cases hfetch with
    | plain hplain => exact absurd (hplain.symm.trans htxs) nofun
    | @bulk v _ hanswered hv =>
      refine .inr ⟨v, rfl, .bulk ?_ (hanswered.mono (List.subset_cons_self _ _)) hv⟩
      refine ⟨e, List.mem_cons_self, results, hresults, ?_⟩
      rw [hcalls, List.zip_map_left]
      exact List.mem_map.mpr ⟨_, (mem_foundBlocks hb0).2, rfl⟩
    | @single _ e' _ _ _ _ he' hrequest =>
      by_cases hne : txHashes b0.block = []
      · exact .inl hne
      · obtain ⟨v, hv⟩ := Option.isSome_iff_exists.mp hsome
        refine .inr ⟨v, hv, .single hne (List.mem_cons_of_mem _ he') ?_ hv⟩
        rw [hrequest, calls_batchRequest]
  · cases h with
    | @bulk n block _ hanswered hreceipts hv =>
      have hpresent : present (.ok v) = some v := by simp [present, hv]
      obtain ⟨b, hb, rfl, hmem⟩ := (hbulk n _ hreceipts).2 v hpresent
      have hsame := List.eq_of_mem_zip List.nodup_range' (hblock _ _ hanswered) (mem_foundBlocks hb).2
      rw [Except.ok.inj hsame]
      exact ⟨_, hkept hmem, rfl, rfl⟩
    | @single _ e' _ hne he' hcalls' hv =>
      rcases List.mem_cons.mp he' with rfl | he'
      · exact absurd hcalls' (not_hashes_of_blocks hcalls hne)
      · obtain ⟨b, hb, hhashes, hmem⟩ := (hasked e' he').of_hashes hne hcalls'
        rw [hv] at hmem
        exact ⟨_, hkept hmem, hhashes, rfl⟩

theorem accounted_nil (start stop : ℕ) : Accounted start stop [] [] := by
  have hnone : ∀ c r, ¬Answered [] c r := by
    rintro c r ⟨e, he, -⟩
    exact List.not_mem_nil he
  refine ⟨fun n r h => absurd h (hnone _ _), fun n r h => absurd h (hnone _ _),
    fun b hb => absurd hb List.not_mem_nil, fun hashes v h => ?_⟩
  cases h with
  | bulk hblock hanswered hv => exact absurd hblock (hnone _ _)
  | single hne he hcalls hv => exact absurd he List.not_mem_nil

/-- A range that was refused, and its halves. -/
theorem accounted_halves {start mid stop : ℕ} (hmid : start ≤ mid) (hstop : mid ≤ stop)
    {e : Exchange} {failure : Failure}
    (hcalls : e.request.calls = (List.range' start (stop + 1 - start)).map blockCall)
    (hresults : e.results = .error failure) {lowers uppers : List Exchange}
    {lower upper : List RawBlock} (hlower : Accounted start mid lowers lower)
    (hupper : Accounted (mid + 1) stop uppers upper) :
    Accounted start stop (e :: (lowers ++ uppers)) (lower ++ upper) := by
  have hsplit : ∀ {c r}, Answered (e :: (lowers ++ uppers)) c r →
      Answered lowers c r ∨ Answered uppers c r := by
    rintro c r ⟨e', he', results, hresults', hmem⟩
    rcases List.mem_cons.mp he' with rfl | he'
    · exact absurd (hresults.symm.trans hresults') nofun
    · exact answered_append.mp ⟨e', he', results, hresults', hmem⟩
  have hleft : lowers ⊆ e :: (lowers ++ uppers) := fun e' he' =>
    List.mem_cons_of_mem _ (List.mem_append_left _ he')
  have hright : uppers ⊆ e :: (lowers ++ uppers) := fun e' he' =>
    List.mem_cons_of_mem _ (List.mem_append_right _ he')
  refine ⟨fun n r h => ?_, fun n r h => ?_, fun b hb htxs => ?_, fun hashes v h => ?_⟩
  · rcases hsplit h with h | h
    · have := hlower.blocks n r h
      omega
    · have := hupper.blocks n r h
      omega
  · rcases hsplit h with h | h
    · have := hlower.receipts n r h
      omega
    · have := hupper.receipts n r h
      omega
  · rcases List.mem_append.mp hb with hb | hb
    · exact (hlower.kept b hb htxs).imp_right fun ⟨v, hv, hoffered⟩ => ⟨v, hv, hoffered.mono hleft⟩
    · exact (hupper.kept b hb htxs).imp_right fun ⟨v, hv, hoffered⟩ => ⟨v, hv, hoffered.mono hright⟩
  · -- What was taken was asked for in one half.
    have hhalf : Offered lowers hashes v ∨ Offered uppers hashes v := by
      cases h with
      | @bulk n block _ hblock hanswered hv =>
        rcases hsplit hblock with hb | hb <;> rcases hsplit hanswered with ha | ha
        · exact .inl (.bulk hb ha hv)
        · have h1 := hlower.blocks n _ hb
          have h2 := hupper.receipts n _ ha
          omega
        · have h1 := hupper.blocks n _ hb
          have h2 := hlower.receipts n _ ha
          omega
        · exact .inr (.bulk hb ha hv)
      | @single _ e' _ hne he' hcalls' hv =>
        rcases List.mem_cons.mp he' with rfl | he'
        · exact absurd hcalls' (not_hashes_of_blocks hcalls hne)
        · rcases List.mem_append.mp he' with he' | he'
          · exact .inl (.single hne he' hcalls' hv)
          · exact .inr (.single hne he' hcalls' hv)
    rcases hhalf with h | h
    · obtain ⟨b, hb, hrest⟩ := hlower.taken hashes v h
      exact ⟨b, List.mem_append_left _ hb, hrest⟩
    · obtain ⟨b, hb, hrest⟩ := hupper.taken hashes v h
      exact ⟨b, List.mem_append_right _ hb, hrest⟩

theorem fetchRawBlocks_accounted {start stop : ℕ} {node : Node} {log log' : List Exchange}
    {raws : List RawBlock} (h : fetchRawBlocks start stop node log = (.ok raws, log')) :
    ∃ exchanges, log' = log ++ exchanges ∧ Accounted start stop exchanges raws := by
  induction hn : stop - start using Nat.strong_induction_on
    generalizing start stop log log' raws with
  | _ n ih =>
    have hcalls : (blocksExchange node log start stop).request.calls =
        (List.range' start (stop + 1 - start)).map blockCall := calls_batchRequest _
    rcases fetchRawBlocks_ok h with ⟨-, rfl, rfl⟩ | ⟨-, results, hresults, hrest⟩ |
      ⟨hlt, failure, lower, upper, log1, hresults, hlower, hupper, rfl⟩
    · exact ⟨[], (List.append_nil _).symm, accounted_nil start stop⟩
    · have hnone : ∀ b ∈ foundBlocks (List.range' start (stop + 1 - start)) results,
          b.receipts = none := fun b hb => (mem_foundBlocks hb).1
      obtain ⟨fetched, exchanges, hrun, hfetched, hasked⟩ := fetchReceipts_run hnone node
        (log ++ [blocksExchange node log start stop])
      obtain ⟨hraws, hlog⟩ := Prod.mk.inj (hrest.symm.trans hrun)
      rw [Except.ok.inj hraws]
      refine ⟨blocksExchange node log start stop :: exchanges, ?_,
        accounted_leaf hcalls hresults hfetched fun e he => (hasked e he).2⟩
      rw [hlog]
      exact (List.append_cons _ _ _).symm
    · obtain ⟨lowers, rfl, hl⟩ := ih _ (by omega) hlower rfl
      obtain ⟨uppers, rfl, hu⟩ := ih _ (by omega) hupper rfl
      refine ⟨blocksExchange node log start stop :: (lowers ++ uppers), ?_,
        accounted_halves (by omega) (by omega) hcalls hresults hl hu⟩
      simp only [List.append_assoc, List.cons_append, List.nil_append]

/-! ## Bundles -/

theorem offered_views {exchanges views : List Exchange}
    (hviews : ∀ e ∈ views, ∀ c ∈ e.request.calls, c.method = "eth_call") {hashes : List String}
    {v : Json} : Offered (exchanges ++ views) hashes v ↔ Offered exchanges hashes v := by
  refine ⟨fun h => ?_, fun h => h.mono (List.subset_append_left _ _)⟩
  have hleft : ∀ {c r}, c.method ≠ "eth_call" → Answered (exchanges ++ views) c r →
      Answered exchanges c r := fun hc h =>
    (answered_append.mp h).resolve_right (not_answered_of_method hviews hc)
  cases h with
  | bulk hblock hanswered hv =>
    have hblocks : "eth_getBlockByNumber" ≠ "eth_call" := by decide
    have hreceipts : "eth_getBlockReceipts" ≠ "eth_call" := by decide
    exact .bulk (hleft hblocks hblock) (hleft hreceipts hanswered) hv
  | @single _ e _ hne he hcalls hv =>
    rcases List.mem_append.mp he with he | he
    · exact .single hne he hcalls hv
    · obtain ⟨hash, rest, rfl⟩ := List.exists_cons_of_ne_nil hne
      have hmethod : "eth_getTransactionReceipt" = "eth_call" := by
        refine hviews e he (receiptCall hash) ?_
        rw [hcalls]
        exact List.mem_cons_self
      exact absurd hmethod (by decide)

theorem hasTxs_of_hash {block : Json} {hash : String} (h : hash ∈ txHashes block) :
    hasTxs block = true := by
  obtain ⟨t, ht, -⟩ := List.mem_filterMap.mp h
  rw [hasTxs, Bool.not_eq_true', List.isEmpty_eq_false_iff_exists_mem]
  exact ⟨t, ht⟩

section Keccak

variable [Keccak] [Codec]

/-- A transaction was given its own receipt, which was taken from what the node answered. -/
def HasReceipt (exchanges : List Exchange) (tx : Transaction) : Prop :=
  ∃ hashes items r, Offered exchanges hashes (.arr items) ∧ r ∈ items ∧
    receiptHash r = some tx.hash ∧ tx.receiptData = some (Codec.jsonText r)

/-- **A range's bundles**: its blocks, assembled with what was taken for their receipts, and then
requests for metadata. -/
theorem fetchBlockBundles_run {ch : ℕ → Choices} {known new : Finset String} {start stop : ℕ}
    {node : Node} {log log' : List Exchange} {bundles : List BlockBundle}
    (h : fetchBlockBundles ch known start stop node log = (.ok (some (bundles, new)), log')) :
    ∃ raws assembled exchanges views, assemble raws = some assembled ∧
      log' = log ++ (exchanges ++ views) ∧ Accounted start stop exchanges raws ∧
      bundles.map BlockBundle.bare = assembled.map BlockBundle.bare ∧
      ∀ e ∈ views, ∀ c ∈ e.request.calls, c.method = "eth_call" := by
  obtain ⟨raws, log1, hraws, hrest⟩ := Rpc.bind_ok h
  obtain ⟨exchanges, rfl, haccounted⟩ := fetchRawBlocks_accounted hraws
  cases hassemble : assemble raws with
  | none =>
    rw [hassemble] at hrest
    exact absurd (Except.ok.inj (Prod.mk.inj hrest).1) nofun
  | some assembled =>
  rw [hassemble] at hrest
  obtain ⟨attached, log2, hattach, hresult⟩ := Rpc.bind_ok hrest
  obtain ⟨hattached, rfl⟩ := Prod.mk.inj hresult
  obtain rfl := Option.some.inj (Except.ok.inj hattached)
  unfold attachTokenMetadata at hattach
  split_ifs at hattach
  · obtain ⟨hbundles, hlog⟩ := Prod.mk.inj hattach
    rw [← (Prod.mk.inj (Except.ok.inj hbundles)).1]
    refine ⟨raws, assembled, exchanges, [], hassemble, ?_, haccounted, rfl, nofun⟩
    rw [List.append_nil]
    exact hlog.symm
  · have hbare := describeTokens_bare (congrArg Prod.fst hattach)
    obtain ⟨views, hlog, hmethod⟩ := fetchTokenMetadata_log
      ((ch 0).order (tokensToFetch assembled known)) node (log ++ exchanges)
    refine ⟨raws, assembled, exchanges, views, hassemble, ?_, haccounted, hbare, hmethod⟩
    rw [← List.append_assoc, ← hlog]
    rcases describeTokens_run ch (tokensToFetch assembled known) assembled node
      (log ++ exchanges) with ⟨metas, log2, hmetas, hrun⟩ | ⟨e, log2, hmetas, hrun⟩
    · rw [hmetas]
      exact (congrArg Prod.snd (hattach.symm.trans hrun) :)
    · rw [hmetas]
      exact (congrArg Prod.snd (hattach.symm.trans hrun) :)

/-- **Receipts are complete exactly when what was taken for them was**: every transaction of every
bundle has its own receipt if and only if whatever the node gave for a block's receipts has one for
each of its transactions' hashes. -/
theorem fetchBlockBundles_receipts {ch : ℕ → Choices} {known new : Finset String} {start stop : ℕ}
    {node : Node} {log log' : List Exchange} {bundles : List BlockBundle}
    (h : fetchBlockBundles ch known start stop node log = (.ok (some (bundles, new)), log')) :
    ∃ exchanges, log' = log ++ exchanges ∧
      ((∀ bundle ∈ bundles, ∀ tx ∈ bundle.txs, HasReceipt exchanges tx) ↔
        ∀ hashes receipts, Offered exchanges hashes receipts → HoldsAll hashes receipts) := by
  obtain ⟨raws, assembled, exchanges, views, hassemble, hlog, haccounted, hbare, hviews⟩ :=
    fetchBlockBundles_run h
  have hsome := Fallible.isSome_mapM_iff.mp (Option.isSome_iff_exists.mpr ⟨_, hassemble⟩)
  refine ⟨exchanges ++ views, hlog, fun hall hashes v hoffered hash hhash hne => ?_,
    fun hall bundle hbundle tx htx => ?_⟩
  · obtain ⟨b, hb, rfl, hreceipts⟩ := haccounted.taken hashes v ((offered_views hviews).mp hoffered)
    obtain ⟨plain, hplain⟩ := Option.isSome_iff_exists.mp (hsome b hb)
    obtain ⟨hassembled, hhashes, -⟩ := assembleBundle_holds hplain
    -- The bundle of the block, and in it the transaction of the hash.
    have hmem : plain.bare ∈ bundles.map BlockBundle.bare := by
      rw [hbare]
      exact List.mem_map.mpr ⟨plain, (Fallible.mem_of_mapM hassemble plain).mpr ⟨b, hb, hplain⟩, rfl⟩
    obtain ⟨bundle, hbundle, hsame⟩ := List.mem_map.mp hmem
    have htxs : bundle.txs = plain.txs := (congrArg BlockBundle.txs hsame :)
    have hin : hash ∈ plain.txs.map Transaction.hash := by
      rw [hhashes]
      exact List.mem_filter.mpr ⟨hhash, by simpa using hne⟩
    obtain ⟨tx, htx, rfl⟩ := List.mem_map.mp hin
    obtain ⟨-, -, r, -, -, -, hdata⟩ := hall bundle hbundle tx (htxs ▸ htx)
    have hdata' := (hassembled tx htx).receiptData.symm.trans hdata
    obtain ⟨r', hr', -⟩ := Option.map_eq_some_iff.mp hdata'
    obtain ⟨items, hitems, hr, hsays⟩ := receiptByHash_some hr'
    rw [hreceipts] at hitems
    exact ⟨items, Option.some.inj hitems, r', hr, hsays⟩
  · have hmem : bundle.bare ∈ assembled.map BlockBundle.bare := by
      rw [← hbare]
      exact List.mem_map.mpr ⟨bundle, hbundle, rfl⟩
    obtain ⟨plain, hin, hsame⟩ := List.mem_map.mp hmem
    obtain ⟨b, hb, hplain⟩ := (Fallible.mem_of_mapM hassemble plain).mp hin
    obtain ⟨hassembled, hhashes, -⟩ := assembleBundle_holds hplain
    have htxs : plain.txs = bundle.txs := (congrArg BlockBundle.txs hsame :)
    rw [← htxs] at htx
    have hin : tx.hash ∈ (txHashes b.block).filter fun h => !h.isEmpty := by
      rw [← hhashes]
      exact List.mem_map.mpr ⟨tx, htx, rfl⟩
    obtain ⟨hhash, hne⟩ := List.mem_filter.mp hin
    obtain ⟨v, hv, hoffered⟩ : ∃ v, b.receipts = some v ∧
        Offered exchanges (txHashes b.block) v := by
      refine (haccounted.kept b hb (hasTxs_of_hash hhash)).resolve_left fun hnil => ?_
      rw [hnil] at hhash
      exact absurd hhash List.not_mem_nil
    have hoffered' := (offered_views hviews).mpr hoffered
    obtain ⟨items, rfl, r, hr, hsays⟩ := hall _ v hoffered' tx.hash hhash (by simpa using hne)
    cases hfound : receiptByHash b.receipts tx.hash with
    | none => exact absurd hsays (receiptByHash_none hfound hv hr)
    | some r' =>
      obtain ⟨items', hitems', hr', hsays'⟩ := receiptByHash_some hfound
      obtain rfl := Json.arr.inj (Option.some.inj (hv.symm.trans hitems'))
      refine ⟨_, items, r', hoffered', hr', hsays', ?_⟩
      rw [(hassembled tx htx).receiptData, hfound]
      rfl

end Keccak

/-! ## Receipts in full, and an empty array of them -/

section Sample

attribute [local instance] Keccak.sponge Codec.bare

def pairBlock : Json → Json
  | .str number => .obj [("number", .str number), ("transactions", .arr
      [.obj [("hash", .str (number ++ "a"))], .obj [("hash", .str (number ++ "b"))]])]
  | _ => .null

def hashReceipt (hash : String) : Json := .obj [("transactionHash", .str hash)]

def pairReceipts : Json → List Json
  | .str number => [hashReceipt (number ++ "a"), hashReceipt (number ++ "b")]
  | _ => []

/-- Blocks of two transactions: the receipts of block 5 come at once, others one by one. -/
def pairAnswers (c : MethodCall) : Json :=
  match c with
  | ⟨"eth_getBlockByNumber", .arr (number :: _)⟩ => pairBlock number
  | ⟨"eth_getBlockReceipts", .arr [.str "0x5"]⟩ => .arr (pairReceipts (.str "0x5"))
  | ⟨"eth_getTransactionReceipt", .arr [.str hash]⟩ => hashReceipt hash
  | _ => .null

def loneBlock : Json :=
  .obj [("number", .str "0x5"), ("transactions", .arr [.obj [("hash", .str "0xaa")]])]

/-- A block of one transaction, whose receipts are an empty array. -/
def emptyAnswers (c : MethodCall) : Json :=
  match c.method with
  | "eth_getBlockByNumber" => loneBlock
  | "eth_getBlockReceipts" => .arr []
  | _ => .null

theorem fetchBlockBundles_plain {start stop : ℕ} {node : Node} {log : List Exchange}
    {raws : List RawBlock} {bundles : List BlockBundle}
    (hraws : fetchRawBlocks start stop node [] = (.ok raws, log))
    (hbundles : assemble raws = some bundles) (hplain : tokensToFetch bundles ∅ = []) :
    fetchBlockBundles (fun _ => .plain) ∅ start stop node [] = (.ok (some (bundles, ∅)), log) := by
  refine (Rpc.bind_run hraws _).trans ?_
  have hwanted : (tokensToFetch bundles ∅).isEmpty := List.isEmpty_iff.mpr hplain
  simp only [hbundles, attachTokenMetadata, if_pos hwanted]
  rfl

theorem fetchRawBlocks_pair : ∃ log, fetchRawBlocks 5 6 (answeringNode pairAnswers) [] =
    (.ok [⟨5, pairBlock (.str "0x5"), some (.arr (pairReceipts (.str "0x5")))⟩,
      ⟨6, pairBlock (.str "0x6"), some (.arr (pairReceipts (.str "0x6")))⟩], log) := by
  rw [fetchRawBlocks]
  exact ⟨_, rfl⟩

/-- **Every receipt of both blocks** is applied. -/
theorem fetchBlockBundles_receipts_one :
    ∃ bundles log' exchanges, bundles.map (fun b => b.txs.map Transaction.hash) =
        [["0x5a", "0x5b"], ["0x6a", "0x6b"]] ∧
      fetchBlockBundles (fun _ => .plain) ∅ 5 6 (answeringNode pairAnswers) [] =
        (.ok (some (bundles, ∅)), log') ∧
      log' = [] ++ exchanges ∧
      ((∀ bundle ∈ bundles, ∀ tx ∈ bundle.txs, HasReceipt exchanges tx) ↔
        ∀ hashes receipts, Offered exchanges hashes receipts → HoldsAll hashes receipts) := by
  obtain ⟨log', hraws⟩ := fetchRawBlocks_pair
  have hrun := fetchBlockBundles_plain hraws rfl rfl
  obtain ⟨exchanges, hlog, hiff⟩ := fetchBlockBundles_receipts hrun
  exact ⟨_, log', exchanges, rfl, hrun, hlog, hiff⟩

/-- **An empty array** is taken for the receipts of a block with a transaction, and its bundle is
returned without any. -/
theorem fetchBlockBundles_short : ¬ ∀ (ch : ℕ → Choices) (known new : Finset String) (start stop : ℕ)
    (node : Node) (log log' : List Exchange) (bundles : List BlockBundle),
    fetchBlockBundles ch known start stop node log = (.ok (some (bundles, new)), log') →
      ∀ bundle ∈ bundles, ∀ tx ∈ bundle.txs,
        ∃ r, receiptHash r = some tx.hash ∧ tx.receiptData = some (Codec.jsonText r) := by
  intro hall
  obtain ⟨log', hraws⟩ : ∃ log', fetchRawBlocks 5 5 (answeringNode emptyAnswers) [] =
      (.ok [⟨5, loneBlock, some (.arr [])⟩], log') := by
    rw [fetchRawBlocks]
    exact ⟨_, rfl⟩
  obtain ⟨bundle, hbundle, hplain, tx, htx, hnone⟩ : ∃ bundle,
      assemble [⟨5, loneBlock, some (.arr [])⟩] = some [bundle] ∧
        tokensToFetch [bundle] ∅ = [] ∧ ∃ tx, bundle.txs = [tx] ∧ tx.receiptData = none :=
    ⟨_, rfl, rfl, _, rfl, rfl⟩
  have hrun := fetchBlockBundles_plain hraws hbundle hplain
  obtain ⟨r, -, hdata⟩ := hall _ _ _ _ _ _ _ _ _ hrun bundle List.mem_cons_self tx
    (htx ▸ List.mem_cons_self)
  rw [hnone] at hdata
  exact Option.some_ne_none _ hdata.symm

end Sample

end ChainExplorer
