import ChainExplorer.Indexer.Receipts
import ChainExplorer.Lib.Windows

/-!
# A fetch whose requests are refused

What a range comes back as from a node that has all of it and answers right, but may refuse any
request of several calls.

* `ServedChain`, `ServedChain.Right`: what the node has, and the right answers about it.
* `Recovered`: the blocks in order, each with all its receipts; one that is left out lost its receipts
  to two refusals.
* **`fetchRawBlocks_served`**: the fetch succeeds and its range is recovered;
  **`fetchRawBlocks_loses`**: a block can be left out.
-/

namespace ChainExplorer

/-- The blocks, their receipts and the receipts of their transactions. -/
structure ServedChain where
  block : ℕ → Json
  receipts : ℕ → List Json
  receipt : String → Json

namespace ServedChain

/-- **A range is whole**: its blocks are there, every transaction has a hash, and every hash has its
receipt, in the block's and by itself. -/
structure Whole (chain : ServedChain) (start stop : ℕ) : Prop where
  present : ∀ n, start ≤ n → n ≤ stop → (chain.block n).isNull = false
  hashed : ∀ n, start ≤ n → n ≤ stop → ∀ t ∈ (chain.block n).arrayField "transactions",
    ∃ hash, (t.get "hash").bind Json.asStr = some hash
  receipts : ∀ n, start ≤ n → n ≤ stop → ∀ hash ∈ txHashes (chain.block n),
    ∃ r ∈ chain.receipts n, receiptHash r = some hash
  receipt : ∀ n, start ≤ n → n ≤ stop → ∀ hash ∈ txHashes (chain.block n),
    (chain.receipt hash).isNull = false ∧ receiptHash (chain.receipt hash) = some hash

/-- **The right answers** about a range. -/
inductive Right (chain : ServedChain) (start stop : ℕ) : MethodCall → Json → Prop
  | block {n : ℕ} (hstart : start ≤ n) (hstop : n ≤ stop) :
    Right chain start stop (blockCall n) (chain.block n)
  | receipts {n : ℕ} (hstart : start ≤ n) (hstop : n ≤ stop) :
    Right chain start stop (receiptsCall n) (.arr (chain.receipts n))
  | receipt {n : ℕ} {hash : String} (hstart : start ≤ n) (hstop : n ≤ stop)
      (hhash : hash ∈ txHashes (chain.block n)) :
    Right chain start stop (receiptCall hash) (chain.receipt hash)

end ServedChain

/-- Receipts of all of a block's transactions. -/
def RawBlock.Complete (b : RawBlock) : Prop :=
  ∃ items, b.receipts = some (.arr items) ∧
    ∀ hash ∈ txHashes b.block, ∃ r ∈ items, receiptHash r = some hash

/-- A block lost its receipts to two refusals: of the batch for several blocks, and of the one for
its own transactions, which are several. -/
structure LeftOut (chain : ServedChain) (exchanges : List Exchange) (n : ℕ) : Prop where
  several : 2 ≤ (txHashes (chain.block n)).length
  batch : ∃ e ∈ exchanges, receiptsCall n ∈ e.request.calls ∧ 2 ≤ e.request.calls.length ∧ e.Refused
  single : ∃ e ∈ exchanges, e.request.calls = (txHashes (chain.block n)).map receiptCall ∧ e.Refused

/-- **A range is recovered**: in ascending order and each at most once, blocks of the chain with all
their receipts, and all of the range but those left out. -/
structure Recovered (chain : ServedChain) (start stop : ℕ) (exchanges : List Exchange)
    (raws : List RawBlock) : Prop where
  ordered : (raws.map RawBlock.number).Sublist (List.range' start (stop + 1 - start))
  blocks : ∀ b ∈ raws, b.block = chain.block b.number
  receipts : ∀ b ∈ raws, hasTxs b.block = true → b.Complete
  missing : ∀ n, start ≤ n → n ≤ stop → n ∉ raws.map RawBlock.number → LeftOut chain exchanges n

theorem LeftOut.mono {chain : ServedChain} {exchanges exchanges' : List Exchange} {n : ℕ}
    (h : LeftOut chain exchanges n) (hsub : exchanges ⊆ exchanges') : LeftOut chain exchanges' n := by
  obtain ⟨e, he, hbatch⟩ := h.batch
  obtain ⟨e', he', hsingle⟩ := h.single
  exact ⟨h.several, ⟨e, hsub he, hbatch⟩, ⟨e', hsub he', hsingle⟩⟩

section Leaf

variable {chain : ServedChain} {start stop : ℕ}

theorem Right.of_receiptsCall {n : ℕ} {v : Json}
    (h : chain.Right start stop (receiptsCall n) v) : v = .arr (chain.receipts n) := by
  generalize hc : receiptsCall n = c at h
  cases h with
  | block _ _ =>
    have hmethod : "eth_getBlockReceipts" = "eth_getBlockByNumber" := congrArg MethodCall.method hc
    exact absurd hmethod (by decide)
  | receipts _ _ => rw [receiptsCall_injective hc]
  | receipt _ _ _ =>
    have hmethod : "eth_getBlockReceipts" = "eth_getTransactionReceipt" :=
      congrArg MethodCall.method hc
    exact absurd hmethod (by decide)

theorem ServedChain.Whole.hashes_ne_nil (hchain : chain.Whole start stop) {n : ℕ} (hstart : start ≤ n)
    (hstop : n ≤ stop) (htxs : hasTxs (chain.block n) = true) : txHashes (chain.block n) ≠ [] := by
  rw [hasTxs, Bool.not_eq_true', List.isEmpty_eq_false_iff_exists_mem] at htxs
  obtain ⟨t, ht⟩ := htxs
  obtain ⟨hash, hhash⟩ := hchain.hashed n hstart hstop t ht
  exact List.ne_nil_of_mem (List.mem_filterMap.mpr ⟨t, ht, hhash⟩)

theorem foundBlocks_served (hchain : chain.Whole start stop) :
    foundBlocks (List.range' start (stop + 1 - start))
        (((List.range' start (stop + 1 - start)).map chain.block).map .ok) =
      (List.range' start (stop + 1 - start)).map fun n => ⟨n, chain.block n, none⟩ := by
  have hrange : ∀ n ∈ List.range' start (stop + 1 - start), (chain.block n).isNull = false := by
    intro n hn
    have hmem := List.mem_range'_1.mp hn
    exact hchain.present n hmem.1 (by omega)
  generalize List.range' start (stop + 1 - start) = nums at hrange
  induction nums with
  | nil => rfl
  | cons n nums ih =>
    rw [List.forall_mem_cons] at hrange
    have hpresent : present (.ok (chain.block n)) = some (chain.block n) := by
      simp [present, hrange.1]
    rw [foundBlocks, List.map_cons, List.map_cons, List.zip_cons_cons, List.filterMap_cons]
    simp only [hpresent, Option.map_some]
    rw [List.map_cons]
    exact congrArg _ (ih hrange.2)

/-- The blocks of a range, before any receipts. -/
def rangeBlocks (chain : ServedChain) (start stop : ℕ) : List RawBlock :=
  (List.range' start (stop + 1 - start)).map fun n => ⟨n, chain.block n, none⟩

theorem mem_rangeBlocks {b : RawBlock} (hb : b ∈ rangeBlocks chain start stop) :
    b = ⟨b.number, chain.block b.number, none⟩ ∧ start ≤ b.number ∧ b.number ≤ stop := by
  obtain ⟨n, hn, rfl⟩ := List.mem_map.mp hb
  have hmem := List.mem_range'_1.mp hn
  refine ⟨rfl, hmem.1, ?_⟩
  show n ≤ stop
  omega

/-- The batch of receipts: right, or refused if it is for several blocks. -/
theorem batch_results {node : Node} (hnode : node.Serves (chain.Right start stop))
    {fetched : List RawBlock} {e : Exchange} (hmade : node.Made e)
    (hasked : AskedFor (rangeBlocks chain start stop) fetched e) {n : ℕ}
    (hmem : receiptsCall n ∈ e.request.calls) :
    (∃ results, e.results = .ok results ∧ ∀ r, (receiptsCall n, r) ∈ e.request.calls.zip results →
        r = .ok (.arr (chain.receipts n))) ∨
      2 ≤ e.request.calls.length ∧ e.Refused := by
  have hcalls := hasked.calls_of_receiptsCall hmem
  have hright : List.Forall₂ (chain.Right start stop) e.request.calls
      ((needReceipts (rangeBlocks chain start stop)).map fun b => .arr (chain.receipts b.number)) := by
    rw [hcalls, List.forall₂_map_left_iff, List.forall₂_map_right_iff]
    refine List.forall₂_same.mpr fun b hb => ?_
    obtain ⟨-, hstart, hstop⟩ := mem_rangeBlocks (List.mem_filter.mp hb).1
    exact .receipts hstart hstop
  refine (hnode.results hright (List.ne_nil_of_mem hmem) hmade rfl).imp_left fun hresults => ?_
  refine ⟨_, hresults, fun r hr => ?_⟩
  rw [List.zip_map_right] at hr
  obtain ⟨⟨c, v⟩, hv, heq⟩ := List.mem_map.mp hr
  obtain ⟨rfl, rfl⟩ := Prod.mk.inj heq
  rw [Right.of_receiptsCall (List.forall₂_zip hright hv)]

theorem mapM_present {vs : List Json} (h : ∀ v ∈ vs, v.isNull = false) :
    (vs.map Except.ok).mapM present = some vs := by
  induction vs with
  | nil => rfl
  | cons v vs ih =>
    rw [List.forall_mem_cons] at h
    have hpresent : present (.ok v) = some v := by simp [present, h.1]
    rw [List.map_cons, List.mapM_cons, hpresent, ih h.2]
    rfl

/-- The request for a block's own receipts: all of them, or refused if they are several. -/
theorem single_results (hchain : chain.Whole start stop) {node : Node}
    (hnode : node.Serves (chain.Right start stop)) {e : Exchange} (hmade : node.Made e) {n : ℕ}
    (hstart : start ≤ n) (hstop : n ≤ stop) (htxs : hasTxs (chain.block n) = true)
    (hcalls : e.request.calls = (txHashes (chain.block n)).map receiptCall) :
    eachReceipt (txHashes (chain.block n)) e.results =
        some (.arr ((txHashes (chain.block n)).map chain.receipt)) ∨
      2 ≤ (txHashes (chain.block n)).length ∧ e.Refused := by
  have hright : List.Forall₂ (chain.Right start stop) ((txHashes (chain.block n)).map receiptCall)
      ((txHashes (chain.block n)).map chain.receipt) := by
    rw [List.forall₂_map_left_iff, List.forall₂_map_right_iff]
    exact List.forall₂_same.mpr fun hash hhash => .receipt hstart hstop hhash
  have hne : (txHashes (chain.block n)).map receiptCall ≠ [] := by
    rw [ne_eq, List.map_eq_nil_iff]
    exact hchain.hashes_ne_nil hstart hstop htxs
  rcases hnode.results hright hne hmade hcalls with hresults | ⟨hlen, hrefused⟩
  · left
    have hthere : ∀ v ∈ (txHashes (chain.block n)).map chain.receipt, v.isNull = false := by
      intro v hv
      obtain ⟨hash, hhash, rfl⟩ := List.mem_map.mp hv
      exact (hchain.receipt n hstart hstop hash hhash).1
    rw [hresults]
    simp only [eachReceipt, List.length_map, if_true, mapM_present hthere, Option.map_some]
  · right
    rw [List.length_map] at hlen
    exact ⟨hlen, hrefused⟩

theorem Fetched.served (hchain : chain.Whole start stop) {node : Node}
    (hnode : node.Serves (chain.Right start stop)) {exchanges : List Exchange}
    {fetched : List RawBlock}
    (hasked : ∀ e ∈ exchanges, node.Made e ∧ AskedFor (rangeBlocks chain start stop) fetched e)
    {b b' : RawBlock} (hb : b ∈ rangeBlocks chain start stop) (h : Fetched exchanges b b') :
    b'.number = b.number ∧ b'.block = chain.block b.number ∧
      (hasTxs b'.block = false ∨ b'.Complete ∨
        b'.receipts = none ∧ LeftOut chain exchanges b.number) := by
  obtain ⟨hsame, hstart, hstop⟩ := mem_rangeBlocks hb
  have hblock : b.block = chain.block b.number := congrArg RawBlock.block hsame
  cases h with
  | plain htxs => exact ⟨rfl, hblock, .inl htxs⟩
  | @bulk v htxs hanswered hv =>
    refine ⟨rfl, hblock, .inr (.inl ?_)⟩
    obtain ⟨e, he, results, hresults, hmem⟩ := hanswered
    obtain ⟨hmade, hask⟩ := hasked e he
    have hv' : v = .arr (chain.receipts b.number) := by
      rcases batch_results hnode hmade hask (List.of_mem_zip hmem).1 with
        ⟨results', hresults', hright⟩ | ⟨-, error, herror⟩
      · obtain rfl := Except.ok.inj (hresults.symm.trans hresults')
        exact Except.ok.inj (hright _ hmem)
      · exact absurd (hresults.symm.trans herror) nofun
    refine ⟨chain.receipts b.number, congrArg some hv', fun hash hhash => ?_⟩
    exact hchain.receipts b.number hstart hstop hash (hblock ▸ hhash)
  | @single e e' htxs he hcall hmissed he' hrequest =>
    refine ⟨rfl, hblock, .inr ?_⟩
    have hcalls : e'.request.calls = (txHashes (chain.block b.number)).map receiptCall := by
      rw [hrequest, calls_batchRequest, hblock]
    rcases single_results hchain hnode (hasked e' he').1 hstart hstop (hblock ▸ htxs) hcalls with
      hall | ⟨hlen, hrefused⟩
    · left
      rw [← hblock] at hall
      refine ⟨_, hall, fun hash hhash => ?_⟩
      exact ⟨chain.receipt hash, List.mem_map.mpr ⟨hash, hhash, rfl⟩,
        (hchain.receipt b.number hstart hstop hash (hblock ▸ hhash)).2⟩
    · right
      have hbatch : 2 ≤ e.request.calls.length ∧ e.Refused := by
        refine (batch_results hnode (hasked e he).1 (hasked e he).2 hcall).resolve_left ?_
        rintro ⟨results, hresults, hright⟩
        obtain ⟨r, hr, hnone⟩ := hmissed results hresults
        rw [hright r hr] at hnone
        exact absurd hnone nofun
      refine ⟨?_, hlen, ⟨e, he, hcall, hbatch⟩, ⟨e', he', hcalls, hrefused⟩⟩
      obtain ⟨error, herror⟩ := hrefused
      show eachReceipt _ e'.results = none
      rw [herror]
      rfl

theorem recovered_leaf (hchain : chain.Whole start stop) {node : Node}
    (hnode : node.Serves (chain.Right start stop)) {exchanges : List Exchange}
    {fetched : List RawBlock}
    (hfetched : List.Forall₂ (Fetched exchanges) (rangeBlocks chain start stop) fetched)
    (hasked : ∀ e ∈ exchanges, node.Made e ∧ AskedFor (rangeBlocks chain start stop) fetched e) :
    Recovered chain start stop exchanges (withoutMissingReceipts fetched) := by
  have hserved := ((List.forall₂_and_left _ _).mpr ⟨fun b hb => hb, hfetched⟩).imp
    fun b b' h => Fetched.served hchain hnode hasked h.1 h.2
  have hnumbers : fetched.map RawBlock.number = List.range' start (stop + 1 - start) := by
    have hmap := hserved.map_eq (f := RawBlock.number) (g := RawBlock.number) fun h => h.1.symm
    rw [← hmap, rangeBlocks, List.map_map]
    exact List.map_id _
  refine ⟨?_, fun b hb => ?_, fun b hb htxs => ?_, fun n hstart hstop hn => ?_⟩
  · rw [← hnumbers]
    exact List.filter_sublist.map _
  · obtain ⟨b0, -, hnumber, hblock, -⟩ := hserved.exists_left (List.mem_filter.mp hb).1
    rw [hblock, hnumber]
  · obtain ⟨hmem, hkept⟩ := List.mem_filter.mp hb
    obtain ⟨b0, -, -, -, hplain | hcomplete | ⟨hnone, -⟩⟩ := hserved.exists_left hmem
    · exact absurd (hplain.symm.trans htxs) nofun
    · exact hcomplete
    · rw [hnone, htxs] at hkept
      exact absurd hkept nofun
  · have hin : (⟨n, chain.block n, none⟩ : RawBlock) ∈ rangeBlocks chain start stop := by
      refine List.mem_map.mpr ⟨n, List.mem_range'_1.mpr ⟨hstart, ?_⟩, rfl⟩
      omega
    obtain ⟨b, hb, hnumber, -, hout⟩ := hserved.exists_right hin
    have hlost : ¬(b.receipts.isSome || !hasTxs b.block) = true := by
      intro hkept
      exact hn (List.mem_map.mpr ⟨b, List.mem_filter.mpr ⟨hb, hkept⟩, hnumber⟩)
    rcases hout with hplain | ⟨items, hitems, -⟩ | ⟨-, hleft⟩
    · rw [hplain] at hlost
      exact absurd (Bool.or_true _) hlost
    · rw [hitems] at hlost
      exact absurd rfl hlost
    · exact hleft

end Leaf

/-! ## The whole range -/

variable {chain : ServedChain}

theorem ServedChain.Whole.part {start stop start' stop' : ℕ} (h : chain.Whole start stop)
    (hstart : start ≤ start') (hstop : stop' ≤ stop) : chain.Whole start' stop' where
  present n h1 h2 := h.present n (hstart.trans h1) (h2.trans hstop)
  hashed n h1 h2 := h.hashed n (hstart.trans h1) (h2.trans hstop)
  receipts n h1 h2 := h.receipts n (hstart.trans h1) (h2.trans hstop)
  receipt n h1 h2 := h.receipt n (hstart.trans h1) (h2.trans hstop)

theorem ServedChain.Right.whole {start stop start' stop' : ℕ} (hstart : start ≤ start')
    (hstop : stop' ≤ stop) (call : MethodCall) (v : Json) (h : chain.Right start' stop' call v) :
    chain.Right start stop call v := by
  cases h with
  | block h1 h2 => exact .block (hstart.trans h1) (h2.trans hstop)
  | receipts h1 h2 => exact .receipts (hstart.trans h1) (h2.trans hstop)
  | receipt h1 h2 hhash => exact .receipt (hstart.trans h1) (h2.trans hstop) hhash

theorem Recovered.mono {start stop : ℕ} {exchanges exchanges' : List Exchange} {raws : List RawBlock}
    (h : Recovered chain start stop exchanges raws) (hsub : exchanges ⊆ exchanges') :
    Recovered chain start stop exchanges' raws :=
  { h with missing := fun n hstart hstop hn => (h.missing n hstart hstop hn).mono hsub }

theorem Recovered.append {start mid stop : ℕ} (hmid : start ≤ mid) (hstop : mid < stop)
    {exchanges : List Exchange} {lower upper : List RawBlock}
    (hlower : Recovered chain start mid exchanges lower)
    (hupper : Recovered chain (mid + 1) stop exchanges upper) :
    Recovered chain start stop exchanges (lower ++ upper) := by
  refine ⟨?_, fun b hb => ?_, fun b hb htxs => ?_, fun n h1 h2 hn => ?_⟩
  · have hsplit : List.range' start (stop + 1 - start) =
        List.range' start (mid + 1 - start) ++ List.range' (mid + 1) (stop + 1 - (mid + 1)) :=
      (Windows.numbers_append (hmid.trans (Nat.le_succ mid)) hstop.le).symm
    rw [hsplit, List.map_append]
    exact hlower.ordered.append hupper.ordered
  · exact (List.mem_append.mp hb).elim (hlower.blocks b) (hupper.blocks b)
  · exact (List.mem_append.mp hb).elim (fun hb => hlower.receipts b hb htxs)
      fun hb => hupper.receipts b hb htxs
  · rw [List.map_append, List.mem_append, not_or] at hn
    rcases Nat.lt_or_ge mid n with hlt | hge
    · exact hupper.missing n hlt h2 hn.2
    · exact hlower.missing n h1 hge hn.1

/-- **A refused batch costs round trips, and at most the blocks left out**: the fetch succeeds, and
its range comes back in order with all its receipts, but for blocks of several transactions whose
receipts were refused both in the batch for several blocks and in the request for their own. -/
theorem fetchRawBlocks_served {start stop : ℕ} {node : Node} (hchain : chain.Whole start stop)
    (hnode : node.Serves (chain.Right start stop)) (log : List Exchange) :
    ∃ raws exchanges, fetchRawBlocks start stop node log = (.ok raws, log ++ exchanges) ∧
      Recovered chain start stop exchanges raws := by
  induction hn : stop - start using Nat.strong_induction_on generalizing start stop log with
  | _ n ih =>
    rcases Nat.lt_or_ge stop start with hempty | hle
    · refine ⟨[], [], ?_, ⟨List.nil_sublist _, nofun, nofun, fun n h1 h2 => ?_⟩⟩
      · rw [fetchRawBlocks, if_pos hempty, List.append_nil]
        rfl
      · exact absurd (h1.trans h2) (not_le.mpr hempty)
    · let e := blocksExchange node log start stop
      have hcalls : e.request.calls = (List.range' start (stop + 1 - start)).map blockCall :=
        calls_batchRequest _
      have hright : List.Forall₂ (chain.Right start stop)
          ((List.range' start (stop + 1 - start)).map blockCall)
          ((List.range' start (stop + 1 - start)).map chain.block) := by
        rw [List.forall₂_map_left_iff, List.forall₂_map_right_iff]
        refine List.forall₂_same.mpr fun n hn => ?_
        have hmem := List.mem_range'_1.mp hn
        exact .block hmem.1 (by omega)
      have hne : (List.range' start (stop + 1 - start)).map blockCall ≠ [] := by
        rw [ne_eq, List.map_eq_nil_iff, List.range'_eq_nil_iff]
        omega
      rcases hnode.results hright hne (made_batchExchange _ _ _) hcalls with
        hresults | ⟨hlen, error, hrefused⟩
      · have hnone : ∀ b ∈ rangeBlocks chain start stop, b.receipts = none := fun b hb =>
          congrArg RawBlock.receipts (mem_rangeBlocks hb).1
        obtain ⟨fetched, exchanges, hrun, hfetched, hasked⟩ :=
          fetchReceipts_run hnone node (log ++ [e])
        refine ⟨_, e :: exchanges, ?_,
          (recovered_leaf hchain hnode hfetched hasked).mono (List.subset_cons_self _ _)⟩
        have hlog : log ++ e :: exchanges = log ++ [e] ++ exchanges := List.append_cons _ _ _
        rw [hlog, fetchRawBlocks_answered hle hresults, foundBlocks_served hchain]
        exact hrun
      · rw [List.length_map, List.length_range'] at hlen
        let mid := start + (stop - start) / 2
        have hmid : start ≤ mid := Nat.le_add_right _ _
        have hstop : mid < stop := by omega
        obtain ⟨lower, lowers, hlower, hl⟩ := ih (mid - start) (by omega)
          (hchain.part le_rfl hstop.le) (hnode.mono (ServedChain.Right.whole le_rfl hstop.le))
          (log ++ [e]) rfl
        obtain ⟨upper, uppers, hupper, hu⟩ := ih (stop - (mid + 1)) (by omega)
          (hchain.part (by omega) le_rfl) (hnode.mono (ServedChain.Right.whole (by omega) le_rfl))
          (log ++ [e] ++ lowers) rfl
        refine ⟨lower ++ upper, e :: (lowers ++ uppers), ?_, ?_⟩
        · rw [fetchRawBlocks_refused (by omega) hrefused hlower hupper]
          simp only [List.append_assoc, List.cons_append, List.nil_append]
        · have hleft : lowers ⊆ e :: (lowers ++ uppers) := fun e' he' =>
            List.mem_cons_of_mem _ (List.mem_append_left _ he')
          have hright : uppers ⊆ e :: (lowers ++ uppers) := fun e' he' =>
            List.mem_cons_of_mem _ (List.mem_append_right _ he')
          exact (hl.mono hleft).append hmid hstop (hu.mono hright)

/-! ## Two blocks of two transactions -/

section Sample

def pairChain : ServedChain where
  block n := pairBlock (quantity n)
  receipts n := pairReceipts (quantity n)
  receipt := hashReceipt

theorem pairChain_whole (start stop : ℕ) : pairChain.Whole start stop where
  present n _ _ := rfl
  hashed n _ _ t ht := by
    rcases List.mem_cons.mp ht with rfl | ht
    · exact ⟨_, rfl⟩
    · rw [List.mem_singleton.mp ht]
      exact ⟨_, rfl⟩
  receipts n _ _ hash hhash := by
    rcases List.mem_cons.mp hhash with rfl | hhash
    · exact ⟨_, List.mem_cons_self, rfl⟩
    · rw [List.mem_singleton.mp hhash]
      exact ⟨_, List.mem_cons_of_mem _ List.mem_cons_self, rfl⟩
  receipt n _ _ hash _ := ⟨rfl, rfl⟩

def pairAnswer : MethodCall → Json
  | ⟨"eth_getBlockByNumber", .arr (number :: _)⟩ => pairBlock number
  | ⟨"eth_getBlockReceipts", .arr (number :: _)⟩ => .arr (pairReceipts number)
  | ⟨"eth_getTransactionReceipt", .arr (.str hash :: _)⟩ => hashReceipt hash
  | _ => .null

theorem pairAnswer_of_right {start stop : ℕ} {call : MethodCall} {v : Json}
    (h : pairChain.Right start stop call v) : pairAnswer call = v := by
  cases h <;> rfl

/-- A node that answers several calls at once only for blocks. -/
def pairNode : Node
  | _, .one call => .body (.obj [("result", pairAnswer call)])
  | _, .many calls =>
    if calls.length < 64 ∧ ∀ call ∈ calls, call.method = "eth_getBlockByNumber" then
      .body (.arr (calls.mapIdx fun i call => response (i + 1) (pairAnswer call)))
    else .body (.obj [("error", .obj [])])

theorem pairNode_serves (start stop : ℕ) : pairNode.Serves (pairChain.Right start stop) where
  one log call v hv := ⟨_, rfl, rfl, pairAnswer_of_right hv⟩
  many log calls hlen _ := by
    by_cases hblocks : calls.length < 64 ∧ ∀ call ∈ calls, call.method = "eth_getBlockByNumber"
    · right
      refine ⟨_, if_pos hblocks, fun i call v hi hv => ?_⟩
      have hlt : i < calls.length := (List.getElem?_eq_some_iff.mp hi).1
      have hid : ∀ j v, j < calls.length → itemId (response (j + 1) v) = some (j + 1) := by
        intro j v hj
        have hget : (response (j + 1) v).get "id" = some (.int (j + 1 : ℕ)) := rfl
        have hfits : (0 : ℤ) ≤ (j + 1 : ℕ) ∧ ((j + 1 : ℕ) : ℤ) ≤ 18446744073709551615 := by omega
        rw [itemId, hget, Option.bind_some, Json.asU64, if_pos hfits, Int.toNat_natCast]
      refine ⟨⟨response (i + 1) (pairAnswer call), ?_, hid i _ hlt⟩, fun item hitem hitemId => ?_⟩
      · exact List.mem_mapIdx.mpr ⟨i, hlt, by rw [(List.getElem?_eq_some_iff.mp hi).2]⟩
      · obtain ⟨j, hj, rfl⟩ := List.mem_mapIdx.mp hitem
        obtain rfl : i = j := Nat.succ.inj (eq_of_itemId_response hitemId)
        rw [(List.getElem?_eq_some_iff.mp hi).2]
        exact ⟨rfl, pairAnswer_of_right hv⟩
    · left
      exact ⟨_, _, if_neg hblocks, rfl, rfl⟩

/-- **Two blocks are recovered**, if they are not left out. -/
theorem fetchRawBlocks_served_pair : ∃ raws exchanges,
    fetchRawBlocks 5 6 pairNode [] = (.ok raws, [] ++ exchanges) ∧
      Recovered pairChain 5 6 exchanges raws :=
  fetchRawBlocks_served (pairChain_whole 5 6) (pairNode_serves 5 6) []

/-- **Both are left out**: their receipts are refused in the batch for the two of them, and in the
requests for the two receipts of each. -/
theorem fetchRawBlocks_loses : ¬ ∀ (chain : ServedChain) (start stop : ℕ) (node : Node)
    (log : List Exchange), chain.Whole start stop → node.Serves (chain.Right start stop) →
      ∃ raws log', fetchRawBlocks start stop node log = (.ok raws, log') ∧
        raws.map RawBlock.number = List.range' start (stop + 1 - start) ∧
        ∀ b ∈ raws, hasTxs b.block = true → b.Complete := by
  intro hall
  obtain ⟨raws, log', hrun, hnumbers, -⟩ :=
    hall pairChain 5 6 pairNode [] (pairChain_whole 5 6) (pairNode_serves 5 6)
  have hnone : (fetchRawBlocks 5 6 pairNode []).1 = .ok [] := by
    rw [fetchRawBlocks]
    rfl
  rw [hrun] at hnone
  rw [Except.ok.inj hnone] at hnumbers
  exact absurd hnumbers (by decide)

end Sample

end ChainExplorer
