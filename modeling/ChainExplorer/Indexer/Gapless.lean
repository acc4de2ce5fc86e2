import ChainExplorer.Indexer.Loops
import ChainExplorer.Lib.Tally

/-!
# What the loops send is gapless

A node may leave blocks out, repeat them or answer with others, but not with more than were asked
for, and the cuts keep only what runs on.

* `RangeFetch.load`: how many blocks a fetch can still bring, which no step adds to.
* `contiguousFrom_heights`, `contiguousDownTo_heights`: what the cuts keep.
* **`indexer_gapless`**: in every state reached, what either loop has sent.
-/

namespace ChainExplorer

open Tally (tally tally_set tally_eraseIdx)

/-! ## No more blocks than were asked for -/

/-- The blocks a chunk asks for. -/
def chunkSize (chunk : ℕ × ℕ) : ℕ := chunk.2 + 1 - chunk.1

/-- The blocks a task can still bring. -/
def FetchTask.load : FetchTask → ℕ
  | .asked chunk => chunkSize chunk
  | .assembled bundles _ | .done bundles => bundles.length

/-- **The blocks a fetch can bring.** -/
def RangeFetch.load (f : RangeFetch) : ℕ :=
  tally chunkSize f.chunks + tally FetchTask.load f.tasks + f.out.length

theorem tally_successors_le {stop batch : ℕ} (hbatch : 1 ≤ batch) (hstop : stop ≤ maxU64) (fuel : ℕ) :
    ∀ {a : ℕ}, a ≤ stop →
      tally chunkSize ((successors (fun a => (checkedAdd a batch).filter fun n => n ≤ stop) fuel
        (some a)).map fun a => (a, min (saturatingAddU64 a (batch - 1)) stop)) ≤ stop + 1 - a := by
  induction fuel with
  | zero =>
    intro a _
    exact Nat.zero_le _
  | succ fuel ih =>
    intro a ha
    rw [successors, List.map_cons, Tally.tally_cons]
    have hsize : chunkSize (a, min (saturatingAddU64 a (batch - 1)) stop) ≤
        min batch (stop + 1 - a) := by
      simp only [chunkSize, saturatingAddU64]
      omega
    cases hnext : (checkedAdd a batch).filter fun n => n ≤ stop with
    | none =>
      have hnil :
          successors (fun a => (checkedAdd a batch).filter fun n => n ≤ stop) fuel none = [] := by
        cases fuel <;> rfl
      rw [hnil, List.map_nil, Tally.tally_nil]
      omega
    | some b =>
      obtain ⟨hadd, hle⟩ := Option.filter_eq_some_iff.mp hnext
      have hle : b ≤ stop := of_decide_eq_true hle
      have hb : b = a + batch := by
        unfold checkedAdd at hadd
        split_ifs at hadd
        exact (Option.some.inj hadd).symm
      have hrest := ih hle
      omega

theorem RangeFetch.load_first (start : ℕ) {stop : ℕ} (hstop : stop ≤ maxU64) :
    (RangeFetch.first start stop).load ≤ stop + 1 - start := by
  have hload : (RangeFetch.first start stop).load =
      tally chunkSize (blockChunks start stop rpcBlockBatch) := rfl
  rw [hload, blockChunks]
  split_ifs with hle
  · exact tally_successors_le (by decide) hstop _ hle
  · cases stop + 1 - start <;> exact Nat.zero_le _

theorem RangeFetch.Step.load_le [Keccak] [Codec] {known known' : Finset String} {f f' : RangeFetch}
    {step : FetchStep} (h : f.Step known step f' known') : f'.load ≤ f.load := by
  cases h with
  | spawn hchunks =>
    simp only [load, hchunks, Tally.tally_append, Tally.tally_cons, Tally.tally_nil, FetchTask.load]
    omega
  | failed htask =>
    have hset := tally_set FetchTask.load htask (.done [])
    simp only [load, FetchTask.load, List.length_nil] at hset ⊢
    omega
  | @plain _ _ _ raws bundles htask hraws hbundles hwanted =>
    have hset := tally_set FetchTask.load htask (.done bundles)
    have hle := length_fetchRawBlocks_le (Prod.ext hraws rfl)
    simp only [load, FetchTask.load, length_assemble hbundles, chunkSize] at hset hle ⊢
    omega
  | @assembled _ _ _ raws bundles htask hraws hbundles =>
    have hset := tally_set FetchTask.load htask (.assembled bundles (tokensToFetch bundles known))
    have hle := length_fetchRawBlocks_le (Prod.ext hraws rfl)
    simp only [load, FetchTask.load, length_assemble hbundles, chunkSize] at hset hle ⊢
    omega
  | @described _ _ _ bundles bundles' _ _ htask hrun =>
    have hset := tally_set FetchTask.load htask (.done bundles')
    have hlength := describeTokens_length hrun
    simp only [load, FetchTask.load, hlength] at hset ⊢
    omega
  | joined htask =>
    have herase := tally_eraseIdx FetchTask.load htask
    simp only [load, FetchTask.load, List.length_append] at herase ⊢
    omega

theorem RangeFetch.length_bundles_le (f : RangeFetch) : f.bundles.length ≤ f.load := by
  rw [bundles, List.length_insertionSort, load]
  omega

/-! ## The cuts -/

theorem wrapU64_succ {n : ℕ} (h : n + 1 ≤ maxU64) : wrapU64 (n + 1) = n + 1 := by
  unfold maxU64 at h
  rw [wrapU64_of_nonneg (by omega) (by omega)]
  omega

theorem wrapU64_pred {n : ℕ} (h : 1 ≤ n) (hmax : n ≤ maxU64 + 1) : wrapU64 (n - 1 : ℤ) = n - 1 := by
  unfold maxU64 at hmax
  rw [wrapU64_of_nonneg (by omega) (by omega)]
  omega

theorem wrapU64_le_max (n : ℤ) : wrapU64 n ≤ maxU64 := by
  unfold wrapU64 maxU64
  omega

theorem wrapU64_below {n : ℕ} (h : n ≤ maxU64) : wrapU64 (wrapU64 (n + 1) - 1) = n := by
  unfold maxU64 at h
  unfold wrapU64
  omega

theorem isPrefix_contiguousFrom (bundles : List BlockBundle) (start : ℕ) :
    contiguousFrom bundles start <+: bundles := by
  induction bundles generalizing start with
  | nil => exact List.nil_prefix
  | cons b bundles ih =>
    unfold contiguousFrom
    split_ifs
    · exact (List.prefix_cons_inj b).mpr (ih _)
    · exact List.nil_prefix

theorem contiguousFrom_sublist (bundles : List BlockBundle) (start : ℕ) :
    (contiguousFrom bundles start).Sublist bundles :=
  (isPrefix_contiguousFrom bundles start).sublist

/-- **The upward cut** keeps one number after the other. -/
theorem contiguousFrom_heights (bundles : List BlockBundle) (start : ℕ)
    (h : start + bundles.length ≤ maxU64 + 1) :
    (contiguousFrom bundles start).map BlockBundle.height =
      List.range' start (contiguousFrom bundles start).length := by
  induction bundles generalizing start with
  | nil => rfl
  | cons b bundles ih =>
    rw [List.length_cons] at h
    unfold contiguousFrom
    by_cases hb : b.height = start
    · rw [if_pos hb]
      cases bundles with
      | nil =>
        rw [contiguousFrom, List.map_cons, hb]
        rfl
      | cons c rest =>
        have hnext : wrapU64 (start + 1) = start + 1 := by
          rw [List.length_cons] at h
          exact wrapU64_succ (by omega)
        rw [hnext, List.map_cons, hb, ih _ (by omega), List.length_cons, List.range'_succ]
    · rw [if_neg hb]
      rfl

theorem isPrefix_descending (bundles : List BlockBundle) (stop : ℕ) :
    descending bundles stop <+: bundles := by
  induction bundles generalizing stop with
  | nil => exact List.nil_prefix
  | cons b bundles ih =>
    unfold descending
    split_ifs
    · exact (List.prefix_cons_inj b).mpr (ih _)
    · exact List.nil_prefix

theorem descending_sublist (bundles : List BlockBundle) (stop : ℕ) :
    (descending bundles stop).Sublist bundles :=
  (isPrefix_descending bundles stop).sublist

theorem descending_heights {bundles : List BlockBundle} {stop : ℕ} (h : bundles.length ≤ stop)
    (hmax : stop ≤ maxU64) :
    (descending bundles stop).map BlockBundle.height =
      (List.range (descending bundles stop).length).map fun i => stop - i := by
  induction bundles generalizing stop with
  | nil => rfl
  | cons b bundles ih =>
    rw [List.length_cons] at h
    unfold descending
    by_cases hb : b.height = stop
    · have hnext : wrapU64 (stop - 1 : ℤ) = stop - 1 := wrapU64_pred (by omega) (by omega)
      rw [if_pos hb, hnext, List.map_cons, hb, ih (by omega) (by omega), List.length_cons,
        List.range_succ_eq_map, List.map_cons, List.map_map, Nat.sub_zero]
      refine congrArg (stop :: ·) (List.map_congr_left fun i _ => ?_)
      simp only [Function.comp_apply]
      omega
    · rw [if_neg hb]
      rfl

/-- **The downward cut**, highest first. -/
theorem contiguousDownTo_heights {bundles : List BlockBundle} {stop : ℕ}
    (h : bundles.length ≤ stop) (hmax : stop ≤ maxU64) :
    (contiguousDownTo bundles stop).reverse.map BlockBundle.height =
      (List.range (contiguousDownTo bundles stop).length).map fun i => stop - i := by
  rw [contiguousDownTo, List.reverse_reverse, List.length_reverse]
  exact descending_heights (by rwa [List.length_reverse]) hmax

theorem contiguousDownTo_sublist (bundles : List BlockBundle) (stop : ℕ) :
    (contiguousDownTo bundles stop).Sublist bundles :=
  List.reverse_sublist.mp ((List.reverse_reverse _).symm ▸ descending_sublist _ _)

/-! ## Heads -/

theorem foldl_max_le {heads : List ℕ} {head highest : ℕ} (hhead : head ≤ highest)
    (hheads : ∀ n ∈ heads, n ≤ highest) : heads.foldl max head ≤ highest := by
  induction heads generalizing head with
  | nil => exact hhead
  | cons n heads ih =>
    rw [List.forall_mem_cons] at hheads
    exact ih (max_le hhead hheads.1) hheads.2

theorem le_foldl_max (heads : List ℕ) (head : ℕ) : head ≤ heads.foldl max head := by
  induction heads generalizing head with
  | nil => exact le_rfl
  | cons n heads ih => exact (le_max_left head n).trans (ih _)

/-! ## Upwards -/

/-- The numbers sent run on from a height and stay at or below the highest head. -/
structure Ascent (base highest : ℕ) (sent : List ℕ) : Prop where
  run : sent = List.range' (base + 1) sent.length
  bounded : sent = [] ∨ base + sent.length ≤ highest

theorem Ascent.nil {base highest : ℕ} : Ascent base highest [] := ⟨rfl, .inl rfl⟩

theorem Ascent.push {base highest : ℕ} {sent : List ℕ} (h : Ascent base highest sent)
    (hle : base + sent.length + 1 ≤ highest) :
    Ascent base highest (sent ++ [base + sent.length + 1]) where
  run := by
    rw [List.length_append, List.length_singleton, List.range'_concat, Nat.one_mul, ← h.run]
    congr 2
    omega
  bounded := by
    right
    rw [List.length_append, List.length_singleton]
    omega

theorem Ascent.mono {base highest highest' : ℕ} {sent : List ℕ} (h : Ascent base highest sent)
    (hle : highest ≤ highest') : Ascent base highest' sent :=
  ⟨h.run, h.bounded.imp_right fun hb => hb.trans hle⟩

/-- Where the forward loop stands when everything up to `reached` was sent. -/
def ForwardPc.At (reached highest : ℕ) : ForwardPc → Prop
  | .boot => True
  | .waiting sent => sent = reached
  | .seeding head => reached = 0 ∧ head ≤ highest
  | .catching sent head => sent = reached ∧ head ≤ highest
  | .fetching sent head f => sent = reached ∧ head ≤ highest ∧ sent + f.load ≤ head
  | .sending last head rest =>
    rest.map BlockBundle.height = List.range' (reached + 1) rest.length ∧
      last = reached + rest.length ∧ last ≤ head ∧ head ≤ highest

theorem ForwardPc.At.mono {reached highest highest' : ℕ} {pc : ForwardPc}
    (h : pc.At reached highest) (hle : highest ≤ highest') : pc.At reached highest' := by
  cases pc with
  | boot => trivial
  | waiting sent => exact h
  | seeding head => exact ⟨h.1, h.2.trans hle⟩
  | catching sent head => exact ⟨h.1, h.2.trans hle⟩
  | fetching sent head f => exact ⟨h.1, h.2.1.trans hle, h.2.2⟩
  | sending last head rest => exact ⟨h.1, h.2.1, h.2.2.1, h.2.2.2.trans hle⟩

/-! ## Downwards -/

/-- The numbers sent run down from below a target and stay at or above 1. -/
structure Descent (target : ℕ) (sent : List ℕ) : Prop where
  run : sent = (List.range sent.length).map fun i => target - 1 - i
  bounded : sent.length ≤ target - 1

theorem Descent.nil {target : ℕ} : Descent target [] := ⟨rfl, Nat.zero_le _⟩

theorem Descent.push {target : ℕ} {sent : List ℕ} (h : Descent target sent)
    (hlt : sent.length < target - 1) : Descent target (sent ++ [target - 1 - sent.length]) where
  run := by
    rw [List.length_append, List.length_singleton, List.range_succ, List.map_append, ← h.run]
    rfl
  bounded := by
    rw [List.length_append, List.length_singleton]
    omega

/-- Where the descent stands when everything from `frontier` up was sent. -/
def DescentPc.At (frontier : ℕ) : DescentPc → Prop
  | .boot | .low => True
  | .top lowest => ∀ n ∈ lowest, n = frontier
  | .fetching lowest target f =>
    (∀ n ∈ lowest, n = frontier) ∧ wrapU64 (target - 1) = frontier - 1 ∧ f.load ≤ frontier - 1
  | .sending reached rest =>
    rest.map BlockBundle.height = (List.range rest.length).map (fun i => frontier - 1 - i) ∧
      rest.length ≤ frontier - 1 ∧ reached + rest.length = frontier

/-! ## Every run -/

/-- **What every state keeps.** -/
structure IndexerState.Gapless (s : IndexerState) : Prop where
  heads : ∀ n ∈ s.heads, n ≤ s.highest
  highest : s.highest ≤ maxU64
  ascent : Ascent s.base s.highest s.forwardSent
  forward : s.forward.At (s.base + s.forwardSent.length) s.highest
  target : s.target ≤ maxU64 + 1
  descended : Descent s.target s.descentSent
  descent : s.descent.At (s.target - s.descentSent.length)

theorem IndexerState.Gapless.boot [Keccak] (db : Database) : (IndexerState.boot db).Gapless where
  heads := nofun
  highest := Nat.zero_le _
  ascent := .nil
  forward := trivial
  target := Nat.zero_le _
  descended := .nil
  descent := trivial

theorem load_window_le {sent head batch : ℕ} (hlt : sent < head) (hhead : head ≤ maxU64) :
    sent + (RangeFetch.first (sent + 1) (min (saturatingAddU64 sent batch) head)).load ≤ head := by
  have hstop : min (saturatingAddU64 sent batch) head ≤ head := min_le_right _ _
  have hload := RangeFetch.load_first (sent + 1) (hstop.trans hhead)
  omega

theorem At_sending {sent head highest : ℕ} {bundles : List BlockBundle} {last : BlockBundle}
    (hhead : head ≤ highest) (hmax : highest ≤ maxU64) (hload : sent + bundles.length ≤ head)
    (hlast : (contiguousFrom bundles (sent + 1)).getLast? = some last) :
    (ForwardPc.sending last.height head (contiguousFrom bundles (sent + 1))).At sent highest := by
  have hrun := contiguousFrom_heights bundles (sent + 1) (by omega)
  have hlen := (contiguousFrom_sublist bundles (sent + 1)).length_le
  have hpos : (contiguousFrom bundles (sent + 1)).length ≠ 0 := by
    intro h0
    rw [List.length_eq_zero_iff.mp h0] at hlast
    exact absurd hlast nofun
  have hheight : last.height = sent + (contiguousFrom bundles (sent + 1)).length := by
    have hget := congrArg List.getLast? hrun
    rw [List.getLast?_map, hlast, List.getLast?_range', if_neg hpos] at hget
    have := Option.some.inj hget
    omega
  exact ⟨hrun, hheight, by omega, hhead⟩

theorem DescentPc.At_sending {frontier target : ℕ} {bundles : List BlockBundle}
    {lowest : BlockBundle} (htarget : wrapU64 (target - 1) = frontier - 1)
    (hload : bundles.length ≤ frontier - 1)
    (hhead : (contiguousDownTo bundles (wrapU64 (target - 1))).head? = some lowest) :
    (DescentPc.sending lowest.height
      (contiguousDownTo bundles (wrapU64 (target - 1))).reverse).At frontier := by
  have hmax : frontier - 1 ≤ maxU64 := by
    rw [← htarget]
    exact wrapU64_le_max _
  rw [htarget] at hhead ⊢
  have hrun := contiguousDownTo_heights hload hmax
  have hlen := (contiguousDownTo_sublist bundles (frontier - 1)).length_le.trans hload
  have hpos : (contiguousDownTo bundles (frontier - 1)).length ≠ 0 := by
    intro h0
    rw [List.length_eq_zero_iff.mp h0] at hhead
    exact absurd hhead nofun
  have hheight : lowest.height =
        frontier - 1 - ((contiguousDownTo bundles (frontier - 1)).length - 1) := by
    have hget := congrArg List.getLast? hrun
    rw [List.getLast?_map, List.getLast?_reverse, hhead, List.getLast?_map, List.getLast?_range,
      if_neg hpos] at hget
    exact Option.some.inj hget
  refine ⟨?_, ?_, ?_⟩
  · rw [List.length_reverse, hrun]
  · rwa [List.length_reverse]
  · rw [List.length_reverse, hheight]
    omega

theorem DescentPc.At_window {frontier target batch : ℕ} {lowest : Option ℕ}
    (hlowest : ∀ n ∈ lowest, n = frontier) (htarget : wrapU64 (target - 1) = frontier - 1) :
    (DescentPc.fetching lowest target
      (.first (max (target - batch) 1) (wrapU64 (target - 1)))).At frontier := by
  have hmax : wrapU64 (target - 1) ≤ maxU64 := wrapU64_le_max _
  have hload := RangeFetch.load_first (max (target - batch) 1) hmax
  refine ⟨hlowest, htarget, ?_⟩
  omega

theorem IndexerState.lowest_getD_le (s : IndexerState) : s.lowest.getD 0 ≤ maxU64 + 1 := by
  cases hlowest : s.lowest with
  | none => exact Nat.zero_le _
  | some n =>
    obtain ⟨m, -, rfl⟩ := Option.map_eq_some_iff.mp hlowest
    exact (wrapU64_le_max m).trans (Nat.le_succ _)

theorem IndexerState.Step.gapless [Keccak] [Codec] {cfg : IndexerConfig} {s s' : IndexerState}
    {a : IndexerAction} (h : s.Step cfg a s') (hs : s.Gapless) : s'.Gapless := by
  cases h with
  | announce hmax =>
    have hle := Nat.le_max_left s.highest
    refine { hs with heads := ?_, highest := ?_, ascent := ?_, forward := ?_ }
    · intro n hn
      rcases List.mem_append.mp hn with hn | hn
      · exact (hs.heads n hn).trans (hle _)
      · rw [List.mem_singleton.mp hn]
        exact Nat.le_max_right _ _
    · exact max_le hs.highest hmax
    · exact hs.ascent.mono (hle _)
    · exact hs.forward.mono (hle _)
  | forwardBoot hpc => exact { hs with ascent := .nil, forward := rfl }
  | receiveFirst hpc hheads =>
    have hat := hs.forward
    rw [hpc] at hat
    have hqueued := hs.heads
    rw [hheads, List.forall_mem_cons] at hqueued
    exact { hs with heads := nofun, forward := ⟨hat.symm, foldl_max_le hqueued.1 hqueued.2⟩ }
  | receive hpc hheads hseed =>
    have hat := hs.forward
    rw [hpc] at hat
    have hqueued := hs.heads
    rw [hheads, List.forall_mem_cons] at hqueued
    exact { hs with heads := nofun, forward := ⟨hat, foldl_max_le hqueued.1 hqueued.2⟩ }
  | seededAbove hpc hlatest =>
    have hat := hs.forward
    rw [hpc] at hat
    have hnil : s.forwardSent = [] := List.length_eq_zero_iff.mp (Nat.add_eq_zero_iff.mp hat.1).2
    refine { hs with ascent := ?_, forward := ?_ }
    · rw [hnil]
      exact .nil
    · rw [hnil]
      rfl
  | seeded hpc hlatest hsent hlt =>
    have hat := hs.forward
    rw [hpc] at hat
    have hnil : s.forwardSent = [] := List.length_eq_zero_iff.mp (Nat.add_eq_zero_iff.mp hat.1).2
    refine { hs with ascent := ?_, forward := ?_ }
    · rw [hnil]
      exact .nil
    · rw [hnil]
      exact ⟨rfl, hat.2⟩
  | unseeded hpc hlatest =>
    have hat := hs.forward
    rw [hpc] at hat
    exact { hs with forward := hat.1.symm }
  | seedWait hpc hlatest => exact hs
  | @catchUp sent head hpc hlt =>
    have hat := hs.forward
    rw [hpc] at hat
    have hhead := foldl_max_le hat.2 hs.heads
    have hlt' := hlt.trans_le (le_foldl_max s.heads head)
    exact { hs with
      heads := nofun
      forward := ⟨hat.1, hhead, load_window_le hlt' (hhead.trans hs.highest)⟩ }
  | caughtUp hpc hle =>
    have hat := hs.forward
    rw [hpc] at hat
    exact { hs with forward := hat.1 }
  | forwardFetch hpc hstep =>
    have hat := hs.forward
    rw [hpc] at hat
    have hload := (RangeFetch.step_of_exec hstep).load_le
    exact { hs with forward := ⟨hat.1, hat.2.1, (Nat.add_le_add_left hload _).trans hat.2.2⟩ }
  | forwardNothing hpc hover hnil =>
    have hat := hs.forward
    rw [hpc] at hat
    exact { hs with forward := ⟨hat.1, hat.2.1⟩ }
  | @forwardFetched sent head f last hpc hover hlast =>
    have hat := hs.forward
    rw [hpc] at hat
    have hload : sent + f.bundles.length ≤ head :=
      (Nat.add_le_add_left f.length_bundles_le _).trans hat.2.2
    have hsending := At_sending hat.2.1 hs.highest hload hlast
    rw [hat.1] at hsending
    exact { hs with forward := by rwa [hat.1] }
  | @forwardSend reached head b rest hpc =>
    have hat := hs.forward
    rw [hpc] at hat
    obtain ⟨hrun, hlast, hle, hhead⟩ := hat
    rw [List.map_cons, List.length_cons, List.range'_succ] at hrun
    obtain ⟨hb, hrest⟩ := List.cons.inj hrun
    rw [List.length_cons] at hlast
    have hreached : s.base + (s.forwardSent ++ [b.height]).length =
        s.base + s.forwardSent.length + 1 := by
      rw [List.length_append, List.length_singleton, Nat.add_assoc]
    refine { hs with ascent := ?_, forward := ?_ }
    · rw [hb]
      exact hs.ascent.push (by omega)
    · rw [hreached]
      exact ⟨hrest, by omega, hle, hhead⟩
  | forwardSentAll hpc =>
    have hat := hs.forward
    rw [hpc] at hat
    exact { hs with forward := ⟨hat.2.1, hat.2.2.2⟩ }
  | descentBoot hpc =>
    refine { hs with target := lowest_getD_le s, descended := .nil, descent := ?_ }
    intro n hn
    rw [Option.mem_def.mp hn]
    rfl
  | yield hpc => exact hs
  | @pickBelow _ min hpc hmin =>
    have hat := hs.descent
    rw [hpc] at hat
    have hmin' : min = s.target - s.descentSent.length := hat min rfl
    have hle : min ≤ maxU64 + 1 := hmin'.le.trans ((Nat.sub_le _ _).trans hs.target)
    have hbelow := wrapU64_pred hmin.le hle
    exact { hs with descent := DescentPc.At_window hat (hbelow.trans (congrArg (· - 1) hmin')) }
  | pickNone hpc hmin => exact { hs with descent := trivial }
  | @pickHead _ head hpc hlag hhead =>
    have hmax : head ≤ maxU64 := Nat.le_of_lt_succ (ethBlockNumber_lt hhead)
    exact { hs with
      target := Nat.succ_le_succ hmax
      descended := .nil
      descent := DescentPc.At_window nofun (wrapU64_below hmax) }
  | readLowest hpc =>
    refine { hs with target := lowest_getD_le s, descended := .nil, descent := ?_ }
    intro n hn
    rw [Option.mem_def.mp hn]
    rfl
  | descentFetch hpc hstep =>
    have hat := hs.descent
    rw [hpc] at hat
    have hload := (RangeFetch.step_of_exec hstep).load_le
    exact { hs with descent := ⟨hat.1, hat.2.1, hload.trans hat.2.2⟩ }
  | descentNothing hpc hover =>
    have hat := hs.descent
    rw [hpc] at hat
    exact { hs with descent := hat.1 }
  | @descentFetched _ target f lowest hpc hover hlowest =>
    have hat := hs.descent
    rw [hpc] at hat
    have hload := f.length_bundles_le.trans hat.2.2
    exact { hs with descent := DescentPc.At_sending hat.2.1 hload hlowest }
  | @descentSend reached b rest hpc =>
    have hat := hs.descent
    rw [hpc] at hat
    obtain ⟨hrun, hle, hreached⟩ := hat
    rw [List.length_cons, List.range_succ_eq_map, List.map_cons, List.map_cons, List.map_map] at hrun
    obtain ⟨hb, hrest⟩ := List.cons.inj hrun
    rw [List.length_cons] at hle hreached
    have hfrontier : s.target - (s.descentSent ++ [b.height]).length =
        s.target - s.descentSent.length - 1 := by
      rw [List.length_append, List.length_singleton, Nat.sub_add_eq]
    refine { hs with descended := ?_, descent := ?_ }
    · have hnext : b.height = s.target - 1 - s.descentSent.length := by omega
      rw [hnext]
      exact hs.descended.push (by omega)
    · rw [hfrontier]
      refine ⟨?_, by omega, by omega⟩
      rw [hrest]
      refine List.map_congr_left fun i _ => ?_
      simp only [Function.comp_apply]
      omega
  | descentSentAll hpc =>
    have hat := hs.descent
    rw [hpc] at hat
    refine { hs with descent := ?_ }
    intro n hn
    rw [← Option.some.inj hn, ← hat.2.2]
    rfl
  | writerTake hbatch => exact { hs with }
  | writerFails => exact hs
  | writerSaves hsave => exact { hs with }
  | crash => exact .boot s.db

/-- **What the loops send**, in every state reached: upwards, the numbers after the height the loop
started from, one after the other and none past the highest head announced; in the present descent,
the numbers below its target, one before the other and none below 1. -/
theorem indexer_gapless [Keccak] [Codec] {cfg : IndexerConfig} {db : Database} {s : IndexerState}
    (h : (indexer cfg db).Reachable s) :
    s.forwardSent = List.range' (s.base + 1) s.forwardSent.length ∧
      (∀ n ∈ s.forwardSent, n ≤ s.highest) ∧
      s.descentSent = (List.range s.descentSent.length).map (fun i => s.target - 1 - i) ∧
      ∀ n ∈ s.descentSent, 1 ≤ n := by
  have hs : s.Gapless := by
    refine h.invariant ?_ ?_
    · rintro s rfl
      exact .boot db
    · intro s a s' hs _ hexec
      exact (IndexerState.step_of_exec hexec).gapless hs
  refine ⟨hs.ascent.run, fun n hn => ?_, hs.descended.run, fun n hn => ?_⟩
  · rw [hs.ascent.run, List.mem_range'_1] at hn
    rcases hs.ascent.bounded with hnil | hle
    · rw [hnil, List.length_nil] at hn
      omega
    · omega
  · rw [hs.descended.run, List.mem_map] at hn
    obtain ⟨i, hi, rfl⟩ := hn
    have hlt := List.mem_range.mp hi
    have hle := hs.descended.bounded
    omega

section Sample

/-- A block with a number, a hash made of it and nothing else. -/
def numberedBlock : Json → Json
  | .str number => .obj [("number", .str number), ("hash", .str (number ++ "0"))]
  | _ => .null

def bareBlock (n : ℕ) : Json := numberedBlock (quantity n)

/-- A node at height `head` that has every block. -/
def bareNode (head : ℕ) : Node
  | _, .one ⟨"eth_blockNumber", _⟩ => .body (.obj [("result", quantity head)])
  | _, .one ⟨_, .arr (number :: _)⟩ => .body (.obj [("result", numberedBlock number)])
  | _, _ => .failed

theorem fetchRawBlocks_bareNode (n head : ℕ) :
    (fetchRawBlocks n n (bareNode head) []).1 = .ok [⟨n, bareBlock n, none⟩] := by
  have hnums : List.range' n (n + 1 - n) = [n] := by
    rw [Nat.add_sub_cancel_left]
    rfl
  rw [fetchRawBlocks, if_neg (lt_irrefl n), hnums]
  rfl

def bareBundle (n : ℕ) : BlockBundle := ⟨parseBlock (bareBlock n), [], [], [], []⟩

variable [Keccak] [Codec]

theorem assemble_bareBlock (n : ℕ) : assemble [⟨n, bareBlock n, none⟩] = some [bareBundle n] := rfl

/-- Blocks are fetched one at a time. -/
def oneByOne : IndexerConfig := ⟨1, 1⟩

section Window

variable {ok : IndexerState → IndexerAction → Prop}
  (hok : ∀ s a, (∀ node, a ≠ .pickTarget node) → ok s a)
include hok

theorem reachable_window {db : Database} {s : IndexerState} {frontier : Option ℕ} {n : ℕ}
    (h : (indexer oneByOne db).ReachableUnder ok s) (hheight : (bareBundle n).height = n)
    (hpc : s.descent = .fetching frontier (n + 1) (.first n n)) :
    (indexer oneByOne db).ReachableUnder ok { s with descent := .sending n [bareBundle n] } := by
  have hmax : n ≤ maxU64 := hheight.symm.le.trans (wrapU64_le_max _)
  have hchunks : blockChunks n n rpcBlockBatch = [(n, n)] := by
    have hlast : min (saturatingAddU64 n (rpcBlockBatch - 1)) n = n := by
      have hle : n ≤ saturatingAddU64 n (rpcBlockBatch - 1) := le_min (Nat.le_add_right _ _) hmax
      exact min_eq_right hle
    rw [blockChunks, if_pos le_rfl, Nat.add_sub_cancel_left]
    exact congrArg (fun last => [(n, last)]) hlast
  have hasked : (indexer oneByOne db).ReachableUnder ok
      { s with descent := .fetching frontier (n + 1) ⟨[], [.asked (n, n)], []⟩ } := by
    refine .step (a := .descentFetch .spawn) h (hok _ _ (by simp)) ?_
    simp only [indexer, IndexerState.exec, hpc, RangeFetch.exec, RangeFetch.first, hchunks]
    rfl
  have hdone : (indexer oneByOne db).ReachableUnder ok
      { s with descent := .fetching frontier (n + 1) ⟨[], [.done [bareBundle n]], []⟩ } := by
    refine .step (a := .descentFetch (.rawBlocks 0 (bareNode 0))) hasked (hok _ _ (by simp)) ?_
    simp only [indexer, IndexerState.exec, RangeFetch.exec, List.getElem?_cons_zero,
      fetchRawBlocks_bareNode, assemble_bareBlock]
    rfl
  have hjoined : (indexer oneByOne db).ReachableUnder ok
      { s with descent := .fetching frontier (n + 1) ⟨[], [], [bareBundle n]⟩ } :=
    .step (a := .descentFetch (.join 0)) hdone (hok _ _ (by simp)) rfl
  refine .step (a := .descentFetched) hjoined (hok _ _ (by simp)) ?_
  have hbelow : wrapU64 ((n + 1 : ℕ) - 1 : ℤ) = n :=
    wrapU64_pred (Nat.succ_le_succ (Nat.zero_le n)) (Nat.succ_le_succ hmax)
  have hcut : contiguousDownTo [bareBundle n] n = [bareBundle n] := by
    simp only [contiguousDownTo, List.reverse_singleton, descending, if_pos hheight]
  have hbundles : (⟨[], [], [bareBundle n]⟩ : RangeFetch).bundles = [bareBundle n] := rfl
  simp only [indexer, IndexerState.exec, hbundles, hbelow, hcut, List.head?_cons, hheight]
  rfl

theorem reachable_sent {db : Database} {s : IndexerState} {n : ℕ}
    (h : (indexer oneByOne db).ReachableUnder ok s) (hroom : s.channel.length < channelCapacity)
    (hpc : s.descent = .sending n [bareBundle n]) :
    (indexer oneByOne db).ReachableUnder ok { s with
      channel := s.channel ++ [bareBundle n]
      descent := .top (some n)
      descentSent := s.descentSent ++ [(bareBundle n).height] } := by
  have hsent : (indexer oneByOne db).ReachableUnder ok { s with
      channel := s.channel ++ [bareBundle n]
      descent := .sending n []
      descentSent := s.descentSent ++ [(bareBundle n).height] } := by
    refine .step (a := .descentSend) h (hok _ _ (by simp)) ?_
    simp only [indexer, IndexerState.exec, hpc, if_pos hroom]
  exact .step (a := .descentSend) hsent (hok _ _ (by simp)) rfl

end Window

end Sample

section Sample

attribute [local instance] Keccak.sponge Codec.bare

/-- **A descent from the head**, in two windows. -/
theorem indexer_gapless_twice : ∃ s : IndexerState,
    s.descentSent = [2, 1] ∧
      s.forwardSent = List.range' (s.base + 1) s.forwardSent.length ∧
      (∀ n ∈ s.forwardSent, n ≤ s.highest) ∧
      s.descentSent = (List.range s.descentSent.length).map (fun i => s.target - 1 - i) ∧
      ∀ n ∈ s.descentSent, 1 ≤ n := by
  have hok : ∀ (s : IndexerState) (a : IndexerAction), (∀ node, a ≠ .pickTarget node) → True :=
    fun _ _ _ => trivial
  have hboot : (indexer oneByOne .fresh).Reachable
      { IndexerState.boot .fresh with descent := .top none } :=
    .step (a := .descentBoot) (.start rfl) trivial rfl
  have htarget : (indexer oneByOne .fresh).Reachable
      { IndexerState.boot .fresh with target := 3, descent := .fetching none 3 (.first 2 2) } :=
    .step (a := .pickTarget (bareNode 2)) hboot trivial rfl
  have hupper := reachable_window hok htarget (n := 2) (by decide) rfl
  have hfirst := reachable_sent hok hupper (by decide) rfl
  have hbelow : (indexer oneByOne .fresh).Reachable
      { IndexerState.boot .fresh with
        target := 3, descent := .fetching (some 2) 2 (.first 1 1), channel := [bareBundle 2],
        descentSent := [2] } :=
    .step (a := .pickTarget (bareNode 2)) hfirst trivial rfl
  have hlower := reachable_window hok hbelow (n := 1) (by decide) rfl
  have hsecond := reachable_sent hok hlower (by decide) rfl
  exact ⟨_, rfl, indexer_gapless hsecond⟩

end Sample

end ChainExplorer
