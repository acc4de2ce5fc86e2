import ChainExplorer.Indexer.Gapless
import ChainExplorer.Lib.Intervals

/-!
# No hole among the stored heights

The cursors of both loops run ahead of the writer, and a process resumes from what was committed.

* `Database.stored`, `IndexerState.sighted`: the heights stored, and those with what is on its way.
* `IndexerState.NoHole`: the stored heights are an interval, and what is missing lies past the end
  that one of the loops resumes from.
* **`indexer_noHole`**: in every run in which a descent that starts over asks for a head that adjoins
  what was sent; **`indexer_hole`**: in one in which it does not, there is a hole.
-/

namespace ChainExplorer

open Intervals

/-! ## Heights -/

/-- The heights stored, as the loops read them. -/
def Database.stored (db : Database) : Set ℕ := {n | ∃ m ∈ db.blocks, wrapU64 m = n}

namespace IndexerState

/-- The heights on their way to the writer. -/
def onTheWay (s : IndexerState) : List ℕ := (s.batch ++ s.channel).map BlockBundle.height

/-- The heights stored or on their way. -/
def sighted (s : IndexerState) : Set ℕ := s.db.stored ∪ {n | n ∈ s.onTheWay}

/-- **No hole**: the stored heights are an interval, and a height that is missing is below the lowest
one, where the descent resumes, or above the highest one, where the forward loop does. -/
def NoHole (s : IndexerState) : Prop :=
  s.db.stored.OrdConnected ∧
    ∀ n ∉ s.db.stored, ∀ low ∈ s.lowest, ∀ high ∈ s.latest, n < low ∨ high < n

/-- A descent that starts over, from the head, finds nothing sent yet, or a head that adjoins what
was sent. -/
def HeadAdjoins (s : IndexerState) : IndexerAction → Prop
  | .pickTarget node => s.descent = .top none → s.tipLag ≤ tipYieldLag →
    ∀ head, (ethBlockNumber node []).1 = .ok head → Adjoins head s.sighted
  | _ => True

end IndexerState

theorem mem_stored_of_latest {s : IndexerState} {n : ℕ} (h : s.latest = some n) :
    n ∈ s.db.stored := by
  obtain ⟨m, hm, rfl⟩ := Option.map_eq_some_iff.mp h
  exact ⟨m, (Database.getMaxBlockNumber_eq_some.mp hm).1, rfl⟩

theorem mem_stored_of_lowest {s : IndexerState} {n : ℕ} (h : s.lowest = some n) :
    n ∈ s.db.stored := by
  obtain ⟨m, hm, rfl⟩ := Option.map_eq_some_iff.mp h
  exact ⟨m, (Database.getMinBlockNumber_eq_some.mp hm).1, rfl⟩

theorem stored_saveBlockBundles [Keccak] {ch : ℕ → Choices} {db db' : Database}
    {bundles : List BlockBundle} (h : db.saveBlockBundles ch bundles = .ok db') :
    db'.stored = db.stored ∪ {n | n ∈ bundles.map BlockBundle.height} := by
  ext n
  constructor
  · rintro ⟨m, hm, rfl⟩
    rcases (Database.saveBlockBundles_heights h m).mp hm with hold | ⟨bundle, hbundle, rfl⟩
    · exact .inl ⟨m, hold, rfl⟩
    · exact .inr (List.mem_map.mpr ⟨bundle, hbundle, rfl⟩)
  · rintro (⟨m, hm, rfl⟩ | hnew)
    · exact ⟨m, (Database.saveBlockBundles_heights h m).mpr (.inl hm), rfl⟩
    · obtain ⟨bundle, hbundle, rfl⟩ := List.mem_map.mp hnew
      exact ⟨bundle.block.number,
        (Database.saveBlockBundles_heights h _).mpr (.inr ⟨bundle, hbundle, rfl⟩), rfl⟩

/-! ## Where the loops stand -/

/-- The forward loop stands on a height that is stored or on its way, once it has one. -/
def ForwardPc.Rooted (reached : ℕ) (sighted : Set ℕ) : ForwardPc → Prop
  | .boot | .seeding _ => True
  | .waiting _ => reached = 0 ∨ reached ∈ sighted
  | .catching _ head => (reached = 0 ∧ head = 0) ∨ reached ∈ sighted
  | .fetching .. | .sending .. => reached ∈ sighted

theorem ForwardPc.Rooted.mono {reached : ℕ} {sighted sighted' : Set ℕ} {pc : ForwardPc}
    (h : pc.Rooted reached sighted) (hsub : sighted ⊆ sighted') : pc.Rooted reached sighted' := by
  cases pc with
  | boot => trivial
  | seeding head => trivial
  | waiting sent => exact h.imp_right fun hmem => hsub hmem
  | catching sent head => exact h.imp_right fun hmem => hsub hmem
  | fetching sent head f => exact hsub h
  | sending last head rest => exact hsub h

/-- The descent stands on a height that is stored or on its way, or what it sends first adjoins what
is. -/
def DescentPc.Rooted (frontier : ℕ) (sighted : Set ℕ) : DescentPc → Prop
  | .boot | .low => True
  | .top lowest => lowest.isSome → frontier ∈ sighted
  | .fetching lowest _ _ =>
    (lowest.isSome → frontier ∈ sighted) ∧ Adjoins (frontier - 1) sighted
  | .sending _ [] => frontier ∈ sighted
  | .sending _ (_ :: _) => Adjoins (frontier - 1) sighted

theorem DescentPc.Rooted.mono {frontier : ℕ} {sighted sighted' : Set ℕ} {pc : DescentPc}
    (h : pc.Rooted frontier sighted) (hne : sighted.Nonempty) (hsub : sighted ⊆ sighted') :
    pc.Rooted frontier sighted' := by
  cases pc with
  | boot => trivial
  | low => trivial
  | top lowest => exact fun hsome => hsub (h hsome)
  | fetching lowest target f => exact ⟨fun hsome => hsub (h.1 hsome), h.2.mono hne hsub⟩
  | sending reached rest =>
    cases rest with
    | nil => exact hsub h
    | cons b rest => exact Adjoins.mono h hne hsub

/-- What adjoins the height a descent stands on, from below. -/
theorem adjoins_pred {frontier : ℕ} {sighted : Set ℕ} (hmem : frontier ∈ sighted)
    (hpos : 1 ≤ frontier) : Adjoins (frontier - 1) sighted :=
  .below hmem (Nat.covBy_iff_add_one_eq.mpr (Nat.sub_add_cancel hpos))

/-! ## Every run -/

/-- **What every state keeps**: what is on its way extends the stored interval one height after the
other, and both loops stand on it. -/
structure IndexerState.Whole (s : IndexerState) : Prop where
  gapless : s.Gapless
  stored : s.db.stored.OrdConnected
  grows : Grows s.db.stored s.onTheWay
  forward : s.forward.Rooted (s.base + s.forwardSent.length) s.sighted
  descent : s.descent.Rooted (s.target - s.descentSent.length) s.sighted

theorem IndexerState.Whole.boot [Keccak] {db : Database} (h : db.stored.OrdConnected) :
    (IndexerState.boot db).Whole where
  gapless := .boot db
  stored := h
  grows := trivial
  forward := trivial
  descent := trivial

theorem IndexerState.Whole.noHole {s : IndexerState} (h : s.Whole) : s.NoHole := by
  refine ⟨h.stored, fun n hn low hlow high hhigh => ?_⟩
  by_contra hbetween
  rw [not_or, not_lt, not_lt] at hbetween
  exact hn (h.stored.out (mem_stored_of_lowest hlow) (mem_stored_of_latest hhigh) hbetween)

theorem IndexerState.sighted_push (s s' : IndexerState) {b : BlockBundle} (hdb : s'.db = s.db)
    (hbatch : s'.batch = s.batch) (hchannel : s'.channel = s.channel ++ [b]) :
    s'.onTheWay = s.onTheWay ++ [b.height] ∧ s'.sighted = insert b.height s.sighted := by
  have hway : s'.onTheWay = s.onTheWay ++ [b.height] := by
    rw [onTheWay, onTheWay, hbatch, hchannel, ← List.append_assoc, List.map_append]
    rfl
  refine ⟨hway, ?_⟩
  ext n
  simp only [sighted, hway, hdb, Set.mem_union, Set.mem_insert_iff, Set.mem_ofPred_eq,
    List.mem_append, List.mem_singleton]
  tauto

theorem DescentPc.rooted_sending {frontier reached : ℕ} {sighted : Set ℕ} {rest : List BlockBundle}
    (h : Adjoins (frontier - 1) sighted) (hne : rest ≠ []) :
    (DescentPc.sending reached rest).Rooted frontier sighted := by
  cases rest with
  | nil => exact absurd rfl hne
  | cons b rest => exact h

/-- **One step keeps it**, if the head a descent starts over from adjoins what was sent. -/
theorem IndexerState.Step.whole [Keccak] [Codec] {cfg : IndexerConfig} {s s' : IndexerState}
    {a : IndexerAction} (h : s.Step cfg a s') (hs : s.Whole) (hadj : s.HeadAdjoins a) : s'.Whole := by
  have hg := h.gapless hs.gapless
  cases h with
  | announce hmax => exact { hs with gapless := hg }
  | forwardBoot hpc =>
    refine { hs with gapless := hg, forward := ?_ }
    cases hlatest : s.latest with
    | none => exact .inl rfl
    | some n => exact .inr (.inl (mem_stored_of_latest hlatest))
  | receiveFirst hpc hheads => exact { hs with gapless := hg, forward := trivial }
  | @receive sent head rest hpc hheads hseed =>
    have hat := hs.gapless.forward
    have hrooted := hs.forward
    rw [hpc] at hat hrooted
    refine { hs with gapless := hg, forward := ?_ }
    rcases hrooted with hzero | hmem
    · -- Nothing is stored, so only a head of 0 is taken.
      have hhead : rest.foldl max head = 0 := by
        by_contra hne
        exact hseed ⟨hat.trans hzero, Nat.pos_of_ne_zero hne⟩
      exact .inl ⟨hzero, hhead⟩
    · exact .inr hmem
  | @seededAbove _ head sent hpc hlatest =>
    have hat := hs.gapless.forward
    rw [hpc] at hat
    have hzero : s.forwardSent.length = 0 := (Nat.add_eq_zero_iff.mp hat.1).2
    refine { hs with gapless := hg, forward := .inr ?_ }
    rw [hzero]
    exact .inl (mem_stored_of_latest hlatest)
  | @seeded _ head sent hpc hlatest hsent hlt =>
    have hat := hs.gapless.forward
    rw [hpc] at hat
    have hzero : s.forwardSent.length = 0 := (Nat.add_eq_zero_iff.mp hat.1).2
    refine { hs with gapless := hg, forward := .inr ?_ }
    rw [hzero]
    exact .inl (mem_stored_of_latest hlatest)
  | unseeded hpc hlatest =>
    have hat := hs.gapless.forward
    rw [hpc] at hat
    exact { hs with gapless := hg, forward := .inl hat.1 }
  | seedWait hpc hlatest => exact hs
  | @catchUp sent head hpc hlt =>
    have hrooted := hs.forward
    rw [hpc] at hrooted
    refine { hs with gapless := hg, forward := ?_ }
    rcases hrooted with ⟨-, rfl⟩ | hmem
    · exact absurd hlt (Nat.not_lt_zero _)
    · exact hmem
  | @caughtUp sent head hpc hle =>
    have hrooted := hs.forward
    rw [hpc] at hrooted
    exact { hs with gapless := hg, forward := hrooted.imp_left fun hzero => hzero.1 }
  | forwardFetch hpc hstep =>
    have hrooted := hs.forward
    rw [hpc] at hrooted
    exact { hs with gapless := hg, forward := hrooted }
  | forwardNothing hpc hover hnil =>
    have hrooted := hs.forward
    rw [hpc] at hrooted
    exact { hs with gapless := hg, forward := .inr hrooted }
  | forwardFetched hpc hover hlast =>
    have hrooted := hs.forward
    rw [hpc] at hrooted
    exact { hs with gapless := hg, forward := hrooted }
  | @forwardSend reached head b rest hpc =>
    have hat := hs.gapless.forward
    have hmem := hs.forward
    rw [hpc] at hat hmem
    have hrun := hat.1
    rw [List.map_cons, List.length_cons, List.range'_succ] at hrun
    have hb : b.height = s.base + s.forwardSent.length + 1 := (List.cons.inj hrun).1
    obtain ⟨hway, hsighted⟩ := sighted_push s { s with
      channel := s.channel ++ [b]
      forward := .sending reached head rest
      forwardSent := s.forwardSent ++ [b.height] } rfl rfl rfl
    have hsub := Set.subset_insert b.height s.sighted
    refine ⟨hg, hs.stored, ?_, ?_, ?_⟩
    · rw [hway, hb]
      exact grows_append.mpr ⟨hs.grows, .above hmem (Nat.covBy_iff_add_one_eq.mpr rfl), trivial⟩
    · rw [hsighted]
      refine Set.mem_insert_iff.mpr (.inl ?_)
      rw [hb, List.length_append]
      rfl
    · rw [hsighted]
      exact hs.descent.mono ⟨_, hmem⟩ hsub
  | forwardSentAll hpc =>
    have hrooted := hs.forward
    rw [hpc] at hrooted
    exact { hs with gapless := hg, forward := .inr hrooted }
  | descentBoot hpc =>
    refine { hs with gapless := hg, descent := fun hsome => ?_ }
    obtain ⟨n, hn⟩ := Option.isSome_iff_exists.mp hsome
    rw [hn]
    exact .inl (mem_stored_of_lowest hn)
  | yield hpc => exact hs
  | @pickBelow _ min hpc hmin =>
    have hat := hs.gapless.descent
    have hrooted := hs.descent
    rw [hpc] at hat hrooted
    have hfrontier : min = s.target - s.descentSent.length := hat min rfl
    have hmem := hrooted rfl
    exact { hs with
      gapless := hg
      descent := ⟨hrooted, adjoins_pred hmem (hfrontier ▸ hmin.le)⟩ }
  | pickNone hpc hmin => exact { hs with gapless := hg, descent := trivial }
  | @pickHead node head hpc hlag hhead =>
    exact { hs with gapless := hg, descent := ⟨nofun, hadj hpc hlag head hhead⟩ }
  | readLowest hpc =>
    refine { hs with gapless := hg, descent := fun hsome => ?_ }
    obtain ⟨n, hn⟩ := Option.isSome_iff_exists.mp hsome
    rw [hn]
    exact .inl (mem_stored_of_lowest hn)
  | descentFetch hpc hstep =>
    have hrooted := hs.descent
    rw [hpc] at hrooted
    exact { hs with gapless := hg, descent := hrooted }
  | descentNothing hpc hover =>
    have hrooted := hs.descent
    rw [hpc] at hrooted
    exact { hs with gapless := hg, descent := hrooted.1 }
  | @descentFetched _ target f lowest hpc hover hlowest =>
    have hrooted := hs.descent
    rw [hpc] at hrooted
    refine { hs with gapless := hg, descent := DescentPc.rooted_sending hrooted.2 ?_ }
    intro hnil
    rw [List.reverse_eq_nil_iff.mp hnil] at hlowest
    exact absurd hlowest nofun
  | @descentSend reached b rest hpc =>
    have hat := hs.gapless.descent
    have hadjoins := hs.descent
    rw [hpc] at hat hadjoins
    obtain ⟨hrun, hle, -⟩ := hat
    rw [List.map_cons, List.length_cons, List.range_succ_eq_map, List.map_cons] at hrun
    have hb : b.height = s.target - s.descentSent.length - 1 := (List.cons.inj hrun).1
    obtain ⟨hway, hsighted⟩ := sighted_push s { s with
      channel := s.channel ++ [b]
      descent := .sending reached rest
      descentSent := s.descentSent ++ [b.height] } rfl rfl rfl
    have hsub := Set.subset_insert b.height s.sighted
    have hfrontier : s.target - (s.descentSent ++ [b.height]).length = b.height := by
      rw [hb, List.length_append, List.length_singleton, Nat.sub_add_eq]
    refine ⟨hg, hs.stored, ?_, ?_, ?_⟩
    · rw [hway, hb]
      exact grows_append.mpr ⟨hs.grows, hadjoins, trivial⟩
    · rw [hsighted]
      exact hs.forward.mono hsub
    · rw [hsighted, hfrontier]
      have hmem := Set.mem_insert b.height s.sighted
      cases rest with
      | nil => exact hmem
      | cons c rest =>
        rw [List.length_cons, List.length_cons] at hle
        exact adjoins_pred hmem (by omega)
  | @descentSentAll reached hpc =>
    have hrooted := hs.descent
    rw [hpc] at hrooted
    exact { hs with gapless := hg, descent := fun _ => hrooted }
  | writerTake hbatch =>
    have hway : IndexerState.onTheWay
        { s with batch := s.channel.take maxBatch, channel := s.channel.drop maxBatch } =
        s.onTheWay := by
      rw [onTheWay, onTheWay, List.take_append_drop, hbatch, List.nil_append]
    have hsighted : IndexerState.sighted
        { s with batch := s.channel.take maxBatch, channel := s.channel.drop maxBatch } =
        s.sighted := by
      rw [sighted, sighted, hway]
    refine ⟨hg, hs.stored, ?_, ?_, ?_⟩
    · rw [hway]
      exact hs.grows
    · rw [hsighted]
      exact hs.forward
    · rw [hsighted]
      exact hs.descent
  | writerFails => exact hs
  | @writerSaves ch db hsave =>
    have hstored := stored_saveBlockBundles hsave
    have hgrows := hs.grows
    rw [onTheWay, List.map_append] at hgrows
    obtain ⟨hbatch, hchannel⟩ := grows_append.mp hgrows
    have hsighted : IndexerState.sighted { s with db := db, batch := [] } = s.sighted := by
      ext n
      simp only [sighted, onTheWay, hstored, List.nil_append, List.map_append, List.mem_append,
        Set.mem_union, Set.mem_ofPred_eq]
      tauto
    refine ⟨hg, ?_, ?_, ?_, ?_⟩
    · rw [hstored]
      exact hbatch.ordConnected hs.stored
    · rw [hstored]
      exact hchannel
    · rw [hsighted]
      exact hs.forward
    · rw [hsighted]
      exact hs.descent
  | crash => exact .boot hs.stored

theorem stored_fresh : Database.fresh.stored = ∅ := by
  ext n
  refine iff_of_false ?_ (Set.notMem_empty n)
  rintro ⟨m, hm, -⟩
  exact absurd hm (AList.notMem_empty m)

/-- **No hole**, whatever the node answers, the order of steps, the writer's pace and the crashes,
in every run in which a descent that starts over asks for a head that adjoins what was sent. -/
theorem indexer_noHole [Keccak] [Codec] {cfg : IndexerConfig} {s : IndexerState}
    (h : (indexer cfg .fresh).ReachableUnder IndexerState.HeadAdjoins s) : s.NoHole := by
  have hs : s.Whole := by
    refine h.invariant ?_ ?_
    · rintro s rfl
      refine .boot ?_
      rw [stored_fresh]
      exact Set.ordConnected_empty
    · intro s a s' hs hok hexec
      exact (IndexerState.step_of_exec hexec).whole hs hok
  exact hs.noHole

/-! ## A head that has moved on -/

section Sample

attribute [local instance] Keccak.sponge Codec.bare

theorem headAdjoins_of_ne {s : IndexerState} {a : IndexerAction} (h : ∀ node, a ≠ .pickTarget node) :
    s.HeadAdjoins a := by
  cases a with
  | pickTarget node => exact absurd rfl (h node)
  | _ => trivial

theorem reachable_committed {ok : IndexerState → IndexerAction → Prop}
    (hok : ∀ s a, (∀ node, a ≠ .pickTarget node) → ok s a) {cfg : IndexerConfig} {db db' : Database}
    {s : IndexerState} {b : BlockBundle} {bundles : List BlockBundle}
    (h : (indexer cfg db).ReachableUnder ok s) (hbatch : s.batch = [])
    (hchannel : s.channel = b :: bundles) (hlen : (b :: bundles).length ≤ maxBatch)
    (hsave : s.db.saveBlockBundles (fun _ => .plain) (b :: bundles) = .ok db') :
    (indexer cfg db).ReachableUnder ok { s with db := db', batch := [], channel := [] } := by
  have htaken : (indexer cfg db).ReachableUnder ok { s with batch := b :: bundles, channel := [] } := by
    refine .step (a := .writerTake) h (hok _ _ (by simp)) ?_
    simp only [indexer, IndexerState.exec, hbatch, hchannel, List.take_of_length_le hlen,
      List.drop_of_length_le hlen]
    rfl
  refine .step (a := .writerSave (fun _ => .plain) false) htaken (hok _ _ (by simp)) ?_
  simp only [indexer, IndexerState.exec, hsave]
  rfl

/-- A process that has just read an empty database. -/
theorem reachable_empty {ok : IndexerState → IndexerAction → Prop}
    (hok : ∀ s a, (∀ node, a ≠ .pickTarget node) → ok s a) :
    (indexer oneByOne .fresh).ReachableUnder ok
      { IndexerState.boot .fresh with descent := .top none } :=
  .step (a := .descentBoot) (.start rfl) (hok _ _ nofun) rfl

/-- The block at height 1 was sent, and the database, which does not have it yet, read again. -/
def sentOnce : IndexerState :=
  { IndexerState.boot .fresh with descent := .top none, channel := [bareBundle 1] }

/-- A descent from height 1, which starts over before its block is stored. -/
theorem reachable_sentOnce {ok : IndexerState → IndexerAction → Prop}
    (hok : ∀ s a, (∀ node, a ≠ .pickTarget node) → ok s a)
    (hpick : ∀ s node, (s.descent = .top none → s.sighted = ∅) → ok s (.pickTarget node)) :
    (indexer oneByOne .fresh).ReachableUnder ok sentOnce := by
  have htarget : (indexer oneByOne .fresh).ReachableUnder ok
      { IndexerState.boot .fresh with target := 2, descent := .fetching none 2 (.first 1 1) } := by
    refine .step (a := .pickTarget (bareNode 1)) (reachable_empty hok) (hpick _ _ fun _ => ?_) rfl
    simp [IndexerState.sighted, IndexerState.onTheWay, IndexerState.boot, stored_fresh]
  have hsent := reachable_sent hok (reachable_window hok htarget (n := 1) (by decide) rfl)
    (by decide) rfl
  have hlow : (indexer oneByOne .fresh).ReachableUnder ok
      { IndexerState.boot .fresh with
        target := 2, descent := .low, channel := [bareBundle 1], descentSent := [1] } :=
    .step (a := .pickTarget (bareNode 1)) hsent (hpick _ _ fun h => absurd h nofun) rfl
  exact .step (a := .readLowest) hlow (hok _ _ nofun) rfl

/-- A second descent, from another head. -/
def startedOver (head : ℕ) : IndexerState :=
  { sentOnce with target := head + 1, descent := .fetching none (head + 1) (.first head head) }

/-- Both blocks are stored, in one commit. -/
theorem reachable_sentTwice {ok : IndexerState → IndexerAction → Prop}
    (hok : ∀ s a, (∀ node, a ≠ .pickTarget node) → ok s a) {head : ℕ} {db : Database}
    (hhead : (bareBundle head).height = head)
    (htarget : (indexer oneByOne .fresh).ReachableUnder ok (startedOver head))
    (hsave : Database.fresh.saveBlockBundles (fun _ => .plain) [bareBundle 1, bareBundle head] =
      .ok db) : ∃ s, (indexer oneByOne .fresh).ReachableUnder ok s ∧ s.db = db := by
  have hroom : [bareBundle 1].length < channelCapacity := by decide
  have hfits : 2 ≤ maxBatch := by decide
  have hsent := reachable_sent hok (reachable_window hok htarget hhead rfl) hroom rfl
  exact ⟨_, reachable_committed hok hsent rfl rfl hfits hsave, rfl⟩

/-- **Two descents from the head are stored** with no hole: the second starts over from a head that
adjoins the block on its way. -/
theorem indexer_noHole_one : ∃ s : IndexerState, s.db.stored = {n | n ∈ [1, 2]} ∧ s.NoHole := by
  have hok := fun s a => headAdjoins_of_ne (s := s) (a := a)
  have honce : (indexer oneByOne .fresh).ReachableUnder IndexerState.HeadAdjoins sentOnce :=
    reachable_sentOnce hok fun s node hnone hpc _ _ _ => .inl (hnone hpc)
  have htarget : (indexer oneByOne .fresh).ReachableUnder IndexerState.HeadAdjoins
      (startedOver 2) := by
    refine .step (a := .pickTarget (bareNode 2)) honce (fun _ _ head hhead => ?_) rfl
    obtain rfl : 2 = head := Except.ok.inj hhead
    exact .above (b := 1) (.inr List.mem_cons_self) (Nat.covBy_iff_add_one_eq.mpr rfl)
  obtain ⟨db, hsave⟩ := Database.exists_commit .fresh [bareBundle 1, bareBundle 2] (by decide)
  obtain ⟨s, hs, rfl⟩ := reachable_sentTwice hok (by decide) htarget hsave
  refine ⟨s, ?_, indexer_noHole hs⟩
  rw [stored_saveBlockBundles hsave, stored_fresh, Set.empty_union]
  rfl

/-- **A hole**: the block at height 1 is sent, and before it is stored the descent reads the
database again, starts over from a head that has moved on, and sends the block at height 3. Both are
stored, and no loop resumes below 1 or between them. -/
theorem indexer_hole : ¬ ∀ s : IndexerState, (indexer oneByOne .fresh).Reachable s → s.NoHole := by
  intro hall
  have hok : ∀ (s : IndexerState) (a : IndexerAction), (∀ node, a ≠ .pickTarget node) → True :=
    fun _ _ _ => trivial
  have htarget : (indexer oneByOne .fresh).Reachable (startedOver 3) :=
    .step (a := .pickTarget (bareNode 3)) (reachable_sentOnce hok fun _ _ _ => trivial) trivial rfl
  obtain ⟨db, hsave⟩ := Database.exists_commit .fresh [bareBundle 1, bareBundle 3] (by decide)
  obtain ⟨s, hs, rfl⟩ := reachable_sentTwice hok (by decide) htarget hsave
  have hstored : s.db.stored = {n | n ∈ [1, 3]} := by
    rw [stored_saveBlockBundles hsave, stored_fresh, Set.empty_union]
    rfl
  obtain ⟨hinterval, -⟩ := hall _ hs
  have hmem : 2 ∈ s.db.stored := by
    refine hinterval.out (x := 1) ?_ (y := 3) ?_ ⟨by decide, by decide⟩
    · rw [hstored]
      exact List.mem_cons_self
    · rw [hstored]
      exact List.mem_cons_of_mem _ List.mem_cons_self
  rw [hstored] at hmem
  exact absurd hmem (by decide)

end Sample

end ChainExplorer
