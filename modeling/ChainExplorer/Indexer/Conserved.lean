import ChainExplorer.Indexer.Mirror
import ChainExplorer.Lib.Observe

/-!
# Nothing is lost between the loops and the database

The loops send bundles to one queue, the writer takes them off in batches, and a batch is committed
whole or stays. Only the end of a process drops what is queued.

* `IndexerState.sends`: what a step puts behind the queue.
* `Departure`, `IndexerState.departs`: what leaves the queue, by a commit or with the process.
* `Departed db departures db'`: a database after some departures.
* **`indexer_conserves`**: along every run.
-/

namespace ChainExplorer

/-- How bundles leave the queue. -/
inductive Departure
  | committed (batch : List BlockBundle)
  | dropped (bundles : List BlockBundle)

def Departure.bundles : Departure → List BlockBundle
  | .committed batch => batch
  | .dropped bundles => bundles

/-- **A database after some departures**: every batch was committed in one transaction, in order, and
what was dropped left no trace. -/
inductive Departed : Database → List Departure → Database → Prop
  | nil (db : Database) : Departed db [] db
  | committed {db mid db' : Database} {ch : ℕ → Choices} {batch : List BlockBundle}
      {rest : List Departure} (hsave : db.saveBlockBundles ch batch = .ok mid)
      (hrest : Departed mid rest db') : Departed db (.committed batch :: rest) db'
  | dropped {db db' : Database} {bundles : List BlockBundle} {rest : List Departure}
      (hrest : Departed db rest db') : Departed db (.dropped bundles :: rest) db'

namespace IndexerState

/-- What a step sends. -/
def sends (s : IndexerState) : IndexerAction → List BlockBundle
  | .forwardSend =>
    match s.forward with
    | .sending _ _ (b :: _) => [b]
    | _ => []
  | .descentSend =>
    match s.descent with
    | .sending _ (b :: _) => [b]
    | _ => []
  | _ => []

/-- What leaves the queue in a step. -/
def departs (s : IndexerState) : IndexerAction → List Departure
  | .writerSave ch fails =>
    if s.batch.isEmpty ∨ fails then []
    else
      match s.db.saveBlockBundles ch s.batch with
      | .ok _ => [.committed s.batch]
      | .error _ => []
  | .crash => [.dropped s.queue]
  | _ => []

/-- The channel keeps to its capacity, and a batch to its size. -/
structure Bounded (s : IndexerState) : Prop where
  channel : s.channel.length ≤ channelCapacity
  batch : s.batch.length ≤ maxBatch

end IndexerState

section Keccak

variable [Keccak] [Codec] {cfg : IndexerConfig} {s s' : IndexerState}

theorem IndexerState.exec_writerSave {ch : ℕ → Choices} {fails : Bool}
    (h : s.exec cfg (.writerSave ch fails) = some s') :
    (s.departs (.writerSave ch fails) = [] ∧ s' = s) ∨
      ∃ db, s.batch ≠ [] ∧ s.db.saveBlockBundles ch s.batch = .ok db ∧
        s.departs (.writerSave ch fails) = [.committed s.batch] ∧
        s' = { s with db := db, batch := [] } := by
  simp only [exec] at h
  split_ifs at h with hbatch hfails
  · obtain rfl := Option.some.inj h
    exact .inl ⟨if_pos (.inr hfails), rfl⟩
  · have hdeparts : ¬(s.batch.isEmpty = true ∨ fails = true) := not_or.mpr ⟨hbatch, hfails⟩
    cases hsave : s.db.saveBlockBundles ch s.batch with
    | error e =>
      rw [hsave] at h
      refine .inl ⟨?_, (Option.some.inj h).symm⟩
      rw [departs, if_neg hdeparts, hsave]
    | ok db =>
      rw [hsave] at h
      refine .inr ⟨db, fun hnil => hbatch (List.isEmpty_iff.mpr hnil), rfl, ?_,
        (Option.some.inj h).symm⟩
      rw [departs, if_neg hdeparts, hsave]

theorem IndexerState.queue_step {a : IndexerAction} (h : s.exec cfg a = some s') :
    s.queue ++ s.sends a = (s.departs a).flatMap Departure.bundles ++ s'.queue := by
  have hstep := step_of_exec h
  cases hstep with
  | forwardSend hpc => simp [queue, sends, departs, hpc]
  | forwardSentAll hpc => simp [queue, sends, departs, hpc]
  | descentSend hpc => simp [queue, sends, departs, hpc]
  | descentSentAll hpc => simp [queue, sends, departs, hpc]
  | writerTake hbatch => simp [queue, sends, departs, hbatch]
  | pickBelow hpc hmin => simp [queue, sends, departs, descend]
  | pickHead hpc hlag hhead => simp [queue, sends, departs, descend]
  | crash => simp [queue, sends, departs, boot, Departure.bundles]
  | writerFails =>
    rcases exec_writerSave h with ⟨hdeparts, -⟩ | ⟨db, hbatch, -, -, hsame⟩
    · simp [queue, sends, hdeparts]
    · exact absurd (congrArg IndexerState.batch hsame) hbatch
  | writerSaves hsave =>
    rcases exec_writerSave h with ⟨hdeparts, hsame⟩ | ⟨db, -, -, hdeparts, hsame⟩
    · rw [hdeparts, ← hsame]
      simp [queue, sends]
    · rw [hdeparts, hsame]
      simp [queue, sends, Departure.bundles]
  | _ => simp [queue, sends, departs]

theorem IndexerState.departed_step {a : IndexerAction} (h : s.exec cfg a = some s')
    {rest : List Departure} {db : Database} (hrest : Departed s'.db rest db) :
    Departed s.db (s.departs a ++ rest) db := by
  have hstep := step_of_exec h
  cases hstep with
  | writerFails =>
    rcases exec_writerSave h with ⟨hdeparts, -⟩ | ⟨db', hbatch, -, -, hsame⟩
    · rwa [hdeparts]
    · exact absurd (congrArg IndexerState.batch hsame) hbatch
  | writerSaves hsave =>
    rcases exec_writerSave h with ⟨hdeparts, hsame⟩ | ⟨db', -, -, hdeparts, -⟩
    · rw [hdeparts]
      rwa [hsame] at hrest
    · rw [hdeparts]
      exact .committed hsave hrest
  | crash => exact .dropped hrest
  | _ => exact hrest

theorem IndexerState.bounded_step {a : IndexerAction} (h : s.exec cfg a = some s')
    (hs : s.Bounded) : s'.Bounded := by
  have hroom : ∀ {b : BlockBundle}, s.channel.length < channelCapacity →
      (s.channel ++ [b]).length ≤ channelCapacity := by
    intro b hlt
    rwa [List.length_append, List.length_singleton, Nat.add_one_le_iff]
  have hstep := step_of_exec h
  cases hstep with
  | forwardSend hpc =>
    simp only [exec, hpc] at h
    split_ifs at h with hlt
    exact { hs with channel := hroom hlt }
  | descentSend hpc =>
    simp only [exec, hpc] at h
    split_ifs at h with hlt
    exact { hs with channel := hroom hlt }
  | writerTake hbatch =>
    refine ⟨?_, List.length_take_le _ _⟩
    exact (List.drop_sublist _ _).length_le.trans hs.channel
  | writerSaves hsave => exact { hs with batch := Nat.zero_le _ }
  | crash => exact ⟨Nat.zero_le _, Nat.zero_le _⟩
  | _ => exact ⟨hs.channel, hs.batch⟩

omit [Keccak] [Codec] in
theorem IndexerState.departs_batch {a : IndexerAction} (hs : s.Bounded) {batch : List BlockBundle}
    (h : .committed batch ∈ s.departs a) : batch ≠ [] ∧ batch.length ≤ maxBatch := by
  cases a with
  | writerSave ch fails =>
    simp only [departs] at h
    split_ifs at h with hempty
    · exact absurd h List.not_mem_nil
    · split at h
      · obtain rfl := Departure.committed.inj (List.mem_singleton.mp h)
        exact ⟨fun hnil => hempty (.inl (List.isEmpty_iff.mpr hnil)), hs.batch⟩
      · exact absurd h List.not_mem_nil
  | crash => cases List.mem_singleton.mp h
  | _ => exact absurd h List.not_mem_nil

/-- **Nothing is lost, doubled or overtaken**, along any run from any state reached: what was queued
and what both loops sent has left the queue in that order, or is in it; the database is the one
before with every batch that left committed whole, one after the other, and nothing else; and what a
process drops as it ends is only what was queued. Batches are of 1 to 64 bundles, and the channel
holds at most 1024. -/
theorem indexer_conserves {db : Database} (hs : (indexer cfg db).Reachable s)
    {as : List IndexerAction} (hrun : (indexer cfg db).run s as = some s') :
    s.queue ++ (indexer cfg db).observe IndexerState.sends s as =
        ((indexer cfg db).observe IndexerState.departs s as).flatMap Departure.bundles ++ s'.queue ∧
      Departed s.db ((indexer cfg db).observe IndexerState.departs s as) s'.db ∧
      (∀ batch, .committed batch ∈ (indexer cfg db).observe IndexerState.departs s as →
        batch ≠ [] ∧ batch.length ≤ maxBatch) ∧
      s'.channel.length ≤ channelCapacity := by
  have hbounded : ∀ {s : IndexerState}, (indexer cfg db).Reachable s → s.Bounded := by
    intro s hs
    refine hs.invariant ?_ ?_
    · rintro s rfl
      exact ⟨Nat.zero_le _, Nat.zero_le _⟩
    · intro s a s' hs _ hexec
      exact IndexerState.bounded_step hexec hs
  refine ⟨System.observe_balance (fun s a s' hexec => IndexerState.queue_step hexec) hrun, ?_, ?_,
    (hbounded (hs.run hrun)).channel⟩
  · induction as generalizing s with
    | nil =>
      obtain rfl := Option.some.inj hrun
      exact .nil _
    | cons a as ih =>
      obtain ⟨mid, hexec, hrest⟩ := Option.bind_eq_some_iff.mp hrun
      rw [System.observe_cons _ hexec]
      exact IndexerState.departed_step hexec (ih (.step hs trivial hexec) hrest)
  · intro batch hbatch
    refine System.observe_forall (I := IndexerState.Bounded)
      (P := fun d : Departure => ∀ batch, d = .committed batch → batch ≠ [] ∧ batch.length ≤ maxBatch)
      ?_ ?_ (hbounded hs) as (.committed batch) hbatch batch rfl
    · intro s a s' hs hexec
      exact IndexerState.bounded_step hexec hs
    · rintro s a hs d hd batch rfl
      exact IndexerState.departs_batch hs hd

end Keccak

section Sample

attribute [local instance] Keccak.sponge Codec.transfers

/-- The higher of two blocks is sent and committed, and the process ends once the other is sent. -/
def coinSteps : List IndexerAction :=
  [.descentSend, .writerTake, .writerSave (fun _ => .plain) false, .descentSend, .crash]

/-- **One block is committed and the other dropped**, in the order they were sent. -/
theorem indexer_conserves_coins : ∃ s : IndexerState,
    (indexer twoAtOnce .fresh).run coinsFetched coinSteps = some s ∧
      (indexer twoAtOnce .fresh).observe IndexerState.departs coinsFetched coinSteps =
        [.committed [coinBundle 2], .dropped [coinBundle 1]] ∧
      coinsFetched.queue ++
          (indexer twoAtOnce .fresh).observe IndexerState.sends coinsFetched coinSteps =
        [coinBundle 2, coinBundle 1] ++ s.queue ∧
      Departed .fresh [.committed [coinBundle 2], .dropped [coinBundle 1]] s.db := by
  obtain ⟨db, hsave⟩ := Database.exists_commit .fresh [coinBundle 2] (by decide +kernel)
  set sent : IndexerState := { coinsFetched with
    descent := .sending 1 [coinBundle 1]
    channel := [coinBundle 2]
    descentSent := [(coinBundle 2).height] }
  set stored : IndexerState := { sent with db := db, channel := [] }
  set behind : IndexerState := { stored with
    descent := .sending 1 []
    channel := [coinBundle 1]
    descentSent := [(coinBundle 2).height, (coinBundle 1).height] }
  have hsend : (indexer twoAtOnce .fresh).exec coinsFetched .descentSend = some sent := rfl
  have htake : (indexer twoAtOnce .fresh).exec sent .writerTake =
      some { sent with channel := [], batch := [coinBundle 2] } := rfl
  have hcommit : (indexer twoAtOnce .fresh).exec { sent with channel := [], batch := [coinBundle 2] }
      (.writerSave (fun _ => .plain) false) = some stored := by
    have hdb : sent.db = .fresh := rfl
    simp only [indexer, IndexerState.exec, hdb, hsave]
    rfl
  have hsendMore : (indexer twoAtOnce .fresh).exec stored .descentSend = some behind := rfl
  have hcrash : (indexer twoAtOnce .fresh).exec behind .crash = some (.boot db) := rfl
  have hrun : (indexer twoAtOnce .fresh).run coinsFetched coinSteps = some (.boot db) := by
    simp only [coinSteps, System.run, hsend, htake, hcommit, hsendMore, hcrash, Option.bind_some]
  have hdeparts : (indexer twoAtOnce .fresh).observe IndexerState.departs coinsFetched coinSteps =
      [.committed [coinBundle 2], .dropped [coinBundle 1]] := by
    rw [coinSteps, System.observe_cons _ hsend, System.observe_cons _ htake,
      System.observe_cons _ hcommit, System.observe_cons _ hsendMore, System.observe_cons _ hcrash]
    have hdb : sent.db = .fresh := rfl
    simp only [IndexerState.departs, hdb, hsave]
    rfl
  obtain ⟨hqueue, hdeparted, -, -⟩ :=
    indexer_conserves (reachable_coinsFetched fun _ _ _ _ => trivial) hrun
  rw [hdeparts] at hqueue hdeparted
  exact ⟨_, hrun, hdeparts, hqueue, hdeparted⟩

end Sample

end ChainExplorer
