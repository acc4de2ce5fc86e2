import ChainExplorer.Indexer.Tasks
import ChainExplorer.Lib.Termination

/-!
# How the tasks end

Nothing keeps the tasks of the indexer from going on, and once they are asked to stop they end, in
whatever order their steps fall.

* `Tasks.WaitsFor`: what a task that cannot go on waits for; **`Inv.led`**: in the end for one that can.
* `Tasks.left`: the steps left to all tasks together; **`left_exec`**: each step is one of them.
* **`tasks_end`**: no task ends before it is asked to, and all end once they are.
-/

namespace ChainExplorer

/-! ## Who waits for whom -/

inductive Task
  | watcher
  | forward
  | backfill
  | writer
  | runner
  | stats
  | genesis
deriving DecidableEq, Repr

/-- Whose step it is. The stop, and what a subscription reads or how it ends, are up to others. -/
def TaskStep.task : TaskStep → Option Task
  | .stop => none
  | .watcher _ => some .watcher
  | .socket a => if a = .dropped then some .watcher else none
  | .forward _ => some .forward
  | .backfill _ => some .backfill
  | .writer _ => some .writer
  | .runner => some .runner
  | .stats _ => some .stats
  | .genesis _ => some .genesis

namespace Tasks

/-- A task has ended; the watcher, with its subscription. -/
def Ended (s : Tasks) : Task → Prop
  | .watcher => s.HeadsClosed
  | .forward => s.forward = .done
  | .backfill => s.backfill = .done
  | .writer => s.writer = .done
  | .runner => s.runner = .done
  | .stats => s.stats = .done
  | .genesis => s.genesis = .done

/-- A task has a next step, whatever the others do. -/
def CanGo (batch : ℕ) (s : Tasks) (t : Task) : Prop :=
  ∃ a : TaskStep, a.task = some t ∧ (s.exec batch a).isSome = true

/-- **Who waits for whom**: for room in a channel, for what is in one, or for an end. -/
def WaitsFor (s : Tasks) : Task → Task → Prop
  | .watcher, .forward => (∃ u, s.watcher = .offer u) ∧ s.heads = headsBound
  | .forward, .watcher => s.forward = .receive ∧ s.heads = 0
  | .forward, .writer => (∃ more, s.forward = .send more) ∧ s.bundles = bundlesBound
  | .backfill, .writer => (∃ more, s.backfill = .send more) ∧ s.bundles = bundlesBound
  | .writer, .forward => s.writer = .receive ∧ s.bundles = 0
  | .writer, .backfill => s.writer = .receive ∧ s.bundles = 0
  | .runner, .forward => s.runner = .loops
  | .runner, .backfill => s.runner = .loops
  | .runner, .writer => s.runner = .writer
  | _, _ => False

section Waits

variable {batch : ℕ} {s : Tasks}

theorem watcher_goes (batch : ℕ) (hs : s.Inv) (h : ¬s.Ended .watcher) :
    s.CanGo batch .watcher ∨ s.WaitsFor .watcher .forward ∧ s.forward ≠ .done := by
  cases hplace : s.watcher with
  | check u => exact .inl ⟨.watcher .look, rfl, by simp [exec, watcherStep, hplace]⟩
  | ask u => exact .inl ⟨.watcher (.asked true), rfl, by simp [exec, watcherStep, hplace]⟩
  | offer u =>
    by_cases hdone : s.forward = .done
    · exact .inl ⟨.watcher .offer, rfl, by simp [exec, watcherStep, hplace, hdone]⟩
    by_cases hroom : s.heads < headsBound
    · exact .inl ⟨.watcher .offer, rfl, by simp [exec, watcherStep, hplace, hdone, hroom]⟩
    · exact .inr ⟨⟨⟨u, hplace⟩, le_antisymm hs.heads (not_lt.mp hroom)⟩, hdone⟩
  | wait u told =>
    cases told with
    | false => exact .inl ⟨.watcher .elapsed, rfl, by simp [exec, watcherStep, hplace]⟩
    | true =>
      have hstop := hs.watcher (by rw [hplace]; rfl)
      exact .inl ⟨.watcher .told, rfl, by simp [exec, watcherStep, hplace, hstop]⟩
  | done =>
    cases hsocket : s.socket with
    | none => exact absurd ⟨hplace, hsocket⟩ h
    | running =>
      have huntil := hs.socket hsocket
      rw [hplace] at huntil
      cases huntil
    | aborted => exact .inl ⟨.socket .dropped, rfl, by simp [exec, socketStep, hsocket]⟩

theorem forward_goes (batch : ℕ) (hs : s.Inv) (h : s.forward ≠ .done) :
    s.CanGo batch .forward ∨ s.WaitsFor .forward .watcher ∧ ¬s.Ended .watcher ∨
      s.WaitsFor .forward .writer ∧ s.writer ≠ .done := by
  cases hplace : s.forward with
  | receive =>
    by_cases hempty : s.heads = 0
    · by_cases hclosed : s.HeadsClosed
      · exact .inl ⟨.forward (.receive .again), rfl, by
          simp [exec, forwardStep, hplace, hempty, hclosed]⟩
      · exact .inr (.inl ⟨⟨hplace, hempty⟩, hclosed⟩)
    · refine .inl ⟨.forward (.receive .again), rfl, ?_⟩
      by_cases hstop : s.stop = true <;> simp [exec, forwardStep, hplace, hempty, hstop]
  | seed => exact .inl ⟨.forward (.seeded true), rfl, by simp [exec, forwardStep, hplace]⟩
  | window => exact .inl ⟨.forward .look, rfl, by simp [exec, forwardStep, hplace]⟩
  | fetch => exact .inl ⟨.forward (.fetched 0), rfl, by simp [exec, forwardStep, hplace]⟩
  | send more =>
    by_cases hdone : s.writer = .done
    · exact .inl ⟨.forward (.send true), rfl, by simp [exec, forwardStep, hplace, hdone]⟩
    by_cases hroom : s.bundles < bundlesBound
    · exact .inl ⟨.forward (.send true), rfl, by simp [exec, forwardStep, hplace, hdone, hroom]⟩
    · exact .inr (.inr ⟨⟨⟨more, hplace⟩, le_antisymm hs.bundles (not_lt.mp hroom)⟩, hdone⟩)
  | retry told =>
    cases told with
    | false => exact .inl ⟨.forward .elapsed, rfl, by simp [exec, forwardStep, hplace]⟩
    | true =>
      have hstop := hs.forward (by rw [hplace]; rfl)
      exact .inl ⟨.forward .told, rfl, by simp [exec, forwardStep, hplace, hstop]⟩
  | done => exact absurd hplace h

theorem backfill_goes (batch : ℕ) (hs : s.Inv) (h : s.backfill ≠ .done) :
    s.CanGo batch .backfill ∨ s.WaitsFor .backfill .writer ∧ s.writer ≠ .done := by
  cases hplace : s.backfill with
  | check => exact .inl ⟨.backfill (.look .ask), rfl, by simp [exec, backfillStep, hplace]⟩
  | ask => exact .inl ⟨.backfill (.asked true), rfl, by simp [exec, backfillStep, hplace]⟩
  | fetch => exact .inl ⟨.backfill (.fetched 0), rfl, by simp [exec, backfillStep, hplace]⟩
  | send more =>
    by_cases hdone : s.writer = .done
    · exact .inl ⟨.backfill .send, rfl, by simp [exec, backfillStep, hplace, hdone]⟩
    by_cases hroom : s.bundles < bundlesBound
    · exact .inl ⟨.backfill .send, rfl, by simp [exec, backfillStep, hplace, hdone, hroom]⟩
    · exact .inr ⟨⟨⟨more, hplace⟩, le_antisymm hs.bundles (not_lt.mp hroom)⟩, hdone⟩
  | sleep told =>
    cases told with
    | false => exact .inl ⟨.backfill .elapsed, rfl, by simp [exec, backfillStep, hplace]⟩
    | true =>
      have hstop := hs.backfill (by rw [hplace]; rfl)
      exact .inl ⟨.backfill .told, rfl, by simp [exec, backfillStep, hplace, hstop]⟩
  | done => exact absurd hplace h

theorem writer_goes (batch : ℕ) (hs : s.Inv) (h : s.writer ≠ .done) :
    s.CanGo batch .writer ∨ (s.writer = .receive ∧ s.bundles = 0) ∧ ¬s.BundlesClosed := by
  cases hplace : s.writer with
  | receive =>
    by_cases hempty : s.bundles = 0
    · by_cases hclosed : s.BundlesClosed
      · exact .inl ⟨.writer .receive, rfl, by simp [exec, writerStep, hplace, hempty, hclosed]⟩
      · exact .inr ⟨⟨rfl, hempty⟩, hclosed⟩
    · refine .inl ⟨.writer .receive, rfl, ?_⟩
      by_cases hstop : s.stop = true <;> simp [exec, writerStep, hplace, hempty, hstop]
  | write => exact .inl ⟨.writer (.written true), rfl, by simp [exec, writerStep, hplace]⟩
  | retry told =>
    cases told with
    | false => exact .inl ⟨.writer .elapsed, rfl, by simp [exec, writerStep, hplace]⟩
    | true =>
      have hstop := hs.writer (by rw [hplace]; rfl)
      exact .inl ⟨.writer .told, rfl, by simp [exec, writerStep, hplace, hstop]⟩
  | done => exact absurd hplace h

/-- Following who waits for whom, from a task on, leads to one that can go on. -/
def Led (batch : ℕ) (s : Tasks) (t : Task) : Prop :=
  ∃ t', Relation.ReflTransGen s.WaitsFor t t' ∧ s.CanGo batch t'

theorem CanGo.led {t : Task} (h : s.CanGo batch t) : s.Led batch t := ⟨t, .refl, h⟩

theorem Led.waited {t t' : Task} (h : s.Led batch t') (hwait : s.WaitsFor t t') : s.Led batch t := by
  obtain ⟨t'', hchain, hgo⟩ := h
  exact ⟨t'', .head hwait hchain, hgo⟩

/-- The channels are not both full and empty: a writer that is waited for has something to write, and
a watcher that is waited for has room. -/
theorem forward_led (hs : s.Inv) (h : s.forward ≠ .done) : s.Led batch .forward := by
  rcases forward_goes batch hs h with hgo | ⟨hwait, hwatcher⟩ | ⟨hwait, hwriter⟩
  · exact hgo.led
  · rcases watcher_goes batch hs hwatcher with hgo | ⟨hfull, -⟩
    · exact hgo.led.waited hwait
    · exact absurd (hwait.2.symm.trans hfull.2) (by decide)
  · rcases writer_goes batch hs hwriter with hgo | ⟨⟨-, hempty⟩, -⟩
    · exact hgo.led.waited hwait
    · exact absurd (hempty.symm.trans hwait.2) (by decide)

theorem backfill_led (hs : s.Inv) (h : s.backfill ≠ .done) : s.Led batch .backfill := by
  rcases backfill_goes batch hs h with hgo | ⟨hwait, hwriter⟩
  · exact hgo.led
  · rcases writer_goes batch hs hwriter with hgo | ⟨⟨-, hempty⟩, -⟩
    · exact hgo.led.waited hwait
    · exact absurd (hempty.symm.trans hwait.2) (by decide)

theorem writer_led (hs : s.Inv) (h : s.writer ≠ .done) : s.Led batch .writer := by
  rcases writer_goes batch hs h with hgo | ⟨hwait, hopen⟩
  · exact hgo.led
  · by_cases hforward : s.forward = .done
    · exact (backfill_led hs fun hdone => hopen ⟨hforward, hdone⟩).waited hwait
    · exact (forward_led hs hforward).waited hwait

theorem pass_goes {p : Pass} (hasked : p.asked = true → s.stop = true) (hne : p ≠ .done) :
    p = .work ∨ p = .sleep false ∨ (p = .sleep true ∧ s.stop = true) := by
  cases p with
  | work => exact .inl rfl
  | sleep told =>
    cases told with
    | false => exact .inr (.inl rfl)
    | true => exact .inr (.inr ⟨rfl, hasked rfl⟩)
  | done => exact absurd rfl hne

/-- **Whoever waits waits for one that can go on.** -/
theorem Inv.led (hs : s.Inv) {t : Task} (h : ¬s.Ended t) : s.Led batch t := by
  cases t with
  | watcher =>
    rcases watcher_goes batch hs h with hgo | ⟨hwait, hforward⟩
    · exact hgo.led
    · exact (forward_led hs hforward).waited hwait
  | forward => exact forward_led hs h
  | backfill => exact backfill_led hs h
  | writer => exact writer_led hs h
  | runner =>
    cases hplace : s.runner with
    | loops =>
      by_cases hforward : s.forward = .done
      · have hgo : s.CanGo batch .runner :=
          ⟨.runner, rfl, by simp [Tasks.exec, Tasks.runnerStep, hplace, hforward]⟩
        exact hgo.led
      · exact (forward_led hs hforward).waited hplace
    | writer =>
      by_cases hwriter : s.writer = .done
      · have hgo : s.CanGo batch .runner :=
          ⟨.runner, rfl, by simp [Tasks.exec, Tasks.runnerStep, hplace, hwriter]⟩
        exact hgo.led
      · exact (writer_led hs hwriter).waited hplace
    | done => exact absurd hplace h
  | stats =>
    rcases pass_goes hs.stats h with hplace | hplace | ⟨hplace, hstop⟩
    · have hgo : s.CanGo batch .stats :=
        ⟨.stats .pass, rfl, by simp [Tasks.exec, Tasks.statsStep, hplace]⟩
      exact hgo.led
    · have hgo : s.CanGo batch .stats :=
        ⟨.stats .elapsed, rfl, by simp [Tasks.exec, Tasks.statsStep, hplace]⟩
      exact hgo.led
    · have hgo : s.CanGo batch .stats :=
        ⟨.stats .told, rfl, by simp [Tasks.exec, Tasks.statsStep, hplace, hstop]⟩
      exact hgo.led
  | genesis =>
    rcases pass_goes hs.genesis h with hplace | hplace | ⟨hplace, hstop⟩
    · have hgo : s.CanGo batch .genesis :=
        ⟨.genesis .pass, rfl, by simp [Tasks.exec, Tasks.genesisStep, hplace]⟩
      exact hgo.led
    · have hgo : s.CanGo batch .genesis :=
        ⟨.genesis .elapsed, rfl, by simp [Tasks.exec, Tasks.genesisStep, hplace]⟩
      exact hgo.led
    · have hgo : s.CanGo batch .genesis :=
        ⟨.genesis .told, rfl, by simp [Tasks.exec, Tasks.genesisStep, hplace, hstop]⟩
      exact hgo.led

end Waits

end Tasks

/-! ## Once the stop is asked for -/

/-- Steps a task has left, once it is asked to stop. -/
def Watcher.left : Watcher → ℕ
  | .check _ => 1
  | .ask _ => 4
  | .offer _ => 3
  | .wait _ _ => 2
  | .done => 0

def Socket.left : Socket → ℕ
  | .none => 0
  | .running => 2
  | .aborted => 1

def Forward.left (batch : ℕ) : Forward → ℕ
  | .receive => 1
  | .seed => 2
  | .window => 1
  | .fetch => batch + 3
  | .send more => more + 2
  | .retry _ => 2
  | .done => 0

def Backfill.left (batch : ℕ) : Backfill → ℕ
  | .check => 1
  | .ask => batch + 4
  | .fetch => batch + 3
  | .send more => more + 2
  | .sleep _ => 2
  | .done => 0

def Writing.left : Writing → ℕ
  | .receive => 1
  | .write => 3
  | .retry told => if told then 1 else 4
  | .done => 0

def Runner.left : Runner → ℕ
  | .loops => 2
  | .writer => 1
  | .done => 0

def Pass.left : Pass → ℕ
  | .work => 2
  | .sleep told => if told then 1 else 3
  | .done => 0

namespace Tasks

/-- Heads that still fit in the channel. -/
def room (s : Tasks) : ℕ := if s.forward = .done then 0 else headsBound - s.heads

/-- **The steps left to all tasks together**: whenever the forward loop takes what is queued, there is
room for as many heads again. -/
def left (batch : ℕ) (s : Tasks) : ℕ :=
  (headsBound + 1) * s.forward.left batch + s.room + 3 * s.watcher.left + s.socket.left +
    s.backfill.left batch + s.writer.left + s.runner.left + s.stats.left + s.genesis.left

variable {batch : ℕ} {s s' : Tasks}

theorem room_le (s : Tasks) : s.room ≤ headsBound := by
  unfold room
  split <;> omega

theorem left_endWatcher (h : 0 < s.watcher.left) : s.endWatcher.left batch < s.left batch := by
  have hsocket : s.endWatcher.socket.left ≤ s.socket.left := by
    unfold endWatcher
    cases s.socket <;> simp [Socket.left]
  show (headsBound + 1) * s.forward.left batch + s.room + 3 * 0 + s.endWatcher.socket.left +
    s.backfill.left batch + s.writer.left + s.runner.left + s.stats.left + s.genesis.left < _
  unfold left
  omega

theorem left_endForward (h : 0 < s.forward.left batch) :
    s.endForward.left batch < s.left batch := by
  show (headsBound + 1) * 0 + 0 + 3 * s.watcher.left + s.socket.left + s.backfill.left batch +
    s.writer.left + s.runner.left + s.stats.left + s.genesis.left < _
  simp only [left, headsBound]
  omega

theorem left_endWriter (h : 0 < s.writer.left) : s.endWriter.left batch < s.left batch := by
  show (headsBound + 1) * s.forward.left batch + s.room + 3 * s.watcher.left + s.socket.left +
    s.backfill.left batch + 0 + s.runner.left + s.stats.left + s.genesis.left < _
  unfold left
  omega

theorem left_watcherStep {a : WatcherStep} (hstop : s.stop = true)
    (h : s.watcherStep a = some s') : s'.stop = true ∧ s'.left batch < s.left batch := by
  unfold watcherStep at h
  split at h
  · rename_i u hplace
    rw [if_pos hstop] at h
    obtain rfl := Option.some.inj h
    exact ⟨hstop, left_endWatcher (by simp [hplace, Watcher.left])⟩
  · rename_i u ok hplace
    obtain rfl := Option.some.inj h
    refine ⟨hstop, ?_⟩
    cases ok <;> simp [left, room, hplace, Watcher.left]
  · -- A head takes room.
    rename_i u hplace
    split_ifs at h with hdone hroom <;> obtain rfl := Option.some.inj h
    · exact ⟨hstop, left_endWatcher (by simp [hplace, Watcher.left])⟩
    · refine ⟨hstop, ?_⟩
      simp [left, room, hplace, Watcher.left, hdone]
      omega
  · rename_i u told hplace
    split_ifs at h with htold
    obtain rfl := Option.some.inj h
    refine ⟨hstop, ?_⟩
    simp [left, room, hplace, Watcher.left]
  · rename_i told hplace
    split_ifs at h with hnone
    obtain rfl := Option.some.inj h
    refine ⟨hstop, ?_⟩
    simp [left, room, hplace, Watcher.left]
  · -- The next subscription.
    rename_i told hplace
    obtain rfl := Option.some.inj h
    refine ⟨hstop, ?_⟩
    simp [left, room, hplace, Watcher.left, Socket.left]
    omega
  · rename_i u told hplace
    rw [if_pos hstop] at h
    obtain rfl := Option.some.inj h
    exact ⟨hstop, left_endWatcher (by simp [hplace, Watcher.left])⟩
  · cases h

theorem left_socketStep {a : SocketStep} (hstop : s.stop = true)
    (h : s.socketStep a = some s') : s'.stop = true ∧ s'.left batch < s.left batch := by
  unfold socketStep at h
  split at h
  · rename_i hplace
    split_ifs at h with hdone hroom <;> obtain rfl := Option.some.inj h
    · refine ⟨hstop, ?_⟩
      simp [left, room, hplace, Socket.left, hdone]
    · refine ⟨hstop, ?_⟩
      simp [left, room, hdone]
      omega
  · rename_i hplace
    obtain rfl := Option.some.inj h
    refine ⟨hstop, ?_⟩
    simp [left, room, hplace, Socket.left]
  · rename_i hplace
    obtain rfl := Option.some.inj h
    refine ⟨hstop, ?_⟩
    simp [left, room, hplace, Socket.left]
  · cases h

/-- A place of the forward loop with fewer steps left makes up for all the room it leaves. -/
theorem left_forward {place : Forward} {heads bundles : ℕ}
    (h : place.left batch < s.forward.left batch) :
    { s with heads := heads, bundles := bundles, forward := place }.left batch < s.left batch := by
  have hroom := room_le { s with heads := heads, bundles := bundles, forward := place }
  simp only [left, headsBound] at hroom ⊢
  omega

theorem left_forwardStep {a : ForwardStep} (hstop : s.stop = true)
    (h : s.forwardStep batch a = some s') : s'.stop = true ∧ s'.left batch < s.left batch := by
  unfold forwardStep at h
  split at h
  · rename_i turn hplace
    split_ifs at h with hempty hclosed <;> obtain rfl := Option.some.inj h
    · exact ⟨hstop, left_endForward (by simp [hplace, Forward.left])⟩
    · exact ⟨hstop, left_endForward (by simp [hplace, Forward.left])⟩
  · rename_i caughtUp hplace
    obtain rfl := Option.some.inj h
    refine ⟨hstop, left_forward ?_⟩
    cases caughtUp <;> simp [hplace, Forward.left]
  · rename_i hplace
    rw [if_pos hstop] at h
    obtain rfl := Option.some.inj h
    exact ⟨hstop, left_endForward (by simp [hplace, Forward.left])⟩
  · rename_i n hplace
    split_ifs at h with hbatch hnone <;> obtain rfl := Option.some.inj h
    · exact ⟨hstop, left_forward (by simp [hplace, Forward.left])⟩
    · refine ⟨hstop, left_forward ?_⟩
      simp only [hplace, Forward.left]
      omega
  · rename_i more caughtUp hplace
    split_ifs at h with hdone hroom hlast hcaught <;> obtain rfl := Option.some.inj h
    · exact ⟨hstop, left_endForward (by simp [hplace, Forward.left])⟩
    all_goals
      refine ⟨hstop, left_forward ?_⟩
      simp only [hplace, Forward.left]
      omega
  · rename_i told hplace
    split_ifs at h with htold
    obtain rfl := Option.some.inj h
    exact ⟨hstop, left_forward (by simp [hplace, Forward.left])⟩
  · rename_i told hplace
    rw [if_pos hstop] at h
    obtain rfl := Option.some.inj h
    exact ⟨hstop, left_endForward (by simp [hplace, Forward.left])⟩
  · cases h

theorem left_backfill {place : Backfill} {bundles : ℕ}
    (h : place.left batch < s.backfill.left batch) :
    { s with bundles := bundles, backfill := place }.left batch < s.left batch := by
  simp only [left, room]
  omega

theorem left_backfillStep {a : BackfillStep} (hstop : s.stop = true)
    (h : s.backfillStep batch a = some s') : s'.stop = true ∧ s'.left batch < s.left batch := by
  unfold backfillStep at h
  split at h
  · rename_i descent hplace
    rw [if_pos hstop] at h
    obtain rfl := Option.some.inj h
    exact ⟨hstop, left_backfill (by simp [hplace, Backfill.left])⟩
  · rename_i ok hplace
    obtain rfl := Option.some.inj h
    refine ⟨hstop, left_backfill ?_⟩
    cases ok <;> simp [hplace, Backfill.left]
  · rename_i n hplace
    split_ifs at h with hbatch hnone <;> obtain rfl := Option.some.inj h
    · exact ⟨hstop, left_backfill (by simp [hplace, Backfill.left])⟩
    · refine ⟨hstop, left_backfill ?_⟩
      simp only [hplace, Backfill.left]
      omega
  · rename_i more hplace
    split_ifs at h with hdone hroom hlast <;> obtain rfl := Option.some.inj h
    · exact ⟨hstop, left_backfill (by simp [hplace, Backfill.left])⟩
    all_goals
      refine ⟨hstop, left_backfill ?_⟩
      simp only [hplace, Backfill.left]
      omega
  · rename_i told hplace
    split_ifs at h with htold
    obtain rfl := Option.some.inj h
    exact ⟨hstop, left_backfill (by simp [hplace, Backfill.left])⟩
  · rename_i told hplace
    rw [if_pos hstop] at h
    obtain rfl := Option.some.inj h
    exact ⟨hstop, left_backfill (by simp [hplace, Backfill.left])⟩
  · cases h

theorem left_writerStep {a : WriterStep} (hstop : s.stop = true)
    (h : s.writerStep a = some s') : s'.stop = true ∧ s'.left batch < s.left batch := by
  unfold writerStep at h
  split at h
  · rename_i hplace
    split_ifs at h with hempty hclosed <;> obtain rfl := Option.some.inj h
    · exact ⟨hstop, left_endWriter (by simp [hplace, Writing.left])⟩
    · exact ⟨hstop, left_endWriter (by simp [hplace, Writing.left])⟩
  · -- A retry from here on is over at once.
    rename_i ok hplace
    obtain rfl := Option.some.inj h
    refine ⟨hstop, ?_⟩
    cases ok <;> simp [left, room, hplace, Writing.left, hstop]
  · rename_i told hplace
    split_ifs at h with htold
    obtain rfl := Option.some.inj h
    refine ⟨hstop, ?_⟩
    simp [left, room, hplace, Writing.left, htold]
  · rename_i told hplace
    rw [if_pos hstop] at h
    obtain rfl := Option.some.inj h
    refine ⟨hstop, left_endWriter ?_⟩
    cases told <;> simp [hplace, Writing.left]
  · cases h

theorem left_runnerStep (hstop : s.stop = true) (h : s.runnerStep = some s') :
    s'.stop = true ∧ s'.left batch < s.left batch := by
  unfold runnerStep at h
  split at h
  · rename_i hplace
    split_ifs at h with hdone
    obtain rfl := Option.some.inj h
    refine ⟨hstop, ?_⟩
    simp [left, room, hplace, Runner.left]
  · rename_i hplace
    split_ifs at h with hdone
    obtain rfl := Option.some.inj h
    refine ⟨hstop, ?_⟩
    simp [left, room, hplace, Runner.left]
  · cases h

theorem left_statsStep {a : PassStep} (hstop : s.stop = true) (h : s.statsStep a = some s') :
    s'.stop = true ∧ s'.left batch < s.left batch := by
  unfold statsStep at h
  split at h
  · rename_i hplace
    obtain rfl := Option.some.inj h
    refine ⟨hstop, ?_⟩
    simp [left, room, hplace, Pass.left, hstop]
  · rename_i told hplace
    split_ifs at h with htold
    obtain rfl := Option.some.inj h
    refine ⟨hstop, ?_⟩
    simp [left, room, hplace, Pass.left, htold]
  · rename_i told hplace
    rw [if_pos hstop] at h
    obtain rfl := Option.some.inj h
    refine ⟨hstop, ?_⟩
    cases told <;> simp [left, room, hplace, Pass.left]
  · cases h

theorem left_genesisStep {a : PassStep} (hstop : s.stop = true) (h : s.genesisStep a = some s') :
    s'.stop = true ∧ s'.left batch < s.left batch := by
  unfold genesisStep at h
  split at h
  · rename_i hplace
    obtain rfl := Option.some.inj h
    refine ⟨hstop, ?_⟩
    simp [left, room, hplace, Pass.left, hstop]
  · rename_i told hplace
    split_ifs at h with htold
    obtain rfl := Option.some.inj h
    refine ⟨hstop, ?_⟩
    simp [left, room, hplace, Pass.left, htold]
  · rename_i told hplace
    rw [if_pos hstop] at h
    obtain rfl := Option.some.inj h
    refine ⟨hstop, ?_⟩
    cases told <;> simp [left, room, hplace, Pass.left]
  · cases h

/-- **Once asked to stop, every step is one of those that are left.** -/
theorem left_exec {a : TaskStep} (hstop : s.stop = true) (h : s.exec batch a = some s') :
    s'.stop = true ∧ s'.left batch < s.left batch := by
  cases a with
  | stop =>
    simp only [exec, if_pos hstop] at h
    cases h
  | watcher a => exact left_watcherStep hstop h
  | socket a => exact left_socketStep hstop h
  | forward a => exact left_forwardStep hstop h
  | backfill a => exact left_backfillStep hstop h
  | writer a => exact left_writerStep hstop h
  | runner => exact left_runnerStep hstop h
  | stats a => exact left_statsStep hstop h
  | genesis a => exact left_genesisStep hstop h

/-- A range is of no more than `batch` blocks. -/
def Ranges (batch : ℕ) (s : Tasks) : Prop :=
  s.forward.left batch ≤ batch + 3 ∧ s.backfill.left batch ≤ batch + 4

theorem Ranges.exec {a : TaskStep} (hs : s.Ranges batch) (h : s.exec batch a = some s') :
    s'.Ranges batch := by
  obtain ⟨hforward, hbackfill⟩ := hs
  cases a with
  | forward a =>
    simp only [Tasks.exec, Tasks.forwardStep] at h
    split at h <;> grind [Forward.left, Tasks.endForward, Ranges]
  | backfill a =>
    simp only [Tasks.exec, Tasks.backfillStep] at h
    split at h <;> grind [Backfill.left, Ranges]
  | stop => grind [Tasks.exec, Ranges]
  | watcher a =>
    simp only [Tasks.exec, Tasks.watcherStep] at h
    split at h <;> grind [Tasks.endWatcher, Ranges]
  | socket a =>
    simp only [Tasks.exec, Tasks.socketStep] at h
    split at h <;> grind [Ranges]
  | writer a =>
    simp only [Tasks.exec, Tasks.writerStep] at h
    split at h <;> grind [Tasks.endWriter, Ranges]
  | runner =>
    simp only [Tasks.exec, Tasks.runnerStep] at h
    split at h <;> grind [Ranges]
  | stats a =>
    simp only [Tasks.exec, Tasks.statsStep] at h
    split at h <;> grind [Ranges]
  | genesis a =>
    simp only [Tasks.exec, Tasks.genesisStep] at h
    split at h <;> grind [Ranges]

theorem Ranges.left_le (hs : s.Ranges batch) : s.left batch ≤ 258 * batch + 1100 := by
  have hroom := room_le s
  have hwatcher : s.watcher.left ≤ 4 := by cases s.watcher <;> simp [Watcher.left]
  have hsocket : s.socket.left ≤ 2 := by cases s.socket <;> simp [Socket.left]
  have hwriter : s.writer.left ≤ 4 := by
    rcases s.writer with _ | _ | told | _ <;> try simp [Writing.left]
    cases told <;> simp
  have hrunner : s.runner.left ≤ 2 := by cases s.runner <;> simp [Runner.left]
  have hpass : ∀ p : Pass, p.left ≤ 3 := by
    intro p
    rcases p with _ | told | _ <;> try simp [Pass.left]
    cases told <;> simp
  have hstats := hpass s.stats
  have hgenesis := hpass s.genesis
  obtain ⟨hforward, hbackfill⟩ := hs
  simp only [left, headsBound] at hroom ⊢
  omega

end Tasks

/-- **The tasks end when they are asked to, and no sooner.** In every state reached: before the stop
nothing has ended; whoever has not ended and cannot go on waits, through whom it waits for, for one
that can; and once the stop is asked for, however the steps fall, only so many are left to all the
tasks together, and where none of them has a step left, all have ended. -/
theorem tasks_end {batch : ℕ} {s : Tasks} (h : (tasks batch).Reachable s) :
    (s.stop = false → ∀ t, ¬s.Ended t) ∧ (∀ t, ¬s.Ended t → s.Led batch t) ∧
      (s.stop = true → ∀ as s', (tasks batch).run s as = some s' →
        as.length ≤ 258 * batch + 1100 ∧
          ((∀ t, ¬s'.CanGo batch t) → ∀ t, s'.Ended t)) := by
  have hinv := inv_of_reachable h
  have hranges : s.Ranges batch := by
    refine h.invariant ?_ fun s a s' hs _ hexec => hs.exec hexec
    rintro _ ⟨indexWs, rfl⟩
    constructor <;> simp [Tasks.start, Forward.left, Backfill.left]
  refine ⟨fun hstop t ht => ?_, fun t ht => hinv.led ht, fun hstop as s' hrun => ?_⟩
  · have hnot : ¬s.stop = true := by simp [hstop]
    cases t with
    | watcher => exact hnot (hinv.stop_of_watcher ht.1)
    | forward => exact hnot (hinv.stop_of_forward ht)
    | backfill => exact hnot (hinv.stop_of_backfill ht)
    | writer => exact hnot (hinv.stop_of_writer ht)
    | runner => exact hnot (hinv.runner (by rw [show s.runner = .done from ht]; simp))
    | stats => exact hnot (hinv.stats (by rw [show s.stats = .done from ht]; rfl))
    | genesis => exact hnot (hinv.genesis (by rw [show s.genesis = .done from ht]; rfl))
  · obtain ⟨-, hle⟩ := System.length_run_le (S := tasks batch) (I := fun s => s.stop = true)
      (fun s a s' hs hexec => Tasks.left_exec hs hexec) hstop hrun
    have hbound := hranges.left_le
    refine ⟨by omega, fun hnone t => ?_⟩
    by_contra ht
    obtain ⟨t', -, hgo⟩ := (inv_of_reachable (h.run hrun)).led ht
    exact hnone t' hgo

/-! ## A stop before the first block -/

/-- The tasks have started, and are asked to stop. -/
def stoppedEarly : Tasks := { Tasks.start true with stop := true }

theorem stoppedEarly_reachable : (tasks 32).Reachable stoppedEarly :=
  .step (a := .stop) (.start ⟨true, rfl⟩) trivial rfl

/-- One of its runs, to the end of all. -/
def earlySteps : List TaskStep :=
  [.watcher .look, .socket .dropped, .forward (.receive .again), .backfill (.look .ask),
    .writer .receive, .runner, .runner, .stats .pass, .genesis .pass, .genesis .told]

def endedEarly : Tasks where
  stop := true
  heads := 0
  bundles := 0
  watcher := .done
  socket := .none
  forward := .done
  backfill := .done
  writer := .done
  runner := .done
  stats := .done
  genesis := .done

theorem tasks_end_stoppedEarly : stoppedEarly.Led 32 .writer ∧
    earlySteps.length ≤ 258 * 32 + 1100 ∧
      ((∀ t, ¬endedEarly.CanGo 32 t) → ∀ t, endedEarly.Ended t) := by
  obtain ⟨-, hled, hend⟩ := tasks_end stoppedEarly_reachable
  have hrun : (tasks 32).run stoppedEarly earlySteps = some endedEarly := rfl
  exact ⟨hled .writer (by simp [Tasks.Ended, stoppedEarly, Tasks.start]), hend rfl _ _ hrun⟩

end ChainExplorer
