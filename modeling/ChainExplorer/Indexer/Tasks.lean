import ChainExplorer.Lib.System
import Mathlib.Tactic.SplitIfs

/-!
# The tasks of the indexer

The tasks that `run_forever` starts (`indexer.rs`) and `head_watcher` (`ws.rs`), each by the place it
waits at: for the node, for a moment, for room in a channel or for what is in one. What a task finds
(a height, a range, a failed commit) is left open, so that a run is any of its runs.

* `Tasks`: the flag, the two channels and where each task is; `tasks`: what each can do next.
* **`inv_of_reachable`**: the channels are within their bounds, a subscription is the one that the
  watcher polls beside, and nothing has ended unless it was asked to.
-/

namespace ChainExplorer

/-! ## Where a task is -/

/-- What `poll_until` polls until: the subscription is over, the pause before the next one is, or
nothing ends it. -/
inductive Until
  | socket
  | pause
  | never
deriving DecidableEq, Repr

/-- `head_watcher`, by the await of `poll_until` that it is at. A wait knows whether the stop was
asked for before it began: it is then over at once. -/
inductive Watcher
  | check (u : Until)
  | ask (u : Until)
  | offer (u : Until)
  | wait (u : Until) (told : Bool)
  | done
deriving DecidableEq, Repr

/-- `subscribe_ws`, a task of the watcher's. -/
inductive Socket
  | none
  | running
  | aborted
deriving DecidableEq, Repr

/-- `forward_loop`. A bundle is sent with `more` after it. -/
inductive Forward
  | receive
  | seed
  | window
  | fetch
  | send (more : ℕ)
  | retry (told : Bool)
  | done
deriving DecidableEq, Repr

/-- `backfill_loop`. It sleeps while the tip lags, at height 1 and after a failure. -/
inductive Backfill
  | check
  | ask
  | fetch
  | send (more : ℕ)
  | sleep (told : Bool)
  | done
deriving DecidableEq, Repr

/-- `write_loop`. -/
inductive Writing
  | receive
  | write
  | retry (told : Bool)
  | done
deriving DecidableEq, Repr

/-- `run_forever`, once it has started the others. -/
inductive Runner
  | loops
  | writer
  | done
deriving DecidableEq, Repr

/-- `stats_loop` and `genesis_loop`. -/
inductive Pass
  | work
  | sleep (told : Bool)
  | done
deriving DecidableEq, Repr

/-- Heads and bundles that the channels hold at most. -/
def headsBound : ℕ := 256

def bundlesBound : ℕ := 1024

/-- **The tasks**, with the flag that asks them to stop and what is queued. -/
structure Tasks where
  stop : Bool
  heads : ℕ
  bundles : ℕ
  watcher : Watcher
  socket : Socket
  forward : Forward
  backfill : Backfill
  writer : Writing
  runner : Runner
  stats : Pass
  genesis : Pass
deriving DecidableEq, Repr

/-! ## What each can do -/

/-- A look at the flag, the node's answer, a head into the channel, and how a wait ends. -/
inductive WatcherStep
  | look
  | asked (ok : Bool)
  | offer
  | elapsed
  | resolved
  | told
deriving DecidableEq, Repr

inductive SocketStep
  | head
  | ends
  | dropped
deriving DecidableEq, Repr

/-- Where a head leaves the forward loop: with nothing new, without a start, or behind. -/
inductive Turn
  | again
  | seed
  | window
deriving DecidableEq, Repr

inductive ForwardStep
  | receive (turn : Turn)
  | seeded (caughtUp : Bool)
  | look
  | fetched (n : ℕ)
  | send (caughtUp : Bool)
  | elapsed
  | told
deriving DecidableEq, Repr

/-- What the descent goes on with: a sleep, the node's height, or a range. -/
inductive Onward
  | sleep
  | ask
  | fetch
deriving DecidableEq, Repr

inductive BackfillStep
  | look (descent : Onward)
  | asked (ok : Bool)
  | fetched (n : ℕ)
  | send
  | elapsed
  | told
deriving DecidableEq, Repr

inductive WriterStep
  | receive
  | written (ok : Bool)
  | elapsed
  | told
deriving DecidableEq, Repr

inductive PassStep
  | pass
  | elapsed
  | told
deriving DecidableEq, Repr

inductive TaskStep
  | stop
  | watcher (a : WatcherStep)
  | socket (a : SocketStep)
  | forward (a : ForwardStep)
  | backfill (a : BackfillStep)
  | writer (a : WriterStep)
  | runner
  | stats (a : PassStep)
  | genesis (a : PassStep)
deriving DecidableEq, Repr

namespace Tasks

/-- `poll_until` gave up: the watcher ends, and its subscription with it. -/
def endWatcher (s : Tasks) : Tasks :=
  { s with watcher := .done, socket := if s.socket = .running then .aborted else s.socket }

/-- The forward loop ends, and what is queued for it is dropped. -/
def endForward (s : Tasks) : Tasks := { s with forward := .done, heads := 0 }

/-- The writer ends, and what is queued for it is dropped. -/
def endWriter (s : Tasks) : Tasks := { s with writer := .done, bundles := 0 }

def watcherStep (s : Tasks) (a : WatcherStep) : Option Tasks :=
  match s.watcher, a with
  | .check u, .look => some (if s.stop then s.endWatcher else { s with watcher := .ask u })
  | .ask u, .asked ok =>
    some { s with watcher := if ok then .offer u else .wait u s.stop }
  | .offer u, .offer =>
    if s.forward = .done then some s.endWatcher
    else if s.heads < headsBound then
      some { s with watcher := .wait u s.stop, heads := s.heads + 1 }
    else none
  | .wait u told, .elapsed => if told then none else some { s with watcher := .check u }
  | .wait .socket _, .resolved =>
    -- The subscription is over: a pause before the next.
    if s.socket = .none then some { s with watcher := .check .pause } else none
  | .wait .pause _, .resolved => some { s with watcher := .check .socket, socket := .running }
  | .wait _ _, .told => if s.stop then some s.endWatcher else none
  | _, _ => none

/-- Of what the subscription reads, only a head concerns the others. -/
def socketStep (s : Tasks) (a : SocketStep) : Option Tasks :=
  match s.socket, a with
  | .running, .head =>
    if s.forward = .done then some { s with socket := .none }
    else if s.heads < headsBound then some { s with heads := s.heads + 1 }
    else none
  | .running, .ends => some { s with socket := .none }
  | .aborted, .dropped => some { s with socket := .none }
  | _, _ => none

/-- The channel of heads is closed: no one is left to send. -/
def HeadsClosed (s : Tasks) : Prop := s.watcher = .done ∧ s.socket = .none

instance (s : Tasks) : Decidable s.HeadsClosed := inferInstanceAs (Decidable (_ ∧ _))

def forwardStep (batch : ℕ) (s : Tasks) (a : ForwardStep) : Option Tasks :=
  match s.forward, a with
  | .receive, .receive turn =>
    if s.heads = 0 then if s.HeadsClosed then some s.endForward else none
    else if s.stop then some s.endForward
    else
      -- `drain_heads` takes the rest.
      some { s with heads := 0, forward := match turn with
        | .again => .receive
        | .seed => .seed
        | .window => .window }
  | .seed, .seeded caughtUp => some { s with forward := if caughtUp then .receive else .window }
  | .window, .look =>
    some (if s.stop then s.endForward else { s with heads := 0, forward := .fetch })
  | .fetch, .fetched n =>
    if n ≤ batch then
      some { s with forward := if n = 0 then .retry s.stop else .send (n - 1) }
    else none
  | .send more, .send caughtUp =>
    if s.writer = .done then some s.endForward
    else if s.bundles < bundlesBound then
      some { s with bundles := s.bundles + 1, forward :=
        if more = 0 then if caughtUp then .receive else .window else .send (more - 1) }
    else none
  | .retry told, .elapsed => if told then none else some { s with forward := .window }
  | .retry _, .told => if s.stop then some s.endForward else none
  | _, _ => none

def backfillStep (batch : ℕ) (s : Tasks) (a : BackfillStep) : Option Tasks :=
  match s.backfill, a with
  | .check, .look descent =>
    some { s with backfill := if s.stop then .done else match descent with
      | .sleep => .sleep s.stop
      | .ask => .ask
      | .fetch => .fetch }
  | .ask, .asked ok => some { s with backfill := if ok then .fetch else .sleep s.stop }
  | .fetch, .fetched n =>
    if n ≤ batch then
      some { s with backfill := if n = 0 then .sleep s.stop else .send (n - 1) }
    else none
  | .send more, .send =>
    if s.writer = .done then some { s with backfill := .done }
    else if s.bundles < bundlesBound then
      some { s with bundles := s.bundles + 1, backfill :=
        if more = 0 then .check else .send (more - 1) }
    else none
  | .sleep told, .elapsed => if told then none else some { s with backfill := .check }
  | .sleep _, .told => if s.stop then some { s with backfill := .done } else none
  | _, _ => none

/-- The channel of bundles is closed: no one is left to send. -/
def BundlesClosed (s : Tasks) : Prop := s.forward = .done ∧ s.backfill = .done

instance (s : Tasks) : Decidable s.BundlesClosed := inferInstanceAs (Decidable (_ ∧ _))

def writerStep (s : Tasks) (a : WriterStep) : Option Tasks :=
  match s.writer, a with
  | .receive, .receive =>
    if s.bundles = 0 then if s.BundlesClosed then some s.endWriter else none
    else if s.stop then some s.endWriter
    else some { s with bundles := s.bundles - min s.bundles 64, writer := .write }
  | .write, .written ok => some { s with writer := if ok then .receive else .retry s.stop }
  | .retry told, .elapsed => if told then none else some { s with writer := .write }
  | .retry _, .told => if s.stop then some s.endWriter else none
  | _, _ => none

def runnerStep (s : Tasks) : Option Tasks :=
  match s.runner with
  | .loops =>
    if s.forward = .done ∨ s.backfill = .done then some { s with runner := .writer } else none
  | .writer => if s.writer = .done then some { s with runner := .done } else none
  | .done => none

/-- A pass of the stats looks at the flag first. -/
def statsStep (s : Tasks) (a : PassStep) : Option Tasks :=
  match s.stats, a with
  | .work, .pass => some { s with stats := if s.stop then .done else .sleep s.stop }
  | .sleep told, .elapsed => if told then none else some { s with stats := .work }
  | .sleep _, .told => if s.stop then some { s with stats := .done } else none
  | _, _ => none

def genesisStep (s : Tasks) (a : PassStep) : Option Tasks :=
  match s.genesis, a with
  | .work, .pass => some { s with genesis := .sleep s.stop }
  | .sleep told, .elapsed => if told then none else some { s with genesis := .work }
  | .sleep _, .told => if s.stop then some { s with genesis := .done } else none
  | _, _ => none

def exec (batch : ℕ) (s : Tasks) : TaskStep → Option Tasks
  | .stop => if s.stop then none else some { s with stop := true }
  | .watcher a => s.watcherStep a
  | .socket a => s.socketStep a
  | .forward a => s.forwardStep batch a
  | .backfill a => s.backfillStep batch a
  | .writer a => s.writerStep a
  | .runner => s.runnerStep
  | .stats a => s.statsStep a
  | .genesis a => s.genesisStep a

/-- The tasks as `run_forever` starts them, with a subscription or without. -/
def start (indexWs : Bool) : Tasks where
  stop := false
  heads := 0
  bundles := 0
  watcher := .check (if indexWs then .socket else .never)
  socket := if indexWs then .running else .none
  forward := .receive
  backfill := .check
  writer := .receive
  runner := .loops
  stats := .work
  genesis := .work

end Tasks

/-- **The tasks**, over ranges of at most `batch` blocks. -/
def tasks (batch : ℕ) : System Tasks TaskStep where
  init s := ∃ indexWs, s = .start indexWs
  exec := Tasks.exec batch

/-! ## Before the stop is asked for -/

/-- A place that only a stop leads to. -/
def Watcher.asked : Watcher → Bool
  | .wait _ told => told
  | .done => true
  | _ => false

def Forward.asked : Forward → Bool
  | .retry told => told
  | .done => true
  | _ => false

def Backfill.asked : Backfill → Bool
  | .sleep told => told
  | .done => true
  | _ => false

def Writing.asked : Writing → Bool
  | .retry told => told
  | .done => true
  | _ => false

def Pass.asked : Pass → Bool
  | .sleep told => told
  | .done => true
  | .work => false

/-- What the watcher polls until. -/
def Watcher.until : Watcher → Option Until
  | .check u => some u
  | .ask u => some u
  | .offer u => some u
  | .wait u _ => some u
  | .done => none

namespace Tasks

/-- **What holds at every moment**: the channels are within their bounds, a subscription is the one
the watcher polls beside, and nothing has ended unless it was asked to. -/
structure Inv (s : Tasks) : Prop where
  heads : s.heads ≤ headsBound
  bundles : s.bundles ≤ bundlesBound
  socket : s.socket = .running → s.watcher.until = some .socket
  aborted : s.socket = .aborted → s.stop = true
  watcher : s.watcher.asked = true → s.stop = true
  forward : s.forward.asked = true → s.stop = true
  backfill : s.backfill.asked = true → s.stop = true
  writer : s.writer.asked = true → s.stop = true
  runner : s.runner ≠ .loops → s.stop = true
  stats : s.stats.asked = true → s.stop = true
  genesis : s.genesis.asked = true → s.stop = true

theorem Inv.endWatcher {s : Tasks} (hs : s.Inv) (hstop : s.stop = true) : s.endWatcher.Inv := by
  constructor <;> simp [Tasks.endWatcher, hstop, hs.heads, hs.bundles]
  split <;> simp_all

theorem Inv.endForward {s : Tasks} (hs : s.Inv) (hstop : s.stop = true) : s.endForward.Inv := by
  constructor <;> simp [Tasks.endForward, hstop, hs.bundles]
  exact hs.socket

theorem Inv.endWriter {s : Tasks} (hs : s.Inv) (hstop : s.stop = true) : s.endWriter.Inv := by
  constructor <;> simp [Tasks.endWriter, hstop, hs.heads]
  exact hs.socket

theorem Inv.stop_of_forward {s : Tasks} (hs : s.Inv) (h : s.forward = .done) : s.stop = true :=
  hs.forward (by rw [h]; rfl)

theorem Inv.stop_of_watcher {s : Tasks} (hs : s.Inv) (h : s.watcher = .done) : s.stop = true :=
  hs.watcher (by rw [h]; rfl)

theorem Inv.stop_of_backfill {s : Tasks} (hs : s.Inv) (h : s.backfill = .done) : s.stop = true :=
  hs.backfill (by rw [h]; rfl)

theorem Inv.stop_of_writer {s : Tasks} (hs : s.Inv) (h : s.writer = .done) : s.stop = true :=
  hs.writer (by rw [h]; rfl)

theorem Inv.watcherStep {s s' : Tasks} {a : WatcherStep} (hs : s.Inv)
    (h : s.watcherStep a = some s') : s'.Inv := by
  have hsocket := hs.socket
  unfold Tasks.watcherStep at h
  split at h
  · -- The flag, at the top of the loop.
    rename_i u hplace
    split_ifs at h with hstop <;> obtain rfl := Option.some.inj h
    · exact hs.endWatcher hstop
    · rw [hplace] at hsocket
      exact { hs with socket := hsocket, watcher := by simp [Watcher.asked] }
  · rename_i u ok hplace
    obtain rfl := Option.some.inj h
    rw [hplace] at hsocket
    cases ok with
    | true => exact { hs with socket := hsocket, watcher := by simp [Watcher.asked] }
    | false => exact { hs with socket := hsocket, watcher := by simp [Watcher.asked] }
  · -- A head is offered.
    rename_i u hplace
    split_ifs at h with hdone hroom <;> obtain rfl := Option.some.inj h
    · exact hs.endWatcher (hs.stop_of_forward hdone)
    · rw [hplace] at hsocket
      exact { hs with heads := hroom, socket := hsocket, watcher := by simp [Watcher.asked] }
  · rename_i u told hplace
    split_ifs at h with htold
    obtain rfl := Option.some.inj h
    rw [hplace] at hsocket
    exact { hs with socket := hsocket, watcher := by simp [Watcher.asked] }
  · split_ifs at h with hnone
    obtain rfl := Option.some.inj h
    exact { hs with socket := by simp [hnone], watcher := by simp [Watcher.asked] }
  · obtain rfl := Option.some.inj h
    exact { hs with
      socket := by simp [Watcher.until], aborted := by simp, watcher := by simp [Watcher.asked] }
  · split_ifs at h with hstop
    obtain rfl := Option.some.inj h
    exact hs.endWatcher hstop
  · cases h

theorem Inv.socketStep {s s' : Tasks} {a : SocketStep} (hs : s.Inv)
    (h : s.socketStep a = some s') : s'.Inv := by
  unfold Tasks.socketStep at h
  split at h
  · split_ifs at h with hdone hroom <;> obtain rfl := Option.some.inj h
    · exact { hs with socket := by simp, aborted := by simp }
    · exact { hs with heads := hroom }
  · obtain rfl := Option.some.inj h
    exact { hs with socket := by simp, aborted := by simp }
  · obtain rfl := Option.some.inj h
    exact { hs with socket := by simp, aborted := by simp }
  · cases h

theorem Inv.forwardStep {batch : ℕ} {s s' : Tasks} {a : ForwardStep} (hs : s.Inv)
    (h : s.forwardStep batch a = some s') : s'.Inv := by
  unfold Tasks.forwardStep at h
  split at h
  · rename_i turn hplace
    split_ifs at h with hempty hclosed hstop <;> obtain rfl := Option.some.inj h
    · exact hs.endForward (hs.stop_of_watcher hclosed.1)
    · exact hs.endForward hstop
    · exact { hs with heads := Nat.zero_le _, forward := by cases turn <;> simp [Forward.asked] }
  · rename_i caughtUp hplace
    obtain rfl := Option.some.inj h
    exact { hs with forward := by cases caughtUp <;> simp [Forward.asked] }
  · split_ifs at h with hstop <;> obtain rfl := Option.some.inj h
    · exact hs.endForward hstop
    · exact { hs with heads := Nat.zero_le _, forward := by simp [Forward.asked] }
  · split_ifs at h with hbatch hnone <;> obtain rfl := Option.some.inj h
    · exact { hs with forward := by simp [Forward.asked] }
    · exact { hs with forward := by simp [Forward.asked] }
  · -- A bundle is sent.
    split_ifs at h with hdone hroom hlast hcaught <;> obtain rfl := Option.some.inj h
    · exact hs.endForward (hs.stop_of_writer hdone)
    all_goals exact { hs with bundles := hroom, forward := by simp [Forward.asked] }
  · split_ifs at h with htold
    obtain rfl := Option.some.inj h
    exact { hs with forward := by simp [Forward.asked] }
  · split_ifs at h with hstop
    obtain rfl := Option.some.inj h
    exact hs.endForward hstop
  · cases h

theorem Inv.backfillStep {batch : ℕ} {s s' : Tasks} {a : BackfillStep} (hs : s.Inv)
    (h : s.backfillStep batch a = some s') : s'.Inv := by
  unfold Tasks.backfillStep at h
  split at h
  · rename_i descent hplace
    obtain rfl := Option.some.inj h
    refine { hs with backfill := ?_ }
    by_cases hstop : s.stop = true
    · simp [hstop]
    · cases descent <;> simp [hstop, Backfill.asked]
  · rename_i ok hplace
    obtain rfl := Option.some.inj h
    exact { hs with backfill := by cases ok <;> simp [Backfill.asked] }
  · split_ifs at h with hbatch hnone <;> obtain rfl := Option.some.inj h
    · exact { hs with backfill := by simp [Backfill.asked] }
    · exact { hs with backfill := by simp [Backfill.asked] }
  · split_ifs at h with hdone hroom hlast <;> obtain rfl := Option.some.inj h
    · exact { hs with backfill := fun _ => hs.stop_of_writer hdone }
    all_goals exact { hs with bundles := hroom, backfill := by simp [Backfill.asked] }
  · split_ifs at h with htold
    obtain rfl := Option.some.inj h
    exact { hs with backfill := by simp [Backfill.asked] }
  · split_ifs at h with hstop
    obtain rfl := Option.some.inj h
    exact { hs with backfill := fun _ => hstop }
  · cases h

theorem Inv.writerStep {s s' : Tasks} {a : WriterStep} (hs : s.Inv)
    (h : s.writerStep a = some s') : s'.Inv := by
  unfold Tasks.writerStep at h
  split at h
  · split_ifs at h with hempty hclosed hstop <;> obtain rfl := Option.some.inj h
    · exact hs.endWriter (hs.stop_of_forward hclosed.1)
    · exact hs.endWriter hstop
    · exact { hs with
        bundles := (Nat.sub_le _ _).trans hs.bundles, writer := by simp [Writing.asked] }
  · rename_i ok hplace
    obtain rfl := Option.some.inj h
    exact { hs with writer := by cases ok <;> simp [Writing.asked] }
  · split_ifs at h with htold
    obtain rfl := Option.some.inj h
    exact { hs with writer := by simp [Writing.asked] }
  · split_ifs at h with hstop
    obtain rfl := Option.some.inj h
    exact hs.endWriter hstop
  · cases h

theorem Inv.runnerStep {s s' : Tasks} (hs : s.Inv) (h : s.runnerStep = some s') : s'.Inv := by
  unfold Tasks.runnerStep at h
  split at h
  · split_ifs at h with hdone
    obtain rfl := Option.some.inj h
    exact { hs with runner := fun _ => hdone.elim hs.stop_of_forward hs.stop_of_backfill }
  · split_ifs at h with hdone
    obtain rfl := Option.some.inj h
    exact { hs with runner := fun _ => hs.stop_of_writer hdone }
  · cases h

theorem Inv.statsStep {s s' : Tasks} {a : PassStep} (hs : s.Inv) (h : s.statsStep a = some s') :
    s'.Inv := by
  unfold Tasks.statsStep at h
  split at h
  · obtain rfl := Option.some.inj h
    exact { hs with stats := by split_ifs <;> simp_all [Pass.asked] }
  · split_ifs at h with htold
    obtain rfl := Option.some.inj h
    exact { hs with stats := by simp [Pass.asked] }
  · split_ifs at h with hstop
    obtain rfl := Option.some.inj h
    exact { hs with stats := fun _ => hstop }
  · cases h

theorem Inv.genesisStep {s s' : Tasks} {a : PassStep} (hs : s.Inv)
    (h : s.genesisStep a = some s') : s'.Inv := by
  unfold Tasks.genesisStep at h
  split at h
  · obtain rfl := Option.some.inj h
    exact { hs with genesis := id }
  · split_ifs at h with htold
    obtain rfl := Option.some.inj h
    exact { hs with genesis := by simp [Pass.asked] }
  · split_ifs at h with hstop
    obtain rfl := Option.some.inj h
    exact { hs with genesis := fun _ => hstop }
  · cases h

theorem Inv.exec {batch : ℕ} {s s' : Tasks} {a : TaskStep} (hs : s.Inv)
    (h : s.exec batch a = some s') : s'.Inv := by
  cases a with
  | stop =>
    simp only [Tasks.exec] at h
    split_ifs at h
    obtain rfl := Option.some.inj h
    exact ⟨hs.heads, hs.bundles, hs.socket, fun _ => rfl, fun _ => rfl, fun _ => rfl, fun _ => rfl,
      fun _ => rfl, fun _ => rfl, fun _ => rfl, fun _ => rfl⟩
  | watcher a => exact hs.watcherStep h
  | socket a => exact hs.socketStep h
  | forward a => exact hs.forwardStep h
  | backfill a => exact hs.backfillStep h
  | writer a => exact hs.writerStep h
  | runner => exact hs.runnerStep h
  | stats a => exact hs.statsStep h
  | genesis a => exact hs.genesisStep h

theorem inv_start (indexWs : Bool) : (start indexWs).Inv := by
  constructor <;> cases indexWs <;> simp [start, Watcher.until, Watcher.asked, Forward.asked,
    Backfill.asked, Writing.asked, Pass.asked]

end Tasks

theorem inv_of_reachable {batch : ℕ} {s : Tasks} (h : (tasks batch).Reachable s) : s.Inv := by
  refine h.invariant ?_ fun s a s' hs _ hexec => hs.exec hexec
  rintro _ ⟨indexWs, rfl⟩
  exact Tasks.inv_start indexWs

end ChainExplorer
