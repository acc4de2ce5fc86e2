import ChainExplorer.Db.Effects
import ChainExplorer.Lib.Broadcast
import ChainExplorer.Lib.Span
import ChainExplorer.Lib.System

/-!
# The live feed

Each new tip block reaches a viewer by three routes (`web.rs`): the tip read on connecting, the
broadcast of the feed, and a replay from the database after the broadcast has dropped messages.

* `feedStep`, `sseStep`: the feed's loop and one client's stream, one lock or one message a step.
* `liveFeed`: both beside the writer, whose commits leave no hole above the tip.
* `FeedState.Inv`: how the tip, the feed, the messages and the client's numbers are related.
* **`liveFeed_consecutive`**: as long as no lag notice has dropped more than a replay carries, the
  blocks delivered are the initial tip and what follows it, in order and once each.

Shutdown, which ends both loops, is left out, and so are the transactions in a payload, which no
step reads.
-/

namespace ChainExplorer

/-! ## The range read -/

/-- A block of the feed: its number and its row. -/
structure BlockEvent where
  number : ℤ
  row : BlockRow
deriving DecidableEq, Repr

/-- The rows of a range of heights, the highest first. -/
def Database.getBlocksInRange (db : Database) (start stop : ℤ) : List BlockEvent :=
  ((db.blocks.entries.filter fun e => decide (start ≤ e.1 ∧ e.1 ≤ stop)).map fun e =>
    (⟨e.1, e.2⟩ : BlockEvent)).insertionSort fun a b => b.number ≤ a.number

/-- The live-feed events for the blocks indexed in `start..=stop`, oldest first. -/
def Database.blockEventsInRange (db : Database) (start stop : ℤ) : List BlockEvent :=
  (db.getBlocksInRange start stop).reverse

/-! ## The feed -/

/-- A message on the channel. Stats refreshes share it with the blocks. -/
inductive Message
  | block (event : BlockEvent)
  | stats (text : String)
deriving DecidableEq, Repr

/-- `/block/number` of the payload. -/
def Message.number? : Message → Option ℤ
  | .block e => some e.number
  | .stats _ => none

/-- The block numbers among some messages. -/
def numbers (ms : List Message) : List ℤ := ms.filterMap Message.number?

/-- Where the feed is: about to read the tip, the range up to a new tip, or the stats, or sending
the events of a range. -/
inductive FeedPc
  | tip
  | range (head : ℤ)
  | sending (events : List BlockEvent) (head : ℤ)
  | stats

/-- Where the client's stream is: about to read the tip or its block, streaming, or after a lag
notice about to read the tip or the range to replay. -/
inductive ClientPc
  | initial
  | initialRange (tip : ℤ)
  | streaming
  | lagged
  | replay (start stop : ℤ)
deriving DecidableEq

/-- What a client is sent; `null` where there is no block at all. -/
inductive SseEvent
  | null
  | message (m : Message)
deriving DecidableEq, Repr

/-- **One client.** `tip` and `delivered` record what it was told. -/
structure Client where
  pc : ClientPc
  next : ℕ
  pending : List BlockEvent
  lastNum : ℤ
  tip : Option ℤ
  delivered : List SseEvent

/-- The block numbers a client has been sent. -/
def Client.deliveredNumbers (c : Client) : List ℤ :=
  c.delivered.filterMap fun
    | .null => none
    | .message m => m.number?

structure FeedState where
  db : Database
  log : List Message
  sent : ℤ
  stats : String
  feedPc : FeedPc
  client : Option Client

/-- Upper bound on how many missed blocks a lagging client is replayed. -/
def sseMaxReplay : ℕ := 4096

/-- The key the stats are stored under. -/
def statsKey : String := "stats"

/-- One step of the feed's loop. `isJson` says which stored stats parse. -/
def FeedState.feedStep (isJson : String → Bool) (s : FeedState) : FeedState :=
  match s.feedPc with
  | .tip =>
    let head := s.db.getMaxBlockNumber.getD (-1)
    if s.sent < head then { s with feedPc := .range head } else { s with feedPc := .stats }
  | .range head =>
    { s with feedPc := .sending (s.db.blockEventsInRange (s.sent + 1) head) head }
  | .sending [] head => { s with sent := head, feedPc := .stats }
  | .sending (e :: events) head =>
    { s with log := s.log ++ [.block e], feedPc := .sending events head }
  | .stats =>
    match (s.db.getKv statsKey).filter fun stored => stored ≠ s.stats with
    | none => { s with feedPc := .tip }
    | some stored =>
      let log := if isJson stored then s.log ++ [.stats stored] else s.log
      { s with log := log, stats := stored, feedPc := .tip }

/-- Hand an event to the client. -/
def Client.deliver (c : Client) (e : SseEvent) : Client :=
  { c with delivered := c.delivered ++ [e] }

/-- **One step of a client's stream** (`sse_step`). -/
def Client.sseStep (capacity : ℕ) (db : Database) (log : List Message) (c : Client) : Client :=
  match c.pc with
  | .initial =>
    match db.getMaxBlockNumber with
    | some tip => { c with pc := .initialRange tip, lastNum := tip, tip := some tip }
    | none => { c with pc := .streaming }.deliver .null
  | .initialRange tip =>
    match (db.blockEventsInRange tip tip).getLast? with
    | some e => { c with pc := .streaming }.deliver (.message (.block e))
    | none => { c with pc := .streaming }.deliver .null
  | .streaming =>
    match c.pending with
    | e :: pending => { c with pending := pending }.deliver (.message (.block e))
    | [] =>
      match Broadcast.receive capacity log c.next with
      | (.message m, next) =>
        match m.number? with
        | some n =>
          -- Already delivered from the database.
          if n ≤ c.lastNum then { c with next := next }
          else { c with next := next, lastNum := n }.deliver (.message m)
        | none => { c with next := next }.deliver (.message m)
      | (.lagged, next) => { c with next := next, pc := .lagged }
      | (.empty, _) => c
  | .lagged =>
    let tip := db.getMaxBlockNumber.getD c.lastNum
    let start := c.lastNum + 1
    { c with pc := .replay start (min tip (start + sseMaxReplay - 1)) }
  | .replay start stop =>
    { c with
      pc := .streaming
      pending := c.pending ++ db.blockEventsInRange start stop
      lastNum := max c.lastNum stop }

/-! ## The feed beside the writer -/

/-- Heights written one after another, none of which leaves a hole above the tip. -/
def Rises (tip : ℤ) : List ℤ → Prop
  | [] => True
  | n :: ns => n ≤ tip + 1 ∧ Rises (max tip n) ns

instance decidableRises : ∀ (tip : ℤ) (ns : List ℤ), Decidable (Rises tip ns)
  | _, [] => isTrue trivial
  | tip, n :: ns =>
    have := decidableRises (max tip n) ns
    inferInstanceAs (Decidable (n ≤ tip + 1 ∧ Rises (max tip n) ns))

inductive FeedAction
  /-- The writer's transaction. -/
  | commit (ch : ℕ → Choices) (bundles : List BlockBundle) (fails : Bool)
  /-- The stats loop stores new stats. -/
  | setStats (text : String)
  | feed
  | connect
  | client

/-- A step of the feed, of its client, or of the writer beside them. -/
def FeedState.exec (capacity : ℕ) (isJson : String → Bool) (s : FeedState) :
    FeedAction → Option FeedState
  | .commit ch bundles fails =>
    match s.db.getMaxBlockNumber with
    | some tip =>
      if Rises tip (bundles.map fun b => b.block.number) then
        some { s with db := Database.trySave ch s.db bundles fails }
      else none
    | none => none
  | .setStats text => some { s with db := s.db.setKv statsKey text }
  | .feed => some (s.feedStep isJson)
  | .connect =>
    match s.client with
    | none => some { s with client := some ⟨.initial, s.log.length, [], -1, none, []⟩ }
    | some _ => none
  | .client => s.client.map fun c => { s with client := some (c.sseStep capacity s.db s.log) }

/-- **The live feed**, from a database that is not empty and a feed that has just read its tip. -/
def liveFeed (capacity : ℕ) (isJson : String → Bool) : System FeedState FeedAction where
  init s := s.db.getMaxBlockNumber = some s.sent ∧ s.log = [] ∧ s.feedPc = .tip ∧ s.client = none
  exec := FeedState.exec capacity isJson

/-- A lag notice has dropped at most as many blocks above the client's last number as a replay
carries. -/
def FeedState.ReplayCovers (capacity : ℕ) (s : FeedState) : FeedAction → Prop
  | .client => ∀ c, s.client = some c → c.pc = .streaming → c.pending = [] →
      c.next < Broadcast.oldest capacity s.log →
        ((numbers (Broadcast.dropped capacity s.log c.next)).filter
          fun n => c.lastNum < n).length ≤ sseMaxReplay
  | _ => True

/-! ## What a range read gives -/

theorem blockEventsInRange_numbers {db : Database} {start stop : ℤ}
    (h : ∀ n, start ≤ n → n ≤ stop → n ∈ db.blocks) :
    (db.blockEventsInRange start stop).map BlockEvent.number = span start stop := by
  have hkeys : db.heights.Nodup := db.blocks.nodupKeys
  have hperm : (db.blockEventsInRange start stop).Perm
      ((db.blocks.entries.filter fun e => decide (start ≤ e.1 ∧ e.1 ≤ stop)).map fun e =>
        (⟨e.1, e.2⟩ : BlockEvent)) :=
    (List.reverse_perm _).trans (List.perm_insertionSort _ _)
  have hnums : ((db.blockEventsInRange start stop).map BlockEvent.number).Perm
      (db.heights.filter fun n => decide (start ≤ n ∧ n ≤ stop)) := by
    refine (hperm.map BlockEvent.number).trans (List.Perm.of_eq ?_)
    rw [List.map_map, Database.heights, AList.keys, List.keys, List.filter_map]
    rfl
  have hnodup : ((db.blockEventsInRange start stop).map BlockEvent.number).Nodup :=
    hnums.nodup_iff.mpr (hkeys.filter _)
  have hsorted : ((db.blockEventsInRange start stop).map BlockEvent.number).Pairwise (· ≤ ·) := by
    rw [List.pairwise_map, Database.blockEventsInRange, List.pairwise_reverse]
    exact List.pairwise_insertionSort (fun a b : BlockEvent => b.number ≤ a.number) _
  refine eq_span ((hsorted.and hnodup).imp fun {a b} hab => ?_) fun n => ?_
  · exact lt_of_le_of_ne hab.1 hab.2
  · rw [hnums.mem_iff, List.mem_filter, decide_eq_true_iff]
    constructor
    · rintro ⟨-, hn⟩
      exact hn
    · intro hn
      exact ⟨h n hn.1 hn.2, hn⟩

/-! ## What a commit adds -/

theorem Rises.exists_top {ns : List ℤ} {tip : ℤ} (h : Rises tip ns) :
    ∃ top, tip ≤ top ∧ (top = tip ∨ top ∈ ns) ∧ (∀ n ∈ ns, n ≤ top) ∧
      ∀ n, tip < n → n ≤ top → n ∈ ns := by
  induction ns generalizing tip with
  | nil => exact ⟨tip, le_rfl, .inl rfl, nofun, fun n h1 h2 => absurd h1 (by omega)⟩
  | cons k ns ih =>
    obtain ⟨hk, hrest⟩ := h
    obtain ⟨top, hle, hmem, hmax, hbetween⟩ := ih hrest
    refine ⟨top, by omega, ?_, ?_, ?_⟩
    · rcases hmem with htop | htop
      · by_cases hlt : tip < k
        · have heq : top = k := by omega
          exact .inr (heq ▸ List.mem_cons_self)
        · exact .inl (by omega)
      · exact .inr (List.mem_cons_of_mem _ htop)
    · intro n hn
      rcases List.mem_cons.mp hn with heq | hn
      · omega
      · exact hmax n hn
    · intro n h1 h2
      by_cases heq : n = k
      · exact heq ▸ List.mem_cons_self
      · exact List.mem_cons_of_mem _ (hbetween n (by omega) h2)

theorem Rises.trySave {db : Database} {bundles : List BlockBundle} {t : ℤ}
    (h : Rises t (bundles.map fun b => b.block.number)) (ht : db.getMaxBlockNumber = some t)
    (ch : ℕ → Choices) (fails : Bool) :
    ∃ t', t ≤ t' ∧ (Database.trySave ch db bundles fails).getMaxBlockNumber = some t' ∧
      (∀ n ∈ db.blocks, n ∈ (Database.trySave ch db bundles fails).blocks) ∧
      ∀ n, t < n → n ≤ t' → n ∈ (Database.trySave ch db bundles fails).blocks := by
  rcases Database.trySave_cases ch db bundles fails with hsame | hok
  · rw [hsame]
    exact ⟨t, le_rfl, ht, fun _ hn => hn, fun n h1 h2 => absurd h1 (by omega)⟩
  · have hheights := Database.saveBlockBundles_heights hok
    obtain ⟨hmem, hmax⟩ := Database.getMaxBlockNumber_eq_some.mp ht
    obtain ⟨top, hle, htop, hall, hbetween⟩ := h.exists_top
    have hnew : ∀ n, n ∈ bundles.map (fun b => b.block.number) →
        n ∈ (Database.trySave ch db bundles fails).blocks := by
      intro n hn
      obtain ⟨b, hb, hbn⟩ := List.mem_map.mp hn
      exact (hheights n).mpr (.inr ⟨b, hb, hbn⟩)
    refine ⟨top, hle, Database.getMaxBlockNumber_eq_some.mpr ⟨?_, ?_⟩, ?_, ?_⟩
    · rcases htop with rfl | htop
      · exact (hheights _).mpr (.inl hmem)
      · exact hnew _ htop
    · intro n hn
      rcases (hheights n).mp hn with hold | ⟨b, hb, hbn⟩
      · exact (hmax n hold).trans hle
      · exact hall n (List.mem_map.mpr ⟨b, hb, hbn⟩)
    · intro n hn
      exact (hheights n).mpr (.inl hn)
    · intro n h1 h2
      exact hnew n (hbetween n h1 h2)

/-! ## The invariant -/

/-- Where the feed is between the last block published, `m`, and the tip `t`. -/
def FeedPc.Holds (sent m t : ℤ) : FeedPc → Prop
  | .tip | .stats => sent = m
  | .range head => sent = m ∧ m < head ∧ head ≤ t
  | .sending events head =>
    events.map BlockEvent.number = span (m + 1) head ∧ m ≤ head ∧ head ≤ t

/-- What the client was sent and has pending goes from its initial tip `T` to its last number. -/
structure Client.Runs (f t T : ℤ) (c : Client) : Prop where
  tip : c.tip = some T
  first_le : f ≤ T
  le_last : T ≤ c.lastNum
  last_le : c.lastNum ≤ t
  run : c.deliveredNumbers ++ c.pending.map BlockEvent.number = span T c.lastNum
  notNull : SseEvent.null ∉ c.delivered

/-- Where the client is, when `a` is the last block that it received or that was dropped. -/
def Client.Holds (f a t : ℤ) (c : Client) : Prop :=
  match c.pc with
  | .initial => c.tip = none ∧ c.pending = [] ∧ c.delivered = []
  | .initialRange T =>
    c.tip = some T ∧ c.lastNum = T ∧ f ≤ T ∧ T ≤ t ∧ a ≤ T ∧ c.pending = [] ∧ c.delivered = []
  | .streaming => ∃ T, c.Runs f t T ∧ a ≤ c.lastNum
  | .lagged => ∃ T, c.Runs f t T ∧ c.pending = [] ∧ a ≤ c.lastNum + sseMaxReplay
  | .replay start stop =>
    ∃ T, c.Runs f t T ∧ c.pending = [] ∧ start = c.lastNum + 1 ∧ c.lastNum ≤ stop ∧ stop ≤ t ∧
      a ≤ stop

/-- A client's place in the messages is just after block `a`, and the client holds there. -/
structure Client.Follows (log : List Message) (f m t : ℤ) (c : Client) : Prop where
  next_le : c.next ≤ log.length
  place : ∃ a, f ≤ a ∧ a ≤ m ∧ numbers (log.take c.next) = span (f + 1) a ∧ c.Holds f a t

/-- **The invariant**: the database holds `f` to the tip `t`, and the messages the blocks after `f`
up to `m`. -/
structure FeedState.Inv (f m t : ℤ) (s : FeedState) : Prop where
  tip : s.db.getMaxBlockNumber = some t
  stored : ∀ n, f ≤ n → n ≤ t → n ∈ s.db.blocks
  first_le : f ≤ m
  le_tip : m ≤ t
  published : numbers s.log = span (f + 1) m
  feed : s.feedPc.Holds s.sent m t
  client : ∀ c, s.client = some c → c.Follows s.log f m t

theorem numbers_append (ms ms' : List Message) : numbers (ms ++ ms') = numbers ms ++ numbers ms' :=
  List.filterMap_append

theorem Client.deliveredNumbers_deliver (c : Client) (m : Message) :
    (c.deliver (.message m)).deliveredNumbers = c.deliveredNumbers ++ m.number?.toList := by
  rw [deliveredNumbers, deliver, List.filterMap_append]
  cases m with
  | block e => rfl
  | stats text => rfl

theorem Client.Holds.mono {f a t t' : ℤ} {c : Client} (h : c.Holds f a t) (ht : t ≤ t') :
    c.Holds f a t' := by
  have hruns : ∀ {T : ℤ}, c.Runs f t T → c.Runs f t' T := fun hr =>
    { hr with last_le := hr.last_le.trans ht }
  unfold Holds at h ⊢
  cases hpc : c.pc with
  | initial =>
    rw [hpc] at h
    exact h
  | initialRange T =>
    rw [hpc] at h
    obtain ⟨htip, hlast, hfirst, hle, hrest⟩ := h
    exact ⟨htip, hlast, hfirst, hle.trans ht, hrest⟩
  | streaming =>
    rw [hpc] at h
    obtain ⟨T, hr, ha⟩ := h
    exact ⟨T, hruns hr, ha⟩
  | lagged =>
    rw [hpc] at h
    obtain ⟨T, hr, hrest⟩ := h
    exact ⟨T, hruns hr, hrest⟩
  | replay start stop =>
    rw [hpc] at h
    obtain ⟨T, hr, hp, hs, hl, hle, ha⟩ := h
    exact ⟨T, hruns hr, hp, hs, hl, hle.trans ht, ha⟩

theorem Client.Follows.mono {log : List Message} {f m m' t t' : ℤ} {c : Client}
    (h : c.Follows log f m t) (more : List Message) (hm : m ≤ m') (ht : t ≤ t') :
    c.Follows (log ++ more) f m' t' := by
  obtain ⟨a, hfirst, hle, hplace, hholds⟩ := h.place
  refine ⟨?_, a, hfirst, hle.trans hm, ?_, hholds.mono ht⟩
  · rw [List.length_append]
    exact h.next_le.trans (Nat.le_add_right _ _)
  · rw [List.take_append_of_le_length h.next_le]
    exact hplace

/-! ## Each step keeps it -/

theorem FeedState.Inv.commit {f m t : ℤ} {s : FeedState} (h : s.Inv f m t)
    {bundles : List BlockBundle} (hrises : Rises t (bundles.map fun b => b.block.number))
    (ch : ℕ → Choices) (fails : Bool) :
    ∃ t', FeedState.Inv f m t' { s with db := Database.trySave ch s.db bundles fails } := by
  obtain ⟨t', hle, htip, hold, hnew⟩ := hrises.trySave h.tip ch fails
  refine ⟨t', ?_⟩
  have hstored : ∀ n, f ≤ n → n ≤ t' → n ∈ (Database.trySave ch s.db bundles fails).blocks := by
    intro n hn hn'
    by_cases hcase : n ≤ t
    · exact hold n (h.stored n hn hcase)
    · exact hnew n (by omega) hn'
  have hfeed : s.feedPc.Holds s.sent m t' := by
    have hpc := h.feed
    cases hs : s.feedPc with
    | tip =>
      rw [hs] at hpc
      exact hpc
    | stats =>
      rw [hs] at hpc
      exact hpc
    | range head =>
      rw [hs] at hpc
      obtain ⟨hsent, hlt, hhead⟩ := hpc
      exact ⟨hsent, hlt, hhead.trans hle⟩
    | sending events head =>
      rw [hs] at hpc
      obtain ⟨hevents, hmh, hhead⟩ := hpc
      exact ⟨hevents, hmh, hhead.trans hle⟩
  refine ⟨htip, hstored, h.first_le, h.le_tip.trans hle, h.published, hfeed, fun c hc => ?_⟩
  have hfollows := (h.client c hc).mono [] le_rfl hle
  rw [List.append_nil] at hfollows
  exact hfollows

/-- **A step of the feed keeps the invariant.** -/
theorem FeedState.Inv.feedStep {f m t : ℤ} {s : FeedState} (h : s.Inv f m t)
    (isJson : String → Bool) : ∃ m', FeedState.Inv f m' t (s.feedStep isJson) := by
  have hpc := h.feed
  unfold FeedState.feedStep
  cases hs : s.feedPc with
  | tip =>
    rw [hs] at hpc
    have hsent : s.sent = m := hpc
    simp only [h.tip, Option.getD_some]
    by_cases hlt : s.sent < t
    · rw [if_pos hlt]
      exact ⟨m, { h with feed := ⟨hsent, hsent ▸ hlt, le_rfl⟩ }⟩
    · rw [if_neg hlt]
      exact ⟨m, { h with feed := hsent }⟩
  | range head =>
    rw [hs] at hpc
    obtain ⟨hsent, hlt, hhead⟩ := hpc
    have hread : (s.db.blockEventsInRange (s.sent + 1) head).map BlockEvent.number =
        span (m + 1) head := by
      rw [hsent]
      refine blockEventsInRange_numbers fun n h1 h2 => h.stored n ?_ (h2.trans hhead)
      have := h.first_le
      omega
    exact ⟨m, { h with feed := ⟨hread, hlt.le, hhead⟩ }⟩
  | sending events head =>
    rw [hs] at hpc
    obtain ⟨hevents, hmh, hhead⟩ := hpc
    cases events with
    | nil =>
      -- The range has been sent: `head` is the last block published.
      have hlength := congrArg List.length hevents
      rw [length_span, List.map_nil, List.length_nil] at hlength
      have heq : head = m := by omega
      exact ⟨m, { h with feed := heq }⟩
    | cons e events =>
      obtain ⟨hnum, hle, hrest⟩ := span_eq_cons hevents.symm
      have hpub : numbers (s.log ++ [.block e]) = span (f + 1) (m + 1) := by
        have hfirst := h.first_le
        rw [numbers_append, h.published, span_succ (by omega), ← hnum]
        rfl
      refine ⟨m + 1, h.tip, h.stored, ?_, hle.trans hhead, hpub, ?_, fun c hc => ?_⟩
      · have := h.first_le
        omega
      · exact ⟨hrest, hle, hhead⟩
      · exact (h.client c hc).mono _ (by omega) le_rfl
  | stats =>
    rw [hs] at hpc
    cases hkv : (s.db.getKv statsKey).filter fun stored => decide (stored ≠ s.stats) with
    | none =>
      exact ⟨m, { h with feed := hpc }⟩
    | some stored =>
      refine ⟨m, ?_⟩
      by_cases hj : isJson stored
      · simp only [hj, if_true]
        have hpub : numbers (s.log ++ [.stats stored]) = span (f + 1) m := by
          rw [numbers_append, h.published]
          exact List.append_nil _
        exact ⟨h.tip, h.stored, h.first_le, h.le_tip, hpub, hpc, fun c hc =>
          (h.client c hc).mono _ le_rfl le_rfl⟩
      · simp only [hj]
        exact { h with feed := hpc }

theorem numbers_take_succ {log : List Message} {next : ℕ} {f a m : ℤ} {msg : Message}
    (hf : f ≤ a) (hlog : numbers log = span (f + 1) m)
    (hplace : numbers (log.take next) = span (f + 1) a)
    (htake : log.take (next + 1) = log.take next ++ [msg]) :
    msg.number? = none ∧ numbers (log.take (next + 1)) = span (f + 1) a ∨
      msg.number? = some (a + 1) ∧ a + 1 ≤ m ∧
        numbers (log.take (next + 1)) = span (f + 1) (a + 1) := by
  have hnumbers : numbers (log.take (next + 1)) = span (f + 1) a ++ msg.number?.toList := by
    rw [htake, numbers_append, hplace]
    cases msg <;> rfl
  cases hmsg : msg.number? with
  | none =>
    rw [hmsg] at hnumbers
    exact .inl ⟨rfl, hnumbers.trans (List.append_nil _)⟩
  | some n =>
    -- What is received is a start of what is published.
    rw [hmsg, Option.toList_some] at hnumbers
    have hprefix : (span (f + 1) a ++ [n]) ++ numbers (log.drop (next + 1)) = span (f + 1) m := by
      rw [← hnumbers, ← numbers_append, List.take_append_drop]
      exact hlog
    have hspan := eq_span_of_append hprefix
    have hlength := congrArg List.length hprefix
    simp only [List.length_append, length_span, List.length_cons, List.length_nil] at hspan hlength
    have hend : f + 1 + (((a - (f + 1) + 1).toNat + (0 + 1) : ℕ) : ℤ) - 1 = a + 1 := by omega
    rw [hend, span_succ (by omega)] at hspan
    obtain rfl : n = a + 1 := by simpa using hspan
    refine .inr ⟨rfl, by omega, ?_⟩
    rw [hnumbers, span_succ (by omega)]

/-- A lag notice leaves the blocks after `a`, up to some other, behind. -/
theorem numbers_take_oldest {log : List Message} {next old : ℕ} {f a m : ℤ} {gone : List Message}
    (hf : f ≤ a) (ha : a ≤ m) (hlog : numbers log = span (f + 1) m)
    (hplace : numbers (log.take next) = span (f + 1) a)
    (htake : log.take old = log.take next ++ gone) :
    ∃ b, a ≤ b ∧ b ≤ m ∧ numbers gone = span (a + 1) b ∧
      numbers (log.take old) = span (f + 1) b := by
  have hnumbers : numbers (log.take old) = span (f + 1) a ++ numbers gone := by
    rw [htake, numbers_append, hplace]
  have hprefix : span (f + 1) a ++ (numbers gone ++ numbers (log.drop old)) =
      span (f + 1) a ++ span (a + 1) m := by
    rw [← List.append_assoc, ← hnumbers, ← numbers_append, List.take_append_drop,
      span_append (by omega) ha]
    exact hlog
  have hrest := List.append_cancel_left hprefix
  have hgone := eq_span_of_append hrest
  have hlength := congrArg List.length hrest
  rw [List.length_append, length_span] at hlength
  refine ⟨a + 1 + (numbers gone).length - 1, by omega, by omega, hgone, ?_⟩
  rw [hnumbers, hgone, length_span, span_append (by omega) (by omega)]
  congr 1
  omega

/-! ### The client -/

variable {f m t : ℤ} {s : FeedState} {c : Client}

theorem Client.Follows.initial (hinv : s.Inv f m t) (h : c.Follows s.log f m t)
    (hpc : c.pc = .initial) (capacity : ℕ) :
    (c.sseStep capacity s.db s.log).Follows s.log f m t := by
  obtain ⟨a, hfa, ham, hplace, hholds⟩ := h.place
  rw [Holds, hpc] at hholds
  obtain ⟨-, hpending, hdelivered⟩ := hholds
  have hle := hinv.le_tip
  rw [sseStep, hpc]
  simp only [hinv.tip]
  exact ⟨h.next_le, a, hfa, ham, hplace, rfl, rfl, hinv.first_le.trans hle, le_rfl,
    ham.trans hle, hpending, hdelivered⟩

theorem Client.Follows.initialRange {T : ℤ} (hinv : s.Inv f m t) (h : c.Follows s.log f m t)
    (hpc : c.pc = .initialRange T) (capacity : ℕ) :
    (c.sseStep capacity s.db s.log).Follows s.log f m t := by
  obtain ⟨a, hfa, ham, hplace, hholds⟩ := h.place
  rw [Holds, hpc] at hholds
  obtain ⟨htip, hlast, hfT, hTt, haT, hpending, hdelivered⟩ := hholds
  have hread : (s.db.blockEventsInRange T T).map BlockEvent.number = [T] := by
    rw [← span_self]
    exact blockEventsInRange_numbers fun n h1 h2 => hinv.stored n (by omega) (by omega)
  obtain ⟨e, hevents, he⟩ := List.map_eq_singleton_iff.mp hread
  rw [sseStep, hpc]
  simp only [hevents, List.getLast?_singleton]
  refine ⟨h.next_le, a, hfa, ham, hplace, T, ?_, ?_⟩
  · refine ⟨htip, hfT, hlast.ge, hlast.trans_le hTt, ?_, ?_⟩
    · show (c.delivered ++ [SseEvent.message (.block e)]).filterMap _ ++
        c.pending.map BlockEvent.number = span T c.lastNum
      rw [hdelivered, hpending, hlast, span_self]
      simp [Message.number?, he]
    · show SseEvent.null ∉ c.delivered ++ [SseEvent.message (.block e)]
      rw [hdelivered]
      simp
  · exact haT.trans hlast.ge

theorem Client.holds_of_streaming {a : ℤ} (T : ℤ) (hpc : c.pc = .streaming) (hr : c.Runs f t T)
    (ha : a ≤ c.lastNum) : c.Holds f a t := by
  rw [Holds, hpc]
  exact ⟨T, hr, ha⟩

theorem Client.Runs.moved {c' : Client} {T : ℤ} (h : c.Runs f t T) (htip : c'.tip = c.tip)
    (hdelivered : c'.delivered = c.delivered) (hpending : c'.pending = c.pending)
    (hlast : c'.lastNum = c.lastNum) : c'.Runs f t T := by
  obtain ⟨tip, first, le_last, last_le, run, notNull⟩ := h
  refine ⟨htip.trans tip, first, hlast ▸ le_last, hlast ▸ last_le, ?_, hdelivered ▸ notNull⟩
  rw [deliveredNumbers, hdelivered, hpending, hlast]
  exact run

theorem Client.Runs.deliver {c' : Client} {T : ℤ} (h : c.Runs f t T) (msg : Message)
    (htip : c'.tip = c.tip) (hdelivered : c'.delivered = c.delivered ++ [.message msg])
    (hle : c.lastNum ≤ c'.lastNum) (hle' : c'.lastNum ≤ t)
    (hrun : c.deliveredNumbers ++ (msg.number?.toList ++ c'.pending.map BlockEvent.number) =
      span T c'.lastNum) : c'.Runs f t T := by
  refine ⟨htip.trans h.tip, h.first_le, h.le_last.trans hle, hle', ?_, ?_⟩
  · have hnumbers : c'.deliveredNumbers = c.deliveredNumbers ++ msg.number?.toList := by
      rw [← deliveredNumbers_deliver, deliveredNumbers, hdelivered]
      rfl
    rw [hnumbers, List.append_assoc]
    exact hrun
  · rw [hdelivered]
    simpa using h.notNull

theorem Client.Follows.pending {capacity : ℕ} {e : BlockEvent} {pending : List BlockEvent}
    (h : c.Follows s.log f m t) (hpc : c.pc = .streaming) (hpending : c.pending = e :: pending) :
    (c.sseStep capacity s.db s.log).Follows s.log f m t := by
  obtain ⟨a, hfa, ham, hplace, hholds⟩ := h.place
  rw [Holds, hpc] at hholds
  obtain ⟨T, hruns, ha⟩ := hholds
  have hrun := hruns.run
  rw [hpending] at hrun
  rw [sseStep, hpc]
  simp only [hpending]
  refine ⟨h.next_le, a, hfa, ham, hplace, holds_of_streaming T rfl ?_ ha⟩
  exact hruns.deliver (.block e) rfl rfl le_rfl hruns.last_le hrun

/-- **The client receives**: a block already delivered, the next one, stats, or a lag notice. -/
theorem Client.Follows.receive {capacity : ℕ} (hinv : s.Inv f m t) (h : c.Follows s.log f m t)
    (hpc : c.pc = .streaming) (hpending : c.pending = [])
    (hcovers : c.next < Broadcast.oldest capacity s.log →
      ((numbers (Broadcast.dropped capacity s.log c.next)).filter
        fun n => c.lastNum < n).length ≤ sseMaxReplay) :
    (c.sseStep capacity s.db s.log).Follows s.log f m t := by
  obtain ⟨a, hfa, ham, hplace, hholds⟩ := h.place
  rw [Holds, hpc] at hholds
  obtain ⟨T, hruns, ha⟩ := hholds
  have hmt := hinv.le_tip
  have hrun := hruns.run
  rw [hpending, List.map_nil, List.append_nil] at hrun
  rw [sseStep, hpc]
  simp only [hpending]
  rcases Broadcast.receive_cases capacity s.log c.next with
    ⟨msg, hrecv, htake, hlt⟩ | ⟨hlag, hrecv, htake⟩ | hrecv
  · simp only [hrecv]
    rcases numbers_take_succ hfa hinv.published hplace htake with
      ⟨hnone, hplace'⟩ | ⟨hsome, hle, hplace'⟩
    · -- Stats are passed on.
      simp only [hnone]
      refine ⟨hlt, a, hfa, ham, hplace', holds_of_streaming T rfl ?_ ha⟩
      refine hruns.deliver msg rfl rfl le_rfl hruns.last_le ?_
      rw [hnone]
      exact (List.append_nil _).trans hrun
    · simp only [hsome]
      by_cases hold : a + 1 ≤ c.lastNum
      · rw [if_pos hold]
        exact ⟨hlt, a + 1, by omega, hle, hplace', holds_of_streaming T rfl
          (hruns.moved rfl rfl hpending.symm rfl) hold⟩
      · -- The block after the last one delivered.
        rw [if_neg hold]
        have hnext : a + 1 = c.lastNum + 1 := by omega
        have hfirst := hruns.le_last
        refine ⟨hlt, a + 1, by omega, hle, hplace', holds_of_streaming T rfl ?_ le_rfl⟩
        refine hruns.deliver msg rfl rfl ?_ ?_ ?_
        · show c.lastNum ≤ a + 1
          omega
        · show a + 1 ≤ t
          omega
        · show c.deliveredNumbers ++ (msg.number?.toList ++ []) = span T (a + 1)
          rw [hsome, hrun, hnext, span_succ (by omega)]
          rfl
  · -- The blocks dropped above the last number fit a replay.
    simp only [hrecv]
    obtain ⟨b, hab, hbm, hgone, hplace'⟩ :=
      numbers_take_oldest hfa ham hinv.published hplace htake
    have hcount := hcovers hlag
    have habove : b ≤ c.lastNum + sseMaxReplay := by
      by_cases hcase : b ≤ c.lastNum
      · omega
      · have hcut : span (a + 1) b = span (a + 1) c.lastNum ++ span (c.lastNum + 1) b :=
          (span_append (by omega) (by omega)).symm
        rw [hgone, hcut, List.filter_append, List.length_append] at hcount
        have hfit : (span (c.lastNum + 1) b).filter (fun n => c.lastNum < n) =
            span (c.lastNum + 1) b := by
          refine List.filter_eq_self.mpr fun n hn => decide_eq_true ?_
          have := (mem_span.mp hn).1
          omega
        rw [hfit, length_span] at hcount
        omega
    have hnext : Broadcast.oldest capacity s.log ≤ s.log.length := Nat.sub_le _ _
    exact ⟨hnext, b, hfa.trans hab, hbm, hplace', T, hruns.moved rfl rfl hpending.symm rfl, rfl,
      habove⟩
  · simp only [hrecv]
    exact h

/-- After a lag notice the client reads the tip, which bounds the replay. -/
theorem Client.Follows.lagged (hinv : s.Inv f m t) (h : c.Follows s.log f m t)
    (hpc : c.pc = .lagged) (capacity : ℕ) :
    (c.sseStep capacity s.db s.log).Follows s.log f m t := by
  obtain ⟨a, hfa, ham, hplace, hholds⟩ := h.place
  rw [Holds, hpc] at hholds
  obtain ⟨T, hruns, hpending, ha⟩ := hholds
  have hmt := hinv.le_tip
  have hlast := hruns.last_le
  rw [sseStep, hpc]
  simp only [hinv.tip, Option.getD_some]
  refine ⟨h.next_le, a, hfa, ham, hplace, T, hruns.moved rfl rfl rfl rfl, hpending, rfl,
    ?_, ?_, ?_⟩
  · show c.lastNum ≤ min t (c.lastNum + 1 + sseMaxReplay - 1)
    omega
  · omega
  · omega

theorem Client.Follows.replay {start stop : ℤ} (hinv : s.Inv f m t) (h : c.Follows s.log f m t)
    (hpc : c.pc = .replay start stop) (capacity : ℕ) :
    (c.sseStep capacity s.db s.log).Follows s.log f m t := by
  obtain ⟨a, hfa, ham, hplace, hholds⟩ := h.place
  rw [Holds, hpc] at hholds
  obtain ⟨T, hruns, hpending, hstart, hls, hst, ha⟩ := hholds
  have hfirst := hruns.first_le
  have hTl := hruns.le_last
  have hrun := hruns.run
  rw [hpending, List.map_nil, List.append_nil] at hrun
  have hread : (s.db.blockEventsInRange start stop).map BlockEvent.number = span start stop :=
    blockEventsInRange_numbers fun n h1 h2 => hinv.stored n (by omega) (by omega)
  have hlast : max c.lastNum stop = stop := max_eq_right hls
  rw [sseStep, hpc]
  simp only [hpending, List.nil_append, hlast]
  refine ⟨h.next_le, a, hfa, ham, hplace, holds_of_streaming T rfl ?_ ha⟩
  refine ⟨hruns.tip, hfirst, hTl.trans hls, hst, ?_, hruns.notNull⟩
  show c.deliveredNumbers ++ (s.db.blockEventsInRange start stop).map BlockEvent.number = span T stop
  rw [hread, hrun, hstart, span_append (by omega) hls]

/-- **A step of the client keeps the invariant**, unless a lag notice has dropped too much. -/
theorem Client.Follows.sseStep {capacity : ℕ} (hinv : s.Inv f m t) (h : c.Follows s.log f m t)
    (hcovers : c.pc = .streaming → c.pending = [] → c.next < Broadcast.oldest capacity s.log →
      ((numbers (Broadcast.dropped capacity s.log c.next)).filter
        fun n => c.lastNum < n).length ≤ sseMaxReplay) :
    (c.sseStep capacity s.db s.log).Follows s.log f m t := by
  cases hpc : c.pc with
  | initial => exact h.initial hinv hpc capacity
  | initialRange T => exact h.initialRange hinv hpc capacity
  | streaming =>
    cases hpending : c.pending with
    | nil => exact h.receive hinv hpc hpending (hcovers hpc hpending)
    | cons e pending => exact h.pending hpc hpending
  | lagged => exact h.lagged hinv hpc capacity
  | replay start stop => exact h.replay hinv hpc capacity

/-! ## Every run -/

theorem FeedState.Inv.start {s : FeedState} {f : ℤ} (htip : s.db.getMaxBlockNumber = some s.sent)
    (hf : s.sent = f) (hlog : s.log = []) (hpc : s.feedPc = .tip) (hclient : s.client = none) :
    s.Inv f f f := by
  refine ⟨hf ▸ htip, fun n h1 h2 => ?_, le_rfl, le_rfl, ?_, ?_, ?_⟩
  · obtain rfl : n = f := le_antisymm h2 h1
    exact hf ▸ (Database.getMaxBlockNumber_eq_some.mp htip).1
  · rw [hlog, span_of_lt (by omega)]
    rfl
  · rw [hpc]
    exact hf
  · rw [hclient]
    nofun

/-- **Every step keeps the invariant**, as long as the replay covers each lag. -/
theorem FeedState.Inv.exec {capacity : ℕ} {isJson : String → Bool} {s s' : FeedState}
    {a : FeedAction} {f m t : ℤ} (h : s.Inv f m t) (hcovers : s.ReplayCovers capacity a)
    (hexec : s.exec capacity isJson a = some s') : ∃ m' t', s'.Inv f m' t' := by
  cases a with
  | commit ch bundles fails =>
    simp only [FeedState.exec, h.tip] at hexec
    by_cases hrises : Rises t (bundles.map fun b => b.block.number)
    · rw [if_pos hrises] at hexec
      obtain rfl := Option.some.inj hexec
      obtain ⟨t', hinv⟩ := h.commit hrises ch fails
      exact ⟨m, t', hinv⟩
    · rw [if_neg hrises] at hexec
      exact absurd hexec nofun
  | setStats text =>
    obtain rfl := Option.some.inj hexec
    exact ⟨m, t, { h with }⟩
  | feed =>
    obtain rfl := Option.some.inj hexec
    obtain ⟨m', hinv⟩ := h.feedStep isJson
    exact ⟨m', t, hinv⟩
  | connect =>
    cases hc : s.client with
    | some c =>
      simp only [FeedState.exec, hc] at hexec
      exact absurd hexec nofun
    | none =>
      simp only [FeedState.exec, hc] at hexec
      obtain rfl := Option.some.inj hexec
      refine ⟨m, t, { h with client := fun c hc => ?_ }⟩
      obtain rfl := Option.some.inj hc
      refine ⟨le_rfl, m, h.first_le, le_rfl, ?_, rfl, rfl, rfl⟩
      rw [List.take_length]
      exact h.published
  | client =>
    cases hc : s.client with
    | none =>
      simp only [FeedState.exec, hc] at hexec
      exact absurd hexec nofun
    | some c =>
      simp only [FeedState.exec, hc, Option.map_some] at hexec
      obtain rfl := Option.some.inj hexec
      refine ⟨m, t, { h with client := fun c' hc' => ?_ }⟩
      obtain rfl := Option.some.inj hc'
      have hfollows := (h.client c hc).sseStep h (hcovers c hc)
      exact hfollows

theorem FeedState.inv_of_reachable {capacity : ℕ} {isJson : String → Bool} {s : FeedState}
    (h : (liveFeed capacity isJson).ReachableUnder (FeedState.ReplayCovers capacity) s) :
    ∃ f m t, s.Inv f m t := by
  refine h.invariant (I := fun s => ∃ f m t, s.Inv f m t) ?_ ?_
  · rintro s ⟨htip, hlog, hpc, hclient⟩
    exact ⟨s.sent, s.sent, s.sent, .start htip rfl hlog hpc hclient⟩
  · rintro s a s' ⟨f, m, t, hinv⟩ hcovers hexec
    obtain ⟨m', t', hinv'⟩ := hinv.exec hcovers hexec
    exact ⟨f, m', t', hinv'⟩

section Sample

attribute [local instance] Keccak.sponge

instance (capacity : ℕ) (s : FeedState) : ∀ a, Decidable (s.ReplayCovers capacity a)
  | .client =>
    match hc : s.client with
    | none => isTrue fun _ h => absurd (hc.symm.trans h) nofun
    | some c =>
      decidable_of_iff (c.pc = .streaming → c.pending = [] →
        c.next < Broadcast.oldest capacity s.log →
          ((numbers (Broadcast.dropped capacity s.log c.next)).filter
            fun n => c.lastNum < n).length ≤ sseMaxReplay)
        ⟨fun h _ hc' => Option.some.inj (hc.symm.trans hc') ▸ h, fun h => h c hc⟩
  | .commit .. | .setStats _ | .feed | .connect => isTrue trivial

end Sample

end ChainExplorer
