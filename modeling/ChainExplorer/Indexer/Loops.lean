import ChainExplorer.Db.Writer
import ChainExplorer.Indexer.Bundles
import ChainExplorer.Rpc.Calls

/-!
# The indexer's loops

One loop follows the head, one descends from the lowest block stored, and one writer takes what both
send from one channel (`indexer.rs`). Both fetch a range as chunks at once, which share the tokens
that are known, and cut what came back at the first hole.

* `blockChunks`, `RangeFetch`: a range being fetched.
* `contiguousFrom`, `contiguousDownTo`: the cuts.
* `IndexerState.exec`, `indexer`: a step of either loop, of the writer or of the process.

A process that is told to stop cuts a fetch short, which is a fetch whose other chunks fail, and drops
the rest, as a crash does.
-/

namespace ChainExplorer

/-! ## Machine integers -/

def maxU64 : ℕ := 18446744073709551615

def checkedAdd (a b : ℕ) : Option ℕ := if a + b ≤ maxU64 then some (a + b) else none

def saturatingAddU64 (a b : ℕ) : ℕ := min (a + b) maxU64

/-! ## Chunks -/

/-- Blocks of one request. -/
def rpcBlockBatch : ℕ := 16

/-- How far the indexed tip may lag before the descent yields. -/
def tipYieldLag : ℕ := 16

/-- An iterator from a first item and what follows one, of at most `fuel` items. -/
def successors (next : ℕ → Option ℕ) : ℕ → Option ℕ → List ℕ
  | 0, _ => []
  | _ + 1, none => []
  | fuel + 1, some a => a :: successors next fuel (next a)

/-- A range as contiguous chunks of at most `batch` blocks. There are no more chunks than blocks. -/
def blockChunks (start stop batch : ℕ) : List (ℕ × ℕ) :=
  let batch := max batch 1
  let next := fun a => (checkedAdd a batch).filter fun n => n ≤ stop
  (successors next (stop + 1 - start) (if start ≤ stop then some start else none)).map fun a =>
    (a, min (saturatingAddU64 a (batch - 1)) stop)

example : blockChunks 5 40 16 = [(5, 20), (21, 36), (37, 40)] := by decide

/-! ## A range being fetched -/

structure IndexerConfig where
  batch : ℕ
  concurrency : ℕ

/-- How many chunks are fetched at once. -/
def IndexerConfig.inflight (cfg : IndexerConfig) : ℕ :=
  (max cfg.concurrency 1 + rpcBlockBatch - 1) / rpcBlockBatch

/-- A chunk being fetched: asked for, waiting for the metadata of its tokens, or there. -/
inductive FetchTask
  | asked (chunk : ℕ × ℕ)
  | assembled (bundles : List BlockBundle) (wanted : List String)
  | done (bundles : List BlockBundle)

/-- The chunks still to ask for, those being fetched and the bundles that came back. -/
structure RangeFetch where
  chunks : List (ℕ × ℕ)
  tasks : List FetchTask
  out : List BlockBundle

inductive FetchStep
  | spawn
  | rawBlocks (i : ℕ) (node : Node)
  | describe (i : ℕ) (ch : ℕ → Choices) (node : Node)
  | join (i : ℕ)

namespace RangeFetch

def first (start stop : ℕ) : RangeFetch := ⟨blockChunks start stop rpcBlockBatch, [], []⟩

/-- Every chunk has come back. -/
def isOver (f : RangeFetch) : Bool := f.chunks.isEmpty && f.tasks.isEmpty

/-- What came back, by number. -/
def bundles (f : RangeFetch) : List BlockBundle :=
  f.out.insertionSort fun a b => a.block.number ≤ b.block.number

/-- A step of a fetch, which reads the known tokens and may add to them. A chunk that fails brings
nothing, and nor does one whose task panicked. -/
def exec [Keccak] [Codec] (cfg : IndexerConfig) (known : Finset String) (f : RangeFetch) :
    FetchStep → Option (RangeFetch × Finset String)
  | .spawn =>
    match f.chunks with
    | chunk :: rest =>
      if f.tasks.length < cfg.inflight then
        some ({ f with chunks := rest, tasks := f.tasks ++ [.asked chunk] }, known)
      else none
    | [] => none
  | .rawBlocks i node =>
    match f.tasks[i]? with
    | some (.asked chunk) =>
      match (fetchRawBlocks chunk.1 chunk.2 node []).1 with
      | .ok raws =>
        match assemble raws with
        | some bundles =>
          let wanted := tokensToFetch bundles known
          let task := if wanted.isEmpty then .done bundles else .assembled bundles wanted
          some ({ f with tasks := f.tasks.set i task }, known)
        | none => some ({ f with tasks := f.tasks.set i (.done []) }, known)
      | .error _ => some ({ f with tasks := f.tasks.set i (.done []) }, known)
    | _ => none
  | .describe i ch node =>
    match f.tasks[i]? with
    | some (.assembled bundles wanted) =>
      match (describeTokens ch wanted bundles node []).1 with
      | .ok (bundles, new) => some ({ f with tasks := f.tasks.set i (.done bundles) }, known ∪ new)
      | .error _ => none
    | _ => none
  | .join i =>
    match f.tasks[i]? with
    | some (.done bundles) =>
      -- A fetch waits for a chunk only when no other can be asked for.
      if f.chunks.isEmpty ∨ cfg.inflight ≤ f.tasks.length then
        some ({ f with tasks := f.tasks.eraseIdx i, out := f.out ++ bundles }, known)
      else none
    | _ => none

end RangeFetch

/-! ## The cuts -/

/-- A block's number, as 64 bits without a sign. -/
def BlockBundle.height (b : BlockBundle) : ℕ := wrapU64 b.block.number

/-- The bundles that run on from a number with no hole, in order. -/
def contiguousFrom : List BlockBundle → ℕ → List BlockBundle
  | [], _ => []
  | b :: bundles, expected =>
    if b.height = expected then b :: contiguousFrom bundles (wrapU64 (expected + 1)) else []

/-- The bundles that run down from a number with no hole, in the order given. -/
def descending : List BlockBundle → ℕ → List BlockBundle
  | [], _ => []
  | b :: bundles, expected =>
    if b.height = expected then b :: descending bundles (wrapU64 (expected - 1)) else []

/-- The bundles that run down from a number with no hole, still in ascending order. -/
def contiguousDownTo (bundles : List BlockBundle) (stop : ℕ) : List BlockBundle :=
  (descending bundles.reverse stop).reverse

/-! ## The loops -/

/-- Where the loop that follows the head is. -/
inductive ForwardPc
  | boot
  | waiting (sent : ℕ)
  /-- The database was empty: waits for a block in it. -/
  | seeding (head : ℕ)
  | catching (sent head : ℕ)
  | fetching (sent head : ℕ) (fetch : RangeFetch)
  | sending (reached head : ℕ) (rest : List BlockBundle)

/-- Where the descent is. -/
inductive DescentPc
  | boot
  | top (frontier : Option ℕ)
  /-- Height 1 was reached: waits, and reads the lowest block again. -/
  | low
  | fetching (frontier : Option ℕ) (target : ℕ) (fetch : RangeFetch)
  | sending (reached : ℕ) (rest : List BlockBundle)

/-- The bundles the channel to the writer holds at most. -/
def channelCapacity : ℕ := 1024

/-- The bundles one commit may carry. -/
def maxBatch : ℕ := 64

/-- The database, and what a process holds. The last five record the heads announced, the height the
forward loop started from and the target of the present descent, with the numbers each sent. -/
structure IndexerState where
  db : Database
  known : Finset String
  heads : List ℕ
  tipLag : ℕ
  channel : List BlockBundle
  batch : List BlockBundle
  forward : ForwardPc
  descent : DescentPc
  highest : ℕ
  base : ℕ
  forwardSent : List ℕ
  target : ℕ
  descentSent : List ℕ

inductive IndexerAction
  | announce (head : ℕ)
  | forwardBoot
  | receiveHead
  | pollSeed (deadline : Bool)
  | catchUp
  | forwardFetch (step : FetchStep)
  | forwardFetched
  | forwardSend
  | descentBoot
  | pickTarget (node : Node)
  | readLowest
  | descentFetch (step : FetchStep)
  | descentFetched
  | descentSend
  | writerTake
  | writerSave (ch : ℕ → Choices) (fails : Bool)
  /-- The process ends and starts again on what was committed. -/
  | crash

namespace IndexerState

/-- What is queued for the writer, the batch it has taken first. -/
def queue (s : IndexerState) : List BlockBundle := s.batch ++ s.channel

section Keccak

variable [Keccak]

/-- A process that starts: the tokens stored are known. -/
def boot (db : Database) : IndexerState where
  db := db
  known := (db.tokenMetadata.keys.map blobAddr).toFinset
  heads := []
  tipLag := 0
  channel := []
  batch := []
  forward := .boot
  descent := .boot
  highest := 0
  base := 0
  forwardSent := []
  target := 0
  descentSent := []

omit [Keccak] in
/-- The highest stored height, which the forward loop starts from. -/
def latest (s : IndexerState) : Option ℕ := s.db.getMaxBlockNumber.map wrapU64

omit [Keccak] in
/-- The lowest stored height, which a descent starts from. -/
def lowest (s : IndexerState) : Option ℕ := s.db.getMinBlockNumber.map wrapU64

omit [Keccak] in
/-- A step of the loop that follows the head. -/
def catchUp (cfg : IndexerConfig) (s : IndexerState) (sent head : ℕ) : IndexerState :=
  if sent < head then
    -- Of the heads queued only the highest counts: a stale one may come after a newer one.
    let head := s.heads.foldl max head
    let stop := min (saturatingAddU64 sent cfg.batch) head
    { s with
      heads := []
      tipLag := head - sent
      forward := .fetching sent head (.first (sent + 1) stop) }
  else { s with tipLag := 0, forward := .waiting sent }

omit [Keccak] in
/-- The next range of a descent, below a target. -/
def descend (cfg : IndexerConfig) (s : IndexerState) (frontier : Option ℕ) (target : ℕ) :
    IndexerState :=
  let start := max (target - cfg.batch) 1
  { s with descent := .fetching frontier target (.first start (wrapU64 (target - 1))) }

/-- A step of the indexer. -/
def exec [Codec] (cfg : IndexerConfig) (s : IndexerState) : IndexerAction → Option IndexerState
  | .announce head =>
    if head ≤ maxU64 then
      some { s with heads := s.heads ++ [head], highest := max s.highest head }
    else none
  | .forwardBoot =>
    match s.forward with
    | .boot =>
      let sent := s.latest.getD 0
      some { s with forward := .waiting sent, base := sent, forwardSent := [] }
    | _ => none
  | .receiveHead =>
    match s.forward, s.heads with
    | .waiting sent, head :: rest =>
      let head := rest.foldl max head
      some { s with
        heads := []
        forward := if sent = 0 ∧ 0 < head then .seeding head else .catching sent head }
    | _, _ => none
  | .pollSeed deadline =>
    match s.forward with
    | .seeding head =>
      match s.latest with
      | some sent =>
        some { s with
          base := sent
          forward := if sent = 0 ∨ head ≤ sent then .waiting sent else .catching sent head }
      | none => if deadline then some { s with forward := .waiting 0 } else some s
    | _ => none
  | .catchUp =>
    match s.forward with
    | .catching sent head => some (s.catchUp cfg sent head)
    | _ => none
  | .forwardFetch step =>
    match s.forward with
    | .fetching sent head f =>
      (f.exec cfg s.known step).map fun r =>
        { s with known := r.2, forward := .fetching sent head r.1 }
    | _ => none
  | .forwardFetched =>
    match s.forward with
    | .fetching sent head f =>
      if f.isOver then
        let bundles := contiguousFrom f.bundles (sent + 1)
        match bundles.getLast? with
        -- Nothing past `sent` came back: ask again.
        | none => some { s with forward := .catching sent head }
        | some last => some { s with forward := .sending last.height head bundles }
      else none
    | _ => none
  | .forwardSend =>
    match s.forward with
    | .sending reached head (b :: rest) =>
      if s.channel.length < channelCapacity then
        some { s with
          channel := s.channel ++ [b]
          forward := .sending reached head rest
          forwardSent := s.forwardSent ++ [b.height] }
      else none
    | .sending reached head [] => some { s with forward := .catching reached head }
    | _ => none
  | .descentBoot =>
    match s.descent with
    | .boot =>
      some { s with descent := .top s.lowest, target := s.lowest.getD 0, descentSent := [] }
    | _ => none
  | .pickTarget node =>
    match s.descent with
    | .top frontier =>
      if tipYieldLag < s.tipLag then some s
      else
        match frontier with
        | some min =>
          if 1 < min then some (s.descend cfg frontier min) else some { s with descent := .low }
        | none =>
          match (ethBlockNumber node []).1 with
          | .ok head =>
            some (({ s with target := head + 1, descentSent := [] } : IndexerState).descend cfg none
              (wrapU64 (head + 1)))
          | .error _ => some s
    | _ => none
  | .readLowest =>
    match s.descent with
    | .low =>
      some { s with descent := .top s.lowest, target := s.lowest.getD 0, descentSent := [] }
    | _ => none
  | .descentFetch step =>
    match s.descent with
    | .fetching frontier target f =>
      (f.exec cfg s.known step).map fun r =>
        { s with known := r.2, descent := .fetching frontier target r.1 }
    | _ => none
  | .descentFetched =>
    match s.descent with
    | .fetching frontier target f =>
      if f.isOver then
        let bundles := contiguousDownTo f.bundles (wrapU64 (target - 1))
        match bundles.head? with
        | none => some { s with descent := .top frontier }
        -- The highest first, so the head is stored as soon as possible.
        | some lowest => some { s with descent := .sending lowest.height bundles.reverse }
      else none
    | _ => none
  | .descentSend =>
    match s.descent with
    | .sending reached (b :: rest) =>
      if s.channel.length < channelCapacity then
        some { s with
          channel := s.channel ++ [b]
          descent := .sending reached rest
          descentSent := s.descentSent ++ [b.height] }
      else none
    | .sending reached [] => some { s with descent := .top (some reached) }
    | _ => none
  | .writerTake =>
    if s.batch.isEmpty ∧ ¬s.channel.isEmpty then
      some { s with batch := s.channel.take maxBatch, channel := s.channel.drop maxBatch }
    else none
  | .writerSave ch fails =>
    if s.batch.isEmpty then none
    else if fails then some s
    else
      match s.db.saveBlockBundles ch s.batch with
      | .ok db => some { s with db := db, batch := [] }
      | .error _ => some s
  | .crash => some (boot s.db)

end Keccak

end IndexerState

/-! ## What a step can do -/

/-- **One step of a fetch, branch by branch.** -/
inductive RangeFetch.Step [Keccak] [Codec] (known : Finset String) (f : RangeFetch) :
    FetchStep → RangeFetch → Finset String → Prop
  | spawn {chunk : ℕ × ℕ} {rest : List (ℕ × ℕ)} (hchunks : f.chunks = chunk :: rest) :
    Step known f .spawn { f with chunks := rest, tasks := f.tasks ++ [.asked chunk] } known
  | failed {i : ℕ} {node : Node} {chunk : ℕ × ℕ} (htask : f.tasks[i]? = some (.asked chunk)) :
    Step known f (.rawBlocks i node) { f with tasks := f.tasks.set i (.done []) } known
  | plain {i : ℕ} {node : Node} {chunk : ℕ × ℕ} {raws : List RawBlock} {bundles : List BlockBundle}
      (htask : f.tasks[i]? = some (.asked chunk))
      (hraws : (fetchRawBlocks chunk.1 chunk.2 node []).1 = .ok raws)
      (hbundles : assemble raws = some bundles) (hwanted : tokensToFetch bundles known = []) :
    Step known f (.rawBlocks i node) { f with tasks := f.tasks.set i (.done bundles) } known
  | assembled {i : ℕ} {node : Node} {chunk : ℕ × ℕ} {raws : List RawBlock}
      {bundles : List BlockBundle} (htask : f.tasks[i]? = some (.asked chunk))
      (hraws : (fetchRawBlocks chunk.1 chunk.2 node []).1 = .ok raws)
      (hbundles : assemble raws = some bundles) :
    Step known f (.rawBlocks i node)
      { f with tasks := f.tasks.set i (.assembled bundles (tokensToFetch bundles known)) } known
  | described {i : ℕ} {ch : ℕ → Choices} {node : Node} {bundles bundles' : List BlockBundle}
      {wanted : List String} {new : Finset String}
      (htask : f.tasks[i]? = some (.assembled bundles wanted))
      (hrun : (describeTokens ch wanted bundles node []).1 = .ok (bundles', new)) :
    Step known f (.describe i ch node) { f with tasks := f.tasks.set i (.done bundles') }
      (known ∪ new)
  | joined {i : ℕ} {bundles : List BlockBundle} (htask : f.tasks[i]? = some (.done bundles)) :
    Step known f (.join i) { f with tasks := f.tasks.eraseIdx i, out := f.out ++ bundles } known

theorem RangeFetch.step_of_exec [Keccak] [Codec] {cfg : IndexerConfig} {known known' : Finset String}
    {f f' : RangeFetch} {step : FetchStep} (h : f.exec cfg known step = some (f', known')) :
    f.Step known step f' known' := by
  cases step with
  | spawn =>
    simp only [exec] at h
    split at h
    · split_ifs at h
      obtain ⟨rfl, rfl⟩ := Prod.mk.inj (Option.some.inj h)
      exact .spawn ‹_›
    · exact absurd h nofun
  | rawBlocks i node =>
    simp only [exec] at h
    split at h
    · next chunk htask =>
      split at h
      · next raws hraws =>
        split at h
        · next bundles hbundles =>
          obtain ⟨rfl, rfl⟩ := Prod.mk.inj (Option.some.inj h)
          split_ifs with hwanted
          · exact .plain htask hraws hbundles (List.isEmpty_iff.mp hwanted)
          · exact .assembled htask hraws hbundles
        · obtain ⟨rfl, rfl⟩ := Prod.mk.inj (Option.some.inj h)
          exact .failed htask
      · obtain ⟨rfl, rfl⟩ := Prod.mk.inj (Option.some.inj h)
        exact .failed htask
    · exact absurd h nofun
  | describe i ch node =>
    simp only [exec] at h
    split at h
    · next bundles wanted htask =>
      split at h
      · next bundles' new hrun =>
        obtain ⟨rfl, rfl⟩ := Prod.mk.inj (Option.some.inj h)
        exact .described htask hrun
      · exact absurd h nofun
    · exact absurd h nofun
  | join i =>
    simp only [exec] at h
    split at h
    · next bundles htask =>
      split_ifs at h
      obtain ⟨rfl, rfl⟩ := Prod.mk.inj (Option.some.inj h)
      exact .joined htask
    · exact absurd h nofun

/-- **One step, branch by branch.** -/
inductive IndexerState.Step [Keccak] [Codec] (cfg : IndexerConfig) (s : IndexerState) :
    IndexerAction → IndexerState → Prop
  | announce {head : ℕ} (hmax : head ≤ maxU64) :
    Step cfg s (.announce head) { s with heads := s.heads ++ [head], highest := max s.highest head }
  | forwardBoot (hpc : s.forward = .boot) :
    Step cfg s .forwardBoot
      { s with forward := .waiting (s.latest.getD 0), base := s.latest.getD 0, forwardSent := [] }
  | receiveFirst {head : ℕ} {rest : List ℕ} (hpc : s.forward = .waiting 0)
      (hheads : s.heads = head :: rest) :
    Step cfg s .receiveHead { s with heads := [], forward := .seeding (rest.foldl max head) }
  | receive {sent head : ℕ} {rest : List ℕ} (hpc : s.forward = .waiting sent)
      (hheads : s.heads = head :: rest) (hseed : ¬(sent = 0 ∧ 0 < rest.foldl max head)) :
    Step cfg s .receiveHead { s with heads := [], forward := .catching sent (rest.foldl max head) }
  | seededAbove {deadline : Bool} {head sent : ℕ} (hpc : s.forward = .seeding head)
      (hlatest : s.latest = some sent) :
    Step cfg s (.pollSeed deadline) { s with base := sent, forward := .waiting sent }
  | seeded {deadline : Bool} {head sent : ℕ} (hpc : s.forward = .seeding head)
      (hlatest : s.latest = some sent) (hsent : sent ≠ 0) (hlt : sent < head) :
    Step cfg s (.pollSeed deadline) { s with base := sent, forward := .catching sent head }
  | unseeded {head : ℕ} (hpc : s.forward = .seeding head) (hlatest : s.latest = none) :
    Step cfg s (.pollSeed true) { s with forward := .waiting 0 }
  | seedWait {head : ℕ} (hpc : s.forward = .seeding head) (hlatest : s.latest = none) :
    Step cfg s (.pollSeed false) s
  | catchUp {sent head : ℕ} (hpc : s.forward = .catching sent head)
      (hlt : sent < head) :
    Step cfg s .catchUp { s with
      heads := []
      tipLag := s.heads.foldl max head - sent
      forward := .fetching sent (s.heads.foldl max head)
        (.first (sent + 1) (min (saturatingAddU64 sent cfg.batch) (s.heads.foldl max head))) }
  | caughtUp {sent head : ℕ} (hpc : s.forward = .catching sent head) (hle : head ≤ sent) :
    Step cfg s .catchUp { s with tipLag := 0, forward := .waiting sent }
  | forwardFetch {step : FetchStep} {sent head : ℕ} {f f' : RangeFetch} {known : Finset String}
      (hpc : s.forward = .fetching sent head f) (hstep : f.exec cfg s.known step = some (f', known)) :
    Step cfg s (.forwardFetch step) { s with known := known, forward := .fetching sent head f' }
  | forwardNothing {sent head : ℕ} {f : RangeFetch} (hpc : s.forward = .fetching sent head f)
      (hover : f.isOver = true) (hnil : contiguousFrom f.bundles (sent + 1) = []) :
    Step cfg s .forwardFetched { s with forward := .catching sent head }
  | forwardFetched {sent head : ℕ} {f : RangeFetch} {last : BlockBundle}
      (hpc : s.forward = .fetching sent head f) (hover : f.isOver = true)
      (hlast : (contiguousFrom f.bundles (sent + 1)).getLast? = some last) :
    Step cfg s .forwardFetched { s with
      forward := .sending last.height head (contiguousFrom f.bundles (sent + 1)) }
  | forwardSend {reached head : ℕ} {b : BlockBundle} {rest : List BlockBundle}
      (hpc : s.forward = .sending reached head (b :: rest)) :
    Step cfg s .forwardSend { s with
      channel := s.channel ++ [b]
      forward := .sending reached head rest
      forwardSent := s.forwardSent ++ [b.height] }
  | forwardSentAll {reached head : ℕ} (hpc : s.forward = .sending reached head []) :
    Step cfg s .forwardSend { s with forward := .catching reached head }
  | descentBoot (hpc : s.descent = .boot) :
    Step cfg s .descentBoot
      { s with descent := .top s.lowest, target := s.lowest.getD 0, descentSent := [] }
  | yield {node : Node} {frontier : Option ℕ} (hpc : s.descent = .top frontier) :
    Step cfg s (.pickTarget node) s
  | pickBelow {node : Node} {min : ℕ} (hpc : s.descent = .top (some min)) (hmin : 1 < min) :
    Step cfg s (.pickTarget node) (s.descend cfg (some min) min)
  | pickNone {node : Node} {min : ℕ} (hpc : s.descent = .top (some min)) (hmin : min ≤ 1) :
    Step cfg s (.pickTarget node) { s with descent := .low }
  | pickHead {node : Node} {head : ℕ} (hpc : s.descent = .top none)
      (hlag : s.tipLag ≤ tipYieldLag) (hhead : (ethBlockNumber node []).1 = .ok head) :
    Step cfg s (.pickTarget node) (({ s with
      target := head + 1, descentSent := [] } : IndexerState).descend cfg none (wrapU64 (head + 1)))
  | readLowest (hpc : s.descent = .low) :
    Step cfg s .readLowest
      { s with descent := .top s.lowest, target := s.lowest.getD 0, descentSent := [] }
  | descentFetch {step : FetchStep} {frontier : Option ℕ} {target : ℕ} {f f' : RangeFetch}
      {known : Finset String} (hpc : s.descent = .fetching frontier target f)
      (hstep : f.exec cfg s.known step = some (f', known)) :
    Step cfg s (.descentFetch step)
      { s with known := known, descent := .fetching frontier target f' }
  | descentNothing {frontier : Option ℕ} {target : ℕ} {f : RangeFetch}
      (hpc : s.descent = .fetching frontier target f) (hover : f.isOver = true)
      (hnil : contiguousDownTo f.bundles (wrapU64 (target - 1)) = []) :
    Step cfg s .descentFetched { s with descent := .top frontier }
  | descentFetched {frontier : Option ℕ} {target : ℕ} {f : RangeFetch} {lowest : BlockBundle}
      (hpc : s.descent = .fetching frontier target f) (hover : f.isOver = true)
      (hhead : (contiguousDownTo f.bundles (wrapU64 (target - 1))).head? = some lowest) :
    Step cfg s .descentFetched { s with
      descent := .sending lowest.height
        (contiguousDownTo f.bundles (wrapU64 (target - 1))).reverse }
  | descentSend {reached : ℕ} {b : BlockBundle} {rest : List BlockBundle}
      (hpc : s.descent = .sending reached (b :: rest)) :
    Step cfg s .descentSend { s with
      channel := s.channel ++ [b]
      descent := .sending reached rest
      descentSent := s.descentSent ++ [b.height] }
  | descentSentAll {reached : ℕ} (hpc : s.descent = .sending reached []) :
    Step cfg s .descentSend { s with descent := .top (some reached) }
  | writerTake (hbatch : s.batch = []) :
    Step cfg s .writerTake
      { s with batch := s.channel.take maxBatch, channel := s.channel.drop maxBatch }
  | writerFails {ch : ℕ → Choices} {fails : Bool} :
    Step cfg s (.writerSave ch fails) s
  | writerSaves {ch : ℕ → Choices} {db : Database}
      (hsave : s.db.saveBlockBundles ch s.batch = .ok db) :
    Step cfg s (.writerSave ch false) { s with db := db, batch := [] }
  | crash : Step cfg s .crash (.boot s.db)

theorem IndexerState.step_of_exec [Keccak] [Codec] {cfg : IndexerConfig} {s s' : IndexerState}
    {a : IndexerAction} (h : s.exec cfg a = some s') : s.Step cfg a s' := by
  cases a with
  | announce head =>
    simp only [exec] at h
    split_ifs at h with hmax
    obtain rfl := Option.some.inj h
    exact .announce hmax
  | forwardBoot =>
    simp only [exec] at h
    split at h
    · obtain rfl := Option.some.inj h
      exact .forwardBoot ‹_›
    · exact absurd h nofun
  | receiveHead =>
    simp only [exec] at h
    split at h
    · next sent head rest hpc hheads =>
      split_ifs at h with hseed
      · obtain rfl := Option.some.inj h
        exact .receiveFirst (hseed.1 ▸ hpc) hheads
      · obtain rfl := Option.some.inj h
        exact .receive hpc hheads hseed
    · exact absurd h nofun
  | pollSeed deadline =>
    simp only [exec] at h
    split at h
    · next head hpc =>
      split at h
      · next sent hlatest =>
        split_ifs at h with hsent
        · obtain rfl := Option.some.inj h
          exact .seededAbove hpc hlatest
        · obtain rfl := Option.some.inj h
          rw [not_or, not_le] at hsent
          exact .seeded hpc hlatest hsent.1 hsent.2
      · next hlatest =>
        cases deadline with
        | true =>
          obtain rfl := Option.some.inj h
          exact .unseeded hpc hlatest
        | false =>
          obtain rfl := Option.some.inj h
          exact .seedWait hpc hlatest
    · exact absurd h nofun
  | catchUp =>
    simp only [exec] at h
    split at h
    · next sent head hpc =>
      obtain rfl := Option.some.inj h
      unfold IndexerState.catchUp
      split_ifs with hlt
      · exact .catchUp hpc hlt
      · exact .caughtUp hpc (not_lt.mp hlt)
    · exact absurd h nofun
  | forwardFetch step =>
    simp only [exec] at h
    split at h
    · next sent head f hpc =>
      obtain ⟨⟨f', known⟩, hstep, rfl⟩ := Option.map_eq_some_iff.mp h
      exact .forwardFetch hpc hstep
    · exact absurd h nofun
  | forwardFetched =>
    simp only [exec] at h
    split at h
    · next sent head f hpc =>
      split_ifs at h with hover
      split at h
      · next hnone =>
        obtain rfl := Option.some.inj h
        exact .forwardNothing hpc hover (List.getLast?_eq_none_iff.mp hnone)
      · next last hlast =>
        obtain rfl := Option.some.inj h
        exact .forwardFetched hpc hover hlast
    · exact absurd h nofun
  | forwardSend =>
    simp only [exec] at h
    split at h
    · next reached head b rest hpc =>
      split_ifs at h
      obtain rfl := Option.some.inj h
      exact .forwardSend hpc
    · next reached head hpc =>
      obtain rfl := Option.some.inj h
      exact .forwardSentAll hpc
    · exact absurd h nofun
  | descentBoot =>
    simp only [exec] at h
    split at h
    · obtain rfl := Option.some.inj h
      exact .descentBoot ‹_›
    · exact absurd h nofun
  | pickTarget node =>
    simp only [exec] at h
    split at h
    · next frontier hpc =>
      split_ifs at h with hlag
      · obtain rfl := Option.some.inj h
        exact .yield hpc
      · split at h
        · next min =>
          split_ifs at h with hmin
          · obtain rfl := Option.some.inj h
            exact .pickBelow hpc hmin
          · obtain rfl := Option.some.inj h
            exact .pickNone hpc (not_lt.mp hmin)
        · split at h
          · next head hhead =>
            obtain rfl := Option.some.inj h
            exact .pickHead hpc (not_lt.mp hlag) hhead
          · obtain rfl := Option.some.inj h
            exact .yield hpc
    · exact absurd h nofun
  | readLowest =>
    simp only [exec] at h
    split at h
    · obtain rfl := Option.some.inj h
      exact .readLowest ‹_›
    · exact absurd h nofun
  | descentFetch step =>
    simp only [exec] at h
    split at h
    · next frontier target f hpc =>
      obtain ⟨⟨f', known⟩, hstep, rfl⟩ := Option.map_eq_some_iff.mp h
      exact .descentFetch hpc hstep
    · exact absurd h nofun
  | descentFetched =>
    simp only [exec] at h
    split at h
    · next frontier target f hpc =>
      split_ifs at h with hover
      split at h
      · next hnone =>
        obtain rfl := Option.some.inj h
        exact .descentNothing hpc hover (List.head?_eq_none_iff.mp hnone)
      · next lowest hhead =>
        obtain rfl := Option.some.inj h
        exact .descentFetched hpc hover hhead
    · exact absurd h nofun
  | descentSend =>
    simp only [exec] at h
    split at h
    · next reached b rest hpc =>
      split_ifs at h
      obtain rfl := Option.some.inj h
      exact .descentSend hpc
    · next reached hpc =>
      obtain rfl := Option.some.inj h
      exact .descentSentAll hpc
    · exact absurd h nofun
  | writerTake =>
    simp only [exec] at h
    split_ifs at h with htake
    obtain rfl := Option.some.inj h
    exact .writerTake (List.isEmpty_iff.mp htake.1)
  | writerSave ch fails =>
    simp only [exec] at h
    split_ifs at h with hbatch hfails
    · obtain rfl := Option.some.inj h
      exact .writerFails
    · split at h
      · next db hsave =>
        obtain rfl := Option.some.inj h
        obtain rfl : fails = false := Bool.eq_false_of_not_eq_true hfails
        exact .writerSaves hsave
      · obtain rfl := Option.some.inj h
        exact .writerFails
  | crash =>
    obtain rfl := Option.some.inj h
    exact .crash

/-- **The indexer** on a database. -/
def indexer [Keccak] [Codec] (cfg : IndexerConfig) (db : Database) :
    System IndexerState IndexerAction where
  init s := s = .boot db
  exec := IndexerState.exec cfg

end ChainExplorer
