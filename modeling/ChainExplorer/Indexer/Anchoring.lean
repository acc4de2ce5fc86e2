import ChainExplorer.Indexer.AnchoringRows
import ChainExplorer.Lib.System
import ChainExplorer.Lib.Windows
import ChainExplorer.Rpc.Calls

/-!
# The anchoring backfill

Blocks indexed before the anchoring table existed have no rows in it. The backfill reads the node's
logs a window of heights at a time, and stores the rows of a window and the height it ends at in one
transaction (`indexer.rs`). Blocks are written meanwhile, each with its own rows.

* `BackfillCall`, `BackfillState.exec`: the loop and its windows, beside the writer, with crashes.
* `Database.Filled`: every block up to the watermark has its rows.
* **`backfillAnchoring_correct`**: what holds in every run whose windows end below 2⁶⁴.
* **`backfillAnchoring_wraps`**: a window past it ends before it starts, and so does the watermark.
-/

namespace ChainExplorer

open Windows (Contiguous nextStart lastEnd)

/-- The height the backfill has read the node's logs up to. -/
def backfillKey : String := "anchoring_backfilled_to"

/-- Blocks of one `eth_getLogs`; halved while the node refuses the range. -/
def window : ℕ := 50000

namespace Database

/-- The watermark, where there is one that can be read. -/
def watermark (db : Database) : Option ℕ :=
  (db.getKv backfillKey).bind fun v => Numeral.unsigned 10 18446744073709551615 v.toList

/-- Store the rows of some logs, and the height they were read up to; `none` where reading a log
panics. -/
def writeWindow [Codec] (db : Database) (logs : List Json) (stop : ℕ) : Option Database :=
  let written := logs.foldlM (fun db log =>
    (anchoringEventFromLog db log).map fun event => event.elim db fun e => (db.insertAnchoring e).1) db
  written.map fun db => db.setKv backfillKey (toString stop)

end Database

/-! ## The loop -/

/-- A call of the backfill past its first request: the watermark it started from, the head it read,
the first height still to read and the width of a window. `windows` records those it stored. -/
structure BackfillCall where
  done : ℕ
  head : ℕ
  start : ℕ
  window : ℕ
  windows : List (ℕ × ℕ)

namespace BackfillCall

def first (done head : ℕ) : BackfillCall := ⟨done, head, done, ChainExplorer.window, []⟩

/-- The last height of the window, as 64 bits hold it. -/
def stop (c : BackfillCall) : ℕ := min (wrapU64 (c.start + c.window - 1)) c.head

/-- What the node is asked. -/
def filter (c : BackfillCall) : Json :=
  .obj [("address", .str anchoringAddress), ("fromBlock", .str ("0x" ++ hexDigits c.start)),
    ("toBlock", .str ("0x" ++ hexDigits c.stop))]

/-- The call after a window was stored. -/
def advance (c : BackfillCall) : BackfillCall :=
  { c with start := wrapU64 (c.stop + 1), windows := c.windows ++ [(c.start, c.stop)] }

def halve (c : BackfillCall) : BackfillCall := { c with window := c.window / 2 }

/-- How far the call has got. -/
def reached (c : BackfillCall) : ℕ := lastEnd c.done c.windows

end BackfillCall

/-- An error and what was being done. -/
structure BackfillError where
  context : Option String
  error : Failure

/-- Where the backfill is. -/
inductive BackfillPc
  | idle
  | started (done : ℕ)
  | noHead (error : BackfillError)
  | asking (c : BackfillCall)
  | answered (c : BackfillCall) (logs : List Json)
  | returned (c : BackfillCall) (result : Except BackfillError Unit)
  | panicked (c : BackfillCall)

/-- The call, once it has a head. -/
def BackfillPc.call : BackfillPc → Option BackfillCall
  | .idle | .started _ | .noHead _ => none
  | .asking c | .answered c _ | .returned c _ | .panicked c => some c

structure BackfillState where
  db : Database
  pc : BackfillPc

inductive BackfillAction
  /-- The writer's transaction. -/
  | saveBlockBundles (ch : ℕ → Choices) (bundles : List BlockBundle) (fails : Bool)
  | readWatermark
  | blockNumber (node : Node)
  | getLogs (node : Node)
  | write
  /-- The database refuses the window, and the transaction is rolled back. -/
  | refuseWrite (message : String)
  /-- The process ends and starts again. -/
  | crash

/-- Go on, or return once every height to the head was read. -/
def BackfillCall.loop (c : BackfillCall) : BackfillPc :=
  if c.start ≤ c.head then .asking c else .returned c (.ok ())

/-- A step of the backfill, or of the writer beside it. It is started once in a process. -/
def BackfillState.exec [Codec] (s : BackfillState) : BackfillAction → Option BackfillState
  | .saveBlockBundles ch bundles fails =>
    some { s with db := Database.trySave ch s.db bundles fails }
  | .readWatermark =>
    match s.pc with
    | .idle => some { s with pc := .started (s.db.watermark.getD 0) }
    | _ => none
  | .blockNumber node =>
    match s.pc with
    | .started done =>
      match (ethBlockNumber node []).1 with
      | .ok head =>
        if head ≤ done then some { s with pc := .returned (.first done head) (.ok ()) }
        else some { s with pc := (BackfillCall.first done head).loop }
      | .error e => some { s with pc := .noHead ⟨some "head for backfill", e⟩ }
    | _ => none
  | .getLogs node =>
    match s.pc with
    | .asking c =>
      match (ethGetLogs c.filter node []).1 with
      | .ok logs => some { s with pc := .answered c logs }
      -- The node answered with an error: almost always its range cap.
      | .error (.rpc e) =>
        if c.window = 1 then
          some { s with
            pc := .returned c (.error ⟨some s!"anchoring logs {c.start}..{c.stop}", .rpc e⟩) }
        else some { s with pc := .asking c.halve }
      -- The node did not answer: wait and retry the same range.
      | .error (.other _) => some s
    | _ => none
  | .write =>
    match s.pc with
    | .answered c logs =>
      match s.db.writeWindow logs c.stop with
      | some db => some ⟨db, c.advance.loop⟩
      -- The transaction is rolled back with the task.
      | none => some { s with pc := .panicked c }
    | _ => none
  | .refuseWrite message =>
    match s.pc with
    | .answered c _ => some { s with pc := .returned c (.error ⟨none, .other message⟩) }
    | _ => none
  | .crash => some { s with pc := .idle }

/-! ## The windows -/

/-- **A call between two windows**: its windows follow one another from the watermark it started
from, the database is marked up to the last, and the next starts right after it. -/
structure BackfillCall.Going (c : BackfillCall) (mark : Option ℕ) : Prop where
  contiguous : Contiguous c.done c.windows
  start : c.start = nextStart c.done c.windows
  reached : mark.getD 0 = c.reached
  marked : c.windows ≠ [] → mark = some c.reached
  width : 1 ≤ c.window
  le_head : c.start ≤ c.head
  head_lt : c.head < 2 ^ 64

/-- **A call that has returned**: where it succeeded, it has got to its head. -/
structure BackfillCall.Over (c : BackfillCall) (mark : Option ℕ)
    (result : Except BackfillError Unit) : Prop where
  contiguous : Contiguous c.done c.windows
  reached : mark.getD 0 = c.reached
  finished : result = .ok () → c.head ≤ c.reached

theorem BackfillCall.Going.over {c : BackfillCall} {mark : Option ℕ} (h : c.Going mark)
    (e : BackfillError) : c.Over mark (.error e) :=
  ⟨h.contiguous, h.reached, nofun⟩

theorem BackfillCall.Going.halve {c : BackfillCall} {mark : Option ℕ} (h : c.Going mark)
    (hne : c.window ≠ 1) : c.halve.Going mark := by
  refine ⟨h.contiguous, h.start, h.reached, h.marked, ?_, h.le_head, h.head_lt⟩
  have hwidth := h.width
  show 1 ≤ c.window / 2
  omega

theorem BackfillCall.first_going {done head : ℕ} {mark : Option ℕ} (hmark : mark.getD 0 = done)
    (hhead : done < head) (hlt : head < 2 ^ 64) : (BackfillCall.first done head).Going mark where
  contiguous := trivial
  start := rfl
  reached := hmark
  marked h := absurd rfl h
  width := show 1 ≤ ChainExplorer.window by decide
  le_head := hhead.le
  head_lt := hlt

theorem BackfillCall.Going.stop_eq {c : BackfillCall} {mark : Option ℕ} (h : c.Going mark)
    (hfits : c.start + c.window ≤ 2 ^ 64) : c.stop = min (c.start + c.window - 1) c.head := by
  have hwidth := h.width
  have hcast : (c.start : ℤ) + c.window - 1 = ((c.start + c.window - 1 : ℕ) : ℤ) := by omega
  rw [stop, hcast, wrapU64_of_nonneg (by omega) (by omega), Int.toNat_natCast]

theorem BackfillCall.Going.advance {c : BackfillCall} {mark : Option ℕ} (h : c.Going mark)
    (hfits : c.start + c.window ≤ 2 ^ 64) (hnext : c.stop + 1 < 2 ^ 64) :
    c.start ≤ c.stop ∧
      (c.advance.start ≤ c.advance.head → c.advance.Going (some c.stop)) ∧
      (¬c.advance.start ≤ c.advance.head → c.advance.Over (some c.stop) (.ok ())) := by
  have hwidth := h.width
  have hle := h.le_head
  have hstop := h.stop_eq hfits
  have hmove : c.start ≤ c.stop := by omega
  have hstart : c.advance.start = c.stop + 1 := by
    show wrapU64 (c.stop + 1) = c.stop + 1
    rw [wrapU64_of_nonneg (by omega) (by omega)]
    omega
  have hcontiguous : Contiguous c.advance.done c.advance.windows := by
    show Contiguous c.done (c.windows ++ [(c.start, c.stop)])
    rw [h.start] at hmove ⊢
    exact Windows.contiguous_append h.contiguous hmove
  have hreached : c.advance.reached = c.stop := Windows.lastEnd_append _ _ _
  refine ⟨hmove, fun hgo => ⟨hcontiguous, ?_, hreached.symm, fun _ => ?_, hwidth, hgo, h.head_lt⟩,
    fun hend => ⟨hcontiguous, hreached.symm, fun _ => ?_⟩⟩
  · rw [hstart]
    exact (Windows.nextStart_append c.done c.windows (c.start, c.stop)).symm
  · rw [hreached]
  · rw [hreached]
    rw [hstart] at hend
    have hhead : c.advance.head = c.head := rfl
    omega

/-! ## What a run starts from, and what the node is held to -/

namespace Database

/-- Every stored block and every stored row is the chain's. -/
structure OfChain [Codec] (chain : Set ChainBlock) (db : Database) : Prop where
  blocks : ∀ n row, db.blocks.lookup n = some row →
    ∃ b ∈ chain, b.number = n ∧ row = blockRow b.block
  rows : ∀ k row, db.anchoringEvents.lookup k = some row → ChainRow chain k row

/-- The rows of a block are stored. -/
def HasRows [Codec] (db : Database) (b : ChainBlock) : Prop :=
  ∀ txData log k row, b.Has txData log → b.row txData log = some (k, row) →
    db.anchoringEvents.lookup k = some row

/-- **Every stored block at or below a height has its rows.** -/
def FilledTo [Codec] (chain : Set ChainBlock) (db : Database) (height : ℕ) : Prop :=
  ∀ b ∈ chain, b.number ∈ db.blocks → b.number ≤ height → db.HasRows b

/-- Every stored block at or below the watermark has its rows. -/
def Filled [Codec] (chain : Set ChainBlock) (db : Database) : Prop :=
  ∀ w, db.watermark = some w → db.FilledTo chain w

end Database

/-- The block is assembled to a bundle, which may have got any metadata since. -/
def ChainBlock.Brings [Keccak] [Codec] (b : ChainBlock) (bundle : BlockBundle) : Prop :=
  assembleBundle b.raw b.receipts = some { bundle with tokens := [] }

theorem ChainBlock.Brings.number_eq [Keccak] [Codec] {b : ChainBlock} {bundle : BlockBundle}
    (h : b.Brings bundle) : bundle.block.number = b.number :=
  congrArg Block.number (block_of_assembleBundle h).1

/-- The logs of the contract in a range, each of them and nothing else. -/
structure AnsweredExactly (chain : Set ChainBlock) (start stop : ℕ) (logs : List Json) : Prop where
  sound : ∀ answer ∈ logs, ∃ b ∈ chain, ∃ txData log,
    Reports b txData log answer ∧ start ≤ b.number ∧ b.number ≤ stop
  complete : ∀ b ∈ chain, start ≤ b.number → b.number ≤ stop → ∀ txData log,
    b.Has txData log → isAnchoringLog log = true → ∃ answer ∈ logs, Reports b txData log answer

/-- **The window fits 64 bits**, and so does the height after it. -/
def BackfillState.Fits (s : BackfillState) : BackfillAction → Prop
  | .write => ∀ c logs, s.pc = .answered c logs →
      c.start + c.window ≤ 2 ^ 64 ∧ c.stop + 1 < 2 ^ 64
  | _ => True

section Codec

variable [Codec]

/-- **The backfill beside the writer.** A database from before the table has blocks, and neither rows
nor a watermark; one that was backfilled has its rows up to its watermark. -/
def backfillAnchoring (chain : Set ChainBlock) : System BackfillState BackfillAction where
  init s := s.pc = .idle ∧ s.db.OfChain chain ∧ s.db.Filled chain
  exec := BackfillState.exec

/-- The blocks written are the chain's, and logs that come are exactly those asked for. The node may
refuse any request, or not answer it. -/
def BackfillState.Truthful [Keccak] (chain : Set ChainBlock) (s : BackfillState) : BackfillAction → Prop
  | .saveBlockBundles _ bundles _ => ∀ bundle ∈ bundles, ∃ b ∈ chain, b.Brings bundle
  | .getLogs node => ∀ c logs, s.pc = .asking c → (ethGetLogs c.filter node []).1 = .ok logs →
      AnsweredExactly chain c.start c.stop logs
  | _ => True

/-! ## Rows written -/

theorem lookup_foldl_putAnchoring {chain : Set ChainBlock} (hs : Sound chain)
    {es : List AnchoringEvent} {t : Keyed LogKey AnchoringRow}
    (hes : ∀ e ∈ es, ChainRow chain (anchoringKey e) (anchoringRow e))
    (ht : ∀ k row, t.lookup k = some row → ChainRow chain k row) (k : LogKey)
    (row : AnchoringRow) :
    (es.foldl Database.putAnchoring t).lookup k = some row ↔
      (∃ e ∈ es, anchoringKey e = k ∧ anchoringRow e = row) ∨ t.lookup k = some row := by
  refine Database.writes_putAnchoring.lookup_foldl ?_ ?_ k row
  · intro e he e' he' hkey
    have hrow' := hes e' he'
    have hkey' : anchoringKey e = anchoringKey e' := hkey
    rw [← hkey'] at hrow'
    exact hs.row_unique (hes e he) hrow'
  · intro e he w hw
    exact hs.row_unique (ht _ w hw) (hes e he)

namespace Database

theorem OfChain.lookup {chain : Set ChainBlock} (hs : Sound chain) {db : Database}
    (h : db.OfChain chain) {b : ChainBlock} (hb : b ∈ chain) (hmem : b.number ∈ db.blocks) :
    db.blocks.lookup b.number = some (blockRow b.block) := by
  obtain ⟨row, hrow⟩ := Option.isSome_iff_exists.mp (AList.lookup_isSome.mpr hmem)
  obtain ⟨b', hb', hnumber, rfl⟩ := h.blocks _ _ hrow
  rw [hrow, hs.unique b' hb' b hb hnumber]

/-! ## The block path -/

theorem writeBlock_ofChain [Keccak] {chain : Set ChainBlock} (hs : Sound chain) {ch : Choices}
    {db db' : Database} {bundle : BlockBundle} {nb nt : ℤ} (h : db.OfChain chain)
    {b : ChainBlock} (hb : b ∈ chain)
    (hbundle : b.Brings bundle)
    (hwrite : db.writeBlock ch bundle = .ok (db', nb, nt)) :
    db'.OfChain chain ∧ ∀ height, db.FilledTo chain height → db'.FilledTo chain height := by
  obtain ⟨hblocks, hevents, -⟩ := writeBlock_rows hwrite
  have hblock : bundle.block = b.block := (block_of_assembleBundle hbundle).1
  have hbrings := mem_assembleBundle_anchoring hs hb hbundle
  have hchain : ∀ e ∈ bundle.anchoring,
      ChainRow chain (anchoringKey e) (anchoringRow e) := by
    intro e he
    obtain ⟨txData, log, hhas, hrow⟩ := (hbrings _ _).mp ⟨e, he, rfl, rfl⟩
    exact ⟨b, hb, txData, log, hhas, hrow⟩
  have hlookup := lookup_foldl_putAnchoring hs hchain h.rows
  rw [← hevents] at hlookup
  refine ⟨⟨fun n row hrow => ?_, fun k row hrow => ?_⟩, fun height hfilled b' hb' hmem hle => ?_⟩
  · rw [hblocks, hblock, Keyed.lookup_insert_eq] at hrow
    split_ifs at hrow with hn
    · exact ⟨b, hb, hn.symm, (Option.some.inj hrow).symm⟩
    · exact h.blocks n row hrow
  · rcases (hlookup k row).mp hrow with ⟨e, he, rfl, rfl⟩ | hold
    · exact hchain e he
    · exact h.rows k row hold
  · intro txData log k row hhas hrow
    rw [hblocks, hblock, AList.mem_insert] at hmem
    rcases hmem with hnumber | hold
    · -- The block written now.
      obtain rfl := hs.unique b' hb' b hb hnumber
      exact (hlookup k row).mpr (.inl ((hbrings k row).mpr ⟨txData, log, hhas, hrow⟩))
    · exact (hlookup k row).mpr (.inr (hfilled b' hb' hold hle txData log k row hhas hrow))

theorem trySave_ofChain [Keccak] {chain : Set ChainBlock} (hs : Sound chain) (ch : ℕ → Choices)
    {db : Database} {bundles : List BlockBundle} (h : db.OfChain chain)
    (hbundles : ∀ bundle ∈ bundles, ∃ b ∈ chain, b.Brings bundle) (fails : Bool) :
    let db' := trySave ch db bundles fails
    db'.OfChain chain ∧ db'.watermark = db.watermark ∧
      ∀ height, db.FilledTo chain height → db'.FilledTo chain height := by
  rcases trySave_cases ch db bundles fails with hsame | hsave
  · simp only [hsame]
    exact ⟨h, trivial, fun _ hfilled => hfilled⟩
  · refine saveBlockBundles_induction (P := fun db' => db'.OfChain chain ∧
      db'.watermark = db.watermark ∧ ∀ height, db.FilledTo chain height →
        db'.FilledTo chain height) ?_ ?_ hsave ⟨h, rfl, fun _ hfilled => hfilled⟩
    · rintro x x' bundle ch nb nt hmem ⟨hx, hmark, hfilled⟩ hwrite
      obtain ⟨b, hb, hbundle⟩ := hbundles bundle hmem
      obtain ⟨hx', hfilled'⟩ := writeBlock_ofChain hs hx hb hbundle hwrite
      refine ⟨hx', ?_, fun height hheight => hfilled' height (hfilled height hheight)⟩
      rw [← hmark, watermark, watermark, getKv, getKv, writeBlock_kv hwrite]
    · rintro x c ⟨hx, hmark, hfilled⟩
      exact ⟨⟨hx.blocks, hx.rows⟩, hmark, hfilled⟩

/-! ## The log path -/

theorem writeWindow_eq {db db' : Database} {logs : List Json} {stop : ℕ}
    (h : db.writeWindow logs stop = some db') :
    (∀ answer ∈ logs, (anchoringEventFromLog db answer).isSome) ∧
      db' = { db with
        anchoringEvents := (logs.filterMap fun log => (anchoringEventFromLog db log).join).foldl
          putAnchoring db.anchoringEvents
        kv := db.kv.insert backfillKey (toString stop) } := by
  have hfold : ∀ (l : List Json) (t : Keyed LogKey AnchoringRow) (x : Database),
      l.foldlM (fun db log => (anchoringEventFromLog db log).map fun event =>
        event.elim db fun e => (db.insertAnchoring e).1) { db with anchoringEvents := t } = some x →
      (∀ answer ∈ l, (anchoringEventFromLog db answer).isSome) ∧
        x = { db with anchoringEvents :=
          (l.filterMap fun log => (anchoringEventFromLog db log).join).foldl putAnchoring t } := by
    intro l
    induction l with
    | nil =>
      intro t x hx
      exact ⟨fun answer hanswer => absurd hanswer List.not_mem_nil, (Option.some.inj hx).symm⟩
    | cons log l ih =>
      intro t x hx
      rw [List.foldlM_cons] at hx
      obtain ⟨mid, hmid, hx⟩ := Option.bind_eq_some_iff.mp hx
      have hread : anchoringEventFromLog { db with anchoringEvents := t } log =
          anchoringEventFromLog db log := rfl
      rw [hread] at hmid
      obtain ⟨event, hevent, rfl⟩ := Option.map_eq_some_iff.mp hmid
      have hsome : (anchoringEventFromLog db log).isSome := by rw [hevent]; rfl
      rw [List.forall_mem_cons, List.filterMap_cons, and_iff_right hsome, hevent, Option.join_some]
      cases event with
      | none => exact ih t x hx
      | some e => exact ih (putAnchoring t e) x hx
  obtain ⟨written, hwritten, rfl⟩ := Option.map_eq_some_iff.mp h
  obtain ⟨hall, rfl⟩ := hfold logs db.anchoringEvents written hwritten
  exact ⟨hall, rfl⟩

theorem watermark_writeWindow {db db' : Database} {logs : List Json} {stop : ℕ}
    (hwrite : db.writeWindow logs stop = some db') (h : stop < 2 ^ 64) :
    db'.watermark = some stop := by
  rw [(writeWindow_eq hwrite).2, watermark, getKv]
  simp only
  rw [AList.lookup_insert, Option.bind_some]
  exact Numeral.unsigned_toString (by omega)

theorem exists_writeWindow (db : Database) (logs : List Json) (stop : ℕ)
    (h : ∀ answer ∈ logs, Decodable answer) : ∃ db', db.writeWindow logs stop = some db' := by
  have hread : ∀ (db : Database), ∀ answer ∈ logs, (anchoringEventFromLog db answer).isSome := by
    intro db answer hanswer
    unfold anchoringEventFromLog
    simp only
    split
    · rfl
    · rw [Option.isSome_map]
      exact decodeEvent_isSome_iff.mpr (h answer hanswer)
  refine Option.isSome_iff_exists.mp ?_
  rw [writeWindow, Option.isSome_map]
  refine Fallible.isSome_foldlM (fun db answer hanswer => ?_) db
  rw [Option.isSome_map]
  exact hread db answer hanswer

theorem writeWindow_ofChain {chain : Set ChainBlock} (hs : Sound chain) {db db' : Database}
    (h : db.OfChain chain) {start stop : ℕ} {logs : List Json}
    (hlogs : AnsweredExactly chain start stop logs)
    (hfilled : ∀ b ∈ chain, b.number ∈ db.blocks → b.number < start → db.HasRows b)
    (hwrite : db.writeWindow logs stop = some db') :
    db'.OfChain chain ∧ db'.FilledTo chain stop := by
  obtain ⟨hread, hdb'⟩ := writeWindow_eq hwrite
  have hrow : ∀ {b : ChainBlock}, b ∈ chain → ∀ {txData log answer : Json}, answer ∈ logs →
      Reports b txData log answer → b.number ∈ db.blocks →
        (anchoringEventFromLog db answer).join.map (fun e => (anchoringKey e, anchoringRow e)) =
          b.row txData log := by
    intro b hb txData log answer hanswer hrep hmem
    obtain ⟨event, hevent⟩ := Option.isSome_iff_exists.mp (hread answer hanswer)
    rw [hevent, Option.join_some]
    exact anchoringEventFromLog_row hs hb hrep (h.lookup hs hb hmem) hevent
  have hchain : ∀ e ∈ logs.filterMap fun log => (anchoringEventFromLog db log).join,
      ChainRow chain (anchoringKey e) (anchoringRow e) := by
    intro e he
    obtain ⟨answer, hanswer, he⟩ := List.mem_filterMap.mp he
    obtain ⟨b, hb, txData, log, hrep, -, -⟩ := hlogs.sound answer hanswer
    have hmem : b.number ∈ db.blocks := by
      by_contra hnot
      rw [anchoringEventFromLog_absent hrep hnot] at he
      exact absurd he nofun
    refine ⟨b, hb, txData, log, hrep.has, ?_⟩
    rw [← hrow hb hanswer hrep hmem, he, Option.map_some]
  have hlookup := lookup_foldl_putAnchoring hs hchain h.rows
  rw [hdb']
  refine ⟨⟨h.blocks, fun k row hstored => ?_⟩, fun b hb hmem hle txData log k row hhas hk => ?_⟩
  · rcases (hlookup k row).mp hstored with ⟨e, he, rfl, rfl⟩ | hold
    · exact hchain e he
    · exact h.rows k row hold
  · refine (hlookup k row).mpr ?_
    by_cases hstart : b.number < start
    · exact .inr (hfilled b hb hmem hstart txData log k row hhas hk)
    · -- A block of the window: the node reported the log.
      obtain ⟨hlog, -⟩ := b.row_eq_some hk
      obtain ⟨answer, hanswer, hrep⟩ :=
        hlogs.complete b hb (not_lt.mp hstart) hle txData log hhas hlog
      have hevent := hrow hb hanswer hrep hmem
      rw [hk] at hevent
      obtain ⟨e, he, heq⟩ := Option.map_eq_some_iff.mp hevent
      obtain ⟨rfl, rfl⟩ := Prod.mk.inj heq
      exact .inl ⟨e, List.mem_filterMap.mpr ⟨answer, hanswer, he⟩, rfl, rfl⟩

end Database

/-! ## The invariant -/

/-- What holds at each place of the backfill, of the watermark. -/
def BackfillPc.Inv (chain : Set ChainBlock) (mark : Option ℕ) : BackfillPc → Prop
  | .idle | .noHead _ => True
  | .started done => mark.getD 0 = done
  | .asking c => c.Going mark
  | .answered c logs => c.Going mark ∧ AnsweredExactly chain c.start c.stop logs
  | .returned c result => c.Over mark result
  | .panicked c => c.Going mark

/-- **The invariant**: the database is the chain's, and filled up to its watermark. -/
structure BackfillState.Inv (chain : Set ChainBlock) (s : BackfillState) : Prop where
  ofChain : s.db.OfChain chain
  filled : s.db.Filled chain
  pc : s.pc.Inv chain s.db.watermark

theorem BackfillState.Inv.below {chain : Set ChainBlock} (hs : Sound chain) {s : BackfillState}
    (h : s.Inv chain) {c : BackfillCall} (hc : c.Going s.db.watermark) :
    ∀ b ∈ chain, b.number ∈ s.db.blocks → b.number < c.start → s.db.HasRows b := by
  intro b hb hmem hlt
  have hnonneg := hs.nonneg b hb
  have hstart := hc.start
  by_cases hwindows : c.windows = []
  · -- No window yet: the call starts at the watermark, or at 0 where there is none.
    have hreached := hc.reached
    have hdone : c.reached = c.done := by rw [BackfillCall.reached, hwindows]; rfl
    rw [hwindows] at hstart
    have hfirst : c.start = c.done := hstart
    cases hmark : s.db.watermark with
    | none =>
      rw [hmark, Option.getD_none] at hreached
      omega
    | some w =>
      rw [hmark, Option.getD_some] at hreached
      exact h.filled w hmark b hb hmem (by omega)
  · rw [Windows.nextStart_eq hwindows] at hstart
    have hend : lastEnd c.done c.windows = c.reached := rfl
    exact h.filled _ (hc.marked hwindows) b hb hmem (by omega)

theorem BackfillState.Inv.save [Keccak] {chain : Set ChainBlock} (hs : Sound chain) {s : BackfillState}
    (h : s.Inv chain) {ch : ℕ → Choices} {bundles : List BlockBundle}
    (hbundles : ∀ bundle ∈ bundles, ∃ b ∈ chain, b.Brings bundle) (fails : Bool) :
    ({ s with db := Database.trySave ch s.db bundles fails } : BackfillState).Inv chain := by
  obtain ⟨hchain, hmark, hfilled⟩ := Database.trySave_ofChain hs ch h.ofChain hbundles fails
  refine ⟨hchain, fun w hw => hfilled w (h.filled w (hmark ▸ hw)), ?_⟩
  show s.pc.Inv chain (Database.trySave ch s.db bundles fails).watermark
  rw [hmark]
  exact h.pc

theorem BackfillState.Inv.write {chain : Set ChainBlock} (hs : Sound chain) {s : BackfillState}
    (h : s.Inv chain) {c : BackfillCall} {logs : List Json} (hpc : s.pc = .answered c logs)
    (hfits : c.start + c.window ≤ 2 ^ 64) (hnext : c.stop + 1 < 2 ^ 64) {db : Database}
    (hwrite : s.db.writeWindow logs c.stop = some db) :
    (⟨db, c.advance.loop⟩ : BackfillState).Inv chain := by
  have hinv := h.pc
  rw [hpc] at hinv
  obtain ⟨hgoing, hlogs⟩ := hinv
  obtain ⟨-, hgo, hend⟩ := hgoing.advance hfits hnext
  obtain ⟨hchain, hfilled⟩ := Database.writeWindow_ofChain hs h.ofChain hlogs (h.below hs hgoing) hwrite
  have hmark := Database.watermark_writeWindow hwrite (by omega)
  refine ⟨hchain, fun w hw => ?_, ?_⟩
  · obtain rfl : c.stop = w := Option.some.inj (hmark.symm.trans hw)
    exact hfilled
  · show c.advance.loop.Inv chain db.watermark
    rw [hmark, BackfillCall.loop]
    split_ifs with hle
    · exact hgo hle
    · exact hend hle

/-- **Every step keeps the invariant**, where the node is truthful and the window fits. -/
theorem BackfillState.Inv.exec [Keccak] {chain : Set ChainBlock} (hs : Sound chain)
    {s s' : BackfillState} {a : BackfillAction} (h : s.Inv chain) (hnode : s.Truthful chain a)
    (hfits : s.Fits a) (hexec : s.exec a = some s') : s'.Inv chain := by
  have hpc := h.pc
  cases a with
  | saveBlockBundles ch bundles fails =>
    obtain rfl := Option.some.inj hexec
    exact h.save hs hnode fails
  | readWatermark =>
    simp only [BackfillState.exec] at hexec
    split at hexec
    · obtain rfl := Option.some.inj hexec
      exact ⟨h.ofChain, h.filled, rfl⟩
    · exact absurd hexec nofun
  | blockNumber node =>
    simp only [BackfillState.exec] at hexec
    split at hexec
    · next done heq =>
      rw [heq] at hpc
      have hmark : s.db.watermark.getD 0 = done := hpc
      split at hexec
      · next head hhead =>
        split_ifs at hexec with hle
        · obtain rfl := Option.some.inj hexec
          exact ⟨h.ofChain, h.filled, trivial, hmark, fun _ => hle⟩
        · obtain rfl := Option.some.inj hexec
          have hgoing := BackfillCall.first_going hmark (not_le.mp hle) (ethBlockNumber_lt hhead)
          refine ⟨h.ofChain, h.filled, ?_⟩
          show (BackfillCall.first done head).loop.Inv chain s.db.watermark
          rw [BackfillCall.loop, if_pos hgoing.le_head]
          exact hgoing
      · obtain rfl := Option.some.inj hexec
        exact ⟨h.ofChain, h.filled, trivial⟩
    · exact absurd hexec nofun
  | getLogs node =>
    simp only [BackfillState.exec] at hexec
    split at hexec
    · next c heq =>
      rw [heq] at hpc
      have hgoing : c.Going s.db.watermark := hpc
      split at hexec
      · next logs hlogs =>
        obtain rfl := Option.some.inj hexec
        exact ⟨h.ofChain, h.filled, hgoing, hnode c logs heq hlogs⟩
      · next e _ =>
        split_ifs at hexec with hone
        · obtain rfl := Option.some.inj hexec
          exact ⟨h.ofChain, h.filled, hgoing.over _⟩
        · obtain rfl := Option.some.inj hexec
          exact ⟨h.ofChain, h.filled, hgoing.halve hone⟩
      · obtain rfl := Option.some.inj hexec
        exact h
    · exact absurd hexec nofun
  | write =>
    simp only [BackfillState.exec] at hexec
    split at hexec
    · next c logs heq =>
      split at hexec
      · next db hwrite =>
        obtain rfl := Option.some.inj hexec
        obtain ⟨hwindow, hnext⟩ := hfits c logs heq
        exact h.write hs heq hwindow hnext hwrite
      · obtain rfl := Option.some.inj hexec
        rw [heq] at hpc
        exact ⟨h.ofChain, h.filled, hpc.1⟩
    · exact absurd hexec nofun
  | refuseWrite message =>
    simp only [BackfillState.exec] at hexec
    split at hexec
    · next c logs heq =>
      obtain rfl := Option.some.inj hexec
      rw [heq] at hpc
      exact ⟨h.ofChain, h.filled, hpc.1.over _⟩
    · exact absurd hexec nofun
  | crash =>
    obtain rfl := Option.some.inj hexec
    exact ⟨h.ofChain, h.filled, trivial⟩

theorem BackfillState.Inv.watermark_le [Keccak] {chain : Set ChainBlock} (hs : Sound chain)
    {s s' : BackfillState} {a : BackfillAction} (h : s.Inv chain) (hnode : s.Truthful chain a)
    (hfits : s.Fits a) (hexec : s.exec a = some s') {w : ℕ} (hw : s.db.watermark = some w) :
    ∃ w', s'.db.watermark = some w' ∧ w ≤ w' := by
  have hpc := h.pc
  by_cases hsame : s'.db = s.db
  · exact ⟨w, hsame ▸ hw, le_rfl⟩
  cases a with
  | saveBlockBundles ch bundles fails =>
    obtain rfl := Option.some.inj hexec
    obtain ⟨-, hmark, -⟩ := Database.trySave_ofChain hs ch h.ofChain hnode fails
    exact ⟨w, hmark.trans hw, le_rfl⟩
  | write =>
    simp only [BackfillState.exec] at hexec
    split at hexec
    · next c logs heq =>
      split at hexec
      · next db hwrite =>
        obtain rfl := Option.some.inj hexec
        obtain ⟨hwindow, hnext⟩ := hfits c logs heq
        rw [heq] at hpc
        obtain ⟨hmove, -, -⟩ := hpc.1.advance hwindow hnext
        refine ⟨c.stop, Database.watermark_writeWindow hwrite (by omega), ?_⟩
        have hreached := hpc.1.reached
        rw [hw, Option.getD_some] at hreached
        calc w = c.reached := hreached
          _ ≤ nextStart c.done c.windows := Windows.lastEnd_le_nextStart _ _
          _ = c.start := hpc.1.start.symm
          _ ≤ c.stop := hmove
      · obtain rfl := Option.some.inj hexec
        exact absurd rfl hsame
    · exact absurd hexec nofun
  | _ =>
    -- The other steps leave the database alone.
    refine absurd ?_ hsame
    simp only [BackfillState.exec] at hexec
    repeat' split at hexec
    all_goals
      first
      | rw [← Option.some.inj hexec]
      | exact absurd hexec nofun

/-! ## Every run -/

/-- A truthful node, and windows that fit. -/
def BackfillState.Legal [Keccak] (chain : Set ChainBlock) (s : BackfillState) (a : BackfillAction) :
    Prop := s.Truthful chain a ∧ s.Fits a

/-- **The backfill is complete and resumes where it stopped**, in every run whose windows end below
2⁶⁴. The rows of every stored block at or below the watermark are stored, and a row is the same
whichever path brings it; the windows of a call follow one another from the watermark it started
from, which has got to the last of them; a call that succeeds has got to its head, and one refused
a single height fails; the watermark never goes back. -/
theorem backfillAnchoring_correct [Keccak] {chain : Set ChainBlock} (hs : Sound chain) :
    (∀ s, (backfillAnchoring chain).ReachableUnder (BackfillState.Legal chain) s →
      (∀ w, s.db.watermark = some w → ∀ b ∈ chain, b.number ∈ s.db.blocks → b.number ≤ w →
        ∀ txData log k row, b.Has txData log → b.row txData log = some (k, row) →
          s.db.anchoringEvents.lookup k = some row) ∧
      (∀ b ∈ chain, ∀ bundle, assembleBundle b.raw b.receipts = some bundle → ∀ k row,
        (∃ e ∈ bundle.anchoring, anchoringKey e = k ∧ anchoringRow e = row) ↔
          ∃ txData log, b.Has txData log ∧ b.row txData log = some (k, row)) ∧
      (∀ b ∈ chain, b.number ∈ s.db.blocks → ∀ txData log answer, Reports b txData log answer →
        ∀ event, anchoringEventFromLog s.db answer = some event →
          event.map (fun e => (anchoringKey e, anchoringRow e)) = b.row txData log) ∧
      (∀ c, s.pc.call = some c →
        Contiguous c.done c.windows ∧ s.db.watermark.getD 0 = c.reached) ∧
      (∀ c, s.pc = .returned c (.ok ()) → c.head ≤ s.db.watermark.getD 0) ∧
      ∀ c, s.pc = .asking c → c.window = 1 → ∀ node e,
        (ethGetLogs c.filter node []).1 = .error (.rpc e) →
          s.exec (.getLogs node) = some { s with
            pc := .returned c (.error ⟨some s!"anchoring logs {c.start}..{c.stop}", .rpc e⟩) }) ∧
    ∀ s a s', (backfillAnchoring chain).ReachableUnder (BackfillState.Legal chain) s →
      s.Legal chain a → s.exec a = some s' → ∀ w, s.db.watermark = some w →
        ∃ w', s'.db.watermark = some w' ∧ w ≤ w' := by
  have hinv : ∀ {s : BackfillState},
      (backfillAnchoring chain).ReachableUnder (BackfillState.Legal chain) s → s.Inv chain := by
    intro s h
    refine h.invariant ?_ ?_
    · rintro s ⟨hpc, hchain, hfilled⟩
      refine ⟨hchain, hfilled, ?_⟩
      rw [hpc]
      trivial
    · intro s a s' hinv hlegal hexec
      exact hinv.exec hs hlegal.1 hlegal.2 hexec
  refine ⟨fun s hreach => ?_, fun s a s' hreach hlegal hexec w hw => ?_⟩
  · have h := hinv hreach
    have hpc := h.pc
    refine ⟨h.filled, fun b hb bundle hbundle => mem_assembleBundle_anchoring hs hb hbundle, ?_,
      fun c hc => ?_, ?_, ?_⟩
    · intro b hb hmem txData log answer hrep event hevent
      exact anchoringEventFromLog_row hs hb hrep (h.ofChain.lookup hs hb hmem) hevent
    · cases hplace : s.pc with
      | idle | started done | noHead e =>
        rw [hplace] at hc
        exact absurd hc nofun
      | asking c' =>
        rw [hplace] at hc hpc
        obtain rfl := Option.some.inj hc
        exact ⟨hpc.contiguous, hpc.reached⟩
      | answered c' logs =>
        rw [hplace] at hc hpc
        obtain rfl := Option.some.inj hc
        exact ⟨hpc.1.contiguous, hpc.1.reached⟩
      | returned c' result =>
        rw [hplace] at hc hpc
        obtain rfl := Option.some.inj hc
        exact ⟨hpc.contiguous, hpc.reached⟩
      | panicked c' =>
        rw [hplace] at hc hpc
        obtain rfl := Option.some.inj hc
        exact ⟨hpc.contiguous, hpc.reached⟩
    · intro c hc
      rw [hc] at hpc
      rw [hpc.reached]
      exact hpc.finished rfl
    · intro c hc hone node e herror
      simp only [BackfillState.exec, hc, herror, if_pos hone]
  · exact (hinv hreach).watermark_le hs hlegal.1 hlegal.2 hexec hw

end Codec

/-! ## A block from before the table -/

section Sample

/-- Every topic is that of a new registry, whose number is 7. -/
@[reducible] def Codec.registries : Codec where
  unicode := .plain
  events _ := some ⟨"AddRegistry", "", fun _ _ => some [⟨"uint64", "registryId", "7", true⟩]⟩
  encodeSigned _ := none
  jsonText _ := ""

attribute [local instance] Keccak.sponge Codec.registries

/-- A log of the contract, in a block and a transaction. -/
def registryLog (number hash : String) : Json := .obj [("address", .str anchoringAddress),
  ("topics", .arr [.str "0x0101010101010101010101010101010101010101010101010101010101010101"]),
  ("data", .str "0x"), ("blockNumber", .str number), ("transactionHash", .str hash),
  ("logIndex", .str "0x0")]

def registryTx (number hash : String) : Json :=
  .obj [("hash", .str hash), ("blockNumber", .str number)]

def registryBlock (number hash : String) : ChainBlock where
  raw := .obj [("number", .str number), ("hash", .str hash), ("timestamp", .str "0x64"),
    ("transactions", .arr [registryTx number hash])]
  receipts := some (.arr [.obj [("transactionHash", .str hash),
    ("logs", .arr [registryLog number hash])]])

/-- Two blocks, with a registry each. -/
def registries : Set ChainBlock := {registryBlock "0x4" "0xbb", registryBlock "0x5" "0xaa"}

/-- A node at height `head` with those logs. -/
def logNode (head : String) (logs : List Json) : Node
  | _, .one ⟨"eth_blockNumber", _⟩ => .body (.obj [("result", .str head)])
  | _, .one _ => .body (.obj [("result", .arr logs)])
  | _, .many _ => .failed

/-- A node that refuses every request. -/
def refusingNode : Node := fun _ _ =>
  .body (.obj [("error", .obj [("code", .int (-32005)), ("message", .str "range too wide")])])

theorem registryBlock_has {number hash : String} {txData log : Json}
    (hlogs : txLogs (registryBlock number hash).receipts (registryTx number hash) =
      [registryLog number hash])
    (h : (registryBlock number hash).Has txData log) :
    txData = registryTx number hash ∧ log = registryLog number hash := by
  obtain rfl : txData = registryTx number hash := List.mem_singleton.mp h.tx
  have hmem := h.log
  rw [hlogs] at hmem
  exact ⟨rfl, List.mem_singleton.mp hmem⟩

theorem registries_has {b : ChainBlock} (hb : b ∈ registries) {txData log : Json}
    (h : b.Has txData log) : ∃ number hash, b = registryBlock number hash ∧
      txData = registryTx number hash ∧ log = registryLog number hash := by
  rcases hb with rfl | rfl
  · exact ⟨_, _, rfl, registryBlock_has rfl h⟩
  · exact ⟨_, _, rfl, registryBlock_has rfl h⟩

theorem registries_sound : Sound registries where
  nonneg := by
    rintro b (rfl | rfl) <;> decide
  unique := by
    rintro b (rfl | rfl) b' (rfl | rfl) hnumber
    · rfl
    · exact absurd hnumber (by decide)
    · exact absurd hnumber (by decide)
    · rfl
  txNumber := by
    rintro b (rfl | rfl) txData htx
    all_goals
      rw [List.mem_singleton.mp htx]
      decide
  indexed := by
    intro b hb txData log hhas _
    obtain ⟨number, hash, -, -, rfl⟩ := registries_has hb hhas
    exact ⟨.str "0x0", rfl, by decide⟩
  distinct := by
    rintro b (rfl | rfl) txData log txData' log' hhas hhas' _ _ _
    all_goals
      obtain ⟨rfl, rfl⟩ := registryBlock_has rfl hhas
      obtain ⟨rfl, rfl⟩ := registryBlock_has rfl hhas'
      exact ⟨rfl, rfl⟩

theorem registryBlock_reports {number hash : String}
    (hhas : (registryBlock number hash).Has (registryTx number hash) (registryLog number hash)) :
    Reports (registryBlock number hash) (registryTx number hash) (registryLog number hash)
      (registryLog number hash) where
  has := hhas
  anchoring := by
    have haddress : (registryLog number hash).text "address" "" = anchoringAddress := rfl
    rw [isAnchoringLog, haddress]
    decide
  topics := rfl
  data := rfl
  logIndex := rfl
  blockNumber := rfl
  transactionHash := ⟨hash, rfl, rfl⟩

theorem registryLog_decodable (number hash : String) : Decodable (registryLog number hash) := by
  have hdata : (registryLog number hash).text "data" "0x" = "0x" := rfl
  refine .inr (.inr (.inl ?_))
  rw [hdata]
  decide

/-- The second block is stored, and none of its rows. -/
def beforeTable : BackfillState where
  db := { Database.fresh with
    blocks := (∅ : Keyed ℤ BlockRow).insert 5 (blockRow (registryBlock "0x5" "0xaa").block) }
  pc := .idle

theorem beforeTable_init : (backfillAnchoring registries).init beforeTable := by
  refine ⟨rfl, ⟨fun n row hrow => ?_, fun k row hrow => absurd hrow nofun⟩, fun w hw => ?_⟩
  · have hlookup : ((∅ : Keyed ℤ BlockRow).insert 5
        (blockRow (registryBlock "0x5" "0xaa").block)).lookup n = some row := hrow
    rw [Keyed.lookup_insert_eq] at hlookup
    split_ifs at hlookup with hn
    · refine ⟨registryBlock "0x5" "0xaa", .inr rfl, ?_, (Option.some.inj hlookup).symm⟩
      rw [hn]
      decide
    · exact absurd hlookup nofun
  · exact absurd hw nofun

/-- The row of a log. -/
def registryRow (hash : Bytes) : AnchoringRow := ⟨hash, 100, "AddRegistry", 7, 0, []⟩

/-- The two logs, as the node reports them. -/
def registryLogs : List Json := [registryLog "0x5" "0xaa", registryLog "0x4" "0xbb"]

theorem registryLogs_exact {start stop : ℕ} (hstart : start = 0) (hstop : stop = 5) :
    AnsweredExactly registries start stop registryLogs := by
  subst hstart hstop
  have hhas4 : (registryBlock "0x4" "0xbb").Has (registryTx "0x4" "0xbb")
      (registryLog "0x4" "0xbb") := ⟨List.mem_singleton.mpr rfl, List.mem_singleton.mpr rfl⟩
  have hhas5 : (registryBlock "0x5" "0xaa").Has (registryTx "0x5" "0xaa")
      (registryLog "0x5" "0xaa") := ⟨List.mem_singleton.mpr rfl, List.mem_singleton.mpr rfl⟩
  refine ⟨fun answer hanswer => ?_, ?_⟩
  · rcases List.mem_pair.mp hanswer with rfl | rfl
    · exact ⟨_, .inr rfl, _, _, registryBlock_reports hhas5, by decide, by decide⟩
    · exact ⟨_, .inl rfl, _, _, registryBlock_reports hhas4, by decide, by decide⟩
  · rintro b (rfl | rfl) - - txData log hhas -
    · obtain ⟨rfl, rfl⟩ := registryBlock_has rfl hhas
      exact ⟨_, List.mem_pair.mpr (.inr rfl), registryBlock_reports hhas⟩
    · obtain ⟨rfl, rfl⟩ := registryBlock_has rfl hhas
      exact ⟨_, List.mem_pair.mpr (.inl rfl), registryBlock_reports hhas⟩

/-- The bundle of the first block. -/
def registryBundle : BlockBundle :=
  (assembleBundle (registryBlock "0x4" "0xbb").raw (registryBlock "0x4" "0xbb").receipts).getD
    ⟨parseBlock .null, [], [], [], []⟩

theorem registryBundle_brings : (registryBlock "0x4" "0xbb").Brings registryBundle := by
  have hsome : (assembleBundle (registryBlock "0x4" "0xbb").raw
      (registryBlock "0x4" "0xbb").receipts).isSome = true := by decide +kernel
  obtain ⟨bundle, hbundle⟩ := Option.isSome_iff_exists.mp hsome
  have heq : registryBundle = bundle := by rw [registryBundle, hbundle, Option.getD_some]
  have htokens : { bundle with tokens := [] } = bundle := by
    rw [← (block_of_assembleBundle hbundle).2]
  rw [heq]
  exact hbundle.trans (congrArg some htokens.symm)

theorem registryBundle_number : registryBundle.block.number = 4 := by
  rw [registryBundle_brings.number_eq]
  decide

/-- **Both rows are stored** once the backfill has read to the head: its first window was refused,
and the other block was committed before the second. -/
theorem backfillAnchoring_correct_registry : ∃ s : BackfillState,
    (backfillAnchoring registries).ReachableUnder (BackfillState.Legal registries) s ∧
      s.db.watermark = some 5 ∧
      s.db.anchoringEvents.lookup (5, 0) = some (registryRow [0xaa]) ∧
      s.db.anchoringEvents.lookup (4, 0) = some (registryRow [0xbb]) := by
  let node := logNode "0x5" registryLogs
  let c : BackfillCall := .first 0 5
  let s1 : BackfillState := { beforeTable with pc := .started 0 }
  let s2 : BackfillState := { beforeTable with pc := .asking c }
  let s3 : BackfillState := { beforeTable with pc := .asking c.halve }
  obtain ⟨db, hsave⟩ := Database.exists_commit beforeTable.db [registryBundle]
    (by decide +kernel)
  let s4 : BackfillState := ⟨db, .asking c.halve⟩
  let s5 : BackfillState := ⟨db, .answered c.halve registryLogs⟩
  obtain ⟨db', hwrite⟩ := db.exists_writeWindow registryLogs c.halve.stop fun answer hanswer => by
    rcases List.mem_pair.mp hanswer with rfl | rfl
    · exact registryLog_decodable _ _
    · exact registryLog_decodable _ _
  let s6 : BackfillState := ⟨db', c.halve.advance.loop⟩
  have h1 : (backfillAnchoring registries).ReachableUnder (BackfillState.Legal registries) s1 :=
    .step (a := .readWatermark) (.start beforeTable_init) ⟨trivial, trivial⟩ rfl
  have h2 : (backfillAnchoring registries).ReachableUnder (BackfillState.Legal registries) s2 :=
    .step (a := .blockNumber node) h1 ⟨trivial, trivial⟩ rfl
  have h3 : (backfillAnchoring registries).ReachableUnder (BackfillState.Legal registries) s3 :=
    .step (a := .getLogs refusingNode) h2 ⟨fun _ _ _ hlogs => absurd hlogs nofun, trivial⟩ rfl
  have h4 : (backfillAnchoring registries).ReachableUnder (BackfillState.Legal registries) s4 := by
    refine .step (a := .saveBlockBundles (fun _ => .plain) [registryBundle] false) h3
      ⟨fun bundle hbundle => ?_, trivial⟩ ?_
    · rw [List.mem_singleton.mp hbundle]
      exact ⟨_, .inl rfl, registryBundle_brings⟩
    · simp only [backfillAnchoring, BackfillState.exec, s3, s4, Database.trySave, hsave,
        if_neg Bool.false_ne_true]
  have h5 : (backfillAnchoring registries).ReachableUnder (BackfillState.Legal registries) s5 := by
    refine .step (a := .getLogs node) h4 ⟨fun c' logs hc hlogs => ?_, trivial⟩ rfl
    obtain rfl : c.halve = c' := BackfillPc.asking.inj hc
    obtain rfl : registryLogs = logs := Except.ok.inj hlogs
    exact registryLogs_exact rfl (by decide)
  have h6 : (backfillAnchoring registries).ReachableUnder (BackfillState.Legal registries) s6 := by
    refine .step (a := .write) h5 ⟨trivial, fun c' logs hc => ?_⟩ ?_
    · obtain rfl : c.halve = c' := (BackfillPc.answered.inj hc).1
      decide
    · simp only [backfillAnchoring, BackfillState.exec, s5, hwrite]
      rfl
  have hstop : c.halve.stop = 5 := by decide
  have hmark : db'.watermark = some 5 := by
    rw [Database.watermark_writeWindow hwrite (by decide), hstop]
  have hblocks : db'.blocks = db.blocks := by rw [(Database.writeWindow_eq hwrite).2]
  have hheights := Database.saveBlockBundles_heights hsave
  have hall := ((backfillAnchoring_correct registries_sound).1 s6 h6).1 5 hmark
  refine ⟨s6, h6, hmark, ?_, ?_⟩
  · refine hall (registryBlock "0x5" "0xaa") (.inr rfl) ?_ (by decide) (registryTx "0x5" "0xaa")
      (registryLog "0x5" "0xaa") _ _
      ⟨List.mem_singleton.mpr rfl, List.mem_singleton.mpr rfl⟩ (by decide)
    rw [hblocks]
    exact (hheights _).mpr (.inl (by decide))
  · refine hall (registryBlock "0x4" "0xbb") (.inl rfl) ?_ (by decide) (registryTx "0x4" "0xbb")
      (registryLog "0x4" "0xbb") _ _
      ⟨List.mem_singleton.mpr rfl, List.mem_singleton.mpr rfl⟩ (by decide)
    rw [hblocks]
    refine (hheights _).mpr (.inr ⟨registryBundle, List.mem_singleton.mpr rfl, ?_⟩)
    rw [registryBundle_number]
    decide

/-! ## A head at the end of 64 bits -/

/-- A database that was backfilled to the height before the last of 64 bits. -/
def almostFull : BackfillState where
  db := Database.fresh.setKv backfillKey "18446744073709551614"
  pc := .idle

theorem almostFull_init : (backfillAnchoring ∅).init almostFull :=
  ⟨rfl, ⟨fun _ _ hrow => absurd hrow nofun, fun _ _ hrow => absurd hrow nofun⟩,
    fun _ _ b hb => absurd hb (Set.notMem_empty b)⟩

/-- **The last window wraps**: it ends 50 000 heights on, which is far below where it starts, and
the watermark goes back there. -/
theorem backfillAnchoring_wraps : ¬ ∀ chain : Set ChainBlock, Sound chain →
    ∀ (s : BackfillState) (a : BackfillAction) (s' : BackfillState),
      (backfillAnchoring chain).ReachableUnder (BackfillState.Truthful chain) s →
        s.Truthful chain a → s.exec a = some s' → ∀ w, s.db.watermark = some w →
          ∃ w', s'.db.watermark = some w' ∧ w ≤ w' := by
  intro hall
  have hsound : Sound ∅ := by
    refine ⟨fun b hb => ?_, fun b hb => ?_, fun b hb => ?_, fun b hb => ?_, fun b hb => ?_⟩
    all_goals exact absurd hb (Set.notMem_empty b)
  let node := logNode "0xffffffffffffffff" []
  let c : BackfillCall := .first 18446744073709551614 18446744073709551615
  let s1 : BackfillState := { almostFull with pc := .started 18446744073709551614 }
  let s2 : BackfillState := { almostFull with pc := .asking c }
  let s3 : BackfillState := { almostFull with pc := .answered c [] }
  let s4 : BackfillState := ⟨almostFull.db.setKv backfillKey (toString c.stop), c.advance.loop⟩
  have h1 : (backfillAnchoring ∅).ReachableUnder (BackfillState.Truthful ∅) s1 :=
    .step (a := .readWatermark) (.start almostFull_init) trivial rfl
  have h2 : (backfillAnchoring ∅).ReachableUnder (BackfillState.Truthful ∅) s2 :=
    .step (a := .blockNumber node) h1 trivial rfl
  have h3 : (backfillAnchoring ∅).ReachableUnder (BackfillState.Truthful ∅) s3 := by
    refine .step (a := .getLogs node) h2 (fun c' logs hc hlogs => ?_) rfl
    obtain rfl : [] = logs := Except.ok.inj hlogs
    refine ⟨fun answer hanswer => absurd hanswer List.not_mem_nil, fun b hb => ?_⟩
    exact absurd hb (Set.notMem_empty b)
  have hmark : s3.db.watermark = some 18446744073709551614 := by decide
  have hmark' : s4.db.watermark = some 49997 := by decide
  obtain ⟨w', hw', hle⟩ := hall ∅ hsound s3 .write s4 h3 trivial rfl 18446744073709551614 hmark
  obtain rfl : 49997 = w' := Option.some.inj (hmark'.symm.trans hw')
  omega

end Sample

end ChainExplorer
