import ChainExplorer.Db.Schema
import ChainExplorer.Parse
import ChainExplorer.Lib.Grouping
import ChainExplorer.Lib.Machine

/-!
# The statistics of the home page

`compute_and_store_stats` (`indexer.rs`): the counts, and the hour before the newest block a minute at a
time.

* `minuteRows`, `HourChart.addMinute`: the rows of the statement, and the loop over them.
* `Charts`: what a chart of the hour is to show.
* **`computeAndStoreStats_charts`**: it shows that, or a sum of the statements leaves 64 bits.
-/

namespace ChainExplorer

open Grouping

/-- Minutes of activity the home page charts and averages. -/
def chartMinutes : ℕ := 60

/-- Why there are no statistics. -/
inductive StatsFault
  /-- A `SUM` of a statement left 64 bits. -/
  | sumOverflow
  /-- A column that is not what the program reads it as. -/
  | badColumn
  /-- An index past the end of a chart, which panics. -/
  | outOfBounds
deriving DecidableEq

/-- The stored blocks. -/
def Database.blockRows (db : Database) : List BlockRow := db.blocks.entries.map Sigma.snd

/-- `SUM(…)`, in the order the rows are met. -/
def sqlSum (column : List ℤ) : Except StatsFault ℤ :=
  (IntType.i64.sum column).elim (.error .sumOverflow) .ok

/-- A column of a row. -/
def readColumn {α : Type} (column : Option α) : Except StatsFault α :=
  column.elim (.error .badColumn) .ok

/-! ## The hour -/

/-- `start`; none for a difference that is a `REAL`. -/
def hourStart (newest : ℤ) : Option ℤ := IntType.i64.check (newest - 60 * chartMinutes)

/-- `(timestamp - start - 1) / 60`; none for a `REAL`. -/
def minuteColumn (start : Option ℤ) (block : BlockRow) : Option ℤ := do
  let elapsed ← IntType.i64.check (block.timestamp - (← start))
  let offset ← IntType.i64.check (elapsed - 1)
  pure (offset.tdiv 60)

/-- **The rows of the statement**, each with the blocks it is made of. -/
def minuteRows (ch : Choices) (blocks : List BlockRow) : List (Option ℤ × List BlockRow) :=
  match (blocks.map BlockRow.timestamp).max? with
  -- Nothing is later than NULL.
  | none => []
  | some newest =>
    let start := hourStart newest
    -- A REAL is below every stored time.
    let hour := blocks.filter fun b => start.elim true (· < b.timestamp)
    ch.order (groupBy (minuteColumn start) (ch.order hour))

/-- What the charts plot and the tiles average. -/
structure HourChart where
  txPerMinute : List ℤ
  gasPerMinute : List ℤ
  blocks : ℤ
  gasLimit : ℤ
  firstMs : ℤ
  lastMs : ℤ

namespace HourChart

def empty : HourChart where
  txPerMinute := List.replicate chartMinutes 0
  gasPerMinute := List.replicate chartMinutes 0
  blocks := 0
  gasLimit := 0
  firstMs := 9223372036854775807
  lastMs := 0

/-- `chart[minute] = value`. -/
def setMinute (chart : List ℤ) (minute : ℕ) (value : ℤ) : Except StatsFault (List ℤ) :=
  if minute < chart.length then .ok (chart.set minute value) else .error .outOfBounds

/-- A column as a `usize`. -/
def toUsize (n : ℤ) : Option ℕ := if 0 ≤ n then some n.toNat else none

/-- The loop's body. -/
def addMinute (h : HourChart) (row : Option ℤ × List BlockRow) : Except StatsFault HourChart := do
  let txCount ← sqlSum (row.2.map BlockRow.txCount)
  let gasUsed ← sqlSum (row.2.map BlockRow.gasUsed)
  let gasLimit ← sqlSum (row.2.map BlockRow.gasLimit)
  let minute ← readColumn (row.1.bind toUsize)
  let txPerMinute ← setMinute h.txPerMinute minute txCount
  let gasPerMinute ← setMinute h.gasPerMinute minute gasUsed
  let firstMs ← readColumn (row.2.map BlockRow.timestampMs).min?
  let lastMs ← readColumn (row.2.map BlockRow.timestampMs).max?
  pure {
    txPerMinute
    gasPerMinute
    blocks := wrapI64 (h.blocks + row.2.length)
    gasLimit := wrapI64 (h.gasLimit + gasLimit)
    firstMs := min h.firstMs firstMs
    lastMs := max h.lastMs lastMs }

end HourChart

/-- **The charts of the hour** before the newest block. -/
def hourChart (ch : Choices) (blocks : List BlockRow) : Except StatsFault HourChart :=
  (minuteRows ch blocks).foldlM HourChart.addMinute .empty

/-! ## The statistics -/

/-- What is stored and returned, with what the four floating-point figures are computed from in their
place. -/
structure Stats where
  latestBlock : Option ℤ
  totalBlocks : ℤ
  totalTxns : ℤ
  tokenCount : ℕ
  txns24h : ℤ
  blocks24h : ℕ
  chainHead : ℤ
  hour : HourChart
  updatedAt : ℤ

/-- The blocks of the last day. -/
def dayBlocks (now : ℤ) (blocks : List BlockRow) : List BlockRow :=
  blocks.filter fun b => now - 86400 ≤ b.timestamp

/-- **`compute_and_store_stats`**: `render` is the text of the statistics; the statements meet their
rows in orders of their own. -/
def computeAndStoreStats (render : Stats → String) (day hour : Choices) (now : ℤ) (head : ℕ)
    (db : Database) : Except StatsFault (Stats × Database) := do
  let lastDay := dayBlocks now db.blockRows
  let txns24h ← sqlSum ((day.order lastDay).map BlockRow.txCount)
  let latestBlock := db.getMaxBlockNumber
  let chart ← hourChart hour db.blockRows
  let stats : Stats := {
    latestBlock
    totalBlocks := db.counter "blocks"
    totalTxns := db.counter "transactions"
    tokenCount := db.tokenMetadata.entries.length
    txns24h
    blocks24h := lastDay.length
    -- Until the first head arrives, the newest indexed block stands in.
    chainHead := max (wrapI64 head) (latestBlock.getD 0)
    hour := chart
    updatedAt := now }
  pure (stats, db.setKv "stats" (render stats))

/-! ## What the chart is to show -/

/-- The time of the newest block. -/
def newestTime (blocks : List BlockRow) : ℤ := (blocks.map BlockRow.timestamp).max?.getD 0

/-- The blocks of the hour up to the newest. -/
def lastHour (blocks : List BlockRow) : List BlockRow :=
  blocks.filter fun b => newestTime blocks - 3600 < b.timestamp ∧ b.timestamp ≤ newestTime blocks

/-- The minute of a block, counted back from the newest. -/
def bucket (newest : ℤ) (b : BlockRow) : ℤ := 59 - (newest - b.timestamp) / 60

/-- The blocks of a minute. -/
def minuteBlocks (newest : ℤ) (rows : List BlockRow) (m : ℕ) : List BlockRow :=
  group (bucket newest) (m : ℤ) rows

/-- **What the charts are to show** of some blocks: each block of the hour in its own minute, once. -/
structure Charts (blocks : List BlockRow) (chart : HourChart) : Prop where
  inside : ∀ b ∈ lastHour blocks, 0 ≤ bucket (newestTime blocks) b ∧ bucket (newestTime blocks) b < 60
  once : ((List.range 60).flatMap (minuteBlocks (newestTime blocks) (lastHour blocks))).Perm
    (lastHour blocks)
  txs : chart.txPerMinute = series 60 fun m =>
    ((minuteBlocks (newestTime blocks) (lastHour blocks) m).map BlockRow.txCount).sum
  gas : chart.gasPerMinute = series 60 fun m =>
    ((minuteBlocks (newestTime blocks) (lastHour blocks) m).map BlockRow.gasUsed).sum
  txTotal : chart.txPerMinute.sum = ((lastHour blocks).map BlockRow.txCount).sum
  gasTotal : chart.gasPerMinute.sum = ((lastHour blocks).map BlockRow.gasUsed).sum

/-- The sums of a minute stay in 64 bits. -/
def MinuteFits (rows : List BlockRow) : Prop :=
  IntType.i64.Fits (rows.map BlockRow.txCount) ∧ IntType.i64.Fits (rows.map BlockRow.gasUsed) ∧
    IntType.i64.Fits (rows.map BlockRow.gasLimit)

instance (rows : List BlockRow) : Decidable (MinuteFits rows) :=
  inferInstanceAs (Decidable (_ ∧ _ ∧ _))

/-- **The sums of the statements stay in 64 bits**, in the orders they meet their rows. -/
structure SumsFit (day hour : Choices) (now : ℤ) (blocks : List BlockRow) : Prop where
  day : IntType.i64.Fits ((day.order (dayBlocks now blocks)).map BlockRow.txCount)
  hour : ∀ m < 60, MinuteFits (minuteBlocks (newestTime blocks) (hour.order (lastHour blocks)) m)

instance (day hour : Choices) (now : ℤ) (blocks : List BlockRow) :
    Decidable (SumsFit day hour now blocks) :=
  decidable_of_iff (_ ∧ _) ⟨fun h => ⟨h.1, h.2⟩, fun h => ⟨h.day, h.hour⟩⟩

/-- An hour before the newest block is a time of 64 bits. -/
def TimesInRange (blocks : List BlockRow) : Prop := IntType.i64.Holds (newestTime blocks - 3600)

instance (blocks : List BlockRow) : Decidable (TimesInRange blocks) :=
  inferInstanceAs (Decidable (IntType.i64.Holds _))

/-! ## The minutes -/

section Minutes

variable {newest : ℤ} {b : BlockRow}

theorem minuteColumn_eq (hstart : newest - 3600 < b.timestamp) (hend : b.timestamp ≤ newest) :
    minuteColumn (some (newest - 3600)) b = some (bucket newest b) := by
  have helapsed : IntType.i64.Holds (b.timestamp - (newest - 3600)) := by
    rw [IntType.holds_i64]
    omega
  have hoffset : IntType.i64.Holds (b.timestamp - (newest - 3600) - 1) := by
    rw [IntType.holds_i64]
    omega
  have hbucket : (b.timestamp - (newest - 3600) - 1).tdiv 60 = bucket newest b := by
    rw [Int.tdiv_eq_ediv_of_nonneg (by omega), bucket]
    omega
  rw [minuteColumn]
  simp only [Option.bind_eq_bind, Option.bind_some, IntType.check_of_holds helapsed,
    IntType.check_of_holds hoffset, hbucket]
  rfl

theorem bucket_bounds (hstart : newest - 3600 < b.timestamp) (hend : b.timestamp ≤ newest) :
    0 ≤ bucket newest b ∧ bucket newest b < 60 := by
  rw [bucket]
  omega

variable {blocks : List BlockRow}

theorem mem_lastHour : b ∈ lastHour blocks ↔
    b ∈ blocks ∧ newestTime blocks - 3600 < b.timestamp ∧ b.timestamp ≤ newestTime blocks := by
  rw [lastHour, List.mem_filter, decide_eq_true_iff]

/-- The sixty. -/
def minuteNumbers : List ℤ := (List.range 60).map fun m : ℕ => (m : ℤ)

theorem nodup_minuteNumbers : minuteNumbers.Nodup := List.nodup_range.map Nat.cast_injective

theorem bucket_mem_minuteNumbers (h : b ∈ lastHour blocks) :
    bucket (newestTime blocks) b ∈ minuteNumbers := by
  obtain ⟨-, hstart, hend⟩ := mem_lastHour.mp h
  obtain ⟨h0, h60⟩ := bucket_bounds hstart hend
  refine List.mem_map.mpr ⟨(bucket (newestTime blocks) b).toNat, List.mem_range.mpr ?_, ?_⟩
  · omega
  · exact Int.toNat_of_nonneg h0

theorem lastHour_once (blocks : List BlockRow) :
    ((List.range 60).flatMap (minuteBlocks (newestTime blocks) (lastHour blocks))).Perm
      (lastHour blocks) := by
  have hin : ∀ b ∈ lastHour blocks, bucket (newestTime blocks) b ∈ minuteNumbers := fun b hb =>
    bucket_mem_minuteNumbers hb
  have hperm := flatMap_group_perm nodup_minuteNumbers hin
  rwa [minuteNumbers, List.flatMap_map] at hperm

theorem sum_minutes (blocks : List BlockRow) (f : BlockRow → ℤ) :
    (series 60 fun m => ((minuteBlocks (newestTime blocks) (lastHour blocks) m).map f).sum).sum =
      ((lastHour blocks).map f).sum := by
  rw [← sum_groups nodup_minuteNumbers (fun b hb => bucket_mem_minuteNumbers hb) f, minuteNumbers,
    List.map_map]
  rfl

end Minutes

/-! ## The loop -/

theorem sqlSum_eq (column : List ℤ) : IntType.i64.Fits column ∧ sqlSum column = .ok column.sum ∨
    ¬ IntType.i64.Fits column ∧ sqlSum column = .error .sumOverflow := by
  rcases IntType.sum_eq IntType.i64 column with ⟨hfits, hsum⟩ | ⟨hfits, hsum⟩
  · exact .inl ⟨hfits, by rw [sqlSum, hsum]; rfl⟩
  · exact .inr ⟨hfits, by rw [sqlSum, hsum]; rfl⟩

namespace HourChart

theorem addMinute_eq {h : HourChart} (htx : h.txPerMinute.length = 60)
    (hgas : h.gasPerMinute.length = 60) {m : ℕ} (hm : m < 60) {rows : List BlockRow}
    (hrows : rows ≠ []) :
    (MinuteFits rows ∧ ∃ h', h.addMinute (some m, rows) = .ok h' ∧
      h'.txPerMinute = h.txPerMinute.set m (rows.map BlockRow.txCount).sum ∧
      h'.gasPerMinute = h.gasPerMinute.set m (rows.map BlockRow.gasUsed).sum) ∨
    (¬ MinuteFits rows ∧ h.addMinute (some m, rows) = .error .sumOverflow) := by
  rcases sqlSum_eq (rows.map BlockRow.txCount) with ⟨htxs, hsum1⟩ | ⟨htxs, hsum1⟩
  swap
  · refine .inr ⟨fun hfits => htxs hfits.1, ?_⟩
    rw [addMinute, hsum1]
    rfl
  rcases sqlSum_eq (rows.map BlockRow.gasUsed) with ⟨hused, hsum2⟩ | ⟨hused, hsum2⟩
  swap
  · refine .inr ⟨fun hfits => hused hfits.2.1, ?_⟩
    rw [addMinute, hsum1, hsum2]
    rfl
  rcases sqlSum_eq (rows.map BlockRow.gasLimit) with ⟨hlimit, hsum3⟩ | ⟨hlimit, hsum3⟩
  swap
  · refine .inr ⟨fun hfits => hlimit hfits.2.2, ?_⟩
    rw [addMinute, hsum1, hsum2, hsum3]
    rfl
  have hnonempty : rows.map BlockRow.timestampMs ≠ [] := fun h => hrows (List.map_eq_nil_iff.mp h)
  obtain ⟨first, hfirst⟩ := Option.ne_none_iff_exists'.mp (mt List.min?_eq_none_iff.mp hnonempty)
  obtain ⟨last, hlast⟩ := Option.ne_none_iff_exists'.mp (mt List.max?_eq_none_iff.mp hnonempty)
  have hminute : readColumn ((some (m : ℤ)).bind toUsize) = .ok m := by
    rw [Option.bind_some, toUsize, if_pos (Int.natCast_nonneg m), Int.toNat_natCast]
    rfl
  have hset1 : setMinute h.txPerMinute m (rows.map BlockRow.txCount).sum =
      .ok (h.txPerMinute.set m (rows.map BlockRow.txCount).sum) := if_pos (htx ▸ hm)
  have hset2 : setMinute h.gasPerMinute m (rows.map BlockRow.gasUsed).sum =
      .ok (h.gasPerMinute.set m (rows.map BlockRow.gasUsed).sum) := if_pos (hgas ▸ hm)
  refine .inl ⟨⟨htxs, hused, hlimit⟩, ?_⟩
  simp only [addMinute, hsum1, hsum2, hsum3, hminute, hfirst, hlast, bind, Except.bind, hset1, hset2]
  exact ⟨_, rfl, rfl, rfl⟩

theorem foldlM_addMinute {g : ℕ → List BlockRow} {ms : List ℕ} (hms : ∀ m ∈ ms, m < 60 ∧ g m ≠ [])
    {h : HourChart} {tx gas : ℕ → ℤ} (htx : h.txPerMinute = series 60 tx)
    (hgas : h.gasPerMinute = series 60 gas) :
    ((∀ m ∈ ms, MinuteFits (g m)) ∧ ∃ h',
      (ms.map fun m : ℕ => (some (m : ℤ), g m)).foldlM addMinute h = .ok h' ∧
      h'.txPerMinute = series 60 (fun m => if m ∈ ms then ((g m).map BlockRow.txCount).sum else tx m) ∧
      h'.gasPerMinute =
        series 60 (fun m => if m ∈ ms then ((g m).map BlockRow.gasUsed).sum else gas m)) ∨
    ((¬ ∀ m ∈ ms, MinuteFits (g m)) ∧
      (ms.map fun m : ℕ => (some (m : ℤ), g m)).foldlM addMinute h = .error .sumOverflow) := by
  induction ms generalizing h tx gas with
  | nil => exact .inl ⟨fun m hm => absurd hm List.not_mem_nil, h, rfl, htx, hgas⟩
  | cons m ms ih =>
    obtain ⟨hm, hrows⟩ := hms m List.mem_cons_self
    have htx60 : h.txPerMinute.length = 60 := by rw [htx, length_series]
    have hgas60 : h.gasPerMinute.length = 60 := by rw [hgas, length_series]
    rw [List.map_cons, List.foldlM_cons, List.forall_mem_cons]
    rcases addMinute_eq htx60 hgas60 hm hrows with ⟨hfits, h1, hadd, htx1, hgas1⟩ | ⟨hfits, hadd⟩
    swap
    · rw [hadd]
      exact .inr ⟨fun hall => hfits hall.1, rfl⟩
    -- The entries of the minutes still to come are set to the same values, whatever they are.
    have hset : ∀ (value old : ℕ → ℤ),
        (fun i => if i ∈ ms then value i else Function.update old m (value m) i) =
          fun i => if i ∈ m :: ms then value i else old i := by
      intro value old
      funext i
      by_cases him : i = m
      · rw [him, Function.update_self, if_pos List.mem_cons_self, ite_self]
      · rw [Function.update_of_ne him]
        refine if_congr ?_ rfl rfl
        rw [List.mem_cons, or_iff_right him]
    rw [htx, series_set] at htx1
    rw [hgas, series_set] at hgas1
    rw [hadd]
    rcases ih (fun i hi => hms i (List.mem_cons_of_mem m hi)) htx1 hgas1 with
      ⟨hrest, h', hloop, htx', hgas'⟩ | ⟨hrest, hloop⟩
    · rw [hset fun i => ((g i).map BlockRow.txCount).sum] at htx'
      rw [hset fun i => ((g i).map BlockRow.gasUsed).sum] at hgas'
      exact .inl ⟨⟨hfits, hrest⟩, h', hloop, htx', hgas'⟩
    · exact .inr ⟨fun hall => hrest hall.2, hloop⟩

end HourChart

/-! ## The chart -/

section Chart

variable {blocks : List BlockRow}

theorem mem_minutes {newest : ℤ} {rows : List BlockRow}
    (hrows : ∀ b ∈ rows, newest - 3600 < b.timestamp ∧ b.timestamp ≤ newest)
    {g : Option ℤ × List BlockRow} :
    g ∈ groupBy (minuteColumn (some (newest - 3600))) rows ↔
      ∃ m : ℕ, g = (some (m : ℤ), minuteBlocks newest rows m) ∧ m < 60 ∧
        minuteBlocks newest rows m ≠ [] := by
  have hcolumn : ∀ b ∈ rows, minuteColumn (some (newest - 3600)) b = some (bucket newest b) :=
    fun b hb => minuteColumn_eq (hrows b hb).1 (hrows b hb).2
  have hgroup : ∀ m : ℕ, group (minuteColumn (some (newest - 3600))) (some (m : ℤ)) rows =
      minuteBlocks newest rows m := by
    intro m
    refine List.filter_congr fun b hb => ?_
    rw [hcolumn b hb]
    exact decide_eq_decide.mpr Option.some_inj
  rw [mem_groupBy]
  constructor
  · rintro ⟨hg, hg2⟩
    obtain ⟨b, hb, hbg⟩ := List.mem_map.mp hg
    obtain ⟨h0, h60⟩ := bucket_bounds (hrows b hb).1 (hrows b hb).2
    have hcast : ((bucket newest b).toNat : ℤ) = bucket newest b := Int.toNat_of_nonneg h0
    have hg1 : g.1 = some (((bucket newest b).toNat : ℕ) : ℤ) := by
      rw [hcast, ← hbg, hcolumn b hb]
    refine ⟨(bucket newest b).toNat, ?_, ?_, ?_⟩
    · rw [← hgroup, ← hg1, ← hg2]
    · omega
    · exact List.ne_nil_of_mem (mem_group.mpr ⟨hb, hcast.symm⟩)
  · rintro ⟨m, rfl, -, hne⟩
    obtain ⟨b, hb⟩ := List.exists_mem_of_ne_nil _ hne
    obtain ⟨hin, hm⟩ := mem_group.mp hb
    refine ⟨List.mem_map.mpr ⟨b, hin, ?_⟩, (hgroup m).symm⟩
    rw [hcolumn b hin, hm]

theorem mem_minuteRows (hrange : TimesInRange blocks) (ch : Choices) {g : Option ℤ × List BlockRow} :
    g ∈ minuteRows ch blocks ↔
      ∃ m : ℕ, g = (some (m : ℤ), minuteBlocks (newestTime blocks) (ch.order (lastHour blocks)) m) ∧
        m < 60 ∧ minuteBlocks (newestTime blocks) (ch.order (lastHour blocks)) m ≠ [] := by
  cases hmax : (blocks.map BlockRow.timestamp).max? with
  | none =>
    obtain rfl : blocks = [] := List.map_eq_nil_iff.mp (List.max?_eq_none_iff.mp hmax)
    have hnil : ch.order (lastHour []) = [] := (ch.perm _).eq_nil
    refine ⟨fun hg => absurd hg List.not_mem_nil, ?_⟩
    rintro ⟨m, -, -, hne⟩
    rw [hnil] at hne
    exact absurd rfl hne
  | some newest =>
    have hnewest : newestTime blocks = newest := by rw [newestTime, hmax, Option.getD_some]
    have hmem : ∀ b ∈ blocks, b.timestamp ≤ newest := fun b hb =>
      (List.max?_eq_some_iff.mp hmax).2 _ (List.mem_map_of_mem hb)
    have hstart : hourStart newest = some (newest - 3600) := by
      rw [TimesInRange, hnewest] at hrange
      exact IntType.check_of_holds hrange
    have hhour : (blocks.filter fun b => (hourStart newest).elim true (· < b.timestamp)) =
        lastHour blocks := by
      rw [lastHour, hnewest, hstart]
      refine List.filter_congr fun b hb => ?_
      simp only [Option.elim_some, hmem b hb, and_true]
    have hin : ∀ b ∈ ch.order (lastHour blocks),
        newest - 3600 < b.timestamp ∧ b.timestamp ≤ newest := by
      intro b hb
      have hb' := (mem_lastHour.mp ((ch.perm _).mem_iff.mp hb)).2
      rwa [hnewest] at hb'
    rw [minuteRows, hmax]
    simp only [hhour]
    rw [(ch.perm _).mem_iff, hnewest, hstart]
    exact mem_minutes hin

theorem minuteRows_eq (hrange : TimesInRange blocks) (ch : Choices) : ∃ ms : List ℕ,
    minuteRows ch blocks = (ms.map fun m : ℕ =>
      (some (m : ℤ), minuteBlocks (newestTime blocks) (ch.order (lastHour blocks)) m)) ∧
    ∀ m, m ∈ ms ↔
      m < 60 ∧ minuteBlocks (newestTime blocks) (ch.order (lastHour blocks)) m ≠ [] := by
  refine ⟨(minuteRows ch blocks).map fun g => (g.1.getD 0).toNat, ?_, fun m => ?_⟩
  · rw [List.map_map]
    refine (List.map_id _).symm.trans (List.map_congr_left fun g hg => ?_)
    obtain ⟨m, rfl, -⟩ := (mem_minuteRows hrange ch).mp hg
    rfl
  · rw [List.mem_map]
    constructor
    · rintro ⟨g, hg, rfl⟩
      obtain ⟨m, rfl, hm⟩ := (mem_minuteRows hrange ch).mp hg
      exact hm
    · exact fun hm => ⟨_, (mem_minuteRows hrange ch).mpr ⟨m, rfl, hm⟩, rfl⟩

theorem hourChart_charts (hrange : TimesInRange blocks) (ch : Choices) :
    ((∀ m < 60, MinuteFits (minuteBlocks (newestTime blocks) (ch.order (lastHour blocks)) m)) ∧
      ∃ chart, hourChart ch blocks = .ok chart ∧ Charts blocks chart) ∨
    ((¬ ∀ m < 60, MinuteFits (minuteBlocks (newestTime blocks) (ch.order (lastHour blocks)) m)) ∧
      hourChart ch blocks = .error .sumOverflow) := by
  obtain ⟨ms, hrows, hms⟩ := minuteRows_eq hrange ch
  let g := minuteBlocks (newestTime blocks) (ch.order (lastHour blocks))
  -- A minute without blocks has no row: its entry stays the sum of nothing.
  have hempty : ∀ m < 60, m ∉ ms → g m = [] := fun m hm hout =>
    not_not.mp fun hne => hout ((hms m).mpr ⟨hm, hne⟩)
  have hfits : (∀ m ∈ ms, MinuteFits (g m)) ↔ ∀ m < 60, MinuteFits (g m) := by
    constructor
    · intro h m hm
      by_cases hmem : m ∈ ms
      · exact h m hmem
      · have hnil : IntType.i64.Fits [] := fun p hp hne => absurd (List.prefix_nil.mp hp) hne
        rw [hempty m hm hmem]
        exact ⟨hnil, hnil, hnil⟩
    · exact fun h m hm => h m ((hms m).mp hm).1
  have hperm : ∀ m, (g m).Perm (minuteBlocks (newestTime blocks) (lastHour blocks) m) := fun m =>
    (ch.perm _).filter _
  have hsums : ∀ f : BlockRow → ℤ, series 60 (fun m => if m ∈ ms then ((g m).map f).sum else 0) =
      series 60 fun m => ((minuteBlocks (newestTime blocks) (lastHour blocks) m).map f).sum := by
    intro f
    refine series_congr fun m hm => ?_
    rw [← ((hperm m).map f).sum_eq]
    by_cases hmem : m ∈ ms
    · rw [if_pos hmem]
    · rw [if_neg hmem, hempty m hm hmem]
      rfl
  have hstart : HourChart.empty.txPerMinute = series 60 fun _ => 0 := rfl
  rw [← hfits, hourChart, hrows]
  rcases HourChart.foldlM_addMinute (fun m hm => (hms m).mp hm) hstart hstart with
    ⟨hall, chart, hloop, htx, hgas⟩ | ⟨hall, hloop⟩
  · rw [hsums] at htx hgas
    refine .inl ⟨hall, chart, hloop, ⟨?_, ?_, htx, hgas, ?_, ?_⟩⟩
    · intro b hb
      obtain ⟨-, hstart, hend⟩ := mem_lastHour.mp hb
      exact bucket_bounds hstart hend
    · exact lastHour_once blocks
    · rw [htx, sum_minutes]
    · rw [hgas, sum_minutes]
  · exact .inr ⟨hall, hloop⟩

end Chart

/-- **The hour chart counts each block once.** Where the sums of the statements stay in 64 bits, each
block of the hour is in the minute that it was made in, counted back from the newest, and in no other,
and no index is past the end; where one does not, nothing is stored. -/
theorem computeAndStoreStats_charts {db : Database} (hrange : TimesInRange db.blockRows)
    (render : Stats → String) (day hour : Choices) (now : ℤ) (head : ℕ) :
    (SumsFit day hour now db.blockRows → ∃ stats,
      computeAndStoreStats render day hour now head db =
        .ok (stats, db.setKv "stats" (render stats)) ∧ Charts db.blockRows stats.hour) ∧
    (¬ SumsFit day hour now db.blockRows →
      computeAndStoreStats render day hour now head db = .error .sumOverflow) := by
  rcases sqlSum_eq ((day.order (dayBlocks now db.blockRows)).map BlockRow.txCount) with
    ⟨hday, hsum⟩ | ⟨hday, hsum⟩
  swap
  · refine ⟨fun hfit => absurd hfit.day hday, fun _ => ?_⟩
    simp only [computeAndStoreStats, hsum]
    rfl
  rcases hourChart_charts hrange hour with ⟨hminutes, chart, hchart, hshows⟩ | ⟨hminutes, hchart⟩
  · refine ⟨fun _ => ?_, fun hfit => absurd ⟨hday, hminutes⟩ hfit⟩
    simp only [computeAndStoreStats, hsum, hchart, bind, Except.bind]
    exact ⟨_, rfl, hshows⟩
  · refine ⟨fun hfit => absurd hfit.hour hminutes, fun _ => ?_⟩
    simp only [computeAndStoreStats, hsum, hchart]
    rfl

/-! ## Two tables -/

section Sample

def minedAt (timestamp txCount gasUsed : ℤ) : BlockRow where
  hash := []
  parentHash := []
  timestamp
  timestampMs := timestamp * 1000
  gasUsed
  gasLimit := 1000
  baseFee := "0"
  size := 0
  extraData := ""
  epoch := 0
  view := 0
  proposer := []
  miner := []
  txCount

/-- Blocks at and just after the start of the hour, on both sides of a minute's end, and at its end. -/
def busyHour : Database where
  __ := Database.fresh
  blocks := ((((∅ : Keyed ℤ BlockRow).insert 1 (minedAt 1699996400 9 90)).insert 2
    (minedAt 1699996401 1 10)).insert 3 (minedAt 1699999939 2 20)).insert 4 (minedAt 1700000000 7 70)

theorem computeAndStoreStats_charts_busyHour : ∃ stats,
    computeAndStoreStats (fun _ => "") .plain .plain 1700000000 0 busyHour =
      .ok (stats, busyHour.setKv "stats" "") ∧ Charts busyHour.blockRows stats.hour :=
  (computeAndStoreStats_charts (by decide) _ _ _ _ _).1 (by decide)

example : (hourChart .plain busyHour.blockRows).map
    (fun chart => [0, 58, 59].map fun m => chart.txPerMinute[m]?) = .ok [some 1, some 2, some 7] := rfl

/-- Two blocks of a minute, each of as much gas as the column holds. -/
def fullGas : Database where
  __ := Database.fresh
  blocks := ((∅ : Keyed ℤ BlockRow).insert 1 (minedAt 1700000000 1 9223372036854775807)).insert 2
    (minedAt 1700000000 1 9223372036854775807)

theorem computeAndStoreStats_overflow : ¬ ∀ db : Database, TimesInRange db.blockRows →
    ∀ (render : Stats → String) (day hour : Choices) (now : ℤ) (head : ℕ), ∃ out,
      computeAndStoreStats render day hour now head db = .ok out ∧
        Charts db.blockRows out.1.hour := by
  intro h
  obtain ⟨out, hout, -⟩ := h fullGas (by decide) (fun _ => "") .plain .plain 1700000000 0
  have herror : computeAndStoreStats (fun _ => "") .plain .plain 1700000000 0 fullGas =
      .error .sumOverflow := rfl
  exact nomatch herror.symm.trans hout

end Sample

end ChainExplorer
