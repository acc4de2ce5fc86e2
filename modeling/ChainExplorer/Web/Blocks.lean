import ChainExplorer.Lib.Walk
import ChainExplorer.Web.Feed
import ChainExplorer.Web.Listing

/-!
# The block API

The blocks as JSON, a page being 25 heights (`web/api.rs`): a page holds fewer blocks where the
index has gaps, and none at all where the gap is as long.

* `Api.blocks`: one page, and the page after it.
* **`blocks_visited`**: from the first page on the pages lead over every block, newest first.
-/

namespace ChainExplorer

/-- A stored block as it is read. -/
def rowToBlock (e : BlockEvent) : Block where
  number := e.number
  hash := blobHex e.row.hash
  parentHash := blobHex e.row.parentHash
  timestamp := e.row.timestamp
  timestampMs := e.row.timestampMs
  gasUsed := e.row.gasUsed
  gasLimit := e.row.gasLimit
  baseFee := e.row.baseFee
  size := e.row.size
  extraData := e.row.extraData
  epoch := e.row.epoch
  view := e.row.view
  proposer := blobHex e.row.proposer
  miner := blobHex e.row.miner
  txCount := e.row.txCount

/-- The blocks stored, as they are read. -/
def Database.storedBlocks (db : Database) : List Block :=
  db.blocks.entries.map fun e => rowToBlock ⟨e.1, e.2⟩

/-- `(end - per_page + 1).max(0)`. -/
def windowStart (stop : ℤ) : Arith ℤ := do
  let below ← .fit .i64 (stop - perPage.toNat)
  let above ← .fit .i64 (below + 1)
  return max above 0

/-- **A page of 25 heights**, and the page after it. -/
def Api.blocks (db : Database) (query : Query) : Arith (List Block × Option ℤ) := do
  let page := pageParam query
  let before ← .fit .u32 (page.toNat - 1)
  let skipped ← .fit .i64 (before * perPage.toNat)
  let stop ← .fit .i64 (db.getMaxBlockNumber.getD (-1) - skipped)
  let start ← windowStart stop
  let lowest := db.getMinBlockNumber.getD 0
  let items := (db.getBlocksInRange start stop).map rowToBlock
  if lowest < start then do
    let next ← .fit .u32 (page.toNat + 1)
    return (items, some next)
  else return (items, none)

/-! ## One page -/

theorem value_windowStart {stop : ℤ} (h : -9223372036854775783 ≤ stop)
    (h' : stop < 9223372036854775808) : (windowStart stop).value = max (stop - 24) 0 := by
  have hper : (perPage.toNat : ℤ) = 25 := rfl
  have hbelow : (Arith.fit .i64 (stop - 25)).value = stop - 25 :=
    Arith.value_fit (IntType.holds_i64.mpr (by omega))
  have habove : (Arith.fit .i64 (stop - 25 + 1)).value = stop - 25 + 1 :=
    Arith.value_fit (IntType.holds_i64.mpr (by omega))
  simp only [windowStart, Arith.value_bind, hper, hbelow, habove, Arith.value_pure]
  omega

/-- The last height of a page. -/
def pageStop (db : Database) (page : ℤ) : ℤ := db.getMaxBlockNumber.getD (-1) - 25 * (page - 1)

theorem value_blocks {db : Database} {page : ℤ} (h : 1 ≤ page) (h' : page < 4294967296)
    (hstop : -9223372036854775783 ≤ pageStop db page)
    (hmax : db.getMaxBlockNumber.getD (-1) < 9223372036854775808) :
    (Api.blocks db (pageQuery page)).value =
      ((db.getBlocksInRange (max (pageStop db page - 24) 0) (pageStop db page)).map rowToBlock,
        if db.getMinBlockNumber.getD 0 < max (pageStop db page - 24) 0 then
          some (IntType.u32.wrap (page + 1)) else none) := by
  have hpage := pageParam_pageQuery h h'
  have hper : (perPage.toNat : ℤ) = 25 := rfl
  have hbefore : (Arith.fit .u32 (page - 1)).value = page - 1 :=
    Arith.value_fit (IntType.holds_u32.mpr (by omega))
  have hskipped : (Arith.fit .i64 ((page - 1) * 25)).value = (page - 1) * 25 :=
    Arith.value_fit (IntType.holds_i64.mpr (by omega))
  have hlast : (Arith.fit .i64 (db.getMaxBlockNumber.getD (-1) - (page - 1) * 25)).value =
      pageStop db page := by
    unfold pageStop at hstop ⊢
    rw [Arith.value_fit (IntType.holds_i64.mpr (by omega)), mul_comm]
  have hstart : (windowStart (pageStop db page)).value = max (pageStop db page - 24) 0 :=
    value_windowStart hstop (by unfold pageStop; omega)
  simp only [Api.blocks, Arith.value_bind, hpage, hper, hbefore, hskipped, hlast, hstart,
    apply_ite Arith.value, Arith.value_pure]
  split_ifs <;> rfl

theorem mem_getBlocksInRange {db : Database} {start stop : ℤ} {e : BlockEvent} :
    e ∈ db.getBlocksInRange start stop ↔
      (⟨e.number, e.row⟩ : Σ _ : ℤ, BlockRow) ∈ db.blocks.entries ∧
        start ≤ e.number ∧ e.number ≤ stop := by
  rw [Database.getBlocksInRange, (List.perm_insertionSort _ _).mem_iff, List.mem_map]
  constructor
  · rintro ⟨⟨n, row⟩, hmem, rfl⟩
    rw [List.mem_filter, decide_eq_true_iff] at hmem
    exact hmem
  · intro h
    exact ⟨⟨e.number, e.row⟩, List.mem_filter.mpr ⟨h.1, decide_eq_true h.2⟩, rfl⟩

theorem pairwise_getBlocksInRange (db : Database) (start stop : ℤ) :
    (db.getBlocksInRange start stop).Pairwise fun a b => b.number < a.number := by
  have hsorted : (db.getBlocksInRange start stop).Pairwise fun a b => b.number ≤ a.number :=
    List.pairwise_insertionSort (fun a b : BlockEvent => b.number ≤ a.number) _
  have hkeys : ((db.blocks.entries.filter fun e => decide (start ≤ e.1 ∧ e.1 ≤ stop)).map
      Sigma.fst).Nodup :=
    List.Nodup.sublist (List.filter_sublist.map _) db.blocks.nodupKeys
  have hnodup : ((db.getBlocksInRange start stop).map BlockEvent.number).Nodup := by
    refine (((List.perm_insertionSort _ _).map BlockEvent.number).nodup_iff).mpr ?_
    rw [List.map_map]
    exact hkeys
  exact (hsorted.and (List.pairwise_map.mp hnodup)).imp fun {a b} hab =>
    lt_of_le_of_ne hab.1 (Ne.symm hab.2)

/-! ## The walk -/

/-- Where the next page of one is. -/
def nextPage (db : Database) (page : ℤ) : Option ℤ := (Api.blocks db (pageQuery page)).value.2

/-- The blocks of some pages, one page after another. -/
def blocksOn (db : Database) (pages : List ℤ) : List Block :=
  pages.flatMap fun page => (Api.blocks db (pageQuery page)).value.1

/-- The heights a walk ends for. -/
def Walkable (db : Database) : Prop := ∀ n ∈ db.heights, 0 ≤ n ∧ n < 25 * (2 ^ 32 - 1)

namespace Walkable

variable {db : Database} (h : Walkable db)

include h

theorem lowest_nonneg : 0 ≤ db.getMinBlockNumber.getD 0 := by
  cases hlow : db.getMinBlockNumber with
  | none => exact le_rfl
  | some n => exact (h n (Database.getMinBlockNumber_eq_some.mp hlow).1).1

theorem highest_bounds :
    -1 ≤ db.getMaxBlockNumber.getD (-1) ∧ db.getMaxBlockNumber.getD (-1) < 107374182375 := by
  cases htop : db.getMaxBlockNumber with
  | none => decide
  | some n =>
    have hn := h n (Database.getMaxBlockNumber_eq_some.mp htop).1
    simp only [Option.getD_some]
    omega

theorem value_blocks {page : ℤ} (hpage : 1 ≤ page) (hpage' : page < 4294967296) :
    (Api.blocks db (pageQuery page)).value =
      ((db.getBlocksInRange (max (pageStop db page - 24) 0) (pageStop db page)).map rowToBlock,
        if db.getMinBlockNumber.getD 0 < max (pageStop db page - 24) 0 then
          some (IntType.u32.wrap (page + 1)) else none) := by
  have hbounds := h.highest_bounds
  refine ChainExplorer.value_blocks hpage hpage' ?_ (by omega)
  unfold pageStop
  omega

end Walkable

/-- The page that holds the lowest block. -/
def lastPage (db : Database) : ℤ :=
  max (db.getMaxBlockNumber.getD (-1) - db.getMinBlockNumber.getD 0) 0 / 25 + 1

theorem Walkable.follows {db : Database} (h : Walkable db) :
    Follows (nextPage db) 1 (span 1 (lastPage db)) := by
  have hlow := h.lowest_nonneg
  have htop := h.highest_bounds
  have hlast : 1 ≤ lastPage db ∧ lastPage db ≤ 4294967295 := by
    unfold lastPage
    omega
  refine follows_span hlast.1 (fun page hpage hlt => ?_) ?_
  · rw [nextPage, h.value_blocks hpage (by omega)]
    have hmore : db.getMinBlockNumber.getD 0 < max (pageStop db page - 24) 0 := by
      unfold lastPage at hlt
      unfold pageStop
      omega
    simp only [if_pos hmore]
    rw [IntType.wrap_of_holds (IntType.holds_u32.mpr (by omega))]
  · rw [nextPage, h.value_blocks hlast.1 (by omega)]
    have hend : ¬db.getMinBlockNumber.getD 0 < max (pageStop db (lastPage db) - 24) 0 := by
      unfold pageStop lastPage
      omega
    simp only [if_neg hend]

theorem Walkable.mem_blocksOn {db : Database} (h : Walkable db) {b : Block} :
    b ∈ blocksOn db (span 1 (lastPage db)) ↔ b ∈ db.storedBlocks := by
  have hlow := h.lowest_nonneg
  have htop := h.highest_bounds
  have hlast : lastPage db ≤ 4294967295 := by
    unfold lastPage
    omega
  rw [blocksOn, List.mem_flatMap, Database.storedBlocks, List.mem_map]
  constructor
  · rintro ⟨page, hpage, hb⟩
    have hrange := mem_span.mp hpage
    rw [h.value_blocks hrange.1 (by omega)] at hb
    obtain ⟨e, he, rfl⟩ := List.mem_map.mp hb
    exact ⟨⟨e.number, e.row⟩, (mem_getBlocksInRange.mp he).1, rfl⟩
  · rintro ⟨⟨n, row⟩, hmem, rfl⟩
    have hkey : n ∈ db.heights := List.mem_map_of_mem hmem
    obtain ⟨low, hmin⟩ : ∃ low, db.getMinBlockNumber = some low := by
      cases hmin : db.getMinBlockNumber with
      | some low => exact ⟨low, rfl⟩
      | none => exact absurd (List.min?_eq_none_iff.mp hmin ▸ hkey) List.not_mem_nil
    obtain ⟨top, hmax⟩ : ∃ top, db.getMaxBlockNumber = some top := by
      cases hmax : db.getMaxBlockNumber with
      | some top => exact ⟨top, rfl⟩
      | none => exact absurd (List.max?_eq_none_iff.mp hmax ▸ hkey) List.not_mem_nil
    have hge := (Database.getMinBlockNumber_eq_some.mp hmin).2 n hkey
    have hle := (Database.getMaxBlockNumber_eq_some.mp hmax).2 n hkey
    have hn := (h n hkey).1
    have hpage : (top - n) / 25 + 1 ≤ lastPage db := by
      rw [lastPage, hmax, hmin, Option.getD_some, Option.getD_some]
      omega
    refine ⟨(top - n) / 25 + 1, mem_span.mpr ⟨by omega, hpage⟩, ?_⟩
    rw [h.value_blocks (by omega) (by omega)]
    refine List.mem_map.mpr ⟨⟨n, row⟩, mem_getBlocksInRange.mpr ⟨hmem, ?_⟩, rfl⟩
    rw [pageStop, hmax, Option.getD_some]
    show max (top - 25 * ((top - n) / 25 + 1 - 1) - 24) 0 ≤ n ∧
      n ≤ top - 25 * ((top - n) / 25 + 1 - 1)
    omega

theorem Walkable.pairwise_blocksOn {db : Database} (h : Walkable db) :
    (blocksOn db (span 1 (lastPage db))).Pairwise fun a b => b.number < a.number := by
  have hlow := h.lowest_nonneg
  have htop := h.highest_bounds
  have hlast : lastPage db ≤ 4294967295 := by
    unfold lastPage
    omega
  have hvalue : ∀ page ∈ span 1 (lastPage db), (Api.blocks db (pageQuery page)).value.1 =
      (db.getBlocksInRange (max (pageStop db page - 24) 0) (pageStop db page)).map rowToBlock := by
    intro page hpage
    have hrange := mem_span.mp hpage
    rw [h.value_blocks hrange.1 (by omega)]
  rw [blocksOn, List.pairwise_flatMap]
  constructor
  · intro page hpage
    rw [hvalue page hpage, List.pairwise_map]
    exact pairwise_getBlocksInRange db _ _
  · refine (pairwise_span 1 (lastPage db)).imp_of_mem fun {p q} hp hq hlt => ?_
    intro a ha b hb
    rw [hvalue p hp] at ha
    rw [hvalue q hq] at hb
    obtain ⟨e, he, rfl⟩ := List.mem_map.mp ha
    obtain ⟨f, hf, rfl⟩ := List.mem_map.mp hb
    have hge := (mem_getBlocksInRange.mp he).2.1
    have hle := (mem_getBlocksInRange.mp hf).2.2
    unfold pageStop at hge hle
    show f.number < e.number
    omega

/-- **Walking the block API visits every block**: from the first page on the pages end, and over any
walk the stored blocks are there once each, newest first. -/
theorem blocks_visited {db : Database} (h : Walkable db) :
    (∃ pages, Follows (nextPage db) 1 pages) ∧
      ∀ pages, Follows (nextPage db) 1 pages →
        (blocksOn db pages).Pairwise (fun a b => b.number < a.number) ∧
          ∀ b, b ∈ blocksOn db pages ↔ b ∈ db.storedBlocks := by
  refine ⟨⟨_, h.follows⟩, fun pages hpages => ?_⟩
  obtain rfl := hpages.unique h.follows
  exact ⟨h.pairwise_blocksOn, fun b => h.mem_blocksOn⟩

/-- Two blocks with a gap longer than a page between them. -/
def sparse : Database :=
  { Database.fresh with
    blocks := ((∅ : Keyed ℤ BlockRow).insert 3 (blockRow (emptyBundle 3 "0x03").block)).insert 60
      (blockRow (emptyBundle 60 "0x3c").block) }

theorem blocks_visited_sparse : Follows (nextPage sparse) 1 [1, 2, 3] ∧
    (blocksOn sparse [1, 2, 3]).map Block.number = [60, 3] ∧
      ∀ b, b ∈ blocksOn sparse [1, 2, 3] ↔ b ∈ sparse.storedBlocks := by
  have hwalkable : Walkable sparse := by
    have hheights : sparse.heights = [60, 3] := by decide
    rw [Walkable, hheights]
    decide
  have hpages : Follows (nextPage sparse) 1 [1, 2, 3] :=
    .link (by decide) (.link (by decide) (.last (by decide)))
  exact ⟨hpages, by decide, ((blocks_visited hwalkable).2 _ hpages).2⟩

end ChainExplorer
