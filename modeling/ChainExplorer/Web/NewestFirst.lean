import ChainExplorer.Lib.Paging
import ChainExplorer.Lib.Walk
import ChainExplorer.Web.Listing

/-!
# Ids newest first

What the anchoring contract numbers from 1 is listed from the highest number down
(`anchoring.rs`).

* `newestFirst`: the ids on a page, as a range that is read in reverse.
* **`pageIds_eq`**: a page is a slice of the ids in descending order.
* **`newestFirst_pages`**: the pages side by side are all of them, and the links between the pages
  and the number of pages agree.
-/

namespace ChainExplorer

open Paging

/-- `u64::checked_sub`. -/
def checkedSub (a b : ℤ) : Option ℤ := if b ≤ a then some (a - b) else none

/-- The ids on a 1-based page of `1..=total` listed newest first; `none` past the end. -/
def newestFirst (total page perPage : UInt64) : Arith (Option (ℤ × ℤ)) := do
  let before ← .fit .u64 (page.toNat - 1)
  let skipped ← .fit .u64 (before * perPage.toNat)
  match (checkedSub total.toNat skipped).filter fun id => 0 < id with
  | none => return none
  | some last => do
    let rest ← .fit .u64 (perPage.toNat - 1)
    return some (max (max (last - rest) 0) 1, last)

/-- The ids of a range, from the last to the first. -/
def pageIds (range : Option (ℤ × ℤ)) : List ℤ :=
  match range with
  | some (first, last) => (span first last).reverse
  | none => []

example : pageIds (newestFirst 30 2 25).value = [5, 4, 3, 2, 1] := by decide

/-- The ids on the pages before one. -/
def skipped (page perPage : UInt64) : ℕ := (page.toNat - 1) * perPage.toNat

section Pages

variable {total page perPage : UInt64}

theorem value_newestFirst (hpage : 1 ≤ page.toNat) (hper : 1 ≤ perPage.toNat)
    (hfits : skipped page perPage < 2 ^ 64) :
    (newestFirst total page perPage).value =
      if skipped page perPage < total.toNat then
        some (max ((total.toNat : ℤ) - skipped page perPage - perPage.toNat + 1) 1,
          (total.toNat : ℤ) - skipped page perPage)
      else none := by
  have hbefore : (Arith.fit .u64 (page.toNat - 1)).value = (page.toNat - 1 : ℤ) :=
    Arith.value_fit (IntType.holds_u64.mpr ⟨by omega, by have := page.toNat_lt; omega⟩)
  have hskipped : (Arith.fit .u64 ((page.toNat - 1) * perPage.toNat : ℤ)).value =
      skipped page perPage := by
    have hcast : ((page.toNat - 1) * perPage.toNat : ℤ) = skipped page perPage := by
      rw [skipped, Nat.cast_mul, Nat.cast_sub hpage, Nat.cast_one]
    rw [hcast]
    exact Arith.value_fit (IntType.holds_u64.mpr (by omega))
  have hrest : (Arith.fit .u64 (perPage.toNat - 1)).value = (perPage.toNat - 1 : ℤ) :=
    Arith.value_fit (IntType.holds_u64.mpr ⟨by omega, by have := perPage.toNat_lt; omega⟩)
  simp only [newestFirst, Arith.value_bind, hbefore, hskipped]
  generalize skipped page perPage = skipped
  by_cases hlt : skipped < total.toNat
  · have hlast : (checkedSub total.toNat skipped).filter (fun id => 0 < id) =
        some (total.toNat - skipped : ℤ) := by
      rw [checkedSub, if_pos (by omega), Option.filter_some, if_pos (decide_eq_true (by omega))]
    rw [hlast, if_pos hlt]
    simp only [Arith.value_bind, hrest, Arith.value_pure]
    congr 2
    omega
  · have hnone : (checkedSub total.toNat skipped).filter (fun id => 0 < id) = none := by
      rw [checkedSub]
      split_ifs with hle
      · rw [Option.filter_some, if_neg (by simpa using by omega)]
      · rfl
    rw [hnone, if_neg hlt]
    rfl

/-- All the ids, newest first. -/
def descendingIds (total : UInt64) : List ℤ := (span 1 total.toNat).reverse

/-- **A page is a slice of the ids in descending order.** -/
theorem pageIds_eq (hpage : 1 ≤ page.toNat) (hper : 1 ≤ perPage.toNat)
    (hfits : skipped page perPage < 2 ^ 64) :
    pageIds (newestFirst total page perPage).value =
      ((descendingIds total).drop (skipped page perPage)).take perPage.toNat := by
  rw [value_newestFirst hpage hper hfits]
  generalize skipped page perPage = skipped
  rw [descendingIds, drop_reverse_span, take_reverse_span]
  by_cases hlt : skipped < total.toNat
  · rw [if_pos hlt, pageIds]
    congr 2
    omega
  · rw [if_neg hlt, pageIds, span_of_lt (by omega)]
    rfl

theorem flatMap_pageIds {k : ℕ} (hper : 1 ≤ perPage.toNat) (hk : k < 2 ^ 64)
    (hfits : (k - 1) * perPage.toNat < 2 ^ 64) :
    ((List.range k).flatMap fun i =>
        pageIds (newestFirst total (UInt64.ofNat (i + 1)) perPage).value) =
      (descendingIds total).take (k * perPage.toNat) := by
  rw [← flatMap_pages]
  refine List.flatMap_congr fun i hi => ?_
  have hik := List.mem_range.mp hi
  have hnat : (UInt64.ofNat (i + 1)).toNat = i + 1 := by
    rw [UInt64.toNat_ofNat', Nat.mod_eq_of_lt (by omega)]
  have hle : i * perPage.toNat ≤ (k - 1) * perPage.toNat := Nat.mul_le_mul_right _ (by omega)
  have hskipped : skipped (UInt64.ofNat (i + 1)) perPage = i * perPage.toNat := by
    rw [skipped, hnat, Nat.add_sub_cancel]
  rw [pageIds_eq (by omega) hper (by omega), hskipped]

/-- How many pages there are. -/
def pageCount (total perPage : ℕ) : ℕ := (total + perPage - 1) / perPage

theorem le_pageCount_iff {total perPage page : ℕ} (hper : 1 ≤ perPage) (hpage : 1 ≤ page) :
    page ≤ pageCount total perPage ↔ (page - 1) * perPage < total := by
  rw [pageCount, Nat.le_div_iff_mul_le hper, Nat.sub_mul, Nat.one_mul]
  have hle : perPage ≤ page * perPage := Nat.le_mul_of_pos_left _ hpage
  omega

theorem pageIds_ne_nil_iff (hpage : 1 ≤ page.toNat) (hper : 1 ≤ perPage.toNat)
    (hfits : skipped page perPage < 2 ^ 64) :
    pageIds (newestFirst total page perPage).value ≠ [] ↔
      page.toNat ≤ pageCount total.toNat perPage.toNat := by
  rw [le_pageCount_iff hper hpage, value_newestFirst hpage hper hfits, ← skipped]
  generalize skipped page perPage = skipped
  by_cases hlt : skipped < total.toNat
  · rw [if_pos hlt, pageIds, ne_eq, List.reverse_eq_nil_iff, ← List.length_eq_zero_iff, length_span]
    omega
  · rw [if_neg hlt]
    exact iff_of_false (fun hne => hne rfl) hlt

end Pages

/-! ## The links between pages -/

/-- Where the next page of one is. -/
def nextOfPage (total : UInt64) (page : ℤ) : Option ℤ :=
  (nextOf (pageParam (pageQuery page)) total).value

theorem value_nextOf_eq {total : UInt64} (htotal : total.toNat < 25 * (2 ^ 32 - 1)) (page : UInt32) :
    (nextOf page total).value =
      if pageIds (newestFirst total (UInt64.ofNat (page.toNat + 1)) perPage.toUInt64).value ≠ [] then
        some (page.toNat + 1 : ℤ) else none := by
  have hpage := page.toNat_lt
  have hper : perPage.toUInt64.toNat = 25 := rfl
  have hnat : (UInt64.ofNat (page.toNat + 1)).toNat = page.toNat + 1 := by
    rw [UInt64.toNat_ofNat', Nat.mod_eq_of_lt (by omega)]
  have hskipped : skipped (UInt64.ofNat (page.toNat + 1)) perPage.toUInt64 = page.toNat * 25 := by
    rw [skipped, hnat, hper, Nat.add_sub_cancel]
  have hmore : pageIds (newestFirst total (UInt64.ofNat (page.toNat + 1)) perPage.toUInt64).value ≠
      [] ↔ page.toNat * 25 < total.toNat := by
    rw [pageIds_ne_nil_iff (by omega) (by omega) (by omega), le_pageCount_iff (by omega) (by omega),
      ← skipped, hskipped]
  rw [value_nextOf]
  by_cases hlt : page.toNat * 25 < total.toNat
  · rw [if_pos hlt, if_pos (hmore.mpr hlt), IntType.wrap_of_holds (IntType.holds_u32.mpr (by omega))]
  · rw [if_neg hlt, if_neg (mt hmore.mp hlt)]

theorem follows_nextOf {total : UInt64} (htotal : total.toNat < 25 * (2 ^ 32 - 1)) :
    Follows (nextOfPage total) 1 (span 1 (totalPagesOf total).value) := by
  rw [value_totalPagesOf htotal.le]
  have hvalue : ∀ page : ℤ, 1 ≤ page → page < 4294967296 → nextOfPage total page =
      if page * 25 < total.toNat then some (IntType.u32.wrap (page + 1)) else none := by
    intro page h h'
    rw [nextOfPage, value_nextOf, pageParam_pageQuery h h']
    by_cases hlt : page * 25 < total.toNat
    · rw [if_pos hlt, if_pos (by have := pageParam_pageQuery h h'; omega)]
    · rw [if_neg hlt, if_neg (by have := pageParam_pageQuery h h'; omega)]
  refine follows_span (by omega) (fun page hpage hlt => ?_) ?_
  · rw [hvalue page hpage (by omega), if_pos (by omega),
      IntType.wrap_of_holds (IntType.holds_u32.mpr (by omega))]
  · rw [hvalue _ (by omega) (by omega), if_neg (by omega)]

/-- **The pages newest first**, of any length: side by side they are the ids from the last to the
first; one holds an id up to the last page; and with 25 ids on a page the next one of each and the
number of pages agree with them. -/
theorem newestFirst_pages {total perPage : UInt64} (hper : 1 ≤ perPage.toNat) :
    (∀ k < 2 ^ 64, (k - 1) * perPage.toNat < 2 ^ 64 →
      ((List.range k).flatMap fun i =>
          pageIds (newestFirst total (UInt64.ofNat (i + 1)) perPage).value) =
        (descendingIds total).take (k * perPage.toNat)) ∧
      ((List.range (pageCount total.toNat perPage.toNat)).flatMap fun i =>
          pageIds (newestFirst total (UInt64.ofNat (i + 1)) perPage).value) = descendingIds total ∧
      (∀ page : UInt64, 1 ≤ page.toNat → skipped page perPage < 2 ^ 64 →
        (pageIds (newestFirst total page perPage).value ≠ [] ↔
          page.toNat ≤ pageCount total.toNat perPage.toNat)) ∧
      (total.toNat < 25 * (2 ^ 32 - 1) →
        (∀ page : UInt32, (nextOf page total).value =
          if pageIds (newestFirst total (UInt64.ofNat (page.toNat + 1))
              ChainExplorer.perPage.toUInt64).value ≠ [] then
            some (page.toNat + 1 : ℤ) else none) ∧
        Follows (nextOfPage total) 1 (span 1 (totalPagesOf total).value)) := by
  have htotal := total.toNat_lt
  refine ⟨fun k hk hfits => flatMap_pageIds hper hk hfits, ?_,
    fun page hpage hfits => pageIds_ne_nil_iff hpage hper hfits,
    fun hsmall => ⟨value_nextOf_eq hsmall, follows_nextOf hsmall⟩⟩
  have hceil : total.toNat ≤ pageCount total.toNat perPage.toNat * perPage.toNat := by
    have hdiv := Nat.div_add_mod (total.toNat + perPage.toNat - 1) perPage.toNat
    have hmod := Nat.mod_lt (total.toNat + perPage.toNat - 1) hper
    rw [pageCount, Nat.mul_comm]
    omega
  have hcount : pageCount total.toNat perPage.toNat ≤ total.toNat := by
    rcases Nat.eq_zero_or_pos total.toNat with hzero | hpos
    · rw [hzero, pageCount, Nat.zero_add, Nat.div_eq_of_lt (by omega)]
    · by_contra hlt
      have hpast : (total.toNat + 1 - 1) * perPage.toNat < total.toNat :=
        (le_pageCount_iff hper (by omega)).mp (not_le.mp hlt)
      have hle := Nat.le_mul_of_pos_right total.toNat hper
      rw [Nat.add_sub_cancel] at hpast
      omega
  have hfits : (pageCount total.toNat perPage.toNat - 1) * perPage.toNat < 2 ^ 64 := by
    rcases Nat.eq_zero_or_pos (pageCount total.toNat perPage.toNat) with hzero | hpos
    · rw [hzero, Nat.zero_sub, Nat.zero_mul]
      omega
    · exact ((le_pageCount_iff hper hpos).mp le_rfl).trans htotal
  rw [flatMap_pageIds hper (by omega) hfits, List.take_of_length_le]
  rw [descendingIds, List.length_reverse, length_span]
  omega

theorem newestFirst_pages_seven :
    ((List.range 3).flatMap fun i => pageIds (newestFirst 7 (UInt64.ofNat (i + 1)) 3).value) =
        [7, 6, 5, 4, 3, 2, 1] ∧
      Follows (nextOfPage 7) 1 [1] := by
  obtain ⟨-, hall, -, hlinks⟩ := @newestFirst_pages 7 3 (by decide)
  exact ⟨hall, (hlinks (by decide)).2⟩

end ChainExplorer
