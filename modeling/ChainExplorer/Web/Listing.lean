import ChainExplorer.Lib.Keyed
import ChainExplorer.Lib.Machine
import ChainExplorer.Lib.Numeral

/-!
# Pages of a listing

What every listing is paged by (`web.rs`, `web/api.rs`): the page its query asks for, the pages a
total takes, and the page after one.

* `pageParam`, `totalPages`, `listing`, `nextOf`.
* `pageParam_pageQuery`: the query that asks for a page.
-/

namespace ChainExplorer

/-- The parameters of a request. -/
abbrev Query := Keyed String String

/-- Rows per page, for every listing the explorer serves. -/
def perPage : UInt32 := 25

def parseU32 (s : String) : Option ℕ := Numeral.unsigned 10 4294967295 s.toList

/-- The 1-based page a listing was asked for. -/
def pageParam (query : Query) : UInt32 :=
  UInt32.ofNat (max (((query.lookup "page").bind parseU32).getD 1) 1)

/-- The query that asks for a page. -/
def pageQuery (page : ℤ) : Query := (∅ : Query).insert "page" (toString page)

/-- Pages needed to show `total` rows, never fewer than one. -/
def totalPages (total : ℤ) (perPage : UInt32) : Arith ℤ :=
  .fit .u32 (max ((max total 0 + perPage.toNat - 1) / perPage.toNat) 1)

/-- `total_pages(total as i64, PER_PAGE)`. -/
def totalPagesOf (total : UInt64) : Arith ℤ := do
  let total ← .fit .i64 total.toNat
  totalPages total perPage

/-- One page of rows: a full one may have another after it. -/
def listing {α : Type} (items : List α) (page : UInt32) : Arith (List α × Option ℤ) :=
  if items.length = perPage.toNat then do
    let next ← .fit .u32 (page.toNat + 1)
    return (items, some next)
  else return (items, none)

/-- The page after `page` while `total` rows run past it. -/
def nextOf (page : UInt32) (total : UInt64) : Arith (Option ℤ) := do
  let shown ← .fit .u64 (page.toNat * perPage.toNat)
  if shown < total.toNat then do
    let next ← .fit .u32 (page.toNat + 1)
    return some next
  else return none

example : (nextOf 4 100).value = none ∧ (nextOf 4 101).value = some 5 := by decide

theorem toNat_perPage : perPage.toNat = 25 := rfl

/-- A page is asked for by its number. -/
theorem pageParam_pageQuery {page : ℤ} (h : 1 ≤ page) (h' : page < 4294967296) :
    (pageParam (pageQuery page)).toNat = page := by
  obtain ⟨n, rfl⟩ : ∃ n : ℕ, page = n := ⟨page.toNat, by omega⟩
  have hread : parseU32 (toString (n : ℤ)) = some n := Numeral.unsigned_toString (by omega)
  rw [pageParam, pageQuery, AList.lookup_insert, Option.bind_some, hread, Option.getD_some,
    UInt32.toNat_ofNat', Nat.mod_eq_of_lt (by omega)]
  omega

theorem value_totalPagesOf {total : UInt64} (h : total.toNat ≤ 25 * (2 ^ 32 - 1)) :
    (totalPagesOf total).value = max ((total.toNat + 24) / 25) 1 := by
  have hper : (perPage.toNat : ℤ) = 25 := rfl
  have htotal : (Arith.fit .i64 total.toNat).value = (total.toNat : ℤ) :=
    Arith.value_fit (IntType.holds_i64.mpr (by omega))
  rw [totalPagesOf, Arith.value_bind, htotal, totalPages, hper,
    Arith.value_fit (IntType.holds_u32.mpr (by omega))]
  omega

theorem value_nextOf (page : UInt32) (total : UInt64) : (nextOf page total).value =
    if page.toNat * 25 < total.toNat then some (IntType.u32.wrap (page.toNat + 1)) else none := by
  have hpage := page.toNat_lt
  have hshown : (Arith.fit .u64 (page.toNat * perPage.toNat)).value = (page.toNat * 25 : ℤ) :=
    Arith.value_fit (IntType.holds_u64.mpr (by rw [toNat_perPage]; omega))
  rw [nextOf, Arith.value_bind, hshown]
  by_cases hmore : page.toNat * 25 < total.toNat
  · rw [if_pos (by exact_mod_cast hmore), if_pos hmore]
    rfl
  · rw [if_neg (by exact_mod_cast hmore), if_neg hmore]
    rfl

end ChainExplorer
