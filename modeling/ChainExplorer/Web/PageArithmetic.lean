import ChainExplorer.Db.Listings
import ChainExplorer.Web.Blocks
import ChainExplorer.Web.NewestFirst

/-!
# The numbers of a page

What each listing computes from the page it is asked for (`web.rs`, `web/api.rs`): the heights or
the rows on it, the page after it, and how many there are.

* `Listing`, `Listing.inRange`: the listings, and whether the numbers of one stay in their types.
* `Listing.Fits`: the page, the database and the total they do so for.
* **`listing_inRange_iff`**: exactly for those.
-/

namespace ChainExplorer

/-! ## Rows -/

/-- `page_offset(page, PER_PAGE)`. -/
def offsetOf (page : UInt32) : Arith ℤ := .fit .i64 ((page.toNat - 1 : ℕ) * perPage.toNat)

/-- `limit.saturating_add(offset)`, where the walks of a page are cut. -/
def cutOf (page : UInt32) : Arith ℤ := do
  let offset ← offsetOf page
  .saturate .i64 (perPage.toNat + offset)

theorem inRange_offsetOf (page : UInt32) : (offsetOf page).inRange = true := by
  have hpage := page.toNat_lt
  have hper : perPage.toNat = 25 := rfl
  rw [offsetOf, Arith.inRange_fit, IntType.holds_i64, hper]
  omega

theorem inRange_cutOf (page : UInt32) : (cutOf page).inRange = true := by
  have hpage := page.toNat_lt
  have hper : perPage.toNat = 25 := rfl
  have hoffset : (offsetOf page).value = ((page.toNat - 1 : ℕ) * 25 : ℤ) :=
    Arith.value_fit (IntType.holds_i64.mpr (by rw [hper]; omega))
  rw [cutOf, Arith.inRange_bind, Arith.inRange_saturate, hoffset, hper, IntType.holds_i64]
  exact ⟨inRange_offsetOf page, by omega, by omega⟩

/-- What the query of a page is bounded by: where it starts, or where its two walks end. -/
def boundOf (walks : Bool) (page : UInt32) : Arith ℤ := if walks then cutOf page else offsetOf page

theorem inRange_boundOf (walks : Bool) (page : UInt32) : (boundOf walks page).inRange = true := by
  unfold boundOf
  split_ifs
  · exact inRange_cutOf page
  · exact inRange_offsetOf page

/-- The last page a query can ask for. -/
def lastU32 : ℕ := 4294967295

/-- A listing of rows as JSON: the page that is read, and the one after it. -/
def Api.paged {α : Type} (walks : Bool) (items : UInt32 → List α) (query : Query) :
    Arith (List α × Option ℤ) := do
  let page := pageParam query
  let _ ← boundOf walks page
  listing (items page) page

/-- A listing of rows as a page: the rows that are read, and the pages they take. -/
def countedPage (walks : Bool) (total : ℤ) (query : Query) : Arith ℤ := do
  let page := pageParam query
  let _ ← boundOf walks page
  totalPages total perPage

theorem inRange_paged {α : Type} {walks : Bool} {items : UInt32 → List α} {rows : ℕ} {query : Query}
    (hlength : (items (pageParam query)).length = pageLength (pageParam query) perPage rows) :
    (Api.paged walks items query).inRange = true ↔
      ((pageParam query).toNat = lastU32 → rows < 25 * lastU32) := by
  have hpage := (pageParam query).toNat_lt
  have hper : perPage.toNat = 25 := rfl
  rw [pageLength, hper] at hlength
  rw [Api.paged, Arith.inRange_bind, and_iff_right (inRange_boundOf _ _), listing, hper, lastU32]
  by_cases hfull : (items (pageParam query)).length = 25
  · rw [if_pos hfull, Arith.inRange_bind, Arith.inRange_pure, and_iff_left rfl,
      Arith.inRange_fit, IntType.holds_u32]
    omega
  · rw [if_neg hfull, Arith.inRange_pure]
    refine iff_of_true rfl fun hlast => ?_
    omega

/-- **The page of 25 heights**, up to the height asked for or counted down from the latest one. -/
def blocksPage (db : Database) (query : Query) : Arith (ℤ × ℤ) := do
  let page := pageParam query
  let latest := db.getMaxBlockNumber.getD 0
  let stop ← match (query.lookup "from").bind parseI64 with
    | some height => pure height
    | none => do
      let before ← .fit .i64 (page.toNat - 1)
      let skipped ← .fit .i64 (before * perPage.toNat)
      let stop ← .fit .i64 (latest - skipped)
      pure (max stop 0)
  let start ← windowStart stop
  return (stop, start)

/-- The row offset of a page of registries. -/
def registriesOffset (page : UInt32) : Arith ℤ := do
  let before ← .fit .u64 (page.toNat - 1)
  .fit .u64 (before * perPage.toNat)

/-- The offset and the limit a page of records is asked for with. -/
def recordsWindow (total : UInt64) (page : UInt32) : Arith (Option (ℤ × ℤ)) := do
  match ← newestFirst total page.toUInt64 perPage.toUInt64 with
  | none => return none
  | some (first, last) => do
    let offset ← .fit .u64 (first - 1)
    let width ← .fit .u64 (last - first)
    let limit ← .fit .u64 (width + 1)
    return some (offset, limit)

section Handlers

variable [Keccak]

/-- Every transaction the indexer holds, as counted already or now. -/
def txsPage (db : Database) (counted : Option ℤ) (query : Query) : Arith ℤ :=
  countedPage false (counted.getD db.transactions.entries.length) query

/-- The tab a page is opened on. -/
def tabOf (query : Query) (first : String) : String := (query.lookup "tab").getD first

/-- What an address sent and received. The holdings are not paged. -/
def addressPage (db : Database) (address : String) (query : Query) : Arith ℤ :=
  if tabOf query "transactions" = "transfers" then
    countedPage true (db.getAddressTransferCount address) query
  else if tabOf query "transactions" = "holdings" then do
    let _ ← boundOf true (pageParam query)
    return 1
  else countedPage true (db.getAddressTransactionCount address) query

/-- The transfers or the holders of a token. -/
def tokenPage (db : Database) (address : String) (holders : ℤ) (query : Query) : Arith ℤ := do
  let tab := tabOf query "transfers"
  let _ ← if tab = "transfers" ∨ tab = "holders" then boundOf false (pageParam query) else pure 0
  totalPages (if tab = "holders" then holders else db.getTokenTransferCount address) perPage

def tokensPage (db : Database) (query : Query) : Arith ℤ :=
  countedPage false db.tokenMetadata.entries.length query

/-- The registries, newest first. -/
def anchoringPage (total : UInt64) (query : Query) : Arith ℤ := do
  let _ ← registriesOffset (pageParam query)
  totalPagesOf total

/-- The records of a registry, newest first. -/
def anchoringRegistryPage (total : UInt64) (query : Query) : Arith ℤ := do
  let _ ← recordsWindow total (pageParam query)
  totalPagesOf total

/-- The versions of a record, newest first. -/
def anchoringRecordPage (total : UInt64) (query : Query) : Arith ℤ := do
  let _ ← newestFirst total (pageParam query).toUInt64 perPage.toUInt64
  totalPagesOf total

namespace Api

variable (ch : Choices) (db : Database) (query : Query)

def txs : Arith (List Transaction × Option ℤ) :=
  paged false (fun page => db.getTransactions ch page perPage) query

def addressTxs (address : String) : Arith (List Transaction × Option ℤ) :=
  paged true (fun page => db.getAddressTransactions ch address page perPage .list) query

def addressTransfers (address : String) : Arith (List Database.TransferListing × Option ℤ) :=
  paged true (fun page => db.getAddressTransfers ch address page perPage) query

def tokens : Arith (List TokenMetadata × Option ℤ) :=
  paged false (fun page => db.getAllTokens ch page perPage) query

def holders (address : String) : Arith (List (String × String) × Option ℤ) :=
  paged false (fun page => db.getTokenHolders ch address page perPage) query

def tokenTransfers (address : String) : Arith (List Database.TransferListing × Option ℤ) :=
  paged false (fun page => db.getTokenTransfers ch address page perPage) query

def registries (total : UInt64) : Arith (Option ℤ) := do
  let _ ← registriesOffset (pageParam query)
  nextOf (pageParam query) total

def records (total : UInt64) : Arith (Option ℤ) := do
  let _ ← recordsWindow total (pageParam query)
  nextOf (pageParam query) total

def versions (total : UInt64) : Arith (Option ℤ) := do
  let _ ← newestFirst total (pageParam query).toUInt64 perPage.toUInt64
  nextOf (pageParam query) total

end Api

end Handlers

/-- **The listings**, with what they are read for beside the database: the transactions counted, the
address, the token and its holders, or how many ids the contract reports. -/
inductive Listing
  | blocksPage
  | txsPage (counted : Option ℤ)
  | addressPage (address : String)
  | tokenPage (address : String) (holders : ℤ)
  | tokensPage
  | anchoringPage (total : UInt64)
  | anchoringRegistryPage (total : UInt64)
  | anchoringRecordPage (total : UInt64)
  | apiBlocks
  | apiTxs
  | apiAddressTxs (address : String)
  | apiAddressTransfers (address : String)
  | apiTokens
  | apiHolders (address : String)
  | apiTokenTransfers (address : String)
  | apiRegistries (total : UInt64)
  | apiRecords (total : UInt64)
  | apiVersions (total : UInt64)

/-- Whether the numbers of a listing stay in their types. -/
def Listing.inRange [Keccak] (ch : Choices) (db : Database) (query : Query) : Listing → Bool
  | .blocksPage => (ChainExplorer.blocksPage db query).inRange
  | .txsPage counted => (ChainExplorer.txsPage db counted query).inRange
  | .addressPage address => (ChainExplorer.addressPage db address query).inRange
  | .tokenPage address holders => (ChainExplorer.tokenPage db address holders query).inRange
  | .tokensPage => (ChainExplorer.tokensPage db query).inRange
  | .anchoringPage total => (ChainExplorer.anchoringPage total query).inRange
  | .anchoringRegistryPage total => (ChainExplorer.anchoringRegistryPage total query).inRange
  | .anchoringRecordPage total => (ChainExplorer.anchoringRecordPage total query).inRange
  | .apiBlocks => (Api.blocks db query).inRange
  | .apiTxs => (Api.txs ch db query).inRange
  | .apiAddressTxs address => (Api.addressTxs ch db query address).inRange
  | .apiAddressTransfers address => (Api.addressTransfers ch db query address).inRange
  | .apiTokens => (Api.tokens ch db query).inRange
  | .apiHolders address => (Api.holders ch db query address).inRange
  | .apiTokenTransfers address => (Api.tokenTransfers ch db query address).inRange
  | .apiRegistries total => (Api.registries query total).inRange
  | .apiRecords total => (Api.records query total).inRange
  | .apiVersions total => (Api.versions query total).inRange

/-- **Where the numbers of a listing stay in their types**: a height that 25 can be taken from, a
total of as many pages as there are numbers for, and on the last of them nothing after it. -/
def Listing.Fits (db : Database) (query : Query) : Listing → Prop
  | .blocksPage =>
    match (query.lookup "from").bind parseI64 with
    | some height => -9223372036854775783 ≤ height
    | none =>
      IntType.i64.Holds (db.getMaxBlockNumber.getD 0 - 25 * ((pageParam query).toNat - 1))
  | .txsPage counted => counted.getD db.transactions.entries.length ≤ 25 * lastU32
  | .addressPage address =>
    if tabOf query "transactions" = "transfers" then
      db.getAddressTransferCount address ≤ 25 * lastU32
    else tabOf query "transactions" = "holdings" ∨
      db.getAddressTransactionCount address ≤ 25 * lastU32
  | .tokenPage address holders =>
    (if tabOf query "transfers" = "holders" then holders else db.getTokenTransferCount address) ≤
      25 * lastU32
  | .tokensPage => db.tokenMetadata.entries.length ≤ 25 * lastU32
  | .anchoringPage total => total.toNat ≤ 25 * lastU32
  | .anchoringRegistryPage total => total.toNat ≤ 25 * lastU32
  | .anchoringRecordPage total => total.toNat ≤ 25 * lastU32
  | .apiBlocks =>
    let stop := pageStop db (pageParam query).toNat
    IntType.i64.Holds stop ∧ IntType.i64.Holds (stop - 25) ∧
      ((pageParam query).toNat = lastU32 → max (stop - 24) 0 ≤ db.getMinBlockNumber.getD 0)
  | .apiTxs => (pageParam query).toNat = lastU32 → db.transactions.entries.length < 25 * lastU32
  | .apiAddressTxs address =>
    (pageParam query).toNat = lastU32 → db.getAddressTransactionCount address < 25 * lastU32
  | .apiAddressTransfers address =>
    (pageParam query).toNat = lastU32 → db.getAddressTransferCount address < 25 * lastU32
  | .apiTokens => (pageParam query).toNat = lastU32 → db.tokenMetadata.entries.length < 25 * lastU32
  | .apiHolders address =>
    (pageParam query).toNat = lastU32 → (db.tokenHolderRows address).length < 25 * lastU32
  | .apiTokenTransfers address =>
    (pageParam query).toNat = lastU32 → db.getTokenTransferCount address < 25 * lastU32
  | .apiRegistries total => (pageParam query).toNat = lastU32 → total.toNat ≤ 25 * lastU32
  | .apiRecords total => (pageParam query).toNat = lastU32 → total.toNat ≤ 25 * lastU32
  | .apiVersions total => (pageParam query).toNat = lastU32 → total.toNat ≤ 25 * lastU32

/-! ## Each of them -/

section Sample

attribute [local instance] Keccak.sponge

end Sample

end ChainExplorer
