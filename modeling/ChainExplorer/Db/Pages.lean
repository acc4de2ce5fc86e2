import Mathlib.Data.Prod.Lex
import ChainExplorer.Lib.Decimal
import ChainExplorer.Lib.Paging
import ChainExplorer.Db.Writer
import ChainExplorer.Parse

/-!
# Pages of the listings

The address pages (`db.rs`): what an address sent and what it received, each read down its own index
and cut at the page's end, then merged; and the holders of a token, ordered by the text of their
balances.

* `getAddressTransactions`, `getAddressTransfers`: one page.
* `addressTransactions`, `addressTransfers`: the plain query, without pages.
* **`addressPages_exact`**: a page is the slice of the plain query, exactly as long as its offset is
  a number of 64 bits.
* **`tokenHolders_listed`**: the pages of a token's holders list them by the number of their balance.
-/

namespace ChainExplorer

open Paging
open Ledger (holding holding_toString)

/-- Row offset of a 1-based page, in 64 bits. -/
def pageOffset (page perPage : UInt32) : ℤ := wrapI64 ((page.toNat - 1) * perPage.toNat : ℕ)

/-- `i64::saturating_add`. -/
def saturatingAdd (a b : ℤ) : ℤ := max (-(2 ^ 63)) (min (2 ^ 63 - 1) (a + b))

/-- What a listing is paged by: a row, and where it is on the chain. -/
structure PageRow (ι : Type) where
  ref : ι
  block : ℤ
  index : ℤ

/-- Newest first is descending in this. -/
def PageRow.key {ι : Type} (r : PageRow ι) : ℤ ×ₗ ℤ := toLex (r.block, r.index)

/-- The rows of one page: two walks, each cut at the page's end, then merged. -/
def twoWalks {ι : Type} (ch : Choices) (sent received : List (PageRow ι)) (limit offset : ℤ) :
    List (PageRow ι) :=
  let walk := fun rows => limitOffset (saturatingAdd limit offset) 0
    (orderDesc PageRow.key (ch.order rows))
  limitOffset limit offset (orderDesc PageRow.key (walk sent ++ walk received))

/-- The rows of a page joined to their table, in the page's order. -/
def joinPage {ι ρ : Type} (get : ι → Option ρ) (page : List (PageRow ι)) : List ρ :=
  (orderDesc (fun p => p.1.key)
    (page.filterMap fun r => (get r.ref).map fun row => (r, row))).map Prod.snd

/-- Which columns a transaction read carries. -/
inductive TxColumns
  | list
  | full
deriving DecidableEq

namespace Database

/-! ## Transactions of an address -/

/-- A transaction and its hash, as stored. -/
abbrev TxEntry := Σ _ : Bytes, TxRow

def txPageRow (e : TxEntry) : PageRow Bytes := ⟨e.1, e.2.blockNumber, e.2.position⟩

section Keccak

variable [Keccak]

/-- A transaction as it is read. A listing leaves the three blobs out. -/
def rowToTx (columns : TxColumns) (e : TxEntry) : Transaction where
  hash := blobHex e.1
  blockNumber := e.2.blockNumber
  position := e.2.position
  fromAddr := blobAddr e.2.fromAddr
  toAddr := e.2.toAddr.map blobAddr
  status := e.2.status
  gasUsed := e.2.gasUsed
  baseFee := e.2.baseFee
  contractAddress := e.2.contractAddress.map blobAddr
  feeToken := e.2.feeToken.map blobAddr
  feeAmount := e.2.feeAmount
  input := e.2.input
  raw := if columns = .full then e.2.raw.map blobHex else none
  traceData := if columns = .full then e.2.traceData else none
  receiptData := if columns = .full then e.2.receiptData else none
  timestamp := e.2.timestamp

/-- **One page of an address's transactions**, newest first. A transaction to itself is read once,
as sent. -/
def getAddressTransactions (ch : Choices) (db : Database) (address : String)
    (page perPage : UInt32) (columns : TxColumns) : List Transaction :=
  let me := hexBlob address
  let sent := db.transactions.entries.filter fun e => e.2.fromAddr = me
  let received := db.transactions.entries.filter fun e =>
    e.2.toAddr = some me ∧ e.2.fromAddr ≠ me
  let page := twoWalks ch (sent.map txPageRow) (received.map txPageRow) perPage.toNat
    (pageOffset page perPage)
  (joinPage (fun hash => (db.transactions.lookup hash).map fun row => (⟨hash, row⟩ : TxEntry))
    page).map (rowToTx columns)

/-- Every transaction an address sent or received. -/
def getAddressTransactionCount (db : Database) (address : String) : ℕ :=
  (db.transactions.entries.filter fun e =>
    e.2.fromAddr = hexBlob address ∨ e.2.toAddr = some (hexBlob address)).length

/-- The plain query: all of them, newest first. -/
def addressTransactions (db : Database) (address : String) (columns : TxColumns) :
    List Transaction :=
  (orderDesc (fun e => (txPageRow e).key) (db.transactions.entries.filter fun e =>
    e.2.fromAddr = hexBlob address ∨ e.2.toAddr = some (hexBlob address))).map (rowToTx columns)

/-! ## Transfers of an address -/

/-- A transfer as it is stored. -/
abbrev TransferEntry := Entry LogKey TransferRow

def transferPageRow (e : TransferEntry) : PageRow ℤ := ⟨e.id, e.key.1, e.key.2⟩

/-- A transfer and the fields of its transaction the listings show. -/
structure TransferListing where
  id : ℤ
  transfer : TransferEvent
  txFrom : String
  txTo : Option String
  txTimestamp : ℤ
  txStatus : ℤ
deriving DecidableEq

def rowToTransfer (e : TransferEntry) : TransferEvent where
  txHash := blobHex e.row.txHash
  blockNumber := e.key.1
  logIndex := e.key.2
  tokenAddr := blobAddr e.row.tokenAddr
  fromAddr := blobAddr e.row.fromAddr
  toAddr := blobAddr e.row.toAddr
  amount := e.row.amount
  timestamp := e.row.timestamp

/-- Where the transaction is not stored, the transfer's own values stand in. -/
def rowToTransferJson (db : Database) (e : TransferEntry) : TransferListing :=
  let transfer := rowToTransfer e
  match db.transactions.lookup e.row.txHash with
  | some tx =>
    ⟨e.id, transfer, blobAddr tx.fromAddr, tx.toAddr.map blobAddr, tx.timestamp, tx.status⟩
  | none =>
    ⟨e.id, transfer, transfer.fromAddr, some transfer.toAddr, transfer.timestamp, 1⟩

/-- **One page of an address's transfers**, newest first. A transfer to itself is read once. -/
def getAddressTransfers (ch : Choices) (db : Database) (address : String)
    (page perPage : UInt32) : List TransferListing :=
  let me := hexBlob address
  let sent := db.transferEvents.entries.filter fun e => e.row.fromAddr = me
  let received := db.transferEvents.entries.filter fun e =>
    e.row.toAddr = me ∧ e.row.fromAddr ≠ me
  let page := twoWalks ch (sent.map transferPageRow) (received.map transferPageRow) perPage.toNat
    (pageOffset page perPage)
  (joinPage (fun id => db.transferEvents.entries.find? fun e => e.id = id) page).map
    (rowToTransferJson db)

/-- Every transfer an address sent or received. -/
def getAddressTransferCount (db : Database) (address : String) : ℕ :=
  (db.transferEvents.entries.filter fun e =>
    e.row.fromAddr = hexBlob address ∨ e.row.toAddr = hexBlob address).length

/-- The plain query: all of them, newest first. -/
def addressTransfers (db : Database) (address : String) : List TransferListing :=
  (orderDesc (fun e => (transferPageRow e).key) (db.transferEvents.entries.filter fun e =>
    e.row.fromAddr = hexBlob address ∨ e.row.toAddr = hexBlob address)).map (rowToTransferJson db)

/-! ## Two walks are one query -/

section Walks

variable {ι ρ : Type} {row : ρ → PageRow ι} {get : ι → Option ρ} {rows : List ρ}

omit [Keccak] in
theorem joinPage_map {l : List ρ} (hget : ∀ e ∈ l, get (row e).ref = some e)
    (hsorted : l.Pairwise fun a b => (row b).key ≤ (row a).key) : joinPage get (l.map row) = l := by
  have hjoin : ((l.map row).filterMap fun r => (get r.ref).map fun e => (r, e)) =
      l.map fun e => (row e, e) := by
    rw [List.filterMap_map, ← List.filterMap_eq_map]
    refine List.filterMap_congr fun e he => ?_
    simp only [Function.comp_apply, hget e he, Option.map_some]
  have hordered : (l.map fun e => (row e, e)).Pairwise fun a b => b.1.key ≤ a.1.key :=
    List.pairwise_map.mpr hsorted
  rw [joinPage, hjoin, orderDesc_eq_self hordered, List.map_map]
  exact List.map_id l

omit [Keccak] in
/-- **A page from two walks is that page of the plain query**, where the walks are cut at or past
its end. -/
theorem joinPage_twoWalks (ch : Choices) (hkeys : (rows.map fun e => (row e).key).Nodup)
    (hget : ∀ e ∈ rows, get (row e).ref = some e) (sent received : ρ → Prop) [DecidablePred sent]
    [DecidablePred received] {limit offset : ℤ} (hlimit : 0 ≤ limit)
    (hcut : saturatingAdd limit offset < 0 ∨ limit + max offset 0 ≤ saturatingAdd limit offset ∨
      (rows.filter fun e => sent e ∨ received e).length ≤ saturatingAdd limit offset) :
    joinPage get (twoWalks ch ((rows.filter fun e => sent e).map row)
        ((rows.filter fun e => received e ∧ ¬sent e).map row) limit offset) =
      limitOffset limit offset (orderDesc (fun e => (row e).key)
        (rows.filter fun e => sent e ∨ received e)) := by
  set xs := ch.order ((rows.filter fun e => sent e).map row) with hxs
  set ys := ch.order ((rows.filter fun e => received e ∧ ¬sent e).map row) with hys
  set all := rows.filter fun e => sent e ∨ received e with hall
  have hperm : (xs ++ ys).Perm (all.map row) := by
    have h := (filter_or_perm sent received rows).map row
    rw [List.map_append] at h
    exact ((ch.perm _).append (ch.perm _)).trans h
  have hallKeys : ((all.map row).map PageRow.key).Nodup := by
    rw [List.map_map]
    exact hkeys.sublist (List.filter_sublist.map _)
  have hnodup : ((xs ++ ys).map PageRow.key).Nodup := ((hperm.map _).nodup_iff).mpr hallKeys
  have hrows : orderDesc PageRow.key (all.map row) =
      (orderDesc (fun e => (row e).key) all).map row := by
    refine (List.map_insertionSort _ _ row all ?_).symm
    intro a _ b _
    exact Iff.rfl
  have hwalks : twoWalks ch ((rows.filter fun e => sent e).map row)
      ((rows.filter fun e => received e ∧ ¬sent e).map row) limit offset =
        (limitOffset limit offset (orderDesc (fun e => (row e).key) all)).map row := by
    simp only [twoWalks, ← hxs, ← hys]
    rw [← List.length_map row, ← hperm.length_eq, List.length_append] at hcut
    rw [limitOffset_walks hnodup hlimit (by exact_mod_cast hcut), orderDesc_congr hallKeys hperm, hrows,
      limitOffset_of_nonneg hlimit, limitOffset_of_nonneg hlimit, List.map_take, List.map_drop]
  have hsub : (limitOffset limit offset (orderDesc (fun e => (row e).key) all)).Sublist
      (orderDesc (fun e => (row e).key) all) := by
    rw [limitOffset_of_nonneg hlimit]
    exact (List.take_sublist _ _).trans (List.drop_sublist _ _)
  rw [hwalks]
  refine joinPage_map (fun e he => hget e ?_) ((pairwise_orderDesc _ all).sublist hsub)
  exact List.mem_of_mem_filter ((mem_orderDesc _).mp (hsub.subset he))

end Walks

end Keccak

end Database

/-! ## The offset of a page -/

/-- The offset of a page is a number of 64 bits. -/
def PageFits (page perPage : UInt32) : Prop := (page.toNat - 1) * perPage.toNat < 2 ^ 63

theorem pageOffset_of_fits {page perPage : UInt32} (h : PageFits page perPage) :
    pageOffset page perPage = ((page.toNat - 1) * perPage.toNat : ℕ) :=
  wrapI64_of_lt h

/-- An offset past 64 bits comes out negative, by more than any limit. -/
theorem pageOffset_of_not_fits {page perPage : UInt32} (h : ¬PageFits page perPage) :
    pageOffset page perPage + 2 ^ 32 < 0 := by
  have hpage : page.toNat ≤ 2 ^ 32 - 1 := Nat.le_sub_one_of_lt page.toNat_lt
  have hper : perPage.toNat ≤ 2 ^ 32 - 1 := Nat.le_sub_one_of_lt perPage.toNat_lt
  have hle : (page.toNat - 1) * perPage.toNat ≤ (2 ^ 32 - 2) * (2 ^ 32 - 1) :=
    Nat.mul_le_mul (by omega) hper
  have hge : 2 ^ 63 ≤ (page.toNat - 1) * perPage.toNat := not_lt.mp h
  generalize hn : (page.toNat - 1) * perPage.toNat = n at hle hge
  have hwrap : pageOffset page perPage = (n : ℤ) - 2 ^ 64 := by
    have hmod := Int.sub_bmod_right (n : ℤ) (2 ^ 64)
    rw [pageOffset, hn, wrapI64, ← hmod, Int.bmod_eq_of_le]
    · rfl
    · push_cast
      omega
    · push_cast
      omega
  rw [hwrap]
  omega

/-- The rows of one page of a list. -/
def pageSlice {α : Type} (page perPage : UInt32) (l : List α) : List α :=
  (l.drop ((page.toNat - 1) * perPage.toNat)).take perPage.toNat

/-- **The pages of a listing are the slices of a list**, as long as their offsets are numbers of 64
bits; side by side, they are the list, which names no row twice. -/
structure PagesExact {α : Type} (page : UInt32 → List α) (perPage : UInt32) (full : List α) :
    Prop where
  /-- Whatever the number of rows, where the end of the page is a number of 64 bits too. -/
  slice : ∀ p : UInt32, (p.toNat - 1) * perPage.toNat + perPage.toNat < 2 ^ 63 →
    page p = pageSlice p perPage full
  /-- Of as many rows as a table can hold. -/
  exact : full.length < 2 ^ 63 → ∀ p, page p = pageSlice p perPage full ↔
    PageFits p perPage ∨ full = []
  once : full.Nodup
  all : ∀ k < 2 ^ 32, k * perPage.toNat < 2 ^ 63 → full.length ≤ k * perPage.toNat →
    ((List.range k).flatMap fun i => page (UInt32.ofNat (i + 1))) = full

theorem pagesExact {α : Type} {page : UInt32 → List α} {perPage : UInt32} {full : List α}
    (hper : 0 < perPage) (honce : full.Nodup)
    (hpage : ∀ p, (saturatingAdd perPage.toNat (pageOffset p perPage) < 0 ∨
        perPage.toNat + max (pageOffset p perPage) 0 ≤
          saturatingAdd perPage.toNat (pageOffset p perPage) ∨
        full.length ≤ saturatingAdd perPage.toNat (pageOffset p perPage)) →
      page p = limitOffset perPage.toNat (pageOffset p perPage) full) :
    PagesExact page perPage full := by
  have hsize : 0 < perPage.toNat := hper
  have hlimit : (0 : ℤ) ≤ perPage.toNat := Int.natCast_nonneg _
  have hfits : ∀ p, PageFits p perPage → limitOffset perPage.toNat (pageOffset p perPage) full =
      pageSlice p perPage full := by
    intro p h
    rw [pageOffset_of_fits h, limitOffset_of_nonneg hlimit, Int.toNat_natCast, Int.toNat_natCast,
      pageSlice]
  have hslice : ∀ p : UInt32, (p.toNat - 1) * perPage.toNat + perPage.toNat < 2 ^ 63 →
      page p = pageSlice p perPage full := by
    intro p h
    have hp : PageFits p perPage := (Nat.le_add_right _ _).trans_lt h
    rw [hpage p, hfits p hp]
    rw [pageOffset_of_fits hp, saturatingAdd]
    omega
  refine ⟨hslice, fun hrows p => ?_, honce, fun k hk hend hall => ?_⟩
  · by_cases hp : PageFits p perPage
    · refine iff_of_true ?_ (.inl hp)
      rw [hpage p, hfits p hp]
      rw [pageOffset_of_fits hp, saturatingAdd]
      omega
    · have hneg := pageOffset_of_not_fits hp
      have hlt := perPage.toNat_lt
      have hfirst : page p = full.take perPage.toNat := by
        rw [hpage p, limitOffset_of_nonneg hlimit, Int.toNat_natCast,
          Int.toNat_of_nonpos (by omega), List.drop_zero]
        rw [saturatingAdd]
        omega
      have hskip : 0 < (p.toNat - 1) * perPage.toNat := by
        have hge := not_lt.mp hp
        omega
      constructor
      · intro heq
        refine .inr ?_
        by_contra hne
        exact take_drop_ne_take honce hskip hsize hne (heq.symm.trans hfirst)
      · rintro (h | rfl)
        · exact absurd h hp
        · rw [hfirst, pageSlice, List.take_nil, List.drop_nil, List.take_nil]
  · have hpages : ∀ i ∈ List.range k,
        page (UInt32.ofNat (i + 1)) = (full.drop (i * perPage.toNat)).take perPage.toNat := by
      intro i hi
      have hik : i + 1 ≤ k := List.mem_range.mp hi
      have hnat : (UInt32.ofNat (i + 1)).toNat = i + 1 := by
        rw [UInt32.toNat_ofNat', Nat.mod_eq_of_lt (by omega)]
      have hle : (i + 1) * perPage.toNat ≤ k * perPage.toNat := Nat.mul_le_mul_right _ hik
      rw [hslice, pageSlice, hnat, Nat.add_sub_cancel]
      rw [hnat, Nat.add_sub_cancel, ← Nat.succ_mul]
      exact hle.trans_lt hend
    rw [List.flatMap_congr hpages, flatMap_pages, List.take_of_length_le hall]

theorem twoWalks_pagesExact {ι ρ β : Type} {row : ρ → PageRow ι} {get : ι → Option ρ}
    {rows : List ρ} (ch : Choices) (hkeys : (rows.map fun e => (row e).key).Nodup)
    (hget : ∀ e ∈ rows, get (row e).ref = some e) (sent received : ρ → Prop) [DecidablePred sent]
    [DecidablePred received] {view : ρ → β} (hview : (rows.map view).Nodup) {perPage : UInt32}
    (hper : 0 < perPage) :
    PagesExact (fun page => (joinPage get (twoWalks ch ((rows.filter fun e => sent e).map row)
        ((rows.filter fun e => received e ∧ ¬sent e).map row) perPage.toNat
        (pageOffset page perPage))).map view) perPage
      ((orderDesc (fun e => (row e).key) (rows.filter fun e => sent e ∨ received e)).map view) := by
  have hlimit : (0 : ℤ) ≤ perPage.toNat := Int.natCast_nonneg _
  refine pagesExact hper ?_ fun page hcut => ?_
  · have hperm := (orderDesc_perm (fun e => (row e).key)
      (rows.filter fun e => sent e ∨ received e)).map view
    exact hperm.nodup_iff.mpr (hview.sublist (List.filter_sublist.map view))
  · rw [List.length_map, length_orderDesc] at hcut
    have hjoin := Database.joinPage_twoWalks ch hkeys hget sent received hlimit hcut
    refine (congrArg (List.map view) hjoin).trans ?_
    rw [limitOffset_of_nonneg hlimit, limitOffset_of_nonneg hlimit, List.map_take, List.map_drop]

/-! ## The address pages -/

namespace Database

theorem nodup_entries {υ κ : Type} (t : Keyed κ υ) : t.entries.Nodup :=
  List.Nodup.of_map Sigma.fst t.nodupKeys

theorem find?_id {t : SeqTable LogKey TransferRow} {e : TransferEntry} (he : e ∈ t.entries) :
    (t.entries.find? fun e' => e'.id = e.id) = some e := by
  have hids : (t.entries.map Entry.id).Nodup :=
    List.pairwise_map.mpr (t.ids.imp fun h => h.ne)
  cases hfind : t.entries.find? fun e' => e'.id = e.id with
  | none =>
    have hnot := List.find?_eq_none.mp hfind e he
    exact absurd (decide_eq_true rfl) hnot
  | some e' =>
    have hmem := List.mem_of_find?_eq_some hfind
    have hid : e'.id = e.id := by simpa using List.find?_some hfind
    exact congrArg some (List.inj_on_of_nodup_map hids hmem he hid)

section Keccak

variable [Keccak]

theorem nodup_rowToTx (db : Database) (columns : TxColumns) :
    (db.transactions.entries.map (rowToTx columns)).Nodup := by
  have hblob : Function.Injective blobHex := fun a b h => by
    rw [← hexBlob_blobHex a, ← hexBlob_blobHex b, h]
  have hhashes : ((db.transactions.entries.map (rowToTx columns)).map Transaction.hash).Nodup := by
    rw [List.map_map]
    have hkeys := db.transactions.nodupKeys.map hblob
    rw [List.keys, List.map_map] at hkeys
    exact hkeys
  exact hhashes.of_map

theorem nodup_rowToTransferJson (db : Database) :
    (db.transferEvents.entries.map (rowToTransferJson db)).Nodup := by
  have hid : ∀ e : TransferEntry, (rowToTransferJson db e).id = e.id := by
    intro e
    unfold rowToTransferJson
    cases db.transactions.lookup e.row.txHash <;> rfl
  have hids : ((db.transferEvents.entries.map (rowToTransferJson db)).map
      TransferListing.id).Nodup := by
    have hsame : (db.transferEvents.entries.map (TransferListing.id ∘ rowToTransferJson db)) =
        db.transferEvents.entries.map Entry.id := List.map_congr_left fun e _ => hid e
    rw [List.map_map, hsame]
    exact List.pairwise_map.mpr (db.transferEvents.ids.imp fun h => h.ne)
  exact hids.of_map

/-- **The pages of an address are exact**: those of its transactions and those of its transfers. -/
theorem addressPages_exact (ch : Choices) (db : Database)
    (hkeys : (db.transactions.entries.map fun e => (e.2.blockNumber, e.2.position)).Nodup)
    (address : String) {perPage : UInt32} (hper : 0 < perPage) (columns : TxColumns) :
    PagesExact (fun page => getAddressTransactions ch db address page perPage columns) perPage
        (addressTransactions db address columns) ∧
      PagesExact (fun page => getAddressTransfers ch db address page perPage) perPage
        (addressTransfers db address) ∧
      (addressTransactions db address columns).length = getAddressTransactionCount db address ∧
      (addressTransfers db address).length = getAddressTransferCount db address := by
  refine ⟨?_, ?_, ?_, ?_⟩
  · have hplaces : (db.transactions.entries.map fun e => (txPageRow e).key).Nodup := by
      have h := hkeys.map toLex.injective
      rw [List.map_map] at h
      exact h
    refine twoWalks_pagesExact ch hplaces (fun e he => ?_) _ _ (nodup_rowToTx db columns) hper
    have hlookup : db.transactions.lookup e.1 = some e.2 := Keyed.mem_entries_iff.mp he
    show (db.transactions.lookup e.1).map _ = some e
    rw [hlookup]
    rfl
  · have hplaces : (db.transferEvents.entries.map fun e => (transferPageRow e).key).Nodup := by
      have h := db.transferEvents.keys.map toLex.injective
      rw [List.map_map] at h
      exact h
    exact twoWalks_pagesExact ch hplaces (fun e he => find?_id he) _ _
      (nodup_rowToTransferJson db) hper
  · rw [addressTransactions, List.length_map, length_orderDesc]
    rfl
  · rw [addressTransfers, List.length_map, length_orderDesc]
    rfl

end Keccak

section Holders

variable [Keccak]

/-! ## Holders of a token -/

/-- Balances are decimal texts: the longer is the larger, and of one length the later. -/
def balanceKey (balance : String) : ℕ ×ₗ String := toLex (balance.length, balance)

/-- A holder and its balance as they are read. -/
def rowToHolder (e : Σ _ : HolderKey, String) : String × String := (blobAddr e.1.2, e.2)

/-- The plain query: a token's holders and their balances, largest first. Which of several equal
balances comes first is left to the index it walks, the same one for every page. -/
def tokenHolders (ch : Choices) (db : Database) (tokenAddr : String) : List (String × String) :=
  let rows := db.tokenBalances.entries.filter fun e => e.1.1 = hexBlob tokenAddr && holding e.2
  (orderDesc (fun e => balanceKey e.2) (ch.order rows)).map rowToHolder

/-- **One page of a token's holders**, largest first. -/
def getTokenHolders (ch : Choices) (db : Database) (tokenAddr : String) (page perPage : UInt32) :
    List (String × String) :=
  let rows := db.tokenBalances.entries.filter fun e => e.1.1 = hexBlob tokenAddr && holding e.2
  (limitOffset perPage.toNat (pageOffset page perPage)
    (orderDesc (fun e => balanceKey e.2) (ch.order rows))).map rowToHolder

omit [Keccak] in
/-- The order of positive decimals is that of the numbers. -/
theorem le_of_balanceKey_le {m n : ℤ} (hm : 0 < m) (hn : 0 < n)
    (h : balanceKey (toString m) ≤ balanceKey (toString n)) : m ≤ n := by
  obtain ⟨m, rfl⟩ := Int.eq_ofNat_of_zero_le hm.le
  obtain ⟨n, rfl⟩ := Int.eq_ofNat_of_zero_le hn.le
  by_contra hlt
  have hlt : n < m := by exact_mod_cast not_le.mp hlt
  exact absurd h (not_le.mpr (Decimal.repr_lt_repr hlt))

theorem mem_tokenHolders {ch : Choices} {db : Database} (h : db.Balanced) {tokenAddr : String}
    {addr balance : String} : (addr, balance) ∈ tokenHolders ch db tokenAddr ↔
      ∃ holder : Bytes, ∃ n : ℤ, addr = blobAddr holder ∧ 0 < n ∧ balance = toString n ∧
        db.tokenBalances.lookup (hexBlob tokenAddr, holder) = some balance := by
  have hrow : ∀ holder text, db.tokenBalances.lookup (hexBlob tokenAddr, holder) = some text →
      ∃ n : ℤ, n ≠ 0 ∧ text = toString n := by
    intro holder text htext
    rw [h (hexBlob tokenAddr, holder), Ledger.rowOf] at htext
    split_ifs at htext with hzero
    exact ⟨_, hzero, (Option.some.inj htext).symm⟩
  simp only [tokenHolders, List.mem_map, mem_orderDesc, (ch.perm _).mem_iff, List.mem_filter,
    Bool.and_eq_true, decide_eq_true_eq]
  constructor
  · rintro ⟨e, ⟨he, htoken, hholding⟩, heq⟩
    obtain ⟨rfl, rfl⟩ := Prod.mk.inj heq
    have hlookup : db.tokenBalances.lookup (hexBlob tokenAddr, e.1.2) = some e.2 := by
      rw [← htoken]
      exact Keyed.mem_entries_iff.mp he
    obtain ⟨n, hn, htext⟩ := hrow _ _ hlookup
    rw [htext, holding_toString hn, decide_eq_true_eq] at hholding
    exact ⟨_, n, rfl, hholding, htext, hlookup⟩
  · rintro ⟨holder, n, haddr, hn, hbalance, hlookup⟩
    refine ⟨⟨(hexBlob tokenAddr, holder), balance⟩, ⟨Keyed.mem_entries_iff.mpr hlookup, rfl, ?_⟩, ?_⟩
    · rw [hbalance, holding_toString hn.ne', decide_eq_true_eq]
      exact hn
    · rw [haddr, rowToHolder]

theorem nodup_tokenHolders (ch : Choices) (db : Database) (tokenAddr : String) :
    ((tokenHolders ch db tokenAddr).map Prod.fst).Nodup := by
  have hview : ∀ rows : List (Σ _ : HolderKey, String), rows.Nodup →
      (∀ e ∈ rows, ∀ e' ∈ rows, e.1.2 = e'.1.2 → e = e') →
        ((rows.map rowToHolder).map Prod.fst).Nodup := by
    intro rows hnodup hholder
    rw [List.map_map]
    refine List.Nodup.map_on (fun e he e' he' heq => hholder e he e' he' ?_) hnodup
    simp only [Function.comp_apply, rowToHolder] at heq
    exact blobAddr_injective heq
  have hsame := (orderDesc_perm (fun e : Σ _ : HolderKey, String => balanceKey e.2) (ch.order
    (db.tokenBalances.entries.filter fun e => e.1.1 = hexBlob tokenAddr && holding e.2))).trans
      (ch.perm _)
  refine hview _ ?_ ?_
  · exact hsame.nodup_iff.mpr ((nodup_entries _).filter _)
  · intro e he e' he' hholder
    have hrow := List.mem_filter.mp (hsame.mem_iff.mp he)
    have hrow' := List.mem_filter.mp (hsame.mem_iff.mp he')
    simp only [Bool.and_eq_true, decide_eq_true_eq] at hrow hrow'
    have hkey : e.1 = e'.1 := Prod.ext (hrow.2.1.trans hrow'.2.1.symm) hholder
    exact List.inj_on_of_nodup_map db.tokenBalances.nodupKeys hrow.1 hrow'.1 hkey

/-- **Holders are listed by number.** In every database reached, the pages side by side list exactly
the holders whose balance is a positive integer, each once, in descending order of the number. -/
theorem tokenHolders_listed {db : Database} (h : writers.Reachable db) (ch : Choices)
    (tokenAddr : String) {perPage : UInt32} (hper : 0 < perPage) :
    PagesExact (fun page => getTokenHolders ch db tokenAddr page perPage) perPage
        (tokenHolders ch db tokenAddr) ∧
      (∀ addr balance, (addr, balance) ∈ tokenHolders ch db tokenAddr ↔
        ∃ holder : Bytes, ∃ n : ℤ, addr = blobAddr holder ∧ 0 < n ∧ balance = toString n ∧
          db.tokenBalances.lookup (hexBlob tokenAddr, holder) = some balance) ∧
      ((tokenHolders ch db tokenAddr).map Prod.fst).Nodup ∧
      (tokenHolders ch db tokenAddr).Pairwise fun p q => bigint q.2 ≤ bigint p.2 := by
  have hbalanced : db.Balanced := (consistent_of_reachable h).balanced
  have honce := nodup_tokenHolders ch db tokenAddr
  refine ⟨pagesExact hper honce.of_map fun page _ => ?_, fun addr balance =>
    mem_tokenHolders hbalanced, honce, ?_⟩
  · have hlimit : (0 : ℤ) ≤ perPage.toNat := Int.natCast_nonneg _
    simp only [getTokenHolders, tokenHolders]
    rw [limitOffset_of_nonneg hlimit, limitOffset_of_nonneg hlimit, List.map_take, List.map_drop]
  · have hsorted : (tokenHolders ch db tokenAddr).Pairwise fun p q =>
        balanceKey q.2 ≤ balanceKey p.2 := by
      rw [tokenHolders, List.pairwise_map]
      exact pairwise_orderDesc (fun e : Σ _ : HolderKey, String => balanceKey e.2) _
    refine hsorted.imp_of_mem fun {p q} hp hq hle => ?_
    obtain ⟨_, m, -, hm, hpm, -⟩ := (mem_tokenHolders hbalanced).mp hp
    obtain ⟨_, n, -, hn, hqn, -⟩ := (mem_tokenHolders hbalanced).mp hq
    have hread : ∀ z : ℤ, bigint (toString z) = z := Ledger.read_toString
    rw [hpm, hqn] at hle ⊢
    rw [hread, hread]
    exact le_of_balanceKey_le hn hm hle

end Holders

/-! ## Three transactions and four transfers -/

section Sample

attribute [local instance] Keccak.sponge

def otherHolder : String := "0x3333333333333333333333333333333333333333"

def listedTx (hash : String) (position : ℤ) (src : String) (dst : Option String) : Transaction where
  hash := hash
  blockNumber := 1
  position := position
  fromAddr := src
  toAddr := dst
  status := 1
  gasUsed := 21000
  baseFee := "0x0"
  contractAddress := none
  feeToken := none
  feeAmount := "0"
  input := "0x"
  raw := none
  traceData := none
  receiptData := none
  timestamp := 0

/-- The holder sends to itself, creates a contract and is sent to. It is left with 10, the other with
9. -/
def listedBundle : BlockBundle where
  block := mintBlock
  txs := [listedTx "0x0a" 0 sampleHolder (some sampleHolder), listedTx "0x0b" 1 sampleHolder none,
    listedTx "0x0c" 2 otherHolder (some sampleHolder)]
  transfers := [{ mint with amount := "12" },
    { mint with logIndex := 1, fromAddr := sampleHolder, toAddr := otherHolder, amount := "3" },
    { mint with logIndex := 2, fromAddr := otherHolder, toAddr := sampleHolder, amount := "1" },
    { mint with logIndex := 3, toAddr := otherHolder, amount := "7" }]
  anchoring := []
  tokens := [sampleMeta]

def listed : Database := fresh.attempt (.saveBlockBundles (fun _ => .plain) [listedBundle]) false

theorem listed_reachable : writers.Reachable listed :=
  .step (a := (.saveBlockBundles (fun _ => .plain) [listedBundle], false)) (.start rfl) trivial rfl

theorem listed_keys :
    (listed.transactions.entries.map fun e => (e.2.blockNumber, e.2.position)).Nodup := by
  decide +kernel

/-- Two pages of both listings. -/
theorem addressPages_exact_listed :
    ((getAddressTransactions .plain listed sampleHolder 1 2 .list).map Transaction.hash =
        ["0x0c", "0x0b"] ∧
      (getAddressTransactions .plain listed sampleHolder 2 2 .list).map Transaction.hash =
        ["0x0a"] ∧
      getAddressTransactionCount listed sampleHolder = 3 ∧
      getAddressTransferCount listed sampleHolder = 3) ∧
    PagesExact (fun page => getAddressTransactions .plain listed sampleHolder page 2 .list) 2
        (addressTransactions listed sampleHolder .list) ∧
      PagesExact (fun page => getAddressTransfers .plain listed sampleHolder page 2) 2
        (addressTransfers listed sampleHolder) ∧
      (addressTransactions listed sampleHolder .list).length =
        getAddressTransactionCount listed sampleHolder ∧
      (addressTransfers listed sampleHolder).length =
        getAddressTransferCount listed sampleHolder :=
  ⟨by decide +kernel, addressPages_exact .plain listed listed_keys sampleHolder (by decide) .list⟩

/-- Ten comes before nine. -/
theorem tokenHolders_listed_two :
    ((tokenHolders .plain listed sampleToken).map Prod.snd = ["10", "9"] ∧
      (getTokenHolders .plain listed sampleToken 2 1).map Prod.snd = ["9"]) ∧
    PagesExact (fun page => getTokenHolders .plain listed sampleToken page 1) 1
        (tokenHolders .plain listed sampleToken) ∧
      (∀ addr balance, (addr, balance) ∈ tokenHolders .plain listed sampleToken ↔
        ∃ holder : Bytes, ∃ n : ℤ, addr = blobAddr holder ∧ 0 < n ∧ balance = toString n ∧
          listed.tokenBalances.lookup (hexBlob sampleToken, holder) = some balance) ∧
      ((tokenHolders .plain listed sampleToken).map Prod.fst).Nodup ∧
      (tokenHolders .plain listed sampleToken).Pairwise fun p q => bigint q.2 ≤ bigint p.2 :=
  ⟨by decide +kernel, tokenHolders_listed listed_reachable .plain sampleToken (by decide)⟩

/-- **An offset past 64 bits starts over**: the last page there can be asked for, of the longest
pages there can be, holds the transactions of the first one. -/
theorem addressTransactions_overflow : ¬ ∀ (db : Database) (address : String)
    (page perPage : UInt32) (columns : TxColumns),
    (db.transactions.entries.map fun e => (e.2.blockNumber, e.2.position)).Nodup → 0 < perPage →
      getAddressTransactions .plain db address page perPage columns =
        pageSlice page perPage (addressTransactions db address columns) := by
  intro hall
  have h := hall listed sampleHolder 4294967295 4294967295 .list listed_keys (by decide)
  have hfirst : (getAddressTransactions .plain listed sampleHolder 4294967295 4294967295 .list).length
      = 3 := by
    decide +kernel
  have hslice : (pageSlice 4294967295 4294967295
      (addressTransactions listed sampleHolder .list)).length = 0 := by
    decide +kernel
  rw [h, hslice] at hfirst
  exact absurd hfirst nofun

end Sample

end Database

end ChainExplorer
