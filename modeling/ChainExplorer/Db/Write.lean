import ChainExplorer.Db.Schema
import ChainExplorer.Lib.Ledger

/-!
# The writes

The statements and transactions of `db.rs` that change the tables, in the source's order.

* `upsertBlock`, `upsertTransaction`, `insertTransfer`, `insertAnchoring`, `upsertTokenMeta`;
* `adjustBalance`, `applyTransferBalances`, `addToHolderCounts`;
* `writeBlock` and the transaction `saveBlockBundles`;
* `saveGenesisBalances`, `saveTokenMetadata`, `rebuildTokenBalances`, `syncHolderCounts`.

A statement that SQLite refuses gives an error, and the transaction it is in is rolled back.
-/

namespace ChainExplorer

open Ledger (holding isHolding)

/-- What SQLite can refuse here: a second block of one hash, or a sequence that has run out. -/
inductive DbError
  | uniqueBlockHash
  | sequenceFull
deriving DecidableEq, Repr

/-! ## Rows -/

def blockRow (b : Block) : BlockRow where
  hash := hexBlob b.hash
  parentHash := hexBlob b.parentHash
  timestamp := b.timestamp
  timestampMs := b.timestampMs
  gasUsed := b.gasUsed
  gasLimit := b.gasLimit
  baseFee := b.baseFee
  size := b.size
  extraData := b.extraData
  epoch := b.epoch
  view := b.view
  proposer := hexBlob b.proposer
  miner := hexBlob b.miner
  txCount := b.txCount

def txRow (tx : Transaction) : TxRow where
  blockNumber := tx.blockNumber
  position := tx.position
  fromAddr := hexBlob tx.fromAddr
  toAddr := tx.toAddr.map hexBlob
  status := tx.status
  gasUsed := tx.gasUsed
  baseFee := tx.baseFee
  contractAddress := tx.contractAddress.map hexBlob
  feeToken := tx.feeToken.map hexBlob
  feeAmount := tx.feeAmount
  input := tx.input
  raw := tx.raw.map hexBlob
  traceData := tx.traceData
  receiptData := tx.receiptData
  timestamp := tx.timestamp

def transferRow (t : TransferEvent) : TransferRow where
  txHash := hexBlob t.txHash
  tokenAddr := hexBlob t.tokenAddr
  fromAddr := hexBlob t.fromAddr
  toAddr := hexBlob t.toAddr
  amount := t.amount
  timestamp := t.timestamp

def anchoringRow (e : AnchoringEvent) : AnchoringRow where
  txHash := hexBlob e.txHash
  timestamp := e.timestamp
  event := e.event
  registryId := e.registryId
  recordId := e.recordId
  caller := hexBlob e.caller

namespace Database

/-! ## Rows of one block -/

def addToCounter (db : Database) (table : String) (delta : ℤ) : Database :=
  if delta = 0 then db else { db with counters := db.counters.upsert table delta (· + delta) }

/-- Upsert by number. Another block of the same hash is refused. -/
def upsertBlock (db : Database) (b : Block) : Except DbError Database :=
  if db.blocks.entries.any fun e => e.1 ≠ b.number && e.2.hash = hexBlob b.hash then
    .error .uniqueBlockHash
  else .ok { db with blocks := db.blocks.insert b.number (blockRow b) }

/-- A rewrite that carries nothing for a blob keeps what is stored. -/
def coalesce (new old : TxRow) : TxRow :=
  { new with
    raw := new.raw.or old.raw
    traceData := new.traceData.or old.traceData
    receiptData := new.receiptData.or old.receiptData }

def upsertTransaction (db : Database) (tx : Transaction) : Database :=
  { db with
    transactions := db.transactions.upsert (hexBlob tx.hash) (txRow tx) (coalesce (txRow tx)) }

/-- Insert one transfer; `false` when its (block, log index) is already stored. -/
def insertTransfer (ch : Choices) (db : Database) (t : TransferEvent) :
    Except DbError (Database × Bool) :=
  let id := ch.nextId db.transferEvents.seq
  let key := (t.blockNumber, t.logIndex)
  if hmax : id ≤ maxId then
    .ok ({ db with
           transferEvents := db.transferEvents.insertOrIgnore id (ch.lt_nextId _) hmax key
             (transferRow t) },
         !db.transferEvents.has key)
  else .error .sequenceFull

/-- Insert one anchoring write; `false` when its (block, log index) is already stored. -/
def insertAnchoring (db : Database) (e : AnchoringEvent) : Database × Bool :=
  let key := (e.blockNumber, e.logIndex)
  ({ db with anchoringEvents := db.anchoringEvents.insertOrIgnore key (anchoringRow e) },
   !decide (key ∈ db.anchoringEvents))

/-! ## Balances and holder counts -/

/-- An amount as stored; one that is not a number counts as zero. -/
def bigint (s : String) : ℤ := (Numeral.bigInt 10 s.toList).getD 0

/-- Holders of one token: the balance rows that are holdings. -/
def countHolders (db : Database) (token : Bytes) : ℕ :=
  db.tokenBalances.count fun k balance => k.1 = token && holding balance

/-- A new row counts the holders its balances already give it; an existing one keeps its count. -/
def upsertTokenMeta (db : Database) (m : TokenMeta) : Database :=
  let address := hexBlob m.address
  let new : TokenRow :=
    { name := m.name, symbol := m.symbol, decimals := m.decimals, currency := m.currency,
      totalSupply := m.totalSupply, logoUri := "", holderCount := db.countHolders address }
  { db with
    tokenMetadata := db.tokenMetadata.upsert address new fun old =>
      { new with logoUri := old.logoUri, holderCount := old.holderCount } }

/-- Apply a signed delta to one balance, removing the row at zero. Returns the holders the token
gained or lost by it. -/
def adjustBalance (db : Database) (token holder : String) (delta : ℤ) : Database × ℤ :=
  if delta = 0 then (db, 0)
  else
    let key := (hexBlob token, hexBlob holder)
    let current := db.tokenBalances.lookup key
    let wasHolding := isHolding current
    let new := bigint (current.getD "0") + delta
    let isHolding := decide (0 < new)
    let balances :=
      if new = 0 then db.tokenBalances.erase key
      else db.tokenBalances.insert key (toString new)
    ({ db with tokenBalances := balances }, (isHolding.toNat : ℤ) - wasHolding.toNat)

/-- Adjust one balance after another, adding up per token what the holder counts move by. -/
def adjustBalances (db : Database) (moved : Keyed String ℤ) :
    List ((String × String) × ℤ) → Database × Keyed String ℤ
  | [] => (db, moved)
  | ((token, holder), delta) :: rest =>
    let r := db.adjustBalance token holder delta
    adjustBalances r.1 (moved.bump token r.2) rest

def addToHolderCount (db : Database) (token : String) (n : ℤ) : Database :=
  if n = 0 then db
  else
    { db with
      tokenMetadata := db.tokenMetadata.modify (hexBlob token) fun row =>
        { row with holderCount := row.holderCount + n } }

def addToHolderCounts (ch : Choices) (db : Database) (moved : Keyed String ℤ) : Database :=
  (ch.order (Ledger.postings moved)).foldl (fun db p => db.addToHolderCount p.1 p.2) db

/-- The two postings of a transfer, under the addresses as the bundle spells them. -/
def transferPostings (t : TransferEvent) : List ((String × String) × ℤ) :=
  [((t.tokenAddr, t.fromAddr), -bigint t.amount), ((t.tokenAddr, t.toAddr), bigint t.amount)]

/-- Move each token's balances by its transfers, netted per (token, holder), and its holder count
by what the balances did. -/
def applyTransferBalances (ch : Choices) (db : Database) (transfers : List TransferEvent) :
    Database :=
  let deltas := Ledger.net (transfers.flatMap transferPostings)
  let r := db.adjustBalances ∅ (ch.order (Ledger.postings deltas))
  addToHolderCounts ch r.1 r.2

/-! ## The block transaction -/

/-- Insert a block's transfers; the ones that were not stored yet come back. -/
def insertTransfers (ch : Choices) (db : Database) :
    List TransferEvent → Except DbError (Database × List TransferEvent)
  | [] => .ok (db, [])
  | t :: ts => do
    let (db, new) ← db.insertTransfer ch t
    let (db, inserted) ← insertTransfers ch db ts
    return (db, if new then t :: inserted else inserted)

/-- One block's writes. Returns the blocks and transactions it added: a rewrite counts neither the
block nor what it held. -/
def writeBlock (ch : Choices) (db : Database) (bundle : BlockBundle) :
    Except DbError (Database × ℤ × ℤ) := do
  let number := bundle.block.number
  let stored : ℤ := if number ∈ db.blocks then 1 else 0
  let held : ℤ :=
    if bundle.txs.isEmpty then 0
    else db.transactions.count fun _ row => row.blockNumber = number
  let db ← db.upsertBlock bundle.block
  let db := bundle.txs.foldl upsertTransaction db
  let (db, inserted) ← db.insertTransfers ch bundle.transfers
  let db := bundle.anchoring.foldl (fun db e => (db.insertAnchoring e).1) db
  -- Metadata first, so a new token's count is seeded before the transfers below move it.
  let db := bundle.tokens.foldl upsertTokenMeta db
  let db := db.applyTransferBalances ch inserted
  return (db, 1 - stored, max ((bundle.txs.length : ℤ) - held) 0)

/-- Write bundles in the order given, adding up what they added. Every block has its own choices. -/
def writeBlocks (ch : ℕ → Choices) (db : Database) (blocks txs : ℤ) (i : ℕ) :
    List BlockBundle → Except DbError (Database × ℤ × ℤ)
  | [] => .ok (db, blocks, txs)
  | bundle :: rest => do
    let (db, newBlocks, newTxs) ← db.writeBlock (ch i) bundle
    writeBlocks ch db (blocks + newBlocks) (txs + newTxs) (i + 1) rest

/-- Persist several blocks in one transaction. -/
def saveBlockBundles (ch : ℕ → Choices) (db : Database) (bundles : List BlockBundle) :
    Except DbError Database :=
  if bundles.isEmpty then .ok db
  else do
    let (db, blocks, txs) ← db.writeBlocks ch 0 0 0 bundles
    return (db.addToCounter "blocks" blocks).addToCounter "transactions" txs

/-! ## Genesis balances, metadata and the recomputes -/

def genesisCursor : String := "genesis_balances_cursor"

/-- A token and one of its holders, as text. -/
abbrev Holder := String × String

/-- The rows of `saveGenesisBalances`: a balance not stored yet is stored and added to its
holder's. -/
def addGenesisRows (db : Database) (moved : Keyed String ℤ) :
    List (Holder × String) → Database × Keyed String ℤ
  | [] => (db, moved)
  | ((token, holder), balance) :: rest =>
    let key := (hexBlob token, hexBlob holder)
    if key ∈ db.genesisBalances then addGenesisRows db moved rest
    else
      let db := { db with genesisBalances := db.genesisBalances.insert key balance }
      let r := db.adjustBalance token holder (bigint balance)
      addGenesisRows r.1 (moved.bump token r.2) rest

/-- Store the balances not stored yet, add them to their holders', and move the cursor. -/
def saveGenesisBalances (ch : Choices) (db : Database) (balances : List (Holder × String))
    (cursor : ℤ) : Database :=
  let r := db.addGenesisRows ∅ balances
  (addToHolderCounts ch r.1 r.2).setKv genesisCursor (toString cursor)

def saveTokenMetadata (db : Database) (metas : List TokenMeta) : Database :=
  metas.foldl upsertTokenMeta db

/-- Recount one token's holders. -/
def updateHolderCount (db : Database) (token : String) : Database :=
  { db with
    tokenMetadata := db.tokenMetadata.modify (hexBlob token) fun row =>
      { row with holderCount := db.countHolders (hexBlob token) } }

section Keccak

variable [Keccak]

/-- Replay one stored transfer. Addresses go through their text spelling on the way. -/
def replayTransfer (s : Database × List String) (r : TransferRow) : Database × List String :=
  let token := blobAddr r.tokenAddr
  let amount := bigint r.amount
  let db := (s.1.adjustBalance token (blobAddr r.fromAddr) (-amount)).1
  let db := (db.adjustBalance token (blobAddr r.toAddr) amount).1
  (db, s.2.insert token)

/-- Add one stored genesis balance. -/
def replayGenesis (s : Database × List String) (e : Σ _ : HolderKey, String) :
    Database × List String :=
  let token := blobAddr e.1.1
  ((s.1.adjustBalance token (blobAddr e.1.2) (bigint e.2)).1, s.2.insert token)

/-- The stored transfers, in id order. -/
def transferRows (db : Database) : List TransferRow := db.transferEvents.entries.map Entry.row

/-- Rebuild the balances and the holder counts from the transfers, in id order, and the genesis
balances. -/
def rebuildTokenBalances (ch : Choices) (db : Database) : Database :=
  let s := db.transferRows.foldl replayTransfer ({ db with tokenBalances := ∅ }, [])
  let s := (ch.order db.genesisBalances.entries).foldl replayGenesis s
  (ch.order s.2).foldl updateHolderCount s.1

/-- Recount the holders of every token that has balance rows. -/
def syncHolderCounts (ch : Choices) (db : Database) : Database :=
  let tokens := (db.tokenBalances.keys.map Prod.fst).dedup
  ((ch.order tokens).map blobAddr).foldl updateHolderCount db

end Keccak

end Database

end ChainExplorer
