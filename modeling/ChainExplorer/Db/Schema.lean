import ChainExplorer.Address
import ChainExplorer.Models
import ChainExplorer.Lib.Keyed
import ChainExplorer.Lib.SeqTable

/-!
# The database

The tables of `init_db` (`db.rs`), each under its primary or unique key, with hashes and addresses
stored as bytes.

* `Database`, `Database.fresh`: the tables, and what `init_db` leaves of a new file.
* `Choices`: what the program leaves to its hash maps and to SQLite. Every iteration over a map, a
  set or an unordered query is some permutation of its content, and an `AUTOINCREMENT` id is some
  number above every earlier one.
-/

namespace ChainExplorer

structure BlockRow where
  hash : Bytes
  parentHash : Bytes
  timestamp : ℤ
  timestampMs : ℤ
  gasUsed : ℤ
  gasLimit : ℤ
  baseFee : String
  size : ℤ
  extraData : String
  epoch : ℤ
  view : ℤ
  proposer : Bytes
  miner : Bytes
  txCount : ℤ
deriving DecidableEq, Repr

structure TxRow where
  blockNumber : ℤ
  position : ℤ
  fromAddr : Bytes
  toAddr : Option Bytes
  status : ℤ
  gasUsed : ℤ
  baseFee : String
  contractAddress : Option Bytes
  feeToken : Option Bytes
  feeAmount : String
  input : String
  raw : Option Bytes
  traceData : Option String
  receiptData : Option String
  timestamp : ℤ
deriving DecidableEq, Repr

structure TokenRow where
  name : String
  symbol : String
  decimals : ℤ
  currency : String
  totalSupply : String
  logoUri : String
  holderCount : ℤ
deriving DecidableEq, Repr

structure TransferRow where
  txHash : Bytes
  tokenAddr : Bytes
  fromAddr : Bytes
  toAddr : Bytes
  amount : String
  timestamp : ℤ
deriving DecidableEq, Repr

structure AnchoringRow where
  txHash : Bytes
  timestamp : ℤ
  event : String
  registryId : ℤ
  recordId : ℤ
  caller : Bytes
deriving DecidableEq, Repr

/-- A token and one of its holders, as stored. -/
abbrev HolderKey := Bytes × Bytes

/-- A block and a log index in it. -/
abbrev LogKey := ℤ × ℤ

structure Database where
  blocks : Keyed ℤ BlockRow
  transactions : Keyed Bytes TxRow
  tokenMetadata : Keyed Bytes TokenRow
  transferEvents : SeqTable LogKey TransferRow
  anchoringEvents : Keyed LogKey AnchoringRow
  kv : Keyed String String
  counters : Keyed String ℤ
  tokenBalances : Keyed HolderKey String
  genesisBalances : Keyed HolderKey String

namespace Database

/-- The mark that the balance keys are bytes, as every table here has them. -/
def balanceKeysBlob : String := "balance_keys_blob"

/-- Count the rows once, for a table that has no counter yet. -/
def seedCounter (name : String) (n : ℕ) (counters : Keyed String ℤ) : Keyed String ℤ :=
  counters.insertOrIgnore name n

/-- `init_db` on a new file. -/
def fresh : Database where
  blocks := ∅
  transactions := ∅
  tokenMetadata := ∅
  transferEvents := .empty
  anchoringEvents := ∅
  kv := (∅ : Keyed String String).insert balanceKeysBlob "1"
  counters := seedCounter "transactions" 0 (seedCounter "blocks" 0 ∅)
  tokenBalances := ∅
  genesisBalances := ∅

/-- A row count the writer keeps. -/
def counter (db : Database) (table : String) : ℤ := (db.counters.lookup table).getD 0

def getKv (db : Database) (key : String) : Option String := db.kv.lookup key

def setKv (db : Database) (key value : String) : Database :=
  { db with kv := db.kv.insert key value }

/-- The stored heights. -/
def heights (db : Database) : List ℤ := db.blocks.keys

/-- Highest stored block height. -/
def getMaxBlockNumber (db : Database) : Option ℤ := db.heights.max?

/-- Lowest stored block height. -/
def getMinBlockNumber (db : Database) : Option ℤ := db.heights.min?

theorem getMaxBlockNumber_eq_some {db : Database} {t : ℤ} :
    db.getMaxBlockNumber = some t ↔ t ∈ db.blocks ∧ ∀ n ∈ db.blocks, n ≤ t :=
  List.max?_eq_some_iff

theorem getMinBlockNumber_eq_some {db : Database} {t : ℤ} :
    db.getMinBlockNumber = some t ↔ t ∈ db.blocks ∧ ∀ n ∈ db.blocks, t ≤ n :=
  List.min?_eq_some_iff

end Database

/-- **What the program leaves open**: the order in which a hash map, a hash set or an unordered
query is walked, and the next `AUTOINCREMENT` id. -/
structure Choices where
  order : {α : Type} → List α → List α
  perm : ∀ {α : Type} (l : List α), (order l).Perm l
  nextId : ℤ → ℤ
  lt_nextId : ∀ n, n < nextId n

/-- Insertion order, and ids one by one. -/
def Choices.plain : Choices where
  order l := l
  perm l := .refl l
  nextId n := n + 1
  lt_nextId n := by omega

end ChainExplorer
