import Mathlib.Data.Int.Notation

/-!
# Row types

What the indexer hands to storage (`models.rs`, `tokens.rs`). The wall-clock columns
(`created_at`, `updated_at`) are left out: nothing reads them back.
-/

namespace ChainExplorer

structure Block where
  number : ℤ
  hash : String
  parentHash : String
  timestamp : ℤ
  timestampMs : ℤ
  gasUsed : ℤ
  gasLimit : ℤ
  baseFee : String
  size : ℤ
  extraData : String
  epoch : ℤ
  view : ℤ
  proposer : String
  miner : String
  txCount : ℤ
deriving DecidableEq, Repr

structure Transaction where
  hash : String
  blockNumber : ℤ
  position : ℤ
  fromAddr : String
  toAddr : Option String
  status : ℤ
  gasUsed : ℤ
  /-- The receipt's effective gas price, despite the name. -/
  baseFee : String
  contractAddress : Option String
  feeToken : Option String
  feeAmount : String
  input : String
  raw : Option String
  traceData : Option String
  receiptData : Option String
  timestamp : ℤ
deriving DecidableEq, Repr

structure TransferEvent where
  txHash : String
  blockNumber : ℤ
  logIndex : ℤ
  tokenAddr : String
  fromAddr : String
  toAddr : String
  amount : String
  timestamp : ℤ
deriving DecidableEq, Repr

/-- One write to the anchoring contract. -/
structure AnchoringEvent where
  txHash : String
  blockNumber : ℤ
  logIndex : ℤ
  timestamp : ℤ
  event : String
  registryId : ℤ
  recordId : ℤ
  caller : String
deriving DecidableEq, Repr

structure TokenMeta where
  address : String
  name : String
  symbol : String
  decimals : ℤ
  currency : String
  totalSupply : String
deriving DecidableEq, Repr

/-- One block and everything indexed alongside it. -/
structure BlockBundle where
  block : Block
  txs : List Transaction
  transfers : List TransferEvent
  anchoring : List AnchoringEvent
  tokens : List TokenMeta
deriving DecidableEq, Repr

/-- A block without transactions. -/
def emptyBundle (number : ℤ) (hash : String) : BlockBundle where
  block :=
    { number := number, hash := hash, parentHash := "", timestamp := 0, timestampMs := 0,
      gasUsed := 0, gasLimit := 0, baseFee := "0", size := 0, extraData := "", epoch := 0,
      view := 0, proposer := "", miner := "", txCount := 0 }
  txs := []
  transfers := []
  anchoring := []
  tokens := []

end ChainExplorer
