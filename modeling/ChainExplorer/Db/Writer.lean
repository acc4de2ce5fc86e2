import ChainExplorer.Db.Replay
import ChainExplorer.Lib.System

/-!
# The database under its writers

* `Call`: the five transactions that write balances, metadata or counts.
* `writers`: a database that starts new and takes any calls in any order. A call that fails is
  rolled back.
* **`tokenBalances_eq_ledger`**: in every database reached, the balance rows are the ledger, and a
  rebuild leaves every one of them as it was.
* **`holderCount_eq_countHolders`**: in every database reached, every token counts its holders.
-/

namespace ChainExplorer

open Ledger (balanceOf Holds)

/-- One transaction. -/
inductive Call
  | saveBlockBundles (ch : ℕ → Choices) (bundles : List BlockBundle)
  | saveGenesisBalances (ch : Choices) (balances : List (Database.Holder × String)) (cursor : ℤ)
  | saveTokenMetadata (metas : List TokenMeta)
  | rebuildTokenBalances (ch : Choices)
  | syncHolderCounts (ch : Choices)

namespace Database

/-! ## What one call keeps -/

/-- The balances are the ledger, and the counts are right. -/
structure Consistent (db : Database) : Prop where
  balanced : db.Balanced
  counted : db.Counted

theorem fresh_consistent : fresh.Consistent := by
  constructor
  · intro k
    exact Holds.empty k
  · intro T row hrow
    exact absurd hrow nofun

theorem Written.ledger {b : HolderKey → ℤ} {db db' : Database} {bundle : BlockBundle}
    {new : List TransferEvent} (h : Written b db db' bundle new) :
    (fun k : HolderKey => db'.ledger k.1 k.2) =
      (fun k : HolderKey => db.ledger k.1 k.2) + balanceOf (newPostings new) := by
  have hjournal : db'.journal = db.journal ++ newPostings new := by
    rw [journal, transferRows, h.inserted.rows, List.flatMap_append]
    rfl
  funext k
  rw [Pi.add_apply, ledger_eq, ledger_eq, hjournal, Ledger.balanceOf_append, Pi.add_apply,
    genesisBalance_eq, genesisBalance_eq, h.genesis]
  ring

theorem Written.balanced {db db' : Database} {bundle : BlockBundle} {new : List TransferEvent}
    (h : Written (fun k => db.ledger k.1 k.2) db db' bundle new) : db'.Balanced := by
  rw [Balanced, h.ledger]
  exact h.balances

theorem writeBlock_balanced {ch : Choices} {db db' : Database} {bundle : BlockBundle} {nb nt : ℤ}
    (hb : db.Balanced) (h : db.writeBlock ch bundle = .ok (db', nb, nt)) : db'.Balanced := by
  obtain ⟨⟨new, hw⟩, -⟩ := writeBlock_written hb h
  exact hw.balanced

theorem saveBlockBundles_balanced {ch : ℕ → Choices} {db db' : Database}
    {bundles : List BlockBundle} (hb : db.Balanced)
    (h : db.saveBlockBundles ch bundles = .ok db') : db'.Balanced :=
  saveBlockBundles_induction (fun _ hb h => writeBlock_balanced hb h) (fun _ _ hb => hb) h hb

theorem writeBlock_consistent {ch : Choices} {db db' : Database} {bundle : BlockBundle} {nb nt : ℤ}
    (hc : db.Consistent) (h : db.writeBlock ch bundle = .ok (db', nb, nt)) : db'.Consistent := by
  obtain ⟨⟨new, hw⟩, -⟩ := writeBlock_written hc.balanced h
  exact ⟨hw.balanced, hw.counted hc.counted⟩

theorem saveBlockBundles_consistent {ch : ℕ → Choices} {db db' : Database}
    {bundles : List BlockBundle} (hc : db.Consistent)
    (h : db.saveBlockBundles ch bundles = .ok db') : db'.Consistent :=
  saveBlockBundles_induction (fun _ hc h => writeBlock_consistent hc h)
    (fun _ _ hc => ⟨hc.balanced, hc.counted⟩) h hc

/-- **Transfers were added and nothing a pass over them reads was changed.** -/
structure Grown (db db' : Database) : Prop where
  kv : db'.kv = db.kv
  genesis : db'.genesisBalances = db.genesisBalances
  transfers : ∀ e ∈ db'.transferEvents.entries,
    e ∈ db.transferEvents.entries ∨ db.transferEvents.seq < e.id
  seq_le : db.transferEvents.seq ≤ db'.transferEvents.seq

theorem Grown.refl (db : Database) : Grown db db := ⟨rfl, rfl, fun _ he => .inl he, le_rfl⟩

theorem Grown.trans {db db' db'' : Database} (h : Grown db db') (h' : Grown db' db'') :
    Grown db db'' := by
  refine ⟨h'.kv.trans h.kv, h'.genesis.trans h.genesis, fun e he => ?_, h.seq_le.trans h'.seq_le⟩
  rcases h'.transfers e he with hmem | hlt
  · exact h.transfers e hmem
  · exact .inr (h.seq_le.trans_lt hlt)

theorem saveBlockBundles_grown {ch : ℕ → Choices} {db db' : Database} {bundles : List BlockBundle}
    (hc : db.Consistent) (h : db.saveBlockBundles ch bundles = .ok db') : Grown db db' := by
  have hboth : db'.Consistent ∧ Grown db db' := by
    refine saveBlockBundles_induction (P := fun x => x.Consistent ∧ Grown db x) ?_ ?_ h
      ⟨hc, .refl db⟩
    · intro x x' bundle ch nb nt _ hx hwrite
      obtain ⟨⟨new, hw⟩, -⟩ := writeBlock_written hx.1.balanced hwrite
      refine ⟨writeBlock_consistent hx.1 hwrite, hx.2.trans ?_⟩
      exact ⟨hw.kv, hw.genesis, fun e he => hw.inserted.mem_or_lt he, hw.inserted.seq_le⟩
    · intro x c hx
      exact ⟨⟨hx.1.balanced, hx.1.counted⟩,
        ⟨hx.2.kv, hx.2.genesis, hx.2.transfers, hx.2.seq_le⟩⟩
  exact hboth.2

theorem saveGenesisBalances_balanced (ch : Choices) {db : Database} (hb : db.Balanced)
    (rows : List (Holder × String)) (cursor : ℤ) :
    (db.saveGenesisBalances ch rows cursor).Balanced := by
  obtain ⟨d, hs⟩ := saveGenesisBalances_saved hb ch rows cursor
  have hledger : (fun k : HolderKey => (db.saveGenesisBalances ch rows cursor).ledger k.1 k.2) =
      (fun k : HolderKey => db.ledger k.1 k.2) + d := by
    have hjournal : (db.saveGenesisBalances ch rows cursor).journal = db.journal := by
      rw [hs.frame]
      rfl
    funext k
    rw [Pi.add_apply, ledger_eq, ledger_eq, hjournal, hs.genesis]
    ring
  rw [Balanced, hledger]
  exact hs.holds

theorem saveGenesisBalances_consistent (ch : Choices) {db : Database} (hc : db.Consistent)
    (rows : List (Holder × String)) (cursor : ℤ) :
    (db.saveGenesisBalances ch rows cursor).Consistent := by
  obtain ⟨d, hs⟩ := saveGenesisBalances_saved hc.balanced ch rows cursor
  exact ⟨saveGenesisBalances_balanced ch hc.balanced rows cursor, hs.counted hc.counted⟩

theorem saveTokenMetadata_frame (db : Database) (metas : List TokenMeta) :
    db.saveTokenMetadata metas = { db with
      tokenMetadata := (db.saveTokenMetadata metas).tokenMetadata } :=
  (foldl_upsertTokenMeta metas db).1

theorem saveTokenMetadata_consistent {db : Database} (hc : db.Consistent)
    (metas : List TokenMeta) : (db.saveTokenMetadata metas).Consistent := by
  obtain ⟨-, hcounted, -⟩ := foldl_upsertTokenMeta metas db
  refine ⟨?_, hcounted hc.counted⟩
  rw [saveTokenMetadata_frame]
  exact hc.balanced

section Keccak

variable [Keccak]

/-! ## The calls -/

def call (db : Database) : Call → Except DbError Database
  | .saveBlockBundles ch bundles => db.saveBlockBundles ch bundles
  | .saveGenesisBalances ch balances cursor => .ok (db.saveGenesisBalances ch balances cursor)
  | .saveTokenMetadata metas => .ok (db.saveTokenMetadata metas)
  | .rebuildTokenBalances ch => .ok (db.rebuildTokenBalances ch)
  | .syncHolderCounts ch => .ok (db.syncHolderCounts ch)

/-- A call that may fail for a reason of its own, such as a full disk. A failed one leaves
nothing. -/
def attempt (db : Database) (c : Call) (fails : Bool) : Database :=
  if fails then db
  else
    match db.call c with
    | .ok db' => db'
    | .error _ => db

/-- **The database under its writers**, from the empty one. -/
def writers : System Database (Call × Bool) where
  init db := db = fresh
  exec db a := some (db.attempt a.1 a.2)

theorem rebuildTokenBalances_consistent (ch : Choices) {db : Database} (hc : db.Consistent) :
    (db.rebuildTokenBalances ch).Consistent := by
  obtain ⟨-, hbalanced, -, hcounted⟩ := rebuildTokenBalances_spec ch db
  exact ⟨hbalanced, hcounted hc.balanced hc.counted⟩

theorem syncHolderCounts_consistent (ch : Choices) {db : Database} (hc : db.Consistent) :
    (db.syncHolderCounts ch).Consistent := by
  have hre := syncHolderCounts_recounted ch db
  refine ⟨?_, hre.counted hc.counted⟩
  rw [hre.frame]
  exact hc.balanced

theorem attempt_induction {P : Database → Prop} {db : Database} {c : Call} (hP : P db)
    (hcall : ∀ db', db.call c = .ok db' → P db') (fails : Bool) : P (db.attempt c fails) := by
  unfold attempt
  by_cases hf : fails
  · rw [if_pos hf]
    exact hP
  · rw [if_neg hf]
    cases h : db.call c with
    | ok db' => exact hcall db' h
    | error e => exact hP

theorem attempt_balanced {db : Database} (hb : db.Balanced) (c : Call) (fails : Bool) :
    (db.attempt c fails).Balanced := by
  refine attempt_induction hb (fun db' h => ?_) fails
  cases c with
  | saveBlockBundles ch bundles => exact saveBlockBundles_balanced hb h
  | saveGenesisBalances ch balances cursor =>
    obtain rfl := Except.ok.inj h
    exact saveGenesisBalances_balanced ch hb balances cursor
  | saveTokenMetadata metas =>
    obtain rfl := Except.ok.inj h
    rw [saveTokenMetadata_frame]
    exact hb
  | rebuildTokenBalances ch =>
    obtain rfl := Except.ok.inj h
    exact (rebuildTokenBalances_spec ch db).2.1
  | syncHolderCounts ch =>
    obtain rfl := Except.ok.inj h
    rw [(syncHolderCounts_recounted ch db).frame]
    exact hb

theorem attempt_consistent {db : Database} (hc : db.Consistent) (c : Call) (fails : Bool) :
    (db.attempt c fails).Consistent := by
  refine attempt_induction hc (fun db' h => ?_) fails
  cases c with
  | saveBlockBundles ch bundles => exact saveBlockBundles_consistent hc h
  | saveGenesisBalances ch balances cursor =>
    obtain rfl := Except.ok.inj h
    exact saveGenesisBalances_consistent ch hc balances cursor
  | saveTokenMetadata metas =>
    obtain rfl := Except.ok.inj h
    exact saveTokenMetadata_consistent hc metas
  | rebuildTokenBalances ch =>
    obtain rfl := Except.ok.inj h
    exact rebuildTokenBalances_consistent ch hc
  | syncHolderCounts ch =>
    obtain rfl := Except.ok.inj h
    exact syncHolderCounts_consistent ch hc

theorem consistent_of_reachable {db : Database} (h : writers.Reachable db) : db.Consistent := by
  refine h.invariant ?_ ?_
  · rintro db rfl
    exact fresh_consistent
  · intro db a db' hc _ hexec
    obtain rfl := Option.some.inj hexec
    exact attempt_consistent hc a.1 a.2

/-! ## The ledger and the holder counts -/

/-- **The balance rows are the ledger**: a row for each holder whose balance is not zero, with its
decimal, and no other. A rebuild leaves every one as it was. -/
theorem tokenBalances_eq_ledger {db : Database} (h : writers.Reachable db) :
    (∀ token holder, db.tokenBalances.lookup (token, holder) =
      if db.ledger token holder = 0 then none else some (toString (db.ledger token holder))) ∧
    ∀ ch token holder, (db.rebuildTokenBalances ch).tokenBalances.lookup (token, holder) =
      db.tokenBalances.lookup (token, holder) := by
  have hc := consistent_of_reachable h
  refine ⟨fun token holder => hc.balanced (token, holder), fun ch token holder => ?_⟩
  obtain ⟨hframe, hbalanced, -⟩ := rebuildTokenBalances_spec ch db
  have hsame : (db.rebuildTokenBalances ch).ledger token holder = db.ledger token holder := by
    rw [hframe]
    rfl
  have hrebuilt := hbalanced (token, holder)
  rw [hrebuilt, hc.balanced (token, holder)]
  exact congrArg Ledger.rowOf hsame

/-- **Every token counts its holders**: the rows of it that do not start with a minus sign. -/
theorem holderCount_eq_countHolders {db : Database} (h : writers.Reachable db) (token : Bytes)
    (row : TokenRow) (hrow : db.tokenMetadata.lookup token = some row) :
    row.holderCount = db.countHolders token :=
  (consistent_of_reachable h).counted token row hrow

end Keccak

/-! ## A mint of five units, written to a new database -/

section Sample

attribute [local instance] Keccak.sponge

def sampleToken : String := "0x2000000000000000000000000000000000000000"

def sampleHolder : String := "0x1111111111111111111111111111111111111111"

def mintBlock : Block where
  number := 1
  hash := "0x01"
  parentHash := "0x00"
  timestamp := 0
  timestampMs := 0
  gasUsed := 0
  gasLimit := 0
  baseFee := "0"
  size := 0
  extraData := ""
  epoch := 0
  view := 0
  proposer := ""
  miner := ""
  txCount := 1

def mint : TransferEvent where
  txHash := "0x0a"
  blockNumber := 1
  logIndex := 0
  tokenAddr := sampleToken
  fromAddr := "0x0000000000000000000000000000000000000000"
  toAddr := sampleHolder
  amount := "5"
  timestamp := 0

def sampleMeta : TokenMeta where
  address := sampleToken
  name := "Sample"
  symbol := "SMP"
  decimals := 6
  currency := "USD"
  totalSupply := "5"

def mintBundle : BlockBundle where
  block := mintBlock
  txs := []
  transfers := [mint]
  anchoring := []
  tokens := [sampleMeta]

/-- A new database with the mint written. -/
def minted : Database := fresh.attempt (.saveBlockBundles (fun _ => .plain) [mintBundle]) false

theorem minted_reachable : writers.Reachable minted :=
  .step (a := (.saveBlockBundles (fun _ => .plain) [mintBundle], false)) (.start rfl) trivial rfl

theorem tokenBalances_eq_ledger_minted :
    minted.ledger (hexBlob sampleToken) (hexBlob sampleHolder) = 5 ∧
      minted.tokenBalances.lookup (hexBlob sampleToken, hexBlob sampleHolder) = some "5" := by
  have hledger : minted.ledger (hexBlob sampleToken) (hexBlob sampleHolder) = 5 := by decide
  have h := (tokenBalances_eq_ledger minted_reachable).1 (hexBlob sampleToken) (hexBlob sampleHolder)
  rw [hledger] at h
  exact ⟨hledger, h⟩

theorem holderCount_eq_countHolders_minted :
    (minted.tokenMetadata.lookup (hexBlob sampleToken)).map TokenRow.holderCount = some 1 ∧
      ∀ row, minted.tokenMetadata.lookup (hexBlob sampleToken) = some row →
        row.holderCount = minted.countHolders (hexBlob sampleToken) :=
  ⟨by decide, holderCount_eq_countHolders minted_reachable _⟩

end Sample

end Database

end ChainExplorer
