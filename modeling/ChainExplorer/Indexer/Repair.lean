import ChainExplorer.Db.Writer

/-!
# The repair of a legacy database

An older build stored transfers and no balances. At startup the repair looks which tables have rows
and, under another lock, rebuilds or recounts (`indexer.rs`); the writer, the genesis loop and the
metadata repair start beside it.

* `repairDerivedTables`: the repair's two steps among their transactions, with crashes and restarts.
* **`repair_balanced`**: a run whose first look finds no balances ends with all of them right, and
  they stay right.
* **`repair_overtaken`**: a commit that gets in first leaves the old transfers uncounted for good.
-/

namespace ChainExplorer

open Ledger (balanceOf Holds)

/-- The transactions that run beside the repair. -/
def Call.beside : Call → Bool
  | .saveBlockBundles .. | .saveGenesisBalances .. | .saveTokenMetadata .. => true
  | .rebuildTokenBalances _ | .syncHolderCounts _ => false

namespace Database

def hasTransfers (db : Database) : Bool := !db.transferEvents.entries.isEmpty

def hasBalances (db : Database) : Bool := !db.tokenBalances.entries.isEmpty

/-- Transfers are stored, and the balances are canonical, whatever they say. -/
structure Legacy (db : Database) : Prop where
  transfers : db.transferEvents.entries ≠ []
  holds : ∃ b, Holds db.tokenBalances b

theorem Legacy.hasTransfers {db : Database} (h : db.Legacy) : db.hasTransfers = true := by
  rw [Database.hasTransfers, Bool.not_eq_true', List.isEmpty_eq_false_iff]
  exact h.transfers

theorem writeBlock_legacy {ch : Choices} {db db' : Database} {bundle : BlockBundle} {nb nt : ℤ}
    (h : db.Legacy) (hwrite : db.writeBlock ch bundle = .ok (db', nb, nt)) : db'.Legacy := by
  obtain ⟨b, hb⟩ := h.holds
  obtain ⟨⟨new, hw⟩, -⟩ := writeBlock_written hb hwrite
  obtain ⟨e, he⟩ := List.exists_mem_of_ne_nil _ h.transfers
  exact ⟨List.ne_nil_of_mem (hw.inserted.mem_of_mem he), _, hw.balances⟩

end Database

/-! ## The repair beside the writers -/

/-- Where the repair is: not started, holding what it saw, or over. -/
inductive RepairPc
  | start
  | looked (hasTransfers hasBalances : Bool)
  | over
deriving DecidableEq

/-- `repaired` records that a run of the repair has gone through both its steps. -/
structure RepairState where
  db : Database
  pc : RepairPc
  repaired : Bool

inductive RepairAction
  /-- A transaction of the writer, the genesis loop or the metadata repair. -/
  | commit (c : Call) (fails : Bool)
  | look
  | repair (ch : Choices) (fails : Bool)
  /-- The process ends and starts again on what was committed. -/
  | crash

section Keccak

variable [Keccak]

/-- A step of the repair, or of the tasks beside it. A repair that fails is logged and is over. -/
def RepairState.exec (s : RepairState) : RepairAction → Option RepairState
  | .commit c fails => if c.beside then some { s with db := s.db.attempt c fails } else none
  | .look =>
    match s.pc with
    | .start => some { s with pc := .looked s.db.hasTransfers s.db.hasBalances }
    | _ => none
  | .repair ch fails =>
    match s.pc with
    | .looked hasTransfers hasBalances =>
      if hasTransfers ∧ ¬hasBalances then
        some ⟨s.db.attempt (.rebuildTokenBalances ch) fails, .over, s.repaired || !fails⟩
      else if hasBalances then
        some ⟨s.db.attempt (.syncHolderCounts ch) fails, .over, s.repaired || !fails⟩
      else some { s with pc := .over, repaired := true }
    | _ => none
  | .crash => some { s with pc := .start }

/-- **The repair beside the writers**, from a database that has transfers and no balances. -/
def repairDerivedTables : System RepairState RepairAction where
  init s := s.db.hasTransfers = true ∧ s.db.tokenBalances = ∅ ∧ s.db.genesisBalances = ∅ ∧
    s.pc = .start ∧ s.repaired = false
  exec := RepairState.exec

/-- Until a run of the repair has gone through, its look finds no balances. -/
def RepairState.LooksFirst (s : RepairState) : RepairAction → Prop
  | .look => s.repaired = false → s.db.hasBalances = false
  | _ => True

/-! ## What the calls keep -/

namespace Database

theorem attempt_legacy {db : Database} (h : db.Legacy) (c : Call) (fails : Bool) :
    (db.attempt c fails).Legacy := by
  refine attempt_induction h (fun db' hcall => ?_) fails
  cases c with
  | saveBlockBundles ch bundles =>
    exact saveBlockBundles_induction (fun _ hl hwrite => writeBlock_legacy hl hwrite)
      (fun _ _ hl => ⟨hl.transfers, hl.holds⟩) hcall h
  | saveGenesisBalances ch balances cursor =>
    obtain rfl := Except.ok.inj hcall
    obtain ⟨b, hb⟩ := h.holds
    obtain ⟨d, hs⟩ := saveGenesisBalances_saved hb ch balances cursor
    refine ⟨?_, b + d, hs.holds⟩
    rw [hs.frame]
    exact h.transfers
  | saveTokenMetadata metas =>
    obtain rfl := Except.ok.inj hcall
    rw [saveTokenMetadata_frame]
    exact ⟨h.transfers, h.holds⟩
  | rebuildTokenBalances ch =>
    obtain rfl := Except.ok.inj hcall
    obtain ⟨hframe, hbalanced, -⟩ := rebuildTokenBalances_spec ch db
    refine ⟨?_, _, hbalanced⟩
    rw [hframe]
    exact h.transfers
  | syncHolderCounts ch =>
    obtain rfl := Except.ok.inj hcall
    rw [(syncHolderCounts_recounted ch db).frame]
    exact ⟨h.transfers, h.holds⟩

end Database

/-! ## The invariant -/

/-- **The invariant**: the balances are right once repaired, and a repair that has not gone through
is about to rebuild. -/
structure RepairState.Inv (s : RepairState) : Prop where
  legacy : s.db.Legacy
  balanced : s.repaired = true → s.db.Balanced
  looked : ∀ hasTransfers hasBalances, s.pc = .looked hasTransfers hasBalances →
    hasTransfers = true ∧ (s.repaired = false → hasBalances = false)

theorem RepairState.Inv.start {s : RepairState} (h : repairDerivedTables.init s) : s.Inv := by
  obtain ⟨htransfers, hbalances, -, hpc, hrepaired⟩ := h
  refine ⟨⟨?_, 0, ?_⟩, ?_, ?_⟩
  · rw [Database.hasTransfers, Bool.not_eq_true', List.isEmpty_eq_false_iff] at htransfers
    exact htransfers
  · rw [hbalances]
    exact Holds.empty
  · rw [hrepaired]
    nofun
  · rw [hpc]
    nofun

/-- The second step of a repair that looked first. -/
theorem RepairState.Inv.repair {s s' : RepairState} (h : s.Inv) {ch : Choices} {fails : Bool}
    (hexec : s.exec (.repair ch fails) = some s') : s'.Inv := by
  cases hpc : s.pc with
  | start =>
    simp only [RepairState.exec, hpc] at hexec
    exact absurd hexec nofun
  | «over» =>
    simp only [RepairState.exec, hpc] at hexec
    exact absurd hexec nofun
  | looked hasTransfers hasBalances =>
    obtain ⟨rfl, hfirst⟩ := h.looked _ _ hpc
    cases hasBalances with
    | false =>
      -- No balances were seen: the rebuild gets them right from any that there are by now.
      have hs' : s' = ⟨s.db.attempt (.rebuildTokenBalances ch) fails, .over,
          s.repaired || !fails⟩ := by
        simpa [RepairState.exec, hpc] using hexec.symm
      subst hs'
      refine ⟨Database.attempt_legacy h.legacy (.rebuildTokenBalances ch) fails,
        fun hrepaired => ?_, nofun⟩
      cases fails with
      | true =>
        rw [Bool.not_true, Bool.or_false] at hrepaired
        exact Database.attempt_balanced (h.balanced hrepaired) (.rebuildTokenBalances ch) true
      | false => exact (Database.rebuildTokenBalances_spec ch s.db).2.1
    | true =>
      -- Balances were seen: the repair has gone through before.
      have hs' : s' = ⟨s.db.attempt (.syncHolderCounts ch) fails, .over,
          s.repaired || !fails⟩ := by
        simpa [RepairState.exec, hpc] using hexec.symm
      subst hs'
      have hrepaired : s.repaired = true := by
        by_contra hnot
        exact absurd (hfirst (Bool.eq_false_of_not_eq_true hnot)) nofun
      exact ⟨Database.attempt_legacy h.legacy (.syncHolderCounts ch) fails,
        fun _ => Database.attempt_balanced (h.balanced hrepaired) (.syncHolderCounts ch) fails,
        nofun⟩

theorem RepairState.Inv.exec {s s' : RepairState} {a : RepairAction} (h : s.Inv)
    (hfirst : s.LooksFirst a) (hexec : s.exec a = some s') : s'.Inv := by
  cases a with
  | commit c fails =>
    by_cases hc : c.beside
    · simp only [RepairState.exec, if_pos hc] at hexec
      obtain rfl := Option.some.inj hexec
      exact ⟨Database.attempt_legacy h.legacy c fails,
        fun hr => Database.attempt_balanced (h.balanced hr) c fails, h.looked⟩
    · simp only [RepairState.exec, if_neg hc] at hexec
      exact absurd hexec nofun
  | look =>
    cases hpc : s.pc with
    | start =>
      simp only [RepairState.exec, hpc] at hexec
      obtain rfl := Option.some.inj hexec
      refine ⟨h.legacy, h.balanced, fun hasTransfers hasBalances heq => ?_⟩
      obtain ⟨rfl, rfl⟩ := RepairPc.looked.inj heq
      exact ⟨h.legacy.hasTransfers, hfirst⟩
    | looked hasTransfers hasBalances =>
      simp only [RepairState.exec, hpc] at hexec
      exact absurd hexec nofun
    | «over» =>
      simp only [RepairState.exec, hpc] at hexec
      exact absurd hexec nofun
  | repair ch fails => exact h.repair hexec
  | crash =>
    obtain rfl := Option.some.inj hexec
    exact ⟨h.legacy, h.balanced, nofun⟩

/-! ## Every run -/

/-- **A repair that looks first is right for good.** In every run in which each look, until the
repair has gone through, finds no balances: once it has gone through, every balance is the ledger. -/
theorem repair_balanced {s : RepairState}
    (h : repairDerivedTables.ReachableUnder RepairState.LooksFirst s) (hs : s.repaired = true)
    (token holder : Bytes) : s.db.tokenBalances.lookup (token, holder) =
      if s.db.ledger token holder = 0 then none
      else some (toString (s.db.ledger token holder)) := by
  have hinv : s.Inv := by
    refine h.invariant (fun s h => .start h) ?_
    intro s a s' hs hok hexec
    exact hs.exec hok hexec
  exact hinv.balanced hs (token, holder)

end Keccak

/-! ## A mint from before balances were stored -/

section Sample

attribute [local instance] Keccak.sponge

open Database (minted sampleToken sampleHolder mintBlock mint)

/-- The mint of five units is stored, and no balance. -/
def legacy : RepairState := ⟨{ minted with tokenBalances := ∅ }, .start, false⟩

def sampleOther : String := "0x2222222222222222222222222222222222222222"

/-- The next block, with a mint of two units to another holder. -/
def nextBundle : BlockBundle where
  block := { mintBlock with number := 2, hash := "0x02" }
  txs := []
  transfers := [{ mint with txHash := "0x0b", blockNumber := 2, toAddr := sampleOther, amount := "2" }]
  anchoring := []
  tokens := []

def commitNext : RepairAction := .commit (.saveBlockBundles (fun _ => .plain) [nextBundle]) false

theorem legacy_init : repairDerivedTables.init legacy := ⟨rfl, rfl, rfl, rfl, rfl⟩

instance (s : RepairState) : ∀ a, Decidable (s.LooksFirst a)
  | .look => inferInstanceAs (Decidable (s.repaired = false → s.db.hasBalances = false))
  | .commit _ _ | .repair _ _ | .crash => isTrue trivial

/-- The look gets in before the next block: the mint is counted. -/
theorem repair_balanced_legacy : ∃ s,
    repairDerivedTables.run legacy [.look, commitNext, .repair .plain false] = some s ∧
      s.db.ledger (hexBlob sampleToken) (hexBlob sampleHolder) = 5 ∧
      s.db.tokenBalances.lookup (hexBlob sampleToken, hexBlob sampleHolder) = some "5" := by
  have hend : (repairDerivedTables.run legacy [.look, commitNext, .repair .plain false]).map
      (fun s => (s.repaired, s.db.ledger (hexBlob sampleToken) (hexBlob sampleHolder))) =
        some (true, 5) := by
    decide +kernel
  have hmeets : repairDerivedTables.Meets RepairState.LooksFirst legacy
      [.look, commitNext, .repair .plain false] := by decide +kernel
  obtain ⟨s, hrun, hs⟩ := Option.map_eq_some_iff.mp hend
  obtain ⟨hrepaired, hledger⟩ := Prod.mk.inj hs
  have h := repair_balanced (.run (.start legacy_init) hmeets hrun) hrepaired
    (hexBlob sampleToken) (hexBlob sampleHolder)
  rw [hledger] at h
  exact ⟨s, hrun, hledger, h⟩

/-- **The next block gets in before the look**: its balance is taken for all of them, and the mint
is never counted. -/
theorem repair_overtaken : ¬ ∀ s : RepairState, repairDerivedTables.Reachable s →
    s.repaired = true → ∀ token holder, s.db.tokenBalances.lookup (token, holder) =
      if s.db.ledger token holder = 0 then none
      else some (toString (s.db.ledger token holder)) := by
  intro hall
  have hend : (repairDerivedTables.run legacy [commitNext, .look, .repair .plain false]).map
      (fun s => (s.repaired, s.db.ledger (hexBlob sampleToken) (hexBlob sampleHolder),
        s.db.tokenBalances.lookup (hexBlob sampleToken, hexBlob sampleHolder))) =
          some (true, 5, none) := by
    decide +kernel
  obtain ⟨s, hrun, hs⟩ := Option.map_eq_some_iff.mp hend
  obtain ⟨hrepaired, hs⟩ := Prod.mk.inj hs
  obtain ⟨hledger, hnone⟩ := Prod.mk.inj hs
  have hreach : repairDerivedTables.Reachable s :=
    System.Reachable.run (.start legacy_init) hrun
  have h := hall s hreach hrepaired (hexBlob sampleToken) (hexBlob sampleHolder)
  rw [hledger, hnone] at h
  exact absurd h nofun

end Sample

end ChainExplorer
