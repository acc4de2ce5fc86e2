import ChainExplorer.Db.Converge

/-!
# Opening a database that predates its counters

A start counts the rows of a table once, where it has no counter yet, in three statements of which
each is its own transaction (`db.rs`). Any number of processes open one file, side by side or one
after another, write to it once they have it open, and stop anywhere.

* `CountedTable`: the tables that are counted.
* `openings start`: the processes, on a database as an older build left it.
* `Openings.Seeded`, `Openings.Counts`: what holds whatever runs beside what.
* **`counters_exact`**: a process that has the database open reads counters that are the numbers of
  rows: of the blocks whatever is written, of the transactions where the blocks are a chain's.
-/

namespace ChainExplorer

/-! ## The tables -/

/-- The tables whose rows are counted, in the order a start takes them. -/
inductive CountedTable
  | blocks
  | transactions
deriving DecidableEq

namespace CountedTable

def name : CountedTable → String
  | .blocks => "blocks"
  | .transactions => "transactions"

/-- `SELECT COUNT(*)`. -/
def rows (db : Database) : CountedTable → ℕ
  | .blocks => db.blocks.entries.length
  | .transactions => db.transactions.entries.length

theorem name_injective {t t' : CountedTable} (h : t.name = t'.name) : t = t' := by
  cases t <;> cases t' <;> first | rfl | exact absurd h (by decide)

end CountedTable

/-! ## The processes -/

/-- The next statement of a process that opens the database. -/
inductive Opening
  | down
  | look (table : CountedTable)
  | count (table : CountedTable)
  | insert (table : CountedTable) (n : ℕ)
  | opened
deriving DecidableEq

/-- After a table that has its counter. -/
def Opening.after : CountedTable → Opening
  | .blocks => .look .transactions
  | .transactions => .opened

/-- A database, and the processes on it. -/
structure Openings where
  db : Database
  process : ℕ → Opening

/-- What a process does next: start, run its next statement, write, or stop. -/
inductive OpeningAction
  | start (i : ℕ)
  | statement (i : ℕ)
  | call (i : ℕ) (c : Call) (fails : Bool)
  | stop (i : ℕ)

namespace Openings

/-- One process goes on. -/
def goes (s : Openings) (i : ℕ) (place : Opening) : Openings :=
  { s with process := Function.update s.process i place }

/-- One statement of `seed_counters`. A key that is taken ends the start. -/
def statement (s : Openings) (i : ℕ) : Option Openings :=
  match s.process i with
  | .look table =>
    some (s.goes i (if table.name ∈ s.db.counters then .after table else .count table))
  | .count table => some (s.goes i (.insert table (table.rows s.db)))
  | .insert table n =>
    if table.name ∈ s.db.counters then some (s.goes i .down)
    else
      some ({ s with db := { s.db with counters := s.db.counters.insert table.name n } }.goes i
        (.after table))
  | .down | .opened => none

def exec [Keccak] (s : Openings) : OpeningAction → Option Openings
  | .start i => if s.process i = .down then some (s.goes i (.look .blocks)) else none
  | .statement i => s.statement i
  | .call i c fails =>
    if s.process i = .opened then some { s with db := s.db.attempt c fails } else none
  | .stop i => some (s.goes i .down)

end Openings

/-- **The processes on a database**, none of which runs yet. -/
def openings [Keccak] (start : Database) : System Openings OpeningAction where
  init s := s.db = start ∧ ∀ i, s.process i = .down
  exec := Openings.exec

namespace Openings

@[simp] theorem db_goes (s : Openings) (i : ℕ) (place : Opening) : (s.goes i place).db = s.db := rfl

@[simp] theorem process_goes_self (s : Openings) (i : ℕ) (place : Opening) :
    (s.goes i place).process i = place :=
  Function.update_self ..

theorem process_goes_of_ne {s : Openings} {i j : ℕ} {place : Opening} (h : j ≠ i) :
    (s.goes i place).process j = s.process j :=
  Function.update_of_ne h ..

theorem process_goes {s : Openings} {i j : ℕ} {place there : Opening}
    (h : (s.goes i place).process j = there) : j = i ∧ place = there ∨ s.process j = there := by
  by_cases hj : j = i
  · subst hj
    exact .inl ⟨rfl, (process_goes_self s j place).symm.trans h⟩
  · exact .inr ((process_goes_of_ne hj).symm.trans h)

/-! ## What a statement does -/

/-- **The statements**, with what each finds. -/
inductive Statement (s : Openings) (i : ℕ) : Openings → Prop
  | found {table : CountedTable} : s.process i = .look table → table.name ∈ s.db.counters →
      Statement s i (s.goes i (.after table))
  | missing {table : CountedTable} : s.process i = .look table → table.name ∉ s.db.counters →
      Statement s i (s.goes i (.count table))
  | counted {table : CountedTable} : s.process i = .count table →
      Statement s i (s.goes i (.insert table (table.rows s.db)))
  | refused {table : CountedTable} {n : ℕ} : s.process i = .insert table n →
      table.name ∈ s.db.counters → Statement s i (s.goes i .down)
  | inserted {table : CountedTable} {n : ℕ} : s.process i = .insert table n →
      table.name ∉ s.db.counters → Statement s i
        ({ s with db := { s.db with counters := s.db.counters.insert table.name n } }.goes i
          (.after table))

theorem statement_cases {s s' : Openings} {i : ℕ} (h : s.statement i = some s') :
    Statement s i s' := by
  cases hplace : s.process i with
  | down =>
    simp only [statement, hplace] at h
    cases h
  | look table =>
    simp only [statement, hplace, Option.some.injEq] at h
    subst h
    by_cases hmem : table.name ∈ s.db.counters
    · rw [if_pos hmem]
      exact .found hplace hmem
    · rw [if_neg hmem]
      exact .missing hplace hmem
  | count table =>
    simp only [statement, hplace, Option.some.injEq] at h
    subst h
    exact .counted hplace
  | insert table n =>
    simp only [statement, hplace] at h
    by_cases hmem : table.name ∈ s.db.counters
    · rw [if_pos hmem] at h
      obtain rfl := Option.some.inj h
      exact .refused hplace hmem
    · rw [if_neg hmem] at h
      obtain rfl := Option.some.inj h
      exact .inserted hplace hmem
  | opened =>
    simp only [statement, hplace] at h
    cases h

end Openings

/-! ## What the writes do to the counters -/

namespace Database

variable [Keccak] {db : Database}

omit [Keccak] in
theorem addGenesisRows_frame (rows : List (Holder × String)) (db : Database)
    (moved : Keyed String ℤ) : (db.addGenesisRows moved rows).1 = { db with
      tokenBalances := (db.addGenesisRows moved rows).1.tokenBalances
      genesisBalances := (db.addGenesisRows moved rows).1.genesisBalances } := by
  induction rows generalizing db moved with
  | nil => rfl
  | cons row rows ih =>
    obtain ⟨⟨token, holder⟩, balance⟩ := row
    simp only [addGenesisRows]
    split_ifs with hmem
    · exact ih db moved
    · rw [ih]
      unfold adjustBalance
      split_ifs <;> rfl

theorem call_frame {c : Call} {db' : Database}
    (hne : ∀ ch bundles, c ≠ .saveBlockBundles ch bundles) (h : db.call c = .ok db') :
    db'.blocks = db.blocks ∧ db'.transactions = db.transactions ∧ db'.counters = db.counters := by
  cases c with
  | saveBlockBundles ch bundles => exact absurd rfl (hne ch bundles)
  | saveGenesisBalances ch balances cursor =>
    obtain rfl := Except.ok.inj h
    rw [saveGenesisBalances, (addToHolderCounts_moved ch _ _).1, addGenesisRows_frame]
    exact ⟨rfl, rfl, rfl⟩
  | saveTokenMetadata metas =>
    obtain rfl := Except.ok.inj h
    rw [saveTokenMetadata_frame]
    exact ⟨rfl, rfl, rfl⟩
  | rebuildTokenBalances ch =>
    obtain rfl := Except.ok.inj h
    rw [(rebuildTokenBalances_spec ch db).1]
    exact ⟨rfl, rfl, rfl⟩
  | syncHolderCounts ch =>
    obtain rfl := Except.ok.inj h
    rw [(syncHolderCounts_recounted ch db).frame]
    exact ⟨rfl, rfl, rfl⟩

/-! ### How many rows a block adds -/

omit [Keccak] in
theorem length_insert {κ υ : Type} [DecidableEq κ] (k : κ) (v : υ) (t : Keyed κ υ) :
    ((t.insert k v).entries.length : ℤ) = t.entries.length + (1 - if k ∈ t then 1 else 0) := by
  have hold := Keyed.count_eq_add_erase (fun _ _ => true) k t
  rw [← Keyed.count_true, ← Keyed.count_true, Keyed.count_insert, hold]
  by_cases hk : k ∈ t
  · obtain ⟨w, hw⟩ := Option.isSome_iff_exists.mp (AList.lookup_isSome.mpr hk)
    rw [hw, if_pos hk, Option.elim_some]
    push_cast
    omega
  · rw [AList.lookup_eq_none.mpr hk, if_neg hk, Option.elim_none]
    push_cast
    simp only [Bool.toNat_true, Nat.cast_one]
    omega

omit [Keccak] in
theorem writeBlock_counts {ch : Choices} {db' : Database} {bundle : BlockBundle} {nb nt : ℤ}
    (h : db.writeBlock ch bundle = .ok (db', nb, nt)) :
    nb = 1 - (if bundle.block.number ∈ db.blocks then 1 else 0) ∧
      nt = max ((bundle.txs.length : ℤ) -
        (if bundle.txs.isEmpty then 0 else (db.txsAt bundle.block.number : ℤ))) 0 := by
  obtain ⟨db1, -, h⟩ := bind_ok h
  obtain ⟨⟨db2, new⟩, -, h⟩ := bind_ok h
  obtain ⟨-, hcounts⟩ := Prod.mk.inj (Except.ok.inj h)
  obtain ⟨hnb, hnt⟩ := Prod.mk.inj hcounts
  exact ⟨hnb.symm, hnt.symm⟩

/-- The hash of a transaction, as stored. -/
def hashBlob (tx : Transaction) : Bytes := hexBlob tx.hash

omit [Keccak] in
theorem mem_putTx {t : Keyed Bytes TxRow} {tx : Transaction} {hash : Bytes} :
    hash ∈ putTx t tx ↔ hash = hashBlob tx ∨ hash ∈ t := by
  rw [putTx, Keyed.upsert, AList.mem_insert]
  rfl

omit [Keccak] in
theorem length_foldl_putTx (txs : List Transaction) (t : Keyed Bytes TxRow)
    (hnodup : (txs.map hashBlob).Nodup) :
    (txs.foldl putTx t).entries.length + ((txs.map hashBlob).filter fun h => h ∈ t).length =
      t.entries.length + txs.length := by
  induction txs generalizing t with
  | nil => rfl
  | cons tx txs ih =>
    obtain ⟨hnew, hrest⟩ := List.nodup_cons.mp hnodup
    have hlength : ((putTx t tx).entries.length : ℤ) =
        t.entries.length + (1 - if hashBlob tx ∈ t then 1 else 0) := length_insert _ _ _
    have hsame : ((txs.map hashBlob).filter fun h => h ∈ putTx t tx) =
        (txs.map hashBlob).filter fun h => h ∈ t := by
      refine List.filter_congr fun h hmem => decide_eq_decide.mpr ?_
      rw [mem_putTx]
      refine or_iff_right ?_
      rintro rfl
      exact hnew hmem
    have htail := ih (putTx t tx) hrest
    rw [hsame] at htail
    rw [List.foldl_cons, List.map_cons, List.filter_cons, List.length_cons]
    by_cases hstored : hashBlob tx ∈ t
    · rw [if_pos hstored] at hlength
      rw [if_pos (decide_eq_true hstored), List.length_cons]
      omega
    · rw [if_neg hstored] at hlength
      rw [if_neg (by simpa using hstored)]
      omega

end Database

/-- **Every stored transaction is one of the chain's**, at its height. -/
def OfChain (c : Chain) (db : Database) : Prop :=
  ∀ hash row, db.transactions.lookup hash = some row →
    ∃ tx ∈ (c.bundle row.blockNumber).txs, Database.hashBlob tx = hash

namespace OfChain

variable {c : Chain} {db : Database} {n : ℤ}

theorem txsAt (h : OfChain c db) (n : ℤ) : db.txsAt n =
    (((c.bundle n).txs.map Database.hashBlob).filter fun hash =>
      hash ∈ db.transactions).length := by
  have hat : db.txsAt n =
      ((db.transactions.entries.filter fun e => e.2.blockNumber = n).map Sigma.fst).length := by
    rw [List.length_map]
    exact List.countP_eq_length_filter
  have hkeys : ((db.transactions.entries.filter fun e =>
      e.2.blockNumber = n).map Sigma.fst).Nodup :=
    List.Nodup.sublist (List.filter_sublist.map _) db.transactions.nodupKeys
  have hhashes : (((c.bundle n).txs.map Database.hashBlob).filter fun hash =>
      hash ∈ db.transactions).Nodup := (c.hashNodup n).filter _
  rw [hat]
  refine ((List.perm_ext_iff_of_nodup hkeys hhashes).mpr fun hash => ?_).length_eq
  rw [List.mem_map, List.mem_filter, decide_eq_true_iff]
  constructor
  · rintro ⟨e, he, rfl⟩
    obtain ⟨hmem, hnumber⟩ := List.mem_filter.mp he
    have hlookup := Keyed.mem_entries_iff.mp hmem
    obtain ⟨tx, htx, hhash⟩ := h e.1 e.2 hlookup
    rw [of_decide_eq_true hnumber] at htx
    refine ⟨List.mem_map.mpr ⟨tx, htx, hhash⟩, ?_⟩
    exact AList.lookup_isSome.mp (Option.isSome_iff_exists.mpr ⟨_, hlookup⟩)
  · rintro ⟨hmem, hstored⟩
    obtain ⟨row, hrow⟩ := Option.isSome_iff_exists.mp (AList.lookup_isSome.mpr hstored)
    obtain ⟨tx, htx, rfl⟩ := List.mem_map.mp hmem
    obtain ⟨tx', htx', hhash⟩ := h _ row hrow
    refine ⟨⟨_, row⟩, List.mem_filter.mpr ⟨Keyed.mem_entries_iff.mpr hrow, decide_eq_true ?_⟩, rfl⟩
    exact c.hashes _ _ tx' htx' tx htx hhash

theorem foldl_putTx (h : OfChain c db) (n : ℤ) {txs : List Transaction}
    (hsub : txs ⊆ (c.bundle n).txs) :
    OfChain c { db with transactions := txs.foldl Database.putTx db.transactions } := by
  induction txs generalizing db with
  | nil => exact h
  | cons tx txs ih =>
    obtain ⟨hmem, hrest⟩ := List.cons_subset.mp hsub
    have hput : OfChain c { db with transactions := Database.putTx db.transactions tx } := by
      intro hash row hrow
      rw [Database.putTx, Keyed.lookup_upsert] at hrow
      split_ifs at hrow with hhash
      · have hnumber : row.blockNumber = n := by
          have htx : (txRow tx).blockNumber = n := c.txNumber n tx hmem
          rw [← Option.some.inj hrow]
          cases db.transactions.lookup (hexBlob tx.hash) with
          | none => exact htx
          | some old => exact htx
        rw [hnumber]
        exact ⟨tx, hmem, hhash.symm⟩
      · exact h hash row hrow
    exact ih hput hrest

theorem length_transactions (h : OfChain c db) (n : ℤ) :
    ((((c.bundle n).txs.foldl Database.putTx db.transactions).entries.length : ℕ) : ℤ) =
      db.transactions.entries.length + max (((c.bundle n).txs.length : ℤ) -
        (if (c.bundle n).txs.isEmpty then 0 else (db.txsAt n : ℤ))) 0 := by
  have hlength := Database.length_foldl_putTx _ db.transactions (c.hashNodup n)
  have hheld := h.txsAt n
  have hle := List.length_filter_le (fun hash => decide (hash ∈ db.transactions))
    ((c.bundle n).txs.map Database.hashBlob)
  rw [List.length_map] at hle
  rw [← hheld] at hlength hle
  cases htxs : (c.bundle n).txs with
  | nil => simp
  | cons tx txs =>
    rw [htxs] at hlength hle
    rw [if_neg (by simp)]
    omega

end OfChain

/-! ### What a call leaves counted -/

/-- **A counter that counts.** -/
def CountedTable.Right (db : Database) (table : CountedTable) : Prop :=
  db.counter table.name = table.rows db

/-- Of what a block's writes return, the rows of one table. -/
def CountedTable.added (nb nt : ℤ) : CountedTable → ℤ
  | .blocks => nb
  | .transactions => nt

theorem saveBlockBundles_counted {P : Database → Prop} {table : CountedTable} {ch : ℕ → Choices}
    {db db' : Database} {bundles : List BlockBundle}
    (hstep : ∀ {db db' : Database} {bundle : BlockBundle} {ch : Choices} {nb nt : ℤ},
      bundle ∈ bundles → P db → db.writeBlock ch bundle = .ok (db', nb, nt) →
        P db' ∧ (table.rows db' : ℤ) = table.rows db + table.added nb nt)
    (hcounters : ∀ (db : Database) (c : Keyed String ℤ), P db → P { db with counters := c })
    (h : db.saveBlockBundles ch bundles = .ok db') (hP : P db) (hc : table.Right db) :
    P db' ∧ table.Right db' := by
  obtain ⟨mid, x, y, hwrite, rfl⟩ := Database.saveBlockBundles_ok h
  have hmid : P mid ∧ mid.counter table.name + table.added x y = table.rows mid := by
    refine Database.writeBlocks_induction
      (P := fun db x y => P db ∧ db.counter table.name + table.added x y = table.rows db)
      ?_ hwrite ⟨hP, ?_⟩
    · rintro a a' bundle ch nb nt x y hmem ⟨ha, hcount⟩ hblock
      obtain ⟨ha', hrows⟩ := hstep hmem ha hblock
      have hcounter : a'.counter table.name = a.counter table.name := by
        rw [(Database.writeBlock_frame hblock).1]
        rfl
      refine ⟨ha', ?_⟩
      rw [hcounter, hrows, ← hcount]
      cases table <;> simp only [CountedTable.added] <;> omega
    · cases table <;> simpa [CountedTable.added] using show _ = _ from hc
  obtain ⟨hPmid, hcount⟩ := hmid
  have hframe : (mid.addToCounter "blocks" x).addToCounter "transactions" y = { mid with
      counters := ((mid.addToCounter "blocks" x).addToCounter "transactions" y).counters } := by
    rw [Database.addToCounter_frame, Database.addToCounter_frame mid]
  have hrows : table.rows ((mid.addToCounter "blocks" x).addToCounter "transactions" y) =
      table.rows mid := by
    rw [hframe]
    cases table <;> rfl
  refine ⟨?_, ?_⟩
  · rw [hframe]
    exact hcounters _ _ hPmid
  · rw [CountedTable.Right, hrows, counter_addToCounter, counter_addToCounter, ← hcount]
    cases table <;> simp [CountedTable.name, CountedTable.added]

namespace Database

variable [Keccak] {db : Database}

theorem counted_call_frame {table : CountedTable} {c : Call} {db' : Database}
    (hne : ∀ ch bundles, c ≠ .saveBlockBundles ch bundles) (h : db.call c = .ok db')
    (hc : table.Right db) : table.Right db' := by
  obtain ⟨hblocks, htxs, hcounters⟩ := call_frame hne h
  have hcounter : db'.counter table.name = db.counter table.name := by
    rw [counter, counter, hcounters]
  have hrows : table.rows db' = table.rows db := by
    cases table with
    | blocks => rw [CountedTable.rows, CountedTable.rows, hblocks]
    | transactions => rw [CountedTable.rows, CountedTable.rows, htxs]
  rw [CountedTable.Right, hcounter, hrows]
  exact hc

theorem attempt_blocks_counted (hc : CountedTable.blocks.Right db) (c : Call) (fails : Bool) :
    CountedTable.blocks.Right (db.attempt c fails) := by
  refine attempt_induction (P := fun db => CountedTable.blocks.Right db) hc (fun db' h => ?_) fails
  by_cases hne : ∃ ch bundles, c = .saveBlockBundles ch bundles
  · obtain ⟨ch, bundles, rfl⟩ := hne
    refine (saveBlockBundles_counted (P := fun _ => True) ?_ (fun _ _ _ => trivial) h trivial hc).2
    intro x x' bundle ch nb nt _ _ hwrite
    refine ⟨trivial, ?_⟩
    rw [CountedTable.rows, CountedTable.rows, writeBlock_blocks hwrite, length_insert,
      CountedTable.added, (writeBlock_counts hwrite).1]
  · exact counted_call_frame (fun ch bundles heq => hne ⟨ch, bundles, heq⟩) h hc

end Database

/-- The bundles of a call are a chain's. -/
def Call.OfChain (chain : Chain) : Call → Prop
  | .saveBlockBundles _ bundles => ∀ bundle ∈ bundles, ∃ n, bundle = chain.bundle n
  | _ => True

namespace OfChain

variable {chain : Chain} {db db' : Database}

theorem writeBlock (h : OfChain chain db) {bundle : BlockBundle} {ch : Choices} {nb nt : ℤ}
    (hbundle : ∃ n, bundle = chain.bundle n)
    (hwrite : db.writeBlock ch bundle = .ok (db', nb, nt)) :
    OfChain chain db' ∧ (CountedTable.transactions.rows db' : ℤ) =
      CountedTable.transactions.rows db + CountedTable.transactions.added nb nt := by
  obtain ⟨n, rfl⟩ := hbundle
  have htxs : db'.transactions = (chain.bundle n).txs.foldl Database.putTx db.transactions := by
    rw [(Database.writeBlock_frame hwrite).1]
  have hnt := (Database.writeBlock_counts hwrite).2
  rw [chain.number] at hnt
  constructor
  · intro hash row hrow
    rw [htxs] at hrow
    exact h.foldl_putTx n (List.Subset.refl _) hash row hrow
  · rw [CountedTable.rows, CountedTable.rows, htxs, h.length_transactions, CountedTable.added, hnt]

variable [Keccak]

theorem call (h : OfChain chain db) {c : Call} (hcall : c.OfChain chain)
    (hok : db.call c = .ok db') : OfChain chain db' ∧
      (CountedTable.transactions.Right db → CountedTable.transactions.Right db') := by
  by_cases hne : ∃ ch bundles, c = .saveBlockBundles ch bundles
  · obtain ⟨ch, bundles, rfl⟩ := hne
    have hblocks : ∀ {a a' : Database} {bundle : BlockBundle} {ch : Choices} {nb nt : ℤ},
        bundle ∈ bundles → OfChain chain a → a.writeBlock ch bundle = .ok (a', nb, nt) →
          OfChain chain a' ∧ (CountedTable.transactions.rows a' : ℤ) =
            CountedTable.transactions.rows a + CountedTable.transactions.added nb nt :=
      fun hmem ha hwrite => ha.writeBlock (hcall _ hmem) hwrite
    have hframe : ∀ (a : Database) (counters : Keyed String ℤ), OfChain chain a →
        OfChain chain { a with counters := counters } := fun _ _ ha => ha
    refine ⟨?_, fun hc => (saveBlockBundles_counted hblocks hframe hok h hc).2⟩
    exact Database.saveBlockBundles_induction (P := OfChain chain)
      (fun hmem ha hwrite => (hblocks hmem ha hwrite).1) hframe hok h
  · have hother : ∀ ch bundles, c ≠ .saveBlockBundles ch bundles :=
      fun ch bundles heq => hne ⟨ch, bundles, heq⟩
    refine ⟨fun hash row hrow => ?_, fun hc => Database.counted_call_frame hother hok hc⟩
    rw [(Database.call_frame hother hok).2.1] at hrow
    exact h hash row hrow

theorem attempt (h : OfChain chain db) {c : Call} (hcall : c.OfChain chain) (fails : Bool) :
    OfChain chain (db.attempt c fails) ∧
      (CountedTable.transactions.Right db → CountedTable.transactions.Right (db.attempt c fails)) :=
  Database.attempt_induction
    (P := fun a => OfChain chain a ∧
      (CountedTable.transactions.Right db → CountedTable.transactions.Right a))
    ⟨h, id⟩ (fun _ hok => h.call hcall hok) fails

end OfChain

/-! ## Any number of processes -/

namespace Database

theorem mem_addToCounter {db : Database} {name : String} (h : name ∈ db.counters) (table : String)
    (delta : ℤ) : name ∈ (db.addToCounter table delta).counters := by
  unfold addToCounter
  split_ifs
  · exact h
  · exact (AList.mem_insert _).mpr (.inr h)

theorem mem_counters_attempt [Keccak] {db : Database} {name : String} (h : name ∈ db.counters)
    (c : Call) (fails : Bool) : name ∈ (db.attempt c fails).counters := by
  refine attempt_induction (P := fun a => name ∈ a.counters) h (fun db' hok => ?_) fails
  by_cases hne : ∃ ch bundles, c = .saveBlockBundles ch bundles
  · obtain ⟨ch, bundles, rfl⟩ := hne
    obtain ⟨mid, x, y, hwrite, rfl⟩ := saveBlockBundles_ok hok
    refine mem_addToCounter (mem_addToCounter ?_ _ _) _ _
    refine writeBlocks_induction (P := fun a _ _ => name ∈ a.counters) ?_ hwrite h
    intro a a' bundle ch nb nt x y _ ha hblock
    rw [(writeBlock_frame hblock).1]
    exact ha
  · rw [(call_frame (fun ch bundles heq => hne ⟨ch, bundles, heq⟩) hok).2.2]
    exact h

theorem counter_insert (db : Database) (table name : String) (n : ℤ) :
    counter { db with counters := db.counters.insert table n } name =
      if name = table then n else db.counter name := by
  rw [counter, Keyed.lookup_insert_eq]
  split_ifs <;> rfl

end Database

/-- The tables a process has seen a counter of. -/
def Opening.seen : Opening → List CountedTable
  | .down | .look .blocks | .count .blocks | .insert .blocks _ => []
  | .look .transactions | .count .transactions | .insert .transactions _ => [.blocks]
  | .opened => [.blocks, .transactions]

theorem Opening.mem_seen_after {table t : CountedTable} :
    t ∈ (Opening.after table).seen ↔ t = table ∨ t ∈ (Opening.look table).seen := by
  cases table <;> cases t <;> decide

theorem Opening.seen_count (table : CountedTable) :
    (Opening.count table).seen = (Opening.look table).seen := by
  cases table <;> rfl

theorem Opening.seen_insert (table : CountedTable) (n : ℕ) :
    (Opening.insert table n).seen = (Opening.look table).seen := by
  cases table <;> rfl

namespace Openings

variable {s s' : Openings}

/-- **What a process has seen is there.** -/
def Seeded (s : Openings) : Prop := ∀ i, ∀ table ∈ (s.process i).seen, table.name ∈ s.db.counters

/-- **A counter counts**, and so does a process that is about to write one nobody has written. -/
structure Counts (table : CountedTable) (s : Openings) : Prop where
  right : table.name ∈ s.db.counters → table.Right s.db
  read : ∀ i n, s.process i = .insert table n → table.name ∉ s.db.counters → n = table.rows s.db

theorem Seeded.goes (h : Seeded s) {i : ℕ} {place : Opening}
    (hseen : ∀ table ∈ place.seen, table.name ∈ s.db.counters) : Seeded (s.goes i place) := by
  intro j table hmem
  rcases process_goes (rfl : (s.goes i place).process j = _) with ⟨-, hplace⟩ | hplace
  · rw [← hplace] at hmem
    exact hseen table hmem
  · rw [← hplace] at hmem
    exact h j table hmem

theorem Counts.goes {table : CountedTable} (h : Counts table s) {i : ℕ} {place : Opening}
    (hplace : ∀ n, place = .insert table n → n = table.rows s.db) :
    Counts table (s.goes i place) where
  right := h.right
  read j n hj hnew := by
    rcases process_goes hj with ⟨-, heq⟩ | heq
    · exact hplace n heq
    · exact h.read j n heq hnew

theorem Seeded.statement (h : Seeded s) {i : ℕ} (hs : Statement s i s') : Seeded s' := by
  cases hs with
  | @found table hplace hmem =>
    refine h.goes fun t ht => ?_
    rcases Opening.mem_seen_after.mp ht with rfl | ht
    · exact hmem
    · exact h i t (by rwa [hplace])
  | @missing table hplace hmem =>
    refine h.goes fun t ht => h i t ?_
    rwa [hplace, ← Opening.seen_count]
  | @counted table hplace =>
    refine h.goes fun t ht => h i t ?_
    rwa [hplace, Opening.seen_count, ← Opening.seen_insert]
  | refused hplace hmem => exact h.goes fun t ht => absurd ht List.not_mem_nil
  | @inserted table n hplace hmem =>
    have hwritten : Seeded { s with db := { s.db with
        counters := s.db.counters.insert table.name n } } :=
      fun j t ht => (AList.mem_insert _).mpr (.inr (h j t ht))
    refine hwritten.goes fun t ht => (AList.mem_insert _).mpr ?_
    rcases Opening.mem_seen_after.mp ht with rfl | ht
    · exact .inl rfl
    · refine .inr (h i t ?_)
      rwa [hplace, Opening.seen_insert]

/-- **A statement leaves the counters right**: one that is written was counted when nobody had one,
and nobody writes rows before he has seen it. -/
theorem Counts.statement {table : CountedTable} (h : Counts table s) {i : ℕ}
    (hs : Statement s i s') : Counts table s' := by
  cases hs with
  | @found t hplace hmem =>
    refine h.goes fun n hn => ?_
    cases t <;> cases hn
  | missing hplace hmem => exact h.goes fun n hn => by cases hn
  | counted hplace =>
    refine h.goes fun n hn => ?_
    cases hn
    rfl
  | refused hplace hmem => exact h.goes fun n hn => by cases hn
  | @inserted t n hplace hmem =>
    have hrows : ∀ t' : CountedTable,
        t'.rows { s.db with counters := s.db.counters.insert t.name n } = t'.rows s.db := by
      intro t'
      cases t' <;> rfl
    have hwritten : Counts table { s with db := { s.db with
        counters := s.db.counters.insert t.name n } } := by
      constructor
      · intro hcounted
        rw [CountedTable.Right, Database.counter_insert, hrows]
        by_cases hsame : table.name = t.name
        · obtain rfl := CountedTable.name_injective hsame
          rw [if_pos rfl]
          exact congrArg Nat.cast (h.read i n hplace hmem)
        · rw [if_neg hsame]
          exact h.right (((AList.mem_insert _).mp hcounted).resolve_left hsame)
      · intro j m hj hnew
        rw [hrows]
        exact h.read j m hj fun hold => hnew ((AList.mem_insert _).mpr (.inr hold))
    refine hwritten.goes fun m hm => ?_
    cases t <;> cases hm

section Keccak

variable [Keccak]

theorem Seeded.step (h : Seeded s) {a : OpeningAction} (hstep : s.exec a = some s') :
    Seeded s' := by
  cases a with
  | start i =>
    simp only [exec, Option.ite_none_right_eq_some, Option.some.injEq] at hstep
    obtain ⟨-, rfl⟩ := hstep
    exact h.goes fun t ht => absurd ht List.not_mem_nil
  | statement i => exact h.statement (statement_cases hstep)
  | call i c fails =>
    simp only [exec, Option.ite_none_right_eq_some, Option.some.injEq] at hstep
    obtain ⟨-, rfl⟩ := hstep
    exact fun j t ht => Database.mem_counters_attempt (h j t ht) c fails
  | stop i =>
    obtain rfl := Option.some.inj hstep
    exact h.goes fun t ht => absurd ht List.not_mem_nil

theorem Counts.step {table : CountedTable} (h : Counts table s) (hseeded : Seeded s)
    {a : OpeningAction}
    (hcall : ∀ i c fails, a = .call i c fails → table.Right s.db →
      table.Right (s.db.attempt c fails))
    (hstep : s.exec a = some s') : Counts table s' := by
  cases a with
  | start i =>
    simp only [exec, Option.ite_none_right_eq_some, Option.some.injEq] at hstep
    obtain ⟨-, rfl⟩ := hstep
    exact h.goes fun n hn => by cases hn
  | statement i => exact h.statement (statement_cases hstep)
  | call i c fails =>
    simp only [exec, Option.ite_none_right_eq_some, Option.some.injEq] at hstep
    obtain ⟨hopen, rfl⟩ := hstep
    -- Who writes has seen both counters, so no count is under way.
    have hmem : table.name ∈ s.db.counters :=
      hseeded i table (by rw [hopen]; cases table <;> decide)
    refine ⟨fun _ => hcall i c fails rfl (h.right hmem), fun j n hj hnew => ?_⟩
    exact absurd (Database.mem_counters_attempt hmem c fails) hnew
  | stop i =>
    obtain rfl := Option.some.inj hstep
    exact h.goes fun n hn => by cases hn

/-! ### Whole runs -/

variable {start : Database}

theorem seeded_of_reachable (h : (openings start).Reachable s) : Seeded s := by
  refine h.invariant ?_ fun s a s' hs _ hstep => hs.step hstep
  rintro s ⟨-, hdown⟩ i table hmem
  rw [hdown i] at hmem
  exact absurd hmem List.not_mem_nil

theorem counts_of_init {table : CountedTable}
    (h : table.name ∈ start.counters → table.Right start) (hs : (openings start).init s) :
    Counts table s := by
  obtain ⟨rfl, hdown⟩ := hs
  refine ⟨h, fun i n hi => ?_⟩
  rw [hdown i] at hi
  cases hi

theorem run_seed (start : Database) {i : ℕ} {table : CountedTable} (h : s.process i = .look table) :
    ∃ k ≤ 3, ∃ s', (∀ as, (openings start).run s (List.replicate k (.statement i) ++ as) =
      (openings start).run s' as) ∧ s'.process i = .after table := by
  by_cases hmem : table.name ∈ s.db.counters
  · have hlook : s.statement i = some (s.goes i (.after table)) := by simp [statement, h, hmem]
    refine ⟨1, by omega, s.goes i (.after table), fun as => ?_, process_goes_self s i _⟩
    simp only [List.replicate, List.cons_append, List.nil_append, System.run]
    simp only [openings, exec, hlook, Option.bind_some]
  · have hlook : s.statement i = some (s.goes i (.count table)) := by simp [statement, h, hmem]
    have hcount : (s.goes i (.count table)).statement i =
        some ((s.goes i (.count table)).goes i (.insert table (table.rows s.db))) := by
      simp [statement]
    obtain ⟨s', hinsert, hplace⟩ : ∃ s', ((s.goes i (.count table)).goes i
        (.insert table (table.rows s.db))).statement i = some s' ∧
          s'.process i = .after table := by
      simp [statement, hmem]
    refine ⟨3, le_rfl, s', fun as => ?_, hplace⟩
    simp only [List.replicate, List.cons_append, List.nil_append, System.run]
    simp only [openings, exec, hlook, hcount, hinsert, Option.bind_some]

/-- **A start that nobody is beside** has the database open after at most six statements. -/
theorem run_start {i : ℕ} (h : s.process i = .down) : ∃ k ≤ 6, ∃ s',
    (openings start).run s (.start i :: List.replicate k (.statement i)) = some s' ∧
      s'.process i = .opened := by
  have hstart : (openings start).exec s (.start i) = some (s.goes i (.look .blocks)) := if_pos h
  obtain ⟨k, hk, mid, hblocks, hmid⟩ :=
    run_seed start (process_goes_self s i (.look .blocks))
  obtain ⟨m, hm, s', htxs, hopened⟩ := run_seed start hmid
  refine ⟨k + m, by omega, s', ?_, hopened⟩
  have hend := htxs []
  rw [List.append_nil] at hend
  rw [System.run, hstart, Option.bind_some, ← List.replicate_append_replicate, hblocks, hend]
  rfl

end Keccak

end Openings

/-- Where every write is a chain's. -/
def OpeningAction.OfChain (chain : Chain) : OpeningAction → Prop
  | .call _ c _ => c.OfChain chain
  | _ => True

theorem OfChain.step [Keccak] {chain : Chain} {s s' : Openings} (h : OfChain chain s.db)
    {a : OpeningAction} (ha : a.OfChain chain) (hstep : s.exec a = some s') :
    OfChain chain s'.db := by
  cases a with
  | start i =>
    simp only [Openings.exec, Option.ite_none_right_eq_some, Option.some.injEq] at hstep
    obtain ⟨-, rfl⟩ := hstep
    exact h
  | statement i =>
    cases Openings.statement_cases hstep with
    | found hplace hmem => exact h
    | missing hplace hmem => exact h
    | counted hplace => exact h
    | refused hplace hmem => exact h
    | inserted hplace hmem => exact h
  | call i c fails =>
    simp only [Openings.exec, Option.ite_none_right_eq_some, Option.some.injEq] at hstep
    obtain ⟨-, rfl⟩ := hstep
    exact (h.attempt ha fails).1
  | stop i =>
    obtain rfl := Option.some.inj hstep
    exact h

/-- **Counters count whoever opens the database.** From one whose counters, where it has any, are
right: the blocks' counter is right in every state any processes reach, whatever they write; the
transactions' is where they write a chain's blocks over a chain's rows; who has the database open
has both, and nobody who is alone waits for it. -/
theorem counters_exact [Keccak] {start : Database}
    (h : ∀ table : CountedTable, table.name ∈ start.counters → table.Right start) :
    (∀ s, (openings start).Reachable s →
      ("blocks" ∈ s.db.counters → s.db.counter "blocks" = s.db.blocks.entries.length) ∧
      (∀ i, s.process i = .opened → "blocks" ∈ s.db.counters ∧ "transactions" ∈ s.db.counters) ∧
      ∀ i, s.process i = .down → ∃ k ≤ 6, ∃ s', (openings start).run s
        (.start i :: List.replicate k (.statement i)) = some s' ∧ s'.process i = .opened) ∧
    ∀ chain, OfChain chain start → ∀ s,
      (openings start).ReachableUnder (fun _ a => a.OfChain chain) s →
        ("transactions" ∈ s.db.counters →
          s.db.counter "transactions" = s.db.transactions.entries.length) ∧
        ∀ i, s.process i = .opened → CountersExact s.db := by
  have hblocks : ∀ s, (openings start).Reachable s → Openings.Counts .blocks s := by
    intro s hs
    refine (hs.invariant (I := fun s => Openings.Seeded s ∧ Openings.Counts .blocks s)
      (fun s h0 => ⟨Openings.seeded_of_reachable (.start h0), Openings.counts_of_init (h _) h0⟩)
      fun s a s' hs _ hstep => ⟨hs.1.step hstep, hs.2.step hs.1 ?_ hstep⟩).2
    exact fun i c fails _ hright => Database.attempt_blocks_counted hright c fails
  have hopened : ∀ s, (openings start).Reachable s → ∀ i, s.process i = .opened →
      "blocks" ∈ s.db.counters ∧ "transactions" ∈ s.db.counters := by
    intro s hs i hi
    have hseen := Openings.seeded_of_reachable hs i
    rw [hi] at hseen
    exact ⟨hseen .blocks (by decide), hseen .transactions (by decide)⟩
  refine ⟨fun s hs => ⟨(hblocks s hs).right, hopened s hs, fun i hi => Openings.run_start hi⟩,
    fun chain hchain s hs => ?_⟩
  have hany := hs.mono fun _ _ _ => trivial
  have htxs : Openings.Counts .transactions s := by
    refine (hs.invariant (I := fun s => Openings.Seeded s ∧ OfChain chain s.db ∧
      Openings.Counts .transactions s) ?_ ?_).2.2
    · intro s h0
      refine ⟨Openings.seeded_of_reachable (.start h0), ?_, Openings.counts_of_init (h _) h0⟩
      rw [h0.1]
      exact hchain
    · rintro s a s' ⟨hseeded, hof, hcounts⟩ ha hstep
      refine ⟨hseeded.step hstep, hof.step ha hstep, hcounts.step hseeded ?_ hstep⟩
      rintro i c fails rfl hright
      exact (hof.attempt ha fails).2 hright
  refine ⟨htxs.right, fun i hi => ?_⟩
  obtain ⟨hb, ht⟩ := hopened s hany i hi
  exact ⟨(hblocks s hany).right hb, htxs.right ht⟩

/-! ## Two starts at once -/

section Sample

attribute [local instance] Keccak.sponge

/-- A database of an older build, with one block. -/
def older : Database := { Database.minted with counters := ∅ }

/-- The second process counts before the first has written, and is refused. -/
def race : List OpeningAction :=
  [.start 0, .start 1, .statement 0, .statement 1, .statement 0, .statement 1, .statement 0,
    .statement 1, .statement 0, .statement 0, .statement 0]

theorem counters_exact_older :
    (((openings older).run ⟨older, fun _ => .down⟩ race).map fun s =>
      (s.process 0, s.process 1, s.db.counter "blocks")) = some (.opened, .down, 1) ∧
    (∀ s, (openings older).Reachable s →
      ("blocks" ∈ s.db.counters → s.db.counter "blocks" = s.db.blocks.entries.length) ∧
      (∀ i, s.process i = .opened → "blocks" ∈ s.db.counters ∧ "transactions" ∈ s.db.counters) ∧
      ∀ i, s.process i = .down → ∃ k ≤ 6, ∃ s', (openings older).run s
        (.start i :: List.replicate k (.statement i)) = some s' ∧ s'.process i = .opened) ∧
    ∀ chain, OfChain chain older → ∀ s,
      (openings older).ReachableUnder (fun _ a => a.OfChain chain) s →
        ("transactions" ∈ s.db.counters →
          s.db.counter "transactions" = s.db.transactions.entries.length) ∧
        ∀ i, s.process i = .opened → CountersExact s.db :=
  ⟨by decide +kernel, counters_exact fun _ h => absurd h (AList.notMem_empty _)⟩

end Sample

end ChainExplorer
