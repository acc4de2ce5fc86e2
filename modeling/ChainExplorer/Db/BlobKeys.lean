import ChainExplorer.Db.Schema
import ChainExplorer.Lib.Rekey
import ChainExplorer.Lib.System
import ChainExplorer.Spelling

/-!
# Balance keys as bytes

Older builds wrote the keys of both balance tables as checksummed text. A start converts them to
bytes and marks that it did, in one transaction (`db.rs`).

* `updateKeys`: the statement on one table.
* `migration`: starts side by side, each of which may fail anywhere; one at a time writes.
* **`blobBalanceKeys_keeps`**: in every run, what is committed is the database as it was or all of it
  converted, with every balance.
-/

namespace ChainExplorer

open Keyed Text

/-! ## The statement -/

/-- What a column of a key holds. -/
inductive SqlKey
  | null
  | text (s : String)
  | blob (bytes : Bytes)
deriving DecidableEq

namespace SqlKey

/-- `typeof(x) = 'text'`. -/
def isText : SqlKey → Bool
  | .text _ => true
  | _ => false

/-- `substr(x, 3)`. -/
def substr3 : SqlKey → SqlKey
  | .null => .null
  | .text s => .text (String.ofList (s.toList.drop 2))
  | .blob bytes => .blob (bytes.drop 2)

/-- `unhex(x)`, of bytes as the characters they are; NULL for what is not hexadecimal. -/
def unhex : SqlKey → SqlKey
  | .null => .null
  | .text s => (Hex.decode s.toList).elim .null .blob
  | .blob bytes => (Hex.decode (bytes.map fun b => Char.ofNat b.toNat)).elim .null .blob

end SqlKey

/-- The primary key of a balance table: `token_addr`, `holder_addr`. -/
abbrev RowKey := SqlKey × SqlKey

/-- The key that the statement sets; neither column may be NULL. -/
def blobKey? (k : RowKey) : Option RowKey :=
  let token := k.1.substr3.unhex
  let holder := k.2.substr3.unhex
  if token = .null ∨ holder = .null then none else some (token, holder)

/-- **`UPDATE … WHERE typeof(token_addr) = 'text'`**, in whatever order the rows are met. -/
def updateKeys {υ : Type} (ch : Choices) (t : Keyed RowKey υ) : Option (Keyed RowKey υ) :=
  t.rekeyAll blobKey? (ch.order (t.keys.filter fun k => k.1.isText))

/-! ## The starts -/

structure BalanceRow where
  balance : String
  updatedAt : ℤ
deriving DecidableEq

/-- What the conversion reads and writes of a database. -/
structure BalanceTables where
  tokenBalances : Keyed RowKey BalanceRow
  genesisBalances : Keyed RowKey String
  kv : Keyed String String

/-- The next statement of a transaction. -/
inductive MigrationStage
  | tokens
  | genesis
  | mark
  | commit
deriving DecidableEq

/-- A transaction that is open, on its own copy. -/
structure MigrationTxn where
  stage : MigrationStage
  working : BalanceTables

/-- The database, the starts that read no mark and the transaction of one of them. -/
structure Migration where
  committed : BalanceTables
  waiting : ℕ
  txn : Option MigrationTxn

inductive MigrationAction
  | check
  | begin
  | statement (ch : Choices)
  /-- A statement or the commit fails, or the process ends: the transaction is rolled back. -/
  | fail
  | giveUp

/-- The statement of a stage on the working copy; an error rolls back. -/
def MigrationTxn.statement (ch : Choices) (t : MigrationTxn) : Option MigrationTxn :=
  let w := t.working
  match t.stage with
  | .tokens => (updateKeys ch w.tokenBalances).map fun b => ⟨.genesis, { w with tokenBalances := b }⟩
  | .genesis => (updateKeys ch w.genesisBalances).map fun b => ⟨.mark, { w with genesisBalances := b }⟩
  | .mark => some ⟨.commit, { w with kv := w.kv.insert Database.balanceKeysBlob "1" }⟩
  | .commit => none

/-- `blob_balance_keys`, a step at a time. -/
def Migration.exec (s : Migration) : MigrationAction → Option Migration
  | .check =>
    if Database.balanceKeysBlob ∈ s.committed.kv then some s
    else some { s with waiting := s.waiting + 1 }
  | .begin =>
    -- Only one connection writes at a time.
    if 0 < s.waiting ∧ s.txn.isNone then
      some { s with waiting := s.waiting - 1, txn := some ⟨.tokens, s.committed⟩ }
    else none
  | .statement ch =>
    s.txn.map fun t =>
      match t.stage with
      | .commit => { s with committed := t.working, txn := none }
      | _ => { s with txn := t.statement ch }
  | .fail => if s.txn.isSome then some { s with txn := none } else none
  | .giveUp => if 0 < s.waiting then some { s with waiting := s.waiting - 1 } else none

/-- **Starts side by side** on a database. -/
def migration (db : BalanceTables) : System Migration MigrationAction where
  init s := s = ⟨db, 0, none⟩
  exec := Migration.exec

/-! ## Keys -/

section Keys

variable [Keccak]

/-- A key of an older build. -/
def textKey (token holder : Bytes) : RowKey := (.text (blobAddr token), .text (blobAddr holder))

omit [Keccak] in
def bytesKey (token holder : Bytes) : RowKey := (.blob token, .blob holder)

/-- **A table of an older build**: its keys are addresses in their one spelling, but for some that are
the bytes of others already. -/
structure Legacy {υ : Type} (t : Keyed RowKey υ) : Prop where
  keys : ∀ k ∈ t, ∃ token holder, k = textKey token holder ∨ k = bytesKey token holder
  apart : ∀ token holder, textKey token holder ∈ t → bytesKey token holder ∉ t

/-- **Every balance is under the bytes of its token and holder**: none is lost, merged or duplicated,
and no value changes. -/
structure Converted {υ : Type} (old new : Keyed RowKey υ) : Prop where
  found : ∀ token holder, new.lookup (bytesKey token holder) =
    (old.lookup (textKey token holder)).or (old.lookup (bytesKey token holder))
  keys : ∀ k ∈ new, ∃ token holder, k = bytesKey token holder
  rows : (new.entries.map Sigma.snd).Perm (old.entries.map Sigma.snd)

omit [Keccak] in
/-- What becomes of a key. -/
def newKey (k : RowKey) : RowKey := if k.1.isText then (blobKey? k).getD k else k

theorem unhex_substr3 (bytes : Bytes) : (SqlKey.text (blobAddr bytes)).substr3.unhex = .blob bytes := by
  have hlower : toAsciiLower ((blobAddr bytes).toList.drop 2) = toAsciiLower (Hex.encode bytes) := by
    rw [toAsciiLower_encode, toAsciiLower, List.map_drop, ← toAsciiLower, toAsciiLower_blobAddr, blobHex,
      String.toList_ofList]
    rfl
  rw [SqlKey.substr3, SqlKey.unhex, String.toList_ofList, decode_of_toAsciiLower hlower,
    Hex.decode_encode]
  rfl

theorem blobKey?_textKey (token holder : Bytes) :
    blobKey? (textKey token holder) = some (bytesKey token holder) := by
  unfold blobKey? textKey
  simp only [unhex_substr3]
  rfl

theorem newKey_textKey (token holder : Bytes) :
    newKey (textKey token holder) = bytesKey token holder := by
  rw [newKey, blobKey?_textKey]
  rfl

omit [Keccak] in
theorem newKey_bytesKey (token holder : Bytes) :
    newKey (bytesKey token holder) = bytesKey token holder := rfl

omit [Keccak] in
theorem bytesKey_inj {token holder token' holder' : Bytes}
    (h : bytesKey token holder = bytesKey token' holder') : token = token' ∧ holder = holder' := by
  obtain ⟨h1, h2⟩ := Prod.mk.inj h
  exact ⟨SqlKey.blob.inj h1, SqlKey.blob.inj h2⟩

variable {υ : Type} {t t' : Keyed RowKey υ}

theorem updateKeys_rekeyed (h : Legacy t) (ch : Choices) :
    ∃ t', updateKeys ch t = some t' ∧ Rekeyed newKey t t' := by
  have hmem : ∀ k, k ∈ ch.order (t.keys.filter fun k => k.1.isText) ↔ k ∈ t ∧ k.1.isText = true := by
    intro k
    rw [(ch.perm _).mem_iff, List.mem_filter]
    rfl
  have htext : ∀ k ∈ ch.order (t.keys.filter fun k => k.1.isText),
      ∃ token holder, k = textKey token holder := by
    intro k hk
    obtain ⟨hkt, hk1⟩ := (hmem k).mp hk
    obtain ⟨token, holder, rfl | rfl⟩ := h.keys k hkt
    · exact ⟨token, holder, rfl⟩
    · exact absurd hk1 Bool.false_ne_true
  refine rekeyAll_rekeyed ?_ ?_ ?_ ?_ ?_ ?_
  · intro k hk
    obtain ⟨token, holder, rfl⟩ := htext k hk
    rw [blobKey?_textKey, newKey_textKey]
  · exact ((ch.perm _).nodup_iff).mpr (t.nodupKeys.filter _)
  · exact fun k hk => ((hmem k).mp hk).1
  · intro k hk
    obtain ⟨token, holder, rfl⟩ := htext k hk
    rw [newKey_textKey]
    exact ⟨rfl, fun hmem' => absurd ((hmem _).mp hmem').2 Bool.false_ne_true⟩
  · intro k hk hout
    rw [newKey, if_neg fun hk1 => hout ((hmem k).mpr ⟨hk, hk1⟩)]
  · intro j hj k hk hjk
    obtain ⟨token, holder, rfl | rfl⟩ := h.keys j hj <;>
      obtain ⟨token', holder', rfl | rfl⟩ := h.keys k hk
    · rw [newKey_textKey, newKey_textKey] at hjk
      obtain ⟨rfl, rfl⟩ := bytesKey_inj hjk
      rfl
    · rw [newKey_textKey, newKey_bytesKey] at hjk
      obtain ⟨rfl, rfl⟩ := bytesKey_inj hjk
      exact absurd hk (h.apart _ _ hj)
    · rw [newKey_textKey, newKey_bytesKey] at hjk
      obtain ⟨rfl, rfl⟩ := bytesKey_inj hjk
      exact absurd hj (h.apart _ _ hk)
    · rw [newKey_bytesKey, newKey_bytesKey] at hjk
      exact hjk

theorem Converted.of_rekeyed (h : Legacy t) (hnew : Rekeyed newKey t t') : Converted t t' where
  found token holder := by
    refine Option.ext fun v => ?_
    rw [hnew.lookup, Option.or_eq_some_iff]
    constructor
    · rintro ⟨j, hj, hkey⟩
      have hmem : j ∈ t := mem_of_lookup hj
      obtain ⟨token', holder', rfl | rfl⟩ := h.keys j hmem
      · rw [newKey_textKey] at hkey
        obtain ⟨rfl, rfl⟩ := bytesKey_inj hkey
        exact .inl hj
      · obtain ⟨rfl, rfl⟩ := bytesKey_inj hkey
        exact .inr ⟨AList.lookup_eq_none.mpr fun htext => h.apart _ _ htext hmem, hj⟩
    · rintro (hv | ⟨-, hv⟩)
      · exact ⟨_, hv, newKey_textKey token holder⟩
      · exact ⟨_, hv, rfl⟩
  keys k hk := by
    obtain ⟨j, hj, rfl⟩ := hnew.exists_of_mem hk
    obtain ⟨token, holder, rfl | rfl⟩ := h.keys j hj
    · exact ⟨token, holder, newKey_textKey token holder⟩
    · exact ⟨token, holder, rfl⟩
  rows := hnew.values

theorem updateKeys_converted (h : Converted t t') (ch : Choices) : updateKeys ch t' = some t' := by
  have hnone : t'.keys.filter (fun k => k.1.isText) = [] := by
    rw [List.filter_eq_nil_iff]
    intro k hk
    obtain ⟨token, holder, rfl⟩ := h.keys k hk
    exact Bool.false_ne_true
  rw [updateKeys, hnone, (ch.perm []).eq_nil]
  rfl

end Keys

/-! ## Every run -/

section Run

variable [Keccak] {db : BalanceTables}

/-- **Both tables converted, and marked.** -/
structure Migrated (db w : BalanceTables) : Prop where
  tokens : Converted db.tokenBalances w.tokenBalances
  genesis : Converted db.genesisBalances w.genesisBalances
  kv : w.kv = db.kv.insert Database.balanceKeysBlob "1"

theorem Migrated.marked {w : BalanceTables} (h : Migrated db w) : Database.balanceKeysBlob ∈ w.kv := by
  rw [h.kv]
  exact (AList.mem_insert _).mpr (.inl rfl)

/-- What a transaction on the old database has done so far. -/
def MigrationTxn.Converts (db : BalanceTables) (t : MigrationTxn) : Prop :=
  match t.stage with
  | .tokens => t.working = db
  | .genesis => Converted db.tokenBalances t.working.tokenBalances ∧
      t.working.genesisBalances = db.genesisBalances ∧ t.working.kv = db.kv
  | .mark => Converted db.tokenBalances t.working.tokenBalances ∧
      Converted db.genesisBalances t.working.genesisBalances ∧ t.working.kv = db.kv
  | .commit => Migrated db t.working

/-- **What every state keeps**: the old database, which at most a transaction has converted; or the
converted one, which no transaction changes. -/
inductive Migration.Inv (db : BalanceTables) : Migration → Prop
  | old {s : Migration} (hsame : s.committed = db) (htxn : ∀ t ∈ s.txn, t.Converts db) : Inv db s
  | new {s : Migration} (hdone : Migrated db s.committed)
      (htxn : ∀ t ∈ s.txn, t.working = s.committed) : Inv db s

theorem MigrationTxn.Converts.statement (htokens : Legacy db.tokenBalances)
    (hgenesis : Legacy db.genesisBalances) {t : MigrationTxn} (h : t.Converts db) (ch : Choices)
    (hstage : t.stage ≠ .commit) : ∃ t', t.statement ch = some t' ∧ t'.Converts db := by
  obtain ⟨stage, w⟩ := t
  cases stage with
  | tokens =>
    obtain rfl : w = db := h
    obtain ⟨b, hb, hrekeyed⟩ := updateKeys_rekeyed htokens ch
    refine ⟨⟨.genesis, { w with tokenBalances := b }⟩, ?_, .of_rekeyed htokens hrekeyed, rfl, rfl⟩
    simp only [MigrationTxn.statement, hb, Option.map_some]
  | genesis =>
    obtain ⟨hconverted, hsame, hkv⟩ := h
    obtain ⟨b, hb, hrekeyed⟩ := updateKeys_rekeyed hgenesis ch
    refine ⟨⟨.mark, { w with genesisBalances := b }⟩, ?_, hconverted,
      .of_rekeyed hgenesis hrekeyed, hkv⟩
    have hsame' : w.genesisBalances = db.genesisBalances := hsame
    simp only [MigrationTxn.statement, hsame', hb, Option.map_some]
  | mark =>
    obtain ⟨htok, hgen, hkv⟩ := h
    exact ⟨⟨.commit, { w with kv := w.kv.insert Database.balanceKeysBlob "1" }⟩, rfl, htok, hgen,
      congrArg (fun kv => kv.insert Database.balanceKeysBlob "1") hkv⟩
  | commit => exact absurd rfl hstage

theorem MigrationTxn.statement_same {t : MigrationTxn} (h : Migrated db t.working) (ch : Choices)
    (hstage : t.stage ≠ .commit) : ∃ t', t.statement ch = some t' ∧ t'.working = t.working := by
  obtain ⟨stage, w⟩ := t
  cases stage with
  | tokens =>
    have hw := updateKeys_converted h.tokens ch
    refine ⟨⟨.genesis, w⟩, ?_, rfl⟩
    simp only [MigrationTxn.statement, hw, Option.map_some]
  | genesis =>
    have hw := updateKeys_converted h.genesis ch
    refine ⟨⟨.mark, w⟩, ?_, rfl⟩
    simp only [MigrationTxn.statement, hw, Option.map_some]
  | mark =>
    have hkv : w.kv.insert Database.balanceKeysBlob "1" = w.kv := by
      have h := h.kv
      rw [h, AList.insert_insert]
    refine ⟨⟨.commit, w⟩, ?_, rfl⟩
    simp only [MigrationTxn.statement, hkv]
  | commit => exact absurd rfl hstage

omit [Keccak] in
/-- What a statement of an open transaction makes of the state. -/
theorem Migration.exec_statement {s : Migration} {t : MigrationTxn} (htxn : s.txn = some t)
    (ch : Choices) : s.exec (.statement ch) = some
      (if t.stage = .commit then { s with committed := t.working, txn := none }
        else { s with txn := t.statement ch }) := by
  obtain ⟨stage, w⟩ := t
  simp only [Migration.exec, htxn, Option.map_some]
  cases stage <;> rfl

theorem Migration.Inv.leave {s s' : Migration} (hs : Migration.Inv db s)
    (hsame : s'.committed = s.committed) (htxn : ∀ t ∈ s'.txn, t ∈ s.txn) :
    Migration.Inv db s' := by
  cases hs with
  | old hold hconverts => exact .old (hsame.trans hold) fun t ht => hconverts t (htxn t ht)
  | new hdone hworking =>
    exact .new (hsame ▸ hdone) fun t ht => (hworking t (htxn t ht)).trans hsame.symm

theorem Migration.Inv.step (htokens : Legacy db.tokenBalances) (hgenesis : Legacy db.genesisBalances)
    (hnew : Database.balanceKeysBlob ∉ db.kv) {s s' : Migration} {a : MigrationAction}
    (hs : Migration.Inv db s) (h : s.exec a = some s') :
    Migration.Inv db s' ∧ (Database.balanceKeysBlob ∈ s.committed.kv → s'.committed = s.committed) := by
  cases a with
  | check =>
    rw [Migration.exec] at h
    split at h <;> obtain rfl := Option.some.inj h
    · exact ⟨hs, fun _ => rfl⟩
    · exact ⟨hs.leave rfl fun _ ht => ht, fun _ => rfl⟩
  | begin =>
    rw [Migration.exec] at h
    split at h
    · obtain rfl := Option.some.inj h
      refine ⟨?_, fun _ => rfl⟩
      cases hs with
      | old hsame htxn =>
        refine .old hsame fun t ht => ?_
        obtain rfl := Option.some.inj ht
        exact hsame
      | new hdone htxn =>
        refine .new hdone fun t ht => ?_
        obtain rfl := Option.some.inj ht
        rfl
    · cases h
  | statement ch =>
    cases htxn : s.txn with
    | none =>
      rw [Migration.exec, htxn] at h
      cases h
    | some t =>
      rw [Migration.exec_statement htxn] at h
      obtain rfl := Option.some.inj h
      cases hs with
      | old hsame hconverts =>
        have ht : t.Converts db := hconverts t htxn
        have hunmarked : Database.balanceKeysBlob ∉ s.committed.kv := hsame ▸ hnew
        refine ⟨?_, fun hmark => absurd hmark hunmarked⟩
        split
        case isTrue hstage =>
          -- The commit: what was the old database is the converted one from here on.
          refine .new ?_ fun _ ht' => nomatch ht'
          rwa [MigrationTxn.Converts, hstage] at ht
        case isFalse hstage =>
          obtain ⟨t', hstep, ht'⟩ := ht.statement htokens hgenesis ch hstage
          refine .old hsame fun u hu => ?_
          obtain rfl : t' = u := Option.some.inj (hstep.symm.trans hu)
          exact ht'
      | new hdone hworking =>
        have ht : t.working = s.committed := hworking t htxn
        split
        case isTrue hstage =>
          exact ⟨.new (ht ▸ hdone) (fun _ ht' => nomatch ht'), fun _ => ht⟩
        case isFalse hstage =>
          obtain ⟨t', hstep, ht'⟩ := MigrationTxn.statement_same (ht ▸ hdone) ch hstage
          refine ⟨.new hdone fun u hu => ?_, fun _ => rfl⟩
          obtain rfl : t' = u := Option.some.inj (hstep.symm.trans hu)
          exact ht'.trans ht
  | fail =>
    rw [Migration.exec] at h
    split at h
    · obtain rfl := Option.some.inj h
      exact ⟨hs.leave rfl fun _ ht => (nomatch ht), fun _ => rfl⟩
    · cases h
  | giveUp =>
    rw [Migration.exec] at h
    split at h
    · obtain rfl := Option.some.inj h
      exact ⟨hs.leave rfl fun _ ht => ht, fun _ => rfl⟩
    · cases h

theorem Migration.Inv.of_reachable (htokens : Legacy db.tokenBalances)
    (hgenesis : Legacy db.genesisBalances) (hnew : Database.balanceKeysBlob ∉ db.kv) {s : Migration}
    (hs : (migration db).Reachable s) : Migration.Inv db s := by
  refine hs.invariant ?_ fun s a s' hinv _ h => (hinv.step htokens hgenesis hnew h).1
  rintro s rfl
  exact .old rfl fun _ ht => nomatch ht

theorem Migration.Inv.run (htokens : Legacy db.tokenBalances) (hgenesis : Legacy db.genesisBalances)
    (hnew : Database.balanceKeysBlob ∉ db.kv) {s s' : Migration} {acts : List MigrationAction}
    (hs : Migration.Inv db s) (hmark : Database.balanceKeysBlob ∈ s.committed.kv)
    (h : (migration db).run s acts = some s') : s'.committed = s.committed := by
  induction acts generalizing s with
  | nil =>
    obtain rfl := Option.some.inj h
    rfl
  | cons a acts ih =>
    obtain ⟨t, ht, hrest⟩ := Option.bind_eq_some_iff.mp h
    obtain ⟨hinv, hkept⟩ := hs.step htokens hgenesis hnew ht
    have hsame := hkept hmark
    exact (ih hinv (hsame ▸ hmark) hrest).trans hsame

/-- **A start that nothing stops** converts and marks the database, in whatever order its statements
meet the rows. -/
theorem Migration.run_complete (htokens : Legacy db.tokenBalances)
    (hgenesis : Legacy db.genesisBalances) (hnew : Database.balanceKeysBlob ∉ db.kv)
    (ch₁ ch₂ ch₃ ch₄ : Choices) : ∃ w, Migrated db w ∧ (migration db).run ⟨db, 0, none⟩
      [.check, .begin, .statement ch₁, .statement ch₂, .statement ch₃, .statement ch₄] =
        some ⟨w, 0, none⟩ := by
  obtain ⟨tokens, ht, htokens'⟩ := updateKeys_rekeyed htokens ch₁
  obtain ⟨genesis, hg, hgenesis'⟩ := updateKeys_rekeyed hgenesis ch₂
  refine ⟨⟨tokens, genesis, db.kv.insert Database.balanceKeysBlob "1"⟩,
    ⟨.of_rekeyed htokens htokens', .of_rekeyed hgenesis hgenesis', rfl⟩, ?_⟩
  have hcheck : Migration.exec ⟨db, 0, none⟩ .check = some ⟨db, 1, none⟩ := if_neg hnew
  have hbegin : Migration.exec ⟨db, 1, none⟩ .begin = some ⟨db, 0, some ⟨.tokens, db⟩⟩ := rfl
  have hfirst : Migration.exec ⟨db, 0, some ⟨.tokens, db⟩⟩ (.statement ch₁) =
      some ⟨db, 0, some ⟨.genesis, { db with tokenBalances := tokens }⟩⟩ := by
    simp only [Migration.exec, MigrationTxn.statement, ht, Option.map_some]
  have hsecond : Migration.exec ⟨db, 0, some ⟨.genesis, { db with tokenBalances := tokens }⟩⟩
      (.statement ch₂) = some ⟨db, 0, some ⟨.mark, ⟨tokens, genesis, db.kv⟩⟩⟩ := by
    simp only [Migration.exec, MigrationTxn.statement, hg, Option.map_some]
  simp only [System.run, migration, hcheck, hbegin, hfirst, hsecond, Option.bind_some]
  rfl

/-- **The key migration keeps every balance.** In every run of starts on a database of an older build,
what is committed is that database, or, once it is marked, its conversion, for good; and a start that
nothing stops gets there. -/
theorem blobBalanceKeys_keeps (htokens : Legacy db.tokenBalances)
    (hgenesis : Legacy db.genesisBalances) (hnew : Database.balanceKeysBlob ∉ db.kv) :
    (∀ s, (migration db).Reachable s →
      (Database.balanceKeysBlob ∉ s.committed.kv → s.committed = db) ∧
      (Database.balanceKeysBlob ∈ s.committed.kv → Migrated db s.committed ∧
        ∀ acts s', (migration db).run s acts = some s' → s'.committed = s.committed)) ∧
    ∀ ch₁ ch₂ ch₃ ch₄, ∃ w, Migrated db w ∧ (migration db).run ⟨db, 0, none⟩
      [.check, .begin, .statement ch₁, .statement ch₂, .statement ch₃, .statement ch₄] =
        some ⟨w, 0, none⟩ := by
  refine ⟨fun s hs => ?_, Migration.run_complete htokens hgenesis hnew⟩
  have hinv : Migration.Inv db s := .of_reachable htokens hgenesis hnew hs
  refine ⟨fun hmark => ?_, fun hmark => ⟨?_, fun acts s' h =>
    hinv.run htokens hgenesis hnew hmark h⟩⟩
  · cases hinv with
    | old hsame _ => exact hsame
    | new hdone _ => exact absurd hdone.marked hmark
  · cases hinv with
    | old hsame _ => exact absurd (hsame ▸ hmark) hnew
    | new hdone _ => exact hdone

end Run

/-! ## A balance in each spelling -/

section Sample

attribute [local instance] Keccak.sponge

def spelled : RowKey := textKey [0x20] [0x11]

def asBytes : RowKey := bytesKey [0x20] [0x12]

/-- A database that an older build wrote and a newer one began to. -/
def halfNew : BalanceTables where
  tokenBalances := (AList.singleton spelled ⟨"5", 0⟩).insert asBytes ⟨"7", 0⟩
  genesisBalances := AList.singleton spelled "3"
  kv := ∅

theorem legacy_sample {υ : Type} {t : Keyed RowKey υ} (h : ∀ k ∈ t, k = asBytes ∨ k = spelled) :
    Legacy t where
  keys k hk := by
    rcases h k hk with rfl | rfl
    · exact ⟨_, _, .inr rfl⟩
    · exact ⟨_, _, .inl rfl⟩
  apart token holder htext hbytes := by
    rcases h _ htext with heq | heq
    · cases congrArg Prod.fst heq
    · have hholder : blobAddr holder = blobAddr [0x11] := SqlKey.text.inj (Prod.mk.inj heq).2
      obtain rfl := blobAddr_injective hholder
      rcases h _ hbytes with heq' | heq'
      · have hlast : ([0x11] : Bytes) = [0x12] := (bytesKey_inj heq').2
        exact absurd hlast (by decide)
      · cases congrArg Prod.fst heq'

theorem halfNew_tokens : Legacy halfNew.tokenBalances :=
  legacy_sample fun _ hk => ((AList.mem_insert _).mp hk).imp_right List.mem_singleton.mp

theorem halfNew_genesis : Legacy halfNew.genesisBalances :=
  legacy_sample fun _ hk => .inr (List.mem_singleton.mp hk)

theorem blobBalanceKeys_keeps_halfNew :
    (∀ s, (migration halfNew).Reachable s →
      (Database.balanceKeysBlob ∉ s.committed.kv → s.committed = halfNew) ∧
      (Database.balanceKeysBlob ∈ s.committed.kv → Migrated halfNew s.committed ∧
        ∀ acts s', (migration halfNew).run s acts = some s' → s'.committed = s.committed)) ∧
    ∀ ch₁ ch₂ ch₃ ch₄, ∃ w, Migrated halfNew w ∧ (migration halfNew).run ⟨halfNew, 0, none⟩
      [.check, .begin, .statement ch₁, .statement ch₂, .statement ch₃, .statement ch₄] =
        some ⟨w, 0, none⟩ :=
  blobBalanceKeys_keeps halfNew_tokens halfNew_genesis (AList.notMem_empty _)

end Sample

end ChainExplorer
