import ChainExplorer.Db.Effects

/-!
# What the other writes do

The writes that are not a block's: the genesis balances, the rebuild and the recount.

* **`saveGenesisBalances_saved`**: a page of genesis balances.
* **`rebuildTokenBalances_spec`**: the replay leaves the ledger, whatever the balances were.
* `recount_frame`, `recount_counted`: recounting touches counts only and gets them right.
-/

namespace ChainExplorer

open Ledger (balanceOf balanceOf_cons balanceOf_append balanceOf_perm balanceOf_entries Holds)

namespace Database

/-! ## Genesis balances -/

/-- A genesis balance, unless the holder has one. -/
def putGenesis (t : Keyed HolderKey String) (row : Holder × String) : Keyed HolderKey String :=
  t.insertOrIgnore (holderKey row.1) row.2

theorem Adjusts.withGenesis {b d : HolderKey → ℤ} {c : Bytes → ℤ} {db db' : Database}
    (h : Adjusts b db db' d c) (g : Keyed HolderKey String) :
    Adjusts b { db with genesisBalances := g } { db' with genesisBalances := g } d c where
  frame := by rw [h.frame]
  holds := h.holds
  counts := h.counts

theorem genesisBalance_eq (db : Database) (k : HolderKey) :
    db.genesisBalance k.1 k.2 = (db.genesisBalances.lookup k).elim 0 bigint := rfl

theorem addGenesisRows_adjusts (rows : List (Holder × String)) :
    ∀ {b : HolderKey → ℤ} {db : Database} (_ : Holds db.tokenBalances b) (moved : Keyed String ℤ),
      ∃ d c, Adjusts b { db with genesisBalances := rows.foldl putGenesis db.genesisBalances }
        (db.addGenesisRows moved rows).1 d c ∧
        movedOf (db.addGenesisRows moved rows).2 = movedOf moved + c ∧
        ∀ k : HolderKey, (db.addGenesisRows moved rows).1.genesisBalance k.1 k.2 =
          db.genesisBalance k.1 k.2 + d k := by
  induction rows with
  | nil =>
    intro b db h moved
    exact ⟨0, 0, .refl h, (add_zero _).symm, fun k => (add_zero _).symm⟩
  | cons row rows ih =>
    intro b db h moved
    obtain ⟨⟨token, holder⟩, balance⟩ := row
    by_cases hmem : holderKey (token, holder) ∈ db.genesisBalances
    · obtain ⟨d, c, hadj, hmoved, hgen⟩ := ih h moved
      have hskip : db.addGenesisRows moved (((token, holder), balance) :: rows) =
          db.addGenesisRows moved rows := if_pos hmem
      have hput : putGenesis db.genesisBalances ((token, holder), balance) = db.genesisBalances :=
        if_pos hmem
      rw [hskip, List.foldl_cons, hput]
      exact ⟨d, c, hadj, hmoved, hgen⟩
    · let db1 : Database := { db with
        genesisBalances := db.genesisBalances.insert (holderKey (token, holder)) balance }
      let r := db1.adjustBalance token holder (bigint balance)
      have h0 : Holds db1.tokenBalances b := h
      have h1 := adjustBalance_adjusts h0 token holder (bigint balance)
      obtain ⟨d, c, hadj, hmoved, hgen⟩ := ih h1.holds (moved.bump token r.2)
      have hadd : db.addGenesisRows moved (((token, holder), balance) :: rows) =
          r.1.addGenesisRows (moved.bump token r.2) rows := if_neg hmem
      have hput : putGenesis db.genesisBalances ((token, holder), balance) = db1.genesisBalances :=
        if_neg hmem
      have hkept : r.1.genesisBalances = db1.genesisBalances :=
        (congrArg Database.genesisBalances h1.frame :)
      rw [hadd, List.foldl_cons, hput, ← hkept]
      refine ⟨_, _, (h1.withGenesis _).trans hadj, ?_, fun k => ?_⟩
      · rw [hmoved, movedOf_bump, add_assoc]
      · rw [hgen, Pi.add_apply, ← add_assoc]
        congr 1
        rw [genesisBalance_eq, genesisBalance_eq, hkept, Keyed.lookup_insert_eq, Pi.single_apply]
        split_ifs with hk
        · rw [hk, AList.lookup_eq_none.mpr hmem, Option.elim_none, Option.elim_some, zero_add]
        · rw [add_zero]

/-- **What a page of genesis balances leaves**, from the balances `b`. -/
structure Saved (b : HolderKey → ℤ) (db db' : Database) (rows : List (Holder × String))
    (cursor : ℤ) (d : HolderKey → ℤ) : Prop where
  frame : db' = { db with
    tokenBalances := db'.tokenBalances
    tokenMetadata := db'.tokenMetadata
    genesisBalances := rows.foldl putGenesis db.genesisBalances
    kv := db.kv.insert genesisCursor (toString cursor) }
  holds : Holds db'.tokenBalances (b + d)
  genesis : ∀ k : HolderKey, db'.genesisBalance k.1 k.2 = db.genesisBalance k.1 k.2 + d k
  tokens : ∀ token, token ∈ db'.tokenMetadata ↔ token ∈ db.tokenMetadata
  counted : db.Counted → db'.Counted

theorem saveGenesisBalances_saved {b : HolderKey → ℤ} {db : Database}
    (h : Holds db.tokenBalances b) (ch : Choices) (rows : List (Holder × String)) (cursor : ℤ) :
    ∃ d, Saved b db (db.saveGenesisBalances ch rows cursor) rows cursor d := by
  obtain ⟨d, c, hadj, hmoved, hgen⟩ := addGenesisRows_adjusts rows h ∅
  rw [movedOf_empty, zero_add] at hmoved
  have hcounts := addToHolderCounts_moved ch (db.addGenesisRows ∅ rows).1
    (db.addGenesisRows ∅ rows).2
  rw [hmoved] at hcounts
  have hset := hadj.settled hcounts
  have hgenesis : (addToHolderCounts ch (db.addGenesisRows ∅ rows).1
      (db.addGenesisRows ∅ rows).2).genesisBalances = (db.addGenesisRows ∅ rows).1.genesisBalances :=
    (congrArg Database.genesisBalances hcounts.1 :)
  refine ⟨d, ?_, hset.holds, fun k => ?_, hset.tokens, hset.counted⟩
  · unfold saveGenesisBalances setKv
    simp only
    rw [hset.frame]
  · rw [← hgen k, genesisBalance_eq, genesisBalance_eq, ← hgenesis]
    rfl

theorem mem_foldl_putGenesis (rows : List (Holder × String)) (t : Keyed HolderKey String)
    (k : HolderKey) : k ∈ rows.foldl putGenesis t ↔
      k ∈ t ∨ k ∈ rows.map fun row => holderKey row.1 := by
  induction rows generalizing t with
  | nil => simp
  | cons row rows ih =>
    have hput : k ∈ putGenesis t row ↔ k = holderKey row.1 ∨ k ∈ t := by
      rw [← AList.lookup_isSome, ← AList.lookup_isSome, putGenesis, Keyed.lookup_insertOrIgnore]
      split_ifs with hk <;> simp [hk]
    rw [List.foldl_cons, ih, hput, List.map_cons, List.mem_cons]
    tauto

/-! ## Recounting -/

/-- **Only counts were rewritten**, each with the holders of its token. -/
structure Recounted (db db' : Database) : Prop where
  frame : db' = { db with tokenMetadata := db'.tokenMetadata }
  tokens : ∀ T, T ∈ db'.tokenMetadata ↔ T ∈ db.tokenMetadata
  rows : ∀ T row, db'.tokenMetadata.lookup T = some row →
    row.holderCount = db.countHolders T ∨ db.tokenMetadata.lookup T = some row

theorem updateHolderCount_recounted (db : Database) (token : String) :
    Recounted db (db.updateHolderCount token) := by
  refine ⟨rfl, fun T => ?_, fun T row hrow => ?_⟩
  · rw [← AList.lookup_isSome, ← AList.lookup_isSome, updateHolderCount, Keyed.lookup_modify]
    split_ifs with hT
    · rw [hT, Option.isSome_map]
    · rfl
  · rw [updateHolderCount, Keyed.lookup_modify] at hrow
    split_ifs at hrow with hT
    · obtain ⟨old, -, rfl⟩ := Option.map_eq_some_iff.mp hrow
      rw [hT]
      exact .inl rfl
    · exact .inr hrow

theorem foldl_updateHolderCount_recounted (tokens : List String) (db : Database) :
    Recounted db (tokens.foldl updateHolderCount db) := by
  induction tokens generalizing db with
  | nil => exact ⟨rfl, fun T => Iff.rfl, fun T row h => .inr h⟩
  | cons token tokens ih =>
    have h1 := updateHolderCount_recounted db token
    have h2 := ih (db.updateHolderCount token)
    rw [List.foldl_cons]
    refine ⟨by rw [h2.frame]; rfl, fun T => (h2.tokens T).trans (h1.tokens T), fun T row hrow => ?_⟩
    rcases h2.rows T row hrow with hrow | hrow
    · exact .inl hrow
    · exact h1.rows T row hrow

theorem Recounted.counted {db db' : Database} (h : Recounted db db') (hc : db.Counted) :
    db'.Counted := by
  intro T row hrow
  have hholders : db'.countHolders T = db.countHolders T := by rw [h.frame]; rfl
  rw [hholders]
  rcases h.rows T row hrow with hrow | hrow
  · exact hrow
  · exact hc T row hrow

section Keccak

variable [Keccak]

theorem syncHolderCounts_recounted (ch : Choices) (db : Database) :
    Recounted db (db.syncHolderCounts ch) :=
  foldl_updateHolderCount_recounted _ _

/-! ## The rebuild -/

theorem adjustBalance_blobAddr {b : HolderKey → ℤ} {db : Database}
    (h : Holds db.tokenBalances b) (k : HolderKey) (delta : ℤ) :
    ∃ c, Adjusts b db (db.adjustBalance (blobAddr k.1) (blobAddr k.2) delta).1
      (Pi.single k delta) c := by
  have hkey : holderKey (blobAddr k.1, blobAddr k.2) = k := by simp [holderKey, hexBlob_blobAddr]
  have hadj := adjustBalance_adjusts h (blobAddr k.1) (blobAddr k.2) delta
  rw [hkey] at hadj
  exact ⟨_, hadj⟩

theorem foldl_replayTransfer (rows : List TransferRow) :
    ∀ {b : HolderKey → ℤ} {s : Database × List String} (_ : Holds s.1.tokenBalances b),
      ∃ c, Adjusts b s.1 (rows.foldl replayTransfer s).1 (balanceOf (rows.flatMap rowPostings)) c := by
  induction rows with
  | nil =>
    intro b s h
    exact ⟨0, .refl h⟩
  | cons r rows ih =>
    intro b s h
    obtain ⟨c1, h1⟩ := adjustBalance_blobAddr h (r.tokenAddr, r.fromAddr) (-bigint r.amount)
    obtain ⟨c2, h2⟩ := adjustBalance_blobAddr h1.holds (r.tokenAddr, r.toAddr) (bigint r.amount)
    have h12 := h1.trans h2
    obtain ⟨c3, h3⟩ := ih (s := replayTransfer s r) h12.holds
    have hpost : balanceOf (rowPostings r) =
        Pi.single (r.tokenAddr, r.fromAddr) (-bigint r.amount) +
          Pi.single (r.tokenAddr, r.toAddr) (bigint r.amount) := by
      rw [rowPostings, balanceOf_cons, balanceOf_cons, Ledger.balanceOf_nil, zero_add, add_comm]
    rw [List.foldl_cons, List.flatMap_cons, balanceOf_append, hpost]
    exact ⟨_, h12.trans h3⟩

theorem foldl_replayGenesis (es : List (Σ _ : HolderKey, String)) :
    ∀ {b : HolderKey → ℤ} {s : Database × List String} (_ : Holds s.1.tokenBalances b),
      ∃ c, Adjusts b s.1 (es.foldl replayGenesis s).1
        (balanceOf (es.map fun e => (e.1, bigint e.2))) c := by
  induction es with
  | nil =>
    intro b s h
    exact ⟨0, .refl h⟩
  | cons e es ih =>
    intro b s h
    obtain ⟨c1, h1⟩ := adjustBalance_blobAddr h e.1 (bigint e.2)
    obtain ⟨c2, h2⟩ := ih (s := replayGenesis s e) h1.holds
    rw [List.foldl_cons, List.map_cons, balanceOf_cons, add_comm (balanceOf _)]
    exact ⟨_, h1.trans h2⟩

/-- **The rebuild leaves the ledger**, whatever the balances were, and touches nothing but the
balances and the counts. Where the balances already held the ledger, the counts stay right. -/
theorem rebuildTokenBalances_spec (ch : Choices) (db : Database) :
    db.rebuildTokenBalances ch = { db with
        tokenBalances := (db.rebuildTokenBalances ch).tokenBalances
        tokenMetadata := (db.rebuildTokenBalances ch).tokenMetadata } ∧
      (db.rebuildTokenBalances ch).Balanced ∧
      (∀ T, T ∈ (db.rebuildTokenBalances ch).tokenMetadata ↔ T ∈ db.tokenMetadata) ∧
      (db.Balanced → db.Counted → (db.rebuildTokenBalances ch).Counted) := by
  let s0 : Database × List String := ({ db with tokenBalances := ∅ }, [])
  let s1 := db.transferRows.foldl replayTransfer s0
  let s2 := (ch.order db.genesisBalances.entries).foldl replayGenesis s1
  obtain ⟨c1, h1⟩ := foldl_replayTransfer db.transferRows (s := s0) Holds.empty
  obtain ⟨c2, h2⟩ := foldl_replayGenesis (ch.order db.genesisBalances.entries) (s := s1) h1.holds
  have hre : Recounted s2.1 (db.rebuildTokenBalances ch) :=
    foldl_updateHolderCount_recounted (ch.order s2.2) s2.1
  have h12 := h1.trans h2
  have hgenesis : balanceOf ((ch.order db.genesisBalances.entries).map fun e => (e.1, bigint e.2)) =
      fun k => db.genesisBalance k.1 k.2 := by
    rw [balanceOf_perm ((ch.perm _).map _)]
    funext k
    exact balanceOf_entries bigint db.genesisBalances k
  have hframe : db.rebuildTokenBalances ch = { db with
      tokenBalances := (db.rebuildTokenBalances ch).tokenBalances
      tokenMetadata := (db.rebuildTokenBalances ch).tokenMetadata } := by
    have hs2 := h12.frame
    rw [hre.frame, hs2]
  have hledger : (0 + (balanceOf (db.transferRows.flatMap rowPostings) +
      balanceOf ((ch.order db.genesisBalances.entries).map fun e => (e.1, bigint e.2)))) =
      fun k : HolderKey => db.ledger k.1 k.2 := by
    rw [hgenesis, zero_add]
    funext k
    rw [ledger_eq]
    rfl
  have hsame : (fun k : HolderKey => (db.rebuildTokenBalances ch).ledger k.1 k.2) =
      fun k => db.ledger k.1 k.2 := by
    rw [hframe]
    rfl
  have hbal : (db.rebuildTokenBalances ch).tokenBalances = s2.1.tokenBalances := by rw [hre.frame]
  have hmeta : s2.1.tokenMetadata = db.tokenMetadata := by rw [h12.frame]
  have hholds : Holds (db.rebuildTokenBalances ch).tokenBalances fun k => db.ledger k.1 k.2 := by
    rw [hbal, ← hledger]
    exact h12.holds
  refine ⟨hframe, ?_, fun T => ?_, fun hb hc T row hrow => ?_⟩
  · rw [Balanced, hsame]
    exact hholds
  · rw [hre.tokens, hmeta]
  · rcases hre.rows T row hrow with hcount | hold
    · rw [hcount]
      unfold countHolders
      rw [hbal]
    · rw [hmeta] at hold
      rw [hc T row hold]
      exact congrArg Int.ofNat (Keyed.count_congr_lookup _ (hb.lookup_eq hholds))

end Keccak

end Database

end ChainExplorer
