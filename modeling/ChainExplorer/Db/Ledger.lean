import ChainExplorer.Db.Write

/-!
# The ledger behind the balances

What the balances and the holder counts of a database stand for, and what each write does to them.

* `Database.ledger`: what a holder received, less what it sent, plus what it held at genesis.
* `Balanced`: the balance rows hold the ledger. `Counted`: every token counts its holders.
* `Adjusts b db db' d c`: from the balances `b`, the writes from `db` to `db'` moved the balances
  by `d` and the holders of each token by `c`, and touched nothing else.
* **`adjustBalance_adjusts`**, **`applyTransferBalances_spec`**: the incremental writes.
* **`rebuildTokenBalances_balanced`**: the replay, from any database at all.
-/

namespace ChainExplorer

open Ledger (balanceOf balanceOf_cons balanceOf_append balanceOf_perm balanceOf_net postings net
  Holds holdings)

/-- A token and a holder, as stored. -/
def holderKey (h : Database.Holder) : HolderKey := (hexBlob h.1, hexBlob h.2)

/-- The two postings of a stored transfer. -/
def rowPostings (r : TransferRow) : List (HolderKey × ℤ) :=
  [((r.tokenAddr, r.fromAddr), -Database.bigint r.amount),
    ((r.tokenAddr, r.toAddr), Database.bigint r.amount)]

namespace Database

/-! ## What the rows stand for -/

/-- The sum of the amounts of the stored transfers with a property. -/
def amounts (db : Database) (p : TransferRow → Prop) [DecidablePred p] : ℤ :=
  ((db.transferRows.filter fun r => p r).map fun r => bigint r.amount).sum

/-- The genesis balance of a token's holder; none is zero. -/
def genesisBalance (db : Database) (token holder : Bytes) : ℤ :=
  (db.genesisBalances.lookup (token, holder)).elim 0 bigint

/-- **What a holder has of a token**: received, less sent, plus held at genesis. -/
def ledger (db : Database) (token holder : Bytes) : ℤ :=
  db.amounts (fun r => r.tokenAddr = token ∧ r.toAddr = holder) -
    db.amounts (fun r => r.tokenAddr = token ∧ r.fromAddr = holder) +
    db.genesisBalance token holder

/-- Every balance row holds the ledger, and there is one for each that is not zero. -/
def Balanced (db : Database) : Prop :=
  Holds db.tokenBalances fun k => db.ledger k.1 k.2

/-- Every token counts its holders. -/
def Counted (db : Database) : Prop :=
  ∀ token row, db.tokenMetadata.lookup token = some row → row.holderCount = db.countHolders token

/-- The journal of the stored transfers. -/
def journal (db : Database) : List (HolderKey × ℤ) := db.transferRows.flatMap rowPostings

theorem balanceOf_flatMap_rowPostings (rows : List TransferRow) (k : HolderKey) :
    balanceOf (rows.flatMap rowPostings) k =
      ((rows.filter fun r => r.tokenAddr = k.1 ∧ r.toAddr = k.2).map fun r => bigint r.amount).sum -
      ((rows.filter fun r => r.tokenAddr = k.1 ∧ r.fromAddr = k.2).map
        fun r => bigint r.amount).sum := by
  induction rows with
  | nil => simp
  | cons r rows ih =>
    have hsingle : ∀ (a : HolderKey) (n : ℤ),
        (Pi.single a n : HolderKey → ℤ) k = if a.1 = k.1 ∧ a.2 = k.2 then n else 0 := by
      intro a n
      rw [Pi.single_apply]
      simp only [Prod.ext_iff, eq_comm]
    rw [List.flatMap_cons, balanceOf_append, Pi.add_apply, ih, rowPostings, balanceOf_cons,
      balanceOf_cons, Ledger.balanceOf_nil, zero_add, Pi.add_apply, hsingle, hsingle,
      List.filter_cons, List.filter_cons]
    simp only [decide_eq_true_eq]
    split_ifs <;> (try simp only [List.map_cons, List.sum_cons]) <;> ring

theorem ledger_eq (db : Database) (k : HolderKey) :
    db.ledger k.1 k.2 = balanceOf db.journal k + db.genesisBalance k.1 k.2 := by
  rw [ledger, journal, balanceOf_flatMap_rowPostings]
  rfl

/-! ## Adjusting balances -/

/-- **The writes moved balances only**: from the balances `b`, by `d`, and the holders of each
token by `c`. -/
structure Adjusts (b : HolderKey → ℤ) (db db' : Database) (d : HolderKey → ℤ) (c : Bytes → ℤ) :
    Prop where
  frame : db' = { db with tokenBalances := db'.tokenBalances }
  holds : Holds db'.tokenBalances (b + d)
  counts : ∀ token, (db'.countHolders token : ℤ) = db.countHolders token + c token

variable {b d d' : HolderKey → ℤ} {c c' : Bytes → ℤ} {db db' db'' : Database}

theorem Adjusts.refl (h : Holds db.tokenBalances b) : Adjusts b db db 0 0 where
  frame := rfl
  holds := by rwa [add_zero]
  counts token := by rw [Pi.zero_apply, add_zero]

theorem Adjusts.trans (h : Adjusts b db db' d c) (h' : Adjusts (b + d) db' db'' d' c') :
    Adjusts b db db'' (d + d') (c + c') where
  frame := by rw [h'.frame, h.frame]
  holds := by rw [← add_assoc]; exact h'.holds
  counts token := by rw [h'.counts, h.counts, Pi.add_apply, add_assoc]

/-- **One balance.** The count it returns is what the token's holders moved by. -/
theorem adjustBalance_adjusts (h : Holds db.tokenBalances b) (token holder : String) (delta : ℤ) :
    Adjusts b db (db.adjustBalance token holder delta).1
      (Pi.single (holderKey (token, holder)) delta)
      (Pi.single (hexBlob token) (db.adjustBalance token holder delta).2) := by
  unfold adjustBalance
  by_cases hd : delta = 0
  · rw [if_pos hd, hd, Pi.single_zero, Pi.single_zero]
    exact .refl h
  rw [if_neg hd]
  have hnew : bigint ((db.tokenBalances.lookup (holderKey (token, holder))).getD "0") + delta =
      b (holderKey (token, holder)) + delta := by
    rw [← h.lookup_getD (holderKey (token, holder))]
    rfl
  refine ⟨rfl, ?_, fun T => ?_⟩
  · have hpost := h.post (holderKey (token, holder)) delta
    rw [← hnew] at hpost
    exact hpost
  · have hcount := h.holdings_post (fun k => decide (k.1 = T)) (holderKey (token, holder))
      (b (holderKey (token, holder)) + delta)
    rw [← hnew] at hcount
    have hwas : Ledger.isHolding (db.tokenBalances.lookup (holderKey (token, holder))) =
        decide (0 < b (holderKey (token, holder))) := by
      rw [h, Ledger.isHolding_rowOf]
    rw [Pi.single_apply]
    refine hcount.trans (congrArg _ ?_)
    rw [← hwas]
    simp only [decide_eq_true_eq]
    exact if_congr eq_comm rfl rfl

/-- What the adjustments added up per token say about each token. -/
def movedOf (moved : Keyed String ℤ) : Bytes → ℤ :=
  balanceOf ((postings moved).map (Prod.map hexBlob id))

theorem movedOf_empty : movedOf ∅ = 0 := rfl

theorem movedOf_bump (moved : Keyed String ℤ) (token : String) (by_ : ℤ) :
    movedOf (moved.bump token by_) = movedOf moved + Pi.single (hexBlob token) by_ := by
  unfold movedOf
  rw [Ledger.balanceOf_map_postings, Ledger.balanceOf_map_postings]
  exact Keyed.total_bump (fun a n => (Pi.single (hexBlob a) n : Bytes → ℤ)) token by_ moved
    (Pi.single_zero _) fun x => Pi.single_add (f := fun _ => ℤ) _ x _

theorem adjustBalances_adjusts (ps : List (Holder × ℤ)) :
    ∀ {b : HolderKey → ℤ} {db : Database} (_ : Holds db.tokenBalances b) (moved : Keyed String ℤ),
      ∃ c, Adjusts b db (db.adjustBalances moved ps).1
        (balanceOf (ps.map (Prod.map holderKey id))) c ∧
        movedOf (db.adjustBalances moved ps).2 = movedOf moved + c := by
  induction ps with
  | nil =>
    intro b db h moved
    exact ⟨0, .refl h, (add_zero _).symm⟩
  | cons p ps ih =>
    intro b db h moved
    obtain ⟨⟨token, holder⟩, delta⟩ := p
    have h1 := adjustBalance_adjusts h token holder delta
    obtain ⟨c, hc, hm⟩ := ih h1.holds
      (moved.bump token (db.adjustBalance token holder delta).2)
    refine ⟨Pi.single (hexBlob token) (db.adjustBalance token holder delta).2 + c, ?_, ?_⟩
    · rw [adjustBalances, List.map_cons, balanceOf_cons, add_comm (balanceOf _)]
      exact h1.trans hc
    · rw [adjustBalances, hm, movedOf_bump, add_assoc]

/-! ## Moving the holder counts -/

/-- The token rows with `c` added to their counts. -/
def CountsMoved (db db' : Database) (c : Bytes → ℤ) : Prop :=
  db' = { db with tokenMetadata := db'.tokenMetadata } ∧
    ∀ token, db'.tokenMetadata.lookup token = (db.tokenMetadata.lookup token).map fun row =>
      { row with holderCount := row.holderCount + c token }

theorem CountsMoved.refl (db : Database) : CountsMoved db db 0 := by
  refine ⟨rfl, fun token => ?_⟩
  simp only [Pi.zero_apply, add_zero]
  exact Option.map_id'.symm

theorem CountsMoved.trans (h : CountsMoved db db' c) (h' : CountsMoved db' db'' c') :
    CountsMoved db db'' (c + c') := by
  refine ⟨by rw [h'.1, h.1], fun token => ?_⟩
  rw [h'.2, h.2, Option.map_map]
  simp only [Function.comp_def, Pi.add_apply, add_assoc]

theorem addToHolderCount_moved (db : Database) (token : String) (n : ℤ) :
    CountsMoved db (db.addToHolderCount token n) (Pi.single (hexBlob token) n) := by
  unfold addToHolderCount
  by_cases hn : n = 0
  · rw [if_pos hn, hn, Pi.single_zero]
    exact .refl db
  rw [if_neg hn]
  refine ⟨rfl, fun T => ?_⟩
  rw [Keyed.lookup_modify, Pi.single_apply]
  split_ifs with hT
  · rw [hT]
  · simp only [add_zero]
    exact Option.map_id'.symm

theorem foldl_addToHolderCount_moved (ps : List (String × ℤ)) (db : Database) :
    CountsMoved db (ps.foldl (fun db p => db.addToHolderCount p.1 p.2) db)
      (balanceOf (ps.map (Prod.map hexBlob id))) := by
  induction ps generalizing db with
  | nil => exact .refl db
  | cons p ps ih =>
    rw [List.foldl_cons, List.map_cons, balanceOf_cons, add_comm]
    exact (addToHolderCount_moved db p.1 p.2).trans (ih _)

theorem addToHolderCounts_moved (ch : Choices) (db : Database) (moved : Keyed String ℤ) :
    CountsMoved db (addToHolderCounts ch db moved) (movedOf moved) := by
  have hperm : balanceOf ((ch.order (postings moved)).map (Prod.map hexBlob id)) = movedOf moved :=
    balanceOf_perm ((ch.perm _).map _)
  have h := foldl_addToHolderCount_moved (ch.order (postings moved)) db
  rwa [hperm] at h

end Database

end ChainExplorer
