import ChainExplorer.Db.Pages
import ChainExplorer.Lib.Totals
import Mathlib.Algebra.Order.BigOperators.Group.Finset

/-!
# The balances of a token together

What the holders of a token have together. A transfer takes from one what it gives to the other
(`apply_transfer_balances`, `db.rs`), so all that there ever is comes from genesis.

* `balanceSum`, `genesisSum`: all balances of a token, and what it had at genesis.
* **`balances_conserved`**: the first is the second, in every database reached; the holders that are
  listed have that and what the others owe.
-/

namespace ChainExplorer

open Ledger

namespace Database

section Keccak

variable [Keccak]

/-! ## Sums -/

/-- All balances of a token together. -/
def balanceSum (db : Database) (token : Bytes) : ℤ :=
  db.tokenBalances.total fun k balance => if k.1 = token then bigint balance else 0

/-- What the holders of a token had at genesis. -/
def genesisSum (db : Database) (token : Bytes) : ℤ :=
  db.genesisBalances.total fun k balance => if k.1 = token then bigint balance else 0

/-- What the holders that are listed have. -/
def heldSum (ch : Choices) (db : Database) (tokenAddr : String) : ℤ :=
  ((tokenHolders ch db tokenAddr).map fun p => bigint p.2).sum

omit [Keccak] in
theorem sum_rowPostings (token : Bytes) (rows : List TransferRow) :
    (((rows.flatMap rowPostings).filter fun p => p.1.1 = token).map Prod.snd).sum = 0 := by
  induction rows with
  | nil => simp
  | cons r rows ih =>
    rw [List.flatMap_cons, List.filter_append, List.map_append, List.sum_append, ih, rowPostings]
    by_cases htoken : r.tokenAddr = token <;> simp [htoken]

omit [Keccak] in
theorem ledger_eq_zero {db : Database} {k : HolderKey}
    (h : k ∉ (db.journal.map Prod.fst).toFinset ∪ db.genesisBalances.keys.toFinset) :
    db.ledger k.1 k.2 = 0 := by
  simp only [Finset.mem_union, List.mem_toFinset, not_or] at h
  have hnone : db.genesisBalances.lookup (k.1, k.2) = none :=
    AList.lookup_eq_none.mpr fun hmem => h.2 (AList.mem_keys.mp hmem)
  have hjournal : balanceOf db.journal k = 0 :=
    balanceOf_eq_zero fun p hp heq => h.1 (heq ▸ List.mem_map_of_mem hp)
  rw [ledger_eq, genesisBalance, hnone, hjournal]
  rfl

theorem heldSum_eq (ch : Choices) (db : Database) (tokenAddr : String) :
    heldSum ch db tokenAddr = db.tokenBalances.total fun k balance =>
      if k.1 = hexBlob tokenAddr ∧ holding balance then bigint balance else 0 := by
  have hfilter : ∀ l : List (Σ _ : HolderKey, String),
      ((l.filter fun e => e.1.1 = hexBlob tokenAddr && holding e.2).map fun e => bigint e.2).sum =
        (l.map fun e => if e.1.1 = hexBlob tokenAddr ∧ holding e.2 then bigint e.2 else 0).sum := by
    intro l
    induction l with
    | nil => simp
    | cons e l ih =>
      rw [List.map_cons, List.sum_cons, ← ih, List.filter_cons]
      by_cases htoken : e.1.1 = hexBlob tokenAddr <;> by_cases hholding : holding e.2 <;>
        simp [htoken, hholding]
  have hread : (fun p : String × String => bigint p.2) ∘ rowToHolder =
      fun e : Σ _ : HolderKey, String => bigint e.2 := by
    funext e
    simp only [Function.comp_apply, rowToHolder]
  rw [heldSum, tokenHolders, List.map_map, hread]
  have hperm := (Paging.orderDesc_perm (fun e : Σ _ : HolderKey, String => balanceKey e.2) (ch.order
    (db.tokenBalances.entries.filter fun e => e.1.1 = hexBlob tokenAddr && holding e.2))).trans
      (ch.perm _)
  rw [(hperm.map fun e => bigint e.2).sum_eq, hfilter, Keyed.total]

/-- **What there is of a token is what genesis gave**, in every database reached: the transfers only
move it. The holders that are listed have that and what the others owe; where only one owes, the one
the transfers of new tokens come from, they have that and what came from it, less what went back. -/
theorem balances_conserved {db : Database} (h : writers.Reachable db) (tokenAddr : String) :
    db.balanceSum (hexBlob tokenAddr) = db.genesisSum (hexBlob tokenAddr) ∧
      (∀ ch, db.genesisSum (hexBlob tokenAddr) ≤ heldSum ch db tokenAddr) ∧
      ∀ ch minter, (∀ holder, holder ≠ minter → 0 ≤ db.ledger (hexBlob tokenAddr) holder) →
        heldSum ch db tokenAddr =
          db.genesisSum (hexBlob tokenAddr) + max 0 (-db.ledger (hexBlob tokenAddr) minter) := by
  set token := hexBlob tokenAddr with htoken
  set S := (db.journal.map Prod.fst).toFinset ∪ db.genesisBalances.keys.toFinset with hS
  have hbalanced : db.Balanced := (consistent_of_reachable h).balanced
  have hsupport : ∀ k : HolderKey, db.ledger k.1 k.2 ≠ 0 → k ∈ S := by
    intro k hk
    by_contra hmem
    exact hk (ledger_eq_zero hmem)
  have hall : db.balanceSum token = ∑ k ∈ S with k.1 = token, db.ledger k.1 k.2 :=
    hbalanced.total_eq (fun k => k.1 = token) (g := id) rfl hsupport
  have hheld : ∀ ch, heldSum ch db tokenAddr =
      ∑ k ∈ S with k.1 = token, max 0 (db.ledger k.1 k.2) := by
    intro ch
    rw [heldSum_eq]
    exact hbalanced.total_holding (fun k => k.1 = token) hsupport
  have hgenesis : db.genesisSum token = ∑ k ∈ S with k.1 = token, db.genesisBalance k.1 k.2 := by
    rw [genesisSum, Keyed.total_eq_sum _ _ (S := S), Finset.sum_filter]
    · refine Finset.sum_congr rfl fun k _ => ?_
      rw [genesisBalance]
      cases db.genesisBalances.lookup k <;> simp
    · intro k hk
      exact Finset.mem_union_right _ (List.mem_toFinset.mpr (AList.mem_keys.mp hk))
  have hjournal : ∑ k ∈ S with k.1 = token, balanceOf db.journal k = 0 := by
    rw [sum_balanceOf, ← sum_rowPostings token db.transferRows]
    refine congrArg (fun l => (List.map Prod.snd l).sum) (List.filter_congr fun p hp => ?_)
    have hmem : p.1 ∈ S :=
      Finset.mem_union_left _ (List.mem_toFinset.mpr (List.mem_map_of_mem hp))
    simp [hmem]
  have hsum : db.balanceSum token = db.genesisSum token := by
    simp only [hall, hgenesis, ledger_eq, Finset.sum_add_distrib, hjournal, zero_add]
  refine ⟨hsum, fun ch => ?_, fun ch minter howes => ?_⟩
  · rw [← hsum, hall, hheld]
    exact Finset.sum_le_sum fun k _ => le_max_right 0 _
  · have howed : ∑ k ∈ S with k.1 = token, max 0 (-db.ledger k.1 k.2) =
        max 0 (-db.ledger token minter) := by
      by_cases hmem : (token, minter) ∈ S
      · refine Finset.sum_eq_single_of_mem (token, minter) (by simp [hmem]) fun k hk hne => ?_
        obtain ⟨-, hk⟩ := Finset.mem_filter.mp hk
        have hother : k.2 ≠ minter := fun heq => hne (Prod.ext hk heq)
        have hnonneg := howes k.2 hother
        rw [← hk] at hnonneg
        omega
      · have hzero : db.ledger token minter = 0 := by
          by_contra hne
          exact hmem (hsupport (token, minter) hne)
        rw [hzero]
        refine Finset.sum_eq_zero fun k hk => ?_
        obtain ⟨hkS, hk⟩ := Finset.mem_filter.mp hk
        have hother : k.2 ≠ minter := fun heq => hmem (by rw [← hk, ← heq]; exact hkS)
        have hnonneg := howes k.2 hother
        rw [← hk] at hnonneg
        omega
    rw [← hsum, hall, hheld, ← howed, ← Finset.sum_add_distrib]
    refine Finset.sum_congr rfl fun k _ => ?_
    omega

end Keccak

section Sample

attribute [local instance] Keccak.sponge

/-- The address that new tokens come from. -/
def noAddress : String := "0x0000000000000000000000000000000000000000"

theorem transferRows_minted : minted.transferRows =
    [⟨hexBlob "0x0a", hexBlob sampleToken, hexBlob noAddress, hexBlob sampleHolder, "5", 0⟩] := by
  decide

/-- Five units that came from nobody. -/
theorem balances_conserved_minted :
    minted.balanceSum (hexBlob sampleToken) = minted.genesisSum (hexBlob sampleToken) ∧
      heldSum .plain minted sampleToken = minted.genesisSum (hexBlob sampleToken) +
        max 0 (-minted.ledger (hexBlob sampleToken) (hexBlob noAddress)) := by
  obtain ⟨hsum, -, hheld⟩ := balances_conserved minted_reachable sampleToken
  refine ⟨hsum, hheld .plain _ fun holder hother => ?_⟩
  have hfive : bigint "5" = 5 := by decide
  rw [ledger, amounts, amounts, transferRows_minted]
  have hgenesis : minted.genesisBalance (hexBlob sampleToken) holder = 0 := by
    have hnone : minted.genesisBalances = ∅ := AList.ext (by decide)
    rw [genesisBalance, hnone, AList.lookup_empty, Option.elim_none]
  by_cases hto : hexBlob sampleHolder = holder <;> simp [hto, Ne.symm hother, hfive, hgenesis]

end Sample

end Database

end ChainExplorer
