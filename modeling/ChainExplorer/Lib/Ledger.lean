import ChainExplorer.Lib.Keyed
import ChainExplorer.Lib.Numeral
import Mathlib.Algebra.Group.Pi.Lemmas
import Mathlib.Algebra.Order.Group.Int

/-!
# Ledgers

The balances of a journal of postings, and what it means for a table of decimal texts to hold them.

* `balanceOf j a`: the sum of the postings of journal `j` to account `a`.
* `net j`: the postings of a journal added up per account. **`balanceOf_net`**: netting changes no
  balance, whatever accounts are merged afterwards.
* `Holds t b`: the table `t` has a row for exactly the accounts with a non-zero balance in `b`, and
  the row is the decimal of the balance. **`Holds.post`**: one posting, written as a read, an
  addition, and a delete at zero or a write, takes `Holds t b` to the posted balances.
* `holdings`: the number of rows that are not negative. **`holdings_post`**: a posting moves it by
  what it does to the sign of its own account.
-/

namespace Ledger

variable {A B : Type} [DecidableEq A] [DecidableEq B]

/-! ## Journals -/

/-- The balance a journal of postings leaves on an account. -/
def balanceOf (j : List (A × ℤ)) (a : A) : ℤ := ((j.filter fun p => p.1 = a).map Prod.snd).sum

@[simp] theorem balanceOf_nil : balanceOf ([] : List (A × ℤ)) = 0 := rfl

theorem balanceOf_cons (p : A × ℤ) (j : List (A × ℤ)) :
    balanceOf (p :: j) = balanceOf j + Pi.single p.1 p.2 := by
  funext a
  unfold balanceOf
  rw [Pi.add_apply, List.filter_cons]
  by_cases h : p.1 = a
  · subst h
    simp [add_comm]
  · simp [h]

theorem balanceOf_append (j k : List (A × ℤ)) : balanceOf (j ++ k) = balanceOf j + balanceOf k := by
  funext a
  simp [balanceOf]

theorem balanceOf_perm {j k : List (A × ℤ)} (h : j.Perm k) : balanceOf j = balanceOf k := by
  funext a
  exact ((h.filter _).map _).sum_eq

theorem balanceOf_eq_zero {j : List (A × ℤ)} {a : A} (h : ∀ p ∈ j, p.1 ≠ a) :
    balanceOf j a = 0 := by
  have hnil : (j.filter fun p => p.1 = a) = [] :=
    List.filter_eq_nil_iff.mpr fun p hp => by simpa using h p hp
  rw [balanceOf, hnil]
  rfl

theorem balanceOf_entries {υ : Type} (f : υ → ℤ) (t : Keyed A υ) (a : A) :
    balanceOf (t.entries.map fun e => (e.1, f e.2)) a = (t.lookup a).elim 0 f := by
  have hrest : ∀ t : Keyed A υ, t.lookup a = none →
      balanceOf (t.entries.map fun e => (e.1, f e.2)) a = 0 := by
    intro t ht
    refine balanceOf_eq_zero fun p hp => ?_
    obtain ⟨e, he, rfl⟩ := List.mem_map.mp hp
    rintro rfl
    have hsome : t.lookup e.1 = some e.2 := Keyed.mem_entries_iff.mp he
    rw [ht] at hsome
    exact absurd hsome nofun
  cases h : t.lookup a with
  | none => exact hrest t h
  | some v =>
    have herase : (t.erase a).lookup a = none := AList.lookup_erase _ _
    rw [balanceOf_perm ((Keyed.entries_perm_cons_erase h).map _), List.map_cons, balanceOf_cons,
      Pi.add_apply, hrest _ herase, Pi.single_eq_same, zero_add, Option.elim_some]

/-- The postings of a journal, added up per account. -/
def net (j : List (A × ℤ)) : Keyed A ℤ := j.foldl (fun t p => t.bump p.1 p.2) ∅

/-- The entries of a table of sums, as postings. -/
def postings (t : Keyed A ℤ) : List (A × ℤ) := t.entries.map fun e => (e.1, e.2)

omit [DecidableEq A] in
theorem balanceOf_map_postings (g : A → B) (t : Keyed A ℤ) :
    balanceOf ((postings t).map (Prod.map g id)) = t.total fun a d => Pi.single (g a) d := by
  unfold postings Keyed.total
  induction t.entries with
  | nil => rfl
  | cons e l ih =>
    rw [List.map_cons, List.map_cons, balanceOf_cons, ih, List.map_cons, List.sum_cons, add_comm]
    rfl

theorem total_net (g : A → B) (j : List (A × ℤ)) (t : Keyed A ℤ) :
    ((j.foldl (fun t p => t.bump p.1 p.2) t).total fun a d => (Pi.single (g a) d : B → ℤ)) =
      (t.total fun a d => Pi.single (g a) d) + balanceOf (j.map (Prod.map g id)) := by
  induction j generalizing t with
  | nil => simp
  | cons p j ih =>
    rw [List.foldl_cons, ih, List.map_cons, balanceOf_cons,
      Keyed.total_bump (fun a d => (Pi.single (g a) d : B → ℤ)) p.1 p.2 t (Pi.single_zero _)
        fun x => Pi.single_add (f := fun _ => ℤ) _ x _, Prod.map_fst, Prod.map_snd, id]
    abel

/-- **Netting changes no balance**, whatever accounts `g` merges afterwards. -/
theorem balanceOf_net (g : A → B) (j : List (A × ℤ)) :
    balanceOf ((postings (net j)).map (Prod.map g id)) = balanceOf (j.map (Prod.map g id)) := by
  rw [balanceOf_map_postings, net, total_net, Keyed.total_empty, zero_add]

/-! ## Tables of balances -/

/-- The row of a balance: none at zero, else its decimal. -/
def rowOf (n : ℤ) : Option String := if n = 0 then none else some (toString n)

/-- The table holds the balances `b`: a row for each that is not zero, and no other. -/
def Holds (t : Keyed A String) (b : A → ℤ) : Prop := ∀ a, t.lookup a = rowOf (b a)

/-- The number a stored text reads as, an unreadable one counting as zero. -/
def read (s : String) : ℤ := (Numeral.bigInt 10 s.toList).getD 0

/-- Write a balance: delete the row at zero. -/
def write (t : Keyed A String) (a : A) (n : ℤ) : Keyed A String :=
  if n = 0 then t.erase a else t.insert a (toString n)

theorem read_toString (n : ℤ) : read (toString n) = n := by
  rw [read, Numeral.bigInt_toString, Option.getD_some]

theorem Holds.empty : Holds (∅ : Keyed A String) 0 := fun a => by
  rw [AList.lookup_empty, Pi.zero_apply, rowOf, if_pos rfl]

theorem Holds.lookup_getD {t : Keyed A String} {b : A → ℤ} (h : Holds t b) (a : A) :
    read ((t.lookup a).getD "0") = b a := by
  rw [h a, rowOf]
  split_ifs with h0
  · rw [h0]; decide
  · exact read_toString _

theorem lookup_write (t : Keyed A String) (a a' : A) (n : ℤ) :
    (write t a n).lookup a' = if a' = a then rowOf n else t.lookup a' := by
  unfold write rowOf
  split_ifs with h0 ha ha
  · rw [ha, AList.lookup_erase]
  · exact AList.lookup_erase_ne ha
  · rw [ha, AList.lookup_insert]
  · exact AList.lookup_insert_ne ha

/-- **A posting**: read the balance, add, write it back. -/
theorem Holds.post {t : Keyed A String} {b : A → ℤ} (h : Holds t b) (a : A) (d : ℤ) :
    Holds (write t a (b a + d)) (b + Pi.single a d) := fun a' => by
  rw [lookup_write, Pi.add_apply]
  split_ifs with ha
  · rw [ha, Pi.single_eq_same]
  · rw [Pi.single_eq_of_ne ha, add_zero]
    exact h a'

theorem Holds.lookup_eq {t t' : Keyed A String} {b : A → ℤ} (h : Holds t b) (h' : Holds t' b)
    (a : A) : t.lookup a = t'.lookup a := (h a).trans (h' a).symm

/-! ## Counting holdings -/

/-- A stored balance is a holding unless it starts with a minus sign. -/
def holding (s : String) : Bool := s.toList.head? ≠ some '-'

theorem holding_toString {n : ℤ} (h : n ≠ 0) : holding (toString n) = decide (0 < n) := by
  rw [holding, decide_eq_decide, ne_eq, Numeral.head?_toString]
  omega

/-- Whether a row is there and is a holding. -/
def isHolding (r : Option String) : Bool := r.elim false holding

theorem isHolding_rowOf (n : ℤ) : isHolding (rowOf n) = decide (0 < n) := by
  unfold rowOf
  split_ifs with h
  · rw [h]; rfl
  · exact holding_toString h

/-- The number of holdings among the accounts of a group. -/
def holdings (p : A → Bool) (t : Keyed A String) : ℕ := t.count fun a s => p a && holding s

theorem holdings_eq (p : A → Bool) (a : A) (t : Keyed A String) :
    holdings p t = (p a && isHolding (t.lookup a)).toNat + holdings p (t.erase a) := by
  unfold holdings
  rw [Keyed.count_eq_add_erase _ a t]
  cases t.lookup a with
  | none => simp [isHolding]
  | some s => rfl

theorem holdings_write (p : A → Bool) (a : A) (n : ℤ) (t : Keyed A String) :
    holdings p (write t a n) = (p a && decide (0 < n)).toNat + holdings p (t.erase a) := by
  unfold write
  split_ifs with h0
  · subst h0; simp
  · rw [← holding_toString h0]
    exact Keyed.count_insert _ _ _ _

/-- **A posting moves the holdings of a group** by what it does to the sign of its own account, if
that account is in the group. -/
theorem Holds.holdings_post {t : Keyed A String} {b : A → ℤ} (h : Holds t b) (p : A → Bool) (a : A)
    (n : ℤ) : (holdings p (write t a n) : ℤ) = holdings p t +
      if p a then ((decide (0 < n)).toNat : ℤ) - (decide (0 < b a)).toNat else 0 := by
  rw [holdings_write, holdings_eq p a t, h a, isHolding_rowOf]
  cases p a with
  | false => simp
  | true => simp; omega

end Ledger
