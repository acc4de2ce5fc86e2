import ChainExplorer.Lib.Keyed

/-!
# New primary keys

The statement `UPDATE … SET key = f(key)` on a keyed table. It goes row after row, and fails as a
whole where a key is none or is taken at that moment.

* `rekey`, `rekeyAll`: one row, and the rows in an order.
* `Rekeyed g`: every row under the key that `g` makes of its own, and no others.
* **`rekeyAll_rekeyed`**: in any order, where `g` keeps the keys apart.
-/

namespace Keyed

variable {κ υ : Type}

/-- **The rows of a table under other keys.** -/
def Rekeyed (g : κ → κ) (old new : Keyed κ υ) : Prop :=
  new.entries.Perm (old.entries.map fun e => ⟨g e.1, e.2⟩)

section

variable {g : κ → κ} {s t : Keyed κ υ}

theorem Rekeyed.values (h : Rekeyed g s t) :
    (t.entries.map Sigma.snd).Perm (s.entries.map Sigma.snd) := by
  have hvalues := h.map (Sigma.snd (β := fun _ : κ => υ))
  rwa [List.map_map] at hvalues

theorem Rekeyed.refl (h : ∀ k ∈ t, g k = k) : Rekeyed g t t := by
  have hsame : t.entries.map (fun e => (⟨g e.1, e.2⟩ : Σ _ : κ, υ)) = t.entries.map id := by
    refine List.map_congr_left fun e he => ?_
    rw [h e.1 (List.mem_map_of_mem he)]
    rfl
  rw [Rekeyed, hsame, List.map_id]

end

variable [DecidableEq κ]

/-- A row's key becomes what `f` makes of it. -/
def rekey (f : κ → Option κ) (t : Keyed κ υ) (k : κ) : Option (Keyed κ υ) :=
  match t.lookup k with
  | none => some t
  | some v => (f k).bind fun k' => if k' ∈ t.erase k then none else some ((t.erase k).insert k' v)

/-- **The rows of some keys**, one after the other. -/
def rekeyAll (f : κ → Option κ) (order : List κ) (t : Keyed κ υ) : Option (Keyed κ υ) :=
  order.foldlM (rekey f) t

section

variable {g : κ → κ} {s t : Keyed κ υ}

theorem mem_of_lookup {k : κ} {v : υ} (h : t.lookup k = some v) : k ∈ t :=
  AList.lookup_isSome.mp (Option.isSome_iff_exists.mpr ⟨v, h⟩)

theorem Rekeyed.lookup (h : Rekeyed g s t) {k : κ} {v : υ} :
    t.lookup k = some v ↔ ∃ j, s.lookup j = some v ∧ g j = k := by
  rw [← mem_entries_iff, h.mem_iff, List.mem_map]
  constructor
  · rintro ⟨⟨j, w⟩, hj, heq⟩
    obtain ⟨rfl, hw⟩ := Sigma.mk.inj heq
    obtain rfl := eq_of_heq hw
    exact ⟨j, mem_entries_iff.mp hj, rfl⟩
  · rintro ⟨j, hj, rfl⟩
    exact ⟨⟨j, v⟩, mem_entries_iff.mpr hj, rfl⟩

theorem Rekeyed.exists_of_mem (h : Rekeyed g s t) {k : κ} (hk : k ∈ t) : ∃ j ∈ s, g j = k := by
  obtain ⟨v, hv⟩ := Option.isSome_iff_exists.mp (AList.lookup_isSome.mpr hk)
  obtain ⟨j, hj, hg⟩ := h.lookup.mp hv
  exact ⟨j, mem_of_lookup hj, hg⟩

theorem rekey_row {f : κ → Option κ} {k k' : κ} {v : υ} (hv : t.lookup k = some v)
    (hf : f k = some k') (hfree : k' ∉ t.erase k) :
    rekey f t k = some ((t.erase k).insert k' v) ∧
      ((t.erase k).insert k' v).entries.Perm (⟨k', v⟩ :: (t.erase k).entries) := by
  refine ⟨?_, ?_⟩
  · rw [rekey, hv]
    simp only [hf, Option.bind_some, if_neg hfree]
  · rw [AList.entries_insert, List.kerase_of_notMem_keys hfree]

/-- **Row after row, in any order**: where `g` keeps the keys apart and leaves alone those that are not
in the order, each row is found under its new key. -/
theorem rekeyAll_rekeyed {f : κ → Option κ} {order : List κ} (hf : ∀ k ∈ order, f k = some (g k))
    (hnodup : order.Nodup) (hin : ∀ k ∈ order, k ∈ t)
    (hmoved : ∀ k ∈ order, g (g k) = g k ∧ g k ∉ order) (hstay : ∀ k ∈ t, k ∉ order → g k = k)
    (hapart : ∀ j ∈ t, ∀ k ∈ t, g j = g k → j = k) :
    ∃ t', rekeyAll f order t = some t' ∧ Rekeyed g t t' := by
  induction order generalizing t with
  | nil => exact ⟨t, rfl, .refl fun k hk => hstay k hk List.not_mem_nil⟩
  | cons k order ih =>
    have hk := hin k List.mem_cons_self
    obtain ⟨v, hv⟩ := Option.isSome_iff_exists.mp (AList.lookup_isSome.mpr hk)
    obtain ⟨hfix, hgone⟩ := hmoved k List.mem_cons_self
    obtain ⟨hnot, hnodup⟩ := List.nodup_cons.mp hnodup
    -- The new key is not that of another row: that row's own new key would be the same.
    have hfree : g k ∉ t.erase k := by
      intro hmem
      obtain ⟨hne, hin⟩ := AList.mem_erase.mp hmem
      exact hne (hapart _ hin k hk hfix)
    obtain ⟨hrow, hperm⟩ := rekey_row hv (hf k List.mem_cons_self) hfree
    let t1 := (t.erase k).insert (g k) v
    have hmem : ∀ j ∈ t1, j = g k ∨ j ≠ k ∧ j ∈ t := fun j hj =>
      ((AList.mem_insert _).mp hj).imp_right AList.mem_erase.mp
    have hin1 : ∀ j ∈ order, j ∈ t1 := by
      intro j hj
      have hne : j ≠ k := fun heq => hnot (heq ▸ hj)
      have hold : j ∈ t := hin j (List.mem_cons_of_mem k hj)
      exact (AList.mem_insert _).mpr (.inr (AList.mem_erase.mpr ⟨hne, hold⟩))
    have hmoved1 : ∀ j ∈ order, g (g j) = g j ∧ g j ∉ order := by
      intro j hj
      obtain ⟨hfix', hgone'⟩ := hmoved j (List.mem_cons_of_mem k hj)
      exact ⟨hfix', fun hmem => hgone' (List.mem_cons_of_mem k hmem)⟩
    have hstay1 : ∀ j ∈ t1, j ∉ order → g j = j := by
      intro j hj hout
      rcases hmem j hj with rfl | ⟨hne, hin⟩
      · exact hfix
      · exact hstay j hin fun h => (List.mem_cons.mp h).elim hne hout
    have hapart1 : ∀ i ∈ t1, ∀ j ∈ t1, g i = g j → i = j := by
      intro i hi j hj hij
      rcases hmem i hi with rfl | ⟨hine, hit⟩
      · rcases hmem j hj with rfl | ⟨hjne, hjt⟩
        · rfl
        · rw [hfix] at hij
          exact absurd (hapart k hk j hjt hij) hjne.symm
      · rcases hmem j hj with rfl | ⟨hjne, hjt⟩
        · rw [hfix] at hij
          exact absurd (hapart i hit k hk hij) hine
        · exact hapart i hit j hjt hij
    obtain ⟨t', hrest, hrekeyed⟩ := ih (fun j hj => hf j (List.mem_cons_of_mem k hj)) hnodup hin1
      hmoved1 hstay1 hapart1
    refine ⟨t', ?_, ?_⟩
    · rw [rekeyAll, List.foldlM_cons, hrow]
      exact hrest
    · have hold := ((entries_perm_cons_erase hv).map
        (fun e => (⟨g e.1, e.2⟩ : Σ _ : κ, υ))).symm
      have hnew := hperm.map (fun e => (⟨g e.1, e.2⟩ : Σ _ : κ, υ))
      rw [List.map_cons] at hold hnew
      simp only [hfix] at hnew
      exact (hrekeyed.trans hnew).trans hold

end

end Keyed
