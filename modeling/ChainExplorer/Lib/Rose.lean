import Mathlib.Data.List.Nodup
import Mathlib.Data.List.Range
import Mathlib.Data.List.Perm.Basic

/-!
# Trees in depth-first order

* `Rose`: a node and its children, in order.
* `preorder`, `preorderAll`: the subtrees of a tree or a forest, each after its parent, with their
  depths.
* `number`, `numberAll`, `listing`: every node with its place in that order.
* **`range_numbers`**: the numbers are the places.
* **`perm_children`**, **`count_place`**: every subtree is a root or a child, once.
* **`eq_of_listing`**: a forest is determined by its nodes and their depths in that order.
-/

/-- **A tree**: a value and the trees below it. -/
inductive Rose (α : Type*)
  | node (value : α) (children : List (Rose α))

namespace Rose

variable {α : Type*}

def value : Rose α → α
  | node a _ => a

def children : Rose α → List (Rose α)
  | node _ ts => ts

mutual

/-- How many nodes a tree has. -/
def size : Rose α → ℕ
  | node _ ts => sizeAll ts + 1

def sizeAll : List (Rose α) → ℕ
  | [] => 0
  | t :: ts => size t + sizeAll ts

end

mutual

/-- The subtrees of a tree at depth `d`, with their depths. -/
def preorder (d : ℕ) : Rose α → List (ℕ × Rose α)
  | node a ts => (d, node a ts) :: preorderAll (d + 1) ts

def preorderAll (d : ℕ) : List (Rose α) → List (ℕ × Rose α)
  | [] => []
  | t :: ts => preorder d t ++ preorderAll d ts

end

mutual

/-- Every node of a tree with its place, the root at `n`. -/
def number (n : ℕ) : Rose α → Rose (ℕ × α)
  | node a ts => node (n, a) (numberAll (n + 1) ts)

def numberAll (n : ℕ) : List (Rose α) → List (Rose (ℕ × α))
  | [] => []
  | t :: ts => number n t :: numberAll (n + size t) ts

end

mutual

/-- The same tree of other values. -/
def map {β : Type*} (f : α → β) : Rose α → Rose β
  | node a ts => node (f a) (mapAll f ts)

def mapAll {β : Type*} (f : α → β) : List (Rose α) → List (Rose β)
  | [] => []
  | t :: ts => map f t :: mapAll f ts

end

/-! ## Places -/

mutual

theorem length_preorder (d : ℕ) : ∀ t : Rose α, (preorder d t).length = size t
  | node a ts => by
    rw [preorder, List.length_cons, length_preorderAll, size]

theorem length_preorderAll (d : ℕ) : ∀ ts : List (Rose α), (preorderAll d ts).length = sizeAll ts
  | [] => rfl
  | t :: ts => by
    rw [preorderAll, List.length_append, length_preorder, length_preorderAll, sizeAll]

end

mutual

theorem size_number (n : ℕ) : ∀ t : Rose α, size (number n t) = size t
  | node a ts => by
    rw [number, size, size, sizeAll_number]

theorem sizeAll_number (n : ℕ) : ∀ ts : List (Rose α), sizeAll (numberAll n ts) = sizeAll ts
  | [] => rfl
  | t :: ts => by
    rw [numberAll, sizeAll, sizeAll, size_number, sizeAll_number]

end

mutual

theorem range_number (d n : ℕ) :
    ∀ t : Rose α, (preorder d (number n t)).map (fun s => s.2.value.1) = List.range' n (size t)
  | node a ts => by
    rw [number, preorder, List.map_cons, range_numbers, size, List.range'_succ]
    rfl

/-- **The numbers are the places.** -/
theorem range_numbers (d n : ℕ) : ∀ ts : List (Rose α),
    (preorderAll d (numberAll n ts)).map (fun s => s.2.value.1) = List.range' n (sizeAll ts)
  | [] => rfl
  | t :: ts => by
    rw [numberAll, preorderAll, List.map_append, range_number, range_numbers, sizeAll,
      List.range'_append_1]

end

mutual

theorem map_snd_number (n : ℕ) : ∀ t : Rose α, map Prod.snd (number n t) = t
  | node a ts => by
    rw [number, map, mapAll_snd_number]

theorem mapAll_snd_number (n : ℕ) : ∀ ts : List (Rose α), mapAll Prod.snd (numberAll n ts) = ts
  | [] => rfl
  | t :: ts => by
    rw [numberAll, mapAll, map_snd_number, mapAll_snd_number]

end

mutual

theorem preorder_map {β : Type*} (f : α → β) (d : ℕ) : ∀ t : Rose α,
    preorder d (map f t) = (preorder d t).map fun s => (s.1, map f s.2)
  | node a ts => by
    rw [map, preorder, preorder, List.map_cons, preorderAll_map]
    rfl

theorem preorderAll_map {β : Type*} (f : α → β) (d : ℕ) : ∀ ts : List (Rose α),
    preorderAll d (mapAll f ts) = (preorderAll d ts).map fun s => (s.1, map f s.2)
  | [] => rfl
  | t :: ts => by
    rw [mapAll, preorderAll, preorderAll, List.map_append, preorder_map, preorderAll_map]

end

@[simp] theorem value_map {β : Type*} (f : α → β) : ∀ t : Rose α, (map f t).value = f t.value
  | node _ _ => rfl

/-! ## Parents -/

theorem le_of_mem_numberAll {n : ℕ} {ts : List (Rose α)} {c : Rose (ℕ × α)}
    (hc : c ∈ numberAll n ts) : n ≤ c.value.1 := by
  induction ts generalizing n with
  | nil => exact absurd hc List.not_mem_nil
  | cons t ts ih =>
    rcases List.mem_cons.mp hc with rfl | hc
    · obtain ⟨a, us⟩ := t
      exact le_rfl
    · exact (Nat.le_add_right n _).trans (ih hc)

mutual

theorem exists_number (d n : ℕ) : ∀ t : Rose α, ∀ s ∈ preorder d (number n t),
    ∃ m u, s.2 = number m u
  | node a ts => by
    intro s hs
    rcases List.mem_cons.mp hs with rfl | hs
    · exact ⟨n, node a ts, rfl⟩
    · exact exists_numbers (d + 1) (n + 1) ts s hs

theorem exists_numbers (d n : ℕ) : ∀ ts : List (Rose α), ∀ s ∈ preorderAll d (numberAll n ts),
    ∃ m u, s.2 = number m u
  | [] => nofun
  | t :: ts => by
    intro s hs
    rcases List.mem_append.mp hs with hs | hs
    · exact exists_number d n t s hs
    · exact exists_numbers d (n + size t) ts s hs

end

theorem lt_of_mem_children {d n : ℕ} {ts : List (Rose α)} {s : ℕ × Rose (ℕ × α)}
    (hs : s ∈ preorderAll d (numberAll n ts)) {c : Rose (ℕ × α)} (hc : c ∈ s.2.children) :
    s.2.value.1 < c.value.1 := by
  obtain ⟨m, ⟨a, us⟩, hnumber⟩ := exists_numbers d n ts s hs
  rw [hnumber] at hc ⊢
  exact le_of_mem_numberAll hc

/-- The children below a subtree, with their depths. -/
def offspring (s : ℕ × Rose α) : List (ℕ × Rose α) := s.2.children.map fun c => (s.1 + 1, c)

mutual

theorem perm_child (d : ℕ) : ∀ t : Rose α,
    ((d, t) :: (preorder d t).flatMap offspring).Perm (preorder d t)
  | node a ts => by
    rw [preorder, List.flatMap_cons]
    have hchildren : offspring (d, node a ts) = ts.map fun t => (d + 1, t) := rfl
    rw [hchildren]
    exact (perm_children (d + 1) ts).cons _

/-- **Every subtree is a root or a child**, once. -/
theorem perm_children (d : ℕ) : ∀ ts : List (Rose α),
    ((ts.map fun t => (d, t)) ++ (preorderAll d ts).flatMap offspring).Perm (preorderAll d ts)
  | [] => .nil
  | t :: ts => by
    rw [preorderAll, List.flatMap_append, List.map_cons, List.cons_append]
    have hmove := List.perm_append_comm_assoc (ts.map fun t => (d, t))
      ((preorder d t).flatMap offspring) ((preorderAll d ts).flatMap offspring)
    exact (hmove.cons _).trans ((perm_child d t).append (perm_children d ts))

end

/-! ## A numbered listing -/

/-- The place of a numbered subtree. -/
def place (s : ℕ × Rose (ℕ × α)) : ℕ := s.2.value.1

/-- A forest listed with the places of its nodes. -/
def listing (ts : List (Rose α)) : List (ℕ × Rose (ℕ × α)) := preorderAll 0 (numberAll 0 ts)

theorem map_place_listing (ts : List (Rose α)) :
    (listing ts).map place = List.range (listing ts).length := by
  rw [listing, length_preorderAll, sizeAll_number, List.range_eq_range']
  exact range_numbers 0 0 ts

theorem place_eq_of_getElem? {ts : List (Rose α)} {i : ℕ} {s : ℕ × Rose (ℕ × α)}
    (h : (listing ts)[i]? = some s) : place s = i := by
  have hi : i < (listing ts).length := (List.getElem?_eq_some_iff.mp h).1
  have hplace := congrArg (fun l => l[i]?) (map_place_listing ts)
  simp only [List.getElem?_map, h, Option.map_some, List.getElem?_range hi] at hplace
  exact Option.some.inj hplace

theorem getElem?_place {ts : List (Rose α)} {s : ℕ × Rose (ℕ × α)} (hs : s ∈ listing ts) :
    (listing ts)[place s]? = some s := by
  obtain ⟨i, hi⟩ := List.mem_iff_getElem?.mp hs
  rwa [place_eq_of_getElem? hi]

theorem mem_listing_of_mem_children {ts : List (Rose α)} {s : ℕ × Rose (ℕ × α)}
    (hs : s ∈ listing ts) {c : Rose (ℕ × α)} (hc : c ∈ s.2.children) :
    (s.1 + 1, c) ∈ listing ts ∧ place s < place (s.1 + 1, c) := by
  refine ⟨(perm_children 0 (numberAll 0 ts)).subset ?_, lt_of_mem_children hs hc⟩
  refine List.mem_append_right _ (List.mem_flatMap.mpr ⟨s, hs, ?_⟩)
  exact List.mem_map_of_mem hc

/-- **A node is the child of one node**, or of none at depth `0`. -/
theorem count_place {ts : List (Rose α)} {s : ℕ × Rose (ℕ × α)} (hs : s ∈ listing ts) :
    (((listing ts).flatMap offspring).map place).count (place s) = if s.1 = 0 then 0 else 1 := by
  set roots := (numberAll 0 ts).map fun t => (0, t) with hroots
  have hperm : (roots ++ (listing ts).flatMap offspring).Perm (listing ts) := perm_children 0 _
  have hone : (roots.map place).count (place s) +
      (((listing ts).flatMap offspring).map place).count (place s) = 1 := by
    rw [← List.count_append, ← List.map_append, (hperm.map place).count_eq, map_place_listing]
    have hlt := (List.getElem?_eq_some_iff.mp (getElem?_place hs)).1
    exact List.count_eq_one_of_mem List.nodup_range (List.mem_range.mpr hlt)
  rcases List.mem_append.mp (hperm.symm.subset hs) with hroot | hbelow
  · have hdepth : s.1 = 0 := by
      obtain ⟨t, _, rfl⟩ := List.mem_map.mp hroot
      rfl
    have hpos := List.count_pos_iff.mpr (List.mem_map_of_mem hroot (f := place))
    rw [if_pos hdepth]
    omega
  · have hdepth : s.1 ≠ 0 := by
      obtain ⟨p, _, hp⟩ := List.mem_flatMap.mp hbelow
      obtain ⟨c, _, rfl⟩ := List.mem_map.mp hp
      exact Nat.succ_ne_zero _
    have hpos := List.count_pos_iff.mpr (List.mem_map_of_mem hbelow (f := place))
    rw [if_neg hdepth]
    omega

/-! ## Reading a listing back -/

/-- What a listing shows of a subtree: its depth and its node. -/
def shown (s : ℕ × Rose α) : ℕ × α := (s.1, s.2.value)

theorem head_listing (d : ℕ) (t : Rose α) (ts : List (Rose α)) :
    ((preorderAll d (t :: ts)).map shown).head? = some (d, t.value) := by
  obtain ⟨a, us⟩ := t
  rfl

/-- What follows a forest at depth `d` is less deep. -/
def Shallower (d : ℕ) (rest : List (ℕ × α)) : Prop := ∀ p ∈ rest.head?, p.1 < d

theorem Shallower.listing {d : ℕ} {rest : List (ℕ × α)} (h : Shallower d rest)
    (ts : List (Rose α)) : Shallower (d + 1) ((preorderAll d ts).map shown ++ rest) := by
  intro p hp
  cases ts with
  | nil => exact Nat.lt_succ_of_lt (h p hp)
  | cons t ts =>
    rw [List.head?_append, head_listing] at hp
    cases hp
    exact Nat.lt_succ_self d

/-- A forest is read off a listing up to where it is less deep. -/
theorem eq_of_listing_append : ∀ (d : ℕ) (ts us : List (Rose α)) (rest rest' : List (ℕ × α)),
    Shallower d rest → Shallower d rest' →
    (preorderAll d ts).map shown ++ rest = (preorderAll d us).map shown ++ rest' →
    ts = us ∧ rest = rest'
  | d, [], [], rest, rest', _, _, h => ⟨rfl, h⟩
  | d, [], u :: us, rest, rest', hrest, _, h => by
    have hhead : rest.head? = some (d, u.value) := by
      have h' := congrArg List.head? h
      rwa [List.head?_append, List.head?_append, head_listing] at h'
    exact absurd (hrest _ hhead) (lt_irrefl d)
  | d, t :: ts, [], rest, rest', _, hrest', h => by
    have hhead : rest'.head? = some (d, t.value) := by
      have h' := congrArg List.head? h
      rw [List.head?_append, List.head?_append, head_listing] at h'
      exact h'.symm
    exact absurd (hrest' _ hhead) (lt_irrefl d)
  | d, node a cs :: ts, node b cs' :: us, rest, rest', hrest, hrest', h => by
    simp only [preorderAll, preorder, List.cons_append, List.map_cons, List.map_append,
      List.append_assoc] at h
    obtain ⟨hnode, h⟩ := List.cons.inj h
    obtain ⟨hcs, h⟩ := eq_of_listing_append (d + 1) cs cs' _ _ (hrest.listing ts)
      (hrest'.listing us) h
    obtain ⟨hts, h⟩ := eq_of_listing_append d ts us rest rest' hrest hrest' h
    have hab : a = b := congrArg Prod.snd hnode
    exact ⟨by rw [hab, hcs, hts], h⟩

/-- **A forest is determined by its nodes and their depths**, in depth-first order. -/
theorem eq_of_listing {d : ℕ} {ts us : List (Rose α)}
    (h : (preorderAll d ts).map shown = (preorderAll d us).map shown) : ts = us := by
  refine (eq_of_listing_append d ts us [] [] nofun nofun ?_).1
  rw [h]

end Rose
