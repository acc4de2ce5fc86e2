import Mathlib.Algebra.Order.Group.Int
import Mathlib.Algebra.Order.Ring.Int

/-!
# Machine integers

* `IntType`: an integer type of a fixed width.
* `IntType.sum`, **`IntType.sum_eq`**: a sum that gives up where it leaves the type, and when it does.
* `Arith`: a computation whose steps wrap around, and whether none of them had to.
* **`Arith.inRange_bind`**, `Arith.value_fit`: a computation stays in range step by step, and a step
  that does is exact.
* `Arith.shiftRight`, `Arith.shiftLeft`, `Arith.addWords`: the steps of words.
-/

/-- An integer type of a fixed width, from its least value. -/
structure IntType where
  least : ℤ
  bits : ℕ

namespace IntType

def u32 : IntType := ⟨0, 32⟩

def u64 : IntType := ⟨0, 64⟩

def i64 : IntType := ⟨-9223372036854775808, 64⟩

/-- A value of the type. -/
def Holds (t : IntType) (n : ℤ) : Prop := t.least ≤ n ∧ n < t.least + 2 ^ t.bits

instance (t : IntType) (n : ℤ) : Decidable (t.Holds n) := inferInstanceAs (Decidable (_ ∧ _))

/-- An integer as the type keeps it. -/
def wrap (t : IntType) (n : ℤ) : ℤ := t.least + (n - t.least) % 2 ^ t.bits

theorem wrap_of_holds {t : IntType} {n : ℤ} (h : t.Holds n) : t.wrap n = n := by
  rw [wrap, Int.emod_eq_of_lt (sub_nonneg.mpr h.1) (sub_lt_iff_lt_add'.mpr h.2)]
  exact add_sub_cancel _ _

theorem holds_u32 {n : ℤ} : u32.Holds n ↔ 0 ≤ n ∧ n < 4294967296 := Iff.rfl

theorem holds_u64 {n : ℤ} : u64.Holds n ↔ 0 ≤ n ∧ n < 18446744073709551616 := Iff.rfl

theorem holds_i64 {n : ℤ} :
    i64.Holds n ↔ -9223372036854775808 ≤ n ∧ n < 9223372036854775808 := Iff.rfl

/-! ## Sums -/

/-- A value that the type holds. -/
def check (t : IntType) (n : ℤ) : Option ℤ := if t.Holds n then some n else none

theorem check_of_holds {t : IntType} {n : ℤ} (h : t.Holds n) : t.check n = some n := if_pos h

/-- A sum that gives up where it leaves the type. -/
def sum (t : IntType) (l : List ℤ) : Option ℤ := l.foldlM (fun acc n => t.check (acc + n)) 0

/-- **No beginning leaves the type**: the condition for a sum. -/
def Fits (t : IntType) (l : List ℤ) : Prop := ∀ p, p <+: l → p ≠ [] → t.Holds p.sum

theorem foldlM_check (t : IntType) (l : List ℤ) (acc : ℤ) :
    (∀ p, p <+: l → p ≠ [] → t.Holds (acc + p.sum)) ∧
        l.foldlM (fun acc n => t.check (acc + n)) acc = some (acc + l.sum) ∨
      (¬ ∀ p, p <+: l → p ≠ [] → t.Holds (acc + p.sum)) ∧
        l.foldlM (fun acc n => t.check (acc + n)) acc = none := by
  induction l generalizing acc with
  | nil =>
    refine .inl ⟨fun p hp hne => absurd (List.prefix_nil.mp hp) hne, ?_⟩
    rw [List.sum_nil, add_zero]
    rfl
  | cons n l ih =>
    -- The first step is the beginning of one number.
    have hsplit : (∀ p, p <+: n :: l → p ≠ [] → t.Holds (acc + p.sum)) ↔
        t.Holds (acc + n) ∧ ∀ p, p <+: l → p ≠ [] → t.Holds (acc + n + p.sum) := by
      constructor
      · intro h
        refine ⟨?_, fun p hp _ => ?_⟩
        · have hone := h [n] (List.prefix_append [n] l) (List.cons_ne_nil n [])
          rwa [List.sum_singleton] at hone
        · have hmore := h (n :: p) ((List.prefix_cons_inj n).mpr hp) (List.cons_ne_nil n p)
          rwa [List.sum_cons, ← add_assoc] at hmore
      · rintro ⟨hone, hmore⟩ p hp hne
        cases p with
        | nil => exact absurd rfl hne
        | cons m p =>
          obtain ⟨rfl, hp'⟩ := List.cons_prefix_cons.mp hp
          by_cases hnil : p = []
          · rwa [hnil, List.sum_singleton]
          · rw [List.sum_cons, ← add_assoc]
            exact hmore p hp' hnil
    rw [hsplit, List.foldlM_cons, check]
    by_cases hone : t.Holds (acc + n)
    · rw [if_pos hone, List.sum_cons, ← add_assoc]
      simpa only [hone, true_and, Option.bind_eq_bind, Option.bind_some] using ih (acc + n)
    · rw [if_neg hone]
      exact .inr ⟨fun h => hone h.1, rfl⟩

/-- **A sum is exact or gives up**, the second where a beginning of it leaves the type. -/
theorem sum_eq (t : IntType) (l : List ℤ) :
    t.Fits l ∧ t.sum l = some l.sum ∨ ¬ t.Fits l ∧ t.sum l = none := by
  have h := foldlM_check t l 0
  simp only [zero_add] at h
  exact h

theorem isSome_sum (t : IntType) (l : List ℤ) : (t.sum l).isSome ↔ t.Fits l := by
  rcases sum_eq t l with ⟨hfits, hsum⟩ | ⟨hfits, hsum⟩
  · rw [hsum]
    exact iff_of_true rfl hfits
  · rw [hsum]
    exact iff_of_false Bool.false_ne_true hfits

instance (t : IntType) (l : List ℤ) : Decidable (t.Fits l) :=
  decidable_of_iff _ (isSome_sum t l)

end IntType

/-- What a computation comes to when its steps wrap around, and whether every step stayed in its
type. -/
structure Arith (α : Type) where
  value : α
  inRange : Bool

namespace Arith

variable {α β : Type}

instance : Monad Arith where
  pure a := ⟨a, true⟩
  bind x f := ⟨(f x.value).value, x.inRange && (f x.value).inRange⟩

/-- One step: its result, kept in a type. -/
def fit (t : IntType) (n : ℤ) : Arith ℤ := ⟨t.wrap n, t.Holds n⟩

/-- One step that stops at the ends of a type. -/
def saturate (t : IntType) (n : ℤ) : Arith ℤ :=
  ⟨max t.least (min (t.least + 2 ^ t.bits - 1) n), t.Holds n⟩

@[simp] theorem value_pure (a : α) : (pure a : Arith α).value = a := rfl

@[simp] theorem inRange_pure (a : α) : (pure a : Arith α).inRange = true := rfl

@[simp] theorem value_bind (x : Arith α) (f : α → Arith β) :
    (x >>= f).value = (f x.value).value := rfl

@[simp] theorem inRange_bind (x : Arith α) (f : α → Arith β) :
    (x >>= f).inRange = true ↔ x.inRange = true ∧ (f x.value).inRange = true :=
  Bool.and_eq_true_iff

@[simp] theorem inRange_fit (t : IntType) (n : ℤ) : (fit t n).inRange = true ↔ t.Holds n :=
  decide_eq_true_iff

@[simp] theorem inRange_saturate (t : IntType) (n : ℤ) :
    (saturate t n).inRange = true ↔ t.Holds n :=
  decide_eq_true_iff

theorem value_fit {t : IntType} {n : ℤ} (h : t.Holds n) : (fit t n).value = n :=
  IntType.wrap_of_holds h

theorem fit_of_holds {t : IntType} {n : ℤ} (h : t.Holds n) : fit t n = ⟨n, true⟩ := by
  rw [fit, IntType.wrap_of_holds h, decide_eq_true h]

theorem pure_eq (a : α) : (pure a : Arith α) = ⟨a, true⟩ := rfl

@[simp] theorem mk_true_bind (a : α) (f : α → Arith β) : (⟨a, true⟩ : Arith α) >>= f = f a := rfl

theorem bind_congr {x : Arith α} {f g : α → Arith β} (h : f x.value = g x.value) :
    x >>= f = x >>= g := by
  show Arith.mk (f x.value).value (x.inRange && (f x.value).inRange) = _
  rw [h]
  rfl

instance : LawfulMonad Arith := LawfulMonad.mk' Arith
  (fun x => congrArg (Arith.mk x.value) (Bool.and_true x.inRange))
  (fun _ _ => rfl)
  (fun x f g => congrArg (Arith.mk _) (Bool.and_assoc _ _ _))

theorem mapM_of_inRange {f : α → Arith β} {g : α → β} {l : List α}
    (h : ∀ a ∈ l, f a = ⟨g a, true⟩) : l.mapM f = ⟨l.map g, true⟩ := by
  induction l with
  | nil => rfl
  | cons a l ih =>
    rw [List.mapM_cons, h a List.mem_cons_self, mk_true_bind,
      ih fun b hb => h b (List.mem_cons_of_mem a hb), mk_true_bind, pure_eq, List.map_cons]

/-! ## Words -/

variable {W : ℕ}

/-- A shift to the right, by less than the width. -/
def shiftRight (n : BitVec W) (k : ℕ) : Arith (BitVec W) := ⟨n >>> k, k < W⟩

/-- A shift to the left that loses no bit. -/
def shiftLeft (n : BitVec W) (k : ℕ) : Arith (BitVec W) :=
  ⟨n <<< k, k < W ∧ n.toNat * 2 ^ k < 2 ^ W⟩

/-- A sum without a carry. -/
def addWords (m n : BitVec W) : Arith (BitVec W) := ⟨m + n, m.toNat + n.toNat < 2 ^ W⟩

end Arith
