import ChainExplorer.Lib.Span

/-!
# Following links

* `Follows next p ps`: from `p` the links lead over `ps` and end.
* `Follows.unique`: over nothing else.
* **`follows_span`**: links from each number to the one after it lead over a span.
-/

/-- **The walk over links**, which ends where there is none. -/
inductive Follows {P : Type} (next : P → Option P) : P → List P → Prop
  | last {p : P} : next p = none → Follows next p [p]
  | link {p q : P} {ps : List P} : next p = some q → Follows next q ps → Follows next p (p :: ps)

namespace Follows

variable {P : Type} {next : P → Option P} {p : P} {ps : List P}

/-- There is one walk. -/
theorem unique (h : Follows next p ps) {qs : List P} (h' : Follows next p qs) : ps = qs := by
  induction h generalizing qs with
  | last hnone =>
    cases h' with
    | last _ => rfl
    | link hsome _ => exact absurd (hnone.symm.trans hsome) nofun
  | link hsome _ ih =>
    cases h' with
    | last hnone => exact absurd (hnone.symm.trans hsome) nofun
    | link hsome' hrest =>
      obtain rfl := Option.some.inj (hsome.symm.trans hsome')
      rw [ih hrest]

end Follows

/-- **Links from each number to the one after it** lead over a span. -/
theorem follows_span {next : ℤ → Option ℤ} {a b : ℤ} (h : a ≤ b)
    (hlink : ∀ n, a ≤ n → n < b → next n = some (n + 1)) (hlast : next b = none) :
    Follows next a (span a b) := by
  obtain ⟨count, rfl⟩ : ∃ count : ℕ, b = a + count := ⟨(b - a).toNat, by omega⟩
  induction count generalizing a with
  | zero =>
    have hend : a + ((0 : ℕ) : ℤ) = a := by omega
    rw [hend] at hlast ⊢
    rw [span_self]
    exact .last hlast
  | succ count ih =>
    have hend : a + ((count + 1 : ℕ) : ℤ) = a + 1 + (count : ℤ) := by omega
    rw [hend] at hlink hlast ⊢
    rw [span_cons (by omega)]
    refine .link (hlink a le_rfl (by omega)) ?_
    exact ih (by omega) (fun n hn => hlink n (by omega)) hlast
