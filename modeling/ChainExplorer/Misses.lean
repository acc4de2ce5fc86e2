import Mathlib.Data.List.Destutter
import ChainExplorer.Signatures

/-!
# Misses

A selector the directory does not know is remembered with an empty text. Here the lookups keep a
record of what was asked and what came back, and the cache is held against it (`signatures.rs`).

* `inquiries`: the lookups of `Signatures`, with that record.
* `Held`: a miss was answered, and a lookup that failed is made again.
* **`misses_answered_iff`**: in a run this holds throughout just when no lookup fails.
* `failedLookup_missed`: one that fails is remembered as a miss.
-/

namespace ChainExplorer

section

variable [Keccak] [Lowercase]

/-- A request to the directory, and what came of it. -/
structure Inquiry where
  asked : List String
  body : Option Json

structure InquiredState where
  state : LookupState
  /-- The last one first. -/
  inquiries : List Inquiry

/-- The request an action ends. -/
def inquiryOf (s : LookupState) : LookupAction → List Inquiry
  | .answer i body => ((s.waiting[i]?).map fun l => ⟨l.missing, body⟩).toList
  | _ => []

def InquiredState.exec (s : InquiredState) (a : LookupAction) : Option InquiredState :=
  (s.state.exec a).map fun t => ⟨t, inquiryOf s.state a ++ s.inquiries⟩

/-- **The lookups**, recorded. -/
def inquiries : System InquiredState LookupAction where
  init s := s = ⟨⟨∅, [], []⟩, []⟩
  exec := InquiredState.exec

/-- An answer that is well formed: an object of the entries for each selector. A request that timed
out, was refused or came back as something else has none. -/
def WellFormed (body : Option Json) : Prop :=
  ∃ function, (body.bind (Json.get "result")).bind (Json.get "function") = some (.obj function)

/-- An answer names no valid signature for a selector. -/
def NamesNone (body : Option Json) (selector : String) : Prop :=
  ∀ name, (fetched body).lookup selector = some name → name = ""

/-- The next lookup of a selector is made, unless more are missing than one request holds. -/
def AsksAgain (cache : SignatureCache) (selector : String) : Prop :=
  ∀ selectors now, selector ∈ wantedSelectors selectors →
    ((wantedSelectors selectors).filter fun w =>
      w ∉ lookCached cache now (wantedSelectors selectors)).length ≤ maxLookup →
    selector ∈ missingSelectors (wantedSelectors selectors)
      (lookCached cache now (wantedSelectors selectors))

/-- **Only an answered lookup is a miss.** -/
structure Held (s : InquiredState) : Prop where
  /-- A miss in the cache was asked about, in a request with a well-formed answer that does not
  name it. -/
  answered : ∀ selector asked, s.state.cache.lookup selector = some ("", asked) →
    ∃ q ∈ s.inquiries, selector ∈ q.asked ∧ WellFormed q.body ∧ NamesNone q.body selector
  /-- A selector whose last lookup failed is looked up again. -/
  again : ∀ selector q, s.inquiries.find? (fun q => selector ∈ q.asked) = some q →
    ¬WellFormed q.body → AsksAgain s.state.cache selector

/-- The directory answers, if it is its turn. -/
def Answers (_ : InquiredState) : LookupAction → Prop
  | .answer _ body => WellFormed body
  | _ => True

/-! ## What is remembered -/

omit [Keccak] [Lowercase] in
theorem lookup_remember (cache : SignatureCache) (missing : List String) (now : ℤ)
    (names : Keyed String String) (selector : String) :
    (remember cache missing now names).lookup selector =
      if selector ∈ missing then some ((names.lookup selector).getD "", now)
      else (if maxCached ≤ cache.entries.length then ∅ else cache).lookup selector := by
  unfold remember
  generalize (if maxCached ≤ cache.entries.length then ∅ else cache) = held
  induction missing generalizing held with
  | nil => simp
  | cons m missing ih =>
    rw [List.foldl_cons, ih, Keyed.lookup_insert_eq]
    by_cases hmem : selector ∈ missing
    · rw [if_pos hmem, if_pos (List.mem_cons_of_mem m hmem)]
    · by_cases hm : selector = m
      · rw [if_neg hmem, if_pos hm, if_pos (hm ▸ List.mem_cons_self), hm]
      · rw [if_neg hmem, if_neg hm, if_neg (by simp [hm, hmem])]

theorem fetched_eq_empty {body : Option Json} (h : ¬WellFormed body) : fetched body = ∅ := by
  unfold fetched
  split
  · rename_i function heq
    exact absurd ⟨function, heq⟩ h
  · rfl

/-- What a lookup waits for was wanted, and there is something it waits for. -/
def Waits (s : LookupState) : Prop :=
  ∀ l ∈ s.waiting, l.missing ≠ [] ∧ ∀ m ∈ l.missing, ∃ selector, m = Lowercase.toLowercase selector

omit [Keccak] in
theorem mem_wantedSelectors {selectors : List String} {m : String}
    (h : m ∈ wantedSelectors selectors) : ∃ selector, m = Lowercase.toLowercase selector := by
  have hsorted := (List.destutter_sublist (· ≠ ·) _).subset h
  rw [List.mem_insertionSort] at hsorted
  obtain ⟨selector, _, rfl⟩ := List.mem_map.mp hsorted
  exact ⟨selector, rfl⟩

omit [Keccak] [Lowercase] in
theorem missingSelectors_subset {wanted : List String} {cached : Keyed String String} :
    missingSelectors wanted cached ⊆ wanted :=
  fun _ h => List.mem_of_mem_filter (List.mem_of_mem_take h)

theorem Waits.exec {s s' : LookupState} {a : LookupAction} (h : Waits s)
    (hexec : s.exec a = some s') : Waits s' := by
  cases a with
  | look selectors now directory =>
    simp only [LookupState.exec] at hexec
    split_ifs at hexec with hasks
    · obtain rfl := Option.some.inj hexec
      intro l hl
      rcases List.mem_append.mp hl with hold | hnew
      · exact h l hold
      · rw [List.mem_singleton.mp hnew]
        exact ⟨hasks.2, fun m hm => mem_wantedSelectors (missingSelectors_subset hm)⟩
    · obtain rfl := Option.some.inj hexec
      exact h
  | answer i body =>
    obtain ⟨l, _, rfl⟩ := Option.map_eq_some_iff.mp hexec
    exact fun l' hl' => h l' (List.mem_of_mem_eraseIdx hl')
  | drop i =>
    obtain rfl := Option.some.inj hexec
    exact fun l' hl' => h l' (List.mem_of_mem_eraseIdx hl')

theorem waits_of_reachable {s : InquiredState} (h : inquiries.Reachable s) : Waits s.state := by
  refine h.invariant (I := fun s => Waits s.state) ?_ ?_
  · rintro s rfl
    exact nofun
  · intro s a s' hs _ hexec
    obtain ⟨t, ht, rfl⟩ := Option.map_eq_some_iff.mp hexec
    exact hs.exec ht

/-! ## Runs without a failure -/

/-- **The invariant**: every request was answered, and a miss is among those of one of them. -/
structure AllAnswered (s : InquiredState) : Prop where
  wellFormed : ∀ q ∈ s.inquiries, WellFormed q.body
  missed : ∀ selector asked, s.state.cache.lookup selector = some ("", asked) →
    ∃ q ∈ s.inquiries, selector ∈ q.asked ∧ NamesNone q.body selector

theorem AllAnswered.held {s : InquiredState} (h : AllAnswered s) : Held s where
  answered selector asked hmiss := by
    obtain ⟨q, hq, hasked, hnone⟩ := h.missed selector asked hmiss
    exact ⟨q, hq, hasked, h.wellFormed q hq, hnone⟩
  again selector q hfind hfailed := absurd (h.wellFormed q (List.mem_of_find?_eq_some hfind)) hfailed

theorem AllAnswered.exec {s s' : InquiredState} {a : LookupAction} (h : AllAnswered s)
    (hanswers : Answers s a) (hexec : s.exec a = some s') : AllAnswered s' := by
  obtain ⟨t, ht, rfl⟩ := Option.map_eq_some_iff.mp hexec
  cases a with
  | look selectors now directory =>
    have hcache : t.cache = s.state.cache := by
      simp only [LookupState.exec] at ht
      split_ifs at ht
      · exact (congrArg LookupState.cache (Option.some.inj ht)).symm
      · exact (congrArg LookupState.cache (Option.some.inj ht)).symm
    refine ⟨h.wellFormed, fun selector asked hmiss => ?_⟩
    exact h.missed selector asked (hcache ▸ hmiss)
  | answer i body =>
    obtain ⟨l, hl, rfl⟩ := Option.map_eq_some_iff.mp ht
    have hinquiry : inquiryOf s.state (.answer i body) = [⟨l.missing, body⟩] := by
      rw [inquiryOf, hl]
      rfl
    rw [hinquiry]
    refine ⟨fun q hq => ?_, fun selector asked hmiss => ?_⟩
    · rcases List.mem_cons.mp hq with rfl | hold
      · exact hanswers
      · exact h.wellFormed q hold
    · rw [lookup_remember] at hmiss
      split_ifs at hmiss with hasked hfull
      · -- What was asked about now.
        refine ⟨_, List.mem_cons_self, hasked, fun name hname => ?_⟩
        rw [hname] at hmiss
        exact congrArg Prod.fst (Option.some.inj hmiss)
      · cases hmiss
      · obtain ⟨q, hq, hrest⟩ := h.missed selector asked hmiss
        exact ⟨q, List.mem_cons_of_mem _ hq, hrest⟩
  | drop i =>
    obtain rfl := Option.some.inj ht
    exact ⟨h.wellFormed, h.missed⟩

/-! ## A failure -/

theorem wellFormed_of_held {s s' : InquiredState} {a : LookupAction} (hs : inquiries.Reachable s)
    (hexec : s.exec a = some s') (hheld : Held s') : Answers s a := by
  obtain ⟨t, ht, rfl⟩ := Option.map_eq_some_iff.mp hexec
  cases a with
  | look selectors now directory => trivial
  | drop i => trivial
  | answer i body =>
    obtain ⟨l, hl, rfl⟩ := Option.map_eq_some_iff.mp ht
    obtain ⟨hmissing, hlower⟩ := waits_of_reachable hs l (List.mem_of_getElem? hl)
    obtain ⟨m, hm⟩ := List.exists_mem_of_ne_nil _ hmissing
    obtain ⟨selector, hselector⟩ := hlower m hm
    show WellFormed body
    by_contra hfailed
    have hinquiry : inquiryOf s.state (.answer i body) = [⟨l.missing, body⟩] := by
      rw [inquiryOf, hl]
      rfl
    have hlast : (inquiryOf s.state (.answer i body) ++ s.inquiries).find?
        (fun q => m ∈ q.asked) = some ⟨l.missing, body⟩ := by
      rw [hinquiry, List.singleton_append, List.find?_cons_of_pos (by simpa using hm)]
    have hagain := hheld.again m _ hlast hfailed [selector] l.now
    have hwanted : wantedSelectors [selector] = [m] := by
      rw [hselector]
      rfl
    have hmiss : (remember s.state.cache l.missing l.now (fetched body)).lookup m =
        some ("", l.now) := by
      rw [lookup_remember, if_pos hm, fetched_eq_empty hfailed]
      rfl
    have hcached : lookCached (remember s.state.cache l.missing l.now (fetched body)) l.now [m] =
        (∅ : Keyed String String).insert m "" := by
      have hfresh : l.now - signatureTtlSeconds ≤ l.now := by
        unfold signatureTtlSeconds
        omega
      simp only [lookCached, List.foldl_cons, List.foldl_nil, hmiss, if_pos hfresh]
    have hnothing : [m].filter (fun w => w ∉ (∅ : Keyed String String).insert m "") = [] := by
      rw [List.filter_cons_of_neg, List.filter_nil]
      simp only [AList.mem_insert, true_or, not_true, decide_false, Bool.false_eq_true,
        not_false_eq_true]
    rw [hwanted, hcached, missingSelectors, hnothing, List.take_nil] at hagain
    exact List.not_mem_nil (hagain List.mem_cons_self (Nat.zero_le _))

/-- **Only an answered lookup is a miss, while no lookup fails.** In a run all states have the
property just when every request that ends in it is answered with a well-formed body. -/
theorem misses_answered_iff {as : List LookupAction} {s : InquiredState}
    (hrun : inquiries.run ⟨⟨∅, [], []⟩, []⟩ as = some s) :
    (∀ pre t, pre <+: as → inquiries.run ⟨⟨∅, [], []⟩, []⟩ pre = some t → Held t) ↔
      inquiries.Meets Answers ⟨⟨∅, [], []⟩, []⟩ as := by
  constructor
  · intro hheld
    exact System.Reachable.meets (fun _ _ _ => wellFormed_of_held) (.start rfl) hrun hheld
  · intro hmeets pre t hpre hrun'
    have hreached := System.ReachableUnder.run (.start rfl) (hmeets.of_prefix hpre) hrun'
    refine AllAnswered.held (hreached.invariant ?_ ?_)
    · rintro s rfl
      exact ⟨nofun, fun selector asked hmiss => absurd hmiss nofun⟩
    · intro s a s' hs hok hexec
      exact hs.exec hok hexec

end

/-! ## An answer and a failure -/

section Sample

attribute [local instance] Keccak.sponge Lowercase.plain

/-- The directory knows nothing. -/
def emptyAnswer : Option Json := some (.obj [("result", .obj [("function", .obj [])])])

/-- One lookup, and what comes of it. -/
def lookupOnce (body : Option Json) : List LookupAction :=
  [.look ["0xa9059cbb"] 0 true, .answer 0 body]

/-- An honest answer: the selector is a miss. -/
theorem misses_answered_once : ∃ s,
    inquiries.run ⟨⟨∅, [], []⟩, []⟩ (lookupOnce emptyAnswer) = some s ∧ Held s ∧
    s.state.cache.lookup "0xa9059cbb" = some ("", 0) := by
  have hend : (inquiries.run ⟨⟨∅, [], []⟩, []⟩ (lookupOnce emptyAnswer)).map
      (fun s => s.state.cache.lookup "0xa9059cbb") = some (some ("", 0)) := by
    decide +kernel
  obtain ⟨s, hrun, hmiss⟩ := Option.map_eq_some_iff.mp hend
  have hmeets : inquiries.Meets Answers ⟨⟨∅, [], []⟩, []⟩ (lookupOnce emptyAnswer) :=
    ⟨trivial, fun _ _ => ⟨⟨[], rfl⟩, fun _ _ => trivial⟩⟩
  exact ⟨s, hrun, (misses_answered_iff hrun).mpr hmeets _ s List.prefix_rfl hrun, hmiss⟩

/-- **A failed lookup**: no answer ever came, and the selector is a miss. -/
theorem failedLookup_missed : ¬∀ as s,
    inquiries.run ⟨⟨∅, [], []⟩, []⟩ as = some s → Held s := by
  intro h
  have hend : (inquiries.run ⟨⟨∅, [], []⟩, []⟩ (lookupOnce none)).map
      (fun s => (s.state.cache.lookup "0xa9059cbb", s.inquiries.map fun q => q.body.isSome)) =
        some (some ("", 0), [false]) := by
    decide +kernel
  obtain ⟨s, hrun, hs⟩ := Option.map_eq_some_iff.mp hend
  obtain ⟨hmiss, hbodies⟩ := Prod.mk.inj hs
  obtain ⟨q, hq, _, ⟨function, hfunction⟩, _⟩ := (h _ s hrun).answered _ _ hmiss
  have hnone : q.body = none := by
    have hmem := List.mem_map_of_mem hq (f := fun q => q.body.isSome)
    rw [hbodies, List.mem_singleton] at hmem
    exact Option.isSome_eq_false_iff.mp hmem |> Option.isNone_iff_eq_none.mp
  rw [hnone] at hfunction
  exact absurd hfunction nofun

end Sample

end ChainExplorer
