import Mathlib.Data.List.Sort
import Mathlib.Data.String.Basic
import ChainExplorer.Decoder
import ChainExplorer.Lib.Keyed
import ChainExplorer.Lib.System

/-!
# Names for selectors

Selectors no built-in ABI declares are looked up in a public directory and cached, misses included
(`signatures.rs`).

* `hashesTo`: whether a signature is the preimage of a selector.
* `lookCached`, `fetched`, `remember`: the parts of `resolve`, between which others run.
* `decodeWithSignature`: calldata under a signature from the directory (`decoder.rs`).
* **`signatures_named`**: whatever the directory answers, a name is that of its selector wherever it
  is held, returned or decoded with.
-/

namespace ChainExplorer

open Text

/-- A function of an interface, and its arguments in calldata. -/
structure AbiFunction where
  name : String
  signature : String
  decodedParams : Bytes → List DecodedParam

/-- **The parser of signatures** written as text. -/
class SignatureParser where
  parseFunction : String → Option AbiFunction

structure DecodedCall where
  name : Option String
  signature : Option String
  params : List DecodedParam
  selector : String
  rawArgs : String
deriving DecidableEq

/-- How long an answer of the directory is believed. -/
def signatureTtlSeconds : ℤ := 7 * 24 * 60 * 60

/-- Selectors per request. -/
def maxLookup : ℕ := 32

/-- Entries held before the cache starts over. -/
def maxCached : ℕ := 10000

/-- What the directory said about each selector and when; a miss is an empty text. -/
abbrev SignatureCache := Keyed String (String × ℤ)

section Names

variable [Keccak]

/-- The selector of a signature: the first four bytes of its hash. -/
def selectorOf (signature : String) : Bytes := (Keccak.keccak256 (utf8 signature)).toList.take 4

variable [Lowercase]

/-- Whether a signature is really the preimage of a selector. -/
def hashesTo (signature selector : String) : Bool :=
  let expected := Lowercase.toLowercase (String.ofList (without0x selector.toList))
  String.ofList (Hex.encode (selectorOf signature)) = expected

/-! ## A lookup -/

/-- The selectors that are looked up, each once. -/
def wantedSelectors (selectors : List String) : List String :=
  ((selectors.map Lowercase.toLowercase).insertionSort (· ≤ ·)).destutter (· ≠ ·)

/-- What the cache still knows, misses included. -/
def lookCached (cache : SignatureCache) (now : ℤ) (wanted : List String) : Keyed String String :=
  wanted.foldl (fun known selector =>
    match cache.lookup selector with
    | some (signature, asked) =>
      if now - signatureTtlSeconds ≤ asked then known.insert selector signature else known
    | none => known) ∅

/-- What the directory is asked about. -/
def missingSelectors (wanted : List String) (cached : Keyed String String) : List String :=
  (wanted.filter fun selector => selector ∉ cached).take maxLookup

/-- The names among what is cached. -/
def resolvedOf (cached : Keyed String String) : Keyed String String :=
  cached.entries.foldl (fun t e => if e.2.isEmpty then t else t.insert e.1 e.2) ∅

/-- The name an entry of the directory's answer offers: its first one. -/
def offeredName (entries : Json) : Option String :=
  ((entries.asArray.bind List.head?).bind (Json.get "name")).bind Json.asStr

/-- What of an answer is believed. No answer and a malformed one are the same. -/
def fetched (body : Option Json) : Keyed String String :=
  match (body.bind (Json.get "result")).bind (Json.get "function") with
  | some (.obj function) =>
    function.foldl (fun out e =>
      match offeredName e.2 with
      | some name =>
        if hashesTo name e.1 then out.insert (Lowercase.toLowercase e.1) name else out
      | none => out) ∅
  | _ => ∅

omit [Keccak] [Lowercase] in
/-- Remember everything that was asked about, a selector without a name as a miss. -/
def remember (cache : SignatureCache) (missing : List String) (now : ℤ)
    (names : Keyed String String) : SignatureCache :=
  let held := if maxCached ≤ cache.entries.length then ∅ else cache
  missing.foldl (fun t selector =>
    t.insert selector ((names.lookup selector).getD "", now)) held

omit [Keccak] [Lowercase] in
/-- The answer with the directory's names over the cached ones. -/
def extended (resolved names : Keyed String String) : Keyed String String :=
  names.entries.foldl (fun t e => t.insert e.1 e.2) resolved

/-- A lookup that waits for the directory. -/
structure SignatureLookup where
  missing : List String
  resolved : Keyed String String
  now : ℤ

/-- The cache, the lookups that wait, and everything that was returned so far. -/
structure LookupState where
  cache : SignatureCache
  waiting : List SignatureLookup
  returned : List (Keyed String String)

inductive LookupAction
  /-- `resolve` up to the request; without a directory, or with nothing missing, all of it. -/
  | look (selectors : List String) (now : ℤ) (directory : Bool)
  /-- The rest, once the directory has answered whatever it did. -/
  | answer (i : ℕ) (body : Option Json)
  /-- The page is not waited for any more. -/
  | drop (i : ℕ)

def LookupState.exec (s : LookupState) : LookupAction → Option LookupState
  | .look selectors now directory =>
    let wanted := wantedSelectors selectors
    let cached := lookCached s.cache now wanted
    let missing := missingSelectors wanted cached
    let resolved := resolvedOf cached
    if directory ∧ missing ≠ [] then some { s with waiting := s.waiting ++ [⟨missing, resolved, now⟩] }
    else some { s with returned := s.returned ++ [resolved] }
  | .answer i body =>
    (s.waiting[i]?).map fun l =>
      { cache := remember s.cache l.missing l.now (fetched body)
        waiting := s.waiting.eraseIdx i
        returned := s.returned ++ [extended l.resolved (fetched body)] }
  | .drop i => some { s with waiting := s.waiting.eraseIdx i }

/-- **Lookups side by side** over one cache. -/
def lookups : System LookupState LookupAction where
  init s := s = ⟨∅, [], []⟩
  exec := LookupState.exec

/-! ## Calldata -/

omit [Keccak] [Lowercase] in
/-- Split `0x…` calldata into its selector and its arguments. -/
def splitCalldata (data : String) : Option (Bytes × Bytes) :=
  let data := without0x data.toList
  if data.isEmpty then none
  else (Hex.decode data).bind fun raw =>
    if raw.length < 4 then none else some (raw.take 4, raw.drop 4)

/-- **Decode calldata against a signature learned at runtime.** -/
def decodeWithSignature [SignatureParser] (data signature : String) : Option DecodedCall := do
  let (selector, args) ← splitCalldata data
  if !hashesTo signature (String.ofList (Hex.encode selector)) then none
  else
    let function ← SignatureParser.parseFunction signature
    return {
      name := some function.name
      signature := some function.signature
      params := function.decodedParams args
      selector := blobHex selector
      rawArgs := blobHex args }

/-! ## Names -/

omit [Lowercase] in
/-- The selector is that of the signature, in lowercase digits. -/
def Named (signature selector : String) : Prop :=
  without0x selector.toList = Hex.encode (selectorOf signature)

theorem named_of_hashesTo {signature selector : String} (h : hashesTo signature selector = true) :
    Named signature (Lowercase.toLowercase selector) := by
  set digits := without0x selector.toList with hdigits
  have hlower : Lowercase.toLowercase (String.ofList digits) =
      String.ofList (Hex.encode (selectorOf signature)) := (of_decide_eq_true h).symm
  have hascii : ∀ c ∈ digits, c.toNat < 128 := by
    have hhex := Lowercase.hex (String.ofList digits)
    rw [hlower, String.toList_ofList, String.toList_ofList] at hhex
    exact hhex fun c hc => Hex.exists_digit_of_mem_encode hc
  have hspelled : toAsciiLower digits = Hex.encode (selectorOf signature) := by
    rw [Lowercase.ascii _ (by rwa [String.toList_ofList]), String.toList_ofList] at hlower
    exact String.ofList_injective hlower
  -- The selector is these digits, with or without `0x`.
  have hcases : selector.toList = '0' :: 'x' :: digits ∨ selector.toList = digits := by
    rw [hdigits, without0x, stripPrefix]
    by_cases hprefix : ['0', 'x'].isPrefixOf selector.toList
    · rw [if_pos hprefix]
      obtain ⟨rest, hrest⟩ := List.isPrefixOf_iff_prefix.mp hprefix
      refine .inl ?_
      rw [← hrest, Option.getD_some, List.drop_left]
      rfl
    · rw [if_neg hprefix]
      exact .inr rfl
  have hall : ∀ c ∈ selector.toList, c.toNat < 128 := by
    intro c hc
    rcases hcases with hsel | hsel
    · rw [hsel, List.mem_cons, List.mem_cons] at hc
      rcases hc with rfl | rfl | hc
      · decide
      · decide
      · exact hascii c hc
    · rw [hsel] at hc
      exact hascii c hc
  rw [Named, Lowercase.ascii selector hall, String.toList_ofList]
  rcases hcases with hsel | hsel
  · have hprefix : toAsciiLower ('0' :: 'x' :: digits) = '0' :: 'x' :: toAsciiLower digits := rfl
    rw [hsel, hprefix, without0x_cons, hspelled]
  · rw [hsel, hspelled, without0x_encode]

theorem eq_selectorOf {signature : String} {selector : Bytes}
    (h : hashesTo signature (String.ofList (Hex.encode selector)) = true) :
    selector = selectorOf signature := by
  have hnamed := named_of_hashesTo h
  have hlower : Lowercase.toLowercase (String.ofList (Hex.encode selector)) =
      String.ofList (Hex.encode selector) := by
    rw [Lowercase.ascii, String.toList_ofList, toAsciiLower_encode]
    rw [String.toList_ofList]
    exact fun c hc => Hex.ascii_of_mem_encode hc
  rw [Named, hlower, String.toList_ofList, without0x_encode] at hnamed
  have hdecode := congrArg Hex.decode hnamed
  rw [Hex.decode_encode, Hex.decode_encode] at hdecode
  exact Option.some.inj hdecode

theorem decodeWithSignature_eq_none [SignatureParser] {data signature : String}
    (h : ∀ args, Hex.decode (without0x data.toList) ≠ some (selectorOf signature ++ args)) :
    decodeWithSignature data signature = none := by
  unfold decodeWithSignature
  cases hsplit : splitCalldata data with
  | none => rfl
  | some parts =>
    obtain ⟨selector, args⟩ := parts
    have hraw : Hex.decode (without0x data.toList) = some (selector ++ args) := by
      unfold splitCalldata at hsplit
      simp only at hsplit
      split_ifs at hsplit
      obtain ⟨raw, hdecode, hparts⟩ := Option.bind_eq_some_iff.mp hsplit
      split_ifs at hparts
      obtain ⟨rfl, rfl⟩ := Prod.mk.inj (Option.some.inj hparts)
      rw [List.take_append_drop]
      exact hdecode
    have hfalse : hashesTo signature (String.ofList (Hex.encode selector)) = false := by
      by_contra htrue
      have heq := eq_selectorOf (Bool.eq_true_of_not_eq_false htrue)
      rw [heq] at hraw
      exact h args hraw
    simp only [Option.bind_eq_bind, Option.bind_some, hfalse, Bool.not_false, if_true]

/-! ## The parts of a lookup -/

omit [Lowercase] in
/-- Every name of a map is that of its selector. -/
def AllNamed (names : Keyed String String) : Prop :=
  ∀ selector signature, names.lookup selector = some signature → Named signature selector

omit [Lowercase] in
/-- Every entry of a map is a miss or the name of its selector. -/
def NamedOrMissed (cached : Keyed String String) : Prop :=
  ∀ selector signature, cached.lookup selector = some signature → signature ≠ "" →
    Named signature selector

omit [Lowercase] in
/-- So is every entry of the cache. -/
def CacheNamed (cache : SignatureCache) : Prop :=
  ∀ selector signature asked, cache.lookup selector = some (signature, asked) → signature ≠ "" →
    Named signature selector

omit [Lowercase] in
theorem AllNamed.empty : AllNamed ∅ := by
  intro selector signature h
  exact absurd h nofun

omit [Lowercase] in
theorem AllNamed.insert {names : Keyed String String} (h : AllNamed names)
    {selector signature : String} (hnamed : Named signature selector) :
    AllNamed (names.insert selector signature) := by
  intro selector' signature' hlookup
  rw [Keyed.lookup_insert_eq] at hlookup
  split_ifs at hlookup with heq
  · rw [heq, ← Option.some.inj hlookup]
    exact hnamed
  · exact h _ _ hlookup

omit [Lowercase] in
theorem lookCached_named {cache : SignatureCache} (h : CacheNamed cache) (now : ℤ)
    (wanted : List String) : NamedOrMissed (lookCached cache now wanted) := by
  unfold lookCached
  refine List.foldlRecOn wanted _ ?_ fun known hknown selector _ => ?_
  · intro selector signature hlookup
    exact absurd hlookup nofun
  · cases hheld : cache.lookup selector with
    | none => exact hknown
    | some entry =>
      obtain ⟨signature, asked⟩ := entry
      simp only
      split_ifs
      · intro selector' signature' hlookup hne
        rw [Keyed.lookup_insert_eq] at hlookup
        split_ifs at hlookup with heq
        · obtain rfl := Option.some.inj hlookup
          rw [heq]
          exact h _ _ _ hheld hne
        · exact hknown _ _ hlookup hne
      · exact hknown

omit [Lowercase] in
theorem resolvedOf_named {cached : Keyed String String} (h : NamedOrMissed cached) :
    AllNamed (resolvedOf cached) := by
  unfold resolvedOf
  refine List.foldlRecOn cached.entries _ .empty fun t ht e he => ?_
  by_cases hempty : e.2.isEmpty
  · rw [if_pos hempty]
    exact ht
  · rw [if_neg hempty]
    refine ht.insert (h e.1 e.2 (Keyed.mem_entries_iff.mp he) ?_)
    rintro heq
    rw [heq] at hempty
    exact hempty rfl

theorem fetched_named (body : Option Json) : AllNamed (fetched body) := by
  unfold fetched
  split
  · rename_i function _
    refine List.foldlRecOn function _ .empty fun out hout e _ => ?_
    cases hname : offeredName e.2 with
    | none => exact hout
    | some name =>
      simp only
      split_ifs with hhash
      · exact hout.insert (named_of_hashesTo hhash)
      · exact hout
  · exact .empty

omit [Lowercase] in
theorem extended_named {resolved names : Keyed String String} (hr : AllNamed resolved)
    (hn : AllNamed names) : AllNamed (extended resolved names) := by
  unfold extended
  refine List.foldlRecOn names.entries _ hr fun t ht e he => ?_
  exact ht.insert (hn _ _ (Keyed.mem_entries_iff.mp he))

omit [Lowercase] in
theorem remember_named {cache : SignatureCache} (h : CacheNamed cache) (missing : List String)
    (now : ℤ) {names : Keyed String String} (hn : AllNamed names) :
    CacheNamed (remember cache missing now names) := by
  unfold remember
  refine List.foldlRecOn missing _ ?_ fun t ht selector _ => ?_
  · split_ifs
    · intro selector signature asked hlookup
      exact absurd hlookup nofun
    · exact h
  · intro selector' signature' asked' hlookup hne
    rw [Keyed.lookup_insert_eq] at hlookup
    split_ifs at hlookup with heq
    · obtain ⟨rfl, -⟩ := Prod.mk.inj (Option.some.inj hlookup)
      rw [heq]
      cases hname : names.lookup selector with
      | none =>
        rw [hname] at hne
        exact absurd rfl hne
      | some name => exact hn _ _ hname
    · exact ht _ _ _ hlookup hne

/-! ## Every run -/

omit [Lowercase] in
/-- **The invariant**: wherever a name is, it is that of its selector. -/
structure LookupState.Inv (s : LookupState) : Prop where
  cache : CacheNamed s.cache
  waiting : ∀ l ∈ s.waiting, AllNamed l.resolved
  returned : ∀ names ∈ s.returned, AllNamed names

theorem LookupState.Inv.exec {s s' : LookupState} {a : LookupAction} (h : s.Inv)
    (hexec : s.exec a = some s') : s'.Inv := by
  cases a with
  | look selectors now directory =>
    have hresolved : AllNamed (resolvedOf (lookCached s.cache now (wantedSelectors selectors))) :=
      resolvedOf_named (lookCached_named h.cache now _)
    simp only [LookupState.exec] at hexec
    split_ifs at hexec
    · obtain rfl := Option.some.inj hexec
      refine ⟨h.cache, fun l hl => ?_, h.returned⟩
      rcases List.mem_append.mp hl with hold | hnew
      · exact h.waiting l hold
      · rw [List.mem_singleton.mp hnew]
        exact hresolved
    · obtain rfl := Option.some.inj hexec
      refine ⟨h.cache, h.waiting, fun names hnames => ?_⟩
      rcases List.mem_append.mp hnames with hold | hnew
      · exact h.returned names hold
      · rw [List.mem_singleton.mp hnew]
        exact hresolved
  | answer i body =>
    obtain ⟨l, hl, rfl⟩ := Option.map_eq_some_iff.mp hexec
    have hfetched := fetched_named body
    have hmem : l ∈ s.waiting := List.mem_of_getElem? hl
    refine ⟨remember_named h.cache l.missing l.now hfetched, fun l' hl' => ?_,
      fun names hnames => ?_⟩
    · exact h.waiting l' (List.mem_of_mem_eraseIdx hl')
    · rcases List.mem_append.mp hnames with hold | hnew
      · exact h.returned names hold
      · rw [List.mem_singleton.mp hnew]
        exact extended_named (h.waiting l hmem) hfetched
  | drop i =>
    obtain rfl := Option.some.inj hexec
    exact ⟨h.cache, fun l hl => h.waiting l (List.mem_of_mem_eraseIdx hl), h.returned⟩

theorem LookupState.inv_of_reachable {s : LookupState} (h : lookups.Reachable s) : s.Inv := by
  refine h.invariant ?_ ?_
  · rintro s rfl
    refine ⟨?_, nofun, nofun⟩
    intro selector signature asked hlookup
    exact absurd hlookup nofun
  · intro s a s' hs _ hexec
    exact hs.exec hexec

/-- **A stranger's name is never believed unproved.** After any lookups, with any answers of the
directory, every name in the cache and every name that was returned is that of its selector; and a
signature decodes no calldata that does not start with its selector. -/
theorem signatures_named [SignatureParser] {s : LookupState} (h : lookups.Reachable s) :
    (∀ selector signature asked, s.cache.lookup selector = some (signature, asked) →
      signature ≠ "" → Named signature selector) ∧
    (∀ names ∈ s.returned, ∀ selector signature, names.lookup selector = some signature →
      Named signature selector) ∧
    ∀ data signature : String,
      (∀ args, Hex.decode (without0x data.toList) ≠ some (selectorOf signature ++ args)) →
        decodeWithSignature data signature = none := by
  have hinv := LookupState.inv_of_reachable h
  exact ⟨hinv.cache, hinv.returned, fun data signature => decodeWithSignature_eq_none⟩

end Names

/-! ## A name and a wrong one -/

section Sample

attribute [local instance] Keccak.sponge

attribute [local instance] Lowercase.plain

/-- A parser that reads no signature. -/
@[reducible] def SignatureParser.blank : SignatureParser := ⟨fun _ => none⟩

attribute [local instance] SignatureParser.blank

/-- The name of the selector asked for, and a wrong name for another one. -/
def directoryAnswer : Json :=
  .obj [("result", .obj [("function", .obj [
    ("0xA9059CBB", .arr [.obj [("name", .str "transfer(address,uint256)")]]),
    ("0x23b872dd", .arr [.obj [("name", .str "drain(address)")]])])])]

/-- One lookup, and the directory's answer. -/
def oneLookup : List LookupAction :=
  [.look ["0xa9059cbb", "0x23B872DD"] 0 true, .answer 0 (some directoryAnswer)]

/-- The name is kept and returned, the wrong one is a miss. -/
theorem signatures_named_lookup : ∃ s, lookups.run ⟨∅, [], []⟩ oneLookup = some s ∧
    s.cache.lookup "0xa9059cbb" = some ("transfer(address,uint256)", 0) ∧
    s.cache.lookup "0x23b872dd" = some ("", 0) ∧
    Named "transfer(address,uint256)" "0xa9059cbb" ∧
    decodeWithSignature "0xa9059cbb" "drain(address)" = none := by
  have hend : (lookups.run ⟨∅, [], []⟩ oneLookup).map
      (fun s => (s.cache.lookup "0xa9059cbb", s.cache.lookup "0x23b872dd")) =
        some (some ("transfer(address,uint256)", 0), some ("", 0)) := by
    decide +kernel
  obtain ⟨s, hrun, hs⟩ := Option.map_eq_some_iff.mp hend
  obtain ⟨hname, hmiss⟩ := Prod.mk.inj hs
  have h := signatures_named (System.Reachable.run (.start rfl) hrun)
  refine ⟨s, hrun, hname, hmiss, h.1 _ _ _ hname (by decide), h.2.2 _ _ fun args heq => ?_⟩
  have hselector : selectorOf "drain(address)" = [0xec, 0xe5, 0x31, 0x32] := by decide +kernel
  have hdata : Hex.decode (without0x "0xa9059cbb".toList) = some [0xa9, 0x05, 0x9c, 0xbb] := by
    decide
  rw [hdata, hselector] at heq
  exact absurd (List.cons.inj (Option.some.inj heq)).1 (by decide)

end Sample

end ChainExplorer
