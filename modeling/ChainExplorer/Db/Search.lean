import Mathlib
import ChainExplorer.Db.Schema
import ChainExplorer.Lib.Like
import ChainExplorer.Lib.Paging

/-!
# Tokens by name

Two queries find a token by what it is called (`db.rs`): one for a symbol or a name exactly, and one
that ranks everything that matches.

* `getTokenBySymbolOrName`, `searchTokens`: the queries.
* `exactRank`, `suggestRank`: what each of them orders by.
* **`getTokenBySymbolOrName_eq`**, **`head?_searchTokens`**: the first row of each.
* `mem_matching`: a token called exactly so matches.
* **`searchTokens_contains`**: what matches contains the text typed, wildcards included, and is ranked
  by how it does.
-/

namespace ChainExplorer

open Paging Text

/-- A token as it is read. -/
structure TokenMetadata where
  address : String
  name : String
  symbol : String
  decimals : ℤ
  currency : String
  totalSupply : String
  logoUri : String
  holderCount : ℤ
deriving DecidableEq, Repr

namespace Database

/-- A token as it is stored. -/
abbrev TokenEntry := Σ _ : Bytes, TokenRow

def rowToToken [Keccak] (e : TokenEntry) : TokenMetadata where
  address := blobAddr e.1
  name := e.2.name
  symbol := e.2.symbol
  decimals := e.2.decimals
  currency := e.2.currency
  totalSupply := e.2.totalSupply
  logoUri := e.2.logoUri
  holderCount := e.2.holderCount

def getTokenMetadata [Keccak] (db : Database) (address : String) : Option TokenMetadata :=
  (db.tokenMetadata.lookup (hexBlob address)).map fun row => rowToToken ⟨hexBlob address, row⟩

/-! ## By a symbol or a name -/

/-- `lower(symbol)=lower(?1) OR lower(name)=lower(?1)`. -/
def CalledExactly (q : String) (e : TokenEntry) : Prop :=
  toAsciiLower e.2.symbol.toList = toAsciiLower q.toList ∨
    toAsciiLower e.2.name.toList = toAsciiLower q.toList

instance (q : String) (e : TokenEntry) : Decidable (CalledExactly q e) :=
  inferInstanceAs (Decidable (_ ∨ _))

/-- `holder_count DESC, address` is descending in this. -/
def exactRank (e : TokenEntry) : ℤ ×ₗ (List ℕ)ᵒᵈ :=
  toLex (e.2.holderCount, OrderDual.toDual (e.1.map UInt8.toNat))

/-- The tokens called exactly so, as they are read. -/
def exactRows (ch : Choices) (db : Database) (q : String) : List TokenEntry :=
  ch.order (db.tokenMetadata.entries.filter fun e => CalledExactly q e)

/-- **Find a token by exact symbol or name**, the case aside. -/
def getTokenBySymbolOrName [Keccak] (ch : Choices) (db : Database) (q : String) :
    Option TokenMetadata :=
  (limitOffset 1 0 (orderDesc exactRank (exactRows ch db q))).head?.map rowToToken

/-! ## By what matches -/

/-- A term as the patterns that match it anywhere and as a prefix; none under two bytes. -/
def searchTerm (q : String) : Option (List Char × List Char × List Char) :=
  if (utf8 q).length < 2 then none
  else
    let escaped := Like.escaped q.toList
    some (q.toList, '%' :: (escaped ++ ['%']), escaped ++ ['%'])

/-- Exact symbol, symbol prefix, name prefix, the rest. -/
def tier (exact pre : List Char) (row : TokenRow) : ℕ :=
  if Like.nocase row.symbol.toList exact then 0
  else if Like.like '\\' pre row.symbol.toList then 1
  else if Like.like '\\' pre row.name.toList then 2
  else 3

/-- The tier, then `holder_count DESC, symbol`: the ranking is descending in this. -/
def suggestRank (exact pre : List Char) (e : TokenEntry) : ℕᵒᵈ ×ₗ ℤ ×ₗ Stringᵒᵈ :=
  toLex (OrderDual.toDual (tier exact pre e.2),
    toLex (e.2.holderCount, OrderDual.toDual e.2.symbol))

/-- The tokens that match a pattern, as they are read. -/
def matching (ch : Choices) (db : Database) (anywhere : List Char) : List TokenEntry :=
  ch.order (db.tokenMetadata.entries.filter fun e =>
    Like.like '\\' anywhere e.2.symbol.toList ∨ Like.like '\\' anywhere e.2.name.toList)

/-- **Tokens whose symbol or name contains a text**, best matches first. -/
def searchTokens [Keccak] (ch : Choices) (db : Database) (q : String) (limit : UInt32) :
    List TokenMetadata :=
  match searchTerm q with
  | none => []
  | some (exact, anywhere, pre) =>
    (limitOffset limit.toNat 0
      (orderDesc (suggestRank exact pre) (matching ch db anywhere))).map rowToToken

/-- The same with any `LIKE` and any equality without case. -/
def rankedTokens [Keccak] (ch : Choices) (db : Database) (like same : List Char → List Char → Bool)
    (q : String) (limit : UInt32) : List TokenMetadata :=
  match searchTerm q with
  | none => []
  | some (exact, anywhere, pre) =>
    let rows := ch.order (db.tokenMetadata.entries.filter fun e =>
      like anywhere e.2.symbol.toList ∨ like anywhere e.2.name.toList)
    let tier := fun row : TokenRow =>
      if same row.symbol.toList exact then 0
      else if like pre row.symbol.toList then 1
      else if like pre row.name.toList then 2
      else 3
    (limitOffset limit.toNat 0 (orderDesc (fun e =>
      toLex (OrderDual.toDual (tier e.2), toLex (e.2.holderCount, OrderDual.toDual e.2.symbol)))
        rows)).map rowToToken

/-- SQLite compares texts up to a NUL. -/
theorem searchTokens_eq [Keccak] (ch : Choices) (db : Database) (q : String) (limit : UInt32) :
    searchTokens ch db q limit =
      rankedTokens ch db (Like.like '\\') Like.nocase q limit := rfl

/-! ## The first rows -/

theorem head?_limitOffset {α : Type} {limit : ℤ} (h : 0 < limit) (l : List α) :
    (limitOffset limit 0 l).head? = l.head? := by
  obtain ⟨n, hn⟩ : ∃ n, limit.toNat = n + 1 := ⟨limit.toNat - 1, by omega⟩
  rw [limitOffset_of_nonneg h.le, hn, Int.toNat_zero, List.drop_zero]
  cases l with
  | nil => rfl
  | cons a l => rfl

/-- **The exact query** answers with the token of most holders, the one of least address among
equals. -/
theorem getTokenBySymbolOrName_eq [Keccak] (ch : Choices) (db : Database) (q : String) :
    getTokenBySymbolOrName ch db q = ((exactRows ch db q).argmax exactRank).map rowToToken := by
  rw [getTokenBySymbolOrName, head?_limitOffset (by decide), head?_orderDesc]

/-- **The ranking** starts with the same token whatever its length. -/
theorem head?_searchTokens [Keccak] (ch : Choices) (db : Database) {q : String}
    {exact anywhere pre : List Char} (hterm : searchTerm q = some (exact, anywhere, pre))
    {limit : UInt32} (h : 0 < limit.toNat) :
    (searchTokens ch db q limit).head? =
      ((matching ch db anywhere).argmax (suggestRank exact pre)).map rowToToken := by
  have hlimit : (0 : ℤ) < limit.toNat := by exact_mod_cast h
  rw [searchTokens, hterm]
  simp only
  rw [List.head?_map, head?_limitOffset hlimit, head?_orderDesc]

theorem mem_exactRows {ch : Choices} {db : Database} {q : String} {e : TokenEntry} :
    e ∈ exactRows ch db q ↔ e ∈ db.tokenMetadata.entries ∧ CalledExactly q e := by
  rw [exactRows, (ch.perm _).mem_iff, List.mem_filter, decide_eq_true_iff]

theorem mem_matching {ch : Choices} {db : Database} {anywhere : List Char} {e : TokenEntry} :
    e ∈ matching ch db anywhere ↔ e ∈ db.tokenMetadata.entries ∧
      (Like.like '\\' anywhere e.2.symbol.toList = true ∨
        Like.like '\\' anywhere e.2.name.toList = true) := by
  rw [matching, (ch.perm _).mem_iff, List.mem_filter, decide_eq_true_iff]

theorem mem_matching_of_exact {ch : Choices} {db : Database} {q : String}
    {exact anywhere pre : List Char} (hterm : searchTerm q = some (exact, anywhere, pre))
    {e : TokenEntry} (h : e ∈ exactRows ch db q) : e ∈ matching ch db anywhere := by
  obtain ⟨he, hcalled⟩ := mem_exactRows.mp h
  have hanywhere : anywhere = '%' :: (Like.escaped q.toList ++ ['%']) := by
    unfold searchTerm at hterm
    split_ifs at hterm
    exact (congrArg (fun t => t.2.1) (Option.some.inj hterm)).symm
  rw [hanywhere]
  refine mem_matching.mpr ⟨he, ?_⟩
  rcases hcalled with hsymbol | hname
  · exact .inl (Like.like_anywhere hsymbol)
  · exact .inr (Like.like_anywhere hname)

theorem entry_eq {db : Database} {e e' : TokenEntry} (he : e ∈ db.tokenMetadata.entries)
    (he' : e' ∈ db.tokenMetadata.entries) (h : e.1 = e'.1) : e = e' := by
  obtain ⟨address, row⟩ := e
  obtain ⟨address', row'⟩ := e'
  obtain rfl : address = address' := h
  have hrow := Keyed.mem_entries_iff.mp he
  rw [Keyed.mem_entries_iff.mp he'] at hrow
  rw [Option.some.inj hrow]

theorem eq_of_exactRank {db : Database} {e e' : TokenEntry} (he : e ∈ db.tokenMetadata.entries)
    (he' : e' ∈ db.tokenMetadata.entries) (h : exactRank e = exactRank e') : e = e' := by
  refine entry_eq he he' ?_
  have hbytes : e.1.map UInt8.toNat = e'.1.map UInt8.toNat := congrArg (fun r => (ofLex r).2) h
  exact List.map_injective_iff.mpr (fun a b => UInt8.toNat_inj.mp) hbytes

/-! ## What is found -/

/-- A text holds another, up to the case of `A`–`Z`. -/
def Contains (q text : String) : Prop := toAsciiLower q.toList <:+: toAsciiLower text.toList

/-- A text starts with another, up to the case. -/
def StartsWith (q text : String) : Prop := toAsciiLower q.toList <+: toAsciiLower text.toList

instance (q text : String) : Decidable (StartsWith q text) :=
  inferInstanceAs (Decidable (_ <+: _))

/-- **How a token matches**: by its whole symbol, the start of its symbol, the start of its name, or
otherwise. -/
def matchTier (q : String) (t : TokenMetadata) : ℕ :=
  if toAsciiLower t.symbol.toList = toAsciiLower q.toList then 0
  else if StartsWith q t.symbol then 1
  else if StartsWith q t.name then 2
  else 3

/-- Tokens that a text is found in, in the order of how it is. -/
def Ranked (db : Database) [Keccak] (q : String) (found : List TokenMetadata) : Prop :=
  (∀ t ∈ found, t ∈ db.tokenMetadata.entries.map rowToToken ∧
      (Contains q t.symbol ∨ Contains q t.name)) ∧
    found.Pairwise fun t u => matchTier q t ≤ matchTier q u

theorem ranked_rankedTokens [Keccak] (ch : Choices) (db : Database) {q : String}
    {anywhere pre : List Char} (hterm : searchTerm q = some (q.toList, anywhere, pre))
    {like same : List Char → List Char → Bool}
    (hanywhere : ∀ t : String, like anywhere t.toList = true → Contains q t)
    (hpre : ∀ t : String, like pre t.toList = true ↔ StartsWith q t)
    (hsame : ∀ t : String, same t.toList q.toList = true ↔
      toAsciiLower t.toList = toAsciiLower q.toList) (limit : UInt32) :
    Ranked db q (rankedTokens ch db like same q limit) := by
  rw [rankedTokens, hterm]
  simp only
  set rank := fun e : TokenEntry => toLex (OrderDual.toDual
    (if same e.2.symbol.toList q.toList then 0 else if like pre e.2.symbol.toList then 1
      else if like pre e.2.name.toList then 2 else 3),
    toLex (e.2.holderCount, OrderDual.toDual e.2.symbol)) with hrank
  set rows := ch.order (db.tokenMetadata.entries.filter fun e =>
    like anywhere e.2.symbol.toList ∨ like anywhere e.2.name.toList) with hrows
  have hlimit : (0 : ℤ) ≤ limit.toNat := Int.natCast_nonneg _
  rw [limitOffset_of_nonneg hlimit, Int.toNat_zero, List.drop_zero]
  constructor
  · intro t ht
    obtain ⟨e, he, rfl⟩ := List.mem_map.mp ht
    have hrow := (ch.perm _).mem_iff.mp ((mem_orderDesc rank).mp (List.mem_of_mem_take he))
    obtain ⟨hmem, hlike⟩ := List.mem_filter.mp hrow
    refine ⟨List.mem_map_of_mem hmem, ?_⟩
    rcases of_decide_eq_true hlike with hsymbol | hname
    · exact .inl (hanywhere _ hsymbol)
    · exact .inr (hanywhere _ hname)
  · have htier : ∀ e : TokenEntry, OrderDual.ofDual (ofLex (rank e)).1 =
        matchTier q (rowToToken e) := fun e =>
      if_congr (hsame e.2.symbol) rfl
        (if_congr (hpre e.2.symbol) rfl (if_congr (hpre e.2.name) rfl rfl))
    rw [List.pairwise_map]
    refine ((pairwise_orderDesc rank rows).sublist (List.take_sublist _ _)).imp ?_
    intro e e' hle
    rw [← htier, ← htier]
    exact OrderDual.ofDual_le_ofDual.mpr (Prod.Lex.monotone_fst _ _ hle)

/-- **A typed wildcard is a character.** For every text of at least two bytes, the patterns made of it
match exactly the texts that contain it and those that start with it, up to case, and what is found
contains it and comes in the order of how it does. SQLite cuts what it compares at a NUL: it finds the
same where none is typed. -/
theorem searchTokens_contains [Keccak] {q : String} (hq : 2 ≤ (utf8 q).length) :
    ∃ anywhere pre, searchTerm q = some (q.toList, anywhere, pre) ∧
      (∀ t : String, Like.fits '\\' anywhere t.toList = true ↔ Contains q t) ∧
      (∀ t : String, Like.fits '\\' pre t.toList = true ↔ StartsWith q t) ∧
      ∀ (ch : Choices) (db : Database) (limit : UInt32),
        Ranked db q (rankedTokens ch db (Like.fits '\\') eqIgnoreAsciiCase q limit) ∧
          (Char.ofNat 0 ∉ q.toList → Ranked db q (searchTokens ch db q limit)) := by
  have hterm : searchTerm q = some (q.toList, '%' :: (Like.escaped q.toList ++ ['%']),
      Like.escaped q.toList ++ ['%']) := if_neg (not_lt.mpr hq)
  refine ⟨_, _, hterm, fun t => Like.fits_anywhere_iff, fun t => Like.fits_start_iff,
    fun ch db limit => ⟨?_, fun hnul => ?_⟩⟩
  · exact ranked_rankedTokens ch db hterm (fun t => Like.fits_anywhere_iff.mp)
      (fun t => Like.fits_start_iff) (fun t => decide_eq_true_iff) limit
  · rw [searchTokens_eq]
    exact ranked_rankedTokens ch db hterm (fun t => Like.infix_of_like_anywhere hnul)
      (fun t => Like.like_start_iff hnul) (fun t => Like.nocase_iff hnul) limit

section Sample

attribute [local instance] Keccak.sponge

/-- Two offers, of which one is spelled with the wildcards. -/
def offers : Database :=
  let named (name : String) : TokenRow := ⟨name, "OFF", 6, "USD", "0", "", 1⟩
  { fresh with tokenMetadata := (fresh.tokenMetadata.insert (List.replicate 20 1)
      (named "off 5%_ X")).insert (List.replicate 20 2) (named "off 50% X") }

/-- **The text `5%_`** is found in the one, and not in the other, which `LIKE` would match. -/
theorem searchTokens_contains_percent : ∃ anywhere pre,
    searchTerm "5%_" = some ("5%_".toList, anywhere, pre) ∧
      Like.fits '\\' anywhere "off 5%_ X".toList = true ∧
      Like.fits '\\' anywhere "off 50% X".toList = false ∧
      Like.fits '\\' "%5%_%".toList "off 50% X".toList = true ∧
      (searchTokens .plain offers "5%_" 20).map TokenMetadata.name = ["off 5%_ X"] ∧
      Ranked offers "5%_" (searchTokens .plain offers "5%_" 20) := by
  obtain ⟨anywhere, pre, hterm, -, -, hfound⟩ := searchTokens_contains (q := "5%_") (by decide)
  have hpattern : anywhere = "%5\\%\\_%".toList := by
    have hterm' : searchTerm "5%_" =
        some ("5%_".toList, "%5\\%\\_%".toList, "5\\%\\_%".toList) := by decide +kernel
    exact congrArg (fun t => t.2.1) (Option.some.inj (hterm.symm.trans hterm'))
  refine ⟨anywhere, pre, hterm, ?_, ?_, by decide +kernel, by decide +kernel,
    (hfound .plain offers 20).2 (by decide)⟩
  · rw [hpattern]
    decide +kernel
  · rw [hpattern]
    decide +kernel

end Sample

end Database

end ChainExplorer
