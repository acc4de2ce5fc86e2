import ChainExplorer.Db.Search
import ChainExplorer.Decoder
import ChainExplorer.Lib.Fallible
import ChainExplorer.Parse
import ChainExplorer.Spelling

/-!
# The search box

What the box suggests while a reader types, and where Enter lands (`web.rs`).

* `resolveSearch`, `searchSuggest`: the two answers to a query.
* `NameShaped`: a query that only a name can answer.
* `Agrees`: Enter lands where the first suggestion points.
* **`resolveSearch_agrees_iff`**: it does just when no token called exactly so ranks below another.
* `resolveSearch_elsewhere`: a name that leads elsewhere.
-/

namespace ChainExplorer

open Text
open Database (TokenEntry getTokenMetadata getTokenBySymbolOrName searchTokens searchTerm exactRank
  suggestRank exactRows matching CalledExactly rowToToken)

/-- One place the box can send the reader to. -/
structure Destination where
  kind : String
  id : String
  url : String
deriving DecidableEq, Repr

/-- One line under the box. -/
structure Suggestion where
  kind : String
  url : String
  label : String
  sublabel : String
deriving DecidableEq, Repr

def suggestionLimit : UInt32 := 8

/-- Thirty-two bytes in hex. -/
def isHash (value : List Char) : Bool :=
  match stripPrefix ['0', 'x'] value with
  | some hex => hex.length = 64 && hex.all fun c => (Hex.nibble? c).isSome
  | none => false

/-- A block by its hash. -/
def blockByHash (ch : Choices) (db : Database) (hash : String) : Option (Σ _ : ℤ, BlockRow) :=
  (ch.order (db.blocks.entries.filter fun e => e.2.hash = hexBlob hash)).head?

theorem blockByHash_eq_none {ch : Choices} {db : Database} {q : String}
    (h : ∀ e ∈ db.blocks.entries, e.2.hash ≠ hexBlob q) : blockByHash ch db q = none := by
  have hnone : db.blocks.entries.filter (fun e => e.2.hash = hexBlob q) = [] := by
    refine List.filter_eq_nil_iff.mpr fun e he => ?_
    rw [decide_eq_true_iff]
    exact h e he
  have hperm := ch.perm (db.blocks.entries.filter fun e => e.2.hash = hexBlob q)
  rw [hnone] at hperm
  rw [blockByHash, hnone, List.Perm.eq_nil hperm]
  rfl

def blockDestination (number : ℤ) : Destination :=
  ⟨"block", toString number, "/block/" ++ toString number⟩

def tokenDestination (token : TokenMetadata) : Destination :=
  ⟨"token", token.address, "/token/" ++ token.address⟩

/-- A token under the box, or a panic: its address is truncated. -/
def tokenSuggestion (token : TokenMetadata) : Option Suggestion :=
  (truncateHash token.address 8 6).map fun short =>
    { kind := "token"
      url := "/token/" ++ token.address
      label := if token.name.isEmpty then token.symbol else token.name
      sublabel := token.symbol ++ " · " ++ short }

/-- The number a query is read as. -/
def queriedNumber (q : List Char) : Option ℤ :=
  let number := (stripPrefix ['#'] q).getD q
  if number.all Char.isDigit then parseI64 (String.ofList number) else none

section Keccak

variable [Keccak]

/-- **Where a query lands.** The candidates are tried in the order a reader means them. -/
def resolveSearch (ch : Choices) (db : Database) (q : String) : Option Destination :=
  -- Digits only, so that no sign is taken.
  let height := if q ≠ "" ∧ q.toList.all Char.isDigit then parseI64 q else none
  ((height.filter fun n => (db.blocks.lookup n).isSome).map fun _ =>
      (⟨"block", q, "/block/" ++ q⟩ : Destination)) <|>
    ((db.transactions.lookup (hexBlob q)).map fun _ =>
      (⟨"transaction", q, "/tx/" ++ q⟩ : Destination)) <|>
    ((blockByHash ch db q).map fun e => blockDestination e.1) <|>
    (let checksummed := checksumAddress q
      if isValidAddress checksummed.toList then
        some ⟨"address", checksummed, "/address/" ++ checksummed⟩
      else none) <|>
    ((getTokenMetadata db q).map tokenDestination) <|>
    ((getTokenBySymbolOrName ch db q).map tokenDestination) <|>
    ((searchTokens ch db q 1).head?.map tokenDestination)

/-- **What the box suggests**, or a panic. `addressed` is what it lists of an address, and `more` are
the names the contracts know, which come after the tokens. -/
def searchSuggest (ch : Choices) (db : Database) (q : String) (addressed more : List Suggestion) :
    Option (List Suggestion) :=
  let block := ((queriedNumber q.toList).bind fun n => (db.blocks.lookup n).map fun row =>
    (⟨"block", "/block/" ++ toString n, "Block #" ++ toString n,
      toString row.txCount ++ " transactions"⟩ : Suggestion)).toList
  let rest :=
    if isValidAddress (checksumAddress q).toList then some addressed
    else if isHash q.toList then
      match blockByHash ch db q with
      | some e => some [⟨"block", "/block/" ++ toString e.1, "Block #" ++ toString e.1, q⟩]
      | none => some [⟨"transaction", "/tx/" ++ q, "Transaction",
          match db.transactions.lookup (hexBlob q) with
          | some tx => "Block #" ++ toString tx.blockNumber
          | none => "Not indexed yet"⟩]
    else ((searchTokens ch db q suggestionLimit).mapM tokenSuggestion).map fun tokens => tokens ++ more
  rest.map fun rest => (block ++ rest).take suggestionLimit.toNat

/-! ## Where Enter lands -/

/-- **A query that only a name can answer**: no number, hash or address, and no transaction, block
or token address of the index. -/
structure NameShaped (db : Database) (q : String) : Prop where
  long : 2 ≤ (utf8 q).length
  notNumber : q.toList.all Char.isDigit = false
  notHash : isHash q.toList = false
  notAddress : isValidAddress (checksumAddress q).toList = false
  noTransaction : db.transactions.lookup (hexBlob q) = none
  noHeight : ∀ n, queriedNumber q.toList = some n → db.blocks.lookup n = none
  noBlock : ∀ e ∈ db.blocks.entries, e.2.hash ≠ hexBlob q
  noToken : db.tokenMetadata.lookup (hexBlob q) = none

/-- **Enter lands where the suggestions said**: on the first token of the ranking. -/
def Agrees (ch : Choices) (db : Database) (q : String) (addressed more : List Suggestion) : Prop :=
  ∃ token first rest, (searchTokens ch db q suggestionLimit).head? = some token ∧
    resolveSearch ch db q = some (tokenDestination token) ∧
    searchSuggest ch db q addressed more = some (first :: rest) ∧ tokenSuggestion token = some first

/-- The token of most holders among those called exactly so, the one of least address among equals,
is behind no other that matches: in its tier, its holders, its symbol, and in the order they are
read. -/
def ExactLeads (ch : Choices) (db : Database) (q : String) : Prop :=
  ∀ exact anywhere pre, searchTerm q = some (exact, anywhere, pre) →
    ∀ e ∈ exactRows ch db q, (∀ e' ∈ exactRows ch db q, exactRank e' ≤ exactRank e) →
      ∀ e' ∈ matching ch db anywhere, suggestRank exact pre e' ≤ suggestRank exact pre e ∧
        (suggestRank exact pre e ≤ suggestRank exact pre e' →
          (matching ch db anywhere).idxOf e ≤ (matching ch db anywhere).idxOf e')

theorem NameShaped.resolveSearch_eq {db : Database} {q : String} (h : NameShaped db q)
    (ch : Choices) : resolveSearch ch db q =
      ((getTokenBySymbolOrName ch db q).map tokenDestination <|>
        (searchTokens ch db q 1).head?.map tokenDestination) := by
  have hnumber : ¬(q ≠ "" ∧ q.toList.all Char.isDigit = true) := by
    rw [h.notNumber]
    exact fun hq => Bool.false_ne_true hq.2
  have htoken : getTokenMetadata db q = none := by
    rw [getTokenMetadata, h.noToken]
    rfl
  unfold resolveSearch
  simp only [if_neg hnumber, h.noTransaction, blockByHash_eq_none h.noBlock, h.notAddress, htoken,
    Bool.false_eq_true, if_false, Option.filter_none, Option.map_none]
  rfl

theorem exists_tokenSuggestion (e : TokenEntry) :
    ∃ first, tokenSuggestion (rowToToken e) = some first := by
  have haddress : (rowToToken e).address = blobAddr e.1 := by
    rw [rowToToken]
  have hascii : ∀ c ∈ (blobAddr e.1).toList, c.utf8Size = 1 := fun c hc =>
    Utf8.utf8Size_of_ascii (ascii_blobAddr e.1 c hc)
  obtain ⟨short, hshort⟩ := exists_truncateHash hascii 8 6
  rw [tokenSuggestion, haddress, hshort]
  exact ⟨_, rfl⟩

theorem isSome_tokenSuggestions (ch : Choices) (db : Database) (q : String) (limit : UInt32) :
    ((searchTokens ch db q limit).mapM tokenSuggestion).isSome := by
  refine Fallible.isSome_mapM_iff.mpr fun token htoken => ?_
  unfold searchTokens at htoken
  cases hterm : searchTerm q with
  | none =>
    rw [hterm] at htoken
    exact absurd htoken List.not_mem_nil
  | some term =>
    rw [hterm] at htoken
    obtain ⟨e, -, rfl⟩ := List.mem_map.mp htoken
    exact Option.isSome_iff_exists.mpr (exists_tokenSuggestion e)

theorem NameShaped.searchSuggest_eq {ch : Choices} {db : Database} {q : String}
    (h : NameShaped db q) (addressed more : List Suggestion)
    {token : TokenMetadata} (hfirst : (searchTokens ch db q suggestionLimit).head? = some token) :
    ∃ first rest, searchSuggest ch db q addressed more = some (first :: rest) ∧
      tokenSuggestion token = some first := by
  have hblock : ((queriedNumber q.toList).bind fun n => (db.blocks.lookup n).map fun row =>
      (⟨"block", "/block/" ++ toString n, "Block #" ++ toString n,
        toString row.txCount ++ " transactions"⟩ : Suggestion)) = none := by
    refine Option.bind_eq_none_iff.mpr fun n hn => ?_
    rw [h.noHeight n hn]
    rfl
  obtain ⟨tokens, htokens⟩ := Option.isSome_iff_exists.mp
    (isSome_tokenSuggestions ch db q suggestionLimit)
  obtain ⟨others, hothers⟩ : ∃ others, searchTokens ch db q suggestionLimit = token :: others :=
    List.head?_eq_some_iff.mp hfirst
  have hall := Fallible.forall₂_of_mapM htokens
  rw [hothers] at hall
  obtain ⟨first, rest, hshown, -, rfl⟩ := List.forall₂_cons_left_iff.mp hall
  have htake : (first :: rest ++ more).take suggestionLimit.toNat = first :: (rest ++ more).take 7 :=
    List.take_succ_cons
  refine ⟨first, (rest ++ more).take 7, ?_, hshown⟩
  unfold searchSuggest
  simp only [hblock, h.notAddress, h.notHash, Bool.false_eq_true, if_false, htokens, Option.map_some,
    Option.toList_none, List.nil_append, htake]

theorem address_of_destination {e e' : TokenEntry}
    (h : tokenDestination (rowToToken e) = tokenDestination (rowToToken e')) : e.1 = e'.1 := by
  simp only [tokenDestination, rowToToken, Destination.mk.injEq] at h
  exact blobAddr_injective h.2.1

/-- **Enter lands where the suggestions said, unless an exact name ranks low.** For a query that
only a name can answer, and that some token matches, the token Enter leads to is the first one
suggested just when the token the exact query prefers, if any, leads the ranking. -/
theorem resolveSearch_agrees_iff (ch : Choices) (db : Database) {q : String}
    {addressed more : List Suggestion} (hname : NameShaped db q)
    (hfound : searchTokens ch db q suggestionLimit ≠ []) :
    Agrees ch db q addressed more ↔ ExactLeads ch db q := by
  obtain ⟨exact, anywhere, pre, hterm⟩ : ∃ exact anywhere pre,
      searchTerm q = some (exact, anywhere, pre) :=
    ⟨_, _, _, if_neg (not_lt.mpr hname.long)⟩
  have hsuggested := Database.head?_searchTokens ch db hterm
    (show 0 < suggestionLimit.toNat by decide)
  have hone := Database.head?_searchTokens ch db hterm (show 0 < (1 : UInt32).toNat by decide)
  -- The first token suggested.
  obtain ⟨token, htoken⟩ : ∃ token, (searchTokens ch db q suggestionLimit).head? = some token :=
    Option.ne_none_iff_exists'.mp fun hnone => hfound (List.head?_eq_none_iff.mp hnone)
  obtain ⟨m, hm, rfl⟩ := Option.map_eq_some_iff.mp (hsuggested.symm.trans htoken)
  rw [hm, Option.map_some] at hone
  obtain ⟨first, rest, hbox, hshown⟩ := hname.searchSuggest_eq addressed more htoken
  have hpage := hname.resolveSearch_eq ch
  rw [hone, Option.map_some, Database.getTokenBySymbolOrName_eq] at hpage
  have hagrees : Agrees ch db q addressed more ↔
      resolveSearch ch db q = some (tokenDestination (rowToToken m)) := by
    constructor
    · rintro ⟨token, -, -, hfirst, hresolved, -⟩
      rwa [← Option.some.inj (htoken.symm.trans hfirst)] at hresolved
    · exact fun hresolved => ⟨_, first, rest, htoken, hresolved, hbox, hshown⟩
  rw [hagrees]
  cases hbest : (exactRows ch db q).argmax exactRank with
  | none =>
    -- No token is called exactly so.
    have hnone := List.argmax_eq_none.mp hbest
    rw [hbest] at hpage
    refine iff_of_true hpage fun _ _ _ _ e he => ?_
    rw [hnone] at he
    exact absurd he List.not_mem_nil
  | some b =>
    rw [hbest] at hpage
    have hresolved : resolveSearch ch db q = some (tokenDestination (rowToToken b)) := hpage
    have hbmem : b ∈ exactRows ch db q := List.argmax_mem hbest
    have hbmatch := Database.mem_matching_of_exact hterm hbmem
    have hbentry := (Database.mem_exactRows.mp hbmem).1
    have hmentry := (Database.mem_matching.mp (List.argmax_mem hm)).1
    have hsame : resolveSearch ch db q = some (tokenDestination (rowToToken m)) ↔ b = m := by
      rw [hresolved, Option.some.injEq]
      constructor
      · exact fun heq => Database.entry_eq hbentry hmentry (address_of_destination heq)
      · exact fun heq => by rw [heq]
    rw [hsame]
    constructor
    · rintro rfl exact' anywhere' pre' hterm' e he hmax
      obtain ⟨rfl, rfl, rfl⟩ : exact = exact' ∧ anywhere = anywhere' ∧ pre = pre' := by
        have h := Option.some.inj (hterm.symm.trans hterm')
        exact ⟨congrArg Prod.fst h, congrArg (fun t => t.2.1) h, congrArg (fun t => t.2.2) h⟩
      -- The exact query prefers one token only.
      have heb : e = b := by
        refine Database.eq_of_exactRank (Database.mem_exactRows.mp he).1 hbentry ?_
        exact le_antisymm (List.le_of_mem_argmax he hbest) (hmax b hbmem)
      obtain ⟨-, hle, hfirst⟩ := List.argmax_eq_some_iff.mp hm
      intro e' he'
      rw [heb]
      exact ⟨hle e' he', hfirst e' he'⟩
    · intro hleads
      have hb := hleads exact anywhere pre hterm b hbmem fun e' he' =>
        List.le_of_mem_argmax he' hbest
      have hargmax : (matching ch db anywhere).argmax (suggestRank exact pre) = some b :=
        List.argmax_eq_some_iff.mpr ⟨hbmatch, fun e' he' => (hb e' he').1,
          fun e' he' => (hb e' he').2⟩
      exact Option.some.inj (hargmax.symm.trans hm)

end Keccak

/-! ## A symbol and a name -/

section Sample

attribute [local instance] Keccak.sponge

/-- A token called `USD` by its symbol, with one holder. -/
def symbolToken : TokenEntry :=
  ⟨List.replicate 20 1, ⟨"US Dollar", "USD", 6, "USD", "0", "", 1⟩⟩

/-- A token called `usd` by its name, with five. -/
def nameToken : TokenEntry := ⟨List.replicate 20 2, ⟨"usd", "X", 6, "USD", "0", "", 5⟩⟩

def withToken (db : Database) (e : TokenEntry) : Database :=
  { db with tokenMetadata := db.tokenMetadata.insert e.1 e.2 }

def oneToken : Database := withToken .fresh symbolToken

def twoTokens : Database := withToken oneToken nameToken

theorem nameShaped_usd {db : Database} (hblocks : db.blocks = ∅) (htx : db.transactions = ∅)
    (htokens : db.tokenMetadata.lookup (hexBlob "usd") = none) : NameShaped db "usd" where
  long := by decide
  notNumber := by decide
  notHash := by decide
  notAddress := by decide
  noTransaction := by
    rw [htx]
    rfl
  noHeight n _ := by
    rw [hblocks]
    rfl
  noBlock e he := by
    rw [hblocks] at he
    exact absurd he List.not_mem_nil
  noToken := htokens

/-- A token whose name only starts so, with nine holders. -/
def laterToken : TokenEntry := ⟨List.replicate 20 3, ⟨"USD later", "Y", 6, "USD", "0", "", 9⟩⟩

def tieredTokens : Database := withToken oneToken laterToken

/-- Two tokens match, and the one called so by its symbol leads, though the other has more holders. -/
theorem resolveSearch_agrees_symbol : Agrees Choices.plain tieredTokens "usd" [] [] := by
  have hname : NameShaped tieredTokens "usd" := nameShaped_usd rfl rfl (by decide)
  have hfound : searchTokens Choices.plain tieredTokens "usd" suggestionLimit ≠ [] := by
    decide +kernel
  refine (resolveSearch_agrees_iff Choices.plain tieredTokens hname hfound).mpr ?_
  intro exact anywhere pre hterm e he _ e' he'
  have hpatterns : searchTerm "usd" = some ("usd".toList, "%usd%".toList, "usd%".toList) := by decide
  obtain ⟨rfl, rfl, rfl⟩ : exact = "usd".toList ∧ anywhere = "%usd%".toList ∧ pre = "usd%".toList := by
    have h := Option.some.inj (hterm.symm.trans hpatterns)
    exact ⟨congrArg Prod.fst h, congrArg (fun t => t.2.1) h, congrArg (fun t => t.2.2) h⟩
  have hexact : exactRows Choices.plain tieredTokens "usd" = [symbolToken] := by decide
  have hmatching :
      matching Choices.plain tieredTokens "%usd%".toList = [laterToken, symbolToken] := by
    decide +kernel
  have hbehind : suggestRank "usd".toList "usd%".toList laterToken <
      suggestRank "usd".toList "usd%".toList symbolToken := by decide +kernel
  rw [hexact, List.mem_singleton] at he
  rw [hmatching, List.mem_cons, List.mem_singleton] at he'
  rw [he]
  rcases he' with rfl | rfl
  · exact ⟨hbehind.le, fun hle => absurd hle (not_le.mpr hbehind)⟩
  · exact ⟨le_rfl, fun _ => le_rfl⟩

/-- **A name that leads elsewhere**: the box lists the symbol first, and Enter follows the holders
to the name. -/
theorem resolveSearch_elsewhere : ¬∀ (ch : Choices) (db : Database) (q : String)
    (addressed more : List Suggestion), NameShaped db q →
      searchTokens ch db q suggestionLimit ≠ [] → Agrees ch db q addressed more := by
  intro h
  have hname : NameShaped twoTokens "usd" := nameShaped_usd rfl rfl (by decide)
  obtain ⟨token, -, -, hfirst, hresolved, -⟩ :=
    h Choices.plain twoTokens "usd" [] [] hname (by decide)
  have hterm : searchTerm "usd" = some ("usd".toList, "%usd%".toList, "usd%".toList) := by decide
  rw [Database.head?_searchTokens Choices.plain twoTokens hterm
    (show 0 < suggestionLimit.toNat by decide)] at hfirst
  have hranked : (matching Choices.plain twoTokens "%usd%".toList).argmax
      (suggestRank "usd".toList "usd%".toList) = some symbolToken := by decide
  have hexact : (exactRows Choices.plain twoTokens "usd").argmax exactRank = some nameToken := by
    decide
  rw [hranked] at hfirst
  rw [hname.resolveSearch_eq, Database.getTokenBySymbolOrName_eq, hexact,
    ← Option.some.inj hfirst] at hresolved
  have haddress : nameToken.1 = symbolToken.1 :=
    address_of_destination (Option.some.inj hresolved)
  exact absurd haddress (by decide)

end Sample

end ChainExplorer
