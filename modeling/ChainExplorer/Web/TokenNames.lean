import ChainExplorer.Lib.Chunked
import ChainExplorer.Web.Labels
import ChainExplorer.Web.Summary

/-!
# The tokens a page names

What is known of every token a page mentions, read at once rather than one by one: a hundred a
query, put into a table by checksummed address, and from there into one by lowercase address, which
is looked up however a log spells it (`web.rs`, `db.rs`).

* `Database.getTokensMetadata`, `Pages.tokenMetas`, `tokenDisplayMap`: the three of them.
* `exists_blobAddr`: a spelling that is an address is one of stored bytes.
* **`token_displays_agree`**: what the tables say is what the single lookup says.
-/

namespace ChainExplorer

open Chunked Text

/-! ## Reading them at once -/

section Keccak

variable [Keccak]

/-- **Many tokens at once**, a hundred a query, each query in any order. -/
def Database.getTokensMetadata (ch : Choices) (db : Database) (addresses : List String) :
    Keyed String TokenMetadata :=
  (chunks 100 addresses).foldl (fun out chunk =>
    ((ch.order (db.tokenMetadata.entries.filter fun e => e.1 ∈ chunk.map hexBlob)).map
      Database.rowToToken).foldl (fun out row => out.insert row.address row) out) ∅

/-- What is asked for: every address among the texts, once, in its one spelling. -/
def wantedTokens (addresses : List String) : List String :=
  sortedDedup ((addresses.map checksumAddress).filter fun a => isValidAddress a.toList)

/-- **The metadata of every token** among some texts, however they are spelled. -/
def Pages.tokenMetas (ch : Choices) (db : Database) (addresses : List String) :
    Keyed String TokenMetadata :=
  db.getTokensMetadata ch (wantedTokens addresses)

end Keccak

/-- What is shown of a token. -/
def TokenMetadata.display (token : TokenMetadata) : TokenDisplay :=
  ⟨token.symbol, token.decimals⟩

/-- **Symbol and decimals by lowercase address**, from a table that is met in any order. -/
def tokenDisplayMap [Lowercase] (ch : Choices) (metas : Keyed String TokenMetadata) :
    TokenDisplays :=
  (ch.order metas.entries).foldl (fun out e =>
    out.insert (Lowercase.toLowercase e.1) e.2.display) ∅

/-! ## Addresses -/

section Addresses

theorem exists_decode {s : List Char} (hlength : s.length % 2 = 0)
    (hdigits : ∀ c ∈ s, (Hex.nibble? c).isSome = true) : ∃ bytes, Hex.decode s = some bytes := by
  induction s using Hex.decode.induct with
  | case1 => exact ⟨[], rfl⟩
  | case2 a => simp at hlength
  | case3 a b rest ih =>
    obtain ⟨hi, hhi⟩ := Option.isSome_iff_exists.mp (hdigits a (by simp))
    obtain ⟨lo, hlo⟩ := Option.isSome_iff_exists.mp (hdigits b (by simp))
    have heven : rest.length % 2 = 0 := by
      simp only [List.length_cons] at hlength
      omega
    obtain ⟨tail, htail⟩ := ih heven fun c hc => hdigits c (by simp [hc])
    exact ⟨UInt8.ofNat (16 * hi + lo) :: tail, by simp [Hex.decode, hhi, hlo, htail]⟩

variable [Keccak]

/-- **A spelling that is an address** is how some bytes are shown. -/
theorem exists_blobAddr {addr : String}
    (h : isValidAddress (checksumAddress addr).toList = true) :
    ∃ bytes, checksumAddress addr = blobAddr bytes := by
  by_cases hform : isValidAddress (without0x (toAsciiLower (trim addr.toList)))
  · obtain ⟨digits, hspelled⟩ : ∃ digits, (checksumAddress addr).toList = '0' :: 'x' :: digits := by
      unfold checksumAddress
      simp only [if_pos hform, String.toList_ofList]
      exact ⟨_, rfl⟩
    have hshape := h
    rw [hspelled, isValidAddress, without0x_cons, Bool.and_eq_true, beq_iff_eq,
      List.all_eq_true] at hshape
    obtain ⟨bytes, hbytes⟩ := exists_decode (by rw [hshape.1]) hshape.2
    -- Both spell the same digits.
    have hlower : toAsciiLower (checksumAddress addr).toList =
        toAsciiLower (blobHex bytes).toList := by
      have hencode := toAsciiLower_of_decode hbytes
      rw [hspelled, blobHex, String.toList_ofList, toAsciiLower, toAsciiLower, List.map_cons,
        List.map_cons, List.map_cons, List.map_cons, ← toAsciiLower, ← toAsciiLower, hencode,
        toAsciiLower_encode]
    have hsame := checksumAddress_of_toAsciiLower hlower
    rw [checksumAddress_checksumAddress] at hsame
    exact ⟨bytes, hsame h⟩
  · have hsame : checksumAddress addr = String.ofList (trim addr.toList) := by
      unfold checksumAddress
      simp only [if_neg hform]
    rw [hsame, String.toList_ofList] at h
    exact absurd (isValidAddress_lower h) hform

theorem toLowercase_blobAddr [Lowercase] (bytes : Bytes) :
    Lowercase.toLowercase (blobAddr bytes) = blobHex bytes := by
  rw [Lowercase.ascii _ (ascii_blobAddr bytes), toAsciiLower_blobAddr, String.ofList_toList]

theorem checksumAddress_inj_lower [Lowercase] {a b : String}
    (ha : isValidAddress (checksumAddress a).toList = true)
    (hb : isValidAddress (checksumAddress b).toList = true)
    (h : Lowercase.toLowercase (checksumAddress a) = Lowercase.toLowercase (checksumAddress b)) :
    checksumAddress a = checksumAddress b := by
  obtain ⟨x, hx⟩ := exists_blobAddr ha
  obtain ⟨y, hy⟩ := exists_blobAddr hb
  rw [hx, hy, toLowercase_blobAddr, toLowercase_blobAddr] at h
  rw [hx, hy, ← hexBlob_blobHex x, h, hexBlob_blobHex]

end Addresses

/-! ## What the tables say -/

section Tables

variable [Keccak]

theorem mem_wantedTokens {addresses : List String} {key : String} :
    key ∈ wantedTokens addresses ↔
      (∃ a ∈ addresses, checksumAddress a = key) ∧ isValidAddress key.toList = true := by
  rw [wantedTokens, mem_sortedDedup, List.mem_filter, List.mem_map]

/-- The queries, one after another, fill the table from their rows. -/
theorem getTokensMetadata_eq (ch : Choices) (db : Database) (addresses : List String) :
    db.getTokensMetadata ch addresses =
      ((chunks 100 addresses).flatMap fun chunk => (ch.order (db.tokenMetadata.entries.filter
        fun e => e.1 ∈ chunk.map hexBlob)).map Database.rowToToken).foldl
          (fun out row => out.insert row.address row) ∅ := by
  rw [Database.getTokensMetadata, List.foldl_flatMap]

theorem mem_rows (ch : Choices) (db : Database) (addresses : List String) (row : TokenMetadata) :
    row ∈ (chunks 100 addresses).flatMap (fun chunk => (ch.order (db.tokenMetadata.entries.filter
        fun e => e.1 ∈ chunk.map hexBlob)).map Database.rowToToken) ↔
      ∃ a ∈ addresses, db.getTokenMetadata a = some row := by
  have hrow : ∀ chunk : List String, row ∈ (ch.order (db.tokenMetadata.entries.filter
      fun e => e.1 ∈ chunk.map hexBlob)).map Database.rowToToken ↔
        ∃ a ∈ chunk, db.getTokenMetadata a = some row := by
    intro chunk
    rw [List.mem_map]
    constructor
    · rintro ⟨e, he, rfl⟩
      obtain ⟨hmem, hasked⟩ := List.mem_filter.mp ((ch.perm _).mem_iff.mp he)
      obtain ⟨a, ha, hkey⟩ := List.mem_map.mp (of_decide_eq_true hasked)
      refine ⟨a, ha, ?_⟩
      have hlookup : db.tokenMetadata.lookup e.1 = some e.2 := Keyed.mem_entries_iff.mp hmem
      rw [Database.getTokenMetadata, hkey, hlookup]
      rfl
    · rintro ⟨a, ha, hget⟩
      obtain ⟨stored, hlookup, hrow⟩ := Option.map_eq_some_iff.mp hget
      have hasked : (⟨hexBlob a, stored⟩ : Database.TokenEntry) ∈
          db.tokenMetadata.entries.filter fun e => e.1 ∈ chunk.map hexBlob := by
        rw [List.mem_filter, decide_eq_true_iff]
        exact ⟨Keyed.mem_entries_iff.mpr hlookup, List.mem_map_of_mem ha⟩
      exact ⟨⟨hexBlob a, stored⟩, (ch.perm _).mem_iff.mpr hasked, hrow⟩
  simp only [List.mem_flatMap, hrow]
  constructor
  · rintro ⟨chunk, hchunk, a, ha, hget⟩
    refine ⟨a, ?_, hget⟩
    rw [← flatten_chunks 100 addresses]
    exact List.mem_flatten.mpr ⟨chunk, hchunk, ha⟩
  · rintro ⟨a, ha, hget⟩
    rw [← flatten_chunks 100 addresses] at ha
    obtain ⟨chunk, hchunk, ha⟩ := List.mem_flatten.mp ha
    exact ⟨chunk, hchunk, a, ha, hget⟩

theorem address_of_getTokenMetadata {db : Database} {bytes : Bytes} {row : TokenMetadata}
    (h : db.getTokenMetadata (blobAddr bytes) = some row) : row.address = blobAddr bytes := by
  rw [Database.getTokenMetadata, hexBlob_blobAddr] at h
  obtain ⟨stored, -, hrow⟩ := Option.map_eq_some_iff.mp h
  rw [← hrow, Database.rowToToken]

theorem lookup_tokenMetas (ch : Choices) (db : Database) (addresses : List String) (key : String)
    (row : TokenMetadata) : (Pages.tokenMetas ch db addresses).lookup key = some row ↔
      key ∈ wantedTokens addresses ∧ db.getTokenMetadata key = some row := by
  have haddress : ∀ a ∈ wantedTokens addresses, ∀ row, db.getTokenMetadata a = some row →
      row.address = a := by
    intro a ha row hget
    obtain ⟨⟨text, -, hkey⟩, hvalid⟩ := mem_wantedTokens.mp ha
    rw [← hkey] at hvalid
    obtain ⟨bytes, hbytes⟩ := exists_blobAddr hvalid
    rw [← hkey, hbytes] at hget ⊢
    exact address_of_getTokenMetadata hget
  rw [Pages.tokenMetas, getTokensMetadata_eq, lookup_foldl_insert]
  · simp only [mem_rows]
    constructor
    · rintro ⟨row, ⟨a, ha, hget⟩, rfl, rfl⟩
      rw [haddress a ha row hget]
      exact ⟨ha, hget⟩
    · rintro ⟨hkey, hget⟩
      exact ⟨row, ⟨key, hkey, hget⟩, haddress key hkey row hget, rfl⟩
  · -- Rows of one address are one row.
    intro r hr r' hr' heq
    obtain ⟨a, ha, hget⟩ := (mem_rows ch db _ r).mp hr
    obtain ⟨b, hb, hget'⟩ := (mem_rows ch db _ r').mp hr'
    rw [haddress a ha r hget, haddress b hb r' hget'] at heq
    subst heq
    exact Option.some.inj (hget.symm.trans hget')

variable [Lowercase]

omit [Keccak] in
/-- **The table by lowercase address** has what the other one has, where no two of its addresses
have one lowercase. -/
theorem lookup_tokenDisplayMap (ch : Choices) {metas : Keyed String TokenMetadata}
    (hlower : ∀ key row key' row', metas.lookup key = some row → metas.lookup key' = some row' →
      Lowercase.toLowercase key = Lowercase.toLowercase key' → key = key')
    (spelling : String) (display : TokenDisplay) :
    (tokenDisplayMap ch metas).lookup spelling = some display ↔
      ∃ key row, metas.lookup key = some row ∧ Lowercase.toLowercase key = spelling ∧
        row.display = display := by
  have hentries : ∀ e : Σ _ : String, TokenMetadata, e ∈ ch.order metas.entries ↔
      metas.lookup e.1 = some e.2 :=
    fun e => (ch.perm _).mem_iff.trans Keyed.mem_entries_iff
  rw [tokenDisplayMap, lookup_foldl_insert]
  · constructor
    · rintro ⟨e, he, hkey, hdisplay⟩
      exact ⟨e.1, e.2, (hentries e).mp he, hkey, hdisplay⟩
    · rintro ⟨key, row, hrow, hkey, hdisplay⟩
      exact ⟨⟨key, row⟩, (hentries ⟨key, row⟩).mpr hrow, hkey, hdisplay⟩
  · intro e he e' he' heq
    have hrow := (hentries e).mp he
    have hrow' := (hentries e').mp he'
    rw [hlower e.1 e.2 e'.1 e'.2 hrow hrow' heq, hrow'] at hrow
    rw [Option.some.inj hrow]

/-- **What is shown of a token is what is stored of it.** Whatever texts a page mentions, however
many and however spelled, in whatever order the queries and the tables are met: the table by address
holds exactly the addresses among them that are known, each with the row of the single lookup; and
a log's own spelling of an address finds a token exactly when the page mentions that address and the
single lookup knows it, and then its symbol and decimals. -/
theorem token_displays_agree (ch ch' : Choices) (db : Database) (mentioned : List String) :
    (∀ key row, (Pages.tokenMetas ch db mentioned).lookup key = some row ↔
        (∃ a ∈ mentioned, checksumAddress a = key) ∧ isValidAddress key.toList = true ∧
          db.getTokenMetadata key = some row) ∧
      ∀ spelling display,
        tokenDisplay (tokenDisplayMap ch' (Pages.tokenMetas ch db mentioned)) spelling =
            some display ↔
          ∃ a ∈ mentioned, isValidAddress (checksumAddress a).toList = true ∧
            Lowercase.toLowercase (checksumAddress a) = Lowercase.toLowercase spelling ∧
            (db.getTokenMetadata (checksumAddress a)).map TokenMetadata.display = some display := by
  have hmetas : ∀ key row, (Pages.tokenMetas ch db mentioned).lookup key = some row ↔
      (∃ a ∈ mentioned, checksumAddress a = key) ∧ isValidAddress key.toList = true ∧
        db.getTokenMetadata key = some row := by
    intro key row
    rw [lookup_tokenMetas, mem_wantedTokens, and_assoc]
  refine ⟨hmetas, fun spelling display => ?_⟩
  rw [tokenDisplay, lookup_tokenDisplayMap]
  · constructor
    · rintro ⟨key, row, hrow, hkey, hdisplay⟩
      obtain ⟨⟨a, ha, hspelled⟩, hvalid, hget⟩ := (hmetas key row).mp hrow
      refine ⟨a, ha, ?_⟩
      rw [hspelled, hget, Option.map_some, hdisplay]
      exact ⟨hvalid, hkey, rfl⟩
    · rintro ⟨a, ha, hvalid, hkey, hdisplay⟩
      obtain ⟨row, hget, hrow⟩ := Option.map_eq_some_iff.mp hdisplay
      exact ⟨checksumAddress a, row, (hmetas _ row).mpr ⟨⟨a, ha, rfl⟩, hvalid, hget⟩, hkey, hrow⟩
  · intro key row key' row' hrow hrow' heq
    obtain ⟨⟨a, -, hspelled⟩, hvalid, -⟩ := (hmetas key row).mp hrow
    obtain ⟨⟨b, -, hspelled'⟩, hvalid', -⟩ := (hmetas key' row').mp hrow'
    rw [← hspelled] at hvalid heq ⊢
    rw [← hspelled'] at hvalid' heq ⊢
    exact checksumAddress_inj_lower hvalid hvalid' heq

end Tables

end ChainExplorer
