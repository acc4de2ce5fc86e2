import ChainExplorer.Lib.Escape
import ChainExplorer.Lib.Json
import ChainExplorer.Lib.Utf8
import ChainExplorer.Web.Summary

/-!
# Accounts in a sentence

The sentence on a transaction page is escaped, and the accounts it names are linked where they show
truncated (`web.rs`, with `truncate_hash` of `decoder.rs`).

* `linkAccounts`: the filter; `none` is a slice inside a character, which ends the page.
* `Linked`: a page that is the sentence with links to accounts, and nothing else.
* **`linkAccounts_linked_iff`**: the page is that just when every account can be truncated.
* `linkAccounts_cut`: one that cannot.
-/

namespace ChainExplorer

open Text Escape

/-- The characters HTML gives a meaning. -/
def special : List Char := ['&', '<', '>', '\x22', '\x27', '/']

/-- **The escaping of HTML** of the template engine. -/
class HtmlEscape where
  escapeChar : Char → List Char
  kept : ∀ c, c ∉ special → escapeChar c = [c]
  entity : ∀ c ∈ special, ∃ name, escapeChar c = '&' :: (name ++ [';']) ∧
    ∀ d ∈ name, d.isAlphanum = true ∨ d = '#'

/-- A link to an account. -/
def anchor (full short : String) : String :=
  "<a href=\"/address/" ++ full ++ "\" class=\"text-blue-400 hover:text-blue-300\">" ++ short ++
    "</a>"

/-! ## Escaped text -/

section

variable [HtmlEscape]

def escapeHtml (s : List Char) : List Char := s.flatMap HtmlEscape.escapeChar

theorem escapes : Escapes HtmlEscape.escapeChar '&' ';' := by
  intro c
  by_cases hc : c ∈ special
  · obtain ⟨name, hname, _⟩ := HtmlEscape.entity c hc
    exact .inr ⟨name, hname⟩
  · exact .inl (HtmlEscape.kept c hc)

theorem eq_of_mem_escapeChar {c d : Char} (hd : d ∈ HtmlEscape.escapeChar c)
    (hent : d ≠ '&' ∧ d ≠ ';' ∧ d ≠ '#' ∧ d.isAlphanum = false) : d = c ∧ c ∉ special := by
  by_cases hc : c ∈ special
  · obtain ⟨name, hname, hchars⟩ := HtmlEscape.entity c hc
    rw [hname] at hd
    rcases List.mem_cons.mp hd with h | hd
    · exact absurd h hent.1
    rcases List.mem_append.mp hd with hd | hd
    · rcases hchars d hd with h | h
      · rw [hent.2.2.2] at h
        exact absurd h Bool.false_ne_true
      · exact absurd h hent.2.2.1
    · exact absurd (List.mem_singleton.mp hd) hent.2.1
  · rw [HtmlEscape.kept c hc, List.mem_singleton] at hd
    exact ⟨hd, hc⟩

/-- The characters that open and close tags and attributes. -/
def markup : List Char := ['<', '>', '\x22', '\x27']

theorem not_mem_markup {s : List Char} : ∀ c ∈ escapeHtml s, c ∉ markup := by
  have hmarkup : ∀ d ∈ markup, d ∈ special ∧
      (d ≠ '&' ∧ d ≠ ';' ∧ d ≠ '#' ∧ d.isAlphanum = false) := by
    intro d hd
    simp only [markup, List.mem_cons, List.not_mem_nil, or_false] at hd
    rcases hd with rfl | rfl | rfl | rfl <;> decide
  intro d hd hbad
  obtain ⟨c, _, hdc⟩ := List.mem_flatMap.mp hd
  obtain ⟨rfl, hc⟩ := eq_of_mem_escapeChar hdc (hmarkup d hbad).2
  exact hc (hmarkup d hbad).1

end

section

variable [HtmlEscape] [Keccak]

/-- One account: what is written so far and the rest of the sentence, after its link. -/
def linkAccount (page : List Char × List Char) (account : String) :
    Option (List Char × List Char) := do
  let full := checksumAddress account
  let short ← truncate account
  match (splitOnce short.toList page.2).filter fun _ => isValidAddress full.toList with
  | none => some page
  | some (before, after) => some (page.1 ++ before ++ (anchor full short).toList, after)

/-- The accounts among the arguments. -/
def accountTexts (accounts : Option Json) : List String :=
  ((accounts.bind Json.asArray).getD []).filterMap Json.asStr

/-- **The filter.** -/
def linkAccounts (value : Json) (accounts : Option Json) : Option String :=
  let escaped := escapeHtml (value.asStr.getD "").toList
  ((accountTexts accounts).foldlM linkAccount ([], escaped)).map fun page =>
    String.ofList (page.1 ++ page.2)

/-! ## The page -/

/-- A piece of the page: some of the sentence, or a link to an account. -/
inductive Piece
  | text (chars : List Char)
  | link (account short : String)

/-- What it says of the sentence. -/
def Piece.said : Piece → List Char
  | .text chars => chars
  | .link _ short => short.toList

/-- How it is written. -/
def Piece.html : Piece → List Char
  | .text chars => escapeHtml chars
  | .link account short => (anchor (checksumAddress account) short).toList

def Piece.account? : Piece → Option String
  | .text _ => none
  | .link account _ => some account

/-- No character of a text has a meaning to HTML. -/
def Plain (s : List Char) : Prop := ∀ c ∈ s, c ∉ special ∧ c ≠ ';'

/-- A piece is what it should be: a text opens no tag and no attribute, and a link goes to a valid
address and shows its account truncated. -/
def Piece.Sound : Piece → Prop
  | .text chars => ∀ c ∈ escapeHtml chars, c ∉ markup
  | .link account short =>
    isValidAddress (checksumAddress account).toList = true ∧ truncate account = some short ∧
      Plain (checksumAddress account).toList ∧ Plain short.toList

/-- **A page is a sentence with links** to some of the accounts, in their order, and nothing else. -/
structure Linked (sentence : List Char) (accounts : List String) (html : List Char) : Prop where
  pieces : ∃ pieces : List Piece, html = pieces.flatMap Piece.html ∧
    sentence = pieces.flatMap Piece.said ∧ (pieces.filterMap Piece.account?).Sublist accounts ∧
    ∀ p ∈ pieces, p.Sound
  /-- Without its tags it is the escaped sentence. -/
  stripped : stripTags false html = escapeHtml sentence

/-- A text can be truncated: it is short, or cut between two characters at both places. -/
def Cuttable (account : String) : Prop :=
  Utf8.byteLength account.toList ≤ 11 ∨
    (∃ a b, account.toList = a ++ b ∧ Utf8.byteLength a = 6) ∧
      ∃ a b, account.toList = a ++ b ∧ Utf8.byteLength b = 4

/-! ## Truncated accounts -/

omit [HtmlEscape] [Keccak] in
/-- What has a meaning to HTML is no whitespace and no character of an address. -/
theorem plain_char {c : Char}
    (hc : isWhitespace c = true ∨ (Hex.nibble? c).isSome = true ∨ c.toLower = 'x') :
    c ∉ special ∧ c ≠ ';' := by
  by_contra hbad
  have hmem : c ∈ ';' :: special := by
    by_cases hsemi : c = ';'
    · exact hsemi ▸ List.mem_cons_self
    · refine List.mem_cons_of_mem _ (by_contra fun hspecial => hbad ⟨hspecial, hsemi⟩)
  simp only [special, List.mem_cons, List.not_mem_nil, or_false] at hmem
  revert hc
  rcases hmem with rfl | rfl | rfl | rfl | rfl | rfl | rfl <;> decide

omit [HtmlEscape] in
theorem plain_of_isValidAddress {account : String}
    (h : isValidAddress (checksumAddress account).toList = true) :
    Plain (checksumAddress account).toList ∧ Plain account.toList ∧
      40 ≤ account.toList.length := by
  have hfull : Plain (checksumAddress account).toList := by
    intro c hc
    rcases (chars_of_isValidAddress h).1 c hc with hnibble | rfl
    · exact plain_char (.inr (.inl hnibble))
    · exact plain_char (.inr (.inr rfl))
  have htrim : (∀ c ∈ trim account.toList, (Hex.nibble? c).isSome = true ∨ c.toLower = 'x') ∧
      40 ≤ (trim account.toList).length := by
    unfold checksumAddress at h
    simp only at h
    split_ifs at h with hlower
    · -- The digits are those of the lowercase text.
      obtain ⟨hchars, hlength⟩ := chars_of_isValidAddress hlower
      refine ⟨fun c hc => ?_, ?_⟩
      · rcases mem_without0x_or (List.mem_map_of_mem hc (f := Char.toLower)) with h | h | h
        · rcases hchars _ h with hnibble | hx
          · rw [nibble?_toLower] at hnibble
            exact .inl hnibble
          · exact .inr hx
        · rw [eq_of_toLower_zero h]
          exact .inl rfl
        · exact .inr h
      · have hle := length_without0x_le (toAsciiLower (trim account.toList))
        rw [toAsciiLower, List.length_map] at hle
        exact hlength.trans hle
    · rw [String.toList_ofList] at h
      refine ⟨fun c hc => ?_, (chars_of_isValidAddress h).2⟩
      rcases (chars_of_isValidAddress h).1 c hc with hnibble | rfl
      · exact .inl hnibble
      · exact .inr rfl
  refine ⟨hfull, fun c hc => ?_, htrim.2.trans (length_trim_le _)⟩
  rcases mem_trim_or hc with hin | hblank
  · exact plain_char (.inr (htrim.1 c hin))
  · exact plain_char (.inl hblank)

omit [HtmlEscape] [Keccak] in
theorem truncate_isSome_iff (account : String) : (truncate account).isSome ↔ Cuttable account := by
  have hlen : ∀ {a b : List Char}, account.toList = a ++ b →
      Utf8.byteLength account.toList = Utf8.byteLength a + Utf8.byteLength b := by
    intro a b h
    rw [h, Utf8.byteLength_append]
  unfold truncate truncateHash Cuttable
  by_cases hempty : account.isEmpty
  · have hnil : account.toList = [] := by
      rw [String.isEmpty_iff.mp hempty]
      rfl
    rw [if_pos hempty, hnil]
    exact iff_of_true rfl (.inl (Nat.zero_le _))
  rw [if_neg hempty]
  by_cases hlong : 4 + 4 + 3 < Utf8.byteLength account.toList
  · rw [if_pos hlong, or_iff_right (by omega)]
    constructor
    · intro hsome
      obtain ⟨short, hshort⟩ := Option.isSome_iff_exists.mp hsome
      obtain ⟨⟨a, b⟩, hfront, hshort⟩ := Option.bind_eq_some_iff.mp hshort
      obtain ⟨⟨a', b'⟩, hback, -⟩ := Option.bind_eq_some_iff.mp hshort
      obtain ⟨hab, ha⟩ := Utf8.splitBytes_eq_some_iff.mp hfront
      obtain ⟨hab', ha'⟩ := Utf8.splitBytes_eq_some_iff.mp hback
      have hsum := hlen hab'
      exact ⟨⟨a, b, hab, ha⟩, a', b', hab', by omega⟩
    · rintro ⟨⟨a, b, hab, ha⟩, a', b', hab', hb'⟩
      have hsum := hlen hab'
      have hfront := Utf8.splitBytes_eq_some_iff.mpr ⟨hab, ha⟩
      have hback : Utf8.splitBytes (Utf8.byteLength account.toList - 4) account.toList =
          some (a', b') :=
        Utf8.splitBytes_eq_some_iff.mpr ⟨hab', by omega⟩
      rw [hfront, hback]
      rfl
  · rw [if_neg hlong]
    exact iff_of_true rfl (.inl (by omega))

omit [HtmlEscape] [Keccak] in
theorem exists_of_truncate {account short : String} (h : truncate account = some short)
    (hlong : 11 < Utf8.byteLength account.toList) :
    ∃ front back, short.toList = front ++ '…' :: back ∧ front ⊆ account.toList ∧
      back ⊆ account.toList := by
  have hempty : ¬account.isEmpty := by
    intro hempty
    rw [String.isEmpty_iff.mp hempty] at hlong
    exact absurd hlong (Nat.not_lt_zero 11)
  unfold truncate truncateHash at h
  rw [if_neg hempty, if_pos hlong] at h
  obtain ⟨⟨a, b⟩, hfront, h⟩ := Option.bind_eq_some_iff.mp h
  obtain ⟨⟨a', b'⟩, hback, h⟩ := Option.bind_eq_some_iff.mp h
  obtain ⟨hab, -⟩ := Utf8.splitBytes_eq_some_iff.mp hfront
  obtain ⟨hab', -⟩ := Utf8.splitBytes_eq_some_iff.mp hback
  refine ⟨a, b', ?_, ?_, ?_⟩
  · obtain rfl := Option.some.inj h
    simp only [String.toList_append, String.toList_ofList, List.append_assoc]
    rfl
  · rw [hab]
    exact List.subset_append_left a b
  · rw [hab']
    exact List.subset_append_right a' b'

omit [HtmlEscape] in
theorem plain_of_truncate {account short : String} (h : truncate account = some short)
    (hvalid : isValidAddress (checksumAddress account).toList = true) :
    Plain short.toList ∧ '…' ∈ short.toList := by
  obtain ⟨-, haccount, hlength⟩ := plain_of_isValidAddress hvalid
  have hbytes := Utf8.length_le_byteLength account.toList
  obtain ⟨front, back, hshort, hfront, hback⟩ := exists_of_truncate h (by omega)
  rw [hshort]
  refine ⟨fun c hc => ?_, List.mem_append_right _ List.mem_cons_self⟩
  rcases List.mem_append.mp hc with hin | hin
  · exact haccount c (hfront hin)
  rcases List.mem_cons.mp hin with rfl | hin
  · decide
  · exact haccount c (hback hin)

/-! ## One link after the other -/

omit [Keccak] in
theorem escapeHtml_append (s t : List Char) :
    escapeHtml (s ++ t) = escapeHtml s ++ escapeHtml t := List.flatMap_append

omit [Keccak] in
theorem ellipsis_not_mem (c : Char) (hc : HtmlEscape.escapeChar c ≠ [c]) :
    '…' ∉ HtmlEscape.escapeChar c := by
  intro hmem
  obtain ⟨-, hkept⟩ := eq_of_mem_escapeChar hmem (by decide)
  exact hc (HtmlEscape.kept c hkept)

/-- **The invariant**: what is written are the pieces of the sentence so far, and the rest is the
rest of it, escaped. -/
structure Linking (sentence : List Char) (accounts : List String) (page : List Char × List Char)
    (pieces : List Piece) (rest : List Char) : Prop where
  html : page.1 = pieces.flatMap Piece.html
  ahead : page.2 = escapeHtml rest
  said : sentence = pieces.flatMap Piece.said ++ rest
  order : (pieces.filterMap Piece.account?).Sublist accounts
  sound : ∀ p ∈ pieces, p.Sound

theorem Linking.link {sentence : List Char} {accounts : List String} {account : String}
    {page page' : List Char × List Char} {pieces : List Piece} {rest : List Char}
    (h : Linking sentence accounts page pieces rest) (hlink : linkAccount page account = some page') :
    ∃ pieces' rest', Linking sentence (accounts ++ [account]) page' pieces' rest' := by
  unfold linkAccount at hlink
  obtain ⟨short, hshort, hlink⟩ := Option.bind_eq_some_iff.mp hlink
  have hskip : Linking sentence (accounts ++ [account]) page pieces rest :=
    ⟨h.html, h.ahead, h.said, h.order.trans (List.sublist_append_left _ _), h.sound⟩
  cases hfound : (splitOnce short.toList page.2).filter
      (fun _ => isValidAddress (checksumAddress account).toList) with
  | none =>
    simp only [hfound] at hlink
    obtain rfl := Option.some.inj hlink
    exact ⟨pieces, rest, hskip⟩
  | some cut =>
    obtain ⟨before, after⟩ := cut
    simp only [hfound] at hlink
    obtain rfl := Option.some.inj hlink
    obtain ⟨hsplit, hvalid⟩ := Option.filter_eq_some_iff.mp hfound
    obtain ⟨hplain, hellipsis⟩ := plain_of_truncate hshort hvalid
    have hescaped := eq_append_of_splitOnce hsplit
    rw [h.ahead] at hescaped
    obtain ⟨a, c, hrest, ha, _, hc⟩ := exists_of_escaped escapes
      (fun hmem => (hplain _ hmem).1 (by decide)) (fun hmem => (hplain _ hmem).2 rfl) hellipsis
      ellipsis_not_mem hescaped
    refine ⟨pieces ++ [.text a, .link account short], c, ?_, hc.symm, ?_, ?_, ?_⟩
    · show page.1 ++ before ++ _ = _
      rw [List.flatMap_append, ← h.html, List.append_assoc, ← ha]
      simp only [List.flatMap_cons, List.flatMap_nil, List.append_nil]
      rfl
    · rw [h.said, hrest, List.flatMap_append, List.append_assoc]
      simp only [List.flatMap_cons, List.flatMap_nil, List.append_nil, Piece.said, List.append_assoc]
    · rw [List.filterMap_append]
      exact h.order.append (List.Sublist.refl [account])
    · intro p hp
      rcases List.mem_append.mp hp with hold | hnew
      · exact h.sound p hold
      · simp only [List.mem_cons, List.not_mem_nil, or_false] at hnew
        rcases hnew with rfl | rfl
        · exact not_mem_markup
        · exact ⟨hvalid, hshort, (plain_of_isValidAddress hvalid).1, hplain⟩

theorem Linking.links {sentence : List Char} {accounts : List String}
    {page page' : List Char × List Char} {pieces : List Piece} {rest : List Char}
    (h : Linking sentence accounts page pieces rest) {more : List String}
    (hlinks : more.foldlM linkAccount page = some page') :
    ∃ pieces' rest', Linking sentence (accounts ++ more) page' pieces' rest' := by
  induction more generalizing accounts page pieces rest with
  | nil =>
    obtain rfl := Option.some.inj hlinks
    rw [List.append_nil]
    exact ⟨pieces, rest, h⟩
  | cons account more ih =>
    rw [List.foldlM_cons] at hlinks
    obtain ⟨next, hlink, hlinks⟩ := Option.bind_eq_some_iff.mp hlinks
    obtain ⟨pieces', rest', h'⟩ := h.link hlink
    have hmore := ih h' hlinks
    rwa [List.append_assoc] at hmore

/-! ## The whole sentence -/

omit [HtmlEscape] [Keccak] in
theorem anchor_toList (full short : String) : (anchor full short).toList =
    '<' :: ("a href=\"/address/".toList ++ full.toList ++
      "\" class=\"text-blue-400 hover:text-blue-300\"".toList ++
        '>' :: (short.toList ++ '<' :: ("/a".toList ++ ['>']))) := by
  have hopen : "<a href=\"/address/".toList = '<' :: "a href=\"/address/".toList := by simp
  have hmiddle : "\" class=\"text-blue-400 hover:text-blue-300\">".toList =
      "\" class=\"text-blue-400 hover:text-blue-300\"".toList ++ ['>'] := by simp
  have hclose : "</a>".toList = '<' :: ("/a".toList ++ ['>']) := by simp
  have hparts : ∀ opening full styled short closing : List Char,
      '<' :: opening ++ full ++ (styled ++ ['>']) ++ short ++ '<' :: (closing ++ ['>']) =
        '<' :: (opening ++ full ++ styled ++ '>' :: (short ++ '<' :: (closing ++ ['>']))) := by
    intros
    simp only [List.cons_append, List.append_assoc, List.nil_append]
  have hsplit : (anchor full short).toList = "<a href=\"/address/".toList ++ full.toList ++
      "\" class=\"text-blue-400 hover:text-blue-300\">".toList ++ short.toList ++
        "</a>".toList := by
    unfold anchor
    simp only [String.toList_append]
  rw [hsplit, hopen, hmiddle, hclose, hparts]

theorem Piece.stripTags_html {p : Piece} (h : p.Sound) (t : List Char) :
    stripTags false (p.html ++ t) = escapeHtml p.said ++ stripTags false t := by
  cases p with
  | text chars =>
    refine stripTags_text (fun hmem => h _ hmem ?_) t
    exact List.mem_cons_self
  | link account short =>
    obtain ⟨hvalid, hshort, hfull, hplain⟩ := h
    have hspecial : '<' ∈ special ∧ '>' ∈ special := by decide
    have hkept : escapeHtml short.toList = short.toList := by
      refine (List.flatMap_congr fun c hc => HtmlEscape.kept c (hplain c hc).1).trans ?_
      exact List.flatMap_singleton' short.toList
    have hopen : '>' ∉ "a href=\"/address/".toList ++ (checksumAddress account).toList ++
        "\" class=\"text-blue-400 hover:text-blue-300\"".toList := by
      rw [List.mem_append, List.mem_append]
      rintro ((hmem | hmem) | hmem)
      · exact absurd hmem (by simp)
      · exact (hfull _ hmem).1 hspecial.2
      · exact absurd hmem (by simp)
    have hclose : '>' ∉ "/a".toList := by simp
    show stripTags false ((anchor (checksumAddress account) short).toList ++ t) = _
    rw [anchor_toList, List.cons_append, List.append_assoc, List.cons_append,
      stripTags_tag hopen, List.append_assoc, List.cons_append, List.append_assoc,
      List.singleton_append, stripTags_text fun hmem => (hplain _ hmem).1 hspecial.1,
      stripTags_tag hclose]
    exact congrArg (· ++ stripTags false t) hkept.symm

theorem stripTags_pieces {pieces : List Piece} (h : ∀ p ∈ pieces, p.Sound) :
    stripTags false (pieces.flatMap Piece.html) = escapeHtml (pieces.flatMap Piece.said) := by
  induction pieces with
  | nil => rfl
  | cons p pieces ih =>
    rw [List.flatMap_cons, List.flatMap_cons, Piece.stripTags_html (h p List.mem_cons_self),
      escapeHtml_append, ih fun q hq => h q (List.mem_cons_of_mem p hq)]

theorem linked_of_linkAccounts {value : Json} {accounts : Option Json} {html : String}
    (h : linkAccounts value accounts = some html) :
    Linked (value.asStr.getD "").toList (accountTexts accounts) html.toList := by
  obtain ⟨page, hlinks, rfl⟩ := Option.map_eq_some_iff.mp h
  have hstart : Linking (value.asStr.getD "").toList []
      ([], escapeHtml (value.asStr.getD "").toList) [] (value.asStr.getD "").toList :=
    ⟨rfl, rfl, rfl, List.Sublist.refl [], nofun⟩
  obtain ⟨pieces, rest, hpage⟩ := hstart.links hlinks
  have hsound : ∀ p ∈ pieces ++ [Piece.text rest], p.Sound := by
    intro p hp
    rcases List.mem_append.mp hp with hold | hnew
    · exact hpage.sound p hold
    · rw [List.mem_singleton.mp hnew]
      exact not_mem_markup
  have hhtml : page.1 ++ page.2 = (pieces ++ [Piece.text rest]).flatMap Piece.html := by
    rw [List.flatMap_append, ← hpage.html, hpage.ahead, List.flatMap_singleton]
    rfl
  have hsaid : (value.asStr.getD "").toList = (pieces ++ [Piece.text rest]).flatMap Piece.said := by
    rw [List.flatMap_append, hpage.said, List.flatMap_singleton]
    rfl
  rw [String.toList_ofList]
  refine ⟨⟨_, hhtml, hsaid, ?_, hsound⟩, ?_⟩
  · rw [List.filterMap_append]
    exact (List.append_nil _).symm ▸ hpage.order
  · rw [hhtml, hsaid]
    exact stripTags_pieces hsound

omit [HtmlEscape] in
theorem foldlM_linkAccount_isSome_iff (accounts : List String) (page : List Char × List Char) :
    (accounts.foldlM linkAccount page).isSome ↔ ∀ account ∈ accounts, Cuttable account := by
  induction accounts generalizing page with
  | nil => simp
  | cons account accounts ih =>
    have hone : (linkAccount page account).isSome ↔ Cuttable account := by
      rw [← truncate_isSome_iff, linkAccount]
      cases truncate account with
      | none => exact Iff.rfl
      | some short =>
        simp only [Option.bind_eq_bind, Option.bind_some, Option.isSome_some, iff_true]
        split <;> rfl
    rw [List.foldlM_cons, List.forall_mem_cons, ← hone]
    cases linkAccount page account with
    | none => simp
    | some next => simpa using ih next

/-- **Linking adds only links, while no account is cut inside a character.** For any sentence and
accounts there is a page, and it is the sentence with links, just when every account that is longer
than 11 bytes has a character start after its first six bytes and before its last four. -/
theorem linkAccounts_linked_iff (value : Json) (accounts : Option Json) :
    (∃ html, linkAccounts value accounts = some html ∧
      Linked (value.asStr.getD "").toList (accountTexts accounts) html.toList) ↔
    ∀ account ∈ accountTexts accounts, Cuttable account := by
  rw [← foldlM_linkAccount_isSome_iff _ ([], escapeHtml (value.asStr.getD "").toList)]
  constructor
  · rintro ⟨html, hhtml, -⟩
    obtain ⟨page, hpage, -⟩ := Option.map_eq_some_iff.mp hhtml
    rw [hpage]
    rfl
  · intro hsome
    obtain ⟨page, hpage⟩ := Option.isSome_iff_exists.mp hsome
    have hhtml : linkAccounts value accounts = some (String.ofList (page.1 ++ page.2)) := by
      unfold linkAccounts
      simp only [hpage, Option.map_some]
    exact ⟨_, hhtml, linked_of_linkAccounts hhtml⟩

end

/-! ## A sentence with links, and one without a page -/

section Sample

/-- The escaping as the engine does it. -/
@[reducible] def HtmlEscape.tera : HtmlEscape where
  escapeChar c :=
    if c = '&' then "&amp;".toList
    else if c = '<' then "&lt;".toList
    else if c = '>' then "&gt;".toList
    else if c = '\x22' then "&quot;".toList
    else if c = '\x27' then "&#x27;".toList
    else if c = '/' then "&#x2F;".toList
    else [c]
  kept c hc := by
    simp only [special, List.mem_cons, List.not_mem_nil, or_false, not_or] at hc
    obtain ⟨h1, h2, h3, h4, h5, h6⟩ := hc
    rw [if_neg h1, if_neg h2, if_neg h3, if_neg h4, if_neg h5, if_neg h6]
  entity c hc := by
    simp only [special, List.mem_cons, List.not_mem_nil, or_false] at hc
    have hname : ∀ name : List Char, (name.all fun d => d.isAlphanum || d == '#') = true →
        ∀ d ∈ name, d.isAlphanum = true ∨ d = '#' := by
      intro name hall d hd
      simpa using List.all_eq_true.mp hall d hd
    rcases hc with rfl | rfl | rfl | rfl | rfl | rfl
    · exact ⟨"amp".toList, by decide, hname _ (by decide)⟩
    · exact ⟨"lt".toList, by decide, hname _ (by decide)⟩
    · exact ⟨"gt".toList, by decide, hname _ (by decide)⟩
    · exact ⟨"quot".toList, by decide, hname _ (by decide)⟩
    · exact ⟨"#x27".toList, by decide, hname _ (by decide)⟩
    · exact ⟨"#x2F".toList, by decide, hname _ (by decide)⟩

attribute [local instance] HtmlEscape.tera Keccak.sponge

def recipient : String := "0x2222222222222222222222222222222222222222"

/-- A sentence that shows an account twice. -/
theorem linkAccounts_linked_headline : ∃ html,
    linkAccounts (.str "<b>Move</b> 0x2222…2222 to 0x2222…2222")
      (some (.arr [.str recipient, .str recipient])) = some html ∧
    Linked "<b>Move</b> 0x2222…2222 to 0x2222…2222".toList [recipient, recipient] html.toList := by
  refine (linkAccounts_linked_iff _ _).mpr fun account haccount => ?_
  have heq : account = recipient := by
    simpa [accountTexts, Json.asArray, Json.asStr] using haccount
  rw [heq]
  refine .inr ⟨⟨"0x2222".toList, (recipient.toList).drop 6, ?_, ?_⟩,
    (recipient.toList).take 38, "2222".toList, ?_, ?_⟩ <;> decide

/-- **An account cut inside a character**: the third byte of a sign of three is the seventh of the
text, and there is no page. -/
theorem linkAccounts_cut : ¬∀ value accounts, ∃ html, linkAccounts value accounts = some html ∧
    Linked (value.asStr.getD "").toList (accountTexts accounts) html.toList := by
  intro h
  obtain ⟨html, hhtml, -⟩ := h (.str "") (some (.arr [.str "a€€€€"]))
  have hnone : truncate "a€€€€" = none := by decide
  have hpage : linkAccounts (.str "") (some (.arr [.str "a€€€€"])) = none := by
    simp only [linkAccounts, accountTexts, Option.bind_some, Json.asArray, Option.getD_some,
      List.filterMap_cons, Json.asStr, List.filterMap_nil, List.foldlM_cons, linkAccount, hnone,
      Option.bind_eq_bind, Option.bind_none, Option.map_none]
  rw [hpage] at hhtml
  exact absurd hhtml nofun

end Sample

end ChainExplorer
