import ChainExplorer.Db.Search
import ChainExplorer.Db.Supply
import ChainExplorer.Web.Amounts
import ChainExplorer.Web.Listing

/-!
# Who holds what

The holders on a token's page and the holdings on an address's page (`web.rs`, `db.rs`), read off one
table from both of its sides.

* `getAddressHoldings`, `getTokenHolderCount`, `tokenHoldersPage`: the queries, and the rows shown.
* **`holdings_agree`**: an address holds a token on the one page exactly where it is listed on the
  other, with the same balance, and the token counts as many holders as are listed.
* **`tokenHoldersPage_ranked`**: ranks go on from page to page, and a share is the exact percentage,
  cut to four places.
-/

namespace ChainExplorer

open Paging Fraction

/-- What an address holds of one token. -/
structure TokenHolding where
  token : String
  name : String
  symbol : String
  decimals : ℤ
  formatted : String
  balance : String
deriving DecidableEq, Repr

/-- One row of a token's holders. -/
structure HolderRow where
  rank : ℤ
  address : String
  formatted : String
  balance : String
  share : String
deriving DecidableEq, Repr

namespace Database

section Keccak

variable [Keccak]

/-! ## What is listed -/

/-- **What an address holds**, of the tokens that are known. -/
def getAddressHoldings (ch : Choices) (db : Database) (address : String) : List TokenHolding :=
  let rows := db.tokenBalances.entries.filter fun e =>
    e.1.2 = hexBlob address && Ledger.holding e.2
  ch.order (rows.filterMap fun e => (db.tokenMetadata.lookup e.1.1).map fun m =>
    { token := blobAddr e.1.1, name := m.name, symbol := m.symbol, decimals := m.decimals,
      formatted := formatTokenAmount e.2 m.decimals, balance := e.2 })

omit [Keccak] in
def getTokenHolderCount (db : Database) (tokenAddr : String) : ℕ :=
  db.countHolders (hexBlob tokenAddr)

/-! ## The two sides of a balance -/

/-- One row of the join. -/
def holdingOf (db : Database) (token holder : Bytes) (m : TokenRow) : TokenHolding where
  token := blobAddr token
  name := m.name
  symbol := m.symbol
  decimals := m.decimals
  formatted := formatTokenAmount (toString (db.ledger token holder)) m.decimals
  balance := toString (db.ledger token holder)

theorem holdingOf_token (db : Database) (token holder : Bytes) (m : TokenRow) :
    (db.holdingOf token holder m).token = blobAddr token := by
  rw [holdingOf]

theorem holdingOf_balance (db : Database) (token holder : Bytes) (m : TokenRow) :
    (db.holdingOf token holder m).balance = toString (db.ledger token holder) := by
  rw [holdingOf]

omit [Keccak] in
theorem lookup_holding {db : Database} (h : db.Balanced) {k : HolderKey} {balance : String} :
    (db.tokenBalances.lookup k = some balance ∧ Ledger.holding balance = true) ↔
      0 < db.ledger k.1 k.2 ∧ balance = toString (db.ledger k.1 k.2) := by
  rw [h k, Ledger.rowOf]
  by_cases hzero : db.ledger k.1 k.2 = 0
  · simp [hzero]
  · rw [if_neg hzero]
    constructor
    · rintro ⟨hrow, hholding⟩
      obtain rfl := Option.some.inj hrow
      rw [Ledger.holding_toString hzero, decide_eq_true_eq] at hholding
      exact ⟨hholding, rfl⟩
    · rintro ⟨hpos, rfl⟩
      rw [Ledger.holding_toString hzero, decide_eq_true_eq]
      exact ⟨rfl, hpos⟩

theorem mem_getAddressHoldings {ch : Choices} {db : Database} (h : db.Balanced) {address : String}
    {x : TokenHolding} : x ∈ getAddressHoldings ch db address ↔
      ∃ token m, db.tokenMetadata.lookup token = some m ∧ 0 < db.ledger token (hexBlob address) ∧
        x = db.holdingOf token (hexBlob address) m := by
  simp only [getAddressHoldings, (ch.perm _).mem_iff, List.mem_filterMap, List.mem_filter,
    Bool.and_eq_true, decide_eq_true_eq, Option.map_eq_some_iff]
  constructor
  · rintro ⟨⟨⟨token, holder⟩, balance⟩, ⟨he, rfl, hholding⟩, m, hm, rfl⟩
    obtain ⟨hpos, rfl⟩ := (lookup_holding h).mp ⟨Keyed.mem_entries_iff.mp he, hholding⟩
    exact ⟨token, m, hm, hpos, rfl⟩
  · rintro ⟨token, m, hm, hpos, rfl⟩
    obtain ⟨hrow, hholding⟩ := (lookup_holding (k := (token, hexBlob address)) h).mpr ⟨hpos, rfl⟩
    exact ⟨⟨(token, hexBlob address), _⟩, ⟨Keyed.mem_entries_iff.mpr hrow, rfl, hholding⟩, m, hm, rfl⟩

theorem nodup_getAddressHoldings (ch : Choices) (db : Database) (address : String) :
    ((getAddressHoldings ch db address).map TokenHolding.token).Nodup := by
  set rows := db.tokenBalances.entries.filter fun e =>
    e.1.2 = hexBlob address && Ledger.holding e.2 with hrows
  have htokens : (rows.map fun e => e.1.1).Nodup := by
    refine List.Nodup.map_on (fun e he e' he' heq => ?_) ((nodup_entries _).filter _)
    have hrow := List.mem_filter.mp he
    have hrow' := List.mem_filter.mp he'
    simp only [Bool.and_eq_true, decide_eq_true_eq] at hrow hrow'
    have hkey : e.1 = e'.1 := Prod.ext heq (hrow.2.1.trans hrow'.2.1.symm)
    exact List.inj_on_of_nodup_map db.tokenBalances.nodupKeys hrow.1 hrow'.1 hkey
  have hlist : ((rows.filterMap fun e => (db.tokenMetadata.lookup e.1.1).map fun m =>
      ({ token := blobAddr e.1.1, name := m.name, symbol := m.symbol, decimals := m.decimals,
         formatted := formatTokenAmount e.2 m.decimals, balance := e.2 } : TokenHolding)).map
        TokenHolding.token) = (rows.map fun e => e.1.1).filterMap fun token =>
          (db.tokenMetadata.lookup token).map fun _ => blobAddr token := by
    rw [List.map_filterMap, List.filterMap_map]
    refine List.filterMap_congr fun e _ => ?_
    simp only [Function.comp_def, Option.map_map]
  refine ((ch.perm _).map TokenHolding.token).nodup_iff.mpr ?_
  rw [hlist]
  refine htokens.filterMap fun token token' addr haddr haddr' => ?_
  obtain ⟨_, -, rfl⟩ := Option.map_eq_some_iff.mp haddr
  obtain ⟨_, -, heq⟩ := Option.map_eq_some_iff.mp haddr'
  exact blobAddr_injective heq.symm

theorem length_tokenHolders (ch : Choices) (db : Database) (tokenAddr : String) :
    (tokenHolders ch db tokenAddr).length = getTokenHolderCount db tokenAddr := by
  simp only [tokenHolders, List.length_map, length_orderDesc, (ch.perm _).length_eq,
    getTokenHolderCount, countHolders, Keyed.count, List.countP_eq_length_filter]

/-- **The two pages agree**, in every database reached: what an address holds is a balance above zero
of a token that is known, each token once; the token is held exactly where the address is listed
among its holders, with the balance listed there; and a token counts as many holders as are listed. -/
theorem holdings_agree {db : Database} (h : writers.Reachable db) (address : String) :
    (∀ ch, ((getAddressHoldings ch db address).map TokenHolding.token).Nodup) ∧
      (∀ ch x, x ∈ getAddressHoldings ch db address ↔
        ∃ token m, db.tokenMetadata.lookup token = some m ∧
          0 < db.ledger token (hexBlob address) ∧ x = db.holdingOf token (hexBlob address) m) ∧
      (∀ ch ch' token balance, (∃ x ∈ getAddressHoldings ch db address,
          x.token = blobAddr (hexBlob token) ∧ x.balance = balance) ↔
        hexBlob token ∈ db.tokenMetadata ∧
          (blobAddr (hexBlob address), balance) ∈ tokenHolders ch' db token) ∧
      ∀ ch token, (tokenHolders ch db token).length = getTokenHolderCount db token ∧
        ∀ m, db.tokenMetadata.lookup (hexBlob token) = some m →
          m.holderCount = (tokenHolders ch db token).length := by
  have hc := consistent_of_reachable h
  have hbalanced : db.Balanced := hc.balanced
  refine ⟨fun ch => nodup_getAddressHoldings ch db address, fun ch x =>
    mem_getAddressHoldings hbalanced, fun ch ch' token balance => ?_, fun ch token => ?_⟩
  · rw [mem_tokenHolders hbalanced]
    constructor
    · rintro ⟨x, hx, htoken, hbalance⟩
      obtain ⟨T, m, hm, hpos, rfl⟩ := (mem_getAddressHoldings hbalanced).mp hx
      rw [holdingOf_token] at htoken
      rw [holdingOf_balance] at hbalance
      obtain rfl := blobAddr_injective htoken
      have hrow := ((lookup_holding (k := (hexBlob token, hexBlob address)) hbalanced).mpr
        ⟨hpos, hbalance.symm⟩).1
      exact ⟨AList.lookup_isSome.mp (Option.isSome_of_eq_some hm), hexBlob address, _, rfl, hpos,
        hbalance.symm, hrow⟩
    · rintro ⟨hmem, holder, n, hholder, hn, rfl, hlookup⟩
      obtain rfl := blobAddr_injective hholder
      obtain ⟨m, hm⟩ := Option.isSome_iff_exists.mp (AList.lookup_isSome.mpr hmem)
      have hholding : Ledger.holding (toString n) = true := by
        rw [Ledger.holding_toString hn.ne']
        exact decide_eq_true hn
      obtain ⟨hpos, hbalance⟩ := (lookup_holding hbalanced).mp ⟨hlookup, hholding⟩
      refine ⟨db.holdingOf (hexBlob token) (hexBlob address) m, (mem_getAddressHoldings hbalanced).mpr
        ⟨hexBlob token, m, hm, hpos, rfl⟩, holdingOf_token _ _ _ _, ?_⟩
      rw [holdingOf_balance, hbalance]
  · have hlength := length_tokenHolders ch db token
    refine ⟨hlength, fun m hm => ?_⟩
    rw [hlength, hc.counted (hexBlob token) m hm, getTokenHolderCount]

end Keccak

end Database

/-- `{:04}`: the zeros go after the sign. -/
def zeroPad (width : ℕ) (n : ℤ) : String :=
  let sign := if n < 0 then "-" else ""
  sign ++ String.ofList ((toString n.natAbs).toList.leftpad (width - sign.length) '0')

/-- A share of the supply: percent with four decimals, one that no 64 bits hold counting as none. -/
def shareOf (supply : ℤ) (balance : String) : String :=
  if 0 < supply then
    let scaled := (Database.bigint balance * 1000000).tdiv supply
    let scaled := if IntType.i64.Holds scaled then scaled else 0
    toString (scaled.tdiv 10000) ++ "." ++ zeroPad 4 (scaled.tmod 10000)
  else ""

/-- **One page of a token's holders**, as it is shown. -/
def tokenHoldersPage [Keccak] (ch : Choices) (db : Database) (token : String) (info : TokenMetadata)
    (page perPage : UInt32) : Arith (List HolderRow) :=
  let supply := Database.bigint info.totalSupply
  (Database.getTokenHolders ch db token page perPage).zipIdx.mapM fun row => do
    let index ← Arith.fit .i64 (pageOffset page perPage + row.2)
    let rank ← Arith.fit .i64 (index + 1)
    return {
      rank := rank
      address := row.1.1
      formatted := formatTokenAmount row.1.2 info.decimals
      balance := row.1.2
      share := shareOf supply row.1.2 }

/-! ## Shares -/

theorem shareOf_toList {supply n : ℤ} (hsupply : 0 < supply) (hn : 0 ≤ n)
    (hfits : n * 1000000 / supply < 2 ^ 63) :
    (shareOf supply (toString n)).toList =
      withPoint ((n * 1000000 / supply).toNat / 10 ^ 4)
        (scaleDigits (n * 1000000 / supply).toNat 4) := by
  have hread : Database.bigint (toString n) = n := Ledger.read_toString n
  have hscaled : 0 ≤ n * 1000000 / supply := Int.ediv_nonneg (by omega) hsupply.le
  have hdiv : (n * 1000000).tdiv supply = n * 1000000 / supply :=
    Int.tdiv_eq_ediv_of_nonneg (by omega)
  obtain ⟨k, hk⟩ := Int.eq_ofNat_of_zero_le hscaled
  have hholds : IntType.i64.Holds (k : ℤ) := IntType.holds_i64.mpr ⟨by omega, by omega⟩
  rw [shareOf, if_pos hsupply, hread, hdiv, hk]
  simp only [if_pos hholds]
  have hwhole : ((k : ℤ)).tdiv 10000 = ((k / 10 ^ 4 : ℕ) : ℤ) := by
    rw [Int.tdiv_eq_ediv_of_nonneg (by omega)]
    norm_num
  have hrest : ((k : ℤ)).tmod 10000 = ((k % 10 ^ 4 : ℕ) : ℤ) := by
    rw [Int.tmod_eq_emod_of_nonneg (by omega)]
    norm_num
  have hpad : (zeroPad 4 ((k % 10 ^ 4 : ℕ) : ℤ)).toList = scaleDigits k 4 := by
    have hsign : ¬((k % 10 ^ 4 : ℕ) : ℤ) < 0 := by omega
    simp only [zeroPad, if_neg hsign, Int.natAbs_natCast, scaleDigits, String.toList_append,
      String.toList_ofList]
    rfl
  have hne : scaleDigits k 4 ≠ [] := by
    rw [scaleDigits, List.leftpad]
    intro hnil
    have hlast := (List.append_eq_nil_iff.mp hnil).2
    obtain ⟨c, cs, hc, -⟩ := Numeral.exists_repr_cons (k % 10 ^ 4)
    exact absurd (hc.symm.trans hlast) (List.cons_ne_nil c cs)
  have hshown : (toString ((k / 10 ^ 4 : ℕ) : ℤ)).toList = (toString (k / 10 ^ 4)).toList := rfl
  rw [hwhole, hrest, withPoint, Int.toNat_natCast, if_neg hne, String.toList_append,
    String.toList_append, hshown, hpad, List.append_assoc]
  rfl

theorem decimalValue_shareOf {supply n : ℤ} (hsupply : 0 < supply) (hn : 0 ≤ n)
    (hfits : n * 1000000 / supply < 2 ^ 63) :
    decimalValue (shareOf supply (toString n)).toList = some (truncateAt 4 (100 * n / supply)) := by
  rw [shareOf_toList hsupply hn hfits, decimalValue, if_neg (head?_withPoint _ _),
    unsignedValue_withPoint _ (digits_scaleDigits _ 4), fraction_scaleDigits]
  have hscaled : 0 ≤ n * 1000000 / supply := Int.ediv_nonneg (by omega) hsupply.le
  have hnonneg : ¬(100 * n / supply : ℚ) < 0 := by
    have hn' : (0 : ℚ) ≤ n := by exact_mod_cast hn
    have hsupply' : (0 : ℚ) < supply := by exact_mod_cast hsupply
    rw [not_lt]
    positivity
  have hfloor : ⌊(100 * n / supply : ℚ) * 10 ^ 4⌋ = n * 1000000 / supply := by
    have hratio : (100 * n / supply : ℚ) * 10 ^ 4 = ((n * 1000000 : ℤ) : ℚ) / (supply : ℤ) := by
      push_cast
      ring
    rw [hratio, Int.floor_div_cast_of_nonneg hsupply.le, Int.floor_intCast]
  rw [truncateAt, if_neg hnonneg, hfloor]
  generalize n * 1000000 / supply = m at hscaled
  obtain ⟨k, rfl⟩ := Int.eq_ofNat_of_zero_le hscaled
  rw [Int.toNat_natCast]
  have hsplit : ((k / 10 ^ 4 : ℕ) : ℚ) * 10 ^ 4 + (k % 10 ^ 4 : ℕ) = k := by
    exact_mod_cast Nat.div_add_mod' k (10 ^ 4)
  rw [Int.cast_natCast, ← hsplit, add_div, mul_div_cancel_right₀ _ (by norm_num)]

theorem shareOf_of_not_fits {supply n : ℤ} (hsupply : 0 < supply) (hn : 0 ≤ n)
    (hfits : ¬n * 1000000 / supply < 2 ^ 63) : shareOf supply (toString n) = "0.0000" := by
  have hread : Database.bigint (toString n) = n := Ledger.read_toString n
  have hdiv : (n * 1000000).tdiv supply = n * 1000000 / supply :=
    Int.tdiv_eq_ediv_of_nonneg (by omega)
  have hholds : ¬IntType.i64.Holds (n * 1000000 / supply) := by
    rw [IntType.holds_i64]
    omega
  rw [shareOf, if_pos hsupply, hread, hdiv]
  simp only [if_neg hholds]
  decide

/-! ## Ranks -/

section Keccak

variable [Keccak]

open Database

/-- The holder at a place of the whole list, as it is shown. -/
def holderRow (info : TokenMetadata) (i : ℕ) (holder : String × String) : HolderRow where
  rank := i + 1
  address := holder.1
  formatted := formatTokenAmount holder.2 info.decimals
  balance := holder.2
  share := shareOf (bigint info.totalSupply) holder.2

/-- All holders, as they are shown. -/
def rankedHolders (ch : Choices) (db : Database) (token : String) (info : TokenMetadata) :
    List HolderRow :=
  (tokenHolders ch db token).mapIdx (holderRow info)

theorem tokenHoldersPage_eq (ch : Choices) (db : Database) (token : String) (info : TokenMetadata)
    {page perPage : UInt32} (hfits : (page.toNat - 1) * perPage.toNat + perPage.toNat < 2 ^ 63) :
    tokenHoldersPage ch db token info page perPage =
      ⟨pageSlice page perPage (rankedHolders ch db token info), true⟩ := by
  have hoffset : pageOffset page perPage = ((page.toNat - 1) * perPage.toNat : ℕ) :=
    pageOffset_of_fits ((Nat.le_add_right _ _).trans_lt hfits)
  have hpage : getTokenHolders ch db token page perPage =
      pageSlice page perPage (tokenHolders ch db token) := by
    rw [getTokenHolders, tokenHolders, hoffset, limitOffset_of_nonneg (Int.natCast_nonneg _),
      Int.toNat_natCast, Int.toNat_natCast, List.map_take, List.map_drop, pageSlice]
  rw [tokenHoldersPage, hpage, pageSlice, pageSlice, hoffset]
  set offset := (page.toNat - 1) * perPage.toNat
  have hrows : ((tokenHolders ch db token).drop offset |>.take perPage.toNat).zipIdx.map
      (fun row => holderRow info (offset + row.2) row.1) =
        ((rankedHolders ch db token info).drop offset).take perPage.toNat := by
    refine List.ext_getElem? fun i => ?_
    rw [List.getElem?_map, List.getElem?_zipIdx, List.getElem?_take, List.getElem?_take]
    by_cases hi : i < perPage.toNat
    · simp [hi, rankedHolders]
      rfl
    · simp [hi]
  rw [← hrows]
  refine Arith.mapM_of_inRange fun row hrow => ?_
  have hindex : row.2 < perPage.toNat := by
    have hlt := (List.mem_zipIdx hrow).2.1
    rw [Nat.zero_add] at hlt
    exact hlt.trans_le (List.length_take_le _ _)
  have hfirst : IntType.i64.Holds ((offset : ℤ) + row.2) := IntType.holds_i64.mpr (by omega)
  have hsecond : IntType.i64.Holds ((offset : ℤ) + row.2 + 1) := IntType.holds_i64.mpr (by omega)
  rw [Arith.fit_of_holds hfirst, Arith.mk_true_bind, Arith.fit_of_holds hsecond,
    Arith.mk_true_bind, Arith.pure_eq, holderRow]
  push_cast
  rfl

theorem pairwise_tokenHolders {db : Database} (h : db.Balanced) (ch : Choices) (token : String) :
    (tokenHolders ch db token).Pairwise fun p q => bigint q.2 ≤ bigint p.2 := by
  have hsorted : (tokenHolders ch db token).Pairwise fun p q =>
      balanceKey q.2 ≤ balanceKey p.2 := by
    rw [tokenHolders, List.pairwise_map]
    exact pairwise_orderDesc (fun e : Σ _ : HolderKey, String => balanceKey e.2) _
  refine hsorted.imp_of_mem fun {p q} hp hq hle => ?_
  obtain ⟨_, m, -, hm, hpm, -⟩ := (mem_tokenHolders h).mp hp
  obtain ⟨_, n, -, hn, hqn, -⟩ := (mem_tokenHolders h).mp hq
  have hread : ∀ z : ℤ, bigint (toString z) = z := Ledger.read_toString
  rw [hpm, hqn] at hle ⊢
  rw [hread, hread]
  exact le_of_balanceKey_le hn hm hle

/-- What a share says. -/
def shareValue (r : HolderRow) : ℚ := (decimalValue r.share.toList).getD 0

omit [Keccak] in
theorem truncateAt_le {k : ℕ} {q : ℚ} (hq : 0 ≤ q) : truncateAt k q ≤ q := by
  rw [truncateAt, if_neg (not_lt.mpr hq), div_le_iff₀ (by positivity)]
  exact Int.floor_le _

/-- Where the holders have no more than the supply, their shares are no more than all of it. -/
theorem sum_shareValue_le {db : Database} (h : db.Balanced) (ch : Choices) (token : String)
    (info : TokenMetadata) (hsupply : 0 < bigint info.totalSupply)
    (hheld : heldSum ch db token ≤ bigint info.totalSupply) :
    ((rankedHolders ch db token info).map shareValue).sum ≤ 100 := by
  set supply := bigint info.totalSupply with hdef
  have hsupply' : (0 : ℚ) < supply := by exact_mod_cast hsupply
  have hrows : (rankedHolders ch db token info).map shareValue =
      (tokenHolders ch db token).map fun p => (decimalValue (shareOf supply p.2).toList).getD 0 := by
    refine List.ext_getElem? fun i => ?_
    rw [rankedHolders, List.getElem?_map, List.getElem?_mapIdx, List.getElem?_map, Option.map_map]
    rfl
  have hpos : ∀ x ∈ (tokenHolders ch db token).map fun p => bigint p.2, 0 ≤ x := by
    intro x hx
    obtain ⟨p, hp, rfl⟩ := List.mem_map.mp hx
    obtain ⟨_, n, -, hn, hpn, -⟩ := (mem_tokenHolders h).mp hp
    rw [hpn, show bigint (toString n) = n from Ledger.read_toString n]
    exact hn.le
  have hone : ∀ p ∈ tokenHolders ch db token,
      (decimalValue (shareOf supply p.2).toList).getD 0 ≤ 100 / supply * (bigint p.2 : ℚ) := by
    intro p hp
    obtain ⟨_, n, -, hn, hpn, -⟩ := (mem_tokenHolders h).mp hp
    have hread : bigint (toString n) = n := Ledger.read_toString n
    have hle : n ≤ supply := by
      have hmem : bigint p.2 ∈ (tokenHolders ch db token).map fun p => bigint p.2 :=
        List.mem_map_of_mem hp
      have hsum := List.single_le_sum hpos _ hmem
      rw [hpn, hread] at hsum
      exact hsum.trans hheld
    have hfits : n * 1000000 / supply < 2 ^ 63 := by
      have hbound : n * 1000000 / supply ≤ 1000000 :=
        Int.ediv_le_of_le_mul hsupply (by nlinarith)
      omega
    have hn' : (0 : ℚ) < n := by exact_mod_cast hn
    rw [hpn, hread, decimalValue_shareOf hsupply hn.le hfits, Option.getD_some]
    refine (truncateAt_le (by positivity)).trans_eq ?_
    ring
  rw [hrows]
  refine (List.sum_le_sum hone).trans ?_
  rw [List.sum_map_mul_left]
  have hcast : ((tokenHolders ch db token).map fun p => ((bigint p.2 : ℤ) : ℚ)).sum =
      (heldSum ch db token : ℤ) := by
    rw [heldSum]
    push_cast
    rw [List.map_map]
    rfl
  have hheld' : ((heldSum ch db token : ℤ) : ℚ) ≤ supply := by exact_mod_cast hheld
  rw [hcast, div_mul_eq_mul_div, div_le_iff₀ hsupply']
  linarith

/-- **Holders are ranked**, in every database reached. Each page is a slice of one list, which has
every holder once and in order of the number, ranked from 1 on; a share is the percentage cut to four
places, so that where the holders have no more than the supply, the shares are no more than all. -/
theorem tokenHoldersPage_ranked {db : Database} (h : writers.Reachable db) (ch : Choices)
    (token : String) (info : TokenMetadata) :
    (∀ page perPage : UInt32, (page.toNat - 1) * perPage.toNat + perPage.toNat < 2 ^ 63 →
      tokenHoldersPage ch db token info page perPage =
        ⟨pageSlice page perPage (rankedHolders ch db token info), true⟩) ∧
      (rankedHolders ch db token info).map (fun r => (r.address, r.balance)) =
        tokenHolders ch db token ∧
      (∀ (i : ℕ) r, (rankedHolders ch db token info)[i]? = some r → r.rank = i + 1 ∧
        ∃ n : ℤ, 0 < n ∧ r.balance = toString n ∧
          r.formatted = formatTokenAmount (toString n) info.decimals ∧
          (¬0 < bigint info.totalSupply → r.share = "") ∧
          (0 < bigint info.totalSupply → n * 1000000 / bigint info.totalSupply < 2 ^ 63 →
            decimalValue r.share.toList = some (truncateAt 4 (100 * n / bigint info.totalSupply))) ∧
          (0 < bigint info.totalSupply → 2 ^ 63 ≤ n * 1000000 / bigint info.totalSupply →
            r.share = "0.0000")) ∧
      (rankedHolders ch db token info).Pairwise (fun r r' => bigint r'.balance ≤ bigint r.balance) ∧
      (0 < bigint info.totalSupply → heldSum ch db token ≤ bigint info.totalSupply →
        ((rankedHolders ch db token info).map shareValue).sum ≤ 100) := by
  have hbalanced : db.Balanced := (consistent_of_reachable h).balanced
  have hpairs : (rankedHolders ch db token info).map (fun r => (r.address, r.balance)) =
      tokenHolders ch db token := by
    refine List.ext_getElem? fun i => ?_
    rw [rankedHolders, List.getElem?_map, List.getElem?_mapIdx, Option.map_map]
    exact congrFun Option.map_id _
  refine ⟨fun page perPage hfits => tokenHoldersPage_eq ch db token info hfits, hpairs,
    fun i r hr => ?_, ?_, sum_shareValue_le hbalanced ch token info⟩
  · rw [rankedHolders, List.getElem?_mapIdx] at hr
    obtain ⟨⟨addr, balance⟩, hp, rfl⟩ := Option.map_eq_some_iff.mp hr
    obtain ⟨_, n, -, hn, rfl, -⟩ := (mem_tokenHolders hbalanced).mp (List.mem_of_getElem? hp)
    refine ⟨rfl, n, hn, rfl, rfl, fun hsupply => if_neg hsupply, fun hsupply hfits =>
      decimalValue_shareOf hsupply hn.le hfits, fun hsupply hfits =>
      shareOf_of_not_fits hsupply hn.le (not_lt.mpr hfits)⟩
  · have hpairwise := pairwise_tokenHolders hbalanced ch token
    rw [← hpairs, List.pairwise_map] at hpairwise
    exact hpairwise

end Keccak

/-! ## The holders of ten units and of nine -/

section Sample

attribute [local instance] Keccak.sponge

open Database

theorem holdings_agree_two :
    (tokenHolders .plain listed sampleToken).map Prod.snd = ["10", "9"] ∧
      ((getAddressHoldings .plain listed sampleHolder).map TokenHolding.token).Nodup ∧
      (tokenHolders .plain listed sampleToken).length = getTokenHolderCount listed sampleToken := by
  obtain ⟨honce, -, -, hcount⟩ := holdings_agree listed_reachable sampleHolder
  exact ⟨by decide +kernel, honce .plain, (hcount .plain sampleToken).1⟩

def sampleInfo : TokenMetadata where
  address := sampleToken
  name := "Sample"
  symbol := "SMP"
  decimals := 6
  currency := "USD"
  totalSupply := "19"
  logoUri := ""
  holderCount := 2

/-- The second page of one row. -/
theorem tokenHoldersPage_ranked_second :
    ((rankedHolders .plain listed sampleToken sampleInfo).map fun r => (r.rank, r.balance, r.share)) =
        [(1, "10", "52.6315"), (2, "9", "47.3684")] ∧
      tokenHoldersPage .plain listed sampleToken sampleInfo 2 1 =
        ⟨pageSlice 2 1 (rankedHolders .plain listed sampleToken sampleInfo), true⟩ :=
  ⟨by decide +kernel,
    (tokenHoldersPage_ranked listed_reachable .plain sampleToken sampleInfo).1 2 1 (by decide)⟩

end Sample

end ChainExplorer
