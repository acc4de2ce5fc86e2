import ChainExplorer.Db.Writer
import ChainExplorer.Tokens

/-!
# The genesis pass

No transfer carries what genesis gave a holder. The pass walks the stored transfers a page at a
time, asks the node for the balance at block 0 of every holder that has none stored, and stores the
answers and its cursor in one transaction (`db.rs`, `indexer.rs`). Blocks are written meanwhile.

* `holdersPast`, `holdersWithoutGenesisBalance`: a page.
* `genesisPass`: the pass beside the writer, with failures and crashes at any point.
* **`Served`**, the invariant: every holder in a transfer the cursor has passed has its row.
* **`genesisPass_correct`**: what holds in every state reached.
-/

namespace ChainExplorer

open Ledger (balanceOf Holds)

/-- The zero address as stored. -/
def zeroBlob : Bytes := List.replicate 20 0

namespace Database

/-! ## A page of holders -/

/-- The cursor the pass stored last. -/
def genesisCursorValue (db : Database) : ℤ :=
  ((db.getKv genesisCursor).bind fun v =>
    Numeral.signed 10 (-9223372036854775808) maxId v.toList).getD 0

section Keccak

variable [Keccak]

/-- One side of a transfer: a holder without a row, seen for the first time on this page. -/
def addHolder (db : Database) (token side : Bytes) (holders : List Holder) : List Holder :=
  if (token, side) ∈ db.genesisBalances then holders
  else
    let holder := (blobAddr token, blobAddr side)
    if holder.2 ≠ zeroAddress ∧ holder ∉ holders then holders ++ [holder] else holders

/-- `LIMIT`: a negative one is none. -/
def limited {α : Type} (limit : ℤ) (rows : List α) : List α :=
  if limit < 0 then rows else rows.take limit.toNat

/-- The page past a cursor: the id of its last transfer and its holders without a row; `none` when
there is no transfer past the cursor. -/
def holdersPast (db : Database) (cursor limit : ℤ) : Option (ℤ × List Holder) :=
  let page := limited limit (db.transferEvents.after cursor)
  let last := (page.getLast?.map Entry.id).getD cursor
  let holders := page.foldl (fun holders e =>
    db.addHolder e.row.tokenAddr e.row.toAddr
      (db.addHolder e.row.tokenAddr e.row.fromAddr holders)) []
  if last ≠ cursor then some (last, holders) else none

/-- The holders in the next `limit` transfers past the cursor that have no genesis balance yet, and
the id the cursor moves to; `none` once caught up. -/
def holdersWithoutGenesisBalance (db : Database) (limit : ℤ) : Option (ℤ × List Holder) :=
  db.holdersPast db.genesisCursorValue limit

end Keccak

end Database

/-! ## The pass beside the writer -/

/-- Where the pass is. The cursor and the page are read under separate locks. -/
inductive GenesisPc
  | idle
  | cursorRead (cursor : ℤ)
  | pageRead (cursor : ℤ) (holders : List Database.Holder)
  | answered (cursor : ℤ) (rows : List (Database.Holder × String))

structure GenesisState where
  db : Database
  pc : GenesisPc

inductive GenesisAction
  /-- The writer's transaction. -/
  | saveBlockBundles (ch : ℕ → Choices) (bundles : List BlockBundle) (fails : Bool)
  | readCursor
  | readPage (limit : ℤ)
  /-- The node is asked for the balances of the page, and answers as it likes. -/
  | ask (node : Node)
  | save (ch : Choices) (fails : Bool)
  | crash

section Keccak

variable [Keccak]

/-- A step of the pass, or of the writer beside it. A page holds at least one transfer. -/
def GenesisState.exec [Lowercase] (s : GenesisState) : GenesisAction → Option GenesisState
  | .saveBlockBundles ch bundles fails =>
    some { s with db := s.db.attempt (.saveBlockBundles ch bundles) fails }
  | .readCursor =>
    match s.pc with
    | .idle => some { s with pc := .cursorRead s.db.genesisCursorValue }
    | _ => none
  | .readPage limit =>
    match s.pc with
    | .cursorRead cursor =>
      if 1 ≤ limit then
        match s.db.holdersPast cursor limit with
        | some (last, holders) => some { s with pc := .pageRead last holders }
        | none => some { s with pc := .idle }
      else none
    | _ => none
  | .ask node =>
    match s.pc with
    | .pageRead cursor holders =>
      match (balancesAtGenesis holders node []).1 with
      | .ok balances => some { s with pc := .answered cursor (holders.zip balances) }
      | .error _ => some { s with pc := .idle }
    | _ => none
  | .save ch fails =>
    match s.pc with
    | .answered cursor rows =>
      some ⟨s.db.attempt (.saveGenesisBalances ch rows cursor) fails, .idle⟩
    | _ => none
  | .crash => some { s with pc := .idle }

/-- **The genesis pass beside the writer**, from an empty database. -/
def genesisPass [Lowercase] : System GenesisState GenesisAction where
  init s := s = ⟨.fresh, .idle⟩
  exec := GenesisState.exec

/-! ## Pages -/

theorem blobAddr_ne_zeroAddress {bytes : Bytes} (h : bytes ≠ zeroBlob) :
    blobAddr bytes ≠ zeroAddress := by
  have hzero : blobAddr zeroBlob = zeroAddress := by
    have hdigits : (Hex.encode zeroBlob).all (fun c => !c.isAlpha) = true := by decide
    have hplain : ∀ c ∈ Hex.encode zeroBlob, c.isAlpha = false := by
      intro c hc
      simpa using List.all_eq_true.mp hdigits c hc
    rw [blobAddr_of_digits hplain]
    decide
  rw [← hzero]
  exact fun heq => h (blobAddr_injective heq)

theorem holderKey_blobAddr (k : HolderKey) : holderKey (blobAddr k.1, blobAddr k.2) = k := by
  simp [holderKey, hexBlob_blobAddr]

/-- The two sides of a transfer. -/
def TransferRow.parties (r : TransferRow) : List Bytes := [r.fromAddr, r.toAddr]

/-- **Every holder in a transfer up to the cursor is served**: it has its row, or is about to. -/
def Served (db : Database) (pending : List HolderKey) (cursor : ℤ) : Prop :=
  ∀ e ∈ db.transferEvents.entries, e.id ≤ cursor → ∀ party ∈ e.row.parties, party ≠ zeroBlob →
    (e.row.tokenAddr, party) ∈ db.genesisBalances ∨ (e.row.tokenAddr, party) ∈ pending

namespace Database

theorem subset_addHolder (db : Database) (token side : Bytes) (holders : List Holder) :
    holders ⊆ db.addHolder token side holders := by
  unfold addHolder
  split_ifs
  · exact List.Subset.refl _
  · simp only
    split_ifs
    · exact List.subset_append_left _ _
    · exact List.Subset.refl _

theorem mem_addHolder (db : Database) {token side : Bytes} (h : side ≠ zeroBlob)
    (holders : List Holder) : (token, side) ∈ db.genesisBalances ∨
      (blobAddr token, blobAddr side) ∈ db.addHolder token side holders := by
  unfold addHolder
  by_cases hrow : (token, side) ∈ db.genesisBalances
  · exact .inl hrow
  · refine .inr ?_
    have hne := blobAddr_ne_zeroAddress h
    rw [if_neg hrow]
    by_cases hseen : (blobAddr token, blobAddr side) ∈ holders
    · simp [hseen]
    · simp [hseen, hne]

/-- The holders of a page. -/
def pageHolders (db : Database) (page : List (Entry LogKey TransferRow)) (holders : List Holder) :
    List Holder :=
  page.foldl (fun holders e => db.addHolder e.row.tokenAddr e.row.toAddr
    (db.addHolder e.row.tokenAddr e.row.fromAddr holders)) holders

theorem mem_pageHolders (db : Database) (page : List (Entry LogKey TransferRow)) :
    ∀ holders : List Holder, holders ⊆ db.pageHolders page holders ∧
      ∀ e ∈ page, ∀ party ∈ e.row.parties, party ≠ zeroBlob →
        (e.row.tokenAddr, party) ∈ db.genesisBalances ∨
          (blobAddr e.row.tokenAddr, blobAddr party) ∈ db.pageHolders page holders := by
  induction page with
  | nil => exact fun holders => ⟨List.Subset.refl _, by simp⟩
  | cons e page ih =>
    intro holders
    let first := db.addHolder e.row.tokenAddr e.row.fromAddr holders
    let second := db.addHolder e.row.tokenAddr e.row.toAddr first
    obtain ⟨hsub, hcovered⟩ := ih second
    have hfirst : first ⊆ second := db.subset_addHolder _ _ _
    have hsecond : second ⊆ db.pageHolders (e :: page) holders := hsub
    have hbefore : holders ⊆ first := db.subset_addHolder _ _ _
    have hholders := List.Subset.trans (List.Subset.trans hbefore hfirst) hsecond
    refine ⟨hholders, fun e' he' party hparty hne => ?_⟩
    rcases List.mem_cons.mp he' with rfl | he'
    · rcases List.mem_cons.mp hparty with rfl | hparty
      · exact (db.mem_addHolder hne holders).imp_right fun h => hsecond (hfirst h)
      · rw [List.mem_singleton.mp hparty] at hne ⊢
        exact (db.mem_addHolder hne first).imp_right fun h => hsecond h
    · exact hcovered e' he' party hparty hne

/-- **A page that was read**: its last id is past the cursor, and every holder in a transfer up to
it is served, on the page or before. -/
theorem holdersPast_some {db : Database} {cursor limit last : ℤ} {holders : List Holder}
    (h : db.holdersPast cursor limit = some (last, holders)) (hlimit : 1 ≤ limit)
    (hserved : Served db [] cursor) :
    cursor ≤ last ∧ last ≤ db.transferEvents.seq ∧ Served db (holders.map holderKey) last := by
  have hpos : ¬limit < 0 := by omega
  have htake : limited limit (db.transferEvents.after cursor) =
      (db.transferEvents.after cursor).take limit.toNat := if_neg hpos
  unfold holdersPast at h
  simp only [htake] at h
  split_ifs at h with hne
  obtain ⟨hlast, hholders⟩ := Prod.mk.inj (Option.some.inj h)
  cases hget : ((db.transferEvents.after cursor).take limit.toNat).getLast? with
  | none =>
    rw [hget] at hne
    exact absurd rfl hne
  | some e =>
    rw [hget] at hlast
    have hmem : e ∈ (db.transferEvents.after cursor).take limit.toNat :=
      List.mem_of_getLast? hget
    obtain ⟨hentry, hpast⟩ := SeqTable.mem_after.mp (List.mem_of_mem_take hmem)
    have hid : e.id = last := hlast
    refine ⟨by omega, hid ▸ (db.transferEvents.bounds e hentry).2, ?_⟩
    intro e' he' hle party hparty hzero
    by_cases hold : e'.id ≤ cursor
    · rcases hserved e' he' hold party hparty hzero with hrow | hnil
      · exact .inl hrow
      · exact absurd hnil List.not_mem_nil
    · have hafter : e' ∈ db.transferEvents.after cursor :=
        SeqTable.mem_after.mpr ⟨he', by omega⟩
      have hsorted : (db.transferEvents.after cursor).Pairwise fun a b => a.id < b.id :=
        db.transferEvents.ids.filter _
      have hpage := SeqTable.mem_take_of_le hsorted hafter hmem (hid ▸ hle)
      refine ((db.mem_pageHolders _ []).2 e' hpage party hparty hzero).imp_right fun hin => ?_
      have hkey := List.mem_map_of_mem (f := holderKey) hin
      rw [holderKey_blobAddr (e'.row.tokenAddr, party)] at hkey
      rw [← hholders]
      exact hkey

theorem holdersPast_none {db : Database} {cursor limit : ℤ}
    (h : db.holdersPast cursor limit = none) (hlimit : 1 ≤ limit) :
    ∀ e ∈ db.transferEvents.entries, e.id ≤ cursor := by
  intro e he
  by_contra hlt
  have hafter : e ∈ db.transferEvents.after cursor := SeqTable.mem_after.mpr ⟨he, by omega⟩
  have hpos : ¬limit < 0 := by omega
  have htake : limited limit (db.transferEvents.after cursor) =
      (db.transferEvents.after cursor).take limit.toNat := if_neg hpos
  unfold holdersPast at h
  simp only [htake] at h
  split_ifs at h with hne
  cases hget : ((db.transferEvents.after cursor).take limit.toNat).getLast? with
  | none =>
    have hnil : (db.transferEvents.after cursor).take limit.toNat = [] :=
      List.getLast?_eq_none_iff.mp hget
    cases hl : db.transferEvents.after cursor with
    | nil =>
      rw [hl] at hafter
      exact absurd hafter List.not_mem_nil
    | cons a l =>
      have hnat : limit.toNat = (limit.toNat - 1) + 1 := by omega
      rw [hl, hnat] at hnil
      exact absurd hnil (List.cons_ne_nil _ _)
  | some a =>
    have hmem : a ∈ (db.transferEvents.after cursor).take limit.toNat :=
      List.mem_of_getLast? hget
    have hpast := (SeqTable.mem_after.mp (List.mem_of_mem_take hmem)).2
    rw [hget] at hne
    simp only [Option.map_some, Option.getD_some, ne_eq, Decidable.not_not] at hne
    omega

end Database

/-! ## The invariant -/

/-- What the pass is about to store serves everyone up to its new cursor. -/
def GenesisPc.Ready (db : Database) : GenesisPc → Prop
  | .idle => True
  | .cursorRead cursor => cursor = db.genesisCursorValue
  | .pageRead cursor holders =>
    db.genesisCursorValue ≤ cursor ∧ cursor ≤ db.transferEvents.seq ∧
      Served db (holders.map holderKey) cursor
  | .answered cursor rows =>
    db.genesisCursorValue ≤ cursor ∧ cursor ≤ db.transferEvents.seq ∧
      Served db (rows.map fun row => holderKey row.1) cursor

/-- **The invariant**: the stored cursor is behind the sequence and everyone up to it is served. -/
structure GenesisState.Inv (s : GenesisState) : Prop where
  consistent : s.db.Consistent
  cursor_nonneg : 0 ≤ s.db.genesisCursorValue
  cursor_le : s.db.genesisCursorValue ≤ s.db.transferEvents.seq
  served : Served s.db [] s.db.genesisCursorValue
  ready : s.pc.Ready s.db

end Keccak

theorem Served.grown {db db' : Database} {pending : List HolderKey} {cursor : ℤ}
    (h : Served db pending cursor) (hg : Database.Grown db db')
    (hle : cursor ≤ db.transferEvents.seq) : Served db' pending cursor := by
  intro e he hid party hparty hzero
  rw [hg.genesis]
  rcases hg.transfers e he with hmem | hlt
  · exact h e hmem hid party hparty hzero
  · omega

theorem genesisCursorValue_grown {db db' : Database} (hg : Database.Grown db db') :
    db'.genesisCursorValue = db.genesisCursorValue := by
  unfold Database.genesisCursorValue Database.getKv
  rw [hg.kv]

theorem GenesisState.Inv.grown {s : GenesisState} (h : s.Inv) {db' : Database}
    (hc : db'.Consistent) (hg : Database.Grown s.db db') : GenesisState.Inv ⟨db', s.pc⟩ := by
  have hcursor := genesisCursorValue_grown hg
  have hready := h.ready
  refine ⟨hc, ?_, ?_, ?_, ?_⟩
  · rw [hcursor]
    exact h.cursor_nonneg
  · rw [hcursor]
    exact h.cursor_le.trans hg.seq_le
  · rw [hcursor]
    exact h.served.grown hg h.cursor_le
  · cases hpc : s.pc with
    | idle => trivial
    | cursorRead cursor =>
      rw [hpc] at hready
      exact hready.trans hcursor.symm
    | pageRead cursor holders =>
      rw [hpc] at hready
      obtain ⟨hlo, hhi, hserved⟩ := hready
      exact ⟨hcursor ▸ hlo, hhi.trans hg.seq_le, hserved.grown hg hhi⟩
    | answered cursor rows =>
      rw [hpc] at hready
      obtain ⟨hlo, hhi, hserved⟩ := hready
      exact ⟨hcursor ▸ hlo, hhi.trans hg.seq_le, hserved.grown hg hhi⟩

theorem GenesisState.Inv.saved {s : GenesisState} (h : s.Inv) {cursor : ℤ}
    {rows : List (Database.Holder × String)} (hpc : s.pc = .answered cursor rows) (ch : Choices) :
    GenesisState.Inv ⟨s.db.saveGenesisBalances ch rows cursor, .idle⟩ ∧
      s.db.genesisCursorValue ≤ (s.db.saveGenesisBalances ch rows cursor).genesisCursorValue := by
  have hready := h.ready
  rw [hpc] at hready
  obtain ⟨hlo, hhi, hserved⟩ := hready
  obtain ⟨d, hs⟩ := Database.saveGenesisBalances_saved h.consistent.balanced ch rows cursor
  have hnonneg : 0 ≤ cursor := h.cursor_nonneg.trans hlo
  have hcursor : (s.db.saveGenesisBalances ch rows cursor).genesisCursorValue = cursor := by
    have hkv : (s.db.saveGenesisBalances ch rows cursor).getKv Database.genesisCursor =
        some (toString cursor) := by
      rw [hs.frame]
      exact AList.lookup_insert _
    unfold Database.genesisCursorValue
    rw [hkv, Option.bind_some, Numeral.signed_toString (by omega)
      (hhi.trans s.db.transferEvents.seq_le), Option.getD_some]
  have hevents : (s.db.saveGenesisBalances ch rows cursor).transferEvents = s.db.transferEvents := by
    rw [hs.frame]
  have hgenesis : (s.db.saveGenesisBalances ch rows cursor).genesisBalances =
      rows.foldl Database.putGenesis s.db.genesisBalances := by
    rw [hs.frame]
  refine ⟨⟨Database.saveGenesisBalances_consistent ch h.consistent rows cursor, ?_, ?_, ?_,
    trivial⟩, ?_⟩
  · rw [hcursor]
    exact hnonneg
  · simp only [hcursor, hevents]
    exact hhi
  · simp only [hcursor]
    intro e he hid party hparty hzero
    simp only [hevents] at he
    simp only [hgenesis, Database.mem_foldl_putGenesis]
    exact .inl (hserved e he hid party hparty hzero)
  · rw [hcursor]
    exact hlo

section Keccak

variable [Keccak] [Lowercase]

theorem GenesisState.Inv.step {s s' : GenesisState} (h : s.Inv) {a : GenesisAction}
    (hexec : s.exec a = some s') :
    s'.Inv ∧ s.db.genesisCursorValue ≤ s'.db.genesisCursorValue := by
  cases a with
  | saveBlockBundles ch bundles fails =>
    obtain rfl := Option.some.inj hexec
    have hc := Database.attempt_consistent h.consistent (.saveBlockBundles ch bundles) fails
    have hg : Database.Grown s.db (s.db.attempt (.saveBlockBundles ch bundles) fails) := by
      unfold Database.attempt
      split_ifs
      · exact .refl _
      simp only [Database.call]
      cases hsave : s.db.saveBlockBundles ch bundles with
      | error e => exact .refl _
      | ok db' => exact Database.saveBlockBundles_grown h.consistent hsave
    exact ⟨h.grown hc hg, (genesisCursorValue_grown hg).ge⟩
  | readCursor =>
    cases hpc : s.pc with
    | idle =>
      simp only [GenesisState.exec, hpc] at hexec
      obtain rfl := Option.some.inj hexec
      exact ⟨⟨h.consistent, h.cursor_nonneg, h.cursor_le, h.served, rfl⟩, le_rfl⟩
    | cursorRead | pageRead | answered => simp [GenesisState.exec, hpc] at hexec
  | readPage limit =>
    cases hpc : s.pc with
    | cursorRead cursor =>
      have hready := h.ready
      rw [hpc] at hready
      obtain rfl : cursor = s.db.genesisCursorValue := hready
      simp only [GenesisState.exec, hpc] at hexec
      split_ifs at hexec with hlimit
      cases hpage : s.db.holdersPast s.db.genesisCursorValue limit with
      | none =>
        rw [hpage] at hexec
        obtain rfl := Option.some.inj hexec
        exact ⟨⟨h.consistent, h.cursor_nonneg, h.cursor_le, h.served, trivial⟩, le_rfl⟩
      | some page =>
        rw [hpage] at hexec
        obtain rfl := Option.some.inj hexec
        have hread := Database.holdersPast_some hpage hlimit h.served
        exact ⟨⟨h.consistent, h.cursor_nonneg, h.cursor_le, h.served, hread⟩, le_rfl⟩
    | idle | pageRead | answered => simp [GenesisState.exec, hpc] at hexec
  | ask node =>
    cases hpc : s.pc with
    | pageRead cursor holders =>
      have hready := h.ready
      rw [hpc] at hready
      simp only [GenesisState.exec, hpc] at hexec
      cases hask : balancesAtGenesis holders node [] with
      | mk result after =>
        rw [hask] at hexec
        cases result with
        | error e =>
          obtain rfl := Option.some.inj hexec
          exact ⟨⟨h.consistent, h.cursor_nonneg, h.cursor_le, h.served, trivial⟩, le_rfl⟩
        | ok balances =>
          obtain rfl := Option.some.inj hexec
          have hlength := length_balancesAtGenesis hask
          have hrows : (holders.zip balances).map (fun row => holderKey row.1) =
              holders.map holderKey := by
            have hfst : (holders.zip balances).map Prod.fst = holders :=
              List.map_fst_zip hlength.ge
            conv_rhs => rw [← hfst, List.map_map]
            rfl
          refine ⟨⟨h.consistent, h.cursor_nonneg, h.cursor_le, h.served, ?_⟩, le_rfl⟩
          obtain ⟨hlo, hhi, hserved⟩ := hready
          exact ⟨hlo, hhi, by rw [hrows]; exact hserved⟩
    | idle | cursorRead | answered => simp [GenesisState.exec, hpc] at hexec
  | save ch fails =>
    cases hpc : s.pc with
    | answered cursor rows =>
      simp only [GenesisState.exec, hpc] at hexec
      obtain rfl := Option.some.inj hexec
      cases fails with
      | true =>
        exact ⟨⟨h.consistent, h.cursor_nonneg, h.cursor_le, h.served, trivial⟩, le_rfl⟩
      | false => exact h.saved hpc ch
    | idle | cursorRead | pageRead => simp [GenesisState.exec, hpc] at hexec
  | crash =>
    obtain rfl := Option.some.inj hexec
    exact ⟨⟨h.consistent, h.cursor_nonneg, h.cursor_le, h.served, trivial⟩, le_rfl⟩

theorem GenesisState.inv_of_reachable {s : GenesisState} (h : genesisPass.Reachable s) : s.Inv := by
  refine h.invariant ?_ fun s a s' hs _ hexec => (hs.step hexec).1
  rintro s rfl
  have hcursor : Database.fresh.genesisCursorValue = 0 := by decide
  refine ⟨Database.fresh_consistent, hcursor.ge, hcursor.le, ?_, trivial⟩
  intro e he
  exact absurd he List.not_mem_nil

/-! ## The pass -/

/-- A holder has exactly one genesis row for the token. -/
def Database.HasOneGenesisRow (db : Database) (token holder : Bytes) : Prop :=
  db.genesisBalances.count (fun k _ => decide (k = (token, holder))) = 1

omit [Keccak] [Lowercase] in
theorem hasOneGenesisRow_of_served {db : Database} {cursor : ℤ} (h : Served db [] cursor)
    {e : Entry LogKey TransferRow} (he : e ∈ db.transferEvents.entries) (hid : e.id ≤ cursor)
    {party : Bytes} (hparty : party ∈ e.row.parties) (hzero : party ≠ zeroBlob) :
    db.HasOneGenesisRow e.row.tokenAddr party := by
  rw [Database.HasOneGenesisRow, Keyed.count_key]
  rcases h e he hid party hparty hzero with hrow | hnil
  · rw [if_pos hrow]
  · exact absurd hnil List.not_mem_nil

/-- **The genesis pass.** In every state reached:
the stored cursor does not decrease in any next step;
every holder in a transfer the cursor has passed has exactly one genesis row;
every balance is what came in, less what went out, plus its genesis value once;
and wherever no page is left to read, every holder of every stored transfer has its row. -/
theorem genesisPass_correct {s : GenesisState} (h : genesisPass.Reachable s) :
    (∀ a s', genesisPass.exec s a = some s' →
      s.db.genesisCursorValue ≤ s'.db.genesisCursorValue) ∧
    (∀ e ∈ s.db.transferEvents.entries, e.id ≤ s.db.genesisCursorValue →
      ∀ party ∈ e.row.parties, party ≠ zeroBlob →
        s.db.HasOneGenesisRow e.row.tokenAddr party) ∧
    (∀ token holder, s.db.tokenBalances.lookup (token, holder) =
      Ledger.rowOf (s.db.ledger token holder)) ∧
    (∀ limit, 1 ≤ limit → s.db.holdersWithoutGenesisBalance limit = none →
      ∀ e ∈ s.db.transferEvents.entries, ∀ party ∈ e.row.parties, party ≠ zeroBlob →
        s.db.HasOneGenesisRow e.row.tokenAddr party) ∧
    ∀ cursor limit, s.pc = .cursorRead cursor → 1 ≤ limit → s.db.holdersPast cursor limit = none →
      ∀ e ∈ s.db.transferEvents.entries, ∀ party ∈ e.row.parties, party ≠ zeroBlob →
        s.db.HasOneGenesisRow e.row.tokenAddr party := by
  have hinv := GenesisState.inv_of_reachable h
  refine ⟨fun a s' hexec => (hinv.step hexec).2, ?_, ?_, ?_, ?_⟩
  · intro e he hid party hparty hzero
    exact hasOneGenesisRow_of_served hinv.served he hid hparty hzero
  · intro token holder
    exact hinv.consistent.balanced (token, holder)
  · intro limit hlimit hnone e he party hparty hzero
    have hid := Database.holdersPast_none hnone hlimit e he
    exact hasOneGenesisRow_of_served hinv.served he hid hparty hzero
  · intro cursor limit hpc hlimit hnone e he party hparty hzero
    have hready := hinv.ready
    rw [hpc] at hready
    obtain rfl : cursor = s.db.genesisCursorValue := hready
    have hid := Database.holdersPast_none hnone hlimit e he
    exact hasOneGenesisRow_of_served hinv.served he hid hparty hzero

end Keccak

/-! ## A pass over the mint -/

section Sample

attribute [local instance] Keccak.sponge Lowercase.plain

/-- A node that answers every call with five. -/
def fiveNode : Node := fun _ _ =>
  .body (.obj [("result",
    .str "0x0000000000000000000000000000000000000000000000000000000000000005")])

/-- A failed ask, then a whole pass. -/
def samplePass : List GenesisAction :=
  [.saveBlockBundles (fun _ => .plain) [Database.mintBundle] false, .readCursor, .readPage 1000,
    .ask fun _ _ => .failed, .readCursor, .readPage 1000, .ask fiveNode, .save .plain false]

/-- The state after it. -/
def passed : GenesisState :=
  (genesisPass.run ⟨.fresh, .idle⟩ samplePass).getD ⟨.fresh, .idle⟩

theorem run_samplePass : genesisPass.run ⟨.fresh, .idle⟩ samplePass = some passed := by
  have hsome : (genesisPass.run ⟨.fresh, .idle⟩ samplePass).isSome = true := by decide +kernel
  obtain ⟨s, hs⟩ := Option.isSome_iff_exists.mp hsome
  rw [passed, hs, Option.getD_some]

theorem passed_shows :
    passed.db.transferEvents.entries = [⟨1, (1, 0), transferRow Database.mint⟩] ∧
      passed.db.holdersWithoutGenesisBalance 1000 = none ∧
      passed.db.ledger (hexBlob Database.sampleToken) (hexBlob Database.sampleHolder) = 10 := by
  decide +kernel

theorem genesisPass_correct_passed :
    passed.db.HasOneGenesisRow (hexBlob Database.sampleToken) (hexBlob Database.sampleHolder) ∧
      passed.db.tokenBalances.lookup
        (hexBlob Database.sampleToken, hexBlob Database.sampleHolder) = Ledger.rowOf 10 := by
  have hreach : genesisPass.Reachable passed := System.Reachable.run (.start rfl) run_samplePass
  obtain ⟨hentries, hnone, hledger⟩ := passed_shows
  have hmem : (⟨1, (1, 0), transferRow Database.mint⟩ : Entry LogKey TransferRow) ∈
      passed.db.transferEvents.entries := by
    rw [hentries]
    exact List.mem_singleton.mpr rfl
  obtain ⟨-, -, hbalance, hcaught, -⟩ := genesisPass_correct hreach
  have hparty : hexBlob Database.sampleHolder ∈ (transferRow Database.mint).parties := by decide
  have hzero : hexBlob Database.sampleHolder ≠ zeroBlob := by decide
  refine ⟨hcaught 1000 (by decide) hnone _ hmem _ hparty hzero, ?_⟩
  rw [hbalance, hledger]

end Sample

end ChainExplorer
