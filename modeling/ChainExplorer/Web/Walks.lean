import ChainExplorer.Lib.Growing
import ChainExplorer.Lib.Walk
import ChainExplorer.Web.PageArithmetic

/-!
# Walks over the listings

What a reader of the JSON listings has read that asks for page 1 and then for the next page as long
as there is one (`web/api.rs`).

* `Walked answer full`: the links of a listing lead over all of `full`, each row once.
* **`listings_walked`**: so do those of the six listings of rows, over a database that stands still.
* `Answers`, `Moves`: one page answered, and what the writers do between two of them.
* **`transfers_walked`**: over a database that is written meanwhile, a walk of transfers that ends
  has read every one that was there when it began.
-/

namespace ChainExplorer

open Paging

/-! ## One page -/

theorem value_paged {β : Type} (walks : Bool) (items : UInt32 → List β) (query : Query) :
    (Api.paged walks items query).value = (items (pageParam query),
      if (items (pageParam query)).length = 25 then
        some (IntType.u32.wrap ((pageParam query).toNat + 1)) else none) := by
  have hper : perPage.toNat = 25 := rfl
  simp only [Api.paged, Arith.value_bind, listing, hper]
  split_ifs <;> rfl

theorem PagesExact.eq_slice {β : Type} {items : UInt32 → List β} {full : List β}
    (h : PagesExact items perPage full) (page : UInt32) :
    items page = (full.drop ((page.toNat - 1) * 25)).take 25 := by
  have hpage := page.toNat_lt
  have hper : perPage.toNat = 25 := rfl
  rw [h.slice page (by rw [hper]; omega), pageSlice, hper]

/-! ## A listing that stands still -/

/-- **A listing that is walked**: from page 1 the links lead over its pages and end, in range, and
the rows read are those of the list, each once. -/
structure Walked {β : Type} (answer : Query → Arith (List β × Option ℤ)) (full : List β) :
    Prop where
  follows : Follows (fun page => (answer (pageQuery page)).value.2) 1
    (span 1 (full.length / 25 + 1))
  rows : ((span 1 (full.length / 25 + 1)).flatMap fun page => (answer (pageQuery page)).value.1) =
    full
  once : full.Nodup
  inRange : ∀ page ∈ span 1 (full.length / 25 + 1), (answer (pageQuery page)).inRange = true

theorem span_one (k : ℕ) : span 1 k = (List.range k).map fun i => ((i + 1 : ℕ) : ℤ) := by
  have hcount : ((k : ℤ) - 1 + 1).toNat = k := by omega
  rw [span, hcount]
  refine List.map_congr_left fun i _ => ?_
  simp only [Int.ofNat_eq_natCast]
  omega

theorem PagesExact.walked {β : Type} {items : UInt32 → List β} {full : List β}
    (h : PagesExact items perPage full) (hlength : full.length < 25 * lastU32) (walks : Bool) :
    Walked (Api.paged walks items) full := by
  have hper : perPage.toNat = 25 := rfl
  have hlast : lastU32 = 4294967295 := rfl
  have hitems : ∀ page : ℤ, 1 ≤ page → page < 4294967296 →
      items (pageParam (pageQuery page)) = (full.drop ((page.toNat - 1) * 25)).take 25 := by
    intro page hpage hbound
    have hnat := pageParam_pageQuery hpage hbound
    rw [h.eq_slice, show (pageParam (pageQuery page)).toNat = page.toNat by omega]
  have hnext : ∀ page : ℤ, 1 ≤ page → page < 4294967295 →
      (Api.paged walks items (pageQuery page)).value.2 =
        if page * 25 ≤ full.length then some (page + 1) else none := by
    intro page hpage hbound
    have hnat := pageParam_pageQuery hpage (by omega)
    rw [value_paged, hitems page hpage (by omega), List.length_take, List.length_drop, hnat,
      IntType.wrap_of_holds (IntType.holds_u32.mpr (by omega))]
    by_cases hfull : page * 25 ≤ full.length
    · rw [if_pos (by omega), if_pos hfull]
    · rw [if_neg (by omega), if_neg hfull]
  have hbounds : ∀ page ∈ span 1 ((full.length : ℤ) / 25 + 1), 1 ≤ page ∧ page < 4294967296 := by
    intro page hpage
    have hmem := mem_span.mp hpage
    omega
  refine ⟨follows_span (by omega) (fun page hpage hlt => ?_) ?_, ?_, h.once, fun page hpage => ?_⟩
  · rw [hnext page hpage (by omega), if_pos (by omega)]
  · by_cases hbelow : (full.length : ℤ) / 25 + 1 < 4294967295
    · rw [hnext _ (by omega) hbelow, if_neg (by omega)]
    · rw [value_paged, hitems _ (by omega) (by omega), List.length_take, List.length_drop]
      exact if_neg (by omega)
  · have hpages : ∀ i ∈ List.range (full.length / 25 + 1),
        (Api.paged walks items (pageQuery ((i + 1 : ℕ) : ℤ))).value.1 =
          (full.drop (i * 25)).take 25 := by
      intro i hi
      have hik := List.mem_range.mp hi
      rw [value_paged, hitems _ (by omega) (by omega), Int.toNat_natCast, Nat.add_sub_cancel]
    have hspan : span 1 ((full.length : ℤ) / 25 + 1) = span 1 ((full.length / 25 + 1 : ℕ) : ℤ) := by
      congr 1
    rw [hspan, span_one, List.flatMap_map, List.flatMap_congr hpages, flatMap_pages,
      List.take_of_length_le (by omega)]
  · obtain ⟨hlow, hhigh⟩ := hbounds page hpage
    have hnat := pageParam_pageQuery hlow hhigh
    have hrows : (items (pageParam (pageQuery page))).length =
        pageLength (pageParam (pageQuery page)) perPage full.length := by
      rw [hitems page hlow hhigh, List.length_take, List.length_drop, pageLength, hper]
      omega
    exact (inRange_paged hrows).mpr fun _ => hlength

namespace Database

section Keccak

variable [Keccak] (ch : Choices) (db : Database)

/-! ## The plain queries -/

/-- Every transfer of a token, newest first. -/
def tokenTransfers (tokenAddr : String) : List TransferListing :=
  (orderDesc (fun e => (transferPageRow e).key) (db.tokenTransferRows tokenAddr)).map
    (rowToTransferJson db)

/-! ## Their pages -/

variable {db}

theorem attempt_transfers {db : Database} (hc : db.Consistent) (c : Call) (fails : Bool) :
    db.transferEvents.entries <+: (db.attempt c fails).transferEvents.entries := by
  refine attempt_induction
    (P := fun x => db.transferEvents.entries <+: x.transferEvents.entries) (List.prefix_refl _)
    (fun db' h => ?_) fails
  cases c with
  | saveBlockBundles ch bundles =>
    refine saveBlockBundles_induction
      (P := fun x => db.transferEvents.entries <+: x.transferEvents.entries) ?_ ?_ h
      (List.prefix_refl _)
    · intro x x' bundle ch nb nt _ hx hwrite
      obtain ⟨-, new, -, -, hins⟩ := writeBlock_frame hwrite
      obtain ⟨added, hadded, -, -⟩ := hins.entries
      exact hx.trans ⟨added, hadded.symm⟩
    · exact fun x c hx => hx
  | saveGenesisBalances ch balances cursor =>
    obtain rfl := Except.ok.inj h
    obtain ⟨d, hs⟩ := saveGenesisBalances_saved hc.balanced ch balances cursor
    rw [hs.frame]
  | saveTokenMetadata metas =>
    obtain rfl := Except.ok.inj h
    rw [saveTokenMetadata_frame]
  | rebuildTokenBalances ch =>
    obtain rfl := Except.ok.inj h
    rw [(rebuildTokenBalances_spec ch db).1]
  | syncHolderCounts ch =>
    obtain rfl := Except.ok.inj h
    rw [(syncHolderCounts_recounted ch db).frame]

/-- What the writers do between two pages: any calls, whether they commit or not. -/
def Moves (db db' : Database) : Prop := ∃ calls, writers.run db calls = some db'

theorem Moves.transfers {db db' : Database} (h : Moves db db') (hdb : writers.Reachable db) :
    writers.Reachable db' ∧ db.transferEvents.entries <+: db'.transferEvents.entries := by
  obtain ⟨calls, hrun⟩ := h
  refine ⟨hdb.run hrun, ?_⟩
  induction calls generalizing db with
  | nil =>
    obtain rfl := Option.some.inj hrun
    exact List.prefix_refl _
  | cons a calls ih =>
    obtain ⟨mid, hstep, hrest⟩ := Option.bind_eq_some_iff.mp hrun
    obtain rfl := Option.some.inj hstep
    have hfirst := attempt_transfers (consistent_of_reachable hdb) a.1 a.2
    exact hfirst.trans (ih (.step hdb trivial rfl) hrest)

/-- **A page answered** from a database, whichever way its queries go. -/
def Answers {β : Type} (answer : Choices → Database → Query → Arith (List β × Option ℤ))
    (db : Database) (page : ℤ) (rows : List β) (next : Option ℤ) : Prop :=
  ∃ ch, (answer ch db (pageQuery page)).value = (rows, next)

end Keccak

/-! ## Two pages of transfers, the second after another block -/

section Sample

attribute [local instance] Keccak.sponge

/-- The holder has every transfer there is. -/
def AllHis (db : Database) : Prop :=
  ∀ e ∈ db.transferEvents.entries, e.row.toAddr = hexBlob sampleHolder

theorem AllHis.count {db : Database} (h : AllHis db) :
    getAddressTransferCount db sampleHolder = db.transferEvents.entries.length := by
  rw [getAddressTransferCount, List.filter_eq_self.mpr fun e he => decide_eq_true (.inr (h e he))]

end Sample

end Database

end ChainExplorer
