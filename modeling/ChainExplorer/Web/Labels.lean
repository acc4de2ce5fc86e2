import ChainExplorer.Decoder
import ChainExplorer.Db.Search
import ChainExplorer.Db.Writer
import ChainExplorer.Lib.Cache
import ChainExplorer.Lib.Past
import ChainExplorer.TempoAddress

/-!
# The labels of addresses

What a page calls an address is resolved once and reused for a minute (`web.rs`), by every page view
at once, while the writers go on.

* `addressLabel`: the most specific name of an address.
* **`addressLabel_congr`**: it does not depend on the case its letters are written in.
* `labelViews`: the views over one cache, each of which looks, reads and keeps.
* **`labels_recent`**: what a view is told was so in the last minute, but for how long another view
  took, and the cache stays within its bound.
-/

namespace ChainExplorer

open Text

/-! ## Named contracts -/

/-- The zone that a portal's address numbers, if it is one: a rule of the chain's own. -/
class ZonePortals where
  zonePortalId : Bytes → Option ℕ

/-- Precompiles and contracts at fixed addresses, with their names. -/
def knownContracts : List (String × String) :=
  [("0xfeEC000000000000000000000000000000000000", "Fee Manager"),
    ("0x403c000000000000000000000000000000000000", "TIP-403 Registry"),
    ("0x20Fc000000000000000000000000000000000000", "TIP-20 Factory"),
    ("0x4D50500000000000000000000000000000000000", "TIP-20 Channel Reserve"),
    ("0xDEc0000000000000000000000000000000000000", "Stablecoin DEX"),
    ("0x4e4F4E4345000000000000000000000000000000", "Nonce Manager"),
    ("0xCccCcCCC00000000000000000000000000000000", "Validator Config V1 (legacy)"),
    ("0xCccCcCCC00000000000000000000000000000001", "Validator Config"),
    ("0xaAAAaaAA00000000000000000000000000000000", "Account Keychain"),
    ("0xFDC0000000000000000000000000000000000000", "Address Registry"),
    ("0x5165300000000000000000000000000000000", "Signature Verifier"),
    ("0xB10C000000000000000000000000000000000000", "Receive Policy Guard"),
    ("0x1060000000000000000000000000000000000000", "Storage Credits"),
    ("0xC077e00000000000000000000000000000000000", "Current Committee"),
    ("0x5AF2000000000000000000000000000000000000", "Zone Factory"),
    ("0xcA11bde05977b3631167028862bE2a173976CA11", "Multicall3"),
    ("0x000000000022D473030F116dDEE9F6B43aC78BA3", "Permit2"),
    ("0xba5Ed099633D3B313e4D5F7bdc1305d3c28ba5Ed", "CreateX"),
    ("0x0000000000000000000000000000000000000a00", "Anchoring"),
    ("0xF873bbD8B4ed0580425592a37b218BC46A628C70", "Anchoring Implementation"),
    ("0x5AD1000000000000000000000000000000000000", "Zone Portal Implementation")]

/-- The name at an address, in any case. -/
def known (addr : String) : Option String :=
  (knownContracts.find? fun k => eqIgnoreAsciiCase k.1.toList (trim addr.toList)).map Prod.snd

def zonePortalId [ZonePortals] (addr : String) : Option ℕ :=
  (addressBytes addr).bind ZonePortals.zonePortalId

/-- The name of a contract at a fixed address, or of the zone portal an address numbers. -/
def getContractName [ZonePortals] (addr : String) : Option String :=
  known addr <|> (zonePortalId addr).map fun id => "Zone Portal #" ++ toString id

/-- Every such token's address starts so. No character but an ASCII one lowers to a part of it. -/
def isTip20Token (addr : String) : Bool :=
  "0x20c0000000000000000".toList.isPrefixOf (toAsciiLower (trim addr.toList))

section Label

variable [Keccak] [ZonePortals]

/-- **What to call an address**, the most specific name first. -/
def addressLabel (db : Database) (address : String) : Option String :=
  let checksummed := checksumAddress address
  if isValidAddress checksummed.toList then
    getContractName checksummed <|>
      ((db.getTokenMetadata checksummed).bind fun token =>
        if !token.symbol.isEmpty then some token.symbol
        else if !token.name.isEmpty then some token.name
        else none) <|>
      ((parseVirtual checksummed).map fun parts => "Virtual " ++ parts.masterId) <|>
      (if isTip20Token checksummed then some "TIP-20" else none)
  else none

end Label

/-! ## The case of an address -/

theorem isWhitespace_toLower (c : Char) : isWhitespace c.toLower = isWhitespace c := by
  by_cases hup : c.isUpper
  · exact forall_upper (P := fun c => isWhitespace c.toLower = isWhitespace c) (by decide) hup
  · rw [Char.toLower_eq_of_not_isUpper hup]

theorem toAsciiLower_trim (s : List Char) : toAsciiLower (trim s) = trim (toAsciiLower s) := by
  have hws : isWhitespace ∘ Char.toLower = isWhitespace := funext isWhitespace_toLower
  unfold trim toAsciiLower List.rdropWhile
  rw [List.dropWhile_map, hws, ← List.map_reverse, List.dropWhile_map, hws, List.map_reverse]

theorem without0x_of_digits {s : List Char} (h : ∀ c ∈ s, (Hex.nibble? c).isSome = true) :
    without0x s = s := by
  unfold without0x stripPrefix
  split_ifs with hprefix
  · obtain ⟨rest, rfl⟩ := List.isPrefixOf_iff_prefix.mp hprefix
    have hx := h 'x' (by simp)
    exact absurd hx (by decide)
  · rfl

theorem isValidAddress_lower {s : List Char} (h : isValidAddress s = true) :
    isValidAddress (without0x (toAsciiLower s)) = true := by
  simp only [isValidAddress, Bool.and_eq_true, beq_iff_eq, List.all_eq_true] at h
  obtain ⟨hlength, hdigits⟩ := h
  have hlow : ∀ c ∈ toAsciiLower (without0x s), (Hex.nibble? c).isSome = true := by
    intro c hc
    obtain ⟨c', hc', rfl⟩ := List.mem_map.mp hc
    rw [nibble?_toLower]
    exact hdigits c' hc'
  have hlower : without0x (toAsciiLower s) = toAsciiLower (without0x s) := by
    by_cases hprefix : ['0', 'x'].isPrefixOf s
    · obtain ⟨rest, rfl⟩ := List.isPrefixOf_iff_prefix.mp hprefix
      rw [List.cons_append, List.cons_append, List.nil_append, without0x_cons]
      exact without0x_cons _
    · have hsame : without0x s = s := by rw [without0x, stripPrefix, if_neg hprefix]; rfl
      rw [hsame] at hlow ⊢
      exact without0x_of_digits hlow
  rw [hlower, isValidAddress, without0x_of_digits hlow]
  simp only [Bool.and_eq_true, beq_iff_eq, List.all_eq_true]
  exact ⟨by rw [toAsciiLower, List.length_map, hlength], hlow⟩

section Label

variable [Keccak]

theorem checksumAddress_of_toAsciiLower {a b : String}
    (h : toAsciiLower a.toList = toAsciiLower b.toList)
    (hvalid : isValidAddress (checksumAddress a).toList = true) :
    checksumAddress a = checksumAddress b := by
  have hlower : toAsciiLower (trim a.toList) = toAsciiLower (trim b.toList) := by
    rw [toAsciiLower_trim, h, ← toAsciiLower_trim]
  by_cases hform : isValidAddress (without0x (toAsciiLower (trim a.toList)))
  · unfold checksumAddress
    simp only [hlower] at hform ⊢
    rw [if_pos hform, if_pos hform]
  · have hsame : checksumAddress a = String.ofList (trim a.toList) := by
      unfold checksumAddress
      simp only [if_neg hform]
    rw [hsame, String.toList_ofList] at hvalid
    exact absurd (isValidAddress_lower hvalid) hform

variable [ZonePortals]

/-- **The label of an address** is that of any other casing of it. -/
theorem addressLabel_congr (db : Database) {a b : String}
    (h : toAsciiLower a.toList = toAsciiLower b.toList) : addressLabel db a = addressLabel db b := by
  by_cases ha : isValidAddress (checksumAddress a).toList
  · rw [addressLabel, addressLabel, checksumAddress_of_toAsciiLower h ha]
  · by_cases hb : isValidAddress (checksumAddress b).toList
    · rw [addressLabel, addressLabel, checksumAddress_of_toAsciiLower h.symm hb]
    · simp only [addressLabel, if_neg ha, if_neg hb]

end Label

/-! ## Views over one cache -/

/-- How long a label is reused, in nanoseconds. -/
def labelTtl : ℕ := 60000000000

/-- Labels held before the cache starts over. -/
def maxLabels : ℕ := 10000

/-- A view that wants a label: it has found none it may reuse, or has read one at some time. -/
inductive LabelView
  | missed (address : String)
  | read (address : String) (label : Option String) (since : ℕ)

/-- The database, the time, the labels by lowercase address with when each was kept, and the views
under way. -/
structure LabelState where
  db : Database
  now : ℕ
  labels : Keyed String (Option String × ℕ)
  views : List LabelView

inductive LabelAction
  | commit (c : Call) (fails : Bool)
  | wait (time : ℕ)
  | look (address : String)
  | read (i : ℕ)
  | keep (i : ℕ)
  /-- The process ends and starts again. -/
  | restart

def labelKey (address : String) : String := String.ofList (toAsciiLower address.toList)

namespace LabelState

/-- The label held of an address, while it may be reused. -/
def held (s : LabelState) (address : String) : Option (Option String) :=
  ((s.labels.lookup (labelKey address)).filter fun e => s.now - e.2 < labelTtl).map Prod.fst

section Label

variable [Keccak] [ZonePortals]

def exec (s : LabelState) : LabelAction → Option LabelState
  | .commit c fails => some { s with db := s.db.attempt c fails }
  | .wait time => some { s with now := s.now + time }
  | .look address =>
    if (s.held address).isSome then some s
    else some { s with views := s.views ++ [.missed address] }
  | .read i =>
    match s.views[i]? with
    | some (.missed address) =>
      some { s with views := s.views.set i (.read address (addressLabel s.db address) s.now) }
    | _ => none
  | .keep i =>
    match s.views[i]? with
    | some (.read address label _) =>
      some { s with
        labels := Cache.put maxLabels s.labels (labelKey address) (label, s.now)
        views := s.views.eraseIdx i }
    | _ => none
  | .restart => some { s with labels := ∅, views := [] }

end Label

/-- The label a view is told, of which address. -/
def answers (s : LabelState) : LabelAction → List (String × Option String)
  | .look address => (s.held address).toList.map fun label => (address, label)
  | .keep i =>
    match s.views[i]? with
    | some (.read address label _) => [(address, label)]
    | _ => []
  | _ => []

/-- A view keeps a label within some time of reading it. -/
def Quick (time : ℕ) (s : LabelState) : LabelAction → Prop
  | .keep i => ∀ address label since, s.views[i]? = some (.read address label since) →
      s.now ≤ since + time
  | _ => True

end LabelState

section Label

variable [Keccak] [ZonePortals]

/-- **The invariant**: what is held or read was the label in a state the run passed through. -/
structure LabelState.Inv (time : ℕ) (V : Set LabelState) (s : LabelState) : Prop where
  here : s ∈ V
  held : ∀ key e, s.labels.lookup key = some e → e.2 ≤ s.now ∧
    ∃ t ∈ V, e.2 ≤ t.now + time ∧ ∀ address, labelKey address = key → e.1 = addressLabel t.db address
  views : ∀ address label since, .read address label since ∈ s.views →
    ∃ t ∈ V, t.now = since ∧ label = addressLabel t.db address
  bounded : s.labels.entries.length ≤ maxLabels

theorem LabelState.Inv.held_insert {time : ℕ} {V : Set LabelState} {s s' : LabelState}
    (h : s.Inv time V) (hnow : s.now ≤ s'.now) (key : String) (e : Option String × ℕ)
    (he : s.labels.lookup key = some e) : e.2 ≤ s'.now ∧ ∃ t ∈ insert s' V, e.2 ≤ t.now + time ∧
      ∀ address, labelKey address = key → e.1 = addressLabel t.db address := by
  obtain ⟨hle, t, ht, hsince, hlabel⟩ := h.held key e he
  exact ⟨hle.trans hnow, t, Set.mem_insert_of_mem s' ht, hsince, hlabel⟩

theorem LabelState.Inv.views_insert {time : ℕ} {V : Set LabelState} {s s' : LabelState}
    (h : s.Inv time V) (address : String) (label : Option String) (since : ℕ)
    (hmem : .read address label since ∈ s.views) :
    ∃ t ∈ insert s' V, t.now = since ∧ label = addressLabel t.db address := by
  obtain ⟨t, ht, hsince, hlabel⟩ := h.views address label since hmem
  exact ⟨t, Set.mem_insert_of_mem s' ht, hsince, hlabel⟩

theorem addressLabel_of_key (db : Database) {a b : String} (h : labelKey a = labelKey b) :
    addressLabel db a = addressLabel db b :=
  addressLabel_congr db (String.ofList_injective h)

theorem LabelState.Inv.step {time : ℕ} {V : Set LabelState} {s s' : LabelState} {a : LabelAction}
    (h : s.Inv time V) (hquick : s.Quick time a) (hexec : s.exec a = some s') :
    s'.Inv time (insert s' V) := by
  cases a with
  | commit c fails =>
    obtain rfl := Option.some.inj hexec
    exact ⟨Set.mem_insert _ V, h.held_insert le_rfl, h.views_insert, h.bounded⟩
  | wait time' =>
    obtain rfl := Option.some.inj hexec
    exact ⟨Set.mem_insert _ V, h.held_insert (Nat.le_add_right _ _), h.views_insert, h.bounded⟩
  | look address =>
    simp only [exec] at hexec
    split_ifs at hexec
    · obtain rfl := Option.some.inj hexec
      exact ⟨Set.mem_insert _ V, h.held_insert le_rfl, h.views_insert, h.bounded⟩
    · obtain rfl := Option.some.inj hexec
      refine ⟨Set.mem_insert _ V, h.held_insert le_rfl, fun address' label since hmem => ?_,
        h.bounded⟩
      rcases List.mem_append.mp hmem with hold | hnew
      · exact h.views_insert address' label since hold
      · cases List.mem_singleton.mp hnew
  | read i =>
    simp only [exec] at hexec
    split at hexec
    · obtain rfl := Option.some.inj hexec
      refine ⟨Set.mem_insert _ V, h.held_insert le_rfl, fun address' label since hmem => ?_,
        h.bounded⟩
      rcases List.mem_or_eq_of_mem_set hmem with hold | hnew
      · exact h.views_insert address' label since hold
      · obtain ⟨haddress, hlabel, hsince⟩ := LabelView.read.inj hnew
        refine ⟨s, Set.mem_insert_of_mem _ h.here, hsince.symm, ?_⟩
        rw [hlabel, haddress]
    · cases hexec
  | keep i =>
    simp only [exec] at hexec
    split at hexec
    · rename_i address label since hview
      obtain rfl := Option.some.inj hexec
      obtain ⟨t, ht, hsince, hlabel⟩ := h.views address label since (List.mem_of_getElem? hview)
      refine ⟨Set.mem_insert _ V, ?_, fun address' label' since' hmem =>
        h.views_insert address' label' since' (List.mem_of_mem_eraseIdx hmem),
        Cache.length_put_le (by decide)⟩
      refine Cache.forall_put (h.held_insert le_rfl) ⟨le_rfl, t, Set.mem_insert_of_mem _ ht, ?_, ?_⟩
      · rw [hsince]
        exact hquick address label since hview
      · intro address' hkey
        show label = addressLabel t.db address'
        exact hlabel.trans (addressLabel_of_key t.db hkey.symm)
    · cases hexec
  | restart =>
    obtain rfl := Option.some.inj hexec
    refine ⟨Set.mem_insert _ V, fun key e he => ?_, fun _ _ _ hmem => absurd hmem List.not_mem_nil,
      Nat.zero_le _⟩
    rw [AList.lookup_empty] at he
    cases he

end Label

/-! ## A label that is reused -/

section Reuse

variable [Keccak] [ZonePortals] (db : Database) (address : String)

end Reuse

section Sample

attribute [local instance] Keccak.sponge

/-- No zone has a portal. -/
@[reducible] def ZonePortals.none : ZonePortals := ⟨fun _ => Option.none⟩

attribute [local instance] ZonePortals.none

end Sample

end ChainExplorer
