import ChainExplorer.Indexer.Fee

/-!
# Balance changes of a transaction

The transaction page reads a receipt's transfers off the logs again, by the name they decode to
(`decoder.rs`).

* `extractBalanceChanges`: a change out and a change in for each log named a transfer.
* **`extractBalanceChanges_indexed`**: they are those of the indexed transfers exactly where every log
  of that name spells the topic and fits the event.
-/

namespace ChainExplorer

open Text

/-- One balance that moved, as the page shows it. -/
structure BalanceChange where
  address : String
  token : String
  change : String
  isFee : Bool
  changeType : Option String
deriving DecidableEq, Repr

/-- Two lists put together piece by piece are the same when the pieces are, where each piece of the
one is empty or the other's. -/
theorem flatMap_eq_flatMap_iff {α β : Type} {f g : α → List β} {l : List α}
    (h : ∀ a ∈ l, g a = [] ∨ g a = f a) : l.flatMap f = l.flatMap g ↔ ∀ a ∈ l, f a = g a := by
  have hlength : ∀ l : List α, (∀ a ∈ l, g a = [] ∨ g a = f a) →
      (l.flatMap g).length ≤ (l.flatMap f).length := by
    intro l hl
    induction l with
    | nil => exact le_rfl
    | cons a l ih =>
      have hrest := ih fun b hb => hl b (List.mem_cons_of_mem _ hb)
      have hhead : (g a).length ≤ (f a).length := by
        rcases hl a List.mem_cons_self with ha | ha
        · rw [ha]
          exact Nat.zero_le _
        · rw [ha]
      rw [List.flatMap_cons, List.flatMap_cons, List.length_append, List.length_append]
      omega
  refine ⟨fun heq => ?_, fun hall => List.flatMap_congr hall⟩
  induction l with
  | nil => exact fun a ha => absurd ha List.not_mem_nil
  | cons a l ih =>
    have hrest : ∀ b ∈ l, g b = [] ∨ g b = f b := fun b hb => h b (List.mem_cons_of_mem _ hb)
    rw [List.flatMap_cons, List.flatMap_cons] at heq
    have hhead : f a = g a := by
      rcases h a List.mem_cons_self with ha | ha
      · have hle := hlength l hrest
        have hlen := congrArg List.length heq
        rw [List.length_append, List.length_append, ha, List.length_nil] at hlen
        rw [ha, ← List.length_eq_zero_iff]
        omega
      · exact ha.symm
    rw [hhead, List.append_cancel_left_eq] at heq
    intro b hb
    rcases List.mem_cons.mp hb with rfl | hb
    · exact hhead
    · exact ih hrest heq b hb

/-- Mark the fee, where a change is the Fee Manager's in the fee token. -/
def markFee (feeToken : String) (c : BalanceChange) : BalanceChange :=
  if eqIgnoreAsciiCase c.address.toList feeManagerAddress.toList &&
      eqIgnoreAsciiCase c.token.toList feeToken.toList then
    { c with isFee := true, changeType := some "fee" }
  else c

/-- Whose balance of which token changes, and by how much. -/
def BalanceChange.view (c : BalanceChange) : String × String × String :=
  (c.address, c.token, c.change)

/-- The two changes of a transfer. -/
def transferChanges (t : TransferEvent) : List (String × String × String) :=
  [(t.fromAddr, t.tokenAddr, "-" ++ t.amount), (t.toAddr, t.tokenAddr, "+" ++ t.amount)]

theorem view_markFee (feeToken : String) (c : BalanceChange) :
    (markFee feeToken c).view = c.view := by
  unfold markFee
  split_ifs <;> rfl

/-- The two changes of what a log moves. -/
def LogTransfer.changes (m : LogTransfer) : List (String × String × String) :=
  [(m.src, m.token, "-" ++ m.amount), (m.dst, m.token, "+" ++ m.amount)]

section Keccak

variable [Keccak] [Codec]

/-- The changes of one event. -/
def eventChanges (log : Json) (event : Option DecodedEvent) : List BalanceChange :=
  match event with
  | none => []
  | some decoded =>
    if decoded.name = some "Transfer" then
      let token := checksumAddress (log.text "address" "")
      let amount := (decoded.param "amount").getD ""
      [⟨(decoded.param "from").getD "", token, "-" ++ amount, false, none⟩,
        ⟨(decoded.param "to").getD "", token, "+" ++ amount, false, none⟩]
    else []

/-- **The balance changes of a transaction**, where every log can be decoded. -/
def extractBalanceChanges (receipt : Json) (tx : Transaction) : Option (List BalanceChange) :=
  ((receipt.arrayField "logs").mapM fun log => (decodeEvent log).map (eventChanges log)).map fun shown =>
    let changes := shown.flatten
    match tx.feeToken with
    | some feeToken => if standing tx.feeAmount then changes.map (markFee feeToken) else changes
    | none => changes

/-- The transfers a receipt adds to what has been indexed. -/
def addedTransfers (receipt : Json) (s : Indexing) : Option (List TransferEvent) :=
  (applyReceipt receipt s).map fun done => done.transfers.drop s.transfers.length

/-- The changes of one log, where it can be decoded. -/
def logChanges (log : Json) : List BalanceChange := eventChanges log (logEvent log)

/-- **A log the registry names a transfer** spells the topic with its prefix and fits the event. -/
def TrueTransfer (log : Json) : Prop :=
  ∀ decoded, logEvent log = some decoded → decoded.name = some "Transfer" →
    isTransferLog log = true ∧ decoded.params ≠ []

/-! ## One log -/

theorem extractBalanceChanges_isSome_iff {receipt : Json} (tx : Transaction) :
    (extractBalanceChanges receipt tx).isSome ↔ ∀ log ∈ receipt.arrayField "logs", Decodable log := by
  rw [extractBalanceChanges, Option.isSome_map, Fallible.isSome_mapM_iff]
  refine forall₂_congr fun log _ => ?_
  rw [Option.isSome_map, decodeEvent_isSome_iff]

theorem map_view_extractBalanceChanges {receipt : Json} {tx : Transaction}
    {changes : List BalanceChange} (h : extractBalanceChanges receipt tx = some changes) :
    changes.map BalanceChange.view =
      (receipt.arrayField "logs").flatMap fun log => (logChanges log).map BalanceChange.view := by
  obtain ⟨shown, hshown, rfl⟩ := Option.map_eq_some_iff.mp h
  have hvalue : ∀ (log : Json) (changes : List BalanceChange),
      (decodeEvent log).map (eventChanges log) = some changes → changes = logChanges log := by
    intro log changes hchanges
    obtain ⟨event, hevent, rfl⟩ := Option.map_eq_some_iff.mp hchanges
    rw [logChanges, logEvent, hevent]
    rfl
  rw [Fallible.eq_map_of_mapM hvalue hshown, ← List.map_flatMap, List.flatMap_def]
  simp only
  cases tx.feeToken with
  | none => rfl
  | some feeToken =>
    simp only
    split_ifs
    · rw [List.map_map]
      exact List.map_congr_left fun c _ => view_markFee feeToken c
    · rfl

theorem addedTransfers_changes {receipt : Json} {s : Indexing} {added : List TransferEvent}
    (h : addedTransfers receipt s = some added) :
    added.flatMap transferChanges =
      (receipt.arrayField "logs").flatMap fun log => (logTransfer log).elim [] LogTransfer.changes := by
  have hadded : ∀ (logs : List Json) (tx : Transaction) (next : ℕ),
      (logTransfers tx next logs).flatMap transferChanges =
        logs.flatMap fun log => (logTransfer log).elim [] LogTransfer.changes := by
    intro logs tx next
    induction logs generalizing next with
    | nil => rfl
    | cons log logs ih =>
      rw [logTransfers_cons, List.flatMap_append, ih, List.flatMap_cons]
      cases logTransfer log <;> rfl
  obtain ⟨done, hdone, rfl⟩ := Option.map_eq_some_iff.mp h
  rw [applyReceipt_of_some hdone, List.drop_left]
  exact hadded _ _ _

variable {event : AbiEvent}

theorem logChanges_of_name {log : Json} {decoded : DecodedEvent}
    (hd : logEvent log = some decoded) (hname : decoded.name = some "Transfer") :
    (logChanges log).map BalanceChange.view =
      [((decoded.param "from").getD "", checksumAddress (log.text "address" ""),
          "-" ++ (decoded.param "amount").getD ""),
        ((decoded.param "to").getD "", checksumAddress (log.text "address" ""),
          "+" ++ (decoded.param "amount").getD "")] := by
  simp only [logChanges, eventChanges, hd, if_pos hname, List.map_cons, List.map_nil, BalanceChange.view]

theorem logChanges_of_ne {log : Json} {decoded : DecodedEvent}
    (hd : logEvent log = some decoded) (hname : decoded.name ≠ some "Transfer") :
    logChanges log = [] := by
  simp only [logChanges, eventChanges, hd, if_neg hname]

theorem logChanges_of_transfer (habi : TransferAbi event) {log : Json} {m : LogTransfer}
    (h : logTransfer log = some m) :
    (logChanges log).map BalanceChange.view = m.changes ∧ TrueTransfer log := by
  unfold logTransfer at h
  split_ifs at h with ht
  obtain ⟨decoded, hd, h⟩ := Option.bind_eq_some_iff.mp h
  rcases logEvent_transfer habi ht hd with ⟨hsrc, -⟩ |
    ⟨src, dst, n, -, -, -, hname, hsrc, hdst, hamount⟩
  · rw [hsrc] at h
    cases h
  · rw [logChanges_of_name hd hname]
    rw [hsrc, hdst, hamount] at h ⊢
    simp only [Option.getD_some] at h ⊢
    split_ifs at h
    rw [← Option.some.inj h]
    refine ⟨by simp only [LogTransfer.changes], fun decoded' hd' _ => ⟨ht, ?_⟩⟩
    obtain rfl := Option.some.inj (hd.symm.trans hd')
    intro hnil
    rw [DecodedEvent.param, hnil] at hsrc
    cases hsrc

/-- A log that is not indexed is shown exactly where it is no true transfer. -/
theorem logChanges_of_none (habi : TransferAbi event) {log : Json} (h : logTransfer log = none) :
    logChanges log = [] ↔ TrueTransfer log := by
  cases hd : logEvent log with
  | none =>
    refine iff_of_true (by simp only [logChanges, eventChanges, hd]) fun decoded hd' => ?_
    exact absurd (hd.symm.trans hd') nofun
  | some decoded =>
    by_cases hname : decoded.name = some "Transfer"
    · have hshown : logChanges log ≠ [] := by
        simp only [logChanges, eventChanges, hd, if_pos hname]
        exact nofun
      refine iff_of_false hshown fun htrue => ?_
      obtain ⟨ht, hparams⟩ := htrue decoded hd hname
      rcases logEvent_transfer habi ht hd with ⟨-, -, -, hnil⟩ |
        ⟨src, dst, n, hsrc', hdst', -, -, hsrc, hdst, hamount⟩
      · exact hparams (hnil hname)
      · rw [logTransfer, if_pos ht, hd, Option.bind_some, hsrc, hdst, hamount] at h
        simp [hsrc', hdst'] at h
    · refine iff_of_true (logChanges_of_ne hd hname) fun decoded' hd' hname' => ?_
      obtain rfl := Option.some.inj (hd.symm.trans hd')
      exact absurd hname' hname

/-! ## All of them -/

theorem exists_addedTransfers {receipt : Json}
    (h : ∀ log ∈ receipt.arrayField "logs", Decodable log) (s : Indexing) :
    ∃ added, addedTransfers receipt s = some added := by
  obtain ⟨done, hdone⟩ := Option.isSome_iff_exists.mp
    (applyReceipt_isSome_iff.mpr fun log hlog _ => h log hlog)
  exact ⟨_, congrArg _ hdone⟩

/-- **The page shows the indexed transfers**, each as its two changes, exactly where every log can be
decoded and every log of the name is a true transfer. -/
theorem extractBalanceChanges_indexed (habi : TransferAbi event) (receipt : Json) (tx : Transaction)
    (s : Indexing) :
    (∃ changes added, extractBalanceChanges receipt tx = some changes ∧
      addedTransfers receipt s = some added ∧
        changes.map BalanceChange.view = added.flatMap transferChanges) ↔
      ∀ log ∈ receipt.arrayField "logs", Decodable log ∧ TrueTransfer log := by
  have hpiece : ∀ log ∈ receipt.arrayField "logs",
      (logTransfer log).elim [] LogTransfer.changes = [] ∨
        (logTransfer log).elim [] LogTransfer.changes = (logChanges log).map BalanceChange.view := by
    intro log _
    cases hm : logTransfer log with
    | some m => exact .inr (logChanges_of_transfer habi hm).1.symm
    | none => exact .inl rfl
  have htrue : ((receipt.arrayField "logs").flatMap fun log => (logChanges log).map BalanceChange.view) =
      ((receipt.arrayField "logs").flatMap fun log => (logTransfer log).elim [] LogTransfer.changes) ↔
        ∀ log ∈ receipt.arrayField "logs", TrueTransfer log := by
    rw [flatMap_eq_flatMap_iff hpiece]
    refine forall₂_congr fun log _ => ?_
    cases hm : logTransfer log with
    | some m =>
      obtain ⟨hchanges, htrue⟩ := logChanges_of_transfer habi hm
      exact iff_of_true hchanges htrue
    | none =>
      rw [Option.elim_none, List.map_eq_nil_iff]
      exact logChanges_of_none habi hm
  rw [forall₂_and, ← htrue]
  constructor
  · rintro ⟨changes, added, hchanges, hadded, heq⟩
    rw [map_view_extractBalanceChanges hchanges, addedTransfers_changes hadded] at heq
    exact ⟨(extractBalanceChanges_isSome_iff tx).mp (by rw [hchanges]; rfl), heq⟩
  · rintro ⟨hdecodable, heq⟩
    obtain ⟨changes, hchanges⟩ := Option.isSome_iff_exists.mp
      ((extractBalanceChanges_isSome_iff tx).mpr hdecodable)
    obtain ⟨added, hadded⟩ := exists_addedTransfers hdecodable s
    refine ⟨changes, added, hchanges, hadded, ?_⟩
    rw [map_view_extractBalanceChanges hchanges, addedTransfers_changes hadded, heq]

end Keccak

/-! ## A receipt of two logs -/

section Sample

attribute [local instance] Keccak.sponge Codec.transfers

/-- A log under the topic of a transfer, with nothing else. -/
def bareLog : Json := .obj [("address", .str "0x01"), ("topics", .arr [.str transferTopic])]

/-- A log under a topic nobody knows. -/
def strangeLog : Json := .obj [("address", .str "0x01"), ("topics", .arr [.str "0x"])]

def receiptOf (logs : List Json) : Json := .obj [("logs", .arr logs)]

/-- The transfer of 5 is shown as it is indexed, and the other log is neither. -/
theorem extractBalanceChanges_indexed_one :
    ∃ changes added, extractBalanceChanges (receiptOf [feeLog, strangeLog]) feeTx = some changes ∧
      addedTransfers (receiptOf [feeLog, strangeLog]) ⟨feeTx, [], [], 0⟩ = some added ∧
        changes.map BalanceChange.view = added.flatMap transferChanges := by
  refine (extractBalanceChanges_indexed transferEvent_abi _ _ _).mpr fun log hlog => ?_
  have hlogs : (receiptOf [feeLog, strangeLog]).arrayField "logs" = [feeLog, strangeLog] := rfl
  rw [hlogs] at hlog
  rcases List.mem_pair.mp hlog with rfl | rfl
  · have hlog : logTransfer feeLog =
        some ⟨blobAddr feeTokenBytes, blobAddr payerBytes, blobAddr feeManagerBytes, "5"⟩ :=
      logTransfer_transferLog rfl rfl rfl
    exact ⟨transferLog_decodable _ _ _ _, (logChanges_of_transfer transferEvent_abi hlog).2⟩
  · refine ⟨.inr (.inr (.inl (by decide))), fun decoded hd hname => ?_⟩
    obtain rfl : (⟨none, none, "0x01", [⟨"bytes", "data", "0x", false⟩], "0x", none, none⟩ :
        DecodedEvent) = decoded := Option.some.inj hd
    cases hname

/-- **A log that carries nothing is shown**, and is no transfer. -/
theorem extractBalanceChanges_bare :
    (∃ changes, extractBalanceChanges (receiptOf [bareLog]) feeTx = some changes ∧
      changes.map BalanceChange.view =
        [("", checksumAddress "0x01", "-"), ("", checksumAddress "0x01", "+")]) ∧
      addedTransfers (receiptOf [bareLog]) ⟨feeTx, [], [], 0⟩ = some [] ∧
      ¬∃ changes added, extractBalanceChanges (receiptOf [bareLog]) feeTx = some changes ∧
        addedTransfers (receiptOf [bareLog]) ⟨feeTx, [], [], 0⟩ = some added ∧
          changes.map BalanceChange.view = added.flatMap transferChanges := by
  have hlogs : (receiptOf [bareLog]).arrayField "logs" = [bareLog] := rfl
  have haddress : bareLog.text "address" "" = "0x01" := rfl
  have hfits : ∀ topic, transferEvent.decodeLogParams [topic] "0x" = none := by
    intro topic
    simp only [transferEvent]
    cases hw : word topic with
    | none => simp [hw]
    | some w => simp [hw]
  obtain ⟨decoded, hd, hname, hparams⟩ :=
    exists_logEvent bareLog (.str transferTopic) [] rfl registryEvent_transferTopic
  rw [show bareLog.text "data" "0x" = "0x" from rfl, hfits, Option.getD_none] at hparams
  have hparam : ∀ name, decoded.param name = none := by
    intro name
    rw [DecodedEvent.param, hparams]
    rfl
  have hdecodable : ∀ log ∈ (receiptOf [bareLog]).arrayField "logs", Decodable log := by
    intro log hlog
    rw [hlogs] at hlog
    rw [List.mem_singleton.mp hlog]
    exact .inr (.inr (.inl (by decide)))
  have hnone : logTransfer bareLog = none := by
    rw [logTransfer]
    split_ifs
    · rw [hd, Option.bind_some, hparam]
      rfl
    · rfl
  have hshown : ∀ changes, extractBalanceChanges (receiptOf [bareLog]) feeTx = some changes →
      changes.map BalanceChange.view =
        [("", checksumAddress "0x01", "-"), ("", checksumAddress "0x01", "+")] := by
    intro changes hchanges
    rw [map_view_extractBalanceChanges hchanges, hlogs, List.flatMap_cons, List.flatMap_nil,
      logChanges_of_name hd hname, hparam, hparam, hparam, haddress]
    simp only [Option.getD_none, String.append_empty, List.append_nil]
  have hadded : addedTransfers (receiptOf [bareLog]) ⟨feeTx, [], [], 0⟩ = some [] := by
    obtain ⟨done, hdone⟩ := Option.isSome_iff_exists.mp
      (applyReceipt_isSome_iff.mpr fun log hlog _ => hdecodable log hlog)
    rw [addedTransfers, hdone, Option.map_some, applyReceipt_of_some hdone, hlogs, List.drop_left,
      logTransfers_cons, hnone]
    simp [logTransfers]
  obtain ⟨changes, hchanges⟩ :=
    Option.isSome_iff_exists.mp ((extractBalanceChanges_isSome_iff feeTx).mpr hdecodable)
  refine ⟨⟨changes, hchanges, hshown changes hchanges⟩, hadded, ?_⟩
  rintro ⟨changes', added, hchanges', hadded', heq⟩
  rw [hadded] at hadded'
  rw [hshown changes' hchanges', ← Option.some.inj hadded'] at heq
  cases heq

end Sample

end ChainExplorer
