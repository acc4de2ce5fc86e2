import ChainExplorer.Indexer.Logs
import ChainExplorer.Lib.BigEndian
import ChainExplorer.Spelling

/-!
# The transfer event

What the registry and the ABI library know of a transfer, and what a log under its topic decodes to.

* `TransferAbi`: the event, and the three arguments of a log that fits it.
* **`logEvent_transfer`**: a log under the topic is that event, fitting or not, or no known one.
-/

namespace ChainExplorer

open Text

/-! ## The event -/

/-- The hash a transfer's topic spells. -/
def transferHash [Keccak] : Bytes :=
  (Keccak.keccak256 (utf8 "Transfer(address,address,uint256)")).toList

/-- **What the registry and the ABI library know of a transfer**: it is registered under its hash,
and a log that fits it has a sender, a recipient and an amount of 256 bits, in this order. -/
structure TransferAbi [Keccak] [Codec] (event : AbiEvent) : Prop where
  registered : Codec.events transferHash = some event
  name : event.name = "Transfer"
  params : ∀ topics data params, event.decodeLogParams topics data = some params →
    ∃ (src dst : String) (n : ℕ), src ≠ "" ∧ dst ≠ "" ∧ n < 2 ^ 256 ∧
      params = [⟨"address", "from", src, true⟩, ⟨"address", "to", dst, true⟩,
        ⟨"uint256", "amount", toString n, false⟩]

theorem logEvent_known [Codec] {log : Json} {decoded : DecodedEvent}
    (hd : logEvent log = some decoded) :
    (registryEvent (firstTopic log) = none ∧ decoded.name = none ∧
        ∃ raw, decoded.params = [⟨"bytes", "data", raw, false⟩]) ∨
      ∃ event topics, registryEvent (firstTopic log) = some event ∧
        (log.get "topics").bind Json.asArray = some topics ∧ decoded.name = some event.name ∧
        decoded.params = (event.decodeLogParams topics (log.text "data" "0x")).getD [] := by
  have hd' : decodeEvent log = some (some decoded) := Option.join_eq_some_iff.mp hd
  unfold decodeEvent at hd'
  split at hd'
  · exact absurd hd' nofun
  · exact absurd hd' nofun
  · next first rest htopics =>
    simp only [← firstTopic_of_cons htopics] at hd'
    obtain ⟨params, hparams, heq⟩ := Option.map_eq_some_iff.mp hd'
    rw [← Option.some.inj heq]
    cases hk : registryEvent (firstTopic log) with
    | none =>
      rw [hk] at hparams
      obtain ⟨raw, -, rfl⟩ := Option.map_eq_some_iff.mp hparams
      exact .inl ⟨rfl, rfl, raw, rfl⟩
    | some event =>
      rw [hk] at hparams
      obtain rfl := Option.some.inj hparams
      exact .inr ⟨event, _, rfl, htopics, rfl, rfl⟩

theorem exists_logEvent [Codec] (log : Json) {event : AbiEvent} (first : Json) (rest : List Json)
    (htopics : (log.get "topics").bind Json.asArray = some (first :: rest))
    (hknown : registryEvent (first.asStr.getD "") = some event) :
    ∃ decoded, logEvent log = some decoded ∧ decoded.name = some event.name ∧
      decoded.params = (event.decodeLogParams (first :: rest) (log.text "data" "0x")).getD [] := by
  rw [logEvent, decodeEvent, htopics]
  simp only [hknown, Option.map_some, Option.join_some]
  exact ⟨_, rfl, rfl, rfl⟩

/-- A topic that spells the hash of a transfer names it, unless its prefix is in capitals. -/
theorem knownEvent_transfer [Keccak] [Codec] {event : AbiEvent} (habi : TransferAbi event)
    {log : Json} (ht : isTransferLog log = true) :
    registryEvent (firstTopic log) = some event ∨ registryEvent (firstTopic log) = none := by
  have hlower : toAsciiLower (firstTopic log).toList =
      '0' :: 'x' :: toAsciiLower (Hex.encode transferHash) := by
    have heq := of_decide_eq_true ht
    rw [transferTopic, keccakHex, blobHex, String.toList_ofList] at heq
    rw [heq]
    rfl
  cases hc : (firstTopic log).toList with
  | nil =>
    rw [hc] at hlower
    cases hlower
  | cons c0 rest =>
    cases rest with
    | nil =>
      rw [hc] at hlower
      cases (List.cons.inj hlower).2
    | cons c1 digits =>
      rw [hc] at hlower
      obtain ⟨h0, hrest⟩ := List.cons.inj hlower
      obtain ⟨h1, hdigits⟩ := List.cons.inj hrest
      obtain rfl := eq_of_toLower_zero h0
      have hlength : transferHash.length = 32 := Vector.length_toList
      rcases eq_of_toLower_x h1 with rfl | rfl
      · left
        rw [registryEvent, hc, without0x_cons, decode_of_toAsciiLower hdigits, Hex.decode_encode,
          Option.filter_some, if_pos (decide_eq_true hlength), Option.bind_some, habi.registered]
      · right
        have hprefix : without0x ('0' :: 'X' :: digits) = '0' :: 'X' :: digits := by
          simp [without0x, stripPrefix]
        have hnone : Hex.decode ('0' :: 'X' :: digits) = none := by
          rw [Hex.decode, show Hex.nibble? 'X' = none by decide]
          rfl
        rw [registryEvent, hc, hprefix, hnone]
        rfl

theorem param_of_params {decoded : DecodedEvent} {src dst amount : String}
    (h : decoded.params = [⟨"address", "from", src, true⟩, ⟨"address", "to", dst, true⟩,
      ⟨"uint256", "amount", amount, false⟩]) :
    decoded.param "from" = some src ∧ decoded.param "to" = some dst ∧
      decoded.param "amount" = some amount := by
  simp only [DecodedEvent.param, h]
  exact ⟨rfl, rfl, rfl⟩

/-- **A log under the topic of a transfer** carries its three arguments, or none of them. -/
theorem logEvent_transfer [Keccak] [Codec] {event : AbiEvent} (habi : TransferAbi event)
    {log : Json} {decoded : DecodedEvent} (ht : isTransferLog log = true)
    (hd : logEvent log = some decoded) :
    (decoded.param "from" = none ∧ decoded.param "to" = none ∧ decoded.param "amount" = none ∧
        (decoded.name = some "Transfer" → decoded.params = [])) ∨
      ∃ (src dst : String) (n : ℕ), src ≠ "" ∧ dst ≠ "" ∧ n < 2 ^ 256 ∧
        decoded.name = some "Transfer" ∧ decoded.param "from" = some src ∧
        decoded.param "to" = some dst ∧ decoded.param "amount" = some (toString n) := by
  rcases logEvent_known hd with ⟨-, hnone, raw, hparams⟩ | ⟨e, topics, hknown, -, hname, hparams⟩
  · left
    simp only [DecodedEvent.param, hparams]
    refine ⟨rfl, rfl, rfl, fun hname => ?_⟩
    exact absurd (hnone.symm.trans hname) nofun
  · obtain rfl : event = e := by
      rcases knownEvent_transfer habi ht with hk | hk
      · exact Option.some.inj (hk.symm.trans hknown)
      · exact absurd (hk.symm.trans hknown) nofun
    cases hp : event.decodeLogParams topics (log.text "data" "0x") with
    | none =>
      rw [hp, Option.getD_none] at hparams
      left
      refine ⟨?_, ?_, ?_, fun _ => hparams⟩
      · rw [DecodedEvent.param, hparams]
        rfl
      · rw [DecodedEvent.param, hparams]
        rfl
      · rw [DecodedEvent.param, hparams]
        rfl
    | some params =>
      rw [hp, Option.getD_some] at hparams
      obtain ⟨src, dst, n, hsrc, hdst, hn, rfl⟩ := habi.params _ _ _ hp
      right
      exact ⟨src, dst, n, hsrc, hdst, hn, hname.trans (congrArg some habi.name),
        param_of_params hparams⟩

theorem logTransfer_cases [Keccak] [Codec] {event : AbiEvent} (habi : TransferAbi event) (log : Json) :
    (logTransfer log = none ∧ ∀ tx, logFee tx log = tx) ∨
      ∃ (src dst : String) (n : ℕ),
        logTransfer log = some ⟨checksumAddress (log.text "address" ""), src, dst, toString n⟩ ∧
        ∀ tx, logFee tx log = deriveFeeFromTransfer tx log dst (toString n) := by
  cases ht : isTransferLog log with
  | false =>
    left
    refine ⟨?_, fun tx => ?_⟩
    · rw [logTransfer, ht, if_neg Bool.false_ne_true]
    · rw [logFee, ht, if_neg Bool.false_ne_true]
  | true =>
    cases hd : logEvent log with
    | none =>
      left
      refine ⟨?_, fun tx => ?_⟩
      · rw [logTransfer, if_pos ht, hd, Option.bind_none]
      · rw [logFee, if_pos ht, hd, Option.elim_none]
    | some decoded =>
      rcases logEvent_transfer habi ht hd with ⟨hsrc, hdst, hamount, -⟩ |
        ⟨src, dst, n, hsrc', hdst', -, -, hsrc, hdst, hamount⟩
      · left
        refine ⟨?_, fun tx => ?_⟩
        · rw [logTransfer, if_pos ht, hd, Option.bind_some, hsrc]
          rfl
        · rw [logFee, if_pos ht, hd, Option.elim_some, hamount, deriveFeeFromTransfer]
          exact if_pos (.inl rfl)
      · right
        refine ⟨src, dst, n, ?_, fun tx => ?_⟩
        · rw [logTransfer, if_pos ht, hd, Option.bind_some, hsrc, hdst, hamount]
          simp [hsrc', hdst']
        · rw [logFee, if_pos ht, hd, Option.elim_some, hdst, hamount, Option.getD_some,
            Option.getD_some]

/-! ## The event itself -/

section Sample

/-- A 32-byte word of hex. -/
def word (j : Json) : Option Bytes :=
  (j.asStr.bind fun t => Hex.decode (without0x t.toList)).filter fun b => b.length = 32

/-- The transfer event, as the ABI library decodes it. -/
def transferEvent [Keccak] : AbiEvent where
  name := "Transfer"
  signature := "Transfer(address,address,uint256)"
  decodeLogParams topics data :=
    match topics.filterMap word, word (.str data) with
    | [_, src, dst], some amount =>
      some [⟨"address", "from", blobAddr (src.drop 12), true⟩,
        ⟨"address", "to", blobAddr (dst.drop 12), true⟩,
        ⟨"uint256", "amount", toString (bigEndian amount), false⟩]
    | _, _ => none

/-- A registry of that event alone. -/
@[reducible] def Codec.transfers [Keccak] : Codec where
  unicode := .plain
  events b := if b = transferHash then some transferEvent else none
  encodeSigned _ := none
  jsonText _ := ""

theorem length_of_word {j : Json} {b : Bytes} (h : word j = some b) : b.length = 32 := by
  simpa using (Option.filter_eq_some_iff.mp h).2

theorem blobAddr_ne_empty [Keccak] {bytes : Bytes} (h : bytes ≠ []) : blobAddr bytes ≠ "" := by
  intro hempty
  have hback := hexBlob_blobAddr bytes
  rw [hempty] at hback
  exact h (hback.symm.trans (by decide))

theorem transferEvent_abi [Keccak] : @TransferAbi _ Codec.transfers transferEvent := by
  let _ := Codec.transfers
  refine ⟨if_pos rfl, rfl, fun topics data params h => ?_⟩
  simp only [transferEvent] at h
  split at h
  · rename_i first src dst amount htopics hamount
    have hlength : ∀ w ∈ topics.filterMap word, w.length = 32 := by
      intro w hw
      obtain ⟨j, -, hj⟩ := List.mem_filterMap.mp hw
      exact length_of_word hj
    rw [htopics] at hlength
    have hsrc : src.length = 32 := hlength src (by simp)
    have hdst : dst.length = 32 := hlength dst (by simp)
    have hlt : bigEndian amount < 256 ^ amount.length := BigEndian.value_lt amount
    rw [length_of_word hamount] at hlt
    have hne : ∀ b : Bytes, b.length = 32 → b.drop 12 ≠ [] := by
      intro b hb hnil
      have hlen := congrArg List.length hnil
      rw [List.length_drop, hb] at hlen
      exact absurd hlen (by decide)
    refine ⟨_, _, _, blobAddr_ne_empty (hne src hsrc), blobAddr_ne_empty (hne dst hdst), ?_,
      (Option.some.inj h).symm⟩
    calc bigEndian amount < 256 ^ 32 := hlt
      _ = 2 ^ 256 := by norm_num
  · exact absurd h nofun

attribute [local instance] Codec.transfers

/-- An address as a topic. -/
def addressTopic (address : Bytes) : Json := .str (blobHex (List.replicate 12 0 ++ address))

/-- The log of a transfer, as a node reports it. -/
def transferLog [Keccak] (token src dst amount : Bytes) : Json := .obj [
  ("address", .str (blobHex token)),
  ("topics", .arr [.str transferTopic, addressTopic src, addressTopic dst]),
  ("data", .str (blobHex amount))]

theorem word_blobHex {bytes : Bytes} (h : bytes.length = 32) :
    word (.str (blobHex bytes)) = some bytes := by
  rw [word, Json.asStr, Option.bind_some, blobHex, String.toList_ofList, without0x_cons,
    Hex.decode_encode, Option.filter_some, if_pos (decide_eq_true h)]

theorem registryEvent_transferTopic [Keccak] : registryEvent transferTopic = some transferEvent := by
  rw [registryEvent, transferTopic, keccakHex, blobHex, String.toList_ofList, without0x_cons,
    Hex.decode_encode, Option.filter_some, if_pos (decide_eq_true Vector.length_toList),
    Option.bind_some]
  exact if_pos rfl

theorem transferLog_decodable [Keccak] (token src dst amount : Bytes) :
    Decodable (transferLog token src dst amount) := by
  refine .inr (.inl ?_)
  rw [show firstTopic (transferLog token src dst amount) = transferTopic from rfl,
    registryEvent_transferTopic]
  rfl

theorem logTransfer_transferLog [Keccak] {token src dst amount : Bytes} (hsrc : src.length = 20)
    (hdst : dst.length = 20) (hamount : amount.length = 32) :
    logTransfer (transferLog token src dst amount) =
      some ⟨blobAddr token, blobAddr src, blobAddr dst, toString (bigEndian amount)⟩ := by
  have ht : isTransferLog (transferLog token src dst amount) = true := decide_eq_true rfl
  have hhash : transferHash.length = 32 := Vector.length_toList
  have hword : ∀ {a : Bytes}, a.length = 20 →
      word (addressTopic a) = some (List.replicate 12 0 ++ a) := by
    intro a ha
    refine word_blobHex ?_
    rw [List.length_append, List.length_replicate, ha]
  have hdrop : ∀ a : Bytes, (List.replicate 12 (0 : UInt8) ++ a).drop 12 = a := fun a => rfl
  have hparams : transferEvent.decodeLogParams
      [.str transferTopic, addressTopic src, addressTopic dst] (blobHex amount) =
        some [⟨"address", "from", blobAddr src, true⟩, ⟨"address", "to", blobAddr dst, true⟩,
          ⟨"uint256", "amount", toString (bigEndian amount), false⟩] := by
    have htopics : [.str transferTopic, addressTopic src, addressTopic dst].filterMap word =
        [transferHash, List.replicate 12 0 ++ src, List.replicate 12 0 ++ dst] := by
      have hfirst : word (.str transferTopic) = some transferHash := word_blobHex hhash
      simp only [List.filterMap_cons, List.filterMap_nil, hfirst, hword hsrc, hword hdst]
    simp only [transferEvent, htopics, word_blobHex hamount, hdrop]
  obtain ⟨decoded, hd, -, hp⟩ := exists_logEvent (transferLog token src dst amount) (.str transferTopic)
    [addressTopic src, addressTopic dst] rfl registryEvent_transferTopic
  have hdata : (transferLog token src dst amount).text "data" "0x" = blobHex amount := rfl
  rw [hdata, hparams, Option.getD_some] at hp
  have hne : ∀ {a : Bytes}, a.length = 20 → blobAddr a ≠ "" := by
    intro a ha
    refine blobAddr_ne_empty ?_
    rintro rfl
    exact absurd ha (by decide)
  obtain ⟨hfrom, hto, hvalue⟩ := param_of_params hp
  rw [logTransfer, if_pos ht, hd, Option.bind_some, hfrom, hto, hvalue]
  simp only [Option.getD_some]
  rw [if_neg]
  · rfl
  · simp [hne hsrc, hne hdst]

end Sample

end ChainExplorer
