import ChainExplorer.Indexer.Assemble
import ChainExplorer.Lib.Fallible
import ChainExplorer.Memo
import ChainExplorer.Signatures
import ChainExplorer.TempoAddress
import ChainExplorer.Web.Phrases

/-!
# What a transaction did, in words

The sentence of each decoded log, and the one-line verdict at the top of a transaction page
(`summary.rs`, with the memos of `memo.rs` and the amounts of `tokens.rs`).

* `knownEvent`, `refine`: one log said in words, and what turns on its arguments.
* `buildSummary`, `failureSummary`: the verdict.
* **`buildSummary_fee`**: when the fee leads a success, and when it is named as what failed.
-/

namespace ChainExplorer

open Text

/-! ## Spelling -/

/-- What the summary needs to know about a token to spell an amount. -/
structure TokenDisplay where
  symbol : String
  decimals : ℤ
deriving DecidableEq, Repr

/-- Token metadata by lowercase address. -/
abbrev TokenDisplays := Keyed String TokenDisplay

def truncate (value : String) : Option String := truncateHash value 4 4

/-- A token amount with up to six significant decimal places. -/
def formatTokenAmount (amount : String) (decimals : ℤ) : String :=
  let amount := (Numeral.bigInt 10 amount.toList).getD 0
  if amount = 0 then "0"
  else
    let sign := if amount < 0 then "-" else ""
    let amount := amount.natAbs
    let decimals := (max 0 (min decimals 30)).toNat
    let divisor := 10 ^ decimals
    let integerPart := toString (amount / divisor)
    let frac := ((toString (amount % divisor)).toList.leftpad decimals '0').rdropWhile (· = '0')
    if frac.isEmpty then sign ++ integerPart
    else sign ++ integerPart ++ "." ++ String.ofList (frac.take 6)

/-- Address equality that ignores checksum casing. -/
def sameAddress (a b : String) : Bool := eqIgnoreAsciiCase a.toList b.toList

/-! ## Known events -/

/-- One log, said in words. -/
structure KnownEvent where
  kind : String
  /-- The verb phrase alone, for a failure headline. -/
  action : String
  /-- The whole sentence. -/
  headline : String
  note : Option String
  details : List (String × String)
  fromAddr : Option String
  toAddr : Option String
  accounts : List String
  /-- A transfer into the fee manager: the fee, not the payment. -/
  isFee : Bool
  logIndex : ℕ
deriving DecidableEq, Repr

/-- Whether an event is worth leading with: it is no bookkeeping. -/
def isPreferred (event : KnownEvent) : Bool :=
  match event.kind with
  | "key authorized" | "key revoked" | "nonce incremented" | "access key spend"
  | "multisig call" | "module call" => false
  | _ => true

/-- Funds from a deposit address are a forward, not a send. -/
def forwarded (src : String) (known : KnownEvent) : KnownEvent :=
  if isVirtual src then { known with action := "Forwarded" } else known

/-- **Adjust events whose meaning turns on an argument.** -/
def refine (known : KnownEvent) (event : DecodedEvent) (sender : Option String) : KnownEvent :=
  let flag (name : String) : Bool := event.param name = some "true"
  match known.kind with
  | "send" =>
    let src := known.fromAddr.getD ""
    let dst := known.toAddr.getD ""
    -- A transfer into the fee manager is the fee for this very transaction.
    if sameAddress dst feeManagerAddress && !sameAddress src zeroAddress then
      { known with kind := "fee transfer", action := "Pay Fee", isFee := true }
    else
      match (event.param "memo").elim .nothing readMemo with
      | .attribution => { known with action := "MPP Payment" }
      | .note note => forwarded src { known with note := some note }
      | .nothing => forwarded src known
  | "mint" =>
    let dst := (event.param "to").getD ""
    if sender.any fun sender => !sameAddress sender dst then
      { known with action := "Mint to Recipient" }
    else known
  | "role membership" =>
    if !flag "hasRole" then { known with kind := "revoke role", action := "Revoke Role" }
    else { known with kind := "grant role" }
  | "pause" =>
    if !flag "isPaused" then { known with kind := "unpause", action := "Resume Transfers" }
    else known
  | "blacklist updated" =>
    if !flag "restricted" then { known with action := "Remove From Blacklist" } else known
  | "whitelist updated" =>
    if !flag "allowed" then { known with action := "Remove From Whitelist" } else known
  | "order placed" =>
    let side := if flag "isBid" then "Buy" else "Sell"
    if flag "isFlipOrder" then
      { known with kind := "flip order placed", action := "Flip " ++ side }
    else { known with action := "Limit " ++ side }
  | "order flipped" =>
    let side := if flag "isBid" then "Buy" else "Sell"
    { known with action := "Flip Order to " ++ side }
  | _ => known

/-- The roles a word is matched against. -/
def knownRoles : List String :=
  ["DEFAULT_ADMIN_ROLE", "ISSUER_ROLE", "PAUSE_ROLE", "UNPAUSE_ROLE", "BURN_BLOCKED_ROLE"]

section Words

variable [Keccak] [Lowercase]

/-- What a role word says it is: the hash of a role's name. -/
def roleName (word : String) : Option String :=
  knownRoles.find? fun role => keccakHex (utf8 role) = Lowercase.toLowercase word

omit [Keccak] in
def tokenDisplay (tokens : TokenDisplays) (address : String) : Option TokenDisplay :=
  tokens.lookup (Lowercase.toLowercase address)

omit [Keccak] in
/-- An amount in the token's own units. Without metadata the raw integer stands. -/
def formatAmount (tokens : TokenDisplays) (token raw : String) : String :=
  match tokenDisplay tokens token with
  | some display =>
    let amount := formatTokenAmount raw display.decimals
    if display.symbol.isEmpty then amount else amount ++ " " ++ display.symbol
  | none => raw

/-- A piece of the sentence, or a panic; nothing when the log does not carry what it names. -/
def renderSlot (event : DecodedEvent) (tokens : TokenDisplays) : Slot → Option (Option String)
  | .word text => some (some text)
  | .amount name => some ((event.param name).map (formatAmount tokens event.contract))
  | .amountOf value token => some do
    let token ← event.param token
    let value ← event.param value
    return formatAmount tokens token value
  | .account name => (event.param name).mapM truncate
  | .token name => (event.param name).mapM fun address =>
    match tokenDisplay tokens address with
    | some display => if display.symbol.isEmpty then truncate address else some display.symbol
    | none => truncate address
  | .value name => some (event.param name)
  | .hex name => (event.param name).mapM truncate
  | .role name => (event.param name).mapM fun word => (roleName word).elim (truncate word) some

/-- The address an account slot shows. -/
def slotAccount (event : DecodedEvent) : Slot → Option String
  | .account name => event.param name
  | _ => none

/-- **Say what one decoded log did**, or panic; nothing for a log with no phrasing. -/
def knownEvent (event : DecodedEvent) (logIndex : ℕ) (tokens : TokenDisplays)
    (sender : Option String) : Option (Option KnownEvent) :=
  match event.signature.bind phraseFor with
  | none => some none
  | some definition => do
    let details ← definition.notes.mapM fun n =>
      (renderSlot event tokens n.2).map fun text => text.map fun v => (n.1, v)
    let rest ← definition.slots.mapM (renderSlot event tokens)
    let known := refine
      { kind := definition.kind
        action := definition.action
        headline := ""
        note := none
        details := details.reduceOption.filter fun d => !d.2.isEmpty
        fromAddr := event.param "from"
        toAddr := event.param "to"
        accounts := definition.slots.filterMap (slotAccount event)
        isFee := false
        logIndex := logIndex } event sender
    return some { known with
      headline :=
        if rest.reduceOption.isEmpty then known.action
        else known.action ++ " " ++ " ".intercalate rest.reduceOption }

omit [Keccak] [Lowercase] in
/-- A memo transfer says one send twice; the second carries the note. -/
def restatedBy (event next : DecodedEvent) : Bool :=
  event.name = some "Transfer" && next.name = some "TransferWithMemo" &&
    event.contract = next.contract &&
    ["from", "to", "amount"].all fun param => event.param param = next.param param

/-- **Say what every log of a receipt did**, in receipt order, or panic. -/
def knownEvents (events : List DecodedEvent) (tokens : TokenDisplays) (sender : Option String) :
    Option (List KnownEvent) :=
  ((events.zipIdx.filter fun p => !(events[p.2 + 1]?).any fun next => restatedBy p.1 next).mapM
    fun p => knownEvent p.1 p.2 tokens sender).map List.reduceOption

end Words

/-! ## Reverts -/

/-- An error of the registry. -/
structure AbiError where
  name : String
  signature : String
  decodedParams : Bytes → List DecodedParam

/-- **The errors of the registry**, by their selector. -/
class ErrorCodec where
  errors : Bytes → Option AbiError

/-- A decoded revert. -/
structure DecodedError where
  name : String
  signature : String
  params : List DecodedParam
  selector : String
deriving DecidableEq, Repr

/-- The one-line form. -/
def DecodedError.callForm (d : DecodedError) : String :=
  d.name ++ "(" ++ ", ".intercalate (d.params.map DecodedParam.value) ++ ")"

/-- The message of a plain revert. -/
def DecodedError.reason (d : DecodedError) : Option String :=
  if d.name ≠ "Error" then none else d.params.head?.map DecodedParam.value

def decodeRevert [ErrorCodec] (data : String) : Option DecodedError := do
  let (selector, args) ← splitCalldata data
  let error ← ErrorCodec.errors selector
  return {
    name := error.name
    signature := error.signature
    params := error.decodedParams args
    selector := blobHex selector }

/-- The first hexadecimal of a text, if it holds a selector at least. -/
def revertDataIn (message : String) : Option String := do
  let blob ← message.toList.tails.find? fun s => ['0', 'x'].isPrefixOf s
  let hex := '0' :: 'x' :: (blob.drop 2).takeWhile fun c => (Hex.nibble? c).isSome
  if 10 ≤ hex.length then some (String.ofList hex) else none

/-! ## The verdict -/

/-- **The uppercase of a character**, in the whole of Unicode. -/
class Uppercase where
  toUppercase : Char → List Char

/-- The one-line verdict at the top of a transaction page. -/
structure TxSummary where
  tone : String
  headline : String
  accounts : List String
  details : List String
  error : Option String
  rawReason : Option String
deriving DecidableEq, Repr

/-- What is known about why a transaction failed. -/
structure TxFailure where
  revertData : Option String
  reason : Option String
  function : Option String
  contract : Option String
  token : Option String
deriving DecidableEq, Repr

/-- Nothing is. -/
def TxFailure.unknown : TxFailure := ⟨none, none, none, none, none⟩

def sentenceCase [Uppercase] (value : String) : String :=
  match value.toList with
  | [] => ""
  | c :: cs => String.ofList (Uppercase.toUppercase c ++ cs)

/-- An identifier as words. -/
def humanizeIdentifier (value : String) : String :=
  let spaced := value.toList.zipIdx.flatMap fun p =>
    (if 0 < p.2 && p.1.isUpper then [' '] else []) ++
      [if p.1 = '_' || p.1 = '-' then ' ' else p.1.toLower]
  let out := " ".intercalate ((splitWhitespace spaced).map String.ofList)
  match stripPrefix "tip 20 ".toList out.toList with
  | some rest => "TIP-20 " ++ String.ofList rest
  | none => out

/-- Drop a start as often as it is there. -/
def trimStartMatches (start s : List Char) : List Char :=
  (fun s => (stripPrefix start s).getD s)^[s.length] s

/-- The node's message without its boilerplate, unless a hex blob is left. -/
def humanizeRawReason (value : String) : Option String :=
  let cleaned := trim (trimStartMatches [':'] (trimStartMatches "reverted".toList
    (trimStartMatches "execution reverted".toList (trim value.toList))))
  if cleaned.isEmpty || ['0', 'x'].isPrefixOf cleaned then none
  else some (String.ofList cleaned)

section Verdict

variable [Keccak] [Lowercase]

omit [Keccak] in
/-- An error that says a balance was insufficient. -/
def tellsBalance (decoded : Option DecodedError) (rawReason : Option String) : Bool :=
  let name := (decoded.map DecodedError.name).getD ""
  let text := Lowercase.toLowercase (name ++ " " ++ rawReason.getD "")
  decide ("insufficient".toList <:+: text.toList) && decide ("balance".toList <:+: text.toList)

/-- The one failure worth spelling out in full. -/
def insufficientBalanceSummary (decoded : Option DecodedError) (failure : TxFailure)
    (tokens : TokenDisplays) (rawReason : Option String) : Option TxSummary :=
  if !tellsBalance decoded rawReason then none
  else
    let params := (decoded.map DecodedError.params).getD []
    -- The token argument is more reliable than the address the call was aimed at.
    let token := ((params.find? fun p =>
      p.ty = "address" && isValidAddress p.value.toList).map DecodedParam.value).or
        (failure.token.map checksumAddress)
    let label :=
      match token.bind (tokenDisplay tokens) with
      | some display =>
        if display.symbol.isEmpty then "TIP-20 balance" else display.symbol ++ " balance"
      | none => if token.isSome then "TIP-20 balance" else "token balance"
    let numbers := params.filter fun p => "uint".toList.isPrefixOf p.ty.toList
    let spell (p : DecodedParam) := formatAmount tokens (token.getD "") p.value
    let amounts :=
      match numbers.reverse with
      | required :: available :: _ =>
        " Available " ++ spell available ++ ", required " ++ spell required ++ "."
      | _ => ""
    some {
      tone := "failure"
      headline := "Transfer failed: insufficient " ++ label ++ "." ++ amounts
      accounts := []
      details := (failure.contract.map fun c => "Failed at " ++ c ++ ".").toList ++
        (rawReason.map fun raw => "Raw reason: " ++ raw).toList
      error := some ("insufficient " ++ label)
      rawReason := rawReason }

variable [ErrorCodec]

omit [Keccak] [Lowercase] in
/-- The revert of a failure: its own data, or what its message holds. -/
def failureDecoded (failure : TxFailure) : Option DecodedError :=
  (failure.revertData.or (failure.reason.bind revertDataIn)).bind decodeRevert

omit [Keccak] [Lowercase] in
/-- The node's own message, or the revert in one line. -/
def failureRawReason (failure : TxFailure) : Option String :=
  failure.reason.or ((failureDecoded failure).map DecodedError.callForm)

variable [Uppercase]

omit [Keccak] [Lowercase] [ErrorCodec] in
/-- What a failure is named after: the function that failed, or the first event worth leading with. -/
def failureAction (failure : TxFailure) (events : List KnownEvent) : String :=
  ((failure.function.map fun f => sentenceCase f ++ " failed").or
    ((events.find? isPreferred).map fun e => e.action ++ " failed")).getD "Transaction failed"

/-- **The summary of a failed transaction.** -/
def failureSummary (failure : TxFailure) (events : List KnownEvent) (tokens : TokenDisplays) :
    TxSummary :=
  let decoded := failureDecoded failure
  let rawReason := failureRawReason failure
  match insufficientBalanceSummary decoded failure tokens rawReason with
  | some summary => summary
  | none =>
    let error := (decoded.map fun d => d.reason.getD (humanizeIdentifier d.name)).or
      (failure.reason.bind humanizeRawReason)
    let failedAt :=
      match failure.contract, failure.function with
      | some contract, some function => ["Failed call: " ++ contract ++ "." ++ function ++ "()."]
      | some contract, none => ["Failed contract: " ++ contract ++ "."]
      | none, _ => []
    let revert := (decoded.filter fun d => d.reason.isNone && !d.params.isEmpty).map fun d =>
      "Revert: " ++ d.callForm
    let raw := (rawReason.filter fun r => some r ≠ error).map fun r => "Raw reason: " ++ r
    { tone := "failure"
      headline := failureAction failure events ++ "."
      accounts := []
      details := failedAt ++ revert.toList ++ raw.toList
      error := error
      rawReason := rawReason }

omit [Keccak] [Lowercase] [ErrorCodec] [Uppercase] in
/-- What events are weighed by: bookkeeping last, then the fee. -/
def leadKey (e : KnownEvent) : Bool ×ₗ Bool := toLex (!isPreferred e, e.isFee)

/-- **The summary of a transaction.** -/
def buildSummary (succeeded : Bool) (events : List KnownEvent) (failure : Option TxFailure)
    (tokens : TokenDisplays) : TxSummary :=
  if !succeeded then failureSummary (failure.getD .unknown) events tokens
  else
    match events.argmin leadKey with
    | none =>
      { tone := "success"
        headline := "Transaction succeeded."
        accounts := []
        details := ["No high-level events were detected for this transaction."]
        error := none
        rawReason := none }
    | some event =>
      let interpreted := events.length
      { tone := "success"
        headline := event.headline ++ "."
        accounts := event.accounts
        details := [toString interpreted ++ " interpreted event" ++
          (if interpreted = 1 then "" else "s") ++ " detected."]
        error := none
        rawReason := none }

end Verdict

/-! ## What a known event says -/

/-- An action that does not open as the fee does. -/
def OtherAction (action : String) : Prop :=
  3 ≤ action.toList.length ∧ action.toList.take 3 ≠ ['P', 'a', 'y']

instance (action : String) : Decidable (OtherAction action) := by
  unfold OtherAction
  infer_instance

/-- **What a known event says**: the fee has a kind and an action of its own, and the sentence opens
with the action. -/
structure KnownEvent.Phrased (e : KnownEvent) : Prop where
  fee : e.isFee = true → e.kind = "fee transfer" ∧ e.action = "Pay Fee"
  other : e.isFee = false → OtherAction e.action

theorem KnownEvent.Phrased.of_other {e : KnownEvent} (hfee : e.isFee = false)
    (h : OtherAction e.action) : e.Phrased :=
  ⟨fun hf => absurd (hfee.symm.trans hf) Bool.false_ne_true, fun _ => h⟩

theorem forwarded_phrased {src : String} {known : KnownEvent} (hfee : known.isFee = false)
    (h : OtherAction known.action) : (forwarded src known).Phrased := by
  unfold forwarded
  split_ifs
  · exact .of_other hfee (by dsimp only; decide)
  · exact .of_other hfee h

theorem refine_phrased {known : KnownEvent} {event : DecodedEvent} {sender : Option String}
    (hfee : known.isFee = false) (h : OtherAction known.action) :
    (refine known event sender).Phrased := by
  unfold refine
  simp only
  split
  · split_ifs
    · exact ⟨fun _ => ⟨rfl, rfl⟩, fun hf => absurd hf nofun⟩
    · split
      · exact .of_other hfee (by dsimp only; decide)
      · exact forwarded_phrased hfee h
      · exact forwarded_phrased hfee h
  all_goals try split_ifs
  all_goals first
    | exact .of_other hfee h
    | exact .of_other hfee (by dsimp only; decide)

section Words

variable [Keccak] [Lowercase]

/-- A log said in words. -/
def Said (e : KnownEvent) : Prop :=
  ∃ event logIndex tokens sender, knownEvent event logIndex tokens sender = some (some e)

theorem knownEvent_phrased {e : KnownEvent} (h : Said e) :
    e.Phrased ∧ ∃ rest, e.headline = e.action ++ rest := by
  obtain ⟨event, logIndex, tokens, sender, h⟩ := h
  unfold knownEvent at h
  cases hdef : event.signature.bind phraseFor with
  | none =>
    rw [hdef] at h
    exact absurd (Option.some.inj h) nofun
  | some definition =>
    simp only [hdef] at h
    obtain ⟨_, _, hphrase⟩ := Option.bind_eq_some_iff.mp hdef
    have haction : OtherAction definition.action :=
      phrases_action definition (List.mem_of_find?_eq_some hphrase)
    obtain ⟨details, -, h⟩ := Option.bind_eq_some_iff.mp h
    obtain ⟨rest, -, h⟩ := Option.bind_eq_some_iff.mp h
    generalize hknown : refine _ event sender = known at h
    have hphrased : known.Phrased := by
      rw [← hknown]
      exact refine_phrased rfl haction
    rw [← Option.some.inj (Option.some.inj h)]
    refine ⟨⟨hphrased.fee, hphrased.other⟩, ?_⟩
    simp only
    split_ifs
    · exact ⟨"", (String.append_empty).symm⟩
    · exact ⟨_, String.append_assoc⟩

theorem said_of_mem_knownEvents {events : List DecodedEvent} {tokens : TokenDisplays}
    {sender : Option String} {known : List KnownEvent}
    (h : knownEvents events tokens sender = some known) {e : KnownEvent} (he : e ∈ known) :
    Said e := by
  obtain ⟨all, hall, rfl⟩ := Option.map_eq_some_iff.mp h
  obtain ⟨p, -, hp⟩ := (Fallible.mem_of_mapM hall _).mp (List.reduceOption_mem_iff.mp he)
  exact ⟨p.1, p.2, tokens, sender, hp⟩

end Words

/-! ## What leads -/

/-- Where some members are below all others, and no two of them differ, the least member is the
first of them. -/
theorem argmin_eq_find? {α κ : Type} [LinearOrder κ] {f : α → κ} {p : α → Bool} {l : List α}
    (hlt : ∀ a b, p a = true → p b = false → f a < f b)
    (hle : ∀ a b, p a = true → p b = true → f a ≤ f b) (h : ∃ a ∈ l, p a = true) :
    l.argmin f = l.find? p := by
  induction l with
  | nil =>
    obtain ⟨a, ha, -⟩ := h
    exact absurd ha List.not_mem_nil
  | cons a l ih =>
    rw [List.argmin_cons, List.find?_cons]
    cases ha : p a with
    | true =>
      cases List.argmin f l with
      | none => rfl
      | some c =>
        have hnot : ¬f c < f a := by
          cases hc : p c with
          | true => exact not_lt.mpr (hle a c ha hc)
          | false => exact not_lt.mpr (hlt a c ha hc).le
        simp only [if_neg hnot]
    | false =>
      have htail : ∃ b ∈ l, p b = true := by
        obtain ⟨b, hb, hpb⟩ := h
        rcases List.mem_cons.mp hb with rfl | hb
        · exact absurd (ha.symm.trans hpb) Bool.false_ne_true
        · exact ⟨b, hb, hpb⟩
      rw [ih htail]
      cases hfind : l.find? p with
      | none =>
        obtain ⟨b, hb, hpb⟩ := htail
        exact absurd hpb (by simpa using List.find?_eq_none.mp hfind b hb)
      | some c => simp only [if_pos (hlt c a (List.find?_some hfind) ha)]

/-- An event worth leading with that is not the fee. -/
def isPoint (e : KnownEvent) : Bool := isPreferred e && !e.isFee

theorem leadKey_lt {a b : KnownEvent} (ha : isPoint a = true) (hb : isPoint b = false) :
    leadKey a < leadKey b := by
  unfold isPoint at ha hb
  unfold leadKey
  revert ha hb
  cases isPreferred a <;> cases a.isFee <;> cases isPreferred b <;> cases b.isFee <;> decide

theorem leadKey_le {a b : KnownEvent} (ha : isPoint a = true) (hb : isPoint b = true) :
    leadKey a ≤ leadKey b := by
  unfold isPoint at ha hb
  unfold leadKey
  revert ha hb
  cases isPreferred a <;> cases a.isFee <;> cases isPreferred b <;> cases b.isFee <;> decide

theorem leadKey_fee_lt {a b : KnownEvent} (ha : isPreferred a = true) (hb : isPreferred b = false) :
    leadKey a < leadKey b := by
  unfold leadKey
  rw [ha, hb]
  cases a.isFee <;> cases b.isFee <;> decide

theorem failureAction_unknown [Uppercase] {failure : TxFailure} (hfunction : failure.function = none)
    (events : List KnownEvent) :
    failureAction failure events =
      (events.find? isPreferred).elim "Transaction failed" fun e => e.action ++ " failed" := by
  rw [failureAction, hfunction, Option.map_none, Option.none_or]
  cases events.find? isPreferred <;> rfl

/-- **The headline is that of an event other than the fee**, the first worth leading with if one
is. -/
def LedByOther (events : List KnownEvent) (headline : String) : Prop :=
  ∃ e ∈ events, e.isFee = false ∧ headline = e.headline ++ "." ∧
    ((∃ p ∈ events, isPoint p = true) → events.find? isPoint = some e)

section Verdict

variable [Keccak] [Lowercase]

theorem isPreferred_of_fee {e : KnownEvent} (h : Said e) (hfee : e.isFee = true) :
    isPreferred e = true := by
  rw [isPreferred, ((knownEvent_phrased h).1.fee hfee).1]
  rfl

theorem headline_ne {e f : KnownEvent} (he : Said e) (hf : Said f) (hother : e.isFee = false)
    (hfee : f.isFee = true) : e.headline ++ "." ≠ f.headline ++ "." := by
  intro heq
  obtain ⟨hphrased, rest, hrest⟩ := knownEvent_phrased he
  obtain ⟨hphrased', rest', hrest'⟩ := knownEvent_phrased hf
  obtain ⟨hlength, hopens⟩ := hphrased.other hother
  have htake := congrArg (fun s : String => s.toList.take 3) heq
  simp only [hrest, hrest', (hphrased'.fee hfee).2, String.toList_append, List.append_assoc] at htake
  rw [List.take_append_of_le_length hlength] at htake
  exact hopens htake

variable [ErrorCodec] [Uppercase]

theorem buildSummary_headline {events : List KnownEvent} {e : KnownEvent}
    (h : events.argmin leadKey = some e) (failure : Option TxFailure) (tokens : TokenDisplays) :
    (buildSummary true events failure tokens).headline = e.headline ++ "." := by
  simp only [buildSummary, Bool.not_true, Bool.false_eq_true, if_false, h]

theorem ledByOther_iff {events : List KnownEvent} (hsaid : ∀ e ∈ events, Said e)
    (hother : ∃ e ∈ events, e.isFee = false) (failure : Option TxFailure) (tokens : TokenDisplays) :
    LedByOther events (buildSummary true events failure tokens).headline ↔
      (∃ e ∈ events, isPoint e = true) ∨ ∀ e ∈ events, e.isFee = false := by
  obtain ⟨least, hleast⟩ : ∃ e, events.argmin leadKey = some e := by
    cases hmin : events.argmin leadKey with
    | some e => exact ⟨e, rfl⟩
    | none =>
      obtain ⟨e, he, -⟩ := hother
      rw [List.argmin_eq_none.mp hmin] at he
      exact absurd he List.not_mem_nil
  have hmem : least ∈ events := List.argmin_mem hleast
  rw [buildSummary_headline hleast]
  by_cases hpoint : ∃ e ∈ events, isPoint e = true
  · have hfind : events.find? isPoint = some least := by
      rw [← hleast]
      exact (argmin_eq_find? (fun _ _ => leadKey_lt) (fun _ _ => leadKey_le) hpoint).symm
    have hleastPoint := List.find?_some hfind
    have hfee : least.isFee = false := by
      simp only [isPoint, Bool.and_eq_true, Bool.not_eq_true'] at hleastPoint
      exact hleastPoint.2
    exact iff_of_true ⟨least, hmem, hfee, rfl, fun _ => hfind⟩ (.inl hpoint)
  · rw [or_iff_right hpoint]
    constructor
    · -- Beside a fee, only bookkeeping is left, and the fee comes before it.
      rintro ⟨e, he, hefee, hheadline, -⟩ f hf
      by_contra hffee
      have hffee : f.isFee = true := by simpa using hffee
      have hleastFee : least.isFee = true := by
        by_contra hne
        have hne : least.isFee = false := by simpa using hne
        have hbook : isPreferred least = false := by
          by_contra hpref
          refine hpoint ⟨least, hmem, ?_⟩
          rw [isPoint, hne, eq_true_of_ne_false hpref]
          rfl
        have hlt := leadKey_fee_lt (isPreferred_of_fee (hsaid f hf) hffee) hbook
        exact List.not_lt_of_mem_argmin hf hleast hlt
      exact headline_ne (hsaid e he) (hsaid least hmem) hefee hleastFee hheadline.symm
    · intro hall
      exact ⟨least, hmem, hall least hmem, rfl, fun h => absurd h hpoint⟩

/-- **The fee is not named as what failed** where the balance is, or the first event worth leading
with is another. -/
theorem failure_iff {events : List KnownEvent} (hsaid : ∀ e ∈ events, Said e) {failure : TxFailure}
    (hfunction : failure.function = none) (tokens : TokenDisplays) :
    (∀ e ∈ events, e.isFee = true →
        (failureSummary failure events tokens).headline ≠ e.action ++ " failed.") ↔
      tellsBalance (failureDecoded failure) (failureRawReason failure) = true ∨
        ∀ e, events.find? isPreferred = some e → e.isFee = false := by
  have hfailed : ∀ a : String, a ++ " failed" ++ "." = a ++ " failed." := by
    intro a
    rw [String.append_assoc]
    rfl
  cases htells : tellsBalance (failureDecoded failure) (failureRawReason failure) with
  | true =>
    refine iff_of_true (fun e he hfee heq => ?_) (.inl rfl)
    rw [((knownEvent_phrased (hsaid e he)).1.fee hfee).2] at heq
    have hhead := congrArg (fun s : String => s.toList.head?) heq
    simp only [failureSummary, insufficientBalanceSummary, htells, Bool.not_true, Bool.false_eq_true,
      if_false, String.toList_append] at hhead
    exact absurd hhead (by simp)
  | false =>
    have hnone : insufficientBalanceSummary (failureDecoded failure) failure tokens
        (failureRawReason failure) = none := by
      rw [insufficientBalanceSummary, htells]
      rfl
    have hheadline : (failureSummary failure events tokens).headline =
        failureAction failure events ++ "." := by
      simp only [failureSummary, hnone]
    rw [hheadline, failureAction_unknown hfunction, or_iff_right Bool.false_ne_true]
    cases hfind : events.find? isPreferred with
    | none =>
      refine iff_of_true (fun e he hfee heq => ?_) (fun e he => absurd he nofun)
      rw [((knownEvent_phrased (hsaid e he)).1.fee hfee).2] at heq
      exact absurd heq (by decide)
    | some first =>
      have hmem := List.mem_of_find?_eq_some hfind
      rw [Option.elim_some, hfailed]
      constructor
      · intro h e he
        obtain rfl := Option.some.inj he
        by_contra hfee
        exact h first hmem (by simpa using hfee) rfl
      · intro h e he hfee heq
        have hother := (knownEvent_phrased (hsaid first hmem)).1.other (h first rfl)
        rw [((knownEvent_phrased (hsaid e he)).1.fee hfee).2] at heq
        have hsame : first.action = "Pay Fee" := String.append_left_inj _ |>.mp heq
        exact hother.2 (by rw [hsame]; rfl)

/-- **When the fee leads**: a success whose other events are all bookkeeping, and a failure of no
known function whose first event worth leading with it is. -/
theorem buildSummary_fee {events : List KnownEvent} (hsaid : ∀ e ∈ events, Said e)
    (tokens : TokenDisplays) :
    ((∃ e ∈ events, e.isFee = false) → ∀ failure : Option TxFailure,
      (LedByOther events (buildSummary true events failure tokens).headline ↔
        (∃ e ∈ events, isPoint e = true) ∨ ∀ e ∈ events, e.isFee = false)) ∧
    ∀ failure : Option TxFailure, (failure.getD .unknown).function = none →
      ((∀ e ∈ events, e.isFee = true →
          (buildSummary false events failure tokens).headline ≠ e.action ++ " failed.") ↔
        tellsBalance (failureDecoded (failure.getD .unknown))
            (failureRawReason (failure.getD .unknown)) = true ∨
          ∀ e, events.find? isPreferred = some e → e.isFee = false) :=
  ⟨fun hother failure => ledByOther_iff hsaid hother failure tokens,
    fun _ hfunction => failure_iff hsaid hfunction tokens⟩

end Verdict

/-! ## A send, a nonce bump and a fee -/

section Sample

attribute [local instance] Keccak.sponge Lowercase.plain

/-- A registry without errors, and the uppercase of ASCII. -/
@[reducible] def ErrorCodec.empty : ErrorCodec := ⟨fun _ => none⟩
@[reducible] def Uppercase.plain : Uppercase := ⟨fun c => [c.toUpper]⟩

attribute [local instance] ErrorCodec.empty Uppercase.plain

/-- A transfer of 5 between two addresses, as it decodes. -/
def decodedTransfer (dst : String) : DecodedEvent where
  name := some "Transfer"
  signature := some "Transfer(address,address,uint256)"
  contract := "0x20c0000000000000000000000000000000000000"
  params := [⟨"address", "from", "0x2222222222222222222222222222222222222222", true⟩,
    ⟨"address", "to", dst, true⟩, ⟨"uint256", "amount", "5", false⟩]
  topic0 := "0xddf252ad1be2c89b69c2b068fc378daa952ba7f163c4a11628f55a4df523b3ef"
  logIndex := none
  transactionHash := none

/-- A nonce that moved, as it decodes. -/
def decodedBump : DecodedEvent where
  name := some "NonceIncremented"
  signature := some "NonceIncremented(address,uint256,uint64)"
  contract := "0x4e4f4e4345000000000000000000000000000000"
  params := [⟨"address", "account", "0x2222222222222222222222222222222222222222", true⟩,
    ⟨"uint256", "nonceKey", "1", true⟩, ⟨"uint64", "newNonce", "2", false⟩]
  topic0 := ""
  logIndex := none
  transactionHash := none

def feeThenSend : List DecodedEvent :=
  [decodedTransfer feeManagerAddress, decodedTransfer "0x1111111111111111111111111111111111111111"]

/-- The send leads, though the fee came first. -/
theorem buildSummary_fee_send : ∃ events, knownEvents feeThenSend ∅ none = some events ∧
    LedByOther events (buildSummary true events none ∅).headline := by
  obtain ⟨events, hevents, e, he, hp⟩ : ∃ events ∈ knownEvents feeThenSend ∅ none,
      ∃ e ∈ events, isPoint e = true := by decide +kernel
  have hother : e.isFee = false := by
    simp only [isPoint, Bool.and_eq_true, Bool.not_eq_true'] at hp
    exact hp.2
  refine ⟨events, hevents, ?_⟩
  exact ((buildSummary_fee (fun e => said_of_mem_knownEvents hevents) ∅).1 ⟨e, he, hother⟩ none).mpr
    (.inl ⟨e, he, hp⟩)

/-- **The fee leads a success** beside a nonce bump, and a failure whose call is unknown. -/
theorem buildSummary_fee_leads :
    (∃ events, knownEvents [decodedBump, decodedTransfer feeManagerAddress] ∅ none = some events ∧
      (∃ e ∈ events, e.isFee = false) ∧
      ¬LedByOther events (buildSummary true events none ∅).headline) ∧
    ∃ events, knownEvents feeThenSend ∅ none = some events ∧
      (buildSummary false events none ∅).headline = "Pay Fee failed." := by
  constructor
  · obtain ⟨events, hevents, hother, hall⟩ :
        ∃ events ∈ knownEvents [decodedBump, decodedTransfer feeManagerAddress] ∅ none,
          (∃ e ∈ events, e.isFee = false) ∧ ∀ e ∈ events, e.isFee = false →
            (buildSummary true events none ∅).headline ≠ e.headline ++ "." := by
      decide +kernel
    refine ⟨events, hevents, hother, ?_⟩
    rintro ⟨e, he, hbook, hheadline, -⟩
    exact hall e he hbook hheadline
  · have hpaid : ∃ events ∈ knownEvents feeThenSend ∅ none,
        (buildSummary false events none ∅).headline = "Pay Fee failed." := by decide +kernel
    exact hpaid

end Sample

end ChainExplorer
