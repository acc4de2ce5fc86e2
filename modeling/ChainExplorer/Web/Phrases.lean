import Mathlib.Data.List.Basic

/-!
# Phrases

How each event of the built-in interfaces reads (`summary.rs`).

* `Slot`, `Phrase`: the pieces of a sentence, and the sentence of an event.
* `phrases`: the table, by the signature of the event.
-/

namespace ChainExplorer

/-- One piece of a sentence. -/
inductive Slot
  /-- A literal connective. -/
  | word (text : String)
  /-- A quantity of the token that emitted the log. -/
  | amount (name : String)
  /-- A quantity of the token named by another parameter. -/
  | amountOf (value token : String)
  /-- An address, truncated. -/
  | account (name : String)
  /-- A token address, shown by symbol when one is known. -/
  | token (name : String)
  /-- Any parameter, as decoded. -/
  | value (name : String)
  /-- A hash or identifier, truncated. -/
  | hex (name : String)
  /-- A role, by name when it is one of the known ones. -/
  | role (name : String)
deriving DecidableEq, Repr

/-- How one event reads. `action` opens the sentence; the notes are shown under it. -/
structure Phrase where
  signature : String
  kind : String
  action : String
  slots : List Slot
  notes : List (String × Slot)
deriving DecidableEq, Repr

/-- Every event the built-in interfaces declare, and how it reads. -/
def phrases : List Phrase := [
  -- TIP-20
  ⟨"Transfer(address,address,uint256)", "send", "Send",
    [.amount "amount", .word "to", .account "to"], []⟩,
  ⟨"TransferWithMemo(address,address,uint256,bytes32)", "send", "Send",
    [.amount "amount", .word "to", .account "to"], []⟩,
  ⟨"Mint(address,uint256)", "mint", "Mint", [.amount "amount", .word "to", .account "to"], []⟩,
  ⟨"Burn(address,uint256)", "burn", "Burn", [.amount "amount", .word "from", .account "from"], []⟩,
  ⟨"BurnBlocked(address,uint256)", "burn blocked", "Burn Blocked",
    [.amount "amount", .word "from", .account "from"], []⟩,
  ⟨"Approval(address,address,uint256)", "approval", "Approve",
    [.amount "amount", .word "for spender", .account "spender"], []⟩,
  ⟨"RewardDistributed(address,uint256)", "reward distributed", "Distribute Reward",
    [.amount "amount", .word "from", .account "funder"], []⟩,
  ⟨"RewardRecipientSet(address,address)", "reward recipient set", "Set Reward Recipient",
    [.account "recipient", .word "for holder", .account "holder"], []⟩,
  ⟨"RoleMembershipUpdated(bytes32,address,address,bool)", "role membership", "Grant Role",
    [.role "role", .word "to", .account "account"], [("Sender", .account "sender")]⟩,
  ⟨"RoleAdminUpdated(bytes32,bytes32,address)", "role admin updated", "Update Role Admin",
    [.role "role", .word "to", .role "newAdminRole"], [("Sender", .account "sender")]⟩,
  ⟨"PauseStateUpdate(address,bool)", "pause", "Pause Transfers",
    [], [("Updater", .account "updater")]⟩,
  ⟨"SupplyCapUpdate(address,uint256)", "supply cap update", "Update Supply Cap",
    [], [("New", .amount "newSupplyCap"), ("Updater", .account "updater")]⟩,
  ⟨"TransferPolicyUpdate(address,uint64)", "transfer policy update", "Update Transfer Policy",
    [.word "to", .value "newPolicyId"], [("Updater", .account "updater")]⟩,
  ⟨"QuoteTokenUpdate(address,address)", "quote token update", "Update Quote Token",
    [.word "to", .token "newQuoteToken"], [("Updater", .account "updater")]⟩,
  ⟨"NextQuoteTokenSet(address,address)", "next quote token set", "Set Next Quote Token",
    [.word "to", .token "nextQuoteToken"], [("Updater", .account "updater")]⟩,
  ⟨"LogoURIUpdated(address,string)", "logo updated", "Update Logo",
    [], [("URI", .value "newLogoURI"), ("Updater", .account "updater")]⟩,
  -- TIP-20 factory
  ⟨"TokenCreated(address,string,string,string,address,address,bytes32)",
    "create token", "Create Token",
    [.value "symbol"],
    [("Name", .value "name"), ("Currency", .value "currency"), ("Admin", .account "admin")]⟩,
  -- TIP-403 registry
  ⟨"PolicyCreated(uint64,address,uint8)", "policy created", "Create Transfer Policy",
    [.value "policyId"], []⟩,
  ⟨"CompoundPolicyCreated(uint64,address,uint64,uint64,uint64)",
    "compound policy created", "Create Compound Policy",
    [.value "policyId"], []⟩,
  ⟨"PolicyAdminUpdated(uint64,address,address)", "policy admin updated", "Update Policy Admin",
    [.word "of policy", .value "policyId", .word "to", .account "admin"], []⟩,
  ⟨"BlacklistUpdated(uint64,address,address,bool)", "blacklist updated", "Blacklist",
    [.account "account", .word "under policy", .value "policyId"],
    [("Updater", .account "updater")]⟩,
  ⟨"WhitelistUpdated(uint64,address,address,bool)", "whitelist updated", "Whitelist",
    [.account "account", .word "under policy", .value "policyId"],
    [("Updater", .account "updater")]⟩,
  ⟨"ReceivePolicyUpdated(address,uint64,uint64,address)",
    "receive policy updated", "Update Receive Policy",
    [.word "for", .account "account"],
    [("Sender Policy", .value "senderPolicyId"), ("Token Filter", .value "tokenFilterId"),
      ("Recovery", .account "recoveryAuthority")]⟩,
  -- Receive policy guard
  ⟨"TransferBlocked(address,address,uint64,uint256,uint8,bytes)",
    "transfer blocked", "Transfer Blocked",
    [.amountOf "amount" "token", .word "to", .account "receiver"], []⟩,
  ⟨"ReceiptClaimed(address,address,uint64,uint64,uint8,address,address,address,address,address,uint256)",
    "receipt claimed", "Claim Blocked Transfer",
    [.amountOf "amount" "token", .word "to", .account "to"],
    [("Receiver", .account "receiver"), ("Originator", .account "originator")]⟩,
  ⟨"ReceiptBurned(address,address,uint64,uint64,uint8,address,address,address,address,uint256)",
    "receipt burned", "Burn Blocked Receipt",
    [.amountOf "amount" "token", .word "for", .account "receiver"],
    [("Originator", .account "originator")]⟩,
  -- Fee manager / fee AMM
  ⟨"FeesDistributed(address,address,uint256)", "fees distributed", "Distribute Fees",
    [.amountOf "amount" "token", .word "to validator", .account "validator"], []⟩,
  ⟨"UserTokenSet(address,address)", "user token set", "Set Fee Token",
    [.token "token", .word "for", .account "user"], []⟩,
  ⟨"ValidatorTokenSet(address,address)", "validator token set", "Set Validator Fee Token",
    [.token "token", .word "for", .account "validator"], []⟩,
  ⟨"Mint(address,address,address,address,uint256,uint256)", "add liquidity", "Add Fee Liquidity",
    [.amountOf "amountValidatorToken" "validatorToken", .word "for", .account "to"],
    [("Liquidity", .value "liquidity")]⟩,
  ⟨"Burn(address,address,address,uint256,uint256,uint256,address)",
    "remove liquidity", "Remove Fee Liquidity",
    [.amountOf "amountValidatorToken" "validatorToken", .word "to", .account "to"],
    [("Liquidity", .value "liquidity")]⟩,
  ⟨"RebalanceSwap(address,address,address,uint256,uint256)", "rebalance swap", "Rebalance",
    [.amountOf "amountIn" "userToken", .word "for", .amountOf "amountOut" "validatorToken"], []⟩,
  -- Stablecoin DEX
  ⟨"OrderPlaced(uint128,address,address,uint128,bool,int16,bool,int16)",
    "order placed", "Limit Buy",
    [.amountOf "amount" "token", .word "at tick", .value "tick"], [("Order", .value "orderId")]⟩,
  ⟨"OrderFilled(uint128,address,address,uint128,bool)", "order filled", "Fill Order",
    [.value "orderId"],
    [("Maker", .account "maker"), ("Taker", .account "taker"), ("Filled", .value "amountFilled")]⟩,
  ⟨"OrderFlipped(uint128,address,address,uint128,bool,int16,int16)", "order flipped", "Flip Order",
    [.value "orderId", .word "to tick", .value "flipTick"], [("Maker", .account "maker")]⟩,
  ⟨"OrderCancelled(uint128)", "order cancelled", "Cancel Order", [.value "orderId"], []⟩,
  ⟨"FlipFailed(uint128,address,bytes4)", "flip failed", "Order Flip Failed",
    [.value "orderId"], [("Reason", .hex "reason")]⟩,
  ⟨"PairCreated(bytes32,address,address)", "pair created", "Create Pair",
    [.token "base", .word "/", .token "quote"], []⟩,
  -- Account keychain
  ⟨"KeyAuthorized(address,address,uint8,uint64)", "key authorized", "Authorize Key",
    [.account "publicKey", .word "for", .account "account"], [("Expiry", .value "expiry")]⟩,
  ⟨"AdminKeyAuthorized(address,address)", "admin key authorized", "Authorize Admin Key",
    [.account "publicKey", .word "for", .account "account"], []⟩,
  ⟨"KeyRevoked(address,address)", "key revoked", "Revoke Key",
    [.account "publicKey", .word "for", .account "account"], []⟩,
  ⟨"KeyAuthorizationWitness(address,bytes32)", "key witness", "Record Key Witness",
    [.hex "witness"], []⟩,
  ⟨"KeyAuthorizationWitnessBurned(address,bytes32)", "key witness burned", "Burn Key Witness",
    [.hex "witness"], []⟩,
  ⟨"AccessKeySpend(address,address,address,uint256,uint256)",
    "access key spend", "Spend From Access Key",
    [.amountOf "amount" "token", .word "by", .account "publicKey"],
    [("Remaining", .amountOf "remainingLimit" "token")]⟩,
  ⟨"SpendingLimitUpdated(address,address,address,uint256)",
    "spending limit updated", "Update Spending Limit",
    [.word "for", .account "publicKey", .word "to", .amountOf "newLimit" "token"],
    [("Account", .account "account")]⟩,
  -- Nonce / address registry
  ⟨"NonceIncremented(address,uint256,uint64)", "nonce incremented", "Increment Nonce",
    [.word "for", .account "account"], [("New Nonce", .value "newNonce")]⟩,
  ⟨"MasterRegistered(bytes4,address)", "master registered", "Register Virtual Master",
    [.hex "masterId", .word "to", .account "masterAddress"], []⟩,
  -- Payment channels
  ⟨"ChannelOpened(bytes32,address,address,address,address,address,bytes32,bytes32,uint96)",
    "channel opened", "Open Payment Channel",
    [.amountOf "deposit" "token", .word "to", .account "payee"], [("Channel", .hex "channelId")]⟩,
  ⟨"Settled(bytes32,address,address,uint96,uint96,uint96)", "channel settled", "Settle Channel",
    [.value "deltaPaid", .word "to", .account "payee"], [("Channel", .hex "channelId")]⟩,
  ⟨"TopUp(bytes32,address,address,uint96,uint96)", "channel top up", "Top Up Channel",
    [.value "additionalDeposit"], [("Channel", .hex "channelId")]⟩,
  ⟨"CloseRequested(bytes32,address,address,uint256)",
    "channel close requested", "Request Channel Close",
    [], [("Channel", .hex "channelId")]⟩,
  ⟨"CloseRequestCancelled(bytes32,address,address)",
    "channel close cancelled", "Cancel Channel Close",
    [], [("Channel", .hex "channelId")]⟩,
  ⟨"ChannelClosed(bytes32,address,address,uint96,uint96)", "channel closed", "Close Channel",
    [.value "settledToPayee", .word "to", .account "payee"],
    [("Refunded", .value "refundedToPayer")]⟩,
  -- Validator config
  ⟨"ValidatorAdded(uint64,address,bytes32,string,string,address)",
    "validator added", "Add Validator",
    [.account "validatorAddress"], [("Index", .value "index")]⟩,
  ⟨"ValidatorDeactivated(uint64,address)", "validator deactivated", "Deactivate Validator",
    [.account "validatorAddress"], []⟩,
  ⟨"ValidatorMigrated(uint64,address,bytes32)", "validator migrated", "Migrate Validator",
    [.account "validatorAddress"], []⟩,
  ⟨"SkippedValidatorMigration(uint64,address,bytes32)",
    "validator migration skipped", "Skip Validator Migration",
    [.account "validatorAddress"], []⟩,
  ⟨"ValidatorRotated(uint64,uint64,address,bytes32,bytes32,string,string,address)",
    "validator rotated", "Rotate Validator",
    [.account "validatorAddress"], [("Index", .value "index")]⟩,
  ⟨"ValidatorOwnershipTransferred(uint64,address,address,address)",
    "validator ownership transferred", "Transfer Validator Ownership",
    [.account "oldAddress", .word "to", .account "newAddress"], []⟩,
  ⟨"FeeRecipientUpdated(uint64,address,address)", "fee recipient updated", "Update Fee Recipient",
    [.word "to", .account "feeRecipient"], []⟩,
  ⟨"IpAddressesUpdated(uint64,string,string,address)",
    "ip addresses updated", "Update Validator Addresses",
    [], [("Ingress", .value "ingress"), ("Egress", .value "egress")]⟩,
  ⟨"NetworkIdentityRotationEpochSet(uint64,uint64)", "rotation epoch set", "Set Rotation Epoch",
    [.word "to", .value "nextEpoch"], []⟩,
  ⟨"OwnershipTransferred(address,address)", "ownership transferred", "Transfer Ownership",
    [.word "to", .account "newOwner"], []⟩,
  ⟨"Upgraded(address)", "upgraded", "Upgrade", [.word "to", .account "implementation"], []⟩,
  ⟨"Initialized(uint64)", "initialized", "Initialize", [.word "at height", .value "height"], []⟩,
  -- CreateX / Permit2
  ⟨"ContractCreation(address)", "contract created", "Deploy Contract",
    [.account "newContract"], []⟩,
  ⟨"ContractCreation(address,bytes32)", "contract created", "Deploy Contract",
    [.account "newContract"], [("Salt", .hex "salt")]⟩,
  ⟨"Create3ProxyContractCreation(address,bytes32)", "proxy created", "Deploy CREATE3 Proxy",
    [.account "newContract"], [("Salt", .hex "salt")]⟩,
  ⟨"Approval(address,address,address,uint160,uint48)", "approval", "Approve",
    [.amountOf "amount" "token", .word "for spender", .account "spender"],
    [("Expires", .value "expiration")]⟩,
  ⟨"Permit(address,address,address,uint160,uint48,uint48)", "permit", "Permit",
    [.account "spender", .word "to spend", .amountOf "amount" "token"],
    [("Expires", .value "expiration")]⟩,
  ⟨"Lockdown(address,address,address)", "lockdown", "Revoke Approval",
    [.word "for", .account "spender", .word "on", .token "token"], []⟩,
  ⟨"NonceInvalidation(address,address,address,uint48,uint48)",
    "nonce invalidated", "Invalidate Nonce",
    [.word "to", .value "newNonce"], [("Spender", .account "spender")]⟩,
  ⟨"UnorderedNonceInvalidation(address,uint256,uint256)", "nonce invalidated", "Invalidate Nonces",
    [.word "in word", .value "word"], [("Owner", .account "owner")]⟩,
  -- Anchoring (0x…0a00)
  ⟨"AddRegistry(address,uint64,string)", "registry added", "Add Registry",
    [.value "name"], [("Registry", .value "registryId")]⟩,
  ⟨"AddRecord(address,uint64,uint64,uint64,string)", "record added", "Add Record",
    [.word "version", .value "index", .word "of", .value "checksum"],
    [("Registry", .value "registryId"), ("Record", .value "recordId")]⟩,
  ⟨"UpdateRecordStatus(address,uint64,uint64,uint64,string)",
    "record status updated", "Update Record Status",
    [.value "status", .word "on version", .value "index"],
    [("Registry", .value "registryId"), ("Record", .value "recordId")]⟩,
  ⟨"GrantRole(address,uint64,string,address,string)", "role granted", "Grant Role",
    [.value "role", .word "to", .account "account"],
    [("Registry", .value "registryId"), ("Record", .value "checksum")]⟩,
  ⟨"RevokeRole(address,uint64,string,address,string)", "role revoked", "Revoke Role",
    [.value "role", .word "from", .account "account"],
    [("Registry", .value "registryId"), ("Record", .value "checksum")]⟩,
  -- Zone factory (0x5AF2…)
  ⟨"ZoneCreated(uint32,address,address,bool,bool,address,address[],uint8,address)",
    "zone created", "Create Zone",
    [.value "zoneId", .word "at", .account "portal"],
    [("Admin", .account "admin"), ("Token", .token "initialToken")]⟩,
  -- Zone portal (0x5AD0… + zone id)
  ⟨"SequencerSetUpdated(uint64,uint8,address[])", "sequencer set updated", "Update Sequencer Set",
    [.word "with threshold", .value "threshold"], [("Nonce", .value "nonce")]⟩,
  ⟨"TokenEnabled(address,string,string,string)", "token enabled", "Enable Token",
    [.token "token"], []⟩,
  ⟨"RoleUpdated(address,uint8,uint8)", "role updated", "Update Role",
    [.word "for", .account "account"], [("From", .value "prev"), ("To", .value "next")]⟩,
  ⟨"EnforcementModesUpdated(bool,bool)", "enforcement modes updated", "Update Enforcement Modes",
    [], [("Access mode", .value "accessMode"), ("Gateway mode", .value "gatewayMode")]⟩,
  ⟨"LeaderUpdated(address,address,uint64,uint64)", "leader updated", "Update Leader",
    [.word "to", .account "newLeader"], [("Epoch", .value "leaderEpoch")]⟩,
  -- Safe
  ⟨"ProxyCreation(address,address)", "multisig deployed", "Deploy Multisig",
    [.account "proxy"], []⟩,
  ⟨"SafeSetup(address,address[],uint256,address,address)", "multisig set up", "Set Up Multisig",
    [.word "with threshold", .value "threshold"], []⟩,
  ⟨"SafeMultiSigTransaction(address,uint256,bytes,uint8,uint256,uint256,uint256,address,address,bytes,bytes)",
    "multisig call", "Multisig Call",
    [.word "to", .account "to"], []⟩,
  ⟨"SafeModuleTransaction(address,address,uint256,bytes,uint8)", "module call", "Module Call",
    [.word "to", .account "to"], []⟩,
  ⟨"ExecutionSuccess(bytes32,uint256)", "multisig executed", "Execute Multisig Transaction",
    [.hex "txHash"], []⟩,
  ⟨"ExecutionFailure(bytes32,uint256)", "multisig reverted", "Multisig Transaction Failed",
    [.hex "txHash"], []⟩,
  ⟨"ExecutionFromModuleSuccess(address)", "module executed", "Execute Module Transaction",
    [.word "from", .account "module"], []⟩,
  ⟨"ExecutionFromModuleFailure(address)", "module reverted", "Module Transaction Failed",
    [.word "from", .account "module"], []⟩,
  ⟨"ApproveHash(bytes32,address)", "hash approved", "Approve Hash",
    [.hex "approvedHash", .word "by", .account "owner"], []⟩,
  ⟨"SignMsg(bytes32)", "message signed", "Sign Message", [.hex "msgHash"], []⟩,
  ⟨"AddedOwner(address)", "owner added", "Add Owner", [.account "owner"], []⟩,
  ⟨"RemovedOwner(address)", "owner removed", "Remove Owner", [.account "owner"], []⟩,
  ⟨"ChangedThreshold(uint256)", "threshold changed", "Change Threshold",
    [.word "to", .value "threshold"], []⟩,
  ⟨"EnabledModule(address)", "module enabled", "Enable Module", [.account "module"], []⟩,
  ⟨"DisabledModule(address)", "module disabled", "Disable Module", [.account "module"], []⟩,
  ⟨"ChangedFallbackHandler(address)", "fallback handler changed", "Change Fallback Handler",
    [.word "to", .account "handler"], []⟩,
  ⟨"ChangedGuard(address)", "guard changed", "Change Guard", [.word "to", .account "guard"], []⟩,
  ⟨"SafeReceived(address,uint256)", "multisig funded", "Receive",
    [.word "from", .account "sender"], []⟩
]

/-- The phrase of a signature. -/
def phraseFor (signature : String) : Option Phrase :=
  phrases.find? fun p => p.signature = signature

/-- **No phrase opens as the fee does**: each action is at least three characters, other than the
first three of the fee's. -/
theorem phrases_action : ∀ p ∈ phrases,
    3 ≤ p.action.toList.length ∧ p.action.toList.take 3 ≠ ['P', 'a', 'y'] := by
  decide +kernel

end ChainExplorer
