import RustyCoin.RustyConsensus.ValidateTransaction

/-!
# Checks for the kinds of transactions

What `validate_transactions` asks of a transaction because of its kind: of
registrations and collaterals of masternodes, tickets, proposals, and the three
kinds of slashing. The amount that is slashed is computed with floating-point
numbers.
-/

namespace RustyCoin.RustyConsensus

open Outcome

/-- Numbers of type `f64` that are cut to integers. -/
class F64Cast (F : Type) extends F64 F where
  /-- `as u64`: the fraction is dropped, and the ends of the range are kept. -/
  castToU64 : F → UInt64

instance : F64Cast Rat where
  castToU64 a := UInt64.ofNat (min a.floor.toNat (2 ^ 64 - 1))

variable {F : Type} (context : ValidationContext F)

def maxCollateralScriptSize : Nat := 1000

def validateMasternodeCollateralScript (scriptPubkey : Bytes) : ConsensusResult Unit :=
  if scriptPubkey.isEmpty then fail (.invalidScript "Empty masternode collateral script")
  else if scriptPubkey.length > maxCollateralScriptSize then
    fail (.invalidScript "Masternode collateral script too large")
  else if scriptPubkey.any (· == 0xff) then
    fail (.invalidScript "Invalid opcode in masternode collateral script")
  else if isPayToPubkeyHash scriptPubkey then .ok ()
  else if isPayToScriptHash scriptPubkey then .ok ()
  else if scriptPubkey.length < 1000 then .ok ()
  else fail (.invalidScript "Unrecognized masternode collateral script pattern")

/-- The loop over the outputs of a registration: is one of them the collateral? -/
def findCollateral : List TxOutput → Bool → UInt64 → ConsensusResult Bool
  | [], found, _ => .ok found
  | output :: rest, found, totalOutputValue => do
    let isCollateral := output.value == context.params.masternodeCollateralAmount
    if isCollateral then validateMasternodeCollateralScript output.scriptPubkey else .ok ()
    let totalOutputValue ← okOr (WrappingSum.checkedAdd totalOutputValue output.value)
      (.invalidProof "Output value too large")
    findCollateral rest (found || isCollateral) totalOutputValue

def validateMasternodeRegistration (tx : Transaction) : ConsensusResult Unit :=
  match tx with
  | .masternodeRegister .. =>
    if tx.getInputs.isEmpty then
      fail (.masternodeError "Masternode registration transaction must have inputs")
    else do
      let foundCollateralOutput ← findCollateral context tx.getOutputs false 0
      if !foundCollateralOutput then
        fail (.masternodeError "Masternode registration transaction must have a collateral output")
      else .ok ()
  | _ => fail (.invalidTransactionType "Expected MasternodeRegister transaction")

/-- `MASTERNODE_COLLATERAL_AMOUNT` of `constants.rs` -/
def masternodeCollateralAmount : UInt64 := 10000

def validateMasternodeCollateral (outputs : List TxOutput) (collateralAmount : UInt64) :
    ConsensusResult Unit :=
  if collateralAmount ≠ masternodeCollateralAmount then
    fail (.collateralAmountMustBe masternodeCollateralAmount)
  else
    match outputs with
    | [output] =>
      if output.value ≠ collateralAmount then
        fail (.invalidTransactionType
          "Masternode collateral output value does not match collateral amount")
      else .ok ()
    | _ =>
      fail (.invalidTransactionType
        "Masternode collateral transaction must have exactly one output")

variable (pool : LiveTicketsPool)

def validateTicketPurchase (ticketId : TicketId) (lockedAmount : UInt64) (ticketAddress : Bytes)
    (outputs : List TxOutput) : ConsensusResult Unit := do
  let ticketOutput ← okOr outputs.head? .invalidTicketID
  if ticketOutput.value ≠ lockedAmount then
    fail (.invalidTransactionType "Ticket purchase output value does not match locked amount")
  else if ticketOutput.scriptPubkey ≠ ticketAddress then
    fail (.invalidTransactionType
      "Ticket purchase output script_pubkey does not match ticket address")
  else if (pool.getTicket ticketId).isSome then fail .duplicateTicketVote
  else .ok ()

/-- Only expired and revoked tickets can be redeemed. -/
def validateTicketRedemption (ticketId : TicketId) : ConsensusResult Unit := do
  let ticket ← okOr (pool.getTicket ticketId) .invalidTicketID
  match ticket.status with
  | .expired | .revoked => .ok ()
  | .live | .voted | .pending => fail .invalidTicketStatus

variable (height : UInt64)

/-- The characters that `str::trim` removes. -/
def isWhitespace (c : Char) : Bool :=
  let code := c.toNat
  (0x09 ≤ code && code ≤ 0x0d) || code == 0x20 || code == 0x85 || code == 0xa0 || code == 0x1680 ||
    (0x2000 ≤ code && code ≤ 0x200a) || code == 0x2028 || code == 0x2029 || code == 0x202f ||
      code == 0x205f || code == 0x3000

/-- A title is empty after `trim` if all of it is white space. -/
def validateGovernanceProposal (proposal : GovernanceProposal) : ConsensusResult Unit :=
  if proposal.title.toList.all isWhitespace then
    fail (.governanceError "Governance proposal must have a non-empty title")
  else if proposal.descriptionHash = .replicate 32 0 then
    fail (.governanceError "Governance proposal must have a valid description hash")
  else if proposal.endBlockHeight < proposal.startBlockHeight then
    fail (.governanceError "Governance proposal end_block_height must be >= start_block_height")
  else if proposal.startBlockHeight < height then
    fail (.governanceError "Governance proposal start_block_height must be >= current block height")
  else .ok ()

def validateActivation (activationBlockHeight : UInt64) : ConsensusResult Unit :=
  if activationBlockHeight ≤ height then
    fail (.governanceError "Proposal activation block height must be > current block height")
  else .ok ()

variable (ticketId : TicketId)

/-- `GRACE_PERIOD_BLOCKS` -/
def gracePeriodBlocks : UInt64 := 10

def validateTicketNonParticipationSlashing (proof : TicketNonParticipationProof)
    (currentHeight : UInt64) : Outcome PosSlashingError Unit :=
  if currentHeight < proof.detectionBlockHeight + gracePeriodBlocks then
    fail (.gracePeriodNotYetPassed currentHeight (proof.detectionBlockHeight + gracePeriodBlocks))
  else if proof.ticketId ≠ ticketId then fail (.invalidProof "Ticket ID mismatch")
  else if proof.selectionProof.isEmpty then fail (.invalidProof "Selection proof is empty")
  else if proof.witnessSignatures.isEmpty then fail (.invalidProof "No witness signatures provided")
  else if proof.targetBlockHash = .replicate 32 0 then
    fail (.invalidProof "Invalid target block hash")
  else .ok ()

/-- How much proof data an action needs, and what is said if there is less. -/
def requiredProofData : TicketMaliciousActionType → Nat × String
  | .doubleVoting => (128, "Insufficient proof data for double voting")
  | .invalidVote => (64, "Insufficient proof data for invalid vote")
  | .invalidSignature => (64, "Insufficient proof data for invalid signature")

/-- The height is not looked at. -/
def validateTicketMaliciousBehaviorSlashing (proof : TicketMaliciousProof) :
    Outcome PosSlashingError Unit :=
  if proof.ticketId ≠ ticketId then fail (.invalidProof "Ticket ID mismatch")
  else if proof.proofData.isEmpty then fail (.invalidProof "Proof data is empty")
  else if proof.witnessSignatures.isEmpty then fail (.invalidProof "No witness signatures provided")
  else
    let (required, message) := requiredProofData proof.maliciousActionType
    if proof.proofData.length < required then fail (.invalidProof message) else .ok ()

section

variable {F : Type} [F64Cast F] (context : ValidationContext F)

def maxSlashingProofSize : Nat := 4096

/-- `OP_RETURN` and the text `rust` -/
def burnScript : Bytes := [0x6a, 0x04, 0x72, 0x75, 0x73, 0x74]

/-- `MAX_POSE_FAILURES` -/
def maxPoseFailures : UInt32 := 3

/-- `MASTERNODE_COLLATERAL_AMOUNT` of `protocol_constants.rs` -/
def protocolCollateralAmount : UInt64 := 2600000000000

/-- `NON_PARTICIPATION_SLASH_PERCENTAGE` and `MALICIOUS_BEHAVIOR_SLASH_PERCENTAGE` -/
def slashPercentage : SlashingReason → F
  | .masternodeNonResponse => 0.05
  | _ => 1.0

def expectedSlashed (masternode : MasternodeEntry) (reason : SlashingReason) : UInt64 :=
  let collateralValue :=
    if masternode.collateralAmount > 0 then masternode.collateralAmount
    else protocolCollateralAmount
  F64Cast.castToU64 (F64.mul (F64.ofU64 collateralValue) (slashPercentage reason : F))

/-- `u64::abs_diff` -/
def absDiff (a b : UInt64) : UInt64 := if a < b then b - a else a - b

variable (slashTx : MasternodeSlashTx)

/-- Does the reason fit the masternode? -/
def validateSlashingReason (masternode : MasternodeEntry) : ConsensusResult Unit :=
  match slashTx.reason with
  | .masternodeNonResponse =>
    if masternode.poseFailureCount < maxPoseFailures then
      fail (.failureCountBelow masternode.poseFailureCount maxPoseFailures)
    else .ok ()
  | .doubleSigning | .invalidBlockProposal | .invalidTransaction | .governanceViolation =>
    if slashTx.proof.isEmpty then
      fail (.invalidSlashingTransaction "Malicious behavior slashing requires proof data")
    else .ok ()

def validateMasternodeSlash : ConsensusResult Unit :=
  if slashTx.proof.length > maxSlashingProofSize then
    fail (.invalidSlashingTransaction "Proof data too large")
  else
    match slashTx.inputs, slashTx.outputs with
    | [input], output :: _ =>
      if output.scriptPubkey ≠ burnScript then
        fail (.invalidSlashingTransaction "First output must be a burn output")
      else do
        let masternode ←
          okOr (context.masternodeList.getMasternode slashTx.masternodeId) .masternodeNotFound
        if input.previousOutput ≠ masternode.identity.collateralOutpoint then
          fail (.invalidSlashingTransaction
            "Slashing transaction input does not match masternode collateral")
        else do
          validateSlashingReason slashTx masternode
          let expected := expectedSlashed (F := F) masternode slashTx.reason
          if absDiff output.value expected > 1 then
            fail (.slashingAmountMismatch expected output.value)
          else .ok ()
    | [_], [] =>
      fail (.invalidSlashingTransaction "Slashing transaction must have at least one output")
    | _, _ =>
      fail (.invalidSlashingTransaction "Slashing transaction must have exactly one input")

end

section

variable {F : Type} [F64Cast F] (context : ValidationContext F) (height : UInt64)

def validateKind (tx : Transaction) : ConsensusResult Unit :=
  match tx with
  | .masternodeRegister .. => validateMasternodeRegistration context tx
  | .masternodeCollateral _ _ outputs _ collateralAmount _ _ =>
    validateMasternodeCollateral outputs collateralAmount
  | .ticketPurchase _ _ outputs ticketId lockedAmount _ _ ticketAddress _ =>
    validateTicketPurchase context.ticketVoting ticketId lockedAmount ticketAddress outputs
  | .ticketRedemption _ _ _ ticketId _ _ _ => validateTicketRedemption context.ticketVoting ticketId
  | .governanceProposal proposal => validateGovernanceProposal height proposal
  | .governanceVote _ => .ok ()
  | .activateProposal _ _ activationBlockHeight _ _ _ _ _ _ =>
    validateActivation height activationBlockHeight
  | .ticketSlashNonParticipation _ _ _ ticketId proof _ _ _ =>
    (validateTicketNonParticipationSlashing ticketId proof height).mapErr fun e =>
      .invalidSlashingTransaction e.display
  | .ticketSlashMalicious _ _ _ ticketId proof _ _ _ =>
    (validateTicketMaliciousBehaviorSlashing ticketId proof).mapErr fun e =>
      .invalidSlashingTransaction e.display
  | .masternodeSlashTx slashTx => validateMasternodeSlash context slashTx
  | .standard .. => .ok ()
  | .coinbase .. => .ok ()

theorem validateKind_of_coinbase {tx : Transaction} (hcoinbase : tx.isCoinbase = true) :
    validateKind context height tx = .ok () := by
  cases tx with
  | coinbase => rfl
  | _ => cases hcoinbase

end

end RustyCoin.RustyConsensus
