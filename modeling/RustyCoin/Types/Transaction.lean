import Mathlib.Data.Vector.Basic
import RustyCoin.Lib.HashMap

/-!
# Transactions, blocks and masternodes

The data types of `rusty-shared-types`, with the accessors that give every kind
of transaction its inputs, outputs, lock time and fee. Byte arrays of a fixed
length are vectors, so that a hash of another length cannot be written down.
-/

namespace RustyCoin

abbrev Bytes : Type := List UInt8

/-- The little-endian value of a byte string. -/
def leValue : Bytes → Nat
  | [] => 0
  | b :: bs => b.toNat + 256 * leValue bs

/-- The `n` low bytes of a number, least significant first. -/
def leBytes : Nat → Nat → Bytes
  | 0, _ => []
  | n + 1, value => UInt8.ofNat value :: leBytes n (value / 256)

@[simp] theorem leValue_leBytes (n value : Nat) : leValue (leBytes n value) = value % 256 ^ n := by
  induction n generalizing value with
  | zero => simp [leValue, leBytes, Nat.mod_one]
  | succ n ih =>
    have hpow : 256 ^ (n + 1) = 256 * 256 ^ n := by rw [Nat.pow_succ, Nat.mul_comm]
    rw [leBytes, leValue, ih, UInt8.toNat_ofNat', hpow, Nat.mod_mul]

@[simp] theorem length_leBytes (n value : Nat) : (leBytes n value).length = n := by
  induction n generalizing value with
  | zero => rfl
  | succ n ih => exact congrArg (· + 1) (ih _)

theorem leValue_lt (bs : Bytes) : leValue bs < 256 ^ bs.length := by
  induction bs with
  | nil => exact Nat.one_pos
  | cons b bs ih =>
    have hb : b.toNat < 256 := b.toNat_lt
    rw [leValue, List.length_cons, Nat.pow_succ]
    omega

/-- `[u8; 32]`: block hashes, transaction ids, public keys and ticket ids. -/
abbrev Hash : Type := List.Vector UInt8 32

abbrev PublicKey : Type := List.Vector UInt8 32

/-- The 64 bytes of an Ed25519 signature. -/
abbrev TransactionSignature : Type := List.Vector UInt8 64

abbrev TicketId : Type := Hash

structure OutPoint where
  txid : Hash
  vout : UInt32
  deriving DecidableEq

abbrev MasternodeID : Type := OutPoint

structure TxInput where
  prevOutHash : Hash
  prevOutIndex : UInt32
  previousOutput : OutPoint
  scriptSig : Bytes
  sequence : UInt32
  witness : List Bytes
  deriving DecidableEq

/-- The stored outpoint and the two raw fields it repeats are set together. -/
def TxInput.fromOutpoint (outpoint : OutPoint) (scriptSig : Bytes) (sequence : UInt32)
    (witness : List Bytes) : TxInput where
  prevOutHash := outpoint.txid
  prevOutIndex := outpoint.vout
  previousOutput := outpoint
  scriptSig := scriptSig
  sequence := sequence
  witness := witness

structure TxOutput where
  value : UInt64
  scriptPubkey : Bytes
  memo : Option Bytes
  deriving DecidableEq

/-- An unspent output together with where it came from. -/
structure Utxo where
  output : TxOutput
  isCoinbase : Bool
  creationHeight : UInt64
  deriving DecidableEq

/-- The identity a registration transaction carries. -/
structure MasternodeIdentity where
  collateralOutpoint : OutPoint
  operatorPublicKey : Bytes
  networkAddress : String
  collateralOwnershipPublicKey : Bytes
  dkgPublicKey : Option Bytes
  supportedDkgVersions : List UInt32
  deriving DecidableEq

inductive ProposalType where
  | protocolUpgrade
  | parameterChange
  | treasurySpend
  | bugFix
  | communityFund
  deriving DecidableEq

structure GovernanceProposal where
  proposalId : Hash
  proposerAddress : PublicKey
  proposalType : ProposalType
  startBlockHeight : UInt64
  endBlockHeight : UInt64
  title : String
  descriptionHash : Hash
  codeChangeHash : Option Hash
  targetParameter : Option String
  newValue : Option String
  bugDescription : Option String
  recipientAddress : Option PublicKey
  amount : Option UInt64
  projectDescription : Option String
  proposerSignature : TransactionSignature
  inputs : List TxInput
  outputs : List TxOutput
  lockTime : UInt32
  witness : List Bytes
  fee : UInt64
  deriving DecidableEq

inductive VoterType where
  | posTicket
  | masternode
  deriving DecidableEq

inductive VoteChoice where
  | yes
  | no
  | abstain
  deriving DecidableEq

structure GovernanceVote where
  proposalId : Hash
  voterType : VoterType
  voterId : PublicKey
  voteChoice : VoteChoice
  voterSignature : TransactionSignature
  inputs : List TxInput
  outputs : List TxOutput
  lockTime : UInt32
  witness : List Bytes
  fee : UInt64
  deriving DecidableEq

structure ApprovalProof where
  totalVotingPower : UInt64
  yesVotes : UInt64
  noVotes : UInt64
  abstainVotes : UInt64
  approvalPercentageBp : UInt64
  requiredThresholdBp : UInt64
  votingEndHeight : UInt64
  votingStateHash : Hash
  deriving DecidableEq

inductive SlashingReason where
  | masternodeNonResponse
  | doubleSigning
  | invalidBlockProposal
  | invalidTransaction
  | governanceViolation
  deriving DecidableEq

structure MasternodeSlashTx where
  version : UInt32
  inputs : List TxInput
  outputs : List TxOutput
  masternodeId : MasternodeID
  reason : SlashingReason
  proof : Bytes
  lockTime : UInt32
  fee : UInt64
  witness : List Bytes
  deriving DecidableEq

/-- The proof of a masternode that does not respond. Only the masternode it is
about is looked at. -/
structure MasternodeNonParticipationProof where
  masternodeId : MasternodeID
  deriving DecidableEq

/-- The proof of a masternode that misbehaves. Only the masternode it is about is
looked at. -/
structure MasternodeMaliciousProof where
  masternodeId : MasternodeID
  deriving DecidableEq

structure WitnessSignature where
  masternodeId : MasternodeID
  signature : Bytes
  deriving DecidableEq

structure TicketNonParticipationProof where
  ticketId : Hash
  detectionBlockHeight : UInt64
  targetBlockHash : Hash
  selectionBlockHeight : UInt64
  selectionProof : Bytes
  witnessSignatures : List WitnessSignature
  deriving DecidableEq

inductive TicketMaliciousActionType where
  | doubleVoting
  | invalidVote
  | invalidSignature
  deriving DecidableEq

structure TicketMaliciousProof where
  ticketId : Hash
  detectionBlockHeight : UInt64
  maliciousActionType : TicketMaliciousActionType
  proofData : Bytes
  witnessSignatures : List WitnessSignature
  deriving DecidableEq

inductive Transaction where
  | standard (version : UInt32) (inputs : List TxInput) (outputs : List TxOutput)
      (lockTime : UInt32) (fee : UInt64) (witness : List Bytes)
  | coinbase (version : UInt32) (inputs : List TxInput) (outputs : List TxOutput)
      (lockTime : UInt32) (witness : List Bytes)
  | masternodeRegister (masternodeIdentity : MasternodeIdentity)
      (signature : TransactionSignature) (lockTime : UInt32) (inputs : List TxInput)
      (outputs : List TxOutput) (witness : List Bytes)
  | masternodeCollateral (version : UInt32) (inputs : List TxInput) (outputs : List TxOutput)
      (masternodeIdentity : MasternodeIdentity) (collateralAmount : UInt64)
      (lockTime : UInt32) (witness : List Bytes)
  | governanceProposal (proposal : GovernanceProposal)
  | governanceVote (vote : GovernanceVote)
  | activateProposal (version : UInt32) (proposalId : Hash) (activationBlockHeight : UInt64)
      (approvalProof : ApprovalProof) (activatorSignature : TransactionSignature)
      (inputs : List TxInput) (outputs : List TxOutput) (lockTime : UInt32)
      (witness : List Bytes)
  | ticketPurchase (version : UInt32) (inputs : List TxInput) (outputs : List TxOutput)
      (ticketId : Hash) (lockedAmount : UInt64) (lockTime : UInt32) (fee : UInt64)
      (ticketAddress : Bytes) (witness : List Bytes)
  | ticketRedemption (version : UInt32) (inputs : List TxInput) (outputs : List TxOutput)
      (ticketId : Hash) (lockTime : UInt32) (fee : UInt64) (witness : List Bytes)
  | masternodeSlashTx (tx : MasternodeSlashTx)
  | ticketSlashNonParticipation (version : UInt32) (inputs : List TxInput)
      (outputs : List TxOutput) (ticketId : Hash) (proof : TicketNonParticipationProof)
      (lockTime : UInt32) (fee : UInt64) (witness : List Bytes)
  | ticketSlashMalicious (version : UInt32) (inputs : List TxInput)
      (outputs : List TxOutput) (ticketId : Hash) (proof : TicketMaliciousProof)
      (lockTime : UInt32) (fee : UInt64) (witness : List Bytes)
  deriving DecidableEq

/-- Lock times below it are block heights, the others are timestamps. -/
def locktimeThreshold : UInt32 := 500000000

namespace Transaction

def getInputs : Transaction → List TxInput
  | .standard _ inputs _ _ _ _ => inputs
  | .coinbase _ inputs _ _ _ => inputs
  | .masternodeRegister _ _ _ inputs _ _ => inputs
  | .masternodeCollateral _ inputs _ _ _ _ _ => inputs
  | .activateProposal _ _ _ _ _ inputs _ _ _ => inputs
  | .ticketPurchase _ inputs _ _ _ _ _ _ _ => inputs
  | .ticketRedemption _ inputs _ _ _ _ _ => inputs
  | .ticketSlashNonParticipation _ inputs _ _ _ _ _ _ => inputs
  | .ticketSlashMalicious _ inputs _ _ _ _ _ _ => inputs
  | .governanceProposal proposal => proposal.inputs
  | .governanceVote vote => vote.inputs
  | .masternodeSlashTx tx => tx.inputs

def getOutputs : Transaction → List TxOutput
  | .standard _ _ outputs _ _ _ => outputs
  | .coinbase _ _ outputs _ _ => outputs
  | .masternodeRegister _ _ _ _ outputs _ => outputs
  | .masternodeCollateral _ _ outputs _ _ _ _ => outputs
  | .activateProposal _ _ _ _ _ _ outputs _ _ => outputs
  | .ticketPurchase _ _ outputs _ _ _ _ _ _ => outputs
  | .ticketRedemption _ _ outputs _ _ _ _ => outputs
  | .ticketSlashNonParticipation _ _ outputs _ _ _ _ _ => outputs
  | .ticketSlashMalicious _ _ outputs _ _ _ _ _ => outputs
  | .governanceProposal proposal => proposal.outputs
  | .governanceVote vote => vote.outputs
  | .masternodeSlashTx tx => tx.outputs

def getLockTime : Transaction → UInt32
  | .standard _ _ _ lockTime _ _ => lockTime
  | .coinbase _ _ _ lockTime _ => lockTime
  | .masternodeRegister _ _ lockTime _ _ _ => lockTime
  | .masternodeCollateral _ _ _ _ _ lockTime _ => lockTime
  | .activateProposal _ _ _ _ _ _ _ lockTime _ => lockTime
  | .ticketPurchase _ _ _ _ _ lockTime _ _ _ => lockTime
  | .ticketRedemption _ _ _ _ lockTime _ _ => lockTime
  | .ticketSlashNonParticipation _ _ _ _ _ lockTime _ _ => lockTime
  | .ticketSlashMalicious _ _ _ _ _ lockTime _ _ => lockTime
  | .governanceProposal proposal => proposal.lockTime
  | .governanceVote vote => vote.lockTime
  | .masternodeSlashTx tx => tx.lockTime

/-- Kinds without a fee field pay what their inputs exceed their outputs by. -/
def getFee : Transaction → UInt64
  | .standard _ _ _ _ fee _ => fee
  | .ticketPurchase _ _ _ _ _ _ fee _ _ => fee
  | .ticketRedemption _ _ _ _ _ fee _ => fee
  | .governanceProposal proposal => proposal.fee
  | .governanceVote vote => vote.fee
  | .masternodeSlashTx tx => tx.fee
  | .ticketSlashNonParticipation _ _ _ _ _ _ fee _ => fee
  | .ticketSlashMalicious _ _ _ _ _ _ fee _ => fee
  | .activateProposal .. => 0
  | .coinbase .. => 0
  | .masternodeRegister .. => 0
  | .masternodeCollateral .. => 0

/-- What `get_outputs_mut` is used for: the transaction with other outputs. -/
def setOutputs (tx : Transaction) (outputs : List TxOutput) : Transaction :=
  match tx with
  | .standard version inputs _ lockTime fee witness =>
    .standard version inputs outputs lockTime fee witness
  | .coinbase version inputs _ lockTime witness =>
    .coinbase version inputs outputs lockTime witness
  | .masternodeRegister identity signature lockTime inputs _ witness =>
    .masternodeRegister identity signature lockTime inputs outputs witness
  | .masternodeCollateral version inputs _ identity amount lockTime witness =>
    .masternodeCollateral version inputs outputs identity amount lockTime witness
  | .governanceProposal proposal => .governanceProposal { proposal with outputs := outputs }
  | .governanceVote vote => .governanceVote { vote with outputs := outputs }
  | .activateProposal version proposalId height proof signature inputs _ lockTime witness =>
    .activateProposal version proposalId height proof signature inputs outputs lockTime witness
  | .ticketPurchase version inputs _ ticketId amount lockTime fee address witness =>
    .ticketPurchase version inputs outputs ticketId amount lockTime fee address witness
  | .ticketRedemption version inputs _ ticketId lockTime fee witness =>
    .ticketRedemption version inputs outputs ticketId lockTime fee witness
  | .masternodeSlashTx slashTx => .masternodeSlashTx { slashTx with outputs := outputs }
  | .ticketSlashNonParticipation version inputs _ ticketId proof lockTime fee witness =>
    .ticketSlashNonParticipation version inputs outputs ticketId proof lockTime fee witness
  | .ticketSlashMalicious version inputs _ ticketId proof lockTime fee witness =>
    .ticketSlashMalicious version inputs outputs ticketId proof lockTime fee witness

def outputValues (tx : Transaction) : List UInt64 :=
  tx.getOutputs.map TxOutput.value

def isCoinbase : Transaction → Bool
  | .coinbase .. => true
  | _ => false

/-- Proposals and votes. -/
def isGovernance : Transaction → Bool
  | .governanceProposal _ => true
  | .governanceVote _ => true
  | _ => false

def isMasternodeSlash : Transaction → Bool
  | .masternodeSlashTx _ => true
  | _ => false

end Transaction

structure BlockHeader where
  version : UInt32
  height : UInt64
  previousBlockHash : Hash
  merkleRoot : Hash
  stateRoot : Hash
  timestamp : UInt64
  difficultyTarget : UInt32
  nonce : UInt64
  deriving DecidableEq

/-- Version 2 marks a proof-of-stake block. -/
def BlockHeader.isProofOfStake (header : BlockHeader) : Bool :=
  header.version == 2

structure TicketVote where
  ticketId : Hash
  blockHash : Hash
  vote : UInt8
  signature : TransactionSignature
  deriving DecidableEq

structure Block where
  header : BlockHeader
  ticketVotes : List TicketVote
  transactions : List Transaction
  deriving DecidableEq

/-- A ticket is pending until its purchase is final, then live. -/
inductive TicketStatus where
  | pending
  | live
  | voted
  | expired
  | revoked
  deriving DecidableEq

structure Ticket where
  id : TicketId
  pubkey : Bytes
  height : UInt64
  value : UInt64
  status : TicketStatus
  deriving DecidableEq

inductive MasternodeStatus where
  | registered
  | active
  | offline
  | probation
  | banned
  deriving DecidableEq

structure MasternodeEntry where
  identity : MasternodeIdentity
  status : MasternodeStatus
  lastSuccessfulPoseHeight : UInt32
  poseFailureCount : UInt32
  lastSlashedHeight : Option UInt32
  dkgParticipationCount : UInt32
  collateralAmount : UInt64
  deriving DecidableEq

structure MasternodeList where
  map : HashMap MasternodeID MasternodeEntry

namespace MasternodeList

def new : MasternodeList := ⟨∅⟩

/-- The entry of a masternode that has just registered. The amount of its
collateral is not looked up. -/
def registeredEntry (identity : MasternodeIdentity) (currentHeight : UInt32) : MasternodeEntry where
  identity := identity
  status := .registered
  lastSuccessfulPoseHeight := currentHeight
  poseFailureCount := 0
  lastSlashedHeight := none
  dkgParticipationCount := 0
  collateralAmount := 0

variable (self : MasternodeList)

/-- A masternode is known by the outpoint of its collateral. -/
def registerMasternode (identity : MasternodeIdentity)
    (currentHeight : UInt32) : Except String MasternodeList :=
  if (self.map.lookup identity.collateralOutpoint).isSome then
    .error "Masternode already registered"
  else
    .ok ⟨self.map.insert identity.collateralOutpoint (registeredEntry identity currentHeight)⟩

def getMasternode (mnId : MasternodeID) : Option MasternodeEntry :=
  self.map.lookup mnId

def updateMasternodeStatus (mnId : MasternodeID)
    (newStatus : MasternodeStatus) : Except String MasternodeList :=
  match self.map.lookup mnId with
  | none => .error "Masternode not found"
  | some entry => .ok ⟨self.map.insert mnId { entry with status := newStatus }⟩

/-- The first masternode of an iteration with this operator key. -/
def findByOperatorKey (operatorKey : Bytes) : Option (MasternodeID × MasternodeEntry) :=
  self.map.toPairs.find? fun (_, entry) => entry.identity.operatorPublicKey = operatorKey

def removeMasternode (mnId : MasternodeID) : Option MasternodeEntry × MasternodeList :=
  (self.map.lookup mnId, ⟨self.map.erase mnId⟩)

def countActiveMasternodes : Nat :=
  self.map.toPairs.countP fun (_, entry) => entry.status = .active

end MasternodeList

end RustyCoin
