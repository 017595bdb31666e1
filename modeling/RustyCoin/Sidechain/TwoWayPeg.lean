import RustyCoin.Consensus.UtxoSet
import RustyCoin.Lib.MinMax
import RustyCoin.Sidechain.FederationManager

/-!
# The two-way peg

Coins are locked on the main chain and minted on a sidechain, or burnt there and
unlocked here. A request is accepted on the signatures of the sidechain's
federation; the peg transaction made of it is pending, confirmed after enough
blocks and completed at last.

The signatures are checked over one message for all requests, and the
transactions that lock or burn the coins are not looked up. The identifier of a
new peg transaction is drawn at random and its timestamp is taken from the
clock: both are arguments here. The federation and the set of unspent outputs
are shared with other components, so they may be exchanged at any time.
-/

namespace RustyCoin.Sidechain

open Outcome

/-- The part of the integrator that validates signatures: a manager for each sidechain. -/
structure FederationIntegrator where
  federationManagers : HashMap Hash FederationManager

namespace FederationIntegrator

def getCurrentEpoch (self : FederationIntegrator) (sidechainId : Hash) : Option FederationEpoch :=
  (self.federationManagers.lookup sidechainId).bind fun manager =>
    manager.getCurrentEpoch sidechainId

def validateFederationSignature {K S : Type} (crypto : ThresholdCrypto K S)
    (self : FederationIntegrator) (sidechainId : Hash) (epoch : UInt64)
    (signature : FederationSignature) (message : Bytes) : Bool :=
  match self.federationManagers.lookup sidechainId with
  | some manager => manager.verifyThresholdSignature crypto sidechainId epoch signature message
  | none => false

end FederationIntegrator

def FederationEpoch.isThresholdMet (self : FederationEpoch) (signatureCount : UInt32) : Bool :=
  signatureCount ≥ self.threshold

structure PegInRequest where
  mainchainTxHash : Hash
  amount : UInt64
  sidechainRecipient : Bytes
  sidechainId : Hash
  mainchainConfirmHeight : UInt64
  merkleProof : List Hash
  federationSignatures : List FederationSignature

structure PegOutRequest where
  sidechainTxHash : Hash
  amount : UInt64
  mainchainRecipient : Bytes
  sidechainId : Hash
  sidechainConfirmHeight : UInt64
  merkleProof : List Hash
  federationSignatures : List FederationSignature

inductive PegTransactionStatus where
  | pending
  | confirmed
  | rejected
  | completed
  deriving DecidableEq

inductive PegTransactionType where
  | pegIn
  | pegOut
  deriving DecidableEq

structure PegTransaction where
  id : Hash
  txType : PegTransactionType
  status : PegTransactionStatus
  amount : UInt64
  sourceChain : Hash
  destinationChain : Hash
  recipient : Bytes
  confirmHeight : UInt64
  timestamp : UInt64
  crossChainTxId : Option Hash

/-- The main chain's identifier. -/
def mainchainId : Hash := .replicate 32 0

def PegInRequest.transaction (request : PegInRequest) (txId : Hash) (timestamp : UInt64) :
    PegTransaction where
  id := txId
  txType := .pegIn
  status := .pending
  amount := request.amount
  sourceChain := mainchainId
  destinationChain := request.sidechainId
  recipient := request.sidechainRecipient
  confirmHeight := request.mainchainConfirmHeight
  timestamp := timestamp
  crossChainTxId := none

def PegOutRequest.transaction (request : PegOutRequest) (txId : Hash) (timestamp : UInt64) :
    PegTransaction where
  id := txId
  txType := .pegOut
  status := .pending
  amount := request.amount
  sourceChain := request.sidechainId
  destinationChain := mainchainId
  recipient := request.mainchainRecipient
  confirmHeight := request.sidechainConfirmHeight
  timestamp := timestamp
  crossChainTxId := none

structure TwoWayPegManager where
  pendingTransactions : HashMap Hash PegTransaction
  completedTransactions : HashMap Hash PegTransaction
  federationManager : Option FederationIntegrator
  requiredConfirmations : UInt64
  mainchainUtxoSet : Option RustyCoin.UtxoSet

namespace TwoWayPegManager

def new (requiredConfirmations : UInt64) : TwoWayPegManager where
  pendingTransactions := ∅
  completedTransactions := ∅
  federationManager := none
  requiredConfirmations := requiredConfirmations
  mainchainUtxoSet := none

def withFederationManager (self : TwoWayPegManager) (federationManager : FederationIntegrator) :
    TwoWayPegManager :=
  { self with federationManager := some federationManager }

def withMainchainUtxoSet (self : TwoWayPegManager) (utxoSet : RustyCoin.UtxoSet) :
    TwoWayPegManager :=
  { self with mainchainUtxoSet := some utxoSet }

variable {K S : Type} (crypto : ThresholdCrypto K S) (self : TwoWayPegManager)

/-- The message over which the signatures of every request are checked. -/
def messageHash : Hash := .replicate 32 0

/-- The signature that names most signers must meet the current threshold. Each one is checked
against the epoch that it names. -/
def validateFederationSignatures (signatures : List FederationSignature) (sidechainId : Hash) :
    Outcome String Unit :=
  if signatures.isEmpty then fail "No federation signatures provided"
  else
    match self.federationManager with
    | none => .ok ()
    | some fedMgr => do
      let currentEpoch ←
        okOr (fedMgr.getCurrentEpoch sidechainId) "No current federation epoch found"
      let signerCount := (signatures.map FederationSignature.countSigners).max?.getD 0
      if ¬ currentEpoch.isThresholdMet signerCount then
        fail "Federation signature threshold not met"
      else
        forM signatures fun sig =>
          if ¬ fedMgr.validateFederationSignature crypto sidechainId sig.epoch sig
              messageHash.toList then
            fail "Invalid federation signature"
          else .ok ()

/-- The lock itself is not looked up. -/
def validateMainchainLockTransaction (_request : PegInRequest) : Outcome String Unit :=
  match self.mainchainUtxoSet with
  | none => fail "Mainchain UTXO set not available for validation"
  | some _ => .ok ()

/-- The burn is not looked up. -/
def validateSidechainBurnTransaction (_request : PegOutRequest) : Outcome String Unit :=
  .ok ()

variable (txId : Hash)

def insertPending (pegTx : PegTransaction) : TwoWayPegManager :=
  { self with pendingTransactions := self.pendingTransactions.insert txId pegTx }

def initiatePegIn (request : PegInRequest) (txId : Hash) (timestamp : UInt64) :
    Outcome String (Hash × TwoWayPegManager) := do
  self.validateFederationSignatures crypto request.federationSignatures request.sidechainId
  self.validateMainchainLockTransaction request
  return (txId, self.insertPending txId (request.transaction txId timestamp))

def initiatePegOut (request : PegOutRequest) (txId : Hash) (timestamp : UInt64) :
    Outcome String (Hash × TwoWayPegManager) := do
  self.validateFederationSignatures crypto request.federationSignatures request.sidechainId
  validateSidechainBurnTransaction request
  return (txId, self.insertPending txId (request.transaction txId timestamp))

def moveToCompleted (tx : PegTransaction) : TwoWayPegManager :=
  { self with
    completedTransactions :=
      self.completedTransactions.insert txId { tx with status := .confirmed }
    pendingTransactions := self.pendingTransactions.erase txId }

/-- The height that is asked for wraps around. -/
def confirmPegTransaction (currentHeight : UInt64) :
    Outcome String TwoWayPegManager := do
  let tx ← okOr (self.pendingTransactions.lookup txId) "Peg transaction not found"
  if currentHeight < tx.confirmHeight + self.requiredConfirmations then
    fail "Insufficient confirmations"
  else return self.moveToCompleted txId tx

def completePegTransaction : Outcome String TwoWayPegManager := do
  let tx ← okOr (self.completedTransactions.lookup txId) "Peg transaction not found"
  return { self with
    completedTransactions :=
      self.completedTransactions.insert txId { tx with status := .completed } }

def getPegTransaction : Option PegTransaction :=
  (self.pendingTransactions.lookup txId).or (self.completedTransactions.lookup txId)

variable {crypto self} {signatures : List FederationSignature} {sidechainId : Hash}

/-- A list of signatures passes: there is one, and if a federation is set, one of them names
enough signers for the current epoch and each is a valid one of the epoch that it names. -/
def SignaturesPass (crypto : ThresholdCrypto K S) (self : TwoWayPegManager)
    (signatures : List FederationSignature) (sidechainId : Hash) : Prop :=
  signatures ≠ [] ∧ ∀ fedMgr, self.federationManager = some fedMgr →
    ∃ manager currentEpoch, fedMgr.federationManagers.lookup sidechainId = some manager ∧
      manager.getCurrentEpoch sidechainId = some currentEpoch ∧
      (∃ sig ∈ signatures, currentEpoch.threshold ≤ sig.countSigners) ∧
      ∀ sig ∈ signatures, ∃ epoch, manager.getEpoch sidechainId sig.epoch = some epoch ∧
        verifyFederationSignatureWithPublicKeys crypto epoch.publicKeys sig messageHash.toList
          epoch.threshold = .ok ()

theorem validateFederationSignatures_eq_ok :
    self.validateFederationSignatures crypto signatures sidechainId = .ok () ↔
      SignaturesPass crypto self signatures sidechainId := by
  rw [validateFederationSignatures, ite_fail_eq_ok, List.isEmpty_iff]
  refine and_congr_right fun hsignatures => ?_
  cases self.federationManager with
  | none => exact iff_of_true rfl nofun
  | some fedMgr =>
    show (okOr _ _ >>= _) = _ ↔ _
    have hcounts : signatures.map FederationSignature.countSigners ≠ [] :=
      fun hnil => hsignatures (List.map_eq_nil_iff.mp hnil)
    constructor
    · rintro h _ ⟨⟩
      obtain ⟨currentEpoch, hcurrent, h⟩ := bind_eq_ok.mp h
      obtain ⟨manager, hmanager, hcurrent⟩ :=
        Option.bind_eq_some_iff.mp (okOr_eq_ok.mp hcurrent)
      obtain ⟨hmet, h⟩ := ite_fail_eq_ok.mp h
      have hmost := of_decide_eq_true (not_not.mp hmet)
      obtain ⟨_, hcount, hthreshold⟩ := (MinMax.le_max?_getD_iff hcounts _).mp hmost
      obtain ⟨sig, hsig, rfl⟩ := List.mem_map.mp hcount
      refine ⟨manager, currentEpoch, hmanager, hcurrent, ⟨sig, hsig, hthreshold⟩, ?_⟩
      intro sig hsig
      have hvalid := not_not.mp (ite_fail_eq_ok.mp (forM_eq_ok.mp h sig hsig)).1
      rw [FederationIntegrator.validateFederationSignature, hmanager] at hvalid
      exact FederationManager.verifyThresholdSignature_iff.mp hvalid
    · intro h
      obtain ⟨manager, currentEpoch, hmanager, hcurrent, ⟨sig, hsig, hthreshold⟩, hall⟩ :=
        h fedMgr rfl
      refine bind_eq_ok.mpr ⟨currentEpoch, okOr_eq_ok.mpr ?_, ite_fail_eq_ok.mpr ⟨?_, ?_⟩⟩
      · exact Option.bind_eq_some_iff.mpr ⟨manager, hmanager, hcurrent⟩
      · apply not_not.mpr (decide_eq_true _)
        apply (MinMax.le_max?_getD_iff hcounts _).mpr
        exact ⟨_, List.mem_map_of_mem hsig, hthreshold⟩
      · apply forM_eq_ok.mpr
        intro sig hsig
        refine ite_fail_eq_ok.mpr ⟨not_not.mpr ?_, rfl⟩
        rw [FederationIntegrator.validateFederationSignature, hmanager]
        exact FederationManager.verifyThresholdSignature_iff.mpr (hall sig hsig)

end TwoWayPegManager

end RustyCoin.Sidechain
