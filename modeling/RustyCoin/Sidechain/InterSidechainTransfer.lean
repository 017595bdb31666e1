import RustyCoin.Lib.WrappingSum
import RustyCoin.Sidechain.Types

/-!
# Transfers between sidechains

A transfer is initiated with a transaction that burns funds on one sidechain. It
waits for confirmations there, then for the main chain, and is completed with a
transaction that mints the funds on another sidechain. A transfer that is not
completed in time is moved to the completed ones as timed out.
-/

namespace RustyCoin.Sidechain

open Outcome Stateful

inductive InterSidechainStatus where
  | initiated
  | waitingSourceConfirmation (current required : UInt32)
  | waitingMainchainCoordination
  | waitingDestinationConfirmation (current required : UInt32)
  | completed
  | failed (reason : String)
  | timedOut
  deriving DecidableEq

/-- What `initiate_transfer` is asked with. -/
structure TransferRequest where
  sourceSidechainId : Hash
  destinationSidechainId : Hash
  /-- The transaction that burns the funds. -/
  sourceTx : SidechainTransaction
  amount : UInt64
  assetId : Hash
  recipientAddress : Bytes
  sourceBlockHeight : UInt64
  sourceProof : CrossChainProof
  sourceFederationSignatures : List FederationSignature

structure InterSidechainTransfer extends TransferRequest where
  transferId : Hash
  mainchainCoordinationTx : Option Hash
  destinationMintTx : Option SidechainTransaction
  destinationBlockHeight : Option UInt64
  destinationFederationSignatures : List FederationSignature
  status : InterSidechainStatus
  createdAt : UInt64
  timeoutAt : UInt64

structure InterSidechainTransferManager where
  activeTransfers : HashMap Hash InterSidechainTransfer
  completedTransfers : HashMap Hash InterSidechainTransfer
  minSourceConfirmations : UInt32
  minDestinationConfirmations : UInt32
  transferTimeoutBlocks : UInt64
  minTransferAmount : UInt64
  maxTransferAmount : UInt64

/-- The values of all outputs, of whatever asset, added up as `u64`. -/
def SidechainTransaction.totalOutputValue (tx : SidechainTransaction) : UInt64 :=
  (tx.outputs.map SidechainTxOutput.value).foldl (· + ·) 0

/-- The expected asset is not looked at. -/
def verifyBurnTransaction (tx : SidechainTransaction) (expectedAmount : UInt64)
    (_expectedAssetId : Hash) : Outcome String Unit :=
  if tx.outputs.isEmpty then fail "Burn transaction must have outputs"
  else if tx.totalOutputValue ≠ expectedAmount then
    fail ("Burn transaction output value " ++ toString tx.totalOutputValue.toNat ++
      " does not match expected " ++ toString expectedAmount.toNat)
  else .ok ()

/-- Some output has to go to the recipient; the expected asset is not looked at. -/
def verifyMintTransaction (tx : SidechainTransaction) (expectedAmount : UInt64)
    (_expectedAssetId : Hash) (expectedRecipient : Bytes) : Outcome String Unit :=
  if tx.outputs.isEmpty then fail "Mint transaction must have outputs"
  else if tx.totalOutputValue ≠ expectedAmount then
    fail ("Mint transaction output value " ++ toString tx.totalOutputValue.toNat ++
      " does not match expected " ++ toString expectedAmount.toNat)
  else if ¬ tx.outputs.any (fun o => o.scriptPubkey = expectedRecipient) then
    fail "Mint transaction does not match recipient address"
  else .ok ()

variable {tx : SidechainTransaction} {amount : UInt64} {assetId : Hash}

theorem verifyBurnTransaction_eq_ok :
    verifyBurnTransaction tx amount assetId = .ok () ↔
      tx.outputs ≠ [] ∧ tx.totalOutputValue = amount := by
  rw [verifyBurnTransaction, ite_fail_eq_ok, ite_fail_eq_ok, List.isEmpty_iff, not_not]
  exact and_congr_right fun _ => and_iff_left rfl

theorem verifyMintTransaction_eq_ok
    {recipient : Bytes} :
    verifyMintTransaction tx amount assetId recipient = .ok () ↔
      tx.outputs ≠ [] ∧ tx.totalOutputValue = amount ∧
        ∃ o ∈ tx.outputs, o.scriptPubkey = recipient := by
  rw [verifyMintTransaction, ite_fail_eq_ok, ite_fail_eq_ok, ite_fail_eq_ok, List.isEmpty_iff,
    not_not, not_not, List.any_eq_true]
  simp only [decide_eq_true_eq, and_true]

namespace InterSidechainTransfer

variable (self : InterSidechainTransfer)

/-- The count is cut to 32 bits. -/
def sourceConfirmations (currentHeight : UInt64) : UInt32 :=
  (saturatingSub currentHeight self.sourceBlockHeight).toUInt32

/-- The transfer after `update_source_confirmations`. -/
def confirmSource (currentHeight : UInt64) : Outcome String InterSidechainTransfer :=
  match self.status with
  | .waitingSourceConfirmation _ required =>
    let confirmations := self.sourceConfirmations currentHeight
    .ok { self with
      status :=
        if confirmations ≥ required then .waitingMainchainCoordination
        else .waitingSourceConfirmation confirmations required }
  | _ => fail "Transfer is not in waiting source confirmation state"

/-- The transfer after `set_mainchain_coordination`. -/
def coordinate (coordinationTxHash : Hash) (required : UInt32) :
    Outcome String InterSidechainTransfer :=
  match self.status with
  | .waitingMainchainCoordination =>
    .ok { self with
      mainchainCoordinationTx := some coordinationTxHash
      status := .waitingDestinationConfirmation 0 required }
  | _ => fail "Transfer is not in waiting mainchain coordination state"

def checkCompletion (destinationMintTx : SidechainTransaction) : Outcome String Unit :=
  match self.status with
  | .waitingDestinationConfirmation _ _ =>
    verifyMintTransaction destinationMintTx self.amount self.assetId self.recipientAddress
  | _ => fail "Transfer is not ready for completion"

def complete (destinationMintTx : SidechainTransaction)
    (destinationBlockHeight : UInt64) (signatures : List FederationSignature) :
    InterSidechainTransfer :=
  { self with
    destinationMintTx := some destinationMintTx
    destinationBlockHeight := some destinationBlockHeight
    destinationFederationSignatures := signatures
    status := .completed }

def expire (currentTime : UInt64) (self : InterSidechainTransfer) : InterSidechainTransfer :=
  if currentTime ≥ self.timeoutAt then { self with status := .timedOut } else self

/-- The federations of both sidechains have done their part but for the mint. -/
def AwaitsMint (self : InterSidechainTransfer) : Prop :=
  ∃ current required, self.status = .waitingDestinationConfirmation current required

theorem checkCompletion_eq_ok {self : InterSidechainTransfer} {mint : SidechainTransaction} :
    self.checkCompletion mint = .ok () ↔
      self.AwaitsMint ∧
        verifyMintTransaction mint self.amount self.assetId self.recipientAddress = .ok () := by
  rw [checkCompletion, AwaitsMint]
  cases self.status with
  | waitingDestinationConfirmation current required =>
    exact (and_iff_right ⟨current, required, rfl⟩).symm
  | initiated => simp
  | waitingSourceConfirmation current required => simp
  | waitingMainchainCoordination => simp
  | completed => simp
  | failed reason => simp
  | timedOut => simp

theorem confirmSource_of_enough {self : InterSidechainTransfer} {current required : UInt32}
    {height : UInt64} (hstatus : self.status = .waitingSourceConfirmation current required)
    (henough : required ≤ self.sourceConfirmations height) :
    self.confirmSource height = .ok { self with status := .waitingMainchainCoordination } := by
  rw [confirmSource, hstatus]
  simp only [ge_iff_le, henough, if_true]

variable {self next : InterSidechainTransfer}

theorem confirmSource_request {height : UInt64}
    (h : self.confirmSource height = .ok next) :
    next.toTransferRequest = self.toTransferRequest := by
  rw [confirmSource] at h
  split at h
  · cases h
    rfl
  · cases h

theorem coordinate_request {txHash : Hash} {required : UInt32}
    (h : self.coordinate txHash required = .ok next) :
    next.toTransferRequest = self.toTransferRequest := by
  rw [coordinate] at h
  split at h
  · cases h
    rfl
  · cases h

@[simp] theorem expire_request (self : InterSidechainTransfer) (currentTime : UInt64) :
    (self.expire currentTime).toTransferRequest = self.toTransferRequest := by
  rw [expire]
  split <;> rfl

end InterSidechainTransfer

namespace InterSidechainTransferManager

def new (minSourceConfirmations minDestinationConfirmations : UInt32)
    (transferTimeoutBlocks minTransferAmount maxTransferAmount : UInt64) :
    InterSidechainTransferManager where
  activeTransfers := ∅
  completedTransfers := ∅
  minSourceConfirmations := minSourceConfirmations
  minDestinationConfirmations := minDestinationConfirmations
  transferTimeoutBlocks := transferTimeoutBlocks
  minTransferAmount := minTransferAmount
  maxTransferAmount := maxTransferAmount

variable (codec : SidechainCodec) (env : Platform) (self : InterSidechainTransferManager)

def generateTransferId (sourceSidechainId destinationSidechainId : Hash)
    (sourceTx : SidechainTransaction) (amount : UInt64) : Hash :=
  env.blake3 (sourceSidechainId.toList ++ destinationSidechainId.toList ++
    codec.transaction sourceTx ++ leBytes 8 amount.toNat)

def transferIdOf (request : TransferRequest) : Hash :=
  generateTransferId codec env request.sourceSidechainId request.destinationSidechainId
    request.sourceTx request.amount

/-- The checks of `initiate_transfer` before the id is computed. -/
def validateTransfer (request : TransferRequest) : Outcome String Unit :=
  if request.amount < self.minTransferAmount then
    fail ("Transfer amount " ++ toString request.amount.toNat ++ " is below minimum " ++
      toString self.minTransferAmount.toNat)
  else if request.amount > self.maxTransferAmount then
    fail ("Transfer amount " ++ toString request.amount.toNat ++ " exceeds maximum " ++
      toString self.maxTransferAmount.toNat)
  else if request.recipientAddress.isEmpty then fail "Recipient address cannot be empty"
  else if request.sourceSidechainId = request.destinationSidechainId then
    fail "Source and destination sidechains must be different"
  else verifyBurnTransaction request.sourceTx request.amount request.assetId

/-- The record of a new transfer. The clock is read for its timeout and again for its creation;
a block is taken to last 150 seconds. -/
def createTransfer (request : TransferRequest)
    (transferId : Hash) (now createdAt : UInt64) : InterSidechainTransfer where
  toTransferRequest := request
  transferId := transferId
  mainchainCoordinationTx := none
  destinationMintTx := none
  destinationBlockHeight := none
  destinationFederationSignatures := []
  status := .waitingSourceConfirmation 0 self.minSourceConfirmations
  createdAt := createdAt
  timeoutAt := now + self.transferTimeoutBlocks * 150

def setActive (transferId : Hash)
    (transfer : InterSidechainTransfer) : InterSidechainTransferManager :=
  { self with activeTransfers := self.activeTransfers.insert transferId transfer }

def removeActive (transferId : Hash) : InterSidechainTransferManager :=
  { self with activeTransfers := self.activeTransfers.erase transferId }

def setCompleted (transferId : Hash)
    (transfer : InterSidechainTransfer) : InterSidechainTransferManager :=
  { self with completedTransfers := self.completedTransfers.insert transferId transfer }

/-- Only the active transfers are searched for a duplicate. -/
def initiateTransfer (request : TransferRequest) (now createdAt : UInt64) :
    Stateful String InterSidechainTransferManager Hash := do
  .read fun self => self.validateTransfer request
  let transferId := transferIdOf codec env request
  .read fun self =>
    if (self.activeTransfers.lookup transferId).isSome then fail "Transfer already exists"
    else .ok ()
  .modify fun self =>
    self.setActive transferId (self.createTransfer request transferId now createdAt)
  return transferId

def getActive (transferId : Hash) :
    Stateful String InterSidechainTransferManager InterSidechainTransfer :=
  .read fun self => okOr (self.activeTransfers.lookup transferId) "Transfer not found"

/-- Change an active transfer in its place. -/
def updateActive (transferId : Hash)
    (change : InterSidechainTransferManager → InterSidechainTransfer →
      Outcome String InterSidechainTransfer) :
    Stateful String InterSidechainTransferManager Unit := do
  let transfer ← getActive transferId
  let updated ← .read fun self => change self transfer
  .modify fun self => self.setActive transferId updated

def updateSourceConfirmations (transferId : Hash) (currentHeight : UInt64) :
    Stateful String InterSidechainTransferManager Unit :=
  updateActive transferId fun _ transfer => transfer.confirmSource currentHeight

def setMainchainCoordination (transferId coordinationTxHash : Hash) :
    Stateful String InterSidechainTransferManager Unit :=
  updateActive transferId fun self transfer =>
    transfer.coordinate coordinationTxHash self.minDestinationConfirmations

/-- The transfer is taken out of the active ones before it is checked. -/
def completeTransfer (transferId : Hash) (destinationMintTx : SidechainTransaction)
    (destinationBlockHeight : UInt64) (destinationFederationSignatures : List FederationSignature) :
    Stateful String InterSidechainTransferManager Unit := do
  let transfer ← getActive transferId
  .modify fun self => self.removeActive transferId
  .read fun _ => transfer.checkCompletion destinationMintTx
  .modify fun self => self.setCompleted transferId
    (transfer.complete destinationMintTx destinationBlockHeight destinationFederationSignatures)

def timedOutIds (currentTime : UInt64) : List Hash :=
  (self.activeTransfers.toPairs.filter fun entry => currentTime ≥ entry.2.timeoutAt).map Prod.fst

def moveToCompleted (transferId : Hash) : InterSidechainTransferManager :=
  match self.activeTransfers.lookup transferId with
  | none => self
  | some transfer => (self.removeActive transferId).setCompleted transferId transfer

def checkTimeouts (currentTime : UInt64) : List Hash × InterSidechainTransferManager :=
  let marked :=
    { self with
      activeTransfers :=
        self.activeTransfers.mapValues (InterSidechainTransfer.expire currentTime) }
  (self.timedOutIds currentTime, (self.timedOutIds currentTime).foldl moveToCompleted marked)

variable {codec env self} {next : InterSidechainTransferManager}

/-- What is asked of a transfer before it is recorded. -/
structure Admits (manager : InterSidechainTransferManager) (request : TransferRequest) :
    Prop where
  min_le : manager.minTransferAmount ≤ request.amount
  le_max : request.amount ≤ manager.maxTransferAmount
  recipient : request.recipientAddress ≠ []
  chains : request.sourceSidechainId ≠ request.destinationSidechainId
  outputs : request.sourceTx.outputs ≠ []
  burned : request.sourceTx.totalOutputValue = request.amount

variable {request : TransferRequest}

theorem validateTransfer_eq_ok : self.validateTransfer request = .ok () ↔ self.Admits request := by
  rw [validateTransfer, ite_fail_eq_ok, ite_fail_eq_ok, ite_fail_eq_ok, ite_fail_eq_ok,
    verifyBurnTransaction_eq_ok, List.isEmpty_iff, UInt64.not_lt, gt_iff_lt, UInt64.not_lt]
  constructor
  all_goals
    rintro ⟨hmin, hmax, hrecipient, hchains, houtputs, hburned⟩
    exact ⟨hmin, hmax, hrecipient, hchains, houtputs, hburned⟩

theorem initiateTransfer_eq_ok {now createdAt : UInt64} {id : Hash} :
    (initiateTransfer codec env request now createdAt).run self = (.ok id, next) ↔
      self.Admits request ∧ id = transferIdOf codec env request ∧
        self.activeTransfers.lookup id = none ∧
        next = self.setActive id (self.createTransfer request id now createdAt) := by
  rw [initiateTransfer, run_read_bind_eq_ok, Unique.exists_iff, validateTransfer_eq_ok,
    run_read_bind_eq_ok, Unique.exists_iff, ite_fail_eq_ok, and_iff_left rfl,
    Option.not_isSome_iff_eq_none, run_modify_bind, run_pure, Prod.mk.injEq,
    Except.ok.injEq]
  refine and_congr_right fun _ => ?_
  constructor
  · rintro ⟨hnew, rfl, rfl⟩
    exact ⟨rfl, hnew, rfl⟩
  · rintro ⟨rfl, hnew, rfl⟩
    exact ⟨hnew, rfl, rfl⟩

theorem updateActive_eq_ok {id : Hash}
    {change : InterSidechainTransferManager → InterSidechainTransfer →
      Outcome String InterSidechainTransfer} :
    (updateActive id change).run self = (.ok (), next) ↔
      ∃ transfer updated, self.activeTransfers.lookup id = some transfer ∧
        change self transfer = .ok updated ∧ next = self.setActive id updated := by
  rw [updateActive, getActive, run_read_bind_eq_ok]
  refine exists_congr fun transfer => ?_
  rw [okOr_eq_ok, run_read_bind_eq_ok]
  constructor
  · rintro ⟨hactive, updated, hupdated, ⟨⟩⟩
    exact ⟨updated, hactive, hupdated, rfl⟩
  · rintro ⟨updated, hactive, hupdated, rfl⟩
    exact ⟨hactive, updated, hupdated, rfl⟩

variable {id : Hash} {mint : SidechainTransaction} {height : UInt64}
  {signatures : List FederationSignature}

theorem completeTransfer_of_inactive (h : self.activeTransfers.lookup id = none) :
    (completeTransfer id mint height signatures).run self =
      (fail "Transfer not found", self) := by
  rw [completeTransfer]
  apply run_bind_of_error
  show (okOr (self.activeTransfers.lookup id) _, self) = _
  rw [h]
  rfl

/-- An active transfer leaves the active ones whatever the checks say. -/
theorem completeTransfer_of_active {transfer : InterSidechainTransfer}
    (h : self.activeTransfers.lookup id = some transfer) :
    (completeTransfer id mint height signatures).run self =
      match transfer.checkCompletion mint with
      | .ok () => (.ok (), (self.removeActive id).setCompleted id
          (transfer.complete mint height signatures))
      | .error e => (.error e, self.removeActive id) := by
  rw [completeTransfer, getActive, run_read_bind]
  simp only [h, okOr]
  rw [run_modify_bind, run_read_bind]
  cases transfer.checkCompletion mint with
  | error e => rfl
  | ok a => rfl

theorem completeTransfer_eq_ok :
    (completeTransfer id mint height signatures).run self = (.ok (), next) ↔
      ∃ transfer, self.activeTransfers.lookup id = some transfer ∧
        transfer.checkCompletion mint = .ok () ∧
        next = (self.removeActive id).setCompleted id
          (transfer.complete mint height signatures) := by
  cases hactive : self.activeTransfers.lookup id with
  | none =>
    rw [completeTransfer_of_inactive hactive]
    refine iff_of_false nofun ?_
    rintro ⟨_, ⟨⟩, -⟩
  | some transfer =>
    rw [completeTransfer_of_active hactive]
    cases hcheck : transfer.checkCompletion mint with
    | error e =>
      refine iff_of_false nofun ?_
      rintro ⟨_, ⟨⟩, hok, -⟩
      rw [hcheck] at hok
      cases hok
    | ok a =>
      constructor
      · rintro ⟨⟩
        exact ⟨transfer, rfl, hcheck, rfl⟩
      · rintro ⟨_, ⟨⟩, -, rfl⟩
        rfl

end InterSidechainTransferManager

end RustyCoin.Sidechain
