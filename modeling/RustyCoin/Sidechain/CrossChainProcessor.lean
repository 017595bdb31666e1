import RustyCoin.Sidechain.TwoWayPeg

/-!
# Processing of cross-chain transactions

Messages between chains are taken off a queue and checked. A cross-chain
transaction that they carry is validated and put into the pool of the message's
destination; the pool of a chain is executed later, and what fails is put back.

Decoding, the message queue and the main chain are other components. The main
chain answers each submission as it likes: `submitTransaction` is asked with the
number of submissions before.
-/

namespace RustyCoin.Sidechain

open Outcome

structure CrossChainTransaction where
  id : Hash
  amount : UInt64
  recipientAddress : Bytes
  sourceChain : Hash
  destinationChain : Hash
  federationSignatures : List FederationSignature

structure SidechainBlockHeader where
  height : UInt64
  sidechainId : Hash

inductive CrossChainMessageType where
  | mainchainBlockHeader
  | sidechainBlockHeader
  | crossChainTransaction
  | fraudProof
  | federationUpdate
  | stateSyncRequest
  | stateSyncResponse
  deriving DecidableEq

/-- The number of the variant, as `bincode` writes it. -/
def CrossChainMessageType.index : CrossChainMessageType → Nat
  | .mainchainBlockHeader => 0
  | .sidechainBlockHeader => 1
  | .crossChainTransaction => 2
  | .fraudProof => 3
  | .federationUpdate => 4
  | .stateSyncRequest => 5
  | .stateSyncResponse => 6

structure CrossChainMessage where
  messageType : CrossChainMessageType
  sourceChain : Hash
  destinationChain : Hash
  payload : Bytes
  sequenceNumber : UInt64
  timestamp : UInt64
  federationSignature : Option FederationSignature

/-- `bincode::deserialize` of the payloads, with the text of its error. -/
structure PayloadCodec where
  transaction : Bytes → Except String CrossChainTransaction
  blockHeader : Bytes → Except String BlockHeader
  sidechainBlockHeader : Bytes → Except String SidechainBlockHeader

namespace CrossChainMessage

def hash (env : Platform) (self : CrossChainMessage) : Hash :=
  env.blake3 (leBytes 4 self.messageType.index ++ self.sourceChain.toList ++
    self.destinationChain.toList ++ self.payload ++ leBytes 8 self.sequenceNumber.toNat ++
    leBytes 8 self.timestamp.toNat)

def deserializePayload {T : Type} (deserialize : Bytes → Except String T)
    (self : CrossChainMessage) : Outcome String T :=
  match deserialize self.payload with
  | .ok value => .ok value
  | .error e => fail ("Failed to deserialize payload: " ++ e)

end CrossChainMessage

structure CrossChainCommunication where
  pendingMessages : HashMap Hash (List CrossChainMessage)
  federationManager : Option FederationIntegrator

namespace CrossChainCommunication

/-- The messages for a chain, which are taken off the queue. -/
def receiveMessages (self : CrossChainCommunication) (chainId : Hash) :
    List CrossChainMessage × CrossChainCommunication :=
  ((self.pendingMessages.lookup chainId).getD [],
    { self with pendingMessages := self.pendingMessages.erase chainId })

def processMessage {K S : Type} (env : Platform) (crypto : ThresholdCrypto K S)
    (self : CrossChainCommunication) (message : CrossChainMessage) : Outcome String Unit := do
  match self.federationManager with
  | none => pure ()
  | some fedMgr =>
    match message.federationSignature with
    | none => fail "Missing federation signature on received message"
    | some sig =>
      if ¬ fedMgr.validateFederationSignature crypto message.sourceChain sig.epoch sig
          (message.hash env).toList then
        fail "Invalid federation signature on received message"
      else pure ()
  if message.sequenceNumber = 0 then fail "Invalid sequence number" else pure ()

end CrossChainCommunication

structure MainchainInterface where
  submissions : Nat
  submitTransaction : Nat → Transaction → Except String Hash
  getBlockHeight : UInt64
  getBlockHash : UInt64 → Option Hash
  validateTransaction : Hash → Bool

inductive CrossChainTxStatus where
  | received
  | validated
  | executed
  | failed
  | rejected
  deriving DecidableEq

inductive ProcessingResult where
  | transactionReceived (id : Hash)
  | blockHeaderProcessed (height : UInt64)
  | sidechainHeaderProcessed (sidechainId : Hash) (height : UInt64)
  | ignored
  | duplicate
  deriving DecidableEq

inductive ExecutionResult where
  | submittedToMainchain (id txHash : Hash)
  | queued (id : Hash)
  | failed (id : Hash) (e : String)
  deriving DecidableEq

structure CrossChainProcessor where
  communication : CrossChainCommunication
  txPools : HashMap Hash (List CrossChainTransaction)
  processedTxs : HashMap Hash CrossChainTxStatus
  mainchainInterface : Option MainchainInterface
  federationManager : FederationManager

namespace CrossChainProcessor

def new (communication : CrossChainCommunication) (federationManager : FederationManager) :
    CrossChainProcessor where
  communication := communication
  txPools := ∅
  processedTxs := ∅
  mainchainInterface := none
  federationManager := federationManager

variable {K S : Type} (env : Platform) (codec : PayloadCodec) (crypto : ThresholdCrypto K S)

variable (self : CrossChainProcessor)

variable (tx : CrossChainTransaction)

/-- Only what goes to the main chain is verified. -/
def validateFederationSignatures : Outcome String Unit :=
  if tx.federationSignatures.isEmpty then
    fail "Cross-chain transaction must have federation signatures"
  else if tx.destinationChain = mainchainId then
    forM tx.federationSignatures fun signature =>
      if ¬ self.federationManager.verifyThresholdSignature crypto tx.sourceChain signature.epoch
          signature tx.id.toList then
        fail ("Invalid federation signature for epoch " ++ toString signature.epoch.toNat ++
          " on sidechain " ++ ConsensusError.debugBytes tx.sourceChain.toList)
      else .ok ()
  else .ok ()

theorem validateFederationSignatures_eq_ok {crypto : ThresholdCrypto K S}
    {self : CrossChainProcessor} {tx : CrossChainTransaction} :
    self.validateFederationSignatures crypto tx = .ok () ↔
      tx.federationSignatures ≠ [] ∧ (tx.destinationChain = mainchainId →
        ∀ sig ∈ tx.federationSignatures, ∃ epoch,
          self.federationManager.getEpoch tx.sourceChain sig.epoch = some epoch ∧
          verifyFederationSignatureWithPublicKeys crypto epoch.publicKeys sig tx.id.toList
            epoch.threshold = .ok ()) := by
  rw [validateFederationSignatures, ite_fail_eq_ok, List.isEmpty_iff]
  refine and_congr_right fun _ => ?_
  split
  · rename_i hdestination
    rw [forM_eq_ok]
    constructor
    · intro hall _ sig hsig
      have hvalid := not_not.mp (ite_fail_eq_ok.mp (hall sig hsig)).1
      exact FederationManager.verifyThresholdSignature_iff.mp hvalid
    · intro hall sig hsig
      refine ite_fail_eq_ok.mpr ⟨not_not.mpr ?_, rfl⟩
      exact FederationManager.verifyThresholdSignature_iff.mpr (hall hdestination sig hsig)
  · rename_i hdestination
    exact iff_of_true rfl fun hmainchain => absurd hmainchain hdestination

/-- Of a transaction from the main chain no hash is known: that of zeros is looked up. -/
def validateMainchainSource : Outcome String Unit :=
  if tx.sourceChain = mainchainId then
    match self.mainchainInterface with
    | none => .ok ()
    | some mainchain =>
      if ¬ mainchain.validateTransaction (.replicate 32 0) then
        fail "Invalid mainchain transaction"
      else .ok ()
  else .ok ()

def validateCrossChainTransaction : Outcome String Unit :=
  if tx.amount = 0 then fail "Cross-chain transaction amount cannot be zero"
  else if (self.processedTxs.lookup tx.id).isSome then fail "Duplicate cross-chain transaction"
  else if tx.sourceChain = tx.destinationChain then
    fail "Source and destination chains cannot be the same"
  else do
    self.validateFederationSignatures crypto tx
    self.validateMainchainSource tx

variable (chainId : Hash)

/-- The transaction goes into a pool and is marked as received. -/
def addToPool (tx : CrossChainTransaction) : CrossChainProcessor :=
  { self with
    txPools := self.txPools.insert chainId ((self.txPools.lookup chainId).getD [] ++ [tx])
    processedTxs := self.processedTxs.insert tx.id .received }

variable (message : CrossChainMessage)

def processCrossChainTransactionMessage :
    Stateful String CrossChainProcessor ProcessingResult := do
  let tx ← .read fun _ => message.deserializePayload codec.transaction
  let seen ← .read fun self => .ok (self.processedTxs.lookup tx.id).isSome
  if seen then return .duplicate
  else do
    .read fun self => self.validateCrossChainTransaction crypto tx
    .modify fun self => self.addToPool message.destinationChain tx
    return .transactionReceived tx.id

def validateMainchainHeader (header : BlockHeader) : Outcome String Unit :=
  match self.mainchainInterface with
  | none => .ok ()
  | some mainchain =>
    if header.height > mainchain.getBlockHeight then
      fail "Block header height is in the future"
    else
      match mainchain.getBlockHash header.height with
      | none => .ok ()
      | some knownHash =>
        if knownHash ≠ header.hash env then fail "Block header hash mismatch" else .ok ()

def processMainchainHeaderMessage :
    Stateful String CrossChainProcessor ProcessingResult := do
  let header ← .read fun _ => message.deserializePayload codec.blockHeader
  .read fun self => self.validateMainchainHeader env header
  return .blockHeaderProcessed header.height

def processSidechainHeaderMessage :
    Stateful String CrossChainProcessor ProcessingResult := do
  let header ← .read fun _ => message.deserializePayload codec.sidechainBlockHeader
  return .sidechainHeaderProcessed header.sidechainId header.height

def processMessage :
    Stateful String CrossChainProcessor ProcessingResult := do
  .read fun self => self.communication.processMessage env crypto message
  match message.messageType with
  | .crossChainTransaction => processCrossChainTransactionMessage codec crypto message
  | .mainchainBlockHeader => processMainchainHeaderMessage env codec message
  | .sidechainBlockHeader => processSidechainHeaderMessage codec message
  | _ => return .ignored

/-- The messages are gone from the queue even if one of them fails. -/
def processMessages :
    Stateful String CrossChainProcessor (List ProcessingResult) := do
  let messages ← .read fun self => .ok (self.communication.receiveMessages chainId).1
  .modify fun self =>
    { self with communication := (self.communication.receiveMessages chainId).2 }
  messages.mapM (processMessage env codec crypto)

/-- A placeholder input stands for the federation's output that is to be spent. -/
def createMainchainTransaction (crossChainTx : CrossChainTransaction) : Except String Transaction :=
  if crossChainTx.destinationChain = mainchainId then
    let federationUtxo : OutPoint := ⟨.replicate 32 0, 0⟩
    let input := TxInput.fromOutpoint federationUtxo [] 0xffffffff []
    let output : TxOutput :=
      { value := crossChainTx.amount
        scriptPubkey := crossChainTx.recipientAddress
        memo := some ("Peg-out from sidechain " ++
          ConsensusError.debugBytes crossChainTx.sourceChain.toList).toUTF8.data.toList }
    .ok (.standard 1 [input] [output] 0 1000 [])
  else .error "Unsupported cross-chain operation"

/-- The main chain has been asked once more, whatever its answer. -/
def executeToMainchain : Except String ExecutionResult × CrossChainProcessor :=
  match self.mainchainInterface with
  | none => (.error "No mainchain interface available", self)
  | some mainchain =>
    match createMainchainTransaction tx with
    | .error e => (.error e, self)
    | .ok mainchainTx =>
      ((mainchain.submitTransaction mainchain.submissions mainchainTx).map
          (.submittedToMainchain tx.id),
        { self with
          mainchainInterface :=
            some { mainchain with submissions := mainchain.submissions + 1 } })

def executeTransaction : Except String ExecutionResult × CrossChainProcessor :=
  if tx.destinationChain = mainchainId then self.executeToMainchain tx
  else (.ok (.queued tx.id), self)

/-- A round of execution: what is to be put back, and the results so far. -/
structure Round where
  processor : CrossChainProcessor
  remainingTxs : List CrossChainTransaction
  results : List ExecutionResult

def markProcessed (txId : Hash) (status : CrossChainTxStatus) : CrossChainProcessor :=
  { self with processedTxs := self.processedTxs.insert txId status }

def Round.execute (round : Round) (tx : CrossChainTransaction) : Round :=
  match round.processor.executeTransaction tx with
  | (.ok result, processor) =>
    { processor := processor.markProcessed tx.id .executed
      remainingTxs := round.remainingTxs
      results := round.results ++ [result] }
  | (.error e, processor) =>
    { processor := processor.markProcessed tx.id .failed
      remainingTxs := round.remainingTxs ++ [tx]
      results := round.results ++ [.failed tx.id e] }

/-- Take all transactions out of a pool, which stays there empty. -/
def drainPool : List CrossChainTransaction × CrossChainProcessor :=
  match self.txPools.lookup chainId with
  | none => ([], self)
  | some txs => (txs, { self with txPools := self.txPools.insert chainId [] })

/-- Put transactions back into a pool, if it is there. -/
def extendPool (txs : List CrossChainTransaction) : CrossChainProcessor :=
  match self.txPools.lookup chainId with
  | none => self
  | some pool => { self with txPools := self.txPools.insert chainId (pool ++ txs) }

def executePendingTransactions : List ExecutionResult × CrossChainProcessor :=
  let (txsToProcess, drained) := self.drainPool chainId
  let round := txsToProcess.foldl Round.execute ⟨drained, [], []⟩
  (round.results, round.processor.extendPool chainId round.remainingTxs)

end CrossChainProcessor

end RustyCoin.Sidechain
