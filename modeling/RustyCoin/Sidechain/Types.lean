import RustyCoin.Sidechain.CrossChainProcessor

/-!
# Blocks, transactions and proofs of a sidechain

The records of `sidechain/types.rs`. The processor of cross-chain messages reads
only a part of a cross-chain transaction and of a block header, so the records
it works on are extended here by the rest of their fields.
-/

namespace RustyCoin.Sidechain

inductive FraudType where
  | invalidStateTransition
  | doubleSpending
  | invalidCrossChainTx
  | unauthorizedSignature
  | invalidVMExecution
  deriving DecidableEq

structure FraudEvidence where
  preState : Bytes
  postState : Bytes
  fraudulentOperation : Bytes
  witnessData : Bytes
  additionalEvidence : HashMap String Bytes

structure FraudProof where
  fraudType : FraudType
  fraudBlockHeight : UInt64
  fraudTxIndex : Option UInt64
  evidence : FraudEvidence
  challengerAddress : Bytes
  challengeBond : UInt64
  responseDeadline : UInt64

structure SidechainOutPoint where
  txid : Hash
  vout : UInt32
  deriving DecidableEq

structure SidechainTxInput where
  previousOutput : SidechainOutPoint
  scriptSig : Bytes
  sequence : UInt32
  deriving DecidableEq

structure SidechainTxOutput where
  value : UInt64
  assetId : Hash
  scriptPubkey : Bytes
  data : Bytes
  deriving DecidableEq

inductive VMType where
  | evm
  | wasm
  deriving DecidableEq

structure VMExecutionData where
  vmType : VMType
  bytecode : Bytes
  gasLimit : UInt64
  gasPrice : UInt64
  inputData : Bytes
  deriving DecidableEq

structure SidechainTransaction where
  version : UInt32
  inputs : List SidechainTxInput
  outputs : List SidechainTxOutput
  lockTime : UInt32
  vmData : Option VMExecutionData
  fee : UInt64
  deriving DecidableEq

structure CrossChainProof where
  merkleProof : List Hash
  blockHeader : Bytes
  transactionData : Bytes
  txIndex : UInt32
  deriving DecidableEq

/-- A cross-chain transaction with all of its fields. -/
structure CrossChainTransaction.Full extends CrossChainTransaction where
  proof : CrossChainProof
  metadata : Bytes

/-- A block header with all of its fields. -/
structure SidechainBlockHeader.Full extends SidechainBlockHeader where
  version : UInt32
  previousBlockHash : Hash
  merkleRoot : Hash
  crossChainMerkleRoot : Hash
  stateRoot : Hash
  timestamp : UInt64
  difficultyTarget : UInt32
  nonce : UInt64
  federationEpoch : UInt64
  mainchainAnchorHeight : UInt64
  mainchainAnchorHash : Hash

structure SidechainBlock where
  header : SidechainBlockHeader.Full
  transactions : List SidechainTransaction
  crossChainTransactions : List CrossChainTransaction.Full
  fraudProofs : List FraudProof
  federationSignature : Option FederationSignature

/-- `bincode::serialize` of the records of a sidechain, which cannot fail on these types. -/
structure SidechainCodec where
  transaction : SidechainTransaction → Bytes
  crossChainTransaction : CrossChainTransaction.Full → Bytes
  blockHeader : SidechainBlockHeader.Full → Bytes
  fraudProof : FraudProof → Bytes

/-- A codec on which the model can be evaluated. -/
def SidechainCodec.blank : SidechainCodec where
  transaction _ := []
  crossChainTransaction _ := []
  blockHeader _ := []
  fraudProof _ := []

variable (codec : SidechainCodec) (env : Platform)

def CrossChainTransaction.Full.hash (tx : CrossChainTransaction.Full) : Hash :=
  env.blake3 (codec.crossChainTransaction tx)

def SidechainBlockHeader.Full.hash (header : SidechainBlockHeader.Full) : Hash :=
  env.blake3 (codec.blockHeader header)

end RustyCoin.Sidechain
