import RustyCoin.Script.Engine

/-!
# Errors of rusty-consensus

The crate has an error type of its own. Texts that are put together from values
are functions here.
-/

namespace RustyCoin.RustyConsensus

inductive ConsensusError where
  | blockTooLarge (size limit : Nat)
  | serializationError (message : String)
  | invalidProof (message : String)
  | invalidProofOfWork
  | transactionLocktimeNotMet
  | invalidSequence
  | negativeFee
  | dustOutput (value : UInt64)
  | invalidScript (message : String)
  | masternodeError (message : String)
  | databaseError (message : String)
  | noTicketVotes
  | duplicateTicketVote
  | invalidTicketID
  | invalidTicketStatus
  | expiredTicket
  | invalidVoteType
  | invalidSignature
  | insufficientTicketVotes
  | invalidBlockHash
  | governanceError (message : String)
  | emptyTransaction
  | coinbaseHasInputs
  | nonCoinbaseHasNoInputs
  | duplicateInput
  | missingTxInput
  | coinbaseNotMature
  | invalidScriptSig
  | invalidTransactionType (message : String)
  | unsupportedVersion (version : UInt32)
  | invalidPreviousBlockHash
  | invalidMerkleRoot
  | timestampTooFarInFuture
  | timestampTooOld
  | missingPreviousBlock
  | masternodeNotFound
  | noOutputs
  | outputValueZero (index : Nat)
  | invalidCoinbase (message : String)
  | spendingMoreThanInputs
  | invalidLockTime (message : String)
  | transactionTooLarge (size limit : Nat)
  | insufficientFee (fee minimum : UInt64)
  | noCoinbaseTransaction
  | invalidCoinbaseInput
  | invalidSlashingTransaction (message : String)
  deriving DecidableEq

abbrev ConsensusResult (α : Type) : Type := Outcome ConsensusError α

namespace ConsensusError

/-- A script error as `Debug` prints it. -/
def debugScriptError : ScriptError → String
  | .invalidOpcode => "InvalidOpcode"
  | .stackUnderflow => "StackUnderflow"
  | .stackOverflow => "StackOverflow"
  | .invalidStackState => "InvalidStackState"
  | .scriptTooLarge => "ScriptTooLarge"
  | .tooManyOpcodes => "TooManyOpcodes"
  | .tooManySigOps => "TooManySigOps"
  | .tooManyOperations => "TooManyOperations"
  | .verificationFailed => "VerificationFailed"
  | .opReturn => "OpReturn"
  | .notImplemented => "NotImplemented"

def scriptValidationFailed (i : Nat) (e : ScriptError) : ConsensusError :=
  .invalidScript ("script validation failed for input " ++ toString i ++ ": " ++ debugScriptError e)

def difficultyTargetMismatch (expected got : UInt32) : ConsensusError :=
  .invalidProof ("Difficulty target mismatch: expected " ++ toString expected.toNat ++
    " (same as previous block), got " ++ toString got.toNat)

def collateralAmountMustBe (amount : UInt64) : ConsensusError :=
  .invalidTransactionType ("Masternode collateral amount must be " ++ toString amount.toNat ++
    " satoshis")

def failureCountBelow (count threshold : UInt32) : ConsensusError :=
  .invalidSlashingTransaction ("Masternode failure count " ++ toString count.toNat ++
    " is below threshold " ++ toString threshold.toNat)

def slashingAmountMismatch (expected got : UInt64) : ConsensusError :=
  .invalidSlashingTransaction ("Slashing amount mismatch: expected " ++ toString expected.toNat ++
    ", got " ++ toString got.toNat)

end ConsensusError

/-- The only error of `pos_slashing.rs` that the checks of a proof return. -/
inductive PosSlashingError where
  | invalidProof (message : String)
  deriving DecidableEq

namespace PosSlashingError

def gracePeriodNotYetPassed (current required : UInt64) : PosSlashingError :=
  .invalidProof ("Grace period not yet passed. Current: " ++ toString current.toNat ++
    ", Required: " ++ toString required.toNat)

/-- `Display` -/
def display : PosSlashingError → String
  | .invalidProof message => "Invalid proof data: " ++ message

end PosSlashingError

end RustyCoin.RustyConsensus
