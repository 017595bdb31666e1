import RustyCoin.Lib.Outcome
import RustyCoin.Types.Transaction

/-!
# Consensus errors

The errors that adding, processing and reverting a block return, with the texts
of their messages.
-/

namespace RustyCoin

inductive ConsensusError where
  | missingPreviousOutput (outpoint : OutPoint)
  | internal (message : String)
  | proposalAlreadyExists (proposalId : Hash)
  | proposalNotFound (proposalId : Hash)
  | duplicateGovernanceVote (proposalId voterId : Hash)
  | ruleViolation (message : String)
  | invalidScript (message : String)
  | invalidCoinbase (message : String)
  | insufficientFee (fee available : UInt64)
  | invalidLockTime (message : String)
  | invalidTicket (message : String)
  | duplicateTicketVote (message : String)
  | immatureTicket (message : String)
  | expiredTicket (message : String)
  | masternodeError (message : String)
  | failedToFindHistoricalUtxo (outpoint : OutPoint)
  | voteNotFound (proposalId voterId : Hash)
  | serializationError (message : String)
  | transactionValidation (message : String)
  | stateError (message : String)
  | trieError (message : String)
  | invalidBlock (message : String)
  | invalidProofOfWork
  | invalidSignature (message : String)
  | invalidTicketVote (message : String)
  | insufficientTicketVotes
  | databaseError (message : String)
  deriving DecidableEq

abbrev ConsensusResult (α : Type) : Type := Outcome ConsensusError α

namespace ConsensusError

/-- A byte array as `Debug` prints it. -/
def debugBytes (bytes : Bytes) : String :=
  "[" ++ ", ".intercalate (bytes.map fun b => toString b.toNat) ++ "]"

variable (outpoint : OutPoint)

def debugOutPoint : String :=
  "OutPoint \x7b txid: " ++ debugBytes outpoint.txid.toList ++
    ", vout: " ++ toString outpoint.vout.toNat ++ " \x7d"

/-- Two lower-case digits for a byte, as `hex::encode` writes it. -/
def hexByte (b : UInt8) : List Char :=
  [Nat.digitChar (b.toNat / 16), Nat.digitChar (b.toNat % 16)]

def hexEncode (bytes : Bytes) : String :=
  String.ofList (bytes.flatMap hexByte)

def formatHash (hash : Hash) : String :=
  "0x" ++ hexEncode hash.toList

def formatOutpoint : String :=
  hexEncode outpoint.txid.toList ++ ":" ++ toString outpoint.vout.toNat

/-- The text of an error, as `Display` prints it. -/
def text : ConsensusError → String
  | missingPreviousOutput outpoint => "Missing previous output: " ++ formatOutpoint outpoint
  | internal message => "Internal error: " ++ message
  | proposalAlreadyExists proposalId =>
    "Proposal with ID " ++ formatHash proposalId ++ " already exists"
  | proposalNotFound proposalId => "Proposal with ID " ++ formatHash proposalId ++ " not found"
  | duplicateGovernanceVote proposalId voterId =>
    "Duplicate governance vote from voter " ++ formatHash voterId ++ " on proposal " ++
      formatHash proposalId
  | ruleViolation message => "Rule violation: " ++ message
  | invalidScript message => "Invalid script: " ++ message
  | invalidCoinbase message => "Invalid coinbase: " ++ message
  | insufficientFee fee available =>
    "Insufficient fee: got " ++ toString fee.toNat ++ ", expected at least " ++
      toString available.toNat
  | invalidLockTime message => "Invalid lock time: " ++ message
  | invalidTicket message => "Invalid ticket: " ++ message
  | duplicateTicketVote message => "Duplicate ticket vote: " ++ message
  | immatureTicket message => "Immature ticket: " ++ message
  | expiredTicket message => "Expired ticket: " ++ message
  | masternodeError message => "Masternode error: " ++ message
  | failedToFindHistoricalUtxo outpoint =>
    "Failed to find historical UTXO: " ++ formatOutpoint outpoint
  | voteNotFound proposalId voterId =>
    "Vote not found for proposal " ++ formatHash proposalId ++ " and voter " ++ formatHash voterId
  | serializationError message => "Serialization error: " ++ message
  | transactionValidation message => "Transaction validation failed: " ++ message
  | stateError message => "State error: " ++ message
  | trieError message => "Merkle Patricia Trie error: " ++ message
  | invalidBlock message => "Invalid block: " ++ message
  | invalidProofOfWork => "Invalid proof of work"
  | invalidSignature message => "Invalid signature: " ++ message
  | invalidTicketVote message => "Invalid ticket vote: " ++ message
  | insufficientTicketVotes => "Insufficient ticket votes for quorum"
  | databaseError message => "Database error: " ++ message

def coinbaseNotMature : ConsensusError :=
  .immatureTicket ("Coinbase UTXO " ++ debugOutPoint outpoint ++ " is not yet mature")

def lockTimeAfterHeight (lockTime : UInt32) (height : UInt64) : ConsensusError :=
  .invalidLockTime ("Transaction locktime (" ++ toString lockTime.toNat ++
    ") is in the future compared to current block height (" ++ toString height.toNat ++ ")")

def lockTimeAfterNow (lockTime now : UInt32) : ConsensusError :=
  .invalidLockTime ("Transaction locktime (" ++ toString lockTime.toNat ++
    ") is in the future compared to current timestamp (" ++ toString now.toNat ++ ")")

variable (ticketId : Hash)

def ticketAlreadyLive : ConsensusError :=
  .duplicateTicketVote
    ("Ticket with ID " ++ debugBytes ticketId.toList ++ " already exists in live pool")

def ticketNotLive : ConsensusError :=
  .invalidTicket ("Ticket " ++ debugBytes ticketId.toList ++ " not found in live pool")

def ticketNotMature : ConsensusError :=
  .immatureTicket ("Ticket " ++ debugBytes ticketId.toList ++ " is not yet mature")

def ticketExpired : ConsensusError :=
  .expiredTicket ("Ticket " ++ debugBytes ticketId.toList ++ " has expired")

def invalidParameter (kind name value : String) : ConsensusError :=
  .ruleViolation ("Invalid " ++ kind ++ " value for " ++ name ++ ": " ++ value)

/-- What `bincode` says when the bytes end too early. -/
def unexpectedEnd : ConsensusError := .serializationError "io error: unexpected end of file"

/-- `map_err(|e| ConsensusError::Internal(e.to_string()))` -/
def asInternal {α : Type} : ConsensusResult α → ConsensusResult α
  | .error (.err e) => Outcome.fail (.internal e.text)
  | result => result

variable {α : Type} {result : ConsensusResult α}

@[simp] theorem asInternal_eq_ok {a : α} : asInternal result = .ok a ↔ result = .ok a := by
  rcases result with (e | - | -) | b
  · exact iff_of_false (Outcome.fail_ne_ok _ a) nofun
  all_goals exact Iff.rfl

theorem failsWith_asInternal {P : Failure ConsensusError → Prop}
    (herr : ∀ e, P (.err e)) :
    Outcome.FailsWith P (asInternal result) ↔ Outcome.FailsWith P result := by
  rcases result with (e | - | -) | a
  · exact iff_of_true ((Outcome.failsWith_fail _).mpr (herr _))
      ((Outcome.failsWith_error _).mpr (herr e))
  all_goals exact Iff.rfl

end ConsensusError

end RustyCoin
