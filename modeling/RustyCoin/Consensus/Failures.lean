import RustyCoin.Consensus.TransactionLoop

/-!
# How the checks of a block fail

The checks on proposals and votes, on slashing transactions, on the stake and on
registrations return an error or let a block pass; they never abort, and none of
their errors is about the coinbase or about the inputs of a transaction.
-/

namespace RustyCoin

open Outcome

/-- The caller gets an error that is not about a coinbase or about the inputs of a
transaction. -/
def OtherError : Failure ConsensusError → Prop
  | .err (.invalidCoinbase _) => False
  | .err (.transactionValidation _) => False
  | .err (.invalidScript _) => False
  | failure => failure.IsError

@[simp]
theorem otherError_err (e : ConsensusError) :
    OtherError (.err e) ↔ (∀ message, e ≠ .invalidCoinbase message) ∧
      (∀ message, e ≠ .transactionValidation message) ∧ ∀ message, e ≠ .invalidScript message := by
  cases e <;> simp [OtherError, Failure.IsError]

theorem OtherError.isError {failure : Failure ConsensusError} (h : OtherError failure) :
    failure.IsError := by
  cases failure with
  | err e => exact trivial
  | panic => exact h
  | outOfFuel => exact h

namespace Blockchain

variable {F : Type} (env : Platform) (chain : Blockchain F)

variable (currentHeight : UInt64)

theorem otherError_validateProposal (proposal : GovernanceProposal) :
    FailsWith OtherError (chain.validateProposal env proposal currentHeight) := by
  simp [validateProposal, ConsensusError.votingWindowMismatch, ConsensusError.stakeTooLow]

theorem otherError_checkSignature (publicKey message signature : Bytes)
    (badKey badSignature : String) :
    FailsWith OtherError
      (checkSignature env publicKey message signature badKey badSignature) := by
  simp [checkSignature]

theorem otherError_validateVote (vote : GovernanceVote) :
    FailsWith OtherError (chain.validateVote env vote currentHeight) := by
  have hticket : FailsWith OtherError (chain.validateTicketVoter env vote) := by
    simp [validateTicketVoter, otherError_checkSignature]
  have hmasternode : FailsWith OtherError (chain.validateMasternodeVoter env vote) := by
    simp [validateMasternodeVoter, otherError_checkSignature]
  rw [validateVote]
  cases vote.voterType with
  | posTicket => simp [hticket]
  | masternode => simp [hmasternode]

theorem otherError_recordedBy (tx : Transaction) :
    FailsWith OtherError (chain.recordedBy env currentHeight tx) := by
  cases tx with
  | governanceProposal proposal =>
    rw [recordedBy, failsWith_bind]
    refine ⟨otherError_validateProposal env chain currentHeight proposal, fun _ _ => ?_⟩
    simp [ActiveProposals.addProposal]
  | governanceVote vote =>
    rw [recordedBy, failsWith_bind]
    refine ⟨otherError_validateVote env chain currentHeight vote, fun _ _ => ?_⟩
    simp [ActiveProposals.recordVote]
  | _ => exact failsWith_ok _

theorem otherError_validateSlash (slashTx : MasternodeSlashTx) :
    FailsWith OtherError (chain.validateSlash env slashTx) := by
  rw [validateSlash]
  cases slashTx.reason with
  | masternodeNonResponse =>
    cases env.deserializeNonParticipationProof (serializeBytes slashTx.proof) with
    | error message => simp
    | ok proof =>
      simp [LiveTicketsPool.validateNonParticipationProof]
  | doubleSigning =>
    cases env.deserializeMaliciousProof (serializeBytes slashTx.proof) with
    | error message => simp
    | ok proof => simp [LiveTicketsPool.validateMaliciousProof]
  | _ => simp

theorem otherError_validateTicketVote (header : BlockHeader) (voters : List TicketId)
    (vote : TicketVote) :
    FailsWith OtherError (chain.validateTicketVote env header voters vote) := by
  rw [validateTicketVote, failsWith_ite, failsWith_bind]
  refine ⟨fun _ => by simp, fun _ => ⟨by simp, fun ticket _ => ?_⟩⟩
  rcases validateTicketSignature env ticket.pubkey vote.blockHash.toList
    vote.signature.toList with _ | valid
  · simp
  · cases valid with
    | false => simp
    | true => simp

theorem otherError_validateTicketVotes (header : BlockHeader) (voters : List TicketId)
    (votes : List TicketVote) (seen : List TicketId) :
    FailsWith OtherError (chain.validateTicketVotes env header voters votes seen) := by
  induction votes generalizing seen with
  | nil => exact failsWith_ok _
  | cons vote votes ih =>
    simp [validateTicketVotes, otherError_validateTicketVote, ih]

theorem otherError_validateStake (block : Block) (posReward : UInt64) :
    FailsWith OtherError (chain.validateStake env block posReward) := by
  have hdistribute : FailsWith OtherError (chain.distributePosRewards block) := by
    refine failsWith_forM fun vote _ => ?_
    simp
  simp [validateStake, validateProofOfStakeAndRewards, otherError_validateTicketVotes, hdistribute]

theorem otherError_updateMasternodeList (height : UInt64) (tx : Transaction) :
    FailsWith OtherError ((updateMasternodeList height tx).run chain).1 := by
  cases tx with
  | masternodeRegister identity =>
    rw [updateMasternodeList, Stateful.run_read_bind]
    rcases hlist : chain.masternodeList.registerMasternode (convertedIdentity identity)
      height.toUInt32 with message | list
    · simp [fail]
    · exact failsWith_ok _
  | _ => exact failsWith_ok _

end Blockchain

end RustyCoin
