import RustyCoin.Consensus.Params
import RustyCoin.Lib.Stateful

/-!
# Active proposals and their evaluation
-/

namespace RustyCoin

/-- How a vote is counted. -/
inductive GovernanceVoterType where
  | pos
  | masternode
  deriving DecidableEq

inductive ProposalOutcome where
  | passed
  | rejected (reason : String)
  | inProgress
  | expired
  deriving DecidableEq

/-- The votes that are counted; abstentions are not. -/
structure Tally where
  posYes : UInt64
  posNo : UInt64
  mnYes : UInt64
  mnNo : UInt64
  deriving DecidableEq

def Tally.count (tally : Tally) : Option GovernanceVoterType → VoteChoice → Tally
  | some .pos, .yes => { tally with posYes := tally.posYes + 1 }
  | some .pos, .no => { tally with posNo := tally.posNo + 1 }
  | some .masternode, .yes => { tally with mnYes := tally.mnYes + 1 }
  | some .masternode, .no => { tally with mnNo := tally.mnNo + 1 }
  | some .pos, .abstain => tally
  | some .masternode, .abstain => tally
  | none, _ => tally

structure ActiveProposals where
  proposals : HashMap Hash (GovernanceProposal × HashMap Hash GovernanceVote)

namespace ActiveProposals

open Outcome

def new : ActiveProposals := ⟨∅⟩

variable (self : ActiveProposals)

def addProposal (proposal : GovernanceProposal) : ConsensusResult ActiveProposals :=
  if (self.proposals.lookup proposal.proposalId).isSome then
    fail (.proposalAlreadyExists proposal.proposalId)
  else .ok ⟨self.proposals.insert proposal.proposalId (proposal, ∅)⟩

/-- A voter votes once on a proposal. -/
def recordVote (vote : GovernanceVote) :
    ConsensusResult ActiveProposals := do
  let (proposal, votes) ←
    okOr (self.proposals.lookup vote.proposalId) (.proposalNotFound vote.proposalId)
  if (votes.lookup vote.voterId).isSome then
    fail (.duplicateGovernanceVote vote.proposalId vote.voterId)
  else
    return ⟨self.proposals.insert vote.proposalId (proposal, votes.insert vote.voterId vote)⟩

def getProposal (proposalId : Hash) : Option GovernanceProposal :=
  (self.proposals.lookup proposalId).map Prod.fst

def getVotesForProposal (proposalId : Hash) : Option (HashMap Hash GovernanceVote) :=
  (self.proposals.lookup proposalId).map Prod.snd

def removeProposal (proposalId : Hash) : ConsensusResult ActiveProposals :=
  if (self.proposals.lookup proposalId).isNone then fail (.proposalNotFound proposalId)
  else .ok ⟨self.proposals.erase proposalId⟩

def removeVote (proposalId voterId : Hash) :
    ConsensusResult ActiveProposals := do
  let (proposal, votes) ← okOr (self.proposals.lookup proposalId) (.proposalNotFound proposalId)
  if (votes.lookup voterId).isNone then fail (.voteNotFound proposalId voterId)
  else return ⟨self.proposals.insert proposalId (proposal, votes.erase voterId)⟩

variable {F : Type} [F64 F]

/-- Is the ratio of two counts at least the threshold? Nothing is met out of
zero. -/
def ratioMet (part whole : UInt64) (threshold : F) : Bool :=
  decide (whole > 0) && F64.ge (F64.div (F64.ofU64 part) (F64.ofU64 whole)) threshold

def checkQuorumAndSupermajority (tally : Tally) (liveTicketsCount activeMasternodeCount : UInt64)
    (params : ConsensusParams F) : ProposalOutcome :=
  let posTotalCast := tally.posYes + tally.posNo
  let mnTotalCast := tally.mnYes + tally.mnNo
  let posQuorumMet := ratioMet posTotalCast liveTicketsCount params.posVotingQuorumPercentage
  let mnQuorumMet := ratioMet mnTotalCast activeMasternodeCount params.mnVotingQuorumPercentage
  if !posQuorumMet || !mnQuorumMet then .rejected "Quorum not met"
  else
    let posApprovalMet := ratioMet tally.posYes posTotalCast params.posApprovalPercentage
    let mnApprovalMet := ratioMet tally.mnYes mnTotalCast params.mnApprovalPercentage
    if posApprovalMet && mnApprovalMet then .passed else .rejected "Supermajority not met"

variable (self : ActiveProposals)

/-- Outside of its voting window a proposal is not counted. -/
def evaluateProposalAtHeight (proposalId : Hash)
    (currentHeight liveTicketsCount activeMasternodeCount : UInt64) (params : ConsensusParams F)
    (voterTypes : HashMap Hash GovernanceVoterType) : ConsensusResult ProposalOutcome := do
  let proposal ← okOr (self.getProposal proposalId)
    (.internal "Proposal not found for evaluation.")
  if currentHeight < proposal.startBlockHeight then return .inProgress
  else if currentHeight > proposal.endBlockHeight then return .expired
  else
    let votes ← okOr (self.getVotesForProposal proposalId)
      (.internal "Votes not found for proposal.")
    let tally := votes.toPairs.foldl
      (fun tally (voterId, vote) => tally.count (voterTypes.lookup voterId) vote.voteChoice)
      ⟨0, 0, 0, 0⟩
    return checkQuorumAndSupermajority tally liveTicketsCount activeMasternodeCount params

/-- The voter types of the votes on a proposal. -/
def voterTypesMap (proposalId : Hash) : HashMap Hash GovernanceVoterType :=
  match self.getVotesForProposal proposalId with
  | none => ∅
  | some votes => votes.mapValues fun vote =>
    match vote.voterType with
    | .posTicket => .pos
    | .masternode => .masternode

/-- The same proposals with the same votes. -/
def SameContents (self other : ActiveProposals) : Prop :=
  ∀ proposalId, Option.Rel (fun entry entry' => entry.1 = entry'.1 ∧ entry.2.SameEntries entry'.2)
    (self.proposals.lookup proposalId) (other.proposals.lookup proposalId)

theorem SameContents.refl : self.SameContents self := by
  intro proposalId
  cases self.proposals.lookup proposalId with
  | none => exact .none
  | some entry => exact .some ⟨rfl, .refl _⟩

theorem SameContents.symm {self other : ActiveProposals} (h : self.SameContents other) :
    other.SameContents self := by
  intro proposalId
  have hrel := h proposalId
  generalize self.proposals.lookup proposalId = entry at hrel ⊢
  generalize other.proposals.lookup proposalId = entry' at hrel ⊢
  cases hrel with
  | none => exact .none
  | some hentry => exact .some ⟨hentry.1.symm, hentry.2.symm⟩

theorem SameContents.exists_lookup {self other : ActiveProposals} (h : self.SameContents other)
    {proposalId : Hash} {entry : GovernanceProposal × HashMap Hash GovernanceVote}
    (hentry : self.proposals.lookup proposalId = some entry) :
    ∃ entry', other.proposals.lookup proposalId = some entry' := by
  have hrel := h proposalId
  rw [hentry] at hrel
  generalize other.proposals.lookup proposalId = entry' at hrel ⊢
  cases hrel with
  | some _ => exact ⟨_, rfl⟩

end ActiveProposals

end RustyCoin
