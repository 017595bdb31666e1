import RustyCoin.Consensus.Blockchain

/-!
# Governance rounds on well-kept proposals

Proposals are stored under their own ids. `evaluate_and_apply_governance` relies
on it: it looks a proposal up under its key and removes it under its id. On such
a store a round never misses a proposal, and the only error it can return is
about the text of a new parameter value.
-/

namespace RustyCoin

namespace ActiveProposals

open Outcome

/-- Every proposal is stored under its own id. -/
def Keyed (self : ActiveProposals) : Prop :=
  ∀ proposalId entry, self.proposals.lookup proposalId = some entry →
    entry.1.proposalId = proposalId

theorem keyed_new : new.Keyed := by
  intro proposalId entry hlookup
  cases hlookup

variable {self next : ActiveProposals}

variable (hkeyed : self.Keyed)

include hkeyed

variable {proposal : GovernanceProposal}

theorem Keyed.insert {proposalId : Hash}
    (hid : proposal.proposalId = proposalId) (votes : HashMap Hash GovernanceVote) :
    Keyed ⟨self.proposals.insert proposalId (proposal, votes)⟩ :=
  HashMap.forall_insert hkeyed hid

theorem Keyed.erase (proposalId : Hash) : Keyed ⟨self.proposals.erase proposalId⟩ :=
  HashMap.forall_erase hkeyed

theorem Keyed.addProposal (hok : self.addProposal proposal = .ok next) : next.Keyed := by
  unfold ActiveProposals.addProposal at hok
  split at hok
  · exact absurd hok (fail_ne_ok _ _)
  · cases hok
    exact hkeyed.insert rfl ∅

theorem Keyed.recordVote {vote : GovernanceVote}
    (hok : self.recordVote vote = .ok next) : next.Keyed := by
  obtain ⟨entry, hentry, hrest⟩ := bind_eq_ok.mp hok
  have hid := hkeyed _ _ (okOr_eq_ok.mp hentry)
  dsimp only at hrest
  split at hrest
  · exact absurd hrest (fail_ne_ok _ _)
  · cases hrest
    exact hkeyed.insert hid _

omit hkeyed

/-- The votes by the types of the voters. -/
def tallyOf (votes : HashMap Hash GovernanceVote)
    (voterTypes : HashMap Hash GovernanceVoterType) : Tally :=
  votes.toPairs.foldl
    (fun tally (voterId, vote) => tally.count (voterTypes.lookup voterId) vote.voteChoice)
    ⟨0, 0, 0, 0⟩

variable {F : Type} [F64 F]

/-- A proposal that is present is evaluated: the votes count inside of the voting
window only. -/
theorem evaluateProposalAtHeight_eq {proposalId : Hash}
    {entry : GovernanceProposal × HashMap Hash GovernanceVote}
    (hentry : self.proposals.lookup proposalId = some entry) (height tickets masternodes : UInt64)
    (params : ConsensusParams F) (voterTypes : HashMap Hash GovernanceVoterType) :
    self.evaluateProposalAtHeight proposalId height tickets masternodes params voterTypes =
      .ok (if height < entry.1.startBlockHeight then .inProgress
        else if height > entry.1.endBlockHeight then .expired
        else checkQuorumAndSupermajority (tallyOf entry.2 voterTypes) tickets masternodes
          params) := by
  simp only [evaluateProposalAtHeight, getProposal, getVotesForProposal, hentry, Option.map_some,
    okOr, ok_bind]
  split
  · rfl
  · split
    · rfl
    · rfl

theorem checkQuorumAndSupermajority_ne_inProgress (tally : Tally) (tickets masternodes : UInt64)
    (params : ConsensusParams F) :
    checkQuorumAndSupermajority tally tickets masternodes params ≠ .inProgress := by
  simp only [checkQuorumAndSupermajority]
  split
  · simp
  · split
    · simp
    · simp

end ActiveProposals

namespace ConsensusParams

variable {F : Type}

/-- Reading a value returns, or complains about it. -/
theorem parsed_map_cases {α : Type} (kind : String) (parse : String → Option α)
    (paramName newValue : String) (update : α → ConsensusParams F) :
    (∃ params, (parsed kind parse paramName newValue).map update = .ok params) ∨
      ∃ kind', (parsed kind parse paramName newValue).map update =
        Outcome.fail (.invalidParameter kind' paramName newValue) := by
  unfold parsed
  cases parse newValue with
  | none => exact .inr ⟨kind, rfl⟩
  | some value => exact .inl ⟨update value, rfl⟩

/-- A change fails on the text of the new value only. -/
theorem applyParameterChange_cases [F64 F] (params : ConsensusParams F)
    (paramName newValue : String) :
    (∃ params', params.applyParameterChange paramName newValue = .ok params') ∨
      ∃ kind, params.applyParameterChange paramName newValue =
        Outcome.fail (.invalidParameter kind paramName newValue) := by
  unfold applyParameterChange
  dsimp only
  split
  all_goals first
    | exact parsed_map_cases _ _ _ _ _
    | exact .inl ⟨params, rfl⟩

end ConsensusParams

namespace Blockchain

open Outcome

variable {F : Type}

/-- A value, or an error about the text of a parameter value. -/
def Benign (result : ConsensusResult Unit) : Prop :=
  result = .ok () ∨ ∃ kind paramName newValue,
    result = fail (.invalidParameter kind paramName newValue)

/-- The proposals after a step on one of them: unchanged, or without it. -/
def ResolvesOnly (chain : Blockchain F) (proposalId : Hash) (next : Blockchain F) : Prop :=
  next.activeProposals = chain.activeProposals ∨
    next.activeProposals = ⟨chain.activeProposals.proposals.erase proposalId⟩

variable {chain : Blockchain F} {proposalId : Hash}

theorem removeProposal_run (hpresent : (chain.activeProposals.proposals.lookup proposalId).isSome) :
    (removeProposal proposalId).run chain =
      (.ok (), { chain with
        activeProposals := ⟨chain.activeProposals.proposals.erase proposalId⟩ }) := by
  have hremove : chain.activeProposals.removeProposal proposalId =
      .ok ⟨chain.activeProposals.proposals.erase proposalId⟩ := by
    rw [ActiveProposals.removeProposal, if_neg]
    simpa [Option.isSome_iff_ne_none] using hpresent
  rw [removeProposal, Stateful.run_read_bind, hremove]
  rfl

variable [F64 F]

theorem applyProposal_spec (proposal : GovernanceProposal) (chain : Blockchain F) :
    Benign ((applyProposal proposal).run chain).1 ∧
      ((applyProposal proposal).run chain).2.activeProposals = chain.activeProposals := by
  unfold applyProposal
  split
  · rename_i paramName newValue _ _ _
    rcases chain.params.applyParameterChange_cases paramName newValue with
      ⟨params, hparams⟩ | ⟨kind, herror⟩
    · rw [Stateful.run_read_bind, hparams]
      exact ⟨.inl rfl, rfl⟩
    · rw [Stateful.run_read_bind, herror]
      exact ⟨.inr ⟨kind, paramName, newValue, rfl⟩, rfl⟩
  · exact ⟨.inl rfl, rfl⟩

theorem resolveProposal_spec {proposal : GovernanceProposal}
    (hpresent : (chain.activeProposals.proposals.lookup proposal.proposalId).isSome)
    (outcome : ProposalOutcome) :
    Benign ((resolveProposal proposal outcome).run chain).1 ∧
      chain.ResolvesOnly proposal.proposalId ((resolveProposal proposal outcome).run chain).2 := by
  have hremoves : Benign ((removeProposal proposal.proposalId).run chain).1 ∧
      chain.ResolvesOnly proposal.proposalId
        ((removeProposal proposal.proposalId).run chain).2 := by
    rw [removeProposal_run hpresent]
    exact ⟨.inl rfl, .inr rfl⟩
  cases outcome with
  | rejected reason => exact hremoves
  | expired => exact hremoves
  | inProgress => exact ⟨.inl rfl, .inl rfl⟩
  | passed =>
    obtain ⟨hbenign, hsame⟩ := applyProposal_spec proposal chain
    rw [resolveProposal]
    rcases happly : (applyProposal proposal).run chain with ⟨error | _, applied⟩
    · rw [Stateful.run_bind_of_error happly]
      rw [happly] at hbenign hsame
      exact ⟨hbenign, .inl hsame⟩
    · rw [Stateful.run_bind_of_ok happly]
      rw [happly] at hsame
      rw [← hsame] at hpresent
      rw [removeProposal_run hpresent]
      exact ⟨.inl rfl, .inr (by rw [← hsame])⟩

/-- A proposal is looked up under its key, and evaluated under its id. -/
theorem evaluateProposal_run {entry entry' : GovernanceProposal × HashMap Hash GovernanceVote}
    (hentry : chain.activeProposals.proposals.lookup proposalId = some entry)
    (hentry' : chain.activeProposals.proposals.lookup entry.1.proposalId = some entry')
    (height : UInt64) :
    (evaluateProposal height proposalId).run chain =
      (resolveProposal entry.1
        (if height < entry'.1.startBlockHeight then .inProgress
        else if height > entry'.1.endBlockHeight then .expired
        else ActiveProposals.checkQuorumAndSupermajority
          (ActiveProposals.tallyOf entry'.2
            (chain.activeProposals.voterTypesMap entry.1.proposalId))
          (UInt64.ofNat chain.liveTickets.countLiveTickets)
          (UInt64.ofNat chain.masternodeList.countActiveMasternodes) chain.params)).run chain := by
  have hproposal : okOr (chain.activeProposals.getProposal proposalId)
      (ConsensusError.internal "Proposal not found during removal.") = .ok entry.1 := by
    rw [ActiveProposals.getProposal, hentry]
    rfl
  simp only [evaluateProposal, Stateful.run_read_bind, hproposal,
    ActiveProposals.evaluateProposalAtHeight_eq hentry']

/-- One proposal of a round. -/
theorem evaluateProposal_spec (hkeyed : chain.activeProposals.Keyed)
    (hpresent : (chain.activeProposals.proposals.lookup proposalId).isSome) (height : UInt64) :
    Benign ((evaluateProposal height proposalId).run chain).1 ∧
      chain.ResolvesOnly proposalId ((evaluateProposal height proposalId).run chain).2 := by
  obtain ⟨entry, hentry⟩ := Option.isSome_iff_exists.mp hpresent
  obtain rfl := hkeyed proposalId entry hentry
  rw [evaluateProposal_run hentry hentry]
  exact resolveProposal_spec hpresent _

/-- The loop over the proposals of a round: the ids are distinct, so that each
proposal is still there when its turn comes. -/
theorem forM_evaluateProposal_spec (height : UInt64) {proposalIds : List Hash}
    (hkeyed : chain.activeProposals.Keyed) (hnodup : proposalIds.Nodup)
    (hpresent : ∀ proposalId ∈ proposalIds,
      (chain.activeProposals.proposals.lookup proposalId).isSome) :
    Benign ((forM proposalIds (evaluateProposal height)).run chain).1 ∧
      ((forM proposalIds (evaluateProposal height)).run chain).2.activeProposals.Keyed := by
  induction proposalIds generalizing chain with
  | nil => exact ⟨.inl rfl, hkeyed⟩
  | cons proposalId rest ih =>
    rw [List.nodup_cons] at hnodup
    rw [List.forall_mem_cons] at hpresent
    obtain ⟨hbenign, hresolves⟩ := evaluateProposal_spec hkeyed hpresent.1 height
    rw [List.forM_cons]
    rcases hstep : (evaluateProposal height proposalId).run chain with ⟨error | _, next⟩
    · rw [hstep] at hbenign hresolves
      rw [Stateful.run_bind_of_error hstep]
      refine ⟨hbenign, ?_⟩
      rcases hresolves with hsame | herased
      · rwa [hsame]
      · rw [herased]
        exact hkeyed.erase proposalId
    · rw [hstep] at hresolves
      rw [Stateful.run_bind_of_ok hstep]
      rcases hresolves with hsame | herased
      · exact ih (by rwa [hsame]) hnodup.2 (by rw [hsame]; exact hpresent.2)
      · refine ih (by rw [herased]; exact hkeyed.erase proposalId) hnodup.2 fun otherId hmem => ?_
        have hne : otherId ≠ proposalId := ne_of_mem_of_not_mem hmem hnodup.1
        rw [herased, AList.lookup_erase_ne hne]
        exact hpresent.2 otherId hmem

/-- A round on well-kept proposals keeps them well kept and fails only on the
text of a parameter value. -/
theorem evaluateAndApplyGovernance_spec (height : UInt64) (hkeyed : chain.activeProposals.Keyed) :
    Benign ((evaluateAndApplyGovernance height).run chain).1 ∧
      ((evaluateAndApplyGovernance height).run chain).2.activeProposals.Keyed := by
  rw [evaluateAndApplyGovernance, Stateful.run_read_bind]
  refine forM_evaluateProposal_spec height hkeyed
    (chain.activeProposals.proposals.keys_nodup.filter _) fun proposalId hmem => ?_
  have hkey := (List.mem_filter.mp hmem).1
  exact AList.lookup_isSome.mpr (AList.mem_keys.mpr hkey)

end Blockchain

end RustyCoin
