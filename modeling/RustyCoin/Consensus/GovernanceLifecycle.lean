import Mathlib.Tactic.NormNum
import RustyCoin.Consensus.BlockEffects
import RustyCoin.Consensus.GovernanceRounds

/-!
# From the vote on a proposal to its application

A timeline is a run of the chain in which governance is called at every height,
with proposals, votes and changes of the tickets and the masternodes in between.
A proposal is looked at once the activation delay after its end is over, but it
can pass only inside of its voting window. The two meet only if the end plus the
delay does not fit into 64 bits.
-/

namespace RustyCoin

open List Option

namespace ActiveProposals

/-- Both quorums are reached and both majorities are large enough, as exact
ratios. Nothing is reached out of zero. -/
structure EnoughVotes (tally : Tally) (liveTicketsCount activeMasternodeCount : UInt64)
    (params : ConsensusParams Rat) : Prop where
  posQuorum : 0 < liveTicketsCount ∧ params.posVotingQuorumPercentage ≤
    ((tally.posYes + tally.posNo).toNat : Rat) / liveTicketsCount.toNat
  mnQuorum : 0 < activeMasternodeCount ∧ params.mnVotingQuorumPercentage ≤
    ((tally.mnYes + tally.mnNo).toNat : Rat) / activeMasternodeCount.toNat
  posApproval : 0 < tally.posYes + tally.posNo ∧ params.posApprovalPercentage ≤
    (tally.posYes.toNat : Rat) / (tally.posYes + tally.posNo).toNat
  mnApproval : 0 < tally.mnYes + tally.mnNo ∧ params.mnApprovalPercentage ≤
    (tally.mnYes.toNat : Rat) / (tally.mnYes + tally.mnNo).toNat

theorem ratioMet_iff {part whole : UInt64} {threshold : Rat} :
    ratioMet part whole threshold = true ↔
      0 < whole ∧ threshold ≤ (part.toNat : Rat) / whole.toNat := by
  simp [ratioMet, F64.ge, F64.div, F64.ofU64]

theorem checkQuorumAndSupermajority_eq_passed {tally : Tally}
    {liveTicketsCount activeMasternodeCount : UInt64} {params : ConsensusParams Rat} :
    checkQuorumAndSupermajority tally liveTicketsCount activeMasternodeCount params = .passed ↔
      EnoughVotes tally liveTicketsCount activeMasternodeCount params := by
  simp only [checkQuorumAndSupermajority]
  constructor
  · intro hpassed
    split at hpassed
    · cases hpassed
    · rename_i hquorum
      split at hpassed
      · rename_i happroval
        simp only [Bool.or_eq_true, Bool.not_eq_true', not_or, Bool.not_eq_false] at hquorum
        simp only [Bool.and_eq_true] at happroval
        exact ⟨ratioMet_iff.mp hquorum.1, ratioMet_iff.mp hquorum.2, ratioMet_iff.mp happroval.1,
          ratioMet_iff.mp happroval.2⟩
      · cases hpassed
  · rintro ⟨hposQuorum, hmnQuorum, hposApproval, hmnApproval⟩
    simp [ratioMet_iff.mpr hposQuorum, ratioMet_iff.mpr hmnQuorum, ratioMet_iff.mpr hposApproval,
      ratioMet_iff.mpr hmnApproval]

/-- One more vote for a proposal: a new one, or one that was against it. The votes are
the entries of a map, so their number fits. -/
inductive OneMoreYes (yes no : UInt64) : UInt64 → UInt64 → Prop where
  | added (hfits : yes.toNat + no.toNat + 1 < 2 ^ 64) : OneMoreYes yes no (yes + 1) no
  | turned (hfits : yes.toNat + no.toNat < 2 ^ 64) (hno : 0 < no) :
    OneMoreYes yes no (yes + 1) (no - 1)

/-- The vote comes from a ticket or from a masternode. -/
inductive MoreYes (tally : Tally) : Tally → Prop where
  | pos {yes no : UInt64} (h : OneMoreYes tally.posYes tally.posNo yes no) :
    MoreYes tally { tally with posYes := yes, posNo := no }
  | masternode {yes no : UInt64} (h : OneMoreYes tally.mnYes tally.mnNo yes no) :
    MoreYes tally { tally with mnYes := yes, mnNo := no }

/-- The share of the votes in favour does not fall. -/
theorem share_le {yes total total' : Nat} (hyes : yes ≤ total) (hpos : 0 < total)
    (htotal : total' = total ∨ total' = total + 1) :
    (yes : Rat) / total ≤ ((yes + 1 : Nat) : Rat) / total' := by
  have hle : yes * total' ≤ (yes + 1) * total := by
    obtain rfl | rfl := htotal
    · exact Nat.mul_le_mul_right _ yes.le_succ
    · rw [Nat.mul_succ, Nat.succ_mul]
      exact Nat.add_le_add_left hyes _
  rw [div_le_div_iff₀ (Nat.cast_pos.mpr hpos) (Nat.cast_pos.mpr (by omega))]
  exact_mod_cast hle

section

variable {yes no yes' no' count : UInt64} {quorum approval : Rat}
variable (h : OneMoreYes yes no yes' no')
include h

theorem OneMoreYes.toNat :
    yes.toNat ≤ (yes + no).toNat ∧ yes'.toNat = yes.toNat + 1 ∧
      ((yes' + no').toNat = (yes + no).toNat ∨ (yes' + no').toNat = (yes + no).toNat + 1) := by
  cases h with
  | added =>
    simp only [UInt64.toNat_add, UInt64.reduceToNat]
    omega
  | turned hfits hno =>
    have hle : 1 ≤ no := UInt64.le_iff_toNat_le.mpr (UInt64.lt_iff_toNat_lt.mp hno)
    have hpos := UInt64.le_iff_toNat_le.mp hle
    simp only [UInt64.toNat_add, UInt64.toNat_sub_of_le _ _ hle, UInt64.reduceToNat] at hpos ⊢
    omega

theorem OneMoreYes.ratios
    (hquorum : 0 < count ∧ quorum ≤ ((yes + no).toNat : Rat) / count.toNat)
    (happroval : 0 < yes + no ∧ approval ≤ (yes.toNat : Rat) / (yes + no).toNat) :
    (0 < count ∧ quorum ≤ ((yes' + no').toNat : Rat) / count.toNat) ∧
      0 < yes' + no' ∧ approval ≤ (yes'.toNat : Rat) / (yes' + no').toNat := by
  obtain ⟨hle, hyes, htotal⟩ := h.toNat
  have hpos := UInt64.lt_iff_toNat_lt.mp happroval.1
  refine ⟨⟨hquorum.1, hquorum.2.trans ?_⟩, UInt64.lt_iff_toNat_lt.mpr (by omega), ?_⟩
  · exact div_le_div_of_nonneg_right (Nat.cast_le.mpr (by omega)) (Nat.cast_nonneg _)
  · rw [hyes]
    exact happroval.2.trans (share_le hle hpos htotal)

end

/-- A proposal that has passed still passes with one more vote in favour. -/
theorem passed_of_moreYes {tally more : Tally} {liveTicketsCount activeMasternodeCount : UInt64}
    {params : ConsensusParams Rat} (hmore : MoreYes tally more)
    (hpassed : checkQuorumAndSupermajority tally liveTicketsCount activeMasternodeCount params =
      .passed) :
    checkQuorumAndSupermajority more liveTicketsCount activeMasternodeCount params = .passed := by
  rw [checkQuorumAndSupermajority_eq_passed] at hpassed ⊢
  cases hmore with
  | pos h =>
    obtain ⟨hquorum, happroval⟩ := h.ratios hpassed.posQuorum hpassed.posApproval
    exact { hpassed with posQuorum := hquorum, posApproval := happroval }
  | masternode h =>
    obtain ⟨hquorum, happroval⟩ := h.ratios hpassed.mnQuorum hpassed.mnApproval
    exact { hpassed with mnQuorum := hquorum, mnApproval := happroval }

theorem passed_of_moreYes_turned :
    checkQuorumAndSupermajority ⟨5, 0, 1, 0⟩ 5 1 (.default : ConsensusParams Rat) = .passed :=
  @passed_of_moreYes ⟨4, 1, 1, 0⟩ _ _ _ _ (.pos (.turned (by decide) (by decide)))
    (by decide +kernel)

end ActiveProposals

/-- The parameter that an approved proposal changes, and its new value. -/
def GovernanceProposal.change? (proposal : GovernanceProposal) : Option (String × String) :=
  match proposal.proposalType with
  | .parameterChange => do
    let paramName ← proposal.targetParameter
    let newValue ← proposal.newValue
    return (paramName, newValue)
  | _ => none

namespace Blockchain

open Outcome

variable {F : Type} [F64 F]

/-- The call of `apply_parameter_change` that evaluating a proposal makes. -/
def parameterChange? (height : UInt64) (proposalId : Hash) (chain : Blockchain F) :
    Option (String × String) :=
  match chain.activeProposals.getProposal proposalId with
  | none => none
  | some proposal =>
    match chain.activeProposals.evaluateProposalAtHeight proposal.proposalId height
      (UInt64.ofNat chain.liveTickets.countLiveTickets)
      (UInt64.ofNat chain.masternodeList.countActiveMasternodes) chain.params
      (chain.activeProposals.voterTypesMap proposal.proposalId) with
    | .ok .passed => proposal.change?
    | _ => none

/-- The calls that the loop over some proposals makes, with the proposal of each. -/
def parameterChanges (height : UInt64) :
    List Hash → Blockchain F → List (Hash × String × String)
  | [], _ => []
  | proposalId :: rest, chain =>
    ((parameterChange? height proposalId chain).map (proposalId, ·)).toList ++
      match (evaluateProposal height proposalId).run chain with
      | (.ok _, next) => parameterChanges height rest next
      | (.error _, _) => []

/-- The parameters after a call, if there is one. A call that fails leaves them. -/
def changedBy (params : ConsensusParams F) : Option (String × String) → ConsensusParams F
  | none => params
  | some (paramName, newValue) =>
    match params.applyParameterChange paramName newValue with
    | .ok params' => params'
    | .error _ => params

@[simp] theorem params_applyProposal (proposal : GovernanceProposal) (chain : Blockchain F) :
    ((applyProposal proposal).run chain).2.params = changedBy chain.params proposal.change? := by
  rw [applyProposal, GovernanceProposal.change?]
  cases proposal.proposalType with
  | parameterChange =>
    cases proposal.targetParameter with
    | none => rfl
    | some paramName =>
      cases proposal.newValue with
      | none => rfl
      | some newValue =>
        change ((Stateful.read _ >>= _).run chain).2.params =
          changedBy chain.params (some (paramName, newValue))
        rw [Stateful.run_read_bind, changedBy]
        cases chain.params.applyParameterChange paramName newValue with
        | error e => rfl
        | ok params => rfl
  | _ => rfl

/-- Evaluating a proposal changes the parameters by its call only. -/
theorem params_evaluateProposal (height : UInt64) (proposalId : Hash) (chain : Blockchain F) :
    ((evaluateProposal height proposalId).run chain).2.params =
      changedBy chain.params (parameterChange? height proposalId chain) := by
  have hremove : ∀ (id : Hash) (chain : Blockchain F),
      ((removeProposal id).run chain).2.params = chain.params :=
    keeps_removeProposal fun _ _ => rfl
  rw [evaluateProposal, Stateful.run_read_bind, parameterChange?]
  cases chain.activeProposals.getProposal proposalId with
  | none => rfl
  | some proposal =>
    simp only [okOr, Stateful.run_read_bind]
    generalize chain.activeProposals.evaluateProposalAtHeight (F := F) _ _ _ _ _ _ = evaluated
    cases evaluated with
    | error e => rfl
    | ok outcome =>
      cases outcome with
      | rejected reason => exact hremove _ _
      | inProgress => rfl
      | expired => exact hremove _ _
      | passed =>
        rw [← params_applyProposal]
        change ((applyProposal proposal >>= fun _ =>
          removeProposal proposal.proposalId).run chain).2.params = _
        rcases happly : (applyProposal proposal).run chain with ⟨e | u, applied⟩
        · rw [Stateful.run_bind_of_error happly]
        · rw [Stateful.run_bind_of_ok happly, hremove]

section

variable {chain : Blockchain F} {height : UInt64} {proposalId : Hash}
  {entry : GovernanceProposal × HashMap Hash GovernanceVote}

/-- On well-kept proposals an evaluation touches its own proposal only. -/
theorem evaluateProposal_resolves (hkeyed : chain.activeProposals.Keyed) (height : UInt64)
    (proposalId : Hash) :
    chain.ResolvesOnly proposalId ((evaluateProposal height proposalId).run chain).2 := by
  cases hentry : chain.activeProposals.proposals.lookup proposalId with
  | some entry =>
    exact (evaluateProposal_spec hkeyed (isSome_of_eq_some hentry) height).2
  | none =>
    have hmissing : okOr (chain.activeProposals.getProposal proposalId)
        (ConsensusError.internal "Proposal not found during removal.") =
        fail (.internal "Proposal not found during removal.") := by
      rw [ActiveProposals.getProposal, hentry]
      rfl
    rw [evaluateProposal, Stateful.run_read_bind, hmissing]
    exact .inl rfl

variable {next : Blockchain F} {change : String × String}

variable (h : chain.ResolvesOnly proposalId next)

include h

omit [F64 F] in
theorem ResolvesOnly.keyed (hkeyed : chain.activeProposals.Keyed) : next.activeProposals.Keyed := by
  rcases h with hsame | herased
  · rwa [hsame]
  · rw [herased]
    exact hkeyed.erase proposalId

variable {otherId : Hash} {proposalIds : List Hash}

omit [F64 F] in
theorem ResolvesOnly.lookup_ne (hne : otherId ≠ proposalId) :
    next.activeProposals.proposals.lookup otherId =
      chain.activeProposals.proposals.lookup otherId := by
  rcases h with hsame | herased
  · rw [hsame]
  · rw [herased]
    exact AList.lookup_erase_ne hne

variable (hkeyed : chain.activeProposals.Keyed)

include hkeyed

omit h

/-- A call is made for a proposal with enough votes, inside of its voting window. -/
theorem parameterChange?_eq_some_iff
    (hentry : chain.activeProposals.proposals.lookup proposalId = some entry)
    (hchange : entry.1.change? = some change) :
    parameterChange? height proposalId chain = some change ↔
      (¬ height < entry.1.startBlockHeight ∧ ¬ height > entry.1.endBlockHeight) ∧
        ActiveProposals.checkQuorumAndSupermajority
          (ActiveProposals.tallyOf entry.2 (chain.activeProposals.voterTypesMap proposalId))
          (UInt64.ofNat chain.liveTickets.countLiveTickets)
          (UInt64.ofNat chain.masternodeList.countActiveMasternodes) chain.params = .passed := by
  have hproposal : chain.activeProposals.getProposal proposalId = some entry.1 := by
    rw [ActiveProposals.getProposal, hentry]
    rfl
  obtain rfl := hkeyed proposalId entry hentry
  simp only [parameterChange?, hproposal, ActiveProposals.evaluateProposalAtHeight_eq hentry]
  by_cases hstart : height < entry.1.startBlockHeight
  · simp [hstart]
  · by_cases hend : height > entry.1.endBlockHeight
    · simp [hstart, hend]
    · simp only [if_neg hstart, if_neg hend]
      generalize ActiveProposals.checkQuorumAndSupermajority _ _ _ chain.params = outcome
      cases outcome with
      | passed => exact iff_of_true hchange ⟨⟨hstart, hend⟩, rfl⟩
      | rejected | inProgress | expired => simp

omit hkeyed in
/-- The loop makes calls for its own proposals only. -/
theorem mem_of_mem_parameterChanges
    (hcall : (proposalId, change) ∈ parameterChanges height proposalIds chain) :
    proposalId ∈ proposalIds := by
  induction proposalIds generalizing chain with
  | nil => cases hcall
  | cons headId rest ih =>
    rw [parameterChanges, mem_append] at hcall
    rcases hcall with hhead | htail
    · obtain ⟨call, -, heq⟩ := map_eq_some_iff.mp (mem_toList.mp hhead)
      cases heq
      exact mem_cons_self
    · rcases hrun : (evaluateProposal height headId).run chain with ⟨e | u, next⟩
      · rw [hrun] at htail
        cases htail
      · rw [hrun] at htail
        exact mem_cons_of_mem _ (ih htail)

/-- The chain when the turn of a proposal comes in the loop. -/
def atTurn (height : UInt64) (proposalId : Hash) (proposalIds : List Hash) (chain : Blockchain F) :
    Blockchain F :=
  ((forM (proposalIds.takeWhile (· ≠ proposalId)) (evaluateProposal height)).run chain).2

/-- A loop that removes a proposal comes to its turn, finds it as it was, and makes a
call for it then or not at all. -/
theorem atTurn_spec (hnodup : proposalIds.Nodup)
    (hentry : chain.activeProposals.proposals.lookup proposalId = some entry)
    (hremoved : ((forM proposalIds (evaluateProposal height)).run
      chain).2.activeProposals.proposals.lookup proposalId = none) (change : String × String) :
    (atTurn height proposalId proposalIds chain).activeProposals.Keyed ∧
      (atTurn height proposalId proposalIds chain).activeProposals.proposals.lookup proposalId =
        some entry ∧
      ((proposalId, change) ∈ parameterChanges height proposalIds chain ↔
        parameterChange? height proposalId (atTurn height proposalId proposalIds chain) =
          some change) := by
  induction proposalIds generalizing chain with
  | nil =>
    have hkept : chain.activeProposals.proposals.lookup proposalId = none := hremoved
    rw [hentry] at hkept
    cases hkept
  | cons headId rest ih =>
    rw [nodup_cons] at hnodup
    rw [parameterChanges, mem_append]
    by_cases hhead : headId = proposalId
    · subst hhead
      have hturn : atTurn height headId (headId :: rest) chain = chain := by
        simp [atTurn]
      rw [hturn]
      refine ⟨hkeyed, hentry, ?_⟩
      rw [or_iff_left]
      · simp
      · intro htail
        split at htail
        · exact hnodup.1 (mem_of_mem_parameterChanges htail)
        · cases htail
    · have hresolves := evaluateProposal_resolves hkeyed height headId
      have hlookup := hresolves.lookup_ne (Ne.symm hhead)
      rw [forM_cons] at hremoved
      rcases hrun : (evaluateProposal height headId).run chain with ⟨e | u, next⟩
      · -- an error ends the round, and the proposal is still there
        rw [Stateful.run_bind_of_error hrun] at hremoved
        rw [hrun] at hlookup
        rw [hlookup, hentry] at hremoved
        cases hremoved
      · rw [Stateful.run_bind_of_ok hrun] at hremoved
        rw [hrun] at hresolves hlookup
        have hturn : atTurn height proposalId (headId :: rest) chain =
            atTurn height proposalId rest next := by
          have hbefore : (headId :: rest).takeWhile (· ≠ proposalId) =
              headId :: rest.takeWhile (· ≠ proposalId) := by
            simp [hhead]
          rw [atTurn, hbefore, forM_cons, Stateful.run_bind_of_ok hrun]
          rfl
        rw [hturn]
        obtain ⟨hkept, hfound, hcalls⟩ :=
          ih (hresolves.keyed hkeyed) hnodup.2 (hlookup.trans hentry) hremoved
        refine ⟨hkept, hfound, ?_⟩
        rw [← hcalls, or_iff_right]
        simp [hhead]

end

end Blockchain

/-- The chain and the height at which governance is called next. -/
structure Timeline (F : Type) where
  chain : Blockchain F
  height : UInt64

namespace Timeline

open Outcome

variable {F : Type} [F64 F]

/-- One step of a run in which governance is called at every height. -/
inductive Step : Timeline F → Timeline F → Prop
  | propose {chain : Blockchain F} {height : UInt64} {proposal : GovernanceProposal}
      {next : ActiveProposals} (hok : chain.activeProposals.addProposal proposal = .ok next) :
      Step ⟨chain, height⟩ ⟨{ chain with activeProposals := next }, height⟩
  | vote {chain : Blockchain F} {height : UInt64} {vote : GovernanceVote} {next : ActiveProposals}
      (hok : chain.activeProposals.recordVote vote = .ok next) :
      Step ⟨chain, height⟩ ⟨{ chain with activeProposals := next }, height⟩
  | other {chain next : Blockchain F} {height : UInt64}
      (hproposals : next.activeProposals = chain.activeProposals)
      (hparams : next.params = chain.params) : Step ⟨chain, height⟩ ⟨next, height⟩
  | round (chain : Blockchain F) (height : UInt64) :
      Step ⟨chain, height⟩
        ⟨((Blockchain.evaluateAndApplyGovernance height).run chain).2, height + 1⟩

theorem Step.keyed {timeline next : Timeline F} (hstep : Step timeline next)
    (hkeyed : timeline.chain.activeProposals.Keyed) : next.chain.activeProposals.Keyed := by
  cases hstep with
  | propose hok => exact hkeyed.addProposal hok
  | vote hok => exact hkeyed.recordVote hok
  | other hproposals hparams =>
    rw [hproposals]
    exact hkeyed
  | round chain height => exact (Blockchain.evaluateAndApplyGovernance_spec height hkeyed).2

/-- In every run that starts without proposals they are kept under their ids. -/
theorem keyed_of_run {start timeline : Timeline F} (hstart : start.chain.activeProposals = .new)
    (hrun : Relation.ReflTransGen Step start timeline) :
    timeline.chain.activeProposals.Keyed := by
  induction hrun with
  | refl =>
    rw [hstart]
    exact ActiveProposals.keyed_new
  | tail _ hstep ih => exact hstep.keyed ih

variable (timeline : Timeline F) (proposalId : Hash)

/-- The round at this point takes the proposal away. -/
def Removes : Prop :=
  ((Blockchain.evaluateAndApplyGovernance timeline.height).run
    timeline.chain).2.activeProposals.proposals.lookup proposalId = none

/-- The round at this point calls `apply_parameter_change` for the proposal. -/
def Applies (change : String × String) : Prop :=
  (proposalId, change) ∈ Blockchain.parameterChanges timeline.height
    (timeline.chain.proposalIdsToRemove timeline.height) timeline.chain

/-- The voting window of the proposal is open. -/
def InWindow (timeline : Timeline F) (proposal : GovernanceProposal) : Prop :=
  proposal.startBlockHeight ≤ timeline.height ∧ timeline.height ≤ proposal.endBlockHeight

instance (timeline : Timeline F) (proposal : GovernanceProposal) :
    Decidable (timeline.InWindow proposal) :=
  inferInstanceAs (Decidable (_ ∧ _))

/-- The votes on the proposal meet the quorums and the majorities now. -/
def Approved (timeline : Timeline Rat) (proposalId : Hash)
    (votes : HashMap Hash GovernanceVote) : Prop :=
  ActiveProposals.EnoughVotes
    (ActiveProposals.tallyOf votes (timeline.chain.activeProposals.voterTypesMap proposalId))
    (UInt64.ofNat timeline.chain.liveTickets.countLiveTickets)
    (UInt64.ofNat timeline.chain.masternodeList.countActiveMasternodes) timeline.chain.params

/-- The point of the round at which the turn of the proposal comes. -/
def turn : Timeline F :=
  ⟨Blockchain.atTurn timeline.height proposalId
    (timeline.chain.proposalIdsToRemove timeline.height) timeline.chain, timeline.height⟩

section

variable {start timeline : Timeline F} (hstart : start.chain.activeProposals = .new)
  (hrun : Relation.ReflTransGen Step start timeline)
include hstart hrun

/-- At every point of a run, a round succeeds or fails on the text of a parameter value. -/
theorem round_benign :
    Blockchain.Benign ((Blockchain.evaluateAndApplyGovernance timeline.height).run
      timeline.chain).1 :=
  (Blockchain.evaluateAndApplyGovernance_spec _ (keyed_of_run hstart hrun)).1

end

/-- In every run, a round that removes a proposal has applied it exactly when its turn
came inside of its voting window and with enough votes. That takes an end that
overflows with the activation delay; and the call is the one that changes the
parameters. -/
theorem removed_applied_iff {start timeline : Timeline Rat}
    (hstart : start.chain.activeProposals = .new)
    (hrun : Relation.ReflTransGen Step start timeline) {proposalId : Hash}
    {entry : GovernanceProposal × HashMap Hash GovernanceVote} {change : String × String}
    (hentry : timeline.chain.activeProposals.proposals.lookup proposalId = some entry)
    (hchange : entry.1.change? = some change) (hremoves : timeline.Removes proposalId) :
    (timeline.Applies proposalId change ↔
      timeline.InWindow entry.1 ∧ (timeline.turn proposalId).Approved proposalId entry.2) ∧
    (timeline.Applies proposalId change →
      2 ^ 64 ≤ entry.1.endBlockHeight.toNat +
        timeline.chain.params.activationDelayBlocks.toNat ∧
      ((Blockchain.evaluateProposal timeline.height proposalId).run
        (timeline.turn proposalId).chain).2.params =
          Blockchain.changedBy (timeline.turn proposalId).chain.params change) := by
  rw [Removes, Blockchain.evaluateAndApplyGovernance, Stateful.run_read_bind] at hremoves
  obtain ⟨hkeyed, hfound, hcalls⟩ := Blockchain.atTurn_spec (keyed_of_run hstart hrun)
    (timeline.chain.activeProposals.proposals.keys_nodup.filter _) hentry hremoves change
  have hwindow : timeline.Applies proposalId change ↔
      timeline.InWindow entry.1 ∧ (timeline.turn proposalId).Approved proposalId entry.2 := by
    refine hcalls.trans ((Blockchain.parameterChange?_eq_some_iff hkeyed hfound hchange).trans ?_)
    rw [ActiveProposals.checkQuorumAndSupermajority_eq_passed, UInt64.not_lt, gt_iff_lt,
      UInt64.not_lt]
    rfl
  refine ⟨hwindow, fun hcall => ⟨?_, ?_⟩⟩
  · have hselected := (mem_filter.mp (Blockchain.mem_of_mem_parameterChanges hcall)).2
    simp only [ActiveProposals.getProposal, hentry, map_some, decide_eq_true_eq, gt_iff_lt,
      UInt64.lt_iff_toNat_lt, UInt64.toNat_add] at hselected
    have hclosed := UInt64.le_iff_toNat_le.mp (hwindow.mp hcall).1.2
    -- otherwise the sum would be the exact one, and the height beyond the end
    by_contra hfits
    rw [Nat.mod_eq_of_lt (Nat.lt_of_not_le hfits)] at hselected
    omega
  · rw [Blockchain.params_evaluateProposal]
    exact congrArg _ (hcalls.mp hcall)

/-- A chain with one live ticket and one active masternode. -/
def council : Blockchain Rat :=
  { Blockchain.new with
    liveTickets := LiveTicketsPool.new.addTicket ⟨.replicate 32 1, [], 0, 0, .live⟩
    masternodeList := ⟨AList.insert ⟨.replicate 32 2, 0⟩
      { MasternodeList.registeredEntry ⟨⟨.replicate 32 2, 0⟩, [], "", [], none, []⟩ 0 with
        status := .active } ∅⟩ }

/-- A proposal for another ticket price. -/
def priceChange (startBlockHeight endBlockHeight : UInt64) : GovernanceProposal where
  proposalId := .replicate 32 42
  proposerAddress := .replicate 32 1
  proposalType := .parameterChange
  startBlockHeight := startBlockHeight
  endBlockHeight := endBlockHeight
  title := "Change ticket price"
  descriptionHash := .replicate 32 2
  codeChangeHash := none
  targetParameter := some "ticket_price"
  newValue := some "10000012345"
  bugDescription := none
  recipientAddress := none
  amount := none
  projectDescription := none
  proposerSignature := .replicate 64 3
  inputs := []
  outputs := []
  lockTime := 0
  witness := []
  fee := 0

def approval (voterType : VoterType) (voterId : PublicKey) : GovernanceVote where
  proposalId := .replicate 32 42
  voterType := voterType
  voterId := voterId
  voteChoice := .yes
  voterSignature := .replicate 64 3
  inputs := []
  outputs := []
  lockTime := 0
  witness := []
  fee := 0

/-- The votes of the ticket holder and of the masternode. -/
def approvals : HashMap Hash GovernanceVote :=
  AList.insert (.replicate 32 2) (approval .masternode (.replicate 32 2))
    (AList.insert (.replicate 32 1) (approval .posTicket (.replicate 32 1)) ∅)

/-- The chain after both have voted for the proposal. -/
def voted (startBlockHeight endBlockHeight : UInt64) : Blockchain Rat :=
  { council with
    activeProposals := ⟨AList.insert (.replicate 32 42)
      (priceChange startBlockHeight endBlockHeight, approvals) ∅⟩ }

variable (startBlockHeight endBlockHeight height : UInt64)

theorem run_voted :
    Relation.ReflTransGen Step ⟨council, height⟩
      ⟨voted startBlockHeight endBlockHeight, height⟩ := by
  let proposal := priceChange startBlockHeight endBlockHeight
  let proposed : ActiveProposals := ⟨AList.insert (.replicate 32 42) (proposal, ∅) ∅⟩
  let counted : ActiveProposals := ⟨AList.insert (.replicate 32 42)
    (proposal, AList.insert (.replicate 32 1) (approval .posTicket (.replicate 32 1)) ∅) ∅⟩
  have hproposed : council.activeProposals.addProposal proposal = .ok proposed := rfl
  have hticket : proposed.recordVote (approval .posTicket (.replicate 32 1)) = .ok counted := rfl
  have hmasternode : counted.recordVote (approval .masternode (.replicate 32 2)) =
    .ok (voted startBlockHeight endBlockHeight).activeProposals := rfl
  exact .tail (.tail (.tail .refl (.propose hproposed)) (.vote hticket)) (.vote hmasternode)

theorem approved_voted :
    Timeline.Approved ⟨voted startBlockHeight endBlockHeight, height⟩ (.replicate 32 42)
      approvals := by
  have htally : ActiveProposals.tallyOf approvals ((voted startBlockHeight
      endBlockHeight).activeProposals.voterTypesMap (.replicate 32 42)) = ⟨1, 0, 1, 0⟩ := rfl
  have hone : (0 : UInt64) < 1 := by decide
  rw [Approved, htally]
  refine ⟨⟨hone, ?_⟩, ⟨hone, ?_⟩, ⟨hone, ?_⟩, ⟨hone, ?_⟩⟩
  · change (0.20 : Rat) ≤ ((1 : Nat) : Rat) / (1 : Nat)
    norm_num
  · change (0.50 : Rat) ≤ ((1 : Nat) : Rat) / (1 : Nat)
    norm_num
  · change (0.75 : Rat) ≤ ((1 : Nat) : Rat) / (1 : Nat)
    norm_num
  · change (0.66 : Rat) ≤ ((1 : Nat) : Rat) / (1 : Nat)
    norm_num

theorem run_idle {chain : Blockchain F} (height : UInt64) (n : Nat)
    (hidle : ∀ k < n, chain.proposalIdsToRemove (height + UInt64.ofNat k) = []) :
    Relation.ReflTransGen Step ⟨chain, height⟩ ⟨chain, height + UInt64.ofNat n⟩ := by
  induction n with
  | zero =>
    have hzero : height + UInt64.ofNat 0 = height := UInt64.add_zero height
    rw [hzero]
  | succ n ih =>
    have hround : (Blockchain.evaluateAndApplyGovernance (height + UInt64.ofNat n)).run chain =
        (.ok (), chain) := by
      rw [Blockchain.evaluateAndApplyGovernance, Stateful.run_read_bind,
        hidle n (Nat.lt_succ_self n)]
      rfl
    have hstep := Step.round chain (height + UInt64.ofNat n)
    rw [hround, UInt64.add_assoc, ← UInt64.ofNat_one, ← UInt64.ofNat_add] at hstep
    exact .tail (ih fun k hk => hidle k (Nat.lt_succ_of_lt hk)) hstep

/-- A window that never closes is counted right away. -/
theorem removes_voted : Timeline.Removes ⟨voted 0 maxHeight, 100⟩ (.replicate 32 42) := by
  have hids : (voted 0 maxHeight).proposalIdsToRemove 100 = [.replicate 32 42] := by decide
  have hentry : (voted 0 maxHeight).activeProposals.proposals.lookup (.replicate 32 42) =
      some (priceChange 0 maxHeight, approvals) := AList.lookup_insert _
  have hpassed := ActiveProposals.checkQuorumAndSupermajority_eq_passed.mpr
    (approved_voted 0 maxHeight 100)
  have hrun := Blockchain.evaluateProposal_run hentry hentry 100
  rw [if_neg (by decide), if_neg (by decide)] at hrun
  have hresolved : (Blockchain.evaluateProposal 100 (.replicate 32 42)).run (voted 0 maxHeight) =
      (.ok (), ((Blockchain.resolveProposal (priceChange 0 maxHeight) .passed).run
        (voted 0 maxHeight)).2) :=
    hrun.trans (congrArg (fun outcome => (Blockchain.resolveProposal _ outcome).run _) hpassed)
  rw [Removes, Blockchain.evaluateAndApplyGovernance, Stateful.run_read_bind]
  change ((forM ((voted 0 maxHeight).proposalIdsToRemove 100)
    (Blockchain.evaluateProposal 100)).run (voted 0 maxHeight)).2.activeProposals.proposals.lookup
      _ = none
  rw [hids, forM_cons, Stateful.run_bind_of_ok hresolved]
  decide

theorem removed_applied_iff_voted :
    Timeline.Removes ⟨voted 0 maxHeight, 100⟩ (.replicate 32 42) ∧
      Timeline.Applies ⟨voted 0 maxHeight, 100⟩ (.replicate 32 42)
        ("ticket_price", "10000012345") := by
  have hids : (voted 0 maxHeight).proposalIdsToRemove 100 = [.replicate 32 42] := by decide
  have hturn : Timeline.turn ⟨voted 0 maxHeight, 100⟩ (.replicate 32 42) =
      ⟨voted 0 maxHeight, 100⟩ := by
    simp only [turn, hids]
    rfl
  refine ⟨removes_voted, (removed_applied_iff (by rfl) (run_voted 0 maxHeight 100)
    (AList.lookup_insert _) rfl removes_voted).1.mpr ⟨by decide, ?_⟩⟩
  rw [hturn]
  exact approved_voted 0 maxHeight 100

/-- The proposal passes, and the price is the new one. -/
theorem round_benign_voted :
    Blockchain.Benign ((Blockchain.evaluateAndApplyGovernance 100).run (voted 0 maxHeight)).1 ∧
      ((Blockchain.evaluateAndApplyGovernance 100).run (voted 0 maxHeight)).2.params.ticketPrice =
        10000012345 :=
  ⟨@round_benign _ _ _ ⟨voted 0 maxHeight, 100⟩ rfl (run_voted 0 maxHeight 100),
    by decide +kernel⟩

/-- The votes are in, and the window closes without a round that counts them. -/
theorem approved_proposal_expires :
    (Relation.ReflTransGen Step ⟨council, 1⟩ ⟨voted 1 2, 1⟩ ∧
      council.activeProposals = .new ∧
      Timeline.InWindow ⟨voted 1 2, 1⟩ (priceChange 1 2) ∧
      Timeline.Approved ⟨voted 1 2, 1⟩ (.replicate 32 42) approvals) ∧
    Relation.ReflTransGen Step ⟨voted 1 2, 1⟩ ⟨voted 1 2, 103⟩ ∧
    Timeline.Removes ⟨voted 1 2, 103⟩ (.replicate 32 42) ∧
    ¬ Timeline.Applies ⟨voted 1 2, 103⟩ (.replicate 32 42) ("ticket_price", "10000012345") := by
  refine ⟨⟨run_voted 1 2 1, rfl, by decide, approved_voted 1 2 1⟩, ?_, ?_, ?_⟩
  · exact run_idle 1 102 (by decide)
  · unfold Removes
    decide
  · unfold Applies
    decide

end Timeline

theorem Tally.count_right_comm (tally : Tally) (type type' : Option GovernanceVoterType)
    (choice choice' : VoteChoice) :
    (tally.count type choice).count type' choice' =
      (tally.count type' choice').count type choice := by
  rcases type with _ | _ | _ <;> rcases type' with _ | _ | _ <;> cases choice <;> cases choice' <;>
    rfl

namespace ActiveProposals

/-- Nodes with the same votes come to the same outcome, in whatever order they count them. -/
theorem evaluateProposalAtHeight_congr {F : Type} [F64 F] {self other : ActiveProposals}
    (hsame : self.SameContents other) (proposalId : Hash) (height tickets masternodes : UInt64)
    (params : ConsensusParams F) :
    self.evaluateProposalAtHeight proposalId height tickets masternodes params
        (self.voterTypesMap proposalId) =
      other.evaluateProposalAtHeight proposalId height tickets masternodes params
        (other.voterTypesMap proposalId) := by
  have hentry := hsame proposalId
  simp only [evaluateProposalAtHeight, voterTypesMap, getProposal, getVotesForProposal]
  generalize self.proposals.lookup proposalId = entry at hentry ⊢
  generalize other.proposals.lookup proposalId = entry' at hentry ⊢
  cases hentry with
  | none => rfl
  | some hvotes =>
    simp only [Option.map_some, hvotes.1, Outcome.okOr, Outcome.ok_bind, HashMap.lookup_mapValues,
      HashMap.sameEntries_iff.mp hvotes.2 _]
    rw [hvotes.2.toPairs.foldl_eq' fun _ _ _ _ _ => Tally.count_right_comm ..]

open Timeline in
/-- The two votes in the other order. -/
theorem evaluateProposalAtHeight_congr_swapped :
    let other : ActiveProposals := ⟨AList.insert (.replicate 32 42) (priceChange 1 2,
      AList.insert (.replicate 32 1) (approval .posTicket (.replicate 32 1))
        (AList.insert (.replicate 32 2) (approval .masternode (.replicate 32 2)) ∅)) ∅⟩
    other.evaluateProposalAtHeight (.replicate 32 42) 1 1 1 council.params
      (other.voterTypesMap (.replicate 32 42)) = .ok .passed := by
  refine (evaluateProposalAtHeight_congr (?_ : SameContents _ (voted 1 2).activeProposals)
    _ 1 1 1 _).trans (by decide +kernel)
  intro proposalId
  by_cases hid : proposalId = .replicate 32 42
  · subst hid
    exact .some ⟨rfl, .swap _ _ _⟩
  · rw [AList.lookup_insert_ne hid]
    exact (AList.lookup_insert_ne hid).symm ▸ .none

end ActiveProposals

end RustyCoin
