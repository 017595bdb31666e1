import RustyCoin.Consensus.Error

/-!
# Consensus parameters

The parameters of the chain, their default values, and how an approved proposal
changes one of them. The numbers of type `f64` are a parameter `F` of the model:
only the operations of the class `F64` are used on them. The exact rationals are
one such type of numbers.
-/

namespace RustyCoin

/-- What the code does with `f64` values. -/
class F64 (F : Type) extends OfScientific F where
  ofU64 : UInt64 → F
  div : F → F → F
  mul : F → F → F
  ge : F → F → Bool
  /-- `round() as u64`, which stops at the ends of the range. -/
  roundToU64 : F → UInt64
  /-- `str::parse`. -/
  parse : String → Option F

/-- The value of a list of decimal digits; `none` if it is empty or has another
character. -/
def digitsValue (digits : List Char) : Option Nat :=
  if digits.isEmpty || !digits.all Char.isDigit then none
  else some (digits.foldl (fun n c => 10 * n + (c.toNat - '0'.toNat)) 0)

variable (text : String)

/-- A decimal number with an optional fraction, read exactly. Signs, exponents and the
names of special values are turned down. -/
def parseRat : Option Rat :=
  match text.toList.span (· ≠ '.') with
  | (whole, '.' :: fraction) => do
    let n ← digitsValue (whole ++ fraction)
    return OfScientific.ofScientific n true fraction.length
  | (whole, _) => (digitsValue whole).map fun n => (n : Rat)

instance : F64 Rat where
  ofU64 n := (n.toNat : Rat)
  div a b := a / b
  mul a b := a * b
  ge a b := decide (b ≤ a)
  roundToU64 a := UInt64.ofNat (min (a + 1 / 2).floor.toNat (2 ^ 64 - 1))
  parse := parseRat

/-- `str::parse` for an unsigned type of the given width: an optional plus sign,
then decimal digits. -/
def parseUnsigned (width : Nat) (text : String) : Option Nat := do
  let digits := match text.toList with
    | '+' :: rest => rest
    | digits => digits
  let value ← digitsValue digits
  if value < 2 ^ width then some value else none

def parseU32 : Option UInt32 := (parseUnsigned 32 text).map UInt32.ofNat

def parseU64 : Option UInt64 := (parseUnsigned 64 text).map UInt64.ofNat

/-- `usize` has 64 bits. -/
def parseUsize : Option UInt64 := parseU64 text

structure ConsensusParams (F : Type) where
  minStake : UInt64
  maxTicketsPerStake : UInt32
  ticketPrice : UInt64
  ticketMaturity : UInt32
  ticketExpiry : UInt32
  ticketsPerRound : UInt64
  minBlockTime : UInt64
  rewardAmount : UInt64
  targetLiveTickets : UInt64
  priceAdjustmentFactor : F
  difficultyAdjustmentWindow : UInt32
  halvingInterval : UInt64
  initialBlockReward : UInt64
  posRewardRatio : F
  minerAddress : Bytes
  ticketPriceAdjustmentPeriod : UInt64
  maxTicketPrice : UInt64
  minTicketPrice : UInt64
  proposalStakeAmount : UInt64
  votingPeriodBlocks : UInt64
  posVotingQuorumPercentage : F
  mnVotingQuorumPercentage : F
  posApprovalPercentage : F
  mnApprovalPercentage : F
  activationDelayBlocks : UInt64
  gracePeriodBlocks : UInt64
  slashForgivenessPeriod : UInt64
  maliciousBehaviorSlashPercentage : F
  poseChallengePeriodBlocks : UInt64
  numPoseChallengers : UInt32
  numPoseTargetsPerPeriod : UInt32
  poseResponseTimeoutSeconds : UInt64
  maxPoseFailures : UInt32
  resetFailuresPeriod : UInt32
  minWitnessSignatures : UInt32
  posFinalityDepth : UInt32
  maxBlockSize : UInt64
  maxTxSize : UInt64
  blockReward : UInt64
  coinbaseMaturity : UInt32
  dustLimit : UInt64
  minRelayTxFee : UInt64
  masternodeCollateralAmount : UInt64
  maxInactivityBlocks : UInt32
  protocolUpgradeApprovalPercentage : F
  parameterChangeApprovalPercentage : F
  treasurySpendApprovalPercentage : F
  bugFixApprovalPercentage : F
  communityFundApprovalPercentage : F

namespace ConsensusParams

open Outcome

variable {F : Type} [F64 F]

def default : ConsensusParams F where
  minStake := 100000000
  maxTicketsPerStake := 1
  ticketPrice := 10000000000
  ticketMaturity := 10
  ticketExpiry := 4096
  ticketsPerRound := 5
  minBlockTime := 150
  rewardAmount := 1000000
  targetLiveTickets := 20000
  priceAdjustmentFactor := 0.05
  difficultyAdjustmentWindow := 144
  halvingInterval := 210000
  initialBlockReward := 50000000000
  posRewardRatio := 0.6
  minerAddress := .replicate 20 0
  ticketPriceAdjustmentPeriod := 2016
  maxTicketPrice := 1000000000000
  minTicketPrice := 100000000
  proposalStakeAmount := 100000000000
  votingPeriodBlocks := 20160
  posVotingQuorumPercentage := 0.20
  mnVotingQuorumPercentage := 0.50
  posApprovalPercentage := 0.75
  mnApprovalPercentage := 0.66
  activationDelayBlocks := 100
  gracePeriodBlocks := 10
  slashForgivenessPeriod := 100
  maliciousBehaviorSlashPercentage := 1.0
  poseChallengePeriodBlocks := 60
  numPoseChallengers := 3
  numPoseTargetsPerPeriod := 5
  poseResponseTimeoutSeconds := 60
  maxPoseFailures := 3
  resetFailuresPeriod := 100
  minWitnessSignatures := 3
  posFinalityDepth := 1
  maxBlockSize := 4000000
  maxTxSize := 100000
  blockReward := 50000000000
  coinbaseMaturity := 100
  dustLimit := 500
  minRelayTxFee := 1
  masternodeCollateralAmount := 2600000000000
  maxInactivityBlocks := 1000
  protocolUpgradeApprovalPercentage := 0.8
  parameterChangeApprovalPercentage := 0.75
  treasurySpendApprovalPercentage := 0.6
  bugFixApprovalPercentage := 0.6
  communityFundApprovalPercentage := 0.65

/-- Read the new value of a parameter as a value of its type. -/
def parsed {α : Type} (kind : String) (parse : String → Option α) (paramName newValue : String) :
    ConsensusResult α :=
  okOr (parse newValue) (.invalidParameter kind paramName newValue)

/-- Change one parameter. A name that is not known is ignored. -/
def applyParameterChange (params : ConsensusParams F) (paramName newValue : String) :
    ConsensusResult (ConsensusParams F) :=
  let u64 := parsed "u64" parseU64 paramName newValue
  let u32 := parsed "u32" parseU32 paramName newValue
  let f64 := parsed "f64" F64.parse paramName newValue
  let usize := parsed "usize" parseUsize paramName newValue
  match paramName with
  | "min_stake" => u64.map fun v => { params with minStake := v }
  | "max_tickets_per_stake" => u32.map fun v => { params with maxTicketsPerStake := v }
  | "ticket_price" => u64.map fun v => { params with ticketPrice := v }
  | "ticket_maturity" => u32.map fun v => { params with ticketMaturity := v }
  | "ticket_expiry" => u32.map fun v => { params with ticketExpiry := v }
  | "min_block_time" => u64.map fun v => { params with minBlockTime := v }
  | "reward_amount" => u64.map fun v => { params with rewardAmount := v }
  | "target_live_tickets" => u64.map fun v => { params with targetLiveTickets := v }
  | "difficulty_adjustment_window" =>
    u32.map fun v => { params with difficultyAdjustmentWindow := v }
  | "halving_interval" => u64.map fun v => { params with halvingInterval := v }
  | "initial_block_reward" => u64.map fun v => { params with initialBlockReward := v }
  | "ticket_price_adjustment_period" =>
    u64.map fun v => { params with ticketPriceAdjustmentPeriod := v }
  | "max_ticket_price" => u64.map fun v => { params with maxTicketPrice := v }
  | "min_ticket_price" => u64.map fun v => { params with minTicketPrice := v }
  | "proposal_stake_amount" => u64.map fun v => { params with proposalStakeAmount := v }
  | "voting_period_blocks" => u64.map fun v => { params with votingPeriodBlocks := v }
  | "activation_delay_blocks" => u64.map fun v => { params with activationDelayBlocks := v }
  | "grace_period_blocks" => u64.map fun v => { params with gracePeriodBlocks := v }
  | "slash_forgiveness_period" => u64.map fun v => { params with slashForgivenessPeriod := v }
  | "pose_challenge_period_blocks" =>
    u64.map fun v => { params with poseChallengePeriodBlocks := v }
  | "num_pose_challengers" => u32.map fun v => { params with numPoseChallengers := v }
  | "num_pose_targets_per_period" => u32.map fun v => { params with numPoseTargetsPerPeriod := v }
  | "pose_response_timeout_seconds" =>
    u64.map fun v => { params with poseResponseTimeoutSeconds := v }
  | "max_pose_failures" => u32.map fun v => { params with maxPoseFailures := v }
  | "reset_failures_period" => u32.map fun v => { params with resetFailuresPeriod := v }
  | "min_witness_signatures" => u32.map fun v => { params with minWitnessSignatures := v }
  | "pos_finality_depth" => u32.map fun v => { params with posFinalityDepth := v }
  | "max_block_size" => u64.map fun v => { params with maxBlockSize := v }
  | "max_tx_size" => usize.map fun v => { params with maxTxSize := v }
  | "block_reward" => u64.map fun v => { params with blockReward := v }
  | "coinbase_maturity" => u32.map fun v => { params with coinbaseMaturity := v }
  | "dust_limit" => u64.map fun v => { params with dustLimit := v }
  | "min_relay_tx_fee" => u64.map fun v => { params with minRelayTxFee := v }
  | "masternode_collateral_amount" =>
    u64.map fun v => { params with masternodeCollateralAmount := v }
  | "max_inactivity_blocks" => u32.map fun v => { params with maxInactivityBlocks := v }
  | "price_adjustment_factor" => f64.map fun v => { params with priceAdjustmentFactor := v }
  | "pos_reward_ratio" => f64.map fun v => { params with posRewardRatio := v }
  | "pos_voting_quorum_percentage" =>
    f64.map fun v => { params with posVotingQuorumPercentage := v }
  | "mn_voting_quorum_percentage" => f64.map fun v => { params with mnVotingQuorumPercentage := v }
  | "pos_approval_percentage" => f64.map fun v => { params with posApprovalPercentage := v }
  | "mn_approval_percentage" => f64.map fun v => { params with mnApprovalPercentage := v }
  | "malicious_behavior_slash_percentage" =>
    f64.map fun v => { params with maliciousBehaviorSlashPercentage := v }
  | "protocol_upgrade_approval_percentage" =>
    f64.map fun v => { params with protocolUpgradeApprovalPercentage := v }
  | "parameter_change_approval_percentage" =>
    f64.map fun v => { params with parameterChangeApprovalPercentage := v }
  | "treasury_spend_approval_percentage" =>
    f64.map fun v => { params with treasurySpendApprovalPercentage := v }
  | "bug_fix_approval_percentage" => f64.map fun v => { params with bugFixApprovalPercentage := v }
  | "community_fund_approval_percentage" =>
    f64.map fun v => { params with communityFundApprovalPercentage := v }
  | "tickets_per_round" => usize.map fun v => { params with ticketsPerRound := v }
  | _ => .ok params

/-- A value that cannot be read leaves the parameters as they are. -/
def applyAll (params : ConsensusParams F) (changes : List (String × String)) : ConsensusParams F :=
  changes.foldl (fun params change =>
    (params.applyParameterChange change.1 change.2).toOption.getD params) params

/-- None of the parameters that are divided by is zero. -/
def Divides (params : ConsensusParams F) : Prop :=
  params.halvingInterval ≠ 0 ∧ params.difficultyAdjustmentWindow ≠ 0 ∧ params.minBlockTime ≠ 0

/-- The change sets one of them to zero. -/
def SetsZero (change : String × String) : Prop :=
  (change.1 = "halving_interval" ∨ change.1 = "min_block_time") ∧ parseU64 change.2 = some 0 ∨
    change.1 = "difficulty_adjustment_window" ∧ parseU32 change.2 = some 0

variable {params : ConsensusParams F} (hparams : params.Divides)
include hparams

omit [F64 F] in
theorem divides_parsed {α : Type} {kind name value : String} {parse : String → Option α}
    {update : α → ConsensusParams F} :
    (((parsed kind parse name value).map update).toOption.getD params).Divides ↔
      ∀ v, parse value = some v → (update v).Divides := by
  unfold parsed
  cases parse value with
  | none => exact iff_of_true hparams nofun
  | some v => exact ⟨fun h _ hv => Option.some.inj hv ▸ h, fun h => h v rfl⟩

theorem divides_change (change : String × String) :
    (params.applyAll [change]).Divides ↔ ¬ SetsZero change := by
  obtain ⟨name, value⟩ := change
  change (Option.getD (params.applyParameterChange name value).toOption params).Divides ↔ _
  unfold applyParameterChange
  dsimp only
  split
  case h_6 | h_9 | h_10 =>
    rw [divides_parsed hparams]
    constructor
    · intro h hzero
      simpa [Divides] using h 0 (by simpa [SetsZero] using hzero)
    · intro h v hv
      have hne : v ≠ 0 := by
        rintro rfl
        exact h (by simp [SetsZero, hv])
      simp [Divides, hne, hparams.1, hparams.2.1, hparams.2.2]
  all_goals first
    | exact iff_of_true ((divides_parsed hparams).mpr fun _ _ => hparams) (by simp [SetsZero])
    | exact iff_of_true hparams (by rintro (⟨h | h, -⟩ | ⟨h, -⟩) <;> contradiction)

open List in
omit hparams in
theorem divides_applyAll (changes : List (String × String)) :
    (∀ front, front <+: changes → (params.applyAll front).Divides) ↔
      params.Divides ∧ ∀ change ∈ changes, ¬ SetsZero change := by
  induction changes generalizing params with
  | nil => simp [applyAll]
  | cons change changes ih =>
    have hcons : (∀ front, front <+: change :: changes → (params.applyAll front).Divides) ↔
        params.Divides ∧ ∀ front, front <+: changes →
          ((params.applyAll [change]).applyAll front).Divides := by
      constructor
      · intro h
        exact ⟨h [] nil_prefix, fun front hfront => h _ ((prefix_cons_inj change).mpr hfront)⟩
      · rintro ⟨hnil, hrest⟩ front hfront
        obtain rfl | ⟨rest, rfl, htail⟩ := prefix_cons_iff.mp hfront
        · exact hnil
        · exact hrest rest htail
    rw [hcons, ih, forall_mem_cons]
    exact and_congr_right fun hparams => and_congr_left' (divides_change hparams change)

end ConsensusParams

end RustyCoin
