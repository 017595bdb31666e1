import RustyCoin.Consensus.Blockchain
import RustyCoin.Consensus.Compact
import RustyCoin.Lib.MinMax

/-!
# Difficulty adjustment

The retargeting of rusty-consensus scales the previous target by the ratio of two
time spans, in fixed-point arithmetic. It does what it is for as long as the product
of target and ratio fits in 256 bits; otherwise it aborts.

The check of rusty-core does the same on the *encoded* target: it takes the
compact value of the last block for the number that it encodes.
-/

namespace RustyCoin

open Outcome

namespace ConsensusPow

/-- `PRECISION_FACTOR` -/
def precisionFactor : Nat := 1000000000

variable (previousTarget : Nat)
  (actualTimeSpan expectedTimeSpan maxDifficultyAdjustmentFactor : UInt64)

/-- Steps d to f of the adjustment: the target times the clamped ratio of the time spans. -/
def scaleTarget :
    ConsensusResult Nat := do
  let timeRatioNumerator ← Pow.mulU256 actualTimeSpan.toNat precisionFactor
  let timeRatio ← Pow.divU256 timeRatioNumerator expectedTimeSpan.toNat
  let minRatio ← Pow.divU256 precisionFactor maxDifficultyAdjustmentFactor.toNat
  let maxRatio ← Pow.mulU256 precisionFactor maxDifficultyAdjustmentFactor.toNat
  let clampedTimeRatio := max (min timeRatio maxRatio) minRatio
  let scaled ← Pow.mulU256 previousTarget clampedTimeRatio
  Pow.divU256 scaled precisionFactor

/-- Step g: the two upper clamps. -/
def clampTarget (minDifficultyTarget maxTarget newTarget : Nat) : Nat :=
  let newTarget :=
    if newTarget > minDifficultyTarget ∧ minDifficultyTarget ≠ 0 then minDifficultyTarget
    else newTarget
  if newTarget > maxTarget then maxTarget else newTarget

def calculateNewTarget (minDifficultyTarget maxTarget : Nat) : ConsensusResult Nat := do
  let newTarget ← scaleTarget previousTarget actualTimeSpan expectedTimeSpan
    maxDifficultyAdjustmentFactor
  return clampTarget minDifficultyTarget maxTarget newTarget

/-- The ratio of the time spans in billionths, between `1 / factor` and `factor`. -/
def clampedRatio (actual expected factor : Nat) : Nat :=
  max (min (actual * precisionFactor / expected) (precisionFactor * factor))
    (precisionFactor / factor)

variable {actual actual' expected factor : Nat}

theorem clampedRatio_mono (hle : actual ≤ actual') :
    clampedRatio actual expected factor ≤ clampedRatio actual' expected factor := by
  have hratio : actual * precisionFactor / expected ≤ actual' * precisionFactor / expected :=
    Nat.div_le_div_right (Nat.mul_le_mul_right _ hle)
  unfold clampedRatio
  omega

theorem clampedRatio_le (hfactor : 1 ≤ factor) :
    clampedRatio actual expected factor ≤ precisionFactor * factor := by
  have hless : precisionFactor / factor ≤ precisionFactor := Nat.div_le_self _ _
  have hmore : precisionFactor ≤ precisionFactor * factor := Nat.le_mul_of_pos_right _ hfactor
  unfold clampedRatio
  omega

/-- Without a delay the ratio is one. -/
theorem clampedRatio_self (hexpected : 0 < expected) (hfactor : 1 ≤ factor) :
    clampedRatio expected expected factor = precisionFactor := by
  have hless : precisionFactor / factor ≤ precisionFactor := Nat.div_le_self _ _
  have hmore : precisionFactor ≤ precisionFactor * factor := Nat.le_mul_of_pos_right _ hfactor
  unfold clampedRatio
  rw [Nat.mul_div_cancel_left _ hexpected]
  omega

variable (minDifficultyTarget maxTarget target : Nat)

/-- Both clamps are minima; a minimum difficulty of zero stands for none. -/
theorem clampTarget_eq :
    clampTarget minDifficultyTarget maxTarget target =
      min (if minDifficultyTarget = 0 then target else min target minDifficultyTarget)
        maxTarget := by
  have hmin (a b : Nat) : (if a > b then b else a) = min a b := by
    split <;> omega
  unfold clampTarget
  rw [hmin]
  refine congrArg (min · maxTarget) ?_
  by_cases hzero : minDifficultyTarget = 0
  · rw [if_pos hzero, if_neg fun h => h.2 hzero]
  · simp only [hzero, ne_eq, not_false_eq_true, and_true, if_false, hmin]

theorem clampTarget_mono {target target' : Nat} (hle : target ≤ target')
    (minDifficultyTarget maxTarget : Nat) :
    clampTarget minDifficultyTarget maxTarget target ≤
      clampTarget minDifficultyTarget maxTarget target' := by
  rw [clampTarget_eq, clampTarget_eq]
  split <;> omega

theorem clampTarget_le_min {minDifficultyTarget : Nat} (hmin : minDifficultyTarget ≠ 0)
    (maxTarget target : Nat) :
    clampTarget minDifficultyTarget maxTarget target ≤ minDifficultyTarget := by
  rw [clampTarget_eq, if_neg hmin]
  omega

theorem clampTarget_le_max : clampTarget minDifficultyTarget maxTarget target ≤ maxTarget := by
  rw [clampTarget_eq]
  exact Nat.min_le_right _ _

section

variable {expectedTimeSpan factor : UInt64}

/-- Only the last product can be out of range. -/
theorem scaleTarget_eq (hexpected : 0 < expectedTimeSpan) (hfactor : 1 ≤ factor)
    (previousTarget : Nat) (actualTimeSpan : UInt64) :
    scaleTarget previousTarget actualTimeSpan expectedTimeSpan factor =
      let ratio := clampedRatio actualTimeSpan.toNat expectedTimeSpan.toNat factor.toNat
      if previousTarget * ratio ≤ Pow.maxU256 then .ok (previousTarget * ratio / precisionFactor)
      else .error .panic := by
  have hmul (n : UInt64) : n.toNat * precisionFactor ≤ Pow.maxU256 := by
    calc n.toNat * precisionFactor ≤ 2 ^ 64 * precisionFactor :=
          Nat.mul_le_mul_right _ n.toNat_lt.le
      _ ≤ Pow.maxU256 := by decide
  have hpos : expectedTimeSpan.toNat ≠ 0 := (UInt64.lt_iff_toNat_lt.mp hexpected).ne'
  have hfactor' : factor.toNat ≠ 0 := Nat.one_le_iff_ne_zero.mp (UInt64.le_iff_toNat_le.mp hfactor)
  have hmax : precisionFactor * factor.toNat ≤ Pow.maxU256 := by
    rw [Nat.mul_comm]
    exact hmul factor
  have hprecision : precisionFactor ≠ 0 := by decide
  have hdiv {a b : Nat} (hb : b ≠ 0) : Pow.divU256 a b = .ok (a / b) := if_neg hb
  have hscale : scaleTarget previousTarget actualTimeSpan expectedTimeSpan factor =
      Pow.mulU256 previousTarget
        (clampedRatio actualTimeSpan.toNat expectedTimeSpan.toNat factor.toNat) >>=
          fun scaled => .ok (scaled / precisionFactor) := by
    rw [scaleTarget, Pow.mulU256, if_pos (hmul actualTimeSpan), ok_bind, hdiv hpos, ok_bind,
      hdiv hfactor', ok_bind, Pow.mulU256, if_pos hmax, ok_bind]
    exact bind_congr fun _ => hdiv hprecision
  rw [hscale]
  dsimp only
  rw [Pow.mulU256]
  split
  · rw [ok_bind]
  · rw [error_bind]

/-- What an adjustment from `previousTarget` is to do: it returns, it is at most that of a longer
time span, it changes the target by at most the factor, it keeps the limits, and it changes
nothing without a delay. -/
structure Retargets (previousTarget : Nat) (actualTimeSpan expectedTimeSpan factor : UInt64)
    (minDifficultyTarget maxTarget : Nat) (scaled newTarget : Nat) : Prop where
  scales : scaleTarget previousTarget actualTimeSpan expectedTimeSpan factor = .ok scaled
  returns : calculateNewTarget previousTarget actualTimeSpan expectedTimeSpan factor
    minDifficultyTarget maxTarget = .ok newTarget
  atLeast : previousTarget * (precisionFactor / factor.toNat) / precisionFactor ≤ scaled
  atMost : scaled ≤ previousTarget * factor.toNat
  keepsMin : minDifficultyTarget ≠ 0 → newTarget ≤ minDifficultyTarget
  keepsMax : newTarget ≤ maxTarget
  stationary : actualTimeSpan = expectedTimeSpan →
    newTarget = clampTarget minDifficultyTarget maxTarget previousTarget
  monotone : ∀ shorter ≤ actualTimeSpan, ∃ smaller ≤ newTarget,
    calculateNewTarget previousTarget shorter expectedTimeSpan factor minDifficultyTarget
      maxTarget = .ok smaller

variable (hexpected : 0 < expectedTimeSpan) (hfactor : 1 ≤ factor)

include hexpected hfactor

variable {previousTarget : Nat} {actualTimeSpan : UInt64}

variable (hfits : previousTarget * clampedRatio actualTimeSpan.toNat expectedTimeSpan.toNat
    factor.toNat ≤ Pow.maxU256)

include hfits

variable (minDifficultyTarget maxTarget : Nat)

theorem calculateNewTarget_eq :
    calculateNewTarget previousTarget actualTimeSpan expectedTimeSpan factor minDifficultyTarget
      maxTarget = .ok (clampTarget minDifficultyTarget maxTarget (previousTarget *
        clampedRatio actualTimeSpan.toNat expectedTimeSpan.toNat factor.toNat /
          precisionFactor)) := by
  rw [calculateNewTarget, scaleTarget_eq hexpected hfactor]
  dsimp only
  rw [if_pos hfits]
  rfl

theorem retargets_of_fits :
    ∃ scaled newTarget, Retargets previousTarget actualTimeSpan expectedTimeSpan factor
      minDifficultyTarget maxTarget scaled newTarget := by
  have hprecision : 0 < precisionFactor := by decide
  have hscales := scaleTarget_eq hexpected hfactor previousTarget actualTimeSpan
  dsimp only at hscales
  rw [if_pos hfits] at hscales
  refine ⟨_, _, hscales,
    calculateNewTarget_eq hexpected hfactor hfits minDifficultyTarget maxTarget,
    ?_, ?_, ?_, clampTarget_le_max _ _ _, ?_, ?_⟩
  · exact Nat.div_le_div_right (Nat.mul_le_mul_left _ (Nat.le_max_right _ _))
  · apply Nat.div_le_of_le_mul
    calc previousTarget * clampedRatio actualTimeSpan.toNat expectedTimeSpan.toNat factor.toNat
        ≤ previousTarget * (precisionFactor * factor.toNat) :=
          Nat.mul_le_mul_left _ (clampedRatio_le hfactor)
      _ = precisionFactor * (previousTarget * factor.toNat) := Nat.mul_left_comm _ _ _
  · intro hmin
    exact clampTarget_le_min hmin _ _
  · rintro rfl
    have hself : clampedRatio actualTimeSpan.toNat actualTimeSpan.toNat factor.toNat =
        precisionFactor := clampedRatio_self hexpected hfactor
    rw [hself, Nat.mul_div_cancel _ hprecision]
  · intro shorter hshorter
    have hratio : clampedRatio shorter.toNat expectedTimeSpan.toNat factor.toNat ≤
        clampedRatio actualTimeSpan.toNat expectedTimeSpan.toNat factor.toNat :=
      clampedRatio_mono (UInt64.le_iff_toNat_le.mp hshorter)
    have hless := Nat.mul_le_mul_left previousTarget hratio
    refine ⟨_, ?_, calculateNewTarget_eq hexpected hfactor (hless.trans hfits) _ _⟩
    exact clampTarget_mono (Nat.div_le_div_right hless) _ _

omit hfits

/-- An adjustment does what it is for exactly when the product of the target and the clamped ratio
fits in 256 bits. -/
theorem retargets_iff_fits (previousTarget : Nat) (actualTimeSpan : UInt64)
    (minDifficultyTarget maxTarget : Nat) :
    (∃ scaled newTarget, Retargets previousTarget actualTimeSpan expectedTimeSpan factor
      minDifficultyTarget maxTarget scaled newTarget) ↔
      previousTarget * max (min (actualTimeSpan.toNat * 10 ^ 9 / expectedTimeSpan.toNat)
        (10 ^ 9 * factor.toNat)) (10 ^ 9 / factor.toNat) < 2 ^ 256 := by
  have hbound : previousTarget *
      clampedRatio actualTimeSpan.toNat expectedTimeSpan.toNat factor.toNat ≤ Pow.maxU256 ↔
        previousTarget * clampedRatio actualTimeSpan.toNat expectedTimeSpan.toNat factor.toNat <
          2 ^ 256 := by
    unfold Pow.maxU256
    omega
  refine Iff.trans ?_ hbound
  constructor
  · rintro ⟨scaled, newTarget, h⟩
    have hscales := h.scales
    rw [scaleTarget_eq hexpected hfactor] at hscales
    dsimp only at hscales
    by_contra hover
    rw [if_neg hover] at hscales
    cases hscales
  · intro hfits
    exact retargets_of_fits hexpected hfactor hfits minDifficultyTarget maxTarget

end

/-- A target of 224 bits can be made four times as large. -/
theorem retargets_of_224_bits :
    (0 : UInt64) < 302400 ∧ (1 : UInt64) ≤ 4 ∧
      ∃ scaled newTarget, Retargets (0xffff * 2 ^ 208) 1209600 302400 4 0 Pow.maxU256 scaled
        newTarget :=
  ⟨by decide, by decide, (retargets_iff_fits (by decide) (by decide) _ _ _ _).mpr (by decide)⟩

/-- A target of 240 bits cannot be kept. -/
theorem calculateNewTarget_overflows :
    calculateNewTarget (0xffff * 2 ^ 224) 302400 302400 4 0 Pow.maxU256 = .error .panic := by
  decide +kernel

end ConsensusPow

namespace Pow

/-- The timespan that an adjustment counts with. -/
def clampTimespan (actual expected : Nat) : Nat := min (max actual (expected / 4)) (expected * 4)

theorem toNat_clampTimespan (actual expected : UInt64) (hsmall : expected.toNat * 4 < 2 ^ 64) :
    (min (max actual (expected / 4)) (expected * 4)).toNat =
      clampTimespan actual.toNat expected.toNat := by
  have hfour : (expected * 4).toNat = expected.toNat * 4 := by
    rw [UInt64.toNat_mul]
    exact Nat.mod_eq_of_lt hsmall
  rw [MinMax.toNat_min64, MinMax.toNat_max64, hfour, UInt64.toNat_div]
  rfl

/-- A target that takes 32 bits stays far below the last one. -/
theorem scaled_le_maxU256 (target : UInt32) (actual expected : Nat) :
    target.toNat * clampTimespan actual expected / expected ≤ maxU256 := by
  have htarget : target.toNat * 4 ≤ maxU256 := by
    have hlt := target.toNat_lt
    have hmax : 2 ^ 34 ≤ maxU256 := by decide
    omega
  refine Nat.le_trans (Nat.div_le_of_le_mul ?_) htarget
  calc target.toNat * clampTimespan actual expected
      ≤ target.toNat * (expected * 4) := Nat.mul_le_mul_left _ (Nat.min_le_right _ _)
    _ = expected * (target.toNat * 4) := Nat.mul_left_comm _ _ _

/-- The adjustment of rusty-core, on a target that takes 32 bits. -/
theorem calculateNewTarget_eq (target : UInt32) (actualTimespan window maxTimespan : UInt64)
    {targetTimespan : UInt64} (hpos : targetTimespan ≠ 0)
    (hsmall : targetTimespan.toNat * 4 < 2 ^ 64) :
    calculateNewTarget target.toNat actualTimespan targetTimespan window maxTimespan maxU256 =
      .ok (target.toNat * clampTimespan actualTimespan.toNat targetTimespan.toNat /
        targetTimespan.toNat) := by
  have hnat : targetTimespan.toNat ≠ 0 := fun h => hpos (UInt64.toNat_inj.mp h)
  rw [calculateNewTarget, mulU256_ok, ok_bind, divU256, if_neg hnat, ok_bind,
    toNat_clampTimespan _ _ hsmall]
  exact congrArg Except.ok (if_neg (Nat.not_lt.mpr (scaled_le_maxU256 _ _ _)))

/-- Only two compact values encode themselves, taken as numbers. -/
theorem targetToCompact_toNat_eq_self_iff (compact : UInt32) :
    targetToCompact compact.toNat = compact ↔ compact = 0 ∨ compact = 0x04040404 := by
  have hlt := compact.toNat_lt
  have hle : compact.toNat ≤ maxU256 := Nat.le_trans hlt.le (by decide)
  have hrange := Compact.lt_pow_byteLength compact.toNat
  have hdigits := ShortFloat.Format.exponent_eq_of_digits (f := Compact.format) hrange
    fun hpos => Compact.pow_byteLength_le hpos
  have hmantissa : Compact.format.mantissa compact.toNat =
    compact.toNat * 256 ^ 3 / 256 ^ Compact.format.exponent compact.toNat := rfl
  have hbytes : Compact.byteLength compact.toNat ≤ 4 := by
    have hsize : compact.toNat.size ≤ 32 := Nat.size_le.mpr hlt
    unfold Compact.byteLength
    omega
  constructor
  · intro hself
    have hcode := congrArg UInt32.toNat hself
    rw [toNat_targetToCompact hle] at hcode
    rw [← UInt32.toNat_inj, ← UInt32.toNat_inj]
    change compact.toNat = 0 ∨ compact.toNat = 0x04040404
    rcases Nat.lt_or_eq_of_le hbytes with hshort | hfour
    · -- The exponent of a number below `2 ^ 24` makes its code larger than it.
      have hpow : 256 ^ Compact.byteLength compact.toNat ≤ 256 ^ 3 :=
        Nat.pow_le_pow_right (by decide) (by omega)
      have hexponent : Compact.byteLength compact.toNat ≤
          Compact.format.exponent compact.toNat := by
        rw [hdigits]
        split <;> omega
      rcases Nat.eq_zero_or_pos (Compact.byteLength compact.toNat) with hzero | hpos
      · rw [hzero] at hrange
        omega
      · omega
    · rw [hfour] at hdigits
      by_cases hover : compact.toNat * 256 ^ 3 / 256 ^ 4 < 2 ^ 23
      · have hexponent : Compact.format.exponent compact.toNat = 4 := hdigits.trans (if_pos hover)
        rw [hexponent] at hmantissa
        omega
      · have hexponent : Compact.format.exponent compact.toNat = 5 := hdigits.trans (if_neg hover)
        rw [hexponent] at hmantissa
        omega
  · rintro (rfl | rfl) <;> decide +kernel

end Pow

/-- The same block with another target. -/
def Block.withTarget (block : Block) (target : UInt32) : Block :=
  { block with header := { block.header with difficultyTarget := target } }

namespace Blockchain

variable {F : Type} (env : Platform)

/-- `DIFFICULTY_ADJUSTMENT_INTERVAL` -/
def difficultyAdjustmentInterval : UInt64 := 2016

/-- `TARGET_BLOCK_TIME` -/
def targetBlockTime : UInt64 := 150

def validateDifficultyAdjustment (chain : Blockchain F) (block : Block) (height : UInt64) :
    ConsensusResult Unit :=
  if (height - 1) % difficultyAdjustmentInterval ≠ 0 then do
    match ← (chain.state.getBlock env (height - 1)).attempt with
    | some (some prevBlock) =>
      if block.header.difficultyTarget ≠ prevBlock.header.difficultyTarget then
        fail .invalidProofOfWork
      else return ()
    | _ => fail (.invalidBlock "Previous block not found for difficulty validation")
  else if height < difficultyAdjustmentInterval then
    if block.header.difficultyTarget = 0 then fail .invalidProofOfWork else return ()
  else do
    let firstBlock ← (chain.state.getBlock env (height - difficultyAdjustmentInterval)).attempt
    let lastBlock ← (chain.state.getBlock env (height - 1)).attempt
    match firstBlock, lastBlock with
    | some (some firstBlock), some (some lastBlock) =>
      let actualTime :=
        saturatingSub lastBlock.header.timestamp firstBlock.header.timestamp
      let expectedTime := difficultyAdjustmentInterval * targetBlockTime
      let prevTarget := lastBlock.header.difficultyTarget.toNat
      let newTarget ← Pow.calculateNewTarget prevTarget actualTime expectedTime
        difficultyAdjustmentInterval (expectedTime * 4) Pow.maxU256
      if block.header.difficultyTarget ≠ Pow.targetToCompact newTarget then
        fail .invalidProofOfWork
      else return ()
    | _, _ => fail (.invalidBlock "Blocks not found for difficulty adjustment validation")

/-- The target of the last block after the interval, as the check calculates it from the compact
value. -/
def rescaledTarget (firstBlock lastBlock : Block) : Nat :=
  lastBlock.header.difficultyTarget.toNat *
    Pow.clampTimespan (lastBlock.header.timestamp.toNat - firstBlock.header.timestamp.toNat)
      302400 / 302400

variable {chain : Blockchain F} {block : Block} {height : UInt64}

theorem validate_between (hbetween : (height - 1) % difficultyAdjustmentInterval ≠ 0) :
    chain.validateDifficultyAdjustment env block height = .ok () ↔
      ∃ prevBlock, chain.state.getBlock env (height - 1) = .ok (some prevBlock) ∧
        block.header.difficultyTarget = prevBlock.header.difficultyTarget := by
  rw [validateDifficultyAdjustment, if_pos hbetween, bind_eq_ok]
  constructor
  · rintro ⟨(- | - | prevBlock), hfound, hcheck⟩
    · exact absurd hcheck (fail_ne_ok _ _)
    · exact absurd hcheck (fail_ne_ok _ _)
    · exact ⟨prevBlock, attempt_eq_some.mp hfound, not_not.mp (ite_fail_eq_ok.mp hcheck).1⟩
  · rintro ⟨prevBlock, hfound, hsame⟩
    exact ⟨_, attempt_eq_some.mpr hfound, ite_fail_eq_ok.mpr ⟨not_not.mpr hsame, rfl⟩⟩

theorem validate_early (hadjusts : (height - 1) % difficultyAdjustmentInterval = 0)
    (hearly : height < difficultyAdjustmentInterval) :
    chain.validateDifficultyAdjustment env block height = .ok () ↔
      block.header.difficultyTarget ≠ 0 := by
  rw [validateDifficultyAdjustment, if_neg (not_not.mpr hadjusts), if_pos hearly, ite_fail_eq_ok]
  exact and_iff_left rfl

theorem validate_adjusts (hadjusts : (height - 1) % difficultyAdjustmentInterval = 0)
    (hlate : ¬ height < difficultyAdjustmentInterval) :
    chain.validateDifficultyAdjustment env block height = .ok () ↔
      ∃ firstBlock lastBlock,
        chain.state.getBlock env (height - difficultyAdjustmentInterval) = .ok (some firstBlock) ∧
        chain.state.getBlock env (height - 1) = .ok (some lastBlock) ∧
        block.header.difficultyTarget =
          Pow.targetToCompact (rescaledTarget firstBlock lastBlock) := by
  have hnew (firstBlock lastBlock : Block) :
      Pow.calculateNewTarget lastBlock.header.difficultyTarget.toNat
        (saturatingSub lastBlock.header.timestamp firstBlock.header.timestamp)
        (difficultyAdjustmentInterval * targetBlockTime) difficultyAdjustmentInterval
        (difficultyAdjustmentInterval * targetBlockTime * 4) Pow.maxU256 =
          .ok (rescaledTarget firstBlock lastBlock) := by
    rw [Pow.calculateNewTarget_eq _ _ _ _ (by decide) (by decide), toNat_saturatingSub]
    rfl
  rw [validateDifficultyAdjustment, if_neg (not_not.mpr hadjusts), if_neg hlate, bind_eq_ok]
  constructor
  · rintro ⟨first, hfirst, hrest⟩
    obtain ⟨last, hlast, hcheck⟩ := bind_eq_ok.mp hrest
    rcases first with - | - | firstBlock
    · exact absurd hcheck (fail_ne_ok _ _)
    · exact absurd hcheck (fail_ne_ok _ _)
    rcases last with - | - | lastBlock
    · exact absurd hcheck (fail_ne_ok _ _)
    · exact absurd hcheck (fail_ne_ok _ _)
    dsimp only at hcheck
    rw [hnew, ok_bind] at hcheck
    exact ⟨firstBlock, lastBlock, attempt_eq_some.mp hfirst, attempt_eq_some.mp hlast,
      not_not.mp (ite_fail_eq_ok.mp hcheck).1⟩
  · rintro ⟨firstBlock, lastBlock, hfirst, hlast, hsame⟩
    refine ⟨_, attempt_eq_some.mpr hfirst, ?_⟩
    rw [attempt_eq_some.mpr hlast, ok_bind]
    dsimp only
    rw [hnew, ok_bind]
    exact ite_fail_eq_ok.mpr ⟨not_not.mpr hsame, rfl⟩

/-- Neither more than four times the previous target nor less than a quarter of it. -/
def WithinFactorFour (previous target : Nat) : Prop :=
  target ≤ 4 * previous ∧ previous ≤ 4 * target

/-- A block at an adjustment height keeps a canonical target after an interval that took the
expected time. -/
structure KeepsDifficulty (chain : Blockchain F) (height : UInt64)
    (firstBlock lastBlock block : Block) : Prop where
  adjusts : (height - 1) % difficultyAdjustmentInterval = 0
  late : ¬ height < difficultyAdjustmentInterval
  firstStored : chain.state.getBlock env (height - difficultyAdjustmentInterval) =
    .ok (some firstBlock)
  lastStored : chain.state.getBlock env (height - 1) = .ok (some lastBlock)
  onTime : lastBlock.header.timestamp.toNat = firstBlock.header.timestamp.toNat + 2016 * 150
  canonical : Pow.targetToCompact (Pow.compactToTarget lastBlock.header.difficultyTarget) =
    lastBlock.header.difficultyTarget
  keeps : block.header.difficultyTarget = lastBlock.header.difficultyTarget

/-- What the check is for, at a height of a chain: the difficulty is stationary, and a block that
is accepted changes the target by a factor of at most four. -/
structure AdjustsDifficulty (chain : Blockchain F) (height : UInt64) : Prop where
  stationary : ∀ firstBlock lastBlock block,
    chain.KeepsDifficulty env height firstBlock lastBlock block →
      chain.validateDifficultyAdjustment env block height = .ok ()
  bounded : ∀ prevBlock block,
    chain.state.getBlock env (height - 1) = .ok (some prevBlock) →
      chain.validateDifficultyAdjustment env block height = .ok () →
        WithinFactorFour (Pow.compactToTarget prevBlock.header.difficultyTarget)
          (Pow.compactToTarget block.header.difficultyTarget)

/-- The previous compact value, taken as a number, can stand for the target that it encodes: it is
one of the two values that encode themselves if it is canonical and the interval was on time, and
scaled by the clamped timespan and cut to its leading bytes it is close to the previous target. -/
structure CodeScales (firstBlock lastBlock : Block) : Prop where
  fixed : lastBlock.header.timestamp.toNat = firstBlock.header.timestamp.toNat + 2016 * 150 →
    Pow.targetToCompact (Pow.compactToTarget lastBlock.header.difficultyTarget) =
      lastBlock.header.difficultyTarget →
    lastBlock.header.difficultyTarget = 0 ∨ lastBlock.header.difficultyTarget = 0x04040404
  close : WithinFactorFour (Pow.compactToTarget lastBlock.header.difficultyTarget)
    (Compact.format.round (rescaledTarget firstBlock lastBlock))

/-- Nothing is adjusted between adjustment heights. The first of them compares with nothing, so
there must be nothing to compare with; the later ones need code that scales. -/
def Adjustable (chain : Blockchain F) (height : UInt64) : Prop :=
  (height - 1) % difficultyAdjustmentInterval = 0 →
    if height < difficultyAdjustmentInterval then
      ∀ prevBlock, chain.state.getBlock env (height - 1) ≠ .ok (some prevBlock)
    else
      ∀ firstBlock lastBlock,
        chain.state.getBlock env (height - difficultyAdjustmentInterval) = .ok (some firstBlock) →
        chain.state.getBlock env (height - 1) = .ok (some lastBlock) →
          CodeScales firstBlock lastBlock

section

variable {chain : Blockchain F} {height : UInt64} {firstBlock lastBlock : Block}

omit env in
theorem rescaledTarget_of_onTime (honTime : lastBlock.header.timestamp.toNat =
      firstBlock.header.timestamp.toNat + 2016 * 150) :
    rescaledTarget firstBlock lastBlock = lastBlock.header.difficultyTarget.toNat := by
  have hactual : lastBlock.header.timestamp.toNat - firstBlock.header.timestamp.toNat =
      302400 := by omega
  rw [rescaledTarget, hactual]
  exact Nat.mul_div_cancel _ (by decide)

theorem compactToTarget_rescaled :
    Pow.compactToTarget (Pow.targetToCompact (rescaledTarget firstBlock lastBlock)) =
      Compact.format.round (rescaledTarget firstBlock lastBlock) :=
  have hle := Pow.scaled_le_maxU256 lastBlock.header.difficultyTarget _ _
  Pow.compactToTarget_of_encoded hle (Pow.toNat_targetToCompact hle)

/-- At the first adjustment height any target but zero is accepted. -/
theorem not_adjusts_early (hadjusts : (height - 1) % difficultyAdjustmentInterval = 0)
    (hearly : height < difficultyAdjustmentInterval)
    (h : chain.AdjustsDifficulty env height) (prevBlock : Block) :
    chain.state.getBlock env (height - 1) ≠ .ok (some prevBlock) := by
  intro hstored
  have haccepts (target : UInt32) (htarget : target ≠ 0) :
      WithinFactorFour (Pow.compactToTarget prevBlock.header.difficultyTarget)
        (Pow.compactToTarget target) :=
    h.bounded prevBlock (prevBlock.withTarget target) hstored
      ((validate_early env hadjusts hearly).mpr htarget)
  -- One of these two is always too far away.
  have hzero : Pow.compactToTarget 0x01000000 = 0 := by decide
  have hone : Pow.compactToTarget 0x03000001 = 1 := by decide
  have hless := (haccepts 0x01000000 (by decide)).2
  have hmore := (haccepts 0x03000001 (by decide)).1
  rw [hzero] at hless
  rw [hone] at hmore
  omega

theorem codeScales_of_adjusts (hadjusts : (height - 1) % difficultyAdjustmentInterval = 0)
    (hlate : ¬ height < difficultyAdjustmentInterval) (h : chain.AdjustsDifficulty env height)
    (hfirst : chain.state.getBlock env (height - difficultyAdjustmentInterval) =
      .ok (some firstBlock))
    (hlast : chain.state.getBlock env (height - 1) = .ok (some lastBlock)) :
    CodeScales firstBlock lastBlock := by
  constructor
  · intro honTime hcanonical
    have haccepted := h.stationary firstBlock lastBlock lastBlock
      ⟨hadjusts, hlate, hfirst, hlast, honTime, hcanonical, rfl⟩
    obtain ⟨first, last, hfirst', hlast', hsame⟩ :=
      (validate_adjusts env hadjusts hlate).mp haccepted
    cases hfirst.symm.trans hfirst'
    cases hlast.symm.trans hlast'
    rw [rescaledTarget_of_onTime honTime] at hsame
    exact (Pow.targetToCompact_toNat_eq_self_iff _).mp hsame.symm
  · have haccepted : chain.validateDifficultyAdjustment env
        (lastBlock.withTarget (Pow.targetToCompact (rescaledTarget firstBlock lastBlock))) height =
          .ok () :=
      (validate_adjusts env hadjusts hlate).mpr ⟨firstBlock, lastBlock, hfirst, hlast, rfl⟩
    have hbounded := h.bounded lastBlock _ hlast haccepted
    rw [← compactToTarget_rescaled]
    exact hbounded

/-- The difficulty check does what it is for at a height of a chain exactly when the chain is
adjustable there. -/
theorem adjustsDifficulty_iff (chain : Blockchain F) (height : UInt64) :
    chain.AdjustsDifficulty env height ↔ chain.Adjustable env height := by
  constructor
  · intro h hadjusts
    split
    case isTrue hearly => exact not_adjusts_early env hadjusts hearly h
    case isFalse hlate =>
      intro firstBlock lastBlock hfirst hlast
      exact codeScales_of_adjusts env hadjusts hlate h hfirst hlast
  · intro h
    constructor
    · intro firstBlock lastBlock block hkeeps
      have hscales := h hkeeps.adjusts
      rw [if_neg hkeeps.late] at hscales
      have hfixed := (hscales firstBlock lastBlock hkeeps.firstStored hkeeps.lastStored).fixed
        hkeeps.onTime hkeeps.canonical
      refine (validate_adjusts env hkeeps.adjusts hkeeps.late).mpr
        ⟨firstBlock, lastBlock, hkeeps.firstStored, hkeeps.lastStored, ?_⟩
      rw [rescaledTarget_of_onTime hkeeps.onTime, hkeeps.keeps]
      exact ((Pow.targetToCompact_toNat_eq_self_iff _).mpr hfixed).symm
    · intro prevBlock block hstored haccepted
      by_cases hadjusts : (height - 1) % difficultyAdjustmentInterval = 0
      · have hscales := h hadjusts
        split at hscales
        case isTrue => exact absurd hstored (hscales prevBlock)
        case isFalse hlate =>
          obtain ⟨firstBlock, lastBlock, hfirst, hlast, hsame⟩ :=
            (validate_adjusts env hadjusts hlate).mp haccepted
          cases hstored.symm.trans hlast
          rw [hsame, compactToTarget_rescaled]
          exact (hscales firstBlock prevBlock hfirst hstored).close
      · obtain ⟨last, hlast, hsame⟩ := (validate_between env hadjusts).mp haccepted
        cases hstored.symm.trans hlast
        rw [hsame]
        constructor <;> omega

end


/-- A block of which nothing but the timestamp and the target matters. -/
def blockAt (height timestamp : UInt64) (target : UInt32) : Block where
  header :=
    { version := 1, height := height, previousBlockHash := .replicate 32 0,
      merkleRoot := .replicate 32 0, stateRoot := .replicate 32 0, timestamp := timestamp,
      difficultyTarget := target, nonce := 0 }
  ticketVotes := []
  transactions := []

/-- A platform on which blocks of one target are stored by their timestamps. -/
def timestampPlatform (target : UInt32) : Platform :=
  { Platform.blank with
    serializeBlock := fun block => leBytes 32 block.header.timestamp.toNat
    deserializeBlock := fun data => .ok (blockAt 0 (UInt64.ofNat (leValue data)) target)
    blake3 := fun bytes => List.Vector.ofFn fun k => bytes.getD k 0 }

/-- After an interval that took the expected time the usual first target is refused, and the one
accepted in its place is smaller by a factor of more than `2 ^ 192`. -/
theorem adjustment_refuses_unchanged_target :
    let target : UInt32 := 0x1d00ffff
    let env := timestampPlatform target
    let state := (BlockchainState.new.putBlock env (blockAt 1 150 target)).putBlock env
      (blockAt 2016 302550 target)
    let chain : Blockchain Rat := { Blockchain.new with state := state }
    Pow.targetToCompact (Pow.compactToTarget target) = target ∧
      chain.validateDifficultyAdjustment env (blockAt 2017 302700 target) 2017 =
        fail .invalidProofOfWork ∧
      chain.validateDifficultyAdjustment env (blockAt 2017 302700 0x041d00ff) 2017 = .ok () ∧
      Pow.compactToTarget 0x041d00ff * 2 ^ 192 < Pow.compactToTarget target := by
  decide +kernel

end Blockchain

end RustyCoin
