import Mathlib.Algebra.Order.Ring.Rat
import Mathlib.Data.List.Sort
import Mathlib.Data.Nat.Cast.Order.Ring
import RustyCoin.Lib.MinMax
import RustyCoin.RustyConsensus.TransactionKinds

/-!
# The adaptive block size

The calculator keeps the sizes of the last blocks, as many as a period has. At
every height that is a multiple of the period it takes their median, scales it
up or down, and clamps the result. It stays within its bounds whatever the
blocks are (`updates_sound`).

The limit is scaled up only if the median is above it. But the blocks of a
period have all been held to the limit that is in force at its end, so the
median never is: `limit_never_grows`.
-/

namespace RustyCoin.RustyConsensus

open Outcome List UInt64

/-- Numbers of type `f64` that are added and subtracted. -/
class F64Sum (F : Type) extends F64Cast F where
  add : F → F → F
  sub : F → F → F

instance : F64Sum Rat where
  add a b := a + b
  sub a b := a - b

structure AdaptiveBlockSizeParams (F : Type) where
  initialMaxBlockSizeBytes : UInt64
  medianCalculationPeriodBlocks : UInt64
  blockSizeGrowthFactorPercentage : F
  blockSizeShrinkFactorPercentage : F
  absoluteHardMaxBlockSizeBytes : UInt64
  minMaxBlockSizeBytes : UInt64

namespace AdaptiveBlockSizeParams

def default {F : Type} [F64 F] : AdaptiveBlockSizeParams F where
  initialMaxBlockSizeBytes := 2000000
  medianCalculationPeriodBlocks := 2016
  blockSizeGrowthFactorPercentage := 0.10
  blockSizeShrinkFactorPercentage := 0.05
  absoluteHardMaxBlockSizeBytes := 64000000
  minMaxBlockSizeBytes := 1000000

/-- The bounds are in order and there is a period. -/
structure Valid {F : Type} (params : AdaptiveBlockSizeParams F) : Prop where
  min_le : params.minMaxBlockSizeBytes ≤ params.initialMaxBlockSizeBytes
  le_max : params.initialMaxBlockSizeBytes ≤ params.absoluteHardMaxBlockSizeBytes
  period_pos : params.medianCalculationPeriodBlocks ≠ 0

/-- A limit between the least and the greatest one. -/
def Allows {F : Type} (params : AdaptiveBlockSizeParams F) (limit : UInt64) : Prop :=
  params.minMaxBlockSizeBytes ≤ limit ∧ limit ≤ params.absoluteHardMaxBlockSizeBytes

theorem Valid.period {F : Type} {params : AdaptiveBlockSizeParams F} (h : params.Valid) :
    0 < params.medianCalculationPeriodBlocks.toNat := by
  refine Nat.pos_of_ne_zero fun hzero => h.period_pos ?_
  exact UInt64.toNat_inj.mp hzero

end AdaptiveBlockSizeParams

structure AdaptiveBlockSizeCalculator (F : Type) where
  params : AdaptiveBlockSizeParams F
  blockSizes : List UInt64
  currentAdaptiveMaxSize : UInt64

namespace AdaptiveBlockSizeCalculator

variable {F : Type}

def new (params : AdaptiveBlockSizeParams F) : AdaptiveBlockSizeCalculator F :=
  ⟨params, [], params.initialMaxBlockSizeBytes⟩

/-- `pop_front` while there are more sizes than the period has blocks. -/
def popWhileLonger (period : Nat) : List UInt64 → List UInt64
  | [] => []
  | size :: sizes =>
    if (size :: sizes).length > period then popWhileLonger period sizes else size :: sizes

def addBlockSize (self : AdaptiveBlockSizeCalculator F) (blockSize : UInt64) :
    AdaptiveBlockSizeCalculator F :=
  { self with
    blockSizes := popWhileLonger self.params.medianCalculationPeriodBlocks.toNat
      (self.blockSizes ++ [blockSize]) }

/-- The mean of the two middle values is taken with a machine sum. -/
def calculateMedianBlockSize (self : AdaptiveBlockSizeCalculator F) : UInt64 :=
  if self.blockSizes.isEmpty then self.params.initialMaxBlockSizeBytes
  else
    let sortedSizes := self.blockSizes.insertionSort (· ≤ ·)
    let len := sortedSizes.length
    if len % 2 = 0 then (sortedSizes.getD (len / 2 - 1) 0 + sortedSizes.getD (len / 2) 0) / 2
    else sortedSizes.getD (len / 2) 0

def applyHardLimits (self : AdaptiveBlockSizeCalculator F) (potentialLimit : UInt64) : UInt64 :=
  min (max potentialLimit self.params.minMaxBlockSizeBytes)
    self.params.absoluteHardMaxBlockSizeBytes

/-- `bincode::serialize(block).len()` -/
def calculateBlockSize (env : Platform) (block : Block) : UInt64 :=
  UInt64.ofNat (env.serializeBlock block).length

def validateBlockSize (env : Platform) (self : AdaptiveBlockSizeCalculator F)
    (block : Block) : ConsensusResult Unit :=
  if calculateBlockSize env block > self.currentAdaptiveMaxSize then
    fail (.blockTooLarge (calculateBlockSize env block).toNat self.currentAdaptiveMaxSize.toNat)
  else .ok ()

variable [F64Sum F]

def calculatePotentialLimit (self : AdaptiveBlockSizeCalculator F) (medianActualSize : UInt64) :
    UInt64 :=
  let currentMax := self.currentAdaptiveMaxSize
  if medianActualSize > currentMax then
    let growthFactor : F := F64Sum.add 1.0 self.params.blockSizeGrowthFactorPercentage
    F64Cast.castToU64 (F64.mul (F64.ofU64 medianActualSize) growthFactor)
  else if medianActualSize < currentMax then
    let shrinkFactor : F := F64Sum.sub 1.0 self.params.blockSizeShrinkFactorPercentage
    F64Cast.castToU64 (F64.mul (F64.ofU64 medianActualSize) shrinkFactor)
  else currentMax

/-- At height zero the initial limit is returned and nothing changes. A period of zero
aborts at the remainder. -/
def calculateAdaptiveMaxBlockSize (self : AdaptiveBlockSizeCalculator F) (blockHeight : UInt64) :
    ConsensusResult (UInt64 × AdaptiveBlockSizeCalculator F) :=
  if blockHeight = 0 then .ok (self.params.initialMaxBlockSizeBytes, self)
  else if self.params.medianCalculationPeriodBlocks = 0 then .error .panic
  else if blockHeight % self.params.medianCalculationPeriodBlocks ≠ 0 then
    .ok (self.currentAdaptiveMaxSize, self)
  else
    let medianActualSize := self.calculateMedianBlockSize
    let potentialLimit := self.calculatePotentialLimit medianActualSize
    let newAdaptiveMaxSize := self.applyHardLimits potentialLimit
    .ok (newAdaptiveMaxSize, { self with currentAdaptiveMaxSize := newAdaptiveMaxSize })

def updateWithBlock (env : Platform) (self : AdaptiveBlockSizeCalculator F) (block : Block)
    (blockHeight : UInt64) : ConsensusResult (AdaptiveBlockSizeCalculator F) := do
  let added := self.addBlockSize (calculateBlockSize env block)
  let (_, updated) ← added.calculateAdaptiveMaxBlockSize blockHeight
  return updated

/-- One update for every block, at consecutive heights. -/
def updateAll (env : Platform) :
    UInt64 → List Block → AdaptiveBlockSizeCalculator F →
      ConsensusResult (AdaptiveBlockSizeCalculator F)
  | _, [], self => .ok self
  | height, block :: blocks, self => do
    updateAll env (height + 1) blocks (← self.updateWithBlock env block height)

section

variable {F : Type} {self : AdaptiveBlockSizeCalculator F}

variable (period : Nat) (sizes : List UInt64)

theorem popWhileLonger_eq_drop :
    popWhileLonger period sizes = sizes.drop (sizes.length - period) := by
  induction sizes with
  | nil => exact drop_nil.symm
  | cons size sizes ih =>
    rw [popWhileLonger]
    split
    · rename_i hlong
      rw [length_cons] at hlong ⊢
      rw [ih, show sizes.length + 1 - period = sizes.length - period + 1 by omega, drop_succ_cons]
    · rename_i hshort
      rw [show (size :: sizes).length - period = 0 by omega, drop_zero]

theorem length_popWhileLonger_le : (popWhileLonger period sizes).length ≤ period := by
  rw [popWhileLonger_eq_drop, length_drop]
  omega

variable {period : Nat} {sizes : List UInt64}

theorem mem_of_mem_popWhileLonger {size : UInt64}
    (h : size ∈ popWhileLonger period sizes) : size ∈ sizes := by
  rw [popWhileLonger_eq_drop] at h
  exact mem_of_mem_drop h

/-- The newest size is kept. -/
theorem popWhileLonger_append_ne_nil (hpos : 0 < period) (sizes : List UInt64)
    (size : UInt64) : popWhileLonger period (sizes ++ [size]) ≠ [] := by
  intro hnil
  have hlength := congrArg List.length hnil
  rw [popWhileLonger_eq_drop, length_drop, length_append, length_singleton, length_nil] at hlength
  omega

/-- The value at a position of the sorted sizes is one of the sizes. -/
theorem getD_insertionSort_mem {i : Nat} (hi : i < sizes.length) :
    (sizes.insertionSort (· ≤ ·)).getD i 0 ∈ sizes := by
  rw [← length_insertionSort (· ≤ ·) sizes] at hi
  rw [getD_eq_getElem?_getD, getElem?_eq_getElem hi, Option.getD_some, ← mem_insertionSort (· ≤ ·)]
  exact getElem_mem hi

variable (hne : self.blockSizes ≠ [])

include hne

/-- The median is a size of the window or the machine mean of two of them. -/
theorem calculateMedianBlockSize_cases :
    self.calculateMedianBlockSize ∈ self.blockSizes ∨
      ∃ a ∈ self.blockSizes, ∃ b ∈ self.blockSizes,
        self.calculateMedianBlockSize = (a + b) / 2 := by
  have hlen := length_pos_iff.mpr hne
  rw [calculateMedianBlockSize, if_neg (by rwa [List.isEmpty_iff])]
  simp only [length_insertionSort]
  split
  · exact .inr ⟨_, getD_insertionSort_mem (by omega), _, getD_insertionSort_mem (by omega), rfl⟩
  · exact .inl (getD_insertionSort_mem (by omega))

/-- Without overflow the median is between two of the sizes. -/
theorem median_between
    (hsizes : ∀ size ∈ self.blockSizes, size.toNat < 2 ^ 63) :
    ∃ smallest ∈ self.blockSizes, ∃ largest ∈ self.blockSizes,
      smallest ≤ self.calculateMedianBlockSize ∧ self.calculateMedianBlockSize ≤ largest := by
  rcases calculateMedianBlockSize_cases hne with hmem | ⟨a, ha, b, hb, hmean⟩
  · exact ⟨_, hmem, _, hmem, UInt64.le_refl _, UInt64.le_refl _⟩
  · have hvalue : self.calculateMedianBlockSize.toNat = (a.toNat + b.toNat) / 2 := by
      have := hsizes a ha
      have := hsizes b hb
      have htwo : (2 : UInt64).toNat = 2 := rfl
      rw [hmean, UInt64.toNat_div, UInt64.toNat_add, htwo, Nat.mod_eq_of_lt (by omega)]
    simp only [le_iff_toNat_le, hvalue]
    rcases Nat.le_total a.toNat b.toNat with hab | hba
    · exact ⟨a, ha, b, hb, by omega, by omega⟩
    · exact ⟨b, hb, a, ha, by omega, by omega⟩

/-- Overflow only makes the mean smaller. -/
theorem median_le {limit : UInt64}
    (hsizes : ∀ size ∈ self.blockSizes, size ≤ limit) :
    self.calculateMedianBlockSize ≤ limit := by
  rcases calculateMedianBlockSize_cases hne with hmem | ⟨a, ha, b, hb, hmean⟩
  · exact hsizes _ hmem
  · have ha := le_iff_toNat_le.mp (hsizes a ha)
    have hb := le_iff_toNat_le.mp (hsizes b hb)
    have hmod := Nat.mod_le (a.toNat + b.toNat) (2 ^ 64)
    have htwo : (2 : UInt64).toNat = 2 := rfl
    rw [hmean, le_iff_toNat_le, UInt64.toNat_div, UInt64.toNat_add, htwo]
    omega

end

section

variable {F : Type} {self : AdaptiveBlockSizeCalculator F}

theorem toNat_applyHardLimits (potentialLimit : UInt64) :
    (self.applyHardLimits potentialLimit).toNat =
      min (max potentialLimit.toNat self.params.minMaxBlockSizeBytes.toNat)
        self.params.absoluteHardMaxBlockSizeBytes.toNat := by
  rw [applyHardLimits, MinMax.toNat_min64, MinMax.toNat_max64]

theorem allows_applyHardLimits (hparams : self.params.Valid) (potentialLimit : UInt64) :
    self.params.Allows (self.applyHardLimits potentialLimit) := by
  have hmin := le_iff_toNat_le.mp hparams.min_le
  have hmax := le_iff_toNat_le.mp hparams.le_max
  simp only [AdaptiveBlockSizeParams.Allows, le_iff_toNat_le, toNat_applyHardLimits]
  omega

/-- The median depends on the window alone, and on the parameters where there is none. -/
theorem calculateMedianBlockSize_congr {other : AdaptiveBlockSizeCalculator F}
    (hparams : self.params = other.params) (hsizes : self.blockSizes = other.blockSizes) :
    self.calculateMedianBlockSize = other.calculateMedianBlockSize := by
  rw [calculateMedianBlockSize, calculateMedianBlockSize, hparams, hsizes]

variable [F64Sum F]

/-- Between the multiples of the period the limit stays. -/
theorem calculateAdaptiveMaxBlockSize_between {height : UInt64} (hzero : height ≠ 0)
    (hperiod : self.params.medianCalculationPeriodBlocks ≠ 0)
    (hmultiple : height % self.params.medianCalculationPeriodBlocks ≠ 0) :
    self.calculateAdaptiveMaxBlockSize height = .ok (self.currentAdaptiveMaxSize, self) := by
  rw [calculateAdaptiveMaxBlockSize, if_neg hzero, if_neg hperiod, if_pos hmultiple]

/-- At a multiple of the period the limit follows the median. -/
theorem calculateAdaptiveMaxBlockSize_at_multiple {height : UInt64} (hzero : height ≠ 0)
    (hperiod : self.params.medianCalculationPeriodBlocks ≠ 0)
    (hmultiple : height % self.params.medianCalculationPeriodBlocks = 0) {limit : UInt64}
    (hlimit : self.applyHardLimits (self.calculatePotentialLimit self.calculateMedianBlockSize) =
      limit) :
    self.calculateAdaptiveMaxBlockSize height =
      .ok (limit, { self with currentAdaptiveMaxSize := limit }) := by
  rw [calculateAdaptiveMaxBlockSize, if_neg hzero, if_neg hperiod,
    if_neg (not_not.mpr hmultiple), ← hlimit]

/-- What an update does: the window moves on, and the limit is set at the heights that are
multiples of the period. -/
theorem updateWithBlock_spec (env : Platform)
    (hperiod : self.params.medianCalculationPeriodBlocks ≠ 0) (block : Block) (height : UInt64) :
    ∃ updated, self.updateWithBlock env block height = .ok updated ∧
      updated.params = self.params ∧
      updated.blockSizes = popWhileLonger self.params.medianCalculationPeriodBlocks.toNat
        (self.blockSizes ++ [calculateBlockSize env block]) ∧
      (updated.currentAdaptiveMaxSize = self.currentAdaptiveMaxSize ∧
          (height = 0 ∨ height % self.params.medianCalculationPeriodBlocks ≠ 0) ∨
        height ≠ 0 ∧ height % self.params.medianCalculationPeriodBlocks = 0 ∧
          updated.currentAdaptiveMaxSize = self.applyHardLimits
            (self.calculatePotentialLimit updated.calculateMedianBlockSize)) := by
  let added := self.addBlockSize (calculateBlockSize env block)
  change added.params.medianCalculationPeriodBlocks ≠ 0 at hperiod
  have hupdate {limit : UInt64} {updated : AdaptiveBlockSizeCalculator F}
      (h : added.calculateAdaptiveMaxBlockSize height = .ok (limit, updated)) :
      self.updateWithBlock env block height = .ok updated := by
    show (added.calculateAdaptiveMaxBlockSize height >>= _) = _
    rw [h]
    rfl
  by_cases hzero : height = 0
  · exact ⟨added, hupdate (if_pos hzero), rfl, rfl, .inl ⟨rfl, .inl hzero⟩⟩
  · by_cases hmultiple : height % added.params.medianCalculationPeriodBlocks = 0
    · let limit :=
        added.applyHardLimits (added.calculatePotentialLimit added.calculateMedianBlockSize)
      have hcalculated : added.calculateAdaptiveMaxBlockSize height =
          .ok (limit, { added with currentAdaptiveMaxSize := limit }) :=
        calculateAdaptiveMaxBlockSize_at_multiple hzero hperiod hmultiple rfl
      have hmedian : calculateMedianBlockSize { added with currentAdaptiveMaxSize := limit } =
          added.calculateMedianBlockSize := calculateMedianBlockSize_congr rfl rfl
      refine ⟨_, hupdate hcalculated, rfl, rfl, .inr ⟨hzero, hmultiple, ?_⟩⟩
      rw [hmedian]
      rfl
    · exact ⟨added, hupdate (calculateAdaptiveMaxBlockSize_between hzero hperiod hmultiple),
        rfl, rfl, .inl ⟨rfl, .inr hmultiple⟩⟩

end

section

variable {F : Type} [F64Sum F] {env : Platform} {params : AdaptiveBlockSizeParams F}
  {self before after : AdaptiveBlockSizeCalculator F}

/-- What holds of the calculator after every update. -/
structure Bounded (params : AdaptiveBlockSizeParams F) (self : AdaptiveBlockSizeCalculator F) :
    Prop where
  params_eq : self.params = params
  allowed : params.Allows self.currentAdaptiveMaxSize
  window : self.blockSizes.length ≤ params.medianCalculationPeriodBlocks.toNat
  sizes : ∀ size ∈ self.blockSizes, size.toNat < 2 ^ 63

/-- What an update at a height is to keep to. -/
structure UpdateSound (params : AdaptiveBlockSizeParams F) (height : UInt64)
    (before after : AdaptiveBlockSizeCalculator F) : Prop where
  allowed_before : params.Allows before.currentAdaptiveMaxSize
  allowed_after : params.Allows after.currentAdaptiveMaxSize
  window : after.blockSizes.length ≤ params.medianCalculationPeriodBlocks.toNat
  changes : after.currentAdaptiveMaxSize ≠ before.currentAdaptiveMaxSize →
    height % params.medianCalculationPeriodBlocks = 0
  median : ∃ smallest ∈ after.blockSizes, ∃ largest ∈ after.blockSizes,
    smallest ≤ after.calculateMedianBlockSize ∧ after.calculateMedianBlockSize ≤ largest

omit [F64Sum F] in
theorem bounded_new (hparams : params.Valid) : Bounded params (new params) where
  params_eq := rfl
  allowed := ⟨hparams.min_le, hparams.le_max⟩
  window := Nat.zero_le _
  sizes := nofun

theorem bounded_update (hparams : params.Valid) (hbounded : Bounded params before) {block : Block}
    (hsize : (env.serializeBlock block).length < 2 ^ 63) (height : UInt64) :
    ∃ after, before.updateWithBlock env block height = .ok after ∧ Bounded params after ∧
      UpdateSound params height before after := by
  obtain ⟨rfl, hallowed, -, hsizes⟩ := hbounded
  obtain ⟨after, hupdate, hparams_eq, hwindow, hlimit⟩ :=
    updateWithBlock_spec env hparams.period_pos block height
  have hlength : after.blockSizes.length ≤ before.params.medianCalculationPeriodBlocks.toNat := by
    rw [hwindow]
    exact length_popWhileLonger_le _ _
  have hsmall : ∀ size ∈ after.blockSizes, size.toNat < 2 ^ 63 := by
    intro size hmem
    rw [hwindow] at hmem
    rcases mem_append.mp (mem_of_mem_popWhileLonger hmem) with hold | hnew
    · exact hsizes size hold
    · rw [mem_singleton.mp hnew, calculateBlockSize, toNat_ofNat']
      omega
  have hafter : before.params.Allows after.currentAdaptiveMaxSize := by
    rcases hlimit with ⟨hkept, -⟩ | ⟨-, -, hset⟩
    · rw [hkept]
      exact hallowed
    · rw [hset]
      exact allows_applyHardLimits hparams _
  refine ⟨after, hupdate, ⟨hparams_eq, hafter, hlength, hsmall⟩, hallowed, hafter, hlength, ?_, ?_⟩
  · intro hchanged
    rcases hlimit with ⟨hkept, -⟩ | ⟨-, hmultiple, -⟩
    · exact absurd hkept hchanged
    · exact hmultiple
  · apply median_between _ hsmall
    rw [hwindow]
    exact popWhileLonger_append_ne_nil hparams.period _ _

theorem bounded_updateAll (hparams : params.Valid) (hbounded : Bounded params self)
    {blocks : List Block} (hsizes : ∀ block ∈ blocks, (env.serializeBlock block).length < 2 ^ 63)
    (height : UInt64) :
    ∃ after, updateAll env height blocks self = .ok after ∧ Bounded params after := by
  induction blocks generalizing self height with
  | nil => exact ⟨self, rfl, hbounded⟩
  | cons block blocks ih =>
    rw [forall_mem_cons] at hsizes
    obtain ⟨next, hupdate, hnext, -⟩ := bounded_update hparams hbounded hsizes.1 height
    obtain ⟨after, hrest, hafter⟩ := ih hnext hsizes.2 (height + 1)
    refine ⟨after, ?_, hafter⟩
    rw [updateAll, hupdate]
    exact hrest

/-- Updates at consecutive heights return, and each of them keeps the limit within its bounds
and the window within a period, changes the limit only at a multiple of the period, and takes a
median between the smallest and the largest size. -/
theorem updates_sound (hparams : params.Valid) (start : UInt64) (earlier : List Block)
    (block : Block) (hsizes : ∀ b ∈ earlier ++ [block], (env.serializeBlock b).length < 2 ^ 63) :
    ∃ before after, updateAll env start earlier (new params) = .ok before ∧
      before.updateWithBlock env block (start + UInt64.ofNat earlier.length) = .ok after ∧
      UpdateSound params (start + UInt64.ofNat earlier.length) before after := by
  rw [forall_mem_append] at hsizes
  obtain ⟨before, hbefore, hbounded⟩ :=
    bounded_updateAll hparams (bounded_new hparams) hsizes.1 start
  obtain ⟨after, hafter, -, hsound⟩ := bounded_update hparams hbounded
    (hsizes.2 block mem_cons_self) (start + UInt64.ofNat earlier.length)
  exact ⟨before, after, hbefore, hafter, hsound⟩

theorem valid_default : (AdaptiveBlockSizeParams.default : AdaptiveBlockSizeParams Rat).Valid where
  min_le := by decide
  le_max := by decide
  period_pos := by decide

def emptyBlock : Block :=
  ⟨⟨1, 0, .replicate 32 0, .replicate 32 0, .replicate 32 0, 0, 0, 0⟩, [], []⟩

theorem updates_sound_default :
    ∃ before after, updateAll Platform.blank 2015 [emptyBlock]
          (new (AdaptiveBlockSizeParams.default : AdaptiveBlockSizeParams Rat)) = .ok before ∧
      before.updateWithBlock Platform.blank emptyBlock (2015 + UInt64.ofNat 1) = .ok after ∧
      UpdateSound AdaptiveBlockSizeParams.default (2015 + UInt64.ofNat 1) before after :=
  updates_sound valid_default 2015 [emptyBlock] emptyBlock fun _ _ => Nat.two_pow_pos 63

end

/-- The last entries of a list. -/
def recent (k : Nat) (sizes : List UInt64) : List UInt64 := sizes.drop (sizes.length - k)

theorem recent_succ_append (k : Nat) (sizes : List UInt64) (size : UInt64) :
    recent (k + 1) (sizes ++ [size]) = recent k sizes ++ [size] := by
  rw [recent, recent, length_append, length_singleton, Nat.add_sub_add_right]
  exact drop_append_of_le_length (Nat.sub_le _ _)

variable {n p : Nat} {size height : UInt64}

theorem mem_recent_recent {k : Nat} {sizes : List UInt64}
    (h : size ∈ recent k (recent n sizes)) : size ∈ recent k sizes := by
  have hsplit : (recent n sizes).drop ((recent n sizes).length - k) =
      (recent k sizes).drop ((sizes.length - n) + ((recent n sizes).length - k) -
        (sizes.length - k)) := by
    rw [recent, recent, drop_drop, drop_drop, length_drop]
    congr 1
    omega
  rw [recent, hsplit] at h
  exact mem_of_mem_drop h

theorem popWhileLonger_eq_recent (period : Nat) (sizes : List UInt64) :
    popWhileLonger period sizes = recent period sizes :=
  popWhileLonger_eq_drop period sizes

variable {env : Platform} {params : AdaptiveBlockSizeParams Rat}
  {s t : AdaptiveBlockSizeCalculator Rat × UInt64}

/-- A block is accepted under the limit in force and then counted, at the next height. -/
def Accepts (env : Platform) (s t : AdaptiveBlockSizeCalculator Rat × UInt64) : Prop :=
  ∃ block, s.1.validateBlockSize env block = .ok () ∧
    s.1.updateWithBlock env block s.2 = .ok t.1 ∧ t.2 = s.2 + 1

/-- The number of blocks before a height since the limit was last set. -/
def sinceAdjustment (params : AdaptiveBlockSizeParams Rat) (height : UInt64) : Nat :=
  (height.toNat - 1) % params.medianCalculationPeriodBlocks.toNat

/-- The blocks since the limit was last set are within it. -/
structure WithinLimit (params : AdaptiveBlockSizeParams Rat)
    (s : AdaptiveBlockSizeCalculator Rat × UInt64) : Prop where
  params_eq : s.1.params = params
  min_le : params.minMaxBlockSizeBytes ≤ s.1.currentAdaptiveMaxSize
  recent_le : ∀ size ∈ recent (sinceAdjustment params s.2) s.1.blockSizes,
    size ≤ s.1.currentAdaptiveMaxSize

theorem pred_mod_of_mod_eq_zero (hp : 0 < p) (hn : 0 < n) (h : n % p = 0) :
    (n - 1) % p = p - 1 := by
  have hdiv := Nat.div_add_mod n p
  obtain ⟨q, hq⟩ : ∃ q, n / p = q + 1 := by
    refine Nat.exists_eq_add_one_of_ne_zero fun hzero => ?_
    rw [hzero] at hdiv
    omega
  rw [hq, h, Nat.mul_add, Nat.mul_one] at hdiv
  rw [show n - 1 = p * q + (p - 1) by omega, Nat.mul_add_mod, Nat.mod_eq_of_lt (by omega)]

theorem pred_mod_of_mod_ne_zero (hp : 0 < p) (h : n % p ≠ 0) : (n - 1) % p + 1 = n % p := by
  have hdiv := Nat.div_add_mod n p
  have hlt := Nat.mod_lt n hp
  have hpred : n - 1 = p * (n / p) + (n % p - 1) := by omega
  rw [hpred, Nat.mul_add_mod, Nat.mod_eq_of_lt (by omega)]
  omega

/-- A shrinking percentage that is not negative makes no median larger. -/
theorem shrunk_le {shrink : Rat} (hshrink : 0 ≤ shrink) (median : UInt64) :
    (F64Cast.castToU64 (F64.mul (F64.ofU64 median) (F64Sum.sub 1.0 shrink) : Rat)).toNat ≤
      median.toNat := by
  have hone : (1.0 : Rat) = 1 := by decide +kernel
  have hproduct : (median.toNat : Rat) * (1.0 - shrink) ≤ (median.toNat : Rat) := by
    rw [hone]
    calc (median.toNat : Rat) * (1 - shrink) ≤ (median.toNat : Rat) * 1 :=
          mul_le_mul_of_nonneg_left (sub_le_self 1 hshrink) (Nat.cast_nonneg _)
      _ = median.toNat := mul_one _
  have hfloor : ((median.toNat : Rat) * (1.0 - shrink)).floor ≤ (median.toNat : Int) := by
    have hle := (Rat.floor_le _).trans hproduct
    exact_mod_cast hle
  show (UInt64.ofNat (min ((median.toNat : Rat) * (1.0 - shrink)).floor.toNat (2 ^ 64 - 1))).toNat ≤
    median.toNat
  rw [toNat_ofNat']
  omega

variable {self : AdaptiveBlockSizeCalculator Rat}

/-- A median within the limit does not raise it. -/
theorem potentialLimit_le
    (hshrink : 0 ≤ self.params.blockSizeShrinkFactorPercentage) {median : UInt64}
    (hmedian : median ≤ self.currentAdaptiveMaxSize) :
    self.calculatePotentialLimit median ≤ self.currentAdaptiveMaxSize := by
  rw [calculatePotentialLimit]
  simp only [if_neg (UInt64.not_lt.mpr hmedian)]
  split
  · rw [le_iff_toNat_le] at hmedian ⊢
    exact (shrunk_le hshrink median).trans hmedian
  · exact UInt64.le_refl _

theorem withinLimit_new (hparams : params.Valid) (start : UInt64) :
    WithinLimit params (new params, start) where
  params_eq := rfl
  min_le := hparams.min_le
  recent_le := by
    intro size hmem
    rw [new, recent, drop_nil] at hmem
    cases hmem

/-- After the last height the count starts again. -/
theorem sinceAdjustment_succ_eq (height : UInt64) :
    sinceAdjustment params (height + 1) = 0 ∨ sinceAdjustment params (height + 1) =
      height.toNat % params.medianCalculationPeriodBlocks.toNat := by
  have hone : (1 : UInt64).toNat = 1 := rfl
  have hlt := height.toNat_lt
  rw [sinceAdjustment, UInt64.toNat_add, hone]
  by_cases hwrap : height.toNat + 1 < 2 ^ 64
  · right
    rw [Nat.mod_eq_of_lt hwrap, Nat.add_sub_cancel]
  · left
    rw [show height.toNat + 1 = 2 ^ 64 by omega, Nat.mod_self, Nat.zero_sub, Nat.zero_mod]

theorem sinceAdjustment_succ_of_multiple
    (hmultiple : height % params.medianCalculationPeriodBlocks = 0) :
    sinceAdjustment params (height + 1) = 0 := by
  have hmod := congrArg UInt64.toNat hmultiple
  rw [UInt64.toNat_mod] at hmod
  rcases sinceAdjustment_succ_eq height with hzero | heq
  · exact hzero
  · exact heq.trans hmod

/-- Between two settings of the limit the count goes up by at most one. -/
theorem sinceAdjustment_succ
    (hother : height = 0 ∨ height % params.medianCalculationPeriodBlocks ≠ 0)
    (hperiod : 0 < params.medianCalculationPeriodBlocks.toNat) :
    sinceAdjustment params (height + 1) = 0 ∨
      sinceAdjustment params (height + 1) = sinceAdjustment params height + 1 := by
  rcases sinceAdjustment_succ_eq height with hzero | heq
  · exact .inl hzero
  · rw [heq, sinceAdjustment]
    rcases hother with rfl | hmod
    · exact .inl (Nat.zero_mod _)
    · refine .inr (pred_mod_of_mod_ne_zero hperiod fun hzero => hmod ?_).symm
      rw [← UInt64.toNat_inj, UInt64.toNat_mod, hzero, UInt64.toNat_zero]

/-- When the limit is set, the whole window is since the last time. -/
theorem window_le_of_multiple (hparams : params.Valid) (hwithin : WithinLimit params s)
    (hsize : size ≤ s.1.currentAdaptiveMaxSize) (hne : s.2 ≠ 0)
    (hmultiple : s.2 % params.medianCalculationPeriodBlocks = 0) :
    ∀ other ∈ popWhileLonger params.medianCalculationPeriodBlocks.toNat (s.1.blockSizes ++ [size]),
      other ≤ s.1.currentAdaptiveMaxSize := by
  have hmod := congrArg UInt64.toNat hmultiple
  rw [UInt64.toNat_mod, UInt64.toNat_zero] at hmod
  have hpos : 0 < s.2.toNat :=
    Nat.pos_of_ne_zero fun hzero => hne (UInt64.toNat_inj.mp hzero)
  have hcount : sinceAdjustment params s.2 + 1 = params.medianCalculationPeriodBlocks.toNat := by
    have hperiod := hparams.period
    rw [sinceAdjustment, pred_mod_of_mod_eq_zero hperiod hpos hmod]
    omega
  rw [← hcount, popWhileLonger_eq_recent, recent_succ_append]
  intro other hmem
  rcases mem_append.mp hmem with hold | hnew
  · exact hwithin.recent_le other hold
  · rw [mem_singleton.mp hnew]
    exact hsize

/-- An accepted block never raises the limit, and the blocks stay within it. -/
theorem accepts_spec (hparams : params.Valid)
    (hshrink : 0 ≤ params.blockSizeShrinkFactorPercentage) (hwithin : WithinLimit params s)
    (hstep : Accepts env s t) :
    WithinLimit params t ∧ t.1.currentAdaptiveMaxSize ≤ s.1.currentAdaptiveMaxSize := by
  obtain ⟨block, hvalid, hupdate, hheight⟩ := hstep
  have hsize := UInt64.not_lt.mp (ite_fail_eq_ok.mp hvalid).1
  have hparams_eq := hwithin.params_eq
  obtain ⟨updated, hupdated, hkept, hwindow, hlimit⟩ := updateWithBlock_spec env
    (hparams_eq ▸ hparams.period_pos) block s.2
  rw [hupdate] at hupdated
  cases hupdated
  rw [hparams_eq] at hkept hwindow hlimit
  rcases hlimit with ⟨hlimit, hother⟩ | ⟨hne, hmultiple, hlimit⟩
  · refine ⟨⟨hkept, hlimit ▸ hwithin.min_le, ?_⟩, hlimit ▸ UInt64.le_refl _⟩
    intro size hmem
    rw [hwindow, popWhileLonger_eq_recent, hheight] at hmem
    have hmem := mem_recent_recent hmem
    rw [hlimit]
    rcases sinceAdjustment_succ hother hparams.period with hzero | hsucc
    · rw [hzero, recent, Nat.sub_zero, drop_length] at hmem
      cases hmem
    · rw [hsucc, recent_succ_append] at hmem
      rcases mem_append.mp hmem with hold | hnew
      · exact hwithin.recent_le size hold
      · rw [mem_singleton.mp hnew]
        exact hsize
  · have hmedian : t.1.calculateMedianBlockSize ≤ s.1.currentAdaptiveMaxSize := by
      apply median_le
      · rw [hwindow]
        exact popWhileLonger_append_ne_nil hparams.period _ _
      · rw [hwindow]
        exact window_le_of_multiple hparams hwithin hsize hne hmultiple
    have hpotential := le_iff_toNat_le.mp (potentialLimit_le (hparams_eq ▸ hshrink) hmedian)
    have hmin := le_iff_toNat_le.mp hwithin.min_le
    have hset := allows_applyHardLimits (hparams_eq ▸ hparams)
      (s.1.calculatePotentialLimit t.1.calculateMedianBlockSize)
    rw [hparams_eq, ← hlimit] at hset
    refine ⟨⟨hkept, hset.1, ?_⟩, ?_⟩
    · intro size hmem
      rw [hheight, sinceAdjustment_succ_of_multiple hmultiple, recent, Nat.sub_zero,
        drop_length] at hmem
      cases hmem
    · rw [le_iff_toNat_le, hlimit, toNat_applyHardLimits, hparams_eq]
      omega

/-- Over any number of accepted blocks. -/
theorem accepted_limit_le (hparams : params.Valid)
    (hshrink : 0 ≤ params.blockSizeShrinkFactorPercentage) (hwithin : WithinLimit params s)
    (hrun : Relation.ReflTransGen (Accepts env) s t) :
    WithinLimit params t ∧ t.1.currentAdaptiveMaxSize ≤ s.1.currentAdaptiveMaxSize := by
  induction hrun with
  | refl => exact ⟨hwithin, UInt64.le_refl _⟩
  | tail _ hstep ih =>
    obtain ⟨hnext, hle⟩ := accepts_spec hparams hshrink ih.1 hstep
    exact ⟨hnext, UInt64.le_trans hle ih.2⟩

/-- After any history of accepted blocks there is no further sequence of accepted blocks after
which the limit is larger. -/
theorem limit_never_grows (hparams : params.Valid)
    (hshrink : 0 ≤ params.blockSizeShrinkFactorPercentage) (start : UInt64)
    (hhistory : Relation.ReflTransGen (Accepts env) (new params, start) s) :
    ¬ ∃ t, Relation.ReflTransGen (Accepts env) s t ∧
      s.1.currentAdaptiveMaxSize < t.1.currentAdaptiveMaxSize := by
  rintro ⟨t, hrun, hgrown⟩
  have hwithin := (accepted_limit_le hparams hshrink (withinLimit_new hparams start) hhistory).1
  have hle := (accepted_limit_le hparams hshrink hwithin hrun).2
  exact absurd hgrown (UInt64.not_lt.mpr hle)

theorem shrink_default_nonneg :
    0 ≤ (AdaptiveBlockSizeParams.default : AdaptiveBlockSizeParams Rat
      ).blockSizeShrinkFactorPercentage := by
  decide +kernel

/-- After an empty block. -/
theorem limit_never_grows_emptyBlock :
    ∃ next : AdaptiveBlockSizeCalculator Rat, Accepts Platform.blank (new .default, 0) (next, 1) ∧
      ¬ ∃ t, Relation.ReflTransGen (Accepts Platform.blank) (next, 1) t ∧
        next.currentAdaptiveMaxSize < t.1.currentAdaptiveMaxSize := by
  have haccepts : Accepts Platform.blank (new .default, 0) (_, 1) :=
    ⟨⟨⟨1, 0, .replicate 32 0, .replicate 32 0, .replicate 32 0, 0, 0, 0⟩, [], []⟩, rfl, rfl, rfl⟩
  exact ⟨_, haccepts, limit_never_grows valid_default shrink_default_nonneg 0 (.single haccepts)⟩

/-- With the default parameters the limit starts at two million bytes, far below the greatest
one, and two million bytes is as large as it gets. -/
theorem default_limit_stuck :
    (2000000 : UInt64) <
        (AdaptiveBlockSizeParams.default : AdaptiveBlockSizeParams Rat
          ).absoluteHardMaxBlockSizeBytes ∧
      ∀ env t, Relation.ReflTransGen (Accepts env)
        (new AdaptiveBlockSizeParams.default, 0) t → t.1.currentAdaptiveMaxSize ≤ 2000000 := by
  refine ⟨by decide, fun env t hrun => ?_⟩
  exact (accepted_limit_le valid_default shrink_default_nonneg
    (withinLimit_new valid_default 0) hrun).2

end AdaptiveBlockSizeCalculator

end RustyCoin.RustyConsensus
