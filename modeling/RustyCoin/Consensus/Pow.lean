import Mathlib.Data.Vector.Zip
import RustyCoin.Consensus.Error
import RustyCoin.Types.Platform

/-!
# Proof of work

OxideHash fills a scratchpad of one gigabyte from the hash of a block header and
then reads and writes it at addresses that depend on what it has read. A slot of
the scratchpad carries the proof that its 32 bytes lie inside, so no access is
out of range. Targets are 256-bit numbers, kept as natural numbers: a product
that does not fit and a division by zero abort.
-/

namespace RustyCoin.Pow

open Outcome

/-- `SCRATCHPAD_SIZE` -/
def scratchpadSize : Nat := 2 ^ 30

/-- `ITERATIONS_PER_HASH` -/
def iterationsPerHash : Nat := 2 ^ 20

/-- 32 bytes of the scratchpad. -/
structure Slot where
  offset : Nat
  inRange : offset + 32 ≤ scratchpadSize

structure Scratchpad where
  bytes : Array UInt8
  size_eq : bytes.size = scratchpadSize

namespace Scratchpad

def zeroed : Scratchpad := ⟨Array.replicate scratchpadSize 0, Array.size_replicate⟩

variable (pad : Scratchpad) (slot : Slot)

def read : Hash :=
  List.Vector.ofFn fun k : Fin 32 =>
    have hlt : slot.offset + k < pad.bytes.size := by
      have hrange := slot.inRange
      rw [← pad.size_eq] at hrange
      omega
    pad.bytes[slot.offset + k]

@[simp] theorem size_foldl_set (bytes : List (UInt8 × Nat)) (offset : Nat) (pad : Array UInt8) :
    (bytes.foldl (fun pad (b, k) => pad.setIfInBounds (offset + k) b) pad).size = pad.size := by
  induction bytes generalizing pad with
  | nil => rfl
  | cons byte bytes ih => rw [List.foldl_cons, ih, Array.size_setIfInBounds]

def write (hash : Hash) : Scratchpad :=
  ⟨hash.toList.zipIdx.foldl (fun pad (b, k) => pad.setIfInBounds (slot.offset + k) b) pad.bytes,
    (size_foldl_set _ _ _).trans pad.size_eq⟩

end Scratchpad

/-- The slots that the first loop fills one after the other. -/
def Slot.ofIndex (i : Fin (scratchpadSize / 32)) : Slot where
  offset := 32 * i
  inRange := by
    have hlt := i.isLt
    simp only [scratchpadSize] at hlt ⊢
    omega

/-- The address that a hash stands for. -/
def Slot.ofSeed (seed : Hash) : Slot where
  offset := leValue (seed.toList.take 8) % (scratchpadSize - 32)
  inRange := by
    have hpos : 0 < scratchpadSize - 32 := by simp [scratchpadSize]
    have hlt := Nat.mod_lt (leValue (seed.toList.take 8)) hpos
    omega

def Slot.first : Slot := ⟨0, by simp [scratchpadSize]⟩

def Slot.last : Slot := ⟨scratchpadSize - 32, by simp [scratchpadSize]⟩

variable (env : Platform)

/-- One step of filling: the new hash is written and is the next seed. -/
def fillStep (state : Scratchpad × Hash) (i : Fin (scratchpadSize / 32)) : Scratchpad × Hash :=
  let hashOutput := env.blake3 (state.2.toList ++ leBytes 8 (32 * i))
  (state.1.write (.ofIndex i) hashOutput, hashOutput)

def fillScratchpad (initialSeed : Hash) : Scratchpad :=
  ((List.finRange _).foldl (fillStep env) (.zeroed, initialSeed)).1

def xorHash (a b : Hash) : Hash := List.Vector.zipWith (· ^^^ ·) a b

/-- One step of the second loop, on the scratchpad and the current hash. -/
def mixStep (state : Scratchpad × Hash) (i : Nat) : Scratchpad × Hash :=
  let readSlot := Slot.ofSeed (env.blake3 (state.2.toList ++ leBytes 8 i))
  let mixed := env.blake3 (xorHash state.2 (state.1.read readSlot)).toList
  let writeIndex := UInt32.ofNat i ^^^ 0xFFFFFFFF
  let writeSlot := Slot.ofSeed (env.blake3 (mixed.toList ++ leBytes 4 writeIndex.toNat))
  (state.1.write writeSlot mixed, mixed)

/-- OxideHash. -/
def calculateHash (header : BlockHeader) : Hash :=
  let initialSeed := header.hash env
  let mixed := (List.range iterationsPerHash).foldl (mixStep env)
    (fillScratchpad env initialSeed, initialSeed)
  env.blake3 ((mixed.1.read .first).toList ++ mixed.2.toList ++ (mixed.1.read .last).toList)

def verifyPow (header : BlockHeader) (difficultyTarget : Nat) : Bool :=
  decide (leValue (calculateHash env header).toList ≤ difficultyTarget)

/-- With digests of zero every header has enough work. -/
theorem verifyPow_of_zero {env : Platform}
    (hzero : ∀ bytes, env.blake3 bytes = .replicate 32 0) (header : BlockHeader)
    (difficultyTarget : Nat) : verifyPow env header difficultyTarget = true := by
  have hvalue : leValue (List.Vector.replicate 32 (0 : UInt8)).toList = 0 := by decide
  rw [verifyPow, calculateHash, hzero, hvalue]
  exact decide_eq_true (Nat.zero_le _)

/-- `U256::MAX` -/
def maxU256 : Nat := 2 ^ 256 - 1

/-- A product of `U256` values. -/
def mulU256 (a b : Nat) : ConsensusResult Nat :=
  if a * b ≤ maxU256 then .ok (a * b) else .error .panic

/-- A quotient of `U256` values. -/
def divU256 (a b : Nat) : ConsensusResult Nat :=
  if b = 0 then .error .panic else .ok (a / b)

/-- The last two parameters of the source before the bound are not used. -/
def calculateNewTarget (currentTarget : Nat)
    (actualTimespan targetTimespan _adjustmentWindow _maxTimespan : UInt64) (maxTarget : Nat) :
    ConsensusResult Nat := do
  let clampedTimespan := min (max actualTimespan (targetTimespan / 4)) (targetTimespan * 4)
  let scaled ← mulU256 currentTarget clampedTimespan.toNat
  let newTarget ← divU256 scaled targetTimespan.toNat
  return if newTarget > maxTarget then maxTarget else newTarget

/-- The product of a compact target and a timespan fits. -/
theorem mulU256_ok (target : UInt32) (timespan : UInt64) :
    mulU256 target.toNat timespan.toNat = .ok (target.toNat * timespan.toNat) := by
  refine if_pos ?_
  have htarget : target.toNat ≤ 2 ^ 32 := target.toNat_lt.le
  have htimespan : timespan.toNat ≤ 2 ^ 64 := timespan.toNat_lt.le
  calc target.toNat * timespan.toNat ≤ 2 ^ 32 * 2 ^ 64 := Nat.mul_le_mul htarget htimespan
    _ ≤ maxU256 := by decide

variable (target : UInt32) (actualTimespan window maxTimespan : UInt64)

/-- Without a timespan to aim at the target cannot be calculated. -/
theorem calculateNewTarget_zero (maxTarget : Nat) :
    calculateNewTarget target.toNat actualTimespan 0 window maxTimespan maxTarget =
      .error .panic := by
  rw [calculateNewTarget, mulU256_ok]
  rfl

/-- The new target is never out of range, and the bound is kept. -/
theorem calculateNewTarget_ok
    {targetTimespan : UInt64} (hpos : targetTimespan ≠ 0) (maxTarget : Nat) :
    ∃ newTarget ≤ maxTarget,
      calculateNewTarget target.toNat actualTimespan targetTimespan window maxTimespan maxTarget =
        .ok newTarget := by
  have hnat : targetTimespan.toNat ≠ 0 := fun h => hpos (UInt64.toNat_inj.mp h)
  rw [calculateNewTarget, mulU256_ok, ok_bind, divU256, if_neg hnat, ok_bind, pure_eq_ok]
  refine ⟨_, ?_, rfl⟩
  split
  · exact Nat.le_refl _
  · omega

end RustyCoin.Pow
