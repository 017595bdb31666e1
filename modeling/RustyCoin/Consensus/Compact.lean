import Mathlib.Data.Nat.Bitwise
import Mathlib.Data.Nat.Size
import RustyCoin.Consensus.Pow
import RustyCoin.Lib.ShortFloat

/-!
# Compact targets

A header carries its 256-bit target in 32 bits: one byte of exponent, a sign bit
and 23 bits of mantissa. The two crates have an encoder and a decoder each. The
encoders agree and keep the leading two or three bytes, as a short floating-point
number does. The decoders agree on what the encoders produce, but not on every
header: they treat the sign and a large exponent differently.
-/

namespace RustyCoin

open ShortFloat Nat UInt32

/-- `U256 << shift`: bits beyond the last are lost. -/
def shlU256 (value shift : Nat) : Nat := value <<< shift % 2 ^ 256

/-- `U256::leading_zeros` -/
def leadingZeros (target : Nat) : Nat := 256 - target.size

namespace Compact

def exponent (compact : UInt32) : UInt8 := (compact >>> 24).toUInt8

def mantissa (compact : UInt32) : UInt32 := compact &&& 0x007fffff

def negative (compact : UInt32) : Bool := compact &&& 0x00800000 != 0

end Compact

namespace Pow

/-- The decoder of rusty-core. The sign is read and then ignored. -/
def compactToTarget (compact : UInt32) : Nat :=
  let exponent := Compact.exponent compact
  let value := (Compact.mantissa compact).toNat
  if exponent ≤ 3 then value >>> (8 * (3 - exponent.toNat))
  else shlU256 value (8 * (exponent.toNat - 3))

/-- The encoder of rusty-core. -/
def targetToCompact (target : Nat) : UInt32 :=
  let size := 32 - leadingZeros target / 8
  let compact :=
    if size ≤ 3 then UInt32.ofNat target <<< UInt32.ofNat (8 * (3 - size))
    else UInt32.ofNat (target >>> (8 * (size - 3)))
  if Compact.negative compact then
    UInt32.ofNat (size + 1) <<< 24 ||| Compact.mantissa (compact >>> 8)
  else
    UInt32.ofNat size <<< 24 ||| Compact.mantissa compact

end Pow

namespace ConsensusPow

/-- The decoder of rusty-consensus. The shifts are computed in eight bits. -/
def compactToTarget (compact : UInt32) : Nat :=
  let exponent := Compact.exponent compact
  let mantissa := Compact.mantissa compact
  if mantissa = 0 then 0
  else
    let target :=
      if exponent ≤ 3 then mantissa.toNat >>> (8 * (3 - exponent)).toNat
      else shlU256 mantissa.toNat (8 * (exponent - 3)).toNat
    if Compact.negative compact then 0 else target

/-- The encoder of rusty-consensus. -/
def targetToCompact (target : Nat) : UInt32 :=
  if target = 0 then 0
  else
    let size := (target.size + 7) / 8
    let compact :=
      if size ≤ 3 then (UInt64.ofNat target).toUInt32 <<< UInt32.ofNat (8 * (3 - size))
      else (UInt64.ofNat (target >>> (8 * (size - 3)))).toUInt32
    if Compact.negative compact then
      Compact.mantissa (compact >>> 8) ||| UInt32.ofNat (size + 1) <<< 24
    else
      Compact.mantissa compact ||| UInt32.ofNat size <<< 24

end ConsensusPow

namespace Compact

variable (compact : UInt32)

theorem toNat_exponent : (exponent compact).toNat = compact.toNat / 2 ^ 24 := by
  have hlt := compact.toNat_lt
  have hshift : (compact >>> 24).toNat = compact.toNat / 2 ^ 24 := by
    rw [UInt32.toNat_shiftRight, shiftRight_eq_div_pow]
    rfl
  rw [exponent, toNat_toUInt8, hshift]
  omega

theorem toNat_mantissa : (mantissa compact).toNat = compact.toNat % 2 ^ 23 := by
  rw [mantissa, UInt32.toNat_and]
  exact and_two_pow_sub_one_eq_mod compact.toNat 23

theorem mantissa_lt : (mantissa compact).toNat < 2 ^ 23 := by
  rw [toNat_mantissa]
  exact mod_lt _ (by decide)

theorem negative_iff : negative compact = true ↔ 2 ^ 23 ≤ compact.toNat % 2 ^ 24 := by
  have hand : (compact &&& 0x00800000).toNat = (compact.toNat.testBit 23).toNat * 2 ^ 23 := by
    rw [UInt32.toNat_and]
    exact and_two_pow compact.toNat 23
  rw [negative, bne_iff_ne, ne_eq, ← UInt32.toNat_inj, hand, testBit_eq_decide_div_mod_eq]
  by_cases hbit : compact.toNat / 2 ^ 23 % 2 = 1
  · simp only [hbit, decide_true, Bool.toNat_true, UInt32.toNat_zero]
    omega
  · simp only [hbit, decide_false, Bool.toNat_false, UInt32.toNat_zero]
    omega

/-- Exponent and mantissa side by side. -/
theorem toNat_pack {size : Nat} {low : UInt32} (hsize : size < 256) (hlow : low.toNat < 2 ^ 24) :
    (UInt32.ofNat size <<< 24 ||| low).toNat = size * 2 ^ 24 + low.toNat := by
  have hshift : (UInt32.ofNat size <<< 24).toNat = size <<< 24 := by
    have hofNat : (UInt32.ofNat size).toNat = size :=
      toNat_ofNat_of_lt' (Nat.lt_trans hsize (by decide))
    rw [UInt32.toNat_shiftLeft, hofNat, shiftLeft_eq, shiftLeft_eq]
    exact mod_eq_of_lt (by simp; omega)
  rw [UInt32.toNat_or, hshift, ← shiftLeft_add_eq_or_of_lt hlow, shiftLeft_eq]

/-- 23 bits of mantissa over bytes. -/
def format : Format where
  base := 256
  precision := 3
  limit := 2 ^ 23
  one_lt_base := by decide
  base_dvd_limit := ⟨2 ^ 15, rfl⟩
  limit_le := by decide
  le_limit := by decide

/-- The number of bytes that a target takes. -/
def byteLength (target : Nat) : Nat := (target.size + 7) / 8

theorem two_pow_eight_mul (k : Nat) : 2 ^ (8 * k) = 256 ^ k := Nat.pow_mul 2 8 k

theorem lt_pow_byteLength (target : Nat) : target < 256 ^ byteLength target := by
  rw [← two_pow_eight_mul, ← size_le, byteLength]
  omega

variable {target : Nat}

theorem pow_byteLength_le (hpos : byteLength target ≠ 0) :
    256 ^ (byteLength target - 1) ≤ target := by
  rw [← two_pow_eight_mul, ← lt_size]
  unfold byteLength at hpos ⊢
  omega

theorem size_le_of_le_maxU256 (hle : target ≤ Pow.maxU256) : target.size ≤ 256 := by
  rw [size_le]
  unfold Pow.maxU256 at hle
  omega

/-- The three leading bytes of a target. -/
def leadingBytes (target : Nat) : Nat := target * 256 ^ 3 / 256 ^ byteLength target

theorem leadingBytes_lt (target : Nat) : leadingBytes target < 2 ^ 24 := by
  have hlt := lt_pow_byteLength target
  unfold leadingBytes
  rw [Nat.div_lt_iff_lt_mul (Nat.pow_pos (by decide)), Nat.mul_comm]
  exact Nat.mul_lt_mul_of_pos_left hlt (by decide)

theorem leadingBytes_of_le (hle : byteLength target ≤ 3) :
    leadingBytes target = target * 256 ^ (3 - byteLength target) := by
  rw [leadingBytes, ← Nat.pow_sub_mul_pow 256 hle, ← Nat.mul_assoc]
  exact Nat.mul_div_cancel _ (Nat.pow_pos (by decide))

theorem leadingBytes_of_lt (hlt : 3 < byteLength target) :
    leadingBytes target = target / 256 ^ (byteLength target - 3) := by
  rw [leadingBytes, ← Nat.pow_sub_mul_pow 256 hlt.le]
  exact Nat.mul_div_mul_right _ _ (by decide)

/-- Both encoders shift the leading bytes into place. -/
theorem toNat_shifted (target : Nat) :
    (if byteLength target ≤ 3 then
        UInt32.ofNat target <<< UInt32.ofNat (8 * (3 - byteLength target))
      else UInt32.ofNat (target >>> (8 * (byteLength target - 3)))).toNat =
      leadingBytes target := by
  have hbound := leadingBytes_lt target
  split
  case isTrue hle =>
    rw [leadingBytes_of_le hle] at hbound ⊢
    have hfits : target < 2 ^ 32 := by
      have hone : 1 ≤ 256 ^ (3 - byteLength target) := Nat.pow_pos (by decide)
      have hself := Nat.le_mul_of_pos_right target hone
      omega
    have hshift : (UInt32.ofNat (8 * (3 - byteLength target))).toNat % 32 =
        8 * (3 - byteLength target) := by
      have hsmall : 8 * (3 - byteLength target) ≤ 24 := by omega
      rw [toNat_ofNat_of_lt' (Nat.lt_of_le_of_lt hsmall (by decide))]
      exact mod_eq_of_lt (by omega)
    rw [UInt32.toNat_shiftLeft, hshift, toNat_ofNat_of_lt' hfits, shiftLeft_eq, two_pow_eight_mul]
    exact mod_eq_of_lt (by omega)
  case isFalse hlt =>
    rw [leadingBytes_of_lt (by omega)] at hbound ⊢
    rw [shiftRight_eq_div_pow, two_pow_eight_mul]
    exact toNat_ofNat_of_lt' (Nat.lt_trans hbound (by decide))

/-- The end of both encoders: a mantissa that would set the sign gives up a byte. -/
theorem toNat_normalize {leading : UInt32} (hbytes : byteLength target ≤ 32)
    (hleading : leading.toNat = leadingBytes target) :
    (if negative leading then
        UInt32.ofNat (byteLength target + 1) <<< 24 ||| mantissa (leading >>> 8)
      else UInt32.ofNat (byteLength target) <<< 24 ||| mantissa leading).toNat =
      format.exponent target * 2 ^ 24 + format.mantissa target := by
  have hlt := leadingBytes_lt target
  have hexponent := Format.exponent_eq_of_digits (f := format) (lt_pow_byteLength target)
    fun hpos => pow_byteLength_le hpos
  have hmantissa : format.mantissa target = target * 256 ^ 3 / 256 ^ format.exponent target := rfl
  have hshift : (leading >>> 8).toNat = leading.toNat / 256 := by
    rw [UInt32.toNat_shiftRight, shiftRight_eq_div_pow]
    rfl
  by_cases hover : leadingBytes target < 2 ^ 23
  · have hsign : ¬ negative leading = true := by
      rw [negative_iff]
      omega
    have hexact : (mantissa leading).toNat = leadingBytes target := by
      rw [toNat_mantissa]
      omega
    replace hexponent : format.exponent target = byteLength target :=
      hexponent.trans (if_pos hover)
    rw [if_neg hsign, toNat_pack (by omega) (by omega), hexact, hmantissa, hexponent]
    rfl
  · have hsign : negative leading = true := by
      rw [negative_iff]
      omega
    have hexact : (mantissa (leading >>> 8)).toNat = leadingBytes target / 256 := by
      rw [toNat_mantissa, hshift]
      omega
    replace hexponent : format.exponent target = byteLength target + 1 :=
      hexponent.trans (if_neg hover)
    have hdiv : target * 256 ^ 3 / 256 ^ (byteLength target + 1) = leadingBytes target / 256 := by
      have hpow : 256 ^ (byteLength target + 1) = 256 ^ byteLength target * 256 :=
        Nat.pow_succ _ _
      rw [hpow, ← Nat.div_div_eq_div_mul]
      rfl
    rw [if_pos hsign, toNat_pack (by omega) (by omega), hexact, hmantissa, hexponent, hdiv]

/-- What a shift by whole bytes makes of a mantissa. -/
theorem shift_eq_value (e m : Nat) :
    (if e ≤ 3 then m >>> (8 * (3 - e)) else m <<< (8 * (e - 3))) = format.value e m := by
  change _ = m * 256 ^ e / 256 ^ 3
  split
  case isTrue hle =>
    rw [shiftRight_eq_div_pow, two_pow_eight_mul, ← Nat.pow_sub_mul_pow 256 hle]
    exact (Nat.mul_div_mul_right _ _ (Nat.pow_pos (by decide))).symm
  case isFalse hlt =>
    rw [shiftLeft_eq, two_pow_eight_mul, ← Nat.pow_sub_mul_pow 256 (Nat.le_of_not_le hlt),
      ← Nat.mul_assoc]
    exact (Nat.mul_div_cancel _ (by decide)).symm

theorem value_lt_of_le_three {e m : Nat} (hle : e ≤ 3) (hm : m < 2 ^ 23) :
    format.value e m < 2 ^ 256 := by
  rw [← shift_eq_value, if_pos hle]
  have hshift := shiftRight_le m (8 * (3 - e))
  have hsmall : 2 ^ 23 < 2 ^ 256 := by decide
  omega

/-- The exponent as the second decoder sees it. -/
def wrapExponent (e : Nat) : Nat := if e ≤ 3 then e else 3 + (e - 3) % 32

theorem toNat_wrappingShift {e : UInt8} (hlt : ¬ e ≤ 3) :
    (8 * (e - 3)).toNat = 8 * ((e.toNat - 3) % 32) := by
  have hthree : 3 ≤ e.toNat := Nat.le_of_not_ge hlt
  have hsub : (e - 3).toNat = e.toNat - 3 :=
    UInt8.toNat_sub_of_le e 3 (UInt8.le_iff_toNat_le.mpr hthree)
  rw [UInt8.toNat_mul, hsub]
  change 8 * (e.toNat - 3) % 256 = _
  omega

theorem toNat_shiftBelow {e : UInt8} (hle : e ≤ 3) : (8 * (3 - e)).toNat = 8 * (3 - e.toNat) := by
  have hthree : e.toNat ≤ 3 := UInt8.le_iff_toNat_le.mp hle
  rw [UInt8.toNat_mul, UInt8.toNat_sub_of_le 3 e hle]
  change 8 * (3 - e.toNat) % 256 = _
  omega

/-- An encoded target has no sign, and its fields are the format's. -/
theorem encoded_fields {compact : UInt32}
    (hcompact : compact.toNat = format.exponent target * 2 ^ 24 + format.mantissa target) :
    (exponent compact).toNat = format.exponent target ∧
      (mantissa compact).toNat = format.mantissa target ∧ negative compact = false := by
  have hmantissa : format.mantissa target < 2 ^ 23 := Format.mantissa_lt target
  refine ⟨?_, ?_, ?_⟩
  · rw [toNat_exponent, hcompact]
    omega
  · rw [toNat_mantissa, hcompact]
    omega
  · rw [← Bool.not_eq_true, negative_iff, hcompact]
    omega

end Compact

open RustyCoin.Compact

/-- The first decoder, as a number. -/
theorem Pow.compactToTarget_eq (compact : UInt32) :
    Pow.compactToTarget compact =
      format.value (exponent compact).toNat (mantissa compact).toNat % 2 ^ 256 := by
  have hm := mantissa_lt compact
  unfold Pow.compactToTarget
  by_cases hle : exponent compact ≤ 3
  · have hnat : (exponent compact).toNat ≤ 3 := UInt8.le_iff_toNat_le.mp hle
    rw [if_pos hle, mod_eq_of_lt (value_lt_of_le_three hnat hm), ← shift_eq_value, if_pos hnat]
  · have hnat : ¬ (exponent compact).toNat ≤ 3 := fun h => hle (UInt8.le_iff_toNat_le.mpr h)
    rw [if_neg hle, ← shift_eq_value, if_neg hnat]
    rfl

/-- The second decoder, as a number. -/
theorem ConsensusPow.compactToTarget_eq (compact : UInt32) :
    ConsensusPow.compactToTarget compact =
      if negative compact then 0
      else format.value (wrapExponent (exponent compact).toNat) (mantissa compact).toNat %
        2 ^ 256 := by
  have hm := mantissa_lt compact
  unfold ConsensusPow.compactToTarget
  by_cases hzero : mantissa compact = 0
  · have hvalue (e : Nat) : format.value e 0 = 0 := by simp [Format.value]
    simp [hzero, hvalue]
  rw [if_neg hzero]
  refine ite_congr rfl (fun _ => rfl) fun _ => ?_
  unfold wrapExponent
  by_cases hle : exponent compact ≤ 3
  · have hnat : (exponent compact).toNat ≤ 3 := UInt8.le_iff_toNat_le.mp hle
    rw [if_pos hle, if_pos hnat, mod_eq_of_lt (value_lt_of_le_three hnat hm), ← shift_eq_value,
      if_pos hnat, toNat_shiftBelow hle]
  · have hnat : ¬ (exponent compact).toNat ≤ 3 := fun h => hle (UInt8.le_iff_toNat_le.mpr h)
    rw [if_neg hle, if_neg hnat, toNat_wrappingShift hle, ← shift_eq_value]
    unfold shlU256
    -- A shift that wraps to nothing is the one case in which the exponent is back at three.
    split
    case isTrue hback =>
      have hnone : ((exponent compact).toNat - 3) % 32 = 0 := by omega
      rw [hnone]
      exact congrArg (· % 2 ^ 256) rfl
    case isFalse => rw [Nat.add_sub_cancel_left]

section

variable {target : Nat} (hle : target ≤ Pow.maxU256)

include hle

theorem byteLength_le : byteLength target ≤ 32 := by
  have hsize := size_le_of_le_maxU256 hle
  unfold byteLength
  omega

theorem Pow.toNat_targetToCompact :
    (Pow.targetToCompact target).toNat =
      format.exponent target * 2 ^ 24 + format.mantissa target := by
  have hsize : 32 - leadingZeros target / 8 = byteLength target := by
    have hbits := size_le_of_le_maxU256 hle
    unfold leadingZeros byteLength
    omega
  unfold Pow.targetToCompact
  rw [hsize]
  exact toNat_normalize (byteLength_le hle) (toNat_shifted target)

theorem ConsensusPow.toNat_targetToCompact :
    (ConsensusPow.targetToCompact target).toNat =
      format.exponent target * 2 ^ 24 + format.mantissa target := by
  unfold ConsensusPow.targetToCompact
  by_cases hzero : target = 0
  · rw [if_pos hzero, ← Pow.toNat_targetToCompact hle, hzero]
    rfl
  · rw [if_neg hzero]
    simp only [UInt64.toUInt32_ofNat', UInt32.or_comm (mantissa _)]
    exact toNat_normalize (byteLength_le hle) (toNat_shifted target)

theorem exponent_format_le : format.exponent target ≤ 33 := by
  have hbytes := byteLength_le hle
  have hdigits := Format.exponent_eq_of_digits (f := format) (lt_pow_byteLength target)
    fun hpos => pow_byteLength_le hpos
  rw [hdigits]
  split <;> omega

theorem round_mod : format.round target % 2 ^ 256 = format.round target := by
  have hround : format.round target ≤ target := Format.round_le target
  unfold Pow.maxU256 at hle
  exact mod_eq_of_lt (by omega)

/-- Decoding what was encoded gives the rounded target. -/
theorem Pow.compactToTarget_of_encoded {compact : UInt32}
    (hcompact : compact.toNat = format.exponent target * 2 ^ 24 + format.mantissa target) :
    Pow.compactToTarget compact = format.round target := by
  obtain ⟨he, hm, _⟩ := encoded_fields hcompact
  rw [Pow.compactToTarget_eq, he, hm]
  exact round_mod hle

theorem ConsensusPow.compactToTarget_of_encoded {compact : UInt32}
    (hcompact : compact.toNat = format.exponent target * 2 ^ 24 + format.mantissa target) :
    ConsensusPow.compactToTarget compact = format.round target := by
  obtain ⟨he, hm, hsign⟩ := encoded_fields hcompact
  have hwrap : wrapExponent (format.exponent target) = format.exponent target := by
    have hsmall := exponent_format_le hle
    unfold wrapExponent
    split <;> omega
  rw [ConsensusPow.compactToTarget_eq, hsign, if_neg Bool.false_ne_true, he, hm, hwrap]
  exact round_mod hle

end

namespace Compact

/-- Byte `i` of a target, counted from the least significant one. -/
def byteAt (target i : Nat) : Nat := target / 256 ^ i % 256

/-- What an encoder and a decoder of compact targets are for. -/
structure KeepsLeadingBytes (toCompact : Nat → UInt32) (toTarget : UInt32 → Nat) : Prop where
  atMost : ∀ target ≤ Pow.maxU256, toTarget (toCompact target) ≤ target
  leading : ∀ target ≤ Pow.maxU256, ∃ kept, (kept = 2 ∨ kept = 3) ∧
    ∀ i, byteLength target ≤ i + kept → byteAt (toTarget (toCompact target)) i = byteAt target i
  monotone : ∀ target target', target ≤ target' → target' ≤ Pow.maxU256 →
    toCompact target ≤ toCompact target'
  stable : ∀ target ≤ Pow.maxU256, toCompact (toTarget (toCompact target)) = toCompact target

/-- The bytes from the lowest of the mantissa on are not changed by rounding. -/
theorem byteAt_round (target : Nat) :
    ∃ kept, (kept = 2 ∨ kept = 3) ∧
      ∀ i, byteLength target ≤ i + kept → byteAt (format.round target) i = byteAt target i := by
  have hdigits := Format.exponent_eq_of_digits (f := format) (lt_pow_byteLength target)
    fun hpos => pow_byteLength_le hpos
  have hround {i : Nat} (hi : format.exponent target - 3 ≤ i) :
      byteAt (format.round target) i = byteAt target i :=
    congrArg (· % 256) (Format.round_div hi)
  split at hdigits
  · refine ⟨3, Or.inr rfl, fun i hi => hround ?_⟩
    omega
  · refine ⟨2, Or.inl rfl, fun i hi => hround ?_⟩
    omega

/-- Everything follows from the codes being those of the format. -/
theorem keepsLeadingBytes_of_format {toCompact : Nat → UInt32} {toTarget : UInt32 → Nat}
    (hcompact : ∀ target ≤ Pow.maxU256, (toCompact target).toNat =
      format.exponent target * 2 ^ 24 + format.mantissa target)
    (htarget : ∀ target ≤ Pow.maxU256, toTarget (toCompact target) = format.round target) :
    KeepsLeadingBytes toCompact toTarget where
  atMost := by
    intro target hle
    rw [htarget target hle]
    exact Format.round_le target
  leading := by
    intro target hle
    rw [htarget target hle]
    exact byteAt_round target
  monotone := by
    intro target target' hle hle'
    rw [le_iff_toNat_le, hcompact target (hle.trans hle'), hcompact target' hle']
    exact Format.code_mono (by decide) hle
  stable := by
    intro target hle
    have hround : format.round target ≤ Pow.maxU256 := (Format.round_le target).trans hle
    apply UInt32.toNat_inj.mp
    rw [htarget target hle, hcompact _ hround, hcompact target hle, Format.exponent_round,
      Format.mantissa_round]

/-- Both codecs keep the two or three leading bytes of a target, and the two
encoders agree. -/
theorem codecs_keep_leading_bytes :
    KeepsLeadingBytes Pow.targetToCompact Pow.compactToTarget ∧
      KeepsLeadingBytes ConsensusPow.targetToCompact ConsensusPow.compactToTarget ∧
        ∀ target ≤ Pow.maxU256,
          Pow.targetToCompact target = ConsensusPow.targetToCompact target := by
  refine ⟨?_, ?_, ?_⟩
  · apply keepsLeadingBytes_of_format
    · intro target hle
      exact Pow.toNat_targetToCompact hle
    · intro target hle
      exact Pow.compactToTarget_of_encoded hle (Pow.toNat_targetToCompact hle)
  · apply keepsLeadingBytes_of_format
    · intro target hle
      exact ConsensusPow.toNat_targetToCompact hle
    · intro target hle
      exact ConsensusPow.compactToTarget_of_encoded hle (ConsensusPow.toNat_targetToCompact hle)
  · intro target hle
    apply UInt32.toNat_inj.mp
    rw [Pow.toNat_targetToCompact hle, ConsensusPow.toNat_targetToCompact hle]

/-- Nothing of the mantissa is left within 256 bits. -/
def Vanishes (e m : Nat) : Prop := if e ≤ 3 then m < 256 ^ (3 - e) else 256 ^ (35 - e) ∣ m

theorem mul_pow_mod_eq_zero_iff (m d : Nat) : m * 256 ^ d % 2 ^ 256 = 0 ↔ 256 ^ (32 - d) ∣ m := by
  have hmax : 2 ^ 256 = 256 ^ 32 := by decide
  rw [hmax, ← dvd_iff_mod_eq_zero]
  rcases Nat.le_total d 32 with hle | hle
  · rw [← Nat.pow_sub_mul_pow 256 hle]
    exact Nat.mul_dvd_mul_iff_right (Nat.pow_pos (by decide))
  · rw [Nat.sub_eq_zero_of_le hle]
    exact iff_of_true (Nat.dvd_mul_left_of_dvd (Nat.pow_dvd_pow 256 hle) m) (Nat.one_dvd m)

theorem value_mod_eq_zero_iff {e m : Nat} (hm : m < 2 ^ 23) :
    format.value e m % 2 ^ 256 = 0 ↔ Vanishes e m := by
  unfold Vanishes
  split
  case isTrue hle =>
    rw [mod_eq_of_lt (value_lt_of_le_three hle hm), ← shift_eq_value, if_pos hle,
      shiftRight_eq_div_pow, two_pow_eight_mul,
      div_eq_zero_iff_lt (Nat.pow_pos (by decide))]
  case isFalse hlt =>
    have hsub : 32 - (e - 3) = 35 - e := by omega
    rw [← shift_eq_value, if_neg hlt, shiftLeft_eq, two_pow_eight_mul, mul_pow_mod_eq_zero_iff,
      hsub]

/-- The headers that mean the same target to both crates: without a sign, those whose
exponent is at most 34 or whose wrapped shift leaves nothing; with a sign, which only the second
decoder takes for zero, those that stand for zero anyway. -/
def SameTarget (compact : UInt32) : Prop :=
  if negative compact then Vanishes (exponent compact).toNat (mantissa compact).toNat
  else (exponent compact).toNat ≤ 34 ∨
    Vanishes (3 + ((exponent compact).toNat - 3) % 32) (mantissa compact).toNat

theorem compactToTarget_eq_iff (compact : UInt32) :
    Pow.compactToTarget compact = ConsensusPow.compactToTarget compact ↔ SameTarget compact := by
  have hm := mantissa_lt compact
  rw [Pow.compactToTarget_eq, ConsensusPow.compactToTarget_eq]
  unfold SameTarget
  split
  · exact value_mod_eq_zero_iff hm
  · by_cases hle : (exponent compact).toNat ≤ 34
    · have hwrap : wrapExponent (exponent compact).toNat = (exponent compact).toNat := by
        unfold wrapExponent
        split <;> omega
      rw [hwrap]
      exact iff_of_true rfl (Or.inl hle)
    · have hwrap : wrapExponent (exponent compact).toNat =
          3 + ((exponent compact).toNat - 3) % 32 := if_neg (by omega)
      have hzero :
          format.value (exponent compact).toNat (mantissa compact).toNat % 2 ^ 256 = 0 := by
        rw [value_mod_eq_zero_iff hm, Vanishes, if_neg (by omega), Nat.sub_eq_zero_of_le (by omega)]
        exact Nat.one_dvd _
      rw [hzero, hwrap, eq_comm, value_mod_eq_zero_iff hm]
      exact (or_iff_right hle).symm

/-- A shift by 256 bits wraps to none, and a sign bit turns a target into zero. -/
theorem compactToTarget_differ :
    Pow.compactToTarget 0x23000001 = 0 ∧ ConsensusPow.compactToTarget 0x23000001 = 1 ∧
      Pow.compactToTarget 0x04800001 = 256 ∧ ConsensusPow.compactToTarget 0x04800001 = 0 := by
  decide

end Compact

end RustyCoin
