import RustyCoin.RustyConsensus.ValidateBlock

/-!
# The difficulty rule of the synchroniser

A synchronising node decodes the compact target of a header with a function of its
own. It divides a 64-bit number by what the compact value stands for and writes the
quotient into the first eight bytes of the threshold, lowest byte first, while hashes
are compared from their first byte on.
-/

namespace RustyCoin.SyncManager

open RustyCoin.Compact UInt32 List
open RustyConsensus (bigEndianValue)

variable (difficultyTarget : UInt32)

/-- Shifts take their count modulo 32. -/
def difficultyValue : UInt32 :=
  let exponent := (exponent difficultyTarget).toUInt32
  if exponent ≤ 3 then mantissa difficultyTarget >>> (8 * (3 - exponent))
  else mantissa difficultyTarget <<< (8 * (exponent - 3))

def quotient : UInt64 :=
  let value := difficultyValue difficultyTarget
  if 0 < value then 18446744073709551615 / value.toUInt64 else 18446744073709551615

def difficultyTargetToThreshold : Hash :=
  ⟨leBytes 8 (quotient difficultyTarget).toNat ++ List.replicate 24 0, by simp⟩

/-- The error carries the two arrays that its message prints. -/
def validatePowHash (blockHash : Hash) (difficultyTarget : UInt32) : Except (Hash × Hash) Unit :=
  let threshold := difficultyTargetToThreshold difficultyTarget
  if bigEndianValue blockHash ≥ bigEndianValue threshold then .error (blockHash, threshold)
  else .ok ()

variable {value : Nat} (compact : UInt32)

theorem leValue_append (xs ys : Bytes) :
    leValue (xs ++ ys) = leValue xs + 256 ^ xs.length * leValue ys := by
  induction xs with
  | nil => simp [leValue]
  | cons x xs ih =>
    rw [cons_append, leValue, leValue, ih, length_cons, Nat.pow_succ']
    simp [Nat.mul_add, Nat.mul_assoc, Nat.add_assoc]

theorem leBytes_add (m n value : Nat) :
    leBytes (m + n) value = leBytes m value ++ leBytes n (value / 256 ^ m) := by
  induction m generalizing value with
  | zero => simp [leBytes]
  | succ m ih =>
    rw [Nat.succ_add, leBytes, leBytes, ih, Nat.div_div_eq_div_mul, Nat.pow_succ', cons_append]

theorem leValue_reverse_eq_zero (bs : Bytes) : leValue bs.reverse = 0 ↔ leValue bs = 0 := by
  have hzero (bs : Bytes) : leValue bs = 0 ↔ ∀ b ∈ bs, b = 0 := by
    induction bs with
    | nil => simp [leValue]
    | cons b bs ih =>
      rw [leValue, Nat.add_eq_zero_iff, forall_mem_cons, ← ih, ← UInt8.toNat_inj]
      simp
  simp [hzero]

/-- Reading the bytes in the opposite order, a short number leaves the low bytes empty, -/
theorem mod_eq_zero_of_lt {m n : Nat}
    (hlt : leValue (leBytes (m + n) value).reverse < 256 ^ n) : value % 256 ^ m = 0 := by
  rw [leBytes_add, List.reverse_append, leValue_append, length_reverse, length_leBytes] at hlt
  have hhigh : leValue (leBytes m value).reverse = 0 := by
    by_contra hne
    have := Nat.le_mul_of_pos_right (256 ^ n) (Nat.pos_of_ne_zero hne)
    omega
  rw [← leValue_leBytes]
  exact (leValue_reverse_eq_zero _).mp hhigh

/-- and a multiple of a power the high ones. -/
theorem div_mod_eq_zero_of_dvd {m n : Nat}
    (hdvd : 256 ^ n ∣ leValue (leBytes (m + n) value).reverse) : value / 256 ^ m % 256 ^ n = 0 := by
  rw [leBytes_add, List.reverse_append, leValue_append, length_reverse, length_leBytes,
    Nat.dvd_add_left ⟨_, rfl⟩] at hdvd
  rw [← leValue_leBytes]
  apply (leValue_reverse_eq_zero _).mp
  apply Nat.eq_zero_of_dvd_of_lt hdvd
  simpa using leValue_lt (leBytes n (value / 256 ^ m)).reverse

theorem bigEndianValue_threshold :
    bigEndianValue (difficultyTargetToThreshold compact) =
      256 ^ 24 * leValue (leBytes 8 (quotient compact).toNat).reverse := by
  unfold bigEndianValue difficultyTargetToThreshold
  rw [List.Vector.toList_mk, List.reverse_append, List.reverse_replicate, leValue_append,
    length_replicate, show leValue (List.replicate 24 0) = 0 from rfl, Nat.zero_add]

theorem quotient_cases :
    (difficultyValue compact).toNat = 0 ∧ (quotient compact).toNat = 2 ^ 64 - 1 ∨
      0 < (difficultyValue compact).toNat ∧
        (quotient compact).toNat = (2 ^ 64 - 1) / (difficultyValue compact).toNat := by
  unfold quotient
  by_cases hpos : 0 < difficultyValue compact
  · right
    rw [if_pos hpos]
    exact ⟨lt_iff_toNat_lt.mp hpos, by simp⟩
  · left
    rw [if_neg hpos]
    exact ⟨Nat.eq_zero_of_not_pos fun h => hpos (lt_iff_toNat_lt.mpr h), rfl⟩

theorem quotient_ge : 2 ^ 32 ≤ (quotient compact).toNat := by
  have hlt := (difficultyValue compact).toNat_lt
  obtain ⟨-, hquot⟩ | ⟨hpos, hquot⟩ := quotient_cases compact
  · omega
  · rw [hquot]
    apply (Nat.le_div_iff_mul_le hpos).mpr
    omega

variable {compact}

/-- The remainder of the division is too small for the quotient to end in empty bytes. -/
theorem not_dvd_quotient {k : Nat} (hk : k < 5)
    (hvalue : 256 ^ k ∣ (difficultyValue compact).toNat) :
    ¬ 256 ^ (5 - k) ∣ (quotient compact).toNat := by
  intro hdvd
  obtain ⟨-, hquot⟩ | ⟨hpos, hquot⟩ := quotient_cases compact
  · have h256 : 256 ∣ 256 ^ (5 - k) := dvd_pow_self 256 (by omega)
    have := h256.trans hdvd
    omega
  · have hlt := (difficultyValue compact).toNat_lt
    obtain ⟨q, hq⟩ := Nat.mul_dvd_mul hdvd hvalue
    rw [← Nat.pow_add, Nat.sub_add_cancel hk.le, hquot] at hq
    have hmod := Nat.mod_lt (2 ^ 64 - 1) hpos
    have hdiv := Nat.div_add_mod' (2 ^ 64 - 1) (difficultyValue compact).toNat
    omega

theorem dvd_difficultyValue (hlt : 3 < (exponent compact).toNat) :
    256 ^ (((exponent compact).toNat - 3) % 4) ∣ (difficultyValue compact).toNat := by
  have hle : (3 : UInt32) ≤ (exponent compact).toUInt32 :=
    le_iff_toNat_le.mpr (by simpa using hlt.le)
  have hnot : ¬ (exponent compact).toUInt32 ≤ 3 := fun h =>
    Nat.not_le_of_lt hlt (by simpa using le_iff_toNat_le.mp h)
  have hshift : (8 * ((exponent compact).toUInt32 - 3)).toNat % 32 =
      8 * (((exponent compact).toNat - 3) % 4) := by
    rw [UInt32.toNat_mul, UInt32.toNat_sub_of_le _ _ hle]
    change 8 * ((exponent compact).toNat - 3) % 2 ^ 32 % 32 = _
    omega
  rw [difficultyValue, if_neg hnot, UInt32.toNat_shiftLeft, hshift, Nat.shiftLeft_eq,
    ← two_pow_eight_mul]
  exact (Nat.dvd_mod_iff (Nat.pow_dvd_pow 2 (by omega))).mpr (Nat.dvd_mul_left _ _)

theorem compactToTarget_lt (compact : UInt32) :
    Pow.compactToTarget compact < 256 ^ (exponent compact).toNat := by
  have hm : (mantissa compact).toNat < 256 ^ 3 := (mantissa_lt compact).trans (by decide)
  rw [Pow.compactToTarget_eq]
  apply (Nat.mod_le _ _).trans_lt
  apply Nat.div_lt_of_lt_mul
  exact Nat.mul_lt_mul_of_pos_right hm (Nat.pow_pos (by decide))

theorem dvd_compactToTarget (hle : 31 ≤ (exponent compact).toNat) :
    256 ^ 28 ∣ Pow.compactToTarget compact := by
  rw [Pow.compactToTarget_eq]
  apply (Nat.dvd_mod_iff (by decide)).mpr
  apply Nat.dvd_div_of_mul_dvd
  exact Nat.dvd_mul_left_of_dvd (Nat.pow_dvd_pow 256 hle) _

variable (heq : bigEndianValue (difficultyTargetToThreshold compact) = Pow.compactToTarget compact)

include heq

/-- A small target makes the quotient end in empty bytes, -/
theorem dvd_quotient_of_eq (hlt : (exponent compact).toNat < 31) :
    256 ^ (32 - max 24 (exponent compact).toNat) ∣ (quotient compact).toNat := by
  have hbound := compactToTarget_lt compact
  rw [← heq, bigEndianValue_threshold] at hbound
  apply Nat.dvd_of_mod_eq_zero
  apply mod_eq_zero_of_lt (n := max 24 (exponent compact).toNat - 24)
  rw [show 32 - max 24 _ + (max 24 (exponent compact).toNat - 24) = 8 by omega]
  apply Nat.lt_of_mul_lt_mul_left (a := 256 ^ 24)
  apply hbound.trans_le
  rw [← Nat.pow_add]
  exact Nat.pow_le_pow_right (by decide) (by omega)

/-- and a large one empties its high bytes. -/
theorem quotient_lt_of_eq (hle : 31 ≤ (exponent compact).toNat) :
    (quotient compact).toNat < 2 ^ 32 := by
  have hdvd : 256 ^ 24 * 256 ^ 4 ∣
      256 ^ 24 * leValue (leBytes 8 (quotient compact).toNat).reverse := by
    rw [← bigEndianValue_threshold, heq, ← Nat.pow_add]
    exact dvd_compactToTarget hle
  have hzero := div_mod_eq_zero_of_dvd (m := 4) (Nat.dvd_of_mul_dvd_mul_left (by decide) hdvd)
  have hlt := (quotient compact).toNat_lt
  clear hdvd heq
  omega

omit heq

/-- The two decoders agree on no compact value. -/
theorem threshold_ne_compactToTarget (compact : UInt32) :
    bigEndianValue (difficultyTargetToThreshold compact) ≠ Pow.compactToTarget compact := by
  intro heq
  by_cases hhigh : 31 ≤ (exponent compact).toNat
  · exact Nat.not_le_of_lt (quotient_lt_of_eq heq hhigh) (quotient_ge compact)
  have hdvd := dvd_quotient_of_eq heq (Nat.lt_of_not_le hhigh)
  by_cases hlow : (exponent compact).toNat ≤ 24
  · apply not_dvd_quotient (k := 0) (by decide) (Nat.one_dvd _)
    rw [Nat.max_eq_left hlow] at hdvd
    exact Nat.dvd_trans (by decide) hdvd
  · apply not_dvd_quotient (k := ((exponent compact).toNat - 3) % 4) (by omega)
      (dvd_difficultyValue (by omega))
    exact Nat.dvd_trans (Nat.pow_dvd_pow 256 (by omega)) hdvd

/-- Of two canonical values the larger target rejects a hash that the smaller one accepts. -/
theorem larger_target_rejects :
    Pow.targetToCompact (Pow.compactToTarget 0x1d00fffe) = 0x1d00fffe ∧
      Pow.targetToCompact (Pow.compactToTarget 0x1d00ffff) = 0x1d00ffff ∧
      bigEndianValue (difficultyTargetToThreshold 0x1d00ffff) ≠ Pow.compactToTarget 0x1d00ffff ∧
      Pow.compactToTarget 0x1d00fffe < Pow.compactToTarget 0x1d00ffff ∧
      validatePowHash (2 ::ᵥ List.Vector.replicate 31 0) 0x1d00fffe = .ok () ∧
      validatePowHash (2 ::ᵥ List.Vector.replicate 31 0) 0x1d00ffff ≠ .ok () := by
  decide +kernel

end RustyCoin.SyncManager
