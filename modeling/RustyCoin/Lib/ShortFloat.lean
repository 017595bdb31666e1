import Mathlib.Tactic.Ring

/-!
# Short floating-point numbers

A format keeps the leading digits of a natural number: a mantissa below a limit
and an exponent that says where its digits stand. The exponent is the least one
for which the mantissa is below the limit, so all that is said about the format
comes from one inequality.
-/

namespace ShortFloat

/-- Mantissas are below `limit`, which takes `precision` digits or one less. -/
structure Format where
  base : Nat
  precision : Nat
  limit : Nat
  one_lt_base : 1 < base
  base_dvd_limit : base ∣ limit
  limit_le : limit ≤ base ^ precision
  le_limit : base ^ precision ≤ limit * base

namespace Format

variable (f : Format)

/-- With exponent `e` the mantissa of `n` is below the limit. -/
def Fits (n e : Nat) : Prop := n * f.base ^ f.precision < f.limit * f.base ^ e

instance (n : Nat) : DecidablePred (f.Fits n) := fun _ => Nat.decLt _ _

theorem base_pos : 0 < f.base := Nat.zero_lt_of_lt f.one_lt_base

theorem base_pow_pos (k : Nat) : 0 < f.base ^ k := Nat.pow_pos f.base_pos

theorem limit_pos : 0 < f.limit := by
  have hpos := f.base_pow_pos f.precision
  have hle := f.le_limit
  refine Nat.pos_of_ne_zero fun hzero => ?_
  rw [hzero, Nat.zero_mul] at hle
  omega

theorem exists_fits (n : Nat) : ∃ e, f.Fits n e := by
  refine ⟨n + f.precision, ?_⟩
  have hlt : n < f.base ^ n := n.lt_pow_self f.one_lt_base
  calc n * f.base ^ f.precision
      < f.base ^ n * f.base ^ f.precision := Nat.mul_lt_mul_of_pos_right hlt (f.base_pow_pos _)
    _ = 1 * f.base ^ (n + f.precision) := by rw [Nat.pow_add, Nat.one_mul]
    _ ≤ f.limit * f.base ^ (n + f.precision) := Nat.mul_le_mul_right _ f.limit_pos

/-- The exponent of a number. -/
def exponent (n : Nat) : Nat := Nat.find (f.exists_fits n)

/-- The mantissa of a number. -/
def mantissa (n : Nat) : Nat := n * f.base ^ f.precision / f.base ^ f.exponent n

/-- The number that an exponent and a mantissa stand for. -/
def value (e m : Nat) : Nat := m * f.base ^ e / f.base ^ f.precision

/-- What is left of a number. -/
def round (n : Nat) : Nat := f.value (f.exponent n) (f.mantissa n)

variable {f}

variable {n e n' : Nat}

theorem Fits.mono_right {e' : Nat} (h : f.Fits n e) (hle : e ≤ e') : f.Fits n e' :=
  Nat.lt_of_lt_of_le h (Nat.mul_le_mul_left _ (Nat.pow_le_pow_right f.base_pos hle))

theorem Fits.mono_left (h : f.Fits n' e) (hle : n ≤ n') : f.Fits n e :=
  Nat.lt_of_le_of_lt (Nat.mul_le_mul_right _ hle) h

theorem fits_iff_div_lt : f.Fits n e ↔ n * f.base ^ f.precision / f.base ^ e < f.limit :=
  (Nat.div_lt_iff_lt_mul (f.base_pow_pos e)).symm

theorem exponent_le_iff : f.exponent n ≤ e ↔ f.Fits n e := by
  constructor
  · intro hle
    exact (Nat.find_spec (f.exists_fits n)).mono_right hle
  · intro hfits
    exact Nat.find_min' _ hfits

theorem mantissa_lt (n : Nat) : f.mantissa n < f.limit :=
  fits_iff_div_lt.mp (exponent_le_iff.mp (Nat.le_refl _))

theorem exponent_mono (hle : n ≤ n') : f.exponent n ≤ f.exponent n' := by
  apply exponent_le_iff.mpr
  have hfits : f.Fits n' (f.exponent n') := exponent_le_iff.mp (Nat.le_refl _)
  exact hfits.mono_left hle

/-- Numbers are ordered by their exponents and then by their mantissas, so a code
that puts the exponent before the mantissa keeps the order. -/
theorem code_mono {width : Nat} (hwidth : f.limit ≤ width) (hle : n ≤ n') :
    f.exponent n * width + f.mantissa n ≤ f.exponent n' * width + f.mantissa n' := by
  rcases Nat.lt_or_eq_of_le (exponent_mono (f := f) hle) with hlt | heq
  · have hmantissa := mantissa_lt (f := f) n
    have hnext : (f.exponent n + 1) * width ≤ f.exponent n' * width :=
      Nat.mul_le_mul_right _ hlt
    rw [Nat.add_mul, Nat.one_mul] at hnext
    omega
  · have hmantissa : f.mantissa n ≤ f.mantissa n' := by
      unfold mantissa
      rw [heq]
      exact Nat.div_le_div_right (Nat.mul_le_mul_right _ hle)
    rw [heq]
    omega

/-- A number of `s` digits has exponent `s`, or the next one when its leading
digits reach the limit. -/
theorem exponent_eq_of_digits {s : Nat} (hlt : n < f.base ^ s)
    (hge : s ≠ 0 → f.base ^ (s - 1) ≤ n) :
    f.exponent n =
      if n * f.base ^ f.precision / f.base ^ s < f.limit then s else s + 1 := by
  split
  case isTrue hfits =>
    refine Nat.le_antisymm (exponent_le_iff.mpr (fits_iff_div_lt.mpr hfits)) ?_
    -- A smaller exponent would leave at least `base ^ precision` as the mantissa.
    by_contra hless
    have hsmall : f.Fits n (s - 1) := exponent_le_iff.mp (by omega)
    have hle : f.limit * f.base ^ (s - 1) ≤ n * f.base ^ f.precision := by
      rw [Nat.mul_comm n]
      exact Nat.mul_le_mul f.limit_le (hge (by omega))
    exact absurd hsmall (Nat.not_lt.mpr hle)
  case isFalse hover =>
    refine Nat.le_antisymm (exponent_le_iff.mpr ?_) ?_
    · calc n * f.base ^ f.precision
          < f.base ^ s * f.base ^ f.precision := Nat.mul_lt_mul_of_pos_right hlt (f.base_pow_pos _)
        _ ≤ f.base ^ s * (f.limit * f.base) := Nat.mul_le_mul_left _ f.le_limit
        _ = f.limit * f.base ^ (s + 1) := by rw [Nat.pow_succ]; ring
    · apply Nat.lt_of_not_le
      intro hle
      exact hover (fits_iff_div_lt.mp (exponent_le_iff.mp hle))

theorem round_le (n : Nat) : f.round n ≤ n := by
  calc f.round n ≤ n * f.base ^ f.precision / f.base ^ f.precision :=
        Nat.div_le_div_right (Nat.div_mul_le_self _ _)
    _ = n := Nat.mul_div_cancel _ (f.base_pow_pos _)

/-- The digits below the mantissa are cleared. -/
theorem round_eq (n : Nat) :
    f.round n =
      n / f.base ^ (f.exponent n - f.precision) * f.base ^ (f.exponent n - f.precision) := by
  have hpos := f.base_pow_pos f.precision
  unfold round value mantissa
  rcases Nat.le_total (f.exponent n) f.precision with hle | hle
  · obtain ⟨k, hk⟩ := Nat.exists_eq_add_of_le hle
    have hpow : f.base ^ f.precision = f.base ^ k * f.base ^ f.exponent n := by
      rw [hk, Nat.pow_add, Nat.mul_comm]
    have hexact : n * f.base ^ f.precision / f.base ^ f.exponent n = n * f.base ^ k := by
      rw [hpow, ← Nat.mul_assoc]
      exact Nat.mul_div_cancel _ (f.base_pow_pos _)
    rw [hexact, Nat.sub_eq_zero_of_le hle, Nat.mul_assoc, ← hpow, Nat.mul_div_cancel _ hpos]
    simp
  · obtain ⟨k, hk⟩ := Nat.exists_eq_add_of_le hle
    have hpow : f.base ^ f.exponent n = f.base ^ k * f.base ^ f.precision := by
      rw [hk, Nat.pow_add, Nat.mul_comm]
    have hsub : f.exponent n - f.precision = k := by omega
    rw [hsub, hpow, Nat.mul_div_mul_right _ _ hpos, ← Nat.mul_assoc, Nat.mul_div_cancel _ hpos]

theorem round_eq_self (hle : f.exponent n ≤ f.precision) : f.round n = n := by
  rw [round_eq, Nat.sub_eq_zero_of_le hle]
  simp

/-- The leading digits stay. -/
theorem round_div {k : Nat} (hle : f.exponent n - f.precision ≤ k) :
    f.round n / f.base ^ k = n / f.base ^ k := by
  obtain ⟨j, hj⟩ := Nat.exists_eq_add_of_le hle
  rw [hj, Nat.pow_add, ← Nat.div_div_eq_div_mul, ← Nat.div_div_eq_div_mul, round_eq,
    Nat.mul_div_cancel _ (f.base_pow_pos _)]

/-- A rounded number keeps its exponent: the limit is a multiple of the base, so the
digits cleared do not bring the leading ones below it. -/
@[simp] theorem exponent_round (n : Nat) : f.exponent (f.round n) = f.exponent n := by
  refine Nat.le_antisymm (exponent_mono (round_le n)) ?_
  by_contra hless
  rcases Nat.le_total (f.exponent n) f.precision with hle | hle
  · rw [round_eq_self hle] at hless
    exact hless (Nat.le_refl _)
  · obtain ⟨k, hk⟩ := Nat.exists_eq_add_of_le hle
    obtain ⟨q, hq⟩ := f.base_dvd_limit
    have hpos := f.base_pow_pos f.precision
    have hsub : f.exponent n - f.precision = k := by omega
    have hround := round_eq (f := f) n
    rw [hsub] at hround
    have hfits : f.Fits (f.round n) (f.exponent n - 1) := exponent_le_iff.mp (by omega)
    have hnot : ¬ f.Fits n (f.exponent n - 1) := fun h => by
      have hle := exponent_le_iff.mpr h
      omega
    -- Both inequalities are between the leading digits and the limit.
    have hpow : f.base * f.base ^ (f.exponent n - 1) = f.base ^ k * f.base ^ f.precision := by
      have hexponent : f.exponent n - 1 + 1 = k + f.precision := by omega
      rw [← Nat.pow_add, ← hexponent, Nat.pow_succ, Nat.mul_comm]
    have hlimit :
        f.limit * f.base ^ (f.exponent n - 1) = q * f.base ^ k * f.base ^ f.precision := by
      rw [hq, Nat.mul_comm f.base q, Nat.mul_assoc, hpow, Nat.mul_assoc]
    have hlow : q * f.base ^ k ≤ n := by
      refine Nat.le_of_not_lt fun hlt => hnot ?_
      unfold Fits
      rw [hlimit]
      exact Nat.mul_lt_mul_of_pos_right hlt hpos
    have hhigh : f.round n < q * f.base ^ k := by
      unfold Fits at hfits
      rw [hlimit] at hfits
      exact Nat.lt_of_mul_lt_mul_right hfits
    have hdigits : q ≤ n / f.base ^ k := (Nat.le_div_iff_mul_le (f.base_pow_pos k)).mpr hlow
    have hkept : q * f.base ^ k ≤ f.round n := by
      rw [hround]
      exact Nat.mul_le_mul_right _ hdigits
    omega

@[simp] theorem mantissa_round (n : Nat) : f.mantissa (f.round n) = f.mantissa n := by
  unfold mantissa
  rw [exponent_round]
  rcases Nat.le_total (f.exponent n) f.precision with hle | hle
  · rw [round_eq_self hle]
  · obtain ⟨k, hk⟩ := Nat.exists_eq_add_of_le hle
    have hsub : f.exponent n - f.precision = k := by omega
    have hdigits : f.round n / f.base ^ k = n / f.base ^ k := round_div (by omega)
    rw [hk, Nat.pow_add, Nat.mul_comm (f.base ^ f.precision), Nat.mul_div_mul_right _ _
      (f.base_pow_pos _), Nat.mul_div_mul_right _ _ (f.base_pow_pos _), hdigits]

end Format

end ShortFloat
