import Mathlib.Algebra.BigOperators.Group.List.Basic
import Mathlib.Algebra.Ring.Nat

/-!
# Sums of machine integers

Adding up 64-bit values wraps around, so a sum is the exact sum modulo `2 ^ 64`.
Two exact sums compare as their remainders do when the larger one wraps around
at least as often. A checked sum stops where it would wrap around, so it is the
exact sum or none. A saturating sum stays at the greatest value from there on.
-/

namespace WrappingSum

open List

/-- The exact sum of a list of 64-bit values. -/
def exact (values : List UInt64) : Nat :=
  (values.map UInt64.toNat).sum

variable (start : UInt64) (values : List UInt64)

/-- The sum as the machine computes it, from a start value. -/
theorem toNat_foldl_add :
    (values.foldl (· + ·) start).toNat = (start.toNat + exact values) % 2 ^ 64 := by
  induction values generalizing start with
  | nil =>
    have := start.toNat_lt
    simp only [foldl_nil, exact, map_nil, sum_nil, Nat.add_zero]
    omega
  | cons v values ih =>
    rw [foldl_cons, ih, UInt64.toNat_add, exact, exact, map_cons, sum_cons]
    omega

/-- The comparison of two sums, one of them with a further summand. -/
theorem foldl_add_le_iff (values values' : List UInt64) (extra : UInt64) :
    values.foldl (· + ·) 0 + extra ≤ values'.foldl (· + ·) 0 ↔
      (exact values + extra.toNat) % 2 ^ 64 ≤ exact values' % 2 ^ 64 := by
  rw [UInt64.le_iff_toNat_le, UInt64.toNat_add, toNat_foldl_add, toNat_foldl_add,
    UInt64.toNat_zero, Nat.zero_add, Nat.zero_add, Nat.mod_add_mod]

/-- What wraps around at most as often and leaves at most as much is at most as
much, and only then. -/
theorem le_iff_of_mod_le {m n w : Nat} (h : m % w ≤ n % w) : m ≤ n ↔ m / w ≤ n / w := by
  constructor
  · intro hmn
    exact Nat.div_le_div_right hmn
  · intro hdiv
    calc m = w * (m / w) + m % w := (Nat.div_add_mod m w).symm
      _ ≤ w * (n / w) + n % w := Nat.add_le_add (Nat.mul_le_mul_left w hdiv) h
      _ = n := Nat.div_add_mod n w

/-- A part of a sum is what the machine computes for the whole of it exactly if the part does
not wrap around and the rest does not count. -/
theorem part_eq_iff {part rest : Nat} {total : UInt64} (h : total.toNat = (part + rest) % 2 ^ 64) :
    part = total.toNat ↔ part < 2 ^ 64 ∧ 2 ^ 64 ∣ rest := by
  have hlt := total.toNat_lt
  omega

/-- `u64::checked_add` -/
def checkedAdd (a b : UInt64) : Option UInt64 :=
  if a.toNat + b.toNat < 2 ^ 64 then some (a + b) else none

@[simp] theorem checkedAdd_eq_some {a b c : UInt64} :
    checkedAdd a b = some c ↔ c.toNat = a.toNat + b.toNat := by
  have hadd : (a + b).toNat = (a.toNat + b.toNat) % 2 ^ 64 := UInt64.toNat_add a b
  unfold checkedAdd
  split
  · rename_i hlt
    rw [Nat.mod_eq_of_lt hlt] at hadd
    rw [Option.some_inj, ← UInt64.toNat_inj, hadd, eq_comm]
  · rename_i hge
    have hc := c.toNat_lt
    constructor
    · rintro ⟨⟩
    · intro heq
      omega

/-- Checked additions one after the other, from a start value. -/
def checkedSum (start : UInt64) : List UInt64 → Option UInt64
  | [] => some start
  | v :: values => (checkedAdd start v).bind fun sum => checkedSum sum values

theorem checkedSum_eq_some {start c : UInt64} {values : List UInt64} :
    checkedSum start values = some c ↔ c.toNat = start.toNat + exact values := by
  induction values generalizing start with
  | nil =>
    rw [checkedSum, Option.some_inj, ← UInt64.toNat_inj, eq_comm]
    rfl
  | cons v values ih =>
    rw [checkedSum, Option.bind_eq_some_iff, exact, map_cons, sum_cons, ← Nat.add_assoc]
    constructor
    · rintro ⟨sum, hadd, hsum⟩
      rw [← checkedAdd_eq_some.mp hadd]
      exact ih.mp hsum
    · intro hc
      have hlt := c.toNat_lt
      have hadd : (start + v).toNat = start.toNat + v.toNat := by
        rw [UInt64.toNat_add]
        omega
      refine ⟨start + v, checkedAdd_eq_some.mpr hadd, ih.mpr ?_⟩
      rw [hadd]
      exact hc

/-- `u64::saturating_add` -/
def saturatingAdd (a b : UInt64) : UInt64 :=
  if a.toNat + b.toNat < 2 ^ 64 then a + b else 0xFFFFFFFFFFFFFFFF

@[simp] theorem toNat_saturatingAdd (a b : UInt64) :
    (saturatingAdd a b).toNat = min (a.toNat + b.toNat) (2 ^ 64 - 1) := by
  have hadd : (a + b).toNat = (a.toNat + b.toNat) % 2 ^ 64 := UInt64.toNat_add a b
  rw [saturatingAdd]
  split
  · rename_i hlt
    rw [hadd, Nat.mod_eq_of_lt hlt]
    omega
  · rename_i hge
    show 2 ^ 64 - 1 = _
    omega

/-- Saturating additions one after the other lose only what is above the greatest value. -/
theorem toNat_foldl_saturatingAdd :
    (values.foldl saturatingAdd start).toNat = min (start.toNat + exact values) (2 ^ 64 - 1) := by
  induction values generalizing start with
  | nil =>
    have := start.toNat_lt
    show start.toNat = min (start.toNat + 0) (2 ^ 64 - 1)
    omega
  | cons v values ih =>
    rw [foldl_cons, ih, toNat_saturatingAdd, exact, exact, map_cons, sum_cons]
    omega

end WrappingSum
