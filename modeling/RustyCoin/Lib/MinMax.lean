import Mathlib.Order.Defs.LinearOrder

/-!
# Minima and maxima of machine integers

The value of a minimum or maximum is that of the values. The greatest of a list
reaches a bound exactly if one of its members does.
-/

namespace MinMax

open UInt32

section

variable {α : Type} [LE α] [DecidableLE α] (f : α → Nat) (hle : ∀ a b, a ≤ b ↔ f a ≤ f b)

include hle

theorem apply_minOfLe (a b : α) : f (if a ≤ b then a else b) = min (f a) (f b) := by
  split
  all_goals
    rename_i h
    rw [hle] at h
    omega

theorem apply_maxOfLe (a b : α) : f (if a ≤ b then b else a) = max (f a) (f b) := by
  split
  all_goals
    rename_i h
    rw [hle] at h
    omega

end

@[simp] theorem toNat_min32 (a b : UInt32) : (min a b).toNat = min a.toNat b.toNat :=
  apply_minOfLe UInt32.toNat (fun _ _ => le_iff_toNat_le) a b

@[simp] theorem toNat_max32 (a b : UInt32) : (max a b).toNat = max a.toNat b.toNat :=
  apply_maxOfLe UInt32.toNat (fun _ _ => le_iff_toNat_le) a b

@[simp] theorem toNat_min64 (a b : UInt64) : (min a b).toNat = min a.toNat b.toNat :=
  apply_minOfLe UInt64.toNat (fun _ _ => UInt64.le_iff_toNat_le) a b

@[simp] theorem toNat_max64 (a b : UInt64) : (max a b).toNat = max a.toNat b.toNat :=
  apply_maxOfLe UInt64.toNat (fun _ _ => UInt64.le_iff_toNat_le) a b

instance lawfulOrderMax32 : Std.LawfulOrderMax UInt32 where
  max_eq_or a b := by
    rw [← UInt32.toNat_inj, ← UInt32.toNat_inj, toNat_max32]
    omega
  max_le_iff a b c := by
    rw [le_iff_toNat_le, le_iff_toNat_le, le_iff_toNat_le, toNat_max32]
    omega

theorem le_max?_getD_iff {l : List UInt32} (hl : l ≠ []) (bound : UInt32) :
    bound ≤ l.max?.getD 0 ↔ ∃ a ∈ l, bound ≤ a := by
  obtain ⟨greatest, hgreatest⟩ := Option.isSome_iff_exists.mp (List.isSome_max?_of_ne_nil hl)
  obtain ⟨hmem, hmax⟩ := List.max?_eq_some_iff.mp hgreatest
  rw [hgreatest, Option.getD_some]
  constructor
  · exact fun hbound => ⟨greatest, hmem, hbound⟩
  · rintro ⟨a, ha, hbound⟩
    exact UInt32.le_trans hbound (hmax a ha)

end MinMax
