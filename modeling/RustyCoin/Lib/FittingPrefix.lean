import Mathlib.Algebra.BigOperators.Group.List.Basic
import Mathlib.Algebra.Ring.Nat
import Mathlib.Data.List.Pairwise
import Mathlib.Data.List.Infix

/-!
# The elements that fit

A list is gone through from the front, and its elements are taken for as long as
their sizes stay within a limit; the first one that does not fit ends the choice.
If the list is sorted, then what is left out comes after everything that is taken.
-/

namespace FittingPrefix

open List

variable {α : Type} (size : α → Nat) (limit : Nat)

/-- The elements up to the first one that does not fit, where some room is used already. -/
def take : Nat → List α → List α
  | _, [] => []
  | used, a :: l => if used + size a ≤ limit then a :: take (used + size a) l else []

theorem take_isPrefix (used : Nat) (l : List α) : take size limit used l <+: l := by
  induction l generalizing used with
  | nil => exact prefix_rfl
  | cons a l ih =>
    rw [take]
    split
    · exact cons_prefix_cons.mpr ⟨rfl, ih _⟩
    · exact nil_prefix

variable {limit}

theorem used_add_sum_take_le {used : Nat} (hused : used ≤ limit) (l : List α) :
    used + ((take size limit used l).map size).sum ≤ limit := by
  induction l generalizing used with
  | nil => exact hused
  | cons a l ih =>
    rw [take]
    split
    · rename_i hfits
      rw [map_cons, sum_cons, ← Nat.add_assoc]
      exact ih hfits
    · exact hused

variable {size}

/-- In a sorted list what is taken comes before what is left out. -/
theorem rel_of_mem_take {r : α → α → Prop} {used : Nat} {l : List α} {a b : α}
    (hsorted : l.Pairwise r) (ha : a ∈ take size limit used l) (hb : b ∈ l)
    (hout : b ∉ take size limit used l) : r a b := by
  obtain ⟨rest, hrest⟩ := take_isPrefix size limit used l
  rw [← hrest, pairwise_append] at hsorted
  rw [← hrest, mem_append] at hb
  exact hsorted.2.2 a ha b (hb.resolve_left hout)

variable {r s : α → α → Prop} {l : List α}

/-- Two orders that both sort a list agree on its elements. -/
theorem orders_agree (hr : l.Pairwise r) (hs : l.Pairwise s) (hrefl : ∀ a, r a a ∧ s a a)
    (hr_antisymm : ∀ a ∈ l, ∀ b ∈ l, r a b → r b a → a = b)
    (hs_antisymm : ∀ a ∈ l, ∀ b ∈ l, s a b → s b a → a = b) :
    ∀ a ∈ l, ∀ b ∈ l, (r a b ↔ s a b) := by
  -- the agreement is made symmetric, so that it does not matter which element comes first
  have hboth : l.Pairwise fun a b => (r a b ↔ s a b) ∧ (r b a ↔ s b a) := by
    refine (hr.and hs).imp_of_mem ?_
    intro a b ha hb ⟨hrab, hsab⟩
    refine ⟨iff_of_true hrab hsab, ?_, ?_⟩
    · intro hrba
      rw [hr_antisymm a ha b hb hrab hrba]
      exact (hrefl b).2
    · intro hsba
      rw [hs_antisymm a ha b hb hsab hsba]
      exact (hrefl b).1
  have hsame (a : α) : r a a ↔ s a a := iff_of_true (hrefl a).1 (hrefl a).2
  have hsymm : Std.Symm fun a b => (r a b ↔ s a b) ∧ (r b a ↔ s b a) := ⟨fun _ _ h => h.symm⟩
  intro a ha b hb
  exact (List.Pairwise.forall_of_forall (fun a _ => ⟨hsame a, hsame a⟩) hboth ha hb).1

end FittingPrefix
