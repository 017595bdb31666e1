import Mathlib.Data.Finset.Lattice.Fold
import Mathlib.Data.Fintype.Basic
import RustyCoin.Lib.RadixTree

/-!
# The nodes of a radix tree

Which subtrees occur in a tree, which of them a lookup passes, and how both
change when a key is inserted. A tree never occurs in one of its own subtrees,
and an insertion never makes a tree lower; together they say that the tree after
an insertion is not one of the subtrees that the insertion passed.
-/

namespace RadixTree

open List Function

variable {σ V : Type}

/-- The subtrees of a tree, the tree itself included; absent children are none. -/
def Occurs (s : RadixTree σ V) : RadixTree σ V → Prop
  | .empty => s = .empty
  | .leaf key value => s = .leaf key value
  | .ext label next => s = .ext label next ∨ Occurs s next
  | .branch children value =>
    s = .branch children value ∨ ∃ a, (children a).isEmpty = false ∧ Occurs s (children a)

theorem occurs_refl (t : RadixTree σ V) : Occurs t t := by
  cases t with
  | empty => rfl
  | leaf key value => rfl
  | ext label next => exact .inl rfl
  | branch children value => exact .inl rfl

theorem isEmpty_of_occurs {s t : RadixTree σ V} (h : Occurs s t) (ht : t.isEmpty = false)
    (hwf : t.WellFormed) : s.isEmpty = false := by
  induction t with
  | empty => cases ht
  | leaf key value =>
    cases h
    rfl
  | ext label next ih =>
    obtain rfl | h := h
    · rfl
    · exact ih h hwf.2.1 hwf.2.2
  | branch children value ih =>
    obtain rfl | ⟨a, ha, h⟩ := h
    · rfl
    · exact ih a h ha (hwf.2 a)

section

variable {s child : RadixTree σ V} {children : σ → RadixTree σ V} {value : Option V} {a : σ}

theorem occurs_branch_of_child (hs : s.isEmpty = false) (hocc : Occurs s (children a)) :
    Occurs s (branch children value) := by
  refine .inr ⟨a, isEmpty_of_ne fun hempty => ?_, hocc⟩
  rw [hempty] at hocc
  rw [hocc] at hs
  cases hs

variable [DecidableEq σ]

theorem branch_update_eq_iff :
    branch (Function.update children a child) value = branch children value ↔
      child = children a := by
  rw [RadixTree.branch.injEq, and_iff_left rfl]
  exact update_eq_self_iff

/-- A subtree of a branch with a new child is the branch, in the child, or was there before. -/
theorem occurs_branch_update (h : Occurs s (branch (Function.update children a child) value)) :
    s = branch (Function.update children a child) value ∨ Occurs s child ∨
      Occurs s (branch children value) := by
  obtain hs | ⟨b, hb, hs⟩ := h
  · exact .inl hs
  · by_cases hab : b = a
    · rw [hab, update_self] at hs
      exact .inr (.inl hs)
    · rw [update_of_ne hab] at hb hs
      exact .inr (.inr (.inr ⟨b, hb, hs⟩))

end

section

variable [Fintype σ]

def height : RadixTree σ V → Nat
  | .empty => 0
  | .leaf _ _ => 0
  | .ext _ next => next.height + 1
  | .branch children _ => (Finset.univ.sup fun a => (children a).height) + 1

theorem height_child_lt (children : σ → RadixTree σ V) (value : Option V) (a : σ) :
    (children a).height < (branch children value).height :=
  Nat.lt_succ_of_le (Finset.le_sup (f := fun a => (children a).height) (Finset.mem_univ a))

theorem height_le_of_occurs {s t : RadixTree σ V} (h : Occurs s t) : s.height ≤ t.height := by
  induction t with
  | empty =>
    cases h
    exact Nat.le_refl _
  | leaf key value =>
    cases h
    exact Nat.le_refl _
  | ext label next ih =>
    obtain rfl | h := h
    · exact Nat.le_refl _
    · exact Nat.le_succ_of_le (ih h)
  | branch children value ih =>
    obtain rfl | ⟨a, -, h⟩ := h
    · exact Nat.le_refl _
    · exact Nat.le_of_lt (Nat.lt_of_le_of_lt (ih a h) (height_child_lt children value a))

variable [DecidableEq σ] {t t' : RadixTree σ V} {k : List σ} {v : V}

theorem Inserts.height_le (h : Inserts v t k t') : t.height ≤ t'.height := by
  induction h with
  | empty | same | split => exact Nat.zero_le _
  | along label _ ih => exact Nat.succ_le_succ ih
  | off | value => exact Nat.le_refl _
  | @child children value a r c _ ih =>
    refine Nat.succ_le_succ (Finset.sup_mono_fun fun b _ => ?_)
    by_cases hab : b = a
    · rw [hab, update_self]
      exact ih
    · rw [update_of_ne hab]

end

variable [DecidableEq σ] {s t : RadixTree σ V} {k : List σ}

@[simp] theorem head?_walk (t : RadixTree σ V) (k : List σ) : (t.walk k).head? = some t := by
  cases t with
  | branch children value => cases k <;> rfl
  | _ => rfl

@[simp] theorem mem_walk_self (t : RadixTree σ V) (k : List σ) : t ∈ t.walk k :=
  mem_of_mem_head? (head?_walk t k)

@[simp] theorem walk_ext (label r : List σ) (next : RadixTree σ V) :
    (ext label next).walk (label ++ r) = .ext label next :: next.walk r := by
  show ext label next :: (if label <+: label ++ r then _ else []) = _
  rw [if_pos (prefix_append _ _), drop_left]

variable {label r : List σ} {next : RadixTree σ V}

theorem mem_walk_ext (r : List σ) :
    s ∈ (ext label next).walk (label ++ r) ↔ s = .ext label next ∨ s ∈ next.walk r := by
  rw [walk_ext, mem_cons]

theorem walk_ext_of_not (next : RadixTree σ V) (h : ¬ label <+: k) :
    (ext label next).walk k = [.ext label next] := by
  show ext label next :: (if label <+: k then _ else []) = _
  rw [if_neg h]

variable {children : σ → RadixTree σ V}

theorem walk_branch_cons (value : Option V) {a : σ} (r : List σ)
    (ha : (children a).isEmpty = false) :
    (branch children value).walk (a :: r) = .branch children value :: (children a).walk r := by
  show branch children value :: (if (children a).isEmpty then [] else _) = _
  rw [ha]
  rfl

theorem walk_branch_empty (value : Option V) {a : σ} (r : List σ)
    (ha : (children a).isEmpty = true) :
    (branch children value).walk (a :: r) = [.branch children value] := by
  show branch children value :: (if (children a).isEmpty then [] else _) = _
  rw [if_pos ha]

variable {value : Option V}

theorem mem_walk_branch {a : σ} :
    s ∈ (branch children value).walk (a :: r) ↔
      s = .branch children value ∨ (children a).isEmpty = false ∧ s ∈ (children a).walk r := by
  cases ha : (children a).isEmpty with
  | true =>
    rw [walk_branch_empty value r ha]
    simp
  | false =>
    rw [walk_branch_cons value r ha]
    simp

theorem occurs_of_mem_walk (h : s ∈ t.walk k) : Occurs s t := by
  induction t, k using walk_induction with
  | empty | leaf => exact mem_singleton.mp h
  | along label next r ih => exact ((mem_walk_ext r).mp h).imp id ih
  | off label next k hlabel =>
    rw [walk_ext_of_not next hlabel, mem_singleton] at h
    exact .inl h
  | value => exact .inl (mem_singleton.mp h)
  | child children value a r ih =>
    exact (mem_walk_branch.mp h).imp id fun h => ⟨a, h.1, ih h.2⟩

/-- The subtrees on the way to a key, without the absent one at its end. -/
def Passed (t : RadixTree σ V) (k : List σ) (s : RadixTree σ V) : Prop :=
  s ∈ t.walk k ∧ s.isEmpty = false

theorem not_passed_empty : ¬ Passed (.empty : RadixTree σ V) k s := by
  rintro ⟨hs, hne⟩
  obtain rfl := mem_singleton.mp hs
  cases hne

@[simp] theorem passed_leaf {key : List σ} {value : V} :
    Passed (.leaf key value) k s ↔ s = .leaf key value := by
  constructor
  · intro h
    exact mem_singleton.mp h.1
  · rintro rfl
    exact ⟨mem_singleton_self _, rfl⟩

@[simp] theorem passed_ext :
    Passed (.ext label next) (label ++ r) s ↔ s = .ext label next ∨ Passed next r s := by
  show s ∈ (ext label next).walk (label ++ r) ∧ s.isEmpty = false ↔ _
  rw [mem_walk_ext, or_and_right]
  exact or_congr_left ⟨fun h => h.1, fun h => ⟨h, by rw [h, isEmpty_ext]⟩⟩

theorem passed_ext_of_not (h : ¬ label <+: k) :
    Passed (.ext label next) k s ↔ s = .ext label next := by
  show s ∈ (ext label next).walk k ∧ s.isEmpty = false ↔ _
  rw [walk_ext_of_not next h, mem_singleton]
  exact ⟨fun h => h.1, fun h => ⟨h, by rw [h, isEmpty_ext]⟩⟩

@[simp]
theorem passed_branch_nil : Passed (.branch children value) [] s ↔ s = .branch children value := by
  constructor
  · intro h
    exact mem_singleton.mp h.1
  · rintro rfl
    exact ⟨mem_singleton_self _, rfl⟩

@[simp] theorem passed_branch {a : σ} :
    Passed (.branch children value) (a :: r) s ↔
      s = .branch children value ∨ Passed (children a) r s := by
  show s ∈ (branch children value).walk (a :: r) ∧ s.isEmpty = false ↔ _
  rw [mem_walk_branch, or_and_right]
  refine or_congr ⟨fun h => h.1, fun h => ⟨h, by rw [h, isEmpty_branch]⟩⟩ ?_
  constructor
  · rintro ⟨⟨-, hs⟩, hne⟩
    exact ⟨hs, hne⟩
  · intro hs
    refine ⟨⟨?_, hs.1⟩, hs.2⟩
    apply isEmpty_of_ne
    intro hempty
    rw [hempty] at hs
    exact not_passed_empty hs

/-- Every subtree lies on the way to some key. -/
theorem exists_walk_of_occurs (h : Occurs s t) : ∃ k, ∀ r, s ∈ t.walk (k ++ r) := by
  induction t with
  | empty => exact ⟨[], fun _ => mem_singleton.mpr h⟩
  | leaf key value => exact ⟨[], fun _ => mem_singleton.mpr h⟩
  | ext label next ih =>
    obtain rfl | h := h
    · exact ⟨[], fun r => mem_walk_self _ _⟩
    · obtain ⟨k, hk⟩ := ih h
      refine ⟨label ++ k, fun r => ?_⟩
      rw [append_assoc]
      exact (mem_walk_ext _).mpr (.inr (hk r))
  | branch children value ih =>
    obtain rfl | ⟨a, ha, h⟩ := h
    · exact ⟨[], fun r => mem_walk_self _ _⟩
    · obtain ⟨k, hk⟩ := ih a h
      exact ⟨a :: k, fun r => mem_walk_branch.mpr (.inr ⟨ha, hk r⟩)⟩

end RadixTree
