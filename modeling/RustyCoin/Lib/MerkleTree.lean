import Mathlib.Data.Nat.Log

/-!
# Merkle trees that repeat their last node

The root of a list is found level by level: neighbours are combined, and a last
node without a neighbour is combined with itself. With a node function that has
no collisions the root determines the list only up to this repetition: lists
have one root exactly when they become the same list once their ends are
repeated up to a power of two.
-/

namespace MerkleTree

open List

variable {α β D E : Type}

/-- Neighbours in pairs; a last element without a neighbour is its own. -/
def pairUp : List α → List (α × α)
  | [] => []
  | [a] => [(a, a)]
  | a :: b :: rest => (a, b) :: pairUp rest

/-- The elements of the pairs, in order. -/
def unpair (pairs : List (α × α)) : List α := pairs.flatMap fun p => [p.1, p.2]

def nextLevel (node : D → D → D) (level : List D) : List D :=
  (pairUp level).map fun p => node p.1 p.2

@[simp] theorem length_pairUp (l : List α) : (pairUp l).length = (l.length + 1) / 2 := by
  fun_induction pairUp l with
  | case1 => simp
  | case2 a => simp
  | case3 a b rest ih =>
    simp only [length_cons, ih]
    omega

@[simp] theorem length_nextLevel (node : D → D → D) (level : List D) :
    (nextLevel node level).length = (level.length + 1) / 2 := by
  rw [nextLevel, length_map, length_pairUp]

/-- Levels are combined until one node is left. -/
def root (node : D → D → D) (level : List D) : Option D :=
  if 1 < level.length then root node (nextLevel node level) else level.head?
termination_by level.length
decreasing_by
  rw [length_nextLevel]
  omega

section

variable {node : D → D → D}

variable {level : List D}

theorem root_of_length_le (h : level.length ≤ 1) : root node level = level.head? := by
  rw [root, if_neg (Nat.not_lt.mpr h)]

theorem root_of_lt_length (h : 1 < level.length) :
    root node level = root node (nextLevel node level) := by
  rw [root, if_pos h]

theorem pairUp_map (f : α → β) (l : List α) : pairUp (l.map f) = (pairUp l).map (Prod.map f f) := by
  fun_induction pairUp l with
  | case1 => rfl
  | case2 a => rfl
  | case3 a b rest ih => simp only [map_cons, pairUp, ih, Prod.map]

/-- A function that respects the nodes respects the root. -/
theorem root_map {node' : E → E → E} {f : D → E}
    (hf : ∀ a b, f (node a b) = node' (f a) (f b)) (level : List D) :
    root node' (level.map f) = (root node level).map f := by
  fun_induction root node level with
  | case1 level hlt ih =>
    have hnext : nextLevel node' (level.map f) = (nextLevel node level).map f := by
      simp only [nextLevel, pairUp_map, map_map]
      refine map_congr_left fun p _ => ?_
      exact (hf p.1 p.2).symm
    rw [root_of_lt_length (by rwa [length_map]), hnext, ih]
  | case2 level hle =>
    rw [root_of_length_le (by rwa [length_map, ← Nat.not_lt]), head?_map]

@[simp] theorem root_eq_none_iff : root node level = none ↔ level = [] := by
  fun_induction root node level with
  | case1 level hlt ih =>
    have hnext : nextLevel node level ≠ [] := by
      apply ne_nil_of_length_pos
      rw [length_nextLevel]
      omega
    refine iff_of_false (fun h => hnext (ih.mp h)) ?_
    rintro rfl
    simp at hlt
  | case2 level hle => exact head?_eq_none_iff

variable (node) in
/-- The root of two or more nodes is a combined node. -/
theorem exists_node_of_root (hlt : 1 < level.length) :
    ∃ a b, root node level = some (node a b) := by
  fun_induction root node level with
  | case1 level hlt' ih =>
    by_cases hmore : 1 < (nextLevel node level).length
    · exact ih hmore
    · rw [root_of_length_le (Nat.not_lt.mp hmore)]
      match level, hlt with
      | a :: b :: rest, _ => exact ⟨a, b, rfl⟩
  | case2 level hle => exact absurd hlt hle

end

/-- Append the last `width` elements once more if they make an odd number of such blocks, and more
than one. -/
def repeatTail (width : Nat) (l : List α) : List α :=
  if l.length / width % 2 = 1 ∧ width < l.length then l ++ l.drop (l.length - width) else l

/-- Repeat the end of a list, with a width that doubles from level to level. -/
def complete : Nat → Nat → List α → List α
  | 0, _, l => l
  | levels + 1, width, l => complete levels (2 * width) (repeatTail width l)

/-- The list whose length is the next power of two. -/
def completed (l : List α) : List α := complete (Nat.clog 2 l.length) 1 l

theorem repeatTail_map (f : α → β) (width : Nat) (l : List α) :
    repeatTail width (l.map f) = (repeatTail width l).map f := by
  unfold repeatTail
  rw [length_map]
  split
  · rw [map_append, map_drop]
  · rfl

theorem complete_map (f : α → β) (levels width : Nat) (l : List α) :
    complete levels width (l.map f) = (complete levels width l).map f := by
  induction levels generalizing width l with
  | zero => rfl
  | succ levels ih => rw [complete, complete, repeatTail_map, ih]

theorem completed_map (f : α → β) (l : List α) : completed (l.map f) = (completed l).map f := by
  rw [completed, completed, length_map, complete_map]

@[simp] theorem length_unpair (pairs : List (α × α)) :
    (unpair pairs).length = 2 * pairs.length := by
  induction pairs with
  | nil => rfl
  | cons p pairs ih =>
    change (unpair pairs).length + 2 = 2 * (pairs.length + 1)
    omega

@[simp] theorem unpair_append (front back : List (α × α)) :
    unpair (front ++ back) = unpair front ++ unpair back := flatMap_append

theorem unpair_drop (k : Nat) (pairs : List (α × α)) :
    unpair (pairs.drop k) = (unpair pairs).drop (2 * k) := by
  induction k generalizing pairs with
  | zero => rfl
  | succ k ih =>
    cases pairs with
    | nil => simp [unpair]
    | cons p pairs => exact ih pairs

@[simp] theorem pairUp_unpair (pairs : List (α × α)) : pairUp (unpair pairs) = pairs := by
  induction pairs with
  | nil => rfl
  | cons p pairs ih => exact congrArg (p :: ·) ih

theorem unpair_pairUp (l : List α) :
    unpair (pairUp l) = if l.length % 2 = 1 then l ++ l.drop (l.length - 1) else l := by
  fun_induction pairUp l with
  | case1 => rfl
  | case2 a => rfl
  | case3 a b rest ih =>
    have hparity : (a :: b :: rest).length % 2 = rest.length % 2 := by
      simp only [length_cons]
      omega
    have hunfold : unpair ((a, b) :: pairUp rest) = a :: b :: unpair (pairUp rest) := rfl
    rw [hunfold, ih, hparity]
    split
    case isTrue hodd =>
      have hdrop : (a :: b :: rest).drop ((a :: b :: rest).length - 1) =
          rest.drop (rest.length - 1) := by
        obtain ⟨k, hk⟩ : ∃ k, rest.length = k + 1 := ⟨rest.length - 1, by omega⟩
        simp [hk]
      rw [hdrop]
      rfl
    case isFalse => rfl

variable {l : List α}

/-- Pairing up repeats the end of a list by one element. -/
theorem unpair_pairUp_of_lt (hlt : 1 < l.length) : unpair (pairUp l) = repeatTail 1 l := by
  rw [unpair_pairUp, repeatTail, Nat.div_one]
  simp only [hlt, and_true]

theorem repeatTail_unpair (width : Nat) (pairs : List (α × α)) :
    repeatTail (2 * width) (unpair pairs) = unpair (repeatTail width pairs) := by
  have hblocks : 2 * pairs.length / (2 * width) = pairs.length / width :=
    Nat.mul_div_mul_left _ _ (by decide)
  have hlt : 2 * width < 2 * pairs.length ↔ width < pairs.length := by omega
  have hsub : 2 * pairs.length - 2 * width = 2 * (pairs.length - width) := by omega
  unfold repeatTail
  simp only [length_unpair, hblocks, hlt, hsub]
  split
  · rw [unpair_append, unpair_drop]
  · rfl

theorem complete_unpair (levels width : Nat) (pairs : List (α × α)) :
    complete levels (2 * width) (unpair pairs) = unpair (complete levels width pairs) := by
  induction levels generalizing width pairs with
  | zero => rfl
  | succ levels ih => rw [complete, complete, repeatTail_unpair, ih]

/-- Completing a list is pairing it up and completing the pairs. -/
theorem completed_eq_unpair (hlt : 1 < l.length) : completed l = unpair (completed (pairUp l)) := by
  have hlevels : Nat.clog 2 l.length = Nat.clog 2 ((l.length + 1) / 2) + 1 :=
    Nat.clog_of_one_lt (by decide) hlt
  rw [completed, completed, length_pairUp, hlevels, complete, ← unpair_pairUp_of_lt hlt,
    complete_unpair]

theorem completed_of_length_le (hle : l.length ≤ 1) : completed l = l := by
  rw [completed, Nat.clog_of_right_le_one hle, complete]

theorem length_le_complete (levels width : Nat) (l : List α) :
    l.length ≤ (complete levels width l).length := by
  induction levels generalizing width l with
  | zero => exact Nat.le_refl _
  | succ levels ih =>
    refine Nat.le_trans ?_ (ih (2 * width) (repeatTail width l))
    unfold repeatTail
    split
    · rw [length_append]
      omega
    · exact Nat.le_refl _

/-- Repeating the end does not change the root. -/
theorem root_completed (node : D → D → D) (level : List D) :
    root node (completed level) = root node level := by
  fun_induction root node level with
  | case1 level hlt ih =>
    have hnext : nextLevel node (completed level) = completed (nextLevel node level) := by
      rw [nextLevel, completed_eq_unpair hlt, pairUp_unpair, nextLevel, completed_map]
    have hlonger : 1 < (completed level).length :=
      Nat.lt_of_lt_of_le hlt (length_le_complete _ _ level)
    rw [root_of_lt_length hlonger, hnext, ih]
  | case2 level hle =>
    rw [completed_of_length_le (Nat.not_lt.mp hle), root_of_length_le (Nat.not_lt.mp hle)]

/-- A tree that is not hashed. -/
inductive Tree (α : Type) where
  | leaf (a : α)
  | node (left right : Tree α)

namespace Tree

def leaves : Tree α → List α
  | leaf a => [a]
  | node left right => left.leaves ++ right.leaves

/-- Hash a tree. -/
def digest (leafHash : α → D) (nodeHash : D → D → D) : Tree α → D
  | leaf a => leafHash a
  | node left right => nodeHash (left.digest leafHash nodeHash) (right.digest leafHash nodeHash)

end Tree

/-- The two hashes have no collisions, neither among themselves nor with each other. -/
structure CollisionFree (leafHash : α → D) (nodeHash : D → D → D) : Prop where
  leaf_injective : Function.Injective leafHash
  node_injective : Function.Injective2 nodeHash
  apart : ∀ a left right, leafHash a ≠ nodeHash left right

theorem leaves_root {level : List (Tree α)} {t : Tree α} (h : root Tree.node level = some t) :
    t.leaves = (completed level).flatMap Tree.leaves := by
  fun_induction root Tree.node level with
  | case1 level hlt ih =>
    have hpairs (pairs : List (Tree α × Tree α)) :
        (pairs.map fun p => Tree.node p.1 p.2).flatMap Tree.leaves =
          (unpair pairs).flatMap Tree.leaves := by
      rw [unpair, flatMap_map, flatMap_assoc]
      simp [Tree.leaves]
    rw [ih h, nextLevel, completed_map, hpairs, ← completed_eq_unpair hlt]
  | case2 level hle =>
    rw [completed_of_length_le (Nat.not_lt.mp hle)]
    cases level with
    | nil => cases h
    | cons a rest =>
      have hrest : rest = [] := eq_nil_of_length_eq_zero (by simpa using hle)
      cases h
      simp [hrest]

variable {leafHash : α → D} {nodeHash : D → D → D}

theorem CollisionFree.digest_injective (h : CollisionFree leafHash nodeHash) :
    Function.Injective (Tree.digest leafHash nodeHash) := by
  intro t
  induction t with
  | leaf a =>
    intro t' heq
    cases t' with
    | leaf b => exact congrArg Tree.leaf (h.leaf_injective heq)
    | node left right => exact absurd heq (h.apart a _ _)
  | node left right ihl ihr =>
    intro t' heq
    cases t' with
    | leaf b => exact absurd heq.symm (h.apart b _ _)
    | node left' right' =>
      obtain ⟨hleft, hright⟩ := h.node_injective heq
      rw [ihl hleft, ihr hright]

/-- The root of the hashed leaves is the digest of the tree. -/
theorem root_map_leafHash (l : List α) :
    root nodeHash (l.map leafHash) =
      (root Tree.node (l.map Tree.leaf)).map (Tree.digest leafHash nodeHash) := by
  rw [← root_map (fun _ _ => rfl), map_map]
  rfl

/-- What the root determines. -/
theorem CollisionFree.root_eq_iff (h : CollisionFree leafHash nodeHash) (l l' : List α) :
    root nodeHash (l.map leafHash) = root nodeHash (l'.map leafHash) ↔
      completed l = completed l' := by
  have hleaves (l : List α) : (completed (l.map Tree.leaf)).flatMap Tree.leaves = completed l := by
    rw [completed_map, flatMap_map]
    exact flatMap_singleton' _
  constructor
  · intro heq
    rw [root_map_leafHash l, root_map_leafHash l'] at heq
    have htree := Option.map_injective h.digest_injective heq
    cases hroot : root Tree.node (l.map Tree.leaf) with
    | none =>
      rw [hroot] at htree
      have hnil := map_eq_nil_iff.mp (root_eq_none_iff.mp hroot)
      have hnil' := map_eq_nil_iff.mp (root_eq_none_iff.mp htree.symm)
      rw [hnil, hnil']
    | some t =>
      rw [hroot] at htree
      rw [← hleaves l, ← hleaves l', ← leaves_root hroot, ← leaves_root htree.symm]
  · intro heq
    rw [← root_completed, ← root_completed nodeHash (l'.map leafHash), completed_map, completed_map,
      heq]

end MerkleTree
