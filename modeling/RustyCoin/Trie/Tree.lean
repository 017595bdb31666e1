import RustyCoin.Lib.RadixNodes
import RustyCoin.Trie.Operations

/-!
# Tries as trees

The trie with its hash references followed is a radix tree over nibbles. This
file fixes how such a tree is written as nodes, and shows that a lookup in a
store returns what the tree holds if the nodes on the way are stored, and fails
otherwise. Nodes elsewhere in the tree may be missing.
-/

namespace RustyCoin

open List Nat

/-- The value of a nibble as it stands in a key. -/
def nibbleByte (n : Fin 16) : UInt8 :=
  UInt8.ofNat n.val

@[simp] theorem nibbleByte_toNat (n : Fin 16) : (nibbleByte n).toNat = n.val := by
  have := n.isLt
  rw [nibbleByte, UInt8.toNat_ofNat']
  omega

theorem nibbleByte_injective : Function.Injective nibbleByte := by
  intro m n h
  apply Fin.ext
  rw [← nibbleByte_toNat m, h, nibbleByte_toNat]

@[simp] theorem childIndex_nibbleByte {Digest : Type} (n : Fin 16) :
    (childIndex (nibbleByte n) : TrieResult Digest (Fin 16)) = .ok n := by
  simp [childIndex]

variable (byte : UInt8)

def highNibble : Fin 16 :=
  ⟨byte.toNat / 16, Nat.div_lt_of_lt_mul byte.toNat_lt⟩

def lowNibble : Fin 16 :=
  ⟨byte.toNat % 16, mod_lt byte.toNat (zero_lt_succ 15)⟩

/-- The nibbles of a byte string. -/
def nibbles : Bytes → List (Fin 16)
  | [] => []
  | byte :: bytes => highNibble byte :: lowNibble byte :: nibbles bytes

theorem toNat_shiftRight_four : (byte >>> 4).toNat = byte.toNat / 16 := by
  simp [shiftRight_eq_div_pow]

theorem toNat_and_fifteen : (byte &&& 0x0F).toNat = byte.toNat % 16 := by
  rw [UInt8.toNat_and]
  exact and_two_pow_sub_one_eq_mod byte.toNat 4

theorem bytesToNibbles_eq (key : Bytes) : bytesToNibbles key = (nibbles key).map nibbleByte := by
  induction key with
  | nil => rfl
  | cons byte bytes ih =>
    have hhigh : byte >>> 4 = nibbleByte (highNibble byte) := by
      apply UInt8.toNat_inj.mp
      rw [toNat_shiftRight_four, nibbleByte_toNat, highNibble]
    have hlow : byte &&& 0x0F = nibbleByte (lowNibble byte) := by
      apply UInt8.toNat_inj.mp
      rw [toNat_and_fifteen, nibbleByte_toNat, lowNibble]
    rw [bytesToNibbles, nibbles, map_cons, map_cons, ih, hhigh, hlow]

@[simp] theorem length_nibbles (key : Bytes) : (nibbles key).length = 2 * key.length := by
  induction key with
  | nil => rfl
  | cons byte bytes ih =>
    simp only [nibbles, length_cons, ih]
    omega

/-- One key starts another where its nibbles do. -/
theorem isPrefix_of_nibbles {a b : Bytes} (h : nibbles a <+: nibbles b) : a <+: b := by
  induction a generalizing b with
  | nil => exact nil_prefix
  | cons x a ih =>
    cases b with
    | nil => cases prefix_nil.mp h
    | cons y b =>
      simp only [nibbles, highNibble, lowNibble, cons_prefix_cons, Fin.mk.injEq] at h
      obtain ⟨hhigh, hlow, hrest⟩ := h
      have hx : x.toNat < 256 := x.toNat_lt
      have hy : y.toNat < 256 := y.toNat_lt
      have hxy : x.toNat = y.toNat := by omega
      exact cons_prefix_cons.mpr ⟨UInt8.toNat_inj.mp hxy, ih hrest⟩

theorem nibbles_injective : Function.Injective nibbles := by
  intro a b h
  apply (isPrefix_of_nibbles (h ▸ prefix_rfl)).eq_of_length
  have hlength := congrArg List.length h
  rw [length_nibbles, length_nibbles] at hlength
  omega

/-- Every list of nibbles is the start of some key. -/
theorem exists_nibbles_append (ns : List (Fin 16)) : ∃ key rest, nibbles key = ns ++ rest := by
  match ns with
  | [] => exact ⟨[], [], rfl⟩
  | [n] =>
    refine ⟨[UInt8.ofNat (n.val * 16)], [0], ?_⟩
    have := n.isLt
    simp only [nibbles, highNibble, lowNibble, UInt8.toNat_ofNat', cons_append,
      nil_append, List.cons.injEq, Fin.ext_iff, and_true, Fin.val_zero]
    omega
  | m :: n :: ns =>
    obtain ⟨key, rest, hkey⟩ := exists_nibbles_append ns
    refine ⟨UInt8.ofNat (m.val * 16 + n.val) :: key, rest, ?_⟩
    have := m.isLt
    have := n.isLt
    simp only [nibbles, highNibble, lowNibble, UInt8.toNat_ofNat', cons_append,
      List.cons.injEq, Fin.ext_iff, hkey, and_true]
    omega

/-- A trie with its hashes followed. -/
abbrev TrieTree : Type := RadixTree (Fin 16) Bytes

namespace TrieTree

variable {Digest : Type} (H : TrieHasher Digest)

/-- The top node of a tree. -/
def toNode : TrieTree → TrieNode Digest
  | .empty => .empty
  | .leaf key value => .leaf (key.map nibbleByte) value
  | .ext label next => .extension (label.map nibbleByte) (H.hash (toNode next))
  | .branch children value =>
    .branch
      (fun n => if (children n).isEmpty then none else some (H.hash (toNode (children n))))
      value

def digest (t : TrieTree) : Digest :=
  H.hash (toNode H t)

@[simp] theorem toNode_leaf (key : List (Fin 16)) (value : Bytes) :
    toNode H (.leaf key value) = .leaf (key.map nibbleByte) value := rfl

@[simp] theorem toNode_ext (label : List (Fin 16)) (next : TrieTree) :
    toNode H (.ext label next) = .extension (label.map nibbleByte) (digest H next) := rfl

theorem toNode_branch (children : Fin 16 → TrieTree) (value : Option Bytes) :
    toNode H (.branch children value) = .branch
      (fun n => if (children n).isEmpty then none else some (digest H (children n))) value := rfl

variable {H}

theorem map_nibbleByte_injective : Function.Injective (List.map nibbleByte) :=
  map_injective_iff.mpr nibbleByte_injective

/-- Without collisions the top node determines the whole tree. -/
theorem toNode_injective (hfree : H.CollisionFree) : Function.Injective (toNode H) := by
  intro t t' h
  induction t generalizing t' with
  | empty =>
    cases t' with
    | empty => rfl
    | _ => cases h
  | leaf key value =>
    cases t' with
    | leaf key' value' =>
      simp only [toNode_leaf, TrieNode.leaf.injEq] at h
      rw [map_nibbleByte_injective h.1, h.2]
    | _ => cases h
  | ext label next ih =>
    cases t' with
    | ext label' next' =>
      simp only [toNode_ext, TrieNode.extension.injEq] at h
      rw [map_nibbleByte_injective h.1, ih (hfree.hash_injective h.2)]
    | _ => cases h
  | branch children value ih =>
    cases t' with
    | branch children' value' =>
      simp only [toNode_branch, TrieNode.branch.injEq] at h
      obtain ⟨hchildren, rfl⟩ := h
      have hsame : children = children' := by
        funext n
        have hn := congrFun hchildren n
        split at hn
        · rename_i hempty
          split at hn
          · rename_i hempty'
            rw [RadixTree.eq_empty_of_isEmpty hempty, RadixTree.eq_empty_of_isEmpty hempty']
          · cases hn
        · split at hn
          · cases hn
          · exact ih n (hfree.hash_injective (Option.some.inj hn))
      rw [hsame]
    | _ => cases h

theorem digest_injective (hfree : H.CollisionFree) : Function.Injective (digest H) :=
  hfree.hash_injective.comp (toNode_injective hfree)

end TrieTree

namespace NodeStore

open TrieTree

variable {Digest : Type} {H : TrieHasher Digest}

variable (nodes : NodeStore H) (t : TrieTree)

/-- The top node of the tree is stored. -/
def Has : Prop :=
  nodes.get (digest H t) = some (toNode H t)

/-- All nodes of the tree are stored. -/
def HasAll : Prop :=
  ∀ s, RadixTree.Occurs s t → s.isEmpty = false → nodes.Has s

variable (hfree : H.CollisionFree)

include hfree

/-- Under the hash of a tree nothing else is stored. -/
theorem has_or_none (nodes : NodeStore H) (t : TrieTree) :
    nodes.Has t ∨ nodes.get (digest H t) = none := by
  cases h : nodes.get (digest H t) with
  | none => exact .inr rfl
  | some node =>
    have hnode : node = toNode H t := hfree.hash_injective (nodes.addressed _ _ h)
    exact .inl (by rw [Has, h, hnode])

variable [DecidableEq Digest]

@[simp] theorem has_insert (nodes : NodeStore H) (s t : TrieTree) :
    (nodes.insert (toNode H s)).Has t ↔ t = s ∨ nodes.Has t := by
  by_cases hts : t = s
  · simp [hts, Has, digest]
  · have hne : digest H t ≠ H.hash (toNode H s) := fun h => hts (digest_injective hfree h)
    simp [hts, Has, hne]

@[simp] theorem has_remove (nodes : NodeStore H) (s t : TrieTree) :
    (nodes.remove (digest H s)).Has t ↔ t ≠ s ∧ nodes.Has t := by
  by_cases hts : t = s
  · simp [hts, Has]
  · have hne : digest H t ≠ digest H s := fun h => hts (digest_injective hfree h)
    simp [hts, Has, hne]

end NodeStore

namespace MerklePatriciaTrie

open Outcome TrieTree RadixTree

variable {Digest : Type} {H : TrieHasher Digest}
variable {nodes : NodeStore H} {fuel : Nat} {k : List (Fin 16)} {s t : TrieTree}

variable {label : List (Fin 16)} {next : TrieTree}

@[simp] theorem prefix_map_nibbleByte {k : List (Fin 16)} :
    label.map nibbleByte <+: k.map nibbleByte ↔ label <+: k :=
  prefix_map_iff_of_injective nibbleByte_injective

theorem drop_map_nibbleByte (label r : List (Fin 16)) :
    ((label ++ r).map nibbleByte).drop (label.map nibbleByte).length = r.map nibbleByte := by
  rw [map_append, drop_left]

variable {α : Type} {r : List (Fin 16)} {n : Fin 16}

/-- A call that looks up a stored node goes on with it. -/
theorem bind_get_of_has (h : nodes.Has t) (f : TrieNode Digest → TrieResult Digest α) :
    okOr (nodes.get (digest H t)) (.trieError "Node not found") >>= f = f (toNode H t) := by
  rw [show nodes.get (digest H t) = some (toNode H t) from h]
  rfl

theorem bind_get_of_absent (h : nodes.get (digest H t) = none)
    (f : TrieNode Digest → TrieResult Digest α) :
    okOr (nodes.get (digest H t)) (.trieError "Node not found") >>= f =
      fail (.trieError "Node not found") := by
  rw [h]
  rfl

theorem getRecursive_absent (h : nodes.get (digest H t) = none) (key : Bytes) :
    getRecursive nodes (fuel + 1) (digest H t) key = fail (.trieError "Node not found") :=
  bind_get_of_absent h _

theorem getRecursive_leaf {key : List (Fin 16)} {value : Bytes} (h : nodes.Has (leaf key value)) :
    getRecursive nodes (fuel + 1) (digest H (leaf key value)) (k.map nibbleByte) =
      .ok ((leaf key value).get k) := by
  apply (bind_get_of_has h _).trans
  simp [map_nibbleByte_injective.eq_iff]

theorem getRecursive_ext (h : nodes.Has (ext label next)) :
    getRecursive nodes (fuel + 1) (digest H (ext label next)) ((label ++ r).map nibbleByte) =
      getRecursive nodes fuel (digest H next) (r.map nibbleByte) := by
  apply (bind_get_of_has h _).trans
  simp

theorem getRecursive_ext_of_not (h : nodes.Has (ext label next)) (hlabel : ¬ label <+: k) :
    getRecursive nodes (fuel + 1) (digest H (ext label next)) (k.map nibbleByte) = .ok none := by
  apply (bind_get_of_has h _).trans
  simp [hlabel]

variable {children : Fin 16 → TrieTree} {value : Option Bytes}

variable (h : nodes.Has (branch children value))

include h

@[simp] theorem getRecursive_branch_nil :
    getRecursive nodes (fuel + 1) (digest H (branch children value)) [] = .ok value :=
  bind_get_of_has h _

theorem getRecursive_branch_empty
    (hn : (children n).isEmpty = true) (key : Bytes) :
    getRecursive nodes (fuel + 1) (digest H (branch children value)) (nibbleByte n :: key) =
      .ok none := by
  apply (bind_get_of_has h _).trans
  simp [toNode_branch, hn]

theorem getRecursive_branch_cons
    (hn : (children n).isEmpty = false) (key : Bytes) :
    getRecursive nodes (fuel + 1) (digest H (branch children value)) (nibbleByte n :: key) =
      getRecursive nodes fuel (digest H (children n)) key := by
  apply (bind_get_of_has h _).trans
  simp [toNode_branch, hn]

omit h

/-- A bound larger than what is left of the key allows one more call. -/
theorem exists_succ_of_lt {length fuel : Nat} (hfuel : length < fuel) : ∃ n, fuel = n + 1 :=
  exists_eq_add_one_of_ne_zero (Nat.ne_zero_of_lt hfuel)

theorem length_lt_of_ext
    (hwf : (ext label next).WellFormed) (h : (label ++ r).length < fuel + 1) :
    r.length < fuel := by
  have hpos := length_pos_iff.mpr hwf.1
  rw [length_append] at h
  omega

theorem walk_top (hfuel : k.length < fuel) (hwalk : ∀ s ∈ t.walk k, nodes.Has s) :
    ∃ n, fuel = n + 1 ∧ nodes.Has t := by
  obtain ⟨n, rfl⟩ := exists_succ_of_lt hfuel
  exact ⟨n, rfl, hwalk t (mem_walk_self t k)⟩

/-- A lookup returns what the tree holds if all nodes on the way are stored. -/
theorem getRecursive_stored (hwf : t.WellFormed) (hfuel : k.length < fuel)
    (hwalk : ∀ s ∈ t.walk k, nodes.Has s) :
    getRecursive nodes fuel (digest H t) (k.map nibbleByte) = .ok (t.get k) := by
  induction t, k using walk_induction generalizing fuel with
  | empty =>
    obtain ⟨n, rfl, htop⟩ := walk_top hfuel hwalk
    exact bind_get_of_has htop _
  | leaf =>
    obtain ⟨n, rfl, htop⟩ := walk_top hfuel hwalk
    exact getRecursive_leaf htop
  | along label next r ih =>
    obtain ⟨n, rfl, htop⟩ := walk_top hfuel hwalk
    rw [getRecursive_ext htop, get_ext_append]
    exact ih hwf.2.2 (length_lt_of_ext hwf hfuel)
      fun s hs => hwalk s ((mem_walk_ext r).mpr (.inr hs))
  | off label next k hlabel =>
    obtain ⟨n, rfl, htop⟩ := walk_top hfuel hwalk
    rw [getRecursive_ext_of_not htop hlabel, get_ext_of_not next hlabel]
  | value =>
    obtain ⟨n, rfl, htop⟩ := walk_top hfuel hwalk
    exact getRecursive_branch_nil htop
  | child children value a r ih =>
    obtain ⟨n, rfl, htop⟩ := walk_top hfuel hwalk
    rw [map_cons, get_branch_cons]
    cases ha : (children a).isEmpty with
    | true => rw [getRecursive_branch_empty htop ha, eq_empty_of_isEmpty ha, get_empty]
    | false =>
      rw [getRecursive_branch_cons htop ha]
      exact ih (hwf.2 a) (lt_of_succ_lt_succ hfuel)
        fun s hs => hwalk s (mem_walk_branch.mpr (.inr ⟨ha, hs⟩))

/-- What holds where a node is not stored, and above it on the way, holds if some node on the way
is not stored. -/
theorem missing_induction {P : Nat → TrieTree → List (Fin 16) → Prop} (hfree : H.CollisionFree)
    (absent : ∀ n t k, nodes.get (digest H t) = none → P (n + 1) t k)
    (extension : ∀ n label next r, nodes.Has (ext label next) → P n next r →
      P (n + 1) (ext label next) (label ++ r))
    (child : ∀ n children value a r, nodes.Has (branch children value) →
      (children a).isEmpty = false → P n (children a) r →
      P (n + 1) (branch children value) (a :: r))
    (hwf : t.WellFormed) (hfuel : k.length < fuel) (hs : s ∈ t.walk k)
    (hmissing : ¬ nodes.Has s) : P fuel t k := by
  induction t, k using walk_induction generalizing fuel with
  | empty | leaf | value =>
    obtain ⟨n, rfl⟩ := exists_succ_of_lt hfuel
    obtain rfl := mem_singleton.mp hs
    exact absent n _ _ ((nodes.has_or_none hfree _).resolve_left hmissing)
  | along label next r ih =>
    obtain ⟨n, rfl⟩ := exists_succ_of_lt hfuel
    obtain htop | htop := nodes.has_or_none hfree (ext label next)
    · obtain rfl | hs := (mem_walk_ext r).mp hs
      · exact absurd htop hmissing
      · exact extension n label next r htop (ih hwf.2.2 (length_lt_of_ext hwf hfuel) hs)
    · exact absent n _ _ htop
  | off label next k hlabel =>
    obtain ⟨n, rfl⟩ := exists_succ_of_lt hfuel
    rw [walk_ext_of_not next hlabel] at hs
    obtain rfl := mem_singleton.mp hs
    exact absent n _ _ ((nodes.has_or_none hfree _).resolve_left hmissing)
  | child children value a r ih =>
    obtain ⟨n, rfl⟩ := exists_succ_of_lt hfuel
    obtain htop | htop := nodes.has_or_none hfree (branch children value)
    · obtain rfl | ⟨ha, hs⟩ := mem_walk_branch.mp hs
      · exact absurd htop hmissing
      · exact child n children value a r htop ha (ih (hwf.2 a) (lt_of_succ_lt_succ hfuel) hs)
    · exact absent n _ _ htop

/-- A lookup fails if some node on the way is not stored. -/
theorem getRecursive_missing (hfree : H.CollisionFree) (hwf : t.WellFormed)
    (hfuel : k.length < fuel) (hs : s ∈ t.walk k) (hmissing : ¬ nodes.Has s) :
    getRecursive nodes fuel (digest H t) (k.map nibbleByte) =
      fail (.trieError "Node not found") := by
  refine missing_induction
    (P := fun fuel t k => getRecursive nodes fuel (digest H t) (k.map nibbleByte) =
      fail (.trieError "Node not found")) hfree ?_ ?_ ?_ hwf hfuel hs hmissing
  · intro n t k habsent
    exact getRecursive_absent habsent _
  · intro n label next r htop ih
    rw [getRecursive_ext htop, ih]
  · intro n children value a r htop ha ih
    rw [map_cons, getRecursive_branch_cons htop ha, ih]

end MerklePatriciaTrie

end RustyCoin
