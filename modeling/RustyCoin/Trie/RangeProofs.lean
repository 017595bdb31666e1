import RustyCoin.Lib.RadixEntries
import RustyCoin.Trie.Order
import RustyCoin.Trie.Proofs

/-!
# Range proofs

The prover of a range goes down from the root, leaves out the children of a branch
whose path cannot lead into the range, and collects the nodes it visits and the
entries it finds in the range. The number of levels it may go down is a parameter:
unlike a lookup, it does not follow a key that could bound it.

What it collects is exact: the entries of the range, in the order of their keys.
The verifier compares the keys with the range and the root with what it computes
from the nodes, but never the entries with the nodes.
-/

namespace RustyCoin

open Outcome TrieHasher List Nat

/-- Two nibbles make a byte; a last nibble without a partner is the high half of
its byte. -/
def nibblesToBytes : Bytes → Bytes
  | [] => []
  | [high] => [high <<< 4]
  | high :: low :: rest => (high <<< 4 ||| low) :: nibblesToBytes rest

structure RangeProof (Digest : Type) where
  startKey : Bytes
  endKey : Bytes
  includedKeys : List (Bytes × Bytes)
  proofNodes : List (TrieNode Digest)
  rootHash : Digest

/-- Digests as byte strings, with the one of 32 zero bytes. -/
structure DigestBytes (Digest : Type) where
  toBytes : Digest → Bytes
  zero : Digest
  toBytes_zero : toBytes zero = List.replicate 32 0

/-- The digests of the plain hasher are byte strings already. -/
def DigestBytes.plain : DigestBytes Bytes where
  toBytes := id
  zero := List.replicate 32 0
  toBytes_zero := rfl

namespace MerklePatriciaTrie

/-- Compare a path with both ends of the range on the nibbles that all three have. -/
def pathCouldContainRange (path startNibbles endNibbles : Bytes) : Bool :=
  let pathLen := min (min path.length startNibbles.length) endNibbles.length
  if pathLen = 0 then true
  else
    decide (startNibbles.take pathLen ≤ path.take pathLen) &&
      decide (path.take pathLen ≤ endNibbles.take pathLen)

/-- The entry, if its key lies in the range. -/
def entryInRange (path startNibbles endNibbles value : Bytes) : List (Bytes × Bytes) :=
  let keyBytes := nibblesToBytes path
  if nibblesToBytes startNibbles ≤ keyBytes ∧ keyBytes ≤ nibblesToBytes endNibbles then
    [(keyBytes, value)]
  else []

/-- The entry of a branch itself. -/
def ownEntry (path startNibbles endNibbles : Bytes) : Option Bytes → List (Bytes × Bytes)
  | some branchValue => entryInRange path startNibbles endNibbles branchValue
  | none => []

/-- The nodes and the entries that the prover has collected. -/
abbrev Collected (Digest : Type) : Type := List (TrieNode Digest) × List (Bytes × Bytes)

variable {Digest : Type} {H : TrieHasher Digest}

/-- The loop over the children of a branch. -/
def collectChildren (collect : Digest → Bytes → TrieResult Digest (Collected Digest))
    (couldContain : Bytes → Bool) (children : Fin 16 → Option Digest) (path : Bytes) :
    List (Fin 16) → TrieResult Digest (Collected Digest)
  | [] => .ok ([], [])
  | i :: rest =>
    match children i with
    | none => collectChildren collect couldContain children path rest
    | some childHash =>
      let childPath := path ++ [nibbleByte i]
      if couldContain childPath then do
        let (nodes, keys) ← collect childHash childPath
        let (moreNodes, moreKeys) ← collectChildren collect couldContain children path rest
        return (nodes ++ moreNodes, keys ++ moreKeys)
      else collectChildren collect couldContain children path rest

def collectRangeProofNodes (nodes : NodeStore H) (startNibbles endNibbles : Bytes) :
    Nat → Digest → Bytes → TrieResult Digest (Collected Digest)
  | 0, _, _ => .error .outOfFuel
  | depth + 1, nodeHash, path => do
    let node ← okOr (nodes.get nodeHash) (.trieError "Node not found")
    match node with
    | .empty => return ([node], [])
    | .leaf keyEnd value =>
      return ([node], entryInRange (path ++ keyEnd) startNibbles endNibbles value)
    | .extension label nextHash => do
      let (below, keys) ←
        collectRangeProofNodes nodes startNibbles endNibbles depth nextHash (path ++ label)
      return (node :: below, keys)
    | .branch children value => do
      let (below, keys) ←
        collectChildren (collectRangeProofNodes nodes startNibbles endNibbles depth)
          (pathCouldContainRange · startNibbles endNibbles) children path (List.finRange 16)
      return (node :: below, ownEntry path startNibbles endNibbles value ++ keys)

def generateRangeProof (trie : MerklePatriciaTrie H) (depth : Nat) (startKey endKey : Bytes) :
    TrieResult Digest (RangeProof Digest) := do
  let (rangeNodes, includedKeys) ←
    collectRangeProofNodes trie.nodes (bytesToNibbles startKey) (bytesToNibbles endKey) depth
      trie.rootHash []
  return ⟨startKey, endKey, includedKeys, rangeNodes, trie.rootHash⟩

/-- One node of the loop of `compute_range_root_from_proof`, which goes from the
last node to the first. -/
def combineRangeNode (H : TrieHasher Digest) (B : DigestBytes Digest) (currentHash : Digest) :
    TrieNode Digest → Digest
  | .branch children _ =>
    H.blake3 ((List.finRange 16).flatMap fun i =>
      match children i with
      | some childHash => B.toBytes childHash
      | none => List.replicate 32 0)
  | .extension label _ => H.blake3 (label ++ B.toBytes currentHash)
  | .leaf keyEnd value => H.blake3 (keyEnd ++ value)
  | .empty => B.zero

/-- The included keys are an argument that is not used. -/
def computeRangeRootFromProof (H : TrieHasher Digest) (B : DigestBytes Digest)
    (proofNodes : List (TrieNode Digest)) (_includedKeys : List (Bytes × Bytes)) : Digest :=
  match proofNodes.reverse with
  | [] => B.zero
  | last :: above => above.foldl (combineRangeNode H B) (H.hash last)

variable [DecidableEq Digest]

def verifyRangeProof (H : TrieHasher Digest) (B : DigestBytes Digest) (proof : RangeProof Digest) :
    TrieResult Digest Bool :=
  if proof.includedKeys.any fun e => e.1 < proof.startKey || proof.endKey < e.1 then .ok false
  else .ok (computeRangeRootFromProof H B proof.proofNodes proof.includedKeys = proof.rootHash)

end MerklePatriciaTrie

theorem join_nibbles (byte : UInt8) : (byte >>> 4) <<< 4 ||| byte &&& 0x0F = byte := by
  apply UInt8.toNat_inj.mp
  have hhigh : ((byte >>> 4) <<< 4).toNat = 2 ^ 4 * (byte.toNat / 16) := by
    have hlt := byte.toNat_lt
    rw [UInt8.toNat_shiftLeft, toNat_shiftRight_four]
    simp only [shiftLeft_eq, UInt8.reduceToNat, Nat.reducePow, Nat.reduceMod]
    omega
  have hlow : byte.toNat % 16 < 2 ^ 4 := mod_lt _ (by decide)
  rw [UInt8.toNat_or, hhigh, toNat_and_fifteen, ← two_pow_add_eq_or_of_lt hlow]
  omega

@[simp] theorem nibblesToBytes_bytesToNibbles (key : Bytes) :
    nibblesToBytes (bytesToNibbles key) = key := by
  induction key with
  | nil => rfl
  | cons byte bytes ih => rw [bytesToNibbles, nibblesToBytes, join_nibbles, ih]

/-- Nibbles are compared as the bytes they stand for. -/
theorem bytesToNibbles_lt_iff {a b : Bytes} : bytesToNibbles a < bytesToNibbles b ↔ a < b := by
  induction a generalizing b with
  | nil =>
    cases b with
    | nil => exact Iff.rfl
    | cons y b => exact iff_of_true (nil_lt_cons _ _) (nil_lt_cons _ _)
  | cons x a ih =>
    cases b with
    | nil => exact iff_of_false (not_lt_nil _) (not_lt_nil _)
    | cons y b =>
      simp only [bytesToNibbles, cons_lt_cons_iff, ih, UInt8.lt_iff_toNat_lt,
        ← UInt8.toNat_inj, toNat_shiftRight_four, toNat_and_fifteen]
      by_cases hrest : a < b
      · simp only [hrest, and_true]
        omega
      · simp only [hrest, and_false, or_false]
        omega

theorem nibbleByte_lt {m n : Fin 16} (h : m < n) : nibbleByte m < nibbleByte n := by
  rw [UInt8.lt_iff_toNat_lt, nibbleByte_toNat, nibbleByte_toNat]
  exact h

theorem bytesToNibbles_le_iff {a b : Bytes} : bytesToNibbles a ≤ bytesToNibbles b ↔ a ≤ b :=
  not_congr bytesToNibbles_lt_iff

namespace MerklePatriciaTrie

open TrieTree RadixTree

variable {Digest : Type} {H : TrieHasher Digest}
variable {startKey endKey key : Bytes} {path : Bytes}

/-- A path that leads to a key of the range is not left out. -/
theorem pathCouldContainRange_of_key (hpath : path <+: bytesToNibbles key)
    (hstart : startKey ≤ key) (hend : key ≤ endKey) :
    pathCouldContainRange path (bytesToNibbles startKey) (bytesToNibbles endKey) = true := by
  unfold pathCouldContainRange
  generalize hn : min (min path.length (bytesToNibbles startKey).length)
    (bytesToNibbles endKey).length = n
  have hle : n ≤ path.length := by omega
  -- on its first nibbles the path is the key
  have htake : path.take n = (bytesToNibbles key).take n := by
    obtain ⟨rest, hrest⟩ := hpath
    rw [← hrest, take_append_of_le_length hle]
  dsimp only
  split
  · rfl
  · rw [htake, Bool.and_eq_true, decide_eq_true_eq, decide_eq_true_eq]
    exact ⟨take_le_take (bytesToNibbles_le_iff.mpr hstart) n,
      take_le_take (bytesToNibbles_le_iff.mpr hend) n⟩

theorem mem_entryInRange (value : Bytes) {k v : Bytes} :
    (k, v) ∈ entryInRange (bytesToNibbles key) (bytesToNibbles startKey) (bytesToNibbles endKey)
        value ↔ (k = key ∧ v = value) ∧ startKey ≤ key ∧ key ≤ endKey := by
  unfold entryInRange
  simp only [nibblesToBytes_bytesToNibbles]
  split
  all_goals
    rename_i hrange
    simp [hrange]

variable {collect : Digest → Bytes → TrieResult Digest (Collected Digest)}
  {couldContain : Bytes → Bool} {children : Fin 16 → Option Digest} {is : List (Fin 16)}
  {collected : Collected Digest}

variable (hrun : collectChildren collect couldContain children path is = .ok collected)

include hrun

/-- The children in the range are all visited. -/
theorem collectChildren_visits
    {i : Fin 16} (hi : i ∈ is) {childHash : Digest} (hchild : children i = some childHash)
    (hcould : couldContain (path ++ [nibbleByte i]) = true) :
    ∃ below, collect childHash (path ++ [nibbleByte i]) = .ok below := by
  induction is generalizing collected with
  | nil => cases hi
  | cons j rest ih =>
    rw [collectChildren] at hrun
    by_cases hij : i = j
    · subst hij
      rw [hchild] at hrun
      dsimp only at hrun
      rw [if_pos hcould] at hrun
      obtain ⟨below, hbelow, -⟩ := bind_eq_ok.mp hrun
      exact ⟨below, hbelow⟩
    · have hrest : i ∈ rest := (mem_cons.mp hi).resolve_left hij
      split at hrun
      · exact ih hrun hrest
      · dsimp only at hrun
        split at hrun
        · obtain ⟨_, -, hrun⟩ := bind_eq_ok.mp hrun
          obtain ⟨_, hrun, -⟩ := bind_eq_ok.mp hrun
          exact ih hrun hrest
        · exact ih hrun hrest

/-- The entries are those of the children, if no child that is left out has any. -/
theorem collectChildren_keys {keysOf : Fin 16 → List (Bytes × Bytes)}
    (hnone : ∀ i, children i = none → keysOf i = [])
    (hpruned : ∀ i, couldContain (path ++ [nibbleByte i]) = false → keysOf i = [])
    (hvisited : ∀ i childHash below, children i = some childHash →
      collect childHash (path ++ [nibbleByte i]) = .ok below → below.2 = keysOf i) :
    collected.2 = is.flatMap keysOf := by
  induction is generalizing collected with
  | nil =>
    cases hrun
    rfl
  | cons i rest ih =>
    rw [collectChildren] at hrun
    rw [flatMap_cons]
    split at hrun
    · rename_i hchild
      rw [hnone i hchild, nil_append]
      exact ih hrun
    · rename_i childHash hchild
      dsimp only at hrun
      split at hrun
      · obtain ⟨below, hbelow, hrun⟩ := bind_eq_ok.mp hrun
        obtain ⟨more, hmore, hrun⟩ := bind_eq_ok.mp hrun
        cases hrun
        rw [← hvisited i childHash below hchild hbelow, ← ih hmore]
      · rename_i hcould
        rw [hpruned i (Bool.eq_false_iff.mpr hcould), nil_append]
        exact ih hrun

omit hrun

theorem failsWith_collectChildren {P : Failure (TrieError Digest) → Prop}
    (hcollect : ∀ i childHash, children i = some childHash →
      FailsWith P (collect childHash (path ++ [nibbleByte i]))) :
    FailsWith P (collectChildren collect couldContain children path is) := by
  induction is with
  | nil => exact failsWith_ok _
  | cons i rest ih =>
    rw [collectChildren]
    split
    · exact ih
    · rename_i childHash hchild
      simp [hcollect i childHash hchild, ih]

section

/-- Below the path all keys of the tree are byte strings. -/
def KeysBelow (path : Bytes) (t : TrieTree) : Prop :=
  ∀ k, (t.get k).isSome → ∃ key, bytesToNibbles key = path ++ k.map nibbleByte

/-- The entries of the range that the tree holds below the path. -/
def entriesInRange (startKey endKey path : Bytes) (t : TrieTree) : List (Bytes × Bytes) :=
  (t.entries (List.finRange 16)).flatMap fun entry =>
    entryInRange (path ++ entry.1.map nibbleByte) (bytesToNibbles startKey)
      (bytesToNibbles endKey) entry.2

variable {label : List (Fin 16)} {next : TrieTree} {value : Option Bytes}

theorem KeysBelow.ext
    (h : KeysBelow path (ext label next)) : KeysBelow (path ++ label.map nibbleByte) next := by
  intro k hk
  obtain ⟨key, hkey⟩ := h (label ++ k) (by rwa [get_ext_append])
  exact ⟨key, by rw [hkey, map_append, append_assoc]⟩

theorem KeysBelow.child {children : Fin 16 → TrieTree}
    (h : KeysBelow path (branch children value)) (i : Fin 16) :
    KeysBelow (path ++ [nibbleByte i]) (children i) := by
  intro k hk
  obtain ⟨key, hkey⟩ := h (i :: k) hk
  exact ⟨key, by rw [hkey, map_cons, append_assoc, singleton_append]⟩

theorem entriesInRange_ext (label : List (Fin 16)) (next : TrieTree) :
    entriesInRange startKey endKey path (ext label next) =
      entriesInRange startKey endKey (path ++ label.map nibbleByte) next := by
  simp [entriesInRange, entries, flatMap_map, underLabel]

theorem entriesInRange_branch (children : Fin 16 → TrieTree) (value : Option Bytes) :
    entriesInRange startKey endKey path (branch children value) =
      ownEntry path (bytesToNibbles startKey) (bytesToNibbles endKey) value ++
        (List.finRange 16).flatMap fun i =>
          entriesInRange startKey endKey (path ++ [nibbleByte i]) (children i) := by
  cases value with
  | none =>
    simp [entriesInRange, entries, ownEntry, flatMap_assoc, flatMap_map, underLabel]
  | some v =>
    simp [entriesInRange, entries, ownEntry, flatMap_assoc, flatMap_map, underLabel]

theorem mem_entriesInRange {t : TrieTree} (hkeys : KeysBelow path t) {k v : Bytes} :
    (k, v) ∈ entriesInRange startKey endKey path t ↔
      (∃ j, bytesToNibbles k = path ++ j.map nibbleByte ∧ t.get j = some v) ∧
        startKey ≤ k ∧ k ≤ endKey := by
  rw [entriesInRange, mem_flatMap]
  constructor
  · rintro ⟨⟨j, w⟩, hmem, hentry⟩
    have hget := (mem_entries mem_finRange).mp hmem
    obtain ⟨key, hkey⟩ := hkeys j (Option.isSome_of_eq_some hget)
    rw [← hkey] at hentry
    obtain ⟨⟨rfl, rfl⟩, hrange⟩ := (mem_entryInRange _).mp hentry
    exact ⟨⟨j, hkey, hget⟩, hrange⟩
  · rintro ⟨⟨j, hkey, hget⟩, hrange⟩
    refine ⟨(j, v), (mem_entries mem_finRange).mpr hget, ?_⟩
    rw [← hkey]
    exact (mem_entryInRange v).mpr ⟨⟨rfl, rfl⟩, hrange⟩

/-- Nothing of the range lies below a path that is left out. -/
theorem entriesInRange_pruned {t : TrieTree} (hkeys : KeysBelow path t)
    (hcould : pathCouldContainRange path (bytesToNibbles startKey) (bytesToNibbles endKey) =
      false) : entriesInRange startKey endKey path t = [] := by
  apply eq_nil_iff_forall_not_mem.mpr
  rintro ⟨k, v⟩ hmem
  obtain ⟨⟨j, hkey, -⟩, hstart, hend⟩ := (mem_entriesInRange hkeys).mp hmem
  have hpath : path <+: bytesToNibbles k := by
    rw [hkey]
    exact prefix_append _ _
  rw [pathCouldContainRange_of_key hpath hstart hend] at hcould
  cases hcould

variable {nodes : NodeStore H} {depth : Nat} {t : TrieTree} {collected : Collected Digest}

/-- A prover that returns has found the node it started at. -/
theorem collectRangeProofNodes_node (hfree : H.CollisionFree) {sn en : Bytes}
    (hrun : collectRangeProofNodes nodes sn en depth (digest H t) path = .ok collected) :
    nodes.Has t ∧ ∃ n, depth = n + 1 := by
  cases depth with
  | zero => cases hrun
  | succ n =>
    rw [collectRangeProofNodes, bind_eq_ok] at hrun
    obtain ⟨node, hnode, -⟩ := hrun
    refine ⟨?_, n, rfl⟩
    rw [NodeStore.Has, ← node_of_okOr hfree hnode]
    exact okOr_eq_ok.mp hnode

variable {n : Nat} {sn en : Bytes}

theorem collectRangeProofNodes_ext
    (hnode : nodes.Has (ext label next))
    (hrun : collectRangeProofNodes nodes sn en (n + 1) (digest H (ext label next)) path =
      .ok collected) :
    ∃ below, collectRangeProofNodes nodes sn en n (digest H next)
        (path ++ label.map nibbleByte) = .ok below ∧ collected.2 = below.2 := by
  rw [collectRangeProofNodes, hnode, okOr, ok_bind] at hrun
  obtain ⟨below, hbelow, hrun⟩ := bind_eq_ok.mp hrun
  cases hrun
  exact ⟨below, hbelow, rfl⟩

theorem collectRangeProofNodes_branch {children : Fin 16 → TrieTree}
    (hnode : nodes.Has (branch children value))
    (hrun : collectRangeProofNodes nodes sn en (n + 1) (digest H (branch children value)) path =
      .ok collected) :
    ∃ below, collectChildren (collectRangeProofNodes nodes sn en n)
        (pathCouldContainRange · sn en) (slots H children) path (List.finRange 16) = .ok below ∧
      collected.2 = ownEntry path sn en value ++ below.2 := by
  rw [collectRangeProofNodes, hnode, okOr, ok_bind] at hrun
  obtain ⟨below, hbelow, hrun⟩ := bind_eq_ok.mp hrun
  cases hrun
  exact ⟨below, hbelow, rfl⟩

variable (hfree : H.CollisionFree)

include hfree

/-- The prover collects the entries of the range. -/
theorem collectRangeProofNodes_keys (hkeys : KeysBelow path t)
    (hrun : collectRangeProofNodes nodes (bytesToNibbles startKey) (bytesToNibbles endKey) depth
      (digest H t) path = .ok collected) :
    collected.2 = entriesInRange startKey endKey path t := by
  induction t generalizing depth path collected with
  | empty | leaf =>
    obtain ⟨hnode, n, rfl⟩ := collectRangeProofNodes_node hfree hrun
    rw [collectRangeProofNodes, hnode] at hrun
    cases hrun
    simp [entriesInRange, entries]
  | ext label next ih =>
    obtain ⟨hnode, n, rfl⟩ := collectRangeProofNodes_node hfree hrun
    obtain ⟨below, hbelow, hcollected⟩ := collectRangeProofNodes_ext hnode hrun
    rw [hcollected, entriesInRange_ext]
    exact ih hkeys.ext hbelow
  | branch children value ih =>
    obtain ⟨hnode, n, rfl⟩ := collectRangeProofNodes_node hfree hrun
    obtain ⟨below, hbelow, hcollected⟩ := collectRangeProofNodes_branch hnode hrun
    rw [hcollected, entriesInRange_branch]
    congr 1
    refine collectChildren_keys hbelow ?_ ?_ ?_
    · intro i hchild
      rw [eq_empty_of_isEmpty (slots_eq_none.mp hchild)]
      rfl
    · intro i hcould
      exact entriesInRange_pruned (hkeys.child i) hcould
    · intro i childHash collected hchild hcollect
      obtain ⟨-, rfl⟩ := slots_eq_some.mp hchild
      exact ih i (hkeys.child i) hcollect

/-- The nodes on the way to a key of the range are all stored, whether the key is
present or not. -/
theorem has_of_collectRangeProofNodes
    (hrun : collectRangeProofNodes nodes (bytesToNibbles startKey) (bytesToNibbles endKey) depth
      (digest H t) path = .ok collected)
    {k : List (Fin 16)} (hkey : bytesToNibbles key = path ++ k.map nibbleByte)
    (hstart : startKey ≤ key) (hend : key ≤ endKey) {s : TrieTree} (hs : s ∈ t.walk k) :
    nodes.Has s := by
  obtain ⟨hnode, n, rfl⟩ := collectRangeProofNodes_node hfree hrun
  induction t, k using walk_induction generalizing n path collected with
  | empty | leaf | value => exact mem_singleton.mp hs ▸ hnode
  | along label next r ih =>
    obtain rfl | hs := (mem_walk_ext r).mp hs
    · exact hnode
    · obtain ⟨below, hbelow, -⟩ := collectRangeProofNodes_ext hnode hrun
      obtain ⟨hnext, n, rfl⟩ := collectRangeProofNodes_node hfree hbelow
      exact ih (by rw [hkey, map_append, append_assoc]) hs hnext n hbelow
  | off label next k hlabel =>
    rw [walk_ext_of_not next hlabel] at hs
    exact mem_singleton.mp hs ▸ hnode
  | child children value a r ih =>
    obtain rfl | ⟨ha, hs⟩ := mem_walk_branch.mp hs
    · exact hnode
    · obtain ⟨below, hbelow, -⟩ := collectRangeProofNodes_branch hnode hrun
      have hpath : bytesToNibbles key = (path ++ [nibbleByte a]) ++ r.map nibbleByte := by
        rw [hkey, map_cons, append_assoc, singleton_append]
      have hcould := pathCouldContainRange_of_key
        (hpath ▸ prefix_append _ _ : path ++ [nibbleByte a] <+: bytesToNibbles key)
        hstart hend
      obtain ⟨below, hchild⟩ := collectChildren_visits hbelow (mem_finRange a)
        (slots_eq_some.mpr ⟨ha, rfl⟩) hcould
      obtain ⟨hnext, n, rfl⟩ := collectRangeProofNodes_node hfree hchild
      exact ih hpath hs hnext n hchild

/-- Some number of levels is enough for a tree, whatever is missing in the store. -/
theorem collectRangeProofNodes_settles (nodes : NodeStore H)
    (sn en : Bytes) (t : TrieTree) :
    ∃ bound, ∀ depth path, bound ≤ depth →
      FailsWith (· ≠ .outOfFuel) (collectRangeProofNodes nodes sn en depth (digest H t) path) := by
  induction t with
  | empty | leaf =>
    refine ⟨1, fun depth path hdepth => ?_⟩
    obtain ⟨n, rfl⟩ := exists_succ_of_lt hdepth
    rw [collectRangeProofNodes, failsWith_bind]
    refine ⟨by simp, fun node hnode => ?_⟩
    rw [node_of_okOr hfree hnode]
    exact failsWith_ok _
  | ext label next ih =>
    obtain ⟨bound, hbound⟩ := ih
    refine ⟨bound + 1, fun depth path hdepth => ?_⟩
    obtain ⟨n, rfl⟩ := exists_succ_of_lt (Nat.lt_of_lt_of_le (succ_pos bound) hdepth)
    rw [collectRangeProofNodes, failsWith_bind]
    refine ⟨by simp, fun node hnode => ?_⟩
    rw [node_of_okOr hfree hnode]
    refine failsWith_bind.mpr ⟨hbound n _ (le_of_succ_le_succ hdepth), ?_⟩
    exact fun _ _ => failsWith_ok _
  | branch children value ih =>
    choose bound hbound using ih
    refine ⟨Finset.univ.sup bound + 1, fun depth path hdepth => ?_⟩
    obtain ⟨n, rfl⟩ := exists_succ_of_lt (Nat.lt_of_lt_of_le (succ_pos _) hdepth)
    rw [collectRangeProofNodes, failsWith_bind]
    refine ⟨by simp, fun node hnode => ?_⟩
    rw [node_of_okOr hfree hnode]
    refine failsWith_bind.mpr ⟨?_, fun _ _ => failsWith_ok _⟩
    apply failsWith_collectChildren
    intro i childHash hchild
    obtain ⟨-, rfl⟩ := slots_eq_some.mp hchild
    apply hbound i n
    exact Nat.le_trans (Finset.le_sup (Finset.mem_univ i)) (le_of_succ_le_succ hdepth)

end

/-- The entries come in the order of their keys. -/
theorem entriesInRange_increasing {t : TrieTree} (hkeys : KeysBelow [] t) :
    (entriesInRange startKey endKey [] t).Pairwise fun e e' => e.1 < e'.1 := by
  rw [entriesInRange, pairwise_flatMap]
  constructor
  · intro entry _
    unfold entryInRange
    dsimp only
    split
    · exact pairwise_singleton _ _
    · exact .nil
  · have hsorted := entries_increasing (pairwise_lt_finRange 16) t
    refine hsorted.imp_of_mem fun {e e'} he he' hlt => ?_
    obtain ⟨key, hkey⟩ := hkeys e.1 (Option.isSome_of_eq_some ((mem_entries mem_finRange).mp he))
    obtain ⟨key', hkey'⟩ := hkeys e'.1 (Option.isSome_of_eq_some
      ((mem_entries mem_finRange).mp he'))
    rintro ⟨k, v⟩ hx ⟨k', v'⟩ hx'
    rw [← hkey] at hx
    rw [← hkey'] at hx'
    obtain ⟨⟨rfl, -⟩, -⟩ := (mem_entryInRange _).mp hx
    obtain ⟨⟨rfl, -⟩, -⟩ := (mem_entryInRange _).mp hx'
    apply bytesToNibbles_lt_iff.mp
    rw [hkey, hkey']
    exact List.map_lt (fun _ _ h => nibbleByte_lt h) hlt

section

variable [DecidableEq Digest] {trie trie' : MerklePatriciaTrie H} {t : TrieTree}

/-- Successful insertions lead to the hash of a tree whose keys are byte strings,
whatever they took out of the store. -/
theorem insertAll_keys (hfree : H.CollisionFree) {entries : List (Bytes × Bytes)}
    (hroot : trie.rootHash = digest H t) (hwf : t.WellFormed) (hkeys : KeysBelow [] t)
    (hrun : trie.insertAll entries = .ok trie') :
    ∃ t', trie'.rootHash = digest H t' ∧ t'.WellFormed ∧ KeysBelow [] t' := by
  induction entries generalizing trie t with
  | nil =>
    cases hrun
    exact ⟨t, hroot, hwf, hkeys⟩
  | cons entry entries ih =>
    obtain ⟨key, value⟩ := entry
    rcases hinsert : trie.insert key value with ⟨_ | ⟨⟩, next⟩
    · rw [insertAll_cons hinsert] at hrun
      cases hrun
    · rw [insertAll_cons hinsert, ok_bind] at hrun
      obtain ⟨t', hins, hroot'⟩ := insert_ok_root hfree hroot hwf hinsert
      refine ih hroot' (wellFormed_insert hwf hins) (fun k hk => ?_) hrun
      obtain rfl | hk := key_of_get_insert hins hk
      · exact ⟨key, bytesToNibbles_eq key⟩
      · exact hkeys k hk

/-- In every trie that successful insertions lead to, a range proof lists exactly
the entries of the range, in the order of their keys. -/
theorem generateRangeProof_exact (hfree : H.CollisionFree) (entries : List (Bytes × Bytes))
    (trie : MerklePatriciaTrie H) (htrie : (new H).insertAll entries = .ok trie)
    (startKey endKey : Bytes) :
    (∃ bound, ∀ depth, bound ≤ depth → Settled (trie.generateRangeProof depth startKey endKey)) ∧
    ∀ depth proof, trie.generateRangeProof depth startKey endKey = .ok proof →
      (∀ k v, (k, v) ∈ proof.includedKeys ↔ startKey ≤ k ∧ k ≤ endKey ∧ trie.get k = .ok (some v)) ∧
      proof.includedKeys.Pairwise fun e e' => e.1 < e'.1 := by
  obtain ⟨t, hroot, hwf, hkeys⟩ :=
    insertAll_keys (t := .empty) hfree rfl trivial (fun _ => nofun) htrie
  constructor
  · obtain ⟨bound, hbound⟩ := collectRangeProofNodes_settles hfree trie.nodes
      (bytesToNibbles startKey) (bytesToNibbles endKey) t
    refine ⟨bound, fun depth hdepth => settled_iff.mpr ?_⟩
    rw [generateRangeProof, hroot, failsWith_bind]
    exact ⟨hbound depth [] hdepth, fun _ _ => failsWith_ok _⟩
  · intro depth proof hproof
    rw [generateRangeProof, hroot] at hproof
    obtain ⟨collected, hcollect, hproof⟩ := bind_eq_ok.mp hproof
    cases hproof
    rw [collectRangeProofNodes_keys hfree hkeys hcollect]
    refine ⟨fun k v => ?_, entriesInRange_increasing hkeys⟩
    rw [mem_entriesInRange hkeys]
    constructor
    · rintro ⟨⟨j, hk, hget⟩, hstart, hend⟩
      refine ⟨hstart, hend, ?_⟩
      obtain rfl : j = nibbles k :=
        map_nibbleByte_injective (hk.symm.trans (bytesToNibbles_eq k))
      have hreach : trie.Reaches t k := fun s hs =>
        has_of_collectRangeProofNodes hfree hcollect hk hstart hend hs
      rw [get_of_reaches hroot hwf hreach, hget]
    · rintro ⟨hstart, hend, hget⟩
      refine ⟨⟨nibbles k, bytesToNibbles_eq k, ?_⟩, hstart, hend⟩
      by_cases hreach : trie.Reaches t k
      · rw [get_of_reaches hroot hwf hreach] at hget
        exact Except.ok.inj hget
      · rw [get_of_not_reaches hroot hwf hfree hreach] at hget
        exact absurd hget (fail_ne_ok _ _)

/-- Two of three keys lie in the range. -/
theorem generateRangeProof_exact_three :
    ∃ trie proof, (new plain).insertAll
        [([0x11], [7]), ([0x21], [8]), ([0x31], [9])] = .ok trie ∧
      trie.generateRangeProof 2 [0x11] [0x21] = .ok proof ∧
      proof.includedKeys = [([0x11], [7]), ([0x21], [8])] ∧
      proof.includedKeys.Pairwise fun e e' => e.1 < e'.1 :=
  ⟨_, _, rfl, rfl, rfl, ((generateRangeProof_exact plain_collisionFree
    [([0x11], [7]), ([0x21], [8]), ([0x31], [9])] _ rfl [0x11] [0x21]).2 2 _ rfl).2⟩

end

variable [DecidableEq Digest]

/-- The root node alone makes the verifier accept any entries with keys in the
range. -/
theorem verifyRangeProof_root (B : DigestBytes Digest) (node : TrieNode Digest)
    (startKey endKey : Bytes) {includedKeys : List (Bytes × Bytes)}
    (hrange : ∀ e ∈ includedKeys, startKey ≤ e.1 ∧ e.1 ≤ endKey) :
    verifyRangeProof H B ⟨startKey, endKey, includedKeys, [node], H.hash node⟩ = .ok true := by
  have hkeys : includedKeys.any (fun e => e.1 < startKey || endKey < e.1) = false := by
    rw [any_eq_false]
    intro e he
    obtain ⟨hstart, hend⟩ := hrange e he
    simpa using ⟨hstart, hend⟩
  simp [verifyRangeProof, hkeys, computeRangeRootFromProof]

/-- What range proofs against a trie should do: those that it generates are
accepted, and an accepted one lists the entries of its range. -/
def RangeProofsBind (B : DigestBytes Digest) (trie : MerklePatriciaTrie H) : Prop :=
  (∀ depth startKey endKey proof, trie.generateRangeProof depth startKey endKey = .ok proof →
    verifyRangeProof H B proof = .ok true) ∧
  ∀ proof, proof.rootHash = trie.rootHash → verifyRangeProof H B proof = .ok true →
    ∀ k v, (k, v) ∈ proof.includedKeys ↔
      proof.startKey ≤ k ∧ k ≤ proof.endKey ∧ trie.get k = .ok (some v)

/-- There is no trie against which range proofs do what they should. -/
theorem not_rangeProofsBind (B : DigestBytes Digest) (trie : MerklePatriciaTrie H)
    (hlookups : ∀ key, ∃ result, trie.get key = .ok result) : ¬ trie.RangeProofsBind B := by
  rintro ⟨-, hsound⟩
  obtain ⟨result, hresult⟩ := hlookups []
  rw [get, getRecursive, bind_eq_ok] at hresult
  obtain ⟨root, hroot, -⟩ := hresult
  have hhash : H.hash root = trie.rootHash := trie.nodes.addressed _ _ (okOr_eq_ok.mp hroot)
  -- the root is accepted for two different values of the empty key
  have hforged : ∀ value, trie.get [] = .ok (some value) := by
    intro value
    have haccepted : verifyRangeProof H B ⟨[], [], [([], value)], [root], H.hash root⟩ =
        .ok true := verifyRangeProof_root B root [] [] (by simp)
    exact ((hsound _ hhash haccepted [] value).mp (mem_singleton.mpr rfl)).2.2
  cases (hforged []).symm.trans (hforged [0])

theorem not_rangeProofsBind_three :
    ¬ ((new plain).run threeInserts).RangeProofsBind DigestBytes.plain :=
  not_rangeProofsBind DigestBytes.plain _ get_threeInserts

/-- Of a trie with three keys, the proof of the range of all three is rejected.
The root node alone is accepted for a range with one key, with the wrong value of
the key as well as without it. -/
theorem verifyRangeProof_rejects_and_forges :
    ∃ (trie : MerklePatriciaTrie plain) (generated forged omitting : RangeProof Bytes),
      (∀ key, ∃ result, trie.get key = .ok result) ∧
      (trie.generateRangeProof 2 [0x11] [0x31] = .ok generated ∧
        verifyRangeProof plain DigestBytes.plain generated = .ok false) ∧
      trie.get [0x11] = .ok (some [7]) ∧
      (forged.rootHash = trie.rootHash ∧ forged.startKey = [0x11] ∧ forged.endKey = [0x11] ∧
        forged.includedKeys = [([0x11], [9])] ∧
        verifyRangeProof plain DigestBytes.plain forged = .ok true) ∧
      (omitting.rootHash = trie.rootHash ∧ omitting.startKey = [0x11] ∧
        omitting.endKey = [0x11] ∧ omitting.includedKeys = [] ∧
        verifyRangeProof plain DigestBytes.plain omitting = .ok true) := by
  obtain ⟨children, hroot⟩ : ∃ children, ((new plain).run threeInserts).rootHash =
      plain.hash (.branch children none) := ⟨_, rfl⟩
  refine ⟨(new plain).run threeInserts, _,
    ⟨[0x11], [0x11], [([0x11], [9])], [.branch children none], _⟩,
    ⟨[0x11], [0x11], [], [.branch children none], _⟩,
    get_threeInserts, ⟨rfl, by decide +kernel⟩, rfl,
    ⟨hroot.symm, rfl, rfl, rfl, verifyRangeProof_root _ _ _ _ (by simp)⟩,
    ⟨hroot.symm, rfl, rfl, rfl, verifyRangeProof_root _ _ _ _ nofun⟩⟩

end MerklePatriciaTrie

end RustyCoin
