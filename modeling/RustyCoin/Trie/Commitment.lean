import RustyCoin.Trie.Proofs

/-!
# The root as a commitment

Every node is stored under its own hash, so without collisions two tries with the
same root cannot give different answers: both lookups go through the same nodes.
A proof does not bind in this way. Of the last node of a proof only a leaf is
compared with the claimed value, so the root node alone proves anything about a
trie whose root is not a leaf.
-/

namespace RustyCoin.MerklePatriciaTrie

open Outcome TrieHasher

variable {Digest : Type} {H : TrieHasher Digest}

section

variable {nodes nodes' : NodeStore H} {fuel : Nat} {h : Digest} {key : Bytes}
  {result result' : Option Bytes}

/-- Two stores do not hold different nodes under one hash. -/
theorem node_unique (hfree : H.CollisionFree) {node node' : TrieNode Digest}
    {e e' : TrieError Digest} (hnode : okOr (nodes.get h) e = .ok node)
    (hnode' : okOr (nodes'.get h) e' = .ok node') : node = node' :=
  hfree.hash_injective ((nodes.addressed h node (okOr_eq_ok.mp hnode)).trans
    (nodes'.addressed h node' (okOr_eq_ok.mp hnode')).symm)

/-- Two lookups that start at the same hash find the same. -/
theorem getRecursive_unique (hfree : H.CollisionFree)
    (hget : getRecursive nodes fuel h key = .ok result)
    (hget' : getRecursive nodes' fuel h key = .ok result') : result = result' := by
  induction fuel generalizing h key with
  | zero => cases hget
  | succ fuel ih =>
    rw [getRecursive, bind_eq_ok] at hget hget'
    obtain ⟨node, hnode, hget⟩ := hget
    obtain ⟨node', hnode', hget'⟩ := hget'
    obtain rfl := node_unique hfree hnode hnode'
    cases node with
    | empty => exact Except.ok.inj (hget.symm.trans hget')
    | leaf keyEnd value => exact Except.ok.inj (hget.symm.trans hget')
    | extension label nextHash =>
      dsimp only at hget hget'
      split at hget
      · rename_i hlabel
        rw [if_pos hlabel] at hget'
        exact ih hget hget'
      · rename_i hlabel
        rw [if_neg hlabel] at hget'
        exact Except.ok.inj (hget.symm.trans hget')
    | branch children value =>
      cases key with
      | nil => exact Except.ok.inj (hget.symm.trans hget')
      | cons nibble rest =>
        obtain ⟨index, hindex, hget⟩ := bind_eq_ok.mp hget
        obtain ⟨index', hindex', hget'⟩ := bind_eq_ok.mp hget'
        obtain rfl := Except.ok.inj (hindex.symm.trans hindex')
        cases hchild : children index with
        | none =>
          rw [hchild] at hget hget'
          exact Except.ok.inj (hget.symm.trans hget')
        | some childHash =>
          rw [hchild] at hget hget'
          exact ih hget hget'

variable [DecidableEq Digest]

/-- The root of a trie, reached by any insertions and deletions, commits to its
contents. -/
theorem root_commits (hfree : H.CollisionFree) (ops ops' : List TrieOp)
    (hroot : ((new H).run ops).rootHash = ((new H).run ops').rootHash) (key : Bytes)
    (result result' : Option Bytes) (hget : ((new H).run ops).get key = .ok result)
    (hget' : ((new H).run ops').get key = .ok result') : result = result' := by
  rw [get, hroot] at hget
  exact getRecursive_unique hfree hget hget'

/-- Inserting a key again and deleting an absent one do not change what the root
commits to. -/
theorem root_commits_leaf :
    ((new plain).run [.insert [0x11] [7]]).get [0x11] = .ok (some [7]) ∧
      ((new plain).run [.insert [0x11] [7], .insert [0x11] [7],
        .delete [0x21]]).get [0x11] = .ok (some [7]) ∧
      (some [7] : Option Bytes) = some [7] :=
  have hroot : ((new plain).run [.insert [0x11] [7]]).rootHash =
      ((new plain).run [.insert [0x11] [7], .insert [0x11] [7],
        .delete [0x21]]).rootHash := by decide
  ⟨rfl, rfl, root_commits plain_collisionFree _ _ hroot [0x11] (some [7]) (some [7]) rfl rfl⟩

end

variable [DecidableEq Digest] {expected : Option Bytes} {h root : Digest} {key : Bytes}

/-- Climbing ends at the hash it started from or at that of a node above it, and
no leaf is climbed over. -/
theorem climb_hash {above : List (TrieNode Digest)}
    (hclimb : climb H expected h key above = .ok root) :
    above = [] ∧ root = h ∨
      ∃ node, (∀ keyEnd value, node ≠ .leaf keyEnd value) ∧ root = H.hash node := by
  induction above generalizing h key with
  | nil =>
    cases hclimb
    exact .inl ⟨rfl, rfl⟩
  | cons node above ih =>
    have hnext : ∀ key, climb H expected (H.hash node) key above = .ok root →
        (∀ keyEnd value, node ≠ .leaf keyEnd value) →
        ∃ node, (∀ keyEnd value, node ≠ .leaf keyEnd value) ∧ root = H.hash node := by
      intro key hclimb hnode
      obtain ⟨-, hroot⟩ | hroot := ih hclimb
      · exact ⟨node, hnode, hroot⟩
      · exact hroot
    refine .inr ?_
    cases node with
    | empty => cases hclimb
    | leaf keyEnd value => cases hclimb
    | extension label nextHash =>
      rw [climb] at hclimb
      split at hclimb
      · cases hclimb
      · split at hclimb
        · cases hclimb
        · exact hnext _ hclimb (by simp)
    | branch children value =>
      cases key with
      | nil =>
        rw [climb] at hclimb
        split at hclimb
        · cases hclimb
        · exact hnext _ hclimb (by simp)
      | cons nibble rest =>
        rw [climb, bind_eq_ok] at hclimb
        obtain ⟨index, -, hclimb⟩ := hclimb
        split at hclimb
        · cases hclimb
        · exact hnext _ hclimb (by simp)

/-- A computed root that is the hash of a leaf comes from that leaf alone, with
its key and its value checked. -/
theorem computeRootFromProof_leaf (hfree : H.CollisionFree) {keyNibbles keyEnd value : Bytes}
    {proofNodes : List (TrieNode Digest)}
    (hroot : computeRootFromProof H keyNibbles expected proofNodes =
      .ok (H.hash (.leaf keyEnd value))) :
    keyEnd = keyNibbles ∧ expected = some value := by
  rw [computeRootFromProof] at hroot
  split at hroot
  · cases hroot
  · rename_i last above _
    obtain ⟨⟨⟩, hlast, hclimb⟩ := bind_eq_ok.mp hroot
    obtain ⟨-, hsame⟩ | ⟨node, hnode, hsame⟩ := climb_hash hclimb
    · rw [← hfree.hash_injective hsame, checkLast] at hlast
      split at hlast
      · cases hlast
      · split at hlast
        · cases hlast
        · exact ⟨not_not.mp ‹_›, not_not.mp ‹_›⟩
    · exact absurd (hfree.hash_injective hsame).symm (hnode keyEnd value)

/-- A node that is not a leaf proves any value for any key. -/
theorem verifyProof_root (node : TrieNode Digest)
    (hnode : ∀ keyEnd value, node ≠ .leaf keyEnd value) (key : Bytes) (expected : Option Bytes) :
    verifyProof H ⟨key, expected, [node], H.hash node⟩ expected = .ok true := by
  cases node with
  | leaf keyEnd value => exact absurd rfl (hnode keyEnd value)
  | _ => simp [verifyProof, computeRootFromProof, checkLast, climb]

/-- Proofs against a trie in which every lookup returns are sound exactly when
the root of the trie is a leaf. -/
theorem verifyProof_sound_iff (hfree : H.CollisionFree) (trie : MerklePatriciaTrie H)
    (hlookups : ∀ key, ∃ result, trie.get key = .ok result) :
    (∀ proof expected, proof.rootHash = trie.rootHash →
        verifyProof H proof expected = .ok true → trie.get proof.key = .ok expected) ↔
      ∃ keyEnd value, trie.nodes.get trie.rootHash = some (.leaf keyEnd value) := by
  constructor
  · intro hsound
    obtain ⟨result, hresult⟩ := hlookups []
    rw [get, getRecursive, bind_eq_ok] at hresult
    obtain ⟨node, hnode, -⟩ := hresult
    rw [okOr_eq_ok] at hnode
    by_contra hleaf
    have hnot : ∀ keyEnd value, node ≠ .leaf keyEnd value := by
      rintro keyEnd value rfl
      exact hleaf ⟨keyEnd, value, hnode⟩
    have hhash := trie.nodes.addressed _ _ hnode
    -- the root alone proves two different values for the empty key
    have hproves : ∀ expected, trie.get [] = .ok expected := fun expected =>
      hsound ⟨[], expected, [node], H.hash node⟩ expected hhash
        (verifyProof_root node hnot [] expected)
    cases (hproves none).symm.trans (hproves (some []))
  · rintro ⟨keyEnd, value, hleaf⟩ proof expected hroot hverify
    have hhash := trie.nodes.addressed _ _ hleaf
    rw [verifyProof, bind_eq_ok] at hverify
    obtain ⟨computed, hcomputed, hcheck⟩ := hverify
    rw [pure_eq_ok, Except.ok.injEq, decide_eq_true_eq] at hcheck
    rw [hcheck.1, hroot, ← hhash] at hcomputed
    obtain ⟨rfl, rfl⟩ := computeRootFromProof_leaf hfree hcomputed
    rw [get, getRecursive, hleaf]
    simp [okOr]

theorem verifyProof_sound_iff_leaf :
    ((new plain).run [.insert [0x11] [7]]).get [0x11] = .ok (some [7]) ∧
      ∀ proof expected,
        proof.rootHash = ((new plain).run [.insert [0x11] [7]]).rootHash →
        verifyProof plain proof expected = .ok true →
          ((new plain).run [.insert [0x11] [7]]).get proof.key = .ok expected :=
  ⟨rfl, (verifyProof_sound_iff plain_collisionFree _ fun _ => ⟨_, rfl⟩).mpr ⟨[1, 1], [7], rfl⟩⟩

/-- The root of a trie with three keys proves that a key is absent that is
present, and that it has a value that it does not have. -/
theorem root_proves_anything :
    ∃ (trie : MerklePatriciaTrie plain) (absent forged : MerkleProof Bytes),
      (∀ key, ∃ result, trie.get key = .ok result) ∧ trie.get [0x11] = .ok (some [7]) ∧
        (absent.key = [0x11] ∧ absent.rootHash = trie.rootHash ∧
          verifyProof plain absent none = .ok true) ∧
        (forged.key = [0x11] ∧ forged.rootHash = trie.rootHash ∧
          verifyProof plain forged (some [9]) = .ok true) := by
  obtain ⟨children, hroot⟩ : ∃ children, ((new plain).run threeInserts).rootHash =
      plain.hash (.branch children none) := ⟨_, rfl⟩
  refine ⟨(new plain).run threeInserts,
    ⟨[0x11], none, [.branch children none], plain.hash (.branch children none)⟩,
    ⟨[0x11], some [9], [.branch children none], plain.hash (.branch children none)⟩,
    get_threeInserts, rfl,
    ⟨rfl, hroot.symm, verifyProof_root (.branch children none) nofun _ _⟩,
    ⟨rfl, hroot.symm, verifyProof_root (.branch children none) nofun _ _⟩⟩

end RustyCoin.MerklePatriciaTrie
