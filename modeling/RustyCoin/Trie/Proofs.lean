import RustyCoin.Trie.Runs

/-!
# Merkle proofs

The prover goes down from the root and collects the nodes it passes. The verifier
starts at the last of them and climbs, but reads the key from its front while it
does so. A proof is therefore accepted exactly when the steps of the path, the
lowest first, can be read off the front of the key, and of the last node only a
leaf is compared with the key and the value.
-/

namespace RustyCoin

namespace TrieTree

open RadixTree

/-- The node refers to the subtree under the given part of a key. -/
def Leads : TrieTree → List (Fin 16) → TrieTree → Prop
  | .ext label next, step, below => step = label ∧ next = below
  | .branch children _, step, below =>
    ∃ a, step = [a] ∧ children a = below ∧ below.isEmpty = false
  | _, _, _ => False

/-- The steps of a path, given from its end, stand at the front of the key in
this order. -/
def ReadsUpward : List TrieTree → List (Fin 16) → Prop
  | below :: node :: above, k =>
    ∃ step rest, k = step ++ rest ∧ Leads node step below ∧ ReadsUpward (node :: above) rest
  | _, _ => True

/-- The tree is the leaf of the key, or the way to the key does not end at a leaf
and its steps can be read upward from the front of the key. -/
def ProvesBack (t : TrieTree) (k : List (Fin 16)) : Prop :=
  (∃ v, t = leaf k v) ∨
    (∀ key v, (t.walk k).getLast? ≠ some (leaf key v)) ∧ ReadsUpward (t.walk k).reverse k

/-- A path, given from its end, whose steps have a total length of at most `n`. -/
def Ascends : List TrieTree → Nat → Prop
  | below :: node :: above, n =>
    ∃ step m, n = step.length + m ∧ Leads node step below ∧ Ascends (node :: above) m
  | _, _ => True

variable {t : TrieTree} {k : List (Fin 16)}

theorem getLast?_reverse_walk (t : TrieTree) (k : List (Fin 16)) :
    (t.walk k).reverse.getLast? = some t := by
  rw [List.getLast?_reverse, head?_walk]

/-- A node can be put on top of a path. -/
theorem Ascends.snoc {path : List TrieTree} {n : Nat} (h : Ascends path n)
    {top below : TrieTree} (hlast : path.getLast? = some below) {step : List (Fin 16)}
    (hleads : Leads top step below) : Ascends (path ++ [top]) (n + step.length) := by
  induction path generalizing n with
  | nil => cases hlast
  | cons s path ih =>
    cases path with
    | nil =>
      cases hlast
      exact ⟨step, n, Nat.add_comm _ _, hleads, trivial⟩
    | cons node above =>
      obtain ⟨step', m, rfl, hstep, habove⟩ := h
      rw [List.getLast?_cons_cons] at hlast
      exact ⟨step', m + step.length, Nat.add_assoc _ _ _, hstep, ih habove hlast⟩

/-- The way to a key is a path that is not longer than the key. -/
theorem ascends_walk (t : TrieTree) (k : List (Fin 16)) : Ascends (t.walk k).reverse k.length := by
  induction t, k using walk_induction with
  | empty | leaf | value => trivial
  | along label next r ih =>
    have hleads : Leads (ext label next) label next := ⟨rfl, rfl⟩
    rw [walk_ext, List.reverse_cons, List.length_append, Nat.add_comm]
    exact ih.snoc (getLast?_reverse_walk next r) hleads
  | off label next k hlabel =>
    rw [walk_ext_of_not next hlabel]
    trivial
  | child children value a r ih =>
    cases ha : (children a).isEmpty with
    | true =>
      rw [walk_branch_empty value r ha]
      trivial
    | false =>
      have hleads : Leads (branch children value) [a] (children a) := ⟨a, rfl, rfl, ha⟩
      rw [walk_branch_cons value r ha, List.reverse_cons]
      exact ih.snoc (getLast?_reverse_walk _ r) hleads

theorem getLast?_cons_walk (s t : TrieTree) (k : List (Fin 16)) :
    (s :: t.walk k).getLast? = (t.walk k).getLast? := by
  cases h : t.walk k with
  | nil => simpa [h] using head?_walk t k
  | cons u us => exact List.getLast?_cons_cons

/-- A leaf at the end of the way decides the lookup; unless it is the whole tree,
a part of the key has been used up above it. -/
theorem get_of_last_leaf (hwf : t.WellFormed) {key : List (Fin 16)} {v : Bytes}
    (h : (t.walk k).getLast? = some (leaf key v)) :
    ∃ r, t.get k = (leaf key v).get r ∧ (t = leaf key v ∧ r = k ∨ r.length < k.length) := by
  induction t, k using walk_induction with
  | empty | value => cases h
  | leaf key' v' k =>
    cases h
    exact ⟨k, rfl, .inl ⟨rfl, rfl⟩⟩
  | along label next r ih =>
    rw [walk_ext, getLast?_cons_walk] at h
    obtain ⟨r', hget, hr'⟩ := ih hwf.2.2 h
    have hpos := List.length_pos_iff.mpr hwf.1
    refine ⟨r', by rw [get_ext_append, hget], .inr ?_⟩
    rw [List.length_append]
    obtain ⟨-, rfl⟩ | hr' := hr' <;> omega
  | off label next k hlabel =>
    rw [walk_ext_of_not next hlabel] at h
    cases h
  | child children value a r ih =>
    cases ha : (children a).isEmpty with
    | true =>
      rw [walk_branch_empty value r ha] at h
      cases h
    | false =>
      rw [walk_branch_cons value r ha, getLast?_cons_walk] at h
      obtain ⟨r', hget, hr'⟩ := ih (hwf.2 a) h
      refine ⟨r', hget, .inr ?_⟩
      rw [List.length_cons]
      obtain ⟨-, rfl⟩ | hr' := hr' <;> omega

end TrieTree

namespace MerklePatriciaTrie

open Outcome TrieTree RadixTree

variable {Digest : Type} [DecidableEq Digest] {H : TrieHasher Digest}

section

variable {expected : Option Bytes} {above : List (TrieNode Digest)} {k r : List (Fin 16)}

theorem climb_ext (label r : List (Fin 16)) (next : TrieTree) :
    climb H expected (digest H next) ((label ++ r).map nibbleByte)
        (toNode H (ext label next) :: above) =
      climb H expected (digest H (ext label next)) (r.map nibbleByte) above := by
  have hlabel : label.map nibbleByte <+: (label ++ r).map nibbleByte :=
    prefix_map_nibbleByte.mpr (List.prefix_append _ _)
  have hnext : ¬ H.hash (toNode H next) ≠ digest H next := not_not_intro rfl
  rw [toNode, climb, if_neg (not_not_intro hlabel), if_neg hnext, drop_map_nibbleByte]
  rfl

theorem climb_ext_of_not {label : List (Fin 16)} (next : TrieTree) (hlabel : ¬ label <+: k)
    (h : Digest) :
    climb H expected h (k.map nibbleByte) (toNode H (ext label next) :: above) =
      fail (.trieError "Extension key mismatch") := by
  rw [toNode, climb, if_pos]
  rwa [prefix_map_nibbleByte]

theorem climb_branch (hfree : H.CollisionFree) (children : Fin 16 → TrieTree)
    (value : Option Bytes) {below : TrieTree} (hbelow : below.isEmpty = false) (b : Fin 16) :
    climb H expected (digest H below) ((b :: r).map nibbleByte)
        (toNode H (branch children value) :: above) =
      open Classical in
      if children b = below then
        climb H expected (digest H (branch children value)) (r.map nibbleByte) above
      else fail (.trieError "Branch child mismatch") := by
  have hslot : slots H children b ≠ some (digest H below) ↔ children b ≠ below := by
    rw [not_iff_not, slots_eq_some]
    constructor
    · rintro ⟨-, h⟩
      exact digest_injective hfree h.symm
    · rintro rfl
      exact ⟨hbelow, rfl⟩
  rw [toNode_branch_slots, List.map_cons, climb, childIndex_nibbleByte, ok_bind]
  by_cases hchild : children b = below
  · rw [if_neg (fun h => hslot.mp h hchild), if_pos hchild]
    rfl
  · rw [if_pos (hslot.mpr hchild), if_neg hchild]

/-- The verifier gets from the end of a path to its root exactly when it can read
the steps from the front of the key. -/
theorem climb_eq_ok_iff (hfree : H.CollisionFree) {below : TrieTree} {above : List TrieTree}
    (hpath : Ascends (below :: above) k.length) (h : Digest) :
    climb H expected (digest H below) (k.map nibbleByte) (above.map (toNode H)) = .ok h ↔
      ReadsUpward (below :: above) k ∧
        ∃ top, (below :: above).getLast? = some top ∧ h = digest H top := by
  induction above generalizing below k with
  | nil => simp [climb, ReadsUpward, eq_comm]
  | cons node above ih =>
    obtain ⟨step, m, hlen, hleads, habove⟩ := hpath
    rw [List.getLast?_cons_cons, List.map_cons]
    cases node with
    | empty => cases hleads
    | leaf key value => cases hleads
    | ext label next =>
      obtain ⟨rfl, rfl⟩ := hleads
      by_cases hlabel : step <+: k
      · obtain ⟨r, rfl⟩ := hlabel
        rw [List.length_append, Nat.add_left_cancel_iff] at hlen
        subst hlen
        rw [climb_ext, ih habove]
        refine and_congr_left fun _ => ⟨fun h => ⟨step, r, rfl, ⟨rfl, rfl⟩, h⟩, ?_⟩
        rintro ⟨step', rest, hsplit, ⟨rfl, -⟩, h⟩
        rwa [List.append_cancel_left hsplit]
      · rw [climb_ext_of_not next hlabel]
        refine ⟨fun h => absurd h (fail_ne_ok _ _), ?_⟩
        rintro ⟨⟨step', rest, rfl, ⟨rfl, -⟩, -⟩, -⟩
        exact absurd (List.prefix_append _ _) hlabel
    | branch children value =>
      obtain ⟨a, rfl, rfl, ha⟩ := hleads
      cases k with
      | nil =>
        rw [List.length_nil, List.length_singleton] at hlen
        omega
      | cons b r =>
        rw [List.length_cons, List.length_singleton, Nat.add_comm, Nat.add_left_cancel_iff] at hlen
        subst hlen
        rw [climb_branch hfree children value ha]
        split
        · rename_i hchild
          rw [ih habove]
          refine and_congr_left fun _ =>
            ⟨fun h => ⟨[b], r, rfl, ⟨b, rfl, hchild, ha⟩, h⟩, ?_⟩
          rintro ⟨_, rest, hsplit, ⟨c, rfl, -, -⟩, h⟩
          rw [List.singleton_append, List.cons.injEq] at hsplit
          rwa [hsplit.2]
        · rename_i hchild
          refine ⟨fun h => absurd h (fail_ne_ok _ _), ?_⟩
          rintro ⟨⟨_, rest, hsplit, ⟨c, rfl, hc, -⟩, -⟩, -⟩
          rw [List.singleton_append, List.cons.injEq] at hsplit
          rw [← hsplit.1] at hc
          exact absurd hc hchild

omit [DecidableEq Digest] in
theorem checkLast_eq_ok_iff (last : TrieTree) :
    checkLast (k.map nibbleByte) expected (toNode H last) = .ok () ↔
      ∀ key v, last = leaf key v → key = k ∧ expected = some v := by
  cases last with
  | leaf key value =>
    simp only [toNode, checkLast, ne_eq, map_nibbleByte_injective.eq_iff]
    constructor
    · intro h key' v' hleaf
      obtain ⟨rfl, rfl⟩ := RadixTree.leaf.inj hleaf
      split at h
      · cases h
      · split at h
        · cases h
        · exact ⟨not_not.mp ‹_›, not_not.mp ‹_›⟩
    · intro h
      obtain ⟨hkey, hvalue⟩ := h key value rfl
      rw [if_neg (not_not_intro hkey), if_neg (not_not_intro hvalue)]
  | _ => simp [toNode, checkLast]

/-- The verifier computes the root from the nodes on the way to the key. -/
theorem computeRootFromProof_walk_iff (hfree : H.CollisionFree) {t : TrieTree}
    (hwf : t.WellFormed) (h : Digest) :
    computeRootFromProof H (k.map nibbleByte) (t.get k) ((t.walk k).map (toNode H)) = .ok h ↔
      ProvesBack t k ∧ h = digest H t := by
  have htop := getLast?_reverse_walk t k
  have hpath := ascends_walk t k
  have hlast : (t.walk k).reverse.head? = (t.walk k).getLast? := by simp
  have hleaf : ∀ key v, (t.walk k).getLast? = some (leaf key v) → t.get k = some v → key = k →
      t = leaf k v := by
    rintro key v hlast hget rfl
    obtain ⟨r, hr, ⟨rfl, -⟩ | hlen⟩ := get_of_last_leaf hwf hlast
    · rfl
    · rw [hr, get_leaf] at hget
      split at hget
      · rename_i heq
        rw [heq] at hlen
        omega
      · cases hget
  rw [ProvesBack, computeRootFromProof, ← List.map_reverse]
  cases hwalk : (t.walk k).reverse with
  | nil =>
    rw [hwalk] at htop
    cases htop
  | cons last above =>
    rw [hwalk] at htop hpath hlast
    have hclimb : climb H (t.get k) (H.hash (toNode H last)) (k.map nibbleByte)
        (above.map (toNode H)) = .ok h ↔ ReadsUpward (last :: above) k ∧
          ∃ top, (last :: above).getLast? = some top ∧ h = digest H top :=
      climb_eq_ok_iff hfree hpath h
    have hboth : (do
        checkLast (k.map nibbleByte) (t.get k) (toNode H last)
        climb H (t.get k) (H.hash (toNode H last)) (k.map nibbleByte) (above.map (toNode H))) =
          .ok h ↔ (∀ key v, last = leaf key v → key = k ∧ t.get k = some v) ∧
            ReadsUpward (last :: above) k ∧ h = digest H t := by
      rw [bind_eq_ok, ← checkLast_eq_ok_iff (H := H)]
      simp only [hclimb, htop, Option.some.injEq, exists_eq_left']
      constructor
      · rintro ⟨⟨⟩, h⟩
        exact h
      · intro h
        exact ⟨(), h⟩
    rw [List.map_cons, hboth, ← hlast, List.head?_cons]
    constructor
    · rintro ⟨hcheck, hreads, rfl⟩
      refine ⟨?_, rfl⟩
      by_cases hend : ∃ key v, last = leaf key v
      · obtain ⟨key, v, rfl⟩ := hend
        obtain ⟨hkey, hget⟩ := hcheck key v rfl
        exact .inl ⟨v, hleaf key v hlast.symm hget hkey⟩
      · refine .inr ⟨fun key v h => hend ⟨key, v, Option.some.inj h⟩, hreads⟩
    · rintro ⟨⟨v, rfl⟩ | ⟨hend, hreads⟩, rfl⟩
      · cases hwalk
        refine ⟨?_, trivial, rfl⟩
        rintro key w ⟨⟩
        exact ⟨rfl, get_leaf_self k v⟩
      · exact ⟨fun key v h => absurd (congrArg some h) (hend key v), hreads, rfl⟩

end

section

variable {nodes : NodeStore H} {fuel : Nat} {h : Digest} {key : Bytes} {value : Option Bytes}
  {proofNodes : List (TrieNode Digest)}

variable (hfree : H.CollisionFree)

include hfree

omit [DecidableEq Digest] in
/-- Under the hash of a tree only its own top node is found. -/
theorem node_of_okOr {t : TrieTree} {node : TrieNode Digest}
    {e : TrieError Digest} (hnode : okOr (nodes.get (digest H t)) e = .ok node) :
    node = toNode H t :=
  hfree.hash_injective (nodes.addressed _ _ (okOr_eq_ok.mp hnode))

omit hfree in
omit [DecidableEq Digest] in
/-- The prover returns the value that a lookup finds. -/
theorem getRecursive_of_collect
    (hrun : collectProofNodes nodes fuel h key = .ok (value, proofNodes)) :
    getRecursive nodes fuel h key = .ok value := by
  induction fuel generalizing h key value proofNodes with
  | zero => cases hrun
  | succ fuel ih =>
    rw [collectProofNodes, bind_eq_ok] at hrun
    obtain ⟨node, hnode, hrun⟩ := hrun
    rw [getRecursive, hnode, ok_bind]
    cases node with
    | empty =>
      cases hrun
      rfl
    | leaf keyEnd v =>
      cases hrun
      rfl
    | extension label nextHash =>
      dsimp only at hrun ⊢
      split at hrun
      · rename_i hlabel
        obtain ⟨⟨v, below⟩, hnext, hrun⟩ := bind_eq_ok.mp hrun
        cases hrun
        rw [if_pos hlabel]
        exact ih hnext
      · rename_i hlabel
        cases hrun
        rw [if_neg hlabel]
        rfl
    | branch children v =>
      cases key with
      | nil =>
        cases hrun
        rfl
      | cons nibble rest =>
        obtain ⟨index, hindex, hrun⟩ := bind_eq_ok.mp hrun
        dsimp only
        rw [hindex, ok_bind]
        split at hrun
        · obtain ⟨⟨v, below⟩, hnext, hrun⟩ := bind_eq_ok.mp hrun
          cases hrun
          exact ih hnext
        · cases hrun
          rfl

omit [DecidableEq Digest] in
/-- A prover that returns has found the node it started at. -/
theorem collectProofNodes_node {t : TrieTree}
    (hrun : collectProofNodes nodes fuel (digest H t) key = .ok (value, proofNodes)) :
    nodes.Has t ∧ ∃ n, fuel = n + 1 := by
  cases fuel with
  | zero => cases hrun
  | succ n =>
    obtain ⟨node, hnode, -⟩ := bind_eq_ok.mp hrun
    refine ⟨?_, n, rfl⟩
    rw [NodeStore.Has, ← node_of_okOr hfree hnode]
    exact okOr_eq_ok.mp hnode

omit [DecidableEq Digest] in
/-- The prover collects the nodes on the way to the key. -/
theorem collectProofNodes_walk {t : TrieTree} {k : List (Fin 16)}
    (hrun : collectProofNodes nodes fuel (digest H t) (k.map nibbleByte) =
      .ok (value, proofNodes)) :
    value = t.get k ∧ proofNodes = (t.walk k).map (toNode H) := by
  obtain ⟨htop, n, rfl⟩ := collectProofNodes_node hfree hrun
  rw [collectProofNodes, bind_get_of_has htop] at hrun
  induction t, k using walk_induction generalizing n value proofNodes with
  | empty | value =>
    cases hrun
    exact ⟨rfl, rfl⟩
  | leaf key v k =>
    cases hrun
    refine ⟨?_, rfl⟩
    simp only [get_leaf, map_nibbleByte_injective.eq_iff]
  | along label next r ih =>
    simp only [toNode_ext, prefix_map_nibbleByte, List.prefix_append, if_true,
      drop_map_nibbleByte] at hrun
    obtain ⟨⟨v, below⟩, hnext, hrun⟩ := bind_eq_ok.mp hrun
    cases hrun
    obtain ⟨hnode, n, rfl⟩ := collectProofNodes_node hfree hnext
    rw [collectProofNodes, bind_get_of_has hnode] at hnext
    obtain ⟨rfl, rfl⟩ := ih hnode n hnext
    rw [get_ext_append, walk_ext]
    exact ⟨rfl, rfl⟩
  | off label next k hlabel =>
    simp only [toNode, prefix_map_nibbleByte, hlabel, if_false] at hrun
    cases hrun
    rw [get_ext_of_not next hlabel, walk_ext_of_not next hlabel]
    exact ⟨rfl, rfl⟩
  | child children v a r ih =>
    rw [List.map_cons, toNode_branch] at hrun
    dsimp only at hrun
    rw [childIndex_nibbleByte, ok_bind] at hrun
    cases ha : (children a).isEmpty with
    | true =>
      simp only [ha, if_true] at hrun
      cases hrun
      rw [get_branch_cons, eq_empty_of_isEmpty ha, walk_branch_empty v r ha]
      exact ⟨rfl, rfl⟩
    | false =>
      simp only [ha, Bool.false_eq_true, if_false] at hrun
      obtain ⟨⟨w, below⟩, hnext, hrun⟩ := bind_eq_ok.mp hrun
      cases hrun
      obtain ⟨hnode, n, rfl⟩ := collectProofNodes_node hfree hnext
      rw [collectProofNodes, bind_get_of_has hnode] at hnext
      obtain ⟨rfl, rfl⟩ := ih hnode n hnext
      rw [get_branch_cons, walk_branch_cons v r ha]
      exact ⟨rfl, rfl⟩

/-- An insertion moves the root to the hash of a tree again, whatever is missing
in the store. -/
theorem insert_root {trie : MerklePatriciaTrie H} {t : TrieTree}
    (hroot : trie.rootHash = digest H t) (hwf : t.WellFormed) (key value : Bytes) :
    ∃ t', (trie.insert key value).2.rootHash = digest H t' ∧ t'.WellFormed := by
  obtain ⟨-, -, hrun⟩ | ⟨t', nodes', -, -, hins, hrun⟩ | ⟨-, hrun⟩ :=
    insert_cases hroot hwf hfree key value
  · rw [hrun]
    exact ⟨t, hroot, hwf⟩
  · rw [hrun]
    exact ⟨t', rfl, wellFormed_insert hwf hins⟩
  · rw [hrun]
    exact ⟨t, hroot, hwf⟩

/-- The trie after insertions that may fail. -/
def afterInserts (H : TrieHasher Digest) (entries : List (Bytes × Bytes)) : MerklePatriciaTrie H :=
  (new H).run (entries.map fun e => .insert e.1 e.2)

theorem afterInserts_root (entries : List (Bytes × Bytes)) :
    ∃ t, (afterInserts H entries).rootHash = digest H t ∧ t.WellFormed := by
  suffices h : ∀ (trie : MerklePatriciaTrie H) (t : TrieTree), trie.rootHash = digest H t →
      t.WellFormed → ∃ t', (trie.run (entries.map fun e => .insert e.1 e.2)).rootHash =
        digest H t' ∧ t'.WellFormed from h (new H) .empty rfl trivial
  induction entries with
  | nil => exact fun trie t hroot hwf => ⟨t, hroot, hwf⟩
  | cons entry entries ih =>
    intro trie t hroot hwf
    obtain ⟨t', hroot', hwf'⟩ := insert_root hfree hroot hwf entry.1 entry.2
    exact ih _ t' hroot' hwf'

omit hfree

/-- The way to the key can be proved back from the front of the key. -/
def ProvesBack (trie : MerklePatriciaTrie H) (key : Bytes) : Prop :=
  ∃ t, trie.rootHash = digest H t ∧ TrieTree.ProvesBack t (nibbles key)

/-- The proof of a key verifies with the value that a lookup finds, exactly when
the tree is the key's leaf or the way to the key ends above the leaves and can be
read upward. -/
theorem generateProof_verifies_iff (hfree : H.CollisionFree) (entries : List (Bytes × Bytes))
    (key : Bytes) (proof : MerkleProof Digest)
    (hproof : (afterInserts H entries).generateProof key = .ok proof) :
    ((afterInserts H entries).get key >>= verifyProof H proof) = .ok true ↔
      (afterInserts H entries).ProvesBack key := by
  obtain ⟨t, hroot, hwf⟩ := afterInserts_root hfree entries
  rw [generateProof, bind_eq_ok] at hproof
  obtain ⟨⟨value, proofNodes⟩, hcollect, hproof⟩ := hproof
  cases hproof
  have hget : (afterInserts H entries).get key = .ok value := getRecursive_of_collect hcollect
  rw [hroot, bytesToNibbles_eq] at hcollect
  obtain ⟨rfl, rfl⟩ := collectProofNodes_walk hfree hcollect
  rw [hget, ok_bind, verifyProof, bind_eq_ok, bytesToNibbles_eq]
  simp only [computeRootFromProof_walk_iff hfree hwf]
  constructor
  · rintro ⟨h, ⟨hproves, -⟩, -⟩
    exact ⟨t, hroot, hproves⟩
  · rintro ⟨u, hu, hproves⟩
    obtain rfl := digest_injective hfree (hu.symm.trans hroot)
    exact ⟨_, ⟨hproves, rfl⟩, by simp [hroot]⟩

/-- The proof that a third key is not there verifies. -/
theorem generateProof_verifies_iff_absent :
    ∃ proof, (afterInserts TrieHasher.plain [([0x11], [7]), ([0x21], [8])]).generateProof [0x31] =
        .ok proof ∧
      ((afterInserts TrieHasher.plain [([0x11], [7]), ([0x21], [8])]).get [0x31] >>=
        verifyProof TrieHasher.plain proof) = .ok true := by
  refine ⟨_, rfl, (generateProof_verifies_iff TrieHasher.plain_collisionFree
    [([0x11], [7]), ([0x21], [8])] [0x31] _ rfl).mpr
    ⟨fork 1 [1] [7] 2 [1] [8], rfl, .inr ⟨?_, ?_⟩⟩⟩
  · intro key v h
    cases h
  · trivial

/-- The key of a leaf below a branch is compared with the whole key, so the proof
of one of two keys does not verify. -/
theorem generateProof_of_two_keys_fails :
    ∃ proof, (afterInserts TrieHasher.plain [([0x11], [7]), ([0x21], [8])]).generateProof [0x11] =
        .ok proof ∧
      (afterInserts TrieHasher.plain [([0x11], [7]), ([0x21], [8])]).get [0x11] = .ok (some [7]) ∧
      verifyProof TrieHasher.plain proof (some [7]) = fail (.trieError "Key mismatch in leaf") :=
  ⟨_, rfl, rfl, rfl⟩

end

end MerklePatriciaTrie

end RustyCoin
