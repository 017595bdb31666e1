import RustyCoin.Trie.Tree

/-!
# Insertion into a stored trie

If the nodes on the way to a key are stored, inserting it gives the hash of the
tree after insertion, whatever else is missing. What happens to the store is
said by `Inserted`: the nodes that were passed are gone afterwards, every other
node stays, and the nodes of the new tree that were not passed are there. A node
that was passed is taken out by its hash, so a second occurrence of the same
subtree goes with it.
-/

namespace RustyCoin.MerklePatriciaTrie

open Outcome TrieTree RadixTree NodeStore List Nat

variable {Digest : Type} [DecidableEq Digest] {H : TrieHasher Digest}

/-- What inserting a key into the stored tree `t` does to a store, when `t'` is
the tree after it. -/
structure Inserted (nodes nodes' : NodeStore H) (t : TrieTree) (k : List (Fin 16))
    (t' : TrieTree) : Prop where
  same : t' = t → nodes' = nodes
  kept : ∀ s, nodes.Has s → ¬ Passed t k s → nodes'.Has s
  made : nodes.HasAll t → ∀ s, Occurs s t' → s.isEmpty = false → ¬ Passed t k s → nodes'.Has s
  gone : t' ≠ t → ∀ s, Passed t k s → ¬ nodes'.Has s

theorem commonPrefix_map (a b : List (Fin 16)) :
    commonPrefix (a.map nibbleByte) (b.map nibbleByte) = (commonLabel a b).map nibbleByte := by
  induction a generalizing b with
  | nil => rfl
  | cons x a ih =>
    cases b with
    | nil => rfl
    | cons y b =>
      by_cases hxy : x = y
      · simp [commonPrefix, commonLabel, hxy, ih]
      · simp [commonPrefix, commonLabel, hxy, nibbleByte_injective.ne hxy]

theorem commonPrefix_length_eq_iff (a b : Bytes) :
    (commonPrefix a b).length = a.length ↔ a <+: b := by
  induction a generalizing b with
  | nil => simp [commonPrefix]
  | cons x a ih =>
    cases b with
    | nil => simp [commonPrefix]
    | cons y b =>
      by_cases hxy : x = y
      · simp [commonPrefix, hxy, ih]
      · simp [commonPrefix, hxy]

/-- Two different keys do not share their whole length. -/
theorem commonPrefix_of_ne {a b : Bytes} (h : a ≠ b) :
    ¬ ((commonPrefix a b).length = a.length ∧ (commonPrefix a b).length = b.length) := by
  rintro ⟨ha, hb⟩
  have hab := (commonPrefix_length_eq_iff a b).mp ha
  exact h (hab.eq_of_length (by omega))

section

variable {nodes : NodeStore H} {fuel : Nat} {a b : Fin 16} {r₁ r₂ : List (Fin 16)} {v₁ v₂ : Bytes}

omit [DecidableEq Digest] in
theorem toNode_fork (hab : a ≠ b) :
    toNode H (fork a r₁ v₁ b r₂ v₂) =
      .branch
        (Function.update (Function.update (fun _ => none) a (some (digest H (leaf r₁ v₁)))) b
          (some (digest H (leaf r₂ v₂))))
        none := by
  rw [fork, toNode_branch]
  congr 1
  funext n
  rw [fork_children hab]
  by_cases hb : n = b
  · subst hb
    simp [Ne.symm hab, digest]
  · rw [Function.update_of_ne hb]
    by_cases ha : n = a
    · subst ha
      simp [digest]
    · simp [ha, hb]

theorem splitLeaf_fork (hab : a ≠ b) :
    splitLeaf (fuel + 1) nodes ((a :: r₁).map nibbleByte) v₁ ((b :: r₂).map nibbleByte) v₂ =
      .ok (toNode H (fork a r₁ v₁ b r₂ v₂),
        (nodes.insert (toNode H (leaf r₁ v₁))).insert (toNode H (leaf r₂ v₂))) := by
  have hcommon : commonPrefix (nibbleByte a :: r₁.map nibbleByte)
      (nibbleByte b :: r₂.map nibbleByte) = [] := if_neg (nibbleByte_injective.ne hab)
  rw [toNode_fork hab, map_cons, map_cons, splitLeaf]
  simp [hcommon, toNode, digest]

theorem splitLeaf_ext (hab : a ≠ b) {p : List (Fin 16)} (hp : p ≠ []) :
    splitLeaf (fuel + 2) nodes ((p ++ a :: r₁).map nibbleByte) v₁
        ((p ++ b :: r₂).map nibbleByte) v₂ =
      .ok (toNode H (ext p (fork a r₁ v₁ b r₂ v₂)),
        ((nodes.insert (toNode H (leaf r₁ v₁))).insert (toNode H (leaf r₂ v₂))).insert
          (toNode H (fork a r₁ v₁ b r₂ v₂))) := by
  have hcommon : commonPrefix ((p ++ a :: r₁).map nibbleByte) ((p ++ b :: r₂).map nibbleByte) =
      p.map nibbleByte := by
    rw [commonPrefix_map, commonLabel_append, commonLabel_of_ne hab, append_nil]
  unfold splitLeaf
  simp only [hcommon, map_eq_nil_iff, hp, if_false, drop_map_nibbleByte, splitLeaf_fork hab,
    ok_bind, pure_eq_ok]
  rfl

/-- The two leaves and, below an extension, their fork are stored. -/
theorem splitLeaf_stored (hfree : H.CollisionFree) (nodes : NodeStore H) (fuel : Nat)
    (v₁ v₂ : Bytes) (hab : a ≠ b) (p : List (Fin 16)) :
    ∃ nodes', splitLeaf (fuel + 2) nodes ((p ++ a :: r₁).map nibbleByte) v₁
        ((p ++ b :: r₂).map nibbleByte) v₂ =
          .ok (toNode H (extend p (fork a r₁ v₁ b r₂ v₂)), nodes') ∧
      (∀ s, nodes.Has s → nodes'.Has s) ∧
      ∀ s, Occurs s (extend p (fork a r₁ v₁ b r₂ v₂)) →
        s ≠ extend p (fork a r₁ v₁ b r₂ v₂) → nodes'.Has s := by
  -- what occurs in the fork are its two leaves
  have hleaves : ∀ s, Occurs s (fork a r₁ v₁ b r₂ v₂) →
      s = fork a r₁ v₁ b r₂ v₂ ∨ s = leaf r₁ v₁ ∨ s = leaf r₂ v₂ := by
    rintro s (hs | ⟨n, hne, hs⟩)
    · exact .inl hs
    · rw [fork_children hab] at hne hs
      split at hs
      · exact .inr (.inl hs)
      · split at hs
        · exact .inr (.inr hs)
        · rename_i h₁ h₂
          simp [h₁, h₂] at hne
  by_cases hp : p = []
  · subst hp
    refine ⟨_, splitLeaf_fork hab, fun s hs => ?_, fun s hs hne => ?_⟩
    · rw [has_insert hfree, has_insert hfree]
      exact .inr (.inr hs)
    · rw [has_insert hfree, has_insert hfree]
      obtain hs | hs | hs := hleaves s hs
      · exact absurd hs hne
      · exact .inr (.inl hs)
      · exact .inl hs
  · have hext : extend p (fork a r₁ v₁ b r₂ v₂) = ext p (fork a r₁ v₁ b r₂ v₂) := if_neg hp
    rw [hext]
    refine ⟨_, splitLeaf_ext hab hp, fun s hs => ?_, fun s hs hne => ?_⟩
    · rw [has_insert hfree, has_insert hfree, has_insert hfree]
      exact .inr (.inr (.inr hs))
    · rw [has_insert hfree, has_insert hfree, has_insert hfree]
      obtain hs | hs := hs
      · exact absurd hs hne
      · obtain hs | hs | hs := hleaves s hs
        · exact .inl hs
        · exact .inr (.inr (.inl hs))
        · exact .inr (.inl hs)

theorem splitLeaf_nil_left (key : Bytes) :
    splitLeaf (fuel + 1) nodes [] v₁ key v₂ = .error .panic := by
  unfold splitLeaf
  rfl

theorem splitLeaf_nil_right (key : Bytes) :
    splitLeaf (fuel + 1) nodes key v₁ [] v₂ = .error .panic := by
  unfold splitLeaf
  cases key <;> rfl

/-- Splitting aborts where one key ends inside the other. -/
theorem splitLeaf_panics {k₁ k₂ : List (Fin 16)} (h : k₁ <+: k₂ ∨ k₂ <+: k₁) :
    splitLeaf (k₁.length + 1) nodes (k₁.map nibbleByte) v₁ (k₂.map nibbleByte) v₂ =
      .error .panic := by
  by_cases h₁ : k₁ = []
  · rw [h₁]
    exact splitLeaf_nil_left _
  by_cases h₂ : k₂ = []
  · rw [h₂]
    exact splitLeaf_nil_right _
  -- the keys share the shorter one, and the rest of it is empty
  obtain ⟨n, hn⟩ := exists_eq_add_one_of_ne_zero (length_pos_iff.mpr h₁).ne'
  unfold splitLeaf
  obtain ⟨r, rfl⟩ | ⟨r, rfl⟩ := h
  · have hlabel : commonLabel k₁ (k₁ ++ r) = k₁ := by
      simpa [commonLabel] using commonLabel_append k₁ [] r
    simp only [commonPrefix_map, hlabel, map_eq_nil_iff, h₁, if_false, drop_length, hn,
      splitLeaf_nil_left, error_bind]
  · have hlabel : commonLabel (k₂ ++ r) k₂ = k₂ := by
      simpa using commonLabel_append k₂ r []
    simp only [commonPrefix_map, hlabel, map_eq_nil_iff, h₂, if_false, drop_length, hn,
      splitLeaf_nil_right, error_bind]

end

variable {nodes mid : NodeStore H} {t t' : TrieTree} {k : List (Fin 16)}

/-- Replacing the top node, once the part of the store below it is right. -/
theorem Inserted.replace (hfree : H.CollisionFree) (htop : Passed t k t) (hhas : nodes.Has t)
    (hsame : t' = t → mid = nodes) (hkept : ∀ s, nodes.Has s → ¬ Passed t k s → mid.Has s)
    (hmade : nodes.HasAll t →
      ∀ s, Occurs s t' → s.isEmpty = false → s ≠ t' → ¬ Passed t k s → mid.Has s)
    (hgone : t' ≠ t → ∀ s, Passed t k s → s = t ∨ ¬ mid.Has s ∧ s ≠ t') :
    Inserted nodes ((mid.remove (digest H t)).insert (toNode H t')) t k t' where
  same := by
    intro h
    rw [hsame h, h]
    exact nodes.insert_remove_self hhas
  kept := by
    intro s hs hnot
    rw [has_insert hfree, has_remove hfree]
    exact .inr ⟨fun hst => hnot (hst ▸ htop), hkept s hs hnot⟩
  made := by
    intro hall s hs hempty hnot
    rw [has_insert hfree, has_remove hfree]
    by_cases hst : s = t'
    · exact .inl hst
    · exact .inr ⟨fun hst => hnot (hst ▸ htop), hmade hall s hs hempty hst hnot⟩
  gone := by
    intro hne s hs
    rw [has_insert hfree, has_remove hfree]
    rintro (hst' | ⟨hst, hmid⟩)
    · obtain rfl | ⟨-, hst⟩ := hgone hne s hs
      · exact hne hst'.symm
      · exact hst hst'
    · obtain rfl | ⟨hmissing, -⟩ := hgone hne s hs
      · exact hst rfl
      · exact hmissing hmid

/-- Replacing a node whose subtrees stay as they are. -/
theorem Inserted.replaceTop (hfree : H.CollisionFree) (htop : ∀ s, Passed t k s ↔ s = t)
    (hhas : nodes.Has t) (hbelow : ∀ s, Occurs s t' → s = t' ∨ Occurs s t) :
    Inserted nodes ((nodes.remove (digest H t)).insert (toNode H t')) t k t' := by
  refine .replace hfree ((htop t).mpr rfl) hhas (fun _ => rfl) (fun s hs _ => hs) ?_ ?_
  · intro hall s hs hempty hne _
    exact hall s ((hbelow s hs).resolve_left hne) hempty
  · intro _ s hs
    exact .inl ((htop s).mp hs)

/-- Replacing a node above an insertion into one of its subtrees. -/
theorem Inserted.lift (hfree : H.CollisionFree) {c c' : TrieTree} {r : List (Fin 16)}
    (hbelow : Inserted nodes mid c r c')
    (hpassed : ∀ s, Passed t k s ↔ s = t ∨ Passed c r s) (hhas : nodes.Has t)
    (hsame : t' = t ↔ c' = c) (hchild : ∀ s, s.isEmpty = false → Occurs s c → Occurs s t)
    (hnew : ∀ s, Occurs s t' → s = t' ∨ Occurs s c' ∨ Occurs s t)
    (hlow : c.height < t.height) (hgrow : t.height ≤ t'.height) :
    Inserted nodes ((mid.remove (digest H t)).insert (toNode H t')) t k t' := by
  refine .replace hfree ((hpassed t).mpr (.inl rfl)) hhas ?_ ?_ ?_ ?_
  · intro h
    exact hbelow.same (hsame.mp h)
  · intro s hs hnot
    exact hbelow.kept s hs fun h => hnot ((hpassed s).mpr (.inr h))
  · intro hall s hs hempty hne hnot
    have hnot' : ¬ Passed c r s := fun h => hnot ((hpassed s).mpr (.inr h))
    obtain hs | hs | hs := hnew s hs
    · exact absurd hs hne
    · exact hbelow.made (fun s hs hempty => hall s (hchild s hempty hs) hempty) s hs hempty hnot'
    · exact hbelow.kept s (hall s hs hempty) hnot'
  · intro hne s hs
    obtain rfl | hs := (hpassed s).mp hs
    · exact .inl rfl
    · refine .inr ⟨hbelow.gone (fun h => hne (hsame.mpr h)) s hs, ?_⟩
      -- everything that was passed below is lower than the new node
      rintro rfl
      have := height_le_of_occurs (occurs_of_mem_walk hs.1)
      omega

section

variable {nodes : NodeStore H} {fuel : Nat} {k : List (Fin 16)} {v : Bytes} {t : TrieTree}

theorem insertRecursive_absent (h : nodes.get (digest H t) = none) (key : Bytes) :
    insertRecursive (fuel + 1) nodes (digest H t) key v =
      fail (.trieError "Node not found") :=
  bind_get_of_absent h _

theorem insertRecursive_empty (h : nodes.Has .empty) :
    insertRecursive (fuel + 1) nodes (digest H .empty) (k.map nibbleByte) v =
      .ok (digest H (leaf k v), nodes.insert (toNode H (leaf k v))) :=
  bind_get_of_has h _

theorem insertRecursive_leaf_same {value : Bytes} (h : nodes.Has (leaf k value)) :
    insertRecursive (fuel + 1) nodes (digest H (leaf k value)) (k.map nibbleByte) v =
      .ok (replaceNode nodes (digest H (leaf k value)) (toNode H (leaf k v))) := by
  apply (bind_get_of_has h _).trans
  simp

theorem insertRecursive_leaf_split {key : List (Fin 16)} {value : Bytes}
    (h : nodes.Has (leaf key value)) (hne : key ≠ k) :
    insertRecursive (fuel + 1) nodes (digest H (leaf key value)) (k.map nibbleByte) v =
      (splitLeaf (key.length + 1) nodes (key.map nibbleByte) value (k.map nibbleByte) v >>=
        fun (node, nodes) => .ok (replaceNode nodes (digest H (leaf key value)) node)) := by
  have hne' : key.map nibbleByte ≠ k.map nibbleByte := map_nibbleByte_injective.ne hne
  apply (bind_get_of_has h _).trans
  simp only [toNode_leaf, hne', if_false, if_neg (commonPrefix_of_ne hne'), pure_eq_ok]
  rw [length_map]

variable {label : List (Fin 16)} {next : TrieTree} {n : Fin 16}

theorem insertRecursive_ext {r : List (Fin 16)}
    (h : nodes.Has (ext label next)) :
    insertRecursive (fuel + 1) nodes (digest H (ext label next)) ((label ++ r).map nibbleByte) v =
      (insertRecursive fuel nodes (digest H next) (r.map nibbleByte) v >>=
        fun (newNextHash, nodes) => .ok (replaceNode nodes (digest H (ext label next))
          (.extension (label.map nibbleByte) newNextHash))) := by
  have hlabel : (commonPrefix (label.map nibbleByte) ((label ++ r).map nibbleByte)).length =
      (label.map nibbleByte).length := by
    rw [commonPrefix_length_eq_iff, map_append]
    exact prefix_append _ _
  apply (bind_get_of_has h _).trans
  simp only [toNode_ext, hlabel, if_true, drop_map_nibbleByte, pure_eq_ok]

theorem insertRecursive_ext_of_not
    (h : nodes.Has (ext label next)) (hlabel : ¬ label <+: k) :
    insertRecursive (fuel + 1) nodes (digest H (ext label next)) (k.map nibbleByte) v =
      .ok (replaceNode nodes (digest H (ext label next)) (toNode H (ext label next))) := by
  have hlabel' : (commonPrefix (label.map nibbleByte) (k.map nibbleByte)).length ≠
      (label.map nibbleByte).length := by
    rw [ne_eq, commonPrefix_length_eq_iff, prefix_map_nibbleByte]
    exact hlabel
  apply (bind_get_of_has h _).trans
  simp only [toNode_ext, hlabel', if_false, splitExtension, pure_eq_ok]

variable {children : Fin 16 → TrieTree} {value : Option Bytes}

variable (h : nodes.Has (branch children value))

include h

theorem insertRecursive_branch_nil :
    insertRecursive (fuel + 1) nodes (digest H (branch children value)) [] v =
      .ok (replaceNode nodes (digest H (branch children value))
        (toNode H (branch children (some v)))) :=
  bind_get_of_has h _

omit h in
omit [DecidableEq Digest] in
/-- Writing a child's hash into its slot gives the node of the updated tree. -/
theorem toNode_branch_update (n : Fin 16) {child : TrieTree} (hchild : child.isEmpty = false) :
    toNode H (branch (Function.update children n child) value) =
      .branch
        (Function.update
          (fun m => if (children m).isEmpty then none else some (H.hash (toNode H (children m)))) n
          (some (digest H child)))
        value := by
  rw [toNode_branch]
  congr 1
  funext m
  by_cases hm : m = n
  · subst hm
    simp [hchild]
  · simp [hm, digest]

theorem insertRecursive_branch_cons
    (hn : (children n).isEmpty = false) (key : Bytes) :
    insertRecursive (fuel + 1) nodes (digest H (branch children value)) (nibbleByte n :: key) v =
      (insertRecursive fuel nodes (digest H (children n)) key v >>=
        fun (childHash, nodes) => .ok (replaceNode nodes (digest H (branch children value))
          (.branch
            (Function.update (fun m => if (children m).isEmpty then none
              else some (H.hash (toNode H (children m)))) n (some childHash))
            value))) := by
  apply (bind_get_of_has h _).trans
  simp [toNode_branch, hn, digest]

theorem insertRecursive_branch_empty
    (hn : (children n).isEmpty = true) :
    insertRecursive (fuel + 1) nodes (digest H (branch children value))
        (nibbleByte n :: k.map nibbleByte) v =
      .ok (replaceNode (nodes.insert (toNode H (leaf k v))) (digest H (branch children value))
        (toNode H (branch (Function.update children n (leaf k v)) value))) := by
  apply (bind_get_of_has h _).trans
  rw [toNode_branch_update n rfl]
  simp [toNode_branch, hn, digest]

end

section

variable {nodes : NodeStore H} {fuel : Nat} {k : List (Fin 16)} {v : Bytes} {s t t' : TrieTree}

variable (hfree : H.CollisionFree)

include hfree

theorem inserted_empty :
    Inserted nodes (nodes.insert (toNode H (leaf k v))) .empty k (leaf k v) where
  same := nofun
  kept := fun _ hs _ => (has_insert hfree _ _ _).mpr (.inr hs)
  made := fun _ _ hs _ _ => (has_insert hfree _ _ _).mpr (.inl hs)
  gone := fun _ _ hs => absurd hs not_passed_empty

/-- The leaf is split from the new key. -/
theorem insertRecursive_split_stored {p r₁ r₂ : List (Fin 16)}
    {value : Bytes} {a b : Fin 16} (hab : a ≠ b) (htop : nodes.Has (leaf (p ++ a :: r₁) value)) :
    ∃ nodes', insertRecursive (fuel + 1) nodes (digest H (leaf (p ++ a :: r₁) value))
        ((p ++ b :: r₂).map nibbleByte) v =
          .ok (digest H (extend p (fork a r₁ value b r₂ v)), nodes') ∧
      Inserted nodes nodes' (leaf (p ++ a :: r₁) value) (p ++ b :: r₂)
        (extend p (fork a r₁ value b r₂ v)) := by
  have hne : extend p (fork a r₁ value b r₂ v) ≠ leaf (p ++ a :: r₁) value := by
    unfold extend
    split <;> exact nofun
  obtain ⟨m, hm⟩ : ∃ m, (p ++ a :: r₁).length + 1 = m + 2 := ⟨_, by simp; rfl⟩
  obtain ⟨nodes', hnodes', hkept, hmade⟩ := splitLeaf_stored hfree nodes m value v hab p
  rw [insertRecursive_leaf_split htop (by simp [hab]), hm, hnodes']
  refine ⟨_, rfl, .replace hfree (passed_leaf.mpr rfl) htop (fun h => absurd h hne) ?_ ?_ ?_⟩
  · exact fun s hs _ => hkept s hs
  · exact fun _ s hs _ hst _ => hmade s hs hst
  · exact fun _ s hs => .inl (passed_leaf.mp hs)

/-- A branch is written again after one of its children. -/
theorem Inserted.liftBranch {mid : NodeStore H}
    {children : Fin 16 → TrieTree} {value : Option Bytes} {a : Fin 16} {r : List (Fin 16)}
    {child : TrieTree} (hbelow : Inserted nodes mid (children a) r child)
    (htop : nodes.Has (branch children value)) (hgrow : (branch children value).height ≤
      (branch (Function.update children a child) value).height) :
    Inserted nodes ((mid.remove (digest H (branch children value))).insert
        (toNode H (branch (Function.update children a child) value)))
      (branch children value) (a :: r) (branch (Function.update children a child) value) :=
  hbelow.lift hfree (fun _ => passed_branch) htop branch_update_eq_iff
    (fun _ => occurs_branch_of_child) (fun _ => occurs_branch_update)
    (height_child_lt children value a) hgrow

/-- A key is inserted into the tree if the nodes on its way are stored. -/
theorem insertRecursive_stored (hwf : t.WellFormed)
    (hfuel : k.length < fuel) (hwalk : ∀ s ∈ t.walk k, nodes.Has s)
    (hins : t.insert k v = some t') :
    ∃ nodes', insertRecursive fuel nodes (digest H t) (k.map nibbleByte) v =
        .ok (digest H t', nodes') ∧ Inserted nodes nodes' t k t' := by
  replace hins := inserts_of_insert hins
  induction hins generalizing fuel with
  | empty k =>
    obtain ⟨n, rfl, htop⟩ := walk_top hfuel hwalk
    exact ⟨_, insertRecursive_empty htop, inserted_empty hfree⟩
  | same k value =>
    obtain ⟨n, rfl, htop⟩ := walk_top hfuel hwalk
    exact ⟨_, insertRecursive_leaf_same htop,
      .replaceTop hfree (fun s => passed_leaf) htop fun s hs => .inl hs⟩
  | split p r₁ r₂ value hab =>
    obtain ⟨n, rfl, htop⟩ := walk_top hfuel hwalk
    exact insertRecursive_split_stored hfree hab htop
  | @along label next next' r hnext ih =>
    obtain ⟨n, rfl, htop⟩ := walk_top hfuel hwalk
    obtain ⟨mid, hmid, hbelow⟩ := ih hwf.2.2 (length_lt_of_ext hwf hfuel)
      fun s hs => hwalk s ((mem_walk_ext r).mpr (.inr hs))
    rw [insertRecursive_ext htop, hmid]
    refine ⟨_, rfl, hbelow.lift hfree (fun s => passed_ext) htop ?_ ?_ ?_ ?_
      (hnext.along label).height_le⟩
    · simp
    · exact fun s _ hs => .inr hs
    · exact fun s hs => hs.imp id .inl
    · exact lt_succ_self _
  | @off label k next hlabel =>
    obtain ⟨n, rfl, htop⟩ := walk_top hfuel hwalk
    rw [insertRecursive_ext_of_not htop hlabel]
    exact ⟨_, rfl, .replaceTop hfree (fun s => passed_ext_of_not hlabel) htop fun s hs => .inr hs⟩
  | value children value =>
    obtain ⟨n, rfl, htop⟩ := walk_top hfuel hwalk
    exact ⟨_, insertRecursive_branch_nil htop,
      .replaceTop hfree (fun s => passed_branch_nil) htop fun s hs => hs.imp id .inr⟩
  | @child children value a r c hchild ih =>
    obtain ⟨n, rfl, htop⟩ := walk_top hfuel hwalk
    have hgrow := (hchild.child value).height_le
    rw [map_cons]
    cases ha : (children a).isEmpty with
    | true =>
      have hnone := eq_empty_of_isEmpty ha
      rw [hnone] at hchild
      cases hchild
      have hbelow : Inserted nodes (nodes.insert (toNode H (leaf r v))) (children a) r
          (leaf r v) := by
        rw [hnone]
        exact inserted_empty hfree
      rw [insertRecursive_branch_empty htop ha]
      exact ⟨_, rfl, hbelow.liftBranch hfree htop hgrow⟩
    | false =>
      obtain ⟨mid, hmid, hbelow⟩ := ih (hwf.2 a) (lt_of_succ_lt_succ hfuel)
        fun s hs => hwalk s (mem_walk_branch.mpr (.inr ⟨ha, hs⟩))
      rw [insertRecursive_branch_cons htop ha, hmid, ok_bind]
      dsimp only
      rw [← toNode_branch_update a hchild.isEmpty]
      exact ⟨_, rfl, hbelow.liftBranch hfree htop hgrow⟩

omit hfree in
/-- Inserting a key that ends inside the key of a leaf, or goes on after it,
aborts. -/
theorem insertRecursive_panics (hwf : t.WellFormed) (hfuel : k.length < fuel)
    (hwalk : ∀ s ∈ t.walk k, nodes.Has s) (hins : t.insert k v = none) :
    insertRecursive fuel nodes (digest H t) (k.map nibbleByte) v = .error .panic := by
  induction t, k using walk_induction generalizing fuel with
  | empty | value => cases hins
  | leaf key value k =>
    obtain ⟨n, rfl, htop⟩ := walk_top hfuel hwalk
    rw [RadixTree.insert] at hins
    split at hins
    · cases hins
    · rename_i hkey
      obtain ⟨p, a, r₁, b, r₂, -, -, -, hsplit⟩ | ⟨hpart, -⟩ := splitLeaf_cases key value k v
      · rw [hsplit] at hins
        cases hins
      · rw [insertRecursive_leaf_split htop hkey, splitLeaf_panics hpart, error_bind]
  | along label next r ih =>
    obtain ⟨n, rfl, htop⟩ := walk_top hfuel hwalk
    rw [insert_ext_append, Option.map_eq_none_iff] at hins
    rw [insertRecursive_ext htop, ih hwf.2.2
      (length_lt_of_ext hwf hfuel) (fun s hs => hwalk s ((mem_walk_ext r).mpr (.inr hs))) hins,
      error_bind]
  | off label next k hlabel =>
    rw [insert_ext_of_not next hlabel] at hins
    cases hins
  | child children value a r ih =>
    obtain ⟨n, rfl, htop⟩ := walk_top hfuel hwalk
    rw [RadixTree.insert, Option.map_eq_none_iff] at hins
    have ha : (children a).isEmpty = false := by
      apply isEmpty_of_ne
      intro hempty
      rw [hempty] at hins
      cases hins
    rw [map_cons, insertRecursive_branch_cons htop ha,
      ih (hwf.2 a) (lt_of_succ_lt_succ hfuel)
        (fun s hs => hwalk s (mem_walk_branch.mpr (.inr ⟨ha, hs⟩))) hins, error_bind]

/-- An insertion fails if some node on the way is not stored. -/
theorem insertRecursive_missing (hwf : t.WellFormed)
    (hfuel : k.length < fuel) (hs : s ∈ t.walk k) (hmissing : ¬ nodes.Has s) :
    insertRecursive fuel nodes (digest H t) (k.map nibbleByte) v =
      fail (.trieError "Node not found") := by
  refine missing_induction
    (P := fun fuel t k => insertRecursive fuel nodes (digest H t) (k.map nibbleByte) v =
      fail (.trieError "Node not found")) hfree ?_ ?_ ?_ hwf hfuel hs hmissing
  · intro n t k habsent
    exact insertRecursive_absent habsent _
  · intro n label next r htop ih
    rw [insertRecursive_ext htop, ih, fail_bind]
  · intro n children value a r htop ha ih
    rw [map_cons, insertRecursive_branch_cons htop ha, ih, fail_bind]

end

section

variable {trie : MerklePatriciaTrie H} {t t' : TrieTree} {key value : Bytes}

/-- The nodes on the way to a key are stored. -/
def Reaches (trie : MerklePatriciaTrie H) (t : TrieTree) (key : Bytes) : Prop :=
  ∀ s ∈ t.walk (nibbles key), trie.nodes.Has s

variable (hroot : trie.rootHash = digest H t)

include hroot

variable (hwf : t.WellFormed)

include hwf

omit [DecidableEq Digest] in
theorem get_of_reaches
    (hreach : trie.Reaches t key) : trie.get key = .ok (t.get (nibbles key)) := by
  rw [get, hroot, bytesToNibbles_eq]
  exact getRecursive_stored hwf (by simp) hreach

variable (hfree : H.CollisionFree)

include hfree

omit [DecidableEq Digest] in
theorem get_of_not_reaches (hreach : ¬ trie.Reaches t key) :
    trie.get key = fail (.trieError "Node not found") := by
  obtain ⟨s, hs⟩ := not_forall.mp hreach
  obtain ⟨hs, hmissing⟩ := Classical.not_imp.mp hs
  rw [get, hroot, bytesToNibbles_eq]
  exact getRecursive_missing hfree hwf (by simp) hs hmissing

theorem insert_of_reaches (hreach : trie.Reaches t key)
    (hins : t.insert (nibbles key) value = some t') :
    ∃ nodes', trie.insert key value = (.ok (), ⟨digest H t', nodes'⟩) ∧
      Inserted trie.nodes nodes' t (nibbles key) t' := by
  obtain ⟨nodes', hrun, heffect⟩ :=
    insertRecursive_stored hfree hwf (lt_succ_self _) hreach hins
  refine ⟨nodes', ?_, heffect⟩
  rw [insert, hroot, bytesToNibbles_eq, length_map, hrun]

omit hfree in
theorem insert_of_conflict
    (hreach : trie.Reaches t key) (hins : t.insert (nibbles key) value = none) :
    trie.insert key value = (.error .panic, trie) := by
  rw [insert, hroot, bytesToNibbles_eq, length_map,
    insertRecursive_panics hwf (lt_succ_self _) hreach hins]

theorem insert_of_not_reaches (hreach : ¬ trie.Reaches t key) :
    trie.insert key value = (fail (.trieError "Node not found"), trie) := by
  obtain ⟨s, hs⟩ := not_forall.mp hreach
  obtain ⟨hs, hmissing⟩ := Classical.not_imp.mp hs
  rw [insert, hroot, bytesToNibbles_eq, length_map,
    insertRecursive_missing hfree hwf (lt_succ_self _) hs hmissing]
  rfl

/-- What an insertion does: it aborts on a key that it cannot part from a leaf, it
moves the root to the new tree, or it misses a node on its way. -/
theorem insert_cases (key value : Bytes) :
    (trie.Reaches t key ∧ t.conflicts (nibbles key) = true ∧
        trie.insert key value = (.error .panic, trie)) ∨
      (∃ t' nodes', trie.Reaches t key ∧ t.conflicts (nibbles key) = false ∧
        t.insert (nibbles key) value = some t' ∧
        trie.insert key value = (.ok (), ⟨digest H t', nodes'⟩)) ∨
      (¬ trie.Reaches t key ∧
        trie.insert key value = (fail (.trieError "Node not found"), trie)) := by
  by_cases hreach : trie.Reaches t key
  · cases hins : t.insert (nibbles key) value with
    | none =>
      exact .inl ⟨hreach, (insert_eq_none_iff _ _ _).mp hins,
        insert_of_conflict hroot hwf hreach hins⟩
    | some t' =>
      obtain ⟨nodes', hrun, -⟩ := insert_of_reaches hroot hwf hfree hreach hins
      exact .inr (.inl ⟨t', nodes', hreach, conflicts_of_insert hins, rfl, hrun⟩)
  · exact .inr (.inr ⟨hreach, insert_of_not_reaches hroot hwf hfree hreach⟩)

end

end RustyCoin.MerklePatriciaTrie
