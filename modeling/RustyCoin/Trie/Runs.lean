import RustyCoin.Trie.Delete

/-!
# Runs of insertions and deletions

A deletion is correct when it makes the key absent, leaves every other lookup as
it was, and reports whether the key was there. In a trie that was reached by
steps that keep the store complete, the deletions that are correct are those of
absent keys, and those that keep the other keys of the tree, do not empty the
trie, and take no node that is still needed.
-/

namespace RustyCoin

/-- A step of a run. -/
inductive TrieOp where
  | insert (key value : Bytes)
  | delete (key : Bytes)
  deriving DecidableEq, Repr

namespace MerklePatriciaTrie

open Outcome TrieTree RadixTree TrieHasher

variable {Digest : Type} [DecidableEq Digest] {H : TrieHasher Digest}

variable (trie : MerklePatriciaTrie H)

/-- The trie after a step, whether the step returned or failed. -/
def apply : TrieOp → MerklePatriciaTrie H
  | .insert key value => (trie.insert key value).2
  | .delete key => (trie.delete key).2

def run (ops : List TrieOp) : MerklePatriciaTrie H :=
  ops.foldl apply trie

/-- What a deletion should do. -/
def DeleteCorrect (key : Bytes) : Prop :=
  ∃ deleted trie', trie.delete key = (.ok deleted, trie') ∧ trie'.get key = .ok none ∧
    (∀ k, k ≠ key → trie'.get k = trie.get k) ∧
    (deleted = true ↔ ∃ value, trie.get key = .ok (some value)) ∧
    (trie.get key = .ok none → trie' = trie)

/-- No node on the way of the insertion occurs in the tree after it, unless that
is the tree before it. Keys that are dropped and insertions that abort are
allowed: they leave the trie as it was. -/
def InsertKeeps (key value : Bytes) : Prop :=
  ∃ t, trie.rootHash = digest H t ∧ ∀ t', t.insert (nibbles key) value = some t' →
    t' = t ∨ ∀ s, Passed t (nibbles key) s → ¬ Occurs s t'

/-- The key is absent, or its deletion keeps the other keys, leaves something
behind, and takes no node that still occurs, except those on the way to the key
that are made again. -/
def DeleteSafe (key : Bytes) : Prop :=
  ∃ t, trie.rootHash = digest H t ∧
    (t.get (nibbles key) = none ∨
      ErasesAlone t (nibbles key) ∧ (erase t (nibbles key)).isEmpty = false ∧
        ∀ s ∈ taken t (nibbles key), Occurs s (erase t (nibbles key)) →
          Passed (erase t (nibbles key)) (nibbles key) s)

def StepSafe : TrieOp → Prop
  | .insert key value => trie.InsertKeeps key value
  | .delete key => trie.DeleteSafe key

/-- Every step is safe in the trie before it. -/
def RunSafe (trie : MerklePatriciaTrie H) : List TrieOp → Prop
  | [] => True
  | op :: ops => trie.StepSafe op ∧ (trie.apply op).RunSafe ops

/-- The trie holds the tree, and all keys of the tree are byte strings. -/
structure Holds (trie : MerklePatriciaTrie H) (t : TrieTree) : Prop where
  represents : trie.Represents t
  bytes : ∀ j, (t.get j).isSome → ∃ key, nibbles key = j

theorem holds_new (H : TrieHasher Digest) : (new H).Holds .empty where
  represents := represents_new H
  bytes := nofun

section

variable {trie trie' : MerklePatriciaTrie H} {t : TrieTree} {key value : Bytes}

variable (hfree : H.CollisionFree)
include hfree

variable (hrep : trie.Represents t)

include hrep

theorem delete_absent
    (habsent : t.get (nibbles key) = none) : trie.delete key = (.ok false, trie) := by
  rw [delete, hrep.root, bytesToNibbles_eq, List.length_map, deleteRecursive_kept hfree
    hrep.wellFormed (Nat.lt_succ_self _) (hrep.reaches key) habsent]
  rfl

/-- The trie after a deletion that keeps the other keys. -/
theorem delete_alone (halone : ErasesAlone t (nibbles key)) :
    ∃ nodes', trie.delete key = (.ok true, ⟨entryHash H (erase t (nibbles key)), nodes'⟩) ∧
      ∀ s, nodes'.Has s ↔ Passed (erase t (nibbles key)) (nibbles key) s ∨
        trie.nodes.Has s ∧ s ∉ taken t (nibbles key) := by
  obtain ⟨nodes', hrun, hhas⟩ := deleteRecursive_alone hfree hrep.wellFormed
    (Nat.lt_succ_self _) hrep.hasAll halone
  refine ⟨nodes', ?_, hhas⟩
  rw [delete, hrep.root, bytesToNibbles_eq, List.length_map, hrun]
  rfl

/-- A deletion that returns reports the presence of the key and gives the hash
of the tree after it. -/
theorem delete_result
    (hpresent : (t.get (nibbles key)).isSome) {deleted : Bool}
    (hrun : trie.delete key = (.ok deleted, trie')) :
    deleted = true ∧ trie'.rootHash = entryHash H (erase t (nibbles key)) := by
  rw [delete, hrep.root, bytesToNibbles_eq, List.length_map] at hrun
  split at hrun
  · cases hrun
  · rename_i newRoot wasDeleted after hresult
    obtain ⟨rfl, rfl⟩ := deleteRecursive_hash hfree hpresent hresult
    rw [Prod.mk.injEq, Except.ok.injEq] at hrun
    exact ⟨hrun.1.symm, by rw [← hrun.2]; rfl⟩

/-- A safe deletion of a present key keeps the store complete. -/
theorem delete_represents
    (halone : ErasesAlone t (nibbles key)) (hleft : (erase t (nibbles key)).isEmpty = false)
    (htaken : ∀ s ∈ taken t (nibbles key), Occurs s (erase t (nibbles key)) →
      Passed (erase t (nibbles key)) (nibbles key) s) :
    ∃ trie', trie.delete key = (.ok true, trie') ∧
      trie'.Represents (erase t (nibbles key)) := by
  obtain ⟨nodes', hrun, hhas⟩ := delete_alone hfree hrep halone
  have hall : nodes'.HasAll (erase t (nibbles key)) := by
    intro s hs hne
    rw [hhas]
    by_cases htake : s ∈ taken t (nibbles key)
    · exact .inl (htaken s htake hs)
    · exact (halone.occurs hs hne).imp_right fun hocc => ⟨hrep.hasAll s hocc hne, htake⟩
  refine ⟨_, hrun, ?_, wellFormed_erase hrep.wellFormed, hall _ (occurs_refl _) hleft, hall⟩
  rw [entryHash, hleft]
  rfl

omit hrep in
/-- A safe step leads to a trie that holds a tree again. -/
theorem holds_apply (hholds : trie.Holds t) {op : TrieOp}
    (hsafe : trie.StepSafe op) : ∃ t', (trie.apply op).Holds t' := by
  obtain ⟨hrep, hbytes⟩ := hholds
  cases op with
  | insert key value =>
    obtain ⟨u, hroot, hkeeps⟩ := hsafe
    obtain rfl := hrep.unique hfree hroot
    cases hins : u.insert (nibbles key) value with
    | none =>
      rw [apply, insert_of_conflict hrep.root hrep.wellFormed (hrep.reaches key) hins]
      exact ⟨u, hrep, hbytes⟩
    | some t' =>
      obtain ⟨trie', hrun, hrep'⟩ := insert_represents hfree hrep hins (hkeeps t' hins)
      rw [apply, hrun]
      refine ⟨t', hrep', fun j hj => ?_⟩
      obtain rfl | hj := key_of_get_insert hins hj
      · exact ⟨key, rfl⟩
      · exact hbytes j hj
  | delete key =>
    obtain ⟨u, hroot, hsafe⟩ := hsafe
    obtain rfl := hrep.unique hfree hroot
    obtain habsent | ⟨halone, hleft, htaken⟩ := hsafe
    · rw [apply, delete_absent hfree hrep habsent]
      exact ⟨u, hrep, hbytes⟩
    · obtain ⟨trie', hrun, hrep'⟩ := delete_represents hfree hrep halone hleft htaken
      rw [apply, hrun]
      refine ⟨_, hrep', fun j hj => ?_⟩
      rw [halone.get hrep.wellFormed] at hj
      split at hj
      · cases hj
      · exact hbytes j hj

omit hrep in
/-- A run of safe steps leads to a trie that holds a tree. -/
theorem holds_run (hholds : trie.Holds t) {ops : List TrieOp}
    (hsafe : trie.RunSafe ops) : ∃ t', (trie.run ops).Holds t' := by
  induction ops generalizing trie t with
  | nil => exact ⟨t, hholds⟩
  | cons op ops ih =>
    obtain ⟨t', hholds'⟩ := holds_apply hfree hholds hsafe.1
    exact ih hholds' hsafe.2

theorem deleteCorrect_of_safe (hsafe : trie.DeleteSafe key) : trie.DeleteCorrect key := by
  obtain ⟨u, hroot, hsafe⟩ := hsafe
  obtain rfl := hrep.unique hfree hroot
  obtain habsent | ⟨halone, hleft, htaken⟩ := hsafe
  · refine ⟨false, trie, delete_absent hfree hrep habsent, ?_, fun _ _ => rfl, ?_, fun _ => rfl⟩
    · rw [hrep.get, habsent]
    · simp [hrep.get, habsent]
  · obtain ⟨trie', hrun, hrep'⟩ := delete_represents hfree hrep halone hleft htaken
    obtain ⟨v, hv⟩ := Option.isSome_iff_exists.mp halone.present
    refine ⟨true, trie', hrun, ?_, fun k hk => ?_, ?_, ?_⟩
    · rw [hrep'.get, halone.get hrep.wellFormed, if_pos rfl]
    · rw [hrep'.get, hrep.get, halone.get hrep.wellFormed, if_neg (nibbles_injective.ne hk)]
    all_goals simp [hrep.get, hv]

omit hrep

omit [DecidableEq Digest] in
/-- No lookup returns when the root is the hash of a removed node. -/
theorem get_of_emptyHash (hroot : trie.rootHash = H.emptyHash) :
    trie.get key = fail (.trieError "Node not found") := by
  have hnone : trie.nodes.get trie.rootHash = none := by
    cases h : trie.nodes.get trie.rootHash with
    | none => rfl
    | some node =>
      exact absurd ((trie.nodes.addressed _ _ h).trans hroot) (hfree.hash_ne_emptyHash node)
  rw [get, getRecursive, hnone]
  rfl

theorem deleteSafe_of_correct (hholds : trie.Holds t)
    (hcorrect : trie.DeleteCorrect key) : trie.DeleteSafe key := by
  obtain ⟨hrep, hbytes⟩ := hholds
  refine ⟨t, hrep.root, ?_⟩
  cases hpresent : t.get (nibbles key) with
  | none => exact .inl rfl
  | some v =>
    refine .inr ?_
    have hsome : (t.get (nibbles key)).isSome := by
      rw [hpresent]
      rfl
    obtain ⟨deleted, trie', hrun, hgone, hothers, -, -⟩ := hcorrect
    obtain ⟨-, hroot⟩ := delete_result hfree hrep hsome hrun
    -- every lookup returns after the deletion
    have hreturns : ∀ k, ∃ result, trie'.get k = .ok result := by
      intro k
      by_cases hk : k = key
      · exact ⟨none, hk ▸ hgone⟩
      · exact ⟨_, (hothers k hk).trans (hrep.get k)⟩
    have hleft : (erase t (nibbles key)).isEmpty = false := by
      by_contra hempty
      rw [Bool.not_eq_false] at hempty
      obtain ⟨result, hresult⟩ := hreturns key
      rw [entryHash, if_pos hempty] at hroot
      rw [get_of_emptyHash hfree hroot] at hresult
      exact fail_ne_ok _ _ hresult
    rw [entryHash, if_neg (by simp [hleft])] at hroot
    have hwf : (erase t (nibbles key)).WellFormed := wellFormed_erase hrep.wellFormed
    have hreach : ∀ k, trie'.Reaches (erase t (nibbles key)) k := by
      intro k
      by_contra hnot
      obtain ⟨result, hresult⟩ := hreturns k
      rw [get_of_not_reaches hroot hwf hfree hnot] at hresult
      exact fail_ne_ok _ _ hresult
    have halone : ErasesAlone t (nibbles key) := by
      refine erasesAlone_of_keeps (p := 0) hrep.wellFormed hsome (fun j hj => ?_) fun j hne hj => ?_
      · obtain ⟨k, rfl⟩ := hbytes j hj
        rw [length_nibbles, Nat.mul_mod_right]
      · obtain ⟨k, rfl⟩ := hbytes j hj
        have hk := hothers k fun h => hne (congrArg nibbles h)
        rw [get_of_reaches hroot hwf (hreach k), hrep.get, Except.ok.injEq] at hk
        rwa [hk]
    refine ⟨halone, hleft, fun s htake hocc => ?_⟩
    obtain ⟨nodes', hrun', hhas⟩ := delete_alone hfree hrep halone
    rw [hrun, Prod.mk.injEq] at hrun'
    -- some key leads through the node, so it is stored
    obtain ⟨ns, hns⟩ := exists_walk_of_occurs hocc
    obtain ⟨k, rest, hk⟩ := exists_nibbles_append ns
    have hstored : nodes'.Has s := by
      have h := hreach k s (hk ▸ hns rest)
      rwa [hrun'.2] at h
    obtain hpassed | ⟨-, hnot⟩ := (hhas s).mp hstored
    · exact hpassed
    · exact absurd htake hnot

end

/-- In every trie reached by safe steps, a deletion is correct exactly when it is
safe. -/
theorem delete_correct_iff (hfree : H.CollisionFree) (ops : List TrieOp)
    (hsafe : (new H).RunSafe ops) (key : Bytes) :
    ((new H).run ops).DeleteCorrect key ↔ ((new H).run ops).DeleteSafe key := by
  obtain ⟨t, hholds⟩ := holds_run hfree (holds_new H) hsafe
  exact ⟨deleteSafe_of_correct hfree hholds, deleteCorrect_of_safe hfree hholds.represents⟩

/-- Three keys that part at their first nibble. -/
def threeInserts : List TrieOp :=
  [.insert [0x11] [7], .insert [0x21] [8], .insert [0x31] [9]]

theorem threeInserts_safe : (new plain).RunSafe threeInserts := by
  refine ⟨⟨.empty, rfl, fun t' _ => .inr fun s hs => absurd hs not_passed_empty⟩,
    ⟨leaf [1, 1] [7], rfl, ?_⟩, ⟨fork 1 [1] [7] 2 [1] [8], rfl, ?_⟩, trivial⟩
  · rintro t' ⟨⟩
    exact .inr fun _ => not_occurs_fork_of_passed
  · rintro t' ⟨⟩
    refine .inr fun s hs hocc => ?_
    obtain rfl | hs := passed_branch.mp hs
    · obtain hocc | ⟨a, -, hocc⟩ := hocc
      · rw [branch.injEq] at hocc
        cases congrFun hocc.1 3
      · fin_cases a <;> cases hocc
    · exact absurd hs not_passed_empty

theorem get_threeInserts (key : Bytes) :
    ∃ result, ((new plain).run threeInserts).get key = .ok result := by
  obtain ⟨t, hholds⟩ := holds_run plain_collisionFree (holds_new plain) threeInserts_safe
  exact ⟨_, hholds.represents.get key⟩

/-- Two of the three keys are left when the first is deleted. -/
theorem delete_correct_iff_three : ((new plain).run threeInserts).DeleteCorrect [0x11] := by
  refine (delete_correct_iff plain_collisionFree threeInserts threeInserts_safe
    [0x11]).mpr ⟨branch (Function.update (Function.update (Function.update (fun _ => .empty) 1
      (leaf [1] [7])) 2 (leaf [1] [8])) 3 (leaf [1] [9])) none, rfl,
    .inr ⟨⟨rfl, rfl, .inr (by decide)⟩, rfl, ?_⟩⟩
  rintro s (_ | ⟨_, _ | ⟨_, hs⟩⟩) hocc
  · obtain hocc | ⟨a, -, hocc⟩ := hocc
    · cases congrFun (branch.inj hocc).1 1
    · fin_cases a <;> cases hocc
  · obtain hocc | ⟨a, -, hocc⟩ := hocc
    · cases hocc
    · fin_cases a <;> cases hocc
  · cases hs

/-- Deleting one of two keys leaves a branch with one child. The child moves up
under the nibble of the deleted key: the deleted key is found with the value of
the other, and the other is gone. Deleting the only key leaves no root. -/
theorem delete_moves_sibling :
    (((new plain).run [.insert [0x11] [7], .insert [0x21] [8]]).delete [0x11]).1 =
        .ok true ∧
      ((new plain).run
        [.insert [0x11] [7], .insert [0x21] [8], .delete [0x11]]).get [0x11] = .ok (some [8]) ∧
      ((new plain).run
        [.insert [0x11] [7], .insert [0x21] [8], .delete [0x11]]).get [0x21] = .ok none ∧
      ((new plain).run [.insert [0x11] [7], .delete [0x11]]).get [0x11] =
        fail (.trieError "Node not found") :=
  ⟨rfl, rfl, rfl, rfl⟩

end MerklePatriciaTrie

end RustyCoin
