import RustyCoin.Trie.Erase
import RustyCoin.Trie.InsertRuns

/-!
# Deletion from a stored trie

A deletion that returns gives the hash of the tree after it. A deletion that
keeps the other keys does return, and leaves in the store the nodes it made and
those it did not take; a node that was taken and not made again is missing even
where it occurs elsewhere in the tree.
-/

namespace RustyCoin

open Outcome TrieTree RadixTree NodeStore List

namespace TrieTree

variable {Digest : Type} (H : TrieHasher Digest)

/-- The node of a tree, if it has one. -/
def entry (t : TrieTree) : Option (TrieNode Digest) :=
  if t.isEmpty then none else some (toNode H t)

/-- The hash by which a deletion refers to the tree after it. -/
def entryHash (t : TrieTree) : Digest :=
  if t.isEmpty then H.emptyHash else digest H t

variable (children : Fin 16 → TrieTree)

/-- The child slots of a branch node. -/
def slots (n : Fin 16) : Option Digest :=
  if (children n).isEmpty then none else some (H.hash (toNode H (children n)))

variable {H}

theorem entryHash_eq_emptyHash (hfree : H.CollisionFree) {t : TrieTree} :
    entryHash H t = H.emptyHash ↔ t.isEmpty = true := by
  unfold entryHash
  split
  · simp [*]
  · simp [*, hfree.hash_ne_emptyHash, digest]

theorem toNode_branch_slots (value : Option Bytes) :
    toNode H (branch children value) = .branch (slots H children) value := rfl

variable {children : Fin 16 → TrieTree} {n : Fin 16}

@[simp] theorem slots_eq_none : slots H children n = none ↔ (children n).isEmpty = true := by
  unfold slots
  split
  · rename_i hempty
    exact iff_of_true rfl hempty
  · rename_i hne
    exact iff_of_false nofun hne

@[simp] theorem slots_eq_some {h : Digest} :
    slots H children n = some h ↔ (children n).isEmpty = false ∧ h = digest H (children n) := by
  unfold slots
  split
  · rename_i hempty
    simp [hempty]
  · rename_i hne
    simp only [Option.some.injEq, Bool.eq_false_iff.mpr hne, true_and, eq_comm (b := h)]
    rfl

@[simp] theorem slots_update (a : Fin 16) :
    slots H (Function.update children a .empty) = Function.update (slots H children) a none := by
  funext n
  by_cases hn : n = a
  all_goals simp [slots, hn]

theorem childHashes_slots :
    MerklePatriciaTrie.childHashes (slots H children) =
      (liveChildren children).map fun n => digest H (children n) := by
  rw [MerklePatriciaTrie.childHashes, liveChildren]
  induction List.finRange 16 with
  | nil => rfl
  | cons n ns ih =>
    cases hn : (children n).isEmpty with
    | true => simp [slots, hn, ih]
    | false => simp [slots, hn, ih, digest]

theorem toNode_hoist (n : Fin 16) (t : TrieTree) :
    toNode H (hoist n t) = MerklePatriciaTrie.simplifyChild (nibbleByte n) (toNode H t) := by
  cases t <;> rfl

@[simp] theorem isEmpty_hoist (n : Fin 16) (t : TrieTree) : (hoist n t).isEmpty = t.isEmpty := by
  cases t <;> rfl

end TrieTree

namespace MerklePatriciaTrie

variable {Digest : Type} [DecidableEq Digest] {H : TrieHasher Digest}

variable (trie : MerklePatriciaTrie H)

/-- The trie with the top node of a tree taken out of the store. -/
def take (t : TrieTree) : MerklePatriciaTrie H :=
  { trie with nodes := trie.nodes.remove (digest H t) }

/-- The store with the top node of a tree, if it has one. -/
def put (nodes : NodeStore H) (t : TrieTree) : NodeStore H :=
  if t.isEmpty then nodes else nodes.insert (toNode H t)

variable {trie : MerklePatriciaTrie H} {t : TrieTree} {h : Digest}

/-- Nothing was deleted: the node is put back. -/
theorem finishDelete_kept (hhas : trie.nodes.Has t) :
    finishDelete (trie.take t) (digest H t) (some (toNode H t)) false =
      (.ok (digest H t, false), trie) := by
  simp only [finishDelete, take, digest, ne_eq, not_true_eq_false, or_false, Bool.false_eq_true,
    if_false]
  rw [trie.nodes.insert_remove_self hhas]

theorem finishDelete_deleted (h : Digest) (t : TrieTree) :
    finishDelete trie h (entry H t) true =
      (.ok (entryHash H t, true), ⟨entryHash H t, put trie.nodes t⟩) := by
  unfold entry entryHash put
  cases t.isEmpty <;> simp [finishDelete, digest]

theorem has_put (hfree : H.CollisionFree) (nodes : NodeStore H) (s t : TrieTree) :
    (put nodes t).Has s ↔ s = t ∧ t.isEmpty = false ∨ nodes.Has s := by
  unfold put
  cases ht : t.isEmpty with
  | true => simp
  | false => simp [has_insert hfree]

section

variable {trie : MerklePatriciaTrie H} {children : Fin 16 → TrieTree} {value : Option Bytes}
  {h : Digest} {b n : Fin 16}

/-- The last child replaces the branch if it is stored. -/
theorem simplifyBranch_stored (hlive : liveChildren children = [b])
    (hhas : trie.nodes.Has (children b)) :
    simplifyBranch trie h (nibbleByte n) (slots H children) true =
      finishDelete (trie.take (children b)) h (entry H (hoist n (children b))) true := by
  have hb : (children b).isEmpty = false := mem_liveChildren.mp (by simp [hlive])
  rw [simplifyBranch, childHashes_slots, hlive, map_cons, entry, isEmpty_hoist, hb]
  dsimp only
  rw [hhas, toNode_hoist]
  rfl

theorem simplifyBranch_missing (hlive : liveChildren children = [b])
    (hhas : trie.nodes.get (digest H (children b)) = none) :
    simplifyBranch trie h (nibbleByte n) (slots H children) true =
      (fail (.stateError (digest H (children b))), trie) := by
  rw [simplifyBranch, childHashes_slots, hlive, map_cons]
  dsimp only
  rw [hhas]

theorem deleteBranchValue_eq (hvalue : value.isSome) :
    deleteBranchValue trie h (slots H children) value =
      match liveChildren children with
      | [_] => simplifyBranch trie h (nibbleByte 0) (slots H children) true
      | _ => finishDelete trie h (entry H (eraseValue children)) true := by
  rw [deleteBranchValue, childHashes_slots, length_map, hvalue]
  unfold eraseValue
  match liveChildren children with
  | [] => rfl
  | [_] => rfl
  | _ :: _ :: _ => rfl

/-- A branch without a value has two children, so nothing changes. -/
theorem deleteBranchValue_absent (hlive : 2 ≤ (liveChildren children).length) :
    deleteBranchValue trie h (slots H children) none =
      finishDelete trie h (some (toNode H (branch children none))) false := by
  rw [deleteBranchValue, childHashes_slots, length_map]
  match hchildren : liveChildren children with
  | [] => simp [hchildren] at hlive
  | [_] => simp [hchildren] at hlive
  | _ :: _ :: _ => rfl

theorem deleteBranchChild_eq :
    deleteBranchChild trie h (nibbleByte n) (slots H children) value =
      match value, liveChildren children with
      | none, [_] => simplifyBranch trie h (nibbleByte n) (slots H children) true
      | _, _ => finishDelete trie h (entry H (eraseChild n children value)) true := by
  rw [deleteBranchChild, childHashes_slots, length_map]
  unfold eraseChild
  match value, liveChildren children with
  | none, [] => rfl
  | none, [_] => rfl
  | none, _ :: _ :: _ => rfl
  | some _, [] => rfl
  | some _, [_] => rfl
  | some _, _ :: _ :: _ => rfl

theorem deleteBranchChild_kept (hkept : value.isSome ∨ 2 ≤ (liveChildren children).length) :
    deleteBranchChild trie h (nibbleByte n) (slots H children) value =
      finishDelete trie h (entry H (branch children value)) true := by
  rw [deleteBranchChild_eq, eraseChild_of_kept hkept]
  split
  · rename_i hlive
    simp [hlive] at hkept
  · rfl

end

section

variable {trie : MerklePatriciaTrie H} {fuel : Nat} {k : List (Fin 16)} {t : TrieTree}

variable {α : Type} {label : List (Fin 16)} {next : TrieTree}

omit [DecidableEq Digest] in
theorem match_get_of_has (h : trie.nodes.Has t) (a : α) (f : TrieNode Digest → α) :
    (match trie.nodes.get (digest H t) with
      | none => a
      | some node => f node) = f (toNode H t) := by
  rw [show trie.nodes.get (digest H t) = some (toNode H t) from h]

omit [DecidableEq Digest] in
theorem match_get_of_absent (h : trie.nodes.get (digest H t) = none) (a : α)
    (f : TrieNode Digest → α) :
    (match trie.nodes.get (digest H t) with
      | none => a
      | some node => f node) = a := by
  rw [h]

theorem deleteRecursive_absent (h : trie.nodes.get (digest H t) = none) (key : Bytes) :
    deleteRecursive (fuel + 1) trie (digest H t) key =
      (fail (.trieError "Node not found"), trie) :=
  match_get_of_absent h _ _

theorem deleteRecursive_empty (h : trie.nodes.Has .empty) (key : Bytes) :
    deleteRecursive (fuel + 1) trie (digest H .empty) key =
      (.ok (digest H .empty, false), trie) := by
  apply (match_get_of_has h _ _).trans
  exact finishDelete_kept h

theorem deleteRecursive_leaf {key : List (Fin 16)} {value : Bytes}
    (h : trie.nodes.Has (leaf key value)) :
    deleteRecursive (fuel + 1) trie (digest H (leaf key value)) (k.map nibbleByte) =
      if key = k then
        finishDelete (trie.take (leaf key value)) (digest H (leaf key value)) (entry H .empty) true
      else (.ok (digest H (leaf key value), false), trie) := by
  apply (match_get_of_has h _ _).trans
  simp only [toNode_leaf, map_nibbleByte_injective.eq_iff]
  split
  · rfl
  · exact finishDelete_kept h

theorem deleteRecursive_ext_of_not
    (h : trie.nodes.Has (ext label next)) (hlabel : ¬ label <+: k) :
    deleteRecursive (fuel + 1) trie (digest H (ext label next)) (k.map nibbleByte) =
      (.ok (digest H (ext label next), false), trie) := by
  apply (match_get_of_has h _ _).trans
  simp only [toNode_ext, prefix_map_nibbleByte, hlabel, if_false]
  exact finishDelete_kept h

theorem deleteRecursive_ext {r : List (Fin 16)}
    (h : trie.nodes.Has (ext label next)) :
    deleteRecursive (fuel + 1) trie (digest H (ext label next)) ((label ++ r).map nibbleByte) =
      match deleteRecursive fuel (trie.take (ext label next)) (digest H next)
        (r.map nibbleByte) with
      | (.error e, below) => (.error e, below)
      | (.ok (newChildHash, childDeleted), below) =>
        if childDeleted then
          if newChildHash = H.emptyHash then
            finishDelete below (digest H (ext label next)) none true
          else
            finishDelete below (digest H (ext label next))
              (some (.extension (label.map nibbleByte) newChildHash)) true
        else
          finishDelete below (digest H (ext label next)) (some (toNode H (ext label next)))
            false := by
  have hlabel : label.map nibbleByte <+: (label ++ r).map nibbleByte :=
    prefix_map_nibbleByte.mpr (prefix_append _ _)
  apply (match_get_of_has h _ _).trans
  simp only [toNode_ext, hlabel, if_true, drop_map_nibbleByte]
  rfl

/-- Something was deleted below an extension. -/
theorem finishDelete_ext (hfree : H.CollisionFree) (below : MerklePatriciaTrie H) (h : Digest)
    (label : List (Fin 16)) (next : TrieTree) :
    (if entryHash H next = H.emptyHash then finishDelete below h none true
      else finishDelete below h (some (.extension (label.map nibbleByte) (entryHash H next)))
        true) =
      finishDelete below h (entry H (if next.isEmpty then .empty else ext label next)) true := by
  simp only [entryHash_eq_emptyHash hfree]
  cases hempty : next.isEmpty with
  | true => rfl
  | false => simp [entry, entryHash, hempty]

variable {children : Fin 16 → TrieTree} {value : Option Bytes}

theorem deleteRecursive_branch_nil (h : trie.nodes.Has (branch children value)) :
    deleteRecursive (fuel + 1) trie (digest H (branch children value)) [] =
      deleteBranchValue (trie.take (branch children value)) (digest H (branch children value))
        (slots H children) value :=
  match_get_of_has h _ _

theorem deleteRecursive_branch_empty (h : trie.nodes.Has (branch children value)) {n : Fin 16}
    (hn : (children n).isEmpty = true) (key : Bytes) :
    deleteRecursive (fuel + 1) trie (digest H (branch children value)) (nibbleByte n :: key) =
      (.ok (digest H (branch children value), false), trie) := by
  apply (match_get_of_has h _ _).trans
  simp only [toNode_branch, childIndex_nibbleByte, hn, if_true]
  exact finishDelete_kept h

theorem deleteRecursive_branch_cons (h : trie.nodes.Has (branch children value)) {n : Fin 16}
    (hn : (children n).isEmpty = false) (key : Bytes) :
    deleteRecursive (fuel + 1) trie (digest H (branch children value)) (nibbleByte n :: key) =
      match deleteRecursive fuel (trie.take (branch children value)) (digest H (children n))
        key with
      | (.error e, below) => (.error e, below)
      | (.ok (_, true), below) =>
        deleteBranchChild below (digest H (branch children value)) (nibbleByte n)
          (slots H (Function.update children n .empty)) value
      | (.ok (_, false), below) =>
        finishDelete below (digest H (branch children value))
          (some (toNode H (branch children value))) false := by
  rw [slots_update]
  apply (match_get_of_has h _ _).trans
  simp only [toNode_branch, childIndex_nibbleByte, hn, if_false, Bool.false_eq_true]
  rfl

end

section

variable {trie : MerklePatriciaTrie H} {fuel : Nat} {k : List (Fin 16)} {t : TrieTree}

/-- The nodes below a node are still stored when that node is taken. -/
theorem has_take (hfree : H.CollisionFree) {s : TrieTree} (hlow : s.height < t.height)
    (h : trie.nodes.Has s) : (trie.take t).nodes.Has s := by
  refine (has_remove hfree _ _ _).mpr ⟨?_, h⟩
  rintro rfl
  exact Nat.lt_irrefl _ hlow

/-- Deleting an absent key changes nothing. -/
theorem deleteRecursive_kept (hfree : H.CollisionFree) (hwf : t.WellFormed)
    (hfuel : k.length < fuel) (hwalk : ∀ s ∈ t.walk k, trie.nodes.Has s)
    (habsent : t.get k = none) :
    deleteRecursive fuel trie (digest H t) (k.map nibbleByte) =
      (.ok (digest H t, false), trie) := by
  induction t, k using walk_induction generalizing fuel trie with
  | empty =>
    obtain ⟨n, rfl, htop⟩ := walk_top hfuel hwalk
    exact deleteRecursive_empty htop _
  | leaf key value =>
    obtain ⟨n, rfl, htop⟩ := walk_top hfuel hwalk
    rw [deleteRecursive_leaf htop, if_neg]
    rintro rfl
    rw [get_leaf_self] at habsent
    cases habsent
  | along label next r ih =>
    obtain ⟨n, rfl, htop⟩ := walk_top hfuel hwalk
    rw [get_ext_append] at habsent
    have hbelow : ∀ s ∈ next.walk r, (trie.take (ext label next)).nodes.Has s := by
      intro s hs
      refine has_take hfree ?_ (hwalk s ((mem_walk_ext r).mpr (.inr hs)))
      exact Nat.lt_succ_of_le (height_le_of_occurs (occurs_of_mem_walk hs))
    rw [deleteRecursive_ext htop, ih hwf.2.2 (length_lt_of_ext hwf hfuel) hbelow habsent]
    exact finishDelete_kept htop
  | off label next k hlabel =>
    obtain ⟨n, rfl, htop⟩ := walk_top hfuel hwalk
    exact deleteRecursive_ext_of_not htop hlabel
  | value children value =>
    obtain ⟨n, rfl, htop⟩ := walk_top hfuel hwalk
    cases habsent
    rw [map_nil, deleteRecursive_branch_nil htop,
      deleteBranchValue_absent (two_le_liveChildren hwf)]
    exact finishDelete_kept htop
  | child children value a r ih =>
    obtain ⟨n, rfl, htop⟩ := walk_top hfuel hwalk
    rw [map_cons]
    cases ha : (children a).isEmpty with
    | true => exact deleteRecursive_branch_empty htop ha _
    | false =>
      have hbelow : ∀ s ∈ (children a).walk r,
          (trie.take (branch children value)).nodes.Has s := by
        intro s hs
        refine has_take hfree ?_ (hwalk s (mem_walk_branch.mpr (.inr ⟨ha, hs⟩)))
        exact Nat.lt_of_le_of_lt (height_le_of_occurs (occurs_of_mem_walk hs))
          (height_child_lt children value a)
      rw [deleteRecursive_branch_cons htop ha,
        ih (hwf.2 a) (Nat.lt_of_succ_lt_succ hfuel) hbelow habsent]
      exact finishDelete_kept htop

section

variable {hash h : Digest} {deleted : Bool} {trie' : MerklePatriciaTrie H}
  {children : Fin 16 → TrieTree} {value : Option Bytes} {n : Fin 16}

theorem finishDelete_result
    (hrun : finishDelete trie h (entry H t) true = (.ok (hash, deleted), trie')) :
    hash = entryHash H t ∧ deleted = true := by
  rw [finishDelete_deleted, Prod.mk.injEq, Except.ok.injEq, Prod.mk.injEq] at hrun
  exact ⟨hrun.1.1.symm, hrun.1.2.symm⟩

variable (hfree : H.CollisionFree)

include hfree

theorem simplifyBranch_result {b : Fin 16}
    (hlive : liveChildren children = [b])
    (hrun : simplifyBranch trie h (nibbleByte n) (slots H children) true =
      (.ok (hash, deleted), trie')) :
    hash = entryHash H (hoist n (children b)) ∧ deleted = true := by
  obtain hhas | hmissing := trie.nodes.has_or_none hfree (children b)
  · rw [simplifyBranch_stored hlive hhas] at hrun
    exact finishDelete_result hrun
  · rw [simplifyBranch_missing hlive hmissing] at hrun
    cases hrun

theorem deleteBranchValue_result (hvalue : value.isSome)
    (hrun : deleteBranchValue trie h (slots H children) value = (.ok (hash, deleted), trie')) :
    hash = entryHash H (eraseValue children) ∧ deleted = true := by
  rw [deleteBranchValue_eq hvalue] at hrun
  split at hrun
  · rename_i b hlive
    rw [eraseValue, hlive]
    exact simplifyBranch_result hfree hlive hrun
  · exact finishDelete_result hrun

theorem deleteBranchChild_result
    (hrun : deleteBranchChild trie h (nibbleByte n) (slots H children) value =
      (.ok (hash, deleted), trie')) :
    hash = entryHash H (eraseChild n children value) ∧ deleted = true := by
  rw [deleteBranchChild_eq] at hrun
  split at hrun
  · rename_i b hlive
    unfold eraseChild
    rw [hlive]
    exact simplifyBranch_result hfree hlive hrun
  · exact finishDelete_result hrun

omit hfree in
omit [DecidableEq Digest] in
theorem isEmpty_of_present (hpresent : (t.get k).isSome) : t.isEmpty = false := by
  apply isEmpty_of_ne
  rintro rfl
  cases hpresent

/-- A deletion that returns has found the node it started at. -/
theorem deleteRecursive_node {key : Bytes}
    (hrun : deleteRecursive fuel trie (digest H t) key = (.ok (hash, deleted), trie')) :
    trie.nodes.Has t ∧ ∃ n, fuel = n + 1 := by
  cases fuel with
  | zero => cases hrun
  | succ n =>
    refine ⟨(trie.nodes.has_or_none hfree t).resolve_right fun habsent => ?_, n, rfl⟩
    rw [deleteRecursive_absent habsent] at hrun
    cases hrun

/-- A deletion that returns gives the hash of the tree after it. -/
theorem deleteRecursive_hash (hpresent : (t.get k).isSome)
    (hrun : deleteRecursive fuel trie (digest H t) (k.map nibbleByte) =
      (.ok (hash, deleted), trie')) :
    hash = entryHash H (erase t k) ∧ deleted = true := by
  induction t generalizing k fuel trie trie' hash deleted with
  | empty => cases hpresent
  | leaf key value =>
    obtain ⟨htop, n, rfl⟩ := deleteRecursive_node hfree hrun
    rw [get_leaf] at hpresent
    split at hpresent
    · rename_i hkey
      rw [deleteRecursive_leaf htop, if_pos hkey] at hrun
      rw [erase, if_pos hkey]
      exact finishDelete_result hrun
    · cases hpresent
  | ext label next ih =>
    obtain ⟨htop, n, rfl⟩ := deleteRecursive_node hfree hrun
    obtain ⟨r, rfl, hr⟩ := present_ext hpresent
    rw [deleteRecursive_ext htop] at hrun
    split at hrun
    · cases hrun
    · rename_i hbelow
      obtain ⟨rfl, rfl⟩ := ih hr hbelow
      rw [if_pos rfl, finishDelete_ext hfree] at hrun
      rw [erase_ext]
      exact finishDelete_result hrun
  | branch children value ih =>
    obtain ⟨htop, n, rfl⟩ := deleteRecursive_node hfree hrun
    cases k with
    | nil =>
      rw [map_nil, deleteRecursive_branch_nil htop] at hrun
      exact deleteBranchValue_result hfree hpresent hrun
    | cons a r =>
      have hr : ((children a).get r).isSome := hpresent
      have ha := isEmpty_of_present hr
      rw [map_cons, deleteRecursive_branch_cons htop ha] at hrun
      rw [erase, if_pos hr]
      split at hrun
      · cases hrun
      · exact deleteBranchChild_result hfree hrun
      · rename_i hbelow
        cases (ih a hr hbelow).2

end

/-- All nodes below a node are still stored when that node is taken. -/
theorem hasAll_take (hfree : H.CollisionFree) {c : TrieTree} (hall : trie.nodes.HasAll t)
    (hlow : c.height < t.height) (hocc : ∀ s, Occurs s c → s.isEmpty = false → Occurs s t) :
    (trie.take t).nodes.HasAll c := by
  intro s hs hne
  exact has_take hfree (Nat.lt_of_le_of_lt (height_le_of_occurs hs) hlow)
    (hall s (hocc s hs hne) hne)

omit [DecidableEq Digest] in
theorem passed_hoist_nil {n : Fin 16} (hne : t.isEmpty = false) (hleaf : isBranch t = false)
    (s : TrieTree) : Passed (hoist n t) [] s ↔ s = hoist n t := by
  cases t with
  | empty => cases hne
  | leaf key value => exact passed_leaf
  | ext label next => exact passed_ext_of_not (by simp)
  | branch children value => cases hleaf

/-- Taking the value of a branch removes it, moves its only child up, or keeps its children. -/
theorem deleteRecursive_value_alone (hfree : H.CollisionFree)
    {children : Fin 16 → TrieTree} {value : Option Bytes}
    (hall : trie.nodes.HasAll (branch children value))
    (hbelow : ∀ a, (trie.take (branch children value)).nodes.HasAll (children a))
    (halone : ErasesAlone (branch children value) []) :
    ∃ nodes', deleteRecursive (fuel + 1) trie (digest H (branch children value)) [] =
        (.ok (entryHash H (erase (branch children value) []), true),
          ⟨entryHash H (erase (branch children value) []), nodes'⟩) ∧
      ∀ s, nodes'.Has s ↔ Passed (erase (branch children value) []) [] s ∨
        trie.nodes.Has s ∧ s ∉ taken (branch children value) [] := by
  obtain ⟨hvalue, hone⟩ := halone
  rw [deleteRecursive_branch_nil (hall _ (occurs_refl _) rfl), deleteBranchValue_eq hvalue, erase,
    taken]
  rcases hlive : liveChildren children with _ | ⟨b, _ | ⟨b₂, rest⟩⟩
  · have hgone : eraseValue children = .empty := by rw [eraseValue, hlive]
    dsimp only
    rw [hgone, finishDelete_deleted]
    refine ⟨_, rfl, fun s => ?_⟩
    rw [has_put hfree, take, has_remove hfree]
    simp [not_passed_empty, and_comm]
  · obtain ⟨rfl, hleaf⟩ := hone b hlive
    have hne : (children 0).isEmpty = false := mem_liveChildren.mp (by simp [hlive])
    have hmoved : eraseValue children = hoist 0 (children 0) := by rw [eraseValue, hlive]
    dsimp only
    rw [hmoved, simplifyBranch_stored hlive (hbelow 0 _ (occurs_refl _) hne), finishDelete_deleted]
    refine ⟨_, rfl, fun s => ?_⟩
    rw [has_put hfree, take, has_remove hfree, take,
      has_remove hfree, passed_hoist_nil hne hleaf, isEmpty_hoist]
    simp [hne, and_comm, and_assoc]
  · have hkept : eraseValue children = branch children none := by rw [eraseValue, hlive]
    dsimp only
    rw [hkept, finishDelete_deleted]
    refine ⟨_, rfl, fun s => ?_⟩
    rw [has_put hfree, take, has_remove hfree, passed_branch_nil]
    simp [and_comm]

/-- A deletion that keeps the other keys returns, and leaves in the store what it
made and what it did not take. -/
theorem deleteRecursive_alone (hfree : H.CollisionFree) (hwf : t.WellFormed)
    (hfuel : k.length < fuel) (hall : trie.nodes.HasAll t) (halone : ErasesAlone t k) :
    ∃ nodes', deleteRecursive fuel trie (digest H t) (k.map nibbleByte) =
        (.ok (entryHash H (erase t k), true), ⟨entryHash H (erase t k), nodes'⟩) ∧
      ∀ s, nodes'.Has s ↔ Passed (erase t k) k s ∨ trie.nodes.Has s ∧ s ∉ taken t k := by
  induction t generalizing k fuel trie with
  | empty => cases halone
  | leaf key value =>
    obtain ⟨n, rfl⟩ := exists_succ_of_lt hfuel
    cases halone
    rw [deleteRecursive_leaf (hall _ (occurs_refl _) rfl), if_pos rfl, finishDelete_deleted,
      erase, if_pos rfl]
    refine ⟨_, rfl, fun s => ?_⟩
    rw [has_put hfree, take, has_remove hfree, taken, mem_singleton]
    simp [not_passed_empty, and_comm]
  | ext label next ih =>
    obtain ⟨n, rfl⟩ := exists_succ_of_lt hfuel
    obtain ⟨⟨r, rfl⟩, halone⟩ := halone
    rw [drop_left] at halone
    obtain ⟨mid, hmid, hhas⟩ := @ih (trie.take (ext label next)) n r hwf.2.2
      (length_lt_of_ext hwf hfuel)
      (hasAll_take hfree hall (Nat.lt_succ_self _) fun s hs _ => .inr hs) halone
    rw [deleteRecursive_ext (hall _ (occurs_refl _) rfl), hmid]
    dsimp only
    rw [if_pos rfl, finishDelete_ext hfree, finishDelete_deleted, ← erase_ext]
    refine ⟨_, rfl, fun s => ?_⟩
    rw [has_put hfree, hhas, take, has_remove hfree, taken_ext, erase_ext, mem_cons]
    cases hempty : (erase next r).isEmpty with
    | true =>
      rw [eq_empty_of_isEmpty hempty]
      simp [not_passed_empty, and_assoc, and_left_comm]
    | false =>
      rw [if_neg Bool.false_ne_true, passed_ext]
      simp [or_assoc, and_assoc, and_left_comm]
  | branch children value ih =>
    obtain ⟨n, rfl⟩ := exists_succ_of_lt hfuel
    have htop := hall _ (occurs_refl _) rfl
    have hbelow : ∀ a, (trie.take (branch children value)).nodes.HasAll (children a) := by
      intro a
      exact hasAll_take hfree hall (height_child_lt children value a) fun s hs hne =>
        occurs_branch_of_child hne hs
    cases k with
    | nil =>
      rw [map_nil]
      exact deleteRecursive_value_alone hfree hall hbelow halone
    | cons a r =>
      obtain ⟨halone, hgone, hkept⟩ := halone
      have ha := isEmpty_of_present halone.present
      obtain ⟨mid, hmid, hhas⟩ := @ih a (trie.take (branch children value)) n r (hwf.2 a)
        (Nat.lt_of_succ_lt_succ hfuel) (hbelow a) halone
      have herase : erase (branch children value) (a :: r) =
          branch (Function.update children a .empty) value := by
        rw [erase, if_pos halone.present, eraseChild_of_kept hkept]
      rw [map_cons, deleteRecursive_branch_cons htop ha, hmid, herase]
      dsimp only
      rw [deleteBranchChild_kept hkept, finishDelete_deleted]
      refine ⟨_, rfl, fun s => ?_⟩
      rw [has_put hfree, hhas, take, has_remove hfree, taken, mem_cons,
        passed_branch, Function.update_self, eq_empty_of_isEmpty hgone]
      simp [not_passed_empty, and_assoc, and_left_comm]

end

end MerklePatriciaTrie

end RustyCoin
