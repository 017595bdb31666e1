import RustyCoin.Trie.Tree

/-!
# Deletion on trees

What `delete_recursive` makes of the tree behind a trie. A branch gives up the
whole child below which it deleted something, and a branch that is left with one
child and no value is replaced by that child, with the nibble of the deleted key
(or zero, when the branch's own value was deleted) in front of its key. So only
some deletions keep the other keys: `ErasesAlone` says which.
-/

namespace RustyCoin.TrieTree

open RadixTree List Function

variable (children : Fin 16 → TrieTree)

/-- The nibbles under which a branch has a child. -/
def liveChildren : List (Fin 16) :=
  (List.finRange 16).filter fun n => !(children n).isEmpty

/-- The last child of a branch, moved to the place of the branch. -/
def hoist (n : Fin 16) : TrieTree → TrieTree
  | .leaf key value => .leaf (n :: key) value
  | .ext label next => .ext (n :: label) next
  | .branch children value => .branch children value
  | .empty => .empty

/-- A branch that lost its value. -/
def eraseValue : TrieTree :=
  match liveChildren children with
  | [] => .empty
  | [b] => hoist 0 (children b)
  | _ => .branch children none

/-- A branch that lost a child: `children` no longer holds it. -/
def eraseChild (n : Fin 16) (children : Fin 16 → TrieTree) (value : Option Bytes) : TrieTree :=
  match value, liveChildren children with
  | none, [] => .empty
  | none, [b] => hoist n (children b)
  | value, _ => .branch children value

/-- The tree after a deletion; `empty` stands for a node that was removed. -/
def erase : TrieTree → List (Fin 16) → TrieTree
  | .empty, _ => .empty
  | .leaf key value, k => if key = k then .empty else .leaf key value
  | .ext label next, k =>
    if label <+: k then
      if (erase next (k.drop label.length)).isEmpty then .empty
      else .ext label (erase next (k.drop label.length))
    else .ext label next
  | .branch children _, [] => eraseValue children
  | .branch children value, a :: k =>
    if ((children a).get k).isSome then
      eraseChild a (Function.update children a .empty) value
    else .branch children value

/-- The nodes that a deletion takes out of the store: those on the way to the
key, and the child that replaces the branch whose value is deleted. -/
def taken : TrieTree → List (Fin 16) → List TrieTree
  | .empty, _ => []
  | .leaf key value, _ => [.leaf key value]
  | .ext label next, k =>
    .ext label next :: if label <+: k then taken next (k.drop label.length) else []
  | .branch children value, [] =>
    .branch children value ::
      match liveChildren children with
      | [b] => [children b]
      | _ => []
  | .branch children value, a :: k => .branch children value :: taken (children a) k

def isBranch : TrieTree → Bool
  | .branch _ _ => true
  | _ => false

/-- The deletion of a key that is present keeps all other keys. On the way to the
key every branch holds nothing else below the key's nibble, and keeps a value or
two children. A branch that loses its value keeps none, two or more children, or
one at nibble zero that is not a branch. -/
def ErasesAlone : TrieTree → List (Fin 16) → Prop
  | .empty, _ => False
  | .leaf key _, k => key = k
  | .ext label next, k => label <+: k ∧ ErasesAlone next (k.drop label.length)
  | .branch children value, [] =>
    value.isSome ∧ ∀ b, liveChildren children = [b] → b = 0 ∧ isBranch (children b) = false
  | .branch children value, a :: k =>
    ErasesAlone (children a) k ∧ (erase (children a) k).isEmpty = true ∧
      (value.isSome ∨ 2 ≤ (liveChildren (Function.update children a .empty)).length)

variable {children : Fin 16 → TrieTree} {a b : Fin 16}

@[simp] theorem mem_liveChildren : a ∈ liveChildren children ↔ (children a).isEmpty = false := by
  simp [liveChildren]

theorem liveChildren_nodup (children : Fin 16 → TrieTree) : (liveChildren children).Nodup :=
  (nodup_finRange 16).filter _

theorem two_le_liveChildren_iff :
    2 ≤ (liveChildren children).length ↔
      ∃ a b, a ≠ b ∧ (children a).isEmpty = false ∧ (children b).isEmpty = false := by
  constructor
  · intro h
    match hlive : liveChildren children with
    | [] => simp [hlive] at h
    | [a] => simp [hlive] at h
    | a :: b :: rest =>
      have hnodup := liveChildren_nodup children
      rw [hlive, nodup_cons] at hnodup
      refine ⟨a, b, ?_, ?_, ?_⟩
      · rintro rfl
        exact hnodup.1 mem_cons_self
      · exact mem_liveChildren.mp (by rw [hlive]; exact mem_cons_self)
      · exact mem_liveChildren.mp (by rw [hlive]; simp)
  · rintro ⟨a, b, hab, ha, hb⟩
    have hsub : [a, b] ⊆ liveChildren children := by
      simp [ha, hb]
    exact (subperm_of_subset (by simp [hab]) hsub).length_le

theorem liveChildren_eq_nil_iff : liveChildren children = [] ↔ ∀ a, children a = .empty := by
  rw [eq_nil_iff_forall_not_mem]
  refine forall_congr' fun a => ?_
  rw [mem_liveChildren, Bool.not_eq_false]
  exact ⟨eq_empty_of_isEmpty, fun h => by rw [h, isEmpty_empty]⟩

/-- A branch with no value has at least two children. -/
theorem two_le_liveChildren (hwf : (branch children none).WellFormed) :
    2 ≤ (liveChildren children).length := by
  obtain h | h := hwf.1
  · cases h
  · exact two_le_liveChildren_iff.mpr h

theorem eraseChild_of_kept {value : Option Bytes}
    (h : value.isSome ∨ 2 ≤ (liveChildren children).length) :
    eraseChild a children value = branch children value := by
  unfold eraseChild
  split
  · rename_i hlive
    simp [hlive] at h
  · rename_i hlive
    simp [hlive] at h
  · rfl

section

variable {k : List (Fin 16)} {t : TrieTree}

variable {label : List (Fin 16)} {next : TrieTree} {p : Nat}

variable (r : List (Fin 16))

@[simp] theorem erase_ext :
    erase (ext label next) (label ++ r) =
      if (erase next r).isEmpty then .empty else ext label (erase next r) := by
  rw [erase, if_pos (prefix_append _ _), drop_left]

theorem erasesAlone_ext : ErasesAlone (ext label next) (label ++ r) ↔ ErasesAlone next r := by
  rw [ErasesAlone, drop_left, and_iff_right (prefix_append _ _)]

@[simp]
theorem taken_ext : taken (ext label next) (label ++ r) = ext label next :: taken next r := by
  rw [taken, if_pos (prefix_append _ _), drop_left]

theorem present_ext {k : List (Fin 16)}
    (h : ((ext label next).get k).isSome) : ∃ r, k = label ++ r ∧ (next.get r).isSome := by
  by_cases hlabel : label <+: k
  · obtain ⟨r, rfl⟩ := hlabel
    exact ⟨r, rfl, by rwa [get_ext_append] at h⟩
  · rw [get_ext_of_not next hlabel] at h
    cases h

/-- What is deleted was there. -/
theorem ErasesAlone.present (h : ErasesAlone t k) : (t.get k).isSome := by
  induction t generalizing k with
  | empty => cases h
  | leaf key value =>
    cases h
    rw [get_leaf_self]
    rfl
  | ext label next ih =>
    obtain ⟨⟨r, rfl⟩, h⟩ := h
    rw [drop_left] at h
    rw [get_ext_append]
    exact ih h
  | branch children value ih =>
    cases k with
    | nil => exact h.1
    | cons a k => exact ih a h.1

/-- A tree whose only key is deleted is deleted as a whole. -/
theorem erase_only_key (hwf : t.WellFormed) (hpresent : (t.get k).isSome)
    (honly : ∀ j, (t.get j).isSome → j = k) :
    ErasesAlone t k ∧ (erase t k).isEmpty = true := by
  induction t generalizing k with
  | empty => cases hpresent
  | leaf key value =>
    have hkey : key = k := honly key (by rw [get_leaf_self]; rfl)
    exact ⟨hkey, by rw [erase, if_pos hkey, isEmpty_empty]⟩
  | ext label next ih =>
    obtain ⟨r, rfl, hr⟩ := present_ext hpresent
    obtain ⟨halone, hgone⟩ := ih hwf.2.2 hr fun j hj =>
      append_cancel_left (honly (label ++ j) (by rwa [get_ext_append]))
    exact ⟨(erasesAlone_ext r).mpr halone, by rw [erase_ext, if_pos hgone, isEmpty_empty]⟩
  | branch children value ih =>
    -- every child holds a key of its own
    have hchild : ∀ a, (children a).isEmpty = false → ∃ j, k = a :: j := by
      intro a ha
      obtain ⟨j, v, hj⟩ := exists_key (hwf.2 a) ha
      exact ⟨j, (honly (a :: j) (by rw [get_branch_cons, hj]; rfl)).symm⟩
    cases k with
    | nil =>
      have hlive : liveChildren children = [] := by
        rw [eq_nil_iff_forall_not_mem]
        intro a ha
        obtain ⟨j, hj⟩ := hchild a (mem_liveChildren.mp ha)
        cases hj
      refine ⟨⟨hpresent, fun b hb => ?_⟩, ?_⟩
      · rw [hlive] at hb
        cases hb
      · rw [erase, eraseValue, hlive]
        rfl
    | cons a k =>
      obtain hvalue | ⟨b, c, hbc, hb, hc⟩ := hwf.1
      · cases honly [] hvalue
      · obtain ⟨j, hj⟩ := hchild b hb
        obtain ⟨j', hj'⟩ := hchild c hc
        rw [hj, List.cons.injEq] at hj'
        exact absurd hj'.1 hbc

variable {children : Fin 16 → TrieTree} {value : Option Bytes} {a b : Fin 16}

/-- The child at nibble zero, moved up, holds its keys as before. -/
theorem get_hoist_zero (hlive : liveChildren children = [0]) (hleaf : isBranch (children 0) = false)
    (j : List (Fin 16)) : (hoist 0 (children 0)).get j = (branch children none).get j := by
  have hempty : ∀ b, b ≠ 0 → children b = .empty := by
    intro b hb
    apply eq_empty_of_isEmpty
    by_contra hne
    rw [Bool.not_eq_true, ← mem_liveChildren, hlive, mem_singleton] at hne
    exact hb hne
  have hget : (branch children none).get j =
      match j with
      | [] => none
      | b :: j => if b = 0 then (children 0).get j else none := by
    cases j with
    | nil => rfl
    | cons b j =>
      rw [get_branch_cons]
      by_cases hb : b = 0
      · simp [hb]
      · simp [hb, hempty b hb]
  rw [hget]
  cases hchild : children 0 with
  | empty =>
    have hzero : (0 : Fin 16) ∈ liveChildren children := by simp [hlive]
    simp [hchild] at hzero
  | branch children' value' => simp [hchild, isBranch] at hleaf
  | leaf key w =>
    rw [hoist, get_leaf]
    cases j with
    | nil => simp
    | cons b j => simp [eq_comm, ite_and]
  | ext label next =>
    cases j with
    | nil => rw [hoist, get_ext_of_not next (by simp)]
    | cons b j =>
      by_cases hb : b = 0
      · subst hb
        by_cases hlabel : label <+: j
        · obtain ⟨r, rfl⟩ := hlabel
          simp only [hoist, if_true, get_ext_append]
          exact get_ext_append (0 :: label) r next
        · rw [hoist, get_ext_of_not next (by simpa using hlabel)]
          simp [get_ext_of_not next hlabel]
      · rw [hoist, get_ext_of_not next (by simp [Ne.symm hb])]
        simp [hb]

/-- The other keys keep their values, and the key is gone. -/
theorem ErasesAlone.get (hwf : t.WellFormed) (h : ErasesAlone t k) (j : List (Fin 16)) :
    (erase t k).get j = if j = k then none else t.get j := by
  induction t generalizing k j with
  | empty => cases h
  | leaf key value =>
    cases h
    rw [erase, if_pos rfl, get_leaf, get_empty]
    simp only [eq_comm]
    split <;> rfl
  | ext label next ih =>
    obtain ⟨⟨r, rfl⟩, h⟩ := h
    rw [drop_left] at h
    by_cases hlabel : label <+: j
    · obtain ⟨i, rfl⟩ := hlabel
      simp only [erase_ext, get_ext_append, append_cancel_left_eq]
      have hi := ih hwf.2.2 h i
      split
      · rename_i hgone
        rwa [eq_empty_of_isEmpty hgone] at hi
      · rw [get_ext_append, hi]
    · have hne : j ≠ label ++ r := by
        rintro rfl
        exact hlabel (prefix_append _ _)
      rw [erase_ext, if_neg hne, get_ext_of_not next hlabel]
      split
      · rfl
      · exact get_ext_of_not _ hlabel
  | branch children value ih =>
    cases k with
    | nil =>
      have hdrop : (if j = [] then none else (branch children value).get j) =
          (branch children none).get j := by
        cases j <;> rfl
      rw [erase, hdrop]
      unfold eraseValue
      split
      · rename_i hlive
        cases j with
        | nil => rfl
        | cons b j => rw [get_branch_cons, liveChildren_eq_nil_iff.mp hlive b, get_empty,
            get_empty]
      · rename_i b hlive
        obtain ⟨rfl, hleaf⟩ := h.2 b hlive
        exact get_hoist_zero hlive hleaf j
      · rfl
    | cons a k =>
      rw [erase, if_pos h.1.present, eraseChild_of_kept h.2.2]
      cases j with
      | nil => rfl
      | cons b j =>
        rw [get_branch_cons, get_branch_cons]
        by_cases hab : b = a
        · subst hab
          have hj := ih b (hwf.2 b) h.1 j
          rw [eq_empty_of_isEmpty h.2.1] at hj
          rw [update_self, hj]
          simp
        · rw [update_of_ne hab, if_neg (by simp [hab])]

theorem wellFormed_hoist (h : t.WellFormed) (n : Fin 16) : (hoist n t).WellFormed := by
  cases t with
  | ext label next => exact ⟨cons_ne_nil _ _, h.2⟩
  | _ => exact h

theorem wellFormed_eraseValue (h : ∀ a, (children a).WellFormed) :
    (eraseValue children).WellFormed := by
  unfold eraseValue
  split
  · trivial
  · exact wellFormed_hoist (h _) _
  · rename_i hnil hone
    refine ⟨.inr (two_le_liveChildren_iff.mp ?_), h⟩
    match hlive : liveChildren children with
    | [] => exact absurd hlive hnil
    | [b] => exact absurd hlive (hone b)
    | _ :: _ :: _ => simp

theorem wellFormed_eraseChild (h : ∀ a, (children a).WellFormed) :
    (eraseChild a children value).WellFormed := by
  unfold eraseChild
  split
  · trivial
  · exact wellFormed_hoist (h _) _
  · rename_i value _ _ hnil hone
    refine ⟨?_, h⟩
    cases value with
    | some w => exact .inl rfl
    | none =>
      refine .inr (two_le_liveChildren_iff.mp ?_)
      match hlive : liveChildren children with
      | [] => exact absurd hlive (hnil rfl)
      | [b] => exact absurd hlive (hone b rfl)
      | _ :: _ :: _ => simp

theorem wellFormed_erase (hwf : t.WellFormed) : (erase t k).WellFormed := by
  induction t generalizing k with
  | empty => trivial
  | leaf key value =>
    rw [erase]
    split <;> trivial
  | ext label next ih =>
    rw [erase]
    split
    · split
      · trivial
      · rename_i hne
        exact ⟨hwf.1, Bool.not_eq_true _ ▸ hne, ih hwf.2.2⟩
    · exact hwf
  | branch children value ih =>
    cases k with
    | nil => exact wellFormed_eraseValue hwf.2
    | cons a k =>
      rw [erase]
      split
      · refine wellFormed_eraseChild fun b => ?_
        by_cases hab : b = a
        · rw [hab, update_self]
          trivial
        · rw [update_of_ne hab]
          exact hwf.2 b
      · exact hwf

/-- Everything in the tree after a deletion was made on the way or was there. -/
theorem ErasesAlone.occurs {s : TrieTree} (h : ErasesAlone t k) (hs : Occurs s (erase t k))
    (hne : s.isEmpty = false) : Passed (erase t k) k s ∨ Occurs s t := by
  induction t generalizing k with
  | empty => cases h
  | leaf key value =>
    cases h
    rw [erase, if_pos rfl] at hs
    rw [hs] at hne
    cases hne
  | ext label next ih =>
    obtain ⟨⟨r, rfl⟩, h⟩ := h
    rw [drop_left] at h
    rw [erase_ext] at hs ⊢
    split at hs
    · rw [hs] at hne
      cases hne
    · rename_i hlive
      rw [if_neg hlive, passed_ext]
      obtain hs | hs := hs
      · exact .inl (.inl hs)
      · exact (ih h hs).imp .inr .inr
  | branch children value ih =>
    cases k with
    | nil =>
      rw [erase] at hs ⊢
      unfold eraseValue at hs ⊢
      split at hs
      · rw [hs] at hne
        cases hne
      · rename_i b hlive
        obtain ⟨rfl, hleaf⟩ := h.2 b hlive
        have hzero : (children 0).isEmpty = false := mem_liveChildren.mp (by simp [hlive])
        cases hchild : children 0 with
        | empty => simp [hchild] at hzero
        | branch children' value' => simp [hchild, isBranch] at hleaf
        | leaf key w =>
          rw [hchild] at hs
          exact .inl (passed_leaf.mpr hs)
        | ext label next =>
          rw [hchild] at hs
          obtain hs | hs := hs
          · exact .inl ((passed_ext_of_not (by simp)).mpr hs)
          · exact .inr (.inr ⟨0, hzero, by rw [hchild]; exact .inr hs⟩)
      · rw [passed_branch_nil]
        exact hs.imp id .inr
    | cons a k =>
      rw [erase, if_pos h.1.present, eraseChild_of_kept h.2.2] at hs ⊢
      rw [passed_branch]
      obtain hs | ⟨b, hb, hs⟩ := hs
      · exact .inl (.inl hs)
      · have hba : b ≠ a := by
          rintro rfl
          rw [update_self] at hb
          cases hb
        rw [update_of_ne hba] at hb hs
        exact .inr (.inr ⟨b, hb, hs⟩)

/-- A child that moves up keeps its keys only if it is no branch and already had
the nibble that it gets. The keys of a tree have lengths of one parity, which
rules out that a branch is found again one level down. -/
theorem hoist_keeps (hwf : t.WellFormed) (hne : t.isEmpty = false)
    (hparity : ∀ j, (t.get j).isSome → j.length % 2 = p)
    (hkeeps : ∀ j, (t.get j).isSome → ((hoist a t).get (b :: j)).isSome) :
    b = a ∧ isBranch t = false := by
  obtain ⟨j, v, hj⟩ := exists_key hwf hne
  have hsome : (t.get j).isSome := by
    rw [hj]
    rfl
  have hkept := hkeeps j hsome
  cases t with
  | empty => cases hne
  | leaf key value =>
    rw [hoist, get_leaf] at hkept
    split at hkept
    · rename_i heq
      exact ⟨(List.cons.inj heq).1.symm, rfl⟩
    · cases hkept
  | ext label next =>
    refine ⟨?_, rfl⟩
    by_contra hab
    rw [hoist, get_ext_of_not next (by simp [Ne.symm hab])] at hkept
    cases hkept
  | branch children value =>
    have h₁ := hparity j hsome
    have h₂ := hparity (b :: j) hkept
    rw [length_cons] at h₂
    omega

/-- Where all other keys are kept, a value or two other children are left in the branch: an only
child would move up, under the nibble of the deleted key. -/
theorem kept_of_keeps {children : Fin 16 → TrieTree} {value : Option Bytes} {a : Fin 16}
    (hwf : (branch children value).WellFormed)
    (hparity : ∀ b j, ((children b).get j).isSome → j.length % 2 = p)
    (hkeeps : ∀ b j, b ≠ a → ((children b).get j).isSome →
      ((eraseChild a (Function.update children a .empty) value).get (b :: j)).isSome) :
    value.isSome ∨ 2 ≤ (liveChildren (Function.update children a .empty)).length := by
  by_contra hfew
  rw [not_or, Option.not_isSome_iff_eq_none] at hfew
  obtain ⟨rfl, hfew⟩ := hfew
  obtain ⟨b, hba, hb⟩ : ∃ b, b ≠ a ∧ (children b).isEmpty = false := by
    obtain ⟨b, c, hbc, hb, hc⟩ := two_le_liveChildren_iff.mp (two_le_liveChildren hwf)
    by_cases hba : b = a
    · exact ⟨c, fun hca => hbc (hba.trans hca.symm), hc⟩
    · exact ⟨b, hba, hb⟩
  have hmem : b ∈ liveChildren (Function.update children a .empty) := by
    rwa [mem_liveChildren, update_of_ne hba]
  obtain ⟨c, hc⟩ : ∃ c, liveChildren (Function.update children a .empty) = [c] := by
    refine length_eq_one_iff.mp ?_
    have := length_pos_of_mem hmem
    omega
  rw [hc, mem_singleton] at hmem
  subst hmem
  refine hba (hoist_keeps (a := a) (hwf.2 b) hb (hparity b) fun j hj => ?_).1
  have h := hkeeps b j hba hj
  unfold eraseChild at h
  rw [hc] at h
  dsimp only at h
  rwa [update_of_ne hba] at h

/-- A deletion that keeps all other keys is one of those described. -/
theorem erasesAlone_of_keeps (hwf : t.WellFormed) (hpresent : (t.get k).isSome)
    (hparity : ∀ j, (t.get j).isSome → j.length % 2 = p)
    (hkeeps : ∀ j, j ≠ k → (t.get j).isSome → ((erase t k).get j).isSome) :
    ErasesAlone t k := by
  induction t generalizing k p with
  | empty => cases hpresent
  | leaf key value =>
    rw [get_leaf] at hpresent
    split at hpresent
    · assumption
    · cases hpresent
  | ext label next ih =>
    obtain ⟨r, rfl, hr⟩ := present_ext hpresent
    rw [erasesAlone_ext]
    refine ih (p := (p + label.length) % 2) hwf.2.2 hr (fun j hj => ?_) fun j hne hj => ?_
    · have h := hparity (label ++ j) (by rwa [get_ext_append])
      rw [length_append] at h
      omega
    · have h := hkeeps (label ++ j) (by simpa using hne) (by rwa [get_ext_append])
      rw [erase_ext] at h
      split at h
      · cases h
      · rwa [get_ext_append] at h
  | branch children value ih =>
    have hparity' : ∀ b j, ((children b).get j).isSome → j.length % 2 = (p + 1) % 2 := by
      intro b j hj
      have h := hparity (b :: j) hj
      rw [length_cons] at h
      omega
    cases k with
    | nil =>
      refine ⟨hpresent, fun b hb => ?_⟩
      have hlive : (children b).isEmpty = false := mem_liveChildren.mp (by simp [hb])
      refine hoist_keeps (hwf.2 b) hlive (hparity' b) fun j hj => ?_
      have h := hkeeps (b :: j) (by simp) hj
      rwa [erase, eraseValue, hb] at h
    | cons a k =>
      have hpresent' : ((children a).get k).isSome := hpresent
      simp only [erase, if_pos hpresent'] at hkeeps
      have hkept := kept_of_keeps hwf hparity' fun b j hba => hkeeps (b :: j) (by simp [hba])
      rw [eraseChild_of_kept hkept] at hkeeps
      have honly : ∀ j, ((children a).get j).isSome → j = k := by
        intro j hj
        by_contra hne
        have h := hkeeps (a :: j) (by simp [hne]) hj
        rw [get_branch_cons, update_self] at h
        cases h
      obtain ⟨halone, hgone⟩ := erase_only_key (hwf.2 a) hpresent' honly
      exact ⟨halone, hgone, hkept⟩

end

end RustyCoin.TrieTree
