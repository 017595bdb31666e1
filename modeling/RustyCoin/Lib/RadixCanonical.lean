import RustyCoin.Lib.RadixTree

/-!
# Canonical radix trees

A tree is canonical when no node could be left out: an extension leads to a
branch, and a branch holds at least two of a value and its subtrees. A canonical
tree is determined by the map it stands for, so the order in which keys were
inserted cannot be seen in it.
-/

namespace RadixTree

open List

variable {σ V : Type}

def Canonical : RadixTree σ V → Prop
  | .empty => True
  | .leaf _ _ => True
  | .ext label next =>
    label ≠ [] ∧ (∃ children value, next = .branch children value) ∧ next.Canonical
  | .branch children value =>
    ((∃ a b, a ≠ b ∧ (children a).isEmpty = false ∧ (children b).isEmpty = false) ∨
      value.isSome ∧ ∃ a, (children a).isEmpty = false) ∧
    ∀ a, (children a).Canonical

theorem Canonical.wellFormed {t : RadixTree σ V} (h : t.Canonical) : t.WellFormed := by
  induction t with
  | empty => trivial
  | leaf key value => trivial
  | ext label next ih =>
    obtain ⟨hlabel, ⟨children, value, rfl⟩, hnext⟩ := h
    exact ⟨hlabel, rfl, ih hnext⟩
  | branch children value ih =>
    refine ⟨?_, fun a => ih a (h.2 a)⟩
    obtain htwo | ⟨hvalue, -⟩ := h.1
    · exact .inr htwo
    · exact .inl hvalue

variable [DecidableEq σ]

variable {t t' : RadixTree σ V} {k : List σ} {v : V}

theorem canonical_fork {a b : σ} (h : a ≠ b) (r₁ r₂ : List σ) (v₁ v₂ : V) :
    (fork a r₁ v₁ b r₂ v₂).Canonical := by
  refine ⟨.inl ⟨a, b, h, ?_, ?_⟩, fun c => ?_⟩
  · rw [fork_children h, if_pos rfl, isEmpty_leaf]
  · rw [fork_children h, if_neg (Ne.symm h), if_pos rfl, isEmpty_leaf]
  · rw [fork_children h]
    split
    · trivial
    · split <;> trivial

theorem canonical_insert (hc : t.Canonical) (h : t.insert k v = some t') : t'.Canonical := by
  replace h := inserts_of_insert h
  induction h with
  | empty | same => trivial
  | split p r₁ r₂ value hab =>
    have hfork := canonical_fork hab r₁ r₂ value v
    unfold extend
    split
    · exact hfork
    · exact ⟨‹_›, ⟨_, _, rfl⟩, hfork⟩
  | along label hnext ih =>
    obtain ⟨hlabel, ⟨children, value, rfl⟩, hbelow⟩ := hc
    refine ⟨hlabel, ?_, ih hbelow⟩
    cases hnext with
    | value | child => exact ⟨_, _, rfl⟩
  | off => exact hc
  | value =>
    refine ⟨.inr ⟨rfl, ?_⟩, hc.2⟩
    obtain ⟨a, -, -, ha, -⟩ | ⟨-, a, ha⟩ := hc.1
    all_goals exact ⟨a, ha⟩
  | @child children value a r c hchild ih =>
    refine ⟨?_, (Function.forall_update_iff children fun _ => Canonical).mpr
      ⟨ih (hc.2 a), fun b _ => hc.2 b⟩⟩
    obtain ⟨b, d, hbd, hb, hd⟩ | ⟨hvalue, b, hb⟩ := hc.1
    · exact .inl ⟨b, d, hbd, isEmpty_update hchild.isEmpty hb, isEmpty_update hchild.isEmpty hd⟩
    · exact .inr ⟨hvalue, b, isEmpty_update hchild.isEmpty hb⟩

variable {children : σ → RadixTree σ V} {value : Option V}

variable (hc : (branch children value).Canonical)

include hc

variable {label : List σ} {next : RadixTree σ V}

/-- The keys of a canonical branch share no label. -/
theorem exists_key_off_label
    (hlabel : label ≠ []) : ∃ k v, (branch children value).get k = some v ∧ ¬ label <+: k := by
  obtain ⟨c, label, rfl⟩ := exists_cons_of_ne_nil hlabel
  obtain ⟨a, b, hab, ha, hb⟩ | ⟨hvalue, -⟩ := hc.1
  · -- one of the two subtrees is not under the first symbol of the label
    obtain ⟨d, hd, hcd⟩ : ∃ d, (children d).isEmpty = false ∧ c ≠ d := by
      by_cases hca : c = a
      · exact ⟨b, hb, hca ▸ hab⟩
      · exact ⟨a, ha, hca⟩
    obtain ⟨k, v, hk⟩ := exists_key (hc.2 d).wellFormed hd
    refine ⟨d :: k, v, hk, fun h => hcd ?_⟩
    exact (cons_prefix_cons.mp h).1
  · obtain ⟨v, hv⟩ := Option.isSome_iff_exists.mp hvalue
    exact ⟨[], v, hv, by simp⟩

theorem exists_two_keys :
    ∃ j k, j ≠ k ∧ ((branch children value).get j).isSome ∧
      ((branch children value).get k).isSome := by
  obtain ⟨a, b, hab, ha, hb⟩ | ⟨hvalue, a, ha⟩ := hc.1
  · obtain ⟨j, v, hj⟩ := exists_key (hc.2 a).wellFormed ha
    obtain ⟨k, w, hk⟩ := exists_key (hc.2 b).wellFormed hb
    refine ⟨a :: j, b :: k, by simp [hab], ?_, ?_⟩
    · rw [get_branch_cons, hj]
      rfl
    · rw [get_branch_cons, hk]
      rfl
  · obtain ⟨j, v, hj⟩ := exists_key (hc.2 a).wellFormed ha
    refine ⟨[], a :: j, by simp, hvalue, ?_⟩
    rw [get_branch_cons, hj]
    rfl

omit hc in
theorem leaf_ne_two_keys {key : List σ} {w : V} {t : RadixTree σ V}
    (h : ∀ k, (leaf key w).get k = t.get k) {j k : List σ} (hjk : j ≠ k)
    (hj : (t.get j).isSome) (hk : (t.get k).isSome) : False := by
  rw [← h, get_leaf] at hj hk
  split at hj
  · split at hk
    · rename_i h₁ h₂
      exact hjk (h₁.symm.trans h₂)
    · cases hk
  · cases hj

omit hc in
/-- An extension and a canonical branch never stand for one map. -/
theorem ext_ne_branch (hlabel : label ≠ [])
    (hc : (branch children value).Canonical)
    (h : ∀ k, (ext label next).get k = (branch children value).get k) : False := by
  obtain ⟨k, v, hk, hoff⟩ := exists_key_off_label hc hlabel
  rw [← h, get_ext_of_not next hoff] at hk
  cases hk

/-- Of two extensions for one map, neither label goes on after the other. -/
theorem ext_label_le {more : List σ}
    (h : ∀ k, (ext label (branch children value)).get k = (ext (label ++ more) next).get k) :
    more = [] := by
  by_contra hmore
  obtain ⟨k, v, hk, hoff⟩ := exists_key_off_label hc hmore
  have hget := h (label ++ k)
  rw [get_ext_append, hk, get_ext_of_not] at hget
  · cases hget
  · rwa [prefix_append_right_inj]

omit hc

/-- Canonical trees for the same map are equal. -/
theorem Canonical.eq_of_get {t t' : RadixTree σ V} (hc : t.Canonical) (hc' : t'.Canonical)
    (h : ∀ k, t.get k = t'.get k) : t = t' := by
  induction t generalizing t' with
  | empty =>
    cases hempty : t'.isEmpty with
    | true => exact (eq_empty_of_isEmpty hempty).symm
    | false =>
      obtain ⟨k, v, hk⟩ := exists_key hc'.wellFormed hempty
      rw [← h] at hk
      cases hk
  | leaf key value =>
    cases t' with
    | empty =>
      have hkey := h key
      rw [get_leaf_self] at hkey
      cases hkey
    | leaf key' value' =>
      have hkey := h key
      rw [get_leaf_self, get_leaf] at hkey
      split at hkey
      · rename_i heq
        rw [heq, Option.some.inj hkey]
      · cases hkey
    | ext label next =>
      obtain ⟨hlabel, ⟨children, value', rfl⟩, hnext⟩ := hc'
      obtain ⟨j, k, hjk, hj, hk⟩ := exists_two_keys hnext
      rw [← get_ext_append label] at hj hk
      exact (leaf_ne_two_keys h (by simpa using hjk) hj hk).elim
    | branch children value' =>
      obtain ⟨j, k, hjk, hj, hk⟩ := exists_two_keys hc'
      exact (leaf_ne_two_keys h hjk hj hk).elim
  | ext label next ih =>
    obtain ⟨hlabel, ⟨children, value, rfl⟩, hnext⟩ := hc
    cases t' with
    | empty =>
      obtain ⟨k, v, hk⟩ := exists_key hnext.wellFormed rfl
      rw [← get_ext_append label, h] at hk
      cases hk
    | leaf key' value' =>
      obtain ⟨j, k, hjk, hj, hk⟩ := exists_two_keys hnext
      rw [← get_ext_append label] at hj hk
      exact (leaf_ne_two_keys (fun k => (h k).symm) (by simpa using hjk) hj hk).elim
    | ext label' next' =>
      obtain ⟨hlabel', ⟨children', value', rfl⟩, hnext'⟩ := hc'
      -- some key starts with both labels, so one label starts with the other
      obtain ⟨k, v, hk⟩ := exists_key hnext.wellFormed rfl
      rw [← get_ext_append label, h] at hk
      have hboth : label' <+: label ++ k := by
        by_contra hoff
        rw [get_ext_of_not _ hoff] at hk
        cases hk
      have hsame : label = label' := by
        obtain ⟨more, rfl⟩ | ⟨more, rfl⟩ :=
          prefix_or_prefix_of_prefix (prefix_append label k) hboth
        · rw [ext_label_le hnext h, append_nil]
        · rw [ext_label_le hnext' fun k => (h k).symm, append_nil]
      subst hsame
      have hbelow : branch children value = branch children' value' := by
        refine ih hnext hnext' fun k => ?_
        rw [← get_ext_append label, h, get_ext_append]
      rw [hbelow]
    | branch children' value' => exact (ext_ne_branch hlabel hc' h).elim
  | branch children value ih =>
    cases t' with
    | empty =>
      obtain ⟨k, v, hk⟩ := exists_key hc.wellFormed rfl
      rw [h] at hk
      cases hk
    | leaf key' value' =>
      obtain ⟨j, k, hjk, hj, hk⟩ := exists_two_keys hc
      exact (leaf_ne_two_keys (fun k => (h k).symm) hjk hj hk).elim
    | ext label next => exact (ext_ne_branch hc'.1 hc fun k => (h k).symm).elim
    | branch children' value' =>
      have hvalue : value = value' := h []
      have hchildren : children = children' := by
        funext a
        exact ih a (hc.2 a) (hc'.2 a) fun k => h (a :: k)
      rw [hvalue, hchildren]

end RadixTree
