import Mathlib.Data.List.Infix

/-!
# Radix trees

Trees that store values under lists of symbols. A leaf holds the rest of its key,
an extension a label that all keys below it share, and a branch one subtree for
each symbol and the value of the key that ends there. An absent subtree is
`empty`.

Insertion comes in the form that restructures leaves only: a key that leaves an
extension in the middle of its label is dropped, and a key that ends where the
key of a leaf goes on, or goes on where it ends, cannot be inserted. Everything
else about the operation is the textbook one, which `get_insert` states.
-/

inductive RadixTree (σ V : Type) where
  | empty
  | leaf (key : List σ) (value : V)
  | ext (label : List σ) (next : RadixTree σ V)
  | branch (children : σ → RadixTree σ V) (value : Option V)

namespace RadixTree

open List Function Option

variable {σ V : Type}

def isEmpty : RadixTree σ V → Bool
  | .empty => true
  | _ => false

@[simp] theorem isEmpty_empty : (empty : RadixTree σ V).isEmpty = true := rfl

@[simp] theorem isEmpty_leaf (key : List σ) (value : V) : (leaf key value).isEmpty = false := rfl

@[simp] theorem isEmpty_ext (label : List σ) (next : RadixTree σ V) :
    (ext label next).isEmpty = false := rfl

variable (children : σ → RadixTree σ V) (value : Option V)

@[simp] theorem isEmpty_branch : (branch children value).isEmpty = false := rfl

theorem eq_empty_of_isEmpty {t : RadixTree σ V} (h : t.isEmpty = true) : t = .empty := by
  cases t with
  | empty => rfl
  | _ => cases h

theorem isEmpty_of_ne {t : RadixTree σ V} (h : t ≠ .empty) : t.isEmpty = false := by
  cases hempty : t.isEmpty with
  | true => exact absurd (eq_empty_of_isEmpty hempty) h
  | false => rfl

variable [DecidableEq σ]

def get : RadixTree σ V → List σ → Option V
  | .empty, _ => none
  | .leaf key value, k => if key = k then some value else none
  | .ext label next, k => if label <+: k then next.get (k.drop label.length) else none
  | .branch _ value, [] => value
  | .branch children _, a :: k => (children a).get k

/-- The subtrees that a lookup of the key visits. -/
def walk : RadixTree σ V → List σ → List (RadixTree σ V)
  | .empty, _ => [.empty]
  | .leaf key value, _ => [.leaf key value]
  | .ext label next, k =>
    .ext label next :: if label <+: k then next.walk (k.drop label.length) else []
  | .branch children value, [] => [.branch children value]
  | .branch children value, a :: k =>
    .branch children value :: if (children a).isEmpty then [] else (children a).walk k

/-- A branch over two leaves with different first symbols. -/
def fork (a : σ) (k₁ : List σ) (v₁ : V) (b : σ) (k₂ : List σ) (v₂ : V) : RadixTree σ V :=
  .branch (Function.update (Function.update (fun _ => .empty) a (.leaf k₁ v₁)) b (.leaf k₂ v₂)) none

/-- The longest list that both keys start with. -/
def commonLabel : List σ → List σ → List σ
  | a :: k₁, b :: k₂ => if a = b then a :: commonLabel k₁ k₂ else []
  | _, _ => []

def extend (label : List σ) (t : RadixTree σ V) : RadixTree σ V :=
  if label = [] then t else .ext label t

variable (k₁ : List σ) (v₁ : V) (k₂ : List σ) (v₂ : V)

/-- Two leaves under their common label: none where one key ends inside the
other. -/
def splitLeaf : Option (RadixTree σ V) :=
  let label := commonLabel k₁ k₂
  match k₁.drop label.length, k₂.drop label.length with
  | a :: r₁, b :: r₂ => some (extend label (fork a r₁ v₁ b r₂ v₂))
  | _, _ => none

def insert : RadixTree σ V → List σ → V → Option (RadixTree σ V)
  | .empty, k, v => some (.leaf k v)
  | .leaf key value, k, v => if key = k then some (.leaf k v) else splitLeaf key value k v
  | .ext label next, k, v =>
    if label <+: k then (next.insert (k.drop label.length) v).map (.ext label ·)
    else some (.ext label next)
  | .branch children _, [], v => some (.branch children (some v))
  | .branch children value, a :: k, v =>
    ((children a).insert k v).map fun t => .branch (Function.update children a t) value

/-- Does the key leave an extension in the middle of its label? -/
def drops : RadixTree σ V → List σ → Bool
  | .ext label next, k => if label <+: k then next.drops (k.drop label.length) else true
  | .branch children _, a :: k => (children a).drops k
  | _, _ => false

/-- Does the key end inside the key of the leaf it meets, or go on after it? -/
def conflicts : RadixTree σ V → List σ → Bool
  | .leaf key _, k => key ≠ k ∧ (key <+: k ∨ k <+: key)
  | .ext label next, k => if label <+: k then next.conflicts (k.drop label.length) else false
  | .branch children _, a :: k => (children a).conflicts k
  | _, _ => false

/-- Induction along the way to a key. -/
@[elab_as_elim] theorem walk_induction {motive : RadixTree σ V → List σ → Prop}
    (empty : ∀ k, motive .empty k) (leaf : ∀ key value k, motive (.leaf key value) k)
    (along : ∀ label next r, motive next r → motive (.ext label next) (label ++ r))
    (off : ∀ label next k, ¬ label <+: k → motive (.ext label next) k)
    (value : ∀ children value, motive (.branch children value) [])
    (child : ∀ children value a r, motive (children a) r → motive (.branch children value) (a :: r))
    (t : RadixTree σ V) (k : List σ) : motive t k := by
  induction t generalizing k with
  | empty => exact empty k
  | leaf key v => exact leaf key v k
  | ext label next ih =>
    by_cases hlabel : label <+: k
    · obtain ⟨r, rfl⟩ := hlabel
      exact along label next r (ih r)
    · exact off label next k hlabel
  | branch children v ih =>
    cases k with
    | nil => exact value children v
    | cons a r => exact child children v a r (ih a r)

@[simp] theorem get_empty (k : List σ) : (empty : RadixTree σ V).get k = none := rfl

@[simp] theorem get_leaf (key k : List σ) (value : V) :
    (leaf key value).get k = if key = k then some value else none := rfl

@[simp] theorem get_leaf_self (key : List σ) (value : V) :
    (leaf key value).get key = some value := if_pos rfl

@[simp] theorem get_ext_append (label k : List σ) (next : RadixTree σ V) :
    (ext label next).get (label ++ k) = next.get k := by
  simp [get]

theorem get_ext_of_not {label k : List σ} (next : RadixTree σ V) (h : ¬ label <+: k) :
    (ext label next).get k = none := if_neg h

@[simp] theorem get_branch_nil : (branch children value).get [] = value := rfl

@[simp] theorem get_branch_cons (a : σ)
    (k : List σ) : (branch children value).get (a :: k) = (children a).get k := rfl

@[simp] theorem get_extend_append (label k : List σ) (t : RadixTree σ V) :
    (extend label t).get (label ++ k) = t.get k := by
  unfold extend
  split
  · rename_i h
    rw [h, nil_append]
  · exact get_ext_append label k t

theorem get_extend_of_not {label k : List σ} (t : RadixTree σ V) (h : ¬ label <+: k) :
    (extend label t).get k = none := by
  unfold extend
  split
  · rename_i hnil
    exact absurd (hnil ▸ nil_prefix) h
  · exact get_ext_of_not t h

@[simp] theorem commonLabel_append (p k₁ k₂ : List σ) :
    commonLabel (p ++ k₁) (p ++ k₂) = p ++ commonLabel k₁ k₂ := by
  induction p with
  | nil => rfl
  | cons a p ih => simp [commonLabel, ih]

variable {a b : σ}

theorem commonLabel_of_ne (h : a ≠ b) (k₁ k₂ : List σ) :
    commonLabel (a :: k₁) (b :: k₂) = [] := if_neg h

/-- Two keys part at a symbol, or one of them goes on where the other ends. -/
theorem keys_part (k₁ k₂ : List σ) :
    (∃ p a r₁ b r₂, a ≠ b ∧ k₁ = p ++ a :: r₁ ∧ k₂ = p ++ b :: r₂) ∨ k₁ <+: k₂ ∨ k₂ <+: k₁ := by
  induction k₁ generalizing k₂ with
  | nil => exact .inr (.inl nil_prefix)
  | cons a k₁ ih =>
    cases k₂ with
    | nil => exact .inr (.inr nil_prefix)
    | cons b k₂ =>
      by_cases hab : a = b
      · subst hab
        obtain ⟨p, c, r₁, d, r₂, hcd, h₁, h₂⟩ | h | h := ih k₂
        · exact .inl ⟨a :: p, c, r₁, d, r₂, hcd, by simp [h₁], by simp [h₂]⟩
        · exact .inr (.inl (prefix_cons_inj a |>.mpr h))
        · exact .inr (.inr (prefix_cons_inj a |>.mpr h))
      · exact .inl ⟨[], a, k₁, b, k₂, hab, rfl, rfl⟩

theorem splitLeaf_part (h : a ≠ b) (p r₁ r₂ : List σ) (v₁ v₂ : V) :
    splitLeaf (p ++ a :: r₁) v₁ (p ++ b :: r₂) v₂ = some (extend p (fork a r₁ v₁ b r₂ v₂)) := by
  have hlabel : commonLabel (p ++ a :: r₁) (p ++ b :: r₂) = p := by
    rw [commonLabel_append, commonLabel_of_ne h, append_nil]
  simp [splitLeaf, hlabel]

@[simp] theorem commonLabel_nil_right (k : List σ) : commonLabel k [] = [] := by
  cases k <;> rfl

@[simp] theorem splitLeaf_left (k r : List σ) (v₁ v₂ : V) : splitLeaf k v₁ (k ++ r) v₂ = none := by
  have hlabel : commonLabel k (k ++ r) = k := by
    simpa [commonLabel] using commonLabel_append k [] r
  simp [splitLeaf, hlabel]

@[simp] theorem splitLeaf_right (k r : List σ) (v₁ v₂ : V) : splitLeaf (k ++ r) v₁ k v₂ = none := by
  have hlabel : commonLabel (k ++ r) k = k := by
    simpa using commonLabel_append k r []
  simp only [splitLeaf, hlabel, drop_left, drop_length]

/-- What splitting a leaf does: it puts the two leaves under a fork, or fails
because one key ends inside the other. -/
theorem splitLeaf_cases :
    (∃ p a r₁ b r₂, a ≠ b ∧ k₁ = p ++ a :: r₁ ∧ k₂ = p ++ b :: r₂ ∧
      splitLeaf k₁ v₁ k₂ v₂ = some (extend p (fork a r₁ v₁ b r₂ v₂))) ∨
    ((k₁ <+: k₂ ∨ k₂ <+: k₁) ∧ splitLeaf k₁ v₁ k₂ v₂ = none) := by
  obtain ⟨p, a, r₁, b, r₂, hab, rfl, rfl⟩ | ⟨r, rfl⟩ | ⟨r, rfl⟩ := keys_part k₁ k₂
  · exact .inl ⟨p, a, r₁, b, r₂, hab, rfl, rfl, splitLeaf_part hab p r₁ r₂ v₁ v₂⟩
  · exact .inr ⟨.inl (prefix_append k₁ r), splitLeaf_left k₁ r v₁ v₂⟩
  · exact .inr ⟨.inr (prefix_append k₂ r), splitLeaf_right k₂ r v₁ v₂⟩

theorem get_fork (h : a ≠ b) (r₁ r₂ : List σ) (v₁ v₂ : V) (j : List σ) :
    (fork a r₁ v₁ b r₂ v₂).get j =
      if j = b :: r₂ then some v₂ else if a :: r₁ = j then some v₁ else none := by
  cases j with
  | nil => simp [fork]
  | cons c j =>
    rw [fork, get_branch_cons]
    by_cases hb : c = b
    · subst hb
      rw [update_self, get_leaf]
      by_cases hj : r₂ = j
      · simp [hj]
      · simp [hj, Ne.symm hj, h]
    · rw [update_of_ne hb]
      by_cases ha : c = a
      · subst ha
        rw [update_self, get_leaf]
        simp [hb]
      · rw [update_of_ne ha]
        simp [hb, Ne.symm ha]

variable {t t' : RadixTree σ V} {k : List σ} {v : V}

variable (label r : List σ) (next : RadixTree σ V)

@[simp] theorem insert_ext_append (v : V) :
    (ext label next).insert (label ++ r) v = (next.insert r v).map (.ext label ·) := by
  simp [insert]

variable (next : RadixTree σ V) {label : List σ}

theorem insert_ext_of_not (h : ¬ label <+: k) (v : V) :
    (ext label next).insert k v = some (.ext label next) := if_neg h

@[simp] theorem drops_ext_append : (ext label next).drops (label ++ r) = next.drops r := by
  simp [drops]

@[simp] theorem conflicts_ext_append :
    (ext label next).conflicts (label ++ r) = next.conflicts r := by
  simp [conflicts]

theorem conflicts_ext_of_not (h : ¬ label <+: k) : (ext label next).conflicts k = false := if_neg h

/-- A dropped key leaves the tree as it was. -/
theorem insert_of_drops (h : t.drops k = true) (v : V) : t.insert k v = some t := by
  induction t, k using walk_induction with
  | empty | leaf | value => cases h
  | along label next r ih =>
    rw [drops_ext_append] at h
    rw [insert_ext_append, ih h, map_some]
  | off label next k hlabel => exact insert_ext_of_not next hlabel v
  | child children value a r ih =>
    rw [insert, ih h]
    simp

/-- A dropped key is absent. -/
theorem get_of_drops (h : t.drops k = true) : t.get k = none := by
  induction t, k using walk_induction with
  | empty | leaf | value => cases h
  | along label next r ih =>
    rw [drops_ext_append] at h
    rw [get_ext_append, ih h]
  | off label next k hlabel => exact get_ext_of_not next hlabel
  | child children value a r ih => exact ih h

/-- The tree before and after the insertion of a key. -/
inductive Inserts (v : V) : RadixTree σ V → List σ → RadixTree σ V → Prop
  | empty (k : List σ) : Inserts v .empty k (.leaf k v)
  | same (k : List σ) (value : V) : Inserts v (.leaf k value) k (.leaf k v)
  | split (p r₁ r₂ : List σ) (value : V) {a b : σ} (hab : a ≠ b) :
      Inserts v (.leaf (p ++ a :: r₁) value) (p ++ b :: r₂) (extend p (fork a r₁ value b r₂ v))
  | along (label : List σ) {next next' : RadixTree σ V} {r : List σ}
      (hnext : Inserts v next r next') :
      Inserts v (.ext label next) (label ++ r) (.ext label next')
  | off {label k : List σ} (next : RadixTree σ V) (hlabel : ¬ label <+: k) :
      Inserts v (.ext label next) k (.ext label next)
  | value (children : σ → RadixTree σ V) (value : Option V) :
      Inserts v (.branch children value) [] (.branch children (some v))
  | child {children : σ → RadixTree σ V} (value : Option V) {a : σ} {r : List σ}
      {c : RadixTree σ V} (hchild : Inserts v (children a) r c) :
      Inserts v (.branch children value) (a :: r) (.branch (Function.update children a c) value)

variable (h : t.insert k v = some t')

include h

theorem inserts_of_insert : Inserts v t k t' := by
  induction t, k using walk_induction generalizing t' with
  | empty k =>
    cases h
    exact .empty k
  | leaf key value k =>
    rw [insert] at h
    split at h
    · rename_i hkey
      cases h
      exact hkey ▸ .same key value
    · obtain ⟨p, a, r₁, b, r₂, hab, rfl, rfl, hsplit⟩ | ⟨-, hsplit⟩ :=
        splitLeaf_cases key value k v
      · rw [hsplit] at h
        cases h
        exact .split p r₁ r₂ value hab
      · rw [hsplit] at h
        cases h
  | along label next r ih =>
    rw [insert_ext_append] at h
    obtain ⟨next', hnext, rfl⟩ := map_eq_some_iff.mp h
    exact .along label (ih hnext)
  | off label next k hlabel =>
    rw [insert_ext_of_not next hlabel] at h
    cases h
    exact .off next hlabel
  | value children value =>
    cases h
    exact .value children value
  | child children value a r ih =>
    obtain ⟨c, hchild, rfl⟩ := map_eq_some_iff.mp h
    exact .child value (ih hchild)

/-- Insertion of a key that is not dropped stores the value there and leaves the
other keys alone. -/
theorem get_insert (hdrops : t.drops k = false) (j : List σ) :
    t'.get j = if j = k then some v else t.get j := by
  replace h := inserts_of_insert h
  induction h generalizing j with
  | empty k => simp only [get_leaf, get_empty, eq_comm (b := k)]
  | same k value =>
    simp only [get_leaf, eq_comm (b := k)]
    split <;> rfl
  | split p r₁ r₂ value hab =>
    by_cases hj : p <+: j
    · obtain ⟨j, rfl⟩ := hj
      simp only [get_extend_append, get_fork hab, get_leaf, append_cancel_left_eq]
    · rw [get_extend_of_not _ hj, get_leaf, if_neg, if_neg]
      all_goals
        rintro rfl
        exact hj (prefix_append _ _)
  | @along label next next' r _ ih =>
    rw [drops_ext_append] at hdrops
    by_cases hj : label <+: j
    · obtain ⟨j, rfl⟩ := hj
      simp only [get_ext_append, append_cancel_left_eq, ih hdrops]
    · rw [get_ext_of_not _ hj, get_ext_of_not _ hj, if_neg]
      rintro rfl
      exact hj (prefix_append _ _)
  | off next hlabel => simp [drops, hlabel] at hdrops
  | value children value => cases j <;> simp
  | @child children value a r c _ ih =>
    cases j with
    | nil => simp
    | cons b j =>
      rw [get_branch_cons]
      by_cases hab : b = a
      · subst hab
        rw [update_self, ih hdrops]
        simp
      · rw [update_of_ne hab]
        simp [hab]

/-- After an insertion only the inserted key can be new. -/
theorem key_of_get_insert {j : List σ} (hj : (t'.get j).isSome) : j = k ∨ (t.get j).isSome := by
  cases hdrops : t.drops k with
  | true =>
    rw [insert_of_drops hdrops, Option.some.injEq] at h
    exact .inr (h ▸ hj)
  | false =>
    rw [get_insert h hdrops] at hj
    split at hj
    · exact .inl ‹_›
    · exact .inr hj

omit h in
/-- Exactly the conflicting keys cannot be inserted. -/
theorem insert_eq_none_iff (t : RadixTree σ V) (k : List σ) (v : V) :
    t.insert k v = none ↔ t.conflicts k = true := by
  induction t, k using walk_induction with
  | empty | value => simp [insert, conflicts]
  | leaf key value k =>
    unfold insert conflicts
    by_cases hkey : key = k
    · simp [hkey]
    · obtain ⟨p, a, r₁, b, r₂, hab, rfl, rfl, hsplit⟩ | ⟨hpart, hsplit⟩ :=
        splitLeaf_cases key value k v
      · simp [hsplit, prefix_append_right_inj, cons_prefix_cons, hab, Ne.symm hab]
      · simp [hkey, hsplit, hpart]
  | along label next r ih => simp [ih]
  | off label next k hlabel => simp [insert_ext_of_not, conflicts_ext_of_not, hlabel]
  | child children value a r ih => rw [insert, conflicts, map_eq_none_iff, ih]

theorem conflicts_of_insert : t.conflicts k = false := by
  rw [Bool.eq_false_iff, Ne, ← insert_eq_none_iff t k v, h]
  exact some_ne_none t'

omit h

/-- A key conflicts with no tree whose keys it neither extends nor starts. -/
theorem conflicts_of_apart (hapart : ∀ j v, t.get j = some v → j <+: k ∨ k <+: j → j = k) :
    t.conflicts k = false := by
  induction t, k using walk_induction with
  | empty | value => rfl
  | leaf key value k =>
    simp only [conflicts, decide_eq_false_iff_not, not_and]
    intro hne hprefix
    exact hne (hapart key value (get_leaf_self key value) hprefix)
  | along label next r ih =>
    rw [conflicts_ext_append]
    refine ih fun j v hj hprefix => append_right_injective label ?_
    refine hapart (label ++ j) v (by rw [get_ext_append, hj]) ?_
    rwa [prefix_append_right_inj, prefix_append_right_inj]
  | off label next k hlabel => exact conflicts_ext_of_not next hlabel
  | child children value a k ih =>
    refine ih fun j v hj hprefix => tail_eq_of_cons_eq (hapart (a :: j) v hj ?_)
    simpa [cons_prefix_cons] using hprefix

section

/-- Extensions have a label and something below it, and branches are not left
with a single child and no value. -/
def WellFormed : RadixTree σ V → Prop
  | .empty => True
  | .leaf _ _ => True
  | .ext label next => label ≠ [] ∧ next.isEmpty = false ∧ next.WellFormed
  | .branch children value =>
    (value.isSome ∨ ∃ a b, a ≠ b ∧ (children a).isEmpty = false ∧ (children b).isEmpty = false) ∧
    ∀ a, (children a).WellFormed

variable (label : List σ) {t : RadixTree σ V}

omit [DecidableEq σ] in
theorem isEmpty_extend (h : t.isEmpty = false) : (extend label t).isEmpty = false := by
  unfold extend
  split
  · exact h
  · rfl

omit [DecidableEq σ] in
theorem wellFormed_extend (hne : t.isEmpty = false)
    (h : t.WellFormed) : (extend label t).WellFormed := by
  unfold extend
  split
  · exact h
  · exact ⟨‹_›, hne, h⟩

/-- A tree that is not empty holds a key. -/
theorem exists_key {t : RadixTree σ V} (hwf : t.WellFormed) (hne : t.isEmpty = false) :
    ∃ k v, t.get k = some v := by
  induction t with
  | empty => cases hne
  | leaf key value => exact ⟨key, value, get_leaf_self key value⟩
  | ext label next ih =>
    obtain ⟨k, v, hk⟩ := ih hwf.2.2 hwf.2.1
    exact ⟨label ++ k, v, by rw [get_ext_append, hk]⟩
  | branch children value ih =>
    obtain hvalue | ⟨a, -, -, ha, -⟩ := hwf.1
    · obtain ⟨v, hv⟩ := isSome_iff_exists.mp hvalue
      exact ⟨[], v, hv⟩
    · obtain ⟨k, v, hk⟩ := ih a (hwf.2 a) ha
      exact ⟨a :: k, v, hk⟩

variable {a b : σ}

theorem fork_children (h : a ≠ b) (r₁ r₂ : List σ) (v₁ v₂ : V) (c : σ) :
    Function.update (Function.update (fun _ => (.empty : RadixTree σ V)) a (.leaf r₁ v₁)) b
        (.leaf r₂ v₂) c =
      if c = a then .leaf r₁ v₁ else if c = b then .leaf r₂ v₂ else .empty := by
  by_cases hb : c = b
  · subst hb
    simp [Ne.symm h]
  · rw [update_of_ne hb]
    by_cases ha : c = a
    · subst ha
      simp
    · simp [ha, hb]

theorem wellFormed_fork (h : a ≠ b) (r₁ r₂ : List σ) (v₁ v₂ : V) :
    (fork a r₁ v₁ b r₂ v₂).WellFormed := by
  refine ⟨.inr ⟨a, b, h, ?_, ?_⟩, fun c => ?_⟩
  · rw [fork_children h, if_pos rfl, isEmpty_leaf]
  · rw [fork_children h, if_neg (Ne.symm h), if_pos rfl, isEmpty_leaf]
  · rw [fork_children h]
    split
    · trivial
    · split <;> trivial

variable {t t' : RadixTree σ V} {k : List σ} {v : V}

/-- A child that was there is still there when one of them has grown. -/
theorem isEmpty_update {children : σ → RadixTree σ V} {c : RadixTree σ V}
    (hc : c.isEmpty = false) (hb : (children b).isEmpty = false) :
    (Function.update children a c b).isEmpty = false := by
  by_cases hab : b = a
  · rw [hab, update_self, hc]
  · rw [update_of_ne hab, hb]

theorem Inserts.isEmpty (h : Inserts v t k t') : t'.isEmpty = false := by
  cases h with
  | split p => exact isEmpty_extend p rfl
  | _ => rfl

theorem isEmpty_insert (h : t.insert k v = some t') : t'.isEmpty = false :=
  (inserts_of_insert h).isEmpty

theorem wellFormed_insert (hwf : t.WellFormed) (h : t.insert k v = some t') :
    t'.WellFormed := by
  replace h := inserts_of_insert h
  induction h with
  | empty | same => trivial
  | split p r₁ r₂ value hab => exact wellFormed_extend p rfl (wellFormed_fork hab r₁ r₂ value v)
  | along label hnext ih => exact ⟨hwf.1, hnext.isEmpty, ih hwf.2.2⟩
  | off => exact hwf
  | value => exact ⟨.inl rfl, hwf.2⟩
  | @child children value a r c hchild ih =>
    refine ⟨?_, (forall_update_iff children fun _ => WellFormed).mpr
      ⟨ih (hwf.2 a), fun b _ => hwf.2 b⟩⟩
    obtain hvalue | ⟨b, d, hbd, hb, hd⟩ := hwf.1
    · exact .inl hvalue
    · exact .inr ⟨b, d, hbd, isEmpty_update hchild.isEmpty hb, isEmpty_update hchild.isEmpty hd⟩

end

end RadixTree
