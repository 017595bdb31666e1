import Mathlib.Tactic.FinCases
import RustyCoin.Trie.Insert

/-!
# Runs of insertions

A trie represents a tree when its root is the tree's hash and all nodes of the
tree are stored; lookups then return what the tree holds. A run of insertions
keeps the trie and the map it should hold together exactly as long as every
insertion is safe: it does not stop inside an extension, it does not abort at a
leaf, and the nodes it takes out of the store are not needed by the new tree.

The plain hasher keeps the serialized node as its own digest. It shows that
collision freedom can be met, and it makes the trie computable.
-/

namespace RustyCoin

open List

namespace PlainHasher

/-- What follows an encoded value can be told from the value. -/
def Delimits {α : Type} (encode : α → Bytes) : Prop :=
  ∀ a b r s, encode a ++ r = encode b ++ s → a = b ∧ r = s

/-- Every byte is announced by a one; a zero ends the string. -/
def encodeBytes : Bytes → Bytes
  | [] => [0]
  | b :: bs => 1 :: b :: encodeBytes bs

def encodeOption : Option Bytes → Bytes
  | none => [0]
  | some bs => 1 :: encodeBytes bs

def encodeList : List (Option Bytes) → Bytes
  | [] => [0]
  | o :: os => 1 :: (encodeOption o ++ encodeList os)

def serialize : TrieNode Bytes → Bytes
  | .empty => [0]
  | .leaf keyEnd value => 1 :: (encodeBytes keyEnd ++ encodeBytes value)
  | .extension label nextHash => 2 :: (encodeBytes label ++ encodeBytes nextHash)
  | .branch children value => 3 :: (encodeList (List.ofFn children) ++ encodeOption value)

theorem Delimits.injective {α : Type} {encode : α → Bytes} (h : Delimits encode) :
    Function.Injective encode := by
  intro a b hab
  exact (h a b [] [] (by rw [hab])).1

theorem delimits_encodeBytes : Delimits encodeBytes := by
  intro a
  induction a with
  | nil =>
    intro b r s h
    cases b with
    | nil => exact ⟨rfl, by simpa [encodeBytes] using h⟩
    | cons y b => simp [encodeBytes] at h
  | cons x a ih =>
    intro b r s h
    cases b with
    | nil => simp [encodeBytes] at h
    | cons y b =>
      simp only [encodeBytes, cons_append, List.cons.injEq, true_and] at h
      obtain ⟨rfl, h⟩ := h
      obtain ⟨rfl, rfl⟩ := ih b r s h
      exact ⟨rfl, rfl⟩

theorem delimits_encodeOption : Delimits encodeOption := by
  intro a b r s h
  cases a with
  | none =>
    cases b with
    | none => exact ⟨rfl, by simpa [encodeOption] using h⟩
    | some b => simp [encodeOption] at h
  | some a =>
    cases b with
    | none => simp [encodeOption] at h
    | some b =>
      simp only [encodeOption, cons_append, List.cons.injEq, true_and] at h
      obtain ⟨rfl, rfl⟩ := delimits_encodeBytes a b r s h
      exact ⟨rfl, rfl⟩

theorem delimits_encodeList : Delimits encodeList := by
  intro a
  induction a with
  | nil =>
    intro b r s h
    cases b with
    | nil => exact ⟨rfl, by simpa [encodeList] using h⟩
    | cons y b => simp [encodeList] at h
  | cons x a ih =>
    intro b r s h
    cases b with
    | nil => simp [encodeList] at h
    | cons y b =>
      simp only [encodeList, cons_append, List.cons.injEq, true_and, append_assoc] at h
      obtain ⟨rfl, hrest⟩ := delimits_encodeOption _ _ _ _ h
      obtain ⟨rfl, rfl⟩ := ih b r s hrest
      exact ⟨rfl, rfl⟩

theorem serialize_injective : Function.Injective serialize := by
  intro m n h
  cases m with
  | empty =>
    cases n with
    | empty => rfl
    | _ => simp [serialize] at h
  | leaf key value =>
    cases n with
    | leaf key' value' =>
      simp only [serialize, List.cons.injEq, true_and] at h
      obtain ⟨rfl, hrest⟩ := delimits_encodeBytes _ _ _ _ h
      rw [delimits_encodeBytes.injective hrest]
    | _ => simp [serialize] at h
  | extension label next =>
    cases n with
    | extension label' next' =>
      simp only [serialize, List.cons.injEq, true_and] at h
      obtain ⟨rfl, hrest⟩ := delimits_encodeBytes _ _ _ _ h
      rw [delimits_encodeBytes.injective hrest]
    | _ => simp [serialize] at h
  | branch children value =>
    cases n with
    | branch children' value' =>
      simp only [serialize, List.cons.injEq, true_and] at h
      obtain ⟨hchildren, hvalue⟩ := delimits_encodeList _ _ _ _ h
      rw [ofFn_injective hchildren, delimits_encodeOption.injective hvalue]
    | _ => simp [serialize] at h

end PlainHasher

def TrieHasher.plain : TrieHasher Bytes where
  blake3 := id
  serialize := PlainHasher.serialize

theorem TrieHasher.plain_collisionFree : TrieHasher.plain.CollisionFree where
  blake3_injective := Function.injective_id
  serialize_injective := PlainHasher.serialize_injective
  serialize_ne_nil := by
    intro node
    cases node <;> exact nofun

namespace MerklePatriciaTrie

open Outcome TrieTree RadixTree

variable {Digest : Type} {H : TrieHasher Digest}

/-- The trie holds the tree, with every node in the store. -/
structure Represents (trie : MerklePatriciaTrie H) (t : TrieTree) : Prop where
  root : trie.rootHash = digest H t
  wellFormed : t.WellFormed
  hasRoot : trie.nodes.Has t
  hasAll : trie.nodes.HasAll t

variable {trie : MerklePatriciaTrie H}

variable {t : TrieTree}

theorem Represents.reaches (h : trie.Represents t) (key : Bytes) : trie.Reaches t key := by
  intro s hs
  have hocc := occurs_of_mem_walk hs
  cases ht : t.isEmpty with
  | true =>
    rw [eq_empty_of_isEmpty ht] at hocc
    rw [hocc, ← eq_empty_of_isEmpty ht]
    exact h.hasRoot
  | false => exact h.hasAll s hocc (isEmpty_of_occurs hocc ht h.wellFormed)

theorem Represents.get (h : trie.Represents t)
    (key : Bytes) : trie.get key = .ok (t.get (nibbles key)) :=
  get_of_reaches h.root h.wellFormed (h.reaches key)

variable (hfree : H.CollisionFree)

include hfree

theorem Represents.unique
    {t t' : TrieTree} (h : trie.Represents t) (h' : trie.rootHash = digest H t') : t' = t :=
  digest_injective hfree (h'.symm.trans h.root)

variable [DecidableEq Digest]

omit hfree in
theorem represents_new (H : TrieHasher Digest) : (new H).Represents .empty where
  root := rfl
  wellFormed := trivial
  hasRoot := if_pos rfl
  hasAll := by
    intro s hs hne
    rw [hs] at hne
    cases hne

/-- Inserting a key is safe: the key does not leave an extension in the middle
of its label, it and the key of the leaf it meets part at a nibble, and no node
on its way occurs in the tree after the insertion, unless that is the tree
before it. -/
def InsertSafe (trie : MerklePatriciaTrie H) (key value : Bytes) : Prop :=
  ∃ t t', trie.rootHash = digest H t ∧ t.drops (nibbles key) = false ∧
    t.insert (nibbles key) value = some t' ∧
    (t' = t ∨ ∀ s, Passed t (nibbles key) s → ¬ Occurs s t')

/-- An insertion that takes no node of the new tree keeps the store complete. -/
theorem insert_represents
    {t t' : TrieTree} (hrep : trie.Represents t) {key value : Bytes}
    (hins : t.insert (nibbles key) value = some t')
    (hfresh : t' = t ∨ ∀ s, Passed t (nibbles key) s → ¬ Occurs s t') :
    ∃ trie', trie.insert key value = (.ok (), trie') ∧ trie'.Represents t' := by
  obtain ⟨nodes', hrun, heffect⟩ :=
    insert_of_reaches hrep.root hrep.wellFormed hfree (hrep.reaches key) hins
  have hall : nodes'.HasAll t' := by
    intro s hs hempty
    obtain hsame | hfresh := hfresh
    · rw [heffect.same hsame]
      exact hrep.hasAll s (hsame ▸ hs) hempty
    · exact heffect.made hrep.hasAll s hs hempty fun hpassed => hfresh s hpassed hs
  exact ⟨_, hrun, rfl, wellFormed_insert hrep.wellFormed hins,
    hall t' (occurs_refl t') (isEmpty_insert hins), hall⟩

/-- The nodes of a tree and the map it stands for, after a safe insertion. -/
theorem insert_safe
    (hrep : trie.Represents t) {key value : Bytes} (hsafe : trie.InsertSafe key value) :
    ∃ trie' t', trie.insert key value = (.ok (), trie') ∧ trie'.Represents t' ∧
      ∀ k, t'.get (nibbles k) = if k = key then some value else t.get (nibbles k) := by
  obtain ⟨u, t', hroot, hdrops, hins, hfresh⟩ := hsafe
  obtain rfl := hrep.unique hfree hroot
  obtain ⟨trie', hrun, hrep'⟩ := insert_represents hfree hrep hins hfresh
  refine ⟨trie', t', hrun, hrep', fun k => ?_⟩
  rw [get_insert hins hdrops]
  simp only [nibbles_injective.eq_iff]

/-- An insertion that is not safe fails, or leaves a lookup that fails or
misses the new value. -/
theorem insert_unsafe
    (hrep : trie.Represents t) {key value : Bytes} (hsafe : ¬ trie.InsertSafe key value) :
    ¬ ∃ trie', trie.insert key value = (.ok (), trie') ∧
      ∀ k, ∃ result, trie'.get k = .ok result ∧ (k = key → result = some value) := by
  rintro ⟨trie', hrun, hget⟩
  cases hins : t.insert (nibbles key) value with
  | none =>
    rw [insert_of_conflict hrep.root hrep.wellFormed (hrep.reaches key) hins] at hrun
    cases hrun
  | some t' =>
    obtain ⟨nodes', hrun', heffect⟩ :=
      insert_of_reaches hrep.root hrep.wellFormed hfree (hrep.reaches key) hins
    obtain rfl : trie' = ⟨digest H t', nodes'⟩ := by
      rw [hrun', Prod.mk.injEq] at hrun
      exact hrun.2.symm
    cases hdrops : t.drops (nibbles key) with
    | true =>
      -- the tree did not change, so the key is still absent
      have hsame : t' = t := by
        rw [insert_of_drops hdrops] at hins
        exact (Option.some.inj hins).symm
      obtain ⟨result, hresult, hvalue⟩ := hget key
      rw [heffect.same hsame, hsame, ← hrep.root, hrep.get, get_of_drops hdrops,
        hvalue rfl] at hresult
      cases hresult
    | false =>
      obtain ⟨hne, hclash⟩ : t' ≠ t ∧ ∃ s, Passed t (nibbles key) s ∧ Occurs s t' := by
        by_contra hno
        refine hsafe ⟨t, t', hrep.root, hdrops, hins, ?_⟩
        by_cases hsame : t' = t
        · exact .inl hsame
        · exact .inr fun s hs hocc => hno ⟨hsame, s, hs, hocc⟩
      -- some key leads through the node that is gone
      obtain ⟨s, hs, hocc⟩ := hclash
      obtain ⟨ns, hns⟩ := exists_walk_of_occurs hocc
      obtain ⟨k, rest, hk⟩ := exists_nibbles_append ns
      obtain ⟨result, hresult, -⟩ := hget k
      rw [get_of_not_reaches rfl (wellFormed_insert hrep.wellFormed hins) hfree] at hresult
      · exact fail_ne_ok _ _ hresult
      · intro hreach
        exact heffect.gone hne s hs (hreach s (hk ▸ hns rest))

/-- The map after the insertions: the last value under every key. -/
def insertMap (f : Bytes → Option Bytes) : List (Bytes × Bytes) → Bytes → Option Bytes
  | [] => f
  | (key, value) :: entries => insertMap (Function.update f key (some value)) entries

/-- Every insertion of the list is safe in the trie it is made in. -/
def InsertsSafely (trie : MerklePatriciaTrie H) : List (Bytes × Bytes) → Prop
  | [] => True
  | (key, value) :: entries =>
    trie.InsertSafe key value ∧ (trie.insert key value).2.InsertsSafely entries

/-- All insertions return, and lookups then agree with the map. -/
def InsertsCorrectly (trie : MerklePatriciaTrie H) (f : Bytes → Option Bytes)
    (entries : List (Bytes × Bytes)) : Prop :=
  ∃ trie', trie.insertAll entries = .ok trie' ∧ ∀ key, trie'.get key = .ok (insertMap f entries key)

variable {trie trie' : MerklePatriciaTrie H} {t : TrieTree} {f : Bytes → Option Bytes}
  {key value : Bytes} {entries : List (Bytes × Bytes)}

omit hfree in
theorem insertAll_cons_ok (h : trie.insert key value = (.ok (), trie')) :
    trie.insertAll ((key, value) :: entries) = trie'.insertAll entries := by
  rw [insertAll, h]

omit hfree in
theorem insertsCorrectly_cons (h : trie.insert key value = (.ok (), trie')) :
    trie.InsertsCorrectly f ((key, value) :: entries) ↔
      trie'.InsertsCorrectly (Function.update f key (some value)) entries := by
  rw [InsertsCorrectly, insertAll_cons_ok h]
  rfl

/-- The invariant of a run: the trie represents a tree that stands for the map. -/
theorem insertsCorrectly_of_safely (hrep : trie.Represents t)
    (hmap : ∀ key, t.get (nibbles key) = f key) (hsafe : trie.InsertsSafely entries) :
    trie.InsertsCorrectly f entries := by
  induction entries generalizing trie t f with
  | nil => exact ⟨trie, rfl, fun key => by rw [hrep.get, hmap, insertMap]⟩
  | cons entry entries ih =>
    obtain ⟨key, value⟩ := entry
    obtain ⟨hstep, hrest⟩ := hsafe
    obtain ⟨trie', t', hrun, hrep', hget⟩ := insert_safe hfree hrep hstep
    rw [hrun] at hrest
    refine (insertsCorrectly_cons hrun).mpr (ih hrep' (fun k => ?_) hrest)
    rw [hget, Function.update_apply, hmap]

omit hfree in
theorem InsertsSafely.of_append {front : List (Bytes × Bytes)}
    (h : trie.InsertsSafely (front ++ entries)) : trie.InsertsSafely front := by
  induction front generalizing trie with
  | nil => trivial
  | cons entry front ih => exact ⟨h.1, ih h.2⟩

/-- A run whose every start is correct makes only safe insertions. -/
theorem insertsSafely_of_correctly (hrep : trie.Represents t)
    (hmap : ∀ key, t.get (nibbles key) = f key)
    (hcorrect : ∀ front, front <+: entries → trie.InsertsCorrectly f front) :
    trie.InsertsSafely entries := by
  induction entries generalizing trie t f with
  | nil => trivial
  | cons entry entries ih =>
    obtain ⟨key, value⟩ := entry
    have hstep : trie.InsertSafe key value := by
      by_contra hunsafe
      refine insert_unsafe hfree hrep hunsafe ?_
      obtain ⟨trie', hrun, hget⟩ := hcorrect [(key, value)] ⟨entries, rfl⟩
      rw [insertAll] at hrun
      split at hrun
      · rename_i trie₁ hins
        cases hrun
        refine ⟨trie', hins, fun k => ⟨_, hget k, ?_⟩⟩
        rintro rfl
        exact Function.update_self k (some value) f
      · cases hrun
    obtain ⟨trie', t', hrun, hrep', hget⟩ := insert_safe hfree hrep hstep
    refine ⟨hstep, ?_⟩
    rw [hrun]
    refine ih (f := Function.update f key (some value)) hrep' (fun k => ?_) fun front hfront => ?_
    · rw [hget, Function.update_apply, hmap]
    · obtain ⟨rest, rfl⟩ := hfront
      exact (insertsCorrectly_cons hrun).mp (hcorrect ((key, value) :: front) ⟨rest, rfl⟩)

omit hfree

/-- Starting from the empty trie, every call of a run returns and every lookup
finds the last value inserted, exactly as far as the insertions are safe. -/
theorem insertAll_correct_iff (hfree : H.CollisionFree) (entries : List (Bytes × Bytes)) :
    (∀ front, front <+: entries → (new H).InsertsCorrectly (fun _ => none) front) ↔
      (new H).InsertsSafely entries := by
  constructor
  · exact insertsSafely_of_correctly hfree (represents_new H) fun _ => rfl
  · rintro hsafe front ⟨rest, rfl⟩
    exact insertsCorrectly_of_safely hfree (represents_new H) (fun _ => rfl) hsafe.of_append

theorem not_occurs_fork_of_passed {s : RadixTree (Fin 16) Bytes}
    (hs : (leaf [1, 1] [7]).Passed (nibbles [0x21]) s) :
    ¬ s.Occurs (fork 1 [1] [7] 2 [1] [8]) := by
  rw [passed_leaf.mp hs]
  rintro (hocc | ⟨a, -, hocc⟩)
  · cases hocc
  · fin_cases a <;> cases hocc

theorem insertAll_correct_iff_two :
    (new TrieHasher.plain).InsertsCorrectly (fun _ => none) [([0x11], [7]), ([0x21], [8])] :=
  (insertAll_correct_iff TrieHasher.plain_collisionFree [([0x11], [7]), ([0x21], [8])]).mpr
    ⟨⟨.empty, leaf _ _, rfl, rfl, rfl, .inr fun _ hs => absurd hs not_passed_empty⟩,
      ⟨leaf [1, 1] [7], fork 1 [1] [7] 2 [1] [8], rfl, rfl, rfl,
        .inr fun _ => not_occurs_fork_of_passed⟩, trivial⟩
    _ (List.prefix_refl _)

/-- The third key stops inside the extension above the first two and is dropped.
The third insertion below takes out a leaf that two keys share. The key of the
last list goes on after the key of a leaf. -/
theorem insert_loses_key :
    (do (← (new TrieHasher.plain).insertAll [([0x11], [7]), ([0x12], [7]), ([0x21], [7])]).get
          [0x21]) = .ok none ∧
    (do (← (new TrieHasher.plain).insertAll [([0x11], [7]), ([0x21], [7]), ([0x11], [8])]).get
          [0x21]) = fail (.trieError "Node not found") ∧
    (new TrieHasher.plain).insertAll [([0x11], [7]), ([0x11, 0x22], [7])] = .error .panic :=
  ⟨rfl, rfl, rfl⟩

end MerklePatriciaTrie

end RustyCoin
