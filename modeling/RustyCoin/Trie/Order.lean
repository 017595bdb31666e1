import RustyCoin.Lib.RadixCanonical
import RustyCoin.Trie.InsertRuns

/-!
# Insertion order and the root hash

The tree behind a trie that was built by insertions is canonical, so its root is
determined by the entries it holds. Which entries those are depends on the
order: a key that stops inside an extension is dropped, and a shared node that
was taken out of the store makes a later insertion fail. Two orders give the
same root exactly when neither run fails and both keep the same keys.
-/

namespace RustyCoin.MerklePatriciaTrie

open Outcome TrieTree RadixTree List

variable {Digest : Type} [DecidableEq Digest] {H : TrieHasher Digest}

variable (trie : MerklePatriciaTrie H)

/-- The key leaves an extension of the trie in the middle of its label. -/
def StopsInExtension (key : Bytes) : Prop :=
  ∃ t, trie.rootHash = digest H t ∧ t.drops (nibbles key) = true

/-- The key meets a leaf whose key it ends inside or goes on after. -/
def MeetsLeafKey (key : Bytes) : Prop :=
  ∃ t, trie.rootHash = digest H t ∧ t.conflicts (nibbles key) = true

/-- The key can be looked up. -/
def Finds (key : Bytes) : Prop :=
  ∃ result, trie.get key = .ok result

/-- Every key of the list can be looked up before it is inserted. -/
def FindsAll (trie : MerklePatriciaTrie H) : List (Bytes × Bytes) → Prop
  | [] => True
  | (key, value) :: entries =>
    trie.Finds key ∧ (trie.insert key value).2.FindsAll entries

/-- No key of the list meets a leaf key it cannot part from. -/
def PartsAll (trie : MerklePatriciaTrie H) : List (Bytes × Bytes) → Prop
  | [] => True
  | (key, value) :: entries =>
    ¬ trie.MeetsLeafKey key ∧ (trie.insert key value).2.PartsAll entries

/-- The key is among the entries, and does not stop inside an extension when its
turn comes. -/
def Keeps (trie : MerklePatriciaTrie H) : List (Bytes × Bytes) → Bytes → Prop
  | [], _ => False
  | (k, v) :: entries, key =>
    k = key ∧ ¬ trie.StopsInExtension k ∨ (trie.insert k v).2.Keeps entries key

section

variable {trie trie' : MerklePatriciaTrie H} {t : TrieTree} {key value : Bytes}
  {entries : List (Bytes × Bytes)}

variable (hfree : H.CollisionFree)

include hfree

variable (hroot : trie.rootHash = digest H t)

include hroot

omit [DecidableEq Digest] in
theorem stopsInExtension_iff : trie.StopsInExtension key ↔ t.drops (nibbles key) = true := by
  constructor
  · rintro ⟨u, hu, h⟩
    rwa [← digest_injective hfree (hu.symm.trans hroot)]
  · intro h
    exact ⟨t, hroot, h⟩

omit [DecidableEq Digest] in
theorem meetsLeafKey_iff : trie.MeetsLeafKey key ↔ t.conflicts (nibbles key) = true := by
  constructor
  · rintro ⟨u, hu, h⟩
    rwa [← digest_injective hfree (hu.symm.trans hroot)]
  · intro h
    exact ⟨t, hroot, h⟩

variable (hwf : t.WellFormed)

include hwf

omit [DecidableEq Digest] in
theorem finds_iff : trie.Finds key ↔ trie.Reaches t key := by
  constructor
  · rintro ⟨result, h⟩
    by_contra hreach
    rw [get_of_not_reaches hroot hwf hfree hreach] at h
    exact fail_ne_ok _ _ h
  · intro hreach
    exact ⟨_, get_of_reaches hroot hwf hreach⟩

/-- An insertion returns exactly when its key can be looked up and parts from the
leaf it meets, and the new root is then the hash of the new tree. -/
theorem insert_ok_iff (key value : Bytes) :
    (trie.insert key value).1 = .ok () ↔ trie.Finds key ∧ ¬ trie.MeetsLeafKey key := by
  rw [finds_iff hfree hroot hwf, meetsLeafKey_iff hfree hroot]
  obtain ⟨-, hconflict, hrun⟩ | ⟨t', nodes', hreach, hparts, -, hrun⟩ | ⟨hreach, hrun⟩ :=
    insert_cases hroot hwf hfree key value
  · simp [hrun, hconflict]
  · simp [hrun, hreach, hparts]
  · simp [hrun, hreach]

theorem insert_ok_root (hrun : trie.insert key value = (.ok (), trie')) :
    ∃ t', t.insert (nibbles key) value = some t' ∧ trie'.rootHash = digest H t' := by
  have hok := (insert_ok_iff hfree hroot hwf key value).mp (congrArg Prod.fst hrun)
  rw [finds_iff hfree hroot hwf, meetsLeafKey_iff hfree hroot,
    ← insert_eq_none_iff t (nibbles key) value] at hok
  obtain ⟨t', hins⟩ := Option.ne_none_iff_exists'.mp hok.2
  obtain ⟨nodes', hrun', -⟩ := insert_of_reaches hroot hwf hfree hok.1 hins
  rw [hrun', Prod.mk.injEq] at hrun
  exact ⟨t', hins, by rw [← hrun.2]⟩

omit hwf in
omit hroot in
omit hfree in
theorem insertAll_cons {e : TrieResult Digest Unit} (h : trie.insert key value = (e, trie')) :
    trie.insertAll ((key, value) :: entries) = e >>= fun _ => trie'.insertAll entries := by
  rw [insertAll, h]
  cases e <;> rfl

/-- A run returns exactly when every insertion of it does. -/
theorem insertAll_ok_iff :
    (∃ trie', trie.insertAll entries = .ok trie') ↔
      trie.FindsAll entries ∧ trie.PartsAll entries := by
  induction entries generalizing trie t with
  | nil => exact ⟨fun _ => ⟨trivial, trivial⟩, fun _ => ⟨trie, rfl⟩⟩
  | cons entry entries ih =>
    obtain ⟨key, value⟩ := entry
    obtain ⟨e, trie₁, hrun⟩ : ∃ e trie₁, trie.insert key value = (e, trie₁) := ⟨_, _, rfl⟩
    rw [insertAll_cons hrun, FindsAll, PartsAll, and_and_and_comm,
      ← insert_ok_iff hfree hroot hwf key value, hrun]
    cases e with
    | error e => simp
    | ok u =>
      obtain ⟨t₁, hins, hroot₁⟩ := insert_ok_root hfree hroot hwf hrun
      simp [ih hroot₁ (wellFormed_insert hwf hins)]

omit hwf

omit hroot in
omit hfree in
theorem mem_of_keeps (h : trie.Keeps entries key) : ∃ value, (key, value) ∈ entries := by
  induction entries generalizing trie with
  | nil => cases h
  | cons entry entries ih =>
    obtain ⟨k, v⟩ := entry
    obtain ⟨rfl, -⟩ | h := h
    · exact ⟨v, mem_cons_self⟩
    · obtain ⟨value, hmem⟩ := ih h
      exact ⟨value, mem_cons_of_mem _ hmem⟩

omit hroot in
omit hfree in
/-- What the tree holds after one insertion of a key that was absent. -/
theorem get_insert_absent {t' : TrieTree} {ns : List (Fin 16)} {v w : Bytes}
    (habsent : t.get ns = none) (hins : t.insert ns v = some t') (j : List (Fin 16)) :
    t'.get j = some w ↔ t.get j = some w ∨ j = ns ∧ w = v ∧ t.drops ns = false := by
  cases hdrops : t.drops ns with
  | true =>
    rw [insert_of_drops hdrops, Option.some.injEq] at hins
    simp [← hins]
  | false =>
    rw [get_insert hins hdrops]
    by_cases hj : j = ns
    · subst hj
      simp [habsent, eq_comm]
    · simp [hj]

/-- The tree after a run holds what it held before and the entries that were
kept. -/
theorem insertAll_content
    (hc : t.Canonical) (hnodup : (entries.map Prod.fst).Nodup)
    (habsent : ∀ key ∈ entries.map Prod.fst, t.get (nibbles key) = none)
    (hrun : trie.insertAll entries = .ok trie') :
    ∃ t', trie'.rootHash = digest H t' ∧ t'.Canonical ∧
      ∀ ns w, t'.get ns = some w ↔ t.get ns = some w ∨
        ∃ key, nibbles key = ns ∧ (key, w) ∈ entries ∧ trie.Keeps entries key := by
  induction entries generalizing trie t with
  | nil =>
    cases hrun
    exact ⟨t, hroot, hc, fun ns w => by simp⟩
  | cons entry entries ih =>
    obtain ⟨k, v⟩ := entry
    rw [map_cons, nodup_cons] at hnodup
    obtain ⟨e, trie₁, hstep⟩ : ∃ e trie₁, trie.insert k v = (e, trie₁) := ⟨_, _, rfl⟩
    rw [insertAll_cons hstep] at hrun
    obtain ⟨u, rfl, hrest⟩ := bind_eq_ok.mp hrun
    obtain ⟨t₁, hins, hroot₁⟩ := insert_ok_root hfree hroot hc.wellFormed hstep
    have hk : t.get (nibbles k) = none := habsent k mem_cons_self
    have hget := fun j w => get_insert_absent (w := w) hk hins j
    have habsent₁ : ∀ key ∈ entries.map Prod.fst, t₁.get (nibbles key) = none := by
      intro key hkey
      have hne : key ≠ k := fun h => hnodup.1 (h ▸ hkey)
      rw [Option.eq_none_iff_forall_ne_some]
      intro w hw
      obtain hw | ⟨h, -⟩ := (hget (nibbles key) w).mp hw
      · rw [habsent key (mem_cons_of_mem _ hkey)] at hw
        cases hw
      · exact hne (nibbles_injective h)
    obtain ⟨t', hroot', hc', hcontent⟩ :=
      ih hroot₁ (canonical_insert hc hins) hnodup.2 habsent₁ hrest
    refine ⟨t', hroot', hc', fun ns w => ?_⟩
    rw [hcontent, hget, or_assoc]
    refine or_congr_right ?_
    simp only [Keeps, hstep, stopsInExtension_iff hfree hroot, mem_cons, Prod.mk.injEq]
    constructor
    · rintro (⟨rfl, rfl, hdrops⟩ | ⟨key, hns, hmem, hkeeps⟩)
      · exact ⟨k, rfl, .inl ⟨rfl, rfl⟩, .inl ⟨rfl, by simp [hdrops]⟩⟩
      · exact ⟨key, hns, .inr hmem, .inr hkeeps⟩
    · rintro ⟨key, hns, hmem, ⟨rfl, hdrops⟩ | hkeeps⟩
      · obtain ⟨-, rfl⟩ | hmem := hmem
        · exact .inl ⟨hns.symm, rfl, by simpa using hdrops⟩
        · exact absurd (mem_map_of_mem hmem) hnodup.1
      · obtain ⟨rfl, -⟩ | hmem := hmem
        · obtain ⟨value, hmem⟩ := mem_of_keeps hkeeps
          exact absurd (mem_map_of_mem hmem) hnodup.1
        · exact .inr ⟨key, hns, hmem, hkeeps⟩

end

/-- Both orders return, with one root. -/
def SameRoot (H : TrieHasher Digest) (entries entries' : List (Bytes × Bytes)) : Prop :=
  ∃ trie trie', (new H).insertAll entries = .ok trie ∧ (new H).insertAll entries' = .ok trie' ∧
    trie.rootHash = trie'.rootHash

variable (hfree : H.CollisionFree)

include hfree

variable {entries entries' : List (Bytes × Bytes)}

/-- Two runs over distinct keys give one root exactly when every insertion
returns and the same values are kept under the same keys. -/
theorem sameRoot_iff_kept
    (hnodup : (entries.map Prod.fst).Nodup) (hnodup' : (entries'.map Prod.fst).Nodup) :
    SameRoot H entries entries' ↔
      ((new H).FindsAll entries ∧ (new H).PartsAll entries) ∧
      ((new H).FindsAll entries' ∧ (new H).PartsAll entries') ∧
      ∀ key value, (key, value) ∈ entries ∧ (new H).Keeps entries key ↔
        (key, value) ∈ entries' ∧ (new H).Keeps entries' key := by
  have hroot : (new H).rootHash = digest H .empty := rfl
  rw [← insertAll_ok_iff (t := .empty) hfree hroot trivial,
    ← insertAll_ok_iff (t := .empty) hfree hroot trivial]
  -- the tree holds a value under a key when the entry is kept
  have hkept : ∀ {es : List (Bytes × Bytes)} {t : TrieTree}, (∀ ns w, t.get ns = some w ↔
      (empty : TrieTree).get ns = some w ∨
        ∃ key, nibbles key = ns ∧ (key, w) ∈ es ∧ (new H).Keeps es key) → ∀ key value,
      (t.get (nibbles key) = some value ↔ (key, value) ∈ es ∧ (new H).Keeps es key) := by
    intro es t hes key value
    rw [hes]
    constructor
    · rintro (hempty | ⟨key', hns, hmem, hkeeps⟩)
      · cases hempty
      · rw [← nibbles_injective hns]
        exact ⟨hmem, hkeeps⟩
    · rintro ⟨hmem, hkeeps⟩
      exact .inr ⟨key, rfl, hmem, hkeeps⟩
  constructor
  · rintro ⟨trie, trie', hrun, hrun', hsame⟩
    obtain ⟨t, ht, -, hcontent⟩ :=
      insertAll_content hfree hroot trivial hnodup (fun _ _ => rfl) hrun
    obtain ⟨t', ht', -, hcontent'⟩ :=
      insertAll_content hfree hroot trivial hnodup' (fun _ _ => rfl) hrun'
    obtain rfl : t = t' := digest_injective hfree (by rw [← ht, ← ht', hsame])
    refine ⟨⟨trie, hrun⟩, ⟨trie', hrun'⟩, fun key value => ?_⟩
    rw [← hkept hcontent, ← hkept hcontent']
  · rintro ⟨⟨trie, hrun⟩, ⟨trie', hrun'⟩, hsame⟩
    obtain ⟨t, ht, hc, hcontent⟩ :=
      insertAll_content hfree hroot trivial hnodup (fun _ _ => rfl) hrun
    obtain ⟨t', ht', hc', hcontent'⟩ :=
      insertAll_content hfree hroot trivial hnodup' (fun _ _ => rfl) hrun'
    refine ⟨trie, trie', hrun, hrun', ?_⟩
    have hget : ∀ ns, t.get ns = t'.get ns := by
      intro ns
      apply Option.ext
      intro w
      rw [hcontent, hcontent']
      simp only [hsame]
    rw [ht, ht', hc.eq_of_get hc' hget]

/-- Two orders of inserting distinct keys give one root exactly when every
insertion returns and the same keys are kept. -/
theorem sameRoot_iff
    (hperm : entries.Perm entries') (hnodup : (entries.map Prod.fst).Nodup) :
    SameRoot H entries entries' ↔
      ((new H).FindsAll entries ∧ (new H).PartsAll entries) ∧
      ((new H).FindsAll entries' ∧ (new H).PartsAll entries') ∧
      ∀ key, (new H).Keeps entries key ↔ (new H).Keeps entries' key := by
  have hnodup' : (entries'.map Prod.fst).Nodup := (hperm.map Prod.fst).nodup_iff.mp hnodup
  rw [sameRoot_iff_kept hfree hnodup hnodup']
  refine and_congr_right fun _ => and_congr_right fun _ => forall_congr' fun key => ?_
  simp only [hperm.mem_iff]
  constructor
  · intro hsame
    constructor
    · intro hkeeps
      obtain ⟨value, hmem⟩ := mem_of_keeps hkeeps
      exact ((hsame value).mp ⟨hperm.mem_iff.mp hmem, hkeeps⟩).2
    · intro hkeeps
      obtain ⟨value, hmem⟩ := mem_of_keeps hkeeps
      exact ((hsame value).mpr ⟨hmem, hkeeps⟩).2
  · intro hsame value
    rw [hsame]

/-- A run stops at a node that was taken out of the store. -/
def MissesNode (trie : MerklePatriciaTrie H) : List (Bytes × Bytes) → Prop
  | [] => False
  | (key, value) :: entries =>
    ¬ trie.Finds key ∨ ¬ trie.MeetsLeafKey key ∧ (trie.insert key value).2.MissesNode entries

/-- A run comes to a key that meets a leaf key it cannot part from. -/
def MeetsLeaf (trie : MerklePatriciaTrie H) : List (Bytes × Bytes) → Prop
  | [] => False
  | (key, value) :: entries =>
    trie.Finds key ∧ (trie.MeetsLeafKey key ∨ (trie.insert key value).2.MeetsLeaf entries)

variable {trie : MerklePatriciaTrie H} {t : TrieTree} {entries : List (Bytes × Bytes)}

/-- A run aborts at a key that meets a leaf key, returns an error at a missing node, and fails
nowhere else. -/
theorem failsWith_insertAll {P : Failure (TrieError Digest) → Prop}
    (hroot : trie.rootHash = digest H t) (hwf : t.WellFormed) :
    FailsWith P (trie.insertAll entries) ↔ (trie.MeetsLeaf entries → P .panic) ∧
      (trie.MissesNode entries → P (.err (.trieError "Node not found"))) := by
  induction entries generalizing trie t with
  | nil => simp [insertAll, MeetsLeaf, MissesNode]
  | cons entry entries ih =>
    obtain ⟨key, value⟩ := entry
    rw [MeetsLeaf, MissesNode, finds_iff hfree hroot hwf, meetsLeafKey_iff hfree hroot]
    obtain ⟨hreach, hconflict, hrun⟩ | ⟨t', nodes', hreach, hparts, hins, hrun⟩ |
        ⟨hreach, hrun⟩ := insert_cases hroot hwf hfree key value
    · rw [insertAll_cons hrun]
      simp [hreach, hconflict]
    · rw [insertAll_cons hrun, hrun]
      simpa [hreach, hparts] using ih (t := t') rfl (wellFormed_insert hwf hins)
    · rw [insertAll_cons hrun]
      simp [hreach]

/-- The only error that a run returns is about a missing node. -/
theorem insertAll_fail_iff (hroot : trie.rootHash = digest H t) (hwf : t.WellFormed)
    (e : TrieError Digest) :
    trie.insertAll entries = fail e ↔
      e = .trieError "Node not found" ∧ trie.MissesNode entries := by
  rw [eq_fail_iff, failsWith_insertAll hfree hroot hwf]
  simp [and_comm, eq_comm]

end RustyCoin.MerklePatriciaTrie
