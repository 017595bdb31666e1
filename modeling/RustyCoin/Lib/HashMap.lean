import Mathlib.Algebra.BigOperators.Group.Finset.Basic
import Mathlib.Algebra.Ring.Nat
import Mathlib.Data.List.AList

/-!
# Hash maps

A hash map is a list of entries with distinct keys. The order of the list is the
order of iteration: it is not part of the map's contents, so two maps with the
same contents may differ in it.
-/

abbrev HashMap (K V : Type) : Type := AList fun _ : K => V

namespace HashMap

open List AList

variable {K V : Type}

variable (m : HashMap K V)

/-- The entries in the order in which they are iterated. -/
def toPairs : List (K × V) :=
  m.entries.map fun e => (e.1, e.2)

/-- The number of entries. -/
def len : Nat :=
  m.entries.length

/-- The same contents, whatever the order. -/
def SameEntries (m m' : HashMap K V) : Prop :=
  m.entries.Perm m'.entries

/-- Change every value in place. -/
def mapValues {W : Type} (f : V → W) (m : HashMap K V) : HashMap K W where
  entries := m.entries.map fun e => ⟨e.1, f e.2⟩
  nodupKeys := by
    have hkeys : (m.entries.map fun e => (⟨e.1, f e.2⟩ : Sigma fun _ : K => W)).keys =
        m.entries.keys := by
      simp [List.keys]
    rw [List.NodupKeys, hkeys]
    exact m.nodupKeys

theorem map_fst_toPairs : m.toPairs.map Prod.fst = m.keys := by
  simp [toPairs, AList.keys, List.keys]

theorem nodup_toPairs : (m.toPairs.map Prod.fst).Nodup := by
  rw [map_fst_toPairs]
  exact m.keys_nodup

theorem keys_of_len_eq_zero {m : HashMap K V} (h : m.len = 0) : m.keys = [] :=
  eq_nil_of_length_eq_zero ((length_map _).trans h)

theorem SameEntries.toPairs {m m' : HashMap K V} (h : m.SameEntries m') :
    m.toPairs.Perm m'.toPairs :=
  h.map _

theorem SameEntries.keys {m m' : HashMap K V} (h : m.SameEntries m') : m.keys.Perm m'.keys :=
  h.map _

section

variable [DecidableEq K]

/-- Two maps have the same contents when every lookup agrees. -/
theorem sameEntries_iff {m m' : HashMap K V} :
    m.SameEntries m' ↔ ∀ k, m.lookup k = m'.lookup k := by
  constructor
  · intro h k
    exact perm_dlookup k m.nodupKeys h
  · intro h
    refine lookup_ext m.nodupKeys m'.nodupKeys fun k v => ?_
    have hk : m.entries.dlookup k = m'.entries.dlookup k := h k
    rw [hk]

@[simp] theorem mem_toPairs {m : HashMap K V} {k : K} {v : V} :
    (k, v) ∈ m.toPairs ↔ m.lookup k = some v := by
  have hentry : (k, v) ∈ m.toPairs ↔ (⟨k, v⟩ : Sigma fun _ : K => V) ∈ m.entries := by
    simp [toPairs]
  rw [hentry]
  exact mem_lookup_iff.symm

theorem sameEntries_of_toPairs_eq {m m' : HashMap K V} (h : m.toPairs = m'.toPairs) :
    m.SameEntries m' := by
  refine sameEntries_iff.mpr fun k => Option.ext fun v => ?_
  rw [← mem_toPairs, ← mem_toPairs, h]

@[simp] theorem lookup_mapValues {W : Type} (f : V → W) (m : HashMap K V) (k : K) :
    (m.mapValues f).lookup k = (m.lookup k).map f :=
  dlookup_map₂ (l := m.entries) (f := fun _ : K => f) k

theorem lookup_insert_eq (m : HashMap K V) (k : K) (v : V) (j : K) :
    (m.insert k v).lookup j = if j = k then some v else m.lookup j := by
  split
  · subst j
    exact lookup_insert m
  · exact lookup_insert_ne ‹_›

section

variable {m : HashMap K V} {P : K → V → Prop} {k : K} (h : ∀ j w, m.lookup j = some w → P j w)
include h

/-- What holds of all entries and of a new one holds of all entries with the new one. -/
theorem forall_insert {v : V} (hnew : P k v) (j : K) (w : V)
    (hlookup : (m.insert k v).lookup j = some w) : P j w := by
  by_cases hj : j = k
  · subst hj
    cases (lookup_insert m).symm.trans hlookup
    exact hnew
  · exact h j w ((lookup_insert_ne hj).symm.trans hlookup)

theorem forall_erase (j : K) (w : V) (hlookup : (m.erase k).lookup j = some w) : P j w := by
  have hj : j ≠ k := by
    rintro rfl
    cases (lookup_erase j m).symm.trans hlookup
  exact h j w ((lookup_erase_ne hj).symm.trans hlookup)

end

/-- The new entry is in front, and the rest is the map without its key. -/
theorem toPairs_insert (m : HashMap K V) (k : K) (v : V) :
    toPairs (m.insert k v) = (k, v) :: toPairs (m.erase k) := by
  rw [toPairs, entries_insert]
  rfl

@[simp] theorem keys_singleton (k : K) (v : V) : ((∅ : HashMap K V).insert k v).keys = [k] := by
  rw [keys_insert]
  rfl

@[simp] theorem erase_singleton (k : K) (v : V) : ((∅ : HashMap K V).insert k v).erase k = ∅ := by
  refine AList.ext ?_
  show ((∅ : HashMap K V).insert k v).entries.kerase k = []
  rw [entries_insert]
  exact kerase_cons_eq rfl

/-- The entry of a key, if there is one, and the rest. -/
theorem toPairs_perm (m : HashMap K V) (k : K) :
    m.toPairs.Perm (((m.lookup k).map fun v => (k, v)).toList ++ toPairs (m.erase k)) := by
  have hentries (entries : List (Sigma fun _ : K => V)) :
      (entries.map fun e => (e.1, e.2)).Perm
        (((entries.dlookup k).map fun v => (k, v)).toList ++
          (entries.kerase k).map fun e => (e.1, e.2)) := by
    induction entries with
    | nil => exact .nil
    | cons e entries ih =>
      by_cases hk : k = e.1
      · obtain ⟨a, v⟩ := e
        cases hk
        rw [kerase_cons_eq rfl, dlookup_cons_eq]
        exact .refl _
      · rw [kerase_cons_ne hk, dlookup_cons_ne _ _ hk, map_cons, map_cons]
        exact (ih.cons (e.1, e.2)).trans perm_middle.symm
  exact hentries m.entries

end

section

variable [DecidableEq K] (f : V → Nat)

variable (m : HashMap K V)

/-- The sum of a measure of the values. -/
def total : Nat :=
  (m.entries.map fun e => f e.2).sum

/-- The measure of the value under a key, zero if there is none. -/
def measureAt (k : K) : Nat :=
  (m.lookup k).elim 0 f

theorem sum_kerase (k : K) (entries : List (Sigma fun _ : K => V)) :
    ((entries.kerase k).map fun e => f e.2).sum + (entries.dlookup k).elim 0 f =
      (entries.map fun e => f e.2).sum := by
  induction entries with
  | nil => rfl
  | cons e entries ih =>
    by_cases hk : k = e.1
    · obtain ⟨a, v⟩ := e
      cases hk
      rw [kerase_cons_eq rfl, dlookup_cons_eq, map_cons, sum_cons]
      exact Nat.add_comm _ _
    · rw [kerase_cons_ne hk, dlookup_cons_ne _ _ hk, map_cons, sum_cons,
        map_cons, sum_cons, Nat.add_assoc, ih]

/-- Removing a key takes what was under it. -/
theorem total_erase (k : K) : total f (m.erase k) + measureAt f m k = total f m :=
  sum_kerase f k m.entries

/-- Inserting under a key adds the new value and takes what was there before. -/
theorem total_insert (k : K) (v : V) :
    total f (m.insert k v) + measureAt f m k = total f m + f v := by
  rw [total, entries_insert, map_cons, sum_cons, Nat.add_assoc,
    measureAt, AList.lookup, sum_kerase, Nat.add_comm]
  rfl

variable {m : HashMap K V} {k : K} {v : V}

theorem total_lt_insert (h : measureAt f m k < f v) : total f m < total f (m.insert k v) := by
  have htotal := total_insert f m k v
  omega

theorem total_insert_lt (h : f v < measureAt f m k) : total f (m.insert k v) < total f m := by
  have htotal := total_insert f m k v
  omega

end

section

variable [DecidableEq K] (f : V → Nat)

variable (m : HashMap K V)

/-- The map without a list of keys. -/
def eraseAll (ks : List K) : HashMap K V :=
  ks.foldl (fun m k => m.erase k) m

def insertAll (entries : List (K × V)) : HashMap K V :=
  entries.foldl (fun m e => m.insert e.1 e.2) m

@[simp] theorem lookup_eraseAll (ks : List K) (k : K) :
    (m.eraseAll ks).lookup k = if k ∈ ks then none else m.lookup k := by
  induction ks generalizing m with
  | nil => rfl
  | cons j ks ih =>
    change (eraseAll (m.erase j) ks).lookup k = _
    rw [ih]
    by_cases hrest : k ∈ ks
    · rw [if_pos hrest, if_pos (mem_cons_of_mem j hrest)]
    · by_cases hhead : k = j
      · subst hhead
        rw [if_neg hrest, if_pos mem_cons_self, lookup_erase]
      · rw [if_neg hrest, if_neg (by simp [hhead, hrest]), lookup_erase_ne hhead]

/-- The last value that a list of entries gives a key. -/
def lastAt (k : K) : List (K × V) → Option V
  | [] => none
  | e :: entries => (lastAt k entries).or (if k = e.1 then some e.2 else none)

@[simp] theorem lastAt_append (k : K) (front back : List (K × V)) :
    lastAt k (front ++ back) = (lastAt k back).or (lastAt k front) := by
  induction front with
  | nil => simp [lastAt]
  | cons e front ih => rw [cons_append, lastAt, ih, lastAt, Option.or_assoc]

variable (k : K) (entries : List (K × V))

@[simp] theorem lastAt_isSome : (lastAt k entries).isSome ↔ k ∈ entries.map Prod.fst := by
  induction entries with
  | nil => simp [lastAt]
  | cons e entries ih =>
    rw [lastAt, Option.isSome_or, Bool.or_eq_true, ih, map_cons, mem_cons, or_comm]
    by_cases hk : k = e.1
    · simp [hk]
    · simp [hk]

@[simp] theorem lastAt_eq_none : lastAt k entries = none ↔ k ∉ entries.map Prod.fst := by
  rw [← lastAt_isSome, Option.not_isSome_iff_eq_none]

variable {entries : List (K × V)}

theorem mem_of_lastAt {k : K} {v : V} (h : lastAt k entries = some v) : (k, v) ∈ entries := by
  induction entries with
  | nil => cases h
  | cons e entries ih =>
    rw [lastAt, Option.or_eq_some_iff] at h
    rcases h with hlater | ⟨-, hhead⟩
    · exact mem_cons_of_mem _ (ih hlater)
    · split at hhead
      · rename_i hkey
        cases hhead
        subst hkey
        exact mem_cons_self
      · cases hhead

/-- Entries that agree under a key need no order. -/
theorem lastAt_of_mem {k : K} {v : V} (hmem : (k, v) ∈ entries)
    (hunique : ∀ w, (k, w) ∈ entries → w = v) : lastAt k entries = some v := by
  have hkey : k ∈ entries.map Prod.fst := mem_map_of_mem hmem
  obtain ⟨w, hw⟩ := Option.isSome_iff_exists.mp ((lastAt_isSome k entries).mpr hkey)
  rw [hw, hunique w (mem_of_lastAt hw)]

theorem lastAt_map {K' V' : Type} [DecidableEq K'] {key : K → K'} (hinj : Function.Injective key)
    (value : V → V') (k : K) (entries : List (K × V)) :
    lastAt (key k) (entries.map fun e => (key e.1, value e.2)) = (lastAt k entries).map value := by
  induction entries with
  | nil => rfl
  | cons e entries ih =>
    rw [map_cons, lastAt, lastAt, ih]
    cases lastAt k entries with
    | some v => rfl
    | none =>
      by_cases hk : k = e.1
      · rw [if_pos hk, if_pos (congrArg key hk)]
        rfl
      · rw [if_neg hk, if_neg fun h => hk (hinj h)]
        rfl

theorem lookup_insertAll (entries : List (K × V)) (k : K) :
    (m.insertAll entries).lookup k = (lastAt k entries).or (m.lookup k) := by
  induction entries generalizing m with
  | nil => rfl
  | cons e entries ih =>
    change (insertAll (m.insert e.1 e.2) entries).lookup k = _
    rw [ih, lastAt, Option.or_assoc]
    by_cases hk : k = e.1
    · subst hk
      rw [lookup_insert, if_pos rfl, Option.some_or]
    · rw [lookup_insert_ne hk, if_neg hk, Option.none_or]

variable (hnodup : (entries.map Prod.fst).Nodup)

include hnodup

/-- A map that is collected from entries with distinct keys holds those entries. -/
theorem lookup_collected
    (k : K) (v : V) : (insertAll ∅ entries).lookup k = some v ↔ (k, v) ∈ entries := by
  rw [lookup_insertAll, lookup_empty, Option.or_none]
  constructor
  · exact mem_of_lastAt
  · intro hmem
    refine lastAt_of_mem hmem fun w hw => ?_
    exact congrArg Prod.snd (inj_on_of_nodup_map hnodup hw hmem rfl)

theorem toPairs_collected : (toPairs (insertAll ∅ entries)).Perm entries := by
  refine (perm_ext_iff_of_nodup (nodup_toPairs _).of_map hnodup.of_map).mpr fun entry => ?_
  exact mem_toPairs.trans (lookup_collected hnodup entry.1 entry.2)

theorem keys_collected : (insertAll ∅ entries).keys.Perm (entries.map Prod.fst) := by
  rw [← map_fst_toPairs]
  exact (toPairs_collected hnodup).map Prod.fst

omit hnodup

/-- What the insertions replace, each in the map that the ones before it left. -/
def overwritten (m : HashMap K V) : List (K × V) → Nat
  | [] => 0
  | e :: entries => measureAt f m e.1 + overwritten (m.insert e.1 e.2) entries

@[simp] theorem measureAt_erase_self (k : K) : measureAt f (m.erase k) k = 0 := by
  rw [measureAt, lookup_erase]
  rfl

theorem measureAt_erase_ne {j k : K} (h : j ≠ k) : measureAt f (m.erase k) j = measureAt f m j := by
  rw [measureAt, lookup_erase_ne h, measureAt]

/-- A key that is named twice is taken once. -/
theorem sum_insert_measureAt (k : K) (s : Finset K) :
    ∑ j ∈ insert k s, measureAt f m j =
      measureAt f m k + ∑ j ∈ s, measureAt f (m.erase k) j := by
  have hrest : ∑ j ∈ s.erase k, measureAt f (m.erase k) j = ∑ j ∈ s.erase k, measureAt f m j :=
    Finset.sum_congr rfl fun j hj => measureAt_erase_ne f m (Finset.ne_of_mem_erase hj)
  rw [← Finset.sum_erase s (measureAt_erase_self f m k), hrest,
    ← Finset.add_sum_erase _ _ (Finset.mem_insert_self k s), Finset.erase_insert_eq_erase]

/-- Removing keys takes what was under each of them once. -/
theorem total_eraseAll (ks : List K) :
    total f (m.eraseAll ks) + ∑ k ∈ ks.toFinset, measureAt f m k = total f m := by
  induction ks generalizing m with
  | nil => simp [eraseAll]
  | cons k ks ih =>
    have hrest := ih (m.erase k)
    have hhead := total_erase f m k
    rw [toFinset_cons, sum_insert_measureAt]
    change total f (eraseAll (m.erase k) ks) + _ = _
    omega

theorem total_insertAll (entries : List (K × V)) :
    total f (m.insertAll entries) + overwritten f m entries =
      total f m + (entries.map fun e => f e.2).sum := by
  induction entries generalizing m with
  | nil => simp [insertAll, overwritten]
  | cons e entries ih =>
    have hrest := ih (m.insert e.1 e.2)
    have hhead := total_insert f m e.1 e.2
    rw [overwritten, map_cons, sum_cons]
    change total f (insertAll (m.insert e.1 e.2) entries) + _ = _
    omega

omit [DecidableEq K] in
@[simp] theorem total_one : total (fun _ => 1) m = m.len := by
  rw [total, map_const', sum_replicate_nat, Nat.mul_one, len]

theorem len_insert {m : HashMap K V} {k : K} (hnew : m.lookup k = none) (v : V) :
    len (m.insert k v) = m.len + 1 := by
  have hinsert := total_insert (fun _ => 1) m k v
  rw [measureAt, hnew, total_one, total_one] at hinsert
  exact hinsert

end

end HashMap
