import RustyCoin.Lib.HashMap

/-!
# Write batches

A batch collects operations on a key-value store, and writing it carries them out
in their order. What the store holds under a key afterwards is decided by the last
operation on the key.
-/

inductive WriteOp (K V : Type) where
  | put (key : K) (value : V)
  | delete (key : K)

abbrev WriteBatch (K V : Type) : Type := List (WriteOp K V)

namespace WriteBatch

open Option List

variable {K V : Type} [DecidableEq K]

variable (db : HashMap K V)

def step : WriteOp K V → HashMap K V
  | .put key value => db.insert key value
  | .delete key => db.erase key

def write (batch : WriteBatch K V) : HashMap K V :=
  batch.foldl step db

/-- What an operation leaves under a key, if it is about the key. -/
def effect (key : K) : WriteOp K V → Option (Option V)
  | .put other value => if key = other then some (some value) else none
  | .delete other => if key = other then some none else none

/-- What the last operation on a key leaves under it. -/
def lastEffect (key : K) : WriteBatch K V → Option (Option V)
  | [] => none
  | op :: batch => (lastEffect key batch).or (effect key op)

theorem lookup_step (op : WriteOp K V) (key : K) :
    (step db op).lookup key = (effect key op).getD (db.lookup key) := by
  cases op with
  | put other value =>
    by_cases hkey : key = other
    · subst hkey
      rw [effect, if_pos rfl]
      exact AList.lookup_insert db
    · rw [effect, if_neg hkey]
      exact AList.lookup_insert_ne hkey
  | delete other =>
    by_cases hkey : key = other
    · subst hkey
      rw [effect, if_pos rfl]
      exact AList.lookup_erase key db
    · rw [effect, if_neg hkey]
      exact AList.lookup_erase_ne hkey

@[simp] theorem lookup_write (batch : WriteBatch K V) (key : K) :
    (write db batch).lookup key = (lastEffect key batch).getD (db.lookup key) := by
  induction batch generalizing db with
  | nil => rfl
  | cons op batch ih =>
    change (write (step db op) batch).lookup key = _
    rw [ih, lookup_step, lastEffect]
    cases lastEffect key batch with
    | none => rfl
    | some effect => rfl

@[simp] theorem lastEffect_append (key : K) (front back : WriteBatch K V) :
    lastEffect key (front ++ back) = (lastEffect key back).or (lastEffect key front) := by
  induction front with
  | nil => exact (or_none).symm
  | cons op front ih => rw [cons_append, lastEffect, ih, lastEffect, Option.or_assoc]

/-- Some keys are deleted. -/
def deletes (keys : List K) : WriteBatch K V :=
  keys.map .delete

/-- Some entries are put. -/
def puts (entries : List (K × V)) : WriteBatch K V :=
  entries.map fun e => .put e.1 e.2

@[simp] theorem lastEffect_deletes (key : K) (keys : List K) :
    lastEffect key (deletes keys : WriteBatch K V) = if key ∈ keys then some none else none := by
  induction keys with
  | nil => rfl
  | cons other keys ih =>
    change (lastEffect key (deletes keys)).or (effect key (.delete other)) = _
    rw [ih, effect]
    by_cases hrest : key ∈ keys
    · rw [if_pos hrest, if_pos (mem_cons_of_mem other hrest)]
      rfl
    · rw [if_neg hrest, none_or]
      by_cases hkey : key = other
      · rw [if_pos hkey, if_pos (hkey ▸ mem_cons_self)]
      · rw [if_neg hkey, if_neg (by simp [hkey, hrest])]

@[simp] theorem lastEffect_puts (key : K) (entries : List (K × V)) :
    lastEffect key (puts entries) = (HashMap.lastAt key entries).map some := by
  induction entries with
  | nil => rfl
  | cons e entries ih =>
    change (lastEffect key (puts entries)).or (effect key (.put e.1 e.2)) = _
    rw [ih, effect, HashMap.lastAt]
    cases HashMap.lastAt key entries with
    | some value => rfl
    | none =>
      rw [none_or, map_none, none_or]
      by_cases hkey : key = e.1
      · rw [if_pos hkey, if_pos hkey]
        rfl
      · rw [if_neg hkey, if_neg hkey]
        rfl

/-- Deletions of other keys do not matter. -/
theorem lastEffect_flatMap {α : Type} {key : K} {deleted : α → List K} (put : α → List (K × V))
    {l : List α} (hother : ∀ a ∈ l, key ∉ deleted a) :
    lastEffect key (l.flatMap fun a => deletes (deleted a) ++ puts (put a)) =
      (HashMap.lastAt key (l.flatMap put)).map some := by
  induction l with
  | nil => rfl
  | cons a l ih =>
    rw [forall_mem_cons] at hother
    rw [flatMap_cons, lastEffect_append, ih hother.2, lastEffect_append, lastEffect_puts,
      lastEffect_deletes, if_neg hother.1, or_none, flatMap_cons,
      HashMap.lastAt_append]
    cases HashMap.lastAt key (l.flatMap put) with
    | none => rfl
    | some value => rfl

section

variable {K' V' : Type} [DecidableEq K']

/-- An operation on a store that has other keys and values. -/
def encodeOp (key : K → K') (value : V → V') : WriteOp K V → WriteOp K' V'
  | .put k v => .put (key k) (value v)
  | .delete k => .delete (key k)

def encoded (key : K → K') (value : V → V') (batch : WriteBatch K V) : WriteBatch K' V' :=
  batch.map (encodeOp key value)

variable {key : K → K'} (hinj : Function.Injective key) (value : V → V') (k : K)

include hinj

theorem effect_encodeOp (op : WriteOp K V) :
    effect (key k) (encodeOp key value op) = (effect k op).map (Option.map value) := by
  have hkey (other : K) : key k = key other ↔ k = other := hinj.eq_iff
  cases op with
  | put other v =>
    simp only [encodeOp, effect, hkey]
    split
    · rfl
    · rfl
  | delete other =>
    simp only [encodeOp, effect, hkey]
    split
    · rfl
    · rfl

theorem lastEffect_encoded (batch : WriteBatch K V) :
    lastEffect (key k) (encoded key value batch) = (lastEffect k batch).map (Option.map value) := by
  induction batch with
  | nil => rfl
  | cons op batch ih =>
    change (lastEffect (key k) (encoded key value batch)).or (effect (key k) _) = _
    rw [ih, effect_encodeOp hinj, lastEffect]
    cases lastEffect k batch with
    | none => rfl
    | some effect => rfl

end

end WriteBatch
