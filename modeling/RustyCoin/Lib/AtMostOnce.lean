import RustyCoin.Lib.HashMap

/-!
# Work that is done at most once

Items wait in a pool until they are done, and a status is kept for every item
that was ever received. A `Docket` says that no item waits twice, that none of
the waiting ones is done, and that no item was finished twice. The rules are the
ways in which it changes: an item is received for the first time, tried without
success, dropped, or finished. `retired` is any set of items that are known to
be done: they stay so.
-/

namespace AtMostOnce

open List

variable {K St : Type} [DecidableEq K]

structure Docket (done : St) (retired : Set K) (pooled finished : List K)
    (status : HashMap K St) : Prop where
  pooled_nodup : pooled.Nodup
  pooled_open : ∀ id ∈ pooled, ∃ st, status.lookup id = some st ∧ st ≠ done
  finished_nodup : finished.Nodup
  finished_done : ∀ id ∈ finished, status.lookup id = some done
  retired_done : ∀ id ∈ retired, status.lookup id = some done

namespace Docket

variable {done st : St} {retired : Set K} {pooled pooled' finished : List K}
  {status : HashMap K St} {id : K}

theorem empty (done : St) : Docket done ∅ ([] : List K) [] ∅ where
  pooled_nodup := nodup_nil
  pooled_open := nofun
  finished_nodup := nodup_nil
  finished_done := nofun
  retired_done := nofun

section

variable (h : Docket done retired pooled finished status)

include h

/-- The order of the waiting items does not matter. -/
theorem perm (hperm : pooled.Perm pooled') : Docket done retired pooled' finished status :=
  { h with
    pooled_nodup := hperm.nodup_iff.mp h.pooled_nodup
    pooled_open := fun id hid => h.pooled_open id (hperm.mem_iff.mpr hid) }

/-- What is done does not wait. -/
theorem not_mem_pooled (hdone : status.lookup id = some done) : id ∉ pooled := by
  intro hid
  obtain ⟨st, hst, hne⟩ := h.pooled_open id hid
  rw [hdone] at hst
  exact hne (Option.some.inj hst).symm

/-- Everything that is done by now may be taken for retired. -/
theorem retire : Docket done {id | status.lookup id = some done} pooled finished status :=
  { h with retired_done := fun _ hid => hid }

omit h in
/-- A new status for an item that is not done leaves those that are. -/
theorem lookup_insert_done (hopen : status.lookup id ≠ some done) {other : K}
    (hother : status.lookup other = some done) :
    (status.insert id st).lookup other = some done := by
  have hne : other ≠ id := by
    rintro rfl
    exact hopen hother
  rw [AList.lookup_insert_ne hne]
  exact hother

/-- An item that is not done gets a new status; it waits on only if it is still not done. -/
theorem update
    (hopen : status.lookup id ≠ some done) (hnodup : pooled'.Nodup)
    (hwaits : ∀ other ∈ pooled', other = id ∧ st ≠ done ∨ other ≠ id ∧ other ∈ pooled) :
    Docket done retired pooled' finished (status.insert id st) := by
  refine ⟨hnodup, ?_, h.finished_nodup, ?_, ?_⟩
  · intro other hmem
    obtain ⟨rfl, hst⟩ | ⟨hother, hmem⟩ := hwaits other hmem
    · exact ⟨st, AList.lookup_insert _, hst⟩
    · rw [AList.lookup_insert_ne hother]
      exact h.pooled_open other hmem
  · exact fun other hmem => lookup_insert_done hopen (h.finished_done other hmem)
  · exact fun other hmem => lookup_insert_done hopen (h.retired_done other hmem)

theorem receive
    (hnew : status.lookup id = none) (st : St) (hst : st ≠ done) :
    Docket done retired (id :: pooled) finished (status.insert id st) := by
  have hopen : status.lookup id ≠ some done := by
    rw [hnew]
    nofun
  have hfresh : id ∉ pooled := by
    intro hid
    obtain ⟨st', hst', -⟩ := h.pooled_open id hid
    rw [hnew] at hst'
    cases hst'
  refine h.update hopen (h.pooled_nodup.cons hfresh) fun other hmem => ?_
  exact (eq_or_ne other id).imp (⟨·, hst⟩) fun hne => ⟨hne, mem_of_ne_of_mem hne hmem⟩

end

variable (h : Docket done retired (id :: pooled) finished status)

include h

theorem open_of_head : status.lookup id ≠ some done :=
  fun hdone => h.not_mem_pooled hdone mem_cons_self

/-- The item is tried and waits on. -/
theorem retry (st : St) (hst : st ≠ done) :
    Docket done retired (id :: pooled) finished (status.insert id st) :=
  h.update h.open_of_head h.pooled_nodup fun other hmem =>
    (eq_or_ne other id).imp (⟨·, hst⟩) (⟨·, hmem⟩)

/-- The item is done and leaves the pool. -/
theorem drop : Docket done retired pooled finished (status.insert id done) := by
  obtain ⟨hfresh, hnodup⟩ := nodup_cons.mp h.pooled_nodup
  refine h.update h.open_of_head hnodup fun other hmem => .inr ⟨?_, mem_cons_of_mem id hmem⟩
  exact fun hsame => hfresh (hsame ▸ hmem)

/-- The item is done for the first time, and that is noted. -/
theorem finish : Docket done retired pooled (finished ++ [id]) (status.insert id done) := by
  have hopen := h.open_of_head
  have hfresh : id ∉ finished := fun hmem => hopen (h.finished_done id hmem)
  refine { h.drop with finished_nodup := ?_, finished_done := ?_ }
  · apply nodup_append.mpr
    refine ⟨h.finished_nodup, nodup_singleton id, ?_⟩
    rintro other hmem _ hid rfl
    rw [mem_singleton] at hid
    exact hfresh (hid ▸ hmem)
  · intro other hmem
    rw [mem_append, mem_singleton] at hmem
    cases hmem with
    | inl hmem => exact h.drop.finished_done other hmem
    | inr hid => rw [hid, AList.lookup_insert]

end Docket

end AtMostOnce
