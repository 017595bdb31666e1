import RustyCoin.Lib.Outcome
import RustyCoin.Lib.Prefixes

/-!
# Stateful calls

A call may change a state and may fail. What it has changed before it fails
stays changed, as with methods that write through a mutable reference and leave
early. `Keeps` says that a call never touches a part of the state, `Preserves`
that it carries an invariant over, `SetsOnReturn` that it changes a part of
the state only by returning, and `Lifts` that it does to a part of the state what
another call does; they are closed under the ways in which calls are composed.
-/

structure Stateful (ε σ α : Type) where
  run : σ → Outcome ε α × σ

namespace Stateful

open Outcome List

variable {ε σ τ ρ α β ι : Type}

instance : Monad (Stateful ε σ) where
  pure a := ⟨fun s => (.ok a, s)⟩
  bind x f := ⟨fun s =>
    match x.run s with
    | (.ok a, s') => (f a).run s'
    | (.error e, s') => (.error e, s')⟩

/-- A call that only reads the state. -/
def read (f : σ → Outcome ε α) : Stateful ε σ α := ⟨fun s => (f s, s)⟩

def modify (f : σ → σ) : Stateful ε σ Unit := ⟨fun s => (.ok (), f s)⟩

/-- A call on a part of the state. -/
def zoom (view : σ → τ) (update : τ → σ → σ) (x : Stateful ε τ α) : Stateful ε σ α := ⟨fun s =>
  let (result, part) := x.run (view s)
  (result, update part s)⟩

/-- A call whose returned value or error is dropped. -/
def ignoring (x : Stateful ε σ α) : Stateful ε σ Unit := ⟨fun s =>
  match x.run s with
  | (.ok _, t) => (.ok (), t)
  | (.error (.err _), t) => (.ok (), t)
  | (.error .panic, t) => (.error .panic, t)
  | (.error .outOfFuel, t) => (.error .outOfFuel, t)⟩

variable {x : Stateful ε σ α} {f : α → Stateful ε σ β} {s t : σ} {a : α} {b : β} {e : Failure ε}

@[simp] theorem run_pure : (pure a : Stateful ε σ α).run s = (.ok a, s) := rfl

@[simp] theorem run_modify (g : σ → σ) : (modify g : Stateful ε σ Unit).run s = (.ok (), g s) := rfl

@[simp] theorem run_modify_bind (g : σ → σ) (f : Unit → Stateful ε σ β) :
    (modify g >>= f).run s = (f ()).run (g s) := rfl

@[simp] theorem run_read_bind (g : σ → Outcome ε α) :
    (read g >>= f).run s =
      match g s with
      | .ok a => (f a).run s
      | .error e => (.error e, s) := by
  show (match (g s, s) with
    | (.ok a, s') => (f a).run s'
    | (.error e, s') => (.error e, s')) = _
  cases g s with
  | error e => rfl
  | ok a => rfl

theorem run_bind_of_ok (h : x.run s = (.ok a, t)) : (x >>= f).run s = (f a).run t := by
  show (match x.run s with
    | (.ok a, s') => (f a).run s'
    | (.error e, s') => (.error e, s')) = (f a).run t
  rw [h]

/-- The state that a failing part has left is kept. -/
theorem run_bind_of_error (h : x.run s = (.error e, t)) : (x >>= f).run s = (.error e, t) := by
  show (match x.run s with
    | (.ok a, s') => (f a).run s'
    | (.error e, s') => (.error e, s')) = (.error e, t)
  rw [h]

/-- A sequence returns exactly when both of its parts do. -/
theorem run_bind_eq_ok :
    (x >>= f).run s = (.ok b, t) ↔ ∃ a u, x.run s = (.ok a, u) ∧ (f a).run u = (.ok b, t) := by
  constructor
  · intro h
    rcases hx : x.run s with ⟨e | a, u⟩
    · rw [run_bind_of_error hx] at h
      cases h
    · rw [run_bind_of_ok hx] at h
      exact ⟨a, u, rfl, h⟩
  · rintro ⟨a, u, hx, hf⟩
    rw [run_bind_of_ok hx, hf]

theorem ext_run {x y : Stateful ε σ α} (h : ∀ s, x.run s = y.run s) : x = y := by
  obtain ⟨x⟩ := x
  obtain ⟨y⟩ := y
  exact congrArg mk (funext h)

instance : LawfulMonad (Stateful ε σ) := by
  refine LawfulMonad.mk' _ (fun x => ?_) (fun _ _ => rfl) (fun x f g => ?_)
  · refine ext_run fun s => ?_
    change (x >>= pure).run s = x.run s
    rcases hx : x.run s with ⟨e | a, t⟩
    · exact run_bind_of_error hx
    · exact run_bind_of_ok hx
  · refine ext_run fun s => ?_
    rcases hx : x.run s with ⟨e | a, t⟩
    · rw [run_bind_of_error hx, run_bind_of_error (run_bind_of_error hx)]
    · rw [run_bind_of_ok hx]
      rcases hf : (f a).run t with ⟨e | b, u⟩
      · rw [run_bind_of_error hf, run_bind_of_error ((run_bind_of_ok hx).trans hf)]
      · rw [run_bind_of_ok hf, run_bind_of_ok ((run_bind_of_ok hx).trans hf)]

variable {g : σ → Outcome ε α}

theorem run_read_bind_eq_ok :
    (read g >>= f).run s = (.ok b, t) ↔ ∃ a, g s = .ok a ∧ (f a).run s = (.ok b, t) := by
  rw [run_read_bind]
  cases g s with
  | error e => simp
  | ok a => simp

theorem run_read_bind_returns_iff :
    (∃ b t, (read g >>= f).run s = (.ok b, t)) ↔
      ∃ a, g s = .ok a ∧ ∃ b t, (f a).run s = (.ok b, t) := by
  rw [run_read_bind]
  cases g s with
  | error e => simp
  | ok a => simp

variable {update : τ → σ → σ} {r : Outcome ε α} {part : σ → ρ}

variable {view : σ → τ} {x : Stateful ε τ α}

theorem run_zoom_eq_ok :
    (zoom view update x).run s = (.ok a, t) ↔
      ∃ part, x.run (view s) = (.ok a, part) ∧ update part s = t := by
  change ((x.run (view s)).1, update (x.run (view s)).2 s) = (.ok a, t) ↔ _
  rcases x.run (view s) with ⟨result, part⟩
  constructor
  · rintro ⟨⟩
    exact ⟨part, rfl, rfl⟩
  · rintro ⟨_, ⟨⟩, rfl⟩
    rfl

theorem run_zoom_of_run {part : τ}
    (h : x.run (view s) = (r, part)) :
    (zoom view update x).run s = (r, update part s) := by
  show ((x.run (view s)).1, update (x.run (view s)).2 s) = (r, update part s)
  rw [h]

variable {l : List ι}

/-- A loop whose calls change nothing. -/
theorem run_forM_idle {f : ι → Stateful ε σ Unit} {s : σ}
    (h : ∀ i ∈ l, (f i).run s = (.ok (), s)) : (forM l f).run s = (.ok (), s) := by
  induction l with
  | nil => rfl
  | cons i l ih =>
    rw [forall_mem_cons] at h
    rw [forM_cons, run_bind_of_ok h.1, ih h.2]

/-- A loop whose calls succeed or fail whatever the state returns if all of them succeed. -/
theorem run_forM_returns_iff {f : ι → Stateful ε σ Unit} {good : ι → Prop}
    (hf : ∀ i s, (∃ t, (f i).run s = (.ok (), t)) ↔ good i) (l : List ι) (s : σ) :
    (∃ t, (forM l f).run s = (.ok (), t)) ↔ ∀ i ∈ l, good i := by
  induction l generalizing s with
  | nil => exact iff_of_true ⟨s, rfl⟩ nofun
  | cons i l ih =>
    rw [forM_cons, forall_mem_cons, ← hf i s]
    constructor
    · rintro ⟨t, hrun⟩
      obtain ⟨_, u, hi, hl⟩ := run_bind_eq_ok.mp hrun
      exact ⟨⟨u, hi⟩, (ih u).mp ⟨t, hl⟩⟩
    · rintro ⟨⟨u, hi⟩, hall⟩
      obtain ⟨t, hl⟩ := (ih u).mpr hall
      exact ⟨t, run_bind_eq_ok.mpr ⟨(), u, hi, hl⟩⟩

variable (x : Stateful ε σ α) (s : σ)

theorem run_ignoring :
    x.ignoring.run s =
      match x.run s with
      | (.ok _, t) => (.ok (), t)
      | (.error (.err _), t) => (.ok (), t)
      | (.error .panic, t) => (.error .panic, t)
      | (.error .outOfFuel, t) => (.error .outOfFuel, t) := rfl

/-- Dropping the outcome of a call keeps what it has done. -/
@[simp] theorem run_ignoring_snd : (x.ignoring.run s).2 = (x.run s).2 := by
  rw [run_ignoring]
  rcases x.run s with ⟨(e | - | -) | a, t⟩ <;> rfl

/-- There is no error left to return. -/
theorem run_ignoring_ne_err (e : ε) : (x.ignoring.run s).1 ≠ .error (.err e) := by
  rw [run_ignoring]
  rcases x.run s with ⟨(e' | - | -) | a, t⟩ <;> nofun

/-- Whatever its outcome, the call leaves this part of the state as it is. -/
def Keeps (view : σ → τ) (x : Stateful ε σ α) : Prop :=
  ∀ s, view (x.run s).2 = view s

variable {view : σ → τ}

theorem Keeps.eq {x : Stateful ε σ α} (hx : Keeps view x) {s t : σ}
    (h : x.run s = (r, t)) : view t = view s := by
  have hs := hx s
  rwa [h] at hs

theorem keeps_pure (a : α) : Keeps view (pure a : Stateful ε σ α) := fun _ => rfl

theorem keeps_read (f : σ → Outcome ε α) : Keeps view (read f) := fun _ => rfl

theorem keeps_modify {f : σ → σ} (h : ∀ s, view (f s) = view s) :
    Keeps view (modify f : Stateful ε σ Unit) := h

theorem keeps_zoom {update : ρ → σ → σ} (x : Stateful ε ρ α)
    (h : ∀ r s, view (update r s) = view s) : Keeps view (zoom part update x) :=
  fun s => h _ s

variable {x : Stateful ε σ α} {f : α → Stateful ε σ β}

theorem Keeps.bind (hx : Keeps view x) (hf : ∀ a, Keeps view (f a)) : Keeps view (x >>= f) := by
  intro s
  rcases hxs : x.run s with ⟨e | a, t⟩
  · rw [run_bind_of_error hxs]
    exact hx.eq hxs
  · rw [run_bind_of_ok hxs]
    exact (hf a t).trans (hx.eq hxs)

theorem keeps_forM {f : ι → Stateful ε σ Unit} (hf : ∀ i, Keeps view (f i)) :
    Keeps view (forM l f) := by
  induction l with
  | nil => exact keeps_pure ()
  | cons i l ih => exact (hf i).bind fun _ => ih

/-- Whatever its outcome, the call leaves a state with the invariant if it starts from one. -/
def Preserves (inv : σ → Prop) (x : Stateful ε σ α) : Prop :=
  ∀ s, inv s → inv (x.run s).2

variable {inv : σ → Prop}

theorem preserves_pure (a : α) : Preserves inv (pure a : Stateful ε σ α) := fun _ hs => hs

theorem preserves_read (f : σ → Outcome ε α) : Preserves inv (read f) := fun _ hs => hs

theorem preserves_modify {f : σ → σ} (h : ∀ s, inv s → inv (f s)) :
    Preserves inv (modify f : Stateful ε σ Unit) := h

/-- What was read may be used for what follows. -/
theorem inv_run_read_bind {g : σ → Outcome ε α} {f : α → Stateful ε σ β} {s : σ} (hs : inv s)
    (h : ∀ a, g s = .ok a → inv ((f a).run s).2) : inv ((read g >>= f).run s).2 := by
  rw [run_read_bind]
  cases hg : g s with
  | error e => exact hs
  | ok a => exact h a hg

theorem preserves_zoom {update : ρ → σ → σ} {x : Stateful ε ρ α} {inner : ρ → Prop}
    (hx : Preserves inner x) (hinner : ∀ s, inv s → inner (part s))
    (hinv : ∀ r s, inv s → inner r → inv (update r s)) : Preserves inv (zoom part update x) := by
  intro s hs
  exact hinv _ s hs (hx (part s) (hinner s hs))

theorem Preserves.bind (hx : Preserves inv x)
    (hf : ∀ a, Preserves inv (f a)) : Preserves inv (x >>= f) := by
  intro s hs
  have hmiddle := hx s hs
  rcases hxs : x.run s with ⟨e | a, t⟩
  · rw [run_bind_of_error hxs]
    rwa [hxs] at hmiddle
  · rw [run_bind_of_ok hxs]
    rw [hxs] at hmiddle
    exact hf a t hmiddle

theorem preserves_forM {f : ι → Stateful ε σ Unit}
    (hf : ∀ i ∈ l, Preserves inv (f i)) : Preserves inv (forM l f) := by
  induction l with
  | nil => exact preserves_pure ()
  | cons i l ih =>
    rw [forall_mem_cons] at hf
    exact hf.1.bind fun _ => ih hf.2

theorem preserves_mapM {f : ι → Stateful ε σ β} (hf : ∀ i, Preserves inv (f i)) :
    Preserves inv (l.mapM f) := by
  induction l with
  | nil => exact preserves_pure []
  | cons i l ih =>
    rw [mapM_cons]
    exact (hf i).bind fun b => ih.bind fun bs => preserves_pure (b :: bs)

/-- What a call keeps is an invariant of it. -/
theorem Keeps.preserves {view : σ → τ} {x : Stateful ε σ α} (hx : Keeps view x)
    {inv : τ → Prop} : Preserves (fun s => inv (view s)) x := by
  intro s hs
  rw [hx s]
  exact hs

/-- The call gives this part of the state a value when it returns, and leaves it as it is when it
fails. -/
def SetsOnReturn (view : σ → τ) (value : τ) (x : Stateful ε σ α) : Prop :=
  ∀ s, view (x.run s).2 =
    match (x.run s).1 with
    | .ok _ => value
    | .error _ => view s

variable {value : τ}

theorem setsOnReturn_modify {f : σ → σ} (h : ∀ s, view (f s) = value) :
    SetsOnReturn view value (modify f : Stateful ε σ Unit) := h

theorem SetsOnReturn.keeps_bind (hx : Keeps view x) (hf : ∀ a, SetsOnReturn view value (f a)) :
    SetsOnReturn view value (x >>= f) := by
  intro s
  rcases hxs : x.run s with ⟨e | a, t⟩
  · rw [run_bind_of_error hxs]
    exact hx.eq hxs
  · rw [run_bind_of_ok hxs, hf a t, hx.eq hxs]

section

variable {f : ι → Stateful ε σ β} {known : List ι → σ → Prop} {good : List ι → ι → Prop}

theorem run_mapM_cons_returns_iff {i : ι} {l : List ι} {s : σ} :
    (∃ bs t, ((i :: l).mapM f).run s = (.ok bs, t)) ↔
      ∃ b u, (f i).run s = (.ok b, u) ∧ ∃ bs t, (l.mapM f).run u = (.ok bs, t) := by
  rw [mapM_cons]
  constructor
  · rintro ⟨_, t, hrun⟩
    obtain ⟨b, u, hi, hrest⟩ := run_bind_eq_ok.mp hrun
    obtain ⟨bs, t, hl, -⟩ := run_bind_eq_ok.mp hrest
    exact ⟨b, u, hi, bs, t, hl⟩
  · rintro ⟨b, u, hi, bs, t, hl⟩
    refine ⟨b :: bs, t, run_bind_eq_ok.mpr ⟨b, u, hi, ?_⟩⟩
    exact run_bind_eq_ok.mpr ⟨bs, t, hl, rfl⟩

/-- If what is known of the state from the items before decides whether the call on an item
returns, then a traversal returns exactly if every item is good in its place. -/
theorem run_mapM_returns_iff
    (hgood : ∀ front i t, known front t → ((∃ b u, (f i).run t = (.ok b, u)) ↔ good front i))
    (hnext : ∀ front i t b u, known front t → (f i).run t = (.ok b, u) → known (front ++ [i]) u)
    (l : List ι) {s : σ} (hstart : known [] s) :
    (∃ bs t, (l.mapM f).run s = (.ok bs, t)) ↔ ∀ front i, front ++ [i] <+: l → good front i := by
  have hfrom (before : List ι) {s : σ} (hknown : known before s) :
      (∃ bs t, (l.mapM f).run s = (.ok bs, t)) ↔
        ∀ front i, front ++ [i] <+: l → good (before ++ front) i := by
    induction l generalizing before s with
    | nil => exact iff_of_true ⟨[], s, rfl⟩ Prefixes.forall_snoc_nil
    | cons i l ih =>
      rw [run_mapM_cons_returns_iff, Prefixes.forall_snoc_cons, append_nil,
        ← hgood before i s hknown]
      have hrest {b : β} {u : σ} (hi : (f i).run s = (.ok b, u)) :
          (∃ bs t, (l.mapM f).run u = (.ok bs, t)) ↔
            ∀ front j, front ++ [j] <+: l → good (before ++ i :: front) j := by
        rw [ih (before ++ [i]) (hnext before i s b u hknown hi)]
        simp only [append_assoc, singleton_append]
      constructor
      · rintro ⟨b, u, hi, hl⟩
        exact ⟨⟨b, u, hi⟩, (hrest hi).mp hl⟩
      · rintro ⟨⟨b, u, hi⟩, hl⟩
        exact ⟨b, u, hi, (hrest hi).mpr hl⟩
  exact hfrom [] hstart

end

/-- The call does to a part of the state what another call does, with the same outcome. What it
does to the rest of the state is not seen. -/
def Lifts (view : σ → τ) (x : Stateful ε σ α) (y : Stateful ε τ α) : Prop :=
  ∀ s, y.run (view s) = ((x.run s).1, view (x.run s).2)

theorem lifts_zoom {update : τ → σ → σ} (y : Stateful ε τ α) (h : ∀ t s, view (update t s) = t) :
    Lifts view (zoom view update y) y := by
  intro s
  show y.run (view s) = ((y.run (view s)).1, view (update (y.run (view s)).2 s))
  rw [h]

theorem lifts_read (g : τ → Outcome ε α) : Lifts view (read fun s => g (view s)) (read g) :=
  fun _ => rfl

theorem lifts_modify {f : σ → σ} {g : τ → τ} (h : ∀ s, view (f s) = g (view s)) :
    Lifts view (modify f : Stateful ε σ Unit) (modify g) := by
  intro s
  show (Except.ok (), g (view s)) = (Except.ok (), view (f s))
  rw [h]

/-- What is noted down elsewhere does not show. -/
theorem lifts_note {f : σ → σ} (h : ∀ s, view (f s) = view s) :
    Lifts view (modify f : Stateful ε σ Unit) (pure ()) :=
  lifts_modify h

theorem Lifts.bind {x : Stateful ε σ α} {y : Stateful ε τ α} {f : α → Stateful ε σ β}
    {g : α → Stateful ε τ β} (hxy : Lifts view x y) (hfg : ∀ a, Lifts view (f a) (g a)) :
    Lifts view (x >>= f) (y >>= g) := by
  intro s
  have hy := hxy s
  rcases hx : x.run s with ⟨e | a, t⟩
  · rw [hx] at hy
    rw [run_bind_of_error hx, run_bind_of_error hy]
  · rw [hx] at hy
    rw [run_bind_of_ok hx, run_bind_of_ok hy, hfg a t]

theorem lifts_forM {f : ι → Stateful ε σ Unit} {g : ι → Stateful ε τ Unit}
    (hfg : ∀ i, Lifts view (f i) (g i)) (l : List ι) : Lifts view (forM l f) (forM l g) := by
  induction l with
  | nil => exact fun _ => rfl
  | cons i l ih => exact (hfg i).bind fun _ => ih

section

variable {x : Stateful ε σ α} {failing : Failure ε → Prop}

theorem failsWith_run_bind {f : α → Stateful ε σ β} {s : σ} :
    ((x >>= f).run s).1.FailsWith failing ↔
      (x.run s).1.FailsWith failing ∧
        ∀ a t, x.run s = (.ok a, t) → ((f a).run t).1.FailsWith failing := by
  rcases hx : x.run s with ⟨failure | a, t⟩
  · rw [run_bind_of_error hx]
    simp
  · rw [run_bind_of_ok hx]
    simp

theorem failsWith_run_forM {f : ι → Stateful ε σ Unit}
    (hf : ∀ i s, ((f i).run s).1.FailsWith failing) (l : List ι) (s : σ) :
    ((forM l f).run s).1.FailsWith failing := by
  induction l generalizing s with
  | nil => exact failsWith_ok ()
  | cons i l ih =>
    rw [forM_cons, failsWith_run_bind]
    exact ⟨hf i s, fun _ t _ => ih t⟩

/-- A call that does not abort returns when its outcome is dropped. -/
theorem run_ignoring_of_isError {s : σ} (h : (x.run s).1.FailsWith Failure.IsError) :
    x.ignoring.run s = (.ok (), (x.run s).2) := by
  rw [run_ignoring]
  rcases hx : x.run s with ⟨(e | - | -) | a, t⟩
  · rfl
  · exact False.elim (h .panic (by rw [hx]))
  · exact False.elim (h .outOfFuel (by rw [hx]))
  · rfl

end

end Stateful
