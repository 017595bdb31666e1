/-!
# Outcomes of calls that can fail or abort

A call either returns a value, returns an error value of its own error type, or
aborts. Aborting is kept apart from returning an error: a caller can inspect an
error, while an abort ends the program. Loops and recursions that are unfolded
with an explicit bound report an exhausted bound as a third kind of failure, so
that running out of the bound is never mistaken for a result.
-/

/-- Why a call produced no value. -/
inductive Failure (ε : Type) where
  | err (e : ε)
  | panic
  | outOfFuel
  deriving DecidableEq, Repr

/-- The caller gets an error value. -/
def Failure.IsError {ε : Type} : Failure ε → Prop
  | .err _ => True
  | _ => False

theorem Failure.IsError.imp {ε : Type} {P : Failure ε → Prop} {failure : Failure ε}
    (h : failure.IsError) (herr : ∀ e, P (.err e)) : P failure := by
  cases failure with
  | err e => exact herr e
  | panic => exact h.elim
  | outOfFuel => exact h.elim

/-- What is asked of the failures of a call whose errors are dropped. -/
def Failure.Uncaught {ε ε' : Type} (Q : Failure ε' → Prop) : Failure ε → Prop
  | .err _ => True
  | .panic => Q .panic
  | .outOfFuel => Q .outOfFuel

abbrev Outcome (ε α : Type) : Type := Except (Failure ε) α

namespace Outcome

open List

variable {ε α β : Type}

/-- Return an error value to the caller. -/
def fail (e : ε) : Outcome ε α := .error (.err e)

/-- Take the value of an option, with the given error for an absent one. -/
def okOr (o : Option α) (e : ε) : Outcome ε α :=
  match o with
  | some a => .ok a
  | none => fail e

/-- Ask only whether a call returned a value. An abort is no answer. -/
def attempt {ε' : Type} : Outcome ε α → Outcome ε' (Option α)
  | .ok a => .ok (some a)
  | .error (.err _) => .ok none
  | .error .panic => .error .panic
  | .error .outOfFuel => .error .outOfFuel

/-- Turn the error of a call into another one. -/
def mapErr {ε' : Type} (f : ε → ε') : Outcome ε α → Outcome ε' α
  | .ok a => .ok a
  | .error (.err e) => fail (f e)
  | .error .panic => .error .panic
  | .error .outOfFuel => .error .outOfFuel

/-- The call returns, with this value or this error. -/
def Returns (x : Outcome ε α) : Except ε α → Prop
  | .ok a => x = .ok a
  | .error e => x = fail e

@[simp] theorem ok_bind (a : α) (f : α → Outcome ε β) : ((.ok a : Outcome ε α) >>= f) = f a := rfl

@[simp] theorem error_bind (e : Failure ε) (f : α → Outcome ε β) :
    ((.error e : Outcome ε α) >>= f) = .error e := rfl

@[simp] theorem fail_bind (e : ε) (f : α → Outcome ε β) :
    ((fail e : Outcome ε α) >>= f) = fail e := rfl

@[simp] theorem fail_ne_ok (e : ε) (a : α) : (fail e : Outcome ε α) ≠ .ok a := by
  simp [fail]

@[simp] theorem pure_eq_ok (a : α) : (pure a : Outcome ε α) = .ok a := rfl

variable {x : Outcome ε α} {f : α → Outcome ε β} {b : β} {a : α} {l : List α} {e : ε}

/-- A sequence returns exactly when both of its parts do. -/
theorem bind_eq_ok : (x >>= f) = .ok b ↔ ∃ a, x = .ok a ∧ f a = .ok b := by
  cases x with
  | error e => simp
  | ok a => simp

theorem map_eq_ok {f : α → β} : f <$> x = .ok b ↔ ∃ a, x = .ok a ∧ f a = b := by
  cases x with
  | error e => exact iff_of_false nofun nofun
  | ok a =>
    constructor
    · rintro ⟨⟩
      exact ⟨a, rfl, rfl⟩
    · rintro ⟨_, ⟨⟩, rfl⟩
      rfl

variable {ε' : Type} {c : Prop}

@[simp]
theorem attempt_eq_some : (x.attempt : Outcome ε' (Option α)) = .ok (some a) ↔ x = .ok a := by
  rcases x with (e | - | -) | b
  all_goals simp [attempt]

@[simp] theorem mapErr_eq_ok {f : ε → ε'} : x.mapErr f = .ok a ↔ x = .ok a := by
  rcases x with (e | - | -) | b
  all_goals simp [mapErr]

/-- A loop of checks returns exactly when each of them does. -/
theorem forM_eq_ok {check : α → Outcome ε Unit} :
    forM l check = .ok () ↔ ∀ a ∈ l, check a = .ok () := by
  induction l with
  | nil => simp
  | cons a l ih =>
    rw [forM_cons, bind_eq_ok, forall_mem_cons, ← ih]
    constructor
    · rintro ⟨_, hhead, hrest⟩
      exact ⟨hhead, hrest⟩
    · rintro ⟨hhead, hrest⟩
      exact ⟨(), hhead, hrest⟩

/-- A traversal returns the list of what was returned. -/
theorem mapM_eq_ok {results : List β} : l.mapM f = .ok results ↔ l.map f = results.map .ok := by
  induction l generalizing results with
  | nil =>
    cases results with
    | nil => exact iff_of_true rfl rfl
    | cons b results => exact iff_of_false nofun nofun
  | cons a l ih =>
    rw [mapM_cons, bind_eq_ok, map_cons]
    constructor
    · rintro ⟨b, hb, htail⟩
      obtain ⟨rest, hrest, hresults⟩ := bind_eq_ok.mp htail
      cases hresults
      rw [hb, ih.mp hrest, map_cons]
    · intro hmap
      cases results with
      | nil => cases hmap
      | cons b results =>
        obtain ⟨hb, hrest⟩ := List.cons.inj hmap
        exact ⟨b, hb, bind_eq_ok.mpr ⟨results, ih.mpr hrest, rfl⟩⟩

theorem mapM_eq_map {g : α → β} (h : ∀ a ∈ l, f a = .ok (g a)) : l.mapM f = .ok (l.map g) := by
  rw [mapM_eq_ok, map_map]
  exact map_congr_left h

theorem exists_mapM_eq_ok (h : ∀ a ∈ l, ∃ b, f a = .ok b) : ∃ results, l.mapM f = .ok results := by
  induction l with
  | nil => exact ⟨[], rfl⟩
  | cons a l ih =>
    obtain ⟨⟨b, hb⟩, hrest⟩ := forall_mem_cons.mp h
    obtain ⟨results, hresults⟩ := ih hrest
    refine ⟨b :: results, mapM_eq_ok.mpr ?_⟩
    rw [map_cons, hb, mapM_eq_ok.mp hresults, map_cons]

@[simp] theorem okOr_eq_ok {o : Option α} : okOr o e = .ok a ↔ o = some a := by
  cases o with
  | none => simp [okOr]
  | some b => simp [okOr]

/-- A check that returns early has let pass what comes after it. -/
theorem ite_fail_eq_ok [Decidable c] : (if c then fail e else x) = .ok a ↔ ¬c ∧ x = .ok a := by
  split
  · rename_i hc
    exact ⟨fun h => absurd h (fail_ne_ok e a), fun h => absurd hc h.1⟩
  · rename_i hc
    exact ⟨fun h => ⟨hc, h⟩, And.right⟩

/-- Return early with an error if a condition holds. -/
def rejectIf (c : Prop) [Decidable c] (e : ε) : Outcome ε Unit :=
  if c then fail e else .ok ()

@[simp] theorem rejectIf_eq_ok [Decidable c] : rejectIf c e = .ok () ↔ ¬c := by
  rw [rejectIf, ite_fail_eq_ok, and_iff_left rfl]

/-- Two calls one after the other. -/
theorem then_eq_ok {x : Outcome ε Unit} {y : Outcome ε β} :
    (do x; y) = .ok b ↔ x = .ok () ∧ y = .ok b := by
  cases x with
  | error e => exact iff_of_false nofun fun h => nomatch h.1
  | ok a => exact (and_iff_right rfl).symm

section

/-- If the call produces no value, it is for a reason of this kind. -/
def FailsWith (P : Failure ε → Prop) (x : Outcome ε α) : Prop :=
  ∀ failure, x = .error failure → P failure

variable {P : Failure ε → Prop}

@[simp] theorem failsWith_ok (a : α) : FailsWith P (.ok a : Outcome ε α) := nofun

@[simp] theorem failsWith_error (failure : Failure ε) :
    FailsWith P (.error failure : Outcome ε α) ↔ P failure := by
  constructor
  · intro h
    exact h failure rfl
  · rintro h _ ⟨⟩
    exact h

theorem eq_fail_iff : x = fail e ↔ ¬ FailsWith (· ≠ .err e) x := by
  simp [FailsWith, fail]

@[simp] theorem failsWith_fail (e : ε) : FailsWith P (fail e : Outcome ε α) ↔ P (.err e) :=
  failsWith_error (.err e)

variable {x : Outcome ε α}

@[simp] theorem failsWith_bind {f : α → Outcome ε β} :
    FailsWith P (x >>= f) ↔ FailsWith P x ∧ ∀ a, x = .ok a → FailsWith P (f a) := by
  cases x with
  | error failure => simp
  | ok a => simp

@[simp] theorem failsWith_okOr (o : Option α) (e : ε) :
    FailsWith P (okOr o e) ↔ (o = none → P (.err e)) := by
  cases o with
  | none => simp [okOr]
  | some a => simp [okOr]

/-- Look something up and go on with what is found. -/
theorem failsWith_bind_okOr {x : Outcome ε (Option α)} {e : ε} {f : α → Outcome ε β}
    (herr : P (.err e)) :
    FailsWith P (do
      let found ← x
      let a ← okOr found e
      f a) ↔ FailsWith P x ∧ ∀ a, x = .ok (some a) → FailsWith P (f a) := by
  rw [failsWith_bind]
  refine and_congr_right fun _ => ⟨fun h a ha => ?_, fun h found hfound => ?_⟩
  · exact h (some a) ha
  · cases found with
    | none => exact (failsWith_fail e).mpr herr
    | some a => exact h a hfound

@[simp] theorem failsWith_ite {c : Prop} [Decidable c] {y : Outcome ε α} :
    FailsWith P (if c then x else y) ↔ (c → FailsWith P x) ∧ (¬ c → FailsWith P y) := by
  split
  all_goals
    rename_i hc
    simp [hc]

theorem FailsWith.mono {Q : Failure ε → Prop} (hx : FailsWith P x)
    (hPQ : ∀ failure, P failure → Q failure) : FailsWith Q x :=
  fun failure h => hPQ failure (hx failure h)

/-- Asking whether a call returned a value takes its errors away. -/
@[simp] theorem failsWith_attempt {ε' : Type} {Q : Failure ε' → Prop} :
    FailsWith Q (x.attempt : Outcome ε' (Option α)) ↔ FailsWith (Failure.Uncaught Q) x := by
  rcases x with (e | - | -) | a
  · exact iff_of_true (failsWith_ok none) ((failsWith_error _).mpr trivial)
  · rw [attempt, failsWith_error, failsWith_error, Failure.Uncaught]
  · rw [attempt, failsWith_error, failsWith_error, Failure.Uncaught]
  · exact iff_of_true (failsWith_ok (some a)) (failsWith_ok a)

theorem failsWith_forM {l : List α} {check : α → Outcome ε Unit}
    (h : ∀ a ∈ l, FailsWith P (check a)) : FailsWith P (forM l check) := by
  induction l with
  | nil => exact failsWith_ok ()
  | cons a l ih =>
    rw [forall_mem_cons] at h
    rw [forM_cons, failsWith_bind]
    exact ⟨h.1, fun _ _ => ih h.2⟩

end

/-- The call did not stop at an exhausted bound. -/
def Settled (x : Outcome ε α) : Prop :=
  x ≠ .error .outOfFuel

theorem settled_iff {x : Outcome ε α} : Settled x ↔ FailsWith (· ≠ .outOfFuel) x := by
  constructor
  · rintro hx _ rfl rfl
    exact hx rfl
  · intro hx h
    exact hx .outOfFuel h rfl

end Outcome
