import Mathlib.Data.List.Forall2
import RustyCoin.Lib.Outcome

/-!
# Bounded loops

A `while` loop is given by its step: `none` where the guard is false, and the
outcome of the loop body where it is true. `run` iterates a step under an
explicit bound, and `trace` lists the states in which the body was entered.

Two rules are proved here and used for every loop of this shape. `run_induct`
carries a predicate along a run, and `run_simulates` runs a second loop in lock
step with a first one for as long as the states of the first stay good.
-/

namespace Loop

variable {ε σ τ : Type}

variable (step : σ → Option (Outcome ε σ))

def run : Nat → σ → Outcome ε σ
  | 0, s =>
    match step s with
    | none => .ok s
    | some _ => .error .outOfFuel
  | fuel + 1, s =>
    match step s with
    | none => .ok s
    | some r => r >>= run fuel

/-- The states in which the loop body is entered, in order. -/
def trace : Nat → σ → List σ
  | 0, _ => []
  | fuel + 1, s =>
    match step s with
    | none => []
    | some (.ok s') => s :: trace fuel s'
    | some (.error _) => [s]

variable {fuel : Nat} {s s' : σ} {e : Failure ε}

theorem run_zero (s : σ) :
    run step 0 s = match step s with
      | none => .ok s
      | some _ => .error .outOfFuel := rfl

theorem run_succ (fuel : Nat) (s : σ) :
    run step (fuel + 1) s = match step s with
      | none => .ok s
      | some r => r >>= run step fuel := rfl

@[simp] theorem trace_zero (s : σ) : trace step 0 s = [] := rfl

theorem trace_succ (fuel : Nat) (s : σ) :
    trace step (fuel + 1) s = match step s with
      | none => []
      | some (.ok s') => s :: trace step fuel s'
      | some (.error _) => [s] := rfl

variable {step}

theorem run_done (h : step s = none) : run step fuel s = .ok s := by
  cases fuel with
  | zero => rw [run_zero, h]
  | succ n => rw [run_succ, h]

theorem run_step (h : step s = some (.ok s')) : run step (fuel + 1) s = run step fuel s' := by
  rw [run_succ, h]
  rfl

theorem run_error (h : step s = some (.error e)) : run step (fuel + 1) s = .error e := by
  rw [run_succ, h]
  rfl

theorem trace_done (h : step s = none) : trace step fuel s = [] := by
  cases fuel with
  | zero => rfl
  | succ n => rw [trace_succ, h]

theorem trace_step (h : step s = some (.ok s')) :
    trace step (fuel + 1) s = s :: trace step fuel s' := by
  rw [trace_succ, h]

theorem trace_error (h : step s = some (.error e)) : trace step (fuel + 1) s = [s] := by
  rw [trace_succ, h]

theorem mem_trace_head {r : Outcome ε σ} (h : step s = some r) : s ∈ trace step (fuel + 1) s := by
  cases r with
  | error e => simp [trace_error h]
  | ok s' => simp [trace_step h]

/-- What a run that returned did first: nothing, or one step of the body. -/
theorem run_eq_ok_cases (h : run step fuel s = .ok s') :
    (step s = none ∧ s' = s) ∨
      ∃ n s₁, fuel = n + 1 ∧ step s = some (.ok s₁) ∧ run step n s₁ = .ok s' := by
  cases hstep : step s with
  | none =>
    rw [run_done hstep] at h
    exact .inl ⟨rfl, (Except.ok.inj h).symm⟩
  | some r =>
    cases fuel with
    | zero => simp [run_zero, hstep] at h
    | succ n =>
      simp only [run_succ, hstep] at h
      obtain ⟨s₁, hr, hrest⟩ := Outcome.bind_eq_ok.mp h
      exact .inr ⟨n, s₁, rfl, by rw [hr], hrest⟩

variable {step : σ → Option (Outcome ε σ)}

/-- A predicate that every step keeps holds where the run stops. -/
theorem run_induct {P : σ → Prop}
    (hstep : ∀ s s', P s → step s = some (.ok s') → P s')
    {fuel : Nat} {s s' : σ} (hs : P s) (h : run step fuel s = .ok s') : P s' := by
  induction fuel generalizing s with
  | zero =>
    obtain ⟨-, rfl⟩ | ⟨n, s₁, hn, -, -⟩ := run_eq_ok_cases h
    · exact hs
    · cases hn
  | succ n ih =>
    obtain ⟨-, rfl⟩ | ⟨m, s₁, hn, hs₁, hrest⟩ := run_eq_ok_cases h
    · exact hs
    · cases hn
      exact ih (hstep s s₁ hs hs₁) hrest

variable (measure : σ → Nat)

variable (hdown : ∀ s s', step s = some (.ok s') → measure s' < measure s)

include hdown

/-- States entered later have the smaller measure. -/
theorem measure_le_of_mem_trace
    {fuel : Nat} {s x : σ} (hx : x ∈ trace step fuel s) : measure x ≤ measure s := by
  induction fuel generalizing s with
  | zero => simp at hx
  | succ n ih =>
    cases hs : step s with
    | none => simp [trace_done hs] at hx
    | some r =>
      cases r with
      | error e =>
        rw [trace_error hs, List.mem_singleton] at hx
        exact Nat.le_of_eq (congrArg measure hx)
      | ok s' =>
        rw [trace_step hs, List.mem_cons] at hx
        obtain rfl | hx := hx
        · exact Nat.le_refl _
        · exact Nat.le_trans (ih hx) (Nat.le_of_lt (hdown s s' hs))

variable (hpos : ∀ s r, step s = some r → 0 < measure s)

include hpos

/-- A body that shrinks a measure never exhausts a bound at least as large, so that
a loop fails exactly where its body does. -/
theorem failsWith_run {P : Failure ε → Prop}
    {fuel : Nat} {s : σ} (hfuel : measure s ≤ fuel) :
    (run step fuel s).FailsWith P ↔
      ∀ x ∈ trace step fuel s, ∀ r, step x = some r → r.FailsWith P := by
  induction fuel generalizing s with
  | zero =>
    cases hs : step s with
    | none => simp [run_done hs, trace_done hs]
    | some r =>
      have := hpos s r hs
      omega
  | succ n ih =>
    cases hs : step s with
    | none => simp [run_done hs, trace_done hs]
    | some r =>
      cases r with
      | error e => simp [run_error hs, trace_error hs, hs]
      | ok s' =>
        have := hdown s s' hs
        rw [run_step hs, trace_step hs, List.forall_mem_cons, ih (by omega)]
        simp [hs]

/-- Bounds that are both large enough give the same run. -/
theorem run_congr_fuel
    {fuel fuel' : Nat} {s : σ} (hfuel : measure s ≤ fuel) (hfuel' : measure s ≤ fuel') :
    run step fuel s = run step fuel' s ∧ trace step fuel s = trace step fuel' s := by
  induction fuel generalizing fuel' s with
  | zero =>
    cases hs : step s with
    | none => simp [run_done hs, trace_done hs]
    | some r =>
      have := hpos s r hs
      omega
  | succ n ih =>
    cases hs : step s with
    | none => simp [run_done hs, trace_done hs]
    | some r =>
      have hlt := hpos s r hs
      obtain ⟨m, rfl⟩ : ∃ m, fuel' = m + 1 :=
        Nat.exists_eq_add_one_of_ne_zero (by omega)
      cases r with
      | error e => simp [run_error hs, trace_error hs]
      | ok s' =>
        have := hdown s s' hs
        have hfuel : measure s' ≤ n := by omega
        have hfuel' : measure s' ≤ m := by omega
        obtain ⟨hrun, htrace⟩ := ih hfuel hfuel'
        rw [run_step hs, run_step hs, trace_step hs, trace_step hs, hrun, htrace]
        exact ⟨rfl, rfl⟩

omit hdown

omit hpos

/-- Two loops that agree outside of some states both get to one of these states, or
neither does. -/
theorem trace_avoids_iff {step step' : σ → Option (Outcome ε σ)} {Bad : σ → Prop}
    (hagree : ∀ s, ¬ Bad s → step s = step' s)
    (henter : ∀ s, (step s).isSome = (step' s).isSome) (fuel : Nat) (s : σ) :
    (∀ x ∈ trace step fuel s, ¬ Bad x) ↔ ∀ x ∈ trace step' fuel s, ¬ Bad x := by
  induction fuel generalizing s with
  | zero => simp
  | succ n ih =>
    by_cases hbad : Bad s
    · have hsome := henter s
      cases hs : step s with
      | none =>
        rw [hs, Option.isSome_none, eq_comm, Option.isSome_eq_false_iff,
          Option.isNone_iff_eq_none] at hsome
        simp [trace_done hs, trace_done hsome]
      | some r =>
        rw [hs, Option.isSome_some, eq_comm, Option.isSome_iff_exists] at hsome
        obtain ⟨r', hs'⟩ := hsome
        exact iff_of_false (fun h => h s (mem_trace_head hs) hbad)
          fun h => h s (mem_trace_head hs') hbad
    · have hsame := hagree s hbad
      rcases hs : step s with _ | failure | s'
      · simp [trace_done hs, trace_done (hsame ▸ hs)]
      · simp [trace_error hs, trace_error (hsame ▸ hs)]
      · rw [trace_step hs, trace_step (hsame ▸ hs), List.forall_mem_cons, List.forall_mem_cons,
          ih s']

/-- A change of the state that commutes with the body commutes with the loop. -/
theorem run_map {f : σ → σ}
    (hstep : ∀ s, step (f s) = (step s).map (Except.map f)) (fuel : Nat) (s : σ) :
    run step fuel (f s) = (run step fuel s).map f ∧
      trace step fuel (f s) = (trace step fuel s).map f := by
  induction fuel generalizing s with
  | zero =>
    cases hs : step s with
    | none => simp [run_zero, hstep, hs, Except.map]
    | some r => simp [run_zero, hstep, hs, Except.map]
  | succ n ih =>
    have hf := hstep s
    rcases hs : step s with _ | failure | s'
    · rw [hs] at hf
      simp [run_done hs, trace_done hs, run_done hf, trace_done hf, Except.map]
    · rw [hs] at hf
      simp [run_error hs, trace_error hs, run_error hf, trace_error hf, Except.map]
    · rw [hs] at hf
      rw [run_step hs, trace_step hs, run_step hf, trace_step hf, (ih s').1, (ih s').2]
      exact ⟨rfl, rfl⟩

section

variable {step : σ → Option (Outcome ε σ)} (step' : τ → Option (Outcome ε τ)) (R : σ → τ → Prop)
  (Good : σ → Prop)

/-- While the first loop is in good states, the second follows it step by step. -/
theorem run_simulates (hdone : ∀ s t, R s t → step s = none → step' t = none)
    (hnext : ∀ s t s', R s t → Good s → step s = some (.ok s') →
      ∃ t', step' t = some (.ok t') ∧ R s' t')
    {fuel : Nat} {s s' : σ} {t : τ} (hR : R s t)
    (hgood : ∀ x ∈ trace step fuel s, Good x) (h : run step fuel s = .ok s') :
    ∃ t', run step' fuel t = .ok t' ∧ R s' t' ∧
      List.Forall₂ R (trace step fuel s) (trace step' fuel t) := by
  induction fuel generalizing s t with
  | zero =>
    obtain ⟨hs, rfl⟩ | ⟨n, s₁, hn, -, -⟩ := run_eq_ok_cases h
    · exact ⟨t, run_done (hdone _ _ hR hs), hR, .nil⟩
    · cases hn
  | succ n ih =>
    obtain ⟨hs, rfl⟩ | ⟨m, s₁, hn, hs₁, hrest⟩ := run_eq_ok_cases h
    · rw [trace_done hs, trace_done (hdone _ _ hR hs)]
      exact ⟨t, run_done (hdone _ _ hR hs), hR, .nil⟩
    · cases hn
      rw [trace_step hs₁] at hgood ⊢
      obtain ⟨t₁, ht₁, hR₁⟩ := hnext s t s₁ hR (hgood s (by simp)) hs₁
      obtain ⟨t', hrun, hR', htrace⟩ :=
        ih hR₁ (fun x hx => hgood x (List.mem_cons_of_mem _ hx)) hrest
      rw [run_step ht₁, trace_step ht₁]
      exact ⟨t', hrun, hR', .cons hR htrace⟩

/-- The second loop fails as soon as the first one enters a bad state. -/
theorem run_fails_at_bad (hnext : ∀ s t s', R s t → Good s → step s = some (.ok s') →
      ∃ t', step' t = some (.ok t') ∧ R s' t')
    (hbad : ∀ s t, R s t → ¬ Good s → (step s).isSome → ∃ e, step' t = some (.error e))
    {fuel : Nat} {s s' : σ} {t : τ} (hR : R s t) {x : σ}
    (hx : x ∈ trace step fuel s) (hnot : ¬ Good x) (h : run step fuel s = .ok s') :
    ∃ e, run step' fuel t = .error e := by
  induction fuel generalizing s t with
  | zero => simp at hx
  | succ n ih =>
    obtain ⟨hs, -⟩ | ⟨m, s₁, hn, hs₁, hrest⟩ := run_eq_ok_cases h
    · simp [trace_done hs] at hx
    · cases hn
      by_cases hgood : Good s
      · obtain ⟨t₁, ht₁, hR₁⟩ := hnext s t s₁ hR hgood hs₁
        rw [trace_step hs₁, List.mem_cons] at hx
        rw [run_step ht₁]
        obtain rfl | hx := hx
        · exact absurd hgood hnot
        · exact ih hR₁ hx hrest
      · obtain ⟨e, he⟩ := hbad s t hR hgood (by simp [hs₁])
        exact ⟨e, run_error he⟩

end

end Loop

/-- The outcome of a computation, with the states that it visited on the way. -/
@[ext]
structure Traced (σ ε β : Type) where
  visited : List σ
  outcome : Outcome ε β

namespace Traced

variable {σ ε β γ δ : Type}

def pure (b : β) : Traced σ ε β := ⟨[], .ok b⟩

variable (t : Traced σ ε β) (k : β → Traced σ ε γ)

/-- The second computation starts where the first one returns. -/
def andThen : Traced σ ε γ :=
  match t.outcome with
  | .ok b => ⟨t.visited ++ (k b).visited, (k b).outcome⟩
  | .error failure => ⟨t.visited, .error failure⟩

@[simp] theorem andThen_pure (t : Traced σ ε β) : t.andThen pure = t := by
  obtain ⟨visited, failure | b⟩ := t
  · rfl
  · simp [andThen, pure]

theorem andThen_assoc (k' : γ → Traced σ ε δ) :
    (t.andThen k).andThen k' = t.andThen fun b => (k b).andThen k' := by
  obtain ⟨visited, failure | b⟩ := t
  · rfl
  · rcases h : (k b).outcome with failure | c
    all_goals simp [andThen, h]

/-- A computation that follows another one does not change its first visit. -/
theorem head?_andThen {t : Traced σ ε β} {x : σ} (h : t.visited.head? = some x)
    (k : β → Traced σ ε γ) : (t.andThen k).visited.head? = some x := by
  obtain ⟨visited, failure | b⟩ := t
  · exact h
  · simpa [andThen, List.head?_append] using .inl h

end Traced
