import Mathlib.Data.List.Infix
import Mathlib.Data.List.Nodup

/-!
# Properties along a run

The states of a run are those after the prefixes of its list of steps.
-/

namespace Prefixes

open List

/-- Induction along the prefixes of a list. -/
theorem induction {ι : Type} {l : List ι} {P : List ι → Prop} (hnil : P [])
    (hsnoc : ∀ front i, front ++ [i] <+: l → P front → P (front ++ [i])) :
    ∀ front, front <+: l → P front := by
  intro front
  induction front using List.reverseRecOn with
  | nil => exact fun _ => hnil
  | append_singleton front i ih =>
    intro hfront
    exact hsnoc front i hfront (ih ((prefix_append front [i]).trans hfront))

variable {ι : Type} {P : List ι → ι → Prop}

theorem forall_snoc_nil : ∀ front i, front ++ [i] <+: [] → P front i := by
  intro front i hfront
  exact absurd (prefix_nil.mp hfront) (append_ne_nil_of_right_ne_nil front nofun)

/-- The steps of a list are its first one and those of the rest. -/
theorem forall_snoc_cons {a : ι} {l : List ι} :
    (∀ front i, front ++ [i] <+: a :: l → P front i) ↔
      P [] a ∧ ∀ front i, front ++ [i] <+: l → P (a :: front) i := by
  constructor
  · intro h
    refine ⟨h [] a (prefix_append [a] l), fun front i hfront => h (a :: front) i ?_⟩
    exact (prefix_cons_inj a).mpr hfront
  · rintro ⟨hhead, hrest⟩ front i hfront
    cases front with
    | nil =>
      obtain ⟨rfl, -⟩ := cons_prefix_cons.mp hfront
      exact hhead
    | cons b front =>
      obtain ⟨rfl, htail⟩ := cons_prefix_cons.mp hfront
      exact hrest front i htail

variable {l : List ι} (prop : List ι → Prop)

/-- What holds after every prefix holds at the start and after every step. -/
theorem forall_iff : (∀ front, front <+: l → prop front) ↔
    prop [] ∧ ∀ front i, front ++ [i] <+: l → prop (front ++ [i]) := by
  constructor
  · exact fun h => ⟨h [] nil_prefix, fun front i hfront => h (front ++ [i]) hfront⟩
  · rintro ⟨hnil, hsnoc⟩
    exact induction hnil fun front i hfront _ => hsnoc front i hfront

/-- If a property carries over a step, together with one of the step itself, exactly under a
condition, then they hold all along a run exactly if every step meets the condition. -/
theorem steps_iff (kept good : List ι → ι → Prop) (hnil : prop [])
    (hstep : ∀ front i, front ++ [i] <+: l → prop front →
      (prop (front ++ [i]) ∧ kept front i ↔ good front i)) :
    (∀ front i, front ++ [i] <+: l → prop (front ++ [i]) ∧ kept front i) ↔
      ∀ front i, front ++ [i] <+: l → good front i := by
  constructor
  · intro halways front i hfront
    have hbefore : ∀ front, front <+: l → prop front :=
      induction hnil fun front i hfront _ => (halways front i hfront).1
    apply (hstep front i hfront ?_).mp (halways front i hfront)
    exact hbefore front ((prefix_append front [i]).trans hfront)
  · intro hgood front i hfront
    have hbefore : ∀ front, front <+: l → prop front := by
      refine induction hnil fun front i hfront ih => ?_
      exact ((hstep front i hfront ih).mpr (hgood front i hfront)).1
    apply (hstep front i hfront ?_).mpr (hgood front i hfront)
    exact hbefore front ((prefix_append front [i]).trans hfront)

/-- The same for a property of the states alone. -/
theorem always_iff (good : List ι → ι → Prop) (hnil : prop [])
    (hstep : ∀ front i, front ++ [i] <+: l → prop front → (prop (front ++ [i]) ↔ good front i)) :
    (∀ front, front <+: l → prop front) ↔ ∀ front i, front ++ [i] <+: l → good front i := by
  rw [forall_iff, and_iff_right hnil, ← steps_iff prop (fun _ _ => True) good hnil]
  · simp only [and_true]
  · intro front i hfront hbefore
    rw [and_iff_left trivial]
    exact hstep front i hfront hbefore

/-- Nothing is contributed twice exactly if no member of the list repeats anything, of its own or
of the members before it. -/
theorem nodup_flatMap_iff {β : Type} (f : ι → List β) :
    (l.flatMap f).Nodup ↔
      ∀ front i, front ++ [i] <+: l → (f i).Nodup ∧ ∀ b ∈ f i, b ∉ front.flatMap f := by
  have hall : (l.flatMap f).Nodup ↔ ∀ front, front <+: l → (front.flatMap f).Nodup := by
    refine ⟨?_, fun h => h l (prefix_refl l)⟩
    rintro h front ⟨rest, rfl⟩
    rw [flatMap_append] at h
    exact h.of_append_left
  rw [hall]
  refine always_iff _ _ nodup_nil fun front i _ hbefore => ?_
  rw [flatMap_append, flatMap_singleton, nodup_append', and_iff_right hbefore, disjoint_right]

variable {σ ι : Type} (step : σ → ι → σ) {s : σ}

/-- What every step keeps holds after every run. -/
theorem foldl_invariant {inv : σ → Prop} (hinit : inv s)
    (hkeeps : ∀ s i, inv s → inv (step s i)) (l : List ι) : inv (l.foldl step s) :=
  List.foldlRecOn l step hinit fun s hs i _ => hkeeps s i hs

theorem foldl_snoc (front : List ι) (i : ι) :
    (front ++ [i]).foldl step s = step (front.foldl step s) i :=
  foldl_append

/-- If a property carries over a step exactly under a condition, then it holds all along a run
exactly if every step meets the condition. -/
theorem foldl_always_iff (inv prop : σ → Prop) (good : ι → σ → Prop) (hinit : inv s)
    (hkeeps : ∀ s i, inv s → inv (step s i)) (hprop : prop s)
    (hstep : ∀ s i, inv s → prop s → (prop (step s i) ↔ good i s)) (l : List ι) :
    (∀ front, front <+: l → prop (front.foldl step s)) ↔
      ∀ front i, front ++ [i] <+: l → good i (front.foldl step s) := by
  refine always_iff (fun front => prop (front.foldl step s))
    (fun front i => good i (front.foldl step s)) hprop fun front i _ hbefore => ?_
  rw [foldl_snoc]
  exact hstep _ i (foldl_invariant step hinit hkeeps front) hbefore

end Prefixes
