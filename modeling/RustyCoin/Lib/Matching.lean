import Mathlib.Data.Fintype.CardEmbedding
import Mathlib.Data.Fintype.Fin

/-!
# Matching labelled positions

Two families of labelled positions. The positions of the first can be sent to
different positions of the second that carry the same label exactly when no label
occurs more often in the first family than in the second.
-/

namespace Matching

variable {ι κ α : Type} [Fintype ι] [Fintype κ] [DecidableEq α] (a : ι → α) (b : κ → α)

theorem card_le_of_injective {f : ι → κ} (hf : Function.Injective f)
    (hlabel : ∀ i, b (f i) = a i) (x : α) :
    Fintype.card { i // a i = x } ≤ Fintype.card { j // b j = x } := by
  let g : { i // a i = x } → { j // b j = x } := fun i => ⟨f i.1, (hlabel i.1).trans i.2⟩
  refine Fintype.card_le_of_injective g fun i j hij => ?_
  exact Subtype.ext (hf (congrArg Subtype.val hij))

/-- The label classes can be embedded one by one, and their images are disjoint. -/
theorem exists_injective_of_card_le
    (hcard : ∀ x, Fintype.card { i // a i = x } ≤ Fintype.card { j // b j = x }) :
    ∃ f : ι → κ, Function.Injective f ∧ ∀ i, b (f i) = a i := by
  obtain ⟨e⟩ := Classical.nonempty_pi.mpr fun x =>
    Function.Embedding.nonempty_of_card_le (hcard x)
  have hclass : ∀ i x (h : a i = x), (e (a i) ⟨i, rfl⟩).1 = (e x ⟨i, h⟩).1 := by
    rintro i _ rfl
    rfl
  refine ⟨fun i => (e (a i) ⟨i, rfl⟩).1, fun i j hij => ?_, fun i => (e (a i) ⟨i, rfl⟩).2⟩
  change (e (a i) ⟨i, rfl⟩).1 = (e (a j) ⟨j, rfl⟩).1 at hij
  have hlabel : a i = a j := by
    rw [← (e (a i) ⟨i, rfl⟩).2, hij]
    exact (e (a j) ⟨j, rfl⟩).2
  rw [hclass i (a j) hlabel] at hij
  have hsame := (e (a j)).injective (Subtype.ext hij)
  exact congrArg Subtype.val hsame

/-- Positions can be matched by label exactly when the counts allow it. -/
theorem exists_injective_iff_card_le :
    (∃ f : ι → κ, Function.Injective f ∧ ∀ i, b (f i) = a i) ↔
      ∀ x, Fintype.card { i // a i = x } ≤ Fintype.card { j // b j = x } := by
  constructor
  · rintro ⟨f, hf, hlabel⟩
    exact card_le_of_injective a b hf hlabel
  · exact exists_injective_of_card_le a b

/-- Counting in a list is counting its positions. -/
theorem card_positions {β : Type} (p : β → Bool) (l : List β) :
    Fintype.card { i : Fin l.length // p (l.get i) = true } = l.countP p := by
  rw [Fintype.card_subtype]
  induction l with
  | nil => rfl
  | cons x l ih =>
    have hsucc := Fin.card_filter_univ_succ (fun i : Fin (x :: l).length =>
      p ((x :: l).get i) = true)
    rw [List.countP_cons, ← ih]
    refine hsucc.trans ?_
    by_cases hx : p x = true
    · simp [hx]
    · simp [hx]

end Matching
