import Mathlib.Data.List.Sort

/-!
# The greatest elements of a list

With a total order the greatest elements are those that few others are above, and
leaving out one of the others does not change them. The least elements are the
greatest ones of the opposite order.
-/

namespace TopK

open List

variable {α : Type} (r : α → α → Prop) [DecidableRel r]

/-- The `k` greatest elements, the greatest first. -/
def topK (k : Nat) (l : List α) : List α := (l.insertionSort r).reverse.take k

@[simp] theorem length_topK (k : Nat) (l : List α) : (topK r k l).length = min k l.length := by
  rw [topK, length_take, length_reverse, length_insertionSort]

variable {r} {k : Nat} {l l' : List α} {a b : α}

theorem mem_of_mem_topK (h : a ∈ topK r k l) : a ∈ l := by
  have hsorted := mem_reverse.mp (mem_of_mem_take h)
  exact (mem_insertionSort r).mp hsorted

theorem nodup_topK (h : l.Nodup) : (topK r k l).Nodup := by
  have hsorted : (l.insertionSort r).Nodup := (perm_insertionSort r l).nodup_iff.mpr h
  exact (nodup_reverse.mpr hsorted).sublist (take_sublist _ _)

/-- What is left out is at most what is taken. -/
theorem le_of_notMem_topK [Std.Total r] [IsTrans α r] (ha : a ∈ topK r k l) (hb : b ∈ l)
    (hout : b ∉ topK r k l) : r b a := by
  have hsorted : (l.insertionSort r).reverse.Pairwise fun x y => r y x :=
    pairwise_reverse.mpr (pairwise_insertionSort r l)
  rw [← take_append_drop k (l.insertionSort r).reverse, pairwise_append] at hsorted
  have hmem : b ∈ (l.insertionSort r).reverse :=
    mem_reverse.mpr ((mem_insertionSort r).mpr hb)
  rw [← take_append_drop k (l.insertionSort r).reverse, mem_append] at hmem
  exact hsorted.2.2 a ha b (hmem.resolve_left hout)

section

variable [Std.Total r] [IsTrans α r]

variable (r l) in
/-- The elements from the greatest to the least. -/
theorem exists_descending :
    ∃ s : List α, s.Perm l ∧ (s.Pairwise fun x y => r y x) ∧ ∀ k, topK r k l = s.take k :=
  ⟨(l.insertionSort r).reverse, (reverse_perm _).trans (perm_insertionSort r l),
    pairwise_reverse.mpr (pairwise_insertionSort r l), fun _ => rfl⟩

variable [Std.Antisymm r]

/-- The elements from the greatest to the least determine the greatest ones. -/
theorem topK_of_pairwise (hperm : l'.Perm l) (hsorted : l'.Pairwise fun x y => r y x) :
    topK r k l = l'.take k := by
  have hsame : l.insertionSort r = l'.reverse := by
    have hreverse : (l.insertionSort r).Perm l'.reverse :=
      ((perm_insertionSort r l).trans hperm.symm).trans l'.reverse_perm.symm
    exact hreverse.eq_of_pairwise' (pairwise_insertionSort r l) (pairwise_reverse.mpr hsorted)
  rw [topK, hsame, reverse_reverse]

/-- The order in which the elements come does not matter. -/
theorem topK_perm (h : l.Perm l') : topK r k l = topK r k l' := by
  obtain ⟨s, hperm, hsorted, htop⟩ := exists_descending r l'
  rw [htop, topK_of_pairwise (hperm.trans h.symm) hsorted]

/-- An element that is left out anyway can be taken out. -/
theorem topK_of_perm_cons (h : l.Perm (b :: l')) (hout : b ∉ topK r k l) :
    topK r k l' = topK r k l := by
  classical
  obtain ⟨s, hperm, hsorted, htop⟩ := exists_descending r l
  rw [htop] at hout ⊢
  have hmem : b ∈ s := hperm.mem_iff.mpr (h.mem_iff.mpr mem_cons_self)
  have hlength : k ≤ s.length := by
    by_contra hshort
    exact hout (by rwa [take_of_length_le (by omega)])
  have hrest : (s.erase b).Perm l' := by
    have hcons : s.Perm (b :: l') := hperm.trans h
    simpa using hcons.erase b
  have herase : s.erase b = s.take k ++ (s.drop k).erase b := by
    conv_lhs => rw [← take_append_drop k s]
    exact erase_append_right _ hout
  rw [topK_of_pairwise hrest (hsorted.sublist erase_sublist), herase]
  exact take_left' (length_take_of_le hlength)

/-- The greatest elements are those with fewer than `k` others above them. -/
theorem mem_topK_iff [DecidableEq α] (hnodup : l.Nodup) :
    a ∈ topK r k l ↔ a ∈ l ∧ (l.countP fun b => b ≠ a ∧ r a b) < k := by
  obtain ⟨s, hperm, hsorted, htop⟩ := exists_descending r l
  rw [htop, ← hperm.mem_iff, ← hperm.countP_eq]
  by_cases ha : a ∈ s
  · -- what stands before `a` is above it, and nothing else is
    obtain ⟨front, back, rfl⟩ := append_of_mem ha
    have hdistinct : (front ++ a :: back).Nodup := hperm.nodup_iff.mpr hnodup
    rw [nodup_middle, nodup_cons, mem_append, not_or] at hdistinct
    obtain ⟨⟨hfront, hback⟩, -⟩ := hdistinct
    rw [pairwise_append, pairwise_cons] at hsorted
    obtain ⟨-, ⟨hbelow, -⟩, habove⟩ := hsorted
    have hcount : ((front ++ a :: back).countP fun b => b ≠ a ∧ r a b) = front.length := by
      have hall : (front.countP fun b => b ≠ a ∧ r a b) = front.length := by
        refine countP_eq_length.mpr fun b hb => decide_eq_true ⟨?_, ?_⟩
        · rintro rfl
          exact hfront hb
        · exact habove b hb a mem_cons_self
      have hnone : (back.countP fun b => b ≠ a ∧ r a b) = 0 := by
        refine countP_eq_zero.mpr fun b hb => ?_
        rw [decide_eq_true_eq]
        rintro ⟨hne, hab⟩
        exact hne (Std.Antisymm.antisymm b a (hbelow b hb) hab)
      rw [countP_append, countP_cons, hall, hnone]
      simp
    have htake : a ∈ (front ++ a :: back).take k ↔ front.length < k := by
      rw [take_append, mem_append]
      constructor
      · rintro (hmem | hmem)
        · exact absurd (mem_of_mem_take hmem) hfront
        · by_contra hle
          rw [show k - front.length = 0 by omega] at hmem
          cases hmem
      · intro hlt
        obtain ⟨n, hn⟩ := Nat.exists_eq_add_of_lt hlt
        rw [show k - front.length = n + 1 by omega]
        exact Or.inr mem_cons_self
    rw [htake, hcount]
    exact (and_iff_right ha).symm
  · exact iff_of_false (fun h => ha (mem_of_mem_take h)) fun h => ha h.1

end

variable (r) in
/-- The `k` least elements, the least first. -/
def leastK (k : Nat) (l : List α) : List α := (l.insertionSort r).take k

variable (r k) in
@[simp] theorem leastK_nil : leastK r k [] = [] := by
  rw [leastK, insertionSort_nil, take_nil]

theorem leastK_eq_topK [Std.Total r] [IsTrans α r] [Std.Antisymm r] :
    leastK r k l = topK (Function.swap r) k l := by
  symm
  apply topK_of_pairwise
  · exact perm_insertionSort r l
  · exact pairwise_insertionSort r l

end TopK
