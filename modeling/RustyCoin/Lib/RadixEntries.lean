import RustyCoin.Lib.RadixTree

/-!
# The entries of a radix tree in key order

`entries` lists what a tree holds, going down the children of a branch in a given
order of the symbols. If every symbol is listed, the entries are exactly the keys
that a lookup finds; if the symbols are listed in increasing order, the keys come
in increasing lexicographic order.

The last section is about that order: whether a key can be below another one is
seen on any common number of leading symbols.
-/

namespace RadixTree

open List

variable {σ V : Type}

/-- Put a label in front of the key of an entry. -/
def underLabel (label : List σ) (entry : List σ × V) : List σ × V :=
  (label ++ entry.1, entry.2)

def entries (symbols : List σ) : RadixTree σ V → List (List σ × V)
  | .empty => []
  | .leaf key value => [(key, value)]
  | .ext label next => (next.entries symbols).map (underLabel label)
  | .branch children value =>
    value.toList.map (([], ·)) ++
      symbols.flatMap fun a => ((children a).entries symbols).map (underLabel [a])

section

variable [DecidableEq σ] {symbols : List σ}

/-- The entries are what a lookup finds. -/
theorem mem_entries (hall : ∀ a, a ∈ symbols) {t : RadixTree σ V} {k : List σ} {v : V} :
    (k, v) ∈ t.entries symbols ↔ t.get k = some v := by
  induction t generalizing k with
  | empty => simp [entries]
  | leaf key value =>
    rw [entries, mem_singleton, Prod.mk.injEq, get_leaf]
    constructor
    · rintro ⟨rfl, rfl⟩
      exact if_pos rfl
    · intro h
      split at h
      · rename_i hkey
        exact ⟨hkey.symm, (Option.some.inj h).symm⟩
      · cases h
  | ext label next ih =>
    rw [entries, mem_map]
    constructor
    · rintro ⟨⟨k', v'⟩, hmem, heq⟩
      obtain ⟨rfl, rfl⟩ := Prod.mk.inj heq
      rw [get_ext_append]
      exact ih.mp hmem
    · intro h
      by_cases hlabel : label <+: k
      · obtain ⟨r, rfl⟩ := hlabel
        rw [get_ext_append] at h
        exact ⟨(r, v), ih.mpr h, rfl⟩
      · rw [get_ext_of_not next hlabel] at h
        cases h
  | branch children value ih =>
    rw [entries, mem_append, mem_flatMap]
    cases k with
    | nil =>
      rw [get_branch_nil]
      constructor
      · rintro (hmem | ⟨a, -, hmem⟩)
        · simpa using hmem
        · obtain ⟨entry, -, heq⟩ := mem_map.mp hmem
          cases (Prod.mk.inj heq).1
      · rintro rfl
        exact .inl (mem_singleton.mpr rfl)
    | cons a r =>
      rw [get_branch_cons]
      constructor
      · rintro (hmem | ⟨b, -, hmem⟩)
        · simp at hmem
        · obtain ⟨⟨k', v'⟩, hentry, heq⟩ := mem_map.mp hmem
          obtain ⟨hkey, rfl⟩ := Prod.mk.inj heq
          obtain ⟨rfl, rfl⟩ := List.cons.inj hkey
          exact (ih b).mp hentry
      · intro h
        exact .inr ⟨a, hall a, mem_map.mpr ⟨(r, v), (ih a).mpr h, rfl⟩⟩

end

variable [LT σ] {symbols : List σ}

theorem underLabel_lt (label : List σ) {e e' : List σ × V} (h : e.1 < e'.1) :
    (underLabel label e).1 < (underLabel label e').1 :=
  append_left_lt h

/-- Increasing symbols give increasing keys. -/
theorem entries_increasing (hsymbols : symbols.Pairwise (· < ·)) (t : RadixTree σ V) :
    (t.entries symbols).Pairwise fun e e' => e.1 < e'.1 := by
  induction t with
  | empty => exact .nil
  | leaf key value => exact pairwise_singleton _ _
  | ext label next ih =>
    rw [entries, pairwise_map]
    exact ih.imp fun h => underLabel_lt label h
  | branch children value ih =>
    rw [entries, pairwise_append]
    refine ⟨?_, ?_, ?_⟩
    · cases value with
      | none => exact .nil
      | some v => exact pairwise_singleton _ _
    · rw [pairwise_flatMap]
      constructor
      · intro a _
        rw [pairwise_map]
        exact (ih a).imp fun h => underLabel_lt [a] h
      · -- two children are compared by their symbols alone
        refine hsymbols.imp fun hab e he e' he' => ?_
        obtain ⟨f, -, rfl⟩ := mem_map.mp he
        obtain ⟨f', -, rfl⟩ := mem_map.mp he'
        exact cons_lt_cons_iff.mpr (.inl hab)
    · intro e he e' he'
      obtain ⟨v, -, rfl⟩ := mem_map.mp he
      obtain ⟨a, -, he'⟩ := mem_flatMap.mp he'
      obtain ⟨f, -, rfl⟩ := mem_map.mp he'
      exact nil_lt_cons a f.1

/-- A key that is below another one after some leading symbols is below it. -/
theorem lt_of_take_lt {a b : List σ} {n : Nat} (h : a.take n < b.take n) : a < b := by
  induction n generalizing a b with
  | zero => exact absurd h (not_lt_nil _)
  | succ n ih =>
    cases b with
    | nil => exact absurd h (not_lt_nil _)
    | cons y b =>
      cases a with
      | nil => exact nil_lt_cons y b
      | cons x a =>
        rw [take_succ_cons, take_succ_cons, cons_lt_cons_iff] at h
        exact cons_lt_cons_iff.mpr (h.imp_right fun h => ⟨h.1, ih h.2⟩)

theorem take_le_take {a b : List σ} (h : a ≤ b) (n : Nat) : a.take n ≤ b.take n :=
  fun hlt => h (lt_of_take_lt hlt)

end RadixTree
