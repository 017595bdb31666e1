import Mathlib.Data.List.Basic

/-!
# The bytes of a text, and joined lists

A symbol that does not occur in the pieces of a list tells where a piece ends.
-/

namespace Utf8

open List

theorem toList_loop (bytes : ByteArray) (i : Nat) (front : List UInt8) :
    ByteArray.toList.loop bytes i front = front.reverse ++ bytes.data.toList.drop i := by
  fun_induction ByteArray.toList.loop bytes i front with
  | case1 i front hlt ih =>
    have hremaining : bytes.data.toList.drop i =
        bytes.get! i :: bytes.data.toList.drop (i + 1) := by
      rw [drop_eq_getElem_cons (by simpa using hlt), Array.getElem_toList]
      exact congrArg (· :: _) (getElem!_pos bytes.data i hlt).symm
    rw [ih, reverse_cons, append_assoc, hremaining]
    rfl
  | case2 i front hge =>
    have hi : bytes.data.toList.length ≤ i := by simpa using hge
    rw [drop_of_length_le hi, append_nil]

theorem toList_eq (bytes : ByteArray) : bytes.toList = bytes.data.toList := by
  rw [ByteArray.toList, toList_loop]
  rfl

@[simp] theorem toList_append (text text' : String) :
    (text ++ text').toUTF8.toList = text.toUTF8.toList ++ text'.toUTF8.toList := by
  rw [toList_eq, toList_eq, toList_eq]
  change (text ++ text').toByteArray.data.toList = _
  rw [String.toByteArray_append, ByteArray.toList_data_append]
  rfl

theorem data_append (text text' : String) :
    (text ++ text').toUTF8.data.toList = text.toUTF8.data.toList ++ text'.toUTF8.data.toList := by
  rw [← toList_eq, toList_append, toList_eq, toList_eq]

theorem data_injective {text text' : String}
    (h : text.toUTF8.data.toList = text'.toUTF8.data.toList) : text = text' :=
  String.toByteArray_inj.mp (ByteArray.ext (Array.toList_inj.mp h))

theorem repr_injective {m n : Nat} (h : toString m = toString n) : m = n := by
  have hdigits : Nat.toDigits 10 m = Nat.toDigits 10 n := String.ofList_inj.mp h
  rw [← Nat.ofDigitChars_ten_toDigits (n := m), hdigits, Nat.ofDigitChars_ten_toDigits]

theorem utf8Size_of_digit {c : Char} (hdigit : c.isDigit = true) : c.utf8Size = 1 := by
  rw [Char.isDigit_iff_toNat] at hdigit
  have hval : c.toNat ≤ 57 := hdigit.2
  exact Char.utf8Size_eq_one_iff.mpr (UInt32.le_iff_toNat_le.mpr (Nat.le_trans hval (by decide)))

/-- A text of one-byte characters takes a byte for each of them. -/
theorem length_ofList {cs : List Char} (hone : ∀ c ∈ cs, c.utf8Size = 1) :
    (String.ofList cs).toUTF8.data.toList.length = cs.length := by
  have hlength : ∀ c ∈ cs, (String.utf8EncodeChar c).length = 1 := by
    intro c hc
    rw [String.length_utf8EncodeChar, hone c hc]
  change (String.ofList cs).toByteArray.data.toList.length = _
  rw [← String.utf8Encode_toList, String.toList_ofList, List.utf8Encode, data_toByteArray,
    length_flatMap, map_congr_left hlength, map_const', sum_replicate_nat,
    Nat.mul_one]

/-- A number takes a byte for each of its digits. -/
theorem length_repr (n : Nat) : (toString n).toUTF8.toList.length = (Nat.toDigits 10 n).length := by
  rw [toList_eq]
  refine length_ofList fun c hc => ?_
  exact utf8Size_of_digit (Nat.isDigit_of_mem_toDigits (by decide) (by decide) hc)

end Utf8

namespace Separators

open List

variable {α : Type} {sep : α}

/-- The first separator ends the front. -/
theorem append_cons_inj {front front' back back' : List α} (h : sep ∉ front) (h' : sep ∉ front')
    (heq : front ++ sep :: back = front' ++ sep :: back') : front = front' ∧ back = back' := by
  induction front generalizing front' with
  | nil =>
    cases front' with
    | nil => exact ⟨rfl, tail_eq_of_cons_eq heq⟩
    | cons a front' =>
      obtain rfl : sep = a := head_eq_of_cons_eq heq
      exact absurd mem_cons_self h'
  | cons a front ih =>
    cases front' with
    | nil =>
      obtain rfl : a = sep := head_eq_of_cons_eq heq
      exact absurd mem_cons_self h
    | cons a' front' =>
      obtain rfl : a = a' := head_eq_of_cons_eq heq
      obtain ⟨rfl, rfl⟩ := ih (fun hmem => h (mem_cons_of_mem a hmem))
        (fun hmem => h' (mem_cons_of_mem a hmem)) (tail_eq_of_cons_eq heq)
      exact ⟨rfl, rfl⟩

/-- Pieces without the first symbol of the separator can be told apart after they are joined. -/
theorem intercalate_inj {rest : List α} {pieces pieces' : List (List α)}
    (h : ∀ piece ∈ pieces, sep ∉ piece) (h' : ∀ piece ∈ pieces', sep ∉ piece)
    (hlength : pieces.length = pieces'.length)
    (heq : (sep :: rest).intercalate pieces = (sep :: rest).intercalate pieces') :
    pieces = pieces' := by
  induction pieces generalizing pieces' with
  | nil => exact (eq_nil_of_length_eq_zero hlength.symm).symm
  | cons piece pieces ih =>
    match pieces, pieces', hlength with
    | [], [piece'], _ =>
      rw [intercalate_singleton, intercalate_singleton] at heq
      rw [heq]
    | next :: pieces, piece' :: next' :: pieces', hlength =>
      rw [intercalate_cons_cons, intercalate_cons_cons, append_assoc,
        append_assoc, cons_append, cons_append] at heq
      rw [forall_mem_cons] at h h'
      obtain ⟨rfl, htail⟩ := append_cons_inj h.1 h'.1 heq
      rw [ih h.2 h'.2 (Nat.succ.inj hlength) (append_cancel_left htail)]

theorem mem_intercalate {a : α} {seps : List α} {pieces : List (List α)}
    (hmem : a ∈ seps.intercalate pieces) : a ∈ seps ∨ ∃ piece ∈ pieces, a ∈ piece := by
  induction pieces with
  | nil => cases hmem
  | cons piece pieces ih =>
    cases pieces with
    | nil =>
      rw [intercalate_singleton] at hmem
      exact Or.inr ⟨piece, mem_cons_self, hmem⟩
    | cons next pieces =>
      rw [intercalate_cons_cons, mem_append, mem_append] at hmem
      rcases hmem with (hpiece | hsep) | hrest
      · exact Or.inr ⟨piece, mem_cons_self, hpiece⟩
      · exact Or.inl hsep
      · refine (ih hrest).imp_right ?_
        rintro ⟨other, hother, ha⟩
        exact ⟨other, mem_cons_of_mem piece hother, ha⟩

end Separators
