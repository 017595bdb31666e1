import Mathlib.Data.Vector.Basic

/-!
# Codecs

A codec writes the values of a type as lists of symbols and reads them back.
Stream codecs build codecs: one reads a value from the front of its input and
leaves the rest, so that they can follow each other.
-/

structure Codec (σ α : Type) where
  serialize : α → List σ
  deserialize : List σ → Except String α
  deserialize_serialize : ∀ a, deserialize (serialize a) = .ok a

namespace Codec

variable {σ α : Type}

attribute [simp] deserialize_serialize

@[simp] theorem serialize_inj (codec : Codec σ α) {a a' : α} :
    codec.serialize a = codec.serialize a' ↔ a = a' := by
  constructor
  · intro h
    have hread := codec.deserialize_serialize a
    rw [h, codec.deserialize_serialize] at hread
    cases hread
    rfl
  · rintro rfl
    rfl

end Codec

structure StreamCodec (σ α : Type) where
  write : α → List σ
  read : List σ → Except String (α × List σ)
  read_write : ∀ a rest, read (write a ++ rest) = .ok (a, rest)

namespace StreamCodec

variable {σ α β : Type}

/-- What follows a value is ignored. -/
def toCodec (codec : StreamCodec σ α) : Codec σ α where
  serialize := codec.write
  deserialize input := (codec.read input).map Prod.fst
  deserialize_serialize a := by
    have hread := codec.read_write a []
    rw [List.append_nil] at hread
    rw [hread]
    rfl

/-- A fixed number of symbols. -/
def symbols (n : Nat) : StreamCodec σ (List.Vector σ n) where
  write v := v.toList
  read input :=
    if h : n ≤ input.length then
      .ok (⟨input.take n, List.length_take_of_le h⟩, input.drop n)
    else .error "unexpected end of file"
  read_write v rest := by
    have hlength : v.toList.length = n := v.toList_length
    have hle : n ≤ (v.toList ++ rest).length := by
      rw [List.length_append, hlength]
      exact Nat.le_add_right n _
    rw [dif_pos hle]
    congr 2
    · exact Subtype.ext (List.take_left' hlength)
    · exact List.drop_left' hlength

/-- Values that can be turned into values of another type and back. -/
def through (codec : StreamCodec σ α) (there : β → α) (back : α → β) (h : ∀ b, back (there b) = b) :
    StreamCodec σ β where
  write b := codec.write (there b)
  read input := (codec.read input).map fun (a, rest) => (back a, rest)
  read_write b rest := by
    rw [codec.read_write]
    exact congrArg (fun b => Except.ok (b, rest)) (h b)

/-- Two values, one after the other. -/
def pair (first : StreamCodec σ α) (second : StreamCodec σ β) : StreamCodec σ (α × β) where
  write p := first.write p.1 ++ second.write p.2
  read input := do
    let (a, rest) ← first.read input
    let (b, rest) ← second.read rest
    return ((a, b), rest)
  read_write p rest := by
    rw [List.append_assoc, first.read_write]
    change (do
      let (b, rest) ← second.read (second.write p.2 ++ rest)
      return ((p.1, b), rest)) = _
    rw [second.read_write]
    rfl

/-- A flag says whether there is a value. -/
def option (flag : StreamCodec σ Bool) (codec : StreamCodec σ α) : StreamCodec σ (Option α) where
  write
    | none => flag.write false
    | some a => flag.write true ++ codec.write a
  read input := do
    let (present, rest) ← flag.read input
    if present then
      let (a, rest) ← codec.read rest
      return (some a, rest)
    else return (none, rest)
  read_write o rest := by
    cases o with
    | none =>
      change (flag.read (flag.write false ++ rest) >>= _) = _
      rw [flag.read_write]
      rfl
    | some a =>
      change (flag.read ((flag.write true ++ codec.write a) ++ rest) >>= _) = _
      rw [List.append_assoc, flag.read_write]
      change (codec.read (codec.write a ++ rest) >>= _) = _
      rw [codec.read_write]
      rfl

end StreamCodec
