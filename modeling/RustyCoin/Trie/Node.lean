import Mathlib.Data.Fintype.Pi
import RustyCoin.Lib.Outcome
import RustyCoin.Types.Transaction

/-!
# Trie nodes and their store

Nodes of the Merkle Patricia trie refer to their children by hash. The type of
hashes and the two functions that compute them are parameters: with 32-byte
hashes no function on byte strings is injective, so the assumption that hashes
do not collide is stated for an arbitrary type of digests.

A store keeps every node under its own hash. That is a field of the structure,
and the two updates of a store carry its proof.
-/

namespace RustyCoin

inductive TrieNode (Digest : Type) where
  | empty
  | leaf (keyEnd value : Bytes)
  | extension (commonPrefix : Bytes) (nextHash : Digest)
  | branch (children : Fin 16 → Option Digest) (value : Option Bytes)
  deriving DecidableEq

/-- Serialization of nodes and hashing of byte strings. -/
structure TrieHasher (Digest : Type) where
  blake3 : Bytes → Digest
  serialize : TrieNode Digest → Bytes

namespace TrieHasher

variable {Digest : Type}

def hash (H : TrieHasher Digest) (node : TrieNode Digest) : Digest :=
  H.blake3 (H.serialize node)

/-- The hash of no bytes, which stands for a node that was removed. -/
def emptyHash (H : TrieHasher Digest) : Digest :=
  H.blake3 []

/-- Hashing and serialization are injective, and no node serializes to nothing. -/
structure CollisionFree (H : TrieHasher Digest) : Prop where
  blake3_injective : Function.Injective H.blake3
  serialize_injective : Function.Injective H.serialize
  serialize_ne_nil : ∀ node, H.serialize node ≠ []

variable {H : TrieHasher Digest}

theorem CollisionFree.hash_injective (hfree : H.CollisionFree) : Function.Injective H.hash :=
  hfree.blake3_injective.comp hfree.serialize_injective

theorem CollisionFree.hash_ne_emptyHash (hfree : H.CollisionFree) (node : TrieNode Digest) :
    H.hash node ≠ H.emptyHash :=
  fun h => hfree.serialize_ne_nil node (hfree.blake3_injective h)

end TrieHasher

/-- The node map of a trie. -/
structure NodeStore {Digest : Type} (H : TrieHasher Digest) where
  get : Digest → Option (TrieNode Digest)
  addressed : ∀ h node, get h = some node → H.hash node = h

namespace NodeStore

variable {Digest : Type} {H : TrieHasher Digest}

@[ext] theorem ext {s s' : NodeStore H} (h : ∀ d, s.get d = s'.get d) : s = s' := by
  cases s
  cases s'
  congr
  exact funext h

variable [DecidableEq Digest]

/-- A store with a single node. -/
def single (H : TrieHasher Digest) (node : TrieNode Digest) : NodeStore H where
  get d := if d = H.hash node then some node else none
  addressed := by
    intro d n h
    split at h
    · cases h
      exact Eq.symm ‹_›
    · cases h

variable (s : NodeStore H)

variable (node : TrieNode Digest)

/-- `nodes.insert(node.hash(), node)`. -/
def insert : NodeStore H where
  get d := if d = H.hash node then some node else s.get d
  addressed := by
    intro d n h
    split at h
    · cases h
      exact Eq.symm ‹_›
    · exact s.addressed d n h

/-- `nodes.remove(&hash)`. -/
def remove (hash : Digest) : NodeStore H where
  get d := if d = hash then none else s.get d
  addressed := by
    intro d n h
    split at h
    · cases h
    · exact s.addressed d n h

@[simp] theorem get_insert (d : Digest) :
    (s.insert node).get d = if d = H.hash node then some node else s.get d := rfl

@[simp] theorem get_insert_self : (s.insert node).get (H.hash node) = some node := if_pos rfl

@[simp] theorem get_remove (hash d : Digest) :
    (s.remove hash).get d = if d = hash then none else s.get d := rfl

/-- Putting a node back where it was taken from changes nothing. -/
theorem insert_remove_self {node : TrieNode Digest}
    (h : s.get (H.hash node) = some node) : (s.remove (H.hash node)).insert node = s := by
  ext d
  rw [get_insert, get_remove]
  split
  · rename_i hd
    rw [hd, h]
  · rfl

end NodeStore

/-- `bytes_to_nibbles`: the high half of each byte, then the low half. -/
def bytesToNibbles : Bytes → Bytes
  | [] => []
  | byte :: bytes => (byte >>> 4) :: (byte &&& 0x0F) :: bytesToNibbles bytes

def commonPrefix : Bytes → Bytes → Bytes
  | x :: a, y :: b => if x = y then x :: commonPrefix a b else []
  | _, _ => []

end RustyCoin
