import RustyCoin.Trie.Node

/-!
# Operations of the Merkle Patricia trie

`get`, `insert`, `delete`, and Merkle proofs. The recursions follow the key down
the trie and are unfolded with one more level than the key has nibbles.

An insertion changes the store only on its way back up, so a failed insertion
leaves the trie as it was. A deletion takes nodes out of the store on its way
down: a failed deletion returns the trie it got to.

The cached root node of the source is never read and is left out.
-/

namespace RustyCoin

open Outcome

inductive TrieError (Digest : Type) where
  | trieError (message : String)
  /-- "Child node with hash … not found during branch simplification" -/
  | stateError (childHash : Digest)
  deriving DecidableEq, Repr

abbrev TrieResult (Digest α : Type) : Type := Outcome (TrieError Digest) α

structure MerklePatriciaTrie {Digest : Type} (H : TrieHasher Digest) where
  rootHash : Digest
  nodes : NodeStore H

structure MerkleProof (Digest : Type) where
  key : Bytes
  value : Option Bytes
  proofNodes : List (TrieNode Digest)
  rootHash : Digest

/-- Indexing the sixteen children of a branch aborts beyond the last one. -/
def childIndex {Digest : Type} (nibble : UInt8) : TrieResult Digest (Fin 16) :=
  if h : nibble.toNat < 16 then .ok ⟨nibble.toNat, h⟩ else .error .panic

namespace MerklePatriciaTrie

variable {Digest : Type} [DecidableEq Digest] {H : TrieHasher Digest}

def new (H : TrieHasher Digest) : MerklePatriciaTrie H where
  rootHash := H.hash .empty
  nodes := .single H .empty

def getRecursive (nodes : NodeStore H) : Nat → Digest → Bytes → TrieResult Digest (Option Bytes)
  | 0, _, _ => .error .outOfFuel
  | fuel + 1, nodeHash, key => do
    let node ← okOr (nodes.get nodeHash) (.trieError "Node not found")
    match node with
    | .empty => return none
    | .leaf keyEnd value => return if keyEnd = key then some value else none
    | .extension label nextHash =>
      if label <+: key then getRecursive nodes fuel nextHash (key.drop label.length)
      else return none
    | .branch children value =>
      match key with
      | [] => return value
      | nibble :: rest => do
        let index ← childIndex nibble
        match children index with
        | some childHash => getRecursive nodes fuel childHash rest
        | none => return none

variable (trie : MerklePatriciaTrie H)

def get (key : Bytes) : TrieResult Digest (Option Bytes) :=
  let nibbles := bytesToNibbles key
  getRecursive trie.nodes (nibbles.length + 1) trie.rootHash nibbles

/-- The new top node of the two leaves; it is not stored yet, those below it are. -/
def splitLeaf : Nat → NodeStore H → Bytes → Bytes → Bytes → Bytes →
    TrieResult Digest (TrieNode Digest × NodeStore H)
  | 0, _, _, _, _, _ => .error .outOfFuel
  | fuel + 1, nodes, existingKey, existingValue, newKey, newValue => do
    let common := commonPrefix existingKey newKey
    if common = [] then
      match existingKey, newKey with
      | existingNibble :: existingRemaining, newNibble :: newRemaining => do
        let existingIndex ← childIndex existingNibble
        let newIndex ← childIndex newNibble
        let existingLeaf := .leaf existingRemaining existingValue
        let newLeaf := .leaf newRemaining newValue
        let children := Function.update
          (Function.update (fun _ => none) existingIndex (some (H.hash existingLeaf)))
          newIndex (some (H.hash newLeaf))
        return (.branch children none, (nodes.insert existingLeaf).insert newLeaf)
      -- `existing_key[1..]` and `new_key[1..]` abort on an empty key
      | _, _ => .error .panic
    else do
      let (branch, nodes) ← splitLeaf fuel nodes (existingKey.drop common.length) existingValue
        (newKey.drop common.length) newValue
      return (.extension common (H.hash branch), nodes.insert branch)

/-- `split_extension` gives the extension back as it was: the new key and its
value are not used. -/
def splitExtension (label : Bytes) (nextHash : Digest) (_newKey _newValue : Bytes) :
    TrieNode Digest :=
  .extension label nextHash

/-- Take a node out of the store and put its replacement in. -/
def replaceNode (nodes : NodeStore H) (nodeHash : Digest) (node : TrieNode Digest) :
    Digest × NodeStore H :=
  (H.hash node, (nodes.remove nodeHash).insert node)

def identicalKeyMessage : String :=
  "Attempted to insert identical key with different value. This should be handled by update."

def insertRecursive : Nat → NodeStore H → Digest → Bytes → Bytes →
    TrieResult Digest (Digest × NodeStore H)
  | 0, _, _, _, _ => .error .outOfFuel
  | fuel + 1, nodes, nodeHash, key, value => do
    let node ← okOr (nodes.get nodeHash) (.trieError "Node not found")
    match node with
    | .empty =>
      let leaf := .leaf key value
      return (H.hash leaf, nodes.insert leaf)
    | .leaf existingKey existingValue =>
      if existingKey = key then
        return replaceNode nodes nodeHash (.leaf existingKey value)
      else
        let common := commonPrefix existingKey key
        if common.length = existingKey.length ∧ common.length = key.length then
          fail (.trieError identicalKeyMessage)
        else do
          let (node, nodes) ←
            splitLeaf (existingKey.length + 1) nodes existingKey existingValue key value
          return replaceNode nodes nodeHash node
    | .extension label nextHash =>
      if (commonPrefix label key).length = label.length then do
        let (newNextHash, nodes) ←
          insertRecursive fuel nodes nextHash (key.drop label.length) value
        return replaceNode nodes nodeHash (.extension label newNextHash)
      else
        return replaceNode nodes nodeHash (splitExtension label nextHash key value)
    | .branch children branchValue =>
      match key with
      | [] => return replaceNode nodes nodeHash (.branch children (some value))
      | nibble :: rest => do
        let index ← childIndex nibble
        let (childHash, nodes) ←
          match children index with
          | some childHash => insertRecursive fuel nodes childHash rest value
          | none =>
            let leaf := .leaf rest value
            pure (H.hash leaf, nodes.insert leaf)
        return replaceNode nodes nodeHash
          (.branch (Function.update children index (some childHash)) branchValue)

/-- The result of an insertion and the trie after it. -/
def insert (key value : Bytes) : TrieResult Digest Unit × MerklePatriciaTrie H :=
  let nibbles := bytesToNibbles key
  match insertRecursive (nibbles.length + 1) trie.nodes trie.rootHash nibbles value with
  | .ok (newRoot, nodes) => (.ok (), ⟨newRoot, nodes⟩)
  | .error e => (.error e, trie)

/-- Insert a list of entries, up to the first call that does not return. -/
def insertAll (trie : MerklePatriciaTrie H) :
    List (Bytes × Bytes) → TrieResult Digest (MerklePatriciaTrie H)
  | [] => .ok trie
  | (key, value) :: entries =>
    match trie.insert key value with
    | (.ok _, trie) => trie.insertAll entries
    | (.error e, _) => .error e

variable (trie : MerklePatriciaTrie H) (nodeHash : Digest)

/-- The end of `delete_recursive`: store the new node, if there is one, and move
the root to it when something changed. Inner calls move the root as well. -/
def finishDelete (newNode : Option (TrieNode Digest)) (wasDeleted : Bool) :
    TrieResult Digest (Digest × Bool) × MerklePatriciaTrie H :=
  let (finalHash, nodes) :=
    match newNode with
    | some node => (H.hash node, trie.nodes.insert node)
    | none => (H.emptyHash, trie.nodes)
  (.ok (finalHash, wasDeleted),
    ⟨if wasDeleted ∨ finalHash ≠ nodeHash then finalHash else trie.rootHash, nodes⟩)

/-- The child hashes of a branch, in the order of their nibbles. -/
def childHashes (children : Fin 16 → Option Digest) : List Digest :=
  (List.finRange 16).filterMap children

/-- The only child of a branch takes the branch's place, with the given nibble
in front of its key. -/
def simplifyChild (nibble : UInt8) : TrieNode Digest → TrieNode Digest
  | .leaf keyEnd value => .leaf (nibble :: keyEnd) value
  | .extension label nextHash => .extension (nibble :: label) nextHash
  | .branch children value => .branch children value
  | .empty => .empty

/-- Take the only child of a branch out of the store and simplify it. -/
def simplifyBranch (nibble : UInt8) (children : Fin 16 → Option Digest) (wasDeleted : Bool) :
    TrieResult Digest (Digest × Bool) × MerklePatriciaTrie H :=
  match childHashes children with
  | [] => (.error .panic, trie)
  | childHash :: _ =>
    match trie.nodes.get childHash with
    | none => (fail (.stateError childHash), trie)
    | some child =>
      finishDelete { trie with nodes := trie.nodes.remove childHash } nodeHash
        (some (simplifyChild nibble child)) wasDeleted

/-- A branch whose own value is deleted. -/
def deleteBranchValue (children : Fin 16 → Option Digest) (value : Option Bytes) :
    TrieResult Digest (Digest × Bool) × MerklePatriciaTrie H :=
  match (childHashes children).length with
  | 0 => finishDelete trie nodeHash none value.isSome
  | 1 => simplifyBranch trie nodeHash 0 children value.isSome
  | _ => finishDelete trie nodeHash (some (.branch children none)) value.isSome

/-- A branch that lost a child: `children` no longer holds it. -/
def deleteBranchChild (nibble : UInt8) (children : Fin 16 → Option Digest) (value : Option Bytes) :
    TrieResult Digest (Digest × Bool) × MerklePatriciaTrie H :=
  if (childHashes children).length = 0 ∧ value.isNone then
    finishDelete trie nodeHash none true
  else if (childHashes children).length = 1 ∧ value.isNone then
    simplifyBranch trie nodeHash nibble children true
  else
    finishDelete trie nodeHash (some (.branch children value)) true

def deleteRecursive : Nat → MerklePatriciaTrie H → Digest → Bytes →
    TrieResult Digest (Digest × Bool) × MerklePatriciaTrie H
  | 0, trie, _, _ => (.error .outOfFuel, trie)
  | fuel + 1, trie, nodeHash, key =>
    match trie.nodes.get nodeHash with
    | none => (fail (.trieError "Node not found"), trie)
    | some node =>
      let trie := { trie with nodes := trie.nodes.remove nodeHash }
      match node with
      | .empty => finishDelete trie nodeHash (some .empty) false
      | .leaf keyEnd value =>
        if keyEnd = key then finishDelete trie nodeHash none true
        else finishDelete trie nodeHash (some (.leaf keyEnd value)) false
      | .extension label nextHash =>
        if label <+: key then
          match deleteRecursive fuel trie nextHash (key.drop label.length) with
          | (.error e, trie) => (.error e, trie)
          | (.ok (newChildHash, childDeleted), trie) =>
            if childDeleted then
              if newChildHash = H.emptyHash then finishDelete trie nodeHash none true
              else finishDelete trie nodeHash (some (.extension label newChildHash)) true
            else finishDelete trie nodeHash (some (.extension label nextHash)) false
        else finishDelete trie nodeHash (some (.extension label nextHash)) false
      | .branch children value =>
        match key with
        | [] => deleteBranchValue trie nodeHash children value
        | nibble :: rest =>
          match (childIndex nibble : TrieResult Digest (Fin 16)) with
          | .error e => (.error e, trie)
          | .ok index =>
            match children index with
            | none => finishDelete trie nodeHash (some (.branch children value)) false
            | some childHash =>
              match deleteRecursive fuel trie childHash rest with
              | (.error e, trie) => (.error e, trie)
              -- the hash of the child after the deletion is not used
              | (.ok (_, true), trie) =>
                deleteBranchChild trie nodeHash nibble (Function.update children index none) value
              | (.ok (_, false), trie) =>
                finishDelete trie nodeHash (some (.branch children value)) false

def delete (key : Bytes) : TrieResult Digest Bool × MerklePatriciaTrie H :=
  let nibbles := bytesToNibbles key
  match deleteRecursive (nibbles.length + 1) trie trie.rootHash nibbles with
  | (.error e, trie) => (.error e, trie)
  | (.ok (newRoot, deleted), trie) =>
    (.ok deleted, if deleted then { trie with rootHash := newRoot } else trie)

/-- The nodes on the way to a key, the root first, with the value found there. -/
def collectProofNodes (nodes : NodeStore H) : Nat → Digest → Bytes →
    TrieResult Digest (Option Bytes × List (TrieNode Digest))
  | 0, _, _ => .error .outOfFuel
  | fuel + 1, nodeHash, key => do
    let node ← okOr (nodes.get nodeHash) (.trieError "Node not found")
    match node with
    | .empty => return (none, [node])
    | .leaf keyEnd value => return (if keyEnd = key then some value else none, [node])
    | .extension label nextHash =>
      if label <+: key then do
        let (value, proofNodes) ←
          collectProofNodes nodes fuel nextHash (key.drop label.length)
        return (value, node :: proofNodes)
      else return (none, [node])
    | .branch children value =>
      match key with
      | [] => return (value, [node])
      | nibble :: rest => do
        let index ← childIndex nibble
        match children index with
        | some childHash => do
          let (value, proofNodes) ← collectProofNodes nodes fuel childHash rest
          return (value, node :: proofNodes)
        | none => return (none, [node])

def generateProof (key : Bytes) :
    TrieResult Digest (MerkleProof Digest) := do
  let nibbles := bytesToNibbles key
  let (value, proofNodes) ←
    collectProofNodes trie.nodes (nibbles.length + 1) trie.rootHash nibbles
  return ⟨key, value, proofNodes, trie.rootHash⟩

/-- The loop of `compute_root_from_proof` over the nodes above the last one, the
lowest first. It reads the key from its front while it climbs. -/
def climb (H : TrieHasher Digest) (expectedValue : Option Bytes) :
    Digest → Bytes → List (TrieNode Digest) → TrieResult Digest Digest
  | currentHash, _, [] => .ok currentHash
  | currentHash, remainingKey, .extension label nextHash :: above =>
    if ¬ label <+: remainingKey then fail (.trieError "Extension key mismatch")
    else if nextHash ≠ currentHash then fail (.trieError "Extension hash mismatch")
    else
      climb H expectedValue (H.hash (.extension label nextHash))
        (remainingKey.drop label.length) above
  | currentHash, remainingKey, .branch children value :: above =>
    match remainingKey with
    | [] =>
      if value.isNone ∧ expectedValue.isSome then fail (.trieError "Branch value mismatch")
      else climb H expectedValue (H.hash (.branch children value)) [] above
    | nibble :: rest => do
      let index ← childIndex nibble
      if children index ≠ some currentHash then fail (.trieError "Branch child mismatch")
      else climb H expectedValue (H.hash (.branch children value)) rest above
  | _, _, _ => fail (.trieError "Unexpected node type in proof")

/-- The check of the last node of a proof: only a leaf is looked into. -/
def checkLast (remainingKey : Bytes) (expectedValue : Option Bytes) :
    TrieNode Digest → TrieResult Digest Unit
  | .leaf keyEnd value =>
    if keyEnd ≠ remainingKey then fail (.trieError "Key mismatch in leaf")
    else if expectedValue ≠ some value then fail (.trieError "Value mismatch in leaf")
    else .ok ()
  | _ => .ok ()

def computeRootFromProof (H : TrieHasher Digest) (keyNibbles : Bytes)
    (expectedValue : Option Bytes) (proofNodes : List (TrieNode Digest)) :
    TrieResult Digest Digest :=
  match proofNodes.reverse with
  | [] => fail (.trieError "Empty proof")
  | last :: above => do
    checkLast keyNibbles expectedValue last
    climb H expectedValue (H.hash last) keyNibbles above

def verifyProof (H : TrieHasher Digest) (proof : MerkleProof Digest)
    (expectedValue : Option Bytes) : TrieResult Digest Bool := do
  let computedRoot ←
    computeRootFromProof H (bytesToNibbles proof.key) expectedValue proof.proofNodes
  return computedRoot = proof.rootHash ∧ proof.value = expectedValue

end MerklePatriciaTrie

end RustyCoin
