import RustyCoin.Lib.MerkleTree
import RustyCoin.Lib.Outcome
import RustyCoin.Types.Platform

/-!
# Merkle roots of blocks

Both crates build the same tree over the ids of a block's transactions. They
differ in how they combine two nodes: rusty-consensus hashes twice and the
shared types once, so their roots agree only for a block of one transaction.

In both trees a last node is combined with itself, and a list that repeats its
end in the same way has the same root.
-/

namespace RustyCoin

open Outcome

namespace ConsensusPow

/-- The error of rusty-consensus that a Merkle root can end with. -/
inductive MerkleError where
  | emptyBlock
  deriving DecidableEq

/-- The hash of a transaction and the hash of two nodes. -/
structure MerkleHasher where
  Digest : Type
  txid : Transaction → Digest
  hashPair : Digest → Digest → Digest

variable (hasher : MerkleHasher)

/-- The root of a list of hashes. The first node of an empty level is out of range. -/
def calculateMerkleRoot (hashes : List hasher.Digest) : Outcome MerkleError hasher.Digest :=
  match MerkleTree.root hasher.hashPair hashes with
  | some root => .ok root
  | none => .error .panic

def blockMerkleRoot (block : Block) : Outcome MerkleError hasher.Digest :=
  let txHashes := block.transactions.map hasher.txid
  if txHashes.isEmpty then fail .emptyBlock else calculateMerkleRoot hasher txHashes

/-- BLAKE3 of BLAKE3 of the two nodes. -/
def hashPair (env : Platform) (left right : Hash) : Hash :=
  env.blake3 (env.blake3 (left.toList ++ right.toList)).toList

/-- The hashes that the node uses. -/
def MerkleHasher.ofPlatform (env : Platform) : MerkleHasher where
  Digest := Hash
  txid := Transaction.txid env
  hashPair := ConsensusPow.hashPair env

/-- Hashes without collisions: a digest is the tree below it. -/
def MerkleHasher.plain : MerkleHasher where
  Digest := MerkleTree.Tree Transaction
  txid := .leaf
  hashPair := .node

theorem collisionFree_plain :
    MerkleTree.CollisionFree MerkleHasher.plain.txid MerkleHasher.plain.hashPair where
  leaf_injective := by
    rintro a b ⟨⟩
    rfl
  node_injective := by
    rintro a b c d ⟨⟩
    exact ⟨rfl, rfl⟩
  apart := by
    intro a l r h
    cases h

theorem calculateMerkleRoot_of_root {hashes : List hasher.Digest} {root : hasher.Digest}
    (hroot : MerkleTree.root hasher.hashPair hashes = some root) :
    calculateMerkleRoot hasher hashes = .ok root := by
  rw [calculateMerkleRoot, hroot]

theorem calculateMerkleRoot_eq_iff {hashes hashes' : List hasher.Digest} :
    calculateMerkleRoot hasher hashes = calculateMerkleRoot hasher hashes' ↔
      MerkleTree.root hasher.hashPair hashes = MerkleTree.root hasher.hashPair hashes' := by
  constructor
  · intro h
    unfold calculateMerkleRoot at h
    split at h <;> split at h <;> simp_all
  · intro h
    rw [calculateMerkleRoot, calculateMerkleRoot, h]

/-- A coinbase transaction that only its lock time tells from others. -/
def bareCoinbase (lockTime : UInt32) : Transaction := .coinbase 1 [] [] lockTime []

/-- A root without collisions binds a list of transactions against another one exactly when the two
do not become the same list by repeating their ends. -/
theorem merkleRoot_binds_iff (hfree : MerkleTree.CollisionFree hasher.txid hasher.hashPair)
    (transactions transactions' : List Transaction) :
    (calculateMerkleRoot hasher (transactions.map hasher.txid) =
        calculateMerkleRoot hasher (transactions'.map hasher.txid) →
      transactions = transactions') ↔
      transactions = transactions' ∨
        MerkleTree.completed transactions ≠ MerkleTree.completed transactions' := by
  rw [calculateMerkleRoot_eq_iff, hfree.root_eq_iff]
  exact imp_iff_or_not

/-- Two blocks of three transactions that differ in the last one. -/
theorem merkleRoot_binds_last :
    MerkleTree.CollisionFree MerkleHasher.plain.txid MerkleHasher.plain.hashPair ∧
      (calculateMerkleRoot .plain ([bareCoinbase 0, bareCoinbase 1, bareCoinbase 2].map .leaf) =
        calculateMerkleRoot .plain ([bareCoinbase 0, bareCoinbase 1, bareCoinbase 3].map .leaf) →
        [bareCoinbase 0, bareCoinbase 1, bareCoinbase 2] =
          [bareCoinbase 0, bareCoinbase 1, bareCoinbase 3]) :=
  ⟨collisionFree_plain, (merkleRoot_binds_iff .plain collisionFree_plain _ _).mpr
    (Or.inr (by decide))⟩

omit hasher in
/-- A block may repeat its last transaction without changing its root. -/
theorem merkleRoot_repeats_last :
    let transactions := [bareCoinbase 0, bareCoinbase 1, bareCoinbase 2]
    let transactions' := transactions ++ [bareCoinbase 2]
    transactions ≠ transactions' ∧
      calculateMerkleRoot .plain (transactions.map .leaf) =
        calculateMerkleRoot .plain (transactions'.map .leaf) := by
  refine ⟨by decide, ?_⟩
  rw [calculateMerkleRoot_eq_iff, ← MerkleTree.root_completed]
  rfl

end ConsensusPow

namespace Transaction

/-- The same digest as the id; serializing cannot fail. -/
def hash (env : Platform) (tx : Transaction) : Hash :=
  env.blake3 (env.serializeTransaction tx)

end Transaction

namespace Block

variable (env : Platform)

/-- BLAKE3 of the two nodes. -/
def combine (left right : Hash) : Hash := env.blake3 (left.toList ++ right.toList)

/-- A level with two or more hashes ends in one, so the last branch never takes its default. -/
def calculateMerkleRootFromHashes : List Hash → Hash
  | [] => .replicate 32 0
  | [hash] => hash
  | hashes => (MerkleTree.root (combine env) hashes).getD (.replicate 32 0)

def calculateMerkleRootFromTransactions (transactions : List Transaction) : Hash :=
  if transactions.isEmpty then .replicate 32 0
  else calculateMerkleRootFromHashes env (transactions.map (Transaction.hash env))

def calculateMerkleRoot (block : Block) : Hash :=
  calculateMerkleRootFromTransactions env block.transactions

theorem calculateMerkleRoot_of_single {block : Block} {tx : Transaction}
    (hsingle : block.transactions = [tx]) :
    block.calculateMerkleRoot env = tx.txid env := by
  rw [calculateMerkleRoot, hsingle]
  rfl

/-- The root of two or more transactions is the hash of two nodes. -/
theorem exists_combine_eq {block : Block} (hmore : 1 < block.transactions.length) :
    ∃ left right, block.calculateMerkleRoot env = combine env left right := by
  match htransactions : block.transactions with
  | [] => simp [htransactions] at hmore
  | [tx] => simp [htransactions] at hmore
  | first :: second :: rest =>
    have hlt : 1 < ((first :: second :: rest).map (Transaction.hash env)).length := by simp
    obtain ⟨left, right, hroot⟩ := MerkleTree.exists_node_of_root (combine env) hlt
    refine ⟨left, right, ?_⟩
    rw [calculateMerkleRoot, htransactions]
    exact congrArg (Option.getD · _) hroot

end Block

namespace ConsensusPow

variable {env : Platform} {block : Block}

theorem blockMerkleRoot_of_root {root : Hash} (hroot : MerkleTree.root (hashPair env)
      (block.transactions.map (Transaction.txid env)) = some root) :
    blockMerkleRoot (.ofPlatform env) block = .ok root := by
  have hne : ¬ (block.transactions.map (Transaction.txid env)).isEmpty = true := by
    intro hempty
    rw [List.isEmpty_iff] at hempty
    rw [MerkleTree.root_eq_none_iff.mpr hempty] at hroot
    cases hroot
  exact (if_neg hne).trans (calculateMerkleRoot_of_root (.ofPlatform env) hroot)

/-- The two crates agree on the root of a block exactly when it has one transaction, as long as
BLAKE3 tells a digest from two digests. -/
theorem blockMerkleRoot_eq_iff (hapart : ∀ digest left right : Hash,
      env.blake3 digest.toList ≠ env.blake3 (left.toList ++ right.toList))
    (block : Block) :
    blockMerkleRoot (.ofPlatform env) block = .ok (block.calculateMerkleRoot env) ↔
      block.transactions.length = 1 := by
  constructor
  · intro hsame
    by_contra hlength
    have hmore : 1 < block.transactions.length := by
      refine Nat.lt_of_le_of_ne (Nat.pos_of_ne_zero fun hzero => ?_) fun h => hlength h.symm
      have hnil := List.eq_nil_of_length_eq_zero hzero
      rw [blockMerkleRoot, hnil] at hsame
      cases hsame
    obtain ⟨left, right, hshared⟩ := Block.exists_combine_eq env hmore
    have hlevel : 1 < (block.transactions.map (Transaction.txid env)).length := by
      rwa [List.length_map]
    obtain ⟨left', right', hroot⟩ := MerkleTree.exists_node_of_root (hashPair env) hlevel
    rw [blockMerkleRoot_of_root hroot, hshared] at hsame
    exact hapart _ left right (Except.ok.inj hsame)
  · intro hlength
    obtain ⟨tx, hsingle⟩ := List.length_eq_one_iff.mp hlength
    rw [Block.calculateMerkleRoot_of_single env hsingle]
    apply blockMerkleRoot_of_root
    rw [hsingle, MerkleTree.root_of_length_le (by simp)]
    rfl

/-- A digest that tells 64 bytes from other lengths. -/
def lengthPlatform : Platform :=
  { Platform.blank with
    blake3 := fun bytes => .replicate 32 (if bytes.length = 64 then 1 else 0) }

theorem lengthPlatform_apart (digest left right : Hash) :
    lengthPlatform.blake3 digest.toList ≠ lengthPlatform.blake3 (left.toList ++ right.toList) := by
  have hone : digest.toList.length ≠ 64 := by
    rw [List.Vector.toList_length]
    decide
  have htwo : (left.toList ++ right.toList).length = 64 := by
    rw [List.length_append, List.Vector.toList_length, List.Vector.toList_length]
  simp only [lengthPlatform, if_neg hone, if_pos htwo]
  decide

/-- A block of which nothing but the transactions matters. -/
def blockWith (transactions : List Transaction) : Block where
  header :=
    { version := 1, height := 1, previousBlockHash := .replicate 32 0,
      merkleRoot := .replicate 32 0, stateRoot := .replicate 32 0, timestamp := 0,
      difficultyTarget := 0, nonce := 0 }
  ticketVotes := []
  transactions := transactions

theorem blockMerkleRoot_eq_for_coinbase :
    (∀ digest left right : Hash,
      lengthPlatform.blake3 digest.toList ≠ lengthPlatform.blake3 (left.toList ++ right.toList)) ∧
      blockMerkleRoot (.ofPlatform lengthPlatform) (blockWith [bareCoinbase 0]) =
        .ok ((blockWith [bareCoinbase 0]).calculateMerkleRoot lengthPlatform) :=
  ⟨lengthPlatform_apart, (blockMerkleRoot_eq_iff lengthPlatform_apart _).mpr rfl⟩

/-- The roots of a block of two transactions are the two digests. -/
theorem blockMerkleRoot_differs_for_two :
    let block := blockWith [bareCoinbase 0, bareCoinbase 1]
    blockMerkleRoot (.ofPlatform lengthPlatform) block = .ok (.replicate 32 0) ∧
      block.calculateMerkleRoot lengthPlatform = .replicate 32 1 :=
  ⟨blockMerkleRoot_of_root (by decide +kernel), by decide +kernel⟩

end ConsensusPow

end RustyCoin
