import RustyCoin.Consensus.Compact
import RustyCoin.Consensus.MerkleRoot
import RustyCoin.RustyConsensus.Error

/-!
# Validating a block

`validate_block` of rusty-consensus compares a block with its predecessor and then
lets `validate_block_header` compare the header with the predecessor again. The two
functions do not ask for the same things: one wants the hash of the predecessor's
header and the Merkle root of the block, the other one the hash of the whole
predecessor and the Merkle root of the predecessor.

The proof of work is the OxideHash of rusty-crypto, which fills and mixes the
scratchpad of rusty-core in its own way.
-/

namespace RustyCoin.RustyConsensus

open Outcome

section

open RustyCoin.Pow

variable (env : Platform)

/-- A slot is filled from the seed and its offset. -/
def fillSlot (initialSeed : Hash) (pad : Scratchpad) (i : Fin (scratchpadSize / 32)) : Scratchpad :=
  pad.write (.ofIndex i) (env.blake3 (initialSeed.toList ++ leBytes 4 (32 * i)))

/-- One step of the second loop, on the scratchpad and the current hash. -/
def mixSlot (state : Scratchpad × Hash) (i : Nat) : Scratchpad × Hash :=
  let readSlot := Slot.ofSeed (env.blake3 (state.2.toList ++ leBytes 4 i))
  let mixed := env.blake3 (xorHash state.2 (state.1.read readSlot)).toList
  let writeIndex := ~~~ UInt32.ofNat i
  let writeSlot := Slot.ofSeed (env.blake3 (mixed.toList ++ leBytes 4 writeIndex.toNat))
  (state.1.write writeSlot mixed, mixed)

/-- The OxideHash of rusty-crypto. The nonce goes into the last hash only. -/
def calculateOxideHash (headerBytes : Bytes) (nonce : UInt64) : Hash :=
  let initialSeed := env.blake3 headerBytes
  let filled := (List.finRange _).foldl (fillSlot env initialSeed) .zeroed
  let mixed := (List.range iterationsPerHash).foldl (mixSlot env) (filled, initialSeed)
  env.blake3 ((mixed.1.read .first).toList ++ mixed.2.toList ++
    mixed.1.bytes.toList.drop 32 ++ leBytes 8 nonce.toNat)

/-- A hash as a number, its first byte the most significant. -/
def bigEndianValue (hash : Hash) : Nat := leValue hash.toList.reverse

def verifyPow (header : BlockHeader) (compactDifficultyBits : UInt32) : ConsensusResult Unit :=
  let headerBytes := env.serializeHeader { header with nonce := 0 }
  let blockHash := bigEndianValue (calculateOxideHash env headerBytes header.nonce)
  if blockHash ≤ ConsensusPow.compactToTarget compactDifficultyBits then .ok ()
  else fail .invalidProofOfWork

/-- The hash is taken of more bytes than a digest has. -/
theorem exists_calculateOxideHash_eq (headerBytes : Bytes) (nonce : UInt64) :
    ∃ bytes : Bytes, 32 ≤ bytes.length ∧
      calculateOxideHash env headerBytes nonce = env.blake3 bytes := by
  refine ⟨_, ?_, rfl⟩
  rw [List.append_assoc, List.append_assoc, List.length_append, List.Vector.toList_length]
  exact Nat.le_add_right 32 _

/-- If long inputs have a digest of zero, every header has enough work. -/
theorem verifyPow_of_long_zero {env : Platform}
    (hzero : ∀ bytes : Bytes, 32 ≤ bytes.length → env.blake3 bytes = .replicate 32 0)
    (header : BlockHeader) (compactDifficultyBits : UInt32) :
    verifyPow env header compactDifficultyBits = .ok () := by
  obtain ⟨bytes, hlong, hhash⟩ := exists_calculateOxideHash_eq env
    (env.serializeHeader { header with nonce := 0 }) header.nonce
  have hvalue : bigEndianValue (.replicate 32 0) = 0 := by decide
  rw [verifyPow, hhash, hzero bytes hlong, hvalue]
  exact if_pos (Nat.zero_le _)

end

variable (env : Platform) (header : BlockHeader) (previousBlock : Block) (currentTime : UInt64)

/-- `DIFFICULTY_ADJUSTMENT_INTERVAL` -/
def difficultyAdjustmentInterval : UInt64 := 2016

/-- The difficulty may change in the block after the previous one. -/
def isAdjustmentBlock : Bool :=
  let currentHeight := previousBlock.header.height + 1
  (currentHeight - 1) % difficultyAdjustmentInterval == 0

/-- The Merkle root is compared with that of the previous block. -/
def validateBlockHeader : ConsensusResult Unit :=
  if header.version ≠ 1 then fail (.unsupportedVersion header.version)
  else if header.previousBlockHash ≠ previousBlock.hash env then fail .invalidPreviousBlockHash
  else if header.merkleRoot ≠ previousBlock.calculateMerkleRoot env then
    fail .invalidMerkleRoot
  else if !isAdjustmentBlock previousBlock &&
      header.difficultyTarget != previousBlock.header.difficultyTarget then
    fail (.difficultyTargetMismatch previousBlock.header.difficultyTarget header.difficultyTarget)
  else if header.timestamp > currentTime + 7200 then fail .timestampTooFarInFuture
  else if header.timestamp ≤ previousBlock.header.timestamp then fail .timestampTooOld
  else verifyPow env header header.difficultyTarget

/-- The first of the previous blocks is the most recent one. -/
def validateBlock (block : Block) (previousBlocks : List Block) : ConsensusResult Unit :=
  match previousBlocks with
  | [] => fail .missingPreviousBlock
  | prevBlock :: _ =>
    if block.header.previousBlockHash ≠ prevBlock.header.hash env then
      fail .invalidPreviousBlockHash
    else if block.header.height ≠ prevBlock.header.height + 1 then
      fail (.invalidProof "Block height mismatch")
    else if block.header.merkleRoot ≠ block.calculateMerkleRoot env then
      fail .invalidMerkleRoot
    else validateBlockHeader env block.header prevBlock currentTime

variable {env header previousBlock currentTime}

theorem validateBlockHeader_eq_ok :
    validateBlockHeader env header previousBlock currentTime = .ok () ↔
      header.version = 1 ∧ header.previousBlockHash = previousBlock.hash env ∧
        header.merkleRoot = previousBlock.calculateMerkleRoot env ∧
          (previousBlock.header.height % difficultyAdjustmentInterval ≠ 0 →
            header.difficultyTarget = previousBlock.header.difficultyTarget) ∧
            header.timestamp ≤ currentTime + 7200 ∧
              previousBlock.header.timestamp < header.timestamp ∧
                verifyPow env header header.difficultyTarget = .ok () := by
  have hdifficulty : ¬ (!isAdjustmentBlock previousBlock &&
      header.difficultyTarget != previousBlock.header.difficultyTarget) = true ↔
      (previousBlock.header.height % difficultyAdjustmentInterval ≠ 0 →
        header.difficultyTarget = previousBlock.header.difficultyTarget) := by
    rw [isAdjustmentBlock, UInt64.add_sub_cancel]
    simp
  rw [validateBlockHeader, ite_fail_eq_ok, ite_fail_eq_ok, ite_fail_eq_ok, ite_fail_eq_ok,
    hdifficulty, ite_fail_eq_ok, ite_fail_eq_ok, not_not, not_not, not_not, UInt64.not_lt,
    UInt64.not_le]

theorem validateBlock_cons_eq_ok {block prevBlock : Block} {older : List Block} :
    validateBlock env currentTime block (prevBlock :: older) = .ok () ↔
      block.header.previousBlockHash = prevBlock.header.hash env ∧
        block.header.height = prevBlock.header.height + 1 ∧
          block.header.merkleRoot = block.calculateMerkleRoot env ∧
            validateBlockHeader env block.header prevBlock currentTime = .ok () := by
  change (if _ then _ else _) = _ ↔ _
  rw [ite_fail_eq_ok, ite_fail_eq_ok, ite_fail_eq_ok, not_not, not_not, not_not]

section

/-- A block that is built on another one as it should be, away from the heights at which the
difficulty changes. The hash that names the previous block may be that of its header or that of all
of it. -/
structure CorrectlyBuilt (env : Platform) (currentTime : UInt64) (prevBlock block : Block) :
    Prop where
  height : block.header.height.toNat = prevBlock.header.height.toNat + 1
  previousHash : block.header.previousBlockHash = prevBlock.header.hash env ∨
    block.header.previousBlockHash = prevBlock.hash env
  merkleRoot : block.header.merkleRoot = block.calculateMerkleRoot env
  noAdjustment : prevBlock.header.height % difficultyAdjustmentInterval ≠ 0
  difficulty : block.header.difficultyTarget = prevBlock.header.difficultyTarget
  later : prevBlock.header.timestamp < block.header.timestamp
  notInFuture : block.header.timestamp ≤ currentTime
  work : verifyPow env block.header block.header.difficultyTarget = .ok ()

variable {env : Platform} {currentTime : UInt64} {prevBlock block : Block}

/-- A correctly built block is accepted exactly when it has version one, the previous block has the
hash of its header and the Merkle root of its successor, and the time in two hours does not wrap
around. -/
theorem validateBlock_correctlyBuilt_iff
    (hbuilt : CorrectlyBuilt env currentTime prevBlock block) (older : List Block) :
    validateBlock env currentTime block (prevBlock :: older) = .ok () ↔
      block.header.version = 1 ∧ prevBlock.header.hash env = prevBlock.hash env ∧
        prevBlock.calculateMerkleRoot env = block.calculateMerkleRoot env ∧
          block.header.timestamp ≤ currentTime + 7200 := by
  rw [validateBlock_cons_eq_ok, validateBlockHeader_eq_ok]
  constructor
  · rintro ⟨hheader, -, hroot, hversion, hhash, hprevRoot, -, htime, -⟩
    exact ⟨hversion, hheader.symm.trans hhash, hprevRoot.symm.trans hroot, htime⟩
  · rintro ⟨hversion, hhashes, hroots, htime⟩
    have hprevious : block.header.previousBlockHash = prevBlock.header.hash env := by
      rcases hbuilt.previousHash with hheader | hblock
      · exact hheader
      · exact hblock.trans hhashes.symm
    have hheight : block.header.height = prevBlock.header.height + 1 := by
      have hlt := block.header.height.toNat_lt
      have hadd := UInt64.toNat_add prevBlock.header.height 1
      rw [UInt64.toNat_one, ← hbuilt.height, Nat.mod_eq_of_lt hlt] at hadd
      exact UInt64.toNat_inj.mp hadd.symm
    exact ⟨hprevious, hheight, hbuilt.merkleRoot, hversion, hprevious.trans hhashes,
      hbuilt.merkleRoot.trans hroots.symm, fun _ => hbuilt.difficulty, htime, hbuilt.later,
      hbuilt.work⟩

/-- A digest repeats the only byte of its input; longer inputs have a digest of zero. Headers are a
one, blocks the given byte, and transactions their lock time. -/
def taggedPlatform (blockTag : UInt8) : Platform :=
  { Platform.blank with
    blake3 := fun
      | [tag] => .replicate 32 tag
      | _ => .replicate 32 0
    serializeHeader := fun _ => [1]
    serializeBlock := fun _ => [blockTag]
    serializeTransaction := fun tx => [tx.getLockTime.toUInt8] }

theorem verifyPow_taggedPlatform (blockTag : UInt8) (header : BlockHeader)
    (compactDifficultyBits : UInt32) :
    verifyPow (taggedPlatform blockTag) header compactDifficultyBits = .ok () := by
  refine verifyPow_of_long_zero (fun bytes hlong => ?_) header compactDifficultyBits
  match bytes, hlong with
  | _ :: _ :: _, _ => rfl

/-- A block at the given height with a coinbase of the given lock time. -/
def taggedBlock (height : UInt64) (previousTag lockTime : UInt8) : Block where
  header :=
    { version := 1, height := height, previousBlockHash := .replicate 32 previousTag
      merkleRoot := .replicate 32 lockTime, stateRoot := .replicate 32 0, timestamp := 600 * height
      difficultyTarget := 0x207fffff, nonce := 0 }
  ticketVotes := []
  transactions := [.coinbase 1 [] [] lockTime.toUInt32 []]

/-- A block that names its predecessor by a tag. -/
theorem correctlyBuilt_taggedBlock {blockTag previousTag : UInt8}
    (hprevious : previousTag = 1 ∨ previousTag = blockTag) (lockTime : UInt8) :
    CorrectlyBuilt (taggedPlatform blockTag) 1200 (taggedBlock 1 0 7)
      (taggedBlock 2 previousTag lockTime) where
  height := show (2 : UInt64).toNat = (1 : UInt64).toNat + 1 by decide
  previousHash := by
    rcases hprevious with rfl | rfl
    · exact Or.inl rfl
    · exact Or.inr rfl
  merkleRoot := by
    have htag : lockTime.toUInt32.toUInt8 = lockTime := UInt8.toUInt8_toUInt32 lockTime
    rw [Block.calculateMerkleRoot_of_single _ rfl]
    change List.Vector.replicate 32 lockTime = .replicate 32 lockTime.toUInt32.toUInt8
    rw [htag]
  noAdjustment := by decide
  difficulty := rfl
  later := show (600 : UInt64) * 1 < 600 * 2 by decide
  notInFuture := show (600 : UInt64) * 2 ≤ 1200 by decide
  work := verifyPow_taggedPlatform _ _ _

/-- Where a block and its header have one hash, a block with the root of its predecessor is
accepted. -/
theorem validateBlock_accepts_same_root :
    CorrectlyBuilt (taggedPlatform 1) 1200 (taggedBlock 1 0 7) (taggedBlock 2 1 7) ∧
      validateBlock (taggedPlatform 1) 1200 (taggedBlock 2 1 7) [taggedBlock 1 0 7] = .ok () :=
  have hbuilt : CorrectlyBuilt (taggedPlatform 1) 1200 (taggedBlock 1 0 7) (taggedBlock 2 1 7) :=
    correctlyBuilt_taggedBlock (Or.inl rfl) 7
  ⟨hbuilt, (validateBlock_correctlyBuilt_iff hbuilt []).mpr ⟨rfl, rfl, rfl, by decide⟩⟩

/-- Correctly built blocks are rejected: one that names its predecessor by the hash of the header,
one that names it by the hash of the block, and, where the two are the same, one that has other
transactions than its predecessor. -/
theorem validateBlock_rejects_successors :
    (CorrectlyBuilt (taggedPlatform 2) 1200 (taggedBlock 1 0 7) (taggedBlock 2 1 9) ∧
      validateBlock (taggedPlatform 2) 1200 (taggedBlock 2 1 9) [taggedBlock 1 0 7] =
        fail .invalidPreviousBlockHash) ∧
      (CorrectlyBuilt (taggedPlatform 2) 1200 (taggedBlock 1 0 7) (taggedBlock 2 2 9) ∧
        validateBlock (taggedPlatform 2) 1200 (taggedBlock 2 2 9) [taggedBlock 1 0 7] =
          fail .invalidPreviousBlockHash) ∧
        CorrectlyBuilt (taggedPlatform 1) 1200 (taggedBlock 1 0 7) (taggedBlock 2 1 9) ∧
          validateBlock (taggedPlatform 1) 1200 (taggedBlock 2 1 9) [taggedBlock 1 0 7] =
            fail .invalidMerkleRoot :=
  ⟨⟨correctlyBuilt_taggedBlock (Or.inl rfl) 9, by decide +kernel⟩,
    ⟨correctlyBuilt_taggedBlock (Or.inr rfl) 9, by decide +kernel⟩,
    correctlyBuilt_taggedBlock (Or.inl rfl) 9, by decide +kernel⟩

end

end RustyCoin.RustyConsensus
