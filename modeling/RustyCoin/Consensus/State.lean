import RustyCoin.Consensus.Error
import RustyCoin.Types.Platform

/-!
# The chain's database and the block subsidy
-/

namespace RustyCoin

structure BlockchainState where
  currentHeight : UInt64
  tip : Hash
  db : HashMap Bytes Bytes

namespace BlockchainState

open Outcome

def new : BlockchainState := ⟨0, .replicate 32 0, ∅⟩

variable (self : BlockchainState)

def updateTip (newTipHash : Hash) (newHeight : UInt64) : BlockchainState :=
  { self with tip := newTipHash, currentHeight := newHeight }

/-- The key under which the hash of the block at a height is stored. -/
def blockHashKey (height : UInt64) : Bytes :=
  ("block_hash_" ++ toString height.toNat).toUTF8.toList

def putBlockHash (height : UInt64) (hash : Hash) : BlockchainState :=
  { self with db := self.db.insert (blockHashKey height) hash.toList }

variable (env : Platform) (self : BlockchainState)

/-- A block is stored under its hash, and its hash under its height. -/
def putBlock (block : Block) : BlockchainState :=
  let hash := block.hash env
  let stored := { self with db := self.db.insert hash.toList (env.serializeBlock block) }
  stored.putBlockHash block.header.height hash

/-- `bincode::deserialize` of a `[u8; 32]`, which ignores what follows. -/
def decodeHash (value : Bytes) : Option Hash :=
  if h : 32 ≤ value.length then some ⟨value.take 32, List.length_take_of_le h⟩ else none

def getBlockHash (height : UInt64) : ConsensusResult (Option Hash) :=
  match self.db.lookup (blockHashKey height) with
  | none => .ok none
  | some value => do
    let hash ← okOr (decodeHash value) .unexpectedEnd
    return some hash

/-- `b"block_hash_"` -/
def blockHashTag : Bytes := [0x62, 0x6c, 0x6f, 0x63, 0x6b, 0x5f, 0x68, 0x61, 0x73, 0x68, 0x5f]

/-- The keys under which a block hash is stored for some height. -/
def keysOfBlockHash (blockHash : Hash) : List Bytes :=
  self.db.keys.filter fun key =>
    blockHashTag.isPrefixOf key && decide ((self.db.lookup key).bind decodeHash = some blockHash)

/-- The block goes first, so it is not among the values that are searched. -/
def removeBlockByHash (blockHash : Hash) : BlockchainState :=
  let removed := { self with db := self.db.erase blockHash.toList }
  { removed with db := removed.db.eraseAll (removed.keysOfBlockHash blockHash) }

def removeBlockByHeight (height : UInt64) :
    ConsensusResult BlockchainState := do
  match ← self.getBlockHash height with
  | none => return self
  | some blockHash =>
    let removed := self.removeBlockByHash blockHash
    return { removed with db := removed.db.erase (blockHashKey height) }

/-- A block is found by its hash, which is found by its height. -/
def getBlock (height : UInt64) :
    ConsensusResult (Option Block) := do
  match ← self.getBlockHash height with
  | none => return none
  | some hash =>
    match self.db.lookup hash.toList with
    | none => return none
    | some data =>
      match env.deserializeBlock data with
      | .error message => fail (.serializationError message)
      | .ok block => return some block

/-- `b"current_height"` -/
def currentHeightKey : Bytes :=
  [0x63, 0x75, 0x72, 0x72, 0x65, 0x6e, 0x74, 0x5f, 0x68, 0x65, 0x69, 0x67, 0x68, 0x74]

/-- `bincode::deserialize` of a `u64`, which ignores what follows. -/
def decodeU64 (value : Bytes) : Option UInt64 :=
  if 8 ≤ value.length then some (UInt64.ofNat (leValue (value.take 8))) else none

/-- The height in the database, which `updateTip` does not write. -/
def getCurrentBlockHeight : ConsensusResult UInt64 :=
  match self.db.lookup currentHeightKey with
  | none => .ok 0
  | some value => okOr (decodeU64 value) .unexpectedEnd

/-- The reward of a block. Dividing by an interval of zero aborts. -/
def getBlockSubsidy (height halvingInterval initialBlockReward : UInt64) : ConsensusResult UInt64 :=
  if halvingInterval = 0 then .error .panic
  else
    let halvings := height / halvingInterval
    if halvings ≥ 64 then .ok 0 else .ok (initialBlockReward >>> halvings)

end BlockchainState

end RustyCoin
