import RustyCoin.Consensus.RevertBlock

/-!
# The height of the tip in the database

The height of the tip is kept in a field of the state and under a key of its
database. `update_tip`, and with it the processing and the reverting of a block,
writes the field only; `apply_block` and `save_to_disk` write the key as well,
and `load_from_disk` reads the field from the key. The height is read back from
the key. It is the one that was set as the tip as long as every step that writes
the field alone leaves the height as it is.
-/

namespace RustyCoin

open Outcome BlockchainState Stateful

section

/-- `bincode` on the values of a type. Decoding fails with a text. -/
structure Codec (α : Type) where
  encode : α → Bytes
  decode : Bytes → Except String α

structure StateCodec where
  liveTickets : Codec LiveTicketsPool
  utxoSet : Codec UtxoSet
  activeProposals : Codec ActiveProposals
  db : Codec (HashMap Bytes Bytes)

/-- A codec on which the model can be evaluated. -/
def StateCodec.blank : StateCodec where
  liveTickets := ⟨fun _ => [], fun _ => .ok .new⟩
  utxoSet := ⟨fun _ => [], fun _ => .ok .new⟩
  activeProposals := ⟨fun _ => [], fun _ => .ok .new⟩
  db := ⟨fun _ => [], fun _ => .ok ∅⟩

/-- The state together with its own pools, which are not those of the chain. -/
structure StoredState where
  state : BlockchainState
  liveTickets : LiveTicketsPool
  utxoSet : UtxoSet
  activeProposals : ActiveProposals

namespace StoredState

variable (env : Platform) (codec : StateCodec)

/-- `b"tip"` -/
def tipKey : Bytes := [0x74, 0x69, 0x70]

/-- `b"live_tickets"` -/
def liveTicketsKey : Bytes :=
  [0x6c, 0x69, 0x76, 0x65, 0x5f, 0x74, 0x69, 0x63, 0x6b, 0x65, 0x74, 0x73]

/-- `b"utxo_set"` -/
def utxoSetKey : Bytes := [0x75, 0x74, 0x78, 0x6f, 0x5f, 0x73, 0x65, 0x74]

/-- `b"active_proposals"` -/
def activeProposalsKey : Bytes :=
  [0x61, 0x63, 0x74, 0x69, 0x76, 0x65, 0x5f, 0x70, 0x72, 0x6f, 0x70, 0x6f, 0x73, 0x61, 0x6c, 0x73]

/-- The five entries in which the state is written to the database. -/
def entries (self : StoredState) : List (Bytes × Bytes) :=
  [(currentHeightKey, leBytes 8 self.state.currentHeight.toNat),
    (tipKey, self.state.tip.toList),
    (liveTicketsKey, codec.liveTickets.encode self.liveTickets),
    (utxoSetKey, codec.utxoSet.encode self.utxoSet),
    (activeProposalsKey, codec.activeProposals.encode self.activeProposals)]

def insertEntries (self : StoredState) : StoredState :=
  { self with state := { self.state with db := self.state.db.insertAll (self.entries codec) } }

/-- `map_err(|e| ConsensusError::DatabaseError(e.to_string()))` -/
def databaseResult {α : Type} : Except String α → ConsensusResult α
  | .ok a => .ok a
  | .error message => fail (.databaseError message)

/-- `map_err(|e| ConsensusError::SerializationError(e.to_string()))` -/
def decoded {α : Type} : Except String α → ConsensusResult α
  | .ok a => .ok a
  | .error message => fail (.serializationError message)

/-- The value under a key of the database, or the one that a missing key stands for. -/
def readKey {α : Type} (db : HashMap Bytes Bytes) (key : Bytes) (missing : α)
    (decode : Bytes → ConsensusResult α) : ConsensusResult α :=
  match db.lookup key with
  | none => .ok missing
  | some encoded => decode encoded

/-- The answer of `std::fs::read` is an argument: the file may hold anything. -/
def loadFromDisk (answer : Except String Bytes) : ConsensusResult StoredState := do
  let encoded ← databaseResult answer
  let db ← databaseResult (codec.db.decode encoded)
  let currentHeight ← readKey db currentHeightKey 0 fun value =>
    okOr (decodeU64 value) .unexpectedEnd
  let tip ← readKey db tipKey (.replicate 32 0) fun value =>
    okOr (decodeHash value) .unexpectedEnd
  let liveTickets ← readKey db liveTicketsKey .new (decoded ∘ codec.liveTickets.decode)
  let utxoSet ← readKey db utxoSetKey .new (decoded ∘ codec.utxoSet.decode)
  let activeProposals ← readKey db activeProposalsKey .new (decoded ∘ codec.activeProposals.decode)
  return ⟨⟨currentHeight, tip, db⟩, liveTickets, utxoSet, activeProposals⟩

/-- The file system answers whether it has written the bytes. -/
def saveToDisk (write : Bytes → Except String Unit) : Stateful ConsensusError StoredState Unit := do
  modify (insertEntries codec)
  read fun self => databaseResult (write (codec.db.encode self.state.db))

/-- What a transaction of a block does to the state's own tickets. The value of a ticket is the
amount that the purchase says it locks. A ticket that is not there is not missed. -/
def applyTicket (height : UInt64) : Transaction → Stateful ConsensusError LiveTicketsPool Unit
  | .ticketPurchase _ _ _ _ lockedAmount _ _ ticketAddress _ =>
    if ticketAddress.length ≠ 32 then
      read fun _ =>
        fail (.invalidTicket "Invalid public key length in ticket address.")
    else
      modify fun pool => pool.addTicket
        { id := env.blake3 ticketAddress
          pubkey := ticketAddress
          height := height
          value := lockedAmount
          status := .pending }
  | .ticketRedemption _ _ _ ticketId _ _ _ =>
    modify fun pool =>
      match pool.removeTicket ticketId with
      | .ok (_, removed) => removed
      | .error _ => pool
  | _ => pure ()

/-- The tip is moved before the transactions are looked at. -/
def applyBlock (block : Block) : Stateful ConsensusError StoredState Unit := do
  modify fun self =>
    { self with state := self.state.updateTip (block.hash env) block.header.height }
  zoom liveTickets (fun pool self => { self with liveTickets := pool })
    (forM block.transactions (applyTicket env block.header.height))
  modify fun self =>
    { self with utxoSet := self.utxoSet.applyBlock env block block.header.height }
  modify (insertEntries codec)

end StoredState

end

/-- The address of every ticket that the block buys is as long as a key. -/
def Block.KeysFit (block : Block) : Prop :=
  ∀ ticket ∈ block.namedTickets, ticket.pubkey.length = 32

section

variable (env : Platform) (codec : StateCodec)

namespace BlockchainState

variable {state state' : BlockchainState}

/-- The recorded height depends on one key. -/
theorem getCurrentBlockHeight_congr
    (h : state'.db.lookup currentHeightKey = state.db.lookup currentHeightKey) :
    state'.getCurrentBlockHeight = state.getCurrentBlockHeight := by
  unfold getCurrentBlockHeight
  rw [h]

@[simp] theorem decodeU64_leBytes (n : UInt64) : decodeU64 (leBytes 8 n.toNat) = some n := by
  have hlength := length_leBytes 8 n.toNat
  have hlt : n.toNat < 256 ^ 8 := n.toNat_lt
  rw [decodeU64, if_pos hlength.ge, List.take_of_length_le hlength.le, leValue_leBytes,
    Nat.mod_eq_of_lt hlt, UInt64.ofNat_toNat]

theorem currentHeightKey_ne_toList (hash : Hash) : currentHeightKey ≠ hash.toList := by
  intro heq
  have hlength := congrArg List.length heq
  rw [hash.toList_length] at hlength
  revert hlength
  decide

theorem not_isPrefixOf_currentHeightKey : blockHashTag.isPrefixOf currentHeightKey = false := by
  decide

theorem currentHeightKey_ne_blockHashKey (height : UInt64) :
    currentHeightKey ≠ blockHashKey height := by
  intro heq
  have htag := isPrefixOf_blockHashKey height
  rw [← heq, not_isPrefixOf_currentHeightKey] at htag
  cases htag

/-- Blocks are stored under other keys than the height of the tip. -/
@[simp] theorem lookup_putBlock_currentHeightKey (state : BlockchainState) (block : Block) :
    (state.putBlock env block).db.lookup currentHeightKey =
      state.db.lookup currentHeightKey := by
  change AList.lookup currentHeightKey ((state.db.insert (block.hash env).toList
    (env.serializeBlock block)).insert (blockHashKey block.header.height) _) = _
  rw [AList.lookup_insert_ne (currentHeightKey_ne_blockHashKey _),
    AList.lookup_insert_ne (currentHeightKey_ne_toList _)]

theorem lookup_removeBlockByHash_currentHeightKey (state : BlockchainState) (hash : Hash) :
    (state.removeBlockByHash hash).db.lookup currentHeightKey =
      state.db.lookup currentHeightKey := by
  have hkept (state : BlockchainState) : currentHeightKey ∉ state.keysOfBlockHash hash := by
    intro hkey
    have htag := (List.mem_filter.mp hkey).2
    rw [not_isPrefixOf_currentHeightKey, Bool.false_and] at htag
    cases htag
  rw [removeBlockByHash, HashMap.lookup_eraseAll, if_neg (hkept _)]
  exact AList.lookup_erase_ne (currentHeightKey_ne_toList hash)

theorem removeBlockByHeight_keeps {height : UInt64}
    (hok : state.removeBlockByHeight height = .ok state') :
    state'.currentHeight = state.currentHeight ∧
      state'.db.lookup currentHeightKey = state.db.lookup currentHeightKey := by
  obtain ⟨found, _, hrest⟩ := bind_eq_ok.mp hok
  cases found with
  | none =>
    cases hrest
    exact ⟨rfl, rfl⟩
  | some hash =>
    cases hrest
    refine ⟨rfl, ?_⟩
    exact (AList.lookup_erase_ne (currentHeightKey_ne_blockHashKey height)).trans
      (lookup_removeBlockByHash_currentHeightKey state hash)

end BlockchainState

namespace StoredState

/-- The height that is read back is the field, once the entries are inserted. -/
@[simp] theorem getCurrentBlockHeight_insertEntries (self : StoredState) :
    (self.insertEntries codec).state.getCurrentBlockHeight = .ok self.state.currentHeight := by
  have hlookup : (self.insertEntries codec).state.db.lookup currentHeightKey =
      some (leBytes 8 self.state.currentHeight.toNat) := by
    change AList.lookup _ (HashMap.insertAll _ _) = _
    rw [HashMap.lookup_insertAll]
    rfl
  unfold getCurrentBlockHeight
  rw [hlookup]
  dsimp only
  rw [decodeU64_leBytes]
  rfl

/-- A state that is loaded has the height that is read back from its database. -/
theorem getCurrentBlockHeight_loadFromDisk {answer : Except String Bytes} {loaded : StoredState}
    (hok : loadFromDisk codec answer = .ok loaded) :
    loaded.state.getCurrentBlockHeight = .ok loaded.state.currentHeight := by
  obtain ⟨encoded, _, hok⟩ := bind_eq_ok.mp hok
  obtain ⟨db, _, hok⟩ := bind_eq_ok.mp hok
  obtain ⟨currentHeight, hheight, hok⟩ := bind_eq_ok.mp hok
  obtain ⟨tip, _, hok⟩ := bind_eq_ok.mp hok
  obtain ⟨liveTickets, _, hok⟩ := bind_eq_ok.mp hok
  obtain ⟨utxoSet, _, hok⟩ := bind_eq_ok.mp hok
  obtain ⟨activeProposals, _, hok⟩ := bind_eq_ok.mp hok
  cases hok
  exact hheight

/-- A purchase is refused for its address only. -/
theorem applyTicket_returns_iff {height : UInt64} (tx : Transaction) (pool : LiveTicketsPool) :
    (∃ next, (applyTicket env height tx).run pool = (.ok (), next)) ↔
      ∀ ticket ∈ tx.namedTicket? height, ticket.pubkey.length = 32 := by
  unfold applyTicket
  split
  · rename_i ticketAddress _
    by_cases hlength : ticketAddress.length = 32
    · rw [if_neg (not_not.mpr hlength)]
      refine iff_of_true ⟨_, rfl⟩ ?_
      rintro _ ⟨⟩
      exact hlength
    · rw [if_pos hlength]
      refine iff_of_false ?_ ?_
      · rintro ⟨next, hrun⟩
        exact absurd (congrArg Prod.fst hrun) (fail_ne_ok _ _)
      · intro hall
        exact hlength (hall _ rfl)
  · exact iff_of_true ⟨_, rfl⟩ nofun
  · rename_i hpurchase _
    refine iff_of_true ⟨_, rfl⟩ ?_
    intro ticket hticket
    unfold Transaction.namedTicket? at hticket
    split at hticket
    · exact (hpurchase _ _ _ _ _ _ _ _ _ rfl).elim
    · cases hticket

theorem applyTickets_returns_iff (block : Block) (pool : LiveTicketsPool) :
    (∃ next, (forM block.transactions (applyTicket env block.header.height)).run pool =
        (.ok (), next)) ↔
      block.KeysFit := by
  rw [run_forM_returns_iff (applyTicket_returns_iff env)]
  constructor
  · intro hall ticket hticket
    obtain ⟨tx, htx, hnamed⟩ := List.mem_filterMap.mp hticket
    exact hall tx htx ticket hnamed
  · intro hall tx htx ticket hnamed
    exact hall ticket (List.mem_filterMap.mpr ⟨tx, htx, hnamed⟩)

/-- The field is written whatever becomes of the block; the database is written if the addresses of
all purchases fit. -/
theorem applyBlock_heights (block : Block) (self : StoredState) :
    ((applyBlock env codec block).run self).2.state.currentHeight = block.header.height ∧
      (block.KeysFit → ((applyBlock env codec block).run self).2.state.getCurrentBlockHeight =
        .ok block.header.height) ∧
      (¬ block.KeysFit →
        ((applyBlock env codec block).run self).2.state.getCurrentBlockHeight =
          self.state.getCurrentBlockHeight) := by
  have htickets := applyTickets_returns_iff env block self.liveTickets
  let moved : StoredState :=
    { self with state := self.state.updateTip (block.hash env) block.header.height }
  rw [applyBlock, run_bind_of_ok (t := moved) (run_modify _)]
  rcases hrun : (forM block.transactions (applyTicket env block.header.height)).run
    moved.liveTickets with ⟨failure | _, pool⟩
  · rw [run_bind_of_error (run_zoom_of_run (s := moved) hrun)]
    refine ⟨rfl, fun hfit => ?_, fun _ => rfl⟩
    obtain ⟨next, hnext⟩ := htickets.mpr hfit
    cases hrun.symm.trans hnext
  · rw [run_bind_of_ok (run_zoom_of_run (s := moved) hrun)]
    refine ⟨rfl, fun _ => ?_, fun hfit => ?_⟩
    · exact getCurrentBlockHeight_insertEntries codec _
    · exact absurd (htickets.mp ⟨pool, hrun⟩) hfit

end StoredState

namespace Blockchain

variable {F : Type} [F64 F]

variable (clock : Nat → UInt64) (block : Block)

/-- A block that is accepted gives the tip its height; one that is refused leaves the tip. -/
theorem processBlock_sets_currentHeight :
    Stateful.SetsOnReturn (fun chain : Blockchain F => chain.state.currentHeight)
      block.header.height (processBlock env clock block) := by
  obtain ⟨x, hx, hfactors⟩ := processBlock_factors (F := F) env clock block
  rw [hfactors]
  refine Stateful.SetsOnReturn.keeps_bind (fun chain => ?_) fun _ => ?_
  · rw [hx chain]
  · exact setsOnReturn_modify fun _ => rfl

theorem keeps_recorded_processBlock :
    Stateful.Keeps
      (fun chain : Blockchain F => chain.state.db.lookup currentHeightKey)
      (processBlock env clock block) := by
  obtain ⟨x, hx, hfactors⟩ := processBlock_factors (F := F) env clock block
  rw [hfactors]
  refine Stateful.Keeps.bind (fun chain => ?_) fun _ => ?_
  · rw [hx chain]
  · exact keeps_modify fun chain =>
      lookup_putBlock_currentHeightKey env chain.state block

variable (block : Block)

/-- What `revert_block` does before it comes to the state. -/
def revertPools : Stateful ConsensusError (Blockchain F) Unit := do
  zoom utxoSet (fun set chain => { chain with utxoSet := set }) (UtxoSet.revertBlock env block)
  modify fun chain =>
    { chain with
      liveTickets := chain.liveTickets.updateForRevertBlock block
        chain.utxoSet.getUsedInputsAsTicketIds }
  forM block.transactions.reverse revertMasternode
  forM block.transactions.reverse revertGovernance

omit [F64 F] in
theorem revertBlock_eq :
    (revertBlock env block : Stateful ConsensusError (Blockchain F) Unit) =
      (do revertPools env block; revertState env block) := by
  simp only [revertBlock, revertPools, bind_assoc]

omit [F64 F] in
theorem keeps_state_revertPools :
    Stateful.Keeps state
      (revertPools env block : Stateful ConsensusError (Blockchain F) Unit) := by
  refine Stateful.Keeps.bind (keeps_zoom _ fun _ _ => ?_) fun _ => ?_
  · rfl
  refine Stateful.Keeps.bind (keeps_modify fun _ => ?_) fun _ => ?_
  · rfl
  refine (keeps_forM fun tx => ?_).bind fun _ => keeps_forM fun tx => ?_
  · unfold revertMasternode
    split
    · exact keeps_modify fun _ => rfl
    · exact keeps_pure ()
  · unfold revertGovernance
    split
    · exact keeps_removeProposal (fun _ _ => rfl) _
    · exact (keeps_read _).bind fun _ => keeps_modify fun _ => rfl
    · exact (keeps_read _).bind fun _ => keeps_modify fun _ => rfl
    · exact keeps_pure ()

omit [F64 F] in
/-- The tip is moved even if the block cannot be removed from the database. -/
theorem revertState_heights (chain : Blockchain F) :
    ((revertState env block).run chain).2.state.currentHeight = block.header.height - 1 ∧
      ((revertState env block).run chain).2.state.db.lookup
        currentHeightKey =
          chain.state.db.lookup currentHeightKey := by
  let moved : Blockchain F :=
    { chain with
      state := (chain.state.updateTip block.header.previousBlockHash
        (block.header.height - 1)).removeBlockByHash (block.hash env) }
  have hmoved : moved.state.db.lookup currentHeightKey =
      chain.state.db.lookup currentHeightKey :=
    lookup_removeBlockByHash_currentHeightKey _ _
  rw [revertState, run_bind_of_ok (t := moved) (run_modify _), run_read_bind]
  split
  · rename_i state hstate
    obtain ⟨hheight, hkey⟩ :=
      removeBlockByHeight_keeps (ConsensusError.asInternal_eq_ok.mp hstate)
    exact ⟨hheight, hkey.trans hmoved⟩
  · exact ⟨rfl, hmoved⟩

omit [F64 F] in
theorem currentHeight_revertBlock (chain : Blockchain F) :
    ((revertBlock env block).run chain).2.state.currentHeight =
      match ((revertPools env block).run chain).1 with
      | .ok _ => block.header.height - 1
      | .error _ => chain.state.currentHeight := by
  have hkeeps := keeps_state_revertPools env block chain
  rw [revertBlock_eq]
  rcases hrun : (revertPools env block).run chain with ⟨failure | _, next⟩
  · rw [hrun] at hkeeps
    rw [run_bind_of_error hrun]
    exact congrArg currentHeight hkeeps
  · rw [run_bind_of_ok hrun]
    exact (revertState_heights env block next).1

omit [F64 F] in
theorem keeps_recorded_revertBlock :
    Stateful.Keeps
      (fun chain : Blockchain F => chain.state.db.lookup currentHeightKey)
      (revertBlock env block) := by
  rw [revertBlock_eq]
  refine Stateful.Keeps.bind (fun chain => ?_) fun _ chain => ?_
  · rw [keeps_state_revertPools env block chain]
  · exact (revertState_heights env block chain).2

end Blockchain

end

/-- The chain with the pools of its state. -/
structure StoredChain (F : Type) where
  chain : Blockchain F
  liveTickets : LiveTicketsPool
  utxoSet : UtxoSet
  activeProposals : ActiveProposals

namespace StoredChain

variable {F : Type} [F64 F] (env : Platform) (codec : StateCodec)

def new : StoredChain F := ⟨.new, .new, .new, .new⟩

def stored (self : StoredChain F) : StoredState :=
  ⟨self.chain.state, self.liveTickets, self.utxoSet, self.activeProposals⟩

def withStored (stored : StoredState) (self : StoredChain F) : StoredChain F :=
  ⟨{ self.chain with state := stored.state }, stored.liveTickets, stored.utxoSet,
    stored.activeProposals⟩

def withChain (chain : Blockchain F) (self : StoredChain F) : StoredChain F :=
  { self with chain := chain }

/-- The operations that read or write the height of the tip. -/
inductive Operation where
  | processBlock (clock : Nat → UInt64) (block : Block)
  | revertBlock (block : Block)
  | updateTip (newTipHash : Hash) (newHeight : UInt64)
  | applyBlock (block : Block)
  | saveToDisk (write : Bytes → Except String Unit)
  | loadFromDisk (answer : Except String Bytes)

namespace Operation

/-- A state that cannot be loaded leaves the old one in place. -/
def call : Operation → Stateful ConsensusError (StoredChain F) Unit
  | .processBlock clock block =>
    zoom chain withChain (Blockchain.processBlock env clock block)
  | .revertBlock block => zoom chain withChain (Blockchain.revertBlock env block)
  | .updateTip newTipHash newHeight =>
    modify fun self =>
      self.withChain { self.chain with state := self.chain.state.updateTip newTipHash newHeight }
  | .applyBlock block =>
    zoom stored withStored (StoredState.applyBlock env codec block)
  | .saveToDisk write => zoom stored withStored (StoredState.saveToDisk codec write)
  | .loadFromDisk answer => do
    let loaded ← read fun _ => StoredState.loadFromDisk codec answer
    modify (withStored loaded)

/-- The height that the operation sets as the tip, if it comes to set one. -/
def setsTip : Operation → StoredChain F → Option UInt64
  | .processBlock clock block, self =>
    match ((Blockchain.processBlock env clock block).run self.chain).1 with
    | .ok _ => some block.header.height
    | .error _ => none
  | .revertBlock block, self =>
    match ((Blockchain.revertPools env block).run self.chain).1 with
    | .ok _ => some (block.header.height - 1)
    | .error _ => none
  | .updateTip _ newHeight, _ => some newHeight
  | .applyBlock block, _ => some block.header.height
  | .saveToDisk _, _ => none
  | .loadFromDisk answer, _ =>
    match StoredState.loadFromDisk codec answer with
    | .ok loaded => some loaded.state.currentHeight
    | .error _ => none

/-- Does the operation leave the height of the tip in the database? -/
def Records : Operation → Prop
  | .processBlock _ _ => False
  | .revertBlock _ => False
  | .updateTip _ _ => False
  | .applyBlock block => block.KeysFit
  | .saveToDisk _ => True
  | .loadFromDisk answer => ∃ loaded, StoredState.loadFromDisk codec answer = .ok loaded

/-- The operation records the tip that it sets, or it leaves the height of the tip as it is. -/
def KeepsPace (op : Operation) (self : StoredChain F) : Prop :=
  op.Records codec ∨ ∀ height ∈ op.setsTip env codec self, height = self.chain.state.currentHeight

variable (op : Operation) (self : StoredChain F)

/-- The field is the height of the last tip. -/
theorem currentHeight_call :
    ((op.call env codec).run self).2.chain.state.currentHeight =
      (op.setsTip env codec self).getD self.chain.state.currentHeight := by
  cases op with
  | processBlock clock block =>
    refine (Blockchain.processBlock_sets_currentHeight env clock block self.chain).trans ?_
    rw [setsTip]
    cases ((Blockchain.processBlock env clock block).run self.chain).1 with
    | error failure => rfl
    | ok _ => rfl
  | revertBlock block =>
    refine (Blockchain.currentHeight_revertBlock env block self.chain).trans ?_
    rw [setsTip]
    cases ((Blockchain.revertPools env block).run self.chain).1 with
    | error failure => rfl
    | ok _ => rfl
  | updateTip newTipHash newHeight => rfl
  | applyBlock block => exact (StoredState.applyBlock_heights env codec block self.stored).1
  | saveToDisk write => rfl
  | loadFromDisk answer =>
    rw [call, run_read_bind, setsTip]
    cases StoredState.loadFromDisk codec answer with
    | error failure => rfl
    | ok loaded => rfl

/-- The database has the height of the tip after an operation that records it, and the height that
it had before after any other. -/
theorem getCurrentBlockHeight_call :
    (op.Records codec →
      ((op.call env codec).run self).2.chain.state.getCurrentBlockHeight =
        .ok ((op.call env codec).run self).2.chain.state.currentHeight) ∧
    (¬ op.Records codec →
      ((op.call env codec).run self).2.chain.state.getCurrentBlockHeight =
        self.chain.state.getCurrentBlockHeight) := by
  cases op with
  | processBlock clock block =>
    refine ⟨False.elim, fun _ => getCurrentBlockHeight_congr ?_⟩
    exact Blockchain.keeps_recorded_processBlock env clock block self.chain
  | revertBlock block =>
    refine ⟨False.elim, fun _ => getCurrentBlockHeight_congr ?_⟩
    exact Blockchain.keeps_recorded_revertBlock env block self.chain
  | updateTip newTipHash newHeight => exact ⟨False.elim, fun _ => rfl⟩
  | applyBlock block =>
    obtain ⟨hfield, hfit, hunfit⟩ :=
      StoredState.applyBlock_heights env codec block self.stored
    refine ⟨fun hrecords => ?_, hunfit⟩
    exact (hfit hrecords).trans (congrArg _ hfield.symm)
  | saveToDisk write =>
    refine ⟨fun _ => ?_, fun hnot => absurd trivial hnot⟩
    exact StoredState.getCurrentBlockHeight_insertEntries codec self.stored
  | loadFromDisk answer =>
    rw [call, run_read_bind, Records]
    cases hload : StoredState.loadFromDisk codec answer with
    | error failure =>
      refine ⟨?_, fun _ => rfl⟩
      rintro ⟨loaded, hok⟩
      cases hok
    | ok loaded =>
      refine ⟨fun _ => ?_, fun hnot => absurd ⟨loaded, rfl⟩ hnot⟩
      exact StoredState.getCurrentBlockHeight_loadFromDisk codec hload

end Operation

variable (run : StoredChain F × UInt64)

/-- One step of a run. The height that was last set as the tip is kept along. -/
def step (op : Operation) : StoredChain F × UInt64 :=
  (((op.call env codec).run run.1).2, (op.setsTip env codec run.1).getD run.2)

/-- The chain after a run that starts from a new one, with the height last set as its tip. -/
def after (ops : List Operation) : StoredChain F × UInt64 :=
  ops.foldl (step env codec) (new, 0)

/-- The height that is read back is the one last set as the tip. -/
def ReadsTip : Prop :=
  run.1.chain.state.getCurrentBlockHeight = .ok run.2

theorem readsTip_step_iff {run : StoredChain F × UInt64} (op : Operation)
    (hfield : run.2 = run.1.chain.state.currentHeight) (hreads : ReadsTip run) :
    ReadsTip (step env codec run op) ↔ op.KeepsPace env codec run.1 := by
  obtain ⟨self, last⟩ := run
  obtain rfl : last = self.chain.state.currentHeight := hfield
  obtain ⟨hrecords, hkeeps⟩ := op.getCurrentBlockHeight_call env codec self
  have hheight := op.currentHeight_call env codec self
  by_cases hrec : op.Records codec
  · refine iff_of_true ?_ (.inl hrec)
    exact (hrecords hrec).trans (congrArg _ hheight)
  · have hread : (step env codec (self, self.chain.state.currentHeight)
        op).1.chain.state.getCurrentBlockHeight = .ok self.chain.state.currentHeight :=
      (hkeeps hrec).trans hreads
    have hiff : ReadsTip (step env codec (self, self.chain.state.currentHeight) op) ↔
        self.chain.state.currentHeight =
          (op.setsTip env codec self).getD self.chain.state.currentHeight := by
      rw [ReadsTip, hread]
      exact ⟨fun h => Except.ok.inj h, fun h => congrArg _ h⟩
    rw [hiff, Operation.KeepsPace, or_iff_right hrec]
    cases op.setsTip env codec self with
    | none => exact iff_of_true rfl nofun
    | some height =>
      constructor
      · rintro hsame _ ⟨⟩
        exact hsame.symm
      · intro hall
        exact (hall height rfl).symm

/-- All along a run the height that is read back is the one last set as the tip, exactly if no step
moves the tip to another height without recording it. -/
theorem always_readsTip_iff (ops : List Operation) :
    (∀ front, front <+: ops →
      ReadsTip (after env codec front : StoredChain F × UInt64)) ↔
      ∀ front op, front ++ [op] <+: ops →
        op.KeepsPace env codec (after env codec front : StoredChain F × UInt64).1 := by
  refine Prefixes.foldl_always_iff (step env codec)
    (fun run => run.2 = run.1.chain.state.currentHeight) ReadsTip
    (fun op run => op.KeepsPace env codec run.1) (s := (new, 0)) rfl ?_ rfl ?_ ops
  · intro run op hfield
    change (op.setsTip env codec run.1).getD run.2 = _
    rw [hfield]
    exact (op.currentHeight_call env codec run.1).symm
  · intro run op hfield hreads
    exact readsTip_step_iff env codec op hfield hreads

/-- After a block at height one is processed the height that is read back is still zero. -/
theorem processBlock_not_recorded :
    let op := Operation.processBlock (fun _ => 0) (Blockchain.blockOf [])
    let run : StoredChain Rat × UInt64 := after Platform.blank StateCodec.blank [op]
    ((op.call Platform.blank StateCodec.blank).run (new : StoredChain Rat)).1 = .ok () ∧
      run.2 = 1 ∧ run.1.chain.state.currentHeight = 1 ∧
      run.1.chain.state.getCurrentBlockHeight = .ok 0 ∧ ¬ ReadsTip run := by
  refine ⟨by decide +kernel, by decide +kernel, by decide +kernel, by decide +kernel, ?_⟩
  unfold ReadsTip
  decide +kernel

end StoredChain

end RustyCoin
