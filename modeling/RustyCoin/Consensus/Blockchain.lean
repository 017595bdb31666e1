import RustyCoin.Consensus.Governance
import RustyCoin.Consensus.State
import RustyCoin.Consensus.Tickets
import RustyCoin.Script.Execute

/-!
# Processing and reverting a block

`process_block` validates every transaction of a block against the state before
the block and then applies the block's effects one component after another. The
system time that a check of a lock time reads is an argument. `revert_block`
takes the effects back as far as it knows them.
-/

namespace RustyCoin

def coinbaseMaturityPeriodBlocks : UInt64 := 100

/-- The transactions that wait for a block. -/
structure Mempool where
  transactions : HashMap Hash Transaction

namespace Mempool

def new : Mempool := ⟨∅⟩

def removeTransaction (self : Mempool) (txid : Hash) : Option Transaction × Mempool :=
  (self.transactions.lookup txid, ⟨self.transactions.erase txid⟩)

end Mempool

structure Blockchain (F : Type) where
  liveTickets : LiveTicketsPool
  utxoSet : UtxoSet
  masternodeList : MasternodeList
  state : BlockchainState
  params : ConsensusParams F
  activeProposals : ActiveProposals
  mempool : Mempool

namespace Blockchain

open Outcome Stateful

variable {F : Type} (env : Platform)

def new [F64 F] : Blockchain F where
  liveTickets := .new
  utxoSet := .new
  masternodeList := .new
  state := .new
  params := .default
  activeProposals := .new
  mempool := .new

variable (self : Blockchain F) (tx : Transaction) (currentBlockHeight : UInt64)

def validateCoinbase : ConsensusResult Unit :=
  match tx.getInputs with
  | [input] =>
    if !input.previousOutput.txid.toList.all (· == 0) then
      fail (.invalidCoinbase "Coinbase transaction must have a single null input")
    else if tx.getOutputs.isEmpty then
      fail (.invalidCoinbase "Coinbase transaction must have at least one output")
    else .ok ()
  | _ => fail (.invalidCoinbase "Coinbase transaction must have a single null input")

/-- The age of a coinbase output is a difference of machine integers. -/
def validateInput (input : TxInput) : ConsensusResult Unit := do
  let utxo ← okOr (self.utxoSet.getUtxo input.previousOutput)
    (.missingPreviousOutput input.previousOutput)
  if utxo.isCoinbase ∧ currentBlockHeight - utxo.creationHeight < coinbaseMaturityPeriodBlocks then
    fail (.coinbaseNotMature input.previousOutput)
  else return ()

def validateScripts : ConsensusResult Unit := do
  if ← ScriptEngine.new.validateTransaction env tx self.utxoSet currentBlockHeight then
    return ()
  else fail (.invalidScript "FerrisScript validation failed for transaction")

def validateFee : ConsensusResult Unit :=
  let totalInputValue := (self.utxoSet.inputValues tx.getInputs).foldl (· + ·) 0
  let totalOutputValue := tx.outputValues.foldl (· + ·) 0
  if totalInputValue < totalOutputValue + tx.getFee then
    fail (.insufficientFee tx.getFee (saturatingSub totalInputValue totalOutputValue))
  else .ok ()

/-- Heights and seconds are cut to 32 bits before the comparison. -/
def validateLockTime (now : UInt64) : ConsensusResult Unit :=
  if tx.getLockTime < locktimeThreshold then
    if tx.getLockTime > currentBlockHeight.toUInt32 then
      fail (.lockTimeAfterHeight tx.getLockTime currentBlockHeight)
    else .ok ()
  else if tx.getLockTime > now.toUInt32 then
    fail (.lockTimeAfterNow tx.getLockTime now.toUInt32)
  else .ok ()

def validateTicketPurchase (outputs : List TxOutput) (ticketId : Hash) (lockedAmount : UInt64)
    (ticketAddress : Bytes) : ConsensusResult Unit :=
  match outputs with
  | [] => fail (.invalidTicket "Ticket purchase transaction missing output")
  | ticketOutput :: _ =>
    if ticketOutput.value ≠ lockedAmount then
      fail (.invalidTicket "Ticket purchase output value does not match locked amount")
    else if ticketOutput.scriptPubkey ≠ ticketAddress then
      fail (.invalidTicket "Ticket purchase output script_pubkey does not match ticket address")
    else if (self.liveTickets.getTicket ticketId).isSome then
      fail (.ticketAlreadyLive ticketId)
    else .ok ()

def validateTicketRedemption (ticketId : Hash) : ConsensusResult Unit := do
  let ticket ← okOr (self.liveTickets.getTicket ticketId) (.ticketNotLive ticketId)
  if ticket.height + self.params.ticketMaturity.toUInt64 > currentBlockHeight then
    fail (.ticketNotMature ticketId)
  else if ticket.height + self.params.ticketExpiry.toUInt64 ≤ currentBlockHeight then
    fail (.ticketExpired ticketId)
  else return ()

/-- The checks of the two kinds of transaction that refer to a ticket. -/
def validateTickets : ConsensusResult Unit :=
  match tx with
  | .ticketPurchase _ _ outputs ticketId lockedAmount _ _ ticketAddress _ =>
    self.validateTicketPurchase outputs ticketId lockedAmount ticketAddress
  | .ticketRedemption _ _ _ ticketId _ _ _ =>
    self.validateTicketRedemption currentBlockHeight ticketId
  | _ => .ok ()

def validateTransaction (now : UInt64) : ConsensusResult Unit :=
  if tx.isCoinbase then validateCoinbase tx
  else do
    forM tx.getInputs (self.validateInput currentBlockHeight)
    self.validateScripts env tx currentBlockHeight
    self.validateFee tx
    validateLockTime tx currentBlockHeight now
    self.validateTickets tx currentBlockHeight

/-- A registration carries no keys for distributed key generation over. -/
def convertedIdentity (identity : MasternodeIdentity) : MasternodeIdentity :=
  { identity with dkgPublicKey := none, supportedDkgVersions := [] }

def registerMasternode (self : Blockchain F) (identity : MasternodeIdentity) (height : UInt64) :
    ConsensusResult MasternodeList :=
  match self.masternodeList.registerMasternode (convertedIdentity identity) height.toUInt32 with
  | .error message => fail (.masternodeError message)
  | .ok list => .ok list

def updateMasternodes (height : UInt64) : Transaction → Stateful ConsensusError (Blockchain F) Unit
  | .masternodeRegister masternodeIdentity _ _ _ _ _ => do
    let list ← read fun chain => chain.registerMasternode masternodeIdentity height
    modify fun chain => { chain with masternodeList := list }
  | .masternodeSlashTx slashTx =>
    modify fun chain =>
      { chain with
        masternodeList := (chain.masternodeList.removeMasternode slashTx.masternodeId).2 }
  | _ => pure ()

section

/-- The proposals that have ended for longer than the activation delay. -/
def proposalIdsToRemove (self : Blockchain F) (currentBlockHeight : UInt64) : List Hash :=
  self.activeProposals.proposals.keys.filter fun proposalId =>
    match self.activeProposals.getProposal proposalId with
    | none => false
    | some proposal =>
      currentBlockHeight > proposal.endBlockHeight + self.params.activationDelayBlocks

def removeProposal (proposalId : Hash) : Stateful ConsensusError (Blockchain F) Unit := do
  let proposals ← read fun chain => chain.activeProposals.removeProposal proposalId
  modify fun chain => { chain with activeProposals := proposals }

variable [F64 F]

/-- Only a change of a parameter has an effect; the other kinds are logged. -/
def applyProposal (proposal : GovernanceProposal) : Stateful ConsensusError (Blockchain F) Unit :=
  match proposal.proposalType, proposal.targetParameter, proposal.newValue with
  | .parameterChange, some paramName, some newValue => do
    let params ← read fun chain =>
      chain.params.applyParameterChange paramName newValue
    modify fun chain => { chain with params := params }
  | _, _, _ => pure ()

def resolveProposal (proposal : GovernanceProposal) :
    ProposalOutcome → Stateful ConsensusError (Blockchain F) Unit
  | .passed => do
    applyProposal proposal
    removeProposal proposal.proposalId
  | .rejected _ => removeProposal proposal.proposalId
  | .inProgress => pure ()
  | .expired => removeProposal proposal.proposalId

/-- The loop body of `evaluate_and_apply_governance`. -/
def evaluateProposal (currentBlockHeight : UInt64) (proposalId : Hash) :
    Stateful ConsensusError (Blockchain F) Unit := do
  let proposal ← read fun chain =>
    okOr (chain.activeProposals.getProposal proposalId)
      (.internal "Proposal not found during removal.")
  let outcome ← read fun chain =>
    chain.activeProposals.evaluateProposalAtHeight proposal.proposalId currentBlockHeight
      (UInt64.ofNat chain.liveTickets.countLiveTickets)
      (UInt64.ofNat chain.masternodeList.countActiveMasternodes) chain.params
      (chain.activeProposals.voterTypesMap proposal.proposalId)
  resolveProposal proposal outcome

def evaluateAndApplyGovernance (currentBlockHeight : UInt64) :
    Stateful ConsensusError (Blockchain F) Unit := do
  let proposalIds ← read fun chain => .ok (chain.proposalIdsToRemove currentBlockHeight)
  forM proposalIds (evaluateProposal currentBlockHeight)

end

section

variable [F64 F]

/-- Every transaction is checked against the same state. The clock gives the
system time at each of the checks. -/
def validateTransactions (clock : Nat → UInt64) (block : Block) (self : Blockchain F) :
    ConsensusResult Unit :=
  forM block.transactions.zipIdx fun (tx, i) =>
    self.validateTransaction env tx block.header.height (clock i)

def updateTickets (block : Block) : Stateful ConsensusError (Blockchain F) Unit := do
  let usedTicketIds ← read fun chain => .ok chain.utxoSet.getUsedInputsAsTicketIds
  zoom liveTickets (fun pool chain => { chain with liveTickets := pool })
    (LiveTicketsPool.updateForNewBlock env block usedTicketIds)

def storeBlock (block : Block) : Stateful ConsensusError (Blockchain F) Unit :=
  modify fun chain =>
    { chain with
      state := (chain.state.putBlock env block).updateTip (block.hash env) block.header.height }

/-- What is left to do once the unspent outputs are updated. -/
def updateRest (block : Block) : Stateful ConsensusError (Blockchain F) Unit := do
  forM block.transactions (updateMasternodes block.header.height)
  updateTickets env block
  modify fun chain =>
    { chain with liveTickets := chain.liveTickets.processTicketFinality block.header.height }
  evaluateAndApplyGovernance block.header.height
  storeBlock env block

def processBlock (clock : Nat → UInt64) (block : Block) :
    Stateful ConsensusError (Blockchain F) Unit := do
  read (validateTransactions env clock block)
  modify fun chain =>
    { chain with utxoSet := chain.utxoSet.applyBlock env block block.header.height }
  updateRest env block

end

/-- Registrations are taken back. A slashed masternode is not brought back. -/
def revertMasternode : Transaction → Stateful ConsensusError (Blockchain F) Unit
  | .masternodeRegister masternodeIdentity _ _ _ _ _ =>
    modify fun chain =>
      { chain with
        masternodeList :=
          (chain.masternodeList.removeMasternode masternodeIdentity.collateralOutpoint).2 }
  | _ => pure ()

/-- Proposals, votes and purchased tickets are taken back. A redeemed ticket is
not brought back. -/
def revertGovernance : Transaction → Stateful ConsensusError (Blockchain F) Unit
  | .governanceProposal proposal => removeProposal proposal.proposalId
  | .governanceVote vote => do
    let proposals ← read fun chain =>
      chain.activeProposals.removeVote vote.proposalId vote.voterId
    modify fun chain => { chain with activeProposals := proposals }
  | .ticketPurchase _ _ _ ticketId _ _ _ _ _ => do
    let (_, pool) ← read fun chain => chain.liveTickets.removeTicket ticketId
    modify fun chain => { chain with liveTickets := pool }
  | _ => pure ()

/-- The tip of the block before, and the block out of the database. -/
def revertState (block : Block) : Stateful ConsensusError (Blockchain F) Unit := do
  modify fun chain =>
    { chain with
      state := (chain.state.updateTip block.header.previousBlockHash
        (block.header.height - 1)).removeBlockByHash (block.hash env) }
  let state ← read fun chain =>
    (chain.state.removeBlockByHeight block.header.height) |> ConsensusError.asInternal
  modify fun chain => { chain with state := state }

def revertBlock (block : Block) : Stateful ConsensusError (Blockchain F) Unit := do
  zoom utxoSet (fun set chain => { chain with utxoSet := set }) (UtxoSet.revertBlock env block)
  modify fun chain =>
    { chain with
      liveTickets := chain.liveTickets.updateForRevertBlock block
        chain.utxoSet.getUsedInputsAsTicketIds }
  forM block.transactions.reverse revertMasternode
  forM block.transactions.reverse revertGovernance
  revertState env block

end Blockchain

end RustyCoin
