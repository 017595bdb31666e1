import RustyCoin.Consensus.Blockchain
import RustyCoin.Consensus.Pow
import RustyCoin.Consensus.StateRoot

/-!
# Adding a block

`add_block` sorts the transactions of a block, checks its header, and processes
its transactions one after the other: proposals and votes are recorded as soon
as their own checks pass, before their inputs are looked at. It then sorts once
more, takes the first transaction for the coinbase and writes the reward into
it. From there on the block is applied, component by component, before the state
root is compared with the one in the header.

Arithmetic on heights, timestamps and amounts is that of a release build. Log
output is left out.
-/

namespace RustyCoin

/-- How state roots are computed: the serialization of the state, the hashing of
trie nodes, the iteration of hash maps, and the 32 bytes of a digest. -/
structure StateRoots (Digest : Type) where
  enc : LedgerEncoder
  hasher : TrieHasher Digest
  order : IterationOrder
  toBytes : Digest → Hash

/-- State roots that can be evaluated: nodes are their own digests, and every
root is written as zero. -/
def StateRoots.plain : StateRoots Bytes where
  enc := BlockchainState.idEncoder
  hasher := .plain
  order := BlockchainState.asCollected
  toBytes _ := .replicate 32 0

namespace ConsensusError

def forkDetected (previousBlockHash tip : Hash) : ConsensusError :=
  .invalidBlock ("Fork detected: Incoming block's previous hash " ++
    debugBytes previousBlockHash.toList ++ " does not match current tip " ++ debugBytes tip.toList)

def inputsInvalid (txid : Hash) : ConsensusError :=
  .transactionValidation ("Transaction input validation failed for tx: " ++ debugBytes txid.toList)

def scriptsInvalid (txid : Hash) : ConsensusError :=
  .invalidScript ("Transaction script verification failed for tx: " ++ debugBytes txid.toList)

def rewardExceeded (expected actual : UInt64) : ConsensusError :=
  .invalidCoinbase ("Coinbase output value exceeds expected PoW reward. Expected: " ++
    toString expected.toNat ++ ", Actual: " ++ toString actual.toNat)

def votingWindowMismatch (votingWindow votingPeriod : UInt64) : ConsensusError :=
  .ruleViolation ("Governance proposal voting window (" ++ toString votingWindow.toNat ++
    ") must equal configured voting period (" ++ toString votingPeriod.toNat ++ ").")

def stakeTooLow (stakeAmount : UInt64) : ConsensusError :=
  .ruleViolation ("Governance proposal must lock at least " ++ toString stakeAmount.toNat ++
    " satoshis of stake.")

def stateRootMismatch (expected found : Hash) : ConsensusError :=
  .stateError ("State root mismatch: expected " ++ debugBytes expected.toList ++ ", found " ++
    debugBytes found.toList)

/-- A slashing reason as `Debug` prints it. -/
def debugReason : SlashingReason → String
  | .masternodeNonResponse => "MasternodeNonResponse"
  | .doubleSigning => "DoubleSigning"
  | .invalidBlockProposal => "InvalidBlockProposal"
  | .invalidTransaction => "InvalidTransaction"
  | .governanceViolation => "GovernanceViolation"

def debugTicketId (ticketId : TicketId) : String :=
  "TicketId(" ++ debugBytes ticketId.toList ++ ")"

def debugTicketStatus : TicketStatus → String
  | .pending => "Pending"
  | .live => "Live"
  | .voted => "Voted"
  | .expired => "Expired"
  | .revoked => "Revoked"

/-- An error of the trie. Only deletions fail with the second kind. -/
def ofTrieError {Digest : Type} (toBytes : Digest → Hash) : TrieError Digest → ConsensusError
  | .trieError message => .trieError message
  | .stateError childHash =>
    .stateError ("Child node with hash " ++ hexEncode (toBytes childHash).toList ++
      " not found during branch simplification")

/-- `?` on a result of the trie. -/
def ofTrieResult {Digest α : Type} (toBytes : Digest → Hash) :
    TrieResult Digest α → ConsensusResult α
  | .ok a => .ok a
  | .error (.err e) => Outcome.fail (ofTrieError toBytes e)
  | .error .panic => .error .panic
  | .error .outOfFuel => .error .outOfFuel

theorem failsWith_ofTrieResult {Digest α : Type} {toBytes : Digest → Hash}
    {result : TrieResult Digest α} {P : Failure ConsensusError → Prop} (herr : ∀ e, P (.err e)) :
    Outcome.FailsWith P (ofTrieResult toBytes result) ↔
      Outcome.FailsWith (Failure.Uncaught P) result := by
  rcases result with (e | - | -) | a
  all_goals simp [ofTrieResult, Failure.Uncaught, herr]

end ConsensusError

namespace Blockchain

open Outcome ConsensusError Stateful

variable {F : Type} (env : Platform)

variable (self : Blockchain F)

def getLatestBlock : ConsensusResult (Option Block) := do
  let currentHeight ← asInternal self.state.getCurrentBlockHeight
  if currentHeight = 0 then return none
  else asInternal (self.state.getBlock env currentHeight)

/-- The target has to be that of the last block, except at the end of a window:
there the code compares two recalculated targets of the last block, the second
of them for a timespan of zero. -/
def validateDifficulty (header last : BlockHeader) (currentHeight : UInt64) :
    ConsensusResult Unit :=
  let window := self.params.difficultyAdjustmentWindow.toUInt64
  if window = 0 then .error .panic
  else if currentHeight % window = 0 then do
    let found ← self.state.getBlock env (currentHeight - window)
    let firstBlock ← okOr found (.internal "First block in interval not found")
    let newDifficulty ← Pow.calculateNewTarget last.difficultyTarget.toNat
      (last.timestamp - firstBlock.header.timestamp) self.params.minBlockTime window
      (self.params.minBlockTime * 4) Pow.maxU256
    let expected ← Pow.calculateNewTarget last.difficultyTarget.toNat 0 0 0 0 Pow.maxU256
    if expected ≠ newDifficulty then fail .invalidProofOfWork else return ()
  else if header.difficultyTarget ≠ last.difficultyTarget then fail .invalidProofOfWork
  else .ok ()

/-- The block has to extend the last one. -/
def validateExtension (header : BlockHeader) (currentHeight : UInt64) : ConsensusResult Unit := do
  let latest ← asInternal (self.getLatestBlock env)
  let lastBlock ← okOr latest (.internal "Last block not found for validation")
  if header.previousBlockHash ≠ lastBlock.header.hash env then
    fail (.forkDetected header.previousBlockHash (lastBlock.header.hash env))
  else self.validateDifficulty env header lastBlock.header currentHeight

def validateHeader (header : BlockHeader) (currentHeight : UInt64) : ConsensusResult Unit := do
  if currentHeight > 0 then self.validateExtension env header currentHeight
  if !Pow.verifyPow env header header.difficultyTarget.toNat then fail .invalidProofOfWork
  else return ()

/-- A stable sort by fee, reversed. -/
def prioritize (transactions : List Transaction) : List Transaction :=
  (transactions.insertionSort fun a b => a.getFee ≤ b.getFee).reverse

/-- `drain(1..)` aborts on a block without transactions. -/
def sortTransactions : List Transaction → ConsensusResult (List Transaction)
  | [] => .error .panic
  | first :: rest => .ok (first :: prioritize rest)

def validateTransactionInputsAndScripts (tx : Transaction) (currentHeight : UInt64) :
    ConsensusResult Unit :=
  if !self.utxoSet.validateTransactionInputsWithParams tx currentHeight
      self.params.coinbaseMaturity then
    fail (.inputsInvalid (tx.txid env))
  else do
    if ← ScriptEngine.new.validateTransaction env tx self.utxoSet currentHeight then
      return ()
    else fail (.scriptsInvalid (tx.txid env))

/-- The signature of a proposal or of a vote, with the errors for a key that
cannot be read and for a signature that does not verify. -/
def checkSignature (publicKey message signature : Bytes) (badKey badSignature : String) :
    ConsensusResult Unit :=
  if !env.publicKeyFromBytes publicKey then fail (.invalidSignature badKey)
  else if !env.verify publicKey message signature then fail (.invalidSignature badSignature)
  else .ok ()

/-- The checks of `process_governance_proposal`. -/
def validateProposal (proposal : GovernanceProposal) (currentBlockHeight : UInt64) :
    ConsensusResult Unit :=
  let votingWindow := proposal.endBlockHeight - proposal.startBlockHeight + 1
  let totalStakeLocked := (proposal.outputs.map TxOutput.value).foldl (· + ·) 0
  if proposal.startBlockHeight ≤ currentBlockHeight then
    fail (.ruleViolation "Governance proposal voting start height must be in the future.")
  else if proposal.endBlockHeight ≤ proposal.startBlockHeight then
    fail (.ruleViolation "Governance proposal end height must be greater than start height.")
  else if votingWindow ≠ self.params.votingPeriodBlocks then
    fail (.votingWindowMismatch votingWindow self.params.votingPeriodBlocks)
  else if proposal.title.length > 128 then
    fail (.ruleViolation "Governance proposal title exceeds 128 characters.")
  else if proposal.inputs.isEmpty then
    fail (.ruleViolation "Governance proposal must include at least one input to lock stake.")
  else if proposal.outputs.isEmpty then
    fail (.ruleViolation "Governance proposal must include at least one output for stake escrow.")
  else if totalStakeLocked < self.params.proposalStakeAmount then
    fail (.stakeTooLow self.params.proposalStakeAmount)
  else if proposal.proposalId ≠ proposal.hash env then
    fail (.ruleViolation "Governance proposal ID does not match canonical hash.")
  else if !env.publicKeyFromBytes proposal.proposerAddress.toList then
    fail (.invalidSignature "Invalid proposer public key for governance proposal.")
  else if !env.signatureFromBytes proposal.proposerSignature.toList then
    fail (.invalidSignature "Invalid proposer signature encoding for governance proposal.")
  else if !env.verify proposal.proposerAddress.toList (proposal.canonicalBytes env)
      proposal.proposerSignature.toList then
    fail (.invalidSignature "Invalid proposer signature for governance proposal.")
  else .ok ()

variable (vote : GovernanceVote)

/-- The voter's ticket. -/
def validateTicketVoter : ConsensusResult Unit := do
  let ticket ← okOr (self.liveTickets.getTicketByPubkey vote.voterId.toList)
    (.invalidTicketVote "Voting ticket not found in live pool.")
  if ticket.status ≠ .live then fail (.invalidTicketVote "Voting ticket is not active.")
  else if ticket.pubkey.length ≠ 32 then
    fail (.invalidSignature "Invalid ticket public key length.")
  else
    checkSignature env ticket.pubkey (vote.canonicalBytes env)
      vote.voterSignature.toList "Invalid public key for ticket vote."
      "Invalid signature for ticket vote."

/-- The voting masternode. -/
def validateMasternodeVoter : ConsensusResult Unit := do
  let (_, mnEntry) ← okOr (self.masternodeList.findByOperatorKey vote.voterId.toList)
    (.masternodeError "Voting masternode not found or not active.")
  if mnEntry.status ≠ .active then fail (.masternodeError "Masternode voter is not active.")
  else if mnEntry.identity.operatorPublicKey.length ≠ 32 then
    fail (.invalidSignature "Invalid masternode operator public key length.")
  else
    checkSignature env mnEntry.identity.operatorPublicKey (vote.canonicalBytes env)
      vote.voterSignature.toList "Invalid public key for masternode vote."
      "Invalid signature for masternode vote."

/-- The checks of `process_governance_vote`. -/
def validateVote (currentBlockHeight : UInt64) : ConsensusResult Unit := do
  let proposal ← okOr (self.activeProposals.getProposal vote.proposalId)
    (.invalidTicketVote "Vote for non-existent proposal.")
  if currentBlockHeight < proposal.startBlockHeight ∨
      currentBlockHeight > proposal.endBlockHeight then
    fail (.invalidTicketVote "Vote outside of proposal voting period.")
  else if !env.signatureFromBytes vote.voterSignature.toList then
    fail (.invalidSignature "Invalid voter signature encoding.")
  else
    match vote.voterType with
    | .posTicket => self.validateTicketVoter env vote
    | .masternode => self.validateMasternodeVoter env vote

/-- `bincode::serialize` of a byte vector: its length in eight bytes, then it. -/
def serializeBytes (bytes : Bytes) : Bytes :=
  leBytes 8 bytes.length ++ bytes

/-- The proof of a slashing transaction is serialized before it is deserialized. -/
def validateSlash (slashTx : MasternodeSlashTx) : ConsensusResult Unit :=
  let proofData := serializeBytes slashTx.proof
  match slashTx.reason with
  | .masternodeNonResponse =>
    match env.deserializeNonParticipationProof proofData with
    | .error message =>
      fail (.serializationError ("Failed to deserialize non-participation proof: " ++ message))
    | .ok proof => self.liveTickets.validateNonParticipationProof proof self.masternodeList
  | .doubleSigning =>
    match env.deserializeMaliciousProof proofData with
    | .error message =>
      fail (.serializationError ("Failed to deserialize malicious proof: " ++ message))
    | .ok proof => self.liveTickets.validateMaliciousProof proof self.masternodeList
  | reason =>
    fail (.ruleViolation ("Unsupported slashing reason: " ++ debugReason reason))

variable {self}

def processGovernanceProposal (proposal : GovernanceProposal) (currentBlockHeight : UInt64) :
    Stateful ConsensusError (Blockchain F) Unit := do
  let proposals ← read fun chain => do
    chain.validateProposal env proposal currentBlockHeight
    chain.activeProposals.addProposal proposal
  modify fun chain => { chain with activeProposals := proposals }

def processGovernanceVote (currentBlockHeight : UInt64) :
    Stateful ConsensusError (Blockchain F) Unit := do
  let proposals ← read fun chain => do
    chain.validateVote env vote currentBlockHeight
    chain.activeProposals.recordVote vote
  modify fun chain => { chain with activeProposals := proposals }

/-- The body of the loop over the transactions. -/
def processTransaction (currentHeight : UInt64) (tx : Transaction) :
    Stateful ConsensusError (Blockchain F) Unit :=
  match tx with
  | .governanceProposal proposal => do
    processGovernanceProposal env proposal currentHeight
    read fun chain =>
      chain.validateTransactionInputsAndScripts env tx currentHeight
  | .governanceVote vote => do
    processGovernanceVote env vote currentHeight
    read fun chain =>
      chain.validateTransactionInputsAndScripts env tx currentHeight
  | .masternodeSlashTx slashTx => read fun chain => chain.validateSlash env slashTx
  | _ =>
    read fun chain =>
      chain.validateTransactionInputsAndScripts env tx currentHeight

/-- What the loop passes on, sorted again: slashing transactions are dropped. -/
def keptTransactions (transactions : List Transaction) : List Transaction :=
  prioritize (transactions.filter fun tx => !tx.isMasternodeSlash)

section

variable [F64 F] (self : Blockchain F)

/-- The rewards of a block for its miner and for its stakers. -/
structure BlockRewards where
  powReward : UInt64
  posReward : UInt64
  deriving DecidableEq

/-- What the inputs of a transaction exceed its outputs by. -/
def collectedFee (tx : Transaction) : UInt64 :=
  saturatingSub ((self.utxoSet.inputValues tx.getInputs).foldl (· + ·) 0)
    (tx.outputValues.foldl (· + ·) 0)

def blockRewards (height : UInt64) (transactions : List Transaction) :
    ConsensusResult BlockRewards := do
  let blockSubsidy ← BlockchainState.getBlockSubsidy height self.params.halvingInterval
    self.params.initialBlockReward
  let totalFees := (transactions.map self.collectedFee).foldl (· + ·) 0
  let totalReward := blockSubsidy + totalFees
  let posReward := F64.roundToU64
    (F64.mul (F64.ofU64 totalReward) self.params.posRewardRatio)
  return ⟨totalReward - posReward, posReward⟩

/-- The block with its reward in the first output of the coinbase, and the reward
of the stakers. `remove(0)` aborts if no transaction is left. -/
def rewardCoinbase (block : Block) : List Transaction → ConsensusResult (Block × UInt64)
  | [] => .error .panic
  | coinbaseTx :: transactions =>
    if !coinbaseTx.isCoinbase then
      fail (.invalidCoinbase "First transaction in block is not a coinbase transaction")
    else do
      let rewards ← self.blockRewards block.header.height transactions
      let actualOutputValue := coinbaseTx.outputValues.foldl (· + ·) 0
      if actualOutputValue > rewards.powReward then
        fail (.rewardExceeded rewards.powReward actualOutputValue)
      else
        match coinbaseTx.getOutputs with
        | [] =>
          fail (.invalidCoinbase "Coinbase transaction has no outputs to assign reward to.")
        | output :: outputs =>
          let rewarded := { output with value := rewards.powReward, memo := none }
          let coinbaseTx := coinbaseTx.setOutputs (rewarded :: outputs)
          return ({ block with transactions := coinbaseTx :: transactions }, rewards.posReward)

end

section

variable (self : Blockchain F)

/-- `MIN_VALID_VOTES_REQUIRED` -/
def minValidVotesRequired : Nat := 3

/-- The checks of one ticket vote, after those for repeated votes. -/
def validateTicketVote (header : BlockHeader) (expectedVoterIds : List TicketId)
    (vote : TicketVote) : ConsensusResult Unit :=
  if vote.ticketId ∉ expectedVoterIds then
    fail (.invalidTicketVote ("Ticket " ++ debugTicketId vote.ticketId ++
      " was not selected for voting on block " ++
      debugBytes header.previousBlockHash.toList))
  else do
    let ticket ← okOr (self.liveTickets.getTicket vote.ticketId)
      (.invalidTicket ("Voted ticket " ++ debugTicketId vote.ticketId ++ " not found in live pool"))
    if ticket.status ≠ .live then
      fail (.invalidTicket ("Ticket " ++ debugTicketId vote.ticketId ++
        " is not live (status: " ++ debugTicketStatus ticket.status ++ ")"))
    else if header.height ≥ ticket.height + self.params.ticketExpiry.toUInt64 then
      fail (.expiredTicket ("Ticket " ++ debugTicketId vote.ticketId ++ " has expired"))
    else if vote.blockHash ≠ header.previousBlockHash then
      fail (.invalidTicketVote ("Vote block_hash mismatch: expected " ++
        debugBytes header.previousBlockHash.toList ++ ", got " ++
        debugBytes vote.blockHash.toList))
    else
      match validateTicketSignature env ticket.pubkey vote.blockHash.toList
        vote.signature.toList with
      | none =>
        fail (.invalidSignature
          "Signature validation error: signature::Error \x7b source: None \x7d")
      | some false =>
        fail (.invalidSignature ("Invalid signature for ticket " ++ debugTicketId vote.ticketId))
      | some true =>
        if vote.vote > 2 then
          fail (.invalidTicketVote ("Invalid vote type " ++ toString vote.vote.toNat ++
            " for ticket " ++ debugTicketId vote.ticketId))
        else return ()

/-- The loop over the votes, with the tickets seen so far. -/
def validateTicketVotes (header : BlockHeader) (expectedVoterIds : List TicketId) :
    List TicketVote → List TicketId → ConsensusResult Unit
  | [], _ => .ok ()
  | vote :: votes, seenTickets =>
    if vote.ticketId ∈ seenTickets then
      fail (.invalidTicketVote "Duplicate ticket vote in block")
    else do
      self.validateTicketVote env header expectedVoterIds vote
      validateTicketVotes header expectedVoterIds votes (vote.ticketId :: seenTickets)

/-- Every vote that passes is valid. What is left to do about tickets that did
not vote is a log entry. -/
def validateProofOfStakeAndRewards (block : Block) (totalReward : UInt64) : ConsensusResult Unit :=
  if block.ticketVotes.isEmpty then .ok ()
  else if block.ticketVotes.length ≠ votersPerBlock then
    fail (.invalidTicketVote ("PoS block must contain exactly " ++ toString votersPerBlock ++
      " ticket votes, found " ++ toString block.ticketVotes.length))
  else do
    let expectedVoterIds := selectVoters env block.header.previousBlockHash self.liveTickets
    self.validateTicketVotes env block.header expectedVoterIds block.ticketVotes []
    let validVotes := block.ticketVotes.length
    if validVotes < minValidVotesRequired then fail .insufficientTicketVotes
    else if totalReward > 0 ∧ totalReward / UInt64.ofNat validVotes = 0 then
      fail (.ruleViolation "Reward per voter would be zero")
    else return ()

/-- The outputs that it makes are dropped; what is left is that every ticket that
voted is looked up. -/
def distributePosRewards (block : Block) : ConsensusResult Unit :=
  forM block.ticketVotes fun vote => do
    let _ ← okOr (self.liveTickets.getTicket vote.ticketId)
      (.invalidTicket ("Voted ticket " ++ debugBytes vote.ticketId.toList ++
        " not found in live pool"))
    return ()

def validateStake (block : Block) (posReward : UInt64) : ConsensusResult Unit :=
  if block.header.isProofOfStake then do
    self.validateProofOfStakeAndRewards env block posReward
    self.distributePosRewards block
  else .ok ()

end

/-- Registrations enter the list. A slashed masternode is banned, and for some
reasons removed; whether it was listed is not looked at. -/
def updateMasternodeList (height : UInt64) : Transaction →
    Stateful ConsensusError (Blockchain F) Unit
  | .masternodeRegister masternodeIdentity _ _ _ _ _ => do
    let list ← read fun chain =>
      match chain.masternodeList.registerMasternode (convertedIdentity masternodeIdentity)
        height.toUInt32 with
      | .error message => fail (.internal message)
      | .ok list => .ok list
    modify fun chain => { chain with masternodeList := list }
  | .masternodeSlashTx slashTx =>
    modify fun chain =>
      let banned :=
        match chain.masternodeList.updateMasternodeStatus slashTx.masternodeId .banned with
        | .error _ => chain.masternodeList
        | .ok list => list
      { chain with
        masternodeList :=
          match slashTx.reason with
          | .masternodeNonResponse => banned
          | _ => (banned.removeMasternode slashTx.masternodeId).2 }
  | _ => pure ()

/-- Unspent outputs, stored blocks and mempool are updated without a check. -/
def applyTransactions (block : Block) (self : Blockchain F) : Blockchain F :=
  { self with
    utxoSet := self.utxoSet.applyBlock env block block.header.height
    state := self.state.putBlock env block
    mempool := block.transactions.foldl
      (fun mempool tx => (mempool.removeTransaction (tx.txid env)).2) self.mempool }

variable {Digest : Type} [DecidableEq Digest] (roots : StateRoots Digest)

def ledger (self : Blockchain F) : Ledger where
  utxoSet := self.utxoSet
  liveTickets := self.liveTickets
  masternodeList := self.masternodeList
  activeProposals := self.activeProposals

def validateStateRoot (header : BlockHeader) (self : Blockchain F) : ConsensusResult Unit := do
  let root ← ofTrieResult roots.toBytes
    (BlockchainState.calculateStateRootFromMasternodeList roots.enc roots.hasher roots.order
      self.ledger)
  if header.stateRoot ≠ roots.toBytes root then
    fail (.stateRootMismatch (roots.toBytes root) header.stateRoot)
  else return ()

/-- What is done once the block has passed its checks. An error in the update of
the tickets is dropped. -/
def applyChecked (block : Block) : Stateful ConsensusError (Blockchain F) Unit := do
  modify (applyTransactions env block)
  forM block.transactions (updateMasternodeList block.header.height)
  (updateTickets env block).ignoring
  read (validateStateRoot roots block.header)
  modify fun chain =>
    { chain with state := chain.state.updateTip (block.hash env) block.header.height }

section

variable [F64 F] {Digest : Type} [DecidableEq Digest] (roots : StateRoots Digest)

/-- The height of the chain and the sorted transactions of a block with a valid
header. -/
def checkHeader (block : Block) (self : Blockchain F) :
    ConsensusResult (UInt64 × List Transaction) := do
  let currentHeight ← asInternal self.state.getCurrentBlockHeight
  let transactions ← sortTransactions block.transactions
  self.validateHeader env block.header currentHeight
  return (currentHeight, transactions)

/-- The block as it is applied. -/
def checkRewards (block : Block) (transactions : List Transaction) (self : Blockchain F) :
    ConsensusResult Block := do
  let (rewarded, posReward) ← self.rewardCoinbase block (keptTransactions transactions)
  self.validateStake env rewarded posReward
  return rewarded

def addBlock (block : Block) : Stateful ConsensusError (Blockchain F) Unit := do
  let (currentHeight, transactions) ← read (checkHeader env block)
  forM transactions (processTransaction env currentHeight)
  let rewarded ← read (checkRewards env block transactions)
  applyChecked env roots rewarded

end

end Blockchain

end RustyCoin
