import RustyCoin.Lib.AtMostOnce
import RustyCoin.Sidechain.CrossChainProcessor

/-!
# No cross-chain transaction is executed twice

The processor runs in any order of its two calls, and the queue, the federation
and the main chain change in between as they like. The identifiers in the pools,
those that were submitted, and the statuses form a `Docket`: each call changes
it by the rules for work that is done at most once.
-/

namespace RustyCoin.Sidechain.CrossChainProcessor

open AtMostOnce Stateful List

variable (txs : List CrossChainTransaction)

def ids : List Hash :=
  txs.map CrossChainTransaction.id

/-- The identifier in every slot of the pools. -/
def pooledIds (pools : HashMap Hash (List CrossChainTransaction)) : List Hash :=
  pools.toPairs.flatMap fun entry => ids entry.2

/-- The identifiers that the main chain has taken. -/
def submittedIds (results : List ExecutionResult) : List Hash :=
  results.filterMap fun
    | .submittedToMainchain id _ => some id
    | _ => none

variable (pools : HashMap Hash (List CrossChainTransaction)) (chainId : Hash)

theorem pooledIds_insert :
    pooledIds (pools.insert chainId txs) = ids txs ++ pooledIds (pools.erase chainId) := by
  rw [pooledIds, HashMap.toPairs_insert, flatMap_cons, pooledIds]

theorem pooledIds_perm :
    (pooledIds pools).Perm
      (ids ((pools.lookup chainId).getD []) ++ pooledIds (pools.erase chainId)) := by
  apply ((HashMap.toPairs_perm pools chainId).flatMap_right _).trans
  rw [flatMap_append]
  cases pools.lookup chainId with
  | none => exact .refl _
  | some txs =>
    show ((ids txs ++ []) ++ _).Perm _
    rw [append_nil]
    exact .refl _

section

variable {K S : Type} {env : Platform} {codec : PayloadCodec} {crypto : ThresholdCrypto K S}

/-- No identifier waits twice or was submitted twice, and what is executed does not wait. -/
def Safe (retired : Set Hash) (submitted : List Hash) (processor : CrossChainProcessor) : Prop :=
  Docket .executed retired (pooledIds processor.txPools) submitted processor.processedTxs

variable {retired : Set Hash} {submitted : List Hash} {processor : CrossChainProcessor}

variable {tx : CrossChainTransaction}

/-- A new transaction is put into one slot. -/
theorem Safe.addToPool (h : Safe retired submitted processor) (chainId : Hash)
    (hnew : processor.processedTxs.lookup tx.id = none) :
    Safe retired submitted (processor.addToPool chainId tx) := by
  apply (Docket.receive h hnew .received nofun).perm
  show (tx.id :: pooledIds processor.txPools).Perm (pooledIds (processor.txPools.insert chainId _))
  rw [pooledIds_insert, ids, map_append, map_singleton, append_assoc]
  apply ((pooledIds_perm processor.txPools chainId).cons tx.id).trans
  exact perm_middle.symm

variable (message : CrossChainMessage)

theorem preserves_processCrossChainTransactionMessage :
    Stateful.Preserves (Safe retired submitted)
      (processCrossChainTransactionMessage codec crypto message) := by
  intro processor hsafe
  rw [processCrossChainTransactionMessage, run_read_bind]
  cases message.deserializePayload codec.transaction with
  | error e => exact hsafe
  | ok tx =>
    show Safe retired submitted (run (.read _ >>= _) processor).2
    rw [run_read_bind]
    cases hseen : processor.processedTxs.lookup tx.id with
    | some status => exact hsafe
    | none =>
      show Safe retired submitted (run (.read _ >>= _) processor).2
      rw [run_read_bind]
      cases processor.validateCrossChainTransaction crypto tx with
      | error e => exact hsafe
      | ok => exact hsafe.addToPool message.destinationChain hseen

theorem preserves_processMessage :
    Stateful.Preserves (Safe retired submitted)
      (processMessage env codec crypto message) := by
  refine (preserves_read _).bind fun _ => ?_
  cases message.messageType with
  | crossChainTransaction => exact preserves_processCrossChainTransactionMessage message
  | mainchainBlockHeader =>
    refine (preserves_read _).bind fun header => ?_
    exact (preserves_read _).bind fun _ => preserves_pure _
  | sidechainBlockHeader =>
    exact (preserves_read _).bind fun _ => preserves_pure _
  | fraudProof => exact preserves_pure _
  | federationUpdate => exact preserves_pure _
  | stateSyncRequest => exact preserves_pure _
  | stateSyncResponse => exact preserves_pure _

theorem preserves_processMessages (chainId : Hash) :
    Stateful.Preserves (Safe retired submitted)
      (processMessages env codec crypto chainId) := by
  refine (preserves_read _).bind fun messages => ?_
  refine Stateful.Preserves.bind (preserves_modify ?_) fun _ => ?_
  · exact fun _ h => h
  · exact preserves_mapM preserves_processMessage

@[simp] theorem submittedIds_append (results results' : List ExecutionResult) :
    submittedIds (results ++ results') = submittedIds results ++ submittedIds results' :=
  filterMap_append

/-- Executing a transaction leaves the pools and statuses to the caller. -/
theorem executeTransaction_frame (self : CrossChainProcessor) (tx : CrossChainTransaction) :
    (self.executeTransaction tx).2.txPools = self.txPools ∧
      (self.executeTransaction tx).2.processedTxs = self.processedTxs := by
  rw [executeTransaction]
  split
  · rw [executeToMainchain]
    cases self.mainchainInterface with
    | none => exact ⟨rfl, rfl⟩
    | some mainchain =>
      cases createMainchainTransaction tx with
      | error => exact ⟨rfl, rfl⟩
      | ok => exact ⟨rfl, rfl⟩
  · exact ⟨rfl, rfl⟩

/-- A transaction that is executed is submitted under its own identifier or not at all. -/
theorem submittedIds_of_executed {self : CrossChainProcessor}
    {result : ExecutionResult} (h : (self.executeTransaction tx).1 = .ok result) :
    submittedIds [result] = [tx.id] ∨ submittedIds [result] = [] := by
  rw [executeTransaction] at h
  split at h
  · rw [executeToMainchain] at h
    cases hmainchain : self.mainchainInterface with
    | none =>
      rw [hmainchain] at h
      cases h
    | some mainchain =>
      rw [hmainchain] at h
      cases hcreated : createMainchainTransaction tx with
      | error e =>
        rw [hcreated] at h
        cases h
      | ok mainchainTx =>
        rw [hcreated] at h
        change (mainchain.submitTransaction _ mainchainTx).map _ = .ok result at h
        cases hsubmitted : mainchain.submitTransaction mainchain.submissions mainchainTx with
        | error e =>
          rw [hsubmitted] at h
          cases h
        | ok txHash =>
          rw [hsubmitted] at h
          cases h
          exact .inl rfl
  · cases h
    exact .inr rfl

/-- In a round the pools are left alone, and what is still to be tried, what is to be put back
and what waits elsewhere are the waiting ones. -/
structure InRound (retired : Set Hash) (submitted others : List Hash)
    (pools : HashMap Hash (List CrossChainTransaction)) (todo : List CrossChainTransaction)
    (round : Round) : Prop where
  pools_eq : round.processor.txPools = pools
  docket : Docket .executed retired (ids todo ++ (ids round.remainingTxs ++ others))
    (submitted ++ submittedIds round.results) round.processor.processedTxs

variable {others : List Hash} {pools : HashMap Hash (List CrossChainTransaction)}

variable {todo : List CrossChainTransaction} {round : Round}

theorem InRound.execute (h : InRound retired submitted others pools (tx :: todo) round) :
    InRound retired submitted others pools todo (round.execute tx) := by
  obtain ⟨hpools, hprocessed⟩ := executeTransaction_frame round.processor tx
  have hdocket : Docket .executed retired
      (tx.id :: (ids todo ++ (ids round.remainingTxs ++ others)))
      (submitted ++ submittedIds round.results)
      (round.processor.executeTransaction tx).2.processedTxs := by
    rw [hprocessed]
    exact h.docket
  rw [← h.pools_eq, ← hpools, Round.execute]
  cases hexecuted : round.processor.executeTransaction tx with
  | mk answer processor =>
    rw [hexecuted] at hdocket
    cases answer with
    | ok result =>
      refine ⟨rfl, ?_⟩
      show Docket .executed retired (ids todo ++ (ids round.remainingTxs ++ others))
        (submitted ++ submittedIds (round.results ++ [result]))
        (processor.processedTxs.insert tx.id .executed)
      have hresult : (round.processor.executeTransaction tx).1 = .ok result := by rw [hexecuted]
      rw [submittedIds_append]
      cases submittedIds_of_executed hresult with
      | inl hsubmitted =>
        rw [hsubmitted, ← append_assoc submitted]
        exact hdocket.finish
      | inr hqueued =>
        rw [hqueued, append_nil]
        exact hdocket.drop
    | error e =>
      refine ⟨rfl, ?_⟩
      show Docket .executed retired (ids todo ++ (ids (round.remainingTxs ++ [tx]) ++ others))
        (submitted ++ submittedIds (round.results ++ [.failed tx.id e]))
        (processor.processedTxs.insert tx.id .failed)
      have hnothing : submittedIds [.failed tx.id e] = [] := rfl
      have hback : ids todo ++ (ids (round.remainingTxs ++ [tx]) ++ others) =
          (ids todo ++ ids round.remainingTxs) ++ tx.id :: others := by
        simp [ids]
      rw [submittedIds_append, hnothing, append_nil, hback]
      apply (hdocket.retry .failed nofun).perm
      rw [← append_assoc]
      exact perm_middle.symm

theorem InRound.foldl (h : InRound retired submitted others pools todo round) :
    InRound retired submitted others pools [] (todo.foldl Round.execute round) := by
  induction todo generalizing round with
  | nil => exact h
  | cons tx todo ih => exact ih h.execute

theorem Safe.executePendingTransactions (h : Safe retired submitted processor) (chainId : Hash) :
    Safe retired
      (submitted ++ submittedIds (processor.executePendingTransactions chainId).1)
      (processor.executePendingTransactions chainId).2 := by
  cases hpool : processor.txPools.lookup chainId with
  | none =>
    have hidle : processor.executePendingTransactions chainId = ([], processor) := by
      rw [CrossChainProcessor.executePendingTransactions, drainPool, hpool]
      show ([], processor.extendPool chainId []) = _
      rw [extendPool, hpool]
    rw [hidle]
    show Safe retired (submitted ++ []) processor
    rw [append_nil]
    exact h
  | some txs =>
    let drained : CrossChainProcessor :=
      { processor with txPools := processor.txPools.insert chainId [] }
    let round := txs.foldl Round.execute ⟨drained, [], []⟩
    have hexecuted : processor.executePendingTransactions chainId =
        (round.results, round.processor.extendPool chainId round.remainingTxs) := by
      rw [CrossChainProcessor.executePendingTransactions, drainPool, hpool]
    have hstart : InRound retired submitted (pooledIds (processor.txPools.erase chainId))
        drained.txPools txs ⟨drained, [], []⟩ := by
      refine ⟨rfl, ?_⟩
      show Docket .executed retired
        (ids txs ++ ([] ++ pooledIds (processor.txPools.erase chainId))) (submitted ++ [])
        processor.processedTxs
      have hperm := pooledIds_perm processor.txPools chainId
      rw [hpool] at hperm
      rw [nil_append, append_nil]
      exact Docket.perm h hperm
    obtain ⟨hpools, hdocket⟩ := hstart.foldl
    change round.processor.txPools = processor.txPools.insert chainId [] at hpools
    have hextended : round.processor.extendPool chainId round.remainingTxs =
        { round.processor with
          txPools := processor.txPools.insert chainId round.remainingTxs } := by
      rw [extendPool, hpools, AList.lookup_insert]
      show { round.processor with
        txPools := (processor.txPools.insert chainId []).insert chainId round.remainingTxs } = _
      rw [AList.insert_insert]
    rw [hexecuted, hextended]
    show Docket .executed retired
      (pooledIds (processor.txPools.insert chainId round.remainingTxs))
      (submitted ++ submittedIds round.results) round.processor.processedTxs
    rw [pooledIds_insert]
    exact hdocket

end

variable {K S : Type} (env : Platform) (codec : PayloadCodec) (crypto : ThresholdCrypto K S)

/-- The two calls of the processor, and a change of what it is connected to. -/
inductive Event where
  | processMessages (chainId : Hash)
  | executePendingTransactions (chainId : Hash)
  | environment (communication : CrossChainCommunication)
      (mainchainInterface : Option MainchainInterface) (federationManager : FederationManager)

/-- A processor and the results of all its executions. -/
structure Trace where
  processor : CrossChainProcessor
  results : List ExecutionResult

def Trace.step (trace : Trace) : Event → Trace
  | .processMessages chainId =>
    { trace with
      processor := ((processMessages env codec crypto chainId).run trace.processor).2 }
  | .executePendingTransactions chainId =>
    { processor := (trace.processor.executePendingTransactions chainId).2
      results := trace.results ++ (trace.processor.executePendingTransactions chainId).1 }
  | .environment communication mainchainInterface federationManager =>
    { trace with
      processor := { trace.processor with
        communication := communication
        mainchainInterface := mainchainInterface
        federationManager := federationManager } }

def Trace.run (trace : Trace) (events : List Event) : Trace :=
  events.foldl (Trace.step env codec crypto) trace

variable (communication : CrossChainCommunication) (federationManager : FederationManager)

def Trace.new :
    Trace where
  processor := .new communication federationManager
  results := []

def Trace.Safe (retired : Set Hash) (trace : Trace) : Prop :=
  trace.processor.Safe retired (submittedIds trace.results)

theorem Trace.safe_new : (new communication federationManager).Safe ∅ :=
  Docket.empty CrossChainTxStatus.executed

variable {env codec crypto}

variable {retired : Set Hash} {trace : Trace}

theorem Trace.Safe.step (h : trace.Safe retired)
    (event : Event) : (trace.step env codec crypto event).Safe retired := by
  cases event with
  | processMessages chainId => exact preserves_processMessages chainId trace.processor h
  | executePendingTransactions chainId =>
    show CrossChainProcessor.Safe retired (submittedIds (trace.results ++ _)) _
    rw [submittedIds_append]
    exact CrossChainProcessor.Safe.executePendingTransactions h chainId
  | environment communication mainchainInterface federationManager => exact h

theorem Trace.Safe.run (h : trace.Safe retired)
    (events : List Event) : (trace.run env codec crypto events).Safe retired :=
  Prefixes.foldl_invariant (Trace.step env codec crypto) h
    (fun _ event hsafe => hsafe.step event) events

/-- Whatever happens, no identifier is submitted twice or sits in two slots of the pools, and one
that was executed is in none of them ever after. -/
theorem cross_chain_at_most_once (env : Platform) (codec : PayloadCodec)
    (crypto : ThresholdCrypto K S) (communication : CrossChainCommunication)
    (federationManager : FederationManager) (events : List Event) :
    let start := Trace.new communication federationManager
    let final := start.run env codec crypto events
    (submittedIds final.results).Nodup ∧ (pooledIds final.processor.txPools).Nodup ∧
      ∀ front more id, front ++ more = events →
        (start.run env codec crypto front).processor.processedTxs.lookup id = some .executed →
        id ∉ pooledIds final.processor.txPools := by
  intro start final
  have hstart : start.Safe ∅ := Trace.safe_new communication federationManager
  have hfinal : final.Safe ∅ := hstart.run events
  refine ⟨hfinal.finished_nodup, hfinal.pooled_nodup, ?_⟩
  rintro front more id hsplit hexecuted
  -- from here on what is executed by now counts as retired
  have hfront : (start.run env codec crypto front).Safe ∅ := hstart.run front
  let retired : Set Hash := {id |
    (start.run env codec crypto front).processor.processedTxs.lookup id = some .executed}
  have hretired : (start.run env codec crypto front).Safe retired := Docket.retire hfront
  have hafter : final.Safe retired := by
    show (events.foldl (Trace.step env codec crypto) start).Safe retired
    rw [← hsplit, foldl_append]
    exact hretired.run more
  exact hafter.not_mem_pooled (hafter.retired_done id hexecuted)

end RustyCoin.Sidechain.CrossChainProcessor
