import RustyCoin.Consensus.AddBlock

/-!
# The checks of `add_block`

Up to the point where a block is applied, adding it changes nothing but the
active proposals. The loop over the transactions records a proposal or a vote
and then looks at the transaction as a whole; neither of the later checks reads
the active proposals.
-/

namespace RustyCoin.Blockchain

open Outcome List

variable {F : Type} {env : Platform}

/-- The active proposals after the governance part of a transaction. -/
def recordedBy (env : Platform) (currentHeight : UInt64) (tx : Transaction)
    (self : Blockchain F) : ConsensusResult ActiveProposals :=
  match tx with
  | .governanceProposal proposal => do
    self.validateProposal env proposal currentHeight
    self.activeProposals.addProposal proposal
  | .governanceVote vote => do
    self.validateVote env vote currentHeight
    self.activeProposals.recordVote vote
  | _ => .ok self.activeProposals

/-- What is checked of a transaction once it has been recorded. -/
def inspect (env : Platform) (currentHeight : UInt64) (tx : Transaction)
    (self : Blockchain F) : ConsensusResult Unit :=
  match tx with
  | .masternodeSlashTx slashTx => self.validateSlash env slashTx
  | _ => self.validateTransactionInputsAndScripts env tx currentHeight

def withProposals (self : Blockchain F) (proposals : ActiveProposals) : Blockchain F :=
  { self with activeProposals := proposals }

variable (currentHeight : UInt64) (tx : Transaction) (chain : Blockchain F)

@[simp] theorem inspect_withProposals
    (proposals : ActiveProposals) :
    (chain.withProposals proposals).inspect env currentHeight tx =
      chain.inspect env currentHeight tx := by
  cases tx with
  | _ => rfl

theorem recordedBy_of_not_governance {tx : Transaction} (hplain : tx.isGovernance = false)
    (currentHeight : UInt64) (chain : Blockchain F) :
    chain.recordedBy env currentHeight tx = .ok chain.activeProposals := by
  cases tx with
  | governanceProposal => cases hplain
  | governanceVote => cases hplain
  | _ => rfl

variable (env) in
/-- The loop body records first and inspects afterwards. -/
theorem processTransaction_run :
    (processTransaction env currentHeight tx).run chain =
      match chain.recordedBy env currentHeight tx with
      | .error failure => (.error failure, chain)
      | .ok proposals =>
        (chain.inspect env currentHeight tx, chain.withProposals proposals) := by
  have hrecord : ∀ (read : Blockchain F → ConsensusResult ActiveProposals)
      (check : Blockchain F → ConsensusResult Unit)
      (_ : ∀ proposals, check (chain.withProposals proposals) = check chain),
      (do
        (do
          let proposals ← Stateful.read read
          Stateful.modify fun chain : Blockchain F => { chain with activeProposals := proposals })
        Stateful.read check : Stateful ConsensusError (Blockchain F) Unit).run chain =
      match read chain with
      | .error failure => (.error failure, chain)
      | .ok proposals => (check chain, chain.withProposals proposals) := by
    intro read check hcheck
    rw [bind_assoc, Stateful.run_read_bind]
    cases read chain with
    | error failure => rfl
    | ok proposals =>
      rw [← hcheck proposals]
      rfl
  cases tx with
  | governanceProposal proposal => exact hrecord _ _ fun _ => rfl
  | governanceVote vote => exact hrecord _ _ fun _ => rfl
  | _ => rfl

variable {currentHeight : UInt64} {tx : Transaction} {transactions : List Transaction}
  {chain : Blockchain F} {proposals : ActiveProposals} {failure : Failure ConsensusError}

theorem loop_of_record_error (hrecord : chain.recordedBy env currentHeight tx = .error failure) :
    (forM (tx :: transactions) (processTransaction env currentHeight)).run chain =
      (.error failure, chain) := by
  have htx := processTransaction_run env currentHeight tx chain
  simp only [hrecord] at htx
  rw [forM_cons, Stateful.run_bind_of_error htx]

variable (hrecord : chain.recordedBy env currentHeight tx = .ok proposals)

include hrecord

theorem loop_of_inspect_error
    (hinspect : chain.inspect env currentHeight tx = .error failure) :
    (forM (tx :: transactions) (processTransaction env currentHeight)).run chain =
      (.error failure, chain.withProposals proposals) := by
  have htx := processTransaction_run env currentHeight tx chain
  simp only [hrecord, hinspect] at htx
  rw [forM_cons, Stateful.run_bind_of_error htx]

theorem loop_of_passed
    (hinspect : chain.inspect env currentHeight tx = .ok ()) :
    (forM (tx :: transactions) (processTransaction env currentHeight)).run chain =
      (forM transactions (processTransaction env currentHeight)).run
        (chain.withProposals proposals) := by
  have htx := processTransaction_run env currentHeight tx chain
  simp only [hrecord, hinspect] at htx
  rw [forM_cons, Stateful.run_bind_of_ok htx]

omit hrecord

/-- A transaction that is neither a proposal nor a vote leaves the chain as it is. -/
theorem loop_of_plain (hplain : tx.isGovernance = false)
    (hinspect : chain.inspect env currentHeight tx = .ok ()) :
    (forM (tx :: transactions) (processTransaction env currentHeight)).run chain =
      (forM transactions (processTransaction env currentHeight)).run chain :=
  loop_of_passed (recordedBy_of_not_governance hplain currentHeight chain) hinspect

variable (env) in
/-- The loop touches the active proposals only. -/
theorem exists_withProposals (currentHeight : UInt64) (transactions : List Transaction)
    (chain : Blockchain F) :
    ∃ proposals, ((forM transactions (processTransaction env currentHeight)).run chain).2 =
      chain.withProposals proposals := by
  induction transactions generalizing chain with
  | nil => exact ⟨chain.activeProposals, rfl⟩
  | cons tx rest ih =>
    cases hrecord : chain.recordedBy env currentHeight tx with
    | error failure =>
      rw [loop_of_record_error hrecord]
      exact ⟨chain.activeProposals, rfl⟩
    | ok proposals =>
      cases hinspect : chain.inspect env currentHeight tx with
      | error failure =>
        rw [loop_of_inspect_error hrecord hinspect]
        exact ⟨proposals, rfl⟩
      | ok u =>
        rw [loop_of_passed hrecord hinspect]
        obtain ⟨later, hlater⟩ := ih (chain.withProposals proposals)
        exact ⟨later, hlater⟩

section

variable [F64 F]

omit [F64 F] in
theorem validateTicketVotes_withProposals (header : BlockHeader) (voters : List TicketId)
    (votes : List TicketVote) (seenTickets : List TicketId) (chain : Blockchain F)
    (proposals : ActiveProposals) :
    (chain.withProposals proposals).validateTicketVotes env header voters votes seenTickets =
      chain.validateTicketVotes env header voters votes seenTickets := by
  induction votes generalizing seenTickets with
  | nil => rfl
  | cons vote votes ih =>
    rw [validateTicketVotes, validateTicketVotes, ih]
    rfl

/-- The rewards do not depend on the active proposals. -/
theorem checkRewards_withProposals (block : Block) (transactions : List Transaction)
    (chain : Blockchain F) (proposals : ActiveProposals) :
    checkRewards env block transactions (chain.withProposals proposals) =
      checkRewards env block transactions chain := by
  have hvotes : (chain.withProposals proposals).validateTicketVotes env =
      chain.validateTicketVotes env := by
    funext header voters votes seenTickets
    exact validateTicketVotes_withProposals header voters votes seenTickets chain proposals
  have hstake : (chain.withProposals proposals).validateStake env =
      chain.validateStake env := by
    funext rewarded posReward
    rw [validateStake, validateProofOfStakeAndRewards, hvotes]
    rfl
  rw [checkRewards, hstake]
  rfl

end

section

theorem prioritize_perm (transactions : List Transaction) :
    (prioritize transactions).Perm transactions :=
  (reverse_perm _).trans (perm_insertionSort _ _)

variable {transactions : List Transaction} {tx : Transaction}

@[simp] theorem mem_prioritize : tx ∈ prioritize transactions ↔ tx ∈ transactions :=
  (prioritize_perm transactions).mem_iff

/-- Slashing transactions are the only ones that are dropped. -/
@[simp] theorem mem_keptTransactions :
    tx ∈ keptTransactions transactions ↔ tx ∈ transactions ∧ tx.isMasternodeSlash = false := by
  rw [keptTransactions, mem_prioritize, mem_filter, Bool.not_eq_true']

variable [F64 F] {chain : Blockchain F} {block rewarded : Block} {transactions : List Transaction}

/-- The reward goes to the first transaction, in its first output. -/
theorem rewardCoinbase_inv {posReward : UInt64}
    (hok : chain.rewardCoinbase block transactions = .ok (rewarded, posReward)) :
    ∃ coinbaseTx others rewards output outputs,
      transactions = coinbaseTx :: others ∧ coinbaseTx.isCoinbase = true ∧
      chain.blockRewards block.header.height others = .ok rewards ∧
      coinbaseTx.outputValues.foldl (· + ·) 0 ≤ rewards.powReward ∧
      coinbaseTx.getOutputs = output :: outputs ∧
      rewarded = { block with
        transactions := coinbaseTx.setOutputs
          ({ output with value := rewards.powReward, memo := none } :: outputs) :: others } := by
  cases transactions with
  | nil => cases hok
  | cons coinbaseTx others =>
    rw [rewardCoinbase, ite_fail_eq_ok] at hok
    obtain ⟨hcoinbase, hok⟩ := hok
    obtain ⟨rewards, hrewards, hok⟩ := bind_eq_ok.mp hok
    dsimp only at hok
    rw [ite_fail_eq_ok] at hok
    obtain ⟨hvalue, hok⟩ := hok
    cases houtputs : coinbaseTx.getOutputs with
    | nil =>
      rw [houtputs] at hok
      exact absurd hok (fail_ne_ok _ _)
    | cons output outputs =>
      rw [houtputs] at hok
      cases hok
      exact ⟨coinbaseTx, others, rewards, output, outputs, rfl, by simpa using hcoinbase,
        hrewards, UInt64.not_lt.mp hvalue, houtputs, rfl⟩

/-- No slashing transaction gets into the block that is applied. -/
theorem isMasternodeSlash_of_checkRewards
    (hok : checkRewards env block transactions chain = .ok rewarded) :
    ∀ tx ∈ rewarded.transactions, tx.isMasternodeSlash = false := by
  obtain ⟨⟨result, posReward⟩, hreward, hstake⟩ := bind_eq_ok.mp hok
  obtain ⟨_, _, hresult⟩ := bind_eq_ok.mp hstake
  cases hresult
  obtain ⟨coinbaseTx, others, rewards, output, outputs, hkept, hcoinbase, -, -, -, rfl⟩ :=
    rewardCoinbase_inv hreward
  rw [forall_mem_cons]
  constructor
  · cases coinbaseTx with
    | coinbase => rfl
    | _ => cases hcoinbase
  · intro tx htx
    have hmem : tx ∈ keptTransactions transactions := hkept ▸ mem_cons_of_mem _ htx
    exact (mem_keptTransactions.mp hmem).2

end

variable {block : Block} {first : Transaction} {rest : List Transaction}

/-- Without a stored height, all that is checked of a header is its work. -/
theorem checkHeader_of_no_height
    (hheight : chain.state.db.lookup BlockchainState.currentHeightKey = none)
    (hzero : ∀ bytes, env.blake3 bytes = .replicate 32 0)
    (htransactions : block.transactions = first :: rest) :
    checkHeader env block chain = .ok (0, first :: prioritize rest) := by
  rw [checkHeader, BlockchainState.getCurrentBlockHeight, hheight, htransactions]
  change (do
    chain.validateHeader env block.header 0
    return ((0 : UInt64), first :: prioritize rest) : ConsensusResult _) = _
  rw [validateHeader, Pow.verifyPow_of_zero hzero]
  rfl

section

variable [F64 F] {Digest : Type} [DecidableEq Digest] (roots : StateRoots Digest)
variable {block : Block} {chain next : Blockchain F} {currentHeight : UInt64}
  {transactions : List Transaction} {failure : Failure ConsensusError}

theorem addBlock_of_header_error (hheader : checkHeader env block chain = .error failure) :
    (addBlock env roots block).run chain = (.error failure, chain) := by
  rw [addBlock, Stateful.run_read_bind, hheader]

variable (hheader : checkHeader env block chain = .ok (currentHeight, transactions))
include hheader

theorem addBlock_of_loop_error
    (hloop : (forM transactions (processTransaction env currentHeight)).run chain =
      (.error failure, next)) :
    (addBlock env roots block).run chain = (.error failure, next) := by
  rw [addBlock, Stateful.run_read_bind, hheader]
  exact Stateful.run_bind_of_error hloop

/-- Once the loop is through, the rewards are checked as they were before it. -/
theorem addBlock_of_loop_ok
    (hloop : (forM transactions (processTransaction env currentHeight)).run chain =
      (.ok (), next)) :
    (addBlock env roots block).run chain =
      match checkRewards env block transactions chain with
      | .ok rewarded => (applyChecked env roots rewarded).run next
      | .error failure => (.error failure, next) := by
  obtain ⟨proposals, hnext⟩ := exists_withProposals env currentHeight transactions chain
  replace hnext : next = chain.withProposals proposals := by rw [hloop] at hnext; exact hnext
  rw [addBlock, Stateful.run_read_bind, hheader]
  change Stateful.run (forM transactions (processTransaction env currentHeight) >>= _) chain = _
  rw [Stateful.run_bind_of_ok hloop, Stateful.run_read_bind, hnext, checkRewards_withProposals]
  cases checkRewards env block transactions chain with
  | error failure => rfl
  | ok rewarded => rfl

end

end RustyCoin.Blockchain
