import RustyCoin.Consensus.CoinbaseAcceptance
import RustyCoin.Script.Aborts

/-!
# Blocks that abort the node

`add_block` aborts on a block without transactions, on every block that extends
the chain at the end of a difficulty window, on a script that aborts, and when it
is left without a coinbase or without a halving interval. The state root aborts
on a trie key that starts another one.
-/

namespace RustyCoin.Blockchain

open Outcome BlockchainState ConsensusError Transaction LiveTicketsPool Stateful List

variable {F : Type} (env : Platform)

section

variable (chain : Blockchain F) (header : BlockHeader) (currentHeight : UInt64)

/-- A difficulty window ends at the height, and its first block is there. A window
of zero always ends: it is divided by. -/
def WindowEnds : Prop :=
  let window := chain.params.difficultyAdjustmentWindow.toUInt64
  window = 0 ∨ currentHeight % window = 0 ∧
    ∃ first, chain.state.getBlock env (currentHeight - window) = .ok (some first)

/-- The header extends the last block at the end of a difficulty window. -/
def AtRetarget : Prop :=
  0 < currentHeight ∧
    (∃ last, chain.state.getBlock env currentHeight = .ok (some last) ∧
      header.previousBlockHash = last.header.hash env) ∧
    chain.WindowEnds env currentHeight

omit env in
theorem isError_getCurrentBlockHeight :
    FailsWith Failure.IsError chain.state.getCurrentBlockHeight := by
  rw [getCurrentBlockHeight]
  cases chain.state.db.lookup currentHeightKey with
  | none => exact failsWith_ok 0
  | some value => exact (failsWith_okOr _ _).mpr fun _ => trivial

theorem isError_getBlock (height : UInt64) :
    FailsWith Failure.IsError (chain.state.getBlock env height) := by
  rw [getBlock, failsWith_bind]
  constructor
  · rw [getBlockHash]
    cases chain.state.db.lookup (blockHashKey height) with
    | none => exact failsWith_ok none
    | some value => simp [Failure.IsError]
  · intro found _
    cases found with
    | none => exact failsWith_ok none
    | some hash =>
      dsimp only
      cases chain.state.db.lookup hash.toList with
      | none => exact failsWith_ok none
      | some data =>
        dsimp only
        cases env.deserializeBlock data with
        | error message => exact (failsWith_fail _).mpr trivial
        | ok block => exact failsWith_ok (some block)

/-- At the end of a window the second of the two targets is always calculated for
a timespan of zero. -/
theorem retarget_aborts (target : UInt32)
    (actualTimespan targetTimespan window maxTimespan : UInt64)
    (check : Nat → Nat → ConsensusResult Unit) :
    (do
      let newDifficulty ← Pow.calculateNewTarget target.toNat actualTimespan targetTimespan window
        maxTimespan Pow.maxU256
      let expected ← Pow.calculateNewTarget target.toNat 0 0 0 0 Pow.maxU256
      check newDifficulty expected) = .error .panic := by
  rw [Pow.calculateNewTarget_zero]
  by_cases hzero : targetTimespan = 0
  · rw [hzero, Pow.calculateNewTarget_zero, error_bind]
  · obtain ⟨newTarget, -, hok⟩ := Pow.calculateNewTarget_ok target actualTimespan window maxTimespan
      hzero Pow.maxU256
    rw [hok, ok_bind, error_bind]

variable {P : Failure ConsensusError → Prop} (herr : ∀ e, P (.err e))
include herr

theorem failsWith_getBlock (height : UInt64) : FailsWith P (chain.state.getBlock env height) :=
  (isError_getBlock env chain height).mono fun _ h => h.imp herr

theorem failsWith_validateDifficulty (last : BlockHeader) :
    FailsWith P (chain.validateDifficulty env header last currentHeight) ↔
      (chain.WindowEnds env currentHeight → P .panic) := by
  rw [validateDifficulty, WindowEnds]
  by_cases hzero : chain.params.difficultyAdjustmentWindow.toUInt64 = 0
  · simp [hzero]
  · by_cases hend : currentHeight % chain.params.difficultyAdjustmentWindow.toUInt64 = 0
    · rw [if_neg hzero, if_pos hend, failsWith_bind_okOr (herr _)]
      simp [retarget_aborts, hzero, hend, failsWith_getBlock env chain herr]
    · simp [hzero, hend, herr]

theorem failsWith_validateExtension (hpos : 0 < currentHeight)
    (hheight : chain.state.getCurrentBlockHeight = .ok currentHeight) :
    FailsWith P (chain.validateExtension env header currentHeight) ↔
      (chain.AtRetarget env header currentHeight → P .panic) := by
  have hlatest : chain.getLatestBlock env =
      asInternal (chain.state.getBlock env currentHeight) := by
    rw [getLatestBlock, hheight]
    exact if_neg (Ne.symm (UInt64.ne_of_lt hpos))
  rw [validateExtension, hlatest, failsWith_bind_okOr (herr _), AtRetarget]
  simp [failsWith_asInternal herr, asInternal_eq_ok,
    failsWith_getBlock env chain herr,
    failsWith_validateDifficulty env chain header currentHeight herr, hpos, herr]

theorem failsWith_validateHeader (hheight : chain.state.getCurrentBlockHeight = .ok currentHeight) :
    FailsWith P (chain.validateHeader env header currentHeight) ↔
      (chain.AtRetarget env header currentHeight → P .panic) := by
  have hwork : FailsWith P (if (!Pow.verifyPow env header header.difficultyTarget.toNat) = true
      then fail .invalidProofOfWork else return () : ConsensusResult Unit) := by
    simp [herr]
  rw [validateHeader]
  by_cases hpos : currentHeight > 0
  · rw [if_pos hpos, failsWith_bind, and_iff_left fun _ _ => hwork]
    exact failsWith_validateExtension env chain header currentHeight herr hpos hheight
  · rw [if_neg hpos]
    exact iff_of_true hwork fun h => absurd h.1 hpos

/-- The header is checked unless there are no transactions or a window ends. -/
theorem failsWith_checkHeader (block : Block) :
    FailsWith P (checkHeader env block chain) ↔
      ∀ currentHeight, chain.state.getCurrentBlockHeight = .ok currentHeight →
        block.transactions = [] ∨ chain.AtRetarget env block.header currentHeight →
        P .panic := by
  have hread : FailsWith P (asInternal chain.state.getCurrentBlockHeight) :=
    (failsWith_asInternal herr).mpr
      ((isError_getCurrentBlockHeight chain).mono fun _ h => h.imp herr)
  rw [checkHeader, failsWith_bind, and_iff_right hread]
  simp only [asInternal_eq_ok]
  refine forall₂_congr fun currentHeight hheight => ?_
  cases block.transactions with
  | nil => simp [sortTransactions]
  | cons first rest =>
    simp [sortTransactions,
      failsWith_validateHeader env chain block.header currentHeight herr hheight]

end

section

variable (currentHeight : UInt64) (chain : Blockchain F)

/-- The inputs of a transaction are valid, and its scripts abort. -/
def TransactionAborts (tx : Transaction) : Prop :=
  tx.isMasternodeSlash = false ∧
    chain.utxoSet.validateTransactionInputsWithParams tx currentHeight
      chain.params.coinbaseMaturity = true ∧
    ScriptEngine.ScriptsAbort env tx chain.utxoSet currentHeight .new

/-- The loop over the transactions gets to one that aborts. -/
def LoopAborts (transactions : List Transaction) : Prop :=
  ∃ before tx after, transactions = before ++ tx :: after ∧
    chain.Recordable env currentHeight chain.activeProposals (before ++ [tx]) ∧
    (∀ other ∈ before, chain.inspect env currentHeight other = .ok ()) ∧
    chain.TransactionAborts env currentHeight tx

variable {P : Failure ConsensusError → Prop} (herr : ∀ e, P (.err e))
include herr

theorem failsWith_inspect (tx : Transaction) :
    FailsWith P (chain.inspect env currentHeight tx) ↔
      (chain.TransactionAborts env currentHeight tx → P .panic) := by
  have hchecked : FailsWith P
      (chain.validateTransactionInputsAndScripts env tx currentHeight) ↔
        (chain.utxoSet.validateTransactionInputsWithParams tx currentHeight
            chain.params.coinbaseMaturity = true ∧
          ScriptEngine.ScriptsAbort env tx chain.utxoSet currentHeight .new → P .panic) := by
    rw [validateTransactionInputsAndScripts, failsWith_ite, failsWith_bind,
      ScriptEngine.failsWith_validateTransaction]
    simp [herr]
  cases tx with
  | masternodeSlashTx slashTx =>
    refine iff_of_true ?_ fun h => Bool.noConfusion h.1
    exact (otherError_validateSlash env chain slashTx).mono fun _ h => h.isError.imp herr
  | _ => exact hchecked.trans (by simp [TransactionAborts, isMasternodeSlash])

theorem failsWith_transactions (transactions : List Transaction) :
    FailsWith P ((forM transactions (processTransaction env currentHeight)).run chain).1 ↔
      (chain.LoopAborts env currentHeight transactions → P .panic) := by
  rw [failsWith_loop env currentHeight chain transactions fun tx proposals =>
    (otherError_recordedBy env _ currentHeight tx).mono fun _ h => h.isError.imp herr]
  simp only [failsWith_inspect env currentHeight chain herr, LoopAborts]
  constructor
  · rintro h ⟨before, tx, after, hsplit, hrecordable, hpassed, haborts⟩
    exact h before tx after hsplit hrecordable hpassed haborts
  · intro h before tx after hsplit hrecordable hpassed haborts
    exact h ⟨before, tx, after, hsplit, hrecordable, hpassed, haborts⟩

end

section

variable [F64 F] (chain : Blockchain F)

/-- No transaction is left to be the coinbase, or there is one and its reward
cannot be calculated. -/
def RewardsAbort (transactions : List Transaction) : Prop :=
  (∀ tx ∈ transactions, tx.isMasternodeSlash = true) ∨
    chain.params.halvingInterval = 0 ∧
      ∃ coinbase others, keptTransactions transactions = coinbase :: others ∧
        coinbase.isCoinbase = true

variable {P : Failure ConsensusError → Prop} (herr : ∀ e, P (.err e))
include herr

omit env in
theorem failsWith_rewardCoinbase (block : Block) (coinbase : Transaction)
    (others : List Transaction) :
    FailsWith P (chain.rewardCoinbase block (coinbase :: others)) ↔
      (chain.params.halvingInterval = 0 ∧ coinbase.isCoinbase = true → P .panic) := by
  have hsubsidy : FailsWith P (chain.blockRewards block.header.height others) ↔
      (chain.params.halvingInterval = 0 → P .panic) := by
    simp [blockRewards, getBlockSubsidy]
  rw [rewardCoinbase]
  cases coinbase.isCoinbase with
  | false => simp [herr]
  | true =>
    cases coinbase.getOutputs with
    | nil => simp [hsubsidy, herr]
    | cons output outputs => simp [hsubsidy, herr]

theorem failsWith_checkRewards (block : Block) (transactions : List Transaction) :
    FailsWith P (checkRewards env block transactions chain) ↔
      (chain.RewardsAbort transactions → P .panic) := by
  have hstake : ∀ rewarded posReward,
      FailsWith P (chain.validateStake env rewarded posReward) := fun rewarded posReward =>
    (otherError_validateStake env chain rewarded posReward).mono fun _ h => h.isError.imp herr
  have hsplit : FailsWith P (checkRewards env block transactions chain) ↔
      FailsWith P (chain.rewardCoinbase block (keptTransactions transactions)) := by
    simp [checkRewards, hstake]
  have hslash : (∀ tx ∈ transactions, tx.isMasternodeSlash = true) ↔
      keptTransactions transactions = [] := by
    simp [eq_nil_iff_forall_not_mem]
  rw [hsplit, RewardsAbort, hslash]
  cases keptTransactions transactions with
  | nil => simp [rewardCoinbase]
  | cons coinbase others => simp [failsWith_rewardCoinbase chain herr]

end

section

variable {Digest : Type} [DecidableEq Digest] (roots : StateRoots Digest)

theorem isError_addPurchase (height : UInt64) (tx : Transaction) (pool : LiveTicketsPool) :
    FailsWith Failure.IsError ((addPurchase env height tx).run pool).1 := by
  cases tx with
  | ticketPurchase _ _ outputs _ _ _ _ ticketAddress _ =>
    have hticket : FailsWith Failure.IsError
        (purchasedTicket env height outputs ticketAddress) := by
      cases outputs with
      | nil => simp [purchasedTicket, Failure.IsError]
      | cons ticketOutput rest => simp [purchasedTicket, Failure.IsError]
    rw [addPurchase, failsWith_run_bind]
    exact ⟨hticket, fun _ _ _ => failsWith_ok ()⟩
  | _ => exact failsWith_ok ()

theorem isError_updateTickets (block : Block) (chain : Blockchain F) :
    FailsWith Failure.IsError ((updateTickets env block).run chain).1 := by
  have hloop := failsWith_run_forM (isError_addPurchase env block.header.height) block.transactions
  rw [updateTickets, run_read_bind]
  change FailsWith _ ((updateForNewBlock env block _).run chain.liveTickets).1
  rw [updateForNewBlock, run_bind_of_ok (run_modify _), failsWith_run_bind]
  exact ⟨hloop _, fun _ _ _ => failsWith_ok ()⟩

variable {P : Failure ConsensusError → Prop} (herr : ∀ e, P (.err e))
  (hfree : roots.hasher.CollisionFree)

include herr hfree

omit env in
theorem failsWith_validateStateRoot (header : BlockHeader) (chain : Blockchain F) :
    FailsWith P (validateStateRoot roots header chain) ↔
      ((MerklePatriciaTrie.new roots.hasher).MeetsLeaf
        (insertedEntries roots.enc roots.order chain.ledger) → P .panic) := by
  have hroot := failsWith_calculateStateRoot (P := Failure.Uncaught P) roots.enc roots.order
    chain.ledger (fun _ => trivial) hfree
  rw [validateStateRoot, failsWith_bind, failsWith_ofTrieResult herr, hroot]
  simp [herr, Failure.Uncaught]

/-- A block that has passed its checks aborts the node only in the state root. -/
theorem failsWith_applyChecked (block : Block) (chain : Blockchain F) :
    FailsWith P ((applyChecked env roots block).run chain).1 ↔
      ∀ registered, (forM block.transactions (updateMasternodeList block.header.height)).run
          (applyTransactions env block chain) = (.ok (), registered) →
        (MerklePatriciaTrie.new roots.hasher).MeetsLeaf (insertedEntries roots.enc roots.order
          ((updateTickets env block).run registered).2.ledger) → P .panic := by
  have hregister : FailsWith P ((forM block.transactions
      (updateMasternodeList block.header.height)).run (applyTransactions env block chain)).1 :=
    failsWith_run_forM (fun tx next => (otherError_updateMasternodeList next _ tx).mono
      fun _ h => h.isError.imp herr) _ _
  rw [applyChecked, run_modify_bind, failsWith_run_bind, and_iff_right hregister]
  refine Unique.forall_iff.trans (forall₂_congr fun registered _ => ?_)
  rw [run_bind_of_ok (run_ignoring_of_isError (isError_updateTickets env block registered)),
    failsWith_run_bind]
  have hroot := failsWith_validateStateRoot roots herr hfree block.header
    ((updateTickets env block).run registered).2
  simp [Stateful.read, hroot]

end

section

variable [F64 F] {Digest : Type} [DecidableEq Digest] (roots : StateRoots Digest)
variable (block : Block) (chain : Blockchain F)

/-- The ways in which a block aborts the node. -/
inductive Aborts : Prop
  | noTransactions {currentHeight : UInt64}
      (height : chain.state.getCurrentBlockHeight = .ok currentHeight)
      (empty : block.transactions = [])
  | retarget {currentHeight : UInt64}
      (height : chain.state.getCurrentBlockHeight = .ok currentHeight)
      (due : chain.AtRetarget env block.header currentHeight)
  | script {currentHeight : UInt64} {transactions : List Transaction}
      (header : checkHeader env block chain = .ok (currentHeight, transactions))
      (loop : chain.LoopAborts env currentHeight transactions)
  | rewards {currentHeight : UInt64} {transactions : List Transaction}
      (header : checkHeader env block chain = .ok (currentHeight, transactions))
      (recordable : chain.Recordable env currentHeight chain.activeProposals transactions)
      (passed : ∀ tx ∈ transactions, chain.inspect env currentHeight tx = .ok ())
      (rewards : chain.RewardsAbort transactions)
  | stateRoot {currentHeight : UInt64} {transactions : List Transaction} {rewarded : Block}
      {next registered : Blockchain F}
      (header : checkHeader env block chain = .ok (currentHeight, transactions))
      (loop : (forM transactions (processTransaction env currentHeight)).run chain = (.ok (), next))
      (rewards : checkRewards env block transactions chain = .ok rewarded)
      (registers : (forM rewarded.transactions
        (updateMasternodeList rewarded.header.height)).run (applyTransactions env rewarded next) =
          (.ok (), registered))
      (keys : (MerklePatriciaTrie.new roots.hasher).MeetsLeaf (insertedEntries roots.enc roots.order
        ((updateTickets env rewarded).run registered).2.ledger))

variable {P : Failure ConsensusError → Prop}

/-- A block fails where one of the stages of adding it does. -/
theorem failsWith_addBlock :
    FailsWith P ((addBlock env roots block).run chain).1 ↔
      FailsWith P (checkHeader env block chain) ∧
      ∀ currentHeight transactions,
        checkHeader env block chain = .ok (currentHeight, transactions) →
        FailsWith P ((forM transactions (processTransaction env currentHeight)).run chain).1 ∧
        ∀ next, (forM transactions (processTransaction env currentHeight)).run chain =
            (.ok (), next) →
          FailsWith P (checkRewards env block transactions chain) ∧
          ∀ rewarded, checkRewards env block transactions chain = .ok rewarded →
            FailsWith P ((applyChecked env roots rewarded).run next).1 := by
  cases hheader : checkHeader env block chain with
  | error failure =>
    rw [addBlock_of_header_error roots hheader]
    simp
  | ok checked =>
    obtain ⟨currentHeight, transactions⟩ := checked
    have hchecked : ∀ {Q : UInt64 → List Transaction → Prop},
        (∀ h txs, (.ok (currentHeight, transactions) : ConsensusResult _) = .ok (h, txs) →
          Q h txs) ↔ Q currentHeight transactions := by
      intro Q
      constructor
      · exact fun h => h _ _ rfl
      · rintro h _ _ ⟨⟩
        exact h
    rw [and_iff_right (failsWith_ok _), hchecked]
    rcases hloop : (forM transactions (processTransaction env currentHeight)).run chain with
      ⟨failure | u, next⟩
    · rw [addBlock_of_loop_error roots hheader hloop]
      simp
    · rw [addBlock_of_loop_ok roots hheader hloop]
      cases checkRewards env block transactions chain with
      | error failure => simp
      | ok rewarded => simp

variable {roots block chain} (hfree : roots.hasher.CollisionFree)

include hfree

theorem failsWith_addBlock_iff (herr : ∀ e, P (.err e)) :
    FailsWith P ((addBlock env roots block).run chain).1 ↔
      (chain.Aborts env roots block → P .panic) := by
  rw [failsWith_addBlock, failsWith_checkHeader env chain herr]
  constructor
  · rintro ⟨hheader, hrest⟩ haborts
    cases haborts with
    | noTransactions height empty => exact hheader _ height (.inl empty)
    | retarget height due => exact hheader _ height (.inr due)
    | script header loop =>
      exact (failsWith_transactions env _ chain herr _).mp (hrest _ _ header).1 loop
    | rewards header recordable passed rewards =>
      have hok := (loop_ok_iff env _ chain _).mpr ⟨recordable, passed⟩
      obtain ⟨hrewards, -⟩ := (hrest _ _ header).2 _ (Prod.ext hok rfl)
      exact (failsWith_checkRewards env chain herr block _).mp hrewards rewards
    | stateRoot header loop rewards registers keys =>
      have happly := ((hrest _ _ header).2 _ loop).2 _ rewards
      exact (failsWith_applyChecked env roots herr hfree _ _).mp happly _ registers keys
  · intro hpanic
    refine ⟨?_, fun currentHeight transactions header => ⟨?_, fun next loop => ⟨?_, ?_⟩⟩⟩
    · rintro currentHeight height (empty | due)
      · exact hpanic (.noTransactions height empty)
      · exact hpanic (.retarget height due)
    · exact (failsWith_transactions env currentHeight chain herr transactions).mpr
        fun loop => hpanic (.script header loop)
    · obtain ⟨recordable, passed⟩ :=
        (loop_ok_iff env currentHeight chain transactions).mp (congrArg Prod.fst loop)
      exact (failsWith_checkRewards env chain herr block transactions).mpr
        fun rewards => hpanic (.rewards header recordable passed rewards)
    · intro rewarded rewards
      exact (failsWith_applyChecked env roots herr hfree rewarded next).mpr
        fun _ registers keys => hpanic (.stateRoot header loop rewards registers keys)

/-- `add_block` aborts the node in the ways that are listed, and returns otherwise. -/
theorem addBlock_returns_iff :
    (((addBlock env roots block).run chain).1 = .error .panic ↔ chain.Aborts env roots block) ∧
      (FailsWith Failure.IsError ((addBlock env roots block).run chain).1 ↔
        ¬ chain.Aborts env roots block) := by
  have hpanic : FailsWith (· ≠ .panic) ((addBlock env roots block).run chain).1 ↔ _ :=
    failsWith_addBlock_iff env hfree fun _ => nofun
  refine ⟨?_, failsWith_addBlock_iff env hfree fun _ => trivial⟩
  constructor
  · intro hpanics
    by_contra hnot
    exact hpanic.mpr (fun haborts => absurd haborts hnot) .panic hpanics rfl
  · intro haborts
    by_contra hne
    exact hpanic.mp (fun failure h heq => hne (heq ▸ h)) haborts rfl

omit hfree

omit env in
/-- A block that is accepted, up to its state root. -/
theorem addBlock_returns_iff_firstCoinbase :
    let chain := withNull (some ⟨⟨20000000000, [0x51], none⟩, false, 0⟩)
    ((addBlock Platform.blank StateRoots.plain (blockOf [firstCoinbase])).run chain).1 = .ok () ∧
      ¬ chain.Aborts Platform.blank StateRoots.plain (blockOf [firstCoinbase]) := by
  intro chain
  have hok : ((addBlock Platform.blank StateRoots.plain (blockOf [firstCoinbase])).run chain).1 =
      .ok () := by
    decide +kernel
  refine ⟨hok, (addBlock_returns_iff Platform.blank TrieHasher.plain_collisionFree).2.mp ?_⟩
  rw [hok]
  exact failsWith_ok ()

omit env in
/-- A block without transactions aborts the node from the start. -/
theorem addBlock_aborts_without_transactions :
    ((addBlock Platform.blank StateRoots.plain (blockOf [])).run (new : Blockchain Rat)).1 =
      .error .panic :=
  rfl

end

variable (chain : Blockchain F)

/-- The parameters that are divided by are not zero, and no division aborts. -/
structure WellDefined : Prop where
  divides : chain.params.Divides
  subsidy : ∀ height, FailsWith Failure.IsError (getBlockSubsidy height
    chain.params.halvingInterval chain.params.initialBlockReward)
  retarget : ∀ header height, chain.state.getCurrentBlockHeight = .ok height →
    FailsWith Failure.IsError (chain.validateHeader env header height)

/-- At the end of a window a timespan of zero is divided by, whatever the parameters are. -/
theorem wellDefined_iff : chain.WellDefined env ↔ chain.params.Divides ∧
    ∀ header height, chain.state.getCurrentBlockHeight = .ok height →
      ¬ chain.AtRetarget env header height := by
  have hheader := fun header height => failsWith_validateHeader env chain header height
    (P := Failure.IsError) fun _ => trivial
  constructor
  · rintro ⟨hdivides, -, hretarget⟩
    exact ⟨hdivides, fun header height h => (hheader header height h).mp (hretarget _ _ h)⟩
  · rintro ⟨hdivides, hretarget⟩
    refine ⟨hdivides, ?_, fun header height h => (hheader header height h).mpr (hretarget _ _ h)⟩
    intro height
    rw [getBlockSubsidy, if_neg hdivides.1]
    dsimp only
    split <;> exact failsWith_ok _

/-- Over all changes of parameters. -/
theorem stays_wellDefined_iff [F64 F] (changes : List (String × String)) :
    (∀ front, front <+: changes →
      { chain with params := chain.params.applyAll front }.WellDefined env) ↔
      (chain.params.Divides ∧ ∀ change ∈ changes, ¬ ConsensusParams.SetsZero change) ∧
        ∀ front, front <+: changes → ∀ header height,
          chain.state.getCurrentBlockHeight = .ok height → ¬ { chain with
            params := chain.params.applyAll front }.AtRetarget env header height := by
  rw [← ConsensusParams.divides_applyAll, ← forall₂_and]
  exact forall₂_congr fun front _ => wellDefined_iff env _

theorem halving_interval_zero :
    let params : ConsensusParams Rat := .applyAll .default [("halving_interval", "0")]
    params.halvingInterval = 0 ∧
      getBlockSubsidy 1 params.halvingInterval params.initialBlockReward = .error .panic := by
  decide +kernel

end RustyCoin.Blockchain
