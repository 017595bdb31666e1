import RustyCoin.Consensus.ApplyChecked
import RustyCoin.Consensus.RevertBlock
import RustyCoin.Consensus.TransactionLoop

/-!
# A block that is turned down

`add_block` returns an error from many places, and by then it may have changed
the chain. A proposal or a vote is recorded before the rest of its transaction
is looked at, and once the rewards are settled every component is updated before
the last checks. What a failed call leaves behind is therefore a matter of how
far it got.
-/

namespace RustyCoin

open HashMap List

namespace ActiveProposals

open Outcome

variable {self next : ActiveProposals}

theorem size_addProposal {proposal : GovernanceProposal}
    (hok : self.addProposal proposal = .ok next) : self.size < next.size := by
  rw [addProposal, ite_fail_eq_ok] at hok
  obtain ⟨hfresh, hnext⟩ := hok
  cases hnext
  refine total_lt_insert _ ?_
  rw [measureAt, Option.not_isSome_iff_eq_none.mp hfresh]
  exact Nat.succ_pos _

theorem size_recordVote {vote : GovernanceVote} (hok : self.recordVote vote = .ok next) :
    self.size < next.size := by
  obtain ⟨⟨proposal, votes⟩, hentry, hrest⟩ := bind_eq_ok.mp hok
  dsimp only at hrest
  rw [ite_fail_eq_ok] at hrest
  obtain ⟨hfresh, hnext⟩ := hrest
  cases hnext
  refine total_lt_insert _ ?_
  rw [measureAt, okOr_eq_ok.mp hentry, len_insert (Option.not_isSome_iff_eq_none.mp hfresh)]
  exact Nat.lt_succ_self _

end ActiveProposals

namespace BlockchainState

/-- The key of a height is shorter than a hash. -/
theorem toList_ne_blockHashKey (hash : Hash) (height : UInt64) :
    hash.toList ≠ blockHashKey height := by
  intro heq
  have htag : "block_hash_".toUTF8.toList.length = 11 := by
    rw [Utf8.toList_eq]
    decide
  have hdigits : (Nat.toDigits 10 height.toNat).length ≤ 20 :=
    (Nat.length_toDigits_le_iff (by decide) (by decide)).mpr
      (Nat.lt_trans height.toNat_lt (by decide))
  have hlength := congrArg List.length heq
  rw [blockHashKey, Utf8.toList_append, length_append, htag, Utf8.length_repr,
    hash.toList_length] at hlength
  omega

end BlockchainState

namespace Blockchain

open Outcome LiveTicketsPool

variable {F : Type} {env : Platform}

/-- The loop gets to a proposal or a vote, and records it. -/
def Records (env : Platform) (currentHeight : UInt64) (self : Blockchain F) :
    List Transaction → Prop
  | [] => False
  | tx :: rest =>
    if tx.isGovernance then ∃ proposals, self.recordedBy env currentHeight tx = .ok proposals
    else
      self.inspect env currentHeight tx = .ok () ∧ Records env currentHeight self rest

variable {currentHeight : UInt64} {transactions : List Transaction} {chain : Blockchain F}

variable {tx : Transaction} {proposals : ActiveProposals}

theorem size_recordedBy (hgovernance : tx.isGovernance = true)
    (hrecord : chain.recordedBy env currentHeight tx = .ok proposals) :
    chain.activeProposals.size < proposals.size := by
  cases tx with
  | governanceProposal proposal =>
    obtain ⟨_, _, hadd⟩ := bind_eq_ok.mp hrecord
    exact ActiveProposals.size_addProposal hadd
  | governanceVote vote =>
    obtain ⟨_, _, hvote⟩ := bind_eq_ok.mp hrecord
    exact ActiveProposals.size_recordVote hvote
  | _ => cases hgovernance

theorem size_le_recordedBy (hrecord : chain.recordedBy env currentHeight tx = .ok proposals) :
    chain.activeProposals.size ≤ proposals.size := by
  cases hgovernance : tx.isGovernance with
  | true => exact Nat.le_of_lt (size_recordedBy hgovernance hrecord)
  | false =>
    rw [recordedBy_of_not_governance hgovernance] at hrecord
    cases hrecord
    exact Nat.le_refl _

/-- The loop never takes back a proposal or a vote. -/
theorem size_le_loop (transactions : List Transaction) (chain : Blockchain F) :
    chain.activeProposals.size ≤
      ((forM transactions (processTransaction env currentHeight)).run
        chain).2.activeProposals.size := by
  induction transactions generalizing chain with
  | nil => exact Nat.le_refl _
  | cons tx rest ih =>
    cases hrecord : chain.recordedBy env currentHeight tx with
    | error failure =>
      rw [loop_of_record_error hrecord]
    | ok proposals =>
      have hsize := size_le_recordedBy hrecord
      cases hinspect : chain.inspect env currentHeight tx with
      | error failure =>
        rw [loop_of_inspect_error hrecord hinspect]
        exact hsize
      | ok u =>
        rw [loop_of_passed hrecord hinspect]
        exact Nat.le_trans hsize (ih (chain.withProposals proposals))

theorem size_lt_loop (hrecords : chain.Records env currentHeight transactions) :
    chain.activeProposals.size <
      ((forM transactions (processTransaction env currentHeight)).run
        chain).2.activeProposals.size := by
  induction transactions with
  | nil => cases hrecords
  | cons tx rest ih =>
    cases hgovernance : tx.isGovernance with
    | false =>
      rw [Records, hgovernance] at hrecords
      rw [loop_of_plain hgovernance hrecords.1]
      exact ih hrecords.2
    | true =>
      rw [Records, hgovernance] at hrecords
      obtain ⟨proposals, hrecord⟩ := hrecords
      have hsize := size_recordedBy hgovernance hrecord
      cases hinspect : chain.inspect env currentHeight tx with
      | error failure =>
        rw [loop_of_inspect_error hrecord hinspect]
        exact hsize
      | ok u =>
        rw [loop_of_passed hrecord hinspect]
        exact Nat.lt_of_lt_of_le hsize (size_le_loop rest (chain.withProposals proposals))

/-- A loop that records nothing leaves the chain as it is, and is through only if
there was nothing to record. -/
theorem loop_of_not_records (hnot : ¬ chain.Records env currentHeight transactions) :
    ((forM transactions (processTransaction env currentHeight)).run chain).2 = chain ∧
      (((forM transactions (processTransaction env currentHeight)).run chain).1 = .ok () ↔
        ∀ tx ∈ transactions,
          tx.isGovernance = false ∧ chain.inspect env currentHeight tx = .ok ()) := by
  induction transactions with
  | nil => exact ⟨rfl, by simp⟩
  | cons tx rest ih =>
    cases hgovernance : tx.isGovernance with
    | false =>
      cases hinspect : chain.inspect env currentHeight tx with
      | error failure =>
        rw [loop_of_inspect_error (recordedBy_of_not_governance hgovernance _ _) hinspect]
        exact ⟨rfl, by simp [hinspect]⟩
      | ok u =>
        rw [Records, hgovernance] at hnot
        rw [loop_of_plain hgovernance hinspect, forall_mem_cons]
        have hrest := ih fun h => hnot ⟨hinspect, h⟩
        exact ⟨hrest.1, hrest.2.trans ⟨fun h => ⟨⟨hgovernance, hinspect⟩, h⟩, And.right⟩⟩
    | true =>
      cases hrecord : chain.recordedBy env currentHeight tx with
      | error failure =>
        rw [loop_of_record_error hrecord]
        exact ⟨rfl, by simp [hgovernance]⟩
      | ok proposals =>
        rw [Records, hgovernance] at hnot
        exact absurd ⟨proposals, hrecord⟩ hnot

/-- The two chains hold the same unspent outputs, tickets, masternodes, proposals
with their votes, blocks and waiting transactions. -/
structure SameStore (chain other : Blockchain F) : Prop where
  utxoSet : chain.utxoSet.utxos.SameEntries other.utxoSet.utxos
  liveTickets : chain.liveTickets.tickets.SameEntries other.liveTickets.tickets
  masternodeList : chain.masternodeList.map.SameEntries other.masternodeList.map
  activeProposals : chain.activeProposals.SameContents other.activeProposals
  db : chain.state.db.SameEntries other.state.db
  mempool : chain.mempool.transactions.SameEntries other.mempool.transactions

theorem SameStore.refl (chain : Blockchain F) : chain.SameStore chain where
  utxoSet := .refl _
  liveTickets := .refl _
  masternodeList := .refl _
  activeProposals := .refl _
  db := .refl _
  mempool := .refl _

/-- The pool is already as the block would make it. -/
@[mk_iff]
structure TicketsSettled (env : Platform) (chain : Blockchain F) (block : Block) : Prop where
  bought : ∀ ticketId ticket,
    lastAt ticketId (addedTickets env block.header.height block.transactions) = some ticket →
      chain.liveTickets.getTicket ticketId = some (settleTicket
        (purchasesReadable env block.header.height block.transactions)
        block.header.height ticket)
  kept : ∀ ticketId ticket,
    lastAt ticketId (addedTickets env block.header.height block.transactions) = none →
      chain.liveTickets.getTicket ticketId = some ticket →
        ticketId ∉ chain.utxoSet.getUsedInputsAsTicketIds ∧
          settleTicket (purchasesReadable env block.header.height block.transactions)
            block.header.height ticket = ticket

/-- The chain is already as the block would make it. -/
structure AlreadyApplied (env : Platform) (chain : Blockchain F) (block : Block) : Prop where
  /-- The outputs of the block are there, and the others that it spends are not. -/
  outputs : ∀ outpoint utxo,
    lastAt outpoint (block.createdEntries env block.header.height) = some utxo →
      chain.utxoSet.getUtxo outpoint = some utxo
  inputs : ∀ outpoint ∈ block.spentOutpoints, outpoint ∉ block.createdOutpoints env →
    chain.utxoSet.getUtxo outpoint = none
  stored : chain.state.db.lookup (block.hash env).toList = some (env.serializeBlock block)
  indexed : chain.state.db.lookup (BlockchainState.blockHashKey block.header.height) =
    some (block.hash env).toList
  mempool : ∀ tx ∈ block.transactions, chain.mempool.transactions.lookup (tx.txid env) = none
  /-- The first registration is turned down, or there is none. -/
  masternodes : ∀ mnId, block.registeredMasternodes.head? = some mnId →
    (chain.masternodeList.map.lookup mnId).isSome
  tickets : block.registeredMasternodes = [] → chain.TicketsSettled env block

variable (env) in
theorem sameUtxos_iff (set : UtxoSet) (block : Block) (height : UInt64) :
    (set.applyBlock env block height).utxos.SameEntries set.utxos ↔
      (∀ outpoint utxo, lastAt outpoint (block.createdEntries env height) = some utxo →
        set.getUtxo outpoint = some utxo) ∧
      ∀ outpoint ∈ block.spentOutpoints, outpoint ∉ block.createdOutpoints env →
        set.getUtxo outpoint = none := by
  rw [sameEntries_iff, ← forall_and]
  refine forall_congr' fun outpoint => ?_
  have hcreated := lastAt_eq_none outpoint (block.createdEntries env height)
  rw [Block.createdEntries, mem_createdEntries_iff, ← Block.createdEntries,
    ← Block.createdOutpoints] at hcreated
  rw [← hcreated]
  change (set.applyBlock env block height).getUtxo outpoint = set.getUtxo outpoint ↔ _
  rw [UtxoSet.getUtxo_applyBlock]
  cases lastAt outpoint (block.createdEntries env height) with
  | some utxo => simp [eq_comm]
  | none =>
    by_cases hspent : outpoint ∈ block.spentOutpoints
    · simp [hspent, eq_comm]
    · simp [hspent]

variable (env) in
theorem sameDb_iff (state : BlockchainState) (block : Block) :
    (state.putBlock env block).db.SameEntries state.db ↔
      state.db.lookup (block.hash env).toList = some (env.serializeBlock block) ∧
      state.db.lookup (BlockchainState.blockHashKey block.header.height) =
        some (block.hash env).toList := by
  have hne := BlockchainState.toList_ne_blockHashKey (block.hash env) block.header.height
  have hlookup (key : Bytes) : (state.putBlock env block).db.lookup key = _ :=
    (lookup_insert_eq _ _ _ key).trans (congrArg _ (lookup_insert_eq _ _ _ key))
  rw [sameEntries_iff]
  constructor
  · intro h
    constructor
    · rw [← h, hlookup, if_neg hne, if_pos rfl]
    · rw [← h, hlookup, if_pos rfl]
  · rintro ⟨hstored, hindexed⟩ key
    rw [hlookup]
    split
    · rename_i hkey
      rw [hkey, hindexed]
    · split
      · rename_i hhash
        rw [hhash, hstored]
      · rfl

variable (env) in
theorem sameMempool_iff (mempool : Mempool) (transactions : List Transaction) :
    (transactions.foldl (fun mempool tx => (mempool.removeTransaction (tx.txid env)).2)
        mempool).transactions.SameEntries mempool.transactions ↔
      ∀ tx ∈ transactions, mempool.transactions.lookup (tx.txid env) = none := by
  have hremoved : (transactions.foldl
      (fun mempool tx => (mempool.removeTransaction (tx.txid env)).2) mempool).transactions =
        mempool.transactions.eraseAll (transactions.map (Transaction.txid env)) := by
    rw [eraseAll, foldl_map]
    exact (foldl_hom Mempool.transactions fun _ _ => rfl).symm
  rw [hremoved, sameEntries_iff]
  constructor
  · intro h tx htx
    rw [← h, lookup_eraseAll, if_pos (mem_map_of_mem htx)]
  · intro h txid
    rw [lookup_eraseAll]
    split
    · rename_i hmem
      obtain ⟨tx, htx, rfl⟩ := mem_map.mp hmem
      exact (h tx htx).symm
    · rfl

theorem sameTickets_iff {chain : Blockchain F} {block : Block} {used : List TicketId}
    (hused : ∀ ticketId, ticketId ∈ used ↔ ticketId ∈ chain.utxoSet.getUsedInputsAsTicketIds) :
    ((updateForNewBlock env block used).run chain.liveTickets).2.tickets.SameEntries
        chain.liveTickets.tickets ↔ chain.TicketsSettled env block := by
  rw [sameEntries_iff, ticketsSettled_iff, ← forall_and]
  refine forall_congr' fun ticketId => ?_
  refine (Eq.congr_left (getTicket_updateForNewBlock _ _ _ _)).trans ?_
  simp only [hused]
  change _ = chain.liveTickets.getTicket ticketId ↔ _
  cases lastAt ticketId (addedTickets env block.header.height block.transactions) with
  | some ticket => simp [eq_comm]
  | none =>
    cases chain.liveTickets.getTicket ticketId with
    | none => simp
    | some ticket =>
      by_cases hmem : ticketId ∈ chain.utxoSet.getUsedInputsAsTicketIds
      all_goals simp [hmem]

section

variable {Digest : Type} [DecidableEq Digest] {roots : StateRoots Digest} {block : Block}
  {chain chain' : Blockchain F} {e : ConsensusError}

section

variable (hslash : ∀ tx ∈ block.transactions, tx.isMasternodeSlash = false)
  (hrun : (applyChecked env roots block).run chain = (.error (.err e), chain'))
include hslash hrun

theorem sameMasternodes_iff :
    chain'.masternodeList.map.SameEntries chain.masternodeList.map ↔
      ∀ mnId, block.registeredMasternodes.head? = some mnId →
        (chain.masternodeList.map.lookup mnId).isSome := by
  rw [masternodeList_of_applyChecked_error hrun]
  cases hregistered : block.registeredMasternodes with
  | nil =>
    rw [masternodeLoop_of_none hslash hregistered]
    exact ⟨fun _ => by simp, fun _ => .refl _⟩
  | cons mnId rest =>
    have hfirst : (block.transactions.filterMap Transaction.registeredMasternode?).head? =
        some mnId := congrArg List.head? hregistered
    simp only [head?_cons, Option.some.injEq, forall_eq']
    cases hlookup : chain.masternodeList.map.lookup mnId with
    | some entry =>
      obtain ⟨_, hloop⟩ := masternodeLoop_of_listed block.header.height
        (applyTransactions env block chain) hslash hfirst hlookup
      rw [hloop]
      exact ⟨fun _ => rfl, fun _ => .refl _⟩
    | none =>
      have hnew := masternodeLoop_of_fresh block.header.height
        (applyTransactions env block chain) hslash hfirst hlookup
      refine ⟨fun hsame => ?_, nofun⟩
      rw [sameEntries_iff.mp hsame mnId, hlookup] at hnew
      exact hnew

/-- The pool is reached only if no masternode registers, as long as the list is to
stay as it is. -/
theorem sameTickets_of_applyChecked_error
    (hutxos : chain'.utxoSet.utxos.SameEntries chain.utxoSet.utxos)
    (hmasternodes : ∀ mnId, block.registeredMasternodes.head? = some mnId →
      (chain.masternodeList.map.lookup mnId).isSome) :
    chain'.liveTickets.tickets.SameEntries chain.liveTickets.tickets ↔
      (block.registeredMasternodes = [] → chain.TicketsSettled env block) := by
  cases hregistered : block.registeredMasternodes with
  | nil =>
    have hloop : (forM block.transactions (updateMasternodeList block.header.height)).run
        (applyTransactions env block chain) =
          (.ok (), applyTransactions env block chain) :=
      masternodeLoop_of_none hslash hregistered
    rcases applyChecked_error hrun with herror | ⟨listed, hlisted, rfl, -⟩
    · rw [hloop] at herror
      cases herror
    · rw [hloop] at hlisted
      cases hlisted
      rw [updateTickets_run] at hutxos ⊢
      have hused : ∀ ticketId, ticketId ∈
            (applyTransactions env block chain).utxoSet.getUsedInputsAsTicketIds ↔
          ticketId ∈ chain.utxoSet.getUsedInputsAsTicketIds := by
        intro ticketId
        have hget : ∀ outpoint,
            (applyTransactions env block chain).utxoSet.getUtxo outpoint =
              chain.utxoSet.getUtxo outpoint := sameEntries_iff.mp hutxos
        simp only [UtxoSet.mem_getUsedInputsAsTicketIds, hget]
      exact (sameTickets_iff hused).trans ⟨fun h _ => h, fun h => h rfl⟩
  | cons mnId rest =>
    have hfirst : (block.transactions.filterMap Transaction.registeredMasternode?).head? =
        some mnId := congrArg List.head? hregistered
    obtain ⟨entry, hlookup⟩ := Option.isSome_iff_exists.mp
      (hmasternodes mnId (congrArg List.head? hregistered))
    obtain ⟨_, hloop⟩ := masternodeLoop_of_listed block.header.height
      (applyTransactions env block chain) hslash hfirst hlookup
    rcases applyChecked_error hrun with herror | ⟨listed, hlisted, -⟩
    · rw [hloop] at herror
      cases herror
      exact ⟨fun _ => nofun, fun _ => .refl _⟩
    · rw [hloop] at hlisted
      cases hlisted

/-- Once a block is being applied, a failure leaves the chain as it was only if
there was nothing left to apply. -/
theorem applyChecked_error_iff : chain'.SameStore chain ↔ chain.AlreadyApplied env block := by
  have huntouched := untouched_of_applyChecked_error hrun
  simp only [untouched, Prod.mk.injEq] at huntouched
  obtain ⟨hutxoSet, hstate, hproposals, hmempool⟩ := huntouched
  have hutxos := sameUtxos_iff env chain.utxoSet block block.header.height
  change (applyTransactions env block chain).utxoSet.utxos.SameEntries _ ↔ _ at hutxos
  rw [← hutxoSet] at hutxos
  have hdb := sameDb_iff env chain.state block
  change (applyTransactions env block chain).state.db.SameEntries _ ↔ _ at hdb
  rw [← hstate] at hdb
  have hwaiting := sameMempool_iff env chain.mempool block.transactions
  change (applyTransactions env block chain).mempool.transactions.SameEntries _ ↔ _ at hwaiting
  rw [← hmempool] at hwaiting
  have hmasternodes := sameMasternodes_iff hslash hrun
  constructor
  · intro h
    have happlied := hutxos.mp h.utxoSet
    have hstored := hdb.mp h.db
    have hlisted := hmasternodes.mp h.masternodeList
    exact
      { outputs := happlied.1
        inputs := happlied.2
        stored := hstored.1
        indexed := hstored.2
        mempool := hwaiting.mp h.mempool
        masternodes := hlisted
        tickets := (sameTickets_of_applyChecked_error hslash hrun h.utxoSet hlisted).mp
          h.liveTickets }
  · intro h
    have hsame := hutxos.mpr ⟨h.outputs, h.inputs⟩
    exact
      { utxoSet := hsame
        liveTickets := (sameTickets_of_applyChecked_error hslash hrun hsame h.masternodes).mpr
          h.tickets
        masternodeList := hmasternodes.mpr h.masternodes
        activeProposals := by
          rw [hproposals]
          exact .refl _
        db := hdb.mpr ⟨h.stored, h.indexed⟩
        mempool := hwaiting.mpr h.mempool }

end

variable [F64 F]

variable {currentHeight : UInt64} {transactions : List Transaction}

variable (hheader : checkHeader env block chain = .ok (currentHeight, transactions))

include hheader

theorem activeProposals_of_error
    (hrun : (addBlock env roots block).run chain = (.error (.err e), chain')) :
    chain'.activeProposals = ((forM transactions (processTransaction env currentHeight)).run
      chain).2.activeProposals := by
  rcases hloop : (forM transactions (processTransaction env currentHeight)).run chain with
    ⟨failure | u, next⟩
  · rw [addBlock_of_loop_error roots hheader hloop] at hrun
    exact (congrArg (fun result => result.2.activeProposals) hrun).symm
  · rw [addBlock_of_loop_ok roots hheader hloop] at hrun
    cases hrewards : checkRewards env block transactions chain with
    | error failure =>
      rw [hrewards] at hrun
      exact (congrArg (fun result => result.2.activeProposals) hrun).symm
    | ok rewarded =>
      rw [hrewards] at hrun
      exact congrArg (fun parts => parts.2.2.1) (untouched_of_applyChecked_error hrun)

/-- What keeps a block that is turned down from leaving a trace. -/
structure FailsClean (env : Platform) (block : Block) (chain : Blockchain F) : Prop where
  /-- No proposal and no vote is recorded on the way. -/
  records : ∀ currentHeight transactions,
    checkHeader env block chain = .ok (currentHeight, transactions) →
      ¬ chain.Records env currentHeight transactions
  /-- If the block passes what is checked of it beforehand, it has nothing to change. -/
  applied : ∀ currentHeight transactions rewarded,
    checkHeader env block chain = .ok (currentHeight, transactions) →
    (∀ tx ∈ transactions, tx.isGovernance = false ∧ chain.inspect env currentHeight tx = .ok ()) →
    checkRewards env block transactions chain = .ok rewarded → chain.AlreadyApplied env rewarded

theorem failsClean_iff
    (hrecords : ¬ chain.Records env currentHeight transactions) :
    chain.FailsClean env block ↔
      ((forM transactions (processTransaction env currentHeight)).run chain).1 = .ok () →
        ∀ rewarded, checkRewards env block transactions chain = .ok rewarded →
          chain.AlreadyApplied env rewarded := by
  rw [(loop_of_not_records hrecords).2]
  constructor
  · intro hclean hplain rewarded hrewards
    exact hclean.applied currentHeight transactions rewarded hheader hplain hrewards
  · intro happlied
    constructor
    · intro height sorted hsorted
      rw [hheader] at hsorted
      cases hsorted
      exact hrecords
    · intro height sorted rewarded hsorted hplain hrewards
      rw [hheader] at hsorted
      cases hsorted
      exact happlied hplain rewarded hrewards

omit hheader

/-- When `add_block` returns an error, unspent outputs, tickets, masternodes,
proposals, blocks and waiting transactions are as they were exactly when the block
was turned down by a check on the state before it, with no proposal or vote
recorded until then. -/
theorem addBlock_error_restores_iff
    (hrun : (addBlock env roots block).run chain = (.error (.err e), chain')) :
    chain'.SameStore chain ↔ chain.FailsClean env block := by
  cases hheader : checkHeader env block chain with
  | error failure =>
    rw [addBlock_of_header_error roots hheader] at hrun
    cases hrun
    refine iff_of_true (.refl _) ⟨fun _ _ h => ?_, fun _ _ _ h => ?_⟩
    all_goals
      rw [hheader] at h
      cases h
  | ok start =>
    obtain ⟨currentHeight, transactions⟩ := start
    by_cases hrecords : chain.Records env currentHeight transactions
    · -- there are more proposals or votes than before
      refine iff_of_false (fun hsame => ?_) fun hclean => hclean.records _ _ hheader hrecords
      have hsize := size_lt_loop hrecords
      rw [← activeProposals_of_error hheader hrun, hsame.activeProposals.size_eq] at hsize
      exact Nat.lt_irrefl _ hsize
    · rw [failsClean_iff hheader hrecords]
      have hkept := (loop_of_not_records hrecords).1
      rcases hloop : (forM transactions (processTransaction env currentHeight)).run chain
        with ⟨failure | u, next⟩
      · rw [addBlock_of_loop_error roots hheader hloop] at hrun
        rw [hloop] at hkept
        obtain rfl : chain = next := hkept.symm
        cases hrun
        exact iff_of_true (.refl _) nofun
      · rw [addBlock_of_loop_ok roots hheader hloop] at hrun
        rw [hloop] at hkept
        obtain rfl : chain = next := hkept.symm
        cases hrewards : checkRewards env block transactions chain with
        | error failure =>
          rw [hrewards] at hrun
          cases hrun
          exact iff_of_true (.refl _) fun _ _ => nofun
        | ok rewarded =>
          rw [hrewards] at hrun
          rw [applyChecked_error_iff (isMasternodeSlash_of_checkRewards hrewards) hrun]
          refine ⟨fun happlied _ result hresult => ?_, fun h => h rfl rewarded rfl⟩
          cases hresult
          exact happlied

/-- A proposal whose input is missing. -/
def strayProposal : GovernanceProposal where
  proposalId := .replicate 32 0
  proposerAddress := .replicate 32 0
  proposalType := .bugFix
  startBlockHeight := 1
  endBlockHeight := 20160
  title := ""
  descriptionHash := .replicate 32 0
  codeChangeHash := none
  targetParameter := none
  newValue := none
  bugDescription := none
  recipientAddress := none
  amount := none
  projectDescription := none
  proposerSignature := .replicate 64 0
  inputs := [.fromOutpoint ⟨.replicate 32 1, 0⟩ [] 0xFFFFFFFF []]
  outputs := [⟨100000000000, [], none⟩]
  lockTime := 0
  witness := []
  fee := 0

def proposeOnly : Block := blockOf [.governanceProposal strayProposal]

/-- The active proposals with the stray one. -/
def strayProposals : ActiveProposals :=
  ⟨AList.insert strayProposal.proposalId (strayProposal, ∅) ∅⟩

theorem addBlock_run_proposeOnly :
    (addBlock Platform.lenient StateRoots.plain proposeOnly).run (new : Blockchain Rat) =
      (.error (.err (.inputsInvalid (.replicate 32 0))),
        (new : Blockchain Rat).withProposals strayProposals) := by
  refine addBlock_of_loop_error _ (checkHeader_of_no_height rfl (fun _ => rfl) rfl) ?_
  exact loop_of_inspect_error rfl rfl

theorem addBlock_error_restores_iff_spendOnce :
    ((addBlock Platform.blank StateRoots.plain spendOnce).run (new : Blockchain Rat)).2.SameStore
        new ∧ (new : Blockchain Rat).FailsClean Platform.blank spendOnce := by
  have hrun : (addBlock Platform.blank StateRoots.plain spendOnce).run (new : Blockchain Rat) =
      (.error (.err (.inputsInvalid (.replicate 32 0))), new) := by
    refine addBlock_of_loop_error _ (checkHeader_of_no_height rfl (fun _ => rfl) rfl) ?_
    exact loop_of_inspect_error rfl rfl
  rw [hrun]
  exact ⟨.refl _, (addBlock_error_restores_iff hrun).mp (.refl _)⟩

/-- The proposal stays although its transaction is turned down. -/
theorem addBlock_keeps_stray_proposal :
    (∃ e, ((addBlock Platform.lenient StateRoots.plain proposeOnly).run
        (new : Blockchain Rat)).1 = .error (.err e)) ∧
      ¬ ((addBlock Platform.lenient StateRoots.plain proposeOnly).run
        (new : Blockchain Rat)).2.SameStore new := by
  rw [addBlock_run_proposeOnly]
  refine ⟨⟨_, rfl⟩, fun hsame => ?_⟩
  have hsize : strayProposals.size = ActiveProposals.size .new := hsame.activeProposals.size_eq
  revert hsize
  decide

end

end Blockchain

end RustyCoin
