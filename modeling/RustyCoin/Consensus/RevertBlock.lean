import RustyCoin.Consensus.GovernanceRounds
import RustyCoin.Consensus.TicketPool
import RustyCoin.Lib.Utf8

/-!
# Undoing an accepted block

`revert_block` brings back what `process_block` has changed only as far as it
keeps track of it. Neither of the two adds to the active proposals, so that a
proposal or a vote that one of them removes is lost.
-/

namespace RustyCoin

open HashMap Stateful Transaction LiveTicketsPool Platform List AList

namespace ActiveProposals

open Outcome

/-- The number of proposals and votes. -/
def size (self : ActiveProposals) : Nat :=
  total (fun entry => entry.2.len + 1) self.proposals

theorem SameContents.size_eq {self other : ActiveProposals} (h : self.SameContents other) :
    self.size = other.size := by
  have hsame : (self.proposals.mapValues fun entry => entry.2.len + 1).SameEntries
      (other.proposals.mapValues fun entry => entry.2.len + 1) := by
    refine sameEntries_iff.mpr fun proposalId => ?_
    have hrel := h proposalId
    rw [lookup_mapValues, lookup_mapValues]
    generalize self.proposals.lookup proposalId = entry at hrel ⊢
    generalize other.proposals.lookup proposalId = entry' at hrel ⊢
    cases hrel with
    | none => rfl
    | some hentry => exact congrArg (fun n => some (n + 1)) hentry.2.length_eq
  have hsum := (hsame.map fun e => e.2).sum_eq
  simpa [size, total, mapValues, Function.comp_def] using hsum

variable {self next : ActiveProposals} {proposalId voterId : Hash}

theorem size_removeProposal (hok : self.removeProposal proposalId = .ok next) :
    next.size < self.size := by
  rw [removeProposal, ite_fail_eq_ok] at hok
  obtain ⟨hpresent, hnext⟩ := hok
  cases hnext
  have hsize := total_erase (fun entry => entry.2.len + 1) self.proposals proposalId
  have hmeasure : 0 < measureAt (fun entry => entry.2.len + 1) self.proposals proposalId := by
    obtain ⟨entry, hentry⟩ := Option.ne_none_iff_exists'.mp (by simpa using hpresent)
    rw [measureAt, hentry]
    exact Nat.succ_pos _
  change total _ (self.proposals.erase proposalId) < total _ self.proposals
  omega

theorem size_removeVote (hok : self.removeVote proposalId voterId = .ok next) :
    next.size < self.size := by
  obtain ⟨⟨proposal, votes⟩, hentry, hrest⟩ := bind_eq_ok.mp hok
  dsimp only at hrest
  rw [ite_fail_eq_ok] at hrest
  obtain ⟨hpresent, hnext⟩ := hrest
  cases hnext
  have hvotes : len (votes.erase voterId) + 1 = votes.len := by
    obtain ⟨vote, hvote⟩ := Option.ne_none_iff_exists'.mp (by simpa using hpresent)
    have herase := total_erase (fun _ => 1) votes voterId
    rw [measureAt, hvote, total_one, total_one] at herase
    exact herase
  refine total_insert_lt _ ?_
  rw [measureAt, okOr_eq_ok.mp hentry]
  exact Nat.succ_lt_succ (Nat.lt_of_succ_le hvotes.le)

end ActiveProposals

namespace BlockchainState

variable (env : Platform)

theorem isPrefixOf_blockHashKey (height : UInt64) :
    blockHashTag.isPrefixOf (blockHashKey height) = true := by
  have htag : "block_hash_".toUTF8.toList = blockHashTag := by
    rw [Utf8.toList_eq]
    decide
  rw [blockHashKey, Utf8.toList_append, htag, isPrefixOf_iff_prefix]
  exact prefix_append _ _

theorem decodeHash_toList (hash : Hash) : decodeHash hash.toList = some hash := by
  have hlength : hash.toList.length = 32 := hash.toList_length
  rw [decodeHash, dif_pos hlength.ge]
  exact congrArg some (Subtype.ext (take_of_length_le hlength.le))

/-- Once the block is gone there is nothing to look up under its height. -/
theorem removeBlockByHeight_removed (self : BlockchainState) (block : Block) (tip : Hash)
    (tipHeight : UInt64) :
    ∃ state,
      (((self.putBlock env block).updateTip tip tipHeight).removeBlockByHash
        (block.hash env)).removeBlockByHeight block.header.height = .ok state ∧
      state.tip = tip := by
  have hlookup : ((((self.putBlock env block).updateTip tip tipHeight).removeBlockByHash
      (block.hash env)).db.lookup (blockHashKey block.header.height)) = none := by
    rw [removeBlockByHash, lookup_eraseAll]
    by_cases hkey : blockHashKey block.header.height = (block.hash env).toList
    · rw [hkey, lookup_erase, ite_self]
    · have hstored : AList.lookup (blockHashKey block.header.height)
          (AList.erase (block.hash env).toList
            ((self.putBlock env block).updateTip tip tipHeight).db) =
          some (block.hash env).toList := by
        rw [lookup_erase_ne hkey]
        exact lookup_insert _
      refine if_pos (mem_filter.mpr ⟨?_, ?_⟩)
      · exact mem_keys.mp (lookup_isSome.mp (Option.isSome_of_eq_some hstored))
      · rw [isPrefixOf_blockHashKey, Bool.true_and]
        simp [hstored, decodeHash_toList]
  rw [removeBlockByHeight, getBlockHash, hlookup]
  exact ⟨_, rfl, rfl⟩

end BlockchainState

namespace Blockchain

open Outcome

variable {F : Type} (env : Platform)

section

variable [F64 F] {chain next : Blockchain F} {height : UInt64} {proposalId : Hash}

/-- The voting on the proposal that is looked up under an id has not begun. -/
def Waits (chain : Blockchain F) (height : UInt64) (proposalId : Hash) : Prop :=
  ∃ entry entry', chain.activeProposals.proposals.lookup proposalId = some entry ∧
    chain.activeProposals.proposals.lookup entry.1.proposalId = some entry' ∧
    height < entry'.1.startBlockHeight

omit [F64 F] in
theorem size_removeProposal_run (hok : (removeProposal proposalId).run chain = (.ok (), next)) :
    next.activeProposals.size < chain.activeProposals.size := by
  obtain ⟨proposals, hremove, ⟨⟩⟩ := run_read_bind_eq_ok.mp hok
  exact ActiveProposals.size_removeProposal hremove

/-- A proposal of a round is not touched as long as it waits, and lost otherwise. -/
theorem evaluateProposal_ok
    (hok : (evaluateProposal height proposalId).run chain = (.ok (), next)) :
    chain.Waits height proposalId ∧ next = chain ∨
      next.activeProposals.size < chain.activeProposals.size := by
  obtain ⟨proposal, hproposal, hrest⟩ := run_read_bind_eq_ok.mp hok
  obtain ⟨outcome, houtcome, hresolve⟩ := run_read_bind_eq_ok.mp hrest
  cases outcome with
  | rejected reason => exact .inr (size_removeProposal_run hresolve)
  | expired => exact .inr (size_removeProposal_run hresolve)
  | passed =>
    obtain ⟨_, applied, happly, hremove⟩ := run_bind_eq_ok.mp hresolve
    have hkept : Stateful.Keeps (Blockchain.activeProposals (F := F)) (applyProposal proposal) :=
      keeps_applyProposal (fun _ _ => rfl) proposal
    rw [← hkept.eq happly]
    exact .inr (size_removeProposal_run hremove)
  | inProgress =>
    cases hresolve
    refine .inl ⟨?_, rfl⟩
    obtain ⟨entry, hentry, rfl⟩ := Option.map_eq_some_iff.mp (okOr_eq_ok.mp hproposal)
    obtain ⟨_, hcounted, -⟩ := bind_eq_ok.mp houtcome
    obtain ⟨entry', hentry', -⟩ := Option.map_eq_some_iff.mp (okOr_eq_ok.mp hcounted)
    refine ⟨entry, entry', hentry, hentry', ?_⟩
    rw [ActiveProposals.evaluateProposalAtHeight_eq hentry'] at houtcome
    by_contra hstart
    rw [if_neg hstart] at houtcome
    split at houtcome
    · cases houtcome
    · exact ActiveProposals.checkQuorumAndSupermajority_ne_inProgress _ _ _ _
        (Except.ok.inj houtcome)

variable {proposalIds : List Hash}

/-- The loop of a round: nothing has happened, or something is lost for good. -/
theorem forM_evaluateProposal_ok
    (hok : (forM proposalIds (evaluateProposal height)).run chain = (.ok (), next)) :
    (∀ proposalId ∈ proposalIds, chain.Waits height proposalId) ∧ next = chain ∨
      next.activeProposals.size < chain.activeProposals.size := by
  induction proposalIds generalizing chain with
  | nil =>
    cases hok
    exact .inl ⟨by simp, rfl⟩
  | cons proposalId rest ih =>
    obtain ⟨_, middle, hhead, hrest⟩ := run_bind_eq_ok.mp hok
    rcases evaluateProposal_ok hhead with ⟨hwaits, rfl⟩ | hless
    · rcases ih hrest with ⟨hall, rfl⟩ | hless
      · exact .inl ⟨forall_mem_cons.mpr ⟨hwaits, hall⟩, rfl⟩
      · exact .inr hless
    · rcases ih hrest with ⟨-, rfl⟩ | hless'
      · exact .inr hless
      · exact .inr (hless'.trans hless)

theorem evaluateAndApplyGovernance_ok
    (hok : (evaluateAndApplyGovernance height).run chain = (.ok (), next)) :
    (∀ proposalId ∈ chain.proposalIdsToRemove height, chain.Waits height proposalId) ∧
        next = chain ∨
      next.activeProposals.size < chain.activeProposals.size := by
  rw [evaluateAndApplyGovernance, run_read_bind] at hok
  exact forM_evaluateProposal_ok hok

theorem forM_evaluateProposal_of_waits
    (hwaits : ∀ proposalId ∈ proposalIds, chain.Waits height proposalId) :
    (forM proposalIds (evaluateProposal height)).run chain = (.ok (), chain) := by
  refine run_forM_idle fun proposalId hmem => ?_
  obtain ⟨entry, entry', hentry, hentry', hstart⟩ := hwaits proposalId hmem
  rw [evaluateProposal_run hentry hentry', if_pos hstart]
  rfl

/-- A round in which every proposal waits changes nothing. -/
theorem evaluateAndApplyGovernance_of_waits (chain : Blockchain F)
    (hwaits : ∀ proposalId ∈ chain.proposalIdsToRemove height, chain.Waits height proposalId) :
    (evaluateAndApplyGovernance height).run chain = (.ok (), chain) := by
  rw [evaluateAndApplyGovernance, run_read_bind]
  exact forM_evaluateProposal_of_waits hwaits

end

variable {env} {chain next : Blockchain F}

theorem forM_revertMasternode_run (transactions : List Transaction) (chain : Blockchain F) :
    (forM transactions revertMasternode).run chain =
      (.ok (), { chain with
        masternodeList := ⟨chain.masternodeList.map.eraseAll
          (transactions.filterMap registeredMasternode?)⟩ }) := by
  induction transactions generalizing chain with
  | nil => rfl
  | cons tx rest ih =>
    rw [forM_cons, filterMap_cons]
    cases hregistered : tx.registeredMasternode? with
    | none =>
      have htx : (revertMasternode tx).run chain = (.ok (), chain) := by
        unfold revertMasternode
        split
        · cases hregistered
        · rfl
      rw [run_bind_of_ok htx, ih]
    | some mnId =>
      have htx : (revertMasternode tx).run chain = (.ok (), { chain with
          masternodeList := (chain.masternodeList.removeMasternode mnId).2 }) := by
        unfold revertMasternode
        split
        · cases hregistered
          rfl
        · rename_i hnot
          unfold registeredMasternode? at hregistered
          split at hregistered
          · exact absurd rfl (hnot _ _ _ _ _ _)
          · cases hregistered
      rw [run_bind_of_ok htx, ih]
      rfl

theorem updateForRevertBlock_tickets (pool : LiveTicketsPool) (block : Block)
    (used : List TicketId) :
    (pool.updateForRevertBlock block used).tickets =
      pool.tickets.eraseAll (block.namedTickets.map Ticket.id) := by
  rw [eraseAll, foldl_map, Block.namedTickets, foldl_filterMap]
  refine (foldl_hom tickets fun pool tx => ?_).symm
  cases tx with
  | _ => rfl

/-- Taking back a proposal or a vote makes the store smaller; a ticket is taken
back if it is there. -/
theorem revertGovernance_ok {tx : Transaction}
    (hok : (revertGovernance tx).run chain = (.ok (), next)) :
    (tx.isGovernance = true ∧ next.activeProposals.size < chain.activeProposals.size ∧
        next.liveTickets = chain.liveTickets) ∨
      (tx.isGovernance = false ∧ next = chain ∧ ∀ height, tx.namedTicket? height = none) ∨
      ∃ ticketId, (chain.liveTickets.getTicket ticketId).isSome ∧
        ∀ height, (tx.namedTicket? height).map Ticket.id = some ticketId := by
  unfold revertGovernance at hok
  split at hok
  · rename_i proposal
    have hkept : Stateful.Keeps (Blockchain.liveTickets (F := F))
        (removeProposal proposal.proposalId) :=
      keeps_removeProposal (fun _ _ => rfl) _
    exact .inl ⟨rfl, size_removeProposal_run hok, hkept.eq hok⟩
  · obtain ⟨proposals, hremove, ⟨⟩⟩ := run_read_bind_eq_ok.mp hok
    exact .inl ⟨rfl, ActiveProposals.size_removeVote hremove, rfl⟩
  · obtain ⟨⟨ticket, pool⟩, hremove, -⟩ := run_read_bind_eq_ok.mp hok
    obtain ⟨_, hticket, -⟩ := bind_eq_ok.mp hremove
    exact .inr (.inr ⟨_, Option.isSome_of_eq_some (okOr_eq_ok.mp hticket), fun _ => rfl⟩)
  · rename_i hproposal hvote hpurchase
    cases hok
    refine .inr (.inl ⟨?_, rfl, fun height => ?_⟩)
    · unfold isGovernance
      split
      · exact absurd rfl (hproposal _)
      · exact absurd rfl (hvote _)
      · rfl
    · unfold namedTicket?
      split
      · exact absurd rfl (hpurchase _ _ _ _ _ _ _ _ _)
      · rfl

variable {transactions : List Transaction}

/-- The loop over the transactions, with the purchases of the block out of the
pool already. -/
theorem forM_revertGovernance_ok (height : UInt64)
    (hfresh : ∀ tx ∈ transactions, ∀ ticket, tx.namedTicket? height = some ticket →
      chain.liveTickets.getTicket ticket.id = none)
    (hok : (forM transactions revertGovernance).run chain = (.ok (), next)) :
    (∀ tx ∈ transactions, tx.namedTicket? height = none) ∧
      ((∀ tx ∈ transactions, tx.isGovernance = false) ∧ next = chain ∨
        next.activeProposals.size < chain.activeProposals.size) := by
  induction transactions generalizing chain with
  | nil =>
    cases hok
    exact ⟨by simp, .inl ⟨by simp, rfl⟩⟩
  | cons tx rest ih =>
    rw [forall_mem_cons] at hfresh
    obtain ⟨_, middle, hhead, hrest⟩ := run_bind_eq_ok.mp hok
    simp only [forall_mem_cons]
    rcases revertGovernance_ok hhead with ⟨hgov, hless, hpool⟩ | ⟨hgov, rfl, hnone⟩ | hbought
    · have hnone : tx.namedTicket? height = none := by
        cases tx with
        | ticketPurchase => cases hgov
        | _ => rfl
      obtain ⟨hnones, hrest⟩ := ih (by rw [hpool]; exact hfresh.2) hrest
      refine ⟨⟨hnone, hnones⟩, .inr ?_⟩
      rcases hrest with ⟨-, rfl⟩ | hless'
      · exact hless
      · exact hless'.trans hless
    · obtain ⟨hnones, hrest⟩ := ih hfresh.2 hrest
      exact ⟨⟨hnone height, hnones⟩, hrest.imp_left fun h => ⟨⟨hgov, h.1⟩, h.2⟩⟩
    · obtain ⟨ticketId, hsome, hid⟩ := hbought
      obtain ⟨ticket, hticket, rfl⟩ := Option.map_eq_some_iff.mp (hid height)
      rw [hfresh.1 ticket hticket] at hsome
      cases hsome

theorem forM_revertGovernance_of_none {height : UInt64}
    (hnone : ∀ tx ∈ transactions, tx.namedTicket? height = none)
    (hgovernance : ∀ tx ∈ transactions, tx.isGovernance = false) (chain : Blockchain F) :
    (forM transactions revertGovernance).run chain = (.ok (), chain) := by
  refine run_forM_idle fun tx hmem => ?_
  cases tx with
  | governanceProposal => cases hgovernance _ hmem
  | governanceVote => cases hgovernance _ hmem
  | ticketPurchase => cases hnone _ hmem
  | _ => rfl

/-- The outputs, purchases and registrations of the block are taken back. -/
def withoutBlock (chain : Blockchain F) (block : Block) (set : UtxoSet) : Blockchain F :=
  { chain with
    utxoSet := set
    liveTickets := ⟨chain.liveTickets.tickets.eraseAll (block.namedTickets.map Ticket.id)⟩
    masternodeList := ⟨chain.masternodeList.map.eraseAll
      (block.transactions.reverse.filterMap registeredMasternode?)⟩ }

/-- Up to the loop over the proposals, votes and purchases nothing can fail. -/
theorem revertBlock_run_eq {block : Block} {reverted : UtxoSet}
    (hset : (UtxoSet.revertBlock env block).run chain.utxoSet = (.ok (), reverted)) :
    (revertBlock env block).run chain =
      (do forM block.transactions.reverse revertGovernance; revertState env block).run
        (chain.withoutBlock block reverted) := by
  have hzoom : (zoom utxoSet (fun set chain => { chain with utxoSet := set })
      (UtxoSet.revertBlock env block)).run chain =
        (.ok (), { chain with utxoSet := reverted }) :=
    run_zoom_eq_ok.mpr ⟨reverted, hset, rfl⟩
  rw [revertBlock, run_bind_of_ok hzoom, run_bind_of_ok (run_modify _),
    run_bind_of_ok (forM_revertMasternode_run _ _), withoutBlock,
    ← updateForRevertBlock_tickets _ block reverted.getUsedInputsAsTicketIds]

variable (env) in
theorem revertState_run (block : Block) (chain : Blockchain F) {state : BlockchainState}
    {tip : Hash} {tipHeight : UInt64}
    (hstate : chain.state = (state.putBlock env block).updateTip tip tipHeight) :
    ∃ state', (revertState env block).run chain = (.ok (), { chain with state := state' }) ∧
      state'.tip = block.header.previousBlockHash := by
  obtain ⟨state', hremove, htip⟩ := state.removeBlockByHeight_removed env block
    block.header.previousBlockHash (block.header.height - 1)
  refine ⟨state', ?_, htip⟩
  have hread : ((chain.state.updateTip block.header.previousBlockHash
      (block.header.height - 1)).removeBlockByHash (block.hash env)).removeBlockByHeight
        block.header.height = .ok state' := by
    rw [hstate]
    exact hremove
  rw [revertState, run_bind_of_ok (run_modify _), run_read_bind]
  simp only [hread]
  rfl

theorem keeps_revertState {block : Block} :
    Stateful.Keeps Blockchain.activeProposals
      (revertState env block : Stateful ConsensusError (Blockchain F) Unit) := by
  refine Stateful.Keeps.bind (keeps_modify fun _ => ?_) fun _ => ?_
  · rfl
  · exact (keeps_read _).bind fun _ => keeps_modify fun _ => rfl

/-- The chain after a block without proposals, votes and purchases is reverted. -/
def reverted (chain : Blockchain F) (block : Block) (set : UtxoSet) (state : BlockchainState) :
    Blockchain F :=
  { chain with
    utxoSet := set
    masternodeList := ⟨chain.masternodeList.map.eraseAll
      (block.transactions.reverse.filterMap registeredMasternode?)⟩
    state := state }

variable {block : Block} {set : UtxoSet} {state : BlockchainState} {tip : Hash} {tipHeight : UInt64}

theorem revertBlock_ok (hset : (UtxoSet.revertBlock env block).run chain.utxoSet = (.ok (), set))
    (hstate : chain.state = (state.putBlock env block).updateTip tip tipHeight)
    (hok : (revertBlock env block).run chain = (.ok (), next)) :
    block.namedTickets = [] ∧
      ((∀ tx ∈ block.transactions, tx.isGovernance = false) ∧
          (∃ state', next = chain.reverted block set state' ∧
            state'.tip = block.header.previousBlockHash) ∨
        next.activeProposals.size < chain.activeProposals.size) := by
  rw [revertBlock_run_eq hset] at hok
  obtain ⟨_, governed, hloop, hrevert⟩ := run_bind_eq_ok.mp hok
  -- the purchases are out of the pool before they are looked up in it
  obtain ⟨hnone, hgoverned⟩ := forM_revertGovernance_ok block.header.height (by
    intro tx hmem ticket hticket
    rw [getTicket, withoutBlock, lookup_eraseAll]
    refine if_pos (mem_map_of_mem ?_)
    exact mem_filterMap.mpr ⟨tx, mem_reverse.mp hmem, hticket⟩) hloop
  have hnamed : block.namedTickets = [] :=
    filterMap_eq_nil_iff.mpr fun tx hmem => hnone tx (mem_reverse.mpr hmem)
  refine ⟨hnamed, ?_⟩
  rcases hgoverned with ⟨hplain, rfl⟩ | hless
  · left
    refine ⟨fun tx hmem => hplain tx (mem_reverse.mpr hmem), ?_⟩
    obtain ⟨state', hrun, htip⟩ := revertState_run env block (chain.withoutBlock block set) hstate
    rw [hrun, withoutBlock, hnamed] at hrevert
    cases hrevert
    exact ⟨state', rfl, htip⟩
  · right
    rwa [keeps_revertState.eq hrevert]

theorem revertBlock_of_plain (chain : Blockchain F)
    (hset : (UtxoSet.revertBlock env block).run chain.utxoSet = (.ok (), set))
    (hstate : chain.state = (state.putBlock env block).updateTip tip tipHeight)
    (hnamed : block.namedTickets = [])
    (hplain : ∀ tx ∈ block.transactions, tx.isGovernance = false) :
    ∃ state', (revertBlock env block).run chain = (.ok (), chain.reverted block set state') ∧
      state'.tip = block.header.previousBlockHash := by
  have hnone : ∀ tx ∈ block.transactions.reverse, tx.namedTicket? block.header.height = none :=
    fun tx hmem => filterMap_eq_nil_iff.mp hnamed tx (mem_reverse.mp hmem)
  have hloop := forM_revertGovernance_of_none (F := F) hnone
    (fun tx hmem => hplain tx (mem_reverse.mp hmem))
  obtain ⟨state', hrun, htip⟩ := revertState_run env block (chain.withoutBlock block set) hstate
  refine ⟨state', ?_, htip⟩
  rw [revertBlock_run_eq hset, run_bind_of_ok (hloop _), hrun, withoutBlock, hnamed]
  rfl

variable (env)

section

/-- The two chains hold the same unspent outputs, tickets, masternodes and
proposals, and have the same tip. -/
structure SameLedger (chain other : Blockchain F) : Prop where
  utxoSet : chain.utxoSet.utxos.SameEntries other.utxoSet.utxos
  liveTickets : chain.liveTickets.tickets.SameEntries other.liveTickets.tickets
  masternodeList : chain.masternodeList.map.SameEntries other.masternodeList.map
  activeProposals : chain.activeProposals.SameContents other.activeProposals
  tip : chain.state.tip = other.state.tip

/-- What a block has to leave alone so that it can be undone. -/
structure Undoable (chain : Blockchain F) (block : Block) : Prop where
  /-- The outputs that are spent are the made-up ones, and no output is replaced. -/
  outputs : ∀ outpoint,
    (SpentFirst env outpoint block.transactions →
      chain.utxoSet.getUtxo outpoint = some UtxoSet.dummyUtxo) ∧
    (outpoint ∈ block.createdOutpoints env →
      ¬ SpentFirst env outpoint block.transactions → chain.utxoSet.getUtxo outpoint = none)
  /-- Nothing is bought, proposed or voted on. -/
  purchases : block.namedTickets = []
  governance : ∀ tx ∈ block.transactions, tx.isGovernance = false
  /-- No ticket is taken for a used one, and none becomes live. -/
  tickets : ∀ ticketId ticket, chain.liveTickets.getTicket ticketId = some ticket →
    ¬ chain.utxoSet.LeavesPayment env block ticketId ∧ finalize block.header.height ticket = ticket
  masternodes : ∀ mnId ∈ block.slashedMasternodes, chain.masternodeList.map.lookup mnId = none
  proposals : ∀ proposalId ∈ chain.proposalIdsToRemove block.header.height,
    chain.Waits block.header.height proposalId
  tip : chain.state.tip = block.header.previousBlockHash

variable [F64 F] {clock : Nat → UInt64} {block : Block} {chain chain' : Blockchain F}

omit [F64 F] in
theorem masternodes_restored_iff {block : Block} {list : MasternodeList} {set : UtxoSet}
    (hloop : (forM block.transactions (updateMasternodes block.header.height)).run
      { chain with utxoSet := set } =
        (.ok (), { chain with utxoSet := set, masternodeList := list })) :
    (list.map.eraseAll (block.transactions.reverse.filterMap
        registeredMasternode?)).SameEntries chain.masternodeList.map ↔
      ∀ mnId ∈ block.slashedMasternodes, chain.masternodeList.map.lookup mnId = none := by
  rw [sameEntries_iff]
  refine forall_congr' fun mnId => ?_
  obtain ⟨hregistered, hkept⟩ := forM_updateMasternodes_ok hloop mnId
  rw [lookup_eraseAll, filterMap_reverse]
  simp only [mem_reverse]
  by_cases hmem : mnId ∈ block.transactions.filterMap registeredMasternode?
  · rw [if_pos hmem, eq_comm]
    exact ⟨fun h _ => h, fun h => (hregistered hmem).elim id h⟩
  · rw [if_neg hmem, hkept hmem, Block.slashedMasternodes]
    by_cases hslashed : mnId ∈ block.transactions.filterMap slashedMasternode?
    · simp [hslashed, eq_comm]
    · simp [hslashed]

theorem tickets_restored_iff {pool pool' : LiveTicketsPool} {height : UInt64}
    {removed : TicketId → Prop} [DecidablePred removed]
    (hget : ∀ ticketId, pool'.getTicket ticketId =
      (if removed ticketId then none else pool.getTicket ticketId).map (finalize height)) :
    pool'.tickets.SameEntries pool.tickets ↔
      ∀ ticketId ticket, pool.getTicket ticketId = some ticket →
        ¬ removed ticketId ∧ finalize height ticket = ticket := by
  rw [sameEntries_iff]
  refine forall_congr' fun ticketId => ?_
  change pool'.getTicket ticketId = pool.getTicket ticketId ↔ _
  rw [hget]
  cases pool.getTicket ticketId with
  | none => simp
  | some ticket =>
    by_cases hremoved : removed ticketId
    all_goals simp [hremoved]

/-- Reverting an accepted block succeeds and restores the ledger exactly when the
block was undoable. -/
theorem processBlock_undone_iff
    (hok : (processBlock env clock block).run chain = (.ok (), chain')) :
    (∃ restored, (revertBlock env block).run chain' = (.ok (), restored) ∧
        restored.SameLedger chain) ↔
      chain.Undoable env block := by
  classical
  have htickets := getTicket_processBlock env hok
  obtain ⟨-, set, list, pool, params, proposals, rfl, hmasternodes, -, hgovernance, rfl⟩ :=
    processBlock_inv env hok
  obtain ⟨reverted, hreverted, houtputs⟩ :=
    UtxoSet.revertBlock_run env chain.utxoSet block block.header.height
  have hproposals : (∀ proposalId ∈ chain.proposalIdsToRemove block.header.height,
      chain.Waits block.header.height proposalId) ∧ proposals = chain.activeProposals ∨
      proposals.size < chain.activeProposals.size :=
    (evaluateAndApplyGovernance_ok hgovernance).imp_left
      fun h => ⟨h.1, congrArg Blockchain.activeProposals h.2⟩
  have hpool : block.namedTickets = [] → ∀ ticketId,
      (pool.processTicketFinality block.header.height).getTicket ticketId =
        (if chain.utxoSet.LeavesPayment env block ticketId then none
        else chain.liveTickets.getTicket ticketId).map
          (finalize block.header.height) := by
    intro hnamed ticketId
    have hticket := htickets ticketId
    rw [hnamed] at hticket
    exact hticket
  constructor
  · rintro ⟨restored, hrun, hsame⟩
    have hsize := hsame.activeProposals.size_eq
    obtain ⟨hnamed, ⟨hplain, state, rfl, htip⟩ | hless⟩ := revertBlock_ok hreverted rfl hrun
    · rcases hproposals with ⟨hwaits, rfl⟩ | hless
      · exact
          { outputs := houtputs.mp hsame.utxoSet
            purchases := hnamed
            governance := hplain
            tickets := (tickets_restored_iff (hpool hnamed)).mp hsame.liveTickets
            masternodes := (masternodes_restored_iff hmasternodes).mp hsame.masternodeList
            proposals := hwaits
            tip := hsame.tip.symm.trans htip }
      · exact absurd hsize hless.ne
    · rcases hproposals with ⟨-, rfl⟩ | hless'
      · exact absurd hsize hless.ne
      · exact absurd hsize (hless.trans hless').ne
  · intro hundoable
    obtain ⟨state, hrun, htip⟩ := revertBlock_of_plain
      { chain with
        utxoSet := chain.utxoSet.applyBlock env block block.header.height
        masternodeList := list
        liveTickets := pool.processTicketFinality block.header.height
        params := params
        activeProposals := proposals
        state := (chain.state.putBlock env block).updateTip (block.hash env) block.header.height }
      hreverted rfl hundoable.purchases hundoable.governance
    have hround := evaluateAndApplyGovernance_of_waits
      { chain with
        utxoSet := chain.utxoSet.applyBlock env block block.header.height
        masternodeList := list
        liveTickets := pool.processTicketFinality block.header.height } hundoable.proposals
    have hsame : chain.activeProposals = proposals :=
      congrArg (fun r => r.2.activeProposals) (hround.symm.trans hgovernance)
    subst hsame
    exact ⟨_, hrun,
      { utxoSet := houtputs.mpr hundoable.outputs
        liveTickets := (tickets_restored_iff (hpool hundoable.purchases)).mpr hundoable.tickets
        masternodeList := (masternodes_restored_iff hmasternodes).mpr hundoable.masternodes
        activeProposals := .refl _
        tip := htip.trans hundoable.tip.symm }⟩

/-- A block that registers a masternode and moves no coins. -/
def registerOnly : Block :=
  blockOf [.masternodeRegister ⟨⟨.replicate 32 1, 0⟩, [], "", [], none, []⟩
    (.replicate 64 0) 0 [] [] []]

theorem undoable_registerOnly : (new : Blockchain Rat).Undoable blank registerOnly where
  outputs _ := ⟨fun hspent => by simp [registerOnly, blockOf, SpentFirst,
    spentOutpoints, getInputs] at hspent, fun _ _ => rfl⟩
  purchases := rfl
  governance := by decide
  tickets _ _ hticket := by cases hticket
  masternodes := by decide
  proposals := by
    have hnone : (new : Blockchain Rat).proposalIdsToRemove registerOnly.header.height = [] := rfl
    simp [hnone]
  tip := rfl

theorem processBlock_undone_iff_registerOnly :
    ((processBlock blank (fun _ => 0) registerOnly).run (new : Blockchain Rat)).1 =
        .ok () ∧
      ∃ restored, (revertBlock blank registerOnly).run
          ((processBlock blank (fun _ => 0) registerOnly).run (new : Blockchain Rat)).2 =
          (.ok (), restored) ∧ restored.SameLedger new := by
  have hok : ((processBlock blank (fun _ => 0) registerOnly).run
      (new : Blockchain Rat)).1 = .ok () := by
    decide
  exact ⟨hok, (processBlock_undone_iff blank (Prod.ext hok rfl)).mpr undoable_registerOnly⟩

/-- A purchase is looked up in the pool after it has been taken out of it. -/
theorem revertBlock_fails_on_purchase :
    ((processBlock blank (fun _ => 0) (buyTicket (.replicate 32 0))).run
        oneOutputChain).1 = .ok () ∧
      ¬ ∃ restored, (revertBlock blank (buyTicket (.replicate 32 0))).run
          ((processBlock blank (fun _ => 0) (buyTicket (.replicate 32 0))).run
            oneOutputChain).2 = (.ok (), restored) ∧ restored.SameLedger oneOutputChain := by
  refine ⟨by decide, ?_⟩
  rintro ⟨restored, hrun, -⟩
  have hresult : ((revertBlock blank (buyTicket (.replicate 32 0))).run
      ((processBlock blank (fun _ => 0) (buyTicket (.replicate 32 0))).run
        oneOutputChain).2).1 = .ok () :=
    congrArg Prod.fst hrun
  revert hresult
  decide

end

end Blockchain

end RustyCoin
