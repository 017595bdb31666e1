import RustyCoin.Consensus.Blockchain

/-!
# The effects of an accepted block

`process_block` changes one component of the chain after another. The inversion
lemma `processBlock_inv` says what an accepted block has done to each of them;
what happens to the masternodes and to the tickets is then said entry by entry.
The frame rules before it hold for a block that is turned down as well.
-/

namespace RustyCoin

def Transaction.registeredMasternode? : Transaction → Option MasternodeID
  | .masternodeRegister masternodeIdentity _ _ _ _ _ => some masternodeIdentity.collateralOutpoint
  | _ => none

def Transaction.slashedMasternode? : Transaction → Option MasternodeID
  | .masternodeSlashTx slashTx => some slashTx.masternodeId
  | _ => none

/-- The ticket that a purchase is for, under the id that the transaction names. -/
def Transaction.namedTicket? (height : UInt64) : Transaction → Option Ticket
  | .ticketPurchase _ _ _ ticketId lockedAmount _ _ ticketAddress _ =>
    some
      { id := ticketId
        pubkey := ticketAddress
        height := height
        value := lockedAmount
        status := .pending }
  | _ => none

def Transaction.redeemedTicket? : Transaction → Option TicketId
  | .ticketRedemption _ _ _ ticketId _ _ _ => some ticketId
  | _ => none

variable (block : Block)

def Block.registeredMasternodes : List MasternodeID :=
  block.transactions.filterMap Transaction.registeredMasternode?

def Block.slashedMasternodes : List MasternodeID :=
  block.transactions.filterMap Transaction.slashedMasternode?

def Block.namedTickets : List Ticket :=
  block.transactions.filterMap (Transaction.namedTicket? block.header.height)

def Block.redeemedTickets : List TicketId :=
  block.transactions.filterMap Transaction.redeemedTicket?

namespace Blockchain

open Outcome Stateful

variable {F τ : Type} {view : Blockchain F → τ} (env : Platform)

section

theorem keeps_updateMasternodes
    (hview : ∀ list chain, view { chain with masternodeList := list } = view chain)
    (height : UInt64) (tx : Transaction) : Stateful.Keeps view (updateMasternodes height tx) := by
  unfold updateMasternodes
  split
  · exact (keeps_read _).bind fun _ => keeps_modify fun _ => hview _ _
  · exact keeps_modify fun _ => hview _ _
  · exact keeps_pure ()

theorem keeps_removeProposal
    (hview : ∀ proposals chain, view { chain with activeProposals := proposals } = view chain)
    (proposalId : Hash) : Stateful.Keeps view (removeProposal proposalId) :=
  (keeps_read _).bind fun _ => keeps_modify fun _ => hview _ _

variable [F64 F]

theorem keeps_applyProposal
    (hview : ∀ params chain, view { chain with params := params } = view chain)
    (proposal : GovernanceProposal) : Stateful.Keeps view (applyProposal proposal) := by
  unfold applyProposal
  split
  · exact (keeps_read _).bind fun _ => keeps_modify fun _ => hview _ _
  · exact keeps_pure ()

variable (hproposals : ∀ proposals chain, view { chain with activeProposals := proposals } = view
    chain)

include hproposals

variable (hparams : ∀ params chain, view { chain with params := params } = view chain)

include hparams

/-- Evaluating a proposal changes the proposals and the parameters only. -/
theorem keeps_evaluateProposal
    (height : UInt64) (proposalId : Hash) :
    Stateful.Keeps view (evaluateProposal height proposalId) := by
  refine (keeps_read _).bind fun proposal => (keeps_read _).bind fun outcome => ?_
  cases outcome with
  | passed =>
    exact (keeps_applyProposal hparams proposal).bind fun _ => keeps_removeProposal hproposals _
  | rejected reason => exact keeps_removeProposal hproposals _
  | inProgress => exact keeps_pure ()
  | expired => exact keeps_removeProposal hproposals _

theorem keeps_evaluateAndApplyGovernance
    (height : UInt64) : Stateful.Keeps view (evaluateAndApplyGovernance height) :=
  (keeps_read _).bind fun _ =>
    keeps_forM fun _ => keeps_evaluateProposal hproposals hparams height _

omit hproposals

omit hparams

/-- The state changes last, in a step that does not fail. -/
theorem processBlock_factors (clock : Nat → UInt64) (block : Block) :
    ∃ x : Stateful ConsensusError (Blockchain F) Unit,
      Stateful.Keeps state x ∧
        processBlock env clock block = (do x; storeBlock env block) := by
  refine ⟨do
    read (validateTransactions env clock block)
    modify fun chain =>
      { chain with utxoSet := chain.utxoSet.applyBlock env block block.header.height }
    forM block.transactions (updateMasternodes block.header.height)
    updateTickets env block
    modify fun chain =>
      { chain with liveTickets := chain.liveTickets.processTicketFinality block.header.height }
    evaluateAndApplyGovernance block.header.height, ?_, ?_⟩
  · refine (keeps_read _).bind fun _ => ?_
    refine Stateful.Keeps.bind (keeps_modify fun _ => ?_) fun _ => ?_
    · rfl
    refine (keeps_forM (keeps_updateMasternodes (fun _ _ => rfl) _)).bind fun _ => ?_
    refine Stateful.Keeps.bind ?_ fun _ => ?_
    · refine (keeps_read _).bind fun _ => ?_
      exact keeps_zoom _ fun _ _ => rfl
    refine Stateful.Keeps.bind (keeps_modify fun _ => ?_) fun _ => ?_
    · rfl
    exact keeps_evaluateAndApplyGovernance (fun _ _ => rfl) (fun _ _ => rfl) _
  · simp only [processBlock, updateRest, bind_assoc]

/-- Between them, the two steps that touch the tickets carry an invariant of the pool over. -/
theorem processBlock_preserves_liveTickets {inv : LiveTicketsPool → Prop} {clock : Nat → UInt64}
    {block : Block} (hupdate : ∀ used, Stateful.Preserves inv
      (LiveTicketsPool.updateForNewBlock env block used))
    (hfinal : ∀ pool, inv pool → inv (pool.processTicketFinality block.header.height)) :
    Stateful.Preserves (fun chain : Blockchain F => inv chain.liveTickets)
      (processBlock env clock block) := by
  refine (preserves_read _).bind fun _ => ?_
  refine Stateful.Preserves.bind (preserves_modify fun _ hchain => hchain) fun _ => ?_
  have hmasternodes : Stateful.Keeps (fun chain : Blockchain F => chain.liveTickets)
      (forM block.transactions (updateMasternodes block.header.height)) :=
    keeps_forM (keeps_updateMasternodes (fun _ _ => rfl) _)
  refine hmasternodes.preserves.bind fun _ => ?_
  refine Stateful.Preserves.bind ?_ fun _ => ?_
  · refine (preserves_read _).bind fun used => ?_
    exact preserves_zoom (hupdate used) (fun _ hs => hs) fun _ _ _ hpool => hpool
  refine (preserves_modify fun chain hchain => hfinal chain.liveTickets hchain).bind fun _ => ?_
  have hgovernance : Stateful.Keeps (fun chain : Blockchain F => chain.liveTickets)
      (evaluateAndApplyGovernance block.header.height) :=
    keeps_evaluateAndApplyGovernance (fun _ _ => rfl) (fun _ _ => rfl) _
  refine hgovernance.preserves.bind fun _ => ?_
  exact preserves_modify fun _ hchain => hchain

end

section

variable [F64 F] {clock : Nat → UInt64} {block : Block} {chain chain' : Blockchain F}

/-- What an accepted block has done to each component. -/
theorem processBlock_inv (hok : (processBlock env clock block).run chain = (.ok (), chain')) :
    validateTransactions env clock block chain = .ok () ∧
      ∃ set list pool params proposals,
        set = chain.utxoSet.applyBlock env block block.header.height ∧
        (forM block.transactions (updateMasternodes block.header.height)).run
          { chain with utxoSet := set } =
            (.ok (), { chain with utxoSet := set, masternodeList := list }) ∧
        (LiveTicketsPool.updateForNewBlock env block set.getUsedInputsAsTicketIds).run
          chain.liveTickets = (.ok (), pool) ∧
        (evaluateAndApplyGovernance block.header.height).run
          { chain with
            utxoSet := set
            masternodeList := list
            liveTickets := pool.processTicketFinality block.header.height } =
            (.ok (),
              { chain with
                utxoSet := set
                masternodeList := list
                liveTickets := pool.processTicketFinality block.header.height
                params := params
                activeProposals := proposals }) ∧
        chain' =
          { utxoSet := set
            masternodeList := list
            liveTickets := pool.processTicketFinality block.header.height
            params := params
            activeProposals := proposals
            mempool := chain.mempool
            state := (chain.state.putBlock env block).updateTip (block.hash env)
              block.header.height } := by
  obtain ⟨_, hvalid, hrest⟩ := run_read_bind_eq_ok.mp hok
  obtain ⟨_, applied, happly, hrest⟩ := run_bind_eq_ok.mp hrest
  cases happly
  obtain ⟨_, registered, hmasternodes, hrest⟩ := run_bind_eq_ok.mp hrest
  obtain ⟨_, ticketed, htickets, hrest⟩ := run_bind_eq_ok.mp hrest
  obtain ⟨_, final, hfinal, hrest⟩ := run_bind_eq_ok.mp hrest
  cases hfinal
  obtain ⟨_, governed, hgovernance, hstore⟩ := run_bind_eq_ok.mp hrest
  cases hstore
  rw [updateTickets, run_read_bind] at htickets
  obtain ⟨pool, hpool, rfl⟩ := run_zoom_eq_ok.mp htickets
  -- the loop over the masternodes has changed nothing else
  have hkept : Stateful.Keeps (fun chain : Blockchain F => { chain with masternodeList := .new })
      (forM block.transactions (updateMasternodes block.header.height)) :=
    keeps_forM (keeps_updateMasternodes (fun _ _ => rfl) block.header.height)
  have hregistered := hkept.eq hmasternodes
  obtain ⟨tickets, set, list, state, params, proposals, mempool⟩ := registered
  cases hregistered
  -- nor has the loop over the proposals
  have hkept : Stateful.Keeps (fun chain : Blockchain F =>
        (chain.liveTickets, chain.utxoSet, chain.masternodeList, chain.state, chain.mempool))
      (evaluateAndApplyGovernance block.header.height) :=
    keeps_evaluateAndApplyGovernance (fun _ _ => rfl) (fun _ _ => rfl) block.header.height
  have hgoverned := hkept.eq hgovernance
  obtain ⟨tickets', set', list', state', params', proposals', mempool'⟩ := governed
  cases hgoverned
  exact ⟨hvalid, _, list, pool, params', proposals', rfl, hmasternodes, hpool, hgovernance, rfl⟩

end

/-- A masternode that registers was not listed; only slashing removes one. -/
theorem updateMasternodes_ok {height : UInt64} {tx : Transaction} {chain next : Blockchain F}
    (hok : (updateMasternodes height tx).run chain = (.ok (), next)) (mnId : MasternodeID) :
    (tx.registeredMasternode? = some mnId → chain.masternodeList.map.lookup mnId = none) ∧
      (tx.registeredMasternode? ≠ some mnId → next.masternodeList.map.lookup mnId =
        if tx.slashedMasternode? = some mnId then none
        else chain.masternodeList.map.lookup mnId) := by
  unfold updateMasternodes at hok
  split at hok
  · rename_i identity _ _ _ _ _
    obtain ⟨list, hregister, ⟨⟩⟩ := run_read_bind_eq_ok.mp hok
    unfold registerMasternode MasternodeList.registerMasternode at hregister
    split at hregister
    · exact absurd hregister (fail_ne_ok _ _)
    · rename_i registered hregistered
      cases hregister
      split at hregistered
      · cases hregistered
      · rename_i hfresh
        cases hregistered
        constructor
        · rintro ⟨⟩
          exact Option.not_isSome_iff_eq_none.mp hfresh
        · intro hother
          have hne : mnId ≠ identity.collateralOutpoint := by
            rintro rfl
            exact hother rfl
          rw [if_neg (by simp [Transaction.slashedMasternode?])]
          exact AList.lookup_insert_ne hne
  · rename_i slashTx
    cases hok
    refine ⟨nofun, fun _ => ?_⟩
    by_cases hsame : slashTx.masternodeId = mnId
    · subst hsame
      have hslashed : (Transaction.masternodeSlashTx slashTx).slashedMasternode? =
          some slashTx.masternodeId := rfl
      rw [if_pos hslashed]
      exact AList.lookup_erase _ _
    · have hne : (Transaction.masternodeSlashTx slashTx).slashedMasternode? ≠ some mnId :=
        fun h => hsame (Option.some.inj h)
      rw [if_neg hne]
      exact AList.lookup_erase_ne (Ne.symm hsame)
  · rename_i hnotRegister hnotSlash
    cases hok
    have hregister : tx.registeredMasternode? = none := by
      unfold Transaction.registeredMasternode?
      split
      · exact absurd rfl (hnotRegister _ _ _ _ _ _)
      · rfl
    have hslash : tx.slashedMasternode? = none := by
      unfold Transaction.slashedMasternode?
      split
      · exact absurd rfl (hnotSlash _)
      · rfl
    simp [hregister, hslash]

theorem forM_updateMasternodes_ok {height : UInt64} {transactions : List Transaction}
    {chain next : Blockchain F}
    (hok : (forM transactions (updateMasternodes height)).run chain = (.ok (), next))
    (mnId : MasternodeID) :
    (mnId ∈ transactions.filterMap Transaction.registeredMasternode? →
      chain.masternodeList.map.lookup mnId = none ∨
        mnId ∈ transactions.filterMap Transaction.slashedMasternode?) ∧
      (mnId ∉ transactions.filterMap Transaction.registeredMasternode? →
        next.masternodeList.map.lookup mnId =
          if mnId ∈ transactions.filterMap Transaction.slashedMasternode? then none
          else chain.masternodeList.map.lookup mnId) := by
  induction transactions generalizing chain with
  | nil =>
    cases hok
    exact ⟨nofun, fun _ => rfl⟩
  | cons tx rest ih =>
    obtain ⟨_, middle, htx, hrest⟩ := run_bind_eq_ok.mp hok
    obtain ⟨hfresh, hkept⟩ := updateMasternodes_ok htx mnId
    obtain ⟨ihFresh, ihKept⟩ := ih hrest
    have hmem : ∀ f : Transaction → Option MasternodeID,
        mnId ∈ (tx :: rest).filterMap f ↔ f tx = some mnId ∨ mnId ∈ rest.filterMap f := by
      simp
    simp only [hmem]
    by_cases hregister : tx.registeredMasternode? = some mnId
    · exact ⟨fun _ => .inl (hfresh hregister), fun hnot => absurd (.inl hregister) hnot⟩
    · rw [hkept hregister] at ihFresh ihKept
      by_cases hslash : tx.slashedMasternode? = some mnId
      · exact ⟨fun _ => .inr (.inl hslash), by simpa [hregister, hslash] using ihKept⟩
      · simpa [hregister, hslash] using And.intro ihFresh ihKept

section

open LiveTicketsPool

variable {env}

/-- A purchase as the pool keeps it: under the hash of the address. -/
def boughtAs (env : Platform) (ticket : Ticket) : TicketId × Ticket :=
  (env.blake3 ticket.pubkey, { ticket with id := env.blake3 ticket.pubkey })

variable {pool next : LiveTicketsPool} {currentHeight : UInt64}

/-- The pool adds the ticket of a purchase whose first output is the locked
amount. -/
theorem addPurchase_ok {height : UInt64} {tx : Transaction}
    (hok : (addPurchase env height tx).run pool = (.ok (), next)) {chain : Blockchain F}
    (hvalid : chain.validateTickets tx currentHeight = .ok ()) :
    next.tickets = pool.tickets.insertAll
      (((tx.namedTicket? height).map (boughtAs env)).toList) := by
  unfold addPurchase at hok
  split at hok
  · rename_i outputs ticketId lockedAmount _ _ ticketAddress _
    obtain ⟨ticket, hticket, ⟨⟩⟩ := run_read_bind_eq_ok.mp hok
    simp only [validateTickets, validateTicketPurchase] at hvalid
    cases outputs with
    | nil => exact absurd hvalid (fail_ne_ok _ _)
    | cons ticketOutput rest =>
      have hamount : ticketOutput.value = lockedAmount := by
        by_contra hne
        simp [hne, fail] at hvalid
      simp only [purchasedTicket] at hticket
      split at hticket
      · exact absurd hticket (fail_ne_ok _ _)
      · cases hticket
        subst hamount
        rfl
  · rename_i hnot
    cases hok
    have hnone : tx.namedTicket? height = none := by
      unfold Transaction.namedTicket?
      split
      · exact absurd rfl (hnot _ _ _ _ _ _ _ _ _)
      · rfl
    rw [hnone]
    rfl

theorem forM_addPurchase_ok {height : UInt64} {transactions : List Transaction}
    (hok : (forM transactions (addPurchase env height)).run pool = (.ok (), next))
    {chain : Blockchain F}
    (hvalid : ∀ tx ∈ transactions, chain.validateTickets tx currentHeight = .ok ()) :
    next.tickets = pool.tickets.insertAll
      ((transactions.filterMap (Transaction.namedTicket? height)).map (boughtAs env)) := by
  induction transactions generalizing pool with
  | nil =>
    cases hok
    rfl
  | cons tx rest ih =>
    obtain ⟨_, middle, htx, hrest⟩ := run_bind_eq_ok.mp hok
    rw [List.forall_mem_cons] at hvalid
    rw [ih hrest hvalid.2, addPurchase_ok htx hvalid.1, HashMap.insertAll, HashMap.insertAll,
      ← List.foldl_append, HashMap.insertAll]
    cases hticket : tx.namedTicket? height with
    | none => rw [List.filterMap_cons_none hticket]; rfl
    | some ticket => rw [List.filterMap_cons_some hticket]; rfl

/-- What an accepted block does to the ticket under an id. -/
theorem updateForNewBlock_ok {block : Block} {used : List TicketId}
    (hok : (updateForNewBlock env block used).run pool = (.ok (), next)) {chain : Blockchain F}
    (hvalid : ∀ tx ∈ block.transactions, chain.validateTickets tx currentHeight = .ok ())
    (ticketId : TicketId) :
    next.getTicket ticketId =
      ((HashMap.lastAt ticketId (block.namedTickets.map (boughtAs env))).or
        (if ticketId ∈ used then none else pool.getTicket ticketId)).map
          (finalize block.header.height) := by
  obtain ⟨_, removed, hremove, hrest⟩ := run_bind_eq_ok.mp hok
  cases hremove
  obtain ⟨_, added, hadd, hfinal⟩ := run_bind_eq_ok.mp hrest
  cases hfinal
  change (added.tickets.mapValues (finalize block.header.height)).lookup ticketId = _
  rw [HashMap.lookup_mapValues, forM_addPurchase_ok hadd hvalid, HashMap.lookup_insertAll]
  change (Option.or _ ((pool.tickets.eraseAll used).lookup ticketId)).map _ = _
  rw [HashMap.lookup_eraseAll]
  rfl

/-- Tickets become live once. -/
theorem finalize_finalize (height : UInt64) (ticket : Ticket) :
    finalize height (finalize height ticket) = finalize height ticket := by
  unfold finalize
  split
  · simp
  · rfl

end

end Blockchain

end RustyCoin
