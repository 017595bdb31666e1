import RustyCoin.Consensus.UtxoReplay

/-!
# The tickets after an accepted block

A ticket that is bought goes under the id that the purchase names, and a ticket
that is redeemed goes away: that is what a block is to do to the pool. The code
takes the id of a new ticket from its address, and it removes the tickets whose
ids are the ids of transactions with an unspent output.
-/

namespace RustyCoin

open HashMap List

namespace LiveTicketsPool

theorem status_namedTickets {block : Block} {ticket : Ticket}
    (hticket : ticket ∈ block.namedTickets) : { ticket with status := .pending } = ticket := by
  obtain ⟨tx, -, hnamed⟩ := mem_filterMap.mp hticket
  unfold Transaction.namedTicket? at hnamed
  split at hnamed
  · cases hnamed
    rfl
  · cases hnamed

/-- The pool that a block leaves: its purchases under the ids that they name, and
of the other tickets those that it does not redeem. Tickets that have reached the
finality depth are live. -/
structure UpdatedBy (block : Block) (pool pool' : LiveTicketsPool) : Prop where
  bought : ∀ ticket ∈ block.namedTickets,
    pool'.getTicket ticket.id = some (finalize block.header.height ticket)
  others : ∀ ticketId, ticketId ∉ block.namedTickets.map Ticket.id →
    pool'.getTicket ticketId =
      if ticketId ∈ block.redeemedTickets then none
      else (pool.getTicket ticketId).map (finalize block.header.height)

/-- Finality changes the status only. -/
theorem eq_of_finalize_eq {height : UInt64} {ticket ticket' : Ticket}
    (h : finalize height ticket = finalize height ticket') :
    { ticket with status := .pending } = { ticket' with status := .pending } := by
  have hstatus : ∀ t : Ticket, { finalize height t with status := .pending } =
      { t with status := .pending } := by
    intro t
    unfold finalize
    split
    · rfl
    · rfl
  rw [← hstatus ticket, h, hstatus]

end LiveTicketsPool

namespace UtxoSet

variable (env : Platform)

variable (self : UtxoSet) (block : Block)

/-- After the block there is an unspent output, of a transaction with this id,
that does not come from a coinbase: one that the block creates, or one from
before that it neither spends nor replaces. -/
def LeavesPayment (txid : Hash) : Prop :=
  ∃ outpoint utxo, outpoint.txid = txid ∧ utxo.isCoinbase = false ∧
    (lastAt outpoint (block.createdEntries env block.header.height) = some utxo ∨
      outpoint ∉ block.createdOutpoints env ∧ outpoint ∉ block.spentOutpoints ∧
        self.getUtxo outpoint = some utxo)

theorem mem_getUsedInputsAsTicketIds {self : UtxoSet} {ticketId : TicketId} :
    ticketId ∈ self.getUsedInputsAsTicketIds ↔
      ∃ outpoint utxo, outpoint.txid = ticketId ∧ utxo.isCoinbase = false ∧
        self.getUtxo outpoint = some utxo := by
  rw [getUsedInputsAsTicketIds, mem_filterMap]
  constructor
  · rintro ⟨⟨outpoint, utxo⟩, hmem, hsome⟩
    cases hcoinbase : utxo.isCoinbase with
    | true => simp [hcoinbase] at hsome
    | false =>
      exact ⟨outpoint, utxo, by simpa [hcoinbase] using hsome, hcoinbase, mem_toPairs.mp hmem⟩
  · rintro ⟨outpoint, utxo, rfl, hcoinbase, hutxo⟩
    exact ⟨(outpoint, utxo), mem_toPairs.mpr hutxo, by simp [hcoinbase]⟩

theorem mem_usedTicketIds_iff (ticketId : TicketId) :
    ticketId ∈
        (self.applyBlock env block block.header.height).getUsedInputsAsTicketIds ↔
      self.LeavesPayment env block ticketId := by
  rw [mem_getUsedInputsAsTicketIds]
  refine exists_congr fun outpoint => exists_congr fun utxo => ?_
  refine and_congr_right fun _ => and_congr_right fun _ => ?_
  have hcreated := lastAt_eq_none outpoint (block.createdEntries env block.header.height)
  rw [Block.createdEntries, mem_createdEntries_iff] at hcreated
  rw [getUtxo_applyBlock, Option.or_eq_some_iff, Block.createdEntries, hcreated,
    Block.createdOutpoints]
  by_cases hspent : outpoint ∈ block.spentOutpoints
  all_goals simp [hspent]

end UtxoSet

namespace Blockchain

open Outcome LiveTicketsPool

variable {F : Type} (env : Platform)

variable {env} {self : Blockchain F} {tx : Transaction} {height now : UInt64}

theorem validateTickets_of_validateTransaction
    (hvalid : self.validateTransaction env tx height now = .ok ()) :
    self.validateTickets tx height = .ok () := by
  rw [validateTransaction] at hvalid
  split at hvalid
  · rename_i hcoinbase
    cases tx with
    | coinbase => rfl
    | _ => cases hcoinbase
  · obtain ⟨_, -, hrest⟩ := bind_eq_ok.mp hvalid
    obtain ⟨_, -, hrest⟩ := bind_eq_ok.mp hrest
    obtain ⟨_, -, hrest⟩ := bind_eq_ok.mp hrest
    obtain ⟨_, -, hrest⟩ := bind_eq_ok.mp hrest
    exact hrest

variable {ticket : Ticket}

/-- A purchase that passes its checks names a ticket that is not in the pool. -/
theorem namedTicket_fresh {blockHeight : UInt64} (hvalid : self.validateTickets tx height = .ok ())
    (hticket : tx.namedTicket? blockHeight = some ticket) :
    self.liveTickets.getTicket ticket.id = none := by
  unfold Transaction.namedTicket? at hticket
  split at hticket
  · cases hticket
    simp only [validateTickets, validateTicketPurchase] at hvalid
    split at hvalid
    · exact absurd hvalid (fail_ne_ok _ _)
    · -- a live ticket is the last of the refusals
      rw [ite_fail_eq_ok, ite_fail_eq_ok, ite_fail_eq_ok] at hvalid
      exact Option.not_isSome_iff_eq_none.mp hvalid.2.2.1
  · cases hticket

variable (env)

variable {env}

/-- A purchase that names the hash of its address is kept under its own id. -/
theorem boughtAs_eq (hid : ticket.id = env.blake3 ticket.pubkey) :
    boughtAs env ticket = (ticket.id, ticket) := by
  rw [boughtAs, ← hid]

theorem lastAt_boughtAs {tickets : List Ticket}
    (hids : ∀ ticket ∈ tickets, ticket.id = env.blake3 ticket.pubkey) (ticketId : TicketId) :
    lastAt ticketId (tickets.map (boughtAs env)) = none ↔
      ticketId ∉ tickets.map Ticket.id := by
  have hkeys : (tickets.map (boughtAs env)).map Prod.fst = tickets.map Ticket.id := by
    rw [map_map]
    refine map_congr_left fun ticket hmem => ?_
    exact (hids ticket hmem).symm
  rw [lastAt_eq_none, hkeys]

variable (env)

variable [F64 F] {clock : Nat → UInt64} {block : Block} {chain chain' : Blockchain F}

variable (hok : (processBlock env clock block).run chain = (.ok (), chain'))

include hok

theorem validated_tickets :
    ∀ tx ∈ block.transactions, chain.validateTickets tx block.header.height = .ok () := by
  intro tx hmem
  obtain ⟨now, hvalid⟩ := (processBlock_spec env hok).1 tx hmem
  exact validateTickets_of_validateTransaction hvalid

/-- What an accepted block does to the ticket under an id. -/
theorem getTicket_processBlock
    (ticketId : TicketId) [Decidable (chain.utxoSet.LeavesPayment env block ticketId)] :
    chain'.liveTickets.getTicket ticketId =
      ((lastAt ticketId (block.namedTickets.map (boughtAs env))).or
        (if chain.utxoSet.LeavesPayment env block ticketId then none
        else chain.liveTickets.getTicket ticketId)).map (finalize block.header.height) := by
  have hvalid := validated_tickets env hok
  obtain ⟨-, set, list, pool, params, proposals, rfl, -, hpool, -, rfl⟩ :=
    processBlock_inv env hok
  have hget := updateForNewBlock_ok hpool hvalid ticketId
  simp only [UtxoSet.mem_usedTicketIds_iff] at hget
  change (pool.tickets.mapValues (finalize block.header.height)).lookup ticketId = _
  rw [lookup_mapValues]
  change (pool.getTicket ticketId).map _ = _
  rw [hget, Option.map_map]
  congr 1
  funext ticket
  exact finalize_finalize _ _

theorem namedTickets_fresh
    (hticket : ticket ∈ block.namedTickets) :
    chain.liveTickets.getTicket ticket.id = none := by
  obtain ⟨tx, hmem, hnamed⟩ := mem_filterMap.mp hticket
  exact namedTicket_fresh (validated_tickets env hok tx hmem) hnamed

omit hok

/-- The tickets of an accepted block are updated as they should be exactly when
every purchase names the hash of its address, purchases of one id are of one
ticket, and the tickets of the pool whose ids are those of unspent payments are
the redeemed ones. -/
theorem processBlock_updates_tickets_iff
    (hok : (processBlock env clock block).run chain = (.ok (), chain')) :
    chain.liveTickets.UpdatedBy block chain'.liveTickets ↔
      (∀ ticket ∈ block.namedTickets, ticket.id = env.blake3 ticket.pubkey) ∧
      (∀ ticket ∈ block.namedTickets, ∀ ticket' ∈ block.namedTickets,
        ticket.id = ticket'.id → ticket = ticket') ∧
      ∀ ticketId, (chain.liveTickets.getTicket ticketId).isSome →
        (chain.utxoSet.LeavesPayment env block ticketId ↔
          ticketId ∈ block.redeemedTickets) := by
  classical
  have hget := getTicket_processBlock env hok
  have hfresh : ∀ ticket ∈ block.namedTickets, chain.liveTickets.getTicket ticket.id = none :=
    fun ticket => namedTickets_fresh env hok
  constructor
  · rintro ⟨hbought, hothers⟩
    have hids : ∀ ticket ∈ block.namedTickets, ticket.id = env.blake3 ticket.pubkey := by
      intro ticket hmem
      have hticket := hbought ticket hmem
      rw [hget, hfresh ticket hmem, ite_self, Option.or_none, Option.map_eq_some_iff] at hticket
      obtain ⟨kept, hkept, hsame⟩ := hticket
      obtain ⟨source, -, hsource⟩ := mem_map.mp (mem_of_lastAt hkept)
      obtain ⟨hid, rfl⟩ := Prod.mk.inj hsource
      have hpubkey : source.pubkey = ticket.pubkey := (Ticket.mk.inj (eq_of_finalize_eq hsame)).2.1
      rw [← hid, hpubkey]
    refine ⟨hids, ?_, ?_⟩
    · intro ticket hmem ticket' hmem' hid
      have hsame := (hbought ticket hmem).symm.trans
        ((congrArg _ hid).trans (hbought ticket' hmem'))
      have hpending := eq_of_finalize_eq (Option.some.inj hsame)
      rwa [status_namedTickets hmem, status_namedTickets hmem'] at hpending
    · intro ticketId hsome
      have hnot : ticketId ∉ block.namedTickets.map Ticket.id := by
        rintro hmem
        obtain ⟨ticket, hticket, rfl⟩ := mem_map.mp hmem
        rw [hfresh ticket hticket] at hsome
        cases hsome
      have hother := hothers ticketId hnot
      rw [hget, (lastAt_boughtAs hids ticketId).mpr hnot] at hother
      obtain ⟨ticket, hticket⟩ := Option.isSome_iff_exists.mp hsome
      by_cases hleaves : chain.utxoSet.LeavesPayment env block ticketId
      · by_cases hredeemed : ticketId ∈ block.redeemedTickets
        · exact iff_of_true hleaves hredeemed
        · simp [hticket, hleaves, hredeemed] at hother
      · by_cases hredeemed : ticketId ∈ block.redeemedTickets
        · simp [hticket, hleaves, hredeemed] at hother
        · exact iff_of_false hleaves hredeemed
  · rintro ⟨hids, hunique, hremoved⟩
    refine ⟨fun ticket hmem => ?_, fun ticketId hnot => ?_⟩
    · have hlast : lastAt ticket.id (block.namedTickets.map (boughtAs env)) = some ticket := by
        refine lastAt_of_mem (mem_map.mpr ⟨ticket, hmem, boughtAs_eq (hids ticket hmem)⟩) ?_
        intro kept hkept
        obtain ⟨source, hsource, heq⟩ := mem_map.mp hkept
        rw [boughtAs_eq (hids source hsource)] at heq
        obtain ⟨hid, rfl⟩ := Prod.mk.inj heq
        exact hunique source hsource ticket hmem hid
      rw [hget, hlast]
      rfl
    · rw [hget, (lastAt_boughtAs hids ticketId).mpr hnot, Option.none_or]
      cases hticket : chain.liveTickets.getTicket ticketId with
      | none => simp
      | some ticket =>
        have hiff := hremoved ticketId (by rw [hticket]; rfl)
        by_cases hredeemed : ticketId ∈ block.redeemedTickets
        · rw [if_pos hredeemed, if_pos (hiff.mpr hredeemed)]
          rfl
        · rw [if_neg hredeemed, if_neg (mt hiff.mp hredeemed)]

/-- A block that buys a ticket for the locked amount of nine hundred. -/
def buyTicket (ticketId : TicketId) : Block :=
  blockOf [.ticketPurchase 1 [.fromOutpoint ⟨.replicate 32 1, 0⟩ [] 0xFFFFFFFF []]
    [⟨900, .replicate 32 0, none⟩] ticketId 900 0 100 (.replicate 32 0) []]

theorem processBlock_updates_tickets_iff_buyTicket :
    ((processBlock Platform.blank (fun _ => 0) (buyTicket (.replicate 32 0))).run
        oneOutputChain).1 = .ok () ∧
      oneOutputChain.liveTickets.UpdatedBy (buyTicket (.replicate 32 0))
        ((processBlock Platform.blank (fun _ => 0) (buyTicket (.replicate 32 0))).run
          oneOutputChain).2.liveTickets := by
  have hok : ((processBlock Platform.blank (fun _ => 0) (buyTicket (.replicate 32 0))).run
      oneOutputChain).1 = .ok () := by
    decide
  refine ⟨hok, (processBlock_updates_tickets_iff Platform.blank (Prod.ext hok rfl)).mpr
    ⟨by decide, by decide, fun ticketId hsome => ?_⟩⟩
  cases hsome

/-- The ticket is not to be found under the id that the purchase names. -/
theorem processBlock_misplaces_ticket :
    ((processBlock Platform.blank (fun _ => 0) (buyTicket (.replicate 32 2))).run
        oneOutputChain).1 = .ok () ∧
      ¬ oneOutputChain.liveTickets.UpdatedBy (buyTicket (.replicate 32 2))
        ((processBlock Platform.blank (fun _ => 0) (buyTicket (.replicate 32 2))).run
          oneOutputChain).2.liveTickets := by
  refine ⟨by decide, fun hupdated => ?_⟩
  have hbought := hupdated.bought
  revert hbought
  decide

end Blockchain

end RustyCoin
