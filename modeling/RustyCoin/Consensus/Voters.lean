import RustyCoin.Consensus.AddBlock
import RustyCoin.Lib.TopK

/-!
# The voters of a block

Five live tickets with the highest scores are selected for a block, whatever the
order in which the pool is iterated. The votes that a block may carry are those
of selected tickets that are live and not expired.
-/

namespace RustyCoin

open Outcome List

instance : Std.Total scoreLE where
  total a b := by
    rcases Nat.lt_trichotomy a.1 b.1 with hlt | heq | hgt
    · exact Or.inl (Or.inl hlt)
    · rcases List.le_total a.2.toList b.2.toList with hle | hle
      · exact Or.inl (Or.inr ⟨heq, hle⟩)
      · exact Or.inr (Or.inr ⟨heq.symm, hle⟩)
    · exact Or.inr (Or.inl hgt)

instance : IsTrans (Nat × TicketId) scoreLE where
  trans a b c := by
    rintro (hab | ⟨hab, hid⟩) (hbc | ⟨hbc, hid'⟩)
    · exact Or.inl (Nat.lt_trans hab hbc)
    · exact Or.inl (by omega)
    · exact Or.inl (by omega)
    · exact Or.inr ⟨hab.trans hbc, List.le_trans hid hid'⟩

instance : Std.Antisymm scoreLE where
  antisymm a b := by
    rintro (hab | ⟨hab, hid⟩) (hba | ⟨hba, hid'⟩)
    · omega
    · omega
    · omega
    · exact Prod.ext hab (List.Vector.toList_injective (List.le_antisymm hid hid'))

variable (env : Platform) (prevBlockHash : Hash) (pool : LiveTicketsPool)

/-- The ids of the live tickets. -/
def LiveTicketsPool.liveTicketIds : List TicketId :=
  (pool.tickets.toPairs.filter fun entry => entry.2.status = .live).map Prod.fst

/-- The live tickets with their scores, in the order of the iteration. -/
def scoredTickets : List (Nat × TicketId) :=
  pool.tickets.toPairs.filterMap fun (ticketId, ticket) =>
    if ticket.status = .live then some (lotteryScore env prevBlockHash ticketId, ticketId)
    else none

theorem selectVoters_eq :
    selectVoters env prevBlockHash pool =
      (TopK.topK scoreLE votersPerBlock (scoredTickets env prevBlockHash pool)).map Prod.snd :=
  rfl

theorem scoredTickets_eq :
    scoredTickets env prevBlockHash pool =
      pool.liveTicketIds.map fun ticketId =>
        (lotteryScore env prevBlockHash ticketId, ticketId) := by
  unfold scoredTickets LiveTicketsPool.liveTicketIds
  induction pool.tickets.toPairs with
  | nil => rfl
  | cons entry entries ih =>
    by_cases hlive : entry.2.status = .live
    all_goals simp [hlive, ih]

theorem mem_liveTicketIds {pool : LiveTicketsPool} {ticketId : TicketId} :
    ticketId ∈ pool.liveTicketIds ↔
      ∃ ticket, pool.getTicket ticketId = some ticket ∧ ticket.status = .live := by
  rw [LiveTicketsPool.liveTicketIds, mem_map]
  constructor
  · rintro ⟨⟨id, ticket⟩, hmem, rfl⟩
    obtain ⟨hentry, hlive⟩ := mem_filter.mp hmem
    exact ⟨ticket, HashMap.mem_toPairs.mp hentry, of_decide_eq_true hlive⟩
  · rintro ⟨ticket, hentry, hlive⟩
    exact ⟨(ticketId, ticket),
      mem_filter.mpr ⟨HashMap.mem_toPairs.mpr hentry, decide_eq_true hlive⟩, rfl⟩

theorem nodup_liveTicketIds : pool.liveTicketIds.Nodup :=
  (HashMap.nodup_toPairs pool.tickets).sublist (filter_sublist.map Prod.fst)

/-- The voters that a pool is to have: as many as there are places or live tickets, all of them
live and different, and those with the greatest scores and ids. -/
structure HighestScores (voters : List TicketId) : Prop where
  count : voters.length = min votersPerBlock pool.liveTicketIds.length
  distinct : voters.Nodup
  live : ∀ ticketId ∈ voters, ∃ ticket,
    pool.getTicket ticketId = some ticket ∧ ticket.status = .live
  highest : ∀ ticketId ∈ voters, ∀ other ∉ voters, ∀ ticket,
    pool.getTicket other = some ticket → ticket.status = .live →
      scoreLE (lotteryScore env prevBlockHash other, other)
        (lotteryScore env prevBlockHash ticketId, ticketId)

theorem highestScores_selectVoters :
    HighestScores env prevBlockHash pool (selectVoters env prevBlockHash pool) := by
  have hmem {score : Nat} {ticketId : TicketId}
      (h : (score, ticketId) ∈ scoredTickets env prevBlockHash pool) :
      ticketId ∈ pool.liveTicketIds ∧ score = lotteryScore env prevBlockHash ticketId := by
    rw [scoredTickets_eq] at h
    obtain ⟨id, hid, heq⟩ := mem_map.mp h
    cases heq
    exact ⟨hid, rfl⟩
  have hnodup : (scoredTickets env prevBlockHash pool).Nodup := by
    rw [scoredTickets_eq]
    exact (nodup_liveTicketIds pool).map fun a b h => (Prod.mk.inj h).2
  constructor
  · rw [selectVoters_eq, length_map, TopK.length_topK, scoredTickets_eq, length_map]
  · rw [selectVoters_eq]
    refine (TopK.nodup_topK hnodup).map_on ?_
    rintro ⟨score, ticketId⟩ h ⟨score', _⟩ h' ⟨⟩
    rw [(hmem (TopK.mem_of_mem_topK h)).2, (hmem (TopK.mem_of_mem_topK h')).2]
  · intro ticketId hvoter
    obtain ⟨⟨score, id⟩, htop, rfl⟩ := mem_map.mp hvoter
    exact mem_liveTicketIds.mp (hmem (TopK.mem_of_mem_topK htop)).1
  · intro ticketId hvoter other hout ticket hticket hlive
    obtain ⟨⟨score, id⟩, htop, rfl⟩ := mem_map.mp hvoter
    have hscore := (hmem (TopK.mem_of_mem_topK htop)).2
    have hother : (lotteryScore env prevBlockHash other, other) ∈
        scoredTickets env prevBlockHash pool := by
      rw [scoredTickets_eq]
      exact mem_map.mpr ⟨other, mem_liveTicketIds.mpr ⟨ticket, hticket, hlive⟩, rfl⟩
    rw [← hscore]
    exact TopK.le_of_notMem_topK htop hother fun h => hout (mem_map.mpr ⟨_, h, rfl⟩)

theorem selectVoters_sameEntries {pool pool' : LiveTicketsPool}
    (h : pool.tickets.SameEntries pool'.tickets) :
    selectVoters env prevBlockHash pool = selectVoters env prevBlockHash pool' := by
  have hperm : (scoredTickets env prevBlockHash pool).Perm
      (scoredTickets env prevBlockHash pool') := h.toPairs.filterMap _
  rw [selectVoters_eq, selectVoters_eq, TopK.topK_perm hperm]

namespace Blockchain

variable {F : Type} (env : Platform) (chain : Blockchain F)

/-- A ticket that may vote in a block: it is live, and its expiry is after the block. -/
def MayVote (header : BlockHeader) (ticketId : TicketId) (ticket : Ticket) : Prop :=
  chain.liveTickets.getTicket ticketId = some ticket ∧ ticket.status = .live ∧
    header.height < ticket.height + chain.params.ticketExpiry.toUInt64

/-- A vote for the block before, signed by the owner of a ticket. -/
structure SignedVote (header : BlockHeader) (ticket : Ticket) (vote : TicketVote) : Prop where
  blockHash : vote.blockHash = header.previousBlockHash
  signature : validateTicketSignature env ticket.pubkey header.previousBlockHash.toList
    vote.signature.toList = some true
  kind : vote.vote ≤ 2

variable {env chain} {header : BlockHeader} {expectedVoterIds : List TicketId}

theorem validateTicketVote_ok_iff {vote : TicketVote} :
    chain.validateTicketVote env header expectedVoterIds vote = .ok () ↔
      vote.ticketId ∈ expectedVoterIds ∧
        ∃ ticket, chain.MayVote header vote.ticketId ticket ∧
          SignedVote env header ticket vote := by
  rw [validateTicketVote, ite_fail_eq_ok, not_not, bind_eq_ok]
  refine and_congr_right fun _ => exists_congr fun ticket => ?_
  rw [okOr_eq_ok, ite_fail_eq_ok, ite_fail_eq_ok, ite_fail_eq_ok, not_not, not_not, MayVote,
    and_assoc, and_assoc]
  refine and_congr_right fun _ => and_congr_right fun _ => and_congr UInt64.not_le ?_
  constructor
  · rintro ⟨hhash, hcheck⟩
    rw [hhash] at hcheck
    split at hcheck
    · exact absurd hcheck (fail_ne_ok _ _)
    · exact absurd hcheck (fail_ne_ok _ _)
    · rename_i hsignature
      exact ⟨hhash, hsignature, UInt8.not_lt.mp (ite_fail_eq_ok.mp hcheck).1⟩
  · rintro ⟨hhash, hsignature, hkind⟩
    refine ⟨hhash, ?_⟩
    rw [hhash, hsignature]
    exact ite_fail_eq_ok.mpr ⟨UInt8.not_lt.mpr hkind, rfl⟩

/-- The loop accepts votes of different tickets that each pass their checks. -/
theorem validateTicketVotes_ok_iff {votes : List TicketVote} {seenTickets : List TicketId} :
    chain.validateTicketVotes env header expectedVoterIds votes seenTickets = .ok () ↔
      (votes.map TicketVote.ticketId).Nodup ∧
        (∀ vote ∈ votes, vote.ticketId ∉ seenTickets) ∧
          ∀ vote ∈ votes,
            chain.validateTicketVote env header expectedVoterIds vote = .ok () := by
  induction votes generalizing seenTickets with
  | nil => exact iff_of_true rfl ⟨nodup_nil, nofun, nofun⟩
  | cons vote votes ih =>
    have hfirst : vote.ticketId ∉ votes.map TicketVote.ticketId ↔
        ∀ v ∈ votes, v.ticketId ≠ vote.ticketId := by
      simp
    rw [validateTicketVotes, ite_fail_eq_ok, bind_eq_ok, map_cons, nodup_cons, hfirst,
      forall_mem_cons, forall_mem_cons]
    constructor
    · rintro ⟨hnew, _, hvote, hloop⟩
      obtain ⟨hnodup, hseen, hrest⟩ := ih.mp hloop
      refine ⟨⟨?_, hnodup⟩, ⟨hnew, ?_⟩, hvote, hrest⟩
      · intro v hv heq
        exact hseen v hv (heq ▸ mem_cons_self)
      · intro v hv hmem
        exact hseen v hv (mem_cons_of_mem _ hmem)
    · rintro ⟨⟨hothers, hnodup⟩, ⟨hnew, hseen⟩, hvote, hrest⟩
      refine ⟨hnew, (), hvote, ih.mpr ⟨hnodup, ?_, hrest⟩⟩
      intro v hv hmem
      rcases mem_cons.mp hmem with heq | hmem
      · exact hothers v hv heq
      · exact hseen v hv hmem

variable (env) (chain)

/-- What is asked of the votes of a block. -/
structure VotesAccepted (block : Block) : Prop where
  count : block.ticketVotes.length = votersPerBlock
  distinct : (block.ticketVotes.map TicketVote.ticketId).Nodup
  each : ∀ vote ∈ block.ticketVotes,
    vote.ticketId ∈ selectVoters env block.header.previousBlockHash chain.liveTickets ∧
      ∃ ticket, chain.MayVote block.header vote.ticketId ticket ∧
        SignedVote env block.header ticket vote

theorem validateProofOfStakeAndRewards_ok_iff {block : Block} (hvotes : block.ticketVotes ≠ [])
    (totalReward : UInt64) :
    chain.validateProofOfStakeAndRewards env block totalReward = .ok () ↔
      chain.VotesAccepted env block ∧ (totalReward = 0 ∨ 5 ≤ totalReward) := by
  have hempty : ¬ block.ticketVotes.isEmpty = true := by simpa using hvotes
  have hreward : ¬ (totalReward > 0 ∧ totalReward / UInt64.ofNat votersPerBlock = 0) ↔
      totalReward = 0 ∨ 5 ≤ totalReward := by
    have hdiv : (totalReward / UInt64.ofNat votersPerBlock).toNat = totalReward.toNat / 5 :=
      UInt64.toNat_div _ _
    rw [gt_iff_lt, UInt64.lt_iff_toNat_lt, ← UInt64.toNat_inj, ← UInt64.toNat_inj, hdiv,
      UInt64.le_iff_toNat_le]
    simp only [UInt64.toNat_zero, UInt64.reduceToNat]
    omega
  rw [validateProofOfStakeAndRewards, if_neg hempty, ite_fail_eq_ok, not_not, bind_eq_ok]
  constructor
  · rintro ⟨hcount, _, hloop, hrest⟩
    obtain ⟨hdistinct, _, heach⟩ := validateTicketVotes_ok_iff.mp hloop
    rw [hcount, ite_fail_eq_ok, ite_fail_eq_ok, hreward] at hrest
    exact ⟨⟨hcount, hdistinct, fun vote hvote => validateTicketVote_ok_iff.mp (heach vote hvote)⟩,
      hrest.2.1⟩
  · rintro ⟨haccepted, hrest⟩
    refine ⟨haccepted.count, (), validateTicketVotes_ok_iff.mpr
      ⟨haccepted.distinct, nofun, fun vote hvote =>
        validateTicketVote_ok_iff.mpr (haccepted.each vote hvote)⟩, ?_⟩
    rw [haccepted.count, ite_fail_eq_ok, ite_fail_eq_ok, hreward]
    exact ⟨by decide, hrest, rfl⟩

/-- A set of votes of different selected tickets that are live and not expired, each with a
signature of the hash of the block before. -/
structure VotesChecked (block : Block) : Prop where
  distinct : (block.ticketVotes.map TicketVote.ticketId).Nodup
  each : ∀ vote ∈ block.ticketVotes,
    vote.ticketId ∈ selectVoters env block.header.previousBlockHash chain.liveTickets ∧
      ∃ ticket, chain.liveTickets.getTicket vote.ticketId = some ticket ∧ ticket.status = .live ∧
        block.header.height.toNat < ticket.height.toNat + chain.params.ticketExpiry.toNat ∧
        env.verify ticket.pubkey block.header.previousBlockHash.toList vote.signature.toList = true

/-- A sum that wraps is smaller, so a ticket that may vote is not expired. -/
theorem MayVote.toNat_lt {chain : Blockchain F} {header : BlockHeader} {ticketId : TicketId}
    {ticket : Ticket} (h : chain.MayVote header ticketId ticket) :
    header.height.toNat < ticket.height.toNat + chain.params.ticketExpiry.toNat := by
  have hlt := UInt64.lt_iff_toNat_lt.mp h.2.2
  rw [UInt64.toNat_add, UInt32.toNat_toUInt64] at hlt
  exact Nat.lt_of_lt_of_le hlt (Nat.mod_le _ _)

theorem verify_of_validateTicketSignature {publicKey message signature : Bytes}
    (h : validateTicketSignature env publicKey message signature = some true) :
    env.verify publicKey message signature = true := by
  unfold validateTicketSignature at h
  split at h
  · exact Option.some.inj h
  · cases h

/-- The voters of a block are the live tickets with the highest scores, in whatever order the pool
is iterated, and only their votes are accepted. -/
theorem voters_selected_and_checked :
    (∀ prevBlockHash pool,
      HighestScores env prevBlockHash pool (selectVoters env prevBlockHash pool) ∧
        ∀ pool' : LiveTicketsPool, pool.tickets.SameEntries pool'.tickets →
          selectVoters env prevBlockHash pool = selectVoters env prevBlockHash pool') ∧
      ∀ (chain : Blockchain F) (block : Block) (totalReward : UInt64), block.ticketVotes ≠ [] →
        chain.validateProofOfStakeAndRewards env block totalReward = .ok () →
          chain.VotesChecked env block := by
  refine ⟨fun prevBlockHash pool => ⟨?_, ?_⟩, ?_⟩
  · exact highestScores_selectVoters env prevBlockHash pool
  · intro pool' hsame
    exact selectVoters_sameEntries env prevBlockHash hsame
  · intro chain block totalReward hvotes hvalid
    have haccepted :=
      ((validateProofOfStakeAndRewards_ok_iff env chain hvotes totalReward).mp hvalid).1
    refine ⟨haccepted.distinct, fun vote hvote => ?_⟩
    obtain ⟨hselected, ticket, hmay, hsigned⟩ := haccepted.each vote hvote
    exact ⟨hselected, ticket, hmay.1, hmay.2.1, hmay.toNat_lt,
      verify_of_validateTicketSignature env hsigned.signature⟩

/-- A chain with five live tickets, all bought at one height. -/
def fiveTickets (height : UInt64) : Blockchain Rat :=
  { new with
    liveTickets := ⟨HashMap.insertAll ∅ ([1, 2, 3, 4, 5].map fun i =>
      (.replicate 32 i, ⟨.replicate 32 i, .replicate 32 i, height, 900, .live⟩))⟩ }

/-- A block with a vote of each of them. -/
def fiveVotes (height : UInt64) : Block where
  header := ⟨2, height, .replicate 32 0, .replicate 32 0, .replicate 32 0, 0, 0, 0⟩
  ticketVotes := [1, 2, 3, 4, 5].map fun i =>
    ⟨.replicate 32 i, .replicate 32 0, 0, .replicate 64 0⟩
  transactions := []

theorem voters_checked_fiveVotes :
    (fiveTickets 1).validateProofOfStakeAndRewards Platform.lenient (fiveVotes 10) 0 = .ok () ∧
      (fiveTickets 1).VotesChecked Platform.lenient (fiveVotes 10) := by
  have hvalid : (fiveTickets 1).validateProofOfStakeAndRewards Platform.lenient (fiveVotes 10) 0 =
      .ok () := by
    decide +kernel
  exact ⟨hvalid, (voters_selected_and_checked Platform.lenient).2 _ _ 0 (by decide) hvalid⟩

end Blockchain

end RustyCoin
