import RustyCoin.Consensus.Supply
import RustyCoin.Consensus.Voters

/-!
# Tickets that have grown too old

Processing a block adds the tickets that it buys, makes pending tickets live and
removes tickets by id. No step looks at the age of a ticket, so a ticket stays
live and is selected after its expiry, when its vote is refused. Votes pass as
long as all the purchases of the run are recent.
-/

namespace RustyCoin

open Outcome List

/-- Every ticket of the pool was bought in one of the blocks. -/
def LiveTicketsPool.BoughtIn (blocks : List Block) (pool : LiveTicketsPool) : Prop :=
  ∀ ticketId ticket, pool.getTicket ticketId = some ticket →
    ∃ block ∈ blocks, block.namedTickets ≠ [] ∧ ticket.height = block.header.height

namespace LiveTicketsPool

variable {env : Platform} {blocks : List Block} {block : Block}

variable {pool : LiveTicketsPool}

variable (h : pool.BoughtIn blocks)

include h

theorem BoughtIn.mono {blocks' : List Block}
    (hsub : ∀ b ∈ blocks, b ∈ blocks') : pool.BoughtIn blocks' := by
  intro ticketId ticket hticket
  obtain ⟨b, hb, hbuys, hheight⟩ := h ticketId ticket hticket
  exact ⟨b, hsub b hb, hbuys, hheight⟩

theorem BoughtIn.removeTickets
    (ticketIds : List TicketId) : (pool.removeTickets ticketIds).BoughtIn blocks := by
  intro ticketId ticket hticket
  change (pool.tickets.eraseAll ticketIds).lookup ticketId = some ticket at hticket
  rw [HashMap.lookup_eraseAll] at hticket
  split at hticket
  · cases hticket
  · exact h ticketId ticket hticket

theorem BoughtIn.processTicketFinality
    (height : UInt64) : (pool.processTicketFinality height).BoughtIn blocks := by
  intro ticketId ticket hticket
  change (pool.tickets.mapValues (finalize height)).lookup ticketId = some ticket at hticket
  rw [HashMap.lookup_mapValues] at hticket
  obtain ⟨before, hbefore, rfl⟩ := Option.map_eq_some_iff.mp hticket
  have hheight : (finalize height before).height = before.height := by
    unfold finalize
    split
    · rfl
    · rfl
  rw [hheight]
  exact h ticketId before hbefore

variable (hblock : block ∈ blocks)

include hblock

theorem BoughtIn.addTicket {ticket : Ticket} (hbuys : block.namedTickets ≠ [])
    (hheight : ticket.height = block.header.height) :
    (pool.addTicket ticket).BoughtIn blocks :=
  HashMap.forall_insert h ⟨block, hblock, hbuys, hheight⟩

omit h

theorem preserves_addPurchase {tx : Transaction}
    (htx : tx ∈ block.transactions) :
    Stateful.Preserves (BoughtIn blocks) (addPurchase env block.header.height tx) := by
  unfold addPurchase
  split
  · rename_i outputs ticketId lockedAmount _ _ ticketAddress _
    have hbuys : block.namedTickets ≠ [] :=
      ne_nil_of_mem (mem_filterMap.mpr ⟨_, htx, rfl⟩)
    intro pool hpool
    rw [Stateful.run_read_bind]
    split
    · rename_i ticket hticket
      have hheight : ticket.height = block.header.height := by
        unfold purchasedTicket at hticket
        split at hticket
        · exact absurd hticket (fail_ne_ok _ _)
        · split at hticket
          · exact absurd hticket (fail_ne_ok _ _)
          · cases hticket
            rfl
      exact hpool.addTicket hblock hbuys hheight
    · exact hpool
  · exact Stateful.preserves_pure ()

theorem preserves_updateForNewBlock (used : List TicketId) :
    Stateful.Preserves (BoughtIn blocks) (updateForNewBlock env block used) := by
  refine (Stateful.preserves_modify fun pool hpool => hpool.removeTickets used).bind fun _ => ?_
  refine (Stateful.preserves_forM fun tx htx => ?_).bind fun _ => ?_
  · exact preserves_addPurchase hblock htx
  · exact Stateful.preserves_modify fun pool hpool => hpool.processTicketFinality _

end LiveTicketsPool

namespace Blockchain

variable {F : Type} [F64 F] (env : Platform)

/-- The tickets of a chain come from the purchases of the blocks. -/
def TicketsBoughtIn (blocks : List Block) (chain : Blockchain F) : Prop :=
  chain.liveTickets.BoughtIn blocks

theorem preserves_processBlock {blocks : List Block} {block : Block} (hblock : block ∈ blocks)
    (clock : Nat → UInt64) :
    Stateful.Preserves (TicketsBoughtIn (F := F) blocks) (processBlock env clock block) := by
  apply processBlock_preserves_liveTickets env
  · exact LiveTicketsPool.preserves_updateForNewBlock hblock
  · intro pool hpool
    exact hpool.processTicketFinality _

/-- The chains that processing blocks leads to, with the last block first. A block that is refused
may have been processed in part. -/
inductive Processed : List Block → Blockchain F → Prop where
  | new : Processed [] Blockchain.new
  | step {blocks : List Block} {chain : Blockchain F} (clock : Nat → UInt64) (block : Block) :
      Processed blocks chain →
        Processed (block :: blocks) ((processBlock env clock block).run chain).2

variable {blocks : List Block} {chain : Blockchain F}

theorem Processed.ticketsBoughtIn
    (h : Processed env blocks chain) : chain.TicketsBoughtIn blocks := by
  induction h with
  | new => exact nofun
  | step clock block _ ih =>
    apply preserves_processBlock env mem_cons_self clock
    exact ih.mono fun b hb => mem_cons_of_mem block hb

/-- A block with a signed vote of each of five selected tickets. -/
structure FullVotes (chain : Blockchain F) (block : Block) : Prop where
  all : (block.ticketVotes.map TicketVote.ticketId).Perm
    (selectVoters env block.header.previousBlockHash chain.liveTickets)
  count : block.ticketVotes.length = votersPerBlock
  signed : ∀ vote ∈ block.ticketVotes, ∀ ticket,
    chain.liveTickets.getTicket vote.ticketId = some ticket →
      SignedVote env block.header ticket vote

/-- Selected tickets may vote, and a block with the votes of five of them passes. -/
structure VotingOpen (chain : Blockchain F) (header : BlockHeader) (totalReward : UInt64) :
    Prop where
  mayVote : ∀ ticketId ∈ selectVoters env header.previousBlockHash chain.liveTickets,
    ∃ ticket, chain.MayVote header ticketId ticket
  passes : ∀ block : Block, block.header = header → chain.FullVotes env block →
    chain.validateProofOfStakeAndRewards env block totalReward = .ok ()

/-- Voting is open after every run whose purchases are all younger than the expiry at the height of
the voting block, if there is a reward for each voter or none at all. -/
theorem votingOpen_of_recent_purchases
    (hrun : Processed env blocks chain) {header : BlockHeader} {totalReward : UInt64}
    (hrecent : ∀ block ∈ blocks, block.namedTickets ≠ [] →
      header.height < block.header.height + chain.params.ticketExpiry.toUInt64)
    (hreward : totalReward = 0 ∨ 5 ≤ totalReward) :
    chain.VotingOpen env header totalReward := by
  have hselected := highestScores_selectVoters env header.previousBlockHash chain.liveTickets
  have hmayVote : ∀ ticketId ∈ selectVoters env header.previousBlockHash chain.liveTickets,
      ∃ ticket, chain.MayVote header ticketId ticket := by
    intro ticketId hvoter
    obtain ⟨ticket, hticket, hlive⟩ := hselected.live ticketId hvoter
    obtain ⟨block, hblock, hbuys, hheight⟩ := hrun.ticketsBoughtIn env ticketId ticket hticket
    have hage := hrecent block hblock hbuys
    rw [← hheight] at hage
    exact ⟨ticket, hticket, hlive, hage⟩
  refine ⟨hmayVote, ?_⟩
  rintro block rfl hfull
  have hvotes : block.ticketVotes ≠ [] := by
    apply ne_nil_of_length_pos
    rw [hfull.count]
    decide
  refine (validateProofOfStakeAndRewards_ok_iff env chain hvotes totalReward).mpr
    ⟨⟨hfull.count, hfull.all.nodup_iff.mpr hselected.distinct, ?_⟩, hreward⟩
  intro vote hvote
  have hmem := hfull.all.mem_iff.mp (mem_map.mpr ⟨vote, hvote, rfl⟩)
  obtain ⟨ticket, hmay⟩ := hmayVote vote.ticketId hmem
  exact ⟨hmem, ticket, hmay, hfull.signed vote hvote ticket hmay.1⟩

/-- Process the blocks of a list, the last one first. -/
def processAll (clock : Nat → UInt64) : List Block → Blockchain F
  | [] => new
  | block :: blocks => ((processBlock env clock block).run (processAll clock blocks)).2

theorem processed_processAll (clock : Nat → UInt64) (blocks : List Block) :
    Processed env blocks (processAll env clock blocks : Blockchain F) := by
  induction blocks with
  | nil => exact .new
  | cons block blocks ih => exact .step clock block ih

/-- A platform whose digests are the first bytes of what is hashed. The id of a purchase starts
with a byte that is no ticket's. -/
def leadingBytesPlatform : Platform :=
  { Platform.lenient with
    blake3 := fun bytes => List.Vector.ofFn fun k => bytes.getD k 0
    serializeTransaction := fun tx => 6 :: (tx.getOutputs.map TxOutput.scriptPubkey).flatten }

/-- The first block has five outputs, the second one spends each of them on a ticket, and the third
one makes the tickets live. -/
def ticketBlocks : List Block :=
  let fund := coinbaseOf (List.replicate 5 1000)
  let buy (i : UInt8) : Transaction :=
    .ticketPurchase 1
      [.fromOutpoint ⟨fund.txid leadingBytesPlatform, (i - 1).toUInt32⟩ [] 0xFFFFFFFF []]
      [⟨900, .replicate 32 i, none⟩] (.replicate 32 i) 900 0 100 (.replicate 32 i) []
  let header (height : UInt64) : BlockHeader :=
    ⟨1, height, .replicate 32 0, .replicate 32 0, .replicate 32 0, 0, 0, 0⟩
  [⟨header 102, [], []⟩, ⟨header 101, [], [1, 2, 3, 4, 5].map buy⟩, ⟨header 1, [], [fund]⟩]

def ticketChain : Blockchain Rat :=
  processAll leadingBytesPlatform (fun _ => 0) ticketBlocks

theorem ticketChain_accepts_early :
    ticketChain.validateProofOfStakeAndRewards leadingBytesPlatform (fiveVotes 110) 0 = .ok () := by
  decide +kernel

/-- At any height the five votes are signed votes of the selected tickets. -/
theorem fullVotes_fiveVotes (height : UInt64) :
    ticketChain.FullVotes leadingBytesPlatform (fiveVotes height) := by
  have hall : ((fiveVotes 0).ticketVotes.map TicketVote.ticketId).Perm
      (selectVoters leadingBytesPlatform (.replicate 32 0) ticketChain.liveTickets) := by
    decide +kernel
  refine ⟨hall, rfl, ?_⟩
  intro vote hvote ticket hticket
  have hearly := (validateProofOfStakeAndRewards_ok_iff leadingBytesPlatform ticketChain
    (by decide) 0).mp ticketChain_accepts_early
  obtain ⟨_, found, hmay, hsigned⟩ := hearly.1.each vote hvote
  obtain rfl : found = ticket := Option.some.inj (hmay.1.symm.trans hticket)
  exact ⟨hsigned.blockHash, hsigned.signature, hsigned.kind⟩

theorem votingOpen_after_ticketBlocks :
    ticketChain.VotingOpen leadingBytesPlatform (fiveVotes 110).header 0 ∧
      ticketChain.validateProofOfStakeAndRewards leadingBytesPlatform (fiveVotes 110) 0 =
        .ok () := by
  have hopen : ticketChain.VotingOpen leadingBytesPlatform (fiveVotes 110).header 0 := by
    apply votingOpen_of_recent_purchases leadingBytesPlatform
      (processed_processAll leadingBytesPlatform (fun _ => 0) ticketBlocks)
    · decide +kernel
    · exact .inl rfl
  exact ⟨hopen, hopen.passes (fiveVotes 110) rfl (fullVotes_fiveVotes 110)⟩

/-- The same votes are refused when the tickets that cast them are too old, and there are no others
to select. -/
theorem voting_blocked_by_stale_tickets :
    Processed leadingBytesPlatform ticketBlocks ticketChain ∧
      ticketChain.state.currentHeight = 102 ∧
      ticketChain.FullVotes leadingBytesPlatform (fiveVotes 4197) ∧
      ticketChain.validateProofOfStakeAndRewards leadingBytesPlatform (fiveVotes 4197) 0 =
        fail (.expiredTicket ("Ticket " ++ ConsensusError.debugTicketId (.replicate 32 1) ++
          " has expired")) ∧
      ¬ ticketChain.VotingOpen leadingBytesPlatform (fiveVotes 4197).header 0 := by
  have hrefused : ticketChain.validateProofOfStakeAndRewards leadingBytesPlatform
      (fiveVotes 4197) 0 =
        fail (.expiredTicket ("Ticket " ++ ConsensusError.debugTicketId (.replicate 32 1) ++
          " has expired")) := by
    decide +kernel
  refine ⟨processed_processAll _ _ _, by decide +kernel, fullVotes_fiveVotes 4197, hrefused, ?_⟩
  intro hopen
  have hpasses := hopen.passes (fiveVotes 4197) rfl (fullVotes_fiveVotes 4197)
  rw [hrefused] at hpasses
  exact fail_ne_ok _ _ hpasses

end Blockchain

end RustyCoin
