import RustyCoin.RustyConsensus.Error

/-!
# The votes that count

`is_block_final` compares the number of votes for a block with two thirds of the
selected tickets, rounded down. It does not look at who has voted. The two
functions named `validate_ticket_votes` count the votes of a block: the one of
`pos.rs` looks up every ticket and takes one vote of each, the one of
`validation.rs` has no tickets to look up and takes one vote of each ticket for
each block.
-/

namespace RustyCoin.RustyConsensus

open Outcome TicketVote List

section

def isBlockFinal (blockHash : Hash) (votes : List TicketVote) (selectedTickets : List TicketId) :
    Bool :=
  if selectedTickets.isEmpty then false
  else
    let validVotes := votes.countP fun v => v.blockHash = blockHash
    let threshold := selectedTickets.length * 2 / 3
    decide (validVotes ≥ threshold)

/-- How many of the selected tickets have cast a vote for a block. -/
def votersFor (blockHash : Hash) (votes : List TicketVote) (selectedTickets : List TicketId) :
    Nat :=
  selectedTickets.countP fun ticketId =>
    votes.any fun v => v.ticketId = ticketId ∧ v.blockHash = blockHash

/-- A final block has the votes of two thirds of the selected tickets, rounded up. -/
def FinalHasQuorum (votes : List TicketVote) (selectedTickets : List TicketId) : Prop :=
  ∀ blockHash, isBlockFinal blockHash votes selectedTickets = true →
    (selectedTickets.length * 2 + 2) / 3 ≤ votersFor blockHash votes selectedTickets

/-- No ticket votes for two blocks. -/
def SingleVotes (votes : List TicketVote) : Prop :=
  ∀ v ∈ votes, ∀ v' ∈ votes, v.ticketId = v'.ticketId → v.blockHash = v'.blockHash

/-- Unless some ticket votes for two blocks, at most one block is final. -/
def FinalIsUnique (votes : List TicketVote) (selectedTickets : List TicketId) : Prop :=
  SingleVotes votes → ∀ blockHash blockHash', isBlockFinal blockHash votes selectedTickets = true →
    isBlockFinal blockHash' votes selectedTickets = true → blockHash = blockHash'

/-- Every vote is the only one of a selected ticket. -/
structure OneVoteEach (votes : List TicketVote) (selectedTickets : List TicketId) : Prop where
  distinct : (votes.map ticketId).Nodup
  selected : ∀ v ∈ votes, v.ticketId ∈ selectedTickets

variable {blockHash : Hash} {votes : List TicketVote} {selectedTickets : List TicketId}

theorem isBlockFinal_iff :
    isBlockFinal blockHash votes selectedTickets = true ↔
      selectedTickets ≠ [] ∧
        selectedTickets.length * 2 / 3 ≤ votes.countP fun v => v.blockHash = blockHash := by
  unfold isBlockFinal
  cases selectedTickets with
  | nil => simp
  | cons ticketId rest => simp

/-- Some votes of one ticket for one block. -/
def repeatedVotes (n : Nat) (ticketId : TicketId) (blockHash : Hash) : List TicketVote :=
  List.replicate n ⟨ticketId, blockHash, 0, .replicate 64 0⟩

@[simp] theorem countP_repeatedVotes (n : Nat) (ticketId : TicketId) (blockHash : Hash) :
    ((repeatedVotes n ticketId blockHash).countP fun v => v.blockHash = blockHash) = n := by
  rw [repeatedVotes, countP_replicate]
  exact if_pos (decide_eq_true rfl)

/-- No ticket has more votes than there are. -/
theorem votersFor_le_countP (blockHash : Hash) (votes : List TicketVote)
    (hset : selectedTickets.Nodup) :
    votersFor blockHash votes selectedTickets ≤ votes.countP fun v => v.blockHash = blockHash := by
  rw [votersFor, countP_eq_length_filter, countP_eq_length_filter, ← length_map (f := ticketId)]
  refine ((hset.filter _).subperm fun ticketId hmem => ?_).length_le
  obtain ⟨v, hv, heq⟩ := any_eq_true.mp (mem_filter.mp hmem).2
  obtain ⟨hticket, hhash⟩ := of_decide_eq_true heq
  exact mem_map.mpr ⟨v, mem_filter.mpr ⟨hv, decide_eq_true hhash⟩, hticket⟩

/-- With one vote of each ticket the votes can be counted. -/
theorem countP_le_votersFor (blockHash : Hash) (heach : OneVoteEach votes selectedTickets) :
    (votes.countP fun v => v.blockHash = blockHash) ≤
      votersFor blockHash votes selectedTickets := by
  rw [votersFor, countP_eq_length_filter, countP_eq_length_filter, ← length_map (f := ticketId)]
  have hdistinct :
      ((votes.filter fun v => v.blockHash = blockHash).map ticketId).Nodup :=
    heach.distinct.sublist (filter_sublist.map _)
  refine (hdistinct.subperm fun ticketId hmem => ?_).length_le
  obtain ⟨v, hv, rfl⟩ := mem_map.mp hmem
  obtain ⟨hvote, hhash⟩ := mem_filter.mp hv
  refine mem_filter.mpr ⟨heach.selected v hvote, any_eq_true.mpr ⟨v, hvote, ?_⟩⟩
  exact decide_eq_true ⟨rfl, of_decide_eq_true hhash⟩

theorem countP_add_countP_le (votes : List TicketVote) {blockHash' : Hash}
    (hne : blockHash ≠ blockHash') :
    (votes.countP fun v => v.blockHash = blockHash) +
      (votes.countP fun v => v.blockHash = blockHash') ≤ votes.length := by
  rw [length_eq_countP_add_countP fun v => decide (v.blockHash = blockHash)]
  refine Nat.add_le_add_left (countP_mono_left fun v _ hv => ?_) _
  rw [of_decide_eq_true hv]
  simpa using hne.symm

theorem not_finalHasQuorum_repeatedVotes {ticketId : TicketId} (hmem : ticketId ∈ selectedTickets)
    (hset : selectedTickets.Nodup) :
    ¬ FinalHasQuorum (repeatedVotes (selectedTickets.length * 2 / 3) ticketId (.replicate 32 0))
      selectedTickets := by
  intro hquorum
  have hvoters := hquorum (.replicate 32 0) (isBlockFinal_iff.mpr
    ⟨ne_nil_of_mem hmem, (countP_repeatedVotes _ _ _).ge⟩)
  have hcount := votersFor_le_countP (.replicate 32 0)
    (repeatedVotes (selectedTickets.length * 2 / 3) ticketId (.replicate 32 0)) hset
  have hone : votersFor (.replicate 32 0) (repeatedVotes (selectedTickets.length * 2 / 3) ticketId
      (.replicate 32 0)) selectedTickets ≤ 1 := by
    refine Nat.le_trans ?_ (nodup_iff_count_le_one.mp hset ticketId)
    refine countP_mono_left fun id _ hid => ?_
    obtain ⟨v, hv, heq⟩ := any_eq_true.mp hid
    rw [eq_of_mem_replicate hv] at heq
    exact beq_iff_eq.mpr (of_decide_eq_true heq).1.symm
  have hpos := length_pos_of_mem hmem
  rw [countP_repeatedVotes] at hcount
  omega

/-- Two tickets that vote equally often, each for a block of its own. -/
def opposedVotes (n : Nat) : List TicketVote :=
  repeatedVotes n (.replicate 32 0) (.replicate 32 0) ++
    repeatedVotes n (.replicate 32 1) (.replicate 32 1)

theorem singleVotes_opposedVotes (n : Nat) : SingleVotes (opposedVotes n) := by
  have hown : ∀ v ∈ opposedVotes n, v.blockHash = v.ticketId := by
    intro v hv
    rcases mem_append.mp hv with hv | hv
    all_goals rw [eq_of_mem_replicate hv]
  intro v hv v' hv' heq
  rw [hown v hv, hown v' hv', heq]

theorem le_countP_opposedVotes (n : Nat) {blockHash : Hash}
    (h : blockHash = .replicate 32 0 ∨ blockHash = .replicate 32 1) :
    n ≤ (opposedVotes n).countP fun v => v.blockHash = blockHash := by
  rw [opposedVotes, countP_append]
  rcases h with rfl | rfl
  · rw [countP_repeatedVotes]
    exact Nat.le_add_right _ _
  · rw [countP_repeatedVotes n (.replicate 32 1)]
    exact Nat.le_add_left _ _

/-- Two tickets can make two blocks final for any selection. -/
theorem not_finalIsUnique_opposedVotes (hne : selectedTickets ≠ []) :
    ¬ FinalIsUnique (opposedVotes (selectedTickets.length * 2 / 3)) selectedTickets := by
  intro hunique
  have hsame : (.replicate 32 0 : Hash) = .replicate 32 1 :=
    hunique (singleVotes_opposedVotes _) _ _
      (isBlockFinal_iff.mpr ⟨hne, le_countP_opposedVotes _ (Or.inl rfl)⟩)
      (isBlockFinal_iff.mpr ⟨hne, le_countP_opposedVotes _ (Or.inr rfl)⟩)
  revert hsame
  decide

variable (heach : OneVoteEach votes selectedTickets)

include heach

theorem OneVoteEach.length_le : votes.length ≤ selectedTickets.length := by
  rw [← length_map (f := ticketId)]
  refine (heach.distinct.subperm fun ticketId hmem => ?_).length_le
  obtain ⟨v, hv, rfl⟩ := mem_map.mp hmem
  exact heach.selected v hv

theorem OneVoteEach.finalHasQuorum
    (hthird : 3 ∣ selectedTickets.length) : FinalHasQuorum votes selectedTickets := by
  intro blockHash hfinal
  have hcount := (isBlockFinal_iff.mp hfinal).2
  have hvoters := countP_le_votersFor blockHash heach
  omega

theorem OneVoteEach.finalIsUnique
    (hthird : 3 ∣ selectedTickets.length) : FinalIsUnique votes selectedTickets := by
  intro _ blockHash blockHash' hfinal hfinal'
  obtain ⟨hne, hcount⟩ := isBlockFinal_iff.mp hfinal
  have hcount' := (isBlockFinal_iff.mp hfinal').2
  by_contra hdifferent
  have hsum := countP_add_countP_le votes hdifferent
  have hlength := heach.length_le
  have hpos := length_pos_iff.mpr hne
  omega

omit heach

/-- A vote for one block of each of the first selected tickets. -/
def firstVotes (selectedTickets : List TicketId) : List TicketVote :=
  (selectedTickets.take (selectedTickets.length * 2 / 3)).map fun ticketId =>
    ⟨ticketId, .replicate 32 0, 0, .replicate 64 0⟩

theorem oneVoteEach_firstVotes (hset : selectedTickets.Nodup) :
    OneVoteEach (firstVotes selectedTickets) selectedTickets where
  distinct := by
    rw [firstVotes, map_map]
    exact (map_id' _).symm ▸ hset.sublist (take_sublist _ _)
  selected := by
    intro v hv
    obtain ⟨ticketId, hmem, rfl⟩ := mem_map.mp hv
    exact mem_of_mem_take hmem

/-- Two thirds are rounded down. -/
theorem not_finalHasQuorum_firstVotes (hset : selectedTickets.Nodup)
    (hthird : ¬ 3 ∣ selectedTickets.length) :
    ¬ FinalHasQuorum (firstVotes selectedTickets) selectedTickets := by
  intro hquorum
  have hcount : ((firstVotes selectedTickets).countP fun v => v.blockHash = .replicate 32 0) =
      selectedTickets.length * 2 / 3 := by
    rw [firstVotes, countP_map]
    rw [countP_eq_length.mpr (by simp), length_take]
    omega
  have hne : selectedTickets ≠ [] := by
    rintro rfl
    exact hthird (Nat.dvd_zero 3)
  have hvoters := hquorum (.replicate 32 0) (isBlockFinal_iff.mpr ⟨hne, hcount.ge⟩)
  have hle := votersFor_le_countP (.replicate 32 0) (firstVotes selectedTickets) hset
  rw [hcount] at hle
  have hrest : selectedTickets.length % 3 = 1 ∨ selectedTickets.length % 3 = 2 := by omega
  rcases hrest with hone | htwo
  · omega
  · omega

/-- Whatever the votes, finality means what it is to mean for the empty selection only. If every
vote is the only one of a selected ticket, it does when the number of tickets can be divided by
three. -/
theorem isBlockFinal_sound_iff (hset : selectedTickets.Nodup) :
    ((∀ votes, FinalHasQuorum votes selectedTickets) ↔ selectedTickets = []) ∧
      ((∀ votes, FinalIsUnique votes selectedTickets) ↔ selectedTickets = []) ∧
      ((∀ votes, OneVoteEach votes selectedTickets →
          FinalHasQuorum votes selectedTickets ∧ FinalIsUnique votes selectedTickets) ↔
        3 ∣ selectedTickets.length) := by
  refine ⟨⟨?_, ?_⟩, ⟨?_, ?_⟩, ?_, ?_⟩
  · intro hall
    by_contra hne
    obtain ⟨ticketId, hmem⟩ := exists_mem_of_ne_nil _ hne
    exact not_finalHasQuorum_repeatedVotes hmem hset (hall _)
  · rintro rfl votes blockHash hfinal
    cases hfinal
  · intro hall
    by_contra hne
    exact not_finalIsUnique_opposedVotes hne (hall _)
  · rintro rfl votes - blockHash blockHash' hfinal
    cases hfinal
  · intro hall
    by_contra hthird
    exact not_finalHasQuorum_firstVotes hset hthird (hall _ (oneVoteEach_firstVotes hset)).1
  · intro hthird votes heach
    exact ⟨heach.finalHasQuorum hthird, heach.finalIsUnique hthird⟩

/-- Three tickets that vote once each. -/
theorem isBlockFinal_sound_for_three :
    let selected : List TicketId := [.replicate 32 1, .replicate 32 2, .replicate 32 3]
    selected.Nodup ∧ ∀ votes, OneVoteEach votes selected →
      FinalHasQuorum votes selected ∧ FinalIsUnique votes selected :=
  have hset : ([.replicate 32 1, .replicate 32 2, .replicate 32 3] : List TicketId).Nodup := by
    decide
  ⟨hset, (isBlockFinal_sound_iff hset).2.2.mpr ⟨1, rfl⟩⟩

/-- A vote of the ticket with the given number for the block with the given number. -/
def numberedVote (ticket block : UInt8) : TicketVote :=
  ⟨.replicate 32 ticket, .replicate 32 block, 0, .replicate 64 0⟩

/-- Of four tickets two vote for one block and two for another one, and both blocks are final. -/
theorem isBlockFinal_twice :
    let selected : List TicketId := [1, 2, 3, 4].map (.replicate 32 ·)
    let votes := [numberedVote 1 8, numberedVote 2 8, numberedVote 3 9, numberedVote 4 9]
    OneVoteEach votes selected ∧ ¬ FinalHasQuorum votes selected ∧
      ¬ FinalIsUnique votes selected := by
  intro selected votes
  have hfinal : isBlockFinal (.replicate 32 8) votes selected = true := by decide
  have hfinal' : isBlockFinal (.replicate 32 9) votes selected = true := by decide
  have hsingle : SingleVotes votes := by
    unfold SingleVotes
    decide
  refine ⟨⟨by decide, by decide⟩, fun hquorum => ?_, fun hunique => ?_⟩
  · exact absurd (hquorum _ hfinal) (by decide)
  · exact absurd (hunique hsingle _ _ hfinal hfinal') (by decide)

end

section

/-- `MIN_VALID_VOTES_REQUIRED` -/
def minValidVotesRequired : Nat := 3

/-- `TICKET_EXPIRATION_BLOCKS` -/
def ticketExpirationBlocks : UInt64 := 40960

/-- What both functions do with the number of votes that their loops count. -/
def requireQuorum (votes : List TicketVote) (counted : ConsensusResult Nat) :
    ConsensusResult Unit :=
  if votes.isEmpty then fail .noTicketVotes
  else do
    let validVotes ← counted
    if validVotes < minValidVotesRequired then fail .insufficientTicketVotes else return ()

theorem requireQuorum_ok {votes : List TicketVote} {counted : ConsensusResult Nat}
    (h : requireQuorum votes counted = .ok ()) : ∃ validVotes, counted = .ok validVotes := by
  rw [requireQuorum, ite_fail_eq_ok, bind_eq_ok] at h
  obtain ⟨-, validVotes, hcounted, -⟩ := h
  exact ⟨validVotes, hcounted⟩

namespace Validation

/-- The loop over the votes, with the pairs of tickets and blocks seen so far and the number of
votes that it has counted. -/
def countVotes : List TicketVote → List (Hash × Hash) → Nat → ConsensusResult Nat
  | [], _, validVoteCount => .ok validVoteCount
  | vote :: rest, seenVotes, validVoteCount =>
    if (vote.ticketId, vote.blockHash) ∈ seenVotes then fail .duplicateTicketVote
    else if vote.ticketId = .replicate 32 0 then fail .invalidTicketID
    else if vote.blockHash = .replicate 32 0 then fail .invalidBlockHash
    else if vote.signature.toList.length ≠ 64 then fail .invalidSignature
    else countVotes rest ((vote.ticketId, vote.blockHash) :: seenVotes) (validVoteCount + 1)

/-- `validate_ticket_votes` of `validation.rs`. The height and the previous block are not looked
at. -/
def validateTicketVotes (votes : List TicketVote) (_currentHeight : UInt64)
    (_previousBlockHash : Hash) : ConsensusResult Unit :=
  requireQuorum votes (countVotes votes [] 0)

/-- The loop accepts different pairs of tickets and blocks, and counts all of them. -/
theorem countVotes_ok {votes : List TicketVote} {seenVotes : List (Hash × Hash)}
    {validVoteCount counted : Nat} (h : countVotes votes seenVotes validVoteCount = .ok counted) :
    (votes.map fun v => (v.ticketId, v.blockHash)).Nodup ∧
      (votes.map fun v => (v.ticketId, v.blockHash)).Disjoint seenVotes ∧
        counted = validVoteCount + votes.length := by
  induction votes generalizing seenVotes validVoteCount with
  | nil =>
    cases h
    exact ⟨nodup_nil, disjoint_nil_left _, rfl⟩
  | cons vote votes ih =>
    rw [countVotes, ite_fail_eq_ok, ite_fail_eq_ok, ite_fail_eq_ok, ite_fail_eq_ok] at h
    obtain ⟨hnew, -, -, -, hloop⟩ := h
    obtain ⟨hnodup, hseen, hcount⟩ := ih hloop
    obtain ⟨hlater, hseen⟩ := disjoint_cons_right.mp hseen
    refine ⟨nodup_cons.mpr ⟨hlater, hnodup⟩, disjoint_cons_left.mpr ⟨hnew, hseen⟩, ?_⟩
    rw [hcount, length_cons]
    omega

end Validation

namespace Pos

variable (allTickets : HashMap TicketId Ticket) (currentHeight : UInt64)

/-- The loop over the votes, with the tickets seen so far and the number of votes that it has
counted. -/
def countVotes : List TicketVote → List Hash → Nat → ConsensusResult Nat
  | [], _, validVotes => .ok validVotes
  | vote :: rest, seenTickets, validVotes =>
    if seenTickets.contains vote.ticketId then fail .duplicateTicketVote
    else
      match allTickets.lookup vote.ticketId with
      | none => fail .invalidTicketID
      | some ticket =>
        if ticket.status ≠ .live then fail .invalidTicketStatus
        else if currentHeight ≥ ticket.height + ticketExpirationBlocks then fail .expiredTicket
        else if vote.vote > 2 then fail .invalidVoteType
        else countVotes rest (vote.ticketId :: seenTickets) (validVotes + 1)

/-- `validate_ticket_votes` of `pos.rs`. The parameters of the chain are not looked at. -/
def validateTicketVotes (votes : List TicketVote) : ConsensusResult Unit :=
  requireQuorum votes (countVotes allTickets currentHeight votes [] 0)

end Pos

/-- Is a ticket live and not expired? -/
def mayVote (tickets : HashMap TicketId Ticket) (height : UInt64) (ticketId : TicketId) : Bool :=
  match tickets.lookup ticketId with
  | none => false
  | some ticket =>
    ticket.status = .live ∧ height.toNat < ticket.height.toNat + ticketExpirationBlocks.toNat

namespace Pos

/-- The loop accepts different tickets that are live and not expired, and counts all of them. -/
theorem countVotes_ok {allTickets : HashMap TicketId Ticket} {currentHeight : UInt64}
    {votes : List TicketVote} {seenTickets : List Hash} {validVotes counted : Nat}
    (h : countVotes allTickets currentHeight votes seenTickets validVotes = .ok counted) :
    (votes.map ticketId).Nodup ∧
      (votes.map ticketId).Disjoint seenTickets ∧
      (∀ v ∈ votes, mayVote allTickets currentHeight v.ticketId = true) ∧
        counted = validVotes + votes.length := by
  induction votes generalizing seenTickets validVotes with
  | nil =>
    cases h
    exact ⟨nodup_nil, disjoint_nil_left _, nofun, rfl⟩
  | cons vote votes ih =>
    rw [countVotes, ite_fail_eq_ok, contains_iff_mem] at h
    obtain ⟨hnew, h⟩ := h
    split at h
    · exact absurd h (fail_ne_ok _ _)
    · rename_i ticket hticket
      rw [ite_fail_eq_ok, ite_fail_eq_ok, ite_fail_eq_ok, not_not] at h
      obtain ⟨hlive, hexpired, -, hloop⟩ := h
      obtain ⟨hnodup, hseen, hmay, hcount⟩ := ih hloop
      -- a sum that wraps is smaller, so the ticket is not expired
      have hheight : currentHeight.toNat <
          ticket.height.toNat + ticketExpirationBlocks.toNat := by
        have hlt := UInt64.lt_iff_toNat_lt.mp (UInt64.not_le.mp hexpired)
        rw [UInt64.toNat_add] at hlt
        exact Nat.lt_of_lt_of_le hlt (Nat.mod_le _ _)
      have hvote : mayVote allTickets currentHeight vote.ticketId = true := by
        rw [mayVote, hticket]
        exact decide_eq_true ⟨hlive, hheight⟩
      obtain ⟨hlater, hseen⟩ := disjoint_cons_right.mp hseen
      refine ⟨nodup_cons.mpr ⟨hlater, hnodup⟩, disjoint_cons_left.mpr ⟨hnew, hseen⟩,
        forall_mem_cons.mpr ⟨hvote, hmay⟩, ?_⟩
      rw [hcount, length_cons]
      omega

end Pos

/-- One ticket, one vote: no ticket votes twice, and no more votes are counted than live tickets
that are not expired have voted. -/
structure OneTicketOneVote (tickets : HashMap TicketId Ticket) (height : UInt64)
    (votes : List TicketVote) (counted : Nat) : Prop where
  distinct : (votes.map ticketId).Nodup
  counted : counted ≤ ((votes.map ticketId).dedup.countP (mayVote tickets height))

/-- If all votes are counted, the law says that the tickets differ and may vote. -/
theorem oneTicketOneVote_iff {tickets : HashMap TicketId Ticket} {height : UInt64}
    {votes : List TicketVote} :
    OneTicketOneVote tickets height votes votes.length ↔
      (votes.map ticketId).Nodup ∧
        ∀ v ∈ votes, mayVote tickets height v.ticketId = true := by
  constructor
  · rintro ⟨hdistinct, hcounted⟩
    rw [hdistinct.dedup] at hcounted
    have hlength : (votes.map ticketId).countP (mayVote tickets height) =
        (votes.map ticketId).length :=
      Nat.le_antisymm countP_le_length ((length_map _).le.trans hcounted)
    rw [countP_eq_length, forall_mem_map] at hlength
    exact ⟨hdistinct, hlength⟩
  · rintro ⟨hdistinct, hmay⟩
    refine ⟨hdistinct, ?_⟩
    rw [hdistinct.dedup, countP_eq_length.mpr (forall_mem_map.mpr hmay), length_map]

/-- Different pairs are of different tickets if no ticket votes for two blocks. -/
theorem nodup_ticketIds_iff {votes : List TicketVote}
    (hpairs : (votes.map fun v => (v.ticketId, v.blockHash)).Nodup) :
    (votes.map ticketId).Nodup ↔ SingleVotes votes := by
  constructor
  · intro hdistinct v hv v' hv' hticket
    rw [inj_on_of_nodup_map hdistinct hv hv' hticket]
  · intro hsingle
    refine (List.Nodup.of_map _ hpairs).map_on fun v hv v' hv' hticket => ?_
    exact inj_on_of_nodup_map hpairs hv hv' (Prod.ext hticket (hsingle v hv v' hv' hticket))

/-- The votes that `validation.rs` accepts obey the law exactly when no ticket votes for two blocks
and every ticket is live and not expired. All votes that `pos.rs` accepts obey it. -/
theorem validateTicketVotes_oneTicketOneVote_iff (tickets : HashMap TicketId Ticket)
    (currentHeight : UInt64) (votes : List TicketVote) :
    (∀ previousBlockHash,
      Validation.validateTicketVotes votes currentHeight previousBlockHash = .ok () →
        ∃ counted, Validation.countVotes votes [] 0 = .ok counted ∧
          (OneTicketOneVote tickets currentHeight votes counted ↔
            SingleVotes votes ∧ ∀ v ∈ votes, mayVote tickets currentHeight v.ticketId = true)) ∧
      (Pos.validateTicketVotes tickets currentHeight votes = .ok () →
        ∃ counted, Pos.countVotes tickets currentHeight votes [] 0 = .ok counted ∧
          OneTicketOneVote tickets currentHeight votes counted) := by
  constructor
  · intro _ haccepted
    obtain ⟨counted, hcounted⟩ := requireQuorum_ok haccepted
    obtain ⟨hpairs, -, hlength⟩ := Validation.countVotes_ok hcounted
    rw [Nat.zero_add] at hlength
    refine ⟨counted, hcounted, ?_⟩
    rw [hlength, oneTicketOneVote_iff, nodup_ticketIds_iff hpairs]
  · intro haccepted
    obtain ⟨counted, hcounted⟩ := requireQuorum_ok haccepted
    obtain ⟨hdistinct, -, hmay, hlength⟩ := Pos.countVotes_ok hcounted
    rw [Nat.zero_add] at hlength
    refine ⟨counted, hcounted, ?_⟩
    rw [hlength, oneTicketOneVote_iff]
    exact ⟨hdistinct, hmay⟩

/-- Three live tickets. -/
def threeTickets : HashMap TicketId Ticket :=
  HashMap.insertAll ∅ ([1, 2, 3].map fun i =>
    (.replicate 32 i, ⟨.replicate 32 i, .replicate 32 i, 1, 900, .live⟩))

/-- Both functions accept their votes for one block. -/
theorem validateTicketVotes_three :
    let votes := [numberedVote 1 8, numberedVote 2 8, numberedVote 3 8]
    Validation.validateTicketVotes votes 10 (.replicate 32 8) = .ok () ∧
      Pos.validateTicketVotes threeTickets 10 votes = .ok () ∧
        ∃ counted, Validation.countVotes votes [] 0 = .ok counted ∧
          OneTicketOneVote threeTickets 10 votes counted := by
  intro votes
  have haccepted : Validation.validateTicketVotes votes 10 (.replicate 32 8) = .ok () := by
    decide +kernel
  have hsingle : SingleVotes votes := by
    unfold SingleVotes
    decide
  obtain ⟨counted, hcounted, hlaw⟩ :=
    (validateTicketVotes_oneTicketOneVote_iff threeTickets 10 votes).1 _ haccepted
  exact ⟨haccepted, by decide +kernel, counted, hcounted, hlaw.mpr ⟨hsingle, by decide +kernel⟩⟩

/-- One ticket votes for three blocks, and all of its votes are counted. -/
theorem validateTicketVotes_counts_one_ticket_thrice :
    let votes := [numberedVote 1 7, numberedVote 1 8, numberedVote 1 9]
    Validation.validateTicketVotes votes 10 (.replicate 32 8) = .ok () ∧
      Validation.countVotes votes [] 0 = .ok 3 ∧
        ∀ tickets, ¬ OneTicketOneVote tickets 10 votes 3 := by
  intro votes
  refine ⟨by decide +kernel, by decide +kernel, fun tickets hlaw => ?_⟩
  exact absurd hlaw.distinct (by decide)

end

end RustyCoin.RustyConsensus
