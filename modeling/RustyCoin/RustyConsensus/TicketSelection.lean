import RustyCoin.Consensus.Voters

/-!
# The voters that rusty-consensus selects

The lottery of `pos_selection.rs` gives every live ticket a digest as its score
and selects the tickets with the lowest scores. The live tickets are collected
into a new map, whose order of iteration is a parameter. The selection does not
depend on it.

The lottery of rusty-core has other scores, and selects the highest ones. The two
agree on a pool when the same tickets are ahead of all but a few in both orders.
-/

namespace RustyCoin.RustyConsensus

open TopK List

/-- The order in which a newly collected map is iterated. -/
structure MapOrder where
  reorder : HashMap TicketId Ticket → HashMap TicketId Ticket
  same : ∀ tickets, (reorder tickets).SameEntries tickets

/-- A new map is iterated as it was filled. -/
def MapOrder.kept : MapOrder := ⟨id, fun _ => .refl _⟩

variable (env : Platform)

/-- The score of a ticket: BLAKE3 of the seed and the id. -/
def dprf (seed : Hash) (ticketId : TicketId) : Hash :=
  env.blake3 (seed.toList ++ ticketId.toList)

/-- The order of the lottery: by score, then by ticket id, both as byte arrays. -/
def lotteryLE (a b : TicketId × Hash) : Prop :=
  a.2.toList < b.2.toList ∨ a.2 = b.2 ∧ a.1.toList ≤ b.1.toList

instance : DecidableRel lotteryLE := fun a b =>
  inferInstanceAs (Decidable (a.2.toList < b.2.toList ∨ a.2 = b.2 ∧ a.1.toList ≤ b.1.toList))

/-- The live tickets with the lowest scores. -/
def selectTicketsForVoting (order : MapOrder) (liveTickets : HashMap TicketId Ticket)
    (previousBlockHash : Hash) (numTicketsRequired : Nat) : List TicketId :=
  if liveTickets.len = 0 then []
  else
    let liveTickets := order.reorder (HashMap.insertAll ∅
      (liveTickets.toPairs.filter fun (_, ticket) => ticket.status = .live))
    if liveTickets.len = 0 then []
    else
      let seed := env.blake3 previousBlockHash.toList
      let ticketScores :=
        liveTickets.keys.map fun ticketId => (ticketId, dprf env seed ticketId)
      ((ticketScores.insertionSort lotteryLE).take numTicketsRequired).map Prod.fst

instance : Std.Total lotteryLE where
  total a b := by
    by_cases hlt : a.2.toList < b.2.toList
    · exact Or.inl (Or.inl hlt)
    · rcases List.le_iff_lt_or_eq.mp (List.not_lt.mp hlt) with hgt | heq
      · exact Or.inr (Or.inl hgt)
      · have hscore : b.2 = a.2 := List.Vector.toList_injective heq
        rcases List.le_total a.1.toList b.1.toList with hid | hid
        · exact Or.inl (Or.inr ⟨hscore.symm, hid⟩)
        · exact Or.inr (Or.inr ⟨hscore, hid⟩)

instance : IsTrans (TicketId × Hash) lotteryLE where
  trans a b c := by
    rintro (hab | ⟨hab, hid⟩) (hbc | ⟨hbc, hid'⟩)
    · exact Or.inl (List.lt_trans hab hbc)
    · exact Or.inl (hbc ▸ hab)
    · exact Or.inl (hab ▸ hbc)
    · exact Or.inr ⟨hab.trans hbc, List.le_trans hid hid'⟩

instance : Std.Antisymm lotteryLE where
  antisymm a b := by
    rintro (hab | ⟨hab, hid⟩) (hba | ⟨hba, hid'⟩)
    · exact absurd hba (List.lt_asymm hab)
    · exact absurd hab (hba ▸ List.lt_irrefl _)
    · exact absurd hba (hab ▸ List.lt_irrefl _)
    · exact Prod.ext (List.Vector.toList_injective (List.le_antisymm hid hid')) hab

variable (order : MapOrder) (tickets : HashMap TicketId Ticket) (previousBlockHash : Hash) (k : Nat)

/-- The ids of the live tickets. -/
def liveTicketIds : List TicketId := (⟨tickets⟩ : RustyCoin.LiveTicketsPool).liveTicketIds

/-- A ticket with its score in the lottery after a block. -/
def scored (ticketId : TicketId) : TicketId × Hash :=
  (ticketId, dprf env (env.blake3 previousBlockHash.toList) ticketId)

theorem scored_injective : Function.Injective (scored env previousBlockHash) :=
  fun _ _ h => congrArg Prod.fst h

/-- The keys of the collected map are the live tickets, in some order. -/
theorem keys_reorder :
    (order.reorder (HashMap.insertAll ∅
      (tickets.toPairs.filter fun (_, ticket) => ticket.status = .live))).keys.Perm
        (liveTicketIds tickets) :=
  (order.same _).keys.trans (HashMap.keys_collected (nodup_liveTicketIds ⟨tickets⟩))

theorem liveTicketIds_of_len_eq_zero (hempty : tickets.len = 0) : liveTicketIds tickets = [] := by
  refine eq_nil_iff_forall_not_mem.mpr fun ticketId hlive => ?_
  obtain ⟨ticket, hticket, -⟩ := mem_liveTicketIds.mp hlive
  have hkey : ticketId ∈ tickets := AList.lookup_isSome.mp (Option.isSome_of_mem hticket)
  rw [AList.mem_keys, HashMap.keys_of_len_eq_zero hempty] at hkey
  cases hkey

/-- The selection is a list of least elements, in whatever order the maps are iterated. -/
theorem selectTicketsForVoting_eq {ticketIds : List TicketId}
    (hperm : ticketIds.Perm (liveTicketIds tickets)) :
    selectTicketsForVoting env order tickets previousBlockHash k =
      (topK (Function.swap lotteryLE) k
        (ticketIds.map (scored env previousBlockHash))).map Prod.fst := by
  have hkeys := keys_reorder order tickets
  have hscores := topK_perm (r := Function.swap lotteryLE) (k := k)
    ((hperm.trans hkeys.symm).map (scored env previousBlockHash))
  rw [hscores, ← leastK_eq_topK]
  by_cases hempty : tickets.len = 0
  · rw [liveTicketIds_of_len_eq_zero tickets hempty] at hkeys
    rw [hkeys.eq_nil, map_nil, leastK_nil]
    exact if_pos hempty
  · refine (if_neg hempty).trans ?_
    by_cases hnone : (order.reorder (HashMap.insertAll ∅
        (tickets.toPairs.filter fun (_, ticket) => ticket.status = .live))).len = 0
    · rw [HashMap.keys_of_len_eq_zero hnone, map_nil, leastK_nil]
      exact if_pos hnone
    · exact if_neg hnone

/-- One pair of score and id is below another one. -/
def lotteryLT (a b : TicketId × Hash) : Prop :=
  a.2.toList < b.2.toList ∨ a.2 = b.2 ∧ a.1.toList < b.1.toList

/-- The voters that a map is to have: as many as are asked for or as there are live tickets, all of
them live and different, and those with the least scores and ids. -/
structure LowestScores (selected : List TicketId) : Prop where
  count : selected.length = min k (liveTicketIds tickets).length
  distinct : selected.Nodup
  live : ∀ ticketId ∈ selected, ∃ ticket,
    tickets.lookup ticketId = some ticket ∧ ticket.status = .live
  lowest : ∀ ticketId ∈ selected, ∀ other ∉ selected, ∀ ticket,
    tickets.lookup other = some ticket → ticket.status = .live →
      lotteryLT (scored env previousBlockHash ticketId) (scored env previousBlockHash other)

theorem lotteryLT_of_lotteryLE {a b : TicketId × Hash} (hle : lotteryLE a b) (hne : a.1 ≠ b.1) :
    lotteryLT a b := by
  rcases hle with hscore | ⟨hscore, hid⟩
  · exact Or.inl hscore
  · rcases List.le_iff_lt_or_eq.mp hid with hlt | heq
    · exact Or.inr ⟨hscore, hlt⟩
    · exact absurd (List.Vector.toList_injective heq) hne

variable {env order tickets previousBlockHash k}

variable {ticketId : TicketId}

theorem mem_selectTicketsForVoting :
    ticketId ∈ selectTicketsForVoting env order tickets previousBlockHash k ↔
      scored env previousBlockHash ticketId ∈
        topK (Function.swap lotteryLE) k
          ((liveTicketIds tickets).map (scored env previousBlockHash)) := by
  rw [selectTicketsForVoting_eq env order tickets previousBlockHash k (.refl _), mem_map]
  constructor
  · rintro ⟨pair, hpair, rfl⟩
    obtain ⟨id, -, rfl⟩ := mem_map.mp (mem_of_mem_topK hpair)
    exact hpair
  · intro h
    exact ⟨_, h, rfl⟩

variable (env order tickets previousBlockHash k)

theorem nodup_scored : ((liveTicketIds tickets).map (scored env previousBlockHash)).Nodup :=
  (nodup_liveTicketIds ⟨tickets⟩).map (scored_injective env previousBlockHash)

theorem lowestScores_selectTicketsForVoting :
    LowestScores env tickets previousBlockHash k
      (selectTicketsForVoting env order tickets previousBlockHash k) := by
  have heq := selectTicketsForVoting_eq env order tickets previousBlockHash k (.refl _)
  constructor
  · rw [heq, length_map, length_topK, length_map]
  · rw [heq]
    refine (nodup_topK (nodup_scored env tickets previousBlockHash)).map_on ?_
    intro a ha b hb hab
    obtain ⟨id, -, rfl⟩ := mem_map.mp (mem_of_mem_topK ha)
    obtain ⟨id', -, rfl⟩ := mem_map.mp (mem_of_mem_topK hb)
    exact congrArg (scored env previousBlockHash) hab
  · intro ticketId hselected
    have hscored := mem_of_mem_topK (mem_selectTicketsForVoting.mp hselected)
    rw [mem_map_of_injective (scored_injective env previousBlockHash)] at hscored
    exact mem_liveTicketIds.mp hscored
  · intro ticketId hselected other hout ticket hticket hlive
    have hother : other ∈ liveTicketIds tickets := mem_liveTicketIds.mpr ⟨ticket, hticket, hlive⟩
    have hle := le_of_notMem_topK (mem_selectTicketsForVoting.mp hselected)
      (mem_map_of_mem hother) fun h => hout (mem_selectTicketsForVoting.mpr h)
    refine lotteryLT_of_lotteryLE hle ?_
    rintro rfl
    exact hout hselected

/-- Taking a ticket out of the map takes it out of the live tickets. -/
theorem mem_liveTicketIds_erase {removed : TicketId} :
    ticketId ∈ liveTicketIds (tickets.erase removed) ↔
      ticketId ≠ removed ∧ ticketId ∈ liveTicketIds tickets := by
  rw [liveTicketIds, liveTicketIds, mem_liveTicketIds, mem_liveTicketIds]
  change (∃ ticket, (tickets.erase removed).lookup ticketId = some ticket ∧ _) ↔ _
  by_cases heq : ticketId = removed
  · subst heq
    simp
  · rw [AList.lookup_erase_ne heq]
    exact (and_iff_right heq).symm

theorem selectTicketsForVoting_erase {removed : TicketId} (order' : MapOrder)
    (hout : removed ∉ selectTicketsForVoting env order tickets previousBlockHash k) :
    selectTicketsForVoting env order' (tickets.erase removed) previousBlockHash k =
      selectTicketsForVoting env order tickets previousBlockHash k := by
  have hnodup : (liveTicketIds tickets).Nodup := nodup_liveTicketIds ⟨tickets⟩
  have hnodup' : (liveTicketIds (tickets.erase removed)).Nodup :=
    nodup_liveTicketIds ⟨tickets.erase removed⟩
  have hnotMem : removed ∉ liveTicketIds (tickets.erase removed) :=
    fun h => ((mem_liveTicketIds_erase tickets).mp h).1 rfl
  by_cases hlive : removed ∈ liveTicketIds tickets
  · have hperm :
        (liveTicketIds tickets).Perm (removed :: liveTicketIds (tickets.erase removed)) := by
      rw [perm_ext_iff_of_nodup hnodup (nodup_cons.mpr ⟨hnotMem, hnodup'⟩)]
      intro ticketId
      rw [mem_cons, mem_liveTicketIds_erase]
      by_cases heq : ticketId = removed
      · simp [heq, hlive]
      · simp [heq]
    rw [selectTicketsForVoting_eq env order' _ previousBlockHash k (.refl _),
      selectTicketsForVoting_eq env order tickets previousBlockHash k (.refl _)]
    refine congrArg (List.map Prod.fst) (topK_of_perm_cons (hperm.map _) fun htop => ?_)
    exact hout (mem_selectTicketsForVoting.mpr htop)
  · have hperm : (liveTicketIds tickets).Perm (liveTicketIds (tickets.erase removed)) := by
      rw [perm_ext_iff_of_nodup hnodup hnodup']
      intro ticketId
      rw [mem_liveTicketIds_erase, iff_and_self]
      rintro hmem rfl
      exact hlive hmem
    rw [selectTicketsForVoting_eq env order' _ previousBlockHash k hperm,
      selectTicketsForVoting_eq env order tickets previousBlockHash k (.refl _)]

/-- The lottery selects the live tickets with the lowest scores, whatever the order of the maps, and
the selection stays the same without a ticket that is not selected. -/
theorem selectTicketsForVoting_lowest :
    LowestScores env tickets previousBlockHash k
        (selectTicketsForVoting env order tickets previousBlockHash k) ∧
      (∀ (order' : MapOrder) (tickets' : HashMap TicketId Ticket), tickets.SameEntries tickets' →
        selectTicketsForVoting env order' tickets' previousBlockHash k =
          selectTicketsForVoting env order tickets previousBlockHash k) ∧
      ∀ removed ∉ selectTicketsForVoting env order tickets previousBlockHash k,
        ∀ order' : MapOrder,
          selectTicketsForVoting env order' (tickets.erase removed) previousBlockHash k =
            selectTicketsForVoting env order tickets previousBlockHash k := by
  refine ⟨?_, ?_, ?_⟩
  · exact lowestScores_selectTicketsForVoting env order tickets previousBlockHash k
  · intro order' tickets' hsame
    have hperm : (liveTicketIds tickets).Perm (liveTicketIds tickets') :=
      (hsame.toPairs.filter _).map _
    rw [selectTicketsForVoting_eq env order' tickets' previousBlockHash k hperm,
      selectTicketsForVoting_eq env order tickets previousBlockHash k (.refl _)]
  · intro removed hout order'
    exact selectTicketsForVoting_erase env order tickets previousBlockHash k order' hout

/-- The digests that the two lotteries take of the hash of the previous block, which is zero, and of
six tickets. -/
def sixTicketsDigests : List (Bytes × Nat) :=
  let seed : Nat := 0xdafc20188a4269eeaa6258a1da4f10c823d1dec18f23e1da72539a81c183da2a
  (.replicate 32 0, seed) ::
    (List.zip ([1, 2, 3, 4, 5, 6].map fun i => .replicate 32 0 ++ .replicate 32 i)
      [0x737eeaa34ce5e639d08afeac78b69ad393ce8f9607b828fd91a782d35592344e,
        0x77dd0013f4c75dcb0446b33b02aae2bfb57686582d4028a302a36d250c0b3b01,
        0x769d92cb59bfa6fc4adc01c742c682157cafc0a05c894d958b38565fa68e6443,
        0x272147bef9a8c127856aecef4b13e024f1c43e6128d16cb90c479332605a3cfd,
        0x2fce48bf694bf42895b8b28ca46727dd80da5e13addead4409b8a98fc2d15813,
        0x72ec2bad76b513cf3ba64812828e6819644486fc06dda8f5420a22ef86cdd305] ++
    List.zip ([1, 2, 3, 4, 5, 6].map fun i => leBytes 32 seed ++ .replicate 32 i)
      [0x5b543d10f2ce05f582760f699377e2fab8a2eb335f729cb728398e6253fc1f75,
        0xfc4b41e7e913884a27c2e71f380a5b31499313be4406d51246c3d6ce38a81f62,
        0xb86d164a5bae99db0fec8d74c3ab3b9a34410791407c22e9a027fdcce262c952,
        0xa2ddf12666b53da86d3d39f34b79f242eb8075dba22002f1777fbdb4e3dc4647,
        0xf9e0e9678b652a6d7f5e92ac3418da7d1f0a1be166c449e958cc4bda51f0fde9,
        0xc7c7fb1b003e5fd4650b287ed6153cb913506a7703a0200fa8f853083b184475])

/-- BLAKE3 on these inputs. -/
def sixTicketsPlatform : Platform :=
  { Platform.blank with
    blake3 := fun bytes =>
      ⟨leBytes 32 ((sixTicketsDigests.lookup bytes).getD 0), length_leBytes 32 _⟩ }

/-- Six live tickets. -/
def sixTickets : RustyCoin.LiveTicketsPool :=
  ⟨HashMap.insertAll ∅ ([1, 2, 3, 4, 5, 6].map fun i =>
    (.replicate 32 i, ⟨.replicate 32 i, .replicate 32 i, 1, 900, .live⟩))⟩

/-- The fifth of the six tickets is not selected and can be taken out. -/
theorem selectTicketsForVoting_without_fifth :
    .replicate 32 5 ∉ selectTicketsForVoting sixTicketsPlatform .kept sixTickets.tickets
        (.replicate 32 0) 5 ∧
      selectTicketsForVoting sixTicketsPlatform .kept (sixTickets.tickets.erase (.replicate 32 5))
          (.replicate 32 0) 5 =
        selectTicketsForVoting sixTicketsPlatform .kept sixTickets.tickets (.replicate 32 0) 5 := by
  have hout : .replicate 32 5 ∉ selectTicketsForVoting sixTicketsPlatform .kept sixTickets.tickets
      (.replicate 32 0) 5 := by
    decide +kernel
  exact ⟨hout, (selectTicketsForVoting_lowest sixTicketsPlatform .kept sixTickets.tickets
    (.replicate 32 0) 5).2.2 _ hout .kept⟩

variable (prevBlockHash : Hash) (pool : RustyCoin.LiveTicketsPool)

/-- How many live tickets come before a ticket in the lottery of rusty-core. -/
def higherScores (ticketId : TicketId) : Nat :=
  pool.liveTicketIds.countP fun other => other ≠ ticketId ∧
    scoreLE (lotteryScore env prevBlockHash ticketId, ticketId)
      (lotteryScore env prevBlockHash other, other)

/-- How many live tickets come before a ticket in the lottery of rusty-consensus. -/
def lowerScores (ticketId : TicketId) : Nat :=
  pool.liveTicketIds.countP fun other => other ≠ ticketId ∧
    lotteryLE (scored env prevBlockHash other) (scored env prevBlockHash ticketId)

variable {env order prevBlockHash pool}

theorem mem_topK_scoredTickets_iff {k : Nat} :
    (lotteryScore env prevBlockHash ticketId, ticketId) ∈
        topK scoreLE k (scoredTickets env prevBlockHash pool) ↔
      ticketId ∈ pool.liveTicketIds ∧ higherScores env prevBlockHash pool ticketId < k := by
  let pair (id : TicketId) : Nat × TicketId := (lotteryScore env prevBlockHash id, id)
  have hinjective : Function.Injective pair := fun _ _ h => congrArg Prod.snd h
  have hpairs : scoredTickets env prevBlockHash pool = pool.liveTicketIds.map pair :=
    scoredTickets_eq env prevBlockHash pool
  show pair ticketId ∈ _ ↔ _
  rw [hpairs, mem_topK_iff ((nodup_liveTicketIds pool).map hinjective),
    mem_map_of_injective hinjective, countP_map, higherScores]
  simp only [Function.comp_def, ne_eq, hinjective.eq_iff, pair]

theorem score_of_mem_topK {k score : Nat}
    (htop : (score, ticketId) ∈ topK scoreLE k (scoredTickets env prevBlockHash pool)) :
    score = lotteryScore env prevBlockHash ticketId := by
  have hpair := mem_of_mem_topK htop
  rw [scoredTickets_eq] at hpair
  obtain ⟨id, -, hpair⟩ := mem_map.mp hpair
  cases hpair
  rfl

theorem mem_selectVoters_iff :
    ticketId ∈ selectVoters env prevBlockHash pool ↔
      ticketId ∈ pool.liveTicketIds ∧
        higherScores env prevBlockHash pool ticketId < votersPerBlock := by
  rw [← mem_topK_scoredTickets_iff, selectVoters_eq, mem_map]
  constructor
  · rintro ⟨⟨score, _⟩, htop, rfl⟩
    rwa [← score_of_mem_topK htop]
  · intro htop
    exact ⟨_, htop, rfl⟩

theorem mem_selectTicketsForVoting_iff :
    ticketId ∈ selectTicketsForVoting env order pool.tickets prevBlockHash votersPerBlock ↔
      ticketId ∈ pool.liveTicketIds ∧
        lowerScores env prevBlockHash pool ticketId < votersPerBlock := by
  have hinjective := scored_injective env prevBlockHash
  rw [mem_selectTicketsForVoting,
    mem_topK_iff (nodup_scored env pool.tickets prevBlockHash),
    mem_map_of_injective hinjective, countP_map, lowerScores]
  simp only [Function.comp_def, ne_eq, hinjective.eq_iff, Function.swap, liveTicketIds]

variable (env order prevBlockHash pool)

/-- Where all digests are alike, the ticket with the highest id is the first one of rusty-core and
the last one of rusty-consensus. -/
theorem exists_first_last (hsix : 5 < pool.liveTicketIds.length) :
    ∃ ticketId ∈ pool.liveTicketIds, higherScores .blank prevBlockHash pool ticketId < 5 ∧
      5 ≤ lowerScores .blank prevBlockHash pool ticketId := by
  have hone : 0 < (topK scoreLE 1 (scoredTickets .blank prevBlockHash pool)).length := by
    rw [length_topK, scoredTickets_eq, length_map]
    omega
  obtain ⟨⟨score, last⟩, htop⟩ := exists_mem_of_length_pos hone
  rw [score_of_mem_topK htop] at htop
  obtain ⟨hlast, hfirst⟩ := mem_topK_scoredTickets_iff.mp htop
  refine ⟨last, hlast, by omega, ?_⟩
  have hlower : lowerScores .blank prevBlockHash pool last =
      pool.liveTicketIds.countP (· != last) := by
    refine countP_congr fun other hother => ?_
    simp only [decide_eq_true_eq, bne_iff_ne, and_iff_left_iff_imp]
    intro hne
    have hnot := countP_eq_zero.mp (Nat.lt_one_iff.mp hfirst) other hother
    obtain hle | hle := List.le_total other.toList last.toList
    · exact .inr ⟨rfl, hle⟩
    · exact absurd (decide_eq_true ⟨hne, .inr ⟨rfl, hle⟩⟩) hnot
  rw [hlower, countP_eq_length_filter, ← (nodup_liveTicketIds pool).erase_eq_filter,
    length_erase_of_mem hlast]
  omega

theorem selectVoters_agree_at :
    (∀ ticketId, ticketId ∈ selectVoters env prevBlockHash pool ↔
        ticketId ∈ selectTicketsForVoting env order pool.tickets prevBlockHash votersPerBlock) ↔
      ∀ ticketId ∈ pool.liveTicketIds,
        (higherScores env prevBlockHash pool ticketId < 5 ↔
          lowerScores env prevBlockHash pool ticketId < 5) := by
  refine forall_congr' fun ticketId => ?_
  rw [mem_selectVoters_iff, mem_selectTicketsForVoting_iff]
  exact and_congr_right_iff

/-- The two lotteries select the same tickets exactly when every live ticket is among the first five
in both orders or in none. They do so on every platform exactly when at most five tickets are
live. -/
theorem selectVoters_agree_iff :
    ((∀ ticketId, ticketId ∈ selectVoters env prevBlockHash pool ↔
        ticketId ∈ selectTicketsForVoting env order pool.tickets prevBlockHash votersPerBlock) ↔
      ∀ ticketId ∈ pool.liveTicketIds,
        (higherScores env prevBlockHash pool ticketId < 5 ↔
          lowerScores env prevBlockHash pool ticketId < 5)) ∧
      ((∀ env ticketId, ticketId ∈ selectVoters env prevBlockHash pool ↔
          ticketId ∈ selectTicketsForVoting env order pool.tickets prevBlockHash votersPerBlock) ↔
        pool.liveTicketIds.length ≤ 5) := by
  refine ⟨selectVoters_agree_at env order prevBlockHash pool, ?_⟩
  simp only [selectVoters_agree_at]
  refine ⟨fun hall => ?_, fun hfive env ticketId hlive => ?_⟩
  · by_contra hsix
    obtain ⟨ticketId, hlive, hfirst, hlast⟩ :=
      exists_first_last prevBlockHash pool (Nat.not_le.mp hsix)
    exact absurd ((hall .blank ticketId hlive).mp hfirst) (Nat.not_lt.mpr hlast)
  · have hbelow (before : TicketId → Prop) [DecidablePred before] :
        pool.liveTicketIds.countP (fun other => other ≠ ticketId ∧ before other) < 5 :=
      (countP_lt_length_iff.mpr ⟨ticketId, hlive, by simp⟩).trans_le hfive
    exact iff_of_true (hbelow _) (hbelow _)

/-- The fifth of the six tickets is selected by rusty-core only, the second by rusty-consensus
only. -/
theorem selectVoters_disagree :
    let voters := selectVoters sixTicketsPlatform (.replicate 32 0) sixTickets
    let selected :=
      selectTicketsForVoting sixTicketsPlatform .kept sixTickets.tickets (.replicate 32 0) 5
    voters = [1, 3, 6, 4, 5].map (.replicate 32 ·) ∧
      selected = [4, 3, 2, 1, 6].map (.replicate 32 ·) ∧
        ¬ ∀ ticketId, ticketId ∈ voters ↔ ticketId ∈ selected := by
  intro voters selected
  have hvoters : voters = [1, 3, 6, 4, 5].map (.replicate 32 ·) := by decide +kernel
  have hselected : selected = [4, 3, 2, 1, 6].map (.replicate 32 ·) := by decide +kernel
  refine ⟨hvoters, hselected, fun hsame => ?_⟩
  have hfifth := hsame (.replicate 32 5)
  rw [hvoters, hselected] at hfifth
  revert hfifth
  decide

end RustyCoin.RustyConsensus
