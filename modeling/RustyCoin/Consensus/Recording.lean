import RustyCoin.Consensus.TransactionLoop

/-!
# Recording proposals and votes

The loop over the transactions of a block records proposals and votes as it goes.
Whether a transaction can be recorded depends on those before it only by the keys
they have taken: a proposal of the same block cannot be voted on yet, since it has
to start later.
-/

namespace RustyCoin

open Outcome ActiveProposals Transaction List AList

/-- What a proposal or a vote is recorded under: a proposal, or a voter on it. -/
def Transaction.recordKey? : Transaction → Option (Hash × Option Hash)
  | .governanceProposal proposal => some (proposal.proposalId, none)
  | .governanceVote vote => some (vote.proposalId, some vote.voterId)
  | _ => none

namespace ActiveProposals

/-- There is a proposal or a vote under the key. -/
def Taken (self : ActiveProposals) : Hash × Option Hash → Prop
  | (proposalId, none) => (self.proposals.lookup proposalId).isSome
  | (proposalId, some voterId) => ∃ entry, self.proposals.lookup proposalId = some entry ∧
      (entry.2.lookup voterId).isSome

variable {self next : ActiveProposals}

variable {proposal : GovernanceProposal} {vote : GovernanceVote}

theorem addProposal_ok_iff :
    (∃ next, self.addProposal proposal = .ok next) ↔ ¬ self.Taken (proposal.proposalId, none) := by
  rw [addProposal]
  split
  · rename_i hsome
    exact iff_of_false (fun ⟨_, h⟩ => fail_ne_ok _ _ h) fun h => h hsome
  · rename_i hnone
    exact iff_of_true ⟨_, rfl⟩ hnone

theorem recordVote_ok_iff {entry : GovernanceProposal × HashMap Hash GovernanceVote}
    (hentry : self.proposals.lookup vote.proposalId = some entry) :
    (∃ next, self.recordVote vote = .ok next) ↔
      ¬ self.Taken (vote.proposalId, some vote.voterId) := by
  have htaken : self.Taken (vote.proposalId, some vote.voterId) ↔
      (entry.2.lookup vote.voterId).isSome := by
    simp [Taken, hentry]
  rw [recordVote, hentry, htaken]
  change (∃ next, (if (entry.2.lookup vote.voterId).isSome then _ else _) = _) ↔ _
  split
  · rename_i hsome
    exact iff_of_false (fun ⟨_, h⟩ => fail_ne_ok _ _ h) fun h => h hsome
  · rename_i hnone
    exact iff_of_true ⟨_, rfl⟩ hnone

variable (hok : self.addProposal proposal = .ok next)

include hok

theorem taken_addProposal (key : Hash × Option Hash) :
    next.Taken key ↔ key = (proposal.proposalId, none) ∨ self.Taken key := by
  rw [addProposal, ite_fail_eq_ok] at hok
  obtain ⟨hfresh, hnext⟩ := hok
  cases hnext
  have hnone := Option.not_isSome_iff_eq_none.mp hfresh
  obtain ⟨proposalId, voter⟩ := key
  by_cases hid : proposalId = proposal.proposalId
  · subst hid
    cases voter with
    | none => simp [Taken]
    | some voterId => simp [Taken, hnone]
  · cases voter with
    | none => simp [Taken, lookup_insert_ne hid, hid]
    | some voterId => simp [Taken, lookup_insert_ne hid]

omit hok in
theorem taken_recordVote (hok : self.recordVote vote = .ok next) (key : Hash × Option Hash) :
    next.Taken key ↔ key = (vote.proposalId, some vote.voterId) ∨ self.Taken key := by
  obtain ⟨⟨proposal, votes⟩, hentry, hrest⟩ := bind_eq_ok.mp hok
  dsimp only at hrest
  rw [ite_fail_eq_ok] at hrest
  obtain ⟨-, hnext⟩ := hrest
  cases hnext
  have hlookup := okOr_eq_ok.mp hentry
  obtain ⟨proposalId, voter⟩ := key
  by_cases hid : proposalId = vote.proposalId
  · subst hid
    cases voter with
    | none => simp [Taken, hlookup]
    | some voterId =>
      by_cases hvoter : voterId = vote.voterId
      · subst hvoter
        simp [Taken]
      · simp [Taken, hlookup, lookup_insert_ne hvoter, hvoter]
  · cases voter with
    | none => simp [Taken, lookup_insert_ne hid]
    | some voterId => simp [Taken, lookup_insert_ne hid, hid]

theorem getProposal_addProposal (proposalId : Hash) :
    next.getProposal proposalId =
      if proposalId = proposal.proposalId then some proposal else self.getProposal proposalId := by
  rw [addProposal, ite_fail_eq_ok] at hok
  obtain ⟨-, hnext⟩ := hok
  cases hnext
  split
  · rename_i hid
    rw [hid, getProposal, lookup_insert]
    rfl
  · rename_i hid
    rw [getProposal, getProposal, lookup_insert_ne hid]

theorem getProposal_of_addProposal : self.getProposal proposal.proposalId = none := by
  rw [addProposal, ite_fail_eq_ok] at hok
  rw [getProposal, Option.not_isSome_iff_eq_none.mp hok.1]
  rfl

omit hok

theorem getProposal_recordVote (hok : self.recordVote vote = .ok next)
    (proposalId : Hash) : next.getProposal proposalId = self.getProposal proposalId := by
  obtain ⟨⟨proposal, votes⟩, hentry, hrest⟩ := bind_eq_ok.mp hok
  dsimp only at hrest
  rw [ite_fail_eq_ok] at hrest
  obtain ⟨-, hnext⟩ := hrest
  cases hnext
  by_cases hid : proposalId = vote.proposalId
  · subst hid
    rw [getProposal, getProposal, lookup_insert, okOr_eq_ok.mp hentry]
    rfl
  · rw [getProposal, getProposal, lookup_insert_ne hid]

end ActiveProposals

namespace Blockchain

variable {F : Type} {env : Platform}

variable {currentHeight : UInt64} {chain : Blockchain F} {tx : Transaction}
  {proposals : ActiveProposals}

/-- The checks of a proposal or of a vote pass, apart from what is recorded. -/
def Eligible (env : Platform) (currentHeight : UInt64) (chain : Blockchain F) :
    Transaction → Prop
  | .governanceProposal proposal => chain.validateProposal env proposal currentHeight = .ok ()
  | .governanceVote vote => chain.validateVote env vote currentHeight = .ok ()
  | _ => True

theorem exists_getProposal {vote : GovernanceVote}
    (hvalid : chain.validateVote env vote currentHeight = .ok ()) :
    ∃ entry, chain.activeProposals.proposals.lookup vote.proposalId = some entry := by
  obtain ⟨proposal, hproposal, -⟩ := bind_eq_ok.mp hvalid
  obtain ⟨entry, hentry, -⟩ := Option.map_eq_some_iff.mp (okOr_eq_ok.mp hproposal)
  exact ⟨entry, hentry⟩

/-- An eligible transaction is recorded unless its key is taken. -/
theorem recordedBy_ok_iff (heligible : chain.Eligible env currentHeight tx) :
    (∃ proposals, chain.recordedBy env currentHeight tx = .ok proposals) ↔
      ∀ key, tx.recordKey? = some key → ¬ chain.activeProposals.Taken key := by
  cases tx with
  | governanceProposal proposal =>
    have hvalid : chain.validateProposal env proposal currentHeight = .ok () := heligible
    rw [recordedBy, hvalid, ok_bind, addProposal_ok_iff]
    simp [recordKey?]
  | governanceVote vote =>
    have hvalid : chain.validateVote env vote currentHeight = .ok () := heligible
    obtain ⟨entry, hentry⟩ := exists_getProposal hvalid
    rw [recordedBy, hvalid, ok_bind, recordVote_ok_iff hentry]
    simp [recordKey?]
  | _ => exact iff_of_true ⟨_, rfl⟩ (by simp [recordKey?])

variable (hrecord : chain.recordedBy env currentHeight tx = .ok proposals)

include hrecord

theorem eligible_of_recordedBy :
    chain.Eligible env currentHeight tx := by
  cases tx with
  | governanceProposal proposal =>
    obtain ⟨_, hvalid, -⟩ := bind_eq_ok.mp hrecord
    exact hvalid
  | governanceVote vote =>
    obtain ⟨_, hvalid, -⟩ := bind_eq_ok.mp hrecord
    exact hvalid
  | _ => trivial

theorem taken_recordedBy
    (key : Hash × Option Hash) :
    proposals.Taken key ↔ tx.recordKey? = some key ∨ chain.activeProposals.Taken key := by
  cases tx with
  | governanceProposal proposal =>
    obtain ⟨_, -, hadd⟩ := bind_eq_ok.mp hrecord
    rw [taken_addProposal hadd, recordKey?, Option.some.injEq, eq_comm]
  | governanceVote vote =>
    obtain ⟨_, -, hvote⟩ := bind_eq_ok.mp hrecord
    rw [taken_recordVote hvote, recordKey?, Option.some.injEq, eq_comm]
  | _ =>
    cases hrecord
    simp [recordKey?]

omit hrecord

/-- Of the proposals that have been added, none can be voted on yet. -/
structure Extends (currentHeight : UInt64) (before after : ActiveProposals) : Prop where
  kept : ∀ proposalId found, before.getProposal proposalId = some found →
    after.getProposal proposalId = some found
  added : ∀ proposalId found, before.getProposal proposalId = none →
    after.getProposal proposalId = some found → currentHeight < found.startBlockHeight

theorem Extends.refl (currentHeight : UInt64) (proposals : ActiveProposals) :
    Extends currentHeight proposals proposals where
  kept _ _ hfound := hfound
  added _ _ hnone hfound := by
    rw [hnone] at hfound
    cases hfound

/-- A proposal that passes its checks starts after the current height. -/
theorem lt_startBlockHeight {proposal : GovernanceProposal}
    (hvalid : chain.validateProposal env proposal currentHeight = .ok ()) :
    currentHeight < proposal.startBlockHeight := by
  rw [validateProposal, ite_fail_eq_ok] at hvalid
  exact UInt64.not_le.mp hvalid.1

variable {base : ActiveProposals}

theorem Extends.recordedBy (hext : Extends currentHeight base chain.activeProposals)
    (hrecord : chain.recordedBy env currentHeight tx = .ok proposals) :
    Extends currentHeight base proposals := by
  cases tx with
  | governanceProposal proposal =>
    obtain ⟨_, hvalid, hadd⟩ := bind_eq_ok.mp hrecord
    have hget := getProposal_addProposal hadd
    constructor
    · intro proposalId found hfound
      have hold := hext.kept proposalId found hfound
      rw [hget, if_neg, hold]
      rintro rfl
      rw [getProposal_of_addProposal hadd] at hold
      cases hold
    · intro proposalId found hnone hfound
      rw [hget] at hfound
      split at hfound
      · cases hfound
        exact lt_startBlockHeight hvalid
      · exact hext.added proposalId found hnone hfound
  | governanceVote vote =>
    obtain ⟨_, -, hvote⟩ := bind_eq_ok.mp hrecord
    have hget := getProposal_recordVote hvote
    constructor
    · intro proposalId found hfound
      rw [hget]
      exact hext.kept proposalId found hfound
    · intro proposalId found hnone hfound
      rw [hget] at hfound
      exact hext.added proposalId found hnone hfound
  | _ =>
    cases hrecord
    exact hext

/-- What has been recorded before does not make a transaction eligible, nor
ineligible. -/
theorem eligible_withProposals (hext : Extends currentHeight chain.activeProposals proposals)
    (tx : Transaction) :
    (chain.withProposals proposals).Eligible env currentHeight tx ↔
      chain.Eligible env currentHeight tx := by
  cases tx with
  | governanceVote vote =>
    show (chain.withProposals proposals).validateVote env vote currentHeight = .ok () ↔
      chain.validateVote env vote currentHeight = .ok ()
    cases hbefore : chain.activeProposals.getProposal vote.proposalId with
    | some proposal =>
      have hafter : (chain.withProposals proposals).activeProposals.getProposal
          vote.proposalId = some proposal := hext.kept _ _ hbefore
      rw [validateVote, validateVote, hbefore, hafter]
      rfl
    | none =>
      refine iff_of_false ?_ ?_
      · intro hvalid
        obtain ⟨proposal, hfound, hrest⟩ := bind_eq_ok.mp hvalid
        have hlater := hext.added _ _ hbefore (okOr_eq_ok.mp hfound)
        rw [ite_fail_eq_ok] at hrest
        exact hrest.1 (.inl hlater)
      · intro hvalid
        obtain ⟨entry, hentry⟩ := exists_getProposal hvalid
        rw [getProposal, hentry] at hbefore
        cases hbefore
  | _ => exact Iff.rfl

/-- The transactions can be recorded one after the other, on top of the given
proposals. -/
structure Recordable (env : Platform) (currentHeight : UInt64) (chain : Blockchain F)
    (proposals : ActiveProposals) (transactions : List Transaction) : Prop where
  eligible : ∀ tx ∈ transactions, chain.Eligible env currentHeight tx
  distinct : (transactions.filterMap recordKey?).Nodup
  free : ∀ key ∈ transactions.filterMap recordKey?, ¬ proposals.Taken key

theorem recordable_nil : chain.Recordable env currentHeight proposals [] where
  eligible := by simp
  distinct := nodup_nil
  free := by simp

theorem recordable_cons {transactions : List Transaction}
    (hext : Extends currentHeight chain.activeProposals proposals) :
    chain.Recordable env currentHeight proposals (tx :: transactions) ↔
      ∃ next, (chain.withProposals proposals).recordedBy env currentHeight tx = .ok next ∧
        chain.Recordable env currentHeight next transactions := by
  constructor
  · rintro ⟨heligible, hdistinct, hfree⟩
    rw [forall_mem_cons] at heligible
    obtain ⟨next, hrecord⟩ := (recordedBy_ok_iff
      ((eligible_withProposals hext tx).mpr heligible.1)).mpr fun key hkey =>
        hfree key (mem_filterMap.mpr ⟨tx, mem_cons_self, hkey⟩)
    refine ⟨next, hrecord, heligible.2, ?_, ?_⟩
    · exact hdistinct.sublist ((sublist_cons_self tx transactions).filterMap _)
    · intro key hmem htaken
      rcases (taken_recordedBy hrecord key).mp htaken with hkey | htaken
      · rw [filterMap_cons_some hkey, nodup_cons] at hdistinct
        exact hdistinct.1 hmem
      · refine hfree key ?_ htaken
        exact ((sublist_cons_self tx transactions).filterMap _).subset hmem
  · rintro ⟨next, hrecord, heligible, hdistinct, hfree⟩
    have htx := eligible_of_recordedBy hrecord
    have hkey := (recordedBy_ok_iff htx).mp ⟨next, hrecord⟩
    have htaken := taken_recordedBy hrecord
    refine ⟨forall_mem_cons.mpr ⟨(eligible_withProposals hext tx).mp htx, heligible⟩, ?_, ?_⟩
    · cases hsome : tx.recordKey? with
      | none => rwa [filterMap_cons_none hsome]
      | some key =>
        rw [filterMap_cons_some hsome, nodup_cons]
        exact ⟨fun hmem => hfree key hmem ((htaken key).mpr (.inl hsome)), hdistinct⟩
    · intro key hmem
      obtain ⟨other, hother, hsome⟩ := mem_filterMap.mp hmem
      rcases mem_cons.mp hother with rfl | hother
      · exact hkey key hsome
      · intro htaken'
        exact hfree key (mem_filterMap.mpr ⟨other, hother, hsome⟩) ((htaken key).mpr (.inr htaken'))

section

variable {currentHeight : UInt64} {chain : Blockchain F} {proposals : ActiveProposals}
  {next : ActiveProposals} {tx : Transaction} {transactions : List Transaction}
  {failure : Failure ConsensusError}

/-- The loop over the rest of a block, on top of what has been recorded. -/
theorem loop_cons_ok (hext : Extends currentHeight chain.activeProposals proposals)
    (hrecord : (chain.withProposals proposals).recordedBy env currentHeight tx = .ok next)
    (hinspect : chain.inspect env currentHeight tx = .ok ()) :
    Extends currentHeight chain.activeProposals next ∧
      (forM (tx :: transactions) (processTransaction env currentHeight)).run
          (chain.withProposals proposals) =
        (forM transactions (processTransaction env currentHeight)).run
          (chain.withProposals next) := by
  rw [← inspect_withProposals currentHeight tx chain proposals] at hinspect
  have hbase : Extends currentHeight chain.activeProposals
    (chain.withProposals proposals).activeProposals := hext
  exact ⟨hbase.recordedBy hrecord, loop_of_passed hrecord hinspect⟩

theorem loop_cons_error
    (hrecord : (chain.withProposals proposals).recordedBy env currentHeight tx = .ok next)
    (hinspect : chain.inspect env currentHeight tx = .error failure) :
    ((forM (tx :: transactions) (processTransaction env currentHeight)).run
      (chain.withProposals proposals)).1 = .error failure := by
  rw [← inspect_withProposals currentHeight tx chain proposals] at hinspect
  rw [loop_of_inspect_error hrecord hinspect]

variable (env currentHeight chain transactions) in
/-- The loop goes through exactly when all transactions pass on their own and
they can be recorded together. -/
theorem loop_ok_iff :
    ((forM transactions (processTransaction env currentHeight)).run chain).1 = .ok () ↔
      chain.Recordable env currentHeight chain.activeProposals transactions ∧
        ∀ tx ∈ transactions, chain.inspect env currentHeight tx = .ok () := by
  suffices h : ∀ proposals, Extends currentHeight chain.activeProposals proposals →
      (((forM transactions (processTransaction env currentHeight)).run
          (chain.withProposals proposals)).1 = .ok () ↔
        chain.Recordable env currentHeight proposals transactions ∧
          ∀ tx ∈ transactions, chain.inspect env currentHeight tx = .ok ()) from
    h chain.activeProposals (.refl _ _)
  induction transactions with
  | nil => exact fun proposals _ => iff_of_true rfl ⟨recordable_nil, by simp⟩
  | cons tx rest ih =>
    intro proposals hext
    rw [recordable_cons hext, forall_mem_cons]
    cases hrecord : (chain.withProposals proposals).recordedBy env currentHeight tx with
    | error failure =>
      rw [loop_of_record_error hrecord]
      simp
    | ok next =>
      cases hinspect : chain.inspect env currentHeight tx with
      | error failure =>
        rw [loop_cons_error hrecord hinspect]
        simp
      | ok u =>
        obtain ⟨hnext, hloop⟩ := loop_cons_ok hext hrecord hinspect
        rw [hloop, ih next hnext]
        simp

theorem forall_split_cons {α : Type} {a : α} {l : List α} {Q : List α → α → Prop} :
    (∀ before b after, a :: l = before ++ b :: after → Q before b) ↔
      Q [] a ∧ ∀ before b after, l = before ++ b :: after → Q (a :: before) b := by
  constructor
  · intro h
    refine ⟨h [] a l rfl, fun before b after hl => h (a :: before) b after ?_⟩
    rw [hl, cons_append]
  · rintro ⟨hhead, htail⟩ before b after hl
    cases before with
    | nil =>
      cases hl
      exact hhead
    | cons first before =>
      cases hl
      exact htail before b after rfl

variable (env currentHeight chain transactions) in
/-- If recording fails in no other way, the loop fails exactly where the first
transaction that does not pass does. -/
theorem failsWith_loop {P : Failure ConsensusError → Prop} (hrecorded : ∀ tx proposals,
      FailsWith P ((chain.withProposals proposals).recordedBy env currentHeight tx)) :
    FailsWith P ((forM transactions (processTransaction env currentHeight)).run chain).1 ↔
      ∀ before tx after, transactions = before ++ tx :: after →
        chain.Recordable env currentHeight chain.activeProposals (before ++ [tx]) →
        (∀ other ∈ before, chain.inspect env currentHeight other = .ok ()) →
        FailsWith P (chain.inspect env currentHeight tx) := by
  suffices h : ∀ proposals, Extends currentHeight chain.activeProposals proposals →
      (FailsWith P ((forM transactions (processTransaction env currentHeight)).run
          (chain.withProposals proposals)).1 ↔
        ∀ before tx after, transactions = before ++ tx :: after →
          chain.Recordable env currentHeight proposals (before ++ [tx]) →
          (∀ other ∈ before, chain.inspect env currentHeight other = .ok ()) →
          FailsWith P (chain.inspect env currentHeight tx)) from
    h chain.activeProposals (.refl _ _)
  induction transactions with
  | nil => exact fun proposals _ => iff_of_true (failsWith_ok _) (by simp)
  | cons tx rest ih =>
    intro proposals hext
    -- the transaction that does not pass is the first one, or comes later
    rw [forall_split_cons, nil_append]
    simp only [cons_append, recordable_cons hext, forall_mem_cons]
    cases hrecord : (chain.withProposals proposals).recordedBy env currentHeight tx with
    | error failure =>
      have hfails := hrecorded tx proposals
      rw [hrecord, failsWith_error] at hfails
      rw [loop_of_record_error hrecord]
      simp [hfails]
    | ok next =>
      cases hinspect : chain.inspect env currentHeight tx with
      | error failure =>
        rw [loop_cons_error hrecord hinspect]
        simp [recordable_nil]
      | ok u =>
        obtain ⟨hnext, hloop⟩ := loop_cons_ok hext hrecord hinspect
        rw [hloop, ih next hnext]
        simp

end

end Blockchain

end RustyCoin
