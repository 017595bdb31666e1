import RustyCoin.Consensus.StateRoot
import RustyCoin.Types.Counting

/-!
# What the state root binds

Of a ticket the trie holds neither the status nor the id that it stores, of a
masternode nothing but its id, and of an entry that stops inside an extension
nothing at all. Where two states with one root agree on these, they are the same.
-/

namespace RustyCoin

open Option

namespace LedgerEncoder

/-- Serialization loses nothing, and the bytes of a proposal tell where they end. -/
structure Injective (enc : LedgerEncoder) : Prop where
  utxoValue : Function.Injective enc.encodeUtxoValue
  ticketValue : Function.Injective enc.encodeTicketValue
  masternodeId : Function.Injective enc.encodeMasternodeId
  proposal : ∀ {proposal proposal' votes votes' rest rest'},
    enc.encodeProposal proposal votes ++ rest = enc.encodeProposal proposal' votes' ++ rest' →
      proposal = proposal' ∧ votes = votes'

end LedgerEncoder

deriving instance Countable for TicketData

/-- An encoder of this kind exists, since there are only countably many values. -/
noncomputable def countingEncoder : LedgerEncoder where
  encodeUtxoValue := countingCode
  encodeTicketValue := countingCode
  encodeMasternodeId := countingCode
  encodeProposal proposal votes := countingCode (proposal, votes)
  encodeVotes := countingCode

theorem countingEncoder_injective : countingEncoder.Injective where
  utxoValue := countingCode_injective
  ticketValue := countingCode_injective
  masternodeId := countingCode_injective
  proposal h := Prod.mk.inj (countingCode_append h)

namespace BlockchainState

open HashMap MerklePatriciaTrie TrieHasher

section

variable (enc : LedgerEncoder) (ledger : Ledger)

variable {key' bytes : Bytes} {tag tag' : UInt8}

/-- The first bytes of the keys of the four maps differ. -/
theorem ne_of_head? {key : Bytes} (hkey : key.head? = some tag)
    (hkey' : key'.head? = some tag') (htag : tag ≠ tag') : key ≠ key' := by
  rintro rfl
  exact htag (Option.some.inj (hkey.symm.trans hkey'))

variable {α β : Type} {found : α → Option β} {key : α → Bytes} {value : α → β → Bytes}

theorem exists_entry_iff (hkey : Function.Injective key) {a : α} :
    (∃ a' b, found a' = some b ∧ key a' = key a ∧ value a' b = bytes) ↔
      (found a).map (value a) = some bytes := by
  rw [map_eq_some_iff]
  constructor
  · rintro ⟨a', b, hfound, hsame, hvalue⟩
    cases hkey hsame
    exact ⟨b, hfound, hvalue⟩
  · rintro ⟨b, hfound, hvalue⟩
    exact ⟨a, b, hfound, rfl, hvalue⟩

theorem not_exists_entry (htag : tag ≠ tag')
    (hkey : ∀ a, (key a).head? = some tag) (hkey' : key'.head? = some tag') :
    ¬ ∃ a b, found a = some b ∧ key a = key' ∧ value a b = bytes := by
  rintro ⟨a, _, -, hsame, -⟩
  exact ne_of_head? (hkey a) hkey' htag hsame

/-- What the trie is built from has under the key of an outpoint the output that is unspent. -/
theorem mem_entries_utxo (outpoint : OutPoint) (value : Bytes) :
    (encodeUtxoKey outpoint, value) ∈ (stateData enc ledger).entries enc.toStateEncoder ↔
      (ledger.utxoSet.getUtxo outpoint).map enc.encodeUtxoValue = some value := by
  rw [mem_entries_stateData, exists_entry_iff encodeUtxoKey_injective, or_iff_left]
  rintro (h | h | h) <;> exact not_exists_entry (by decide) (fun _ => rfl) rfl h

theorem mem_entries_ticket (ticketId : TicketId) (value : Bytes) :
    (encodeTicketKey ticketId, value) ∈ (stateData enc ledger).entries enc.toStateEncoder ↔
      (ledger.liveTickets.getTicket ticketId).map (enc.encodeTicketValue ∘ ticketData) =
        some value := by
  rw [mem_entries_stateData, exists_entry_iff encodeTicketKey_injective, or_iff_right, or_iff_left]
  · rfl
  · rintro (h | h) <;> exact not_exists_entry (by decide) (fun _ => rfl) rfl h
  · exact not_exists_entry (by decide) (fun _ => rfl) rfl

/-- The masternode at a place of the iteration. -/
def masternodeAt (i : Nat) : Option MasternodeID :=
  ledger.masternodeList.map.toPairs[i]?.map Prod.fst

theorem mem_entries_masternode (i : Nat) (value : Bytes) :
    (encodeMasternodeKey (masternodeKey i), value) ∈
        (stateData enc ledger).entries enc.toStateEncoder ↔
      (masternodeAt ledger i).map enc.encodeMasternodeId = some value := by
  have hkey := encodeMasternodeKey_injective.comp masternodeKey_injective
  rw [mem_entries_stateData, or_iff_right, or_iff_right, or_iff_left]
  · exact exists_entry_iff hkey
  all_goals exact not_exists_entry (by decide) (fun _ => rfl) rfl

theorem mem_entries_proposal (proposalId : Hash) (value : Bytes) :
    (encodeProposalKey (proposalKey proposalId), value) ∈
        (stateData enc ledger).entries enc.toStateEncoder ↔
      (ledger.activeProposals.proposals.lookup proposalId).map
        (proposalData enc ledger.activeProposals proposalId) = some value := by
  have hkey := encodeProposalKey_injective.comp proposalKey_injective
  rw [mem_entries_stateData, or_iff_right, or_iff_right, or_iff_right]
  · exact exists_entry_iff hkey
  all_goals exact not_exists_entry (by decide) (fun _ => rfl) rfl

theorem lookup_isSome_iff_masternodeAt (mnId : MasternodeID) :
    (ledger.masternodeList.map.lookup mnId).isSome ↔ ∃ i, masternodeAt ledger i = some mnId := by
  rw [isSome_iff_exists]
  constructor
  · rintro ⟨entry, hentry⟩
    obtain ⟨i, hi⟩ := List.mem_iff_getElem?.mp (mem_toPairs.mpr hentry)
    exact ⟨i, by rw [masternodeAt, hi]; rfl⟩
  · rintro ⟨i, hi⟩
    obtain ⟨⟨_, entry⟩, hget, rfl⟩ := map_eq_some_iff.mp hi
    exact ⟨entry, mem_toPairs.mp (List.mem_of_getElem? hget)⟩

end

section

variable (enc : LedgerEncoder) {Digest : Type} [DecidableEq Digest] {H : TrieHasher Digest}

/-- Two calculations of a state root return the same one. -/
def SameStateRoot (H : TrieHasher Digest) (order order' : IterationOrder)
    (ledger ledger' : Ledger) : Prop :=
  ∃ root, (calculateStateRootFromMasternodeList enc H order ledger).Returns (.ok root) ∧
    (calculateStateRootFromMasternodeList enc H order' ledger').Returns (.ok root)

/-- The entry of the key gets into the trie. -/
def Committed (H : TrieHasher Digest) (order : IterationOrder) (ledger : Ledger) (key : Bytes) :
    Prop :=
  (MerklePatriciaTrie.new H).Keeps (insertedEntries enc order ledger) key

variable {enc} {order order' : IterationOrder} {ledger ledger' : Ledger}

/-- Under a key that is committed two states with one root have the same value. -/
theorem SameStateRoot.lookup_eq {α : Type} (hfree : H.CollisionFree)
    (hroot : SameStateRoot enc H order order' ledger ledger') {key : Bytes}
    (hkept : Committed enc H order ledger key) {found found' : Option α} {value value' : α → Bytes}
    (hfound : ∀ bytes, (key, bytes) ∈ (stateData enc ledger).entries enc.toStateEncoder ↔
      found.map value = some bytes)
    (hfound' : ∀ bytes, (key, bytes) ∈ (stateData enc ledger').entries enc.toStateEncoder ↔
      found'.map value' = some bytes) :
    ∃ a a', found = some a ∧ found' = some a' ∧ value a = value' a' := by
  obtain ⟨root, hreturns, hreturns'⟩ := hroot
  obtain ⟨trie, hrun, rfl⟩ := (returns_ok_iff enc order ledger root).mp hreturns
  obtain ⟨trie', hrun', hsame⟩ := (returns_ok_iff enc order' ledger' _).mp hreturns'
  have hkeeps := ((sameRoot_iff_kept hfree (nodup_insertedEntries enc order ledger)
    (nodup_insertedEntries enc order' ledger')).mp ⟨trie, trie', hrun, hrun', hsame.symm⟩).2.2
  obtain ⟨bytes, hmem⟩ := mem_of_keeps hkept
  have hmem' := ((hkeeps key bytes).mp ⟨hmem, hkept⟩).1
  have hvalue := (hfound bytes).mp ((mem_insertedEntries enc order ledger _).mp hmem)
  have hvalue' := (hfound' bytes).mp ((mem_insertedEntries enc order' ledger' _).mp hmem')
  obtain ⟨a, ha, hbytes⟩ := map_eq_some_iff.mp hvalue
  obtain ⟨a', ha', hbytes'⟩ := map_eq_some_iff.mp hvalue'
  exact ⟨a, a', ha, ha', hbytes.trans hbytes'.symm⟩

/-- The two states agree on what the root does not commit to: on the entries that are dropped, on
the ids and statuses that tickets store, and on all that is stored for a masternode. -/
structure AgreesBeyond (committed : Bytes → Prop) (ledger ledger' : Ledger) : Prop where
  utxos : ∀ outpoint, ¬ committed (encodeUtxoKey outpoint) →
    ledger.utxoSet.getUtxo outpoint = ledger'.utxoSet.getUtxo outpoint
  tickets : ∀ ticketId, ¬ committed (encodeTicketKey ticketId) →
    ledger.liveTickets.getTicket ticketId = ledger'.liveTickets.getTicket ticketId
  ticketStatus : ∀ ticketId ticket ticket',
    ledger.liveTickets.getTicket ticketId = some ticket →
    ledger'.liveTickets.getTicket ticketId = some ticket' →
    ticket.id = ticket'.id ∧ ticket.status = ticket'.status
  masternodes : ∀ mnId,
    (∀ i, masternodeAt ledger i = some mnId → ¬ committed (encodeMasternodeKey (masternodeKey i))) →
    (ledger.masternodeList.map.lookup mnId).isSome = (ledger'.masternodeList.map.lookup mnId).isSome
  masternodeEntries : ∀ mnId entry entry',
    ledger.masternodeList.map.lookup mnId = some entry →
    ledger'.masternodeList.map.lookup mnId = some entry' → entry = entry'
  proposals : ∀ proposalId, ¬ committed (encodeProposalKey (proposalKey proposalId)) →
    Option.Rel (fun entry entry' => entry.1 = entry'.1 ∧ entry.2.SameEntries entry'.2)
      (ledger.activeProposals.proposals.lookup proposalId)
      (ledger'.activeProposals.proposals.lookup proposalId)

theorem agreesBeyond_of_sameMaps (hsame : ledger.SameMaps ledger')
    (committed : Bytes → Prop) : AgreesBeyond committed ledger ledger' where
  utxos outpoint _ := sameEntries_iff.mp hsame.utxoSet outpoint
  tickets ticketId _ := sameEntries_iff.mp hsame.liveTickets ticketId
  ticketStatus ticketId ticket ticket' hticket hticket' := by
    have heq := sameEntries_iff.mp hsame.liveTickets ticketId
    cases Option.some.inj (hticket.symm.trans (heq.trans hticket'))
    exact ⟨rfl, rfl⟩
  masternodes mnId _ := by rw [sameEntries_iff.mp hsame.masternodeList mnId]
  masternodeEntries mnId entry entry' hentry hentry' := by
    have heq := sameEntries_iff.mp hsame.masternodeList mnId
    exact Option.some.inj (hentry.symm.trans (heq.trans hentry'))
  proposals proposalId _ := hsame.activeProposals proposalId

section

variable (hfree : H.CollisionFree) (hinj : enc.Injective)
  (hroot : SameStateRoot enc H order order' ledger ledger')
  (hagrees : AgreesBeyond (Committed enc H order ledger) ledger ledger')
include hfree hinj hroot hagrees

theorem AgreesBeyond.utxos_eq (outpoint : OutPoint) :
    ledger.utxoSet.getUtxo outpoint = ledger'.utxoSet.getUtxo outpoint := by
  by_cases hkept : Committed enc H order ledger (encodeUtxoKey outpoint)
  · obtain ⟨utxo, utxo', hutxo, hutxo', hvalue⟩ := hroot.lookup_eq hfree hkept
      (mem_entries_utxo enc ledger outpoint) (mem_entries_utxo enc ledger' outpoint)
    rw [hutxo, hutxo', hinj.utxoValue hvalue]
  · exact hagrees.utxos outpoint hkept

theorem AgreesBeyond.tickets_eq (ticketId : TicketId) :
    ledger.liveTickets.getTicket ticketId = ledger'.liveTickets.getTicket ticketId := by
  by_cases hkept : Committed enc H order ledger (encodeTicketKey ticketId)
  · obtain ⟨ticket, ticket', hticket, hticket', hvalue⟩ := hroot.lookup_eq hfree hkept
      (mem_entries_ticket enc ledger ticketId) (mem_entries_ticket enc ledger' ticketId)
    -- the trie holds the other three fields
    have hdata : ticketData ticket = ticketData ticket' := hinj.ticketValue hvalue
    obtain ⟨hid, hstatus⟩ := hagrees.ticketStatus ticketId ticket ticket' hticket hticket'
    obtain ⟨id, pubkey, height, amount, status⟩ := ticket
    obtain ⟨id', pubkey', height', amount', status'⟩ := ticket'
    cases hid
    cases hstatus
    cases hdata
    rw [hticket, hticket']
  · exact hagrees.tickets ticketId hkept

theorem AgreesBeyond.masternodes_eq (mnId : MasternodeID) :
    ledger.masternodeList.map.lookup mnId = ledger'.masternodeList.map.lookup mnId := by
  have hlisted : (ledger.masternodeList.map.lookup mnId).isSome =
      (ledger'.masternodeList.map.lookup mnId).isSome := by
    by_cases hkept : ∃ i, masternodeAt ledger i = some mnId ∧
        Committed enc H order ledger (encodeMasternodeKey (masternodeKey i))
    · obtain ⟨i, hat, hkept⟩ := hkept
      obtain ⟨found, found', hfound, hfound', hvalue⟩ := hroot.lookup_eq hfree hkept
        (mem_entries_masternode enc ledger i) (mem_entries_masternode enc ledger' i)
      cases Option.some.inj (hat.symm.trans hfound)
      cases hinj.masternodeId hvalue
      rw [(lookup_isSome_iff_masternodeAt ledger mnId).mpr ⟨i, hfound⟩,
        (lookup_isSome_iff_masternodeAt ledger' mnId).mpr ⟨i, hfound'⟩]
    · exact hagrees.masternodes mnId fun i hat hcommitted => hkept ⟨i, hat, hcommitted⟩
  have hentries := hagrees.masternodeEntries mnId
  cases hentry : ledger.masternodeList.map.lookup mnId with
  | none =>
    rw [hentry] at hlisted
    exact (isNone_iff_eq_none.mp (isSome_eq_false_iff.mp hlisted.symm)).symm
  | some entry =>
    rw [hentry] at hlisted
    obtain ⟨entry', hentry'⟩ := isSome_iff_exists.mp hlisted.symm
    rw [hentry', hentries entry entry' hentry hentry']

theorem AgreesBeyond.proposals_same :
    ledger.activeProposals.SameContents ledger'.activeProposals := by
  intro proposalId
  by_cases hkept : Committed enc H order ledger (encodeProposalKey (proposalKey proposalId))
  · obtain ⟨entry, entry', hentry, hentry', hvalue⟩ := hroot.lookup_eq hfree hkept
      (mem_entries_proposal enc ledger proposalId) (mem_entries_proposal enc ledger' proposalId)
    obtain ⟨hproposal, hvotes⟩ := hinj.proposal hvalue
    rw [hentry, hentry']
    exact .some ⟨hproposal, sameEntries_of_toPairs_eq hvotes⟩
  · exact hagrees.proposals proposalId hkept

end

variable (enc)

/-- Two states with one root are the same exactly if they agree on what the root does not commit
to. -/
theorem stateRoot_binds_iff (hfree : H.CollisionFree) (hinj : enc.Injective)
    (order order' : IterationOrder) (ledger ledger' : Ledger)
    (hroot : SameStateRoot enc H order order' ledger ledger') :
    ledger.SameMaps ledger' ↔ AgreesBeyond (Committed enc H order ledger) ledger ledger' := by
  constructor
  · intro hsame
    exact agreesBeyond_of_sameMaps hsame _
  · intro hagrees
    exact
      { utxoSet := sameEntries_iff.mpr (hagrees.utxos_eq hfree hinj hroot)
        liveTickets := sameEntries_iff.mpr (hagrees.tickets_eq hfree hinj hroot)
        masternodeList := sameEntries_iff.mpr (hagrees.masternodes_eq hfree hinj hroot)
        activeProposals := hagrees.proposals_same hfree hinj hroot }

end

section

/-- A ledger with one ticket of the given status. -/
def ticketOnly (status : TicketStatus) : Ledger where
  utxoSet := .new
  liveTickets := ⟨HashMap.insertAll ∅
    [(.replicate 32 1, ⟨.replicate 32 1, .replicate 32 1, 101, 900, status⟩)]⟩
  masternodeList := .new
  activeProposals := .new

/-- A ledger with one masternode of the given status and number of failures. -/
def masternodeOnly (status : MasternodeStatus) (poseFailureCount : UInt32) : Ledger where
  utxoSet := .new
  liveTickets := .new
  masternodeList := ⟨HashMap.insertAll ∅
    [(firstId, ⟨⟨firstId, [], "", [], none, []⟩, status, 0, poseFailureCount, none, 0, 0⟩)]⟩
  activeProposals := .new

set_option maxRecDepth 4000 in
theorem sameStateRoot_ticketOnly (enc : LedgerEncoder) (status status' : TicketStatus) :
    SameStateRoot enc plain asCollected asCollected (ticketOnly status)
      (ticketOnly status') :=
  ⟨_, rfl, rfl⟩

set_option maxRecDepth 4000 in
theorem sameStateRoot_masternodeOnly (enc : LedgerEncoder) (status status' : MasternodeStatus)
    (failures failures' : UInt32) :
    SameStateRoot enc plain asCollected asCollected (masternodeOnly status failures)
      (masternodeOnly status' failures') :=
  ⟨_, rfl, rfl⟩

theorem not_sameMaps_ticketOnly : ¬ (ticketOnly .pending).SameMaps (ticketOnly .live) := by
  intro hsame
  have hlookup := sameEntries_iff.mp hsame.liveTickets (.replicate 32 1)
  revert hlookup
  decide

/-- The roots are the same, and the ledgers differ in the status of the ticket. -/
theorem stateRoot_binds_ticketOnly :
    countingEncoder.Injective ∧
      ¬ AgreesBeyond (Committed countingEncoder plain asCollected (ticketOnly .pending))
        (ticketOnly .pending) (ticketOnly .live) := by
  refine ⟨countingEncoder_injective, (stateRoot_binds_iff countingEncoder
    plain_collisionFree countingEncoder_injective asCollected asCollected _ _
    (sameStateRoot_ticketOnly countingEncoder .pending .live)).not.mp not_sameMaps_ticketOnly⟩

/-- The status of a ticket can change without a change of the root, and so can the status of a
masternode and the number of its failures. -/
theorem stateRoot_misses_statuses :
    plain.CollisionFree ∧ countingEncoder.Injective ∧
      (SameStateRoot countingEncoder plain asCollected asCollected (ticketOnly .pending)
        (ticketOnly .live) ∧ ¬ (ticketOnly .pending).SameMaps (ticketOnly .live)) ∧
      (SameStateRoot countingEncoder plain asCollected asCollected
        (masternodeOnly .active 0) (masternodeOnly .banned 3) ∧
          ¬ (masternodeOnly .active 0).SameMaps (masternodeOnly .banned 3)) := by
  refine ⟨plain_collisionFree, countingEncoder_injective,
    ⟨sameStateRoot_ticketOnly _ _ _, not_sameMaps_ticketOnly⟩,
    ⟨sameStateRoot_masternodeOnly _ _ _ _ _, fun hsame => ?_⟩⟩
  have hlookup := sameEntries_iff.mp hsame.masternodeList firstId
  revert hlookup
  decide

end

end BlockchainState

end RustyCoin
