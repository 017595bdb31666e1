import RustyCoin.Consensus.Governance
import RustyCoin.Consensus.Tickets
import RustyCoin.Consensus.UtxoSet
import RustyCoin.Lib.Utf8
import RustyCoin.Trie.StateData

/-!
# The state root of the ledger

`calculate_state_root_from_masternode_list` collects the four parts of the state
into new hash maps and builds a trie from them. Masternodes go into the trie under
their places in an iteration over the masternode list, and the votes of a proposal
in the order of an iteration over them. The state root depends on both, and on
the order in which the new maps are iterated.
-/

namespace RustyCoin

open List

/-- The state that a root commits to. -/
structure Ledger where
  utxoSet : UtxoSet
  liveTickets : LiveTicketsPool
  masternodeList : MasternodeList
  activeProposals : ActiveProposals

/-- The same maps, iterated in any order. -/
structure Ledger.SameMaps (ledger ledger' : Ledger) : Prop where
  utxoSet : ledger.utxoSet.utxos.SameEntries ledger'.utxoSet.utxos
  liveTickets : ledger.liveTickets.tickets.SameEntries ledger'.liveTickets.tickets
  masternodeList : ledger.masternodeList.map.SameEntries ledger'.masternodeList.map
  activeProposals : ledger.activeProposals.SameContents ledger'.activeProposals

theorem Ledger.SameMaps.symm {ledger ledger' : Ledger} (h : ledger.SameMaps ledger') :
    ledger'.SameMaps ledger :=
  ⟨h.utxoSet.symm, h.liveTickets.symm, h.masternodeList.symm, h.activeProposals.symm⟩

/-- `bincode::serialize` of what goes into the trie. A map of votes is serialized
in the order of an iteration. -/
structure LedgerEncoder extends StateEncoder where
  encodeMasternodeId : MasternodeID → Bytes
  encodeProposal : GovernanceProposal → List (Hash × GovernanceVote) → Bytes
  encodeVotes : List (Hash × GovernanceVote) → Bytes

/-- The orders in which newly collected maps are iterated. -/
structure IterationOrder where
  reorder : StateData → StateData
  same : ∀ data, (reorder data).SameMaps data

namespace BlockchainState

open HashMap

variable (enc : LedgerEncoder)

def ticketData (ticket : Ticket) : TicketData where
  owner := ticket.pubkey
  value := ticket.value
  expirationHeight := ticket.height
  creationHeight := ticket.height

/-- `format!("mn_{}", i)` -/
def masternodeKey (i : Nat) : Bytes :=
  ("mn_" ++ toString i).toUTF8.data.toList

/-- `format!("prop_{}", hex::encode(proposal_id))` -/
def proposalKey (proposalId : Hash) : Bytes :=
  ("prop_" ++ ConsensusError.hexEncode proposalId.toList).toUTF8.data.toList

variable (list : MasternodeList)

/-- The masternodes by their places in the iteration. -/
def masternodePairs : List (Bytes × Bytes) :=
  list.map.toPairs.zipIdx.map fun ((mnId, _), i) => (masternodeKey i, enc.encodeMasternodeId mnId)

variable (proposals : ActiveProposals)

/-- The votes are serialized with the proposal, and then once more. -/
def proposalData (proposalId : Hash)
    (entry : GovernanceProposal × HashMap Hash GovernanceVote) : Bytes :=
  enc.encodeProposal entry.1 entry.2.toPairs ++
    match proposals.getVotesForProposal proposalId with
    | some votes => enc.encodeVotes votes.toPairs
    | none => []

def proposalPairs : List (Bytes × Bytes) :=
  proposals.proposals.toPairs.map fun (proposalId, entry) =>
    (proposalKey proposalId, proposalData enc proposals proposalId entry)

def stateData (ledger : Ledger) : StateData where
  utxoSet := ledger.utxoSet.utxos
  liveTickets := ledger.liveTickets.tickets.mapValues ticketData
  masternodeList := HashMap.insertAll ∅ (masternodePairs enc ledger.masternodeList)
  activeProposals := HashMap.insertAll ∅ (proposalPairs enc ledger.activeProposals)

variable {Digest : Type} [DecidableEq Digest] (H : TrieHasher Digest)

def calculateStateRootFromMasternodeList (order : IterationOrder) (ledger : Ledger) :
    TrieResult Digest Digest := do
  let trie ← MerklePatriciaTrie.fromStateData H enc.toStateEncoder
    (order.reorder (stateData enc ledger))
  return trie.rootHash

theorem masternodeKey_injective : Function.Injective masternodeKey := by
  intro i j h
  rw [masternodeKey, masternodeKey, Utf8.data_append, Utf8.data_append, append_cancel_left_eq] at h
  exact Utf8.repr_injective (Utf8.data_injective h)

theorem digitChar_injective {m n : Nat} (hm : m < 16) (hn : n < 16)
    (h : Nat.digitChar m = Nat.digitChar n) : m = n := by
  have hall : ∀ i j : Fin 16, Nat.digitChar i = Nat.digitChar j → i = j := by decide
  exact congrArg Fin.val (hall ⟨m, hm⟩ ⟨n, hn⟩ h)

theorem hexEncode_injective : Function.Injective ConsensusError.hexEncode := by
  intro bytes bytes' h
  have hchars : bytes.flatMap ConsensusError.hexByte = bytes'.flatMap ConsensusError.hexByte :=
    String.ofList_injective h
  clear h
  induction bytes generalizing bytes' with
  | nil =>
    cases bytes' with
    | nil => rfl
    | cons b bytes' => cases hchars
  | cons b bytes ih =>
    cases bytes' with
    | nil => cases hchars
    | cons b' bytes' =>
      simp only [flatMap_cons, ConsensusError.hexByte, cons_append, nil_append,
        List.cons.injEq] at hchars
      obtain ⟨hhigh, hlow, hrest⟩ := hchars
      have hb := b.toNat_lt
      have hb' := b'.toNat_lt
      have hquot := digitChar_injective (by omega) (by omega) hhigh
      have hrem := digitChar_injective (by omega) (by omega) hlow
      have hbyte : b = b' := UInt8.toNat_inj.mp (by omega)
      rw [hbyte, ih hrest]

theorem proposalKey_injective : Function.Injective proposalKey := by
  intro proposalId proposalId' h
  rw [proposalKey, proposalKey, Utf8.data_append, Utf8.data_append, append_cancel_left_eq] at h
  exact List.Vector.toList_injective (hexEncode_injective (Utf8.data_injective h))

theorem nodup_masternodePairs : ((masternodePairs enc list).map Prod.fst).Nodup := by
  have hkeys : (masternodePairs enc list).map Prod.fst =
      (list.map.toPairs.zipIdx.map Prod.snd).map masternodeKey := by
    rw [masternodePairs, map_map, map_map]
    rfl
  rw [hkeys, zipIdx_map_snd]
  exact List.Nodup.map masternodeKey_injective nodup_range'

theorem nodup_proposalPairs : ((proposalPairs enc proposals).map Prod.fst).Nodup := by
  have hkeys : (proposalPairs enc proposals).map Prod.fst =
      (proposals.proposals.toPairs.map Prod.fst).map proposalKey := by
    simp [proposalPairs]
  rw [hkeys]
  exact (proposals.proposals.nodup_toPairs).map proposalKey_injective

theorem mem_masternodePairs (mnKey bytes : Bytes) :
    (mnKey, bytes) ∈ masternodePairs enc list ↔
      ∃ i mnId, list.map.toPairs[i]?.map Prod.fst = some mnId ∧ masternodeKey i = mnKey ∧
        enc.encodeMasternodeId mnId = bytes := by
  simp only [masternodePairs, mem_map, Prod.exists, mem_zipIdx_iff_getElem?,
    Prod.mk.injEq, Option.map_eq_some_iff]
  constructor
  · rintro ⟨mnId, entry, i, hget, rfl, rfl⟩
    exact ⟨i, mnId, ⟨mnId, entry, hget, rfl⟩, rfl, rfl⟩
  · rintro ⟨i, _, ⟨mnId, entry, hget, rfl⟩, rfl, rfl⟩
    exact ⟨mnId, entry, i, hget, rfl, rfl⟩

theorem mem_proposalPairs (propKey bytes : Bytes) :
    (propKey, bytes) ∈ proposalPairs enc proposals ↔
      ∃ proposalId entry, proposals.proposals.lookup proposalId = some entry ∧
        proposalKey proposalId = propKey ∧ proposalData enc proposals proposalId entry = bytes := by
  simp only [proposalPairs, mem_map, Prod.exists, mem_toPairs, Prod.mk.injEq]

/-- What the trie is built from. -/
theorem mem_entries_stateData (ledger : Ledger) (key value : Bytes) :
    (key, value) ∈ (stateData enc ledger).entries enc.toStateEncoder ↔
      (∃ outpoint utxo, ledger.utxoSet.getUtxo outpoint = some utxo ∧
        encodeUtxoKey outpoint = key ∧ enc.encodeUtxoValue utxo = value) ∨
      (∃ ticketId ticket, ledger.liveTickets.getTicket ticketId = some ticket ∧
        encodeTicketKey ticketId = key ∧ enc.encodeTicketValue (ticketData ticket) = value) ∨
      (∃ i mnId, ledger.masternodeList.map.toPairs[i]?.map Prod.fst = some mnId ∧
        encodeMasternodeKey (masternodeKey i) = key ∧ enc.encodeMasternodeId mnId = value) ∨
      ∃ proposalId entry, ledger.activeProposals.proposals.lookup proposalId = some entry ∧
        encodeProposalKey (proposalKey proposalId) = key ∧
        proposalData enc ledger.activeProposals proposalId entry = value := by
  rw [StateData.entries, mem_append, mem_append, mem_append, or_assoc, or_assoc]
  refine or_congr ?_ (or_congr ?_ (or_congr ?_ ?_))
  · exact mem_encoded _ _ _ _ _
  · refine (mem_encoded _ _ _ _ _).trans (exists_congr fun ticketId => ?_)
    change (∃ data, (ledger.liveTickets.tickets.mapValues ticketData).lookup ticketId = some data ∧
      _) ↔ _
    rw [lookup_mapValues]
    simp [LiveTicketsPool.getTicket]
  · refine (mem_encoded _ _ id _ _).trans ?_
    change (∃ mnKey bytes, (insertAll ∅ (masternodePairs enc ledger.masternodeList)).lookup mnKey =
      some bytes ∧ _) ↔ _
    simp only [lookup_collected (nodup_masternodePairs enc _), mem_masternodePairs]
    constructor
    · rintro ⟨_, _, ⟨i, mnId, hget, rfl, rfl⟩, hkey, hvalue⟩
      exact ⟨i, mnId, hget, hkey, hvalue⟩
    · rintro ⟨i, mnId, hget, hkey, hvalue⟩
      exact ⟨_, _, ⟨i, mnId, hget, rfl, rfl⟩, hkey, hvalue⟩
  · refine (mem_encoded _ _ id _ _).trans ?_
    change (∃ propKey bytes,
      (insertAll ∅ (proposalPairs enc ledger.activeProposals)).lookup propKey = some bytes ∧ _) ↔ _
    simp only [lookup_collected (nodup_proposalPairs enc _), mem_proposalPairs]
    constructor
    · rintro ⟨_, _, ⟨proposalId, entry, hlookup, rfl, rfl⟩, hkey, hvalue⟩
      exact ⟨proposalId, entry, hlookup, hkey, hvalue⟩
    · rintro ⟨proposalId, entry, hlookup, hkey, hvalue⟩
      exact ⟨_, _, ⟨proposalId, entry, hlookup, rfl, rfl⟩, hkey, hvalue⟩

section

open MerklePatriciaTrie

variable (enc : LedgerEncoder) {Digest : Type} [DecidableEq Digest] {H : TrieHasher Digest}

variable (order : IterationOrder) (ledger : Ledger)

/-- The entries in the order in which they are inserted. -/
def insertedEntries : List (Bytes × Bytes) :=
  (order.reorder (stateData enc ledger)).entries enc.toStateEncoder

@[simp] theorem mem_insertedEntries (e : Bytes × Bytes) :
    e ∈ insertedEntries enc order ledger ↔
      e ∈ (stateData enc ledger).entries enc.toStateEncoder :=
  ((order.same _).entries enc.toStateEncoder).mem_iff

theorem nodup_insertedEntries : ((insertedEntries enc order ledger).map Prod.fst).Nodup :=
  StateData.nodup_entries _ _

theorem calculateStateRoot_eq :
    calculateStateRootFromMasternodeList enc H order ledger =
      (MerklePatriciaTrie.new H).insertAll (insertedEntries enc order ledger) >>= fun trie =>
        .ok trie.rootHash := by
  rw [calculateStateRootFromMasternodeList, fromStateData_eq]
  rfl

theorem returns_error_iff (e : TrieError Digest) :
    (calculateStateRootFromMasternodeList enc H order ledger).Returns (.error e) ↔
      (MerklePatriciaTrie.new H).insertAll (insertedEntries enc order ledger) = Outcome.fail e := by
  rw [calculateStateRoot_eq, Outcome.Returns]
  cases (MerklePatriciaTrie.new H).insertAll (insertedEntries enc order ledger) with
  | error failure => simp [Outcome.fail]
  | ok trie => simp [Outcome.fail]

theorem returns_ok_iff (root : Digest) :
    (calculateStateRootFromMasternodeList enc H order ledger).Returns (.ok root) ↔
      ∃ trie, (MerklePatriciaTrie.new H).insertAll (insertedEntries enc order ledger) = .ok trie ∧
        trie.rootHash = root := by
  rw [calculateStateRoot_eq, Outcome.Returns]
  cases (MerklePatriciaTrie.new H).insertAll (insertedEntries enc order ledger) with
  | error failure => simp
  | ok trie => simp

/-- The state root aborts where the trie does. -/
theorem failsWith_calculateStateRoot {P : Failure (TrieError Digest) → Prop}
    (herr : ∀ e, P (.err e)) (hfree : H.CollisionFree) :
    Outcome.FailsWith P (calculateStateRootFromMasternodeList enc H order ledger) ↔
      ((MerklePatriciaTrie.new H).MeetsLeaf (insertedEntries enc order ledger) → P .panic) := by
  have hroot : (MerklePatriciaTrie.new H).rootHash = TrieTree.digest H .empty := rfl
  rw [calculateStateRoot_eq]
  simp [failsWith_insertAll hfree hroot trivial, herr]

/-- The masternodes at one place and the votes of one proposal serialize alike,
as far as they get into the trie. -/
structure SerializesAlike (kept : Bytes → Prop) (ledger ledger' : Ledger) : Prop where
  masternodes : ∀ i mnId mnId', ledger.masternodeList.map.toPairs[i]?.map Prod.fst = some mnId →
    ledger'.masternodeList.map.toPairs[i]?.map Prod.fst = some mnId' →
    kept (encodeMasternodeKey (masternodeKey i)) →
    enc.encodeMasternodeId mnId = enc.encodeMasternodeId mnId'
  proposals : ∀ proposalId entry entry',
    ledger.activeProposals.proposals.lookup proposalId = some entry →
    ledger'.activeProposals.proposals.lookup proposalId = some entry' →
    kept (encodeProposalKey (proposalKey proposalId)) →
    proposalData enc ledger.activeProposals proposalId entry =
      proposalData enc ledger'.activeProposals proposalId entry'

variable {enc} {ledger ledger' : Ledger}

variable {kept : Bytes → Prop}

theorem SerializesAlike.symm (h : SerializesAlike enc kept ledger ledger') :
    SerializesAlike enc kept ledger' ledger where
  masternodes i mnId mnId' hget hget' hkept := (h.masternodes i mnId' mnId hget' hget hkept).symm
  proposals proposalId entry entry' hlookup hlookup' hkept :=
    (h.proposals proposalId entry' entry hlookup' hlookup hkept).symm

/-- Equal maps differ at most in the values of masternodes and proposals. -/
theorem kept_value_of_serializesAlike (hsame : ledger.SameMaps ledger')
    (halike : SerializesAlike enc kept ledger ledger') {key value : Bytes} (hkept : kept key)
    (hmem : (key, value) ∈ (stateData enc ledger).entries enc.toStateEncoder) :
    (key, value) ∈ (stateData enc ledger').entries enc.toStateEncoder := by
  rw [mem_entries_stateData] at hmem ⊢
  rcases hmem with ⟨outpoint, utxo, hlookup, hkeys⟩ | ⟨ticketId, ticket, hlookup, hkeys⟩ |
    ⟨i, mnId, hget, rfl, rfl⟩ | ⟨proposalId, entry, hlookup, rfl, rfl⟩
  · rw [UtxoSet.getUtxo, sameEntries_iff.mp hsame.utxoSet] at hlookup
    exact .inl ⟨outpoint, utxo, hlookup, hkeys⟩
  · rw [LiveTicketsPool.getTicket, sameEntries_iff.mp hsame.liveTickets] at hlookup
    exact .inr (.inl ⟨ticketId, ticket, hlookup, hkeys⟩)
  · -- both lists have as many places
    obtain ⟨entry, hentry, rfl⟩ := Option.map_eq_some_iff.mp hget
    have hlt := (List.getElem?_eq_some_iff.mp hentry).1
    rw [hsame.masternodeList.toPairs.length_eq] at hlt
    have hget' : ledger'.masternodeList.map.toPairs[i]?.map Prod.fst =
        some (ledger'.masternodeList.map.toPairs[i]).1 := by
      rw [getElem?_eq_getElem hlt]
      rfl
    exact .inr (.inr (.inl ⟨i, _, hget', rfl, (halike.masternodes i _ _ hget hget' hkept).symm⟩))
  · obtain ⟨entry', hlookup'⟩ := hsame.activeProposals.exists_lookup hlookup
    exact .inr (.inr (.inr ⟨proposalId, entry', hlookup', rfl,
      (halike.proposals proposalId _ _ hlookup hlookup' hkept).symm⟩))

/-- Two runs keep the same entries exactly when they keep the same keys, and what
they keep is serialized alike. -/
theorem kept_iff (hsame : ledger.SameMaps ledger') {kept' : Bytes → Prop}
    {entries entries' : List (Bytes × Bytes)} (hnodup' : (entries'.map Prod.fst).Nodup)
    (hentries : ∀ e, e ∈ entries ↔ e ∈ (stateData enc ledger).entries enc.toStateEncoder)
    (hentries' : ∀ e, e ∈ entries' ↔ e ∈ (stateData enc ledger').entries enc.toStateEncoder)
    (hkept : ∀ key, kept key → ∃ value, (key, value) ∈ entries)
    (hkept' : ∀ key, kept' key → ∃ value, (key, value) ∈ entries') :
    (∀ key value, (key, value) ∈ entries ∧ kept key ↔ (key, value) ∈ entries' ∧ kept' key) ↔
      (∀ key, kept key ↔ kept' key) ∧ SerializesAlike enc kept ledger ledger' := by
  constructor
  · intro hiff
    refine ⟨fun key => ⟨fun h => ?_, fun h => ?_⟩, ?_⟩
    · obtain ⟨value, hmem⟩ := hkept key h
      exact ((hiff key value).mp ⟨hmem, h⟩).2
    · obtain ⟨value, hmem⟩ := hkept' key h
      exact ((hiff key value).mpr ⟨hmem, h⟩).2
    · -- an entry that is kept is the only one under its key
      have hvalue : ∀ {key value value'}, kept key →
          (key, value) ∈ (stateData enc ledger).entries enc.toStateEncoder →
          (key, value') ∈ (stateData enc ledger').entries enc.toStateEncoder → value = value' := by
        intro key value value' hkeeps hmem hmem'
        have hother := ((hiff key value).mp ⟨(hentries _).mpr hmem, hkeeps⟩).1
        exact congrArg Prod.snd (inj_on_of_nodup_map hnodup' hother ((hentries' _).mpr hmem') rfl)
      exact
        { masternodes := fun i mnId mnId' hget hget' hkeeps =>
            hvalue hkeeps
              ((mem_entries_stateData enc ledger _ _).mpr
                (.inr (.inr (.inl ⟨i, mnId, hget, rfl, rfl⟩))))
              ((mem_entries_stateData enc ledger' _ _).mpr
                (.inr (.inr (.inl ⟨i, mnId', hget', rfl, rfl⟩))))
          proposals := fun proposalId entry entry' hlookup hlookup' hkeeps =>
            hvalue hkeeps
              ((mem_entries_stateData enc ledger _ _).mpr
                (.inr (.inr (.inr ⟨proposalId, entry, hlookup, rfl, rfl⟩))))
              ((mem_entries_stateData enc ledger' _ _).mpr
                (.inr (.inr (.inr ⟨proposalId, entry', hlookup', rfl, rfl⟩)))) }
  · rintro ⟨hkeys, halike⟩ key value
    rw [hentries, hentries', hkeys]
    refine and_congr_left fun hkeeps' => ⟨fun hmem => ?_, fun hmem => ?_⟩
    · exact kept_value_of_serializesAlike hsame halike ((hkeys key).mpr hkeeps') hmem
    · exact kept_value_of_serializesAlike hsame.symm halike.symm ((hkeys key).mpr hkeeps') hmem

variable (enc)

/-- Two calculations of the state root of one state return the same value exactly
when both stop at a missing node, or both return, keep the same keys, and
serialize alike what they keep of the masternodes and the proposals. -/
theorem stateRoot_order_iff (hfree : H.CollisionFree) (order order' : IterationOrder)
    (hsame : ledger.SameMaps ledger') :
    (∃ result,
      (calculateStateRootFromMasternodeList enc H order ledger).Returns result ∧
      (calculateStateRootFromMasternodeList enc H order' ledger').Returns result) ↔
      (MerklePatriciaTrie.new H).MissesNode (insertedEntries enc order ledger) ∧
        (MerklePatriciaTrie.new H).MissesNode (insertedEntries enc order' ledger') ∨
      ((MerklePatriciaTrie.new H).FindsAll (insertedEntries enc order ledger) ∧
        (MerklePatriciaTrie.new H).PartsAll (insertedEntries enc order ledger)) ∧
      ((MerklePatriciaTrie.new H).FindsAll (insertedEntries enc order' ledger') ∧
        (MerklePatriciaTrie.new H).PartsAll (insertedEntries enc order' ledger')) ∧
      (∀ key, (MerklePatriciaTrie.new H).Keeps (insertedEntries enc order ledger) key ↔
        (MerklePatriciaTrie.new H).Keeps (insertedEntries enc order' ledger') key) ∧
      SerializesAlike enc ((MerklePatriciaTrie.new H).Keeps (insertedEntries enc order ledger))
        ledger ledger' := by
  have hroot : (MerklePatriciaTrie.new H).rootHash = TrieTree.digest H .empty := rfl
  have hmem (entries : List (Bytes × Bytes)) (key : Bytes)
      (hkeeps : (MerklePatriciaTrie.new H).Keeps entries key) :
      ∃ value, (key, value) ∈ entries :=
    mem_of_keeps hkeeps
  have hkept := kept_iff hsame (nodup_insertedEntries enc order' ledger')
    (mem_insertedEntries enc order ledger) (mem_insertedEntries enc order' ledger')
    (hmem _) (hmem _)
  rw [← hkept, ← sameRoot_iff_kept hfree (nodup_insertedEntries enc order ledger)
    (nodup_insertedEntries enc order' ledger')]
  have hfail (entries : List (Bytes × Bytes)) (e : TrieError Digest) :
      (MerklePatriciaTrie.new H).insertAll entries = Outcome.fail e ↔
        e = .trieError "Node not found" ∧ (MerklePatriciaTrie.new H).MissesNode entries :=
    insertAll_fail_iff hfree hroot trivial e
  constructor
  · rintro ⟨error | root, hresult, hresult'⟩
    · rw [returns_error_iff, hfail] at hresult hresult'
      exact .inl ⟨hresult.2, hresult'.2⟩
    · obtain ⟨trie, hrun, hroot⟩ := (returns_ok_iff _ _ _ _).mp hresult
      obtain ⟨trie', hrun', hroot'⟩ := (returns_ok_iff _ _ _ _).mp hresult'
      exact .inr ⟨trie, trie', hrun, hrun', hroot.trans hroot'.symm⟩
  · rintro (⟨hmisses, hmisses'⟩ | ⟨trie, trie', hrun, hrun', hsameRoot⟩)
    · refine ⟨.error (.trieError "Node not found"), ?_, ?_⟩
      · rw [returns_error_iff, hfail]
        exact ⟨rfl, hmisses⟩
      · rw [returns_error_iff, hfail]
        exact ⟨rfl, hmisses'⟩
    · exact ⟨.ok trie.rootHash, (returns_ok_iff _ _ _ _).mpr ⟨trie, hrun, rfl⟩,
        (returns_ok_iff _ _ _ _).mpr ⟨trie', hrun', hsameRoot.symm⟩⟩

/-- The maps are iterated as they were collected. -/
def asCollected : IterationOrder where
  reorder := id
  same _ := ⟨.refl _, .refl _, .refl _, .refl _⟩

/-- Masternode ids as `bincode` writes them; the other encodings are not used. -/
def idEncoder : LedgerEncoder where
  encodeUtxoValue _ := []
  encodeTicketValue _ := []
  encodeMasternodeId mnId := mnId.txid.toList ++ leBytes 4 mnId.vout.toNat
  encodeProposal _ _ := []
  encodeVotes _ := []

/-- A ledger with masternodes only, all with the same entry. -/
def masternodesOnly (mnIds : List MasternodeID) : Ledger where
  utxoSet := .new
  liveTickets := .new
  masternodeList := ⟨HashMap.insertAll ∅ (mnIds.map fun mnId =>
    (mnId, MasternodeList.registeredEntry ⟨mnId, [], "", [], none, []⟩ 0))⟩
  activeProposals := .new

/-- With eleven masternodes, the key of the second one starts that of the last. -/
example : calculateStateRootFromMasternodeList idEncoder TrieHasher.plain asCollected
    (masternodesOnly ((List.range 11).map fun vout => ⟨.replicate 32 1, UInt32.ofNat vout⟩)) =
      .error .panic := by
  decide +kernel

def firstId : MasternodeID := ⟨.replicate 32 1, 0⟩

def secondId : MasternodeID := ⟨.replicate 32 2, 0⟩

theorem sameMaps_masternodesOnly :
    (masternodesOnly [firstId, secondId]).SameMaps (masternodesOnly [secondId, firstId]) where
  utxoSet := .refl _
  liveTickets := .refl _
  masternodeList := by
    change List.Perm _ _
    decide
  activeProposals := .refl _

/-- A ledger with nothing but live tickets. -/
def ticketsOnly (ids : List UInt8) : Ledger where
  utxoSet := .new
  liveTickets := ⟨HashMap.insertAll ∅ (ids.map fun n =>
    (.replicate 32 n, ⟨.replicate 32 n, .replicate 32 n, 101, 900, .live⟩))⟩
  masternodeList := .new
  activeProposals := .new

set_option maxRecDepth 4000 in
/-- Tickets do not change their keys with the order of the iteration. -/
theorem stateRoot_order_iff_tickets :
    let root (ids : List UInt8) := calculateStateRootFromMasternodeList idEncoder
      TrieHasher.plain asCollected (ticketsOnly ids)
    let entries (ids : List UInt8) := insertedEntries idEncoder asCollected (ticketsOnly ids)
    let trie := MerklePatriciaTrie.new TrieHasher.plain
    (∃ result, (root [1, 2]).Returns result ∧ (root [2, 1]).Returns result) ∧
      (trie.MissesNode (entries [1, 2]) ∨ trie.FindsAll (entries [1, 2])) := by
  intro root entries trie
  have hreturns : ∃ result, (root [1, 2]).Returns result ∧ (root [2, 1]).Returns result :=
    ⟨.ok _, rfl, Eq.trans (b := root [1, 2]) (by decide +kernel) rfl⟩
  have hsame : (ticketsOnly [1, 2]).SameMaps (ticketsOnly [2, 1]) :=
    ⟨.refl _, by change List.Perm _ _; decide, .refl _, .refl _⟩
  refine ⟨hreturns, ?_⟩
  exact ((stateRoot_order_iff idEncoder TrieHasher.plain_collisionFree asCollected asCollected
    hsame).mp hreturns).imp And.left fun h => h.1.1

/-- Two masternodes change places with the order of the iteration. -/
theorem stateRoot_depends_on_masternode_order :
    (masternodesOnly [firstId, secondId]).SameMaps (masternodesOnly [secondId, firstId]) ∧
      ¬ ∃ result,
        (calculateStateRootFromMasternodeList idEncoder TrieHasher.plain asCollected
          (masternodesOnly [firstId, secondId])).Returns result ∧
        (calculateStateRootFromMasternodeList idEncoder TrieHasher.plain asCollected
          (masternodesOnly [secondId, firstId])).Returns result := by
  refine ⟨sameMaps_masternodesOnly, ?_⟩
  rintro ⟨error | root, hresult, hresult'⟩
  · cases hresult
  · have hsame : calculateStateRootFromMasternodeList idEncoder TrieHasher.plain asCollected
        (masternodesOnly [firstId, secondId]) =
          calculateStateRootFromMasternodeList idEncoder TrieHasher.plain asCollected
            (masternodesOnly [secondId, firstId]) :=
      Eq.trans hresult (Eq.symm hresult')
    revert hsame
    decide

end

end BlockchainState

end RustyCoin
