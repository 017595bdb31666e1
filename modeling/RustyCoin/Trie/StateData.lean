import RustyCoin.Trie.Order

/-!
# The state root

`fromStateData` inserts the entries of four hash maps into an empty trie, each
map in the order in which it happens to be iterated. The keys of the four maps
carry different tags, so all keys of the trie are distinct, and the results on
insertion order say when the state root does not depend on the iteration.
-/

namespace RustyCoin

open List

/-- The ticket data that goes into the trie. -/
structure TicketData where
  owner : Bytes
  value : UInt64
  expirationHeight : UInt64
  creationHeight : UInt64
  deriving DecidableEq

/-- `bincode::serialize` of the two kinds of values that need it. -/
structure StateEncoder where
  encodeUtxoValue : Utxo → Bytes
  encodeTicketValue : TicketData → Bytes

structure StateData where
  utxoSet : HashMap OutPoint Utxo
  liveTickets : HashMap TicketId TicketData
  masternodeList : HashMap Bytes Bytes
  activeProposals : HashMap Bytes Bytes

/-- `b"utxo:"` -/
def utxoTag : Bytes := [0x75, 0x74, 0x78, 0x6f, 0x3a]

/-- `b"ticket:"` -/
def ticketTag : Bytes := [0x74, 0x69, 0x63, 0x6b, 0x65, 0x74, 0x3a]

/-- `b"masternode:"` -/
def masternodeTag : Bytes := [0x6d, 0x61, 0x73, 0x74, 0x65, 0x72, 0x6e, 0x6f, 0x64, 0x65, 0x3a]

/-- `b"proposal:"` -/
def proposalTag : Bytes := [0x70, 0x72, 0x6f, 0x70, 0x6f, 0x73, 0x61, 0x6c, 0x3a]

def encodeUtxoKey (outpoint : OutPoint) : Bytes :=
  utxoTag ++ outpoint.txid.toList ++ leBytes 4 outpoint.vout.toNat

def encodeTicketKey (ticketId : TicketId) : Bytes :=
  ticketTag ++ ticketId.toList

def encodeMasternodeKey (mnKey : Bytes) : Bytes :=
  masternodeTag ++ mnKey

def encodeProposalKey (propKey : Bytes) : Bytes :=
  proposalTag ++ propKey

namespace StateData

variable (enc : StateEncoder) (data : StateData)

def utxoEntries : List (Bytes × Bytes) :=
  data.utxoSet.toPairs.map fun e => (encodeUtxoKey e.1, enc.encodeUtxoValue e.2)

def ticketEntries : List (Bytes × Bytes) :=
  data.liveTickets.toPairs.map fun e => (encodeTicketKey e.1, enc.encodeTicketValue e.2)

def masternodeEntries : List (Bytes × Bytes) :=
  data.masternodeList.toPairs.map fun e => (encodeMasternodeKey e.1, e.2)

def proposalEntries : List (Bytes × Bytes) :=
  data.activeProposals.toPairs.map fun e => (encodeProposalKey e.1, e.2)

/-- All entries in the order in which they are inserted. -/
def entries : List (Bytes × Bytes) :=
  data.utxoEntries enc ++ data.ticketEntries enc ++ data.masternodeEntries ++ data.proposalEntries

/-- The same four maps, iterated in any order. -/
structure SameMaps (data data' : StateData) : Prop where
  utxoSet : data.utxoSet.SameEntries data'.utxoSet
  liveTickets : data.liveTickets.SameEntries data'.liveTickets
  masternodeList : data.masternodeList.SameEntries data'.masternodeList
  activeProposals : data.activeProposals.SameEntries data'.activeProposals

end StateData

namespace MerklePatriciaTrie

variable {Digest : Type} [DecidableEq Digest] {H : TrieHasher Digest}

def fromStateData (H : TrieHasher Digest) (enc : StateEncoder) (data : StateData) :
    TrieResult Digest (MerklePatriciaTrie H) := do
  let trie ← (new H).insertAll (data.utxoEntries enc)
  let trie ← trie.insertAll (data.ticketEntries enc)
  let trie ← trie.insertAll data.masternodeEntries
  trie.insertAll data.proposalEntries

theorem insertAll_append (trie : MerklePatriciaTrie H) (front back : List (Bytes × Bytes)) :
    trie.insertAll (front ++ back) = trie.insertAll front >>= fun trie => trie.insertAll back := by
  induction front generalizing trie with
  | nil => rfl
  | cons entry front ih =>
    obtain ⟨key, value⟩ := entry
    obtain ⟨e, trie', h⟩ : ∃ e trie', trie.insert key value = (e, trie') := ⟨_, _, rfl⟩
    rw [cons_append, insertAll_cons h, insertAll_cons h]
    cases e with
    | error e => rfl
    | ok u => exact ih trie'

theorem fromStateData_eq (enc : StateEncoder) (data : StateData) :
    fromStateData H enc data = (new H).insertAll (data.entries enc) := by
  rw [StateData.entries, insertAll_append, insertAll_append, insertAll_append]
  simp only [fromStateData, bind_assoc]

end MerklePatriciaTrie

theorem leBytes_injective {m n : Nat} (hm : m < 256 ^ 4) (hn : n < 256 ^ 4)
    (h : leBytes 4 m = leBytes 4 n) : m = n := by
  have hvalue := congrArg leValue h
  rwa [leValue_leBytes, leValue_leBytes, Nat.mod_eq_of_lt hm, Nat.mod_eq_of_lt hn] at hvalue

theorem encodeUtxoKey_injective : Function.Injective encodeUtxoKey := by
  rintro ⟨txid, vout⟩ ⟨txid', vout'⟩ h
  rw [encodeUtxoKey, encodeUtxoKey, append_assoc, append_assoc, append_cancel_left_eq] at h
  obtain ⟨htxid, hvout⟩ := append_inj h (by simp)
  have hlt : ∀ v : UInt32, v.toNat < 256 ^ 4 := fun v => v.toNat_lt
  have htxid' : txid = txid' := List.Vector.toList_injective htxid
  have hvout' : vout = vout' :=
    UInt32.toNat_inj.mp (leBytes_injective (hlt vout) (hlt vout') hvout)
  rw [htxid', hvout']

theorem encodeTicketKey_injective : Function.Injective encodeTicketKey :=
  fun _ _ h => List.Vector.toList_injective (append_cancel_left h)

theorem encodeMasternodeKey_injective : Function.Injective encodeMasternodeKey :=
  fun _ _ h => append_cancel_left h

theorem encodeProposalKey_injective : Function.Injective encodeProposalKey :=
  fun _ _ h => append_cancel_left h

variable {K V : Type} (m : HashMap K V) {encode : K → Bytes}

/-- Encoding the keys of a map keeps them distinct. -/
theorem nodup_encoded (hinj : Function.Injective encode) (value : V → Bytes) :
    ((m.toPairs.map fun e => (encode e.1, value e.2)).map Prod.fst).Nodup := by
  have hkeys : (m.toPairs.map fun e => (encode e.1, value e.2)).map Prod.fst =
      (m.toPairs.map Prod.fst).map encode := by
    simp
  rw [hkeys]
  exact m.nodup_toPairs.map hinj

theorem mem_encoded {K V : Type} [DecidableEq K] (m : HashMap K V) (encode : K → Bytes)
    (value : V → Bytes) (key bytes : Bytes) :
    (key, bytes) ∈ m.toPairs.map (fun e => (encode e.1, value e.2)) ↔
      ∃ k v, m.lookup k = some v ∧ encode k = key ∧ value v = bytes := by
  simp only [mem_map, Prod.exists, HashMap.mem_toPairs, Prod.mk.injEq]

/-- The first byte of a key tells which map it comes from. -/
theorem head?_encoded {tag : UInt8}
    (htag : ∀ k, (encode k).head? = some tag) (value : V → Bytes) {key : Bytes}
    (hkey : key ∈ (m.toPairs.map fun e => (encode e.1, value e.2)).map Prod.fst) :
    key.head? = some tag := by
  simp only [map_map, mem_map, Function.comp_apply] at hkey
  obtain ⟨e, -, rfl⟩ := hkey
  exact htag e.1

namespace StateData

variable (enc : StateEncoder)

/-- All keys of the state are distinct. -/
theorem nodup_entries (data : StateData) : ((data.entries enc).map Prod.fst).Nodup := by
  have hutxo : ∀ {key}, key ∈ (data.utxoEntries enc).map Prod.fst → key.head? = some 0x75 :=
    fun h => head?_encoded data.utxoSet (fun _ => rfl) enc.encodeUtxoValue h
  have hticket : ∀ {key}, key ∈ (data.ticketEntries enc).map Prod.fst → key.head? = some 0x74 :=
    fun h => head?_encoded data.liveTickets (fun _ => rfl) enc.encodeTicketValue h
  have hmasternode : ∀ {key}, key ∈ data.masternodeEntries.map Prod.fst → key.head? = some 0x6d :=
    fun h => head?_encoded data.masternodeList (fun _ => rfl) id h
  have hproposal : ∀ {key}, key ∈ data.proposalEntries.map Prod.fst → key.head? = some 0x70 :=
    fun h => head?_encoded data.activeProposals (fun _ => rfl) id h
  rw [entries, map_append, map_append, map_append]
  refine List.Nodup.append (List.Nodup.append (List.Nodup.append ?_ ?_ ?_) ?_ ?_) ?_ ?_
  · exact nodup_encoded data.utxoSet encodeUtxoKey_injective enc.encodeUtxoValue
  · exact nodup_encoded data.liveTickets encodeTicketKey_injective enc.encodeTicketValue
  · intro key h₁ h₂
    have h := (hutxo h₁).symm.trans (hticket h₂)
    simp at h
  · exact nodup_encoded data.masternodeList encodeMasternodeKey_injective id
  · intro key h₁ h₂
    obtain h₁ | h₁ := mem_append.mp h₁
    · have h := (hutxo h₁).symm.trans (hmasternode h₂)
      simp at h
    · have h := (hticket h₁).symm.trans (hmasternode h₂)
      simp at h
  · exact nodup_encoded data.activeProposals encodeProposalKey_injective id
  · intro key h₁ h₂
    obtain h₁ | h₁ := mem_append.mp h₁
    · obtain h₁ | h₁ := mem_append.mp h₁
      · have h := (hutxo h₁).symm.trans (hproposal h₂)
        simp at h
      · have h := (hticket h₁).symm.trans (hproposal h₂)
        simp at h
    · have h := (hmasternode h₁).symm.trans (hproposal h₂)
      simp at h

theorem SameMaps.entries {data data' : StateData} (h : data.SameMaps data') :
    (data.entries enc).Perm (data'.entries enc) :=
  (((h.utxoSet.toPairs.map _).append (h.liveTickets.toPairs.map _)).append
    (h.masternodeList.toPairs.map _)).append (h.activeProposals.toPairs.map _)

end StateData

namespace MerklePatriciaTrie

open TrieTree RadixTree TrieHasher

variable {Digest : Type} [DecidableEq Digest] {H : TrieHasher Digest}

/-- Keys of which none starts another one part from each other. -/
theorem new_partsAll_of_apart (hfree : H.CollisionFree) {all : List (Bytes × Bytes)}
    (hapart : ∀ e ∈ all, ∀ e' ∈ all, e.1 <+: e'.1 → e.1 = e'.1) : (new H).PartsAll all := by
  suffices h : ∀ entries ⊆ all, ∀ (trie : MerklePatriciaTrie H) (t : TrieTree),
      trie.rootHash = digest H t → t.WellFormed →
      (∀ j v, t.get j = some v → ∃ e ∈ all, nibbles e.1 = j) → trie.PartsAll entries from
    h all (List.Subset.refl all) (new H) .empty rfl trivial nofun
  intro entries
  induction entries with
  | nil => exact fun _ _ _ _ _ _ => trivial
  | cons entry entries ih =>
    intro hsub trie t hroot hwf hkeys
    obtain ⟨key, value⟩ := entry
    obtain ⟨hentry, hrest⟩ := cons_subset.mp hsub
    have hpart : t.conflicts (nibbles key) = false := by
      refine conflicts_of_apart fun j v hj hprefix => ?_
      obtain ⟨e, he, rfl⟩ := hkeys j v hj
      rcases hprefix with hprefix | hprefix
      · rw [hapart e he _ hentry (isPrefix_of_nibbles hprefix)]
      · rw [← hapart _ hentry e he (isPrefix_of_nibbles hprefix)]
    refine ⟨by rw [meetsLeafKey_iff hfree hroot, hpart]; exact nofun, ?_⟩
    obtain ⟨-, hconflict, -⟩ | ⟨t', nodes', -, -, hins, hrun⟩ | ⟨-, hrun⟩ :=
      insert_cases hroot hwf hfree key value
    · rw [hpart] at hconflict
      cases hconflict
    · -- the insertion returns, and its key is one of the entries' as well
      rw [hrun]
      refine ih hrest _ t' rfl (wellFormed_insert hwf hins) fun j v hj => ?_
      obtain rfl | hold := key_of_get_insert hins (Option.isSome_of_eq_some hj)
      · exact ⟨(key, value), hentry, rfl⟩
      · obtain ⟨w, hw⟩ := Option.isSome_iff_exists.mp hold
        exact hkeys j w hw
    · rw [hrun]
      exact ih hrest trie t hroot hwf hkeys

theorem new_partsAll_of_length (hfree : H.CollisionFree) {n : Nat}
    {entries : List (Bytes × Bytes)} (hlen : ∀ e ∈ entries, e.1.length = n) :
    (new H).PartsAll entries :=
  new_partsAll_of_apart hfree fun e he e' he' hprefix =>
    hprefix.eq_of_length ((hlen e he).trans (hlen e' he').symm)

/-- Two orders of inserting the entries of a map whose keys have one length give
one root exactly when every key can be looked up before it is inserted and the
same keys stop inside an extension. For the state root, whose keys have several
lengths, no key may meet a leaf key that it cannot part from either. -/
theorem insertion_order_iff (hfree : H.CollisionFree) :
    (∀ (n : Nat) (entries entries' : List (Bytes × Bytes)), entries.Perm entries' →
      (entries.map Prod.fst).Nodup → (∀ e ∈ entries, e.1.length = n) →
      (SameRoot H entries entries' ↔
        (new H).FindsAll entries ∧ (new H).FindsAll entries' ∧
          ∀ key, (new H).Keeps entries key ↔ (new H).Keeps entries' key)) ∧
    (∀ (enc : StateEncoder) (data data' : StateData), data.SameMaps data' →
      ((∃ trie trie', fromStateData H enc data = .ok trie ∧
          fromStateData H enc data' = .ok trie' ∧ trie.rootHash = trie'.rootHash) ↔
        ((new H).FindsAll (data.entries enc) ∧ (new H).PartsAll (data.entries enc)) ∧
        ((new H).FindsAll (data'.entries enc) ∧ (new H).PartsAll (data'.entries enc)) ∧
        ∀ key, (new H).Keeps (data.entries enc) key ↔ (new H).Keeps (data'.entries enc) key)) := by
  constructor
  · intro n entries entries' hperm hnodup hlen
    have hparts := new_partsAll_of_length hfree hlen
    have hparts' : (new H).PartsAll entries' :=
      new_partsAll_of_length hfree fun e he => hlen e (hperm.mem_iff.mpr he)
    rw [sameRoot_iff hfree hperm hnodup, and_iff_left hparts, and_iff_left hparts']
  · intro enc data data' hsame
    simp only [fromStateData_eq]
    exact sameRoot_iff hfree (hsame.entries enc) (data.nodup_entries enc)

theorem insertion_order_iff_two :
    SameRoot plain [([0x11], [7]), ([0x21], [8])] [([0x21], [8]), ([0x11], [7])] ∧
      (new plain).FindsAll [([0x11], [7]), ([0x21], [8])] ∧
      (new plain).FindsAll [([0x21], [8]), ([0x11], [7])] ∧
      ∀ key, (new plain).Keeps [([0x11], [7]), ([0x21], [8])] key ↔
        (new plain).Keeps [([0x21], [8]), ([0x11], [7])] key :=
  have hsame : SameRoot plain [([0x11], [7]), ([0x21], [8])]
      [([0x21], [8]), ([0x11], [7])] := ⟨_, _, rfl, rfl, rfl⟩
  ⟨hsame, ((insertion_order_iff plain_collisionFree).1 1 _ _ (.swap _ _ _)
    (by decide) (by decide)).mp hsame⟩

/-- A map of three proposals in one iteration order, and in another. -/
def threeProposals : HashMap Bytes Bytes where
  entries := [⟨[0x11], [7]⟩, ⟨[0x12], [7]⟩, ⟨[0x21], [7]⟩]
  nodupKeys := by
    rw [List.NodupKeys]
    decide

def threeProposalsRotated : HashMap Bytes Bytes where
  entries := [⟨[0x21], [7]⟩, ⟨[0x11], [7]⟩, ⟨[0x12], [7]⟩]
  nodupKeys := by
    rw [List.NodupKeys]
    decide

set_option maxRecDepth 4000 in
/-- Two iterations over one map of proposals give different state roots: when the
key that parts first from the others comes last, it is dropped. -/
theorem stateRoot_depends_on_order :
    ∃ (enc : StateEncoder) (data data' : StateData), data.SameMaps data' ∧
      (∀ e ∈ data.entries enc, e.1.length = 10) ∧
      ∃ trie trie', fromStateData plain enc data = .ok trie ∧
        fromStateData plain enc data' = .ok trie' ∧
        trie.rootHash ≠ trie'.rootHash := by
  refine ⟨⟨fun _ => [], fun _ => []⟩, ⟨∅, ∅, ∅, threeProposals⟩,
    ⟨∅, ∅, ∅, threeProposalsRotated⟩, ⟨.refl _, .refl _, .refl _, ?_⟩, by decide,
    _, _, rfl, rfl, by decide⟩
  show threeProposals.entries.Perm threeProposalsRotated.entries
  decide

end MerklePatriciaTrie

end RustyCoin
