import RustyCoin.Consensus.UtxoReplay
import RustyCoin.Lib.Utf8
import RustyCoin.RustyConsensus.ValidateTransaction

/-!
# The state of the chain in rusty-consensus

`BlockchainState` keeps unspent outputs, blocks and the hashes of blocks in one
key-value store, under keys that are texts. Outputs are stored under one kind of
key and deleted under another one, so what a block spends stays in the store. A
block is stored under its hash only, and is looked up by its height.
-/

namespace RustyCoin.RustyConsensus

open Outcome HashMap Blockchain List

/-- The database. Only the calls below use it. -/
structure BlockchainState where
  db : HashMap Bytes Bytes

namespace BlockchainState

/-- The bytes of a key. -/
def key (text : String) : Bytes := text.toUTF8.toList

/-- `"UTXO {:?}:{}"` -/
def utxoText (outpoint : OutPoint) : String :=
  "UTXO " ++ ConsensusError.debugBytes outpoint.txid.toList ++ ":" ++ toString outpoint.vout.toNat

/-- `"utxo_{:?}_{}"` -/
def spentText (outpoint : OutPoint) : String :=
  "utxo_" ++ ConsensusError.debugBytes outpoint.txid.toList ++ "_" ++ toString outpoint.vout.toNat

/-- `"block_{:?}"` -/
def blockText (hash : Hash) : String := "block_" ++ ConsensusError.debugBytes hash.toList

/-- `"block_hash_{}"` -/
def blockHashText (height : UInt32) : String := "block_hash_" ++ toString height.toNat

@[simp] theorem key_inj {text text' : String} : key text = key text' ↔ text = text' := by
  constructor
  · intro h
    rw [key, key, Utf8.toList_eq, Utf8.toList_eq] at h
    exact Utf8.data_injective h
  · rintro rfl
    rfl

theorem isDigit_of_mem {n : Nat} {c : Char} (h : c ∈ (toString n).toList) : c.isDigit = true := by
  have hdigit : c ∈ Nat.toDigits 10 n := Nat.toList_repr ▸ h
  exact Nat.isDigit_of_mem_toDigits (by decide) (by decide) hdigit

/-- The numbers of a byte array as `Debug` prints them. -/
def numbers (bytes : Bytes) : List (List Char) :=
  bytes.map fun b => (toString b.toNat).toList

theorem toList_debugBytes (bytes : Bytes) :
    (ConsensusError.debugBytes bytes).toList =
      '[' :: ([',', ' '].intercalate (numbers bytes) ++ [']']) := by
  rw [ConsensusError.debugBytes, String.toList_append, String.toList_append,
    String.toList_intercalate, map_map]
  rfl

theorem not_mem_numbers {sep : Char} (hsep : sep.isDigit = false) {bytes : Bytes} :
    ∀ piece ∈ numbers bytes, sep ∉ piece := by
  intro piece hpiece hmem
  obtain ⟨b, -, rfl⟩ := mem_map.mp hpiece
  rw [isDigit_of_mem hmem] at hsep
  cases hsep

/-- The closing bracket is the first one. -/
theorem bracket_not_mem (bytes : Bytes) : ']' ∉ [',', ' '].intercalate (numbers bytes) := by
  intro hmem
  rcases Separators.mem_intercalate hmem with hsep | ⟨piece, hpiece, hmem⟩
  · revert hsep
    decide
  · exact not_mem_numbers (by decide) piece hpiece hmem

theorem numbers_inj {hash hash' : Hash} (h : [',', ' '].intercalate (numbers hash.toList) =
      [',', ' '].intercalate (numbers hash'.toList)) : hash = hash' := by
  have hlength : (numbers hash.toList).length = (numbers hash'.toList).length := by
    rw [numbers, numbers, length_map, length_map, List.Vector.toList_length,
      List.Vector.toList_length]
  have hnumbers := Separators.intercalate_inj (not_mem_numbers (by decide))
    (not_mem_numbers (by decide)) hlength h
  have hinj : Function.Injective fun b : UInt8 => (toString b.toNat).toList := by
    intro b b' heq
    exact UInt8.toNat_inj.mp (Utf8.repr_injective (String.toList_inj.mp heq))
  exact Subtype.ext (map_injective_iff.mpr hinj hnumbers)

theorem utxoText_inj {outpoint outpoint' : OutPoint} (h : utxoText outpoint = utxoText outpoint') :
    outpoint = outpoint' := by
  have hlist := congrArg String.toList h
  simp only [utxoText, String.toList_append, toList_debugBytes, append_assoc,
    cons_append, append_cancel_left_eq, List.cons.injEq, true_and,
    nil_append] at hlist
  obtain ⟨hhash, hrest⟩ := Separators.append_cons_inj (bracket_not_mem _) (bracket_not_mem _) hlist
  have hvout : toString outpoint.vout.toNat = toString outpoint'.vout.toNat :=
    String.toList_inj.mp (append_cancel_left hrest)
  obtain ⟨txid, vout⟩ := outpoint
  obtain ⟨txid', vout'⟩ := outpoint'
  rw [OutPoint.mk.injEq]
  exact ⟨numbers_inj hhash, UInt32.toNat_inj.mp (Utf8.repr_injective hvout)⟩

theorem blockText_inj {hash hash' : Hash} (h : blockText hash = blockText hash') :
    hash = hash' := by
  have hlist := congrArg String.toList h
  simp only [blockText, String.toList_append, toList_debugBytes, append_cancel_left_eq,
    List.cons.injEq, true_and] at hlist
  exact numbers_inj (Separators.append_cons_inj (bracket_not_mem _) (bracket_not_mem _) hlist).1

/-- What is deleted is not what was stored. -/
theorem utxoText_ne_spentText (outpoint outpoint' : OutPoint) :
    utxoText outpoint ≠ spentText outpoint' := by
  intro h
  have hhead := congrArg (fun text => text.toList.head?) h
  simp [utxoText, spentText, String.toList_append] at hhead

theorem blockHashText_ne_blockText (height : UInt32) (hash : Hash) :
    blockHashText height ≠ blockText hash := by
  intro h
  have hseventh := congrArg (fun text => text.toList[6]?) h
  simp [blockHashText, blockText, String.toList_append, toList_debugBytes] at hseventh

variable (env : Platform) (bincode : Bincode)

/-- Read a value that was found, with the text that goes before an error. -/
def readValue {α : Type} (deserialize : Bytes → Except String α) (failed : String) :
    Option Bytes → Outcome String (Option α)
  | none => .ok none
  | some value =>
    match deserialize value with
    | .error message => fail (failed ++ message)
    | .ok a => .ok (some a)

variable (self : BlockchainState)

def getUtxo (outpoint : OutPoint) : Outcome String (Option (TxOutput × UInt32 × Bool)) :=
  readValue bincode.stateUtxo.deserialize "Failed to deserialize UTXO: "
    (self.db.lookup (key (utxoText outpoint)))

/-- The twenty bytes that a pay-to-public-key-hash script carries. -/
def extractPublicKeyHash (output : TxOutput) : Option Bytes :=
  if isPayToPubkeyHash output.scriptPubkey then some ((output.scriptPubkey.drop 3).take 20)
  else none

/-- A purchase puts a pending ticket into the pool, and a redemption takes it out. -/
def applyTicket (currentHeight : UInt32) :
    Transaction → Stateful String LiveTicketsPool Unit
  | .ticketPurchase _ _ outputs ticketId _ _ _ _ _ => do
    let output ← Stateful.read fun _ => okOr outputs.head? "No output in ticket purchase"
    let pubkey ← Stateful.read fun _ => okOr (extractPublicKeyHash output)
      "Failed to extract public key hash from ticket purchase output"
    Stateful.modify fun pool =>
      pool.addTicket ⟨ticketId, pubkey, currentHeight.toUInt64, output.value, .pending⟩
  | .ticketRedemption _ _ _ ticketId _ _ _ => Stateful.modify fun pool => pool.removeTicket ticketId
  | _ => pure ()

/-- A transaction counts as a coinbase if it has the id of the first one. -/
def isFirst (block : Block) (tx : Transaction) : Bool :=
  match block.transactions.head? with
  | some firstTx => firstTx.txid env == tx.txid env
  | none => false

variable (block : Block) (currentHeight : UInt32)

/-- The outputs of a transaction as they are stored. -/
def storedEntries (tx : Transaction) : List (OutPoint × TxOutput × UInt32 × Bool) :=
  tx.getOutputs.zipIdx.map fun (output, i) =>
    (⟨tx.txid env, UInt32.ofNat i⟩, output, currentHeight, isFirst env block tx)

/-- The outputs go under one kind of key; what is deleted is another one. -/
def transactionBatch (tx : Transaction) : WriteBatch Bytes Bytes :=
  .deletes (tx.getInputs.map fun input => key (spentText input.previousOutput)) ++
    .puts ((storedEntries env block currentHeight tx).map fun e =>
      (key (utxoText e.1), bincode.stateUtxo.serialize e.2))

/-- One round of the loop over the transactions. -/
def applyTransaction (batch : WriteBatch Bytes Bytes)
    (tx : Transaction) : Stateful String LiveTicketsPool (WriteBatch Bytes Bytes) := do
  applyTicket currentHeight tx
  return batch ++ transactionBatch env bincode block currentHeight tx

def applyBlock :
    Stateful String LiveTicketsPool BlockchainState := do
  let batch ← block.transactions.foldlM (applyTransaction env bincode block currentHeight) []
  return ⟨WriteBatch.write self.db batch⟩

/-- The hash of the block at its height is not stored. -/
def putBlock (block : Block) : BlockchainState :=
  ⟨self.db.insert (key (blockText (block.header.hash env))) (env.serializeBlock block)⟩

/-- `get_block_hash`, and the first half of `get_block` -/
def getBlockHash (height : UInt32) : Outcome String (Option Hash) :=
  readValue bincode.hash.deserialize "Failed to deserialize block hash: "
    (self.db.lookup (key (blockHashText height)))

/-- The block that is stored under a hash. -/
def readBlock (hash : Hash) : Outcome String (Option Block) :=
  readValue env.deserializeBlock "Failed to deserialize block: "
    (self.db.lookup (key (blockText hash)))

def getBlock (height : UInt32) : Outcome String (Option Block) := do
  match ← self.getBlockHash bincode height with
  | none => return none
  | some hash => self.readBlock env hash

section

variable {env : Platform} {bincode : Bincode}

/-- The outputs of a block as they are stored. -/
def blockEntries (env : Platform) (block : Block) (currentHeight : UInt32) :
    List (OutPoint × TxOutput × UInt32 × Bool) :=
  block.transactions.flatMap (storedEntries env block currentHeight)

theorem readValue_some {α : Type} {deserialize : Bytes → Except String α} {value : Bytes} {a : α}
    (h : deserialize value = .ok a) (failed : String) :
    readValue deserialize failed (some value) = .ok (some a) := by
  rw [readValue, h]

@[simp] theorem map_fst_blockEntries (block : Block) (currentHeight : UInt32) :
    (blockEntries env block currentHeight).map Prod.fst = block.createdOutpoints env := by
  rw [blockEntries, map_flatMap]
  refine flatMap_congr fun tx _ => ?_
  rw [storedEntries, map_map]
  rfl

variable {self state : BlockchainState} {block : Block} {currentHeight : UInt32}
  {pool pool' : LiveTicketsPool}

theorem foldlM_applyTransaction_eq_ok {transactions : List Transaction}
    {front batch : WriteBatch Bytes Bytes}
    (h : (transactions.foldlM (applyTransaction env bincode block currentHeight) front).run
      pool = (.ok batch, pool')) :
    batch = front ++
      transactions.flatMap (transactionBatch env bincode block currentHeight) := by
  induction transactions generalizing front pool with
  | nil =>
    cases h
    exact (append_nil _).symm
  | cons tx rest ih =>
    rw [foldlM_cons, Stateful.run_bind_eq_ok] at h
    obtain ⟨next, middle, hstep, hrest⟩ := h
    rw [applyTransaction, Stateful.run_bind_eq_ok] at hstep
    obtain ⟨-, _, -, hpure⟩ := hstep
    cases hpure
    rw [ih hrest, flatMap_cons, append_assoc]

variable (h : (self.applyBlock env bincode block currentHeight).run pool = (.ok state, pool'))

include h

/-- A block that was applied has written its batch. -/
theorem applyBlock_eq_ok :
    state = ⟨WriteBatch.write self.db
      (block.transactions.flatMap (transactionBatch env bincode block currentHeight))⟩ := by
  rw [applyBlock, Stateful.run_bind_eq_ok] at h
  obtain ⟨batch, middle, hrun, hpure⟩ := h
  cases hpure
  rw [foldlM_applyTransaction_eq_ok hrun]
  rfl

/-- An output that the block creates is found afterwards; everything else is as before, also what
the block spends. -/
theorem getUtxo_applyBlock
    (outpoint : OutPoint) :
    state.getUtxo bincode outpoint =
      (lastAt outpoint (blockEntries env block currentHeight)).elim
        (self.getUtxo bincode outpoint) fun entry => .ok (some entry) := by
  have hkeys : Function.Injective fun outpoint => key (utxoText outpoint) :=
    fun _ _ heq => utxoText_inj (key_inj.mp heq)
  have hdeleted : ∀ tx ∈ block.transactions, key (utxoText outpoint) ∉
      tx.getInputs.map fun input => key (spentText input.previousOutput) := by
    intro tx _ hmem
    obtain ⟨input, -, heq⟩ := mem_map.mp hmem
    exact utxoText_ne_spentText _ _ (key_inj.mp heq.symm)
  have hentries : block.transactions.flatMap (fun tx =>
      (storedEntries env block currentHeight tx).map fun e =>
        (key (utxoText e.1), bincode.stateUtxo.serialize e.2)) =
      (blockEntries env block currentHeight).map fun e =>
        (key (utxoText e.1), bincode.stateUtxo.serialize e.2) := by
    rw [blockEntries, map_flatMap]
  have hlast := WriteBatch.lastEffect_flatMap (fun tx =>
    (storedEntries env block currentHeight tx).map fun e =>
      (key (utxoText e.1), bincode.stateUtxo.serialize e.2)) hdeleted
  rw [hentries, lastAt_map hkeys] at hlast
  have hbatch : WriteBatch.lastEffect (key (utxoText outpoint))
      (block.transactions.flatMap (transactionBatch env bincode block currentHeight)) = _ :=
    hlast
  rw [applyBlock_eq_ok h, getUtxo, WriteBatch.lookup_write, hbatch]
  cases lastAt outpoint (blockEntries env block currentHeight) with
  | none => rfl
  | some entry => exact readValue_some (bincode.stateUtxo.deserialize_serialize entry) _

/-- What a block that was applied is to leave in the store. -/
structure AppliedCorrectly (env : Platform) (bincode : Bincode) (state : BlockchainState)
    (block : Block) (currentHeight : UInt32) : Prop where
  spent : ∀ outpoint ∈ block.spentOutpoints, ∀ entry,
    state.getUtxo bincode outpoint ≠ .ok (some entry)
  created : ∀ e ∈ blockEntries env block currentHeight, e.1 ∉ block.spentOutpoints →
    state.getUtxo bincode e.1 = .ok (some e.2)

/-- Outputs that the block creates at one outpoint and does not spend are the same. -/
def EntriesAgree (env : Platform) (block : Block) (currentHeight : UInt32) : Prop :=
  ∀ e ∈ blockEntries env block currentHeight,
    ∀ e' ∈ blockEntries env block currentHeight,
      e.1 = e'.1 → e.1 ∉ block.spentOutpoints → e.2 = e'.2

theorem appliedCorrectly_iff :
    AppliedCorrectly env bincode state block currentHeight ↔
      (∀ outpoint ∈ block.spentOutpoints, outpoint ∉ block.createdOutpoints env ∧
        ∀ entry, self.getUtxo bincode outpoint ≠ .ok (some entry)) ∧
        EntriesAgree env block currentHeight := by
  have hleft := getUtxo_applyBlock h
  have hnone (outpoint : OutPoint) :
      lastAt outpoint (blockEntries env block currentHeight) = none ↔
        outpoint ∉ block.createdOutpoints env := by
    rw [lastAt_eq_none, map_fst_blockEntries]
  constructor
  · rintro ⟨hspent, hcreated⟩
    refine ⟨fun outpoint hmem => ?_, fun e he e' he' hsame hunspent => ?_⟩
    · have hnew : lastAt outpoint (blockEntries env block currentHeight) = none := by
        cases hlast : lastAt outpoint (blockEntries env block currentHeight) with
        | none => rfl
        | some entry =>
          refine absurd ?_ (hspent outpoint hmem entry)
          rw [hleft, hlast]
          rfl
      refine ⟨(hnone outpoint).mp hnew, fun entry hentry => hspent outpoint hmem entry ?_⟩
      rw [hleft, hnew]
      exact hentry
    · have hfirst := hcreated e he hunspent
      have hsecond := hcreated e' he' (hsame ▸ hunspent)
      rw [hsame, hsecond] at hfirst
      exact (Option.some.inj (Except.ok.inj hfirst)).symm
  · rintro ⟨hspent, hagree⟩
    refine ⟨fun outpoint hmem entry hentry => ?_, fun e he hunspent => ?_⟩
    · obtain ⟨hnew, habsent⟩ := hspent outpoint hmem
      rw [hleft, (hnone outpoint).mpr hnew] at hentry
      exact habsent entry hentry
    · have hlast : lastAt e.1 (blockEntries env block currentHeight) = some e.2 :=
        lastAt_of_mem he fun entry hmem => (hagree e he _ hmem rfl hunspent).symm
      rw [hleft, hlast]
      rfl

end

section

variable {env : Platform} {bincode : Bincode}

variable (self : BlockchainState)

theorem getBlockHash_putBlock (block : Block) (height : UInt32) :
    (self.putBlock env block).getBlockHash bincode height =
      self.getBlockHash bincode height := by
  have hkey : key (blockHashText height) ≠ key (blockText (block.header.hash env)) :=
    fun h => blockHashText_ne_blockText _ _ (key_inj.mp h)
  rw [getBlockHash, putBlock, AList.lookup_insert_ne hkey, getBlockHash]

/-- A block that was stored is found by its hash, and no other one has gone. -/
theorem readBlock_putBlock {block : Block}
    (hround : env.deserializeBlock (env.serializeBlock block) = .ok block) (hash : Hash) :
    (self.putBlock env block).readBlock env hash =
      if hash = block.header.hash env then .ok (some block)
      else self.readBlock env hash := by
  split
  · rename_i heq
    subst heq
    rw [readBlock, putBlock, AList.lookup_insert]
    exact readValue_some hround _
  · rename_i hne
    have hkey : key (blockText hash) ≠ key (blockText (block.header.hash env)) :=
      fun h => hne (blockText_inj (key_inj.mp h))
    rw [readBlock, putBlock, AList.lookup_insert_ne hkey, readBlock]

/-- A block is found by its height exactly when its height already leads to it. -/
theorem getBlock_putBlock_iff {block : Block}
    (hround : env.deserializeBlock (env.serializeBlock block) = .ok block) (height : UInt32) :
    (self.putBlock env block).getBlock env bincode height = .ok (some block) ↔
      ∃ hash, self.getBlockHash bincode height = .ok (some hash) ∧
        (hash = block.header.hash env ∨ self.readBlock env hash = .ok (some block)) := by
  rw [getBlock, getBlockHash_putBlock, bind_eq_ok]
  constructor
  · rintro ⟨found, hfound, hread⟩
    cases found with
    | none => cases hread
    | some hash =>
      refine ⟨hash, hfound, ?_⟩
      by_cases heq : hash = block.header.hash env
      · exact Or.inl heq
      · change (self.putBlock env block).readBlock env hash = _ at hread
        rw [readBlock_putBlock self hround, if_neg heq] at hread
        exact Or.inr hread
  · rintro ⟨hash, hfound, hstored⟩
    refine ⟨some hash, hfound, ?_⟩
    change (self.putBlock env block).readBlock env hash = _
    rw [readBlock_putBlock self hround]
    split
    · rfl
    · rename_i hne
      exact hstored.resolve_left hne

end

/-- What a block spends is gone afterwards exactly when it was not stored before and the block does
not create it, and what the block creates is found if no two outputs share an outpoint. A block that
was stored is found by its height exactly when its height already leads to it. -/
theorem blockchainState_finds_iff (env : Platform) (bincode : Bincode) :
    (∀ self block currentHeight pool state pool',
      (applyBlock env bincode self block currentHeight).run pool = (.ok state, pool') →
        (AppliedCorrectly env bincode state block currentHeight ↔
          (∀ outpoint ∈ block.spentOutpoints, outpoint ∉ block.createdOutpoints env ∧
            ∀ entry, self.getUtxo bincode outpoint ≠ .ok (some entry)) ∧
            EntriesAgree env block currentHeight)) ∧
      ∀ (self : BlockchainState) (block : Block),
        env.deserializeBlock (env.serializeBlock block) = .ok block →
          ((self.putBlock env block).getBlock env bincode block.header.height.toUInt32 =
              .ok (some block) ↔
            ∃ hash, self.getBlockHash bincode block.header.height.toUInt32 = .ok (some hash) ∧
              (hash = block.header.hash env ∨
                self.readBlock env hash = .ok (some block))) := by
  constructor
  · intro self block currentHeight pool state pool' hrun
    exact appliedCorrectly_iff hrun
  · intro self block hround
    exact getBlock_putBlock_iff self hround _

/-- A store with one output. -/
def oneStoredOutput : BlockchainState :=
  ⟨AList.insert (key (utxoText ⟨.replicate 32 1, 0⟩))
    (Bincode.plain.stateUtxo.serialize (openOutput 1000, 0, false)) ∅⟩

/-- A platform that reads every block as the one that spends the output. -/
def readsSpendOnce : Platform :=
  { Platform.blank with deserializeBlock := fun _ => .ok spendOnce }

/-- A store in which the height of the block leads to its hash. -/
def heightStored : BlockchainState :=
  ⟨AList.insert (key (blockHashText 1)) (Bincode.plain.hash.serialize (.replicate 32 0)) ∅⟩

theorem blockchainState_finds_iff_spendOnce :
    (∃ state pool, (applyBlock readsSpendOnce .plain ⟨∅⟩ spendOnce 1).run .new =
        (.ok state, pool) ∧ AppliedCorrectly readsSpendOnce .plain state spendOnce 1) ∧
      (heightStored.putBlock readsSpendOnce spendOnce).getBlock readsSpendOnce .plain 1 =
        .ok (some spendOnce) := by
  obtain ⟨happlied, hstored⟩ := blockchainState_finds_iff readsSpendOnce .plain
  obtain ⟨state, pool, hrun⟩ : ∃ state pool,
      (applyBlock readsSpendOnce .plain ⟨∅⟩ spendOnce 1).run .new = (.ok state, pool) :=
    ⟨_, _, rfl⟩
  refine ⟨⟨state, pool, hrun, (happlied _ _ _ _ _ _ hrun).mpr ⟨fun outpoint hspent => ?_, ?_⟩⟩,
    (hstored heightStored spendOnce rfl).mpr ⟨_, ?_, .inl rfl⟩⟩
  · exact ⟨by revert outpoint; decide, nofun⟩
  · unfold EntriesAgree
    decide +kernel
  · change readValue _ _ (heightStored.db.lookup (key (blockHashText 1))) = _
    rw [heightStored, AList.lookup_insert]
    exact readValue_some (Bincode.plain.hash.deserialize_serialize _) _

/-- The output that the block spends is still there, and the block that was stored is not found. -/
theorem blockchainState_keeps_spent_and_loses_block :
    (∃ state pool,
      (oneStoredOutput.applyBlock readsSpendOnce .plain spendOnce 1).run .new =
          (.ok state, pool) ∧
        ⟨.replicate 32 1, 0⟩ ∈ spendOnce.spentOutpoints ∧
          state.getUtxo .plain ⟨.replicate 32 1, 0⟩ = .ok (some (openOutput 1000, 0, false))) ∧
      readsSpendOnce.deserializeBlock (readsSpendOnce.serializeBlock spendOnce) =
          .ok spendOnce ∧
        ((⟨∅⟩ : BlockchainState).putBlock readsSpendOnce spendOnce).getBlock
          readsSpendOnce .plain spendOnce.header.height.toUInt32 = .ok none := by
  obtain ⟨state, pool, hrun⟩ : ∃ state pool,
      (oneStoredOutput.applyBlock readsSpendOnce .plain spendOnce 1).run .new =
        (.ok state, pool) := ⟨_, _, rfl⟩
  refine ⟨⟨state, pool, hrun, by decide, ?_⟩, rfl, ?_⟩
  · have hnew : lastAt ⟨.replicate 32 1, 0⟩
        (blockEntries readsSpendOnce spendOnce 1) = none := by
      decide +kernel
    rw [getUtxo_applyBlock hrun, hnew]
    change readValue _ _ (oneStoredOutput.db.lookup _) = _
    rw [oneStoredOutput, AList.lookup_insert]
    exact readValue_some (Bincode.plain.stateUtxo.deserialize_serialize _) _
  · rw [getBlock, getBlockHash_putBlock]
    rfl

end BlockchainState

end RustyCoin.RustyConsensus
