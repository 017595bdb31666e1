import RustyCoin.Consensus.BlockEffects
import RustyCoin.Consensus.UtxoValidation

/-!
# What an accepted block does to the unspent outputs

An accepted block has passed the checks of every transaction against the set of
unspent outputs before the block, and its effect on the set is `apply_block`
alone. The effect is a removal of all inputs followed by an insertion of all
outputs. Since no check looks at two inputs together, an output may be spent
several times.
-/

namespace RustyCoin

open List

def Transaction.spentOutpoints (tx : Transaction) : List OutPoint :=
  tx.getInputs.map TxInput.previousOutput

/-- The entries that the outputs of a transaction become. -/
def Transaction.createdEntries (env : Platform) (height : UInt64) (tx : Transaction) :
    List (OutPoint × Utxo) :=
  tx.getOutputs.zipIdx.map fun (output, i) =>
    (⟨tx.txid env, UInt32.ofNat i⟩, ⟨output, tx.isCoinbase, height⟩)

namespace Block

variable (block : Block)

/-- The outpoints that applying the block removes, those of coinbases included. -/
def spentOutpoints : List OutPoint :=
  block.transactions.flatMap Transaction.spentOutpoints

def createdEntries (env : Platform) (block : Block) (height : UInt64) : List (OutPoint × Utxo) :=
  block.transactions.flatMap (Transaction.createdEntries env height)

/-- The transactions that are no coinbases. -/
def payments : List Transaction :=
  block.transactions.filter fun tx => !tx.isCoinbase

/-- The outpoints that the inputs of the payments consume. -/
def consumedOutpoints : List OutPoint :=
  block.payments.flatMap Transaction.spentOutpoints

end Block

namespace UtxoSet

variable (self : UtxoSet)

/-- The set without a list of outpoints. -/
def removeAll (outpoints : List OutPoint) : UtxoSet :=
  outpoints.foldl (fun set outpoint => (set.removeUtxo outpoint).2) self

@[simp] theorem removeAll_utxos (outpoints : List OutPoint) :
    (self.removeAll outpoints).utxos = self.utxos.eraseAll outpoints :=
  (foldl_hom UtxoSet.utxos fun _ _ => rfl).symm

theorem removeInputs_eq (tx : Transaction) :
    self.removeInputs tx = self.removeAll tx.spentOutpoints := by
  rw [removeInputs, removeAll, Transaction.spentOutpoints, foldl_map]

theorem addOutputs_utxos (env : Platform) (height : UInt64) (self : UtxoSet) (tx : Transaction) :
    (self.addOutputs env tx height).utxos =
      self.utxos.insertAll (tx.createdEntries env height) := by
  rw [HashMap.insertAll, Transaction.createdEntries, foldl_map]
  exact (foldl_hom UtxoSet.utxos fun _ _ => rfl).symm

/-- The inputs of several transactions are removed together. -/
theorem foldl_removeInputs_utxos (transactions : List Transaction) :
    (transactions.foldl removeInputs self).utxos =
      self.utxos.eraseAll (transactions.flatMap Transaction.spentOutpoints) := by
  rw [← removeAll_utxos, removeAll, foldl_flatMap]
  congr 2
  funext set tx
  exact removeInputs_eq set tx

/-- Applying a block is one removal and one insertion. -/
theorem applyBlock_utxos (env : Platform) (self : UtxoSet) (block : Block) (height : UInt64) :
    (self.applyBlock env block height).utxos =
      HashMap.insertAll (self.utxos.eraseAll block.spentOutpoints)
        (block.createdEntries env height) := by
  rw [Block.spentOutpoints, ← foldl_removeInputs_utxos, HashMap.insertAll, Block.createdEntries,
    foldl_flatMap]
  refine (foldl_hom UtxoSet.utxos fun set tx => ?_).symm
  exact (addOutputs_utxos env height set tx).symm

/-- A transaction whose inputs are present and covered passes the comprehensive check after others,
without the checks of heights and dust, exactly when no outpoint is spent twice. -/
theorem validateTransactionComprehensive_after_iff {before : List Transaction} {tx : Transaction}
    (hpresent : ∀ outpoint ∈ tx.spentOutpoints, (self.getUtxo outpoint).isSome)
    (hcovered : (WrappingSum.exact tx.outputValues + tx.getFee.toNat) % 2 ^ 64 ≤
      WrappingSum.exact (self.inputValues tx.getInputs) % 2 ^ 64) :
    (before.foldl removeInputs self).validateTransactionComprehensive tx maxHeight 0 0 = true ↔
      tx.spentOutpoints.Nodup ∧
        ∀ outpoint ∈ tx.spentOutpoints, outpoint ∉ before.flatMap Transaction.spentOutpoints := by
  have hget : ∀ outpoint, (before.foldl removeInputs self).getUtxo outpoint =
      if outpoint ∈ before.flatMap Transaction.spentOutpoints then none
      else self.getUtxo outpoint := by
    intro outpoint
    rw [getUtxo, foldl_removeInputs_utxos, HashMap.lookup_eraseAll]
    rfl
  rw [validateTransactionComprehensive_iff]
  constructor
  · rintro ⟨hnodup, hpasses, -⟩
    refine ⟨hnodup, fun outpoint hmem hspent => ?_⟩
    obtain ⟨input, hinput, rfl⟩ := mem_map.mp hmem
    obtain ⟨utxo, hutxo, -⟩ := hpasses input hinput
    rw [hget, if_pos hspent] at hutxo
    cases hutxo
  · rintro ⟨hnodup, hfresh⟩
    have hkept : ∀ input ∈ tx.getInputs,
        (before.foldl removeInputs self).getUtxo input.previousOutput =
          self.getUtxo input.previousOutput := fun input hinput => by
      rw [hget, if_neg (hfresh _ (mem_map_of_mem hinput))]
    refine ⟨hnodup, fun input hinput => ?_, fun output _ => UInt64.zero_le, ?_⟩
    · obtain ⟨utxo, hutxo⟩ := Option.isSome_iff_exists.mp (hpresent _ (mem_map_of_mem hinput))
      exact ⟨utxo, (hkept input hinput).trans hutxo, by simp [maturityCheck],
        by simp [lockTimeCheck]⟩
    · rwa [inputValues, filterMap_congr fun input hinput => by rw [hkept input hinput]]

end UtxoSet

namespace Blockchain

open Outcome

variable {F : Type} (env : Platform)

variable {env} {self : Blockchain F} {tx : Transaction} {height now : UInt64}

/-- What the checks of a transaction that is no coinbase say about its inputs
and its fee. -/
theorem validateTransaction_spec (hcoinbase : tx.isCoinbase = false)
    (hvalid : self.validateTransaction env tx height now = .ok ()) :
    (∀ outpoint ∈ tx.spentOutpoints, (self.utxoSet.getUtxo outpoint).isSome) ∧
      (WrappingSum.exact tx.outputValues + tx.getFee.toNat) % 2 ^ 64 ≤
        WrappingSum.exact (self.utxoSet.inputValues tx.getInputs) % 2 ^ 64 := by
  rw [validateTransaction, hcoinbase] at hvalid
  obtain ⟨_, hinputs, hrest⟩ := bind_eq_ok.mp hvalid
  obtain ⟨_, -, hrest⟩ := bind_eq_ok.mp hrest
  obtain ⟨_, hfee, -⟩ := bind_eq_ok.mp hrest
  refine ⟨?_, ?_⟩
  · intro outpoint hmem
    obtain ⟨input, hinput, rfl⟩ := mem_map.mp hmem
    obtain ⟨utxo, hutxo, -⟩ := bind_eq_ok.mp (forM_eq_ok.mp hinputs input hinput)
    rw [okOr_eq_ok.mp hutxo]
    rfl
  · simp only [validateFee] at hfee
    split at hfee
    · exact absurd hfee (fail_ne_ok _ _)
    · rename_i hle
      exact (WrappingSum.foldl_add_le_iff _ _ _).mp (UInt64.not_lt.mp hle)

variable (env)

variable [F64 F] {clock : Nat → UInt64} {block : Block} {chain chain' : Blockchain F}

variable (hok : (processBlock env clock block).run chain = (.ok (), chain'))

include hok

/-- Every transaction has passed its checks in the state before the block, and
the unspent outputs are those of `apply_block`. -/
theorem processBlock_spec :
    (∀ tx ∈ block.transactions, ∃ now,
      chain.validateTransaction env tx block.header.height now = .ok ()) ∧
      chain'.utxoSet = chain.utxoSet.applyBlock env block block.header.height := by
  obtain ⟨hvalid, set, list, pool, params, proposals, rfl, -, -, -, rfl⟩ :=
    processBlock_inv env hok
  refine ⟨fun tx hmem => ?_, rfl⟩
  obtain ⟨i, hi⟩ := mem_iff_getElem?.mp hmem
  have hchecked := forM_eq_ok.mp hvalid (tx, i) (mem_zipIdx_iff_getElem?.mpr hi)
  exact ⟨clock i, hchecked⟩

theorem consumedOutpoints_present :
    ∀ outpoint ∈ block.consumedOutpoints, (chain.utxoSet.getUtxo outpoint).isSome := by
  intro outpoint hmem
  obtain ⟨tx, htx, houtpoint⟩ := mem_flatMap.mp hmem
  obtain ⟨htx, hcoinbase⟩ := mem_filter.mp htx
  obtain ⟨now, hvalid⟩ := (processBlock_spec env hok).1 tx htx
  exact (validateTransaction_spec (by simpa using hcoinbase) hvalid).1 outpoint houtpoint

omit hok

/-- What the payments of an accepted block consume was present; it is pairwise distinct exactly
when each of them passes the comprehensive check, without heights and dust, on the outputs that
`update_from_block` has left when it comes to it. -/
theorem processBlock_spends_once_iff
    (hok : (processBlock env clock block).run chain = (.ok (), chain')) :
    (block.consumedOutpoints.Nodup ∧
        ∀ outpoint ∈ block.consumedOutpoints, (chain.utxoSet.getUtxo outpoint).isSome) ↔
      ∀ before tx, before ++ [tx] <+: block.payments →
        (before.foldl UtxoSet.removeInputs chain.utxoSet).validateTransactionComprehensive tx
          maxHeight 0 0 = true := by
  rw [and_iff_left (consumedOutpoints_present env hok), Block.consumedOutpoints,
    Prefixes.nodup_flatMap_iff]
  refine forall₃_congr fun before tx hbefore => ?_
  obtain ⟨htx, hcoinbase⟩ := mem_filter.mp (hbefore.subset (mem_append_right _ mem_cons_self))
  obtain ⟨now, hvalid⟩ := (processBlock_spec env hok).1 tx htx
  obtain ⟨hpresent, hcovered⟩ := validateTransaction_spec (by simpa using hcoinbase) hvalid
  exact (chain.utxoSet.validateTransactionComprehensive_after_iff hpresent hcovered).symm

/-- A chain whose only unspent output is `UtxoSet.oneOutput`. -/
def oneOutputChain : Blockchain Rat :=
  { new with utxoSet := .oneOutput }

/-- A block of the given transactions at height one. -/
def blockOf (transactions : List Transaction) : Block where
  header := ⟨1, 1, .replicate 32 0, .replicate 32 0, .replicate 32 0, 0, 0, 0⟩
  ticketVotes := []
  transactions := transactions

/-- The output is spent once. -/
def spendOnce : Block := blockOf [UtxoSet.spend [⟨.replicate 32 1, 0⟩] [900] 100]

/-- The output is spent by two inputs of one transaction. -/
def spendTwice : Block :=
  blockOf [UtxoSet.spend [⟨.replicate 32 1, 0⟩, ⟨.replicate 32 1, 0⟩] [2000] 0]

theorem processBlock_spends_once_iff_spendOnce :
    ((processBlock Platform.blank (fun _ => 0) spendOnce).run oneOutputChain).1 = .ok () ∧
      spendOnce.consumedOutpoints.Nodup := by
  have hok :
      ((processBlock Platform.blank (fun _ => 0) spendOnce).run oneOutputChain).1 = .ok () := by
    decide
  refine ⟨hok, ((processBlock_spends_once_iff Platform.blank (Prod.ext hok rfl)).mpr ?_).1⟩
  exact Prefixes.forall_snoc_cons.mpr ⟨by decide, Prefixes.forall_snoc_nil⟩

/-- Two transactions or two inputs may spend the same output: here two inputs of
one transaction. -/
theorem processBlock_spends_twice :
    ((processBlock Platform.blank (fun _ => 0) spendTwice).run oneOutputChain).1 = .ok () ∧
      ¬ spendTwice.consumedOutpoints.Nodup := by
  decide

end Blockchain

end RustyCoin
