import RustyCoin.Consensus.Spending

/-!
# Undoing a block, and applying it piece by piece

What applying and reverting a block does to one outpoint depends only on the
transactions that spend or create it. Applying a block in two passes differs
from applying its transactions one by one where an output is spent in the block
that creates it. Reverting a block makes up the outputs that it brings back, so
that it undoes the block only where the made-up output happens to be the right
one.
-/

namespace RustyCoin

open HashMap List

variable (env : Platform)

def Transaction.createdOutpoints (tx : Transaction) : List OutPoint :=
  tx.getOutputs.zipIdx.map fun (_, i) => ⟨tx.txid env, UInt32.ofNat i⟩

def Block.createdOutpoints (block : Block) : List OutPoint :=
  block.transactions.flatMap (Transaction.createdOutpoints env)

variable (outpoint : OutPoint) (transactions : List Transaction)

/-- An output that one of these transactions creates is spent by a later one, and
neither that one nor any after it creates the outpoint again. -/
def SpentAfterCreation : Prop :=
  ∃ before tx after, transactions = before ++ tx :: after ∧
    outpoint ∈ before.flatMap (Transaction.createdOutpoints env) ∧
    outpoint ∈ tx.spentOutpoints ∧
    outpoint ∉ (tx :: after).flatMap (Transaction.createdOutpoints env)

/-- Among these transactions one spends the outpoint, and none before it creates
it. -/
def SpentFirst (outpoint : OutPoint) : List Transaction → Prop
  | [] => False
  | tx :: rest =>
    outpoint ∈ tx.spentOutpoints ∨ outpoint ∉ tx.createdOutpoints env ∧ SpentFirst outpoint rest

instance decidableSpentFirst (outpoint : OutPoint) :
    (transactions : List Transaction) → Decidable (SpentFirst env outpoint transactions)
  | [] => instDecidableFalse
  | tx :: rest =>
    have := decidableSpentFirst outpoint rest
    inferInstanceAs (Decidable (outpoint ∈ tx.spentOutpoints ∨
      outpoint ∉ tx.createdOutpoints env ∧ SpentFirst env outpoint rest))

theorem map_fst_createdEntries (height : UInt64) (tx : Transaction) :
    (tx.createdEntries env height).map Prod.fst = tx.createdOutpoints env := by
  rw [Transaction.createdEntries, map_map]
  rfl

theorem mem_createdEntries_iff (height : UInt64) (transactions : List Transaction)
    (outpoint : OutPoint) :
    outpoint ∈ (transactions.flatMap (Transaction.createdEntries env height)).map Prod.fst ↔
      outpoint ∈ transactions.flatMap (Transaction.createdOutpoints env) := by
  simp only [map_flatMap, map_fst_createdEntries]

variable {env}

theorem spentFirst_iff_of_not_created {outpoint : OutPoint} {transactions : List Transaction}
    (hcreated : outpoint ∉ transactions.flatMap (Transaction.createdOutpoints env)) :
    SpentFirst env outpoint transactions ↔
      outpoint ∈ transactions.flatMap Transaction.spentOutpoints := by
  induction transactions with
  | nil => simp [SpentFirst]
  | cons tx rest ih =>
    rw [flatMap_cons, mem_append, not_or] at hcreated
    rw [SpentFirst, ih hcreated.2, flatMap_cons, mem_append]
    simp [hcreated.1]

variable (env)

/-- The last transaction decides first. -/
theorem spentAfterCreation_append (tx : Transaction) :
    SpentAfterCreation env outpoint (transactions ++ [tx]) ↔
      outpoint ∉ tx.createdOutpoints env ∧
        (SpentAfterCreation env outpoint transactions ∨
          outpoint ∈ tx.spentOutpoints ∧
            outpoint ∈ transactions.flatMap (Transaction.createdOutpoints env)) := by
  constructor
  · rintro ⟨before, spender, after, heq, hcreated, hspent, hafter⟩
    rcases eq_nil_or_concat after with rfl | ⟨after, last, rfl⟩
    · obtain ⟨rfl, hlast⟩ := append_inj' heq rfl
      obtain rfl : tx = spender := singleton_inj.mp hlast
      exact ⟨by simpa using hafter, .inr ⟨hspent, hcreated⟩⟩
    · rw [concat_eq_append, ← cons_append, ← append_assoc] at heq
      obtain ⟨rfl, hlast⟩ := append_inj' heq rfl
      obtain rfl : tx = last := singleton_inj.mp hlast
      simp only [concat_eq_append, flatMap_cons, flatMap_append, mem_append, not_or] at hafter
      refine ⟨by simpa using hafter.2.2, .inl ⟨before, spender, after, rfl, hcreated, hspent, ?_⟩⟩
      simp [hafter.1, hafter.2.1]
  · rintro ⟨hnot, ⟨before, spender, after, rfl, hcreated, hspent, hafter⟩ | ⟨hspent, hcreated⟩⟩
    · refine ⟨before, spender, after ++ [tx], by simp, hcreated, hspent, ?_⟩
      rw [← cons_append, flatMap_append, mem_append, not_or]
      exact ⟨hafter, by simpa using hnot⟩
    · exact ⟨transactions, tx, [], rfl, hcreated, hspent, by simpa using hnot⟩

namespace UtxoSet

variable (env : Platform)

variable (set : UtxoSet)

variable (tx : Transaction)

/-- What a transaction alone does to an outpoint. -/
theorem getUtxo_updateFromTransaction (height : UInt64) (outpoint : OutPoint) :
    (set.updateFromTransaction env tx height).getUtxo outpoint =
      (lastAt outpoint (tx.createdEntries env height)).or
        (if outpoint ∈ tx.spentOutpoints then none else set.getUtxo outpoint) := by
  rw [getUtxo, updateFromTransaction, addOutputs_utxos, lookup_insertAll, removeInputs_eq,
    removeAll_utxos, lookup_eraseAll]
  rfl

variable (block : Block)

/-- What a block does to an outpoint. -/
theorem getUtxo_applyBlock (height : UInt64) (outpoint : OutPoint) :
    (set.applyBlock env block height).getUtxo outpoint =
      (lastAt outpoint (block.createdEntries env height)).or
        (if outpoint ∈ block.spentOutpoints then none else set.getUtxo outpoint) := by
  rw [getUtxo, applyBlock_utxos, lookup_insertAll, lookup_eraseAll]
  rfl

variable (transactions : List Transaction)

/-- The transactions of a block applied one by one. -/
def updateFromTransactions (height : UInt64) :
    UtxoSet :=
  transactions.foldl (fun set tx => set.updateFromTransaction env tx height) set

/-- Every transaction finds its inputs unspent when its turn comes. -/
def SpendsInTurn (height : UInt64) : UtxoSet → List Transaction → Prop
  | _, [] => True
  | set, tx :: rest =>
    (∀ outpoint ∈ tx.spentOutpoints, (set.getUtxo outpoint).isSome) ∧
      SpendsInTurn height (set.updateFromTransaction env tx height) rest

/-- One by one, the outputs that are spent after their creation are gone; all the
others are as after the two passes. -/
theorem getUtxo_updateFromTransactions (height : UInt64) (outpoint : OutPoint) :
    (SpentAfterCreation env outpoint transactions →
      (set.updateFromTransactions env transactions height).getUtxo outpoint = none) ∧
    (¬ SpentAfterCreation env outpoint transactions →
      (set.updateFromTransactions env transactions height).getUtxo outpoint =
        (lastAt outpoint (transactions.flatMap (Transaction.createdEntries env height))).or
          (if outpoint ∈ transactions.flatMap Transaction.spentOutpoints then none
          else set.getUtxo outpoint)) := by
  induction transactions using List.reverseRecOn with
  | nil =>
    refine ⟨?_, fun _ => rfl⟩
    rintro ⟨before, tx, after, heq, -⟩
    simp at heq
  | append_singleton rest tx ih =>
    have hstep : (set.updateFromTransactions env (rest ++ [tx]) height).getUtxo outpoint =
        (lastAt outpoint (tx.createdEntries env height)).or
          (if outpoint ∈ tx.spentOutpoints then none
          else (set.updateFromTransactions env rest height).getUtxo outpoint) := by
      rw [updateFromTransactions, foldl_append, foldl_cons, foldl_nil,
        getUtxo_updateFromTransaction]
      rfl
    have hlast := lastAt_eq_none outpoint (tx.createdEntries env height)
    rw [map_fst_createdEntries] at hlast
    have hrest := lastAt_eq_none outpoint (rest.flatMap (Transaction.createdEntries env height))
    rw [mem_createdEntries_iff] at hrest
    rw [hstep, spentAfterCreation_append]
    simp only [flatMap_append, flatMap_singleton, lastAt_append, mem_append]
    by_cases hcreated : outpoint ∈ tx.createdOutpoints env
    · -- the new output stands, whatever happened before
      obtain ⟨utxo, hutxo⟩ := Option.ne_none_iff_exists'.mp fun h => hlast.mp h hcreated
      simp [hcreated, hutxo]
    · rw [hlast.mpr hcreated]
      by_cases hspent : outpoint ∈ tx.spentOutpoints
      · by_cases hearlier : outpoint ∈ rest.flatMap (Transaction.createdOutpoints env)
        · simp [hcreated, hspent, hearlier]
        · simp [hspent, hrest.mpr hearlier]
      · simpa [hcreated, hspent] using ih

/-- The two passes and the transactions one by one give the same set exactly when
no output is spent for good in the block that creates it. -/
theorem updateFromBlock_sequential_iff (height : UInt64) :
    (set.updateFromBlock env block height).utxos.SameEntries
        (set.updateFromTransactions env block.transactions height).utxos ↔
      ∀ outpoint, ¬ SpentAfterCreation env outpoint block.transactions := by
  rw [sameEntries_iff]
  refine forall_congr' fun outpoint => ?_
  have hblock := getUtxo_applyBlock env set block height outpoint
  have hinTurn := getUtxo_updateFromTransactions env set block.transactions height outpoint
  change (set.applyBlock env block height).getUtxo outpoint =
    (set.updateFromTransactions env block.transactions height).getUtxo outpoint ↔ _
  constructor
  · intro hsame hspent
    rw [hinTurn.1 hspent, hblock, Option.or_eq_none_iff, lastAt_eq_none, Block.createdEntries,
      mem_createdEntries_iff] at hsame
    obtain ⟨before, tx, after, heq, hcreated, -⟩ := hspent
    refine hsame.1 ?_
    rw [heq, flatMap_append]
    exact mem_append_left _ hcreated
  · intro hspent
    rw [hblock, hinTurn.2 hspent]
    rfl

/-- The second transaction spends the output of the first one. -/
def spendOwnOutput : Block :=
  Blockchain.blockOf [spend [⟨.replicate 32 1, 0⟩] [900] 100, spend [⟨.replicate 32 0, 0⟩] [] 900]

/-- Two passes leave the output of the first transaction unspent. -/
theorem updateFromBlock_keeps_spent_output :
    SpendsInTurn Platform.blank 1 oneOutput spendOwnOutput.transactions ∧
      ¬ (oneOutput.updateFromBlock Platform.blank spendOwnOutput 1).utxos.SameEntries
        (oneOutput.updateFromTransactions Platform.blank spendOwnOutput.transactions 1).utxos := by
  refine ⟨⟨by decide, by decide, trivial⟩, fun hsame => ?_⟩
  have hlookup := sameEntries_iff.mp hsame ⟨.replicate 32 0, 0⟩
  revert hlookup
  decide

variable {env}

/-- The outputs that an input brings back are kept if they are there. -/
theorem forM_revertInput_run (inputs : List TxInput) (set : UtxoSet) :
    ∃ set', (forM inputs revertInput).run set = (.ok (), set') ∧
      ∀ outpoint, set'.getUtxo outpoint =
        if outpoint ∈ inputs.map TxInput.previousOutput then
          some ((set.getUtxo outpoint).getD dummyUtxo)
        else set.getUtxo outpoint := by
  induction inputs generalizing set with
  | nil => exact ⟨set, rfl, fun outpoint => rfl⟩
  | cons input inputs ih =>
    have hhead : (revertInput input).run set = (.ok (), set.addUtxo input.previousOutput
        ((set.getUtxo input.previousOutput).getD dummyUtxo)) := by
      rw [revertInput, Stateful.run_read_bind, getHistoricalUtxo]
      cases set.getUtxo input.previousOutput with
      | none => rfl
      | some utxo => rfl
    obtain ⟨set', hrun, hset'⟩ := ih (set.addUtxo input.previousOutput
      ((set.getUtxo input.previousOutput).getD dummyUtxo))
    refine ⟨set', ?_, fun outpoint => ?_⟩
    · rw [forM_cons, Stateful.run_bind_of_ok hhead, hrun]
    · rw [hset']
      by_cases hsame : outpoint = input.previousOutput
      · subst hsame
        have hadded : (set.addUtxo input.previousOutput
            ((set.getUtxo input.previousOutput).getD dummyUtxo)).getUtxo input.previousOutput =
            some ((set.getUtxo input.previousOutput).getD dummyUtxo) :=
          AList.lookup_insert _
        rw [hadded, map_cons, if_pos mem_cons_self]
        split
        · rfl
        · rfl
      · have hkept : (set.addUtxo input.previousOutput
            ((set.getUtxo input.previousOutput).getD dummyUtxo)).getUtxo outpoint =
            set.getUtxo outpoint :=
          AList.lookup_insert_ne hsame
        simp only [hkept, map_cons, mem_cons, hsame, false_or]

@[simp] theorem getUtxo_removeOutputs (outpoint : OutPoint) :
    (set.removeOutputs env tx).getUtxo outpoint =
      if outpoint ∈ tx.createdOutpoints env then none else set.getUtxo outpoint := by
  have herase : (set.removeOutputs env tx).utxos =
      set.utxos.eraseAll (tx.createdOutpoints env).reverse := by
    rw [eraseAll, Transaction.createdOutpoints, ← map_reverse, foldl_map]
    exact (foldl_hom UtxoSet.utxos fun _ _ => rfl).symm
  rw [getUtxo, herase, lookup_eraseAll]
  simp only [mem_reverse]
  rfl

variable (env) in
/-- What reverting a transaction does to an outpoint. -/
theorem revertTransaction_run (set : UtxoSet) :
    ∃ set', (revertTransaction env tx).run set = (.ok (), set') ∧
      ∀ outpoint, set'.getUtxo outpoint =
        let kept := if outpoint ∈ tx.createdOutpoints env then none else set.getUtxo outpoint
        if outpoint ∈ tx.spentOutpoints then some (kept.getD dummyUtxo) else kept := by
  obtain ⟨set', hrun, hset'⟩ :=
    forM_revertInput_run tx.getInputs.reverse (set.removeOutputs env tx)
  refine ⟨set', ?_, fun outpoint => ?_⟩
  · rw [revertTransaction, Stateful.run_bind_of_ok (Stateful.run_modify _), hrun]
  · rw [hset', getUtxo_removeOutputs, Transaction.spentOutpoints]
    simp only [map_reverse, mem_reverse]

variable (env) in
/-- The transactions are reverted from the last to the first, so the first one
that touches an outpoint decides. -/
theorem forM_revertTransaction_run (set : UtxoSet) :
    ∃ set', (forM transactions.reverse (revertTransaction env)).run set = (.ok (), set') ∧
      ∀ outpoint, set'.getUtxo outpoint =
        let kept :=
          if outpoint ∈ transactions.flatMap (Transaction.createdOutpoints env) then none
          else set.getUtxo outpoint
        if SpentFirst env outpoint transactions then some (kept.getD dummyUtxo)
        else kept := by
  induction transactions with
  | nil => exact ⟨set, rfl, fun outpoint => rfl⟩
  | cons tx rest ih =>
    obtain ⟨later, hlater, hlaterUtxo⟩ := ih
    obtain ⟨set', hrun, hset'⟩ := revertTransaction_run env tx later
    refine ⟨set', ?_, fun outpoint => ?_⟩
    · rw [reverse_cons, forM_append, Stateful.run_bind_of_ok hlater, forM_cons,
        Stateful.run_bind_of_ok hrun]
      rfl
    · rw [hset', hlaterUtxo]
      simp only [flatMap_cons, mem_append, SpentFirst]
      by_cases hcreated : outpoint ∈ tx.createdOutpoints env
      · simp [hcreated]
      · by_cases hspent : outpoint ∈ tx.spentOutpoints
        · by_cases hfirst : SpentFirst env outpoint rest
          all_goals simp [hcreated, hspent, hfirst]
        · simp [hcreated, hspent]

variable (env) in
/-- Reverting a block right after applying it never fails. What it leaves is the
set from before exactly when every outpoint that the block spends, and does not
create before, held the made-up output, and no other outpoint that it creates
was there. -/
theorem revertBlock_run (height : UInt64) :
    ∃ reverted, (revertBlock env block).run (set.applyBlock env block height) =
        (.ok (), reverted) ∧
      (reverted.utxos.SameEntries set.utxos ↔
        ∀ outpoint,
          (SpentFirst env outpoint block.transactions → set.getUtxo outpoint = some dummyUtxo) ∧
          (outpoint ∈ block.createdOutpoints env →
            ¬ SpentFirst env outpoint block.transactions → set.getUtxo outpoint = none)) := by
  obtain ⟨reverted, hrun, hreverted⟩ := forM_revertTransaction_run env
    block.transactions (set.applyBlock env block height)
  refine ⟨reverted, hrun, ?_⟩
  rw [sameEntries_iff]
  refine forall_congr' fun outpoint => ?_
  change reverted.getUtxo outpoint = set.getUtxo outpoint ↔ _
  rw [hreverted, getUtxo_applyBlock]
  by_cases hcreated : outpoint ∈ block.createdOutpoints env
  · have hcreated' := hcreated
    rw [Block.createdOutpoints] at hcreated'
    by_cases hfirst : SpentFirst env outpoint block.transactions
    · simp [hcreated', hfirst, eq_comm]
    · simp [hcreated, hcreated', hfirst, eq_comm]
  · have hlast : lastAt outpoint (block.createdEntries env height) = none := by
      rw [lastAt_eq_none, Block.createdEntries, mem_createdEntries_iff]
      exact hcreated
    have hspent := spentFirst_iff_of_not_created hcreated
    have hcreated' := hcreated
    rw [Block.createdOutpoints] at hcreated'
    by_cases hfirst : SpentFirst env outpoint block.transactions
    · have hmem : outpoint ∈ block.spentOutpoints := hspent.mp hfirst
      simp [hcreated', hcreated, hfirst, hlast, hmem, eq_comm]
    · have hmem : outpoint ∉ block.spentOutpoints := fun h => hfirst (hspent.mpr h)
      simp [hcreated', hcreated, hfirst, hlast, hmem]

theorem revertBlock_restores_iff (height : UInt64) :
    (∃ restored, (revertBlock env block).run (set.applyBlock env block height) =
        (.ok (), restored) ∧ restored.utxos.SameEntries set.utxos) ↔
      ∀ outpoint,
        (SpentFirst env outpoint block.transactions → set.getUtxo outpoint = some dummyUtxo) ∧
        (outpoint ∈ block.createdOutpoints env →
          ¬ SpentFirst env outpoint block.transactions → set.getUtxo outpoint = none) := by
  obtain ⟨reverted, hrun, hiff⟩ := revertBlock_run env set block height
  rw [← hiff, hrun]
  constructor
  · rintro ⟨restored, heq, hsame⟩
    cases heq
    exact hsame
  · intro hsame
    exact ⟨reverted, rfl, hsame⟩

theorem revertBlock_forgets_output :
    (∀ outpoint ∈ Blockchain.spendOnce.spentOutpoints, (oneOutput.getUtxo outpoint).isSome) ∧
      ¬ ∃ restored, (revertBlock Platform.blank Blockchain.spendOnce).run
          (oneOutput.applyBlock Platform.blank Blockchain.spendOnce 1) = (.ok (), restored) ∧
        restored.utxos.SameEntries oneOutput.utxos := by
  refine ⟨by decide, ?_⟩
  rintro ⟨restored, hrun, hsame⟩
  cases hrun
  have hlookup := sameEntries_iff.mp hsame ⟨.replicate 32 1, 0⟩
  revert hlookup
  decide

end UtxoSet

end RustyCoin
