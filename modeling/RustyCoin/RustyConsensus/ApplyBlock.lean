import RustyCoin.Consensus.UtxoReplay
import RustyCoin.RustyConsensus.ValidateBlock
import RustyCoin.RustyConsensus.ValidateTransaction

/-!
# Applying a block to the unspent outputs

`apply_block_to_utxo_set` of rusty-consensus goes through a block transaction by
transaction and leaves the inputs of coinbases alone. `update_from_block` of
rusty-core first removes all inputs and then adds all outputs. They differ where an
output is spent in the block that creates it, and where a coinbase names an unspent
output. Both put the outputs of `OP_RETURN` scripts into the set.
-/

namespace RustyCoin.RustyConsensus

open HashMap Transaction WriteBatch List

variable (env : Platform) (bincode : Bincode)

variable (height : UInt64)

/-- What a transaction adds to the batch. -/
def applyTransaction (batch : WriteBatch Bytes Bytes) (tx : Transaction) : WriteBatch Bytes Bytes :=
  let spent :=
    if tx.isCoinbase then batch
    else tx.getInputs.foldl
      (fun batch input => UtxoSet.deleteUtxoInBatch bincode batch input.previousOutput) batch
  tx.getOutputs.zipIdx.foldl
    (fun batch (output, vout) =>
      UtxoSet.putUtxoInBatch bincode batch ⟨tx.txid env, UInt32.ofNat vout⟩ output height
        tx.isCoinbase)
    spent

/-- The list of masternodes and the maturity of coinbases are not looked at. -/
def applyBlockToUtxoSet (block : Block) (utxoSet : UtxoSet) : UtxoSet :=
  utxoSet.applyBatch
    (block.transactions.foldl (applyTransaction env bincode height) UtxoSet.createBatch)

/-- An unspent output as the database stores it. -/
def entryOf (utxo : Utxo) : TxOutput × UInt64 × Bool :=
  (utxo.output, utxo.creationHeight, utxo.isCoinbase)

/-- The outpoints that a transaction consumes. The inputs of a coinbase consume nothing. -/
def consumed (tx : Transaction) : List OutPoint :=
  if tx.isCoinbase then [] else tx.spentOutpoints

/-- What a transaction does to the unspent outputs. -/
def effects (height : UInt64) (tx : Transaction) : WriteBatch OutPoint Utxo :=
  .deletes (consumed tx) ++ .puts (tx.createdEntries env height)

def blockEffects (height : UInt64) (transactions : List Transaction) : WriteBatch OutPoint Utxo :=
  transactions.flatMap (effects env height)

/-- One of these transactions consumes the outpoint, and neither it nor any after it creates it. -/
def ConsumedLast (outpoint : OutPoint) : List Transaction → Prop
  | [] => False
  | tx :: rest =>
    ConsumedLast outpoint rest ∨
      outpoint ∈ consumed tx ∧ outpoint ∉ (tx :: rest).flatMap (createdOutpoints env)

instance decidableConsumedLast (outpoint : OutPoint) :
    (transactions : List Transaction) → Decidable (ConsumedLast env outpoint transactions)
  | [] => instDecidableFalse
  | tx :: rest =>
    have := decidableConsumedLast outpoint rest
    inferInstanceAs (Decidable (ConsumedLast env outpoint rest ∨
      outpoint ∈ consumed tx ∧ outpoint ∉ (tx :: rest).flatMap (createdOutpoints env)))

variable {env bincode}

theorem foldl_append_singleton {α β : Type} (f : α → β) (front : List β) (l : List α) :
    l.foldl (fun acc a => acc ++ [f a]) front = front ++ l.map f := by
  rw [foldl_append_eq_append, ← flatMap_def, ← map_eq_flatMap]

theorem applyTransaction_eq (height : UInt64) (batch : WriteBatch Bytes Bytes) (tx : Transaction) :
    applyTransaction env bincode height batch tx =
      batch ++ (effects env height tx).encoded bincode.outPoint.serialize
        fun utxo => bincode.utxo.serialize (entryOf utxo) := by
  have hspent : (if tx.isCoinbase then batch
      else tx.getInputs.foldl
        (fun batch input => UtxoSet.deleteUtxoInBatch bincode batch input.previousOutput) batch) =
      batch ++ (consumed tx).map fun outpoint => .delete (bincode.outPoint.serialize outpoint) := by
    rw [consumed]
    split
    · exact (append_nil batch).symm
    · refine (foldl_append_singleton _ _ _).trans ?_
      rw [spentOutpoints, map_map]
      rfl
  rw [applyTransaction, hspent]
  refine (foldl_append_singleton _ _ _).trans ?_
  rw [append_assoc, encoded, effects, map_append, deletes,
    puts, createdEntries, map_map, map_map, map_map]
  rfl

theorem applyBlockToUtxoSet_eq (height : UInt64) (block : Block) (utxoSet : UtxoSet) :
    applyBlockToUtxoSet env bincode height block utxoSet =
      utxoSet.applyBatch ((blockEffects env height block.transactions).encoded
        bincode.outPoint.serialize fun utxo => bincode.utxo.serialize (entryOf utxo)) := by
  have hstep : applyTransaction env bincode height = fun batch tx =>
      batch ++ (effects env height tx).encoded bincode.outPoint.serialize
        fun utxo => bincode.utxo.serialize (entryOf utxo) :=
    funext fun batch => funext fun tx => applyTransaction_eq height batch tx
  rw [applyBlockToUtxoSet, hstep, foldl_append_eq_append, UtxoSet.createBatch,
    nil_append, ← flatMap_def, blockEffects, encoded, map_flatMap]
  rfl

variable (env) in
/-- The last transaction that consumes or creates an outpoint decides. -/
theorem lastEffect_effects (height : UInt64) (transactions : List Transaction)
    (outpoint : OutPoint) :
    (ConsumedLast env outpoint transactions →
      lastEffect outpoint (blockEffects env height transactions) = some none) ∧
      (¬ ConsumedLast env outpoint transactions →
        lastEffect outpoint (blockEffects env height transactions) =
          (lastAt outpoint (transactions.flatMap (createdEntries env height))).map
            some) := by
  induction transactions with
  | nil => exact ⟨False.elim, fun _ => rfl⟩
  | cons tx rest ih =>
    have hcreated := lastAt_eq_none outpoint (tx.createdEntries env height)
    rw [map_fst_createdEntries] at hcreated
    have hlater := lastAt_eq_none outpoint (rest.flatMap (createdEntries env height))
    rw [mem_createdEntries_iff] at hlater
    have hstep : lastEffect outpoint (blockEffects env height (tx :: rest)) =
        (lastEffect outpoint (blockEffects env height rest)).or
          (((lastAt outpoint (tx.createdEntries env height)).map some).or
            (if outpoint ∈ consumed tx then some none else none)) := by
      rw [blockEffects, flatMap_cons, lastEffect_append, effects,
        lastEffect_append, lastEffect_puts, lastEffect_deletes]
      rfl
    rw [hstep, flatMap_cons, lastAt_append, ConsumedLast, flatMap_cons, mem_append, not_or]
    by_cases hrest : ConsumedLast env outpoint rest
    · rw [ih.1 hrest]
      simp [hrest]
    · rw [ih.2 hrest]
      by_cases hafter : outpoint ∈ rest.flatMap (createdOutpoints env)
      · obtain ⟨utxo, hutxo⟩ := Option.ne_none_iff_exists'.mp fun h => hlater.mp h hafter
        simp [hrest, hafter, hutxo]
      · rw [hlater.mpr hafter]
        by_cases hhere : outpoint ∈ tx.createdOutpoints env
        · obtain ⟨utxo, hutxo⟩ := Option.ne_none_iff_exists'.mp fun h => hcreated.mp h hhere
          simp [hrest, hhere, hutxo]
        · rw [hcreated.mpr hhere]
          by_cases hconsumed : outpoint ∈ consumed tx
          · simp [hrest, hafter, hhere, hconsumed]
          · simp [hrest, hconsumed]

variable (env bincode)

/-- What the block does to an outpoint of the database. -/
theorem getUtxo_applyBlockToUtxoSet (height : UInt64) (block : Block) (utxoSet : UtxoSet)
    (outpoint : OutPoint) :
    (applyBlockToUtxoSet env bincode height block utxoSet).getUtxo bincode outpoint =
      (lastEffect outpoint (blockEffects env height block.transactions)).elim
        (utxoSet.getUtxo bincode outpoint) fun left => .ok (left.map entryOf) := by
  rw [applyBlockToUtxoSet_eq]
  exact UtxoSet.getUtxo_applyBatch utxoSet entryOf _ outpoint

/-- A database and a set in memory hold the same outputs. -/
def SameOutputs (utxoSet : UtxoSet) (set : RustyCoin.UtxoSet) : Prop :=
  ∀ outpoint, utxoSet.getUtxo bincode outpoint = .ok ((set.getUtxo outpoint).map entryOf)

/-- No unspent output of the set has an `OP_RETURN` script. -/
def NoOpReturn (set : RustyCoin.UtxoSet) : Prop :=
  ∀ outpoint utxo, set.getUtxo outpoint = some utxo →
    isOpReturnOutput utxo.output.scriptPubkey = false

/-- No output in the database has an `OP_RETURN` script. -/
def NoStoredOpReturn (utxoSet : UtxoSet) : Prop :=
  ∀ outpoint output height isCoinbase,
    utxoSet.getUtxo bincode outpoint = .ok (some (output, height, isCoinbase)) →
      isOpReturnOutput output.scriptPubkey = false

/-- What makes the two crates agree on a block and keeps `OP_RETURN` outputs out. -/
structure Harmless (height : UInt64) (block : Block) (set : RustyCoin.UtxoSet) : Prop where
  /-- No output is spent for good in the block that creates it. -/
  unchained : ∀ outpoint ∈ block.createdOutpoints env,
    ¬ ConsumedLast env outpoint block.transactions
  /-- An outpoint that only coinbases name is not in the set. -/
  coinbases : ∀ outpoint ∈ block.spentOutpoints,
    outpoint ∉ block.createdOutpoints env →
      outpoint ∉ block.transactions.flatMap consumed → set.getUtxo outpoint = none
  created : ∀ outpoint utxo, lastAt outpoint (block.createdEntries env height) = some utxo →
    isOpReturnOutput utxo.output.scriptPubkey = false
  kept : ∀ outpoint utxo, set.getUtxo outpoint = some utxo →
    outpoint ∉ block.createdOutpoints env →
      outpoint ∉ block.transactions.flatMap consumed →
        isOpReturnOutput utxo.output.scriptPubkey = false

variable {env bincode height} {block : Block} {utxoSet : UtxoSet} {set : RustyCoin.UtxoSet}

theorem entryOf_injective : Function.Injective entryOf := by
  rintro ⟨output, isCoinbase, height⟩ ⟨output', isCoinbase', height'⟩ h
  cases h
  rfl

variable {outpoint : OutPoint}

variable {transactions : List Transaction}

theorem ConsumedLast.mem_consumed
    (h : ConsumedLast env outpoint transactions) :
    outpoint ∈ transactions.flatMap consumed := by
  induction transactions with
  | nil => exact h.elim
  | cons tx rest ih =>
    rw [flatMap_cons, mem_append]
    rcases h with hlater | ⟨hhere, -⟩
    · exact Or.inr (ih hlater)
    · exact Or.inl hhere

theorem consumedLast_of_mem
    (hmem : outpoint ∈ transactions.flatMap consumed)
    (hcreated : outpoint ∉ transactions.flatMap (createdOutpoints env)) :
    ConsumedLast env outpoint transactions := by
  induction transactions with
  | nil => cases hmem
  | cons tx rest ih =>
    rw [flatMap_cons, mem_append] at hmem
    rcases hmem with hhere | hlater
    · exact Or.inr ⟨hhere, hcreated⟩
    · refine Or.inl (ih hlater fun h => hcreated ?_)
      rw [flatMap_cons]
      exact mem_append_right _ h

/-- What a transaction consumes it spends. -/
theorem mem_spentOutpoints_of_consumed
    (h : outpoint ∈ block.transactions.flatMap consumed) : outpoint ∈ block.spentOutpoints := by
  obtain ⟨tx, htx, hmem⟩ := mem_flatMap.mp h
  refine mem_flatMap.mpr ⟨tx, htx, ?_⟩
  rw [consumed] at hmem
  split at hmem
  · cases hmem
  · exact hmem

theorem lastAt_createdEntries_eq_none :
    lastAt outpoint (block.createdEntries env height) = none ↔
      outpoint ∉ block.createdOutpoints env := by
  rw [lastAt_eq_none, Block.createdEntries, mem_createdEntries_iff]
  rfl

/-- What both crates leave under an outpoint, compared. -/
theorem left_eq_iff (set : RustyCoin.UtxoSet) (outpoint : OutPoint) :
    (lastEffect outpoint (blockEffects env height block.transactions)).getD
        (set.getUtxo outpoint) =
      (set.updateFromBlock env block height).getUtxo outpoint ↔
      (outpoint ∈ block.createdOutpoints env →
        ¬ ConsumedLast env outpoint block.transactions) ∧
        (outpoint ∈ block.spentOutpoints → outpoint ∉ block.createdOutpoints env →
          outpoint ∉ block.transactions.flatMap consumed → set.getUtxo outpoint = none) := by
  have hcore := RustyCoin.UtxoSet.getUtxo_applyBlock env set block height outpoint
  have hnone : lastAt outpoint (block.createdEntries env height) = none ↔
      outpoint ∉ block.createdOutpoints env := lastAt_createdEntries_eq_none
  have hbatch := lastEffect_effects env height block.transactions outpoint
  change _ = (set.applyBlock env block height).getUtxo outpoint ↔ _
  rw [hcore]
  by_cases hlast : ConsumedLast env outpoint block.transactions
  · have hconsumed := hlast.mem_consumed
    rw [hbatch.1 hlast, if_pos (mem_spentOutpoints_of_consumed hconsumed), Option.or_none,
      Option.getD_some, eq_comm, hnone]
    simp [hlast, hconsumed]
  · rw [hbatch.2 hlast]
    by_cases hcreated : outpoint ∈ block.createdOutpoints env
    · obtain ⟨utxo, hutxo⟩ := Option.ne_none_iff_exists'.mp fun h => hnone.mp h hcreated
      have hentry : lastAt outpoint (block.transactions.flatMap
          (createdEntries env height)) = some utxo := hutxo
      simp [hentry, hutxo, hlast, hcreated]
    · have hentry : lastAt outpoint (block.transactions.flatMap
          (createdEntries env height)) = none := hnone.mpr hcreated
      have hconsumed : outpoint ∉ block.transactions.flatMap consumed :=
        fun h => hlast (consumedLast_of_mem h hcreated)
      rw [hentry, hnone.mpr hcreated]
      by_cases hspent : outpoint ∈ block.spentOutpoints
      · simp [hspent, hcreated, hconsumed]
      · simp [hspent, hcreated]

theorem sameOutputs_apply_iff (height : UInt64) (hsame : SameOutputs bincode utxoSet set) :
    SameOutputs bincode (applyBlockToUtxoSet env bincode height block utxoSet)
        (set.updateFromBlock env block height) ↔
      (∀ outpoint ∈ block.createdOutpoints env,
        ¬ ConsumedLast env outpoint block.transactions) ∧
        ∀ outpoint ∈ block.spentOutpoints, outpoint ∉ block.createdOutpoints env →
          outpoint ∉ block.transactions.flatMap consumed → set.getUtxo outpoint = none := by
  rw [← forall_and]
  refine forall_congr' fun outpoint => ?_
  rw [← left_eq_iff, getUtxo_applyBlockToUtxoSet, hsame outpoint]
  have hleft : (lastEffect outpoint
      (blockEffects env height block.transactions)).elim
        (.ok ((set.getUtxo outpoint).map entryOf)) (fun left => .ok (left.map entryOf)) =
      (.ok (((lastEffect outpoint
        (blockEffects env height block.transactions)).getD (set.getUtxo outpoint)).map
          entryOf) : ConsensusResult _) := by
    cases lastEffect outpoint (blockEffects env height block.transactions) with
    | none => rfl
    | some left => rfl
  rw [hleft, Except.ok.injEq, (Option.map_injective entryOf_injective).eq_iff]

/-- A set and a database with the same outputs are alike free of `OP_RETURN` scripts. -/
theorem SameOutputs.noStoredOpReturn_iff (hsame : SameOutputs bincode utxoSet set) :
    NoStoredOpReturn bincode utxoSet ↔ NoOpReturn set := by
  constructor
  · intro h outpoint utxo hutxo
    refine h outpoint utxo.output utxo.creationHeight utxo.isCoinbase ?_
    rw [hsame, hutxo]
    rfl
  · intro h outpoint output height isCoinbase hfound
    rw [hsame, Except.ok.injEq, Option.map_eq_some_iff] at hfound
    obtain ⟨utxo, hutxo, hentry⟩ := hfound
    cases hentry
    exact h outpoint utxo hutxo

/-- For a database and a set in memory with the same outputs, the block leaves the same outputs in
both and no `OP_RETURN` output in either exactly when it is harmless. -/
theorem applyBlockToUtxoSet_agrees_iff (hsame : SameOutputs bincode utxoSet set) :
    (SameOutputs bincode (applyBlockToUtxoSet env bincode height block utxoSet)
        (set.updateFromBlock env block height) ∧
      NoOpReturn (set.updateFromBlock env block height) ∧
        NoStoredOpReturn bincode (applyBlockToUtxoSet env bincode height block utxoSet)) ↔
      Harmless env height block set := by
  have hcore := RustyCoin.UtxoSet.getUtxo_applyBlock env set block height
  constructor
  · rintro ⟨hagree, hfree, -⟩
    obtain ⟨hunchained, hcoinbases⟩ := (sameOutputs_apply_iff height hsame).mp hagree
    refine ⟨hunchained, hcoinbases, fun outpoint utxo hutxo => ?_,
      fun outpoint utxo hutxo hcreated hconsumed => ?_⟩
    · refine hfree outpoint utxo ((hcore outpoint).trans ?_)
      rw [hutxo, Option.some_or]
    · have hspent : outpoint ∉ block.spentOutpoints := by
        intro hspent
        rw [hcoinbases outpoint hspent hcreated hconsumed] at hutxo
        cases hutxo
      refine hfree outpoint utxo ((hcore outpoint).trans ?_)
      rw [lastAt_createdEntries_eq_none.mpr hcreated, Option.none_or, if_neg hspent, hutxo]
  · rintro ⟨hunchained, hcoinbases, hcreated, hkept⟩
    have hagree := (sameOutputs_apply_iff height hsame).mpr ⟨hunchained, hcoinbases⟩
    have hfree : NoOpReturn (set.updateFromBlock env block height) := by
      intro outpoint utxo hutxo
      have hleft := (hcore outpoint).symm.trans hutxo
      rw [Option.or_eq_some_iff] at hleft
      rcases hleft with hnew | ⟨hnone, hold⟩
      · exact hcreated outpoint utxo hnew
      · split at hold
        · cases hold
        · rename_i hspent
          exact hkept outpoint utxo hold (lastAt_createdEntries_eq_none.mp hnone)
            fun h => hspent (mem_spentOutpoints_of_consumed h)
    exact ⟨hagree, hfree, hagree.noStoredOpReturn_iff.mpr hfree⟩

/-- The database with the one output of `UtxoSet.oneOutput`. -/
def oneStored : UtxoSet :=
  ⟨AList.insert (Bincode.plain.outPoint.serialize ⟨.replicate 32 1, 0⟩)
    (Bincode.plain.utxo.serialize (openOutput 1000, 0, false)) ∅⟩

theorem getUtxo_oneOutput (outpoint : OutPoint) :
    RustyCoin.UtxoSet.oneOutput.getUtxo outpoint =
      if outpoint = ⟨.replicate 32 1, 0⟩ then some ⟨openOutput 1000, false, 0⟩ else none := by
  split
  · rename_i heq
    subst heq
    exact AList.lookup_insert _
  · rename_i hne
    exact AList.lookup_insert_ne hne

theorem sameOutputs_oneStored : SameOutputs .plain oneStored .oneOutput := by
  intro outpoint
  rw [getUtxo_oneOutput]
  split
  · rename_i heq
    subst heq
    decide +kernel
  · rename_i hne
    have hkey : Bincode.plain.outPoint.serialize outpoint ≠
        Bincode.plain.outPoint.serialize ⟨.replicate 32 1, 0⟩ :=
      fun h => hne (Bincode.plain.outPoint.serialize_inj.mp h)
    rw [UtxoSet.getUtxo, oneStored, AList.lookup_insert_ne hkey]
    rfl

/-- A transaction that spends one output. Its lock time tells it from others. -/
def taggedTx (lockTime : UInt8) (outpoint : OutPoint) (outputs : List TxOutput) : Transaction :=
  .standard 1 [.fromOutpoint outpoint [] 0 []] outputs lockTime.toUInt32 100 []

/-- A coinbase, and a transaction that spends the output. -/
def plainBlock : Block :=
  Blockchain.blockOf [.coinbase 1 [] [openOutput 5000] 7 [],
    taggedTx 2 ⟨.replicate 32 1, 0⟩ [openOutput 900]]

/-- The transaction also has an `OP_RETURN` output, and its first output is spent in the block. -/
def chainedBlock : Block :=
  Blockchain.blockOf [.coinbase 1 [] [openOutput 5000] 7 [],
    taggedTx 2 ⟨.replicate 32 1, 0⟩ [openOutput 900, ⟨0, [0x6a], none⟩],
    taggedTx 3 ⟨.replicate 32 2, 0⟩ [openOutput 800]]

theorem applyBlockToUtxoSet_agrees_on_plainBlock :
    SameOutputs .plain oneStored .oneOutput ∧
      SameOutputs .plain (applyBlockToUtxoSet (taggedPlatform 0) .plain 4 plainBlock oneStored)
        (RustyCoin.UtxoSet.oneOutput.updateFromBlock (taggedPlatform 0) plainBlock 4) := by
  refine ⟨sameOutputs_oneStored, ((applyBlockToUtxoSet_agrees_iff sameOutputs_oneStored).mpr ?_).1⟩
  refine ⟨by decide +kernel, by decide +kernel, fun outpoint utxo hutxo => ?_,
    fun outpoint utxo hutxo _ hconsumed => ?_⟩
  · have hall : ∀ e ∈ plainBlock.createdEntries (taggedPlatform 0) 4,
        isOpReturnOutput e.2.output.scriptPubkey = false := by
      decide +kernel
    exact hall _ (mem_of_lastAt hutxo)
  · rw [getUtxo_oneOutput] at hutxo
    split at hutxo
    · rename_i heq
      subst heq
      exact absurd (by decide +kernel) hconsumed
    · cases hutxo

/-- The two crates disagree on the output that is spent in its block, and both keep the `OP_RETURN`
output. -/
theorem applyBlockToUtxoSet_differs :
    let stored := applyBlockToUtxoSet (taggedPlatform 0) .plain 4 chainedBlock oneStored
    let set := RustyCoin.UtxoSet.oneOutput.updateFromBlock (taggedPlatform 0) chainedBlock 4
    SameOutputs .plain oneStored .oneOutput ∧
      RustyCoin.UtxoSet.SpendsInTurn (taggedPlatform 0) 4 .oneOutput chainedBlock.transactions ∧
        ¬ SameOutputs .plain stored set ∧ ¬ NoOpReturn set ∧ ¬ NoStoredOpReturn .plain stored := by
  intro stored set
  refine ⟨sameOutputs_oneStored, ⟨by decide +kernel, by decide +kernel, by decide +kernel, trivial⟩,
    fun hsame => ?_, fun hfree => ?_, fun hfree => ?_⟩
  · have hspent : stored.getUtxo .plain ⟨.replicate 32 2, 0⟩ = .ok none := by decide +kernel
    have hkept : set.getUtxo ⟨.replicate 32 2, 0⟩ = some ⟨openOutput 900, false, 4⟩ := by
      decide +kernel
    have hboth := hsame ⟨.replicate 32 2, 0⟩
    rw [hspent, hkept] at hboth
    cases hboth
  · have hkept : set.getUtxo ⟨.replicate 32 2, 1⟩ = some ⟨⟨0, [0x6a], none⟩, false, 4⟩ := by
      decide +kernel
    exact absurd (hfree _ _ hkept) (by decide)
  · have hkept : stored.getUtxo .plain ⟨.replicate 32 2, 1⟩ =
        .ok (some (⟨0, [0x6a], none⟩, 4, false)) := by
      decide +kernel
    exact absurd (hfree _ _ _ _ hkept) (by decide)

end RustyCoin.RustyConsensus
