import Mathlib.Algebra.Order.BigOperators.Group.Finset
import RustyCoin.Consensus.Spending

/-!
# The subsidy schedule and the supply

The subsidy is halved every `halving_interval` blocks, rounding down. What is
still to be paid out at a height is at most the rest of the running interval and
one more full interval at the current rate: this potential pays for every block
to come, so the whole schedule pays out at most two intervals at the initial
rate.

The exact total of the unspent outputs, and how an accepted block changes it. An
accepted block is not held to the subsidy: nothing compares the outputs of its
coinbase with it, an output may be counted for several inputs, and sums wrap
around. `processBlock_no_inflation` shows that these three are all that is
missing.
-/

namespace RustyCoin

namespace BlockchainState

open Nat UInt64

/-- A reward that is halved every `interval` heights. -/
def halved (reward interval height : Nat) : Nat :=
  reward / 2 ^ (height / interval)

/-- What is set aside at a height for the blocks from there on. -/
def potential (reward interval height : Nat) : Nat :=
  (2 * interval - height % interval) * halved reward interval height

theorem halved_anti (reward interval : Nat) {low high : Nat} (h : low ≤ high) :
    halved reward interval high ≤ halved reward interval low :=
  div_le_div_left (Nat.pow_le_pow_right Nat.zero_lt_two (Nat.div_le_div_right h))
    (Nat.two_pow_pos _)

variable (reward : Nat) {interval : Nat}

/-- The potential pays for a block: within an interval it is one rate less, and at
the end of one the rate is halved. -/
theorem halved_add_potential_le (hpos : 0 < interval)
    (height : Nat) :
    halved reward interval height + potential reward interval (height + 1) ≤
      potential reward interval height := by
  have hlt : height % interval < interval := mod_lt height hpos
  by_cases hend : height % interval + 1 = interval
  · have hmod : (height + 1) % interval = 0 := by
      rw [add_mod, ← mod_add_mod, mod_mod, add_mod_mod, hend, mod_self]
    have hdiv : (height + 1) / interval = height / interval + 1 := succ_div_of_mod_eq_zero hmod
    have hhalf : 2 * halved reward interval (height + 1) ≤ halved reward interval height := by
      rw [halved, halved, hdiv, Nat.pow_succ, ← Nat.div_div_eq_div_mul]
      exact mul_div_le _ 2
    have hrest : 2 * interval - height % interval = interval + 1 := by omega
    rw [potential, potential, hmod, hrest, Nat.sub_zero]
    calc halved reward interval height + 2 * interval * halved reward interval (height + 1)
        = halved reward interval height + interval * (2 * halved reward interval (height + 1)) := by
          rw [Nat.mul_comm 2 interval, Nat.mul_assoc]
      _ ≤ halved reward interval height + interval * halved reward interval height :=
          Nat.add_le_add_left (Nat.mul_le_mul_left interval hhalf) _
      _ = (interval + 1) * halved reward interval height := by
          rw [Nat.add_one_mul, Nat.add_comm]
  · have hmod : (height + 1) % interval = height % interval + 1 := by
      rw [← mod_add_mod, mod_eq_of_lt (by omega)]
    have hdiv : (height + 1) / interval = height / interval := by
      rw [succ_div_of_mod_ne_zero (by omega)]
    have hrest : 2 * interval - height % interval =
        (2 * interval - (height % interval + 1)) + 1 := by omega
    have hrate : halved reward interval (height + 1) = halved reward interval height := by
      rw [halved, halved, hdiv]
    rw [potential, potential, hmod, hrest, hrate, Nat.add_comm]
    exact Nat.le_of_eq (succ_mul _ _).symm

/-- Over any number of blocks no more than two intervals are paid out. -/
theorem sum_halved_le (hpos : 0 < interval) (n : Nat) :
    ∑ height ∈ Finset.range n, halved reward interval height ≤ 2 * interval * reward := by
  have hinvariant : ∑ height ∈ Finset.range n, halved reward interval height +
      potential reward interval n ≤ 2 * interval * reward := by
    induction n with
    | zero => simp [potential, halved]
    | succ n ih =>
      have hstep := halved_add_potential_le reward hpos n
      rw [Finset.sum_range_succ]
      omega
  omega

/-- The subsidy in closed form: after 64 halvings the quotient is zero, as no
reward reaches `2 ^ 64`. -/
theorem getBlockSubsidy_eq {height interval reward subsidy : UInt64}
    (h : getBlockSubsidy height interval reward = .ok subsidy) :
    subsidy.toNat = halved reward.toNat interval.toNat height.toNat := by
  unfold getBlockSubsidy at h
  split at h
  · cases h
  · dsimp only at h
    split at h
    · rename_i hmany
      cases h
      rw [ge_iff_le, le_iff_toNat_le, UInt64.toNat_div] at hmany
      have hpow : 2 ^ 64 ≤ 2 ^ (height.toNat / interval.toNat) :=
        Nat.pow_le_pow_right (by decide) hmany
      rw [halved, div_eq_of_lt (Nat.lt_of_lt_of_le reward.toNat_lt hpow)]
      rfl
    · rename_i hfew
      cases h
      rw [ge_iff_le, le_iff_toNat_le, UInt64.toNat_div, Nat.not_le] at hfew
      have hfew : height.toNat / interval.toNat < 64 := hfew
      rw [UInt64.toNat_shiftRight, UInt64.toNat_div, mod_eq_of_lt hfew,
        shiftRight_eq_div_pow, halved]

theorem getBlockSubsidy_ok {interval : UInt64} (hpos : interval > 0) (height reward : UInt64) :
    ∃ subsidy, getBlockSubsidy height interval reward = .ok subsidy := by
  have hne : interval ≠ 0 := by
    rintro rfl
    exact absurd hpos (by decide)
  rw [getBlockSubsidy, if_neg hne]
  dsimp only
  split
  · exact ⟨0, rfl⟩
  · exact ⟨_, rfl⟩

/-- With a positive interval every height has a subsidy; all of them together are
at most two intervals at the initial rate, they never increase, and from the
64th interval on they are zero. -/
theorem getBlockSubsidy_schedule {interval : UInt64} (hpos : interval > 0) (reward : UInt64) :
    ∃ subsidy : UInt64 → UInt64,
      (∀ height, getBlockSubsidy height interval reward = .ok (subsidy height)) ∧
      (∀ n ≤ 2 ^ 64, ∑ height ∈ Finset.range n, (subsidy (UInt64.ofNat height)).toNat ≤
        2 * interval.toNat * reward.toNat) ∧
      (∀ low high, low ≤ high → subsidy high ≤ subsidy low) ∧
      ∀ height, 64 * interval.toNat ≤ height.toNat → subsidy height = 0 := by
  choose subsidy hsubsidy using fun height => getBlockSubsidy_ok hpos height reward
  have heq := fun height => getBlockSubsidy_eq (hsubsidy height)
  have hinterval : 0 < interval.toNat := lt_iff_toNat_lt.mp hpos
  refine ⟨subsidy, hsubsidy, fun n hn => ?_, fun low high hle => ?_, fun height hheight => ?_⟩
  · have hterm : ∀ height ∈ Finset.range n, (subsidy (UInt64.ofNat height)).toNat =
        halved reward.toNat interval.toNat height := by
      intro height hmem
      have hlt : height < 2 ^ 64 := Nat.lt_of_lt_of_le (Finset.mem_range.mp hmem) hn
      rw [heq, toNat_ofNat', mod_eq_of_lt hlt]
    rw [Finset.sum_congr rfl hterm]
    exact sum_halved_le reward.toNat hinterval n
  · rw [le_iff_toNat_le] at hle ⊢
    rw [heq, heq]
    exact halved_anti reward.toNat interval.toNat hle
  · have hhalvings : 64 ≤ height.toNat / interval.toNat :=
      (Nat.le_div_iff_mul_le hinterval).mpr hheight
    have hpow : 2 ^ 64 ≤ 2 ^ (height.toNat / interval.toNat) :=
      Nat.pow_le_pow_right (by decide) hhalvings
    apply UInt64.toNat_inj.mp
    rw [heq, halved, div_eq_of_lt (Nat.lt_of_lt_of_le reward.toNat_lt hpow)]
    rfl

/-- The schedule of the default parameters. -/
theorem getBlockSubsidy_schedule_default :
    (210000 : UInt64) > 0 ∧ ∃ subsidy : UInt64 → UInt64,
      (∀ height, getBlockSubsidy height 210000 50000000000 = .ok (subsidy height)) ∧
      (∀ n ≤ 2 ^ 64, ∑ height ∈ Finset.range n, (subsidy (UInt64.ofNat height)).toNat ≤
        2 * (210000 : UInt64).toNat * (50000000000 : UInt64).toNat) ∧
      (∀ low high, low ≤ high → subsidy high ≤ subsidy low) ∧
      ∀ height, 64 * (210000 : UInt64).toNat ≤ height.toNat → subsidy height = 0 :=
  ⟨by decide, getBlockSubsidy_schedule (by decide) 50000000000⟩

end BlockchainState

open WrappingSum BlockchainState List

def Utxo.amount (utxo : Utxo) : Nat := utxo.output.value.toNat

namespace UtxoSet

/-- The exact total of the unspent outputs. -/
def totalValue (self : UtxoSet) : Nat := self.utxos.total Utxo.amount

def valueAt (self : UtxoSet) (outpoint : OutPoint) : Nat :=
  self.utxos.measureAt Utxo.amount outpoint

/-- What the block's inputs take out of the set: every outpoint counts once. -/
def takenValue (self : UtxoSet) (block : Block) : Nat :=
  ∑ outpoint ∈ block.spentOutpoints.toFinset, self.valueAt outpoint

/-- What the block's outputs replace in the set that its inputs leave. -/
def replacedValue (env : Platform) (self : UtxoSet) (block : Block) : Nat :=
  HashMap.overwritten Utxo.amount (self.utxos.eraseAll block.spentOutpoints)
    (block.createdEntries env block.header.height)

end UtxoSet

/-- The exact sum of the outputs of a list of transactions. -/
def outputTotal (transactions : List Transaction) : Nat :=
  (transactions.map fun tx => exact tx.outputValues).sum

/-- The exact sum of the fees that a list of transactions states. -/
def feeTotal (transactions : List Transaction) : Nat :=
  (transactions.map fun tx => tx.getFee.toNat).sum

def Block.coinbases (block : Block) : List Transaction :=
  block.transactions.filter Transaction.isCoinbase

theorem outputTotal_eq_add (block : Block) :
    outputTotal block.transactions = outputTotal block.coinbases + outputTotal block.payments := by
  have hperm := filter_append_perm Transaction.isCoinbase block.transactions
  rw [outputTotal, ← (hperm.map _).sum_eq, map_append, sum_append]
  rfl

namespace UtxoSet

variable (self : UtxoSet)

/-- The sum over a transaction's inputs, in terms of the outpoints. -/
theorem exact_inputValues (inputs : List TxInput) :
    exact (self.inputValues inputs) =
      ((inputs.map TxInput.previousOutput).map self.valueAt).sum := by
  induction inputs with
  | nil => rfl
  | cons input inputs ih =>
    rw [map_cons, map_cons, sum_cons, ← ih]
    cases hutxo : self.getUtxo input.previousOutput with
    | none =>
      have hzero : self.valueAt input.previousOutput = 0 := by
        rw [valueAt, HashMap.measureAt, ← getUtxo, hutxo]
        rfl
      rw [hzero, Nat.zero_add, inputValues, filterMap_cons, hutxo]
      rfl
    | some utxo =>
      have hvalue : self.valueAt input.previousOutput = utxo.amount := by
        rw [valueAt, HashMap.measureAt, ← getUtxo, hutxo]
        rfl
      rw [hvalue, inputValues, filterMap_cons, hutxo]
      rfl

/-- Transactions that are covered one by one are covered together. -/
theorem outputTotal_add_feeTotal_le {transactions : List Transaction}
    (hcovered : ∀ tx ∈ transactions,
      exact tx.outputValues + tx.getFee.toNat ≤ exact (self.inputValues tx.getInputs)) :
    outputTotal transactions + feeTotal transactions ≤
      ((transactions.flatMap Transaction.spentOutpoints).map self.valueAt).sum := by
  induction transactions with
  | nil => exact Nat.le_refl 0
  | cons tx rest ih =>
    rw [forall_mem_cons] at hcovered
    have hhead := hcovered.1
    have hrest := ih hcovered.2
    rw [exact_inputValues] at hhead
    rw [flatMap_cons, map_append, sum_append, Transaction.spentOutpoints]
    simp only [outputTotal, feeTotal, map_cons, sum_cons] at hrest ⊢
    omega

theorem sum_valueAt_le_takenValue {block : Block}
    (honce : block.consumedOutpoints.Nodup) :
    (block.consumedOutpoints.map self.valueAt).sum ≤ self.takenValue block := by
  rw [← sum_toFinset _ honce]
  refine Finset.sum_le_sum_of_subset fun outpoint hmem => ?_
  rw [mem_toFinset] at hmem ⊢
  obtain ⟨tx, htx, houtpoint⟩ := mem_flatMap.mp hmem
  exact mem_flatMap.mpr ⟨tx, (mem_filter.mp htx).1, houtpoint⟩

variable (env : Platform)

theorem sum_amount_createdEntries (height : UInt64) (tx : Transaction) :
    ((tx.createdEntries env height).map fun e => e.2.amount).sum = exact tx.outputValues := by
  have hvalues : (tx.createdEntries env height).map (fun e => e.2.amount) =
      tx.getOutputs.map fun output => output.value.toNat := by
    rw [Transaction.createdEntries, map_map]
    conv_rhs => rw [← zipIdx_map_fst 0 tx.getOutputs, map_map]
    rfl
  rw [hvalues, exact, Transaction.outputValues, map_map]
  rfl

theorem sum_amount_block (height : UInt64) (block : Block) :
    ((block.createdEntries env height).map fun e => e.2.amount).sum =
      outputTotal block.transactions := by
  rw [Block.createdEntries, outputTotal]
  induction block.transactions with
  | nil => rfl
  | cons tx rest ih =>
    rw [flatMap_cons, map_append, sum_append, ih, sum_amount_createdEntries, map_cons, sum_cons]

/-- The balance of a block. -/
theorem totalValue_applyBlock (self : UtxoSet) (block : Block) :
    (self.applyBlock env block block.header.height).totalValue +
        self.replacedValue env block + self.takenValue block =
      self.totalValue + outputTotal block.transactions := by
  have htaken := HashMap.total_eraseAll Utxo.amount self.utxos block.spentOutpoints
  have hcreated := HashMap.total_insertAll Utxo.amount (self.utxos.eraseAll block.spentOutpoints)
    (block.createdEntries env block.header.height)
  rw [sum_amount_block] at hcreated
  simp only [totalValue, applyBlock_utxos, replacedValue, takenValue, valueAt]
  omega

end UtxoSet

namespace Blockchain

variable {F : Type} [F64 F] (env : Platform)

/-- `get_block_subsidy` with the parameters of the chain. -/
def blockSubsidy (self : Blockchain F) (height : UInt64) : ConsensusResult UInt64 :=
  getBlockSubsidy height self.params.halvingInterval self.params.initialBlockReward

variable {clock : Nat → UInt64} {block : Block} {chain chain' : Blockchain F} {subsidy : UInt64}

/-- The reward that the schedule grants at a height. -/
def scheduledReward (self : Blockchain F) (height : UInt64) : Nat :=
  self.params.initialBlockReward.toNat / 2 ^ (height.toNat / self.params.halvingInterval.toNat)

theorem processBlock_balance (hok : (processBlock env clock block).run chain = (.ok (), chain')) :
    chain'.utxoSet.totalValue + chain.utxoSet.replacedValue env block +
        chain.utxoSet.takenValue block =
      chain.utxoSet.totalValue + outputTotal block.transactions := by
  rw [(processBlock_spec env hok).2]
  exact chain.utxoSet.totalValue_applyBlock env block

/-- An accepted block keeps within the subsidy exactly when its outputs are worth
no more than the scheduled reward and what the block takes and replaces. -/
theorem processBlock_supply_iff (hok : (processBlock env clock block).run chain = (.ok (), chain'))
    (hsubsidy : chain.blockSubsidy block.header.height = .ok subsidy) :
    chain'.utxoSet.totalValue ≤ chain.utxoSet.totalValue + subsidy.toNat ↔
      outputTotal block.transactions ≤ chain.scheduledReward block.header.height +
        chain.utxoSet.takenValue block + chain.utxoSet.replacedValue env block := by
  have hbalance := processBlock_balance env hok
  rw [getBlockSubsidy_eq hsubsidy, scheduledReward, halved]
  omega

/-- A coinbase that pays out the given values. -/
def coinbaseOf (values : List UInt64) : Transaction :=
  .coinbase 1 [.fromOutpoint ⟨.replicate 32 0, 0⟩ [] 0 []]
    (values.map fun value => ⟨value, [0x51], none⟩) 0 []

theorem processBlock_supply_iff_spendOnce :
    ((processBlock Platform.blank (fun _ => 0) spendOnce).run oneOutputChain).1 = .ok () ∧
      ((processBlock Platform.blank (fun _ => 0) spendOnce).run
          oneOutputChain).2.utxoSet.totalValue ≤
        oneOutputChain.utxoSet.totalValue + 50000000000 := by
  have hok :
      ((processBlock Platform.blank (fun _ => 0) spendOnce).run oneOutputChain).1 = .ok () := by
    decide
  refine ⟨hok, (processBlock_supply_iff Platform.blank (Prod.ext hok rfl)
    (show oneOutputChain.blockSubsidy spendOnce.header.height = .ok 50000000000 by decide)).mpr ?_⟩
  decide

/-- The subsidy at height one is `50000000000`. -/
theorem processBlock_inflates :
    oneOutputChain.blockSubsidy (blockOf [coinbaseOf [50000000001]]).header.height =
        .ok 50000000000 ∧
      ((processBlock Platform.blank (fun _ => 0) (blockOf [coinbaseOf [50000000001]])).run
        oneOutputChain).1 = .ok () ∧
      ¬ ((processBlock Platform.blank (fun _ => 0) (blockOf [coinbaseOf [50000000001]])).run
          oneOutputChain).2.utxoSet.totalValue ≤
        oneOutputChain.utxoSet.totalValue + 50000000000 := by
  decide

/-- The three checks that are missing: no output is consumed twice, the sums of
no payment wrap around apart, and the coinbases pay out no more than the
scheduled reward and the fees. -/
structure Restrained (chain : Blockchain F) (block : Block) : Prop where
  once : block.consumedOutpoints.Nodup
  wraps : ∀ tx ∈ block.payments, chain.utxoSet.WrapsWithin tx
  coinbase : outputTotal block.coinbases ≤
    chain.scheduledReward block.header.height + feeTotal block.payments

theorem processBlock_no_inflation
    (hok : (processBlock env clock block).run chain = (.ok (), chain'))
    (hsubsidy : chain.blockSubsidy block.header.height = .ok subsidy)
    (hblock : chain.Restrained block) :
    chain'.utxoSet.totalValue ≤ chain.utxoSet.totalValue + subsidy.toNat := by
  have hcovered : outputTotal block.payments + feeTotal block.payments ≤
      (block.consumedOutpoints.map chain.utxoSet.valueAt).sum := by
    refine chain.utxoSet.outputTotal_add_feeTotal_le fun tx htx => ?_
    obtain ⟨hmem, hpayment⟩ := mem_filter.mp htx
    obtain ⟨now, hvalid⟩ := (processBlock_spec env hok).1 tx hmem
    have hsums := (validateTransaction_spec (by simpa using hpayment) hvalid).2
    exact (le_iff_of_mod_le hsums).mpr (hblock.wraps tx htx)
  have htaken := chain.utxoSet.sum_valueAt_le_takenValue hblock.once
  have hsplit := outputTotal_eq_add block
  have hbalance := processBlock_balance env hok
  have hcoinbase := hblock.coinbase
  rw [getBlockSubsidy_eq hsubsidy, halved]
  rw [scheduledReward] at hcoinbase
  omega

/-- A run of accepted blocks that pass the missing checks, with the sum of the
subsidies along the way. Each block is judged in the state it is applied to. -/
inductive RestrainedRun : Blockchain F → Nat → Blockchain F → Prop
  | nil (chain : Blockchain F) : RestrainedRun chain 0 chain
  | cons {chain next last : Blockchain F} {clock : Nat → UInt64} {block : Block}
      {subsidy : UInt64} {issued : Nat}
      (hblock : chain.Restrained block)
      (hok : (processBlock env clock block).run chain = (.ok (), next))
      (hsubsidy : chain.blockSubsidy block.header.height = .ok subsidy)
      (hrest : RestrainedRun next issued last) :
      RestrainedRun chain (subsidy.toNat + issued) last

variable {last : Blockchain F} {issued : Nat}

/-- Over such a run the supply grows by no more than the subsidies. -/
theorem RestrainedRun.totalValue_le {env : Platform} {chain : Blockchain F}
    (hrun : RestrainedRun env chain issued last) :
    last.utxoSet.totalValue ≤ chain.utxoSet.totalValue + issued := by
  induction hrun with
  | nil chain => exact Nat.le_refl _
  | cons hblock hok hsubsidy _ ih =>
    have hstep := processBlock_no_inflation env hok hsubsidy hblock
    omega

theorem RestrainedRun.supply_le {env : Platform}
    (hrun : RestrainedRun env new issued last) : last.utxoSet.totalValue ≤ issued := by
  have hzero : (new : Blockchain F).utxoSet.totalValue = 0 := rfl
  have hle := hrun.totalValue_le
  omega

/-- The output of `coinbaseOf` is spent once it is mature, with a fee of one. -/
def payMature : Block :=
  { blockOf [UtxoSet.spend [⟨.replicate 32 0, 0⟩] [6] 1] with
    header := { (blockOf []).header with height := 101 } }

theorem supply_le_payment :
    ((processBlock Platform.blank (fun _ => 0) payMature).run
      ((processBlock Platform.blank (fun _ => 0) (blockOf [coinbaseOf [7]])).run
        (new : Blockchain Rat)).2).2.utxoSet.totalValue ≤ 100000000000 :=
  RestrainedRun.supply_le (.cons
    ⟨by decide, fun _ h => absurd (show _ ∈ [] from h) not_mem_nil, by decide⟩
    (Prod.ext (by decide) rfl) (show new.blockSubsidy _ = .ok 50000000000 by decide)
    (.cons ⟨by decide, by unfold UtxoSet.WrapsWithin; decide, by decide⟩
      (Prod.ext (by decide +kernel) rfl)
      (show blockSubsidy _ _ = .ok 50000000000 by decide) (.nil _)))

end Blockchain

end RustyCoin
