import RustyCoin.Consensus.ApplyChecked
import RustyCoin.Consensus.Failures
import RustyCoin.Consensus.Recording
import RustyCoin.Consensus.Spending

/-!
# Blocks that are turned down for their coinbase

`add_block` looks up the null input of a coinbase like any other input, and
sorts the coinbase together with the other transactions before it takes the
first one for the coinbase. Since a coinbase pays no fee, it ends up last. A
block that conforms to the rules is therefore turned down for its coinbase
unless the null outpoint can be spent and nothing but slashing transactions
comes with it.
-/

namespace RustyCoin.Blockchain

open Outcome List

variable {F : Type} {env : Platform}

/-- The error is about the coinbase. -/
def BlamesCoinbase (env : Platform) (coinbase : Transaction) : ConsensusError → Prop
  | .invalidCoinbase _ => True
  | .transactionValidation message =>
    .transactionValidation message = ConsensusError.inputsInvalid (coinbase.txid env)
  | .invalidScript message =>
    .invalidScript message = ConsensusError.scriptsInvalid (coinbase.txid env)
  | _ => False

/-- The failure is for another reason than the coinbase. -/
def Unrelated (env : Platform) (coinbase : Transaction) : Failure ConsensusError → Prop
  | .err e => ¬ BlamesCoinbase env coinbase e
  | _ => True

variable {currentHeight : UInt64} {chain : Blockchain F} {tx coinbase : Transaction}

theorem unrelated_of_otherError {failure : Failure ConsensusError} (h : OtherError failure) :
    Unrelated env coinbase failure := by
  cases failure with
  | err e =>
    cases e with
    | invalidCoinbase => exact h.elim
    | transactionValidation => exact h.elim
    | invalidScript => exact h.elim
    | _ => exact nofun
  | panic => exact trivial
  | outOfFuel => exact trivial

/-- A loop over transactions with valid inputs stops at a proposal or a vote only. -/
theorem unrelated_loop {transactions : List Transaction}
    (hvalid : ∀ tx ∈ transactions, chain.inspect env currentHeight tx = .ok ()) :
    FailsWith (Unrelated env coinbase)
      ((forM transactions (processTransaction env currentHeight)).run chain).1 := by
  refine (failsWith_loop env currentHeight chain transactions fun tx proposals =>
    (otherError_recordedBy env _ currentHeight tx).mono fun _ => unrelated_of_otherError).mpr ?_
  intro before tx after hsplit _ _
  rw [hvalid tx (by simp [hsplit])]
  exact failsWith_ok ()

theorem unrelated_blockRewards [F64 F] (height : UInt64) (transactions : List Transaction) :
    FailsWith (Unrelated env coinbase) (chain.blockRewards height transactions) := by
  simp [blockRewards, BlockchainState.getBlockSubsidy, Unrelated]

variable {Digest : Type} [DecidableEq Digest] {roots : StateRoots Digest} {block : Block}

theorem unrelated_masternodeLoop (height : UInt64) (transactions : List Transaction) :
    FailsWith (Unrelated env coinbase)
      ((forM transactions (updateMasternodeList height)).run chain).1 := by
  refine Stateful.failsWith_run_forM (fun tx next => ?_) transactions chain
  exact (otherError_updateMasternodeList next height tx).mono fun _ => unrelated_of_otherError

theorem unrelated_validateStateRoot (header : BlockHeader) :
    FailsWith (Unrelated env coinbase) (validateStateRoot roots header chain) := by
  rw [validateStateRoot, failsWith_bind]
  constructor
  · cases BlockchainState.calculateStateRootFromMasternodeList roots.enc roots.hasher roots.order
      chain.ledger with
    | ok root => exact failsWith_ok _
    | error failure =>
      cases failure with
      | err e =>
        cases e with
        | trieError message => exact (failsWith_error _).mpr nofun
        | stateError childHash => exact (failsWith_error _).mpr nofun
      | panic => exact (failsWith_error _).mpr trivial
      | outOfFuel => exact (failsWith_error _).mpr trivial
  · intro root _
    simp [ConsensusError.stateRootMismatch, Unrelated, BlamesCoinbase]

/-- Once the coinbase has its reward, it is not looked at again. -/
theorem unrelated_applyChecked {e : ConsensusError} {chain' : Blockchain F}
    (hrun : (applyChecked env roots block).run chain = (.error (.err e), chain')) :
    ¬ BlamesCoinbase env coinbase e := by
  rcases applyChecked_error hrun with herror | ⟨listed, -, -, hroot⟩
  · have hloop : FailsWith (Unrelated env coinbase)
        ((forM block.transactions (updateMasternodeList block.header.height)).run
          (applyTransactions env block chain)).1 := unrelated_masternodeLoop _ _
    exact hloop _ (congrArg Prod.fst herror)
  · exact unrelated_validateStateRoot block.header _ hroot

section

open WrappingSum

variable [F64 F] {Digest : Type} [DecidableEq Digest] {roots : StateRoots Digest}
variable {chain : Blockchain F} {block : Block} {currentHeight : UInt64} {coinbase : Transaction}
  {others : List Transaction}

/-- A conforming block. Nothing is asked of its state root. -/
structure WellFormed (env : Platform) (chain : Blockchain F) (block : Block)
    (currentHeight : UInt64) (coinbase : Transaction) (others : List Transaction) : Prop where
  height : chain.state.getCurrentBlockHeight = .ok currentHeight
  /-- The previous hash, the difficulty and the proof of work are right. -/
  header : chain.validateHeader env block.header currentHeight = .ok ()
  transactions : block.transactions = coinbase :: others
  isCoinbase : coinbase.isCoinbase = true
  /-- The coinbase has a single null input, and an output. -/
  null : validateCoinbase coinbase = .ok ()
  reward : ∃ rewards, chain.blockRewards block.header.height others = .ok rewards ∧
    exact coinbase.outputValues ≤ rewards.powReward.toNat
  others : ∀ tx ∈ others, tx.isCoinbase = false ∧
    chain.inspect env currentHeight tx = .ok () ∧
    ∃ proposals, chain.recordedBy env currentHeight tx = .ok proposals

/-- There is an unspent output under the null outpoint of the coinbase, and it
pays for the outputs of the coinbase. -/
structure NullSpendable (chain : Blockchain F) (currentHeight : UInt64) (coinbase : Transaction) :
    Prop where
  unspent : ∀ input ∈ coinbase.getInputs, chain.utxoSet.Passes coinbase currentHeight
    chain.params.coinbaseMaturity input.previousOutput
  dust : ∀ output ∈ coinbase.getOutputs, dustLimit ≤ output.value
  covered : exact coinbase.outputValues ≤ exact (chain.utxoSet.inputValues coinbase.getInputs)

/-- Only slashing transactions come with the coinbase, and the subsidy alone allows
for its outputs. -/
structure AloneRewarded (chain : Blockchain F) (block : Block) (coinbase : Transaction)
    (others : List Transaction) : Prop where
  alone : ∀ tx ∈ others, tx.isMasternodeSlash = true
  within : ∀ rewards, chain.blockRewards block.header.height [] = .ok rewards →
    exact coinbase.outputValues ≤ rewards.powReward.toNat

theorem prioritize_cons_of_free {tx : Transaction} (hfee : tx.getFee = 0)
    (transactions : List Transaction) :
    prioritize (tx :: transactions) = prioritize transactions ++ [tx] := by
  have hfront : ∀ l : List Transaction,
      l.orderedInsert (fun a b : Transaction => a.getFee ≤ b.getFee) tx = tx :: l := by
    intro l
    cases l with
    | nil => rfl
    | cons other l =>
      refine if_pos ?_
      change tx.getFee ≤ other.getFee
      rw [hfee]
      exact UInt64.zero_le
  rw [prioritize, insertionSort_cons, hfront, reverse_cons, prioritize]

theorem isGovernance_of_isCoinbase (hcoinbase : coinbase.isCoinbase = true) :
    coinbase.isGovernance = false := by
  cases coinbase with
  | coinbase => rfl
  | _ => cases hcoinbase

theorem getFee_of_isCoinbase (hcoinbase : coinbase.isCoinbase = true) : coinbase.getFee = 0 := by
  cases coinbase with
  | coinbase => rfl
  | _ => cases hcoinbase

/-- The coinbase pays no fee, so that it is sorted to the end. -/
theorem keptTransactions_cons (hcoinbase : coinbase.isCoinbase = true)
    (transactions : List Transaction) :
    keptTransactions (coinbase :: transactions) = keptTransactions transactions ++ [coinbase] := by
  have hkept : (!coinbase.isMasternodeSlash) = true := by
    cases coinbase with
    | coinbase => rfl
    | _ => cases hcoinbase
  rw [keptTransactions, filter_cons, if_pos hkept,
    prioritize_cons_of_free (getFee_of_isCoinbase hcoinbase), keptTransactions]

omit [F64 F] in
/-- The inputs of a coinbase are validated, its scripts are not. -/
theorem inspect_coinbase (hcoinbase : coinbase.isCoinbase = true) :
    chain.inspect env currentHeight coinbase =
      if chain.utxoSet.validateTransactionInputsWithParams coinbase currentHeight
          chain.params.coinbaseMaturity then .ok ()
      else fail (.inputsInvalid (coinbase.txid env)) := by
  cases coinbase with
  | coinbase version inputs outputs lockTime witness =>
    change chain.validateTransactionInputsAndScripts env _ currentHeight = _
    rw [validateTransactionInputsAndScripts, ScriptEngine.validateTransaction, if_pos hcoinbase]
    cases chain.utxoSet.validateTransactionInputsWithParams _ currentHeight
      chain.params.coinbaseMaturity with
    | true => rfl
    | false => rfl
  | _ => cases hcoinbase

namespace WellFormed

variable (hwf : WellFormed env chain block currentHeight coinbase others)
include hwf

theorem exact_lt : exact coinbase.outputValues < 2 ^ 64 := by
  obtain ⟨rewards, -, hle⟩ := hwf.reward
  exact Nat.lt_of_le_of_lt hle rewards.powReward.toNat_lt

theorem toNat_sum :
    (coinbase.outputValues.foldl (· + ·) 0).toNat = exact coinbase.outputValues := by
  rw [toNat_foldl_add, UInt64.toNat_zero, Nat.zero_add, Nat.mod_eq_of_lt hwf.exact_lt]

theorem exists_input : ∃ input output outputs, coinbase.getInputs = [input] ∧
    coinbase.getOutputs = output :: outputs := by
  have hnull := hwf.null
  rw [validateCoinbase] at hnull
  rcases hinputs : coinbase.getInputs with _ | ⟨input, _ | ⟨second, rest⟩⟩
  · rw [hinputs] at hnull
    exact absurd hnull (fail_ne_ok _ _)
  · rw [hinputs] at hnull
    dsimp only at hnull
    rw [ite_fail_eq_ok, ite_fail_eq_ok] at hnull
    obtain ⟨output, outputs, houtputs⟩ := exists_cons_of_ne_nil
      (fun hnil => hnull.2.1 (List.isEmpty_iff.mpr hnil))
    exact ⟨input, output, outputs, rfl, houtputs⟩
  · rw [hinputs] at hnull
    exact absurd hnull (fail_ne_ok _ _)

theorem checkHeader_ok : checkHeader env block chain =
    .ok (currentHeight, coinbase :: prioritize others) := by
  rw [checkHeader, hwf.height, hwf.transactions]
  change (do
    chain.validateHeader env block.header currentHeight
    return (currentHeight, coinbase :: prioritize others) : ConsensusResult _) = _
  rw [hwf.header]
  rfl

theorem validate_iff :
    chain.utxoSet.validateTransactionInputsWithParams coinbase currentHeight
        chain.params.coinbaseMaturity = true ↔ chain.NullSpendable currentHeight coinbase := by
  obtain ⟨input, output, outputs, hinputs, -⟩ := hwf.exists_input
  have hvalues : exact (chain.utxoSet.inputValues coinbase.getInputs) < 2 ^ 64 := by
    rw [hinputs, UtxoSet.inputValues]
    cases hutxo : chain.utxoSet.getUtxo input.previousOutput with
    | none => simp [hutxo, WrappingSum.exact]
    | some utxo => simpa [hutxo, WrappingSum.exact] using utxo.output.value.toNat_lt
  rw [UtxoSet.validateTransactionInputsWithParams, UtxoSet.validateTransactionComprehensive_iff,
    getFee_of_isCoinbase hwf.isCoinbase, UInt64.toNat_zero, Nat.add_zero,
    Nat.mod_eq_of_lt hwf.exact_lt, Nat.mod_eq_of_lt hvalues]
  constructor
  · rintro ⟨-, hpasses, hdust, hcovered⟩
    exact ⟨hpasses, hdust, hcovered⟩
  · rintro ⟨hpasses, hdust, hcovered⟩
    refine ⟨?_, hpasses, hdust, hcovered⟩
    rw [hinputs]
    exact nodup_singleton _

/-- Either another transaction comes first in the end, or the coinbase is alone. -/
theorem kept_cases :
    (∃ tx rest, keptTransactions (coinbase :: prioritize others) = tx :: rest ∧
        tx ∈ others ∧ tx.isMasternodeSlash = false ∧ tx.isCoinbase = false) ∨
      (keptTransactions (coinbase :: prioritize others) = [coinbase] ∧
        ∀ tx ∈ others, tx.isMasternodeSlash = true) := by
  rw [keptTransactions_cons hwf.isCoinbase]
  cases hkept : keptTransactions (prioritize others) with
  | nil =>
    refine .inr ⟨rfl, fun tx htx => ?_⟩
    by_contra hslash
    have hmem := mem_keptTransactions.mpr ⟨mem_prioritize.mpr htx, Bool.eq_false_iff.mpr hslash⟩
    rw [hkept] at hmem
    cases hmem
  | cons tx rest =>
    have hmem : tx ∈ keptTransactions (prioritize others) := hkept ▸ mem_cons_self
    obtain ⟨hsorted, hslash⟩ := mem_keptTransactions.mp hmem
    have hother := mem_prioritize.mp hsorted
    exact .inl ⟨tx, rest ++ [coinbase], rfl, hother, hslash, (hwf.others tx hother).1⟩

/-- If another transaction comes first, or the coinbase asks for too much, the
block is turned down for the coinbase. -/
theorem checkRewards_blames (hnot : ¬ chain.AloneRewarded block coinbase others) :
    ∃ e, checkRewards env block (coinbase :: prioritize others) chain = .error (.err e) ∧
      BlamesCoinbase env coinbase e := by
  rcases hwf.kept_cases with ⟨tx, rest, hkept, -, -, hcoinbase⟩ | ⟨hkept, halone⟩
  · rw [checkRewards, hkept, rewardCoinbase, hcoinbase]
    exact ⟨_, rfl, trivial⟩
  · have hexceeds : ∃ rewards, chain.blockRewards block.header.height [] = .ok rewards ∧
        rewards.powReward.toNat < exact coinbase.outputValues := by
      by_contra hnone
      refine hnot ⟨halone, fun rewards hrewards => ?_⟩
      by_contra hlt
      exact hnone ⟨rewards, hrewards, Nat.lt_of_not_le hlt⟩
    obtain ⟨rewards, hrewards, hlt⟩ := hexceeds
    rw [← hwf.toNat_sum, ← UInt64.lt_iff_toNat_lt] at hlt
    rw [checkRewards, hkept, rewardCoinbase, hwf.isCoinbase, hrewards]
    simp only [Bool.not_true, Bool.false_eq_true, if_false, ok_bind]
    rw [if_pos hlt]
    exact ⟨_, rfl, trivial⟩

theorem checkRewards_unrelated (halone : chain.AloneRewarded block coinbase others) :
    FailsWith (Unrelated env coinbase)
      (checkRewards env block (coinbase :: prioritize others) chain) := by
  rcases hwf.kept_cases with ⟨tx, rest, -, hother, hslash, -⟩ | ⟨hkept, -⟩
  · rw [halone.alone tx hother] at hslash
    cases hslash
  · rw [checkRewards, hkept]
    refine failsWith_bind.mpr ⟨?_, fun rewarded _ => failsWith_bind.mpr ⟨?_, fun _ _ => ?_⟩⟩
    · obtain ⟨-, output, outputs, -, houtputs⟩ := hwf.exists_input
      rw [rewardCoinbase, hwf.isCoinbase, houtputs]
      refine failsWith_bind.mpr ⟨unrelated_blockRewards _ _, fun rewards hrewards => ?_⟩
      have hwithin : ¬ coinbase.outputValues.foldl (· + ·) 0 > rewards.powReward := by
        rw [gt_iff_lt, UInt64.lt_iff_toNat_lt, hwf.toNat_sum]
        exact Nat.not_lt.mpr (halone.within rewards hrewards)
      rw [if_neg hwithin]
      exact failsWith_ok _
    · exact (otherError_validateStake env chain _ _).mono fun _ => unrelated_of_otherError
    · exact failsWith_ok _

theorem prioritized_valid : ∀ tx ∈ prioritize others, chain.Eligible env currentHeight tx ∧
    chain.inspect env currentHeight tx = .ok () := by
  intro tx htx
  obtain ⟨-, hinspect, _, hrecord⟩ := hwf.others tx (mem_prioritize.mp htx)
  exact ⟨eligible_of_recordedBy hrecord, hinspect⟩

/-- The other transactions pass unless two of them are recorded under one key. -/
theorem loop_others_iff :
    ((forM (prioritize others) (processTransaction env currentHeight)).run chain).1 = .ok () ↔
      (others.filterMap Transaction.recordKey?).Nodup := by
  have hperm : ((prioritize others).filterMap Transaction.recordKey?).Perm
      (others.filterMap Transaction.recordKey?) :=
    (prioritize_perm others).filterMap _
  rw [loop_ok_iff]
  constructor
  · rintro ⟨hrecordable, -⟩
    exact hperm.nodup_iff.mp hrecordable.distinct
  · intro hnodup
    refine ⟨⟨fun tx htx => (hwf.prioritized_valid tx htx).1, hperm.nodup_iff.mpr hnodup, ?_⟩,
      fun tx htx => (hwf.prioritized_valid tx htx).2⟩
    intro key hkey
    obtain ⟨tx, htx, hsome⟩ := mem_filterMap.mp hkey
    obtain ⟨-, -, hrecord⟩ := hwf.others tx (mem_prioritize.mp htx)
    exact (recordedBy_ok_iff (hwf.prioritized_valid tx htx).1).mp hrecord key hsome

/-- A coinbase that is alone and asks for no more than its share is rewarded, and
nothing that comes after that is about it. -/
theorem unrelated_of_alone (halone : chain.AloneRewarded block coinbase others)
    {next : Blockchain F} (hloop : (forM (coinbase :: prioritize others)
      (processTransaction env currentHeight)).run chain = (.ok (), next))
    {e : ConsensusError}
    (herror : ((addBlock env roots block).run chain).1 = .error (.err e)) :
    ¬ BlamesCoinbase env coinbase e := by
  rw [addBlock_of_loop_ok roots hwf.checkHeader_ok hloop] at herror
  cases hrewards : checkRewards env block (coinbase :: prioritize others) chain with
  | error failure =>
    rw [hrewards] at herror
    cases herror
    exact hwf.checkRewards_unrelated halone _ hrewards
  | ok rewarded =>
    rw [hrewards] at herror
    exact unrelated_applyChecked (Prod.ext herror rfl)

end WellFormed

/-- A conforming block is not turned down for its coinbase exactly when the null
outpoint can be spent, and either the coinbase comes with nothing that could be
sorted before it, or the block fails before that. -/
theorem addBlock_accepts_coinbase_iff
    (hwf : WellFormed env chain block currentHeight coinbase others) :
    (∀ e, ((addBlock env roots block).run chain).1 = .error (.err e) →
      ¬ BlamesCoinbase env coinbase e) ↔
      chain.NullSpendable currentHeight coinbase ∧
        (¬ (others.filterMap Transaction.recordKey?).Nodup ∨
          chain.AloneRewarded block coinbase others) := by
  have hplain := isGovernance_of_isCoinbase hwf.isCoinbase
  have hinspect : chain.inspect env currentHeight coinbase = _ :=
    inspect_coinbase hwf.isCoinbase
  by_cases hnull : chain.NullSpendable currentHeight coinbase
  · rw [if_pos (hwf.validate_iff.mpr hnull)] at hinspect
    have hothers := hwf.loop_others_iff
    rw [← loop_of_plain hplain hinspect] at hothers
    rcases hloop : (forM (coinbase :: prioritize others)
      (processTransaction env currentHeight)).run chain with ⟨failure | u, next⟩
    · -- the loop stops at a proposal or a vote
      have hfails : FailsWith (Unrelated env coinbase) ((forM (prioritize others)
          (processTransaction env currentHeight)).run chain).1 :=
        unrelated_loop fun tx htx => (hwf.prioritized_valid tx htx).2
      rw [← loop_of_plain hplain hinspect, hloop, failsWith_error] at hfails
      rw [hloop] at hothers
      rw [addBlock_of_loop_error roots hwf.checkHeader_ok hloop]
      refine iff_of_true ?_ ⟨hnull, .inl (mt hothers.mpr nofun)⟩
      rintro e ⟨⟩
      exact hfails
    · rw [hloop] at hothers
      by_cases halone : chain.AloneRewarded block coinbase others
      · exact iff_of_true (fun e => hwf.unrelated_of_alone halone hloop) ⟨hnull, .inr halone⟩
      · obtain ⟨e, hrewards, hblames⟩ := hwf.checkRewards_blames halone
        rw [addBlock_of_loop_ok roots hwf.checkHeader_ok hloop, hrewards]
        refine iff_of_false (fun h => h e rfl hblames) ?_
        rintro ⟨-, hrepeated | hreward⟩
        · exact hrepeated (hothers.mp rfl)
        · exact halone hreward
  · -- the null input is missing
    rw [if_neg (mt hwf.validate_iff.mp hnull)] at hinspect
    rw [addBlock_of_loop_error roots hwf.checkHeader_ok (loop_of_inspect_error
      (recordedBy_of_not_governance hplain currentHeight chain) hinspect)]
    exact iff_of_false (fun h => h _ rfl rfl) fun h => hnull h.1

/-- A coinbase with a null input, for the miner's share of the first reward. -/
def firstCoinbase : Transaction :=
  .coinbase 1 [.fromOutpoint ⟨.replicate 32 0, 0xFFFFFFFF⟩ [] 0xFFFFFFFF []]
    [⟨20000000000, [0x51], none⟩] 0 []

/-- A chain with the given unspent output under the null outpoint, if any. -/
def withNull (null : Option Utxo) : Blockchain Rat :=
  { new with
    utxoSet := null.elim .new (UtxoSet.new.addUtxo ⟨.replicate 32 0, 0xFFFFFFFF⟩) }

theorem blockRewards_withNull (null : Option Utxo) :
    (withNull null).blockRewards 1 [] = .ok ⟨20000000000, 30000000000⟩ := by
  change (new : Blockchain Rat).blockRewards 1 [] = _
  decide +kernel

theorem wellFormed_firstCoinbase (null : Option Utxo) :
    WellFormed Platform.blank (withNull null) (blockOf [firstCoinbase]) 0 firstCoinbase [] where
  height := rfl
  header := by
    rw [validateHeader, Pow.verifyPow_of_zero fun _ => rfl]
    rfl
  transactions := rfl
  isCoinbase := rfl
  null := rfl
  reward := ⟨_, blockRewards_withNull null, by decide⟩
  others := by simp

theorem addBlock_accepts_coinbase_iff_spendable :
    (withNull (some ⟨⟨20000000000, [0x51], none⟩, false, 0⟩)).NullSpendable 0 firstCoinbase ∧
      ∀ e, ((addBlock Platform.blank StateRoots.plain (blockOf [firstCoinbase])).run
        (withNull (some ⟨⟨20000000000, [0x51], none⟩, false, 0⟩))).1 = .error (.err e) →
          ¬ BlamesCoinbase Platform.blank firstCoinbase e := by
  have hnull : (withNull (some ⟨⟨20000000000, [0x51], none⟩, false, 0⟩)).NullSpendable 0
      firstCoinbase := by
    refine ⟨forall_mem_singleton.mpr ⟨_, rfl, rfl, rfl⟩, ?_, ?_⟩
    · decide
    · decide
  refine ⟨hnull, (addBlock_accepts_coinbase_iff (wellFormed_firstCoinbase _)).mpr
    ⟨hnull, .inr ⟨by simp, fun rewards hrewards => ?_⟩⟩⟩
  rw [show rewards = _ from Except.ok.inj (hrewards.symm.trans (blockRewards_withNull _))]
  decide

/-- The first block cannot be added: its coinbase spends an output that does not
exist. The state root is right, whatever it is. -/
theorem addBlock_rejects_first_coinbase :
    WellFormed Platform.blank (new : Blockchain Rat) (blockOf [firstCoinbase]) 0 firstCoinbase [] ∧
      (∀ root, (blockOf [firstCoinbase]).header.stateRoot = StateRoots.plain.toBytes root) ∧
      ∃ e, ((addBlock Platform.blank StateRoots.plain (blockOf [firstCoinbase])).run
        (new : Blockchain Rat)).1 = .error (.err e) ∧
          BlamesCoinbase Platform.blank firstCoinbase e := by
  refine ⟨wellFormed_firstCoinbase none, fun _ => rfl, .inputsInvalid (.replicate 32 0), ?_, rfl⟩
  rw [addBlock_of_loop_error _ (checkHeader_of_no_height rfl (fun _ => rfl) rfl)
    (loop_of_inspect_error rfl rfl)]
  rfl

end

end RustyCoin.Blockchain
