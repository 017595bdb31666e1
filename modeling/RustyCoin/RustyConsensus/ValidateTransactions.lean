import RustyCoin.Consensus.Spending
import RustyCoin.RustyConsensus.TransactionKinds

/-!
# Validating the transactions of a block

`validate_transactions` checks the structure of every transaction, what its kind
asks for, and what it spends. The structure of a coinbase is that of a single
null input, and the loop over the inputs, which is run for the coinbase as well,
looks the null outpoint up in the set of unspent outputs. A block of transactions
that are valid one by one is therefore accepted only where the null outpoint is an
unspent output.
-/

namespace RustyCoin.RustyConsensus

open Outcome WrappingSum List

variable {F : Type} (env : Platform) (bincode : Bincode) (context : ValidationContext F)
  (tx : Transaction)

/-- The loop over the scripts, with the index of the next input and the signature operations
counted so far. -/
def verifyScripts : List TxInput → Nat → Nat → ConsensusResult Unit
  | [], _, _ => .ok ()
  | input :: rest, i, transactionSigOpCount => do
    let found ← context.utxoSet.getUtxo bincode input.previousOutput
    let entry ← okOr found .missingTxInput
    let (verified, transactionSigOpCount) :=
      ScriptEngine.new.verifyScriptWithSigOpCount env input.scriptSig
        entry.1.scriptPubkey tx i transactionSigOpCount
    verified.mapErr (.scriptValidationFailed i)
    verifyScripts rest (i + 1) transactionSigOpCount

/-- The loop over the outputs, with the index of the next one and the sum of the values. -/
def checkOutputValues : List TxOutput → Nat → UInt64 → ConsensusResult UInt64
  | [], _, totalOutputValue => .ok totalOutputValue
  | output :: rest, i, totalOutputValue =>
    if output.value = 0 then fail (.outputValueZero i)
    else do
      let totalOutputValue ← okOr (checkedAdd totalOutputValue output.value)
        (.invalidProof "Output value too large")
      if !isOpReturnOutput output.scriptPubkey &&
          decide (output.value < context.params.dustLimit) then
        fail (.dustOutput output.value)
      else checkOutputValues rest (i + 1) totalOutputValue

/-- The outpoint that the input of a coinbase names. -/
def nullOutPoint : OutPoint := ⟨.replicate 32 0, 0xffffffff⟩

def validateCoinbaseInputs : ConsensusResult Unit :=
  match tx.getInputs with
  | [input] =>
    if input.previousOutput.txid ≠ .replicate 32 0 ∨ input.previousOutput.vout ≠ 0xffffffff then
      fail (.invalidCoinbase "coinbase input must be null")
    else .ok ()
  | _ => fail (.invalidCoinbase "coinbase transaction must have exactly one input")

/-- The loop over the values of the inputs. -/
def checkInputValues : List TxInput → UInt64 → ConsensusResult UInt64
  | [], totalInputValue => .ok totalInputValue
  | input :: rest, totalInputValue => do
    let found ← context.utxoSet.getUtxo bincode input.previousOutput
    let entry ← okOr found .missingTxInput
    let totalInputValue ← okOr (checkedAdd totalInputValue entry.1.value)
      (.invalidProof "Input value too large")
    if tx.getLockTime ≠ 0 ∧ input.sequence = 0xffffffff then fail .invalidSequence
    else checkInputValues rest totalInputValue

/-- The scripts of a coinbase are not run. -/
def validateScripts : ConsensusResult Unit :=
  if tx.isCoinbase then .ok () else verifyScripts env bincode context tx tx.getInputs 0 0

/-- The height is not looked at. -/
def validateTransactionStructure : ConsensusResult Unit :=
  if txSize env tx > context.params.maxTxSize.toNat then
    fail (.transactionTooLarge (txSize env tx) context.params.maxTxSize.toNat)
  else if !tx.isCoinbase && tx.getInputs.isEmpty then fail .emptyTransaction
  else do
    validateScripts env bincode context tx
    if tx.getOutputs.isEmpty then fail .noOutputs
    else do
      let totalOutputValue ← checkOutputValues context tx.getOutputs 0 0
      if tx.isCoinbase then validateCoinbaseInputs tx
      else do
        let totalInputValue ← checkInputValues bincode context tx tx.getInputs 0
        let _ ← checkFee .spendingMoreThanInputs totalInputValue totalOutputValue
          (txSize env tx)
        if tx.getLockTime ≠ 0 ∧ tx.getInputs.any (·.sequence == 0xffffffff) then
          fail (.invalidLockTime "all inputs must have sequence < MAX_UINT if lock_time is set")
        else .ok ()

variable {env bincode context tx}

theorem checkOutputValues_ok {outputs : List TxOutput} {i : Nat} {total total' : UInt64}
    (h : checkOutputValues context outputs i total = .ok total') :
    total'.toNat = total.toNat + exact (outputs.map TxOutput.value) := by
  induction outputs generalizing i total with
  | nil =>
    cases h
    rfl
  | cons output rest ih =>
    rw [checkOutputValues, ite_fail_eq_ok, bind_eq_ok] at h
    obtain ⟨-, sum, hsum, h⟩ := h
    rw [ite_fail_eq_ok] at h
    have hrest := ih h.2
    rw [okOr_eq_ok, checkedAdd_eq_some] at hsum
    rw [hrest, hsum, Nat.add_assoc]
    rfl

theorem validateCoinbaseInputs_eq_ok :
    validateCoinbaseInputs tx = .ok () ↔
      tx.getInputs.map TxInput.previousOutput = [nullOutPoint] := by
  unfold validateCoinbaseInputs
  match tx.getInputs with
  | [] => exact ⟨fun h => absurd h (fail_ne_ok _ _), nofun⟩
  | [⟨_, _, ⟨txid, vout⟩, _, _, _⟩] =>
    show (if txid ≠ _ ∨ vout ≠ _ then fail _ else _) = _ ↔ [OutPoint.mk txid vout] = [nullOutPoint]
    rw [ite_fail_eq_ok, not_or, not_not, not_not, singleton_inj, nullOutPoint, OutPoint.mk.injEq]
    exact and_iff_left rfl
  | _ :: _ :: _ => exact ⟨fun h => absurd h (fail_ne_ok _ _), fun h => nomatch (List.cons.inj h).2⟩

theorem txSize_lt_of_structure (h : validateTransactionStructure env bincode context tx = .ok ()) :
    txSize env tx < 2 ^ 64 := by
  rw [validateTransactionStructure, ite_fail_eq_ok, Nat.not_lt] at h
  exact Nat.lt_of_le_of_lt h.1 context.params.maxTxSize.toNat_lt

/-- What the structure of a coinbase is. -/
theorem validateTransactionStructure_of_coinbase (hcoinbase : tx.isCoinbase = true)
    (h : validateTransactionStructure env bincode context tx = .ok ()) :
    tx.getInputs.map TxInput.previousOutput = [nullOutPoint] ∧
      exact tx.outputValues < 2 ^ 64 := by
  rw [validateTransactionStructure, ite_fail_eq_ok, ite_fail_eq_ok, bind_eq_ok] at h
  obtain ⟨-, -, _, -, h⟩ := h
  rw [ite_fail_eq_ok, bind_eq_ok] at h
  obtain ⟨-, total, htotal, h⟩ := h
  rw [if_pos hcoinbase, validateCoinbaseInputs_eq_ok] at h
  have hsum := checkOutputValues_ok htotal
  rw [UInt64.toNat_zero, Nat.zero_add] at hsum
  refine ⟨h, ?_⟩
  rw [Transaction.outputValues, ← hsum]
  exact total.toNat_lt

variable (bincode context) (height : UInt64)

/-- A coinbase output is spent too early. Heights have 64 bits here. -/
def spentTooEarlyAt (entry : TxOutput × UInt64 × Bool) : Bool :=
  entry.2.2 && decide (height < entry.2.1 + context.params.coinbaseMaturity.toUInt64)

/-- The loop over the inputs, with the outputs that the block has spent so far and the sum of the
values. -/
def spendInBlock : List TxInput → List OutPoint → UInt64 →
    ConsensusResult (List OutPoint × UInt64)
  | [], spentOutputs, inputValueSum => .ok (spentOutputs, inputValueSum)
  | input :: rest, spentOutputs, inputValueSum => do
    let found ← context.utxoSet.getUtxo bincode input.previousOutput
    let entry ← okOr found .missingTxInput
    if spentTooEarlyAt context height entry then fail .coinbaseNotMature
    else if input.previousOutput ∈ spentOutputs then
      fail (.invalidProof "Duplicate transaction detected")
    else do
      let inputValueSum ← okOr (checkedAdd inputValueSum entry.1.value)
        (.invalidProof "Input value too large")
      spendInBlock rest (input.previousOutput :: spentOutputs) inputValueSum

/-- There is an unspent output at the outpoint, and it is old enough if it is that of a coinbase. -/
def Spendable (outpoint : OutPoint) : Prop :=
  ∃ entry, context.utxoSet.getUtxo bincode outpoint = .ok (some entry) ∧
    (entry.2.2 = true → entry.2.1 + context.params.coinbaseMaturity.toUInt64 ≤ height)

variable {bincode context height}

theorem spentTooEarlyAt_eq_false {entry : TxOutput × UInt64 × Bool} :
    spentTooEarlyAt context height entry = false ↔
      (entry.2.2 = true → entry.2.1 + context.params.coinbaseMaturity.toUInt64 ≤ height) := by
  rw [spentTooEarlyAt, Bool.and_eq_false_iff, decide_eq_false_iff_not, UInt64.not_lt,
    ← Bool.not_eq_true, ← imp_iff_not_or]

theorem spendInBlock_cons {input : TxInput} {rest : List TxInput} {spent : List OutPoint}
    {sum : UInt64} {result : List OutPoint × UInt64} :
    spendInBlock bincode context height (input :: rest) spent sum = .ok result ↔
      ∃ entry, context.utxoSet.getUtxo bincode input.previousOutput = .ok (some entry) ∧
        (entry.2.2 = true → entry.2.1 + context.params.coinbaseMaturity.toUInt64 ≤ height) ∧
          input.previousOutput ∉ spent ∧ ∃ sum' : UInt64,
            sum'.toNat = sum.toNat + entry.1.value.toNat ∧
              spendInBlock bincode context height rest (input.previousOutput :: spent) sum' =
                .ok result := by
  rw [spendInBlock, bind_eq_ok]
  constructor
  · rintro ⟨found, hfound, h⟩
    rw [bind_eq_ok] at h
    obtain ⟨entry, hentry, h⟩ := h
    rw [ite_fail_eq_ok, ite_fail_eq_ok, Bool.not_eq_true, spentTooEarlyAt_eq_false, bind_eq_ok] at h
    obtain ⟨hmature, hnew, sum', hsum, hrest⟩ := h
    rw [okOr_eq_ok] at hentry hsum
    subst hentry
    exact ⟨entry, hfound, hmature, hnew, sum', checkedAdd_eq_some.mp hsum, hrest⟩
  · rintro ⟨entry, hfound, hmature, hnew, sum', hsum, hrest⟩
    refine ⟨some entry, hfound, bind_eq_ok.mpr ⟨entry, rfl, ?_⟩⟩
    rw [ite_fail_eq_ok, ite_fail_eq_ok, Bool.not_eq_true, spentTooEarlyAt_eq_false, bind_eq_ok]
    exact ⟨hmature, hnew, sum', okOr_eq_ok.mpr (checkedAdd_eq_some.mpr hsum), hrest⟩

/-- The loop ends exactly when all inputs can be spent and none is spent twice, and it sums them up
exactly. -/
theorem spendInBlock_eq_ok {inputs : List TxInput} {spent spent' : List OutPoint}
    {sum sum' : UInt64} :
    spendInBlock bincode context height inputs spent sum = .ok (spent', sum') ↔
      (∀ outpoint ∈ inputs.map TxInput.previousOutput, Spendable bincode context height outpoint) ∧
        (inputs.map TxInput.previousOutput).Nodup ∧
          (inputs.map TxInput.previousOutput).Disjoint spent ∧
            spent' = (inputs.map TxInput.previousOutput).reverse ++ spent ∧
              sum'.toNat = sum.toNat + spentValue bincode context.utxoSet inputs := by
  induction inputs generalizing spent sum with
  | nil =>
    show Except.ok (spent, sum) = Except.ok (spent', sum') ↔ _
    rw [Except.ok.injEq, Prod.mk.injEq, eq_comm, ← UInt64.toNat_inj, eq_comm (b := sum'.toNat)]
    exact ⟨fun h => ⟨nofun, nodup_nil, disjoint_nil_left _, h⟩, fun h => h.2.2.2⟩
  | cons input rest ih =>
    rw [spendInBlock_cons, map_cons, forall_mem_cons, nodup_cons,
      disjoint_cons_left, reverse_cons, append_assoc, singleton_append]
    constructor
    · rintro ⟨entry, hfound, hmature, hnew, sum₁, hsum, hrest⟩
      obtain ⟨hspendable, hnodup, hdisjoint, hspent, htotal⟩ := ih.mp hrest
      rw [disjoint_cons_right] at hdisjoint
      refine ⟨⟨⟨entry, hfound, hmature⟩, hspendable⟩, ⟨hdisjoint.1, hnodup⟩,
        ⟨hnew, hdisjoint.2⟩, hspent, ?_⟩
      rw [htotal, hsum, spentValue_cons rest (UtxoSet.find_of_getUtxo hfound), Nat.add_assoc]
    · rintro ⟨⟨⟨entry, hfound, hmature⟩, hspendable⟩, ⟨hnot, hnodup⟩, ⟨hnew, hdisjoint⟩, hspent,
        htotal⟩
      rw [spentValue_cons rest (UtxoSet.find_of_getUtxo hfound), ← Nat.add_assoc] at htotal
      have hlt := sum'.toNat_lt
      have hsum : (sum + entry.1.value).toNat = sum.toNat + entry.1.value.toNat := by
        rw [UInt64.toNat_add]
        omega
      refine ⟨entry, hfound, hmature, hnew, sum + entry.1.value, hsum, ih.mpr ?_⟩
      rw [hsum]
      exact ⟨hspendable, hnodup, disjoint_cons_right.mpr ⟨hnot, hdisjoint⟩, hspent, htotal⟩

section

variable {F : Type} (env : Platform) (bincode : Bincode) (context : ValidationContext F)
  (height currentTime : UInt64)

/-- What the loop over the transactions of a block keeps: the outputs spent and the fees paid. -/
structure BlockProgress where
  spentOutputs : List OutPoint
  totalFees : UInt64
  deriving DecidableEq

variable (tx : Transaction)

/-- A coinbase pays no fee. -/
def collectFee (inputValueSum outputValueSum totalFees : UInt64) : ConsensusResult UInt64 :=
  if tx.isCoinbase then .ok totalFees
  else do
    let fee ← checkFee (.invalidProof "Spending more than inputs") inputValueSum outputValueSum
      (txSize env tx)
    okOr (checkedAdd totalFees fee) (.invalidProof "Fee overflow")

def checkLockTime : ConsensusResult Unit :=
  if tx.getLockTime ≠ 0 then
    if tx.getLockTime < locktimeThreshold then
      if tx.getLockTime.toUInt64 > height then
        fail (.invalidProof "Invalid lock time: block height not reached")
      else .ok ()
    else if tx.getLockTime.toUInt64 > currentTime then
      fail (.invalidProof "Invalid lock time: timestamp not reached")
    else .ok ()
  else .ok ()

/-- The height or the time that the transaction waits for has come. -/
def LockTimeReached : Prop :=
  tx.getLockTime ≠ 0 →
    tx.getLockTime.toUInt64 ≤ if tx.getLockTime < locktimeThreshold then height else currentTime

/-- What a transaction leaves of the outputs that it spends. -/
def feePaid : Nat :=
  spentValue bincode context.utxoSet tx.getInputs - exact tx.outputValues

/-- The progress after a transaction. -/
def BlockProgress.after (progress : BlockProgress) (tx : Transaction) : BlockProgress :=
  ⟨tx.spentOutpoints.reverse ++ progress.spentOutputs,
    progress.totalFees + UInt64.ofNat (feePaid bincode context tx)⟩

variable {env bincode context height currentTime}

theorem checkLockTime_eq_ok {tx : Transaction} :
    checkLockTime height currentTime tx = .ok () ↔ LockTimeReached height currentTime tx := by
  unfold checkLockTime LockTimeReached
  by_cases hlock : tx.getLockTime = 0
  · rw [if_neg (not_not.mpr hlock)]
    exact ⟨fun _ hne => absurd hlock hne, fun _ => rfl⟩
  · rw [if_pos hlock, imp_iff_right hlock]
    split
    all_goals
      rw [ite_fail_eq_ok, UInt64.not_lt]
      exact and_iff_left rfl

/-- What is added to the fees is the difference of the sums. -/
theorem collectFee_eq_ok {tx : Transaction} {inputValueSum outputValueSum total total' : UInt64}
    (hcoinbase : tx.isCoinbase = false) (hsize : txSize env tx < 2 ^ 64) :
    collectFee env tx inputValueSum outputValueSum total = .ok total' ↔
      outputValueSum.toNat + minRelayFeePerByte.toNat * txSize env tx ≤ inputValueSum.toNat ∧
        total'.toNat = total.toNat + (inputValueSum.toNat - outputValueSum.toNat) := by
  unfold collectFee
  rw [hcoinbase, if_neg Bool.false_ne_true, bind_eq_ok]
  simp only [checkFee_eq_ok hsize, okOr_eq_ok, checkedAdd_eq_some]
  constructor
  · rintro ⟨fee, ⟨hfee, hmin⟩, htotal⟩
    omega
  · rintro ⟨hmin, htotal⟩
    have hlt := inputValueSum.toNat_lt
    have hfee : (UInt64.ofNat (inputValueSum.toNat - outputValueSum.toNat)).toNat =
        inputValueSum.toNat - outputValueSum.toNat :=
      UInt64.toNat_ofNat_of_lt' (Nat.lt_of_le_of_lt (Nat.sub_le _ _) hlt)
    refine ⟨UInt64.ofNat (inputValueSum.toNat - outputValueSum.toNat), ?_⟩
    rw [hfee]
    omega

namespace BlockProgress

variable {progress progress' : BlockProgress} {tx : Transaction}

variable (hlt : progress.totalFees.toNat + feePaid bincode context tx < 2 ^ 64)

include hlt

theorem toNat_totalFees_after :
    (progress.after bincode context tx).totalFees.toNat =
      progress.totalFees.toNat + feePaid bincode context tx := by
  have hfee : feePaid bincode context tx < 2 ^ 64 := Nat.lt_of_le_of_lt (Nat.le_add_left _ _) hlt
  rw [after, UInt64.toNat_add, UInt64.toNat_ofNat_of_lt' hfee, Nat.mod_eq_of_lt hlt]

theorem eq_after_iff :
    progress' = progress.after bincode context tx ↔
      progress'.spentOutputs = tx.spentOutpoints.reverse ++ progress.spentOutputs ∧
        progress'.totalFees.toNat = progress.totalFees.toNat + feePaid bincode context tx := by
  rw [← toNat_totalFees_after hlt, UInt64.toNat_inj]
  obtain ⟨spent', total'⟩ := progress'
  exact mk.injEq _ _ _ _ ▸ Iff.rfl

omit hlt

theorem disjoint_after {outpoints : List OutPoint} :
    outpoints.Disjoint (progress.after bincode context tx).spentOutputs ↔
      tx.spentOutpoints.Disjoint outpoints ∧ outpoints.Disjoint progress.spentOutputs := by
  rw [after, disjoint_append_right, List.disjoint_comm, disjoint_reverse_left]

end BlockProgress

end

section

variable {F : Type} [F64Cast F] (env : Platform) (bincode : Bincode) (context : ValidationContext F)
  (height currentTime : UInt64)

variable (progress : BlockProgress) (tx : Transaction)

/-- The body of the loop, after the check that only the first transaction is a coinbase. -/
def validateInBlock :
    ConsensusResult BlockProgress := do
  validateTransactionStructure env bincode context tx
  validateKind context height tx
  let (spentOutputs, inputValueSum) ←
    spendInBlock bincode context height tx.getInputs progress.spentOutputs 0
  let outputValueSum ← sumOutputs tx
  let totalFees ← collectFee env tx inputValueSum outputValueSum progress.totalFees
  checkLockTime height currentTime tx
  return ⟨spentOutputs, totalFees⟩

/-- A round of the loop after the first. -/
def validateLater : ConsensusResult BlockProgress :=
  if tx.isCoinbase then fail .invalidCoinbaseInput
  else validateInBlock env bincode context height currentTime progress tx

def validateTransactions (transactions : List Transaction) : ConsensusResult Unit :=
  match transactions with
  | [] => fail .emptyTransaction
  | first :: rest =>
    if !first.isCoinbase then fail .noCoinbaseTransaction
    else do
      let progress ← validateInBlock env bincode context height currentTime ⟨[], 0⟩ first
      let _ ← rest.foldlM (validateLater env bincode context height currentTime) progress
      return ()

/-- A transaction passes every check of the loop by itself. -/
def IndividuallyValid (tx : Transaction) : Prop :=
  ∃ progress, validateLater env bincode context height currentTime ⟨[], 0⟩ tx = .ok progress

/-- What the checks of a transaction ask for that do not depend on the rest of the block. -/
structure ValidAlone (tx : Transaction) : Prop where
  noCoinbase : tx.isCoinbase = false
  wellStructured : validateTransactionStructure env bincode context tx = .ok ()
  ofItsKind : validateKind context height tx = .ok ()
  spendable : ∀ outpoint ∈ tx.spentOutpoints, Spendable bincode context height outpoint
  distinct : tx.spentOutpoints.Nodup
  inputs_lt : spentValue bincode context.utxoSet tx.getInputs < 2 ^ 64
  pays : exact tx.outputValues + minRelayFeePerByte.toNat * txSize env tx ≤
    spentValue bincode context.utxoSet tx.getInputs
  unlocked : LockTimeReached height currentTime tx

variable {env bincode context height currentTime}

variable {progress progress' : BlockProgress} {tx : Transaction}

theorem validateInBlock_eq_ok :
    validateInBlock env bincode context height currentTime progress tx = .ok progress' ↔
      validateTransactionStructure env bincode context tx = .ok () ∧
        validateKind context height tx = .ok () ∧
          ∃ inputValueSum outputValueSum,
            spendInBlock bincode context height tx.getInputs progress.spentOutputs 0 =
                .ok (progress'.spentOutputs, inputValueSum) ∧
              sumOutputs tx = .ok outputValueSum ∧
                collectFee env tx inputValueSum outputValueSum progress.totalFees =
                    .ok progress'.totalFees ∧
                  LockTimeReached height currentTime tx := by
  rw [← checkLockTime_eq_ok]
  unfold validateInBlock
  simp only [bind_eq_ok, pure_eq_ok, Except.ok.injEq, Prod.exists]
  constructor
  · rintro ⟨⟨⟩, hstructure, ⟨⟩, hkind, spent, input, hspend, output, houtput, fees, hfees, ⟨⟩,
      hlock, rfl⟩
    exact ⟨hstructure, hkind, input, output, hspend, houtput, hfees, hlock⟩
  · rintro ⟨hstructure, hkind, input, output, hspend, houtput, hfees, hlock⟩
    exact ⟨(), hstructure, (), hkind, _, input, hspend, output, houtput, _, hfees, (), hlock, rfl⟩

/-- A round of the loop asks that the transaction is valid by itself, that nothing it spends is
spent, and that the sum of the fees does not overflow. -/
theorem validateLater_eq_ok :
    validateLater env bincode context height currentTime progress tx = .ok progress' ↔
      ValidAlone env bincode context height currentTime tx ∧
        tx.spentOutpoints.Disjoint progress.spentOutputs ∧
          progress.totalFees.toNat + feePaid bincode context tx < 2 ^ 64 ∧
            progress' = progress.after bincode context tx := by
  rw [validateLater, ite_fail_eq_ok, Bool.not_eq_true, validateInBlock_eq_ok]
  simp only [spendInBlock_eq_ok, sumOutputs_eq_ok, UInt64.toNat_zero, Nat.zero_add]
  constructor
  · rintro ⟨hcoinbase, hstructure, hkind, input, output,
      ⟨hspendable, hnodup, hdisjoint, hspent, hinput⟩, houtput, hfees, hlock⟩
    have hsize := txSize_lt_of_structure hstructure
    rw [collectFee_eq_ok hcoinbase hsize, hinput, houtput] at hfees
    have hlt := progress'.totalFees.toNat_lt
    have hbound : progress.totalFees.toNat + feePaid bincode context tx < 2 ^ 64 := by
      rw [feePaid, ← hfees.2]
      exact hlt
    refine ⟨⟨hcoinbase, hstructure, hkind, hspendable, hnodup, hinput ▸ input.toNat_lt, hfees.1,
      hlock⟩, hdisjoint, hbound, ?_⟩
    exact (BlockProgress.eq_after_iff hbound).mpr ⟨hspent, hfees.2⟩
  · rintro ⟨hvalid, hdisjoint, hbound, hafter⟩
    have hafter := (BlockProgress.eq_after_iff hbound).mp hafter
    have hsize := txSize_lt_of_structure hvalid.wellStructured
    have hin := UInt64.toNat_ofNat_of_lt' hvalid.inputs_lt
    have hout := UInt64.toNat_ofNat_of_lt'
      (Nat.lt_of_le_of_lt (Nat.le_of_add_right_le hvalid.pays) hvalid.inputs_lt)
    refine ⟨hvalid.noCoinbase, hvalid.wellStructured, hvalid.ofItsKind, _, _,
      ⟨hvalid.spendable, hvalid.distinct, hdisjoint, hafter.1, hin⟩, hout, ?_, hvalid.unlocked⟩
    rw [collectFee_eq_ok hvalid.noCoinbase hsize, hin, hout]
    exact ⟨hvalid.pays, hafter.2⟩

theorem individuallyValid_iff {tx : Transaction} :
    IndividuallyValid env bincode context height currentTime tx ↔
      ValidAlone env bincode context height currentTime tx := by
  simp only [IndividuallyValid, validateLater_eq_ok]
  constructor
  · rintro ⟨_, hvalid, -⟩
    exact hvalid
  · intro hvalid
    refine ⟨_, hvalid, disjoint_nil_right _, ?_, rfl⟩
    rw [UInt64.toNat_zero, Nat.zero_add]
    exact Nat.lt_of_le_of_lt (Nat.sub_le _ _) hvalid.inputs_lt

/-- The loop over transactions that are valid by themselves ends exactly when none of them spends
what another one has spent and the sum of their fees does not overflow. -/
theorem foldlM_validateLater {rest : List Transaction}
    (hvalid : ∀ tx ∈ rest, ValidAlone env bincode context height currentTime tx)
    (progress : BlockProgress) :
    (∃ progress', rest.foldlM (validateLater env bincode context height currentTime) progress =
        .ok progress') ↔
      (rest.flatMap Transaction.spentOutpoints).Nodup ∧
        (rest.flatMap Transaction.spentOutpoints).Disjoint progress.spentOutputs ∧
          progress.totalFees.toNat + (rest.map (feePaid bincode context)).sum < 2 ^ 64 := by
  induction rest generalizing progress with
  | nil =>
    refine ⟨fun _ => ⟨nodup_nil, disjoint_nil_left _, progress.totalFees.toNat_lt⟩,
      fun _ => ⟨progress, rfl⟩⟩
  | cons tx rest ih =>
    obtain ⟨htx, hrest⟩ := forall_mem_cons.mp hvalid
    simp only [foldlM_cons, bind_eq_ok, validateLater_eq_ok]
    rw [flatMap_cons, nodup_append', disjoint_append_left, map_cons, sum_cons, ← Nat.add_assoc]
    constructor
    · rintro ⟨progress', _, ⟨-, hdisjoint, hbound, rfl⟩, hloop⟩
      obtain ⟨hnodup, hafter, hsum⟩ := (ih hrest _).mp ⟨progress', hloop⟩
      rw [BlockProgress.disjoint_after] at hafter
      rw [BlockProgress.toNat_totalFees_after hbound] at hsum
      exact ⟨⟨htx.distinct, hnodup, hafter.1⟩, ⟨hdisjoint, hafter.2⟩, hsum⟩
    · rintro ⟨⟨-, hnodup, hothers⟩, ⟨hdisjoint, hspent⟩, hsum⟩
      have hbound : progress.totalFees.toNat + feePaid bincode context tx < 2 ^ 64 :=
        Nat.lt_of_le_of_lt (Nat.le_add_right _ _) hsum
      rw [← BlockProgress.toNat_totalFees_after hbound] at hsum
      obtain ⟨progress', hloop⟩ := (ih hrest _).mpr
        ⟨hnodup, BlockProgress.disjoint_after.mpr ⟨hothers, hspent⟩, hsum⟩
      exact ⟨progress', _, ⟨htx, hdisjoint, hbound, rfl⟩, hloop⟩

/-- The first round of the loop looks up the null outpoint. -/
theorem validateInBlock_coinbase {coinbase : Transaction} {progress : BlockProgress}
    (hcoinbase : coinbase.isCoinbase = true)
    (hstructure : validateTransactionStructure env bincode context coinbase = .ok ()) :
    validateInBlock env bincode context height currentTime ⟨[], 0⟩ coinbase = .ok progress ↔
      Spendable bincode context height nullOutPoint ∧
        LockTimeReached height currentTime coinbase ∧ progress = ⟨[nullOutPoint], 0⟩ := by
  obtain ⟨hnull, hlt⟩ := validateTransactionStructure_of_coinbase hcoinbase hstructure
  rw [validateInBlock_eq_ok]
  simp only [spendInBlock_eq_ok, hnull, sumOutputs_eq_ok, collectFee, if_pos hcoinbase]
  constructor
  · rintro ⟨-, -, input, output, ⟨hspendable, -, -, hspent, -⟩, -, hfees, hlock⟩
    refine ⟨hspendable _ (mem_singleton_self _), hlock, ?_⟩
    obtain ⟨spent, total⟩ := progress
    cases hfees
    cases hspent
    rfl
  · rintro ⟨hspendable, hlock, rfl⟩
    have hinputs : spentValue bincode context.utxoSet coinbase.getInputs < 2 ^ 64 := by
      obtain ⟨entry, hfound, -⟩ := hspendable
      obtain ⟨input, hinput, hprevious⟩ := map_eq_singleton_iff.mp hnull
      rw [← hprevious] at hfound
      rw [hinput, spentValue_cons [] (UtxoSet.find_of_getUtxo hfound)]
      exact entry.1.value.toNat_lt
    refine ⟨hstructure, validateKind_of_coinbase context height hcoinbase,
      UInt64.ofNat (spentValue bincode context.utxoSet coinbase.getInputs),
      UInt64.ofNat (exact coinbase.outputValues),
      ⟨?_, nodup_singleton _, disjoint_nil_right _, rfl, ?_⟩,
      UInt64.toNat_ofNat_of_lt' hlt, rfl, hlock⟩
    · intro outpoint hmem
      rw [mem_singleton.mp hmem]
      exact hspendable
    · rw [UInt64.toNat_zero, Nat.zero_add, UInt64.toNat_ofNat_of_lt' hinputs]

/-- A block whose first transaction has the structure of a coinbase, and whose other transactions
are valid one by one, is accepted exactly when the null outpoint is an unspent output, the coinbase
is not locked, no output is spent twice, and the sum of the fees does not overflow. -/
theorem validateTransactions_eq_ok_iff {coinbase : Transaction} {rest : List Transaction}
    (hcoinbase : coinbase.isCoinbase = true)
    (hstructure : validateTransactionStructure env bincode context coinbase = .ok ())
    (hvalid : ∀ tx ∈ rest, IndividuallyValid env bincode context height currentTime tx) :
    validateTransactions env bincode context height currentTime (coinbase :: rest) = .ok () ↔
      Spendable bincode context height nullOutPoint ∧
        LockTimeReached height currentTime coinbase ∧
          ((coinbase :: rest).flatMap Transaction.spentOutpoints).Nodup ∧
            (rest.map (feePaid bincode context)).sum < 2 ^ 64 := by
  have hnull := (validateTransactionStructure_of_coinbase hcoinbase hstructure).1
  have halone : ∀ tx ∈ rest, ValidAlone env bincode context height currentTime tx :=
    fun tx htx => individuallyValid_iff.mp (hvalid tx htx)
  have hloop := foldlM_validateLater halone ⟨[nullOutPoint], 0⟩
  rw [UInt64.toNat_zero, Nat.zero_add, disjoint_singleton] at hloop
  rw [validateTransactions, hcoinbase, ite_fail_eq_ok, bind_eq_ok, flatMap_cons,
    Transaction.spentOutpoints, hnull, singleton_append, nodup_cons]
  simp only [validateInBlock_coinbase hcoinbase hstructure, bind_eq_ok, pure_eq_ok]
  constructor
  · rintro ⟨-, _, ⟨hspendable, hlock, rfl⟩, progress, hrest, -⟩
    obtain ⟨hnodup, hnew, hfees⟩ := hloop.mp ⟨progress, hrest⟩
    exact ⟨hspendable, hlock, ⟨hnew, hnodup⟩, hfees⟩
  · rintro ⟨hspendable, hlock, ⟨hnew, hnodup⟩, hfees⟩
    obtain ⟨progress, hrest⟩ := hloop.mpr ⟨hnodup, hnew, hfees⟩
    exact ⟨by decide, _, ⟨hspendable, hlock, rfl⟩, progress, hrest, trivial⟩

/-- A coinbase with the null input. -/
def nullCoinbase : Transaction :=
  .coinbase 1 [.fromOutpoint nullOutPoint [] 0xffffffff []] [openOutput 5000] 0 []

/-- The null outpoint is among the unspent outputs. -/
def withNullOutput : ValidationContext Rat :=
  { fifthCoinbase 100 with
    utxoSet := ⟨AList.insert (Bincode.plain.outPoint.serialize nullOutPoint)
      (Bincode.plain.utxo.serialize (openOutput 1, 0, false)) (fifthCoinbase 100).utxoSet.utxos⟩ }

/-- A coinbase and a payment are accepted where the null outpoint is an unspent output. -/
theorem validateTransactions_with_null_output :
    validateTransactions fiftyBytes .plain withNullOutput 105 0 [nullCoinbase, payingTx 0 0] =
      .ok () := by
  refine (validateTransactions_eq_ok_iff rfl (by decide +kernel) ?_).mpr
    ⟨⟨(openOutput 1, 0, false), by decide +kernel, nofun⟩, nofun, by decide +kernel,
      by decide +kernel⟩
  intro tx htx
  rw [mem_singleton.mp htx]
  exact ⟨⟨[⟨.replicate 32 1, 0⟩], 100⟩, by decide +kernel⟩

/-- Where it is not, the same block is turned down because the input of the coinbase is missing. -/
theorem validateTransactions_misses_null_input :
    nullCoinbase.isCoinbase = true ∧
      validateTransactionStructure fiftyBytes .plain (fifthCoinbase 100) nullCoinbase = .ok () ∧
        IndividuallyValid fiftyBytes .plain (fifthCoinbase 100) 105 0 (payingTx 0 0) ∧
          validateTransactions fiftyBytes .plain (fifthCoinbase 100) 105 0
            [nullCoinbase, payingTx 0 0] = fail .missingTxInput := by
  refine ⟨rfl, by decide +kernel, ⟨⟨[⟨.replicate 32 1, 0⟩], 100⟩, ?_⟩, by decide +kernel⟩
  decide +kernel

end

end RustyCoin.RustyConsensus
