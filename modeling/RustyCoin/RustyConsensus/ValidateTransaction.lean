import RustyCoin.Lib.WrappingSum
import RustyCoin.RustyConsensus.Stores
import RustyCoin.Script.Execute

/-!
# Validating a transaction

`validate_transaction` of rusty-consensus checks a transaction against the
database of unspent outputs. A transaction that it accepts spends different
unspent outputs and pays for its size, over exact integers. That spent coinbase
outputs are mature is checked with 32-bit heights, and the sum of a height and the
maturity can wrap around.

Lock times are checked only where some input has a sequence number that switches
them on.
-/

namespace RustyCoin.RustyConsensus

open Outcome WrappingSum List UInt64

variable (scriptPubkey : Bytes)

/-- The script begins with `OP_RETURN`. -/
def isOpReturnOutput : Bool :=
  scriptPubkey[0]? == some 0x6a

/-- `OP_DUP OP_HASH160 <20 bytes> OP_EQUALVERIFY OP_CHECKSIG` -/
def isPayToPubkeyHash : Bool :=
  scriptPubkey.length == 25 && scriptPubkey[0]? == some 0x76 && scriptPubkey[1]? == some 0xa9 &&
    scriptPubkey[2]? == some 0x14 && scriptPubkey[23]? == some 0x88 &&
      scriptPubkey[24]? == some 0xac

/-- `OP_HASH160 <20 bytes> OP_EQUAL` -/
def isPayToScriptHash : Bool :=
  scriptPubkey.length == 23 && scriptPubkey[0]? == some 0xa9 && scriptPubkey[1]? == some 0x14 &&
    scriptPubkey[22]? == some 0x87

/-- `<33 or 65 bytes> OP_CHECKSIG` -/
def isPayToPubkey : Bool :=
  (scriptPubkey.length == 35 && scriptPubkey[0]? == some 0x21 && scriptPubkey[34]? == some 0xac) ||
    (scriptPubkey.length == 67 && scriptPubkey[0]? == some 0x41 && scriptPubkey[66]? == some 0xac)

def maxScriptPubkeySize : Nat := 520

def validateScriptPubkey : ConsensusResult Unit :=
  if scriptPubkey.length > maxScriptPubkeySize then fail (.invalidScript "Script too large")
  else if scriptPubkey.isEmpty then fail (.invalidScript "Empty script")
  else if isPayToPubkeyHash scriptPubkey then .ok ()
  else if isPayToScriptHash scriptPubkey then .ok ()
  else if isPayToPubkey scriptPubkey then .ok ()
  else if isOpReturnOutput scriptPubkey then
    if scriptPubkey.length ≤ 82 then .ok () else fail (.invalidScript "OP_RETURN script too large")
  else if scriptPubkey.any (· == 0xff) then fail (.invalidScript "Invalid opcode")
  else .ok ()

variable (tx : Transaction) (currentHeight : UInt32) (medianTimePast : UInt64)

/-- Some input has a sequence number that switches the lock time on. -/
def locktimeEnabled : Bool :=
  tx.getInputs.any fun input => decide (input.sequence < 0xfffffffe)

/-- The loop over the sequence numbers at the end of the source function checks nothing. -/
def validateLocktimeAndSequence : ConsensusResult Unit :=
  if tx.isCoinbase then .ok ()
  else if !locktimeEnabled tx then .ok ()
  else if tx.getLockTime > 0 then
    if tx.getLockTime < locktimeThreshold then
      if tx.getLockTime > currentHeight then fail .transactionLocktimeNotMet else .ok ()
    else if tx.getLockTime.toUInt64 > medianTimePast then fail .transactionLocktimeNotMet
    else .ok ()
  else .ok ()

/-- The height, or the time, that the transaction waits for has come. -/
def LockReached : Prop :=
  if tx.getLockTime < locktimeThreshold then tx.getLockTime ≤ currentHeight
  else tx.getLockTime.toUInt64 ≤ medianTimePast

variable {tx currentHeight medianTimePast}

theorem validateLocktimeAndSequence_of_enabled (hcoinbase : tx.isCoinbase = false)
    (henabled : locktimeEnabled tx = true) (hlock : tx.getLockTime ≠ 0) :
    validateLocktimeAndSequence tx currentHeight medianTimePast = .ok () ↔
      LockReached tx currentHeight medianTimePast := by
  have hpos : tx.getLockTime > 0 := UInt32.pos_iff_ne_zero.mpr hlock
  unfold validateLocktimeAndSequence LockReached
  rw [hcoinbase, if_neg Bool.false_ne_true, henabled, if_neg (by decide), if_pos hpos]
  split
  · rw [ite_fail_eq_ok, UInt32.not_lt]
    exact and_iff_left rfl
  · rw [ite_fail_eq_ok, UInt64.not_lt]
    exact and_iff_left rfl

/-- A lock time that is not switched on is never looked at. -/
theorem validateLocktimeAndSequence_of_disabled
    (hdisabled : tx.isCoinbase = true ∨ locktimeEnabled tx = false) :
    validateLocktimeAndSequence tx currentHeight medianTimePast = .ok () := by
  unfold validateLocktimeAndSequence
  rcases hdisabled with hcoinbase | hdisabled
  · exact if_pos hcoinbase
  · rw [hdisabled, Bool.not_false, if_pos rfl]
    exact ite_self _

/-- At height and time zero no lock has been reached. -/
theorem not_lockReached_zero (hlock : tx.getLockTime ≠ 0) : ¬ LockReached tx 0 0 := by
  unfold LockReached
  split
  · rw [UInt32.le_zero_iff]
    exact hlock
  · intro hle
    have hzero : tx.getLockTime.toUInt64.toNat ≤ 0 := le_iff_toNat_le.mp hle
    rw [UInt32.toNat_toUInt64] at hzero
    exact hlock (UInt32.toNat_inj.mp (Nat.le_zero.mp hzero))

/-- The lock of a transaction holds at every height and time exactly when there is none, or when
the transaction is no coinbase and some input switches it on. -/
theorem validateLocktimeAndSequence_sound_iff (tx : Transaction) :
    (∀ currentHeight medianTimePast,
      validateLocktimeAndSequence tx currentHeight medianTimePast = .ok () →
        tx.getLockTime ≠ 0 → LockReached tx currentHeight medianTimePast) ↔
      tx.getLockTime = 0 ∨
        (tx.isCoinbase = false ∧ ∃ input ∈ tx.getInputs, input.sequence < 0xfffffffe) := by
  have henabled_iff : locktimeEnabled tx = true ↔
      ∃ input ∈ tx.getInputs, input.sequence < 0xfffffffe := by
    rw [locktimeEnabled, any_eq_true]
    simp only [decide_eq_true_eq]
  rw [← henabled_iff]
  constructor
  · intro hsound
    by_contra hnot
    rw [not_or, not_and_or, Bool.not_eq_false, Bool.not_eq_true] at hnot
    obtain ⟨hlock, hdisabled⟩ := hnot
    exact not_lockReached_zero hlock
      (hsound 0 0 (validateLocktimeAndSequence_of_disabled hdisabled) hlock)
  · rintro (hzero | ⟨hcoinbase, henabled⟩) currentHeight medianTimePast haccepted hlock
    · exact absurd hzero hlock
    · exact (validateLocktimeAndSequence_of_enabled hcoinbase henabled hlock).mp haccepted

section

variable {F : Type} (env : Platform) (bincode : Bincode) (context : ValidationContext F)
  (tx : Transaction) (currentHeight : UInt32)

/-- A coinbase output is spent too early. The height of its block is cut to 32 bits. -/
def spentTooEarly (entry : TxOutput × UInt64 × Bool) : Bool :=
  entry.2.2 && decide (currentHeight < entry.2.1.toUInt32 + context.params.coinbaseMaturity)

/-- The loop over the inputs, with the index of the next one, the outpoints seen so far, the
signature operations counted so far, and the sum of the values. -/
def spendInputs : List TxInput → Nat → List OutPoint → Nat → UInt64 → ConsensusResult UInt64
  | [], _, _, _, totalInputValue => .ok totalInputValue
  | input :: rest, inputIndex, seenInputs, sigOpCount, totalInputValue =>
    if input.previousOutput ∈ seenInputs then fail .duplicateInput
    else do
      let found ← context.utxoSet.getUtxo bincode input.previousOutput
      let entry ← okOr found .missingTxInput
      if spentTooEarly context currentHeight entry then fail .coinbaseNotMature
      else do
        let (verified, sigOpCount) :=
          ScriptEngine.new.verifyScriptWithSigOpCount env input.scriptSig
            entry.1.scriptPubkey tx inputIndex sigOpCount
        let accepted ← verified.attempt
        let _ ← okOr accepted .invalidScriptSig
        let totalInputValue ← okOr (checkedAdd totalInputValue entry.1.value)
          (.invalidProof "Input value too large")
        spendInputs rest (inputIndex + 1) (input.previousOutput :: seenInputs) sigOpCount
          totalInputValue

variable (utxoSet : UtxoSet) (inputs : List TxInput)

/-- The entries of the database that some inputs spend, absent ones left out. -/
def spentEntries : List (TxOutput × UInt64 × Bool) :=
  inputs.filterMap fun input => utxoSet.find bincode input.previousOutput

/-- The sum of what some inputs spend. -/
def spentValue : Nat :=
  exact ((spentEntries bincode utxoSet inputs).map fun entry => entry.1.value)

variable {env bincode context tx currentHeight}

variable {input : TxInput} {inputIndex sigOpCount : Nat} {seenInputs : List OutPoint}
  {total total' : UInt64}

theorem spentValue_cons {utxoSet : UtxoSet} {entry : TxOutput × UInt64 × Bool}
    (rest : List TxInput) (hfound : utxoSet.find bincode input.previousOutput = some entry) :
    spentValue bincode utxoSet (input :: rest) =
      entry.1.value.toNat + spentValue bincode utxoSet rest := by
  rw [spentValue, spentEntries, filterMap_cons, hfound]
  rfl

/-- What one round of the loop has checked. -/
theorem spendInputs_cons {rest : List TxInput}
    (h : spendInputs env bincode context tx currentHeight (input :: rest) inputIndex seenInputs
      sigOpCount total = .ok total') :
    input.previousOutput ∉ seenInputs ∧ ∃ entry,
      context.utxoSet.getUtxo bincode input.previousOutput = .ok (some entry) ∧
        spentTooEarly context currentHeight entry = false ∧
          ∃ sigOpCount' sum, sum.toNat = total.toNat + entry.1.value.toNat ∧
            spendInputs env bincode context tx currentHeight rest (inputIndex + 1)
              (input.previousOutput :: seenInputs) sigOpCount' sum = .ok total' := by
  rw [spendInputs, ite_fail_eq_ok, bind_eq_ok] at h
  obtain ⟨hnew, found, hfound, h⟩ := h
  rw [bind_eq_ok] at h
  obtain ⟨entry, hentry, h⟩ := h
  rw [ite_fail_eq_ok, Bool.not_eq_true, bind_eq_ok] at h
  obtain ⟨hmature, _, -, h⟩ := h
  rw [bind_eq_ok] at h
  obtain ⟨-, -, h⟩ := h
  rw [bind_eq_ok] at h
  obtain ⟨sum, hsum, hloop⟩ := h
  rw [okOr_eq_ok] at hentry hsum
  subst hentry
  exact ⟨hnew, entry, hfound, hmature, _, sum, checkedAdd_eq_some.mp hsum, hloop⟩

/-- The inputs of an accepted transaction differ, are unspent and mature, and are summed up
exactly. -/
theorem spendInputs_ok {inputs : List TxInput}
    (h : spendInputs env bincode context tx currentHeight inputs inputIndex seenInputs
      sigOpCount total = .ok total') :
    (inputs.map TxInput.previousOutput).Nodup ∧
      (inputs.map TxInput.previousOutput).Disjoint seenInputs ∧
        (∀ input ∈ inputs, ∃ entry,
          context.utxoSet.getUtxo bincode input.previousOutput = .ok (some entry) ∧
            spentTooEarly context currentHeight entry = false) ∧
          total'.toNat = total.toNat + spentValue bincode context.utxoSet inputs := by
  induction inputs generalizing inputIndex seenInputs sigOpCount total with
  | nil =>
    cases h
    exact ⟨nodup_nil, disjoint_nil_left _, nofun, rfl⟩
  | cons input rest ih =>
    obtain ⟨hnew, entry, hfound, hmature, _, sum, hsum, hloop⟩ := spendInputs_cons h
    obtain ⟨hnodup, hseen, hspent, htotal⟩ := ih hloop
    have hvalue := spentValue_cons rest (UtxoSet.find_of_getUtxo hfound)
    obtain ⟨hlater, hseen⟩ := disjoint_cons_right.mp hseen
    refine ⟨nodup_cons.mpr ⟨hlater, hnodup⟩, disjoint_cons_left.mpr ⟨hnew, hseen⟩,
      forall_mem_cons.mpr ⟨⟨entry, hfound, hmature⟩, hspent⟩, ?_⟩
    rw [htotal, hsum, hvalue, Nat.add_assoc]

end

/-- `MIN_RELAY_FEE_PER_BYTE` -/
def minRelayFeePerByte : UInt64 := 1

/-- The sum of the outputs of a transaction. -/
def sumOutputs (tx : Transaction) : ConsensusResult UInt64 :=
  okOr (checkedSum 0 tx.outputValues) (.invalidProof "Output value too large")

/-- What a transaction pays, unless its outputs exceed its inputs or it pays too little for its
size. -/
def checkFee (negative : ConsensusError) (totalInputValue totalOutputValue : UInt64)
    (txSize : Nat) : ConsensusResult UInt64 :=
  if totalInputValue < totalOutputValue then fail negative
  else
    let calculatedFee := totalInputValue - totalOutputValue
    let minFee := minRelayFeePerByte * UInt64.ofNat txSize
    if calculatedFee < minFee then fail (.insufficientFee calculatedFee minFee)
    else .ok calculatedFee

theorem sumOutputs_eq_ok {tx : Transaction} {total : UInt64} :
    sumOutputs tx = .ok total ↔ total.toNat = exact tx.outputValues := by
  rw [sumOutputs, okOr_eq_ok, checkedSum_eq_some, UInt64.toNat_zero, Nat.zero_add]

theorem checkFee_eq_ok {negative : ConsensusError} {totalInputValue totalOutputValue fee : UInt64}
    {txSize : Nat} (hsize : txSize < 2 ^ 64) :
    checkFee negative totalInputValue totalOutputValue txSize = .ok fee ↔
      totalInputValue.toNat = totalOutputValue.toNat + fee.toNat ∧
        minRelayFeePerByte.toNat * txSize ≤ fee.toNat := by
  have hmin : (minRelayFeePerByte * UInt64.ofNat txSize).toNat = txSize := by
    rw [minRelayFeePerByte, UInt64.one_mul, toNat_ofNat_of_lt' hsize]
  rw [checkFee, ite_fail_eq_ok, ite_fail_eq_ok, UInt64.not_lt, UInt64.not_lt,
    le_iff_toNat_le, le_iff_toNat_le, hmin, Except.ok.injEq]
  have hone : minRelayFeePerByte.toNat * txSize = txSize := Nat.one_mul txSize
  rw [hone]
  constructor
  · rintro ⟨hle, hpaid, rfl⟩
    have hsub := UInt64.toNat_sub_of_le _ _ (le_iff_toNat_le.mpr hle)
    omega
  · rintro ⟨htotal, hpaid⟩
    have hle : totalOutputValue ≤ totalInputValue := le_iff_toNat_le.mpr (by omega)
    have hsub := UInt64.toNat_sub_of_le _ _ hle
    have hfee : totalInputValue - totalOutputValue = fee := UInt64.toNat_inj.mp (by omega)
    rw [hfee]
    exact ⟨by omega, hpaid, rfl⟩

section

variable {F : Type} (env : Platform) (bincode : Bincode) (context : ValidationContext F)
  (tx : Transaction) (currentHeight : UInt32) (medianTimePast : UInt64)

def txSize : Nat := (env.serializeTransaction tx).length

/-- What is asked of the inputs of a transaction that is no coinbase. -/
def validateSpending : ConsensusResult Unit :=
  if tx.getInputs.isEmpty then fail .nonCoinbaseHasNoInputs
  else do
    let totalInputValue ←
      spendInputs env bincode context tx currentHeight tx.getInputs 0 [] 0 0
    let totalOutputValue ← sumOutputs tx
    let _ ← checkFee .negativeFee totalInputValue totalOutputValue (txSize env tx)
    validateLocktimeAndSequence tx currentHeight medianTimePast

/-- `OP_RETURN` outputs may be below the dust limit. -/
def validateOutput (output : TxOutput) : ConsensusResult Unit :=
  if !isOpReturnOutput output.scriptPubkey && decide (output.value < context.params.dustLimit) then
    fail (.dustOutput output.value)
  else validateScriptPubkey output.scriptPubkey

def validateTransaction : ConsensusResult Unit :=
  if tx.getInputs.isEmpty && tx.getOutputs.isEmpty then fail .emptyTransaction
  else if txSize env tx > context.params.maxTxSize.toNat then
    fail (.transactionTooLarge (txSize env tx) context.params.maxTxSize.toNat)
  else do
    if tx.isCoinbase then
      if !tx.getInputs.isEmpty then fail .coinbaseHasInputs else .ok ()
    else validateSpending env bincode context tx currentHeight medianTimePast
    forM tx.getOutputs (validateOutput context)

/-- A spent coinbase output is old enough, over exact integers. -/
def IsMature (entry : TxOutput × UInt64 × Bool) : Prop :=
  entry.2.2 = true → entry.2.1.toNat + context.params.coinbaseMaturity.toNat ≤ currentHeight.toNat

/-- What accepting a transaction is to mean. -/
structure SpendsSoundly : Prop where
  nonempty : tx.getInputs ≠ []
  distinct : (tx.getInputs.map TxInput.previousOutput).Nodup
  unspent : ∀ input ∈ tx.getInputs, ∃ entry,
    context.utxoSet.getUtxo bincode input.previousOutput = .ok (some entry) ∧
      IsMature context currentHeight entry
  inputs_lt : spentValue bincode context.utxoSet tx.getInputs < 2 ^ 64
  outputs_lt : exact tx.outputValues < 2 ^ 64
  fee : ∃ fee, spentValue bincode context.utxoSet tx.getInputs =
      exact tx.outputValues + fee ∧
    minRelayFeePerByte.toNat * txSize env tx ≤ fee

/-- No sum of the maturity and the height of a spent coinbase output wraps around. -/
def MaturityFits : Prop :=
  ∀ input ∈ tx.getInputs, ∀ output height,
    context.utxoSet.getUtxo bincode input.previousOutput = .ok (some (output, height, true)) →
      height.toNat + context.params.coinbaseMaturity.toNat < 2 ^ 32

variable {env bincode context tx currentHeight medianTimePast}

theorem isMature_of_fits {output : TxOutput} {height : UInt64} {isCoinbase : Bool}
    (hcheck : spentTooEarly context currentHeight (output, height, isCoinbase) = false)
    (hfits : isCoinbase = true → height.toNat + context.params.coinbaseMaturity.toNat < 2 ^ 32) :
    IsMature context currentHeight (output, height, isCoinbase) := by
  rintro ⟨⟩
  have hlt := hfits rfl
  have hheight : height.toUInt32.toNat = height.toNat := by
    rw [toNat_toUInt32]
    omega
  have hle : height.toUInt32 + context.params.coinbaseMaturity ≤ currentHeight := by
    rw [spentTooEarly, Bool.true_and, decide_eq_false_iff_not, UInt32.not_lt] at hcheck
    exact hcheck
  rw [UInt32.le_iff_toNat_le, UInt32.toNat_add, hheight, Nat.mod_eq_of_lt hlt] at hle
  exact hle

/-- What the checks of an accepted transaction establish, the maturity apart. -/
theorem validateSpending_ok (hsize : txSize env tx < 2 ^ 64)
    (h : validateSpending env bincode context tx currentHeight medianTimePast = .ok ()) :
    (∀ input ∈ tx.getInputs, ∃ entry,
      context.utxoSet.getUtxo bincode input.previousOutput = .ok (some entry) ∧
        spentTooEarly context currentHeight entry = false) ∧
      ((∀ input ∈ tx.getInputs, ∃ entry,
          context.utxoSet.getUtxo bincode input.previousOutput = .ok (some entry) ∧
            IsMature context currentHeight entry) →
        SpendsSoundly env bincode context tx currentHeight) := by
  rw [validateSpending, ite_fail_eq_ok, List.isEmpty_iff, bind_eq_ok] at h
  obtain ⟨hnonempty, totalInput, hinputs, h⟩ := h
  rw [bind_eq_ok] at h
  obtain ⟨totalOutput, houtputs, h⟩ := h
  rw [bind_eq_ok] at h
  obtain ⟨fee, hfee, -⟩ := h
  obtain ⟨hdistinct, -, hspent, htotal⟩ := spendInputs_ok hinputs
  rw [UInt64.toNat_zero, Nat.zero_add] at htotal
  rw [sumOutputs_eq_ok] at houtputs
  rw [checkFee_eq_ok hsize, htotal, houtputs] at hfee
  refine ⟨hspent, fun hmature => ?_⟩
  exact {
    nonempty := hnonempty
    distinct := hdistinct
    unspent := hmature
    inputs_lt := htotal ▸ totalInput.toNat_lt
    outputs_lt := houtputs ▸ totalOutput.toNat_lt
    fee := ⟨fee.toNat, hfee⟩ }

/-- An accepted transaction spends soundly exactly when no height of a spent coinbase output wraps
around with the maturity. -/
theorem validateTransaction_spendsSoundly_iff (hcoinbase : tx.isCoinbase = false)
    (haccepted : validateTransaction env bincode context tx currentHeight medianTimePast = .ok ()) :
    SpendsSoundly env bincode context tx currentHeight ↔ MaturityFits bincode context tx := by
  rw [validateTransaction, ite_fail_eq_ok, ite_fail_eq_ok, hcoinbase, if_neg Bool.false_ne_true,
    bind_eq_ok] at haccepted
  obtain ⟨-, hsize, _, hspending, -⟩ := haccepted
  have hlt : txSize env tx < 2 ^ 64 :=
    Nat.lt_of_le_of_lt (Nat.not_lt.mp hsize) context.params.maxTxSize.toNat_lt
  obtain ⟨hspent, hsound⟩ := validateSpending_ok hlt hspending
  constructor
  · intro h input hinput output height hfound
    obtain ⟨entry, hentry, hmature⟩ := h.unspent input hinput
    rw [hfound] at hentry
    cases hentry
    exact Nat.lt_of_le_of_lt (hmature rfl) currentHeight.toNat_lt
  · intro hfits
    refine hsound fun input hinput => ?_
    obtain ⟨⟨output, height, isCoinbase⟩, hfound, hcheck⟩ := hspent input hinput
    refine ⟨_, hfound, isMature_of_fits hcheck ?_⟩
    rintro rfl
    exact hfits input hinput output height hfound

/-- An output that anyone can spend: its script is `OP_1`. -/
def openOutput (value : UInt64) : TxOutput := ⟨value, [0x51], none⟩

/-- A transaction that spends one output of a thousand satoshis and pays a hundred. -/
def payingTx (sequence lockTime : UInt32) : Transaction :=
  .standard 1 [.fromOutpoint ⟨.replicate 32 1, 0⟩ [] sequence []] [openOutput 900] lockTime 100 []

/-- The output is that of the coinbase of the fifth block. -/
def fifthCoinbase (coinbaseMaturity : UInt32) : ValidationContext Rat where
  utxoSet := ⟨AList.insert (Bincode.plain.outPoint.serialize ⟨.replicate 32 1, 0⟩)
    (Bincode.plain.utxo.serialize (openOutput 1000, 5, true)) ∅⟩
  params := { ConsensusParams.default with coinbaseMaturity := coinbaseMaturity }
  ticketVoting := .new
  masternodeList := .new

/-- A transaction takes fifty bytes. -/
def fiftyBytes : Platform :=
  { Platform.blank with serializeTransaction := fun _ => .replicate 50 0 }

/-- After a hundred blocks the output can be spent. -/
theorem validateTransaction_of_mature :
    validateTransaction fiftyBytes .plain (fifthCoinbase 100) (payingTx 0 0) 105 0 = .ok () ∧
      SpendsSoundly fiftyBytes .plain (fifthCoinbase 100) (payingTx 0 0) 105 := by
  have haccepted :
      validateTransaction fiftyBytes .plain (fifthCoinbase 100) (payingTx 0 0) 105 0 = .ok () := by
    decide +kernel
  refine ⟨haccepted, (validateTransaction_spendsSoundly_iff rfl haccepted).mpr ?_⟩
  intro input hinput output height hfound
  cases mem_singleton.mp hinput
  have hentry : (fifthCoinbase 100).utxoSet.getUtxo .plain ⟨.replicate 32 1, 0⟩ =
      .ok (some (openOutput 1000, 5, true)) := by
    decide +kernel
  cases hentry.symm.trans hfound
  decide

/-- With a large maturity the output can be spent in the next block. -/
theorem validateTransaction_spends_immature :
    validateTransaction fiftyBytes .plain (fifthCoinbase 4294967291) (payingTx 0 0) 6 0 = .ok () ∧
      ¬ SpendsSoundly fiftyBytes .plain (fifthCoinbase 4294967291) (payingTx 0 0) 6 := by
  refine ⟨by decide +kernel, fun hsound => ?_⟩
  obtain ⟨entry, hfound, hmature⟩ := hsound.unspent _ mem_cons_self
  have hentry : (fifthCoinbase 4294967291).utxoSet.getUtxo .plain ⟨.replicate 32 1, 0⟩ =
      .ok (some (openOutput 1000, 5, true)) := by
    decide +kernel
  cases hentry.symm.trans hfound
  exact absurd (hmature rfl) (by decide)

/-- A transaction that is locked until a block in the far future is accepted if its only input has
the largest sequence number. -/
theorem validateTransaction_ignores_lock :
    validateLocktimeAndSequence (payingTx 0xffffffff 600000) 105 0 = .ok () ∧
      validateTransaction fiftyBytes .plain (fifthCoinbase 100) (payingTx 0xffffffff 600000) 105 0 =
        .ok () ∧
        (payingTx 0xffffffff 600000).getLockTime ≠ 0 ∧
          ¬ LockReached (payingTx 0xffffffff 600000) 105 0 := by
  refine ⟨by decide +kernel, by decide +kernel, by decide, ?_⟩
  unfold LockReached
  decide +kernel

end

end RustyCoin.RustyConsensus
