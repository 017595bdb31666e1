import RustyCoin.Consensus.Supply
import RustyCoin.Script.StandardScripts

/-!
# Admission to the memory pool

`validate_and_add_transaction` runs seven checks one after the other and then
stores the transaction under its id. The checks compare the inputs of the
transaction with the pool, but not with each other. The values of the inputs
are added up with saturation, those of the outputs with wrap-around.

Over a run with a fixed chain no output is claimed by two pooled transactions,
and every claimed output is unspent. `run_sound_iff` says which transactions have
to stay away for the rest: those that name an output twice, and those whose
outputs add up to `2 ^ 64` or more.
-/

namespace RustyCoin.Mempool

open Outcome WrappingSum List

variable (env : Platform) (utxoSet : UtxoSet) (tx : Transaction)

/-- `bincode::serialize(tx).len()` -/
def serializedSize : Nat := (env.serializeTransaction tx).length

def validateTransactionStructure : Bool :=
  if tx.isCoinbase then false
  else if tx.getInputs.isEmpty then false
  else if tx.getOutputs.isEmpty then false
  else if serializedSize env tx > 100000 then false
  else tx.getOutputs.all fun output => output.value ≠ 0 && output.value ≥ 546

/-- An input without an unlocking script is passed over. The answer for a script
that aborts is no answer. -/
def validateSignature (input : TxInput) (inputIndex : Nat) : ConsensusResult Bool :=
  if input.scriptSig.isEmpty then .ok true
  else
    match utxoSet.getUtxo input.previousOutput with
    | none => .ok false
    | some prevOutput => do
      let passed ← attempt (ScriptEngine.new.executeStandardScript env input.scriptSig
        prevOutput.output.scriptPubkey tx inputIndex)
      return passed.isSome

def validateTransactionSignatures : ConsensusResult Bool :=
  tx.getInputs.zipIdx.allM fun (input, inputIndex) =>
    validateSignature env utxoSet tx input inputIndex

/-- Does a pooled transaction have an input with this outpoint? -/
def spends (self : Mempool) (outpoint : OutPoint) : Bool :=
  self.transactions.toPairs.any fun (_, pooled) =>
    pooled.getInputs.any fun input => input.previousOutput == outpoint

def validateTransactionInputs (self : Mempool) : Bool :=
  tx.getInputs.all fun input =>
    (utxoSet.getUtxo input.previousOutput).isSome && !self.spends input.previousOutput

/-- The sum over the inputs, which is given up at the first one that is not there. -/
def inputValue : Option UInt64 :=
  tx.getInputs.foldlM
    (fun value input => (utxoSet.getUtxo input.previousOutput).map fun utxo =>
      saturatingAdd value utxo.output.value)
    0

def validateTransactionFees : Bool :=
  match inputValue utxoSet tx with
  | none => false
  | some inputValue =>
    let outputValue := tx.outputValues.foldl (· + ·) 0
    if inputValue < outputValue then false
    else
      let fee := inputValue - outputValue
      if fee < 1000 then false
      else if fee > UInt64.ofNat (serializedSize env tx) * 10000 then false
      else true

/-- Lock times and sequence numbers are only logged. -/
def validateTransactionPolicy : Bool :=
  tx.getOutputs.all fun output => output.scriptPubkey.length ≤ 10000

def validateNoConflicts (self : Mempool) : Bool :=
  tx.getInputs.all fun input => !self.spends input.previousOutput

/-- A check whose negative answer becomes an error. -/
def require (message : String) (passed : Bool) : ConsensusResult Unit :=
  if passed then .ok () else fail (.transactionValidation message)

variable {F : Type} (blockchain : Blockchain F)

def validateTransactionScripts : ConsensusResult Bool := do
  let currentHeight ← ConsensusError.asInternal blockchain.state.getCurrentBlockHeight
  ScriptEngine.new.validateTransaction env tx blockchain.utxoSet currentHeight

/-- The seven checks of `validate_and_add_transaction`. -/
def validateTransaction (self : Mempool) : ConsensusResult Unit := do
  require "Transaction structure validation failed" (validateTransactionStructure env tx)
  let signed ← validateTransactionSignatures env blockchain.utxoSet tx
  require "Transaction signature validation failed" signed
  require "Transaction input validation failed"
    (self.validateTransactionInputs blockchain.utxoSet tx)
  require "Transaction fee validation failed" (validateTransactionFees env blockchain.utxoSet tx)
  let unlocked ← validateTransactionScripts env tx blockchain
  require "Transaction script validation failed" unlocked
  require "Transaction policy validation failed" (validateTransactionPolicy tx)
  require "Transaction conflicts with existing mempool transactions" (self.validateNoConflicts tx)

/-- The answer is whether the transaction was added; it is `false` for one that
is there already. -/
def validateAndAddTransaction (self : Mempool) : ConsensusResult Bool × Mempool :=
  if (self.transactions.lookup (tx.txid env)).isSome then (.ok false, self)
  else
    match self.validateTransaction env tx blockchain with
    | .error failure => (.error failure, self)
    | .ok () => (.ok true, ⟨self.transactions.insert (tx.txid env) tx⟩)

variable {utxoSet tx}

/-- The exact sum of the values that a transaction takes, every outpoint counted once. -/
def distinctInputValue (utxoSet : UtxoSet) (tx : Transaction) : Nat :=
  ∑ outpoint ∈ tx.spentOutpoints.toFinset, utxoSet.valueAt outpoint

/-- The exact outputs leave the least fee. -/
def Conserves (utxoSet : UtxoSet) (tx : Transaction) : Prop :=
  exact tx.outputValues + 1000 ≤ distinctInputValue utxoSet tx

/-- The outputs do not wrap around. Where they do, the inputs have to reach `2 ^ 64`
as well: their sum is then cut off, so that nothing but the exact sums themselves can
say whether the outputs are covered. -/
def WithinRange (utxoSet : UtxoSet) (tx : Transaction) : Prop :=
  exact tx.outputValues < 2 ^ 64 ∨ 2 ^ 64 ≤ distinctInputValue utxoSet tx ∧ Conserves utxoSet tx

theorem distinctInputValue_of_nodup (h : tx.spentOutpoints.Nodup) :
    distinctInputValue utxoSet tx = exact (utxoSet.inputValues tx.getInputs) := by
  rw [UtxoSet.exact_inputValues, distinctInputValue, sum_toFinset _ h]
  rfl

/-- The loop over the inputs gives the saturated sum of their values. -/
theorem foldlM_inputs {inputs : List TxInput} {start value : UInt64} (h : inputs.foldlM
      (fun value input => (utxoSet.getUtxo input.previousOutput).map fun utxo =>
        saturatingAdd value utxo.output.value) start = some value) :
    value = (utxoSet.inputValues inputs).foldl saturatingAdd start := by
  induction inputs generalizing start with
  | nil => exact (Option.some.inj h).symm
  | cons input inputs ih =>
    rw [foldlM_cons, Option.bind_eq_bind, Option.bind_eq_some_iff] at h
    obtain ⟨sum, hsum, hrest⟩ := h
    obtain ⟨utxo, hutxo, rfl⟩ := Option.map_eq_some_iff.mp hsum
    have hvalues : utxoSet.inputValues (input :: inputs) =
        utxo.output.value :: utxoSet.inputValues inputs := by
      rw [UtxoSet.inputValues, filterMap_cons, hutxo]
      rfl
    rw [hvalues, foldl_cons]
    exact ih hrest

theorem toNat_inputValue {value : UInt64} (h : inputValue utxoSet tx = some value) :
    value.toNat = min (exact (utxoSet.inputValues tx.getInputs)) (2 ^ 64 - 1) := by
  rw [foldlM_inputs h, toNat_foldl_saturatingAdd, UInt64.toNat_zero, Nat.zero_add]

/-- What the fee check says: the remainder of the outputs and the least fee are
within the saturated sum of the inputs. -/
theorem le_of_validateTransactionFees {env : Platform}
    (h : validateTransactionFees env utxoSet tx = true) :
    exact tx.outputValues % 2 ^ 64 + 1000 ≤
      min (exact (utxoSet.inputValues tx.getInputs)) (2 ^ 64 - 1) := by
  rw [validateTransactionFees] at h
  split at h
  · cases h
  · rename_i value hvalue
    rw [← toNat_inputValue hvalue]
    have hout : (tx.outputValues.foldl (· + ·) 0).toNat = exact tx.outputValues % 2 ^ 64 := by
      rw [toNat_foldl_add, UInt64.toNat_zero, Nat.zero_add]
    simp only at h
    split at h
    · cases h
    · rename_i hle
      have hcovered := UInt64.not_lt.mp hle
      split at h
      · cases h
      · rename_i hfee
        have hleast := UInt64.le_iff_toNat_le.mp (UInt64.not_lt.mp hfee)
        rw [UInt64.toNat_sub_of_le _ _ hcovered, hout] at hleast
        have hle := UInt64.le_iff_toNat_le.mp hcovered
        rw [hout] at hle
        have hthousand : (1000 : UInt64).toNat = 1000 := rfl
        omega

/-- With distinct inputs the fee check is exact for outputs that do not wrap around. -/
theorem conserves_iff {env : Platform} (hfees : validateTransactionFees env utxoSet tx = true)
    (hdistinct : tx.spentOutpoints.Nodup) :
    Conserves utxoSet tx ↔ WithinRange utxoSet tx := by
  have hchecked := le_of_validateTransactionFees hfees
  rw [← distinctInputValue_of_nodup hdistinct] at hchecked
  constructor
  · intro hconserves
    by_cases hrange : exact tx.outputValues < 2 ^ 64
    · exact .inl hrange
    · refine .inr ⟨?_, hconserves⟩
      rw [Conserves] at hconserves
      omega
  · rintro (hrange | ⟨-, hconserves⟩)
    · rw [Nat.mod_eq_of_lt hrange] at hchecked
      rw [Conserves]
      omega
    · exact hconserves

section

variable {utxoSet : UtxoSet} {pool : Mempool} {tx : Transaction}

/-- The outpoints of all inputs of all pooled transactions. -/
def spentOutpoints (self : Mempool) : List OutPoint :=
  self.transactions.toPairs.flatMap fun (_, pooled) => pooled.spentOutpoints

/-- What the pool is meant to be for a set of unspent outputs. -/
structure Sound (utxoSet : UtxoSet) (pool : Mempool) : Prop where
  unshared : pool.spentOutpoints.Nodup
  present : ∀ outpoint ∈ pool.spentOutpoints, (utxoSet.getUtxo outpoint).isSome
  conserving : ∀ txid tx, pool.transactions.lookup txid = some tx → Conserves utxoSet tx

@[simp] theorem spends_iff {outpoint : OutPoint} :
    pool.spends outpoint = true ↔ outpoint ∈ pool.spentOutpoints := by
  rw [spends, spentOutpoints, any_eq_true, mem_flatMap]
  refine exists_congr fun entry => and_congr_right fun _ => ?_
  show (entry.2.getInputs.any fun input => input.previousOutput == outpoint) = true ↔
    outpoint ∈ entry.2.getInputs.map TxInput.previousOutput
  rw [any_eq_true, mem_map]
  exact exists_congr fun input => and_congr_right fun _ => beq_iff_eq

@[simp] theorem require_eq_ok {message : String} {passed : Bool} :
    require message passed = .ok () ↔ passed = true := by
  cases passed with
  | true => exact iff_of_true rfl rfl
  | false => exact iff_of_false (fail_ne_ok _ _) Bool.false_ne_true

variable {env : Platform} {F : Type} {blockchain : Blockchain F}

/-- What the seven checks say about the inputs and the values of a transaction. -/
theorem validateTransaction_spec (h : pool.validateTransaction env tx blockchain = .ok ()) :
    (∀ outpoint ∈ tx.spentOutpoints, (blockchain.utxoSet.getUtxo outpoint).isSome) ∧
      tx.spentOutpoints.Disjoint pool.spentOutpoints ∧
      validateTransactionFees env blockchain.utxoSet tx = true := by
  obtain ⟨_, -, h⟩ := bind_eq_ok.mp h
  obtain ⟨_, -, h⟩ := bind_eq_ok.mp h
  obtain ⟨_, -, h⟩ := bind_eq_ok.mp h
  obtain ⟨_, hinputs, h⟩ := bind_eq_ok.mp h
  obtain ⟨_, hfees, -⟩ := bind_eq_ok.mp h
  have hall := all_eq_true.mp (require_eq_ok.mp hinputs)
  have hinput : ∀ outpoint ∈ tx.spentOutpoints,
      (blockchain.utxoSet.getUtxo outpoint).isSome ∧ pool.spends outpoint = false := by
    intro outpoint hmem
    obtain ⟨input, hinput, rfl⟩ := mem_map.mp hmem
    obtain ⟨hpresent, hfree⟩ := Bool.and_eq_true_iff.mp (hall input hinput)
    exact ⟨hpresent, Bool.not_eq_true' _ ▸ hfree⟩
  refine ⟨fun outpoint hmem => (hinput outpoint hmem).1, ?_, require_eq_ok.mp hfees⟩
  intro outpoint hmem hpooled
  have hspends := spends_iff.mpr hpooled
  rw [(hinput outpoint hmem).2] at hspends
  cases hspends

/-- A call that adds its transaction has passed the checks and puts it in front. -/
theorem validateAndAddTransaction_added
    (h : (pool.validateAndAddTransaction env tx blockchain).1 = .ok true) :
    pool.transactions.lookup (tx.txid env) = none ∧
      pool.validateTransaction env tx blockchain = .ok () ∧
      (pool.validateAndAddTransaction env tx blockchain).2 =
        ⟨pool.transactions.insert (tx.txid env) tx⟩ := by
  rw [validateAndAddTransaction] at h ⊢
  split at h
  · cases h
  · rename_i hnew
    rw [if_neg hnew]
    split at h
    · cases h
    · rename_i hvalid
      rw [hvalid]
      exact ⟨Option.not_isSome_iff_eq_none.mp hnew, rfl, rfl⟩

/-- Any other call leaves the pool as it is. -/
theorem validateAndAddTransaction_kept
    (h : (pool.validateAndAddTransaction env tx blockchain).1 ≠ .ok true) :
    (pool.validateAndAddTransaction env tx blockchain).2 = pool := by
  rw [validateAndAddTransaction] at h ⊢
  split
  · rfl
  · rename_i hnew
    rw [if_neg hnew] at h
    split
    · rfl
    · rename_i hvalid
      rw [hvalid] at h
      exact absurd rfl h

theorem spentOutpoints_insert {txid : Hash} (hnew : pool.transactions.lookup txid = none) :
    (⟨pool.transactions.insert txid tx⟩ : Mempool).spentOutpoints =
      tx.spentOutpoints ++ pool.spentOutpoints := by
  have hentries : HashMap.toPairs (pool.transactions.insert txid tx) =
      (txid, tx) :: pool.transactions.toPairs := by
    rw [HashMap.toPairs, AList.entries_insert_of_notMem (AList.lookup_eq_none.mp hnew)]
    rfl
  rw [spentOutpoints, hentries]
  rfl

theorem spentOutpoints_erase_sublist (txid : Hash) :
    (pool.removeTransaction txid).2.spentOutpoints.Sublist pool.spentOutpoints := by
  have hentries : (HashMap.toPairs (pool.transactions.erase txid)).Sublist
      pool.transactions.toPairs :=
    (kerase_sublist txid pool.transactions.entries).map _
  exact hentries.flatMap _

/-- Taking a transaction out of the pool does no harm. -/
theorem Sound.removeTransaction (hsound : pool.Sound utxoSet) (txid : Hash) :
    (pool.removeTransaction txid).2.Sound utxoSet where
  unshared := hsound.unshared.sublist (spentOutpoints_erase_sublist txid)
  present := fun outpoint hmem =>
    hsound.present outpoint ((spentOutpoints_erase_sublist txid).subset hmem)
  conserving := HashMap.forall_erase hsound.conserving

/-- A new transaction keeps the pool sound if it names every output once and its
outputs are in range, and only then. -/
theorem sound_insert_iff (hsound : pool.Sound blockchain.utxoSet)
    (hnew : pool.transactions.lookup (tx.txid env) = none)
    (hvalid : pool.validateTransaction env tx blockchain = .ok ()) :
    Sound blockchain.utxoSet ⟨pool.transactions.insert (tx.txid env) tx⟩ ↔
      tx.spentOutpoints.Nodup ∧ WithinRange blockchain.utxoSet tx := by
  obtain ⟨hpresent, hdisjoint, hfees⟩ := validateTransaction_spec hvalid
  constructor
  · intro hadded
    have hunshared := hadded.unshared
    rw [spentOutpoints_insert hnew] at hunshared
    have hdistinct := hunshared.of_append_left
    have hconserves := hadded.conserving (tx.txid env) tx (AList.lookup_insert _)
    exact ⟨hdistinct, (conserves_iff hfees hdistinct).mp hconserves⟩
  · rintro ⟨hdistinct, hrange⟩
    refine ⟨?_, ?_, ?_⟩
    · rw [spentOutpoints_insert hnew]
      exact hdistinct.append hsound.unshared hdisjoint
    · intro outpoint hmem
      rw [spentOutpoints_insert hnew, mem_append] at hmem
      exact hmem.elim (hpresent outpoint) (hsound.present outpoint)
    · exact HashMap.forall_insert hsound.conserving ((conserves_iff hfees hdistinct).mpr hrange)

end

section

variable {F : Type} (env : Platform) (blockchain : Blockchain F)

/-- The calls that change the pool. -/
inductive Call where
  | validateAndAdd (tx : Transaction)
  | remove (txid : Hash)

def step (pool : Mempool) : Call → Mempool
  | .validateAndAdd tx => (pool.validateAndAddTransaction env tx blockchain).2
  | .remove txid => (pool.removeTransaction txid).2

/-- The pool after some calls, from an empty one. -/
def run (calls : List Call) : Mempool :=
  calls.foldl (step env blockchain) new

/-- If the call adds a transaction to the pool, then that one names every output once and
its outputs are in range. -/
def AddsSoundly (call : Call) (pool : Mempool) : Prop :=
  ∀ tx, call = .validateAndAdd tx →
    (pool.validateAndAddTransaction env tx blockchain).1 = .ok true →
      tx.spentOutpoints.Nodup ∧ WithinRange blockchain.utxoSet tx

theorem sound_new (utxoSet : UtxoSet) : new.Sound utxoSet where
  unshared := nodup_nil
  present := nofun
  conserving := by
    intro txid tx hlookup
    cases hlookup

theorem sound_step_iff {pool : Mempool} (hsound : pool.Sound blockchain.utxoSet) (call : Call) :
    (step env blockchain pool call).Sound blockchain.utxoSet ↔
      AddsSoundly env blockchain call pool := by
  cases call with
  | remove txid =>
    refine iff_of_true (hsound.removeTransaction txid) ?_
    intro tx hcall
    cases hcall
  | validateAndAdd tx =>
    show (pool.validateAndAddTransaction env tx blockchain).2.Sound _ ↔ _
    by_cases hadded : (pool.validateAndAddTransaction env tx blockchain).1 = .ok true
    · obtain ⟨hnew, hvalid, hpool⟩ := validateAndAddTransaction_added hadded
      rw [hpool, sound_insert_iff hsound hnew hvalid]
      constructor
      · rintro h tx ⟨⟩ -
        exact h
      · intro h
        exact h tx rfl hadded
    · rw [validateAndAddTransaction_kept hadded]
      refine iff_of_true hsound ?_
      rintro tx ⟨⟩ h
      exact absurd h hadded

/-- The pool is sound all along a run exactly if every transaction that a call adds
names pairwise distinct outputs and has outputs in range. -/
theorem run_sound_iff (calls : List Call) :
    (∀ front, front <+: calls → (run env blockchain front).Sound blockchain.utxoSet) ↔
      ∀ front call, front ++ [call] <+: calls →
        AddsSoundly env blockchain call (run env blockchain front) :=
  Prefixes.foldl_always_iff (step env blockchain) (fun _ => True)
    (Sound blockchain.utxoSet) (AddsSoundly env blockchain) trivial (fun _ _ _ => trivial)
    (sound_new blockchain.utxoSet)
    (fun _ call _ hsound => sound_step_iff env blockchain hsound call) calls

/-- A platform on which transactions have some length. -/
def shortTransactions : Platform :=
  { Platform.blank with serializeTransaction := fun _ => [0] }

/-- One output of 1000 is named by two inputs, which pays for an output of 900 and a
fee of 1100. -/
theorem run_not_sound_twice :
    ¬ (run shortTransactions Blockchain.oneOutputChain
      [.validateAndAdd
        (UtxoSet.spend [⟨.replicate 32 1, 0⟩, ⟨.replicate 32 1, 0⟩] [900] 1100)]).Sound
        UtxoSet.oneOutput := by
  intro hsound
  have hunshared := hsound.unshared
  revert hunshared
  decide

end

end RustyCoin.Mempool
