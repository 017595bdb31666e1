import RustyCoin.Consensus.UtxoSet
import RustyCoin.Lib.WrappingSum

/-!
# What the validation against the unspent outputs ensures

Each loop of `validate_transaction_comprehensive` has a specification: when it
runs through, and which sum it then returns. Together they say when the
validation accepts a transaction. The sums are sums of machine integers, so an
accepted transaction is covered by its inputs only up to multiples of `2 ^ 64`.
-/

namespace RustyCoin.UtxoSet

open WrappingSum List

theorem le_saturatingSub_iff {a b c : UInt64} (h : c ≠ 0) :
    c ≤ saturatingSub a b ↔ b.toNat + c.toNat ≤ a.toNat := by
  have hc : c.toNat ≠ 0 := fun h0 => h (UInt64.toNat_inj.mp h0)
  rw [UInt64.le_iff_toNat_le, toNat_saturatingSub]
  omega

variable (self : UtxoSet) (tx : Transaction) (currentHeight : UInt64) (coinbaseMaturity : UInt32)

/-- An output that the input loop passes over without returning. -/
def Passes (outpoint : OutPoint) : Prop :=
  ∃ utxo, self.getUtxo outpoint = some utxo ∧
    maturityCheck currentHeight coinbaseMaturity utxo = true ∧
    lockTimeCheck tx currentHeight = true

/-- Avoiding one more outpoint. -/
theorem avoids_cons_iff (outpoint : OutPoint) (spent : List OutPoint) (inputs : List TxInput) :
    (∀ input ∈ inputs, input.previousOutput ∉ outpoint :: spent) ↔
      outpoint ∉ inputs.map TxInput.previousOutput ∧
        ∀ input ∈ inputs, input.previousOutput ∉ spent := by
  simp only [mem_cons, not_or, mem_map, not_exists, not_and]
  exact forall₂_and

/-- The loop runs through when no outpoint repeats and every output passes. -/
theorem inputLoop_eq_some_iff (inputs : List TxInput) (spent : List OutPoint)
    (start total : UInt64) :
    self.inputLoop tx currentHeight coinbaseMaturity inputs spent start = some total ↔
      (∀ input ∈ inputs, input.previousOutput ∉ spent) ∧
      (inputs.map TxInput.previousOutput).Nodup ∧
      (∀ input ∈ inputs, self.Passes tx currentHeight coinbaseMaturity input.previousOutput) ∧
      (self.inputValues inputs).foldl (· + ·) start = total := by
  induction inputs generalizing spent start with
  | nil => simp [inputLoop, inputValues]
  | cons input inputs ih =>
    rw [inputLoop, map_cons, nodup_cons]
    simp only [forall_mem_cons]
    split
    · rename_i hspent
      simp [hspent]
    · rename_i hspent
      cases hutxo : self.getUtxo input.previousOutput with
      | none => simp [Passes, hutxo]
      | some utxo =>
        have hpasses : self.Passes tx currentHeight coinbaseMaturity input.previousOutput ↔
            maturityCheck currentHeight coinbaseMaturity utxo = true ∧
              lockTimeCheck tx currentHeight = true := by
          simp [Passes, hutxo]
        have hvalues : self.inputValues (input :: inputs) =
            utxo.output.value :: self.inputValues inputs := by
          simp [inputValues, hutxo]
        rw [hpasses, hvalues, foldl_cons]
        dsimp only
        split
        · rename_i hchecks
          rw [Bool.and_eq_true] at hchecks
          rw [ih, avoids_cons_iff]
          tauto
        · rename_i hchecks
          rw [Bool.and_eq_true] at hchecks
          simp [hchecks]

theorem outputLoop_eq_some_iff (dustLimit : UInt64) (outputs : List TxOutput)
    (start total : UInt64) :
    outputLoop dustLimit outputs start = some total ↔
      (∀ output ∈ outputs, dustLimit ≤ output.value) ∧
      (outputs.map TxOutput.value).foldl (· + ·) start = total := by
  induction outputs generalizing start with
  | nil => simp [outputLoop]
  | cons output outputs ih =>
    rw [outputLoop, forall_mem_cons, map_cons, foldl_cons]
    split
    · rename_i hdust
      have hnot : ¬ dustLimit ≤ output.value := UInt64.not_le.mpr hdust
      simp [hnot]
    · rename_i hdust
      have hle : dustLimit ≤ output.value := UInt64.not_lt.mp hdust
      rw [ih]
      simp [hle]

/-- When the validation accepts a transaction. -/
theorem validateTransactionComprehensive_iff (dustLimit : UInt64) :
    self.validateTransactionComprehensive tx currentHeight coinbaseMaturity dustLimit = true ↔
      (tx.getInputs.map TxInput.previousOutput).Nodup ∧
      (∀ input ∈ tx.getInputs, self.Passes tx currentHeight coinbaseMaturity input.previousOutput) ∧
      (∀ output ∈ tx.getOutputs, dustLimit ≤ output.value) ∧
      (exact tx.outputValues + tx.getFee.toNat) % 2 ^ 64 ≤
        exact (self.inputValues tx.getInputs) % 2 ^ 64 := by
  have hin := self.inputLoop_eq_some_iff tx currentHeight coinbaseMaturity tx.getInputs [] 0
  have hout := outputLoop_eq_some_iff dustLimit tx.getOutputs 0
  simp only [not_mem_nil, not_false_eq_true, implies_true, true_and] at hin
  have hsum : ((self.inputValues tx.getInputs).foldl (· + ·) 0 ≥
        (tx.getOutputs.map TxOutput.value).foldl (· + ·) 0 + tx.getFee) ↔
      (exact tx.outputValues + tx.getFee.toNat) % 2 ^ 64 ≤
        exact (self.inputValues tx.getInputs) % 2 ^ 64 :=
    foldl_add_le_iff _ _ _
  unfold validateTransactionComprehensive
  cases hinputs : self.inputLoop tx currentHeight coinbaseMaturity tx.getInputs [] 0 with
  | none =>
    have hnot := (hin _).not.mp (by rw [hinputs]; nofun :
      self.inputLoop tx currentHeight coinbaseMaturity tx.getInputs [] 0 ≠
        some ((self.inputValues tx.getInputs).foldl (· + ·) 0))
    simp only [Bool.false_eq_true, false_iff]
    tauto
  | some totalInput =>
    obtain ⟨hnodup, hpasses, rfl⟩ := (hin totalInput).mp hinputs
    cases houtputs : outputLoop dustLimit tx.getOutputs 0 with
    | none =>
      have hnot := (hout _).not.mp (by rw [houtputs]; nofun :
        outputLoop dustLimit tx.getOutputs 0 ≠
          some ((tx.getOutputs.map TxOutput.value).foldl (· + ·) 0))
      simp only [Bool.false_eq_true, false_iff]
      tauto
    | some totalOutput =>
      obtain ⟨hdust, rfl⟩ := (hout totalOutput).mp houtputs
      rw [decide_eq_true_iff, hsum]
      tauto

section

variable (set : UtxoSet) (tx : Transaction) (currentHeight : UInt64) (coinbaseMaturity : UInt32)

/-- The coinbase outputs among the spent ones are at least `age` blocks old. -/
def CoinbaseAge (age : Nat) : Prop :=
  ∀ input ∈ tx.getInputs, ∀ utxo, set.getUtxo input.previousOutput = some utxo →
    utxo.isCoinbase = true → utxo.creationHeight.toNat + age ≤ currentHeight.toNat

/-- What an accepted transaction is meant to satisfy, in exact integers. -/
structure ValidSpend : Prop where
  distinct : (tx.getInputs.map TxInput.previousOutput).Nodup
  present : ∀ input ∈ tx.getInputs, (set.getUtxo input.previousOutput).isSome
  mature : currentHeight ≠ maxHeight → set.CoinbaseAge tx currentHeight coinbaseMaturity.toNat
  covered : exact tx.outputValues + tx.getFee.toNat ≤ exact (set.inputValues tx.getInputs)

/-- The outputs and the fee wrap around at most as often as the inputs. -/
def WrapsWithin : Prop :=
  (exact tx.outputValues + tx.getFee.toNat) / 2 ^ 64 ≤ exact (set.inputValues tx.getInputs) / 2 ^ 64

/-- Without a maturity the saturating subtraction accepts every height. -/
theorem maturityCheck_iff (utxo : Utxo) :
    maturityCheck currentHeight coinbaseMaturity utxo = true ↔
      (coinbaseMaturity ≠ 0 → currentHeight ≠ maxHeight → utxo.isCoinbase = true →
        utxo.creationHeight.toNat + coinbaseMaturity.toNat ≤ currentHeight.toNat) := by
  have hage : coinbaseMaturity ≠ 0 →
      (coinbaseMaturity.toUInt64 ≤ saturatingSub currentHeight utxo.creationHeight ↔
        utxo.creationHeight.toNat + coinbaseMaturity.toNat ≤ currentHeight.toNat) := by
    intro hne
    have hne' : coinbaseMaturity.toUInt64 ≠ 0 := by
      intro h0
      have := congrArg UInt64.toNat h0
      rw [UInt32.toNat_toUInt64] at this
      exact hne (UInt32.toNat_inj.mp this)
    rw [le_saturatingSub_iff hne', UInt32.toNat_toUInt64]
  simp only [maturityCheck, Bool.not_eq_true', Bool.and_eq_false_iff, bne_eq_false_iff_eq,
    decide_eq_false_iff_not, UInt64.not_lt]
  by_cases hne : coinbaseMaturity = 0
  · subst hne
    simp
  · rw [hage hne]
    cases utxo.isCoinbase with
    | false => simp
    | true =>
      simp only [Bool.true_eq_false, false_or, ne_eq, hne, not_false_eq_true, true_implies]
      tauto

theorem mature_of_passes (hpasses : ∀ input ∈ tx.getInputs,
      set.Passes tx currentHeight coinbaseMaturity input.previousOutput)
    (hmaturity : coinbaseMaturity ≠ 0) (hheight : currentHeight ≠ maxHeight) :
    set.CoinbaseAge tx currentHeight coinbaseMaturity.toNat := by
  intro input hmem utxo hutxo hcoinbase
  obtain ⟨utxo', hutxo', hmature, _⟩ := hpasses input hmem
  obtain rfl : utxo' = utxo := Option.some.inj (hutxo'.symm.trans hutxo)
  exact (maturityCheck_iff _ _ _).mp hmature hmaturity hheight hcoinbase

/-- What the validation accepts is a valid spend exactly when its sums do not
wrap around apart and, with maturity zero, no spent coinbase output comes from
above the current height. -/
theorem validateTransactionComprehensive_sound_iff (dustLimit : UInt64) (haccepted :
      set.validateTransactionComprehensive tx currentHeight coinbaseMaturity dustLimit = true) :
    set.ValidSpend tx currentHeight coinbaseMaturity ↔
      set.WrapsWithin tx ∧
        (coinbaseMaturity = 0 → currentHeight ≠ maxHeight →
          set.CoinbaseAge tx currentHeight 0) := by
  obtain ⟨hnodup, hpasses, -, hsums⟩ :=
    (set.validateTransactionComprehensive_iff tx currentHeight coinbaseMaturity dustLimit).mp
      haccepted
  have hcovered := le_iff_of_mod_le hsums
  constructor
  · intro hvalid
    refine ⟨hcovered.mp hvalid.covered, fun hzero hheight => ?_⟩
    have hage := hvalid.mature hheight
    rwa [hzero] at hage
  · rintro ⟨hwraps, hfuture⟩
    refine ⟨hnodup, fun input hmem => ?_, fun hheight => ?_, hcovered.mpr hwraps⟩
    · obtain ⟨utxo, hutxo, -⟩ := hpasses input hmem
      rw [hutxo]
      rfl
    · by_cases hzero : coinbaseMaturity = 0
      · have hage := hfuture hzero hheight
        rwa [hzero]
      · exact set.mature_of_passes tx currentHeight coinbaseMaturity hpasses hzero hheight

end

/-- One unspent output of a thousand units that anyone can spend. -/
def oneOutput : UtxoSet :=
  new.addUtxo ⟨.replicate 32 1, 0⟩ ⟨⟨1000, [0x51], none⟩, false, 0⟩

/-- A plain transaction that spends the given outpoints. -/
def spend (outpoints : List OutPoint) (values : List UInt64) (fee : UInt64) : Transaction :=
  .standard 1 (outpoints.map fun o => .fromOutpoint o [] 0xFFFFFFFF [])
    (values.map fun value => ⟨value, [0x51], none⟩) 0 fee []

theorem validateTransactionComprehensive_sound_iff_oneOutput :
    oneOutput.validateTransactionComprehensive (spend [⟨.replicate 32 1, 0⟩] [900] 100)
        200 100 500 = true ∧
      oneOutput.ValidSpend (spend [⟨.replicate 32 1, 0⟩] [900] 100) 200 100 := by
  have haccepted : oneOutput.validateTransactionComprehensive
      (spend [⟨.replicate 32 1, 0⟩] [900] 100) 200 100 500 = true := by decide
  refine ⟨haccepted, (oneOutput.validateTransactionComprehensive_sound_iff _ _ _ _
    haccepted).mpr ⟨by rw [WrapsWithin]; decide, ?_⟩⟩
  intro hzero
  exact absurd hzero (by decide)

/-- The outputs of this transaction add up to `2 ^ 64 + 1000`. -/
theorem validateTransactionComprehensive_overspends :
    oneOutput.validateTransactionComprehensive
        (spend [⟨.replicate 32 1, 0⟩] [18446744073709551116, 1500] 0) 200 100 500 = true ∧
      ¬ oneOutput.ValidSpend
        (spend [⟨.replicate 32 1, 0⟩] [18446744073709551116, 1500] 0) 200 100 := by
  refine ⟨by decide, fun hvalid => ?_⟩
  have hcovered := hvalid.covered
  revert hcovered
  decide

end RustyCoin.UtxoSet
