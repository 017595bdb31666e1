import RustyCoin.Consensus.Blockchain
import RustyCoin.Lib.WrappingSum

/-!
# Slashing transactions

A slashing transaction is locked until a week after the height it is made at.
`validate_slashing_transaction` wants the lock time to lie ahead and the chain wants it
to be over, so that both can only be content when the chain takes the number for a
time.
-/

namespace RustyCoin.RustyMasternode

open Outcome WrappingSum UInt64

inductive SlashingError where
  | invalidProof (message : String)

inductive SlashingReason where
  | masternodeNonResponse
  | doubleSigning
  | invalidBlockProposal
  | invalidTransaction
  | governanceViolation
  | doubleSpend
  deriving DecidableEq

def maxSlashingProofSize : Nat := 4096

def slashingCooldownBlocks : UInt64 := 10080

def burnScript : Bytes := [0x6a, 0x04, 0x72, 0x75, 0x73, 0x74]

def createBurnOutput (amount : UInt64) : TxOutput := ⟨amount, burnScript, none⟩

namespace SlashingReason

/-- In percent. -/
def slashPercentage : SlashingReason → Nat
  | masternodeNonResponse => 5
  | doubleSigning | invalidBlockProposal | invalidTransaction | governanceViolation
  | doubleSpend => 100

def shared : SlashingReason → RustyCoin.SlashingReason
  | masternodeNonResponse => .masternodeNonResponse
  | doubleSigning => .doubleSigning
  | invalidBlockProposal => .invalidBlockProposal
  | invalidTransaction => .invalidTransaction
  | governanceViolation => .governanceViolation
  | doubleSpend => .doubleSigning

end SlashingReason

variable (masternodeId : MasternodeID) (reason : SlashingReason) (proofData : Bytes)
  (collateralInput : TxInput) (collateralValue : UInt64) (scriptPubkey : Bytes)
  (blockHeight : UInt64)

def slashedAmount : UInt64 :=
  UInt64.ofNat (collateralValue.toNat * reason.slashPercentage / 100)

/-- What is not burned goes back only after missing responses. -/
def slashingOutputs : List TxOutput :=
  let slashedAmount := slashedAmount reason collateralValue
  let remaining := saturatingSub collateralValue slashedAmount
  createBurnOutput slashedAmount ::
    if 0 < remaining ∧ reason = .masternodeNonResponse then [⟨remaining, scriptPubkey, none⟩]
    else []

def slashingTransaction : MasternodeSlashTx where
  version := 1
  inputs := [collateralInput]
  outputs := slashingOutputs reason collateralValue scriptPubkey
  masternodeId
  reason := reason.shared
  proof := proofData
  lockTime := (blockHeight + slashingCooldownBlocks).toUInt32
  fee := 0
  witness := []

def createSlashingTransaction : Outcome SlashingError Transaction :=
  if proofData.length > maxSlashingProofSize then fail (.invalidProof "Proof data too large")
  else .ok (.masternodeSlashTx (slashingTransaction masternodeId reason proofData collateralInput
    collateralValue scriptPubkey blockHeight))

variable (slashTx : MasternodeSlashTx)

def validateSlashingTransaction (currentHeight : UInt64) : Outcome SlashingError Unit :=
  if slashTx.proof.length > maxSlashingProofSize then fail (.invalidProof "Proof data too large")
  else if slashTx.lockTime.toUInt64 ≤ currentHeight then fail (.invalidProof "Invalid lock time")
  else if slashTx.inputs.length ≠ 1 then
    fail (.invalidProof "Slashing transaction must have exactly one input")
  else match slashTx.outputs with
    | [] => fail (.invalidProof "Slashing transaction must have at least one output")
    | firstOutput :: _ =>
      if firstOutput.scriptPubkey ≠ burnScript then
        fail (.invalidProof "First output must be a burn output")
      else .ok ()

/-- Nothing of the collateral is lost, and at some height both rules are met. -/
def CanTakeEffect (now : UInt64) (tx : Transaction) : Prop :=
  exact tx.outputValues = collateralValue.toNat ∧
    ∃ slashTx, tx = .masternodeSlashTx slashTx ∧
      ∃ height, validateSlashingTransaction slashTx height = .ok () ∧
        Blockchain.validateLockTime tx height now = .ok ()

theorem exact_slashingOutputs :
    exact ((slashingOutputs reason collateralValue scriptPubkey).map TxOutput.value) =
      collateralValue.toNat := by
  have hslashed : (slashedAmount reason collateralValue).toNat =
      collateralValue.toNat * reason.slashPercentage / 100 := by
    have hlt := collateralValue.toNat_lt
    have hpercentage : reason.slashPercentage ≤ 100 := by cases reason <;> decide
    apply Nat.mod_eq_of_lt
    have := Nat.mul_le_mul_left collateralValue.toNat hpercentage
    omega
  have hremaining := toNat_saturatingSub collateralValue (slashedAmount reason collateralValue)
  simp only [slashingOutputs, lt_iff_toNat_lt, hremaining, UInt64.toNat_zero]
  split
  case isTrue hpaid =>
    change (slashedAmount reason collateralValue).toNat + ((saturatingSub _ _).toNat + 0) = _
    omega
  case isFalse hall =>
    change (slashedAmount reason collateralValue).toNat + 0 = _
    cases reason <;> simp [SlashingReason.slashPercentage] at hslashed hall <;> omega

variable {masternodeId reason proofData collateralInput collateralValue scriptPubkey blockHeight}

/-- The two rules contradict each other unless the lock time is read as a time. -/
theorem exists_height_iff {now : UInt64} {burned : TxOutput}
    {outputs : List TxOutput} (hproof : slashTx.proof.length ≤ maxSlashingProofSize)
    (hinputs : slashTx.inputs.length = 1) (houtputs : slashTx.outputs = burned :: outputs)
    (hburned : burned.scriptPubkey = burnScript) :
    (∃ height, validateSlashingTransaction slashTx height = .ok () ∧
      Blockchain.validateLockTime (.masternodeSlashTx slashTx) height now = .ok ()) ↔
      500000000 ≤ slashTx.lockTime.toNat ∧ slashTx.lockTime.toNat ≤ now.toNat % 2 ^ 32 := by
  have hahead (height : UInt64) : validateSlashingTransaction slashTx height = .ok () ↔
      height.toNat < slashTx.lockTime.toNat := by
    simp only [validateSlashingTransaction, houtputs, ite_fail_eq_ok]
    simp [hproof, hinputs, hburned, lt_iff_toNat_lt]
  have hover (height : UInt64) :
      Blockchain.validateLockTime (.masternodeSlashTx slashTx) height now = .ok () ↔
        if slashTx.lockTime.toNat < 500000000 then slashTx.lockTime.toNat ≤ height.toNat % 2 ^ 32
        else slashTx.lockTime.toNat ≤ now.toNat % 2 ^ 32 := by
    have hthreshold : slashTx.lockTime < locktimeThreshold ↔ slashTx.lockTime.toNat < 500000000 :=
      UInt32.lt_iff_toNat_lt
    simp only [Blockchain.validateLockTime, Transaction.getLockTime, hthreshold]
    split <;> simp [UInt32.le_iff_toNat_le]
  simp only [hahead, hover]
  constructor
  · rintro ⟨height, hlt, hlock⟩
    split at hlock <;> omega
  · rintro ⟨hge, hle⟩
    refine ⟨0, Nat.lt_of_lt_of_le (by decide) hge, ?_⟩
    rwa [if_neg (Nat.not_lt_of_le hge)]

/-- A height of the cooldown's end that the chain takes for a time has to lie in the past. -/
theorem canTakeEffect_iff {now : UInt64} {tx : Transaction} (hheight : blockHeight.toNat < 2 ^ 31)
    (hok : createSlashingTransaction masternodeId reason proofData collateralInput collateralValue
      scriptPubkey blockHeight = .ok tx) :
    CanTakeEffect collateralValue now tx ↔
      500000000 ≤ blockHeight.toNat + 10080 ∧ blockHeight.toNat + 10080 ≤ now.toNat % 2 ^ 32 := by
  obtain ⟨hproof, hcreated⟩ := ite_fail_eq_ok.mp hok
  cases hcreated
  have hlock : (blockHeight + slashingCooldownBlocks).toUInt32.toNat =
      blockHeight.toNat + 10080 := by
    have hcooldown : slashingCooldownBlocks.toNat = 10080 := rfl
    rw [toNat_toUInt32, UInt64.toNat_add, hcooldown]
    omega
  rw [← hlock]
  refine Iff.trans ?_ (exists_height_iff (slashingTransaction masternodeId reason proofData
    collateralInput collateralValue scriptPubkey blockHeight) (Nat.le_of_not_lt hproof) rfl rfl rfl)
  constructor
  · rintro ⟨-, _, ⟨⟩, hheight⟩
    exact hheight
  · intro hheight
    exact ⟨exact_slashingOutputs reason collateralValue scriptPubkey, _, rfl, hheight⟩

/-- What a double spend makes of a collateral of thousand. -/
def slashedAt (blockHeight : UInt64) : MasternodeSlashTx :=
  let zero : Hash := .replicate 32 0
  slashingTransaction ⟨zero, 0⟩ .doubleSpend [] ⟨zero, 0, ⟨zero, 0⟩, [], 0, []⟩ 1000 [] blockHeight

theorem canTakeEffect_as_time :
    CanTakeEffect 1000 500000000 (.masternodeSlashTx (slashedAt 499989920)) := by
  apply (canTakeEffect_iff ?_ (if_neg (by decide))).mpr <;> decide

/-- At no time does the chain take the transaction of the first block. -/
theorem slashing_of_genesis_fails :
    ¬ ∃ now, CanTakeEffect 1000 now (.masternodeSlashTx (slashedAt 0)) := by
  rintro ⟨now, -, _, ⟨⟩, hrules⟩
  have hge := ((exists_height_iff (slashedAt 0) (by decide) rfl rfl rfl).mp hrules).1
  exact absurd hge (by decide)

end RustyCoin.RustyMasternode
