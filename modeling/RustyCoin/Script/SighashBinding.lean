import RustyCoin.Script.Concatenation
import RustyCoin.Types.Counting

/-!
# What a signature binds

`calculate_sighash` rebuilds the transaction before it is hashed. A `standard` and a
`coinbase` transaction keep their format; of the other kinds only the inputs and
the outputs are left, as a `standard` transaction of version one without a lock
time. With an ideal hash and a serialization that loses nothing, the digest binds
the rebuilt transaction, and a transaction is bound exactly when no transaction of
another kind is rebuilt the same way.
-/

namespace RustyCoin

/-- The kind of a transaction, with what this kind holds besides the inputs, the
outputs, the lock time, the fee and the signatures. -/
inductive Payload where
  | standard
  | coinbase
  | masternodeRegister (masternodeIdentity : MasternodeIdentity)
  | masternodeCollateral (masternodeIdentity : MasternodeIdentity) (collateralAmount : UInt64)
  | governanceProposal (contents : GovernanceProposal)
  | governanceVote (contents : GovernanceVote)
  | activateProposal (proposalId : Hash) (activationBlockHeight : UInt64)
      (approvalProof : ApprovalProof)
  | ticketPurchase (ticketId : Hash) (lockedAmount : UInt64) (ticketAddress : Bytes)
  | ticketRedemption (ticketId : Hash)
  | masternodeSlashTx (masternodeId : MasternodeID) (reason : SlashingReason) (proof : Bytes)
  | ticketSlashNonParticipation (ticketId : Hash) (proof : TicketNonParticipationProof)
  | ticketSlashMalicious (ticketId : Hash) (proof : TicketMaliciousProof)
  deriving DecidableEq

/-- A proposal without the parts that pay for it and sign it. -/
def GovernanceProposal.contents (proposal : GovernanceProposal) : GovernanceProposal :=
  { proposal with
    proposerSignature := .replicate 64 0
    inputs := [], outputs := [], lockTime := 0, witness := [], fee := 0 }

/-- A vote without the parts that pay for it and sign it. -/
def GovernanceVote.contents (vote : GovernanceVote) : GovernanceVote :=
  { vote with
    voterSignature := .replicate 64 0
    inputs := [], outputs := [], lockTime := 0, witness := [], fee := 0 }

namespace Transaction

def payload : Transaction → Payload
  | .standard .. => .standard
  | .coinbase .. => .coinbase
  | .masternodeRegister masternodeIdentity _ _ _ _ _ => .masternodeRegister masternodeIdentity
  | .masternodeCollateral _ _ _ masternodeIdentity collateralAmount _ _ =>
    .masternodeCollateral masternodeIdentity collateralAmount
  | .governanceProposal proposal => .governanceProposal proposal.contents
  | .governanceVote vote => .governanceVote vote.contents
  | .activateProposal _ proposalId activationBlockHeight approvalProof _ _ _ _ _ =>
    .activateProposal proposalId activationBlockHeight approvalProof
  | .ticketPurchase _ _ _ ticketId lockedAmount _ _ ticketAddress _ =>
    .ticketPurchase ticketId lockedAmount ticketAddress
  | .ticketRedemption _ _ _ ticketId _ _ _ => .ticketRedemption ticketId
  | .masternodeSlashTx tx => .masternodeSlashTx tx.masternodeId tx.reason tx.proof
  | .ticketSlashNonParticipation _ _ _ ticketId proof _ _ _ =>
    .ticketSlashNonParticipation ticketId proof
  | .ticketSlashMalicious _ _ _ ticketId proof _ _ _ => .ticketSlashMalicious ticketId proof

variable (tx : Transaction)

/-- The outpoints that a transaction spends, with their sequence numbers. -/
def spentSequences : List (OutPoint × UInt32) :=
  tx.getInputs.map fun input => (input.previousOutput, input.sequence)

/-- The two transactions are of one kind, do the same, and spend the same. -/
structure SameSpend (tx tx' : Transaction) : Prop where
  payload : tx.payload = tx'.payload
  outputs : tx.getOutputs = tx'.getOutputs
  lockTime : tx.getLockTime = tx'.getLockTime
  spent : tx.spentSequences = tx'.spentSequences

/-- No other kind is rebuilt like this transaction. -/
def signedAsItself : Transaction → Bool
  | .standard version _ _ lockTime _ _ => version != 1 || lockTime != 0
  | .coinbase .. => true
  | _ => false

/-- A transaction of another kind with the same inputs and outputs. -/
def lookalike : Transaction :=
  match tx with
  | .standard _ inputs outputs _ _ _ =>
    .ticketRedemption 1 inputs outputs (.replicate 32 0) 0 0 []
  | tx => .standard 1 tx.getInputs tx.getOutputs 0 0 []

theorem payload_lookalike : tx.payload ≠ tx.lookalike.payload := by
  cases tx
  all_goals
    intro h
    cases h

@[simp] theorem getInputs_lookalike : tx.lookalike.getInputs = tx.getInputs := by
  cases tx
  all_goals rfl

end Transaction

namespace ScriptEngine

open Outcome

/-- `calculate_sighash` with any hash and any serialization. -/
def sighashWith {D : Type} (hash : Bytes → D) (serialize : Transaction → Bytes)
    (tx : Transaction) (inputIndex : Nat) (scriptPubkey : Bytes) : ScriptResult D :=
  if inputIndex ≥ tx.getInputs.length then fail .verificationFailed
  else
    let inputs := sighashInputs inputIndex scriptPubkey 0 tx.getInputs
    .ok (hash (serialize (sighashTx tx inputs) ++ leBytes 4 1))

theorem calculateSighash_eq_sighashWith (env : Platform) :
    calculateSighash env = sighashWith env.blake3 env.serializeTransaction := rfl

variable {inputIndex : Nat} {scriptPubkey : Bytes} {tx tx' : Transaction}
  {inputs inputs' : List TxInput}

theorem spent_sighashInputs (inputIndex : Nat) (scriptPubkey : Bytes) (i : Nat)
    (inputs : List TxInput) :
    (sighashInputs inputIndex scriptPubkey i inputs).map
        (fun input => (input.previousOutput, input.sequence)) =
      inputs.map fun input => (input.previousOutput, input.sequence) := by
  induction inputs generalizing i with
  | nil => rfl
  | cons input inputs ih => exact congrArg (_ :: ·) (ih (i + 1))

/-- What is rebuilt as another kind is rebuilt in one format. -/
theorem sighashTx_of_not_itself (h : tx.signedAsItself = false) (inputs : List TxInput) :
    sighashTx tx inputs = .standard 1 inputs tx.getOutputs 0 0 [] := by
  cases tx
  case standard version _ outputs lockTime fee witness =>
    simp only [Transaction.signedAsItself, Bool.or_eq_false_iff, bne_eq_false_iff_eq] at h
    obtain ⟨rfl, rfl⟩ := h
    rfl
  case coinbase => cases h
  all_goals rfl

@[simp] theorem sighashTx_lookalike (tx : Transaction) (inputs : List TxInput) :
    sighashTx tx.lookalike inputs = .standard 1 inputs tx.getOutputs 0 0 [] := by
  cases tx
  all_goals rfl

/-- A transaction in its own format is rebuilt with its kind, outputs and lock time. -/
theorem same_of_sighashTx (hself : tx.signedAsItself = true)
    (h : sighashTx tx inputs = sighashTx tx' inputs') :
    tx.payload = tx'.payload ∧ tx.getOutputs = tx'.getOutputs ∧
      tx.getLockTime = tx'.getLockTime ∧ inputs = inputs' := by
  cases hself' : tx'.signedAsItself with
  | false =>
    rw [sighashTx_of_not_itself hself'] at h
    cases tx
    case standard =>
      cases h
      cases hself
    case coinbase => cases h
    all_goals cases hself
  | true =>
    cases tx
    case standard =>
      cases tx'
      case standard =>
        cases h
        exact ⟨rfl, rfl, rfl, rfl⟩
      case coinbase => cases h
      all_goals cases hself'
    case coinbase =>
      cases tx'
      case coinbase =>
        cases h
        exact ⟨rfl, rfl, rfl, rfl⟩
      case standard => cases h
      all_goals cases hself'
    all_goals cases hself

section

variable {D : Type} (hash : Bytes → D) (serialize : Transaction → Bytes)

/-- A transaction with the same digest, for whatever input of it, does the same. -/
def SighashBinds (tx : Transaction) (inputIndex : Nat) (scriptPubkey : Bytes) : Prop :=
  ∀ tx' inputIndex' scriptPubkey' digest,
    sighashWith hash serialize tx inputIndex scriptPubkey = .ok digest →
      sighashWith hash serialize tx' inputIndex' scriptPubkey' = .ok digest → tx.SameSpend tx'

variable {hash serialize} {tx tx' : Transaction} {inputIndex inputIndex' : Nat}
  {scriptPubkey scriptPubkey' : Bytes} {digest : D}

theorem sighashWith_of_lt (hlt : inputIndex < tx.getInputs.length) (scriptPubkey : Bytes) :
    sighashWith hash serialize tx inputIndex scriptPubkey =
      .ok (hash (serialize (sighashTx tx (sighashInputs inputIndex scriptPubkey 0 tx.getInputs)) ++
        leBytes 4 1)) :=
  if_neg (Nat.not_le.mpr hlt)

theorem sighashWith_eq_ok (h : sighashWith hash serialize tx inputIndex scriptPubkey = .ok digest) :
    inputIndex < tx.getInputs.length ∧
      hash (serialize (sighashTx tx (sighashInputs inputIndex scriptPubkey 0 tx.getInputs)) ++
        leBytes 4 1) = digest := by
  obtain ⟨hlt, hdigest⟩ := ite_fail_eq_ok.mp h
  exact ⟨Nat.not_le.mp hlt, Except.ok.inj hdigest⟩

theorem sighash_binds_of_itself (hhash : Function.Injective hash)
    (hserialize : Function.Injective serialize) (hself : tx.signedAsItself = true)
    (inputIndex : Nat) (scriptPubkey : Bytes) :
    SighashBinds hash serialize tx inputIndex scriptPubkey := by
  intro tx' inputIndex' scriptPubkey' digest h h'
  obtain ⟨-, hdigest⟩ := sighashWith_eq_ok h
  obtain ⟨-, hdigest'⟩ := sighashWith_eq_ok h'
  have hrebuilt := hserialize (List.append_cancel_right (hhash (hdigest.trans hdigest'.symm)))
  obtain ⟨hpayload, houtputs, hlockTime, hinputs⟩ := same_of_sighashTx hself hrebuilt
  refine ⟨hpayload, houtputs, hlockTime, ?_⟩
  have hspent := congrArg (List.map fun input => (input.previousOutput, input.sequence)) hinputs
  rwa [spent_sighashInputs, spent_sighashInputs] at hspent

/-- A transaction that is not signed in its own format shares its digest. -/
theorem sighash_lookalike (hash : Bytes → D) (serialize : Transaction → Bytes)
    (hself : tx.signedAsItself = false) (inputIndex : Nat) (scriptPubkey : Bytes) :
    sighashWith hash serialize tx.lookalike inputIndex scriptPubkey =
      sighashWith hash serialize tx inputIndex scriptPubkey := by
  simp only [sighashWith, Transaction.getInputs_lookalike, sighashTx_lookalike,
    sighashTx_of_not_itself hself]

/-- The digest of an input binds the kind, the contents and the spending of its
transaction exactly when the transaction is signed in a format of its own. -/
theorem sighash_binds_iff (hhash : Function.Injective hash)
    (hserialize : Function.Injective serialize) (tx : Transaction) (inputIndex : Nat)
    (scriptPubkey : Bytes) :
    SighashBinds hash serialize tx inputIndex scriptPubkey ↔
      tx.getInputs.length ≤ inputIndex ∨ tx.signedAsItself = true := by
  constructor
  · intro hbinds
    by_contra hnot
    obtain ⟨hlt, hself⟩ := not_or.mp hnot
    have hlookalike := sighash_lookalike hash serialize (Bool.eq_false_iff.mpr hself) inputIndex
      scriptPubkey
    rw [sighashWith_of_lt (Nat.not_le.mp hlt)] at hlookalike
    have hsame := hbinds tx.lookalike inputIndex scriptPubkey _
      (sighashWith_of_lt (Nat.not_le.mp hlt) scriptPubkey) hlookalike
    exact tx.payload_lookalike hsame.payload
  · rintro (hle | hself)
    · intro tx' inputIndex' scriptPubkey' digest h
      obtain ⟨hlt, -⟩ := sighashWith_eq_ok h
      omega
    · exact sighash_binds_of_itself hhash hserialize hself inputIndex scriptPubkey

end

/-- A purchase of a ticket, by the input of `spendTx`. -/
def purchase (ticketId : Hash) (lockedAmount : UInt64) : Transaction :=
  .ticketPurchase 1 [spendInput []] [] ticketId lockedAmount 0 0 [] []

/-- With the identity for a hash and codes for a serialization, a transfer of version
two is bound. -/
theorem sighash_binds_iff_codes :
    Function.Injective (id : Bytes → Bytes) ∧
      Function.Injective (countingCode : Transaction → Bytes) ∧
      SighashBinds (id : Bytes → Bytes) countingCode (.standard 2 [spendInput []] [] 0 0 []) 0 [] :=
  ⟨Function.injective_id, countingCode_injective,
    (sighash_binds_iff Function.injective_id countingCode_injective _ 0 []).mpr (.inr rfl)⟩

/-- One signature is good for purchases of two tickets with two amounts, and for a
transfer of the same inputs. -/
theorem sighash_shared :
    sighashWith (id : Bytes → Bytes) countingCode (purchase (.replicate 32 1) 100) 0 [] =
        sighashWith id countingCode (purchase (.replicate 32 2) 1) 0 [] ∧
      sighashWith (id : Bytes → Bytes) countingCode (purchase (.replicate 32 1) 100) 0 [] =
        sighashWith id countingCode (spendTx []) 0 [] ∧
      (∃ digest, sighashWith (id : Bytes → Bytes) countingCode
        (purchase (.replicate 32 1) 100) 0 [] = .ok digest) ∧
      (purchase (.replicate 32 1) 100).payload ≠ (purchase (.replicate 32 2) 1).payload ∧
      (purchase (.replicate 32 1) 100).payload ≠ (spendTx []).payload :=
  ⟨rfl, rfl, ⟨_, rfl⟩, by decide, by decide⟩

end ScriptEngine

end RustyCoin
