import Mathlib.Algebra.Order.BigOperators.Group.List
import RustyCoin.Consensus.MerkleRoot
import RustyCoin.Sidechain.TransferRuns

/-!
# Validation of sidechain blocks and cross-chain proofs

`Valid` is a check that returns and `Invalid` one that fails with a reason; the
other results of a validation are never given. How a fraud proof is checked is a
parameter, `checkFraudProof`: nothing here depends on it.

Three things are left unlinked. A transaction's hash covers the signatures that
are made over it (`attached_accepted_iff`), the hash that a Merkle path leads to
is compared with nothing (`proofs_sound_iff`), and the federation signs a header
whose Merkle roots are not compared with the block (`commits_to_body_iff`).
-/

namespace RustyCoin.Sidechain

open Outcome List

structure ProofValidationConfig where
  minFederationSignatures : UInt32
  strictValidation : Bool
  maxMerkleDepth : UInt32

def ProofValidationConfig.default : ProofValidationConfig where
  minFederationSignatures := 2
  strictValidation := true
  maxMerkleDepth := 32

structure ValidationStats where
  totalValidations : UInt64
  successfulValidations : UInt64
  failedValidations : UInt64

structure SidechainProofValidator where
  config : ProofValidationConfig
  federationKeys : HashMap UInt64 (List Bytes)
  trustedHeaders : HashMap Hash BlockHeader
  validationStats : ValidationStats

namespace SidechainProofValidator

variable {K S : Type} (codec : SidechainCodec) (env : Platform) (crypto : ThresholdCrypto K S)
  (self : SidechainProofValidator)

/-- The bound on the timestamp wraps around. -/
def validateBlockHeader (now : UInt64) (header : SidechainBlockHeader.Full) :
    Outcome String Unit := do
  rejectIf (header.version = 0) "Invalid header version"
  rejectIf (header.height = 0 ∧ header.previousBlockHash ≠ .replicate 32 0)
    "Genesis block must have zero previous hash"
  rejectIf (header.height > 0 ∧ header.previousBlockHash = .replicate 32 0)
    "Non-genesis block must have valid previous hash"
  rejectIf (header.timestamp > now + 7200) "Block timestamp too far in future"
  rejectIf (header.mainchainAnchorHeight > 0 ∧ self.config.strictValidation ∧
      self.trustedHeaders.lookup header.mainchainAnchorHash = none)
    "Mainchain anchor not in trusted headers"

def validateVmExecution (vmData : VMExecutionData) : Outcome String Unit := do
  rejectIf (vmData.bytecode = []) "VM bytecode cannot be empty"
  rejectIf (vmData.gasLimit = 0) "Gas limit must be greater than zero"
  match vmData.vmType with
  | .evm => rejectIf (vmData.gasLimit > 30000000) "EVM gas limit too high"
  | .wasm => rejectIf (vmData.bytecode.length > 1000000) "WASM bytecode too large"

def validateSidechainTransaction (tx : SidechainTransaction) : Outcome String Unit := do
  rejectIf (tx.inputs = []) "Transaction must have inputs"
  rejectIf (tx.outputs = []) "Transaction must have outputs"
  forM tx.vmData.toList fun vmData =>
    (validateVmExecution vmData).mapErr ("VM execution validation failed: " ++ ·)

variable (proof : CrossChainProof)

/-- The hash that the Merkle path leads to. The sides alternate, whatever the index is. -/
def merklePath : Hash :=
  proof.merkleProof.zipIdx.foldl
    (fun current (proofHash, i) =>
      if i % 2 = 0 then Block.combine env current proofHash
      else Block.combine env proofHash current)
    (env.blake3 proof.transactionData)

/-- The hash is computed and then dropped. -/
def verifyMerkleProof : Outcome String Unit := do
  rejectIf (proof.merkleProof.length = 0) "Empty merkle proof"
  let _currentHash := merklePath env proof
  return ()

def validateCrossChainProof : Outcome String Unit := do
  rejectIf (proof.merkleProof = []) "Merkle proof cannot be empty"
  rejectIf (proof.merkleProof.length > self.config.maxMerkleDepth.toNat) "Merkle proof too deep"
  rejectIf (proof.blockHeader = []) "Block header cannot be empty"
  rejectIf (proof.transactionData = []) "Transaction data cannot be empty"
  (verifyMerkleProof env proof).mapErr ("Merkle proof verification failed: " ++ ·)

def validateFederationSignature (signature : FederationSignature) (messageHash : Hash) :
    Outcome String Unit := do
  rejectIf (signature.signature = []) "Signature cannot be empty"
  rejectIf (signature.signerBitmap = []) "Signer bitmap cannot be empty"
  rejectIf (signature.threshold = 0) "Threshold must be greater than zero"
  rejectIf (messageHash ≠ signature.messageHash) "Message hash mismatch"
  match self.federationKeys.lookup signature.epoch with
  | none =>
    rejectIf self.config.strictValidation
      ("No federation keys for epoch " ++ toString signature.epoch.toNat)
  | some publicKeys =>
    verifyFederationSignatureWithPublicKeys crypto publicKeys signature messageHash.toList
      self.config.minFederationSignatures

/-- The marked members of all signatures, added up in 32 bits. -/
def totalSigners (signatures : List FederationSignature) : UInt32 :=
  (signatures.map FederationSignature.countSigners).foldl (· + ·) 0

def validateCrossChainTransaction (tx : CrossChainTransaction.Full) : Outcome String Unit := do
  rejectIf (tx.amount = 0) "Cross-chain amount cannot be zero"
  rejectIf (tx.recipientAddress = []) "Recipient address cannot be empty"
  (self.validateCrossChainProof env tx.proof).mapErr ("Cross-chain proof validation failed: " ++ ·)
  rejectIf (tx.federationSignatures = []) "Cross-chain transaction must have federation signatures"
  forM tx.federationSignatures fun signature =>
    (self.validateFederationSignature crypto signature (tx.hash codec env)).mapErr
      ("Federation signature validation failed: " ++ ·)
  rejectIf (totalSigners tx.federationSignatures < self.config.minFederationSignatures)
    ("Insufficient federation signatures: " ++
      toString (totalSigners tx.federationSignatures).toNat ++ " < " ++
      toString self.config.minFederationSignatures.toNat)

/-- A check of each item, whose error names the item. -/
def checkEach {α : Type} (label : String) (check : Nat → α → Outcome String Unit)
    (items : List α) : Outcome String Unit :=
  forM items.zipIdx fun (item, i) =>
    (check i item).mapErr (label ++ " " ++ toString i ++ " validation failed: " ++ ·)

variable (checkFraudProof : UInt64 → FraudProof → Outcome String Unit) (now : UInt64)
  (later : Nat → UInt64) (block : SidechainBlock)

/-- The clock is read for the header and for each fraud proof. -/
def validateSidechainBlockInternal : Outcome String Unit := do
  (self.validateBlockHeader now block.header).mapErr ("Header validation failed: " ++ ·)
  checkEach "Transaction" (fun _ => validateSidechainTransaction) block.transactions
  checkEach "Cross-chain transaction"
    (fun _ => self.validateCrossChainTransaction codec env crypto)
    block.crossChainTransactions
  checkEach "Fraud proof" (fun i => checkFraudProof (later i)) block.fraudProofs
  match block.federationSignature with
  | some signature =>
    (self.validateFederationSignature crypto signature (block.header.hash codec env)).mapErr
      ("Federation signature validation failed: " ++ ·)
  | none => rejectIf self.config.strictValidation "Missing federation signature in strict mode"

/-- The validation is counted, whatever its result. -/
def validateSidechainBlock : Outcome String Unit × SidechainProofValidator :=
  let result :=
    self.validateSidechainBlockInternal codec env crypto checkFraudProof now later block
  let stats := { self.validationStats with
    totalValidations := self.validationStats.totalValidations + 1 }
  (result, { self with
    validationStats :=
      match result with
      | .ok _ => { stats with successfulValidations := stats.successfulValidations + 1 }
      | .error _ => { stats with failedValidations := stats.failedValidations + 1 } })

section

variable {K S : Type} {codec : SidechainCodec} {env : Platform} {crypto : ThresholdCrypto K S}
  {self : SidechainProofValidator}

theorem validateCrossChainProof_eq_ok {proof : CrossChainProof} :
    self.validateCrossChainProof env proof = .ok () ↔
      proof.merkleProof ≠ [] ∧ proof.merkleProof.length ≤ self.config.maxMerkleDepth.toNat ∧
        proof.blockHeader ≠ [] ∧ proof.transactionData ≠ [] := by
  simp only [validateCrossChainProof, verifyMerkleProof, then_eq_ok, rejectIf_eq_ok, mapErr_eq_ok,
    length_eq_zero_iff, gt_iff_lt, not_lt, pure_eq_ok, and_true]
  tauto

theorem messageHash_of_validated {signature : FederationSignature} {messageHash : Hash}
    (h : self.validateFederationSignature crypto signature messageHash = .ok ()) :
    messageHash = signature.messageHash := by
  simp only [validateFederationSignature, then_eq_ok, rejectIf_eq_ok, not_not] at h
  exact h.2.2.2.1

theorem validateCrossChainTransaction_eq_ok {tx : CrossChainTransaction.Full} :
    self.validateCrossChainTransaction codec env crypto tx = .ok () ↔
      tx.amount ≠ 0 ∧ tx.recipientAddress ≠ [] ∧
        self.validateCrossChainProof env tx.proof = .ok () ∧ tx.federationSignatures ≠ [] ∧
        (∀ signature ∈ tx.federationSignatures,
          self.validateFederationSignature crypto signature (tx.hash codec env) = .ok ()) ∧
        self.config.minFederationSignatures ≤ totalSigners tx.federationSignatures := by
  simp only [validateCrossChainTransaction, then_eq_ok, rejectIf_eq_ok, mapErr_eq_ok, forM_eq_ok,
    UInt32.not_lt, ne_eq]

theorem checkEach_eq_ok {α : Type} {label : String} {check : Nat → α → Outcome String Unit}
    {items : List α} :
    checkEach label check items = .ok () ↔ ∀ i item, items[i]? = some item →
      check i item = .ok () := by
  simp only [checkEach, forM_eq_ok, mapErr_eq_ok, Prod.forall, mem_zipIdx_iff_getElem?]
  exact forall_comm

/-- What a validator asks of a block apart from what is in its body. -/
def AcceptsHeader (codec : SidechainCodec) (env : Platform) (crypto : ThresholdCrypto K S)
    (self : SidechainProofValidator) (now : UInt64) (header : SidechainBlockHeader.Full)
    (signature : FederationSignature) : Prop :=
  self.validateBlockHeader now header = .ok () ∧
    self.validateFederationSignature crypto signature (header.hash codec env) = .ok ()

end

section

open ConsensusPow (lengthPlatform)
open InterSidechainTransferManager (payment)

variable {K S : Type}

/-- A strict validator that knows the three members of the first epoch. -/
def threeMembers : SidechainProofValidator where
  config := .default
  federationKeys := HashMap.insertAll ∅ [(1, threeKeys)]
  trustedHeaders := ∅
  validationStats := ⟨0, 0, 0⟩

/-- The transaction with these signatures in the place of its own. -/
def attach (tx : CrossChainTransaction.Full) (signatures : List FederationSignature) :
    CrossChainTransaction.Full :=
  { tx with federationSignatures := signatures }

/-- Signatures over the hash of a transaction can be attached to it only if it carries them
already: otherwise its hash is another one, and the signatures are over the old one. -/
theorem attached_accepted_iff (codec : SidechainCodec) (env : Platform)
    (crypto : ThresholdCrypto K S) (self : SidechainProofValidator)
    (tx : CrossChainTransaction.Full) (signatures : List FederationSignature)
    (hcollision : (attach tx signatures).hash codec env = tx.hash codec env →
      attach tx signatures = tx)
    (hamount : tx.amount ≠ 0) (hrecipient : tx.recipientAddress ≠ [])
    (hproof : self.validateCrossChainProof env tx.proof = .ok ())
    (hsignatures : signatures ≠ [])
    (hmade : ∀ signature ∈ signatures,
      self.validateFederationSignature crypto signature (tx.hash codec env) = .ok ())
    (henough : self.config.minFederationSignatures ≤ totalSigners signatures) :
    ((attach tx signatures).hash codec env = tx.hash codec env ↔
      signatures = tx.federationSignatures) ∧
    (self.validateCrossChainTransaction codec env crypto (attach tx signatures) = .ok () ↔
      signatures = tx.federationSignatures) := by
  have hsame (h : signatures = tx.federationSignatures) : attach tx signatures = tx := by
    rw [attach, h]
  have hdigest : (attach tx signatures).hash codec env = tx.hash codec env ↔
      signatures = tx.federationSignatures := by
    constructor
    · intro h
      exact congrArg (·.federationSignatures) (hcollision h)
    · intro h
      rw [hsame h]
  refine ⟨hdigest, ?_⟩
  rw [validateCrossChainTransaction_eq_ok, ← hdigest]
  constructor
  · rintro ⟨-, -, -, -, hvalid, -⟩
    obtain ⟨signature, hmem⟩ := exists_mem_of_ne_nil signatures hsignatures
    have hafter := messageHash_of_validated (hvalid signature hmem)
    exact hafter.trans (messageHash_of_validated (hmade signature hmem)).symm
  · intro h
    rw [h]
    exact ⟨hamount, hrecipient, hproof, hsignatures, hmade, henough⟩

/-- On `lengthPlatform` a signature that is attached changes the digest. -/
def signaturesCodec : SidechainCodec :=
  { SidechainCodec.blank with
    crossChainTransaction := fun tx => List.replicate (64 * tx.federationSignatures.length) 0 }

/-- A transaction that nobody has signed. -/
def unsigned : CrossChainTransaction.Full where
  id := .replicate 32 0
  amount := 5
  recipientAddress := [1]
  sourceChain := .replicate 32 1
  destinationChain := .replicate 32 2
  federationSignatures := []
  proof := ⟨[.replicate 32 0], [0], [0], 0⟩
  metadata := []

theorem unsigned_not_accepted :
    ¬ threeMembers.validateCrossChainTransaction signaturesCodec lengthPlatform headCrypto
      (attach unsigned [onesSignature [0xc0] 2 1]) = .ok () := by
  intro haccepted
  have hsame := (attached_accepted_iff signaturesCodec lengthPlatform headCrypto threeMembers
    unsigned [onesSignature [0xc0] 2 1] (fun h => absurd h (by decide)) (by decide) (by decide)
    (by decide) (by decide) (by decide) (by decide)).2.mp haccepted
  exact absurd hsame (cons_ne_nil _ _)

/-- A signature over the hash of a transaction is no longer over its hash once it is attached. -/
theorem attached_signature_rejected :
    threeMembers.validateFederationSignature headCrypto (onesSignature [0xc0] 2 1)
        (unsigned.hash signaturesCodec lengthPlatform) = .ok () ∧
      threeMembers.validateCrossChainTransaction signaturesCodec lengthPlatform headCrypto
        (attach unsigned [onesSignature [0xc0] 2 1]) =
          fail "Federation signature validation failed: Message hash mismatch" :=
  ⟨by decide, by decide⟩

variable (env : Platform) (self : SidechainProofValidator)

/-- The data is the leaf at the index of a tree whose root is in the header, and the header is a
trusted one. -/
def Sound (proof : CrossChainProof) :
    Prop :=
  ∃ hash header, self.trustedHeaders.lookup hash = some header ∧
    env.serializeHeader header = proof.blockHeader ∧
    ∃ leaves, leaves[proof.txIndex.toNat]? = some (env.blake3 proof.transactionData) ∧
      MerkleTree.root (Block.combine env) leaves = some header.merkleRoot

/-- Accepted proofs are sound only if no proof is accepted at all. -/
theorem proofs_sound_iff :
    (∀ proof, self.validateCrossChainProof env proof = .ok () → self.Sound env proof) ↔
      self.config.maxMerkleDepth = 0 := by
  constructor
  · intro hsound
    by_contra hdepth
    -- the header is longer than all trusted ones together
    let lengths := self.trustedHeaders.toPairs.map fun e => (env.serializeHeader e.2).length
    let proof : CrossChainProof :=
      ⟨[.replicate 32 0], List.replicate (lengths.sum + 1) 0, [0], 0⟩
    have hone : 1 ≤ self.config.maxMerkleDepth.toNat :=
      Nat.one_le_iff_ne_zero.mpr fun h => hdepth (UInt32.toNat_inj.mp h)
    have haccepted : self.validateCrossChainProof env proof = .ok () :=
      validateCrossChainProof_eq_ok.mpr ⟨cons_ne_nil _ _, hone, cons_ne_nil _ _, cons_ne_nil _ _⟩
    obtain ⟨hash, header, htrusted, hheader, -⟩ := hsound proof haccepted
    have hmem : (env.serializeHeader header).length ∈ lengths :=
      mem_map_of_mem (HashMap.mem_toPairs.mpr htrusted)
    have hle := le_sum_of_mem hmem
    rw [hheader, length_replicate] at hle
    omega
  · intro hdepth proof haccepted
    obtain ⟨hpath, hlength, -⟩ := validateCrossChainProof_eq_ok.mp haccepted
    rw [hdepth] at hlength
    exact absurd (length_eq_zero_iff.mp (Nat.le_zero.mp hlength)) hpath

/-- A proof is accepted although no header is trusted. -/
theorem untrusted_proof_accepted :
    threeMembers.validateCrossChainProof .blank unsigned.proof = .ok () ∧
      ¬ threeMembers.Sound .blank unsigned.proof := by
  refine ⟨by decide, ?_⟩
  rintro ⟨hash, header, ⟨⟩, -⟩

variable (codec : SidechainCodec) (env : Platform) (crypto : ThresholdCrypto K S)
  (checkFraudProof : UInt64 → FraudProof → Outcome String Unit) (self : SidechainProofValidator)

/-- Blocks with this header and signature that are accepted have one body. -/
def CommitsToBody (header : SidechainBlockHeader.Full) (signature : FederationSignature) : Prop :=
  ∀ now later now' later' txs txs' crossTxs crossTxs' proofs proofs',
    (self.validateSidechainBlock codec env crypto checkFraudProof now later
      ⟨header, txs, crossTxs, proofs, some signature⟩).1 = .ok () →
    (self.validateSidechainBlock codec env crypto checkFraudProof now' later'
      ⟨header, txs', crossTxs', proofs', some signature⟩).1 = .ok () →
    txs = txs' ∧ crossTxs = crossTxs' ∧ proofs = proofs'

/-- Any number of payments may be in a block whose header and signature are accepted. -/
theorem validateSidechainBlock_payments {codec : SidechainCodec} {env : Platform}
    {crypto : ThresholdCrypto K S} {self : SidechainProofValidator} {now : UInt64}
    {header : SidechainBlockHeader.Full} {signature : FederationSignature}
    (h : AcceptsHeader codec env crypto self now header signature)
    (checkFraudProof : UInt64 → FraudProof → Outcome String Unit) (later : Nat → UInt64)
    (count : Nat) :
    (self.validateSidechainBlock codec env crypto checkFraudProof now later
      ⟨header, List.replicate count (payment 0 (.replicate 32 0) []), [], [],
        some signature⟩).1 = .ok () := by
  have hpayment : validateSidechainTransaction (payment 0 (.replicate 32 0) []) = .ok () := rfl
  have htxs : checkEach "Transaction" (fun _ => validateSidechainTransaction)
      (List.replicate count (payment 0 (.replicate 32 0) [])) = .ok () := by
    refine checkEach_eq_ok.mpr fun i tx htx => ?_
    rw [eq_of_mem_replicate (mem_of_getElem? htx)]
    exact hpayment
  show self.validateSidechainBlockInternal codec env crypto checkFraudProof now later _ = _
  simp only [validateSidechainBlockInternal, then_eq_ok, mapErr_eq_ok]
  exact ⟨h.1, htxs, rfl, rfl, h.2⟩

/-- The signature of a header commits to a body only if no body is accepted under it. -/
theorem commits_to_body_iff (header : SidechainBlockHeader.Full) (signature : FederationSignature) :
    CommitsToBody codec env crypto checkFraudProof self header signature ↔
      ∀ now, ¬ AcceptsHeader codec env crypto self now header signature := by
  constructor
  · intro hcommits now haccepts
    have hempty := validateSidechainBlock_payments haccepts checkFraudProof (fun _ => now) 0
    have hone := validateSidechainBlock_payments haccepts checkFraudProof (fun _ => now) 1
    exact cons_ne_nil _ _ (hcommits _ _ _ _ _ _ _ _ _ _ hempty hone).1.symm
  · intro hnone now later _ _ txs _ crossTxs _ proofs _ haccepted _
    change self.validateSidechainBlockInternal codec env crypto checkFraudProof now later _ =
      .ok () at haccepted
    simp only [validateSidechainBlockInternal, then_eq_ok, mapErr_eq_ok] at haccepted
    exact absurd ⟨haccepted.1, haccepted.2.2.2.2⟩ (hnone now)

/-- The header of the block after the first one. -/
def secondHeader : SidechainBlockHeader.Full where
  height := 1
  sidechainId := .replicate 32 1
  version := 1
  previousBlockHash := .replicate 32 1
  merkleRoot := .replicate 32 0
  crossChainMerkleRoot := .replicate 32 0
  stateRoot := .replicate 32 0
  timestamp := 0
  difficultyTarget := 0
  nonce := 0
  federationEpoch := 1
  mainchainAnchorHeight := 0
  mainchainAnchorHash := .replicate 32 0

/-- The empty block and one with a payment are accepted under one header and signature. -/
theorem body_exchanged :
    ¬ CommitsToBody .blank .blank headCrypto (fun _ _ => .ok ()) threeMembers secondHeader
      (onesSignature [0xc0] 2 1) := by
  intro hcommits
  have hbodies := hcommits 0 (fun _ => 0) 0 (fun _ => 0) [] [payment 0 (.replicate 32 0) []]
    [] [] [] [] (by decide) (by decide)
  exact absurd hbodies.1 (cons_ne_nil _ _).symm

end

end SidechainProofValidator

end RustyCoin.Sidechain
