import RustyCoin.RustyCrypto.Signature
import RustyCoin.Types.Platform

/-!
# Input locks of OxideSend

Inputs are locked by signatures of masternodes on the hash of the inputs. Both
who locks them and who relies on a lock leave the counting of the signatures to
`verify_masternode_multi_signature`. `quorum_signers_iff` says for which keys and
thresholds the signatures that pass show as many signers as the threshold asks
for: only where a single masternode is enough, or where nothing passes.
-/

namespace RustyCoin.RustyMasternode

open Outcome RustyCrypto

variable {K S : Type} (env : Platform) (serializeInputs : List TxInput → Bytes)
  (scheme : SignatureScheme K S)

/-- What the masternodes sign. -/
def inputsMessage (inputs : List TxInput) : Bytes :=
  (env.blake3 (serializeInputs inputs)).toList

def lockInputs (inputs : List TxInput) (masternodeSignatures : List S)
    (masternodePublicKeys : List K) (quorumThreshold : Nat) : Outcome String Unit :=
  if masternodeSignatures.length < quorumThreshold then
    fail ("Not enough masternode signatures: " ++ toString masternodeSignatures.length ++ " < " ++
      toString quorumThreshold)
  else if masternodePublicKeys.length < quorumThreshold then
    fail ("Not enough masternode public keys: " ++ toString masternodePublicKeys.length ++ " < " ++
      toString quorumThreshold)
  else do
    let verified ← (verifyMasternodeMultiSignature scheme masternodePublicKeys
      (inputsMessage env serializeInputs inputs) masternodeSignatures quorumThreshold).mapErr
        ("Error verifying masternode multi-signature: " ++ ·)
    if ¬ verified then fail "Invalid masternode signatures for input locking" else .ok ()

def verifyClientLocks (transaction : Transaction) (expectedSignatures : List S)
    (masternodePublicKeys : List K) (quorumThreshold : Nat) : Bool :=
  if transaction.getInputs.isEmpty || expectedSignatures.isEmpty then false
  else if expectedSignatures.length < quorumThreshold ∨
      masternodePublicKeys.length < quorumThreshold then false
  else
    match verifyMasternodeMultiSignature scheme masternodePublicKeys
      (inputsMessage env serializeInputs transaction.getInputs) expectedSignatures
      quorumThreshold with
    | .ok isValid => isValid
    | .error _ => false

section

variable {K S : Type} {env : Platform} {serializeInputs : List TxInput → Bytes}
  {scheme : SignatureScheme K S} {publicKeys : List K} {signatures : List S} {threshold : Nat}

theorem lockInputs_eq_ok {inputs : List TxInput} :
    lockInputs env serializeInputs scheme inputs signatures publicKeys threshold = .ok () ↔
      threshold ≤ signatures.length ∧ threshold ≤ publicKeys.length ∧
        verifyMasternodeMultiSignature scheme publicKeys
          (inputsMessage env serializeInputs inputs) signatures threshold = .ok true := by
  rw [lockInputs, ite_fail_eq_ok, ite_fail_eq_ok, Nat.not_lt, Nat.not_lt, bind_eq_ok]
  simp only [mapErr_eq_ok, ite_fail_eq_ok, not_not, and_true, exists_eq_right]

theorem verifyClientLocks_eq_true {transaction : Transaction} :
    verifyClientLocks env serializeInputs scheme transaction signatures publicKeys threshold =
        true ↔
      transaction.getInputs ≠ [] ∧ signatures ≠ [] ∧
        threshold ≤ signatures.length ∧ threshold ≤ publicKeys.length ∧
        verifyMasternodeMultiSignature scheme publicKeys
          (inputsMessage env serializeInputs transaction.getInputs) signatures threshold =
            .ok true := by
  rw [verifyClientLocks]
  split
  · rename_i hnone
    rw [Bool.or_eq_true, List.isEmpty_iff, List.isEmpty_iff] at hnone
    exact iff_of_false nofun fun ⟨hinputs, hsignatures, _⟩ => hnone.elim hinputs hsignatures
  · rename_i hsome
    rw [Bool.or_eq_true, List.isEmpty_iff, List.isEmpty_iff, not_or] at hsome
    rw [and_iff_right hsome.1, and_iff_right hsome.2]
    split
    · exact iff_of_false nofun fun ⟨hsignatures, hkeys, _⟩ => by omega
    · rw [and_iff_right (by omega), and_iff_right (by omega)]
      cases verifyMasternodeMultiSignature scheme publicKeys
          (inputsMessage env serializeInputs transaction.getInputs) signatures threshold with
      | error failure => exact iff_of_false nofun nofun
      | ok isValid => rw [Except.ok.injEq]

/-- Signatures that pass are by as many masternodes as the threshold asks for. -/
def QuorumSound (scheme : SignatureScheme K S) (publicKeys : List K) (threshold : Nat) : Prop :=
  ∀ message signatures,
    verifyMasternodeMultiSignature scheme publicKeys message signatures threshold = .ok true →
    SignedBy scheme publicKeys message signatures (effectiveThreshold publicKeys.length threshold)

variable (env : Platform) (serializeInputs : List TxInput → Bytes) (scheme : SignatureScheme K S)
  (publicKeys : List K) (threshold : Nat)

/-- Locked inputs are. -/
def LocksSound : Prop :=
  ∀ inputs signatures,
    lockInputs env serializeInputs scheme inputs signatures publicKeys threshold = .ok () →
    SignedBy scheme publicKeys (inputsMessage env serializeInputs inputs) signatures
      (effectiveThreshold publicKeys.length threshold)

/-- Locks that a client relies on are. -/
def ClientLocksSound : Prop :=
  ∀ transaction signatures,
    verifyClientLocks env serializeInputs scheme transaction signatures publicKeys
      threshold = true →
    SignedBy scheme publicKeys (inputsMessage env serializeInputs transaction.getInputs)
      signatures (effectiveThreshold publicKeys.length threshold)

/-- A transaction that spends one output. -/
def singleInput : Transaction :=
  .standard 1 [TxInput.fromOutpoint ⟨.replicate 32 0, 0⟩ [] 0 []] [] 0 0 []

/-- Signatures that pass show a quorum of signers exactly if there is one masternode at most, or if
there are fewer than asked for and nothing passes. -/
theorem quorum_signers_iff (ideal : IdealScheme scheme) (env : Platform)
    (serializeInputs : List TxInput → Bytes) (publicKeys : List K) (threshold : Nat) :
    (QuorumSound scheme publicKeys threshold ↔
        publicKeys.length ≤ 1 ∨ publicKeys.length < threshold) ∧
      (LocksSound env serializeInputs scheme publicKeys threshold ↔
        publicKeys.length ≤ 1 ∨ publicKeys.length < threshold) ∧
      (ClientLocksSound env serializeInputs scheme publicKeys threshold ↔
        publicKeys.length ≤ 1 ∨ publicKeys.length < threshold) := by
  refine ⟨⟨fun hsound => ?_, fun hfew message signatures => ?_⟩,
    ⟨fun hsound => ?_, fun hfew inputs signatures hlocked => ?_⟩,
    ⟨fun hsound => ?_, fun hfew transaction signatures hlocked => ?_⟩⟩
  · by_contra hmore
    obtain ⟨signatures, -, -, hverified, hsigners⟩ := exists_one_for_all ideal hmore []
    exact hsigners (hsound [] signatures hverified)
  · exact signedBy_of_few hfew
  · by_contra hmore
    obtain ⟨signatures, hlength, -, hverified, hsigners⟩ := exists_one_for_all ideal hmore
      (inputsMessage env serializeInputs [])
    exact hsigners (hsound [] signatures (lockInputs_eq_ok.mpr ⟨hlength, by omega, hverified⟩))
  · exact signedBy_of_few hfew (lockInputs_eq_ok.mp hlocked).2.2
  · by_contra hmore
    obtain ⟨signatures, hlength, hsome, hverified, hsigners⟩ := exists_one_for_all ideal hmore
      (inputsMessage env serializeInputs singleInput.getInputs)
    refine hsigners (hsound singleInput signatures (verifyClientLocks_eq_true.mpr ?_))
    exact ⟨nofun, hsome, hlength, by omega, hverified⟩
  · exact signedBy_of_few hfew (verifyClientLocks_eq_true.mp hlocked).2.2.2.2

end

/-- A signature is the name of its signer. -/
def nameScheme : SignatureScheme UInt8 UInt8 where
  verify key _ signature := key = signature

def nameIdeal : IdealScheme nameScheme where
  signer signature _ := some signature
  verify_iff key message signature := by simp [nameScheme, eq_comm]
  signs key _ := ⟨key, rfl⟩

/-- One masternode is a quorum; two of three are not told from one. -/
theorem quorum_signers_iff_names :
    QuorumSound nameScheme [7] 1 ∧
      ¬ LocksSound Platform.blank (fun _ => []) nameScheme [1, 2, 3] 2 := by
  have hiff := quorum_signers_iff nameScheme nameIdeal Platform.blank fun _ => []
  refine ⟨(hiff [7] 1).1.mpr (by decide), fun hsound => ?_⟩
  exact absurd ((hiff _ _).2.1.mp hsound) (by decide)

/-- The first of three masternodes signs once, and the signature is given twice. -/
theorem one_masternode_locks :
    lockInputs Platform.blank (fun _ => []) nameScheme [] [1, 1] [1, 2, 3] 2 = .ok () ∧
      verifyClientLocks Platform.blank (fun _ => []) nameScheme singleInput [1, 1] [1, 2, 3] 2 =
        true ∧
      ¬ QuorumSound nameScheme [1, 2, 3] 2 := by
  refine ⟨by decide, by decide, fun hsound => ?_⟩
  obtain ⟨signers, hcard, hsigned⟩ := hsound [] [1, 1] (by decide)
  have honly : signers ⊆ {1} := by
    intro key hkey
    obtain ⟨-, signature, hsignature, hverify⟩ := hsigned key hkey
    rw [of_decide_eq_true hverify, Finset.mem_singleton]
    simpa using hsignature
  exact absurd (hcard.trans (Finset.card_le_card honly)) (by decide)

end RustyCoin.RustyMasternode
