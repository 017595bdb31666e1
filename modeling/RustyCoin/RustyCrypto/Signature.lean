import RustyCoin.Lib.Outcome
import RustyCoin.Types.Transaction

/-!
# Signatures of several signers

`verify_multi_signature` counts the signatures in a list that verify under one of
the keys, and `verify_indexed_multi_signature` counts the keys under which one of
the signatures verifies. Only the second number is a number of signers: a
signature that stands in the list twice is counted twice by the first.

The signature scheme is a parameter, on keys and signatures that have been
parsed. In an ideal scheme a signature is made by one key.
-/

namespace RustyCoin.RustyCrypto

open List

/-- The part of `ed25519_dalek` that is used. -/
structure SignatureScheme (K S : Type) where
  verify : K → Bytes → S → Bool

/-- A signature verifies under the key that has made it for the message. -/
structure SoundScheme {K S : Type} (scheme : SignatureScheme K S) where
  signer : S → Bytes → Option K
  verify_iff : ∀ key message signature,
    scheme.verify key message signature = true ↔ signer signature message = some key

/-- Moreover, every key can sign. -/
structure IdealScheme {K S : Type} (scheme : SignatureScheme K S) extends SoundScheme scheme where
  signs : ∀ key message, ∃ signature, signer signature message = some key

variable {K S : Type} (scheme : SignatureScheme K S)

/-- A signature is tried with all keys, and counts once if one of them accepts it. -/
def countSignature (publicKeys : List K) (message : Bytes) (validSignatures : Nat)
    (signature : S) : Nat :=
  if publicKeys.any fun publicKey => scheme.verify publicKey message signature then
    validSignatures + 1
  else validSignatures

/-- No path returns an error. -/
def verifyMultiSignature (publicKeys : List K) (message : Bytes) (signatures : List S)
    (threshold : Nat) : Outcome String Bool :=
  if publicKeys.isEmpty || signatures.isEmpty then .ok false
  else if threshold = 0 then .ok true
  else if threshold > publicKeys.length then .ok false
  else
    let validSignatures := signatures.foldl (countSignature scheme publicKeys message) 0
    .ok (validSignatures ≥ threshold)

/-- What the loop over indexed signatures has found. -/
structure Tally where
  validSignatures : Nat
  usedIndices : List Nat

/-- A key that was counted is passed over, and the loop ends when there are enough. -/
def tallyIndexed (publicKeys : List K) (message : Bytes) (threshold : Nat) :
    List (S × Nat) → Tally → Tally
  | [], tally => tally
  | (signature, keyIndex) :: rest, tally =>
    match publicKeys[keyIndex]? with
    | none => tallyIndexed publicKeys message threshold rest tally
    | some publicKey =>
      if keyIndex ∈ tally.usedIndices then
        tallyIndexed publicKeys message threshold rest tally
      else if scheme.verify publicKey message signature then
        let counted : Tally := ⟨tally.validSignatures + 1, keyIndex :: tally.usedIndices⟩
        if counted.validSignatures ≥ threshold then counted
        else tallyIndexed publicKeys message threshold rest counted
      else tallyIndexed publicKeys message threshold rest tally

def verifyIndexedMultiSignature (publicKeys : List K) (message : Bytes)
    (signatureData : List (S × Nat)) (threshold : Nat) : Outcome String Bool :=
  if publicKeys.isEmpty || signatureData.isEmpty then .ok false
  else if threshold = 0 then .ok true
  else if threshold > publicKeys.length then .ok false
  else
    let tally := tallyIndexed scheme publicKeys message threshold signatureData ⟨0, []⟩
    .ok (tally.validSignatures ≥ threshold)

/-- More than half of the masternodes, or more if the caller asks for more. -/
def effectiveThreshold (masternodes quorumThreshold : Nat) : Nat :=
  max quorumThreshold (masternodes / 2 + 1)

def verifyMasternodeMultiSignature (masternodePublicKeys : List K) (message : Bytes)
    (signatures : List S) (quorumThreshold : Nat) : Outcome String Bool :=
  verifyMultiSignature scheme masternodePublicKeys message signatures
    (effectiveThreshold masternodePublicKeys.length quorumThreshold)

variable {scheme} {publicKeys : List K} {message : Bytes} {signatures : List S} {threshold n : Nat}

/-- So many different keys of the list have a valid signature among these. -/
def SignedBy (scheme : SignatureScheme K S) (publicKeys : List K) (message : Bytes)
    (signatures : List S) (n : Nat) : Prop :=
  ∃ signers : Finset K, n ≤ signers.card ∧ ∀ key ∈ signers, key ∈ publicKeys ∧
    ∃ signature ∈ signatures, scheme.verify key message signature = true

/-- The signatures that one of the keys accepts. -/
def validCount (scheme : SignatureScheme K S) (publicKeys : List K) (message : Bytes)
    (signatures : List S) : Nat :=
  signatures.countP fun signature =>
    publicKeys.any fun publicKey => scheme.verify publicKey message signature

theorem foldl_countSignature (start : Nat) :
    signatures.foldl (countSignature scheme publicKeys message) start =
      start + validCount scheme publicKeys message signatures := by
  induction signatures generalizing start with
  | nil => rfl
  | cons signature signatures ih =>
    rw [foldl_cons, ih, countSignature, validCount, validCount, countP_cons]
    split
    · omega
    · omega

theorem verifyMultiSignature_eq_true :
    verifyMultiSignature scheme publicKeys message signatures threshold = .ok true ↔
      publicKeys ≠ [] ∧ signatures ≠ [] ∧ threshold ≤ publicKeys.length ∧
        threshold ≤ validCount scheme publicKeys message signatures := by
  rw [verifyMultiSignature, foldl_countSignature, Nat.zero_add]
  split
  · rename_i hnone
    rw [Bool.or_eq_true, List.isEmpty_iff, List.isEmpty_iff] at hnone
    exact iff_of_false nofun fun ⟨hkeys, hsignatures, _⟩ => hnone.elim hkeys hsignatures
  · rename_i hsome
    rw [Bool.or_eq_true, List.isEmpty_iff, List.isEmpty_iff, not_or] at hsome
    rw [and_iff_right hsome.1, and_iff_right hsome.2]
    split
    · rename_i hzero
      exact iff_of_true rfl ⟨by omega, by omega⟩
    · split
      · exact iff_of_false nofun fun ⟨hle, _⟩ => by omega
      · rw [Except.ok.injEq, decide_eq_true_eq, and_iff_right (by omega)]

/-- The indices that were counted are different ones, with valid signatures among the data. -/
structure Counted (scheme : SignatureScheme K S) (publicKeys : List K) (message : Bytes)
    (signatureData : List (S × Nat)) (tally : Tally) : Prop where
  length_eq : tally.usedIndices.length = tally.validSignatures
  nodup : tally.usedIndices.Nodup
  signed : ∀ index ∈ tally.usedIndices, ∃ key, publicKeys[index]? = some key ∧
    ∃ signature ∈ signatureData.map Prod.fst, scheme.verify key message signature = true

variable {signatureData : List (S × Nat)} {tally : Tally}

variable (h : Counted scheme publicKeys message signatureData tally)

include h

theorem Counted.count {signature : S} {keyIndex : Nat}
    {publicKey : K} (hkey : publicKeys[keyIndex]? = some publicKey)
    (hnew : keyIndex ∉ tally.usedIndices) (hdata : (signature, keyIndex) ∈ signatureData)
    (hverify : scheme.verify publicKey message signature = true) :
    Counted scheme publicKeys message signatureData
      ⟨tally.validSignatures + 1, keyIndex :: tally.usedIndices⟩ where
  length_eq := congrArg (· + 1) h.length_eq
  nodup := h.nodup.cons hnew
  signed := by
    intro index hindex
    cases hindex with
    | head => exact ⟨publicKey, hkey, signature, mem_map_of_mem hdata, hverify⟩
    | tail _ hindex => exact h.signed index hindex

theorem Counted.tallyIndexed {rest : List (S × Nat)} (hrest : rest ⊆ signatureData) :
    Counted scheme publicKeys message signatureData
      (tallyIndexed scheme publicKeys message threshold rest tally) := by
  fun_induction RustyCrypto.tallyIndexed scheme publicKeys message threshold rest tally with
  | case1 tally => exact h
  | case2 tally signature keyIndex rest hkey ih => exact ih h (subset_of_cons_subset hrest)
  | case3 tally signature keyIndex rest publicKey hkey hused ih =>
    exact ih h (subset_of_cons_subset hrest)
  | case4 tally signature keyIndex rest publicKey hkey hnew hverify counted henough =>
    exact h.count hkey hnew (hrest mem_cons_self) hverify
  | case5 tally signature keyIndex rest publicKey hkey hnew hverify counted hmore ih =>
    exact ih (h.count hkey hnew (hrest mem_cons_self) hverify) (subset_of_cons_subset hrest)
  | case6 tally signature keyIndex rest publicKey hkey hnew hverify ih =>
    exact ih h (subset_of_cons_subset hrest)

/-- Different indices of a list of different keys are different signers. -/
theorem Counted.signedBy (hdistinct : publicKeys.Nodup) :
    SignedBy scheme publicKeys message (signatureData.map Prod.fst) tally.validSignatures := by
  classical
  let signers := tally.usedIndices.filterMap (publicKeys[·]?)
  have hnodup : signers.Nodup := by
    refine List.Nodup.filterMap (fun i j key hi hj => ?_) h.nodup
    have hlt := (List.getElem?_eq_some_iff.mp hi).1
    exact (getElem?_inj hlt hdistinct).mp (hi.trans hj.symm)
  have hlength : signers.length = tally.validSignatures := by
    rw [← h.length_eq, length_filterMap_eq_countP, countP_eq_length]
    intro index hindex
    obtain ⟨key, hkey, -⟩ := h.signed index hindex
    rw [hkey]
    rfl
  refine ⟨signers.toFinset, ?_, fun key hkey => ?_⟩
  · rw [toFinset_card_of_nodup hnodup, hlength]
  · obtain ⟨index, hindex, hkey⟩ := mem_filterMap.mp (mem_toFinset.mp hkey)
    obtain ⟨key', hkey', hsigned⟩ := h.signed index hindex
    cases hkey.symm.trans hkey'
    exact ⟨mem_of_getElem? hkey, hsigned⟩

omit h

/-- The indexed variant counts signers. -/
theorem signedBy_of_verifyIndexed (hdistinct : publicKeys.Nodup)
    (h : verifyIndexedMultiSignature scheme publicKeys message signatureData threshold = .ok true) :
    SignedBy scheme publicKeys message (signatureData.map Prod.fst) threshold := by
  have hstart : Counted scheme publicKeys message signatureData ⟨0, []⟩ :=
    ⟨rfl, nodup_nil, nofun⟩
  have htally : Counted scheme publicKeys message signatureData
      (tallyIndexed scheme publicKeys message threshold signatureData ⟨0, []⟩) :=
    hstart.tallyIndexed (List.Subset.refl _)
  obtain ⟨signers, hcard, hsigned⟩ := htally.signedBy hdistinct
  refine ⟨signers, hcard.trans' ?_, hsigned⟩
  rw [verifyIndexedMultiSignature] at h
  split at h
  · cases h
  · split at h
    · omega
    · split at h
      · cases h
      · exact of_decide_eq_true (Except.ok.inj h)

theorem signedBy_of_verifyIndexed_two :
    SignedBy (⟨fun key _ signature => key == signature⟩ : SignatureScheme Nat Nat) [1, 2] []
      ([(2, 1), (1, 0)].map Prod.fst) 2 :=
  signedBy_of_verifyIndexed (by decide) (by decide)

/-- With one key at most, or with fewer keys than asked for, a signature that counts has a signer
for each that is needed. -/
theorem signedBy_of_few (hfew : publicKeys.length ≤ 1 ∨ publicKeys.length < threshold)
    (h : verifyMasternodeMultiSignature scheme publicKeys message signatures threshold = .ok true) :
    SignedBy scheme publicKeys message signatures
      (effectiveThreshold publicKeys.length threshold) := by
  obtain ⟨hkeys, -, hthreshold, hvalid⟩ := verifyMultiSignature_eq_true.mp h
  have hpos : 0 < validCount scheme publicKeys message signatures := by
    rw [effectiveThreshold] at hvalid
    omega
  have hone : effectiveThreshold publicKeys.length threshold ≤ 1 := by
    rw [effectiveThreshold] at hthreshold ⊢
    omega
  obtain ⟨signature, hsignature, hany⟩ := countP_pos_iff.mp hpos
  obtain ⟨key, hkey, hverify⟩ := any_eq_true.mp hany
  refine ⟨{key}, hone, fun other hother => ?_⟩
  rw [Finset.mem_singleton.mp hother]
  exact ⟨hkey, signature, hsignature, hverify⟩

/-- Otherwise one key passes for all that are needed, by signing once. -/
theorem exists_one_for_all (ideal : IdealScheme scheme)
    (hmore : ¬ (publicKeys.length ≤ 1 ∨ publicKeys.length < threshold)) (message : Bytes) :
    ∃ signatures, threshold ≤ signatures.length ∧ signatures ≠ [] ∧
      verifyMasternodeMultiSignature scheme publicKeys message signatures threshold = .ok true ∧
      ¬ SignedBy scheme publicKeys message signatures
        (effectiveThreshold publicKeys.length threshold) := by
  let needed := effectiveThreshold publicKeys.length threshold
  have hneeded : 2 ≤ needed ∧ threshold ≤ needed ∧ needed ≤ publicKeys.length := by
    show 2 ≤ max threshold _ ∧ threshold ≤ max threshold _ ∧ max threshold _ ≤ _
    omega
  obtain ⟨key, hkey⟩ := exists_mem_of_length_pos (l := publicKeys) (by omega)
  obtain ⟨signature, hsigner⟩ := ideal.signs key message
  have hverify := (ideal.verify_iff key message signature).mpr hsigner
  have haccepts : (publicKeys.any fun key => scheme.verify key message signature) = true :=
    any_eq_true.mpr ⟨key, hkey, hverify⟩
  have hcount :
      validCount scheme publicKeys message (List.replicate needed signature) = needed := by
    rw [validCount, countP_replicate, if_pos haccepts]
  have hlength : (List.replicate needed signature).length = needed := length_replicate
  have hsome : List.replicate needed signature ≠ [] :=
    ne_nil_of_length_pos (by omega)
  refine ⟨List.replicate needed signature, by omega, hsome, ?_, ?_⟩
  · apply verifyMultiSignature_eq_true.mpr
    exact ⟨ne_nil_of_mem hkey, hsome, hneeded.2.2, hcount.ge⟩
  · rintro ⟨signers, hcard, hsigned⟩
    have honly : signers ⊆ {key} := by
      intro other hother
      obtain ⟨-, signature', hsignature', hverify'⟩ := hsigned other hother
      rw [eq_of_mem_replicate hsignature', ideal.verify_iff, hsigner] at hverify'
      cases hverify'
      exact Finset.mem_singleton_self key
    have := Finset.card_le_card honly
    rw [Finset.card_singleton] at this
    omega

end RustyCoin.RustyCrypto
