import RustyCoin.Lib.Outcome
import RustyCoin.Types.Transaction

/-!
# Federation signatures

A federation signature names its signers by a bitmap over the members. The
bitmap is checked, the marked members are counted and their keys are parsed;
but the signature itself is verified against the key of the first marked member
alone. `verify_signed_iff` says what an accepted signature shows in an ideal
signature scheme: only members with that one key have taken part.

The scheme is a parameter. `IdealSignatures` is what is assumed of it where a
theorem needs to know who has signed.
-/

namespace RustyCoin.Sidechain

open Outcome

structure FederationSignature where
  signature : Bytes
  signerBitmap : Bytes
  threshold : UInt32
  epoch : UInt64
  messageHash : Hash
  deriving DecidableEq

/-- `byte & (1 << position) != 0` -/
def bitSet (byte : UInt8) (position : Nat) : Bool :=
  byte &&& (1 <<< UInt8.ofNat position) ≠ 0

/-- `u8::count_ones` -/
def countOnes (byte : UInt8) : UInt32 :=
  UInt32.ofNat ((List.range 8).countP (bitSet byte))

def FederationSignature.countSigners (self : FederationSignature) : UInt32 :=
  self.signerBitmap.foldl (fun count byte => count + countOnes byte) 0

/-- The parts of `threshold_crypto` that are used. -/
structure ThresholdCrypto (K S : Type) where
  publicKeyFromBytes : List.Vector UInt8 48 → Option K
  signatureFromBytes : List.Vector UInt8 96 → Option S
  verify : K → S → Bytes → Bool

variable {K S : Type} (crypto : ThresholdCrypto K S)

/-- The first member is the highest bit of the first byte. -/
def isSignerSelected (bitmap : Bytes) (index : Nat) : Bool :=
  match bitmap[index / 8]? with
  | none => false
  | some byte => bitSet byte (7 - index % 8)

def ensureNoUnknownSigners (bitmap : Bytes) (totalMembers : Nat) : Outcome String Unit :=
  if (List.range' totalMembers (bitmap.length * 8 - totalMembers)).any
      (isSignerSelected bitmap) then
    fail "Signer bitmap references unknown federation members"
  else .ok ()

def parsePublicKey (bytes : Bytes) : Outcome String K :=
  if h : bytes.length = 48 then
    match crypto.publicKeyFromBytes ⟨bytes, h⟩ with
    | none => fail "Invalid BLS public key bytes"
    | some key => .ok key
  else fail ("BLS public key must be 48 bytes, got " ++ toString bytes.length)

def parseSignature (bytes : Bytes) : Outcome String S :=
  if h : bytes.length = 96 then
    match crypto.signatureFromBytes ⟨bytes, h⟩ with
    | none => fail "Invalid BLS signature bytes"
    | some signature => .ok signature
  else fail ("BLS signature must be 96 bytes, got " ++ toString bytes.length)

/-- The keys of the marked members, in order. -/
def selectedKeys (publicKeys : List Bytes) (signerBitmap : Bytes) : List Bytes :=
  (publicKeys.zipIdx.filter fun (_, index) => isSignerSelected signerBitmap index).map Prod.fst

/-- The first of the marked keys stands for all of them. They are counted in 32 bits. -/
def aggregateSignerPublicKeys (publicKeys : List Bytes) (signerBitmap : Bytes) :
    Outcome String (K × UInt32) :=
  if signerBitmap.isEmpty then fail "Signer bitmap cannot be empty"
  else do
    ensureNoUnknownSigners signerBitmap publicKeys.length
    let publicKeyShares ← (selectedKeys publicKeys signerBitmap).mapM (parsePublicKey crypto)
    let signerCount := UInt32.ofNat publicKeyShares.length
    match publicKeyShares with
    | [] => fail "Signer bitmap does not reference any known federation members"
    | aggregatedPk :: _ =>
      if signerCount = 0 then
        fail "Signer bitmap does not reference any known federation members"
      else return (aggregatedPk, signerCount)

def verifyFederationSignatureWithPublicKeys (publicKeys : List Bytes)
    (signature : FederationSignature) (message : Bytes) (requiredThreshold : UInt32) :
    Outcome String Unit :=
  if publicKeys.isEmpty then fail "Federation must provide at least one public key"
  else if signature.threshold = 0 then fail "Signature threshold must be greater than zero"
  else if signature.signature.isEmpty then fail "Signature cannot be empty"
  else if signature.signerBitmap.isEmpty then fail "Signer bitmap cannot be empty"
  else if message ≠ signature.messageHash.toList then fail "Message hash mismatch"
  else do
    let (aggregatedPk, signerCount) ←
      aggregateSignerPublicKeys crypto publicKeys signature.signerBitmap
    let enforcedThreshold := max requiredThreshold signature.threshold
    if signerCount < enforcedThreshold then
      fail ("Insufficient signers: " ++ toString signerCount.toNat ++ " < " ++
        toString enforcedThreshold.toNat)
    else
      let parsedSignature ← parseSignature crypto signature.signature
      if crypto.verify aggregatedPk parsedSignature message then return ()
      else fail "BLS threshold signature verification failed"

variable {crypto} {publicKeys : List Bytes} {signature : FederationSignature} {message : Bytes}
  {requiredThreshold : UInt32}

variable {signerBitmap : Bytes} {key : K} {count : UInt32}

/-- All of the marked keys are parsed; the first is returned, with their number. -/
theorem aggregateSignerPublicKeys_eq_ok :
    aggregateSignerPublicKeys crypto publicKeys signerBitmap = .ok (key, count) ↔
      signerBitmap ≠ [] ∧ ensureNoUnknownSigners signerBitmap publicKeys.length = .ok () ∧
        ∃ rest, (selectedKeys publicKeys signerBitmap).map (parsePublicKey crypto) =
            (key :: rest).map .ok ∧
          count = UInt32.ofNat (key :: rest).length ∧ count ≠ 0 := by
  rw [aggregateSignerPublicKeys, ite_fail_eq_ok, List.isEmpty_iff, bind_eq_ok]
  refine and_congr_right fun _ => ?_
  constructor
  · rintro ⟨_, hknown, h⟩
    obtain ⟨shares, hshares, h⟩ := bind_eq_ok.mp h
    refine ⟨hknown, ?_⟩
    cases shares with
    | nil => cases h
    | cons share shares =>
      obtain ⟨hcount, h⟩ := ite_fail_eq_ok.mp h
      obtain ⟨rfl, rfl⟩ := Prod.mk.inj (Except.ok.inj h)
      exact ⟨shares, mapM_eq_ok.mp hshares, rfl, hcount⟩
  · rintro ⟨hknown, rest, hrest, rfl, hcount⟩
    refine ⟨(), hknown, bind_eq_ok.mpr ⟨key :: rest, mapM_eq_ok.mpr hrest, ?_⟩⟩
    exact ite_fail_eq_ok.mpr ⟨hcount, rfl⟩

/-- The key that is returned is that of the first marked member. -/
theorem aggregateSignerPublicKeys_first
    (h : aggregateSignerPublicKeys crypto publicKeys signerBitmap = .ok (key, count)) :
    ∃ first rest, selectedKeys publicKeys signerBitmap = first :: rest ∧
      parsePublicKey crypto first = .ok key := by
  obtain ⟨-, -, shares, hshares, -⟩ := aggregateSignerPublicKeys_eq_ok.mp h
  obtain ⟨first, rest, hselected, hfirst, -⟩ := List.map_eq_cons_iff.mp hshares
  exact ⟨first, rest, hselected, hfirst⟩

/-- A signature is accepted exactly if its fields are filled in, it names the message, enough
known members are marked, and it verifies under the key that stands for them. -/
theorem verify_eq_ok_iff :
    verifyFederationSignatureWithPublicKeys crypto publicKeys signature message
        requiredThreshold = .ok () ↔
      publicKeys ≠ [] ∧ signature.threshold ≠ 0 ∧ message = signature.messageHash.toList ∧
        ∃ key count parsed,
          aggregateSignerPublicKeys crypto publicKeys signature.signerBitmap = .ok (key, count) ∧
          max requiredThreshold signature.threshold ≤ count ∧
          parseSignature crypto signature.signature = .ok parsed ∧
          crypto.verify key parsed message = true := by
  constructor
  · intro h
    obtain ⟨hkeys, h⟩ := ite_fail_eq_ok.mp h
    obtain ⟨hthreshold, h⟩ := ite_fail_eq_ok.mp h
    obtain ⟨-, h⟩ := ite_fail_eq_ok.mp h
    obtain ⟨-, h⟩ := ite_fail_eq_ok.mp h
    obtain ⟨hmessage, h⟩ := ite_fail_eq_ok.mp h
    obtain ⟨⟨key, count⟩, haggregate, h⟩ := bind_eq_ok.mp h
    obtain ⟨hcount, h⟩ := ite_fail_eq_ok.mp h
    obtain ⟨parsed, hparsed, h⟩ := bind_eq_ok.mp h
    refine ⟨fun hnil => hkeys (List.isEmpty_iff.mpr hnil), hthreshold, not_not.mp hmessage, key,
      count, parsed, haggregate, UInt32.not_lt.mp hcount, hparsed, ?_⟩
    by_contra hverify
    rw [if_neg hverify] at h
    exact absurd h (fail_ne_ok _ _)
  · rintro ⟨hkeys, hthreshold, rfl, key, count, parsed, haggregate, hcount, hparsed, hverify⟩
    have hsignature : signature.signature ≠ [] := by
      intro hnil
      rw [hnil] at hparsed
      cases hparsed
    have hbitmap := (ite_fail_eq_ok.mp haggregate).1
    refine ite_fail_eq_ok.mpr ⟨fun hnil => hkeys (List.isEmpty_iff.mp hnil), ?_⟩
    refine ite_fail_eq_ok.mpr ⟨hthreshold, ?_⟩
    refine ite_fail_eq_ok.mpr ⟨fun hnil => hsignature (List.isEmpty_iff.mp hnil), ?_⟩
    refine ite_fail_eq_ok.mpr ⟨hbitmap, ite_fail_eq_ok.mpr ⟨not_not.mpr rfl, ?_⟩⟩
    refine bind_eq_ok.mpr ⟨(key, count), haggregate, ?_⟩
    refine ite_fail_eq_ok.mpr ⟨UInt32.not_lt.mpr hcount, ?_⟩
    exact bind_eq_ok.mpr ⟨parsed, hparsed, if_pos hverify⟩

/-- An ideal scheme: it is a fact about a signature whose keys have contributed to it for a
message. A single key verifies what it alone has contributed to, and every key can contribute. -/
structure IdealSignatures (crypto : ThresholdCrypto K S) where
  contributors : S → Bytes → Set K
  verify_iff : ∀ key parsed message,
    crypto.verify key parsed message = true ↔ contributors parsed message = {key}
  signs : ∀ key message, ∃ bytes parsed,
    crypto.signatureFromBytes bytes = some parsed ∧ contributors parsed message = {key}

/-- The parsed key of a member. -/
def memberKey (crypto : ThresholdCrypto K S) (publicKeys : List Bytes) (index : Nat) : Option K :=
  publicKeys[index]?.bind fun bytes => (parsePublicKey crypto bytes).toOption

/-- The member's key has contributed to the signature. -/
def TookPart (ideal : IdealSignatures crypto) (publicKeys : List Bytes)
    (signature : FederationSignature) (message : Bytes) (index : Nat) : Prop :=
  ∃ key parsed, memberKey crypto publicKeys index = some key ∧
    parseSignature crypto signature.signature = .ok parsed ∧
    key ∈ ideal.contributors parsed message

/-- So many different members are marked in the bitmap and have taken part. -/
def SignedByAtLeast (ideal : IdealSignatures crypto) (publicKeys : List Bytes)
    (signature : FederationSignature) (message : Bytes) (n : Nat) : Prop :=
  ∃ members : Finset Nat, n ≤ members.card ∧ ∀ index ∈ members,
    isSignerSelected signature.signerBitmap index = true ∧
      TookPart ideal publicKeys signature message index

/-- The key of the first marked member. -/
def firstSignerKey (crypto : ThresholdCrypto K S) (publicKeys : List Bytes)
    (signerBitmap : Bytes) : Option K :=
  (selectedKeys publicKeys signerBitmap).head?.bind fun bytes =>
    (parsePublicKey crypto bytes).toOption

variable [DecidableEq K]

/-- The marked members that have the key of the first one. -/
def membersWithFirstKey (crypto : ThresholdCrypto K S) (publicKeys : List Bytes)
    (signerBitmap : Bytes) : Finset Nat :=
  (Finset.range publicKeys.length).filter fun index =>
    isSignerSelected signerBitmap index = true ∧
      memberKey crypto publicKeys index = firstSignerKey crypto publicKeys signerBitmap

variable (ideal : IdealSignatures crypto)
  (haccepted : verifyFederationSignatureWithPublicKeys crypto publicKeys signature message
      requiredThreshold = .ok ())

include haccepted

/-- The members that have taken part in an accepted signature have the key of the first. -/
theorem mem_membersWithFirstKey_iff (index : Nat) :
    index ∈ membersWithFirstKey crypto publicKeys signature.signerBitmap ↔
      isSignerSelected signature.signerBitmap index = true ∧
        TookPart ideal publicKeys signature message index := by
  obtain ⟨-, -, -, key, count, parsed, haggregate, -, hparsed, hverify⟩ :=
    verify_eq_ok_iff.mp haccepted
  obtain ⟨first, rest, hselected, hfirst⟩ := aggregateSignerPublicKeys_first haggregate
  have hkey : firstSignerKey crypto publicKeys signature.signerBitmap = some key := by
    rw [firstSignerKey, hselected, List.head?_cons, Option.bind_some, hfirst]
    rfl
  have hcontributors := (ideal.verify_iff key parsed message).mp hverify
  rw [membersWithFirstKey, Finset.mem_filter, Finset.mem_range, hkey]
  constructor
  · rintro ⟨-, hmarked, hmember⟩
    refine ⟨hmarked, key, parsed, hmember, hparsed, ?_⟩
    rw [hcontributors]
    exact Set.mem_singleton key
  · rintro ⟨hmarked, other, parsed', hmember, hparsed', hcontributed⟩
    rw [hparsed] at hparsed'
    cases hparsed'
    rw [hcontributors, Set.mem_singleton_iff] at hcontributed
    subst hcontributed
    refine ⟨?_, hmarked, hmember⟩
    obtain ⟨bytes, hbytes, -⟩ := Option.bind_eq_some_iff.mp hmember
    exact (List.getElem?_eq_some_iff.mp hbytes).1

/-- As many members have signed as are marked with one and the same key. -/
theorem signedByAtLeast_iff (n : Nat) :
    SignedByAtLeast ideal publicKeys signature message n ↔
      n ≤ (membersWithFirstKey crypto publicKeys signature.signerBitmap).card := by
  constructor
  · rintro ⟨members, hcard, hmembers⟩
    refine hcard.trans (Finset.card_le_card fun index hindex => ?_)
    exact (mem_membersWithFirstKey_iff ideal haccepted index).mpr (hmembers index hindex)
  · intro hcard
    refine ⟨_, hcard, fun index hindex => ?_⟩
    exact (mem_membersWithFirstKey_iff ideal haccepted index).mp hindex

/-- An accepted signature shows that as many marked members have signed as both thresholds ask
for exactly if so many of the marked members have the key of the first one. -/
theorem verify_signed_iff :
    SignedByAtLeast ideal publicKeys signature message
        (max requiredThreshold signature.threshold).toNat ↔
      (max requiredThreshold signature.threshold).toNat ≤
        (membersWithFirstKey crypto publicKeys signature.signerBitmap).card :=
  signedByAtLeast_iff ideal haccepted _

/-- Members with pairwise different keys: no accepted signature shows more than one of them. -/
theorem SignedByAtLeast.le_one_of_distinct {n : Nat}
    (hdistinct : ∀ i < publicKeys.length, ∀ j < publicKeys.length,
      memberKey crypto publicKeys i = memberKey crypto publicKeys j → i = j)
    (hsigned : SignedByAtLeast ideal publicKeys signature message n) : n ≤ 1 := by
  apply ((signedByAtLeast_iff ideal haccepted n).mp hsigned).trans
  apply Finset.card_le_one.mpr
  intro i hi j hj
  rw [membersWithFirstKey, Finset.mem_filter, Finset.mem_range] at hi hj
  exact hdistinct i hi.1 j hj.1 (hi.2.2.trans hj.2.2.symm)

omit haccepted

/-- A scheme in which a signature begins with the key that has made it. -/
def headCrypto : ThresholdCrypto (List.Vector UInt8 48) (List.Vector UInt8 96) where
  publicKeyFromBytes := some
  signatureFromBytes := some
  verify key parsed _ := parsed.toList.take 48 = key.toList

def headIdeal : IdealSignatures headCrypto where
  contributors parsed _ := {key | parsed.toList.take 48 = key.toList}
  verify_iff := by
    intro key parsed message
    show decide (parsed.toList.take 48 = key.toList) = true ↔ _
    rw [decide_eq_true_eq]
    constructor
    · intro htake
      ext other
      rw [Set.mem_ofPred_eq, Set.mem_singleton_iff, htake]
      exact ⟨fun h => (List.Vector.toList_injective h).symm, fun h => h ▸ rfl⟩
    · intro hset
      have hmem : key ∈ ({key} : Set (List.Vector UInt8 48)) := Set.mem_singleton key
      rw [← hset] at hmem
      exact hmem
  signs := by
    intro key message
    have hlength : (key.toList ++ List.replicate 48 0).length = 96 := by
      rw [List.length_append, key.toList_length, List.length_replicate]
    refine ⟨⟨_, hlength⟩, ⟨_, hlength⟩, rfl, ?_⟩
    have htake : (key.toList ++ List.replicate 48 (0 : UInt8)).take 48 = key.toList := by
      rw [List.take_append_of_le_length (Nat.le_of_eq key.toList_length.symm),
        List.take_of_length_le (Nat.le_of_eq key.toList_length)]
    ext other
    show (key.toList ++ List.replicate 48 (0 : UInt8)).take 48 = other.toList ↔ _
    rw [htake, Set.mem_singleton_iff]
    exact ⟨fun h => (List.Vector.toList_injective h).symm, fun h => h ▸ rfl⟩

/-- A signature by the member with the key of ones alone, for the message of zeros. -/
def onesSignature (signerBitmap : Bytes) (threshold : UInt32) (epoch : UInt64) :
    FederationSignature where
  signature := List.replicate 96 1
  signerBitmap := signerBitmap
  threshold := threshold
  epoch := epoch
  messageHash := .replicate 32 0

/-- Three members with different keys. -/
def threeKeys : List Bytes := [List.replicate 48 1, List.replicate 48 2, List.replicate 48 3]

theorem verify_signed_iff_one :
    verifyFederationSignatureWithPublicKeys headCrypto threeKeys (onesSignature [0x80] 1 1)
        (List.replicate 32 0) 1 = .ok () ∧
      SignedByAtLeast headIdeal threeKeys (onesSignature [0x80] 1 1) (List.replicate 32 0) 1 := by
  have haccepted : verifyFederationSignatureWithPublicKeys headCrypto threeKeys
      (onesSignature [0x80] 1 1) (List.replicate 32 0) 1 = .ok () := by decide
  refine ⟨haccepted, (verify_signed_iff headIdeal haccepted).mpr ?_⟩
  decide

/-- Three members are asked for and marked, and one of them has signed. -/
theorem verify_one_signs_for_three :
    verifyFederationSignatureWithPublicKeys headCrypto threeKeys (onesSignature [0xe0] 3 1)
        (List.replicate 32 0) 3 = .ok () ∧
      ¬ SignedByAtLeast headIdeal threeKeys (onesSignature [0xe0] 3 1)
        (List.replicate 32 0) 3 := by
  have haccepted : verifyFederationSignatureWithPublicKeys headCrypto threeKeys
      (onesSignature [0xe0] 3 1) (List.replicate 32 0) 3 = .ok () := by decide
  have hdistinct : ∀ i < threeKeys.length, ∀ j < threeKeys.length,
      memberKey headCrypto threeKeys i = memberKey headCrypto threeKeys j → i = j := by decide
  refine ⟨haccepted, fun hsigned => ?_⟩
  exact absurd (hsigned.le_one_of_distinct _ haccepted hdistinct) (by decide)

end RustyCoin.Sidechain
