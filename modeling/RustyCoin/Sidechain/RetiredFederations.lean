import RustyCoin.Sidechain.CrossChainProcessor
import RustyCoin.Sidechain.FederationRuns
import RustyCoin.Sidechain.PegRuns
import RustyCoin.Sidechain.Quorum

/-!
# Federations of earlier epochs

A signature names the epoch whose keys it is verified with, and both validators
take that number as it is. So the members of an epoch that has ended can still
sign. `retired_rejected_iff` says for which histories of a sidechain nothing comes
of it: for the peg and for transactions to the main chain, a member of an earlier
epoch who can lead a quorum must have a key of the current one, too; for
transactions to other chains, where no signature is verified, every member must.
-/

namespace RustyCoin.Sidechain

open Outcome TwoWayPegManager List UInt32

variable {K S : Type} {crypto : ThresholdCrypto K S}

variable (ideal : IdealSignatures crypto) (manager : FederationManager) (sidechainId : Hash)

def IsKeyOf (crypto : ThresholdCrypto K S) (publicKeys : List Bytes) (key : K) : Prop :=
  ∃ member, memberKey crypto publicKeys member = some key

/-- A key of the sidechain's current epoch. -/
def IsCurrentKey (crypto : ThresholdCrypto K S) (manager : FederationManager) (sidechainId : Hash)
    (key : K) : Prop :=
  ∃ epoch, manager.getCurrentEpoch sidechainId = some epoch ∧ IsKeyOf crypto epoch.publicKeys key

/-- A key of one of its other epochs. -/
def IsOtherKey (crypto : ThresholdCrypto K S) (manager : FederationManager) (sidechainId : Hash)
    (key : K) : Prop :=
  ∃ n epoch, manager.currentEpochs.lookup sidechainId ≠ some n ∧
    manager.getEpoch sidechainId n = some epoch ∧ IsKeyOf crypto epoch.publicKeys key

/-- Keys of other epochs have made the signature, and none of the current one. -/
def MadeByRetired (message : Bytes) (signature : FederationSignature) : Prop :=
  ∃ parsed, parseSignature crypto signature.signature = .ok parsed ∧
    (ideal.contributors parsed message).Nonempty ∧
    ∀ key ∈ ideal.contributors parsed message,
      IsOtherKey crypto manager sidechainId key ∧ ¬ IsCurrentKey crypto manager sidechainId key

/-- Where a member of another epoch is followed by enough valid members for a quorum of that epoch,
and at least so many, the member has a current key. -/
def LeadersCurrent (crypto : ThresholdCrypto K S) (manager : FederationManager)
    (sidechainId : Hash) (least : UInt32) : Prop :=
  ∀ n epoch leader key, manager.currentEpochs.lookup sidechainId ≠ some n →
    manager.getEpoch sidechainId n = some epoch →
    memberKey crypto epoch.publicKeys leader = some key →
    epoch.threshold.toNat ≤ (membersFrom crypto epoch.publicKeys leader).card →
    least.toNat ≤ (membersFrom crypto epoch.publicKeys leader).card →
    IsCurrentKey crypto manager sidechainId key

variable {ideal manager sidechainId} {message : Hash} {signature : FederationSignature}
  {epoch : FederationEpoch}

variable {signerBitmap : Bytes} {key : K} {bytes : List.Vector UInt8 96} {parsed : S}

variable {count : UInt32} {n : UInt64}

theorem isKeyOf_of_aggregate {publicKeys : List Bytes}
    (h : aggregateSignerPublicKeys crypto publicKeys signerBitmap = .ok (key, count)) :
    IsKeyOf crypto publicKeys key := by
  obtain ⟨leader, hleader, -⟩ := leader_of_aggregate h
  exact ⟨leader, hleader⟩

theorem getCurrentEpoch_of_current
    (hcurrent : manager.currentEpochs.lookup sidechainId = some signature.epoch)
    (hepoch : manager.getEpoch sidechainId signature.epoch = some epoch) :
    manager.getCurrentEpoch sidechainId = some epoch := by
  rw [FederationManager.getCurrentEpoch, hcurrent, Option.bind_some, hepoch]

/-- A signature by retired keys that is valid for the epoch that it names marks enough members of
that epoch, which is not the current one, and its first signer has no current key. -/
theorem MadeByRetired.first_signer {message : Bytes}
    (hmade : MadeByRetired ideal manager sidechainId message signature)
    (hepoch : manager.getEpoch sidechainId signature.epoch = some epoch)
    (hverified : verifyFederationSignatureWithPublicKeys crypto epoch.publicKeys signature message
      epoch.threshold = .ok ()) :
    manager.currentEpochs.lookup sidechainId ≠ some signature.epoch ∧
      ∃ key count, aggregateSignerPublicKeys crypto epoch.publicKeys signature.signerBitmap =
          .ok (key, count) ∧ epoch.threshold ≤ count ∧
        ¬ IsCurrentKey crypto manager sidechainId key := by
  obtain ⟨-, -, -, key, count, parsed, haggregate, hcount, hparsed, hverify⟩ :=
    verify_eq_ok_iff.mp hverified
  obtain ⟨parsed', hparsed', -, hretired⟩ := hmade
  rw [hparsed] at hparsed'
  cases hparsed'
  have hkey : ¬ IsCurrentKey crypto manager sidechainId key := by
    apply (hretired key _).2
    rw [(ideal.verify_iff key parsed message).mp hverify]
    exact Set.mem_singleton key
  constructor
  · intro hcurrent
    apply hkey
    exact ⟨epoch, getCurrentEpoch_of_current hcurrent hepoch, isKeyOf_of_aggregate haggregate⟩
  · refine ⟨key, count, haggregate, ?_, hkey⟩
    rw [le_iff_toNat_le, MinMax.toNat_max32] at hcount
    rw [le_iff_toNat_le]
    omega

/-- A key signs for its epoch with a bitmap of its choice. -/
def signatureOf (signerBitmap : Bytes) (epoch : UInt64) (message : Hash)
    (bytes : List.Vector UInt8 96) : FederationSignature where
  signature := bytes.toList
  signerBitmap := signerBitmap
  threshold := 1
  epoch := epoch
  messageHash := message

theorem parseSignature_toList (h : crypto.signatureFromBytes bytes = some parsed) :
    parseSignature crypto bytes.toList = .ok parsed := by
  have hbytes : crypto.signatureFromBytes ⟨bytes.toList, bytes.toList_length⟩ = some parsed := h
  rw [parseSignature, dif_pos bytes.toList_length, hbytes]

theorem verified_of_signs
    (haggregate : aggregateSignerPublicKeys crypto epoch.publicKeys signerBitmap =
      .ok (key, count)) (hcount : epoch.threshold ≤ count)
    (hbytes : crypto.signatureFromBytes bytes = some parsed)
    (hcontributors : ideal.contributors parsed message.toList = {key}) :
    verifyFederationSignatureWithPublicKeys crypto epoch.publicKeys
      (signatureOf signerBitmap n message bytes) message.toList epoch.threshold = .ok () := by
  have hkeys : epoch.publicKeys ≠ [] := by
    obtain ⟨leader, hleader⟩ := isKeyOf_of_aggregate haggregate
    intro hnil
    rw [hnil] at hleader
    cases hleader
  have hpos := (aggregateSignerPublicKeys_iff.mp haggregate).2.2
  refine verify_eq_ok_iff.mpr ⟨hkeys, nofun, rfl, key, count, parsed, haggregate, ?_,
    parseSignature_toList hbytes, (ideal.verify_iff key parsed _).mpr hcontributors⟩
  show max epoch.threshold 1 ≤ count
  have hone : count.toNat ≠ 0 := fun hzero => hpos (UInt32.toNat.inj hzero)
  rw [le_iff_toNat_le] at hcount
  rw [le_iff_toNat_le, MinMax.toNat_max32]
  change max _ 1 ≤ _
  omega

theorem madeByRetired_of_signs (hbytes : crypto.signatureFromBytes bytes = some parsed)
    (hcontributors : ideal.contributors parsed message.toList = {key})
    (hother : IsOtherKey crypto manager sidechainId key)
    (hretired : ¬ IsCurrentKey crypto manager sidechainId key) :
    MadeByRetired ideal manager sidechainId message.toList
      (signatureOf signerBitmap n message bytes) := by
  refine ⟨parsed, parseSignature_toList hbytes, ?_, ?_⟩
  · rw [hcontributors]
    exact Set.singleton_nonempty key
  · rw [hcontributors]
    rintro _ rfl
    exact ⟨hother, hretired⟩

/-- Leaders have current keys exactly if no signature that retired keys have made is valid for the
epoch that it names and marks at least so many members. -/
theorem leadersCurrent_iff (ideal : IdealSignatures crypto) (message : Hash) {least : UInt32} :
    LeadersCurrent crypto manager sidechainId least ↔
      ∀ signature epoch, MadeByRetired ideal manager sidechainId message.toList signature →
        manager.getEpoch sidechainId signature.epoch = some epoch →
        verifyFederationSignatureWithPublicKeys crypto epoch.publicKeys signature message.toList
          epoch.threshold = .ok () → ¬ least ≤ signature.countSigners := by
  constructor
  · intro hleaders signature epoch hmade hepoch hverified hleast
    obtain ⟨hother, key, count, haggregate, hcount, hretired⟩ :=
      hmade.first_signer hepoch hverified
    obtain ⟨leader, hleader, hfollow⟩ := leader_of_aggregate haggregate
    rw [countSigners_of_aggregate haggregate] at hleast
    exact hretired (hleaders _ epoch leader key hother hepoch hleader
      ((le_iff_toNat_le.mp hcount).trans hfollow)
      ((le_iff_toNat_le.mp hleast).trans hfollow))
  · intro hnone n epoch leader key hother hepoch hleader hthreshold hleast
    by_contra hretired
    have hneeded : (max epoch.threshold least).toNat ≤
        (membersFrom crypto epoch.publicKeys leader).card := by
      rw [MinMax.toNat_max32]
      exact Nat.max_le.mpr ⟨hthreshold, hleast⟩
    obtain ⟨signerBitmap, count, haggregate, hcount⟩ := exists_aggregate hleader hneeded
    rw [le_iff_toNat_le, MinMax.toNat_max32, Nat.max_le] at hcount
    obtain ⟨bytes, parsed, hbytes, hcontributors⟩ := ideal.signs key message.toList
    let forged := signatureOf signerBitmap n message bytes
    have hmade : MadeByRetired ideal manager sidechainId message.toList forged :=
      madeByRetired_of_signs hbytes hcontributors ⟨n, epoch, hother, hepoch, leader, hleader⟩
        hretired
    have hsigners : forged.countSigners = count := countSigners_of_aggregate haggregate
    apply hnone forged epoch hmade hepoch
    · exact verified_of_signs haggregate (le_iff_toNat_le.mpr hcount.1) hbytes hcontributors
    · rw [hsigners]
      exact le_iff_toNat_le.mpr hcount.2

section

variable {ideal : IdealSignatures crypto} {manager : FederationManager} {sidechainId : Hash}

/-- Lists of signatures by retired keys do not pass the peg. -/
def PegRejectsRetired (ideal : IdealSignatures crypto) (manager : FederationManager)
    (sidechainId : Hash) (peg : TwoWayPegManager) : Prop :=
  ∀ signatures, (∀ sig ∈ signatures,
      MadeByRetired ideal manager sidechainId messageHash.toList sig) →
    peg.validateFederationSignatures crypto signatures sidechainId ≠ .ok ()

theorem pegRejectsRetired_iff {peg : TwoWayPegManager} {fedMgr : FederationIntegrator}
    (hpeg : peg.federationManager = some fedMgr)
    (hmanager : fedMgr.federationManagers.lookup sidechainId = some manager) :
    PegRejectsRetired ideal manager sidechainId peg ↔
      ∀ current, manager.getCurrentEpoch sidechainId = some current →
        LeadersCurrent crypto manager sidechainId current.threshold := by
  constructor
  · intro hrejects current hcurrent
    apply (leadersCurrent_iff ideal messageHash).mpr
    intro signature epoch hmade hepoch hverified hleast
    apply hrejects [signature]
    · intro sig hsig
      rw [mem_singleton.mp hsig]
      exact hmade
    · apply validateFederationSignatures_eq_ok.mpr
      refine ⟨nofun, fun fedMgr' hfedMgr => ?_⟩
      rw [hpeg] at hfedMgr
      cases hfedMgr
      refine ⟨manager, current, hmanager, hcurrent, ⟨signature, mem_singleton_self _, hleast⟩, ?_⟩
      intro sig hsig
      rw [mem_singleton.mp hsig]
      exact ⟨epoch, hepoch, hverified⟩
  · intro hleaders signatures hmade hpasses
    obtain ⟨-, hpasses⟩ := validateFederationSignatures_eq_ok.mp hpasses
    obtain ⟨manager', current, hmanager', hcurrent, ⟨sig, hsig, hleast⟩, hall⟩ :=
      hpasses fedMgr hpeg
    rw [hmanager] at hmanager'
    cases hmanager'
    obtain ⟨epoch, hepoch, hverified⟩ := hall sig hsig
    exact (leadersCurrent_iff ideal messageHash).mp (hleaders current hcurrent)
      sig epoch (hmade sig hsig) hepoch hverified hleast

/-- Transactions to the main chain with signatures by retired keys are not valid. -/
def MainchainRejectsRetired (ideal : IdealSignatures crypto) (manager : FederationManager)
    (sidechainId : Hash) (processor : CrossChainProcessor) : Prop :=
  ∀ tx : CrossChainTransaction, tx.sourceChain = sidechainId → tx.destinationChain = mainchainId →
    (∀ sig ∈ tx.federationSignatures, MadeByRetired ideal manager sidechainId tx.id.toList sig) →
    processor.validateFederationSignatures crypto tx ≠ .ok ()

/-- Neither are those to other chains. -/
def SidechainRejectsRetired (ideal : IdealSignatures crypto) (manager : FederationManager)
    (sidechainId : Hash) (processor : CrossChainProcessor) : Prop :=
  ∀ tx : CrossChainTransaction, tx.destinationChain ≠ mainchainId →
    (∀ sig ∈ tx.federationSignatures, MadeByRetired ideal manager sidechainId tx.id.toList sig) →
    processor.validateFederationSignatures crypto tx ≠ .ok ()

/-- A transaction of one unit with one signature. -/
def transactionOf (id sourceChain destinationChain : Hash) (signature : FederationSignature) :
    CrossChainTransaction where
  id := id
  amount := 1
  recipientAddress := []
  sourceChain := sourceChain
  destinationChain := destinationChain
  federationSignatures := [signature]

variable {processor : CrossChainProcessor} (hprocessor : processor.federationManager = manager)

include hprocessor in
theorem mainchainRejectsRetired_iff :
    MainchainRejectsRetired ideal manager sidechainId processor ↔
      LeadersCurrent crypto manager sidechainId 0 := by
  constructor
  · intro hrejects
    apply (leadersCurrent_iff ideal (.replicate 32 0)).mpr
    intro signature epoch hmade hepoch hverified _
    apply hrejects (transactionOf (.replicate 32 0) sidechainId mainchainId signature) rfl rfl
    · intro sig hsig
      rw [mem_singleton.mp hsig]
      exact hmade
    · apply CrossChainProcessor.validateFederationSignatures_eq_ok.mpr
      refine ⟨nofun, fun _ sig hsig => ?_⟩
      rw [mem_singleton.mp hsig, hprocessor]
      exact ⟨epoch, hepoch, hverified⟩
  · intro hleaders tx hsource hdestination hmade hvalid
    obtain ⟨hsome, hall⟩ := CrossChainProcessor.validateFederationSignatures_eq_ok.mp hvalid
    obtain ⟨sig, hsig⟩ := exists_mem_of_ne_nil _ hsome
    obtain ⟨epoch, hepoch, hverified⟩ := hall hdestination sig hsig
    rw [hsource, hprocessor] at hepoch
    exact (leadersCurrent_iff ideal tx.id).mp hleaders sig epoch (hmade sig hsig) hepoch hverified
      UInt32.zero_le

theorem sidechainRejectsRetired_iff :
    SidechainRejectsRetired ideal manager sidechainId processor ↔
      ∀ key, IsOtherKey crypto manager sidechainId key →
        IsCurrentKey crypto manager sidechainId key := by
  constructor
  · intro hrejects key hother
    by_contra hretired
    let id : Hash := .replicate 32 0
    obtain ⟨bytes, parsed, hbytes, hcontributors⟩ := ideal.signs key id.toList
    let forged := signatureOf [] 0 id bytes
    have hdestination : FederationManager.sidechainOne ≠ mainchainId := by decide
    apply hrejects (transactionOf id sidechainId FederationManager.sidechainOne forged) hdestination
    · intro sig hsig
      rw [mem_singleton.mp hsig]
      exact madeByRetired_of_signs hbytes hcontributors hother hretired
    · apply CrossChainProcessor.validateFederationSignatures_eq_ok.mpr
      exact ⟨nofun, fun hmainchain => absurd hmainchain hdestination⟩
  · intro hall tx _ hmade hvalid
    obtain ⟨hsome, -⟩ := CrossChainProcessor.validateFederationSignatures_eq_ok.mp hvalid
    obtain ⟨sig, hsig⟩ := exists_mem_of_ne_nil _ hsome
    obtain ⟨parsed, -, ⟨key, hkey⟩, hretired⟩ := hmade sig hsig
    obtain ⟨hother, hnot⟩ := hretired key hkey
    exact hnot (hall key hother)

/-- Retired federations have no authority exactly if those of their members who can lead a quorum
have current keys, and, where nothing is verified, if all of their keys are current. -/
theorem retired_rejected_iff (ideal : IdealSignatures crypto) {peg : TwoWayPegManager}
    {fedMgr : FederationIntegrator} (hpeg : peg.federationManager = some fedMgr)
    (hmanager : fedMgr.federationManagers.lookup sidechainId = some manager)
    (hprocessor : processor.federationManager = manager) :
    (PegRejectsRetired ideal manager sidechainId peg ↔
        ∀ current, manager.getCurrentEpoch sidechainId = some current →
          LeadersCurrent crypto manager sidechainId current.threshold) ∧
      (MainchainRejectsRetired ideal manager sidechainId processor ↔
        LeadersCurrent crypto manager sidechainId 0) ∧
      (SidechainRejectsRetired ideal manager sidechainId processor ↔
        ∀ key, IsOtherKey crypto manager sidechainId key →
          IsCurrentKey crypto manager sidechainId key) :=
  ⟨pegRejectsRetired_iff hpeg hmanager, mainchainRejectsRetired_iff hprocessor,
    sidechainRejectsRetired_iff⟩

end

section

open FederationManager

/-- A peg that consults a manager. -/
def pegOver (manager : FederationManager) : TwoWayPegManager :=
  (new 6).withFederationManager ⟨AList.insert sidechainOne manager ∅⟩

/-- A processor that consults a manager. -/
def processorOver (manager : FederationManager) : CrossChainProcessor :=
  .new ⟨∅, none⟩ manager

/-- The member of the first epoch keeps its key in the second. -/
def kept : FederationManager :=
  run Rat [.initializeFederation sidechainOne [memberOne] 1 10 [List.replicate 48 1],
    .transitionEpoch sidechainOne [memberOne] 1 20 [List.replicate 48 1]]

theorem publicKeys_kept {n : UInt64} {epoch : FederationEpoch}
    (hepoch : kept.getEpoch sidechainOne n = some epoch) :
    epoch.publicKeys = [List.replicate 48 1] := by
  obtain ⟨epochs, hepochs, hlookup⟩ := Option.bind_eq_some_iff.mp hepoch
  cases hepochs
  have hn : n ∈ [2, 1] := AList.lookup_isSome.mp (by rw [hlookup]; rfl)
  simp only [List.mem_cons, List.not_mem_nil, or_false] at hn
  rcases hn with rfl | rfl
  all_goals
    cases hlookup
    rfl

/-- The federation of the first epoch is retired, and its key is current. -/
theorem retired_rejected_kept :
    PegRejectsRetired headIdeal kept sidechainOne (pegOver kept) ∧
      MainchainRejectsRetired headIdeal kept sidechainOne (processorOver kept) ∧
      SidechainRejectsRetired headIdeal kept sidechainOne (processorOver kept) := by
  have hcurrent : ∀ key, IsOtherKey headCrypto kept sidechainOne key →
      IsCurrentKey headCrypto kept sidechainOne key := by
    rintro key ⟨n, epoch, -, hepoch, member, hmember⟩
    rw [publicKeys_kept hepoch] at hmember
    exact ⟨_, rfl, member, hmember⟩
  obtain ⟨hpeg, hmainchain, hsidechain⟩ := retired_rejected_iff headIdeal
    (show (pegOver kept).federationManager = some _ from rfl)
    (AList.lookup_insert _) (show (processorOver kept).federationManager = _ from rfl)
  refine ⟨hpeg.mpr fun current _ => ?_, hmainchain.mpr ?_, hsidechain.mpr hcurrent⟩
  all_goals
    intro n epoch leader key hother hepoch hleader _ _
    exact hcurrent key ⟨n, epoch, hother, hepoch, leader, hleader⟩

/-- The member of the first epoch, with the key of ones, gets a new key in the second. -/
def renewed : FederationManager :=
  run Rat [.initializeFederation sidechainOne [memberOne] 1 10 [List.replicate 48 1],
    .transitionEpoch sidechainOne [memberOne] 1 20 [List.replicate 48 2]]

theorem madeByRetired_ones (message : Bytes) :
    MadeByRetired headIdeal renewed sidechainOne message (onesSignature [0x80] 1 1) := by
  let ones : List.Vector UInt8 48 := .replicate 48 1
  refine ⟨.replicate 96 1, rfl, ⟨ones, rfl⟩, ?_⟩
  intro key hkey
  have hones : key = ones := List.Vector.toList_injective hkey.symm
  subst hones
  constructor
  · exact ⟨1, _, by decide, rfl, 0, rfl⟩
  · rintro ⟨epoch, hepoch, member, hmember⟩
    cases hepoch
    cases member with
    | zero => exact absurd hmember (by decide)
    | succ member => cases hmember

/-- All three validators accept the signature that the member makes with the first key. -/
theorem retired_signature_accepted :
    ¬ PegRejectsRetired headIdeal renewed sidechainOne (pegOver renewed) ∧
      ¬ MainchainRejectsRetired headIdeal renewed sidechainOne (processorOver renewed) ∧
      ¬ SidechainRejectsRetired headIdeal renewed sidechainOne (processorOver renewed) := by
  have hmade (message : Bytes) : ∀ sig ∈ [onesSignature [0x80] 1 1],
      MadeByRetired headIdeal renewed sidechainOne message sig := by
    intro sig hsig
    rw [mem_singleton.mp hsig]
    exact madeByRetired_ones message
  let transaction (destination : Hash) := transactionOf (.replicate 32 0) sidechainOne destination
    (onesSignature [0x80] 1 1)
  refine ⟨fun hrejects => ?_, fun hrejects => ?_, fun hrejects => ?_⟩
  · exact hrejects _ (hmade _) rfl
  · exact hrejects (transaction mainchainId) rfl rfl (hmade _) rfl
  · exact hrejects (transaction sidechainOne) (show sidechainOne ≠ mainchainId by decide)
      (hmade _) rfl

end

end RustyCoin.Sidechain
