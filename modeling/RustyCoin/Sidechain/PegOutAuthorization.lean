import Mathlib.Data.Finset.Max
import RustyCoin.Sidechain.RetiredFederations

/-!
# What a federation approves by signing a peg-out

The signatures of a cross-chain transaction are verified against its `id`, and
that is a field which whoever sends the transaction fills in. The amount, the
recipient and the source are not part of what is signed: `signatures_bind_iff`
says that the signatures determine them only as long as no peg-out can be
accepted at all.
-/

namespace RustyCoin.Sidechain

open Outcome Finset

variable {K S : Type} {crypto : ThresholdCrypto K S}

/-- As many members have valid keys as the threshold asks for, and at least one. -/
def CanSign (crypto : ThresholdCrypto K S) (epoch : FederationEpoch) : Prop :=
  max 1 epoch.threshold.toNat ≤ (membersFrom crypto epoch.publicKeys 0).card

variable {epoch : FederationEpoch}

@[simp] theorem mem_membersFrom {publicKeys : List Bytes} {first index : Nat} :
    index ∈ membersFrom crypto publicKeys first ↔
      first ≤ index ∧ (memberKey crypto publicKeys index).isSome = true := by
  rw [membersFrom, mem_filter, mem_range, and_iff_right_of_imp]
  rintro ⟨-, hvalid⟩
  obtain ⟨key, hkey⟩ := Option.isSome_iff_exists.mp hvalid
  obtain ⟨bytes, hbytes, -⟩ := memberKey_eq_some.mp hkey
  exact (List.getElem?_eq_some_iff.mp hbytes).1

/-- A signature that is valid for an epoch has found enough members. -/
theorem canSign_of_verified {signature : FederationSignature} {message : Bytes}
    (h : verifyFederationSignatureWithPublicKeys crypto epoch.publicKeys signature message
      epoch.threshold = .ok ()) : CanSign crypto epoch := by
  obtain ⟨-, -, -, key, count, -, haggregate, hcount, -⟩ := verify_eq_ok_iff.mp h
  obtain ⟨leader, -, hfollow⟩ := leader_of_aggregate haggregate
  have hpos := (aggregateSignerPublicKeys_iff.mp haggregate).2.2
  have hone : count.toNat ≠ 0 := fun hzero => hpos (UInt32.toNat.inj hzero)
  have hall : (membersFrom crypto epoch.publicKeys leader).card ≤
      (membersFrom crypto epoch.publicKeys 0).card := by
    apply card_le_card
    intro index hindex
    exact mem_membersFrom.mpr ⟨Nat.zero_le index, (mem_membersFrom.mp hindex).2⟩
  rw [UInt32.le_iff_toNat_le, MinMax.toNat_max32] at hcount
  rw [CanSign]
  omega

/-- The first member with a valid key signs for all of them. -/
theorem exists_verified (ideal : IdealSignatures crypto) (h : CanSign crypto epoch) (n : UInt64)
    (message : Hash) :
    ∃ signature : FederationSignature, signature.epoch = n ∧
      verifyFederationSignatureWithPublicKeys crypto epoch.publicKeys signature message.toList
        epoch.threshold = .ok () := by
  have hsome : (membersFrom crypto epoch.publicKeys 0).Nonempty := by
    rw [← card_pos]
    exact (Nat.le_max_left 1 _).trans h
  let leader := (membersFrom crypto epoch.publicKeys 0).min' hsome
  obtain ⟨key, hkey⟩ := Option.isSome_iff_exists.mp (mem_membersFrom.mp (min'_mem _ hsome)).2
  have hall : membersFrom crypto epoch.publicKeys 0 ⊆
      membersFrom crypto epoch.publicKeys leader := by
    intro index hindex
    exact mem_membersFrom.mpr ⟨min'_le _ _ hindex, (mem_membersFrom.mp hindex).2⟩
  have henough : epoch.threshold.toNat ≤ (membersFrom crypto epoch.publicKeys leader).card :=
    (Nat.le_max_right 1 _).trans (h.trans (card_le_card hall))
  obtain ⟨signerBitmap, count, haggregate, hcount⟩ := exists_aggregate hkey henough
  obtain ⟨bytes, parsed, hbytes, hcontributors⟩ := ideal.signs key message.toList
  exact ⟨signatureOf signerBitmap n message bytes, rfl,
    verified_of_signs haggregate hcount hbytes hcontributors⟩

namespace CrossChainProcessor

variable {processor : CrossChainProcessor} {tx : CrossChainTransaction}

theorem validateCrossChainTransaction_eq_ok :
    processor.validateCrossChainTransaction crypto tx = .ok () ↔
      tx.amount ≠ 0 ∧ processor.processedTxs.lookup tx.id = none ∧
        tx.sourceChain ≠ tx.destinationChain ∧
        processor.validateFederationSignatures crypto tx = .ok () ∧
        processor.validateMainchainSource tx = .ok () := by
  rw [validateCrossChainTransaction, ite_fail_eq_ok, ite_fail_eq_ok, ite_fail_eq_ok, bind_eq_ok,
    Option.not_isSome_iff_eq_none, Unique.exists_iff]

/-- A peg-out is accepted if the federation of its source has signed its identifier. -/
theorem validate_pegOut_eq_ok (hdestination : tx.destinationChain = mainchainId) :
    processor.validateCrossChainTransaction crypto tx = .ok () ↔
      tx.amount ≠ 0 ∧ processor.processedTxs.lookup tx.id = none ∧
        tx.sourceChain ≠ mainchainId ∧ tx.federationSignatures ≠ [] ∧
        ∀ sig ∈ tx.federationSignatures, ∃ epoch,
          processor.federationManager.getEpoch tx.sourceChain sig.epoch = some epoch ∧
          verifyFederationSignatureWithPublicKeys crypto epoch.publicKeys sig tx.id.toList
            epoch.threshold = .ok () := by
  rw [validateCrossChainTransaction_eq_ok, validateFederationSignatures_eq_ok, hdestination]
  refine and_congr_right fun _ => and_congr_right fun _ => and_congr_right fun hsource => ?_
  rw [validateMainchainSource, if_neg hsource, and_iff_left rfl]
  exact and_congr_right fun _ => forall_prop_of_true rfl

/-- Two peg-outs of the same amount from the same chain to the same recipient. -/
structure SamePegOut (tx tx' : CrossChainTransaction) : Prop where
  amount : tx.amount = tx'.amount
  recipientAddress : tx.recipientAddress = tx'.recipientAddress
  sourceChain : tx.sourceChain = tx'.sourceChain

/-- Peg-outs that are accepted with the same signatures are the same. -/
def SignaturesBind (crypto : ThresholdCrypto K S) (processor : CrossChainProcessor) : Prop :=
  ∀ tx tx' : CrossChainTransaction,
    processor.validateCrossChainTransaction crypto tx = .ok () →
    processor.validateCrossChainTransaction crypto tx' = .ok () →
    tx.destinationChain = mainchainId → tx'.destinationChain = mainchainId →
    tx.federationSignatures = tx'.federationSignatures → SamePegOut tx tx'

/-- The signatures bind a peg-out exactly if none can be accepted: every identifier is taken, or no
epoch of a sidechain has enough members with valid keys. -/
theorem signatures_bind_iff (ideal : IdealSignatures crypto) (processor : CrossChainProcessor) :
    SignaturesBind crypto processor ↔
      (∀ id, processor.processedTxs.lookup id ≠ none) ∨
        ∀ sidechainId n epoch, sidechainId ≠ mainchainId →
          processor.federationManager.getEpoch sidechainId n = some epoch →
          ¬ CanSign crypto epoch := by
  constructor
  · intro hbind
    by_contra hpossible
    push Not at hpossible
    obtain ⟨⟨id, hfresh⟩, sidechainId, n, epoch, hsidechain, hepoch, hcan⟩ := hpossible
    obtain ⟨signature, rfl, hverified⟩ := exists_verified ideal hcan n id
    let tx := transactionOf id sidechainId mainchainId signature
    -- the relayer doubles the amount
    let tx' : CrossChainTransaction := { tx with amount := 2 }
    have hsigned : ∀ sig ∈ [signature], ∃ epoch,
        processor.federationManager.getEpoch sidechainId sig.epoch = some epoch ∧
        verifyFederationSignatureWithPublicKeys crypto epoch.publicKeys sig id.toList
          epoch.threshold = .ok () := by
      intro sig hsig
      rw [List.mem_singleton.mp hsig]
      exact ⟨epoch, hepoch, hverified⟩
    have hone : (1 : UInt64) ≠ 0 := by decide
    have htwo : (2 : UInt64) ≠ 0 := by decide
    have hvalid : processor.validateCrossChainTransaction crypto tx = .ok () :=
      (validate_pegOut_eq_ok rfl).mpr ⟨hone, hfresh, hsidechain, nofun, hsigned⟩
    have hvalid' : processor.validateCrossChainTransaction crypto tx' = .ok () :=
      (validate_pegOut_eq_ok rfl).mpr ⟨htwo, hfresh, hsidechain, nofun, hsigned⟩
    have hamount : (1 : UInt64) = 2 := (hbind tx tx' hvalid hvalid' rfl rfl rfl).amount
    exact absurd hamount (by decide)
  · intro himpossible tx _ hvalid _ hdestination
    obtain ⟨-, hfresh, hsource, hsome, hsigned⟩ := (validate_pegOut_eq_ok hdestination).mp hvalid
    obtain ⟨sig, hsig⟩ := List.exists_mem_of_ne_nil _ hsome
    obtain ⟨epoch, hepoch, hverified⟩ := hsigned sig hsig
    rcases himpossible with htaken | hnone
    · exact absurd hfresh (htaken tx.id)
    · exact absurd (canSign_of_verified hverified) (hnone _ _ epoch hsource hepoch)

open FederationManager (sidechainOne memberOne)

/-- Two of three members are to sign, and one of them signs for another one. -/
theorem signatures_bind_iff_twoOfThree :
    ¬ SignaturesBind headCrypto (processorOver
      (.appendEpoch .new sidechainOne 1 (.new 1 [memberOne] 2 10 threeKeys))) := by
  intro hbind
  obtain htaken | hnone := (signatures_bind_iff headIdeal _).mp hbind
  · exact htaken (.replicate 32 0) rfl
  · exact hnone sidechainOne 1 _ (by decide) rfl (by unfold CanSign; decide)

/-- What the federation of one member has signed for one unit to nobody is accepted as well for a
thousand units to someone. -/
theorem pegOut_redirected :
    let approved := transactionOf (.replicate 32 0) sidechainOne mainchainId
      (onesSignature [0x80] 1 1)
    let redirected : CrossChainTransaction :=
      { approved with amount := 1000, recipientAddress := [7] }
    let processor := processorOver FederationManager.oneMember
    processor.validateCrossChainTransaction headCrypto approved = .ok () ∧
      processor.validateCrossChainTransaction headCrypto redirected = .ok () ∧
      approved.federationSignatures = redirected.federationSignatures ∧
      ¬ SignaturesBind headCrypto processor := by
  intro approved redirected processor
  have hvalid : processor.validateCrossChainTransaction headCrypto approved = .ok () := rfl
  have hvalid' : processor.validateCrossChainTransaction headCrypto redirected = .ok () := rfl
  refine ⟨hvalid, hvalid', rfl, fun hbind => ?_⟩
  exact absurd (hbind approved redirected hvalid hvalid' rfl rfl rfl).amount (by decide)

end CrossChainProcessor

end RustyCoin.Sidechain
