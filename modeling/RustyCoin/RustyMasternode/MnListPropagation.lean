import RustyCoin.RustyCrypto.Signature
import RustyCoin.Types.Platform

/-!
# Updates of the masternode list

An update comes with an entry and a signature. The signature is checked with the
operator key of the entry that comes along, whatever key is registered for the
masternode that is changed. `operatorControls_iff` says for which runs of updates
this makes no difference. What the signature crate adds to the texts of errors is
left out, and so are the hash of the list and the times of synchronization.
-/

namespace RustyCoin.RustyMasternode

open Outcome RustyCrypto

inductive MasternodeUpdateType where
  | registration
  | statusChange
  | deregistration
  | poSeUpdate
  | dkgParticipation

structure MasternodeUpdate where
  masternodeId : MasternodeID
  updateType : MasternodeUpdateType
  entry : Option MasternodeEntry
  blockHeight : UInt64
  signature : Bytes

/-- The masternode that an update is applied to. -/
def MasternodeUpdate.target (update : MasternodeUpdate) : MasternodeID :=
  match update.updateType, update.entry with
  | .registration, some entry => entry.identity.collateralOutpoint
  | .statusChange, some entry => entry.identity.collateralOutpoint
  | _, _ => update.masternodeId

variable (env : Platform) (serializeUpdate : MasternodeUpdate → Bytes)

def MasternodeUpdate.SignedBy (update : MasternodeUpdate) (operatorPublicKey : Bytes) : Prop :=
  env.verify operatorPublicKey (serializeUpdate { update with signature := [] })
    update.signature = true

instance (update : MasternodeUpdate) (key : Bytes) :
    Decidable (update.SignedBy env serializeUpdate key) :=
  inferInstanceAs (Decidable (_ = true))

def verifyUpdateSignature (update : MasternodeUpdate) : Outcome String Bool := do
  let entry ← okOr update.entry "MasternodeUpdate must have an entry for signature verification"
  if update.signature.length ≠ 64 then fail "Invalid signature length, expected 64 bytes"
  else if ¬ env.publicKeyFromBytes entry.identity.operatorPublicKey then
    fail "Invalid public key format"
  else if ¬ env.signatureFromBytes update.signature then fail "Invalid signature format"
  else if ¬ update.SignedBy env serializeUpdate entry.identity.operatorPublicKey then
    fail "Signature verification failed"
  else .ok true

/-- Change the entry of a masternode that is listed. -/
def changeEntry (list : MasternodeList) (mnId : MasternodeID)
    (f : MasternodeEntry → MasternodeEntry) : MasternodeList :=
  match list.map.lookup mnId with
  | some entry => ⟨list.map.insert mnId (f entry)⟩
  | none => list

def handleMasternodeUpdate (list : MasternodeList) (update : MasternodeUpdate)
    (peerId : String) : Outcome String MasternodeList := do
  let verified ← verifyUpdateSignature env serializeUpdate update
  if ¬ verified then fail ("Invalid signature for masternode update from peer " ++ peerId)
  else
    match update.updateType with
    | .registration => do
      let entry ← okOr update.entry "Registration update requires entry data"
      return ⟨list.map.insert entry.identity.collateralOutpoint entry⟩
    | .statusChange => do
      let entry ← okOr update.entry "Status change update requires entry data"
      return ⟨list.map.insert entry.identity.collateralOutpoint entry⟩
    | .deregistration => return ⟨list.map.erase update.masternodeId⟩
    | .poSeUpdate => return changeEntry list update.masternodeId fun entry =>
        { entry with lastSuccessfulPoseHeight := update.blockHeight.toUInt32 }
    | .dkgParticipation => return changeEntry list update.masternodeId fun entry =>
        { entry with dkgParticipationCount := entry.dkgParticipationCount + 1 }

/-- The list after an update from a peer, which is left as it was by a failed one. -/
def afterUpdate (list : MasternodeList) (update : MasternodeUpdate × String) : MasternodeList :=
  match handleMasternodeUpdate env serializeUpdate list update.1 update.2 with
  | .ok list' => list'
  | .error _ => list

/-- Along a run, what is written to the entry of a masternode is signed with the operator key that
is registered for it at that moment. -/
def OperatorControls (mnId : MasternodeID) :
    MasternodeList → List (MasternodeUpdate × String) → Prop
  | _, [] => True
  | list, (update, peerId) :: rest =>
    (∀ entry list', list.map.lookup mnId = some entry →
      handleMasternodeUpdate env serializeUpdate list update peerId = .ok list' →
      update.target = mnId ∨ list'.map.lookup mnId ≠ some entry →
      update.SignedBy env serializeUpdate entry.identity.operatorPublicKey) ∧
    OperatorControls mnId (afterUpdate env serializeUpdate list (update, peerId)) rest

/-- Along a run, what is verified for a registered masternode carries the key that is registered. -/
def CarriesKey (mnId : MasternodeID) : MasternodeList → List (MasternodeUpdate × String) → Prop
  | _, [] => True
  | list, (update, peerId) :: rest =>
    (∀ entry carried, list.map.lookup mnId = some entry → update.target = mnId →
      update.entry = some carried → verifyUpdateSignature env serializeUpdate update = .ok true →
      carried.identity.operatorPublicKey = entry.identity.operatorPublicKey) ∧
    CarriesKey mnId (afterUpdate env serializeUpdate list (update, peerId)) rest

variable {env : Platform} {serializeUpdate : MasternodeUpdate → Bytes}

variable {update : MasternodeUpdate} {list : MasternodeList}

theorem verifyUpdateSignature_eq_ok {verified : Bool}
    (hok : verifyUpdateSignature env serializeUpdate update = .ok verified) :
    verified = true ∧ ∃ carried, update.entry = some carried ∧
      update.SignedBy env serializeUpdate carried.identity.operatorPublicKey := by
  obtain ⟨carried, hcarried, hrest⟩ := bind_eq_ok.mp hok
  simp only [ite_fail_eq_ok, not_not] at hrest
  obtain ⟨-, -, -, hsigned, hverified⟩ := hrest
  cases hverified
  exact ⟨rfl, carried, okOr_eq_ok.mp hcarried, hsigned⟩

theorem lookup_changeEntry_ne {mnId other : MasternodeID}
    (hother : other ≠ mnId) (f : MasternodeEntry → MasternodeEntry) :
    (changeEntry list mnId f).map.lookup other = list.map.lookup other := by
  rw [changeEntry]
  split
  · exact AList.lookup_insert_ne hother
  · rfl

/-- A verified update is applied, and changes no other masternode than its target. -/
theorem handleMasternodeUpdate_verified
    (hverified : verifyUpdateSignature env serializeUpdate update = .ok true) (peerId : String) :
    ∃ list', handleMasternodeUpdate env serializeUpdate list update peerId = .ok list' ∧
      ∀ other, other ≠ update.target → list'.map.lookup other = list.map.lookup other := by
  obtain ⟨-, carried, hcarried, -⟩ := verifyUpdateSignature_eq_ok hverified
  obtain ⟨mnId, updateType, _, blockHeight, signature⟩ := update
  cases hcarried
  rw [handleMasternodeUpdate, hverified]
  cases updateType with
  | registration => exact ⟨_, rfl, fun other hother => AList.lookup_insert_ne hother⟩
  | statusChange => exact ⟨_, rfl, fun other hother => AList.lookup_insert_ne hother⟩
  | deregistration => exact ⟨_, rfl, fun other hother => AList.lookup_erase_ne hother⟩
  | poSeUpdate => exact ⟨_, rfl, fun other hother => lookup_changeEntry_ne hother _⟩
  | dkgParticipation => exact ⟨_, rfl, fun other hother => lookup_changeEntry_ne hother _⟩

/-- The operator of a masternode controls its entry in the runs whose updates carry its key. -/
theorem operatorControls_iff (sound : SoundScheme ⟨env.verify⟩)
    (serializeUpdate : MasternodeUpdate → Bytes) (mnId : MasternodeID) (list : MasternodeList)
    (updates : List (MasternodeUpdate × String)) :
    OperatorControls env serializeUpdate mnId list updates ↔
      CarriesKey env serializeUpdate mnId list updates := by
  induction updates generalizing list with
  | nil => exact .rfl
  | cons head rest ih =>
    obtain ⟨update, peerId⟩ := head
    refine and_congr ⟨fun hcontrols entry carried hentry htarget hcarried hverified => ?_,
      fun hcarries entry list' hentry hok hwritten => ?_⟩ (ih _)
    · obtain ⟨list', hok, -⟩ := handleMasternodeUpdate_verified hverified peerId
      obtain ⟨-, other, hother, hsigned⟩ := verifyUpdateSignature_eq_ok hverified
      cases hcarried.symm.trans hother
      have hregistered := hcontrols entry list' hentry hok (.inl htarget)
      -- one signature has one signer
      exact Option.some.inj (((sound.verify_iff _ _ _).mp hsigned).symm.trans
        ((sound.verify_iff _ _ _).mp hregistered))
    · obtain ⟨verified, hverified, -⟩ := bind_eq_ok.mp hok
      obtain ⟨rfl, carried, hcarried, hsigned⟩ := verifyUpdateSignature_eq_ok hverified
      obtain ⟨_, hok', hframe⟩ := handleMasternodeUpdate_verified hverified peerId
      cases hok.symm.trans hok'
      have htarget : update.target = mnId := by
        by_contra hne
        exact (hwritten.resolve_left hne) ((hframe mnId (Ne.symm hne)).trans hentry)
      rwa [← hcarries entry carried hentry htarget hcarried hverified]

/-- Signatures begin with the key that has made them. -/
def namedKeys : Platform :=
  { Platform.lenient with verify := fun publicKey _ signature => publicKey = signature.take 32 }

/-- A new masternode with this operator. -/
def operatedBy (key : UInt8) : MasternodeEntry :=
  MasternodeList.registeredEntry ⟨⟨.replicate 32 0, 0⟩, .replicate 32 key, "", [], none, []⟩ 0

/-- A list with one masternode, of the first operator. -/
def listed : MasternodeList :=
  ⟨(∅ : HashMap MasternodeID MasternodeEntry).insert ⟨.replicate 32 0, 0⟩ (operatedBy 1)⟩

/-- An operator signs that the masternode is to be removed. -/
def removal (key : UInt8) : MasternodeUpdate × String :=
  (⟨⟨.replicate 32 0, 0⟩, .deregistration, some (operatedBy key), 0, .replicate 64 key⟩, "")

def namedSound : SoundScheme ⟨namedKeys.verify⟩ where
  signer signature _ := some (signature.take 32)
  verify_iff key message signature := by simp [namedKeys, eq_comm]

/-- The operator removes the masternode. -/
theorem operatorControls_iff_removal :
    OperatorControls namedKeys (fun _ => []) ⟨.replicate 32 0, 0⟩ listed [removal 1] := by
  refine (operatorControls_iff namedSound _ _ _ _).mpr ⟨?_, trivial⟩
  intro entry carried hentry _ hcarried _
  cases hentry
  cases hcarried
  rfl

/-- Another operator removes the masternode. -/
theorem stranger_deregisters :
    ¬ OperatorControls namedKeys (fun _ => []) ⟨.replicate 32 0, 0⟩ listed [removal 2] :=
  fun hcontrols => absurd (hcontrols.1 (operatedBy 1) _ rfl rfl (.inl rfl)) (by decide)

end RustyCoin.RustyMasternode
