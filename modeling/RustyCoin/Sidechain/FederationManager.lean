import Mathlib.Data.Rat.Floor
import RustyCoin.Consensus.Params
import RustyCoin.Sidechain.FederationSignature

/-!
# Federation epochs

A sidechain has a federation that changes from epoch to epoch. `History` is what
the manager holds of one sidechain: the number of its current epoch and its
epochs by number. Each call of the manager changes one history, in one of three
ways: an epoch is put in the place of another, and a first or a further one is
appended. For each of these there is a lemma on `History.WellFormed`, and for
each call one on the manager that it leaves.
-/

namespace RustyCoin

/-- Numbers of type `f64` that are rounded up to integers. -/
class F64Ceil (F : Type) extends F64 F where
  /-- A `usize` as a number. -/
  ofUsize : Nat → F
  /-- `ceil() as u32`, which stops at the ends of the range. -/
  ceilToU32 : F → UInt32

instance : F64Ceil Rat where
  ofUsize n := n
  ceilToU32 a := UInt32.ofNat (min ⌈a⌉₊ (2 ^ 32 - 1))

namespace Sidechain

open Outcome Function AList

structure FederationEpoch where
  epoch : UInt64
  members : List MasternodeID
  threshold : UInt32
  startHeight : UInt64
  endHeight : Option UInt64
  publicKeys : List Bytes

def FederationEpoch.new (epoch : UInt64) (members : List MasternodeID) (threshold : UInt32)
    (startHeight : UInt64) (publicKeys : List Bytes) : FederationEpoch where
  epoch := epoch
  members := members
  threshold := threshold
  startHeight := startHeight
  endHeight := none
  publicKeys := publicKeys

structure FederationManager where
  epochs : HashMap Hash (HashMap UInt64 FederationEpoch)
  currentEpochs : HashMap Hash UInt64

namespace FederationManager

def new : FederationManager where
  epochs := ∅
  currentEpochs := ∅

variable (self : FederationManager)

variable (sidechainId : Hash)

def getEpoch (epoch : UInt64) : Option FederationEpoch :=
  (self.epochs.lookup sidechainId).bind fun epochs => epochs.lookup epoch

def getCurrentEpoch : Option FederationEpoch :=
  (self.currentEpochs.lookup sidechainId).bind (self.getEpoch sidechainId)

/-- `epochs.entry(sidechain_id).or_insert_with(HashMap::new).insert(number, epoch)` -/
def putEpoch (number : UInt64) (epoch : FederationEpoch) : FederationManager :=
  { self with
    epochs := self.epochs.insert sidechainId
      (((self.epochs.lookup sidechainId).getD ∅).insert number epoch) }

/-- Change an epoch in place, if there is one under the number. -/
def modifyEpoch (number : UInt64)
    (change : FederationEpoch → FederationEpoch) : FederationManager :=
  match self.getEpoch sidechainId number with
  | none => self
  | some epoch => self.putEpoch sidechainId number (change epoch)

def setCurrentEpoch (number : UInt64) : FederationManager :=
  { self with currentEpochs := self.currentEpochs.insert sidechainId number }

def keysMismatch (subject : String) (keys members : Nat) : String :=
  subject ++ " count " ++ toString keys ++ " must match members count " ++ toString members

/-- The checks of a federation's members, threshold and keys, with the words of their errors. -/
def validateFederation (federationWord thresholdWord keysWord : String)
    (members : List MasternodeID) (threshold : UInt32) (publicKeys : List Bytes) :
    Outcome String Unit :=
  if members.isEmpty then fail (federationWord ++ " must have at least one member")
  else if threshold = 0 ∨ threshold > UInt32.ofNat members.length then
    fail (thresholdWord ++ " " ++ toString threshold.toNat ++ " must be between 1 and " ++
      toString members.length)
  else if publicKeys.length ≠ members.length then
    fail (keysMismatch keysWord publicKeys.length members.length)
  else .ok ()

def initializeFederation (members : List MasternodeID) (threshold : UInt32) (startHeight : UInt64)
    (publicKeys : List Bytes) : Outcome String (UInt64 × FederationManager) := do
  validateFederation "Federation" "Threshold" "Public keys" members threshold publicKeys
  let epoch : UInt64 := 1
  let federationEpoch := FederationEpoch.new epoch members threshold startHeight publicKeys
  return (epoch,
    (self.putEpoch sidechainId epoch federationEpoch).setCurrentEpoch sidechainId epoch)

def transitionEpoch
    (newMembers : List MasternodeID) (newThreshold : UInt32) (currentHeight : UInt64)
    (newPublicKeys : List Bytes) : Outcome String (UInt64 × FederationManager) := do
  validateFederation "New federation" "New threshold" "New public keys" newMembers newThreshold
    newPublicKeys
  let currentEpochNum ←
    okOr (self.currentEpochs.lookup sidechainId) "Sidechain federation not initialized"
  let ended := self.modifyEpoch sidechainId currentEpochNum fun currentEpoch =>
    { currentEpoch with endHeight := some currentHeight }
  let newEpochNum := currentEpochNum + 1
  let newEpoch :=
    FederationEpoch.new newEpochNum newMembers newThreshold currentHeight newPublicKeys
  return (newEpochNum,
    (ended.putEpoch sidechainId newEpochNum newEpoch).setCurrentEpoch sidechainId newEpochNum)

/-- The threshold for a new number of members, rounded up from the old share of them. -/
def rescaledThreshold (F : Type) [F64Ceil F] (oldThreshold : UInt32)
    (oldSize newMembersLen : Nat) : UInt32 :=
  let newThreshold : UInt32 :=
    if oldSize > 0 then
      F64Ceil.ceilToU32 (F64.mul
        (F64.div (F64.ofU64 oldThreshold.toUInt64) (F64Ceil.ofUsize oldSize : F))
        (F64Ceil.ofUsize newMembersLen))
    else 1
  min newThreshold (UInt32.ofNat newMembersLen)

/-- The current epoch gets new members and keys, and keeps its number and heights. -/
def updateFederationMembers (F : Type) [F64Ceil F] (self : FederationManager) (sidechainId : Hash)
    (newMembers : List MasternodeID) (newPublicKeys : List Bytes) :
    Outcome String FederationManager :=
  if newMembers.isEmpty then fail "Federation must have at least one member"
  else if newPublicKeys.length ≠ newMembers.length then
    fail (keysMismatch "Public keys" newPublicKeys.length newMembers.length)
  else do
    let currentEpochNum ←
      okOr (self.currentEpochs.lookup sidechainId) "Sidechain federation not initialized"
    let epoch ← okOr (self.getEpoch sidechainId currentEpochNum) "Current epoch not found"
    return self.putEpoch sidechainId currentEpochNum
      { epoch with
        members := newMembers
        publicKeys := newPublicKeys
        threshold := rescaledThreshold F epoch.threshold epoch.members.length newMembers.length }

/-- `verify_threshold_signature`, which answers with a truth value. -/
def verifyThresholdSignature {K S : Type} (crypto : ThresholdCrypto K S)
    (self : FederationManager) (sidechainId : Hash) (epoch : UInt64)
    (signature : FederationSignature) (message : Bytes) : Bool :=
  match self.getEpoch sidechainId epoch with
  | none => false
  | some federationEpoch =>
    (verifyFederationSignatureWithPublicKeys crypto federationEpoch.publicKeys signature message
      federationEpoch.threshold).isOk

theorem verifyThresholdSignature_iff {K S : Type} {crypto : ThresholdCrypto K S}
    {self : FederationManager} {sidechainId : Hash} {epoch : UInt64}
    {signature : FederationSignature} {message : Bytes} :
    self.verifyThresholdSignature crypto sidechainId epoch signature message = true ↔
      ∃ federationEpoch, self.getEpoch sidechainId epoch = some federationEpoch ∧
        verifyFederationSignatureWithPublicKeys crypto federationEpoch.publicKeys signature
          message federationEpoch.threshold = .ok () := by
  rw [verifyThresholdSignature]
  cases self.getEpoch sidechainId epoch with
  | none => exact iff_of_false nofun nofun
  | some federationEpoch =>
    show (verifyFederationSignatureWithPublicKeys crypto federationEpoch.publicKeys signature
      message federationEpoch.threshold).isOk = true ↔ _
    cases hverify : verifyFederationSignatureWithPublicKeys crypto federationEpoch.publicKeys
        signature message federationEpoch.threshold with
    | ok => exact iff_of_true rfl ⟨federationEpoch, rfl, hverify⟩
    | error failure =>
      refine iff_of_false nofun ?_
      rintro ⟨_, ⟨⟩, hok⟩
      rw [hverify] at hok
      cases hok

end FederationManager

section

/-- What the manager holds of one sidechain. -/
structure History where
  current : Option UInt64
  epochAt : UInt64 → Option FederationEpoch

namespace History

/-- An epoch takes the place of another. -/
def put (self : History) (number : UInt64) (epoch : FederationEpoch) : History :=
  { self with epochAt := Function.update self.epochAt number (some epoch) }

/-- An epoch becomes the current one. -/
def append (self : History) (number : UInt64) (epoch : FederationEpoch) : History where
  current := some number
  epochAt := Function.update self.epochAt number (some epoch)

end History

structure FederationEpoch.WellFormed (epoch : FederationEpoch) : Prop where
  threshold_pos : 1 ≤ epoch.threshold.toNat
  threshold_le : epoch.threshold.toNat ≤ epoch.members.length
  keys : epoch.publicKeys.length = epoch.members.length

/-- The epochs are those from the first to the current one, which alone is open; each of the
others ends where the next one starts. -/
structure History.WellFormed (history : History) : Prop where
  initialized : ∀ n, history.current = some n → 1 ≤ n
  numbered : ∀ n, (history.epochAt n).isSome ↔ ∃ c, history.current = some c ∧ 1 ≤ n ∧ n ≤ c
  sound : ∀ n e, history.epochAt n = some e → e.WellFormed
  open_iff : ∀ n e, history.epochAt n = some e → (e.endHeight = none ↔ history.current = some n)
  linked : ∀ n e e', history.epochAt n = some e → history.epochAt (n + 1) = some e' →
    e.endHeight = some e'.startHeight

/-- The epochs after one was written at a number. -/
theorem update_eq_some_iff {epochAt : UInt64 → Option FederationEpoch} {c n : UInt64}
    {e e' : FederationEpoch} :
    Function.update epochAt c (some e) n = some e' ↔
      n = c ∧ e = e' ∨ n ≠ c ∧ epochAt n = some e' := by
  by_cases hn : n = c
  · subst hn
    rw [update_self, Option.some_inj]
    exact ⟨fun he => .inl ⟨rfl, he⟩, fun h => (h.resolve_right fun h => h.1 rfl).2⟩
  · rw [update_of_ne hn]
    exact ⟨fun he => .inr ⟨hn, he⟩, fun h => (h.resolve_left fun h => hn h.1).2⟩

variable {c : UInt64}

theorem toNat_add_one_of_ne (hc : c ≠ 18446744073709551615) : (c + 1).toNat = c.toNat + 1 := by
  have hlt := c.toNat_lt
  have hne : c.toNat ≠ 18446744073709551615 := fun h => hc (UInt64.toNat.inj h)
  rw [UInt64.toNat_add]
  change (c.toNat + 1) % _ = _
  omega

theorem le_add_one_iff (hc : c ≠ 18446744073709551615) (n : UInt64) :
    n ≤ c + 1 ↔ n ≤ c ∨ n = c + 1 := by
  rw [UInt64.le_iff_toNat_le, UInt64.le_iff_toNat_le, ← UInt64.toNat_inj, toNat_add_one_of_ne hc]
  omega

theorem one_le_add_one (hc : c ≠ 18446744073709551615) : 1 ≤ c + 1 := by
  rw [UInt64.le_iff_toNat_le, toNat_add_one_of_ne hc]
  exact Nat.le_add_left 1 _

theorem not_one_le_add_one_le (n : UInt64) : ¬ (1 ≤ n + 1 ∧ n + 1 ≤ n) := by
  have hlt := n.toNat_lt
  rw [UInt64.le_iff_toNat_le, UInt64.le_iff_toNat_le, UInt64.toNat_add]
  change ¬ (1 ≤ (n.toNat + 1) % _ ∧ (n.toNat + 1) % _ ≤ _)
  omega

theorem add_one_ne (c : UInt64) : c + 1 ≠ c := by
  intro hsame
  have hlt := c.toNat_lt
  have hnat := congrArg UInt64.toNat hsame
  rw [UInt64.toNat_add] at hnat
  change (c.toNat + 1) % _ = _ at hnat
  omega

namespace History.WellFormed

variable {history : History} {c : UInt64} {old e : FederationEpoch}

variable (h : history.WellFormed)

include h

variable (hc : history.current = some c)

include hc

theorem current_isSome : ∃ old, history.epochAt c = some old := by
  rw [← Option.isSome_iff_exists, h.numbered]
  exact ⟨c, hc, h.initialized c hc, UInt64.le_refl c⟩

/-- The epochs have the numbers up to the current one. -/
theorem exists_iff (n : UInt64) : (∃ e, history.epochAt n = some e) ↔ 1 ≤ n ∧ n ≤ c := by
  rw [← Option.isSome_iff_exists, h.numbered, hc]
  constructor
  · rintro ⟨_, ⟨⟩, hbounds⟩
    exact hbounds
  · intro hbounds
    exact ⟨c, rfl, hbounds⟩

omit hc in
/-- A first epoch is appended. -/
theorem start (hnone : history.current = none) (he : e.WellFormed)
    (hopen : e.endHeight = none) : (history.append 1 e).WellFormed := by
  have habsent (n : UInt64) : history.epochAt n = none := by
    rw [← Option.not_isSome_iff_eq_none, h.numbered, hnone]
    rintro ⟨c, hc, -⟩
    cases hc
  have hat (n : UInt64) (e' : FederationEpoch) :
      (history.append 1 e).epochAt n = some e' ↔ n = 1 ∧ e = e' := by
    apply update_eq_some_iff.trans
    rw [habsent]
    exact ⟨fun h => h.resolve_right nofun, .inl⟩
  refine ⟨?_, ?_, ?_, ?_, ?_⟩
  · rintro n ⟨⟩
    exact UInt64.le_refl 1
  · intro n
    rw [Option.isSome_iff_exists]
    constructor
    · rintro ⟨e', he'⟩
      obtain ⟨rfl, -⟩ := (hat n e').mp he'
      exact ⟨1, rfl, UInt64.le_refl 1, UInt64.le_refl 1⟩
    · rintro ⟨c, ⟨⟩, hlow, hhigh⟩
      exact ⟨e, (hat n e).mpr ⟨UInt64.le_antisymm hhigh hlow, rfl⟩⟩
  · intro n e' he'
    obtain ⟨-, rfl⟩ := (hat n e').mp he'
    exact he
  · intro n e' he'
    obtain ⟨rfl, rfl⟩ := (hat n e').mp he'
    exact iff_of_true hopen rfl
  · intro n e' next he' hnext
    obtain ⟨rfl, -⟩ := (hat n e').mp he'
    exact absurd ((hat _ next).mp hnext).1 (by decide)

variable {n : UInt64} {e' : FederationEpoch}

omit hc in
omit h in
/-- An epoch replaces the current one: each has the heights of the one in its place before. -/
theorem before_put (hold : history.epochAt c = some old) (hend : e.endHeight = old.endHeight)
    (hstart : e.startHeight = old.startHeight) (he' : (history.put c e).epochAt n = some e') :
    ∃ before, history.epochAt n = some before ∧ e'.endHeight = before.endHeight ∧
      e'.startHeight = before.startHeight := by
  obtain ⟨rfl, rfl⟩ | ⟨-, he'⟩ := update_eq_some_iff.mp he'
  · exact ⟨old, hold, hend, hstart⟩
  · exact ⟨e', he', rfl, rfl⟩

/-- The current epoch is replaced by one with the same heights. -/
theorem put_iff
    (hold : history.epochAt c = some old) (hend : e.endHeight = old.endHeight)
    (hstart : e.startHeight = old.startHeight) :
    (history.put c e).WellFormed ↔ e.WellFormed := by
  constructor
  · intro hput
    exact hput.sound c e (update_self ..)
  · intro he
    refine ⟨h.initialized, ?_, ?_, ?_, ?_⟩
    · intro n
      apply Iff.trans _ (h.numbered n)
      by_cases hn : n = c
      · subst hn
        show (Function.update history.epochAt n (some e) n).isSome = true ↔ _
        rw [update_self, hold]
        exact iff_of_true rfl rfl
      · show (Function.update history.epochAt c (some e) n).isSome = true ↔ _
        rw [update_of_ne hn]
    · intro n e' he'
      obtain ⟨-, rfl⟩ | ⟨-, he'⟩ := update_eq_some_iff.mp he'
      · exact he
      · exact h.sound n e' he'
    · intro n e' he'
      obtain ⟨before, hbefore, hsame, -⟩ := before_put hold hend hstart he'
      rw [hsame]
      exact h.open_iff n before hbefore
    · intro n e' next he' hnext
      obtain ⟨before, hbefore, hsame, -⟩ := before_put hold hend hstart he'
      obtain ⟨after, hafter, -, hsame'⟩ := before_put hold hend hstart hnext
      rw [hsame, hsame']
      exact h.linked n before after hbefore hafter

/-- The current epoch is closed where the next one starts. -/
def extended (history : History) (c : UInt64) (old e : FederationEpoch) : History :=
  (history.put c { old with endHeight := some e.startHeight }).append (c + 1) e

omit hc in
omit h in
/-- An epoch of the extended history is the new one, the closed one or one before them. -/
theorem extended_iff :
    (extended history c old e).epochAt n = some e' ↔
      n = c + 1 ∧ e = e' ∨ n = c ∧ { old with endHeight := some e.startHeight } = e' ∨
        n ≠ c + 1 ∧ n ≠ c ∧ history.epochAt n = some e' := by
  apply update_eq_some_iff.trans
  refine or_congr_right ?_
  show _ ∧ Function.update _ _ _ n = _ ↔ _
  rw [update_eq_some_iff]
  constructor
  · rintro ⟨hn', ⟨rfl, hclosed⟩ | ⟨hn, he'⟩⟩
    · exact .inl ⟨rfl, hclosed⟩
    · exact .inr ⟨hn', hn, he'⟩
  · rintro (⟨rfl, hclosed⟩ | ⟨hn', hn, he'⟩)
    · exact ⟨(add_one_ne n).symm, .inl ⟨rfl, hclosed⟩⟩
    · exact ⟨hn', .inr ⟨hn, he'⟩⟩

variable (hlast : c ≠ 18446744073709551615)

include hlast

theorem extended_numbered (n : UInt64) :
    ((extended history c old e).epochAt n).isSome ↔ 1 ≤ n ∧ n ≤ c + 1 := by
  rw [Option.isSome_iff_exists, le_add_one_iff hlast]
  constructor
  · rintro ⟨e', he'⟩
    obtain ⟨rfl, -⟩ | ⟨rfl, -⟩ | ⟨-, -, hbefore⟩ := extended_iff.mp he'
    · exact ⟨one_le_add_one hlast, .inr rfl⟩
    · exact ⟨h.initialized n hc, .inl (UInt64.le_refl n)⟩
    · obtain ⟨hlow, hhigh⟩ := (h.exists_iff hc n).mp ⟨e', hbefore⟩
      exact ⟨hlow, .inl hhigh⟩
  · rintro ⟨hlow, hhigh⟩
    by_cases hn' : n = c + 1
    · exact ⟨e, extended_iff.mpr (.inl ⟨hn', rfl⟩)⟩
    · by_cases hn : n = c
      · exact ⟨_, extended_iff.mpr (.inr (.inl ⟨hn, rfl⟩))⟩
      · obtain ⟨e', he'⟩ := (h.exists_iff hc n).mpr ⟨hlow, hhigh.resolve_right hn'⟩
        exact ⟨e', extended_iff.mpr (.inr (.inr ⟨hn', hn, he'⟩))⟩

theorem extended_linked (hold : history.epochAt c = some old)
    {after : FederationEpoch} (he' : (extended history c old e).epochAt n = some e')
    (hafter : (extended history c old e).epochAt (n + 1) = some after) :
    e'.endHeight = some after.startHeight := by
  obtain ⟨rfl, -⟩ | ⟨rfl, rfl⟩ | ⟨-, hn, hbefore⟩ := extended_iff.mp he'
  · -- no epoch follows the new one
    have hsome := (extended_numbered h hc hlast _).mp (Option.isSome_iff_exists.mpr ⟨_, hafter⟩)
    exact absurd hsome (not_one_le_add_one_le (c + 1))
  · obtain ⟨-, rfl⟩ | ⟨hsame, -⟩ | ⟨hne, -, -⟩ := extended_iff.mp hafter
    · rfl
    · exact absurd hsame (add_one_ne n)
    · exact absurd rfl hne
  · obtain ⟨hsame, -⟩ | ⟨rfl, rfl⟩ | ⟨-, -, hafter⟩ := extended_iff.mp hafter
    · exact absurd ((UInt64.add_left_inj 1).mp hsame) hn
    · exact h.linked n e' old hbefore hold
    · exact h.linked n e' after hbefore hafter

theorem extend (hold : history.epochAt c = some old) (he : e.WellFormed)
    (hopen : e.endHeight = none) : (extended history c old e).WellFormed := by
  refine ⟨?_, ?_, ?_, ?_, fun n e' after => extended_linked h hc hlast hold⟩
  · rintro n ⟨⟩
    exact one_le_add_one hlast
  · intro n
    rw [extended_numbered h hc hlast]
    constructor
    · intro hbounds
      exact ⟨c + 1, rfl, hbounds⟩
    · rintro ⟨_, ⟨⟩, hbounds⟩
      exact hbounds
  · intro n e' he'
    obtain ⟨-, rfl⟩ | ⟨-, rfl⟩ | ⟨-, -, hbefore⟩ := extended_iff.mp he'
    · exact he
    · have hsound := h.sound c old hold
      exact ⟨hsound.threshold_pos, hsound.threshold_le, hsound.keys⟩
    · exact h.sound n e' hbefore
  · intro n e' he'
    show e'.endHeight = none ↔ some (c + 1) = some n
    obtain ⟨rfl, rfl⟩ | ⟨rfl, rfl⟩ | ⟨hn', hn, hbefore⟩ := extended_iff.mp he'
    · exact iff_of_true hopen rfl
    · exact iff_of_false nofun fun hsame => add_one_ne n (Option.some.inj hsame)
    · rw [h.open_iff n e' hbefore, hc]
      exact iff_of_false (fun hsame => hn (Option.some.inj hsame).symm)
        fun hsame => hn' (Option.some.inj hsame).symm

end History.WellFormed

/-- The counter of the epochs starts again at zero. -/
theorem History.not_wellFormed_append_zero (history : History) (e : FederationEpoch) :
    ¬ (history.append 0 e).WellFormed := by
  intro h
  exact absurd (h.initialized 0 rfl) (by decide)

end

namespace FederationManager

variable {self : FederationManager} {sidechainId : Hash}

def history (self : FederationManager) (sidechainId : Hash) : History where
  current := self.currentEpochs.lookup sidechainId
  epochAt := self.getEpoch sidechainId

def WellFormed (manager : FederationManager) : Prop :=
  ∀ sidechainId, (manager.history sidechainId).WellFormed

variable (number : UInt64) (epoch : FederationEpoch)

@[simp] theorem getEpoch_putEpoch :
    (self.putEpoch sidechainId number epoch).getEpoch sidechainId =
      Function.update (self.getEpoch sidechainId) number (some epoch) := by
  funext n
  rw [getEpoch, putEpoch, lookup_insert, Option.bind_some]
  by_cases hn : n = number
  · rw [hn, lookup_insert, update_self]
  · rw [lookup_insert_ne hn, update_of_ne hn, getEpoch]
    cases self.epochs.lookup sidechainId with
    | none => rfl
    | some epochs => rfl

variable {other : Hash} {next : FederationManager} {members : List MasternodeID}
  {threshold : UInt32} {publicKeys : List Bytes}

theorem getEpoch_putEpoch_ne (hother : other ≠ sidechainId) (number : UInt64)
    (epoch : FederationEpoch) :
    (self.putEpoch sidechainId number epoch).getEpoch other = self.getEpoch other := by
  funext n
  rw [getEpoch, putEpoch, lookup_insert_ne hother, getEpoch]

@[simp] theorem history_putEpoch :
    (self.putEpoch sidechainId number epoch).history sidechainId =
      (self.history sidechainId).put number epoch :=
  congrArg (History.mk _) (getEpoch_putEpoch number epoch)

theorem history_putEpoch_ne (hother : other ≠ sidechainId) (number : UInt64)
    (epoch : FederationEpoch) :
    (self.putEpoch sidechainId number epoch).history other = self.history other :=
  congrArg (History.mk _) (getEpoch_putEpoch_ne hother number epoch)

/-- The manager with a new current epoch. -/
def appendEpoch (self : FederationManager) (sidechainId : Hash) (number : UInt64)
    (epoch : FederationEpoch) : FederationManager :=
  (self.putEpoch sidechainId number epoch).setCurrentEpoch sidechainId number

@[simp] theorem history_appendEpoch :
    (self.appendEpoch sidechainId number epoch).history sidechainId =
      (self.history sidechainId).append number epoch :=
  congrArg₂ History.mk (lookup_insert _) (getEpoch_putEpoch number epoch)

theorem history_appendEpoch_ne (hother : other ≠ sidechainId) (number : UInt64)
    (epoch : FederationEpoch) :
    (self.appendEpoch sidechainId number epoch).history other = self.history other :=
  congrArg₂ History.mk (lookup_insert_ne hother) (getEpoch_putEpoch_ne hother number epoch)

/-- Where one history changes, the others stay well formed. -/
theorem wellFormed_iff_of_frame (sidechainId : Hash) (hself : self.WellFormed)
    (hframe : ∀ other, other ≠ sidechainId → next.history other = self.history other) :
    next.WellFormed ↔ (next.history sidechainId).WellFormed := by
  constructor
  · exact fun h => h sidechainId
  · intro h other
    by_cases hother : other = sidechainId
    · rw [hother]
      exact h
    · rw [hframe other hother]
      exact hself other

/-- What is asked of a federation's members, threshold and keys. -/
def Accepted (members : List MasternodeID) (threshold : UInt32) (publicKeys : List Bytes) : Prop :=
  members ≠ [] ∧ threshold ≠ 0 ∧ threshold ≤ UInt32.ofNat members.length ∧
    publicKeys.length = members.length

theorem validateFederation_eq_ok {federationWord thresholdWord keysWord : String} :
    validateFederation federationWord thresholdWord keysWord members threshold publicKeys =
      .ok () ↔ Accepted members threshold publicKeys := by
  rw [validateFederation, ite_fail_eq_ok, ite_fail_eq_ok, ite_fail_eq_ok, not_or, not_not,
    List.isEmpty_iff, and_iff_left rfl, and_assoc]
  have hbound : ¬ threshold > UInt32.ofNat members.length ↔
      threshold ≤ UInt32.ofNat members.length := UInt32.not_lt
  rw [hbound, Accepted]

theorem Accepted.wellFormed (h : Accepted members threshold publicKeys)
    (number startHeight : UInt64) :
    (FederationEpoch.new number members threshold startHeight publicKeys).WellFormed := by
  obtain ⟨-, hpos, hle, hkeys⟩ := h
  rw [UInt32.le_iff_toNat_le, UInt32.toNat_ofNat'] at hle
  refine ⟨?_, hle.trans (Nat.mod_le _ _), hkeys⟩
  exact Nat.one_le_iff_ne_zero.mpr fun hzero => hpos (UInt32.toNat.inj hzero)

theorem initializeFederation_eq_ok {startHeight number : UInt64} :
    self.initializeFederation sidechainId members threshold startHeight publicKeys =
      .ok (number, next) ↔
    Accepted members threshold publicKeys ∧ number = 1 ∧
      next = self.appendEpoch sidechainId 1
        (.new 1 members threshold startHeight publicKeys) := by
  rw [initializeFederation, bind_eq_ok]
  constructor
  · rintro ⟨_, hvalid, hnext⟩
    obtain ⟨rfl, rfl⟩ := Prod.mk.inj (Except.ok.inj hnext)
    exact ⟨validateFederation_eq_ok.mp hvalid, rfl, rfl⟩
  · rintro ⟨hvalid, rfl, rfl⟩
    exact ⟨(), validateFederation_eq_ok.mpr hvalid, rfl⟩

variable {newMembers : List MasternodeID} {newPublicKeys : List Bytes}

theorem transitionEpoch_eq_ok {newThreshold : UInt32}
    {currentHeight number : UInt64} :
    self.transitionEpoch sidechainId newMembers newThreshold currentHeight newPublicKeys =
      .ok (number, next) ↔
    Accepted newMembers newThreshold newPublicKeys ∧
      ∃ current, self.currentEpochs.lookup sidechainId = some current ∧ number = current + 1 ∧
        next = (self.modifyEpoch sidechainId current fun currentEpoch =>
            { currentEpoch with endHeight := some currentHeight }).appendEpoch
          sidechainId (current + 1)
          (.new (current + 1) newMembers newThreshold currentHeight newPublicKeys) := by
  rw [transitionEpoch, bind_eq_ok]
  constructor
  · rintro ⟨_, hvalid, hnext⟩
    obtain ⟨current, hcurrent, hnext⟩ := bind_eq_ok.mp hnext
    obtain ⟨rfl, rfl⟩ := Prod.mk.inj (Except.ok.inj hnext)
    exact ⟨validateFederation_eq_ok.mp hvalid, current, okOr_eq_ok.mp hcurrent, rfl, rfl⟩
  · rintro ⟨hvalid, current, hcurrent, rfl, rfl⟩
    refine ⟨(), validateFederation_eq_ok.mpr hvalid, bind_eq_ok.mpr ?_⟩
    exact ⟨current, okOr_eq_ok.mpr hcurrent, rfl⟩

/-- The epoch with other members. -/
def withMembers (F : Type) [F64Ceil F] (epoch : FederationEpoch) (newMembers : List MasternodeID)
    (newPublicKeys : List Bytes) : FederationEpoch :=
  { epoch with
    members := newMembers
    publicKeys := newPublicKeys
    threshold := rescaledThreshold F epoch.threshold epoch.members.length newMembers.length }

theorem updateFederationMembers_eq_ok {F : Type} [F64Ceil F] :
    self.updateFederationMembers F sidechainId newMembers newPublicKeys = .ok next ↔
      newMembers ≠ [] ∧ newPublicKeys.length = newMembers.length ∧
        ∃ current epoch, self.currentEpochs.lookup sidechainId = some current ∧
          self.getEpoch sidechainId current = some epoch ∧
          next = self.putEpoch sidechainId current
            (withMembers F epoch newMembers newPublicKeys) := by
  rw [updateFederationMembers, ite_fail_eq_ok, ite_fail_eq_ok, not_not, List.isEmpty_iff,
    bind_eq_ok]
  refine and_congr_right fun _ => and_congr_right fun _ => ?_
  constructor
  · rintro ⟨current, hcurrent, hnext⟩
    obtain ⟨epoch, hepoch, hnext⟩ := bind_eq_ok.mp hnext
    exact ⟨current, epoch, okOr_eq_ok.mp hcurrent, okOr_eq_ok.mp hepoch, (Except.ok.inj hnext).symm⟩
  · rintro ⟨current, epoch, hcurrent, hepoch, rfl⟩
    exact ⟨current, okOr_eq_ok.mpr hcurrent, bind_eq_ok.mpr ⟨epoch, okOr_eq_ok.mpr hepoch, rfl⟩⟩

def memberOne : MasternodeID where
  txid := .replicate 32 1
  vout := 0

def sidechainOne : Hash := .replicate 32 1

/-- A sidechain whose federation has one member, with the key of ones. -/
def oneMember : FederationManager :=
  new.appendEpoch sidechainOne 1 (.new 1 [memberOne] 1 10 [List.replicate 48 1])

end FederationManager

end Sidechain

end RustyCoin
