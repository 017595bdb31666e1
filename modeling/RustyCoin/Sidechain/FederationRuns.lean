import RustyCoin.Lib.MinMax
import RustyCoin.Lib.Prefixes
import RustyCoin.Sidechain.FederationManager

/-!
# Runs of the federation manager

The numbers of members go through 32 bits and those of epochs through 64.
`run_wellFormed_iff` says for which calls that does not matter: the counter must
not be at its end, and the members that replace others must not be so many that
their number, cut to 32 bits, falls below the threshold's share of them. The
share is computed in exact rationals.
-/

namespace RustyCoin.Sidechain.FederationManager

open Prefixes Nat UInt32 List

theorem rescaledThreshold_le (threshold : UInt32) (oldSize newSize : Nat) :
    (rescaledThreshold Rat threshold oldSize newSize).toNat ≤ newSize % 2 ^ 32 := by
  rw [rescaledThreshold, MinMax.toNat_min32, toNat_ofNat']
  exact Nat.min_le_right _ _

variable {threshold : UInt32} {number : UInt64} {newMembers : List MasternodeID}
  {newPublicKeys : List Bytes} {c : Call}

/-- The share of the threshold is kept unless the number of members is cut below it. -/
theorem le_rescaledThreshold_iff {oldSize newSize : Nat}
    (hsize : 0 < oldSize) :
    threshold.toNat * newSize ≤
        (rescaledThreshold Rat threshold oldSize newSize).toNat * oldSize ↔
      threshold.toNat * newSize ≤ oldSize * (newSize % 2 ^ 32) := by
  constructor
  · intro hkept
    apply hkept.trans
    rw [Nat.mul_comm oldSize]
    exact Nat.mul_le_mul_right oldSize (rescaledThreshold_le threshold oldSize newSize)
  · intro hfits
    -- the share, as the code computes it
    let share : Rat := (threshold.toUInt64.toNat : Rat) / (oldSize : Rat) * (newSize : Rat)
    have hshare (r : Nat) : share ≤ r ↔ threshold.toNat * newSize ≤ r * oldSize := by
      have hpos : (0 : Rat) < oldSize := cast_pos.mpr hsize
      show (threshold.toUInt64.toNat : Rat) / oldSize * newSize ≤ r ↔ _
      rw [toNat_toUInt64, div_mul_eq_mul_div, div_le_iff₀ hpos]
      norm_cast
    have hceil : ⌈share⌉₊ ≤ newSize % 2 ^ 32 := by
      rw [ceil_le, hshare, Nat.mul_comm _ oldSize]
      exact hfits
    have hmod : newSize % 2 ^ 32 < 2 ^ 32 := mod_lt _ (by decide)
    have hvalue : (rescaledThreshold Rat threshold oldSize newSize).toNat = ⌈share⌉₊ := by
      rw [rescaledThreshold, if_pos hsize, MinMax.toNat_min32]
      show min (UInt32.ofNat (min ⌈share⌉₊ (2 ^ 32 - 1))).toNat (UInt32.ofNat newSize).toNat = _
      rw [toNat_ofNat', toNat_ofNat']
      omega
    rw [hvalue, ← hshare]
    exact le_ceil share

/-- The calls that change the manager. -/
inductive Call where
  | initializeFederation (sidechainId : Hash) (members : List MasternodeID) (threshold : UInt32)
      (startHeight : UInt64) (publicKeys : List Bytes)
  | transitionEpoch (sidechainId : Hash) (newMembers : List MasternodeID) (newThreshold : UInt32)
      (currentHeight : UInt64) (newPublicKeys : List Bytes)
  | updateFederationMembers (sidechainId : Hash) (newMembers : List MasternodeID)
      (newPublicKeys : List Bytes)

def call (F : Type) [F64Ceil F] (self : FederationManager) :
    Call → Outcome String FederationManager
  | .initializeFederation sidechainId members threshold startHeight publicKeys =>
    Prod.snd <$> self.initializeFederation sidechainId members threshold startHeight publicKeys
  | .transitionEpoch sidechainId newMembers newThreshold currentHeight newPublicKeys =>
    Prod.snd <$>
      self.transitionEpoch sidechainId newMembers newThreshold currentHeight newPublicKeys
  | .updateFederationMembers sidechainId newMembers newPublicKeys =>
    self.updateFederationMembers F sidechainId newMembers newPublicKeys

/-- Every check comes before the first change, so a call that fails changes nothing. -/
def step (F : Type) [F64Ceil F] (self : FederationManager) (c : Call) : FederationManager :=
  match self.call F c with
  | .ok next => next
  | .error _ => self

/-- The manager after some calls, from an empty one. -/
def run (F : Type) [F64Ceil F] (calls : List Call) : FederationManager :=
  calls.foldl (step F) new

/-- A federation is initialized only where there is none yet. -/
def Call.Once : Call → FederationManager → Prop
  | .initializeFederation sidechainId .., manager => manager.currentEpochs.lookup sidechainId = none
  | _, _ => True

def thresholdRatio (epoch : FederationEpoch) : Rat :=
  epoch.threshold.toNat / epoch.members.length

/-- An update does not lower the threshold's share of the members. -/
def Call.KeepsRatio : Call → FederationManager → Prop
  | .updateFederationMembers sidechainId newMembers newPublicKeys, manager =>
    ∀ before after, manager.getCurrentEpoch sidechainId = some before →
      (manager.step Rat
        (.updateFederationMembers sidechainId newMembers newPublicKeys)).getCurrentEpoch
          sidechainId = some after →
      thresholdRatio before ≤ thresholdRatio after
  | _, _ => True

/-- An accepted transition does not start from the last number; the members of an update, in 32
bits, are not fewer than the threshold's share of them. -/
def Call.FitsWidths : Call → FederationManager → Prop
  | .initializeFederation .., _ => True
  | .transitionEpoch sidechainId newMembers newThreshold _ newPublicKeys, manager =>
    Accepted newMembers newThreshold newPublicKeys →
      manager.currentEpochs.lookup sidechainId ≠ some 18446744073709551615
  | .updateFederationMembers sidechainId newMembers newPublicKeys, manager =>
    newPublicKeys.length = newMembers.length →
      ∀ epoch, manager.getCurrentEpoch sidechainId = some epoch →
        epoch.threshold.toNat * newMembers.length ≤
          epoch.members.length * (newMembers.length % 2 ^ 32)

variable {self : FederationManager} {sidechainId : Hash}

theorem wellFormed_new : new.WellFormed := by
  intro sidechainId
  have hnone (n : UInt64) : (new.history sidechainId).epochAt n = none := rfl
  refine ⟨nofun, ?_, ?_, ?_, ?_⟩
  · intro n
    rw [hnone]
    exact iff_of_false nofun fun ⟨_, hcurrent, _⟩ => nomatch hcurrent
  · intro n e he
    cases (hnone n).symm.trans he
  · intro n e he
    cases (hnone n).symm.trans he
  · intro n e _ he _
    cases (hnone n).symm.trans he

variable {next : FederationManager}

variable (hself : self.WellFormed)

include hself

theorem WellFormed.initializeFederation
    (hnone : self.currentEpochs.lookup sidechainId = none) {members : List MasternodeID}
    {startHeight : UInt64} {publicKeys : List Bytes}
    (hcall : self.initializeFederation sidechainId members threshold startHeight publicKeys =
      .ok (number, next)) : next.WellFormed := by
  obtain ⟨haccepted, -, rfl⟩ := initializeFederation_eq_ok.mp hcall
  apply (wellFormed_iff_of_frame sidechainId hself
    fun _ hother => history_appendEpoch_ne hother _ _).mpr
  rw [history_appendEpoch]
  exact (hself sidechainId).start hnone (haccepted.wellFormed 1 startHeight) rfl

theorem transitionEpoch_wellFormed_iff
    {newThreshold : UInt32} {currentHeight : UInt64}
    (hcall : self.transitionEpoch sidechainId newMembers newThreshold currentHeight
      newPublicKeys = .ok (number, next)) :
    next.WellFormed ↔
      self.currentEpochs.lookup sidechainId ≠ some 18446744073709551615 := by
  obtain ⟨haccepted, current, hcurrent, -, rfl⟩ := transitionEpoch_eq_ok.mp hcall
  obtain ⟨old, hold⟩ := (hself sidechainId).current_isSome hcurrent
  have hmodified (change : FederationEpoch → FederationEpoch) :
      self.modifyEpoch sidechainId current change =
        self.putEpoch sidechainId current (change old) := by
    have hgot : self.getEpoch sidechainId current = some old := hold
    rw [modifyEpoch, hgot]
  rw [hmodified, wellFormed_iff_of_frame sidechainId hself, history_appendEpoch,
    history_putEpoch, hcurrent]
  · constructor
    · rintro hnext ⟨⟩
      exact History.not_wellFormed_append_zero _ _ hnext
    · intro hlast
      have hlast : current ≠ 18446744073709551615 := fun h => hlast (congrArg some h)
      exact (hself sidechainId).extend hcurrent hlast hold
        (haccepted.wellFormed (current + 1) currentHeight) rfl
  · intro other hother
    rw [history_appendEpoch_ne hother, history_putEpoch_ne hother]

theorem WellFormed.current_size_pos {current : UInt64}
    {epoch : FederationEpoch} (hepoch : self.getEpoch sidechainId current = some epoch) :
    0 < epoch.members.length := by
  have hsound := (hself sidechainId).sound current epoch hepoch
  exact Nat.lt_of_lt_of_le hsound.threshold_pos hsound.threshold_le

/-- An update keeps the manager well formed and the ratio exactly if the new number of members,
in 32 bits, is not below the threshold's share. -/
theorem updateFederationMembers_iff
    (hcall : self.updateFederationMembers Rat sidechainId newMembers newPublicKeys = .ok next) :
    (next.WellFormed ∧ ∀ before after, self.getCurrentEpoch sidechainId = some before →
        next.getCurrentEpoch sidechainId = some after →
        thresholdRatio before ≤ thresholdRatio after) ↔
      ∀ epoch, self.getCurrentEpoch sidechainId = some epoch →
        epoch.threshold.toNat * newMembers.length ≤
          epoch.members.length * (newMembers.length % 2 ^ 32) := by
  obtain ⟨hmembers, hkeys, current, epoch, hcurrent, hepoch, rfl⟩ :=
    updateFederationMembers_eq_ok.mp hcall
  have hsound := (hself sidechainId).sound current epoch hepoch
  have hsize := hself.current_size_pos hepoch
  have hnewSize : 0 < newMembers.length := length_pos_iff.mpr hmembers
  have hbefore : self.getCurrentEpoch sidechainId = some epoch := by
    rw [getCurrentEpoch, hcurrent, Option.bind_some, hepoch]
  have hafter : (self.putEpoch sidechainId current
      (withMembers Rat epoch newMembers newPublicKeys)).getCurrentEpoch sidechainId =
        some (withMembers Rat epoch newMembers newPublicKeys) := by
    rw [getCurrentEpoch, getEpoch_putEpoch]
    show (self.currentEpochs.lookup sidechainId).bind _ = _
    rw [hcurrent, Option.bind_some, Function.update_self]
  have hwellFormed : (self.putEpoch sidechainId current
      (withMembers Rat epoch newMembers newPublicKeys)).WellFormed ↔
        (withMembers Rat epoch newMembers newPublicKeys).WellFormed := by
    rw [wellFormed_iff_of_frame sidechainId hself
      fun _ hother => history_putEpoch_ne hother _ _, history_putEpoch]
    exact (hself sidechainId).put_iff hcurrent hepoch rfl rfl
  have hratio : thresholdRatio epoch ≤
      thresholdRatio (withMembers Rat epoch newMembers newPublicKeys) ↔
        epoch.threshold.toNat * newMembers.length ≤
          epoch.members.length * (newMembers.length % 2 ^ 32) := by
    rw [← le_rescaledThreshold_iff hsize, thresholdRatio, thresholdRatio,
      div_le_div_iff₀ (cast_pos.mpr hsize) (cast_pos.mpr hnewSize)]
    norm_cast
  rw [hwellFormed, hbefore, hafter]
  constructor
  · rintro ⟨-, hkept⟩ _ ⟨⟩
    exact hratio.mp (hkept _ _ rfl rfl)
  · intro hfits
    constructor
    · -- the threshold cannot be zero, as the old share of the members was not
      have hkept := (le_rescaledThreshold_iff hsize).mpr (hfits epoch rfl)
      have hshare : 0 < epoch.threshold.toNat * newMembers.length :=
        Nat.mul_pos hsound.threshold_pos hnewSize
      refine ⟨Nat.pos_of_mul_pos_right (hshare.trans_le hkept), ?_, hkeys⟩
      exact (rescaledThreshold_le _ _ _).trans (mod_le _ _)
    · rintro _ _ ⟨⟩ ⟨⟩
      exact hratio.mpr (hfits epoch rfl)

omit hself

theorem step_of_ok (hcall : self.call Rat c = .ok next) : self.step Rat c = next := by
  rw [step, hcall]

theorem step_of_error {failure : Failure String}
    (hcall : self.call Rat c = .error failure) : self.step Rat c = self := by
  rw [step, hcall]

theorem step_wellFormed_iff (hself : self.WellFormed) (c : Call) (honce : c.Once self) :
    (self.step Rat c).WellFormed ∧ c.KeepsRatio self ↔ c.FitsWidths self := by
  cases hcall : self.call Rat c with
  | error failure =>
    -- nothing changes, and the conditions speak of calls that are accepted
    have hsame := step_of_error hcall
    rw [hsame]
    refine iff_of_true ⟨hself, ?_⟩ ?_
    · cases c with
      | initializeFederation => exact trivial
      | transitionEpoch => exact trivial
      | updateFederationMembers sidechainId newMembers newPublicKeys =>
        intro before after hbefore hafter
        rw [hsame, hbefore] at hafter
        cases hafter
        exact le_refl _
    · cases c with
      | initializeFederation => exact trivial
      | transitionEpoch sidechainId newMembers newThreshold currentHeight newPublicKeys =>
        intro haccepted hlast
        have hok : self.transitionEpoch sidechainId newMembers newThreshold currentHeight
            newPublicKeys = .ok _ :=
          transitionEpoch_eq_ok.mpr ⟨haccepted, _, hlast, rfl, rfl⟩
        rw [call, hok] at hcall
        cases hcall
      | updateFederationMembers sidechainId newMembers newPublicKeys =>
        intro hkeys epoch hepoch
        obtain ⟨current, hcurrent, hfound⟩ := Option.bind_eq_some_iff.mp hepoch
        by_cases hmembers : newMembers = []
        · rw [hmembers]
          exact Nat.zero_le _
        · have hok : self.updateFederationMembers Rat sidechainId newMembers newPublicKeys =
              .ok _ := updateFederationMembers_eq_ok.mpr
            ⟨hmembers, hkeys, current, epoch, hcurrent, hfound, rfl⟩
          rw [call, hok] at hcall
          cases hcall
  | ok next =>
    rw [step_of_ok hcall]
    cases c with
    | initializeFederation sidechainId members threshold startHeight publicKeys =>
      obtain ⟨⟨number, _⟩, hok, rfl⟩ := Outcome.map_eq_ok.mp hcall
      exact iff_of_true ⟨hself.initializeFederation honce hok, trivial⟩ trivial
    | transitionEpoch sidechainId newMembers newThreshold currentHeight newPublicKeys =>
      obtain ⟨⟨number, _⟩, hok, rfl⟩ := Outcome.map_eq_ok.mp hcall
      have haccepted := (transitionEpoch_eq_ok.mp hok).1
      rw [transitionEpoch_wellFormed_iff hself hok]
      exact ⟨fun h _ => h.1, fun h => ⟨h haccepted, trivial⟩⟩
    | updateFederationMembers sidechainId newMembers newPublicKeys =>
      have hkeys := (updateFederationMembers_eq_ok.mp hcall).2.1
      have hkept :
          (Call.updateFederationMembers sidechainId newMembers newPublicKeys).KeepsRatio self ↔
          ∀ before after, self.getCurrentEpoch sidechainId = some before →
            next.getCurrentEpoch sidechainId = some after →
            thresholdRatio before ≤ thresholdRatio after := by
        rw [Call.KeepsRatio, step_of_ok hcall]
      rw [hkept, updateFederationMembers_iff hself hcall]
      exact ⟨fun h _ => h, fun h => h hkeys⟩

/-- All along a run every history is well formed and no update lowers the ratio, exactly if the
widths of the numbers suffice at every call. -/
theorem run_wellFormed_iff (calls : List Call)
    (honce : ∀ front c, front ++ [c] <+: calls → c.Once (run Rat front)) :
    (∀ front c, front ++ [c] <+: calls →
        (run Rat (front ++ [c])).WellFormed ∧ c.KeepsRatio (run Rat front)) ↔
      ∀ front c, front ++ [c] <+: calls → c.FitsWidths (run Rat front) := by
  refine steps_iff (fun front => (run Rat front).WellFormed)
    (fun front c => c.KeepsRatio (run Rat front)) (fun front c => c.FitsWidths (run Rat front))
    wellFormed_new fun front c hfront hself => ?_
  rw [run, foldl_snoc]
  exact step_wellFormed_iff hself c (honce front c hfront)

/-- A federation of one member is set up, and the federation after it has one member, too. -/
def oneByOne : List Call :=
  [.initializeFederation sidechainOne [memberOne] 1 10 [[1]],
    .transitionEpoch sidechainOne [memberOne] 1 20 [[2]],
    .updateFederationMembers sidechainOne [memberOne] [[3]]]

/-- The member is replaced by `2 ^ 32` members. -/
def manyMembers : Call :=
  .updateFederationMembers sidechainOne (List.replicate 4294967296 memberOne)
    (List.replicate 4294967296 [1])

theorem run_wellFormed_oneByOne :
    (run Rat oneByOne).WellFormed ∧
      (Call.updateFederationMembers sidechainOne [memberOne] [[3]]).KeepsRatio
        (run Rat [.initializeFederation sidechainOne [memberOne] 1 10 [[1]],
          .transitionEpoch sidechainOne [memberOne] 1 20 [[2]]]) := by
  refine (run_wellFormed_iff oneByOne ?_).mpr ?_ [_, _] _ (prefix_refl oneByOne)
  · rw [oneByOne, forall_snoc_cons, forall_snoc_cons, forall_snoc_cons]
    exact ⟨rfl, trivial, trivial, forall_snoc_nil⟩
  · rw [oneByOne, forall_snoc_cons, forall_snoc_cons, forall_snoc_cons]
    refine ⟨trivial, ?_, ?_, forall_snoc_nil⟩
    · rintro - ⟨⟩
    · rintro - epoch ⟨⟩
      decide

/-- So many members get the threshold zero. -/
theorem run_manyMembers :
    ∃ epoch, (run Rat [.initializeFederation sidechainOne [memberOne] 1 10 [[1]],
        manyMembers]).getCurrentEpoch sidechainOne = some epoch ∧
      epoch.members.length = 4294967296 ∧ epoch.threshold = 0 ∧
      ¬ (run Rat [.initializeFederation sidechainOne [memberOne] 1 10 [[1]],
        manyMembers]).WellFormed := by
  let members := List.replicate 4294967296 memberOne
  let keys : List Bytes := List.replicate 4294967296 [1]
  let before := run Rat [.initializeFederation sidechainOne [memberOne] 1 10 [[1]]]
  let epoch := FederationEpoch.new 1 [memberOne] 1 10 [[1]]
  have hlength : members.length = 4294967296 := length_replicate
  have hcall : before.call Rat manyMembers =
      .ok (before.putEpoch sidechainOne 1 (withMembers Rat epoch members keys)) := by
    apply updateFederationMembers_eq_ok.mpr
    refine ⟨?_, ?_, 1, epoch, rfl, rfl, rfl⟩
    · rw [← length_pos_iff, hlength]
      decide
    · rw [hlength]
      exact length_replicate
  have hrun : run Rat [.initializeFederation sidechainOne [memberOne] 1 10 [[1]], manyMembers] =
      before.putEpoch sidechainOne 1 (withMembers Rat epoch members keys) :=
    (foldl_snoc (step Rat) [_] manyMembers).trans (step_of_ok hcall)
  have hepoch : (before.putEpoch sidechainOne 1 (withMembers Rat epoch members keys)).getEpoch
      sidechainOne 1 = some (withMembers Rat epoch members keys) := by
    rw [getEpoch_putEpoch, Function.update_self]
  have hzero : (withMembers Rat epoch members keys).threshold = 0 := by
    have hle := rescaledThreshold_le epoch.threshold epoch.members.length members.length
    have hmod : members.length % 2 ^ 32 = 0 := by
      rw [hlength]
      decide
    rw [hmod] at hle
    exact UInt32.toNat.inj (le_zero.mp hle)
  rw [hrun]
  refine ⟨withMembers Rat epoch members keys, hepoch, hlength, hzero, ?_⟩
  intro hwellFormed
  have hpos := ((hwellFormed sidechainOne).sound 1 _ hepoch).threshold_pos
  rw [hzero] at hpos
  exact absurd hpos (by decide)

end RustyCoin.Sidechain.FederationManager
