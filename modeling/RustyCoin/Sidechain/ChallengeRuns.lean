import RustyCoin.Sidechain.FraudProofs

/-!
# Histories of the challenges

A history is the manager of the challenges together with the ids of the
submitted challenges and of those that have reached an outcome, one entry for
each time. The manager in it goes through the states of the modelled calls
(`History.lifts_call`). A challenge that cannot be verified is lost, and one that
has been completed can be submitted and completed again.
-/

namespace RustyCoin.Sidechain.FraudProofManager

open Outcome Stateful List

section

inductive Call where
  | submitFraudProof (fraudProof : FraudProof) (challengerBond : UInt64)
  | submitResponse (challengeId : Hash) (response : FraudProofResponse)
  | processChallenges (blockHeight : UInt64)

structure History where
  manager : FraudProofManager
  submitted : List Hash
  outcomes : List Hash

variable (codec : SidechainCodec) (env : Platform)

/-- The call itself, whatever it returns. -/
def perform : Call → Stateful String FraudProofManager Unit
  | .submitFraudProof fraudProof challengerBond => do
    let _ ← submitFraudProof codec env fraudProof challengerBond
    return ()
  | .submitResponse challengeId response => submitResponse challengeId response
  | .processChallenges blockHeight => processChallenges env blockHeight

namespace History

def start (config : FraudProofConfig) : History where
  manager := .new config
  submitted := []
  outcomes := []

def setManager (manager : FraudProofManager) (history : History) : History :=
  { history with manager := manager }

variable (challengeId : Hash)

def noteSubmitted (history : History) : History :=
  { history with submitted := history.submitted ++ [challengeId] }

def noteOutcome (history : History) : History :=
  { history with outcomes := history.outcomes ++ [challengeId] }

variable {α : Type} (x : Stateful String FraudProofManager α)

/-- A call on the manager. -/
def onManager : Stateful String History α :=
  .zoom manager setManager x

/-- A processed challenge has reached its outcome. -/
def processSingleChallenge : Stateful String History Unit := do
  onManager (FraudProofManager.processSingleChallenge env challengeId)
  .modify (noteOutcome challengeId)

def processChallenges (blockHeight : UInt64) : Stateful String History Unit := do
  .modify fun history =>
    history.setManager { history.manager with currentBlockHeight := blockHeight }
  let challengeIds ← .read fun history => .ok history.manager.activeChallenges.keys
  forM challengeIds (processSingleChallenge env)

def call : Call → Stateful String History Unit
  | .submitFraudProof fraudProof challengerBond => do
    let challengeId ← onManager (submitFraudProof codec env fraudProof challengerBond)
    .modify (noteSubmitted challengeId)
  | .submitResponse challengeId response => onManager (submitResponse challengeId response)
  | .processChallenges blockHeight => processChallenges env blockHeight

def step (history : History) (c : Call) : History :=
  ((call codec env c).run history).2

def run (history : History) (calls : List Call) : History :=
  calls.foldl (step codec env) history

theorem lifts_onManager : Stateful.Lifts manager (onManager x) x :=
  lifts_zoom x fun _ _ => rfl

theorem lifts_processSingleChallenge (id : Hash) :
    Stateful.Lifts manager (processSingleChallenge env id)
      (FraudProofManager.processSingleChallenge env id) := by
  have hnoted := (lifts_onManager (FraudProofManager.processSingleChallenge env id)).bind
    fun _ => lifts_note (f := noteOutcome id) fun _ => rfl
  rwa [bind_pure_unit] at hnoted

variable {next : FraudProofManager}

theorem run_processSingleChallenge_of_ok {history : History} {id : Hash}
    (h : (FraudProofManager.processSingleChallenge env id).run history.manager = (.ok (), next)) :
    ((processSingleChallenge env id).run history).2 =
      ⟨next, history.submitted, history.outcomes ++ [id]⟩ :=
  congrArg Prod.snd (run_bind_of_ok (run_zoom_of_run h))

theorem run_processSingleChallenge_of_error {history : History} {id : Hash} {e : Failure String}
    (h : (FraudProofManager.processSingleChallenge env id).run history.manager = (.error e, next)) :
    ((processSingleChallenge env id).run history).2 =
      ⟨next, history.submitted, history.outcomes⟩ :=
  congrArg Prod.snd (run_bind_of_error (run_zoom_of_run h))

/-- The notes are taken beside the calls: the manager does not see them. -/
theorem lifts_call (c : Call) :
    Stateful.Lifts manager (call codec env c) (perform codec env c) := by
  cases c with
  | submitFraudProof fraudProof bond =>
    exact (lifts_onManager _).bind fun id => lifts_note fun _ => rfl
  | submitResponse id response => exact lifts_onManager _
  | processChallenges blockHeight =>
    refine Stateful.Lifts.bind (lifts_modify fun _ => rfl) fun _ => ?_
    refine Stateful.Lifts.bind (lifts_read _) fun ids => ?_
    exact lifts_forM (lifts_processSingleChallenge env) ids

theorem manager_step (history : History) (c : Call) :
    (history.step codec env c).manager =
      ((perform codec env c).run history.manager).2 := by
  rw [lifts_call codec env c history]
  rfl

end History

end

variable {codec : SidechainCodec} {env : Platform} {config : FraudProofConfig}

/-- Nothing has been submitted. -/
structure Unused (config : FraudProofConfig) (manager : FraudProofManager) : Prop where
  config_eq : manager.config = config
  active : manager.activeChallenges = ∅
  stats : manager.stats = .default

structure Idle (config : FraudProofConfig) (history : History) : Prop where
  unused : Unused config history.manager
  submitted : history.submitted = []
  outcomes : history.outcomes = []

theorem preserves_submitResponse (id : Hash) (response : FraudProofResponse) :
    Stateful.Preserves (Unused config) (submitResponse id response) := by
  intro manager h
  refine inv_run_read_bind h fun challenge hactive => ?_
  rw [h.active] at hactive
  cases okOr_eq_ok.mp hactive

variable (hlarge : ∀ proof, config.maxProofSize.toNat < (codec.fraudProof proof).length)

include hlarge

/-- If no proof is small enough, none is accepted. -/
theorem submitFraudProof_of_large (env : Platform) {manager : FraudProofManager}
    (h : Unused config manager) (fraudProof : FraudProof) (bond : UInt64) :
    ∃ e, (submitFraudProof codec env fraudProof bond).run manager = (.error e, manager) := by
  rw [submitFraudProof, run_read_bind]
  cases hvalid : manager.validateSubmission codec fraudProof bond with
  | error e => exact ⟨e, rfl⟩
  | ok a =>
    rw [validateSubmission, ite_fail_eq_ok, ite_fail_eq_ok, h.config_eq] at hvalid
    exact absurd (hlarge fraudProof) hvalid.2.1

/-- Then there is nothing to process either. -/
theorem Idle.step {history : History} (h : Idle config history) (c : Call) :
    Idle config (history.step codec env c) := by
  cases c with
  | submitFraudProof fraudProof bond =>
    obtain ⟨e, hrun⟩ := submitFraudProof_of_large hlarge env h.unused fraudProof bond
    have hstep : history.step codec env (.submitFraudProof fraudProof bond) = history :=
      congrArg Prod.snd (run_bind_of_error (run_zoom_of_run hrun))
    rw [hstep]
    exact h
  | submitResponse id response =>
    exact ⟨preserves_submitResponse id response _ h.unused, h.submitted, h.outcomes⟩
  | processChallenges blockHeight =>
    have hkeys : history.manager.activeChallenges.keys = [] := by
      rw [h.unused.active]
      rfl
    rw [History.step, History.call, History.processChallenges, run_modify_bind, run_read_bind]
    simp only [History.setManager, hkeys]
    exact ⟨⟨h.unused.config_eq, h.unused.active, h.unused.stats⟩, h.submitted, h.outcomes⟩

theorem Idle.run (calls : List Call) : Idle config ((History.start config).run codec env calls) :=
  Prefixes.foldl_invariant _ ⟨⟨rfl, rfl, rfl⟩, rfl, rfl⟩ (fun _ c h => h.step hlarge c) calls

omit hlarge

section

variable {codec : SidechainCodec} {env : Platform} {history : History} {fraudProof : FraudProof}

/-- The challenges add up, none is lost, and none has two outcomes. -/
structure Accounted (history : History) : Prop where
  total : history.manager.stats.totalChallenges.toNat =
    history.manager.activeChallenges.len + history.manager.stats.provenFrauds.toNat +
      history.manager.stats.disprovenChallenges.toNat +
      history.manager.stats.timedOutChallenges.toNat
  present : ∀ id ∈ history.submitted,
    (history.manager.activeChallenges.lookup id).isSome ∨
      (history.manager.completedChallenges.lookup id).isSome
  once : history.outcomes.Nodup

theorem Idle.accounted {config : FraudProofConfig} (h : Idle config history) :
    Accounted history := by
  refine ⟨?_, ?_, ?_⟩
  · rw [h.unused.stats, h.unused.active]
    rfl
  · rw [h.submitted]
    exact nofun
  · rw [h.outcomes]
    exact nodup_nil

/-- A proof is submitted and the challenges of block zero are processed. -/
def round (fraudProof : FraudProof) : List Call :=
  [.submitFraudProof fraudProof 0xFFFFFFFFFFFFFFFF, .processChallenges 0]

/-- No challenge is active at block zero. -/
structure Ready (config : FraudProofConfig) (manager : FraudProofManager) : Prop where
  config_eq : manager.config = config
  active : manager.activeChallenges = ∅
  height : manager.currentBlockHeight = 0

variable {config : FraudProofConfig} {manager : FraudProofManager} {id : Hash}

/-- The manager when the challenge is about to be processed. -/
def opened (manager : FraudProofManager) (id : Hash) (fraudProof : FraudProof) :
    FraudProofManager :=
  { manager.addChallenge id (manager.createChallenge id fraudProof 0xFFFFFFFFFFFFFFFF) with
    currentBlockHeight := 0 }

theorem ready_removed (hready : Ready config manager) (id : Hash) (fraudProof : FraudProof) :
    Ready config ((opened manager id fraudProof).removeChallenge id) := by
  refine ⟨hready.config_eq, ?_, rfl⟩
  show (manager.activeChallenges.insert _ _).erase _ = ∅
  rw [hready.active]
  exact HashMap.erase_singleton _ _

theorem process_opened (env : Platform) (hready : Ready config manager) (id : Hash)
    (fraudProof : FraudProof) :
    (processSingleChallenge env id).run (opened manager id fraudProof) =
      match (new config).verifyFraudProof env fraudProof [] with
      | .ok verdict => (.ok (), ((opened manager id fraudProof).removeChallenge id).settle id
          (manager.createChallenge id fraudProof 0xFFFFFFFFFFFFFFFF) verdict)
      | .error e => (.error e, (opened manager id fraudProof).removeChallenge id) := by
  let challenge := manager.createChallenge id fraudProof 0xFFFFFFFFFFFFFFFF
  have hactive : (opened manager id fraudProof).activeChallenges.lookup id = some challenge :=
    AList.lookup_insert _
  have hopen : ¬ (opened manager id fraudProof).currentBlockHeight >
      challenge.verificationDeadline := UInt64.not_lt.mpr UInt64.zero_le
  have hconfig : (opened manager id fraudProof).config = (new config).config := hready.config_eq
  rw [processSingleChallenge_of_active hactive, if_neg hopen, verifyFraudProof_congr hconfig]
  rfl

variable (hready : Ready config history.manager)
  (hfits : (codec.fraudProof fraudProof).length ≤ config.maxProofSize.toNat)
  (hid : id = generateChallengeId codec env fraudProof)

include hready hfits hid

theorem run_round :
    history.run codec env (round fraudProof) =
      ((History.processSingleChallenge env id).run
        ⟨opened history.manager id fraudProof, history.submitted ++ [id], history.outcomes⟩).2 := by
  let challenge := history.manager.createChallenge id fraudProof 0xFFFFFFFFFFFFFFFF
  have hbond : history.manager.config.minChallengeBond ≤ 0xFFFFFFFFFFFFFFFF := by
    rw [UInt64.le_iff_toNat_le]
    exact Nat.le_of_lt_succ (UInt64.toNat_lt _)
  have hsize : (codec.fraudProof fraudProof).length ≤
      history.manager.config.maxProofSize.toNat := by
    rw [hready.config_eq]
    exact hfits
  have hnew : history.manager.activeChallenges.lookup id = none := by
    rw [hready.active]
    rfl
  have hsubmit : (submitFraudProof codec env fraudProof 0xFFFFFFFFFFFFFFFF).run
      history.manager = (.ok id, history.manager.addChallenge id challenge) :=
    submitFraudProof_eq_ok.mpr ⟨hbond, hsize, hid, hnew, rfl⟩
  have hstep : history.step codec env (.submitFraudProof fraudProof 0xFFFFFFFFFFFFFFFF) =
      ⟨history.manager.addChallenge id challenge, history.submitted ++ [id], history.outcomes⟩ :=
    congrArg Prod.snd (run_bind_of_ok (run_zoom_of_run hsubmit))
  have hkeys : (history.manager.addChallenge id challenge).activeChallenges.keys = [id] := by
    show (history.manager.activeChallenges.insert id challenge).keys = [id]
    rw [hready.active]
    exact HashMap.keys_singleton id challenge
  rw [History.run, round, foldl_cons, hstep, foldl_cons, foldl_nil, History.step,
    History.call, History.processChallenges, run_modify_bind, run_read_bind]
  simp only [History.setManager, hkeys, forM_cons, forM_nil, bind_pure_unit]
  rfl

/-- A challenge that cannot be verified has no outcome, and is gone. -/
theorem run_round_of_error {e : Failure String}
    (herror : (new config).verifyFraudProof env fraudProof [] = .error e) :
    history.run codec env (round fraudProof) =
      ⟨(opened history.manager id fraudProof).removeChallenge id, history.submitted ++ [id],
        history.outcomes⟩ := by
  have hprocess := process_opened env hready id fraudProof
  rw [herror] at hprocess
  rw [run_round hready hfits hid, History.run_processSingleChallenge_of_error env hprocess]

variable (history) in
/-- A challenge with a verdict is completed, and the manager is ready for it again. -/
theorem run_round_of_ok {verdict : FraudProofVerdict}
    (hverdict : (new config).verifyFraudProof env fraudProof [] = .ok verdict) :
    ∃ manager, Ready config manager ∧ history.run codec env (round fraudProof) =
      ⟨manager, history.submitted ++ [id], history.outcomes ++ [id]⟩ := by
  have hprocess := process_opened env hready id fraudProof
  rw [hverdict] at hprocess
  have hremoved := ready_removed hready id fraudProof
  let settled := ((opened history.manager id fraudProof).removeChallenge id).settle id
    (history.manager.createChallenge id fraudProof 0xFFFFFFFFFFFFFFFF) verdict
  refine ⟨settled, ⟨hremoved.config_eq, hremoved.active, hremoved.height⟩, ?_⟩
  rw [run_round hready hfits hid, History.run_processSingleChallenge_of_ok env hprocess]

omit hready hid
variable (codec env)

/-- A proof that fits is lost, or it can be submitted again and gets a second outcome. -/
theorem not_accounted : ∃ calls, ¬ Accounted ((History.start config).run codec env calls) := by
  have hready : Ready config (History.start config).manager := ⟨rfl, rfl, rfl⟩
  cases hverdict : (new config).verifyFraudProof env fraudProof [] with
  | error e =>
    refine ⟨round fraudProof, fun h => ?_⟩
    rw [run_round_of_error hready hfits rfl hverdict] at h
    rcases h.present _ (mem_singleton_self _) with hactive | hcompleted
    · rw [(ready_removed hready _ fraudProof).active] at hactive
      cases hactive
    · cases hcompleted
  | ok verdict =>
    let id := generateChallengeId codec env fraudProof
    obtain ⟨manager, hagain, hfirst⟩ :
        ∃ manager, Ready config manager ∧ (History.start config).run codec env
          (round fraudProof) = ⟨manager, [id], [id]⟩ :=
      run_round_of_ok (History.start config) hready hfits rfl hverdict
    obtain ⟨_, -, hsecond⟩ :=
      run_round_of_ok ⟨manager, [id], [id]⟩ hagain hfits rfl hverdict
    refine ⟨round fraudProof ++ round fraudProof, fun h => ?_⟩
    have hruns : (History.start config).run codec env (round fraudProof ++ round fraudProof)
        = ((History.start config).run codec env (round fraudProof)).run codec env
          (round fraudProof) := foldl_append
    rw [hruns, hfirst, hsecond] at h
    exact not_nodup_pair _ h.once

omit hfits

/-- The challenges are accounted for only if none can be submitted. -/
theorem challenges_accounted_iff (config : FraudProofConfig) :
    (∀ calls, Accounted ((History.start config).run codec env calls)) ↔
      ∀ proof, config.maxProofSize.toNat < (codec.fraudProof proof).length := by
  constructor
  · intro haccounted proof
    by_contra hfits
    obtain ⟨calls, hnot⟩ := not_accounted codec env (Nat.not_lt.mp hfits)
    exact hnot (haccounted calls)
  · intro hlarge calls
    exact (Idle.run hlarge calls).accounted

/-- A fraud proof without evidence. -/
def emptyProof (fraudType : FraudType) : FraudProof where
  fraudType := fraudType
  fraudBlockHeight := 0
  fraudTxIndex := none
  evidence := ⟨[], [], [], [], ∅⟩
  challengerAddress := []
  challengeBond := 0
  responseDeadline := 0

/-- Without evidence a double spending cannot be verified, and its challenge is lost; a state
transition is disproven, and its challenge is submitted and disproven again. -/
theorem challenge_lost_or_repeated :
    ¬ Accounted ((History.start .default).run .blank .blank (round (emptyProof .doubleSpending))) ∧
    ¬ Accounted ((History.start .default).run .blank .blank
      (round (emptyProof .invalidStateTransition) ++
        round (emptyProof .invalidStateTransition))) :=
  ⟨fun h => absurd h.total (by decide), fun h => absurd h.once (by decide)⟩

end

end RustyCoin.Sidechain.FraudProofManager
