import RustyCoin.Lib.Outcome
import RustyCoin.Lib.Prefixes
import RustyCoin.Types.Platform

/-!
# Proof of service

A challenge is open until a response arrives or its time is over. The response of
`generate_pose_response` carries a signature where `verify_pose_response` takes the
32 bytes of a block hash, so that it aborts the challenger (`answers_iff`). What a
response shows is written to the history of the masternode that has sent the
challenge, and whoever sends it closes the challenge; `fair_of_proper` names the runs
in which this does no harm. Which masternodes are challenged is left open here, and
so are the ids in the texts of errors.
-/

namespace RustyCoin.RustyMasternode

open Outcome List Option

structure PoSeConfig where
  responseTimeoutSeconds : UInt64
  maxConsecutiveFailures : UInt32
  /-- Of the consensus parameters. -/
  poseResponseTimeoutSeconds : UInt64

structure PoSeChallenge where
  challengeNonce : UInt64
  challengeBlockHash : Hash
  challengerMasternodeId : MasternodeID
  challengeGenerationBlockHeight : UInt64
  signature : Bytes

structure PoSeResponse where
  challengeNonce : UInt64
  signedBlockHash : Bytes
  targetMasternodeId : MasternodeID

structure PoSeChallengeRecord where
  challenge : PoSeChallenge
  response : Option PoSeResponse
  responseReceivedAt : Option UInt64
  isValid : Option Bool

structure PoSeManager where
  config : PoSeConfig
  activeChallenges : HashMap MasternodeID PoSeChallenge
  challengeHistory : HashMap MasternodeID (List PoSeChallengeRecord)

def signedData (challengeNonce : UInt64) (signedBlockHash : Bytes) : Bytes :=
  leBytes 8 challengeNonce.toNat ++ signedBlockHash

/-- The one field is the block hash first, and then the signature. -/
def verifyPoseResponse (env : Platform) (challenge : PoSeChallenge) (response : PoSeResponse)
    (identity : MasternodeIdentity) (currentBlockHeight timeout : UInt64) : Outcome String Bool :=
  let owner := identity.collateralOwnershipPublicKey
  if owner.length ≠ 32 ∨ ¬ env.publicKeyFromBytes owner then .error .panic
  else if challenge.challengeNonce ≠ response.challengeNonce then .ok false
  else if response.signedBlockHash.length ≠ 32 then .error .panic
  else if challenge.challengeBlockHash.toList ≠ response.signedBlockHash then .ok false
  else if ¬ env.signatureFromBytes response.signedBlockHash then .ok false
  else if ¬ env.verify owner (signedData response.challengeNonce response.signedBlockHash)
    response.signedBlockHash then .ok false
  else .ok (currentBlockHeight ≤ challenge.challengeGenerationBlockHeight + timeout)

namespace PoSeManager

def new (config : PoSeConfig) : PoSeManager := ⟨config, ∅, ∅⟩

variable (self : PoSeManager)

variable (mnId : MasternodeID)

def history : List PoSeChallengeRecord :=
  (self.challengeHistory.lookup mnId).getD []

def record (entry : PoSeChallengeRecord) : PoSeManager :=
  { self with challengeHistory := self.challengeHistory.insert mnId (self.history mnId ++ [entry]) }

def close : PoSeManager :=
  { self with activeChallenges := self.activeChallenges.erase mnId }

/-- The challenge is closed before anything is checked. -/
def handlePoseResponse (env : Platform) (response : PoSeResponse) (currentBlockHeight : UInt64)
    (masternodeList : MasternodeList) : Outcome String Bool × PoSeManager :=
  match self.activeChallenges.lookup response.targetMasternodeId with
  | none => (fail "No active challenge found for masternode", self)
  | some challenge =>
    let self := self.close response.targetMasternodeId
    match masternodeList.getMasternode response.targetMasternodeId with
    | none => (fail "Masternode not found in list", self)
    | some entry =>
      match verifyPoseResponse env challenge response entry.identity currentBlockHeight
        self.config.poseResponseTimeoutSeconds with
      | .error failure => (.error failure, self)
      | .ok isValid => (.ok isValid, self.record challenge.challengerMasternodeId
          ⟨challenge, some response, some currentBlockHeight, some isValid⟩)

/-- The body of the loop over the expired challenges. -/
def timeOut : PoSeManager × List MasternodeID → MasternodeID → PoSeManager × List MasternodeID
  | (self, timedOut), mnId =>
    match self.activeChallenges.lookup mnId with
    | none => (self, timedOut)
    | some challenge =>
      ((self.close mnId).record mnId ⟨challenge, none, none, some false⟩, timedOut ++ [mnId])

def checkChallengeTimeouts (currentBlockHeight : UInt64) : PoSeManager × List MasternodeID :=
  let expired := self.activeChallenges.toPairs.filter fun (_, challenge) =>
    currentBlockHeight - challenge.challengeGenerationBlockHeight >
      self.config.responseTimeoutSeconds / 150
  (expired.map Prod.fst).foldl timeOut (self, [])

/-- The failures at the head of a history that is read backwards, in a counter that does
not wrap. -/
def countFailures : List PoSeChallengeRecord → Nat
  | [] => 0
  | entry :: older =>
    match entry.isValid with
    | some false => countFailures older + 1
    | some true => 0
    | none => countFailures older

def consecutiveFailures : Nat := countFailures (self.history mnId).reverse

def shouldSlashMasternode : Bool :=
  self.consecutiveFailures mnId ≥ self.config.maxConsecutiveFailures.toNat

end PoSeManager

section

/-- A key that signs for itself. -/
structure Keypair (env : Platform) where
  publicKey : Bytes
  sign : Bytes → List.Vector UInt8 64
  length_eq : publicKey.length = 32
  accepted : env.publicKeyFromBytes publicKey = true
  verifies : ∀ message, env.signatureFromBytes (sign message).toList = true ∧
    env.verify publicKey message (sign message).toList = true

variable {env : Platform} {challenge : PoSeChallenge} {response : PoSeResponse}

def generatePoseResponse (challenge : PoSeChallenge) (ourMasternodeId : MasternodeID)
    (privateKey : Keypair env) : PoSeResponse where
  challengeNonce := challenge.challengeNonce
  signedBlockHash := List.Vector.toList
    (privateKey.sign (signedData challenge.challengeNonce challenge.challengeBlockHash.toList))
  targetMasternodeId := ourMasternodeId

variable (env) (manager : PoSeManager) (masternodeList : MasternodeList)

/-- The response of a masternode that holds the key it is registered with is accepted in time, and
no response aborts. -/
def Answers : Prop :=
  (∀ mnId challenge entry (privateKey : Keypair env) (currentBlockHeight : UInt64),
    manager.activeChallenges.lookup mnId = some challenge →
    masternodeList.getMasternode mnId = some entry →
    entry.identity.collateralOwnershipPublicKey = privateKey.publicKey →
    currentBlockHeight ≤ challenge.challengeGenerationBlockHeight +
      manager.config.poseResponseTimeoutSeconds →
    (manager.handlePoseResponse env (generatePoseResponse challenge mnId privateKey)
      currentBlockHeight masternodeList).1 = .ok true) ∧
  ∀ response currentBlockHeight,
    (manager.handlePoseResponse env response currentBlockHeight masternodeList).1 ≠ .error .panic

theorem verifyPoseResponse_panic (identity : MasternodeIdentity) (height timeout : UInt64)
    (hnonce : challenge.challengeNonce = response.challengeNonce)
    (hlength : response.signedBlockHash.length ≠ 32) :
    verifyPoseResponse env challenge response identity height timeout = .error .panic := by
  rw [verifyPoseResponse]
  split
  · rfl
  · exact if_neg (not_not.mpr hnonce)

/-- Responses are answered as they should be only where none is waited for. -/
theorem answers_iff :
    Answers env manager masternodeList ↔
      ∀ mnId, (manager.activeChallenges.lookup mnId).isSome →
        masternodeList.getMasternode mnId = none := by
  constructor
  · rintro ⟨-, hrobust⟩ mnId hactive
    obtain ⟨challenge, hchallenge⟩ := isSome_iff_exists.mp hactive
    by_contra hlisted
    obtain ⟨entry, hentry⟩ := ne_none_iff_exists'.mp hlisted
    apply hrobust ⟨challenge.challengeNonce, [], mnId⟩ 0
    simp only [PoSeManager.handlePoseResponse, hchallenge, hentry]
    rw [verifyPoseResponse_panic env]
    · rfl
    · exact (by decide : 0 ≠ 32)
  · intro hnone
    refine ⟨fun mnId challenge entry key height hchallenge hentry => ?_, fun response height => ?_⟩
    · rw [hnone mnId (isSome_of_eq_some hchallenge)] at hentry
      cases hentry
    · rw [PoSeManager.handlePoseResponse]
      split
      · nofun
      · rename_i challenge hchallenge
        simp only [hnone _ (isSome_of_eq_some hchallenge)]
        nofun

def mnAt (n : UInt8) : MasternodeID := ⟨.replicate 32 n, 0⟩

def issuedBy (challenger : UInt8) : PoSeChallenge := ⟨0, .replicate 32 0, mnAt challenger, 0, []⟩

/-- One failure is enough. -/
def strict : PoSeConfig := ⟨60, 1, 60⟩

/-- The second masternode, with a key of zeros. -/
def secondListed : MasternodeList :=
  ⟨AList.insert (mnAt 2)
    (MasternodeList.registeredEntry ⟨mnAt 2, [], "", .replicate 32 0, none, []⟩ 0) ∅⟩

def zeroKey : Keypair .lenient :=
  ⟨.replicate 32 0, fun _ => .replicate 64 0, rfl, rfl, fun _ => ⟨rfl, rfl⟩⟩

/-- The response of a masternode with the registered key aborts. -/
theorem honest_response_aborts :
    ((PoSeManager.mk strict (AList.insert (mnAt 2) (issuedBy 1) ∅) ∅).handlePoseResponse .lenient
      (generatePoseResponse (issuedBy 1) (mnAt 2) zeroKey) 0 secondListed).1 = .error .panic := by
  decide +kernel

end

section

variable {env : Platform} {config : PoSeConfig} {mnId : MasternodeID}

/-- What happens to a manager. A challenge is what `generate_challenges` stores for a target. -/
inductive PoSeEvent where
  | challenge (target : MasternodeID) (challenge : PoSeChallenge)
  | response (sender : MasternodeID) (response : PoSeResponse) (currentBlockHeight : UInt64)
      (masternodeList : MasternodeList)
  | timeouts (currentBlockHeight : UInt64)

/-- How a challenge has ended: with no sender, by a timeout. -/
structure FinishedChallenge where
  target : MasternodeID
  sender : Option MasternodeID
  accepted : Bool
  deriving DecidableEq

/-- A manager and the challenges that have ended, the last one first. -/
structure PoSeRun where
  manager : PoSeManager
  finished : List FinishedChallenge

namespace PoSeRun

def timedOut (mnIds : List MasternodeID) : List FinishedChallenge :=
  mnIds.reverse.map fun mnId => ⟨mnId, none, false⟩

def accepted : Outcome String Bool → Bool
  | .ok isValid => isValid
  | .error _ => false

def step (env : Platform) (run : PoSeRun) : PoSeEvent → PoSeRun
  | .challenge target challenge => { run with
      manager.activeChallenges := run.manager.activeChallenges.insert target challenge }
  | .response sender response height list =>
    let (result, manager) := run.manager.handlePoseResponse env response height list
    if (run.manager.activeChallenges.lookup response.targetMasternodeId).isSome then
      ⟨manager, ⟨response.targetMasternodeId, some sender, accepted result⟩ :: run.finished⟩
    else ⟨manager, run.finished⟩
  | .timeouts height =>
    let (manager, mnIds) := run.manager.checkChallengeTimeouts height
    ⟨manager, timedOut mnIds ++ run.finished⟩

def after (env : Platform) (config : PoSeConfig) (events : List PoSeEvent) : PoSeRun :=
  events.foldl (step env) ⟨.new config, []⟩

def finishedFor (run : PoSeRun) (mnId : MasternodeID) : List FinishedChallenge :=
  run.finished.filter (·.target = mnId)

/-- Nobody else ends the challenges of a masternode, and no more failures are counted than those
it has had since its last success. -/
structure Tracks (run : PoSeRun) (mnId : MasternodeID) : Prop where
  closed : ∀ f ∈ run.finishedFor mnId, f.sender = none ∨ f.sender = some mnId
  counted : run.manager.consecutiveFailures mnId ≤
    ((run.finishedFor mnId).takeWhile (! ·.accepted)).length

/-- A masternode is slashed only if its last challenges have all failed. -/
structure Fair (run : PoSeRun) (mnId : MasternodeID) : Prop extends Tracks run mnId where
  slashed : run.manager.shouldSlashMasternode mnId = true →
    let last := (run.finishedFor mnId).take run.manager.config.maxConsecutiveFailures.toNat
    last.length = run.manager.config.maxConsecutiveFailures.toNat ∧
      ∀ f ∈ last, f.accepted = false ∧ (f.sender = none ∨ f.sender = some mnId)

/-- A response to an open challenge comes from its target, which has challenged itself. -/
def Proper (manager : PoSeManager) : PoSeEvent → Prop
  | .response sender response _ _ =>
    ∀ challenge, manager.activeChallenges.lookup response.targetMasternodeId = some challenge →
      sender = response.targetMasternodeId ∧
        challenge.challengerMasternodeId = response.targetMasternodeId
  | _ => True

theorem history_record (self : PoSeManager) (other : MasternodeID) (entry : PoSeChallengeRecord) :
    (self.record other entry).history mnId =
      if mnId = other then self.history mnId ++ [entry] else self.history mnId := by
  rw [PoSeManager.history, PoSeManager.record, HashMap.lookup_insert_eq]
  split
  · rename_i heq
    rw [heq]
    rfl
  · rfl

variable {run : PoSeRun}

/-- A challenge has ended, with an entry in the history of its target or without a success. -/
theorem Tracks.finish (h : Tracks run mnId) {manager : PoSeManager}
    {f : FinishedChallenge} (hsender : f.sender = none ∨ f.sender = some f.target)
    (hhistory : (manager.history mnId = run.manager.history mnId ∧ f.accepted = false) ∨
      ∃ entry, entry.isValid = some f.accepted ∧ manager.history mnId =
        if mnId = f.target then run.manager.history mnId ++ [entry]
        else run.manager.history mnId) :
    Tracks ⟨manager, f :: run.finished⟩ mnId := by
  obtain ⟨hclosed, hcounted⟩ := h
  by_cases htarget : f.target = mnId
  · have hfor : finishedFor ⟨manager, f :: run.finished⟩ mnId = f :: run.finishedFor mnId :=
      filter_cons_of_pos (decide_eq_true htarget)
    refine ⟨?_, ?_⟩
    · rw [hfor]
      exact forall_mem_cons.mpr ⟨htarget ▸ hsender, hclosed⟩
    · rw [hfor, PoSeManager.consecutiveFailures]
      obtain ⟨hsame, hfailed⟩ | ⟨entry, hvalid, hentry⟩ := hhistory
      · rw [hsame, takeWhile_cons_of_pos (by rw [hfailed]; rfl)]
        exact hcounted.trans (Nat.le_succ _)
      · rw [hentry, if_pos htarget.symm, reverse_concat, PoSeManager.countFailures, hvalid]
        cases hf : f.accepted with
        | true => exact Nat.zero_le _
        | false =>
          rw [takeWhile_cons_of_pos (by rw [hf]; rfl)]
          exact Nat.succ_le_succ hcounted
  · have hfor : finishedFor ⟨manager, f :: run.finished⟩ mnId = run.finishedFor mnId :=
      filter_cons_of_neg (by rwa [decide_eq_true_eq])
    have hsame : manager.history mnId = run.manager.history mnId := by
      obtain ⟨hsame, -⟩ | ⟨entry, -, hentry⟩ := hhistory
      · exact hsame
      · exact hentry.trans (if_neg (Ne.symm htarget))
    refine ⟨hfor ▸ hclosed, ?_⟩
    rw [hfor, PoSeManager.consecutiveFailures, hsame]
    exact hcounted

theorem Tracks.timeOut {manager : PoSeManager} {mnIds : List MasternodeID}
    {finished : List FinishedChallenge} (h : Tracks ⟨manager, timedOut mnIds ++ finished⟩ mnId)
    (other : MasternodeID) :
    Tracks ⟨(PoSeManager.timeOut (manager, mnIds) other).1,
      timedOut (PoSeManager.timeOut (manager, mnIds) other).2 ++ finished⟩ mnId := by
  rw [PoSeManager.timeOut]
  split
  · exact h
  · simp only [timedOut, reverse_concat, map_cons, cons_append]
    exact h.finish (.inl rfl) (.inr ⟨_, rfl, history_record _ other _⟩)

theorem Tracks.step (h : Tracks run mnId) {event : PoSeEvent}
    (hproper : Proper run.manager event) : Tracks (run.step env event) mnId := by
  cases event with
  | challenge target challenge => exact ⟨h.closed, h.counted⟩
  | timeouts height =>
    let kept (s : PoSeManager × List MasternodeID) : Prop :=
      Tracks ⟨s.1, timedOut s.2 ++ run.finished⟩ mnId
    exact List.foldlRecOn (motive := kept) _ _ h fun _ h other _ => h.timeOut other
  | response sender response height list =>
    simp only [PoSeRun.step, PoSeManager.handlePoseResponse]
    cases hlookup : run.manager.activeChallenges.lookup response.targetMasternodeId with
    | none => exact h
    | some challenge =>
      obtain ⟨rfl, hchallenger⟩ := hproper challenge hlookup
      simp only [isSome_some, if_true]
      refine h.finish (.inr rfl) ?_
      split
      · exact .inl ⟨rfl, rfl⟩
      · split
        · exact .inl ⟨rfl, rfl⟩
        · rename_i isValid _
          rw [hchallenger]
          exact .inr ⟨_, rfl, history_record _ _ _⟩

theorem Tracks.fair (h : Tracks run mnId) : Fair run mnId := by
  refine ⟨h, fun hslash => ?_⟩
  have hmany := (of_decide_eq_true hslash).trans h.counted
  have hfailed := takeWhile_prefix (l := run.finishedFor mnId) (! ·.accepted)
  refine ⟨length_take_of_le (hmany.trans hfailed.length_le), fun f hf => ?_⟩
  have hmem := take_subset_take_left _ hmany hf
  rw [← prefix_iff_eq_take.mp hfailed] at hmem
  have hunanswered := all_eq_true.mp all_takeWhile f hmem
  exact ⟨by simpa using hunanswered, h.closed f (mem_of_mem_take hf)⟩

/-- In a run of such events every masternode is treated fairly. -/
theorem fair_of_proper {events : List PoSeEvent}
    (hproper : ∀ front event, front ++ [event] <+: events →
      Proper (after env config front).manager event) (mnId : MasternodeID) :
    Fair (after env config events) mnId := by
  have htracks : ∀ front, front <+: events → Tracks (after env config front) mnId := by
    refine Prefixes.induction ⟨nofun, Nat.zero_le _⟩ fun front event hfront h => ?_
    rw [after, foldl_concat]
    exact h.step (hproper front event hfront)
  exact (htracks events prefix_rfl).fair

/-- A third masternode answers a challenge with another nonce: the challenge is closed, and its
sender is slashed. -/
theorem challenger_slashed :
    ¬ Fair (after .lenient strict [.challenge (mnAt 2) (issuedBy 1),
      .response (mnAt 3) ⟨1, [], mnAt 2⟩ 0 secondListed]) (mnAt 1) := by
  intro h
  exact absurd (h.slashed (by decide +kernel)).1 (by decide +kernel)

/-- A masternode fails its own challenge and is slashed; the one of another masternode times out. -/
theorem fair_of_proper_answered :
    let run := after .lenient strict [.challenge (mnAt 2) (issuedBy 2),
      .response (mnAt 2) ⟨1, [], mnAt 2⟩ 0 secondListed, .challenge (mnAt 2) (issuedBy 1),
      .timeouts 1]
    run.manager.shouldSlashMasternode (mnAt 2) = true ∧ Fair run (mnAt 2) := by
  refine ⟨by decide +kernel, fair_of_proper ?_ _⟩
  refine Prefixes.forall_snoc_cons.mpr ⟨trivial, Prefixes.forall_snoc_cons.mpr ⟨?_, ?_⟩⟩
  · intro challenge hopen
    cases hopen
    exact ⟨rfl, rfl⟩
  · refine Prefixes.forall_snoc_cons.mpr ⟨trivial, ?_⟩
    exact Prefixes.forall_snoc_cons.mpr ⟨trivial, Prefixes.forall_snoc_nil⟩

end PoSeRun

end

end RustyCoin.RustyMasternode
