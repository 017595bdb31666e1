import RustyCoin.Sidechain.Types

/-!
# Challenges by fraud proofs

A fraud proof is submitted with a bond and becomes an active challenge. Accused
parties may respond to it. When the challenges of a block are processed, each
active one is timed out or gets a verdict, and is moved to the completed ones.
-/

namespace RustyCoin.Sidechain

open Outcome Stateful

structure FraudProofConfig where
  challengePeriodBlocks : UInt64
  minChallengeBond : UInt64
  fraudProofReward : UInt64
  falseProofPenalty : UInt64
  maxProofSize : UInt64
  verificationTimeoutBlocks : UInt64

def FraudProofConfig.default : FraudProofConfig where
  challengePeriodBlocks := 1440
  minChallengeBond := 1000000
  fraudProofReward := 10000000
  falseProofPenalty := 5000000
  maxProofSize := 10000000
  verificationTimeoutBlocks := 144

inductive FraudProofStatus where
  | pending
  | underVerification
  | proven
  | disproven
  | timedOut
  | withdrawn
  deriving DecidableEq

structure FraudProofResponse where
  responderId : MasternodeID
  responseData : Bytes
  counterEvidence : Bytes
  signature : Bytes
  timestamp : UInt64

inductive PenaltyType where
  | collateralSlash
  | temporarySuspension
  | permanentBan
  | fine
  deriving DecidableEq

structure FraudPenalty where
  target : MasternodeID
  penaltyType : PenaltyType
  amount : UInt64
  reason : String
  deriving DecidableEq

structure FraudReward where
  recipient : Bytes
  amount : UInt64
  reason : String
  deriving DecidableEq

structure FraudProofVerdict where
  fraudProven : Bool
  explanation : String
  supportingEvidence : Bytes
  penalties : List FraudPenalty
  rewards : List FraudReward
  deriving DecidableEq

structure FraudProofChallenge where
  challengeId : Hash
  fraudProof : FraudProof
  status : FraudProofStatus
  submissionHeight : UInt64
  verificationDeadline : UInt64
  challengeBond : UInt64
  responses : List FraudProofResponse
  verdict : Option FraudProofVerdict

structure FraudProofStats where
  totalChallenges : UInt64
  provenFrauds : UInt64
  disprovenChallenges : UInt64
  timedOutChallenges : UInt64
  totalPenaltiesApplied : UInt64
  totalRewardsDistributed : UInt64
  deriving DecidableEq

def FraudProofStats.default : FraudProofStats :=
  ⟨0, 0, 0, 0, 0, 0⟩

structure FraudProofManager where
  config : FraudProofConfig
  activeChallenges : HashMap Hash FraudProofChallenge
  completedChallenges : HashMap Hash FraudProofChallenge
  currentBlockHeight : UInt64
  stats : FraudProofStats

/-- The chunks of `slice.chunks(n)` that have `n` elements. -/
def fullChunks {α : Type} (n : Nat) (l : List α) : List (List α) :=
  (List.range (l.length / n)).map fun i => (l.drop (i * n)).take n

/-- Only the length of the signature is looked at. -/
def verifyResponseSignature (response : FraudProofResponse) : Bool :=
  !response.signature.isEmpty && response.signature.length == 64

def verifySignatureFormat (signature : Bytes) : Bool :=
  signature.length == 64 && signature.any (· != 0)

/-- Some byte of the message's hash has to differ from the signature's byte in its place. -/
def verifyMessageSignature (env : Platform) (signature message : Bytes) : Bool :=
  if signature.length ≠ 64 ∨ message.isEmpty then false
  else if signature.all (· == 0) then false
  else
    let rComponent := signature.take 32
    let sComponent := signature.drop 32
    let rValid := rComponent.any (· != 0) && rComponent.getD 31 0 < 0x80
    let sValid := sComponent.any (· != 0)
    let messageContributes :=
      ((env.blake3 message).toList.zip signature).any fun pair => pair.1 ^^^ pair.2 != 0
    rValid && sValid && messageContributes

def isInvalidVmOperation (operation : Bytes) : Bool :=
  operation.all (· == 0)

/-- One response with counter-evidence and a well-formed signature clears the accused. -/
def countered (responses : List FraudProofResponse) : Bool :=
  responses.any fun response =>
    !response.counterEvidence.isEmpty && verifyResponseSignature response

namespace FraudProofManager

def new (config : FraudProofConfig) : FraudProofManager where
  config := config
  activeChallenges := ∅
  completedChallenges := ∅
  currentBlockHeight := 0
  stats := .default

/-- The texts and the penalty that belong to a kind of fraud. -/
structure VerdictTexts where
  proven : String
  disproven : String
  penaltyType : PenaltyType
  penaltyReason : String
  rewardReason : String

/-- The target of a penalty is always the zero outpoint. -/
def verdict (self : FraudProofManager) (texts : VerdictTexts) (penaltyAmount : UInt64)
    (fraudProof : FraudProof) (fraudProven : Bool) : FraudProofVerdict where
  fraudProven := fraudProven
  explanation := if fraudProven then texts.proven else texts.disproven
  supportingEvidence := fraudProof.evidence.witnessData
  penalties :=
    if fraudProven then
      [⟨⟨.replicate 32 0, 0⟩, texts.penaltyType, penaltyAmount, texts.penaltyReason⟩]
    else []
  rewards :=
    if fraudProven then
      [⟨fraudProof.challengerAddress, self.config.fraudProofReward, texts.rewardReason⟩]
    else []

variable (env : Platform) (self : FraudProofManager) (fraudProof : FraudProof)
  (responses : List FraudProofResponse)

/-- Any change of the state is taken as fraud, and responses are not looked at. -/
def verifyStateTransitionFraud : Outcome String FraudProofVerdict :=
  let evidence := fraudProof.evidence
  .ok (self.verdict
    { proven := "State transition fraud verification completed"
      disproven := "State transition fraud verification completed"
      penaltyType := .collateralSlash
      penaltyReason := "Invalid state transition"
      rewardReason := "Successful fraud detection" }
    self.config.fraudProofReward fraudProof
    (!evidence.preState.isEmpty && !evidence.postState.isEmpty &&
      evidence.preState != evidence.postState))

def verifyDoubleSpendingFraud : Outcome String FraudProofVerdict :=
  let evidence := fraudProof.evidence.fraudulentOperation
  if evidence.length < 2 then
    fail "Double spending fraud proof must contain at least two conflicting transactions"
  else if (fullChunks 32 evidence).length < 2 then fail "Invalid double spending evidence format"
  else .ok (self.verdict
    { proven := "Double spending fraud verified: conflicting transactions found"
      disproven := "Double spending fraud not proven or countered by valid evidence"
      penaltyType := .permanentBan
      penaltyReason := "Double spending attack detected"
      rewardReason := "Double spending detection" }
    self.config.fraudProofReward fraudProof
    (evidence.length ≥ 200 && !countered responses))

def verifyCrossChainFraud : Outcome String FraudProofVerdict :=
  let evidence := fraudProof.evidence.additionalEvidence
  if evidence.len = 0 then fail "Cross-chain fraud proof must contain evidence"
  else .ok (self.verdict
    { proven := "Cross-chain fraud verified: invalid federation signatures detected"
      disproven := "Cross-chain fraud not proven or countered by valid evidence"
      penaltyType := .temporarySuspension
      penaltyReason := "Invalid cross-chain transaction"
      rewardReason := "Cross-chain fraud detection" }
    (self.config.fraudProofReward / 2) fraudProof
    (evidence.len ≠ 0 && !countered responses))

/-- Short evidence shows nothing. -/
def signatureFraudFound (evidence : Bytes) : Bool :=
  evidence.length ≥ 100 &&
    (!verifySignatureFormat (evidence.take 64) ||
      !verifyMessageSignature env (evidence.take 64) (evidence.drop 64))

def verifySignatureFraud : Outcome String FraudProofVerdict :=
  let evidence := fraudProof.evidence.witnessData
  if evidence.length < 64 then
    fail "Signature fraud proof must contain at least 64 bytes of evidence"
  else .ok (self.verdict
    { proven := "Signature fraud verified: invalid or unauthorized signature detected"
      disproven := "Signature fraud not proven or countered by valid evidence"
      penaltyType := .collateralSlash
      penaltyReason := "Unauthorized signature"
      rewardReason := "Signature fraud detection" }
    self.config.fraudProofReward fraudProof
    (signatureFraudFound env evidence && !countered responses))

/-- More than one chunk of zeros for every hundred bytes is taken as fraud. -/
def vmFraudFound (evidence : Bytes) : Bool :=
  evidence.length > 1000 &&
    (fullChunks 32 evidence).countP isInvalidVmOperation > evidence.length / 100

def verifyVmExecutionFraud : Outcome String FraudProofVerdict :=
  let evidence := fraudProof.evidence.fraudulentOperation
  if evidence.isEmpty then fail "VM execution fraud proof must contain evidence"
  else .ok (self.verdict
    { proven := "VM execution fraud verified: invalid execution detected"
      disproven := "VM execution fraud not proven or countered by valid evidence"
      penaltyType := .fine
      penaltyReason := "Invalid VM execution"
      rewardReason := "VM execution fraud detection" }
    (self.config.fraudProofReward / 4) fraudProof
    (vmFraudFound evidence && !countered responses))

def verifyFraudProof : Outcome String FraudProofVerdict :=
  match fraudProof.fraudType with
  | .invalidStateTransition => self.verifyStateTransitionFraud fraudProof
  | .doubleSpending => self.verifyDoubleSpendingFraud fraudProof responses
  | .invalidCrossChainTx => self.verifyCrossChainFraud fraudProof responses
  | .unauthorizedSignature => self.verifySignatureFraud env fraudProof responses
  | .invalidVMExecution => self.verifyVmExecutionFraud fraudProof responses

section

variable (codec : SidechainCodec) (env : Platform) (self : FraudProofManager)

def generateChallengeId (fraudProof : FraudProof) : Hash :=
  env.blake3 (codec.fraudProof fraudProof)

def validateSubmission (fraudProof : FraudProof) (challengerBond : UInt64) : Outcome String Unit :=
  let proofSize := (codec.fraudProof fraudProof).length
  if challengerBond < self.config.minChallengeBond then
    fail ("Challenge bond " ++ toString challengerBond.toNat ++ " below minimum " ++
      toString self.config.minChallengeBond.toNat)
  else if proofSize > self.config.maxProofSize.toNat then
    fail ("Fraud proof size " ++ toString proofSize ++ " exceeds maximum " ++
      toString self.config.maxProofSize.toNat)
  else .ok ()

variable (challengeId : Hash)

def createChallenge (fraudProof : FraudProof) (challengerBond : UInt64) : FraudProofChallenge where
  challengeId := challengeId
  fraudProof := fraudProof
  status := .pending
  submissionHeight := self.currentBlockHeight
  verificationDeadline := self.currentBlockHeight + self.config.verificationTimeoutBlocks
  challengeBond := challengerBond
  responses := []
  verdict := none

def addChallenge (challenge : FraudProofChallenge) : FraudProofManager :=
  { self with
    activeChallenges := self.activeChallenges.insert challengeId challenge
    stats := { self.stats with totalChallenges := self.stats.totalChallenges + 1 } }

/-- Only the active challenges are searched for a duplicate. -/
def submitFraudProof (fraudProof : FraudProof) (challengerBond : UInt64) :
    Stateful String FraudProofManager Hash := do
  .read fun self => self.validateSubmission codec fraudProof challengerBond
  let challengeId := generateChallengeId codec env fraudProof
  .read fun self =>
    if (self.activeChallenges.lookup challengeId).isSome then
      fail "Fraud proof challenge already exists"
    else .ok ()
  .modify fun self =>
    self.addChallenge challengeId (self.createChallenge challengeId fraudProof challengerBond)
  return challengeId

def validateResponse (challenge : FraudProofChallenge)
    (response : FraudProofResponse) : Outcome String Unit :=
  if challenge.status ≠ .pending then fail "Challenge is not in pending status"
  else if self.currentBlockHeight > challenge.verificationDeadline then
    fail "Challenge verification deadline has passed"
  else if response.signature.isEmpty then fail "Response signature cannot be empty"
  else .ok ()

def submitResponse (response : FraudProofResponse) :
    Stateful String FraudProofManager Unit := do
  let challenge ← .read fun self =>
    okOr (self.activeChallenges.lookup challengeId) "Challenge not found"
  .read fun self => self.validateResponse challenge response
  .modify fun self =>
    { self with
      activeChallenges := self.activeChallenges.insert challengeId
        { challenge with
          responses := challenge.responses ++ [response]
          status := .underVerification } }

def removeChallenge : FraudProofManager :=
  { self with activeChallenges := self.activeChallenges.erase challengeId }

/-- The challenge is completed without a verification. -/
def timeOut (challenge : FraudProofChallenge) : FraudProofManager :=
  { self with
    completedChallenges := self.completedChallenges.insert challengeId
      { challenge with
        status := .timedOut
        verdict := some ⟨false, "Challenge timed out without sufficient responses", [], [], []⟩ }
    stats := { self.stats with timedOutChallenges := self.stats.timedOutChallenges + 1 } }

/-- Penalties are counted. -/
def applyPenalties (stats : FraudProofStats) (penalties : List FraudPenalty) : FraudProofStats :=
  { stats with
    totalPenaltiesApplied :=
      penalties.foldl (fun count _ => count + 1) stats.totalPenaltiesApplied }

/-- Rewards are added up. -/
def distributeRewards (stats : FraudProofStats) (rewards : List FraudReward) : FraudProofStats :=
  { stats with
    totalRewardsDistributed :=
      rewards.foldl (fun total reward => total + reward.amount) stats.totalRewardsDistributed }

/-- The statistics after a verdict. A challenge that fails costs the challenger nothing. -/
def countVerdict (stats : FraudProofStats) (verdict : FraudProofVerdict) : FraudProofStats :=
  if verdict.fraudProven then
    let settled := distributeRewards (applyPenalties stats verdict.penalties) verdict.rewards
    { settled with provenFrauds := settled.provenFrauds + 1 }
  else { stats with disprovenChallenges := stats.disprovenChallenges + 1 }

def settle (challenge : FraudProofChallenge) (verdict : FraudProofVerdict) : FraudProofManager :=
  { self with
    completedChallenges := self.completedChallenges.insert challengeId
      { challenge with
        verdict := some verdict
        status := if verdict.fraudProven then .proven else .disproven }
    stats := countVerdict self.stats verdict }

/-- The challenge is taken out of the active ones before it is verified. -/
def processSingleChallenge : Stateful String FraudProofManager Unit := do
  let challenge ← .read fun self =>
    okOr (self.activeChallenges.lookup challengeId)
      ("Challenge with ID " ++ ConsensusError.hexEncode challengeId.toList ++ " not found")
  .modify fun self => self.removeChallenge challengeId
  let expired ← .read fun self =>
    .ok (decide (self.currentBlockHeight > challenge.verificationDeadline))
  if expired then .modify fun self => self.timeOut challengeId challenge
  else do
    let verdict ← .read fun self =>
      self.verifyFraudProof env challenge.fraudProof challenge.responses
    .modify fun self => self.settle challengeId challenge verdict

/-- The first challenge that cannot be verified ends the round. -/
def processChallenges (blockHeight : UInt64) : Stateful String FraudProofManager Unit := do
  .modify fun self => { self with currentBlockHeight := blockHeight }
  let challengeIds ← .read fun self => .ok self.activeChallenges.keys
  forM challengeIds (processSingleChallenge env)

end

section

variable {codec : SidechainCodec} {env : Platform} {self next : FraudProofManager}

theorem submitFraudProof_eq_ok {fraudProof : FraudProof} {bond : UInt64} {id : Hash} :
    (submitFraudProof codec env fraudProof bond).run self = (.ok id, next) ↔
      self.config.minChallengeBond ≤ bond ∧
        (codec.fraudProof fraudProof).length ≤ self.config.maxProofSize.toNat ∧
        id = generateChallengeId codec env fraudProof ∧
        self.activeChallenges.lookup id = none ∧
        next = self.addChallenge id (self.createChallenge id fraudProof bond) := by
  rw [submitFraudProof, run_read_bind_eq_ok, Unique.exists_iff, validateSubmission,
    ite_fail_eq_ok, ite_fail_eq_ok, and_iff_left rfl, UInt64.not_lt, gt_iff_lt, Nat.not_lt,
    and_assoc, run_read_bind_eq_ok, Unique.exists_iff, ite_fail_eq_ok, and_iff_left rfl,
    Option.not_isSome_iff_eq_none, run_modify_bind, run_pure, Prod.mk.injEq,
    Except.ok.injEq]
  refine and_congr_right fun _ => and_congr_right fun _ => ?_
  constructor
  · rintro ⟨hnew, rfl, rfl⟩
    exact ⟨rfl, hnew, rfl⟩
  · rintro ⟨rfl, hnew, rfl⟩
    exact ⟨hnew, rfl, rfl⟩

/-- A verdict depends on the configuration alone. -/
theorem verifyFraudProof_congr (hconfig : next.config = self.config) (fraudProof : FraudProof)
    (responses : List FraudProofResponse) :
    next.verifyFraudProof env fraudProof responses =
      self.verifyFraudProof env fraudProof responses := by
  have hverdict (texts : VerdictTexts) (amount : UInt64) (proven : Bool) :
      next.verdict texts amount fraudProof proven =
        self.verdict texts amount fraudProof proven := by
    simp only [verdict, hconfig]
  simp only [verifyFraudProof, verifyStateTransitionFraud, verifyDoubleSpendingFraud,
    verifyCrossChainFraud, verifySignatureFraud, verifyVmExecutionFraud, hverdict, hconfig]

variable {id : Hash} {challenge : FraudProofChallenge}

/-- An active challenge is timed out or verified; one that cannot be verified is in neither of the
maps afterwards. -/
theorem processSingleChallenge_of_active
    (hactive : self.activeChallenges.lookup id = some challenge) :
    (processSingleChallenge env id).run self =
      if self.currentBlockHeight > challenge.verificationDeadline then
        (.ok (), (self.removeChallenge id).timeOut id challenge)
      else
        match self.verifyFraudProof env challenge.fraudProof challenge.responses with
        | .ok verdict => (.ok (), (self.removeChallenge id).settle id challenge verdict)
        | .error e => (.error e, self.removeChallenge id) := by
  rw [processSingleChallenge, run_read_bind]
  simp only [hactive, okOr]
  rw [run_modify_bind, run_read_bind]
  have hheight : (self.removeChallenge id).currentBlockHeight = self.currentBlockHeight := rfl
  simp only [hheight, decide_eq_true_eq]
  by_cases hlate : self.currentBlockHeight > challenge.verificationDeadline
  · rw [if_pos hlate, if_pos hlate, run_modify]
  · have hconfig : (self.removeChallenge id).config = self.config := rfl
    rw [if_neg hlate, if_neg hlate, run_read_bind, verifyFraudProof_congr hconfig]
    cases self.verifyFraudProof env challenge.fraudProof challenge.responses with
    | error e => rfl
    | ok verdict => rfl

end

end FraudProofManager

end RustyCoin.Sidechain
