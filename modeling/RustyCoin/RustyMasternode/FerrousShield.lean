import RustyCoin.Lib.Outcome
import RustyCoin.Types.Platform

/-!
# Mixing coins

`coordinate_coinjoin` takes the same share of the fee from every participant and
pays the whole fee to the coordinator. The share is rounded down, and no more
than the amount can be taken. `conservesCoins_iff` says when what is taken covers
the fee. The multipliers of the fee are exact.

What the coordinators get of a fee is queued and paid out later. A remainder, a share
without a backup, and small amounts get lost (`balanced_of_lossless`).
-/

namespace RustyCoin.RustyMasternode

open Outcome List UInt64

inductive NetworkConditions where
  | lowTraffic
  | normal
  | highTraffic
  | congested

structure FerrousShieldMixRequest where
  amount : UInt64
  participantPublicKey : Bytes

structure FerrousShieldMixOutput where
  output : TxOutput
  participantSignature : Bytes

def baseFee (mixAmount : UInt64) : Rat :=
  if mixAmount ≤ 1000000 then 1000
  else if mixAmount ≤ 10000000 then 5000
  else 10000

def participantMultiplier (numParticipants : UInt32) : Rat :=
  if numParticipants = 0 then 3
  else if numParticipants ≤ 3 then 1
  else if numParticipants ≤ 7 then 3 / 2
  else if numParticipants ≤ 15 then 2
  else 3

def networkMultiplier : Option NetworkConditions → Rat
  | some .lowTraffic => 4 / 5
  | some .highTraffic => 13 / 10
  | some .congested => 9 / 5
  | _ => 1

def calculateFerrousShieldFee (mixAmount : UInt64) (numParticipants : UInt32)
    (networkConditions : Option NetworkConditions) : UInt64 :=
  let finalFee := (baseFee mixAmount * participantMultiplier numParticipants *
    networkMultiplier networkConditions).floor.toNat
  UInt64.ofNat (max 500 (min 100000 finalFee))

-- `sign` is `sign_ferrousshield_output` with the keypair of the coordinator
variable (env : Platform) (sign : TxOutput → Bytes)

def mixOutput (value : UInt64) (scriptPubkey : Bytes) (memo : String) : FerrousShieldMixOutput :=
  let output : TxOutput := ⟨value, scriptPubkey, some memo.toUTF8.toList⟩
  ⟨output, sign output⟩

def participantScript (pubkey : Bytes) : Bytes :=
  [0x76, 0xa9, 0x14] ++ (env.ripemd160 (env.sha256 pubkey).toList).toList ++ [0x88, 0xac]

def coordinatorScript : Bytes :=
  [0x76, 0xa9, 0x14, 0x00, 0x11, 0x22, 0x33, 0x44, 0x55, 0x66, 0x77, 0x88, 0x99, 0xaa, 0xbb,
    0xcc, 0xdd, 0xee, 0xff, 0x00, 0x11, 0x22, 0x33, 0x88, 0xac]

def coordinateCoinjoin (requests : List FerrousShieldMixRequest)
    (networkConditions : Option NetworkConditions) :
    Outcome String (List FerrousShieldMixOutput) :=
  match requests with
  | [] => fail "No mix requests to coordinate."
  | first :: _ =>
    let mixAmount := first.amount
    if ¬ requests.all (·.amount = mixAmount) then
      fail "All participants must have the same mix amount for proper CoinJoin"
    else
      let numParticipants := UInt32.ofNat requests.length
      let totalFee := calculateFerrousShieldFee mixAmount numParticipants networkConditions
      -- the number of participants is cut to 32 bits, and divided by
      if numParticipants = 0 then .error .panic
      else
        let feePerParticipant := totalFee / numParticipants.toUInt64
        let outputAmount := mixAmount - min mixAmount feePerParticipant
        .ok (requests.zipIdx.map (fun (participant, i) =>
            mixOutput sign outputAmount (participantScript env participant.participantPublicKey)
              ("CoinJoin output #" ++ toString (i + 1))) ++
          [mixOutput sign totalFee coordinatorScript "CoinJoin coordinator fee"])

variable (amount : UInt64)

/-- The outputs for participants with one amount are worth no more than what they bring. -/
def ConservesCoins
    (publicKeys : List Bytes) (networkConditions : Option NetworkConditions) : Prop :=
  ∀ outputs,
    coordinateCoinjoin env sign (publicKeys.map (⟨amount, ·⟩)) networkConditions = .ok outputs →
    (outputs.map (·.output.value.toNat)).sum ≤ publicKeys.length * amount.toNat

/-- The outputs are worth no more than the inputs exactly if the fee is covered by what is taken
from the participants. With fewer than `2 ^ 32` of them their number then divides the fee. -/
theorem conservesCoins_iff
    (key : Bytes) (keys : List Bytes) (networkConditions : Option NetworkConditions) :
    ConservesCoins env sign amount (key :: keys) networkConditions ↔
      let n := (key :: keys).length
      let fee := (calculateFerrousShieldFee amount (.ofNat n) networkConditions).toNat
      n % 2 ^ 32 = 0 ∨ fee ≤ n * min amount.toNat (fee / (n % 2 ^ 32)) := by
  set n := (key :: keys).length with hn
  set requests : List FerrousShieldMixRequest := (key :: keys).map (⟨amount, ·⟩) with hrequests
  have hlength : requests.length = n := length_map _
  have hsame : requests.all (·.amount = amount) := by simp [hrequests]
  have hnum : (UInt32.ofNat n).toNat = n % 2 ^ 32 := UInt32.toNat_ofNat'
  have hzero : UInt32.ofNat n = 0 ↔ n % 2 ^ 32 = 0 := by
    rw [← UInt32.toNat_inj, hnum]
    rfl
  unfold ConservesCoins
  rw [← hrequests, ← hn, show coordinateCoinjoin env sign requests networkConditions = _ from
    if_neg (not_not.mpr hsame), hlength]
  by_cases hnone : UInt32.ofNat n = 0
  · rw [if_pos hnone]
    exact iff_of_true nofun (.inl (hzero.mp hnone))
  · rw [if_neg hnone, or_iff_right (mt hzero.mpr hnone)]
    simp only [Except.ok.injEq, forall_eq', map_append, map_map, Function.comp_def,
      mixOutput, map_const', length_zipIdx, hlength, map_cons, map_nil,
      sum_append, sum_replicate_nat, sum_singleton]
    set fee := calculateFerrousShieldFee amount (.ofNat n) networkConditions
    have hshare : (min amount (fee / (UInt32.ofNat n).toUInt64)).toNat =
        min amount.toNat (fee.toNat / (n % 2 ^ 32)) := by
      rw [toNat_min, UInt64.toNat_div, UInt32.toNat_toUInt64, hnum]
    have htaken := Nat.min_le_left amount.toNat (fee.toNat / (n % 2 ^ 32))
    rw [UInt64.toNat_sub_of_le _ _ (le_iff_toNat_le.mpr (hshare ▸ htaken)), hshare, Nat.mul_sub]
    have hle := Nat.mul_le_mul_left n htaken
    omega

/-- Three participants pay 333 each for a fee of 1000. -/
theorem coinjoin_mints_remainder : ¬ ConservesCoins .blank (fun _ => []) 500000 [[], [], []] none :=
  fun hconserves => absurd (hconserves _ rfl) (by decide +kernel)

/-! ## Fees for the coordinators -/

structure FeeDistributionConfig where
  primaryCoordinatorShare : Rat
  minimumDistributionAmount : UInt64

def FeeDistributionConfig.primaryAmount (config : FeeDistributionConfig) (totalFee : UInt64) :
    UInt64 :=
  UInt64.ofNat (min (2 ^ 64 - 1) (totalFee.toNat * config.primaryCoordinatorShare).floor.toNat)

abbrev Pending : Type := HashMap MasternodeID UInt64

variable (config : FeeDistributionConfig) (pending : Pending)

def pendingTotal : Nat := HashMap.total UInt64.toNat pending

/-- `*entry(id).or_insert(0) += amount` -/
def addPending (id : MasternodeID) (amount : UInt64) : Pending :=
  pending.insert id ((pending.lookup id).getD 0 + amount)

def queueFeeDistribution (totalFee : UInt64) (primaryCoordinator : MasternodeID)
    (backupCoordinators : List MasternodeID) : Pending :=
  if totalFee < config.minimumDistributionAmount then pending
  else
    let primaryAmount := config.primaryAmount totalFee
    let backupTotal := totalFee - primaryAmount
    let backupAmountPerNode :=
      if backupCoordinators.isEmpty then 0
      else backupTotal / UInt64.ofNat backupCoordinators.length
    backupCoordinators.foldl (addPending · · backupAmountPerNode)
      (addPending pending primaryCoordinator primaryAmount)

/-- The payouts. Afterwards nothing is pending. -/
def processPendingDistributions : List (MasternodeID × UInt64) :=
  pending.toPairs.filter fun e => config.minimumDistributionAmount ≤ e.2

inductive FeeCall where
  | queue (totalFee : UInt64) (primary : MasternodeID) (backups : List MasternodeID)
  | process

/-- What is pending, with the exact sums of what was paid out and of the fees that count. -/
structure FeeLedger where
  pending : Pending
  paid : Nat
  queued : Nat

namespace FeeLedger

variable (ledger : FeeLedger)

def step : FeeCall → FeeLedger
  | .queue totalFee primary backups =>
    { ledger with
      pending := queueFeeDistribution config ledger.pending totalFee primary backups
      queued := ledger.queued +
        if totalFee < config.minimumDistributionAmount then 0 else totalFee.toNat }
  | .process =>
    let payouts := processPendingDistributions config ledger.pending
    ⟨∅, ledger.paid + (payouts.map (·.2.toNat)).sum, ledger.queued⟩

def Balanced : Prop :=
  ledger.paid + pendingTotal ledger.pending = ledger.queued

/-- The backups divide their part evenly, and nothing small is pending when payouts are made. -/
def LosesNothing : FeeCall → Prop
  | .queue totalFee _ backups =>
    config.primaryAmount totalFee ≤ totalFee ∧
      backups.length ∣ (totalFee - config.primaryAmount totalFee).toNat ∧
      pendingTotal ledger.pending + totalFee.toNat < 2 ^ 64
  | .process => ∀ e ∈ ledger.pending.toPairs, config.minimumDistributionAmount ≤ e.2

/-- A call that loses nothing. -/
def Lossless (before after : FeeLedger) : Prop :=
  ∃ call, before.LosesNothing config call ∧ after = before.step config call

end FeeLedger

open FeeLedger

theorem total_addPending (id : MasternodeID) (amount : UInt64)
    (hfits : pendingTotal pending + amount.toNat < 2 ^ 64) :
    pendingTotal (addPending pending id amount) = pendingTotal pending + amount.toNat := by
  have hinsert := HashMap.total_insert UInt64.toNat pending id ((pending.lookup id).getD 0 + amount)
  have herase := HashMap.total_erase UInt64.toNat pending id
  have hold : ((pending.lookup id).getD 0).toNat = HashMap.measureAt UInt64.toNat pending id := by
    rw [HashMap.measureAt]
    cases pending.lookup id <;> rfl
  rw [UInt64.toNat_add, hold] at hinsert
  unfold addPending pendingTotal at *
  omega

variable {config pending} {ledger : FeeLedger} {backups : List MasternodeID}

theorem total_foldl_addPending {amount : UInt64}
    (hfits : pendingTotal pending + backups.length * amount.toNat < 2 ^ 64) :
    pendingTotal (backups.foldl (addPending · · amount) pending) =
      pendingTotal pending + backups.length * amount.toNat := by
  induction backups generalizing pending with
  | nil => simp
  | cons id backups ih =>
    rw [length_cons, Nat.succ_mul] at hfits ⊢
    have hhead := total_addPending pending id amount (by omega)
    rw [foldl_cons, ih (by omega), hhead]
    omega

/-- An even division leaves no remainder. -/
theorem length_mul_div {backupTotal : UInt64} (hdvd : backups.length ∣ backupTotal.toNat) :
    backups.length * (if backups.isEmpty then 0
      else backupTotal / UInt64.ofNat backups.length).toNat = backupTotal.toNat := by
  have hlt := backupTotal.toNat_lt
  cases backups with
  | nil => exact (Nat.zero_mul _).trans (Nat.zero_dvd.mp hdvd).symm
  | cons id backups =>
    rw [if_neg nofun, UInt64.toNat_div, toNat_ofNat']
    obtain hzero | hpos := Nat.eq_zero_or_pos backupTotal.toNat
    · rw [hzero, Nat.zero_div, Nat.mul_zero]
    · have hle := Nat.le_of_dvd hpos hdvd
      rw [Nat.mod_eq_of_lt (by omega), Nat.mul_div_cancel' hdvd]

theorem balanced_step {call : FeeCall} (hstep : ledger.LosesNothing config call)
    (hbalanced : ledger.Balanced) : (ledger.step config call).Balanced := by
  cases call with
  | queue totalFee primary backups =>
    obtain ⟨hle, hdvd, hfits⟩ := hstep
    have hbackups := length_mul_div hdvd
    rw [UInt64.toNat_sub_of_le _ _ hle] at hbackups
    have hprimary := le_iff_toNat_le.mp hle
    unfold step FeeLedger.Balanced queueFeeDistribution
    by_cases hsmall : totalFee < config.minimumDistributionAmount
    · simp only [if_pos hsmall]
      exact hbalanced
    · simp only [if_neg hsmall]
      have hadd := total_addPending ledger.pending primary (config.primaryAmount totalFee)
        (by omega)
      rw [total_foldl_addPending (by omega), hadd, hbackups]
      unfold FeeLedger.Balanced at hbalanced
      omega
  | process =>
    have hall : processPendingDistributions config ledger.pending = ledger.pending.toPairs :=
      filter_eq_self.mpr fun e he => decide_eq_true (hstep e he)
    change ledger.paid + (List.map _ _).sum + 0 = ledger.queued
    rw [hall, HashMap.toPairs, map_map]
    exact hbalanced

/-- In every run whose calls lose nothing, no fee is lost. -/
theorem balanced_of_lossless (hrun : Relation.ReflTransGen (Lossless config) ⟨∅, 0, 0⟩ ledger) :
    ledger.Balanced := by
  induction hrun with
  | refl => rfl
  | tail _ hstep ih =>
    obtain ⟨call, hlossless, rfl⟩ := hstep
    exact balanced_step hlossless ih

def payee (n : UInt8) : MasternodeID := ⟨.replicate 32 n, 0⟩

def defaultShares : FeeDistributionConfig := ⟨7 / 10, 1000⟩

/-- With 7000 and 3000 nothing is lost, and both are paid. -/
theorem balanced_of_lossless_paid :
    ([FeeCall.queue 10000 (payee 1) [payee 2], .process].foldl (step defaultShares)
      ⟨∅, 0, 0⟩).Balanced :=
  balanced_of_lossless (.tail (.single ⟨.queue 10000 (payee 1) [payee 2],
    ⟨by decide +kernel, by decide +kernel, by decide +kernel⟩, rfl⟩)
      ⟨.process, show ∀ e ∈ _, _ by decide +kernel, rfl⟩)

/-- A fee of thousand leaves every part below the minimum, and all of it is cleared. -/
theorem fee_lost : ¬ ([FeeCall.queue 1000 (payee 1) [payee 2], .process].foldl
    (step defaultShares) ⟨∅, 0, 0⟩).Balanced := by
  unfold FeeLedger.Balanced
  decide +kernel

end RustyCoin.RustyMasternode
