import RustyCoin.Sidechain.InterSidechainTransfer

/-!
# Histories of the transfers between sidechains

A history is the manager of the transfers together with what its calls have
reported: the ids of the initiated transfers and the completed transfers. Every
active transfer has passed the checks of `initiate_transfer` (`AllAdmitted`), and
a request that passes them can be taken through all of its states
(`run_lifecycle`), as often as one likes: a completed transfer is no longer among
the active ones, where duplicates are looked for.

The checks of a transfer add up the values of all outputs, of whatever asset and
whomever they pay, as 64-bit integers. So a transfer keeps its value exactly if
what does not belong to it adds up to a multiple of `2 ^ 64` on both sidechains
(`value_preserved_iff`).
-/

namespace RustyCoin.Sidechain

namespace InterSidechainTransferManager

open Outcome InterSidechainTransfer Stateful List AList

section

inductive Call where
  | initiateTransfer (request : TransferRequest) (now createdAt : UInt64)
  | updateSourceConfirmations (transferId : Hash) (currentHeight : UInt64)
  | setMainchainCoordination (transferId coordinationTxHash : Hash)
  | completeTransfer (transferId : Hash) (destinationMintTx : SidechainTransaction)
      (destinationBlockHeight : UInt64) (signatures : List FederationSignature)
  | checkTimeouts (currentTime : UInt64)

structure History where
  manager : InterSidechainTransferManager
  initiated : List Hash
  completions : List InterSidechainTransfer

namespace History

def start (manager : InterSidechainTransferManager) : History where
  manager := manager
  initiated := []
  completions := []

/-- The state after a call stays, and a successful call is noted down. -/
def after {α : Type} (history : History) (x : Stateful String InterSidechainTransferManager α)
    (note : α → History → History) : History :=
  match x.run history.manager with
  | (.ok a, manager) => note a { history with manager := manager }
  | (.error _, manager) => { history with manager := manager }

/-- The call shows in the manager alone. -/
def noteNothing (_ : Unit) (history : History) : History :=
  history

def noteInitiated (transferId : Hash) (history : History) : History :=
  { history with initiated := history.initiated ++ [transferId] }

def noteCompletion (transferId : Hash) (history : History) : History :=
  { history with
    completions := history.completions ++
      (history.manager.completedTransfers.lookup transferId).toList }

variable (codec : SidechainCodec) (env : Platform)

def step (history : History) : Call → History
  | .initiateTransfer request now createdAt =>
    history.after (initiateTransfer codec env request now createdAt) noteInitiated
  | .updateSourceConfirmations transferId currentHeight =>
    history.after (updateSourceConfirmations transferId currentHeight) noteNothing
  | .setMainchainCoordination transferId coordinationTxHash =>
    history.after (setMainchainCoordination transferId coordinationTxHash) noteNothing
  | .completeTransfer transferId destinationMintTx destinationBlockHeight signatures =>
    history.after
      (completeTransfer transferId destinationMintTx destinationBlockHeight signatures)
      fun _ => noteCompletion transferId
  | .checkTimeouts currentTime =>
    { history with manager := (history.manager.checkTimeouts currentTime).2 }

def run (history : History) (calls : List Call) : History :=
  calls.foldl (step codec env) history

variable {α : Type} {note : α → History → History}
  {x : Stateful String InterSidechainTransferManager α}

theorem after_of_ok {history : History} {a : α} {next : InterSidechainTransferManager}
    (h : x.run history.manager = (.ok a, next)) :
    history.after x note = note a { history with manager := next } := by
  rw [after, h]

/-- A fact about the next history follows from one for a call that returns and one for a call
that fails. -/
theorem after_cases {history : History} {P : History → Prop}
    (hok : ∀ a next, x.run history.manager = (.ok a, next) →
      P (note a { history with manager := next }))
    (herror : ∀ e next, x.run history.manager = (.error e, next) →
      P { history with manager := next }) : P (history.after x note) := by
  rw [after]
  rcases hx : x.run history.manager with ⟨e | a, next⟩
  · exact herror e next hx
  · exact hok a next hx

end History

end

section

variable {self next : InterSidechainTransferManager}

/-- Every active transfer has passed the checks, under limits that never change. -/
structure AllAdmitted (min max : UInt64) (manager : InterSidechainTransferManager) : Prop where
  min_eq : manager.minTransferAmount = min
  max_eq : manager.maxTransferAmount = max
  admits : ∀ id transfer, manager.activeTransfers.lookup id = some transfer →
    manager.Admits transfer.toTransferRequest

theorem Admits.congr {request : TransferRequest} (h : self.Admits request)
    (hmin : next.minTransferAmount = self.minTransferAmount)
    (hmax : next.maxTransferAmount = self.maxTransferAmount) : next.Admits request where
  min_le := hmin ▸ h.min_le
  le_max := hmax ▸ h.le_max
  recipient := h.recipient
  chains := h.chains
  outputs := h.outputs
  burned := h.burned

variable {min max : UInt64}

namespace AllAdmitted

theorem new (minSource minDestination : UInt32) (timeout min max : UInt64) :
    AllAdmitted min max (.new minSource minDestination timeout min max) where
  min_eq := rfl
  max_eq := rfl
  admits _ _ h := absurd h (Option.some_ne_none _).symm

variable (h : AllAdmitted min max self)
include h

/-- Under limits that contradict each other nothing is active. -/
theorem lookup_eq_none (hlimits : max < min) (id : Hash) :
    self.activeTransfers.lookup id = none := by
  cases hactive : self.activeTransfers.lookup id with
  | none => rfl
  | some transfer =>
    have hadmits := h.admits id transfer hactive
    have hle : min ≤ max :=
      h.min_eq ▸ h.max_eq ▸ UInt64.le_trans hadmits.min_le hadmits.le_max
    exact absurd hle (UInt64.not_le.mpr hlimits)

theorem setActive {id : Hash} {transfer : InterSidechainTransfer}
    (hadmits : self.Admits transfer.toTransferRequest) :
    AllAdmitted min max (self.setActive id transfer) :=
  ⟨h.min_eq, h.max_eq, fun k t hk =>
    (HashMap.forall_insert h.admits hadmits k t hk).congr rfl rfl⟩

theorem removeActive (id : Hash) : AllAdmitted min max (self.removeActive id) :=
  ⟨h.min_eq, h.max_eq, fun k t hk => (HashMap.forall_erase h.admits k t hk).congr rfl rfl⟩

theorem setCompleted (id : Hash)
    (transfer : InterSidechainTransfer) : AllAdmitted min max (self.setCompleted id transfer) :=
  ⟨h.min_eq, h.max_eq, fun k t hk => (h.admits k t hk).congr rfl rfl⟩

theorem moveToCompleted (id : Hash) : AllAdmitted min max (self.moveToCompleted id) := by
  rw [InterSidechainTransferManager.moveToCompleted]
  split
  · exact h
  · exact (h.removeActive id).setCompleted id _

theorem checkTimeouts (currentTime : UInt64) :
    AllAdmitted min max (self.checkTimeouts currentTime).2 := by
  refine Prefixes.foldl_invariant _ ?_ (fun s id hs => hs.moveToCompleted id) _
  refine ⟨h.min_eq, h.max_eq, fun k t hk => ?_⟩
  obtain ⟨old, hold, rfl⟩ :=
    Option.map_eq_some_iff.mp ((HashMap.lookup_mapValues _ _ k).symm.trans hk)
  rw [expire_request]
  exact (h.admits k old hold).congr rfl rfl

end AllAdmitted

variable {codec : SidechainCodec} {env : Platform}

theorem preserves_initiateTransfer (request : TransferRequest) (now createdAt : UInt64) :
    Stateful.Preserves (AllAdmitted min max)
      (initiateTransfer codec env request now createdAt) := by
  intro self h
  refine inv_run_read_bind h fun _ hvalid => ?_
  refine inv_run_read_bind h fun _ _ => ?_
  exact h.setActive (validateTransfer_eq_ok.mp hvalid)

theorem preserves_updateActive {id : Hash}
    {change : InterSidechainTransferManager → InterSidechainTransfer →
      Outcome String InterSidechainTransfer}
    (hchange : ∀ self transfer updated, change self transfer = .ok updated →
      updated.toTransferRequest = transfer.toTransferRequest) :
    Stateful.Preserves (AllAdmitted min max) (updateActive id change) := by
  intro self h
  refine inv_run_read_bind h fun transfer hactive => ?_
  refine inv_run_read_bind h fun updated hupdated => ?_
  apply h.setActive
  rw [hchange self transfer updated hupdated]
  exact h.admits id transfer (okOr_eq_ok.mp hactive)

theorem preserves_completeTransfer (id : Hash) (mint : SidechainTransaction) (height : UInt64)
    (signatures : List FederationSignature) :
    Stateful.Preserves (AllAdmitted min max) (completeTransfer id mint height signatures) := by
  refine (preserves_read _).bind fun transfer => ?_
  refine Stateful.Preserves.bind (preserves_modify fun s hs => hs.removeActive id) fun _ => ?_
  refine (preserves_read _).bind fun _ => ?_
  exact preserves_modify fun s hs => hs.setCompleted id _

theorem AllAdmitted.after {α : Type} {history : History} {note : α → History → History}
    {x : Stateful String InterSidechainTransferManager α}
    (hx : Stateful.Preserves (AllAdmitted min max) x)
    (hnote : ∀ a history, (note a history).manager = history.manager)
    (h : AllAdmitted min max history.manager) :
    AllAdmitted min max (history.after x note).manager := by
  have hnext := hx history.manager h
  refine History.after_cases (P := fun history => AllAdmitted min max history.manager)
    (fun a next hrun => ?_) fun e next hrun => ?_
  · rw [hrun] at hnext
    rw [hnote]
    exact hnext
  · rw [hrun] at hnext
    exact hnext

theorem AllAdmitted.step {history : History} (h : AllAdmitted min max history.manager)
    (call : Call) : AllAdmitted min max (history.step codec env call).manager := by
  cases call with
  | initiateTransfer request now createdAt =>
    exact h.after (preserves_initiateTransfer request now createdAt) fun _ _ => rfl
  | updateSourceConfirmations id height =>
    refine h.after (preserves_updateActive fun _ _ _ hupdated => ?_) fun _ _ => rfl
    exact confirmSource_request hupdated
  | setMainchainCoordination id txHash =>
    refine h.after (preserves_updateActive fun _ _ _ hupdated => ?_) fun _ _ => rfl
    exact coordinate_request hupdated
  | completeTransfer id mint height signatures =>
    exact h.after (preserves_completeTransfer id mint height signatures) fun _ _ => rfl
  | checkTimeouts currentTime => exact h.checkTimeouts currentTime

theorem AllAdmitted.run {history : History} (h : AllAdmitted min max history.manager)
    (calls : List Call) : AllAdmitted min max (history.run codec env calls).manager :=
  List.foldlRecOn (motive := fun history : History => AllAdmitted min max history.manager) calls _ h
    fun _ hs call _ => hs.step call

end

variable {codec : SidechainCodec} {env : Platform} {history : History} {request : TransferRequest}
  {mint : SidechainTransaction}

/-- The calls that take a transfer through all of its states. -/
def lifecycle (codec : SidechainCodec) (env : Platform) (request : TransferRequest)
    (mint : SidechainTransaction) (confirmedAt : UInt64) : List Call :=
  let transferId := transferIdOf codec env request
  [.initiateTransfer request 0 0, .updateSourceConfirmations transferId confirmedAt,
    .setMainchainCoordination transferId (.replicate 32 0),
    .completeTransfer transferId mint 0 []]

/-- The history has one completion more, and the transfer may be initiated again. -/
structure Completes (codec : SidechainCodec) (env : Platform) (request : TransferRequest)
    (before after : History) : Prop where
  min_eq : after.manager.minTransferAmount = before.manager.minTransferAmount
  max_eq : after.manager.maxTransferAmount = before.manager.maxTransferAmount
  inactive : after.manager.activeTransfers.lookup (transferIdOf codec env request) = none
  completions : ∃ transfer : InterSidechainTransfer, transfer.toTransferRequest = request ∧
    after.completions = before.completions ++ [transfer]

theorem run_lifecycle {confirmedAt : UInt64} (hadmits : history.manager.Admits request)
    (hnew : history.manager.activeTransfers.lookup (transferIdOf codec env request) = none)
    (hconfirmed : history.manager.minSourceConfirmations ≤
      (saturatingSub confirmedAt request.sourceBlockHeight).toUInt32)
    (hmint : verifyMintTransaction mint request.amount request.assetId request.recipientAddress =
      .ok ()) :
    Completes codec env request history
      (history.run codec env (lifecycle codec env request mint confirmedAt)) := by
  set id := transferIdOf codec env request with hid
  -- one step for each call: what it returns, then what it makes of a history
  let created := history.manager.createTransfer request id 0 0
  let manager₁ := history.manager.setActive id created
  have hinitiate : (initiateTransfer codec env request 0 0).run history.manager =
      (.ok id, manager₁) := initiateTransfer_eq_ok.mpr ⟨hadmits, hid, hnew, rfl⟩
  have hstep₁ : history.step codec env (.initiateTransfer request 0 0) =
      ⟨manager₁, history.initiated ++ [id], history.completions⟩ := History.after_of_ok hinitiate
  let confirmed : InterSidechainTransfer := { created with status := .waitingMainchainCoordination }
  have hsource : created.confirmSource confirmedAt = .ok confirmed :=
    confirmSource_of_enough rfl hconfirmed
  let manager₂ := manager₁.setActive id confirmed
  have hupdate : (updateSourceConfirmations id confirmedAt).run manager₁ = (.ok (), manager₂) :=
    updateActive_eq_ok.mpr ⟨created, confirmed, lookup_insert _, hsource, rfl⟩
  have hstep₂ (initiated : List Hash) (completions : List InterSidechainTransfer) :
      History.step codec env ⟨manager₁, initiated, completions⟩
        (.updateSourceConfirmations id confirmedAt) = ⟨manager₂, initiated, completions⟩ :=
    History.after_of_ok hupdate
  let coordinated : InterSidechainTransfer :=
    { confirmed with
      mainchainCoordinationTx := some (.replicate 32 0)
      status := .waitingDestinationConfirmation 0 history.manager.minDestinationConfirmations }
  let manager₃ := manager₂.setActive id coordinated
  have hcoordinate : (setMainchainCoordination id (.replicate 32 0)).run manager₂ =
      (.ok (), manager₃) :=
    updateActive_eq_ok.mpr ⟨confirmed, coordinated, lookup_insert _, rfl, rfl⟩
  have hstep₃ (initiated : List Hash) (completions : List InterSidechainTransfer) :
      History.step codec env ⟨manager₂, initiated, completions⟩
        (.setMainchainCoordination id (.replicate 32 0)) = ⟨manager₃, initiated, completions⟩ :=
    History.after_of_ok hcoordinate
  let finished := coordinated.complete mint 0 []
  let manager₄ := (manager₃.removeActive id).setCompleted id finished
  have hcomplete : (completeTransfer id mint 0 []).run manager₃ = (.ok (), manager₄) := by
    refine completeTransfer_eq_ok.mpr ⟨coordinated, lookup_insert _, ?_, rfl⟩
    exact checkCompletion_eq_ok.mpr ⟨⟨_, _, rfl⟩, hmint⟩
  have hstep₄ (initiated : List Hash) (completions : List InterSidechainTransfer) :
      History.step codec env ⟨manager₃, initiated, completions⟩
        (.completeTransfer id mint 0 []) =
          ⟨manager₄, initiated, completions ++ (manager₄.completedTransfers.lookup id).toList⟩ :=
    History.after_of_ok hcomplete
  have hfound : manager₄.completedTransfers.lookup id = some finished := lookup_insert _
  rw [History.run, lifecycle, foldl_cons, hstep₁, foldl_cons, hstep₂,
    foldl_cons, hstep₃, foldl_cons, hstep₄, hfound]
  exact ⟨rfl, rfl, lookup_erase id _, finished, rfl, rfl⟩

section

variable {codec : SidechainCodec} {env : Platform}

/-- What a transfer burns: a transaction of its source sidechain. -/
def burnOf (transfer : InterSidechainTransfer) : Hash × SidechainTransaction :=
  (transfer.sourceSidechainId, transfer.sourceTx)

/-- No burn has been completed twice. -/
def OneMintPerBurn (history : History) : Prop :=
  (history.completions.map burnOf).Nodup

/-- Every initiated transfer is in exactly one of the two maps. -/
def FoundOnce (history : History) : Prop :=
  ∀ id ∈ history.initiated,
    (history.manager.activeTransfers.lookup id).isSome ≠
      (history.manager.completedTransfers.lookup id).isSome

/-- No call has been successful so far. -/
structure Idle (history : History) : Prop where
  initiated : history.initiated = []
  completions : history.completions = []

/-- Under limits that contradict each other no transfer can be initiated, so that none can be
completed. -/
theorem Idle.step {min max : UInt64} {history : History}
    (hadmitted : AllAdmitted min max history.manager) (hlimits : max < min) (h : Idle history)
    (call : Call) : Idle (history.step codec env call) := by
  cases call with
  | initiateTransfer request now createdAt =>
    refine History.after_cases (P := Idle) (fun id next hrun => ?_) fun _ _ _ => ⟨h.1, h.2⟩
    obtain ⟨hadmits, -⟩ := initiateTransfer_eq_ok.mp hrun
    have hle : min ≤ max :=
      hadmitted.min_eq ▸ hadmitted.max_eq ▸ UInt64.le_trans hadmits.min_le hadmits.le_max
    exact absurd hle (UInt64.not_le.mpr hlimits)
  | updateSourceConfirmations id height =>
    refine History.after_cases (P := Idle) (fun _ _ _ => ?_) fun _ _ _ => ⟨h.1, h.2⟩
    exact ⟨h.1, h.2⟩
  | setMainchainCoordination id txHash =>
    refine History.after_cases (P := Idle) (fun _ _ _ => ?_) fun _ _ _ => ⟨h.1, h.2⟩
    exact ⟨h.1, h.2⟩
  | completeTransfer id mint height signatures =>
    refine History.after_cases (P := Idle) (fun _ next hrun => ?_) fun _ _ _ => ⟨h.1, h.2⟩
    obtain ⟨transfer, hactive, -⟩ := completeTransfer_eq_ok.mp hrun
    rw [hadmitted.lookup_eq_none hlimits id] at hactive
    cases hactive
  | checkTimeouts currentTime => exact ⟨h.1, h.2⟩

theorem Idle.run {minSource minDestination : UInt32} {timeout min max : UInt64}
    (hlimits : max < min) (calls : List Call) :
    Idle (History.run codec env
      (.start (.new minSource minDestination timeout min max)) calls) := by
  let start := History.start (.new minSource minDestination timeout min max)
  have hstart : AllAdmitted min max start.manager ∧ Idle start := ⟨.new _ _ _ _ _, rfl, rfl⟩
  have hboth := List.foldlRecOn
    (motive := fun history : History => AllAdmitted min max history.manager ∧ Idle history)
    calls (History.step codec env) hstart
    fun _ hs call _ => ⟨hs.1.step call, hs.2.step hs.1 hlimits call⟩
  exact hboth.2

/-- A transaction that pays an amount to an address. -/
def payment (amount : UInt64) (assetId : Hash) (address : Bytes) : SidechainTransaction where
  version := 1
  inputs := [⟨⟨.replicate 32 1, 0⟩, [], 0xffffffff⟩]
  outputs := [⟨amount, assetId, address, []⟩]
  lockTime := 0
  vmData := none
  fee := 1000

/-- A request for an amount, as the tests of the manager make it. -/
def requestFor (amount : UInt64) : TransferRequest where
  sourceSidechainId := .replicate 32 1
  destinationSidechainId := .replicate 32 2
  sourceTx := payment amount (.replicate 32 2) [3, 4, 5]
  amount := amount
  assetId := .replicate 32 2
  recipientAddress := [3, 4, 5]
  sourceBlockHeight := 0
  sourceProof := ⟨[], [], [], 0⟩
  sourceFederationSignatures := []

@[simp] theorem totalOutputValue_payment (amount : UInt64) (assetId : Hash) (address : Bytes) :
    (payment amount assetId address).totalOutputValue = amount :=
  UInt64.zero_add amount

variable {amount : UInt64}

theorem admits_requestFor {manager : InterSidechainTransferManager}
    (hmin : manager.minTransferAmount ≤ amount) (hmax : amount ≤ manager.maxTransferAmount) :
    manager.Admits (requestFor amount) where
  min_le := hmin
  le_max := hmax
  recipient := cons_ne_nil _ _
  chains := by
    show List.Vector.replicate 32 1 ≠ List.Vector.replicate 32 2
    decide
  outputs := cons_ne_nil _ _
  burned := totalOutputValue_payment amount _ _

theorem mint_requestFor (amount : UInt64) :
    verifyMintTransaction (payment amount (.replicate 32 2) [3, 4, 5]) (requestFor amount).amount
      (requestFor amount).assetId (requestFor amount).recipientAddress = .ok () := by
  refine verifyMintTransaction_eq_ok.mpr ⟨cons_ne_nil _ _, totalOutputValue_payment amount _ _, ?_⟩
  exact ⟨_, mem_singleton_self _, rfl⟩

variable (codec : SidechainCodec) (env : Platform)

theorem completes_requestFor (history : History) (hmin : history.manager.minTransferAmount ≤ amount)
    (hmax : amount ≤ history.manager.maxTransferAmount)
    (hnew : history.manager.activeTransfers.lookup
      (transferIdOf codec env (requestFor amount)) = none) :
    ∃ calls, Completes codec env (requestFor amount) history
      (history.run codec env calls) := by
  -- the burn is in block zero, so the height is the number of confirmations
  have hheight (n : UInt64) : saturatingSub n 0 = n := by
    rw [← UInt64.toNat_inj]
    simp [saturatingSub]
  have hconfirmed : history.manager.minSourceConfirmations ≤
      (saturatingSub history.manager.minSourceConfirmations.toUInt64 0).toUInt32 := by
    rw [hheight, UInt32.toUInt32_toUInt64]
    exact UInt32.le_refl _
  exact ⟨_, run_lifecycle (admits_requestFor hmin hmax) hnew hconfirmed (mint_requestFor amount)⟩

/-- The same burn is taken through all states and then again. -/
theorem completes_twice (history : History) (hmin : history.manager.minTransferAmount ≤ amount)
    (hmax : amount ≤ history.manager.maxTransferAmount)
    (hnew : history.manager.activeTransfers.lookup
      (transferIdOf codec env (requestFor amount)) = none) :
    ∃ calls, ∃ transfer again : InterSidechainTransfer,
      transfer.toTransferRequest = requestFor amount ∧
      again.toTransferRequest = requestFor amount ∧
      (history.run codec env calls).completions =
        history.completions ++ [transfer] ++ [again] := by
  obtain ⟨calls, hfirst⟩ := completes_requestFor codec env history hmin hmax hnew
  obtain ⟨transfer, hrequest, hcompletions⟩ := hfirst.completions
  have hmin' := hfirst.min_eq.trans_le hmin
  have hmax' := hmax.trans_eq hfirst.max_eq.symm
  obtain ⟨calls', hsecond⟩ := completes_requestFor codec env _ hmin' hmax' hfirst.inactive
  obtain ⟨again, hagain, htwice⟩ := hsecond.completions
  refine ⟨calls ++ calls', transfer, again, hrequest, hagain, ?_⟩
  rw [History.run, foldl_append, ← hcompletions]
  exact htwice

/-- A burn is minted once only if no transfer at all can be initiated: a completed transfer can be
initiated again with the same burn, and completed again. -/
theorem one_mint_per_burn_iff (minSource minDestination : UInt32) (timeout min max : UInt64) :
    (∀ calls, OneMintPerBurn (History.run codec env
      (.start (.new minSource minDestination timeout min max)) calls)) ↔ max < min := by
  constructor
  · intro hone
    by_contra hlimits
    have hmin : min ≤ min := UInt64.le_refl min
    have hmax : min ≤ max := UInt64.not_lt.mp hlimits
    obtain ⟨calls, transfer, again, htransfer, hagain, hcompletions⟩ :=
      completes_twice codec env
        (.start (.new minSource minDestination timeout min max)) hmin hmax rfl
    have hsame : burnOf transfer = burnOf again := by
      show (transfer.toTransferRequest.sourceSidechainId, transfer.toTransferRequest.sourceTx) =
        (again.toTransferRequest.sourceSidechainId, again.toTransferRequest.sourceTx)
      rw [htransfer, hagain]
    have hnodup := hone calls
    rw [OneMintPerBurn, hcompletions, map_append, map_append, map_singleton,
      map_singleton, hsame] at hnodup
    have hpair : [burnOf again, burnOf again].Nodup := hnodup
    exact not_nodup_pair _ hpair
  · intro hlimits calls
    rw [OneMintPerBurn, (Idle.run hlimits calls).completions]
    exact nodup_nil

/-- The limits of the documentation, and the same calls twice. -/
theorem burn_minted_twice :
    ¬ OneMintPerBurn (History.run .blank .blank
      (.start (.new 6 6 1440 100000 1000000000000))
      (lifecycle .blank .blank (requestFor 5000000)
          (payment 5000000 (.replicate 32 2) [3, 4, 5]) 106 ++
        lifecycle .blank .blank (requestFor 5000000)
          (payment 5000000 (.replicate 32 2) [3, 4, 5]) 106)) := by
  rw [OneMintPerBurn]
  decide

/-- If `complete_transfer` fails, it has changed nothing. -/
def FailsCleanly (self : InterSidechainTransferManager) (id : Hash) (mint : SidechainTransaction)
    (height : UInt64) (signatures : List FederationSignature) : Prop :=
  ∀ e next, (completeTransfer id mint height signatures).run self = (.error e, next) → next = self

theorem failsCleanly_iff {self : InterSidechainTransferManager} {id : Hash}
    {mint : SidechainTransaction} {height : UInt64} {signatures : List FederationSignature} :
    self.FailsCleanly id mint height signatures ↔
      ∀ transfer, self.activeTransfers.lookup id = some transfer →
        transfer.checkCompletion mint = .ok () := by
  constructor
  · intro hclean transfer hactive
    cases hcheck : transfer.checkCompletion mint with
    | ok a => rfl
    | error e =>
      have hrun : (completeTransfer id mint height signatures).run self =
          (.error e, self.removeActive id) := by
        rw [completeTransfer_of_active hactive, hcheck]
      have hsame := hclean e (self.removeActive id) hrun
      have hgone : (self.removeActive id).activeTransfers.lookup id = none :=
        lookup_erase id _
      rw [hsame, hactive] at hgone
      cases hgone
  · intro hchecks e next hrun
    cases hactive : self.activeTransfers.lookup id with
    | none =>
      rw [completeTransfer_of_inactive hactive] at hrun
      exact (congrArg Prod.snd hrun).symm
    | some transfer =>
      rw [completeTransfer_of_active hactive, hchecks transfer hactive] at hrun
      cases hrun

/-- A transfer that is completed too early is in neither of the maps. -/
theorem not_foundOnce
    (minSource minDestination : UInt32) {timeout min max : UInt64} (hlimits : min ≤ max) :
    ∃ calls, ¬ FoundOnce (History.run codec env
      (.start (.new minSource minDestination timeout min max)) calls) := by
  let start := new minSource minDestination timeout min max
  let id := transferIdOf codec env (requestFor min)
  let created := start.createTransfer (requestFor min) id 0 0
  have hadmits : start.Admits (requestFor min) := admits_requestFor (UInt64.le_refl min) hlimits
  have hinitiate : (initiateTransfer codec env (requestFor min) 0 0).run start =
      (.ok id, start.setActive id created) :=
    initiateTransfer_eq_ok.mpr ⟨hadmits, rfl, rfl, rfl⟩
  have hstep₁ : (History.start start).step codec env
      (.initiateTransfer (requestFor min) 0 0) = ⟨start.setActive id created, [id], []⟩ :=
    History.after_of_ok hinitiate
  have hactive : (start.setActive id created).activeTransfers.lookup id = some created :=
    lookup_insert _
  have hstep₂ : History.step codec env ⟨start.setActive id created, [id], []⟩
      (.completeTransfer id (requestFor min).sourceTx 0 []) =
        ⟨(start.setActive id created).removeActive id, [id], []⟩ := by
    rw [History.step, History.after, completeTransfer_of_active hactive]
    rfl
  refine ⟨[.initiateTransfer (requestFor min) 0 0,
    .completeTransfer id (requestFor min).sourceTx 0 []], fun hfound => ?_⟩
  rw [History.run, foldl_cons, hstep₁, foldl_cons, hstep₂] at hfound
  apply hfound id (mem_singleton_self id)
  show (AList.lookup id (AList.erase id _)).isSome = _
  rw [lookup_erase]
  rfl

/-- A failed completion leaves the manager as it is only if it names no active transfer, and
transfers are never lost only if none can be initiated: the transfer is taken out of the active
ones before its state and the mint transaction are checked. -/
theorem transfers_kept_iff :
    (∀ (self : InterSidechainTransferManager) id mint height signatures,
      self.FailsCleanly id mint height signatures ↔
        ∀ transfer, self.activeTransfers.lookup id = some transfer →
          transfer.AwaitsMint ∧ mint.outputs ≠ [] ∧ mint.totalOutputValue = transfer.amount ∧
            ∃ o ∈ mint.outputs, o.scriptPubkey = transfer.recipientAddress) ∧
    ∀ minSource minDestination timeout min max,
      (∀ calls, FoundOnce (History.run codec env
        (.start (.new minSource minDestination timeout min max)) calls)) ↔ max < min := by
  constructor
  · intro self id mint height signatures
    rw [failsCleanly_iff]
    refine forall₂_congr fun transfer _ => ?_
    rw [checkCompletion_eq_ok, verifyMintTransaction_eq_ok]
  · intro minSource minDestination timeout min max
    constructor
    · intro hfound
      by_contra hlimits
      obtain ⟨calls, hlost⟩ := not_foundOnce codec env minSource minDestination
        (UInt64.not_lt.mp hlimits)
      exact hlost (hfound calls)
    · intro hlimits calls id hid
      rw [(Idle.run hlimits calls).initiated] at hid
      cases hid

/-- A transfer is initiated and completed before its confirmations are in. -/
theorem early_completion_loses_transfer :
    ¬ FoundOnce (History.run .blank .blank (.start (.new 6 6 1440 100000 1000000000000))
      [.initiateTransfer (requestFor 5000000) 0 0,
        .completeTransfer (.replicate 32 0) (requestFor 5000000).sourceTx 0 []]) := by
  intro hfound
  exact hfound (.replicate 32 0) (by decide) (by decide)

end

end InterSidechainTransferManager

open Outcome

variable (tx : SidechainTransaction) (p : SidechainTxOutput → Bool)

/-- The exact value of the outputs of a kind. -/
def SidechainTransaction.valueWhere :
    Nat :=
  WrappingSum.exact ((tx.outputs.filter p).map SidechainTxOutput.value)

/-- The machine's total is the exact value of both kinds of outputs up to wrapping around. -/
theorem SidechainTransaction.toNat_totalOutputValue :
    tx.totalOutputValue.toNat =
      (tx.valueWhere p + tx.valueWhere fun o => !p o) % 2 ^ 64 := by
  have hparts := ((List.filter_append_perm p tx.outputs).map SidechainTxOutput.value).map
    UInt64.toNat
  rw [totalOutputValue, WrappingSum.toNat_foldl_add, UInt64.toNat_zero, Nat.zero_add,
    WrappingSum.exact, ← hparts.sum_eq, List.map_append, List.map_append, List.sum_append]
  rfl

namespace InterSidechainTransfer

variable (self : InterSidechainTransfer)

def ofAsset (o : SidechainTxOutput) : Bool :=
  o.assetId = self.assetId

/-- An output of the asset that goes to the recipient. -/
def toRecipient (o : SidechainTxOutput) : Bool :=
  o.assetId = self.assetId ∧ o.scriptPubkey = self.recipientAddress

/-- The source transaction burns the amount of the asset, and the mint transaction pays it to
the recipient. -/
def PreservesValue (mint : SidechainTransaction) : Prop :=
  self.sourceTx.valueWhere self.ofAsset = self.amount.toNat ∧
    mint.valueWhere self.toRecipient = self.amount.toNat

theorem preservesValue_iff {self : InterSidechainTransfer} {mint : SidechainTransaction}
    (hburned : self.sourceTx.totalOutputValue = self.amount)
    (hminted : mint.totalOutputValue = self.amount) :
    self.PreservesValue mint ↔
      (self.sourceTx.valueWhere self.ofAsset < 2 ^ 64 ∧
        2 ^ 64 ∣ self.sourceTx.valueWhere fun o => !self.ofAsset o) ∧
      (mint.valueWhere self.toRecipient < 2 ^ 64 ∧
        2 ^ 64 ∣ mint.valueWhere fun o => !self.toRecipient o) := by
  have hsource := self.sourceTx.toNat_totalOutputValue self.ofAsset
  have hmint := mint.toNat_totalOutputValue self.toRecipient
  rw [hburned] at hsource
  rw [hminted] at hmint
  exact and_congr (WrappingSum.part_eq_iff hsource) (WrappingSum.part_eq_iff hmint)

end InterSidechainTransfer

namespace InterSidechainTransferManager

/-- A completed transfer keeps its value exactly if on neither sidechain the outputs that count
wrap around, and the outputs that do not count add up to a multiple of `2 ^ 64`. -/
theorem value_preserved_iff (codec : SidechainCodec) (env : Platform)
    (minSource minDestination : UInt32) (timeout min max : UInt64) (calls : List Call) (id : Hash)
    (mint : SidechainTransaction) (height : UInt64) (signatures : List FederationSignature)
    (transfer : InterSidechainTransfer) (next : InterSidechainTransferManager)
    (hactive : (History.run codec env (.start (.new minSource minDestination timeout min max))
      calls).manager.activeTransfers.lookup id = some transfer)
    (hcompletes : (completeTransfer id mint height signatures).run (History.run codec env
      (.start (.new minSource minDestination timeout min max)) calls).manager = (.ok (), next)) :
    transfer.PreservesValue mint ↔
      (transfer.sourceTx.valueWhere transfer.ofAsset < 2 ^ 64 ∧
        2 ^ 64 ∣ transfer.sourceTx.valueWhere fun o => !transfer.ofAsset o) ∧
      (mint.valueWhere transfer.toRecipient < 2 ^ 64 ∧
        2 ^ 64 ∣ mint.valueWhere fun o => !transfer.toRecipient o) := by
  have hadmitted := (AllAdmitted.new minSource minDestination timeout min max)
  have hrun : AllAdmitted min max (History.run codec env
      (.start (.new minSource minDestination timeout min max)) calls).manager :=
    AllAdmitted.run hadmitted calls
  obtain ⟨_, hlookup, hcheck, -⟩ := completeTransfer_eq_ok.mp hcompletes
  cases hactive.symm.trans hlookup
  obtain ⟨-, hverify⟩ := InterSidechainTransfer.checkCompletion_eq_ok.mp hcheck
  obtain ⟨-, hminted, -⟩ := verifyMintTransaction_eq_ok.mp hverify
  exact InterSidechainTransfer.preservesValue_iff (hrun.admits id transfer hactive).burned hminted

/-- The transfer that the manager holds after these three calls. -/
def awaitingMint : InterSidechainTransfer where
  toTransferRequest := requestFor 5000000
  transferId := .replicate 32 0
  mainchainCoordinationTx := some (.replicate 32 0)
  destinationMintTx := none
  destinationBlockHeight := none
  destinationFederationSignatures := []
  status := .waitingDestinationConfirmation 0 6
  createdAt := 0
  timeoutAt := 216000

theorem payment_keeps_value :
    awaitingMint.PreservesValue (payment 5000000 (.replicate 32 2) [3, 4, 5]) := by
  refine (value_preserved_iff .blank .blank 6 6 1440 100000 1000000000000
    ((lifecycle .blank .blank (requestFor 5000000)
      (payment 5000000 (.replicate 32 2) [3, 4, 5]) 106).take 3) (.replicate 32 0)
    (payment 5000000 (.replicate 32 2) [3, 4, 5]) 0 [] awaitingMint _ rfl rfl).mpr ?_
  decide

/-- An amount of one asset is burned and claimed as that of another one, and what is minted is of
a third one. -/
theorem asset_exchanged :
    (History.run .blank .blank (.start (.new 6 6 1440 100000 1000000000000))
      (lifecycle .blank .blank { requestFor 5000000 with assetId := .replicate 32 7 }
        (payment 5000000 (.replicate 32 9) [3, 4, 5]) 106)).completions.map
      (fun transfer => (transfer.amount.toNat, transfer.sourceTx.valueWhere transfer.ofAsset,
        transfer.destinationMintTx.map fun mint => mint.valueWhere transfer.toRecipient)) =
      [(5000000, 0, some 0)] := by
  decide

end InterSidechainTransferManager

end RustyCoin.Sidechain
