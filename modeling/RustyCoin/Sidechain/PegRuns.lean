import RustyCoin.Sidechain.TwoWayPeg

/-!
# Runs of the two-way peg

`Moves` lists what a call can do to the peg transactions: one is added, one moves
from the pending to the completed ones, one is completed, or none changes. So
nothing is lost and only the status of a peg transaction changes. That a
transaction is confirmed shows that enough blocks have passed unless the sum of
its height and the required number of blocks has wrapped around
(`pegs_sound_iff`).

A lock or a burn should pay for one peg transaction, and the federation should
sign for what it pays. Neither is checked: the message that is signed does not
depend on the request, so the signatures for one request are good for every
other one, and for the same one again. `pegs_backed_iff` says that both fail as
soon as a request passes.
-/

namespace RustyCoin.Sidechain.TwoWayPegManager

open Outcome Prefixes List AList

section

inductive Request where
  | pegIn (request : PegInRequest)
  | pegOut (request : PegOutRequest)

/-- The peg transaction that a request asks for. -/
def Request.transaction : Request → Hash → UInt64 → PegTransaction
  | .pegIn request => request.transaction
  | .pegOut request => request.transaction

/-- The calls on the manager. The federation and the outputs are shared, so the last two also
stand for changes of them from outside. -/
inductive Call where
  | initiate (request : Request) (txId : Hash) (timestamp : UInt64)
  | confirmPegTransaction (txId : Hash) (currentHeight : UInt64)
  | completePegTransaction (txId : Hash)
  | withFederationManager (federationManager : FederationIntegrator)
  | withMainchainUtxoSet (utxoSet : RustyCoin.UtxoSet)

variable {K S : Type} (crypto : ThresholdCrypto K S)

variable (self : TwoWayPegManager)

def initiate (request : Request) (txId : Hash) (timestamp : UInt64) :
    Outcome String (Hash × TwoWayPegManager) :=
  match request with
  | .pegIn request => self.initiatePegIn crypto request txId timestamp
  | .pegOut request => self.initiatePegOut crypto request txId timestamp

def call : Call → Outcome String TwoWayPegManager
  | .initiate request txId timestamp =>
    Prod.snd <$> self.initiate crypto request txId timestamp
  | .confirmPegTransaction txId currentHeight => self.confirmPegTransaction txId currentHeight
  | .completePegTransaction txId => self.completePegTransaction txId
  | .withFederationManager federationManager =>
    .ok (self.withFederationManager federationManager)
  | .withMainchainUtxoSet utxoSet => .ok (self.withMainchainUtxoSet utxoSet)

/-- A call that fails changes nothing. -/
def step (c : Call) : TwoWayPegManager :=
  match self.call crypto c with
  | .ok next => next
  | .error _ => self

def run (calls : List Call) : TwoWayPegManager :=
  calls.foldl (step crypto) self

/-- A request passes on its signatures; a peg-in also needs the outputs to be set. -/
def Request.Passes : Request → Prop
  | .pegIn request =>
    SignaturesPass crypto self request.federationSignatures request.sidechainId ∧
      self.mainchainUtxoSet.isSome
  | .pegOut request =>
    SignaturesPass crypto self request.federationSignatures request.sidechainId

/-- What a call can do to the peg transactions. -/
inductive Moves (self : TwoWayPegManager) : Call → TwoWayPegManager → Prop
  | idle {c : Call} {next : TwoWayPegManager} :
      next.pendingTransactions = self.pendingTransactions →
      next.completedTransactions = self.completedTransactions →
      next.requiredConfirmations = self.requiredConfirmations → Moves self c next
  | initiated {request : Request} {txId : Hash} {timestamp : UInt64} :
      Moves self (.initiate request txId timestamp)
        (self.insertPending txId (request.transaction txId timestamp))
  | confirmed {txId : Hash} {currentHeight : UInt64} {tx : PegTransaction} :
      self.pendingTransactions.lookup txId = some tx →
      tx.confirmHeight + self.requiredConfirmations ≤ currentHeight →
      Moves self (.confirmPegTransaction txId currentHeight) (self.moveToCompleted txId tx)
  | completed {txId : Hash} {tx : PegTransaction} :
      self.completedTransactions.lookup txId = some tx →
      Moves self (.completePegTransaction txId) { self with
        completedTransactions :=
          self.completedTransactions.insert txId { tx with status := .completed } }

variable {crypto self}

theorem validateMainchainLockTransaction_eq_ok {request : PegInRequest} :
    self.validateMainchainLockTransaction request = .ok () ↔ self.mainchainUtxoSet.isSome := by
  rw [validateMainchainLockTransaction]
  cases self.mainchainUtxoSet with
  | none => exact iff_of_false nofun nofun
  | some utxoSet => exact iff_of_true rfl rfl

variable {request : Request} {txId : Hash}

/-- A request that passes is answered with its peg transaction, and no other one is. -/
theorem initiate_eq_ok {timestamp : UInt64} {result : Hash × TwoWayPegManager} :
    self.initiate crypto request txId timestamp = .ok result ↔
      request.Passes crypto self ∧
        (txId, self.insertPending txId (request.transaction txId timestamp)) = result := by
  cases request with
  | pegIn request =>
    rw [Request.Passes, ← validateFederationSignatures_eq_ok,
      ← validateMainchainLockTransaction_eq_ok, initiate, initiatePegIn, bind_eq_ok]
    constructor
    · rintro ⟨_, hsignatures, h⟩
      obtain ⟨_, hlock, h⟩ := bind_eq_ok.mp h
      exact ⟨⟨hsignatures, hlock⟩, Except.ok.inj h⟩
    · rintro ⟨⟨hsignatures, hlock⟩, rfl⟩
      exact ⟨(), hsignatures, bind_eq_ok.mpr ⟨(), hlock, rfl⟩⟩
  | pegOut request =>
    rw [Request.Passes, ← validateFederationSignatures_eq_ok, initiate, initiatePegOut, bind_eq_ok]
    constructor
    · rintro ⟨_, hsignatures, h⟩
      exact ⟨hsignatures, Except.ok.inj h⟩
    · rintro ⟨hsignatures, rfl⟩
      exact ⟨(), hsignatures, rfl⟩

theorem initiate_of_passes (hpasses : request.Passes crypto self) (txId : Hash)
    (timestamp : UInt64) :
    self.initiate crypto request txId timestamp =
      .ok (txId, self.insertPending txId (request.transaction txId timestamp)) :=
  initiate_eq_ok.mpr ⟨hpasses, rfl⟩

theorem call_initiate_iff {timestamp : UInt64} {next : TwoWayPegManager} :
    self.call crypto (.initiate request txId timestamp) = .ok next ↔
      request.Passes crypto self ∧
        self.insertPending txId (request.transaction txId timestamp) = next := by
  rw [call, map_eq_ok]
  constructor
  · rintro ⟨result, hresult, rfl⟩
    obtain ⟨hpasses, rfl⟩ := initiate_eq_ok.mp hresult
    exact ⟨hpasses, rfl⟩
  · rintro ⟨hpasses, rfl⟩
    exact ⟨_, initiate_of_passes hpasses txId timestamp, rfl⟩

theorem call_confirm_iff {currentHeight : UInt64} {next : TwoWayPegManager} :
    self.call crypto (.confirmPegTransaction txId currentHeight) = .ok next ↔
      ∃ tx, self.pendingTransactions.lookup txId = some tx ∧
        tx.confirmHeight + self.requiredConfirmations ≤ currentHeight ∧
        next = self.moveToCompleted txId tx := by
  rw [call, confirmPegTransaction, bind_eq_ok]
  constructor
  · rintro ⟨tx, htx, hnext⟩
    obtain ⟨hheight, hnext⟩ := ite_fail_eq_ok.mp hnext
    exact ⟨tx, okOr_eq_ok.mp htx, UInt64.not_lt.mp hheight, (Except.ok.inj hnext).symm⟩
  · rintro ⟨tx, htx, hheight, rfl⟩
    exact ⟨tx, okOr_eq_ok.mpr htx, ite_fail_eq_ok.mpr ⟨UInt64.not_lt.mpr hheight, rfl⟩⟩

variable {c : Call} {next : TwoWayPegManager}

theorem step_of_ok (h : self.call crypto c = .ok next) : self.step crypto c = next := by
  rw [step, h]

theorem step_of_error {c : Call} {failure : Failure String}
    (h : self.call crypto c = .error failure) : self.step crypto c = self := by
  rw [step, h]

theorem moves_step (crypto : ThresholdCrypto K S) (self : TwoWayPegManager) (c : Call) :
    Moves self c (self.step crypto c) := by
  cases hcall : self.call crypto c with
  | error failure =>
    rw [step_of_error hcall]
    exact .idle rfl rfl rfl
  | ok next =>
    rw [step_of_ok hcall]
    cases c with
    | initiate request txId timestamp =>
      obtain ⟨-, rfl⟩ := call_initiate_iff.mp hcall
      exact .initiated
    | confirmPegTransaction txId currentHeight =>
      obtain ⟨tx, htx, hheight, rfl⟩ := call_confirm_iff.mp hcall
      exact .confirmed htx hheight
    | completePegTransaction txId =>
      obtain ⟨tx, htx, hnext⟩ := bind_eq_ok.mp hcall
      cases hnext
      exact .completed (okOr_eq_ok.mp htx)
    | withFederationManager federationManager =>
      cases hcall
      exact .idle rfl rfl rfl
    | withMainchainUtxoSet utxoSet =>
      cases hcall
      exact .idle rfl rfl rfl

theorem Moves.requiredConfirmations_eq
    (h : Moves self c next) : next.requiredConfirmations = self.requiredConfirmations := by
  cases h with
  | idle _ _ hrequired => exact hrequired
  | initiated => rfl
  | confirmed => rfl
  | completed => rfl

section

variable {K S : Type} {crypto : ThresholdCrypto K S} {self next : TwoWayPegManager} {c : Call}

/-- No identifier is both pending and completed, and what is completed was confirmed. -/
structure Consistent (peg : TwoWayPegManager) : Prop where
  disjoint : ∀ txId, peg.pendingTransactions.lookup txId = none ∨
    peg.completedTransactions.lookup txId = none
  settled : ∀ txId tx, peg.completedTransactions.lookup txId = some tx →
    tx.status = .confirmed ∨ tx.status = .completed

/-- The identifier of a new peg transaction is not in use. -/
def Call.Fresh (self : TwoWayPegManager) : Call → Prop
  | .initiate _ txId _ => self.getPegTransaction txId = none
  | _ => True

@[simp] theorem Request.status_transaction (request : Request) (txId : Hash) (timestamp : UInt64) :
    (request.transaction txId timestamp).status = .pending := by
  cases request with
  | pegIn => rfl
  | pegOut => rfl

variable {txId : Hash} {tx : PegTransaction} {history : List Call}

theorem getPegTransaction_of_pending (h : self.pendingTransactions.lookup txId = some tx) :
    self.getPegTransaction txId = some tx := by
  rw [getPegTransaction, h, Option.some_or]

theorem Consistent.getPegTransaction_of_completed (h : self.Consistent)
    (htx : self.completedTransactions.lookup txId = some tx) :
    self.getPegTransaction txId = some tx := by
  have hpending : self.pendingTransactions.lookup txId = none := by
    apply (h.disjoint txId).resolve_right
    rw [htx]
    nofun
  rw [getPegTransaction, hpending, htx, Option.none_or]

/-- Where both maps agree, the peg transaction is the same. -/
theorem getPegTransaction_congr
    (hpending : next.pendingTransactions.lookup txId = self.pendingTransactions.lookup txId)
    (hcompleted : next.completedTransactions.lookup txId = self.completedTransactions.lookup txId) :
    next.getPegTransaction txId = self.getPegTransaction txId := by
  rw [getPegTransaction, hpending, hcompleted, getPegTransaction]

theorem Moves.consistent (h : Moves self c next) (hself : self.Consistent)
    (hfresh : c.Fresh self) : next.Consistent := by
  cases h with
  | idle hpending hcompleted _ =>
    constructor
    · rw [hpending, hcompleted]
      exact hself.disjoint
    · rw [hcompleted]
      exact hself.settled
  | @initiated request txId timestamp =>
    refine ⟨fun other => ?_, hself.settled⟩
    by_cases hother : other = txId
    · rw [hother]
      exact .inr (Option.or_eq_none_iff.mp hfresh).2
    · show (self.pendingTransactions.insert txId _).lookup other = none ∨ _
      rw [lookup_insert_ne hother]
      exact hself.disjoint other
  | @confirmed txId _ tx htx _ =>
    refine ⟨fun other => ?_, HashMap.forall_insert hself.settled (.inl rfl)⟩
    show (self.pendingTransactions.erase txId).lookup other = none ∨
      (self.completedTransactions.insert txId _).lookup other = none
    by_cases hother : other = txId
    · rw [hother, lookup_erase]
      exact .inl rfl
    · rw [lookup_erase_ne hother, lookup_insert_ne hother]
      exact hself.disjoint other
  | @completed txId tx htx =>
    refine ⟨fun other => ?_, HashMap.forall_insert hself.settled (.inr rfl)⟩
    show self.pendingTransactions.lookup other = none ∨
      (self.completedTransactions.insert txId _).lookup other = none
    by_cases hother : other = txId
    · rw [hother]
      apply Or.inl ((hself.disjoint txId).resolve_right _)
      rw [htx]
      nofun
    · rw [lookup_insert_ne hother]
      exact hself.disjoint other

/-- What the peg transaction of an identifier is after a call. -/
inductive Becomes (c : Call) (txId : Hash) (peg next : TwoWayPegManager) : Prop
  | same : next.getPegTransaction txId = peg.getPegTransaction txId → Becomes c txId peg next
  | initiated {tx : PegTransaction} : tx.status = .pending →
      peg.getPegTransaction txId = none → next.getPegTransaction txId = some tx →
      Becomes c txId peg next
  | confirmed {currentHeight : UInt64} {tx : PegTransaction} :
      c = .confirmPegTransaction txId currentHeight →
      tx.confirmHeight + peg.requiredConfirmations ≤ currentHeight →
      peg.pendingTransactions.lookup txId = some tx →
      next.getPegTransaction txId = some { tx with status := .confirmed } →
      Becomes c txId peg next
  | completed {tx : PegTransaction} : (tx.status = .confirmed ∨ tx.status = .completed) →
      peg.getPegTransaction txId = some tx →
      next.getPegTransaction txId = some { tx with status := .completed } →
      Becomes c txId peg next

theorem Moves.becomes (h : Moves self c next) (hself : self.Consistent) (hfresh : c.Fresh self)
    (txId : Hash) : Becomes c txId self next := by
  have hnext := h.consistent hself hfresh
  cases h with
  | idle hpending hcompleted _ =>
    exact .same (getPegTransaction_congr (by rw [hpending]) (by rw [hcompleted]))
  | @initiated request added timestamp =>
    by_cases hid : txId = added
    · subst hid
      refine .initiated (request.status_transaction txId timestamp) hfresh ?_
      exact getPegTransaction_of_pending (lookup_insert _)
    · exact .same (getPegTransaction_congr (lookup_insert_ne hid) rfl)
  | @confirmed moved currentHeight tx htx hheight =>
    by_cases hid : txId = moved
    · subst hid
      refine .confirmed rfl hheight htx ?_
      exact hnext.getPegTransaction_of_completed (lookup_insert _)
    · refine .same (getPegTransaction_congr ?_ ?_)
      · exact lookup_erase_ne hid
      · exact lookup_insert_ne hid
  | @completed moved tx htx =>
    by_cases hid : txId = moved
    · subst hid
      refine .completed (hself.settled txId tx htx) ?_ ?_
      · exact hself.getPegTransaction_of_completed htx
      · exact hnext.getPegTransaction_of_completed (lookup_insert _)
    · exact .same (getPegTransaction_congr rfl (lookup_insert_ne hid))

/-- Nothing is lost, and only the status changes. -/
theorem Becomes.kept (h : Becomes c txId self next) (htx : self.getPegTransaction txId = some tx) :
    ∃ status, next.getPegTransaction txId = some { tx with status := status } := by
  cases h with
  | same hsame =>
    rw [hsame, htx]
    exact ⟨tx.status, rfl⟩
  | initiated _ hnone _ =>
    rw [hnone] at htx
    cases htx
  | confirmed _ _ hbefore hafter =>
    rw [getPegTransaction_of_pending hbefore] at htx
    cases htx
    exact ⟨.confirmed, hafter⟩
  | completed _ hbefore hafter =>
    rw [hbefore] at htx
    cases htx
    exact ⟨.completed, hafter⟩

/-- A peg transaction that is confirmed or completed was confirmed by a call, at a height that is
great enough in unbounded numbers. -/
def Justified (history : List Call) (peg : TwoWayPegManager) : Prop :=
  ∀ txId tx, peg.getPegTransaction txId = some tx →
    tx.status = .confirmed ∨ tx.status = .completed →
    ∃ currentHeight, .confirmPegTransaction txId currentHeight ∈ history ∧
      tx.confirmHeight.toNat + peg.requiredConfirmations.toNat ≤ currentHeight.toNat

/-- If the height that is asked for wraps around, the call fails. -/
def Call.FailsOnWrap (c : Call) (peg : TwoWayPegManager) : Prop :=
  ∀ txId currentHeight tx, c = .confirmPegTransaction txId currentHeight →
    peg.pendingTransactions.lookup txId = some tx →
    2 ^ 64 ≤ tx.confirmHeight.toNat + peg.requiredConfirmations.toNat →
    currentHeight.toNat + 2 ^ 64 < tx.confirmHeight.toNat + peg.requiredConfirmations.toNat

/-- A confirmation for which the height has wrapped around is not justified. -/
theorem failsOnWrap_of_justified (hself : self.Consistent)
    (hfresh : c.Fresh self) (hnext : Justified history (self.step crypto c)) :
    c.FailsOnWrap self := by
  rintro txId currentHeight tx rfl htx hwraps
  by_contra hreached
  have hmoves := moves_step crypto self (.confirmPegTransaction txId currentHeight)
  have hcall : self.call crypto (.confirmPegTransaction txId currentHeight) =
      .ok (self.moveToCompleted txId tx) := by
    refine call_confirm_iff.mpr ⟨tx, htx, ?_, rfl⟩
    rw [UInt64.le_iff_toNat_le, UInt64.toNat_add]
    have hheight := tx.confirmHeight.toNat_lt
    have hblocks := self.requiredConfirmations.toNat_lt
    omega
  have hafter : (self.step crypto (.confirmPegTransaction txId currentHeight)).getPegTransaction
      txId = some { tx with status := .confirmed } := by
    apply (hmoves.consistent hself hfresh).getPegTransaction_of_completed
    rw [step_of_ok hcall]
    exact lookup_insert _
  obtain ⟨height, -, hheight⟩ := hnext txId _ hafter (.inl rfl)
  rw [hmoves.requiredConfirmations_eq] at hheight
  have hlt := height.toNat_lt
  change tx.confirmHeight.toNat + _ ≤ _ at hheight
  omega

/-- Every other call keeps what is confirmed justified. -/
theorem justified_step (hself : self.Consistent) (hfresh : c.Fresh self)
    (hjustified : Justified history self) (hwrap : c.FailsOnWrap self) :
    Justified (history ++ [c]) (self.step crypto c) := by
  intro txId tx htx hstatus
  have hmoves := moves_step crypto self c
  rw [hmoves.requiredConfirmations_eq]
  cases hmoves.becomes hself hfresh txId with
  | same hsame =>
    rw [hsame] at htx
    obtain ⟨height, hmem, hheight⟩ := hjustified txId tx htx hstatus
    exact ⟨height, mem_append_left _ hmem, hheight⟩
  | initiated hpending _ hafter =>
    rw [hafter] at htx
    cases htx
    rw [hpending] at hstatus
    cases hstatus with
    | inl h => cases h
    | inr h => cases h
  | @confirmed currentHeight before hc hreached hbefore hafter =>
    rw [hafter] at htx
    cases htx
    refine ⟨currentHeight, mem_append_right _ (mem_singleton.mpr hc.symm), ?_⟩
    have hexact := hwrap txId currentHeight before hc hbefore
    rw [UInt64.le_iff_toNat_le, UInt64.toNat_add] at hreached
    show before.confirmHeight.toNat + self.requiredConfirmations.toNat ≤ currentHeight.toNat
    have hheight := before.confirmHeight.toNat_lt
    have hblocks := self.requiredConfirmations.toNat_lt
    omega
  | completed hsettled hbefore hafter =>
    rw [hafter] at htx
    cases htx
    obtain ⟨height, hmem, hheight⟩ := hjustified txId _ hbefore hsettled
    exact ⟨height, mem_append_left _ hmem, hheight⟩

theorem justified_step_iff (hself : self.Consistent)
    (hfresh : c.Fresh self) (hjustified : Justified history self) :
    Justified (history ++ [c]) (self.step crypto c) ↔ c.FailsOnWrap self :=
  ⟨failsOnWrap_of_justified hself hfresh, justified_step hself hfresh hjustified⟩

/-- Over a run from an empty manager: no identifier is both pending and completed; an accepted
request is recorded; nothing is lost and only the status changes; and what is confirmed or
completed was confirmed in time. -/
structure Sound (crypto : ThresholdCrypto K S) (requiredConfirmations : UInt64)
    (calls : List Call) : Prop where
  disjoint : ∀ front, front <+: calls → ∀ txId,
    (run crypto (new requiredConfirmations) front).pendingTransactions.lookup txId = none ∨
      (run crypto (new requiredConfirmations) front).completedTransactions.lookup txId = none
  recorded : ∀ front request txId timestamp result,
    front ++ [.initiate request txId timestamp] <+: calls →
    (run crypto (new requiredConfirmations) front).initiate crypto request txId timestamp =
      .ok result →
    (run crypto (new requiredConfirmations)
      (front ++ [.initiate request txId timestamp])).getPegTransaction txId =
        some (request.transaction txId timestamp)
  kept : ∀ front more txId tx, front ++ more <+: calls →
    (run crypto (new requiredConfirmations) front).getPegTransaction txId = some tx →
    ∃ status, (run crypto (new requiredConfirmations) (front ++ more)).getPegTransaction txId =
      some { tx with status := status }
  justified : ∀ front, front <+: calls →
    Justified front (run crypto (new requiredConfirmations) front)

@[simp] theorem run_snoc (peg : TwoWayPegManager) (front : List Call) (c : Call) :
    run crypto peg (front ++ [c]) = (run crypto peg front).step crypto c :=
  foldl_snoc (step crypto) front c

section

variable {requiredConfirmations : UInt64} {calls : List Call}

theorem recorded_run (front : List Call) {request : Request} {txId : Hash} {timestamp : UInt64}
    {result : Hash × TwoWayPegManager}
    (hinitiate : (run crypto (new requiredConfirmations) front).initiate crypto request txId
      timestamp = .ok result) :
    (run crypto (new requiredConfirmations)
      (front ++ [.initiate request txId timestamp])).getPegTransaction txId =
        some (request.transaction txId timestamp) := by
  have hpasses := (initiate_eq_ok.mp hinitiate).1
  rw [run_snoc, step_of_ok (call_initiate_iff.mpr ⟨hpasses, rfl⟩)]
  exact getPegTransaction_of_pending (lookup_insert _)

variable
  (hfresh : ∀ front c, front ++ [c] <+: calls →
    c.Fresh (run crypto (new requiredConfirmations) front))

include hfresh

theorem consistent_run :
    ∀ front, front <+: calls → (run crypto (new requiredConfirmations) front).Consistent := by
  refine induction ⟨fun _ => .inl rfl, nofun⟩ fun front c hfront ih => ?_
  rw [run_snoc]
  exact (moves_step crypto _ c).consistent ih (hfresh front c hfront)

theorem kept_run (front : List Call) {txId : Hash} {tx : PegTransaction}
    (htx : (run crypto (new requiredConfirmations) front).getPegTransaction txId = some tx)
    (more : List Call) (hwithin : front ++ more <+: calls) :
    ∃ status, (run crypto (new requiredConfirmations) (front ++ more)).getPegTransaction txId =
      some { tx with status := status } := by
  induction more using List.reverseRecOn with
  | nil =>
    rw [append_nil]
    exact ⟨tx.status, htx⟩
  | append_singleton more c ih =>
    rw [← append_assoc] at hwithin ⊢
    have hbefore := (prefix_append (front ++ more) [c]).trans hwithin
    obtain ⟨status, hstatus⟩ := ih hbefore
    have hbecomes := (moves_step crypto _ c).becomes (consistent_run hfresh _ hbefore)
      (hfresh _ c hwithin) txId
    obtain ⟨status', hstatus'⟩ := hbecomes.kept hstatus
    rw [run_snoc]
    exact ⟨status', hstatus'⟩

/-- The runs with fresh identifiers are sound exactly if every confirmation whose height wraps
around fails. -/
theorem pegs_sound_iff :
    Sound crypto requiredConfirmations calls ↔
      ∀ front c, front ++ [c] <+: calls →
        c.FailsOnWrap (run crypto (new requiredConfirmations) front) := by
  have hjustified := always_iff
    (fun front => Justified front (run crypto (new requiredConfirmations) front))
    (fun front c => c.FailsOnWrap (run crypto (new requiredConfirmations) front)) (l := calls)
    nofun ?_
  · rw [← hjustified]
    constructor
    · exact Sound.justified
    · intro hall
      refine ⟨fun front hfront => (consistent_run hfresh front hfront).disjoint, ?_, ?_, hall⟩
      · intro front request txId timestamp result _ hinitiate
        exact recorded_run front hinitiate
      · intro front more txId tx hfront htx
        exact kept_run hfresh front htx more hfront
  · intro front c hfront hbefore
    have hconsistent :=
      consistent_run hfresh front ((prefix_append front [c]).trans hfront)
    rw [run_snoc]
    exact justified_step_iff hconsistent (hfresh front c hfront) hbefore

end

def idOne : Hash := .replicate 32 1

/-- A burn on a sidechain at some height, with a signature. -/
def burnAt (sidechainConfirmHeight : UInt64) : PegOutRequest where
  sidechainTxHash := .replicate 32 7
  amount := 1000
  mainchainRecipient := [1, 2, 3]
  sidechainId := .replicate 32 1
  sidechainConfirmHeight := sidechainConfirmHeight
  merkleProof := []
  federationSignatures := [onesSignature [0x80] 1 1]

/-- A peg-out that is confirmed after six blocks and completed. -/
def burnAndUnlock : List Call :=
  [.initiate (.pegOut (burnAt 100)) idOne 0, .confirmPegTransaction idOne 106,
    .completePegTransaction idOne]

theorem pegs_sound_burnAndUnlock : Sound headCrypto 6 burnAndUnlock := by
  apply (pegs_sound_iff ?_).mpr
  · rw [burnAndUnlock, forall_snoc_cons, forall_snoc_cons, forall_snoc_cons]
    refine ⟨nofun, ?_, nofun, forall_snoc_nil⟩
    rintro txId currentHeight tx ⟨⟩ ⟨⟩ hwraps
    exact absurd hwraps (by decide)
  · rw [burnAndUnlock, forall_snoc_cons, forall_snoc_cons, forall_snoc_cons]
    exact ⟨rfl, trivial, trivial, forall_snoc_nil⟩

/-- With the last height of all, the sum wraps around to five. -/
theorem early_confirmation_not_sound :
    (run headCrypto (new 6) [.initiate (.pegOut (burnAt 18446744073709551615)) idOne 0,
        .confirmPegTransaction idOne 5]).getPegTransaction idOne =
      some { (burnAt 18446744073709551615).transaction idOne 0 with status := .confirmed } ∧
    ¬ Sound headCrypto 6 [.initiate (.pegOut (burnAt 18446744073709551615)) idOne 0,
        .confirmPegTransaction idOne 5] := by
  have hconfirmed : (run headCrypto (new 6)
      [.initiate (.pegOut (burnAt 18446744073709551615)) idOne 0,
        .confirmPegTransaction idOne 5]).getPegTransaction idOne =
      some { (burnAt 18446744073709551615).transaction idOne 0 with status := .confirmed } := rfl
  refine ⟨hconfirmed, fun hsound => ?_⟩
  obtain ⟨currentHeight, -, hreached⟩ :=
    hsound.justified _ (prefix_refl _) idOne _ hconfirmed (.inl rfl)
  have hlt := currentHeight.toNat_lt
  change 18446744073709551615 + 6 ≤ currentHeight.toNat at hreached
  omega

end

end

variable {K S : Type} (crypto : ThresholdCrypto K S)

/-- The transaction that locks or burns the coins. -/
structure Backing where
  txType : PegTransactionType
  sidechainId : Hash
  txHash : Hash
  deriving DecidableEq

/-- What a request asks for. -/
structure Peg where
  backing : Backing
  amount : UInt64
  recipient : Bytes

def Request.peg : Request → Peg
  | .pegIn request =>
    ⟨⟨.pegIn, request.sidechainId, request.mainchainTxHash⟩, request.amount,
      request.sidechainRecipient⟩
  | .pegOut request =>
    ⟨⟨.pegOut, request.sidechainId, request.sidechainTxHash⟩, request.amount,
      request.mainchainRecipient⟩

variable (self : TwoWayPegManager)

/-- The peg for which a call makes a peg transaction. -/
def createdBy : Call → List Peg
  | .initiate request txId timestamp =>
    match self.initiate crypto request txId timestamp with
    | .ok _ => [request.peg]
    | .error _ => []
  | _ => []

/-- The pegs of a run for which a peg transaction was made. -/
def created : TwoWayPegManager → List Call → List Peg
  | _, [] => []
  | self, c :: calls => self.createdBy crypto c ++ created (self.step crypto c) calls

/-- The message over which the signatures for a peg are checked, if they are. -/
def checkedMessage (_peg : Peg) : Option Hash :=
  self.federationManager.map fun _ => messageHash

/-- Whatever is accepted on signatures over the same message has the same contents. -/
def MessageBinds (peg : Peg) : Prop :=
  ∀ request txId timestamp result, self.initiate crypto request txId timestamp = .ok result →
    self.checkedMessage request.peg = self.checkedMessage peg →
    request.peg.amount = peg.amount ∧ request.peg.recipient = peg.recipient ∧
      request.peg.backing.txHash = peg.backing.txHash

/-- At most one peg transaction is made for a lock or a burn. -/
def BackedOnce (calls : List Call) : Prop :=
  ((created crypto self calls).map Peg.backing).Nodup

/-- The message that is checked for a peg transaction determines its contents. -/
def Bound (calls : List Call) : Prop :=
  ∀ front request txId timestamp result,
    front ++ [.initiate request txId timestamp] <+: calls →
    (run crypto self front).initiate crypto request txId timestamp = .ok result →
    MessageBinds crypto (run crypto self front) request.peg

def Call.Passes : Call → Prop
  | .initiate request _ _ => request.Passes crypto self
  | _ => False

/-- No request of the run passes. -/
def NonePass (calls : List Call) : Prop :=
  ∀ front c, front ++ [c] <+: calls → ¬ c.Passes crypto (run crypto self front)

variable {crypto} {manager : TwoWayPegManager} {request : Request}

/-- The same request for one unit more. -/
def Request.raised : Request → Request
  | .pegIn request => .pegIn { request with amount := request.amount + 1 }
  | .pegOut request => .pegOut { request with amount := request.amount + 1 }

/-- The signatures do not depend on the amount. -/
theorem Request.Passes.raised (h : request.Passes crypto manager) :
    request.raised.Passes crypto manager := by
  cases request with
  | pegIn => exact h
  | pegOut => exact h

@[simp] theorem Request.amount_raised (request : Request) :
    request.raised.peg.amount = request.peg.amount + 1 := by
  cases request with
  | pegIn => rfl
  | pegOut => rfl

/-- What is accepted is not bound by the message. -/
theorem not_messageBinds (hpasses : request.Passes crypto manager) :
    ¬ MessageBinds crypto manager request.peg := by
  intro hbinds
  obtain ⟨hamount, -⟩ :=
    hbinds request.raised idOne 0 _ (initiate_of_passes hpasses.raised idOne 0) rfl
  rw [Request.amount_raised] at hamount
  exact add_one_ne request.peg.amount hamount

theorem createdBy_of_passes (hpasses : request.Passes crypto manager) (txId : Hash)
    (timestamp : UInt64) :
    manager.createdBy crypto (.initiate request txId timestamp) = [request.peg] := by
  rw [createdBy, initiate_of_passes hpasses]

variable {c : Call} {calls : List Call}

theorem createdBy_eq_nil (h : ¬ c.Passes crypto manager) : manager.createdBy crypto c = [] := by
  cases c with
  | initiate request txId timestamp =>
    rw [createdBy]
    cases hresult : manager.initiate crypto request txId timestamp with
    | ok result => exact absurd (initiate_eq_ok.mp hresult).1 h
    | error => rfl
  | confirmPegTransaction => rfl
  | completePegTransaction => rfl
  | withFederationManager => rfl
  | withMainchainUtxoSet => rfl

/-- A request that has passed passes again. -/
theorem created_twice (hpasses : request.Passes crypto manager) (txId : Hash) (timestamp : UInt64) :
    created crypto manager
        [.initiate request txId timestamp, .initiate request txId timestamp] =
      [request.peg, request.peg] := by
  have hagain : request.Passes crypto
      (manager.insertPending txId (request.transaction txId timestamp)) := by
    cases request with
    | pegIn => exact hpasses
    | pegOut => exact hpasses
  rw [created, created, createdBy_of_passes hpasses,
    step_of_ok (call_initiate_iff.mpr ⟨hpasses, rfl⟩), createdBy_of_passes hagain]
  rfl

theorem created_append (front more : List Call) :
    created crypto manager (front ++ more) =
      created crypto manager front ++ created crypto (run crypto manager front) more := by
  induction front generalizing manager with
  | nil => rfl
  | cons c front ih =>
    rw [cons_append, created, created, ih, append_assoc]
    rfl

theorem created_eq_nil (h : NonePass crypto manager calls) : created crypto manager calls = [] := by
  induction calls generalizing manager with
  | nil => rfl
  | cons c calls ih =>
    obtain ⟨hhead, hrest⟩ := Prefixes.forall_snoc_cons.mp h
    rw [created, ih hrest, append_nil]
    exact createdBy_eq_nil hhead

theorem backedOnce_iff :
    (∀ calls, BackedOnce crypto manager calls) ↔ ∀ calls, NonePass crypto manager calls := by
  constructor
  · intro hbacked calls front c hfront hpasses
    cases c with
    | initiate request txId timestamp =>
      have htwice := hbacked (front ++
        [.initiate request txId timestamp, .initiate request txId timestamp])
      rw [BackedOnce, created_append, created_twice hpasses, map_append, nodup_append] at htwice
      exact absurd htwice.2.1 (by simp)
    | confirmPegTransaction | completePegTransaction | withFederationManager
    | withMainchainUtxoSet => exact hpasses
  · intro hnone calls
    rw [BackedOnce, created_eq_nil (hnone calls)]
    exact nodup_nil

theorem bound_iff (calls : List Call) :
    Bound crypto manager calls ↔ NonePass crypto manager calls := by
  constructor
  · intro hbound front c hfront hpasses
    cases c with
    | initiate request txId timestamp =>
      have haccepted := initiate_of_passes hpasses txId timestamp
      exact not_messageBinds hpasses (hbound front request txId timestamp _ hfront haccepted)
    | confirmPegTransaction | completePegTransaction | withFederationManager
    | withMainchainUtxoSet => exact hpasses
  · intro hnone front request txId timestamp result hfront haccepted
    exact absurd (initiate_eq_ok.mp haccepted).1 (hnone front _ hfront)

/-- Every lock or burn backs at most one peg transaction in every run, exactly if no request
passes in any; and in a run the messages bind exactly if no request of it passes. -/
theorem pegs_backed_iff (crypto : ThresholdCrypto K S) (manager : TwoWayPegManager) :
    ((∀ calls, BackedOnce crypto manager calls) ↔ ∀ calls, NonePass crypto manager calls) ∧
      ∀ calls, Bound crypto manager calls ↔ NonePass crypto manager calls :=
  ⟨backedOnce_iff, bound_iff⟩

/-- A manager with the federation of one member. -/
def oneMemberPeg : TwoWayPegManager :=
  ((new 6).withFederationManager
    ⟨AList.insert FederationManager.sidechainOne .oneMember ∅⟩).withMainchainUtxoSet
      RustyCoin.UtxoSet.new

/-- A lock, signed by the member, for some amount. -/
def lockFor (amount : UInt64) : PegInRequest where
  mainchainTxHash := .replicate 32 9
  amount := amount
  sidechainRecipient := [1, 2, 3]
  sidechainId := FederationManager.sidechainOne
  mainchainConfirmHeight := 100
  merkleProof := []
  federationSignatures := [onesSignature [0x80] 1 1]

def idTwo : Hash := .replicate 32 2

/-- One lock and one signature pay for two peg transactions, of different amounts. -/
theorem lock_pays_twice :
    ¬ BackedOnce headCrypto oneMemberPeg
        [.initiate (.pegIn (lockFor 5)) idOne 0, .initiate (.pegIn (lockFor 7)) idTwo 0] ∧
      ¬ Bound headCrypto oneMemberPeg
        [.initiate (.pegIn (lockFor 5)) idOne 0, .initiate (.pegIn (lockFor 7)) idTwo 0] := by
  constructor
  · rw [BackedOnce]
    decide
  · intro hbound
    have hfirst := hbound [] (.pegIn (lockFor 5)) idOne 0 _ (prefix_append [_] [_]) rfl
    obtain ⟨hamount, -⟩ := hfirst (.pegIn (lockFor 7)) idTwo 0 _ rfl rfl
    exact absurd hamount (by decide)

end RustyCoin.Sidechain.TwoWayPegManager
