import RustyCoin.Consensus.AddBlock
import RustyCoin.Consensus.BlockEffects

/-!
# Applying a checked block

Once `add_block` has checked a block, registrations can still be turned down and
the state root can still be wrong. The first registration decides what happens
to the list of masternodes; a malformed purchase cuts the update of the tickets
short without an error.
-/

namespace RustyCoin.Blockchain

open HashMap Stateful List

open Outcome LiveTicketsPool

variable {F : Type} {env : Platform}

section

variable {height : UInt64} {transactions : List Transaction} {chain : Blockchain F}
  {mnId : MasternodeID}

theorem keeps_updateMasternodeList {τ : Type} {view : Blockchain F → τ}
    (hview : ∀ list chain, view { chain with masternodeList := list } = view chain)
    (height : UInt64) (tx : Transaction) :
    Stateful.Keeps view (updateMasternodeList height tx) := by
  cases tx with
  | masternodeRegister =>
    exact (keeps_read _).bind fun _ => keeps_modify fun _ => hview _ _
  | masternodeSlashTx => exact keeps_modify fun _ => hview _ _
  | _ => exact keeps_pure ()

theorem updateMasternodeList_of_none {tx : Transaction} (hslash : tx.isMasternodeSlash = false)
    (hnone : tx.registeredMasternode? = none) : updateMasternodeList height tx =
      (pure () : Stateful ConsensusError (Blockchain F) Unit) := by
  cases tx with
  | masternodeRegister => cases hnone
  | masternodeSlashTx => cases hslash
  | _ => rfl

variable (height chain) in
/-- A registration is an error if the masternode is listed, and lists it
otherwise. -/
theorem updateMasternodeList_of_some {tx : Transaction}
    (hregister : tx.registeredMasternode? = some mnId) :
    (∀ entry, chain.masternodeList.map.lookup mnId = some entry →
      ∃ e, (updateMasternodeList height tx).run chain = (.error (.err e), chain)) ∧
    (chain.masternodeList.map.lookup mnId = none →
      ∃ entry, (updateMasternodeList height tx).run chain =
        (.ok (),
          { chain with masternodeList := ⟨chain.masternodeList.map.insert mnId entry⟩ })) := by
  cases tx with
  | masternodeRegister identity =>
    cases hregister
    constructor
    · intro entry hlisted
      have hknown : (chain.masternodeList.map.lookup
          (convertedIdentity identity).collateralOutpoint).isSome :=
        Option.isSome_of_eq_some hlisted
      rw [updateMasternodeList, run_read_bind, MasternodeList.registerMasternode, if_pos hknown]
      exact ⟨_, rfl⟩
    · intro hfresh
      have hnot : ¬ (chain.masternodeList.map.lookup
          (convertedIdentity identity).collateralOutpoint).isSome :=
        Option.not_isSome_iff_eq_none.mpr hfresh
      rw [updateMasternodeList, run_read_bind, MasternodeList.registerMasternode, if_neg hnot]
      exact ⟨_, rfl⟩
  | _ => cases hregister

variable (hslash : ∀ tx ∈ transactions, tx.isMasternodeSlash = false)
include hslash

theorem masternodeLoop_of_none
    (hnone : transactions.filterMap Transaction.registeredMasternode? = []) :
    (forM transactions (updateMasternodeList height)).run chain = (.ok (), chain) := by
  refine run_forM_idle fun tx hmem => ?_
  rw [updateMasternodeList_of_none (hslash tx hmem) (filterMap_eq_nil_iff.mp hnone tx hmem)]
  rfl

variable (hfirst : (transactions.filterMap Transaction.registeredMasternode?).head? = some mnId)

include hfirst

variable (F height) in
/-- Up to the first registration the loop does nothing. -/
theorem masternodeLoop_of_head :
    ∃ (tx : Transaction) (rest : List Transaction), tx.registeredMasternode? = some mnId ∧
      (∀ tx ∈ rest, tx.isMasternodeSlash = false) ∧
      forM transactions (updateMasternodeList (F := F) height) =
        (do updateMasternodeList height tx; forM rest (updateMasternodeList height)) := by
  induction transactions with
  | nil => cases hfirst
  | cons tx rest ih =>
    rw [forall_mem_cons] at hslash
    cases htx : tx.registeredMasternode? with
    | none =>
      rw [filterMap_cons_none htx] at hfirst
      rw [forM_cons, updateMasternodeList_of_none hslash.1 htx, pure_bind]
      exact ih hslash.2 hfirst
    | some first =>
      rw [filterMap_cons_some htx] at hfirst
      cases hfirst
      exact ⟨tx, rest, htx, hslash.2, rfl⟩

variable (height chain) in
/-- The first registration decides whether the list changes. -/
theorem masternodeLoop_of_listed {entry : MasternodeEntry}
    (hlisted : chain.masternodeList.map.lookup mnId = some entry) :
    ∃ e, (forM transactions (updateMasternodeList height)).run chain =
      (.error (.err e), chain) := by
  obtain ⟨tx, rest, htx, -, hloop⟩ := masternodeLoop_of_head F height hslash hfirst
  obtain ⟨e, herror⟩ := (updateMasternodeList_of_some height chain htx).1 entry hlisted
  exact ⟨e, by rw [hloop, run_bind_of_error herror]⟩

omit hfirst in
/-- A masternode that is listed stays listed while others register. -/
theorem masternodeLoop_keeps_listed (hlisted : (chain.masternodeList.map.lookup mnId).isSome) :
    (((forM transactions (updateMasternodeList height)).run
      chain).2.masternodeList.map.lookup mnId).isSome := by
  induction transactions generalizing chain with
  | nil => exact hlisted
  | cons tx rest ih =>
    rw [forall_mem_cons] at hslash
    rw [forM_cons]
    cases htx : tx.registeredMasternode? with
    | none =>
      rw [updateMasternodeList_of_none hslash.1 htx, pure_bind]
      exact ih hslash.2 hlisted
    | some registered =>
      obtain ⟨hknown, hnew⟩ := updateMasternodeList_of_some height chain htx
      cases hlookup : chain.masternodeList.map.lookup registered with
      | some entry =>
        obtain ⟨e, herror⟩ := hknown entry hlookup
        rw [run_bind_of_error herror]
        exact hlisted
      | none =>
        obtain ⟨entry, hok⟩ := hnew hlookup
        rw [run_bind_of_ok hok]
        refine ih hslash.2 ?_
        have hne : mnId ≠ registered := by
          rintro rfl
          rw [hlookup] at hlisted
          cases hlisted
        rw [AList.lookup_insert_ne hne]
        exact hlisted

variable (height chain) in
theorem masternodeLoop_of_fresh
    (hfresh : chain.masternodeList.map.lookup mnId = none) :
    (((forM transactions (updateMasternodeList height)).run
      chain).2.masternodeList.map.lookup mnId).isSome := by
  obtain ⟨tx, rest, htx, hrest, hloop⟩ := masternodeLoop_of_head F height hslash hfirst
  obtain ⟨entry, hok⟩ := (updateMasternodeList_of_some height chain htx).2 hfresh
  rw [hloop, run_bind_of_ok hok]
  refine masternodeLoop_keeps_listed hrest ?_
  rw [AList.lookup_insert]
  rfl

end

variable {height : UInt64} {transactions : List Transaction} {pool : LiveTicketsPool}

variable (env) in
/-- What the pool makes of a purchase. -/
def purchaseOf (height : UInt64) : Transaction → Option (ConsensusResult Ticket)
  | .ticketPurchase _ _ outputs _ _ _ _ ticketAddress _ =>
    some (purchasedTicket env height outputs ticketAddress)
  | _ => none

variable (env) in
/-- The tickets that enter the pool: those of the purchases before the first one
that is malformed. -/
def addedTickets (height : UInt64) : List Transaction → List (TicketId × Ticket)
  | [] => []
  | tx :: rest =>
    match purchaseOf env height tx with
    | none => addedTickets height rest
    | some (.ok ticket) => (ticket.id, ticket) :: addedTickets height rest
    | some (.error _) => []

variable (env) in
def purchasesReadable (height : UInt64) (transactions : List Transaction) : Bool :=
  transactions.all fun tx => (purchaseOf env height tx).all Except.isOk

/-- Without a malformed purchase, pending tickets become live as well. -/
def settleTicket (readable : Bool) (height : UInt64) (ticket : Ticket) : Ticket :=
  if readable then finalize height ticket else ticket

variable {tx : Transaction}

theorem addPurchase_of_none (hnone : purchaseOf env height tx = none) :
    addPurchase env height tx = pure () := by
  cases tx with
  | ticketPurchase => cases hnone
  | _ => rfl

theorem addPurchase_of_ok {ticket : Ticket}
    (hpurchase : purchaseOf env height tx = some (.ok ticket)) (pool : LiveTicketsPool) :
    (addPurchase env height tx).run pool = (.ok (), pool.addTicket ticket) := by
  cases tx with
  | ticketPurchase =>
    rw [addPurchase, run_read_bind, Option.some.inj hpurchase]
    rfl
  | _ => cases hpurchase

theorem addPurchase_of_error {failure : Failure ConsensusError}
    (hpurchase : purchaseOf env height tx = some (.error failure)) (pool : LiveTicketsPool) :
    (addPurchase env height tx).run pool = (.error failure, pool) := by
  cases tx with
  | ticketPurchase => rw [addPurchase, run_read_bind, Option.some.inj hpurchase]
  | _ => cases hpurchase

variable (env height) in
theorem purchaseLoop_run (transactions : List Transaction) (pool : LiveTicketsPool) :
    ((forM transactions (addPurchase env height)).run pool).2 =
        ⟨pool.tickets.insertAll (addedTickets env height transactions)⟩ ∧
      (((forM transactions (addPurchase env height)).run pool).1 = .ok () ↔
        purchasesReadable env height transactions = true) := by
  induction transactions generalizing pool with
  | nil => exact ⟨rfl, by simp [purchasesReadable]⟩
  | cons tx rest ih =>
    rw [forM_cons, addedTickets, purchasesReadable, all_cons]
    cases hpurchase : purchaseOf env height tx with
    | none =>
      rw [addPurchase_of_none hpurchase, pure_bind]
      exact ih pool
    | some result =>
      cases result with
      | error failure =>
        rw [run_bind_of_error (addPurchase_of_error hpurchase pool)]
        exact ⟨rfl, by simp [Except.isOk, Except.toBool]⟩
      | ok ticket =>
        rw [run_bind_of_ok (addPurchase_of_ok hpurchase pool)]
        exact ih (pool.addTicket ticket)

/-- What becomes of the ticket under an id, whether or not a purchase is
malformed. -/
theorem getTicket_updateForNewBlock (block : Block) (used : List TicketId)
    (pool : LiveTicketsPool) (ticketId : TicketId) :
    ((updateForNewBlock env block used).run pool).2.getTicket ticketId =
      ((lastAt ticketId (addedTickets env block.header.height block.transactions)).or
        (if ticketId ∈ used then none else pool.getTicket ticketId)).map
          (settleTicket (purchasesReadable env block.header.height block.transactions)
            block.header.height) := by
  have hloop := purchaseLoop_run env block.header.height block.transactions
    (pool.removeTickets used)
  have hlookup : AList.lookup ticketId ((pool.removeTickets used).tickets.insertAll
        (addedTickets env block.header.height block.transactions)) =
      (lastAt ticketId (addedTickets env block.header.height block.transactions)).or
        (if ticketId ∈ used then none else pool.getTicket ticketId) := by
    rw [lookup_insertAll, removeTickets, lookup_eraseAll]
    rfl
  rw [updateForNewBlock, run_bind_of_ok (run_modify _)]
  rcases hrun : (forM block.transactions (addPurchase env block.header.height)).run
    (pool.removeTickets used) with ⟨failure | u, added⟩
  · rw [hrun] at hloop
    obtain ⟨rfl, hreadable⟩ := hloop
    rw [run_bind_of_error hrun, Bool.eq_false_iff.mpr fun h => nomatch hreadable.mpr h]
    change AList.lookup ticketId _ = Option.map id _
    rw [hlookup, Option.map_id]
    rfl
  · rw [hrun] at hloop
    obtain ⟨rfl, hreadable⟩ := hloop
    rw [run_bind_of_ok hrun, hreadable.mp rfl]
    change (HashMap.mapValues (finalize block.header.height) _).lookup ticketId = _
    rw [lookup_mapValues, hlookup]
    rfl

variable {Digest : Type} [DecidableEq Digest] {roots : StateRoots Digest} {block : Block}
  {chain chain' : Blockchain F} {e : ConsensusError}

/-- What the updates of the masternodes and of the tickets leave alone. -/
def untouched (chain : Blockchain F) : UtxoSet × BlockchainState × ActiveProposals × Mempool :=
  (chain.utxoSet, chain.state, chain.activeProposals, chain.mempool)

theorem keeps_untouched_masternodes (height : UInt64) (transactions : List Transaction) :
    Stateful.Keeps (untouched (F := F)) (forM transactions (updateMasternodeList height)) :=
  keeps_forM (keeps_updateMasternodeList (fun _ _ => rfl) height)

theorem updateTickets_run (block : Block) (chain : Blockchain F) :
    ((updateTickets env block).run chain).2 =
      { chain with
        liveTickets := ((updateForNewBlock env block
          chain.utxoSet.getUsedInputsAsTicketIds).run chain.liveTickets).2 } := by
  rw [updateTickets, run_read_bind]
  rfl

variable (hrun : (applyChecked env roots block).run chain = (.error (.err e), chain'))

include hrun

/-- An error after the block has been applied comes from a registration or from
the state root. -/
theorem applyChecked_error :
    ((forM block.transactions (updateMasternodeList block.header.height)).run
        (applyTransactions env block chain) = (.error (.err e), chain')) ∨
      ∃ listed, (forM block.transactions (updateMasternodeList block.header.height)).run
          (applyTransactions env block chain) = (.ok (), listed) ∧
        chain' = ((updateTickets env block).run listed).2 ∧
        validateStateRoot roots block.header chain' = .error (.err e) := by
  rw [applyChecked, run_bind_of_ok (run_modify _)] at hrun
  rcases hmasternodes : (forM block.transactions (updateMasternodeList block.header.height)).run
    (applyTransactions env block chain) with ⟨failure | u, listed⟩
  · rw [run_bind_of_error hmasternodes] at hrun
    exact .inl hrun
  · right
    refine ⟨listed, rfl, ?_⟩
    rw [run_bind_of_ok hmasternodes] at hrun
    rw [← run_ignoring_snd]
    rcases htickets : (updateTickets env block).ignoring.run listed with
      ⟨failure | u, ticketed⟩
    · rw [run_bind_of_error htickets] at hrun
      have hresult := congrArg Prod.fst htickets
      rw [congrArg Prod.fst hrun] at hresult
      exact absurd hresult (run_ignoring_ne_err _ _ e)
    · rw [run_bind_of_ok htickets, run_read_bind] at hrun
      cases hroot : validateStateRoot roots block.header ticketed with
      | error failure =>
        rw [hroot] at hrun
        cases hrun
        exact ⟨rfl, hroot⟩
      | ok u =>
        rw [hroot] at hrun
        cases hrun

theorem untouched_of_applyChecked_error :
    chain'.untouched = (applyTransactions env block chain).untouched := by
  have hkept := keeps_untouched_masternodes (F := F) block.header.height block.transactions
  rcases applyChecked_error hrun with herror | ⟨listed, hlisted, rfl, -⟩
  · exact hkept.eq herror
  · have hsame := hkept.eq hlisted
    rw [updateTickets_run]
    exact hsame

theorem masternodeList_of_applyChecked_error :
    chain'.masternodeList =
      ((forM block.transactions (updateMasternodeList block.header.height)).run
        (applyTransactions env block chain)).2.masternodeList := by
  rcases applyChecked_error hrun with herror | ⟨listed, hlisted, rfl, -⟩
  · rw [herror]
  · rw [hlisted, updateTickets_run]

end RustyCoin.Blockchain
