import Mathlib.Data.List.Sort
import RustyCoin.Consensus.Error
import RustyCoin.Lib.Stateful
import RustyCoin.Types.Platform

/-!
# The pool of live tickets

Tickets enter the pool when they are bought, under the hash of the buyer's key,
and become live one block later. The live ones take part in the lottery that
selects the voters of a block.
-/

namespace RustyCoin

def posFinalityDepth : UInt64 := 1

structure LiveTicketsPool where
  tickets : HashMap TicketId Ticket

namespace LiveTicketsPool

open Outcome

def new : LiveTicketsPool := ⟨∅⟩

variable (self : LiveTicketsPool)

def addTicket (ticket : Ticket) : LiveTicketsPool :=
  ⟨self.tickets.insert ticket.id ticket⟩

def getTicket (ticketId : TicketId) : Option Ticket :=
  self.tickets.lookup ticketId

/-- The first ticket of an iteration with this key. -/
def getTicketByPubkey (pubkey : Bytes) : Option Ticket :=
  (self.tickets.toPairs.map Prod.snd).find? fun ticket => ticket.pubkey = pubkey

def removeTicket (ticketId : TicketId) :
    ConsensusResult (Ticket × LiveTicketsPool) := do
  let ticket ← okOr (self.tickets.lookup ticketId)
    (.invalidTicket "Ticket not found in live pool.")
  return (ticket, ⟨self.tickets.erase ticketId⟩)

def countLiveTickets : Nat :=
  self.tickets.len

/-- Pending tickets become live when they have reached the finality depth. -/
def finalize (currentHeight : UInt64) (ticket : Ticket) : Ticket :=
  if ticket.status = .pending ∧ currentHeight ≥ ticket.height + posFinalityDepth then
    { ticket with status := .live }
  else ticket

def processTicketFinality (currentHeight : UInt64) : LiveTicketsPool :=
  ⟨self.tickets.mapValues (finalize currentHeight)⟩

def removeTickets (ticketIds : List TicketId) : LiveTicketsPool :=
  ⟨self.tickets.eraseAll ticketIds⟩

variable (env : Platform)

/-- The ticket of a purchase. Its id is the hash of the key in the ticket
address, whatever id the transaction names. -/
def purchasedTicket (height : UInt64) (outputs : List TxOutput) (ticketAddress : Bytes) :
    ConsensusResult Ticket :=
  match outputs with
  | [] => fail (.invalidTicket "Ticket purchase transaction has no output for ticket.")
  | ticketOutput :: _ =>
    if ticketAddress.length ≠ 32 then
      fail (.invalidTicket "Invalid public key length in ticket address.")
    else
      .ok
        { id := env.blake3 ticketAddress
          pubkey := ticketAddress
          height := height
          value := ticketOutput.value
          status := .pending }

/-- What a transaction of a block adds to the pool. -/
def addPurchase (height : UInt64) : Transaction → Stateful ConsensusError LiveTicketsPool Unit
  | .ticketPurchase _ _ outputs _ _ _ _ ticketAddress _ => do
    let ticket ← Stateful.read fun _ => purchasedTicket env height outputs ticketAddress
    Stateful.modify fun pool => pool.addTicket ticket
  | _ => pure ()

def updateForNewBlock (block : Block) (usedTicketIds : List TicketId) :
    Stateful ConsensusError LiveTicketsPool Unit := do
  Stateful.modify fun pool => pool.removeTickets usedTicketIds
  forM block.transactions (addPurchase env block.header.height)
  Stateful.modify fun pool => pool.processTicketFinality block.header.height

/-- Only the purchases are taken back, under the ids that the transactions name.
The ids of the used inputs are not looked at. -/
def updateForRevertBlock (self : LiveTicketsPool) (block : Block)
    (_usedTicketIds : List TicketId) : LiveTicketsPool :=
  block.transactions.foldl
    (fun pool tx =>
      match tx with
      | .ticketPurchase _ _ _ ticketId _ _ _ _ _ => ⟨pool.tickets.erase ticketId⟩
      | _ => pool)
    self

/-- The only check of a proof: is the masternode listed? -/
def validateNonParticipationProof (_self : LiveTicketsPool)
    (proof : MasternodeNonParticipationProof) (masternodeList : MasternodeList) :
    ConsensusResult Unit :=
  if (masternodeList.getMasternode proof.masternodeId).isNone then
    fail (.masternodeError "Masternode not found for non-participation proof.")
  else .ok ()

def validateMaliciousProof (_self : LiveTicketsPool) (proof : MasternodeMaliciousProof)
    (masternodeList : MasternodeList) : ConsensusResult Unit :=
  if (masternodeList.getMasternode proof.masternodeId).isNone then
    fail (.masternodeError "Masternode not found for malicious proof.")
  else .ok ()

end LiveTicketsPool

variable (env : Platform)

/-- At most this many tickets are selected for a block. -/
def votersPerBlock : Nat := 5

/-- The score of a ticket in the lottery of a block: the first eight bytes of a
hash. -/
def lotteryScore (prevBlockHash : Hash) (ticketId : TicketId) : Nat :=
  leValue ((env.blake3 (prevBlockHash.toList ++ ticketId.toList)).toList.take 8)

/-- The order of the lottery: by score, then by ticket id. -/
def scoreLE (a b : Nat × TicketId) : Prop :=
  a.1 < b.1 ∨ a.1 = b.1 ∧ a.2.toList ≤ b.2.toList

instance : DecidableRel scoreLE := fun a b =>
  inferInstanceAs (Decidable (a.1 < b.1 ∨ a.1 = b.1 ∧ a.2.toList ≤ b.2.toList))

/-- The live tickets with the highest scores. -/
def selectVoters (prevBlockHash : Hash) (liveTicketsPool : LiveTicketsPool) : List TicketId :=
  let scored := liveTicketsPool.tickets.toPairs.filterMap fun (ticketId, ticket) =>
    if ticket.status = .live then some (lotteryScore env prevBlockHash ticketId, ticketId)
    else none
  ((scored.insertionSort scoreLE).reverse.take votersPerBlock).map Prod.snd

/-- `None` if the key or the signature cannot be read. -/
def validateTicketSignature (publicKeyBytes message signatureBytes : Bytes) : Option Bool :=
  if env.publicKeyFromBytes publicKeyBytes && env.signatureFromBytes signatureBytes then
    some (env.verify publicKeyBytes message signatureBytes)
  else none

end RustyCoin
