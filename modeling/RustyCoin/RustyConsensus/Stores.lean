import RustyCoin.Consensus.Params
import RustyCoin.Lib.WriteBatch
import RustyCoin.RustyConsensus.Error
import RustyCoin.Types.Bincode

/-!
# What rusty-consensus keeps

The unspent outputs are in a column family of a RocksDB database, outputs and
outpoints serialized. The database answers every call, and changes to it are
collected in a batch. Tickets are kept in memory.
-/

namespace RustyCoin.RustyConsensus

/-- The column family `utxos`. -/
structure UtxoSet where
  utxos : HashMap Bytes Bytes

namespace UtxoSet

open Outcome

variable (bincode : Bincode)

def readEntry (data : Bytes) : ConsensusResult (TxOutput × UInt64 × Bool) :=
  match bincode.utxo.deserialize data with
  | .error message => fail (.serializationError message)
  | .ok entry => .ok entry

/-- The output at an outpoint, the height of its block, and whether a coinbase has created it. -/
def getUtxo (self : UtxoSet) (outpoint : OutPoint) :
    ConsensusResult (Option (TxOutput × UInt64 × Bool)) :=
  match self.utxos.lookup (bincode.outPoint.serialize outpoint) with
  | none => .ok none
  | some data => do
    let entry ← readEntry bincode data
    return some entry

def applyBatch (self : UtxoSet) (batch : WriteBatch Bytes Bytes) : UtxoSet :=
  ⟨WriteBatch.write self.utxos batch⟩

def createBatch : WriteBatch Bytes Bytes := []

variable (batch : WriteBatch Bytes Bytes) (outpoint : OutPoint)

def putUtxoInBatch (output : TxOutput)
    (height : UInt64) (isCoinbase : Bool) : WriteBatch Bytes Bytes :=
  batch ++ [.put (bincode.outPoint.serialize outpoint)
    (bincode.utxo.serialize (output, height, isCoinbase))]

def deleteUtxoInBatch : WriteBatch Bytes Bytes :=
  batch ++ [.delete (bincode.outPoint.serialize outpoint)]

/-- What is found under an outpoint, if anything can be read there. -/
def find (self : UtxoSet) (outpoint : OutPoint) : Option (TxOutput × UInt64 × Bool) :=
  (self.getUtxo bincode outpoint).toOption.join

variable {bincode : Bincode} {self : UtxoSet} {outpoint : OutPoint}
  {entry : TxOutput × UInt64 × Bool}

@[simp] theorem readEntry_serialize (entry : TxOutput × UInt64 × Bool) :
    readEntry bincode (bincode.utxo.serialize entry) = .ok entry := by
  rw [readEntry, bincode.utxo.deserialize_serialize]

theorem find_of_getUtxo (h : self.getUtxo bincode outpoint = .ok (some entry)) :
    self.find bincode outpoint = some entry := by
  rw [find, h]
  rfl

/-- What a batch on outpoints and unspent outputs leaves under an outpoint. -/
theorem getUtxo_applyBatch (self : UtxoSet) (entry : Utxo → TxOutput × UInt64 × Bool)
    (batch : WriteBatch OutPoint Utxo) (outpoint : OutPoint) :
    (self.applyBatch (batch.encoded bincode.outPoint.serialize
        fun utxo => bincode.utxo.serialize (entry utxo))).getUtxo bincode outpoint =
      (WriteBatch.lastEffect outpoint batch).elim (self.getUtxo bincode outpoint)
        fun left => .ok (left.map entry) := by
  have hkeys : Function.Injective bincode.outPoint.serialize :=
    fun _ _ h => bincode.outPoint.serialize_inj.mp h
  rw [getUtxo, applyBatch, WriteBatch.lookup_write, WriteBatch.lastEffect_encoded hkeys]
  match WriteBatch.lastEffect outpoint batch with
  | none => rfl
  | some none => rfl
  | some (some utxo) =>
    change (readEntry bincode (bincode.utxo.serialize (entry utxo)) >>= _) = _
    rw [readEntry_serialize]
    rfl

end UtxoSet

structure LiveTicketsPool where
  tickets : HashMap TicketId Ticket
  nonParticipationCounts : HashMap TicketId UInt32
  lastMissedVoteHeight : HashMap TicketId UInt64

namespace LiveTicketsPool

def new : LiveTicketsPool := ⟨∅, ∅, ∅⟩

variable (self : LiveTicketsPool)

def addTicket (ticket : Ticket) : LiveTicketsPool :=
  { self with tickets := self.tickets.insert ticket.id ticket }

/-- The pool without a ticket and what it has missed. -/
def removeTicket (ticketId : TicketId) : LiveTicketsPool :=
  if (self.tickets.lookup ticketId).isSome then
    ⟨self.tickets.erase ticketId, self.nonParticipationCounts.erase ticketId,
      self.lastMissedVoteHeight.erase ticketId⟩
  else self

def getTicket (ticketId : TicketId) : Option Ticket :=
  self.tickets.lookup ticketId

end LiveTicketsPool

/-- What transactions are checked against. The state of the chain is not looked at. -/
structure ValidationContext (F : Type) where
  utxoSet : UtxoSet
  params : ConsensusParams F
  ticketVoting : LiveTicketsPool
  masternodeList : MasternodeList

end RustyCoin.RustyConsensus
