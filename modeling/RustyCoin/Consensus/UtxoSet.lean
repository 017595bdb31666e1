import RustyCoin.Consensus.Error
import RustyCoin.Lib.Stateful
import RustyCoin.Types.Platform

/-!
# The set of unspent outputs

The operations of `UtxoSet`. A block is applied in two passes, first all inputs
and then all outputs; a transaction alone is applied in the same two steps.
Reverting a block goes backwards and has to invent the outputs it brings back.
The loops of the validation return early, which is `none` here.
-/

namespace RustyCoin

def dustLimit : UInt64 := 500

/-- `u64::saturating_sub`. -/
def saturatingSub (a b : UInt64) : UInt64 :=
  if a < b then 0 else a - b

@[simp]
theorem toNat_saturatingSub (a b : UInt64) : (saturatingSub a b).toNat = a.toNat - b.toNat := by
  unfold saturatingSub
  split
  case isTrue hlt =>
    have hnat := UInt64.lt_iff_toNat_lt.mp hlt
    exact (Nat.sub_eq_zero_of_le hnat.le).symm
  case isFalse hle => exact UInt64.toNat_sub_of_le a b (UInt64.not_lt.mp hle)

/-- `u64::MAX`, the height that switches the height checks off. -/
def maxHeight : UInt64 := 0xFFFFFFFFFFFFFFFF

structure UtxoSet where
  utxos : HashMap OutPoint Utxo

namespace UtxoSet

def new : UtxoSet := ⟨∅⟩

variable (self : UtxoSet)

variable (outpoint : OutPoint)

def addUtxo (utxo : Utxo) : UtxoSet :=
  ⟨self.utxos.insert outpoint utxo⟩

/-- The output that was removed, if there was one, and the set without it. -/
def removeUtxo : Option Utxo × UtxoSet :=
  (self.utxos.lookup outpoint, ⟨self.utxos.erase outpoint⟩)

def getUtxo : Option Utxo :=
  self.utxos.lookup outpoint

/-- The values of the outputs that some inputs spend, absent ones left out. -/
def inputValues (inputs : List TxInput) : List UInt64 :=
  inputs.filterMap fun input =>
    (self.getUtxo input.previousOutput).map fun utxo => utxo.output.value

section

variable (env : Platform)

variable (self : UtxoSet)

/-- Remove the outputs that a transaction spends. Whether they were there is not
looked at. -/
def removeInputs (tx : Transaction) : UtxoSet :=
  tx.getInputs.foldl (fun set input => (set.removeUtxo input.previousOutput).2) self

variable (tx : Transaction) (currentBlockHeight : UInt64)

/-- Add the outputs of a transaction. -/
def addOutputs : UtxoSet :=
  tx.getOutputs.zipIdx.foldl
    (fun set (output, i) =>
      set.addUtxo ⟨tx.txid env, UInt32.ofNat i⟩ ⟨output, tx.isCoinbase, currentBlockHeight⟩)
    self

variable (block : Block) (currentBlockHeight : UInt64)

def updateFromBlock : UtxoSet :=
  let spent := block.transactions.foldl removeInputs self
  block.transactions.foldl (fun set tx => set.addOutputs env tx currentBlockHeight) spent

def updateFromTransaction : UtxoSet :=
  (self.removeInputs tx).addOutputs env tx currentBlockHeight

def applyBlock : UtxoSet :=
  self.updateFromBlock env block currentBlockHeight

end

variable (env : Platform)

/-- What takes the place of a spent output that is no longer known. -/
def dummyUtxo : Utxo := ⟨⟨0, [], none⟩, false, 0⟩

variable (self : UtxoSet)

/-- There is no history to ask: an output that is not in the set is made up. -/
def getHistoricalUtxo (outpoint : OutPoint) : Option Utxo :=
  match self.getUtxo outpoint with
  | some utxo => some utxo
  | none => some dummyUtxo

/-- Remove the outputs of a transaction, the last one first. -/
def removeOutputs (tx : Transaction) : UtxoSet :=
  tx.getOutputs.zipIdx.reverse.foldl
    (fun set (_, i) => (set.removeUtxo ⟨tx.txid env, UInt32.ofNat i⟩).2) self

def revertInput (input : TxInput) : Stateful ConsensusError UtxoSet Unit := do
  let originalUtxo ← Stateful.read fun set =>
    Outcome.okOr (set.getHistoricalUtxo input.previousOutput)
      (.failedToFindHistoricalUtxo input.previousOutput)
  Stateful.modify fun set => set.addUtxo input.previousOutput originalUtxo

def revertTransaction (tx : Transaction) : Stateful ConsensusError UtxoSet Unit := do
  Stateful.modify fun set => set.removeOutputs env tx
  forM tx.getInputs.reverse revertInput

def revertBlock (block : Block) : Stateful ConsensusError UtxoSet Unit :=
  forM block.transactions.reverse (revertTransaction env)

variable (tx : Transaction) (currentHeight : UInt64) (coinbaseMaturity : UInt32)

/-- Is a spent coinbase output old enough? -/
def maturityCheck (utxo : Utxo) : Bool :=
  !(utxo.isCoinbase && currentHeight != maxHeight &&
    decide (saturatingSub currentHeight utxo.creationHeight < coinbaseMaturity.toUInt64))

/-- Lock times that are heights. Timestamps and the sequence numbers are not
looked at. -/
def lockTimeCheck : Bool :=
  !(currentHeight != maxHeight && decide (tx.getLockTime < locktimeThreshold) &&
    decide (tx.getLockTime > 0) && decide (currentHeight < tx.getLockTime.toUInt64))

/-- The loop over the inputs, with the outpoints spent so far and the sum of
their values. -/
def inputLoop : List TxInput → List OutPoint → UInt64 → Option UInt64
  | [], _, totalInputValue => some totalInputValue
  | txIn :: rest, spentUtxosInTx, totalInputValue =>
    if txIn.previousOutput ∈ spentUtxosInTx then none
    else
      match self.getUtxo txIn.previousOutput with
      | none => none
      | some utxo =>
        if maturityCheck currentHeight coinbaseMaturity utxo &&
            lockTimeCheck tx currentHeight then
          inputLoop rest (txIn.previousOutput :: spentUtxosInTx)
            (totalInputValue + utxo.output.value)
        else none

/-- The loop over the outputs. -/
def outputLoop (dustLimit : UInt64) : List TxOutput → UInt64 → Option UInt64
  | [], totalOutputValue => some totalOutputValue
  | txOut :: rest, totalOutputValue =>
    if txOut.value < dustLimit then none
    else outputLoop dustLimit rest (totalOutputValue + txOut.value)

def validateTransactionComprehensive (dustLimit : UInt64) : Bool :=
  match self.inputLoop tx currentHeight coinbaseMaturity tx.getInputs [] 0 with
  | none => false
  | some totalInputValue =>
    match outputLoop dustLimit tx.getOutputs 0 with
    | none => false
    | some totalOutputValue => decide (totalInputValue ≥ totalOutputValue + tx.getFee)

def validateTransactionInputsWithParams : Bool :=
  self.validateTransactionComprehensive tx currentHeight coinbaseMaturity dustLimit

def validateTransactionInputsAtHeight : Bool :=
  self.validateTransactionInputsWithParams tx currentHeight 100

def validateTransactionInputs : Bool :=
  self.validateTransactionInputsAtHeight tx maxHeight

/-- The ids of the transactions that the unspent outputs come from, coinbases
left out, read as ticket ids. -/
def getUsedInputsAsTicketIds : List TicketId :=
  self.utxos.toPairs.filterMap fun (outpoint, utxo) =>
    if utxo.isCoinbase then none else some outpoint.txid

end UtxoSet

end RustyCoin
