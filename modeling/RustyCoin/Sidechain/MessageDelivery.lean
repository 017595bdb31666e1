import RustyCoin.Sidechain.RetiredFederations

/-!
# Messages that are lost

The messages for a chain are taken off the queue before they are processed, and
the loop over them leaves at the first one that fails. Those behind it are then
neither processed nor pending. `no_message_lost_iff` says for which queues this
does not happen: every message but the last must pass, where a transaction
passes if it is valid or its identifier came up before.
-/

namespace RustyCoin.Sidechain.CrossChainProcessor

open Outcome Stateful List

variable {K S : Type} (env : Platform) (codec : PayloadCodec) (crypto : ThresholdCrypto K S)

variable (self : CrossChainProcessor)

/-- The messages that wait for a chain. -/
def pendingFor (chainId : Hash) : List CrossChainMessage :=
  (self.communication.receiveMessages chainId).1

/-- The processor once these messages are off the queue. -/
def receiving (chainId : Hash) : CrossChainProcessor :=
  { self with communication := (self.communication.receiveMessages chainId).2 }

/-- The calls on these messages, one after the other, return: the loop comes to the next one. -/
def GetsThrough (messages : List CrossChainMessage) (self : CrossChainProcessor) : Prop :=
  ∃ results after, (messages.mapM (processMessage env codec crypto)).run self = (.ok results, after)

/-- Whatever `processMessages` returns, it has come to every message that it took off the queue, or
the message is pending again. -/
def NoMessageLost (chainId : Hash) : Prop :=
  ∀ i message, (self.pendingFor chainId)[i]? = some message →
    GetsThrough env codec crypto ((self.pendingFor chainId).take i)
        (self.receiving chainId) ∨
      message ∈ ((processMessages env codec crypto chainId).run self).2.pendingFor chainId

/-- The message is about the transaction with this identifier. -/
def IsAbout (message : CrossChainMessage) (id : Hash) : Prop :=
  message.messageType = .crossChainTransaction ∧
    ∃ tx, message.deserializePayload codec.transaction = .ok tx ∧ tx.id = id

/-- The identifier was processed, or one of these messages is about it. -/
def KnownId (earlier : List CrossChainMessage) (id : Hash) : Prop :=
  (self.processedTxs.lookup id).isSome ∨ ∃ message ∈ earlier, IsAbout codec message id

/-- A message is authentic and its payload is in order. -/
def Passes (earlier : List CrossChainMessage) (message : CrossChainMessage) : Prop :=
  self.communication.processMessage env crypto message = .ok () ∧
    match message.messageType with
    | .crossChainTransaction =>
      ∃ tx, message.deserializePayload codec.transaction = .ok tx ∧
        (self.KnownId codec earlier tx.id ∨ self.validateCrossChainTransaction crypto tx = .ok ())
    | .mainchainBlockHeader =>
      ∃ header, message.deserializePayload codec.blockHeader = .ok header ∧
        self.validateMainchainHeader env header = .ok ()
    | .sidechainBlockHeader =>
      ∃ header, message.deserializePayload codec.sidechainBlockHeader = .ok header
    | _ => True

variable {env codec crypto self} {processor after : CrossChainProcessor}
  {message : CrossChainMessage} {result : ProcessingResult} {earlier : List CrossChainMessage}

/-- A transaction message returns in two ways: its transaction is known already, or it is valid and
goes into a pool. -/
theorem processCrossChainTransactionMessage_eq_ok :
    (processCrossChainTransactionMessage codec crypto message).run processor =
        (.ok result, after) ↔
      ∃ tx, message.deserializePayload codec.transaction = .ok tx ∧
        (((processor.processedTxs.lookup tx.id).isSome ∧ result = .duplicate ∧
            after = processor) ∨
          (processor.processedTxs.lookup tx.id = none ∧
            processor.validateCrossChainTransaction crypto tx = .ok () ∧
            result = .transactionReceived tx.id ∧
            after = processor.addToPool message.destinationChain tx)) := by
  rw [processCrossChainTransactionMessage, run_read_bind]
  cases hpayload : message.deserializePayload codec.transaction with
  | error e => simp
  | ok tx =>
    show (run (.read _ >>= _) processor) = _ ↔ _
    rw [run_read_bind]
    cases hseen : processor.processedTxs.lookup tx.id with
    | some status =>
      constructor
      · rintro ⟨⟩
        exact ⟨tx, rfl, .inl ⟨hseen ▸ rfl, rfl, rfl⟩⟩
      · rintro ⟨_, ⟨⟩, ⟨-, rfl, rfl⟩ | ⟨hnew, -⟩⟩
        · rfl
        · cases hseen.symm.trans hnew
    | none =>
      show (run (.read _ >>= _) processor) = _ ↔ _
      rw [run_read_bind]
      cases hvalid : processor.validateCrossChainTransaction crypto tx with
      | error e => simp [hseen, hvalid]
      | ok =>
        constructor
        · rintro ⟨⟩
          exact ⟨tx, rfl, .inr ⟨hseen, hvalid, rfl, rfl⟩⟩
        · rintro ⟨_, ⟨⟩, ⟨hknown, -⟩ | ⟨-, -, rfl, rfl⟩⟩
          · rw [hseen] at hknown
            cases hknown
          · rfl

/-- A processor with the same connections that knows these transactions as well. -/
structure Learns (processor after : CrossChainProcessor) (ids : Hash → Prop) : Prop where
  integrator : after.communication.federationManager = processor.communication.federationManager
  mainchainInterface : after.mainchainInterface = processor.mainchainInterface
  federationManager : after.federationManager = processor.federationManager
  processed : ∀ id, (after.processedTxs.lookup id).isSome ↔
    (processor.processedTxs.lookup id).isSome ∨ ids id

variable {ids : Hash → Prop}

/-- One that has learned nothing new. -/
theorem learns_self
    (hids : ∀ id, ids id → (processor.processedTxs.lookup id).isSome) :
    Learns processor processor ids :=
  ⟨rfl, rfl, rfl, fun id => (or_iff_left_of_imp (hids id)).symm⟩

theorem learns_addToPool (chainId : Hash) {tx : CrossChainTransaction}
    (hids : ∀ id, ids id ↔ tx.id = id) : Learns processor (processor.addToPool chainId tx) ids := by
  refine ⟨rfl, rfl, rfl, fun id => ?_⟩
  rw [hids]
  show ((processor.processedTxs.insert tx.id .received).lookup id).isSome ↔ _
  by_cases hid : id = tx.id
  · rw [hid, AList.lookup_insert]
    exact iff_of_true rfl (.inr rfl)
  · rw [AList.lookup_insert_ne hid, or_iff_left fun h => hid h.symm]

/-- Other messages are only looked at. -/
theorem keeps_processMessage (hother : message.messageType ≠ .crossChainTransaction) :
    Stateful.Keeps id (processMessage env codec crypto message) := by
  refine (keeps_read _).bind fun _ => ?_
  cases htype : message.messageType with
  | crossChainTransaction => exact absurd htype hother
  | mainchainBlockHeader =>
    refine (keeps_read _).bind fun _ => ?_
    exact (keeps_read _).bind fun _ => keeps_pure _
  | sidechainBlockHeader => exact (keeps_read _).bind fun _ => keeps_pure _
  | fraudProof => exact keeps_pure _
  | federationUpdate => exact keeps_pure _
  | stateSyncRequest => exact keeps_pure _
  | stateSyncResponse => exact keeps_pure _

/-- The one thing that becomes known is the transaction that a message is about. -/
theorem processMessage_learns
    (h : (processMessage env codec crypto message).run processor = (.ok result, after)) :
    Learns processor after (IsAbout codec message) := by
  by_cases htype : message.messageType = .crossChainTransaction
  · obtain ⟨_, -, h⟩ := run_read_bind_eq_ok.mp h
    rw [htype] at h
    obtain ⟨tx, hpayload, hcases⟩ := processCrossChainTransactionMessage_eq_ok.mp h
    have habout (id : Hash) : IsAbout codec message id ↔ tx.id = id := by
      rw [IsAbout, hpayload]
      simp [htype]
    rcases hcases with ⟨hseen, -, rfl⟩ | ⟨-, -, -, rfl⟩
    · refine learns_self fun id hid => ?_
      rw [← (habout id).mp hid]
      exact hseen
    · exact learns_addToPool message.destinationChain habout
  · have hsame : after = processor := (keeps_processMessage htype).eq h
    rw [hsame]
    exact learns_self fun _ habout => absurd habout.1 htype

/-- What is known of the processor after these messages. -/
def After (codec : PayloadCodec) (self : CrossChainProcessor) (earlier : List CrossChainMessage)
    (processor : CrossChainProcessor) : Prop :=
  Learns self processor fun id => ∃ message ∈ earlier, IsAbout codec message id

theorem after_receiving (codec : PayloadCodec) (self : CrossChainProcessor) (chainId : Hash) :
    After codec self [] (self.receiving chainId) :=
  ⟨rfl, rfl, rfl, fun _ => (or_iff_left fun ⟨_, hnone, _⟩ => not_mem_nil hnone).symm⟩

variable (h : After codec self earlier processor)

include h

theorem After.next
    (hrun : (processMessage env codec crypto message).run processor = (.ok result, after)) :
    After codec self (earlier ++ [message]) after := by
  have hlearns := processMessage_learns hrun
  refine ⟨hlearns.integrator.trans h.integrator,
    hlearns.mainchainInterface.trans h.mainchainInterface,
    hlearns.federationManager.trans h.federationManager, fun id => ?_⟩
  rw [hlearns.processed, h.processed, or_assoc]
  refine or_congr_right ?_
  simp only [mem_append, mem_singleton, or_and_right, exists_or, exists_eq_left]

/-- A transaction that was not processed before is validated as it would have been at first. -/
theorem After.validate_iff (tx : CrossChainTransaction) :
    ((processor.processedTxs.lookup tx.id).isSome ∨
        processor.validateCrossChainTransaction crypto tx = .ok ()) ↔
      (self.KnownId codec earlier tx.id ∨
        self.validateCrossChainTransaction crypto tx = .ok ()) := by
  have hseen := h.processed tx.id
  by_cases hknown : self.KnownId codec earlier tx.id
  · exact iff_of_true (.inl (hseen.mpr hknown)) (.inl hknown)
  · rw [or_iff_right fun hp => hknown (hseen.mp hp), or_iff_right hknown]
    have hnew : ¬ (processor.processedTxs.lookup tx.id).isSome := fun hp => hknown (hseen.mp hp)
    have hnew' : ¬ (self.processedTxs.lookup tx.id).isSome := fun hp => hknown (.inl hp)
    rw [validateCrossChainTransaction, validateCrossChainTransaction, if_neg hnew, if_neg hnew',
      validateFederationSignatures, validateFederationSignatures, validateMainchainSource,
      validateMainchainSource, h.mainchainInterface, h.federationManager]

theorem After.authentic_iff :
    processor.communication.processMessage env crypto message =
      self.communication.processMessage env crypto message := by
  rw [CrossChainCommunication.processMessage, h.integrator, CrossChainCommunication.processMessage]

/-- The call on a message returns exactly if the message passes. -/
theorem After.returns_iff (message : CrossChainMessage) :
    (∃ result after, (processMessage env codec crypto message).run processor =
        (.ok result, after)) ↔ self.Passes env codec crypto earlier message := by
  rw [processMessage, run_read_bind_returns_iff, h.authentic_iff, Passes, Unique.exists_iff]
  refine and_congr_right fun _ => ?_
  cases message.messageType with
  | crossChainTransaction =>
    simp only [processCrossChainTransactionMessage_eq_ok]
    constructor
    · rintro ⟨_, _, tx, hpayload, ⟨hseen, -⟩ | ⟨-, hvalid, -⟩⟩
      · exact ⟨tx, hpayload, (h.validate_iff tx).mp (.inl hseen)⟩
      · exact ⟨tx, hpayload, (h.validate_iff tx).mp (.inr hvalid)⟩
    · rintro ⟨tx, hpayload, hgood⟩
      have hgood := (h.validate_iff tx).mpr hgood
      by_cases hseen : (processor.processedTxs.lookup tx.id).isSome
      · exact ⟨_, _, tx, hpayload, .inl ⟨hseen, rfl, rfl⟩⟩
      · have hnew := Option.not_isSome_iff_eq_none.mp hseen
        exact ⟨_, _, tx, hpayload, .inr ⟨hnew, hgood.resolve_left hseen, rfl, rfl⟩⟩
  | mainchainBlockHeader =>
    show (∃ result after, run (.read _ >>= fun header =>
      .read _ >>= fun _ => pure _) processor = (.ok result, after)) ↔ _
    simp only [run_read_bind_returns_iff, validateMainchainHeader, h.mainchainInterface]
    refine exists_congr fun header => and_congr_right fun _ => ?_
    exact ⟨fun ⟨_, hvalid, _⟩ => hvalid, fun hvalid => ⟨(), hvalid, _, _, rfl⟩⟩
  | sidechainBlockHeader =>
    show (∃ result after, run (.read _ >>= fun header => pure _) processor =
      (.ok result, after)) ↔ _
    rw [run_read_bind_returns_iff]
    exact exists_congr fun header => and_iff_left ⟨_, _, rfl⟩
  | fraudProof => exact iff_of_true ⟨_, _, rfl⟩ trivial
  | federationUpdate => exact iff_of_true ⟨_, _, rfl⟩ trivial
  | stateSyncRequest => exact iff_of_true ⟨_, _, rfl⟩ trivial
  | stateSyncResponse => exact iff_of_true ⟨_, _, rfl⟩ trivial

omit h

theorem keeps_communication :
    Stateful.Keeps CrossChainProcessor.communication
      (processMessage env codec crypto message) := by
  by_cases htype : message.messageType = .crossChainTransaction
  · refine (keeps_read _).bind fun _ => ?_
    rw [htype]
    refine (keeps_read _).bind fun tx => (keeps_read _).bind fun seen => ?_
    cases seen with
    | true => exact keeps_pure _
    | false =>
      refine (keeps_read _).bind fun _ => ?_
      refine Stateful.Keeps.bind (keeps_modify ?_) fun _ => keeps_pure _
      exact fun _ => rfl
  · exact fun processor => congrArg _ (keeps_processMessage htype processor)

variable (self) (chainId : Hash)

/-- Nothing is put back. -/
@[simp] theorem pendingFor_processMessages :
    ((processMessages env codec crypto chainId).run self).2.pendingFor chainId = [] := by
  have hkeeps (message : CrossChainMessage) :
      Stateful.Preserves (fun processor => processor.pendingFor chainId = [])
        (processMessage env codec crypto message) := by
    intro processor hempty
    rw [pendingFor, keeps_communication processor]
    exact hempty
  refine preserves_mapM hkeeps (self.receiving chainId) ?_
  show ((AList.erase chainId self.communication.pendingMessages).lookup chainId).getD [] = []
  rw [AList.lookup_erase]
  rfl

theorem getsThrough_iff (messages : List CrossChainMessage) :
    GetsThrough env codec crypto messages (self.receiving chainId) ↔
      ∀ earlier message, earlier ++ [message] <+: messages →
        self.Passes env codec crypto earlier message :=
  run_mapM_returns_iff (fun _ message _ hknown => hknown.returns_iff message)
    (fun _ _ _ _ _ hknown hrun => hknown.next hrun) messages (after_receiving codec self chainId)

variable (env codec crypto) in
/-- No message is lost exactly if all of them but the last pass. -/
theorem no_message_lost_iff :
    NoMessageLost env codec crypto self chainId ↔
      ∀ earlier message, earlier ++ [message] <+: (self.pendingFor chainId).dropLast →
        self.Passes env codec crypto earlier message := by
  rw [← getsThrough_iff self chainId]
  constructor
  · intro hnone
    cases hqueue : self.pendingFor chainId using List.reverseRecOn with
    | nil => exact ⟨[], _, rfl⟩
    | append_singleton front last =>
      have hlast : (self.pendingFor chainId)[front.length]? = some last := by
        rw [hqueue]
        exact getElem?_concat_length
      rcases hnone front.length last hlast with hthrough | hpending
      · rw [hqueue, take_left] at hthrough
        rw [dropLast_concat]
        exact hthrough
      · rw [pendingFor_processMessages] at hpending
        cases hpending
  · intro hfront i message hmessage
    left
    rw [getsThrough_iff] at hfront ⊢
    have hlt := (List.getElem?_eq_some_iff.mp hmessage).1
    have hshorter : (self.pendingFor chainId).take i <+: (self.pendingFor chainId).dropLast := by
      rw [dropLast_eq_take]
      exact take_prefix_take_left (by omega)
    exact fun earlier message hstep => hfront earlier message (hstep.trans hshorter)

section

open FederationManager

def sidechainTwo : Hash := .replicate 32 2

/-- Every payload is read as one and the same transfer between two sidechains. -/
def transferCodec : PayloadCodec where
  transaction _ := .ok (transactionOf (.replicate 32 0) sidechainOne sidechainTwo
    (onesSignature [0x80] 1 1))
  blockHeader _ := .error ""
  sidechainBlockHeader _ := .error ""

def announcement (sequenceNumber : UInt64) : CrossChainMessage where
  messageType := .crossChainTransaction
  sourceChain := sidechainOne
  destinationChain := sidechainTwo
  payload := []
  sequenceNumber := sequenceNumber
  timestamp := 0
  federationSignature := some (onesSignature [0x80] 1 1)

/-- A message without a sequence number waits in front of a valid one. -/
def twoWaiting : CrossChainProcessor :=
  .new ⟨AList.insert sidechainTwo [announcement 0, announcement 1] ∅, none⟩ .new

theorem valid_message_lost :
    ((processMessages Platform.blank transferCodec headCrypto sidechainTwo).run twoWaiting).1 =
        fail "Invalid sequence number" ∧
      ((processMessage Platform.blank transferCodec headCrypto (announcement 1)).run
        (twoWaiting.receiving sidechainTwo)).1 = .ok (.transactionReceived (.replicate 32 0)) ∧
      ¬ NoMessageLost Platform.blank transferCodec headCrypto twoWaiting sidechainTwo := by
  refine ⟨rfl, rfl, fun hnone => ?_⟩
  rcases hnone 1 (announcement 1) rfl with ⟨results, after, hthrough⟩ | hpending
  · cases hthrough
  · rw [pendingFor_processMessages] at hpending
    cases hpending

end

end RustyCoin.Sidechain.CrossChainProcessor
