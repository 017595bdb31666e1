import RustyCoin.Script.Concatenation

/-!
# The wallet's signer

`TransactionBuilder::sign_transaction` gives every input of a standard transaction
an unlocking script for the output that it spends. The signature hash covers the
same copy of the transaction as the script engine's, without the signature type
after it. Signature and key are written with a length byte in front of each.

The unlocking script for the hash of a public key starts with the byte `0x40`, the
length of the signature. The script engine has no direct pushes: it reads this byte
as an invalid opcode, and fails before it gets to the signature. The shortcut for
standard scripts takes the length for the first byte of the signature.
-/

namespace RustyCoin

/-- A key pair of the signature library: keys and signatures are byte arrays of a
fixed length. -/
structure Keypair where
  publicKey : PublicKey
  sign : Bytes → TransactionSignature

/-- A wallet is used through the keys it derives. -/
structure HDWallet where
  deriveEd25519Key : String → Outcome String Keypair

namespace HDWallet

open Outcome

/-- The path of the key that pays and signs. -/
def defaultPath : String := "m/44'/0'/0'/0/0"

def publicKeyBytes (self : HDWallet) : Outcome String Bytes := do
  let keypair ← self.deriveEd25519Key defaultPath
  return keypair.publicKey.toList

def sign (self : HDWallet) (message : Bytes) : Outcome String Bytes := do
  let keypair ← self.deriveEd25519Key defaultPath
  return (keypair.sign message).toList

end HDWallet

/-- What the wallet knows of an output that it can spend, as far as signing looks. -/
structure UtxoInfo where
  scriptPubkey : Bytes
  deriving DecidableEq

structure TransactionBuilder where
  availableUtxos : HashMap OutPoint UtxoInfo

namespace TransactionBuilder

open Outcome

variable (script : Bytes)

def isP2pkhScript : Bool :=
  script.length == 25 && script[0]? == some 0x76 && script[1]? == some 0xa9 &&
    script[2]? == some 0x14 && script[23]? == some 0x88 && script[24]? == some 0xac

def isP2pkScript : Bool :=
  script.length == 35 && script[0]? == some 0x21 && script[34]? == some 0xac

def isP2shScript : Bool :=
  script.length == 23 && script[0]? == some 0xa9 && script[1]? == some 0x14 &&
    script[22]? == some 0x87

def isMultisigScript : Bool :=
  decide (script.length > 3) &&
    script.head?.any (fun first => decide (0x51 ≤ first) && decide (first ≤ 0x60)) &&
    script.getLast? == some 0xae

def createP2pkhScriptSig (signature publicKey : Bytes) : Outcome String Bytes :=
  if signature.length > 75 then
    fail ("Signature too large: " ++ toString signature.length ++ " bytes")
  else if publicKey.length > 75 then
    fail ("Public key too large: " ++ toString publicKey.length ++ " bytes")
  else
    .ok (UInt8.ofNat signature.length :: signature ++ UInt8.ofNat publicKey.length :: publicKey)

def createScriptSigForUtxo (signature publicKey scriptPubkey : Bytes) : Outcome String Bytes :=
  if isP2pkhScript scriptPubkey then createP2pkhScriptSig signature publicKey
  else if isP2pkScript scriptPubkey then .ok signature
  else if isP2shScript scriptPubkey then fail "P2SH scriptSig creation not yet implemented"
  else if isMultisigScript scriptPubkey then
    fail "Multisig scriptSig creation not yet implemented"
  else fail "Unknown script_pubkey type, cannot create scriptSig"

def calculateSighashForInput (env : Platform) (version : UInt32) (inputs : List TxInput)
    (outputs : List TxOutput) (lockTime : UInt32) (inputIndex : Nat) (scriptPubkey : Bytes) :
    Outcome String Hash :=
  if inputIndex ≥ inputs.length then
    fail ("Input index " ++ toString inputIndex ++ " out of bounds")
  else
    let sighashInputs := ScriptEngine.sighashInputs inputIndex scriptPubkey 0 inputs
    .ok (env.blake3
      (env.serializeTransaction (.standard version sighashInputs outputs lockTime 0 [])))

variable (self : TransactionBuilder) (env : Platform) (wallet : HDWallet)

/-- The script that unlocks one input. -/
def signInput (version : UInt32) (inputs : List TxInput) (outputs : List TxOutput)
    (lockTime : UInt32) (inputIndex : Nat) (input : TxInput) : Outcome String Bytes := do
  let utxoInfo ← okOr (self.availableUtxos.lookup input.previousOutput)
    ("Cannot find UTXO for input " ++ toString inputIndex ++ ": " ++
      ConsensusError.debugOutPoint input.previousOutput)
  let sighash ← calculateSighashForInput env version inputs outputs lockTime inputIndex
    utxoInfo.scriptPubkey
  let signature ← wallet.sign sighash.toList
  let publicKey ← wallet.publicKeyBytes
  createScriptSigForUtxo signature publicKey utxoInfo.scriptPubkey

/-- The loop over the inputs, numbered from `i`. All of them are hashed with the
inputs as they were before the first was signed. -/
def signInputs (version : UInt32) (inputsForSighash : List TxInput) (outputs : List TxOutput)
    (lockTime : UInt32) : Nat → List TxInput → Outcome String (List TxInput)
  | _, [] => .ok []
  | i, input :: inputs => do
    let scriptSig ← self.signInput env wallet version inputsForSighash outputs lockTime i
      input
    let inputs ← signInputs version inputsForSighash outputs lockTime (i + 1) inputs
    return { input with scriptSig } :: inputs

def signTransaction (tx : Transaction) : Outcome String Transaction :=
  match tx with
  | .standard version inputs outputs lockTime fee witness => do
    let inputs ← self.signInputs env wallet version inputs outputs lockTime 0 inputs
    return .standard version inputs outputs lockTime fee witness
  | _ => fail "Unsupported transaction type for signing"

variable {self env wallet}

variable {input : TxInput}

variable {version lockTime : UInt32} {inputs : List TxInput} {outputs : List TxOutput} {i : Nat}

/-- A script for the hash of a public key starts with the length of the signature. -/
theorem signInput_of_isP2pkh {inputIndex : Nat} {utxoInfo : UtxoInfo}
    {scriptSig : Bytes} (hknown : self.availableUtxos.lookup input.previousOutput = some utxoInfo)
    (hp2pkh : isP2pkhScript utxoInfo.scriptPubkey = true)
    (h : self.signInput env wallet version inputs outputs lockTime inputIndex input =
      .ok scriptSig) :
    ∃ rest, scriptSig = 0x40 :: rest := by
  rw [signInput, hknown, okOr, ok_bind, bind_eq_ok] at h
  obtain ⟨sighash, -, h⟩ := h
  obtain ⟨signature, hsign, h⟩ := bind_eq_ok.mp h
  obtain ⟨publicKey, -, h⟩ := bind_eq_ok.mp h
  obtain ⟨keypair, -, hsignature⟩ := bind_eq_ok.mp hsign
  have hlength : signature.length = 64 := by
    cases hsignature
    exact (keypair.sign sighash.toList).toList_length
  rw [createScriptSigForUtxo, if_pos hp2pkh] at h
  obtain ⟨-, h⟩ := ite_fail_eq_ok.mp h
  obtain ⟨-, h⟩ := ite_fail_eq_ok.mp h
  cases h
  exact ⟨_, by rw [hlength]; rfl⟩

theorem signInputs_getElem? {inputsForSighash : List TxInput} {signed : List TxInput} {first : Nat}
    (h : self.signInputs env wallet version inputsForSighash outputs lockTime first inputs =
      .ok signed) (hinput : inputs[i]? = some input) :
    ∃ scriptSig, self.signInput env wallet version inputsForSighash outputs lockTime
        (first + i) input = .ok scriptSig ∧ signed[i]? = some { input with scriptSig } := by
  induction inputs generalizing first i signed with
  | nil => simp at hinput
  | cons head rest ih =>
    rw [signInputs, bind_eq_ok] at h
    obtain ⟨scriptSig, hhead, h⟩ := h
    obtain ⟨signedRest, hrest, h⟩ := bind_eq_ok.mp h
    cases h
    cases i with
    | zero =>
      cases hinput
      exact ⟨scriptSig, hhead, rfl⟩
    | succ i =>
      obtain ⟨scriptSig', hsigned, hget⟩ := ih hrest hinput
      rw [Nat.add_right_comm] at hsigned
      exact ⟨scriptSig', hsigned, hget⟩

/-- An input of a signed transaction is the one that was given, with a script. -/
theorem signTransaction_getInputs {tx signed : Transaction}
    (h : self.signTransaction env wallet tx = .ok signed) (hinput : tx.getInputs[i]? = some input) :
    ∃ version inputs outputs lockTime scriptSig,
      self.signInput env wallet version inputs outputs lockTime i input = .ok scriptSig ∧
      signed.getInputs[i]? = some { input with scriptSig } := by
  unfold signTransaction at h
  split at h
  · obtain ⟨signedInputs, hsigned, h⟩ := bind_eq_ok.mp h
    cases h
    obtain ⟨scriptSig, hscript, hget⟩ := signInputs_getElem? hsigned hinput
    rw [Nat.zero_add] at hscript
    exact ⟨_, _, _, _, scriptSig, hscript, hget⟩
  · exact absurd h (fail_ne_ok _ _)

end TransactionBuilder

open Outcome ScriptEngine StandardScripts TransactionBuilder

/-- The two validation paths of the mempool both accept an input. -/
def AcceptedByBoth (env : Platform) (tx : Transaction) (utxoSet : UtxoSet)
    (currentBlockHeight : UInt64) (self : ScriptEngine) (inputIndex : Nat) : Prop :=
  ∃ input prevOutput, tx.getInputs[inputIndex]? = some input ∧
    utxoSet.getUtxo input.previousOutput = some prevOutput ∧
    (∃ e, executeStandardScript env new input.scriptSig prevOutput.output.scriptPubkey tx
      inputIndex = .ok e) ∧
    ∃ e, (validateInput env tx utxoSet currentBlockHeight self input inputIndex :
      Outcome Unit (Option ScriptEngine)) = .ok (some e)

variable {env : Platform} {ctx : ExecContext}

/-- A script that starts with an invalid opcode does not run on an engine that was
just cleared. -/
theorem execute_invalidOpcode {byte : UInt8} (hbyte : Opcode.ofByte byte = .opInvalidOpcode)
    (rest : Bytes) (e : ScriptEngine) (k : Nat) (e' : ScriptEngine) :
    execute env ctx (byte :: rest) (e.resetFor k) ≠ .ok e' := by
  intro hrun
  obtain ⟨c, hloop, -⟩ := execute_eq_ok_runFrom hrun
  have hstep : stepByte env ctx (e.resetFor k) byte rest = fail .invalidOpcode := by
    rw [stepByte_executed (Nat.zero_lt_succ _) rfl, hbyte]
    rfl
  rw [runFrom_cons, hstep] at hloop
  exact fail_ne_ok _ _ hloop

theorem not_accepted_of_invalidOpcode {tx : Transaction} {utxoSet : UtxoSet}
    {currentBlockHeight : UInt64} {self : ScriptEngine} {inputIndex : Nat} {input : TxInput}
    {byte : UInt8} {rest : Bytes} (hinput : tx.getInputs[inputIndex]? = some input)
    (hscript : input.scriptSig = byte :: rest) (hbyte : Opcode.ofByte byte = .opInvalidOpcode) :
    ¬ AcceptedByBoth env tx utxoSet currentBlockHeight self inputIndex := by
  rintro ⟨input', prevOutput, hinput', -, -, e, haccept⟩
  rw [hinput, Option.some.injEq] at hinput'
  subst hinput'
  obtain ⟨prevOutput', -, hrun, -⟩ :=
    (validateInput_eq_some env tx utxoSet currentBlockHeight).mp haccept
  rw [runInput, hscript] at hrun
  exact execute_invalidOpcode hbyte _ self self.sigOpCount e hrun

theorem isP2pkhScript_createP2pkh {hash : Bytes} (hlength : hash.length = 20) :
    isP2pkhScript (createP2pkh hash) = true := by
  simp [isP2pkhScript, createP2pkh, hlength]

/-- No spend of an output that pays to the hash of a public key, one of the wallet's
or another, is accepted by both paths once the wallet has signed it. -/
theorem signTransaction_not_accepted {env : Platform} {builder : TransactionBuilder}
    {wallet : HDWallet} {tx signed : Transaction} {inputIndex : Nat} {input : TxInput}
    {publicKey : Bytes} (hinput : tx.getInputs[inputIndex]? = some input)
    (hpays : builder.availableUtxos.lookup input.previousOutput =
      some ⟨createP2pkh (hash160 env publicKey)⟩)
    (hsigned : builder.signTransaction env wallet tx = .ok signed) (utxoSet : UtxoSet)
    (currentBlockHeight : UInt64) (self : ScriptEngine) :
    ¬ AcceptedByBoth env signed utxoSet currentBlockHeight self inputIndex := by
  obtain ⟨version, inputs, outputs, lockTime, scriptSig, hscript, hget⟩ :=
    signTransaction_getInputs hsigned hinput
  have hp2pkh : isP2pkhScript
      (createP2pkh (hash160 env publicKey)) = true :=
    isP2pkhScript_createP2pkh (List.Vector.toList_length _)
  obtain ⟨rest, hrest⟩ := signInput_of_isP2pkh hpays hp2pkh hscript
  exact not_accepted_of_invalidOpcode hget hrest (by decide)

/-- A signature is the message followed by the key. -/
def Platform.signed : Platform :=
  { Platform.blank with
    publicKeyFromBytes := fun _ => true
    signatureFromBytes := fun _ => true
    verify := fun key message signature => signature == message ++ key }

/-- The key pair of `Platform.signed` whose public key is sevens. -/
def sevensKeypair : Keypair where
  publicKey := .replicate 32 7
  sign message := ⟨(message ++ List.replicate 32 0).take 32 ++ List.replicate 32 7, by simp⟩

def sevensWallet : HDWallet where
  deriveEd25519Key _ := .ok sevensKeypair

/-- The script that pays to the wallet's key. -/
def sevensScript : Bytes :=
  createP2pkh (hash160 .signed sevensKeypair.publicKey.toList)

def sevensBuilder : TransactionBuilder where
  availableUtxos := AList.insert ⟨.replicate 32 1, 0⟩ ⟨sevensScript⟩ ∅

/-- The spend of that output as the wallet signs it. -/
def sevensSpend : Transaction :=
  spendTx (0x40 :: (List.replicate 32 0 ++ List.replicate 32 7) ++ 0x20 :: List.replicate 32 7)

theorem sevensSpend_signed :
    sevensBuilder.signTransaction .signed sevensWallet (spendTx []) = .ok sevensSpend := by
  decide +kernel

/-- The wallet's own spend is not accepted. -/
theorem signTransaction_not_accepted_sevens :
    sevensBuilder.signTransaction .signed sevensWallet (spendTx []) = .ok sevensSpend ∧
      ¬ AcceptedByBoth .signed sevensSpend (paidSet sevensScript) 0 new 0 := by
  have hinput : (spendTx []).getInputs[0]? = some (spendInput []) := rfl
  have hpays : sevensBuilder.availableUtxos.lookup (spendInput []).previousOutput =
      some ⟨createP2pkh (hash160 .signed sevensKeypair.publicKey.toList)⟩ := by decide +kernel
  exact ⟨sevensSpend_signed, signTransaction_not_accepted hinput hpays sevensSpend_signed
    (paidSet sevensScript) 0 new⟩

/-- The scheme accepts every signature that the wallet makes on a digest, and still
both paths reject the spend. -/
theorem sevensSpend_rejected :
    (∀ message : Hash, Platform.signed.verify sevensKeypair.publicKey.toList message.toList
      (sevensKeypair.sign message.toList).toList = true) ∧
    sevensBuilder.signTransaction .signed sevensWallet (spendTx []) = .ok sevensSpend ∧
    executeStandardScript .signed new (sevensSpend.getInputs.head?.elim [] TxInput.scriptSig)
      sevensScript sevensSpend 0 = fail .verificationFailed ∧
    (validateTransaction .signed sevensSpend (paidSet sevensScript) 0 new :
      Outcome Unit Bool) = .ok false := by
  refine ⟨fun message => ?_, sevensSpend_signed, by decide +kernel, by decide +kernel⟩
  have htake : (message.toList ++ List.replicate 32 0).take 32 = message.toList :=
    List.take_left' message.toList_length
  have hsign : (sevensKeypair.sign message.toList).toList =
      message.toList ++ List.replicate 32 7 := congrArg (· ++ List.replicate 32 7) htake
  rw [hsign]
  exact beq_self_eq_true _

end RustyCoin
