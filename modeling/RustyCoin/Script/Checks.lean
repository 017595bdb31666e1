import RustyCoin.Script.Engine

/-!
# The script engine: signature and lock-time checks

Instructions that look at the transaction being verified. The signature hash
covers a copy of the transaction in which the signed input carries the spent
output's script and every other input carries none.
-/

namespace RustyCoin.ScriptEngine

open Outcome

/-- The inputs of the signed copy, numbered from `i`. -/
def sighashInputs (inputIndex : Nat) (scriptPubkey : Bytes) : Nat → List TxInput → List TxInput
  | _, [] => []
  | i, input :: inputs =>
    TxInput.fromOutpoint input.previousOutput (if i = inputIndex then scriptPubkey else [])
      input.sequence input.witness :: sighashInputs inputIndex scriptPubkey (i + 1) inputs

/-- Kinds other than `standard` and `coinbase` are signed as a `standard`
transaction that keeps only their inputs and outputs. -/
def sighashTx (tx : Transaction) (inputs : List TxInput) : Transaction :=
  match tx with
  | .standard version _ outputs lockTime _ _ => .standard version inputs outputs lockTime 0 []
  | .coinbase version _ outputs lockTime _ => .coinbase version inputs outputs lockTime []
  | tx => .standard 1 inputs tx.getOutputs 0 0 []

def calculateSighash (env : Platform) (tx : Transaction) (inputIndex : Nat)
    (scriptPubkey : Bytes) : ScriptResult Hash :=
  if inputIndex ≥ tx.getInputs.length then fail .verificationFailed
  else
    let inputs := sighashInputs inputIndex scriptPubkey 0 tx.getInputs
    .ok (env.blake3 (env.serializeTransaction (sighashTx tx inputs) ++ leBytes 4 1))

/-- Signature instructions are counted before they pop their operands. -/
def onSigOp (f : Stack → ScriptResult Stack) (e : ScriptEngine) : ScriptResult ScriptEngine :=
  onStack f { e with sigOpCount := e.sigOpCount + 1 }

variable (env : Platform) (ctx : ExecContext) (s : Stack)

def opCheckSig : ScriptResult Stack := do
  let (publicKey, s) ← popData s
  let (signature, s) ← popData s
  if !env.publicKeyFromBytes publicKey then fail .verificationFailed
  else if !env.signatureFromBytes signature then fail .verificationFailed
  else do
    let sighash ← calculateSighash env ctx.tx ctx.inputIndex ctx.scriptPubkey
    return (if env.verify publicKey sighash.toList signature then [1] else []) :: s

def opCheckSigVerify : ScriptResult Stack :=
  opCheckSig env ctx s >>= opVerify

/-- Try the keys in order, up to the first one the signature verifies under. -/
def verifiesUnderSome (env : Platform) (message signature : Bytes) :
    List Bytes → ScriptResult Bool
  | [] => .ok false
  | publicKey :: publicKeys =>
    if !env.signatureFromBytes signature then fail .verificationFailed
    else if !env.publicKeyFromBytes publicKey then fail .verificationFailed
    else if env.verify publicKey message signature then .ok true
    else verifiesUnderSome env message signature publicKeys

/-- The number of signatures that verify under some key. A key is not used up
by the signature it verifies. -/
def verifiedSignatures (env : Platform) (message : Bytes) (publicKeys : List Bytes) :
    List Bytes → ScriptResult Nat
  | [] => .ok 0
  | signature :: signatures => do
    let verified ← verifiesUnderSome env message signature publicKeys
    let n ← verifiedSignatures env message publicKeys signatures
    return (if verified then n + 1 else n)

def opCheckMultiSig :
    ScriptResult Stack := do
  let (numPublicKeys, s) ← popCount s
  if numPublicKeys > s.length then fail .stackUnderflow
  else do
    let (publicKeys, s) ← popMany numPublicKeys s
    let (numSignatures, s) ← popCount s
    if numSignatures > s.length then fail .stackUnderflow
    else do
      let (signatures, s) ← popMany numSignatures s
      let (_, s) ← popData s
      let message ← calculateSighash env ctx.tx ctx.inputIndex ctx.scriptPubkey
      let n ← verifiedSignatures env message.toList publicKeys signatures
      return (if n ≥ numSignatures then [1] else []) :: s

def opCheckMultiSigVerify : ScriptResult Stack :=
  opCheckMultiSig env ctx s >>= opVerify

def opCheckLockTimeVerify (ctx : ExecContext) (s : Stack) : ScriptResult Stack := do
  let (v, s) ← popData s
  let lockTime ← asU32 v
  let txLockTime := ctx.tx.getLockTime
  if txLockTime = 0 then fail .verificationFailed
  else if lockTime > txLockTime then fail .verificationFailed
  else if lockTime < locktimeThreshold then
    if ctx.currentBlockHeight < lockTime.toUInt64 then fail .verificationFailed else return s
  else
    -- a timestamp is estimated at sixty seconds a block
    if ctx.currentBlockHeight * 60 < lockTime.toUInt64 then fail .verificationFailed
    else return s

/-- Bit 31 of either sequence number switches the check off. The lower 16 bits
are compared the same way for relative heights and relative times. -/
def opCheckSequenceVerify (ctx : ExecContext) (s : Stack) : ScriptResult Stack := do
  let (v, s) ← popData s
  let relativeSequence ← asU32 v
  let input ← okOr ctx.tx.getInputs[ctx.inputIndex]? .verificationFailed
  if input.sequence &&& ((1 : UInt32) <<< 31) ≠ 0 then return s
  else if relativeSequence &&& ((1 : UInt32) <<< 31) ≠ 0 then return s
  else if input.sequence &&& 0xFFFF < relativeSequence &&& 0xFFFF then fail .verificationFailed
  else return s

end RustyCoin.ScriptEngine
