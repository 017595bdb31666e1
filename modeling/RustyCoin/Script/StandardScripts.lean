import RustyCoin.Script.Execute

/-!
# Standard scripts

The shortcut of the script engine for outputs that pay to the hash of a public key
or of a script. It does not interpret the scripts: it looks at fixed positions of
their bytes, and it has a signature hash of its own.
-/

namespace RustyCoin

/-- The version that the signature hash of standard scripts covers: kinds without a
version are version one. -/
def Transaction.getVersion : Transaction → UInt32
  | .standard version _ _ _ _ _ => version
  | .coinbase version _ _ _ _ => version
  | .masternodeRegister .. => 1
  | .masternodeCollateral version _ _ _ _ _ _ => version
  | .activateProposal version _ _ _ _ _ _ _ _ => version
  | .ticketPurchase version _ _ _ _ _ _ _ _ => version
  | .ticketRedemption version _ _ _ _ _ _ => version
  | .ticketSlashNonParticipation version _ _ _ _ _ _ _ => version
  | .ticketSlashMalicious version _ _ _ _ _ _ _ => version
  | .governanceProposal _ => 1
  | .governanceVote _ => 1
  | .masternodeSlashTx tx => tx.version

namespace StandardScripts

open Outcome ScriptEngine

def isP2pkh (script : Bytes) : Bool :=
  script.length == 25 && script[0]? == some 0x76 && script[1]? == some 0xa9 &&
    script[2]? == some 0x14 && script[23]? == some 0x88 && script[24]? == some 0xac

def isP2sh (script : Bytes) : Bool :=
  script.length == 23 && script[0]? == some 0xa9 && script[1]? == some 0x14 &&
    script[22]? == some 0x87

def createP2pkh (hash : Bytes) : Bytes :=
  [0x76, 0xa9, 0x14] ++ hash ++ [0x88, 0xac]

/-- `RIPEMD160(SHA256(data))`. -/
def hash160 (env : Platform) (data : Bytes) : Bytes :=
  (env.ripemd160 (env.sha256 data).toList).toList

def encodeVarint (value : UInt64) : Bytes :=
  if value < 0xfd then [value.toUInt8]
  else if value ≤ 0xffff then 0xfd :: leBytes 2 value.toNat
  else if value ≤ 0xffffffff then 0xfe :: leBytes 4 value.toNat
  else 0xff :: leBytes 8 value.toNat

/-- A length and the bytes it counts. -/
def prefixed (bytes : Bytes) : Bytes :=
  encodeVarint (UInt64.ofNat bytes.length) ++ bytes

/-- The inputs in the signature hash, numbered from `i`: the signed one carries the
spent output's script. -/
def sighashInputBytes (inputIndex : Nat) (scriptPubkey : Bytes) : Nat → List TxInput → Bytes
  | _, [] => []
  | i, input :: inputs =>
    input.prevOutHash.toList ++ leBytes 4 input.prevOutIndex.toNat ++
      prefixed (if i = inputIndex then scriptPubkey else []) ++
      leBytes 4 input.sequence.toNat ++ sighashInputBytes inputIndex scriptPubkey (i + 1) inputs

def sighashOutputBytes (output : TxOutput) : Bytes :=
  leBytes 8 output.value.toNat ++ prefixed output.scriptPubkey

def calculateSighash (env : Platform) (tx : Transaction) (inputIndex : Nat)
    (scriptPubkey : Bytes) : ScriptResult Hash :=
  if inputIndex ≥ tx.getInputs.length then fail .verificationFailed
  else
    let sighashInputs := tx.getInputs.map fun input =>
      TxInput.fromOutpoint input.previousOutput [] input.sequence input.witness
    .ok (env.blake3
      (leBytes 4 tx.getVersion.toNat ++ encodeVarint (UInt64.ofNat sighashInputs.length) ++
        sighashInputBytes inputIndex scriptPubkey 0 sighashInputs ++
        encodeVarint (UInt64.ofNat tx.getOutputs.length) ++
        tx.getOutputs.flatMap sighashOutputBytes ++ leBytes 4 tx.getLockTime.toNat ++ leBytes 4 1))

variable (env : Platform) (scriptSig scriptPubkey : Bytes) (tx : Transaction)

/-- The first 64 bytes are taken for the signature, and the last 32 for the key. -/
def verifyP2pkhScript (inputIndex : Nat) : ScriptResult Unit :=
  if scriptSig.length < 96 then fail .verificationFailed
  else
    let signature := scriptSig.take 64
    let publicKey := scriptSig.drop (scriptSig.length - 32)
    if scriptPubkey.length ≠ 25 ∨ scriptPubkey[0]? ≠ some 0x76 ∨ scriptPubkey[1]? ≠ some 0xa9 then
      fail .verificationFailed
    else
      let expectedHash := (scriptPubkey.drop 3).take 20
      if hash160 env publicKey ≠ expectedHash then fail .verificationFailed
      else if !env.publicKeyFromBytes publicKey then fail .verificationFailed
      else if !env.signatureFromBytes signature then fail .verificationFailed
      else do
        let sighash ← calculateSighash env tx inputIndex scriptPubkey
        if env.verify publicKey sighash.toList signature then return ()
        else fail .verificationFailed

/-- The last 32 bytes are taken for the redeem script, which is run alone on the
engine as it is. Its errors are all reported as one. -/
def verifyP2shScript (e : ScriptEngine) : ScriptResult ScriptEngine :=
  if scriptPubkey.length ≠ 23 ∨ scriptPubkey[0]? ≠ some 0xa9 ∨ scriptPubkey[22]? ≠ some 0x87 then
    fail .verificationFailed
  else if scriptSig.isEmpty then fail .verificationFailed
  else
    let redeemScript := scriptSig.drop (scriptSig.length - 32)
    if hash160 env redeemScript ≠ (scriptPubkey.drop 2).take 20 then fail .verificationFailed
    else
      match execute env ⟨tx, 0, 0, scriptPubkey⟩ redeemScript e with
      | .error (.err _) => fail .verificationFailed
      | result => result

end StandardScripts

namespace ScriptEngine

open Outcome StandardScripts

/-- Scripts of another form are interpreted at height zero, and what they leave on
the stack is not looked at. -/
def executeStandardScript (env : Platform) (self : ScriptEngine)
    (scriptSig scriptPubkey : Bytes) (tx : Transaction) (inputIndex : Nat) :
    ScriptResult ScriptEngine :=
  if isP2pkh scriptPubkey then do
    verifyP2pkhScript env scriptSig scriptPubkey tx inputIndex
    return self
  else if isP2sh scriptPubkey then verifyP2shScript env scriptSig scriptPubkey tx self
  else
    execute env ⟨tx, 0, inputIndex, scriptPubkey⟩ (scriptSig ++ scriptPubkey)
      (self.resetFor self.sigOpCount)

end ScriptEngine

end RustyCoin
