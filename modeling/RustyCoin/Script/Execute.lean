import RustyCoin.Consensus.UtxoSet
import RustyCoin.Lib.Loop
import RustyCoin.Script.Checks

/-!
# The script engine: the interpreter loop

Bytes without an instruction of their own, the direct pushes `0x01` to `0x4b` of
other script languages among them, decode to `opInvalidOpcode`.

`execute` reads a script byte by byte. The position in the script is kept as the
list of bytes still to be read. While `skipDepth` is positive an instruction is
counted but not executed; the bytes of a skipped push are then read as opcodes
in their turn.

The engine is not reset between two calls of `execute`: `verifyScript` hands the
state that the unlocking script leaves to the run of the locking script, and
requires it to leave a single true item. `validate_transaction` joins the two
scripts of every input and runs the result in one go. The signature operations are
counted over all inputs. A script error makes the answer `false`; an abort in a
script is no answer.
-/

namespace RustyCoin

inductive Opcode where
  | op0
  | opPushdata1
  | opPushdata2
  | opPushdata4
  | op1
  | op2
  | op3
  | op4
  | op5
  | op6
  | op7
  | op8
  | op9
  | op10
  | op11
  | op12
  | op13
  | op14
  | op15
  | op16
  | opNop
  | opIf
  | opNotIf
  | opElse
  | opEndIf
  | opVerify
  | opReturn
  | opToAltStack
  | opFromAltStack
  | opIfDup
  | opDepth
  | opDrop
  | opDup
  | opNip
  | opOver
  | opPick
  | opRoll
  | opRot
  | opSwap
  | opTuck
  | op2Drop
  | op2Dup
  | op3Dup
  | op2Over
  | op2Rot
  | op2Swap
  | opCat
  | opSubStr
  | opLeft
  | opRight
  | opSize
  | opInvert
  | opAnd
  | opOr
  | opXor
  | opEqual
  | opEqualverify
  | op1Add
  | op1Sub
  | op2Mul
  | op2Div
  | opNegate
  | opAbs
  | opNot
  | op0NotEqual
  | opAdd
  | opSub
  | opMul
  | opDiv
  | opMod
  | opLShift
  | opRShift
  | opBoolAnd
  | opBoolOr
  | opNumEqual
  | opNumEqualVerify
  | opNumNotEqual
  | opLessThan
  | opGreaterThan
  | opLessThanOrEqual
  | opGreaterThanOrEqual
  | opMin
  | opMax
  | opWithin
  | opRipemd160
  | opSha1
  | opSha256
  | opHash160
  | opHash256
  | opCodeSeparator
  | opCheckSig
  | opCheckSigVerify
  | opCheckMultiSig
  | opCheckMultiSigVerify
  | opCheckLockTimeVerify
  | opCheckSequenceVerify
  | opInvalidOpcode
  deriving DecidableEq, Repr

namespace Opcode

/-- `Opcode::from(u8)`. -/
def ofByte (byte : UInt8) : Opcode :=
  match byte with
  | 0x00 => .op0
  | 0x4c => .opPushdata1
  | 0x4d => .opPushdata2
  | 0x4e => .opPushdata4
  | 0x51 => .op1
  | 0x52 => .op2
  | 0x53 => .op3
  | 0x54 => .op4
  | 0x55 => .op5
  | 0x56 => .op6
  | 0x57 => .op7
  | 0x58 => .op8
  | 0x59 => .op9
  | 0x5a => .op10
  | 0x5b => .op11
  | 0x5c => .op12
  | 0x5d => .op13
  | 0x5e => .op14
  | 0x5f => .op15
  | 0x60 => .op16
  | 0x61 => .opNop
  | 0x63 => .opIf
  | 0x64 => .opNotIf
  | 0x67 => .opElse
  | 0x68 => .opEndIf
  | 0x69 => .opVerify
  | 0x6a => .opReturn
  | 0x6b => .opToAltStack
  | 0x6c => .opFromAltStack
  | 0x73 => .opIfDup
  | 0x74 => .opDepth
  | 0x75 => .opDrop
  | 0x76 => .opDup
  | 0x77 => .opNip
  | 0x78 => .opOver
  | 0x79 => .opPick
  | 0x7a => .opRoll
  | 0x7b => .opRot
  | 0x7c => .opSwap
  | 0x7d => .opTuck
  | 0x6d => .op2Drop
  | 0x6e => .op2Dup
  | 0x6f => .op3Dup
  | 0x70 => .op2Over
  | 0x71 => .op2Rot
  | 0x72 => .op2Swap
  | 0x7e => .opCat
  | 0x7f => .opSubStr
  | 0x80 => .opLeft
  | 0x81 => .opRight
  | 0x82 => .opSize
  | 0x83 => .opInvert
  | 0x84 => .opAnd
  | 0x85 => .opOr
  | 0x86 => .opXor
  | 0x87 => .opEqual
  | 0x88 => .opEqualverify
  | 0x8b => .op1Add
  | 0x8c => .op1Sub
  | 0x8d => .op2Mul
  | 0x8e => .op2Div
  | 0x8f => .opNegate
  | 0x90 => .opAbs
  | 0x91 => .opNot
  | 0x92 => .op0NotEqual
  | 0x93 => .opAdd
  | 0x94 => .opSub
  | 0x95 => .opMul
  | 0x96 => .opDiv
  | 0x97 => .opMod
  | 0x98 => .opLShift
  | 0x99 => .opRShift
  | 0x9a => .opBoolAnd
  | 0x9b => .opBoolOr
  | 0x9c => .opNumEqual
  | 0x9d => .opNumEqualVerify
  | 0x9e => .opNumNotEqual
  | 0x9f => .opLessThan
  | 0xa0 => .opGreaterThan
  | 0xa1 => .opLessThanOrEqual
  | 0xa2 => .opGreaterThanOrEqual
  | 0xa3 => .opMin
  | 0xa4 => .opMax
  | 0xa5 => .opWithin
  | 0xa6 => .opRipemd160
  | 0xa7 => .opSha1
  | 0xa8 => .opSha256
  | 0xa9 => .opHash160
  | 0xaa => .opHash256
  | 0xab => .opCodeSeparator
  | 0xac => .opCheckSig
  | 0xad => .opCheckSigVerify
  | 0xae => .opCheckMultiSig
  | 0xaf => .opCheckMultiSigVerify
  | 0xb1 => .opCheckLockTimeVerify
  | 0xb2 => .opCheckSequenceVerify
  | _ => .opInvalidOpcode

end Opcode

namespace ScriptEngine

open Outcome

section

variable (env : Platform) (ctx : ExecContext)

variable (e : ScriptEngine)

def shouldSkip : Bool :=
  e.skipDepth > 0

/-- The condition an `OP_IF` family instruction takes from the stack: missing
operands count as false for both instructions. -/
def popCondition (holds : Bytes → Bool) (s : Stack) : Bool × Stack :=
  match s with
  | [] => (false, [])
  | v :: rest => (holds v, rest)

/-- Enter a branch, skipping it when its condition is false. -/
def enterBranch (holds : Bytes → Bool) (e : ScriptEngine) : ScriptResult ScriptEngine :=
  if e.skipDepth > 0 then .ok { e with skipDepth := e.skipDepth + 1 }
  else
    let (condition, stack) := popCondition holds e.stack
    .ok { e with
      stack := stack
      controlStack := condition :: e.controlStack
      skipDepth := if condition then e.skipDepth else 1 }

def opIf : ScriptEngine → ScriptResult ScriptEngine :=
  enterBranch fun v => !isFalse v

def opNotIf : ScriptEngine → ScriptResult ScriptEngine :=
  enterBranch fun v => isFalse v

def opElse : ScriptResult ScriptEngine :=
  if e.skipDepth > 0 then .ok { e with skipDepth := if e.skipDepth = 1 then 0 else e.skipDepth }
  else
    match e.controlStack with
    | [] => fail .invalidStackState
    | condition :: rest =>
      .ok { e with
        controlStack := (!condition) :: rest
        skipDepth := if condition then 1 else e.skipDepth }

def opEndIf : ScriptResult ScriptEngine :=
  if e.skipDepth > 0 then .ok { e with skipDepth := e.skipDepth - 1 }
  else
    match e.controlStack with
    | [] => fail .invalidStackState
    | _ :: rest => .ok { e with controlStack := rest }

def opToAltStack : ScriptResult ScriptEngine := do
  let (val, stack) ← popData e.stack
  return { e with stack := stack, altStack := val :: e.altStack }

def opFromAltStack : ScriptResult ScriptEngine :=
  match e.altStack with
  | [] => fail .stackUnderflow
  | val :: rest => .ok { e with stack := val :: e.stack, altStack := rest }

/-- The engine and the bytes it has still to read. -/
structure Config where
  engine : ScriptEngine
  rest : Bytes
  deriving DecidableEq, Repr

/-- Push the item whose length stands in the next `lenBytes` bytes. -/
def pushDataN (lenBytes : Nat) (c : Config) : ScriptResult Config := do
  let (lenData, rest) ← readBytes c.rest lenBytes
  let len ← asUsize lenData
  let (data, rest) ← readBytes rest len.toNat
  let engine ← pushData data c.engine
  return ⟨engine, rest⟩

/-- Run an instruction that reads no script bytes of its own. -/
def plain (f : ScriptEngine → ScriptResult ScriptEngine) (c : Config) : ScriptResult Config := do
  let engine ← f c.engine
  return { c with engine }

/-- The effect of one instruction that is not skipped. -/
def dispatch (opcode : Opcode) : Config → ScriptResult Config :=
  match opcode with
  | .op0 => plain (pushData [])
  | .opPushdata1 => pushDataN 1
  | .opPushdata2 => pushDataN 2
  | .opPushdata4 => pushDataN 4
  | .op1 => plain (pushData [0x01])
  | .op2 => plain (pushData [0x02])
  | .op3 => plain (pushData [0x03])
  | .op4 => plain (pushData [0x04])
  | .op5 => plain (pushData [0x05])
  | .op6 => plain (pushData [0x06])
  | .op7 => plain (pushData [0x07])
  | .op8 => plain (pushData [0x08])
  | .op9 => plain (pushData [0x09])
  | .op10 => plain (pushData [0x0a])
  | .op11 => plain (pushData [0x0b])
  | .op12 => plain (pushData [0x0c])
  | .op13 => plain (pushData [0x0d])
  | .op14 => plain (pushData [0x0e])
  | .op15 => plain (pushData [0x0f])
  | .op16 => plain (pushData [0x10])
  | .opDup => plain (onStack opDup)
  | .opHash160 => plain (onStack (opHash160 env))
  | .opEqual => plain (onStack opEqual)
  | .opEqualverify => plain (onStack opEqualVerify)
  | .opVerify => plain (onStack opVerify)
  | .opCheckSig => plain (onSigOp (opCheckSig env ctx))
  | .opCheckMultiSig => plain (onSigOp (opCheckMultiSig env ctx))
  | .opCheckLockTimeVerify => plain (onStack (opCheckLockTimeVerify ctx))
  | .opCheckSequenceVerify => plain (onStack (opCheckSequenceVerify ctx))
  | .opReturn => fun _ => fail .opReturn
  | .opNop => .ok
  | .opInvalidOpcode => fun _ => fail .invalidOpcode
  | .opRipemd160 => plain (onStack (opRipemd160 env))
  | .opSha1 => plain (onStack (opSha1 env))
  | .opSha256 => plain (onStack (opSha256 env))
  | .opHash256 => plain (onStack (opHash256 env))
  | .opCodeSeparator => .ok
  | .opCheckSigVerify => plain (onSigOp (opCheckSigVerify env ctx))
  | .opCheckMultiSigVerify => plain (onSigOp (opCheckMultiSigVerify env ctx))
  | .opIf => plain opIf
  | .opNotIf => plain opNotIf
  | .opElse => plain opElse
  | .opEndIf => plain opEndIf
  | .opToAltStack => plain opToAltStack
  | .opFromAltStack => plain opFromAltStack
  | .opDrop => plain (onStack opDrop)
  | .opNip => plain (onStack opNip)
  | .opOver => plain (onStack opOver)
  | .opPick => plain (onStack opPick)
  | .opRoll => plain (onStack opRoll)
  | .opRot => plain (onStack opRot)
  | .opSwap => plain (onStack opSwap)
  | .opTuck => plain (onStack opTuck)
  | .op2Drop => plain (onStack op2Drop)
  | .op2Dup => plain (onStack op2Dup)
  | .op3Dup => plain (onStack op3Dup)
  | .op2Over => plain (onStack op2Over)
  | .op2Rot => plain (onStack op2Rot)
  | .op2Swap => plain (onStack op2Swap)
  | .opCat => plain (onStack opCat)
  | .opSubStr => plain (onStack opSubstr)
  | .opLeft => plain (onStack opLeft)
  | .opRight => plain (onStack opRight)
  | .opSize => plain (onStack opSize)
  | .opInvert => plain (onStack opInvert)
  | .opAnd => plain (onStack opAnd)
  | .opOr => plain (onStack opOr)
  | .opXor => plain (onStack opXor)
  | _ => fun _ => fail .invalidOpcode

/-- The effect of one instruction while a branch is being skipped. -/
def skipOpcode (opcode : Opcode) (e : ScriptEngine) : ScriptEngine :=
  match opcode with
  | .opIf | .opNotIf => { e with skipDepth := e.skipDepth + 1 }
  | .opElse => { e with skipDepth := if e.skipDepth = 1 then 0 else e.skipDepth }
  | .opEndIf => { e with skipDepth := e.skipDepth - 1 }
  | _ => e

def countOpcode : ScriptEngine :=
  { e with opcodeCount := e.opcodeCount + 1 }

@[simp] theorem countOpcode_skipDepth : e.countOpcode.skipDepth = e.skipDepth := rfl

@[simp] theorem countOpcode_controlStack : e.countOpcode.controlStack = e.controlStack := rfl

/-- The stack limit is checked after every instruction that is not skipped. -/
def checkDepth (c : Config) : ScriptResult Config :=
  if c.engine.stack.length > maxStackDepth then fail .stackOverflow else .ok c

/-- The body of the interpreter loop, entered with `byte` as the next byte. -/
def stepByte (byte : UInt8) (rest : Bytes) : ScriptResult Config :=
  if e.opcodeCount ≥ maxOpcodeCount then fail .tooManyOpcodes
  else if e.shouldSkip then .ok ⟨skipOpcode (.ofByte byte) e.countOpcode, rest⟩
  else dispatch env ctx (.ofByte byte) ⟨e.countOpcode, rest⟩ >>= checkDepth

/-- One iteration of the interpreter loop: none at the end of the script. -/
def step (c : Config) : Option (ScriptResult Config) :=
  match c.rest with
  | [] => none
  | byte :: rest => some (stepByte env ctx c.engine byte rest)

/-- Every iteration consumes a byte, so the script's length bounds the loop. -/
def execute (script : Bytes) (e : ScriptEngine) : ScriptResult ScriptEngine :=
  if script.length > maxScriptBytes then fail .scriptTooLarge
  else do
    let c ← Loop.run (step env ctx) script.length ⟨e, script⟩
    return c.engine

end

variable {ε : Type} (env : Platform)

/-- Both scripts see height zero and the locking script of the spent output. -/
def verifyContext (tx : Transaction) (inputIndex : Nat) (scriptPubkey : Bytes) : ExecContext where
  tx := tx
  currentBlockHeight := 0
  inputIndex := inputIndex
  scriptPubkey := scriptPubkey

/-- Run the unlocking script, then the locking script on the same engine. -/
def executeBoth (ctx : ExecContext) (scriptSig : Bytes) (e : ScriptEngine) :
    ScriptResult ScriptEngine := do
  let e ← execute env ctx scriptSig e
  execute env ctx ctx.scriptPubkey e

/-- Exactly one item remains and it is true. -/
def finalCheck (e : ScriptEngine) : ScriptResult Unit := do
  let (result, stack) ← popData e.stack
  if isFalse result || !stack.isEmpty then fail .verificationFailed else return ()

def verifyScript (scriptSig scriptPubkey : Bytes) (tx : Transaction) (inputIndex : Nat) :
    ScriptResult Unit :=
  if scriptSig.length > maxScriptBytes then fail .scriptTooLarge
  else if scriptPubkey.length > maxScriptBytes then fail .scriptTooLarge
  else do
    let e ← executeBoth env (verifyContext tx inputIndex scriptPubkey) scriptSig new
    finalCheck e

/-- Clear an engine for the next input, with the signature operations counted so
far in the transaction. -/
def resetFor (e : ScriptEngine) (sigOpCount : Nat) : ScriptEngine :=
  { e with
    stack := [], altStack := [], opcodeCount := 0
    sigOpCount := sigOpCount, controlStack := [], skipDepth := 0 }

/-- The result and the transaction's signature operation count after the call:
a script that fails leaves the count as it was. -/
def verifyScriptWithSigOpCount (self : ScriptEngine) (scriptSig scriptPubkey : Bytes)
    (tx : Transaction) (inputIndex : Nat) (transactionSigOpCount : Nat) :
    ScriptResult Unit × Nat :=
  if scriptSig.length > maxScriptBytes then (fail .scriptTooLarge, transactionSigOpCount)
  else if scriptPubkey.length > maxScriptBytes then (fail .scriptTooLarge, transactionSigOpCount)
  else
    match executeBoth env (verifyContext tx inputIndex scriptPubkey) scriptSig
        (self.resetFor transactionSigOpCount) with
    | .error e => (.error e, transactionSigOpCount)
    | .ok e =>
      (if e.sigOpCount > maxSigOps then fail .tooManySigOps else finalCheck e, e.sigOpCount)

variable (tx : Transaction) (utxoSet : UtxoSet) (currentBlockHeight : UInt64)

/-- The engine after an input, or `none` if the input is not accepted. The final
item is left on the stack: the next input starts by clearing it. -/
def validateInput (self : ScriptEngine) (input : TxInput) (inputIndex : Nat) :
    Outcome ε (Option ScriptEngine) :=
  match utxoSet.getUtxo input.previousOutput with
  | none => .ok none
  | some prevOutput =>
    let scriptPubkey := prevOutput.output.scriptPubkey
    let ctx : ExecContext := ⟨tx, currentBlockHeight, inputIndex, scriptPubkey⟩
    attempt do
      let e ← execute env ctx (input.scriptSig ++ scriptPubkey)
        (self.resetFor self.sigOpCount)
      finalCheck e
      return e

def validateInputs : List (TxInput × Nat) → ScriptEngine → Outcome ε Bool
  | [], _ => .ok true
  | (input, inputIndex) :: rest, e => do
    match ← validateInput env tx utxoSet currentBlockHeight e input inputIndex with
    | none => return false
    | some e => validateInputs rest e

def validateTransaction (self : ScriptEngine) : Outcome ε Bool :=
  if tx.isCoinbase then .ok true
  else
    validateInputs env tx utxoSet currentBlockHeight tx.getInputs.zipIdx
      { self with sigOpCount := 0 }

end ScriptEngine

end RustyCoin
