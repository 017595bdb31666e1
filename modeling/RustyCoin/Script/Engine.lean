import RustyCoin.Lib.Outcome
import RustyCoin.Types.Platform

/-!
# The script engine: state and instructions

The engine's state and its instructions. The top of every stack is the head of
its list. Most instructions read and rewrite the data stack only; they are
written as functions on that stack and lifted to the engine by `onStack`, so
that what an instruction leaves alone is visible from its definition.

Indexing an empty stack item and slicing past the end of one abort in the source
and are `panic` here; every other failure is an error value.
-/

namespace RustyCoin

inductive ScriptError where
  | invalidOpcode
  | stackUnderflow
  | stackOverflow
  | invalidStackState
  | scriptTooLarge
  | tooManyOpcodes
  | tooManySigOps
  | tooManyOperations
  | verificationFailed
  | opReturn
  | notImplemented
  deriving DecidableEq, Repr

abbrev Stack : Type := List Bytes

structure ScriptEngine where
  stack : Stack
  altStack : Stack
  opcodeCount : Nat
  sigOpCount : Nat
  controlStack : List Bool
  skipDepth : Nat
  deriving DecidableEq, Repr

/-- What a call of `execute` is told besides the script. -/
structure ExecContext where
  tx : Transaction
  currentBlockHeight : UInt64
  inputIndex : Nat
  scriptPubkey : Bytes

abbrev ScriptResult (α : Type) : Type := Outcome ScriptError α

def maxScriptBytes : Nat := 10000
def maxOpcodeCount : Nat := 200
def maxStackDepth : Nat := 100
def maxSigOps : Nat := 20

namespace ScriptEngine

open Outcome

def new : ScriptEngine where
  stack := []
  altStack := []
  opcodeCount := 0
  sigOpCount := 0
  controlStack := []
  skipDepth := 0

/-- An item is false when it is empty or a single zero byte. -/
def isFalse (v : Bytes) : Bool :=
  match v with
  | [] => true
  | [b] => b == 0
  | _ => false

def asUsize (v : Bytes) : ScriptResult UInt64 :=
  if v.length ≤ 8 then .ok (UInt64.ofNat (leValue v)) else fail .invalidStackState

def asU32 (v : Bytes) : ScriptResult UInt32 :=
  if v.length ≤ 4 then .ok (UInt32.ofNat (leValue v)) else fail .invalidStackState

def popData (s : Stack) : ScriptResult (Bytes × Stack) :=
  match s with
  | [] => fail .stackUnderflow
  | a :: rest => .ok (a, rest)

/-- Pop `n` items, the first one popped first in the list. -/
def popMany : Nat → Stack → ScriptResult (List Bytes × Stack)
  | 0, s => .ok ([], s)
  | n + 1, s => do
    let (a, s) ← popData s
    let (as, s) ← popMany n s
    return (a :: as, s)

/-- `pop_data()?[0]`: the index aborts on an empty item. -/
def popCount (s : Stack) : ScriptResult (Nat × Stack) := do
  let (v, s) ← popData s
  match v with
  | [] => .error .panic
  | b :: _ => return (b.toNat, s)

def readBytes (rest : Bytes) (numBytes : Nat) : ScriptResult (Bytes × Bytes) :=
  if numBytes > rest.length then fail .scriptTooLarge
  else .ok (rest.take numBytes, rest.drop numBytes)

/-- Run an instruction that reads and rewrites the data stack only. -/
def onStack (f : Stack → ScriptResult Stack) (e : ScriptEngine) :
    ScriptResult ScriptEngine := do
  let stack ← f e.stack
  return { e with stack }

def pushData (data : Bytes) : ScriptEngine → ScriptResult ScriptEngine :=
  onStack fun s => .ok (data :: s)

variable (s : Stack)

def opDup : ScriptResult Stack := do
  let (a, s) ← popData s
  return a :: a :: s

def opEqual : ScriptResult Stack := do
  let (b, s) ← popData s
  let (a, s) ← popData s
  return (if a = b then [1] else []) :: s

def opVerify : ScriptResult Stack := do
  let (top, s) ← popData s
  if isFalse top then fail .verificationFailed else return s

def opEqualVerify : ScriptResult Stack :=
  opEqual s >>= opVerify

/-- The four hash instructions replace the top item by a digest of it. -/
def opDigest (digest : Bytes → Bytes) (s : Stack) : ScriptResult Stack := do
  let (data, s) ← popData s
  return digest data :: s

variable (env : Platform)

def opHash160 : Stack → ScriptResult Stack :=
  opDigest fun data => (env.ripemd160 (env.sha256 data).toList).toList

def opRipemd160 : Stack → ScriptResult Stack :=
  opDigest fun data => (env.ripemd160 data).toList

def opSha1 : Stack → ScriptResult Stack :=
  opDigest fun data => (env.sha1 data).toList

def opSha256 : Stack → ScriptResult Stack :=
  opDigest fun data => (env.sha256 data).toList

def opHash256 : Stack → ScriptResult Stack :=
  opDigest fun data => (env.sha256 (env.sha256 data).toList).toList

def opDrop : ScriptResult Stack := do
  let (_, s) ← popData s
  return s

def opNip : ScriptResult Stack := do
  let (x2, s) ← popData s
  let (_, s) ← popData s
  return x2 :: s

def opOver : ScriptResult Stack := do
  let (x2, s) ← popData s
  let (x1, s) ← popData s
  return x1 :: x2 :: x1 :: s

def opPick : ScriptResult Stack := do
  let (v, s) ← popData s
  let n ← asUsize v
  let val ← okOr s[n.toNat]? .stackUnderflow
  return val :: s

def opRoll : ScriptResult Stack := do
  let (v, s) ← popData s
  let n ← asUsize v
  let val ← okOr s[n.toNat]? .stackUnderflow
  return val :: s.eraseIdx n.toNat

def opRot : ScriptResult Stack := do
  let (x3, s) ← popData s
  let (x2, s) ← popData s
  let (x1, s) ← popData s
  return x1 :: x3 :: x2 :: s

def opSwap : ScriptResult Stack := do
  let (x2, s) ← popData s
  let (x1, s) ← popData s
  return x1 :: x2 :: s

def opTuck : ScriptResult Stack := do
  let (x2, s) ← popData s
  let (x1, s) ← popData s
  return x2 :: x1 :: x2 :: s

def op2Drop : ScriptResult Stack := do
  let (_, s) ← popData s
  let (_, s) ← popData s
  return s

def op2Dup : ScriptResult Stack := do
  let (x2, s) ← popData s
  let (x1, s) ← popData s
  return x2 :: x1 :: x2 :: x1 :: s

def op3Dup : ScriptResult Stack := do
  let (x3, s) ← popData s
  let (x2, s) ← popData s
  let (x1, s) ← popData s
  return x3 :: x2 :: x1 :: x3 :: x2 :: x1 :: s

def op2Over : ScriptResult Stack := do
  let (x4, s) ← popData s
  let (x3, s) ← popData s
  let (x2, s) ← popData s
  let (x1, s) ← popData s
  return x2 :: x1 :: x4 :: x3 :: x2 :: x1 :: s

def op2Rot : ScriptResult Stack := do
  let (x6, s) ← popData s
  let (x5, s) ← popData s
  let (x4, s) ← popData s
  let (x3, s) ← popData s
  let (x2, s) ← popData s
  let (x1, s) ← popData s
  return x2 :: x1 :: x6 :: x5 :: x4 :: x3 :: s

def op2Swap : ScriptResult Stack := do
  let (x4, s) ← popData s
  let (x3, s) ← popData s
  let (x2, s) ← popData s
  let (x1, s) ← popData s
  return x2 :: x1 :: x4 :: x3 :: s

def opCat : ScriptResult Stack := do
  let (b, s) ← popData s
  let (a, s) ← popData s
  return (a ++ b) :: s

/-- `offset + size` wraps, so the bound check can pass with a slice that starts
after it ends; that slice aborts. -/
def opSubstr : ScriptResult Stack := do
  let (v, s) ← popData s
  let size ← asUsize v
  let (v, s) ← popData s
  let offset ← asUsize v
  let (data, s) ← popData s
  if (offset + size).toNat > data.length then fail .invalidStackState
  else if offset > offset + size then .error .panic
  else return (data.drop offset.toNat).take size.toNat :: s

def opLeft : ScriptResult Stack := do
  let (v, s) ← popData s
  let size ← asUsize v
  let (data, s) ← popData s
  if size.toNat > data.length then fail .invalidStackState
  else return data.take size.toNat :: s

def opRight : ScriptResult Stack := do
  let (v, s) ← popData s
  let size ← asUsize v
  let (data, s) ← popData s
  if size.toNat > data.length then fail .invalidStackState
  else return data.drop (data.length - size.toNat) :: s

def opSize : ScriptResult Stack := do
  let (data, s) ← popData s
  return leBytes 8 data.length :: data :: s

def opInvert : ScriptResult Stack := do
  let (data, s) ← popData s
  return data.map (fun b => ~~~b) :: s

/-- `op_and`, `op_or` and `op_xor` combine two items of one length bytewise. -/
def opBitwise (f : UInt8 → UInt8 → UInt8) (s : Stack) : ScriptResult Stack := do
  let (b, s) ← popData s
  let (a, s) ← popData s
  if a.length ≠ b.length then fail .invalidStackState
  else return List.zipWith f a b :: s

def opAnd : Stack → ScriptResult Stack := opBitwise (· &&& ·)
def opOr : Stack → ScriptResult Stack := opBitwise (· ||| ·)
def opXor : Stack → ScriptResult Stack := opBitwise (· ^^^ ·)

end ScriptEngine

end RustyCoin
