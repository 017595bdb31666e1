import RustyCoin.Script.Aborts

/-!
# Runs of scripts, byte by byte

The interpreter loop as a recursion over the bytes that are left: `runFrom` gives
the outcome of a run from any state of the loop, and `traceFrom` the states in
which the body is entered. `Config.run_induct` is the induction that belongs to
them, with the states that an iteration leads to as its hypotheses.

An instruction depends on the bytes after it only through its operand. With that,
`stepByte_append` compares an instruction at the end of a script with the same
instruction in front of more bytes.
-/

namespace RustyCoin.ScriptEngine

open Outcome List

variable (env : Platform) (ctx : ExecContext)

/-- The outcome of the loop from a state of it. -/
def runFrom (c : Config) : ScriptResult Config :=
  Loop.run (step env ctx) c.rest.length c

/-- The states in which the loop body is entered, from a state of the loop on. -/
def traceFrom (c : Config) : List Config :=
  Loop.trace (step env ctx) c.rest.length c

section

variable {env ctx}

variable (e : ScriptEngine)

@[simp] theorem runFrom_nil : runFrom env ctx ⟨e, []⟩ = .ok ⟨e, []⟩ := rfl

@[simp] theorem traceFrom_nil : traceFrom env ctx ⟨e, []⟩ = [] := rfl

variable {e : ScriptEngine} {byte : UInt8} {rest : Bytes} {c' : Config}

variable (h : stepByte env ctx e byte rest = .ok c')

include h

theorem stepByte_rest_le : c'.rest.length ≤ rest.length :=
  Nat.le_of_lt_succ (step_rest_lt (c := ⟨e, byte :: rest⟩) (congrArg some h))

theorem runFrom_step : runFrom env ctx ⟨e, byte :: rest⟩ = runFrom env ctx c' := by
  have hstep : step env ctx ⟨e, byte :: rest⟩ = some (.ok c') := congrArg some h
  rw [runFrom, length_cons, Loop.run_step hstep]
  exact (Loop.run_congr_fuel (fun c : Config => c.rest.length) (fun _ _ => step_rest_lt)
    (fun _ _ => step_rest_pos) (stepByte_rest_le h) (Nat.le_refl _)).1

theorem traceFrom_step :
    traceFrom env ctx ⟨e, byte :: rest⟩ =
      ⟨e, byte :: rest⟩ :: traceFrom env ctx c' := by
  have hstep : step env ctx ⟨e, byte :: rest⟩ = some (.ok c') := congrArg some h
  rw [traceFrom, length_cons, Loop.trace_step hstep]
  exact congrArg _ (Loop.run_congr_fuel (fun c : Config => c.rest.length) (fun _ _ => step_rest_lt)
    (fun _ _ => step_rest_pos) (stepByte_rest_le h) (Nat.le_refl _)).2

omit h

variable {failure : Failure ScriptError}

theorem runFrom_error
    (h : stepByte env ctx e byte rest = .error failure) :
    runFrom env ctx ⟨e, byte :: rest⟩ = .error failure := by
  have hstep : step env ctx ⟨e, byte :: rest⟩ = some (.error failure) := congrArg some h
  exact Loop.run_error hstep

theorem traceFrom_error
    (h : stepByte env ctx e byte rest = .error failure) :
    traceFrom env ctx ⟨e, byte :: rest⟩ = [⟨e, byte :: rest⟩] := by
  have hstep : step env ctx ⟨e, byte :: rest⟩ = some (.error failure) := congrArg some h
  exact Loop.trace_error hstep

theorem runFrom_cons (byte : UInt8) (rest : Bytes) :
    runFrom env ctx ⟨e, byte :: rest⟩ =
      stepByte env ctx e byte rest >>= runFrom env ctx := by
  cases h : stepByte env ctx e byte rest with
  | error failure => exact runFrom_error h
  | ok c' => exact runFrom_step h

theorem mem_traceFrom_cons {c : Config} :
    c ∈ traceFrom env ctx ⟨e, byte :: rest⟩ ↔
      c = ⟨e, byte :: rest⟩ ∨
        ∃ c', stepByte env ctx e byte rest = .ok c' ∧ c ∈ traceFrom env ctx c' := by
  cases h : stepByte env ctx e byte rest with
  | error failure => simp [traceFrom_error h]
  | ok c' => simp [traceFrom_step h]

end

/-- Induction along the interpreter loop: a state is reached through the iteration
that leads on from it. -/
theorem Config.run_induct {motive : Config → Prop} (nil : ∀ e, motive ⟨e, []⟩)
    (cons : ∀ e byte rest,
      (∀ c', stepByte env ctx e byte rest = .ok c' → motive c') →
        motive ⟨e, byte :: rest⟩) (c : Config) : motive c := by
  obtain ⟨e, bytes⟩ := c
  generalize hlen : bytes.length = n
  induction n using Nat.strong_induction_on generalizing e bytes with
  | h n ih =>
    cases bytes with
    | nil => exact nil e
    | cons byte rest =>
      refine cons e byte rest fun c' hstep => ?_
      have hle := stepByte_rest_le hstep
      rw [length_cons] at hlen
      exact ih c'.rest.length (by omega) c'.engine c'.rest rfl

theorem execute_eq_runFrom {script : Bytes} (hsize : script.length ≤ maxScriptBytes)
    (e : ScriptEngine) :
    execute env ctx script e = do
      let c ← runFrom env ctx ⟨e, script⟩
      return c.engine := by
  rw [execute, if_neg (Nat.not_lt.mpr hsize)]
  rfl

theorem executeTrace_eq_traceFrom (script : Bytes) (e : ScriptEngine) :
    executeTrace env ctx script e = traceFrom env ctx ⟨e, script⟩ := rfl

section

/-- How many bytes give the length of a push; other instructions have no operand. -/
def pushWidth : Opcode → Nat
  | .opPushdata1 => 1
  | .opPushdata2 => 2
  | .opPushdata4 => 4
  | _ => 0

/-- The number of bytes that an instruction reads after its opcode, as the bytes
that give the length of a push say it. -/
def operandLength (opcode : Opcode) (rest : Bytes) : Nat :=
  pushWidth opcode + leValue (rest.take (pushWidth opcode))

variable {env ctx}

theorem pushWidth_le (opcode : Opcode) : pushWidth opcode ≤ 4 := by
  cases opcode
  all_goals decide

theorem dispatch_push {opcode : Opcode} (h : pushWidth opcode ≠ 0) :
    dispatch env ctx opcode = pushDataN (pushWidth opcode) := by
  cases opcode
  case opPushdata1 => rfl
  case opPushdata2 => rfl
  case opPushdata4 => rfl
  all_goals exact absurd rfl h

theorem dispatch_plain (env : Platform) (ctx : ExecContext) {opcode : Opcode}
    (h : pushWidth opcode = 0) : ∃ f, ∀ c, dispatch env ctx opcode c = plain f c := by
  cases opcode
  case opPushdata1 => cases h
  case opPushdata2 => cases h
  case opPushdata4 => cases h
  case opNop => exact ⟨.ok, fun _ => rfl⟩
  case opCodeSeparator => exact ⟨.ok, fun _ => rfl⟩
  case opReturn => exact ⟨fun _ => fail .opReturn, fun _ => rfl⟩
  all_goals
    first
      | exact ⟨_, fun _ => rfl⟩
      | exact ⟨fun _ => fail .invalidOpcode, fun _ => rfl⟩

variable {e : ScriptEngine} {n : Nat} {rest : Bytes}

theorem asUsize_take (hn : n ≤ 4) (rest : Bytes) :
    ∃ len, asUsize (rest.take n) = .ok len ∧ len.toNat = leValue (rest.take n) := by
  have hlen : (rest.take n).length ≤ 4 := by
    rw [length_take]
    omega
  refine ⟨_, if_pos (by omega), UInt64.toNat_ofNat_of_lt' ?_⟩
  calc leValue (rest.take n) < 256 ^ (rest.take n).length := leValue_lt _
    _ ≤ 256 ^ 4 := Nat.pow_le_pow_right (by decide) hlen
    _ < UInt64.size := by decide

/-- A push takes its payload from the bytes after its length. -/
theorem pushDataN_of_le (hn : n ≤ 4) (hle : n + leValue (rest.take n) ≤ rest.length) :
    pushDataN n ⟨e, rest⟩ = .ok
      ⟨{ e with stack := (rest.drop n).take (leValue (rest.take n)) :: e.stack },
        rest.drop (n + leValue (rest.take n))⟩ := by
  obtain ⟨len, hlen, hvalue⟩ := asUsize_take hn rest
  have hwidth : readBytes rest n = .ok (rest.take n, rest.drop n) :=
    readBytes_eq_ok.mpr ⟨by omega, rfl, rfl⟩
  have hdata : readBytes (rest.drop n) len.toNat =
      .ok ((rest.drop n).take len.toNat, (rest.drop n).drop len.toNat) :=
    readBytes_eq_ok.mpr ⟨by rw [length_drop]; omega, rfl, rfl⟩
  rw [hvalue] at hdata
  simp [pushDataN, hwidth, hlen, hvalue, hdata, pushData, onStack]

theorem pushDataN_of_lt (hn : n ≤ 4) (hlt : rest.length < n + leValue (rest.take n)) :
    pushDataN n ⟨e, rest⟩ = fail .scriptTooLarge := by
  obtain ⟨len, hlen, hvalue⟩ := asUsize_take hn rest
  by_cases hle : n ≤ rest.length
  · have hwidth : readBytes rest n = .ok (rest.take n, rest.drop n) :=
      readBytes_eq_ok.mpr ⟨hle, rfl, rfl⟩
    have hdata : readBytes (rest.drop n) len.toNat = fail .scriptTooLarge :=
      if_pos (by rw [length_drop]; omega)
    simp [pushDataN, hwidth, hlen, hdata]
  · have hwidth : readBytes rest n = fail .scriptTooLarge := if_pos (by omega)
    simp [pushDataN, hwidth]

end

section

/-- The engine after more signature operations of the same transaction. -/
def addSigOps (k : Nat) (e : ScriptEngine) : ScriptEngine :=
  { e with sigOpCount := e.sigOpCount + k }

def Config.addSigOps (k : Nat) (c : Config) : Config :=
  ⟨c.engine.addSigOps k, c.rest⟩

theorem resetFor_eq_addSigOps (e : ScriptEngine) (k : Nat) : e.resetFor k = new.addSigOps k := by
  simp [resetFor, addSigOps, new]

variable {env ctx} (k : Nat)

theorem plain_addSigOps {f : ScriptEngine → ScriptResult ScriptEngine} {c : Config}
    (hf : f (c.engine.addSigOps k) = (f c.engine).map (addSigOps k)) :
    plain f (c.addSigOps k) = (plain f c).map (Config.addSigOps k) := by
  rw [plain, plain, show (c.addSigOps k).engine = c.engine.addSigOps k from rfl, hf]
  cases f c.engine with
  | error failure => rfl
  | ok e => rfl

theorem frame_addSigOps : Frame (addSigOps k) where
  stack _ := rfl
  altStack _ := rfl
  setData _ _ _ := rfl
  countSigOp e := by simp [addSigOps, Nat.add_right_comm]

/-- No instruction looks at the signature operations counted before it. -/
@[simp] theorem dispatch_addSigOps (opcode : Opcode) (c : Config) :
    dispatch env ctx opcode (c.addSigOps k) =
      (dispatch env ctx opcode c).map (Config.addSigOps k) := by
  have heffect := dispatch_effect env ctx opcode
  revert heffect
  generalize dispatch env ctx opcode = run
  intro heffect
  cases heffect with
  | onStack _ f => exact plain_addSigOps k (onStack_frame (frame_addSigOps k) f _)
  | onSigOp _ f => exact plain_addSigOps k (onSigOp_frame (frame_addSigOps k) f _)
  | pushDataN _ n => exact pushDataN_frame (frame_addSigOps k) n c.engine c.rest
  | enterBranch _ holds =>
    apply plain_addSigOps
    by_cases hskip : c.engine.skipDepth > 0
    · have hskip' : (c.engine.addSigOps k).skipDepth > 0 := hskip
      rw [enterBranch, enterBranch, if_pos hskip, if_pos hskip']
      rfl
    · have hskip' : ¬ (c.engine.addSigOps k).skipDepth > 0 := hskip
      rw [enterBranch, enterBranch, if_neg hskip, if_neg hskip']
      rfl
  | opElse =>
    apply plain_addSigOps
    by_cases hskip : c.engine.skipDepth > 0
    · have hskip' : (c.engine.addSigOps k).skipDepth > 0 := hskip
      rw [opElse, opElse, if_pos hskip, if_pos hskip']
      rfl
    · cases hc : c.engine.controlStack with
      | nil => simp [opElse, addSigOps, hskip, hc, Except.map, fail]
      | cons condition rest => simp [opElse, addSigOps, hskip, hc, Except.map]
  | opEndIf =>
    apply plain_addSigOps
    by_cases hskip : c.engine.skipDepth > 0
    · simp [opEndIf, addSigOps, hskip, Except.map]
    · cases hc : c.engine.controlStack with
      | nil => simp [opEndIf, addSigOps, hskip, hc, Except.map, fail]
      | cons condition rest => simp [opEndIf, addSigOps, hskip, hc, Except.map]
  | opToAltStack => exact plain_addSigOps k (opToAltStack_frame (frame_addSigOps k) _)
  | opFromAltStack => exact plain_addSigOps k (opFromAltStack_frame (frame_addSigOps k) _)
  | noOperation _ => rfl
  | fails _ error => rfl

@[simp] theorem checkDepth_addSigOps (c : Config) :
    checkDepth (c.addSigOps k) = (checkDepth c).map (Config.addSigOps k) := by
  by_cases hdepth : c.engine.stack.length > maxStackDepth
  · have hdepth' : (c.addSigOps k).engine.stack.length > maxStackDepth := hdepth
    rw [checkDepth, checkDepth, if_pos hdepth, if_pos hdepth']
    rfl
  · have hdepth' : ¬ (c.addSigOps k).engine.stack.length > maxStackDepth := hdepth
    rw [checkDepth, checkDepth, if_neg hdepth, if_neg hdepth']
    rfl

theorem stepByte_addSigOps (e : ScriptEngine) (byte : UInt8) (rest : Bytes) :
    stepByte env ctx (e.addSigOps k) byte rest =
      (stepByte env ctx e byte rest).map (Config.addSigOps k) := by
  obtain hcount | hcount := Nat.lt_or_ge e.opcodeCount maxOpcodeCount
  · cases hskip : e.shouldSkip with
    | true =>
      rw [stepByte_skipped hcount hskip, stepByte_skipped (e := e.addSigOps k) hcount hskip]
      unfold skipOpcode
      split
      all_goals rfl
    | false =>
      rw [stepByte_executed hcount hskip, stepByte_executed (e := e.addSigOps k) hcount hskip]
      change dispatch env ctx (.ofByte byte) (Config.addSigOps k ⟨e.countOpcode, rest⟩) >>=
        checkDepth = _
      rw [dispatch_addSigOps]
      cases dispatch env ctx (.ofByte byte) ⟨e.countOpcode, rest⟩ with
      | error failure => rfl
      | ok c => exact checkDepth_addSigOps k c
  · rw [stepByte_full hcount, stepByte_full (e := e.addSigOps k) hcount]
    rfl

@[simp] theorem step_addSigOps (c : Config) :
    step env ctx (c.addSigOps k) =
      (step env ctx c).map (Except.map (Config.addSigOps k)) := by
  obtain ⟨e, bytes⟩ := c
  cases bytes with
  | nil => rfl
  | cons byte rest => exact congrArg some (stepByte_addSigOps k e byte rest)

variable (script : Bytes) (e : ScriptEngine)

/-- The signature operations of earlier inputs are carried along. -/
@[simp] theorem execute_addSigOps :
    execute env ctx script (e.addSigOps k) =
      (execute env ctx script e).map (addSigOps k) := by
  have hrun : Loop.run (step env ctx) script.length ⟨e.addSigOps k, script⟩ =
      (Loop.run (step env ctx) script.length ⟨e, script⟩).map (Config.addSigOps k) :=
    (Loop.run_map (step_addSigOps k) script.length ⟨e, script⟩).1
  unfold execute
  split
  · rfl
  · rw [hrun]
    cases Loop.run (step env ctx) script.length ⟨e, script⟩ with
    | error failure => rfl
    | ok c => rfl

@[simp] theorem executeTrace_addSigOps :
    executeTrace env ctx script (e.addSigOps k) =
      (executeTrace env ctx script e).map (Config.addSigOps k) :=
  (Loop.run_map (step_addSigOps k) script.length ⟨e, script⟩).2

/-- The run of an input is the run on a fresh engine, with the signature operations
of the inputs before it added. -/
theorem runInput_eq_ok {env : Platform} {tx : Transaction} {currentBlockHeight : UInt64}
    {e e' : ScriptEngine} {input : TxInput} {inputIndex : Nat} {prevOutput : Utxo} :
    runInput env tx currentBlockHeight e input inputIndex prevOutput = .ok e' ↔
      ∃ e₁, execute env ⟨tx, currentBlockHeight, inputIndex, prevOutput.output.scriptPubkey⟩
          (input.scriptSig ++ prevOutput.output.scriptPubkey) new = .ok e₁ ∧
        e' = e₁.addSigOps e.sigOpCount := by
  rw [runInput, resetFor_eq_addSigOps, execute_addSigOps]
  cases execute env ⟨tx, currentBlockHeight, inputIndex, prevOutput.output.scriptPubkey⟩
      (input.scriptSig ++ prevOutput.output.scriptPubkey) new with
  | error failure => simp [Except.map]
  | ok e₁ => simp [Except.map, eq_comm]

@[simp]
theorem finalCheck_addSigOps (e : ScriptEngine) : finalCheck (e.addSigOps k) = finalCheck e := rfl

end

end RustyCoin.ScriptEngine
