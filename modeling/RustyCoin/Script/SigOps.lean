import RustyCoin.Script.Concatenation
import RustyCoin.Script.Mirrors

/-!
# Limits over whole runs

The interpreter checks the opcode limit before an instruction and the stack limit
after it, so that both hold whenever the loop condition is evaluated, in all runs
since the counters were last cleared. The signature operations are only counted
by the interpreter. `verify_script_with_sig_op_count` checks the count after each
input; `validate_transaction` does not check it at all. What it executes can be
parsed from the scripts, given the conditions that their run takes from the stack.
-/

namespace RustyCoin.ScriptEngine

open Outcome Config List

variable (env : Platform) (ctx : ExecContext)

/-- The limits that the interpreter enforces on an engine. -/
structure Within (e : ScriptEngine) : Prop where
  opcodes : e.opcodeCount ≤ maxOpcodeCount
  stack : e.stack.length ≤ maxStackDepth

variable {env ctx}

/-- How deep a branch is left out after an instruction of it. -/
def depthAfter (opcode : Opcode) (depth : Nat) : Nat :=
  match opcode with
  | .opIf | .opNotIf => depth + 1
  | .opElse => if depth = 1 then 0 else depth
  | .opEndIf => depth - 1
  | _ => depth

theorem skipOpcode_eq (opcode : Opcode) (e : ScriptEngine) :
    skipOpcode opcode e = { e with skipDepth := depthAfter opcode e.skipDepth } := by
  cases opcode
  all_goals rfl

theorem within_step {c c' : Config} (hwithin : c.engine.Within)
    (hstep : step env ctx c = some (.ok c')) : c'.engine.Within := by
  obtain ⟨e, bytes⟩ := c
  cases bytes with
  | nil => simp [step] at hstep
  | cons byte rest =>
    rw [step_of_rest rfl, Option.some.injEq] at hstep
    obtain ⟨hcount, ⟨-, rfl⟩ | ⟨-, hd, hdepth⟩⟩ := stepByte_eq_ok.mp hstep
    · rw [skipOpcode_eq]
      exact ⟨hcount, hwithin.stack⟩
    · exact ⟨dispatch_opcodeCount hd ▸ hcount, hdepth⟩

/-- The next instruction is executed and is a signature operation. -/
def Config.atSigOp (c : Config) : Bool :=
  match c.rest with
  | [] => false
  | byte :: _ => !c.engine.shouldSkip && isSigOpcode (.ofByte byte)

variable {e : ScriptEngine} {byte : UInt8} {rest : Bytes} {c' : Config}

/-- An iteration counts the instruction it meets, and a signature operation once more. -/
theorem stepByte_counts (h : stepByte env ctx e byte rest = .ok c') :
    c'.engine.opcodeCount = e.opcodeCount + 1 ∧
      c'.engine.sigOpCount = e.sigOpCount + (atSigOp ⟨e, byte :: rest⟩).toNat := by
  obtain ⟨-, ⟨hskip, rfl⟩ | ⟨hzero, hd, -⟩⟩ := stepByte_eq_ok.mp h
  · have hat : atSigOp ⟨e, byte :: rest⟩ = false := by
      simp [atSigOp, shouldSkip, hskip]
    rw [hat]
    unfold skipOpcode
    split
    all_goals exact ⟨rfl, rfl⟩
  · have hat : atSigOp ⟨e, byte :: rest⟩ = isSigOpcode (.ofByte byte) := by
      simp [atSigOp, shouldSkip, hzero]
    rw [hat]
    exact ⟨dispatch_opcodeCount hd, dispatch_sigOpCount hd⟩

variable (env) (ctx)

/-- The states in which the loop condition is evaluated: where the body is entered,
and where the loop ends. -/
def loopHeads (script : Bytes) (e : ScriptEngine) : List Config :=
  if script.length > maxScriptBytes then []
  else
    match runFrom env ctx ⟨e, script⟩ with
    | .ok c => traceFrom env ctx ⟨e, script⟩ ++ [c]
    | .error _ => traceFrom env ctx ⟨e, script⟩

/-- The engines that the entry points hand to `execute`, with the number of
instructions that were executed since the counters were cleared. -/
inductive Loaded : Nat → ScriptEngine → Prop
  | reset (e : ScriptEngine) (sigOpCount : Nat) : Loaded 0 (e.resetFor sigOpCount)
  | run {n : Nat} {e e' : ScriptEngine} {ctx : ExecContext} {script : Bytes} (before : Loaded n e)
      (returns : execute env ctx script e = .ok e') :
      Loaded (n + (executeTrace env ctx script e).length) e'

variable {env ctx}

variable {c : Config} {n count count' : Nat} {script scriptSig : Bytes} {e' : ScriptEngine}
  {inputs : List (TxInput × Nat)}

/-- The states of a run are within the limits and count the instructions so far. -/
theorem traceFrom_limits (env : Platform) (ctx : ExecContext)
    (hwithin : c.engine.Within) :
    (∀ i x, (traceFrom env ctx c)[i]? = some x →
      x.engine.Within ∧ x.engine.opcodeCount = c.engine.opcodeCount + i) ∧
    ∀ c', runFrom env ctx c = .ok c' →
      c'.engine.Within ∧
        c'.engine.opcodeCount = c.engine.opcodeCount + (traceFrom env ctx c).length := by
  induction c using run_induct env ctx with
  | nil e =>
    refine ⟨fun i x hx => ?_, fun c' hc' => ?_⟩
    · simp at hx
    · cases hc'
      exact ⟨hwithin, rfl⟩
  | cons e byte rest ih =>
    cases hstep : stepByte env ctx e byte rest with
    | error failure =>
      rw [traceFrom_error hstep, runFrom_error hstep]
      refine ⟨fun i x hx => ?_, nofun⟩
      cases i with
      | zero =>
        cases hx
        exact ⟨hwithin, rfl⟩
      | succ i => simp at hx
    | ok c₁ =>
      have hcount := (stepByte_counts hstep).1
      have hwithin₁ : c₁.engine.Within :=
        within_step (c := ⟨e, byte :: rest⟩) hwithin (congrArg some hstep)
      obtain ⟨htrace, hfinal⟩ := ih c₁ hstep hwithin₁
      rw [traceFrom_step hstep, runFrom_step hstep]
      refine ⟨fun i x hx => ?_, fun c' hc' => ?_⟩
      · cases i with
        | zero =>
          cases hx
          exact ⟨hwithin, rfl⟩
        | succ i =>
          obtain ⟨hx, hxcount⟩ := htrace i x hx
          exact ⟨hx, by dsimp only; omega⟩
      · obtain ⟨hc', hc'count⟩ := hfinal c' hc'
        exact ⟨hc', by rw [length_cons]; dsimp only; omega⟩

variable {e : ScriptEngine}

theorem Loaded.within (h : Loaded env n e) : e.Within ∧ e.opcodeCount = n := by
  induction h with
  | reset e sigOpCount => exact ⟨⟨Nat.zero_le _, Nat.zero_le _⟩, rfl⟩
  | run _ hrun ih =>
    obtain ⟨hwithin, hcount⟩ := ih
    obtain ⟨c, hloop, rfl⟩ := execute_eq_ok_runFrom hrun
    obtain ⟨hwithin', hcount'⟩ := (traceFrom_limits env _ hwithin).2 c hloop
    exact ⟨hwithin', by rw [hcount', hcount]; rfl⟩

/-- Both limits hold at every loop head. -/
theorem loopHeads_limits {i : Nat} {e : ScriptEngine}
    (hloaded : Loaded env n e) (hc : (loopHeads env ctx script e)[i]? = some c) :
    c.engine.stack.length ≤ maxStackDepth ∧ n + i ≤ maxOpcodeCount := by
  obtain ⟨hwithin, hcount⟩ := hloaded.within
  obtain ⟨htrace, hfinal⟩ := traceFrom_limits env ctx (c := ⟨e, script⟩) hwithin
  have hboth : c.engine.Within ∧ c.engine.opcodeCount = e.opcodeCount + i := by
    unfold loopHeads at hc
    split at hc
    · simp at hc
    · split at hc
      · rename_i c' hrun
        by_cases hi : i < (traceFrom env ctx ⟨e, script⟩).length
        · rw [getElem?_append_left hi] at hc
          exact htrace i c hc
        · have hlast : i = (traceFrom env ctx ⟨e, script⟩).length := by
            have hlt := List.getElem?_eq_some_iff.mp hc |>.1
            simp at hlt
            omega
          rw [hlast, getElem?_concat_length, Option.some.injEq] at hc
          subst hc
          rw [hlast]
          exact hfinal c' hrun
      · exact htrace i c hc
  refine ⟨hboth.1.stack, ?_⟩
  have hopcodes := hboth.1.opcodes
  omega

variable (env) (ctx)

/-- The number of signature operations that a script executes. -/
def sigOpsExecuted (script : Bytes) (e : ScriptEngine) : Nat :=
  (executeTrace env ctx script e).countP atSigOp

/-- The number of signature operations that the two scripts of an input execute,
one script after the other. -/
def sigOpsOfBoth (scriptSig : Bytes) (e : ScriptEngine) : Nat :=
  sigOpsExecuted env ctx scriptSig e +
    match execute env ctx scriptSig e with
    | .ok left => sigOpsExecuted env ctx ctx.scriptPubkey left
    | .error _ => 0

variable {env ctx}

theorem runFrom_sigOpCount {c' : Config} (h : runFrom env ctx c = .ok c') :
    c'.engine.sigOpCount =
      c.engine.sigOpCount + (traceFrom env ctx c).countP atSigOp := by
  induction c using run_induct env ctx with
  | nil e =>
    cases h
    rfl
  | cons e byte rest ih =>
    rw [runFrom_cons, bind_eq_ok] at h
    obtain ⟨c₁, hstep, hrun⟩ := h
    have hcount := (stepByte_counts hstep).2
    rw [ih c₁ hstep hrun, hcount, traceFrom_step hstep, countP_cons]
    cases atSigOp ⟨e, byte :: rest⟩ with
    | false => simp
    | true => simp [Nat.add_assoc, Nat.add_comm 1]

theorem execute_sigOpCount
    (h : execute env ctx script e = .ok e') :
    e'.sigOpCount = e.sigOpCount + sigOpsExecuted env ctx script e := by
  obtain ⟨c, hloop, rfl⟩ := execute_eq_ok_runFrom h
  exact runFrom_sigOpCount hloop

theorem executeBoth_sigOpCount
    (h : executeBoth env ctx scriptSig e = .ok e') :
    e'.sigOpCount = e.sigOpCount + sigOpsOfBoth env ctx scriptSig e := by
  obtain ⟨left, hsig, hlock⟩ := bind_eq_ok.mp h
  have hleft := execute_sigOpCount hsig
  have hright := execute_sigOpCount hlock
  simp only [sigOpsOfBoth, hsig]
  omega

/-- What is executed does not depend on what was counted before. -/
@[simp] theorem sigOpsExecuted_addSigOps (k : Nat) (script : Bytes) (e : ScriptEngine) :
    sigOpsExecuted env ctx script (e.addSigOps k) = sigOpsExecuted env ctx script e := by
  rw [sigOpsExecuted, executeTrace_addSigOps, countP_map]
  rfl

theorem sigOpsOfBoth_addSigOps (k : Nat) (scriptSig : Bytes) (e : ScriptEngine) :
    sigOpsOfBoth env ctx scriptSig (e.addSigOps k) =
      sigOpsOfBoth env ctx scriptSig e := by
  rw [sigOpsOfBoth, sigOpsOfBoth, sigOpsExecuted_addSigOps, execute_addSigOps]
  cases execute env ctx scriptSig e with
  | error failure => rfl
  | ok left => exact congrArg _ (sigOpsExecuted_addSigOps k ctx.scriptPubkey left)

variable (env) (ctx)

variable (tx : Transaction) (engines : Nat → ScriptEngine) (spent : Nat → TxOutput)

/-- Verify the inputs one after the other with a common count, each on an engine of
its own. The engines are cleared by the call, so that it does not matter which
they are. -/
def verifyInputs : List (TxInput × Nat) → Nat → ScriptResult Nat
  | [], transactionSigOpCount => .ok transactionSigOpCount
  | (input, inputIndex) :: rest, transactionSigOpCount =>
    match verifyScriptWithSigOpCount env (engines inputIndex) input.scriptSig
        (spent inputIndex).scriptPubkey tx inputIndex transactionSigOpCount with
    | (.ok (), transactionSigOpCount) => verifyInputs rest transactionSigOpCount
    | (.error failure, _) => .error failure

/-- The signature operations that the scripts of some inputs execute. -/
def inputsSigOps (inputs : List (TxInput × Nat)) : Nat :=
  (inputs.map fun (input, inputIndex) =>
    sigOpsOfBoth env (verifyContext tx inputIndex (spent inputIndex).scriptPubkey)
      input.scriptSig new).sum

variable {env tx engines spent}

theorem verifyScriptWithSigOpCount_counts {self : ScriptEngine} {scriptPubkey : Bytes}
    {inputIndex : Nat}
    (h : verifyScriptWithSigOpCount env self scriptSig scriptPubkey tx inputIndex count =
      (.ok (), count')) :
    count' = count +
        sigOpsOfBoth env (verifyContext tx inputIndex scriptPubkey) scriptSig new ∧
      count' ≤ maxSigOps := by
  obtain ⟨e, hrun, hlimit, -⟩ := verifyScriptWithSigOpCount_eq_ok (congrArg Prod.fst h)
  have hcount := executeBoth_sigOpCount hrun
  rw [resetFor_eq_addSigOps, sigOpsOfBoth_addSigOps] at hcount
  have hcount' : count' = e.sigOpCount := by
    obtain ⟨hsig, hpubkey⟩ : scriptSig.length ≤ maxScriptBytes ∧
        scriptPubkey.length ≤ maxScriptBytes := by
      obtain ⟨left, hfirst, hsecond⟩ := bind_eq_ok.mp hrun
      exact ⟨(execute_eq_ok.mp hfirst).1, (execute_eq_ok.mp hsecond).1⟩
    rw [verifyScriptWithSigOpCount, if_neg (Nat.not_lt.mpr hsig), if_neg (Nat.not_lt.mpr hpubkey),
      hrun] at h
    exact (congrArg Prod.snd h).symm
  rw [hcount']
  exact ⟨by rw [hcount]; simp [addSigOps, new], hlimit⟩

theorem verifyInputs_counts
    (h : verifyInputs env tx engines spent inputs count = .ok count') (hcount : count ≤ maxSigOps) :
    count' = count + inputsSigOps env tx spent inputs ∧ count' ≤ maxSigOps := by
  induction inputs generalizing count with
  | nil =>
    cases h
    exact ⟨rfl, hcount⟩
  | cons head rest ih =>
    obtain ⟨input, inputIndex⟩ := head
    rw [verifyInputs] at h
    split at h
    · rename_i count₁ hcall
      obtain ⟨hcount₁, hlimit⟩ := verifyScriptWithSigOpCount_counts hcall
      obtain ⟨htotal, hfinal⟩ := ih h hlimit
      refine ⟨?_, hfinal⟩
      rw [htotal, hcount₁, inputsSigOps, inputsSigOps, map_cons, sum_cons, Nat.add_assoc]
    · cases h

variable (env)

/-- At every loop head of `execute` the stack and the number of instructions since
the counters were cleared are within their limits; and if the inputs of a
transaction verify one after the other with a common count, their scripts have
executed at most `maxSigOps` signature operations. -/
theorem execute_keeps_limits (env : Platform) :
    (∀ (n : Nat) (e : ScriptEngine) (ctx : ExecContext) (script : Bytes) (i : Nat) (c : Config),
      Loaded env n e → (loopHeads env ctx script e)[i]? = some c →
        c.engine.stack.length ≤ maxStackDepth ∧ n + i ≤ maxOpcodeCount) ∧
    ∀ (tx : Transaction) (engines : Nat → ScriptEngine) (spent : Nat → TxOutput) (count : Nat),
      verifyInputs env tx engines spent tx.getInputs.zipIdx 0 = .ok count →
        inputsSigOps env tx spent tx.getInputs.zipIdx ≤ maxSigOps := by
  refine ⟨fun n e ctx script i c hloaded hc => loopHeads_limits hloaded hc, ?_⟩
  intro tx engines spent count hverify
  obtain ⟨htotal, hlimit⟩ := verifyInputs_counts hverify (Nat.zero_le _)
  omega

/-- `OP_1` on a fresh engine, and an input whose two items one signature check takes. -/
theorem execute_keeps_limits_one :
    (1 ≤ maxStackDepth ∧ 0 + 1 ≤ maxOpcodeCount) ∧
      inputsSigOps .lenient (spendTx [0x51, 0x51]) (fun _ => ⟨1000, [0xac], none⟩)
        (spendTx [0x51, 0x51]).getInputs.zipIdx ≤ maxSigOps := by
  refine ⟨?_, ?_⟩
  · exact (execute_keeps_limits .lenient).1 0 new (verifyContext emptyTx 0 []) [0x51] 1
      ⟨{ new with stack := [[1]], opcodeCount := 1 }, []⟩ (.reset new 0) (by decide +kernel)
  · exact (execute_keeps_limits .lenient).2 (spendTx [0x51, 0x51]) (fun _ => new)
      (fun _ => ⟨1000, [0xac], none⟩) 1 (by decide +kernel)

variable (tx) (utxoSet : UtxoSet) (currentBlockHeight : UInt64)

/-- The states in which the interpreter meets the instructions of some inputs, up
to the first input that is not accepted. -/
def validateTrace : List (TxInput × Nat) → ScriptEngine → List Config
  | [], _ => []
  | (input, inputIndex) :: rest, e =>
    match utxoSet.getUtxo input.previousOutput with
    | none => []
    | some prevOutput =>
      executeTrace env (inputContext tx currentBlockHeight inputIndex prevOutput)
          (input.scriptSig ++ prevOutput.output.scriptPubkey) (e.resetFor e.sigOpCount) ++
        match (validateInput env tx utxoSet currentBlockHeight e input inputIndex :
          Outcome Unit (Option ScriptEngine)) with
        | .ok (some e') => validateTrace rest e'
        | _ => []

/-- The states in which `validate_transaction` meets instructions. -/
def transactionTrace (self : ScriptEngine) : List Config :=
  if tx.isCoinbase then []
  else
    validateTrace env tx utxoSet currentBlockHeight tx.getInputs.zipIdx
      { self with sigOpCount := 0 }

/-- The signature opcodes that are parsed from a script outside of the branches that
are left out. The first argument counts the operand bytes to pass over, the second
how deep a branch is left out; then come the entries of the open conditionals and the
conditions of those still to be opened. -/
def parsedSigOps : Nat → Nat → List Bool → List Bool → Bytes → Nat
  | _, _, _, _, [] => 0
  | n + 1, depth, opened, taken, _ :: rest => parsedSigOps n depth opened taken rest
  | 0, depth + 1, opened, taken, byte :: rest =>
    -- the operands of pushes are not passed over here
    parsedSigOps 0 (depthAfter (.ofByte byte) (depth + 1)) opened taken rest
  | 0, 0, opened, taken, byte :: rest =>
    match Opcode.ofByte byte with
    | .opIf | .opNotIf =>
      parsedSigOps 0 (if taken.headD true then 0 else 1) (taken.headD true :: opened) taken.tail
        rest
    | .opElse =>
      parsedSigOps 0 (if opened.headD false then 1 else 0) ((!opened.headD false) :: opened.tail)
        taken rest
    | .opEndIf => parsedSigOps 0 0 opened.tail taken rest
    | opcode =>
      (isSigOpcode opcode).toNat + parsedSigOps (operandLength opcode rest) 0 opened taken rest

/-- The condition that the next instruction takes from the stack to open a conditional. -/
def Config.condition? (c : Config) : Option Bool :=
  match c.rest with
  | [] => none
  | byte :: _ =>
    if c.engine.shouldSkip then none
    else
      match Opcode.ofByte byte with
      | .opIf => some (c.engine.selects false)
      | .opNotIf => some (c.engine.selects true)
      | _ => none

/-- The signature opcodes that are parsed from the scripts of an input, one behind the
other, with the conditions that their run takes from the stack. -/
def inputSigOps (input : TxInput) (inputIndex : Nat) : Nat :=
  match utxoSet.getUtxo input.previousOutput with
  | none => 0
  | some prevOutput =>
    let script := input.scriptSig ++ prevOutput.output.scriptPubkey
    parsedSigOps 0 0 []
      ((executeTrace env (inputContext tx currentBlockHeight inputIndex prevOutput) script
        new).filterMap Config.condition?) script

variable {env ctx tx utxoSet currentBlockHeight}

/-- What is left to parse where the loop is. -/
def Config.parsed (c : Config) (taken : List Bool) : Nat :=
  parsedSigOps 0 c.engine.skipDepth c.engine.controlStack taken c.rest

theorem parsedSigOps_drop (n depth : Nat) (opened taken : List Bool) (rest : Bytes) :
    parsedSigOps n depth opened taken rest = parsedSigOps 0 depth opened taken (rest.drop n) := by
  induction rest generalizing n with
  | nil => simp [parsedSigOps]
  | cons byte rest ih =>
    cases n with
    | zero => rfl
    | succ n => exact ih n

/-- An instruction that does not belong to a conditional leaves the conditionals alone
and reads its operand. -/
theorem dispatch_of_isDelimiter {opcode : Opcode} {c c' : Config}
    (hopcode : isDelimiter opcode = false) (h : dispatch env ctx opcode c = .ok c') :
    (c'.engine.controlStack = c.engine.controlStack ∧
        c'.engine.skipDepth = c.engine.skipDepth) ∧
      c'.rest = c.rest.drop (operandLength opcode c.rest) := by
  obtain ⟨e, rest⟩ := c
  by_cases hwidth : pushWidth opcode = 0
  · obtain ⟨f, hf, hframed⟩ := dispatch_framed env ctx hwidth hopcode
    rw [hf] at h
    obtain ⟨e', he', rfl⟩ := plain_eq_ok.mp h
    exact ⟨hframed.keeps he', by simp [operandLength, hwidth, leValue]⟩
  · rw [dispatch_push hwidth] at h
    obtain hle | hlt := Nat.lt_or_ge rest.length (operandLength opcode rest) |>.symm
    · rw [pushDataN_of_le (pushWidth_le opcode) hle] at h
      cases h
      exact ⟨⟨rfl, rfl⟩, rfl⟩
    · rw [pushDataN_of_lt (pushWidth_le opcode) hlt] at h
      cases h

section

variable (hzero : e.skipDepth = 0) (taken : List Bool)
include hzero

/-- A conditional is opened with the condition on the stack. -/
theorem parsed_enterBranch (notIf : Bool)
    (hd : plain (enterBranch (holds notIf)) ⟨e.countOpcode, rest⟩ = .ok c') :
    parsedSigOps 0 (if e.selects notIf then 0 else 1) (e.selects notIf :: e.controlStack) taken
      rest = c'.parsed taken := by
  obtain ⟨e', he', rfl⟩ := plain_eq_ok.mp hd
  rw [enterBranch_executed (e := e.countOpcode) _ hzero] at he'
  cases he'
  rfl

theorem parsed_opElse (hd : plain opElse ⟨e.countOpcode, rest⟩ = .ok c') :
    parsedSigOps 0 (if e.controlStack.headD false then 1 else 0)
      ((!e.controlStack.headD false) :: e.controlStack.tail) taken rest = c'.parsed taken := by
  obtain ⟨e', he', rfl⟩ := plain_eq_ok.mp hd
  cases hc : e.controlStack with
  | nil =>
    rw [opElse_unopened (e := e.countOpcode) hzero hc] at he'
    cases he'
  | cons b control =>
    rw [opElse_executed (e := e.countOpcode) hzero hc] at he'
    cases he'
    rfl

theorem parsed_opEndIf (hd : plain opEndIf ⟨e.countOpcode, rest⟩ = .ok c') :
    parsedSigOps 0 0 e.controlStack.tail taken rest = c'.parsed taken := by
  obtain ⟨e', he', rfl⟩ := plain_eq_ok.mp hd
  cases hc : e.controlStack with
  | nil =>
    rw [opEndIf_unopened (e := e.countOpcode) hzero hc] at he'
    cases he'
  | cons b control =>
    rw [opEndIf_executed (e := e.countOpcode) hzero hc] at he'
    cases he'
    simp [Config.parsed, hzero]

end

/-- The parse passes over an instruction as the interpreter does. -/
theorem parsed_step (h : stepByte env ctx e byte rest = .ok c') (taken : List Bool) :
    Config.parsed ⟨e, byte :: rest⟩ ((condition? ⟨e, byte :: rest⟩).toList ++ taken) =
      (atSigOp ⟨e, byte :: rest⟩).toNat + c'.parsed taken := by
  obtain ⟨-, ⟨hpos, rfl⟩ | ⟨hzero, hd, -⟩⟩ := stepByte_eq_ok.mp h
  · obtain ⟨depth, hdepth⟩ := Nat.exists_eq_succ_of_ne_zero (Nat.ne_of_gt hpos)
    rw [Config.parsed, Config.parsed, skipOpcode_eq]
    simp [condition?, atSigOp, shouldSkip, hdepth, parsedSigOps]
  · have hskip : e.shouldSkip = false := by simp [shouldSkip, hzero]
    simp only [Config.parsed, hzero, parsedSigOps, condition?, atSigOp, hskip, Bool.not_false,
      Bool.true_and, Bool.false_eq_true, if_false]
    split
    · rename_i hopcode
      rw [hopcode] at hd ⊢
      simpa [isSigOpcode, Config.parsed] using parsed_enterBranch hzero taken false hd
    · rename_i hopcode
      rw [hopcode] at hd ⊢
      simpa [isSigOpcode, Config.parsed] using parsed_enterBranch hzero taken true hd
    · rename_i hopcode
      rw [hopcode] at hd ⊢
      simpa [isSigOpcode, Config.parsed] using parsed_opElse hzero taken hd
    · rename_i hopcode
      rw [hopcode] at hd ⊢
      simpa [isSigOpcode, Config.parsed] using parsed_opEndIf hzero taken hd
    · have hplain : isDelimiter (.ofByte byte) = false := by
        unfold isDelimiter
        split
        all_goals first | rfl | exact absurd ‹_› ‹_›
      obtain ⟨⟨hcontrol, hdepth⟩, hrest⟩ := dispatch_of_isDelimiter hplain hd
      rw [hcontrol, hdepth, hrest, ← parsedSigOps_drop]
      simp [hzero]

/-- Along a run that returns, the signature operations that are executed are those
that are parsed. -/
theorem parsed_of_runFrom {c' : Config} (h : runFrom env ctx c = .ok c') :
    (traceFrom env ctx c).countP atSigOp =
      c.parsed ((traceFrom env ctx c).filterMap condition?) := by
  induction c using run_induct env ctx with
  | nil e => rfl
  | cons e byte rest ih =>
    rw [runFrom_cons, bind_eq_ok] at h
    obtain ⟨c₁, hstep, hrun⟩ := h
    have hparse := parsed_step hstep ((traceFrom env ctx c₁).filterMap condition?)
    rw [← ih c₁ hstep hrun] at hparse
    rw [traceFrom_step hstep, countP_cons, filterMap_cons, Nat.add_comm]
    cases hcondition : condition? ⟨e, byte :: rest⟩
    all_goals
      rw [hcondition] at hparse
      simpa [Bool.toNat, Bool.cond_eq_ite] using hparse.symm

/-- The conditions do not depend on what was counted before. -/
theorem conditions_resetFor (k : Nat) (script : Bytes) (e : ScriptEngine) :
    (executeTrace env ctx script (e.resetFor k)).filterMap condition? =
      (executeTrace env ctx script new).filterMap condition? := by
  rw [resetFor_eq_addSigOps, executeTrace_addSigOps, filterMap_map]
  rfl

/-- The signature operations that some accepted inputs execute, one after the other. -/
theorem countP_validateTrace {ε : Type} {e : ScriptEngine}
    (h : (validateInputs env tx utxoSet currentBlockHeight inputs e : Outcome ε Bool) =
      .ok true) :
    (validateTrace env tx utxoSet currentBlockHeight inputs e).countP atSigOp =
      (inputs.map fun (input, inputIndex) =>
        inputSigOps env tx utxoSet currentBlockHeight input inputIndex).sum := by
  induction inputs generalizing e with
  | nil => rfl
  | cons head rest ih =>
    obtain ⟨input, inputIndex⟩ := head
    rw [validateInputs, bind_eq_ok] at h
    obtain ⟨result, hinput, hrest⟩ := h
    cases result with
    | none => cases hrest
    | some e' =>
      have haccepted := (validateInput_eq_some env tx utxoSet currentBlockHeight).mp hinput
      have hsame : (validateInput env tx utxoSet currentBlockHeight e input inputIndex :
          Outcome Unit (Option ScriptEngine)) = .ok (some e') :=
        (validateInput_eq_some env tx utxoSet currentBlockHeight).mpr haccepted
      obtain ⟨prevOutput, hutxo, hrun, -⟩ := haccepted
      obtain ⟨c, hloop, -⟩ := execute_eq_ok_runFrom hrun
      have hparsed := parsed_of_runFrom hloop
      rw [← executeTrace_eq_traceFrom, conditions_resetFor] at hparsed
      simp only [validateTrace, hutxo, hsame, countP_append, ih hrest, map_cons, sum_cons,
        inputSigOps]
      exact congrArg (· + _) hparsed

/-- A transaction that `validate_transaction` accepts has executed at most `maxSigOps`
signature operations exactly when it is a coinbase, whose scripts are not run, or when
at most that many signature opcodes are parsed from the scripts of its inputs, outside
of the branches that are left out. -/
theorem validateTransaction_sigOps_iff {ε : Type} {self : ScriptEngine}
    (haccept : (validateTransaction env tx utxoSet currentBlockHeight self :
      Outcome ε Bool) = .ok true) :
    (transactionTrace env tx utxoSet currentBlockHeight self).countP atSigOp ≤ maxSigOps ↔
      tx.isCoinbase = true ∨
        (tx.getInputs.zipIdx.map fun (input, inputIndex) =>
          inputSigOps env tx utxoSet currentBlockHeight input inputIndex).sum ≤ maxSigOps := by
  unfold transactionTrace
  unfold validateTransaction at haccept
  split
  · rename_i hcoinbase
    exact iff_of_true (Nat.zero_le _) (.inl hcoinbase)
  · rename_i hcoinbase
    rw [if_neg hcoinbase] at haccept
    rw [countP_validateTrace haccept, or_iff_right hcoinbase]

/-- `OP_0 OP_IF OP_CHECKSIG OP_ENDIF`, one signature check in a branch that is left out,
in front of one that is executed. -/
theorem validateTransaction_sigOps_iff_leftOut :
    (validateTransaction .lenient (spendTx [0x51, 0x51])
        (paidSet [0x00, 0x63, 0xac, 0x68, 0xac]) 0 new : Outcome Unit Bool) = .ok true ∧
      (transactionTrace .lenient (spendTx [0x51, 0x51])
        (paidSet [0x00, 0x63, 0xac, 0x68, 0xac]) 0 new).countP atSigOp ≤ maxSigOps := by
  have haccept : (validateTransaction .lenient (spendTx [0x51, 0x51])
      (paidSet [0x00, 0x63, 0xac, 0x68, 0xac]) 0 new : Outcome Unit Bool) = .ok true := by
    decide +kernel
  exact ⟨haccept, (validateTransaction_sigOps_iff haccept).mpr (.inr (by decide +kernel))⟩

/-- Twenty-one signature checks in one script, each on two fresh items, and a true
item at the end. -/
def manyChecks : Bytes :=
  (List.replicate 21 [0x51, 0x51, 0xad]).flatten ++ [0x51]

/-- The transaction is accepted, and its scripts have executed 21 signature
operations; the other entry point rejects the same scripts. -/
theorem validateTransaction_accepts_manyChecks :
    (validateTransaction .lenient (spendTx []) (paidSet manyChecks) 0 new : Outcome Unit Bool) =
        .ok true ∧
      (transactionTrace .lenient (spendTx []) (paidSet manyChecks) 0 new).countP atSigOp = 21 ∧
      (verifyScriptWithSigOpCount .lenient new [] manyChecks (spendTx []) 0 0).1 =
        fail .tooManySigOps := by
  decide +kernel

end RustyCoin.ScriptEngine
