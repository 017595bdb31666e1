import RustyCoin.Script.Runs
import RustyCoin.Script.StandardScripts

/-!
# Joined scripts and scripts run one after the other

`validate_transaction` runs the unlocking script and the locking script as one
byte string, while `verify_script` runs the first to its end and starts the
second at its first byte. Until the unlocking script ends, the two runs differ in
one thing: a push whose payload is longer than what is left of the unlocking
script takes the rest from the locking script in the joined run, and fails in the
other.
-/

namespace RustyCoin.ScriptEngine

open Outcome List

variable (env : Platform) (ctx : ExecContext)

/-- The next instruction is executed, and its operand is longer than what is left. -/
def truncated (c : Config) : Bool :=
  match c.rest with
  | [] => false
  | byte :: rest =>
    !c.engine.shouldSkip && decide (rest.length < operandLength (.ofByte byte) rest)

/-- The next instruction begins before the last `more` bytes, is executed, and
reads at least one of them as its operand. -/
def swallows (more : Bytes) (c : Config) : Bool :=
  match c.rest with
  | [] => false
  | byte :: rest =>
    !c.engine.shouldSkip && decide (more.length ≤ rest.length) &&
      decide (rest.length < operandLength (.ofByte byte) rest + more.length)

/-- `verify_script` at the height of a context instead of height zero. -/
def verifyScriptAt (scriptSig : Bytes) : ScriptResult Unit :=
  if scriptSig.length > maxScriptBytes then fail .scriptTooLarge
  else if ctx.scriptPubkey.length > maxScriptBytes then fail .scriptTooLarge
  else do
    let e ← executeBoth env ctx scriptSig new
    finalCheck e

theorem verifyScript_eq_verifyScriptAt (scriptSig scriptPubkey : Bytes) (tx : Transaction)
    (inputIndex : Nat) :
    verifyScript env scriptSig scriptPubkey tx inputIndex =
      verifyScriptAt env (verifyContext tx inputIndex scriptPubkey) scriptSig := rfl

/-- Put more bytes after those that are left. -/
def Config.append (more : Bytes) (c : Config) : Config :=
  ⟨c.engine, c.rest ++ more⟩

variable {env ctx}

variable {e : ScriptEngine} {byte : UInt8} {rest more : Bytes}

theorem truncated_cons :
    truncated ⟨e, byte :: rest⟩ = true ↔
      e.shouldSkip = false ∧ rest.length < operandLength (.ofByte byte) rest := by
  simp [truncated]

/-- What a push finds after its opcode, when its operand is within the script. -/
theorem operandLength_append (opcode : Opcode) (hle : pushWidth opcode ≤ rest.length) :
    operandLength opcode (rest ++ more) = operandLength opcode rest := by
  rw [operandLength, operandLength, take_append_of_le_length hle]

/-- Cut off at the end of a script is the same as reading on in what follows it. -/
theorem swallows_append :
    swallows more (Config.append more ⟨e, byte :: rest⟩) = truncated ⟨e, byte :: rest⟩ := by
  have hlt : rest.length < operandLength (.ofByte byte) (rest ++ more) ↔
      rest.length < operandLength (.ofByte byte) rest := by
    by_cases hle : pushWidth (.ofByte byte) ≤ rest.length
    · rw [operandLength_append _ hle]
    · rw [operandLength, operandLength]
      omega
  simp [swallows, truncated, Config.append, hlt]

theorem stepByte_truncated (env : Platform) (ctx : ExecContext)
    (hcut : truncated ⟨e, byte :: rest⟩ = true) :
    ∃ error, stepByte env ctx e byte rest = fail error := by
  obtain ⟨hskip, hlt⟩ := truncated_cons.mp hcut
  obtain hcount | hcount := Nat.lt_or_ge e.opcodeCount maxOpcodeCount
  · have hpush : pushWidth (.ofByte byte) ≠ 0 := by
      intro hzero
      simp [operandLength, hzero, leValue] at hlt
    refine ⟨.scriptTooLarge, ?_⟩
    rw [stepByte_executed hcount hskip, dispatch_push hpush,
      pushDataN_of_lt (pushWidth_le _) hlt, fail_bind]
  · exact ⟨.tooManyOpcodes, stepByte_full hcount⟩

/-- An instruction whose operand is within the script does not see what follows. -/
theorem dispatch_append {opcode : Opcode} (hle : operandLength opcode rest ≤ rest.length) :
    dispatch env ctx opcode ⟨e, rest ++ more⟩ =
      (dispatch env ctx opcode ⟨e, rest⟩).map (Config.append more) := by
  by_cases hpush : pushWidth opcode = 0
  · obtain ⟨f, hf⟩ := dispatch_plain env ctx hpush
    rw [hf, hf, plain, plain]
    cases f e with
    | error failure => rfl
    | ok e' => rfl
  · have hwidth : pushWidth opcode ≤ rest.length := Nat.le_trans (Nat.le_add_right _ _) hle
    have hle' : operandLength opcode (rest ++ more) ≤ (rest ++ more).length := by
      rw [operandLength_append opcode hwidth, length_append]
      omega
    have hdata : leValue (rest.take (pushWidth opcode)) ≤
        (rest.drop (pushWidth opcode)).length := by
      rw [length_drop]
      exact Nat.le_sub_of_add_le' hle
    rw [operandLength] at hle
    rw [dispatch_push hpush, pushDataN_of_le (pushWidth_le _) hle,
      pushDataN_of_le (pushWidth_le _) hle', take_append_of_le_length hwidth,
      drop_append_of_le_length hwidth, take_append_of_le_length hdata,
      drop_append_of_le_length hle]
    rfl

theorem stepByte_append (hcut : truncated ⟨e, byte :: rest⟩ = false) :
    stepByte env ctx e byte (rest ++ more) =
      (stepByte env ctx e byte rest).map (Config.append more) := by
  obtain hcount | hcount := Nat.lt_or_ge e.opcodeCount maxOpcodeCount
  · cases hskip : e.shouldSkip with
    | true =>
      rw [stepByte_skipped hcount hskip, stepByte_skipped hcount hskip]
      rfl
    | false =>
      have hle : operandLength (.ofByte byte) rest ≤ rest.length := by
        simpa [truncated, hskip] using hcut
      rw [stepByte_executed hcount hskip, stepByte_executed hcount hskip, dispatch_append hle]
      cases dispatch env ctx (.ofByte byte) ⟨e.countOpcode, rest⟩ with
      | error failure => rfl
      | ok c =>
        change checkDepth (c.append more) = (checkDepth c).map (Config.append more)
        by_cases hdepth : c.engine.stack.length > maxStackDepth
        · have hdepth' : (c.append more).engine.stack.length > maxStackDepth := hdepth
          rw [checkDepth, checkDepth, if_pos hdepth, if_pos hdepth']
          rfl
        · have hdepth' : ¬ (c.append more).engine.stack.length > maxStackDepth := hdepth
          rw [checkDepth, checkDepth, if_neg hdepth, if_neg hdepth']
          rfl
  · rw [stepByte_full hcount, stepByte_full hcount]
    rfl

section

variable {c c' : Config} {more : Bytes}

/-- A run that returns has found all its operands. -/
theorem not_truncated_of_runFrom (h : runFrom env ctx c = .ok c') :
    ∀ x ∈ traceFrom env ctx c, truncated x = false := by
  induction c using Config.run_induct env ctx with
  | nil e => simp
  | cons e byte rest ih =>
    intro x hx
    rw [runFrom_cons, bind_eq_ok] at h
    obtain ⟨c₁, hstep, hrun⟩ := h
    rw [mem_traceFrom_cons] at hx
    obtain rfl | ⟨c₂, hstep', hx⟩ := hx
    · by_contra hcut
      obtain ⟨error, hfail⟩ := stepByte_truncated env ctx (Bool.not_eq_false _ ▸ hcut)
      rw [hstep] at hfail
      exact fail_ne_ok _ _ hfail.symm
    · rw [hstep] at hstep'
      cases hstep'
      exact ih c₁ hstep hrun x hx

/-- If no push is cut off, the joined run is the one run after the other. -/
theorem runFrom_append (h : ∀ x ∈ traceFrom env ctx c, truncated x = false) :
    runFrom env ctx (c.append more) =
      runFrom env ctx c >>= fun left => runFrom env ctx ⟨left.engine, more⟩ := by
  induction c using Config.run_induct env ctx with
  | nil e => rfl
  | cons e byte rest ih =>
    have hcut := h _ (mem_traceFrom_cons.mpr (.inl rfl))
    change runFrom env ctx ⟨e, byte :: (rest ++ more)⟩ = _
    rw [runFrom_cons, runFrom_cons, stepByte_append hcut]
    cases hstep : stepByte env ctx e byte rest with
    | error failure => rfl
    | ok c₁ =>
      refine ih c₁ hstep fun x hx => h x ?_
      exact mem_traceFrom_cons.mpr (.inr ⟨c₁, hstep, hx⟩)

/-- The two readings of a push that leaves its script: it is cut off in the run of
the script, and swallows what follows in the joined run. -/
theorem swallows_iff_truncated :
    (∀ x ∈ traceFrom env ctx (c.append more), swallows more x = false) ↔
      ∀ x ∈ traceFrom env ctx c, truncated x = false := by
  induction c using Config.run_induct env ctx with
  | nil e =>
    refine iff_of_true (fun x hx => ?_) (by simp)
    -- the locking script has begun, so that no instruction before it is left
    have hle : x.rest.length ≤ more.length :=
      Loop.measure_le_of_mem_trace (fun c => c.rest.length) (fun _ _ => step_rest_lt) hx
    cases hrest : x.rest with
    | nil => simp [swallows, hrest]
    | cons byte rest =>
      rw [hrest, length_cons] at hle
      have hshort : ¬ more.length ≤ rest.length := by omega
      simp [swallows, hrest, hshort]
  | cons e byte rest ih =>
    have hhead : swallows more ⟨e, byte :: (rest ++ more)⟩ = truncated ⟨e, byte :: rest⟩ :=
      swallows_append
    change (∀ x ∈ traceFrom env ctx ⟨e, byte :: (rest ++ more)⟩, _) ↔ _
    simp only [mem_traceFrom_cons, or_imp, forall_and, forall_eq, hhead]
    refine and_congr_right fun hcut => ?_
    rw [stepByte_append hcut]
    cases hstep : stepByte env ctx e byte rest with
    | error failure => simp [Except.map]
    | ok c₁ => simpa [Except.map] using ih c₁ hstep

end

variable {scriptSig : Bytes} {e' : ScriptEngine}

theorem execute_eq_ok_runFrom {script : Bytes} {e : ScriptEngine}
    (h : execute env ctx script e = .ok e') :
    ∃ c, runFrom env ctx ⟨e, script⟩ = .ok c ∧ c.engine = e' := by
  obtain ⟨-, rest, hrun⟩ := execute_eq_ok.mp h
  exact ⟨⟨e', rest⟩, hrun, rfl⟩

/-- A joined run that succeeds is two runs, if no push of the first script is cut off. -/
theorem executeBoth_of_append (hrun : execute env ctx (scriptSig ++ ctx.scriptPubkey) new = .ok e')
    (hcut : ∀ c ∈ executeTrace env ctx scriptSig new, truncated c = false) :
    executeBoth env ctx scriptSig new = .ok e' := by
  obtain ⟨hsize, -⟩ := execute_eq_ok.mp hrun
  rw [length_append] at hsize
  obtain ⟨c, hloop, rfl⟩ := execute_eq_ok_runFrom hrun
  have happend : runFrom env ctx ⟨new, scriptSig ++ ctx.scriptPubkey⟩ =
      runFrom env ctx ⟨new, scriptSig⟩ >>= fun left =>
        runFrom env ctx ⟨left.engine, ctx.scriptPubkey⟩ :=
    runFrom_append (c := ⟨new, scriptSig⟩) hcut
  rw [happend, bind_eq_ok] at hloop
  obtain ⟨left, hleft, hlock⟩ := hloop
  rw [executeBoth, execute_eq_runFrom env ctx (by omega), hleft]
  change execute env ctx ctx.scriptPubkey left.engine = .ok c.engine
  rw [execute_eq_runFrom env ctx (by omega), hlock]
  rfl

theorem verifyScriptAt_iff (ctx : ExecContext)
    (hrun : execute env ctx (scriptSig ++ ctx.scriptPubkey) new = .ok e')
    (hfinal : finalCheck e' = .ok ()) :
    verifyScriptAt env ctx scriptSig = .ok () ↔
      ∀ c ∈ executeTrace env ctx scriptSig new, truncated c = false := by
  obtain ⟨hsize, -⟩ := execute_eq_ok.mp hrun
  rw [length_append] at hsize
  rw [verifyScriptAt, if_neg (by omega), if_neg (by omega), bind_eq_ok]
  constructor
  · rintro ⟨e, hboth, -⟩
    obtain ⟨left, hsig, -⟩ := bind_eq_ok.mp hboth
    obtain ⟨c, hloop, -⟩ := execute_eq_ok_runFrom hsig
    exact not_truncated_of_runFrom hloop
  · intro hcut
    exact ⟨e', executeBoth_of_append hrun hcut, hfinal⟩

variable {ε : Type} {tx : Transaction} {utxoSet : UtxoSet} {currentBlockHeight : UInt64}

/-- What the two scripts of an input are told, by the height that is given. -/
def inputContext (tx : Transaction) (currentBlockHeight : UInt64) (inputIndex : Nat)
    (prevOutput : Utxo) : ExecContext :=
  ⟨tx, currentBlockHeight, inputIndex, prevOutput.output.scriptPubkey⟩

/-- An input that `validate_transaction` accepts passes `verify_script` at the same
height, and none of its pushes takes bytes of the locking script, exactly when
no push of the unlocking script is cut off at the end of that script. -/
theorem validateInput_separates_iff {self e' : ScriptEngine} {input : TxInput} {inputIndex : Nat}
    {prevOutput : Utxo} (hutxo : utxoSet.getUtxo input.previousOutput = some prevOutput)
    (haccept : (validateInput env tx utxoSet currentBlockHeight self input inputIndex :
      Outcome ε (Option ScriptEngine)) = .ok (some e')) :
    (verifyScriptAt env (inputContext tx currentBlockHeight inputIndex prevOutput)
          input.scriptSig = .ok () ∧
        ∀ c ∈ executeTrace env (inputContext tx currentBlockHeight inputIndex prevOutput)
          (input.scriptSig ++ prevOutput.output.scriptPubkey) (self.resetFor self.sigOpCount),
          swallows prevOutput.output.scriptPubkey c = false) ↔
      ∀ c ∈ executeTrace env (inputContext tx currentBlockHeight inputIndex prevOutput)
        input.scriptSig new, truncated c = false := by
  obtain ⟨prevOutput', hutxo', hrun, hfinal⟩ :=
    (validateInput_eq_some env tx utxoSet currentBlockHeight).mp haccept
  rw [hutxo, Option.some.injEq] at hutxo'
  subst hutxo'
  obtain ⟨e₁, hexecute, rfl⟩ := runInput_eq_ok.mp hrun
  rw [finalCheck_addSigOps] at hfinal
  -- the joined run meets the same bytes, whatever was counted before
  have htrace : (∀ c ∈ executeTrace env
        (inputContext tx currentBlockHeight inputIndex prevOutput)
        (input.scriptSig ++ prevOutput.output.scriptPubkey) (self.resetFor self.sigOpCount),
        swallows prevOutput.output.scriptPubkey c = false) ↔
      ∀ c ∈ traceFrom env (inputContext tx currentBlockHeight inputIndex prevOutput)
        (Config.append prevOutput.output.scriptPubkey ⟨new, input.scriptSig⟩),
        swallows prevOutput.output.scriptPubkey c = false := by
    rw [resetFor_eq_addSigOps, executeTrace_addSigOps, forall_mem_map]
    rfl
  rw [htrace, swallows_iff_truncated]
  exact and_iff_right_of_imp
    (verifyScriptAt_iff (inputContext tx currentBlockHeight inputIndex prevOutput)
      hexecute hfinal).mpr

section

open StandardScripts

/-- An output with a given script, the set that holds it alone, and the input that
spends it. -/
def paidTo (scriptPubkey : Bytes) : Utxo :=
  ⟨⟨1000, scriptPubkey, none⟩, false, 0⟩

def paidSet (scriptPubkey : Bytes) : UtxoSet :=
  UtxoSet.new.addUtxo ⟨.replicate 32 1, 0⟩ (paidTo scriptPubkey)

def spendInput (scriptSig : Bytes) : TxInput :=
  .fromOutpoint ⟨.replicate 32 1, 0⟩ scriptSig 0 []

def spendTx (scriptSig : Bytes) : Transaction :=
  .standard 1 [spendInput scriptSig] [] 0 0 []

/-- `OP_1` unlocks `OP_NOP`. -/
theorem validateInput_separates_iff_nop :
    (validateInput .blank (spendTx [0x51]) (paidSet [0x61]) 0 new (spendInput [0x51]) 0 :
        Outcome Unit (Option ScriptEngine)) =
      .ok (some { new with stack := [[1]], opcodeCount := 2 }) ∧
    ((verifyScriptAt .blank (inputContext (spendTx [0x51]) 0 0 (paidTo [0x61])) [0x51] = .ok () ∧
        ∀ c ∈ executeTrace .blank (inputContext (spendTx [0x51]) 0 0 (paidTo [0x61]))
          ([0x51] ++ [0x61]) (new.resetFor 0), swallows [0x61] c = false) ↔
      ∀ c ∈ executeTrace .blank (inputContext (spendTx [0x51]) 0 0 (paidTo [0x61])) [0x51] new,
        truncated c = false) := by
  have hutxo : (paidSet [0x61]).getUtxo (spendInput [0x51]).previousOutput =
      some (paidTo [0x61]) := by decide +kernel
  have haccept : (validateInput .blank (spendTx [0x51]) (paidSet [0x61]) 0 new
        (spendInput [0x51]) 0 : Outcome Unit (Option ScriptEngine)) =
      .ok (some { new with stack := [[1]], opcodeCount := 2 }) := by decide +kernel
  exact ⟨haccept, validateInput_separates_iff hutxo haccept⟩

/-- The unlocking script `OP_PUSHDATA1 25` spends any output that pays to the hash
of a public key: the locking script is its payload and not executed. -/
theorem truncatedPush_unlocks_p2pkh :
    (validateTransaction .blank (spendTx [0x4c, 25])
        (paidSet (createP2pkh (.replicate 20 7))) 0 new : Outcome Unit Bool) = .ok true ∧
      verifyScriptAt .blank
        (inputContext (spendTx [0x4c, 25]) 0 0 (paidTo (createP2pkh (.replicate 20 7))))
        [0x4c, 25] = fail .scriptTooLarge ∧
      swallows (createP2pkh (.replicate 20 7))
        ⟨new, [0x4c, 25] ++ createP2pkh (.replicate 20 7)⟩ = true := by
  decide +kernel

end

end RustyCoin.ScriptEngine
