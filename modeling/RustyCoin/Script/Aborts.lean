import RustyCoin.Script.Isolation

/-!
# Scripts that abort

Two kinds of instructions abort instead of returning an error: a multi-signature
check that takes an empty item for a count, and a substring whose bounds wrap
around. The failures of every instruction are listed here, for any kind of
failure that includes the errors; a script fails in no other way than its
instructions do.
-/

namespace RustyCoin.ScriptEngine

open Outcome

/-- One of the two counts of a multi-signature check is an empty item. -/
def multiSigAborts : Stack → Bool
  | [] => false
  | [] :: _ => true
  | (count :: _) :: s => decide (count.toNat ≤ s.length) && (s.drop count.toNat).head? == some []

/-- The end of a substring wraps around to before its start. -/
def substrAborts : Stack → Bool
  | size :: offset :: data :: _ =>
    let first := UInt64.ofNat (leValue offset)
    let last := first + UInt64.ofNat (leValue size)
    decide (size.length ≤ 8) && decide (offset.length ≤ 8) &&
      decide (last.toNat ≤ data.length) && decide (first > last)
  | _ => false

/-- Does the instruction abort on this stack? -/
def aborts (opcode : Opcode) (s : Stack) : Bool :=
  match opcode with
  | .opCheckMultiSig => multiSigAborts s
  | .opCheckMultiSigVerify => multiSigAborts s
  | .opSubStr => substrAborts s
  | _ => false

/-- The interpreter is about to execute an instruction that aborts. -/
def Config.Aborts (c : Config) : Prop :=
  c.engine.opcodeCount < maxOpcodeCount ∧ c.engine.shouldSkip = false ∧
    ∃ byte rest, c.rest = byte :: rest ∧ aborts (.ofByte byte) c.engine.stack = true

variable (env : Platform) (ctx : ExecContext)

section

theorem popMany_eq_ok {n : Nat} {s : Stack} (hle : n ≤ s.length) :
    popMany n s = .ok (s.take n, s.drop n) := by
  induction n generalizing s with
  | zero => rfl
  | succ n ih =>
    cases s with
    | nil => cases hle
    | cons a s => simp [popMany, popData, ih (Nat.le_of_succ_le_succ hle)]

variable {P : Failure ScriptError → Prop} (herr : ∀ e, P (.err e))
include herr

theorem failsWith_popData (s : Stack) : FailsWith P (popData s) := by
  cases s with
  | nil => simp [popData, herr]
  | cons a rest => simp [popData]

theorem failsWith_asUsize (v : Bytes) : FailsWith P (asUsize v) := by
  simp [asUsize, herr]

theorem failsWith_asU32 (v : Bytes) : FailsWith P (asU32 v) := by
  simp [asU32, herr]

theorem failsWith_readBytes (rest : Bytes) (n : Nat) : FailsWith P (readBytes rest n) := by
  simp [readBytes, herr]

theorem failsWith_popCount (s : Stack) :
    FailsWith P (popCount s) ↔ (s.head? = some [] → P .panic) := by
  rcases s with _ | ⟨_ | ⟨b, v⟩, s⟩
  · simp [popCount, popData, herr]
  all_goals simp [popCount, popData]

theorem failsWith_popMany (n : Nat) (s : Stack) : FailsWith P (popMany n s) := by
  induction n generalizing s with
  | zero => simp [popMany]
  | succ n ih => simp [popMany, failsWith_popData herr, ih]

theorem failsWith_calculateSighash (tx : Transaction) (inputIndex : Nat) (scriptPubkey : Bytes) :
    FailsWith P (calculateSighash env tx inputIndex scriptPubkey) := by
  simp [calculateSighash, herr]

theorem failsWith_verifiesUnderSome (message signature : Bytes) (publicKeys : List Bytes) :
    FailsWith P (verifiesUnderSome env message signature publicKeys) := by
  induction publicKeys with
  | nil => simp [verifiesUnderSome]
  | cons publicKey publicKeys ih => simp [verifiesUnderSome, herr, ih]

theorem failsWith_verifiedSignatures (message : Bytes) (publicKeys signatures : List Bytes) :
    FailsWith P (verifiedSignatures env message publicKeys signatures) := by
  induction signatures with
  | nil => simp [verifiedSignatures]
  | cons signature signatures ih =>
    simp [verifiedSignatures, failsWith_verifiesUnderSome env herr, ih]

end

section

variable {P : Failure ScriptError → Prop} {c : Config} {e : ScriptEngine}

@[simp] theorem failsWith_plain {f : ScriptEngine → ScriptResult ScriptEngine} :
    FailsWith P (plain f c) ↔ FailsWith P (f c.engine) := by
  simp [plain]

variable {f : Stack → ScriptResult Stack}

@[simp] theorem failsWith_onStack : FailsWith P (onStack f e) ↔ FailsWith P (f e.stack) := by
  simp [onStack]

@[simp] theorem failsWith_onSigOp : FailsWith P (onSigOp f e) ↔ FailsWith P (f e.stack) := by
  simp [onSigOp]

@[simp] theorem failsWith_pushData (data : Bytes) : FailsWith P (pushData data e) := by
  simp [pushData]

@[simp] theorem failsWith_enterBranch (holds : Bytes → Bool) :
    FailsWith P (enterBranch holds e) := by
  simp [enterBranch]

variable (herr : ∀ e, P (.err e))
include herr

theorem failsWith_pushDataN (n : Nat) : FailsWith P (pushDataN n c) := by
  simp [pushDataN, failsWith_readBytes herr, failsWith_asUsize herr]

theorem failsWith_opElse : FailsWith P (opElse e) := by
  refine failsWith_ite.mpr ⟨fun _ => failsWith_ok _, fun _ => ?_⟩
  cases e.controlStack with
  | nil => simp [herr]
  | cons condition rest => exact failsWith_ok _

theorem failsWith_opEndIf : FailsWith P (opEndIf e) := by
  refine failsWith_ite.mpr ⟨fun _ => failsWith_ok _, fun _ => ?_⟩
  cases e.controlStack with
  | nil => simp [herr]
  | cons condition rest => exact failsWith_ok _

theorem failsWith_opToAltStack : FailsWith P (opToAltStack e) := by
  simp [opToAltStack, failsWith_popData herr]

theorem failsWith_opFromAltStack : FailsWith P (opFromAltStack e) := by
  rw [opFromAltStack]
  cases e.altStack with
  | nil => simp [herr]
  | cons val rest => exact failsWith_ok _

theorem failsWith_opVerify (s : Stack) : FailsWith P (opVerify s) := by
  simp [opVerify, failsWith_popData herr, herr]

theorem failsWith_opSubstr (s : Stack) :
    FailsWith P (opSubstr s) ↔ (substrAborts s = true → P .panic) := by
  rcases s with _ | ⟨size, _ | ⟨offset, _ | ⟨data, rest⟩⟩⟩
  · simp [opSubstr, popData, substrAborts, herr]
  · simp [opSubstr, popData, substrAborts, herr, failsWith_asUsize herr]
  · simp [opSubstr, popData, substrAborts, herr, failsWith_asUsize herr]
  · by_cases hsize : size.length ≤ 8
    · by_cases hoffset : offset.length ≤ 8
      all_goals simp [opSubstr, popData, substrAborts, asUsize, hsize, hoffset, herr]
    · simp [opSubstr, popData, substrAborts, asUsize, hsize, herr]

theorem failsWith_opCheckMultiSig (s : Stack) :
    FailsWith P (opCheckMultiSig env ctx s) ↔ (multiSigAborts s = true → P .panic) := by
  rcases s with _ | ⟨_ | ⟨count, v⟩, s⟩
  · simp [opCheckMultiSig, popCount, popData, multiSigAborts, herr]
  · simp [opCheckMultiSig, popCount, popData, multiSigAborts]
  · have hcount : popCount ((count :: v) :: s) = .ok (count.toNat, s) := rfl
    rw [opCheckMultiSig, hcount, ok_bind]
    by_cases hle : count.toNat ≤ s.length
    · simp [popMany_eq_ok hle, multiSigAborts, hle, herr, failsWith_popCount herr,
        failsWith_popMany herr, failsWith_popData herr, failsWith_calculateSighash env herr,
        failsWith_verifiedSignatures env herr]
    · simp [multiSigAborts, hle, herr, Nat.lt_of_not_le hle]

theorem failsWith_dispatch (opcode : Opcode) :
    FailsWith P (dispatch env ctx opcode c) ↔
      (aborts opcode c.engine.stack = true → P .panic) := by
  unfold dispatch aborts
  cases opcode
  all_goals dsimp only
  case opCheckMultiSig => simp [failsWith_opCheckMultiSig env ctx herr]
  case opCheckMultiSigVerify =>
    simp [opCheckMultiSigVerify, failsWith_opCheckMultiSig env ctx herr, failsWith_opVerify herr]
  case opSubStr => simp [failsWith_opSubstr herr]
  case opElse => simp [failsWith_opElse herr]
  case opEndIf => simp [failsWith_opEndIf herr]
  case opToAltStack => simp [failsWith_opToAltStack herr]
  case opFromAltStack => simp [failsWith_opFromAltStack herr]
  all_goals simp [herr, failsWith_popData herr, failsWith_asUsize herr,
    failsWith_asU32 herr, failsWith_pushDataN herr, failsWith_opVerify herr,
    failsWith_calculateSighash env herr, opDup, opEqual, opEqualVerify, opDigest,
    opHash160, opRipemd160, opSha1, opSha256, opHash256, opDrop, opNip, opOver, opPick, opRoll,
    opRot, opSwap, opTuck, op2Drop, op2Dup, op3Dup, op2Over, op2Rot, op2Swap, opCat, opLeft,
    opRight, opSize, opInvert, opBitwise, opAnd, opOr, opXor, opCheckSig, opCheckSigVerify,
    opCheckLockTimeVerify, opCheckSequenceVerify, opIf, opNotIf]

/-- An iteration of the loop, whatever its instruction is: the limits make errors only. -/
theorem failsWith_iteration {r : ScriptResult Config} {skipped : Config} {Panics : Prop}
    (hr : FailsWith P r ↔ (Panics → P .panic)) :
    FailsWith P (if e.opcodeCount ≥ maxOpcodeCount then fail .tooManyOpcodes
      else if e.shouldSkip then .ok skipped else r >>= checkDepth) ↔
      (e.opcodeCount < maxOpcodeCount → e.shouldSkip = false → Panics → P .panic) := by
  have hdepth : ∀ c, FailsWith P (checkDepth c) := by simp [checkDepth, herr]
  rw [failsWith_ite, failsWith_ite, failsWith_bind, hr]
  constructor
  · rintro ⟨-, hrun⟩ hcount hskip
    exact ((hrun (Nat.not_le.mpr hcount)).2 (Bool.eq_false_iff.mp hskip)).1
  · intro hpanics
    refine ⟨fun _ => (failsWith_fail _).mpr (herr _), fun hcount => ⟨fun _ => failsWith_ok _,
      fun hskip => ⟨?_, fun c _ => hdepth c⟩⟩⟩
    exact hpanics (Nat.lt_of_not_ge hcount) (Bool.eq_false_iff.mpr hskip)

theorem failsWith_stepByte {byte : UInt8} {rest : Bytes} :
    FailsWith P (stepByte env ctx e byte rest) ↔
      (Config.Aborts ⟨e, byte :: rest⟩ → P .panic) := by
  have hdispatch := failsWith_dispatch env ctx herr (c := ⟨e.countOpcode, rest⟩) (.ofByte byte)
  rw [stepByte, failsWith_iteration herr hdispatch]
  constructor
  · rintro hpanics ⟨hcount, hskip, _, _, ⟨⟩, hopcode⟩
    exact hpanics hcount hskip hopcode
  · intro haborts hcount hskip hopcode
    exact haborts ⟨hcount, hskip, byte, rest, rfl, hopcode⟩

end

section

variable {P : Failure ScriptError → Prop} (herr : ∀ e, P (.err e))
include herr

theorem failsWith_step (c : Config) :
    (∀ r, step env ctx c = some r → FailsWith P r) ↔ (c.Aborts → P .panic) := by
  obtain ⟨engine, bytes⟩ := c
  cases bytes with
  | nil =>
    refine iff_of_true nofun ?_
    rintro ⟨-, -, _, _, ⟨⟩, -⟩
  | cons byte rest =>
    rw [← failsWith_stepByte env ctx herr]
    simp [step]

/-- A script that is not too long fails where one of its instructions does. -/
theorem failsWith_execute (script : Bytes) (e : ScriptEngine) :
    FailsWith P (execute env ctx script e) ↔
      (script.length ≤ maxScriptBytes →
        ∀ c ∈ executeTrace env ctx script e, c.Aborts → P .panic) := by
  have hrun : FailsWith P (Loop.run (step env ctx) script.length ⟨e, script⟩) ↔ _ :=
    Loop.failsWith_run (fun c => c.rest.length) (fun _ _ => step_rest_lt)
      (fun _ _ => step_rest_pos) (Nat.le_refl _)
  simp only [failsWith_step env ctx herr] at hrun
  rw [execute, failsWith_ite, failsWith_bind, hrun, executeTrace]
  simp [herr]

theorem failsWith_finalCheck (e : ScriptEngine) : FailsWith P (finalCheck e) := by
  simp [finalCheck, failsWith_popData herr, herr]

end

variable {ε : Type} (tx : Transaction) (utxoSet : UtxoSet) (currentBlockHeight : UInt64)

variable (e : ScriptEngine) (input : TxInput) (inputIndex : Nat)

/-- Run the two scripts of an input, one after the other. -/
def runInput (prevOutput : Utxo) : ScriptResult ScriptEngine :=
  execute env ⟨tx, currentBlockHeight, inputIndex, prevOutput.output.scriptPubkey⟩
    (input.scriptSig ++ prevOutput.output.scriptPubkey) (e.resetFor e.sigOpCount)

/-- The scripts of an input get to an instruction that aborts. -/
def InputAborts : Prop :=
  ∃ prevOutput, utxoSet.getUtxo input.previousOutput = some prevOutput ∧
    (input.scriptSig ++ prevOutput.output.scriptPubkey).length ≤ maxScriptBytes ∧
    ∃ c ∈ executeTrace env
      ⟨tx, currentBlockHeight, inputIndex, prevOutput.output.scriptPubkey⟩
      (input.scriptSig ++ prevOutput.output.scriptPubkey) (e.resetFor e.sigOpCount), c.Aborts

/-- One of the inputs aborts, and those before it are accepted. -/
def InputsAbort : List (TxInput × Nat) → ScriptEngine → Prop
  | [], _ => False
  | (input, inputIndex) :: rest, e =>
    InputAborts env tx utxoSet currentBlockHeight e input inputIndex ∨
      ∃ prevOutput e', utxoSet.getUtxo input.previousOutput = some prevOutput ∧
        runInput env tx currentBlockHeight e input inputIndex prevOutput = .ok e' ∧
        finalCheck e' = .ok () ∧ InputsAbort rest e'

/-- The scripts of a transaction abort. -/
def ScriptsAbort (self : ScriptEngine) : Prop :=
  tx.isCoinbase = false ∧
    InputsAbort env tx utxoSet currentBlockHeight tx.getInputs.zipIdx { self with sigOpCount := 0 }

variable {Q : Failure ε → Prop}

theorem failsWith_validateInput :
    FailsWith Q (validateInput env tx utxoSet currentBlockHeight e input inputIndex) ↔
      (InputAborts env tx utxoSet currentBlockHeight e input inputIndex → Q .panic) := by
  rw [validateInput, InputAborts]
  cases utxoSet.getUtxo input.previousOutput with
  | none => simp
  | some prevOutput =>
    have herr : ∀ e, Failure.Uncaught (ε := ScriptError) Q (.err e) := fun _ => trivial
    simp [failsWith_execute env _ herr, failsWith_finalCheck herr, Failure.Uncaught]

theorem validateInput_eq_some {e e' : ScriptEngine} {input : TxInput} {inputIndex : Nat} :
    (validateInput env tx utxoSet currentBlockHeight e input inputIndex :
        Outcome ε (Option ScriptEngine)) = .ok (some e') ↔
      ∃ prevOutput, utxoSet.getUtxo input.previousOutput = some prevOutput ∧
        runInput env tx currentBlockHeight e input inputIndex prevOutput = .ok e' ∧
        finalCheck e' = .ok () := by
  rw [validateInput]
  cases utxoSet.getUtxo input.previousOutput with
  | none => simp
  | some prevOutput =>
    simp only [attempt_eq_some, bind_eq_ok, pure_eq_ok, Except.ok.injEq, Option.some.injEq,
      exists_eq_left']
    constructor
    · rintro ⟨_, hrun, _, hfinal, rfl⟩
      exact ⟨hrun, hfinal⟩
    · rintro ⟨hrun, hfinal⟩
      exact ⟨e', hrun, (), hfinal, rfl⟩

theorem failsWith_validateInputs (inputs : List (TxInput × Nat)) (e : ScriptEngine) :
    FailsWith Q (validateInputs env tx utxoSet currentBlockHeight inputs e) ↔
      (InputsAbort env tx utxoSet currentBlockHeight inputs e → Q .panic) := by
  induction inputs generalizing e with
  | nil => exact iff_of_true (failsWith_ok true) nofun
  | cons head rest ih =>
    obtain ⟨input, inputIndex⟩ := head
    rw [validateInputs, failsWith_bind, failsWith_validateInput, InputsAbort, or_imp]
    refine and_congr_right fun _ => ⟨?_, ?_⟩
    · rintro hrest ⟨prevOutput, e', hutxo, hrun, hfinal, haborts⟩
      refine (ih e').mp (hrest (some e') ?_) haborts
      exact (validateInput_eq_some env tx utxoSet currentBlockHeight).mpr
        ⟨prevOutput, hutxo, hrun, hfinal⟩
    · intro haborts result hresult
      cases result with
      | none => exact failsWith_ok false
      | some e' =>
        obtain ⟨prevOutput, hutxo, hrun, hfinal⟩ :=
          (validateInput_eq_some env tx utxoSet currentBlockHeight).mp hresult
        exact (ih e').mpr fun h => haborts ⟨prevOutput, e', hutxo, hrun, hfinal, h⟩

/-- A transaction is decided unless its scripts abort. -/
theorem failsWith_validateTransaction (self : ScriptEngine) :
    FailsWith Q (validateTransaction env tx utxoSet currentBlockHeight self) ↔
      (ScriptsAbort env tx utxoSet currentBlockHeight self → Q .panic) := by
  rw [validateTransaction, failsWith_ite, failsWith_validateInputs, ScriptsAbort, and_imp,
    Bool.not_eq_true]
  exact and_iff_right fun _ => failsWith_ok true

end RustyCoin.ScriptEngine
