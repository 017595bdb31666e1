import RustyCoin.Script.Execute

/-!
# What one instruction can do

`dispatch` has one arm for each opcode, but only ten kinds of arms. `Effect`
lists the kinds, and `dispatch_effect` assigns every opcode one of them, so that
a property of the interpreter is proved once for each kind.
-/

namespace RustyCoin.ScriptEngine

open Outcome

variable {env : Platform} {ctx : ExecContext}

/-- The kinds of instructions. An opcode is mentioned where the kind belongs to
it alone. -/
inductive Effect : Opcode → (Config → ScriptResult Config) → Prop
  | onStack (opcode : Opcode) (f : Stack → ScriptResult Stack) :
      Effect opcode (plain (onStack f))
  | onSigOp (opcode : Opcode) (f : Stack → ScriptResult Stack) :
      Effect opcode (plain (onSigOp f))
  | pushDataN (opcode : Opcode) (lenBytes : Nat) : Effect opcode (pushDataN lenBytes)
  | enterBranch (opcode : Opcode) (holds : Bytes → Bool) :
      Effect opcode (plain (enterBranch holds))
  | opElse : Effect .opElse (plain opElse)
  | opEndIf : Effect .opEndIf (plain opEndIf)
  | opToAltStack : Effect .opToAltStack (plain opToAltStack)
  | opFromAltStack : Effect .opFromAltStack (plain opFromAltStack)
  | noOperation (opcode : Opcode) : Effect opcode .ok
  | fails (opcode : Opcode) (error : ScriptError) : Effect opcode (fun _ => fail error)

theorem dispatch_effect (env : Platform) (ctx : ExecContext) (opcode : Opcode) :
    Effect opcode (dispatch env ctx opcode) := by
  cases opcode
  case opElse => exact .opElse
  case opEndIf => exact .opEndIf
  case opToAltStack => exact .opToAltStack
  case opFromAltStack => exact .opFromAltStack
  all_goals
    first
      | exact .onStack _ _
      | exact .onSigOp _ _
      | exact .pushDataN _ _
      | exact .enterBranch _ _
      | exact .noOperation _
      | exact .fails _ _

variable {f : ScriptEngine → ScriptResult ScriptEngine} {c : Config}

theorem plain_eq_ok {c' : Config} :
    plain f c = .ok c' ↔ ∃ e, f c.engine = .ok e ∧ c' = ⟨e, c.rest⟩ := by
  simp only [plain, bind_eq_ok, pure_eq_ok, Except.ok.injEq, eq_comm (b := c')]

theorem plain_ok {e : ScriptEngine} (h : f c.engine = .ok e) : plain f c = .ok ⟨e, c.rest⟩ :=
  plain_eq_ok.mpr ⟨e, h, rfl⟩

theorem plain_fail
    {error : ScriptError} (h : f c.engine = fail error) : plain f c = fail error := by
  rw [plain, h, fail_bind]

variable {e' : ScriptEngine} {v : Bytes} {n : Nat} {opcode : Opcode}

theorem onStack_eq_ok {f : Stack → ScriptResult Stack} {e : ScriptEngine} :
    onStack f e = .ok e' ↔ ∃ s, f e.stack = .ok s ∧ e' = { e with stack := s } := by
  simp only [onStack, bind_eq_ok, pure_eq_ok, Except.ok.injEq, eq_comm (b := e')]

/-- A change of the engine that plain instructions do not notice: they read and write
the data stacks, and count signature operations. -/
structure Frame (g : ScriptEngine → ScriptEngine) : Prop where
  stack : ∀ e, (g e).stack = e.stack
  altStack : ∀ e, (g e).altStack = e.altStack
  setData : ∀ e s alt, g { e with stack := s, altStack := alt } =
    { g e with stack := s, altStack := alt }
  countSigOp : ∀ e, g { e with sigOpCount := e.sigOpCount + 1 } =
    { g e with sigOpCount := (g e).sigOpCount + 1 }

variable {g : ScriptEngine → ScriptEngine}

variable (hg : Frame g)

include hg

theorem Frame.setStack (e : ScriptEngine) (s : Stack) :
    g { e with stack := s } = { g e with stack := s } := by
  calc g { e with stack := s } = { g e with stack := s, altStack := e.altStack } :=
        hg.setData e s e.altStack
    _ = { g e with stack := s } := by rw [← hg.altStack e]

variable (f : Stack → ScriptResult Stack)

theorem onStack_frame (e : ScriptEngine) : onStack f (g e) = (onStack f e).map g := by
  rw [onStack, onStack, hg.stack]
  cases f e.stack with
  | error failure => rfl
  | ok s => exact congrArg Except.ok (hg.setStack e s).symm

theorem onSigOp_frame (e : ScriptEngine) : onSigOp f (g e) = (onSigOp f e).map g := by
  rw [onSigOp, onSigOp, ← hg.countSigOp]
  exact onStack_frame hg f _

theorem opToAltStack_frame (e : ScriptEngine) : opToAltStack (g e) = (opToAltStack e).map g := by
  rw [opToAltStack, opToAltStack, hg.stack, hg.altStack]
  rcases popData e.stack with failure | ⟨val, s⟩
  · rfl
  · exact congrArg Except.ok (hg.setData e s (val :: e.altStack)).symm

theorem opFromAltStack_frame (e : ScriptEngine) :
    opFromAltStack (g e) = (opFromAltStack e).map g := by
  rw [opFromAltStack, opFromAltStack, hg.stack, hg.altStack]
  cases e.altStack with
  | nil => rfl
  | cons val alt => exact congrArg Except.ok (hg.setData e (val :: e.stack) alt).symm

theorem pushDataN_frame (n : Nat) (e : ScriptEngine) (rest : Bytes) :
    pushDataN n ⟨g e, rest⟩ = (pushDataN n ⟨e, rest⟩).map fun c => ⟨g c.engine, c.rest⟩ := by
  simp only [pushDataN, pushData]
  rcases readBytes rest n with failure | ⟨lenData, rest⟩
  · rfl
  · rcases hlen : asUsize lenData with failure | len
    · simp [hlen, Except.map]
    · rcases hdata : readBytes rest len.toNat with failure | ⟨data, rest'⟩
      · simp [hlen, hdata, Except.map]
      · simp only [hlen, hdata, ok_bind, onStack_frame hg]
        rfl

variable {e : ScriptEngine} {b : Bool} {rest : List Bool}

omit hg

theorem enterBranch_executed (holds : Bytes → Bool) (hzero : e.skipDepth = 0) :
    enterBranch holds e = .ok { e with
      stack := (popCondition holds e.stack).2
      controlStack := (popCondition holds e.stack).1 :: e.controlStack
      skipDepth := if (popCondition holds e.stack).1 then 0 else 1 } := by
  simp [enterBranch, hzero]

variable (hzero : e.skipDepth = 0)

include hzero

theorem opElse_executed (hc : e.controlStack = b :: rest) :
    opElse e = .ok { e with
      controlStack := (!b) :: rest
      skipDepth := if b then 1 else 0 } := by
  simp [opElse, hzero, hc]

theorem opEndIf_executed (hc : e.controlStack = b :: rest) :
    opEndIf e = .ok { e with controlStack := rest } := by
  simp [opEndIf, hzero, hc]

theorem opElse_unopened (hc : e.controlStack = []) : opElse e = fail .invalidStackState := by
  simp [opElse, hzero, hc]

theorem opEndIf_unopened (hc : e.controlStack = []) : opEndIf e = fail .invalidStackState := by
  simp [opEndIf, hzero, hc]

omit hzero

theorem opFromAltStack_executed {rest : Stack} (ha : e.altStack = v :: rest) :
    opFromAltStack e = .ok { e with stack := v :: e.stack, altStack := rest } := by
  simp [opFromAltStack, ha]

theorem opFromAltStack_empty (ha : e.altStack = []) : opFromAltStack e = fail .stackUnderflow := by
  simp [opFromAltStack, ha]

theorem opToAltStack_eq_ok (h : opToAltStack e = .ok e') :
    ∃ v s, e.stack = v :: s ∧ e' = { e with stack := s, altStack := v :: e.altStack } := by
  unfold opToAltStack at h
  cases hs : e.stack with
  | nil => simp [hs, popData] at h
  | cons v s =>
    simp only [hs, popData, ok_bind, pure_eq_ok, Except.ok.injEq] at h
    exact ⟨v, s, rfl, h.symm⟩

theorem opToAltStack_executed {s : Stack} (hs : e.stack = v :: s) :
    opToAltStack e = .ok { e with stack := s, altStack := v :: e.altStack } := by
  simp [opToAltStack, hs, popData]

theorem readBytes_eq_ok {rest data rest' : Bytes} :
    readBytes rest n = .ok (data, rest') ↔
      n ≤ rest.length ∧ data = rest.take n ∧ rest' = rest.drop n := by
  unfold readBytes
  split
  · simp only [fail_ne_ok, false_iff]
    omega
  · simp only [Except.ok.injEq, Prod.mk.injEq]
    constructor
    · rintro ⟨rfl, rfl⟩
      exact ⟨by omega, rfl, rfl⟩
    · rintro ⟨-, rfl, rfl⟩
      exact ⟨rfl, rfl⟩

variable {c c' : Config}

/-- A push puts one item on the stack and moves on to a later byte. -/
theorem pushDataN_eq_ok (h : pushDataN n c = .ok c') :
    ∃ data rest, c' = ⟨{ c.engine with stack := data :: c.engine.stack }, rest⟩ ∧
      rest.length ≤ c.rest.length ∧
      ∀ e, pushDataN n ⟨e, c.rest⟩ = .ok ⟨{ e with stack := data :: e.stack }, rest⟩ := by
  simp only [pushDataN, bind_eq_ok] at h
  obtain ⟨⟨lenData, rest₁⟩, h₁, len, h₂, ⟨data, rest₂⟩, h₃, engine, h₄, h₅⟩ := h
  simp only [pushData, onStack, ok_bind, pure_eq_ok, Except.ok.injEq] at h₄ h₅
  subst h₄ h₅
  refine ⟨data, rest₂, rfl, ?_, fun e => ?_⟩
  · have hlen₁ := (readBytes_eq_ok.mp h₁).2.2
    have hlen₂ := (readBytes_eq_ok.mp h₃).2.2
    rw [hlen₂, hlen₁, List.length_drop, List.length_drop]
    omega
  · simp [pushDataN, h₁, h₂, h₃, pushData, onStack]

def isSigOpcode : Opcode → Bool
  | .opCheckSig | .opCheckSigVerify | .opCheckMultiSig | .opCheckMultiSigVerify => true
  | _ => false

/-- What an instruction can have changed: the data stacks, the conditionals, and the
count of signature operations, by `k`. -/
def Changed (k : Nat) (e e' : ScriptEngine) : Prop :=
  ∃ stack altStack controlStack skipDepth, e' =
    { e with stack, altStack, controlStack, skipDepth, sigOpCount := e.sigOpCount + k }

def Changes (k : Nat) (run : Config → ScriptResult Config) : Prop :=
  ∀ c c', run c = .ok c' → Changed k c.engine c'.engine

theorem changes_plain {k : Nat} {f : ScriptEngine → ScriptResult ScriptEngine}
    (hf : ∀ e e', f e = .ok e' → Changed k e e') : Changes k (plain f) := by
  intro c c' h
  obtain ⟨e, he, rfl⟩ := plain_eq_ok.mp h
  exact hf _ _ he

theorem changes_onStack : Changes 0 (plain (onStack f)) := by
  refine changes_plain fun e e' he => ?_
  obtain ⟨s, -, rfl⟩ := onStack_eq_ok.mp he
  exact ⟨_, _, _, _, rfl⟩

theorem changes_onSigOp : Changes 1 (plain (onSigOp f)) := by
  refine changes_plain fun e e' he => ?_
  obtain ⟨s, -, rfl⟩ := onStack_eq_ok.mp he
  exact ⟨_, _, _, _, rfl⟩

theorem changes_pushDataN (n : Nat) : Changes 0 (pushDataN n) := by
  intro c c' h
  obtain ⟨data, rest, rfl, -, -⟩ := pushDataN_eq_ok h
  exact ⟨_, _, _, _, rfl⟩

theorem changes_enterBranch (holds : Bytes → Bool) : Changes 0 (plain (enterBranch holds)) := by
  refine changes_plain fun e e' he => ?_
  unfold enterBranch at he
  split at he
  all_goals
    cases he
    exact ⟨_, _, _, _, rfl⟩

theorem changes_opElse : Changes 0 (plain opElse) := by
  refine changes_plain fun e e' he => ?_
  unfold opElse at he
  split at he
  · cases he
    exact ⟨_, _, _, _, rfl⟩
  · split at he
    · cases he
    · cases he
      exact ⟨_, _, _, _, rfl⟩

theorem changes_opEndIf : Changes 0 (plain opEndIf) := by
  refine changes_plain fun e e' he => ?_
  unfold opEndIf at he
  split at he
  · cases he
    exact ⟨_, _, _, _, rfl⟩
  · split at he
    · cases he
    · cases he
      exact ⟨_, _, _, _, rfl⟩

theorem changes_opToAltStack : Changes 0 (plain opToAltStack) := by
  refine changes_plain fun e e' he => ?_
  obtain ⟨v, s, -, rfl⟩ := opToAltStack_eq_ok he
  exact ⟨_, _, _, _, rfl⟩

theorem changes_opFromAltStack : Changes 0 (plain opFromAltStack) := by
  refine changes_plain fun e e' he => ?_
  unfold opFromAltStack at he
  split at he
  · cases he
  · cases he
    exact ⟨_, _, _, _, rfl⟩

theorem changes_ok : Changes 0 .ok := by
  rintro c c' ⟨⟩
  exact ⟨_, _, _, _, rfl⟩

theorem changes_fail (error : ScriptError) : Changes 0 fun _ => fail error :=
  fun _ c' h => absurd h (fail_ne_ok error c')

theorem dispatch_changes (env : Platform) (ctx : ExecContext) (opcode : Opcode) :
    Changes (isSigOpcode opcode).toNat (dispatch env ctx opcode) := by
  cases opcode
  case opElse => exact changes_opElse
  case opEndIf => exact changes_opEndIf
  case opToAltStack => exact changes_opToAltStack
  case opFromAltStack => exact changes_opFromAltStack
  all_goals
    first
      | exact changes_onStack _
      | exact changes_onSigOp _
      | exact changes_pushDataN _
      | exact changes_enterBranch _
      | exact changes_ok
      | exact changes_fail _

/-- No instruction touches the opcode count. -/
theorem dispatch_opcodeCount
    (h : dispatch env ctx opcode c = .ok c') :
    c'.engine.opcodeCount = c.engine.opcodeCount := by
  obtain ⟨_, _, _, _, hchanged⟩ := dispatch_changes env ctx opcode c c' h
  rw [hchanged]

theorem dispatch_sigOpCount
    (h : dispatch env ctx opcode c = .ok c') :
    c'.engine.sigOpCount = c.engine.sigOpCount + (isSigOpcode opcode).toNat := by
  obtain ⟨_, _, _, _, hchanged⟩ := dispatch_changes env ctx opcode c c' h
  rw [hchanged]

theorem checkDepth_eq_ok :
    checkDepth c = .ok c' ↔ c.engine.stack.length ≤ maxStackDepth ∧ c' = c := by
  unfold checkDepth
  split
  · simp only [fail_ne_ok, false_iff]
    omega
  · simp only [Except.ok.injEq, eq_comm (b := c')]
    exact ⟨fun h => ⟨by omega, h⟩, fun h => h.2⟩

section

variable {e : ScriptEngine} {byte : UInt8} {rest : Bytes}

theorem stepByte_full (hcount : maxOpcodeCount ≤ e.opcodeCount) :
    stepByte env ctx e byte rest = fail .tooManyOpcodes :=
  if_pos hcount

theorem stepByte_skipped (hcount : e.opcodeCount < maxOpcodeCount) (hskip : e.shouldSkip = true) :
    stepByte env ctx e byte rest =
      .ok ⟨skipOpcode (.ofByte byte) e.countOpcode, rest⟩ := by
  rw [stepByte, if_neg (Nat.not_le.mpr hcount), if_pos hskip]

theorem stepByte_executed (hcount : e.opcodeCount < maxOpcodeCount) (hskip : e.shouldSkip = false) :
    stepByte env ctx e byte rest =
      dispatch env ctx (.ofByte byte) ⟨e.countOpcode, rest⟩ >>= checkDepth := by
  rw [stepByte, if_neg (Nat.not_le.mpr hcount), hskip]
  rfl

end

variable {c' c : Config}

/-- One iteration of the loop that returns: an instruction is skipped, or it is
executed and its stack is within the limit. -/
theorem stepByte_eq_ok {e : ScriptEngine} {byte : UInt8} {rest : Bytes} :
    stepByte env ctx e byte rest = .ok c' ↔
      e.opcodeCount < maxOpcodeCount ∧
        ((0 < e.skipDepth ∧ c' = ⟨skipOpcode (.ofByte byte) e.countOpcode, rest⟩) ∨
          (e.skipDepth = 0 ∧
            dispatch env ctx (.ofByte byte) ⟨e.countOpcode, rest⟩ = .ok c' ∧
            c'.engine.stack.length ≤ maxStackDepth)) := by
  unfold stepByte
  split
  · rename_i hcount
    simp only [fail_ne_ok, false_iff]
    omega
  · rename_i hcount
    have hlt : e.opcodeCount < maxOpcodeCount := by omega
    split
    · rename_i hskip
      have hpos : 0 < e.skipDepth := by simpa [shouldSkip] using hskip
      simp only [Except.ok.injEq, hlt, hpos, true_and, eq_comm (b := c')]
      simp [Nat.pos_iff_ne_zero.mp hpos]
    · rename_i hskip
      have hzero : e.skipDepth = 0 := by simpa [shouldSkip] using hskip
      simp only [hlt, hzero, true_and, bind_eq_ok, checkDepth_eq_ok]
      constructor
      · rintro ⟨c, hc, hdepth, rfl⟩
        exact .inr ⟨hc, hdepth⟩
      · rintro (⟨hlt0, -⟩ | ⟨hc, hdepth⟩)
        · omega
        · exact ⟨c', hc, hdepth, rfl⟩

theorem step_of_rest {byte : UInt8} {rest : Bytes} (h : c.rest = byte :: rest) :
    step env ctx c = some (stepByte env ctx c.engine byte rest) := by
  rw [step, h]

theorem dispatch_rest_le {opcode : Opcode}
    (h : dispatch env ctx opcode c = .ok c') : c'.rest.length ≤ c.rest.length := by
  have heffect := dispatch_effect env ctx opcode
  revert h heffect
  generalize dispatch env ctx opcode = run
  intro h heffect
  cases heffect with
  | pushDataN _ n =>
    obtain ⟨data, rest, rfl, hle, -⟩ := pushDataN_eq_ok h
    exact hle
  | noOperation _ =>
    cases h
    exact Nat.le_refl _
  | fails _ error => exact absurd h (fail_ne_ok error c')
  | _ =>
    obtain ⟨e, -, rfl⟩ := plain_eq_ok.mp h
    exact Nat.le_refl _

/-- Every iteration reads at least the opcode. -/
theorem step_rest_lt (h : step env ctx c = some (.ok c')) : c'.rest.length < c.rest.length := by
  obtain ⟨e, bytes⟩ := c
  cases bytes with
  | nil => simp [step] at h
  | cons byte rest =>
    rw [step_of_rest rfl, Option.some.injEq] at h
    obtain ⟨-, ⟨-, rfl⟩ | ⟨-, hd, -⟩⟩ := stepByte_eq_ok.mp h
    · exact Nat.lt_succ_self _
    · exact Nat.lt_succ_of_le (dispatch_rest_le hd)

theorem step_rest_pos {r : ScriptResult Config} (h : step env ctx c = some r) :
    0 < c.rest.length := by
  cases hrest : c.rest with
  | nil => simp [step, hrest] at h
  | cons byte rest => exact Nat.zero_lt_succ _

theorem execute_eq_ok {script : Bytes} {e e' : ScriptEngine} :
    execute env ctx script e = .ok e' ↔
      script.length ≤ maxScriptBytes ∧
        ∃ rest, Loop.run (step env ctx) script.length ⟨e, script⟩ = .ok ⟨e', rest⟩ := by
  unfold execute
  split
  · simp only [fail_ne_ok, false_iff]
    omega
  · simp only [bind_eq_ok, pure_eq_ok, Except.ok.injEq]
    constructor
    · rintro ⟨c, hc, rfl⟩
      exact ⟨by omega, c.rest, hc⟩
    · rintro ⟨-, rest, hrun⟩
      exact ⟨_, hrun, rfl⟩

theorem finalCheck_eq_ok {e : ScriptEngine} :
    finalCheck e = .ok () ↔ ∃ x, e.stack = [x] ∧ isFalse x = false := by
  unfold finalCheck
  cases he : e.stack with
  | nil => simp [popData]
  | cons x rest =>
    simp only [popData, ok_bind]
    cases hx : isFalse x with
    | true => simp [hx]
    | false =>
      cases rest with
      | nil => simp [hx]
      | cons y ys => simp

end RustyCoin.ScriptEngine
