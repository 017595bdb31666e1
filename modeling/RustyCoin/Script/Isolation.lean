import RustyCoin.Script.Effects

/-!
# What an unlocking script can do to a locking script

The locking script runs on the engine that the unlocking script leaves, with its
open branches, its skip depth and its alternative stack. This file compares that
run with the run of the locking script alone, on a fresh engine with the same
data stack.

The two runs are related by `Above`: the shared engine holds what the run alone
holds, on top of what the unlocking script left. The relation is kept as long as
no instruction reaches below the entries that the locking script made itself,
and the run alone fails at the first instruction that does.
-/

namespace RustyCoin.ScriptEngine

open Outcome

variable (env : Platform) (ctx : ExecContext)

/-- A fresh engine on a given data stack. -/
def onDataStack (s : Stack) : ScriptEngine :=
  { new with stack := s }

variable (script : Bytes) (e : ScriptEngine)

/-- The states in which the interpreter meets the instructions of a script. -/
def executeTrace : List Config :=
  Loop.trace (step env ctx) script.length ⟨e, script⟩

/-- The positions of the instructions that a run skips. -/
def skippedPositions : List Nat :=
  ((executeTrace env ctx script e).filter (·.engine.shouldSkip)).map
    fun c => script.length - c.rest.length

variable (left : ScriptEngine)

/-- An instruction that needs a branch that was opened, or an alternative stack
item that was stored, before `left` was reached. -/
def reachesBelow (opcode : Opcode) (e : ScriptEngine) : Bool :=
  match opcode with
  | .opElse | .opEndIf => e.controlStack.length ≤ left.controlStack.length
  | .opFromAltStack => e.altStack.length ≤ left.altStack.length
  | _ => false

/-- The next instruction is executed and reaches below `left`. -/
def usesInherited (c : Config) : Bool :=
  match c.rest with
  | [] => false
  | byte :: _ => !c.engine.shouldSkip && reachesBelow left (.ofByte byte) c.engine

/-- The locking script, alone on the data stack of `left`, reaches its end with a
single true item, and skips the instructions that it skips after `left`. -/
def VerifiesAlone : Prop :=
  ∃ e x, execute env ctx ctx.scriptPubkey (onDataStack left.stack) = .ok e ∧
    e.stack = [x] ∧ isFalse x = false ∧
    skippedPositions env ctx ctx.scriptPubkey left =
      skippedPositions env ctx ctx.scriptPubkey (onDataStack left.stack)

/-- `left` is not inside a skipped branch, and no instruction of the locking
script uses a branch or an alternative stack item that `left` brings along. -/
def SelfContained : Prop :=
  ctx.scriptPubkey = [] ∨
    left.skipDepth = 0 ∧
      ∀ c ∈ executeTrace env ctx ctx.scriptPubkey left, usesInherited left c = false

/-- The shared run holds what the run alone holds, above what `left` held. -/
structure Above (left : ScriptEngine) (shared own : Config) : Prop where
  rest : own.rest = shared.rest
  stack : own.engine.stack = shared.engine.stack
  altStack : shared.engine.altStack = own.engine.altStack ++ left.altStack
  controlStack : shared.engine.controlStack = own.engine.controlStack ++ left.controlStack
  skipDepth : own.engine.skipDepth = shared.engine.skipDepth
  opcodeCount : own.engine.opcodeCount ≤ shared.engine.opcodeCount

variable {env ctx} {left : ScriptEngine} {shared own shared' : Config}

namespace Above

theorem start (h : left.skipDepth = 0) (script : Bytes) :
    Above left ⟨left, script⟩ ⟨onDataStack left.stack, script⟩ where
  rest := rfl
  stack := rfl
  altStack := rfl
  controlStack := rfl
  skipDepth := h.symm
  opcodeCount := Nat.zero_le _

variable (h : Above left shared own)
include h

theorem countOpcode (rest : Bytes) :
    Above left ⟨shared.engine.countOpcode, rest⟩ ⟨own.engine.countOpcode, rest⟩ where
  rest := rfl
  stack := h.stack
  altStack := h.altStack
  controlStack := h.controlStack
  skipDepth := h.skipDepth
  opcodeCount := Nat.succ_le_succ h.opcodeCount

/-- Replacing the data stack on both sides, with any change of the counter that
the relation does not mention, keeps the relation. -/
theorem withStack (s : Stack) (n m : Nat) (rest : Bytes) :
    Above left ⟨{ shared.engine with stack := s, sigOpCount := n }, rest⟩
      ⟨{ own.engine with stack := s, sigOpCount := m }, rest⟩ where
  rest := rfl
  stack := rfl
  altStack := h.altStack
  controlStack := h.controlStack
  skipDepth := h.skipDepth
  opcodeCount := h.opcodeCount

theorem skipOpcode (opcode : Opcode) (rest : Bytes) :
    Above left ⟨skipOpcode opcode shared.engine, rest⟩ ⟨skipOpcode opcode own.engine, rest⟩ := by
  have hs := h.skipDepth
  unfold ScriptEngine.skipOpcode
  split
  all_goals exact ⟨rfl, h.stack, h.altStack, h.controlStack, by simp [hs], h.opcodeCount⟩

theorem own_controlStack_cons
    (hlen : left.controlStack.length < shared.engine.controlStack.length) :
    ∃ b rest, own.engine.controlStack = b :: rest := by
  have hc := congrArg List.length h.controlStack
  rw [List.length_append] at hc
  exact List.exists_cons_of_length_pos (by omega)

theorem own_altStack_cons (hlen : left.altStack.length < shared.engine.altStack.length) :
    ∃ v rest, own.engine.altStack = v :: rest := by
  have hc := congrArg List.length h.altStack
  rw [List.length_append] at hc
  exact List.exists_cons_of_length_pos (by omega)

variable {f : Stack → ScriptResult Stack} {opcode : Opcode}

theorem onStack (hd : plain (onStack f) shared = .ok shared') :
    ∃ own', plain (ScriptEngine.onStack f) own = .ok own' ∧ Above left shared' own' := by
  obtain ⟨e, he, rfl⟩ := plain_eq_ok.mp hd
  obtain ⟨s, hs, rfl⟩ := onStack_eq_ok.mp he
  rw [← h.stack] at hs
  refine ⟨_, plain_eq_ok.mpr ⟨_, onStack_eq_ok.mpr ⟨s, hs, rfl⟩, rfl⟩, ?_⟩
  rw [h.rest]
  exact h.withStack s _ _ shared.rest

theorem onSigOp (hd : plain (onSigOp f) shared = .ok shared') :
    ∃ own', plain (ScriptEngine.onSigOp f) own = .ok own' ∧ Above left shared' own' := by
  obtain ⟨e, he, rfl⟩ := plain_eq_ok.mp hd
  obtain ⟨s, hs, rfl⟩ := onStack_eq_ok.mp he
  change f shared.engine.stack = .ok s at hs
  rw [← h.stack] at hs
  refine ⟨_, plain_eq_ok.mpr ⟨_, onStack_eq_ok.mpr ⟨s, hs, rfl⟩, rfl⟩, ?_⟩
  rw [h.rest]
  exact h.withStack s _ _ shared.rest

theorem pushDataN {n : Nat} (hd : pushDataN n shared = .ok shared') :
    ∃ own', ScriptEngine.pushDataN n own = .ok own' ∧ Above left shared' own' := by
  obtain ⟨data, rest, rfl, -, hall⟩ := pushDataN_eq_ok hd
  have hown := hall own.engine
  rw [← h.rest, h.stack] at hown
  exact ⟨_, hown, h.withStack _ _ _ rest⟩

variable (hzero : shared.engine.skipDepth = 0)

include hzero

theorem enterBranch
    {holds : Bytes → Bool} (hd : plain (enterBranch holds) shared = .ok shared') :
    ∃ own', plain (ScriptEngine.enterBranch holds) own = .ok own' ∧
      Above left shared' own' := by
  have hown : own.engine.skipDepth = 0 := by rw [h.skipDepth, hzero]
  rw [plain_ok (enterBranch_executed holds hzero)] at hd
  cases hd
  refine ⟨_, plain_ok (enterBranch_executed holds hown), ?_⟩
  rw [h.stack]
  exact ⟨h.rest, rfl, h.altStack, congrArg _ h.controlStack, rfl, h.opcodeCount⟩

theorem opElse
    (hlen : left.controlStack.length < shared.engine.controlStack.length)
    (hd : plain opElse shared = .ok shared') :
    ∃ own', plain ScriptEngine.opElse own = .ok own' ∧ Above left shared' own' := by
  have hown : own.engine.skipDepth = 0 := by rw [h.skipDepth, hzero]
  obtain ⟨b, rest, hb⟩ := h.own_controlStack_cons hlen
  have hshared := h.controlStack
  rw [hb, List.cons_append] at hshared
  rw [plain_ok (opElse_executed hzero hshared)] at hd
  cases hd
  exact ⟨_, plain_ok (opElse_executed hown hb),
    h.rest, h.stack, h.altStack, rfl, rfl, h.opcodeCount⟩

theorem opEndIf
    (hlen : left.controlStack.length < shared.engine.controlStack.length)
    (hd : plain opEndIf shared = .ok shared') :
    ∃ own', plain ScriptEngine.opEndIf own = .ok own' ∧ Above left shared' own' := by
  have hown : own.engine.skipDepth = 0 := by rw [h.skipDepth, hzero]
  obtain ⟨b, rest, hb⟩ := h.own_controlStack_cons hlen
  have hshared := h.controlStack
  rw [hb, List.cons_append] at hshared
  rw [plain_ok (opEndIf_executed hzero hshared)] at hd
  cases hd
  exact ⟨_, plain_ok (opEndIf_executed hown hb),
    h.rest, h.stack, h.altStack, rfl, h.skipDepth, h.opcodeCount⟩

omit hzero in
theorem opToAltStack (hd : plain opToAltStack shared = .ok shared') :
    ∃ own', plain ScriptEngine.opToAltStack own = .ok own' ∧ Above left shared' own' := by
  obtain ⟨e, he, rfl⟩ := plain_eq_ok.mp hd
  obtain ⟨v, s, hs, rfl⟩ := opToAltStack_eq_ok he
  exact ⟨_, plain_ok (opToAltStack_executed (h.stack.trans hs)),
    h.rest, rfl, congrArg _ h.altStack, h.controlStack, h.skipDepth, h.opcodeCount⟩

omit hzero in
theorem opFromAltStack (hlen : left.altStack.length < shared.engine.altStack.length)
    (hd : plain opFromAltStack shared = .ok shared') :
    ∃ own', plain ScriptEngine.opFromAltStack own = .ok own' ∧ Above left shared' own' := by
  obtain ⟨v, rest, hv⟩ := h.own_altStack_cons hlen
  have hshared := h.altStack
  rw [hv, List.cons_append] at hshared
  rw [plain_ok (opFromAltStack_executed hshared)] at hd
  cases hd
  exact ⟨_, plain_ok (opFromAltStack_executed hv),
    h.rest, congrArg (v :: ·) h.stack, rfl, h.controlStack, h.skipDepth, h.opcodeCount⟩

/-- An executed instruction that stays above `left` does the same in both runs. -/
theorem dispatch (hown : reachesBelow left opcode shared.engine = false)
    (hd : dispatch env ctx opcode shared = .ok shared') :
    ∃ own', ScriptEngine.dispatch env ctx opcode own = .ok own' ∧
      Above left shared' own' := by
  have heffect := dispatch_effect env ctx opcode
  revert hd heffect
  generalize ScriptEngine.dispatch env ctx opcode = run
  intro hd heffect
  cases heffect with
  | onStack _ f => exact h.onStack hd
  | onSigOp _ f => exact h.onSigOp hd
  | pushDataN _ n => exact h.pushDataN hd
  | enterBranch _ holds => exact h.enterBranch hzero hd
  | opElse => exact h.opElse hzero (by simpa [reachesBelow] using hown) hd
  | opEndIf => exact h.opEndIf hzero (by simpa [reachesBelow] using hown) hd
  | opToAltStack => exact h.opToAltStack hd
  | opFromAltStack => exact h.opFromAltStack (by simpa [reachesBelow] using hown) hd
  | noOperation _ =>
    cases hd
    exact ⟨own, rfl, h⟩
  | fails _ error => exact absurd hd (fail_ne_ok error shared')

omit hzero

/-- One iteration of the loop in lock step. -/
theorem step (hown : usesInherited left shared = false)
    (hs : step env ctx shared = some (.ok shared')) :
    ∃ own', ScriptEngine.step env ctx own = some (.ok own') ∧ Above left shared' own' := by
  obtain ⟨e, bytes⟩ := shared
  cases bytes with
  | nil => simp [ScriptEngine.step] at hs
  | cons byte rest =>
    simp only [ScriptEngine.step, Option.some.injEq] at hs
    obtain ⟨hcount, hcase⟩ := stepByte_eq_ok.mp hs
    have hcount' : own.engine.opcodeCount < maxOpcodeCount :=
      Nat.lt_of_le_of_lt h.opcodeCount hcount
    rw [step_of_rest h.rest]
    obtain ⟨hpos, rfl⟩ | ⟨hzero, hd, hdepth⟩ := hcase
    · have hpos' : 0 < own.engine.skipDepth := by rw [h.skipDepth]; exact hpos
      refine ⟨_, congrArg some (stepByte_eq_ok.mpr ⟨hcount', .inl ⟨hpos', rfl⟩⟩), ?_⟩
      exact (h.countOpcode rest).skipOpcode _ rest
    · have hbelow : reachesBelow left (.ofByte byte) e = false := by
        simpa [usesInherited, shouldSkip, hzero] using hown
      obtain ⟨own', hd', habove⟩ := (h.countOpcode rest).dispatch hzero hbelow hd
      have hzero' : own.engine.skipDepth = 0 := h.skipDepth.trans hzero
      refine ⟨own', congrArg some (stepByte_eq_ok.mpr ⟨hcount', .inr ⟨hzero', hd', ?_⟩⟩), habove⟩
      rw [habove.stack]
      exact hdepth

theorem dispatch_fails (env : Platform) (ctx : ExecContext)
    (hzero : shared.engine.skipDepth = 0)
    (hbelow : reachesBelow left opcode shared.engine = true) :
    ∃ error, ScriptEngine.dispatch env ctx opcode own = fail error := by
  have hzero' : own.engine.skipDepth = 0 := h.skipDepth.trans hzero
  have hcontrol := congrArg List.length h.controlStack
  have halt := congrArg List.length h.altStack
  rw [List.length_append] at hcontrol halt
  have hnil {α : Type} {l : List α} {all below : Nat} (hall : all = l.length + below)
      (hle : decide (all ≤ below) = true) : l = [] := by
    apply List.length_eq_zero_iff.mp
    simp only [decide_eq_true_eq] at hle
    omega
  unfold reachesBelow at hbelow
  split at hbelow
  · exact ⟨_, plain_fail (opElse_unopened hzero' (hnil hcontrol hbelow))⟩
  · exact ⟨_, plain_fail (opEndIf_unopened hzero' (hnil hcontrol hbelow))⟩
  · exact ⟨_, plain_fail (opFromAltStack_empty (hnil halt hbelow))⟩
  · cases hbelow

/-- The run alone fails where the shared run uses what `left` brought along. -/
theorem step_fails (hbelow : usesInherited left shared = true) :
    ∃ error, ScriptEngine.step env ctx own = some (.error error) := by
  obtain ⟨e, bytes⟩ := shared
  cases bytes with
  | nil => cases hbelow
  | cons byte rest =>
    simp only [usesInherited, shouldSkip, Bool.and_eq_true, Bool.not_eq_true', gt_iff_lt,
      decide_eq_false_iff_not, Nat.not_lt, Nat.le_zero] at hbelow
    obtain ⟨hzero, hbelow⟩ := hbelow
    obtain ⟨error, herror⟩ :=
      (h.countOpcode rest).dispatch_fails env ctx hzero hbelow
    have hskip : own.engine.shouldSkip = false := by
      simp [shouldSkip, h.skipDepth, hzero]
    rw [step_of_rest h.rest]
    by_cases hcount : own.engine.opcodeCount ≥ maxOpcodeCount
    · exact ⟨_, by rw [stepByte, if_pos hcount]; rfl⟩
    · exact ⟨.err error, by rw [stepByte, if_neg hcount, hskip]; simp [herror, fail]⟩

end Above

variable {e : ScriptEngine}

@[simp] theorem execute_nil (e : ScriptEngine) : execute env ctx [] e = .ok e := rfl

variable {script : Bytes}

theorem position_pos_of_later {rest : Bytes} {c : Config}
    {fuel : Nat} {c₀ : Config} (hlt : rest.length < script.length) (hrest : c₀.rest = rest)
    (hc : c ∈ Loop.trace (step env ctx) fuel c₀) : 0 < script.length - c.rest.length := by
  have hle := Loop.measure_le_of_mem_trace (fun c => c.rest.length) (fun _ _ => step_rest_lt) hc
  simp only [hrest] at hle
  omega

/-- A skipping engine skips the first instruction of any script. -/
theorem zero_mem_skippedPositions (env : Platform) (ctx : ExecContext) (hne : script ≠ [])
    (hskip : 0 < e.skipDepth) : 0 ∈ skippedPositions env ctx script e := by
  cases script with
  | nil => exact absurd rfl hne
  | cons byte rest =>
    have hmem : ⟨e, byte :: rest⟩ ∈ executeTrace env ctx (byte :: rest) e :=
      Loop.mem_trace_head (step_of_rest rfl)
    refine List.mem_map.mpr ⟨_, List.mem_filter.mpr ⟨hmem, ?_⟩, ?_⟩
    · simpa [shouldSkip] using hskip
    · simp

/-- An engine that is not skipping executes the first instruction of any script. -/
theorem zero_notMem_skippedPositions (hskip : e.skipDepth = 0) :
    0 ∉ skippedPositions env ctx script e := by
  intro hmem
  obtain ⟨c, hc, hpos⟩ := List.mem_map.mp hmem
  obtain ⟨hc, hskips⟩ := List.mem_filter.mp hc
  cases script with
  | nil => simp [executeTrace] at hc
  | cons byte rest =>
    cases hs : stepByte env ctx e byte rest with
    | error error =>
      have hstep : step env ctx ⟨e, byte :: rest⟩ = some (.error error) := by
        rw [step_of_rest rfl, hs]
      rw [executeTrace, List.length_cons, Loop.trace_error hstep, List.mem_singleton] at hc
      simp [hc, shouldSkip, hskip] at hskips
    | ok c₁ =>
      have hstep : step env ctx ⟨e, byte :: rest⟩ = some (.ok c₁) := by
        rw [step_of_rest rfl, hs]
      rw [executeTrace, List.length_cons, Loop.trace_step hstep, List.mem_cons] at hc
      obtain rfl | hc := hc
      · simp [shouldSkip, hskip] at hskips
      · have := position_pos_of_later (step_rest_lt hstep) rfl hc
        simp only at this
        omega

theorem skipped_eq_of_above {l l' : List Config} (h : List.Forall₂ (Above left) l l') :
    (l.filter (·.engine.shouldSkip)).map (fun c => script.length - c.rest.length) =
      (l'.filter (·.engine.shouldSkip)).map (fun c => script.length - c.rest.length) := by
  induction h with
  | nil => rfl
  | cons habove _ ih =>
    simp only [List.filter_cons, shouldSkip, habove.skipDepth] at ih ⊢
    split
    · simp only [List.map_cons, habove.rest, ih]
    · exact ih

theorem verifiesAlone_of_selfContained (hrun : execute env ctx ctx.scriptPubkey left = .ok e)
    (hcheck : finalCheck e = .ok ()) (hself : SelfContained env ctx left) :
    VerifiesAlone env ctx left := by
  obtain ⟨x, hx, htrue⟩ := finalCheck_eq_ok.mp hcheck
  obtain hnil | ⟨hzero, hown⟩ := hself
  · rw [hnil, execute_nil] at hrun
    cases hrun
    refine ⟨onDataStack left.stack, x, ?_, hx, htrue, ?_⟩
    · rw [hnil, execute_nil]
    · rw [hnil]
      rfl
  · obtain ⟨hsize, rest, hloop⟩ := execute_eq_ok.mp hrun
    obtain ⟨⟨e', rest'⟩, hloop', habove, htrace⟩ :=
      Loop.run_simulates (step env ctx) (Above left) (usesInherited left · = false)
        (fun s t h hs => by
          cases hrest : s.rest with
          | nil => simp [step, h.rest, hrest]
          | cons byte rest => simp [step_of_rest hrest] at hs)
        (fun s t s' h hgood hs => h.step hgood hs)
        (Above.start hzero ctx.scriptPubkey) hown hloop
    refine ⟨e', x, execute_eq_ok.mpr ⟨hsize, rest', hloop'⟩, ?_, htrue, ?_⟩
    · rw [← hx]
      exact habove.stack
    · exact skipped_eq_of_above htrace

theorem selfContained_of_verifiesAlone (hrun : execute env ctx ctx.scriptPubkey left = .ok e)
    (halone : VerifiesAlone env ctx left) : SelfContained env ctx left := by
  obtain ⟨e', x, hrun', -, -, hskipped⟩ := halone
  by_cases hne : ctx.scriptPubkey = []
  · exact .inl hne
  · have hzero : left.skipDepth = 0 := by
      by_contra hpos
      have hmem := zero_mem_skippedPositions env ctx hne (Nat.pos_of_ne_zero hpos)
      rw [hskipped] at hmem
      exact zero_notMem_skippedPositions rfl hmem
    refine .inr ⟨hzero, fun c hc => ?_⟩
    by_contra hbelow
    obtain ⟨-, rest, hloop⟩ := execute_eq_ok.mp hrun
    obtain ⟨-, rest', hloop'⟩ := execute_eq_ok.mp hrun'
    obtain ⟨error, herror⟩ :=
      Loop.run_fails_at_bad (step env ctx) (Above left) (usesInherited left · = false)
        (fun s t s' h hgood hs => h.step hgood hs)
        (fun s t h hbad _ => h.step_fails (by simpa using hbad))
        (Above.start hzero ctx.scriptPubkey) hc hbelow hloop
    rw [hloop'] at herror
    cases herror

variable {scriptSig scriptPubkey : Bytes} {tx : Transaction} {inputIndex : Nat}

/-- Both entry points end with the locking script on the engine that the unlocking
script left and the check of the final stack. -/
theorem executeBoth_isolates_iff {e e' : ScriptEngine}
    (hrun : executeBoth env ctx scriptSig e = .ok e') (hcheck : finalCheck e' = .ok ()) :
    ∃ left, execute env ctx scriptSig e = .ok left ∧
      (VerifiesAlone env ctx left ↔ SelfContained env ctx left) := by
  obtain ⟨left, hsig, hpubkey⟩ := bind_eq_ok.mp hrun
  exact ⟨left, hsig, selfContained_of_verifiesAlone hpubkey,
    verifiesAlone_of_selfContained hpubkey hcheck⟩

theorem verifyScript_eq_ok
    (h : verifyScript env scriptSig scriptPubkey tx inputIndex = .ok ()) :
    ∃ e, executeBoth env (verifyContext tx inputIndex scriptPubkey) scriptSig new = .ok e ∧
      finalCheck e = .ok () := by
  unfold verifyScript at h
  split at h
  · exact absurd h (fail_ne_ok _ _)
  · split at h
    · exact absurd h (fail_ne_ok _ _)
    · exact bind_eq_ok.mp h

theorem verifyScriptWithSigOpCount_eq_ok {self : ScriptEngine} {count : Nat}
    (h : (verifyScriptWithSigOpCount env self scriptSig scriptPubkey tx inputIndex
      count).1 = .ok ()) :
    ∃ e, executeBoth env (verifyContext tx inputIndex scriptPubkey) scriptSig
        (self.resetFor count) = .ok e ∧ e.sigOpCount ≤ maxSigOps ∧ finalCheck e = .ok () := by
  unfold verifyScriptWithSigOpCount at h
  split at h
  · exact absurd h (fail_ne_ok _ _)
  · split at h
    · exact absurd h (fail_ne_ok _ _)
    · split at h
      · cases h
      · rename_i e he
        dsimp only at h
        split at h
        · exact absurd h (fail_ne_ok _ _)
        · exact ⟨e, he, by omega, h⟩

/-- After either entry point has accepted an input, its locking script verifies
alone exactly when it is self-contained. -/
theorem verifyScript_isolates_iff (env : Platform) (scriptSig scriptPubkey : Bytes)
    (tx : Transaction) (inputIndex : Nat) :
    (verifyScript env scriptSig scriptPubkey tx inputIndex = .ok () →
      ∃ left, execute env (verifyContext tx inputIndex scriptPubkey) scriptSig new =
          .ok left ∧
        (VerifiesAlone env (verifyContext tx inputIndex scriptPubkey) left ↔
          SelfContained env (verifyContext tx inputIndex scriptPubkey) left)) ∧
    (∀ self count, (verifyScriptWithSigOpCount env self scriptSig scriptPubkey tx inputIndex
        count).1 = .ok () →
      ∃ left, execute env (verifyContext tx inputIndex scriptPubkey) scriptSig
          (self.resetFor count) = .ok left ∧
        (VerifiesAlone env (verifyContext tx inputIndex scriptPubkey) left ↔
          SelfContained env (verifyContext tx inputIndex scriptPubkey) left)) := by
  constructor
  · intro h
    obtain ⟨e, hrun, hcheck⟩ := verifyScript_eq_ok h
    exact executeBoth_isolates_iff hrun hcheck
  · intro self count h
    obtain ⟨e, hrun, -, hcheck⟩ := verifyScriptWithSigOpCount_eq_ok h
    exact executeBoth_isolates_iff hrun hcheck

/-- A transaction without inputs and outputs, for evaluating scripts that do not
look at the transaction. -/
def emptyTx : Transaction :=
  .standard 1 [] [] 0 0 []

/-- `OP_1` unlocks `OP_NOP` under both entry points. -/
theorem verifyScript_isolates_iff_nop :
    verifyScript .blank [0x51] [0x61] emptyTx 0 = .ok () ∧
      (verifyScriptWithSigOpCount .blank new [0x51] [0x61] emptyTx 0 0).1 = .ok () ∧
      (∃ left, execute .blank (verifyContext emptyTx 0 [0x61]) [0x51] new = .ok left ∧
        (VerifiesAlone .blank (verifyContext emptyTx 0 [0x61]) left ↔
          SelfContained .blank (verifyContext emptyTx 0 [0x61]) left)) ∧
      (∃ left, execute .blank (verifyContext emptyTx 0 [0x61]) [0x51] (new.resetFor 0) =
          .ok left ∧
        (VerifiesAlone .blank (verifyContext emptyTx 0 [0x61]) left ↔
          SelfContained .blank (verifyContext emptyTx 0 [0x61]) left)) :=
  ⟨by decide, by decide,
    (verifyScript_isolates_iff .blank [0x51] [0x61] emptyTx 0).1 (by decide),
    (verifyScript_isolates_iff .blank [0x51] [0x61] emptyTx 0).2 new 0 (by decide)⟩

/-- `OP_1 OP_0 OP_IF` unlocks `OP_RETURN`: the open branch makes the engine skip
the locking script, which fails when it is run alone. -/
theorem openBranch_unlocks_opReturn :
    verifyScript .blank [0x51, 0x00, 0x63] [0x6a] emptyTx 0 = .ok () ∧
      (verifyScriptWithSigOpCount .blank new [0x51, 0x00, 0x63] [0x6a] emptyTx 0 0).1 = .ok () ∧
      ∃ left, execute .blank (verifyContext emptyTx 0 [0x6a]) [0x51, 0x00, 0x63] new = .ok left ∧
        skippedPositions .blank (verifyContext emptyTx 0 [0x6a]) [0x6a] left = [0] ∧
        ¬ ∃ e, execute .blank (verifyContext emptyTx 0 [0x6a]) [0x6a]
          (onDataStack left.stack) = .ok e := by
  refine ⟨by decide, by decide, _, rfl, by decide, ?_⟩
  rintro ⟨e, he⟩
  cases he

end RustyCoin.ScriptEngine
