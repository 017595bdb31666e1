import RustyCoin.Script.Runs

/-!
# Well-nested scripts, and the interpreter beside them

`Block` is the syntax of scripts whose conditionals are well nested, and
`Block.codeBefore` gives their bytes. `Block.run` is their meaning, by recursion on
the structure: at each conditional, the part that the condition selects is run and
the other one is passed over, whole. It records the states in which instructions
are met, so that it can be compared with the interpreter visit by visit.

`observed` is what the interpreter does from a state on, without its control stack.
`Mirrors` says that it is what some computation says exactly if the interpreter
misreads nothing on the way. Its rules take one instruction off both sides: one rule
for instructions that are skipped, one for those that are executed, and one for each
place where the two sides part.
-/

namespace RustyCoin.ScriptEngine

open Outcome

section

open List

/-- The instructions that conditionals are made of. -/
def isDelimiter : Opcode → Bool
  | .opIf | .opNotIf | .opElse | .opEndIf => true
  | _ => false

/-- An instruction of a single byte that does not belong to a conditional. -/
structure PlainOp where
  byte : UInt8
  noOperand : pushWidth (.ofByte byte) = 0
  noDelimiter : isDelimiter (.ofByte byte) = false

/-- A push with its payload, whose length its length bytes can hold. -/
structure Push where
  byte : UInt8
  payload : Bytes
  isPush : pushWidth (.ofByte byte) ≠ 0
  fits : payload.length < 256 ^ pushWidth (.ofByte byte)

def Push.operand (p : Push) : Bytes :=
  leBytes (pushWidth (.ofByte p.byte)) p.payload.length ++ p.payload

/-- Well-nested scripts. A conditional has the part after `OP_IF` or `OP_NOTIF`, and
possibly a second part after `OP_ELSE`. -/
inductive Block where
  | done
  | op (instruction : PlainOp) (next : Block)
  | push (instruction : Push) (next : Block)
  | ifThen (notIf : Bool) (body next : Block)
  | ifElse (notIf : Bool) (body other next : Block)

variable (notIf : Bool)

def ifByte : UInt8 := if notIf then 0x64 else 0x63

def elseByte : UInt8 := 0x67

def endIfByte : UInt8 := 0x68

/-- The bytes of a block in front of further bytes. -/
def Block.codeBefore : Block → Bytes → Bytes
  | .done, after => after
  | .op p next, after => p.byte :: next.codeBefore after
  | .push p next, after => p.byte :: (p.operand ++ next.codeBefore after)
  | .ifThen notIf body next, after =>
    ifByte notIf :: body.codeBefore (endIfByte :: next.codeBefore after)
  | .ifElse notIf body other next, after =>
    ifByte notIf :: body.codeBefore
      (elseByte :: other.codeBefore (endIfByte :: next.codeBefore after))

def Block.code (b : Block) : Bytes := b.codeBefore []

/-- Every conditional that is opened is closed, and none is closed or continued that
is not open. The first argument counts the operand bytes to pass over, the second
the conditionals that are open. -/
def balancedFrom : Nat → Nat → Bytes → Bool
  | _, depth, [] => depth == 0
  | n + 1, depth, _ :: rest => balancedFrom n depth rest
  | 0, depth, byte :: rest =>
    match Opcode.ofByte byte with
    | .opIf | .opNotIf => balancedFrom 0 (depth + 1) rest
    | .opElse => depth != 0 && balancedFrom 0 depth rest
    | .opEndIf => depth != 0 && balancedFrom 0 (depth - 1) rest
    | opcode => balancedFrom (operandLength opcode rest) depth rest

def balanced (script : Bytes) : Bool := balancedFrom 0 0 script

/-- A computation of the interpreter, with the states in which it meets instructions. -/
abbrev Visits : Type := Traced Config ScriptError ScriptEngine

variable (e : ScriptEngine) (bytes : Bytes) (f : ScriptEngine → ScriptResult ScriptEngine)

/-- Meet an instruction: it is counted, whether it is skipped or not. -/
def meet :
    Visits :=
  ⟨[⟨e, bytes⟩], if maxOpcodeCount ≤ e.opcodeCount then fail .tooManyOpcodes else f e.countOpcode⟩

def withinDepth (e : ScriptEngine) : ScriptResult ScriptEngine :=
  if e.stack.length > maxStackDepth then fail .stackOverflow else .ok e

/-- Meet an instruction that is not skipped. -/
def perform :
    Visits :=
  meet e bytes fun e => f e >>= withinDepth

def skipping (e : ScriptEngine) : ScriptEngine := { e with skipDepth := 1 }

def resumed (e : ScriptEngine) : ScriptEngine := { e with skipDepth := 0 }

/-- The condition that a conditional takes from the stack. -/
def holds (v : Bytes) : Bool := if notIf then isFalse v else !isFalse v

/-- The condition selects the first part. Without an operand it does not, for both
instructions. -/
def selects (e : ScriptEngine) : Bool := (popCondition (holds notIf) e.stack).1

def dropCondition (e : ScriptEngine) : ScriptEngine :=
  { e with stack := (popCondition (holds notIf) e.stack).2 }

/-- Run one part of a conditional, or pass over it, and meet the delimiter after it. -/
def branch (selected : Bool) (run skip : ScriptEngine → Visits) (delimiter : Bytes)
    (e : ScriptEngine) : Visits :=
  -- a delimiter belongs to the part that it ends, and is skipped with it
  if selected then (run e).andThen fun e => perform e delimiter .ok
  else (skip e.skipping).andThen fun e => meet e delimiter fun e => .ok e.resumed

/-- Pass over a block: its instructions are met and nothing else happens. -/
def Block.skip : Block → Bytes → ScriptEngine → Visits
  | .done, _, e => .pure e
  | .op p next, after, e =>
    (meet e ((Block.op p next).codeBefore after) .ok).andThen (next.skip after)
  | .push p next, after, e =>
    (meet e ((Block.push p next).codeBefore after) .ok).andThen (next.skip after)
  | .ifThen notIf body next, after, e =>
    (meet e ((Block.ifThen notIf body next).codeBefore after) .ok).andThen fun e =>
    (body.skip (endIfByte :: next.codeBefore after) e).andThen fun e =>
    (meet e (endIfByte :: next.codeBefore after) .ok).andThen (next.skip after)
  | .ifElse notIf body other next, after, e =>
    let afterOther := endIfByte :: next.codeBefore after
    let afterBody := elseByte :: other.codeBefore afterOther
    (meet e ((Block.ifElse notIf body other next).codeBefore after) .ok).andThen fun e =>
    (body.skip afterBody e).andThen fun e =>
    (meet e afterBody .ok).andThen fun e =>
    (other.skip afterOther e).andThen fun e =>
    (meet e afterOther .ok).andThen (next.skip after)

variable (env : Platform) (ctx : ExecContext)

/-- The meaning of a block in front of further bytes. -/
def Block.run : Block → Bytes → ScriptEngine → Visits
  | .done, _, e => .pure e
  | .op p next, after, e =>
    (perform e ((Block.op p next).codeBefore after) fun e =>
      (dispatch env ctx (.ofByte p.byte) ⟨e, []⟩).map Config.engine).andThen
    (next.run after)
  | .push p next, after, e =>
    (perform e ((Block.push p next).codeBefore after) (pushData p.payload)).andThen
    (next.run after)
  | .ifThen notIf body next, after, e =>
    let afterBody := endIfByte :: next.codeBefore after
    (perform e ((Block.ifThen notIf body next).codeBefore after) fun e =>
      .ok (e.dropCondition notIf)).andThen fun e' =>
    (branch (e.selects notIf) (body.run afterBody) (body.skip afterBody) afterBody e').andThen
    (next.run after)
  | .ifElse notIf body other next, after, e =>
    let afterOther := endIfByte :: next.codeBefore after
    let afterBody := elseByte :: other.codeBefore afterOther
    (perform e ((Block.ifElse notIf body other next).codeBefore after) fun e =>
      .ok (e.dropCondition notIf)).andThen fun e' =>
    (branch (e.selects notIf) (body.run afterBody) (body.skip afterBody) afterBody e').andThen
      fun e' =>
    (branch (!e.selects notIf) (other.run afterOther) (other.skip afterOther) afterOther e').andThen
    (next.run after)

/-- The meaning of a well-nested script, with the limit on its size. -/
def Block.execute (b : Block) (e : ScriptEngine) : Visits :=
  if b.code.length > maxScriptBytes then ⟨[], fail .scriptTooLarge⟩
  else b.run env ctx [] e

section

variable {e : ScriptEngine}

@[simp] theorem ofByte_elseByte : Opcode.ofByte elseByte = .opElse := rfl

@[simp] theorem ofByte_endIfByte : Opcode.ofByte endIfByte = .opEndIf := rfl

variable {opcode : Opcode}

theorem isDelimiter_of_push (h : pushWidth opcode ≠ 0) : isDelimiter opcode = false := by
  cases opcode
  case opPushdata1 => rfl
  case opPushdata2 => rfl
  case opPushdata4 => rfl
  all_goals exact absurd rfl h

theorem ne_of_isDelimiter {opcode' : Opcode} (h : isDelimiter opcode = false)
    (h' : isDelimiter opcode' = true) : opcode ≠ opcode' := by
  rintro rfl
  rw [h] at h'
  cases h'

theorem skipOpcode_of_isDelimiter (h : isDelimiter opcode = false) : skipOpcode opcode e = e := by
  unfold skipOpcode
  split
  all_goals first | rfl | cases h

@[simp] theorem skipOpcode_ifByte (notIf : Bool) :
    skipOpcode (.ofByte (ifByte notIf)) e = { e with skipDepth := e.skipDepth + 1 } := by
  cases notIf
  all_goals rfl

theorem dispatch_ifByte (env : Platform) (ctx : ExecContext) (notIf : Bool) :
    dispatch env ctx (.ofByte (ifByte notIf)) = plain (enterBranch (holds notIf)) := by
  cases notIf
  all_goals rfl

@[simp] theorem pushWidth_ifByte (notIf : Bool) : pushWidth (.ofByte (ifByte notIf)) = 0 := by
  cases notIf
  all_goals rfl

theorem ifByte_ne_else (notIf : Bool) : Opcode.ofByte (ifByte notIf) ≠ .opElse := by
  cases notIf
  all_goals decide

end

@[simp] theorem length_operand (p : Push) :
    p.operand.length = pushWidth (.ofByte p.byte) + p.payload.length := by
  rw [Push.operand, length_append, length_leBytes]

theorem leValue_operand (p : Push) (rest : Bytes) :
    leValue ((p.operand ++ rest).take (pushWidth (.ofByte p.byte))) = p.payload.length := by
  have hwidth := length_leBytes (pushWidth (.ofByte p.byte)) p.payload.length
  rw [Push.operand, append_assoc, take_left' hwidth, leValue_leBytes, Nat.mod_eq_of_lt p.fits]

theorem operand_append_ne (p : Push) (bytes : Bytes) : p.operand ++ bytes ≠ bytes := by
  intro h
  have hlen := congrArg List.length h
  have hpos := Nat.pos_of_ne_zero p.isPush
  rw [length_append, length_operand] at hlen
  omega

/-- A push that is executed takes its payload, and nothing else. -/
theorem pushDataN_operand (p : Push) (e : ScriptEngine) (rest : Bytes) :
    pushDataN (pushWidth (.ofByte p.byte)) ⟨e, p.operand ++ rest⟩ =
      .ok ⟨{ e with stack := p.payload :: e.stack }, rest⟩ := by
  have hwidth := length_leBytes (pushWidth (.ofByte p.byte)) p.payload.length
  have hvalue := leValue_operand p rest
  have hle : pushWidth (.ofByte p.byte) + p.payload.length ≤ (p.operand ++ rest).length := by
    rw [length_append, length_operand]
    omega
  rw [pushDataN_of_le (pushWidth_le _) (hvalue.symm ▸ hle), hvalue, ← drop_drop,
    Push.operand, append_assoc, drop_left' hwidth, take_left, drop_left]

variable {depth : Nat} {byte : UInt8} {rest : Bytes}

@[simp] theorem balancedFrom_append (bytes rest : Bytes) :
    balancedFrom bytes.length depth (bytes ++ rest) = balancedFrom 0 depth rest := by
  induction bytes with
  | nil => rfl
  | cons byte bytes ih => exact ih

theorem balancedFrom_of_isDelimiter (h : isDelimiter (.ofByte byte) = false) :
    balancedFrom 0 depth (byte :: rest) =
      balancedFrom (operandLength (.ofByte byte) rest) depth rest := by
  rw [balancedFrom]
  split
  all_goals simp_all [isDelimiter]

@[simp] theorem balancedFrom_ifByte (notIf : Bool) :
    balancedFrom 0 depth (ifByte notIf :: rest) = balancedFrom 0 (depth + 1) rest := by
  cases notIf
  all_goals rfl

@[simp] theorem Block.balancedFrom_codeBefore (b : Block) (depth : Nat) (after : Bytes) :
    balancedFrom 0 depth (b.codeBefore after) = balancedFrom 0 depth after := by
  induction b generalizing depth after with
  | done => rfl
  | op p next ih =>
    have hlength : operandLength (.ofByte p.byte) (next.codeBefore after) = 0 := by
      simp [operandLength, p.noOperand, leValue]
    rw [codeBefore, balancedFrom_of_isDelimiter p.noDelimiter, hlength]
    exact ih depth after
  | push p next ih =>
    have hlength : operandLength (.ofByte p.byte) (p.operand ++ next.codeBefore after) =
        p.operand.length := by
      rw [operandLength, leValue_operand, length_operand]
    rw [codeBefore, balancedFrom_of_isDelimiter (isDelimiter_of_push p.isPush), hlength,
      balancedFrom_append]
    exact ih depth after
  | ifThen notIf body next ihBody ihNext =>
    rw [codeBefore, balancedFrom_ifByte, ihBody]
    exact ihNext depth after
  | ifElse notIf body other next ihBody ihOther ihNext =>
    rw [codeBefore, balancedFrom_ifByte, ihBody]
    exact (ihOther (depth + 1) _).trans (ihNext depth after)

/-- The conditionals of a well-nested script are balanced. -/
theorem Block.balanced_code (b : Block) : balanced b.code = true :=
  b.balancedFrom_codeBefore 0 []

end

variable (env : Platform) (ctx : ExecContext)

/-- What there is to see of an engine: the data stacks and the counters, and whether
it skips, but not the entries of its control stack. -/
def surface (e : ScriptEngine) : ScriptEngine :=
  { e with
    controlStack := []
    skipDepth := if e.skipDepth > 0 then 1 else 0 }

def Config.surface (c : Config) : Config := ⟨c.engine.surface, c.rest⟩

/-- What there is to see of a run of the interpreter loop. -/
def observed (c : Config) : Visits :=
  ⟨(traceFrom env ctx c).map Config.surface, (runFrom env ctx c).map fun c => c.engine.surface⟩

/-- The states in which `execute` meets an instruction. -/
def met (script : Bytes) (e : ScriptEngine) : List Config :=
  if script.length > maxScriptBytes then [] else executeTrace env ctx script e

/-- `execute` has the meaning of the block: it meets the instructions that the
meaning meets, it skips the same ones of them, and it has the same outcome. -/
def Follows (b : Block) (e : ScriptEngine) : Prop :=
  (⟨(met env ctx b.code e).map Config.surface, (execute env ctx b.code e).map surface⟩ : Visits) =
  b.execute env ctx e.surface

/-- The next instruction is read and taken for something else than it is. It is a push
that is skipped, so that its operand is read as opcodes next, or an `OP_ELSE` that is
executed with `false` on top of the control stack, so that the part after it is run
although the part before it was. -/
def misreads (c : Config) : Bool :=
  match c.rest with
  | [] => false
  | byte :: _ =>
    decide (c.engine.opcodeCount < maxOpcodeCount) &&
      if c.engine.shouldSkip then pushWidth (.ofByte byte) != 0
      else Opcode.ofByte byte == .opElse && c.engine.controlStack.head? == some false

/-- An engine without its conditionals. -/
def bare (e : ScriptEngine) : ScriptEngine := { e with controlStack := [], skipDepth := 0 }

variable {e : ScriptEngine}

theorem surface_of_zero (h : e.skipDepth = 0) : e.surface = e.bare := by
  simp [surface, bare, h]

theorem surface_of_pos (h : 0 < e.skipDepth) : e.surface = e.bare.skipping := by
  simp [surface, bare, skipping, h]

/-- How deep an engine skips does not show. -/
theorem surface_of_depth {depth : Nat} (hpos : 0 < e.skipDepth) (hdepth : 0 < depth) :
    { e with skipDepth := depth }.surface = e.surface := by
  rw [surface_of_pos hpos, surface_of_pos (e := { e with skipDepth := depth }) hdepth]
  rfl

theorem frame_control (control : List Bool) (depth : Nat) :
    Frame fun e => { e with controlStack := control, skipDepth := depth } where
  stack _ := rfl
  altStack _ := rfl
  setData _ _ _ := rfl
  countSigOp _ := rfl

/-- An instruction that leaves the conditionals alone and does not look at them. -/
def Framed (f : ScriptEngine → ScriptResult ScriptEngine) : Prop :=
  ∀ g, Frame g → ∀ e, f (g e) = (f e).map g

variable {f : ScriptEngine → ScriptResult ScriptEngine}

theorem Framed.bare (hf : Framed f) (e : ScriptEngine) : f e.bare = (f e).map ScriptEngine.bare :=
  hf _ (frame_control [] 0) e

theorem Framed.keeps (hf : Framed f) {e e' : ScriptEngine} (h : f e = .ok e') :
    e'.controlStack = e.controlStack ∧ e'.skipDepth = e.skipDepth := by
  have hsame : f e = (f e).map fun x =>
      { x with controlStack := e.controlStack, skipDepth := e.skipDepth } :=
    hf _ (frame_control e.controlStack e.skipDepth) e
  rw [h] at hsame
  have heq := Except.ok.inj hsame
  rw [heq]
  exact ⟨rfl, rfl⟩

theorem dispatch_framed (env : Platform) (ctx : ExecContext) {opcode : Opcode}
    (hwidth : pushWidth opcode = 0) (hdelimiter : isDelimiter opcode = false) :
    ∃ f, (∀ c, dispatch env ctx opcode c = plain f c) ∧ Framed f := by
  cases opcode
  case opPushdata1 => cases hwidth
  case opPushdata2 => cases hwidth
  case opPushdata4 => cases hwidth
  case opIf => cases hdelimiter
  case opNotIf => cases hdelimiter
  case opElse => cases hdelimiter
  case opEndIf => cases hdelimiter
  case opToAltStack => exact ⟨_, fun _ => rfl, fun _ => opToAltStack_frame⟩
  case opFromAltStack => exact ⟨_, fun _ => rfl, fun _ => opFromAltStack_frame⟩
  all_goals
    first
      | exact ⟨_, fun _ => rfl, fun _ hg => onStack_frame hg _⟩
      | exact ⟨_, fun _ => rfl, fun _ hg => onSigOp_frame hg _⟩
      | exact ⟨.ok, fun _ => rfl, fun _ _ _ => rfl⟩
      | exact ⟨fun _ => fail _, fun _ => rfl, fun _ _ _ => rfl⟩

section

variable {env : Platform} {ctx : ExecContext}

/-- From a state on, the interpreter does what `run` says if and only if it misreads
nothing. -/
def Mirrors (env : Platform) (ctx : ExecContext) (c : Config) (run : Visits) : Prop :=
  observed env ctx c = run ↔ ∀ x ∈ traceFrom env ctx c, misreads x = false

/-- The first visit of a computation is in the state that it is started in. -/
def StartsAt (bytes : Bytes) (k : ScriptEngine → Visits) : Prop :=
  ∀ e, (k e).visited.head? = some ⟨e, bytes⟩

theorem startsAt_meet (bytes : Bytes) (f : ScriptEngine → ScriptResult ScriptEngine)
    (k : ScriptEngine → Visits) : StartsAt bytes fun e => (meet e bytes f).andThen k := by
  intro e
  exact Traced.head?_andThen rfl k

variable {z c' : Config}

theorem eq_surface_of_head? {c : Config}
    (h : (observed env ctx c).visited.head? = some z) : z = c.surface := by
  obtain ⟨e, bytes⟩ := c
  cases bytes with
  | nil => simp [observed] at h
  | cons byte rest =>
    cases hstep : stepByte env ctx e byte rest with
    | error failure => simpa [observed, traceFrom_error hstep, eq_comm] using h
    | ok c' => simpa [observed, traceFrom_step hstep, eq_comm] using h

variable {e e' : ScriptEngine} {byte : UInt8} {rest : Bytes} {k : ScriptEngine → Visits}

theorem mirrors_error {failure : Failure ScriptError} (hclear : misreads ⟨e, byte :: rest⟩ = false)
    (hstep : stepByte env ctx e byte rest = .error failure) :
    Mirrors env ctx ⟨e, byte :: rest⟩
      (Traced.andThen ⟨[⟨e.surface, byte :: rest⟩], .error failure⟩ k) := by
  apply iff_of_true
  · simp [observed, traceFrom_error hstep, runFrom_error hstep, Traced.andThen, Config.surface,
      Except.map]
  · simpa [traceFrom_error hstep] using hclear

theorem observed_step (hstep : stepByte env ctx e byte rest = .ok c') :
    observed env ctx ⟨e, byte :: rest⟩ =
        Traced.andThen ⟨[⟨e.surface, byte :: rest⟩], .ok e'⟩ k ↔
      observed env ctx c' = k e' := by
  simp [observed, traceFrom_step hstep, runFrom_step hstep, Traced.andThen, Config.surface,
    Traced.ext_iff]

theorem mirrors_step (hclear : misreads ⟨e, byte :: rest⟩ = false)
    (hstep : stepByte env ctx e byte rest = .ok c') (hrest : Mirrors env ctx c' (k e')) :
    Mirrors env ctx ⟨e, byte :: rest⟩
      (Traced.andThen ⟨[⟨e.surface, byte :: rest⟩], .ok e'⟩ k) := by
  unfold Mirrors
  rw [observed_step hstep, traceFrom_step hstep, List.forall_mem_cons]
  simp only [hclear, true_and]
  exact hrest

theorem mirrors_misread (hmisread : misreads ⟨e, byte :: rest⟩ = true)
    (hstep : stepByte env ctx e byte rest = .ok c')
    (hhead : (k e').visited.head? = some z) (hne : z ≠ c'.surface) :
    Mirrors env ctx ⟨e, byte :: rest⟩
      (Traced.andThen ⟨[⟨e.surface, byte :: rest⟩], .ok e'⟩ k) := by
  apply iff_of_false
  · rw [observed_step hstep]
    intro heq
    exact hne (eq_surface_of_head? (heq ▸ hhead))
  · rw [traceFrom_step hstep, List.forall_mem_cons]
    simp [hmisread]

theorem meet_counted {bytes : Bytes} {f : ScriptEngine → ScriptResult ScriptEngine}
    (hcount : e.opcodeCount < maxOpcodeCount) :
    meet e bytes f = ⟨[⟨e, bytes⟩], f e.countOpcode⟩ := by
  rw [meet, if_neg (Nat.not_le.mpr hcount)]

/-- Where the limit is reached, both sides stop. -/
theorem mirrors_full {f : ScriptEngine → ScriptResult ScriptEngine}
    (hcount : maxOpcodeCount ≤ e.opcodeCount) :
    Mirrors env ctx ⟨e, byte :: rest⟩ ((meet e.surface (byte :: rest) f).andThen k) := by
  have hmeet : meet e.surface (byte :: rest) f =
      ⟨[⟨e.surface, byte :: rest⟩], fail .tooManyOpcodes⟩ := by
    rw [meet, if_pos (show maxOpcodeCount ≤ e.surface.opcodeCount from hcount)]
  have hclear : misreads ⟨e, byte :: rest⟩ = false := by
    simp [misreads, Nat.not_lt.mpr hcount]
  rw [hmeet]
  exact mirrors_error hclear (stepByte_full hcount)

section

variable {f : ScriptEngine → ScriptResult ScriptEngine} (hskip : 0 < e.skipDepth)

include hskip

/-- Passing over an instruction, where `f` is what is said of it. -/
theorem mirrors_skip (hwidth : pushWidth (.ofByte byte) = 0) (hf : f e.surface.countOpcode = .ok e')
    (hrest : Mirrors env ctx ⟨skipOpcode (.ofByte byte) e.countOpcode, rest⟩ (k e')) :
    Mirrors env ctx ⟨e, byte :: rest⟩ ((meet e.surface (byte :: rest) f).andThen k) := by
  have hshould : e.shouldSkip = true := decide_eq_true hskip
  have hclear : misreads ⟨e, byte :: rest⟩ = false := by simp [misreads, hshould, hwidth]
  obtain hcount | hcount := Nat.lt_or_ge e.opcodeCount maxOpcodeCount
  · rw [meet_counted (e := e.surface) hcount, hf]
    exact mirrors_step hclear (stepByte_skipped hcount hshould) hrest
  · exact mirrors_full hcount

/-- The operand of a push that is skipped is read as opcodes. -/
theorem mirrors_skip_push {after : Bytes} (hwidth : pushWidth (.ofByte byte) ≠ 0)
    (hstart : StartsAt after k) (hne : rest ≠ after) :
    Mirrors env ctx ⟨e, byte :: rest⟩ ((meet e.surface (byte :: rest) .ok).andThen k) := by
  have hshould : e.shouldSkip = true := decide_eq_true hskip
  obtain hcount | hcount := Nat.lt_or_ge e.opcodeCount maxOpcodeCount
  · have hmisread : misreads ⟨e, byte :: rest⟩ = true := by
      simp [misreads, hshould, hwidth, hcount]
    rw [meet_counted (e := e.surface) hcount]
    refine mirrors_misread hmisread (stepByte_skipped hcount hshould) (hstart _) ?_
    intro heq
    exact hne (congrArg Config.rest heq).symm
  · exact mirrors_full hcount

end

section

variable {f : ScriptEngine → ScriptResult ScriptEngine} (hzero : e.skipDepth = 0)

include hzero

/-- The outcome of an instruction that is not skipped, on both sides. -/
theorem outcome_perform (hf : f e.bare.countOpcode =
      (dispatch env ctx (.ofByte byte) ⟨e.countOpcode, rest⟩).map fun c => c.engine.bare)
    (hcount : e.opcodeCount < maxOpcodeCount) :
    f e.bare.countOpcode >>= withinDepth =
      (stepByte env ctx e byte rest).map fun c => c.engine.bare := by
  have hshould : e.shouldSkip = false := by simp [shouldSkip, hzero]
  rw [stepByte_executed hcount hshould, hf]
  rcases dispatch env ctx (.ofByte byte) ⟨e.countOpcode, rest⟩ with failure | c
  · rfl
  · simp only [ok_bind, Except.map, checkDepth, withinDepth, bare]
    split
    all_goals rfl

theorem mirrors_perform (hclear : misreads ⟨e, byte :: rest⟩ = false) (hf : f e.bare.countOpcode =
      (dispatch env ctx (.ofByte byte) ⟨e.countOpcode, rest⟩).map fun c => c.engine.bare)
    (hrest : ∀ c', dispatch env ctx (.ofByte byte) ⟨e.countOpcode, rest⟩ = .ok c' →
      c'.engine.stack.length ≤ maxStackDepth → Mirrors env ctx c' (k c'.engine.bare)) :
    Mirrors env ctx ⟨e, byte :: rest⟩ ((perform e.bare (byte :: rest) f).andThen k) := by
  rw [← surface_of_zero hzero]
  obtain hcount | hcount := Nat.lt_or_ge e.opcodeCount maxOpcodeCount
  · have houtcome := outcome_perform hzero hf hcount
    rw [perform, meet_counted (e := e.surface) hcount, surface_of_zero hzero, houtcome,
      ← surface_of_zero hzero]
    cases hstep : stepByte env ctx e byte rest with
    | error failure => exact mirrors_error hclear hstep
    | ok c' =>
      obtain ⟨-, ⟨hpos, -⟩ | ⟨-, hdispatch, hdepth⟩⟩ := stepByte_eq_ok.mp hstep
      · omega
      · exact mirrors_step hclear hstep (hrest c' hdispatch hdepth)
  · exact mirrors_full hcount

end

end

/-- Bounds that the interpreter keeps inside a block: the conditionals around the block
stay open, and the stack is within its limit. -/
structure Inside (n m : Nat) (e : ScriptEngine) : Prop where
  control : n ≤ e.controlStack.length
  depth : e.stack.length ≤ m

end RustyCoin.ScriptEngine
