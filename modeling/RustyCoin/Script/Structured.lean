import RustyCoin.Script.Mirrors

/-!
# Structured conditionals

The interpreter is flat: it reads one byte after the other, with a counter for the
branches that it skips and a stack for the conditionals that it is in. A well-nested
script has a meaning that follows its structure. This file compares the two.

The comparison is by induction on the block, with what follows the block as a
parameter, so that one rule for each kind of instruction serves both parts of a
conditional. It goes wrong in two places. The operand of a push that is skipped is
read as opcodes, and an `OP_ENDIF` that ends a skipped part leaves the entry of its
conditional behind, which an `OP_ELSE` further out then takes for its own.
-/

namespace RustyCoin.ScriptEngine

open Outcome Traced Opcode Nat

section

variable {env : Platform} {ctx : ExecContext}

namespace Block

theorem startsAt_skip (b : Block) {after : Bytes} {k : ScriptEngine → Visits}
    (hk : StartsAt after k) :
    StartsAt (b.codeBefore after) fun e => (b.skip after e).andThen k := by
  cases b with
  | done => exact hk
  | op p next | push p next | ifThen notIf body next | ifElse notIf body other next =>
    intro e
    exact head?_andThen (startsAt_meet _ _ _ e) k

variable {d n m : Nat}

section

variable {e : ScriptEngine} {rest : Bytes} {k : ScriptEngine → Visits} (hd : 0 < d)

include hd

theorem mirrors_skip_if {notIf : Bool} (hskip : e.skipDepth = d) (hin : Inside n m e)
    (hrest : ∀ e, e.skipDepth = d + 1 → Inside n m e → Mirrors env ctx ⟨e, rest⟩ (k e.surface)) :
    Mirrors env ctx ⟨e, ifByte notIf :: rest⟩
      ((meet e.surface (ifByte notIf :: rest) .ok).andThen k) := by
  have hpos : 0 < e.skipDepth := hskip ▸ hd
  refine mirrors_skip hpos (pushWidth_ifByte notIf) rfl ?_
  rw [skipOpcode_ifByte, show e.surface.countOpcode = e.countOpcode.surface from rfl,
    ← surface_of_depth (e := e.countOpcode) hpos (succ_pos e.countOpcode.skipDepth)]
  exact hrest _ (congrArg (· + 1) hskip) ⟨hin.control, hin.depth⟩

/-- An `OP_ELSE` of a conditional inside a skipped part ends nothing. -/
theorem mirrors_skip_else (hskip : e.skipDepth = d + 1) (hin : Inside n m e)
    (hrest : ∀ e, e.skipDepth = d + 1 → Inside n m e → Mirrors env ctx ⟨e, rest⟩ (k e.surface)) :
    Mirrors env ctx ⟨e, elseByte :: rest⟩
      ((meet e.surface (elseByte :: rest) .ok).andThen k) := by
  have hdepth : skipOpcode .opElse e.countOpcode = e.countOpcode := by
    have hne : e.skipDepth ≠ 1 := by omega
    simp [skipOpcode, countOpcode, hne]
  refine mirrors_skip (by omega) rfl rfl ?_
  rw [ofByte_elseByte, hdepth]
  exact hrest e.countOpcode hskip ⟨hin.control, hin.depth⟩

theorem mirrors_skip_endIf (hskip : e.skipDepth = d + 1) (hin : Inside n m e)
    (hrest : ∀ e, e.skipDepth = d → Inside n m e → Mirrors env ctx ⟨e, rest⟩ (k e.surface)) :
    Mirrors env ctx ⟨e, endIfByte :: rest⟩
      ((meet e.surface (endIfByte :: rest) .ok).andThen k) := by
  have hpos : 0 < e.skipDepth := by omega
  have hdepth : skipOpcode .opEndIf e.countOpcode = { e.countOpcode with skipDepth := d } := by
    simp [skipOpcode, hskip]
  refine mirrors_skip hpos rfl rfl ?_
  rw [ofByte_endIfByte, hdepth, show e.surface.countOpcode = e.countOpcode.surface from rfl,
    ← surface_of_depth (e := e.countOpcode) hpos hd]
  exact hrest _ rfl ⟨hin.control, hin.depth⟩

end

/-- A block inside a skipped part, at any depth. -/
theorem skip_mirrors (b : Block) {after : Bytes} {k : ScriptEngine → Visits}
    (hstart : StartsAt after k) (hd : 0 < d)
    (hk : ∀ e, e.skipDepth = d → Inside n m e → Mirrors env ctx ⟨e, after⟩ (k e.surface))
    {e : ScriptEngine} (hskip : e.skipDepth = d) (hin : Inside n m e) :
    Mirrors env ctx ⟨e, b.codeBefore after⟩ ((b.skip after e.surface).andThen k) := by
  induction b generalizing after k d e with
  | done => exact hk e hskip hin
  | op p next ih =>
    rw [skip, andThen_assoc]
    refine mirrors_skip (hskip ▸ hd) p.noOperand rfl ?_
    rw [skipOpcode_of_isDelimiter p.noDelimiter]
    exact ih hstart hd hk hskip ⟨hin.control, hin.depth⟩
  | push p next ih =>
    -- the two sides part here, so that the hypothesis on the next block is not used
    rw [skip, andThen_assoc]
    exact mirrors_skip_push (hskip ▸ hd) p.isPush (startsAt_skip next hstart)
      (operand_append_ne p _)
  | ifThen notIf body next ihBody ihNext =>
    simp only [skip, andThen_assoc]
    apply mirrors_skip_if hd hskip hin
    intro e hskip hin
    apply ihBody (startsAt_meet _ _ _) (succ_pos d) ?_ hskip hin
    intro e hskip hin
    apply mirrors_skip_endIf hd hskip hin
    intro e hskip hin
    exact ihNext hstart hd hk hskip hin
  | ifElse notIf body other next ihBody ihOther ihNext =>
    simp only [skip, andThen_assoc]
    apply mirrors_skip_if hd hskip hin
    intro e hskip hin
    apply ihBody (startsAt_meet _ _ _) (succ_pos d) ?_ hskip hin
    intro e hskip hin
    apply mirrors_skip_else hd hskip hin
    intro e hskip hin
    apply ihOther (startsAt_meet _ _ _) (succ_pos d) ?_ hskip hin
    intro e hskip hin
    apply mirrors_skip_endIf hd hskip hin
    intro e hskip hin
    exact ihNext hstart hd hk hskip hin

end Block

end

section

variable {env : Platform} {ctx : ExecContext} {n m : Nat} {e : ScriptEngine} {rest : Bytes}
  {k : ScriptEngine → Visits}

theorem misreads_of_ne_else {byte : UInt8} (hzero : e.skipDepth = 0)
    (hne : ofByte byte ≠ .opElse) : misreads ⟨e, byte :: rest⟩ = false := by
  simp [misreads, shouldSkip, hzero, hne]

section

variable (hzero : e.skipDepth = 0) (hin : Inside n m e)

include hzero hin

theorem mirrors_op (p : PlainOp) (hm : maxStackDepth ≤ m)
    (hrest : ∀ e, e.skipDepth = 0 → Inside n m e → Mirrors env ctx ⟨e, rest⟩ (k e.bare)) :
    Mirrors env ctx ⟨e, p.byte :: rest⟩
      ((perform e.bare (p.byte :: rest) fun e =>
        (dispatch env ctx (.ofByte p.byte) ⟨e, []⟩).map Config.engine).andThen k) := by
  obtain ⟨f, hdispatch, hframed⟩ := dispatch_framed env ctx p.noOperand p.noDelimiter
  have hne : ofByte p.byte ≠ .opElse := ne_of_isDelimiter p.noDelimiter rfl
  refine mirrors_perform hzero (misreads_of_ne_else hzero hne) ?_ fun c' hc' hdepth => ?_
  · simp only [hdispatch, plain]
    rw [show e.bare.countOpcode = e.countOpcode.bare from rfl, hframed.bare]
    rcases f e.countOpcode with failure | e'
    · rfl
    · rfl
  · rw [hdispatch] at hc'
    obtain ⟨e', he', rfl⟩ := plain_eq_ok.mp hc'
    obtain ⟨hcontrol, hskip⟩ := hframed.keeps he'
    exact hrest e' (hskip.trans hzero) ⟨hcontrol ▸ hin.control, Nat.le_trans hdepth hm⟩

theorem mirrors_push (p : Push) (hm : maxStackDepth ≤ m)
    (hrest : ∀ e, e.skipDepth = 0 → Inside n m e → Mirrors env ctx ⟨e, rest⟩ (k e.bare)) :
    Mirrors env ctx ⟨e, p.byte :: (p.operand ++ rest)⟩
      ((perform e.bare (p.byte :: (p.operand ++ rest)) (pushData p.payload)).andThen k) := by
  have hdispatch : dispatch env ctx (.ofByte p.byte) ⟨e.countOpcode, p.operand ++ rest⟩ =
      .ok ⟨{ e.countOpcode with stack := p.payload :: e.stack }, rest⟩ := by
    rw [dispatch_push p.isPush]
    exact pushDataN_operand p e.countOpcode rest
  have hne : ofByte p.byte ≠ .opElse :=
    ne_of_isDelimiter (isDelimiter_of_push p.isPush) rfl
  refine mirrors_perform hzero (misreads_of_ne_else hzero hne) ?_ fun c' hc' hdepth => ?_
  · rw [hdispatch]
    rfl
  · rw [hdispatch] at hc'
    cases hc'
    exact hrest _ hzero ⟨hin.control, Nat.le_trans hdepth hm⟩

/-- Entering a conditional: its own entry is on the control stack from here on. -/
theorem mirrors_if {notIf : Bool} (hrest : ∀ e', e'.skipDepth = (if e.selects notIf then 0 else 1) →
      Inside (n + 1) maxStackDepth e' → Mirrors env ctx ⟨e', rest⟩ (k e'.bare)) :
    Mirrors env ctx ⟨e, ifByte notIf :: rest⟩
      ((perform e.bare (ifByte notIf :: rest) fun e => .ok (e.dropCondition notIf)).andThen k) := by
  have hdispatch := dispatch_ifByte env ctx notIf
  have henter := enterBranch_executed (e := e.countOpcode) (holds notIf) hzero
  refine mirrors_perform hzero (misreads_of_ne_else hzero (ifByte_ne_else notIf)) ?_
    fun c' hc' hdepth => ?_
  · rw [hdispatch, plain_ok (c := ⟨e.countOpcode, rest⟩) henter]
    rfl
  · rw [hdispatch, plain_ok (c := ⟨e.countOpcode, rest⟩) henter] at hc'
    cases hc'
    exact hrest _ rfl ⟨succ_le_succ hin.control, hdepth⟩

end

section

variable {after : Bytes}

theorem exists_control_entry (hin : Inside (n + 1) m e) :
    ∃ b control, e.controlStack = b :: control ∧ n ≤ control.length := by
  have hlen := hin.control
  cases hc : e.controlStack with
  | nil => simp [hc] at hlen
  | cons b control => exact ⟨b, control, rfl, by simpa [hc] using hlen⟩

variable (hrest : ∀ e, e.skipDepth = 0 → Inside n m e → Mirrors env ctx ⟨e, after⟩ (k e.bare))

include hrest

/-- The end of a conditional after a part that was run: an entry is removed. -/
theorem mirrors_endIf (hzero : e.skipDepth = 0) (hin : Inside (n + 1) m e) :
    Mirrors env ctx ⟨e, endIfByte :: after⟩
      ((perform e.bare (endIfByte :: after) .ok).andThen k) := by
  obtain ⟨b, control, hcontrol, hlen⟩ := exists_control_entry hin
  have hend : plain opEndIf ⟨e.countOpcode, after⟩ =
      .ok ⟨{ e.countOpcode with controlStack := control }, after⟩ :=
    plain_ok (opEndIf_executed (e := e.countOpcode) hzero hcontrol)
  have hdispatch : dispatch env ctx (.ofByte endIfByte) ⟨e.countOpcode, after⟩ =
      .ok ⟨{ e.countOpcode with controlStack := control }, after⟩ := hend
  refine mirrors_perform hzero (misreads_of_ne_else hzero (by decide)) ?_ fun c' hc' hdepth => ?_
  · rw [hdispatch]
    rfl
  · rw [hdispatch] at hc'
    cases hc'
    exact hrest _ hzero ⟨hlen, hin.depth⟩

/-- The end of a conditional after a part that was skipped: its entry stays. -/
theorem mirrors_endIf_skipped (hone : e.skipDepth = 1) (hin : Inside (n + 1) m e) :
    Mirrors env ctx ⟨e, endIfByte :: after⟩
      ((meet e.surface (endIfByte :: after) fun e => .ok e.resumed).andThen k) := by
  have hdepth : skipOpcode .opEndIf e.countOpcode = { e.countOpcode with skipDepth := 0 } := by
    simp [skipOpcode, hone]
  refine mirrors_skip (by omega) rfl rfl ?_
  rw [ofByte_endIfByte, hdepth]
  exact hrest _ rfl ⟨le_of_succ_le hin.control, hin.depth⟩

theorem mirrors_else_skipped (hone : e.skipDepth = 1) (hin : Inside n m e) :
    Mirrors env ctx ⟨e, elseByte :: after⟩
      ((meet e.surface (elseByte :: after) fun e => .ok e.resumed).andThen k) := by
  have hdepth : skipOpcode .opElse e.countOpcode = { e.countOpcode with skipDepth := 0 } := by
    simp [skipOpcode, hone]
  refine mirrors_skip (by omega) rfl rfl ?_
  rw [ofByte_elseByte, hdepth]
  exact hrest _ rfl ⟨hin.control, hin.depth⟩

omit hrest

/-- An `OP_ELSE` after a part that was run. It has to start skipping, and does so where
it finds `true` on the control stack. -/
theorem mirrors_else (hzero : e.skipDepth = 0) (hin : Inside (n + 1) maxStackDepth e)
    (hskips : ∀ e, ∃ z, (k e).visited.head? = some z ∧ z.engine.skipDepth = 1)
    (hrest : ∀ e, e.skipDepth = 1 → Inside (n + 1) maxStackDepth e →
      Mirrors env ctx ⟨e, after⟩ (k e.bare)) :
    Mirrors env ctx ⟨e, elseByte :: after⟩
      ((perform e.bare (elseByte :: after) .ok).andThen k) := by
  obtain ⟨b, control, hcontrol, hlen⟩ := exists_control_entry hin
  have hdispatch : dispatch env ctx (.ofByte elseByte) ⟨e.countOpcode, after⟩ =
      .ok ⟨{ e.countOpcode with
        controlStack := (!b) :: control
        skipDepth := if b then 1 else 0 }, after⟩ :=
    plain_ok (f := opElse) (c := ⟨e.countOpcode, after⟩)
      (opElse_executed (e := e.countOpcode) hzero hcontrol)
  cases b with
  | true =>
    have hclear : misreads ⟨e, elseByte :: after⟩ = false := by
      simp [misreads, shouldSkip, hzero, hcontrol]
    refine mirrors_perform hzero hclear ?_ fun c' hc' hdepth => ?_
    · rw [hdispatch]
      rfl
    · rw [hdispatch] at hc'
      cases hc'
      exact hrest _ rfl ⟨succ_le_succ hlen, hdepth⟩
  | false =>
    -- the entry of an inner conditional: the interpreter goes on executing
    rw [← surface_of_zero hzero]
    obtain hcount | hcount := Nat.lt_or_ge e.opcodeCount maxOpcodeCount
    · have hstep := stepByte_eq_ok.mpr ⟨hcount, .inr ⟨hzero, hdispatch, hin.depth⟩⟩
      have hmisread : misreads ⟨e, elseByte :: after⟩ = true := by
        simp [misreads, shouldSkip, hzero, hcontrol, hcount]
      have hwithin : withinDepth e.surface.countOpcode = .ok e.surface.countOpcode :=
        if_neg (Nat.not_lt.mpr hin.depth)
      obtain ⟨z, hhead, hz⟩ := hskips e.surface.countOpcode
      rw [perform, meet_counted (e := e.surface) hcount, ok_bind, hwithin]
      refine mirrors_misread hmisread hstep hhead ?_
      rintro rfl
      cases hz
    · exact mirrors_full hcount

/-- What is shown of a block that is run, whatever comes after it. -/
def Block.RunMirrors (env : Platform) (ctx : ExecContext) (b : Block) : Prop :=
  ∀ {after : Bytes} {k : ScriptEngine → Visits} {n m : Nat} {e : ScriptEngine},
    maxStackDepth ≤ m →
    (∀ e, e.skipDepth = 0 → Inside n m e → Mirrors env ctx ⟨e, after⟩ (k e.bare)) →
    e.skipDepth = 0 → Inside n m e →
    Mirrors env ctx ⟨e, b.codeBefore after⟩ ((b.run env ctx after e.bare).andThen k)

variable {b : Block} (hb : b.RunMirrors env ctx) {selected : Bool}

include hb

/-- The part of a conditional that `OP_ENDIF` ends. -/
theorem mirrors_branch_endIf (hm : maxStackDepth ≤ m)
    (hskip : e.skipDepth = if selected then 0 else 1) (hin : Inside (n + 1) m e)
    (hrest : ∀ e, e.skipDepth = 0 → Inside n m e → Mirrors env ctx ⟨e, after⟩ (k e.bare)) :
    Mirrors env ctx ⟨e, b.codeBefore (endIfByte :: after)⟩
      ((branch selected (b.run env ctx (endIfByte :: after)) (b.skip (endIfByte :: after))
        (endIfByte :: after) e.bare).andThen k) := by
  cases selected with
  | true =>
    rw [branch, if_pos rfl, andThen_assoc]
    apply hb hm ?_ hskip hin
    intro e hzero hin
    exact mirrors_endIf hrest hzero hin
  | false =>
    have hpos : 0 < e.skipDepth := by simp [hskip]
    rw [branch, if_neg Bool.false_ne_true, andThen_assoc, ← surface_of_pos hpos]
    apply b.skip_mirrors (startsAt_meet _ _ _) Nat.one_pos ?_ hskip hin
    intro e hone hin
    exact mirrors_endIf_skipped hrest hone hin

/-- The part of a conditional that `OP_ELSE` ends. -/
theorem mirrors_branch_else (hskip : e.skipDepth = if selected then 0 else 1)
    (hin : Inside (n + 1) maxStackDepth e)
    (hskips : selected = true → ∀ e, ∃ z, (k e).visited.head? = some z ∧ z.engine.skipDepth = 1)
    (hrest : ∀ e, e.skipDepth = (if selected then 1 else 0) → Inside (n + 1) maxStackDepth e →
      Mirrors env ctx ⟨e, after⟩ (k e.bare)) :
    Mirrors env ctx ⟨e, b.codeBefore (elseByte :: after)⟩
      ((branch selected (b.run env ctx (elseByte :: after)) (b.skip (elseByte :: after))
        (elseByte :: after) e.bare).andThen k) := by
  cases selected with
  | true =>
    rw [branch, if_pos rfl, andThen_assoc]
    apply hb (Nat.le_refl _) ?_ hskip hin
    intro e hzero hin
    exact mirrors_else hzero hin (hskips rfl) hrest
  | false =>
    have hpos : 0 < e.skipDepth := by simp [hskip]
    rw [branch, if_neg Bool.false_ne_true, andThen_assoc, ← surface_of_pos hpos]
    apply b.skip_mirrors (startsAt_meet _ _ _) Nat.one_pos ?_ hskip hin
    intro e hone hin
    exact mirrors_else_skipped hrest hone hin

end

/-- A part that is not selected starts with a visit that skips. -/
theorem exists_head?_branch {run : ScriptEngine → Visits} (b : Block) (after : Bytes)
    (k : ScriptEngine → Visits) (e : ScriptEngine) :
    ∃ z, ((branch false run (b.skip after) after e).andThen k).visited.head? = some z ∧
      z.engine.skipDepth = 1 := by
  have hmeet : StartsAt after fun e => meet e after fun e => .ok e.resumed := fun _ => rfl
  exact ⟨_, head?_andThen (b.startsAt_skip hmeet e.skipping) k, rfl⟩

/-- The interpreter follows a block, in front of whatever bytes, if and only if it
misreads nothing. -/
theorem Block.run_mirrors (env : Platform) (ctx : ExecContext) (b : Block) :
    b.RunMirrors env ctx := by
  induction b with
  | done =>
    intro after k n m e hm hk hzero hin
    exact hk e hzero hin
  | op p next ih =>
    intro after k n m e hm hk hzero hin
    rw [run, andThen_assoc]
    apply mirrors_op hzero hin p hm
    intro e hzero hin
    exact ih hm hk hzero hin
  | push p next ih =>
    intro after k n m e hm hk hzero hin
    rw [run, andThen_assoc]
    apply mirrors_push hzero hin p hm
    intro e hzero hin
    exact ih hm hk hzero hin
  | ifThen notIf body next ihBody ihNext =>
    intro after k n m e hm hk hzero hin
    simp only [run, andThen_assoc]
    apply mirrors_if hzero hin
    intro e' hskip hin'
    apply mirrors_branch_endIf ihBody hm hskip ⟨hin'.control, Nat.le_trans hin'.depth hm⟩
    intro e hzero hin
    exact ihNext hm hk hzero hin
  | ifElse notIf body other next ihBody ihOther ihNext =>
    intro after k n m e hm hk hzero hin
    simp only [run, andThen_assoc]
    apply mirrors_if hzero hin
    intro e' hskip hin'
    apply mirrors_branch_else ihBody hskip hin'
    · -- after a part that was run, the other part starts with a visit that skips
      intro hselected e'
      rw [show e.bare.selects notIf = true from hselected]
      exact exists_head?_branch other _ _ e'
    intro e' hskip' hin'
    have hother : e'.skipDepth = if !e.bare.selects notIf then 0 else 1 := by
      rw [hskip', show e.selects notIf = e.bare.selects notIf from rfl]
      cases e.bare.selects notIf
      all_goals rfl
    apply mirrors_branch_endIf ihOther hm hother ⟨hin'.control, Nat.le_trans hin'.depth hm⟩
    intro e hzero hin
    exact ihNext hm hk hzero hin

end

variable (env : Platform) (ctx : ExecContext)

/-- An `OP_ELSE` or `OP_ENDIF` is executed, and the control stack is empty. -/
inductive Unopened : Config → Prop
  | intro {e : ScriptEngine} {byte : UInt8} {rest : Bytes} :
      e.skipDepth = 0 → (ofByte byte = .opElse ∨ ofByte byte = .opEndIf) →
      e.controlStack = [] → Unopened ⟨e, byte :: rest⟩

/-- The next instruction stops the run for another reason. -/
inductive Refused : Config → Prop
  | limit {e : ScriptEngine} {byte : UInt8} {rest : Bytes} :
      maxOpcodeCount ≤ e.opcodeCount → Refused ⟨e, byte :: rest⟩
  | instruction {e : ScriptEngine} {byte : UInt8} {rest : Bytes} {failure : Failure ScriptError} :
      e.skipDepth = 0 → ofByte byte ≠ .opElse → ofByte byte ≠ .opEndIf →
      dispatch env ctx (.ofByte byte) ⟨e.countOpcode, rest⟩ = .error failure →
      Refused ⟨e, byte :: rest⟩
  | stack {e : ScriptEngine} {byte : UInt8} {rest : Bytes} {c' : Config} :
      e.skipDepth = 0 → dispatch env ctx (.ofByte byte) ⟨e.countOpcode, rest⟩ = .ok c' →
      maxStackDepth < c'.engine.stack.length → Refused ⟨e, byte :: rest⟩

variable {env ctx} {e : ScriptEngine} {byte : UInt8} {rest : Bytes}

theorem shouldSkip_of_zero (hzero : e.skipDepth = 0) : e.shouldSkip = false := by
  simp [shouldSkip, hzero]

/-- Delimiters fail on an empty control stack, and nowhere else. -/
theorem dispatch_delimiter_fails_iff (env : Platform) (ctx : ExecContext) (rest : Bytes)
    (hzero : e.skipDepth = 0) (hopcode : ofByte byte = .opElse ∨ ofByte byte = .opEndIf) :
    (∃ failure, dispatch env ctx (.ofByte byte) ⟨e.countOpcode, rest⟩ = .error failure) ↔
      e.controlStack = [] := by
  have hpasses : ∀ {f} {e' : ScriptEngine}, f e.countOpcode = .ok e' →
      ¬ ∃ failure, plain f ⟨e.countOpcode, rest⟩ = .error failure := by
    rintro f e' hf ⟨failure, hfails⟩
    rw [plain_ok (c := ⟨e.countOpcode, rest⟩) hf] at hfails
    cases hfails
  cases hcontrol : e.controlStack with
  | nil =>
    apply iff_of_true ?_ rfl
    obtain h | h := hopcode
    · rw [h]
      exact ⟨_, plain_fail (opElse_unopened (e := e.countOpcode) hzero hcontrol)⟩
    · rw [h]
      exact ⟨_, plain_fail (opEndIf_unopened (e := e.countOpcode) hzero hcontrol)⟩
  | cons b control =>
    apply iff_of_false ?_ (List.cons_ne_nil b control)
    obtain h | h := hopcode
    · rw [h]
      exact hpasses (opElse_executed (e := e.countOpcode) hzero hcontrol)
    · rw [h]
      exact hpasses (opEndIf_executed (e := e.countOpcode) hzero hcontrol)

theorem stepByte_of_stopped (h : Unopened ⟨e, byte :: rest⟩ ∨ Refused env ctx ⟨e, byte :: rest⟩) :
    ∃ failure, stepByte env ctx e byte rest = .error failure := by
  obtain hcount | hcount := Nat.lt_or_ge e.opcodeCount maxOpcodeCount
  · rcases h with ⟨hzero, hopcode, hcontrol⟩ | ⟨hfull⟩ | ⟨hzero, -, -, hfails⟩ |
      ⟨hzero, hpasses, hdepth⟩
    · obtain ⟨failure, hfails⟩ :=
        (dispatch_delimiter_fails_iff env ctx rest hzero hopcode).mpr hcontrol
      rw [stepByte_executed hcount (shouldSkip_of_zero hzero), hfails]
      exact ⟨failure, rfl⟩
    · omega
    · rw [stepByte_executed hcount (shouldSkip_of_zero hzero), hfails]
      exact ⟨_, rfl⟩
    · rw [stepByte_executed hcount (shouldSkip_of_zero hzero), hpasses]
      exact ⟨_, if_pos hdepth⟩
  · exact ⟨_, stepByte_full hcount⟩

theorem stopped_of_stepByte {failure : Failure ScriptError}
    (h : stepByte env ctx e byte rest = .error failure) :
    Unopened ⟨e, byte :: rest⟩ ∨ Refused env ctx ⟨e, byte :: rest⟩ := by
  obtain hcount | hcount := Nat.lt_or_ge e.opcodeCount maxOpcodeCount
  · obtain hzero | hpos := Nat.eq_zero_or_pos e.skipDepth
    · cases hdispatch : dispatch env ctx (.ofByte byte) ⟨e.countOpcode, rest⟩ with
      | error failure =>
        by_cases hopcode : ofByte byte = .opElse ∨ ofByte byte = .opEndIf
        · have hcontrol := (dispatch_delimiter_fails_iff env ctx rest hzero hopcode).mp
            ⟨failure, hdispatch⟩
          exact .inl ⟨hzero, hopcode, hcontrol⟩
        · obtain ⟨helse, hendIf⟩ := not_or.mp hopcode
          exact .inr (.instruction hzero helse hendIf hdispatch)
      | ok c' =>
        refine .inr (.stack hzero hdispatch (Nat.lt_of_not_le ?_))
        intro hdepth
        rw [stepByte_eq_ok.mpr ⟨hcount, .inr ⟨hzero, hdispatch, hdepth⟩⟩] at h
        cases h
    · rw [stepByte_skipped hcount (decide_eq_true hpos)] at h
      cases h
  · exact .inr (.limit hcount)

theorem runFrom_fails_iff (c : Config) :
    (∃ failure, runFrom env ctx c = .error failure) ↔
      ∃ x ∈ traceFrom env ctx c, Unopened x ∨ Refused env ctx x := by
  induction c using Config.run_induct env ctx with
  | nil e => simp
  | cons e byte rest ih =>
    cases hstep : stepByte env ctx e byte rest with
    | error failure =>
      apply iff_of_true
      · exact ⟨failure, runFrom_error hstep⟩
      · rw [traceFrom_error hstep]
        exact ⟨_, List.mem_singleton_self _, stopped_of_stepByte hstep⟩
    | ok c' =>
      have hpasses : ¬ (Unopened ⟨e, byte :: rest⟩ ∨ Refused env ctx ⟨e, byte :: rest⟩) := by
        intro hstopped
        obtain ⟨failure, herror⟩ := stepByte_of_stopped hstopped
        rw [hstep] at herror
        cases herror
      rw [runFrom_step hstep, traceFrom_step hstep, ih c' hstep]
      simp only [List.mem_cons, exists_eq_or_imp, hpasses, false_or]

section

variable (env : Platform) (ctx : ExecContext)

variable {script : Bytes}

/-- A script that is too long is not run, and any other is run by the loop. -/
theorem met_of_le (hsize : script.length ≤ maxScriptBytes) (e : ScriptEngine) :
    met env ctx script e = traceFrom env ctx ⟨e, script⟩ := by
  rw [met, if_neg (Nat.not_lt.mpr hsize), executeTrace_eq_traceFrom]

theorem met_of_lt (hsize : maxScriptBytes < script.length) (e : ScriptEngine) :
    met env ctx script e = [] :=
  if_pos hsize

theorem execute_of_lt (hsize : maxScriptBytes < script.length)
    (e : ScriptEngine) : execute env ctx script e = fail .scriptTooLarge :=
  if_pos hsize

theorem follows_iff (b : Block) {e : ScriptEngine} (hzero : e.skipDepth = 0) :
    Follows env ctx b e ↔ ∀ c ∈ met env ctx b.code e, misreads c = false := by
  obtain hsize | hsize := Nat.lt_or_ge maxScriptBytes b.code.length
  · apply iff_of_true
    · rw [Follows, met_of_lt env ctx hsize, execute_of_lt env ctx hsize, Block.execute,
        if_pos hsize]
      rfl
    · simp [met_of_lt env ctx hsize]
  · have hobserved : (⟨(met env ctx b.code e).map Config.surface,
        (execute env ctx b.code e).map surface⟩ : Visits) =
          observed env ctx ⟨e, b.code⟩ := by
      rw [met_of_le env ctx hsize, execute_eq_runFrom env ctx hsize, observed]
      cases runFrom env ctx ⟨e, b.code⟩ with
      | error failure => rfl
      | ok c => rfl
    have hmirrors : Mirrors env ctx ⟨e, b.code⟩
        ((b.run env ctx [] e.bare).andThen .pure) := by
      apply b.run_mirrors env ctx (Nat.le_max_left maxStackDepth e.stack.length) ?_ hzero
        ⟨Nat.zero_le _, Nat.le_max_right _ _⟩
      intro e hzero _
      apply iff_of_true
      · rw [← surface_of_zero hzero]
        rfl
      · simp
    rw [Follows, hobserved, Block.execute, if_neg (Nat.not_lt.mpr hsize), surface_of_zero hzero,
      met_of_le env ctx hsize]
    rw [andThen_pure] at hmirrors
    exact hmirrors

theorem execute_fails_iff (script : Bytes) (e : ScriptEngine) :
    (∃ failure, execute env ctx script e = .error failure) ↔
      maxScriptBytes < script.length ∨
        ∃ c ∈ met env ctx script e, Unopened c ∨ Refused env ctx c := by
  obtain hsize | hsize := Nat.lt_or_ge maxScriptBytes script.length
  · exact iff_of_true ⟨_, execute_of_lt env ctx hsize e⟩ (.inl hsize)
  · rw [met_of_le env ctx hsize, ← runFrom_fails_iff, execute_eq_runFrom env ctx hsize]
    cases runFrom env ctx ⟨e, script⟩ with
    | error failure => simp
    | ok c => simp [Nat.not_lt.mpr hsize]

/-- Structured conditionals, for every script: `execute` has the meaning of the
script where it is well nested, and fails where its conditionals are not balanced, if
and only if the run of a well-nested script misreads nothing, and the run of an unbalanced
one executes an `OP_ELSE` or `OP_ENDIF` on an empty control stack where every other
instruction passes. -/
theorem execute_structured_iff (script : Bytes) {e : ScriptEngine} (hzero : e.skipDepth = 0) :
    ((∀ b : Block, b.code = script → Follows env ctx b e) ∧
        (balanced script = false → ∃ failure, execute env ctx script e = .error failure)) ↔
      ((∃ b : Block, b.code = script) →
          ∀ c ∈ met env ctx script e, misreads c = false) ∧
        (balanced script = false → script.length ≤ maxScriptBytes →
          (∀ c ∈ met env ctx script e, ¬ Refused env ctx c) →
            ∃ c ∈ met env ctx script e, Unopened c) := by
  apply and_congr
  · constructor
    · rintro hfollows ⟨b, rfl⟩
      exact (follows_iff env ctx b hzero).mp (hfollows b rfl)
    · rintro hclear b rfl
      exact (follows_iff env ctx b hzero).mpr (hclear ⟨b, rfl⟩)
  · rw [execute_fails_iff]
    refine imp_congr_right fun _ => ⟨?_, fun hunopened => ?_⟩
    · rintro (hlong | ⟨c, hc, hunopened | hrefused⟩) hsize hpasses
      · exact absurd hlong (Nat.not_lt.mpr hsize)
      · exact ⟨c, hc, hunopened⟩
      · exact absurd hrefused (hpasses c hc)
    · by_contra hnone
      simp only [not_or, not_exists, not_and, Nat.not_lt] at hnone
      obtain ⟨c, hc, h⟩ := hunopened hnone.1 fun c hc => (hnone.2 c hc).2
      exact (hnone.2 c hc).1 h

end

/-- `OP_1`, `OP_0` and `OP_RETURN` in front of a block. -/
def opOne : PlainOp := ⟨0x51, rfl, rfl⟩

def opZero : PlainOp := ⟨0x00, rfl, rfl⟩

def opReturn : PlainOp := ⟨0x6a, rfl, rfl⟩

/-- `OP_1 OP_IF OP_1 OP_ELSE OP_RETURN OP_ENDIF`. -/
def selectedFirst : Block :=
  .op opOne (.ifElse false (.op opOne .done) (.op opReturn .done) .done)

/-- `OP_1 OP_0 OP_IF OP_PUSHDATA1 [OP_ENDIF OP_RETURN] OP_ENDIF`. -/
def skippedPush : Block :=
  .op opOne (.op opZero (.ifThen false
    (.push ⟨0x4c, [0x68, 0x6a], by decide, by decide⟩ .done) .done))

/-- `OP_1 OP_IF OP_0 OP_IF OP_ENDIF OP_ELSE OP_RETURN OP_ENDIF`. -/
def staleEntry : Block :=
  .op opOne (.ifElse false (.op opZero (.ifThen false .done .done)) (.op opReturn .done) .done)

/-- The part that is not selected is passed over. -/
theorem execute_structured_iff_selectedFirst :
    Follows .blank (verifyContext emptyTx 0 []) selectedFirst new := by
  have hclear : ∀ c ∈ met .blank (verifyContext emptyTx 0 []) selectedFirst.code new,
      misreads c = false := by
    decide +kernel
  have hbalanced : balanced selectedFirst.code = true := by decide
  exact ((execute_structured_iff .blank (verifyContext emptyTx 0 []) selectedFirst.code
    (e := new) rfl).mpr ⟨fun _ => hclear, fun h => by rw [hbalanced] at h; cases h⟩).1
      selectedFirst rfl

theorem not_follows {env : Platform} {ctx : ExecContext} {b : Block} {e : ScriptEngine}
    (h : (execute env ctx b.code e).map surface ≠
      (b.execute env ctx e.surface).outcome) : ¬ Follows env ctx b e :=
  fun hfollows => h (congrArg outcome hfollows)

/-- The payload of a skipped push ends the branch that it is in, and the second part of
a conditional is run after the first one: both scripts are stopped by an `OP_RETURN`
that is not to be run. An open conditional is accepted at the end of a script, and so
is an `OP_ENDIF` too many, for which a skipped branch has left an entry. -/
theorem execute_not_structured :
    (¬ Follows .blank (verifyContext emptyTx 0 []) skippedPush new ∧
        execute .blank (verifyContext emptyTx 0 []) skippedPush.code new = fail .opReturn ∧
        (skippedPush.execute .blank (verifyContext emptyTx 0 []) new).outcome =
          .ok { new with stack := [[1]], opcodeCount := 5 }) ∧
      (¬ Follows .blank (verifyContext emptyTx 0 []) staleEntry new ∧
        execute .blank (verifyContext emptyTx 0 []) staleEntry.code new = fail .opReturn ∧
        (staleEntry.execute .blank (verifyContext emptyTx 0 []) new).outcome =
          .ok { new with opcodeCount := 8 }) ∧
      (balanced [0x51, 0x63] = false ∧
        execute .blank (verifyContext emptyTx 0 []) [0x51, 0x63] new =
          .ok { new with opcodeCount := 2, controlStack := [true] }) ∧
      (balanced [0x00, 0x63, 0x68, 0x68] = false ∧
        execute .blank (verifyContext emptyTx 0 []) [0x00, 0x63, 0x68, 0x68] new =
          .ok { new with opcodeCount := 4 }) := by
  refine ⟨⟨not_follows ?_, ?_⟩, ⟨not_follows ?_, ?_⟩, ?_⟩
  all_goals decide +kernel

end RustyCoin.ScriptEngine
