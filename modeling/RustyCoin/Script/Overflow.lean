import RustyCoin.Script.Concatenation

/-!
# Scripts in a build that checks arithmetic

A release build lets `usize` and `u64` arithmetic wrap around, a debug build
aborts. Three instructions compute with numbers that the script or the chain
chooses: the end of a substring, and the estimated time of two lock-time checks.
They are given a second time here with checked arithmetic, and so is the
interpreter around them. The positions in a script, the counters and the indices
into the stack stay far below the range of their types.

The instructions that abort in one of the two builds are listed by `panics`, and a
script returns in both builds exactly when it does not get to one of them.
-/

namespace RustyCoin.ScriptEngine

open Outcome

def checkedAdd (a b : UInt64) : ScriptResult UInt64 :=
  if a.toNat + b.toNat < 2 ^ 64 then .ok (a + b) else .error .panic

def checkedMul (a b : UInt64) : ScriptResult UInt64 :=
  if a.toNat * b.toNat < 2 ^ 64 then .ok (a * b) else .error .panic

def opSubstrChecked (s : Stack) : ScriptResult Stack := do
  let (v, s) ← popData s
  let size ← asUsize v
  let (v, s) ← popData s
  let offset ← asUsize v
  let (data, s) ← popData s
  let last ← checkedAdd offset size
  if last.toNat > data.length then fail .invalidStackState
  else if offset > last then .error .panic
  else return (data.drop offset.toNat).take size.toNat :: s

variable (ctx : ExecContext) (s : Stack)

def opCheckLockTimeVerifyChecked : ScriptResult Stack := do
  let (v, s) ← popData s
  let lockTime ← asU32 v
  let txLockTime := ctx.tx.getLockTime
  if txLockTime = 0 then fail .verificationFailed
  else if lockTime > txLockTime then fail .verificationFailed
  else if lockTime < locktimeThreshold then
    if ctx.currentBlockHeight < lockTime.toUInt64 then fail .verificationFailed else return s
  else do
    let estimatedTimestamp ← checkedMul ctx.currentBlockHeight 60
    if estimatedTimestamp < lockTime.toUInt64 then fail .verificationFailed else return s

/-- The time is computed for a relative time and not used. -/
def opCheckSequenceVerifyChecked : ScriptResult Stack := do
  let (v, s) ← popData s
  let relativeSequence ← asU32 v
  let input ← okOr ctx.tx.getInputs[ctx.inputIndex]? .verificationFailed
  if input.sequence &&& ((1 : UInt32) <<< 31) ≠ 0 then return s
  else if relativeSequence &&& ((1 : UInt32) <<< 31) ≠ 0 then return s
  else if input.sequence &&& 0xFFFF < relativeSequence &&& 0xFFFF then fail .verificationFailed
  else if relativeSequence &&& ((1 : UInt32) <<< 22) ≠ 0 then do
    let _ ← checkedMul ctx.currentBlockHeight 60
    if input.sequence &&& 0xFFFF < relativeSequence &&& 0xFFFF then fail .verificationFailed
    else return s
  else if input.sequence &&& 0xFFFF < relativeSequence &&& 0xFFFF then fail .verificationFailed
  else return s

variable (env : Platform) (ctx : ExecContext)

/-- The instructions without unbounded arithmetic are the same in both builds. -/
def dispatchChecked (opcode : Opcode) : Config → ScriptResult Config :=
  match opcode with
  | .opSubStr => plain (onStack opSubstrChecked)
  | .opCheckLockTimeVerify => plain (onStack (opCheckLockTimeVerifyChecked ctx))
  | .opCheckSequenceVerify => plain (onStack (opCheckSequenceVerifyChecked ctx))
  | opcode => dispatch env ctx opcode

def stepByteChecked (e : ScriptEngine) (byte : UInt8) (rest : Bytes) : ScriptResult Config :=
  if e.opcodeCount ≥ maxOpcodeCount then fail .tooManyOpcodes
  else if e.shouldSkip then .ok ⟨skipOpcode (.ofByte byte) e.countOpcode, rest⟩
  else dispatchChecked env ctx (.ofByte byte) ⟨e.countOpcode, rest⟩ >>= checkDepth

def stepChecked (c : Config) : Option (ScriptResult Config) :=
  match c.rest with
  | [] => none
  | byte :: rest => some (stepByteChecked env ctx c.engine byte rest)

def executeChecked (script : Bytes) (e : ScriptEngine) : ScriptResult ScriptEngine :=
  if script.length > maxScriptBytes then fail .scriptTooLarge
  else do
    let c ← Loop.run (stepChecked env ctx) script.length ⟨e, script⟩
    return c.engine

/-- The end of a substring is past the range of `usize`. -/
def substrOverflows : Stack → Bool
  | size :: offset :: _ :: _ =>
    decide (size.length ≤ 8) && decide (offset.length ≤ 8) &&
      decide (2 ^ 64 ≤ leValue offset + leValue size)
  | _ => false

/-- The estimated time is past the range of `u64`. -/
def timeOverflows : Bool :=
  decide (2 ^ 64 ≤ ctx.currentBlockHeight.toNat * 60)

/-- The item is a time that the lock time of the transaction covers. -/
def comparesTime : Stack → Bool
  | v :: _ =>
    decide (v.length ≤ 4) && decide (ctx.tx.getLockTime ≠ 0) &&
      decide (UInt32.ofNat (leValue v) ≤ ctx.tx.getLockTime) &&
      decide (locktimeThreshold ≤ UInt32.ofNat (leValue v))
  | [] => false

/-- The item is a relative time that the sequence number of the input covers. -/
def comparesRelativeTime : Stack → Bool
  | v :: _ =>
    match ctx.tx.getInputs[ctx.inputIndex]? with
    | none => false
    | some input =>
      let relativeSequence := UInt32.ofNat (leValue v)
      decide (v.length ≤ 4) &&
        decide (input.sequence &&& ((1 : UInt32) <<< 31) = 0) &&
        decide (relativeSequence &&& ((1 : UInt32) <<< 31) = 0) &&
        decide (relativeSequence &&& 0xFFFF ≤ input.sequence &&& 0xFFFF) &&
        decide (relativeSequence &&& ((1 : UInt32) <<< 22) ≠ 0)
  | [] => false

/-- Does the instruction abort on this stack, in one of the two builds? -/
def panics (opcode : Opcode) (s : Stack) : Bool :=
  match opcode with
  | .opCheckMultiSig => multiSigAborts s
  | .opCheckMultiSigVerify => multiSigAborts s
  | .opSubStr => substrOverflows s
  | .opCheckLockTimeVerify => comparesTime ctx s && timeOverflows ctx
  | .opCheckSequenceVerify => comparesRelativeTime ctx s && timeOverflows ctx
  | _ => false

/-- The interpreter is about to execute an instruction that aborts in one of the
two builds. -/
def Config.Panics (c : Config) : Prop :=
  c.engine.opcodeCount < maxOpcodeCount ∧ c.engine.shouldSkip = false ∧
    ∃ byte rest, c.rest = byte :: rest ∧ panics ctx (.ofByte byte) c.engine.stack = true

section

variable (env : Platform) {ctx : ExecContext} {P : Failure ScriptError → Prop}

theorem toNat_ofNat_leValue {v : Bytes} (h : v.length ≤ 8) :
    (UInt64.ofNat (leValue v)).toNat = leValue v := by
  apply UInt64.toNat_ofNat_of_lt'
  calc leValue v < 256 ^ v.length := leValue_lt v
    _ ≤ 256 ^ 8 := Nat.pow_le_pow_right (by decide) h
    _ = UInt64.size := by decide

theorem failsWith_checkedAdd (a b : UInt64) :
    FailsWith P (checkedAdd a b) ↔ (2 ^ 64 ≤ a.toNat + b.toNat → P .panic) := by
  simp [checkedAdd]

theorem failsWith_checkedMul (a b : UInt64) :
    FailsWith P (checkedMul a b) ↔ (2 ^ 64 ≤ a.toNat * b.toNat → P .panic) := by
  simp [checkedMul]

/-- A sum that does not overflow is not before its first summand. -/
theorem checkedAdd_eq_ok {a b c : UInt64} (h : checkedAdd a b = .ok c) : ¬ a > c := by
  unfold checkedAdd at h
  split at h
  · rename_i hlt
    cases h
    rw [gt_iff_lt, UInt64.lt_iff_toNat_lt, UInt64.toNat_add, Nat.mod_eq_of_lt hlt]
    omega
  · cases h

variable (herr : ∀ e, P (.err e))
include herr

theorem failsWith_opSubstrChecked (s : Stack) :
    FailsWith P (opSubstrChecked s) ↔ (substrOverflows s = true → P .panic) := by
  rcases s with _ | ⟨size, _ | ⟨offset, _ | ⟨data, rest⟩⟩⟩
  · simp [opSubstrChecked, popData, substrOverflows, herr]
  · simp [opSubstrChecked, popData, substrOverflows, herr, failsWith_asUsize herr]
  · simp [opSubstrChecked, popData, substrOverflows, herr, failsWith_asUsize herr]
  · by_cases hsize : size.length ≤ 8
    · by_cases hoffset : offset.length ≤ 8
      · simp only [opSubstrChecked, popData, asUsize, hsize, hoffset, if_true, ok_bind,
          failsWith_bind, failsWith_checkedAdd, toNat_ofNat_leValue, substrOverflows,
          decide_true, Bool.true_and, decide_eq_true_eq]
        refine and_iff_left fun last hlast => ?_
        have hnot := checkedAdd_eq_ok hlast
        simp [herr, hnot]
      · simp [opSubstrChecked, popData, substrOverflows, asUsize, hsize, hoffset, herr]
    · simp [opSubstrChecked, popData, substrOverflows, asUsize, hsize, herr]

theorem failsWith_opCheckLockTimeVerifyChecked (s : Stack) :
    FailsWith P (opCheckLockTimeVerifyChecked ctx s) ↔
      ((comparesTime ctx s && timeOverflows ctx) = true → P .panic) := by
  cases s with
  | nil => simp [opCheckLockTimeVerifyChecked, popData, comparesTime, herr]
  | cons v s =>
    by_cases hlength : v.length ≤ 4
    · simp [opCheckLockTimeVerifyChecked, popData, comparesTime, asU32, hlength, herr,
        failsWith_checkedMul, timeOverflows]
    · simp [opCheckLockTimeVerifyChecked, popData, comparesTime, asU32, hlength, herr]

theorem failsWith_opCheckSequenceVerifyChecked (s : Stack) :
    FailsWith P (opCheckSequenceVerifyChecked ctx s) ↔
      ((comparesRelativeTime ctx s && timeOverflows ctx) = true → P .panic) := by
  cases s with
  | nil => simp [opCheckSequenceVerifyChecked, popData, comparesRelativeTime, herr]
  | cons v s =>
    by_cases hlength : v.length ≤ 4
    · cases hinput : ctx.tx.getInputs[ctx.inputIndex]? with
      | none =>
        simp [opCheckSequenceVerifyChecked, popData, comparesRelativeTime, asU32, hlength,
          hinput, okOr, herr]
      | some input =>
        simp [opCheckSequenceVerifyChecked, popData, comparesRelativeTime, asU32, hlength,
          hinput, okOr, herr, failsWith_checkedMul, timeOverflows]
    · cases hinput : ctx.tx.getInputs[ctx.inputIndex]? with
      | none =>
        simp [opCheckSequenceVerifyChecked, popData, comparesRelativeTime, asU32, hlength,
          hinput, herr]
      | some input =>
        simp [opCheckSequenceVerifyChecked, popData, comparesRelativeTime, asU32, hlength,
          hinput, herr]

theorem failsWith_dispatchChecked (ctx : ExecContext) (opcode : Opcode) {c : Config} :
    FailsWith P (dispatchChecked env ctx opcode c) ↔
      (panics ctx opcode c.engine.stack = true → P .panic) := by
  have hrelease := failsWith_dispatch env ctx herr (c := c) opcode
  cases opcode
  case opSubStr =>
    apply failsWith_plain.trans
    exact failsWith_onStack.trans (failsWith_opSubstrChecked herr _)
  case opCheckLockTimeVerify =>
    apply failsWith_plain.trans
    exact failsWith_onStack.trans (failsWith_opCheckLockTimeVerifyChecked herr _)
  case opCheckSequenceVerify =>
    apply failsWith_plain.trans
    exact failsWith_onStack.trans (failsWith_opCheckSequenceVerifyChecked herr _)
  all_goals exact hrelease

end

variable {env ctx}

theorem checkedMul_of_not_overflows (h : timeOverflows ctx = false) :
    checkedMul ctx.currentBlockHeight 60 = .ok (ctx.currentBlockHeight * 60) := by
  rw [timeOverflows, decide_eq_false_iff_not, Nat.not_le] at h
  exact if_pos h

variable {s : Stack} {c : Config}

theorem opSubstrChecked_eq (h : substrOverflows s = false) : opSubstrChecked s = opSubstr s := by
  rcases s with _ | ⟨size, _ | ⟨offset, _ | ⟨data, rest⟩⟩⟩
  · rfl
  · rfl
  · rfl
  · by_cases hsize : size.length ≤ 8
    · by_cases hoffset : offset.length ≤ 8
      · have hadd : checkedAdd (UInt64.ofNat (leValue offset)) (UInt64.ofNat (leValue size)) =
            .ok (UInt64.ofNat (leValue offset) + UInt64.ofNat (leValue size)) := by
          refine if_pos ?_
          rw [toNat_ofNat_leValue hoffset, toNat_ofNat_leValue hsize]
          simpa [substrOverflows, hsize, hoffset] using h
        simp [opSubstrChecked, opSubstr, popData, asUsize, hsize, hoffset, hadd]
      · simp [opSubstrChecked, opSubstr, popData, asUsize, hsize, hoffset]
    · simp [opSubstrChecked, opSubstr, popData, asUsize, hsize]

theorem opCheckLockTimeVerifyChecked_eq (h : (comparesTime ctx s && timeOverflows ctx) = false) :
    opCheckLockTimeVerifyChecked ctx s = opCheckLockTimeVerify ctx s := by
  cases htime : timeOverflows ctx with
  | false =>
    simp only [opCheckLockTimeVerifyChecked, opCheckLockTimeVerify,
      checkedMul_of_not_overflows htime, ok_bind]
  | true =>
    rw [htime, Bool.and_true] at h
    cases s with
    | nil => rfl
    | cons v s =>
      by_cases hlength : v.length ≤ 4
      · simp only [opCheckLockTimeVerifyChecked, opCheckLockTimeVerify, popData, asU32,
          hlength, if_true, ok_bind]
        split
        · rfl
        · split
          · rfl
          · split
            · rfl
            · -- a time that is compared would overflow
              rename_i hset hcovered hthreshold
              simp [comparesTime, hlength, hset, UInt32.not_lt.mp hcovered,
                UInt32.not_lt.mp hthreshold] at h
      · simp [opCheckLockTimeVerifyChecked, opCheckLockTimeVerify, popData, asU32, hlength]

theorem opCheckSequenceVerifyChecked_eq
    (h : (comparesRelativeTime ctx s && timeOverflows ctx) = false) :
    opCheckSequenceVerifyChecked ctx s = opCheckSequenceVerify ctx s := by
  cases s with
  | nil => rfl
  | cons v s =>
    by_cases hlength : v.length ≤ 4
    · cases hinput : ctx.tx.getInputs[ctx.inputIndex]? with
      | none =>
        simp [opCheckSequenceVerifyChecked, opCheckSequenceVerify, popData, asU32, hlength,
          hinput, okOr]
      | some input =>
        simp only [opCheckSequenceVerifyChecked, opCheckSequenceVerify, popData, asU32,
          hlength, hinput, okOr, if_true, ok_bind]
        split
        · rfl
        · split
          · rfl
          · split
            · rfl
            · rename_i hinputBit hbit hcovered
              split
              · rename_i hseconds
                have htime : timeOverflows ctx = false := by
                  simpa [comparesRelativeTime, hlength, hinput, not_not.mp hinputBit,
                    not_not.mp hbit, hseconds, UInt32.not_lt.mp hcovered] using h
                rw [checkedMul_of_not_overflows htime, ok_bind]
              · rfl
    · simp [opCheckSequenceVerifyChecked, opCheckSequenceVerify, popData, asU32, hlength]

theorem dispatchChecked_eq {opcode : Opcode} (h : panics ctx opcode c.engine.stack = false) :
    dispatchChecked env ctx opcode c = dispatch env ctx opcode c := by
  cases opcode
  case opSubStr =>
    change plain (onStack opSubstrChecked) c = plain (onStack opSubstr) c
    rw [plain, plain, onStack, onStack, opSubstrChecked_eq h]
  case opCheckLockTimeVerify =>
    change plain (onStack (opCheckLockTimeVerifyChecked ctx)) c =
      plain (onStack (opCheckLockTimeVerify ctx)) c
    rw [plain, plain, onStack, onStack, opCheckLockTimeVerifyChecked_eq h]
  case opCheckSequenceVerify =>
    change plain (onStack (opCheckSequenceVerifyChecked ctx)) c =
      plain (onStack (opCheckSequenceVerify ctx)) c
    rw [plain, plain, onStack, onStack, opCheckSequenceVerifyChecked_eq h]
  all_goals rfl

/-- Where no instruction aborts, the two builds do the same. -/
theorem stepChecked_eq (h : ¬ c.Panics ctx) : stepChecked env ctx c = step env ctx c := by
  obtain ⟨e, bytes⟩ := c
  cases bytes with
  | nil => rfl
  | cons byte rest =>
    refine congrArg some ?_
    change stepByteChecked env ctx e byte rest = stepByte env ctx e byte rest
    unfold stepByteChecked stepByte
    split
    · rfl
    · split
      · rfl
      · rename_i hcount hskip
        have hpanics : panics ctx (.ofByte byte) e.stack = false := by
          by_contra hpanics
          exact h ⟨Nat.not_le.mp hcount, Bool.eq_false_iff.mpr hskip, byte, rest, rfl,
            Bool.not_eq_false _ ▸ hpanics⟩
        rw [dispatchChecked_eq (c := ⟨e.countOpcode, rest⟩) hpanics]

/-- What aborts in a release build is among what aborts in either build. -/
theorem panics_of_aborts {opcode : Opcode} (h : aborts opcode s = true) :
    panics ctx opcode s = true := by
  cases opcode
  case opCheckMultiSig => exact h
  case opCheckMultiSigVerify => exact h
  case opSubStr =>
    change substrAborts s = true at h
    change substrOverflows s = true
    rcases s with _ | ⟨size, _ | ⟨offset, _ | ⟨data, rest⟩⟩⟩
    · cases h
    · cases h
    · cases h
    · simp only [substrAborts, Bool.and_eq_true, decide_eq_true_eq] at h
      obtain ⟨⟨⟨hsize, hoffset⟩, -⟩, hwrap⟩ := h
      simp only [substrOverflows, hsize, hoffset, decide_true, Bool.true_and, decide_eq_true_eq]
      by_contra hsum
      rw [gt_iff_lt, UInt64.lt_iff_toNat_lt, UInt64.toNat_add, toNat_ofNat_leValue hsize,
        toNat_ofNat_leValue hoffset, Nat.mod_eq_of_lt (Nat.not_le.mp hsum)] at hwrap
      omega
  all_goals cases h

variable (env ctx)

variable {P : Failure ScriptError → Prop}

theorem failsWith_stepChecked (herr : ∀ e, P (.err e))
    (c : Config) :
    (∀ r, stepChecked env ctx c = some r → FailsWith P r) ↔ (c.Panics ctx → P .panic) := by
  obtain ⟨e, bytes⟩ := c
  cases bytes with
  | nil =>
    refine iff_of_true nofun ?_
    rintro ⟨-, -, _, _, ⟨⟩, -⟩
  | cons byte rest =>
    have hdispatch := failsWith_dispatchChecked env herr ctx (.ofByte byte)
      (c := ⟨e.countOpcode, rest⟩)
    simp only [stepChecked, Option.some.injEq, forall_eq', stepByteChecked]
    rw [failsWith_iteration herr hdispatch]
    constructor
    · rintro hreturns ⟨hcount, hskip, _, _, ⟨⟩, hopcode⟩
      exact hreturns hcount hskip hopcode
    · intro hpanics hcount hskip hopcode
      exact hpanics ⟨hcount, hskip, byte, rest, rfl, hopcode⟩

variable {env ctx} in
theorem stepChecked_rest_lt {c' : Config} (h : stepChecked env ctx c = some (.ok c')) :
    c'.rest.length < c.rest.length := by
  have hreturns : ∀ r, stepChecked env ctx c = some r → FailsWith (· ≠ .panic) r := by
    intro r hr
    rw [h, Option.some.injEq] at hr
    subst hr
    exact failsWith_ok _
  have hpanics : ¬ c.Panics ctx := fun hpanics =>
    (failsWith_stepChecked env ctx (fun _ => nofun) c).mp hreturns hpanics rfl
  rw [stepChecked_eq hpanics] at h
  exact step_rest_lt h

theorem stepChecked_isSome (c : Config) :
    (step env ctx c).isSome = (stepChecked env ctx c).isSome := by
  obtain ⟨e, bytes⟩ := c
  cases bytes with
  | nil => rfl
  | cons byte rest => rfl

variable {env ctx} in
theorem stepChecked_rest_pos {r : ScriptResult Config}
    (h : stepChecked env ctx c = some r) : 0 < c.rest.length := by
  have hsome := stepChecked_isSome env ctx c
  rw [h, Option.isSome_some, Option.isSome_iff_exists] at hsome
  obtain ⟨r', hstep⟩ := hsome
  exact step_rest_pos hstep

theorem failsWith_executeChecked (herr : ∀ e, P (.err e))
    (script : Bytes) (e : ScriptEngine) :
    FailsWith P (executeChecked env ctx script e) ↔
      (script.length ≤ maxScriptBytes →
        ∀ c ∈ Loop.trace (stepChecked env ctx) script.length ⟨e, script⟩,
          c.Panics ctx → P .panic) := by
  have hrun : FailsWith P (Loop.run (stepChecked env ctx) script.length ⟨e, script⟩) ↔ _ :=
    Loop.failsWith_run (fun c => c.rest.length) (fun _ _ => stepChecked_rest_lt)
      (fun _ _ => stepChecked_rest_pos) (Nat.le_refl _)
  simp only [failsWith_stepChecked env ctx herr] at hrun
  rw [executeChecked, failsWith_ite, failsWith_bind, hrun]
  simp [herr]

/-- A script gives a value or an error in both builds exactly when it is too long to
be run, or does not get to an instruction that aborts. -/
theorem execute_returns_iff (script : Bytes) (e : ScriptEngine) :
    (FailsWith Failure.IsError (execute env ctx script e) ∧
        FailsWith Failure.IsError (executeChecked env ctx script e)) ↔
      (script.length ≤ maxScriptBytes →
        ∀ c ∈ executeTrace env ctx script e, ¬ c.Panics ctx) := by
  have herr : ∀ e : ScriptError, (Failure.err e).IsError := fun _ => trivial
  have htraces : (∀ c ∈ executeTrace env ctx script e, ¬ c.Panics ctx) ↔
      ∀ c ∈ Loop.trace (stepChecked env ctx) script.length ⟨e, script⟩, ¬ c.Panics ctx :=
    Loop.trace_avoids_iff (fun c hc => (stepChecked_eq hc).symm)
      (stepChecked_isSome env ctx) script.length ⟨e, script⟩
  rw [failsWith_execute env ctx herr, failsWith_executeChecked env ctx herr]
  constructor
  · rintro ⟨-, hchecked⟩ hsize
    exact htraces.mpr (hchecked hsize)
  · intro h
    refine ⟨fun hsize c hc haborts => h hsize c hc ?_, fun hsize => htraces.mp (h hsize)⟩
    obtain ⟨hcount, hskip, byte, rest, hrest, hopcode⟩ := haborts
    exact ⟨hcount, hskip, byte, rest, hrest, panics_of_aborts hopcode⟩

/-- `OP_0 OP_CHECKMULTISIG` indexes an empty item, in every build. The substring of
the empty item from `2^64 - 1` with length one wraps around to a bound that is in
range, and slices backwards; with checked arithmetic the sum aborts. -/
theorem execute_panics :
    execute .blank (verifyContext emptyTx 0 []) [0x00, 0xae] new = .error .panic ∧
      executeChecked .blank (verifyContext emptyTx 0 []) [0x00, 0xae] new = .error .panic ∧
      execute .blank (verifyContext emptyTx 0 [])
        ([0x00, 0x4c, 8] ++ List.replicate 8 0xff ++ [0x51, 0x7f]) new = .error .panic ∧
      executeChecked .blank (verifyContext emptyTx 0 [])
        ([0x00, 0x4c, 8] ++ List.replicate 8 0xff ++ [0x51, 0x7f]) new = .error .panic := by
  decide +kernel

end RustyCoin.ScriptEngine
