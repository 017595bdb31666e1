import RustyCoin.Lib.Matching
import RustyCoin.Script.Concatenation

/-!
# Which signatures a multi-signature check counts

`op_checkmultisig` counts the signatures that verify under some key of the list,
and tries all keys again for each of them. It is meant to ask for signatures by
different keys of the list, that is for a matching of the signatures with
positions of the list.
-/

namespace RustyCoin

open List

/-- A signature on a message is a signature by one key. -/
def Platform.OneKey (env : Platform) : Prop :=
  ∀ message signature key key', env.verify key message signature = true →
    env.verify key' message signature = true → key = key'

/-- A signature is the key followed by the message. -/
def Platform.keyed : Platform :=
  { Platform.blank with
    publicKeyFromBytes := fun _ => true
    signatureFromBytes := fun _ => true
    verify := fun key message signature => signature == key ++ message }

theorem Platform.keyed_oneKey : Platform.keyed.OneKey := by
  intro message signature key key' h h'
  have hkey : signature = key ++ message := beq_iff_eq.mp h
  have hkey' : signature = key' ++ message := beq_iff_eq.mp h'
  exact append_cancel_right (hkey.symm.trans hkey')

namespace ScriptEngine

open Outcome

/-- The keys that a multi-signature check takes from the stack. -/
def multiSigKeys : Stack → List Bytes
  | (numPublicKeys :: _) :: s => s.take numPublicKeys.toNat
  | _ => []

/-- The stack below the keys. -/
def belowKeys : Stack → Stack
  | (numPublicKeys :: _) :: s => s.drop numPublicKeys.toNat
  | _ => []

/-- The signatures that a multi-signature check takes from the stack. -/
def multiSigSignatures (s : Stack) : List Bytes :=
  match belowKeys s with
  | (numSignatures :: _) :: s => s.take numSignatures.toNat
  | _ => []

/-- Every signature verifies under a key of its own: no position of the list of
keys is used twice. -/
def Matched (env : Platform) (message : Bytes) (keys signatures : List Bytes) : Prop :=
  ∃ position : Fin signatures.length → Fin keys.length, Function.Injective position ∧
    ∀ i, env.verify (keys.get (position i)) message (signatures.get i) = true

variable {env : Platform} {ctx : ExecContext} {message : Bytes} {keys signatures : List Bytes}

theorem verifiesUnderSome_eq_ok {signature : Bytes} {verified : Bool}
    (h : verifiesUnderSome env message signature keys = .ok verified) :
    verified = keys.any fun key => env.verify key message signature := by
  induction keys with
  | nil =>
    cases h
    rfl
  | cons key keys ih =>
    rw [verifiesUnderSome] at h
    obtain ⟨-, h⟩ := ite_fail_eq_ok.mp h
    obtain ⟨-, h⟩ := ite_fail_eq_ok.mp h
    rw [any_cons]
    split at h
    · rename_i hverify
      cases h
      rw [hverify, Bool.true_or]
    · rename_i hverify
      rw [Bool.eq_false_iff.mpr hverify, Bool.false_or]
      exact ih h

variable {n : Nat} {s s' : Stack}

theorem verifiedSignatures_eq_ok
    (h : verifiedSignatures env message keys signatures = .ok n) :
    n = signatures.countP fun signature =>
      keys.any fun key => env.verify key message signature := by
  induction signatures generalizing n with
  | nil =>
    cases h
    rfl
  | cons signature signatures ih =>
    rw [verifiedSignatures, bind_eq_ok] at h
    obtain ⟨verified, hverified, h⟩ := h
    obtain ⟨m, hrest, h⟩ := bind_eq_ok.mp h
    cases h
    rw [countP_cons, ← ih hrest, ← verifiesUnderSome_eq_ok hverified]
    cases verified with
    | false => rfl
    | true => rfl

theorem popCount_eq_ok (h : popCount s = .ok (n, s')) :
    ∃ b v, s = (b :: v) :: s' ∧ b.toNat = n := by
  rcases s with _ | ⟨_ | ⟨b, v⟩, s⟩
  · cases h
  · cases h
  · cases h
    exact ⟨b, v, rfl, rfl⟩

/-- What a multi-signature check that returns has done. -/
theorem opCheckMultiSig_eq_ok (h : opCheckMultiSig env ctx s = .ok s') :
    ∃ message n rest,
      calculateSighash env ctx.tx ctx.inputIndex ctx.scriptPubkey = .ok message ∧
      verifiedSignatures env message.toList (multiSigKeys s) (multiSigSignatures s) = .ok n ∧
      s' = (if n ≥ (multiSigSignatures s).length then [1] else []) :: rest := by
  rw [opCheckMultiSig, bind_eq_ok] at h
  obtain ⟨⟨numPublicKeys, below⟩, hpublicKeys, h⟩ := h
  obtain ⟨b, v, rfl, rfl⟩ := popCount_eq_ok hpublicKeys
  obtain ⟨hkeys, h⟩ := ite_fail_eq_ok.mp h
  rw [popMany_eq_ok (Nat.not_lt.mp hkeys), ok_bind] at h
  obtain ⟨⟨numSignatures, below'⟩, hnumSignatures, h⟩ := bind_eq_ok.mp h
  obtain ⟨b', v', hbelow, rfl⟩ := popCount_eq_ok hnumSignatures
  obtain ⟨hlength, h⟩ := ite_fail_eq_ok.mp h
  rw [popMany_eq_ok (Nat.not_lt.mp hlength), ok_bind] at h
  obtain ⟨⟨_, rest⟩, -, h⟩ := bind_eq_ok.mp h
  obtain ⟨message, hmessage, h⟩ := bind_eq_ok.mp h
  obtain ⟨n, hn, h⟩ := bind_eq_ok.mp h
  have hsignatures : multiSigSignatures ((b :: v) :: below) = below'.take b'.toNat := by
    simp [multiSigSignatures, belowKeys, hbelow]
  cases h
  refine ⟨message, n, rest, hmessage, ?_, ?_⟩
  · rw [hsignatures]
    exact hn
  · rw [hsignatures, length_take_of_le (Nat.not_lt.mp hlength)]

/-- The answer is true when every signature verifies under some key. -/
theorem verifies_of_opCheckMultiSig {rest : Stack}
    (h : opCheckMultiSig env ctx s = .ok ([1] :: rest)) :
    ∃ message, calculateSighash env ctx.tx ctx.inputIndex ctx.scriptPubkey = .ok message ∧
      ∀ signature ∈ multiSigSignatures s, ∃ key ∈ multiSigKeys s,
        env.verify key message.toList signature = true := by
  obtain ⟨message, n, below, hmessage, hn, hitem⟩ := opCheckMultiSig_eq_ok h
  have hcount := verifiedSignatures_eq_ok hn
  have hall : (multiSigSignatures s).length ≤ n := by
    by_contra hlt
    rw [if_neg hlt] at hitem
    cases hitem
  rw [hcount] at hall
  refine ⟨message, hmessage, fun signature hsignature => ?_⟩
  have hevery := countP_eq_length.mp (Nat.le_antisymm countP_le_length hall)
  exact any_eq_true.mp (hevery signature hsignature)

/-- Where every signature is by some key of the list, the signatures can be matched
with different positions exactly when no key has made more of them than it has
positions. -/
theorem matched_iff (hone : env.OneKey) (hsome : ∀ signature ∈ signatures, ∃ key ∈ keys,
      env.verify key message signature = true) :
    Matched env message keys signatures ↔
      ∀ key, signatures.countP (env.verify key message) ≤ keys.count key := by
  choose signer _ hsigner using fun i => hsome (signatures.get i) (get_mem _ i)
  have hlabel : ∀ i key, env.verify key message (signatures.get i) = true ↔
      signer i = key := by
    intro i key
    constructor
    · exact hone message _ _ _ (hsigner i)
    · rintro rfl
      exact hsigner i
  have hsigned : ∀ key, Fintype.card { i // signer i = key } =
      signatures.countP (env.verify key message) := by
    intro key
    rw [← Matching.card_positions]
    exact Fintype.card_congr (Equiv.subtypeEquivRight fun i => (hlabel i key).symm)
  have hlisted : ∀ key, Fintype.card { j // keys.get j = key } = keys.count key := by
    intro key
    rw [List.count, ← Matching.card_positions]
    exact Fintype.card_congr (Equiv.subtypeEquivRight fun j => beq_iff_eq.symm)
  have hmatching := Matching.exists_injective_iff_card_le signer keys.get
  simp only [hsigned, hlisted] at hmatching
  rw [← hmatching, Matched]
  simp only [hlabel, eq_comm]

/-- Where a multi-signature check pushes true, the signatures can be matched with
different keys of the list exactly when no key has made more of them than it has
positions in the list. -/
theorem opCheckMultiSig_matched_iff (hone : env.OneKey) {s rest : Stack}
    (htrue : opCheckMultiSig env ctx s = .ok ([1] :: rest)) :
    ∃ message, calculateSighash env ctx.tx ctx.inputIndex ctx.scriptPubkey = .ok message ∧
      (Matched env message.toList (multiSigKeys s) (multiSigSignatures s) ↔
        ∀ key, (multiSigSignatures s).countP (env.verify key message.toList) ≤
          (multiSigKeys s).count key) := by
  obtain ⟨message, hmessage, hsome⟩ := verifies_of_opCheckMultiSig htrue
  exact ⟨message, hmessage, matched_iff hone hsome⟩

/-- The signature of a key on the digest of `blank`. -/
def keyedSignature (key : Bytes) : Bytes :=
  key ++ .replicate 32 0

def keyedContext : ExecContext :=
  ⟨spendTx [], 0, 0, []⟩

/-- Two of three keys have signed. -/
theorem opCheckMultiSig_matched_iff_twoOfThree :
    let s := [[3], [9], [8], [7], [2], keyedSignature [8], keyedSignature [7], []]
    opCheckMultiSig .keyed keyedContext s = .ok [[1]] ∧
      ∃ message, calculateSighash .keyed (spendTx []) 0 [] = .ok message ∧
        (Matched .keyed message.toList (multiSigKeys s) (multiSigSignatures s) ↔
          ∀ key, (multiSigSignatures s).countP (Platform.keyed.verify key message.toList) ≤
            (multiSigKeys s).count key) := by
  intro s
  have htrue : opCheckMultiSig .keyed keyedContext s = .ok [[1]] := by decide +kernel
  exact ⟨htrue, opCheckMultiSig_matched_iff Platform.keyed_oneKey htrue⟩

/-- Two signatures of two keys are asked for, and the first key alone signs twice;
two signatures even pass with one key in the list. -/
theorem opCheckMultiSig_accepts_repeated :
    opCheckMultiSig .keyed keyedContext
        [[2], [8], [7], [2], keyedSignature [7], keyedSignature [7], []] = .ok [[1]] ∧
      ¬ Matched .keyed (.replicate 32 0) [[8], [7]] [keyedSignature [7], keyedSignature [7]] ∧
      opCheckMultiSig .keyed keyedContext
        [[1], [7], [2], keyedSignature [7], keyedSignature [7], []] = .ok [[1]] := by
  refine ⟨by decide +kernel, ?_, by decide +kernel⟩
  have hsome : ∀ signature ∈ [keyedSignature [7], keyedSignature [7]], ∃ key ∈ [[8], [7]],
      Platform.keyed.verify key (.replicate 32 0) signature = true := by decide
  rw [matched_iff Platform.keyed_oneKey hsome]
  intro hcount
  exact absurd (hcount [7]) (by decide)

end ScriptEngine

end RustyCoin
