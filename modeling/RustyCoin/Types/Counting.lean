import Mathlib.Data.Countable.Basic
import Mathlib.Logic.Equiv.List
import Mathlib.Tactic.DeriveCountable
import RustyCoin.Types.Transaction

/-!
# Codes of countable types

There are only countably many transactions, so that serializations that lose
nothing exist. The results that assume such a serialization are checked with this
one.
-/

namespace RustyCoin

instance countableUInt8 : Countable UInt8 :=
  Function.Injective.countable fun _ _ => UInt8.toNat_inj.mp

instance countableUInt32 : Countable UInt32 :=
  Function.Injective.countable fun _ _ => UInt32.toNat_inj.mp

instance countableUInt64 : Countable UInt64 :=
  Function.Injective.countable fun _ _ => UInt64.toNat_inj.mp

instance countableChar : Countable Char :=
  Function.Injective.countable fun _ _ => Char.toNat_inj.mp

instance countableString : Countable String :=
  Function.Injective.countable fun _ _ => String.toList_inj.mp

instance countableVector (n : Nat) : Countable (List.Vector UInt8 n) :=
  Function.Injective.countable List.Vector.toList_injective

deriving instance Countable for OutPoint, TxInput, TxOutput, Utxo, MasternodeIdentity,
  ProposalType, VoterType, VoteChoice, GovernanceProposal, GovernanceVote, ApprovalProof,
  SlashingReason, MasternodeSlashTx, WitnessSignature, TicketNonParticipationProof,
  TicketMaliciousActionType, TicketMaliciousProof, Transaction

/-- A value of a countable type in unary, with a byte that ends it. -/
noncomputable def countingCode {α : Type} [Countable α] (a : α) : Bytes :=
  List.replicate ((Countable.exists_injective_nat α).choose a) 1 ++ [0]

variable {rest rest' : Bytes} {α : Type}

theorem replicate_append_cons {m n : Nat}
    (h : List.replicate m 1 ++ 0 :: rest = List.replicate n 1 ++ 0 :: rest') : m = n := by
  induction m generalizing n with
  | zero =>
    cases n with
    | zero => rfl
    | succ n => cases h
  | succ m ih =>
    cases n with
    | zero => cases h
    | succ n => exact congrArg (· + 1) (ih (List.cons.inj h).2)

theorem countingCode_append [Countable α] {a b : α}
    (h : countingCode a ++ rest = countingCode b ++ rest') : a = b := by
  rw [countingCode, countingCode, List.append_assoc, List.append_assoc] at h
  exact (Countable.exists_injective_nat α).choose_spec (replicate_append_cons h)

theorem countingCode_injective [Countable α] : Function.Injective (countingCode : α → Bytes) := by
  intro a b h
  exact countingCode_append (congrArg (· ++ []) h)

end RustyCoin
