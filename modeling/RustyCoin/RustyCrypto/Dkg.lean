import Mathlib.LinearAlgebra.Lagrange
import RustyCoin.Lib.HashMap
import RustyCoin.Lib.Outcome

/-!
# Shares of a distributed key

A participant holds the value of a polynomial at its index, and enough signatures
made with such values are put together by interpolation at zero. The weights take
the differences of the indices the wrong way round, which changes the sign for an
even number of shares. What a participant holds of its own polynomial is the
value at zero, and not at its index as for all the others.

Scalars are a field that tells all 32-bit indices apart, as the one of BLS12-381
does, and the points of G2 a vector space over it.
-/

namespace RustyCoin.RustyCrypto

open Outcome Polynomial List

class Scalars (K : Type) extends Field K where
  decEq : DecidableEq K
  index_inj : ∀ i j : UInt32, (i.toNat : K) = j.toNat → i = j

instance (K : Type) [Scalars K] : DecidableEq K := Scalars.decEq

variable {K G : Type} [Scalars K] [AddCommGroup G] [Module K G]

/-- `Scalar::from`. -/
def scalar (index : UInt32) : K := index.toNat

theorem scalar_injective : Function.Injective (scalar : UInt32 → K) := fun i j =>
  Scalars.index_inj i j

/-- `invert().unwrap()`. -/
def invertUnwrap (x : K) : Outcome String K :=
  if x = 0 then .error .panic else .ok x⁻¹

/-- The weight of a share, with the `j`-th of the indices `x`. -/
def lagrangeLambda {n : Nat} (x : Fin n → K) (j : Fin n) : Outcome String K := do
  let factors ← ((List.finRange n).filter (j ≠ ·)).mapM fun m => do
    let inverse ← invertUnwrap (x j - x m)
    return x m * inverse
  return factors.prod

def lagrangeInterpolateSignatures (sharesVec : List (UInt32 × G)) (threshold : UInt32) :
    Outcome String G :=
  if sharesVec.length < threshold.toNat then fail "Insufficient signature shares"
  else do
    let terms ← (List.finRange sharesVec.length).mapM fun j => do
      let lambda : K ← lagrangeLambda (fun m => scalar (sharesVec.get m).1) j
      return lambda • (sharesVec.get j).2
    return terms.sum

variable (K) in
def aggregateSignatureShares (signatureShares : HashMap UInt32 G) (threshold : UInt32) :
    Outcome String G :=
  if signatureShares.len < threshold.toNat then fail "Insufficient signature shares"
  else
    lagrangeInterpolateSignatures (K := K)
      (signatureShares.toPairs.insertionSort fun a b => a.1 ≤ b.1) threshold

/-- Signature shares on a message, made with the values of a polynomial. -/
structure SignedShares (K G : Type) [Scalars K] [AddCommGroup G] [Module K G] where
  threshold : UInt32
  polynomial : K[X]
  degree_lt : polynomial.degree < threshold.toNat
  message : G
  shares : HashMap UInt32 G
  enough : threshold.toNat ≤ shares.len
  share_eq : ∀ i y, shares.lookup i = some y → y = polynomial.eval (scalar i) • message

/-- A weight is the value at zero of the basis polynomial, up to the sign. -/
theorem lagrangeLambda_eq {n : Nat} {x : Fin n → K} (hx : Function.Injective x) (j : Fin n) :
    lagrangeLambda x j =
      .ok ((-1) ^ (n + 1) * (Lagrange.basis Finset.univ x j).eval 0) := by
  have hfactor : ∀ m ∈ (List.finRange n).filter (j ≠ ·), (do
      let inverse ← invertUnwrap (x j - x m)
      return x m * inverse : Outcome String K) = .ok (x m * (x j - x m)⁻¹) := by
    intro m hm
    have hne : x j - x m ≠ 0 := sub_ne_zero.mpr (hx.ne (by simpa using hm))
    rw [invertUnwrap, if_neg hne]
    rfl
  have hothers : ((List.finRange n).filter (j ≠ ·)).toFinset = Finset.univ.erase j := by
    ext m
    simp only [mem_toFinset, mem_filter, mem_finRange, Finset.mem_erase,
      Finset.mem_univ, decide_eq_true_eq, true_and, and_true]
    exact ne_comm
  have hvalue (m : Fin n) :
      (Lagrange.basisDivisor (x j) (x m)).eval 0 = -(x m * (x j - x m)⁻¹) := by
    simp [Lagrange.basisDivisor, mul_comm]
  have hsign : (-1 : K) ^ (n + 1) * (-1) ^ (n - 1) = 1 := by
    have := j.pos
    rw [← pow_add, show n + 1 + (n - 1) = 2 * n by omega, pow_mul, neg_one_sq, one_pow]
  rw [lagrangeLambda, mapM_eq_map hfactor, ok_bind, pure_eq_ok, ← prod_toFinset _
    ((nodup_finRange n).filter _), hothers, Lagrange.basis, eval_prod,
    Finset.prod_congr rfl fun m _ => hvalue m, Finset.prod_neg,
    Finset.card_erase_of_mem (Finset.mem_univ j), Finset.card_fin, ← mul_assoc, hsign, one_mul]

theorem lagrangeInterpolateSignatures_eq {sharesVec : List (UInt32 × G)} {threshold : UInt32}
    {polynomial : K[X]} {message : G} (hnodup : (sharesVec.map Prod.fst).Nodup)
    (hdegree : polynomial.degree < sharesVec.length) (henough : threshold.toNat ≤ sharesVec.length)
    (hshare : ∀ share ∈ sharesVec, share.2 = polynomial.eval (scalar share.1) • message) :
    lagrangeInterpolateSignatures (K := K) sharesVec threshold =
      .ok (((-1 : K) ^ (sharesVec.length + 1)) • polynomial.eval 0 • message) := by
  set x : Fin sharesVec.length → K := fun m => scalar (sharesVec.get m).1 with hx
  have hinj : Function.Injective x := by
    intro i j hij
    apply nodup_iff_injective_get.mp hnodup.of_map
    exact inj_on_of_nodup_map hnodup (get_mem _ _) (get_mem _ _) (scalar_injective hij)
  have hterm : ∀ j ∈ List.finRange sharesVec.length, (do
      let lambda ← lagrangeLambda x j
      return lambda • (sharesVec.get j).2 : Outcome String G) =
        .ok (((-1 : K) ^ (sharesVec.length + 1) * (polynomial.eval (x j) *
          (Lagrange.basis Finset.univ x j).eval 0)) • message) := by
    intro j _
    rw [lagrangeLambda_eq hinj, ok_bind, hshare _ (get_mem _ _), smul_smul]
    congr 2
    ring
  have hzero : polynomial.eval 0 =
      ∑ j, polynomial.eval (x j) * (Lagrange.basis Finset.univ x j).eval 0 := by
    conv_lhs => rw [Lagrange.eq_interpolate (f := polynomial)
      (s := Finset.univ) hinj.injOn (by simpa using hdegree), Lagrange.interpolate_apply]
    simp [eval_finsetSum]
  rw [lagrangeInterpolateSignatures, if_neg (by omega), mapM_eq_map hterm, ok_bind, pure_eq_ok,
    ← Fin.sum_univ_def, ← Finset.sum_smul, ← Finset.mul_sum, ← hzero, smul_smul]

/-- Enough shares give the signature exactly if their number is odd, or if the signature is its own
inverse. -/
theorem aggregate_correct_iff (signed : SignedShares K G) :
    aggregateSignatureShares K signed.shares signed.threshold =
        .ok (signed.polynomial.eval 0 • signed.message) ↔
      Odd signed.shares.len ∨ signed.polynomial.eval 0 • signed.message = 0 := by
  set sharesVec := signed.shares.toPairs.insertionSort fun a b => a.1 ≤ b.1 with hvec
  have hperm : sharesVec.Perm signed.shares.toPairs := perm_insertionSort _ _
  have hlength : sharesVec.length = signed.shares.len := hperm.length_eq.trans (length_map _)
  have henough := signed.enough
  have hnodup : (sharesVec.map Prod.fst).Nodup :=
    (hperm.map _).nodup_iff.mpr signed.shares.nodup_toPairs
  have hdegree : signed.polynomial.degree < sharesVec.length :=
    signed.degree_lt.trans_le (by exact_mod_cast hlength ▸ henough)
  have hshare : ∀ share ∈ sharesVec,
      share.2 = signed.polynomial.eval (scalar share.1) • signed.message := fun share hmem =>
    signed.share_eq share.1 share.2 (HashMap.mem_toPairs.mp (hperm.mem_iff.mp hmem))
  have htwo : (2 : K) ≠ 0 := fun h =>
    absurd (Scalars.index_inj (K := K) 2 0 (by simpa using h)) (by decide)
  rw [aggregateSignatureShares, if_neg (by omega), ← hvec,
    lagrangeInterpolateSignatures_eq hnodup hdegree (by omega) hshare, hlength, Except.ok.injEq]
  rcases Nat.even_or_odd signed.shares.len with heven | hodd
  · rw [heven.add_one.neg_one_pow, neg_one_smul, or_iff_right (Nat.not_odd_iff_even.mpr heven),
      neg_eq_iff_add_eq_zero, ← two_smul K, smul_eq_zero, or_iff_right htwo]
  · rw [hodd.add_one.neg_one_pow, one_smul]
    exact iff_of_true rfl (.inl hodd)

instance : Scalars ℚ where
  decEq := inferInstance
  index_inj _ _ h := UInt32.toNat_inj.mp (Nat.cast_injective h)

noncomputable def constantShares : SignedShares ℚ ℚ where
  threshold := 2
  polynomial := 1
  degree_lt := by
    rw [degree_one]
    decide
  message := 1
  shares := ((∅ : HashMap UInt32 ℚ).insert 1 1).insert 2 1
  enough := by decide
  share_eq i y h := by
    rw [eval_one, one_smul]
    refine HashMap.forall_insert (P := fun _ y => y = 1) (fun j w => ?_) rfl i y h
    exact HashMap.forall_insert (P := fun _ y => y = 1) nofun rfl j w

/-- Two shares of one signature give its inverse. -/
theorem two_shares_invert :
    aggregateSignatureShares ℚ constantShares.shares constantShares.threshold = .ok (-1) ∧
      constantShares.polynomial.eval 0 • constantShares.message = 1 := by
  refine ⟨by decide +kernel, ?_⟩
  simp [constantShares]

section

variable (coefficients : List K)

/-- The polynomial is evaluated term by term. -/
def evaluate (x : K) : K :=
  (coefficients.foldl (fun (share, xPower) coeff => (share + coeff * xPower, xPower * x)) (0, 1)).1

structure DKGParticipantState (K : Type) where
  secretCoefficients : List K
  receivedShares : HashMap UInt32 K

/-- The scalar that `reconstruct_secret_key_share` converts, where no share is known yet. -/
def combinedShare (participantState : DKGParticipantState K) : K :=
  participantState.receivedShares.toPairs.foldl (fun combined (_, share) => combined + share)
    (participantState.secretCoefficients.headD 0)

/-- Participants that send each other shares. -/
structure KeyGeneration (K : Type) where
  threshold : UInt32
  indices : List UInt32
  nodup : indices.Nodup
  zero_notMem : 0 ∉ indices
  coefficients : UInt32 → List K
  length_le : ∀ i, (coefficients i).length ≤ threshold.toNat

/-- What a participant holds when it has the shares of all the others. -/
def KeyGeneration.state (generation : KeyGeneration K) (i : UInt32) : DKGParticipantState K where
  secretCoefficients := generation.coefficients i
  receivedShares := .insertAll ∅ ((generation.indices.erase i).map fun j =>
    (j, evaluate (generation.coefficients j) (scalar i)))

/-- The polynomial with these coefficients, the constant one first. -/
noncomputable def polynomialOf : List K → K[X]
  | [] => 0
  | coeff :: rest => C coeff + X * polynomialOf rest

theorem evaluate_eq (x : K) : evaluate coefficients x = (polynomialOf coefficients).eval x := by
  have hloop (share xPower : K) : (coefficients.foldl (fun (share, xPower) coeff =>
      (share + coeff * xPower, xPower * x)) (share, xPower)).1 =
        share + xPower * (polynomialOf coefficients).eval x := by
    induction coefficients generalizing share xPower with
    | nil => simp [polynomialOf]
    | cons coeff rest ih =>
      rw [foldl_cons, ih, polynomialOf, eval_add, eval_C, eval_mul, eval_X]
      ring
  rw [evaluate, hloop, zero_add, one_mul]

theorem degree_polynomialOf_lt : (polynomialOf coefficients).degree < coefficients.length := by
  rw [degree_lt_iff_coeff_zero]
  induction coefficients with
  | nil => exact fun m _ => coeff_zero m
  | cons coeff rest ih =>
    rintro (_ | m) hm
    · cases hm
    · rw [polynomialOf, coeff_add, coeff_C_succ, coeff_X_mul, zero_add]
      exact ih m (Nat.le_of_succ_le_succ hm)

theorem headD_eq_evaluate : coefficients.headD 0 = evaluate coefficients 0 := by
  rw [evaluate_eq]
  cases coefficients <;> simp [polynomialOf]

namespace KeyGeneration

variable (generation : KeyGeneration K)

/-- The value of the sum of all polynomials. -/
def valueAt (x : K) : K :=
  (generation.indices.map fun j => evaluate (generation.coefficients j) x).sum

/-- What is missing to the share of a participant. -/
def gap (i : UInt32) : K :=
  evaluate (generation.coefficients i) 0 - evaluate (generation.coefficients i) (scalar i)

/-- Zero and the indices. -/
def nodes : Finset UInt32 := insert 0 generation.indices.toFinset

/-- The shares are those of one polynomial, for the sum of all secrets. -/
def Consistent : Prop :=
  ∃ shared : K[X], shared.degree < generation.threshold.toNat ∧
    (∀ i ∈ generation.indices, combinedShare (generation.state i) = shared.eval (scalar i)) ∧
    shared.eval 0 = generation.valueAt 0

theorem combinedShare_eq {i : UInt32} (hi : i ∈ generation.indices) :
    combinedShare (generation.state i) = generation.valueAt (scalar i) + generation.gap i := by
  have hfold (pairs : List (UInt32 × K)) (start : K) :
      pairs.foldl (fun combined (_, share) => combined + share) start =
        start + (pairs.map Prod.snd).sum := by
    induction pairs generalizing start with
    | nil => exact (add_zero start).symm
    | cons pair pairs ih => rw [foldl_cons, ih, map_cons, sum_cons, add_assoc]
  set value : UInt32 → K := fun j => evaluate (generation.coefficients j) (scalar i)
  have hkeys : (((generation.indices.erase i).map fun j => (j, value j)).map Prod.fst).Nodup := by
    simpa [Function.comp_def] using generation.nodup.erase i
  have hreceived := HashMap.toPairs_collected hkeys
  rw [combinedShare, hfold, state, (hreceived.map _).sum_eq, map_map, headD_eq_evaluate, gap,
    valueAt, ← sum_map_erase value hi]
  simp only [Function.comp_def]
  ring

/-- The shares are consistent exactly if what is missing to them lies on a polynomial of small
degree that is zero at zero. -/
theorem consistent_iff :
    generation.Consistent ↔
      (Lagrange.interpolate generation.nodes scalar generation.gap).degree <
        generation.threshold.toNat := by
  set total := (generation.indices.map fun j => polynomialOf (generation.coefficients j)).sum
  have htotal (x : K) : total.eval x = generation.valueAt x := by
    simp only [total, valueAt, eval_listSum, map_map, Function.comp_def, evaluate_eq]
  have hsmall : total ∈ degreeLT K generation.threshold.toNat := by
    refine list_sum_mem fun p hp => mem_degreeLT.mpr ?_
    obtain ⟨j, -, rfl⟩ := mem_map.mp hp
    exact (degree_polynomialOf_lt _).trans_le (by exact_mod_cast generation.length_le j)
  have hinj : Set.InjOn (scalar : UInt32 → K) ↑generation.nodes := scalar_injective.injOn
  have hzero : (scalar 0 : K) = 0 := by simp [scalar]
  have hgap : generation.gap 0 = 0 := by rw [gap, hzero, sub_self]
  simp only [← mem_degreeLT]
  constructor
  · rintro ⟨shared, hdegree, hshares, hsecret⟩
    have hdiff := Submodule.sub_mem _ (mem_degreeLT.mpr hdegree) hsmall
    have hvalues : ∀ i ∈ generation.nodes,
        (shared - total).eval (scalar i) = generation.gap i := by
      intro i hi
      rw [eval_sub, htotal]
      rcases Finset.mem_insert.mp hi with rfl | hi
      · rw [hzero, hsecret, sub_self, hgap]
      · rw [← hshares i (mem_toFinset.mp hi),
          generation.combinedShare_eq (mem_toFinset.mp hi), add_sub_cancel_left]
    by_cases hfew : generation.threshold.toNat ≤ generation.nodes.card
    · rwa [← Lagrange.eq_interpolate_of_eval_eq _ hinj
        ((mem_degreeLT.mp hdiff).trans_le (by exact_mod_cast hfew)) hvalues]
    · exact mem_degreeLT.mpr ((Lagrange.degree_interpolate_lt _ hinj).trans_le
        (by exact_mod_cast (not_le.mp hfew).le))
  · intro hdegree
    have hnode {i : UInt32} (hi : i ∈ generation.nodes) :=
      Lagrange.eval_interpolate_at_node generation.gap hinj hi
    refine ⟨total + _, mem_degreeLT.mp (Submodule.add_mem _ hsmall hdegree), fun i hi => ?_, ?_⟩
    · rw [eval_add, htotal, hnode (Finset.mem_insert_of_mem (mem_toFinset.mpr hi)),
        generation.combinedShare_eq hi]
    · rw [eval_add, htotal, ← hzero, hnode (Finset.mem_insert_self _ _), hgap, add_zero, hzero]

end KeyGeneration

/-- Two participants with the polynomials `X` and zero. -/
def unevenGeneration : KeyGeneration ℚ where
  threshold := 2
  indices := [1, 2]
  nodup := by decide
  zero_notMem := by decide
  coefficients i := if i = 1 then [0, 1] else [0, 0]
  length_le i := by split <;> decide

/-- The shares are 0 and 2, which are on no line through zero. -/
theorem not_consistent_uneven : ¬ unevenGeneration.Consistent := by
  rintro ⟨shared, hdegree, hshares, hsecret⟩
  have hone : shared.eval (scalar 1) = 0 := (hshares 1 (by decide)).symm.trans (by decide +kernel)
  have hzero : shared.eval (scalar 0) = 0 := by
    rw [show (scalar 0 : ℚ) = 0 from by simp [scalar], hsecret]
    decide +kernel
  have hnone := eq_zero_of_degree_lt_of_eval_index_eq_zero {0, 1}
    (scalar_injective (K := ℚ)).injOn hdegree (by simp [hzero, hone])
  have htwo := hshares 2 (by decide)
  rw [hnone, eval_zero] at htwo
  exact absurd htwo (by decide +kernel)

end

end RustyCoin.RustyCrypto
