import RustyCoin.Lib.FittingPrefix
import RustyCoin.Mempool.Admission

/-!
# Transactions for a block template

`get_transactions_for_block_template` sorts the pooled transactions by fee rate
and id and takes them for as long as they fit. The rate is computed with machine
integers, so that the rate of a high fee wraps around; so does the sum of the
sizes. `template_iff` says for which pools the choice is the intended one under
every limit.
-/

namespace RustyCoin.Mempool

open FittingPrefix UInt64

variable (env : Platform)

/-- The pooled transactions, in the order in which the map is iterated. -/
def values (self : Mempool) : List Transaction :=
  self.transactions.toPairs.map Prod.snd

/-- The size as a `u64`. -/
def txSize (tx : Transaction) : UInt64 := UInt64.ofNat (serializedSize env tx)

/-- The fee per thousand bytes, by which the transactions are compared. -/
def feeRate (tx : Transaction) : UInt64 :=
  if txSize env tx > 0 then tx.getFee * 1000 / txSize env tx else 0

/-- The order of the template: the higher rate first, then the lower id. -/
def Outranks (rate : Transaction → Nat) (a b : Transaction) : Prop :=
  rate b < rate a ∨ rate a = rate b ∧ (a.txid env).toList ≤ (b.txid env).toList

instance (rate : Transaction → Nat) : DecidableRel (Outranks env rate) := fun a b =>
  inferInstanceAs (Decidable (rate b < rate a ∨
    rate a = rate b ∧ (a.txid env).toList ≤ (b.txid env).toList))

/-- The loop over the sorted transactions, which ends at the first one that does not fit. -/
def selectFitting (maxBlockSize : UInt64) : UInt64 → List Transaction → List Transaction
  | _, [] => []
  | currentSize, tx :: sortedTxs =>
    if currentSize + txSize env tx ≤ maxBlockSize then
      tx :: selectFitting maxBlockSize (currentSize + txSize env tx) sortedTxs
    else []

def getTransactionsForBlockTemplate (self : Mempool) (maxBlockSize : UInt64) : List Transaction :=
  let sortedTxs :=
    self.values.insertionSort (Outranks env fun tx => (feeRate env tx).toNat)
  selectFitting env maxBlockSize 0 sortedTxs

/-- The answer is whether the transaction was added. Nothing is checked. -/
def addTransaction (self : Mempool) (tx : Transaction) : Bool × Mempool :=
  if (self.transactions.lookup (tx.txid env)).isSome then (false, self)
  else (true, ⟨self.transactions.insert (tx.txid env) tx⟩)

/-- The pool of some transactions. -/
def ofList (transactions : List Transaction) : Mempool :=
  transactions.foldl (fun pool tx => (pool.addTransaction env tx).2) new

variable {env} {pool : Mempool}

/-- Every transaction is stored under its id. -/
def Keyed (env : Platform) (pool : Mempool) : Prop :=
  ∀ txid tx, pool.transactions.lookup txid = some tx → tx.txid env = txid

theorem keyed_insert (hkeyed : pool.Keyed env) (tx : Transaction) :
    Keyed env ⟨pool.transactions.insert (tx.txid env) tx⟩ :=
  HashMap.forall_insert hkeyed rfl

theorem keyed_new : new.Keyed env := by
  intro txid tx hlookup
  cases hlookup

theorem keyed_ofList (transactions : List Transaction) : (ofList env transactions).Keyed env := by
  refine Prefixes.foldl_invariant _ keyed_new ?_ transactions
  intro pool tx hkeyed
  rw [addTransaction]
  split
  · exact hkeyed
  · exact keyed_insert hkeyed tx

/-- The calls that change the pool keep every transaction under its id. -/
theorem keyed_run {F : Type} (blockchain : Blockchain F) (calls : List Call) :
    (run env blockchain calls).Keyed env := by
  refine Prefixes.foldl_invariant (step env blockchain) keyed_new ?_ calls
  intro pool call hkeyed
  cases call with
  | remove txid => exact HashMap.forall_erase hkeyed
  | validateAndAdd tx =>
    show Keyed env (pool.validateAndAddTransaction env tx blockchain).2
    by_cases hadded : (pool.validateAndAddTransaction env tx blockchain).1 = .ok true
    · rw [(validateAndAddTransaction_added hadded).2.2]
      exact keyed_insert hkeyed tx
    · rw [validateAndAddTransaction_kept hadded]
      exact hkeyed

theorem map_txid_values (hkeyed : pool.Keyed env) :
    pool.values.map (Transaction.txid env) = pool.transactions.toPairs.map Prod.fst := by
  rw [values, List.map_map]
  refine List.map_congr_left ?_
  rintro ⟨txid, tx⟩ hmem
  exact hkeyed txid tx (HashMap.mem_toPairs.mp hmem)

theorem nodup_map_txid_values (hkeyed : pool.Keyed env) :
    (pool.values.map (Transaction.txid env)).Nodup := by
  rw [map_txid_values hkeyed]
  exact pool.transactions.nodup_toPairs

section

variable {env : Platform} {rate : Transaction → Nat} {pool : Mempool}

theorem outranks_refl (rate : Transaction → Nat) (tx : Transaction) : Outranks env rate tx tx :=
  .inr ⟨rfl, List.le_refl _⟩

instance : Std.Total (Outranks env rate) where
  total a b := by
    rcases Nat.lt_trichotomy (rate a) (rate b) with hlt | heq | hgt
    · exact .inr (.inl hlt)
    · rcases List.le_total (a.txid env).toList (b.txid env).toList with hid | hid
      · exact .inl (.inr ⟨heq, hid⟩)
      · exact .inr (.inr ⟨heq.symm, hid⟩)
    · exact .inl (.inl hgt)

instance : IsTrans Transaction (Outranks env rate) where
  trans a b c := by
    rintro (hab | ⟨hab, hid⟩) (hbc | ⟨hbc, hid'⟩)
    · exact .inl (Nat.lt_trans hbc hab)
    · exact .inl (hbc ▸ hab)
    · exact .inl (hab ▸ hbc)
    · exact .inr ⟨hab.trans hbc, List.le_trans hid hid'⟩

/-- Transactions with different ids are ordered one way only. -/
theorem outranks_antisymm (hkeyed : pool.Keyed env) {a b : Transaction}
    (ha : a ∈ pool.values) (hb : b ∈ pool.values) (hab : Outranks env rate a b)
    (hba : Outranks env rate b a) : a = b := by
  have hid : a.txid env = b.txid env := by
    rcases hab with hab | ⟨hab, hid⟩
    · rcases hba with hba | ⟨hba, -⟩
      · omega
      · omega
    · rcases hba with hba | ⟨-, hid'⟩
      · omega
      · exact List.Vector.toList_injective (List.le_antisymm hid hid')
  exact List.inj_on_of_nodup_map (nodup_map_txid_values hkeyed) ha hb hid

/-- Pools with the same contents are sorted into the same list. -/
theorem insertionSort_values_eq (hkeyed : pool.Keyed env) {other : Mempool}
    (hsame : other.transactions.SameEntries pool.transactions) :
    other.values.insertionSort (Outranks env rate) =
      pool.values.insertionSort (Outranks env rate) := by
  have hvalues : other.values.Perm pool.values := hsame.toPairs.map Prod.snd
  have hperm := ((List.perm_insertionSort (Outranks env rate) other.values).trans
    hvalues).trans (List.perm_insertionSort (Outranks env rate) pool.values).symm
  refine hperm.eq_of_pairwise ?_ (List.pairwise_insertionSort _ _) (List.pairwise_insertionSort _ _)
  intro a b ha hb
  exact outranks_antisymm hkeyed (hvalues.mem_iff.mp ((List.mem_insertionSort _).mp ha))
    ((List.mem_insertionSort _).mp hb)

end

/-- The fee per thousand bytes over unbounded integers. -/
def exactFeeRate (env : Platform) (tx : Transaction) : Nat :=
  1000 * tx.getFee.toNat / serializedSize env tx

def totalSize (env : Platform) (transactions : List Transaction) : Nat :=
  (transactions.map (serializedSize env)).sum

/-- What a template is meant to be: pooled transactions without repetition that fit
together, the better paying ones first, and none left out that would still fit and pays
better than one of them. -/
structure IsTemplate (env : Platform) (pool : Mempool) (limit : Nat)
    (selected : List Transaction) : Prop where
  distinct : selected.Nodup
  pooled : ∀ tx ∈ selected, tx ∈ pool.values
  fits : totalSize env selected ≤ limit
  ordered : selected.Pairwise (Outranks env (exactFeeRate env))
  best : ∀ tx ∈ pool.values, tx ∉ selected →
    totalSize env selected + serializedSize env tx ≤ limit →
      ∀ other ∈ selected, exactFeeRate env tx ≤ exactFeeRate env other

variable {sortedTxs : List Transaction}

/-- As long as the sizes do not wrap around, the loop takes what fits. -/
theorem selectFitting_eq {maxBlockSize currentSize : UInt64}
    (hsize : currentSize.toNat + totalSize env sortedTxs < 2 ^ 64) :
    selectFitting env maxBlockSize currentSize sortedTxs =
      take (serializedSize env) maxBlockSize.toNat currentSize.toNat
        sortedTxs := by
  induction sortedTxs generalizing currentSize with
  | nil => rfl
  | cons tx sortedTxs ih =>
    rw [totalSize, List.map_cons, List.sum_cons] at hsize
    have hnext : (currentSize + txSize env tx).toNat =
        currentSize.toNat + serializedSize env tx := by
      rw [UInt64.toNat_add, txSize, toNat_ofNat']
      omega
    have hfits : currentSize + txSize env tx ≤ maxBlockSize ↔
        currentSize.toNat + serializedSize env tx ≤ maxBlockSize.toNat := by
      rw [le_iff_toNat_le, hnext]
    have hrest : (currentSize + txSize env tx).toNat + totalSize env sortedTxs <
        2 ^ 64 := by
      rw [hnext, totalSize]
      omega
    rw [selectFitting, take, ih hrest, hnext]
    exact if_congr hfits rfl rfl

/-- Under the greatest limit everything is taken. -/
theorem selectFitting_max (currentSize : UInt64) (sortedTxs : List Transaction) :
    selectFitting env 0xFFFFFFFFFFFFFFFF currentSize sortedTxs = sortedTxs := by
  induction sortedTxs generalizing currentSize with
  | nil => rfl
  | cons tx sortedTxs ih =>
    have hfits (size : UInt64) : size ≤ 0xFFFFFFFFFFFFFFFF := by
      rw [le_iff_toNat_le]
      exact Nat.le_of_lt_succ size.toNat_lt
    rw [selectFitting, if_pos (hfits _), ih]

@[simp]
theorem totalSize_insertionSort (rate : Transaction → Nat) (transactions : List Transaction) :
    totalSize env (transactions.insertionSort (Outranks env rate)) =
      totalSize env transactions :=
  ((List.perm_insertionSort _ transactions).map _).sum_eq

/-- The two rates put the pooled transactions into the same order. -/
def RatesAgree (env : Platform) (pool : Mempool) : Prop :=
  ∀ a ∈ pool.values, ∀ b ∈ pool.values,
    (Outranks env (fun tx => (feeRate env tx).toNat) a b ↔ Outranks env (exactFeeRate env) a b)

/-- What is taken off the front of a list sorted by the exact rates is a template. -/
theorem isTemplate_take (hkeyed : pool.Keyed env)
    (hperm : sortedTxs.Perm pool.values)
    (hsorted : sortedTxs.Pairwise (Outranks env (exactFeeRate env))) (limit : Nat) :
    IsTemplate env pool limit
      (take (serializedSize env) limit 0 sortedTxs) := by
  have htaken := take_isPrefix (serializedSize env) limit 0 sortedTxs
  have hnodup : sortedTxs.Nodup :=
    hperm.nodup_iff.mpr (nodup_map_txid_values hkeyed).of_map
  refine ⟨hnodup.sublist htaken.sublist, ?_, ?_, hsorted.sublist htaken.sublist, ?_⟩
  · intro tx hmem
    exact hperm.mem_iff.mp (htaken.subset hmem)
  · have hused := used_add_sum_take_le (serializedSize env) (Nat.zero_le limit) sortedTxs
    rw [Nat.zero_add] at hused
    exact hused
  · intro tx hpooled hout _ other hother
    -- an omitted transaction comes later in the order, whether it would fit or not
    rcases rel_of_mem_take hsorted hother (hperm.mem_iff.mpr hpooled) hout with
      hlt | ⟨heq, -⟩
    · exact Nat.le_of_lt hlt
    · exact Nat.le_of_eq heq.symm

/-- The choice is a template under every limit and for every order of the map exactly if
the sizes of all pooled transactions add up to less than `2 ^ 64` and the wrapped rates put
them into the same order as the exact ones. -/
theorem template_iff (hkeyed : pool.Keyed env) :
    (∀ maxBlockSize,
      IsTemplate env pool maxBlockSize.toNat
          (pool.getTransactionsForBlockTemplate env maxBlockSize) ∧
        ∀ other : Mempool, other.transactions.SameEntries pool.transactions →
          other.getTransactionsForBlockTemplate env maxBlockSize =
            pool.getTransactionsForBlockTemplate env maxBlockSize) ↔
      totalSize env pool.values < 2 ^ 64 ∧ RatesAgree env pool := by
  have hperm := List.perm_insertionSort (Outranks env fun tx => (feeRate env tx).toNat) pool.values
  have hsorted := List.pairwise_insertionSort
    (Outranks env fun tx => (feeRate env tx).toNat) pool.values
  constructor
  · intro htemplate
    obtain ⟨hall, -⟩ := htemplate 0xFFFFFFFFFFFFFFFF
    rw [getTransactionsForBlockTemplate, selectFitting_max] at hall
    have hfits := hall.fits
    rw [totalSize_insertionSort] at hfits
    refine ⟨Nat.lt_of_le_of_lt hfits (by decide), ?_⟩
    have hagree := orders_agree hsorted hall.ordered
      (fun tx => ⟨outranks_refl _ tx, outranks_refl _ tx⟩)
      (fun a ha b hb => outranks_antisymm hkeyed (hperm.mem_iff.mp ha) (hperm.mem_iff.mp hb))
      (fun a ha b hb => outranks_antisymm hkeyed (hperm.mem_iff.mp ha) (hperm.mem_iff.mp hb))
    intro a ha b hb
    exact hagree a (hperm.mem_iff.mpr ha) b (hperm.mem_iff.mpr hb)
  · rintro ⟨hsize, hagree⟩ maxBlockSize
    have hexact : (pool.values.insertionSort
        (Outranks env fun tx => (feeRate env tx).toNat)).Pairwise
          (Outranks env (exactFeeRate env)) := by
      refine hsorted.imp_of_mem ?_
      intro a b ha hb hab
      exact (hagree a (hperm.mem_iff.mp ha) b (hperm.mem_iff.mp hb)).mp hab
    constructor
    · rw [getTransactionsForBlockTemplate, selectFitting_eq]
      · exact isTemplate_take hkeyed hperm hexact maxBlockSize.toNat
      · rw [totalSize_insertionSort, UInt64.toNat_zero, Nat.zero_add]
        exact hsize
    · intro other hsame
      rw [getTransactionsForBlockTemplate, getTransactionsForBlockTemplate,
        insertionSort_values_eq hkeyed hsame]

/-- Fees below `2 ^ 64 / 1000` have exact rates. -/
theorem feeRate_eq_exact {tx : Transaction} (hfee : 1000 * tx.getFee.toNat < 2 ^ 64)
    (hsize : serializedSize env tx < 2 ^ 64) :
    (feeRate env tx).toNat = exactFeeRate env tx := by
  have htxSize : (txSize env tx).toNat = serializedSize env tx :=
    toNat_ofNat_of_lt' hsize
  rw [feeRate, exactFeeRate]
  split
  · have hthousand : (1000 : UInt64).toNat = 1000 := rfl
    rw [UInt64.toNat_div, htxSize, UInt64.toNat_mul, hthousand, Nat.mul_comm, Nat.mod_eq_of_lt hfee]
  · rename_i hzero
    have hle := le_iff_toNat_le.mp (UInt64.not_lt.mp hzero)
    rw [htxSize, UInt64.toNat_zero] at hle
    rw [Nat.le_zero.mp hle, Nat.div_zero]
    rfl

theorem ratesAgree_of_fees (hfees : ∀ tx ∈ pool.values, 1000 * tx.getFee.toNat < 2 ^ 64)
    (hsizes : ∀ tx ∈ pool.values, serializedSize env tx < 2 ^ 64) :
    RatesAgree env pool := by
  intro a ha b hb
  rw [Outranks, Outranks, feeRate_eq_exact (hfees a ha) (hsizes a ha),
    feeRate_eq_exact (hfees b hb) (hsizes b hb)]

/-- A platform on which a transaction is one byte, the low byte of its lock time. -/
def oneByteTransactions : Platform :=
  { Platform.blank with
    serializeTransaction := fun tx => [tx.getLockTime.toUInt8]
    blake3 := fun bytes => .replicate 32 (bytes.headD 0) }

def feeTx (lockTime : UInt32) (fee : UInt64) : Transaction := .standard 1 [] [] lockTime fee []

theorem template_iff_lowFees :
    (ofList oneByteTransactions [feeTx 1 1000, feeTx 2 2000]).Keyed oneByteTransactions ∧
      IsTemplate oneByteTransactions (ofList oneByteTransactions [feeTx 1 1000, feeTx 2 2000]) 2
        [feeTx 2 2000, feeTx 1 1000] := by
  have hkeyed : (ofList oneByteTransactions [feeTx 1 1000, feeTx 2 2000]).Keyed
    oneByteTransactions := keyed_ofList _
  refine ⟨hkeyed, ((template_iff hkeyed).mpr ⟨by decide, ?_⟩ 2).1⟩
  exact ratesAgree_of_fees (by decide) (by decide)

/-- A thousand times the second fee is `2 ^ 64 + 384`, so that it comes after a fee of one. -/
theorem template_highFee_last :
    (ofList oneByteTransactions [feeTx 1 1, feeTx 2 18446744073709552]).Keyed
        oneByteTransactions ∧
      (ofList oneByteTransactions
        [feeTx 1 1, feeTx 2 18446744073709552]).getTransactionsForBlockTemplate
          oneByteTransactions 2 = [feeTx 1 1, feeTx 2 18446744073709552] ∧
      ¬ IsTemplate oneByteTransactions
        (ofList oneByteTransactions [feeTx 1 1, feeTx 2 18446744073709552]) 2
        [feeTx 1 1, feeTx 2 18446744073709552] := by
  refine ⟨keyed_ofList _, by decide, fun htemplate => ?_⟩
  have hordered := htemplate.ordered
  revert hordered
  decide

end RustyCoin.Mempool
