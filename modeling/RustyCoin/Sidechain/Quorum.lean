import Mathlib.Data.Nat.Count
import Mathlib.Data.Nat.Bitwise
import RustyCoin.Sidechain.FederationSignature

/-!
# Quorums

The keys of the marked members become one key and a count exactly if all of them
are valid keys of the federation; the key is that of the member who leads the
others (`aggregateSignerPublicKeys_iff`). Any members can be marked, so a member
can lead so many signers exactly if so many members from there on have valid keys
(`exists_aggregate`, `leader_of_aggregate`).
-/

namespace RustyCoin.Sidechain

open Outcome List

variable {position : Nat} {bitmap : Bytes}

theorem toNat_one_shiftLeft (h : position < 8) :
    ((1 : UInt8) <<< UInt8.ofNat position).toNat = 2 ^ position := by
  have hall : ∀ i < 8, ((1 : UInt8) <<< UInt8.ofNat i).toNat = 2 ^ i := by decide
  exact hall position h

variable (byte : UInt8)

theorem bitSet_eq_testBit (h : position < 8) :
    bitSet byte position = byte.toNat.testBit position := by
  apply Bool.eq_iff_iff.mpr
  rw [bitSet, decide_eq_true_eq, ne_eq, ← UInt8.toNat_inj, UInt8.toNat_and,
    toNat_one_shiftLeft h, Nat.and_two_pow]
  cases byte.toNat.testBit position with
  | false => simp
  | true => simp

/-- The byte with the first eight marks, the first of them in the highest bit. -/
def byteOf (marks : Nat → Bool) : UInt8 :=
  UInt8.ofNat (Nat.ofBits fun position : Fin 8 => marks (7 - position))

variable (marks : Nat → Bool)

theorem bitSet_byteOf {index : Nat} (h : index < 8) :
    bitSet (byteOf marks) (7 - index) = marks index := by
  have hlt := Nat.ofBits_lt_two_pow fun position : Fin 8 => marks (7 - position)
  have hposition : 7 - index < 8 := by omega
  rw [bitSet_eq_testBit _ hposition, byteOf, UInt8.toNat_ofNat_of_lt' hlt,
    Nat.testBit_ofBits_lt _ _ hposition]
  congr 1
  show 7 - (7 - index) = index
  omega

variable {index : Nat}

theorem isSignerSelected_cons_lt (bitmap : Bytes) (h : index < 8) :
    isSignerSelected (byte :: bitmap) index = bitSet byte (7 - index) := by
  rw [isSignerSelected, Nat.div_eq_of_lt h, Nat.mod_eq_of_lt h]
  rfl

theorem isSignerSelected_cons_add (bitmap : Bytes) (index : Nat) :
    isSignerSelected (byte :: bitmap) (8 + index) = isSignerSelected bitmap index := by
  rw [isSignerSelected, Nat.add_mod_left, Nat.add_div_left index (by decide)]
  rfl

theorem lt_of_isSignerSelected
    (h : isSignerSelected bitmap index = true) : index < 8 * bitmap.length := by
  by_contra hge
  have hnone : bitmap[index / 8]? = none := getElem?_eq_none (by omega)
  rw [isSignerSelected, hnone] at h
  cases h

/-- The marked members. -/
def marked (bitmap : Bytes) : Finset Nat :=
  (Finset.range (8 * bitmap.length)).filter fun index => isSignerSelected bitmap index = true

@[simp] theorem mem_marked : index ∈ marked bitmap ↔ isSignerSelected bitmap index = true := by
  rw [marked, Finset.mem_filter, Finset.mem_range]
  exact and_iff_right_of_imp lt_of_isSignerSelected

theorem countOnes_eq (bitmap : Bytes) :
    countOnes byte =
      UInt32.ofNat (Nat.count (fun index => isSignerSelected (byte :: bitmap) index = true) 8) := by
  have hreverse : ((List.range 8).map fun index => 7 - index).Perm (List.range 8) := by decide
  rw [countOnes, ← hreverse.countP_eq, countP_map, Nat.count]
  congr 1
  apply countP_congr
  intro index hindex
  rw [isSignerSelected_cons_lt byte bitmap (mem_range.mp hindex), decide_eq_true_eq]
  rfl

/-- The signers are counted in 32 bits. -/
theorem countSigners_eq (signature : FederationSignature) :
    signature.countSigners = UInt32.ofNat (marked signature.signerBitmap).card := by
  have hcount (bitmap : Bytes) (count : UInt32) :
      bitmap.foldl (fun count byte => count + countOnes byte) count = count +
        UInt32.ofNat (Nat.count (fun index => isSignerSelected bitmap index = true)
          (8 * bitmap.length)) := by
    induction bitmap generalizing count with
    | nil => exact (UInt32.add_zero count).symm
    | cons byte bitmap ih =>
      have hlength : 8 * (byte :: bitmap).length = 8 + 8 * bitmap.length := by
        rw [length_cons]
        omega
      rw [foldl_cons, ih, countOnes_eq byte bitmap, UInt32.add_assoc, ← UInt32.ofNat_add,
        hlength, Nat.count_add]
      simp only [isSignerSelected_cons_add]
  rw [FederationSignature.countSigners, hcount, UInt32.zero_add, marked,
    Nat.count_eq_card_filter_range]

/-- A bitmap of so many bytes with these marks. -/
def bitmapOf (marks : Nat → Bool) : Nat → Bytes
  | 0 => []
  | size + 1 => byteOf marks :: bitmapOf (fun index => marks (8 + index)) size

theorem isSignerSelected_bitmapOf (size : Nat)
    (h : index < 8 * size) : isSignerSelected (bitmapOf marks size) index = marks index := by
  induction size generalizing marks index with
  | zero => omega
  | succ size ih =>
    rw [bitmapOf]
    by_cases hfirst : index < 8
    · rw [isSignerSelected_cons_lt _ _ hfirst, bitSet_byteOf _ hfirst]
    · obtain ⟨rest, rfl⟩ := Nat.exists_eq_add_of_le (Nat.not_lt.mp hfirst)
      rw [isSignerSelected_cons_add, ih _ (by omega)]

@[simp] theorem length_bitmapOf (size : Nat) : (bitmapOf marks size).length = size := by
  induction size generalizing marks with
  | zero => rfl
  | succ size ih => rw [bitmapOf, length_cons, ih]

theorem marked_bitmapOf {members : Finset Nat} {size : Nat} (h : ∀ i ∈ members, i < 8 * size) :
    marked (bitmapOf (fun index => decide (index ∈ members)) size) = members := by
  ext index
  rw [marked, Finset.mem_filter, Finset.mem_range, length_bitmapOf]
  constructor
  · rintro ⟨hindex, hmarked⟩
    rw [isSignerSelected_bitmapOf _ _ hindex] at hmarked
    exact of_decide_eq_true hmarked
  · intro hmember
    refine ⟨h index hmember, ?_⟩
    rw [isSignerSelected_bitmapOf _ _ (h index hmember)]
    exact decide_eq_true hmember

/-- The marked members with their positions. -/
def signers (publicKeys : List Bytes) (signerBitmap : Bytes) : List (Bytes × Nat) :=
  publicKeys.zipIdx.filter fun (_, index) => isSignerSelected signerBitmap index

variable {publicKeys : List Bytes} {signerBitmap : Bytes}

@[simp] theorem mem_signers {bytes : Bytes} {index : Nat} :
    (bytes, index) ∈ signers publicKeys signerBitmap ↔
      publicKeys[index]? = some bytes ∧ index ∈ marked signerBitmap := by
  rw [signers, mem_filter, mk_mem_zipIdx_iff_getElem?, mem_marked]

theorem pairwise_signers : ((signers publicKeys signerBitmap).map Prod.snd).Pairwise (· < ·) := by
  have hsorted : (publicKeys.zipIdx.map Prod.snd).Pairwise (· < ·) := by
    rw [zipIdx_map_snd]
    exact pairwise_lt_range'
  exact hsorted.sublist (filter_sublist.map Prod.snd)

theorem le_of_signers_cons {first other : Bytes} {leader index : Nat} {rest : List (Bytes × Nat)}
    (hsigners : signers publicKeys signerBitmap = (first, leader) :: rest)
    (hmem : (other, index) ∈ signers publicKeys signerBitmap) : leader ≤ index := by
  have hsorted : ((signers publicKeys signerBitmap).map Prod.snd).Pairwise (· < ·) :=
    pairwise_signers
  rw [hsigners] at hmem hsorted
  cases hmem with
  | head => exact Nat.le_refl leader
  | tail _ hrest =>
    exact ((pairwise_cons.mp hsorted).1 index (mem_map_of_mem hrest)).le

theorem ensureNoUnknownSigners_eq_ok {totalMembers : Nat} :
    ensureNoUnknownSigners signerBitmap totalMembers = .ok () ↔
      ∀ index ∈ marked signerBitmap, index < totalMembers := by
  rw [ensureNoUnknownSigners, ite_fail_eq_ok, and_iff_left rfl, any_eq_true]
  constructor
  · intro hnone index hindex
    have hselected := mem_marked.mp hindex
    have hlt := lt_of_isSignerSelected hselected
    by_contra hge
    exact hnone ⟨index, mem_range'_1.mpr (by omega), hselected⟩
  · rintro hall ⟨index, hindex, hselected⟩
    have hlt := hall index (mem_marked.mpr hselected)
    have hge := (mem_range'_1.mp hindex).1
    omega

theorem length_signers (hknown : ∀ index ∈ marked signerBitmap, index < publicKeys.length) :
    (signers publicKeys signerBitmap).length = (marked signerBitmap).card := by
  have hnodup : ((signers publicKeys signerBitmap).map Prod.snd).Nodup :=
    pairwise_signers.imp Nat.ne_of_lt
  have hset : ((signers publicKeys signerBitmap).map Prod.snd).toFinset = marked signerBitmap := by
    ext index
    rw [mem_toFinset, mem_map]
    constructor
    · rintro ⟨⟨bytes, _⟩, hmem, rfl⟩
      exact (mem_signers.mp hmem).2
    · intro hindex
      have hget := getElem?_eq_getElem (hknown index hindex)
      exact ⟨(_, index), mem_signers.mpr ⟨hget, hindex⟩, rfl⟩
  rw [← hset, toFinset_card_of_nodup hnodup, length_map]

section

variable {K S : Type} {crypto : ThresholdCrypto K S} {publicKeys : List Bytes}
  {signerBitmap : Bytes} {leader : Nat} {key : K} {count : UInt32}

/-- Valid members are marked, and the key is that of the first of them. -/
structure Quorum (crypto : ThresholdCrypto K S) (publicKeys : List Bytes) (signerBitmap : Bytes)
    (leader : Nat) (key : K) : Prop where
  leader_mem : leader ∈ marked signerBitmap
  leader_le : ∀ index ∈ marked signerBitmap, leader ≤ index
  valid : ∀ index ∈ marked signerBitmap, (memberKey crypto publicKeys index).isSome = true
  key_eq : memberKey crypto publicKeys leader = some key

theorem memberKey_eq_some {index : Nat} : memberKey crypto publicKeys index = some key ↔
    ∃ bytes, publicKeys[index]? = some bytes ∧ parsePublicKey crypto bytes = .ok key := by
  rw [memberKey, Option.bind_eq_some_iff]
  refine exists_congr fun bytes => and_congr_right fun _ => ?_
  cases parsePublicKey crypto bytes with
  | error failure => exact iff_of_false nofun nofun
  | ok parsed => exact ⟨fun h => congrArg Except.ok (Option.some.inj h), fun h => h ▸ rfl⟩

namespace Quorum

variable (h : Quorum crypto publicKeys signerBitmap leader key)

include h

theorem known : ∀ index ∈ marked signerBitmap, index < publicKeys.length := by
  intro index hindex
  obtain ⟨parsed, hparsed⟩ := Option.isSome_iff_exists.mp (h.valid index hindex)
  obtain ⟨bytes, hbytes, -⟩ := memberKey_eq_some.mp hparsed
  exact (List.getElem?_eq_some_iff.mp hbytes).1

/-- The leader stands first among the signers. -/
theorem signers_eq :
    ∃ bytes rest, signers publicKeys signerBitmap = (bytes, leader) :: rest ∧
      parsePublicKey crypto bytes = .ok key := by
  obtain ⟨bytes, hbytes, hparsed⟩ := memberKey_eq_some.mp h.key_eq
  have hmem := mem_signers.mpr ⟨hbytes, h.leader_mem⟩
  obtain ⟨⟨first, index⟩, rest, hsigners⟩ := exists_cons_of_ne_nil (ne_nil_of_mem hmem)
  obtain ⟨hfirst, hindex⟩ := mem_signers.mp (hsigners ▸ mem_cons_self)
  cases Nat.le_antisymm (le_of_signers_cons hsigners hmem) (h.leader_le index hindex)
  cases hbytes.symm.trans hfirst
  exact ⟨bytes, rest, hsigners, hparsed⟩

/-- All of the signers have valid keys. -/
theorem exists_shares :
    ∃ rest, (selectedKeys publicKeys signerBitmap).map (parsePublicKey crypto) =
      (key :: rest).map .ok := by
  obtain ⟨bytes, rest, hsigners, hparsed⟩ := h.signers_eq
  have hvalid : ∀ other ∈ rest.map Prod.fst, ∃ share, parsePublicKey crypto other = .ok share := by
    intro other hother
    obtain ⟨⟨_, index⟩, hmem, rfl⟩ := mem_map.mp hother
    obtain ⟨hget, hindex⟩ := mem_signers.mp (hsigners ▸ mem_cons_of_mem _ hmem)
    obtain ⟨share, hshare⟩ := Option.isSome_iff_exists.mp (h.valid index hindex)
    obtain ⟨_, hget', hshare⟩ := memberKey_eq_some.mp hshare
    cases hget.symm.trans hget'
    exact ⟨share, hshare⟩
  obtain ⟨shares, hshares⟩ := exists_mapM_eq_ok hvalid
  refine ⟨shares, ?_⟩
  show ((signers publicKeys signerBitmap).map Prod.fst).map _ = _
  rw [hsigners, map_cons, map_cons, hparsed, mapM_eq_ok.mp hshares, map_cons]

end Quorum

/-- Signers whose keys are valid are led by the first of them. -/
theorem quorum_of_shares {rest : List K}
    (hknown : ∀ index ∈ marked signerBitmap, index < publicKeys.length)
    (hshares : (selectedKeys publicKeys signerBitmap).map (parsePublicKey crypto) =
      (key :: rest).map .ok) : ∃ leader, Quorum crypto publicKeys signerBitmap leader key := by
  change ((signers publicKeys signerBitmap).map Prod.fst).map _ = _ at hshares
  have hmem {index : Nat} (hindex : index ∈ marked signerBitmap) :
      ∃ bytes, (bytes, index) ∈ signers publicKeys signerBitmap :=
    ⟨_, mem_signers.mpr ⟨getElem?_eq_getElem (hknown index hindex), hindex⟩⟩
  obtain ⟨bytes, keys, hkeys, hkey, -⟩ := map_eq_cons_iff.mp hshares
  obtain ⟨⟨_, leader⟩, others, hsigners, rfl, -⟩ := map_eq_cons_iff.mp hkeys
  obtain ⟨hleader, hmarked⟩ := mem_signers.mp (hsigners ▸ mem_cons_self)
  refine ⟨leader, hmarked, ?_, ?_, memberKey_eq_some.mpr ⟨_, hleader, hkey⟩⟩
  · intro index hindex
    obtain ⟨other, hother⟩ := hmem hindex
    exact le_of_signers_cons hsigners hother
  · intro index hindex
    obtain ⟨other, hother⟩ := hmem hindex
    have hparsed : parsePublicKey crypto other ∈ (key :: rest).map .ok :=
      hshares ▸ mem_map_of_mem (mem_map_of_mem hother)
    obtain ⟨share, -, hshare⟩ := mem_map.mp hparsed
    rw [memberKey_eq_some.mpr ⟨other, (mem_signers.mp hother).1, hshare.symm⟩]
    rfl

/-- The keys of the signers become one exactly if they are a quorum. -/
theorem aggregateSignerPublicKeys_iff :
    aggregateSignerPublicKeys crypto publicKeys signerBitmap = .ok (key, count) ↔
      (∃ leader, Quorum crypto publicKeys signerBitmap leader key) ∧
        count = UInt32.ofNat (marked signerBitmap).card ∧ count ≠ 0 := by
  rw [aggregateSignerPublicKeys_eq_ok, ensureNoUnknownSigners_eq_ok]
  have hlength {rest : List K} (hknown : ∀ index ∈ marked signerBitmap, index < publicKeys.length)
      (hshares : (selectedKeys publicKeys signerBitmap).map (parsePublicKey crypto) =
        (key :: rest).map .ok) : (key :: rest).length = (marked signerBitmap).card := by
    rw [← length_signers hknown, ← length_map Except.ok, ← hshares]
    exact (length_map _).trans (length_map _)
  constructor
  · rintro ⟨-, hknown, rest, hshares, rfl, hzero⟩
    rw [hlength hknown hshares] at hzero ⊢
    exact ⟨quorum_of_shares hknown hshares, rfl, hzero⟩
  · rintro ⟨⟨leader, hquorum⟩, rfl, hzero⟩
    obtain ⟨rest, hshares⟩ := hquorum.exists_shares
    refine ⟨?_, hquorum.known, rest, hshares, ?_, hzero⟩
    · rintro rfl
      exact absurd hquorum.leader_mem (Finset.notMem_empty leader)
    · rw [hlength hquorum.known hshares]

/-- The members with valid keys from some member on. -/
def membersFrom (crypto : ThresholdCrypto K S) (publicKeys : List Bytes) (first : Nat) :
    Finset Nat :=
  (Finset.range publicKeys.length).filter fun index =>
    first ≤ index ∧ (memberKey crypto publicKeys index).isSome = true

/-- One who leads so many signers is followed by so many valid members. -/
theorem leader_of_aggregate
    (h : aggregateSignerPublicKeys crypto publicKeys signerBitmap = .ok (key, count)) :
    ∃ leader, memberKey crypto publicKeys leader = some key ∧
      count.toNat ≤ (membersFrom crypto publicKeys leader).card := by
  obtain ⟨⟨leader, hquorum⟩, rfl, -⟩ := aggregateSignerPublicKeys_iff.mp h
  refine ⟨leader, hquorum.key_eq, ?_⟩
  have hsubset : marked signerBitmap ⊆ membersFrom crypto publicKeys leader := by
    intro index hindex
    apply Finset.mem_filter.mpr
    exact ⟨Finset.mem_range.mpr (hquorum.known index hindex), hquorum.leader_le index hindex,
      hquorum.valid index hindex⟩
  rw [UInt32.toNat_ofNat']
  exact (Nat.mod_le _ _).trans (Finset.card_le_card hsubset)

/-- One who is followed by so many valid members can lead so many signers. -/
theorem exists_aggregate {least : UInt32} (hkey : memberKey crypto publicKeys leader = some key)
    (hleast : least.toNat ≤ (membersFrom crypto publicKeys leader).card) :
    ∃ signerBitmap count,
      aggregateSignerPublicKeys crypto publicKeys signerBitmap = .ok (key, count) ∧
        least ≤ count := by
  have hleader : leader ∈ membersFrom crypto publicKeys leader := by
    obtain ⟨bytes, hbytes, -⟩ := memberKey_eq_some.mp hkey
    apply Finset.mem_filter.mpr
    refine ⟨Finset.mem_range.mpr (List.getElem?_eq_some_iff.mp hbytes).1, Nat.le_refl leader, ?_⟩
    rw [hkey]
    rfl
  have hone : 1 ≤ (membersFrom crypto publicKeys leader).card := Finset.card_pos.mpr ⟨_, hleader⟩
  obtain ⟨members, hmember, hmembers, hcard⟩ := Finset.exists_subsuperset_card_eq
    (Finset.singleton_subset_iff.mpr hleader) (Finset.card_singleton leader ▸ Nat.le_max_left 1 _)
    (Nat.max_le.mpr ⟨hone, hleast⟩)
  have hbound : ∀ index ∈ members, index < 8 * publicKeys.length := by
    intro index hindex
    have hlt := Finset.mem_range.mp (Finset.mem_filter.mp (hmembers hindex)).1
    omega
  let signerBitmap := bitmapOf (fun index => decide (index ∈ members)) publicKeys.length
  have hmarked : marked signerBitmap = members := marked_bitmapOf hbound
  have hcount : (UInt32.ofNat members.card).toNat = max 1 least.toNat := by
    have hlt := least.toNat_lt
    rw [hcard, UInt32.toNat_ofNat', Nat.mod_eq_of_lt (by omega)]
  refine ⟨signerBitmap, UInt32.ofNat members.card, aggregateSignerPublicKeys_iff.mpr ?_, ?_⟩
  · rw [hmarked]
    refine ⟨⟨leader, ?_, ?_, ?_, hkey⟩, rfl, ?_⟩
    · rw [hmarked]
      exact Finset.singleton_subset_iff.mp hmember
    · rw [hmarked]
      exact fun index hindex => (Finset.mem_filter.mp (hmembers hindex)).2.1
    · rw [hmarked]
      exact fun index hindex => (Finset.mem_filter.mp (hmembers hindex)).2.2
    · intro hzero
      rw [hzero] at hcount
      exact absurd (hcount ▸ Nat.le_max_left 1 least.toNat) (by decide)
  · rw [UInt32.le_iff_toNat_le, hcount]
    exact Nat.le_max_right 1 least.toNat

theorem countSigners_of_aggregate {signature : FederationSignature}
    (h : aggregateSignerPublicKeys crypto publicKeys signature.signerBitmap = .ok (key, count)) :
    signature.countSigners = count := by
  rw [countSigners_eq, (aggregateSignerPublicKeys_iff.mp h).2.1]

end

end RustyCoin.Sidechain
