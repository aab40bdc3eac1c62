/-
InfinitagNow/Chunks.lean

A list cut into pieces of one size, and 32-bit masks that say which pieces of a
group are there.

`chunk k l i` is the `i`-th piece of `k` elements, the last one shorter;
`take_succ_chunk` puts the next piece behind the ones before it.  A mask is a
`UInt32` read bit by bit (`bit`); the mask with the lowest `k` bits set is
`lowMask k`, and `and_eq_iff` says when a mask contains another.

Cut twice, into pieces and the pieces into groups, nothing is lost: the pieces
tile the list (`tiles_chunks`), the groups go through all pieces in order
(`flatMap_groups`).
-/
import Mathlib

namespace InfinitagNow

/-! ### Chunks -/

section Chunk

variable {α : Type*} {k : ℕ} {l : List α} {i : ℕ}

/-- The `i`-th piece of `k` elements. -/
def chunk (k : ℕ) (l : List α) (i : ℕ) : List α := (l.drop (k * i)).take k

theorem length_chunk : (chunk k l i).length = min k (l.length - k * i) := by
  simp [chunk]

/-- The next piece continues the ones before it. -/
theorem take_succ_chunk : l.take (k * (i + 1)) = l.take (k * i) ++ chunk k l i := by
  rw [Nat.mul_succ, List.take_add, chunk]

theorem length_chunk_le : (chunk k l i).length ≤ k := by
  rw [length_chunk]
  exact Nat.min_le_left _ _

end Chunk

/-! ### Tilings -/

/-- The `n` intervals of length `len i` from `off i` on cover `[0, s)` without a
gap and without an overlap. -/
structure Tiles (s n : ℕ) (off len : ℕ → ℕ) : Prop where
  inside : ∀ i < n, off i + len i ≤ s
  cover : ∀ p < s, ∃ i < n, off i ≤ p ∧ p < off i + len i
  apart : ∀ i j, i < j → j < n → off i + len i ≤ off j

theorem Tiles.congr {s n : ℕ} {off len off' len' : ℕ → ℕ} (h : Tiles s n off len)
    (hoff : ∀ i < n, off' i = off i) (hlen : ∀ i < n, len' i = len i) : Tiles s n off' len' where
  inside i hi := by
    rw [hoff i hi, hlen i hi]
    exact h.inside i hi
  cover p hp := by
    obtain ⟨i, hi, hle, hlt⟩ := h.cover p hp
    exact ⟨i, hi, by rwa [hoff i hi], by rwa [hoff i hi, hlen i hi]⟩
  apart i j hij hj := by
    have hi : i < n := hij.trans hj
    rw [hoff i hi, hlen i hi, hoff j hj]
    exact h.apart i j hij hj

/-- Pieces of size `k`, as many as it takes, the last one shorter. -/
theorem tiles_chunks {k s n : ℕ} (hk : 0 < k) (hn : ∀ i, i < n ↔ k * i < s) :
    Tiles s n (fun i => k * i) (fun i => min k (s - k * i)) where
  inside i hi := by
    have := (hn i).1 hi
    show k * i + min k (s - k * i) ≤ s
    omega
  cover p hp := by
    have hdiv : k * (p / k) ≤ p := Nat.mul_div_le p k
    have hmod : p < k * (p / k) + k := Nat.lt_mul_div_succ p hk
    refine ⟨p / k, (hn _).2 (by omega), hdiv, ?_⟩
    show p < k * (p / k) + min k (s - k * (p / k))
    omega
  apart i j hij hj := by
    have hnext : k * (i + 1) ≤ k * j := Nat.mul_le_mul_left k hij
    rw [Nat.mul_succ] at hnext
    show k * i + min k (s - k * i) ≤ k * j
    omega

theorem filter_lt_range {n m : ℕ} (h : n ≤ m) : (List.range m).filter (· < n) = List.range n := by
  obtain ⟨d, rfl⟩ := Nat.exists_eq_add_of_le h
  rw [List.range_add, List.filter_append, List.filter_eq_self.2 (by simp),
    List.filter_eq_nil_iff.2 (by simp), List.append_nil]

/-- Groups of `k` pieces, as many as it takes, go through all of them in
order. -/
theorem flatMap_groups {k n m : ℕ} (h : n ≤ k * m) :
    ((List.range m).flatMap fun w =>
      ((List.range k).filter fun i => k * w + i < n).map (k * w + ·)) = List.range n := by
  have hall : ∀ m, ((List.range m).flatMap fun w =>
      ((List.range k).filter fun i => k * w + i < n).map (k * w + ·)) =
        (List.range (k * m)).filter (· < n) := by
    intro m
    induction m with
    | zero => rfl
    | succ m ih =>
      rw [List.range_succ, List.flatMap_append, ih, Nat.mul_succ, List.range_add,
        List.filter_append, List.filter_map, List.flatMap_singleton]
      rfl
  rw [hall, filter_lt_range h]

/-! ### Masks -/

section Mask

variable {a b m : UInt32} {i j : ℕ}

def bit (m : UInt32) (i : ℕ) : Bool := m.toNat.testBit i

theorem bit_ext (h : ∀ i < 32, bit a i = bit b i) : a = b := by
  apply UInt32.toNat_inj.1
  apply Nat.eq_of_testBit_eq
  intro i
  by_cases hi : i < 32
  · exact h i hi
  · have hhigh : ∀ c : UInt32, c.toNat.testBit i = false := fun c =>
      Nat.testBit_lt_two_pow
        (lt_of_lt_of_le c.toNat_lt (Nat.pow_le_pow_right (by decide) (by omega)))
    rw [hhigh, hhigh]

@[simp] theorem bit_zero (i : ℕ) : bit 0 i = false := by
  simp [bit]

@[simp] theorem bit_or (a b : UInt32) (i : ℕ) : bit (a ||| b) i = (bit a i || bit b i) := by
  simp [bit]

@[simp] theorem bit_and (a b : UInt32) (i : ℕ) : bit (a &&& b) i = (bit a i && bit b i) := by
  simp [bit]

theorem bit_not (a : UInt32) (hi : i < 32) : bit (~~~ a) i = !bit a i := by
  have h := Nat.testBit_two_pow_sub_succ (n := 32) a.toNat_lt i
  simp only [hi, decide_true, Bool.true_and] at h
  simp only [bit, UInt32.toNat_not]
  rw [← h]
  congr 1
  rw [UInt32.size]
  omega

theorem toNat_one_shiftLeft {k : UInt32} (hk : k.toNat < 32) :
    ((1 : UInt32) <<< k).toNat = 2 ^ k.toNat := by
  have hlt : 2 ^ k.toNat < 2 ^ 32 := Nat.pow_lt_pow_right (by decide) hk
  rw [UInt32.toNat_shiftLeft, Nat.mod_eq_of_lt hk, UInt32.toNat_one, Nat.shiftLeft_eq, one_mul,
    Nat.mod_eq_of_lt hlt]

/-- The mask of one piece. -/
theorem bit_one_shiftLeft {k : UInt32} (hk : k.toNat < 32) (j : ℕ) :
    bit ((1 : UInt32) <<< k) j = decide (k.toNat = j) := by
  rw [bit, toNat_one_shiftLeft hk, Nat.testBit_two_pow]

/-- The mask of the first `k` pieces. -/
def lowMask (k : UInt32) : UInt32 := ((1 : UInt32) <<< k) - 1

theorem bit_lowMask {k : UInt32} (hk : k.toNat < 32) (j : ℕ) :
    bit (lowMask k) j = decide (j < k.toNat) := by
  have hle : (1 : UInt32) ≤ (1 : UInt32) <<< k := by
    rw [UInt32.le_iff_toNat_le, toNat_one_shiftLeft hk]
    exact Nat.one_le_two_pow
  rw [lowMask, bit, UInt32.toNat_sub_of_le _ _ hle, toNat_one_shiftLeft hk, UInt32.toNat_one,
    Nat.testBit_two_pow_sub_one]

/-- A mask contains another when it has all its bits. -/
theorem and_eq_iff : a &&& m = m ↔ ∀ i, bit m i = true → bit a i = true := by
  constructor
  · intro h i hi
    rw [← h, bit_and, Bool.and_eq_true] at hi
    exact hi.1
  · intro h
    refine bit_ext fun i _ => ?_
    rw [bit_and]
    cases hm : bit m i with
    | false => simp
    | true => simp [h i hm]

/-- The test `mask & (1UL << i)`. -/
theorem and_one_shiftLeft_eq_zero_iff {k : UInt32} (hk : k.toNat < 32) :
    a &&& ((1 : UInt32) <<< k) = 0 ↔ bit a k.toNat = false := by
  constructor
  · intro h
    have hbit : bit (a &&& ((1 : UInt32) <<< k)) k.toNat = false := by rw [h, bit_zero]
    simpa [bit_one_shiftLeft hk] using hbit
  · intro h
    refine bit_ext fun i _ => ?_
    rw [bit_and, bit_one_shiftLeft hk, bit_zero]
    by_cases hi : k.toNat = i
    · subst hi
      simp [h]
    · simp [hi]

/-- Nothing of `m` is missing from `a`. -/
theorem and_not_eq_zero_iff : m &&& ~~~ a = 0 ↔ ∀ i < 32, bit m i = true → bit a i = true := by
  constructor
  · intro h i hi hm
    have hbit : bit (m &&& ~~~ a) i = false := by rw [h, bit_zero]
    rw [bit_and, bit_not a hi, hm] at hbit
    simpa using hbit
  · intro h
    refine bit_ext fun i hi => ?_
    rw [bit_and, bit_not a hi, bit_zero]
    cases hm : bit m i with
    | false => simp
    | true => simp [h i hi hm]

end Mask

end InfinitagNow
