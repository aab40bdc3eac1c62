/-
InfinitagNow/CrcPolynomial.lean

What a bit-serial CRC computes: the remainder of a polynomial division.
Nothing here is about one program.

A bit vector of width `w` is a polynomial over the field of two elements, of
degree below `w` (`toPoly`).  One step of the register multiplies by X and
reduces by X^w + `poly` (`toPoly_mulX`), so that a whole message leaves the
remainder of its polynomial, shifted up by the width, and of the initial value
in front of it (`toPoly_crcBytes`).

A reflected register runs the other way round, low bit first.  Read backwards
it is the same register (`reverse_crcBitRev`), fed with the bytes read
backwards, whose message polynomial is that of the bits in the order of
transmission (`messagePoly_reverse`).
-/
import InfinitagNow.Crc

namespace InfinitagNow

open Polynomial XorVec

variable {w : ℕ}

/-! ### Bit vectors as polynomials -/

/-- Bit `i` is the coefficient of X^i. -/
noncomputable def toPoly : XorVec w →+ (ZMod 2)[X] :=
  ∑ i ∈ Finset.range w, (monomial i).toAddMonoidHom.comp (XorVec.coeff i)

theorem toPoly_apply (x : XorVec w) :
    toPoly x = ∑ i ∈ Finset.range w, monomial i (XorVec.coeff i x) := by
  simp [toPoly]

/-- There are no bits from the width on. -/
theorem coeff_of_le (x : XorVec w) {i : ℕ} (hi : w ≤ i) : XorVec.coeff i x = 0 := by
  show (if BitVec.getLsbD x i then (1 : ZMod 2) else 0) = 0
  rw [BitVec.getLsbD_of_ge x i hi]
  rfl

theorem coeff_toPoly (x : XorVec w) (i : ℕ) : (toPoly x).coeff i = XorVec.coeff i x := by
  rw [toPoly_apply, finsetSum_coeff]
  simp only [coeff_monomial]
  rw [Finset.sum_ite_eq']
  split
  · rfl
  · rename_i hi
    exact (coeff_of_le x (by simpa using hi)).symm

theorem degree_toPoly_lt (x : XorVec w) : (toPoly x).degree < w := by
  rw [degree_lt_iff_coeff_zero]
  intro i hi
  rw [coeff_toPoly]
  exact coeff_of_le x hi

/-- X^w + `poly`, what the register reduces by. -/
noncomputable def modulus (poly : BitVec w) : (ZMod 2)[X] := X ^ w + toPoly (ofBitVec poly)

section Modulus

variable (poly : BitVec w)

theorem monic_modulus : (modulus poly).Monic :=
  monic_X_pow_add (degree_toPoly_lt _)

theorem degree_modulus : (modulus poly).degree = w := by
  rw [modulus, degree_add_eq_left_of_degree_lt, degree_X_pow]
  rw [degree_X_pow]
  exact degree_toPoly_lt _

/-- A factor may be reduced first. -/
theorem mul_mod_modulus (p q : (ZMod 2)[X]) :
    (p * (q %ₘ modulus poly)) %ₘ modulus poly = (p * q) %ₘ modulus poly := by
  refine modByMonic_eq_of_dvd_sub (monic_modulus poly) ?_
  rw [← mul_sub]
  exact (dvd_modByMonic_sub q _).mul_left p

/-- A register holds what it stands for. -/
theorem toPoly_mod_modulus (x : XorVec w) : toPoly x %ₘ modulus poly = toPoly x := by
  rw [modByMonic_eq_self_iff (monic_modulus poly), degree_modulus]
  exact degree_toPoly_lt x

/-! ### The register divides -/

theorem coeff_ite_X_pow {c : Bool} {i : ℕ} (hi : ¬ i = w) :
    (if c then X ^ w else (0 : (ZMod 2)[X])).coeff i = 0 := by
  split
  · rw [coeff_X_pow, if_neg hi]
  · exact coeff_zero i

/-- Shifting multiplies by X and drops the top bit. -/
theorem X_mul_toPoly (x : BitVec w) :
    X * toPoly (ofBitVec x) =
      toPoly (ofBitVec (x <<< 1)) + if x.msb then X ^ w else 0 := by
  ext i
  rw [coeff_add, coeff_toPoly, coeff_ofBitVec]
  obtain _ | i := i
  · have hzero : (if x.msb then X ^ w else (0 : (ZMod 2)[X])).coeff 0 = 0 := by
      by_cases hw : 0 = w
      · -- there is no top bit
        subst hw
        simp [BitVec.msb_eq_getLsbD_last]
      · exact coeff_ite_X_pow hw
    rw [hzero, BitVec.getLsbD_shiftLeft]
    simp
  · rw [coeff_X_mul, coeff_toPoly, coeff_ofBitVec, BitVec.getLsbD_shiftLeft]
    by_cases heq : i + 1 = w
    · -- the top bit
      subst heq
      rw [BitVec.msb_eq_getLsbD_last, Nat.add_sub_cancel]
      cases x.getLsbD i <;> simp
    · rw [coeff_ite_X_pow heq]
      by_cases hlt : i + 1 < w
      · simp [hlt, -BitVec.getLsbD_eq_getElem]
      · rw [BitVec.getLsbD_of_ge x i (by omega)]
        simp [hlt]

/-- The bits shifted out are multiples of the modulus. -/
theorem X_mul_toPoly_eq (x : BitVec w) :
    X * toPoly (ofBitVec x) =
      toPoly (ofBitVec (crcBit poly x)) + modulus poly * if x.msb then 1 else 0 := by
  rw [X_mul_toPoly, crcBit]
  cases hmsb : x.msb with
  | false => simp
  | true =>
    -- the top bit is traded for `poly`, which cancels
    have htwo : toPoly (ofBitVec poly) + toPoly (ofBitVec poly) = 0 := by
      rw [← map_add, XorVec.add_self, map_zero]
    rw [if_pos rfl, if_pos rfl, if_pos rfl, ofBitVec_xor, map_add, modulus, mul_one]
    calc toPoly (ofBitVec (x <<< 1)) + X ^ w
        = toPoly (ofBitVec (x <<< 1)) + X ^ w +
            (toPoly (ofBitVec poly) + toPoly (ofBitVec poly)) := by rw [htwo, add_zero]
      _ = toPoly (ofBitVec (x <<< 1)) + toPoly (ofBitVec poly) +
            (X ^ w + toPoly (ofBitVec poly)) := by ring

/-- One step of the register is one step of the division. -/
theorem toPoly_mulX (x : XorVec w) :
    toPoly (mulX poly x) = (X * toPoly x) %ₘ modulus poly := by
  have hstep : X * toPoly x = toPoly (mulX poly x) + _ := X_mul_toPoly_eq poly x
  rw [hstep, add_modByMonic, toPoly_mod_modulus, self_mul_modByMonic (monic_modulus poly), add_zero]

theorem toPoly_mulX_pow (k : ℕ) (x : XorVec w) :
    toPoly ((mulX poly ^ k) x) = (X ^ k * toPoly x) %ₘ modulus poly := by
  induction k with
  | zero => exact ((congrArg (· %ₘ modulus poly) (by simp)).trans (toPoly_mod_modulus poly x)).symm
  | succ k ih =>
    have hsucc : (mulX poly ^ (k + 1)) x = mulX poly ((mulX poly ^ k) x) := by
      rw [pow_succ']
      rfl
    rw [hsucc, toPoly_mulX, ih, mul_mod_modulus, pow_succ', mul_assoc]

end Modulus

/-! ### Messages -/

/-- The polynomial of a byte string, first byte and top bit highest. -/
noncomputable def messagePoly : List (BitVec 8) → (ZMod 2)[X]
  | [] => 0
  | b :: bs => X ^ (8 * bs.length) * toPoly (ofBitVec b) + messagePoly bs

/-- A byte enters at the top of the register. -/
theorem toPoly_byte (hw : 8 ≤ w) (b : BitVec 8) :
    toPoly (ofBitVec (b.setWidth w <<< (w - 8))) = X ^ (w - 8) * toPoly (ofBitVec b) := by
  ext i
  rw [coeff_toPoly, coeff_ofBitVec, BitVec.getLsbD_shiftLeft, BitVec.getLsbD_setWidth,
    coeff_X_pow_mul', coeff_toPoly, coeff_ofBitVec]
  by_cases hi : w - 8 ≤ i
  · rw [if_pos hi]
    by_cases hlt : i < w
    · simp [hlt, show i - (w - 8) < w by omega, Nat.not_lt.2 hi, -BitVec.getLsbD_eq_getElem]
    · rw [BitVec.getLsbD_of_ge b _ (by omega)]
      simp
  · rw [if_neg hi]
    simp [Nat.not_le.1 hi]

theorem toPoly_crcByte (poly : BitVec w) (hw : 8 ≤ w) (c : BitVec w) (b : BitVec 8) :
    toPoly (ofBitVec (crcByte poly c b)) =
      (X ^ 8 * toPoly (ofBitVec c) + X ^ w * toPoly (ofBitVec b)) %ₘ modulus poly := by
  have hpow : (X : (ZMod 2)[X]) ^ w = X ^ 8 * X ^ (w - 8) := by
    rw [← pow_add, Nat.add_sub_cancel' hw]
  rw [crcByte, ← mulX_pow_ofBitVec, toPoly_mulX_pow, ofBitVec_xor, map_add, toPoly_byte hw, hpow,
    mul_add, mul_assoc]

/-- **The register computes a remainder**: of the message, shifted up by the
width, and of the initial value in front of it. -/
theorem toPoly_crcBytes (poly : BitVec w) (hw : 8 ≤ w) (c : BitVec w) (data : List (BitVec 8)) :
    toPoly (ofBitVec (crcBytes poly c data)) =
      (X ^ w * messagePoly data + X ^ (8 * data.length) * toPoly (ofBitVec c)) %ₘ modulus poly := by
  induction data generalizing c with
  | nil =>
    have hnil : X ^ w * messagePoly [] + X ^ (8 * 0) * toPoly (ofBitVec c) =
        toPoly (ofBitVec c) := by simp [messagePoly]
    exact ((congrArg (· %ₘ modulus poly) hnil).trans (toPoly_mod_modulus poly _)).symm
  | cons b data ih =>
    have hlen : (X : (ZMod 2)[X]) ^ (8 * (b :: data).length) = X ^ (8 * data.length) * X ^ 8 := by
      rw [← pow_add, List.length_cons, Nat.mul_succ]
    show toPoly (ofBitVec (crcBytes poly (crcByte poly c b) data)) = _
    rw [ih, toPoly_crcByte poly hw, add_modByMonic, mul_mod_modulus, ← add_modByMonic, messagePoly,
      hlen]
    congr 1
    ring

/-! ### Reflected registers -/

/-- One step of a register that is shifted down. -/
def crcBitRev (poly crc : BitVec w) : BitVec w :=
  (crc >>> 1) ^^^ if crc.getLsbD 0 then poly.reverse else 0#w

theorem reverse_xor (x y : BitVec w) : (x ^^^ y).reverse = x.reverse ^^^ y.reverse := by
  apply BitVec.eq_of_getLsbD_eq
  intro i _
  rw [BitVec.getLsbD_reverse, BitVec.getMsbD_xor, BitVec.getLsbD_xor, BitVec.getLsbD_reverse,
    BitVec.getLsbD_reverse]

theorem reverse_shiftRight (x : BitVec w) : (x >>> 1).reverse = x.reverse <<< 1 := by
  apply BitVec.eq_of_getLsbD_eq
  intro i hi
  rw [BitVec.getLsbD_reverse, BitVec.getLsbD_shiftLeft, BitVec.getLsbD_reverse,
    BitVec.getMsbD_ushiftRight, Bool.and_assoc]

/-- Read backwards, shifting down is shifting up. -/
theorem reverse_crcBitRev (poly crc : BitVec w) :
    (crcBitRev poly crc).reverse = crcBit poly crc.reverse := by
  rw [crcBitRev, crcBit, reverse_xor, reverse_shiftRight, BitVec.msb_reverse]
  cases crc.getLsbD 0 with
  | false =>
    have hzero : (0#w).reverse = 0#w := BitVec.reverse_eq_zero_iff.2 rfl
    rw [if_neg (by decide), if_neg (by decide), hzero, BitVec.xor_zero]
  | true => rw [if_pos rfl, if_pos rfl, BitVec.reverse_reverse_eq]

/-- A byte enters a reflected register at the bottom. -/
theorem reverse_setWidth (hw : 8 ≤ w) (b : BitVec 8) :
    (b.setWidth w).reverse = b.reverse.setWidth w <<< (w - 8) := by
  apply BitVec.eq_of_getLsbD_eq
  intro i hi
  rw [BitVec.getLsbD_reverse, BitVec.getMsbD_eq_getLsbD, BitVec.getLsbD_setWidth,
    BitVec.getLsbD_shiftLeft, BitVec.getLsbD_setWidth, BitVec.getLsbD_reverse,
    BitVec.getMsbD_eq_getLsbD]
  by_cases hlow : i < w - 8
  · rw [BitVec.getLsbD_of_ge b _ (by omega)]
    simp [hlow]
  · have hpos : 8 - 1 - (i - (w - 8)) = w - 1 - i := by omega
    rw [hpos]
    simp [hi, hlow, show i - (w - 8) < w by omega, show i - (w - 8) < 8 by omega,
      show w - 1 - i < w by omega, -BitVec.getLsbD_eq_getElem]

/-- A byte read backwards. -/
theorem toPoly_reverse_byte (b : BitVec 8) :
    toPoly (ofBitVec b.reverse) = ∑ j ∈ Finset.range 8, if b.getLsbD j then X ^ (7 - j) else 0 := by
  rw [toPoly_apply, ← Finset.sum_range_reflect]
  refine Finset.sum_congr rfl fun j hj => ?_
  have hj : j < 8 := Finset.mem_range.1 hj
  rw [coeff_ofBitVec, BitVec.getLsbD_reverse, BitVec.getMsbD_eq_getLsbD]
  have hback : 8 - 1 - (8 - 1 - j) = j := by omega
  rw [hback, show decide (8 - 1 - j < 8) = true by simp; omega, Bool.true_and]
  split
  · exact (X_pow_eq_monomial _).symm
  · exact map_zero _

/-- The polynomial of the bits in the order of transmission, the low bit of the
first byte first. -/
theorem messagePoly_reverse (data : List (BitVec 8)) :
    messagePoly (data.map BitVec.reverse) =
      ∑ k ∈ Finset.range (8 * data.length),
        if bitAt data k then X ^ (8 * data.length - 1 - k) else 0 := by
  induction data with
  | nil => rfl
  | cons b data ih =>
    have hlen : 8 * (b :: data).length = 8 + 8 * data.length := by
      rw [List.length_cons]
      omega
    rw [List.map_cons, messagePoly, ih, List.length_map, toPoly_reverse_byte, hlen,
      Finset.sum_range_add, Finset.mul_sum]
    refine congrArg₂ (· + ·) (Finset.sum_congr rfl fun j hj => ?_)
      (Finset.sum_congr rfl fun k _ => ?_)
    · have hj : j < 8 := Finset.mem_range.1 hj
      have hexp : 8 + 8 * data.length - 1 - j = 8 * data.length + (7 - j) := by omega
      rw [bitAt_cons_of_lt b data hj, hexp, pow_add, mul_ite, mul_zero]
    · have hexp : 8 + 8 * data.length - 1 - (8 + k) = 8 * data.length - 1 - k := by omega
      rw [bitAt_cons_add, hexp]

end InfinitagNow
