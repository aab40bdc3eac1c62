/-
InfinitagNow/Crc.lean

Bit-serial CRCs of any width and polynomial, and the errors they detect.
Nothing here is about one program.

The bit vectors of a width form a group under exclusive or (`XorVec`), and one
step of the register, "multiply by x", is an endomorphism of it (`mulX`).  The
difference of two checksums is therefore a sum of powers of x, one for each bit
that differs (`crcBytes_add`, `sum_bits`).  Which sums are zero is decided by
three criteria: an odd number of powers (`sum_pow_ne_zero_of_odd`), two powers
closer than the order of x (`sum_pow_ne_zero_of_pair`), powers within one width
of each other (`sum_pow_ne_zero_of_burst`).
-/
import Mathlib

namespace InfinitagNow

variable {w : ℕ}

/-! ### Bit vectors under exclusive or -/

/-- The bit vectors of width `w`, added bit by bit. -/
def XorVec (w : ℕ) : Type := BitVec w

instance : DecidableEq (XorVec w) := inferInstanceAs (DecidableEq (BitVec w))

namespace XorVec

def ofBitVec (x : BitVec w) : XorVec w := x

instance : Add (XorVec w) := ⟨fun x y => ofBitVec (BitVec.xor x y)⟩
instance : Zero (XorVec w) := ⟨ofBitVec 0#w⟩
instance : Neg (XorVec w) := ⟨fun x => x⟩

instance : AddCommGroup (XorVec w) where
  add_assoc := BitVec.xor_assoc
  zero_add x := BitVec.zero_xor (x := x)
  add_zero x := BitVec.xor_zero (x := x)
  neg_add_cancel x := BitVec.xor_self (x := x)
  add_comm := BitVec.xor_comm
  nsmul := nsmulRec
  zsmul := zsmulRec

theorem ofBitVec_xor (x y : BitVec w) : ofBitVec (x ^^^ y) = ofBitVec x + ofBitVec y := rfl

theorem ofBitVec_inj {x y : BitVec w} : ofBitVec x = ofBitVec y ↔ x = y := Iff.rfl

@[simp] theorem add_self (x : XorVec w) : x + x = 0 := BitVec.xor_self (x := x)

theorem add_eq_zero_iff {x y : XorVec w} : x + y = 0 ↔ x = y := by
  constructor
  · intro h
    calc x = x + y + y := by rw [add_assoc, add_self, add_zero]
      _ = y := by rw [h, zero_add]
  · rintro rfl
    exact add_self x

/-- Bit `i`, as an element of the field of two. -/
def coeff (i : ℕ) : XorVec w →+ ZMod 2 where
  toFun x := if BitVec.getLsbD x i then 1 else 0
  map_zero' := by
    show (if BitVec.getLsbD 0#w i then (1 : ZMod 2) else 0) = 0
    simp
  map_add' x y := by
    show (if BitVec.getLsbD (BitVec.xor x y) i then (1 : ZMod 2) else 0) = _
    have hxor : BitVec.getLsbD (BitVec.xor x y) i =
        (BitVec.getLsbD x i ^^ BitVec.getLsbD y i) := BitVec.getLsbD_xor
    rw [hxor]
    cases BitVec.getLsbD x i <;> cases BitVec.getLsbD y i <;> decide

theorem coeff_ofBitVec (i : ℕ) (x : BitVec w) :
    coeff i (ofBitVec x) = if x.getLsbD i then 1 else 0 := rfl

theorem ext_coeff {x y : XorVec w} (h : ∀ i < w, coeff i x = coeff i y) : x = y := by
  apply BitVec.eq_of_getLsbD_eq
  intro i hi
  have hi' : (if BitVec.getLsbD x i then (1 : ZMod 2) else 0) =
      if BitVec.getLsbD y i then 1 else 0 := h i hi
  cases hx : BitVec.getLsbD x i <;> cases hy : BitVec.getLsbD y i <;> simp [hx, hy] at hi' ⊢

/-- The number of bits set, modulo two. -/
def parity : XorVec w →+ ZMod 2 := ∑ i ∈ Finset.range w, coeff i

theorem parity_apply (x : XorVec w) : parity x = ∑ i ∈ Finset.range w, coeff i x := by
  simp [parity]

end XorVec

open XorVec

/-! ### The register -/

/-- One step of the register: multiply by x, reduce by x^w + `poly`. -/
def crcBit (poly crc : BitVec w) : BitVec w :=
  if crc.msb then (crc <<< 1) ^^^ poly else crc <<< 1

theorem crcBit_xor (poly x y : BitVec w) :
    crcBit poly (x ^^^ y) = crcBit poly x ^^^ crcBit poly y := by
  unfold crcBit
  rw [BitVec.msb_xor, BitVec.shiftLeft_xor_distrib]
  cases x.msb <;> cases y.msb <;> simp only [Bool.xor_false, Bool.xor_true, Bool.not_true,
    Bool.not_false, Bool.false_eq_true, if_true, if_false]
  · ac_rfl
  · ac_rfl
  · show _ = (x <<< 1 ^^^ poly) ^^^ (y <<< 1 ^^^ poly)
    calc x <<< 1 ^^^ y <<< 1
        = x <<< 1 ^^^ y <<< 1 ^^^ (poly ^^^ poly) := by simp
      _ = (x <<< 1 ^^^ poly) ^^^ (y <<< 1 ^^^ poly) := by ac_rfl

/-- The step as an endomorphism. -/
def mulX (poly : BitVec w) : AddMonoid.End (XorVec w) where
  toFun x := ofBitVec (crcBit poly x)
  map_zero' := by
    show ofBitVec (crcBit poly 0#w) = ofBitVec 0#w
    simp [crcBit]
  map_add' := crcBit_xor poly

theorem mulX_ofBitVec (poly x : BitVec w) :
    mulX poly (ofBitVec x) = ofBitVec (crcBit poly x) := rfl

theorem mulX_pow_ofBitVec (poly x : BitVec w) (k : ℕ) :
    (mulX poly ^ k) (ofBitVec x) = ofBitVec ((crcBit poly)^[k] x) := by
  induction k generalizing x with
  | zero => rfl
  | succ k ih =>
    rw [pow_succ]
    exact ih (crcBit poly x)

/-- x to the `k`, reduced. -/
def powX (poly : BitVec w) (k : ℕ) : XorVec w := (mulX poly ^ k) (ofBitVec 1#w)

theorem mulX_pow_powX (poly : BitVec w) (a k : ℕ) :
    (mulX poly ^ a) (powX poly k) = powX poly (a + k) := by
  rw [powX, powX, pow_add]
  rfl

/-- A register whose top `k` bits are clear is only shifted. -/
theorem iterate_crcBit (poly x : BitVec w) {k : ℕ} (h : ∀ i, w ≤ i + k → x.getLsbD i = false) :
    (crcBit poly)^[k] x = x <<< k := by
  induction k with
  | zero => simp
  | succ k ih =>
    rw [Function.iterate_succ_apply', ih fun i hi => h i (by omega), crcBit]
    have hmsb : (x <<< k).msb = false := by
      rw [BitVec.msb_eq_getLsbD_last, BitVec.getLsbD_shiftLeft]
      by_cases hk : w - 1 < k
      · simp [hk]
      · rw [h (w - 1 - k) (by omega), Bool.and_false]
    rw [hmsb, if_neg (by decide), ← BitVec.shiftLeft_add]

/-- Below the width, a power of x is a single bit. -/
theorem powX_of_lt (poly : BitVec w) {k : ℕ} (hk : k < w) :
    powX poly k = ofBitVec (BitVec.twoPow w k) := by
  rw [powX, mulX_pow_ofBitVec, iterate_crcBit]
  · rw [BitVec.twoPow_eq]
  · intro i hi
    simp
    omega

/-- A bit vector is the sum of its bits. -/
theorem sum_bits (poly x : BitVec w) :
    ofBitVec x = ∑ i ∈ Finset.range w, if x.getLsbD i then powX poly i else 0 := by
  apply ext_coeff
  intro j hj
  rw [map_sum, Finset.sum_eq_single j]
  · rw [coeff_ofBitVec]
    cases x.getLsbD j
    · simp
    · simp [powX_of_lt poly hj, coeff_ofBitVec, hj]
  · intro i hi hij
    cases x.getLsbD i
    · simp
    · simp [powX_of_lt poly (Finset.mem_range.1 hi), coeff_ofBitVec, hij]
  · intro h
    exact absurd (Finset.mem_range.2 hj) h

/-! ### Which sums of powers vanish -/

section Detection

variable {poly : BitVec w}

theorem eq_zero_of_crcBit (hodd : poly.getLsbD 0 = true) {x : BitVec w}
    (hx : crcBit poly x = 0#w) : x = 0#w := by
  have hmsb : x.msb = false := by
    by_contra h
    have h0 : (x <<< 1 ^^^ poly).getLsbD 0 = false := by
      have hmsb : x.msb = true := by simpa using h
      rw [crcBit, if_pos hmsb] at hx
      rw [hx, BitVec.getLsbD_zero]
    rw [BitVec.getLsbD_xor, hodd] at h0
    simp at h0
  apply BitVec.eq_of_getLsbD_eq
  intro i hi
  rw [BitVec.getLsbD_zero]
  by_cases hlast : i = w - 1
  · rw [hlast, ← BitVec.msb_eq_getLsbD_last, hmsb]
  · have h : (x <<< 1).getLsbD (i + 1) = false := by
      rw [crcBit, hmsb, if_neg (by decide)] at hx
      rw [hx, BitVec.getLsbD_zero]
    have hlt : i + 1 < w := by omega
    rw [BitVec.getLsbD_shiftLeft] at h
    simpa only [hlt, decide_true, Bool.true_and, Nat.add_sub_cancel, Nat.not_lt_of_le
      (Nat.le_add_left 1 i), decide_false, Bool.not_false] using h

/-- A polynomial with a constant term loses nothing. -/
theorem mulX_injective (hodd : poly.getLsbD 0 = true) : Function.Injective (mulX poly) := by
  rw [injective_iff_map_eq_zero]
  intro x hx
  exact eq_zero_of_crcBit hodd hx

theorem mulX_pow_injective (hodd : poly.getLsbD 0 = true) (k : ℕ) :
    Function.Injective (mulX poly ^ k) := by
  induction k with
  | zero => exact Function.injective_id
  | succ k ih =>
    rw [pow_succ]
    exact ih.comp (mulX_injective hodd)

/-- **Burst errors**: powers less than one width apart do not cancel. -/
theorem sum_pow_ne_zero_of_burst (hodd : poly.getLsbD 0 = true) {S : Finset ℕ} {a : ℕ}
    (hS : S.Nonempty) (hburst : ∀ k ∈ S, a ≤ k ∧ k < a + w) : ∑ k ∈ S, powX poly k ≠ 0 := by
  -- divided by x^a, the sum is the bit vector with the bits of S
  have hshift : ∑ k ∈ S, powX poly k = (mulX poly ^ a) (∑ k ∈ S, powX poly (k - a)) := by
    rw [map_sum]
    refine Finset.sum_congr rfl fun k hk => ?_
    rw [mulX_pow_powX, Nat.add_sub_cancel' (hburst k hk).1]
  rw [hshift, ne_eq, map_eq_zero_iff _ (mulX_pow_injective hodd a)]
  obtain ⟨k, hk⟩ := hS
  intro hzero
  have hbit := congrArg (coeff (k - a)) hzero
  rw [map_sum, map_zero, Finset.sum_eq_single k] at hbit
  · have hlt : k - a < w := by
      have := hburst k hk
      omega
    simp [powX_of_lt poly hlt, coeff_ofBitVec, hlt] at hbit
  · intro l hl hlk
    have hl' := hburst l hl
    have hk' := hburst k hk
    have hne : l - a ≠ k - a := by omega
    simp [powX_of_lt poly (show l - a < w by omega), coeff_ofBitVec, hne]
  · exact fun h => absurd hk h

/-- **Two errors** closer than the order of x do not cancel. -/
theorem sum_pow_ne_zero_of_pair (hodd : poly.getLsbD 0 = true) {n : ℕ}
    (horder : ∀ d, 0 < d → d < n → powX poly d ≠ powX poly 0) {S : Finset ℕ}
    (hS : S.card = 2) (hlt : ∀ k ∈ S, k < n) : ∑ k ∈ S, powX poly k ≠ 0 := by
  obtain ⟨a, b, hab, rfl⟩ := Finset.card_eq_two.1 hS
  rw [Finset.sum_pair hab, ne_eq, add_eq_zero_iff]
  -- divide by the smaller power
  have key : ∀ {a b : ℕ}, a < b → b < n → powX poly a ≠ powX poly b := by
    intro a b hlt hb h
    refine horder (b - a) (by omega) (by omega) (mulX_pow_injective hodd a ?_)
    rw [mulX_pow_powX, mulX_pow_powX, Nat.add_sub_cancel' hlt.le, Nat.add_zero, h]
  rcases Nat.lt_or_gt_of_ne hab with h | h
  · exact key h (hlt b (by simp))
  · exact fun heq => key h (hlt a (by simp)) heq.symm

/-- Shifting drops the top bit. -/
theorem parity_shiftLeft (x : BitVec w) :
    parity (ofBitVec (x <<< 1)) = parity (ofBitVec x) + if x.msb then 1 else 0 := by
  obtain _ | w := w
  · simp [parity, BitVec.msb_eq_getLsbD_last]
  have hlow : ∑ i ∈ Finset.range w, coeff (i + 1) (ofBitVec (x <<< 1)) =
      ∑ i ∈ Finset.range w, coeff i (ofBitVec x) := by
    refine Finset.sum_congr rfl fun i hi => ?_
    have hi : i < w := Finset.mem_range.1 hi
    have hbit : (x <<< 1).getLsbD (i + 1) = x.getLsbD i := by
      simp [hi, -BitVec.getLsbD_eq_getElem]
    rw [coeff_ofBitVec, coeff_ofBitVec, hbit]
  rw [parity_apply, parity_apply, Finset.sum_range_succ', Finset.sum_range_succ, hlow,
    coeff_ofBitVec, coeff_ofBitVec, BitVec.msb_eq_getLsbD_last, Nat.add_sub_cancel]
  have htwo : (1 : ZMod 2) + 1 = 0 := by decide
  cases x.getLsbD w <;> simp [add_assoc, htwo]

/-- A step keeps the parity when x^w + `poly` has an even number of terms. -/
theorem parity_mulX (hpoly : parity (ofBitVec poly) = 1) (x : BitVec w) :
    parity (mulX poly (ofBitVec x)) = parity (ofBitVec x) := by
  have htwo : (1 : ZMod 2) + 1 = 0 := by decide
  rw [mulX_ofBitVec, crcBit]
  have hshift := parity_shiftLeft x
  cases hmsb : x.msb
  · simpa [hmsb] using hshift
  · rw [if_pos rfl, ofBitVec_xor, map_add, hpoly, hshift, hmsb, if_pos rfl, add_assoc, htwo,
      add_zero]

theorem parity_powX (hpoly : parity (ofBitVec poly) = 1) (k : ℕ) : parity (powX poly k) = 1 := by
  have hw : 0 < w := by
    by_contra h
    obtain rfl : w = 0 := by omega
    simp [parity] at hpoly
  induction k with
  | zero =>
    rw [powX_of_lt poly hw, parity_apply, Finset.sum_eq_single 0]
    · simp [coeff_ofBitVec, hw]
    · intro i _ hi
      simp [coeff_ofBitVec, hi.symm]
    · intro h
      exact absurd (Finset.mem_range.2 hw) h
  | succ k ih =>
    have hstep : powX poly (k + 1) = mulX poly (powX poly k) := by
      rw [powX, pow_succ']
      rfl
    rw [hstep]
    exact (parity_mulX hpoly (powX poly k)).trans ih

/-- **An odd number of errors** does not cancel. -/
theorem sum_pow_ne_zero_of_odd (hpoly : parity (ofBitVec poly) = 1) {S : Finset ℕ}
    (hS : Odd S.card) : ∑ k ∈ S, powX poly k ≠ 0 := by
  intro h
  have hpar : parity (∑ k ∈ S, powX poly k) = (S.card : ZMod 2) := by
    rw [map_sum, Finset.sum_congr rfl fun k _ => parity_powX hpoly k]
    simp
  rw [h, map_zero] at hpar
  have hodd : (S.card : ZMod 2) = 1 := ZMod.natCast_eq_one_iff_odd.2 hS
  rw [hodd] at hpar
  exact absurd hpar (by decide)

end Detection

/-! ### Byte strings -/

/-- A byte is added at the top of the register and shifted through. -/
def crcByte (poly crc : BitVec w) (b : BitVec 8) : BitVec w :=
  (crcBit poly)^[8] (crc ^^^ (b.setWidth w <<< (w - 8)))

def crcBytes (poly crc : BitVec w) (data : List (BitVec 8)) : BitVec w :=
  data.foldl (crcByte poly) crc

/-- Bit `k` of a byte string, the low bit of the first byte first. -/
def bitAt (es : List (BitVec 8)) (k : ℕ) : Bool := (es.getD (k / 8) 0).getLsbD (k % 8)

/-- The places where a byte string has a one. -/
def setBits (es : List (BitVec 8)) : Finset ℕ :=
  (Finset.range (8 * es.length)).filter fun k => bitAt es k

/-- The sum of the powers of x at the ones of a byte string, first byte lowest. -/
def polyOf (poly : BitVec w) : List (BitVec 8) → XorVec w
  | [] => 0
  | e :: es => ofBitVec (e.setWidth w) + (mulX poly ^ 8) (polyOf poly es)

theorem bitAt_cons_of_lt (e : BitVec 8) (es : List (BitVec 8)) {k : ℕ} (hk : k < 8) :
    bitAt (e :: es) k = e.getLsbD k := by
  rw [bitAt, Nat.div_eq_of_lt hk, Nat.mod_eq_of_lt hk, List.getD_cons_zero]

theorem bitAt_cons_add (e : BitVec 8) (es : List (BitVec 8)) (k : ℕ) :
    bitAt (e :: es) (8 + k) = bitAt es k := by
  have hdiv : (8 + k) / 8 = k / 8 + 1 := by omega
  have hmod : (8 + k) % 8 = k % 8 := by omega
  rw [bitAt, hdiv, hmod, List.getD_cons_succ, bitAt]

theorem sum_setBits_cons {M : Type*} [AddCommMonoid M] (e : BitVec 8) (es : List (BitVec 8))
    (f : ℕ → M) :
    ∑ k ∈ setBits (e :: es), f k =
      (∑ j ∈ Finset.range 8, if e.getLsbD j then f j else 0) + ∑ k ∈ setBits es, f (8 + k) := by
  have hlen : 8 * (e :: es).length = 8 + 8 * es.length := by
    rw [List.length_cons]
    omega
  rw [setBits, setBits, Finset.sum_filter, Finset.sum_filter, hlen, Finset.sum_range_add]
  refine congrArg₂ (· + ·) (Finset.sum_congr rfl fun j hj => ?_)
    (Finset.sum_congr rfl fun k _ => ?_)
  · rw [bitAt_cons_of_lt e es (Finset.mem_range.1 hj)]
  · rw [bitAt_cons_add]

/-- How many bits of a byte are set. -/
def popcount (e : BitVec 8) : ℕ := ∑ j ∈ Finset.range 8, if e.getLsbD j then 1 else 0

theorem card_setBits (es : List (BitVec 8)) : (setBits es).card = (es.map popcount).sum := by
  induction es with
  | nil => rfl
  | cons e es ih =>
    rw [Finset.card_eq_sum_ones, sum_setBits_cons, ← Finset.card_eq_sum_ones, ih,
      List.map_cons, List.sum_cons, popcount]

/-- The number of ones does not depend on the order of the bytes. -/
theorem card_setBits_perm {es fs : List (BitVec 8)} (h : es.Perm fs) :
    (setBits es).card = (setBits fs).card := by
  rw [card_setBits, card_setBits]
  exact (h.map popcount).sum_eq

theorem mem_setBits {es : List (BitVec 8)} {k : ℕ} :
    k ∈ setBits es ↔ k / 8 < es.length ∧ (es.getD (k / 8) 0).getLsbD (k % 8) = true := by
  rw [setBits, Finset.mem_filter, Finset.mem_range, bitAt, Nat.div_lt_iff_lt_mul (by decide),
    Nat.mul_comm]

/-- A byte that is not zero has a one. -/
theorem exists_mem_setBits {es : List (BitVec 8)} {n : ℕ} (h : es.getD n 0 ≠ 0) :
    ∃ k ∈ setBits es, k / 8 = n := by
  have hn : n < es.length := by
    by_contra hn
    rw [List.getD_eq_default _ _ (not_lt.1 hn)] at h
    exact h rfl
  obtain ⟨j, hj, hbit⟩ : ∃ j < 8, (es.getD n 0).getLsbD j = true := by
    by_contra hno
    push Not at hno
    apply h
    apply BitVec.eq_of_getLsbD_eq
    intro j hj
    rw [show BitVec.getLsbD (0 : BitVec 8) j = false from BitVec.getLsbD_zero]
    exact Bool.not_eq_true _ ▸ hno j hj
  have hdiv : (8 * n + j) / 8 = n := by omega
  have hmod : (8 * n + j) % 8 = j := by omega
  exact ⟨8 * n + j, mem_setBits.2 ⟨by rwa [hdiv], by rwa [hdiv, hmod]⟩, hdiv⟩

section Bytes

variable (poly : BitVec w)

/-- A byte is the sum of its eight bits. -/
theorem sum_byte (hw : 8 ≤ w) (e : BitVec 8) :
    ofBitVec (e.setWidth w) = ∑ j ∈ Finset.range 8, if e.getLsbD j then powX poly j else 0 := by
  obtain ⟨v, rfl⟩ := Nat.exists_eq_add_of_le hw
  rw [sum_bits poly, Finset.sum_range_add, Finset.sum_eq_zero (s := Finset.range v), add_zero]
  · refine Finset.sum_congr rfl fun j hj => ?_
    have hj : j < 8 := Finset.mem_range.1 hj
    have hbit : (e.setWidth (8 + v)).getLsbD j = e.getLsbD j := by
      rw [BitVec.getLsbD_setWidth]
      simp [show j < 8 + v by omega, -BitVec.getLsbD_eq_getElem]
    rw [hbit]
  · intro j _
    rw [BitVec.getLsbD_setWidth, BitVec.getLsbD_of_ge e (8 + j) (by omega), Bool.and_false]
    rfl

theorem polyOf_eq_sum (hw : 8 ≤ w) (es : List (BitVec 8)) :
    polyOf poly es = ∑ k ∈ setBits es, powX poly k := by
  induction es with
  | nil => rfl
  | cons e es ih =>
    rw [polyOf, ih, sum_setBits_cons, sum_byte poly hw, map_sum]
    congr 1
    exact Finset.sum_congr rfl fun k _ => mulX_pow_powX poly 8 k

theorem polyOf_eq_zero {es : List (BitVec 8)} (h : ∀ e ∈ es, e = 0) : polyOf poly es = 0 := by
  induction es with
  | nil => rfl
  | cons e es ih =>
    have hzero : ofBitVec (e.setWidth w) = 0 := by
      rw [h e (by simp)]
      exact BitVec.setWidth_zero ..
    rw [polyOf, hzero, ih fun x hx => h x (List.mem_cons_of_mem _ hx), map_zero, add_zero]

theorem polyOf_append (es fs : List (BitVec 8)) :
    polyOf poly (es ++ fs) = polyOf poly es + (mulX poly ^ (8 * es.length)) (polyOf poly fs) := by
  induction es with
  | nil => simp [polyOf]
  | cons e es ih =>
    have hpow : ∀ x : XorVec w, (mulX poly ^ 8) ((mulX poly ^ (8 * es.length)) x) =
        (mulX poly ^ (8 * (e :: es).length)) x := by
      intro x
      rw [List.length_cons, Nat.mul_succ, Nat.add_comm, pow_add]
      rfl
    rw [List.cons_append, polyOf, ih, map_add, hpow, polyOf, add_assoc]

theorem crcByte_add (hw : 8 ≤ w) (c c' : BitVec w) (b b' : BitVec 8) :
    ofBitVec (crcByte poly c b) + ofBitVec (crcByte poly c' b') =
      (mulX poly ^ 8) (ofBitVec c + ofBitVec c') +
        (mulX poly ^ w) (ofBitVec ((b ^^^ b').setWidth w)) := by
  have htop : ofBitVec ((b ^^^ b').setWidth w <<< (w - 8)) =
      (mulX poly ^ (w - 8)) (ofBitVec ((b ^^^ b').setWidth w)) := by
    rw [mulX_pow_ofBitVec, iterate_crcBit]
    intro i hi
    rw [BitVec.getLsbD_setWidth, BitVec.getLsbD_of_ge _ i (by omega), Bool.and_false]
  have hpow : ∀ x : XorVec w, (mulX poly ^ 8) ((mulX poly ^ (w - 8)) x) = (mulX poly ^ w) x := by
    intro x
    have hsum : mulX poly ^ w = mulX poly ^ 8 * mulX poly ^ (w - 8) := by
      rw [← pow_add, Nat.add_sub_cancel' hw]
    rw [hsum]
    rfl
  rw [← hpow, ← htop, ← map_add, crcByte, crcByte, ← mulX_pow_ofBitVec, ← mulX_pow_ofBitVec,
    ← map_add, ← ofBitVec_xor, ← ofBitVec_xor, ← ofBitVec_xor]
  congr 2
  rw [BitVec.setWidth_xor, BitVec.shiftLeft_xor_distrib]
  ac_rfl

/-- **The difference of two checksums** depends on the bits that differ only. -/
theorem crcBytes_add (hw : 8 ≤ w) {as bs : List (BitVec 8)} (hlen : as.length = bs.length)
    (c c' : BitVec w) :
    ofBitVec (crcBytes poly c as) + ofBitVec (crcBytes poly c' bs) =
      (mulX poly ^ (8 * as.length)) (ofBitVec c + ofBitVec c') +
        (mulX poly ^ w) (polyOf poly (List.zipWith (· ^^^ ·) as bs).reverse) := by
  induction as generalizing bs c c' with
  | nil =>
    obtain rfl := List.length_eq_zero_iff.1 hlen.symm
    simp [crcBytes, polyOf]
  | cons a as ih =>
    obtain _ | ⟨b, bs⟩ := bs
    · simp at hlen
    have hlen : as.length = bs.length := by simpa using hlen
    have hrest := ih hlen (crcByte poly c a) (crcByte poly c' b)
    have hzip : (List.zipWith (· ^^^ ·) as bs).length = as.length := by simp [hlen]
    have hbyte := crcByte_add poly hw c c' a b
    have hpow : ∀ x : XorVec w, (mulX poly ^ (8 * as.length)) ((mulX poly ^ 8) x) =
        (mulX poly ^ (8 * (a :: as).length)) x := by
      intro x
      rw [List.length_cons, Nat.mul_succ, pow_add]
      rfl
    -- powers of one endomorphism commute
    have hcomm : ∀ x : XorVec w, (mulX poly ^ (8 * as.length)) ((mulX poly ^ w) x) =
        (mulX poly ^ w) ((mulX poly ^ (8 * as.length)) x) := by
      intro x
      show (mulX poly ^ (8 * as.length) * mulX poly ^ w) x = _
      rw [← pow_add, Nat.add_comm, pow_add]
      rfl
    -- the first byte moves on by all the bytes behind it
    calc ofBitVec (crcBytes poly c (a :: as)) + ofBitVec (crcBytes poly c' (b :: bs))
        = (mulX poly ^ (8 * as.length)) ((mulX poly ^ 8) (ofBitVec c + ofBitVec c') +
            (mulX poly ^ w) (ofBitVec ((a ^^^ b).setWidth w))) +
          (mulX poly ^ w) (polyOf poly (List.zipWith (· ^^^ ·) as bs).reverse) := by
          rw [← hbyte]
          exact hrest
      _ = (mulX poly ^ (8 * (a :: as).length)) (ofBitVec c + ofBitVec c') +
          ((mulX poly ^ w) (polyOf poly (List.zipWith (· ^^^ ·) as bs).reverse) +
            (mulX poly ^ w) ((mulX poly ^ (8 * as.length))
              (ofBitVec ((a ^^^ b).setWidth w)))) := by
          rw [map_add, hcomm, hpow]
          abel
      _ = _ := by
          rw [← map_add, List.zipWith_cons_cons, List.reverse_cons, polyOf_append,
            List.length_reverse, hzip, polyOf, polyOf, map_zero, add_zero]

end Bytes

end InfinitagNow
