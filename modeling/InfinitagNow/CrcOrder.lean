/-
InfinitagNow/CrcOrder.lean

The order of x for a CRC register.  Nothing here is about one program.

Two errors cancel only if they stand a multiple of the order of x apart.  For a
wide register that order cannot be counted out.  It is certified instead: x to
the n is 1, and x to the n/p is not, for every prime p that divides n
(`powX_ne_of_certificate`).  The powers are computed by squaring (`powBits`),
with a product of registers that shifts and adds (`crcMul`).
-/
import InfinitagNow.Crc

namespace InfinitagNow

open XorVec

variable {w : ℕ} (poly : BitVec w)

/-! ### Products of registers -/

/-- `a` times the `n` low bits of `b`. -/
def crcMul : ℕ → BitVec w → BitVec w → BitVec w
  | 0, _, _ => 0#w
  | n + 1, a, b => (if b.getLsbD 0 then a else 0#w) ^^^ crcMul n (crcBit poly a) (b >>> 1)

theorem crcMul_eq_sum (n : ℕ) (a b : BitVec w) :
    ofBitVec (crcMul poly n a b) =
      ∑ i ∈ Finset.range n, if b.getLsbD i then (mulX poly ^ i) (ofBitVec a) else 0 := by
  induction n generalizing a b with
  | zero => rfl
  | succ n ih =>
    rw [crcMul, ofBitVec_xor, ih, Finset.sum_range_succ', add_comm]
    refine congrArg₂ (· + ·) (Finset.sum_congr rfl fun i _ => ?_) ?_
    · -- one shift of `b` is one step of `a`
      have hpow : (mulX poly ^ (i + 1)) (ofBitVec a) =
          (mulX poly ^ i) (ofBitVec (crcBit poly a)) := by
        rw [pow_succ]
        rfl
      rw [BitVec.getLsbD_ushiftRight, Nat.add_comm 1 i, hpow]
    · cases b.getLsbD 0 <;> rfl

/-- Powers are multiplied by adding the exponents. -/
theorem crcMul_powX {a b : BitVec w} {k l : ℕ} (ha : ofBitVec a = powX poly k)
    (hb : ofBitVec b = powX poly l) : ofBitVec (crcMul poly w a b) = powX poly (k + l) := by
  have hterm : ∀ i, (if b.getLsbD i then (mulX poly ^ i) (ofBitVec a) else 0) =
      (mulX poly ^ k) (if b.getLsbD i then powX poly i else 0) := by
    intro i
    split
    · rw [ha, mulX_pow_powX, mulX_pow_powX, Nat.add_comm]
    · exact (map_zero _).symm
  calc ofBitVec (crcMul poly w a b)
      = (mulX poly ^ k) (ofBitVec b) := by
        rw [crcMul_eq_sum, sum_bits poly b, map_sum]
        exact Finset.sum_congr rfl fun i _ => hterm i
    _ = powX poly (k + l) := by rw [hb, mulX_pow_powX]

/-- x to the `n` by squaring, for `n` of at most `bits` bits. -/
def powBits : ℕ → ℕ → BitVec w
  | 0, _ => 1#w
  | bits + 1, n =>
    let r := powBits bits (n / 2)
    let s := crcMul poly w r r
    if n % 2 = 1 then crcBit poly s else s

theorem powBits_eq {bits n : ℕ} (hn : n < 2 ^ bits) :
    ofBitVec (powBits poly bits n) = powX poly n := by
  induction bits generalizing n with
  | zero =>
    obtain rfl : n = 0 := by simpa using hn
    rfl
  | succ bits ih =>
    have hhalf : n / 2 < 2 ^ bits := by
      rw [pow_succ] at hn
      omega
    have hsq : ofBitVec (crcMul poly w (powBits poly bits (n / 2)) (powBits poly bits (n / 2))) =
        powX poly (n / 2 + n / 2) := crcMul_powX poly (ih hhalf) (ih hhalf)
    rw [powBits]
    split
    · rename_i hodd
      have hsplit : n = 1 + (n / 2 + n / 2) := by omega
      rw [← mulX_ofBitVec, hsq]
      calc mulX poly (powX poly (n / 2 + n / 2))
          = (mulX poly ^ 1) (powX poly (n / 2 + n / 2)) := by rw [pow_one]
        _ = powX poly n := by rw [mulX_pow_powX, ← hsplit]
    · rename_i heven
      have hsplit : n = n / 2 + n / 2 := by omega
      rw [hsq, ← hsplit]

/-! ### The order of x -/

/-- The step has the order of x. -/
theorem mulX_pow_eq_one_iff (n : ℕ) : mulX poly ^ n = 1 ↔ powX poly n = powX poly 0 := by
  constructor
  · intro h
    rw [powX, powX, h, pow_zero]
  · intro h
    ext x
    -- a bit vector is a sum of powers of x
    have hpow : ∀ i, (mulX poly ^ n) (powX poly i) = powX poly i := by
      intro i
      rw [mulX_pow_powX, Nat.add_comm, ← mulX_pow_powX, h, mulX_pow_powX, Nat.add_zero]
    show (mulX poly ^ n) (ofBitVec x) = ofBitVec x
    rw [sum_bits poly x, map_sum]
    refine Finset.sum_congr rfl fun i _ => ?_
    split
    · exact hpow i
    · exact map_zero _

/-- **A certificate for the order of x**: no smaller power is 1. -/
theorem powX_ne_of_certificate {bits : ℕ} {primes : List ℕ} (hprime : ∀ p ∈ primes, p.Prime)
    (hbits : primes.prod < 2 ^ bits) (hone : powBits poly bits primes.prod = 1#w)
    (hcheck : ∀ p ∈ primes, powBits poly bits (primes.prod / p) ≠ 1#w) {d : ℕ} (hpos : 0 < d)
    (hlt : d < primes.prod) : powX poly d ≠ powX poly 0 := by
  have hzero : powX poly 0 = ofBitVec 1#w := rfl
  have horder : orderOf (mulX poly) = primes.prod := by
    apply orderOf_eq_of_pow_and_pow_div_prime (by omega)
    · rw [mulX_pow_eq_one_iff, ← powBits_eq poly hbits, hone, hzero]
    · intro p hp hdvd
      -- a prime that divides the product is one of the factors
      obtain ⟨q, hq, hpq⟩ := (Prime.dvd_prod_iff hp.prime).1 hdvd
      obtain rfl := (Nat.prime_dvd_prime_iff_eq hp (hprime q hq)).1 hpq
      have hle : primes.prod / p < 2 ^ bits := (Nat.div_le_self _ _).trans_lt hbits
      rw [ne_eq, mulX_pow_eq_one_iff, ← powBits_eq poly hle, hzero, ofBitVec_inj]
      exact hcheck p hq
  intro h
  have hdvd := orderOf_dvd_of_pow_eq_one ((mulX_pow_eq_one_iff poly d).2 h)
  rw [horder] at hdvd
  have := Nat.le_of_dvd hpos hdvd
  omega

end InfinitagNow
