/-
InfinitagNow/PacketWords.lean

What `validate` accepts, as a format (`src/InfinitagNow.cpp`).

A packet is a word of 288 bits: 34 bytes and the CRC, high byte first, with the
first sixteen bits complemented (`wordPoly`).  The CRC fits exactly when
x^16+x^12+x^5+1 divides the polynomial of the word (`crc16_eq_iff_dvd`).  These
words are the bytes of the sealed packets and nothing else (`validate_iff_word`).
-/
import InfinitagNow.CrcPolynomial
import InfinitagNow.PacketFormat

namespace InfinitagNow

open Polynomial XorVec

/-! ### Words -/

theorem messagePoly_append (as bs : List (BitVec 8)) :
    messagePoly (as ++ bs) = X ^ (8 * bs.length) * messagePoly as + messagePoly bs := by
  induction as with
  | nil =>
    rw [List.nil_append, messagePoly, mul_zero, zero_add]
  | cons a as ih =>
    have hlen : 8 * (as ++ bs).length = 8 * bs.length + 8 * as.length := by
      rw [List.length_append]
      omega
    rw [List.cons_append, messagePoly, ih, messagePoly, hlen, pow_add]
    ring

theorem toPoly_injective {w : ℕ} {x y : XorVec w} (h : toPoly x = toPoly y) : x = y := by
  apply ext_coeff
  intro i _
  rw [← coeff_toPoly, h, coeff_toPoly]

/-- The stored CRC, read high byte first. -/
theorem messagePoly_getU16 (lo hi : UInt8) :
    messagePoly [hi.toBitVec, lo.toBitVec] = toPoly (ofBitVec (getU16 lo hi).toBitVec) := by
  have hor : (getU16 lo hi).toBitVec =
      lo.toBitVec.setWidth 16 ||| (hi.toBitVec.setWidth 16) <<< 8 := rfl
  have hpoly : messagePoly [hi.toBitVec, lo.toBitVec] =
      X ^ 8 * toPoly (ofBitVec hi.toBitVec) + toPoly (ofBitVec lo.toBitVec) := by
    simp [messagePoly]
  rw [hpoly, hor]
  ext i
  rw [coeff_add, coeff_X_pow_mul', coeff_toPoly, coeff_toPoly, coeff_toPoly, coeff_ofBitVec,
    coeff_ofBitVec, coeff_ofBitVec, BitVec.getLsbD_or, BitVec.getLsbD_shiftLeft]
  by_cases hlow : i < 8
  · -- the low byte
    rw [if_neg (by omega), zero_add]
    simp [hlow, show i < 16 by omega, -BitVec.getLsbD_eq_getElem]
  · -- the high byte, or nothing
    rw [if_pos (by omega), BitVec.getLsbD_setWidth, BitVec.getLsbD_setWidth,
      BitVec.getLsbD_of_ge lo.toBitVec i (by omega)]
    by_cases hhigh : i < 16
    · simp [hlow, hhigh, show i - 8 < 16 by omega, -BitVec.getLsbD_eq_getElem]
    · rw [BitVec.getLsbD_of_ge hi.toBitVec (i - 8) (by omega)]
      simp

/-- Sixteen ones in front of `n` bytes. -/
noncomputable def leadingOnes (n : ℕ) : (ZMod 2)[X] :=
  X ^ (8 * n) * ∑ i ∈ Finset.range 16, X ^ i

/-- The polynomial of a body and its CRC on the air: the CRC high byte first, and
the first sixteen bits complemented. -/
noncomputable def wordPoly (body : List UInt8) (lo hi : UInt8) : (ZMod 2)[X] :=
  messagePoly ((body ++ [hi, lo]).map UInt8.toBitVec) + leadingOnes body.length

/-- The register holds the remainder of the body, shifted up by the width, and
of sixteen ones in front of it. -/
theorem toPoly_crc16 (body : List UInt8) :
    toPoly (ofBitVec (crc16 body).toBitVec) =
      (X ^ 16 * messagePoly (body.map UInt8.toBitVec) + leadingOnes body.length) %ₘ
        modulus ccitt := by
  have hones : toPoly (ofBitVec 0xFFFF#16) = ∑ i ∈ Finset.range 16, (X : (ZMod 2)[X]) ^ i := by
    rw [toPoly_apply]
    refine Finset.sum_congr rfl fun i hi => ?_
    have hbit : ∀ i < 16, (0xFFFF#16 : BitVec 16).getLsbD i = true := by decide
    rw [coeff_ofBitVec, hbit i (Finset.mem_range.1 hi), if_pos rfl, X_pow_eq_monomial]
  rw [crc16_toBitVec, toPoly_crcBytes ccitt (by decide), hones, List.length_map, leadingOnes]

/-- **The CRC fits** exactly when the word is a multiple of x^16+x^12+x^5+1. -/
theorem crc16_eq_iff_dvd (body : List UInt8) (lo hi : UInt8) :
    getU16 lo hi = crc16 body ↔ modulus ccitt ∣ wordPoly body lo hi := by
  have hsum := toPoly_crc16 body
  have hword : wordPoly body lo hi =
      X ^ 16 * messagePoly (body.map UInt8.toBitVec) + leadingOnes body.length +
        toPoly (ofBitVec (getU16 lo hi).toBitVec) := by
    rw [wordPoly, List.map_append, messagePoly_append, ← messagePoly_getU16]
    simp only [List.map_cons, List.map_nil, List.length_cons, List.length_nil]
    ring
  -- over the field of two elements, adding is subtracting
  have hneg : toPoly (ofBitVec (getU16 lo hi).toBitVec) =
      -toPoly (ofBitVec (getU16 lo hi).toBitVec) := by
    rw [eq_neg_iff_add_eq_zero, ← map_add, XorVec.add_self, map_zero]
  rw [hword, hneg, ← sub_eq_add_neg]
  constructor
  · intro h
    rw [h, hsum, ← neg_sub, dvd_neg]
    exact dvd_modByMonic_sub _ _
  · intro h
    have hmod := modByMonic_eq_of_dvd_sub (monic_modulus ccitt) h
    rw [← hsum, toPoly_mod_modulus] at hmod
    exact (UInt16.toBitVec_inj.1 (ofBitVec_inj.1 (toPoly_injective hmod))).symm

/-! ### Packets -/

/-- The packets that a station takes in. -/
def Packet.Acceptable (p : Packet) : Prop :=
  p.version = protocolVersion ∨ isRescueMsg p.msgType = true

/-- **The format**: the buffers that pass the check are the bytes of sealed
packets of the right version (of any version, for a rescue message), each of one
packet; they are the words of 36 bytes, with such a version, that
x^16+x^12+x^5+1 divides. -/
theorem validate_iff_word (data : List UInt8) :
    (validate data = true ↔ ∃! p : Packet, p.Acceptable ∧ p.seal = p ∧ p.bytes = data) ∧
    (validate data = true ↔ data.length = 36 ∧ (Packet.ofBytes data).Acceptable ∧
      modulus ccitt ∣ wordPoly (data.take 34) (data.getD 34 0) (data.getD 35 0)) := by
  constructor
  · constructor
    · intro h
      obtain ⟨hlen, hversion, hcrc⟩ := validate_iff.1 h
      have hbytes := Packet.bytes_ofBytes hlen
      refine ⟨Packet.ofBytes data, ⟨hversion, ?_, hbytes⟩, ?_⟩
      · rw [Packet.seal, hbytes, ← hcrc]
        rfl
      · -- the packet is copied out of the buffer
        rintro p ⟨-, -, rfl⟩
        exact (Packet.ofBytes_bytes p).symm
    · rintro ⟨p, ⟨hp, hseal, rfl⟩, -⟩
      rw [← hseal]
      exact validate_seal hp
  · rw [validate_iff, crc16_eq_iff_dvd]
    rfl

end InfinitagNow
