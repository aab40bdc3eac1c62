/-
InfinitagNow/ImageHash.lean

The hash of a firmware image (`crc32` in `src/InfinitagNow.cpp`).

The sender hashes the image at once, the receiver row by row as it flashes them
(`finishWindow` in `src/EspNowPush.cpp`).  The reference definition is a
polynomial division: `crc32Ieee` is the remainder of the image, shifted up by 32
bits and with its first 32 bits complemented, modulo 0x04C11DB7, read backwards
and complemented.  The code keeps a register that is shifted down, with a mask
made from its low bit in place of a branch (`crc32Bit_toBitVec`); read backwards
it is the register of the division (`reverse_foldl_crc32Byte`).
-/
import InfinitagNow.CrcPolynomial
import InfinitagNow.Protocol

namespace InfinitagNow

open Polynomial XorVec

/-! ### The reference definition -/

/-- x^26 + x^23 + x^22 + x^16 + x^12 + x^11 + x^10 + x^8 + x^7 + x^5 + x^4 + x^2 + x + 1 -/
def ieee : BitVec 32 := 0x04C11DB7#32

/-- The bits of an image, the low bit of its first byte highest. -/
noncomputable def imagePoly (data : List UInt8) : (ZMod 2)[X] :=
  ∑ k ∈ Finset.range (8 * data.length),
    if bitAt (data.map UInt8.toBitVec) k then X ^ (8 * data.length - 1 - k) else 0

/-- What is left of the image and of 32 ones in front of it. -/
noncomputable def ieeeRemainder (data : List UInt8) : (ZMod 2)[X] :=
  (X ^ 32 * imagePoly data + X ^ (8 * data.length) * ∑ i ∈ Finset.range 32, X ^ i) %ₘ modulus ieee

/-- CRC-32/IEEE: the remainder read backwards, each bit complemented. -/
noncomputable def crc32Ieee (data : List UInt8) : UInt32 :=
  .ofBitVec (.ofFnLE fun i : Fin 32 => (ieeeRemainder data).coeff (31 - i) = 0)

/-! ### The mask -/

/-- `-(int32_t)(crc & 1)` is all ones or zero. -/
theorem neg_low_bit (crc : UInt32) :
    0 - (crc &&& 1) = if crc.toBitVec.getLsbD 0 then 0xFFFFFFFF else 0 := by
  have hand : (crc &&& 1).toBitVec = crc.toBitVec &&& BitVec.twoPow 32 0 := rfl
  have hlow : crc &&& 1 = if crc.toBitVec.getLsbD 0 then 1 else 0 := by
    rw [← UInt32.toBitVec_inj, hand, BitVec.and_twoPow]
    cases crc.toBitVec.getLsbD 0 <;> rfl
  rw [hlow]
  cases crc.toBitVec.getLsbD 0 <;> rfl

/-- With the mask, a step of the reflected register. -/
theorem crc32Bit_toBitVec (crc : UInt32) :
    (crc32Bit crc).toBitVec = crcBitRev ieee crc.toBitVec := by
  have hpoly : ieee.reverse = 0xEDB88320#32 := by decide +kernel
  rw [crc32Bit, neg_low_bit, crcBitRev, hpoly, UInt32.toBitVec_xor]
  congr 1
  cases crc.toBitVec.getLsbD 0 <;> rfl

/-! ### The register -/

/-- A byte is added at the low end and shifted out. -/
theorem reverse_crc32Byte (crc : UInt32) (b : UInt8) :
    (crc32Byte crc b).toBitVec.reverse =
      crcByte ieee crc.toBitVec.reverse b.toBitVec.reverse := by
  have hiter : ∀ (k : ℕ) (x : UInt32),
      (crc32Bit^[k] x).toBitVec.reverse = (crcBit ieee)^[k] x.toBitVec.reverse := by
    intro k
    induction k with
    | zero => exact fun x => rfl
    | succ k ih =>
      intro x
      rw [Function.iterate_succ_apply, ih, crc32Bit_toBitVec, reverse_crcBitRev]
      rfl
  have hbyte : b.toUInt32.toBitVec = b.toBitVec.setWidth 32 := rfl
  rw [crc32Byte, hiter, UInt32.toBitVec_xor, reverse_xor, hbyte, reverse_setWidth (by decide),
    crcByte]

theorem reverse_foldl_crc32Byte (crc : UInt32) (data : List UInt8) :
    (data.foldl crc32Byte crc).toBitVec.reverse =
      crcBytes ieee crc.toBitVec.reverse ((data.map UInt8.toBitVec).map BitVec.reverse) := by
  induction data generalizing crc with
  | nil => rfl
  | cons b data ih =>
    rw [List.foldl_cons, ih, reverse_crc32Byte]
    rfl

/-- Before it is complemented, the register read backwards is the remainder. -/
theorem toPoly_register (data : List UInt8) :
    toPoly (ofBitVec (data.foldl crc32Byte 0xFFFFFFFF).toBitVec.reverse) = ieeeRemainder data := by
  have hones : toPoly (ofBitVec (0xFFFFFFFF : UInt32).toBitVec.reverse) =
      ∑ i ∈ Finset.range 32, (X : (ZMod 2)[X]) ^ i := by
    rw [toPoly_apply]
    refine Finset.sum_congr rfl fun i hi => ?_
    have hbit : ∀ i < 32, (0xFFFFFFFF : UInt32).toBitVec.reverse.getLsbD i = true := by
      decide +kernel
    rw [coeff_ofBitVec, hbit i (Finset.mem_range.1 hi), if_pos rfl, X_pow_eq_monomial]
  rw [reverse_foldl_crc32Byte, toPoly_crcBytes ieee (by decide), messagePoly_reverse, hones]
  simp only [List.length_map]
  rfl

theorem crc32_eq_crc32Ieee (data : List UInt8) : crc32 0 data = crc32Ieee data := by
  rw [← UInt32.toBitVec_inj]
  apply BitVec.eq_of_getLsbD_eq
  intro i hi
  -- bit i comes from coefficient 31 - i, complemented
  have hcoeff : (ieeeRemainder data).coeff (31 - i) =
      if (data.foldl crc32Byte 0xFFFFFFFF).toBitVec.getLsbD i then 1 else 0 := by
    rw [← toPoly_register, coeff_toPoly, coeff_ofBitVec, BitVec.getLsbD_reverse,
      BitVec.getMsbD_eq_getLsbD]
    have hback : 32 - 1 - (31 - i) = i := by omega
    rw [hback, show decide (31 - i < 32) = true by simp; omega, Bool.true_and]
  have hcode : (crc32 0 data).toBitVec = ~~~(data.foldl crc32Byte 0xFFFFFFFF).toBitVec := rfl
  have hspec : (crc32Ieee data).toBitVec.getLsbD i =
      decide ((ieeeRemainder data).coeff (31 - i) = 0) := by
    rw [crc32Ieee, UInt32.toBitVec_ofBitVec, BitVec.getLsbD_eq_getElem hi, BitVec.getElem_ofFnLE]
  rw [hcode, BitVec.getLsbD_not, hspec, hcoeff]
  cases (data.foldl crc32Byte 0xFFFFFFFF).toBitVec.getLsbD i <;> simp [hi]

/-- Hashing piece by piece. -/
theorem foldl_crc32 (crc : UInt32) (chunks : List (List UInt8)) :
    chunks.foldl crc32 crc = crc32 crc chunks.flatten := by
  induction chunks generalizing crc with
  | nil => exact (crc32_nil crc).symm
  | cons xs chunks ih => rw [List.foldl_cons, ih, crc32_append, List.flatten_cons]

/-- **The hash of the image**: however it is cut, hashing the pieces one after
the other gives the hash of the whole, and that is CRC-32/IEEE. -/
theorem crc32_chunks (chunks : List (List UInt8)) :
    chunks.foldl crc32 0 = crc32 0 chunks.flatten ∧
      crc32 0 chunks.flatten = crc32Ieee chunks.flatten :=
  ⟨foldl_crc32 0 chunks, crc32_eq_crc32Ieee chunks.flatten⟩

end InfinitagNow
