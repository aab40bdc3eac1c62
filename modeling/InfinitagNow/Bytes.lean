/-
InfinitagNow/Bytes.lean

Byte strings: comparison, addresses and the timestamps of a wrapping clock.
Nothing here is about one program.

`memcmp` is the C library's comparison of two byte strings; on strings of equal
length it is the order of the numbers they spell big-endian (`memcmp_lt_iff`),
which is what makes "the numerically smaller address" well defined.
-/
import Mathlib

namespace InfinitagNow

/-! ### Comparing byte strings -/

/-- The sign of `memcmp(a, b, n)`, as an `Ordering`. -/
def memcmp : List UInt8 → List UInt8 → Ordering
  | a :: as, b :: bs => if a = b then memcmp as bs else if a < b then .lt else .gt
  | _, _ => .eq

/-- The number a byte string spells, first byte most significant. -/
def bigEndian : List UInt8 → ℕ
  | [] => 0
  | b :: bs => b.toNat * 256 ^ bs.length + bigEndian bs

theorem bigEndian_lt (l : List UInt8) : bigEndian l < 256 ^ l.length := by
  induction l with
  | nil => simp [bigEndian]
  | cons b bs ih =>
    have hb : b.toNat ≤ 255 := by have := b.toNat_lt; omega
    calc bigEndian (b :: bs)
        < b.toNat * 256 ^ bs.length + 256 ^ bs.length := by
          simpa [bigEndian] using ih
      _ ≤ 255 * 256 ^ bs.length + 256 ^ bs.length := by gcongr
      _ = 256 ^ (b :: bs).length := by simp [pow_succ]; ring

/-- The first differing byte decides. -/
theorem bigEndian_cons_lt {a b : UInt8} {as bs : List UInt8} (hlen : as.length = bs.length)
    (hab : a < b) : bigEndian (a :: as) < bigEndian (b :: bs) := by
  have hab' : a.toNat + 1 ≤ b.toNat := UInt8.lt_iff_toNat_lt.1 hab
  calc bigEndian (a :: as)
      < a.toNat * 256 ^ as.length + 256 ^ as.length := by
        simpa [bigEndian] using bigEndian_lt as
    _ = (a.toNat + 1) * 256 ^ as.length := by ring
    _ ≤ b.toNat * 256 ^ as.length := by gcongr
    _ ≤ bigEndian (b :: bs) := by simp [bigEndian, hlen]

theorem memcmp_eq_iff {as bs : List UInt8} (hlen : as.length = bs.length) :
    memcmp as bs = .eq ↔ as = bs := by
  induction as generalizing bs with
  | nil =>
    obtain rfl := List.length_eq_zero_iff.1 hlen.symm
    simp [memcmp]
  | cons a as ih =>
    cases bs with
    | nil => simp at hlen
    | cons b bs =>
      by_cases hab : a = b
      · simpa [memcmp, hab] using ih (by simpa using hlen)
      · by_cases hlt : a < b <;> simp [memcmp, hab, hlt]

theorem memcmp_lt_iff {as bs : List UInt8} (hlen : as.length = bs.length) :
    memcmp as bs = .lt ↔ bigEndian as < bigEndian bs := by
  induction as generalizing bs with
  | nil =>
    obtain rfl := List.length_eq_zero_iff.1 hlen.symm
    simp [memcmp]
  | cons a as ih =>
    cases bs with
    | nil => simp at hlen
    | cons b bs =>
      have hlen' : as.length = bs.length := by simpa using hlen
      rcases lt_trichotomy a.toNat b.toNat with hlt | heq | hgt
      · have hab : a < b := UInt8.lt_iff_toNat_lt.2 hlt
        have hne : a ≠ b := fun h => by simp [h] at hlt
        simp [memcmp, hne, hab, bigEndian_cons_lt hlen' hab]
      · obtain rfl := UInt8.toNat_inj.1 heq
        simpa [memcmp, bigEndian, hlen'] using ih hlen'
      · have hba : b < a := UInt8.lt_iff_toNat_lt.2 hgt
        have hne : a ≠ b := fun h => by simp [h] at hgt
        have hnlt : ¬ a < b := fun h => by
          have := UInt8.lt_iff_toNat_lt.1 h
          omega
        simp [memcmp, hne, hnlt, (bigEndian_cons_lt hlen'.symm hba).le]

theorem bigEndian_inj {as bs : List UInt8} (hlen : as.length = bs.length)
    (h : bigEndian as = bigEndian bs) : as = bs := by
  induction as generalizing bs with
  | nil => exact (List.length_eq_zero_iff.1 hlen.symm).symm
  | cons a as ih =>
    cases bs with
    | nil => simp at hlen
    | cons b bs =>
      have hlen' : as.length = bs.length := by simpa using hlen
      rcases lt_trichotomy a.toNat b.toNat with hlt | heq | hgt
      · have := bigEndian_cons_lt hlen' (UInt8.lt_iff_toNat_lt.2 hlt)
        omega
      · obtain rfl := UInt8.toNat_inj.1 heq
        rw [ih hlen' (by simpa [bigEndian, hlen'] using h)]
      · have := bigEndian_cons_lt hlen'.symm (UInt8.lt_iff_toNat_lt.2 hgt)
        omega

/-! ### Addresses -/

/-- A 48-bit address as it stands in a frame. -/
structure Mac where
  bytes : Vector UInt8 6 := Vector.replicate 6 0
  deriving DecidableEq, Repr

namespace Mac

/-- The address as a number, first byte most significant. -/
def value (m : Mac) : ℕ := bigEndian m.bytes.toList

theorem value_inj {m n : Mac} : m.value = n.value ↔ m = n := by
  constructor
  · intro h
    have hl := bigEndian_inj (by simp) h
    cases m
    cases n
    simpa using Vector.toList_inj.1 hl
  · rintro rfl
    rfl

end Mac

/-- `memcmp(a, b, 6)`. -/
def macCmp (a b : Mac) : Ordering := memcmp a.bytes.toList b.bytes.toList

theorem macCmp_eq_iff {a b : Mac} : macCmp a b = .eq ↔ a = b := by
  rw [macCmp, memcmp_eq_iff (by simp)]
  constructor
  · intro h
    cases a
    cases b
    simpa using Vector.toList_inj.1 h
  · rintro rfl
    rfl

theorem macCmp_lt_iff {a b : Mac} : macCmp a b = .lt ↔ a.value < b.value :=
  memcmp_lt_iff (by simp)

/-! ### A clock that wraps -/

/-- Wrap-safe "at least `ms` passed since `since`". -/
def elapsed (now since ms : UInt32) : Bool := ms ≤ now - since

theorem elapsed_self (now : UInt32) {ms : UInt32} (hms : 0 < ms) : elapsed now now ms = false := by
  have : ¬ ms ≤ 0 := by grind
  simpa [elapsed] using this

/-- The sign of a clock difference read as `int32_t`. -/
theorem signed_nonneg_iff (x : UInt32) : 0 ≤ x.toInt32 ↔ x.toNat < 2 ^ 31 := by
  have hx : x.toInt32.toInt = x.toBitVec.toInt := rfl
  have h0 : (0 : Int32).toInt = 0 := rfl
  have hlt := x.toNat_lt
  have hnat : x.toBitVec.toNat = x.toNat := rfl
  rw [Int32.le_iff_toInt_le, hx, BitVec.toInt_eq_toNat_cond, h0, hnat]
  split <;> omega

/-- A signed comparison with a deadline set `d` after `since` fires only when
`d` has passed. -/
theorem le_sub_of_signed {now since d : UInt32} (hd : d.toNat ≤ 2 ^ 31)
    (h : 0 ≤ (now - (since + d)).toInt32) : d ≤ now - since := by
  rw [signed_nonneg_iff] at h
  rw [UInt32.le_iff_toNat_le]
  rw [UInt32.toNat_sub, UInt32.toNat_add] at *
  have := now.toNat_lt
  have := since.toNat_lt
  omega

end InfinitagNow
