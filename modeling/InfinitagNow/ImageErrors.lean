/-
InfinitagNow/ImageErrors.lean

Which damaged images the device would boot.

The frames of a push carry no check of their own; what the device has flashed is
checked once, at the end, by size and `crc32` (`onControl` in
`src/EspNowPush.cpp`).  Two images of one size have the same hash exactly when
the polynomial of their difference vanishes (`crc32_eq_iff`).  The hash reads
the bits in the order of transmission, so that a burst stays a burst
(`mem_setBits_imageDamage`); and the order of x is 2^32 - 1, beyond every image
of less than 512 MiB (`powX_ieee_ne`).
-/
import InfinitagNow.CrcOrder
import InfinitagNow.ImageHash
import InfinitagNow.PacketErrors
import InfinitagNow.PushCommit

namespace InfinitagNow

open XorVec UpdateCall

/-! ### Bits read backwards -/

/-- The bytes in reverse order, each bit by bit. -/
def backwards (es : List (BitVec 8)) : List (BitVec 8) := (es.map BitVec.reverse).reverse

theorem bitAt_backwards {es : List (BitVec 8)} {k : ℕ} (hk : k < 8 * es.length) :
    bitAt (backwards es) k = bitAt es (8 * es.length - 1 - k) := by
  have hbyte : k / 8 < es.length := by omega
  have hdiv : (8 * es.length - 1 - k) / 8 = es.length - 1 - k / 8 := by omega
  have hmod : (8 * es.length - 1 - k) % 8 = 7 - k % 8 := by omega
  have hget : (backwards es).getD (k / 8) 0 = (es.getD (es.length - 1 - k / 8) 0).reverse := by
    rw [backwards, List.getD_eq_getElem?_getD, List.getElem?_reverse (by simpa using hbyte),
      List.length_map, List.getElem?_map, List.getD_eq_getElem?_getD,
      List.getElem?_eq_getElem (by omega)]
    rfl
  have hlow : k % 8 < 8 := Nat.mod_lt k (by decide)
  rw [bitAt, hget, BitVec.getLsbD_reverse, BitVec.getMsbD_eq_getLsbD, bitAt, hdiv, hmod]
  simp [hlow]

theorem mem_setBits_backwards {es : List (BitVec 8)} {k : ℕ} :
    k ∈ setBits (backwards es) ↔
      k < 8 * es.length ∧ 8 * es.length - 1 - k ∈ setBits es := by
  have hlen : (backwards es).length = es.length := by simp [backwards]
  rw [setBits, setBits, Finset.mem_filter, Finset.mem_filter, Finset.mem_range, Finset.mem_range,
    hlen]
  constructor
  · rintro ⟨hk, hbit⟩
    exact ⟨hk, by omega, by rwa [← bitAt_backwards hk]⟩
  · rintro ⟨hk, -, hbit⟩
    exact ⟨hk, by rwa [bitAt_backwards hk]⟩

theorem card_setBits_backwards (es : List (BitVec 8)) :
    (setBits (backwards es)).card = (setBits es).card := by
  have hlt : ∀ {k}, k ∈ setBits es → k < 8 * es.length := by
    intro k hk
    rw [setBits, Finset.mem_filter, Finset.mem_range] at hk
    exact hk.1
  apply Finset.card_nbij' (fun k => 8 * es.length - 1 - k) (fun k => 8 * es.length - 1 - k)
  · intro k hk
    exact (mem_setBits_backwards.1 hk).2
  · intro k hk
    have hk' := hlt hk
    have hlow : 8 * es.length - 1 - k < 8 * es.length := by omega
    have hback : 8 * es.length - 1 - (8 * es.length - 1 - k) = k := by omega
    exact mem_setBits_backwards.2 ⟨hlow, by rwa [hback]⟩
  · intro k hk
    have hk' := (mem_setBits_backwards.1 hk).1
    show 8 * es.length - 1 - (8 * es.length - 1 - k) = k
    omega
  · intro k hk
    have hk' := hlt hk
    show 8 * es.length - 1 - (8 * es.length - 1 - k) = k
    omega

/-! ### The error polynomial of an image -/

/-- What the damage adds to the image, as a byte string whose lowest bit is the
last one that is hashed. -/
def imageDamage (as bs : List UInt8) : List (BitVec 8) := backwards (diff as bs)

/-- Images of one size have the same hash exactly when the polynomial of their
difference vanishes. -/
theorem crc32_eq_iff {as bs : List UInt8} (hlen : bs.length = as.length) :
    crc32 0 bs = crc32 0 as ↔ polyOf ieee (imageDamage as bs) = 0 := by
  have hreg : ∀ data : List UInt8, (data.foldl crc32Byte 0xFFFFFFFF).toBitVec.reverse =
      crcBytes ieee (0xFFFFFFFF : UInt32).toBitVec.reverse
        ((data.map UInt8.toBitVec).map BitVec.reverse) :=
    fun data => reverse_foldl_crc32Byte 0xFFFFFFFF data
  have hzip : List.zipWith (· ^^^ ·) ((as.map UInt8.toBitVec).map BitVec.reverse)
      ((bs.map UInt8.toBitVec).map BitVec.reverse) = (diff as bs).map BitVec.reverse := by
    rw [diff, List.zipWith_map, List.map_zipWith]
    simp only [reverse_xor]
  have hlen' : ((as.map UInt8.toBitVec).map BitVec.reverse).length =
      ((bs.map UInt8.toBitVec).map BitVec.reverse).length := by simp [hlen]
  have hsum := crcBytes_add ieee (by decide) hlen' (0xFFFFFFFF : UInt32).toBitVec.reverse
    (0xFFFFFFFF : UInt32).toBitVec.reverse
  rw [← hreg, ← hreg, hzip, add_self, map_zero, zero_add] at hsum
  have hodd : ieee.getLsbD 0 = true := rfl
  have hcode : crc32 0 bs = crc32 0 as ↔
      bs.foldl crc32Byte 0xFFFFFFFF = as.foldl crc32Byte 0xFFFFFFFF := by
    show ~~~(bs.foldl crc32Byte 0xFFFFFFFF) = ~~~(as.foldl crc32Byte 0xFFFFFFFF) ↔ _
    exact UInt32.not_inj
  have hinj : bs.foldl crc32Byte 0xFFFFFFFF = as.foldl crc32Byte 0xFFFFFFFF ↔
      ofBitVec (as.foldl crc32Byte 0xFFFFFFFF).toBitVec.reverse +
        ofBitVec (bs.foldl crc32Byte 0xFFFFFFFF).toBitVec.reverse = 0 := by
    rw [add_eq_zero_iff, ofBitVec_inj, eq_comm, ← UInt32.toBitVec_inj]
    constructor
    · exact congrArg BitVec.reverse
    · intro h
      have := congrArg BitVec.reverse h
      rwa [BitVec.reverse_reverse_eq, BitVec.reverse_reverse_eq] at this
  rw [hcode, hinj, hsum, map_eq_zero_iff _ (mulX_pow_injective hodd 32)]
  rfl

/-- The order of x is 2^32 - 1. -/
theorem powX_ieee_ne {d : ℕ} (hpos : 0 < d) (hlt : d < 2 ^ 32 - 1) :
    powX ieee d ≠ powX ieee 0 := by
  have hprime : ∀ p ∈ [3, 5, 17, 257, 65537], p.Prime := by
    intro p hp
    simp only [List.mem_cons, List.not_mem_nil, or_false] at hp
    rcases hp with rfl | rfl | rfl | rfl | rfl <;> norm_num
  have hbits : [3, 5, 17, 257, 65537].prod < 2 ^ 32 := by decide
  exact powX_ne_of_certificate ieee hprime hbits (by decide +kernel) (by decide +kernel) hpos hlt

/-! ### Damage that the hash finds -/

/-- Damage that may go unnoticed: three bits or more, and not all of them within
32 bits in a row. -/
def Wide (S : Finset ℕ) : Prop := 3 ≤ S.card ∧ ∀ a, ∃ k ∈ S, k < a ∨ a + 32 ≤ k

/-- **Up to two flipped bits, and every burst of up to 32 bits, are found.** -/
theorem eq_or_wide_of_crc32 {image data : List UInt8} (hlen : data.length = image.length)
    (hsize : image.length < 2 ^ 29) (hcrc : crc32 0 data = crc32 0 image) :
    data = image ∨ Wide (flips image data) := by
  by_cases heq : data = image
  · exact .inl heq
  right
  have hodd : ieee.getLsbD 0 = true := rfl
  have hdiff : (diff image data).length = image.length := by simp [diff, hlen]
  have hzero := (crc32_eq_iff hlen).1 hcrc
  rw [imageDamage, polyOf_eq_sum ieee (by decide)] at hzero
  -- some bit has changed
  have hne : (flips image data).Nonempty := by
    obtain ⟨j, -, hj⟩ := exists_getD_ne hlen heq
    have hbyte : (diff image data).getD j 0 ≠ 0 := by
      rw [getD_diff hlen, ne_eq]
      intro h
      exact hj (UInt8.xor_eq_zero_iff.1 (UInt8.toBitVec_inj.1 h)).symm
    obtain ⟨k, hk, -⟩ := exists_mem_setBits hbyte
    rw [flips_eq hlen]
    exact ⟨k, hk⟩
  have hcard : (setBits (backwards (diff image data))).card = (flips image data).card := by
    rw [card_setBits_backwards, flips_eq hlen]
  have hmem : ∀ {k}, k ∈ setBits (backwards (diff image data)) →
      k < 8 * image.length ∧ 8 * image.length - 1 - k ∈ flips image data := by
    intro k hk
    rw [mem_setBits_backwards, hdiff] at hk
    rwa [flips_eq hlen]
  have hpos : (setBits (backwards (diff image data))).Nonempty := by
    rw [← Finset.card_pos, hcard]
    exact Finset.card_pos.2 hne
  constructor
  · by_contra hfew
    have hcases : (flips image data).card = 1 ∨ (flips image data).card = 2 := by
      have := Finset.card_pos.2 hne
      omega
    rcases hcases with hone | htwo
    · -- a single bit is a burst
      obtain ⟨k, hk⟩ := Finset.card_eq_one.1 (hcard.trans hone)
      refine sum_pow_ne_zero_of_burst hodd (a := k) hpos ?_ hzero
      intro l hl
      rw [hk, Finset.mem_singleton] at hl
      omega
    · refine sum_pow_ne_zero_of_pair hodd (n := 2 ^ 32 - 1) ?_ (hcard.trans htwo) ?_ hzero
      · exact fun d hd hlt => powX_ieee_ne hd hlt
      · intro k hk
        have := (hmem hk).1
        omega
  · intro a
    by_contra hburst
    push Not at hburst
    -- read backwards, the burst starts where it ended
    refine sum_pow_ne_zero_of_burst hodd (a := 8 * image.length - 32 - a) hpos ?_ hzero
    intro k hk
    obtain ⟨hlt, hk'⟩ := hmem hk
    have := hburst _ hk'
    omega

namespace EspNowPushReceiver

variable {plat : Platform}

/-- **No image with small damage is booted.**  Whatever packets and frames come,
whatever their bytes, and whatever the `Update` library answers: when
`Update.end(true)` is called in a session that was opened with the size and the
hash of an image, what was written is that image, or it differs from it in three
bits or more that are not all within 32 bits in a row. -/
theorem boots_no_small_damage (hlaw : plat.Lawful) (r : EspNowPushReceiver)
    (hst : r.state = .idle) (ht : r.trace = []) (evs : List Event) {post pre : List Obs}
    {ok : Bool} (hend : (r.run plat evs).trace = post ++ .update (.end_ ok) :: pre) :
    ∃ rx, opener pre = some rx ∧ rx.pkt.msgType = msgPushBegin ∧
      ∀ image : List UInt8, image.length < 2 ^ 29 →
        (decodePushBegin rx.pkt.payload).size.toNat = image.length →
        (decodePushBegin rx.pkt.payload).crc32 = crc32 0 image →
        written (updates pre) = image ∨ Wide (flips image (written (updates pre))) := by
  have h0 : r.Tracked :=
    ⟨fun h => by simp [hst] at h, fun _ => by rw [ht]; rfl, fun h => by simp [hst] at h,
      by rw [ht]; trivial⟩
  have h : (r.run plat evs).Tracked := run_invariant (Tracked.rule hlaw) h0 evs
  obtain ⟨rx, hopener, htype, hlen, hcrc⟩ := h.sound.end_ hend
  refine ⟨rx, hopener, htype, fun image hsize hannounced hhash => ?_⟩
  exact eq_or_wide_of_crc32 (hlen.trans hannounced) hsize (hcrc.trans hhash)

/-- What happened in a push of the one byte 7 before its end was called. -/
def beforeEnd : List Obs := (({} : EspNowPushReceiver).run flawlessPlat tinyPush).trace.drop 3

theorem boots_no_small_damage_tiny :
    written (updates beforeEnd) = [7] ∨ Wide (flips [7] (written (updates beforeEnd))) := by
  have hend : (({} : EspNowPushReceiver).run flawlessPlat tinyPush).trace =
      (({} : EspNowPushReceiver).run flawlessPlat tinyPush).trace.take 2 ++
        .update (.end_ true) :: beforeEnd := by
    decide +kernel
  have hopener : opener beforeEnd =
      some ⟨{}, beginPacket { size := 1, crc32 := crc32 0 [7] }⟩ := by
    decide +kernel
  obtain ⟨rx, hrx, -, himage⟩ :=
    boots_no_small_damage UpdateLib.flawless_lawful {} rfl rfl tinyPush hend
  obtain rfl := Option.some.inj (hrx.symm.trans hopener)
  exact himage [7] (by decide) (by decide +kernel) (by decide +kernel)

end EspNowPushReceiver

end InfinitagNow
