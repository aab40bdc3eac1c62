/-
InfinitagNow/MisreadBits.lean

A telegram some of whose spaces are read as the opposite bit
(`src/IrTelegram.cpp`).

The CRC-4 register is the one of `Crc` with the polynomial x^4+x+1, fed bit by
bit, so that a frame passes the check only if the powers of x at its ones add up
to zero (`sum_bits_of_decode`).  The order of x is 15 and a frame has 16 bits:
the check alone would not see its first and its last bit change together.  But
the first four bits are the version, which has to be right, and what is left of
the frame is short enough (`misread_rejected`).  The decoder then stays silent,
whatever it was doing before (`misread_bits_silent`).
-/
import InfinitagNow.Crc
import InfinitagNow.ShotStream

namespace InfinitagNow

open XorVec

/-! ### The CRC-4 register -/

/-- x + 1, below x^4 -/
def crc4Poly : BitVec 4 := 0b0011#4

/-- The four bits of the register. -/
def nibble (crc : UInt8) : XorVec 4 := ofBitVec (crc.toBitVec.setWidth 4)

/-- The ones among the low `n` bits of a word, as powers of x from `k` on. -/
def bitSum (k n : ℕ) (x : UInt16) : XorVec 4 :=
  ∑ i ∈ Finset.range n, if x.toNat.testBit i then powX crc4Poly (k + i) else 0

theorem bitSum_succ (k n : ℕ) (x : UInt16) :
    bitSum k (n + 1) x =
      bitSum k n x + if x.toNat.testBit n then powX crc4Poly (k + n) else 0 :=
  Finset.sum_range_succ _ n

/-- The test `(data12 >> i) & 1`. -/
theorem shift_and_one (x : UInt16) {i : ℕ} (hi : i < 16) :
    (((x >>> UInt16.ofNat i) &&& 1).toUInt8 : UInt8) = if x.toNat.testBit i then 1 else 0 := by
  have hval : ((x >>> UInt16.ofNat i) &&& 1).toNat = x.toNat / 2 ^ i % 2 := by
    have hi' : (UInt16.ofNat i).toNat % 16 = i := by
      rw [UInt16.toNat_ofNat']
      omega
    rw [UInt16.toNat_and, UInt16.toNat_shiftRight, hi', UInt16.toNat_one, Nat.and_one_is_mod,
      Nat.shiftRight_eq_div_pow]
  rw [← UInt8.toNat_inj, UInt16.toNat_toUInt8, hval, Nat.testBit_eq_decide_div_mod_eq]
  split
  · rename_i h
    rw [of_decide_eq_true h]
    rfl
  · rename_i h
    have hzero : x.toNat / 2 ^ i % 2 = 0 := by
      have hne : ¬ x.toNat / 2 ^ i % 2 = 1 := fun h1 => h (decide_eq_true h1)
      omega
    rw [hzero]
    rfl

/-- One bit: the register is multiplied by x, the bit enters as x^4. -/
theorem nibble_irtCrc4Step (x : UInt16) {i : ℕ} (hi : i < 16) (crc : UInt8) :
    nibble (irtCrc4Step x (UInt16.ofNat i) crc) =
      mulX crc4Poly (nibble crc) + if x.toNat.testBit i then powX crc4Poly 4 else 0 := by
  -- only the bit and the 256 values of the register matter
  have htable : ∀ b : Bool, ∀ n < 256,
      nibble (if ((UInt8.ofNat n >>> 3) &&& 1) ^^^ (if b then 1 else 0) ≠ 0 then
          ((UInt8.ofNat n <<< 1) &&& 0x0F) ^^^ 0x03
        else (UInt8.ofNat n <<< 1) &&& 0x0F) =
      mulX crc4Poly (nibble (UInt8.ofNat n)) + if b then powX crc4Poly 4 else 0 := by
    decide +kernel
  have h := htable (x.toNat.testBit i) crc.toNat crc.toNat_lt
  rw [UInt8.ofNat_toNat] at h
  unfold irtCrc4Step
  rw [shift_and_one x hi]
  exact h

/-- The bits below `n`, highest first. -/
theorem nibble_foldl (x : UInt16) {n : ℕ} (hn : n ≤ 16) (crc : UInt8) :
    nibble (((List.range n).reverse.map UInt16.ofNat).foldl
        (fun crc i => irtCrc4Step x i crc) crc) =
      (mulX crc4Poly ^ n) (nibble crc) + bitSum 4 n x := by
  induction n generalizing crc with
  | zero => exact (add_zero (nibble crc)).symm
  | succ n ih =>
    have hpow : ∀ y : XorVec 4,
        (mulX crc4Poly ^ n) (mulX crc4Poly y) = (mulX crc4Poly ^ (n + 1)) y := by
      intro y
      rw [pow_succ]
      rfl
    have hbit : (mulX crc4Poly ^ n) (if x.toNat.testBit n then powX crc4Poly 4 else 0) =
        if x.toNat.testBit n then powX crc4Poly (4 + n) else 0 := by
      split
      · rw [mulX_pow_powX, Nat.add_comm]
      · exact map_zero _
    rw [List.range_succ, List.reverse_append, List.reverse_singleton, List.singleton_append,
      List.map_cons, List.foldl_cons, ih (by omega), nibble_irtCrc4Step x (by omega), map_add, hpow,
      hbit, bitSum_succ, add_assoc, add_comm (bitSum 4 n x)]

theorem nibble_irtCrc4 (x : UInt16) : nibble (irtCrc4 x) = bitSum 4 12 x := by
  have h := nibble_foldl x (n := 12) (by decide) 0
  have hzero : (mulX crc4Poly ^ 12) (nibble 0) = 0 := map_zero _
  rw [hzero, zero_add] at h
  exact h

/-! ### Frames that pass -/

/-- The low four bits of a frame, where the sender puts the CRC. -/
theorem low_bits (frame : UInt16) : ofBitVec (frame.toBitVec.setWidth 4) = bitSum 0 4 frame := by
  rw [sum_bits crc4Poly, bitSum]
  refine Finset.sum_congr rfl fun i hi => ?_
  have hi : i < 4 := Finset.mem_range.1 hi
  have hbit : (frame.toBitVec.setWidth 4).getLsbD i = frame.toNat.testBit i := by
    rw [BitVec.getLsbD_setWidth, decide_eq_true hi, Bool.true_and]
    rfl
  rw [hbit, Nat.zero_add]

/-- The other twelve, over which it is taken. -/
theorem high_bits (frame : UInt16) :
    bitSum 0 16 frame = bitSum 0 4 frame + bitSum 4 12 (frame >>> 4) := by
  have hshift : (frame >>> 4).toNat = frame.toNat >>> 4 := UInt16.toNat_shiftRight frame 4
  have hsplit := Finset.sum_range_add
    (fun i => if frame.toNat.testBit i then powX crc4Poly (0 + i) else 0) 4 12
  refine hsplit.trans (congrArg (bitSum 0 4 frame + ·) ?_)
  refine Finset.sum_congr rfl fun i _ => ?_
  rw [hshift, Nat.testBit_shiftRight, Nat.zero_add]

/-- A frame that is accepted has the version, and the powers of x at its ones
add up to zero. -/
theorem sum_bits_of_decode {frame : UInt16} (hf : (irtDecodeFrame frame).isSome) :
    (frame >>> 12) &&& 0x0F = irtVersion ∧ bitSum 0 16 frame = 0 := by
  unfold irtDecodeFrame at hf
  dsimp only at hf
  split at hf
  · exact absurd hf (by decide)
  · rename_i hcrc
    split at hf
    · exact absurd hf (by decide)
    · rename_i hversion
      refine ⟨not_not.1 hversion, ?_⟩
      have hcrc : (irtCrc4 (frame >>> 4)).toUInt16 = frame &&& 0x0F := not_not.1 hcrc
      -- the low four bits are the CRC of the others
      have hlow : nibble (irtCrc4 (frame >>> 4)) = bitSum 0 4 frame := by
        have hval : (irtCrc4 (frame >>> 4)).toNat = frame.toNat % 16 := by
          have h := congrArg UInt16.toNat hcrc
          rw [UInt16.toNat_and, UInt8.toNat_toUInt16] at h
          rw [h]
          exact Nat.and_two_pow_sub_one_eq_mod frame.toNat 4
        rw [← low_bits, nibble, ofBitVec_inj, ← BitVec.toNat_inj, BitVec.toNat_setWidth,
          BitVec.toNat_setWidth, UInt8.toNat_toBitVec, UInt16.toNat_toBitVec, hval, Nat.mod_mod]
      rw [high_bits, ← hlow, nibble_irtCrc4, add_self]

/-! ### Two frames that both pass -/

/-- The bits in which two words differ. -/
def differing (x y : UInt16) : Finset ℕ :=
  (Finset.range 16).filter fun i => x.toNat.testBit i ≠ y.toNat.testBit i

theorem sum_differing (x y : UInt16) :
    ∑ i ∈ differing x y, powX crc4Poly i = bitSum 0 16 x + bitSum 0 16 y := by
  rw [differing, Finset.sum_filter, bitSum, bitSum, ← Finset.sum_add_distrib]
  refine Finset.sum_congr rfl fun i _ => ?_
  rw [Nat.zero_add]
  cases x.toNat.testBit i <;> cases y.toNat.testBit i <;> simp

/-- With the same version, they differ in the low twelve bits only. -/
theorem lt_of_mem_differing {x y : UInt16}
    (hversion : (x >>> 12) &&& (0x0F : UInt16) = (y >>> 12) &&& (0x0F : UInt16)) {i : ℕ}
    (hi : i ∈ differing x y) : i < 12 := by
  obtain ⟨hlt, hne⟩ := Finset.mem_filter.1 hi
  have hlt : i < 16 := Finset.mem_range.1 hlt
  by_contra hge
  have htop : ∀ z : UInt16, ((z >>> 12) &&& 0x0F).toNat.testBit (i - 12) = z.toNat.testBit i := by
    intro z
    have hshift : (z >>> 12).toNat = z.toNat >>> 12 := UInt16.toNat_shiftRight z 12
    have hmask : (0x0F : UInt16).toNat.testBit (i - 12) = true := by
      have hall : ∀ j < 4, (0x0F : UInt16).toNat.testBit j = true := by decide
      exact hall _ (by omega)
    rw [UInt16.toNat_and, Nat.testBit_and, hmask, Bool.and_true, hshift, Nat.testBit_shiftRight,
      Nat.add_sub_cancel' (by omega)]
  exact hne (by rw [← htop x, ← htop y, hversion])

/-- One error, two, or a burst of up to four bits. -/
def FewErrors (S : Finset ℕ) : Prop :=
  S.card = 1 ∨ S.card = 2 ∨ S.Nonempty ∧ ∃ a, ∀ j ∈ S, a ≤ j ∧ j < a + 4

/-- The order of x exceeds the number of bits behind the version. -/
theorem powX_crc4_ne {d : ℕ} (hpos : 0 < d) (hlt : d < 12) :
    powX crc4Poly d ≠ powX crc4Poly 0 := by
  have hcycle : ∀ d < 12, 0 < d → (crcBit crc4Poly)^[d] 1#4 ≠ 1#4 := by
    decide +kernel
  rw [powX, powX, mulX_pow_ofBitVec, mulX_pow_ofBitVec]
  exact hcycle d hlt hpos

theorem sum_pow_ne_zero_of_few {S : Finset ℕ} (hS : FewErrors S) (hlt : ∀ i ∈ S, i < 12) :
    ∑ i ∈ S, powX crc4Poly i ≠ 0 := by
  have hodd : crc4Poly.getLsbD 0 = true := by decide
  rcases hS with hone | htwo | ⟨hne, a, hburst⟩
  · obtain ⟨i, rfl⟩ := Finset.card_eq_one.1 hone
    have hat : ∀ k ∈ ({i} : Finset ℕ), i ≤ k ∧ k < i + 4 := by
      intro k hk
      obtain rfl := Finset.mem_singleton.1 hk
      exact ⟨le_rfl, by omega⟩
    exact sum_pow_ne_zero_of_burst hodd (Finset.singleton_nonempty i) hat
  · exact sum_pow_ne_zero_of_pair hodd (fun d hpos hd => powX_crc4_ne hpos hd) htwo hlt
  · exact sum_pow_ne_zero_of_burst hodd hne hburst

/-- **A few errors are always seen.** -/
theorem misread_rejected {frame w : UInt16} (hf : (irtDecodeFrame frame).isSome)
    (hS : FewErrors (differing frame w)) : (irtDecodeFrame w).isSome = false := by
  rw [← Bool.not_eq_true]
  intro hw
  obtain ⟨hversion, hzero⟩ := sum_bits_of_decode hf
  obtain ⟨hversion', hzero'⟩ := sum_bits_of_decode hw
  refine sum_pow_ne_zero_of_few hS
    (fun i hi => lt_of_mem_differing (hversion.trans hversion'.symm) hi) ?_
  rw [sum_differing, hzero, hzero', add_zero]

/-! ### On the air -/

/-- The bits of a word, as its spaces spell them. -/
theorem bitsWord_digit (bits : List (UInt32 × UInt32)) {j : ℕ} {b : UInt32 × UInt32}
    (hb : bits[j]? = some b) : bitsWord bits / 2 ^ (bits.length - 1 - j) % 2 = spaceBit b.2 := by
  have hbit : ∀ us, spaceBit us < 2 := by
    intro us
    unfold spaceBit
    split
    · decide
    · decide
  induction bits using List.reverseRecOn with
  | nil => exact absurd hb (by simp)
  | append_singleton bits c ih =>
    rw [bitsWord_concat, List.length_append, List.length_singleton, Nat.add_sub_cancel]
    have hj : j < bits.length + 1 := by
      simpa using (List.getElem?_eq_some_iff.1 hb).1
    by_cases hlast : j = bits.length
    · rw [hlast, List.getElem?_concat_length] at hb
      obtain rfl := Option.some.inj hb
      have hlow := hbit c.2
      rw [hlast, Nat.sub_self, pow_zero, Nat.div_one]
      omega
    · rw [List.getElem?_append_left (by omega)] at hb
      have hlow := hbit c.2
      have hexp : bits.length - j = bits.length - 1 - j + 1 := by omega
      rw [hexp, pow_succ', ← Nat.div_div_eq_div_mul, ← ih hb]
      congr 2
      omega

/-- The phases of `frame`'s telegram as they arrive when exactly the spaces in
`S` are read as the opposite bit; the first space, position 0, is bit 15. -/
structure Misread (frame : UInt16) (S : Finset ℕ) (t : List Phase) : Prop where
  subset : S ⊆ Finset.range 16
  shape : ∃ hm hs bits stop,
    t = (true, hm) :: (false, hs) :: (bitPhases bits ++ [(true, stop)]) ∧
    HdrMark hm ∧ HdrSpace hs ∧ BitMark stop ∧ bits.length = 16 ∧
    (∀ b ∈ bits, BitMark b.1 ∧ BitSpace b.2) ∧
    ∀ j (hj : j < bits.length), j ∈ S ↔ spaceBit bits[j].2 ≠ frame.toNat / 2 ^ (15 - j) % 2

/-- Such phases are the telegram of another word. -/
theorem Misread.telegram {frame : UInt16} {S : Finset ℕ} {t : List Phase} (h : Misread frame S t) :
    ∃ w, Telegram t w ∧ ∀ i < 16, i ∈ differing frame w ↔ 15 - i ∈ S := by
  obtain ⟨hm, hs, bits, stop, heq, hhm, hhs, hstop, hlen, hband, hread⟩ := h.shape
  refine ⟨UInt16.ofNat (bitsWord bits),
    ⟨hm, hs, bits, stop, heq, hhm, hhs, hstop, hlen, hband, rfl⟩, fun i hi => ?_⟩
  have hj : 15 - i < bits.length := by omega
  have hback : 15 - (15 - i) = i := by omega
  -- bit `i` of the word is the one its space spells
  have hdigit := bitsWord_digit bits (List.getElem?_eq_getElem hj)
  have hword : (UInt16.ofNat (bitsWord bits)).toNat.testBit i = (bitsWord bits).testBit i := by
    rw [UInt16.toNat_ofNat', Nat.testBit_mod_two_pow, decide_eq_true hi, Bool.true_and]
  have hmod := Nat.mod_two_eq_zero_or_one (frame.toNat / 2 ^ i)
  have hmod' := Nat.mod_two_eq_zero_or_one (bitsWord bits / 2 ^ i)
  rw [hlen, show 16 - 1 - (15 - i) = i by omega] at hdigit
  rw [hread _ hj, hback, ← hdigit, differing, Finset.mem_filter, hword,
    Nat.testBit_eq_decide_div_mod_eq, Nat.testBit_eq_decide_div_mod_eq]
  simp only [Finset.mem_range, hi, true_and, ne_eq, decide_eq_decide]
  omega

theorem FewErrors.reverse {S D : Finset ℕ} (hS : FewErrors S) (hsub : S ⊆ Finset.range 16)
    (hD : D ⊆ Finset.range 16) (h : ∀ i < 16, i ∈ D ↔ 15 - i ∈ S) : FewErrors D := by
  have hD_eq : D = S.image (15 - ·) := by
    ext i
    rw [Finset.mem_image]
    constructor
    · intro hi
      have hlt : i < 16 := Finset.mem_range.1 (hD hi)
      exact ⟨15 - i, (h i hlt).1 hi, by omega⟩
    · rintro ⟨j, hj, rfl⟩
      have hlt : j < 16 := Finset.mem_range.1 (hsub hj)
      rw [h _ (by omega), show 15 - (15 - j) = j by omega]
      exact hj
  have hinj : Set.InjOn (15 - ·) (S : Set ℕ) := by
    intro j hj k hk heq
    have hj16 : j < 16 := Finset.mem_range.1 (hsub hj)
    have hk16 : k < 16 := Finset.mem_range.1 (hsub hk)
    have heq : 15 - j = 15 - k := heq
    omega
  rw [hD_eq, FewErrors, Finset.card_image_of_injOn hinj]
  refine hS.imp_right fun hS => hS.imp_right ?_
  rintro ⟨hne, a, hburst⟩
  refine ⟨hne.image _, 12 - a, fun i hi => ?_⟩
  obtain ⟨j, hj, rfl⟩ := Finset.mem_image.1 hi
  have hlt : j < 16 := Finset.mem_range.1 (hsub hj)
  have hat := hburst j hj
  show 12 - a ≤ 15 - j ∧ 15 - j < 12 - a + 4
  omega

/-- **Misread bits never produce a hit**: whatever the decoder was doing before,
no feed returns true, and what was pending stays as it was. -/
theorem misread_bits_silent (d : IrtDecoder) {frame : UInt16} {S : Finset ℕ} {t : List Phase}
    (hf : (irtDecodeFrame frame).isSome) (ht : Misread frame S t)
    (hS : S.card = 1 ∨ S.card = 2 ∨ S.Nonempty ∧ ∃ a, ∀ j ∈ S, a ≤ j ∧ j < a + 4) :
    d.Silent t ∧ (d.run t).pending = d.pending ∧ (d.run t).frame = d.frame := by
  obtain ⟨w, htel, hdiff⟩ := ht.telegram
  have hrej : (irtDecodeFrame w).isSome = false :=
    misread_rejected hf (FewErrors.reverse hS ht.subset (Finset.filter_subset _ _) hdiff)
  obtain ⟨body, stop, rfl, hstop, hst, hn, hacc⟩ := feed_of_telegram d htel
  have hlast : ((d.run body).feed true stop).2 = false := by
    rw [← Bool.not_eq_true, feed_true_iff]
    rintro ⟨-, -, -, -, hsome⟩
    rw [hacc, hrej] at hsome
    exact Bool.noConfusion hsome
  have hsilent : d.Silent (body ++ [(true, stop)]) :=
    IrtDecoder.silent_append.2 ⟨silent_of_telegram d htel, hlast, trivial⟩
  exact ⟨hsilent, IrtDecoder.pending_run hsilent⟩

/-- A decoder that holds a shot, in the middle of another one, and a telegram
with three wrong bits among four. -/
theorem misread_bits_silent_burst :
    let d : IrtDecoder :=
      { state := .bitSpace, nbits := 7, acc := 5, pending := true, frame := 0x1415 }
    let t := played (fun _ => 40) 0 true (irtTimings 0x1E26 35)
    d.Silent t ∧ (d.run t).pending = true ∧ (d.run t).frame = 0x1415 := by
  have hband : ∀ b ∈ heardBits (fun _ => 40) 0x1E26, BitMark b.1 ∧ BitSpace b.2 :=
    heardBits_band (fun _ => by norm_num) 0x1E26
  have hread : ∀ j (hj : j < (heardBits (fun _ => 40) 0x1E26).length),
      j ∈ ({4, 5, 7} : Finset ℕ) ↔ spaceBit (heardBits (fun _ => 40) 0x1E26)[j].2 ≠
        (0x1326 : UInt16).toNat / 2 ^ (15 - j) % 2 := by
    decide +kernel
  have ht : Misread 0x1326 {4, 5, 7} (played (fun _ => 40) 0 true (irtTimings 0x1E26 35)) :=
    ⟨by decide, 2440, 640, heardBits (fun _ => 40) 0x1E26, 640, rfl,
      ⟨by decide, by decide⟩, ⟨by decide, by decide⟩, ⟨by decide, by decide⟩,
      by simp [heardBits], hband, hread⟩
  exact misread_bits_silent _ (by decide +kernel) ht (.inr (.inr ⟨by decide, 4, by decide⟩))

end InfinitagNow
