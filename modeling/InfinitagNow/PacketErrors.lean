/-
InfinitagNow/PacketErrors.lean

Which transmission errors the packet check finds.

`crc_eq_iff` turns "the damaged packet passes again" into "the error polynomial
vanishes", where the two CRC bytes stand lowest, low byte first.  Up to three
flipped bits, and any odd number, are always found (`validate_of_flips`).  So is
everything within two neighbouring bytes, except for one pattern across the
border of payload and CRC: there the low CRC byte stands next to the last
payload byte on the wire but not in the polynomial (`validate_of_two_bytes`).
-/
import InfinitagNow.PacketFormat

namespace InfinitagNow

open XorVec

/-! ### The error polynomial of a packet -/

theorem parity_ccitt : parity (ofBitVec ccitt) = 1 := by
  decide

theorem ccitt_odd : ccitt.getLsbD 0 = true := rfl

/-- The order of x exceeds the number of bits in a packet. -/
theorem powX_ccitt_ne {d : ℕ} (hpos : 0 < d) (hlt : d < 288) :
    powX ccitt d ≠ powX ccitt 0 := by
  have hcycle : ∀ d < 288, 0 < d → (crcBit ccitt)^[d] 1#16 ≠ 1#16 := by
    decide +kernel
  rw [powX, powX, mulX_pow_ofBitVec, mulX_pow_ofBitVec]
  exact hcycle d hlt hpos

/-- Exclusive or, byte by byte. -/
def diff (data data' : List UInt8) : List (BitVec 8) :=
  List.zipWith (· ^^^ ·) (data.map UInt8.toBitVec) (data'.map UInt8.toBitVec)

/-- What the damage adds to the packet, as a byte string whose lowest byte is the
low CRC byte and whose highest is the first byte of the packet. -/
def damage (as bs : List UInt8) (lo hi lo' hi' : UInt8) : List (BitVec 8) :=
  (lo ^^^ lo').toBitVec :: (hi ^^^ hi').toBitVec ::
    (diff as bs).reverse

theorem getU16_toBitVec (lo hi : UInt8) :
    ofBitVec (getU16 lo hi).toBitVec =
      ofBitVec (lo.toBitVec.setWidth 16) +
        (mulX ccitt ^ 8) (ofBitVec (hi.toBitVec.setWidth 16)) := by
  rw [mulX_pow_ofBitVec, iterate_crcBit, ← ofBitVec_xor]
  · have hor : (getU16 lo hi).toBitVec =
        lo.toBitVec.setWidth 16 ||| (hi.toBitVec.setWidth 16) <<< 8 := rfl
    rw [hor]
    congr 1
    apply BitVec.eq_of_getLsbD_eq
    intro i hi
    -- below bit 8 there is only the low byte, from bit 8 on only the high byte
    by_cases hlow : i < 8
    · rw [BitVec.getLsbD_or, BitVec.getLsbD_xor, BitVec.getLsbD_shiftLeft]
      simp [hlow, -BitVec.getLsbD_eq_getElem]
    · rw [BitVec.getLsbD_or, BitVec.getLsbD_xor, BitVec.getLsbD_setWidth,
        BitVec.getLsbD_of_ge lo.toBitVec i (by omega)]
      simp [-BitVec.getLsbD_eq_getElem]
  · intro i hi
    rw [BitVec.getLsbD_setWidth, BitVec.getLsbD_of_ge _ i (by omega), Bool.and_false]

/-- A packet whose CRC fits still fits after the damage exactly when the error
polynomial vanishes. -/
theorem crc_eq_iff {as bs : List UInt8} (hlen : as.length = bs.length) {lo hi : UInt8}
    (hcrc : getU16 lo hi = crc16 as) (lo' hi' : UInt8) :
    getU16 lo' hi' = crc16 bs ↔ polyOf ccitt (damage as bs lo hi lo' hi') = 0 := by
  have hlen' : (as.map UInt8.toBitVec).length = (bs.map UInt8.toBitVec).length := by
    simpa using hlen
  have hcrcs := crcBytes_add ccitt (by decide) hlen' 0xFFFF#16 0xFFFF#16
  rw [add_self, map_zero, zero_add, ← crc16_toBitVec, ← crc16_toBitVec, ← hcrc] at hcrcs
  -- the stored CRC enters with both bytes, high one last
  have hpoly : polyOf ccitt (damage as bs lo hi lo' hi') =
      ofBitVec (getU16 lo' hi').toBitVec + ofBitVec (crc16 bs).toBitVec := by
    have hpow : ∀ x : XorVec 16, (mulX ccitt ^ 8) ((mulX ccitt ^ 8) x) = (mulX ccitt ^ 16) x :=
      fun _ => rfl
    have hpart : ∀ a b : UInt8, ofBitVec ((a ^^^ b).toBitVec.setWidth 16) =
        ofBitVec (a.toBitVec.setWidth 16) + ofBitVec (b.toBitVec.setWidth 16) := by
      intro a b
      rw [UInt8.toBitVec_xor, BitVec.setWidth_xor, ofBitVec_xor]
    have hcancel : ∀ l l' h h' c : XorVec 16,
        l + l' + (h + h' + (l + h + c)) = l' + h' + c := by
      intro l l' h h' c
      calc l + l' + (h + h' + (l + h + c)) = (l + l) + (h + h) + (l' + h' + c) := by abel
        _ = l' + h' + c := by rw [add_self, add_self, add_zero, zero_add]
    rw [damage, diff, polyOf, polyOf, hpart, hpart, map_add, map_add, hpow, ← hcrcs,
      getU16_toBitVec lo hi, getU16_toBitVec lo' hi']
    exact hcancel _ _ _ _ _
  rw [hpoly, add_eq_zero_iff, ofBitVec_inj, UInt16.toBitVec_inj]

/-- A buffer of packet size is 34 bytes and the CRC. -/
theorem exists_split {data : List UInt8} (h : data.length = 36) :
    ∃ body lo hi, body.length = 34 ∧ data = body ++ [lo, hi] := by
  refine ⟨data.take 34, data[34], data[35], by simp [h], ?_⟩
  have hdrop : data.drop 34 = [data[34], data[35]] := by
    rw [List.drop_eq_getElem_cons (by omega), List.drop_eq_getElem_cons (by omega),
      List.drop_eq_nil_of_le (by omega)]
  rw [← hdrop, List.take_append_drop]

section Split

variable {body : List UInt8} (hbody : body.length = 34) (lo hi : UInt8)
include hbody

theorem getD_split {k : ℕ} (hk : k < 34) : (body ++ [lo, hi]).getD k 0 = body.getD k 0 :=
  List.getD_append _ _ _ _ (by omega)

theorem getD_split_lo : (body ++ [lo, hi]).getD 34 0 = lo := by
  rw [List.getD_append_right _ _ _ _ (by omega), hbody]
  rfl

theorem getD_split_hi : (body ++ [lo, hi]).getD 35 0 = hi := by
  rw [List.getD_append_right _ _ _ _ (by omega), hbody]
  rfl

theorem validate_split :
    validate (body ++ [lo, hi]) = true ↔
      (body.getD 0 0 = protocolVersion ∨ isRescueMsg (body.getD 1 0) = true) ∧
        getU16 lo hi = crc16 body := by
  rw [validate_iff, getD_split hbody lo hi (by decide), getD_split hbody lo hi (by decide),
    getD_split_lo hbody, getD_split_hi hbody, List.take_left' hbody]
  simp [hbody]

end Split

/-! ### Flipped bits -/

/-- Bit `k` of a buffer, the low bit of the first byte first. -/
def bufferBit (data : List UInt8) (k : ℕ) : Bool := (data.getD (k / 8) 0).toNat.testBit (k % 8)

/-- The bits in which two buffers differ. -/
def flips (data data' : List UInt8) : Finset ℕ :=
  (Finset.range (8 * data.length)).filter fun k => bufferBit data k ≠ bufferBit data' k

theorem getD_diff {data data' : List UInt8} (hlen : data'.length = data.length) (n : ℕ) :
    (diff data data').getD n 0 = (data.getD n 0 ^^^ data'.getD n 0).toBitVec := by
  by_cases hn : n < data.length
  · have hn' : n < data'.length := by omega
    simp [diff, List.getD_eq_getElem?_getD, hn, hn']
  · have hn' : ¬ n < data'.length := by omega
    rw [List.getD_eq_default _ _ (by simp [diff]; omega), List.getD_eq_default _ _ (not_lt.1 hn),
      List.getD_eq_default _ _ (not_lt.1 hn')]
    rfl

theorem flips_eq {data data' : List UInt8} (hlen : data'.length = data.length) :
    flips data data' = setBits (diff data data') := by
  have hlen' : (diff data data').length = data.length := by simp [diff, hlen]
  rw [flips, setBits, hlen']
  refine Finset.filter_congr fun k _ => ?_
  rw [bitAt, getD_diff hlen, UInt8.toBitVec_xor, BitVec.getLsbD_xor]
  exact bne_iff_ne.symm

theorem diff_append {as bs : List UInt8} (hlen : as.length = bs.length) (lo hi lo' hi' : UInt8) :
    diff (as ++ [lo, hi]) (bs ++ [lo', hi']) =
      diff as bs ++ [(lo ^^^ lo').toBitVec, (hi ^^^ hi').toBitVec] := by
  rw [diff, List.map_append, List.map_append, List.zipWith_append (by simp [hlen])]
  rfl

/-- **Up to three flipped bits, or any odd number, are found.** -/
theorem validate_of_flips {data data' : List UInt8} (hv : validate data = true)
    (hlen : data'.length = data.length)
    (hflips : 1 ≤ (flips data data').card ∧ (flips data data').card ≤ 3 ∨
      Odd (flips data data').card) : validate data' = false := by
  obtain ⟨as, lo, hi, has, rfl⟩ := exists_split (validate_iff.1 hv).1
  obtain ⟨bs, lo', hi', hbs, rfl⟩ : ∃ bs lo' hi', bs.length = 34 ∧ data' = bs ++ [lo', hi'] :=
    exists_split (by simpa [has] using hlen)
  by_contra hv'
  have hv' : validate (bs ++ [lo', hi']) = true := by simpa using hv'
  have hzero := (crc_eq_iff (has.trans hbs.symm) ((validate_split has lo hi).1 hv).2 lo' hi').1
    ((validate_split hbs lo' hi').1 hv').2
  rw [polyOf_eq_sum ccitt (by decide)] at hzero
  -- the damaged bytes are the same, in another order
  have hcard : (setBits (damage as bs lo hi lo' hi')).card =
      (flips (as ++ [lo, hi]) (bs ++ [lo', hi'])).card := by
    rw [flips_eq hlen]
    refine card_setBits_perm ?_
    rw [diff_append (has.trans hbs.symm)]
    calc damage as bs lo hi lo' hi'
        = [(lo ^^^ lo').toBitVec, (hi ^^^ hi').toBitVec] ++ (diff as bs).reverse := rfl
      List.Perm _ ((diff as bs).reverse ++ [(lo ^^^ lo').toBitVec, (hi ^^^ hi').toBitVec]) :=
        List.perm_append_comm
      List.Perm _ (diff as bs ++ [(lo ^^^ lo').toBitVec, (hi ^^^ hi').toBitVec]) :=
        (List.reverse_perm _).append_right _
  rw [← hcard] at hflips
  rcases Nat.even_or_odd (setBits (damage as bs lo hi lo' hi')).card with heven | hodd
  · -- an even number between one and three
    have htwo : (setBits (damage as bs lo hi lo' hi')).card = 2 := by
      rcases hflips with ⟨h1, h3⟩ | h
      · obtain ⟨r, hr⟩ := heven
        omega
      · exact absurd heven (Nat.not_even_iff_odd.2 h)
    refine sum_pow_ne_zero_of_pair ccitt_odd (n := 288) ?_ htwo ?_ hzero
    · exact fun d hpos hlt => powX_ccitt_ne hpos hlt
    · intro k hk
      have := (mem_setBits.1 hk).1
      simp [damage, diff, has, hbs] at this
      omega
  · exact sum_pow_ne_zero_of_odd parity_ccitt hodd hzero

/-- A sealed packet and a single flipped bit. -/
theorem validate_of_flips_one :
    validate ((Packet.init msgPushEnd 0).seal.bytes.set 20 0x10) = false := by
  have hv : validate (Packet.init msgPushEnd 0).seal.bytes = true := by decide +kernel
  exact validate_of_flips hv (by decide +kernel) (.inl (by decide +kernel))

/-! ### Two neighbouring bytes -/

/-- Across the border of payload and CRC the register has moved on by sixteen
bits, and one pattern closes the gap. -/
theorem polyOf_border_eq_zero_iff (x e : UInt8) :
    polyOf ccitt [x.toBitVec, 0, e.toBitVec] = 0 ↔ (e = 0 ∧ x = 0) ∨ (e = 0x89 ∧ x = 0xA1) := by
  have hpoly : polyOf ccitt [x.toBitVec, 0, e.toBitVec] =
      ofBitVec (x.toBitVec.setWidth 16) +
        ofBitVec ((crcBit ccitt)^[16] (e.toBitVec.setWidth 16)) := by
    have hzero : ofBitVec ((0 : BitVec 8).setWidth 16) = 0 := rfl
    rw [← mulX_pow_ofBitVec, polyOf, polyOf, polyOf, polyOf, hzero, zero_add, map_zero, add_zero]
    rfl
  -- which bytes shifted by sixteen bits fit into one byte: a table of 256
  have htable : ∀ n < 256, ((crcBit ccitt)^[16] ((BitVec.ofNat 8 n).setWidth 16)).toNat < 256 →
      n = 0 ∨ n = 0x89 := by
    decide +kernel
  rw [hpoly, add_eq_zero_iff, ofBitVec_inj]
  constructor
  · intro h
    have hx : ((crcBit ccitt)^[16] (e.toBitVec.setWidth 16)).toNat < 256 := by
      rw [← h, BitVec.toNat_setWidth]
      have := x.toBitVec.isLt
      omega
    have he : e = 0 ∨ e = 0x89 := by
      have hlt := htable e.toBitVec.toNat e.toBitVec.isLt
      rw [BitVec.ofNat_toNat, BitVec.setWidth_eq] at hlt
      exact (hlt hx).imp (fun h => UInt8.toNat_inj.1 h) (fun h => UInt8.toNat_inj.1 h)
    have hinj : ∀ y : UInt8, x.toBitVec.setWidth 16 = y.toBitVec.setWidth 16 → x = y := by
      intro y hxy
      have := congrArg (BitVec.setWidth 8) hxy
      exact UInt8.toBitVec_inj.1 (by simpa using this)
    rcases he with rfl | rfl
    · exact .inl ⟨rfl, hinj 0 (by rw [h]; decide +kernel)⟩
    · exact .inr ⟨rfl, hinj 0xA1 (by rw [h]; decide +kernel)⟩
  · rintro (⟨rfl, rfl⟩ | ⟨rfl, rfl⟩) <;> decide +kernel

/-- Where byte `n` of the damage stands in the packet. -/
theorem getD_damage {as bs : List UInt8} (has : as.length = 34) (hbs : bs.length = 34)
    (lo hi lo' hi' : UInt8) {n : ℕ} (hn : n < 36) :
    (damage as bs lo hi lo' hi').getD n 0 =
      (diff (as ++ [lo, hi]) (bs ++ [lo', hi'])).getD (if n < 2 then 34 + n else 35 - n) 0 := by
  have hlen : (diff as bs).length = 34 := by simp [diff, has, hbs]
  rw [diff_append (has.trans hbs.symm)]
  obtain _ | _ | n := n
  · rw [if_pos (by decide), List.getD_append_right _ _ _ _ (by omega), hlen]
    rfl
  · rw [if_pos (by decide), List.getD_append_right _ _ _ _ (by omega), hlen]
    rfl
  · rw [if_neg (by omega), List.getD_append _ _ _ _ (by omega), damage, List.getD_cons_succ,
      List.getD_cons_succ, List.getD_eq_getElem?_getD, List.getElem?_reverse (by omega), hlen,
      List.getD_eq_getElem?_getD]
    congr 2
    omega

theorem exists_getD_ne {as bs : List UInt8} (hlen : bs.length = as.length) (hne : bs ≠ as) :
    ∃ j < as.length, bs.getD j 0 ≠ as.getD j 0 := by
  by_contra hall
  push Not at hall
  refine hne (List.ext_getElem hlen fun j hj hj' => ?_)
  have h := hall j hj'
  rwa [List.getD_eq_getElem _ _ hj, List.getD_eq_getElem _ _ hj'] at h

theorem xor_eq_iff {a b v : UInt8} : a ^^^ b = v ↔ b = a ^^^ v := by
  constructor
  · rintro rfl
    rw [← UInt8.xor_assoc, UInt8.xor_self, UInt8.zero_xor]
  · rintro rfl
    rw [← UInt8.xor_assoc, UInt8.xor_self, UInt8.zero_xor]

section TwoBytes

variable {data data' : List UInt8} {i : ℕ}

/-- A change of two neighbouring bytes that does not cross the border is found. -/
theorem damage_ne_zero_of_burst {as bs : List UInt8} (has : as.length = 34) (hbs : bs.length = 34)
    {lo hi lo' hi' : UInt8} (hi34 : i ≤ 34) (hborder : i ≠ 33)
    (hsame : ∀ j, j ≠ i → j ≠ i + 1 → (bs ++ [lo', hi']).getD j 0 = (as ++ [lo, hi]).getD j 0)
    (hne : bs ++ [lo', hi'] ≠ as ++ [lo, hi]) :
    polyOf ccitt (damage as bs lo hi lo' hi') ≠ 0 := by
  have hlen : (bs ++ [lo', hi']).length = (as ++ [lo, hi]).length := by simp [has, hbs]
  rw [polyOf_eq_sum ccitt (by decide)]
  -- the lower of the two bytes, in the order of the polynomial
  refine sum_pow_ne_zero_of_burst ccitt_odd (a := 8 * (if i = 34 then 0 else 34 - i)) ?_ ?_
  · obtain ⟨j, hj36, hj⟩ := exists_getD_ne hlen hne
    have hj36 : j < 36 := by simpa [has] using hj36
    have hback : (if (if j < 34 then 35 - j else j - 34) < 2 then
        34 + (if j < 34 then 35 - j else j - 34) else 35 - (if j < 34 then 35 - j else j - 34)) =
          j := by
      split_ifs <;> omega
    have hbyte : (damage as bs lo hi lo' hi').getD (if j < 34 then 35 - j else j - 34) 0 ≠ 0 := by
      rw [getD_damage has hbs _ _ _ _ (by split_ifs <;> omega), hback, getD_diff hlen, ne_eq]
      intro hzero
      exact hj (UInt8.xor_eq_zero_iff.1 (UInt8.toBitVec_inj.1 hzero)).symm
    obtain ⟨k, hk, -⟩ := exists_mem_setBits hbyte
    exact ⟨k, hk⟩
  · intro k hk
    obtain ⟨hlt, hbit⟩ := mem_setBits.1 hk
    have hlt : k / 8 < 36 := by simpa [damage, diff, has, hbs] using hlt
    rw [getD_damage has hbs _ _ _ _ hlt, getD_diff hlen] at hbit
    -- a byte that did not change has no ones
    have hchanged : ¬ ((if k / 8 < 2 then 34 + k / 8 else 35 - k / 8) ≠ i ∧
        (if k / 8 < 2 then 34 + k / 8 else 35 - k / 8) ≠ i + 1) := by
      rintro ⟨h1, h2⟩
      rw [hsame _ h1 h2, UInt8.xor_self] at hbit
      simp at hbit
    split_ifs at hchanged ⊢ <;> omega

/-- At the border the error polynomial has three bytes. -/
theorem polyOf_damage_border {as bs : List UInt8} (has : as.length = 34) (hbs : bs.length = 34)
    {lo hi lo' hi' : UInt8}
    (hsame : ∀ j, j ≠ 33 → j ≠ 34 → (bs ++ [lo', hi']).getD j 0 = (as ++ [lo, hi]).getD j 0) :
    polyOf ccitt (damage as bs lo hi lo' hi') =
      polyOf ccitt [(lo ^^^ lo').toBitVec, 0, (as.getD 33 0 ^^^ bs.getD 33 0).toBitVec] := by
  have hlen : (bs ++ [lo', hi']).length = (as ++ [lo, hi]).length := by simp [has, hbs]
  have hrev : (diff as bs).reverse.length = 34 := by simp [diff, has, hbs]
  obtain ⟨c, tail, htail⟩ := List.exists_cons_of_length_pos (l := (diff as bs).reverse) (by omega)
  have hdamage : damage as bs lo hi lo' hi' =
      [(lo ^^^ lo').toBitVec, (hi ^^^ hi').toBitVec, c] ++ tail := by
    rw [damage, htail]
    rfl
  have hget := fun n hn => getD_damage has hbs lo hi lo' hi' (n := n) hn
  -- all other bytes are unchanged
  have hzero : ∀ n < 36, n ≠ 0 → n ≠ 2 → (damage as bs lo hi lo' hi').getD n 0 = 0 := by
    intro n hn h0 h2
    rw [hget n hn, getD_diff hlen, hsame _ (by split_ifs <;> omega) (by split_ifs <;> omega),
      UInt8.xor_self]
    rfl
  have hhi : (hi ^^^ hi').toBitVec = 0 := hzero 1 (by decide) (by decide) (by decide)
  have hc : c = (as.getD 33 0 ^^^ bs.getD 33 0).toBitVec := by
    have h := hget 2 (by decide)
    rw [hdamage, getD_diff hlen] at h
    rw [← getD_split has lo hi (by decide), ← getD_split hbs lo' hi' (by decide)]
    exact h
  have htail0 : ∀ e ∈ tail, e = 0 := by
    intro e he
    obtain ⟨n, hn, rfl⟩ := List.mem_iff_getElem.1 he
    have htaillen : tail.length = 33 := by
      rw [htail, List.length_cons] at hrev
      omega
    have h := hzero (n + 3) (by omega) (by omega) (by omega)
    rw [hdamage] at h
    calc tail[n] = tail.getD n 0 := (List.getD_eq_getElem _ _ hn).symm
      _ = 0 := h
  rw [hdamage, polyOf_append, polyOf_eq_zero ccitt htail0, map_zero, add_zero, hhi, hc]

/-- **Changes within two neighbouring bytes** are found, except for one pattern
across the border of payload and CRC. -/
theorem validate_of_two_bytes (hv : validate data = true) (hlen : data'.length = data.length)
    (hi34 : i ≤ 34) (hsame : ∀ j, j ≠ i → j ≠ i + 1 → data'.getD j 0 = data.getD j 0)
    (hne : data' ≠ data) :
    validate data' = true ↔
      i = 33 ∧ data'.getD 33 0 = data.getD 33 0 ^^^ 0x89 ∧
        data'.getD 34 0 = data.getD 34 0 ^^^ 0xA1 := by
  obtain ⟨as, lo, hi, has, rfl⟩ := exists_split (validate_iff.1 hv).1
  obtain ⟨bs, lo', hi', hbs, rfl⟩ : ∃ bs lo' hi', bs.length = 34 ∧ data' = bs ++ [lo', hi'] :=
    exists_split (by simpa [has] using hlen)
  obtain ⟨hversion, hcrc⟩ := (validate_split has lo hi).1 hv
  have hcrc' := crc_eq_iff (has.trans hbs.symm) hcrc lo' hi'
  rw [validate_split hbs]
  by_cases hborder : i = 33
  · -- last payload byte and low CRC byte, which are no neighbours in the code word
    subst hborder
    have hversion' : bs.getD 0 0 = protocolVersion ∨ isRescueMsg (bs.getD 1 0) = true := by
      have h0 := hsame 0 (by decide) (by decide)
      have h1 := hsame 1 (by decide) (by decide)
      rw [getD_split hbs _ _ (by decide), getD_split has _ _ (by decide)] at h0 h1
      rwa [h0, h1]
    rw [hcrc', polyOf_damage_border has hbs hsame, polyOf_border_eq_zero_iff,
      getD_split hbs _ _ (by decide), getD_split has _ _ (by decide), getD_split_lo hbs,
      getD_split_lo has, UInt8.xor_eq_zero_iff, UInt8.xor_eq_zero_iff, xor_eq_iff, xor_eq_iff]
    constructor
    · rintro ⟨-, ⟨hlast, hlow⟩ | h⟩
      · -- neither of the two bytes has changed
        obtain ⟨j, -, hj⟩ := exists_getD_ne hlen hne
        refine absurd ?_ hj
        by_cases h33 : j = 33
        · rw [h33, getD_split hbs _ _ (by decide), getD_split has _ _ (by decide), hlast]
        · by_cases h34 : j = 34
          · rw [h34, getD_split_lo hbs, getD_split_lo has, hlow]
          · exact hsame j h33 h34
      · exact ⟨rfl, h⟩
    · rintro ⟨-, h⟩
      exact ⟨hversion', .inr h⟩
  · -- elsewhere the change is a burst of at most sixteen bits
    constructor
    · rintro ⟨-, h⟩
      exact absurd (hcrc'.1 h) (damage_ne_zero_of_burst has hbs hi34 hborder hsame hne)
    · rintro ⟨h, -⟩
      exact absurd h hborder

end TwoBytes

theorem getD_set_of_ne {data : List UInt8} {i j : ℕ} (h : j ≠ i) (b : UInt8) :
    (data.set i b).getD j 0 = data.getD j 0 := by
  rw [List.getD_eq_getElem?_getD, List.getElem?_set_ne h.symm, List.getD_eq_getElem?_getD]

/-- The last payload byte and the low CRC byte of an END packet are damaged, and
it passes. -/
theorem border_change_passes :
    validate (Packet.init msgPushEnd 0).seal.bytes = true ∧
      (∀ j, j ≠ 33 → j ≠ 33 + 1 →
        (((Packet.init msgPushEnd 0).seal.bytes.set 33 0x89).set 34
          ((Packet.init msgPushEnd 0).seal.bytes.getD 34 0 ^^^ 0xA1)).getD j 0 =
            (Packet.init msgPushEnd 0).seal.bytes.getD j 0) ∧
      ((Packet.init msgPushEnd 0).seal.bytes.set 33 0x89).set 34
          ((Packet.init msgPushEnd 0).seal.bytes.getD 34 0 ^^^ 0xA1) ≠
        (Packet.init msgPushEnd 0).seal.bytes ∧
      validate (((Packet.init msgPushEnd 0).seal.bytes.set 33 0x89).set 34
        ((Packet.init msgPushEnd 0).seal.bytes.getD 34 0 ^^^ 0xA1)) = true := by
  refine ⟨by decide +kernel, fun j h33 h34 => ?_, by decide +kernel, by decide +kernel⟩
  rw [getD_set_of_ne h34, getD_set_of_ne h33]

/-- Two neighbouring payload bytes of an END packet are damaged. -/
theorem validate_of_two_bytes_payload :
    validate (((Packet.init msgPushEnd 0).seal.bytes.set 20 0x89).set 21 0xA1) = true ↔
      20 = 33 ∧
        (((Packet.init msgPushEnd 0).seal.bytes.set 20 0x89).set 21 0xA1).getD 33 0 =
          (Packet.init msgPushEnd 0).seal.bytes.getD 33 0 ^^^ 0x89 ∧
        (((Packet.init msgPushEnd 0).seal.bytes.set 20 0x89).set 21 0xA1).getD 34 0 =
          (Packet.init msgPushEnd 0).seal.bytes.getD 34 0 ^^^ 0xA1 := by
  refine validate_of_two_bytes (i := 20) (by decide +kernel) (by simp) (by decide) ?_
    (by decide +kernel)
  intro j h20 h21
  rw [getD_set_of_ne h21, getD_set_of_ne h20]

end InfinitagNow
