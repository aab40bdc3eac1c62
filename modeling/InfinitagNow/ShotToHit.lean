/-
InfinitagNow/ShotToHit.lean

From the trigger to the station's speaker: a shot is encoded and sent as an IR
telegram, the target decodes it and reports the hit in a packet, a station
decodes the report (`src/IrTelegram.cpp`, `src/InfinitagNow.cpp`).

The telegram has four bits for the damage.  The encoder raises 0 to 1 and then
cuts to four bits, so that 16, 32, ... go out as 0: `shot_to_hit` says what
arrives, `shot_carries_damage_iff` for which damage it is at least 1.
-/
import InfinitagNow.IrTelegram
import InfinitagNow.PacketFormat

namespace InfinitagNow

/-! ### Encoding -/

/-- Version, shooter and damage in front of their CRC. -/
def irtFrame (shooter damage : UInt8) : UInt16 :=
  let data12 := ((irtVersion &&& 0x0F) <<< 8) ||| (shooter.toUInt16 <<< 4) ||| damage.toUInt16
  (data12 <<< 4) ||| (irtCrc4 data12).toUInt16

def irtEncode (shooterId damage : UInt8) : UInt16 :=
  let damage := if damage = 0 then 1 else damage
  irtFrame (shooterId &&& 0x0F) (damage &&& 0x0F)

def irtHdrMarkUs : UInt16 := 2400
def irtHdrSpaceUs : UInt16 := 600
def irtBitMarkUs : UInt16 := 600
def irtSpace0Us : UInt16 := 600
def irtSpace1Us : UInt16 := 1200

/-- The space of bit `i`. -/
def spaceUs (frame : UInt16) (i : ℕ) : UInt16 :=
  if (frame >>> UInt16.ofNat i) &&& 1 ≠ 0 then irtSpace1Us else irtSpace0Us

/-- The timing table; empty if there is no room for it. -/
def irtTimings (frame : UInt16) (maxLen : ℕ) : List UInt16 :=
  if maxLen < 35 then []
  else
    [irtHdrMarkUs, irtHdrSpaceUs] ++
      (List.range 16).flatMap (fun k => [irtBitMarkUs, spaceUs frame (15 - k)]) ++ [irtBitMarkUs]

/-- A duration as the receiver measures it. -/
def measured (d : UInt16) (jitter : ℤ) : UInt32 := UInt32.ofNat (d.toNat + jitter).toNat

/-- A timing table as the receiver hears it, from phase `i` on. -/
def played (jitter : ℕ → ℤ) : ℕ → Bool → List UInt16 → List Phase
  | _, _, [] => []
  | i, mark, d :: ds => (mark, measured d (jitter i)) :: played jitter (i + 1) (!mark) ds

/-! ### Reporting -/

def msgHitReport : UInt8 := 0x10
def devTarget : UInt8 := 2

def encodeHitReport (shooterId soundId damage : UInt8) : Payload :=
  #v[shooterId, soundId, damage, 0, 0, 0, 0, 0, 0, 0, 0, 0, 0, 0, 0, 0, 0, 0, 0, 0, 0, 0, 0, 0,
    0, 0]

/-- `(shooterId, soundId, damage)` -/
def decodeHitReport (p : Payload) : UInt8 × UInt8 × UInt8 :=
  (p.getD 0 0, p.getD 1 0, p.getD 2 0)

@[simp] theorem decode_encodeHitReport (shooterId soundId damage : UInt8) :
    decodeHitReport (encodeHitReport shooterId soundId damage) = (shooterId, soundId, damage) := rfl

def hitPacket (shooterId soundId damage : UInt8) : Packet :=
  { Packet.init msgHitReport devTarget with payload := encodeHitReport shooterId soundId damage }

/-- What a station hears of a shot: `(shooterId, soundId, damage)`. -/
def shotToHit (d : IrtDecoder) (jitter : ℕ → ℤ) (shooterId damage soundId : UInt8) :
    Option (UInt8 × UInt8 × UInt8) :=
  let d := d.run (played jitter 0 true (irtTimings (irtEncode shooterId damage) 35))
  match d.take.1 with
  | none => none
  | some frame =>
    match irtDecodeFrame frame with
    | none => none
    | some (id, dmg) =>
      let wire := (hitPacket id soundId dmg).seal.bytes
      if validate wire then some (decodeHitReport (Packet.ofBytes wire).payload) else none

/-! ### On the air -/

section Air

variable {jitter : ℕ → ℤ}

theorem measured_toNat {d : UInt16} (hd : 299 ≤ d.toNat) {j : ℤ} (hj : |j| ≤ 299) :
    ((measured d j).toNat : ℤ) = d.toNat + j := by
  have hlt := d.toNat_lt
  obtain ⟨hlo, hhi⟩ := abs_le.1 hj
  rw [measured, UInt32.toNat_ofNat']
  omega

/-- A duration well inside a band is measured inside it. -/
theorem measured_band {d : UInt16} {j : ℤ} (hj : |j| ≤ 299) {lo hi : UInt32}
    (hlo : lo.toNat + 299 ≤ d.toNat) (hhi : d.toNat + 299 ≤ hi.toNat) :
    lo ≤ measured d j ∧ measured d j ≤ hi := by
  have hval := measured_toNat (d := d) (by omega) hj
  obtain ⟨hmin, hmax⟩ := abs_le.1 hj
  rw [UInt32.le_iff_toNat_le, UInt32.le_iff_toNat_le]
  omega

/-- The bits of a frame, as the receiver hears them. -/
def heardBits (jitter : ℕ → ℤ) (frame : UInt16) : List (UInt32 × UInt32) :=
  (List.range 16).map fun k =>
    (measured irtBitMarkUs (jitter (2 + 2 * k)),
      measured (spaceUs frame (15 - k)) (jitter (3 + 2 * k)))

theorem played_irtTimings (frame : UInt16) :
    played jitter 0 true (irtTimings frame 35) =
      (true, measured irtHdrMarkUs (jitter 0)) :: (false, measured irtHdrSpaceUs (jitter 1)) ::
        (bitPhases (heardBits jitter frame) ++ [(true, measured irtBitMarkUs (jitter 34))]) := rfl

/-- The test `(frame >> i) & 1`. -/
theorem shift_and_one_ne_zero_iff (frame : UInt16) {i : ℕ} (hi : i < 16) :
    (frame >>> UInt16.ofNat i) &&& 1 ≠ 0 ↔ frame.toNat / 2 ^ i % 2 = 1 := by
  have hval : ((frame >>> UInt16.ofNat i) &&& 1).toNat = frame.toNat / 2 ^ i % 2 := by
    have hi' : (UInt16.ofNat i).toNat % 16 = i := by
      rw [UInt16.toNat_ofNat']
      omega
    rw [UInt16.toNat_and, UInt16.toNat_shiftRight, hi', UInt16.toNat_one, Nat.and_one_is_mod,
      Nat.shiftRight_eq_div_pow]
  rw [ne_eq, ← UInt16.toNat_inj, hval, UInt16.toNat_zero]
  omega

/-- The digits of a number, low bit first. -/
theorem ofDigits_bits (x n : ℕ) :
    Nat.ofDigits 2 ((List.range n).map fun i => x / 2 ^ i % 2) = x % 2 ^ n := by
  induction n with
  | zero => simp [Nat.mod_one]
  | succ n ih =>
    rw [List.range_succ, List.map_append, Nat.ofDigits_append, ih, Nat.mod_pow_succ]
    simp

/-- With up to 299 µs of jitter, a space still stands for its bit. -/
theorem spaceBit_measured (frame : UInt16) {i : ℕ} (hi : i < 16) {j : ℤ} (hj : |j| ≤ 299) :
    spaceBit (measured (spaceUs frame i) j) = frame.toNat / 2 ^ i % 2 ∧
      BitSpace (measured (spaceUs frame i) j) := by
  have hiff := shift_and_one_ne_zero_iff frame hi
  unfold spaceUs spaceBit
  split
  · rename_i h
    have hband : 900 ≤ measured irtSpace1Us j ∧ measured irtSpace1Us j ≤ 1700 :=
      measured_band hj (by decide) (by decide)
    rw [if_pos hband.1, hiff.1 h]
    exact ⟨rfl, (UInt32.le_trans (by decide) hband.1 : (250 : UInt32) ≤ _), hband.2⟩
  · rename_i h
    have hband : 250 ≤ measured irtSpace0Us j ∧ measured irtSpace0Us j ≤ 899 :=
      measured_band hj (by decide) (by decide)
    have hzero : frame.toNat / 2 ^ i % 2 = 0 := by
      have hne := mt hiff.2 h
      omega
    rw [hzero, if_neg (UInt32.not_le.2 (UInt32.lt_of_le_of_lt hband.2 (by decide)))]
    exact ⟨rfl, hband.1, UInt32.le_trans hband.2 (by decide)⟩

variable (hj : ∀ i, |jitter i| ≤ 299)
include hj

theorem heardBits_band (frame : UInt16) :
    ∀ b ∈ heardBits jitter frame, BitMark b.1 ∧ BitSpace b.2 := by
  intro b hb
  obtain ⟨k, hk, rfl⟩ := List.mem_map.1 hb
  exact ⟨measured_band (hj _) (by decide) (by decide),
    (spaceBit_measured frame (by omega) (hj _)).2⟩

/-- What the receiver hears is a telegram that carries the frame. -/
theorem telegram_played (frame : UInt16) :
    Telegram (played jitter 0 true (irtTimings frame 35)) frame := by
  rw [played_irtTimings]
  refine ⟨_, _, heardBits jitter frame, _, rfl, ?_, ?_, ?_, by simp [heardBits],
    heardBits_band hj frame, ?_⟩
  · exact measured_band (hj 0) (by decide) (by decide)
  · exact measured_band (hj 1) (by decide) (by decide)
  · exact measured_band (hj 34) (by decide) (by decide)
  · -- bit 15 is sent first
    have hbits : (heardBits jitter frame).map (fun b => spaceBit b.2) =
        ((List.range 16).map fun i => frame.toNat / 2 ^ i % 2).reverse := by
      have hrange : (List.range 16).reverse = (List.range 16).map (fun k => 15 - k) := rfl
      rw [← List.map_reverse, hrange, heardBits, List.map_map, List.map_map]
      refine List.map_congr_left fun k hk => ?_
      exact (spaceBit_measured frame (by omega) (hj _)).1
    have hlt := frame.toNat_lt
    rw [bitsWord, hbits, List.reverse_reverse, ofDigits_bits, Nat.mod_eq_of_lt hlt,
      UInt16.ofNat_toNat]

/-- Whatever the decoder was doing, it holds the frame when the telegram is over. -/
theorem take_played (d : IrtDecoder) {frame : UInt16} (hf : (irtDecodeFrame frame).isSome) :
    (d.run (played jitter 0 true (irtTimings frame 35))).take.1 = some frame := by
  obtain ⟨body, stop, hbody, hstop, hst, hn, hacc⟩ := feed_of_telegram d (telegram_played hj frame)
  have hm : irtBitMarkMin ≤ stop ∧ stop ≤ irtBitMarkMax := hstop
  rw [hbody, IrtDecoder.run_append, IrtDecoder.run_cons, IrtDecoder.run_nil]
  simp [IrtDecoder.feed, hst, hm, hn, hacc, hf, IrtDecoder.take]

end Air

/-! ### What arrives -/

/-- The frame of two nibbles gives them back. -/
theorem irtDecodeFrame_irtFrame {shooter damage : UInt8} (hs : shooter < 16) (hd : damage < 16) :
    irtDecodeFrame (irtFrame shooter damage) = some (shooter, damage) := by
  have hall : ∀ s < 16, ∀ g < 16, irtDecodeFrame (irtFrame (UInt8.ofNat s) (UInt8.ofNat g)) =
      some (UInt8.ofNat s, UInt8.ofNat g) := by
    decide +kernel
  have h := hall shooter.toNat (UInt8.lt_iff_toNat_lt.1 hs) damage.toNat
    (UInt8.lt_iff_toNat_lt.1 hd)
  rwa [UInt8.ofNat_toNat, UInt8.ofNat_toNat] at h

theorem and_nibble_lt (x : UInt8) : x &&& 0x0F < 16 := by
  rw [UInt8.lt_iff_toNat_lt, UInt8.toNat_and]
  exact Nat.lt_succ_of_le Nat.and_le_right

theorem and_nibble_toNat (x : UInt8) : (x &&& 0x0F).toNat = x.toNat % 16 := by
  rw [UInt8.toNat_and]
  exact Nat.and_two_pow_sub_one_eq_mod x.toNat 4

/-- **The pipeline**: shooter and sound arrive, of the damage the low four bits. -/
theorem shot_to_hit (d : IrtDecoder) {jitter : ℕ → ℤ} (hj : ∀ i, |jitter i| ≤ 299)
    (shooterId damage soundId : UInt8) :
    shotToHit d jitter shooterId damage soundId =
      some (shooterId &&& 0x0F, soundId, (if damage = 0 then 1 else damage) &&& 0x0F) := by
  have hdecode : irtDecodeFrame (irtEncode shooterId damage) =
      some (shooterId &&& 0x0F, (if damage = 0 then 1 else damage) &&& 0x0F) :=
    irtDecodeFrame_irtFrame (and_nibble_lt shooterId) (and_nibble_lt _)
  have hframe : (irtDecodeFrame (irtEncode shooterId damage)).isSome := by
    rw [hdecode]
    rfl
  have htake := take_played hj d hframe
  have hvalid : ∀ id snd dmg, validate (hitPacket id snd dmg).seal.bytes = true :=
    fun id snd dmg => validate_seal (p := hitPacket id snd dmg) (.inl rfl)
  have hpayload : ∀ id snd dmg, (hitPacket id snd dmg).seal.payload = encodeHitReport id snd dmg :=
    fun _ _ _ => rfl
  unfold shotToHit
  simp only [htake, hdecode]
  rw [if_pos (hvalid _ _ _), Packet.ofBytes_bytes, hpayload, decode_encodeHitReport]

/-- **A shot carries damage** exactly when the encoder's cut to four bits leaves
some. -/
theorem shot_carries_damage_iff (d : IrtDecoder) {jitter : ℕ → ℤ} (hj : ∀ i, |jitter i| ≤ 299)
    {shooterId : UInt8} (hid : shooterId ≤ 15) (damage soundId : UInt8) :
    (∃ dmg, shotToHit d jitter shooterId damage soundId = some (shooterId, soundId, dmg) ∧
      1 ≤ dmg ∧ (1 ≤ damage → damage ≤ 15 → dmg = damage)) ↔
        damage = 0 ∨ damage % 16 ≠ 0 := by
  have hshooter : shooterId &&& 0x0F = shooterId := by
    apply UInt8.toNat_inj.1
    have h15 : shooterId.toNat ≤ 15 := UInt8.le_iff_toNat_le.1 hid
    rw [and_nibble_toNat]
    omega
  have hmask : ∀ x : UInt8, 1 ≤ x &&& 0x0F ↔ x % 16 ≠ 0 := by
    intro x
    rw [UInt8.le_iff_toNat_le, and_nibble_toNat, ne_eq, ← UInt8.toNat_inj, UInt8.toNat_mod]
    simp
    omega
  rw [shot_to_hit d hj, hshooter]
  constructor
  · rintro ⟨dmg, heq, hpos, -⟩
    -- only the damage 0 itself is clamped
    by_cases hzero : damage = 0
    · exact .inl hzero
    · obtain rfl : damage &&& 0x0F = dmg := by simpa [hzero] using heq
      exact .inr ((hmask damage).1 hpos)
  · intro h
    by_cases hzero : damage = 0
    · have hone : (1 : UInt8) &&& 0x0F = 1 := rfl
      refine ⟨1, by rw [if_pos hzero, hone], by decide, fun hpos => ?_⟩
      rw [hzero] at hpos
      exact absurd hpos (by decide)
    · refine ⟨damage &&& 0x0F, by simp [hzero], (hmask damage).2 (h.resolve_left hzero), ?_⟩
      intro _ h15
      apply UInt8.toNat_inj.1
      have h15 : damage.toNat ≤ 15 := UInt8.le_iff_toNat_le.1 h15
      rw [and_nibble_toNat]
      omega

/-- Damage 16 arrives as none at all. -/
theorem shot_without_damage :
    ¬ ∃ dmg, shotToHit {} (fun _ => 0) 3 16 5 = some (3, 5, dmg) ∧ 1 ≤ dmg ∧
      (1 ≤ (16 : UInt8) → (16 : UInt8) ≤ 15 → dmg = 16) := by
  have hshot : shotToHit {} (fun _ => 0) 3 16 5 = some (3, 5, 0) := by decide +kernel
  rintro ⟨dmg, heq, hpos, -⟩
  obtain rfl : 0 = dmg := by simpa [hshot] using heq
  exact absurd hpos (by decide)

/-- A shot of damage 2 carries it, one of damage 32 carries none. -/
theorem shot_carries_damage_iff_two :
    (∃ dmg, shotToHit {} (fun _ => 0) 3 2 5 = some (3, 5, dmg) ∧ 1 ≤ dmg ∧
      (1 ≤ (2 : UInt8) → (2 : UInt8) ≤ 15 → dmg = 2)) ∧
    ¬ ∃ dmg, shotToHit {} (fun _ => 0) 3 32 5 = some (3, 5, dmg) ∧ 1 ≤ dmg ∧
      (1 ≤ (32 : UInt8) → (32 : UInt8) ≤ 15 → dmg = 32) := by
  have hiff := fun damage =>
    @shot_carries_damage_iff {} (fun _ => 0) (by simp) 3 (by decide) damage 5
  exact ⟨(hiff 2).2 (.inr (by decide)), fun h => absurd ((hiff 32).1 h) (by decide)⟩

end InfinitagNow
