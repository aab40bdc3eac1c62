/-
InfinitagNow/IrTelegram.lean

The IR shot telegram and its edge-fed decoder (`src/IrTelegram.{h,cpp}`).

A shot is a header (mark 2400, space 600), sixteen bits sent MSB first as a
mark and a space whose length carries the bit, and a stop mark.  The decoder
is fed one finished mark or space phase at a time and must find telegrams in
an unbounded stream that also holds remote controls, noise and half-received
shots.

The first part is the code: `irtCrc4`, `irtDecodeFrame`, `IrtDecoder.feed`,
`IrtDecoder.take`.  The second part says what the decoder is for, without a
state machine: `Telegram h w` describes the 35 phases that make up a telegram
carrying the word `w`.  `Tracks h d` connects the two: it says which suffix of
the history `h` each decoder state remembers.

Main result: `feed_eq_true_iff`, the decoder reports a frame exactly when the
last 35 phases are a telegram whose word passes `irtDecodeFrame`.
-/
import Mathlib

namespace InfinitagNow

/-! ### Frames -/

def irtVersion : UInt16 := 0x1
def irtBits : UInt8 := 16

/-- One bit of the CRC-4 register (poly x^4+x+1). -/
def irtCrc4Step (data12 : UInt16) (i : UInt16) (crc : UInt8) : UInt8 :=
  let b : UInt8 := ((data12 >>> i) &&& 1).toUInt8
  let top : UInt8 := (crc >>> 3) &&& 1
  let crc := (crc <<< 1) &&& 0x0F
  if top ^^^ b ≠ 0 then crc ^^^ 0x03 else crc

/-- CRC-4 over the 12 data bits, bit 11 first. -/
def irtCrc4 (data12 : UInt16) : UInt8 :=
  [11, 10, 9, 8, 7, 6, 5, 4, 3, 2, 1, 0].foldl (fun crc i => irtCrc4Step data12 i crc) 0

/-- Version and CRC check; the two fields `(shooterId, damage)` of a valid
frame. -/
def irtDecodeFrame (frame : UInt16) : Option (UInt8 × UInt8) :=
  let data12 := frame >>> 4
  if (irtCrc4 data12).toUInt16 ≠ frame &&& 0x0F then none
  else if (frame >>> 12) &&& 0x0F ≠ irtVersion then none
  else some (((frame >>> 8) &&& 0x0F).toUInt8, ((frame >>> 4) &&& 0x0F).toUInt8)

/-! ### Receiver tolerance windows (µs) -/

def irtHdrMarkMin : UInt32 := 1800
def irtHdrMarkMax : UInt32 := 3200
def irtHdrSpaceMin : UInt32 := 250
def irtHdrSpaceMax : UInt32 := 1000
def irtBitMarkMin : UInt32 := 250
def irtBitMarkMax : UInt32 := 1000
def irtSpaceMin : UInt32 := 250
def irtSpace01Split : UInt32 := 900
def irtSpaceMax : UInt32 := 1700

/-! ### The decoder -/

inductive DecoderState
  | idle | hdrSpace | bitMark | bitSpace
  deriving DecidableEq, Repr

structure IrtDecoder where
  state : DecoderState := .idle
  nbits : UInt8 := 0
  acc : UInt16 := 0
  pending : Bool := false
  frame : UInt16 := 0
  deriving DecidableEq, Repr

namespace IrtDecoder

/-- A mark in header range restarts a frame from any state. -/
def tryHeader (d : IrtDecoder) (mark : Bool) (us : UInt32) : IrtDecoder :=
  if mark = true ∧ irtHdrMarkMin ≤ us ∧ us ≤ irtHdrMarkMax then
    { d with state := .hdrSpace }
  else
    { d with state := .idle }

/-- One finished phase.  The flag says whether a valid frame is complete. -/
def feed (d : IrtDecoder) (mark : Bool) (us : UInt32) : IrtDecoder × Bool :=
  match d.state with
  | .idle => (d.tryHeader mark us, false)
  | .hdrSpace =>
    if mark = false ∧ irtHdrSpaceMin ≤ us ∧ us ≤ irtHdrSpaceMax then
      ({ d with nbits := 0, acc := 0, state := .bitMark }, false)
    else (d.tryHeader mark us, false)
  | .bitMark =>
    if mark = true ∧ irtBitMarkMin ≤ us ∧ us ≤ irtBitMarkMax then
      if d.nbits = irtBits then
        -- stop mark: the frame is complete, only a valid one is reported
        let d := { d with state := .idle }
        if (irtDecodeFrame d.acc).isSome then
          ({ d with frame := d.acc, pending := true }, true)
        else (d, false)
      else ({ d with state := .bitSpace }, false)
    else (d.tryHeader mark us, false)
  | .bitSpace =>
    if mark = false ∧ irtSpaceMin ≤ us ∧ us ≤ irtSpaceMax then
      ({ d with
          acc := (d.acc <<< 1) ||| (if irtSpace01Split ≤ us then 1 else 0)
          nbits := d.nbits + 1
          state := .bitMark }, false)
    else (d.tryHeader mark us, false)

/-- `take`: the pending frame, at most once. -/
def take (d : IrtDecoder) : Option UInt16 × IrtDecoder :=
  if d.pending then (some d.frame, { d with pending := false }) else (none, d)

/-- The decoder after a stream of phases. -/
def run (d : IrtDecoder) (h : List (Bool × UInt32)) : IrtDecoder :=
  h.foldl (fun d p => (d.feed p.1 p.2).1) d

@[simp] theorem run_nil (d : IrtDecoder) : d.run [] = d := rfl

@[simp] theorem run_cons (d : IrtDecoder) (p : Bool × UInt32) (h : List (Bool × UInt32)) :
    d.run (p :: h) = (d.feed p.1 p.2).1.run h := rfl

theorem run_append (d : IrtDecoder) (h₁ h₂ : List (Bool × UInt32)) :
    d.run (h₁ ++ h₂) = (d.run h₁).run h₂ := List.foldl_append

end IrtDecoder

/-! ### Telegrams, without a state machine -/

/-- One phase of the demodulated signal: `(true, us)` is a mark. -/
abbrev Phase := Bool × UInt32

def HdrMark (us : UInt32) : Prop := 1800 ≤ us ∧ us ≤ 3200
def HdrSpace (us : UInt32) : Prop := 250 ≤ us ∧ us ≤ 1000
def BitMark (us : UInt32) : Prop := 250 ≤ us ∧ us ≤ 1000
def BitSpace (us : UInt32) : Prop := 250 ≤ us ∧ us ≤ 1700

/-- The bit a space stands for. -/
def spaceBit (us : UInt32) : ℕ := if 900 ≤ us then 1 else 0

/-- The phases of a run of data bits, each a `(mark, space)` pair. -/
def bitPhases (bits : List (UInt32 × UInt32)) : List Phase :=
  bits.flatMap fun b => [(true, b.1), (false, b.2)]

/-- The word formed MSB first from the spaces. -/
def bitsWord (bits : List (UInt32 × UInt32)) : ℕ :=
  Nat.ofDigits 2 (bits.map fun b => spaceBit b.2).reverse

/-- `Telegram t w`: the phases `t` are a header, sixteen bits and a stop mark,
all inside the receiver's tolerance windows, and the bits spell `w`. -/
structure Telegram (t : List Phase) (w : UInt16) : Prop where
  shape : ∃ hm hs bits stop,
    t = (true, hm) :: (false, hs) :: (bitPhases bits ++ [(true, stop)]) ∧
    HdrMark hm ∧ HdrSpace hs ∧ BitMark stop ∧ bits.length = 16 ∧
    (∀ b ∈ bits, BitMark b.1 ∧ BitSpace b.2) ∧ w = UInt16.ofNat (bitsWord bits)

/-- The last 35 phases of `h` are a telegram carrying `w`. -/
def EndsInTelegram (h : List Phase) (w : UInt16) : Prop :=
  35 ≤ h.length ∧ Telegram (h.drop (h.length - 35)) w

@[simp] theorem bitPhases_nil : bitPhases [] = [] := rfl

@[simp] theorem bitPhases_append (bs cs : List (UInt32 × UInt32)) :
    bitPhases (bs ++ cs) = bitPhases bs ++ bitPhases cs := by
  simp [bitPhases]

@[simp] theorem length_bitPhases (bits : List (UInt32 × UInt32)) :
    (bitPhases bits).length = 2 * bits.length := by
  induction bits with
  | nil => rfl
  | cons b bits ih =>
    simp only [bitPhases, List.flatMap_cons, List.length_append, List.length_cons,
      List.length_nil] at ih ⊢
    omega

theorem bitsWord_concat (bits : List (UInt32 × UInt32)) (b : UInt32 × UInt32) :
    bitsWord (bits ++ [b]) = spaceBit b.2 + 2 * bitsWord bits := by
  simp [bitsWord, Nat.ofDigits_cons]

theorem Telegram.length {t : List Phase} {w : UInt16} (h : Telegram t w) : t.length = 35 := by
  obtain ⟨hm, hs, bits, stop, rfl, -, -, -, hlen, -, -⟩ := h.shape
  simp [hlen]

theorem endsInTelegram_iff {h : List Phase} {w : UInt16} :
    EndsInTelegram h w ↔ ∃ front t, h = front ++ t ∧ Telegram t w := by
  constructor
  · rintro ⟨-, ht⟩
    exact ⟨h.take (h.length - 35), _, (List.take_append_drop _ _).symm, ht⟩
  · rintro ⟨front, t, rfl, ht⟩
    have hlen := ht.length
    refine ⟨by simp [hlen], ?_⟩
    have hdrop : (front ++ t).length - 35 = front.length := by simp [hlen]
    rw [hdrop, List.drop_left]
    exact ht

/-! ### What each decoder state remembers -/

/-- The phases of a telegram received so far: header and `bits`. -/
def headerAndBits (hm hs : UInt32) (bits : List (UInt32 × UInt32)) : List Phase :=
  (true, hm) :: (false, hs) :: bitPhases bits

/-- `d` has just received `bits` behind a header. -/
structure InBits (h : List Phase) (d : IrtDecoder) (bits : List (UInt32 × UInt32)) : Prop where
  suffix : ∃ front hm hs, h = front ++ headerAndBits hm hs bits ∧ HdrMark hm ∧ HdrSpace hs
  inBand : ∀ b ∈ bits, BitMark b.1 ∧ BitSpace b.2
  count : d.nbits.toNat = bits.length
  room : bits.length ≤ 16
  word : d.acc = UInt16.ofNat (bitsWord bits)

/-- The suffix of the history that the decoder's state stands for. -/
def Tracks (h : List Phase) (d : IrtDecoder) : Prop :=
  match d.state with
  | .idle => True
  | .hdrSpace => ∃ front hm, h = front ++ [(true, hm)] ∧ HdrMark hm
  | .bitMark => ∃ bits, InBits h d bits
  | .bitSpace => ∃ h' m bits, h = h' ++ [(true, m)] ∧ BitMark m ∧ InBits h' d bits ∧
      bits.length < 16

theorem shiftLeft_one (x : UInt16) : x <<< 1 = 2 * x := by
  apply UInt16.toNat_inj.1
  simp [Nat.shiftLeft_eq, Nat.mul_comm]

theorem two_mul_or_one (x : UInt16) : (2 * x) ||| 1 = 1 + 2 * x := by
  apply UInt16.toNat_inj.1
  have hor : ∀ n : ℕ, 2 * n ||| 1 = 2 * n + 1 := fun n => by
    simpa using (Nat.two_pow_add_eq_or_of_lt (i := 1) (b := 1) (by norm_num) n).symm
  have heven : (2 * x).toNat = 2 * (x.toNat % 32768) := by
    simp; omega
  rw [UInt16.toNat_or, heven, UInt16.toNat_add, heven]
  have := hor (x.toNat % 32768)
  simp; omega

/-- Shifting one more bit into the accumulator. -/
theorem acc_push (bits : List (UInt32 × UInt32)) (b : UInt32 × UInt32) :
    (UInt16.ofNat (bitsWord bits) <<< 1) ||| (if irtSpace01Split ≤ b.2 then 1 else 0)
      = UInt16.ofNat (bitsWord (bits ++ [b])) := by
  rw [bitsWord_concat, spaceBit, shiftLeft_one, UInt16.ofNat_add, UInt16.ofNat_mul]
  by_cases hs : irtSpace01Split ≤ b.2
  · rw [if_pos hs, if_pos (show 900 ≤ b.2 from hs), two_mul_or_one]
    rfl
  · rw [if_neg hs, if_neg (show ¬ 900 ≤ b.2 from hs), UInt16.or_zero]
    exact (UInt16.zero_add _).symm

/-! ### One phase -/

/-- A phase that does not continue the telegram: only a header mark counts. -/
theorem tracks_tryHeader (h : List Phase) (d : IrtDecoder) (mark : Bool) (us : UInt32) :
    Tracks (h ++ [(mark, us)]) (d.tryHeader mark us) := by
  unfold IrtDecoder.tryHeader
  split
  · rename_i hc
    obtain ⟨rfl, hmin, hmax⟩ := hc
    exact ⟨h, us, rfl, hmin, hmax⟩
  · trivial

theorem InBits.push {h : List Phase} {d : IrtDecoder} {bits : List (UInt32 × UInt32)}
    {m s : UInt32} (hin : InBits h d bits) (hlt : bits.length < 16) (hm : BitMark m)
    (hs : BitSpace s) :
    InBits (h ++ [(true, m)] ++ [(false, s)])
      { d with
        acc := (d.acc <<< 1) ||| (if irtSpace01Split ≤ s then 1 else 0)
        nbits := d.nbits + 1
        state := .bitMark } (bits ++ [(m, s)]) := by
  obtain ⟨front, hm', hs', rfl, hhm, hhs⟩ := hin.suffix
  refine ⟨⟨front, hm', hs', ?_, hhm, hhs⟩, ?_, ?_, ?_, ?_⟩
  · simp [headerAndBits, bitPhases]
  · intro b hb
    rcases List.mem_append.1 hb with hb | hb
    · exact hin.inBand b hb
    · obtain rfl := List.mem_singleton.1 hb
      exact ⟨hm, hs⟩
  · have := hin.count
    simp only [UInt8.toNat_add, List.length_append, List.length_singleton]
    simp; omega
  · simp; omega
  · rw [← acc_push bits (m, s), ← hin.word]

/-- The step lemma: every phase keeps the decoder's state in line with the
history. -/
theorem tracks_feed {h : List Phase} {d : IrtDecoder} (hd : Tracks h d) (mark : Bool)
    (us : UInt32) : Tracks (h ++ [(mark, us)]) (d.feed mark us).1 := by
  unfold IrtDecoder.feed
  cases hst : d.state with
  | idle => exact tracks_tryHeader h d mark us
  | hdrSpace =>
    simp only [Tracks, hst] at hd
    obtain ⟨front, hm, rfl, hhm⟩ := hd
    dsimp only
    split
    · rename_i hc
      obtain ⟨rfl, hmin, hmax⟩ := hc
      exact ⟨[], ⟨front, hm, us, by simp [headerAndBits], hhm, hmin, hmax⟩,
        by simp, rfl, by simp, rfl⟩
    · exact tracks_tryHeader _ d mark us
  | bitMark =>
    simp only [Tracks, hst] at hd
    obtain ⟨bits, hin⟩ := hd
    dsimp only
    split
    · rename_i hc
      obtain ⟨rfl, hmin, hmax⟩ := hc
      split
      · -- sixteen bits: the stop mark, whatever the frame says
        split <;> trivial
      · rename_i hn
        have hlt : bits.length < 16 := by
          have h16 : d.nbits.toNat ≠ 16 := fun h16 => hn (UInt8.toNat_inj.1 h16)
          have := hin.count
          have := hin.room
          omega
        exact ⟨h, us, bits, rfl, ⟨hmin, hmax⟩,
          ⟨hin.suffix, hin.inBand, hin.count, hin.room, hin.word⟩, hlt⟩
    · exact tracks_tryHeader _ d mark us
  | bitSpace =>
    simp only [Tracks, hst] at hd
    obtain ⟨h', m, bits, rfl, hm, hin, hlt⟩ := hd
    dsimp only
    split
    · rename_i hc
      obtain ⟨rfl, hmin, hmax⟩ := hc
      exact ⟨bits ++ [(m, us)], hin.push hlt hm ⟨hmin, hmax⟩⟩
    · exact tracks_tryHeader _ d mark us

/-- The run lemma. -/
theorem tracks_run {d : IrtDecoder} (hd : d.state = .idle) (h : List Phase) :
    Tracks h (d.run h) := by
  induction h using List.reverseRecOn with
  | nil => simp [Tracks, hd]
  | append_singleton h p ih =>
    rw [IrtDecoder.run_append]
    exact tracks_feed ih p.1 p.2

/-! ### Soundness: what is reported was sent -/

/-- When `feed` returns true: the stop mark of a full frame that passes the
CRC and version check. -/
theorem feed_true_iff (d : IrtDecoder) (mark : Bool) (us : UInt32) :
    (d.feed mark us).2 = true ↔
      d.state = .bitMark ∧ mark = true ∧ BitMark us ∧ d.nbits = irtBits ∧
        (irtDecodeFrame d.acc).isSome := by
  unfold IrtDecoder.feed
  cases hst : d.state with
  | idle => simp
  | hdrSpace => simp only; split <;> simp
  | bitSpace => simp only; split <;> simp
  | bitMark =>
    by_cases hm : mark = true ∧ irtBitMarkMin ≤ us ∧ us ≤ irtBitMarkMax
    · obtain ⟨rfl, hus⟩ := hm
      have hband : BitMark us := hus
      by_cases hn : d.nbits = irtBits <;> by_cases hf : (irtDecodeFrame d.acc).isSome <;>
        simp [hus, hband, hn, hf]
    · have hband : mark = true → ¬ BitMark us := fun h hb => hm ⟨h, hb⟩
      simp only [hm, if_false]
      simp only [Bool.false_eq_true, false_iff, true_and, not_and]
      intro h hb
      exact absurd hb (hband h)

theorem telegram_of_feed {h : List Phase} {d : IrtDecoder} (hd : Tracks h d) {mark : Bool}
    {us : UInt32} (hf : (d.feed mark us).2 = true) :
    ∃ front t, h ++ [(mark, us)] = front ++ t ∧ Telegram t d.acc := by
  obtain ⟨hst, rfl, hus, hn, -⟩ := (feed_true_iff d mark us).1 hf
  simp only [Tracks, hst] at hd
  obtain ⟨bits, hin⟩ := hd
  obtain ⟨front, hm, hs, rfl, hhm, hhs⟩ := hin.suffix
  have hlen : bits.length = 16 := by
    rw [← hin.count, hn]; rfl
  exact ⟨front, headerAndBits hm hs bits ++ [(true, us)], by simp,
    ⟨hm, hs, bits, us, by simp [headerAndBits], hhm, hhs, hus, hlen, hin.inBand, hin.word⟩⟩

/-! ### Completeness: what was sent is reported -/

/-- A header mark is a new start, whatever the decoder was doing. -/
theorem feed_hdrMark (d : IrtDecoder) {hm : UInt32} (hhm : HdrMark hm) :
    (d.feed true hm).1 = { d with state := .hdrSpace } := by
  have hhdr : d.tryHeader true hm = { d with state := .hdrSpace } :=
    if_pos ⟨rfl, hhm.1, hhm.2⟩
  have hbit : ¬ (irtBitMarkMin ≤ hm ∧ hm ≤ irtBitMarkMax) := by
    rintro ⟨-, hle⟩
    have h1 : hm ≤ 1000 := hle
    have h2 := hhm.1
    grind
  unfold IrtDecoder.feed
  cases d.state <;> simp [hhdr, hbit]

theorem feed_hdrSpace {d : IrtDecoder} (hst : d.state = .hdrSpace) {hs : UInt32}
    (hhs : HdrSpace hs) :
    (d.feed false hs).1 = { d with nbits := 0, acc := 0, state := .bitMark } := by
  have hband : irtHdrSpaceMin ≤ hs ∧ hs ≤ irtHdrSpaceMax := hhs
  simp [IrtDecoder.feed, hst, hband]

theorem feed_bit {d : IrtDecoder} (hst : d.state = .bitMark) (hn : d.nbits ≠ irtBits)
    {b : UInt32 × UInt32} (hb : BitMark b.1 ∧ BitSpace b.2) :
    ((d.feed true b.1).1.feed false b.2).1 =
      { d with
        acc := (d.acc <<< 1) ||| (if irtSpace01Split ≤ b.2 then 1 else 0)
        nbits := d.nbits + 1
        state := .bitMark } := by
  have hm : irtBitMarkMin ≤ b.1 ∧ b.1 ≤ irtBitMarkMax := hb.1
  have hs : irtSpaceMin ≤ b.2 ∧ b.2 ≤ irtSpaceMax := hb.2
  simp [IrtDecoder.feed, hst, hn, hm, hs]

/-- Sixteen bits behind a header end in the bit-mark state with the word in
the accumulator. -/
theorem run_bitPhases {d : IrtDecoder} {bits : List (UInt32 × UInt32)}
    (hband : ∀ b ∈ bits, BitMark b.1 ∧ BitSpace b.2) (hlen : bits.length ≤ 16)
    (hst : d.state = .bitMark) (hn : d.nbits = 0) (hacc : d.acc = 0) :
    (d.run (bitPhases bits)).state = .bitMark ∧
      (d.run (bitPhases bits)).nbits = UInt8.ofNat bits.length ∧
      (d.run (bitPhases bits)).acc = UInt16.ofNat (bitsWord bits) := by
  induction bits using List.reverseRecOn with
  | nil => exact ⟨hst, hn, hacc⟩
  | append_singleton bits b ih =>
    simp only [List.length_append, List.length_singleton] at hlen
    obtain ⟨ihst, ihn, ihacc⟩ :=
      ih (fun c hc => hband c (List.mem_append_left _ hc)) (by omega)
    have hne : (d.run (bitPhases bits)).nbits ≠ irtBits := by
      rw [ihn]
      intro h
      have := congrArg UInt8.toNat h
      simp [irtBits] at this
      omega
    have hstep := feed_bit ihst hne (hband b (by simp))
    have hrun : d.run (bitPhases (bits ++ [b])) =
        (((d.run (bitPhases bits)).feed true b.1).1.feed false b.2).1 := by
      rw [bitPhases_append, IrtDecoder.run_append]
      rfl
    rw [hrun, hstep]
    refine ⟨rfl, ?_, ?_⟩
    · simp [ihn, UInt8.ofNat_add]
    · rw [← acc_push bits b, ← ihacc]

theorem feed_of_telegram (d : IrtDecoder) {t : List Phase} {w : UInt16} (ht : Telegram t w) :
    ∃ body stop, t = body ++ [(true, stop)] ∧ BitMark stop ∧
      (d.run body).state = .bitMark ∧ (d.run body).nbits = irtBits ∧ (d.run body).acc = w := by
  obtain ⟨hm, hs, bits, stop, rfl, hhm, hhs, hstop, hlen, hband, rfl⟩ := ht.shape
  refine ⟨headerAndBits hm hs bits, stop, by simp [headerAndBits], hstop, ?_⟩
  have hrun : d.run (headerAndBits hm hs bits) =
      ({ d with nbits := 0, acc := 0, state := .bitMark } : IrtDecoder).run (bitPhases bits) := by
    simp only [headerAndBits, IrtDecoder.run_cons, feed_hdrMark d hhm]
    rw [feed_hdrSpace rfl hhs]
  obtain ⟨h1, h2, h3⟩ := run_bitPhases (d := { d with nbits := 0, acc := 0, state := .bitMark })
    hband hlen.le rfl rfl rfl
  rw [hrun]
  exact ⟨h1, by rw [h2, hlen]; rfl, h3⟩

/-! ### The decoder accepts exactly the telegrams -/

/-- **Soundness and completeness**: fed after any history, the decoder reports
a frame exactly when the last 35 phases are a telegram whose word passes
`irtDecodeFrame`; `take` then yields that word once. -/
theorem feed_eq_true_iff (d : IrtDecoder) (hd : d.state = .idle) (h : List Phase) (p : Phase) :
    (((d.run h).feed p.1 p.2).2 = true ↔
      ∃ w, EndsInTelegram (h ++ [p]) w ∧ (irtDecodeFrame w).isSome) ∧
    ∀ w, EndsInTelegram (h ++ [p]) w → (irtDecodeFrame w).isSome →
      ∃ d', ((d.run h).feed p.1 p.2).1.take = (some w, d') ∧ d'.take = (none, d') := by
  obtain ⟨mark, us⟩ := p
  -- a telegram is decoded from any state, so what came before it does not matter
  have complete : ∀ w, EndsInTelegram (h ++ [(mark, us)]) w → (irtDecodeFrame w).isSome →
      ((d.run h).feed mark us).2 = true ∧ (d.run h).acc = w := by
    intro w hw hf
    obtain ⟨front, t, hsplit, ht⟩ := endsInTelegram_iff.1 hw
    obtain ⟨body, stop, rfl, hstop, hst, hn, hacc⟩ := feed_of_telegram (d.run front) ht
    rw [← List.append_assoc] at hsplit
    obtain ⟨rfl, hlast⟩ := List.append_inj' hsplit rfl
    obtain ⟨rfl, rfl⟩ : mark = true ∧ us = stop := by simpa using hlast
    rw [IrtDecoder.run_append]
    exact ⟨(feed_true_iff _ _ _).2 ⟨hst, rfl, hstop, hn, by rw [hacc]; exact hf⟩, hacc⟩
  refine ⟨⟨fun hf => ?_, fun ⟨w, hw, hf⟩ => (complete w hw hf).1⟩, fun w hw hf => ?_⟩
  · obtain ⟨front, t, hsplit, ht⟩ := telegram_of_feed (tracks_run hd h) hf
    exact ⟨(d.run h).acc, endsInTelegram_iff.2 ⟨front, t, hsplit, ht⟩,
      ((feed_true_iff _ _ _).1 hf).2.2.2.2⟩
  · obtain ⟨hfeed, rfl⟩ := complete w hw hf
    obtain ⟨hst, rfl, hus, hn, -⟩ := (feed_true_iff _ _ _).1 hfeed
    have hm : irtBitMarkMin ≤ us ∧ us ≤ irtBitMarkMax := hus
    exact ⟨{ (d.run h) with state := .idle, frame := (d.run h).acc, pending := false },
      by simp [IrtDecoder.feed, hst, hm, hn, hf, IrtDecoder.take], rfl⟩

/-- The bits of a shot of station 3 with damage 2, as marks and spaces. -/
def shotBits : List (UInt32 × UInt32) :=
  [(600, 600), (590, 620), (600, 600), (610, 1200), (600, 600), (600, 580), (640, 1200),
    (600, 1190), (600, 600), (600, 600), (560, 1200), (600, 600), (600, 610), (600, 1200),
    (600, 1250), (600, 600)]

/-- A remote control, a shot that breaks off, and a shot up to its stop mark. -/
def noisyShot : List Phase :=
  [(true, 9000), (false, 4500), (true, 560), (true, 2400), (false, 600), (true, 600)] ++
    headerAndBits 2400 600 shotBits

/-- The stop mark completes the shot, and its word is taken once. -/
theorem feed_eq_true_iff_noisy :
    ((({} : IrtDecoder).run noisyShot).feed true 600).2 = true ∧
      ∃ d', ((({} : IrtDecoder).run noisyShot).feed true 600).1.take = (some 0x1326, d') ∧
        d'.take = (none, d') := by
  have hends : EndsInTelegram (noisyShot ++ [(true, 600)]) 0x1326 := by
    refine ⟨by decide, 2400, 600, shotBits, 600, rfl, ?_, ?_, ?_, by decide, ?_, by decide⟩
    · exact ⟨by decide, by decide⟩
    · exact ⟨by decide, by decide⟩
    · exact ⟨by decide, by decide⟩
    · simp [shotBits, BitMark, BitSpace]
  have hvalid : (irtDecodeFrame 0x1326).isSome = true := by decide +kernel
  have h := feed_eq_true_iff {} rfl noisyShot (true, 600)
  exact ⟨h.1.2 ⟨_, hends, hvalid⟩, h.2 _ hends hvalid⟩

end InfinitagNow
