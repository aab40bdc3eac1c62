/-
InfinitagNow/ShotStream.lean

A whole afternoon of shots: telegrams with noise before, between and after
them, fed to one decoder that is emptied with `take` after every feed that
returns true (`src/IrTelegram.cpp`).

The noise may leave the decoder anywhere in a frame.  `listen_telegram` is the
step: a telegram is reported at its stop mark from any state, because its
header mark is too long for every other phase and no feed before the stop mark
returns true.
-/
import InfinitagNow.ShotToHit

namespace InfinitagNow

namespace IrtDecoder

/-! ### Listening to a stream -/

/-- Feed the phases and `take` after every feed that returns true.  The
reported frames, with the position of the phase that completed them. -/
def listen : IrtDecoder → ℕ → List Phase → IrtDecoder × List (ℕ × UInt16)
  | d, _, [] => (d, [])
  | d, i, p :: h =>
    let fed := d.feed p.1 p.2
    if fed.2 then
      let taken := fed.1.take
      let rest := listen taken.2 (i + 1) h
      (rest.1, taken.1.toList.map (fun w => (i, w)) ++ rest.2)
    else listen fed.1 (i + 1) h

/-- No feed returns true. -/
def Silent : IrtDecoder → List Phase → Prop
  | _, [] => True
  | d, p :: h => (d.feed p.1 p.2).2 = false ∧ Silent (d.feed p.1 p.2).1 h

theorem listen_append (d : IrtDecoder) (i : ℕ) (h₁ h₂ : List Phase) :
    d.listen i (h₁ ++ h₂) =
      (((d.listen i h₁).1.listen (i + h₁.length) h₂).1,
        (d.listen i h₁).2 ++ ((d.listen i h₁).1.listen (i + h₁.length) h₂).2) := by
  induction h₁ generalizing d i with
  | nil => simp [listen]
  | cons p h₁ ih =>
    have hpos : i + (p :: h₁).length = i + 1 + h₁.length := by
      rw [List.length_cons]
      omega
    rw [List.cons_append, listen, listen, hpos]
    cases hf : (d.feed p.1 p.2).2 with
    | true => simp [ih]
    | false => simp [ih]

theorem silent_append {d : IrtDecoder} {h₁ h₂ : List Phase} :
    d.Silent (h₁ ++ h₂) ↔ d.Silent h₁ ∧ (d.run h₁).Silent h₂ := by
  induction h₁ generalizing d with
  | nil => simp [Silent]
  | cons p h₁ ih => simp [Silent, ih, and_assoc]

/-- While nothing is reported, listening is feeding. -/
theorem listen_of_silent {d : IrtDecoder} {h : List Phase} (hs : d.Silent h) (i : ℕ) :
    d.listen i h = (d.run h, []) := by
  induction h generalizing d i with
  | nil => rfl
  | cons p h ih =>
    obtain ⟨hfeed, hrest⟩ := hs
    simp [listen, hfeed, ih hrest]

/-- A feed that returns false leaves what is pending as it is. -/
theorem pending_feed {d : IrtDecoder} {mark : Bool} {us : UInt32}
    (hf : (d.feed mark us).2 = false) :
    (d.feed mark us).1.pending = d.pending ∧ (d.feed mark us).1.frame = d.frame := by
  have htry : (d.tryHeader mark us).pending = d.pending ∧
      (d.tryHeader mark us).frame = d.frame := by
    unfold tryHeader
    split
    · exact ⟨rfl, rfl⟩
    · exact ⟨rfl, rfl⟩
  revert hf
  unfold feed
  cases d.state with
  | idle => exact fun _ => htry
  | hdrSpace | bitSpace =>
    dsimp only
    split
    · exact fun _ => ⟨rfl, rfl⟩
    · exact fun _ => htry
  | bitMark =>
    dsimp only
    split
    · split
      · split
        · exact fun hf => Bool.noConfusion hf
        · exact fun _ => ⟨rfl, rfl⟩
      · exact fun _ => ⟨rfl, rfl⟩
    · exact fun _ => htry

theorem pending_run {d : IrtDecoder} {h : List Phase} (hs : d.Silent h) :
    (d.run h).pending = d.pending ∧ (d.run h).frame = d.frame := by
  induction h generalizing d with
  | nil => exact ⟨rfl, rfl⟩
  | cons p h ih =>
    obtain ⟨hpend, hframe⟩ := pending_feed hs.1
    rw [run_cons, ← hpend, ← hframe]
    exact ih hs.2

end IrtDecoder

/-! ### One telegram -/

/-- Only a mark behind sixteen bits is reported. -/
theorem feed_false {d : IrtDecoder} {mark : Bool} {us : UInt32}
    (h : d.state ≠ .bitMark ∨ mark = false ∨ d.nbits ≠ irtBits) :
    (d.feed mark us).2 = false := by
  rw [← Bool.not_eq_true, feed_true_iff]
  rintro ⟨hst, hm, -, hn, -⟩
  rcases h with h | h | h
  · exact h hst
  · rw [hm] at h
    exact absurd h (by decide)
  · exact h hn

theorem silent_bitPhases {d : IrtDecoder} {bits : List (UInt32 × UInt32)}
    (hband : ∀ b ∈ bits, BitMark b.1 ∧ BitSpace b.2) (hlen : bits.length ≤ 16)
    (hst : d.state = .bitMark) (hn : d.nbits = 0) (hacc : d.acc = 0) :
    d.Silent (bitPhases bits) := by
  induction bits using List.reverseRecOn with
  | nil => trivial
  | append_singleton bits b ih =>
    simp only [List.length_append, List.length_singleton] at hlen
    have hband' : ∀ c ∈ bits, BitMark c.1 ∧ BitSpace c.2 :=
      fun c hc => hband c (List.mem_append_left _ hc)
    obtain ⟨-, hnbits, -⟩ := run_bitPhases hband' (by omega) hst hn hacc
    have hne : (d.run (bitPhases bits)).nbits ≠ irtBits := by
      rw [hnbits]
      intro h
      have hval := congrArg UInt8.toNat h
      simp [irtBits] at hval
      omega
    rw [bitPhases_append, IrtDecoder.silent_append]
    exact ⟨ih hband' (by omega), feed_false (.inr (.inr hne)), feed_false (.inr (.inl rfl)),
      trivial⟩

/-- Nothing is reported before the stop mark. -/
theorem silent_of_telegram (d : IrtDecoder) {body : List Phase} {stop : UInt32} {w : UInt16}
    (ht : Telegram (body ++ [(true, stop)]) w) : d.Silent body := by
  obtain ⟨hm, hs, bits, stop', heq, hhm, hhs, -, hlen, hband, -⟩ := ht.shape
  have hbody : body = (true, hm) :: (false, hs) :: bitPhases bits := by
    rw [← List.cons_append, ← List.cons_append] at heq
    exact (List.append_inj' heq rfl).1
  have hmark : (d.feed true hm).2 = false := by
    rw [← Bool.not_eq_true, feed_true_iff]
    rintro ⟨-, -, hb, -⟩
    -- no header mark is a bit mark
    have h1800 := UInt32.le_iff_toNat_le.1 hhm.1
    have h1000 := UInt32.le_iff_toNat_le.1 hb.2
    simp at h1800 h1000
    omega
  have hspace := feed_hdrSpace (d := { d with state := .hdrSpace }) rfl hhs
  rw [hbody]
  refine ⟨hmark, feed_false (.inr (.inl rfl)), ?_⟩
  rw [feed_hdrMark d hhm, hspace]
  exact silent_bitPhases hband hlen.le rfl rfl rfl

/-- **One telegram**, from any state: its frame is reported at the stop mark,
nothing else is, and nothing stays pending. -/
theorem listen_telegram (d : IrtDecoder) (i : ℕ) {t : List Phase} {w : UInt16}
    (ht : Telegram t w) (hf : (irtDecodeFrame w).isSome) :
    (d.listen i t).2 = [(i + 34, w)] ∧ (d.listen i t).1.pending = false := by
  have hlen := ht.length
  obtain ⟨body, stop, rfl, hstop, hst, hn, hacc⟩ := feed_of_telegram d ht
  have hbody : body.length = 34 := by simpa using hlen
  have hband : irtBitMarkMin ≤ stop ∧ stop ≤ irtBitMarkMax := hstop
  rw [IrtDecoder.listen_append, IrtDecoder.listen_of_silent (silent_of_telegram d ht), hbody]
  simp [IrtDecoder.listen, IrtDecoder.feed, IrtDecoder.take, hst, hn, hacc, hband, hf]

/-! ### A stream of shots -/

/-- A shot as it arrives: the noise in front of it, then its telegram. -/
structure Shot where
  noise : List Phase
  frame : UInt16
  jitter : ℕ → ℤ

namespace Shot

def telegram (s : Shot) : List Phase := played s.jitter 0 true (irtTimings s.frame 35)

def phases (s : Shot) : List Phase := s.noise ++ s.telegram

/-- Each phase is off by at most 299 µs, and the frame is a valid one. -/
structure InTolerance (s : Shot) : Prop where
  jitter : ∀ i, |s.jitter i| ≤ 299
  frame : (irtDecodeFrame s.frame).isSome

end Shot

/-- All that reaches the receiver. -/
def stream (shots : List Shot) (after : List Phase) : List Phase :=
  shots.flatMap Shot.phases ++ after

/-- Nothing is reported during the noise, in the states the decoder is then in. -/
def Quiet (d : IrtDecoder) : List Shot → List Phase → Prop
  | [], after => d.Silent after
  | s :: shots, after => d.Silent s.noise ∧ Quiet (d.listen 0 s.phases).1 shots after

/-- The sent frames, with the positions of their stop marks in the stream. -/
def sentFrames : ℕ → List Shot → List (ℕ × UInt16)
  | _, [] => []
  | i, s :: shots => (i + s.noise.length + 34, s.frame) :: sentFrames (i + s.phases.length) shots

@[simp] theorem stream_nil (after : List Phase) : stream [] after = after := rfl

@[simp] theorem stream_cons (s : Shot) (shots : List Shot) (after : List Phase) :
    stream (s :: shots) after = s.phases ++ stream shots after := by
  simp [stream]

/-- The position is only counted, it does not change what the decoder does. -/
theorem listen_fst (d : IrtDecoder) (i j : ℕ) (h : List Phase) :
    (d.listen i h).1 = (d.listen j h).1 := by
  induction h generalizing d i j with
  | nil => rfl
  | cons p h ih =>
    rw [IrtDecoder.listen, IrtDecoder.listen]
    dsimp only
    split
    · exact ih _ _ _
    · exact ih _ _ _

/-- The step lemma: noise and telegram of one shot. -/
theorem listen_phases {d : IrtDecoder} {s : Shot} (hs : s.InTolerance) (hq : d.Silent s.noise)
    (i : ℕ) :
    (d.listen i s.phases).2 = [(i + s.noise.length + 34, s.frame)] ∧
      (d.listen i s.phases).1.pending = false := by
  rw [Shot.phases, IrtDecoder.listen_append, IrtDecoder.listen_of_silent hq, List.nil_append]
  exact listen_telegram _ _ (telegram_played hs.jitter s.frame) hs.frame

/-- The run lemma, at any position of the stream. -/
theorem listen_stream_at {shots : List Shot} (hs : ∀ s ∈ shots, s.InTolerance)
    {after : List Phase} {d : IrtDecoder} (hp : d.pending = false) (hq : Quiet d shots after)
    (i : ℕ) :
    (d.listen i (stream shots after)).2 = sentFrames i shots ∧
      (d.listen i (stream shots after)).1.pending = false := by
  induction shots generalizing d i with
  | nil =>
    rw [stream_nil, IrtDecoder.listen_of_silent hq]
    exact ⟨rfl, by rw [(IrtDecoder.pending_run hq).1, hp]⟩
  | cons s shots ih =>
    obtain ⟨hnoise, hrest⟩ := hq
    obtain ⟨hshot, hempty⟩ := listen_phases (hs s List.mem_cons_self) hnoise i
    rw [listen_fst d 0 i] at hrest
    obtain ⟨hlist, hpend⟩ := ih (fun s hm => hs s (List.mem_cons_of_mem _ hm)) hempty hrest
      (i + s.phases.length)
    rw [stream_cons, IrtDecoder.listen_append, hshot, hlist]
    exact ⟨rfl, hpend⟩

/-- **No shot is lost, duplicated or altered**: whatever noise surrounds the
telegrams, the decoder reports the sent frames in order, each at its stop mark,
and holds nothing back. -/
theorem listen_stream {d : IrtDecoder} (hp : d.pending = false) {shots : List Shot}
    (hs : ∀ s ∈ shots, s.InTolerance) {after : List Phase} (hq : Quiet d shots after) :
    (d.listen 0 (stream shots after)).2 = sentFrames 0 shots ∧
      (d.listen 0 (stream shots after)).1.pending = false :=
  listen_stream_at hs hp hq 0

/-- A header in the noise in front of the telegram, one bit behind it. -/
theorem listen_stream_one :
    (({} : IrtDecoder).listen 0 (stream [⟨[(true, 2400), (false, 600)], 0x1326, fun _ => -299⟩]
      [(true, 600)])).2 = [(36, 0x1326)] ∧
    (({} : IrtDecoder).listen 0 (stream [⟨[(true, 2400), (false, 600)], 0x1326, fun _ => -299⟩]
      [(true, 600)])).1.pending = false :=
  listen_stream rfl (by simpa using ⟨fun _ => by norm_num, by decide +kernel⟩)
    ⟨⟨rfl, rfl, trivial⟩, by decide +kernel, trivial⟩

end InfinitagNow
