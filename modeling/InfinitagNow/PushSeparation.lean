/-
InfinitagNow/PushSeparation.lean

Push data and protocol packets share the radio, and a receiver tells them apart
by `validate` alone.  A raw frame begins with 'I' 'N': 'I' is not the protocol
version and 'N' is no rescue message, so whatever its length and its last two
bytes are, it is no packet.  A sealed packet is always one.
-/
import InfinitagNow.EspNowService
import InfinitagNow.PushReceiver
import InfinitagNow.PushSender

namespace InfinitagNow

/-! ### Raw frames are no packets -/

theorem validate_rawBytes (idx : UInt32) (data : List UInt8) :
    validate (rawBytes idx data) = false := by
  by_contra h
  have h : validate (rawBytes idx data) = true := by simpa using h
  obtain ⟨-, hversion, -⟩ := validate_iff.1 h
  have h0 : (rawBytes idx data).getD 0 0 = 0x49 := rfl
  have h1 : (rawBytes idx data).getD 1 0 = 0x4E := rfl
  rw [h0, h1] at hversion
  exact absurd hversion (by decide)

theorem length_rawBytes (idx : UInt32) (data : List UInt8) :
    (rawBytes idx data).length = 8 + data.length := by
  simp [rawBytes, rawMagic]
  omega

namespace EspNowPushReceiver

/-- In a session with its sender, a raw frame is queued. -/
theorem rawHandler_rawBytes {r : EspNowPushReceiver} (hst : r.state = .receiving) (idx : UInt32)
    {data : List UInt8} (hle : data.length ≤ 242) :
    ∃ frame : RawFrame, frame.bytes = rawBytes idx data ∧
      r.rawHandler r.srcMac (rawBytes idx data) = { r with queue := r.queue.push frame } := by
  have hlen : rawHdr ≤ (rawBytes idx data).length ∧ (rawBytes idx data).length ≤ 250 := by
    rw [length_rawBytes, rawHdr]
    omega
  have hmagic : (rawBytes idx data).take 4 = rawMagic := rfl
  refine ⟨⟨rawBytes idx data, hlen.1, hlen.2⟩, rfl, ?_⟩
  rw [rawHandler, if_neg (not_not.2 hst), dif_pos hlen, if_neg (not_not.2 hmagic),
    if_neg (not_not.2 rfl)]

end EspNowPushReceiver

/-! ### What a sender hands to the radio -/

namespace EspNowPushSender

variable {clock : ℕ → UInt32} {s s' : EspNowPushSender}

/-- A raw frame with 1 to 242 data bytes. -/
def IsRaw (bytes : List UInt8) : Prop :=
  ∃ idx data, 1 ≤ data.length ∧ data.length ≤ 242 ∧ bytes = rawBytes idx data

/-- The frame count belongs to the size, and every raw frame sent so far carries
data. -/
structure WellCut (s : EspNowPushSender) : Prop where
  total : s.totalFrames = totalFramesOf s.size
  frames : ∀ mac bytes, .raw mac bytes ∈ s.out → IsRaw bytes

theorem WellCut.of_eq (h : s.WellCut) (hout : s'.out = s.out := by simp)
    (hsize : s'.size = s.size := by simp) (htotal : s'.totalFrames = s.totalFrames := by simp) :
    s'.WellCut :=
  ⟨by rw [htotal, hsize, h.total], by rw [hout]; exact h.frames⟩

theorem WellCut.emit_control (h : s.WellCut) (mac : Mac) (pkt : Packet) :
    (s.emit (.control mac pkt)).WellCut := by
  refine ⟨h.total, fun mac' bytes hmem => h.frames mac' bytes ?_⟩
  simpa using hmem

theorem WellCut.sendBegin (h : s.WellCut) : s.sendBegin.WellCut := h.emit_control _ _

theorem WellCut.sendEnd (h : s.WellCut) : s.sendEnd.WellCut :=
  (h.emit_control s.mac endPacket).of_eq

theorem WellCut.sendWindow (h : s.WellCut) (mask : UInt32) : (s.sendWindow mask).WellCut := by
  obtain ⟨heq, ⟨new, hout, hnew⟩, -⟩ := s.sendWindow_transmits mask
  have hsize : (s.sendWindow mask).size = s.size := by rw [heq]
  have htotal : (s.sendWindow mask).totalFrames = s.totalFrames := by rw [heq]
  refine ⟨by rw [htotal, hsize, h.total], fun mac bytes hmem => ?_⟩
  rw [hout, List.mem_append] at hmem
  rcases hmem with hmem | hmem
  · exact h.frames mac bytes hmem
  · obtain ⟨idx, data, hidx, hlen, heq⟩ := hnew _ hmem
    obtain ⟨-, rfl⟩ := Out.raw.inj heq
    rw [h.total] at hidx
    obtain ⟨hstart, hframe⟩ := frameLen_of_lt hidx
    exact ⟨idx, data, by omega, by omega, rfl⟩

theorem WellCut.wait (h : s.WellCut) (ms : UInt32) : (s.wait clock ms).WellCut := h.of_eq

theorem WellCut.rule {ev : Event} (hrule : Rule clock s ev s') (h : s.WellCut) : s'.WellCut := by
  have hheard : s.heard.WellCut := h.of_eq
  have hnext : s.heard.nextWindow.WellCut := hheard.of_eq
  have hretried : s.retried.WellCut := h.of_eq
  cases hrule with
  | refuse | ignore | idle => exact h
  | start a =>
    have hopen : (s.openSession a).WellCut := ⟨rfl, h.frames⟩
    exact (hopen.sendBegin.sendWindow _).wait 500
  | finish | reject | giveUp => exact h.of_eq
  | stale => exact hheard
  | advance => exact (hnext.sendWindow _).wait 500
  | last => exact hnext.sendEnd.wait 2000
  | resend => exact (hheard.sendWindow _).wait 500
  | early => exact h.of_eq
  | endAgain => exact hretried.sendEnd.wait 2000
  | hello => exact (hretried.sendBegin.sendWindow _).wait 500
  | again => exact (hretried.sendWindow _).wait 500

theorem WellCut.run (h : s.WellCut) (clock : ℕ → UInt32) (evs : List Event) :
    (s.run clock evs).WellCut :=
  run_invariant (E := fun _ => True) (fun hrule _ h => h.rule hrule) h fun _ _ => trivial

theorem wellCut_init : ({} : EspNowPushSender).WellCut :=
  ⟨by decide, by simp⟩

end EspNowPushSender

/-! ### The two kinds -/

/-- A packet as `init` leaves it, filled in. -/
def filledPacket (msgType deviceType flags token : UInt8) (payload : Payload) : Packet :=
  { Packet.init msgType deviceType with flags := flags, token := token, payload := payload }

/-- **Push data and packets cannot be confused**: what a push sender sends as raw
frames reaches the raw handler only, what is sent as a packet reaches the ring
only. -/
theorem push_and_packets_apart :
    (∀ clock evs mac bytes, Out.raw mac bytes ∈ (({} : EspNowPushSender).run clock evs).out →
      EspNowPushSender.IsRaw bytes) ∧
    (∀ bytes, EspNowPushSender.IsRaw bytes → validate bytes = false ∧
      ∀ (net : EspNowService EspNowPushReceiver) (mac : Mac) (r : EspNowPushReceiver),
        net.raw = some (fun mac data r => r.rawHandler mac data) →
          net.onRecv mac bytes r = (net, r.rawHandler mac bytes) ∧
            (r.state = .receiving → mac = r.srcMac → ∃ frame : RawFrame, frame.bytes = bytes ∧
              r.rawHandler mac bytes = { r with queue := r.queue.push frame })) ∧
    ∀ msgType deviceType flags token payload,
      (∀ (ρ : Type) (lib : NowLib) (net : EspNowService ρ) (mac : Mac) (frame : Mac × List UInt8),
        (frame ∈ frames (net.send lib mac
            (filledPacket msgType deviceType flags token payload)).1.log ∨
          frame ∈ frames (net.sendBroadcast lib
            (filledPacket msgType deviceType flags token payload)).1.log) →
          frame ∈ frames net.log ∨
            frame.2 = (filledPacket msgType deviceType flags token payload).seal.bytes) ∧
      validate (filledPacket msgType deviceType flags token payload).seal.bytes = true ∧
      ∀ (ρ : Type) (net : EspNowService ρ) (src : Mac) (owner : ρ),
        ∃ rx : RxPacket, rx.mac = src ∧
          rx.pkt.bytes = (filledPacket msgType deviceType flags token payload).seal.bytes ∧
          net.onRecv src (filledPacket msgType deviceType flags token payload).seal.bytes owner =
            ({ net with ring := net.ring.push rx }, owner) ∧
          (net.ring.length < 7 → (net.ring.push rx).toList = net.ring.toList ++ [rx]) := by
  refine ⟨fun clock evs => (EspNowPushSender.wellCut_init.run clock evs).frames, ?_, ?_⟩
  · rintro _ ⟨idx, data, -, hle, rfl⟩
    have hraw := validate_rawBytes idx data
    refine ⟨hraw, fun net mac r hnet => ⟨EspNowService.onRecv_raw hnet hraw, ?_⟩⟩
    -- long enough and not too long, with the magic bytes
    rintro hst rfl
    exact EspNowPushReceiver.rawHandler_rawBytes hst idx hle
  · intro msgType deviceType flags token payload
    have hvalid : validate (filledPacket msgType deviceType flags token payload).seal.bytes =
        true := validate_seal (.inl rfl)
    refine ⟨fun ρ lib net mac frame hmem => ?_, hvalid, fun ρ net src owner => ?_⟩
    · rcases hmem with hmem | hmem
      · rcases EspNowService.frames_send_eq lib net mac
          (filledPacket msgType deviceType flags token payload) with h | h
        · rw [h] at hmem
          exact .inl hmem
        · rw [h, List.mem_cons] at hmem
          exact hmem.symm.imp id fun h => by rw [h]
      · rw [EspNowService.frames_sendBroadcast, List.mem_cons] at hmem
        exact hmem.symm.imp id fun h => by rw [h]
    · refine ⟨⟨src, (filledPacket msgType deviceType flags token payload).seal⟩, rfl, rfl, ?_,
        fun hroom => ?_⟩
      · rw [EspNowService.onRecv_packet hvalid, Packet.ofBytes_bytes]
      · rw [Ring.toList_push, if_pos (by omega)]

end InfinitagNow
