/-
InfinitagNow/PushMoves.lean

What an event can do to the two ends while one image is pushed.

`Move` refines the rules of the box and of the device: the image is read and
sent as it is, the `Update` library does what it is asked, and only packets and
frames of the push come.  Each constructor states the difference an event makes
to the window, the state, the frames that wait and the packets sent, so that a
proof about both ends never looks at the code again.
-/
import InfinitagNow.PushImage
import InfinitagNow.PushSender

namespace InfinitagNow

open UpdateCall

/-! ### The box -/

namespace EspNowPushSender

variable {clock : ℕ → UInt32} {s : EspNowPushSender} {image : List UInt8} {mac : Mac}

/-- The frames of the current window that a mask asks for, as sent. -/
def frames (s : EspNowPushSender) (image : List UInt8) (mask : UInt32) : List Out :=
  (s.asked mask 0 16).map fun idx => .raw s.mac (imageFrame image idx)

theorem first_add_toNat (s : EspNowPushSender) {i : ℕ} (hi : i < 16) :
    (s.first + UInt32.ofNat i).toNat = s.window.toNat * 16 + i :=
  firstFrame_add_toNat s.window hi

/-- A frame asked for is one of the window, and of the image. -/
theorem mem_asked_iff {mask idx : UInt32} :
    idx ∈ s.asked mask 0 16 ↔ ∃ i < 16, bit mask i = true ∧
      s.window.toNat * 16 + i < s.totalFrames.toNat ∧ idx = s.first + UInt32.ofNat i := by
  simp only [asked, List.mem_map, List.mem_filter, List.mem_range'_1, Bool.and_eq_true,
    decide_eq_true_iff, Nat.zero_add, Nat.zero_le, true_and]
  constructor
  · rintro ⟨i, ⟨hi, hbit, hlt⟩, rfl⟩
    rw [s.first_add_toNat hi] at hlt
    exact ⟨i, hi, hbit, hlt, rfl⟩
  · rintro ⟨i, hi, hbit, hlt, rfl⟩
    exact ⟨i, ⟨hi, hbit, by rwa [s.first_add_toNat hi]⟩, rfl⟩

/-- The full mask asks for every frame of the window. -/
theorem mem_asked_windowMask (h : s.Pushes image) {i : ℕ} (hi : i < 16)
    (hlt : s.window.toNat * 16 + i < frameCount image.length) :
    s.first + UInt32.ofNat i ∈ s.asked (s.windowMask s.window) 0 16 := by
  have htotal := h.total
  have hle : firstFrame s.window ≤ s.totalFrames := by
    rw [UInt32.le_iff_toNat_le, firstFrame_toNat]
    omega
  refine mem_asked_iff.2 ⟨i, hi, ?_, by omega, rfl⟩
  rw [windowMask, bit_frameMask hle, firstFrame_toNat, htotal]
  exact decide_eq_true (by omega)

/-- Window and phase of the push stay. -/
structure Keeps (s s' : EspNowPushSender) : Prop where
  window : s'.window = s.window
  windows : s'.windows = s.windows
  endSent : s'.endSent = s.endSent

/-- What an event can do to a push of the image. -/
inductive Move (image : List UInt8) (s : EspNowPushSender) : Event → EspNowPushSender → Prop
  | silent {ev s'} (hwhy : ∀ rx, ev = .control rx → s.state ≠ .pushing ∨ rx.mac ≠ s.mac ∨
        rx.pkt.msgType ≠ msgPushAck ∨ (decodePushAck rx.pkt.payload).window ≠ s.window)
      (hkeeps : Keeps s s') (hstate : s'.state = s.state) (hout : s'.out = s.out) :
      Move image s ev s'
  | giveUp {s'} (hkeeps : Keeps s s') (hleft : ¬ s.RetryLeft) (hstate : s'.state = .failed)
      (hout : s'.out = s.out) : Move image s .loop s'
  | reject {rx s'} (hkeeps : Keeps s s') (hack : rx.pkt.msgType = msgPushAck)
      (hok : (decodePushAck rx.pkt.payload).status ≠ pushAckFinalOk)
      (hwin : (decodePushAck rx.pkt.payload).status ≠ pushAckWindow) (hstate : s'.state = .failed)
      (hout : s'.out = s.out) : Move image s (.control rx) s'
  | finish {rx s'} (hkeeps : Keeps s s') (hok : FinalOk rx.pkt) (hstate : s'.state = .done)
      (hout : s'.out = s.out) : Move image s (.control rx) s'
  | frames {ev s'} (mask : UInt32)
      (hwhy : ∀ rx, ev = .control rx → (decodePushAck rx.pkt.payload).missing ≠ 0)
      (hkeeps : Keeps s s') (hstate : s'.state = s.state)
      (hout : s'.out = s.out ++ s.frames image mask) : Move image s ev s'
  | hello {s'} (b : PushBegin) (mask : UInt32) (hkeeps : Keeps s s') (hend : s.endSent = false)
      (hstate : s'.state = s.state)
      (hout : s'.out = s.out ++ .control s.mac (beginPacket b) :: s.frames image mask) :
      Move image s .loop s'
  | endAgain {s'} (hkeeps : Keeps s s') (hend : s.endSent = true) (hstate : s'.state = s.state)
      (hout : s'.out = s.out ++ [.control s.mac endPacket]) : Move image s .loop s'
  | advance {rx s'} (mask : UInt32) (hack : rx.pkt.msgType = msgPushAck)
      (hwin : (decodePushAck rx.pkt.payload).status = pushAckWindow)
      (heq : (decodePushAck rx.pkt.payload).window = s.window)
      (hmissing : (decodePushAck rx.pkt.payload).missing = 0) (hlt : s.window + 1 < s.windows)
      (hwindow : s'.window = s.window + 1) (hwindows : s'.windows = s.windows)
      (hend : s'.endSent = s.endSent) (hstate : s'.state = s.state)
      (hout : s'.out = s.out ++ s'.frames image mask) : Move image s (.control rx) s'
  | last {rx s'} (hack : rx.pkt.msgType = msgPushAck)
      (hwin : (decodePushAck rx.pkt.payload).status = pushAckWindow)
      (heq : (decodePushAck rx.pkt.payload).window = s.window)
      (hmissing : (decodePushAck rx.pkt.payload).missing = 0) (hge : s.window + 1 ≥ s.windows)
      (hwindow : s'.window = s.window + 1) (hwindows : s'.windows = s.windows)
      (hend : s'.endSent = true) (hstate : s'.state = s.state)
      (hout : s'.out = s.out ++ [.control s.mac endPacket]) : Move image s (.control rx) s'

theorem rule_move (h : s.Pushes image) {ev : Event} (hev : ∀ a, ev ≠ .start a)
    {s' : EspNowPushSender} (hrule : Rule clock s ev s') : Move image s ev s' := by
  have hkeeps : Keeps s s := ⟨rfl, rfl, rfl⟩
  cases hrule with
  | refuse a | start a => exact absurd rfl (hev a)
  | ignore rx hwhy =>
    refine .silent ?_ hkeeps rfl rfl
    rintro _ ⟨⟩
    -- a packet is ignored for one of three reasons
    rcases hwhy with hst | hmac | hack
    · exact .inl hst
    · exact .inr (.inl hmac)
    · exact .inr (.inr (.inl hack))
  | stale rx _ _ _ _ hne =>
    refine .silent ?_ ⟨by simp, by simp, by simp⟩ (by simp) (by simp)
    rintro _ ⟨⟩
    exact .inr (.inr (.inr hne))
  | idle => exact .silent (by simp) hkeeps rfl rfl
  | early => exact .silent (by simp) ⟨rfl, rfl, rfl⟩ rfl rfl
  | finish rx _ _ hok => exact .finish ⟨by simp, by simp, by simp⟩ hok rfl (by simp)
  | reject rx _ _ hack hok hwin =>
    exact .reject ⟨by simp, by simp, by simp⟩ hack hok hwin rfl (by simp)
  | giveUp _ _ hleft => exact .giveUp ⟨by simp, by simp, by simp⟩ hleft rfl (by simp)
  | endAgain _ _ _ hend =>
    exact .endAgain ⟨by simp, by simp, by simp [hend]⟩ hend (by simp) (by simp)
  | advance rx _ _ hack hwin heq hmissing hlt =>
    have hp : s.heard.nextWindow.Pushes image := h.of_eq (by simp) (by simp) (by simp)
    rw [sendWindow_image hp]
    exact .advance (s.heard.nextWindow.windowMask s.heard.nextWindow.window) hack hwin heq hmissing
      hlt (by simp) (by simp) (by simp) (by simp) (by simp [frames, asked, first])
  | last rx _ _ hack hwin heq hmissing hge =>
    exact .last hack hwin heq hmissing hge (by simp) (by simp) (by simp) (by simp) (by simp)
  | resend rx _ _ _ _ _ hmissing =>
    have hp : s.heard.Pushes image := h.of_eq (by simp) (by simp) (by simp)
    rw [sendWindow_image hp]
    refine .frames (decodePushAck rx.pkt.payload).missing ?_ ⟨by simp, by simp, by simp⟩ (by simp)
      (by simp [frames, asked, first])
    rintro _ ⟨⟩
    exact hmissing
  | hello _ _ _ hend =>
    have hp : s.retried.sendBegin.Pushes image := h.of_eq (by simp) (by simp) (by simp)
    rw [sendWindow_image hp]
    exact .hello ⟨s.size, s.crc, s.maj, s.min, s.pat⟩ (s.windowMask s.window)
      ⟨by simp, by simp, by simp⟩ hend (by simp) (by simp [frames, asked, first])
  | again =>
    have hp : s.retried.Pushes image := h.of_eq (by simp) (by simp) (by simp)
    rw [sendWindow_image hp]
    exact .frames (s.windowMask s.window) (by simp) ⟨by simp, by simp, by simp⟩ (by simp)
      (by simp [frames, asked, first])

/-- What a timeout with a retry left does: the step is sent again, END or the
whole window, the latter after a BEGIN while no ack came. -/
structure Resends (image : List UInt8) (s s' : EspNowPushSender) : Prop where
  keeps : Keeps s s'
  state : s'.state = .pushing
  out : s.endSent = true ∧ s'.out = s.out ++ [.control s.mac endPacket] ∨
    s.endSent = false ∧ ∃ pre, (∀ o ∈ pre, ∃ b, o = .control s.mac (beginPacket b)) ∧
      s'.out = s.out ++ (pre ++ s.frames image (s.windowMask s.window))

theorem timeout_resends (h : s.Pushes image) (hst : s.state = .pushing)
    (hdue : ¬ clock s.reads < s.deadline) (hleft : s.RetryLeft) :
    Resends image s (s.loop clock) := by
  have hrule := loop_rule clock s
  generalize s.loop clock = s' at hrule
  cases hrule with
  | idle hne => exact absurd hst hne
  | early _ hearly => exact absurd hearly hdue
  | giveUp _ _ hno => exact absurd hleft hno
  | endAgain _ _ _ hend =>
    exact ⟨⟨by simp, by simp, by simp [hend]⟩, by simpa using hst, .inl ⟨hend, by simp⟩⟩
  | hello _ _ _ hend =>
    have hp : s.retried.sendBegin.Pushes image := h.of_eq (by simp) (by simp) (by simp)
    rw [sendWindow_image hp]
    exact ⟨⟨by simp, by simp, by simp⟩, by simpa using hst, .inr ⟨hend,
      [.control s.mac (beginPacket ⟨s.size, s.crc, s.maj, s.min, s.pat⟩)], by simp,
      by simp [frames, asked, first]⟩⟩
  | again _ _ _ hend =>
    have hp : s.retried.Pushes image := h.of_eq (by simp) (by simp) (by simp)
    rw [sendWindow_image hp]
    exact ⟨⟨by simp, by simp, by simp⟩, by simpa using hst,
      .inr ⟨hend, [], by simp, by simp [frames, asked, first]⟩⟩

/-- Only a running push does anything. -/
theorem Rule.eq_of_not_pushing {ev : Event} {s' : EspNowPushSender} (hrule : Rule clock s ev s')
    (hev : ∀ a, ev ≠ .start a) (hnot : s.state ≠ .pushing) : s' = s := by
  cases hrule with
  | refuse a | start a => exact absurd rfl (hev a)
  | ignore | idle => rfl
  | finish _ hst | reject _ hst | stale _ hst | advance _ hst | last _ hst | resend _ hst
  | early hst | giveUp hst | endAgain hst | hello hst | again hst => exact absurd hst hnot

/-- FINAL_OK ends the push. -/
theorem Rule.done_of_finalOk {rx : RxPacket} {s' : EspNowPushSender}
    (hrule : Rule clock s (.control rx) s') (hst : s.state = .pushing) (hmac : rx.mac = s.mac)
    (hok : FinalOk rx.pkt) : s'.state = .done := by
  have hstatus : ∀ {P : Prop}, (decodePushAck rx.pkt.payload).status = pushAckWindow → P := by
    intro P hwin
    rw [hok.2] at hwin
    exact absurd hwin (by decide)
  cases hrule with
  | ignore _ hwhy =>
    rcases hwhy with hne | hne | hne
    · exact absurd hst hne
    · exact absurd hmac hne
    · exact absurd hok.1 hne
  | finish => rfl
  | reject _ _ _ _ hnot => exact absurd hok.2 hnot
  | stale _ _ _ _ hwin | advance _ _ _ _ hwin | last _ _ _ _ hwin | resend _ _ _ _ hwin =>
    exact hstatus hwin

/-- A window ack does not end the push. -/
theorem Move.state_of_window {rx : RxPacket} {s' : EspNowPushSender}
    (hmove : Move image s (.control rx) s')
    (hwin : (decodePushAck rx.pkt.payload).status = pushAckWindow) : s'.state = s.state := by
  cases hmove with
  | silent _ _ hstate | frames _ _ _ hstate | advance _ _ _ _ _ _ _ _ _ hstate
  | last _ _ _ _ _ _ _ _ hstate => exact hstate
  | reject _ _ _ hnot => exact absurd hwin hnot
  | finish _ hok =>
    rw [hok.2] at hwin
    exact absurd hwin (by decide)

/-- A push of the image has begun: BEGIN and frames of window 0 are sent. -/
structure Started (mac : Mac) (image : List UInt8) (s s' : EspNowPushSender) : Prop where
  windows : s'.windows.toNat = windowCount image.length
  window : s'.window = 0
  endSent : s'.endSent = false
  out : ∃ b mask, s'.out = s.out ++ .control mac (beginPacket b) :: s'.frames image mask

theorem windows_openSession (s : EspNowPushSender) (a : PushArgs) (hle : a.size.toNat ≤ 2 ^ 24) :
    (s.openSession a).windows.toNat = windowCount a.size.toNat := by
  have htotal := totalFramesOf_toNat hle
  have hcount : frameCount a.size.toNat < 2 ^ 17 := by
    unfold frameCount
    omega
  have hsum : (totalFramesOf a.size + pushWindowFrames).toNat = frameCount a.size.toNat + 16 := by
    rw [UInt32.toNat_add, htotal]
    simp [pushWindowFrames]
    omega
  have hpred :
      (totalFramesOf a.size + pushWindowFrames - 1).toNat = frameCount a.size.toNat + 15 := by
    rw [UInt32.toNat_sub_of_le _ _ (by rw [UInt32.le_iff_toNat_le, hsum]; simp), hsum]
    rfl
  simp only [openSession_windows, UInt32.toNat_toUInt16, UInt32.toNat_div, hpred, windowCount]
  simp [pushWindowFrames]
  omega

theorem start_started (clock : ℕ → UInt32) (s : EspNowPushSender) (image : Image)
    (hne : image.bytes ≠ []) (hle : image.bytes.length ≤ 2 ^ 24) (mac : Mac)
    (major minor patch : UInt8) :
    Started mac image.bytes s (s.start clock (image.args mac major minor patch)).2 := by
  have hsession := s.openSession_session image mac major minor patch
  have hsize := hsession.announces.1
  have hp : ((s.openSession (image.args mac major minor patch)).sendBegin).Pushes image.bytes :=
    (hsession.pushes hle).of_eq (by simp) (by simp) (by simp)
  have hsmall : (image.args mac major minor patch).size.toNat ≤ 2 ^ 24 := by
    rw [← hsize] at hle
    exact hle
  have hwindows := s.windows_openSession (image.args mac major minor patch) hsmall
  rw [start_of_ne_nil clock s hne, sendWindow_image hp]
  refine ⟨?_, by simp, by simp,
    ⟨UInt32.ofNat image.bytes.length, crc32 0 image.bytes, major, minor, patch⟩,
    (s.openSession (image.args mac major minor patch)).windowMask 0, ?_⟩
  · rw [← hsize]
    simpa using hwindows
  · simp [frames, asked, first, Image.args]

end EspNowPushSender

/-! ### The device -/

namespace EspNowPushReceiver

variable {plat : Platform} {r : EspNowPushReceiver} {image : List UInt8} {box : Mac}

/-- The library does what a push of the image asks of it. -/
structure Succeeds (plat : Platform) (image : List UInt8) : Prop where
  begin : ∀ log size, size.toNat = image.length → plat.toUpdateLib.begin log size = true
  write : ¬ WriteFails plat
  end_ : ∀ log size, session log = some size → plat.end_ log = true

/-- An event the box causes, of the kinds it can. -/
def Proper (box : Mac) (image : List UInt8) : Event → Prop
  | .control rx => rx.mac = box ∧
      (rx.pkt.msgType = msgPushBegin ∧ Announces image (decodePushBegin rx.pkt.payload) ∨
        rx.pkt.msgType = msgPushEnd)
  | .raw mac data => mac = box ∧ FrameOf image data
  | .loop => False
  | _ => True

/-- The difference an event makes: state and window after it, and the acks
sent; without an ack the time of the last one stays. -/
structure Moves (box : Mac) (r r' : EspNowPushReceiver) (state : RecvState) (window : ℕ)
    (acks : List PushAck) : Prop where
  state : r'.state = state
  window : r'.window.toNat = window
  sends : sends r'.trace = InfinitagNow.sends r.trace ++ acks.map fun a => (box, ackPacket a)
  quiet : acks = [] → r'.lastAckMs = r.lastAckMs

/-- What an event can do to a device that copies the image, and the acks it
sends. -/
inductive Move (plat : Platform) (box : Mac) (image : List UInt8) (r : EspNowPushReceiver) :
    Event → EspNowPushReceiver → List PushAck → Prop
  | rests {ev r'} (hst : r.state ≠ .receiving)
      (hev : ∀ rx, ev = .control rx → rx.pkt.msgType ≠ msgPushBegin)
      (h : Moves box r r' r.state r.window.toNat []) (hmask : r'.haveMask = r.haveMask)
      (hqueue : r'.queue = r.queue) : Move plat box image r ev r' []
  | opens {rx r'} (hst : r.state ≠ .receiving) (hbegin : rx.pkt.msgType = msgPushBegin)
      (h : Moves box r r' .receiving 0 []) (hmask : r'.haveMask = 0) (hqueue : r'.queue = r.queue) :
      Move plat box image r (.control rx) r' []
  | repeats {rx r'} (hst : r.state = .receiving) (hbegin : rx.pkt.msgType = msgPushBegin)
      (h : Moves box r r' .receiving r.window.toNat []) (hmask : r'.haveMask = r.haveMask)
      (hqueue : r'.queue = r.queue) : Move plat box image r (.control rx) r' []
  | endEarly {rx r'} (missing : UInt32) (hst : r.state = .receiving)
      (hend : rx.pkt.msgType = msgPushEnd) (hlt : r.window.toNat < windowCount image.length)
      (hmissing : missing ≠ 0)
      (h : Moves box r r' .receiving r.window.toNat [⟨r.window, missing, pushAckWindow, 0⟩])
      (hmask : r'.haveMask = r.haveMask) (hqueue : r'.queue = r.queue) :
      Move plat box image r (.control rx) r' [⟨r.window, missing, pushAckWindow, 0⟩]
  | commits {rx r'} (hst : r.state = .receiving) (hend : rx.pkt.msgType = msgPushEnd)
      (hge : windowCount image.length ≤ r.window.toNat)
      (h : Moves box r r' .done r.window.toNat
        (List.replicate 2 ⟨0xFFFF, 0, pushAckFinalOk, 0⟩))
      (hmask : r'.haveMask = r.haveMask) (hqueue : r'.queue = r.queue) :
      Move plat box image r (.control rx) r' (List.replicate 2 ⟨0xFFFF, 0, pushAckFinalOk, 0⟩)
  | enqueues {mac data r'} (f : RawFrame) (hst : r.state = .receiving) (hf : f.bytes = data)
      (h : Moves box r r' .receiving r.window.toNat []) (hmask : r'.haveMask = r.haveMask)
      (hqueue : r'.queue = r.queue.push f) : Move plat box image r (.raw mac data) r' []
  | empty {r'} (hst : r.state = .receiving) (hnil : r.queue.toList = [])
      (h : Moves box r r' .receiving r.window.toNat []) (hmask : r'.haveMask = r.haveMask)
      (hqueue : r'.queue = r.queue) : Move plat box image r .drain r' []
  | stale {r'} (f : RawFrame) (hst : r.state = .receiving)
      (hpop : r.queue.toList = f :: r'.queue.toList)
      (hlt : f.frameIdx.toNat < r.window.toNat * 16)
      (hdue : ¬ plat.millis (r.reads + 1) - r.lastAckMs > 100) (hreads : r.reads + 1 < r'.reads)
      (h : Moves box r r' .receiving r.window.toNat []) (hmask : r'.haveMask = r.haveMask) :
      Move plat box image r .drain r' []
  | reack {r'} (f : RawFrame) (window : UInt16) (hst : r.state = .receiving)
      (hpop : r.queue.toList = f :: r'.queue.toList)
      (hlt : f.frameIdx.toNat < r.window.toNat * 16)
      (hwindow : window.toNat = f.frameIdx.toNat / 16)
      (h : Moves box r r' .receiving r.window.toNat [⟨window, 0, pushAckWindow, 0⟩])
      (hmask : r'.haveMask = r.haveMask) :
      Move plat box image r .drain r' [⟨window, 0, pushAckWindow, 0⟩]
  | future {r'} (f : RawFrame) (hst : r.state = .receiving)
      (hpop : r.queue.toList = f :: r'.queue.toList)
      (hge : r.window.toNat * 16 + 16 ≤ f.frameIdx.toNat)
      (h : Moves box r r' .receiving r.window.toNat []) (hmask : r'.haveMask = r.haveMask) :
      Move plat box image r .drain r' []
  | stores {r'} (f : RawFrame) (i : ℕ) (hst : r.state = .receiving)
      (hpop : r.queue.toList = f :: r'.queue.toList) (hi : i < 16)
      (hidx : f.frameIdx.toNat = r.frameNo i) (h : Moves box r r' .receiving r.window.toNat [])
      (hmask : ∀ j, bit r'.haveMask j = true ↔ bit r.haveMask j = true ∨ j = i) :
      Move plat box image r .drain r' []
  | completes {r'} (f : RawFrame) (hst : r.state = .receiving)
      (hpop : r.queue.toList = f :: r'.queue.toList)
      (hge : r.window.toNat * 16 ≤ f.frameIdx.toNat)
      (hlt : r.window.toNat < windowCount image.length)
      (h : Moves box r r' .receiving (r.window.toNat + 1)
        (List.replicate 2 ⟨r.window, 0, pushAckWindow, 0⟩)) (hmask : r'.haveMask = 0) :
      Move plat box image r .drain r' (List.replicate 2 ⟨r.window, 0, pushAckWindow, 0⟩)
  | calm {r'} (hst : r.state = .receiving) (h : Moves box r r' .receiving r.window.toNat [])
      (hmask : r'.haveMask = r.haveMask) (hqueue : r'.queue = r.queue) :
      Move plat box image r .tail r' []
  | asks {r'} (missing : UInt32) (hst : r.state = .receiving) (hne : r.haveMask ≠ 0)
      (hmissing : missing ≠ 0)
      (h : Moves box r r' .receiving r.window.toNat [⟨r.window, missing, pushAckWindow, 0⟩])
      (hmask : r'.haveMask = r.haveMask) (hqueue : r'.queue = r.queue) :
      Move plat box image r .tail r' [⟨r.window, missing, pushAckWindow, 0⟩]

theorem Move.sends {ev : Event} {r' : EspNowPushReceiver} {acks : List PushAck}
    (h : Move plat box image r ev r' acks) :
    sends r'.trace = InfinitagNow.sends r.trace ++ acks.map fun a => (box, ackPacket a) := by
  cases h <;> exact Moves.sends ‹Moves box r r' _ _ _›

/-- Only an END ends a session that copies the image. -/
theorem Move.receiving {ev : Event} {r' : EspNowPushReceiver} {acks : List PushAck}
    (h : Move plat box image r ev r' acks) (hst : r.state = .receiving)
    (hev : ∀ rx, ev = .control rx → rx.pkt.msgType ≠ msgPushEnd) : r'.state = .receiving := by
  cases h with
  | rests hne => exact absurd hst hne
  | commits _ hend => exact absurd hend (hev _ rfl)
  | _ => exact Moves.state ‹Moves box r r' _ _ _›

/-- An END after the last window commits the image. -/
theorem Move.acks_of_end {rx : RxPacket} {r' : EspNowPushReceiver} {acks : List PushAck}
    (h : Move plat box image r (.control rx) r' acks) (hst : r.state = .receiving)
    (hend : rx.pkt.msgType = msgPushEnd) (hge : windowCount image.length ≤ r.window.toNat) :
    acks = List.replicate 2 ⟨0xFFFF, 0, pushAckFinalOk, 0⟩ := by
  have hbegin : rx.pkt.msgType ≠ msgPushBegin := by
    rw [hend]
    decide
  cases h with
  | rests hne | opens hne => exact absurd hst hne
  | repeats _ hb => exact absurd hb hbegin
  | endEarly _ _ _ hlt => omega
  | commits => rfl

/-- Something is asked for while the window is not done. -/
theorem Serves.missing_ne_zero (h : r.Serves box image) (hst : r.state = .receiving)
    (hlt : r.window.toNat < windowCount image.length) :
    r.windowExpectMask &&& ~~~r.haveMask ≠ 0 := by
  obtain ⟨i, hneeds, hbit⟩ := h.missing hst hlt
  intro hzero
  have hexpect := ((h.copies hst).bit_expect hlt i).2 hneeds
  have hhave := and_not_eq_zero_iff.1 hzero i (by have := hneeds.1; omega) hexpect
  rw [hbit] at hhave
  exact absurd hhave (by decide)

/-- Marked rows belong to a window of the image. -/
theorem Copies.lt_of_mask (h : r.Copies box image) (hne : r.haveMask ≠ 0) :
    r.window.toNat < windowCount image.length := by
  obtain ⟨i, hi⟩ : ∃ i, bit r.haveMask i = true := by
    by_contra hno
    refine hne (bit_ext fun i _ => ?_)
    rw [bit_zero]
    exact Bool.eq_false_iff.2 fun hi => hno ⟨i, hi⟩
  have hneeds := (h.row i hi).1.2
  unfold frameNo at hneeds
  unfold windowCount
  omega

theorem tail_move (h : r.Serves box image) :
    ∃ acks, Move plat box image r .tail (r.tail plat) acks := by
  have hrule := tail_rule plat r
  generalize r.tail plat = r' at hrule
  cases hrule with
  | calm k =>
    by_cases hst : r.state = .receiving
    · exact ⟨_, .calm hst ⟨hst, rfl, by simp, by simp⟩ rfl rfl⟩
    · exact ⟨_, .rests hst (by simp) ⟨rfl, rfl, by simp, by simp⟩ rfl rfl⟩
  | periodic k hst hne =>
    exact ⟨_, .asks _ hst hne (h.missing_ne_zero hst ((h.copies hst).lt_of_mask hne))
      ⟨by simpa using hst, by simp, by simp [(h.copies hst).srcMac], by simp⟩ (by simp) (by simp)⟩

/-- A frame of the image is queued while a session runs. -/
theorem raw_move (h : r.Serves box image) {mac : Mac} {data : List UInt8}
    (hev : Proper box image (.raw mac data)) :
    ∃ acks, Move plat box image r (.raw mac data) (r.rawHandler mac data) acks := by
  obtain ⟨rfl, idx, -, rfl⟩ := hev
  by_cases hst : r.state = .receiving
  · have hsize : rawHdr ≤ (imageFrame image idx).length ∧ (imageFrame image idx).length ≤ 250 := by
      have hlen : (imageFrame image idx).length = 8 + (chunk 242 image idx.toNat).length := by
        simp [imageFrame, rawBytes, rawMagic]
        omega
      have := length_chunk_le (k := 242) (l := image) (i := idx.toNat)
      rw [hlen, rawHdr]
      omega
    have hmagic : (imageFrame image idx).take 4 = rawMagic := rfl
    have heq : r.rawHandler mac (imageFrame image idx) =
        { r with queue := r.queue.push ⟨imageFrame image idx, hsize.1, hsize.2⟩ } := by
      simp [rawHandler, hst, hsize, hmagic, (h.copies hst).srcMac]
    rw [heq]
    exact ⟨_, .enqueues ⟨imageFrame image idx, hsize.1, hsize.2⟩ hst rfl
      ⟨hst, rfl, by simp, by simp⟩ rfl rfl⟩
  · have heq : r.rawHandler mac (imageFrame image idx) = r := by simp [rawHandler, hst]
    rw [heq]
    exact ⟨_, .rests hst (by simp) ⟨rfl, rfl, by simp, by simp⟩ rfl rfl⟩

section Moves

variable (hsucc : Succeeds plat image) (h : r.Serves box image)
include hsucc h

theorem control_move (hne : image ≠ []) {rx : RxPacket} (hev : Proper box image (.control rx)) :
    ∃ acks, Move plat box image r (.control rx) (r.onControl plat rx) acks := by
  obtain ⟨hmac, hkind⟩ := hev
  have hrule := onControl_rule plat r rx
  generalize r.onControl plat rx = r' at hrule
  have hpos : image.length ≠ 0 := by simpa using hne
  have hann : rx.pkt.msgType = msgPushBegin → Announces image (decodePushBegin rx.pkt.payload) := by
    intro hbegin
    rcases hkind with hb | hend
    · exact hb.2
    · rw [hbegin] at hend
      exact absurd hend (by decide)
  have hsrc : r.state = .receiving → rx.mac = r.srcMac := fun hst => by
    rw [hmac, (h.copies hst).srcMac]
  cases hrule with
  | ignore _ hbegin hend =>
    have hst : r.state ≠ .receiving := fun hst =>
      hend ⟨hkind.resolve_left fun hb => hbegin hb.1, hst, hsrc hst⟩
    refine ⟨_, .rests hst ?_ ⟨by simp, by simp, by simp, by simp⟩ (by simp) (by simp)⟩
    rintro _ ⟨⟩
    exact hbegin
  | busy _ _ hst hother => exact absurd (hsrc hst) hother
  | duplicate _ hbegin hst =>
    exact ⟨_, .repeats hst hbegin ⟨by simpa using hst, by simp, by simp, by simp⟩ (by simp)
      (by simp)⟩
  | refuseEmpty _ hbegin _ hsize =>
    -- the image is not empty
    have hlen := (hann hbegin).1
    rw [hsize] at hlen
    exact absurd hlen.symm hpos
  | refuse _ hbegin _ hok =>
    rw [hsucc.begin _ _ (hann hbegin).1] at hok
    exact absurd hok (by decide)
  | accept _ hbegin hst =>
    exact ⟨_, .opens hst hbegin ⟨by simp, by simp, by simp, by simp⟩ (by simp) (by simp)⟩
  | endEarly _ hend hst _ hlt =>
    have hwin := (h.copies hst).first_lt_iff.1 hlt
    exact ⟨_, .endEarly _ hst hend hwin (h.missing_ne_zero hst hwin)
      ⟨by simpa using hst, by simp, by simp [(h.copies hst).srcMac], by simp⟩ (by simp) (by simp)⟩
  | endMismatch _ _ hst _ hge hbad =>
    -- size and CRC are those announced
    have hc := h.copies hst
    have hall : image.take (3872 * r.window.toNat) = image := by
      rw [← hc.flashed, hc.flashed_all hge]
    have hsize : r.bytesDone = r.begin.size := by
      have hlen := congrArg List.length hall
      rw [List.length_take] at hlen
      rw [← UInt32.toNat_inj, hc.done, hc.begin.1]
      omega
    have hcrc : r.crc = r.begin.crc32 := by rw [hc.crc, hall, hc.begin.2]
    exact absurd hbad (by simp [hsize, hcrc])
  | endFlash _ _ hst _ _ _ _ hok =>
    rw [hsucc.end_ _ _ (h.copies hst).session] at hok
    exact absurd hok (by decide)
  | commit _ hend hst _ hge =>
    have hwin := (h.copies hst).first_lt_iff.not.1 hge
    exact ⟨_, .commits hst hend (not_lt.1 hwin) ⟨by simp, by simp,
      by simp [(h.copies hst).srcMac], by simp⟩ (by simp) (by simp)⟩

theorem drain_move : ∃ acks, Move plat box image r .drain (r.drain plat) acks := by
  have hrule := drain_rule plat r
  generalize r.drain plat = r' at hrule
  have hpopf : ∀ {f q}, r.queue.pop = some (f, q) → FrameOf image f.bytes := by
    intro f q hpop
    refine h.queue f ?_
    rw [Ring.toList_of_pop_some hpop]
    exact List.mem_cons_self
  have hfirst : ∀ {f : RawFrame}, f.frameIdx < r.first →
      f.frameIdx.toNat < r.window.toNat * 16 := by
    intro f hlt
    rw [← first_toNat]
    exact UInt32.lt_iff_toNat_lt.1 hlt
  cases hrule with
  | quiet hwhy =>
    by_cases hst : r.state = .receiving
    · exact ⟨_, .empty hst (hwhy.resolve_left (not_not.2 hst)) ⟨hst, rfl, by simp, by simp⟩ rfl rfl⟩
    · exact ⟨_, .rests hst (by simp) ⟨rfl, rfl, by simp, by simp⟩ rfl rfl⟩
  | stale f q hst hpop hlt hdue =>
    exact ⟨_, .stale f hst (by simpa using Ring.toList_of_pop_some hpop) (hfirst hlt) hdue (by simp)
      ⟨by simpa using hst, by simp, by simp, by simp⟩ (by simp)⟩
  | reack f q hst hpop hlt hdue =>
    have hidx := hfirst hlt
    have hwin := r.window.toNat_lt
    -- the window of the frame fits the 16 bits of the ack
    have hdiv : (f.frameIdx / pushWindowFrames).toUInt16.toNat = f.frameIdx.toNat / 16 := by
      simp [pushWindowFrames]
      omega
    exact ⟨_, .reack f _ hst (by simpa using Ring.toList_of_pop_some hpop) hidx hdiv
      ⟨by simpa using hst, by simp, by simp [(h.copies hst).srcMac], by simp⟩ (by simp)⟩
  | future f q hst hpop hge =>
    have hidx : r.window.toNat * 16 + 16 ≤ f.frameIdx.toNat := by
      rw [← window_end_toNat]
      exact UInt32.le_iff_toNat_le.1 hge
    exact ⟨_, .future f hst (by simpa using Ring.toList_of_pop_some hpop) hidx
      ⟨by simpa using hst, by simp, by simp, by simp⟩ (by simp)⟩
  | store f q hst hpop hge hlt hmask =>
    exact ⟨_, .stores f _ hst (by simpa using Ring.toList_of_pop_some hpop) (rowOf_lt hge hlt)
      (frameNo_rowOf hge hlt).symm ⟨by simpa using hst, by simp, by simp, by simp⟩
      (bit_stored hge hlt)⟩
  | complete f q hst hpop hge hlt hmask =>
    have hc : ({ r with queue := q }.touched plat).Copies box image :=
      ((h.copies hst).queue q).touched plat
    have hc' := (hc.stored hge hlt (hpopf hpop)).logRemain
    have hwin := window_lt_of_frame hge hlt (hpopf hpop)
    have hfull := ((h.copies hst).full_iff hwin _).1 hmask
    -- the library takes every row, so the window is finished
    rcases hc'.finishWindow plat hst hwin hfull with hnext | ⟨-, hfails⟩
    · have hidx : r.window.toNat * 16 ≤ f.frameIdx.toNat := by
        rw [← first_toNat]
        exact UInt32.le_iff_toNat_le.1 (UInt32.not_lt.1 hge)
      exact ⟨_, .completes f hst (by simpa using Ring.toList_of_pop_some hpop) hidx hwin
        ⟨hnext.state, by simpa using hnext.window, by simpa using hnext.sends, by simp⟩
        hnext.haveMask⟩
    · exact absurd hfails hsucc.write

/-- The list of moves is complete. -/
theorem step_move (hne : image ≠ []) {ev : Event} (hev : Proper box image ev) :
    ∃ acks, Move plat box image r ev (r.step plat ev) acks := by
  cases ev with
  | control rx => exact control_move hsucc h hne hev
  | raw mac data => exact raw_move h hev
  | drain => exact drain_move hsucc h
  | tail => exact tail_move h
  | loop => exact absurd hev id

end Moves

end EspNowPushReceiver

end InfinitagNow
