/-
InfinitagNow/PushJoint.lean

Box and device never drift apart by more than one window.

The network loses packets but keeps their order, the `Update` library does what
it is asked, and one image is pushed.  `Joint` is the invariant over both windows
and everything on its way; `Joint.run` holds it in every state of a push.
-/
import InfinitagNow.PushMoves
import InfinitagNow.PushNet

namespace InfinitagNow

open UpdateCall

/-! ### What is sent -/

theorem controlsTo_frames (mac : Mac) (s : EspNowPushSender) (image : List UInt8) (mask : UInt32) :
    controlsTo mac (s.frames image mask) = [] := by
  simp [controlsTo, EspNowPushSender.frames]

theorem framesTo_frames {mac : Mac} {s : EspNowPushSender} (hmac : s.mac = mac)
    (image : List UInt8) (mask : UInt32) :
    framesTo mac (s.frames image mask) = (s.asked mask 0 16).map (imageFrame image) := by
  simp [framesTo, EspNowPushSender.frames, hmac, List.filterMap_map]

/-- BEGIN packets are no frames. -/
theorem framesTo_begins {mac : Mac} {pre : List Out}
    (h : ∀ o ∈ pre, ∃ b, o = .control mac (beginPacket b)) (out : List Out) :
    framesTo mac (pre ++ out) = framesTo mac out := by
  have hnil : framesTo mac pre = [] := by
    rw [framesTo, List.filterMap_eq_nil_iff]
    intro o ho
    obtain ⟨b, rfl⟩ := h o ho
    rfl
  have happend : framesTo mac (pre ++ out) = framesTo mac pre ++ framesTo mac out :=
    List.filterMap_append
  rw [happend, hnil, List.nil_append]

theorem acksTo_map {mac : Mac} (acks : List PushAck) :
    acksTo mac (acks.map fun a => (mac, ackPacket a)) = acks.map ackPacket := by
  simp [acksTo, List.filterMap_map]

namespace Net

variable {w : Radio} {image : List UInt8} {n : Net}

/-- An ack on its way: a window said to be done is done, and FINAL_OK answers
an END. -/
def AckOk (window : ℕ) (endSent : Bool) (pkt : Packet) : Prop :=
  ∃ a, pkt = ackPacket a ∧ (a.status = pushAckWindow ∧ (a.missing = 0 → a.window.toNat < window) ∨
    a.status = pushAckFinalOk ∧ endSent = true)

/-- A frame of the image that belongs to the first `window + 1` windows. -/
def SentFrame (image : List UInt8) (window : ℕ) (bytes : List UInt8) : Prop :=
  ∃ idx : UInt32, bytes = imageFrame image idx ∧ idx.toNat < frameCount image.length ∧
    idx.toNat < (window + 1) * 16

/-- The invariant: the device is at the window of the box or at the next one,
and what is on its way fits. -/
structure Joint (w : Radio) (image : List UInt8) (n : Net) : Prop where
  agree : n.Agree w image
  windows : n.box.windows.toNat = windowCount image.length
  window_le : n.box.window.toNat ≤ windowCount image.length
  endSent : n.box.endSent = true ↔ n.box.window.toNat = windowCount image.length
  state : n.dev.state ≠ .failed
  idle : n.dev.state = .idle → n.box.window.toNat = 0 ∧ n.acks = []
  drift : n.dev.state ≠ .idle →
    n.box.window.toNat ≤ n.dev.window.toNat ∧ n.dev.window.toNat ≤ n.box.window.toNat + 1
  dev_window_le : n.dev.state ≠ .idle → n.dev.window.toNat ≤ windowCount image.length
  mask : n.dev.state = .receiving → n.dev.haveMask ≠ 0 → n.dev.window.toNat ≤ n.box.window.toNat
  queue : ∀ f ∈ n.dev.queue.toList, f.frameIdx.toNat < (n.box.window.toNat + 1) * 16
  raw : ∀ bytes ∈ n.raw, SentFrame image n.box.window.toNat bytes
  acks : ∀ pkt ∈ n.acks, AckOk n.dev.window.toNat n.box.endSent pkt
  ctrl : ∀ pkt ∈ n.ctrl,
    pkt.msgType = msgPushBegin ∨ pkt.msgType = msgPushEnd ∧ n.box.endSent = true
  /-- no BEGIN comes after an END -/
  order : n.ctrl.Pairwise fun p q => p.msgType = msgPushEnd → q.msgType ≠ msgPushBegin
  done : n.dev.state = .done → n.box.endSent = true ∧ ∀ pkt ∈ n.ctrl, pkt.msgType ≠ msgPushBegin

theorem AckOk.mono {window window' : ℕ} {e e' : Bool} {pkt : Packet} (h : AckOk window e pkt)
    (hle : window ≤ window') (he : e = true → e' = true) : AckOk window' e' pkt := by
  obtain ⟨a, rfl, ⟨hst, hwin⟩ | ⟨hst, hend⟩⟩ := h
  · exact ⟨a, rfl, .inl ⟨hst, fun hm => lt_of_lt_of_le (hwin hm) hle⟩⟩
  · exact ⟨a, rfl, .inr ⟨hst, he hend⟩⟩

theorem SentFrame.mono {window window' : ℕ} {bytes : List UInt8} (h : SentFrame image window bytes)
    (hle : window ≤ window') : SentFrame image window' bytes := by
  obtain ⟨idx, hbytes, hidx, hlt⟩ := h
  exact ⟨idx, hbytes, hidx, by omega⟩

/-- A lost packet changes nothing. -/
theorem Joint.lose (h : n.Joint w image) (c : Channel) (i : ℕ) : (n.lose c i).Joint w image := by
  have hagree := h.agree.lose c i
  cases c with
  | ctrl =>
    exact { h with
      agree := hagree
      ctrl := fun p hp => h.ctrl p (mem_of_mem_eraseIdx hp)
      order := h.order.sublist (List.eraseIdx_sublist _ _)
      done := fun hst => ⟨(h.done hst).1, fun p hp => (h.done hst).2 p (mem_of_mem_eraseIdx hp)⟩ }
  | raw => exact { h with agree := hagree, raw := fun b hb => h.raw b (mem_of_mem_eraseIdx hb) }
  | acks =>
    exact { h with
      agree := hagree
      idle := fun hst => ⟨(h.idle hst).1, by simp [Net.lose, (h.idle hst).2]⟩
      acks := fun p hp => h.acks p (mem_of_mem_eraseIdx hp) }

/-- What a move of the box must respect: a window goes by when the device has
done it, and BEGIN is not sent after END. -/
structure BoxOk (image : List UInt8) (n : Net) (box : EspNowPushSender) (ctrl : List Packet)
    (raw : List (List UInt8)) : Prop where
  windows : box.windows = n.box.windows
  window : box.window.toNat = n.box.window.toNat ∧ box.endSent = n.box.endSent ∨
    box.window.toNat = n.box.window.toNat + 1 ∧ n.dev.state ≠ .idle ∧
      n.box.window.toNat < n.dev.window.toNat ∧ box.window.toNat ≤ windowCount image.length ∧
      (box.endSent = true ↔ box.window.toNat = windowCount image.length)
  ctrl : ctrl = [] ∨ ∃ pkt, ctrl = [pkt] ∧ (pkt.msgType = msgPushBegin ∧ n.box.endSent = false ∨
    pkt.msgType = msgPushEnd ∧ box.endSent = true)
  raw : ∀ bytes ∈ raw, SentFrame image box.window.toNat bytes

theorem Joint.of_box (h : n.Joint w image) {box : EspNowPushSender} {ctrl : List Packet}
    {raw : List (List UInt8)} (hok : BoxOk image n box ctrl raw)
    (hagree : Agree w image { n with box := box, ctrl := n.ctrl ++ ctrl, raw := n.raw ++ raw }) :
    Joint w image { n with box := box, ctrl := n.ctrl ++ ctrl, raw := n.raw ++ raw } := by
  have hle : n.box.window.toNat ≤ box.window.toNat := by
    rcases hok.window with ⟨hw, -⟩ | ⟨hw, -⟩ <;> omega
  have hend : n.box.endSent = true → box.endSent = true := by
    intro he
    rcases hok.window with ⟨-, heq⟩ | ⟨hw, -, -, hle, -⟩
    · rw [heq, he]
    · have := h.endSent.1 he
      omega
  -- a BEGIN goes out only before END does
  have hbegin : ∀ pkt ∈ ctrl, pkt.msgType = msgPushBegin → n.box.endSent = false := by
    intro pkt hpkt hty
    rcases hok.ctrl with rfl | ⟨p, rfl, ⟨-, hfalse⟩ | ⟨hty', -⟩⟩
    · simp at hpkt
    · exact hfalse
    · rw [List.mem_singleton.1 hpkt, hty'] at hty
      exact absurd hty (by decide)
  refine ⟨hagree, by rw [hok.windows, h.windows], ?_, ?_, h.state, ?_, ?_, h.dev_window_le, ?_, ?_,
    ?_, ?_, ?_, ?_, ?_⟩
  · rcases hok.window with ⟨hw, -⟩ | ⟨-, -, -, hle, -⟩
    · rw [hw]
      exact h.window_le
    · exact hle
  · rcases hok.window with ⟨hw, heq⟩ | ⟨-, -, -, -, hiff⟩
    · rw [hw, heq]
      exact h.endSent
    · exact hiff
  · intro hst
    rcases hok.window with ⟨hw, -⟩ | ⟨-, hne, -⟩
    · rw [hw]
      exact h.idle hst
    · exact absurd hst hne
  · intro hst
    have hdrift := h.drift hst
    rcases hok.window with ⟨hw, -⟩ | ⟨hw, -, hlt, -⟩
    · rw [hw]
      exact hdrift
    · show box.window.toNat ≤ n.dev.window.toNat ∧ n.dev.window.toNat ≤ box.window.toNat + 1
      omega
  · exact fun hst hmask => (h.mask hst hmask).trans hle
  · intro f hf
    have := h.queue f hf
    show f.frameIdx.toNat < (box.window.toNat + 1) * 16
    omega
  · intro bytes hbytes
    rcases List.mem_append.1 hbytes with hbytes | hbytes
    · exact (h.raw bytes hbytes).mono hle
    · exact hok.raw bytes hbytes
  · exact fun pkt hpkt => (h.acks pkt hpkt).mono le_rfl hend
  · intro pkt hpkt
    rcases List.mem_append.1 hpkt with hpkt | hpkt
    · exact (h.ctrl pkt hpkt).imp_right fun hp => ⟨hp.1, hend hp.2⟩
    · rcases hok.ctrl with rfl | ⟨p, rfl, hp⟩
      · simp at hpkt
      · rw [List.mem_singleton.1 hpkt]
        exact hp.imp And.left id
  · refine List.pairwise_append.2 ⟨h.order, ?_, ?_⟩
    · rcases hok.ctrl with rfl | ⟨p, rfl, -⟩
      · exact List.Pairwise.nil
      · exact List.pairwise_singleton _ _
    · intro p hp q hq hpend hqbegin
      have hfalse := hbegin q hq hqbegin
      rcases h.ctrl p hp with hty | ⟨-, htrue⟩
      · rw [hpend] at hty
        exact absurd hty (by decide)
      · rw [hfalse] at htrue
        exact absurd htrue (by decide)
  · intro hst
    obtain ⟨htrue, hno⟩ := h.done hst
    refine ⟨hend htrue, fun pkt hpkt hty => ?_⟩
    rcases List.mem_append.1 hpkt with hpkt | hpkt
    · exact hno pkt hpkt hty
    · rw [hbegin pkt hpkt hty] at htrue
      exact absurd htrue (by decide)

/-- The frames of a window of the image are sent. -/
theorem sentFrame_of_asked {s : EspNowPushSender} (h : s.Pushes image) {mask : UInt32}
    {bytes : List UInt8} (hbytes : bytes ∈ (s.asked mask 0 16).map (imageFrame image)) :
    SentFrame image s.window.toNat bytes := by
  obtain ⟨idx, hidx, rfl⟩ := List.mem_map.1 hbytes
  obtain ⟨i, hi, -, hlt, rfl⟩ := EspNowPushSender.mem_asked_iff.1 hidx
  refine ⟨_, rfl, ?_, ?_⟩
  · rw [s.first_add_toNat hi, ← h.total]
    exact hlt
  · rw [s.first_add_toNat hi]
    omega

/-- The events of the box respect it. -/
theorem Joint.boxOk (h : n.Joint w image) (hle : image.length ≤ 2 ^ 24)
    {ev : EspNowPushSender.Event} (hev : ∀ a, ev ≠ .start a)
    (hack : ∀ rx, ev = .control rx →
      AckOk n.dev.window.toNat n.box.endSent rx.pkt ∧ n.dev.state ≠ .idle) :
    ∃ new, (n.box.step w.clock ev).out = n.box.out ++ new ∧
      BoxOk image n (n.box.step w.clock ev) (controlsTo w.devMac new) (framesTo w.devMac new) := by
  have hmac := h.agree.session.mac
  have hp := h.agree.session.pushes hle
  have hsession := h.agree.session.rule (EspNowPushSender.step_rule w.clock n.box ev) hev
  have hmove := EspNowPushSender.rule_move hp hev (EspNowPushSender.step_rule w.clock n.box ev)
  have hnext : n.box.window.toNat < windowCount image.length →
      (n.box.window + 1).toNat = n.box.window.toNat + 1 := window_succ_toNat hle
  -- an ack of the whole window: the device is past it
  have hdone : ∀ rx, ev = .control rx → (decodePushAck rx.pkt.payload).status = pushAckWindow →
      (decodePushAck rx.pkt.payload).window = n.box.window →
      (decodePushAck rx.pkt.payload).missing = 0 →
      n.dev.state ≠ .idle ∧ n.box.window.toNat < n.dev.window.toNat ∧
        n.box.window.toNat < windowCount image.length := by
    intro rx hrx hst hwin hmissing
    obtain ⟨⟨a, hpkt, ha⟩, hidle⟩ := hack rx hrx
    rw [hpkt, decode_ackPacket] at hst hwin hmissing
    rcases ha with ⟨-, hlt⟩ | ⟨hok, -⟩
    · have hlt := hlt hmissing
      rw [hwin] at hlt
      exact ⟨hidle, hlt, lt_of_lt_of_le hlt (h.dev_window_le hidle)⟩
    · rw [hst] at hok
      exact absurd hok (by decide)
  generalize n.box.step w.clock ev = box at hmove hsession
  have hbox : box.Session w.devMac image := by
    rcases hsession with hgo | ⟨-, hs, -⟩
    · exact hgo.session
    · exact hs
  -- the window stays
  have hstill : ∀ {new}, EspNowPushSender.Keeps n.box box →
      (controlsTo w.devMac new = [] ∨ ∃ pkt, controlsTo w.devMac new = [pkt] ∧
        (pkt.msgType = msgPushBegin ∧ n.box.endSent = false ∨
          pkt.msgType = msgPushEnd ∧ box.endSent = true)) →
      (∀ bytes ∈ framesTo w.devMac new, SentFrame image n.box.window.toNat bytes) →
      BoxOk image n box (controlsTo w.devMac new) (framesTo w.devMac new) := by
    intro new hkeeps hctrl hraw
    exact ⟨hkeeps.windows, .inl ⟨by rw [hkeeps.window], hkeeps.endSent⟩, hctrl,
      by rw [hkeeps.window]; exact hraw⟩
  cases hmove with
  | silent _ hkeeps _ hout | giveUp hkeeps _ _ hout | reject hkeeps _ _ _ _ hout
  | finish hkeeps _ _ hout =>
    exact ⟨[], by rw [hout, List.append_nil], hstill hkeeps (.inl rfl) (by simp [framesTo])⟩
  | frames mask _ hkeeps _ hout =>
    refine ⟨_, hout, hstill hkeeps (.inl (controlsTo_frames _ _ _ _)) ?_⟩
    rw [framesTo_frames hmac]
    exact fun bytes hbytes => sentFrame_of_asked hp hbytes
  | hello b mask hkeeps hend _ hout =>
    refine ⟨_, hout, hstill hkeeps (.inr ⟨beginPacket b, ?_, .inl ⟨rfl, hend⟩⟩) ?_⟩
    · have hframes := controlsTo_frames w.devMac n.box image mask
      simpa [controlsTo, hmac] using hframes
    · have hskip : framesTo w.devMac
          (.control n.box.mac (beginPacket b) :: n.box.frames image mask) =
            framesTo w.devMac (n.box.frames image mask) := rfl
      rw [hskip, framesTo_frames hmac]
      exact fun bytes hbytes => sentFrame_of_asked hp hbytes
  | endAgain hkeeps hend _ hout =>
    refine ⟨_, hout, hstill hkeeps (.inr ⟨endPacket, ?_, .inr ⟨rfl, ?_⟩⟩) ?_⟩
    · simp [controlsTo, hmac]
    · rw [hkeeps.endSent, hend]
    · simp [framesTo]
  | advance mask _ hwin heq hmissing hlt hwindow hwindows hend _ hout =>
    obtain ⟨hidle, hdev, hs⟩ := hdone _ rfl hwin heq hmissing
    have hnum : box.window.toNat = n.box.window.toNat + 1 := by rw [hwindow, hnext hs]
    have hlt' : n.box.window.toNat + 1 < windowCount image.length := by
      rw [← hnext hs, ← h.windows]
      exact UInt16.lt_iff_toNat_lt.1 hlt
    refine ⟨_, hout, ⟨hwindows, .inr ⟨hnum, hidle, hdev, by omega, ?_⟩,
      .inl (controlsTo_frames _ _ _ _), ?_⟩⟩
    · rw [hend, h.endSent]
      omega
    · rw [framesTo_frames hbox.mac]
      exact fun bytes hbytes => sentFrame_of_asked (hbox.pushes hle) hbytes
  | last _ hwin heq hmissing hge hwindow hwindows hend _ hout =>
    obtain ⟨hidle, hdev, hs⟩ := hdone _ rfl hwin heq hmissing
    have hnum : box.window.toNat = n.box.window.toNat + 1 := by rw [hwindow, hnext hs]
    have hge' : windowCount image.length ≤ n.box.window.toNat + 1 := by
      rw [← hnext hs, ← h.windows]
      exact UInt16.le_iff_toNat_le.1 hge
    refine ⟨_, hout, ⟨hwindows, .inr ⟨hnum, hidle, hdev, by omega, ?_⟩,
      .inr ⟨endPacket, by simp [controlsTo, hmac], .inr ⟨rfl, hend⟩⟩, by simp [framesTo]⟩⟩
    simp only [hend, true_iff]
    omega

/-- An event of the box. -/
theorem Joint.boxAct (h : n.Joint w image) (hle : image.length ≤ 2 ^ 24)
    {ev : EspNowPushSender.Event} (hev : ∀ a, ev ≠ .start a)
    (hack : ∀ rx, ev = .control rx →
      AckOk n.dev.window.toNat n.box.endSent rx.pkt ∧ n.dev.state ≠ .idle)
    (hok : ∀ rx, ev = .control rx → FinalOk rx.pkt → committed (updates n.dev.trace) = some image) :
    (n.boxAct w ev).Joint w image := by
  obtain ⟨new, hout, hbox⟩ := h.boxOk hle hev hack
  have hagree := h.agree.boxAct hev hok
  rw [boxAct_eq hout] at hagree ⊢
  exact h.of_box hbox hagree

/-- What a move of the device must respect. -/
structure DevOk (image : List UInt8) (n : Net) (dev : EspNowPushReceiver) (acks : List PushAck) :
    Prop where
  state : dev.state ≠ .failed
  idle : dev.state = .idle → n.dev.state = .idle ∧ acks = []
  drift : dev.state ≠ .idle → n.box.window.toNat ≤ dev.window.toNat ∧
    dev.window.toNat ≤ n.box.window.toNat + 1 ∧ dev.window.toNat ≤ windowCount image.length
  mono : n.dev.state ≠ .idle → n.dev.window.toNat ≤ dev.window.toNat
  mask : dev.state = .receiving → dev.haveMask ≠ 0 → dev.window.toNat ≤ n.box.window.toNat
  queue : ∀ f ∈ dev.queue.toList, f.frameIdx.toNat < (n.box.window.toNat + 1) * 16
  acks : ∀ a ∈ acks, AckOk dev.window.toNat n.box.endSent (ackPacket a)
  done : dev.state = .done → n.box.endSent = true ∧ ∀ pkt ∈ n.ctrl, pkt.msgType ≠ msgPushBegin

theorem Joint.of_dev (h : n.Joint w image) {dev : EspNowPushReceiver} {acks : List PushAck}
    (hok : DevOk image n dev acks)
    (hagree : Agree w image { n with dev := dev, acks := n.acks ++ acks.map ackPacket }) :
    Joint w image { n with dev := dev, acks := n.acks ++ acks.map ackPacket } := by
  refine { h with
    agree := hagree
    state := hok.state
    idle := ?_
    drift := fun hst => ⟨(hok.drift hst).1, (hok.drift hst).2.1⟩
    dev_window_le := fun hst => (hok.drift hst).2.2
    mask := hok.mask
    queue := hok.queue
    acks := ?_
    done := hok.done }
  · intro hst
    obtain ⟨hidle, hnil⟩ := hok.idle hst
    exact ⟨(h.idle hidle).1, by simp [(h.idle hidle).2, hnil]⟩
  · intro pkt hpkt
    rcases List.mem_append.1 hpkt with hpkt | hpkt
    · refine (h.acks pkt hpkt).mono (hok.mono fun hidle => ?_) id
      simp [(h.idle hidle).2] at hpkt
    · obtain ⟨a, ha, rfl⟩ := List.mem_map.1 hpkt
      exact hok.acks a ha

/-- An event of the device that what is on its way can cause. -/
structure Arrives (w : Radio) (image : List UInt8) (n : Net) (ev : EspNowPushReceiver.Event) :
    Prop where
  proper : EspNowPushReceiver.Proper w.boxMac image ev
  begin : ∀ rx, ev = .control rx → rx.pkt.msgType = msgPushBegin → n.dev.state ≠ .done
  end_ : ∀ rx, ev = .control rx → rx.pkt.msgType = msgPushEnd →
    n.box.endSent = true ∧ ∀ pkt ∈ n.ctrl, pkt.msgType ≠ msgPushBegin
  raw : ∀ mac data, ev = .raw mac data → SentFrame image n.box.window.toNat data

theorem Arrives.not_loop {ev : EspNowPushReceiver.Event} (h : n.Arrives w image ev) :
    ev ≠ .loop := by
  rintro rfl
  exact h.proper

theorem Arrives.genuine {ev : EspNowPushReceiver.Event} (h : n.Arrives w image ev) :
    EspNowPushReceiver.Genuine w.boxMac image ev := by
  have hproper := h.proper
  cases ev with
  | control rx =>
    refine ⟨hproper.1, fun hbegin => ?_⟩
    rcases hproper.2 with hb | hend
    · exact hb.2
    · rw [hbegin] at hend
      exact absurd hend (by decide)
  | raw mac data => exact fun _ => hproper.2
  | _ => trivial

/-- The events of the device respect it. -/
theorem Joint.devOk (h : n.Joint w image) {ev : EspNowPushReceiver.Event}
    (hev : n.Arrives w image ev) {dev : EspNowPushReceiver}
    {acks : List PushAck}
    (hmove : EspNowPushReceiver.Move w.plat w.boxMac image n.dev ev dev acks) :
    DevOk image n dev acks := by
  have hdrift : ∀ {st}, n.dev.state = st → st ≠ .idle → n.box.window.toNat ≤ n.dev.window.toNat ∧
      n.dev.window.toNat ≤ n.box.window.toNat + 1 ∧
        n.dev.window.toNat ≤ windowCount image.length := by
    rintro st rfl hst
    exact ⟨(h.drift hst).1, (h.drift hst).2, h.dev_window_le hst⟩
  have hreceiving : RecvState.receiving ≠ .idle := by decide
  -- a running session whose window stays
  have hstay : ∀ {acks : List PushAck}, n.dev.state = .receiving →
      EspNowPushReceiver.Moves w.boxMac n.dev dev .receiving n.dev.window.toNat acks →
      (dev.haveMask ≠ 0 → n.dev.window.toNat ≤ n.box.window.toNat) →
      (∀ f ∈ dev.queue.toList, f.frameIdx.toNat < (n.box.window.toNat + 1) * 16) →
      (∀ a ∈ acks, AckOk n.dev.window.toNat n.box.endSent (ackPacket a)) →
      DevOk image n dev acks := by
    intro acks hst hm hmask hqueue hacks
    refine ⟨by simp [hm.state], by simp [hm.state], fun _ => ?_, fun _ => ?_, fun _ hne => ?_,
      hqueue, ?_, by simp [hm.state]⟩
    · rw [hm.window]
      exact hdrift hst hreceiving
    · rw [hm.window]
    · rw [hm.window]
      exact hmask hne
    · rw [hm.window]
      exact hacks
  have hpopq : ∀ {f}, n.dev.queue.toList = f :: dev.queue.toList →
      f.frameIdx.toNat < (n.box.window.toNat + 1) * 16 ∧
        ∀ g ∈ dev.queue.toList, g.frameIdx.toNat < (n.box.window.toNat + 1) * 16 := by
    intro f hpop
    have hq := h.queue
    rw [hpop] at hq
    exact ⟨hq f List.mem_cons_self, fun g hg => hq g (List.mem_cons_of_mem _ hg)⟩
  have hold : n.dev.state = .receiving → dev.haveMask = n.dev.haveMask → dev.haveMask ≠ 0 →
      n.dev.window.toNat ≤ n.box.window.toNat := fun hst heq hne => h.mask hst (heq ▸ hne)
  have hsame : dev.queue = n.dev.queue →
      ∀ f ∈ dev.queue.toList, f.frameIdx.toNat < (n.box.window.toNat + 1) * 16 :=
    fun heq => heq ▸ h.queue
  -- an ack that something is missing, or of a window before
  have hwindowAck : ∀ {win : UInt16} {missing : UInt32},
      (missing = 0 → win.toNat < n.dev.window.toNat) →
      AckOk n.dev.window.toNat n.box.endSent (ackPacket ⟨win, missing, pushAckWindow, 0⟩) :=
    fun hwin => ⟨_, rfl, .inl ⟨rfl, hwin⟩⟩
  cases hmove with
  | rests hst _ hm hmask hqueue =>
    refine ⟨by rw [hm.state]; exact h.state, fun hidle => ?_, fun hne => ?_, fun _ => ?_,
      fun hrec => ?_, hsame hqueue, by simp, fun hdone => ?_⟩
    · exact ⟨hm.state ▸ hidle, rfl⟩
    · rw [hm.window]
      exact hdrift rfl (hm.state ▸ hne)
    · rw [hm.window]
    · exact absurd (hm.state ▸ hrec) hst
    · exact h.done (hm.state ▸ hdone)
  | opens hst hbegin hm hmask hqueue =>
    -- only an idle device opens a session
    have hidle : n.dev.state = .idle := by
      have hfail := h.state
      have hdone := hev.begin _ rfl hbegin
      cases hs : n.dev.state with
      | idle => rfl
      | receiving => exact absurd hs hst
      | done => exact absurd hs hdone
      | failed => exact absurd hs hfail
    have hzero := (h.idle hidle).1
    refine ⟨by simp [hm.state], by simp [hm.state], fun _ => ?_, fun hne => absurd hidle hne,
      fun _ hne => absurd hmask hne, hsame hqueue, by simp, by simp [hm.state]⟩
    rw [hm.window]
    omega
  | repeats hst _ hm hmask hqueue =>
    exact hstay hst hm (hold hst hmask) (hsame hqueue) (by simp)
  | endEarly missing hst _ _ hmissing hm hmask hqueue =>
    refine hstay hst hm (hold hst hmask) (hsame hqueue) ?_
    intro a ha
    rw [List.mem_singleton.1 ha]
    exact hwindowAck fun hzero => absurd hzero hmissing
  | commits hst hend hge hm hmask hqueue =>
    have hend' := hev.end_ _ rfl hend
    refine ⟨by simp [hm.state], by simp [hm.state], fun _ => ?_, fun _ => ?_,
      by simp [hm.state], hsame hqueue, fun a ha => ?_, fun _ => hend'⟩
    · rw [hm.window]
      exact hdrift hst hreceiving
    · rw [hm.window]
    · rw [List.eq_of_mem_replicate ha]
      exact ⟨_, rfl, .inr ⟨rfl, hend'.1⟩⟩
  | enqueues f hst hf hm hmask hqueue =>
    refine hstay hst hm (hold hst hmask) (fun g hg => ?_) (by simp)
    rw [hqueue] at hg
    rcases Ring.mem_toList_push hg with hg | rfl
    · exact h.queue g hg
    · obtain ⟨idx, hbytes, -, hlt⟩ := hev.raw _ _ rfl
      rw [RawFrame.frameIdx_of_bytes (hf.trans hbytes)]
      exact hlt
  | empty hst _ hm hmask hqueue =>
    exact hstay hst hm (hold hst hmask) (hsame hqueue) (by simp)
  | stale f hst hpop _ _ _ hm hmask =>
    exact hstay hst hm (hold hst hmask) (hpopq hpop).2 (by simp)
  | reack f window hst hpop hlt hwindow hm hmask =>
    refine hstay hst hm (hold hst hmask) (hpopq hpop).2 ?_
    intro a ha
    rw [List.mem_singleton.1 ha]
    exact hwindowAck fun _ => by omega
  | future f hst hpop _ hm hmask =>
    exact hstay hst hm (hold hst hmask) (hpopq hpop).2 (by simp)
  | stores f i hst hpop hi hidx hm _ =>
    refine hstay hst hm (fun _ => ?_) (hpopq hpop).2 (by simp)
    -- a frame of the window was sent, so the box is there
    have hlt := (hpopq hpop).1
    unfold EspNowPushReceiver.frameNo at hidx
    omega
  | completes f hst hpop hge hlt hm hmask =>
    have hidx := (hpopq hpop).1
    have hd := hdrift hst hreceiving
    refine ⟨by simp [hm.state], by simp [hm.state], fun _ => ?_, fun _ => ?_,
      fun _ hne => absurd hmask hne, (hpopq hpop).2, fun a ha => ?_, by simp [hm.state]⟩
    · rw [hm.window]
      omega
    · rw [hm.window]
      omega
    · rw [List.eq_of_mem_replicate ha, hm.window]
      exact ⟨_, rfl, .inl ⟨rfl, fun _ => Nat.lt_succ_self _⟩⟩
  | calm hst hm hmask hqueue =>
    exact hstay hst hm (hold hst hmask) (hsame hqueue) (by simp)
  | asks missing hst _ hmissing hm hmask hqueue =>
    refine hstay hst hm (hold hst hmask) (hsame hqueue) ?_
    intro a ha
    rw [List.mem_singleton.1 ha]
    exact hwindowAck fun hzero => absurd hzero hmissing

/-- An event of the device. -/
theorem Joint.devAct (h : n.Joint w image) (hsucc : EspNowPushReceiver.Succeeds w.plat image)
    (hne : image ≠ []) (hle : image.length ≤ 2 ^ 24) {ev : EspNowPushReceiver.Event}
    (hev : n.Arrives w image ev) : (n.devAct w ev).Joint w image := by
  obtain ⟨acks, hmove⟩ := EspNowPushReceiver.step_move hsucc h.agree.serves hne hev.proper
  have hagree := (h.agree.devAct (fun _ _ _ _ => hle) hev.not_loop hev.genuine).1
  rw [devAct_eq hmove.sends, acksTo_map] at hagree ⊢
  exact h.of_dev (h.devOk hev hmove) hagree

/-! ### Runs -/

section Deliver

variable (h : n.Joint w image)
include h

theorem Joint.control_arrives {pkt : Packet} {ctrl : List Packet} (hctrl : n.ctrl = pkt :: ctrl) :
    (n.lose .ctrl 0).Arrives w image (.control ⟨w.boxMac, pkt⟩) := by
  have hmem : pkt ∈ n.ctrl := by simp [hctrl]
  have hlose : (n.lose .ctrl 0).ctrl = ctrl := by simp [Net.lose, hctrl]
  refine ⟨⟨rfl, ?_⟩, ?_, ?_, by simp⟩
  · rcases h.ctrl pkt hmem with hbegin | ⟨hend, -⟩
    · exact .inl ⟨hbegin, h.agree.ctrl pkt hmem hbegin⟩
    · exact .inr hend
  · rintro _ ⟨⟩ hbegin hdone
    exact (h.done hdone).2 pkt hmem hbegin
  · rintro _ ⟨⟩ hend
    rw [hlose]
    have horder := h.order
    rw [hctrl, List.pairwise_cons] at horder
    refine ⟨?_, fun q hq => horder.1 q hq hend⟩
    rcases h.ctrl pkt hmem with hbegin | ⟨-, hsent⟩
    · rw [hend] at hbegin
      exact absurd hbegin (by decide)
    · exact hsent

theorem Joint.frame_arrives {bytes : List UInt8} (hmem : bytes ∈ n.raw) (i : ℕ) :
    (n.lose .raw i).Arrives w image (.raw w.boxMac bytes) := by
  have hsent := h.raw bytes hmem
  refine ⟨⟨rfl, ?_⟩, by simp, by simp, ?_⟩
  · obtain ⟨idx, hbytes, hidx, -⟩ := hsent
    exact ⟨idx, hidx, hbytes⟩
  · rintro _ _ ⟨⟩
    exact hsent

omit h in
theorem own_arrives {ev : EspNowPushReceiver.Event} (hev : ev = .drain ∨ ev = .tail) :
    n.Arrives w image ev := by
  rcases hev with rfl | rfl <;> exact ⟨trivial, by simp, by simp, by simp⟩

theorem Joint.ack_idle {pkt : Packet} (hmem : pkt ∈ n.acks) : n.dev.state ≠ .idle := by
  intro hidle
  simp [(h.idle hidle).2] at hmem

/-- The step lemma: any action but a start. -/
theorem Joint.step (hsucc : EspNowPushReceiver.Succeeds w.plat image) (hne : image ≠ [])
    (hle : image.length ≤ 2 ^ 24) {act : Act} (hrunning : act.Running) (hlossy : act.Lossy) :
    (n.step w act).Joint w image := by
  cases act with
  | start => exact absurd hrunning id
  | timer => exact h.boxAct hle (by simp) (by simp) (by simp)
  | drain => exact h.devAct hsucc hne hle (own_arrives (.inl rfl))
  | tail => exact h.devAct hsucc hne hle (own_arrives (.inr rfl))
  | control i =>
    obtain rfl : i = 0 := hlossy
    simp only [Net.step]
    cases hctrl : n.ctrl with
    | nil => exact h
    | cons pkt ctrl => exact (h.lose .ctrl 0).devAct hsucc hne hle (h.control_arrives hctrl)
  | frame i =>
    simp only [Net.step]
    cases hi : n.raw[i]? with
    | none => exact h
    | some bytes =>
      exact (h.lose .raw i).devAct hsucc hne hle (h.frame_arrives (List.mem_of_getElem? hi) i)
  | ack i =>
    simp only [Net.step]
    cases hi : n.acks[i]? with
    | none => exact h
    | some pkt =>
      have hmem := List.mem_of_getElem? hi
      refine (h.lose .acks i).boxAct hle (by simp) ?_ ?_
      · rintro _ ⟨⟩
        exact ⟨h.acks pkt hmem, h.ack_idle hmem⟩
      · rintro _ ⟨⟩ hok
        exact h.agree.acks pkt hmem hok
  | lose c i => exact h.lose c i
  | dup c i => exact absurd hlossy id

end Deliver

/-- The run lemma. -/
theorem Joint.run (h : n.Joint w image) (hsucc : EspNowPushReceiver.Succeeds w.plat image)
    (hne : image ≠ []) (hle : image.length ≤ 2 ^ 24) {acts : List Act}
    (hacts : ∀ act ∈ acts, act.Running ∧ act.Lossy) : (n.run w acts).Joint w image := by
  induction acts generalizing n with
  | nil => exact h
  | cons act acts ih =>
    obtain ⟨hrunning, hlossy⟩ := hacts act List.mem_cons_self
    exact ih (h.step hsucc hne hle hrunning hlossy)
      fun act' hact => hacts act' (List.mem_cons_of_mem _ hact)

/-- A push begins at window 0. -/
theorem joint_start (w : Radio) (image : Image) (hne : image.bytes ≠ [])
    (hle : image.bytes.length ≤ 2 ^ 24) (major minor patch : UInt8) (box : EspNowPushSender)
    (dev : EspNowPushReceiver) (hidle : dev.state = .idle) (hqueue : dev.queue.toList = []) :
    (Net.step w ⟨box, dev, [], [], []⟩ (.start image major minor patch)).Joint w image.bytes := by
  have hsettled : Settled ⟨box, dev, [], [], []⟩ :=
    ⟨by simp [hidle], hqueue, by simp, rfl, by simp⟩
  have hagree := agree_start (w := w) image hne major minor patch (.inl hsettled)
  have hstarted :=
    EspNowPushSender.start_started w.clock box image hne hle w.devMac major minor patch
  obtain ⟨b, mask, hout⟩ := hstarted.out
  have hctrl : controlsTo w.devMac (.control w.devMac (beginPacket b) ::
      (box.start w.clock (image.args w.devMac major minor patch)).2.frames image.bytes mask) =
        [beginPacket b] := by
    have hframes := controlsTo_frames w.devMac
      (box.start w.clock (image.args w.devMac major minor patch)).2 image.bytes mask
    simpa [controlsTo] using hframes
  have heq : Net.step w ⟨box, dev, [], [], []⟩ (.start image major minor patch) =
      ⟨(box.start w.clock (image.args w.devMac major minor patch)).2, dev, [beginPacket b],
        framesTo w.devMac ((box.start w.clock (image.args w.devMac major minor patch)).2.frames
          image.bytes mask), []⟩ := by
    have hout' : (box.step w.clock (.start (image.args w.devMac major minor patch))).out = _ := hout
    refine (boxAct_eq (n := ⟨box, dev, [], [], []⟩) hout').trans ?_
    rw [hctrl]
    rfl
  have hpos : 0 < windowCount image.bytes.length := by
    have := List.length_pos_iff.2 hne
    unfold windowCount frameCount
    omega
  have hzero : (box.start w.clock (image.args w.devMac major minor patch)).2.window.toNat = 0 := by
    rw [hstarted.window]
    rfl
  have hnot : dev.state ≠ .idle → False := fun h => h hidle
  rw [heq] at hagree ⊢
  refine ⟨hagree, hstarted.windows, ?_, ?_, by simp [hidle], fun _ => ⟨hzero, rfl⟩,
    fun h => (hnot h).elim, fun h => (hnot h).elim, by simp [hidle], by simp [hqueue], ?_, by simp,
    by simp, List.pairwise_singleton _ _, by simp [hidle]⟩
  · show (box.start w.clock (image.args w.devMac major minor patch)).2.window.toNat ≤ _
    omega
  · show (box.start w.clock (image.args w.devMac major minor patch)).2.endSent = true ↔
      (box.start w.clock (image.args w.devMac major minor patch)).2.window.toNat = _
    rw [hstarted.endSent, hzero]
    simp only [Bool.false_eq_true, false_iff]
    omega
  · show ∀ bytes ∈ framesTo w.devMac _, _
    rw [framesTo_frames hagree.session.mac]
    exact fun bytes hbytes => sentFrame_of_asked (hagree.session.pushes hle) hbytes

end Net

end InfinitagNow
