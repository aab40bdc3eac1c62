/-
InfinitagNow/PushProgress.lean

No lost packet can deadlock a push.

In a stuck state nothing is on its way and the box waits.  Its timeout sends the
current step again: the window, from which `Heals` follows, or END.  After END
`Ends` is kept: FINAL_OK has come, is on its way, or an END that causes it is.
When nothing is on its way again, only progress remains (`Joint.quiet_moves`).
-/
import InfinitagNow.PushHealing

namespace InfinitagNow

open UpdateCall

namespace Net

variable {w : Radio} {image : List UInt8} {n : Net}

/-! ### Runs without loss -/

/-- The clock of the device is read, never turned back. -/
theorem reads_le_step (w : Radio) (n : Net) (act : Act) :
    n.dev.reads ≤ (n.step w act).dev.reads := by
  have hdev : ∀ (n : Net) {ev}, ev ≠ .loop → n.dev.reads ≤ (n.devAct w ev).dev.reads :=
    fun n _ hev => (EspNowPushReceiver.step_rule w.plat n.dev hev).reads_le
  cases act with
  | start | timer => exact le_rfl
  | drain | tail => exact hdev n (by simp)
  | control i =>
    simp only [Net.step]
    split
    · exact le_rfl
    · exact hdev (n.lose .ctrl i) (by simp)
  | frame i =>
    simp only [Net.step]
    split
    · exact le_rfl
    · exact hdev (n.lose .raw i) (by simp)
  | ack i =>
    simp only [Net.step]
    split <;> exact le_rfl
  | lose c i | dup c i => cases c <;> exact le_rfl

theorem reads_le_run (w : Radio) (n : Net) (acts : List Act) :
    n.dev.reads ≤ (n.run w acts).dev.reads := by
  induction acts generalizing n with
  | nil => exact le_rfl
  | cons act acts ih => exact (reads_le_step w n act).trans (ih (n.step w act))

/-- The run lemma: what every action without loss keeps holds in the end.  `Q`
is what is known of the readings of the device's clock. -/
theorem Joint.lossless_run {P : Net → Prop} {Q : ℕ → Prop} (h : n.Joint w image)
    (hsucc : EspNowPushReceiver.Succeeds w.plat image) (hne : image ≠ [])
    (hle : image.length ≤ 2 ^ 24)
    (hstep : ∀ (n : Net) act, n.Joint w image → n.Lossless w act →
      (∀ k, n.dev.reads ≤ k → k < (n.step w act).dev.reads → Q k) → P n → P (n.step w act))
    {acts : List Act} (hacts : n.LosslessRun w acts)
    (hclock : ∀ k, n.dev.reads ≤ k → k < (n.run w acts).dev.reads → Q k) (hP : P n) :
    P (n.run w acts) := by
  induction acts generalizing n with
  | nil => exact hP
  | cons act acts ih =>
    obtain ⟨hact, hacts⟩ := hacts
    have hrun : (n.step w act).dev.reads ≤ ((n.step w act).run w acts).dev.reads :=
      reads_le_run w (n.step w act) acts
    refine ih (h.step hsucc hne hle hact.lossy.1 hact.lossy.2) hacts ?_ ?_
    · exact fun k hk hlt => hclock k ((reads_le_step w n act).trans hk) hlt
    · exact hstep n act h hact (fun k hk hlt => hclock k hk (lt_of_lt_of_le hlt hrun)) hP

/-- FINAL_OK has come, is on its way, or an END that causes it is. -/
inductive Ends (n : Net) : Prop
  | done (h : n.box.state = .done)
  | answered (hbox : n.box.state = .pushing) (pkt : Packet) (hmem : pkt ∈ n.acks)
      (hok : FinalOk pkt)
  | asked (hbox : n.box.state = .pushing) (hdev : n.dev.state = .receiving) (pkt : Packet)
      (hmem : pkt ∈ n.ctrl) (hend : pkt.msgType = msgPushEnd)

/-! ### The timeout -/

section Timeout

variable (h : n.Joint w image) (hle : image.length ≤ 2 ^ 24) (hstuck : n.Stuck w)
include h hle hstuck

theorem Joint.stuck_resends : EspNowPushSender.Resends image n.box (n.box.loop w.clock) :=
  EspNowPushSender.timeout_resends (h.agree.session.pushes hle) hstuck.pushing hstuck.due
    hstuck.left

/-- Before the end the whole window is on its way again. -/
theorem Joint.timeout_heals (hend : n.box.endSent = false) :
    Heals image n.box.window.toNat n.dev.lastAckMs (n.step w .timer) := by
  have hresends := h.stuck_resends hle hstuck
  have hmac := h.agree.session.mac
  have hpushes := h.agree.session.pushes hle
  have hs : n.box.window.toNat < windowCount image.length := by
    have hle' := h.window_le
    have hne : n.box.window.toNat ≠ windowCount image.length := by
      rw [Ne, ← h.endSent, hend]
      decide
    omega
  have hactive : n.dev.state ≠ .idle := by
    rw [hstuck.receiving]
    decide
  rcases hresends.out with ⟨htrue, -⟩ | ⟨-, pre, hpre, hout⟩
  · rw [hend] at htrue
    exact absurd htrue (by decide)
  · show Heals image _ _ (n.boxAct w .loop)
    have hout' : (n.box.step w.clock .loop).out = _ := hout
    rw [boxAct_eq hout']
    rw [hmac] at hpre
    rw [framesTo_begins hpre, framesTo_frames hmac, hstuck.raw, List.nil_append]
    refine .healing ⟨congrArg UInt16.toNat hresends.keeps.window, hresends.state⟩
      ⟨hstuck.receiving, ?_, ?_⟩
    · rintro no (⟨f, hf, -⟩ | ⟨idx, hidx, rfl⟩)
      · rw [hstuck.queue] at hf
        exact absurd hf List.not_mem_nil
      · exact le_of_mem_asked hidx
    · -- every frame of the window was sent
      have hsent : ∀ ctrl, ∀ i < 16, n.box.window.toNat * 16 + i < frameCount image.length →
          Waits image ⟨n.box.step w.clock .loop, n.dev, ctrl,
            (n.box.asked (n.box.windowMask n.box.window) 0 16).map (imageFrame image), n.acks⟩
              (n.box.window.toNat * 16 + i) := fun ctrl i hi hlt =>
        .inr ⟨_, List.mem_map_of_mem (EspNowPushSender.mem_asked_windowMask hpushes hi hlt),
          n.box.first_add_toNat hi⟩
      have hdrift := h.drift hactive
      rcases Nat.lt_or_ge n.box.window.toNat n.dev.window.toNat with hahead | hsame
      · refine .inr ⟨by show n.dev.window.toNat = _; omega, rfl, _, hsent _ 0 (by decide) ?_⟩
        unfold windowCount at hs
        omega
      · have hw : n.dev.window.toNat = n.box.window.toNat := by omega
        refine .inl ⟨hw, fun i hi => .inr ?_⟩
        have hno : n.dev.frameNo i = n.box.window.toNat * 16 + i := by
          rw [EspNowPushReceiver.frameNo, hw]
        show Waits image _ (n.dev.frameNo i)
        rw [hno]
        exact hsent _ i hi.1 (by rw [← hno]; exact hi.2)

/-- After the end an END is on its way again. -/
theorem Joint.timeout_ends (hend : n.box.endSent = true) : Ends (n.step w .timer) := by
  have hresends := h.stuck_resends hle hstuck
  rcases hresends.out with ⟨-, hout⟩ | ⟨hfalse, -⟩
  · show Ends (n.boxAct w .loop)
    have hout' : (n.box.step w.clock .loop).out = _ := hout
    rw [boxAct_eq hout']
    refine .asked hresends.state hstuck.receiving endPacket ?_ rfl
    simp [controlsTo, h.agree.session.mac]
  · rw [hend] at hfalse
    exact absurd hfalse (by decide)

end Timeout

/-! ### After END -/

theorem Ends.boxAct (hends : Ends n) {ev : EspNowPushSender.Event} (hev : ∀ a, ev ≠ .start a)
    (hstate : n.box.state = .pushing → (n.box.step w.clock ev).state = .pushing) :
    Ends (n.boxAct w ev) := by
  cases hends with
  | done h =>
    have hself : n.box.step w.clock ev = n.box :=
      (EspNowPushSender.step_rule w.clock n.box ev).eq_of_not_pushing hev (by simp [h])
    rw [boxAct_self hself]
    exact .done h
  | answered hbox pkt hmem hok => exact .answered (hstate hbox) pkt hmem hok
  | asked hbox hdev pkt hmem hend =>
    exact .asked (hstate hbox) hdev pkt (List.mem_append_left _ hmem) hend

/-- The device matters only while an END has to come. -/
theorem Ends.of_dev (hends : Ends n) {dev : EspNowPushReceiver} {ctrl acks : List Packet}
    {raw : List (List UInt8)}
    (hasked : n.box.state = .pushing → n.dev.state = .receiving →
      ∀ pkt ∈ n.ctrl, pkt.msgType = msgPushEnd → Ends ⟨n.box, dev, ctrl, raw, n.acks ++ acks⟩) :
    Ends ⟨n.box, dev, ctrl, raw, n.acks ++ acks⟩ := by
  cases hends with
  | done h => exact .done h
  | answered hbox pkt hmem hok => exact .answered hbox pkt (List.mem_append_left _ hmem) hok
  | asked hbox hdev pkt hmem hend => exact hasked hbox hdev pkt hmem hend

section Ends

variable (h : n.Joint w image) (hends : Ends n)
include h hends

theorem Ends.ack (hle : image.length ≤ 2 ^ 24) : Ends (n.step w (.ack 0)) := by
  simp only [Net.step]
  cases hacks : n.acks with
  | nil => exact hends
  | cons pkt acks =>
    have hrule := EspNowPushSender.step_rule w.clock n.box (.control ⟨w.devMac, pkt⟩)
    have hlose : (n.lose .acks 0).acks = acks := by simp [Net.lose, hacks]
    show Ends ((n.lose .acks 0).boxAct w (.control ⟨w.devMac, pkt⟩))
    by_cases hok : FinalOk pkt
    · -- the box is done, or was before
      refine .done ?_
      have hfinal : n.box.state = .pushing →
          (n.box.step w.clock (.control ⟨w.devMac, pkt⟩)).state = .done :=
        fun hst => hrule.done_of_finalOk hst h.agree.session.mac.symm hok
      cases hends with
      | done hdone =>
        have hself := hrule.eq_of_not_pushing (by simp) (by simp [hdone])
        exact (congrArg EspNowPushSender.state hself).trans hdone
      | answered hbox | asked hbox => exact hfinal hbox
    · -- another ack: the one hoped for is still on its way
      have hrest : Ends (n.lose .acks 0) := by
        cases hends with
        | done hdone => exact .done hdone
        | answered hbox pkt' hmem hok' =>
          rw [hacks] at hmem
          rcases List.mem_cons.1 hmem with rfl | hmem
          · exact absurd hok' hok
          · exact .answered hbox pkt' (by rwa [hlose]) hok'
        | asked hbox hdev pkt' hmem hend => exact .asked hbox hdev pkt' hmem hend
      refine hrest.boxAct (by simp) fun hst => ?_
      obtain ⟨a, rfl, ⟨hwin, -⟩ | ⟨hfinal, -⟩⟩ := h.acks pkt (by simp [hacks])
      · have hmove := EspNowPushSender.rule_move (h.agree.session.pushes hle) (by simp) hrule
        exact (hmove.state_of_window (by rw [decode_ackPacket]; exact hwin)).trans hst
      · exact absurd ⟨rfl, by rw [decode_ackPacket]; exact hfinal⟩ hok

/-- The frames of the push are no matter any more. -/
theorem Ends.quiet_dev (hsucc : EspNowPushReceiver.Succeeds w.plat image) (hne : image ≠ [])
    (n' : Net) (hbox : n'.box = n.box) (hdev : n'.dev = n.dev) (hctrl : n'.ctrl = n.ctrl)
    (hacks : n'.acks = n.acks) {ev : EspNowPushReceiver.Event}
    (hev : EspNowPushReceiver.Proper w.boxMac image ev) (hnot : ∀ rx, ev ≠ .control rx) :
    Ends (n'.devAct w ev) := by
  obtain ⟨acks, hmove⟩ := EspNowPushReceiver.step_move hsucc h.agree.serves hne hev
  rw [← hdev] at hmove
  rw [devAct_eq hmove.sends, acksTo_map, hbox, hacks, hctrl]
  refine hends.of_dev fun hbox hst pkt hmem hend => ?_
  rw [← hdev] at hst
  exact .asked hbox (hmove.receiving hst fun rx hrx => absurd hrx (hnot rx)) pkt hmem hend

theorem Ends.control (hsucc : EspNowPushReceiver.Succeeds w.plat image) (hne : image ≠ [])
    (hend : n.box.endSent = true) : Ends (n.step w (.control 0)) := by
  simp only [Net.step]
  cases hctrl : n.ctrl with
  | nil => exact hends
  | cons pkt ctrl =>
    obtain ⟨acks, hmove⟩ := EspNowPushReceiver.step_move hsucc h.agree.serves hne
      (h.control_arrives hctrl).proper
    show Ends ((n.lose .ctrl 0).devAct w (.control ⟨w.boxMac, pkt⟩))
    rw [devAct_eq (n := n.lose .ctrl 0) hmove.sends, acksTo_map]
    refine hends.of_dev fun hbox hst pkt' hmem hend' => ?_
    by_cases hpkt : pkt.msgType = msgPushEnd
    · have hge : windowCount image.length ≤ n.dev.window.toNat := by
        rw [← h.endSent.1 hend]
        exact (h.drift (by simp [hst])).1
      obtain rfl := hmove.acks_of_end hst hpkt hge
      refine .answered hbox (ackPacket ⟨0xFFFF, 0, pushAckFinalOk, 0⟩) ?_ ⟨rfl, ?_⟩
      · simp
      · rw [decode_ackPacket]
    · -- a BEGIN of the running session; the END is still to come
      refine .asked hbox (hmove.receiving hst ?_) pkt' ?_ hend'
      · rintro _ ⟨⟩
        exact hpkt
      · rw [hctrl] at hmem
        rcases List.mem_cons.1 hmem with rfl | hmem
        · exact absurd hend' hpkt
        · simpa [Net.lose, hctrl] using hmem

/-- The step lemma. -/
theorem Ends.step (hsucc : EspNowPushReceiver.Succeeds w.plat image) (hne : image ≠ [])
    (hle : image.length ≤ 2 ^ 24) (hend : n.box.endSent = true) {act : Act}
    (hlossless : n.Lossless w act) : Ends (n.step w act) := by
  cases act with
  | start | lose | dup => exact absurd hlossless id
  | timer =>
    refine hends.boxAct (by simp) fun hst => ?_
    obtain ⟨-, -, hbox, -⟩ := h.timer_waiting hle ⟨rfl, hst⟩ hlossless
    exact hbox.state
  | drain => exact hends.quiet_dev h hsucc hne n rfl rfl rfl rfl trivial (by simp)
  | tail => exact hends.quiet_dev h hsucc hne n rfl rfl rfl rfl trivial (by simp)
  | control i =>
    obtain rfl : i = 0 := hlossless
    exact hends.control h hsucc hne hend
  | frame i =>
    simp only [Net.step]
    cases hi : n.raw[i]? with
    | none => exact hends
    | some bytes =>
      exact hends.quiet_dev h hsucc hne (n.lose .raw i) rfl rfl rfl rfl
        (h.frame_arrives (List.mem_of_getElem? hi) i).proper (by simp)
  | ack i =>
    obtain rfl : i = 0 := hlossless
    exact hends.ack h hle

end Ends

/-- What was ended stays ended. -/
theorem Joint.endSent_step (h : n.Joint w image)
    (hsucc : EspNowPushReceiver.Succeeds w.plat image) (hne : image ≠ [])
    (hle : image.length ≤ 2 ^ 24) {act : Act} (hact : act.Running ∧ act.Lossy)
    (hend : n.box.endSent = true) : (n.step w act).box.endSent = true := by
  have hnext := h.step hsucc hne hle hact.1 hact.2
  have hmono := h.window_le_step hle hact.1
  have hmax := hnext.window_le
  have hall := h.endSent.1 hend
  exact hnext.endSent.2 (by omega)

/-! ### The progress theorem -/

/-- From a stuck state the timeout and a run without loss that comes to rest bring
the box to a later window, or to the end if it had sent END. -/
theorem Joint.quiet_moves (h : n.Joint w image)
    (hsucc : EspNowPushReceiver.Succeeds w.plat image) (hne : image ≠ [])
    (hle : image.length ≤ 2 ^ 24) (hstuck : n.Stuck w) {acts : List Act}
    (hacts : (n.step w .timer).LosslessRun w acts)
    (hclock : ∀ k, n.dev.reads ≤ k → k < ((n.step w .timer).run w acts).dev.reads →
      w.plat.millis k - n.dev.lastAckMs > 100)
    (hquiet : ((n.step w .timer).run w acts).Quiet) :
    (n.box.endSent = false →
        n.box.window.toNat < ((n.step w .timer).run w acts).box.window.toNat) ∧
      (n.box.endSent = true → ((n.step w .timer).run w acts).box.state = .done) := by
  have hact : Act.timer.Running ∧ Act.timer.Lossy := ⟨trivial, trivial⟩
  have htimer := h.step hsucc hne hle hact.1 hact.2
  constructor
  · intro hend
    have hs : n.box.window.toNat < windowCount image.length := by
      have hmax := h.window_le
      have hnot : n.box.window.toNat ≠ windowCount image.length := by
        rw [Ne, ← h.endSent, hend]
        decide
      omega
    have hheals : Heals image n.box.window.toNat n.dev.lastAckMs ((n.step w .timer).run w acts) :=
      htimer.lossless_run hsucc hne hle
        (fun n act h hact hclock hheals => hheals.step h hsucc hne hle hs hact hclock) hacts hclock
        (h.timeout_heals hle hstuck hend)
    have hnothing : ∀ no, ¬ Waits image ((n.step w .timer).run w acts) no := by
      rintro no (⟨f, hf, -⟩ | ⟨idx, hidx, -⟩)
      · simp [hquiet.queue] at hf
      · simp [hquiet.raw] at hidx
    cases hheals with
    | moved hlt => exact hlt
    | acked _ hacked =>
      obtain ⟨a, hmem, -⟩ := hacked
      simp [hquiet.acks] at hmem
    | healing _ hhealing =>
      rcases hhealing.frames with ⟨hw, hframes⟩ | ⟨-, -, no, hno⟩
      · -- the device still needs a frame, and none is on its way
        have h' := htimer.run hsucc hne hle fun act hact => hacts.lossy hact
        obtain ⟨i, hneeds, hbit⟩ := h'.agree.serves.missing hhealing.receiving (by omega)
        rcases hframes i hneeds with hhave | hwait
        · rw [hbit] at hhave
          exact absurd hhave (by decide)
        · exact absurd hwait (hnothing _)
      · exact absurd hno (hnothing no)
  · intro hend
    have hends : ((n.step w .timer).run w acts).box.endSent = true ∧
        Ends ((n.step w .timer).run w acts) :=
      htimer.lossless_run (P := fun n => n.box.endSent = true ∧ Ends n) hsucc hne hle
        (fun n act h hact _ hP => ⟨h.endSent_step hsucc hne hle hact.lossy hP.1,
          hP.2.step h hsucc hne hle hP.1 hact⟩) hacts hclock
        ⟨h.endSent_step hsucc hne hle hact hend, h.timeout_ends hle hstuck hend⟩
    cases hends.2 with
    | done hdone => exact hdone
    | answered _ pkt hmem => simp [hquiet.acks] at hmem
    | asked _ _ pkt hmem => simp [hquiet.ctrl] at hmem

/-- **No lost packet can deadlock a push.**  One push of an image of 1 byte to
16 MiB, over a network that loses packets but keeps their order, and an `Update`
library that does what it is asked.  In every stuck state that can be reached the
timeout fires, and from then on nothing gets lost.  More than 100 ms have passed
since the last ack of the device, whenever it looks.  When nothing waits and
nothing is on its way again, the box is at a later window, or done if it had sent
END. -/
theorem no_deadlock (w : Radio) (image : Image) (hpos : 1 ≤ image.bytes.length)
    (hle : image.bytes.length ≤ 2 ^ 24)
    (hsucc : EspNowPushReceiver.Succeeds w.plat image.bytes) (major minor patch : UInt8)
    (box : EspNowPushSender) (dev : EspNowPushReceiver) (hidle : dev.state = .idle)
    (hqueue : dev.queue.toList = []) (acts : List Act)
    (hacts : ∀ act ∈ acts, act.Running ∧ act.Lossy) :
    let n := (Net.step w ⟨box, dev, [], [], []⟩ (.start image major minor patch)).run w acts
    n.Stuck w → ∀ acts', (n.step w .timer).LosslessRun w acts' →
      let n' := (n.step w .timer).run w acts'
      (∀ k, n.dev.reads ≤ k → k < n'.dev.reads → w.plat.millis k - n.dev.lastAckMs > 100) →
        n'.Quiet → (n.box.endSent = false → n.box.window < n'.box.window) ∧
          (n.box.endSent = true → n'.box.state = .done) := by
  intro n hstuck acts' hacts' n' hclock hquiet
  have hne : image.bytes ≠ [] := List.length_pos_iff.1 hpos
  have h : n.Joint w image.bytes :=
    (joint_start w image hne hle major minor patch box dev hidle hqueue).run hsucc hne hle hacts
  obtain ⟨hmoves, hends⟩ := h.quiet_moves hsucc hne hle hstuck hacts' hclock hquiet
  exact ⟨fun hend => UInt16.lt_iff_toNat_lt.2 (hmoves hend), hends⟩

/-- The box looks at its clock every two seconds, the device every 200 ms. -/
def idleRadio : Radio :=
  { calmRadio with
    plat := { UpdateLib.flawless with millis := fun k => UInt32.ofNat (200 * k) }
    clock := fun k => UInt32.ofNat (2000 * k) }

theorem idleRadio_succeeds (image : List UInt8) (hle : image.length ≤ 2 ^ 24) :
    EspNowPushReceiver.Succeeds idleRadio.plat image := by
  refine ⟨fun log size hsize => ?_, ?_, fun log size hopen => ?_⟩
  · show decide (size.toNat ≤ 2 ^ 24) = true
    rw [hsize]
    exact decide_eq_true hle
  · rintro ⟨log, size, data, count, hopen, hfits, hfails⟩
    refine hfails ?_
    show UpdateLib.flawless.write log data count = count
    simp [UpdateLib.flawless, hopen, hfits]
  · show (session log).isSome = true
    rw [hopen]
    rfl

/-- A push of one byte after these actions. -/
def oneBytePush (acts : List Act) : Net :=
  (Net.step idleRadio ⟨{}, {}, [], [], []⟩ (.start oneByte 1 0 0)).run idleRadio acts

/-- The only frame of the push is lost, or its END. -/
def lostFrame : List Act := [.control 0, .lose .raw 0]

def lostEnd : List Act := [.control 0, .frame 0, .drain, .ack 0, .ack 0, .lose .ctrl 0]

/-- What is sent from the timeout on. -/
def afterFrame : List Act :=
  [.control 0, .frame 0, .drain, .ack 0, .ack 0, .control 0, .ack 0, .ack 0]

def afterEnd : List Act := [.control 0, .ack 0, .ack 0]

theorem no_deadlock_oneByte :
    (oneBytePush lostFrame).box.window <
        (((oneBytePush lostFrame).step idleRadio .timer).run idleRadio afterFrame).box.window ∧
      (((oneBytePush lostEnd).step idleRadio .timer).run idleRadio afterEnd).box.state = .done := by
  have hsucc := idleRadio_succeeds oneByte.bytes (by decide)
  constructor
  · have hstuck : (oneBytePush lostFrame).Stuck idleRadio := by decide +kernel
    have hlossless :
        ((oneBytePush lostFrame).step idleRadio .timer).LosslessRun idleRadio afterFrame := by
      decide +kernel
    have hquiet :
        (((oneBytePush lostFrame).step idleRadio .timer).run idleRadio afterFrame).Quiet := by
      decide +kernel
    exact (no_deadlock idleRadio oneByte (by decide) (by decide) hsucc 1 0 0 {} {} rfl (by decide)
      lostFrame (by simp [lostFrame, Act.Running, Act.Lossy]) hstuck afterFrame hlossless
      (by decide +kernel) hquiet).1 (by decide +kernel)
  · have hstuck : (oneBytePush lostEnd).Stuck idleRadio := by decide +kernel
    have hlossless :
        ((oneBytePush lostEnd).step idleRadio .timer).LosslessRun idleRadio afterEnd := by
      decide +kernel
    have hquiet : (((oneBytePush lostEnd).step idleRadio .timer).run idleRadio afterEnd).Quiet := by
      decide +kernel
    exact (no_deadlock idleRadio oneByte (by decide) (by decide) hsucc 1 0 0 {} {} rfl (by decide)
      lostEnd (by simp [lostEnd, Act.Running, Act.Lossy]) hstuck afterEnd hlossless
      (by decide +kernel) hquiet).2 (by decide +kernel)

end Net

end InfinitagNow
