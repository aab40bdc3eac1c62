/-
InfinitagNow/PushBars.lean

The progress bars of the two ends of a push.

`bytesDone()` of the box counts the windows acknowledged, `bytesDone()` of the
device the bytes written.  Over a network that loses packets but keeps their
order the two bars are one window apart at most, the device's is ahead, and
neither goes back.
-/
import InfinitagNow.PushProgress
import InfinitagNow.PushTiling
import InfinitagNow.Runs

namespace InfinitagNow

/-! ### The bar of the device -/

namespace EspNowPushReceiver

variable {plat : Platform} {r r' : EspNowPushReceiver} {image : List UInt8} {box : Mac}

/-- The bytes on flash, by state and window. -/
def onFlash (image : List UInt8) (r : EspNowPushReceiver) : ℕ :=
  match r.state with
  | .idle | .failed => 0
  | .receiving => min image.length (3872 * r.window.toNat)
  | .done => image.length

theorem onFlash_le (image : List UInt8) (r : EspNowPushReceiver) :
    r.onFlash image ≤ image.length := by
  unfold onFlash
  split <;> omega

/-- Outside a session the byte count stays, and a session that ends well has
written as much as announced. -/
theorem Rule.bytesDone_eq {ev : Event} (hrule : Rule plat r ev r')
    (hreceiving : r'.state ≠ .receiving) (hfailed : r'.state ≠ .failed) :
    r'.bytesDone = r.bytesDone ∧
      (r'.state = r.state ∨
        r.state = .receiving ∧ r'.state = .done ∧ r.bytesDone = r.begin.size) := by
  cases hrule with
  | ignore | drop | quiet | calm => exact ⟨by simp, .inl (by simp)⟩
  | commit _ _ hst _ _ hsize => exact ⟨by simp, .inr ⟨hst, rfl, hsize⟩⟩
  | busy _ _ hst | duplicate _ _ hst | endEarly _ _ hst | enqueue _ _ _ hst | stale _ _ hst
  | reack _ _ hst | future _ _ hst | store _ _ hst | periodic _ hst =>
    exact absurd (by simpa using hst) hreceiving
  | accept => exact absurd (by simp) hreceiving
  | refuseEmpty | refuse | endMismatch | endFlash => exact absurd (by simp) hfailed
  | complete f q hst =>
    rcases finishWindow_cases plat
        (r := (({ r with queue := q }.touched plat).stored f).logRemain)
        (P := fun _ r₁ => r₁.state = .receiving) (fun _ hP _ => by simpa using hP)
        (by simpa using hst) with ⟨r₁, hP, heq⟩ | ⟨j, r₁, -, -, -, heq⟩
    · exact absurd (by rw [heq]; simpa using hP) hreceiving
    · exact absurd (by rw [heq]; simp) hfailed

/-- The byte count is what is on flash, and an event keeps it so. -/
theorem Serves.onFlash_eq {ev : Event} (hrule : Rule plat r ev r') (h : r.Serves box image)
    (h' : r'.Serves box image) (hfailed : r'.state ≠ .failed)
    (hbar : r.bytesDone.toNat = r.onFlash image) : r'.bytesDone.toNat = r'.onFlash image := by
  by_cases hreceiving : r'.state = .receiving
  · rw [(h'.copies hreceiving).done, onFlash, hreceiving]
  · obtain ⟨hsame, hst | ⟨hst, hdone, hsize⟩⟩ := hrule.bytesDone_eq hreceiving hfailed
    · have heq : r'.onFlash image = r.onFlash image := by
        unfold onFlash
        rw [hst]
        cases hr : r.state with
        | receiving => exact absurd (hst.trans hr) hreceiving
        | _ => rfl
      rw [hsame, hbar, heq]
    · rw [hsame, hsize, (h.copies hst).begin.1, onFlash, hdone]

/-- A move of a push takes nothing off the flash, unless a BEGIN opens a new
session. -/
theorem Move.onFlash_le {ev : Event} {acks : List PushAck} (h : Move plat box image r ev r' acks)
    (hbegin : ∀ rx, ev = .control rx → rx.pkt.msgType = msgPushBegin → r.state ≠ .done) :
    r.onFlash image ≤ r'.onFlash image := by
  have hsame : ∀ {st : RecvState} {win : ℕ} {acks : List PushAck}, Moves box r r' st win acks →
      r.state = st → r.window.toNat ≤ win → r.onFlash image ≤ r'.onFlash image := by
    intro st win acks hm hst hwin
    unfold onFlash
    rw [hm.state, hm.window, hst]
    cases st with
    | receiving =>
      show min image.length (3872 * r.window.toNat) ≤ min image.length (3872 * win)
      omega
    | _ => exact le_rfl
  cases h with
  | rests _ _ hm => exact hsame hm rfl le_rfl
  | opens hst hty hm =>
    -- nothing was written before the session
    have hnot := hbegin _ rfl hty
    unfold onFlash
    cases hr : r.state with
    | receiving => exact absurd hr hst
    | done => exact absurd hr hnot
    | idle | failed => exact Nat.zero_le _
  | repeats hst _ hm | endEarly _ hst _ _ _ hm | enqueues _ hst _ hm | empty hst _ hm
  | stale _ hst _ _ _ _ hm | reack _ _ hst _ _ _ hm | future _ hst _ _ hm
  | stores _ _ hst _ _ _ hm | calm hst hm | asks _ hst _ _ hm => exact hsame hm hst le_rfl
  | completes _ hst _ _ _ hm => exact hsame hm hst (Nat.le_succ _)
  | commits hst _ _ hm =>
    have := r.onFlash_le image
    rw [show r'.onFlash image = image.length by rw [EspNowPushReceiver.onFlash, hm.state]]
    exact this

end EspNowPushReceiver

namespace Net

variable {w : Radio} {image : List UInt8} {n : Net}

/-! ### Both bars -/

/-- Both ends agree on the image, and both count right; the box is not done
before it has sent END. -/
structure Bars (w : Radio) (image : List UInt8) (n : Net) : Prop where
  joint : n.Joint w image
  acking : n.box.Acking w.devMac image
  done : n.box.state = .done → n.box.endSent = true
  dev : n.dev.bytesDone.toNat = n.dev.onFlash image

/-- Between two moments no bar goes back. -/
structure Grows (n n' : Net) : Prop where
  box : n.box.ackedBytes.toNat ≤ n'.box.ackedBytes.toNat
  dev : n.dev.bytesDone.toNat ≤ n'.dev.bytesDone.toNat

theorem Grows.refl (n : Net) : Grows n n := ⟨le_rfl, le_rfl⟩

theorem Grows.trans {n' n'' : Net} (h : Grows n n') (h' : Grows n' n'') : Grows n n'' :=
  ⟨h.box.trans h'.box, h.dev.trans h'.dev⟩

/-- The box's bar, by window and state. -/
theorem Bars.acked_le (h : n.Bars w image) : n.box.ackedBytes.toNat ≤ image.length := by
  by_cases hafter : n.box.state = .done ∨ n.box.endSent = true
  · exact (h.acking.after hafter).le
  · push Not at hafter
    obtain ⟨hlt, hacked⟩ := h.acking.before hafter.1 (by simpa using hafter.2)
    unfold windowCount frameCount at hlt
    omega

/-- An action touches the box by its `loop()` or by an ack on its way, or not at
all. -/
theorem step_box (w : Radio) (n : Net) {act : Act} (hrunning : act.Running) :
    (n.step w act).box = n.box ∨
      ∃ ev, (∀ a, ev ≠ .start a) ∧ (∀ rx, ev = .control rx → rx.pkt ∈ n.acks) ∧
        (n.step w act).box = n.box.step w.clock ev := by
  cases act with
  | start => exact absurd hrunning id
  | timer => exact .inr ⟨.loop, by simp, by simp, rfl⟩
  | drain | tail => exact .inl rfl
  | control i | frame i =>
    simp only [Net.step]
    split <;> exact .inl rfl
  | ack i =>
    simp only [Net.step]
    cases hi : n.acks[i]? with
    | none => exact .inl rfl
    | some pkt =>
      refine .inr ⟨.control ⟨w.devMac, pkt⟩, by simp, ?_, rfl⟩
      rintro _ ⟨⟩
      exact List.mem_of_getElem? hi
  | lose c i | dup c i => cases c <;> exact .inl rfl

/-- An action touches the device by an event that what is on its way can cause,
or not at all. -/
theorem Joint.step_dev (h : n.Joint w image) {act : Act} (hact : act.Running ∧ act.Lossy) :
    (n.step w act).dev = n.dev ∨
      ∃ (ev : EspNowPushReceiver.Event) (n₀ : Net), n₀.dev = n.dev ∧ n₀.Arrives w image ev ∧
        (n.step w act).dev = n.dev.step w.plat ev := by
  cases act with
  | start => exact absurd hact.1 id
  | dup c i => exact absurd hact.2 id
  | timer => exact .inl rfl
  | drain => exact .inr ⟨.drain, n, rfl, own_arrives (.inl rfl), rfl⟩
  | tail => exact .inr ⟨.tail, n, rfl, own_arrives (.inr rfl), rfl⟩
  | control i =>
    obtain rfl : i = 0 := hact.2
    simp only [Net.step]
    cases hctrl : n.ctrl with
    | nil => exact .inl rfl
    | cons pkt ctrl => exact .inr ⟨_, n.lose .ctrl 0, rfl, h.control_arrives hctrl, rfl⟩
  | frame i =>
    simp only [Net.step]
    cases hi : n.raw[i]? with
    | none => exact .inl rfl
    | some bytes =>
      exact .inr ⟨_, n.lose .raw i, rfl, h.frame_arrives (List.mem_of_getElem? hi) i, rfl⟩
  | ack i =>
    simp only [Net.step]
    split <;> exact .inl rfl
  | lose c i => cases c <;> exact .inl rfl

section Step

variable (h : n.Bars w image) (hsucc : EspNowPushReceiver.Succeeds w.plat image) (hne : image ≠ [])
  (hle : image.length ≤ 2 ^ 24)
include h hsucc hne hle

/-- The box's bar does not go back. -/
theorem Bars.box_step {act : Act} (hact : act.Running ∧ act.Lossy) :
    (n.step w act).box.Acking w.devMac image ∧
      ((n.step w act).box.state = .done → (n.step w act).box.endSent = true) ∧
      n.box.ackedBytes.toNat ≤ (n.step w act).box.ackedBytes.toNat := by
  rcases step_box w n hact.1 with hsame | ⟨ev, hev, hacks, hstep⟩
  · rw [hsame]
    exact ⟨h.acking, h.done, le_rfl⟩
  · have hrule := EspNowPushSender.step_rule w.clock n.box ev
    rw [← hstep] at hrule
    have hacking := h.acking.rule hrule hev
    refine ⟨hacking, fun hdone => h.joint.endSent_step hsucc hne hle hact ?_, ?_⟩
    · -- FINAL_OK answers an END
      rcases h.joint.agree.session.rule hrule hev with hgo | ⟨⟨rx, hrx, -, hok⟩, -, -⟩
      · exact h.done (hgo.state hdone)
      · obtain ⟨a, ha, ⟨hwin, -⟩ | ⟨-, hend⟩⟩ := h.joint.acks rx.pkt (hacks rx hrx)
        · have hstatus := hok.2
          rw [ha, decode_ackPacket, hwin] at hstatus
          exact absurd hstatus (by decide)
        · exact hend
    by_cases hafter : (n.step w act).box.state = .done ∨ (n.step w act).box.endSent = true
    · rw [hacking.after hafter]
      exact h.acked_le
    · -- not at the end, so not before either
      have hdone : n.box.state ≠ .done := fun hdone =>
        hafter (.inl (by rw [hrule.eq_of_not_pushing hev (by simp [hdone]), hdone]))
      have hend : n.box.endSent = false := by
        by_contra hend
        exact hafter (.inr (h.joint.endSent_step hsucc hne hle hact (by simpa using hend)))
      push Not at hafter
      have hmono := h.joint.window_le_step hle hact.1
      rw [(h.acking.before hdone hend).2, (hacking.before hafter.1 (by simpa using hafter.2)).2]
      omega

/-- Nor does the device's. -/
theorem Bars.dev_step {act : Act} (hact : act.Running ∧ act.Lossy) :
    (n.step w act).dev.bytesDone.toNat = (n.step w act).dev.onFlash image ∧
      n.dev.bytesDone.toNat ≤ (n.step w act).dev.bytesDone.toNat := by
  have hjoint := h.joint.step hsucc hne hle hact.1 hact.2
  rcases h.joint.step_dev hact with hsame | ⟨ev, n₀, hn₀, hev, hstep⟩
  · rw [hsame]
    exact ⟨h.dev, le_rfl⟩
  · have hrule := EspNowPushReceiver.step_rule w.plat n.dev hev.not_loop
    rw [← hstep] at hrule
    have hbar := h.joint.agree.serves.onFlash_eq hrule hjoint.agree.serves hjoint.state h.dev
    obtain ⟨acks, hmove⟩ :=
      EspNowPushReceiver.step_move hsucc h.joint.agree.serves hne hev.proper
    rw [← hstep] at hmove
    refine ⟨hbar, ?_⟩
    rw [hbar, h.dev]
    exact hmove.onFlash_le fun rx hrx hty => hn₀ ▸ hev.begin rx hrx hty

theorem Bars.step {act : Act} (hact : act.Running ∧ act.Lossy) :
    (n.step w act).Bars w image ∧ Grows n (n.step w act) := by
  obtain ⟨hacking, hdone, hbox⟩ := h.box_step hsucc hne hle hact
  obtain ⟨hbar, hdev⟩ := h.dev_step hsucc hne hle hact
  exact ⟨⟨h.joint.step hsucc hne hle hact.1 hact.2, hacking, hdone, hbar⟩, hbox, hdev⟩

theorem Bars.run {acts : List Act} (hacts : ∀ act ∈ acts, act.Running ∧ act.Lossy) :
    (n.run w acts).Bars w image ∧ Grows n (n.run w acts) := by
  induction acts generalizing n with
  | nil => exact ⟨h, .refl n⟩
  | cons act acts ih =>
    obtain ⟨hstep, hgrows⟩ := h.step hsucc hne hle (hacts act List.mem_cons_self)
    obtain ⟨hbars, hgrows'⟩ := ih hstep fun act' hact => hacts act' (List.mem_cons_of_mem _ hact)
    exact ⟨hbars, hgrows.trans hgrows'⟩

end Step

/-- One window apart at most. -/
theorem Bars.apart (h : n.Bars w image) (hne : image ≠ []) :
    n.box.ackedBytes.toNat ≤ n.dev.bytesDone.toNat ∧
      n.dev.bytesDone.toNat ≤ n.box.ackedBytes.toNat + 3872 ∧
        n.dev.bytesDone.toNat ≤ image.length := by
  have hpos := List.length_pos_iff.2 hne
  have hmax := h.joint.window_le
  have hbox : n.box.endSent = true ∧ n.box.ackedBytes.toNat = image.length ∧
        n.box.window.toNat = windowCount image.length ∨
      n.box.endSent = false ∧ n.box.ackedBytes.toNat = 3872 * n.box.window.toNat ∧
        n.box.window.toNat < windowCount image.length := by
    cases hend : n.box.endSent with
    | true => exact .inl ⟨rfl, h.acking.after (.inr hend), h.joint.endSent.1 hend⟩
    | false =>
      have hdone : n.box.state ≠ .done := fun hdone => by simp [h.done hdone] at hend
      obtain ⟨hlt, hacked⟩ := h.acking.before hdone hend
      exact .inr ⟨rfl, hacked, hlt⟩
  rw [h.dev]
  unfold EspNowPushReceiver.onFlash
  unfold windowCount frameCount at hbox
  cases hst : n.dev.state with
  | idle =>
    have := (h.joint.idle hst).1
    show _ ≤ 0 ∧ 0 ≤ _ ∧ 0 ≤ _
    omega
  | failed => exact absurd hst h.joint.state
  | receiving =>
    have := h.joint.drift (by simp [hst])
    show _ ≤ min image.length (3872 * n.dev.window.toNat) ∧
      min image.length (3872 * n.dev.window.toNat) ≤ _ ∧
        min image.length (3872 * n.dev.window.toNat) ≤ _
    omega
  | done =>
    show _ ≤ image.length ∧ image.length ≤ _ ∧ image.length ≤ _
    rcases hbox with ⟨-, hacked, -⟩ | ⟨hend, -⟩
    · omega
    · rw [(h.joint.done hst).1] at hend
      exact absurd hend (by decide)

/-- **The progress bars agree.**  One push of an image of 1 byte to 16 MiB to a
device that was never used, over a network that loses packets but keeps their
order, and an `Update` library that does what it is asked.  At every moment the
box shows at most what the device shows, at most one window of 3872 bytes less,
and nothing more than the image; from one moment to a later one no bar goes
back; and when the box is done both show the whole image. -/
theorem progress_bars_agree (w : Radio) (image : Image) (hpos : 1 ≤ image.bytes.length)
    (hle : image.bytes.length ≤ 2 ^ 24)
    (hsucc : EspNowPushReceiver.Succeeds w.plat image.bytes) (major minor patch : UInt8)
    (box : EspNowPushSender) (dev : EspNowPushReceiver) (hidle : dev.state = .idle)
    (hqueue : dev.queue.toList = []) (hdone : dev.bytesDone = 0) (acts later : List Act)
    (hacts : ∀ act ∈ acts ++ later, act.Running ∧ act.Lossy) :
    let n := (Net.step w ⟨box, dev, [], [], []⟩ (.start image major minor patch)).run w acts
    n.box.ackedBytes.toNat ≤ n.dev.bytesDone.toNat ∧
      n.dev.bytesDone.toNat ≤ n.box.ackedBytes.toNat + 3872 ∧
      n.dev.bytesDone.toNat ≤ image.bytes.length ∧ Grows n (n.run w later) ∧
      (n.box.state = .done → n.box.ackedBytes.toNat = image.bytes.length ∧
        n.dev.bytesDone.toNat = image.bytes.length) := by
  intro n
  have hne : image.bytes ≠ [] := List.length_pos_iff.1 hpos
  have hstart : Bars w image.bytes
      (Net.step w ⟨box, dev, [], [], []⟩ (.start image major minor patch)) := by
    refine ⟨joint_start w image hne hle major minor patch box dev hidle hqueue,
      EspNowPushSender.acking_start w.clock box image hne hle w.devMac major minor patch,
      fun hst => ?_, ?_⟩
    · -- a push that starts is not done
      rcases box.start_image w.clock image w.devMac major minor patch with ⟨hnil, -⟩ | ⟨-, hgo⟩
      · exact absurd hnil hne
      · simpa using hgo.state hst
    · show dev.bytesDone.toNat = dev.onFlash image.bytes
      rw [hdone, EspNowPushReceiver.onFlash, hidle]
      rfl
  have hbars : n.Bars w image.bytes :=
    (hstart.run hsucc hne hle fun act hact => hacts act (List.mem_append_left _ hact)).1
  obtain ⟨hbox, hdev, hmax⟩ := hbars.apart hne
  refine ⟨hbox, hdev, hmax, ?_, fun hst => ?_⟩
  · exact (hbars.run hsucc hne hle fun act hact => hacts act (List.mem_append_right _ hact)).2
  · have hall := hbars.acking.after (.inl hst)
    omega

theorem progress_bars_agree_oneByte :
    let n := oneBytePush (lostFrame ++ .timer :: afterFrame)
    n.box.ackedBytes.toNat = 1 ∧ n.dev.bytesDone.toNat = 1 := by
  intro n
  have hdone : n.box.state = .done := by decide +kernel
  exact (progress_bars_agree idleRadio oneByte (by decide) (by decide)
    (idleRadio_succeeds oneByte.bytes (by decide)) 1 0 0 {} {} rfl (by decide) rfl
    (lostFrame ++ .timer :: afterFrame) []
    (by simp [lostFrame, afterFrame, Act.Running, Act.Lossy])).2.2.2.2 hdone

end Net

end InfinitagNow
