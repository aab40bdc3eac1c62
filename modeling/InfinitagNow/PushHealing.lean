/-
InfinitagNow/PushHealing.lean

A lost packet before the end of the image is healed by the timeout.

Once the box has sent its window again and nothing gets lost any more (`Lossless`),
`Heals` is kept: the box has moved on, or the ack that moves it is on its way, or
the frames that cause this ack are on their way (`Healing`), either because the
device lacks them or because it is one window ahead and has acknowledged nothing
for 100 ms.
-/
import InfinitagNow.PushJoint

namespace InfinitagNow

open UpdateCall

/-! ### The clock of the device -/

namespace EspNowPushReceiver

/-- The clock is read, never turned back. -/
theorem Rule.reads_le {plat : Platform} {r r' : EspNowPushReceiver} {ev : Event}
    (hrule : Rule plat r ev r') : r.reads ≤ r'.reads := by
  have hfail : ∀ (r : EspNowPushReceiver) (status : UInt8),
      r.reads ≤ (r.fail plat status).reads := by
    intro r status
    simp [fail]
    omega
  cases hrule with
  | complete f q =>
    rcases finishWindow_cases plat
        (r := (({ r with queue := q }.touched plat).stored f).logRemain)
        (P := fun _ r₁ => r.reads ≤ r₁.reads)
        (fun _ hP _ => by simpa using hP) (by simp) with ⟨r₁, hP, heq⟩ | ⟨j, r₁, -, hP, -, heq⟩
    · rw [heq]
      simp
      omega
    · rw [heq]
      exact hP.trans (hfail (r₁.log _) _)
  | refuseEmpty rx => exact hfail (r.beginning rx) _
  | refuse rx => exact hfail ((r.beginning rx).log _) _
  | endMismatch rx => exact (Nat.le_succ _).trans (hfail ((r.received rx).touched plat) _)
  | endFlash rx => exact (Nat.le_succ _).trans (hfail (((r.received rx).touched plat).log _) _)
  | _ => simp <;> omega

end EspNowPushReceiver

namespace Net

variable {w : Radio} {image : List UInt8} {n n' : Net}

/-! ### Stuck states and lossless runs -/

/-- Nothing waits and nothing is on its way. -/
structure Quiet (n : Net) : Prop where
  queue : n.dev.queue.toList = []
  ctrl : n.ctrl = []
  raw : n.raw = []
  acks : n.acks = []

instance (n : Net) : Decidable n.Quiet :=
  decidable_of_iff (n.dev.queue.toList = [] ∧ n.ctrl = [] ∧ n.raw = [] ∧ n.acks = [])
    ⟨fun ⟨h₁, h₂, h₃, h₄⟩ => ⟨h₁, h₂, h₃, h₄⟩, fun h => ⟨h.queue, h.ctrl, h.raw, h.acks⟩⟩

/-- The box waits for an ack that nothing will cause; its timeout is due. -/
structure Stuck (w : Radio) (n : Net) : Prop extends Quiet n where
  pushing : n.box.state = .pushing
  left : n.box.RetryLeft
  due : ¬ w.clock n.box.reads < n.box.deadline
  receiving : n.dev.state = .receiving

instance (w : Radio) (n : Net) : Decidable (n.Stuck w) :=
  decidable_of_iff (n.Quiet ∧ n.box.state = .pushing ∧ n.box.RetryLeft ∧
      ¬ w.clock n.box.reads < n.box.deadline ∧ n.dev.state = .receiving)
    ⟨fun ⟨h₁, h₂, h₃, h₄, h₅⟩ => ⟨h₁, h₂, h₃, h₄, h₅⟩,
      fun h => ⟨h.toQuiet, h.pushing, h.left, h.due, h.receiving⟩⟩

/-- Nothing gets lost in the action: a frame finds room in the queue.  At a
further timeout the box has a retry left. -/
def Lossless (w : Radio) (n : Net) : Act → Prop
  | .control i | .ack i => i = 0
  | .frame i => i = 0 ∧ n.dev.queue.length + 1 < 24
  | .drain | .tail => True
  | .timer => n.box.state = .pushing → w.clock n.box.reads < n.box.deadline ∨ n.box.RetryLeft
  | _ => False

instance (w : Radio) (n : Net) : DecidablePred (n.Lossless w)
  | .control i | .ack i => inferInstanceAs (Decidable (i = 0))
  | .frame i => inferInstanceAs (Decidable (i = 0 ∧ n.dev.queue.length + 1 < 24))
  | .drain | .tail => inferInstanceAs (Decidable True)
  | .timer => inferInstanceAs (Decidable (n.box.state = .pushing →
      w.clock n.box.reads < n.box.deadline ∨ n.box.RetryLeft))
  | .start .. | .lose .. | .dup .. => inferInstanceAs (Decidable False)

def LosslessRun (w : Radio) (n : Net) : List Act → Prop
  | [] => True
  | act :: acts => n.Lossless w act ∧ LosslessRun w (n.step w act) acts

instance LosslessRun.decidable (w : Radio) : (n : Net) → DecidablePred (n.LosslessRun w)
  | _, [] => inferInstanceAs (Decidable True)
  | n, act :: acts =>
    have := LosslessRun.decidable w (n.step w act) acts
    inferInstanceAs (Decidable (n.Lossless w act ∧ LosslessRun w (n.step w act) acts))

theorem Lossless.lossy {act : Act} (h : n.Lossless w act) : act.Running ∧ act.Lossy := by
  cases act with
  | start | lose | dup => exact absurd h id
  | control i | ack i => exact ⟨trivial, h⟩
  | frame i => exact ⟨trivial, h.1⟩
  | drain | tail | timer => exact ⟨trivial, trivial⟩

theorem LosslessRun.lossy {acts : List Act} (h : n.LosslessRun w acts) {act : Act}
    (hact : act ∈ acts) : act.Running ∧ act.Lossy := by
  induction acts generalizing n with
  | nil => exact absurd hact List.not_mem_nil
  | cons a acts ih =>
    rcases List.mem_cons.1 hact with rfl | hact
    · exact h.1.lossy
    · exact ih h.2 hact

/-! ### Frames that wait -/

/-- A frame of this number waits in the queue or is on its way. -/
def Waits (image : List UInt8) (n : Net) (no : ℕ) : Prop :=
  (∃ f ∈ n.dev.queue.toList, f.frameIdx.toNat = no) ∨
    ∃ idx : UInt32, imageFrame image idx ∈ n.raw ∧ idx.toNat = no

/-- The box is at window `s` and waits. -/
structure Waiting (s : ℕ) (n : Net) : Prop where
  window : n.box.window.toNat = s
  state : n.box.state = .pushing

/-- The device has a session, the frames that wait belong to window `s`, and
they cause the ack of this window: they complete it, or the device has it and
may acknowledge it again. -/
structure Healing (image : List UInt8) (s : ℕ) (lastAckMs : UInt32) (n : Net) : Prop where
  receiving : n.dev.state = .receiving
  fresh : ∀ no, Waits image n no → s * 16 ≤ no
  frames : (n.dev.window.toNat = s ∧ ∀ i, n.dev.Needs image i →
      bit n.dev.haveMask i = true ∨ Waits image n (n.dev.frameNo i)) ∨
    (n.dev.window.toNat = s + 1 ∧ n.dev.lastAckMs = lastAckMs ∧ ∃ no, Waits image n no)

/-- The ack of window `s` is on its way. -/
def Acked (s : ℕ) (n : Net) : Prop :=
  ∃ a, ackPacket a ∈ n.acks ∧ a.status = pushAckWindow ∧ a.window.toNat = s ∧ a.missing = 0

inductive Heals (image : List UInt8) (s : ℕ) (lastAckMs : UInt32) (n : Net) : Prop
  | moved (h : s < n.box.window.toNat)
  | acked (hbox : Waiting s n) (h : Acked s n)
  | healing (hbox : Waiting s n) (h : Healing image s lastAckMs n)

variable {s : ℕ} {last : UInt32}

/-- What is left alone goes on healing. -/
theorem Healing.of_same (h : Healing image s last n) (hstate : n'.dev.state = n.dev.state)
    (hwindow : n'.dev.window = n.dev.window) (hmask : n'.dev.haveMask = n.dev.haveMask)
    (hlast : n.dev.window.toNat = s + 1 → n'.dev.lastAckMs = n.dev.lastAckMs)
    (hwaits : ∀ no, Waits image n' no ↔ Waits image n no) : Healing image s last n' := by
  refine ⟨hstate.trans h.receiving, fun no hno => h.fresh no ((hwaits no).1 hno), ?_⟩
  rcases h.frames with ⟨hw, hframes⟩ | ⟨hw, hack, no, hno⟩
  · refine .inl ⟨by rw [hwindow, hw], fun i hi => ?_⟩
    simp only [EspNowPushReceiver.Needs, EspNowPushReceiver.frameNo, hwindow, hmask, hwaits] at hi ⊢
    exact hframes i hi
  · exact .inr ⟨by rw [hwindow, hw], by rw [hlast hw, hack], no, (hwaits no).2 hno⟩

/-- More frames of the window do not disturb. -/
theorem Healing.of_more (h : Healing image s last n) {raw : List (List UInt8)}
    (hraw : ∀ idx, imageFrame image idx ∈ raw → s * 16 ≤ idx.toNat) {box : EspNowPushSender}
    {ctrl : List Packet} {acks : List Packet} :
    Healing image s last ⟨box, n.dev, ctrl, n.raw ++ raw, acks⟩ := by
  have hmono : ∀ {no}, Waits image n no →
      Waits image ⟨box, n.dev, ctrl, n.raw ++ raw, acks⟩ no := by
    rintro no (hq | ⟨idx, hmem, hidx⟩)
    · exact .inl hq
    · exact .inr ⟨idx, List.mem_append_left _ hmem, hidx⟩
  refine ⟨h.receiving, ?_, ?_⟩
  · rintro no (hq | ⟨idx, hmem, rfl⟩)
    · exact h.fresh no (.inl hq)
    · rcases List.mem_append.1 hmem with hmem | hmem
      · exact h.fresh _ (.inr ⟨idx, hmem, rfl⟩)
      · exact hraw idx hmem
  · rcases h.frames with ⟨hw, hframes⟩ | ⟨hw, hack, no, hno⟩
    · exact .inl ⟨hw, fun i hi => (hframes i hi).imp_right hmono⟩
    · exact .inr ⟨hw, hack, no, hmono hno⟩

/-! ### Acks before the end -/

/-- The frames a session sends belong to its window. -/
theorem le_of_mem_asked {box : EspNowPushSender} {mask idx : UInt32}
    (h : imageFrame image idx ∈ (box.asked mask 0 16).map (imageFrame image)) :
    box.window.toNat * 16 ≤ idx.toNat := by
  obtain ⟨idx', hmem, heq⟩ := List.mem_map.1 h
  obtain rfl : idx' = idx := rawBytes_idx_inj heq
  obtain ⟨i, hi, -, -, rfl⟩ := EspNowPushSender.mem_asked_iff.1 hmem
  rw [box.first_add_toNat hi]
  omega

/-- A window ack moves the box on, or leaves it waiting. -/
theorem Joint.ack_waiting (h : n.Joint w image) (hle : image.length ≤ 2 ^ 24) (hbox : Waiting s n)
    (hs : s < windowCount image.length) {a : PushAck} (hst : a.status = pushAckWindow)
    {box : EspNowPushSender}
    (hmove : EspNowPushSender.Move image n.box (.control ⟨w.devMac, ackPacket a⟩) box) :
    box.window.toNat = s + 1 ∨
      box.window = n.box.window ∧ box.state = .pushing ∧ ¬ (a.window.toNat = s ∧ a.missing = 0) ∧
        ∃ new, box.out = n.box.out ++ new ∧
          ∀ idx, imageFrame image idx ∈ framesTo w.devMac new → s * 16 ≤ idx.toNat := by
  have hnext : (n.box.window + 1).toNat = s + 1 := by
    rw [window_succ_toNat hle (hbox.window ▸ hs), hbox.window]
  have hwin : a.window = n.box.window ↔ a.window.toNat = s := by
    rw [← UInt16.toNat_inj, hbox.window]
  cases hmove with
  | silent hwhy hkeeps hstate hout =>
    refine .inr ⟨hkeeps.window, hstate.trans hbox.state, ?_, [], by rw [hout, List.append_nil],
      by simp [framesTo]⟩
    rcases hwhy _ rfl with hne | hne | hne | hne
    · exact absurd hbox.state hne
    · exact absurd h.agree.session.mac.symm hne
    · exact absurd rfl hne
    · rw [decode_ackPacket] at hne
      exact fun hand => hne (hwin.2 hand.1)
  | reject _ _ _ hstatus =>
    rw [decode_ackPacket] at hstatus
    exact absurd hst hstatus
  | finish _ hok =>
    have hstatus : a.status = pushAckFinalOk := by simpa using hok.2
    rw [hst] at hstatus
    exact absurd hstatus (by decide)
  | frames mask hwhy hkeeps hstate hout =>
    refine .inr ⟨hkeeps.window, hstate.trans hbox.state, ?_, _, hout, ?_⟩
    · have hmissing := hwhy _ rfl
      rw [decode_ackPacket] at hmissing
      exact fun hand => hmissing hand.2
    · rw [framesTo_frames h.agree.session.mac]
      intro idx hidx
      rw [← hbox.window]
      exact le_of_mem_asked hidx
  | advance _ _ _ _ _ _ hwindow => exact .inl (by rw [hwindow, hnext])
  | last _ _ _ _ _ hwindow => exact .inl (by rw [hwindow, hnext])

/-- The box never goes back. -/
theorem Joint.window_le_step (h : n.Joint w image) (hle : image.length ≤ 2 ^ 24) {act : Act}
    (hrunning : act.Running) : n.box.window.toNat ≤ (n.step w act).box.window.toNat := by
  have hmono : ∀ {n : Net}, n.Joint w image →
      ∀ {ev : EspNowPushSender.Event}, (∀ a, ev ≠ .start a) →
      (∀ rx, ev = .control rx →
        AckOk n.dev.window.toNat n.box.endSent rx.pkt ∧ n.dev.state ≠ .idle) →
      n.box.window.toNat ≤ (n.boxAct w ev).box.window.toNat := by
    intro n h ev hev hack
    obtain ⟨new, -, hok⟩ := h.boxOk hle hev hack
    show n.box.window.toNat ≤ (n.box.step w.clock ev).window.toNat
    rcases hok.window with ⟨hw, -⟩ | ⟨hw, -⟩ <;> omega
  cases act with
  | start => exact absurd hrunning id
  | timer => exact hmono h (by simp) (by simp)
  | ack i =>
    simp only [Net.step]
    cases hi : n.acks[i]? with
    | none => exact le_rfl
    | some pkt =>
      have hmem := List.mem_of_getElem? hi
      refine hmono (h.lose .acks i) (by simp) ?_
      rintro _ ⟨⟩
      exact ⟨h.acks pkt hmem, h.ack_idle hmem⟩
  | control i | frame i =>
    simp only [Net.step]
    split <;> exact le_rfl
  | drain | tail => exact le_rfl
  | lose c i | dup c i => cases c <;> exact le_rfl

/-- Before the end every ack on its way is a window ack. -/
theorem Joint.window_ack (h : n.Joint w image)
    (hwindow : n.box.window.toNat < windowCount image.length) {pkt : Packet} (hmem : pkt ∈ n.acks) :
    ∃ a, pkt = ackPacket a ∧ a.status = pushAckWindow := by
  obtain ⟨a, hpkt, ⟨hst, -⟩ | ⟨-, hend⟩⟩ := h.acks pkt hmem
  · exact ⟨a, hpkt, hst⟩
  · have := h.endSent.1 hend
    omega

/-- Healing goes on when an ack comes, and the ack of the window ends it. -/
theorem Heals.ack (h : n.Joint w image) (hle : image.length ≤ 2 ^ 24)
    (hs : s < windowCount image.length) (hheals : Heals image s last n) :
    Heals image s last (n.step w (.ack 0)) := by
  have hmono := h.window_le_step hle (show (Act.ack 0).Running from trivial)
  by_cases hmoved : s < n.box.window.toNat
  · exact .moved (by omega)
  have hbox : Waiting s n := by
    cases hheals with
    | moved hlt => exact absurd hlt hmoved
    | acked hbox | healing hbox => exact hbox
  cases hacks : n.acks with
  | nil =>
    have hself : n.step w (.ack 0) = n := by simp [Net.step, hacks]
    rw [hself]
    exact hheals
  | cons pkt acks =>
    obtain ⟨a, rfl, hst⟩ := h.window_ack (by rw [hbox.window]; exact hs)
      (show pkt ∈ n.acks by simp [hacks])
    have hstep : n.step w (.ack 0) =
        (n.lose .acks 0).boxAct w (.control ⟨w.devMac, ackPacket a⟩) := by
      simp [Net.step, hacks]
    have hmove := EspNowPushSender.rule_move (h.agree.session.pushes hle) (by simp)
      (EspNowPushSender.step_rule w.clock n.box (.control ⟨w.devMac, ackPacket a⟩))
    rw [hstep]
    rcases h.ack_waiting hle hbox hs hst hmove with hnext | ⟨hwin, hstate, hnot, new, hout, hraw⟩
    · refine .moved ?_
      show s < (n.box.step w.clock _).window.toNat
      omega
    · have hbox' : Waiting s ((n.lose .acks 0).boxAct w (.control ⟨w.devMac, ackPacket a⟩)) :=
        ⟨(congrArg UInt16.toNat hwin).trans hbox.window, hstate⟩
      have heq := boxAct_eq (n := n.lose .acks 0) hout
      cases hheals with
      | moved hlt => exact absurd hlt hmoved
      | acked _ hacked =>
        obtain ⟨a', hmem, hst', hwin', hmissing⟩ := hacked
        refine .acked hbox' ⟨a', ?_, hst', hwin', hmissing⟩
        rw [hacks] at hmem
        rcases List.mem_cons.1 hmem with hhead | hmem
        · -- the ack that came is not the one that moves the box
          have hsame : a' = a := by
            rw [← decode_ackPacket a', hhead, decode_ackPacket]
          rw [hsame] at hwin' hmissing
          exact absurd ⟨hwin', hmissing⟩ hnot
        · show ackPacket a' ∈ n.acks.eraseIdx 0
          simpa [hacks] using hmem
      | healing _ hhealing =>
        refine .healing hbox' ?_
        rw [heq]
        exact hhealing.of_more hraw

/-! ### The device before the end -/

/-- An event of the device matters only while the box waits for its ack. -/
theorem Heals.of_dev (hheals : Heals image s last n) {dev : EspNowPushReceiver} {ctrl : List Packet}
    {raw : List (List UInt8)} {acks : List PushAck}
    (hhealing : Waiting s n → Healing image s last n →
      (∃ a ∈ acks, a.status = pushAckWindow ∧ a.window.toNat = s ∧ a.missing = 0) ∨
        Healing image s last ⟨n.box, dev, ctrl, raw, n.acks ++ acks.map ackPacket⟩) :
    Heals image s last ⟨n.box, dev, ctrl, raw, n.acks ++ acks.map ackPacket⟩ := by
  cases hheals with
  | moved h => exact .moved h
  | acked hbox h =>
    obtain ⟨a, hmem, hrest⟩ := h
    exact .acked ⟨hbox.window, hbox.state⟩ ⟨a, List.mem_append_left _ hmem, hrest⟩
  | healing hbox h =>
    rcases hhealing hbox h with ⟨a, ha, hrest⟩ | hnext
    · exact .acked ⟨hbox.window, hbox.state⟩
        ⟨a, List.mem_append_right _ (List.mem_map_of_mem ha), hrest⟩
    · exact .healing ⟨hbox.window, hbox.state⟩ hnext

/-- A frame that is left when one was taken waited before. -/
theorem waits_of_pop {dev : EspNowPushReceiver} {f : RawFrame} {ctrl acks : List Packet}
    (hpop : n.dev.queue.toList = f :: dev.queue.toList) {no : ℕ} :
    Waits image n no ↔ f.frameIdx.toNat = no ∨ Waits image ⟨n.box, dev, ctrl, n.raw, acks⟩ no := by
  simp only [Waits, hpop, List.mem_cons, exists_eq_or_imp, or_assoc]

section Dev

variable (h : n.Joint w image) (hsucc : EspNowPushReceiver.Succeeds w.plat image)
  (hne : image ≠ []) (hheals : Heals image s last n)
include h hsucc hne hheals

/-- A frame is taken from the queue. -/
theorem Heals.drain (hclock : ∀ k, n.dev.reads ≤ k → k < (n.step w .drain).dev.reads →
    w.plat.millis k - last > 100) : Heals image s last (n.step w .drain) := by
  obtain ⟨acks, hmove⟩ := EspNowPushReceiver.step_move hsucc h.agree.serves hne
    (show EspNowPushReceiver.Proper w.boxMac image .drain from trivial)
  show Heals image s last (n.devAct w .drain)
  change ∀ k, n.dev.reads ≤ k → k < (n.dev.step w.plat .drain).reads → _ at hclock
  rw [devAct_eq hmove.sends, acksTo_map]
  generalize n.dev.step w.plat .drain = dev at hmove hclock ⊢
  refine hheals.of_dev fun hbox hhealing => ?_
  have hwindow : n.box.window.toNat = s := hbox.window
  -- the oldest frame is one of window `s`
  have hfresh : ∀ {f : RawFrame}, n.dev.queue.toList = f :: dev.queue.toList →
      s * 16 ≤ f.frameIdx.toNat ∧ f.frameIdx.toNat < (s + 1) * 16 := by
    intro f hpop
    have hmem : f ∈ n.dev.queue.toList := by simp [hpop]
    have hlt := h.queue f hmem
    rw [hwindow] at hlt
    exact ⟨hhealing.fresh _ (.inl ⟨f, hmem, rfl⟩), hlt⟩
  cases hmove with
  | rests hst => exact absurd hhealing.receiving hst
  | empty _ _ hm hmask hqueue =>
    refine .inr (hhealing.of_same (hm.state.trans hhealing.receiving.symm)
      (UInt16.toNat_inj.1 hm.window) hmask (fun _ => hm.quiet rfl) fun no => ?_)
    simp only [Waits, hqueue]
  | stale f _ hpop hlt hdue hreads =>
    have hf := hfresh hpop
    rcases hhealing.frames with ⟨hw, -⟩ | ⟨-, hlast, -⟩
    · omega
    · rw [hlast] at hdue
      exact absurd (hclock _ (Nat.le_succ _) hreads) hdue
  | reack f window _ hpop _ hdiv =>
    have hf := hfresh hpop
    exact .inl ⟨_, List.mem_singleton_self _, rfl, by simp only; omega, rfl⟩
  | future f _ hpop hge =>
    have hf := hfresh hpop
    rcases hhealing.frames with ⟨hw, -⟩ | ⟨hw, -⟩ <;> omega
  | stores f i _ hpop hi hidx hm hmask =>
    have hf := hfresh hpop
    refine .inr ⟨hm.state, fun no hno => hhealing.fresh no ((waits_of_pop hpop).2 (.inr hno)), ?_⟩
    rcases hhealing.frames with ⟨hw, hframes⟩ | ⟨hw, -⟩
    · refine .inl ⟨hm.window.trans hw, fun j hj => ?_⟩
      have hwin : dev.window = n.dev.window := UInt16.toNat_inj.1 hm.window
      simp only [EspNowPushReceiver.Needs, EspNowPushReceiver.frameNo, hwin] at hj ⊢
      rw [hmask]
      rcases hframes j hj with hbit | hwait
      · exact .inl (.inl hbit)
      · rcases (waits_of_pop hpop).1 hwait with heq | hwait
        · -- the frame taken is the one that row waited for
          refine .inl (.inr ?_)
          rw [hidx] at heq
          unfold EspNowPushReceiver.frameNo at heq
          omega
        · exact .inr hwait
    · unfold EspNowPushReceiver.frameNo at hidx
      omega
  | completes f _ hpop hge =>
    have hf := hfresh hpop
    rcases hhealing.frames with ⟨hw, -⟩ | ⟨hw, -⟩
    · exact .inl ⟨_, List.mem_replicate.2 ⟨by decide, rfl⟩, rfl, hw, rfl⟩
    · omega

/-- The periodic check of the device. -/
theorem Heals.tail : Heals image s last (n.step w .tail) := by
  obtain ⟨acks, hmove⟩ := EspNowPushReceiver.step_move hsucc h.agree.serves hne
    (show EspNowPushReceiver.Proper w.boxMac image .tail from trivial)
  show Heals image s last (n.devAct w .tail)
  rw [devAct_eq hmove.sends, acksTo_map]
  generalize n.dev.step w.plat .tail = dev at hmove ⊢
  refine hheals.of_dev fun hbox hhealing => .inr ?_
  have hwindow : n.box.window.toNat = s := hbox.window
  cases hmove with
  | rests hst => exact absurd hhealing.receiving hst
  | calm _ hm hmask hqueue =>
    refine hhealing.of_same (hm.state.trans hhealing.receiving.symm) (UInt16.toNat_inj.1 hm.window)
      hmask (fun _ => hm.quiet rfl) fun no => ?_
    simp only [Waits, hqueue]
  | asks missing hst hmarked _ hm hmask hqueue =>
    refine hhealing.of_same (hm.state.trans hhealing.receiving.symm) (UInt16.toNat_inj.1 hm.window)
      hmask (fun hw => ?_) fun no => ?_
    · -- rows are marked only in the window of the box
      have hle := h.mask hst hmarked
      omega
    · simp only [Waits, hqueue]

/-- A control packet comes; before the end it is a BEGIN, and the device has a
session. -/
theorem Heals.control (hs : s < windowCount image.length) :
    Heals image s last (n.step w (.control 0)) := by
  simp only [Net.step]
  cases hctrl : n.ctrl with
  | nil => exact hheals
  | cons pkt ctrl =>
    have harr := h.control_arrives hctrl
    obtain ⟨acks, hmove⟩ := EspNowPushReceiver.step_move hsucc h.agree.serves hne harr.proper
    show Heals image s last ((n.lose .ctrl 0).devAct w (.control ⟨w.boxMac, pkt⟩))
    rw [devAct_eq (n := n.lose .ctrl 0) hmove.sends, acksTo_map]
    refine hheals.of_dev fun hbox hhealing => .inr ?_
    -- an END is on its way only when all windows are done
    have hbegin : pkt.msgType = msgPushBegin := by
      rcases h.ctrl pkt (by simp [hctrl]) with hbegin | ⟨-, hend⟩
      · exact hbegin
      · have hall := h.endSent.1 hend
        rw [hbox.window] at hall
        omega
    have hnot : pkt.msgType ≠ msgPushEnd := by
      rw [hbegin]
      decide
    show Healing image s last ⟨n.box, n.dev.step w.plat _, _, _, _⟩
    generalize n.dev.step w.plat _ = dev at hmove ⊢
    cases hmove with
    | rests hst | opens hst => exact absurd hhealing.receiving hst
    | endEarly _ _ hend | commits _ hend => exact absurd hend hnot
    | repeats _ _ hm hmask hqueue =>
      refine hhealing.of_same (hm.state.trans hhealing.receiving.symm)
        (UInt16.toNat_inj.1 hm.window) hmask (fun _ => hm.quiet rfl) fun no => ?_
      simp only [Waits, Net.lose, hqueue]

/-- A frame comes, and there is room for it. -/
theorem Heals.frame (hroom : n.dev.queue.length + 1 < 24) :
    Heals image s last (n.step w (.frame 0)) := by
  simp only [Net.step]
  cases hraw : n.raw with
  | nil => exact hheals
  | cons bytes raw =>
    have hmem : bytes ∈ n.raw := by simp [hraw]
    obtain ⟨acks, hmove⟩ := EspNowPushReceiver.step_move hsucc h.agree.serves hne
      (h.frame_arrives hmem 0).proper
    obtain ⟨idx, hbytes, -⟩ := h.raw bytes hmem
    show Heals image s last ((n.lose .raw 0).devAct w (.raw w.boxMac bytes))
    rw [devAct_eq (n := n.lose .raw 0) hmove.sends, acksTo_map]
    refine hheals.of_dev fun _ hhealing => .inr ?_
    show Healing image s last ⟨n.box, n.dev.step w.plat _, _, _, _⟩
    generalize n.dev.step w.plat _ = dev at hmove ⊢
    cases hmove with
    | rests hst => exact absurd hhealing.receiving hst
    | enqueues f _ hf hm hmask hqueue =>
      refine hhealing.of_same (hm.state.trans hhealing.receiving.symm)
        (UInt16.toNat_inj.1 hm.window) hmask (fun _ => hm.quiet rfl) fun no => ?_
      -- the frame waits in the queue now
      have hidx : f.frameIdx = idx := RawFrame.frameIdx_of_bytes (hf.trans hbytes)
      have hlose : (n.lose .raw 0).raw = raw := by simp [Net.lose, hraw]
      have hhead : ∀ i : UInt32, imageFrame image i = imageFrame image idx ↔ i = idx :=
        fun i => ⟨rawBytes_idx_inj, fun hi => by rw [hi]⟩
      simp only [Waits, hlose, hraw, hqueue, Ring.toList_push, if_pos hroom, List.mem_append,
        List.mem_cons, List.not_mem_nil, hbytes, hhead, or_and_right, exists_or, exists_eq_left,
        hidx, or_assoc, or_false]

end Dev

/-! ### The box before the end -/

/-- A timeout before the end sends nothing but the window again. -/
theorem Joint.timer_waiting (h : n.Joint w image) (hle : image.length ≤ 2 ^ 24) (hbox : Waiting s n)
    (hlossless : n.Lossless w .timer) :
    ∃ new, (n.box.step w.clock .loop).out = n.box.out ++ new ∧
      Waiting s { n with box := n.box.step w.clock .loop } ∧
        ∀ idx, imageFrame image idx ∈ framesTo w.devMac new → s * 16 ≤ idx.toNat := by
  have hmac := h.agree.session.mac
  show ∃ new, (n.box.loop w.clock).out = _ ∧ Waiting s { n with box := n.box.loop w.clock } ∧ _
  by_cases hdue : w.clock n.box.reads < n.box.deadline
  · have hearly : n.box.loop w.clock = { n.box with reads := n.box.reads + 1 } := by
      simp [EspNowPushSender.loop, hbox.state, hdue]
    rw [hearly]
    exact ⟨[], by simp, ⟨hbox.window, hbox.state⟩, by simp [framesTo]⟩
  · have hleft := (hlossless hbox.state).resolve_left hdue
    have hresends :=
      EspNowPushSender.timeout_resends (h.agree.session.pushes hle) hbox.state hdue hleft
    have hbox' : Waiting s { n with box := n.box.loop w.clock } :=
      ⟨(congrArg UInt16.toNat hresends.keeps.window).trans hbox.window, hresends.state⟩
    rcases hresends.out with ⟨-, hout⟩ | ⟨-, pre, hpre, hout⟩
    · exact ⟨_, hout, hbox', by simp [framesTo]⟩
    · refine ⟨_, hout, hbox', fun idx hidx => ?_⟩
      rw [hmac] at hpre
      rw [framesTo_begins hpre, framesTo_frames hmac] at hidx
      rw [← hbox.window]
      exact le_of_mem_asked hidx

theorem Heals.timer (h : n.Joint w image) (hle : image.length ≤ 2 ^ 24)
    (hheals : Heals image s last n) (hlossless : n.Lossless w .timer) :
    Heals image s last (n.step w .timer) := by
  have hmono := h.window_le_step hle (show Act.timer.Running from trivial)
  cases hheals with
  | moved hlt => exact .moved (lt_of_lt_of_le hlt hmono)
  | acked hbox hacked =>
    obtain ⟨new, hout, hbox', -⟩ := h.timer_waiting hle hbox hlossless
    show Heals image s last (n.boxAct w .loop)
    rw [boxAct_eq hout]
    exact .acked ⟨hbox'.window, hbox'.state⟩ hacked
  | healing hbox hhealing =>
    obtain ⟨new, hout, hbox', hraw⟩ := h.timer_waiting hle hbox hlossless
    show Heals image s last (n.boxAct w .loop)
    rw [boxAct_eq hout]
    exact .healing ⟨hbox'.window, hbox'.state⟩ (hhealing.of_more hraw)

/-- The step lemma. -/
theorem Heals.step (h : n.Joint w image) (hsucc : EspNowPushReceiver.Succeeds w.plat image)
    (hne : image ≠ []) (hle : image.length ≤ 2 ^ 24) (hs : s < windowCount image.length)
    (hheals : Heals image s last n) {act : Act} (hlossless : n.Lossless w act)
    (hclock : ∀ k, n.dev.reads ≤ k → k < (n.step w act).dev.reads → w.plat.millis k - last > 100) :
    Heals image s last (n.step w act) := by
  cases act with
  | start | lose | dup => exact absurd hlossless id
  | timer => exact hheals.timer h hle hlossless
  | drain => exact hheals.drain h hsucc hne hclock
  | tail => exact hheals.tail h hsucc hne
  | control i =>
    obtain rfl : i = 0 := hlossless
    exact hheals.control h hsucc hne hs
  | frame i =>
    obtain ⟨rfl, hroom⟩ : i = 0 ∧ _ := hlossless
    exact hheals.frame h hsucc hne hroom
  | ack i =>
    obtain rfl : i = 0 := hlossless
    exact hheals.ack h hle hs

end Net

end InfinitagNow
