/-
InfinitagNow/PushCompletion.lean

A push that can go on comes to its end.

A round begins in a stuck state with the timeout and ends, without loss, when
nothing waits any more.  A round brings the box at least one window further, or
to the end (`Joint.round_moves`), so there are at most as many rounds as windows
left and one for END (`Rounds.bound`).  That a round can end is no assumption:
the weight of `PushTraffic` shrinks with everything that is handled, so that a
schedule without loss leads to a quiet state (`Joint.settles`).
-/
import InfinitagNow.PushTraffic

namespace InfinitagNow

open UpdateCall

/-! ### The device -/

namespace EspNowPushReceiver

variable {plat : Platform} {r r' : EspNowPushReceiver} {image : List UInt8} {box : Mac}

/-- A session that copies the image goes on or sends FINAL_OK. -/
theorem Move.receiving_or_final {ev : Event} {acks : List PushAck}
    (h : Move plat box image r ev r' acks) (hst : r.state = .receiving) :
    r'.state = .receiving ∨ (⟨0xFFFF, 0, pushAckFinalOk, 0⟩ : PushAck) ∈ acks := by
  cases h with
  | rests hne => exact absurd hst hne
  | commits => exact .inr (by simp)
  | _ => exact .inl (Moves.state ‹Moves box r r' _ _ _›)

/-- Only `drain` takes frames out of the queue, and only a frame that comes is
put in. -/
theorem Move.queue_eq {ev : Event} {acks : List PushAck} (h : Move plat box image r ev r' acks)
    (hev : ev ≠ .drain) (hraw : ∀ mac data, ev = .raw mac data → r.state ≠ .receiving) :
    r'.queue = r.queue := by
  cases h with
  | rests _ _ _ _ hqueue | opens _ _ _ _ hqueue | repeats _ _ _ _ hqueue
  | endEarly _ _ _ _ _ _ _ hqueue | commits _ _ _ _ _ hqueue | calm _ _ _ hqueue
  | asks _ _ _ _ _ _ hqueue => exact hqueue
  | enqueues f hst => exact absurd hst (hraw _ _ rfl)
  | empty | stale | reack | future | stores | completes => exact absurd rfl hev

end EspNowPushReceiver

namespace Net

variable {w : Radio} {image : List UInt8} {n n' n'' : Net}

/-! ### What a round keeps -/

/-- The push is done, FINAL_OK is on its way, or the session runs. -/
inductive Alive (n : Net) : Prop
  | done (h : n.box.state = .done)
  | answered (hbox : n.box.state = .pushing) (pkt : Packet) (hmem : pkt ∈ n.acks)
      (hok : FinalOk pkt)
  | receiving (hbox : n.box.state = .pushing) (hdev : n.dev.state = .receiving)

theorem Stuck.alive (h : n.Stuck w) : n.Alive := .receiving h.pushing h.receiving

/-- Packets and frames to the device do not matter. -/
theorem Alive.of_eq (h : n.Alive) (hbox : n'.box = n.box) (hdev : n'.dev = n.dev)
    (hacks : n'.acks = n.acks) : n'.Alive := by
  cases h with
  | done hdone => exact .done (by rw [hbox, hdone])
  | answered hst pkt hmem hok => exact .answered (by rw [hbox, hst]) pkt (by rwa [hacks]) hok
  | receiving hst hrec => exact .receiving (by rw [hbox, hst]) (by rw [hdev, hrec])

theorem Alive.boxAct (h : n.Alive) {ev : EspNowPushSender.Event} (hev : ∀ a, ev ≠ .start a)
    (hstate : n.box.state = .pushing → (n.box.step w.clock ev).state = .pushing) :
    (n.boxAct w ev).Alive := by
  cases h with
  | done hdone =>
    have hself : n.box.step w.clock ev = n.box :=
      (EspNowPushSender.step_rule w.clock n.box ev).eq_of_not_pushing hev (by simp [hdone])
    rw [boxAct_self hself]
    exact .done hdone
  | answered hbox pkt hmem hok => exact .answered (hstate hbox) pkt hmem hok
  | receiving hbox hdev => exact .receiving (hstate hbox) hdev

theorem Alive.devAct (h : n.Joint w image) (halive : n.Alive)
    (hsucc : EspNowPushReceiver.Succeeds w.plat image) (hne : image ≠ [])
    {ev : EspNowPushReceiver.Event} (hev : EspNowPushReceiver.Proper w.boxMac image ev) :
    (n.devAct w ev).Alive := by
  obtain ⟨acks, hmove⟩ := EspNowPushReceiver.step_move hsucc h.agree.serves hne hev
  rw [devAct_eq hmove.sends, acksTo_map]
  cases halive with
  | done hdone => exact .done hdone
  | answered hbox pkt hmem hok => exact .answered hbox pkt (List.mem_append_left _ hmem) hok
  | receiving hbox hdev =>
    rcases hmove.receiving_or_final hdev with hst | hfinal
    · exact .receiving hbox hst
    · refine .answered hbox (ackPacket ⟨0xFFFF, 0, pushAckFinalOk, 0⟩) ?_ ⟨rfl, ?_⟩
      · exact List.mem_append_right _ (List.mem_map_of_mem hfinal)
      · rw [decode_ackPacket]

theorem Alive.ack (h : n.Joint w image) (halive : n.Alive) (hle : image.length ≤ 2 ^ 24) :
    (n.step w (.ack 0)).Alive := by
  simp only [Net.step]
  cases hacks : n.acks with
  | nil => exact halive
  | cons pkt acks =>
    have hrule := EspNowPushSender.step_rule w.clock n.box (.control ⟨w.devMac, pkt⟩)
    have hlose : (n.lose .acks 0).acks = acks := by simp [Net.lose, hacks]
    show ((n.lose .acks 0).boxAct w (.control ⟨w.devMac, pkt⟩)).Alive
    by_cases hok : FinalOk pkt
    · refine .done ?_
      cases halive with
      | done hdone =>
        have hself := hrule.eq_of_not_pushing (by simp) (by simp [hdone])
        exact (congrArg EspNowPushSender.state hself).trans hdone
      | answered hbox | receiving hbox =>
        exact hrule.done_of_finalOk hbox h.agree.session.mac.symm hok
    · -- a window ack: the FINAL_OK hoped for is another one
      have hrest : (n.lose .acks 0).Alive := by
        cases halive with
        | done hdone => exact .done hdone
        | receiving hbox hdev => exact .receiving hbox hdev
        | answered hbox pkt' hmem hok' =>
          rw [hacks] at hmem
          rcases List.mem_cons.1 hmem with rfl | hmem
          · exact absurd hok' hok
          · exact .answered hbox pkt' (by rwa [hlose]) hok'
      refine hrest.boxAct (by simp) fun hst => ?_
      obtain ⟨a, rfl, ⟨hwin, -⟩ | ⟨hfinal, -⟩⟩ := h.acks pkt (by simp [hacks])
      · have hmove := EspNowPushSender.rule_move (h.agree.session.pushes hle) (by simp) hrule
        exact (hmove.state_of_window (by rw [decode_ackPacket]; exact hwin)).trans hst
      · exact absurd ⟨rfl, by rw [decode_ackPacket]; exact hfinal⟩ hok

/-- The step lemma: without loss a push stays alive. -/
theorem Alive.step (h : n.Joint w image) (halive : n.Alive)
    (hsucc : EspNowPushReceiver.Succeeds w.plat image) (hne : image ≠ [])
    (hle : image.length ≤ 2 ^ 24) {act : Act} (hlossless : n.Lossless w act) :
    (n.step w act).Alive := by
  cases act with
  | start | lose | dup => exact absurd hlossless id
  | timer =>
    refine halive.boxAct (by simp) fun hst => ?_
    obtain ⟨-, -, hbox, -⟩ := h.timer_waiting hle ⟨rfl, hst⟩ hlossless
    exact hbox.state
  | drain => exact halive.devAct h hsucc hne trivial
  | tail => exact halive.devAct h hsucc hne trivial
  | control i =>
    obtain rfl : i = 0 := hlossless
    simp only [Net.step]
    cases hctrl : n.ctrl with
    | nil => exact halive
    | cons pkt ctrl =>
      exact Alive.devAct (h.lose .ctrl 0) (halive.of_eq rfl rfl rfl) hsucc hne
        (h.control_arrives hctrl).proper
  | frame i =>
    simp only [Net.step]
    cases hi : n.raw[i]? with
    | none => exact halive
    | some bytes =>
      exact Alive.devAct (h.lose .raw i) (halive.of_eq rfl rfl rfl) hsucc hne
        (h.frame_arrives (List.mem_of_getElem? hi) i).proper
  | ack i =>
    obtain rfl : i = 0 := hlossless
    exact halive.ack h hle

/-! ### Rounds -/

/-- From a stuck state to a quiet one: the timeout, and then nothing gets lost.
More than 100 ms have passed since the last ack of the device, whenever it
looks. -/
structure Round (w : Radio) (n n' : Net) (acts : List Act) : Prop where
  stuck : n.Stuck w
  lossless : (n.step w .timer).LosslessRun w acts
  eq : n' = (n.step w .timer).run w acts
  clock : ∀ k, n.dev.reads ≤ k → k < n'.dev.reads → w.plat.millis k - n.dev.lastAckMs > 100
  quiet : n'.Quiet

/-- `k` rounds, one after the other. -/
inductive Rounds (w : Radio) : ℕ → Net → Net → Prop
  | refl (n : Net) : Rounds w 0 n n
  | round {k : ℕ} {n n' n'' : Net} {acts : List Act} (h : Round w n n' acts)
      (hrest : Rounds w k n' n'') : Rounds w (k + 1) n n''

/-- Where a push stands after a round from window `s`: it is done and the image
committed, or it waits at a later window. -/
inductive Advanced (image : List UInt8) (s : ℕ) (n : Net) : Prop
  | done (h : n.box.state = .done) (hcommitted : committed (updates n.dev.trace) = some image)
  | waits (hbox : n.box.state = .pushing) (hdev : n.dev.state = .receiving)
      (hlater : s < n.box.window.toNat)

section Round

variable (h : n.Joint w image) (hsucc : EspNowPushReceiver.Succeeds w.plat image)
  (hne : image ≠ []) (hle : image.length ≤ 2 ^ 24)
include h hsucc hne hle

theorem Joint.round {acts : List Act} (hround : Round w n n' acts) : n'.Joint w image := by
  have hact : Act.timer.Running ∧ Act.timer.Lossy := ⟨trivial, trivial⟩
  rw [hround.eq]
  exact (h.step hsucc hne hle hact.1 hact.2).run hsucc hne hle
    fun act hact => hround.lossless.lossy hact

/-- A round brings the box to a later window, or to the end. -/
theorem Joint.round_moves {acts : List Act} (hround : Round w n n' acts) :
    n.box.window.toNat < n'.box.window.toNat ∨ n'.box.state = .done := by
  have hclock : ∀ k, n.dev.reads ≤ k → k < ((n.step w .timer).run w acts).dev.reads →
      w.plat.millis k - n.dev.lastAckMs > 100 := by
    rw [← hround.eq]
    exact hround.clock
  obtain ⟨hmoves, hends⟩ := h.quiet_moves hsucc hne hle hround.stuck hround.lossless hclock
    (hround.eq ▸ hround.quiet)
  rw [hround.eq]
  cases hend : n.box.endSent with
  | false => exact .inl (hmoves hend)
  | true => exact .inr (hends hend)

/-- Without loss nothing but the end stops a push. -/
theorem Joint.round_advanced {acts : List Act} (hround : Round w n n' acts) :
    Advanced image n.box.window.toNat n' := by
  have h' := h.round hsucc hne hle hround
  have hact : Act.timer.Running ∧ Act.timer.Lossy := ⟨trivial, trivial⟩
  have hlossless : n.Lossless w .timer := fun _ => .inr hround.stuck.left
  have halive : n'.Alive := by
    rw [hround.eq]
    exact (h.step hsucc hne hle hact.1 hact.2).lossless_run (Q := fun _ => True) hsucc hne hle
      (fun n act h hact _ halive => halive.step h hsucc hne hle hact) hround.lossless
      (fun _ _ _ => trivial) (hround.stuck.alive.step h hsucc hne hle hlossless)
  have hdone : n'.box.state = .done → Advanced image n.box.window.toNat n' := fun hst =>
    .done hst (h'.agree.done hst)
  rcases h.round_moves hsucc hne hle hround with hlater | hst
  · cases halive with
    | done hst => exact hdone hst
    | answered _ pkt hmem => simp [hround.quiet.acks] at hmem
    | receiving hbox hdev => exact .waits hbox hdev hlater
  · exact hdone hst

end Round

theorem Rounds.joint {k : ℕ} (hrounds : Rounds w k n n') (h : n.Joint w image)
    (hsucc : EspNowPushReceiver.Succeeds w.plat image) (hne : image ≠ [])
    (hle : image.length ≤ 2 ^ 24) : n'.Joint w image := by
  induction hrounds with
  | refl => exact h
  | round hround _ ih => exact ih (h.round hsucc hne hle hround)

/-- Rounds add up: each takes a window, the last one takes END. -/
theorem Rounds.bound {k : ℕ} (hrounds : Rounds w (k + 1) n n') (h : n.Joint w image)
    (hsucc : EspNowPushReceiver.Succeeds w.plat image) (hne : image ≠ [])
    (hle : image.length ≤ 2 ^ 24) :
    k + n.box.window.toNat ≤ windowCount image.length ∧
      Advanced image (k + n.box.window.toNat) n' := by
  induction k generalizing n with
  | zero =>
    cases hrounds with
    | round hround hrest =>
      cases hrest
      rw [Nat.zero_add]
      exact ⟨h.window_le, h.round_advanced hsucc hne hle hround⟩
  | succ k ih =>
    cases hrounds with
    | round hround hrest =>
      obtain ⟨hmax, hadv⟩ := ih hrest (h.round hsucc hne hle hround)
      have hstuck : ∀ {k n₁ n₂}, Rounds w (k + 1) n₁ n₂ → n₁.box.state = .pushing := by
        intro k n₁ n₂ hr
        cases hr with
        | round hround => exact hround.stuck.pushing
      cases h.round_advanced hsucc hne hle hround with
      | done hst => simp [hstuck hrest] at hst
      | waits _ _ hlater =>
        refine ⟨by omega, ?_⟩
        cases hadv with
        | done hst hcommitted => exact .done hst hcommitted
        | waits hbox hdev hlater' => exact .waits hbox hdev (by omega)

/-! ### A round can end -/

/-- What waits in the queue is taken out. -/
def Flows (n : Net) : Prop := n.dev.state = .receiving ∨ n.dev.queue.toList = []

theorem Flows.devAct (h : n.Joint w image) (hflows : n.Flows)
    (hsucc : EspNowPushReceiver.Succeeds w.plat image) (hne : image ≠ [])
    {ev : EspNowPushReceiver.Event} (hev : EspNowPushReceiver.Proper w.boxMac image ev)
    (hempty : (∃ rx, ev = .control rx) → n.dev.queue.toList = []) : (n.devAct w ev).Flows := by
  obtain ⟨acks, hmove⟩ := EspNowPushReceiver.step_move hsucc h.agree.serves hne hev
  by_cases hcontrol : ∃ rx, ev = .control rx
  · obtain ⟨rx, rfl⟩ := hcontrol
    right
    show (n.dev.step w.plat (.control rx)).queue.toList = []
    rw [hmove.queue_eq (by simp) (by simp), hempty ⟨rx, rfl⟩]
  · rcases hflows with hst | hnil
    · exact .inl (hmove.receiving hst fun rx hrx => absurd ⟨rx, hrx⟩ hcontrol)
    · by_cases hst : n.dev.state = .receiving
      · exact .inl (hmove.receiving hst fun rx hrx => absurd ⟨rx, hrx⟩ hcontrol)
      · right
        show (n.dev.step w.plat ev).queue.toList = []
        cases ev with
        | control rx => exact absurd ⟨rx, rfl⟩ hcontrol
        | raw | tail => rw [hmove.queue_eq (by simp) (fun _ _ _ => hst), hnil]
        | loop => exact absurd hev id
        | drain =>
          have hself : n.dev.step w.plat .drain = n.dev := by
            simp [EspNowPushReceiver.step, EspNowPushReceiver.drain, hst]
          rw [hself, hnil]

/-- The packet or frame to be handled next: what waits in the queue first, then
frames, acks and control packets. -/
theorem Joint.next (h : n.Joint w image) (hflows : n.Flows)
    (hsucc : EspNowPushReceiver.Succeeds w.plat image) (hne : image ≠ []) :
    n.Quiet ∨ ∃ act, n.Lossless w act ∧ handled n act = 1 ∧ credit w n act = 0 ∧
      (n.step w act).Flows := by
  by_cases hqueue : n.dev.queue.toList = []
  · have hroom : n.dev.queue.length + 1 < 24 := by
      rw [← Ring.length_toList, hqueue]
      decide
    cases hraw : n.raw with
    | cons bytes raw =>
      refine .inr ⟨.frame 0, ⟨rfl, hroom⟩, by simp [handled, hraw], rfl, ?_⟩
      have hmem : bytes ∈ n.raw := by simp [hraw]
      have harrives := (h.frame_arrives hmem 0).proper
      simp only [Net.step, hraw, List.getElem?_cons_zero]
      exact Flows.devAct (h.lose .raw 0) hflows hsucc hne harrives (by simp)
    | nil =>
      cases hacks : n.acks with
      | cons pkt acks =>
        refine .inr ⟨.ack 0, rfl, by simp [handled, hacks], rfl, ?_⟩
        simp only [Net.step, hacks, List.getElem?_cons_zero]
        exact hflows
      | nil =>
        cases hctrl : n.ctrl with
        | nil => exact .inl ⟨hqueue, hctrl, hraw, hacks⟩
        | cons pkt ctrl =>
          refine .inr ⟨.control 0, rfl, by simp [handled, hctrl], rfl, ?_⟩
          simp only [Net.step, hctrl, List.getElem?_cons_zero]
          exact Flows.devAct (h.lose .ctrl 0) hflows hsucc hne (h.control_arrives hctrl).proper
            fun _ => hqueue
  · have hst : n.dev.state = .receiving := hflows.resolve_right hqueue
    have hdraining : n.dev.Draining := by
      refine ⟨hst, fun hlen => hqueue ?_⟩
      rw [← Ring.length_toList] at hlen
      exact List.length_eq_zero_iff.1 hlen
    have hproper : EspNowPushReceiver.Proper w.boxMac image .drain := trivial
    exact .inr ⟨.drain, trivial, if_pos hdraining, rfl,
      hflows.devAct h hsucc hne hproper (by simp)⟩

/-- Some schedule without loss and without a timeout comes to rest, after no
more actions than the traffic weighs. -/
theorem Joint.settles (h : n.Joint w image) (hflows : n.Flows)
    (hsucc : EspNowPushReceiver.Succeeds w.plat image) (hne : image ≠ [])
    (hle : image.length ≤ 2 ^ 24) :
    ∃ acts, acts.length ≤ traffic image n ∧ .timer ∉ acts ∧ n.LosslessRun w acts ∧
      (n.run w acts).Quiet := by
  generalize hm : traffic image n = m
  induction m using Nat.strong_induction_on generalizing n with
  | _ m ih =>
    rcases h.next hflows hsucc hne with hquiet | ⟨act, hact, hhandled, hcredit, hflows'⟩
    · exact ⟨[], Nat.zero_le _, List.not_mem_nil, trivial, hquiet⟩
    · have hpaid := h.traffic_step hsucc hne hle hact.lossy
      rw [hhandled, hcredit] at hpaid
      obtain ⟨acts, hlen, hnone, hrun, hquiet⟩ := ih (traffic image (n.step w act)) (by omega)
        (h.step hsucc hne hle hact.lossy.1 hact.lossy.2) hflows' rfl
      refine ⟨act :: acts, ?_, ?_, ⟨hact, hrun⟩, hquiet⟩
      · rw [List.length_cons]
        omega
      · -- a timeout handles no packet
        have hact' : Act.timer ≠ act := by
          rintro rfl
          simp [handled] at hhandled
        exact List.not_mem_cons_of_ne_of_not_mem hact' hnone

/-! ### The completion theorems -/

section Push

variable (w : Radio) (image : Image) (hpos : 1 ≤ image.bytes.length)
  (hle : image.bytes.length ≤ 2 ^ 24) (hsucc : EspNowPushReceiver.Succeeds w.plat image.bytes)
  (major minor patch : UInt8) (box : EspNowPushSender) (dev : EspNowPushReceiver)
  (hidle : dev.state = .idle) (hqueue : dev.queue.toList = [])
include hpos hle hsucc hidle hqueue

/-- **A push that gets through is done after one round for each window left and
one for END.**  One push of an image of 1 byte to 16 MiB, over a network that
loses packets but keeps their order, and an `Update` library that does what it
is asked.  From every state that can be reached, `k + 1` rounds take the box at
least `k + 1` windows further or to the end; there are at most as many as windows
left and one more, and after so many the box is done and the image committed. -/
theorem push_rounds_complete (acts : List Act)
    (hacts : ∀ act ∈ acts, act.Running ∧ act.Lossy) :
    let n := (Net.step w ⟨box, dev, [], [], []⟩ (.start image major minor patch)).run w acts
    ∀ k n', Rounds w (k + 1) n n' →
      k + n.box.window.toNat ≤ windowCount image.bytes.length ∧
        Advanced image.bytes (k + n.box.window.toNat) n' ∧
        (k + n.box.window.toNat = windowCount image.bytes.length →
          n'.box.state = .done ∧ committed (updates n'.dev.trace) = some image.bytes) := by
  intro n k n' hrounds
  have hne : image.bytes ≠ [] := List.length_pos_iff.1 hpos
  have h : n.Joint w image.bytes :=
    (joint_start w image hne hle major minor patch box dev hidle hqueue).run hsucc hne hle hacts
  obtain ⟨hmax, hadv⟩ := hrounds.bound h hsucc hne hle
  refine ⟨hmax, hadv, fun hall => ?_⟩
  have h' := hrounds.joint h hsucc hne hle
  cases hadv with
  | done hst hcommitted => exact ⟨hst, hcommitted⟩
  | waits _ _ hlater =>
    have := h'.window_le
    omega

/-- **A stuck push can go on.**  In the same runs: after the timeout of a stuck
state some schedule without loss and without a timeout, of at most 66 actions
for each window left and 130 more, comes to rest.  If more than 100 ms have
passed since the last ack of the device, whenever it looks, the push is at a
later window then, or done. -/
theorem stuck_push_goes_on (acts : List Act)
    (hacts : ∀ act ∈ acts, act.Running ∧ act.Lossy) :
    let n := (Net.step w ⟨box, dev, [], [], []⟩ (.start image major minor patch)).run w acts
    n.Stuck w → ∃ acts', (n.step w .timer).LosslessRun w acts' ∧ .timer ∉ acts' ∧
      acts'.length ≤ 66 * (windowCount image.bytes.length - n.box.window.toNat) + 130 ∧
      ((n.step w .timer).run w acts').Quiet ∧
      ((∀ k, n.dev.reads ≤ k → k < ((n.step w .timer).run w acts').dev.reads →
          w.plat.millis k - n.dev.lastAckMs > 100) →
        Advanced image.bytes n.box.window.toNat ((n.step w .timer).run w acts')) := by
  intro n hstuck
  have hne : image.bytes ≠ [] := List.length_pos_iff.1 hpos
  have h : n.Joint w image.bytes :=
    (joint_start w image hne hle major minor patch box dev hidle hqueue).run hsucc hne hle hacts
  have hact : Act.timer.Running ∧ Act.timer.Lossy := ⟨trivial, trivial⟩
  have hpaid := h.traffic_step hsucc hne hle hact
  have hflows : (n.step w .timer).Flows := .inl hstuck.receiving
  obtain ⟨acts', hlen, hnone, hrun, hquiet⟩ :=
    (h.step hsucc hne hle hact.1 hact.2).settles hflows hsucc hne hle
  refine ⟨acts', hrun, hnone, ?_, hquiet, fun hclock => ?_⟩
  · have hcredit : credit w n .timer ≤ 130 := by
      simp only [credit]
      split <;> decide
    have htraffic : traffic image.bytes n =
        66 * (windowCount image.bytes.length - n.box.window.toNat) := by
      have hwait : n.dev.queue.length = 0 := by
        rw [← Ring.length_toList, hstuck.queue, List.length_nil]
      simp [traffic, hstuck.ctrl, hstuck.raw, hstuck.acks, hwait]
    omega
  · exact h.round_advanced hsucc hne hle ⟨hstuck, hrun, rfl, hclock, hquiet⟩

end Push

/-- The only frame of the push is lost; one round ends it. -/
theorem push_rounds_complete_oneByte :
    let n' := ((oneBytePush lostFrame).step idleRadio .timer).run idleRadio afterFrame
    Advanced oneByte.bytes 0 n' := by
  intro n'
  have hround : Round idleRadio (oneBytePush lostFrame) n' afterFrame :=
    ⟨by decide +kernel, by decide +kernel, rfl, by decide +kernel, by decide +kernel⟩
  have hwindow : (oneBytePush lostFrame).box.window.toNat = 0 := by decide +kernel
  have hadv := (push_rounds_complete idleRadio oneByte (by decide) (by decide)
    (idleRadio_succeeds oneByte.bytes (by decide)) 1 0 0 {} {} rfl (by decide) lostFrame
    (by simp [lostFrame, Act.Running, Act.Lossy]) 0 n' (.round hround (.refl n'))).2.1
  rw [Nat.zero_add] at hadv
  exact hwindow ▸ hadv

theorem stuck_push_goes_on_oneByte :
    ∃ acts', ((oneBytePush lostEnd).step idleRadio .timer).LosslessRun idleRadio acts' ∧
      .timer ∉ acts' ∧ acts'.length ≤ 130 ∧
      (((oneBytePush lostEnd).step idleRadio .timer).run idleRadio acts').Quiet := by
  obtain ⟨acts', hrun, hnone, hlen, hquiet, -⟩ := stuck_push_goes_on idleRadio oneByte (by decide)
    (by decide) (idleRadio_succeeds oneByte.bytes (by decide)) 1 0 0 {} {} rfl (by decide) lostEnd
    (by simp [lostEnd, Act.Running, Act.Lossy]) (by decide +kernel)
  refine ⟨acts', hrun, hnone, ?_, hquiet⟩
  have hwindow : (oneBytePush lostEnd).box.window.toNat = 1 := by decide +kernel
  have hcount : windowCount oneByte.bytes.length = 1 := by decide
  have hlen' : acts'.length ≤ 66 * (windowCount oneByte.bytes.length -
      (oneBytePush lostEnd).box.window.toNat) + 130 := hlen
  rw [hwindow, hcount] at hlen'
  exact hlen'

end Net

end InfinitagNow
