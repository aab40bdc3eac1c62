/-
InfinitagNow/PushTraffic.lean

The traffic of a push is bounded.

Packets answer packets: a frame can cause acks, an ack frames.  Over a network
that loses packets but keeps their order this stops: everything on its way has a
weight (`traffic`), handling a packet costs at least 1 of it, and only a timeout
of the box and a periodic ack of the device bring in more.  A window not yet
done has a weight too; it pays for the frames that are sent when the one before
is done.
-/
import InfinitagNow.PushAnswers
import InfinitagNow.PushProgress
import InfinitagNow.Runs

namespace InfinitagNow

/-- An ack that asks for frames can cause 16 of them. -/
def ackWeight (pkt : Packet) : ℕ :=
  if (decodePushAck pkt.payload).missing = 0 then 1 else 65

theorem ackWeight_pos (pkt : Packet) : 0 < ackWeight pkt := by
  unfold ackWeight
  split <;> decide

theorem ackWeight_le (pkt : Packet) : ackWeight pkt ≤ 65 := by
  unfold ackWeight
  split <;> decide

theorem ackWeight_of_missing {a : PushAck} (h : a.missing = 0) : ackWeight (ackPacket a) = 1 := by
  rw [ackWeight, decode_ackPacket, if_pos h]

/-! ### What the box sends -/

namespace EspNowPushSender

variable {clock : ℕ → UInt32} {s s' : EspNowPushSender} {image : List UInt8} {mac : Mac}

theorem length_asked_le (s : EspNowPushSender) (mask : UInt32) (i n : ℕ) :
    (s.asked mask i n).length ≤ n := by
  rw [asked, List.length_map]
  exact (List.length_filter_le _ _).trans (by rw [List.length_range'])

theorem length_framesTo_frames_le (hmac : s.mac = mac) (mask : UInt32) :
    (framesTo mac (s.frames image mask)).length ≤ 16 := by
  rw [framesTo_frames hmac, List.length_map]
  exact s.length_asked_le mask 0 16

end EspNowPushSender

/-! ### What the device sends -/

namespace EspNowPushReceiver

variable {plat : Platform} {r r' : EspNowPushReceiver} {image : List UInt8} {box : Mac}

/-- Frames wait, and the device takes them. -/
def Draining (r : EspNowPushReceiver) : Prop := r.state = .receiving ∧ r.queue.length ≠ 0

instance (r : EspNowPushReceiver) : Decidable r.Draining :=
  inferInstanceAs (Decidable (_ ∧ _))

/-- The periodic ack is due. -/
def AckDue (plat : Platform) (r : EspNowPushReceiver) : Prop :=
  r.state = .receiving ∧ r.now plat - r.lastAckMs > 250 ∧
    r.read.now plat - r.lastRxMs > 150 ∧ r.haveMask ≠ 0

instance (plat : Platform) (r : EspNowPushReceiver) : Decidable (r.AckDue plat) :=
  inferInstanceAs (Decidable (_ ∧ _ ∧ _ ∧ _))

/-- Without it the end of `loop()` only looks at the clock. -/
theorem tail_of_not_ackDue (h : ¬ r.AckDue plat) :
    (r.tail plat).queue = r.queue ∧ sends (r.tail plat).trace = sends r.trace := by
  unfold tail
  split
  · exact ⟨rfl, rfl⟩
  · rename_i hst
    split
    · rename_i hack
      dsimp only
      split
      · rename_i hrx
        exact absurd ⟨not_not.1 hst, hack, hrx.1, hrx.2⟩ h
      · exact ⟨rfl, rfl⟩
    · exact ⟨rfl, rfl⟩

/-- What an event of the device can bring into the air or the queue. -/
def credit : Event → ℕ
  | .control _ | .tail => 65
  | .raw _ _ => 3
  | .drain | .loop => 0

/-- A waiting frame weighs 3: it causes at most two acks that ask for nothing. -/
theorem Move.traffic {ev : Event} {acks : List PushAck} (h : Move plat box image r ev r' acks) :
    (if ev = .drain ∧ r.Draining then 1 else 0) + 3 * r'.queue.length +
      ((acks.map ackPacket).map ackWeight).sum ≤ 3 * r.queue.length + credit ev := by
  have hpop : ∀ {f}, r.queue.toList = f :: r'.queue.toList →
      r.queue.length = r'.queue.length + 1 := by
    intro f hlist
    rw [← Ring.length_toList, hlist, List.length_cons, Ring.length_toList]
  have hweight : ∀ a : PushAck, ackWeight (ackPacket a) ≤ 65 := fun a => ackWeight_le _
  have hdone : ∀ win status detail, ackWeight (ackPacket ⟨win, 0, status, detail⟩) = 1 :=
    fun win status detail => ackWeight_of_missing rfl
  cases h with
  | rests hst _ _ _ hqueue =>
    have hno : ¬ r.Draining := fun hd => hst hd.1
    simp [hno, hqueue]
  | opens _ _ _ _ hqueue | repeats _ _ _ _ hqueue => simp [hqueue]
  | endEarly missing _ _ _ _ _ _ hqueue => simpa [hqueue, credit] using hweight _
  | commits _ _ _ _ _ hqueue => simp [hqueue, credit, hdone]
  | enqueues f _ _ _ _ hqueue =>
    rcases Ring.push_cases r.queue f with ⟨-, hlen⟩ | ⟨-, hlen⟩
    · simp [hqueue, hlen, credit]
      omega
    · simp [hqueue, hlen, credit]
  | empty _ hnil _ _ hqueue =>
    have hno : ¬ r.Draining := fun hd => hd.2 (by rw [← Ring.length_toList, hnil, List.length_nil])
    simp [hno, hqueue]
  | stale f _ hlist | future f _ hlist | stores f _ _ hlist =>
    have := hpop hlist
    simp only [List.map_nil, List.sum_nil, credit]
    split <;> omega
  | reack f window _ hlist =>
    have := hpop hlist
    simp only [List.map_cons, List.map_nil, List.sum_cons, List.sum_nil, credit, hdone]
    split <;> omega
  | completes f _ hlist =>
    have := hpop hlist
    simp only [List.map_replicate, List.sum_replicate, smul_eq_mul, credit, hdone]
    split <;> omega
  | calm _ _ _ hqueue => simp [hqueue]
  | asks missing _ _ _ _ _ hqueue => simpa [hqueue, credit] using hweight _

end EspNowPushReceiver

namespace Net

variable {w : Radio} {image : List UInt8} {n : Net}

/-! ### The weight of what is on its way -/

/-- The weight of the windows to come, of the packets and frames on their way,
and of the frames that wait. -/
def traffic (image : List UInt8) (n : Net) : ℕ :=
  66 * (windowCount image.length - n.box.window.toNat) + 66 * n.ctrl.length +
    4 * n.raw.length + 3 * n.dev.queue.length + (n.acks.map ackWeight).sum

/-- What an action may bring in: a timeout at most a BEGIN and 16 frames, the
periodic ack the frames it asks for. -/
def credit (w : Radio) (n : Net) : Act → ℕ
  | .timer => if n.box.Due w.clock then 130 else 0
  | .tail => if n.dev.AckDue w.plat then 65 else 0
  | _ => 0

/-- 1 if the action delivers or loses a packet, or takes a frame from the queue. -/
def handled (n : Net) : Act → ℕ
  | .control i | .lose .ctrl i => if i < n.ctrl.length then 1 else 0
  | .frame i | .lose .raw i => if i < n.raw.length then 1 else 0
  | .ack i | .lose .acks i => if i < n.acks.length then 1 else 0
  | .drain => if n.dev.Draining then 1 else 0
  | _ => 0

/-- What an event may make the box send; an ack is gone then. -/
def boxCredit : EspNowPushSender.Event → ℕ
  | .control rx => ackWeight rx.pkt - 1
  | _ => 130

/-- An event of the box pays for what it sends with its credit, or with the
window that is done. -/
theorem Joint.box_traffic (h : n.Joint w image) (hle : image.length ≤ 2 ^ 24)
    {ev : EspNowPushSender.Event} (hev : ∀ a, ev ≠ .start a)
    (hack : ∀ rx, ev = .control rx →
      AckOk n.dev.window.toNat n.box.endSent rx.pkt ∧ n.dev.state ≠ .idle) :
    traffic image (n.boxAct w ev) ≤ traffic image n + boxCredit ev := by
  obtain ⟨new, hnew, hok⟩ := h.boxOk hle hev hack
  have hp := h.agree.session.pushes hle
  have hmove := EspNowPushSender.rule_move hp hev (EspNowPushSender.step_rule w.clock n.box ev)
  have hmac : (n.box.step w.clock ev).mac = w.devMac := by
    rcases h.agree.session.rule (EspNowPushSender.step_rule w.clock n.box ev) hev with
      hgo | ⟨-, hs, -⟩
    · exact hgo.session.mac
    · exact hs.mac
  rw [boxAct_eq hnew]
  generalize n.box.step w.clock ev = box at *
  -- the packets and frames sent, and the windows they leave
  suffices hpay : 66 * (windowCount image.length - box.window.toNat) +
      66 * (controlsTo w.devMac new).length + 4 * (framesTo w.devMac new).length ≤
        66 * (windowCount image.length - n.box.window.toNat) + boxCredit ev by
    simp only [traffic, List.length_append]
    omega
  have hlater : (box.window = n.box.window + 1) → box.window.toNat = n.box.window.toNat + 1 ∧
      box.window.toNat ≤ windowCount image.length := by
    intro hwindow
    rcases hok.window with ⟨hsame, -⟩ | ⟨hnext, -, -, hmax, -⟩
    · rw [hwindow, UInt16.toNat_add] at hsame
      have : (1 : UInt16).toNat = 1 := rfl
      omega
    · exact ⟨hnext, hmax⟩
  have hframes : ∀ mask {s : EspNowPushSender}, s.mac = w.devMac →
      controlsTo w.devMac (s.frames image mask) = [] ∧
        (framesTo w.devMac (s.frames image mask)).length ≤ 16 := fun _ _ hs =>
    ⟨controlsTo_frames _ _ _ _, EspNowPushSender.length_framesTo_frames_le hs _⟩
  have hsame : ∀ {new'}, box.out = n.box.out ++ new' → new' = new := fun hout =>
    (List.append_cancel_left (hnew.symm.trans hout)).symm
  cases hmove with
  | silent _ hkeeps _ hout | giveUp hkeeps _ _ hout | reject hkeeps _ _ _ _ hout
  | finish hkeeps _ _ hout =>
    obtain rfl := hsame (hout.trans (List.append_nil _).symm)
    simp [hkeeps.window, controlsTo, framesTo]
  | frames mask hwhy hkeeps _ hout =>
    obtain rfl := hsame hout
    obtain ⟨hctrl, hraw⟩ := hframes mask h.agree.session.mac
    rw [hkeeps.window, hctrl]
    have hcredit : 64 ≤ boxCredit ev := by
      cases ev with
      | start a => exact absurd rfl (hev a)
      | control rx =>
        have hweight : ackWeight rx.pkt = 65 := if_neg (hwhy rx rfl)
        simp [boxCredit, hweight]
      | loop => simp [boxCredit]
    simp only [List.length_nil]
    omega
  | hello b mask hkeeps _ _ hout =>
    obtain rfl := hsame hout
    obtain ⟨hctrl, hraw⟩ := hframes mask h.agree.session.mac
    have hone : controlsTo w.devMac (.control n.box.mac (beginPacket b) ::
        n.box.frames image mask) = [beginPacket b] := by
      simpa [controlsTo, h.agree.session.mac] using hctrl
    have hskip : framesTo w.devMac (.control n.box.mac (beginPacket b) ::
        n.box.frames image mask) = framesTo w.devMac (n.box.frames image mask) := rfl
    rw [hkeeps.window, hone, hskip]
    simp only [List.length_singleton, boxCredit]
    omega
  | endAgain hkeeps _ _ hout =>
    obtain rfl := hsame hout
    rw [hkeeps.window]
    simp [controlsTo, framesTo, h.agree.session.mac, boxCredit]
  | advance mask _ _ _ _ _ hwindow _ _ _ hout =>
    obtain rfl := hsame hout
    obtain ⟨hctrl, hraw⟩ := hframes mask hmac
    obtain ⟨hnext, hmax⟩ := hlater hwindow
    rw [hctrl]
    simp only [List.length_nil]
    omega
  | last _ _ _ _ _ hwindow _ _ _ hout =>
    obtain rfl := hsame hout
    obtain ⟨hnext, hmax⟩ := hlater hwindow
    have hone : (controlsTo w.devMac [.control n.box.mac endPacket]).length = 1 ∧
        framesTo w.devMac [.control n.box.mac endPacket] = [] := by
      simp [controlsTo, framesTo, h.agree.session.mac]
    rw [hone.1, hone.2]
    simp only [List.length_nil]
    omega

/-- An event of the device pays with its credit, or with a frame that waited. -/
theorem Joint.dev_traffic (h : n.Joint w image) (hsucc : EspNowPushReceiver.Succeeds w.plat image)
    (hne : image ≠ []) {ev : EspNowPushReceiver.Event}
    (hev : EspNowPushReceiver.Proper w.boxMac image ev) :
    (if ev = .drain ∧ n.dev.Draining then 1 else 0) + traffic image (n.devAct w ev) ≤
      traffic image n + EspNowPushReceiver.credit ev := by
  obtain ⟨acks, hmove⟩ := EspNowPushReceiver.step_move hsucc h.agree.serves hne hev
  have hpay := hmove.traffic
  rw [devAct_eq hmove.sends, acksTo_map]
  simp only [traffic, List.map_append, List.sum_append]
  omega

/-! ### Taking a packet out of the air -/

theorem traffic_lose_ctrl {i : ℕ} (hi : i < n.ctrl.length) :
    traffic image (n.lose .ctrl i) + 66 = traffic image n := by
  simp only [traffic, Net.lose, List.length_eraseIdx_of_lt hi]
  omega

theorem traffic_lose_raw {i : ℕ} (hi : i < n.raw.length) :
    traffic image (n.lose .raw i) + 4 = traffic image n := by
  simp only [traffic, Net.lose, List.length_eraseIdx_of_lt hi]
  omega

theorem traffic_lose_acks {i : ℕ} {pkt : Packet} (hi : n.acks[i]? = some pkt) :
    traffic image (n.lose .acks i) + ackWeight pkt = traffic image n := by
  simp only [traffic, Net.lose, sum_map_eraseIdx ackWeight hi]
  omega

/-- A lost packet lowers the weight. -/
theorem handled_lose (image : List UInt8) (n : Net) (c : Channel) (i : ℕ) :
    handled n (.lose c i) + traffic image (n.lose c i) ≤ traffic image n := by
  cases c with
  | ctrl =>
    by_cases hi : i < n.ctrl.length
    · have : traffic image (n.lose .ctrl i) + 66 = traffic image n := traffic_lose_ctrl hi
      simp only [handled, hi, if_true]
      omega
    · simp [handled, hi, Net.lose, List.eraseIdx_of_length_le (not_lt.1 hi)]
  | raw =>
    by_cases hi : i < n.raw.length
    · have : traffic image (n.lose .raw i) + 4 = traffic image n := traffic_lose_raw hi
      simp only [handled, hi, if_true]
      omega
    · simp [handled, hi, Net.lose, List.eraseIdx_of_length_le (not_lt.1 hi)]
  | acks =>
    by_cases hi : i < n.acks.length
    · have : traffic image (n.lose .acks i) + ackWeight n.acks[i] = traffic image n :=
        traffic_lose_acks (List.getElem?_eq_getElem hi)
      have := ackWeight_pos n.acks[i]
      simp only [handled, hi, if_true]
      omega
    · simp [handled, hi, Net.lose, List.eraseIdx_of_length_le (not_lt.1 hi)]

/-! ### Runs -/

/-- The step lemma: what is handled is paid. -/
theorem Joint.traffic_step (h : n.Joint w image)
    (hsucc : EspNowPushReceiver.Succeeds w.plat image) (hne : image ≠ [])
    (hle : image.length ≤ 2 ^ 24) {act : Act} (hact : act.Running ∧ act.Lossy) :
    handled n act + traffic image (n.step w act) ≤ credit w n act + traffic image n := by
  cases act with
  | start => exact absurd hact.1 id
  | dup c i => exact absurd hact.2 id
  | lose c i => simpa [credit, Net.step] using n.handled_lose image c i
  | timer =>
    simp only [handled, credit, Net.step, Nat.zero_add]
    split
    · rw [Nat.add_comm]
      have hloop : ∀ a, EspNowPushSender.Event.loop ≠ .start a := by simp
      exact h.box_traffic hle hloop (by simp)
    · rename_i hdue
      have hloop : (n.box.step w.clock .loop).out = n.box.out ++ [] ∧
          (n.box.step w.clock .loop).window = n.box.window := by
        show (n.box.loop w.clock).out = _ ∧ (n.box.loop w.clock).window = _
        rcases EspNowPushSender.loop_of_not_due hdue with heq | heq <;> simp [heq]
      rw [boxAct_eq hloop.1]
      simp [traffic, hloop.2, controlsTo, framesTo]
  | tail =>
    simp only [handled, credit, Net.step, Nat.zero_add]
    split
    · have hproper : EspNowPushReceiver.Proper w.boxMac image .tail := trivial
      have := h.dev_traffic hsucc hne hproper
      simp only [EspNowPushReceiver.credit] at this
      omega
    · rename_i hdue
      obtain ⟨hqueue, hsends⟩ := EspNowPushReceiver.tail_of_not_ackDue hdue
      have hsends' : sends (n.dev.step w.plat .tail).trace = sends n.dev.trace ++ [] :=
        hsends.trans (List.append_nil _).symm
      have hqueue' : (n.dev.step w.plat .tail).queue = n.dev.queue := hqueue
      rw [devAct_eq hsends']
      simp [traffic, hqueue', acksTo]
  | drain =>
    have hproper : EspNowPushReceiver.Proper w.boxMac image .drain := trivial
    have := h.dev_traffic hsucc hne hproper
    simpa [handled, credit, Net.step, EspNowPushReceiver.credit] using this
  | control i =>
    obtain rfl : i = 0 := hact.2
    simp only [Net.step, handled, credit]
    cases hctrl : n.ctrl with
    | nil => simp
    | cons pkt ctrl =>
      have hlost : traffic image (n.lose .ctrl 0) + 66 = traffic image n :=
        traffic_lose_ctrl (by simp [hctrl])
      have hpaid := (h.lose .ctrl 0).dev_traffic hsucc hne (h.control_arrives hctrl).proper
      simp only [EspNowPushReceiver.credit] at hpaid
      simp
      omega
  | frame i =>
    obtain rfl : i = 0 := hact.2
    simp only [Net.step, handled, credit]
    cases hraw : n.raw with
    | nil => simp
    | cons bytes raw =>
      have hmem : bytes ∈ n.raw := by simp [hraw]
      have hlost : traffic image (n.lose .raw 0) + 4 = traffic image n :=
        traffic_lose_raw (by simp [hraw])
      have hpaid := (h.lose .raw 0).dev_traffic hsucc hne (h.frame_arrives hmem 0).proper
      simp only [EspNowPushReceiver.credit] at hpaid
      simp
      omega
  | ack i =>
    obtain rfl : i = 0 := hact.2
    simp only [Net.step, handled, credit]
    cases hacks : n.acks with
    | nil => simp
    | cons pkt acks =>
      have hmem : pkt ∈ n.acks := by simp [hacks]
      have hlost : traffic image (n.lose .acks 0) + ackWeight pkt = traffic image n :=
        traffic_lose_acks (by simp [hacks])
      have hstart : ∀ a, EspNowPushSender.Event.control ⟨w.devMac, pkt⟩ ≠ .start a := by simp
      have hpaid := (h.lose .acks 0).box_traffic hle hstart (by
        rintro _ ⟨⟩
        exact ⟨h.acks pkt hmem, h.ack_idle hmem⟩)
      have := ackWeight_pos pkt
      simp only [boxCredit] at hpaid
      simp
      omega

/-- A push begins with a BEGIN and at most 16 frames in the air. -/
theorem traffic_start_le (w : Radio) (image : Image) (hne : image.bytes ≠ [])
    (hle : image.bytes.length ≤ 2 ^ 24) (major minor patch : UInt8) (box : EspNowPushSender)
    (dev : EspNowPushReceiver) (hqueue : dev.queue.toList = []) :
    traffic image.bytes (Net.step w ⟨box, dev, [], [], []⟩ (.start image major minor patch)) ≤
      66 * windowCount image.bytes.length + 130 := by
  have hstarted :=
    EspNowPushSender.start_started w.clock box image hne hle w.devMac major minor patch
  obtain ⟨b, mask, hout⟩ := hstarted.out
  have hout' : (box.step w.clock (.start (image.args w.devMac major minor patch))).out = _ := hout
  have hmac : (box.start w.clock (image.args w.devMac major minor patch)).2.mac = w.devMac := by
    rcases box.start_image w.clock image w.devMac major minor patch with ⟨hnil, -⟩ | ⟨-, hgo⟩
    · exact absurd hnil hne
    · exact hgo.session.mac
  have hraw : (framesTo w.devMac ((box.start w.clock
      (image.args w.devMac major minor patch)).2.frames image.bytes mask)).length ≤ 16 :=
    EspNowPushSender.length_framesTo_frames_le hmac mask
  have hctrl : (controlsTo w.devMac (.control w.devMac (beginPacket b) ::
      (box.start w.clock (image.args w.devMac major minor patch)).2.frames image.bytes
        mask)).length = 1 := by
    have hnil := controlsTo_frames w.devMac
      (box.start w.clock (image.args w.devMac major minor patch)).2 image.bytes mask
    simpa [controlsTo] using hnil
  have hlen : dev.queue.length = 0 := by rw [← Ring.length_toList, hqueue, List.length_nil]
  show traffic image.bytes (boxAct w ⟨box, dev, [], [], []⟩ _) ≤ _
  rw [boxAct_eq (n := ⟨box, dev, [], [], []⟩) hout']
  simp only [traffic, List.nil_append, hctrl, hlen, List.map_nil, List.sum_nil]
  have hskip : framesTo w.devMac (.control w.devMac (beginPacket b) ::
      (box.start w.clock (image.args w.devMac major minor patch)).2.frames image.bytes mask) =
        framesTo w.devMac
          ((box.start w.clock (image.args w.devMac major minor patch)).2.frames image.bytes mask) :=
    rfl
  rw [hskip]
  omega

/-- **The traffic of a push is bounded.**  One push of an image of 1 byte to
16 MiB, over a network that loses packets but keeps their order, and an `Update`
library that does what it is asked.  In every run all packets and frames that are
ever delivered, lost or taken from the queue, and all that are still on their
way, are paid for: 66 for each window of the image, 130 for the start and for
each timeout of the box, 65 for each periodic ack of the device. -/
theorem push_traffic_bounded (w : Radio) (image : Image) (hpos : 1 ≤ image.bytes.length)
    (hle : image.bytes.length ≤ 2 ^ 24)
    (hsucc : EspNowPushReceiver.Succeeds w.plat image.bytes) (major minor patch : UInt8)
    (box : EspNowPushSender) (dev : EspNowPushReceiver) (hidle : dev.state = .idle)
    (hqueue : dev.queue.toList = []) (acts : List Act)
    (hacts : ∀ act ∈ acts, act.Running ∧ act.Lossy) :
    let n := Net.step w ⟨box, dev, [], [], []⟩ (.start image major minor patch)
    runTotal (Net.step w) handled n acts + (n.run w acts).ctrl.length + (n.run w acts).raw.length +
        (n.run w acts).dev.queue.length + (n.run w acts).acks.length ≤
      66 * windowCount image.bytes.length + 130 + runTotal (Net.step w) (credit w) n acts := by
  intro n
  have hne : image.bytes ≠ [] := List.length_pos_iff.1 hpos
  have hjoint : n.Joint w image.bytes :=
    joint_start w image hne hle major minor patch box dev hidle hqueue
  have hstart : traffic image.bytes n ≤ 66 * windowCount image.bytes.length + 130 :=
    traffic_start_le w image hne hle major minor patch box dev hqueue
  have hrun : runTotal (Net.step w) handled n acts + traffic image.bytes (n.run w acts) ≤
      runTotal (Net.step w) (credit w) n acts + traffic image.bytes n :=
    runTotal_add_le (fun h _ hact => ⟨h.step hsucc hne hle hact.1 hact.2,
      h.traffic_step hsucc hne hle hact⟩) hjoint hacts
  -- what is still on its way weighs at least its number
  have hair : (n.run w acts).acks.length ≤ ((n.run w acts).acks.map ackWeight).sum := by
    have hone : ∀ x ∈ (n.run w acts).acks.map ackWeight, 1 ≤ x := by
      intro x hx
      obtain ⟨pkt, -, rfl⟩ := List.mem_map.1 hx
      exact ackWeight_pos pkt
    simpa using List.card_nsmul_le_sum _ 1 hone
  simp only [traffic] at hrun hstart
  omega

/-- The only frame is lost, and sent again by the timeout. -/
theorem push_traffic_bounded_oneByte :
    let acts := lostFrame ++ .timer :: afterFrame
    let n := Net.step idleRadio ⟨{}, {}, [], [], []⟩ (.start oneByte 1 0 0)
    runTotal (Net.step idleRadio) (credit idleRadio) n acts = 130 ∧
      runTotal (Net.step idleRadio) handled n acts ≤ 326 := by
  intro acts n
  have hcredit : runTotal (Net.step idleRadio) (credit idleRadio) n acts = 130 := by
    decide +kernel
  have hbound := push_traffic_bounded idleRadio oneByte (by decide) (by decide)
    (idleRadio_succeeds oneByte.bytes (by decide)) 1 0 0 {} {} rfl (by decide) acts
    (by simp [acts, lostFrame, afterFrame, Act.Running, Act.Lossy])
  refine ⟨hcredit, ?_⟩
  have hone : windowCount oneByte.bytes.length = 1 := by decide
  have hcredit' : runTotal (Net.step idleRadio) (credit idleRadio)
      (Net.step idleRadio ⟨{}, {}, [], [], []⟩ (.start oneByte 1 0 0)) acts = 130 := hcredit
  simp only [hone, hcredit'] at hbound
  show runTotal (Net.step idleRadio) handled
    (Net.step idleRadio ⟨{}, {}, [], [], []⟩ (.start oneByte 1 0 0)) acts ≤ 326
  omega

end Net

end InfinitagNow
