/-
InfinitagNow/PushNet.lean

A firmware push over the air: one box, one device, and what is on its way
between them.

Three lists hold what is on its way: control packets and raw frames to the
device, acks to the box.  Control packets and raw frames are kept apart because
the device takes them on different ways (`EspNowService` queues the packets for
its `loop()` and hands the frames to the receiver at once), so that one can
overtake the other.  An action delivers, loses or duplicates the packet at any
position of a list, or lets one of the two do its own work.  `loop()` of the
device is not one action but its parts, `drain` and `tail`, between which
frames can arrive.

What an object sends in an event is what its record of sent packets has more
after it.
-/
import InfinitagNow.InFlight
import InfinitagNow.PushImage
import InfinitagNow.PushSender

namespace InfinitagNow

open UpdateCall

/-! ### The network -/

/-- The device's platform, the box's clock and the two addresses. -/
structure Radio where
  plat : Platform
  clock : ℕ → UInt32
  boxMac : Mac
  devMac : Mac

structure Net where
  box : EspNowPushSender
  dev : EspNowPushReceiver
  ctrl : List Packet := []
  raw : List (List UInt8) := []
  acks : List Packet := []

inductive Net.Channel
  | ctrl | raw | acks
  deriving DecidableEq, Repr

inductive Net.Act
  | start (image : Image) (major minor patch : UInt8)
  /-- `loop()` of the box -/
  | timer
  | drain
  | tail
  /-- the i-th control packet, frame or ack arrives -/
  | control (i : ℕ)
  | frame (i : ℕ)
  | ack (i : ℕ)
  | lose (c : Net.Channel) (i : ℕ)
  | dup (c : Net.Channel) (i : ℕ)

def controlsTo (mac : Mac) (out : List Out) : List Packet :=
  out.filterMap fun
    | .control m pkt => if m = mac then some pkt else none
    | .raw _ _ => none

def framesTo (mac : Mac) (out : List Out) : List (List UInt8) :=
  out.filterMap fun
    | .control _ _ => none
    | .raw m bytes => if m = mac then some bytes else none

def acksTo (mac : Mac) (out : List (Mac × Packet)) : List Packet :=
  out.filterMap fun x => if x.1 = mac then some x.2 else none

namespace Net

variable (w : Radio)

/-- An event of the box, and what it sends. -/
def boxAct (n : Net) (ev : EspNowPushSender.Event) : Net :=
  let box := n.box.step w.clock ev
  let new := box.out.drop n.box.out.length
  { n with
    box := box
    ctrl := n.ctrl ++ controlsTo w.devMac new
    raw := n.raw ++ framesTo w.devMac new }

/-- An event of the device, and what it sends. -/
def devAct (n : Net) (ev : EspNowPushReceiver.Event) : Net :=
  let dev := n.dev.step w.plat ev
  let new := (sends dev.trace).drop (sends n.dev.trace).length
  { n with dev := dev, acks := n.acks ++ acksTo w.boxMac new }

def lose (n : Net) : Channel → ℕ → Net
  | .ctrl, i => { n with ctrl := n.ctrl.eraseIdx i }
  | .raw, i => { n with raw := n.raw.eraseIdx i }
  | .acks, i => { n with acks := n.acks.eraseIdx i }

def dup (n : Net) : Channel → ℕ → Net
  | .ctrl, i => { n with ctrl := n.ctrl ++ n.ctrl[i]?.toList }
  | .raw, i => { n with raw := n.raw ++ n.raw[i]?.toList }
  | .acks, i => { n with acks := n.acks ++ n.acks[i]?.toList }

def step (n : Net) : Act → Net
  | .start image major minor patch => n.boxAct w (.start (image.args w.devMac major minor patch))
  | .timer => n.boxAct w .loop
  | .drain => n.devAct w .drain
  | .tail => n.devAct w .tail
  | .control i =>
    match n.ctrl[i]? with
    | none => n
    | some pkt => (n.lose .ctrl i).devAct w (.control ⟨w.boxMac, pkt⟩)
  | .frame i =>
    match n.raw[i]? with
    | none => n
    | some bytes => (n.lose .raw i).devAct w (.raw w.boxMac bytes)
  | .ack i =>
    match n.acks[i]? with
    | none => n
    | some pkt => (n.lose .acks i).boxAct w (.control ⟨w.devMac, pkt⟩)
  | .lose c i => n.lose c i
  | .dup c i => n.dup c i

def run (n : Net) (acts : List Act) : Net := acts.foldl (step w) n

end Net

/-- The action starts no push. -/
def Net.Act.Running : Net.Act → Prop
  | .start _ _ _ _ => False
  | _ => True

/-- The network loses packets but keeps their order and duplicates none. -/
def Net.Act.Lossy : Net.Act → Prop
  | .control i | .frame i | .ack i => i = 0
  | .dup _ _ => False
  | _ => True

/-! ### What is sent -/

theorem mem_controlsTo {mac : Mac} {out : List Out} {pkt : Packet} (h : pkt ∈ controlsTo mac out) :
    .control mac pkt ∈ out := by
  obtain ⟨o, ho, hpkt⟩ := List.mem_filterMap.1 h
  cases o with
  | raw => simp at hpkt
  | control m p =>
    obtain ⟨rfl, rfl⟩ : m = mac ∧ p = pkt := by simpa using hpkt
    exact ho

theorem mem_framesTo {mac : Mac} {out : List Out} {bytes : List UInt8}
    (h : bytes ∈ framesTo mac out) : .raw mac bytes ∈ out := by
  obtain ⟨o, ho, hbytes⟩ := List.mem_filterMap.1 h
  cases o with
  | control => simp at hbytes
  | raw m b =>
    obtain ⟨rfl, rfl⟩ : m = mac ∧ b = bytes := by simpa using hbytes
    exact ho

theorem mem_acksTo {mac : Mac} {out : List (Mac × Packet)} {pkt : Packet}
    (h : pkt ∈ acksTo mac out) : (mac, pkt) ∈ out := by
  obtain ⟨⟨m, p⟩, ho, hpkt⟩ := List.mem_filterMap.1 h
  obtain ⟨rfl, rfl⟩ : m = mac ∧ p = pkt := by simpa using hpkt
  exact ho

namespace Net

variable {w : Radio} {n : Net} {image : List UInt8}

/-- The sent packets of an event are those its record has more. -/
theorem boxAct_eq {ev : EspNowPushSender.Event} {new : List Out}
    (h : (n.box.step w.clock ev).out = n.box.out ++ new) :
    n.boxAct w ev = { n with
      box := n.box.step w.clock ev
      ctrl := n.ctrl ++ controlsTo w.devMac new
      raw := n.raw ++ framesTo w.devMac new } := by
  rw [boxAct, h, List.drop_left]

theorem devAct_eq {ev : EspNowPushReceiver.Event} {new : List (Mac × Packet)}
    (h : sends (n.dev.step w.plat ev).trace = sends n.dev.trace ++ new) :
    n.devAct w ev = { n with
      dev := n.dev.step w.plat ev
      acks := n.acks ++ acksTo w.boxMac new } := by
  rw [devAct, h, List.drop_left]

theorem boxAct_self {ev : EspNowPushSender.Event} (h : n.box.step w.clock ev = n.box) :
    n.boxAct w ev = n := by
  have hout : (n.box.step w.clock ev).out = n.box.out ++ [] := by rw [h, List.append_nil]
  rw [boxAct_eq hout, h]
  simp [controlsTo, framesTo]

theorem devAct_self {ev : EspNowPushReceiver.Event} (h : n.dev.step w.plat ev = n.dev) :
    n.devAct w ev = n := by
  have hsends : sends (n.dev.step w.plat ev).trace = sends n.dev.trace ++ [] := by
    rw [h, List.append_nil]
  rw [devAct_eq hsends, h]
  simp [acksTo]

/-! ### One image in the air -/

/-- Everything is about one image: what the box pushes, what the device has,
and what is on its way; FINAL_OK is on its way, and the box done, only when it is
committed. -/
structure Agree (w : Radio) (image : List UInt8) (n : Net) : Prop where
  session : n.box.Session w.devMac image
  serves : n.dev.Serves w.boxMac image
  ctrl : ∀ pkt ∈ n.ctrl, pkt.msgType = msgPushBegin → Announces image (decodePushBegin pkt.payload)
  raw : ∀ bytes ∈ n.raw, image.length ≤ 2 ^ 24 → FrameOf image bytes
  acks : ∀ pkt ∈ n.acks, FinalOk pkt → committed (updates n.dev.trace) = some image
  done : n.box.state = .done → committed (updates n.dev.trace) = some image

theorem Agree.lose (h : n.Agree w image) (c : Channel) (i : ℕ) : (n.lose c i).Agree w image := by
  cases c with
  | ctrl =>
    exact { h with ctrl := fun p hp => h.ctrl p (mem_of_mem_eraseIdx hp) }
  | raw =>
    exact { h with raw := fun b hb => h.raw b (mem_of_mem_eraseIdx hb) }
  | acks =>
    exact { h with acks := fun p hp => h.acks p (mem_of_mem_eraseIdx hp) }

theorem mem_of_mem_dup {α : Type*} {l : List α} {i : ℕ} {x : α} (h : x ∈ l ++ l[i]?.toList) :
    x ∈ l := by
  rcases List.mem_append.1 h with h | h
  · exact h
  · exact List.mem_of_getElem? (Option.mem_toList.1 h)

theorem Agree.dup (h : n.Agree w image) (c : Channel) (i : ℕ) : (n.dup c i).Agree w image := by
  cases c with
  | ctrl =>
    exact { h with ctrl := fun p hp => h.ctrl p (mem_of_mem_dup hp) }
  | raw =>
    exact { h with raw := fun b hb => h.raw b (mem_of_mem_dup hb) }
  | acks =>
    exact { h with acks := fun p hp => h.acks p (mem_of_mem_dup hp) }

/-- What a session carries is about its image. -/
theorem carries_ctrl {new : List Out} (hnew : ∀ o ∈ new, EspNowPushSender.Carries w.devMac image o)
    {pkt : Packet} (h : pkt ∈ controlsTo w.devMac new) (hbegin : pkt.msgType = msgPushBegin) :
    Announces image (decodePushBegin pkt.payload) := by
  have hc := hnew _ (mem_controlsTo h)
  generalize hm : w.devMac = mac at hc
  cases hc with
  | begin b hb =>
    rw [decode_beginPacket]
    exact hb
  | end_ => exact absurd hbegin (by decide)

theorem carries_raw {new : List Out} (hnew : ∀ o ∈ new, EspNowPushSender.Carries w.devMac image o)
    {bytes : List UInt8} (h : bytes ∈ framesTo w.devMac new) (hle : image.length ≤ 2 ^ 24) :
    FrameOf image bytes := by
  have hc := hnew _ (mem_framesTo h)
  generalize hm : w.devMac = mac at hc
  cases hc with
  | frame _ hframe => exact hframe hle

/-- An event of the box. -/
theorem Agree.boxAct (h : n.Agree w image) {ev : EspNowPushSender.Event} (hev : ∀ a, ev ≠ .start a)
    (hok : ∀ rx, ev = .control rx → FinalOk rx.pkt → committed (updates n.dev.trace) = some image) :
    (n.boxAct w ev).Agree w image := by
  rcases h.session.rule (EspNowPushSender.step_rule w.clock n.box ev) hev with
    hgo | ⟨⟨rx, rfl, -, hfinal⟩, hsession, hout⟩
  · obtain ⟨new, hout, hnew⟩ := hgo.out
    rw [boxAct_eq hout]
    refine ⟨hgo.session, h.serves, ?_, ?_, h.acks, fun hst => h.done (hgo.state hst)⟩
    · intro pkt hpkt
      rcases List.mem_append.1 hpkt with hpkt | hpkt
      · exact h.ctrl pkt hpkt
      · exact carries_ctrl hnew hpkt
    · intro bytes hbytes
      rcases List.mem_append.1 hbytes with hbytes | hbytes
      · exact h.raw bytes hbytes
      · exact carries_raw hnew hbytes
  · rw [← List.append_nil n.box.out] at hout
    rw [boxAct_eq hout]
    refine ⟨hsession, h.serves, ?_, ?_, h.acks, fun _ => hok rx rfl hfinal⟩
    · simpa [controlsTo] using h.ctrl
    · simpa [framesTo] using h.raw

/-- An event of the device. -/
theorem Agree.devAct (h : n.Agree w image) (hfits : EspNowPushReceiver.Fits w.plat image)
    {ev : EspNowPushReceiver.Event} (hloop : ev ≠ .loop)
    (hev : EspNowPushReceiver.Genuine w.boxMac image ev) :
    (n.devAct w ev).Agree w image ∧
      (flashed (updates n.dev.trace) <+: image →
        flashed (updates (n.devAct w ev).dev.trace) <+: image) := by
  obtain ⟨hserves, hkept⟩ :=
    h.serves.rule hfits (EspNowPushReceiver.step_rule w.plat n.dev hloop) hev
  obtain ⟨new, hsends, hnew⟩ := hkept.sends
  rw [devAct_eq hsends]
  refine ⟨⟨h.session, hserves, h.ctrl, h.raw, ?_, fun hst => hkept.committed (h.done hst)⟩,
    hkept.flashed⟩
  intro pkt hpkt hok
  rcases List.mem_append.1 hpkt with hpkt | hpkt
  · exact hkept.committed (h.acks pkt hpkt hok)
  · exact hnew _ (mem_acksTo hpkt) hok

/-- Any action but a start. -/
theorem Agree.step (h : n.Agree w image) (hfits : EspNowPushReceiver.Fits w.plat image) {act : Act}
    (hrunning : act.Running) :
    (n.step w act).Agree w image ∧
      (flashed (updates n.dev.trace) <+: image →
        flashed (updates (n.step w act).dev.trace) <+: image) := by
  cases act with
  | start => exact absurd hrunning id
  | timer => exact ⟨h.boxAct (by simp) (by simp), id⟩
  | drain => exact h.devAct hfits (by simp) trivial
  | tail => exact h.devAct hfits (by simp) trivial
  | control i =>
    simp only [Net.step]
    cases hi : n.ctrl[i]? with
    | none => exact ⟨h, id⟩
    | some pkt =>
      exact (h.lose .ctrl i).devAct hfits (by simp)
        ⟨rfl, h.ctrl pkt (List.mem_of_getElem? hi)⟩
  | frame i =>
    simp only [Net.step]
    cases hi : n.raw[i]? with
    | none => exact ⟨h, id⟩
    | some bytes =>
      exact (h.lose .raw i).devAct hfits (by simp) (h.raw bytes (List.mem_of_getElem? hi))
  | ack i =>
    simp only [Net.step]
    cases hi : n.acks[i]? with
    | none => exact ⟨h, id⟩
    | some pkt =>
      refine ⟨(h.lose .acks i).boxAct (by simp) ?_, id⟩
      rintro _ ⟨⟩ hok
      exact h.acks pkt (List.mem_of_getElem? hi) hok
  | lose c i =>
    refine ⟨h.lose c i, ?_⟩
    cases c <;> exact id
  | dup c i =>
    refine ⟨h.dup c i, ?_⟩
    cases c <;> exact id

/-- Nothing of an earlier push is left: no session runs, no frame waits, and no
BEGIN, frame or FINAL_OK is on its way. -/
structure Settled (n : Net) : Prop where
  state : n.dev.state ≠ .receiving
  queue : n.dev.queue.toList = []
  ctrl : ∀ pkt ∈ n.ctrl, pkt.msgType ≠ msgPushBegin
  raw : n.raw = []
  acks : ∀ pkt ∈ n.acks, ¬ FinalOk pkt

instance (n : Net) : Decidable n.Settled :=
  decidable_of_iff (n.dev.state ≠ .receiving ∧ n.dev.queue.toList = [] ∧
      (∀ pkt ∈ n.ctrl, pkt.msgType ≠ msgPushBegin) ∧ n.raw = [] ∧ ∀ pkt ∈ n.acks, ¬ FinalOk pkt)
    ⟨fun ⟨h₁, h₂, h₃, h₄, h₅⟩ => ⟨h₁, h₂, h₃, h₄, h₅⟩,
      fun h => ⟨h.state, h.queue, h.ctrl, h.raw, h.acks⟩⟩

/-- A push that starts when nothing is left over, or when everything is about
its image already. -/
theorem agree_start (image : Image) (hne : image.bytes ≠ []) (major minor patch : UInt8)
    (h : n.Settled ∨ n.Agree w image.bytes) :
    (n.step w (.start image major minor patch)).Agree w image.bytes := by
  rcases n.box.start_image w.clock image w.devMac major minor patch with ⟨hnil, -⟩ | ⟨-, hgo⟩
  · exact absurd hnil hne
  · obtain ⟨new, hout, hnew⟩ := hgo.out
    have hout' : (n.box.step w.clock (.start (image.args w.devMac major minor patch))).out =
        n.box.out ++ new := hout
    have hnotdone : (n.box.start w.clock (image.args w.devMac major minor patch)).2.state ≠ .done :=
      fun hst => by simpa using hgo.state hst
    show (n.boxAct w (.start (image.args w.devMac major minor patch))).Agree w image.bytes
    rw [boxAct_eq hout']
    -- queue, packets, frames and acks: what was there before, and what the box sends now
    refine ⟨hgo.session, ?_, ?_, ?_, ?_, fun hst => absurd hst hnotdone⟩
    · rcases h with h | h
      · exact ⟨by simp [h.queue], fun hst => absurd hst h.state, fun hst => absurd hst h.state⟩
      · exact h.serves
    · intro pkt hpkt hbegin
      rcases List.mem_append.1 hpkt with hpkt | hpkt
      · rcases h with h | h
        · exact absurd hbegin (h.ctrl pkt hpkt)
        · exact h.ctrl pkt hpkt hbegin
      · exact carries_ctrl hnew hpkt hbegin
    · intro bytes hbytes
      rcases List.mem_append.1 hbytes with hbytes | hbytes
      · rcases h with h | h
        · simp [h.raw] at hbytes
        · exact h.raw bytes hbytes
      · exact carries_raw hnew hbytes
    · intro pkt hpkt hok
      rcases h with h | h
      · exact absurd hok (h.acks pkt hpkt)
      · exact h.acks pkt hpkt hok

/-- The run lemma: one push and nothing else. -/
theorem Agree.run (h : n.Agree w image) (hfits : EspNowPushReceiver.Fits w.plat image)
    (hflash : flashed (updates n.dev.trace) <+: image) {acts : List Act}
    (hrunning : ∀ act ∈ acts, act.Running) :
    (n.run w acts).Agree w image ∧ flashed (updates (n.run w acts).dev.trace) <+: image := by
  induction acts generalizing n with
  | nil => exact ⟨h, hflash⟩
  | cons act acts ih =>
    obtain ⟨hstep, hflash'⟩ := h.step hfits (hrunning act List.mem_cons_self)
    exact ih hstep (hflash' hflash) fun act' hact => hrunning act' (List.mem_cons_of_mem _ hact)

/-! ### The delivery theorem -/

/-- **A push delivers exactly the image.**  In one push of an image of 1 byte to
16 MiB to a device that is idle, whatever is lost, duplicated, delayed or
reordered, whenever the two work and whatever the `Update` library answers: what
is on flash since the last successful begin is a prefix of the image, in a
running session exactly the windows done; and when the box is done, an earlier
`Update.end(true)` succeeded with exactly the image on flash. -/
theorem push_delivers_image (w : Radio) (image : Image) (hpos : 1 ≤ image.bytes.length)
    (hle : image.bytes.length ≤ 2 ^ 24) (major minor patch : UInt8) (box : EspNowPushSender)
    (dev : EspNowPushReceiver) (hidle : dev.state = .idle) (hqueue : dev.queue.toList = [])
    (htrace : dev.trace = []) (acts : List Act) (hrunning : ∀ act ∈ acts, act.Running) :
    let n := (Net.step w ⟨box, dev, [], [], []⟩ (.start image major minor patch)).run w acts
    flashed (updates n.dev.trace) <+: image.bytes ∧
      (n.dev.state = .receiving → flashed (updates n.dev.trace) =
        image.bytes.take (min image.bytes.length (3872 * n.dev.window.toNat))) ∧
      (n.box.state = .done → ∃ before, .end_ true :: before <:+ updates n.dev.trace ∧
        flashed before = image.bytes) := by
  intro n
  have hfits : EspNowPushReceiver.Fits w.plat image.bytes := fun _ _ _ _ => hle
  have hsettled : Settled ⟨box, dev, [], [], []⟩ :=
    ⟨by simp [hidle], hqueue, by simp, rfl, by simp⟩
  have hstart :
      (Net.step w ⟨box, dev, [], [], []⟩ (.start image major minor patch)).Agree w image.bytes :=
    agree_start image (List.length_pos_iff.1 hpos) major minor patch (.inl hsettled)
  have hnothing : flashed (updates
      (Net.step w ⟨box, dev, [], [], []⟩ (.start image major minor patch)).dev.trace) = [] := by
    simp [Net.step, boxAct, htrace, updates, flashed]
  obtain ⟨hagree, hflash⟩ : n.Agree w image.bytes ∧
      flashed (updates n.dev.trace) <+: image.bytes :=
    hstart.run hfits (hnothing ▸ List.nil_prefix) hrunning
  refine ⟨hflash, fun hst => ?_, fun hst => exists_of_committed (hagree.done hst)⟩
  rw [(hagree.serves.copies hst).flashed, List.take_eq_take_iff]
  omega

/-- The image of the one byte 7, and a world in which nothing goes wrong. -/
def oneByte : Image := ⟨[7], by decide⟩

def calmRadio : Radio where
  plat := EspNowPushReceiver.flawlessPlat
  clock := UInt32.ofNat
  boxMac := ⟨#v[2, 0, 0, 0, 0, 1]⟩
  devMac := ⟨#v[2, 0, 0, 0, 0, 2]⟩

/-- The frame comes twice, once before the BEGIN. -/
theorem push_delivers_image_oneByte :
    let n := (Net.step calmRadio ⟨{}, {}, [], [], []⟩ (.start oneByte 1 0 0)).run calmRadio
      [.dup .raw 0, .frame 0, .control 0, .frame 0, .drain, .tail, .ack 1, .control 0, .ack 1]
    n.box.state = .done ∧
      ∃ before, .end_ true :: before <:+ updates n.dev.trace ∧ flashed before = [7] := by
  intro n
  have hdone : n.box.state = .done := by decide +kernel
  exact ⟨hdone, (push_delivers_image calmRadio oneByte (by decide) (by decide) 1 0 0 {} {} rfl
    (by decide) rfl _ (by simp [Act.Running])).2.2 hdone⟩

end Net

end InfinitagNow
