/-
InfinitagNow/PushStack.lean

A firmware push through the whole stack of the two devices.

`Net` lets the two push objects talk to each other.  Here the radio services
stand between them: what an object hands over is sealed, needs a peer and may be
refused by the driver; what comes in is checked and goes to the ring of eight
packets or to the raw handler; the application takes the packets out of the ring
and forwards them.  In the air are frames of bytes, the push's and others.  Any
frame can be lost, duplicated and delayed, and a full ring drops packets.
-/
import InfinitagNow.PushNet
import InfinitagNow.PushSeparation

namespace InfinitagNow

open UpdateCall

/-! ### The service and the push objects -/

namespace EspNowService

variable {ρ : Type*} (lib : NowLib)

def setRawHandler (net : EspNowService ρ) (handler : RawHandler ρ) : EspNowService ρ :=
  { net with raw := some handler }

/-- One packet or raw frame for the radio; the callers ignore whether it was
sent. -/
def handOver (net : EspNowService ρ) : Out → EspNowService ρ
  | .control mac pkt => (net.send lib mac pkt).1
  | .raw mac bytes => (net.sendRaw lib mac bytes).1

end EspNowService

/-- `begin`: the raw frames of the service go to the receiver. -/
def EspNowPushReceiver.beginOn (net : EspNowService EspNowPushReceiver) :
    EspNowService EspNowPushReceiver :=
  net.setRawHandler fun mac data r => r.rawHandler mac data

/-! ### The two stacks -/

/-- A frame in the air. -/
structure AirFrame where
  src : Mac
  dst : Mac
  bytes : List UInt8
  deriving DecidableEq, Repr

/-- The drivers of the two, besides their clocks and addresses. -/
structure StackRadio extends Radio where
  boxLib : NowLib
  devLib : NowLib

structure Stack where
  boxNet : EspNowService Unit
  box : EspNowPushSender
  devNet : EspNowService EspNowPushReceiver
  dev : EspNowPushReceiver
  air : List AirFrame := []

inductive Stack.Act
  | start (image : Image) (major minor patch : UInt8)
  /-- `loop()` of the sender -/
  | timer
  | drain
  | tail
  /-- the application of the box or of the device calls `receive()` and forwards
  the packet -/
  | boxPoll
  | devPoll
  /-- the i-th frame in the air arrives -/
  | arrive (i : ℕ)
  | lose (i : ℕ)
  | dup (i : ℕ)
  /-- other traffic -/
  | other (f : AirFrame)

/-- What the driver got, as frames in the air. -/
def Out.airFrame (src : Mac) : Out → AirFrame
  | .control mac pkt => ⟨src, mac, pkt.seal.bytes⟩
  | .raw mac bytes => ⟨src, mac, bytes⟩

/-- The frames handed to the driver between two moments, oldest first. -/
def aired {ρ : Type*} (src : Mac) (net net' : EspNowService ρ) : List AirFrame :=
  ((frames net'.log).take ((frames net'.log).length - (frames net.log).length)).reverse.map
    fun x => ⟨src, x.1, x.2⟩

/-- A station hears the frames of others that are for it or for all. -/
def AirFrame.heardBy (f : AirFrame) (mac : Mac) : Bool :=
  f.src ≠ mac ∧ (f.dst = mac ∨ f.dst = bcast)

namespace Stack

variable (w : StackRadio)

/-- An event of the sender, and what it hands to the radio. -/
def boxEvent (n : Stack) (ev : EspNowPushSender.Event) : Stack :=
  let box := n.box.step w.clock ev
  let net := (box.out.drop n.box.out.length).foldl (EspNowService.handOver w.boxLib) n.boxNet
  { n with box := box, boxNet := net, air := n.air ++ aired w.boxMac n.boxNet net }

/-- An event of the receiver, and what it hands to the radio. -/
def devEvent (n : Stack) (ev : EspNowPushReceiver.Event) : Stack :=
  let dev := n.dev.step w.plat ev
  let new := (sends dev.trace).drop (sends n.dev.trace).length
  let net := (new.map fun x => Out.control x.1 x.2).foldl (EspNowService.handOver w.devLib) n.devNet
  { n with dev := dev, devNet := net, air := n.air ++ aired w.devMac n.devNet net }

/-- `onRecvStatic` of the box. -/
def boxHear (n : Stack) (f : AirFrame) : Stack :=
  if f.heardBy w.boxMac then { n with boxNet := (n.boxNet.onRecv f.src f.bytes ()).1 } else n

/-- `onRecvStatic` of the device; the raw handler works on the receiver. -/
def devHear (n : Stack) (f : AirFrame) : Stack :=
  if f.heardBy w.devMac then
    { n with
      devNet := (n.devNet.onRecv f.src f.bytes n.dev).1
      dev := (n.devNet.onRecv f.src f.bytes n.dev).2 }
  else n

def step (n : Stack) : Act → Stack
  | .start image major minor patch => n.boxEvent w (.start (image.args w.devMac major minor patch))
  | .timer => n.boxEvent w .loop
  | .drain => n.devEvent w .drain
  | .tail => n.devEvent w .tail
  | .boxPoll =>
    match n.boxNet.receive with
    | none => n
    | some (rx, net) => { n with boxNet := net }.boxEvent w (.control rx)
  | .devPoll =>
    match n.devNet.receive with
    | none => n
    | some (rx, net) => { n with devNet := net }.devEvent w (.control rx)
  | .arrive i =>
    match n.air[i]? with
    | none => n
    | some f => ({ n with air := n.air.eraseIdx i }.boxHear w f).devHear w f
  | .lose i => { n with air := n.air.eraseIdx i }
  | .dup i => { n with air := n.air ++ n.air[i]?.toList }
  | .other f => { n with air := n.air ++ [f] }

def run (n : Stack) (acts : List Act) : Stack := acts.foldl (step w) n

end Stack

/-! ### What goes on the air -/

namespace EspNowService

variable {ρ : Type*} {lib : NowLib} {net : EspNowService ρ}

/-- What is no packet leaves the service alone. -/
theorem onRecv_fst {mac : Mac} {data : List UInt8} {owner : ρ} (h : validate data = false) :
    (net.onRecv mac data owner).1 = net := by
  rw [onRecv, if_pos h]
  cases net.raw <;> rfl

theorem touch_frame (mac : Mac) :
    (net.touch lib mac).ring = net.ring ∧ (net.touch lib mac).raw = net.raw := by
  unfold touch
  refine List.foldlRecOn (motive := fun net' : EspNowService ρ =>
    net'.ring = net.ring ∧ net'.raw = net.raw) _ _ ⟨rfl, rfl⟩ ?_
  intro net' h i _
  split
  · exact h
  · exact h

theorem register_frame (i : Fin 18) (mac : Mac) :
    (net.register lib i mac).1.ring = net.ring ∧ (net.register lib i mac).1.raw = net.raw := by
  unfold register
  dsimp only
  split <;> exact ⟨rfl, rfl⟩

/-- Looking after the peers leaves the ring and the raw handler alone. -/
theorem ensurePeer_frame (mac : Mac) :
    (net.ensurePeer lib mac).1.ring = net.ring ∧ (net.ensurePeer lib mac).1.raw = net.raw := by
  unfold ensurePeer
  split
  · exact touch_frame mac
  · split
    · exact register_frame _ mac
    · exact register_frame _ mac

theorem send_frame (mac : Mac) (p : Packet) :
    (net.send lib mac p).1.ring = net.ring ∧ (net.send lib mac p).1.raw = net.raw := by
  by_cases hok : (net.ensurePeer lib mac).2 = false
  · simp only [send, if_pos hok]
    exact ensurePeer_frame mac
  · simp only [send, if_neg hok]
    exact ensurePeer_frame mac

theorem sendRaw_frame (mac : Mac) (data : List UInt8) :
    (net.sendRaw lib mac data).1.ring = net.ring ∧
      (net.sendRaw lib mac data).1.raw = net.raw := by
  by_cases hlen : data.length > 250
  · simp [sendRaw, hlen]
  · by_cases hok : (net.ensurePeer lib mac).2 = false
    · simp only [sendRaw, if_neg hlen, if_pos hok]
      exact ensurePeer_frame mac
    · simp only [sendRaw, if_neg hlen, if_neg hok]
      exact ensurePeer_frame mac

theorem handOver_frame (lib : NowLib) (net : EspNowService ρ) (o : Out) :
    (net.handOver lib o).ring = net.ring ∧ (net.handOver lib o).raw = net.raw := by
  cases o with
  | control mac pkt => exact send_frame mac pkt
  | raw mac bytes => exact sendRaw_frame mac bytes

theorem foldl_handOver_frame (lib : NowLib) (net : EspNowService ρ) (out : List Out) :
    (out.foldl (handOver lib) net).ring = net.ring ∧
      (out.foldl (handOver lib) net).raw = net.raw := by
  induction out generalizing net with
  | nil => exact ⟨rfl, rfl⟩
  | cons o out ih =>
    obtain ⟨hring, hraw⟩ := handOver_frame lib net o
    obtain ⟨hring', hraw'⟩ := ih (net.handOver lib o)
    rw [List.foldl_cons, hring', hraw', hring, hraw]
    exact ⟨rfl, rfl⟩

end EspNowService

/-- What an object hands over goes out as it is, sealed, or not at all. -/
theorem mem_aired {ρ : Type*} {lib : NowLib} {net : EspNowService ρ} {src : Mac} {out : List Out}
    {f : AirFrame} (h : f ∈ aired src net (out.foldl (EspNowService.handOver lib) net)) :
    ∃ o ∈ out, f = o.airFrame src := by
  -- the driver's log grows at its head
  have hgrows : ∀ (net : EspNowService ρ) (out : List Out),
      ∃ new, frames (out.foldl (EspNowService.handOver lib) net).log = new ++ frames net.log ∧
        ∀ x ∈ new, ∃ o ∈ out, (⟨src, x.1, x.2⟩ : AirFrame) = o.airFrame src := by
    intro net out
    induction out generalizing net with
    | nil => exact ⟨[], rfl, by simp⟩
    | cons o out ih =>
      obtain ⟨new, hlog, hnew⟩ := ih (net.handOver lib o)
      have hone : frames (net.handOver lib o).log = frames net.log ∨
          ∃ x, frames (net.handOver lib o).log = x :: frames net.log ∧
            (⟨src, x.1, x.2⟩ : AirFrame) = o.airFrame src := by
        cases o with
        | control mac pkt =>
          exact (EspNowService.frames_send_eq lib net mac pkt).imp_right fun hsent =>
            ⟨_, hsent, rfl⟩
        | raw mac bytes =>
          exact (EspNowService.frames_sendRaw mac bytes).imp_right fun hsent => ⟨_, hsent, rfl⟩
      have hold : ∀ x ∈ new, ∃ o' ∈ o :: out, (⟨src, x.1, x.2⟩ : AirFrame) = o'.airFrame src :=
        fun x hx => by
          obtain ⟨o', ho', heq⟩ := hnew x hx
          exact ⟨o', List.mem_cons_of_mem _ ho', heq⟩
      rcases hone with hsame | ⟨x, hx, heq⟩
      · exact ⟨new, by rw [List.foldl_cons, hlog, hsame], hold⟩
      · refine ⟨new ++ [x], by rw [List.foldl_cons, hlog, hx, List.append_assoc]; rfl, ?_⟩
        intro y hy
        rcases List.mem_append.1 hy with hy | hy
        · exact hold y hy
        · rw [List.mem_singleton.1 hy]
          exact ⟨o, List.mem_cons_self, heq⟩
  obtain ⟨new, hlog, hnew⟩ := hgrows net out
  obtain ⟨x, hx, rfl⟩ := List.mem_map.1 h
  rw [List.mem_reverse, hlog, List.length_append, Nat.add_sub_cancel, List.take_left] at hx
  exact hnew x hx

/-! ### Events of the device that are not about the push -/

namespace EspNowPushReceiver

variable {plat : Platform} {r : EspNowPushReceiver} {image : List UInt8} {box : Mac}

/-- A control packet: a BEGIN comes from the box and announces the image. -/
theorem Serves.control (h : r.Serves box image) (hfits : Fits plat image) {rx : RxPacket}
    (hbegin : rx.pkt.msgType = msgPushBegin →
      rx.mac = box ∧ Announces image (decodePushBegin rx.pkt.payload)) :
    (r.onControl plat rx).Serves box image ∧ Kept image r (r.onControl plat rx) := by
  by_cases hmac : rx.mac = box
  · exact h.rule hfits (onControl_rule plat r rx) ⟨hmac, fun hty => (hbegin hty).2⟩
  · -- of another station, and no BEGIN
    have hnot : rx.pkt.msgType ≠ msgPushBegin := fun hty => hmac (hbegin hty).1
    have hforeign : ¬ (rx.pkt.msgType = msgPushEnd ∧ r.state = .receiving ∧ rx.mac = r.srcMac) :=
      fun hend => hmac (hend.2.2.trans (h.copies hend.2.1).srcMac)
    have heq : r.onControl plat rx = r.received rx := by
      rw [onControl, if_neg hnot]
      exact if_neg hforeign
    rw [heq]
    exact ⟨h.of_eq (by simpa using fun hst => ⟨hst, fun hc => hc.received rx⟩),
      .of_updates [] (by simp) (by simp) (by simp)⟩

/-- A raw frame: from the box it is a frame of the image. -/
theorem Serves.raw (h : r.Serves box image) (hfits : Fits plat image) {mac : Mac}
    {data : List UInt8} (hframe : mac = box → FrameOf image data) :
    (r.rawHandler mac data).Serves box image ∧ Kept image r (r.rawHandler mac data) := by
  by_cases hmac : mac = box
  · have hrule : Rule plat r (.raw mac data) (r.rawHandler mac data) :=
      rawHandler_rule plat r mac data
    exact h.rule hfits hrule fun _ => hframe hmac
  · have heq : r.rawHandler mac data = r := by
      unfold rawHandler
      split
      · rfl
      · rename_i hst
        have hsrc : mac ≠ r.srcMac := by
          rw [(h.copies (not_not.1 hst)).srcMac]
          exact hmac
        split_ifs <;> rfl
    rw [heq]
    exact ⟨h, .of_updates [] rfl (by simp) (by simp)⟩

/-- The receiver sends acks only. -/
theorem Rule.sends_acks {ev : Event} {r' : EspNowPushReceiver} (hrule : Rule plat r ev r') :
    ∃ new : List (Mac × PushAck),
      sends r'.trace = sends r.trace ++ new.map fun x => (x.1, ackPacket x.2) := by
  have hfail : ∀ (r₁ : EspNowPushReceiver) (status : UInt8), sends r₁.trace = sends r.trace →
      ∃ new : List (Mac × PushAck), sends (r₁.fail plat status).trace =
        sends r.trace ++ new.map fun x => (x.1, ackPacket x.2) := by
    intro r₁ status hsame
    exact ⟨.replicate 2 (r₁.srcMac, ⟨0xFFFF, 0, status, plat.getError (updates r₁.trace)⟩),
      by simp [hsame]⟩
  cases hrule with
  | ignore | duplicate | accept | drop | enqueue | quiet | stale | future | store | calm =>
    exact ⟨[], by simp⟩
  | busy rx => exact ⟨[(rx.mac, { window := 0xFFFF, status := pushAckBusy })], by simp⟩
  | refuseEmpty | refuse | endMismatch | endFlash => exact hfail _ _ (by simp)
  | endEarly =>
    exact ⟨[(r.srcMac, ⟨r.window, r.windowExpectMask &&& ~~~r.haveMask, pushAckWindow, 0⟩)],
      by simp⟩
  | commit => exact ⟨.replicate 2 (r.srcMac, ⟨0xFFFF, 0, pushAckFinalOk, 0⟩), by simp⟩
  | reack f =>
    exact ⟨[(r.srcMac, ⟨(f.frameIdx / pushWindowFrames).toUInt16, 0, pushAckWindow, 0⟩)], by simp⟩
  | complete f q =>
    rcases finishWindow_cases plat
        (r := (({ r with queue := q }.touched plat).stored f).logRemain)
        (P := fun _ r₁ => sends r₁.trace = sends r.trace)
        (fun _ hP _ => by simpa using hP) (by simp) with ⟨r₁, hP, heq⟩ | ⟨j, r₁, -, hP, -, heq⟩
    · rw [heq]
      exact ⟨.replicate 2 (r₁.srcMac, ⟨r₁.window, 0, pushAckWindow, 0⟩), by simp [hP]⟩
    · rw [heq]
      exact hfail _ _ (by simpa using hP)
  | periodic =>
    exact ⟨[(r.srcMac, ⟨r.window, r.windowExpectMask &&& ~~~r.haveMask, pushAckWindow, 0⟩)],
      by simp⟩

end EspNowPushReceiver

namespace Stack

variable {w : StackRadio} {image : List UInt8} {n : Stack} {c : Prop}

/-! ### One image in the air -/

/-- A packet on its way: a BEGIN comes from the box and announces the image, and
FINAL_OK of the device means `c`. -/
structure PacketOk (w : StackRadio) (image : List UInt8) (c : Prop) (src : Mac) (pkt : Packet) :
    Prop where
  begin : pkt.msgType = msgPushBegin →
    src = w.boxMac ∧ Announces image (decodePushBegin pkt.payload)
  final : src = w.devMac → FinalOk pkt → c

/-- A frame in the air: what is no packet and comes from the box is a frame of
the image. -/
structure FrameOk (w : StackRadio) (image : List UInt8) (c : Prop) (f : AirFrame) : Prop where
  packet : validate f.bytes = true → PacketOk w image c f.src (.ofBytes f.bytes)
  raw : validate f.bytes = false → f.src = w.boxMac → FrameOf image f.bytes

/-- Traffic that is not the push's: no station announces a firmware, the box
sends packets only, the device no FINAL_OK. -/
def Other (w : StackRadio) (f : AirFrame) : Prop :=
  (validate f.bytes = true → (Packet.ofBytes f.bytes).msgType ≠ msgPushBegin) ∧
    (f.src = w.boxMac → validate f.bytes = true) ∧
    (f.src = w.devMac → validate f.bytes = true → ¬ FinalOk (.ofBytes f.bytes))

/-- Everything is about one image, in both objects, in both rings and in the
air. -/
structure Carries (w : StackRadio) (image : List UInt8) (n : Stack) : Prop where
  session : n.box.Session w.devMac image
  serves : n.dev.Serves w.boxMac image
  handler : n.devNet.raw = some fun mac data r => r.rawHandler mac data
  boxRing : ∀ rx ∈ n.boxNet.ring.toList, rx.mac = w.devMac → FinalOk rx.pkt →
    committed (updates n.dev.trace) = some image
  devRing : ∀ rx ∈ n.devNet.ring.toList, rx.pkt.msgType = msgPushBegin →
    rx.mac = w.boxMac ∧ Announces image (decodePushBegin rx.pkt.payload)
  air : ∀ f ∈ n.air, FrameOk w image (committed (updates n.dev.trace) = some image) f
  done : n.box.state = .done → committed (updates n.dev.trace) = some image

theorem PacketOk.mono {c' : Prop} {src : Mac} {pkt : Packet} (h : PacketOk w image c src pkt)
    (hc : c → c') : PacketOk w image c' src pkt :=
  ⟨h.begin, fun hsrc hok => hc (h.final hsrc hok)⟩

theorem FrameOk.mono {c' : Prop} {f : AirFrame} (h : FrameOk w image c f) (hc : c → c') :
    FrameOk w image c' f :=
  ⟨fun hvalid => (h.packet hvalid).mono hc, h.raw⟩

theorem Other.frameOk {f : AirFrame} (h : Other w f) : FrameOk w image c f := by
  obtain ⟨hbegin, hown, hfinal⟩ := h
  refine ⟨fun hvalid => ⟨fun hty => absurd hty (hbegin hvalid), fun hsrc hok => ?_⟩, ?_⟩
  · exact absurd hok (hfinal hsrc hvalid)
  · intro hinvalid hsrc
    rw [hown hsrc] at hinvalid
    exact absurd hinvalid (by decide)

/-- A sealed packet of the push. -/
theorem frameOk_sealed {src dst : Mac} {pkt : Packet} (hversion : pkt.version = protocolVersion)
    (hpkt : PacketOk w image c src pkt) : FrameOk w image c ⟨src, dst, pkt.seal.bytes⟩ := by
  have hvalid : validate pkt.seal.bytes = true := validate_seal (.inl hversion)
  refine ⟨fun _ => ?_, fun hinvalid => ?_⟩
  · rw [Packet.ofBytes_bytes]
    exact ⟨hpkt.begin, hpkt.final⟩
  · rw [hvalid] at hinvalid
    exact absurd hinvalid (by decide)

/-- What a session of the image hands over. -/
theorem frameOk_of_carries (hle : image.length ≤ 2 ^ 24) {o : Out}
    (h : EspNowPushSender.Carries w.devMac image o) :
    FrameOk w image c (o.airFrame w.boxMac) := by
  cases h with
  | begin b hb =>
    refine frameOk_sealed rfl ⟨fun _ => ⟨rfl, ?_⟩, fun _ hok => absurd hok.1 ?_⟩
    · rw [decode_beginPacket]
      exact hb
    · show msgPushBegin ≠ msgPushAck
      decide
  | end_ => exact frameOk_sealed rfl ⟨fun hty => absurd hty (by decide),
      fun _ hok => absurd hok.1 (by decide)⟩
  | frame bytes hframe =>
    obtain ⟨idx, hidx, hbytes⟩ := hframe hle
    refine ⟨fun hvalid => ?_, fun _ _ => ⟨idx, hidx, hbytes⟩⟩
    have hraw : validate bytes = false := by
      rw [hbytes]
      exact validate_rawBytes _ _
    rw [show (Out.raw w.devMac bytes).airFrame w.boxMac = ⟨w.boxMac, w.devMac, bytes⟩ from rfl,
      hraw] at hvalid
    exact absurd hvalid (by decide)

/-! ### The events -/

theorem boxEvent_ring (n : Stack) (ev : EspNowPushSender.Event) :
    (n.boxEvent w ev).boxNet.ring = n.boxNet.ring :=
  (EspNowService.foldl_handOver_frame _ _ _).1

theorem boxEvent_frameOk (hle : image.length ≤ 2 ^ 24) (hold : ∀ f ∈ n.air, FrameOk w image c f)
    {ev : EspNowPushSender.Event} {new : List Out}
    (hout : (n.box.step w.clock ev).out = n.box.out ++ new)
    (hnew : ∀ o ∈ new, EspNowPushSender.Carries w.devMac image o) :
    ∀ f ∈ (n.boxEvent w ev).air, FrameOk w image c f := by
  intro f hf
  rcases List.mem_append.1 hf with hf | hf
  · exact hold f hf
  · obtain ⟨o, ho, rfl⟩ := mem_aired hf
    rw [hout, List.drop_left] at ho
    exact frameOk_of_carries hle (hnew o ho)

/-- An event of the sender. -/
theorem Carries.boxEvent (h : n.Carries w image) (hle : image.length ≤ 2 ^ 24)
    {ev : EspNowPushSender.Event} (hev : ∀ a, ev ≠ .start a)
    (hok : ∀ rx, ev = .control rx → rx.mac = w.devMac → FinalOk rx.pkt →
      committed (updates n.dev.trace) = some image) :
    (n.boxEvent w ev).Carries w image := by
  have hboxRing : ∀ rx ∈ (n.boxEvent w ev).boxNet.ring.toList, rx.mac = w.devMac →
      FinalOk rx.pkt → committed (updates n.dev.trace) = some image := by
    rw [boxEvent_ring]
    exact h.boxRing
  rcases h.session.rule (EspNowPushSender.step_rule w.clock n.box ev) hev with
    hgo | ⟨⟨rx, hrx, hmac, hfinal⟩, hsession, hout⟩
  · obtain ⟨new, hout, hnew⟩ := hgo.out
    exact ⟨hgo.session, h.serves, h.handler, hboxRing, h.devRing,
      boxEvent_frameOk hle h.air hout hnew, fun hst => h.done (hgo.state hst)⟩
  · exact ⟨hsession, h.serves, h.handler, hboxRing, h.devRing,
      boxEvent_frameOk hle h.air (hout.trans (List.append_nil _).symm) (by simp),
      fun _ => hok rx hrx hmac hfinal⟩

/-- An event of the receiver that keeps its side: the acks go on the air. -/
theorem Carries.devEvent (h : n.Carries w image) {ev : EspNowPushReceiver.Event}
    (hloop : ev ≠ .loop) (hdev : (n.dev.step w.plat ev).Serves w.boxMac image ∧
      EspNowPushReceiver.Kept image n.dev (n.dev.step w.plat ev)) :
    (n.devEvent w ev).Carries w image := by
  obtain ⟨hserves, hkept⟩ := hdev
  obtain ⟨acks, hsends⟩ := (EspNowPushReceiver.step_rule w.plat n.dev hloop).sends_acks
  obtain ⟨new, hnew, hfinal⟩ := hkept.sends
  obtain rfl := List.append_cancel_left (hnew.symm.trans hsends)
  obtain ⟨hring, hraw⟩ := EspNowService.foldl_handOver_frame w.devLib n.devNet
    (((sends (n.dev.step w.plat ev).trace).drop (sends n.dev.trace).length).map
      fun x => Out.control x.1 x.2)
  refine ⟨h.session, hserves, hraw.trans h.handler,
    fun rx hrx hmac hok => hkept.committed (h.boxRing rx hrx hmac hok), ?_, ?_,
    fun hst => hkept.committed (h.done hst)⟩
  · intro rx hrx
    have hrx' : rx ∈ (List.foldl (EspNowService.handOver w.devLib) n.devNet _).ring.toList := hrx
    rw [hring] at hrx'
    exact h.devRing rx hrx'
  · intro f hf
    rcases List.mem_append.1 hf with hf | hf
    · exact (h.air f hf).mono hkept.committed
    · obtain ⟨o, ho, rfl⟩ := mem_aired hf
      obtain ⟨x, hx, rfl⟩ := List.mem_map.1 ho
      rw [hsends, List.drop_left] at hx
      have hok := hfinal x hx
      obtain ⟨a, -, rfl⟩ := List.mem_map.1 hx
      exact frameOk_sealed rfl
        ⟨fun hty => absurd (show msgPushAck = msgPushBegin from hty) (by decide), fun _ => hok⟩

theorem Carries.boxHear (h : n.Carries w image) {f : AirFrame}
    (hf : FrameOk w image (committed (updates n.dev.trace) = some image) f) :
    (n.boxHear w f).Carries w image := by
  unfold Stack.boxHear
  split
  · cases hvalid : validate f.bytes with
    | false =>
      rw [EspNowService.onRecv_fst hvalid]
      exact h
    | true =>
      rw [EspNowService.onRecv_packet hvalid]
      refine { h with boxRing := fun rx hrx => ?_ }
      rcases Ring.mem_toList_push hrx with hrx | rfl
      · exact h.boxRing rx hrx
      · exact (hf.packet hvalid).final
  · exact h

theorem Carries.devHear (h : n.Carries w image) (hfits : EspNowPushReceiver.Fits w.plat image)
    {f : AirFrame} (hf : FrameOk w image (committed (updates n.dev.trace) = some image) f) :
    (n.devHear w f).Carries w image ∧ EspNowPushReceiver.Kept image n.dev (n.devHear w f).dev := by
  have hsame : EspNowPushReceiver.Kept image n.dev n.dev := .of_updates [] rfl (by simp) (by simp)
  unfold Stack.devHear
  split
  · cases hvalid : validate f.bytes with
    | false =>
      rw [EspNowService.onRecv_raw h.handler hvalid]
      obtain ⟨hserves, hkept⟩ := h.serves.raw hfits (hf.raw hvalid)
      exact ⟨⟨h.session, hserves, h.handler,
        fun rx hrx hmac hok => hkept.committed (h.boxRing rx hrx hmac hok), h.devRing,
        fun g hg => (h.air g hg).mono hkept.committed,
        fun hst => hkept.committed (h.done hst)⟩, hkept⟩
    | true =>
      rw [EspNowService.onRecv_packet hvalid]
      refine ⟨{ h with devRing := fun rx hrx => ?_ }, hsame⟩
      rcases Ring.mem_toList_push hrx with hrx | rfl
      · exact h.devRing rx hrx
      · exact (hf.packet hvalid).begin
  · exact ⟨h, hsame⟩

/-- Actions of one push: no other start, and other traffic only. -/
def Act.Admitted (w : StackRadio) : Act → Prop
  | .start _ _ _ _ => False
  | .other f => Other w f
  | _ => True

theorem mem_of_receive {ρ : Type*} {net net' : EspNowService ρ} {rx : RxPacket}
    (h : net.receive = some (rx, net')) :
    net.ring.toList = rx :: net'.ring.toList ∧ net'.raw = net.raw := by
  unfold EspNowService.receive at h
  split at h
  · rename_i rx' ring hpop
    obtain ⟨rfl, rfl⟩ : rx' = rx ∧ { net with ring := ring } = net' := by simpa using h
    exact ⟨Ring.toList_of_pop_some hpop, rfl⟩
  · exact absurd h (by simp)

/-- The step lemma. -/
theorem Carries.step (h : n.Carries w image) (hle : image.length ≤ 2 ^ 24)
    (hfits : EspNowPushReceiver.Fits w.plat image) {act : Act} (hact : act.Admitted w) :
    (n.step w act).Carries w image ∧
      (flashed (updates n.dev.trace) <+: image →
        flashed (updates (n.step w act).dev.trace) <+: image) := by
  cases act with
  | start => exact absurd hact id
  | timer => exact ⟨h.boxEvent hle (by simp) (by simp), id⟩
  | drain =>
    have hdev := h.serves.rule hfits (EspNowPushReceiver.drain_rule w.plat n.dev) trivial
    exact ⟨h.devEvent (by simp) hdev, hdev.2.flashed⟩
  | tail =>
    have hdev := h.serves.rule hfits (EspNowPushReceiver.tail_rule w.plat n.dev) trivial
    exact ⟨h.devEvent (by simp) hdev, hdev.2.flashed⟩
  | boxPoll =>
    simp only [Stack.step]
    cases hrx : n.boxNet.receive with
    | none => exact ⟨h, id⟩
    | some x =>
      obtain ⟨hring, -⟩ := mem_of_receive hrx
      have hrest : ({ n with boxNet := x.2 } : Stack).Carries w image :=
        { h with boxRing := fun rx hmem => h.boxRing rx (hring ▸ List.mem_cons_of_mem _ hmem) }
      refine ⟨hrest.boxEvent hle (by simp) ?_, id⟩
      rintro _ ⟨⟩
      exact h.boxRing x.1 (hring ▸ List.mem_cons_self)
  | devPoll =>
    simp only [Stack.step]
    cases hrx : n.devNet.receive with
    | none => exact ⟨h, id⟩
    | some x =>
      obtain ⟨hring, hraw⟩ := mem_of_receive hrx
      have hrest : ({ n with devNet := x.2 } : Stack).Carries w image :=
        { h with
          handler := hraw.trans h.handler
          devRing := fun rx hmem => h.devRing rx (hring ▸ List.mem_cons_of_mem _ hmem) }
      have hdev := h.serves.control hfits (h.devRing x.1 (hring ▸ List.mem_cons_self))
      have hloop : EspNowPushReceiver.Event.control x.1 ≠ .loop := by simp
      exact ⟨hrest.devEvent hloop hdev, hdev.2.flashed⟩
  | arrive i =>
    simp only [Stack.step]
    cases hi : n.air[i]? with
    | none => exact ⟨h, id⟩
    | some f =>
      have hf := h.air f (List.mem_of_getElem? hi)
      have hrest : ({ n with air := n.air.eraseIdx i } : Stack).Carries w image :=
        { h with air := fun g hg => h.air g (mem_of_mem_eraseIdx hg) }
      have hbox := hrest.boxHear hf
      have hsame : (Stack.boxHear w { n with air := n.air.eraseIdx i } f).dev = n.dev := by
        unfold Stack.boxHear
        split <;> rfl
      rw [← hsame] at hf
      obtain ⟨hcarries, hkept⟩ := hbox.devHear hfits hf
      rw [hsame] at hkept
      exact ⟨hcarries, hkept.flashed⟩
  | lose i => exact ⟨{ h with air := fun g hg => h.air g (mem_of_mem_eraseIdx hg) }, id⟩
  | dup i => exact ⟨{ h with air := fun g hg => h.air g (Net.mem_of_mem_dup hg) }, id⟩
  | other f =>
    refine ⟨{ h with air := fun g hg => ?_ }, id⟩
    rcases List.mem_append.1 hg with hg | hg
    · exact h.air g hg
    · rw [List.mem_singleton.1 hg]
      exact Other.frameOk hact

/-- The run lemma. -/
theorem Carries.run (h : n.Carries w image) (hle : image.length ≤ 2 ^ 24)
    (hfits : EspNowPushReceiver.Fits w.plat image)
    (hflash : flashed (updates n.dev.trace) <+: image) {acts : List Act}
    (hacts : ∀ act ∈ acts, act.Admitted w) :
    (n.run w acts).Carries w image ∧ flashed (updates (n.run w acts).dev.trace) <+: image := by
  induction acts generalizing n with
  | nil => exact ⟨h, hflash⟩
  | cons act acts ih =>
    obtain ⟨hstep, hkept⟩ := h.step hle hfits (hacts act List.mem_cons_self)
    exact ih hstep (hkept hflash) fun act' hact => hacts act' (List.mem_cons_of_mem _ hact)

/-- Before the push: the receiver is idle and registered, and nothing of a push
is in the rings or in the air. -/
structure Fresh (w : StackRadio) (n : Stack) : Prop where
  state : n.dev.state = .idle
  queue : n.dev.queue.toList = []
  trace : n.dev.trace = []
  handler : ∃ net, n.devNet = EspNowPushReceiver.beginOn net
  boxRing : ∀ rx ∈ n.boxNet.ring.toList, ¬ FinalOk rx.pkt
  devRing : ∀ rx ∈ n.devNet.ring.toList, rx.pkt.msgType ≠ msgPushBegin
  air : ∀ f ∈ n.air, Other w f

theorem carries_start (h : n.Fresh w) (image : Image) (hne : image.bytes ≠ [])
    (hle : image.bytes.length ≤ 2 ^ 24) (major minor patch : UInt8) :
    (n.step w (.start image major minor patch)).Carries w image.bytes := by
  rcases n.box.start_image w.clock image w.devMac major minor patch with ⟨hnil, -⟩ | ⟨-, hgo⟩
  · exact absurd hnil hne
  · obtain ⟨new, hout, hnew⟩ := hgo.out
    have hout' : (n.box.step w.clock (.start (image.args w.devMac major minor patch))).out =
        n.box.out ++ new := hout
    have hidle : n.dev.state ≠ .receiving := by simp [h.state]
    refine ⟨hgo.session, ⟨by simp [Stack.step, Stack.boxEvent, h.queue],
      fun hst => absurd hst hidle, fun hst => absurd hst hidle⟩, ?_, ?_,
      fun rx hrx hty => absurd hty (h.devRing rx hrx),
      boxEvent_frameOk hle (fun f hf => (h.air f hf).frameOk) hout' hnew, fun hst => ?_⟩
    · obtain ⟨net, hnet⟩ := h.handler
      show n.devNet.raw = _
      rw [hnet]
      rfl
    · show ∀ rx ∈ (n.boxEvent w _).boxNet.ring.toList, _
      rw [boxEvent_ring]
      exact fun rx hrx _ hok => absurd hok (h.boxRing rx hrx)
    · simpa using hgo.state hst

/-! ### The delivery theorem -/

/-- **Through the whole stack a push delivers exactly the image.**  One push of
an image of 1 byte to 16 MiB; the radio services refuse what they will, the
drivers answer what they will, full rings drop packets, frames in the air are
lost, duplicated, delayed and reordered, and other stations, the two themselves
and the broadcast address have their own traffic.  What is on flash since the
last successful begin is a prefix of the image, in a running session exactly the
windows done; and when the sender is done, an earlier `Update.end(true)`
succeeded with exactly the image on flash. -/
theorem stack_delivers_image (w : StackRadio) (image : Image) (hpos : 1 ≤ image.bytes.length)
    (hle : image.bytes.length ≤ 2 ^ 24) (major minor patch : UInt8) (n₀ : Stack)
    (hfresh : n₀.Fresh w) (acts : List Act) (hacts : ∀ act ∈ acts, act.Admitted w) :
    let n := (n₀.step w (.start image major minor patch)).run w acts
    flashed (updates n.dev.trace) <+: image.bytes ∧
      (n.dev.state = .receiving → flashed (updates n.dev.trace) =
        image.bytes.take (min image.bytes.length (3872 * n.dev.window.toNat))) ∧
      (n.box.state = .done → ∃ before, .end_ true :: before <:+ updates n.dev.trace ∧
        flashed before = image.bytes) := by
  intro n
  have hstart := carries_start hfresh image (List.length_pos_iff.1 hpos) hle major minor patch
  have hnothing : flashed (updates
      (n₀.step w (.start image major minor patch)).dev.trace) <+: image.bytes := by
    have hdev : (n₀.step w (.start image major minor patch)).dev = n₀.dev := rfl
    rw [hdev, hfresh.trace]
    exact List.nil_prefix
  obtain ⟨hcarries, hflash⟩ : n.Carries w image.bytes ∧
      flashed (updates n.dev.trace) <+: image.bytes :=
    hstart.run hle (fun _ _ _ _ => hle) hnothing hacts
  refine ⟨hflash, fun hst => ?_, fun hst => exists_of_committed (hcarries.done hst)⟩
  rw [(hcarries.serves.copies hst).flashed, List.take_eq_take_iff]
  omega

/-- A driver that knows every peer and sends everything. -/
def willingLib : NowLib where
  isPeerExist _ _ := true
  addPeer _ _ := true
  send _ _ _ := true
  millis := UInt32.ofNat

def calmStackRadio : StackRadio := { Net.calmRadio with boxLib := willingLib, devLib := willingLib }

def freshRing {N : ℕ} : Ring RxPacket (N + 1) := ⟨0, 0, fun _ => ⟨{}, endPacket⟩⟩

def calmStack : Stack where
  boxNet := { ring := freshRing }
  box := {}
  devNet := EspNowPushReceiver.beginOn { ring := freshRing }
  dev := {}

/-- One byte, 7, is pushed, while a third station broadcasts. -/
def broadcastMeanwhile : List Act :=
  [.other ⟨{}, bcast, [1, 2, 3]⟩, .arrive 0, .devPoll, .dup 0, .arrive 0, .arrive 0, .drain,
    .arrive 1, .boxPoll, .arrive 2, .devPoll, .arrive 2, .boxPoll]

theorem stack_delivers_image_oneByte :
    ∃ before, .end_ true :: before <:+ updates ((calmStack.step calmStackRadio
      (.start Net.oneByte 1 0 0)).run calmStackRadio broadcastMeanwhile).dev.trace ∧
        flashed before = [7] := by
  have hdone : ((calmStack.step calmStackRadio (.start Net.oneByte 1 0 0)).run calmStackRadio
      broadcastMeanwhile).box.state = .done := by decide +kernel
  have hother : Other calmStackRadio ⟨{}, bcast, [1, 2, 3]⟩ := by
    refine ⟨fun h => absurd h (by decide), fun h => absurd h (by decide), fun h => ?_⟩
    exact absurd h (by decide)
  have hacts : ∀ act ∈ broadcastMeanwhile, act.Admitted calmStackRadio :=
    List.forall_mem_cons.2 ⟨hother, by simp [Act.Admitted]⟩
  have hfresh : calmStack.Fresh calmStackRadio :=
    ⟨rfl, by decide, rfl, ⟨_, rfl⟩, by decide, by decide, by simp [calmStack]⟩
  obtain ⟨-, -, hcommitted⟩ := stack_delivers_image calmStackRadio Net.oneByte (by decide)
    (by decide) 1 0 0 calmStack hfresh broadcastMeanwhile hacts
  exact hcommitted hdone

end Stack

end InfinitagNow
