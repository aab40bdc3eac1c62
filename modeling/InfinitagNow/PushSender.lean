/-
InfinitagNow/PushSender.lean

The box's end of the firmware push (`EspNowPushSender` of
`src/EspNowPush.{h,cpp}`).

The read callback is a parameter of `start`; its k-th call may answer anything.
`readOf image` is the callback that reads an image, and `sendWindow_image` says
which frames are sent then.  `Rule` lists what one event can do.
-/
import InfinitagNow.PushFrames

namespace InfinitagNow

/-- The read callback: the bytes delivered by its k-th call, for an offset and a
length. -/
abbrev ReadFn := ℕ → UInt32 → UInt32 → List UInt8

/-- The callback that reads from an image. -/
def readOf (image : List UInt8) : ReadFn := fun _ offset len =>
  (image.drop offset.toNat).take len.toNat

/-- Something handed to the radio. -/
inductive Out
  | control (mac : Mac) (pkt : Packet)
  | raw (mac : Mac) (bytes : List UInt8)
  deriving DecidableEq, Repr

inductive SendState
  | idle | pushing | done | failed
  deriving DecidableEq, Repr

structure EspNowPushSender where
  mac : Mac := {}
  read : Option ReadFn := none
  size : UInt32 := 0
  crc : UInt32 := 0
  maj : UInt8 := 0
  min : UInt8 := 0
  pat : UInt8 := 0
  totalFrames : UInt32 := 0
  windows : UInt16 := 0
  state : SendState := .idle
  window : UInt16 := 0
  gotAnyAck : Bool := false
  endSent : Bool := false
  retries : UInt8 := 0
  deadline : UInt32 := 0
  ackedBytes : UInt32 := 0
  finalStatus : UInt8 := 0xFF
  finalDetail : UInt8 := 0
  /-- how often the clock was read -/
  reads : ℕ := 0
  /-- the calls of the callback, each an offset and a length, oldest first -/
  readCalls : List (UInt32 × UInt32) := []
  /-- everything handed to the radio, oldest first -/
  out : List Out := []

/-- The arguments of `start`. -/
structure PushArgs where
  mac : Mac
  read : Option ReadFn
  size : UInt32
  crc : UInt32
  maj : UInt8 := 0
  min : UInt8 := 0
  pat : UInt8 := 0

/-- A firmware image; its size fits the 32 bits of the BEGIN. -/
structure Image where
  bytes : List UInt8
  length_lt : bytes.length < 2 ^ 32

/-- The arguments that push an image. -/
def Image.args (image : Image) (mac : Mac) (major minor patch : UInt8) : PushArgs where
  mac := mac
  read := some (readOf image.bytes)
  size := UInt32.ofNat image.bytes.length
  crc := crc32 0 image.bytes
  maj := major
  min := minor
  pat := patch

namespace EspNowPushSender

variable (clock : ℕ → UInt32)

def first (s : EspNowPushSender) : UInt32 := firstFrame s.window

def windowMask (s : EspNowPushSender) (window : UInt16) : UInt32 :=
  frameMask s.totalFrames (firstFrame window)

@[simps]
def emit (s : EspNowPushSender) (o : Out) : EspNowPushSender := { s with out := s.out ++ [o] }

/-- `_deadline = millis() + ms` -/
@[simps]
def wait (s : EspNowPushSender) (ms : UInt32) : EspNowPushSender :=
  { s with deadline := clock s.reads + ms, reads := s.reads + 1 }

@[simps!]
def sendBegin (s : EspNowPushSender) : EspNowPushSender :=
  s.emit (.control s.mac (beginPacket ⟨s.size, s.crc, s.maj, s.min, s.pat⟩))

def readAt (s : EspNowPushSender) (offset len : UInt32) : List UInt8 :=
  match s.read with
  | none => []
  | some read => read s.readCalls.length offset len

/-- The callback was called for a frame. -/
@[simps]
def called (s : EspNowPushSender) (frameIdx : UInt32) : EspNowPushSender :=
  { s with
    readCalls := s.readCalls ++ [(frameIdx * pushFrameData, frameLen s.size frameIdx)] }

/-- `n` passes of the loop of `sendWindow`, from frame `i` of the window on. -/
def sendFrames (s : EspNowPushSender) (mask : UInt32) (i : ℕ) : ℕ → EspNowPushSender
  | 0 => s
  | n + 1 =>
    if mask &&& ((1 : UInt32) <<< UInt32.ofNat i) = 0 then sendFrames s mask (i + 1) n
    else
      let frameIdx := s.first + UInt32.ofNat i
      if frameIdx ≥ s.totalFrames then s
      else
        let len := frameLen s.size frameIdx
        let data := s.readAt (frameIdx * pushFrameData) len
        let s := s.called frameIdx
        if data.length ≠ len.toNat then
          { s with finalStatus := pushAckFinalFlash, state := .failed }
        else sendFrames (s.emit (.raw s.mac (rawBytes frameIdx data))) mask (i + 1) n

/-- The callback did not give what was asked for. -/
@[simps]
def unread (s : EspNowPushSender) : EspNowPushSender :=
  { s with finalStatus := pushAckFinalFlash, state := .failed }

theorem sendFrames_succ (s : EspNowPushSender) (mask : UInt32) (i n : ℕ) :
    s.sendFrames mask i (n + 1) =
      if mask &&& ((1 : UInt32) <<< UInt32.ofNat i) = 0 then s.sendFrames mask (i + 1) n
      else if s.first + UInt32.ofNat i ≥ s.totalFrames then s
      else
        let data := s.readAt ((s.first + UInt32.ofNat i) * pushFrameData)
          (frameLen s.size (s.first + UInt32.ofNat i))
        if data.length ≠ (frameLen s.size (s.first + UInt32.ofNat i)).toNat then
          (s.called (s.first + UInt32.ofNat i)).unread
        else
          ((s.called (s.first + UInt32.ofNat i)).emit
            (.raw s.mac (rawBytes (s.first + UInt32.ofNat i) data))).sendFrames mask (i + 1) n :=
  rfl

/-- Send the frames of the current window that are set in `mask`. -/
def sendWindow (s : EspNowPushSender) (mask : UInt32) : EspNowPushSender := s.sendFrames mask 0 16

@[simps]
def sendEnd (s : EspNowPushSender) : EspNowPushSender :=
  { s.emit (.control s.mac endPacket) with endSent := true }

/-- The session fields after a `start`. -/
@[simps]
def openSession (s : EspNowPushSender) (a : PushArgs) : EspNowPushSender :=
  let total := totalFramesOf a.size
  { s with
    mac := a.mac
    read := a.read
    size := a.size
    crc := a.crc
    maj := a.maj
    min := a.min
    pat := a.pat
    totalFrames := total
    windows := ((total + pushWindowFrames - 1) / pushWindowFrames).toUInt16
    window := 0
    gotAnyAck := false
    endSent := false
    retries := 0
    ackedBytes := 0
    finalStatus := 0xFF
    state := .pushing }

def start (s : EspNowPushSender) (a : PushArgs) : Bool × EspNowPushSender :=
  if a.size = 0 ∨ a.read.isNone then (false, s)
  else
    let s := (s.openSession a).sendBegin
    let s := s.sendWindow (s.windowMask 0)
    (true, s.wait clock 500)

/-- The window is done on the device. -/
@[simps]
def nextWindow (s : EspNowPushSender) : EspNowPushSender :=
  let acked := s.ackedBytes + framesLeft s.totalFrames s.first * pushFrameData
  { s with
    ackedBytes := if acked > s.size then s.size else acked
    window := s.window + 1 }

def advance (s : EspNowPushSender) : EspNowPushSender :=
  let s := s.nextWindow
  if s.window ≥ s.windows then s.sendEnd.wait clock 2000
  else (s.sendWindow (s.windowMask s.window)).wait clock 500

/-- An ack came. -/
@[simps]
def heard (s : EspNowPushSender) : EspNowPushSender := { s with gotAnyAck := true, retries := 0 }

def onAck (s : EspNowPushSender) (a : PushAck) : EspNowPushSender :=
  let s := s.heard
  if a.status = pushAckFinalOk then
    { s with ackedBytes := s.size, finalStatus := a.status, state := .done }
  else if a.status ≠ pushAckWindow then  -- final error / busy
    { s with finalStatus := a.status, finalDetail := a.detail, state := .failed }
  else if a.window ≠ s.window then s  -- stale ack
  else if a.missing = 0 then s.advance clock
  else (s.sendWindow a.missing).wait clock 500  -- selective retransmit

def onControl (s : EspNowPushSender) (rx : RxPacket) : EspNowPushSender :=
  if s.state ≠ .pushing ∨ rx.mac ≠ s.mac then s
  else if rx.pkt.msgType ≠ msgPushAck then s
  else s.onAck clock (decodePushAck rx.pkt.payload)

/-- No (or lost) ack: retry the current step. -/
def retry (s : EspNowPushSender) : EspNowPushSender :=
  let s := { s with retries := s.retries + 1 }
  if s.retries > (if s.endSent then 8 else 20) then
    { s with finalStatus := 0xFE, state := .failed }  -- give-up marker: device unreachable
  else if s.endSent then s.sendEnd.wait clock 2000
  else
    -- device may have missed the start
    let s := if s.gotAnyAck then s else s.sendBegin
    (s.sendWindow (s.windowMask s.window)).wait clock 500

def loop (s : EspNowPushSender) : EspNowPushSender :=
  if s.state ≠ .pushing then s
  else
    let due := !(clock s.reads < s.deadline)
    let s := { s with reads := s.reads + 1 }
    if due then s.retry clock else s

/-- An event of the sender. -/
inductive Event
  | start (a : PushArgs)
  | control (rx : RxPacket)
  | loop

def step (s : EspNowPushSender) : Event → EspNowPushSender
  | .start a => (s.start clock a).2
  | .control rx => s.onControl clock rx
  | .loop => s.loop clock

def run (s : EspNowPushSender) (evs : List Event) : EspNowPushSender :=
  evs.foldl (fun s ev => s.step clock ev) s

/-! ### Sending frames -/

/-- A raw frame of the session. -/
def RawOf (s : EspNowPushSender) (o : Out) : Prop :=
  ∃ idx data, idx < s.totalFrames ∧ data.length = (frameLen s.size idx).toNat ∧
    o = .raw s.mac (rawBytes idx data)

/-- From `s` to `s'` frames were sent; the session may have failed over them. -/
structure Transmits (s s' : EspNowPushSender) : Prop where
  eq : s' = { s with
    out := s'.out
    readCalls := s'.readCalls
    state := s'.state
    finalStatus := s'.finalStatus }
  out : ∃ new, s'.out = s.out ++ new ∧ ∀ o ∈ new, s.RawOf o
  state : s'.state = s.state ∨ s'.state = .failed

/-- Whatever the callback answers, sending frames does nothing else. -/
theorem sendFrames_transmits (s : EspNowPushSender) (mask : UInt32) (i n : ℕ) :
    s.Transmits (s.sendFrames mask i n) := by
  induction n generalizing i s with
  | zero => exact ⟨rfl, ⟨[], by simp [sendFrames], by simp⟩, .inl rfl⟩
  | succ n ih =>
    rw [sendFrames_succ]
    split
    · exact ih s (i + 1)
    · dsimp only
      split
      · exact ⟨rfl, ⟨[], by simp, by simp⟩, .inl rfl⟩
      · rename_i hidx
        split
        · exact ⟨rfl, ⟨[], by simp, by simp⟩, .inr rfl⟩
        · rename_i hlen
          obtain ⟨heq, ⟨new, hout, hnew⟩, hst⟩ := ih ((s.called (s.first + UInt32.ofNat i)).emit
            (.raw s.mac (rawBytes (s.first + UInt32.ofNat i)
              (s.readAt ((s.first + UInt32.ofNat i) * pushFrameData)
                (frameLen s.size (s.first + UInt32.ofNat i)))))) (i + 1)
          refine ⟨heq, ⟨_ :: new, by rw [hout, emit_out, List.append_assoc]; rfl, ?_⟩, hst⟩
          intro o ho
          rcases List.mem_cons.1 ho with rfl | ho
          · exact ⟨_, _, UInt32.not_le.1 hidx, not_not.1 hlen, rfl⟩
          · exact hnew o ho

theorem sendWindow_transmits (s : EspNowPushSender) (mask : UInt32) :
    s.Transmits (s.sendWindow mask) := sendFrames_transmits s mask 0 16

/-! ### Sending an image -/

/-- The session pushes `image`, and the callback reads from it. -/
structure Pushes (image : List UInt8) (s : EspNowPushSender) : Prop where
  read : s.read = some (readOf image)
  size : s.size.toNat = image.length
  total : s.totalFrames.toNat = frameCount image.length
  le : image.length ≤ 2 ^ 24

/-- The frames of the current window a mask asks for, from frame `i` on. -/
def asked (s : EspNowPushSender) (mask : UInt32) (i n : ℕ) : List UInt32 :=
  ((List.range' i n).filter fun j =>
    bit mask j && (s.first + UInt32.ofNat j).toNat < s.totalFrames.toNat).map fun j =>
      s.first + UInt32.ofNat j

variable {image : List UInt8} {s : EspNowPushSender}

theorem Pushes.of_eq (h : s.Pushes image) {s' : EspNowPushSender} (hread : s'.read = s.read)
    (hsize : s'.size = s.size) (htotal : s'.totalFrames = s.totalFrames) : s'.Pushes image :=
  ⟨hread ▸ h.read, hsize ▸ h.size, htotal ▸ h.total, h.le⟩

/-- Reading a frame of the image gives the frame. -/
theorem Pushes.readAt (h : s.Pushes image) {idx : UInt32} (hidx : idx < s.totalFrames) :
    s.readAt (idx * pushFrameData) (frameLen s.size idx) = chunk 242 image idx.toNat ∧
      (chunk 242 image idx.toNat).length = (frameLen s.size idx).toNat := by
  have hle := h.le
  have hlt : idx.toNat < frameCount image.length := by
    rw [← h.total]
    exact UInt32.lt_iff_toNat_lt.1 hidx
  have hlen := length_chunk_frame h.size hle hlt
  have hoff : (idx * pushFrameData).toNat = idx.toNat * 242 := by
    unfold frameCount at hlt
    exact (frameOffset_toNat (by omega)).1
  refine ⟨?_, hlen⟩
  simp only [EspNowPushSender.readAt, h.read, readOf, hoff, ← hlen]
  rw [chunk, Nat.mul_comm 242, List.take_eq_take_iff, List.length_take]
  omega

/-- A frame that is not asked for, and one that is. -/
theorem asked_of_bit_false {mask : UInt32} {i n : ℕ} (h : bit mask i = false) :
    s.asked mask i (n + 1) = s.asked mask (i + 1) n := by
  simp [asked, List.range'_succ, h]

theorem asked_of_lt {mask : UInt32} {i n : ℕ} (h : bit mask i = true)
    (hlt : (s.first + UInt32.ofNat i).toNat < s.totalFrames.toNat) :
    s.asked mask i (n + 1) = (s.first + UInt32.ofNat i) :: s.asked mask (i + 1) n := by
  rw [asked, List.range'_succ, List.filter_cons_of_pos (by rw [h, decide_eq_true hlt]; rfl),
    List.map_cons, asked]

/-- Behind the last frame of the image nothing is asked for. -/
theorem asked_of_le {mask : UInt32} {i n : ℕ} (hn : i + n ≤ 16)
    (hle : s.totalFrames.toNat ≤ (s.first + UInt32.ofNat i).toNat) : s.asked mask i n = [] := by
  rw [asked, List.map_eq_nil_iff, List.filter_eq_nil_iff]
  intro j hj
  rw [List.mem_range'_1] at hj
  have hi := firstFrame_add_toNat s.window (i := i) (by omega)
  have hj' := firstFrame_add_toNat s.window (i := j) (by omega)
  rw [first] at hle ⊢
  simp only [Bool.and_eq_true, decide_eq_true_eq, not_and, not_lt]
  omega

/-- The state after the frames `idxs` of an image were sent. -/
@[simps]
def sent (s : EspNowPushSender) (image : List UInt8) (idxs : List UInt32) : EspNowPushSender :=
  { s with
    out := s.out ++ idxs.map fun idx => .raw s.mac (imageFrame image idx)
    readCalls := s.readCalls ++
      idxs.map fun idx => (idx * pushFrameData, frameLen s.size idx) }

theorem sendFrames_image (h : s.Pushes image) (mask : UInt32) {i n : ℕ} (hn : i + n ≤ 16) :
    s.sendFrames mask i n = s.sent image (s.asked mask i n) := by
  induction n generalizing i s with
  | zero => simp [sendFrames, asked, sent]
  | succ n ih =>
    have hi : (UInt32.ofNat i).toNat = i := by
      rw [UInt32.toNat_ofNat']
      omega
    have hbit : mask &&& ((1 : UInt32) <<< UInt32.ofNat i) = 0 ↔ bit mask i = false := by
      rw [and_one_shiftLeft_eq_zero_iff (by omega), hi]
    rw [sendFrames_succ]
    cases hb : bit mask i with
    | false => rw [if_pos (hbit.2 hb), ih h (by omega), asked_of_bit_false hb]
    | true =>
      rw [if_neg (by rw [hbit, hb]; decide)]
      by_cases hidx : s.first + UInt32.ofNat i < s.totalFrames
      · obtain ⟨hread, hlen⟩ := h.readAt hidx
        have hnext : ((s.called (s.first + UInt32.ofNat i)).emit (.raw s.mac (imageFrame image
            (s.first + UInt32.ofNat i)))).Pushes image := h.of_eq rfl rfl rfl
        rw [asked_of_lt hb (UInt32.lt_iff_toNat_lt.1 hidx)]
        simp only [ge_iff_le, UInt32.not_le.2 hidx, if_false, hread, hlen, ne_eq, not_true]
        refine (ih hnext (by omega)).trans ?_
        simp [sent, emit, called, asked, first, imageFrame]
      · rw [asked_of_le hn (UInt32.le_iff_toNat_le.1 (UInt32.not_lt.1 hidx))]
        simp [ge_iff_le, UInt32.not_lt.1 hidx, sent]

/-- **Sending**: exactly the frames of the image that the mask asks for go out. -/
theorem sendWindow_image (h : s.Pushes image) (mask : UInt32) :
    s.sendWindow mask = s.sent image (s.asked mask 0 16) :=
  sendFrames_image h mask (by omega)

/-! ### What one event can do -/

section Rule

variable {clock : ℕ → UInt32}

/-- The deadline has passed and a retry was counted. -/
@[simps]
def retried (s : EspNowPushSender) : EspNowPushSender :=
  { s with reads := s.reads + 1, retries := s.retries + 1 }

/-- Whether a retry is left for the current step. -/
def RetryLeft (s : EspNowPushSender) : Prop := s.retries + 1 ≤ if s.endSent then 8 else 20

instance : DecidablePred RetryLeft := fun s =>
  inferInstanceAs (Decidable (s.retries + 1 ≤ if s.endSent then 8 else 20))

/-- What one event can do, one constructor for each path. -/
inductive Rule (clock : ℕ → UInt32) (s : EspNowPushSender) : Event → EspNowPushSender → Prop
  | refuse (a) (h : a.size = 0 ∨ a.read.isNone) : Rule clock s (.start a) s
  | start (a) (hsize : a.size ≠ 0) (hread : ¬ a.read.isNone) :
      Rule clock s (.start a) (((s.openSession a).sendBegin.sendWindow
        ((s.openSession a).windowMask 0)).wait clock 500)
  | ignore (rx) (h : s.state ≠ .pushing ∨ rx.mac ≠ s.mac ∨ rx.pkt.msgType ≠ msgPushAck) :
      Rule clock s (.control rx) s
  | finish (rx) (hst : s.state = .pushing) (hmac : rx.mac = s.mac)
      (hok : FinalOk rx.pkt) :
      Rule clock s (.control rx)
        { s.heard with ackedBytes := s.size, finalStatus := pushAckFinalOk, state := .done }
  | reject (rx) (hst : s.state = .pushing) (hmac : rx.mac = s.mac)
      (hack : rx.pkt.msgType = msgPushAck)
      (hok : (decodePushAck rx.pkt.payload).status ≠ pushAckFinalOk)
      (hwin : (decodePushAck rx.pkt.payload).status ≠ pushAckWindow) :
      Rule clock s (.control rx)
        { s.heard with
          finalStatus := (decodePushAck rx.pkt.payload).status
          finalDetail := (decodePushAck rx.pkt.payload).detail
          state := .failed }
  | stale (rx) (hst : s.state = .pushing) (hmac : rx.mac = s.mac)
      (hack : rx.pkt.msgType = msgPushAck)
      (hwin : (decodePushAck rx.pkt.payload).status = pushAckWindow)
      (hne : (decodePushAck rx.pkt.payload).window ≠ s.window) :
      Rule clock s (.control rx) s.heard
  | advance (rx) (hst : s.state = .pushing) (hmac : rx.mac = s.mac)
      (hack : rx.pkt.msgType = msgPushAck)
      (hwin : (decodePushAck rx.pkt.payload).status = pushAckWindow)
      (heq : (decodePushAck rx.pkt.payload).window = s.window)
      (hmissing : (decodePushAck rx.pkt.payload).missing = 0) (hlt : s.window + 1 < s.windows) :
      Rule clock s (.control rx) ((s.heard.nextWindow.sendWindow
        (s.heard.nextWindow.windowMask s.heard.nextWindow.window)).wait clock 500)
  | last (rx) (hst : s.state = .pushing) (hmac : rx.mac = s.mac)
      (hack : rx.pkt.msgType = msgPushAck)
      (hwin : (decodePushAck rx.pkt.payload).status = pushAckWindow)
      (heq : (decodePushAck rx.pkt.payload).window = s.window)
      (hmissing : (decodePushAck rx.pkt.payload).missing = 0) (hge : s.window + 1 ≥ s.windows) :
      Rule clock s (.control rx) (s.heard.nextWindow.sendEnd.wait clock 2000)
  | resend (rx) (hst : s.state = .pushing) (hmac : rx.mac = s.mac)
      (hack : rx.pkt.msgType = msgPushAck)
      (hwin : (decodePushAck rx.pkt.payload).status = pushAckWindow)
      (heq : (decodePushAck rx.pkt.payload).window = s.window)
      (hmissing : (decodePushAck rx.pkt.payload).missing ≠ 0) :
      Rule clock s (.control rx)
        ((s.heard.sendWindow (decodePushAck rx.pkt.payload).missing).wait clock 500)
  | idle (hst : s.state ≠ .pushing) : Rule clock s .loop s
  | early (hst : s.state = .pushing) (hdue : clock s.reads < s.deadline) :
      Rule clock s .loop { s with reads := s.reads + 1 }
  | giveUp (hst : s.state = .pushing) (hdue : ¬ clock s.reads < s.deadline)
      (hleft : ¬ s.RetryLeft) :
      Rule clock s .loop { s.retried with finalStatus := 0xFE, state := .failed }
  | endAgain (hst : s.state = .pushing) (hdue : ¬ clock s.reads < s.deadline)
      (hleft : s.RetryLeft) (hend : s.endSent = true) :
      Rule clock s .loop (s.retried.sendEnd.wait clock 2000)
  | hello (hst : s.state = .pushing) (hdue : ¬ clock s.reads < s.deadline)
      (hleft : s.RetryLeft) (hend : s.endSent = false) (hgot : s.gotAnyAck = false) :
      Rule clock s .loop ((s.retried.sendBegin.sendWindow (s.windowMask s.window)).wait clock 500)
  | again (hst : s.state = .pushing) (hdue : ¬ clock s.reads < s.deadline)
      (hleft : s.RetryLeft) (hend : s.endSent = false) (hgot : s.gotAnyAck = true) :
      Rule clock s .loop ((s.retried.sendWindow (s.windowMask s.window)).wait clock 500)

/-- A `start` that is not refused. -/
theorem start_of_args (clock : ℕ → UInt32) (s : EspNowPushSender) {a : PushArgs}
    (h : ¬ (a.size = 0 ∨ a.read.isNone)) :
    s.start clock a = (true, ((s.openSession a).sendBegin.sendWindow
      ((s.openSession a).windowMask 0)).wait clock 500) := by
  rw [start, if_neg h]
  rfl

theorem start_rule (clock : ℕ → UInt32) (s : EspNowPushSender) (a : PushArgs) :
    Rule clock s (.start a) (s.start clock a).2 := by
  by_cases h : a.size = 0 ∨ a.read.isNone
  · rw [start, if_pos h]
    exact .refuse a h
  · rw [start_of_args clock s h]
    rw [not_or] at h
    exact .start a h.1 h.2

theorem onControl_rule (clock : ℕ → UInt32) (s : EspNowPushSender) (rx : RxPacket) :
    Rule clock s (.control rx) (s.onControl clock rx) := by
  rw [onControl]
  split
  · rename_i h
    exact .ignore rx (h.imp_right .inl)
  · rename_i h
    obtain ⟨hst, hmac⟩ := not_or.1 h
    replace hst := not_not.1 hst
    replace hmac := not_not.1 hmac
    split
    · rename_i hack
      exact .ignore rx (.inr (.inr hack))
    · rename_i hack
      replace hack := not_not.1 hack
      have hdef : s.onAck clock (decodePushAck rx.pkt.payload) =
          if (decodePushAck rx.pkt.payload).status = pushAckFinalOk then
            { s.heard with
              ackedBytes := s.size
              finalStatus := (decodePushAck rx.pkt.payload).status
              state := .done }
          else if (decodePushAck rx.pkt.payload).status ≠ pushAckWindow then
            { s.heard with
              finalStatus := (decodePushAck rx.pkt.payload).status
              finalDetail := (decodePushAck rx.pkt.payload).detail
              state := .failed }
          else if (decodePushAck rx.pkt.payload).window ≠ s.window then s.heard
          else if (decodePushAck rx.pkt.payload).missing = 0 then
            if s.window + 1 ≥ s.windows then s.heard.nextWindow.sendEnd.wait clock 2000
            else (s.heard.nextWindow.sendWindow
              (s.heard.nextWindow.windowMask s.heard.nextWindow.window)).wait clock 500
          else (s.heard.sendWindow (decodePushAck rx.pkt.payload).missing).wait clock 500 := rfl
      rw [hdef]
      split
      · rename_i hok
        rw [hok]
        exact .finish rx hst hmac ⟨hack, hok⟩
      · rename_i hok
        split
        · rename_i hwin
          exact .reject rx hst hmac hack hok hwin
        · rename_i hwin
          replace hwin := not_not.1 hwin
          split
          · rename_i hne
            exact .stale rx hst hmac hack hwin hne
          · rename_i heq
            replace heq := not_not.1 heq
            split
            · rename_i hmissing
              split
              · rename_i hge
                exact .last rx hst hmac hack hwin heq hmissing hge
              · rename_i hlt
                exact .advance rx hst hmac hack hwin heq hmissing (UInt16.not_le.1 hlt)
            · rename_i hmissing
              exact .resend rx hst hmac hack hwin heq hmissing

theorem loop_rule (clock : ℕ → UInt32) (s : EspNowPushSender) :
    Rule clock s .loop (s.loop clock) := by
  by_cases hst : s.state = .pushing
  · by_cases hdue : clock s.reads < s.deadline
    · have heq : s.loop clock = { s with reads := s.reads + 1 } := by simp [loop, hst, hdue]
      rw [heq]
      exact .early hst hdue
    · have heq : s.loop clock = { s with reads := s.reads + 1 }.retry clock := by
        simp [loop, hst, hdue]
      have hdef : { s with reads := s.reads + 1 }.retry clock =
          if s.retries + 1 > (if s.endSent then 8 else 20) then
            { s.retried with finalStatus := 0xFE, state := .failed }
          else if s.endSent then s.retried.sendEnd.wait clock 2000
          else ((if s.gotAnyAck then s.retried else s.retried.sendBegin).sendWindow
            ((if s.gotAnyAck then s.retried else s.retried.sendBegin).windowMask
              (if s.gotAnyAck then s.retried else s.retried.sendBegin).window)).wait
                clock 500 := rfl
      rw [heq, hdef]
      by_cases hleft : s.RetryLeft
      · rw [if_neg (UInt8.not_lt.2 hleft)]
        split
        · rename_i hend
          exact .endAgain hst hdue hleft hend
        · rename_i hend
          cases hgot : s.gotAnyAck with
          | true => exact .again hst hdue hleft (by simpa using hend) hgot
          | false => exact .hello hst hdue hleft (by simpa using hend) hgot
      · rw [if_pos (UInt8.not_le.1 hleft)]
        exact .giveUp hst hdue hleft
  · rw [loop, if_pos hst]
    exact .idle hst

/-- The list of rules is complete. -/
theorem step_rule (clock : ℕ → UInt32) (s : EspNowPushSender) (ev : Event) :
    Rule clock s ev (s.step clock ev) := by
  cases ev with
  | start a => exact start_rule clock s a
  | control rx => exact onControl_rule clock s rx
  | loop => exact loop_rule clock s

/-- What the rules of some events preserve holds all through a run of them. -/
theorem run_invariant {P : EspNowPushSender → Prop} {E : Event → Prop}
    (hstep : ∀ {s ev s'}, Rule clock s ev s' → E ev → P s → P s') (h : P s) {evs : List Event}
    (hevs : ∀ ev ∈ evs, E ev) : P (s.run clock evs) :=
  List.foldlRecOn evs _ h fun s h ev hmem => hstep (step_rule clock s ev) (hevs ev hmem) h

/-- The same without a `start`. -/
theorem session_invariant {P : EspNowPushSender → Prop}
    (hstep : ∀ {s ev s'}, Rule clock s ev s' → (∀ a, ev ≠ .start a) → P s → P s') (h : P s)
    {evs : List Event} (hevs : ∀ a, .start a ∉ evs) : P (s.run clock evs) :=
  run_invariant hstep h fun _ hmem a heq => hevs a (heq ▸ hmem)

end Rule

/-! ### A session of an image -/

section Session

variable {clock : ℕ → UInt32} {mac : Mac} {s' : EspNowPushSender}

/-- The session pushes the image to `mac`. -/
structure Session (mac : Mac) (image : List UInt8) (s : EspNowPushSender) : Prop where
  mac : s.mac = mac
  announces : s.size.toNat = image.length ∧ s.crc = crc32 0 image
  pushes : image.length ≤ 2 ^ 24 → s.Pushes image

/-- What such a session hands to the radio. -/
inductive Carries (mac : Mac) (image : List UInt8) : Out → Prop
  | begin (b : PushBegin) (h : Announces image b) : Carries mac image (.control mac (beginPacket b))
  | end_ : Carries mac image (.control mac endPacket)
  | frame (bytes : List UInt8) (h : image.length ≤ 2 ^ 24 → FrameOf image bytes) :
      Carries mac image (.raw mac bytes)

/-- From `s` to `s'` the session went on, sending only what it carries, and did
not get done. -/
structure Goes (mac : Mac) (image : List UInt8) (s s' : EspNowPushSender) : Prop where
  session : s'.Session mac image
  out : ∃ new, s'.out = s.out ++ new ∧ ∀ o ∈ new, Carries mac image o
  state : s'.state = .done → s.state = .done

theorem Session.of_eq (h : s.Session mac image) (hmac : s'.mac = s.mac := by simp)
    (hread : s'.read = s.read := by simp) (hsize : s'.size = s.size := by simp)
    (hcrc : s'.crc = s.crc := by simp) (htotal : s'.totalFrames = s.totalFrames := by simp) :
    s'.Session mac image :=
  ⟨by rw [hmac, h.mac], by rw [hsize, hcrc]; exact h.announces,
    fun hle => (h.pushes hle).of_eq hread hsize htotal⟩

/-- Nothing is sent. -/
theorem Session.still (h : s.Session mac image) (hst : s'.state = .done → s.state = .done)
    (hout : s'.out = s.out := by simp) (hmac : s'.mac = s.mac := by simp)
    (hread : s'.read = s.read := by simp) (hsize : s'.size = s.size := by simp)
    (hcrc : s'.crc = s.crc := by simp) (htotal : s'.totalFrames = s.totalFrames := by simp) :
    Goes mac image s s' :=
  ⟨h.of_eq hmac hread hsize hcrc htotal, ⟨[], by simp [hout], by simp⟩, hst⟩

theorem Goes.trans {s'' : EspNowPushSender} (h : Goes mac image s s') (h' : Goes mac image s' s'') :
    Goes mac image s s'' := by
  obtain ⟨new, hout, hnew⟩ := h.out
  obtain ⟨new', hout', hnew'⟩ := h'.out
  refine ⟨h'.session, ⟨new ++ new', by rw [hout', hout, List.append_assoc], ?_⟩,
    fun hst => h.state (h'.state hst)⟩
  intro o ho
  rcases List.mem_append.1 ho with ho | ho
  · exact hnew o ho
  · exact hnew' o ho

theorem Session.emit (h : s.Session mac image) {o : Out} (ho : Carries mac image o) :
    Goes mac image s (s.emit o) :=
  ⟨h.of_eq, ⟨[o], rfl, by simpa using ho⟩, id⟩

theorem Session.sendBegin (h : s.Session mac image) : Goes mac image s s.sendBegin := by
  have hcarries : Carries mac image
      (.control s.mac (beginPacket ⟨s.size, s.crc, s.maj, s.min, s.pat⟩)) := by
    rw [h.mac]
    exact .begin _ h.announces
  exact h.emit hcarries

theorem Session.sendEnd (h : s.Session mac image) : Goes mac image s s.sendEnd := by
  have hcarries : Carries mac image (.control s.mac endPacket) := by
    rw [h.mac]
    exact .end_
  exact (h.emit hcarries).trans ((h.emit hcarries).session.still id)

/-- Frames are frames of the image, unless it is too long for any device. -/
theorem Session.sendFrames (h : s.Session mac image) (mask : UInt32) (i n : ℕ) :
    Goes mac image s (s.sendFrames mask i n) := by
  induction n generalizing i s with
  | zero => exact h.still id rfl rfl rfl rfl rfl rfl
  | succ n ih =>
    rw [EspNowPushSender.sendFrames_succ]
    split
    · exact ih h (i + 1)
    · dsimp only
      split
      · exact h.still id
      · rename_i hidx
        have hcalled : Goes mac image s (s.called (s.first + UInt32.ofNat i)) :=
          h.still id rfl rfl rfl rfl rfl rfl
        split
        · exact hcalled.trans (hcalled.session.still (by simp) rfl rfl rfl rfl rfl rfl)
        · have hcarries : Carries mac image (.raw s.mac (rawBytes (s.first + UInt32.ofNat i)
              (s.readAt ((s.first + UInt32.ofNat i) * pushFrameData)
                (frameLen s.size (s.first + UInt32.ofNat i))))) := by
            rw [h.mac]
            refine .frame _ fun hle => ⟨s.first + UInt32.ofNat i, ?_, ?_⟩
            · rw [← (h.pushes hle).total]
              exact UInt32.lt_iff_toNat_lt.1 (UInt32.not_le.1 hidx)
            · rw [((h.pushes hle).readAt (UInt32.not_le.1 hidx)).1]
              rfl
          have hemit := hcalled.session.emit hcarries
          exact hcalled.trans (hemit.trans (ih hemit.session (i + 1)))

theorem Session.sendWindow (h : s.Session mac image) (mask : UInt32) :
    Goes mac image s (s.sendWindow mask) := h.sendFrames mask 0 16

theorem Session.wait (h : s.Session mac image) (ms : UInt32) : Goes mac image s (s.wait clock ms) :=
  h.still id

theorem Session.heard (h : s.Session mac image) : Goes mac image s s.heard := h.still id

theorem Session.retried (h : s.Session mac image) : Goes mac image s s.retried := h.still id

theorem Session.nextWindow (h : s.Session mac image) : Goes mac image s s.nextWindow := h.still id

theorem Goes.wait (h : Goes mac image s s') (ms : UInt32) : Goes mac image s (s'.wait clock ms) :=
  h.trans (h.session.wait ms)

theorem Goes.sendWindow (h : Goes mac image s s') (mask : UInt32) :
    Goes mac image s (s'.sendWindow mask) := h.trans (h.session.sendWindow mask)

theorem Goes.sendBegin (h : Goes mac image s s') : Goes mac image s s'.sendBegin :=
  h.trans h.session.sendBegin

theorem Goes.sendEnd (h : Goes mac image s s') : Goes mac image s s'.sendEnd :=
  h.trans h.session.sendEnd

/-- The step lemma: a session goes on, or FINAL_OK has come. -/
theorem Session.rule {ev : Event} (hrule : Rule clock s ev s') (hev : ∀ a, ev ≠ .start a)
    (h : s.Session mac image) :
    Goes mac image s s' ∨ (∃ rx, ev = .control rx ∧ rx.mac = mac ∧ FinalOk rx.pkt) ∧
      s'.Session mac image ∧ s'.out = s.out := by
  cases hrule with
  | refuse a | start a => exact absurd rfl (hev a)
  | ignore => exact .inl (h.still id rfl rfl rfl rfl rfl rfl)
  | finish rx hst hmac hok =>
    exact .inr ⟨⟨rx, rfl, hmac.trans h.mac, hok⟩, h.of_eq rfl rfl rfl rfl rfl, rfl⟩
  | reject => exact .inl (h.still (by simp))
  | stale => exact .inl h.heard
  | advance =>
    exact .inl (((h.heard.trans h.heard.session.nextWindow).sendWindow _).wait 500)
  | last => exact .inl ((h.heard.trans h.heard.session.nextWindow).sendEnd.wait 2000)
  | resend => exact .inl ((h.heard.sendWindow _).wait 500)
  | idle => exact .inl (h.still id rfl rfl rfl rfl rfl rfl)
  | early => exact .inl (h.still id rfl rfl rfl rfl rfl rfl)
  | giveUp => exact .inl (h.still (by simp))
  | endAgain => exact .inl (h.retried.sendEnd.wait 2000)
  | hello => exact .inl ((h.retried.sendBegin.sendWindow _).wait 500)
  | again => exact .inl ((h.retried.sendWindow _).wait 500)

/-- A session of the image begins. -/
theorem openSession_session (s : EspNowPushSender) (image : Image) (mac : Mac)
    (major minor patch : UInt8) :
    (s.openSession (image.args mac major minor patch)).Session mac image.bytes := by
  have hsize : (UInt32.ofNat image.bytes.length).toNat = image.bytes.length :=
    UInt32.toNat_ofNat_of_lt' image.length_lt
  refine ⟨rfl, ⟨hsize, rfl⟩, fun hle => ⟨rfl, hsize, ?_, hle⟩⟩
  have hle' : (UInt32.ofNat image.bytes.length).toNat ≤ 2 ^ 24 := by omega
  have htotal := totalFramesOf_toNat hle'
  rwa [hsize] at htotal

/-- Only the empty image is announced with size 0. -/
theorem args_size_eq_zero_iff (image : Image) (mac : Mac) (major minor patch : UInt8) :
    (image.args mac major minor patch).size = 0 ↔ image.bytes = [] := by
  rw [← List.length_eq_zero_iff, ← UInt32.toNat_inj]
  exact Eq.congr_left (UInt32.toNat_ofNat_of_lt' image.length_lt)

/-- Any other image is accepted. -/
theorem start_of_ne_nil (clock : ℕ → UInt32) (s : EspNowPushSender) {image : Image}
    (hne : image.bytes ≠ []) (mac : Mac) (major minor patch : UInt8) :
    let opened := s.openSession (image.args mac major minor patch)
    (s.start clock (image.args mac major minor patch)).2 =
      (opened.sendBegin.sendWindow (opened.windowMask 0)).wait clock 500 := by
  intro opened
  have hargs : ¬ ((image.args mac major minor patch).size = 0 ∨
      (image.args mac major minor patch).read.isNone) := by
    rw [args_size_eq_zero_iff]
    simp [Image.args, hne]
  rw [start_of_args clock s hargs]

/-- `start` refuses an empty image and begins a session of any other. -/
theorem start_image (clock : ℕ → UInt32) (s : EspNowPushSender) (image : Image) (mac : Mac)
    (major minor patch : UInt8) :
    image.bytes = [] ∧ (s.start clock (image.args mac major minor patch)).2 = s ∨
      image.bytes ≠ [] ∧ Goes mac image.bytes (s.openSession (image.args mac major minor patch))
        (s.start clock (image.args mac major minor patch)).2 := by
  by_cases hnil : image.bytes = []
  · have hzero : (image.args mac major minor patch).size = 0 :=
      (args_size_eq_zero_iff image mac major minor patch).2 hnil
    exact .inl ⟨hnil, by rw [start, if_pos (.inl hzero)]⟩
  · have h := s.openSession_session image mac major minor patch
    rw [start_of_ne_nil clock s hnil]
    exact .inr ⟨hnil, (h.sendBegin.sendWindow _).wait 500⟩

end Session

end EspNowPushSender

end InfinitagNow
