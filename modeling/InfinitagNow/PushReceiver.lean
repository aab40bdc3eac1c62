/-
InfinitagNow/PushReceiver.lean

The device's end of the firmware push (`EspNowPushReceiver` of
`src/EspNowPush.{h,cpp}`).

`control`, `raw`, `drain` and `tail` are the atomic events: a control packet, a
raw frame handed over by the WiFi task, one pass of the loop that empties the
frame queue, and the periodic ack behind it.  `loop` is the source's `loop()`,
built from the last two.  `millis()` and the answers of the `Update` library
come from a `Platform`: the k-th reading of the clock is the k-th element of a
stream, so every sequence of clock values is covered.

The object keeps a trace of what it received, asked of the `Update` library and
sent, newest first, and of every evaluation of `_totalFrames - first`.
`Rule` lists what one atomic event can do, one constructor for each path, and
`step_rule` says the list is complete.
-/
import InfinitagNow.PushFrames
import InfinitagNow.RingBuffer
import InfinitagNow.UpdateSession

namespace InfinitagNow

/-! ### The window buffer -/

/-- One row of the window buffer. -/
structure Row where
  bytes : List UInt8
  length_eq : bytes.length = 242
  deriving DecidableEq, Repr

instance : Inhabited Row := ⟨⟨.replicate 242 0, List.length_replicate⟩⟩

/-- Copy `data` to the front of the row, the rest keeps its bytes. -/
def Row.memcpy (row : Row) (data : List UInt8) : Row :=
  ⟨(data ++ row.bytes.drop data.length).take 242, by
    rw [List.length_take, List.length_append, List.length_drop, row.length_eq]
    omega⟩

theorem Row.take_memcpy (row : Row) {data : List UInt8} (h : data.length ≤ 242) :
    (row.memcpy data).bytes.take data.length = data := by
  simp [memcpy, List.take_take, Nat.min_eq_left h]

/-! ### The object -/

/-- Something that happened, as the trace records it. -/
inductive Obs
  | rx (rx : RxPacket)
  | update (c : UpdateCall)
  | send (mac : Mac) (pkt : Packet)
  /-- `_totalFrames - first` was evaluated -/
  | remain (total first : UInt32)
  deriving DecidableEq, Repr

/-- The calls to the `Update` library in a trace. -/
def updates : List Obs → List UpdateCall
  | [] => []
  | .update c :: t => c :: updates t
  | _ :: t => updates t

/-- The packets sent in a trace, oldest first. -/
def sends : List Obs → List (Mac × Packet)
  | [] => []
  | .send mac pkt :: t => sends t ++ [(mac, pkt)]
  | _ :: t => sends t

section Trace

variable (t : List Obs) (rx : RxPacket) (c : UpdateCall) (mac : Mac) (pkt : Packet)
  (total first : UInt32)

@[simp] theorem updates_rx : updates (.rx rx :: t) = updates t := rfl
@[simp] theorem updates_update : updates (.update c :: t) = c :: updates t := rfl
@[simp] theorem updates_send : updates (.send mac pkt :: t) = updates t := rfl
@[simp] theorem updates_remain : updates (.remain total first :: t) = updates t := rfl

@[simp] theorem sends_rx : sends (.rx rx :: t) = sends t := rfl
@[simp] theorem sends_update : sends (.update c :: t) = sends t := rfl
@[simp] theorem sends_send : sends (.send mac pkt :: t) = sends t ++ [(mac, pkt)] := rfl
@[simp] theorem sends_remain : sends (.remain total first :: t) = sends t := rfl

end Trace

/-- The clock and the `Update` library. -/
structure Platform extends UpdateLib where
  millis : ℕ → UInt32

inductive RecvState
  | idle | receiving | done | failed
  deriving DecidableEq, Repr

def emptyQueue : Ring RawFrame 24 := ⟨0, 0, fun _ => default⟩

structure EspNowPushReceiver where
  begin : PushBegin := {}
  srcMac : Mac := {}
  state : RecvState := .idle
  totalFrames : UInt32 := 0
  window : UInt16 := 0
  /-- bit i = frame i of the current window received -/
  haveMask : UInt32 := 0
  winBuf : Fin 16 → Row := fun _ => default
  bytesDone : UInt32 := 0
  failCode : UInt8 := 0
  updErr : UInt8 := 0
  updErrStr : List UInt8 := []
  crc : UInt32 := 0
  lastRxMs : UInt32 := 0
  lastAckMs : UInt32 := 0
  queue : Ring RawFrame 24 := emptyQueue
  /-- how often the clock was read -/
  reads : ℕ := 0
  trace : List Obs := []

namespace EspNowPushReceiver

variable (plat : Platform)

@[simps]
def log (r : EspNowPushReceiver) (o : Obs) : EspNowPushReceiver := { r with trace := o :: r.trace }

/-- `millis()` -/
def now (r : EspNowPushReceiver) : UInt32 := plat.millis r.reads

/-- The clock has been read. -/
@[simps] def read (r : EspNowPushReceiver) : EspNowPushReceiver := { r with reads := r.reads + 1 }

@[simps]
def sendAck (r : EspNowPushReceiver) (window : UInt16) (missing : UInt32)
    (status detail : UInt8) : EspNowPushReceiver :=
  { (r.log (.send r.srcMac (ackPacket ⟨window, missing, status, detail⟩))).read with
    lastAckMs := r.now plat }

def fail (r : EspNowPushReceiver) (status : UInt8) : EspNowPushReceiver :=
  -- capture the real update error before abort() overwrites it
  let r := { r with
    updErr := plat.getError (updates r.trace)
    updErrStr := (plat.errorString (updates r.trace)).take 31 }
  let r := { r.log (.update .abort) with failCode := status }
  let r := r.sendAck plat 0xFFFF 0 status r.updErr
  let r := r.sendAck plat 0xFFFF 0 status r.updErr
  { r with state := .failed }

/-- The first frame of the current window. -/
def first (r : EspNowPushReceiver) : UInt32 := firstFrame r.window

/-- Record that `_totalFrames - first` is evaluated. -/
@[simps!]
def logRemain (r : EspNowPushReceiver) : EspNowPushReceiver :=
  r.log (.remain r.totalFrames r.first)

/-- The frames of the current window. -/
def remain (r : EspNowPushReceiver) : UInt32 := framesLeft r.totalFrames r.first

/-- Expected frame mask of the current window. -/
def windowExpectMask (r : EspNowPushReceiver) : UInt32 := frameMask r.totalFrames r.first

/-- Row `i` of the window buffer. -/
def row (r : EspNowPushReceiver) (i : ℕ) : Row := r.winBuf (Fin.ofNat 16 i)

/-- The bytes of row `i` that go to flash. -/
def rowLen (r : EspNowPushReceiver) (i : ℕ) : UInt32 :=
  frameLen r.begin.size (r.first + UInt32.ofNat i)

def rowData (r : EspNowPushReceiver) (i : ℕ) : List UInt8 :=
  (r.row i).bytes.take (r.rowLen i).toNat

/-- One pass of the loop of `finishWindow`; false if the write failed. -/
def flashRow (r : EspNowPushReceiver) (i : ℕ) : EspNowPushReceiver × Bool :=
  let n := r.rowLen i
  let data := r.rowData i
  let ret := plat.write (updates r.trace) data n
  let r := r.log (.update (.write data n ret))
  if ret ≠ n then (r.fail plat pushAckFinalFlash, false)
  else ({ r with crc := crc32 r.crc data, bytesDone := r.bytesDone + n }, true)

/-- `n` passes from row `i` on. -/
def flashRows (r : EspNowPushReceiver) (i : ℕ) : ℕ → EspNowPushReceiver × Bool
  | 0 => (r, true)
  | n + 1 =>
    if (r.flashRow plat i).2 then flashRows (r.flashRow plat i).1 (i + 1) n
    else r.flashRow plat i

/-- The window is on flash: acknowledge it, twice, and turn to the next. -/
@[simps]
def nextWindow (r : EspNowPushReceiver) : EspNowPushReceiver :=
  let r := r.sendAck plat r.window 0 pushAckWindow 0
  let r := r.sendAck plat r.window 0 pushAckWindow 0
  { r with window := r.window + 1, haveMask := 0 }

def finishWindow (r : EspNowPushReceiver) : EspNowPushReceiver :=
  let r := r.logRemain
  let (r, ok) := r.flashRows plat 0 r.remain.toNat
  if ok then r.nextWindow plat else r

/-! ### Events -/

/-- The session fields after an accepted BEGIN. -/
@[simps]
def openSession (r : EspNowPushReceiver) : EspNowPushReceiver :=
  { r with
    totalFrames := totalFramesOf r.begin.size
    window := 0
    haveMask := 0
    bytesDone := 0
    crc := 0
    state := .receiving }

def onBegin (r : EspNowPushReceiver) (rx : RxPacket) : EspNowPushReceiver :=
  if r.state = .receiving ∧ rx.mac ≠ r.srcMac then
    -- another box tries to push while we are busy
    r.log (.send rx.mac (ackPacket { window := 0xFFFF, status := pushAckBusy }))
  else if r.state ≠ .receiving then
    let r := { r with begin := decodePushBegin rx.pkt.payload, srcMac := rx.mac }
    if r.begin.size = 0 then r.fail plat pushAckFinalFlash
    else
      let ok := plat.toUpdateLib.begin (updates r.trace) r.begin.size
      let r := r.log (.update (.begin r.begin.size ok))
      if ok = false then r.fail plat pushAckFinalFlash
      else
        let r := r.openSession
        { r.read with lastRxMs := r.now plat }
  else
    -- duplicate BEGIN from our sender: ignore, transfer continues
    { r.read with lastRxMs := r.now plat }

def onEnd (r : EspNowPushReceiver) : EspNowPushReceiver :=
  let r := { r.read with lastRxMs := r.now plat }
  if r.first < r.totalFrames then
    -- still missing data, re-ack the current window instead
    let r := r.logRemain
    r.sendAck plat r.window (r.windowExpectMask &&& ~~~r.haveMask) pushAckWindow 0
  else if r.bytesDone ≠ r.begin.size ∨ r.crc ≠ r.begin.crc32 then
    r.fail plat pushAckFinalCrc
  else
    let ok := plat.end_ (updates r.trace)
    let r := r.log (.update (.end_ ok))
    if ok = false then r.fail plat pushAckFinalFlash
    else
      let r := r.sendAck plat 0xFFFF 0 pushAckFinalOk 0
      let r := r.sendAck plat 0xFFFF 0 pushAckFinalOk 0
      { r with state := .done }

def onControl (r : EspNowPushReceiver) (rx : RxPacket) : EspNowPushReceiver :=
  let r := r.log (.rx rx)
  if rx.pkt.msgType = msgPushBegin then r.onBegin plat rx
  else if rx.pkt.msgType = msgPushEnd ∧ r.state = .receiving ∧ rx.mac = r.srcMac then r.onEnd plat
  else r

def rawHandler (r : EspNowPushReceiver) (mac : Mac) (data : List UInt8) : EspNowPushReceiver :=
  if r.state ≠ .receiving then r
  else if h : rawHdr ≤ data.length ∧ data.length ≤ 250 then
    if data.take 4 ≠ rawMagic then r
    else if mac ≠ r.srcMac then r  -- only our sender
    else { r with queue := r.queue.push ⟨data, h.1, h.2⟩ }
  else r

/-- A frame taken from the queue. -/
def onFrame (r : EspNowPushReceiver) (frame : RawFrame) : EspNowPushReceiver :=
  let r := { r.read with lastRxMs := r.now plat }
  let frameIdx := frame.frameIdx
  if frameIdx < r.first then
    -- frame of an already flashed window: our ack got lost, re-ack (throttled)
    if r.now plat - r.lastAckMs > 100 then
      r.read.sendAck plat (frameIdx / pushWindowFrames).toUInt16 0 pushAckWindow 0
    else r.read
  else if frameIdx ≥ r.first + pushWindowFrames then r  -- future window (should not happen)
  else
    let i := frameIdx - r.first
    let row := Fin.ofNat 16 i.toNat
    if frame.data.length > 242 then r
    else
      let r := { r with
        winBuf := Function.update r.winBuf row ((r.winBuf row).memcpy frame.data)
        haveMask := r.haveMask ||| ((1 : UInt32) <<< i) }
      let r := r.logRemain
      if r.haveMask &&& r.windowExpectMask = r.windowExpectMask then r.finishWindow plat else r

/-- One pass of the draining loop. -/
def drain (r : EspNowPushReceiver) : EspNowPushReceiver :=
  if r.state ≠ .receiving then r
  else
    match r.queue.pop with
    | none => r
    | some (frame, queue) => { r with queue := queue }.onFrame plat frame

/-- The periodic ack, so the sender learns about missing frames even when the
tail of a window got lost completely. -/
def tail (r : EspNowPushReceiver) : EspNowPushReceiver :=
  if r.state ≠ .receiving then r
  else if r.now plat - r.lastAckMs > 250 then
    let r := r.read
    if r.now plat - r.lastRxMs > 150 ∧ r.haveMask ≠ 0 then
      let r := r.read.logRemain
      r.sendAck plat r.window (r.windowExpectMask &&& ~~~r.haveMask) pushAckWindow 0
    else r.read
  else r.read

/-- At most `k` passes of the draining loop. -/
def drainAll (r : EspNowPushReceiver) : ℕ → EspNowPushReceiver
  | 0 => r
  | k + 1 => drainAll (r.drain plat) k

/-- `loop()`, with nothing arriving meanwhile. -/
def loop (r : EspNowPushReceiver) : EspNowPushReceiver :=
  (r.drainAll plat r.queue.length).tail plat

/-- An event of the receiver; `drain` and `tail` are the parts of `loop` between
which the WiFi task can hand over frames. -/
inductive Event
  | control (rx : RxPacket)
  | raw (mac : Mac) (data : List UInt8)
  | drain
  | tail
  | loop
  deriving DecidableEq, Repr

def step (r : EspNowPushReceiver) : Event → EspNowPushReceiver
  | .control rx => r.onControl plat rx
  | .raw mac data => r.rawHandler mac data
  | .drain => r.drain plat
  | .tail => r.tail plat
  | .loop => r.loop plat

def run (r : EspNowPushReceiver) (evs : List Event) : EspNowPushReceiver :=
  evs.foldl (fun r ev => r.step plat ev) r

/-! ### Failing and flashing -/

section Flash

variable {plat} {r : EspNowPushReceiver}

section Fail

variable (status : UInt8)

@[simp] theorem fail_state : (r.fail plat status).state = .failed := rfl
@[simp] theorem fail_queue : (r.fail plat status).queue = r.queue := by simp [fail]
@[simp] theorem fail_srcMac : (r.fail plat status).srcMac = r.srcMac := by simp [fail]
@[simp] theorem fail_begin : (r.fail plat status).begin = r.begin := by simp [fail]
@[simp] theorem fail_totalFrames : (r.fail plat status).totalFrames = r.totalFrames := by
  simp [fail]
@[simp] theorem fail_window : (r.fail plat status).window = r.window := by simp [fail]
@[simp] theorem fail_haveMask : (r.fail plat status).haveMask = r.haveMask := by simp [fail]

/-- A failure aborts the session and reports twice. -/
@[simp] theorem fail_trace : (r.fail plat status).trace =
    .send r.srcMac (ackPacket ⟨0xFFFF, 0, status, plat.getError (updates r.trace)⟩) ::
      .send r.srcMac (ackPacket ⟨0xFFFF, 0, status, plat.getError (updates r.trace)⟩) ::
      .update .abort :: r.trace := by simp [fail]

end Fail

/-- The object after a successful write of row `i`. -/
@[simps]
def flashed (r : EspNowPushReceiver) (i : ℕ) : EspNowPushReceiver :=
  { r with
    trace := .update (.write (r.rowData i) (r.rowLen i) (r.rowLen i)) :: r.trace
    crc := crc32 r.crc (r.rowData i)
    bytesDone := r.bytesDone + r.rowLen i }

theorem flashRow_ok {i : ℕ}
    (h : plat.write (updates r.trace) (r.rowData i) (r.rowLen i) = r.rowLen i) :
    r.flashRow plat i = (r.flashed i, true) := by
  simp [flashRow, h, flashed, log]

theorem flashRow_fail {i : ℕ}
    (h : plat.write (updates r.trace) (r.rowData i) (r.rowLen i) ≠ r.rowLen i) :
    r.flashRow plat i =
      ((r.log (.update (.write (r.rowData i) (r.rowLen i)
        (plat.write (updates r.trace) (r.rowData i) (r.rowLen i))))).fail plat pushAckFinalFlash,
        false) := by
  simp only [flashRow]
  exact if_pos h

/-- What successful writes preserve, row by row, holds when the loop is done;
or it holds at some row whose write fails. -/
theorem flashRows_cases (plat : Platform) {P : ℕ → EspNowPushReceiver → Prop} {i n : ℕ}
    (hrow : ∀ {j r}, j < i + n → P j r →
      plat.write (updates r.trace) (r.rowData j) (r.rowLen j) = r.rowLen j →
        P (j + 1) (r.flashed j))
    (h : P i r) :
    (r.flashRows plat i n).2 = true ∧ P (i + n) (r.flashRows plat i n).1 ∨
      ∃ j r₁, i ≤ j ∧ j < i + n ∧ P j r₁ ∧
        plat.write (updates r₁.trace) (r₁.rowData j) (r₁.rowLen j) ≠ r₁.rowLen j ∧
        r.flashRows plat i n =
          ((r₁.log (.update (.write (r₁.rowData j) (r₁.rowLen j)
            (plat.write (updates r₁.trace) (r₁.rowData j) (r₁.rowLen j))))).fail plat
              pushAckFinalFlash, false) := by
  induction n generalizing i r with
  | zero => exact .inl ⟨rfl, h⟩
  | succ n ih =>
    by_cases hw : plat.write (updates r.trace) (r.rowData i) (r.rowLen i) = r.rowLen i
    · have heq : r.flashRows plat i (n + 1) = (r.flashed i).flashRows plat (i + 1) n := by
        simp [flashRows, flashRow_ok hw]
      rw [heq]
      rcases ih (fun hj => hrow (by omega)) (hrow (by omega) h hw) with
        ⟨hok, hP⟩ | ⟨j, r₁, hij, hj, hP, hne, hres⟩
      · exact .inl ⟨hok, by rwa [Nat.add_right_comm, Nat.add_assoc] at hP⟩
      · exact .inr ⟨j, r₁, by omega, by omega, hP, hne, hres⟩
    · -- the write of this row fails
      right
      refine ⟨i, r, le_rfl, by omega, h, hw, ?_⟩
      simp [flashRows, flashRow_fail hw]

/-- The same for the whole window: it ends with the acknowledged window, or with
a failure at some row. -/
theorem finishWindow_cases (plat : Platform) {P : ℕ → EspNowPushReceiver → Prop}
    (hrow : ∀ {j r₁}, j < r.remain.toNat → P j r₁ →
      plat.write (updates r₁.trace) (r₁.rowData j) (r₁.rowLen j) = r₁.rowLen j →
        P (j + 1) (r₁.flashed j))
    (h : P 0 r.logRemain) :
    (∃ r₁, P r.remain.toNat r₁ ∧ r.finishWindow plat = r₁.nextWindow plat) ∨
      ∃ j r₁, j < r.remain.toNat ∧ P j r₁ ∧
        plat.write (updates r₁.trace) (r₁.rowData j) (r₁.rowLen j) ≠ r₁.rowLen j ∧
        r.finishWindow plat =
          (r₁.log (.update (.write (r₁.rowData j) (r₁.rowLen j)
            (plat.write (updates r₁.trace) (r₁.rowData j) (r₁.rowLen j))))).fail plat
              pushAckFinalFlash := by
  have hdef : r.finishWindow plat =
      if (r.logRemain.flashRows plat 0 r.remain.toNat).2 then
        (r.logRemain.flashRows plat 0 r.remain.toNat).1.nextWindow plat
      else (r.logRemain.flashRows plat 0 r.remain.toNat).1 := rfl
  rcases flashRows_cases plat (n := r.remain.toNat) (fun hj => hrow (by omega)) h with
    ⟨hok, hP⟩ | ⟨j, r₁, -, hj, hP, hne, hres⟩
  · left
    refine ⟨(r.logRemain.flashRows plat 0 r.remain.toNat).1, by simpa using hP, ?_⟩
    rw [hdef, hok]
    rfl
  · right
    refine ⟨j, r₁, by omega, hP, hne, ?_⟩
    rw [hdef, hres]
    rfl

/-- Flashing leaves the queue alone. -/
@[simp] theorem finishWindow_queue : (r.finishWindow plat).queue = r.queue := by
  rcases finishWindow_cases plat (r := r) (P := fun _ r₁ => r₁.queue = r.queue)
    (fun _ h _ => by simpa using h) (by simp) with ⟨r₁, h, heq⟩ | ⟨j, r₁, -, h, -, heq⟩
  · rw [heq]
    simpa using h
  · rw [heq]
    simpa using h

end Flash

/-- A platform on which nothing goes wrong, with a clock that ticks at every
reading. -/
def flawlessPlat : Platform := { UpdateLib.flawless with millis := UInt32.ofNat }

/-! ### What one event can do -/

section Rule

variable {plat} {r : EspNowPushReceiver}

/-- The object when a packet is handled, and when a BEGIN is. -/
@[simps!]
def received (r : EspNowPushReceiver) (rx : RxPacket) : EspNowPushReceiver := r.log (.rx rx)

@[simps]
def beginning (r : EspNowPushReceiver) (rx : RxPacket) : EspNowPushReceiver :=
  { r.received rx with begin := decodePushBegin rx.pkt.payload, srcMac := rx.mac }

/-- The clock was read for `_lastRxMs`. -/
@[simps]
def touched (plat : Platform) (r : EspNowPushReceiver) : EspNowPushReceiver :=
  { r.read with lastRxMs := r.now plat }

/-- A frame's data is stored in its row and its bit set. -/
@[simps]
def stored (r : EspNowPushReceiver) (frame : RawFrame) : EspNowPushReceiver :=
  let i := frame.frameIdx - r.first
  let row := Fin.ofNat 16 i.toNat
  { r with
    winBuf := Function.update r.winBuf row ((r.winBuf row).memcpy frame.data)
    haveMask := r.haveMask ||| ((1 : UInt32) <<< i) }

/-- What one event can do, one constructor for each path. -/
inductive Rule (plat : Platform) (r : EspNowPushReceiver) :
    Event → EspNowPushReceiver → Prop
  | ignore (rx) (hbegin : rx.pkt.msgType ≠ msgPushBegin)
      (hend : ¬ (rx.pkt.msgType = msgPushEnd ∧ r.state = .receiving ∧ rx.mac = r.srcMac)) :
      Rule plat r (.control rx) (r.received rx)
  | busy (rx) (hbegin : rx.pkt.msgType = msgPushBegin) (hst : r.state = .receiving)
      (hmac : rx.mac ≠ r.srcMac) :
      Rule plat r (.control rx)
        ((r.received rx).log (.send rx.mac (ackPacket { window := 0xFFFF, status := pushAckBusy })))
  | duplicate (rx) (hbegin : rx.pkt.msgType = msgPushBegin) (hst : r.state = .receiving)
      (hmac : rx.mac = r.srcMac) : Rule plat r (.control rx) ((r.received rx).touched plat)
  | refuseEmpty (rx) (hbegin : rx.pkt.msgType = msgPushBegin) (hst : r.state ≠ .receiving)
      (hsize : (decodePushBegin rx.pkt.payload).size = 0) :
      Rule plat r (.control rx) ((r.beginning rx).fail plat pushAckFinalFlash)
  | refuse (rx) (hbegin : rx.pkt.msgType = msgPushBegin) (hst : r.state ≠ .receiving)
      (hok : plat.toUpdateLib.begin (updates r.trace) (decodePushBegin rx.pkt.payload).size =
        false) :
      Rule plat r (.control rx)
        (((r.beginning rx).log
          (.update (.begin (decodePushBegin rx.pkt.payload).size false))).fail plat
            pushAckFinalFlash)
  | accept (rx) (hbegin : rx.pkt.msgType = msgPushBegin) (hst : r.state ≠ .receiving)
      (hsize : (decodePushBegin rx.pkt.payload).size ≠ 0)
      (hok : plat.toUpdateLib.begin (updates r.trace) (decodePushBegin rx.pkt.payload).size =
        true) :
      Rule plat r (.control rx)
        (((r.beginning rx).log
          (.update (.begin (decodePushBegin rx.pkt.payload).size true))).openSession.touched plat)
  | endEarly (rx) (hend : rx.pkt.msgType = msgPushEnd) (hst : r.state = .receiving)
      (hmac : rx.mac = r.srcMac) (hlt : r.first < r.totalFrames) :
      Rule plat r (.control rx)
        (((r.received rx).touched plat).logRemain.sendAck plat r.window
          (r.windowExpectMask &&& ~~~r.haveMask) pushAckWindow 0)
  | endMismatch (rx) (hend : rx.pkt.msgType = msgPushEnd) (hst : r.state = .receiving)
      (hmac : rx.mac = r.srcMac) (hge : ¬ r.first < r.totalFrames)
      (hbad : r.bytesDone ≠ r.begin.size ∨ r.crc ≠ r.begin.crc32) :
      Rule plat r (.control rx) (((r.received rx).touched plat).fail plat pushAckFinalCrc)
  | endFlash (rx) (hend : rx.pkt.msgType = msgPushEnd) (hst : r.state = .receiving)
      (hmac : rx.mac = r.srcMac) (hge : ¬ r.first < r.totalFrames)
      (hsize : r.bytesDone = r.begin.size) (hcrc : r.crc = r.begin.crc32)
      (hok : plat.end_ (updates r.trace) = false) :
      Rule plat r (.control rx)
        ((((r.received rx).touched plat).log (.update (.end_ false))).fail plat pushAckFinalFlash)
  | commit (rx) (hend : rx.pkt.msgType = msgPushEnd) (hst : r.state = .receiving)
      (hmac : rx.mac = r.srcMac) (hge : ¬ r.first < r.totalFrames)
      (hsize : r.bytesDone = r.begin.size) (hcrc : r.crc = r.begin.crc32)
      (hok : plat.end_ (updates r.trace) = true) :
      Rule plat r (.control rx)
        { ((((r.received rx).touched plat).log (.update (.end_ true))).sendAck plat 0xFFFF 0
            pushAckFinalOk 0).sendAck plat 0xFFFF 0 pushAckFinalOk 0 with state := .done }
  | drop (mac data) : Rule plat r (.raw mac data) r
  | enqueue (mac data) (frame : RawFrame) (hst : r.state = .receiving) (hmac : mac = r.srcMac)
      (hframe : frame.bytes = data) (hmagic : data.take 4 = rawMagic) :
      Rule plat r (.raw mac data) { r with queue := r.queue.push frame }
  | quiet (hst : r.state ≠ .receiving ∨ r.queue.toList = []) : Rule plat r .drain r
  | stale (frame queue) (hst : r.state = .receiving)
      (hpop : r.queue.pop = some (frame, queue)) (hlt : frame.frameIdx < r.first)
      (hdue : ¬ plat.millis (r.reads + 1) - r.lastAckMs > 100) :
      Rule plat r .drain ({ r with queue := queue }.touched plat).read
  | reack (frame queue) (hst : r.state = .receiving)
      (hpop : r.queue.pop = some (frame, queue)) (hlt : frame.frameIdx < r.first)
      (hdue : plat.millis (r.reads + 1) - r.lastAckMs > 100) :
      Rule plat r .drain (({ r with queue := queue }.touched plat).read.sendAck plat
        (frame.frameIdx / pushWindowFrames).toUInt16 0 pushAckWindow 0)
  | future (frame queue) (hst : r.state = .receiving)
      (hpop : r.queue.pop = some (frame, queue))
      (hge : frame.frameIdx ≥ r.first + pushWindowFrames) :
      Rule plat r .drain ({ r with queue := queue }.touched plat)
  | store (frame queue) (hst : r.state = .receiving)
      (hpop : r.queue.pop = some (frame, queue)) (hge : ¬ frame.frameIdx < r.first)
      (hlt : ¬ frame.frameIdx ≥ r.first + pushWindowFrames)
      (hmask : ¬ (r.stored frame).haveMask &&& r.windowExpectMask = r.windowExpectMask) :
      Rule plat r .drain (({ r with queue := queue }.touched plat).stored frame).logRemain
  | complete (frame queue) (hst : r.state = .receiving)
      (hpop : r.queue.pop = some (frame, queue)) (hge : ¬ frame.frameIdx < r.first)
      (hlt : ¬ frame.frameIdx ≥ r.first + pushWindowFrames)
      (hmask : (r.stored frame).haveMask &&& r.windowExpectMask = r.windowExpectMask) :
      Rule plat r .drain
        ((({ r with queue := queue }.touched plat).stored frame).logRemain.finishWindow plat)
  | calm (k : ℕ) : Rule plat r .tail { r with reads := r.reads + k }
  | periodic (k : ℕ) (hst : r.state = .receiving) (hmask : r.haveMask ≠ 0) :
      Rule plat r .tail
        ({ r with reads := r.reads + k }.logRemain.sendAck plat r.window
          (r.windowExpectMask &&& ~~~r.haveMask) pushAckWindow 0)

theorem onBegin_rule (plat : Platform) (r : EspNowPushReceiver) (rx : RxPacket)
    (hbegin : rx.pkt.msgType = msgPushBegin) :
    Rule plat r (.control rx) ((r.received rx).onBegin plat rx) := by
  by_cases hst : r.state = .receiving
  · by_cases hmac : rx.mac = r.srcMac
    · have heq : (r.received rx).onBegin plat rx = (r.received rx).touched plat := by
        simp [onBegin, received, log, hst, hmac, touched]
      rw [heq]
      exact .duplicate rx hbegin hst hmac
    · have heq : (r.received rx).onBegin plat rx = (r.received rx).log
          (.send rx.mac (ackPacket { window := 0xFFFF, status := pushAckBusy })) := by
        simp [onBegin, received, log, hst, hmac]
      rw [heq]
      exact .busy rx hbegin hst hmac
  · by_cases hsize : (decodePushBegin rx.pkt.payload).size = 0
    · have heq : (r.received rx).onBegin plat rx =
          (r.beginning rx).fail plat pushAckFinalFlash := by
        simp [onBegin, received, beginning, log, hst, hsize]
      rw [heq]
      exact .refuseEmpty rx hbegin hst hsize
    · have hlog : updates (r.received rx).trace = updates r.trace := rfl
      cases hok : plat.toUpdateLib.begin (updates r.trace)
          (decodePushBegin rx.pkt.payload).size with
      | false =>
        have heq : (r.received rx).onBegin plat rx =
            ((r.beginning rx).log (.update
              (.begin (decodePushBegin rx.pkt.payload).size false))).fail plat
                pushAckFinalFlash := by
          simp only [onBegin, hlog, hok, hsize]
          simp [received, beginning, log, hst]
        rw [heq]
        exact .refuse rx hbegin hst hok
      | true =>
        have heq : (r.received rx).onBegin plat rx =
            ((r.beginning rx).log (.update
              (.begin (decodePushBegin rx.pkt.payload).size true))).openSession.touched plat := by
          simp only [onBegin, hlog, hok, hsize]
          simp [received, beginning, log, hst, touched]
        rw [heq]
        exact .accept rx hbegin hst hsize hok

theorem onEnd_rule (plat : Platform) (r : EspNowPushReceiver) (rx : RxPacket)
    (hend : rx.pkt.msgType = msgPushEnd) (hst : r.state = .receiving) (hmac : rx.mac = r.srcMac) :
    Rule plat r (.control rx) ((r.received rx).onEnd plat) := by
  have hdef : (r.received rx).onEnd plat =
      if r.first < r.totalFrames then
        ((r.received rx).touched plat).logRemain.sendAck plat r.window
          (r.windowExpectMask &&& ~~~r.haveMask) pushAckWindow 0
      else if r.bytesDone ≠ r.begin.size ∨ r.crc ≠ r.begin.crc32 then
        ((r.received rx).touched plat).fail plat pushAckFinalCrc
      else if plat.end_ (updates r.trace) = false then
        (((r.received rx).touched plat).log
          (.update (.end_ (plat.end_ (updates r.trace))))).fail plat pushAckFinalFlash
      else
        { ((((r.received rx).touched plat).log
          (.update (.end_ (plat.end_ (updates r.trace))))).sendAck plat 0xFFFF 0
            pushAckFinalOk 0).sendAck plat 0xFFFF 0 pushAckFinalOk 0 with state := .done } := rfl
  rw [hdef]
  split
  · rename_i hlt
    exact .endEarly rx hend hst hmac hlt
  · rename_i hge
    split
    · rename_i hbad
      exact .endMismatch rx hend hst hmac hge hbad
    · rename_i hgood
      have hsize : r.bytesDone = r.begin.size := by
        by_contra h
        exact hgood (.inl h)
      have hcrc : r.crc = r.begin.crc32 := by
        by_contra h
        exact hgood (.inr h)
      split
      · rename_i hok
        rw [hok]
        exact .endFlash rx hend hst hmac hge hsize hcrc hok
      · rename_i hok
        have hok : plat.end_ (updates r.trace) = true := by simpa using hok
        rw [hok]
        exact .commit rx hend hst hmac hge hsize hcrc hok

theorem onControl_rule (plat : Platform) (r : EspNowPushReceiver) (rx : RxPacket) :
    Rule plat r (.control rx) (r.onControl plat rx) := by
  by_cases hbegin : rx.pkt.msgType = msgPushBegin
  · have heq : r.onControl plat rx = (r.received rx).onBegin plat rx := by
      simp [onControl, hbegin, received]
    rw [heq]
    exact onBegin_rule plat r rx hbegin
  · by_cases hend : rx.pkt.msgType = msgPushEnd ∧ r.state = .receiving ∧ rx.mac = r.srcMac
    · have heq : r.onControl plat rx = (r.received rx).onEnd plat := by
        simp only [onControl, hbegin, if_false]
        exact if_pos hend
      rw [heq]
      exact onEnd_rule plat r rx hend.1 hend.2.1 hend.2.2
    · have heq : r.onControl plat rx = r.received rx := by
        simp only [onControl, hbegin, if_false]
        exact if_neg hend
      rw [heq]
      exact .ignore rx hbegin hend

theorem rawHandler_rule (plat : Platform) (r : EspNowPushReceiver) (mac : Mac)
    (data : List UInt8) : Rule plat r (.raw mac data) (r.rawHandler mac data) := by
  unfold rawHandler
  split
  · exact .drop mac data
  · rename_i hst
    split
    · split
      · exact .drop mac data
      · rename_i hmagic
        split
        · exact .drop mac data
        · rename_i hmac
          exact .enqueue mac data _ (not_not.1 hst) (not_not.1 hmac) rfl (not_not.1 hmagic)
    · exact .drop mac data

theorem onFrame_rule (plat : Platform) {r : EspNowPushReceiver} {frame : RawFrame}
    {queue : Ring RawFrame 24} (hst : r.state = .receiving)
    (hpop : r.queue.pop = some (frame, queue)) :
    Rule plat r .drain ({ r with queue := queue }.onFrame plat frame) := by
  -- no longer frame is queued, so the test for 242 bytes never fails
  have hlen : ¬ frame.data.length > 242 := not_lt.2 frame.length_data_le
  have hdef : { r with queue := queue }.onFrame plat frame =
      if frame.frameIdx < r.first then
        if plat.millis (r.reads + 1) - r.lastAckMs > 100 then
          ({ r with queue := queue }.touched plat).read.sendAck plat
            (frame.frameIdx / pushWindowFrames).toUInt16 0 pushAckWindow 0
        else ({ r with queue := queue }.touched plat).read
      else if frame.frameIdx ≥ r.first + pushWindowFrames then
        { r with queue := queue }.touched plat
      else if frame.data.length > 242 then { r with queue := queue }.touched plat
      else
        if (r.stored frame).haveMask &&& r.windowExpectMask = r.windowExpectMask then
          (({ r with queue := queue }.touched plat).stored frame).logRemain.finishWindow plat
        else (({ r with queue := queue }.touched plat).stored frame).logRemain := rfl
  rw [hdef]
  split
  · rename_i hlt
    split
    · rename_i hdue
      exact .reack frame queue hst hpop hlt hdue
    · rename_i hdue
      exact .stale frame queue hst hpop hlt hdue
  · rename_i hge
    split
    · rename_i hfuture
      exact .future frame queue hst hpop hfuture
    · rename_i hlt
      split
      · rename_i hmask
        exact .complete frame queue hst hpop hge hlt hmask
      · rename_i hmask
        exact .store frame queue hst hpop hge hlt hmask

theorem drain_rule (plat : Platform) (r : EspNowPushReceiver) :
    Rule plat r .drain (r.drain plat) := by
  unfold drain
  split
  · rename_i hst
    exact .quiet (.inl hst)
  · rename_i hst
    cases hpop : r.queue.pop with
    | none => exact .quiet (.inr (Ring.toList_of_pop_none hpop))
    | some p => exact onFrame_rule plat (not_not.1 hst) hpop

theorem tail_rule (plat : Platform) (r : EspNowPushReceiver) :
    Rule plat r .tail (r.tail plat) := by
  unfold tail
  split
  · exact .calm 0
  · rename_i hst
    split
    · dsimp only
      split
      · rename_i hdue
        exact .periodic 2 (not_not.1 hst) hdue.2
      · exact .calm 2
    · exact .calm 1

/-- The list of rules is complete. -/
theorem step_rule (plat : Platform) (r : EspNowPushReceiver) {ev : Event} (hev : ev ≠ .loop) :
    Rule plat r ev (r.step plat ev) := by
  cases ev with
  | control rx => exact onControl_rule plat r rx
  | raw mac data => exact rawHandler_rule plat r mac data
  | drain => exact drain_rule plat r
  | tail => exact tail_rule plat r
  | loop => exact absurd rfl hev

/-- The only packet that opens a session is a BEGIN the library accepts. -/
theorem onControl_opens {rx : RxPacket} (hst : r.state ≠ .receiving)
    (hopen : (r.onControl plat rx).state = .receiving) :
    (decodePushBegin rx.pkt.payload).size ≠ 0 ∧
      r.onControl plat rx =
        (((r.beginning rx).log
          (.update (.begin (decodePushBegin rx.pkt.payload).size true))).openSession.touched
            plat) := by
  have hrule := onControl_rule plat r rx
  generalize r.onControl plat rx = r' at hrule hopen
  cases hrule with
  | accept _ _ _ hsize => exact ⟨hsize, rfl⟩
  | ignore => exact absurd hopen hst
  | busy _ _ hr | duplicate _ _ hr | endEarly _ _ hr => exact absurd hr hst
  | commit => simp at hopen
  | refuseEmpty | refuse | endMismatch | endFlash => simp at hopen

/-! ### The row of a frame -/

theorem first_toNat (r : EspNowPushReceiver) : r.first.toNat = r.window.toNat * 16 :=
  firstFrame_toNat r.window

/-- The end of the window does not wrap. -/
theorem window_end_toNat (r : EspNowPushReceiver) :
    (r.first + pushWindowFrames).toNat = r.window.toNat * 16 + 16 := by
  have hwindow := r.window.toNat_lt
  rw [UInt32.toNat_add, first_toNat]
  simp [pushWindowFrames]
  omega

/-- The row of a frame in the window buffer. -/
def rowOf (r : EspNowPushReceiver) (f : RawFrame) : ℕ := (f.frameIdx - r.first).toNat

section Store

variable {f : RawFrame} (hge : ¬ f.frameIdx < r.first)
  (hlt : ¬ f.frameIdx ≥ r.first + pushWindowFrames)
include hge hlt

/-- A frame of the current window has a row. -/
theorem rowOf_lt : r.rowOf f < 16 := by
  have hle := UInt32.not_lt.1 hge
  have hle' := UInt32.le_iff_toNat_le.1 hle
  have hlt' := UInt32.lt_iff_toNat_lt.1 (UInt32.not_le.1 hlt)
  rw [window_end_toNat] at hlt'
  rw [first_toNat] at hle'
  rw [rowOf, UInt32.toNat_sub_of_le _ _ hle, first_toNat]
  omega

omit hge hlt in
theorem first_add_rowOf : r.first + UInt32.ofNat (r.rowOf f) = f.frameIdx := by
  rw [rowOf, UInt32.ofNat_toNat, UInt32.add_comm, UInt32.sub_add_cancel]

theorem bit_stored (i : ℕ) :
    bit (r.stored f).haveMask i = true ↔ bit r.haveMask i = true ∨ i = r.rowOf f := by
  have hrow : (f.frameIdx - r.first).toNat < 16 := rowOf_lt hge hlt
  rw [stored_haveMask, bit_or, bit_one_shiftLeft (by omega), Bool.or_eq_true, decide_eq_true_iff,
    rowOf, eq_comm (a := i)]

theorem stored_row_of_ne {i : ℕ} (hi : i < 16) (hne : i ≠ r.rowOf f) :
    (r.stored f).row i = r.row i := by
  have hrow : r.rowOf f < 16 := rowOf_lt hge hlt
  have hfin : Fin.ofNat 16 i ≠ Fin.ofNat 16 (f.frameIdx - r.first).toNat := by
    intro heq
    have hval := congrArg Fin.val heq
    simp only [Fin.val_ofNat, Nat.mod_eq_of_lt hi] at hval
    rw [rowOf] at hrow hne
    rw [Nat.mod_eq_of_lt hrow] at hval
    exact hne hval
  exact Function.update_of_ne hfin _ _

omit hge hlt in
theorem stored_row_self : (r.stored f).row (r.rowOf f) = (r.row (r.rowOf f)).memcpy f.data :=
  Function.update_self _ _ _

end Store

/-! ### Runs -/

section Invariant

variable {P : EspNowPushReceiver → Prop}

theorem loop_invariant (hstep : ∀ {r ev r'}, Rule plat r ev r' → P r → P r') (h : P r) :
    P (r.loop plat) := by
  have hdrain : ∀ k r, P r → P (r.drainAll plat k) := by
    intro k
    induction k with
    | zero => exact fun r h => h
    | succ k ih => exact fun r h => ih _ (hstep (drain_rule plat r) h)
  exact hstep (tail_rule plat _) (hdrain _ r h)

/-- What every rule preserves holds all through a run. -/
theorem run_invariant (hstep : ∀ {r ev r'}, Rule plat r ev r' → P r → P r') (h : P r)
    (evs : List Event) : P (r.run plat evs) := by
  refine List.foldlRecOn evs _ h fun r h ev _ => ?_
  by_cases hev : ev = .loop
  · subst hev
    exact loop_invariant hstep h
  · exact hstep (step_rule plat r hev) h

end Invariant

/-- One pass of the draining loop takes one frame out. -/
theorem drain_queue (plat : Platform) {r : EspNowPushReceiver} (hst : r.state = .receiving) :
    (r.drain plat).queue.toList = r.queue.toList.tail := by
  have hrule := drain_rule plat r
  have hpop : ∀ {f q}, r.queue.pop = some (f, q) → q.toList = r.queue.toList.tail := by
    intro f q h
    rw [Ring.toList_of_pop_some h, List.tail_cons]
  generalize r.drain plat = r' at hrule
  cases hrule with
  | quiet h =>
    have hnil : r.queue.toList = [] := h.resolve_left (not_not.2 hst)
    rw [hnil, List.tail_nil]
  | stale f q _ h | reack f q _ h | future f q _ h | store f q _ h | complete f q _ h =>
    simpa using hpop h

/-- The draining loop of `loop` ends with an empty queue, or because the session
has ended. -/
theorem drainAll_empty (plat : Platform) {r : EspNowPushReceiver} {k : ℕ}
    (hk : r.queue.length ≤ k) :
    (r.drainAll plat k).state ≠ .receiving ∨ (r.drainAll plat k).queue.toList = [] := by
  induction k generalizing r with
  | zero =>
    right
    exact List.length_eq_zero_iff.1 (by rw [Ring.length_toList]; exact Nat.le_zero.1 hk)
  | succ k ih =>
    by_cases hst : r.state = .receiving
    · refine ih ?_
      rw [← Ring.length_toList, drain_queue plat hst, List.length_tail, Ring.length_toList]
      omega
    · have hidle : ∀ k, r.drainAll plat k = r := by
        intro k
        induction k with
        | zero => rfl
        | succ k ih =>
          rw [drainAll, drain, if_pos hst]
          exact ih
      rw [hidle]
      exact .inl hst

end Rule

end EspNowPushReceiver

end InfinitagNow
