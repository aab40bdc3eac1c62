/-
InfinitagNow/PushImage.lean

The device copies the image the box pushes.

Here the device is given the packets and frames of one image only, in any
order and any number of times (`Genuine`).  While a session runs, what is on
flash is the image up to the current window, and the rows marked in the mask
hold their frames (`Copies`).  `Serves.rule` is the step lemma; it also says
that FINAL_OK means a committed image and that nothing but a prefix of the image
is ever on flash.
-/
import InfinitagNow.PushReceiver

namespace InfinitagNow

open UpdateCall

namespace EspNowPushReceiver

variable {plat : Platform} {r : EspNowPushReceiver} {image : List UInt8} {box : Mac}

/-! ### A session of the image -/

/-- Frame `i` of the current window. -/
def frameNo (r : EspNowPushReceiver) (i : ℕ) : ℕ := r.window.toNat * 16 + i

/-- Row `i` holds its frame of the image. -/
def RowHolds (image : List UInt8) (r : EspNowPushReceiver) (i : ℕ) : Prop :=
  (r.row i).bytes.take (chunk 242 image (r.frameNo i)).length = chunk 242 image (r.frameNo i)

/-- The current window has a frame `i`. -/
def Needs (image : List UInt8) (r : EspNowPushReceiver) (i : ℕ) : Prop :=
  i < 16 ∧ r.frameNo i < frameCount image.length

/-- While a session runs, the windows done are on flash and the rows in the mask
are right. -/
structure Copies (box : Mac) (image : List UInt8) (r : EspNowPushReceiver) : Prop where
  le : image.length ≤ 2 ^ 24
  srcMac : r.srcMac = box
  begin : Announces image r.begin
  total : r.totalFrames.toNat = frameCount image.length
  window_le : r.window.toNat ≤ windowCount image.length
  session : session (updates r.trace) = some r.begin.size
  flashed : UpdateCall.flashed (updates r.trace) = image.take (3872 * r.window.toNat)
  done : r.bytesDone.toNat = min image.length (3872 * r.window.toNat)
  crc : r.crc = crc32 0 (image.take (3872 * r.window.toNat))
  row : ∀ i, bit r.haveMask i = true → r.Needs image i ∧ r.RowHolds image i

/-- Events that leave the window alone. -/
theorem Copies.of_eq (h : r.Copies box image) {r' : EspNowPushReceiver}
    (hupd : updates r'.trace = updates r.trace := by simp) (hmac : r'.srcMac = r.srcMac := by simp)
    (hbegin : r'.begin = r.begin := by simp) (htotal : r'.totalFrames = r.totalFrames := by simp)
    (hwindow : r'.window = r.window := by simp) (hdone : r'.bytesDone = r.bytesDone := by simp)
    (hcrc : r'.crc = r.crc := by simp) (hmask : r'.haveMask = r.haveMask := by simp)
    (hbuf : ∀ i, r'.winBuf i = r.winBuf i := by simp) : r'.Copies box image where
  le := h.le
  srcMac := by rw [hmac, h.srcMac]
  begin := by rw [hbegin]; exact h.begin
  total := by rw [htotal, h.total]
  window_le := by rw [hwindow]; exact h.window_le
  session := by rw [hupd, hbegin, h.session]
  flashed := by rw [hupd, hwindow, h.flashed]
  done := by rw [hdone, hwindow, h.done]
  crc := by rw [hcrc, hwindow, h.crc]
  row := by
    rw [hmask]
    simp only [Needs, RowHolds, EspNowPushReceiver.row, frameNo, hwindow, hbuf]
    exact h.row

section Ops

variable (h : r.Copies box image)
include h

theorem Copies.received (rx : RxPacket) : (r.received rx).Copies box image := h.of_eq

theorem Copies.touched (plat : Platform) : (r.touched plat).Copies box image := h.of_eq

theorem Copies.read : r.read.Copies box image := h.of_eq

theorem Copies.logRemain : r.logRemain.Copies box image := h.of_eq

theorem Copies.queue (q : Ring RawFrame 24) : { r with queue := q }.Copies box image :=
  h.of_eq rfl rfl rfl rfl rfl rfl rfl rfl fun _ => rfl

theorem Copies.reads (k : ℕ) : { r with reads := k }.Copies box image :=
  h.of_eq rfl rfl rfl rfl rfl rfl rfl rfl fun _ => rfl

theorem Copies.sendAck (plat : Platform) (w : UInt16) (m : UInt32) (s d : UInt8) :
    (r.sendAck plat w m s d).Copies box image := h.of_eq

/-- The window is done exactly when the image is. -/
theorem Copies.first_lt_iff :
    r.first < r.totalFrames ↔ r.window.toNat < windowCount image.length := by
  rw [UInt32.lt_iff_toNat_lt, first_toNat, h.total]
  unfold windowCount
  omega

/-- The bits expected are the frames the window has. -/
theorem Copies.bit_expect (hlt : r.window.toNat < windowCount image.length) (i : ℕ) :
    bit r.windowExpectMask i = true ↔ r.Needs image i := by
  rw [windowExpectMask, bit_frameMask (UInt32.le_of_lt (h.first_lt_iff.2 hlt)), h.total,
    first_toNat, decide_eq_true_iff]
  unfold Needs frameNo
  omega

/-- A mask is complete when it has every frame the window needs. -/
theorem Copies.full_iff (hlt : r.window.toNat < windowCount image.length) (m : UInt32) :
    m &&& r.windowExpectMask = r.windowExpectMask ↔ ∀ i, r.Needs image i → bit m i = true := by
  simp only [and_eq_iff, h.bit_expect hlt]

/-- After the last window the whole image is on flash. -/
theorem Copies.flashed_all (hge : ¬ r.first < r.totalFrames) :
    UpdateCall.flashed (updates r.trace) = image := by
  rw [h.first_lt_iff] at hge
  rw [h.flashed, List.take_of_length_le]
  unfold windowCount frameCount at hge
  omega

end Ops

/-! ### Storing -/

section Store

variable {f : RawFrame} (hge : ¬ f.frameIdx < r.first)
  (hlt : ¬ f.frameIdx ≥ r.first + pushWindowFrames)
include hge hlt

/-- The frame a row is for. -/
theorem frameNo_rowOf : r.frameNo (r.rowOf f) = f.frameIdx.toNat := by
  have hno := firstFrame_add_toNat r.window (rowOf_lt hge hlt)
  rw [frameNo, ← hno]
  exact congrArg UInt32.toNat first_add_rowOf

/-- Only a window of the image has frames of the image. -/
theorem window_lt_of_frame (hf : FrameOf image f.bytes) :
    r.window.toNat < windowCount image.length := by
  have hrow := rowOf_lt hge hlt
  have hno := frameNo_rowOf hge hlt
  obtain ⟨idx, hidx, hbytes⟩ := hf
  rw [RawFrame.frameIdx_of_bytes hbytes] at hno
  unfold frameNo at hno
  unfold windowCount
  omega

end Store

/-- A frame of the image goes to its row. -/
theorem Copies.stored {f : RawFrame} (h : r.Copies box image) (hge : ¬ f.frameIdx < r.first)
    (hlt : ¬ f.frameIdx ≥ r.first + pushWindowFrames) (hf : FrameOf image f.bytes) :
    (r.stored f).Copies box image := by
  have hrow := rowOf_lt hge hlt
  have hno := frameNo_rowOf hge hlt
  obtain ⟨idx, hidx, hbytes⟩ := hf
  have hfidx : f.frameIdx = idx := RawFrame.frameIdx_of_bytes hbytes
  have hdata : f.data = chunk 242 image idx.toNat := RawFrame.data_of_bytes hbytes
  refine ⟨h.le, h.srcMac, h.begin, h.total, h.window_le, h.session, h.flashed, h.done, h.crc, ?_⟩
  intro i hi
  by_cases hnew : i = r.rowOf f
  · subst hnew
    refine ⟨⟨hrow, ?_⟩, ?_⟩
    · show r.frameNo _ < _
      rw [hno, hfidx]
      exact hidx
    · show ((r.stored f).row _).bytes.take (chunk 242 image (r.frameNo _)).length =
        chunk 242 image (r.frameNo _)
      rw [stored_row_self, hno, hfidx, ← hdata]
      exact Row.take_memcpy _ f.length_data_le
  · obtain ⟨hneed, hold⟩ := h.row i (((bit_stored hge hlt i).1 hi).resolve_right hnew)
    refine ⟨hneed, ?_⟩
    show ((r.stored f).row i).bytes.take _ = _
    rw [stored_row_of_ne hge hlt hneed.1 hnew]
    exact hold

/-! ### Flashing -/

/-- What holds after `i` rows of a window have been written. -/
structure Copying (image : List UInt8) (r₀ : EspNowPushReceiver) (i : ℕ) (r : EspNowPushReceiver) :
    Prop where
  same : r = { r₀ with trace := r.trace, crc := r.crc, bytesDone := r.bytesDone }
  session : UpdateCall.session (updates r.trace) = some r₀.begin.size
  flashed : UpdateCall.flashed (updates r.trace) = image.take (242 * r₀.frameNo i)
  done : r.bytesDone.toNat = min image.length (242 * r₀.frameNo i)
  crc : r.crc = crc32 0 (image.take (242 * r₀.frameNo i))
  sends : sends r.trace = InfinitagNow.sends r₀.trace
  committed : committed (updates r.trace) = UpdateCall.committed (updates r₀.trace)

section Flash

variable {r₀ : EspNowPushReceiver} {i : ℕ}

theorem Copies.copying (h : r.Copies box image) : Copying image r 0 r := by
  have hmul : 242 * r.frameNo 0 = 3872 * r.window.toNat := by
    unfold frameNo
    omega
  exact ⟨rfl, h.session, by rw [hmul, h.flashed], by rw [hmul, h.done], by rw [hmul, h.crc],
    rfl, rfl⟩

/-- A row of the window is written with its frame of the image. -/
theorem Copying.rowData_eq (h₀ : r₀.Copies box image) (hfull : ∀ i, r₀.Needs image i →
    bit r₀.haveMask i = true) (hi : r₀.Needs image i) (h : Copying image r₀ i r) :
    r.rowData i = chunk 242 image (r₀.frameNo i) ∧
      (r.rowLen i).toNat = (chunk 242 image (r₀.frameNo i)).length := by
  have hno : (r₀.first + UInt32.ofNat i).toNat = r₀.frameNo i := firstFrame_add_toNat _ hi.1
  have hlen : (r.rowLen i).toNat = (chunk 242 image (r₀.frameNo i)).length := by
    have hlt : (r₀.first + UInt32.ofNat i).toNat < frameCount image.length := by
      rw [hno]
      exact hi.2
    have hchunk := length_chunk_frame h₀.begin.1 h₀.le hlt
    rw [hno] at hchunk
    rw [hchunk, h.same]
    rfl
  refine ⟨?_, hlen⟩
  have hrow : (r₀.row i).bytes.take (chunk 242 image (r₀.frameNo i)).length =
      chunk 242 image (r₀.frameNo i) := (h₀.row i (hfull i hi)).2
  rw [rowData, hlen, h.same]
  exact hrow

/-- The step lemma: a row was written. -/
theorem Copying.flashed_row (h₀ : r₀.Copies box image) (hfull : ∀ i, r₀.Needs image i →
    bit r₀.haveMask i = true) (hi : r₀.Needs image i) (h : Copying image r₀ i r) :
    Copying image r₀ (i + 1) (r.flashed i) := by
  obtain ⟨hdata, hlen⟩ := h.rowData_eq h₀ hfull hi
  have hle := h₀.le
  have hlt : 242 * r₀.frameNo i < image.length := by
    have := hi.2
    unfold frameCount at this
    omega
  have hchunk := length_chunk (k := 242) (l := image) (i := r₀.frameNo i)
  have htake : image.take (242 * r₀.frameNo (i + 1)) =
      image.take (242 * r₀.frameNo i) ++ chunk 242 image (r₀.frameNo i) := take_succ_chunk
  refine ⟨?_, ?_, ?_, ?_, ?_, ?_, ?_⟩
  · have hsame := h.same
    unfold EspNowPushReceiver.flashed
    rw [hsame]
  · simpa using h.session
  · simp [h.flashed, hdata, hlen, htake]
  · have hno : r₀.frameNo (i + 1) = r₀.frameNo i + 1 := rfl
    rw [flashed_bytesDone, UInt32.toNat_add, h.done, hlen, hchunk, hno]
    omega
  · rw [flashed_crc, h.crc, hdata, crc32_append, htake]
  · simpa using h.sends
  · simpa using h.committed

/-- Whatever a write accepts of its row, a prefix of the image is on flash. -/
theorem Copying.prefix_write (h₀ : r₀.Copies box image) (hfull : ∀ i, r₀.Needs image i →
    bit r₀.haveMask i = true) (hi : r₀.Needs image i) (h : Copying image r₀ i r) (n ret : UInt32) :
    UpdateCall.flashed (.write (r.rowData i) n ret :: updates r.trace) <+: image := by
  obtain ⟨hdata, -⟩ := h.rowData_eq h₀ hfull hi
  rw [flashed_write, h.flashed, hdata]
  refine List.IsPrefix.trans ?_ (List.take_prefix (242 * (r₀.frameNo i + 1)) image)
  rw [take_succ_chunk, List.prefix_append_right_inj]
  exact List.take_prefix _ _

end Flash

/-- A failure: a prefix of the image is on flash, and the box is told. -/
structure Failed (image : List UInt8) (r r' : EspNowPushReceiver) : Prop where
  state : r'.state = .failed
  queue : r'.queue = r.queue
  flashed : UpdateCall.flashed (updates r.trace) <+: image →
    UpdateCall.flashed (updates r'.trace) <+: image
  committed : committed (updates r'.trace) = UpdateCall.committed (updates r.trace)
  sends : ∃ mac a, a.status ≠ pushAckFinalOk ∧
    sends r'.trace = InfinitagNow.sends r.trace ++ [(mac, ackPacket a), (mac, ackPacket a)]

theorem failed_fail {r₁ : EspNowPushReceiver} (plat : Platform) {status : UInt8}
    (hstatus : status ≠ pushAckFinalOk) (hqueue : r₁.queue = r.queue)
    (hflashed : UpdateCall.flashed (updates r.trace) <+: image →
      UpdateCall.flashed (updates r₁.trace) <+: image)
    (hcommitted : committed (updates r₁.trace) = UpdateCall.committed (updates r.trace))
    (hsends : sends r₁.trace = InfinitagNow.sends r.trace) :
    Failed image r (r₁.fail plat status) := by
  refine ⟨rfl, by simpa using hqueue, by simpa using hflashed, by simpa using hcommitted,
    r₁.srcMac, ⟨0xFFFF, 0, status, plat.getError (updates r₁.trace)⟩, hstatus, ?_⟩
  simp [hsends]

/-- A window was written: the next one begins, and the box is told twice. -/
structure NextWindow (box : Mac) (image : List UInt8) (r r' : EspNowPushReceiver) : Prop where
  copies : r'.Copies box image
  state : r'.state = .receiving
  window : r'.window.toNat = r.window.toNat + 1
  haveMask : r'.haveMask = 0
  queue : r'.queue = r.queue
  flashed : UpdateCall.flashed (updates r'.trace) <+: image
  committed : committed (updates r'.trace) = UpdateCall.committed (updates r.trace)
  sends : sends r'.trace = InfinitagNow.sends r.trace ++
    [(box, ackPacket ⟨r.window, 0, pushAckWindow, 0⟩),
      (box, ackPacket ⟨r.window, 0, pushAckWindow, 0⟩)]

/-- A write that should have succeeded did not. -/
def WriteFails (plat : Platform) : Prop :=
  ∃ log size data n, session log = some size ∧
    (UpdateCall.flashed log).length + n.toNat ≤ size.toNat ∧ plat.write log data n ≠ n

/-- A complete window is written, or a write fails. -/
theorem Copies.finishWindow (h : r.Copies box image) (plat : Platform)
    (hst : r.state = .receiving) (hlt : r.window.toNat < windowCount image.length)
    (hfull : ∀ i, r.Needs image i → bit r.haveMask i = true) :
    NextWindow box image r (r.finishWindow plat) ∨
      Failed image r (r.finishWindow plat) ∧ WriteFails plat := by
  have hle := h.le
  have hremain : r.remain.toNat = min 16 (frameCount image.length - r.window.toNat * 16) := by
    rw [remain, framesLeft_toNat (UInt32.le_of_lt (h.first_lt_iff.2 hlt)), h.total, first_toNat]
  have hneeds : ∀ j < r.remain.toNat, r.Needs image j := by
    intro j hj
    unfold Needs frameNo
    omega
  have h₀ : r.logRemain.Copies box image := h.logRemain
  have hneeds' : ∀ j < r.remain.toNat, r.logRemain.Needs image j := hneeds
  rcases finishWindow_cases plat (r := r) (P := Copying image r.logRemain)
      (fun hj hP _ => hP.flashed_row h₀ hfull (hneeds' _ hj)) h₀.copying with
    ⟨r₁, hP, heq⟩ | ⟨j, r₁, hj, hP, hne, heq⟩
  · -- all rows are on flash
    left
    have hwin : r₁.window = r.window := by rw [hP.same]; rfl
    have hnext : (r.window + 1).toNat = r.window.toNat + 1 := window_succ_toNat hle hlt
    have hnext' : (r₁.nextWindow plat).window.toNat = r.window.toNat + 1 := by
      simpa [hwin] using hnext
    have hmin : min (242 * r.logRemain.frameNo r.remain.toNat) image.length =
        min (3872 * (r.window.toNat + 1)) image.length := by
      show min (242 * (r.window.toNat * 16 + r.remain.toNat)) image.length = _
      rw [hremain]
      unfold frameCount
      omega
    have htake : image.take (242 * r.logRemain.frameNo r.remain.toNat) =
        image.take (3872 * (r.window.toNat + 1)) := List.take_eq_take_iff.2 hmin
    have hflashed : UpdateCall.flashed (updates (r₁.nextWindow plat).trace) =
        image.take (3872 * (r.window.toNat + 1)) := by
      simpa [htake] using hP.flashed
    rw [heq]
    refine ⟨⟨hle, ?_, ?_, ?_, ?_, ?_, ?_, ?_, ?_, ?_⟩, ?_, hnext', by simp, ?_, ?_, ?_, ?_⟩
    · rw [hP.same]
      simpa using h.srcMac
    · rw [hP.same]
      simpa using h.begin
    · rw [hP.same]
      simpa using h.total
    · rw [hnext']
      exact hlt
    · rw [hP.same]
      simpa using hP.session
    · rw [hnext', hflashed]
    · rw [hnext', Nat.min_comm, ← hmin, Nat.min_comm]
      simpa using hP.done
    · rw [hnext', ← htake]
      simpa using hP.crc
    · simp
    · rw [hP.same]
      simpa using hst
    · rw [hP.same]
      simp
    · rw [hflashed]
      exact List.take_prefix _ _
    · simpa using hP.committed
    · have hmac : r₁.srcMac = box := by
        rw [hP.same]
        exact h.srcMac
      simp [hP.sends, hwin, hmac]
  · -- the library refused row `j`, which would have fitted
    right
    rw [heq]
    refine ⟨failed_fail plat (by decide) ?_ (fun _ => ?_) ?_ ?_, ?_⟩
    · rw [hP.same]
      simp
    · simpa using hP.prefix_write h₀ hfull (hneeds' j hj) (r₁.rowLen j) _
    · simpa using hP.committed
    · simpa using hP.sends
    · refine ⟨updates r₁.trace, r.begin.size, r₁.rowData j, r₁.rowLen j, hP.session, ?_, hne⟩
      have hlen := (hP.rowData_eq h₀ hfull (hneeds' j hj)).2
      rw [hP.flashed, hlen, length_chunk, List.length_take, h.begin.1]
      omega

/-! ### All events -/

/-- An event the box causes while it pushes the image. -/
def Genuine (box : Mac) (image : List UInt8) : Event → Prop
  | .control rx => rx.mac = box ∧
      (rx.pkt.msgType = msgPushBegin → Announces image (decodePushBegin rx.pkt.payload))
  | .raw _ data => image.length ≤ 2 ^ 24 → FrameOf image data
  | _ => True

/-- The library opens a session for the image only if it fits the slot. -/
def Fits (plat : Platform) (image : List UInt8) : Prop :=
  ∀ log size, size.toNat = image.length → plat.toUpdateLib.begin log size = true →
    image.length ≤ 2 ^ 24

/-- The invariant: frames of the image wait in the queue, a running session
copies it, and of a window not done some frame is missing. -/
structure Serves (box : Mac) (image : List UInt8) (r : EspNowPushReceiver) : Prop where
  queue : ∀ f ∈ r.queue.toList, FrameOf image f.bytes
  copies : r.state = .receiving → r.Copies box image
  missing : r.state = .receiving → r.window.toNat < windowCount image.length →
    ∃ i, r.Needs image i ∧ bit r.haveMask i = false

/-- What an event does to the rest: FINAL_OK is sent for the image on flash
only, and a committed image stays committed. -/
structure Kept (image : List UInt8) (r r' : EspNowPushReceiver) : Prop where
  sends : ∃ new, sends r'.trace = InfinitagNow.sends r.trace ++ new ∧
    ∀ x ∈ new, FinalOk x.2 → committed (updates r'.trace) = some image
  committed : UpdateCall.committed (updates r.trace) = some image →
    committed (updates r'.trace) = some image
  flashed : UpdateCall.flashed (updates r.trace) <+: image →
    UpdateCall.flashed (updates r'.trace) <+: image

section Kept

variable {r' : EspNowPushReceiver}

theorem Kept.of_updates (new : List (Mac × Packet)) (hupd : updates r'.trace = updates r.trace)
    (hsends : InfinitagNow.sends r'.trace = InfinitagNow.sends r.trace ++ new)
    (hnew : ∀ x ∈ new, ¬ FinalOk x.2) : Kept image r r' :=
  ⟨⟨new, hsends, fun x hx hok => absurd hok (hnew x hx)⟩, by rw [hupd]; exact id,
    by rw [hupd]; exact id⟩

theorem Kept.of_same {r₁ : EspNowPushReceiver} (h : Kept image r₁ r')
    (hupd : updates r₁.trace = updates r.trace)
    (hsends : InfinitagNow.sends r₁.trace = InfinitagNow.sends r.trace) : Kept image r r' :=
  ⟨by rw [← hsends]; exact h.sends, by rw [← hupd]; exact h.committed,
    by rw [← hupd]; exact h.flashed⟩

theorem Failed.kept (h : Failed image r r') : Kept image r r' := by
  obtain ⟨mac, a, hstatus, hsends⟩ := h.sends
  refine ⟨⟨_, hsends, ?_⟩, by rw [h.committed]; exact id, h.flashed⟩
  intro x hx hok
  have hx' : x.2 = ackPacket a := by
    rcases List.mem_pair.1 hx with rfl | rfl <;> rfl
  rw [hx'] at hok
  exact absurd hok (not_finalOk_ack hstatus)

theorem Failed.serves (h : Failed image r r')
    (hqueue : ∀ f ∈ r.queue.toList, FrameOf image f.bytes) : r'.Serves box image :=
  ⟨by rw [h.queue]; exact hqueue, fun hst => by simp [h.state] at hst,
    fun hst => by simp [h.state] at hst⟩

/-- Nothing but acks is sent, and none of them says FINAL_OK. -/
theorem Kept.of_ack (mac : Mac) (a : PushAck) (hstatus : a.status ≠ pushAckFinalOk)
    (hupd : updates r'.trace = updates r.trace)
    (hsends : InfinitagNow.sends r'.trace = InfinitagNow.sends r.trace ++ [(mac, ackPacket a)]) :
    Kept image r r' := by
  refine .of_updates _ hupd hsends fun x hx => ?_
  rw [List.mem_singleton.1 hx]
  exact not_finalOk_ack hstatus

theorem NextWindow.kept (h : NextWindow box image r r') : Kept image r r' := by
  refine ⟨⟨_, h.sends, ?_⟩, by rw [h.committed]; exact id, fun _ => h.flashed⟩
  intro x hx hok
  have hx' : x.2 = ackPacket ⟨r.window, 0, pushAckWindow, 0⟩ := by
    rcases List.mem_pair.1 hx with rfl | rfl <;> rfl
  rw [hx'] at hok
  exact absurd hok (not_finalOk_ack (show pushAckWindow ≠ pushAckFinalOk by decide))

/-- Of a window that just began everything is missing. -/
theorem missing_of_mask (hmask : r.haveMask = 0) (hlt : r.window.toNat < windowCount image.length) :
    ∃ i, r.Needs image i ∧ bit r.haveMask i = false := by
  refine ⟨0, ?_, by rw [hmask, bit_zero]⟩
  unfold windowCount at hlt
  unfold Needs frameNo
  omega

theorem NextWindow.serves (h : NextWindow box image r r')
    (hqueue : ∀ f ∈ r.queue.toList, FrameOf image f.bytes) : r'.Serves box image :=
  ⟨by rw [h.queue]; exact hqueue, fun _ => h.copies, fun _ => missing_of_mask h.haveMask⟩

/-- Events that leave the window alone. -/
theorem Serves.of_eq (h : r.Serves box image)
    (hcopies : r'.state = .receiving →
      r.state = .receiving ∧ (r.Copies box image → r'.Copies box image))
    (hqueue : ∀ f ∈ r'.queue.toList, f ∈ r.queue.toList := by simp)
    (hwindow : r'.window = r.window := by simp) (hmask : r'.haveMask = r.haveMask := by simp) :
    r'.Serves box image := by
  refine ⟨fun f hf => h.queue f (hqueue f hf), fun hst => ?_, fun hst hlt => ?_⟩
  · exact (hcopies hst).2 (h.copies (hcopies hst).1)
  · rw [hwindow] at hlt
    simpa only [Needs, frameNo, hwindow, hmask] using h.missing (hcopies hst).1 hlt

/-- Events that end the session with an error. -/
theorem Serves.failed (h : r.Serves box image) (hfail : Failed image r r') :
    r'.Serves box image ∧ Kept image r r' :=
  ⟨hfail.serves h.queue, hfail.kept⟩

/-- The step lemma of the invariant. -/
theorem Serves.rule {ev : Event} (hfits : Fits plat image) (hrule : Rule plat r ev r')
    (hev : Genuine box image ev) (h : r.Serves box image) :
    r'.Serves box image ∧ Kept image r r' := by
  have hpopq : ∀ {f q}, r.queue.pop = some (f, q) → ∀ g ∈ q.toList, g ∈ r.queue.toList := by
    intro f q hpop g hg
    rw [Ring.toList_of_pop_some hpop]
    exact List.mem_cons_of_mem _ hg
  have hpopf : ∀ {f q}, r.queue.pop = some (f, q) → FrameOf image f.bytes := by
    intro f q hpop
    refine h.queue f ?_
    rw [Ring.toList_of_pop_some hpop]
    exact List.mem_cons_self
  have hwindow : pushAckWindow ≠ pushAckFinalOk := by decide
  cases hrule with
  | ignore rx =>
    exact ⟨h.of_eq (by simpa using fun hst => ⟨hst, fun hc => hc.received rx⟩),
      .of_updates [] (by simp) (by simp) (by simp)⟩
  | busy rx hbegin hst hmac =>
    exact ⟨h.of_eq fun _ => ⟨hst, fun hc => hc.of_eq⟩,
      .of_ack rx.mac { window := 0xFFFF, status := pushAckBusy } (by decide) (by simp) (by simp)⟩
  | duplicate rx =>
    exact ⟨h.of_eq (by simpa using fun hst => ⟨hst, fun hc => (hc.received rx).touched plat⟩),
      .of_updates [] (by simp) (by simp) (by simp)⟩
  | refuseEmpty rx =>
    exact h.failed (failed_fail plat (by decide) (by simp) (by simp) (by simp) (by simp))
  | refuse rx =>
    exact h.failed (failed_fail plat (by decide) (by simp) (by simp) (by simp) (by simp))
  | accept rx hbegin hst hsize hok =>
    obtain ⟨hmac, hann⟩ := hev
    have hle := hfits _ _ (hann hbegin).1 hok
    have hsize : (decodePushBegin rx.pkt.payload).size.toNat ≤ 2 ^ 24 := by
      rw [(hann hbegin).1]
      exact hle
    have htotal := totalFramesOf_toNat hsize
    rw [(hann hbegin).1] at htotal
    have hcopies : (((r.beginning rx).log (.update (.begin (decodePushBegin rx.pkt.payload).size
        true))).openSession.touched plat).Copies box image := by
      refine ⟨hle, by simpa using hmac, by simpa using hann hbegin, by simpa using htotal, by simp,
        by simp, by simp, by simp, by simp, by simp⟩
    refine ⟨⟨by simpa using h.queue, fun _ => hcopies, fun _ => missing_of_mask (by simp)⟩,
      ⟨[], by simp⟩, by simp, by simp⟩
  | endEarly rx _ hst =>
    exact ⟨h.of_eq fun _ => ⟨hst, fun hc =>
      ((hc.received rx).touched plat).logRemain.sendAck plat _ _ _ _⟩,
      .of_ack r.srcMac ⟨r.window, r.windowExpectMask &&& ~~~r.haveMask, pushAckWindow, 0⟩ hwindow
        (by simp) (by simp)⟩
  | endMismatch rx =>
    exact h.failed (failed_fail plat (by decide) (by simp) (by simp) (by simp) (by simp))
  | endFlash rx =>
    exact h.failed (failed_fail plat (by decide) (by simp) (by simp) (by simp) (by simp))
  | commit rx hend hst hmac hge =>
    have hall := (h.copies hst).flashed_all hge
    refine ⟨⟨by simpa using h.queue, by simp, by simp⟩,
      ⟨List.replicate 2 (r.srcMac, ackPacket ⟨0xFFFF, 0, pushAckFinalOk, 0⟩), ?_, ?_⟩, ?_, ?_⟩
    · simp
    · simp [hall]
    · simp [hall]
    · simp
  | drop => exact ⟨h, .of_updates [] rfl (by simp) (by simp)⟩
  | enqueue mac data f hst hmac hframe =>
    refine ⟨⟨?_, fun _ => (h.copies hst).queue _, h.missing⟩,
      .of_updates [] rfl (by simp) (by simp)⟩
    intro g hg
    rcases Ring.mem_toList_push hg with hg | rfl
    · exact h.queue g hg
    · rw [hframe]
      exact hev (h.copies hst).le
  | quiet => exact ⟨h, .of_updates [] rfl (by simp) (by simp)⟩
  | stale f q hst hpop =>
    exact ⟨h.of_eq (fun _ => ⟨hst, fun hc => ((hc.queue q).touched plat).read⟩)
      (by simpa using hpopq hpop), .of_updates [] (by simp) (by simp) (by simp)⟩
  | reack f q hst hpop =>
    exact ⟨h.of_eq
      (fun _ => ⟨hst, fun hc => ((hc.queue q).touched plat).read.sendAck plat _ _ _ _⟩)
      (by simpa using hpopq hpop),
      .of_ack r.srcMac ⟨(f.frameIdx / pushWindowFrames).toUInt16, 0, pushAckWindow, 0⟩ hwindow
        (by simp) (by simp)⟩
  | future f q hst hpop =>
    exact ⟨h.of_eq (fun _ => ⟨hst, fun hc => (hc.queue q).touched plat⟩)
      (by simpa using hpopq hpop), .of_updates [] (by simp) (by simp) (by simp)⟩
  | store f q hst hpop hge hlt hmask =>
    have hc : ({ r with queue := q }.touched plat).Copies box image :=
      ((h.copies hst).queue q).touched plat
    refine ⟨⟨by simpa using fun g hg => h.queue g (hpopq hpop g hg),
      fun _ => (hc.stored hge hlt (hpopf hpop)).logRemain, fun _ hwin => ?_⟩,
      .of_updates [] (by simp) (by simp) (by simp)⟩
    -- the window is not complete: a frame of it is missing
    rw [(h.copies hst).full_iff hwin] at hmask
    push Not at hmask
    obtain ⟨i, hi, hbit⟩ := hmask
    exact ⟨i, hi, Bool.eq_false_iff.2 hbit⟩
  | complete f q hst hpop hge hlt hmask =>
    have hc : ({ r with queue := q }.touched plat).Copies box image :=
      ((h.copies hst).queue q).touched plat
    have hc' := (hc.stored hge hlt (hpopf hpop)).logRemain
    have hwin := window_lt_of_frame hge hlt (hpopf hpop)
    have hfull := ((h.copies hst).full_iff hwin _).1 hmask
    have hqueue : ∀ g ∈ q.toList, FrameOf image g.bytes := fun g hg => h.queue g (hpopq hpop g hg)
    rcases hc'.finishWindow plat hst hwin hfull with hnext | ⟨hfail, -⟩
    · exact ⟨hnext.serves (by simpa using hqueue), hnext.kept.of_same (by simp) (by simp)⟩
    · exact ⟨hfail.serves (by simpa using hqueue), hfail.kept.of_same (by simp) (by simp)⟩
  | calm k =>
    exact ⟨h.of_eq fun hst => ⟨hst, fun hc => hc.reads _⟩, .of_updates [] (by simp)
      (by simp) (by simp)⟩
  | periodic k hst =>
    exact ⟨h.of_eq fun _ => ⟨hst, fun hc => (hc.reads _).logRemain.sendAck plat _ _ _ _⟩,
      .of_ack r.srcMac ⟨r.window, r.windowExpectMask &&& ~~~r.haveMask, pushAckWindow, 0⟩ hwindow
        (by simp) (by simp)⟩

end Kept

end EspNowPushReceiver

end InfinitagNow
