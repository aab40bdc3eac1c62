/-
InfinitagNow/PushCalls.lean

The device uses the `Update` library one session at a time, frame by frame.

`PushSession` says which calls the device makes between two sessions: a begin
that is refused, or the frames of the announced image in order, each in full,
and then an end or an abort.  `Ongoing` counts the frames written in the
session that runs.  A window is written from its first frame on; the frame
number behind the last one cannot come, since the library would have to take
bytes it has no room for (`frame_lt`).
-/
import InfinitagNow.PushCommit
import InfinitagNow.UploadTruth

namespace InfinitagNow

open UpdateCall

/-! ### Sessions -/

/-- The first frames of an image of `size` bytes, by their lengths. -/
def Cut (size : ℕ) (rows : List (List UInt8)) : Prop :=
  rows.map List.length = (List.range rows.length).map fun i => min 242 (size - i * 242)

theorem cut_nil (size : ℕ) : Cut size [] := rfl

/-- One more frame. -/
theorem Cut.concat {size : ℕ} {rows : List (List UInt8)} (h : Cut size rows) {row : List UInt8}
    (hrow : row.length = min 242 (size - rows.length * 242)) : Cut size (rows ++ [row]) := by
  unfold Cut at h ⊢
  rw [List.map_append, h, List.length_append, List.length_singleton, List.range_succ,
    List.map_append, List.map_singleton, List.map_singleton, hrow]

/-- The calls of a session that runs, oldest first. -/
def openCalls (size : UInt32) (rows : List (List UInt8)) : List UpdateCall :=
  .begin size true :: rows.map wholeWrite

/-- The calls of a session that is over, oldest first. -/
inductive PushSession : List UpdateCall → Prop
  /-- An image of size 0 is not begun. -/
  | empty : PushSession [.abort]
  | refused (size : UInt32) : PushSession [.begin size false, .abort]
  | committed (size : UInt32) (rows : List (List UInt8)) (hcut : Cut size.toNat rows)
      (hall : rows.length = frameCount size.toNat) :
      PushSession (openCalls size rows ++ [.end_ true])
  | rejected (size : UInt32) (rows : List (List UInt8)) (hcut : Cut size.toNat rows)
      (hall : rows.length = frameCount size.toNat) :
      PushSession (openCalls size rows ++ [.end_ false, .abort])
  /-- Size or CRC is not the announced one. -/
  | mismatch (size : UInt32) (rows : List (List UInt8)) (hcut : Cut size.toNat rows)
      (hall : rows.length = frameCount size.toNat) :
      PushSession (openCalls size rows ++ [.abort])
  /-- A row was not written in full. -/
  | broken (size : UInt32) (rows : List (List UInt8)) (data : List UInt8) (n ret : UInt32)
      (hcut : Cut size.toNat rows) (hret : ret ≠ n) :
      PushSession (openCalls size rows ++ [.write data n ret, .abort])

namespace EspNowPushReceiver

variable {plat : Platform} {r r' : EspNowPushReceiver}

/-! ### The running session -/

/-- In the session that runs the first `k` frames are written; `before` are the
calls of the sessions before it. -/
structure Ongoing (before : List UpdateCall) (k : ℕ) (r : EspNowPushReceiver) : Prop where
  live : r.Live
  receiving : r.state = .receiving
  size_le : r.begin.size.toNat ≤ 2 ^ 24
  total : r.totalFrames.toNat = frameCount r.begin.size.toNat
  calls : ∃ rows, Cut r.begin.size.toNat rows ∧ rows.length = k ∧
    (updates r.trace).reverse = before ++ openCalls r.begin.size rows

variable {before : List UpdateCall} {k : ℕ}

theorem Ongoing.of_eq (h : r.Ongoing before k) (hlive : r'.Live)
    (hst : r'.state = r.state := by simp) (hbegin : r'.begin = r.begin := by simp)
    (htotal : r'.totalFrames = r.totalFrames := by simp)
    (hupd : updates r'.trace = updates r.trace := by simp) : r'.Ongoing before k :=
  ⟨hlive, hst.trans h.receiving, by rw [hbegin]; exact h.size_le,
    by rw [htotal, hbegin]; exact h.total, by rw [hupd, hbegin]; exact h.calls⟩

theorem Ongoing.frames_le (h : r.Ongoing before k) : r.totalFrames.toNat ≤ 2 ^ 17 := by
  have hsize := h.size_le
  rw [h.total]
  unfold frameCount
  omega

/-- Only a frame of the image is written in full. -/
theorem frame_lt (hlaw : plat.Lawful) (h : r.Ongoing before k) {j : ℕ} (hj : j < r.remain.toNat)
    (hw : plat.write (updates r.trace) (r.rowData j) (r.rowLen j) = r.rowLen j) :
    r.first.toNat + j < r.totalFrames.toNat := by
  have hj16 : j < 16 := lt_of_lt_of_le hj (framesLeft_le _ _)
  have hwindow := r.window.toNat_lt
  have hidx : (r.first + UInt32.ofNat j).toNat = r.first.toNat + j := by
    rw [first, firstFrame_add_toNat _ hj16, firstFrame_toNat]
  by_cases hle : r.first ≤ r.totalFrames
  · rw [remain, framesLeft_toNat hle] at hj
    omega
  · -- behind the image: the library would have to take more than was announced
    exfalso
    have hsize : (r.rowLen j).toNat ≤ r.begin.size.toNat := by
      rcases Nat.eq_zero_or_pos (r.rowLen j).toNat with h0 | hpos
      · omega
      · have hfit := hlaw.write_fits _ _ _ _ h.live.session (UInt32.lt_iff_toNat_lt.2 hpos) hw
        omega
    have hfirst := first_toNat r
    have hstart : (r.first + UInt32.ofNat j).toNat * 242 ≤ r.begin.size.toNat :=
      le_of_frameLen_le (by omega) hsize
    have hgt := UInt32.lt_iff_toNat_lt.1 (UInt32.not_le.1 hle)
    have htotal := h.total
    unfold frameCount at htotal
    omega

/-- A row that is written is the next frame. -/
theorem Ongoing.flashed (hlaw : plat.Lawful) {j : ℕ} (h : r.Ongoing before (r.first.toNat + j))
    (hj : j < r.remain.toNat)
    (hw : plat.write (updates r.trace) (r.rowData j) (r.rowLen j) = r.rowLen j) :
    (r.flashed j).Ongoing before (r.first.toNat + (j + 1)) := by
  have hj16 : j < 16 := lt_of_lt_of_le hj (framesLeft_le _ _)
  have hlt := frame_lt hlaw h hj hw
  have hframes := h.frames_le
  have hlen := (length_rowData hlaw h.live hj16 hw).1
  have hidx : (r.first + UInt32.ofNat j).toNat = r.first.toNat + j := by
    rw [first, firstFrame_add_toNat _ hj16, firstFrame_toNat]
  have hstart : (r.first + UInt32.ofNat j).toNat * 242 ≤ r.begin.size.toNat := by
    have htotal := h.total
    unfold frameCount at htotal
    omega
  have hrow : (r.rowLen j).toNat =
      min 242 (r.begin.size.toNat - (r.first.toNat + j) * 242) := by
    rw [rowLen, frameLen_of_le (by omega) hstart, hidx]
  obtain ⟨rows, hcut, hcount, hcalls⟩ := h.calls
  refine ⟨h.live.flashed hlaw hj16 hw, h.receiving, h.size_le, h.total,
    rows ++ [r.rowData j], ?_, ?_, ?_⟩
  · exact hcut.concat (by rw [hlen, hrow, hcount])
  · rw [List.length_append, hcount, List.length_singleton, Nat.add_assoc]
  · have hwhole : UpdateCall.write (r.rowData j) (r.rowLen j) (r.rowLen j) =
        wholeWrite (r.rowData j) := by
      rw [wholeWrite, hlen, UInt32.ofNat_toNat]
    rw [flashed_trace, updates_update, List.reverse_cons, hcalls, hwhole]
    simp [openCalls]

/-! ### Between two events -/

/-- All windows before the current one are written, and none behind the first
that is empty is turned to. -/
structure Between (before : List UpdateCall) (r : EspNowPushReceiver) : Prop where
  ongoing : r.Ongoing before (min r.totalFrames.toNat r.first.toNat)
  window_le : r.window.toNat ≤ r.totalFrames.toNat / 16 + 1

theorem Between.of_eq (h : r.Between before) (hlive : r'.Live)
    (hst : r'.state = r.state := by simp) (hbegin : r'.begin = r.begin := by simp)
    (htotal : r'.totalFrames = r.totalFrames := by simp)
    (hwindow : r'.window = r.window := by simp)
    (hupd : updates r'.trace = updates r.trace := by simp) : r'.Between before := by
  have hfirst : r'.first = r.first := by rw [first, first, hwindow]
  refine ⟨?_, by rw [hwindow, htotal]; exact h.window_le⟩
  rw [htotal, hfirst]
  exact h.ongoing.of_eq hlive hst hbegin htotal hupd

/-- A session that is over comes behind the sessions before it. -/
def Closed (before : List UpdateCall) (r : EspNowPushReceiver) : Prop :=
  ∃ calls, PushSession calls ∧ (updates r.trace).reverse = before ++ calls

/-- The window behind the image asks for a whole window of rows. -/
theorem remain_of_gt (h : r.Between before) (hgt : ¬ r.first ≤ r.totalFrames) :
    r.remain.toNat = 16 := by
  have hgt' := UInt32.lt_iff_toNat_lt.1 (UInt32.not_le.1 hgt)
  have hframes := h.ongoing.frames_le
  have hfirst := first_toNat r
  have hwindow := h.window_le
  have hsub : (r.totalFrames - r.first).toNat > 16 := by
    rw [UInt32.toNat_sub]
    have := r.first.toNat_lt
    omega
  have hif : (r.totalFrames - r.first) > pushWindowFrames := UInt32.lt_iff_toNat_lt.2 hsub
  rw [remain, framesLeft, if_pos hif]
  rfl

/-- The rows of a window, written while the window stays. -/
structure Flashes (before : List UpdateCall) (r₀ : EspNowPushReceiver) (j : ℕ)
    (r : EspNowPushReceiver) : Prop where
  window : r.window = r₀.window
  total : r.totalFrames = r₀.totalFrames
  none : ¬ r₀.first ≤ r₀.totalFrames → j = 0
  ongoing : r.Ongoing before (min r.totalFrames.toNat r.first.toNat + j)

theorem Flashes.flashed (hlaw : plat.Lawful) {r₀ : EspNowPushReceiver} {j : ℕ}
    (h : r₀.Flashes before j r) (hj : j < r₀.remain.toNat)
    (hw : plat.write (updates r.trace) (r.rowData j) (r.rowLen j) = r.rowLen j) :
    r₀.Flashes before (j + 1) (r.flashed j) := by
  have hfirst : r.first = r₀.first := by rw [first, first, h.window]
  have hremain : r.remain = r₀.remain := by rw [remain, remain, h.total, hfirst]
  have hlt := frame_lt hlaw h.ongoing (hremain ▸ hj) hw
  have hle : r.first ≤ r.totalFrames := UInt32.le_iff_toNat_le.2 (by omega)
  have hmin : min r.totalFrames.toNat r.first.toNat = r.first.toNat := by omega
  have hongoing := h.ongoing
  rw [hmin] at hongoing
  refine ⟨h.window, h.total, fun hgt => absurd ?_ hgt, ?_⟩
  · rwa [← hfirst, ← h.total]
  · show (r.flashed j).Ongoing before (min r.totalFrames.toNat r.first.toNat + (j + 1))
    rw [hmin]
    exact hongoing.flashed hlaw (hremain ▸ hj) hw

/-- A full window is written, or the session is over at the first row that is
not. -/
theorem Between.finishWindow (hlaw : plat.Lawful) (h : r.Between before) :
    (r.finishWindow plat).Between before ∨
      (r.finishWindow plat).state = .failed ∧ (r.finishWindow plat).Closed before := by
  have hbound := h.window_le
  have hframes := h.ongoing.frames_le
  have hfirst := first_toNat r
  rcases finishWindow_cases plat (r := r) (P := fun j r₁ => r.Flashes before j r₁)
      (fun hj hP hw => hP.flashed hlaw hj hw)
      ⟨rfl, rfl, fun _ => rfl, h.ongoing.of_eq h.ongoing.live.logRemain⟩ with
    ⟨r₁, hP, heq⟩ | ⟨j, r₁, -, hP, hne, heq⟩
  · left
    have hle : r.first ≤ r.totalFrames := by
      by_contra hgt
      have hzero := hP.none hgt
      rw [remain_of_gt h hgt] at hzero
      exact absurd hzero (by decide)
    have hle' := UInt32.le_iff_toNat_le.1 hle
    have hremain : r.remain.toNat = min 16 (r.totalFrames.toNat - r.first.toNat) := by
      rw [remain, framesLeft_toNat hle]
    have hsucc : (r₁.window + 1).toNat = r.window.toNat + 1 := by
      rw [hP.window, UInt16.toNat_add, UInt16.toNat_one, Nat.mod_eq_of_lt (by omega)]
    have hfirst₁ : r₁.first = r.first := by rw [first, first, hP.window]
    have hturned : (r₁.nextWindow plat).window = r₁.window + 1 := by simp
    have hwindow : (r₁.nextWindow plat).window.toNat = r.window.toNat + 1 := by
      rw [hturned, hsucc]
    have htotal : (r₁.nextWindow plat).totalFrames = r.totalFrames := by simp [hP.total]
    have hnext := first_toNat (r₁.nextWindow plat)
    have hcount : min (r₁.nextWindow plat).totalFrames.toNat (r₁.nextWindow plat).first.toNat =
        min r₁.totalFrames.toNat r₁.first.toNat + r.remain.toNat := by
      rw [htotal, hP.total, hfirst₁, hremain, hnext, hwindow]
      omega
    rw [heq]
    refine ⟨?_, by rw [hwindow, htotal]; omega⟩
    rw [hcount]
    exact hP.ongoing.of_eq (hP.ongoing.live.nextWindow plat)
  · right
    obtain ⟨rows, hcut, -, hcalls⟩ := hP.ongoing.calls
    rw [heq]
    refine ⟨by simp, _, .broken _ rows (r₁.rowData j) _ _ hcut hne, ?_⟩
    simp [hcalls]

/-! ### Whole runs -/

/-- The calls so far: sessions that are over, and the one that runs. -/
structure Sessions (r : EspNowPushReceiver) (sessions : List (List UpdateCall)) : Prop where
  closed : ∀ calls ∈ sessions, PushSession calls
  running : r.state = .receiving → r.Between sessions.flatten
  idle : r.state ≠ .receiving → (updates r.trace).reverse = sessions.flatten

/-- One more session is over. -/
theorem Sessions.close {sessions : List (List UpdateCall)} (h : r.Sessions sessions)
    (hst : r'.state ≠ .receiving) (hclosed : r'.Closed sessions.flatten) :
    ∃ sessions', r'.Sessions sessions' := by
  obtain ⟨calls, hcalls, hlog⟩ := hclosed
  refine ⟨sessions ++ [calls], ?_, fun hr => absurd hr hst, fun _ => ?_⟩
  · intro c hc
    rcases List.mem_append.1 hc with hc | hc
    · exact h.closed c hc
    · rw [List.mem_singleton.1 hc]
      exact hcalls
  · rw [hlog, List.flatten_append, List.flatten_singleton]

/-- At END all frames are written. -/
theorem Between.all (h : r.Between before) (hge : ¬ r.first < r.totalFrames) :
    ∃ rows, Cut r.begin.size.toNat rows ∧ rows.length = frameCount r.begin.size.toNat ∧
      (updates r.trace).reverse = before ++ openCalls r.begin.size rows := by
  obtain ⟨rows, hcut, hcount, hcalls⟩ := h.ongoing.calls
  have hle := UInt32.le_iff_toNat_le.1 (UInt32.not_lt.1 hge)
  refine ⟨rows, hcut, ?_, hcalls⟩
  rw [hcount, Nat.min_eq_left hle, h.ongoing.total]

theorem Sessions.rule (hlaw : plat.Lawful)
    (hslot : ∀ log size, plat.toUpdateLib.begin log size = true → size.toNat ≤ 2 ^ 24)
    {sessions : List (List UpdateCall)} {ev : Event} (hrule : Rule plat r ev r')
    (htracked : r'.Tracked) (h : r.Sessions sessions) : ∃ sessions', r'.Sessions sessions' := by
  -- events that call nothing
  have hkeeps : r'.state = r.state → r'.begin = r.begin → r'.totalFrames = r.totalFrames →
      r'.window = r.window → updates r'.trace = updates r.trace →
        ∃ sessions', r'.Sessions sessions' := by
    intro hst hbegin htotal hwindow hupd
    refine ⟨sessions, h.closed, fun hr => ?_, fun hr => ?_⟩
    · exact (h.running (hst ▸ hr)).of_eq (htracked.live hr) hst hbegin htotal hwindow hupd
    · rw [hupd]
      exact h.idle (hst ▸ hr)
  cases hrule with
  | ignore | busy | duplicate | endEarly | drop | enqueue | quiet | stale | reack | future | store
  | calm | periodic =>
    exact hkeeps (by simp) (by simp) (by simp) (by simp) (by simp)
  | refuseEmpty rx _ hst =>
    refine h.close (by simp) ⟨_, .empty, ?_⟩
    simp [h.idle hst]
  | refuse rx _ hst =>
    refine h.close (by simp) ⟨_, .refused (decodePushBegin rx.pkt.payload).size, ?_⟩
    simp [h.idle hst]
  | accept rx _ hst _ hok =>
    have hle := hslot _ _ hok
    refine ⟨sessions, h.closed, fun hr => ⟨⟨htracked.live hr, by simp, by simpa using hle, ?_, [],
      cut_nil _, ?_, ?_⟩, by simp⟩, fun hr => absurd (by simp) hr⟩
    · simpa using totalFramesOf_toNat hle
    · simp [first, firstFrame]
    · simp [h.idle hst, openCalls]
  | endMismatch rx _ hst _ hge =>
    obtain ⟨rows, hcut, hall, hcalls⟩ := (h.running hst).all hge
    refine h.close (by simp) ⟨_, .mismatch _ rows hcut hall, ?_⟩
    simp [hcalls]
  | endFlash rx _ hst _ hge =>
    obtain ⟨rows, hcut, hall, hcalls⟩ := (h.running hst).all hge
    refine h.close (by simp) ⟨_, .rejected _ rows hcut hall, ?_⟩
    simp [hcalls]
  | commit rx _ hst _ hge =>
    obtain ⟨rows, hcut, hall, hcalls⟩ := (h.running hst).all hge
    refine h.close (by simp) ⟨_, .committed _ rows hcut hall, ?_⟩
    simp [hcalls]
  | complete frame queue hst =>
    have hrunning := h.running hst
    have hlive := (((hrunning.ongoing.live.queue queue).touched plat).stored frame).logRemain
    have hstored := hrunning.of_eq hlive
    rcases hstored.finishWindow hlaw with hnext | ⟨hfailed, hclosed⟩
    · exact ⟨sessions, h.closed, fun _ => hnext, fun hr => absurd hnext.ongoing.receiving hr⟩
    · exact h.close (by simp [hfailed]) hclosed

end EspNowPushReceiver

end InfinitagNow
