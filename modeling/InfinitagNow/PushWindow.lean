/-
InfinitagNow/PushWindow.lean

The window arithmetic of the device.

`Steady` says that the window number stays within the image, that no
evaluation of `_totalFrames - first` wraps, and that every write asks for 1 to
242 bytes of a row.  One step can break it: a frame taken from the queue after
the last window was completed, with a number in the window that would come
next (`Overrun`).  Such a frame is not stopped by either range test of
`loop()`.  Without it the invariant holds all through a session
(`steady_of_clear`).
-/
import InfinitagNow.PushReceiver

namespace InfinitagNow

open UpdateCall

/-! ### What is observed -/

/-- A subtraction does not wrap, a write stays within a row. -/
def Within : Obs → Prop
  | .remain total first => first ≤ total
  | .update (.write data n _) => 1 ≤ n.toNat ∧ n.toNat ≤ 242 ∧
      ∃ row : Row, data = row.bytes.take n.toNat
  | _ => True

theorem within_rx (rx : RxPacket) : Within (.rx rx) := trivial

theorem within_send (mac : Mac) (p : Packet) : Within (.send mac p) := trivial

theorem within_abort : Within (.update .abort) := trivial

theorem within_end (ok : Bool) : Within (.update (.end_ ok)) := trivial

/-- Everything since `t₀` is within bounds. -/
def WithinSince (t₀ t : List Obs) : Prop := ∃ new, t = new ++ t₀ ∧ ∀ o ∈ new, Within o

theorem WithinSince.refl (t : List Obs) : WithinSince t t := ⟨[], rfl, by simp⟩

theorem WithinSince.cons {t₀ t : List Obs} {o : Obs} (h : WithinSince t₀ t) (ho : Within o) :
    WithinSince t₀ (o :: t) := by
  obtain ⟨new, rfl, hnew⟩ := h
  refine ⟨o :: new, rfl, ?_⟩
  intro x hx
  rcases List.mem_cons.1 hx with rfl | hx
  · exact ho
  · exact hnew x hx

namespace EspNowPushReceiver

variable {plat : Platform} {r : EspNowPushReceiver} {t₀ : List Obs} {b : PushBegin}

/-- The windows of the announced image. -/
def windows (r : EspNowPushReceiver) : ℕ := windowCount r.begin.size.toNat

/-! ### The invariant -/

structure Steady (t₀ : List Obs) (b : PushBegin) (r : EspNowPushReceiver) : Prop where
  begin_eq : r.begin = b
  size_pos : 0 < r.begin.size.toNat
  size_le : r.begin.size.toNat ≤ 2 ^ 24
  total : r.totalFrames.toNat = frameCount r.begin.size.toNat
  window_le : r.window.toNat ≤ r.windows
  mask : r.haveMask ≠ 0 → r.window.toNat < r.windows
  requested : r.state = .receiving →
    requested (updates r.trace) = min r.begin.size.toNat (3872 * r.window.toNat)
  requested_le : UpdateCall.requested (updates r.trace) ≤ r.begin.size.toNat
  within : WithinSince t₀ r.trace

/-- Events that leave the window alone. -/
theorem Steady.of_eq (h : r.Steady t₀ b) {r' : EspNowPushReceiver}
    (hwithin : WithinSince t₀ r'.trace)
    (hst : r'.state = .receiving → r.state = .receiving := by simp)
    (hbegin : r'.begin = r.begin := by simp) (htotal : r'.totalFrames = r.totalFrames := by simp)
    (hwindow : r'.window = r.window := by simp) (hmask : r'.haveMask = r.haveMask := by simp)
    (hreq : UpdateCall.requested (updates r'.trace) = UpdateCall.requested (updates r.trace) := by
      simp) : r'.Steady t₀ b :=
  ⟨hbegin ▸ h.begin_eq, hbegin ▸ h.size_pos, hbegin ▸ h.size_le,
    by rw [htotal, hbegin]; exact h.total,
    by rw [hwindow, windows, hbegin]; exact h.window_le,
    by rw [hwindow, windows, hbegin, hmask]; exact h.mask,
    by rw [hreq, hbegin, hwindow]; exact fun hr => h.requested (hst hr),
    by rw [hreq, hbegin]; exact h.requested_le, hwithin⟩

section Ops

variable (h : r.Steady t₀ b)
include h

theorem Steady.received (rx : RxPacket) : (r.received rx).Steady t₀ b :=
  h.of_eq (by simpa using h.within.cons (within_rx rx))

theorem Steady.touched (plat : Platform) : (r.touched plat).Steady t₀ b :=
  h.of_eq (by simpa using h.within)

theorem Steady.read : r.read.Steady t₀ b := h.of_eq (by simpa using h.within)

theorem Steady.queue (q : Ring RawFrame 24) : { r with queue := q }.Steady t₀ b := h.of_eq h.within

theorem Steady.reads (k : ℕ) : { r with reads := k }.Steady t₀ b := h.of_eq h.within

theorem Steady.sendAck (plat : Platform) (w : UInt16) (m : UInt32) (s d : UInt8) :
    (r.sendAck plat w m s d).Steady t₀ b :=
  h.of_eq (by simpa using h.within.cons (within_send _ _))

theorem Steady.fail (plat : Platform) (s : UInt8) : (r.fail plat s).Steady t₀ b := by
  refine h.of_eq ?_
  rw [fail_trace]
  exact ((h.within.cons within_abort).cons (within_send _ _)).cons (within_send _ _)

theorem Steady.first_le_of_lt (hlt : r.window.toNat < r.windows) : r.first < r.totalFrames := by
  rw [UInt32.lt_iff_toNat_lt, first, firstFrame_toNat, h.total]
  unfold windows windowCount at hlt
  omega

theorem Steady.logRemain (hlt : r.first < r.totalFrames) : r.logRemain.Steady t₀ b := by
  refine h.of_eq ?_
  simp only [logRemain_trace]
  exact h.within.cons (UInt32.le_of_lt hlt)

end Ops

/-! ### Storing and flashing -/

/-- The frames of one window do not reach past the image by more than a
window. -/
theorem Steady.remain_eq (h : r.Steady t₀ b) (hlt : r.window.toNat < r.windows) :
    r.remain.toNat = min 16 (frameCount r.begin.size.toNat - r.window.toNat * 16) := by
  rw [remain, framesLeft_toNat (UInt32.le_of_lt (h.first_le_of_lt hlt)), h.total, first,
    firstFrame_toNat]

/-- What holds after `i` rows of a window have been written. -/
structure Flashing (t₀ : List Obs) (size window : ℕ) (i : ℕ) (r : EspNowPushReceiver) : Prop where
  receiving : r.state = .receiving
  size_eq : r.begin.size.toNat = size
  window_eq : r.window.toNat = window
  total : r.totalFrames.toNat = frameCount size
  requested : UpdateCall.requested (updates r.trace) = min size (242 * (window * 16 + i))
  within : WithinSince t₀ r.trace

/-- A row of the window holds 1 to 242 bytes of the image. -/
theorem Flashing.rowLen_eq {size window i : ℕ} (h : Flashing t₀ size window i r)
    (hsize : size ≤ 2 ^ 24) (hi : i < 16) (hlt : window * 16 + i < frameCount size) :
    (r.rowLen i).toNat = min 242 (size - (window * 16 + i) * 242) ∧ 1 ≤ (r.rowLen i).toNat := by
  have hidx : (r.first + UInt32.ofNat i).toNat = window * 16 + i := by
    rw [first, firstFrame_add_toNat _ hi, h.window_eq]
  unfold frameCount at hlt
  have hlen : (r.rowLen i).toNat = min 242 (size - (window * 16 + i) * 242) := by
    rw [rowLen, frameLen_of_le (by rw [hidx]; omega) (by rw [hidx, h.size_eq]; omega), hidx,
      h.size_eq]
  exact ⟨hlen, by omega⟩

/-- Writing a row, whatever the library answers. -/
theorem Flashing.write {size window i : ℕ} (h : Flashing t₀ size window i r)
    (hsize : size ≤ 2 ^ 24) (hi : i < 16) (hlt : window * 16 + i < frameCount size)
    (ret : UInt32) :
    WithinSince t₀ (.update (.write (r.rowData i) (r.rowLen i) ret) :: r.trace) ∧
      UpdateCall.requested (.write (r.rowData i) (r.rowLen i) ret :: updates r.trace) =
        min size (242 * (window * 16 + (i + 1))) := by
  obtain ⟨hlen, hpos⟩ := h.rowLen_eq hsize hi hlt
  refine ⟨h.within.cons ⟨hpos, by omega, r.row _, rfl⟩, ?_⟩
  rw [requested_write, h.requested, hlen]
  unfold frameCount at hlt
  omega

theorem Steady.finishWindow (h : r.Steady t₀ b) (plat : Platform) (hst : r.state = .receiving)
    (hlt : r.window.toNat < r.windows) : (r.finishWindow plat).Steady t₀ b := by
  have hlog := h.logRemain (h.first_le_of_lt hlt)
  have hremain := h.remain_eq hlt
  have hcount : frameCount r.begin.size.toNat ≤ 16 * r.windows := by
    unfold windows windowCount
    omega
  have hmul : 242 * (r.window.toNat * 16) = 3872 * r.window.toNat := by ring
  have h0 : Flashing t₀ r.begin.size.toNat r.window.toNat 0 r.logRemain :=
    ⟨by simpa using hst, by simp, by simp, by simpa using h.total,
      by simpa [hmul] using h.requested hst, hlog.within⟩
  have hwindows : r.windows ≤ 4334 := by
    have := h.size_le
    unfold windows windowCount frameCount
    omega
  rcases finishWindow_cases plat (r := r)
      (P := fun i r₁ => Flashing t₀ r.begin.size.toNat r.window.toNat i r₁ ∧
        r₁.begin = r.begin ∧ r₁.window = r.window)
      (fun {j r₁} hj hP _ => by
        have hw := hP.1.write h.size_le (by omega) (by omega) (r₁.rowLen j)
        exact ⟨⟨by simpa using hP.1.receiving, by simpa using hP.1.size_eq,
          by simpa using hP.1.window_eq, by simpa using hP.1.total, by simpa using hw.2,
          by simpa using hw.1⟩, by simpa using hP.2⟩)
      ⟨h0, by simp⟩ with ⟨r₁, ⟨hP, hbegin, hwin⟩, heq⟩ | ⟨j, r₁, hj, ⟨hP, hbegin, hwin⟩, -, heq⟩
  · rw [heq]
    have hreq := hP.requested
    rw [hremain] at hreq
    have hnext : (r₁.window + 1).toNat = r.window.toNat + 1 := by
      rw [hwin, window_succ_toNat h.size_le hlt]
    have hdone : min r.begin.size.toNat
        (242 * (r.window.toNat * 16 +
          min 16 (frameCount r.begin.size.toNat - r.window.toNat * 16))) =
          min r.begin.size.toNat (3872 * (r.window.toNat + 1)) := by
      unfold frameCount
      omega
    have hreq' : UpdateCall.requested (updates (r₁.nextWindow plat).trace) =
        min r.begin.size.toNat (3872 * (r.window.toNat + 1)) := by
      simpa [hdone] using hreq
    refine ⟨?_, ?_, ?_, ?_, ?_, ?_, ?_, ?_, ?_⟩
    · simpa [hbegin] using h.begin_eq
    · simpa [hbegin] using h.size_pos
    · simpa [hbegin] using h.size_le
    · simpa [hbegin] using hP.total
    · simp only [nextWindow_window, sendAck_window, log_window, read_window, hnext]
      simpa [windows, hbegin] using hlt
    · simp
    · intro _
      simpa [hbegin, hnext] using hreq'
    · rw [hreq']
      simp [hbegin]
    · simp only [nextWindow_trace, sendAck_trace, log_trace, read_trace]
      exact (hP.within.cons (within_send _ _)).cons (within_send _ _)
  · rw [heq]
    have hw := hP.write h.size_le (by omega) (by omega)
      (plat.write (updates r₁.trace) (r₁.rowData j) (r₁.rowLen j))
    refine ⟨by simpa [hbegin] using h.begin_eq, by simpa [hbegin] using h.size_pos,
      by simpa [hbegin] using h.size_le,
      by simpa [hbegin] using hP.total, by simpa [hbegin, hwin, windows] using h.window_le, ?_,
      by simp, ?_, ?_⟩
    · intro _
      simpa [hbegin, hwin, windows] using hlt
    · rw [fail_trace, updates_send, updates_send, updates_update, requested_abort, log_trace,
        updates_update, hw.2, fail_begin, log_begin, hbegin]
      exact Nat.min_le_left _ _
    · rw [fail_trace]
      exact ((hw.1.cons within_abort).cons (within_send _ _)).cons (within_send _ _)

theorem Steady.stored (h : r.Steady t₀ b) (hlt : r.window.toNat < r.windows) (f : RawFrame) :
    (r.stored f).Steady t₀ b :=
  ⟨h.begin_eq, h.size_pos, h.size_le, h.total, h.window_le, fun _ => hlt, h.requested,
    h.requested_le, h.within⟩

/-! ### The step that breaks it -/

/-- The session still runs, the last window is done, and the next frame in the
queue belongs to the window after it. -/
def Overrun (r : EspNowPushReceiver) : Prop :=
  r.state = .receiving ∧ r.window.toNat = r.windows ∧ ∃ p ∈ r.queue.pop,
    r.first ≤ p.1.frameIdx ∧ p.1.frameIdx < r.first + pushWindowFrames

instance (r : EspNowPushReceiver) : Decidable r.Overrun :=
  inferInstanceAs (Decidable (_ ∧ _ ∧ _))

/-- No such frame is taken from the queue by an event. -/
def Clear (plat : Platform) (r : EspNowPushReceiver) : Event → Prop
  | .drain => ¬ r.Overrun
  | .loop => ∀ k < r.queue.length, ¬ (r.drainAll plat k).Overrun
  | _ => True

instance (plat : Platform) (r : EspNowPushReceiver) : (ev : Event) → Decidable (r.Clear plat ev)
  | .drain => inferInstanceAs (Decidable (¬ r.Overrun))
  | .loop => inferInstanceAs (Decidable (∀ k < r.queue.length, ¬ (r.drainAll plat k).Overrun))
  | .control _ | .raw _ _ | .tail => .isTrue trivial

/-- Nor by a sequence of events. -/
def ClearRun (plat : Platform) : EspNowPushReceiver → List Event → Prop
  | _, [] => True
  | r, ev :: evs => r.Clear plat ev ∧ ClearRun plat (r.step plat ev) evs

instance decidableClearRun (plat : Platform) :
    (r : EspNowPushReceiver) → (evs : List Event) → Decidable (r.ClearRun plat evs)
  | _, [] => .isTrue trivial
  | r, ev :: evs =>
    have := decidableClearRun plat (r.step plat ev) evs
    inferInstanceAs (Decidable (r.Clear plat ev ∧ (r.step plat ev).ClearRun plat evs))

/-- The step lemma of the invariant. -/
theorem Steady.rule {ev : Event} {r' : EspNowPushReceiver} (hrule : Rule plat r ev r')
    (h : r.Steady t₀ b) (hev : ∀ rx, ev = .control rx → rx.pkt.msgType ≠ msgPushBegin)
    (hclear : ev = .drain → ¬ r.Overrun) : r'.Steady t₀ b := by
  -- a frame of the current window: the last window is not behind us yet
  have hlt : ∀ {f q}, ev = .drain → r.state = .receiving → r.queue.pop = some (f, q) →
      ¬ f.frameIdx < r.first → ¬ f.frameIdx ≥ r.first + pushWindowFrames →
        r.window.toNat < r.windows := by
    intro f q hd hst hpop hge hltf
    refine lt_of_le_of_ne h.window_le fun heq => hclear hd ⟨hst, heq, (f, q), hpop, ?_, ?_⟩
    · exact UInt32.not_lt.1 hge
    · exact UInt32.not_le.1 hltf
  cases hrule with
  | ignore rx => exact h.received rx
  | busy rx hbegin => exact absurd hbegin (hev rx rfl)
  | duplicate rx hbegin => exact absurd hbegin (hev rx rfl)
  | refuseEmpty rx hbegin => exact absurd hbegin (hev rx rfl)
  | refuse rx hbegin => exact absurd hbegin (hev rx rfl)
  | accept rx hbegin => exact absurd hbegin (hev rx rfl)
  | endEarly rx _ _ _ hfirst =>
    exact (((h.received rx).touched plat).logRemain hfirst).sendAck plat _ _ _ _
  | endMismatch rx => exact ((h.received rx).touched plat).fail plat _
  | endFlash rx =>
    refine Steady.fail (((h.received rx).touched plat).of_eq ?_) plat _
    simpa using ((h.within.cons (within_rx rx)).cons (within_end false))
  | commit rx =>
    refine ((h.received rx).touched plat).of_eq ?_
    simpa using (((h.within.cons (within_rx rx)).cons (within_end true)).cons
      (within_send _ _)).cons (within_send _ _)
  | drop => exact h
  | enqueue => exact h.queue _
  | quiet => exact h
  | stale f q => exact ((h.queue q).touched plat).read
  | reack f q => exact ((h.queue q).touched plat).read.sendAck plat _ _ _ _
  | future f q => exact (h.queue q).touched plat
  | store f q hst hpop hge hltf =>
    have hwin := hlt rfl hst hpop hge hltf
    exact (((h.queue q).touched plat).stored hwin f).logRemain (h.first_le_of_lt hwin)
  | complete f q hst hpop hge hltf =>
    have hwin := hlt rfl hst hpop hge hltf
    exact ((((h.queue q).touched plat).stored hwin f).logRemain
      (h.first_le_of_lt hwin)).finishWindow plat hst hwin
  | calm k => exact h.reads _
  | periodic k hst hmask =>
    have hwin := h.mask hmask
    exact ((h.reads (r.reads + k)).logRemain (h.first_le_of_lt hwin)).sendAck plat _ _ _ _

/-- An event, `loop` included. -/
theorem Steady.step (h : r.Steady t₀ b) {ev : Event}
    (hev : ∀ rx, ev = .control rx → rx.pkt.msgType ≠ msgPushBegin) (hclear : r.Clear plat ev) :
    (r.step plat ev).Steady t₀ b := by
  by_cases hloop : ev = .loop
  · subst hloop
    have hdrain : ∀ k (r : EspNowPushReceiver), r.Steady t₀ b →
        (∀ j < k, ¬ (r.drainAll plat j).Overrun) → (r.drainAll plat k).Steady t₀ b := by
      intro k
      induction k with
      | zero => exact fun r h _ => h
      | succ k ih =>
        intro r h hj
        refine ih _ ?_ fun j hjk => hj (j + 1) (by omega)
        exact h.rule (drain_rule plat r) (by simp) fun _ => hj 0 (by omega)
    exact (hdrain _ r h hclear).rule (tail_rule plat _) (by simp) (by simp)
  · exact h.rule (step_rule plat r hloop) hev fun hd => by subst hd; exact hclear

/-- The run lemma of the invariant. -/
theorem Steady.run (h : r.Steady t₀ b) {evs : List Event}
    (hev : ∀ rx, .control rx ∈ evs → rx.pkt.msgType ≠ msgPushBegin)
    (hclear : r.ClearRun plat evs) : (r.run plat evs).Steady t₀ b := by
  induction evs generalizing r with
  | nil => exact h
  | cons ev evs ih =>
    refine ih (h.step ?_ hclear.1) (fun rx hmem => hev rx (List.mem_cons_of_mem _ hmem)) hclear.2
    rintro rx rfl
    exact hev rx (by simp)

/-- The device after the BEGIN of an image of one byte. -/
def oneByte : EspNowPushReceiver :=
  ({} : EspNowPushReceiver).onControl flawlessPlat ⟨{}, beginPacket { size := 1 }⟩

end EspNowPushReceiver

end InfinitagNow
