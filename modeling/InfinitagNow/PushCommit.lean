/-
InfinitagNow/PushCommit.lean

The device never switches the boot slot on an unverified image.

`Sound` is a property of the whole trace: each `Update.end(true)` in it comes
when the bytes written since the last successful begin have the size and the
CRC of the BEGIN that opened the session, and each FINAL_OK comes right after an
end that returned true.  The object's counters are tied to the trace by `Live`
while a session runs, and by `Tracked` always.
-/
import InfinitagNow.PushReceiver

namespace InfinitagNow

open UpdateCall

/-! ### Reading the trace -/

/-- The last control packet. -/
def lastRx : List Obs → Option RxPacket
  | [] => none
  | .rx rx :: _ => some rx
  | _ :: t => lastRx t

/-- The control packet at which `Update.begin` last succeeded. -/
def opener : List Obs → Option RxPacket
  | [] => none
  | .update (.begin _ true) :: t => lastRx t
  | _ :: t => opener t

/-- The bytes written since the last successful begin are, by size and CRC, the
image announced by the BEGIN that opened the session. -/
def Verified (t : List Obs) : Prop :=
  ∃ rx, opener t = some rx ∧ rx.pkt.msgType = msgPushBegin ∧
    (written (updates t)).length = (decodePushBegin rx.pkt.payload).size.toNat ∧
    crc32 0 (written (updates t)) = (decodePushBegin rx.pkt.payload).crc32

/-- The last call to the `Update` library was an end that returned true. -/
def JustEnded (t : List Obs) : Prop := (updates t).head? = some (.end_ true)

section Opener

variable (t : List Obs) (rx : RxPacket) (mac : Mac) (pkt : Packet) (total first size n ret : UInt32)
  (data : List UInt8) (ok : Bool)

@[simp] theorem opener_rx : opener (.rx rx :: t) = opener t := rfl
@[simp] theorem opener_send : opener (.send mac pkt :: t) = opener t := rfl
@[simp] theorem opener_remain : opener (.remain total first :: t) = opener t := rfl
@[simp] theorem opener_begin_true : opener (.update (.begin size true) :: t) = lastRx t := rfl
@[simp] theorem opener_write : opener (.update (.write data n ret) :: t) = opener t := rfl
@[simp] theorem opener_end : opener (.update (.end_ ok) :: t) = opener t := rfl

end Opener

/-- Every end and every FINAL_OK of a trace came at the right moment. -/
def Sound : List Obs → Prop
  | [] => True
  | .update (.end_ _) :: t => Verified t ∧ Sound t
  | .send _ p :: t => (FinalOk p → JustEnded t) ∧ Sound t
  | _ :: t => Sound t

section Sound

variable (t : List Obs) (rx : RxPacket) (mac : Mac) (pkt : Packet) (total first size n ret : UInt32)
  (data : List UInt8) (ok : Bool)

@[simp] theorem sound_rx : Sound (.rx rx :: t) ↔ Sound t := Iff.rfl
@[simp] theorem sound_remain : Sound (.remain total first :: t) ↔ Sound t := Iff.rfl
@[simp] theorem sound_send :
    Sound (.send mac pkt :: t) ↔ (FinalOk pkt → JustEnded t) ∧ Sound t := Iff.rfl
@[simp] theorem sound_begin : Sound (.update (.begin size ok) :: t) ↔ Sound t := Iff.rfl
@[simp] theorem sound_write : Sound (.update (.write data n ret) :: t) ↔ Sound t := Iff.rfl
@[simp] theorem sound_end : Sound (.update (.end_ ok) :: t) ↔ Verified t ∧ Sound t := Iff.rfl

end Sound

theorem Sound.end_ {t post pre : List Obs} {ok : Bool} (h : Sound t)
    (ht : t = post ++ .update (.end_ ok) :: pre) : Verified pre := by
  subst ht
  induction post with
  | nil => exact h.1
  | cons o post ih =>
    cases o with
    | rx | remain => exact ih h
    | send => exact ih h.2
    | update c =>
      cases c with
      | end_ => exact ih h.2
      | _ => exact ih h

theorem Sound.send {t post pre : List Obs} {mac : Mac} {p : Packet} (h : Sound t)
    (ht : t = post ++ .send mac p :: pre) (hp : FinalOk p) : JustEnded pre := by
  subst ht
  induction post with
  | nil => exact h.1 hp
  | cons o post ih =>
    cases o with
    | rx | remain => exact ih h
    | send => exact ih h.2
    | update c =>
      cases c with
      | end_ => exact ih h.2
      | _ => exact ih h

namespace EspNowPushReceiver

variable {plat : Platform} {r : EspNowPushReceiver}

/-! ### A running session -/

/-- While a session runs, the counters describe what is on flash. -/
structure Live (r : EspNowPushReceiver) : Prop where
  session : session (updates r.trace) = some r.begin.size
  complete : written (updates r.trace) = UpdateCall.flashed (updates r.trace)
  length : (written (updates r.trace)).length = r.bytesDone.toNat
  crc : r.crc = crc32 0 (written (updates r.trace))
  opener : ∃ rx, opener r.trace = some rx ∧ rx.pkt.msgType = msgPushBegin ∧
    decodePushBegin rx.pkt.payload = r.begin
  sound : Sound r.trace

/-- Events that touch neither the counters nor the session. -/
theorem Live.of_eq (h : r.Live) {r' : EspNowPushReceiver} (hsound : Sound r'.trace)
    (hbegin : r'.begin = r.begin := by simp) (hdone : r'.bytesDone = r.bytesDone := by simp)
    (hcrc : r'.crc = r.crc := by simp) (hupd : updates r'.trace = updates r.trace := by simp)
    (hopener : InfinitagNow.opener r'.trace = InfinitagNow.opener r.trace := by simp) : r'.Live :=
  ⟨by rw [hupd, hbegin]; exact h.session, by rw [hupd]; exact h.complete,
    by rw [hupd, hdone]; exact h.length, by rw [hupd, hcrc]; exact h.crc,
    by rw [hopener, hbegin]; exact h.opener, hsound⟩

theorem Live.received (h : r.Live) (rx : RxPacket) : (r.received rx).Live :=
  h.of_eq h.sound

theorem Live.logRemain (h : r.Live) : r.logRemain.Live := h.of_eq h.sound

theorem Live.touched (h : r.Live) (plat : Platform) : (r.touched plat).Live := h.of_eq h.sound

theorem Live.read (h : r.Live) : r.read.Live := h.of_eq h.sound

theorem Live.stored (h : r.Live) (f : RawFrame) : (r.stored f).Live := h.of_eq h.sound

theorem Live.queue (h : r.Live) (q : Ring RawFrame 24) : { r with queue := q }.Live :=
  h.of_eq h.sound

theorem Live.sendAck (h : r.Live) (plat : Platform) (w : UInt16) (m : UInt32) :
    (r.sendAck plat w m pushAckWindow 0).Live :=
  h.of_eq ⟨fun hp => absurd hp (not_finalOk_ack (by simp [pushAckWindow, pushAckFinalOk])),
    h.sound⟩

theorem Live.nextWindow (h : r.Live) (plat : Platform) : (r.nextWindow plat).Live :=
  ((h.sendAck plat r.window 0).sendAck plat r.window 0).of_eq
    ((h.sendAck plat r.window 0).sendAck plat r.window 0).sound

/-- An accepted row is as long as its frame, and the byte count does not wrap. -/
theorem length_rowData (hlaw : plat.Lawful) (h : r.Live) {i : ℕ} (hi : i < 16)
    (hw : plat.write (updates r.trace) (r.rowData i) (r.rowLen i) = r.rowLen i) :
    (r.rowData i).length = (r.rowLen i).toNat ∧
      r.bytesDone.toNat + (r.rowLen i).toNat < 2 ^ 32 := by
  have hsize := r.begin.size.toNat_lt
  have hdone := r.bytesDone.toNat_lt
  -- the library takes a row only if it fits behind what was written
  have hfit : (r.rowLen i).toNat = 0 ∨
      r.bytesDone.toNat + (r.rowLen i).toNat ≤ r.begin.size.toNat := by
    rcases Nat.eq_zero_or_pos (r.rowLen i).toNat with h0 | hpos
    · exact .inl h0
    · right
      have hfit := hlaw.write_fits _ _ _ _ h.session (UInt32.lt_iff_toNat_lt.2 hpos) hw
      rwa [← h.complete, h.length] at hfit
  have hidx : (r.first + UInt32.ofNat i).toNat < 2 ^ 20 := by
    have := r.window.toNat_lt
    rw [first, firstFrame_add_toNat _ hi]
    omega
  have hlen : (r.rowLen i).toNat ≤ 242 := by
    have hle : (frameLen r.begin.size (r.first + UInt32.ofNat i)).toNat ≤ r.begin.size.toNat := by
      change (r.rowLen i).toNat ≤ _
      omega
    rw [rowLen, frameLen_of_le hidx (le_of_frameLen_le hidx hle)]
    exact Nat.min_le_left _ _
  refine ⟨?_, by omega⟩
  rw [rowData, List.length_take, (r.row i).length_eq, Nat.min_eq_left hlen]

theorem Live.flashed (hlaw : plat.Lawful) (h : r.Live) {i : ℕ} (hi : i < 16)
    (hw : plat.write (updates r.trace) (r.rowData i) (r.rowLen i) = r.rowLen i) :
    (r.flashed i).Live := by
  obtain ⟨hlen, hfit⟩ := length_rowData hlaw h hi hw
  refine ⟨h.session, ?_, ?_, ?_, h.opener, h.sound⟩
  · have htake : (r.rowData i).take (r.rowLen i).toNat = r.rowData i := by
      rw [← hlen, List.take_length]
    simp [htake, h.complete]
  · have hadd : (r.bytesDone + r.rowLen i).toNat =
        (written (updates r.trace)).length + (r.rowLen i).toNat := by
      rw [UInt32.toNat_add, h.length, Nat.mod_eq_of_lt hfit]
    simp only [flashed_trace, updates_update, written_write, if_true, List.length_append,
      flashed_bytesDone]
    omega
  · simp [h.crc, crc32_append]

/-! ### All states -/

/-- The invariant: a running session is described by the counters; otherwise no
session is open, and DONE means that the last call was a successful end. -/
structure Tracked (r : EspNowPushReceiver) : Prop where
  live : r.state = .receiving → r.Live
  closed : r.state ≠ .receiving → UpdateCall.session (updates r.trace) = none
  done : r.state = .done → JustEnded r.trace
  sound : Sound r.trace

theorem Live.tracked (h : r.Live) (hst : r.state = .receiving) : r.Tracked :=
  ⟨fun _ => h, fun hne => absurd hst hne, fun hd => by simp [hst] at hd, h.sound⟩

/-- A failure closes the session whatever came before. -/
theorem tracked_fail (h : Sound r.trace) {status : UInt8} (hst : status ≠ pushAckFinalOk) :
    (r.fail plat status).Tracked := by
  refine ⟨by simp, by simp, by simp, ?_⟩
  rw [fail_trace]
  exact ⟨fun hp => absurd hp (not_finalOk_ack hst), fun hp => absurd hp (not_finalOk_ack hst), h⟩

theorem finishWindow_tracked (hlaw : plat.Lawful) (h : r.Live) (hst : r.state = .receiving) :
    (r.finishWindow plat).Tracked := by
  rcases finishWindow_cases plat (r := r)
      (P := fun _ r₁ => r₁.Live ∧ r₁.state = .receiving)
      (fun hj hP hw => ⟨hP.1.flashed hlaw (lt_of_lt_of_le hj (framesLeft_le _ _)) hw,
        by simpa using hP.2⟩)
      ⟨h.logRemain, by simpa using hst⟩ with ⟨r₁, hP, heq⟩ | ⟨j, r₁, -, hP, -, heq⟩
  · rw [heq]
    exact (hP.1.nextWindow plat).tracked (by simpa using hP.2)
  · rw [heq]
    exact tracked_fail (by simpa using hP.1.sound) (by decide)

/-- What a successful check of size and CRC means. -/
theorem Live.verified (h : r.Live) (hsize : r.bytesDone = r.begin.size)
    (hcrc : r.crc = r.begin.crc32) : Verified r.trace := by
  obtain ⟨rx, hrx, hty, hdec⟩ := h.opener
  exact ⟨rx, hrx, hty, by rw [hdec, h.length, hsize], by rw [hdec, ← h.crc, hcrc]⟩

/-- The step lemma of the invariant. -/
theorem Tracked.rule (hlaw : plat.Lawful) {ev : Event} {r' : EspNowPushReceiver}
    (hrule : Rule plat r ev r') (h : r.Tracked) : r'.Tracked := by
  have hqueue : r.state = .receiving → ∀ q, ({ r with queue := q }.touched plat).Live :=
    fun hst q => ((h.live hst).queue q).touched plat
  have hcrcNe : pushAckFinalCrc ≠ pushAckFinalOk := by decide
  have hflashNe : pushAckFinalFlash ≠ pushAckFinalOk := by decide
  cases hrule with
  | ignore rx => exact ⟨fun hst => (h.live hst).received rx, h.closed, h.done, h.sound⟩
  | busy rx _ hst =>
    refine Live.tracked (((h.live hst).received rx).of_eq ?_) (by simp [hst])
    exact ⟨fun hp => absurd hp (not_finalOk_ack (by simp [pushAckBusy, pushAckFinalOk])), h.sound⟩
  | duplicate rx _ hst =>
    exact (((h.live hst).received rx).touched plat).tracked (by simp [hst])
  | refuseEmpty rx => exact tracked_fail (by simpa using h.sound) hflashNe
  | refuse rx => exact tracked_fail (by simpa using h.sound) hflashNe
  | accept rx hbegin hst =>
    refine Live.tracked ⟨by simp, by simp, by simp, by simp, ⟨rx, by simp [lastRx], hbegin, ?_⟩,
      by simpa using h.sound⟩ (by simp)
    simp
  | endEarly rx _ hst =>
    exact ((((h.live hst).received rx).touched plat).logRemain.sendAck plat _ _).tracked
      (by simp [hst])
  | endMismatch rx => exact tracked_fail (by simpa using h.sound) hcrcNe
  | endFlash rx hend hst hmac hge hsize hcrc =>
    have hver := (((h.live hst).received rx).touched plat).verified (by simpa using hsize)
      (by simpa using hcrc)
    exact tracked_fail (by simpa using ⟨hver, h.sound⟩) hflashNe
  | commit rx hend hst hmac hge hsize hcrc =>
    have hver := (((h.live hst).received rx).touched plat).verified (by simpa using hsize)
      (by simpa using hcrc)
    refine ⟨by simp, by simp, by simp [JustEnded], ?_⟩
    simpa [JustEnded] using ⟨hver, h.sound⟩
  | drop => exact h
  | enqueue mac data f hst => exact ((h.live hst).queue _).tracked hst
  | quiet => exact h
  | stale f q hst => exact (hqueue hst q).read.tracked (by simp [hst])
  | reack f q hst => exact ((hqueue hst q).read.sendAck plat _ _).tracked (by simp [hst])
  | future f q hst => exact (hqueue hst q).tracked (by simp [hst])
  | store f q hst => exact ((hqueue hst q).stored f).logRemain.tracked (by simp [hst])
  | complete f q hst =>
    exact finishWindow_tracked hlaw ((hqueue hst q).stored f).logRemain (by simp [hst])
  | calm k => exact ⟨fun hst => (h.live hst).of_eq h.sound, h.closed, h.done, h.sound⟩
  | periodic k hst =>
    have hlive : { r with reads := r.reads + k }.Live := (h.live hst).of_eq h.sound
    exact (hlive.logRemain.sendAck plat _ _).tracked (by simp [hst])

/-! ### The boot theorem -/

/-- **Only verified images are booted.**  Whatever packets, frames and clock
values come and whatever the `Update` library answers: each `Update.end(true)`
comes when the bytes written since the last successful begin have the size and
the CRC of the BEGIN that opened the session; FINAL_OK is sent, and DONE
reached, only after an end that returned true; outside RECEIVING no session is
open. -/
theorem boots_only_verified (hlaw : plat.Lawful) (r : EspNowPushReceiver)
    (hst : r.state = .idle) (ht : r.trace = []) (evs : List Event) :
    (∀ post pre ok, (r.run plat evs).trace = post ++ .update (.end_ ok) :: pre → Verified pre) ∧
    (∀ post pre mac p, (r.run plat evs).trace = post ++ .send mac p :: pre → FinalOk p →
      JustEnded pre) ∧
    ((r.run plat evs).state = .done → JustEnded (r.run plat evs).trace) ∧
    ((r.run plat evs).state ≠ .receiving →
      UpdateCall.session (updates (r.run plat evs).trace) = none) := by
  have h0 : r.Tracked :=
    ⟨fun h => by simp [hst] at h, fun _ => by rw [ht]; rfl, fun h => by simp [hst] at h,
      by rw [ht]; trivial⟩
  have h : (r.run plat evs).Tracked := run_invariant (Tracked.rule hlaw) h0 evs
  exact ⟨fun post pre ok heq => h.sound.end_ heq, fun post pre mac p heq hp => h.sound.send heq hp,
    h.done, h.closed⟩

/-- A push of the one byte 7: BEGIN, the frame, one `loop()`, END. -/
def tinyPush : List Event :=
  [.control ⟨{}, beginPacket { size := 1, crc32 := crc32 0 [7] }⟩,
    .raw {} (rawBytes 0 [7]), .loop, .control ⟨{}, endPacket⟩]

theorem boots_only_verified_tiny :
    (({} : EspNowPushReceiver).run flawlessPlat tinyPush).state = .done ∧
      JustEnded (({} : EspNowPushReceiver).run flawlessPlat tinyPush).trace := by
  have hdone : (({} : EspNowPushReceiver).run flawlessPlat tinyPush).state = .done := by
    decide +kernel
  exact ⟨hdone, (boots_only_verified UpdateLib.flawless_lawful {} rfl rfl tinyPush).2.2.1 hdone⟩

end EspNowPushReceiver

end InfinitagNow
