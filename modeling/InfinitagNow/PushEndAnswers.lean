/-
InfinitagNow/PushEndAnswers.lean

What the device answers to a PUSH_END (`EspNowPushReceiver::onControl` of
`src/EspNowPush.cpp`).

While the session runs every END is answered, and with FINAL_OK exactly when
`Update.end(true)` has just committed the image.  The session is over after the
first final ack, and an END that is repeated because that ack was lost is not
answered any more, unlike the retransmitted frame of a window that is over.
`Current` ties the sender of the running session to the trace.
-/
import InfinitagNow.PushCommit

namespace InfinitagNow

/-- Since the last successful begin, an end has returned true. -/
def ended : List UpdateCall → Bool
  | [] => false
  | .begin _ true :: _ => false
  | .end_ true :: _ => true
  | _ :: log => ended log

section Calls

variable (log : List UpdateCall) (size n ret : UInt32) (data : List UInt8)

@[simp] theorem ended_begin_true : ended (.begin size true :: log) = false := rfl
@[simp] theorem ended_write : ended (.write data n ret :: log) = ended log := rfl
@[simp] theorem ended_end_true : ended (.end_ true :: log) = true := rfl
@[simp] theorem ended_end_false : ended (.end_ false :: log) = ended log := rfl
@[simp] theorem ended_abort : ended (.abort :: log) = ended log := rfl

end Calls

namespace EspNowPushReceiver

variable {plat : Platform} {r r' : EspNowPushReceiver}

/-- The sender of the BEGIN that opened the last session. -/
def sessionMac (r : EspNowPushReceiver) : Option Mac := (opener r.trace).map RxPacket.mac

/-- A running session belongs to the sender of the BEGIN that opened it, and
nothing of it is committed yet. -/
def Current (r : EspNowPushReceiver) : Prop :=
  r.state = .receiving → r.sessionMac = some r.srcMac ∧ ended (updates r.trace) = false

theorem Current.of_eq (h : r.Current) (hst : r'.state = r.state) (hmac : r'.srcMac = r.srcMac)
    (hopener : opener r'.trace = opener r.trace) (hupd : updates r'.trace = updates r.trace) :
    r'.Current := by
  rw [Current, sessionMac, hst, hmac, hopener, hupd]
  exact h

theorem current_of_ended (hst : r.state ≠ .receiving) : r.Current := fun h => absurd h hst

theorem Current.flashed (h : r.Current) (i : ℕ) : (r.flashed i).Current := fun hst => by
  simpa [sessionMac] using h (by simpa using hst)

theorem Current.finishWindow (h : r.Current) (plat : Platform) : (r.finishWindow plat).Current := by
  rcases finishWindow_cases plat (r := r) (P := fun _ r₁ => r₁.Current)
      (fun _ hP _ => hP.flashed _) (h.of_eq (by simp) (by simp) (by simp) (by simp)) with
    ⟨r₁, hP, heq⟩ | ⟨j, r₁, -, -, -, heq⟩
  · rw [heq]
    exact hP.of_eq (by simp) (by simp) (by simp) (by simp)
  · rw [heq]
    exact current_of_ended (by simp)

/-- The step lemma. -/
theorem Current.rule {ev : Event} (hrule : Rule plat r ev r') (h : r.Current) : r'.Current := by
  cases hrule with
  | ignore | busy | duplicate | endEarly | enqueue | stale | reack | future | store | calm
  | periodic => exact h.of_eq (by simp) (by simp) (by simp) (by simp)
  | drop | quiet => exact h
  | refuseEmpty | refuse | endMismatch | endFlash | commit => exact current_of_ended (by simp)
  | accept => exact fun _ => by simp [sessionMac, lastRx]
  | complete f q =>
    refine Current.finishWindow ?_ plat
    exact h.of_eq (by simp) (by simp) (by simp) (by simp)

theorem current_run (plat : Platform) (evs : List Event) :
    (({} : EspNowPushReceiver).run plat evs).Current :=
  run_invariant Current.rule (current_of_ended (by simp)) evs

/-- The packet is answered with at least one ack, and each ack tells whether the
image of the last session is committed. -/
def Answered (plat : Platform) (r : EspNowPushReceiver) (rx : RxPacket) : Prop :=
  ∃ acks, acks ≠ [] ∧
    sends (r.onControl plat rx).trace = sends r.trace ++ acks.map (fun p => (rx.mac, p)) ∧
    ∀ p ∈ acks, p.msgType = msgPushAck ∧
      (FinalOk p ↔ ended (updates (r.onControl plat rx).trace) = true)

/-- While the session runs, its END is answered. -/
theorem Current.answered (h : r.Current) (plat : Platform) (hst : r.state = .receiving)
    {rx : RxPacket} (hend : rx.pkt.msgType = msgPushEnd) (hmac : rx.mac = r.srcMac) :
    Answered plat r rx := by
  have hopen := (h hst).2
  have hwindow : pushAckWindow ≠ pushAckFinalOk := by decide
  have hcrc : pushAckFinalCrc ≠ pushAckFinalOk := by decide
  have hflash : pushAckFinalFlash ≠ pushAckFinalOk := by decide
  have hne : rx.pkt.msgType ≠ msgPushBegin := by rw [hend]; decide
  have hrule := onControl_rule plat r rx
  unfold Answered
  generalize r.onControl plat rx = r' at hrule
  cases hrule with
  | ignore _ _ hno => exact absurd ⟨hend, hst, hmac⟩ hno
  | busy _ hbegin | duplicate _ hbegin | refuseEmpty _ hbegin | refuse _ hbegin
  | accept _ hbegin => exact absurd hbegin hne
  | endEarly =>
    refine ⟨[ackPacket ⟨r.window, r.windowExpectMask &&& ~~~r.haveMask, pushAckWindow, 0⟩],
      by simp, by simp [hmac], ?_⟩
    simpa [hopen] using not_finalOk_ack (by exact hwindow)
  | endMismatch =>
    refine ⟨.replicate 2 (ackPacket ⟨0xFFFF, 0, pushAckFinalCrc, plat.getError (updates r.trace)⟩),
      by simp, by simp [hmac], ?_⟩
    simpa [hopen] using not_finalOk_ack (by exact hcrc)
  | endFlash =>
    refine ⟨.replicate 2 (ackPacket ⟨0xFFFF, 0, pushAckFinalFlash,
      plat.getError (.end_ false :: updates r.trace)⟩), by simp, by simp [hmac], ?_⟩
    simpa [hopen] using not_finalOk_ack (by exact hflash)
  | commit =>
    refine ⟨.replicate 2 (ackPacket ⟨0xFFFF, 0, pushAckFinalOk, 0⟩), by simp, by simp [hmac], ?_⟩
    simp [FinalOk]

/-- **Answers to END**: in any state after a session was accepted, an END from
its sender is answered, and with the truth, exactly while the session runs. -/
theorem end_answered_iff (plat : Platform) (evs : List Event) {rx : RxPacket}
    (hend : rx.pkt.msgType = msgPushEnd)
    (hmac : (({} : EspNowPushReceiver).run plat evs).sessionMac = some rx.mac) :
    Answered plat (({} : EspNowPushReceiver).run plat evs) rx ↔
      (({} : EspNowPushReceiver).run plat evs).state = .receiving := by
  have hcurrent := current_run plat evs
  generalize ({} : EspNowPushReceiver).run plat evs = r at hcurrent hmac ⊢
  constructor
  · rintro ⟨acks, hacks, hsends, -⟩
    by_contra hst
    have hne : rx.pkt.msgType ≠ msgPushBegin := by rw [hend]; decide
    have hignored : r.onControl plat rx = r.received rx := by
      simp [onControl, hne, hst, received]
    rw [hignored] at hsends
    -- nothing was sent
    exact hacks (by simpa using hsends)
  · intro hst
    have hsrc := (hcurrent hst).1
    exact hcurrent.answered plat hst hend (Option.some.inj (hmac.symm.trans hsrc))

/-- After BEGIN, frame and `loop()` of a push of one byte. -/
theorem end_answered_iff_tiny :
    Answered flawlessPlat (({} : EspNowPushReceiver).run flawlessPlat (tinyPush.take 3))
      ⟨{}, endPacket⟩ :=
  (end_answered_iff flawlessPlat (tinyPush.take 3) rfl (by decide +kernel)).2 (by decide +kernel)

/-- The END is repeated because both final acks were lost: the image is
committed, and the device is silent. -/
theorem repeated_end_unanswered :
    let r := ({} : EspNowPushReceiver).run flawlessPlat tinyPush
    r.sessionMac = some {} ∧ ended (updates r.trace) = true ∧
      sends (r.onControl flawlessPlat ⟨{}, endPacket⟩).trace = sends r.trace ∧
      ¬ Answered flawlessPlat r ⟨{}, endPacket⟩ := by
  intro r
  have hsilent : sends (r.onControl flawlessPlat ⟨{}, endPacket⟩).trace = sends r.trace := by
    decide +kernel
  refine ⟨by decide +kernel, by decide +kernel, hsilent, ?_⟩
  rintro ⟨acks, hacks, hsends, -⟩
  exact hacks (by simpa [hsilent] using hsends)

end EspNowPushReceiver

end InfinitagNow
