/-
InfinitagNow/PushAnswers.lean

What counts as an answer for the sender.

An ack for the current window does, and so does a final one.  Until one comes a
timeout sends BEGIN again (`Unheard`), and the sender gives up after a bounded
number of timeouts (`Patient.timeouts_le`, by induction on the events between
two acks).  An ack for another window is skipped as stale, but only behind the
flag and the counter: unless these say that nothing is waited for it stops the
BEGIN and starts the retries anew, and this is all that can go wrong
(`stale_acks_skipped_iff`).
-/
import InfinitagNow.PushMoves
import InfinitagNow.Runs

namespace InfinitagNow

namespace EspNowPushSender

variable {clock : ℕ → UInt32} {s s' : EspNowPushSender} {mac : Mac}

/-- The packet is an ack of the device the image goes to. -/
def IsAck (mac : Mac) (rx : RxPacket) : Prop := rx.mac = mac ∧ rx.pkt.msgType = msgPushAck

instance (mac : Mac) : DecidablePred (IsAck mac) := fun _ => inferInstanceAs (Decidable (_ ∧ _))

/-- A running session gets an ack for its current window. -/
def IsCurrent (s : EspNowPushSender) (rx : RxPacket) : Prop :=
  s.state = .pushing ∧ IsAck s.mac rx ∧
    (decodePushAck rx.pkt.payload).status = pushAckWindow ∧
    (decodePushAck rx.pkt.payload).window = s.window

/-- It gets one for another window. -/
def IsStale (s : EspNowPushSender) (rx : RxPacket) : Prop :=
  s.state = .pushing ∧ IsAck s.mac rx ∧
    (decodePushAck rx.pkt.payload).status = pushAckWindow ∧
    (decodePushAck rx.pkt.payload).window ≠ s.window

/-- It gets one with a final status. -/
def IsFinal (s : EspNowPushSender) (rx : RxPacket) : Prop :=
  s.state = .pushing ∧ IsAck s.mac rx ∧ (decodePushAck rx.pkt.payload).status ≠ pushAckWindow

instance (s : EspNowPushSender) : DecidablePred s.IsCurrent := fun _ =>
  inferInstanceAs (Decidable (_ ∧ _ ∧ _ ∧ _))

instance (s : EspNowPushSender) : DecidablePred s.IsStale := fun _ =>
  inferInstanceAs (Decidable (_ ∧ _ ∧ _ ∧ _))

instance (s : EspNowPushSender) : DecidablePred s.IsFinal := fun _ =>
  inferInstanceAs (Decidable (_ ∧ _ ∧ _))

/-- The event is no ack for the current window. -/
def NotCurrent (s : EspNowPushSender) : Event → Prop
  | .control rx => ¬ s.IsCurrent rx
  | _ => True

/-- Nor a final one. -/
def NoAnswer (s : EspNowPushSender) : Event → Prop
  | .control rx => ¬ s.IsCurrent rx ∧ ¬ s.IsFinal rx
  | _ => True

/-- A stale ack comes only when an ack has been heard and nothing was retried
since. -/
def Harmless (s : EspNowPushSender) : Event → Prop
  | .control rx => s.IsStale rx → s.gotAnyAck = true ∧ s.retries = 0
  | _ => True

instance (s : EspNowPushSender) : DecidablePred s.NotCurrent
  | .control rx => inferInstanceAs (Decidable (¬ s.IsCurrent rx))
  | .start _ | .loop => .isTrue trivial

instance (s : EspNowPushSender) : DecidablePred s.NoAnswer
  | .control rx => inferInstanceAs (Decidable (¬ s.IsCurrent rx ∧ ¬ s.IsFinal rx))
  | .start _ | .loop => .isTrue trivial

instance (s : EspNowPushSender) : DecidablePred s.Harmless
  | .control rx => inferInstanceAs (Decidable (s.IsStale rx → _ ∧ _))
  | .start _ | .loop => .isTrue trivial

/-- `loop` finds the deadline passed. -/
def Due (clock : ℕ → UInt32) (s : EspNowPushSender) : Prop :=
  s.state = .pushing ∧ ¬ clock s.reads < s.deadline

instance : Decidable (s.Due clock) := inferInstanceAs (Decidable (_ ∧ _))

/-- The timeouts of a run. -/
def timeouts (clock : ℕ → UInt32) (s : EspNowPushSender) : List Event → ℕ
  | [] => 0
  | .loop :: evs => (if s.Due clock then 1 else 0) + timeouts clock (s.loop clock) evs
  | ev :: evs => timeouts clock (s.step clock ev) evs

theorem timeouts_control (clock : ℕ → UInt32) (s : EspNowPushSender) (rx : RxPacket)
    (evs : List Event) :
    timeouts clock s (.control rx :: evs) = timeouts clock (s.step clock (.control rx)) evs := rfl

theorem timeouts_loop (clock : ℕ → UInt32) (s : EspNowPushSender) (evs : List Event) :
    timeouts clock s (.loop :: evs) =
      (if s.Due clock then 1 else 0) + timeouts clock (s.loop clock) evs := rfl

/-- How many timeouts are retried. -/
def retryLimit (s : EspNowPushSender) : ℕ := if s.endSent then 8 else 20

/-! ### Fields that stay -/

section Transmits

variable (s) (mask : UInt32)

theorem sendWindow_retries : (s.sendWindow mask).retries = s.retries := by
  rw [(s.sendWindow_transmits mask).eq]

theorem sendWindow_endSent : (s.sendWindow mask).endSent = s.endSent := by
  rw [(s.sendWindow_transmits mask).eq]

theorem sendWindow_mac : (s.sendWindow mask).mac = s.mac := by
  rw [(s.sendWindow_transmits mask).eq]

end Transmits

/-! ### Giving up -/

/-- The retries of a running session are within the limit. -/
structure Patient (mac : Mac) (s : EspNowPushSender) : Prop where
  mac : s.mac = mac
  le : s.state = .pushing → s.retries.toNat ≤ s.retryLimit

theorem retryLimit_le (s : EspNowPushSender) : s.retryLimit ≤ 20 := by
  unfold retryLimit
  split <;> omega

theorem Patient.retryLeft_iff (h : s.Patient mac) (hst : s.state = .pushing) :
    s.RetryLeft ↔ s.retries.toNat + 1 ≤ s.retryLimit := by
  have hle := h.le hst
  have hlimit := s.retryLimit_le
  have hsucc : (s.retries + 1).toNat = s.retries.toNat + 1 := by
    rw [UInt8.toNat_add, UInt8.toNat_one, Nat.mod_eq_of_lt (by omega)]
  have hif : (if s.endSent then 8 else 20 : UInt8).toNat = s.retryLimit := by
    unfold retryLimit
    split <;> rfl
  rw [RetryLeft, UInt8.le_iff_toNat_le, hsucc, hif]

/-- An ack starts the retries anew. -/
theorem Patient.answered (h : s.Patient mac) (hmac : s'.mac = s.mac) (hretries : s'.retries = 0) :
    s'.Patient mac :=
  ⟨hmac.trans h.mac, fun _ => by simp [hretries]⟩

theorem Patient.failed (h : s.Patient mac) (hmac : s'.mac = s.mac) (hst : s'.state ≠ .pushing) :
    s'.Patient mac :=
  ⟨hmac.trans h.mac, fun hpush => absurd hpush hst⟩

/-- One more retry. -/
theorem Patient.retried (h : s.Patient mac) (hst : s.state = .pushing) (hleft : s.RetryLeft)
    (hmac : s'.mac = s.mac) (hretries : s'.retries = s.retries + 1)
    (hend : s'.endSent = s.endSent) :
    s'.Patient mac ∧ s'.retries.toNat = s.retries.toNat + 1 ∧ s'.retryLimit = s.retryLimit := by
  have hle := (h.retryLeft_iff hst).1 hleft
  have hlimit := s.retryLimit_le
  have hsame : s'.retryLimit = s.retryLimit := by rw [retryLimit, retryLimit, hend]
  have hsucc : s'.retries.toNat = s.retries.toNat + 1 := by
    rw [hretries, UInt8.toNat_add, UInt8.toNat_one, Nat.mod_eq_of_lt (by omega)]
  exact ⟨⟨hmac.trans h.mac, fun _ => by omega⟩, hsucc, hsame⟩

/-- What a timeout does to the retries: the step is retried, or the sender gives
up because the limit is reached. -/
theorem Patient.due (h : s.Patient mac) (hdue : s.Due clock) :
    (s.retries.toNat + 1 ≤ s.retryLimit ∧ (s.loop clock).Patient mac ∧
      (s.loop clock).retries.toNat = s.retries.toNat + 1 ∧
      (s.loop clock).retryLimit = s.retryLimit) ∨
    (s.retries.toNat = s.retryLimit ∧ (s.loop clock).Patient mac ∧
      (s.loop clock).state = .failed) := by
  obtain ⟨hst, hpast⟩ := hdue
  have hle := h.le hst
  have hrule := loop_rule clock s
  generalize s.loop clock = s' at hrule
  cases hrule with
  | idle hne => exact absurd hst hne
  | early _ hearly => exact absurd hearly hpast
  | giveUp _ _ hno =>
    rw [h.retryLeft_iff hst] at hno
    exact .inr ⟨by omega, h.failed (by simp) (by simp), rfl⟩
  | endAgain _ _ hleft hend =>
    exact .inl ⟨(h.retryLeft_iff hst).1 hleft,
      h.retried hst hleft (by simp) (by simp) (by simp [hend])⟩
  | hello _ _ hleft =>
    exact .inl ⟨(h.retryLeft_iff hst).1 hleft,
      h.retried hst hleft (by simp [sendWindow_mac]) (by simp [sendWindow_retries])
        (by simp [sendWindow_endSent])⟩
  | again _ _ hleft =>
    exact .inl ⟨(h.retryLeft_iff hst).1 hleft,
      h.retried hst hleft (by simp [sendWindow_mac]) (by simp [sendWindow_retries])
        (by simp [sendWindow_endSent])⟩

/-- Before the deadline nothing but the clock changes. -/
theorem loop_of_not_due (hdue : ¬ s.Due clock) :
    s.loop clock = s ∨ s.loop clock = { s with reads := s.reads + 1 } := by
  have hrule := loop_rule clock s
  generalize s.loop clock = s' at hrule
  cases hrule with
  | idle => exact .inl rfl
  | early => exact .inr rfl
  | giveUp hst hpast | endAgain hst hpast | hello hst hpast | again hst hpast =>
    exact absurd ⟨hst, hpast⟩ hdue

/-- A stale ack that comes when nothing is waited for is skipped. -/
theorem heard_of_harmless {rx : RxPacket} (hstale : s.IsStale rx)
    (hharmless : s.Harmless (.control rx)) : s.heard = s := by
  obtain ⟨hgot, hretries⟩ := hharmless hstale
  rw [heard, ← hgot, ← hretries]

/-- A packet that is no ack for the current window changes nothing, or ends the
session. -/
theorem control_of_notCurrent (clock : ℕ → UInt32) {rx : RxPacket}
    (hcurrent : s.NotCurrent (.control rx))
    (hharmless : s.Harmless (.control rx)) :
    s.onControl clock rx = s ∨ (s.onControl clock rx).state ≠ .pushing := by
  have hrule := onControl_rule clock s rx
  generalize s.onControl clock rx = s' at hrule
  cases hrule with
  | ignore => exact .inl rfl
  | finish | reject => exact .inr (by simp)
  | stale _ hst hmac hack hwin hne =>
    exact .inl (heard_of_harmless ⟨hst, ⟨hmac, hack⟩, hwin, hne⟩ hharmless)
  | advance _ hst hmac hack hwin heq | last _ hst hmac hack hwin heq
  | resend _ hst hmac hack hwin heq => exact absurd ⟨hst, ⟨hmac, hack⟩, hwin, heq⟩ hcurrent

theorem Patient.rule {ev : Event} (hrule : Rule clock s ev s') (hev : ∀ a, ev ≠ .start a)
    (h : s.Patient mac) : s'.Patient mac := by
  cases hrule with
  | refuse a | start a => exact absurd rfl (hev a)
  | ignore | idle => exact h
  | finish | reject | giveUp => exact h.failed (by simp) (by simp)
  | stale => exact h.answered rfl rfl
  | advance | resend =>
    exact h.answered (by simp [sendWindow_mac]) (by simp [sendWindow_retries])
  | last => exact h.answered (by simp) (by simp)
  | early => exact ⟨h.mac, h.le⟩
  | endAgain hst _ hleft hend =>
    exact (h.retried hst hleft (by simp) (by simp) (by simp [hend])).1
  | hello hst _ hleft | again hst _ hleft =>
    exact (h.retried hst hleft (by simp [sendWindow_mac]) (by simp [sendWindow_retries])
      (by simp [sendWindow_endSent])).1

theorem Patient.run (h : s.Patient mac) (clock : ℕ → UInt32) {evs : List Event}
    (hevs : ∀ a, .start a ∉ evs) : (s.run clock evs).Patient mac :=
  session_invariant Patient.rule h hevs

/-- A session that has ended does nothing. -/
theorem run_of_not_pushing (hst : s.state ≠ .pushing) {evs : List Event}
    (hevs : ∀ a, .start a ∉ evs) : s.run clock evs = s := by
  induction evs with
  | nil => rfl
  | cons ev evs ih =>
    have hstep : s.step clock ev = s :=
      (step_rule clock s ev).eq_of_not_pushing (by rintro a rfl; exact hevs a (by simp)) hst
    show (s.step clock ev).run clock evs = s
    rw [hstep]
    exact ih fun a hmem => hevs a (List.mem_cons_of_mem _ hmem)

/-- Only a running session has timeouts. -/
theorem timeouts_of_not_pushing (hst : s.state ≠ .pushing) {evs : List Event}
    (hevs : ∀ a, .start a ∉ evs) : timeouts clock s evs = 0 := by
  induction evs with
  | nil => rfl
  | cons ev evs ih =>
    have htail := ih fun a hmem => hevs a (List.mem_cons_of_mem _ hmem)
    cases ev with
    | start a => exact absurd (List.mem_cons_self ..) (hevs a)
    | loop =>
      rw [timeouts, if_neg fun hdue => hst hdue.1, loop, if_pos hst, htail]
    | control rx =>
      have hstep : s.step clock (.control rx) = s := by
        rw [step, onControl, if_pos (.inl hst)]
      rw [timeouts_control, hstep, htail]

/-- **Giving up**: without an ack for the current window, at most as many timeouts
are retried as the limit has left; one more and the sender has failed. -/
theorem Patient.timeouts_le (h : s.Patient mac) (clock : ℕ → UInt32) (hst : s.state = .pushing)
    {evs : List Event} (hevs : ∀ a, .start a ∉ evs)
    (hcurrent : Along (EspNowPushSender.step clock) NotCurrent s evs)
    (hharmless : Along (EspNowPushSender.step clock) Harmless s evs) :
    s.retries.toNat + timeouts clock s evs ≤ s.retryLimit + 1 ∧
      (s.retries.toNat + timeouts clock s evs = s.retryLimit + 1 →
        (s.run clock evs).state = .failed) := by
  induction evs generalizing s with
  | nil =>
    have := h.le hst
    exact ⟨by simp [timeouts]; omega, fun heq => by simp [timeouts] at heq; omega⟩
  | cons ev evs ih =>
    have htail : ∀ a, .start a ∉ evs := fun a hmem => hevs a (List.mem_cons_of_mem _ hmem)
    obtain ⟨hcurrent, hcurrent'⟩ := hcurrent
    obtain ⟨hharmless, hharmless'⟩ := hharmless
    cases ev with
    | start a => exact absurd (List.mem_cons_self ..) (hevs a)
    | control rx =>
      rw [timeouts_control]
      show _ ∧ (_ → ((s.step clock (.control rx)).run clock evs).state = .failed)
      rcases control_of_notCurrent clock hcurrent hharmless with hsame | hended
      · have hstep : s.step clock (.control rx) = s := hsame
        rw [hstep] at hcurrent' hharmless' ⊢
        exact ih h hst htail hcurrent' hharmless'
      · -- a final ack
        have hle := h.le hst
        rw [timeouts_of_not_pushing (s := s.step clock (.control rx)) hended htail]
        exact ⟨by omega, fun heq => by omega⟩
    | loop =>
      rw [timeouts_loop]
      show _ ∧ (_ → ((s.loop clock).run clock evs).state = .failed)
      by_cases hdue : s.Due clock
      · rw [if_pos hdue]
        rcases h.due hdue with ⟨hleft, h', hretries, hlimit⟩ | ⟨hfull, h', hfailed⟩
        · by_cases hst' : (s.loop clock).state = .pushing
          · obtain ⟨hle, hfail⟩ := ih h' hst' htail hcurrent' hharmless'
            rw [hretries, hlimit] at hle hfail
            exact ⟨by omega, fun heq => hfail (by omega)⟩
          · -- the read callback failed while the step was sent again
            rw [timeouts_of_not_pushing hst' htail]
            exact ⟨by omega, fun heq => by omega⟩
        · have hst' : (s.loop clock).state ≠ .pushing := by simp [hfailed]
          rw [timeouts_of_not_pushing hst' htail, run_of_not_pushing hst' htail]
          exact ⟨by omega, fun _ => hfailed⟩
      · rw [if_neg hdue, Nat.zero_add]
        have hstep : s.step clock .loop = s.loop clock := rfl
        rw [hstep] at hcurrent' hharmless'
        rcases loop_of_not_due hdue with heq | heq
        · rw [heq] at hcurrent' hharmless' ⊢
          exact ih h hst htail hcurrent' hharmless'
        · rw [heq] at hcurrent' hharmless' ⊢
          exact ih (s := { s with reads := s.reads + 1 }) ⟨h.mac, h.le⟩ hst htail hcurrent'
            hharmless'

/-! ### The start again -/

/-- Nothing has been heard since the session began. -/
structure Unheard (a : PushArgs) (s : EspNowPushSender) : Prop where
  mac : s.mac = a.mac
  begin : (⟨s.size, s.crc, s.maj, s.min, s.pat⟩ : PushBegin) = ⟨a.size, a.crc, a.maj, a.min, a.pat⟩
  window : s.window = 0
  endSent : s.endSent = false
  gotAnyAck : s.gotAnyAck = false

variable {a : PushArgs}

theorem Unheard.sendWindow (h : s.Unheard a) (mask : UInt32) : (s.sendWindow mask).Unheard a := by
  rw [(s.sendWindow_transmits mask).eq]
  exact ⟨h.mac, h.begin, h.window, h.endSent, h.gotAnyAck⟩

theorem Unheard.wait (h : s.Unheard a) (ms : UInt32) : (s.wait clock ms).Unheard a :=
  ⟨h.mac, h.begin, h.window, h.endSent, h.gotAnyAck⟩

/-- The step lemma: only an answer is heard, and a stale ack would come too
early. -/
theorem Unheard.rule {ev : Event} (hrule : Rule clock s ev s') (hev : ∀ a, ev ≠ .start a)
    (hanswer : s.NoAnswer ev) (hharmless : s.Harmless ev) (h : s.Unheard a) : s'.Unheard a := by
  have hbegin : s.retried.sendBegin.Unheard a :=
    ⟨h.mac, h.begin, h.window, h.endSent, h.gotAnyAck⟩
  cases hrule with
  | refuse b | start b => exact absurd rfl (hev b)
  | ignore | idle => exact h
  | finish rx hst hmac hok =>
    have hstatus : (decodePushAck rx.pkt.payload).status ≠ pushAckWindow := by
      rw [hok.2]
      decide
    exact absurd ⟨hst, ⟨hmac, hok.1⟩, hstatus⟩ hanswer.2
  | reject rx hst hmac hack _ hwin => exact absurd ⟨hst, ⟨hmac, hack⟩, hwin⟩ hanswer.2
  | stale rx hst hmac hack hwin hne =>
    have hgot := (hharmless ⟨hst, ⟨hmac, hack⟩, hwin, hne⟩).1
    exact absurd (hgot.symm.trans h.gotAnyAck) (by decide)
  | advance rx hst hmac hack hwin heq | last rx hst hmac hack hwin heq
  | resend rx hst hmac hack hwin heq =>
    exact absurd ⟨hst, ⟨hmac, hack⟩, hwin, heq⟩ hanswer.1
  | early => exact ⟨h.mac, h.begin, h.window, h.endSent, h.gotAnyAck⟩
  | giveUp => exact ⟨h.mac, h.begin, h.window, h.endSent, h.gotAnyAck⟩
  | endAgain _ _ _ hend => exact absurd (hend.symm.trans h.endSent) (by decide)
  | hello => exact (hbegin.sendWindow _).wait 500
  | again _ _ _ _ hgot => exact absurd (hgot.symm.trans h.gotAnyAck) (by decide)

theorem Unheard.run (h : s.Unheard a) (clock : ℕ → UInt32) {evs : List Event}
    (hevs : ∀ a, .start a ∉ evs)
    (hanswer : Along (EspNowPushSender.step clock) NoAnswer s evs)
    (hharmless : Along (EspNowPushSender.step clock) Harmless s evs) :
    (s.run clock evs).Unheard a := by
  refine (hanswer.and hharmless).run (I := fun s => s.Unheard a)
    (fun {s ev} hmem hboth h => ?_) h
  exact h.rule (step_rule clock s ev) (by rintro b rfl; exact hevs b hmem) hboth.1 hboth.2

/-- A timeout sends the start again, and then frames of the first window; or the
sender gives up. -/
theorem Unheard.due (h : s.Unheard a) (hdue : s.Due clock) :
    (∃ new, (∀ o ∈ new, s.RawOf o) ∧ (s.loop clock).out =
      s.out ++ .control a.mac (beginPacket ⟨a.size, a.crc, a.maj, a.min, a.pat⟩) :: new) ∨
    (s.loop clock).out = s.out ∧ (s.loop clock).state = .failed ∧
      (s.loop clock).finalStatus = 0xFE := by
  have hrule := loop_rule clock s
  generalize s.loop clock = s' at hrule
  cases hrule with
  | idle hne => exact absurd hdue.1 hne
  | early _ hearly => exact absurd hearly hdue.2
  | giveUp => exact .inr ⟨rfl, rfl, rfl⟩
  | endAgain _ _ _ hend => exact absurd (hend.symm.trans h.endSent) (by decide)
  | again _ _ _ _ hgot => exact absurd (hgot.symm.trans h.gotAnyAck) (by decide)
  | hello =>
    left
    obtain ⟨new, hout, hnew⟩ :=
      (s.retried.sendBegin.sendWindow_transmits (s.windowMask s.window)).out
    refine ⟨new, hnew, ?_⟩
    rw [wait_out, hout, sendBegin_out, List.append_assoc, retried_out]
    simp only [retried_mac, retried_size, retried_crc, retried_maj, retried_min, retried_pat,
      h.begin, h.mac]
    rfl

/-! ### Sessions -/

/-- An accepted `start`. -/
theorem start_accepted (hstart : (s.start clock a).1 = true) :
    (s.start clock a).2.Patient a.mac ∧ (s.start clock a).2.Unheard a := by
  have hargs : ¬ (a.size = 0 ∨ a.read.isNone) := by
    intro hrefused
    rw [start, if_pos hrefused] at hstart
    exact Bool.false_ne_true hstart
  have hbegin : (s.openSession a).sendBegin.Unheard a := ⟨rfl, rfl, rfl, rfl, rfl⟩
  rw [start_of_args clock s hargs]
  refine ⟨⟨?_, fun _ => ?_⟩, (hbegin.sendWindow _).wait 500⟩
  · simp [sendWindow_mac]
  · simp [sendWindow_retries]

/-- Stale acks do not count as an answer, in the session that goes on from `s` with
`evs`. -/
structure StaleSkipped (clock : ℕ → UInt32) (a : PushArgs) (s : EspNowPushSender)
    (evs : List Event) : Prop where
  /-- until an answer comes every timeout sends the start again -/
  hello : ∀ pre post, evs = pre ++ .loop :: post →
    Along (EspNowPushSender.step clock) NoAnswer s pre → (s.run clock pre).Due clock →
      (s.run clock pre).window = 0 ∧
      ((∃ new, (∀ o ∈ new, (s.run clock pre).RawOf o) ∧
        ((s.run clock pre).loop clock).out = (s.run clock pre).out ++
          .control a.mac (beginPacket ⟨a.size, a.crc, a.maj, a.min, a.pat⟩) :: new) ∨
      ((s.run clock pre).loop clock).out = (s.run clock pre).out ∧
        ((s.run clock pre).loop clock).state = .failed ∧
        ((s.run clock pre).loop clock).finalStatus = 0xFE)
  /-- without an ack for the current window the retries come to an end -/
  givesUp : ∀ pre mid post, evs = pre ++ mid ++ post →
    Along (EspNowPushSender.step clock) NotCurrent (s.run clock pre) mid →
      timeouts clock (s.run clock pre) mid ≤ (s.run clock pre).retryLimit + 1 ∧
        (timeouts clock (s.run clock pre) mid = (s.run clock pre).retryLimit + 1 →
          ((s.run clock pre).run clock mid).state = .failed)
  /-- an ack for another window changes nothing -/
  unchanged : ∀ pre rx post, evs = pre ++ .control rx :: post → (s.run clock pre).IsStale rx →
    (s.run clock pre).onControl clock rx = s.run clock pre

/-- What a stale ack does. -/
theorem onControl_of_stale {rx : RxPacket} (hstale : s.IsStale rx) :
    s.onControl clock rx = s.heard := by
  obtain ⟨hst, ⟨hmac, hack⟩, hwin, hne⟩ := hstale
  have hok : (decodePushAck rx.pkt.payload).status ≠ pushAckFinalOk := by
    rw [hwin]
    decide
  rw [onControl, if_neg (by simp [hst, hmac]), if_neg (by simp [hack]), onAck, if_neg hok,
    if_neg (not_not.2 hwin)]
  exact if_pos hne

/-- **Stale acks are skipped** in a session exactly when each of them comes after an
ack has been heard and before anything was retried since.  Flag and counter are
written before the window is looked at. -/
theorem stale_acks_skipped_iff (clock : ℕ → UInt32) (s₀ : EspNowPushSender) (a : PushArgs)
    (hstart : (s₀.start clock a).1 = true) (evs : List Event) (hevs : ∀ a, .start a ∉ evs) :
    StaleSkipped clock a (s₀.start clock a).2 evs ↔
      Along (EspNowPushSender.step clock) Harmless (s₀.start clock a).2 evs := by
  constructor
  · intro h
    refine along_iff.2 fun pre ev post hsplit => ?_
    cases ev with
    | start | loop => trivial
    | control rx =>
      intro hstale
      have hsame := (onControl_of_stale hstale).symm.trans (h.unchanged pre rx post hsplit hstale)
      exact ⟨(congrArg gotAnyAck hsame).symm, (congrArg retries hsame).symm⟩
  · intro hharmless
    obtain ⟨hpatient, hunheard⟩ := start_accepted hstart
    refine ⟨fun pre post hsplit hanswer hdue => ?_, fun pre mid post hsplit hcurrent => ?_,
      fun pre rx post hsplit hstale => ?_⟩
    · subst hsplit
      have hpre : ∀ a, .start a ∉ pre := fun b hmem => hevs b (List.mem_append_left _ hmem)
      have h := hunheard.run clock hpre hanswer (along_append.1 hharmless).1
      exact ⟨h.window, h.due hdue⟩
    · subst hsplit
      have hpre : ∀ a, .start a ∉ pre := fun b hmem => hevs b (by simp [hmem])
      have hmid : ∀ a, .start a ∉ mid := fun b hmem => hevs b (by simp [hmem])
      have hs := hpatient.run clock hpre
      by_cases hst : ((s₀.start clock a).2.run clock pre).state = .pushing
      · obtain ⟨hle, hfail⟩ := hs.timeouts_le clock hst hmid hcurrent
          (along_append.1 (along_append.1 hharmless).1).2
        exact ⟨by omega, fun heq => hfail (by omega)⟩
      · rw [timeouts_of_not_pushing hst hmid]
        exact ⟨by omega, fun heq => by omega⟩
    · rw [onControl_of_stale hstale]
      exact heard_of_harmless hstale (along_iff.1 hharmless pre _ post hsplit)

/-- A push of an image of one byte, just started, under a clock that runs out
every deadline. -/
def oneByteStarted : EspNowPushSender :=
  (({} : EspNowPushSender).start (fun k => UInt32.ofNat (3000 * k))
    { mac := {}, read := some (readOf [7]), size := 1, crc := 0 }).2

/-- The device reports a window done. -/
def windowAck (window : UInt16) : RxPacket := ⟨{}, ackPacket ⟨window, 0, pushAckWindow, 0⟩⟩

/-- The ack for window 0 comes twice, and then nothing for 9 timeouts. -/
theorem stale_acks_skipped_iff_oneByte :
    let clock := fun k => UInt32.ofNat (3000 * k)
    let s := oneByteStarted.step clock (.control (windowAck 0))
    timeouts clock s (.control (windowAck 0) :: .replicate 9 .loop) = 9 ∧
      (s.run clock (.control (windowAck 0) :: .replicate 9 .loop)).state = .failed := by
  intro clock s
  have hskipped := (stale_acks_skipped_iff clock {}
    { mac := {}, read := some (readOf [7]), size := 1, crc := 0 } rfl
    (.control (windowAck 0) :: .control (windowAck 0) :: .replicate 9 .loop) (by simp)).2
    (by decide +kernel)
  have hcount : timeouts clock s (.control (windowAck 0) :: .replicate 9 .loop) = 9 := by
    decide +kernel
  exact ⟨hcount, (hskipped.givesUp [.control (windowAck 0)]
    (.control (windowAck 0) :: .replicate 9 .loop) [] rfl (by decide +kernel)).2 hcount⟩

/-- The start and the only frame are lost, and two acks come that a push before has
left on their way. -/
def staleRun : List Event :=
  .control (windowAck 5) :: (.replicate 20 .loop ++ .control (windowAck 5) :: .replicate 20 .loop)

/-- A stale ack is taken for an answer: it changes the state, the start is not sent
again, and 40 timeouts are retried. -/
theorem stale_ack_is_answer :
    let clock := fun k => UInt32.ofNat (3000 * k)
    let a : PushArgs := { mac := {}, read := some (readOf [7]), size := 1, crc := 0 }
    let s := oneByteStarted.step clock (.control (windowAck 5))
    ¬ StaleSkipped clock a oneByteStarted staleRun ∧
      oneByteStarted.IsStale (windowAck 5) ∧ s.gotAnyAck ≠ oneByteStarted.gotAnyAck ∧
      s.Due clock ∧ (s.loop clock).out = s.out ++ [.raw {} (imageFrame [7] 0)] ∧
      Along (EspNowPushSender.step clock) NoAnswer oneByteStarted staleRun ∧
      timeouts clock oneByteStarted staleRun = 40 ∧
      (oneByteStarted.run clock staleRun).state = .pushing := by
  intro clock a s
  refine ⟨fun h => ?_, by decide +kernel, by decide +kernel, by decide +kernel, by decide +kernel,
    by decide +kernel, by decide +kernel, by decide +kernel⟩
  have hsame := h.unchanged [] (windowAck 5) _ rfl (by decide +kernel)
  have hgot : (oneByteStarted.onControl clock (windowAck 5)).gotAnyAck ≠
      oneByteStarted.gotAnyAck := by decide +kernel
  exact hgot (congrArg gotAnyAck hsame)

end EspNowPushSender

end InfinitagNow
