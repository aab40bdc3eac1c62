/-
InfinitagNow/PushRestart.lean

What a push remembers of the ones before (`EspNowPushSender` of
`src/EspNowPush.{h,cpp}`).

A session in an object that has pushed before is the session of a new object,
carried over into it: the clock and the read callback have been called before,
and the radio has been given something already (`resumed`).  Every operation
commutes with this.  `start` sets every field a session reads; the one it leaves
is `_finalDetail` (`detailed`), which no operation reads, so that two sessions
look the same in all but `finalDetail()`, and in that as well exactly when they
begin with the same.
-/
import InfinitagNow.PushAnswers

namespace InfinitagNow

/-- The stream from the `n`-th element on is `f`. -/
def since {α : Type*} (n : ℕ) (f : ℕ → α) : ℕ → α := fun k => f (k - n)

@[simp] theorem since_add {α : Type*} (n k : ℕ) (f : ℕ → α) : since n f (n + k) = f k := by
  simp [since]

/-- The arguments when the callback has been called `n` times before. -/
def PushArgs.since (a : PushArgs) (n : ℕ) : PushArgs :=
  { a with read := a.read.map (InfinitagNow.since n) }

namespace EspNowPushSender

variable {clock : ℕ → UInt32} {s t c : EspNowPushSender}

/-- The state after `start` and some events, when the clock readings from now on
are those of `clock` and the callback's answers those of `a.read`. -/
def session (clock : ℕ → UInt32) (a : PushArgs) (s : EspNowPushSender) (evs : List Event) :
    EspNowPushSender :=
  (s.start (since s.reads clock) (a.since s.readCalls.length)).2.run (since s.reads clock) evs

/-- What was handed to the radio since `s`, and what the caller can ask for but
the detail of the final status. -/
def shown (s s' : EspNowPushSender) : List Out × SendState × UInt32 × UInt32 × UInt8 :=
  (s'.out.drop s.out.length, s'.state, s'.ackedBytes, s'.size, s'.finalStatus)

/-! ### Carrying a session over -/

/-- The object `c`, as if what `s` has done had come before. -/
def resumed (s c : EspNowPushSender) : EspNowPushSender :=
  { c with
    read := c.read.map (since s.readCalls.length)
    reads := s.reads + c.reads
    readCalls := s.readCalls ++ c.readCalls
    out := s.out ++ c.out }

/-- The object with the detail `d` of an earlier session. -/
def detailed (d : UInt8) (c : EspNowPushSender) : EspNowPushSender := { c with finalDetail := d }

def expiring (d : UInt32) (c : EspNowPushSender) : EspNowPushSender := { c with deadline := d }

/-- A change of the object that sending frames does not notice. -/
structure Unnoticed (F : EspNowPushSender → EspNowPushSender) : Prop where
  first : ∀ c, (F c).first = c.first
  total : ∀ c, (F c).totalFrames = c.totalFrames
  size : ∀ c, (F c).size = c.size
  mac : ∀ c, (F c).mac = c.mac
  readAt : ∀ c offset len, (F c).readAt offset len = c.readAt offset len
  called : ∀ c idx, (F c).called idx = F (c.called idx)
  emit : ∀ c o, (F c).emit o = F (c.emit o)
  unread : ∀ c, (F c).unread = F c.unread

theorem Unnoticed.sendFrames {F : EspNowPushSender → EspNowPushSender} (h : Unnoticed F)
    (c : EspNowPushSender) (mask : UInt32) (i n : ℕ) :
    (F c).sendFrames mask i n = F (c.sendFrames mask i n) := by
  induction n generalizing i c with
  | zero => rfl
  | succ n ih =>
    simp only [sendFrames_succ, h.first, h.total, h.size, h.mac, h.readAt, h.called, h.emit,
      h.unread, ih, apply_ite F]

theorem Unnoticed.sendWindow {F : EspNowPushSender → EspNowPushSender} (h : Unnoticed F)
    (c : EspNowPushSender) (mask : UInt32) : (F c).sendWindow mask = F (c.sendWindow mask) :=
  h.sendFrames c mask 0 16

theorem emit_resumed (s c : EspNowPushSender) (o : Out) :
    (resumed s c).emit o = resumed s (c.emit o) := by
  simp [resumed, emit]

theorem unnoticed_resumed (s : EspNowPushSender) : Unnoticed (resumed s) where
  first _ := rfl
  total _ := rfl
  size _ := rfl
  mac _ := rfl
  readAt c offset len := by
    cases hread : c.read <;> simp [EspNowPushSender.readAt, resumed, hread]
  called c idx := by simp [resumed, EspNowPushSender.called]
  emit := emit_resumed s
  unread _ := rfl

theorem unnoticed_detailed (d : UInt8) : Unnoticed (detailed d) :=
  ⟨fun _ => rfl, fun _ => rfl, fun _ => rfl, fun _ => rfl, fun _ _ _ => rfl, fun _ _ => rfl,
    fun _ _ => rfl, fun _ => rfl⟩

theorem unnoticed_expiring (d : UInt32) : Unnoticed (expiring d) :=
  ⟨fun _ => rfl, fun _ => rfl, fun _ => rfl, fun _ => rfl, fun _ _ _ => rfl, fun _ _ => rfl,
    fun _ _ => rfl, fun _ => rfl⟩

/-! ### Operations on a resumed object -/

/-- The clock was read, and it was too early. -/
def ticked (c : EspNowPushSender) : EspNowPushSender := { c with reads := c.reads + 1 }

def gaveUp (c : EspNowPushSender) : EspNowPushSender :=
  { c with finalStatus := 0xFE, state := .failed }

/-- `loop()` path by path. -/
theorem loop_def (clock : ℕ → UInt32) (c : EspNowPushSender) :
    c.loop clock =
      if c.state ≠ .pushing then c
      else if clock c.reads < c.deadline then c.ticked
      else if c.retries + 1 > (if c.endSent then 8 else 20) then c.retried.gaveUp
      else if c.endSent then c.retried.sendEnd.wait clock 2000
      else if c.gotAnyAck then
        (c.retried.sendWindow (c.windowMask c.window)).wait clock 500
      else (c.retried.sendBegin.sendWindow (c.windowMask c.window)).wait clock 500 := by
  by_cases hst : c.state = .pushing
  · by_cases hdue : clock c.reads < c.deadline
    · simp [loop, hst, hdue, ticked]
    · have heq : c.loop clock = c.ticked.retry clock := by simp [loop, hst, hdue, ticked]
      have hdef : c.ticked.retry clock =
          if c.retries + 1 > (if c.endSent then 8 else 20) then c.retried.gaveUp
          else if c.endSent then c.retried.sendEnd.wait clock 2000
          else ((if c.gotAnyAck then c.retried else c.retried.sendBegin).sendWindow
            ((if c.gotAnyAck then c.retried else c.retried.sendBegin).windowMask
              (if c.gotAnyAck then c.retried else c.retried.sendBegin).window)).wait
                clock 500 := rfl
      rw [heq, hdef, if_neg (not_not.2 hst), if_neg hdue]
      cases c.gotAnyAck <;> rfl
  · rw [loop, if_pos hst, if_pos hst]

section Resumed

variable (s c : EspNowPushSender)

theorem wait_resumed (clock : ℕ → UInt32) (ms : UInt32) :
    (resumed s c).wait (since s.reads clock) ms = resumed s (c.wait clock ms) := by
  simp [resumed, wait, Nat.add_assoc]

theorem sendBegin_resumed : (resumed s c).sendBegin = resumed s c.sendBegin :=
  emit_resumed s c _

theorem sendEnd_resumed : (resumed s c).sendEnd = resumed s c.sendEnd := by
  simp [resumed, sendEnd, emit]

theorem sendWindow_resumed (mask : UInt32) :
    (resumed s c).sendWindow mask = resumed s (c.sendWindow mask) :=
  (unnoticed_resumed s).sendWindow c mask

theorem advance_resumed (clock : ℕ → UInt32) :
    (resumed s c).advance (since s.reads clock) = resumed s (c.advance clock) := by
  have hnext : (resumed s c).nextWindow = resumed s c.nextWindow := rfl
  simp only [advance, hnext, apply_ite (resumed s), ← wait_resumed, ← sendEnd_resumed,
    ← sendWindow_resumed]
  rfl

theorem onAck_resumed (clock : ℕ → UInt32) (a : PushAck) :
    (resumed s c).onAck (since s.reads clock) a = resumed s (c.onAck clock a) := by
  have hheard : (resumed s c).heard = resumed s c.heard := rfl
  simp only [onAck, hheard, apply_ite (resumed s), ← wait_resumed, ← sendWindow_resumed,
    ← advance_resumed]
  rfl

theorem loop_resumed (clock : ℕ → UInt32) :
    (resumed s c).loop (since s.reads clock) = resumed s (c.loop clock) := by
  have hclock : since s.reads clock (resumed s c).reads = clock c.reads := since_add _ _ _
  simp only [loop_def, hclock, apply_ite (resumed s), ← wait_resumed, ← sendWindow_resumed,
    ← sendEnd_resumed, ← sendBegin_resumed]
  rfl

theorem step_resumed (clock : ℕ → UInt32) {ev : Event} (hev : ∀ a, ev ≠ .start a) :
    (resumed s c).step (since s.reads clock) ev = resumed s (c.step clock ev) := by
  cases ev with
  | start a => exact absurd rfl (hev a)
  | loop => exact loop_resumed s c clock
  | control rx =>
    show onControl _ _ _ = resumed s (c.onControl clock rx)
    simp only [onControl, apply_ite (resumed s), ← onAck_resumed]
    rfl

end Resumed

/-- The run lemma: a session goes on alike in a resumed object. -/
theorem run_resumed (clock : ℕ → UInt32) (s c : EspNowPushSender) {evs : List Event}
    (hevs : ∀ a, .start a ∉ evs) :
    (resumed s c).run (since s.reads clock) evs = resumed s (c.run clock evs) := by
  induction evs generalizing c with
  | nil => rfl
  | cons ev evs ih =>
    have hev : ∀ a, ev ≠ .start a := fun a heq => hevs a (by simp [heq])
    show ((resumed s c).step _ ev).run _ evs = resumed s ((c.step clock ev).run clock evs)
    rw [step_resumed s c clock hev]
    exact ih _ fun a hmem => hevs a (List.mem_cons_of_mem _ hmem)

/-! ### The detail of an earlier session -/

section Detailed

variable (clock : ℕ → UInt32) (c : EspNowPushSender)

theorem wait_detailed (d : UInt8) (ms : UInt32) :
    (detailed d c).wait clock ms = detailed d (c.wait clock ms) := rfl

theorem sendBegin_detailed (d : UInt8) : (detailed d c).sendBegin = detailed d c.sendBegin := rfl

theorem sendEnd_detailed (d : UInt8) : (detailed d c).sendEnd = detailed d c.sendEnd := rfl

theorem sendWindow_detailed (d : UInt8) (mask : UInt32) :
    (detailed d c).sendWindow mask = detailed d (c.sendWindow mask) :=
  (unnoticed_detailed d).sendWindow c mask

theorem advance_detailed (d : UInt8) :
    (detailed d c).advance clock = detailed d (c.advance clock) := by
  have hnext : (detailed d c).nextWindow = detailed d c.nextWindow := rfl
  simp only [advance, hnext, apply_ite (detailed d), ← wait_detailed, ← sendEnd_detailed,
    ← sendWindow_detailed]
  rfl

theorem loop_detailed (d : UInt8) : (detailed d c).loop clock = detailed d (c.loop clock) := by
  simp only [loop_def, apply_ite (detailed d), ← wait_detailed, ← sendWindow_detailed,
    ← sendEnd_detailed, ← sendBegin_detailed]
  rfl

/-- An ack leaves the detail, or it is a final error and brings its own. -/
theorem onAck_detailed (a : PushAck) :
    (∀ d, (detailed d c).onAck clock a = detailed d (c.onAck clock a)) ∨
      ∀ d, (detailed d c).onAck clock a = c.onAck clock a := by
  have hheard : ∀ d, (detailed d c).heard = detailed d c.heard := fun _ => rfl
  by_cases hok : a.status = pushAckFinalOk
  · left
    intro d
    simp only [onAck, if_pos hok]
    rfl
  · by_cases hwin : a.status = pushAckWindow
    · left
      intro d
      simp only [onAck, if_neg hok, if_neg (not_not.2 hwin), hheard, apply_ite (detailed d),
        ← wait_detailed, ← sendWindow_detailed, ← advance_detailed]
      rfl
    · right
      intro d
      simp only [onAck, if_neg hok, ne_eq, if_pos hwin]
      rfl

theorem step_detailed {ev : Event} (hev : ∀ a, ev ≠ .start a) :
    (∀ d, (detailed d c).step clock ev = detailed d (c.step clock ev)) ∨
      ∀ d, (detailed d c).step clock ev = c.step clock ev := by
  cases ev with
  | start a => exact absurd rfl (hev a)
  | loop => exact .inl (loop_detailed clock c)
  | control rx =>
    -- whether the packet is an ack for this session is not told by the detail
    by_cases hack : (c.state = .pushing ∧ rx.mac = c.mac) ∧ rx.pkt.msgType = msgPushAck
    · have htaken : ∀ c' : EspNowPushSender, c'.state = c.state → c'.mac = c.mac →
          c'.step clock (.control rx) = c'.onAck clock (decodePushAck rx.pkt.payload) := by
        intro c' hst hmac
        simp [step, onControl, hst, hmac, hack]
      have hdetailed := fun d => htaken (detailed d c) rfl rfl
      simp only [hdetailed, htaken c rfl rfl]
      exact onAck_detailed clock c _
    · have hignored : ∀ c' : EspNowPushSender, c'.state = c.state → c'.mac = c.mac →
          c'.step clock (.control rx) = c' := by
        intro c' hst hmac
        rw [step, onControl, hst, hmac]
        split
        · rfl
        · rename_i hsession
          refine if_pos fun hmsg => hack ⟨?_, hmsg⟩
          simpa using hsession
      left
      intro d
      rw [hignored c rfl rfl]
      exact hignored _ rfl rfl

/-- The run lemma: the detail stays what it was, or has been overwritten, and
nothing else depends on it. -/
theorem run_detailed {evs : List Event} (hevs : ∀ a, .start a ∉ evs) :
    (∀ d, (detailed d c).run clock evs = detailed d (c.run clock evs)) ∨
      ∀ d, (detailed d c).run clock evs = c.run clock evs := by
  induction evs generalizing c with
  | nil => exact .inl fun _ => rfl
  | cons ev evs ih =>
    have hev : ∀ a, ev ≠ .start a := fun a heq => hevs a (by simp [heq])
    have hrun : ∀ c', run clock c' (ev :: evs) = (c'.step clock ev).run clock evs := fun _ => rfl
    simp only [hrun]
    rcases step_detailed clock c hev with hstep | hstep
    · simp only [hstep]
      exact ih _ fun a hmem => hevs a (List.mem_cons_of_mem _ hmem)
    · right
      intro d
      rw [hstep]

end Detailed

/-! ### Sessions -/

/-- `start` leaves nothing of what was before but the detail. -/
theorem start_resumed (clock : ℕ → UInt32) (s : EspNowPushSender) {a : PushArgs}
    (ha : ¬ (a.size = 0 ∨ a.read.isNone)) :
    (s.start (since s.reads clock) (a.since s.readCalls.length)).2 =
      resumed s (detailed s.finalDetail (({} : EspNowPushSender).start clock a).2) := by
  have ha' : ¬ ((a.since s.readCalls.length).size = 0 ∨
      (a.since s.readCalls.length).read.isNone) := by
    simpa [PushArgs.since] using ha
  rw [start_of_args _ s ha', start_of_args clock {} ha]
  -- the deadline of an earlier session is left, too, until it is set anew
  have hopen : s.openSession (a.since s.readCalls.length) =
      resumed s (detailed s.finalDetail (expiring s.deadline
        (({} : EspNowPushSender).openSession a))) := by
    simp [resumed, detailed, expiring, openSession, PushArgs.since]
  have hmask : (s.openSession (a.since s.readCalls.length)).windowMask 0 =
      (({} : EspNowPushSender).openSession a).windowMask 0 := rfl
  have hbegin : (expiring s.deadline (({} : EspNowPushSender).openSession a)).sendBegin =
      expiring s.deadline (({} : EspNowPushSender).openSession a).sendBegin := rfl
  rw [hmask, hopen, sendBegin_resumed, sendBegin_detailed, hbegin, sendWindow_resumed,
    sendWindow_detailed, (unnoticed_expiring _).sendWindow, wait_resumed, wait_detailed]
  rfl

theorem session_eq (clock : ℕ → UInt32) {a : PushArgs} (ha : ¬ (a.size = 0 ∨ a.read.isNone))
    (s : EspNowPushSender) {evs : List Event} (hevs : ∀ b, .start b ∉ evs) :
    session clock a s evs =
      resumed s
        ((detailed s.finalDetail (({} : EspNowPushSender).start clock a).2).run clock evs) := by
  rw [session, start_resumed clock s ha, run_resumed clock s _ hevs]

theorem shown_resumed (s c : EspNowPushSender) :
    shown s (resumed s c) = (c.out, c.state, c.ackedBytes, c.size, c.finalStatus) := by
  simp [shown, resumed]

/-- Whatever was before, a session looks the same in all but `finalDetail()`. -/
theorem session_shown (clock : ℕ → UInt32) {a : PushArgs} (ha : ¬ (a.size = 0 ∨ a.read.isNone))
    (s t : EspNowPushSender) {evs : List Event} (hevs : ∀ b, .start b ∉ evs) :
    shown s (session clock a s evs) = shown t (session clock a t evs) := by
  rw [session_eq clock ha s hevs, session_eq clock ha t hevs, shown_resumed, shown_resumed]
  rcases run_detailed clock (({} : EspNowPushSender).start clock a).2 hevs with h | h
  · rw [h, h]
    rfl
  · rw [h, h]

/-- **Independence**: two sessions with the same arguments, clock readings,
answers of the callback, packets and `loop()` calls look the same at every step,
`finalDetail()` included, exactly when they begin with the same
`finalDetail()`. -/
theorem session_independent_iff (clock : ℕ → UInt32) {a : PushArgs}
    (ha : ¬ (a.size = 0 ∨ a.read.isNone)) (s t : EspNowPushSender) {evs : List Event}
    (hevs : ∀ b, .start b ∉ evs) :
    (∀ k, shown s (session clock a s (evs.take k)) = shown t (session clock a t (evs.take k)) ∧
      (session clock a s (evs.take k)).finalDetail =
        (session clock a t (evs.take k)).finalDetail) ↔ s.finalDetail = t.finalDetail := by
  constructor
  · intro h
    have hdetail := (h 0).2
    rwa [List.take_zero, session_eq clock ha s (by simp), session_eq clock ha t (by simp)]
      at hdetail
  · intro hsame k
    have hevs' : ∀ b, .start b ∉ evs.take k := fun b hmem => hevs b (List.mem_of_mem_take hmem)
    refine ⟨session_shown clock ha s t hevs', ?_⟩
    rw [session_eq clock ha s hevs', session_eq clock ha t hevs', hsame]
    rfl

/-- A push of an image of one byte. -/
def oneByteArgs : PushArgs := { mac := {}, read := some (readOf [7]), size := 1, crc := 0 }

/-- An object whose push was turned down with error 5, and a new one. -/
def turnedDown : EspNowPushSender :=
  ({} : EspNowPushSender).run UInt32.ofNat
    [.start oneByteArgs, .control ⟨{}, ackPacket ⟨0xFFFF, 0, pushAckFinalFlash, 5⟩⟩]

/-- The same push by an object that has pushed before, and by a new one. -/
theorem session_independent_iff_oneByte :
    shown oneByteStarted (session UInt32.ofNat oneByteArgs oneByteStarted ([.loop].take 1)) =
        shown {} (session UInt32.ofNat oneByteArgs {} ([.loop].take 1)) ∧
      (session UInt32.ofNat oneByteArgs oneByteStarted ([.loop].take 1)).finalDetail =
        (session UInt32.ofNat oneByteArgs {} ([.loop].take 1)).finalDetail :=
  (session_independent_iff UInt32.ofNat (by decide) oneByteStarted {} (by simp)).2
    (by decide +kernel) 1

/-- The error of the push before is shown for the next one, though the device has
not answered yet. -/
theorem detail_outlives_session :
    turnedDown.state = .failed ∧
      (session UInt32.ofNat oneByteArgs turnedDown []).state = .pushing ∧
      (session UInt32.ofNat oneByteArgs turnedDown []).finalDetail = 5 ∧
      (session UInt32.ofNat oneByteArgs {} []).finalDetail = 0 := by
  decide +kernel

end EspNowPushSender

end InfinitagNow
