/-
InfinitagNow/PushTimeouts.lean

When the sender's timeouts fire (`EspNowPushSender::loop` of
`src/EspNowPush.cpp`).

The deadline is a 32-bit sum and is compared with `<`.  Where the clock and the
deadline lie on the same side of a wrap of the clock, that is the same as
comparing the time that has passed; where only the deadline has wrapped the
timeout fires at once, where only the clock has, it fires weeks late
(`Poll.timely_iff`).

`polls` lists the calls of `loop()` during a silence of the device, each with
the clock value at which the deadline was set.  `timeouts_iff` is about all of
them, and about the time the sender goes on asking for the final ack.
-/
import InfinitagNow.PushAnswers

namespace InfinitagNow

namespace EspNowPushSender

variable {clock : ℕ → UInt32} {s s' : EspNowPushSender}

/-! ### One call of loop -/

/-- A call of `loop()` in a running session: when the deadline was set and by
how many milliseconds ahead, the clock of the call, and whether it retransmitted
or gave up. -/
structure Poll where
  since : UInt32
  ms : UInt32
  now : UInt32
  acts : Bool
  deriving DecidableEq

namespace Poll

/-- It acts only after the interval, and if the interval is over by less than
2^31 ms it does act. -/
def Timely (p : Poll) : Prop :=
  (p.acts = true → p.ms ≤ p.now - p.since) ∧
    (p.ms ≤ p.now - p.since → (p.now - p.since).toNat < p.ms.toNat + 2 ^ 31 → p.acts = true)

/-- The clock has wrapped since the deadline was set exactly if the deadline
has, unless the interval was over 2^31 ms ago. -/
def SameSide (p : Poll) : Prop :=
  (p.now - p.since).toNat < p.ms.toNat + 2 ^ 31 →
    (2 ^ 32 ≤ p.since.toNat + (p.now - p.since).toNat ↔ 2 ^ 32 ≤ p.since.toNat + p.ms.toNat)

/-- The test `millis() < _deadline` gets the time right exactly on one side of
the wrap. -/
theorem timely_iff {p : Poll} (hms : p.ms.toNat ≤ 2000)
    (hacts : p.acts = true ↔ ¬ p.now < p.since + p.ms) : p.Timely ↔ p.SameSide := by
  have hsince := p.since.toNat_lt
  have hnow := p.now.toNat_lt
  rw [Timely, SameSide, hacts, UInt32.lt_iff_toNat_lt, UInt32.le_iff_toNat_le, UInt32.toNat_add,
    UInt32.toNat_sub]
  constructor
  · rintro ⟨hearly, hlate⟩ hsoon
    omega
  · intro hside
    constructor
    · intro hdue
      omega
    · intro hover hsoon
      omega

end Poll

/-- The calls of `loop()` while no ack comes, for a deadline that was set at
the clock value `since`, `ms` ahead. -/
def polls (clock : ℕ → UInt32) : ℕ → EspNowPushSender → UInt32 → UInt32 → List Poll
  | 0, _, _, _ => []
  | n + 1, s, since, ms =>
    if s.state ≠ .pushing then []
    else
      -- the retries count every retransmission, and the giving up
      let acts := (s.loop clock).retries != s.retries
      ⟨since, ms, clock s.reads, acts⟩ ::
        if acts then
          polls clock n (s.loop clock) (clock (s.reads + 1)) (if s.endSent then 2000 else 500)
        else polls clock n (s.loop clock) since ms

/-- What a call that acts does: it gives up, or it sends END again, or the
frames of the window; and it sets the deadline anew. -/
theorem loop_of_due (hdue : s.Due clock) :
    (s.loop clock).retries ≠ s.retries ∧
      ((s.loop clock).state = .pushing →
        (s.loop clock).deadline = clock (s.reads + 1) + (if s.endSent then 2000 else 500)) := by
  have hne : s.retries + 1 ≠ s.retries := by simp
  have hrule := loop_rule clock s
  generalize s.loop clock = s' at hrule
  have hreads : ∀ (r : EspNowPushSender) (mask : UInt32), (r.sendWindow mask).reads = r.reads := by
    intro r mask
    rw [(r.sendWindow_transmits mask).eq]
  cases hrule with
  | idle hst => exact absurd hdue.1 hst
  | early _ hearly => exact absurd hearly hdue.2
  | giveUp => exact ⟨hne, fun hst => nomatch hst⟩
  | endAgain _ _ _ hend => exact ⟨hne, fun _ => by simp [hend]⟩
  | hello _ _ _ hend =>
    exact ⟨by simp [sendWindow_retries], fun _ => by simp [hend, hreads]⟩
  | again _ _ _ hend =>
    exact ⟨by simp [sendWindow_retries], fun _ => by simp [hend, hreads]⟩

/-- A call acts exactly when the deadline test lets it through. -/
theorem acts_iff_due (clock : ℕ → UInt32) (hst : s.state = .pushing) :
    ((s.loop clock).retries != s.retries) = true ↔ ¬ clock s.reads < s.deadline := by
  rw [bne_iff_ne]
  constructor
  · intro hne hearly
    have hnot : ¬ s.Due clock := fun hdue => hdue.2 hearly
    rcases loop_of_not_due hnot with heq | heq <;>
      exact hne (by rw [heq])
  · exact fun hpast => (loop_of_due ⟨hst, hpast⟩).1

/-! ### A silence of the device -/

/-- Every call compares with the deadline it is listed with. -/
theorem polls_test (clock : ℕ → UInt32) {since ms : UInt32} (hdl : s.deadline = since + ms)
    (hms : ms = 500 ∨ ms = 2000) (n : ℕ) :
    ∀ p ∈ polls clock n s since ms,
      p.ms.toNat ≤ 2000 ∧ (p.acts = true ↔ ¬ p.now < p.since + p.ms) := by
  have hle : ms.toNat ≤ 2000 := by rcases hms with rfl | rfl <;> decide
  induction n generalizing s since ms with
  | zero => simp [polls]
  | succ n ih =>
    intro p hp
    rw [polls] at hp
    split at hp
    · simp at hp
    · rename_i hst
      replace hst := not_not.1 hst
      have hacts := acts_iff_due clock hst
      rcases List.mem_cons.1 hp with rfl | hp
      · exact ⟨hle, by rw [hacts, hdl]⟩
      · split at hp
        · rename_i hact
          by_cases hgo : (s.loop clock).state = .pushing
          · have hnext := (loop_of_due ⟨hst, hacts.1 hact⟩).2 hgo
            have hms' : (if s.endSent then 2000 else 500 : UInt32) = 500 ∨
                (if s.endSent then 2000 else 500 : UInt32) = 2000 := by
              split
              · exact .inr rfl
              · exact .inl rfl
            exact ih hnext hms' (by rcases hms' with h | h <;> rw [h] <;> decide) p hp
          · cases n with
            | zero => simp [polls] at hp
            | succ n => simp [polls, hgo] at hp
        · rename_i hact
          have hearly : ¬ s.Due clock := fun hdue => hact (hacts.2 hdue.2)
          refine ih ?_ hms hle p hp
          rcases loop_of_not_due hearly with heq | heq
          · rw [heq, hdl]
          · rw [heq, ← hdl]

/-- The 32-bit difference never exceeds the time that has passed. -/
theorem toNat_sub_le {T T₀ : ℕ} (hle : T₀ ≤ T) :
    (UInt32.ofNat T - UInt32.ofNat T₀).toNat ≤ T - T₀ := by
  rw [UInt32.toNat_sub, UInt32.toNat_ofNat', UInt32.toNat_ofNat']
  omega

theorem run_loops_succ (clock : ℕ → UInt32) (s : EspNowPushSender) (n : ℕ) :
    s.run clock (.replicate (n + 1) .loop) = (s.loop clock).run clock (.replicate n .loop) := rfl

/-- Timeouts on time, one after the other: with `r` retries of END behind it,
the sender waits for the present deadline and for those of the retries left. -/
theorem failed_after {T : ℕ → ℕ} (hT : Monotone T) (hclock : ∀ k, clock k = UInt32.ofNat (T k))
    {n : ℕ} {T₀ : ℕ} {ms : UInt32} (hpast : T₀ ≤ T s.reads) (hst : s.state = .pushing)
    (hend : s.endSent = true) (hretries : s.retries.toNat ≤ 8)
    (htimely : ∀ p ∈ polls clock n s (UInt32.ofNat T₀) ms, p.Timely)
    (hfailed : (s.run clock (.replicate n .loop)).state = .failed) :
    T₀ + ms.toNat + (8 - s.retries.toNat) * 2000 ≤
      T ((s.run clock (.replicate n .loop)).reads - 1) := by
  induction n generalizing s T₀ ms with
  | zero => exact absurd (hst.symm.trans hfailed) (by decide)
  | succ n ih =>
    rw [run_loops_succ] at hfailed ⊢
    rw [polls, if_neg (not_not.2 hst)] at htimely
    have hacts := acts_iff_due clock hst
    by_cases hdue : s.Due clock
    · have hact := hacts.2 hdue.2
      have hfirst := (htimely _ List.mem_cons_self).1 hact
      have hnext : ∀ p ∈ polls clock n (s.loop clock) (clock (s.reads + 1))
          (if s.endSent then 2000 else 500), p.Timely :=
        fun p hp => htimely p (List.mem_cons_of_mem _ (by rwa [if_pos hact]))
      have hlimit : s.retryLimit = 8 := by rw [retryLimit, if_pos hend]
      have hpatient : s.Patient s.mac := ⟨rfl, fun _ => by rw [hlimit]; exact hretries⟩
      have hleft := hpatient.retryLeft_iff hst
      -- the interval is over
      have hover : T₀ + ms.toNat ≤ T s.reads := by
        have hle := UInt32.le_iff_toNat_le.1 hfirst
        rw [hclock] at hle
        have hdiff := toNat_sub_le hpast
        dsimp only at hle
        omega
      have hrule := loop_rule clock s
      generalize s.loop clock = s' at hrule hnext hfailed
      cases hrule with
      | idle hne => exact absurd hst hne
      | early _ hearly => exact absurd hearly hdue.2
      | giveUp _ _ hno =>
        rw [hleft, hlimit] at hno
        rw [run_of_not_pushing (by simp) (by simp)]
        simp only [retried_reads, Nat.add_sub_cancel]
        omega
      | endAgain _ _ hsome =>
        have hsucc : (s.retried.sendEnd.wait clock 2000).retries.toNat = s.retries.toNat + 1 :=
          (hpatient.retried hst hsome (by simp) (by simp) (by simp [hend])).2.1
        rw [hleft, hlimit] at hsome
        rw [hclock, if_pos hend] at hnext
        have hpast' : T (s.reads + 1) ≤ T (s.retried.sendEnd.wait clock 2000).reads := by
          have hmono : T (s.reads + 1) ≤ T (s.reads + 1 + 1) := hT (by omega)
          simpa using hmono
        have hstep := ih hpast' (by simp [hst]) (by simp) (by omega) hnext hfailed
        have hread : T s.reads ≤ T (s.reads + 1) := hT (by omega)
        rw [hsucc] at hstep
        have h2000 : (2000 : UInt32).toNat = 2000 := rfl
        omega
      | hello _ _ _ hno | again _ _ _ hno => exact absurd (hend.symm.trans hno) (by decide)
    · have hact : ¬ ((s.loop clock).retries != s.retries) = true :=
        fun hact => hdue ⟨hst, hacts.1 hact⟩
      have hnext : ∀ p ∈ polls clock n (s.loop clock) (UInt32.ofNat T₀) ms, p.Timely :=
        fun p hp => htimely p (List.mem_cons_of_mem _ (by rwa [if_neg hact]))
      rcases loop_of_not_due hdue with heq | heq
      · rw [heq] at hfailed hnext ⊢
        exact ih hpast hst hend hretries hnext hfailed
      · rw [heq] at hfailed hnext ⊢
        exact ih (s := { s with reads := s.reads + 1 }) (hpast.trans (hT (Nat.le_succ _))) hst hend
          hretries hnext hfailed

/-! ### Timeouts and the wrap of the clock -/

/-- What the timeouts of a silence should do: each one on time, and the sender
asks for the final ack for at least 16 s of real time before it gives up. -/
structure OnTime (clock : ℕ → UInt32) (s : EspNowPushSender) (since ms : UInt32) (n : ℕ) :
    Prop where
  timely : ∀ p ∈ polls clock n s since ms, p.Timely
  patient : ∀ T : ℕ → ℕ, Monotone T → (∀ k, clock k = UInt32.ofNat (T k)) →
    ∀ T₀ ≤ T s.reads, since = UInt32.ofNat T₀ → s.endSent = true → s.retries = 0 →
      (s.run clock (.replicate n .loop)).state = .failed →
        T₀ + 16000 ≤ T ((s.run clock (.replicate n .loop)).reads - 1)

/-- **Timeouts**: in any running session, whenever its deadline was set, the
timeouts of a silence are on time exactly when at each call of `loop()` clock
and deadline lie on the same side of the wrap. -/
theorem timeouts_iff (clock : ℕ → UInt32) {s : EspNowPushSender} (hst : s.state = .pushing)
    {since ms : UInt32} (hdl : s.deadline = since + ms) (hms : ms = 500 ∨ ms = 2000) (n : ℕ) :
    OnTime clock s since ms n ↔ ∀ p ∈ polls clock n s since ms, p.SameSide := by
  have htest := polls_test clock hdl hms n
  have htimely : (∀ p ∈ polls clock n s since ms, p.Timely) ↔
      ∀ p ∈ polls clock n s since ms, p.SameSide :=
    forall₂_congr fun p hp => Poll.timely_iff (htest p hp).1 (htest p hp).2
  constructor
  · exact fun h => htimely.1 h.timely
  · intro h
    refine ⟨htimely.2 h, ?_⟩
    rintro T hT hclock T₀ hpast rfl hend hzero hfailed
    have hlate := failed_after hT hclock hpast hst hend (by simp [hzero]) (htimely.2 h) hfailed
    simp only [hzero, UInt8.toNat_zero] at hlate
    omega

/-- In a run, the deadline of a running session was set by a reading of the
clock. -/
theorem deadline_run (clock : ℕ → UInt32) (evs : List Event) :
    (({} : EspNowPushSender).run clock evs).state = .pushing →
      ∃ k < (({} : EspNowPushSender).run clock evs).reads, ∃ ms : UInt32,
        (ms = 500 ∨ ms = 2000) ∧
          (({} : EspNowPushSender).run clock evs).deadline = clock k + ms := by
  have hwait : ∀ (s : EspNowPushSender) (ms : UInt32), ms = 500 ∨ ms = 2000 →
      ∃ k < (s.wait clock ms).reads, ∃ ms' : UInt32, (ms' = 500 ∨ ms' = 2000) ∧
        (s.wait clock ms).deadline = clock k + ms' :=
    fun s ms hms => ⟨s.reads, Nat.lt_succ_self _, ms, hms, rfl⟩
  refine run_invariant (E := fun _ => True) (P := fun s => s.state = .pushing →
    ∃ k < s.reads, ∃ ms : UInt32, (ms = 500 ∨ ms = 2000) ∧ s.deadline = clock k + ms)
    ?_ (by simp) (fun _ _ => trivial)
  intro s ev s' hrule _ ih hst'
  cases hrule with
  | refuse | ignore | idle => exact ih hst'
  | start | advance | resend | hello | again => exact hwait _ 500 (.inl rfl)
  | last | endAgain => exact hwait _ 2000 (.inr rfl)
  | finish | reject | giveUp => simp at hst'
  | stale => exact ih hst'
  | early hst =>
    obtain ⟨k, hk, hset⟩ := ih hst
    exact ⟨k, Nat.lt_succ_of_lt hk, hset⟩

/-- The push of one byte under a clock that runs out every deadline: two calls of
`loop()`, two timeouts, both on time. -/
theorem timeouts_iff_oneByte :
    OnTime (fun k => UInt32.ofNat (3000 * k)) oneByteStarted 0 500 2 ∧
      (polls (fun k => UInt32.ofNat (3000 * k)) 2 oneByteStarted 0 500).map Poll.acts =
        [true, true] := by
  refine ⟨(timeouts_iff _ (by decide +kernel) (by decide +kernel) (.inl rfl) 2).2 ?_,
    by decide +kernel⟩
  have hpolls : polls (fun k => UInt32.ofNat (3000 * k)) 2 oneByteStarted 0 500 =
      [⟨0, 500, 3000, true⟩, ⟨6000, 500, 9000, true⟩] := by
    decide +kernel
  rw [hpolls]
  simp [Poll.SameSide]

/-- The push of one byte, and the same after its END. -/
def oneByteAt (clock : ℕ → UInt32) : EspNowPushSender :=
  (({} : EspNowPushSender).start clock
    { mac := {}, read := some (readOf [7]), size := 1, crc := 0 }).2

def oneByteEnd (clock : ℕ → UInt32) : EspNowPushSender :=
  (oneByteAt clock).step clock (.control ⟨{}, ackPacket ⟨0, 0, pushAckWindow, 0⟩⟩)

/-- A clock that is read every millisecond, from a second before its wrap on. -/
def nearWrap (k : ℕ) : UInt32 := UInt32.ofNat (2 ^ 32 - 1000 + k)

/-- The same, read every 528 ms. -/
def acrossWrap (k : ℕ) : UInt32 := UInt32.ofNat (2 ^ 32 - 512 + 528 * k)

/-- The sender gives up 17 ms after its END; and a deadline just before the
wrap is not noticed behind it. -/
theorem wrap_breaks_timeouts :
    ((oneByteEnd nearWrap).state = .pushing ∧
      (oneByteEnd nearWrap).deadline = nearWrap 1 + 2000 ∧
      ((oneByteEnd nearWrap).run nearWrap (.replicate 9 .loop)).state = .failed ∧
      ((oneByteEnd nearWrap).run nearWrap (.replicate 9 .loop)).finalStatus = 0xFE ∧
      ¬ OnTime nearWrap (oneByteEnd nearWrap) (nearWrap 1) 2000 9) ∧
    (oneByteAt acrossWrap).state = .pushing ∧
      (oneByteAt acrossWrap).deadline = acrossWrap 0 + 500 ∧
      ¬ OnTime acrossWrap (oneByteAt acrossWrap) (acrossWrap 0) 500 1 := by
  have hend : (oneByteEnd nearWrap).state = .pushing ∧
      (oneByteEnd nearWrap).deadline = nearWrap 1 + 2000 ∧
      (oneByteEnd nearWrap).endSent = true ∧ (oneByteEnd nearWrap).retries = 0 ∧
      (oneByteEnd nearWrap).reads = 2 := by
    decide +kernel
  have hrun : ((oneByteEnd nearWrap).run nearWrap (.replicate 9 .loop)).state = .failed ∧
      ((oneByteEnd nearWrap).run nearWrap (.replicate 9 .loop)).finalStatus = 0xFE ∧
      ((oneByteEnd nearWrap).run nearWrap (.replicate 9 .loop)).reads = 19 := by
    decide +kernel
  have hat : (oneByteAt acrossWrap).state = .pushing ∧
      (oneByteAt acrossWrap).deadline = acrossWrap 0 + 500 ∧
      polls acrossWrap 1 (oneByteAt acrossWrap) (acrossWrap 0) 500 =
        [⟨acrossWrap 0, 500, acrossWrap 1, false⟩] := by
    decide +kernel
  refine ⟨⟨hend.1, hend.2.1, hrun.1, hrun.2.1, fun h => ?_⟩, hat.1, hat.2.1, fun h => ?_⟩
  · have hwait := h.patient (fun k => 2 ^ 32 - 1000 + k) (fun _ _ hle => Nat.add_le_add_left hle _)
      (fun _ => rfl) (2 ^ 32 - 1000 + 1) (by rw [hend.2.2.2.2]; omega) rfl hend.2.2.1
      hend.2.2.2.1 hrun.1
    rw [hrun.2.2] at hwait
    omega
  · have hpoll := h.timely ⟨acrossWrap 0, 500, acrossWrap 1, false⟩ (by rw [hat.2.2]; simp)
    exact absurd (hpoll.2 (by decide) (by decide)) (by decide)

end EspNowPushSender

end InfinitagNow
