/-
InfinitagNow/NegotiatorTiming.lean

How long a station takes to get an id (`src/IrIdNegotiator.cpp`).

The calls come in real time, and each receives it modulo 2^32; what is asked of
the caller is only that no call comes more than `d` ms after the last tick
(`Punctual`).  A probing that nobody opposes takes three periods and the delay
of three ticks; every call that opposes it costs as much again (`due`).
`OnTime` is the budget that is left, listening or probing, and the induction
over the calls spends it: at the latest when it is used up, the station holds an
id or has found all of them taken (`acquires_in_time`).
-/
import InfinitagNow.EvidenceExpiry

namespace InfinitagNow

namespace IrIdNegotiator

variable {s : IrIdNegotiator} {c : Call} {d T₀ n now last L T : ℕ}

/-! ### Real time -/

/-- The time of the last tick, after one more call. -/
def lastTick (last : ℕ) : ℕ × Call → ℕ
  | (T, .tick _) => T
  | _ => last

/-- Calls from `now` on, with the last tick at `last`: their times do not go
back, none comes more than `d` after a tick, and none is a `begin`. -/
def Punctual (d : ℕ) : ℕ → ℕ → List (ℕ × Call) → Prop
  | _, _, [] => True
  | now, last, e :: es =>
    (now ≤ e.1 ∧ e.1 ≤ last + d ∧ OnClock e ∧ ∀ m p t b, e.2 ≠ .begin m p t b) ∧
      Punctual d e.1 (lastTick last e) es

instance (m : Mac) (x : UInt8) : DecidablePred (Call.opposes m x)
  | .onProbe src id _ => inferInstanceAs (Decidable (id = x ∧ src.value < m.value))
  | .onBeacon src id _ => inferInstanceAs (Decidable (id = x ∧ src ≠ m))
  | .onHitReport id _ => inferInstanceAs (Decidable (id = x))
  | .begin _ _ _ _ => .isFalse fun h => h
  | .tick _ => .isFalse fun h => h
  | .consumeIdChanged => .isFalse fun h => h

/-- The call makes a probing station start anew. -/
def Aborts (s : IrIdNegotiator) (c : Call) : Prop := s.state = .probe ∧ c.opposes s.mac s.candidate

instance (s : IrIdNegotiator) : DecidablePred s.Aborts := fun _ =>
  inferInstanceAs (Decidable (_ ∧ _))

/-- How often the probing was opposed. -/
def aborts (s : IrIdNegotiator) : List Call → ℕ
  | [] => 0
  | c :: cs => (if s.Aborts c then 1 else 0) + aborts (s.exec c).1 cs

/-- The time at which a station that began at `T₀` and was opposed `n` times
holds an id at the latest. -/
def due (d T₀ n : ℕ) : ℕ := T₀ + 3000 + d + (n + 1) * (3 * (150 + d))

theorem due_succ (d T₀ n : ℕ) : due d T₀ (n + 1) = due d T₀ n + 3 * (150 + d) := by
  unfold due
  ring

theorem due_mono {n n' : ℕ} (hle : n ≤ n') : due d T₀ n ≤ due d T₀ n' := by
  unfold due
  exact Nat.add_le_add_left (Nat.mul_le_mul_right _ (Nat.succ_le_succ hle)) _

/-! ### The budget -/

/-- The station is not late: it listens before its deadline, or its last probe
was at `L` and those that are still to come fit in. -/
structure OnTime (d T₀ n now last L : ℕ) (s : IrIdNegotiator) : Prop where
  wf : s.Wf
  not_held : s.state ≠ .held
  last_le : last ≤ now
  listen : s.state = .listen → s.listenUntil = UInt32.ofNat (T₀ + 3000) ∧ last < T₀ + 3000
  probe : s.state = .probe → s.lastProbeMs = UInt32.ofNat L ∧ L ≤ now ∧ last < L + 150 ∧
    1 ≤ s.probesSent.toNat ∧ s.probesSent.toNat ≤ 3 ∧
    L + (4 - s.probesSent.toNat) * (150 + d) ≤ due d T₀ n

/-- A call that leaves the timers alone. -/
theorem OnTime.of_eq (h : s.OnTime d T₀ n now last L) {s' : IrIdNegotiator} (hwf : s'.Wf)
    (hT : now ≤ T) (hst : s'.state = s.state := by simp)
    (hlisten : s'.listenUntil = s.listenUntil := by simp)
    (hprobe : s'.lastProbeMs = s.lastProbeMs := by simp)
    (hsent : s'.probesSent = s.probesSent := by simp) : s'.OnTime d T₀ n T last L := by
  refine ⟨hwf, hst ▸ h.not_held, h.last_le.trans hT, fun hs => ?_, fun hs => ?_⟩
  · rw [hlisten]
    exact h.listen (hst ▸ hs)
  · obtain ⟨hL, hnow, hlast, hone, hthree, hdue⟩ := h.probe (hst ▸ hs)
    rw [hprobe, hsent]
    exact ⟨hL, hnow.trans hT, hlast, hone, hthree, hdue⟩

/-- Until the budget is used up. -/
theorem OnTime.le_due (h : s.OnTime d T₀ n now last L) (hT : T ≤ last + d) : T ≤ due d T₀ n := by
  cases hs : s.state with
  | held => exact absurd hs h.not_held
  | listen =>
    have := (h.listen hs).2
    unfold due
    omega
  | probe =>
    obtain ⟨-, -, hlast, -, hthree, hdue⟩ := h.probe hs
    have := Nat.mul_le_mul_right (150 + d) (show 1 ≤ 4 - s.probesSent.toNat by omega)
    omega

/-- All ids are taken. -/
def Full (s : IrIdNegotiator) (T : ℕ) : Prop :=
  ∀ id, validId id = true → s.isOccupied id (UInt32.ofNat T) = true

/-- A probing that starts at `T` with three periods left. -/
theorem onTime_startProbe (hwf : s.Wf) (h0 : s.id = 0) (hlast : last ≤ T)
    (hdue : T + 3 * (150 + d) ≤ due d T₀ n) :
    (s.startProbe (UInt32.ofNat T)).1.Full T ∨
      (s.startProbe (UInt32.ofNat T)).1.OnTime d T₀ n T last T ∧
        (s.startProbe (UInt32.ofNat T)).2 =
          s.emit .probe (s.startProbe (UInt32.ofNat T)).1.candidate none := by
  have hwf' := wf_startProbe h0 hwf.preferred_le (UInt32.ofNat T)
  rcases startProbe_cases hwf.preferredOk (UInt32.ofNat T) with ⟨heq, hall⟩ | ⟨x, -, -, heq⟩
  · left
    rw [heq]
    exact hall
  · right
    rw [heq] at hwf' ⊢
    refine ⟨⟨hwf', by simp, hlast, by simp, fun _ => ⟨rfl, le_rfl, by omega, ?_⟩⟩, rfl⟩
    simpa using hdue

/-- A station that has just begun. -/
theorem onTime_begin (s : IrIdNegotiator) (m : Mac) (p : UInt8) (T : ℕ) (b : Bool) :
    (s.begin m p (UInt32.ofNat T) b).OnTime d T 0 T T T := by
  refine ⟨wf_begin s m p _ b, nofun, le_rfl, fun _ => ⟨?_, by omega⟩, fun hs => nomatch hs⟩
  show UInt32.ofNat T + iridTListenMs = UInt32.ofNat (T + 3000)
  rw [UInt32.ofNat_add]
  rfl

/-! ### One call -/

/-- A difference of two moments as the code sees it. -/
theorem elapsed_ofNat {L ms : ℕ} (hL : L ≤ T) (hT : T - L < 2 ^ 32) (hms : ms < 2 ^ 32) :
    elapsed (UInt32.ofNat T) (UInt32.ofNat L) (UInt32.ofNat ms) = decide (L + ms ≤ T) := by
  have hmsNat : (UInt32.ofNat ms).toNat = ms := UInt32.toNat_ofNat_of_lt' hms
  rw [elapsed, decide_eq_decide, UInt32.le_iff_toNat_le, ofNat_sub_toNat hL, hmsNat,
    Nat.mod_eq_of_lt hT]
  omega

/-- A deadline as `tick` tests it. -/
theorem deadline_passed {D : ℕ} (hD : D ≤ T) (hT : T - D < 2 ^ 31) :
    0 ≤ (UInt32.ofNat T - UInt32.ofNat D).toInt32 := by
  rw [signed_nonneg_iff, ofNat_sub_toNat hD]
  omega

theorem le_of_deadline_passed {D : ℕ} (hD : D ≤ T + 2 ^ 31)
    (hpassed : 0 ≤ (UInt32.ofNat T - UInt32.ofNat D).toInt32) : D ≤ T := by
  by_contra hlt
  rw [signed_nonneg_iff, UInt32.toNat_sub, UInt32.toNat_ofNat', UInt32.toNat_ofNat'] at hpassed
  omega

/-- What a tick does: the station acquires an id, finds none, or stays on time
and is silent or sends a probe. -/
theorem OnTime.tick (h : s.OnTime d T₀ n now last L) (hd : d ≤ 2 ^ 30) (hnow : now ≤ T)
    (hT : T ≤ last + d) :
    (s.tick (UInt32.ofNat T)).1.state = .held ∨ (s.tick (UInt32.ofNat T)).1.Full T ∨
      s.tick (UInt32.ofNat T) = (s, []) ∧ s.OnTime d T₀ n T T L ∨
      (s.tick (UInt32.ofNat T)).1.OnTime d T₀ n T T T ∧
        (s.tick (UInt32.ofNat T)).2 =
          s.emit .probe (s.tick (UInt32.ofNat T)).1.candidate none := by
  have hle := h.le_due hT
  have hwf : (s.tick (UInt32.ofNat T)).1.Wf := h.wf.exec (.tick (UInt32.ofNat T))
  unfold IrIdNegotiator.tick at hwf ⊢
  cases hs : s.state with
  | held => exact absurd hs h.not_held
  | listen =>
    obtain ⟨hdl, hlast⟩ := h.listen hs
    simp only [hs] at hwf ⊢
    split
    · -- the listening is over
      have hfirst : T + 3 * (150 + d) ≤ due d T₀ n := by
        have : due d T₀ 0 ≤ due d T₀ n := due_mono (Nat.zero_le n)
        unfold due at this ⊢
        omega
      rcases onTime_startProbe h.wf (h.wf.id_eq_zero h.not_held) le_rfl hfirst with hfull | hgo
      · exact .inr (.inl hfull)
      · exact .inr (.inr (.inr hgo))
    · rename_i hearly
      refine .inr (.inr (.inl
        ⟨rfl, h.wf, h.not_held, le_rfl, fun _ => ⟨hdl, ?_⟩, fun hp => ?_⟩))
      · by_contra hlate
        rw [hdl] at hearly
        exact hearly (deadline_passed (by omega) (by omega))
      · exact nomatch hs.symm.trans hp
  | probe =>
    obtain ⟨hL, hLnow, hlast, hone, hthree, hdue⟩ := h.probe hs
    have helapsed : elapsed (UInt32.ofNat T) s.lastProbeMs iridTProbeMs = decide (L + 150 ≤ T) := by
      have hperiod : iridTProbeMs = UInt32.ofNat 150 := rfl
      rw [hL, hperiod]
      exact elapsed_ofNat (by omega) (by omega) (by decide)
    simp only [hs, helapsed] at hwf ⊢
    by_cases hover : L + 150 ≤ T
    · rw [if_pos (decide_eq_true hover)] at hwf ⊢
      by_cases hmore : s.probesSent < iridNProbe
      · -- the next probe
        have hlt : s.probesSent.toNat < 3 := UInt8.lt_iff_toNat_lt.1 hmore
        have hsucc : (s.probesSent + 1).toNat = s.probesSent.toNat + 1 := by
          rw [UInt8.toNat_add, UInt8.toNat_one, Nat.mod_eq_of_lt (by omega)]
        have hsplit : (4 - s.probesSent.toNat) * (150 + d) =
            (4 - (s.probesSent.toNat + 1)) * (150 + d) + (150 + d) := by
          rw [← Nat.succ_mul]
          congr 1
          omega
        rw [if_pos hmore] at hwf ⊢
        refine .inr (.inr (.inr ⟨⟨hwf, ?_, le_rfl, ?_, fun _ => ⟨rfl, le_rfl, ?_⟩⟩, rfl⟩))
        · show s.state ≠ .held
          simp [hs]
        · exact fun hlisten => nomatch hs.symm.trans hlisten
        · show T < T + 150 ∧ 1 ≤ (s.probesSent + 1).toNat ∧ (s.probesSent + 1).toNat ≤ 3 ∧
            T + (4 - (s.probesSent + 1).toNat) * (150 + d) ≤ due d T₀ n
          rw [hsucc]
          refine ⟨by omega, by omega, by omega, ?_⟩
          omega
      · left
        rw [if_neg hmore, becomeHeld_eq h.wf hs]
    · rw [if_neg (by simpa using hover)]
      refine .inr (.inr (.inl ⟨rfl, h.wf, h.not_held, le_rfl, fun hl => ?_, fun _ => ?_⟩))
      · exact nomatch hs.symm.trans hl
      · exact ⟨hL, by omega, by omega, hone, hthree, hdue⟩

/-- What any other call does; a call that opposes the probing costs a probing. -/
theorem OnTime.other (h : s.OnTime d T₀ n now last L) (hnow : now ≤ T) (hT : T ≤ last + d)
    (hclock : OnClock (T, c)) (hbegin : ∀ m p t b, c ≠ .begin m p t b) (htick : ∀ t, c ≠ .tick t) :
    (s.exec c).1.Full T ∨
      (s.exec c).1.OnTime d T₀ (n + if s.Aborts c then 1 else 0) T last
        (if s.Aborts c then T else L) := by
  have hle := h.le_due hT
  have hrule := exec_rule h.wf c
  have hwf := h.wf.exec c
  -- a call that does not oppose the probing leaves the timers alone
  have hstay : ∀ {s' : IrIdNegotiator}, ¬ s.Aborts c → s'.OnTime d T₀ n T last L →
      s'.OnTime d T₀ (n + if s.Aborts c then 1 else 0) T last (if s.Aborts c then T else L) := by
    intro s' hno h'
    rwa [if_neg hno, if_neg hno]
  generalize s.exec c = r at hrule hwf
  cases hrule with
  | begin m p t b => exact absurd rfl (hbegin m p t b)
  | listenEnd t | reprobe t | acquire t | rebeacon t => exact absurd rfl (htick t)
  | consume => exact .inr (hstay (fun hab => hab.2) (h.of_eq hwf hnow))
  | ignore _ _ hopp => exact .inr (hstay (fun hab => hopp hab.1 hab.2) (h.of_eq hwf hnow))
  | evidence _ _ _ _ _ _ hopp =>
    exact .inr (hstay (fun hab => hopp hab.1 hab.2) (h.of_eq hwf hnow))
  | abort c t hev hs hopp =>
    have ht : t = UInt32.ofNat T := by
      rw [evidence_clock hev]
      rcases hclock with hc | hc
      · have hc : c = .consumeIdChanged := hc
        rw [hc] at hopp
        exact absurd hopp fun h => h
      · exact hc
    have hid : s.id = 0 := h.wf.id_eq_zero h.not_held
    have hne : s.candidate ≠ s.id := by
      rw [hid]
      exact h.wf.probe_iff.1 hs
    rw [if_pos ⟨hs, hopp⟩, if_pos ⟨hs, hopp⟩, ht]
    have hcost : T + 3 * (150 + d) ≤ due d T₀ (n + 1) := by
      rw [due_succ]
      omega
    exact (onTime_startProbe (h.wf.note hne _) (by simpa using hid) (h.last_le.trans hnow)
      hcost).imp_right And.left
  | defend src t hs | yield src t hs | counter src t hs => exact absurd hs h.not_held

/-! ### The calls together -/

/-- A tick at its real time, or a call that is none. -/
theorem tick_or_other (s : IrIdNegotiator) (last : ℕ) {e : ℕ × Call} (hclock : OnClock e) :
    s.exec e.2 = s.tick (UInt32.ofNat e.1) ∧ lastTick last e = e.1 ∨
      (∀ t, e.2 ≠ .tick t) ∧ lastTick last e = last := by
  obtain ⟨T, c⟩ := e
  cases c with
  | tick t =>
    have ht : t = UInt32.ofNat T := hclock.resolve_left (by simp)
    exact .inl ⟨by rw [exec, ht], rfl⟩
  | _ => exact .inr ⟨by simp, rfl⟩

/-- The induction over the calls. -/
theorem OnTime.run (h : s.OnTime d T₀ n now last L) (hd : d ≤ 2 ^ 30) {es : List (ℕ × Call)}
    (hes : Punctual d now last es) :
    (∃ pre post, es = pre ++ post ∧ (s.run (pre.map Prod.snd)).state = .held) ∨
      (∃ pre e post, es = pre ++ e :: post ∧
        (s.run ((pre ++ [e]).map Prod.snd)).Full e.1) ∨
      ∀ e ∈ es, e.1 ≤ due d T₀ (n + aborts s (es.map Prod.snd)) := by
  induction es generalizing s n now last L with
  | nil => exact .inr (.inr (by simp))
  | cons e es ih =>
    obtain ⟨⟨hnow, hT, hclock, hbegin⟩, hrest⟩ := hes
    -- what is left to do once the call has left the station on time
    have hgo : ∀ {n' L'}, n' ≤ n + (if s.Aborts e.2 then 1 else 0) →
        (s.exec e.2).1.OnTime d T₀ n' e.1 (lastTick last e) L' →
        (∃ pre post, e :: es = pre ++ post ∧ (s.run (pre.map Prod.snd)).state = .held) ∨
          (∃ pre f post, e :: es = pre ++ f :: post ∧
            (s.run ((pre ++ [f]).map Prod.snd)).Full f.1) ∨
          ∀ f ∈ e :: es, f.1 ≤ due d T₀ (n + aborts s ((e :: es).map Prod.snd)) := by
      intro n' L' hn' h'
      rcases ih h' hrest with ⟨pre, post, rfl, hheld⟩ | ⟨pre, f, post, rfl, hfull⟩ | hall
      · exact .inl ⟨e :: pre, post, rfl, hheld⟩
      · exact .inr (.inl ⟨e :: pre, f, post, rfl, hfull⟩)
      · refine .inr (.inr fun f hf => ?_)
        rw [List.map_cons, aborts, ← Nat.add_assoc]
        rcases List.mem_cons.1 hf with rfl | hf
        · exact (h.le_due hT).trans (due_mono (by omega))
        · exact (hall f hf).trans (due_mono (by omega))
    rcases tick_or_other s last hclock with ⟨hexec, hlast⟩ | ⟨hnot, hlast⟩
    · rcases h.tick hd hnow hT with hheld | hfull | ⟨hidle, h'⟩ | ⟨h', -⟩
      · exact .inl ⟨[e], es, rfl, by rw [← hexec] at hheld; exact hheld⟩
      · exact .inr (.inl ⟨[], e, es, rfl, by rw [← hexec] at hfull; exact hfull⟩)
      · have h'' : (s.exec e.2).1.OnTime d T₀ n e.1 (lastTick last e) L := by
          rw [hexec, hidle, hlast]
          exact h'
        exact hgo (Nat.le_add_right _ _) h''
      · refine hgo (Nat.le_add_right _ _) (?_ : OnTime d T₀ n e.1 _ e.1 _)
        rw [hexec, hlast]
        exact h'
    · rcases h.other hnow hT hclock hbegin hnot with hfull | h'
      · exact .inr (.inl ⟨[], e, es, rfl, hfull⟩)
      · exact hgo le_rfl (by rwa [hlast])

/-- **An id in time**: a station that begins at `T₀` and is ticked at most `d` ms
apart, with any calls in between and wherever its clock wraps, is HELD, or has
found all ids occupied, by `T₀` + 3450 + 4`d` ms, and 450 + 3`d` ms later for
each time its probing was opposed. -/
theorem acquires_in_time (s₀ : IrIdNegotiator) (m : Mac) (p : UInt8) (T₀ : ℕ) (b : Bool)
    (hd : d ≤ 2 ^ 30) {es : List (ℕ × Call)} (hes : Punctual d T₀ T₀ es) :
    let s₁ := s₀.begin m p (UInt32.ofNat T₀) b
    (∃ e ∈ es, T₀ + 3450 + 4 * d +
        aborts s₁ (es.map Prod.snd) * (450 + 3 * d) < e.1) →
      (∃ pre post, es = pre ++ post ∧ (s₁.run (pre.map Prod.snd)).state = .held) ∨
        ∃ pre e post, es = pre ++ e :: post ∧ ∀ id, validId id = true →
          (s₁.run ((pre ++ [e]).map Prod.snd)).isOccupied id (UInt32.ofNat e.1) = true := by
  rintro s₁ ⟨e, he, hlate⟩
  rcases (onTime_begin s₀ m p T₀ b).run hd hes with hheld | hfull | hall
  · exact .inl hheld
  · exact .inr hfull
  · have hle : e.1 ≤ due d T₀ (0 + aborts s₁ (es.map Prod.snd)) := hall e he
    have hsplit : due d T₀ (0 + aborts s₁ (es.map Prod.snd)) = T₀ + 3450 + 4 * d +
        aborts s₁ (es.map Prod.snd) * (450 + 3 * d) := by
      unfold due
      ring
    omega

/-- Somebody else. -/
def neighbour : Mac := ⟨#v[0x24, 0x6F, 0x28, 0, 2, 0x02]⟩

/-- A tick every second, and somebody else's beacons for id 4. -/
def secondTicks : List (ℕ × Call) :=
  [(1000, .tick 1000), (2000, .tick 2000), (3000, .tick 3000),
    (3500, .onBeacon neighbour 4 3500), (4000, .tick 4000),
    (5000, .tick 5000), (6000, .tick 6000), (7000, .tick 7000), (8000, .tick 8000),
    (9000, .tick 9000), (10000, .tick 10000), (11000, .tick 11000)]

/-- The station gives up id 4 and holds 5 in time. -/
theorem acquires_in_time_second :
    let s₁ := ({} : IrIdNegotiator).begin ⟨#v[0x24, 0x6F, 0x28, 0, 0, 0x03]⟩ 0 (UInt32.ofNat 0) true
    s₁.aborts (secondTicks.map Prod.snd) = 1 ∧
      ((∃ pre post, secondTicks = pre ++ post ∧ (s₁.run (pre.map Prod.snd)).state = .held) ∨
        ∃ pre e post, secondTicks = pre ++ e :: post ∧ ∀ id, validId id = true →
          (s₁.run ((pre ++ [e]).map Prod.snd)).isOccupied id (UInt32.ofNat e.1) = true) := by
  intro s₁
  have hcount : s₁.aborts (secondTicks.map Prod.snd) = 1 := by decide +kernel
  refine ⟨hcount, acquires_in_time (d := 1000) {} _ 0 0 true (by decide) ?_
    ⟨(11000, .tick 11000), by simp [secondTicks], ?_⟩⟩
  · simp [secondTicks, Punctual, lastTick, OnClock, Call.clock]
  · show 0 + 3450 + 4 * 1000 + s₁.aborts (secondTicks.map Prod.snd) * (450 + 3 * 1000) < 11000
    rw [hcount]
    decide

end IrIdNegotiator

end InfinitagNow
