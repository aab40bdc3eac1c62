/-
InfinitagNow/BeaconShield.lean

What the beacons are for (`src/IrIdNegotiator.cpp`).

A station that holds an id broadcasts a beacon for it every two seconds, the
evidence that the others keep of it lives for eight.  `Beaconing` is what keeps
the holder's broadcasts at most 2000 ms and the delay of a tick apart,
`Shielded` what a listener keeps of them: while its evidence is fresh, no call
makes it choose the id.  Between the two is the channel of `Heartbeats`, in real
time, and each station has a clock of its own (`ahead`); `beacons_shield_id`
says how many beacons in a row may be lost.
-/
import InfinitagNow.NegotiatorTiming
import InfinitagNow.Heartbeats

namespace InfinitagNow

namespace IrIdNegotiator

variable {s : IrIdNegotiator} {c : Call} {x : UInt8} {m : Mac} {d now last B R T : ℕ}

/-! ### Clocks -/

/-- Calls at the times of a clock that is ahead by `skew`. -/
def ahead (skew : ℕ) (es : List (ℕ × Call)) : List (ℕ × Call) := es.map fun e => (e.1 + skew, e.2)

@[simp] theorem ahead_calls (skew : ℕ) (es : List (ℕ × Call)) :
    (ahead skew es).map Prod.snd = es.map Prod.snd := by
  simp [ahead]

theorem pairwise_ahead {es : List (ℕ × Call)} (h : (T :: es.map Prod.fst).Pairwise (· ≤ ·))
    (skew : ℕ) : ((T + skew) :: (ahead skew es).map Prod.fst).Pairwise (· ≤ ·) := by
  have hmap : (T + skew) :: (ahead skew es).map Prod.fst =
      (T :: es.map Prod.fst).map (· + skew) := by
    simp [ahead, Function.comp_def]
  rw [hmap, List.pairwise_map]
  exact h.imp fun hab => Nat.add_le_add_right hab skew

/-- What comes before a call by the one clock comes before it by the other. -/
theorem ahead_split {skew : ℕ} {es pre post : List (ℕ × Call)} {e : ℕ × Call}
    (h : ahead skew es = pre ++ e :: post) : ∃ pre' e' post', es = pre' ++ e' :: post' ∧
      pre = ahead skew pre' ∧ e = (e'.1 + skew, e'.2) := by
  obtain ⟨pre', rest, rfl, rfl, hrest⟩ := List.map_eq_append_iff.1 h
  obtain ⟨e', post', rfl, rfl, -⟩ := List.map_eq_cons_iff.1 hrest
  exact ⟨pre', e', post', rfl, rfl, rfl⟩

/-! ### The holder -/

/-- The times at which a beacon is broadcast. -/
def broadcasts (s : IrIdNegotiator) : List (ℕ × Call) → List ℕ
  | [] => []
  | e :: es =>
    ((s.exec e.2).2.filter fun tx => tx.kind = .beacon ∧ tx.dst = none).map (fun _ => e.1) ++
      broadcasts (s.exec e.2).1 es

theorem broadcasts_ahead (s : IrIdNegotiator) (skew : ℕ) (es : List (ℕ × Call)) :
    s.broadcasts (ahead skew es) = (s.broadcasts es).map (· + skew) := by
  induction es generalizing s with
  | nil => rfl
  | cons e es ih =>
    show _ ++ (s.exec e.2).1.broadcasts (ahead skew es) = _
    rw [ih, broadcasts, List.map_append, List.map_map]
    rfl

/-- A call that broadcasts does so at its time, once or more. -/
theorem broadcasts_cons_of_mem {e : ℕ × Call} (htx : ⟨.beacon, x, none⟩ ∈ (s.exec e.2).2)
    (es : List (ℕ × Call)) :
    ∃ n, s.broadcasts (e :: es) =
      List.replicate (n + 1) e.1 ++ (s.exec e.2).1.broadcasts es := by
  have hmem : (⟨.beacon, x, none⟩ : Tx) ∈
      (s.exec e.2).2.filter fun tx => tx.kind = .beacon ∧ tx.dst = none :=
    List.mem_filter.2 ⟨htx, by simp⟩
  obtain ⟨n, hn⟩ := Nat.exists_eq_succ_of_ne_zero (List.length_pos_of_mem hmem).ne'
  exact ⟨n, by rw [broadcasts, List.map_const', hn]⟩

/-- The last broadcast was at `B`, and the tick after that did not find the next
one due. -/
structure Beaconing (now last B : ℕ) (s : IrIdNegotiator) : Prop where
  wf : s.Wf
  held : s.state = .held
  send : s.send = true
  stamp : s.lastBeaconMs = UInt32.ofNat B
  le_now : B ≤ now
  last_le : last ≤ now
  last_lt : last < B + 2000

/-- A call that does not touch the beacon. -/
theorem Beaconing.of_eq (h : s.Beaconing now last B) {s' : IrIdNegotiator} {last' : ℕ}
    (hwf : s'.Wf) (hnow : now ≤ T) (hlast : last' ≤ T) (hlt : last' < B + 2000)
    (hst : s'.state = s.state := by simp) (hsend : s'.send = s.send := by simp)
    (hstamp : s'.lastBeaconMs = s.lastBeaconMs := by simp) : s'.Beaconing T last' B :=
  ⟨hwf, hst ▸ h.held, hsend ▸ h.send, hstamp ▸ h.stamp, h.le_now.trans hnow, hlast, hlt⟩

/-- A call that broadcasts one. -/
theorem Beaconing.of_beacon (h : s.Beaconing now last B) {s' : IrIdNegotiator} {last' : ℕ}
    (hwf : s'.Wf) (hlast : last' ≤ T) (hst : s'.state = s.state) (hsend : s'.send = s.send)
    (hstamp : s'.lastBeaconMs = UInt32.ofNat T) : s'.Beaconing T last' T :=
  ⟨hwf, hst ▸ h.held, hsend ▸ h.send, hstamp, le_rfl, hlast, by omega⟩

/-- What a tick does to a holder. -/
theorem Beaconing.tick (h : s.Beaconing now last B) (hd : d ≤ 2 ^ 30) (hnow : now ≤ T)
    (hT : T ≤ last + d) :
    s.tick (UInt32.ofNat T) = (s, []) ∧ s.Beaconing T T B ∨
      (s.tick (UInt32.ofNat T)).2 = [⟨.beacon, s.id, none⟩] ∧
        (s.tick (UInt32.ofNat T)).1.Beaconing T T T := by
  have hwf : (s.tick (UInt32.ofNat T)).1.Wf := h.wf.exec (.tick (UInt32.ofNat T))
  have hlt := h.last_lt
  have hB := h.le_now
  have helapsed : elapsed (UInt32.ofNat T) s.lastBeaconMs iridTBeaconMs =
      decide (B + 2000 ≤ T) := by
    have hperiod : iridTBeaconMs = UInt32.ofNat 2000 := rfl
    rw [h.stamp, hperiod]
    exact elapsed_ofNat (by omega) (by omega) (by decide)
  unfold IrIdNegotiator.tick at hwf ⊢
  simp only [h.held, helapsed] at hwf ⊢
  by_cases hdue : B + 2000 ≤ T
  · rw [if_pos (decide_eq_true hdue)] at hwf ⊢
    refine .inr ⟨?_, h.of_beacon hwf le_rfl rfl rfl rfl⟩
    simp [sendBeacon, emit, h.send]
  · rw [if_neg (by simpa using hdue)]
    exact .inl ⟨rfl, h.of_eq h.wf hnow le_rfl (by omega)⟩

/-- What any other call does, unless the station gives its id up. -/
theorem Beaconing.other (h : s.Beaconing now last B) (hnow : now ≤ T)
    (hclock : OnClock (T, c)) (hbegin : ∀ m p t b, c ≠ .begin m p t b) (htick : ∀ t, c ≠ .tick t)
    (hheld : (s.exec c).1.state = .held) :
    (s.exec c).2 = [] ∧ (s.exec c).1.Beaconing T last B ∨
      ⟨.beacon, s.id, none⟩ ∈ (s.exec c).2 ∧ (s.exec c).1.Beaconing T last T := by
  have hrule := exec_rule h.wf c
  have hwf := h.wf.exec c
  have hlast := h.last_le.trans hnow
  have htime : c ≠ .consumeIdChanged → c.clock = UInt32.ofNat T := fun hne =>
    hclock.resolve_left hne
  have hno : ∀ {s' : IrIdNegotiator} {t : UInt32}, s'.PreferredOk →
      (s'.startProbe t).1.state ≠ .held := fun hp => startProbe_not_held hp _
  generalize s.exec c = r at hrule hwf hheld
  cases hrule with
  | begin m p t b => exact absurd rfl (hbegin m p t b)
  | listenEnd t | reprobe t | acquire t | rebeacon t => exact absurd rfl (htick t)
  | consume | ignore => exact .inl ⟨rfl, h.of_eq hwf hnow hlast h.last_lt⟩
  | evidence c id t =>
    refine .inl ⟨rfl, h.of_eq hwf hnow hlast h.last_lt ?_ ?_ ?_⟩
    · simp
    · simp
    · unfold note
      split <;> rfl
  | abort c t hev hs => exact absurd (hs.symm.trans h.held) (by simp)
  | defend src t =>
    refine .inr ⟨by simp [emit, h.send], h.of_beacon hwf hlast rfl rfl ?_⟩
    exact htime (by simp)
  | yield src t => exact absurd hheld (hno (by simpa [PreferredOk] using h.wf.preferredOk))
  | counter src t =>
    refine .inr ⟨by simp [sendBeacon, emit, h.send], h.of_beacon hwf hlast rfl rfl ?_⟩
    exact htime (by simp)

/-- The step lemma. -/
theorem Beaconing.step (h : s.Beaconing now last B) (hd : d ≤ 2 ^ 30) {e : ℕ × Call}
    (hnow : now ≤ e.1) (hT : e.1 ≤ last + d) (hclock : OnClock e)
    (hbegin : ∀ m p t b, e.2 ≠ .begin m p t b) (hheld : (s.exec e.2).1.state = .held) :
    (s.exec e.2).2 = [] ∧ (s.exec e.2).1.Beaconing e.1 (lastTick last e) B ∨
      ⟨.beacon, s.id, none⟩ ∈ (s.exec e.2).2 ∧
        (s.exec e.2).1.Beaconing e.1 (lastTick last e) e.1 := by
  rcases tick_or_other s last hclock with ⟨hexec, hlast⟩ | ⟨hnot, hlast⟩
  · rw [hexec, hlast]
    rcases h.tick hd hnow hT with ⟨hidle, h'⟩ | ⟨htx, h'⟩
    · rw [hidle]
      exact .inl ⟨rfl, h'⟩
    · exact .inr ⟨by rw [htx]; exact List.mem_singleton_self _, h'⟩
  · rw [hlast]
    exact h.other hnow hclock hbegin hnot hheld

/-- As long as a station holds its id, its broadcasts are paced. -/
theorem Beaconing.run (h : s.Beaconing now last B) (hd : d ≤ 2 ^ 30) {es : List (ℕ × Call)}
    (hes : Punctual d now last es)
    (hheld : ∀ pre, pre <+: es → (s.run (pre.map Prod.snd)).state = .held) :
    Paced (2000 + d) (B :: s.broadcasts es) ∧
      ∀ e ∈ es, ∃ L ∈ B :: s.broadcasts es, e.1 ≤ L + (2000 + d) := by
  induction es generalizing s now last B with
  | nil => exact ⟨List.isChain_singleton B, by simp⟩
  | cons e es ih =>
    obtain ⟨⟨hnow, hT, hclock, hbegin⟩, hrest⟩ := hes
    have hB := h.le_now
    have hlt := h.last_lt
    have hone : (s.exec e.2).1.state = .held :=
      hheld [e] (List.cons_prefix_cons.2 ⟨rfl, List.nil_prefix⟩)
    have hmore : ∀ pre, pre <+: es → ((s.exec e.2).1.run (pre.map Prod.snd)).state = .held :=
      fun pre hpre => hheld (e :: pre) (List.cons_prefix_cons.2 ⟨rfl, hpre⟩)
    rcases h.step hd hnow hT hclock hbegin hone with ⟨htx, h'⟩ | ⟨htx, h'⟩
    · obtain ⟨hpace, hall⟩ := ih h' hrest hmore
      rw [broadcasts, htx]
      refine ⟨hpace, fun f hf => ?_⟩
      rcases List.mem_cons.1 hf with rfl | hf
      · exact ⟨B, List.mem_cons_self, by omega⟩
      · exact hall f hf
    · obtain ⟨hpace, hall⟩ := ih h' hrest hmore
      obtain ⟨n, hn⟩ := broadcasts_cons_of_mem htx es
      rw [hn]
      refine ⟨hpace.repeated (by omega) (by omega) n, fun f hf => ?_⟩
      have hmem : ∀ L ∈ e.1 :: (s.exec e.2).1.broadcasts es,
          L ∈ B :: (List.replicate (n + 1) e.1 ++ (s.exec e.2).1.broadcasts es) := by
        intro L hL
        rw [List.replicate_succ]
        rcases List.mem_cons.1 hL with rfl | hL
        · simp
        · simp [hL]
      rcases List.mem_cons.1 hf with rfl | hf
      · exact ⟨f.1, hmem _ List.mem_cons_self, by omega⟩
      · obtain ⟨L, hL, hle⟩ := hall f hf
        exact ⟨L, hmem L hL, hle⟩

/-- A station that acquires its candidate starts to broadcast it. -/
theorem beaconing_acquired (h : s.Wf) (hsend : s.send = true) (hs : s.state ≠ .held)
    (hacq : (s.tick (UInt32.ofNat T)).1.state = .held) :
    (s.tick (UInt32.ofNat T)).2 = [⟨.beacon, s.candidate, none⟩, ⟨.beacon, s.candidate, none⟩] ∧
      (s.tick (UInt32.ofNat T)).1.id = s.candidate ∧
      (s.tick (UInt32.ofNat T)).1.Beaconing T T T := by
  have hwf : (s.tick (UInt32.ofNat T)).1.Wf := h.exec (.tick (UInt32.ofNat T))
  have hrule := exec_rule h (.tick (UInt32.ofNat T))
  rw [exec] at hrule
  generalize s.tick (UInt32.ofNat T) = r at hrule hacq hwf
  cases hrule with
  | listenEnd t => exact absurd hacq (startProbe_not_held h.preferredOk _)
  | ignore => exact absurd hacq hs
  | reprobe t => exact absurd hacq hs
  | rebeacon t hheld => exact absurd hheld hs
  | acquire t hprobe =>
    rw [becomeHeld_eq h hprobe] at hwf ⊢
    exact ⟨by simp [emit, hsend], rfl, hwf, rfl, hsend, rfl, le_rfl, le_rfl, by omega⟩
  | evidence _ _ _ hev | abort _ _ hev => simp [Call.evidence] at hev

/-- The broadcasts of a station from its acquisition on; its clock is ahead by
`skew`. -/
theorem broadcasts_acquired {skew : ℕ} (h : s.Wf) (hsend : s.send = true) (hs : s.state ≠ .held)
    (hacq : (s.tick (UInt32.ofNat (T + skew))).1.state = .held) (hd : d ≤ 2 ^ 30)
    {es : List (ℕ × Call)} (hes : Punctual d (T + skew) (T + skew) (ahead skew es))
    (hheld : ∀ pre, pre <+: es →
      ((s.tick (UInt32.ofNat (T + skew))).1.run (pre.map Prod.snd)).state = .held) :
    let Bs := s.broadcasts ((T, .tick (UInt32.ofNat (T + skew))) :: es)
    Bs.head? = some T ∧ Paced (2000 + d) Bs ∧
      ∀ e ∈ (T, Call.tick (UInt32.ofNat (T + skew))) :: es, ∃ L ∈ Bs, e.1 ≤ L + (2000 + d) := by
  intro Bs
  obtain ⟨htx, -, hstart⟩ := beaconing_acquired h hsend hs hacq
  obtain ⟨hpace, hall⟩ := hstart.run hd hes fun pre hpre => by
    obtain ⟨pre', hpre', rfl⟩ := List.prefix_map_iff.1 hpre
    have hsame : (ahead skew pre').map Prod.snd = pre'.map Prod.snd := ahead_calls skew pre'
    exact (congrArg _ (congrArg _ hsame)).trans (hheld pre' hpre')
  -- back to the real time
  rw [broadcasts_ahead] at hpace hall
  have hpace' : Paced (2000 + d)
      (T :: (s.tick (UInt32.ofNat (T + skew))).1.broadcasts es) := paced_map_add hpace
  have hBs : Bs = T :: T :: (s.tick (UInt32.ofNat (T + skew))).1.broadcasts es := by
    simp only [Bs]
    rw [broadcasts, exec, htx]
    rfl
  rw [hBs]
  refine ⟨rfl, hpace'.repeated le_rfl (Nat.le_add_right _ _) 0, fun e he => ?_⟩
  rcases List.mem_cons.1 he with rfl | he
  · exact ⟨T, List.mem_cons_self, Nat.le_add_right _ _⟩
  · obtain ⟨L, hL, hle⟩ := hall _ (List.mem_map_of_mem he)
    have hmem : L ∈ (T :: (s.tick (UInt32.ofNat (T + skew))).1.broadcasts es).map (· + skew) := hL
    obtain ⟨B, hB, rfl⟩ := List.mem_map.1 hmem
    have hle' : e.1 + skew ≤ B + skew + (2000 + d) := hle
    exact ⟨B, List.mem_cons_of_mem _ hB, by omega⟩

/-! ### The listener -/

/-- An occupied id is not chosen. -/
theorem startProbe_avoids (hp : s.PreferredOk) {t : UInt32} (hx : validId x = true)
    (hocc : s.isOccupied x t = true) : (s.startProbe t).1.candidate ≠ x := by
  rcases startProbe_cases hp t with ⟨heq, -⟩ | ⟨y, -, hfree, heq⟩
  · rw [heq]
    exact (validId_ne_zero hx).symm
  · rw [heq]
    rintro rfl
    exact nomatch hfree.symm.trans hocc

/-- No call makes a station probe or hold an id that is occupied at its time. -/
theorem exec_avoids (h : s.Wf) (hx : validId x = true) (hocc : s.isOccupied x c.clock = true)
    (hbegin : ∀ m p t b, c ≠ .begin m p t b) (hid : s.id ≠ x) (hcand : s.candidate ≠ x) :
    (s.exec c).1.id ≠ x ∧ (s.exec c).1.candidate ≠ x := by
  have hrule := exec_rule h c
  have hpref := h.preferredOk
  have h0 : (0 : UInt8) ≠ x := (validId_ne_zero hx).symm
  generalize s.exec c = r at hrule
  cases hrule with
  | begin m p t b => exact absurd rfl (hbegin m p t b)
  | listenEnd t =>
    rw [(startProbe_id s t).1]
    exact ⟨hid, startProbe_avoids hpref hx hocc⟩
  | acquire t hs =>
    rw [becomeHeld_eq h hs]
    exact ⟨hcand, h0⟩
  | evidence => exact ⟨by simpa using hid, by simpa using hcand⟩
  | abort c t hev =>
    rw [evidence_clock hev, (startProbe_id _ _).1, note_id]
    refine ⟨hid, startProbe_avoids (by simpa [PreferredOk] using hpref) hx ?_⟩
    rwa [isOccupied_note_of_ne hcand.symm]
  | yield src t =>
    rw [(startProbe_id _ _).1, setId_id]
    refine ⟨h0, startProbe_avoids (by simpa [PreferredOk] using hpref) hx ?_⟩
    rwa [isOccupied_setId, isOccupied_note_of_ne hid.symm]
  | _ => exact ⟨hid, hcand⟩

/-- The station knows of a holder of `x`: its evidence is from `R` or later, and
it neither holds nor probes the id. -/
structure Shielded (x : UInt8) (R now : ℕ) (s : IrIdNegotiator) : Prop where
  wf : s.Wf
  id_ne : s.id ≠ x
  candidate_ne : s.candidate ≠ x
  evidence : ∃ R', R ≤ R' ∧ R' ≤ now ∧ s.entry x = some (UInt32.ofNat R')

/-- The evidence counts for eight seconds. -/
theorem Shielded.isOccupied (h : s.Shielded x R now) (hx : validId x = true) (hnow : now ≤ T)
    (hT : T < R + 8000) : s.isOccupied x (UInt32.ofNat T) = true := by
  obtain ⟨R', hR, hle, hentry⟩ := h.evidence
  refine isOccupied_iff_entry.2 ⟨hx, _, hentry, ?_⟩
  rw [UInt32.lt_iff_toNat_lt, ofNat_sub_toNat (hle.trans hnow)]
  show (T - R') % 2 ^ 32 < 8000
  omega

/-- The step lemma. -/
theorem Shielded.exec (h : s.Shielded x R now) (hx : validId x = true) (hnow : now ≤ T)
    (hT : T < R + 8000) (hclock : OnClock (T, c)) (hbegin : ∀ m p t b, c ≠ .begin m p t b) :
    (s.exec c).1.Shielded x R T := by
  rcases hclock with rfl | hclock
  · obtain ⟨R', hR, hle, hentry⟩ := h.evidence
    exact ⟨h.wf.exec _, h.id_ne, h.candidate_ne, R', hR, hle.trans hnow, hentry⟩
  have hclock : c.clock = UInt32.ofNat T := hclock
  obtain ⟨hid, hcand⟩ := exec_avoids h.wf hx (hclock ▸ h.isOccupied hx hnow hT) hbegin h.id_ne
    h.candidate_ne
  refine ⟨h.wf.exec c, hid, hcand, ?_⟩
  obtain ⟨R', hR, hle, hseen⟩ := h.evidence
  rcases entry_exec h.wf c with ⟨m, p, t, b, hc⟩ | ⟨y, t, hev, -, -, -, hentry⟩ |
    ⟨-, -, -, hentry⟩ | ⟨-, -, hentry⟩
  · exact absurd hc (hbegin m p t b)
  · rw [hentry]
    by_cases hy : x = y
    · -- evidence for the id itself only refreshes it
      subst hy
      rw [Function.update_self, evidence_clock hev, hclock]
      exact ⟨T, by omega, le_rfl, rfl⟩
    · rw [Function.update_of_ne hy]
      exact ⟨R', hR, hle.trans hnow, hseen⟩
  · rw [hentry, Function.update_of_ne hid.symm]
    exact ⟨R', hR, hle.trans hnow, hseen⟩
  · rw [hentry]
    exact ⟨R', hR, hle.trans hnow, hseen⟩

/-- A beacon that arrives at a station that does not hold the id. -/
theorem shielded_foreign (h : s.Wf) (hx : validId x = true) (hsrc : m ≠ s.mac)
    (hown : s.id ≠ x) : (s.exec (.onBeacon m x (UInt32.ofNat T))).1.Shielded x T T := by
  have hrule := exec_rule h (.onBeacon m x (UInt32.ofNat T))
  have hwf := h.exec (.onBeacon m x (UInt32.ofNat T))
  have hev : (Call.onBeacon m x (UInt32.ofNat T)).evidence s.mac = some (x, UInt32.ofNat T) := by
    simp [Call.evidence, hsrc]
  have hprobe : s.candidate = x → s.state = .probe := fun hc =>
    h.probe_iff.2 (hc ▸ validId_ne_zero hx)
  obtain ⟨hstay, hentry⟩ := exec_foreign hown.symm hx hev
  refine ⟨hwf, by rwa [hstay], ?_, T, le_rfl, le_rfl, by rw [hentry, Function.update_self]⟩
  generalize s.exec _ = r at hrule
  cases hrule with
  | ignore c _ hopp => exact fun hc => hopp (hprobe hc) ⟨hc.symm, hsrc⟩
  | evidence c id t hev' _ _ hopp =>
    rw [note_candidate]
    exact fun hc => hopp (hprobe hc) ⟨hc.symm, hsrc⟩
  | abort c t hev' =>
    -- the station was probing the id, and chooses another one
    obtain ⟨hc, -⟩ := Prod.mk.inj (Option.some.inj (hev.symm.trans hev'))
    refine startProbe_avoids (by simpa [PreferredOk] using h.preferredOk) hx ?_
    rw [← hc]
    exact isOccupied_note_self hx
  | yield | counter => exact absurd rfl hown

/-- A beacon that arrives at a station that holds the id and has to yield. -/
theorem shielded_yield (h : s.Wf) (hx : validId s.id = true) (hlt : m.value < s.mac.value) :
    (s.exec (.onBeacon m s.id (UInt32.ofNat T))).1.Shielded s.id T T := by
  have hrule := exec_rule h (.onBeacon m s.id (UInt32.ofNat T))
  have hwf := h.exec (.onBeacon m s.id (UInt32.ofNat T))
  have hs := h.held_of_valid hx
  have hsrc := ne_of_value_lt hlt
  generalize s.exec _ = r at hrule hwf
  cases hrule with
  | ignore c _ _ hheld => exact absurd rfl (hheld m (UInt32.ofNat T) hs hsrc).2
  | evidence c id t hev _ hne =>
    obtain ⟨rfl, -⟩ : s.id = id ∧ _ := by simpa [Call.evidence, hsrc] using hev
    exact absurd rfl hne
  | abort c t hev hprobe => exact absurd (hs.symm.trans hprobe) (by simp)
  | counter _ _ _ _ hge => exact absurd hlt hge
  | yield =>
    refine ⟨hwf, ?_, startProbe_avoids ?_ hx ?_, T, le_rfl, le_rfl, ?_⟩
    · rw [(startProbe_id _ _).1, setId_id]
      exact (validId_ne_zero hx).symm
    · simpa [PreferredOk] using h.preferredOk
    · rw [isOccupied_setId]
      exact isOccupied_note_self hx
    · rw [entry_startProbe, entry_setId, entry_note s _ _ hx, Function.update_self]

/-- A beacon of `m` for `x` arrives. -/
def Call.isBeacon (m : Mac) (x : UInt8) : Call → Bool
  | .onBeacon src id _ => src = m ∧ id = x
  | _ => false

theorem eq_onBeacon {e : ℕ × Call} (hclock : OnClock e) (h : e.2.isBeacon m x = true) :
    e.2 = .onBeacon m x (UInt32.ofNat e.1) := by
  obtain ⟨T, c⟩ := e
  cases c with
  | onBeacon src id t =>
    obtain ⟨rfl, rfl⟩ : src = m ∧ id = x := by simpa [Call.isBeacon] using h
    obtain rfl : t = UInt32.ofNat T := hclock.resolve_left (by simp)
    rfl
  | _ => exact absurd h (by simp [Call.isBeacon])

/-- The times at which beacons of `m` for `x` arrive. -/
def heardFrom (m : Mac) (x : UInt8) (es : List (ℕ × Call)) : List ℕ :=
  (es.filter fun e => e.2.isBeacon m x).map Prod.fst

theorem heardFrom_ahead (m : Mac) (x : UInt8) (skew : ℕ) (es : List (ℕ × Call)) :
    heardFrom m x (ahead skew es) = (heardFrom m x es).map (· + skew) := by
  simp only [heardFrom, ahead, List.filter_map, List.map_map]
  rfl

/-- What arrived before a call is in the calls before it. -/
theorem heardFrom_before {fs pre post : List (ℕ × Call)} {g : ℕ × Call}
    (htimes : (fs.map Prod.fst).Pairwise (· ≤ ·)) (hfs : fs = pre ++ g :: post)
    (hR : R ∈ heardFrom m x fs) (hlt : R < g.1) : R ∈ heardFrom m x pre := by
  rw [hfs, heardFrom, List.filter_append, List.map_append] at hR
  rcases List.mem_append.1 hR with hR | hR
  · exact hR
  · rw [hfs, List.map_append, List.map_cons] at htimes
    have hge := (List.pairwise_cons.1 (List.pairwise_append.1 htimes).2.1).1
    obtain ⟨f, hf, rfl⟩ := List.mem_map.1 hR
    rcases List.mem_cons.1 (List.mem_of_mem_filter hf) with rfl | hpost
    · exact absurd hlt (lt_irrefl _)
    · exact absurd hlt (hge f.1 (List.mem_map_of_mem hpost)).not_gt

/-- At each call up to `E` a beacon is not eight seconds old, the one of `R` or one
that arrived since. -/
def HeardRecently (m : Mac) (x : UInt8) (R E : ℕ) (es : List (ℕ × Call)) : Prop :=
  ∀ pre e post, es = pre ++ e :: post → e.1 ≤ E →
    ∃ R' ∈ R :: heardFrom m x pre, e.1 < R' + 8000

/-- The same by a clock that is ahead. -/
theorem heardRecently_ahead {E : ℕ} {es : List (ℕ × Call)} (h : HeardRecently m x R E es)
    (skew : ℕ) : HeardRecently m x (R + skew) (E + skew) (ahead skew es) := by
  intro pre e post hes hE
  obtain ⟨pre', e', post', hes', rfl, rfl⟩ := ahead_split hes
  obtain ⟨R', hR', hlt⟩ := h pre' e' post' hes' (by simpa using hE)
  refine ⟨R' + skew, ?_, by dsimp only; omega⟩
  rw [heardFrom_ahead, ← List.map_cons (f := (· + skew))]
  exact List.mem_map_of_mem hR'

/-- What the channel guarantees: one of the last beacons was heard before the call,
or the first one not long ago. -/
theorem heardRecently_of_carried {g k δ E : ℕ} {Bs : List ℕ} {fs : List (ℕ × Call)}
    (hpace : Paced g Bs) (hhead : Bs.head? = some B) (hfirst : B ≤ R)
    (htimes : (R :: fs.map Prod.fst).Pairwise (· ≤ ·))
    (hbus : Carried k δ Bs (R :: heardFrom m x fs)) (hmargin : (k + 1) * g + δ < 8000)
    (hlast : ∃ L ∈ Bs, E ≤ L + g + δ) : HeardRecently m x R E fs := by
  intro pre e post hes hE
  have hsplit : (k + 1) * g = k * g + g := Nat.succ_mul k g
  obtain ⟨L, hL, hle⟩ := hlast
  rcases heard_recently hpace hbus (T := e.1) ⟨L, hL, by omega⟩ with
    ⟨b, hb, hearly⟩ | ⟨R', hR', hlt, hnear⟩
  · obtain rfl : B = b := Option.some.inj (hhead.symm.trans hb)
    exact ⟨R, List.mem_cons_self, by omega⟩
  · refine ⟨R', ?_, by omega⟩
    rcases List.mem_cons.1 hR' with rfl | hR'
    · exact List.mem_cons_self
    · exact List.mem_cons_of_mem _
        (heardFrom_before (List.pairwise_cons.1 htimes).2 hes hR' hlt)

/-- The run lemma: as long as there is a beacon that is not eight seconds old. -/
theorem Shielded.run {E : ℕ} (h : s.Shielded x R now) (hx : validId x = true) (hsrc : m ≠ s.mac)
    {es : List (ℕ × Call)} (htimes : (now :: es.map Prod.fst).Pairwise (· ≤ ·))
    (hcalls : ∀ e ∈ es, OnClock e ∧ ∀ m p t b, e.2 ≠ .begin m p t b)
    (hrecent : HeardRecently m x R E es)
    {pre : List (ℕ × Call)} {e : ℕ × Call} {post : List (ℕ × Call)} (hes : es = pre ++ e :: post)
    (hE : e.1 ≤ E) :
    (s.run (pre.map Prod.snd)).isOccupied x (UInt32.ofNat e.1) = true ∧
      ((s.run (pre.map Prod.snd)).exec e.2).1.Shielded x 0 e.1 := by
  induction pre generalizing s es R now with
  | nil =>
    have hnow : now ≤ e.1 := (List.pairwise_cons.1 htimes).1 e.1 (by simp [hes])
    obtain ⟨R', hR', hlt⟩ := hrecent [] e post hes hE
    obtain rfl : R' = R := by simpa [heardFrom] using hR'
    obtain ⟨hclock, hbegin⟩ := hcalls e (by simp [hes])
    obtain ⟨hwf, hid, hcand, R'', -, hle⟩ := h.exec hx hnow hlt hclock hbegin
    exact ⟨h.isOccupied hx hnow hlt, hwf, hid, hcand, R'', Nat.zero_le _, hle⟩
  | cons f pre ih =>
    subst hes
    obtain ⟨hclock, hbegin⟩ := hcalls f List.mem_cons_self
    obtain ⟨hnow, htail⟩ := List.pairwise_cons.1 htimes
    have hnow := hnow f.1 List.mem_cons_self
    have hfe : f.1 ≤ e.1 := (List.pairwise_cons.1 htail).1 e.1 (by simp)
    obtain ⟨R', hR', hlt⟩ := hrecent [] f (pre ++ e :: post) rfl (hfe.trans hE)
    obtain rfl : R' = R := by simpa [heardFrom] using hR'
    have hsrc' : m ≠ (s.exec f.2).1.mac := by rwa [(exec_mac_send h.wf hbegin).1]
    have hcalls' : ∀ g ∈ pre ++ e :: post, OnClock g ∧ ∀ m p t b, g.2 ≠ .begin m p t b :=
      fun g hg => hcalls g (List.mem_cons_of_mem _ hg)
    by_cases hheard : f.2.isBeacon m x = true
    · -- the evidence starts anew
      have h' := shielded_foreign (T := f.1) h.wf hx hsrc h.id_ne
      rw [← eq_onBeacon hclock hheard] at h'
      refine ih h' hsrc' htail hcalls' ?_ rfl
      intro pre' g post' hsplit hg
      obtain ⟨R₁, hR₁, hlt₁⟩ := hrecent (f :: pre') g post' (congrArg (f :: ·) hsplit) hg
      obtain ⟨R₂, hlow, hhigh, -⟩ := h.evidence
      have hcons : heardFrom m x (f :: pre') = f.1 :: heardFrom m x pre' := by
        simp [heardFrom, hheard]
      rw [hcons] at hR₁
      rcases List.mem_cons.1 hR₁ with rfl | hR₁
      · exact ⟨f.1, List.mem_cons_self, by omega⟩
      · exact ⟨R₁, hR₁, hlt₁⟩
    · refine ih (h.exec hx hnow hlt hclock hbegin) hsrc' htail hcalls' ?_ rfl
      intro pre' g post' hsplit hg
      have hcons : heardFrom m x (f :: pre') = heardFrom m x pre' := by
        simp [heardFrom, hheard]
      rw [← hcons]
      exact hrecent (f :: pre') g post' (congrArg (f :: ·) hsplit) hg

/-! ### Both together -/

/-- **Beacons shield the id**: a station acquires an id at `Ta`, is ticked at most
`d` ms apart and holds the id; another one, with any calls, hears the first of
its beacons at `R₀`, and of any `k` + 1 broadcasts in a row at least one within
`δ` ms.  The clocks are ahead of the real time by `skew` and `skew'`.  If
(`k` + 1)(2000 + `d`) + `δ` is less than the eight seconds, the other station sees
the id occupied all that time, and neither probes, holds nor transmits it. -/
theorem beacons_shield_id {h l : IrIdNegotiator} {skew skew' k δ d Ta R₀ : ℕ} (hh : h.Wf)
    (hsend : h.send = true) (hfree : h.state ≠ .held)
    (hacq : (h.tick (UInt32.ofNat (Ta + skew))).1.state = .held) {es : List (ℕ × Call)}
    (hes : Punctual d (Ta + skew) (Ta + skew) (ahead skew es))
    (hheld : ∀ pre, pre <+: es →
      ((h.tick (UInt32.ofNat (Ta + skew))).1.run (pre.map Prod.snd)).state = .held)
    (hl : l.Wf) (hmac : h.mac ≠ l.mac) (hid : l.id ≠ h.candidate ∨ h.mac.value < l.mac.value)
    (hfirst : Ta ≤ R₀) {fs : List (ℕ × Call)}
    (htimes : (R₀ :: fs.map Prod.fst).Pairwise (· ≤ ·))
    (hcalls : ∀ f ∈ ahead skew' fs, OnClock f ∧ ∀ m p t b, f.2 ≠ .begin m p t b)
    (hbus : Carried k δ (h.broadcasts ((Ta, .tick (UInt32.ofNat (Ta + skew))) :: es))
      (R₀ :: heardFrom h.mac h.candidate fs))
    (hmargin : (k + 1) * (2000 + d) + δ < 8000)
    {pre : List (ℕ × Call)} {f : ℕ × Call} {post : List (ℕ × Call)} (hfs : fs = pre ++ f :: post)
    (hlast : ∃ e ∈ (Ta, Call.tick (UInt32.ofNat (Ta + skew))) :: es, f.1 ≤ e.1 + δ) :
    let s := (l.exec (.onBeacon h.mac h.candidate (UInt32.ofNat (R₀ + skew')))).1.run
      (pre.map Prod.snd)
    s.isOccupied h.candidate (UInt32.ofNat (f.1 + skew')) = true ∧
      (s.exec f.2).1.id ≠ h.candidate ∧ (s.exec f.2).1.candidate ≠ h.candidate ∧
      ∀ tx ∈ (s.exec f.2).2, tx.id ≠ h.candidate := by
  intro s
  have hsplit : (k + 1) * (2000 + d) = k * (2000 + d) + (2000 + d) := Nat.succ_mul k _
  obtain ⟨-, hown, hstart⟩ := beaconing_acquired hh hsend hfree hacq
  have hx : validId h.candidate = true := hown ▸ hstart.wf.validId_id hstart.held
  obtain ⟨hhead, hpace, hsent⟩ :=
    broadcasts_acquired hh hsend hfree hacq (by omega : d ≤ 2 ^ 30) hes hheld
  have hrecent : HeardRecently h.mac h.candidate R₀ f.1 fs := by
    obtain ⟨e, he, hfe⟩ := hlast
    obtain ⟨L, hL, hle⟩ := hsent e he
    exact heardRecently_of_carried hpace hhead hfirst htimes hbus hmargin ⟨L, hL, by omega⟩
  have hshield : (l.exec (.onBeacon h.mac h.candidate (UInt32.ofNat (R₀ + skew')))).1.Shielded
      h.candidate (R₀ + skew') (R₀ + skew') := by
    by_cases hforeign : l.id = h.candidate
    · have hlt := hid.resolve_left fun hne => hne hforeign
      rw [← hforeign] at hx ⊢
      exact shielded_yield hl hx hlt
    · exact shielded_foreign hl hx hmac hforeign
  have hsrc : h.mac ≠ (l.exec (.onBeacon h.mac h.candidate (UInt32.ofNat (R₀ + skew')))).1.mac := by
    rwa [(exec_mac_send hl (by simp)).1]
  have hfs' : ahead skew' fs = ahead skew' pre ++ (f.1 + skew', f.2) :: ahead skew' post := by
    simp [hfs, ahead]
  obtain ⟨hocc, hafter⟩ := hshield.run hx hsrc (pairwise_ahead htimes skew') hcalls
    (heardRecently_ahead hrecent skew') hfs' le_rfl
  rw [ahead_calls] at hocc hafter
  refine ⟨hocc, hafter.id_ne, hafter.candidate_ne, fun tx htx => ?_⟩
  have hwf : s.Wf := hshield.wf.run _
  cases hk : tx.kind with
  | probe =>
    rw [(probe_tx hwf htx hk).2]
    exact hafter.candidate_ne
  | beacon =>
    rw [(beacon_tx hwf htx hk).2]
    exact hafter.id_ne

/-- A station about to acquire id 4. -/
def acquiring : IrIdNegotiator :=
  (({} : IrIdNegotiator).begin neighbour 4 0 true).run
    [.tick 3000, .tick 3150, .tick 3300]

/-- A station that comes back to id 4; its clock wraps at real time 7000. -/
def returning : IrIdNegotiator :=
  ({} : IrIdNegotiator).begin ⟨#v[0x24, 0x6F, 0x28, 0, 2, 0x03]⟩ 4 4294962696 true

/-- The holder, ticked every second; its clock is a second ahead. -/
def holding : List (ℕ × Call) :=
  [(3450, .tick 4450), (4450, .tick 5450), (5450, .tick 6450), (6450, .tick 7450),
    (7450, .tick 8450), (8450, .tick 9450)]

/-- The other one hears every second beacon. -/
def hearing : List (ℕ × Call) :=
  [(5400, .tick 4294965696), (6460, .onBeacon neighbour 4 4294966756), (8000, .tick 1000)]

/-- It takes another id, and still does when its clock shows 1000 again. -/
theorem beacons_shield_id_returning :
    acquiring.broadcasts ((2450, .tick 3450) :: holding) = [2450, 2450, 4450, 6450, 8450] ∧
    let s := (returning.exec (.onBeacon acquiring.mac acquiring.candidate 4294962756)).1.run
      ((hearing.take 2).map Prod.snd)
    s.isOccupied acquiring.candidate 1000 = true ∧
      (s.exec (.tick 1000)).1.id ≠ acquiring.candidate ∧
      (s.exec (.tick 1000)).1.candidate ≠ acquiring.candidate ∧
      ∀ tx ∈ (s.exec (.tick 1000)).2, tx.id ≠ acquiring.candidate := by
  have hwf : acquiring.Wf := (wf_begin _ _ _ _ _).run _
  refine ⟨by decide +kernel, ?_⟩
  refine @beacons_shield_id acquiring returning 1000 4294960296 1 20 1000 2450 2460 hwf rfl
    (by decide +kernel) (by decide +kernel) holding ?_ ?_ (wf_begin _ _ _ _ _)
    (by decide +kernel) (by decide +kernel) (by decide) hearing (by decide) ?_
    (by decide +kernel) (by decide) (hearing.take 2) (8000, .tick 1000) [] rfl
    ⟨(8450, .tick 9450), by simp [holding], by decide⟩
  · simp [ahead, holding, Punctual, lastTick, OnClock, Call.clock]
  · intro pre hpre
    have hall : ∀ pre ∈ holding.inits,
        ((acquiring.tick (UInt32.ofNat 3450)).1.run (pre.map Prod.snd)).state = .held := by
      decide +kernel
    exact hall pre ((List.mem_inits _ _).2 hpre)
  · simp [ahead, hearing, OnClock, Call.clock]

end IrIdNegotiator

end InfinitagNow
