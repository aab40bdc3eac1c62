/-
InfinitagNow/NegotiatorTrace.lean

What a negotiator's history looks like when its id changes.

The object keeps a probe counter and one timestamp; the history they stand for
is recovered as a ghost.  `Probing` says that a call followed by a list of calls
is one probing of an id, with the clock values of its probes, and
`probeHistory_run` says that a station in PROBE is always at the end of such a
probing, its counter and timestamp describing it.  `Listening` does the same
for the silence after `begin`.
-/
import InfinitagNow.IrIdNegotiator

namespace InfinitagNow

namespace IrIdNegotiator

/-! ### The transmissions of a run -/

/-- The clock value a call brings. -/
def Call.clock : Call → UInt32
  | .begin _ _ t _ => t
  | .tick t => t
  | .onProbe _ _ t => t
  | .onBeacon _ _ t => t
  | .onHitReport _ t => t
  | .consumeIdChanged => 0

/-- Evidence carries the clock value of its call. -/
theorem evidence_clock {c : Call} {m : Mac} {id : UInt8} {t : UInt32}
    (hev : c.evidence m = some (id, t)) : t = c.clock := by
  rcases evidence_cases hev with ⟨src, -, rfl | rfl⟩ | rfl
  · rfl
  · rfl
  · rfl

/-- Everything transmitted during a run, with the clock of the call. -/
def sent (s : IrIdNegotiator) : List Call → List (UInt32 × Tx)
  | [] => []
  | c :: cs => (s.exec c).2.map (fun tx => (c.clock, tx)) ++ sent (s.exec c).1 cs

theorem sent_append (s : IrIdNegotiator) (cs ds : List Call) :
    s.sent (cs ++ ds) = s.sent cs ++ (s.run cs).sent ds := by
  induction cs generalizing s with
  | nil => rfl
  | cons c cs ih =>
    rw [List.cons_append, sent, sent, ih, List.append_assoc]
    rfl

theorem sent_concat (s : IrIdNegotiator) (cs : List Call) (c : Call) :
    s.sent (cs ++ [c]) =
      s.sent cs ++ ((s.run cs).exec c).2.map fun tx => (c.clock, tx) := by
  rw [sent_append]
  simp [sent]

/-! ### One probing -/

/-- Called in state `s`, `start` begins a probing of `x` that lasts all through
the calls `mid`; `times` are the clock values of its probes. -/
structure Probing (s : IrIdNegotiator) (start : Call) (mid : List Call) (x : UInt8)
    (times : List UInt32) : Prop where
  /-- no unexpired evidence when it starts, that of `start` included -/
  free : (s.exec start).1.isOccupied x start.clock = false
  fresh : ¬ (s.state = .probe ∧ s.candidate = x)
  throughout : ∀ ds, ds <+: mid →
    (s.run (start :: ds)).state = .probe ∧ (s.run (start :: ds)).candidate = x
  own : (s.run (start :: mid)).mac = s.mac ∧ (s.run (start :: mid)).send = s.send
  unopposed : ∀ c ∈ mid, ¬ c.opposes s.mac x
  broadcasts : s.sent (start :: mid) =
    if s.send then times.map fun t => (t, ⟨.probe, x, none⟩) else []
  clocks : times.Sublist ((start :: mid).map Call.clock)
  gaps : times.IsChain fun t u => iridTProbeMs ≤ u - t

variable {s : IrIdNegotiator} {start : Call} {mid : List Call} {x : UInt8} {times : List UInt32}

/-- A call that starts a probing of a free id. -/
theorem Probing.begin {t : UInt32} {s' : IrIdNegotiator} (ht : start.clock = t)
    (hfree : s'.isOccupied x t = false) (hfresh : ¬ (s.state = .probe ∧ s.candidate = x))
    (heq : s.exec start =
      ({ s' with state := .probe, candidate := x, probesSent := 1, lastProbeMs := t },
        s.emit .probe x none)) (hmac : s'.mac = s.mac) (hsend : s'.send = s.send) :
    Probing s start [] x [t] := by
  refine ⟨?_, hfresh, ?_, ?_, by simp, ?_, by simp [ht], .singleton t⟩
  · rw [heq, ht]
    exact hfree
  · intro ds hds
    obtain rfl := List.prefix_nil.1 hds
    simp [run, heq]
  · simp [run, heq, hmac, hsend]
  · simp [sent, heq, ht, emit]
    split <;> simp

/-- A call during which the station goes on probing, with what it transmits. -/
theorem Probing.concat (h : Probing s start mid x times) {c : Call} {more : List UInt32}
    (hst : (s.run (start :: (mid ++ [c]))).state = .probe)
    (hcand : (s.run (start :: (mid ++ [c]))).candidate = x)
    (hown : (s.run (start :: (mid ++ [c]))).mac = s.mac ∧
      (s.run (start :: (mid ++ [c]))).send = s.send)
    (hopp : ¬ c.opposes s.mac x)
    (htx : ((s.run (start :: mid)).exec c).2.map (fun tx => (c.clock, tx)) =
      if s.send then more.map fun t => (t, ⟨.probe, x, none⟩) else [])
    (hclock : more.Sublist [c.clock])
    (hgaps : (times ++ more).IsChain fun t u => iridTProbeMs ≤ u - t) :
    Probing s start (mid ++ [c]) x (times ++ more) := by
  refine ⟨h.free, h.fresh, ?_, hown, ?_, ?_, ?_, hgaps⟩
  · intro ds hds
    rcases List.prefix_concat_iff.1 hds with rfl | hds
    · exact ⟨hst, hcand⟩
    · exact h.throughout ds hds
  · intro d hd
    rcases List.mem_append.1 hd with hd | hd
    · exact h.unopposed d hd
    · obtain rfl := List.mem_singleton.1 hd
      exact hopp
  · rw [← List.cons_append, sent_concat, h.broadcasts, htx]
    split <;> simp
  · rw [← List.cons_append, List.map_append]
    exact h.clocks.append hclock

/-! ### A station in PROBE is at the end of a probing -/

/-- The probe counter and the probe timestamp of the state after `cs` describe
a probing at the end of `cs`. -/
def ProbeHistory (s₀ : IrIdNegotiator) (cs : List Call) : Prop :=
  ∃ pre start mid times, cs = pre ++ start :: mid ∧
    Probing (s₀.run pre) start mid (s₀.run cs).candidate times ∧
    times.length = (s₀.run cs).probesSent.toNat ∧
    times.length ≤ 3 ∧
    times.getLast? = some (s₀.run cs).lastProbeMs

variable {s₀ : IrIdNegotiator} {cs : List Call}

/-- A call that goes on with the probing at the end of the run. -/
theorem ProbeHistory.concat (h : ProbeHistory s₀ cs) {c : Call} (more : List UInt32)
    (hst : (s₀.run (cs ++ [c])).state = .probe)
    (hcand : (s₀.run (cs ++ [c])).candidate = (s₀.run cs).candidate)
    (hown : (s₀.run (cs ++ [c])).mac = (s₀.run cs).mac ∧
      (s₀.run (cs ++ [c])).send = (s₀.run cs).send)
    (hopp : ¬ c.opposes (s₀.run cs).mac (s₀.run cs).candidate)
    (htx : ((s₀.run cs).exec c).2 =
      if (s₀.run cs).send then more.map fun _ => ⟨.probe, (s₀.run cs).candidate, none⟩ else [])
    (hmore : more = [] ∧ (s₀.run (cs ++ [c])).probesSent = (s₀.run cs).probesSent ∧
        (s₀.run (cs ++ [c])).lastProbeMs = (s₀.run cs).lastProbeMs ∨
      more = [c.clock] ∧ (s₀.run cs).probesSent < iridNProbe ∧
        (s₀.run (cs ++ [c])).probesSent = (s₀.run cs).probesSent + 1 ∧
        (s₀.run (cs ++ [c])).lastProbeMs = c.clock ∧
        iridTProbeMs ≤ c.clock - (s₀.run cs).lastProbeMs) :
    ProbeHistory s₀ (cs ++ [c]) := by
  -- the call is put behind the middle part; the run up to the start of the probing stays
  obtain ⟨pre, start, mid, times, rfl, hprobing, hlen, hle, hlast⟩ := h
  have hsplit : ∀ ds, s₀.run (pre ++ start :: ds) = (s₀.run pre).run (start :: ds) :=
    fun ds => run_append s₀ pre (start :: ds)
  have hcs : pre ++ start :: mid ++ [c] = pre ++ start :: (mid ++ [c]) := by simp
  simp only [hcs, hsplit] at hst hcand hown hopp htx hmore hprobing hlen hlast
  obtain ⟨hmac', hsend'⟩ := hprobing.own
  refine ⟨pre, start, mid ++ [c], times ++ more, hcs, ?_, ?_⟩
  · rw [hcs, hsplit, hcand]
    refine hprobing.concat hst hcand ⟨hown.1.trans hmac', hown.2.trans hsend'⟩
      (hmac' ▸ hopp) ?_ ?_ ?_
    · rw [htx, hsend']
      split
      · rcases hmore with ⟨rfl, -⟩ | ⟨rfl, -⟩ <;> simp
      · rfl
    · rcases hmore with ⟨rfl, -⟩ | ⟨rfl, -⟩ <;> simp
    · rcases hmore with ⟨rfl, -⟩ | ⟨rfl, -, -, -, hgap⟩
      · simpa using hprobing.gaps
      · refine List.isChain_append.2 ⟨hprobing.gaps, .singleton _, ?_⟩
        intro t ht u hu
        rw [hlast] at ht
        simp only [Option.mem_def, Option.some.injEq, List.head?_cons] at ht hu
        rw [← ht, ← hu]
        exact hgap
  · rw [hcs, hsplit]
    rcases hmore with ⟨rfl, hcount, hms⟩ | ⟨rfl, hlt, hcount, hms, -⟩
    · rw [hcount, hms]
      simpa using ⟨hlen, hle, hlast⟩
    · rw [hcount, hms]
      have hlt' : ((s₀.run pre).run (start :: mid)).probesSent.toNat < 3 :=
        UInt8.lt_iff_toNat_lt.1 hlt
      refine ⟨?_, ?_, by simp⟩
      · simp only [List.length_append, List.length_singleton, UInt8.toNat_add]
        simp
        omega
      · simp only [List.length_append, List.length_singleton]
        omega

/-- A call that starts a probing makes a history of one probe. -/
theorem ProbeHistory.begin {c : Call} {t : UInt32} {y : UInt8} (s' : IrIdNegotiator)
    (ht : c.clock = t) (hfree : s'.isOccupied y t = false)
    (hfresh : ¬ ((s₀.run cs).state = .probe ∧ (s₀.run cs).candidate = y))
    (heq : (s₀.run cs).exec c =
      ({ s' with state := .probe, candidate := y, probesSent := 1, lastProbeMs := t },
        (s₀.run cs).emit .probe y none))
    (hmac : s'.mac = (s₀.run cs).mac) (hsend : s'.send = (s₀.run cs).send) :
    ProbeHistory s₀ (cs ++ [c]) := by
  have hrun : s₀.run (cs ++ [c]) =
      { s' with state := .probe, candidate := y, probesSent := 1, lastProbeMs := t } := by
    rw [run_concat, heq]
  refine ⟨cs, c, [], [t], rfl, ?_, ?_, by simp, ?_⟩
  · rw [hrun]
    exact .begin ht hfree hfresh heq hmac hsend
  · rw [hrun]
    rfl
  · rw [hrun]
    rfl

/-- The step lemma of `ProbeHistory`. -/
theorem probeHistory_step (hwf : (s₀.run cs).Wf)
    (ih : (s₀.run cs).state = .probe → ProbeHistory s₀ cs) (c : Call)
    (hst : (s₀.run (cs ++ [c])).state = .probe) : ProbeHistory s₀ (cs ++ [c]) := by
  have hrule := exec_rule hwf c
  have hpref := hwf.preferredOk
  have hconcat := run_concat s₀ cs c
  generalize hr : (s₀.run cs).exec c = r at hrule hconcat
  rw [hconcat] at hst
  cases hrule with
  | begin m p t b => simp [IrIdNegotiator.begin] at hst
  | consume =>
    refine (ih hst).concat [] ?_ ?_ ?_ (by simp [Call.opposes]) ?_ (.inl ⟨rfl, ?_, ?_⟩) <;>
      simp [hconcat, hr]
    exact hst
  | ignore c hbegin hopp =>
    refine (ih hst).concat [] ?_ ?_ ?_ (hopp hst) ?_ (.inl ⟨rfl, ?_, ?_⟩) <;>
      simp [hconcat, hr]
    exact hst
  | listenEnd t hs =>
    rcases startProbe_cases hpref t with ⟨heq, -⟩ | ⟨y, -, hfree, heq⟩
    · simp [heq] at hst
    · exact .begin _ rfl hfree (by simp [hs]) (hr.trans heq) rfl rfl
  | reprobe t hs hdue hlt =>
    refine (ih hs).concat [t] ?_ ?_ ?_ (by simp [Call.opposes]) ?_
      (.inr ⟨rfl, hlt, ?_, ?_, ?_⟩) <;> simp [hconcat, hr, hs, sendProbe, Call.clock, emit]
    simpa [elapsed] using hdue
  | acquire t hs => simp [becomeHeld_eq hwf hs] at hst
  | rebeacon t hs => simp [sendBeacon, hs] at hst
  | evidence c id t hev hid hne hopp =>
    have hs : (s₀.run cs).state = .probe := by simpa using hst
    refine (ih hs).concat [] ?_ ?_ ?_ (hopp hs) ?_ (.inl ⟨rfl, ?_, ?_⟩) <;>
      simp [hconcat, hr, hs]
  | abort c t hev hs hopp =>
    have hclock : c.clock = t := (evidence_clock hev).symm
    rcases startProbe_cases (s := (s₀.run cs).note (s₀.run cs).candidate t)
        (by simpa [PreferredOk] using hpref) t with ⟨heq, -⟩ | ⟨y, hy, hfree, heq⟩
    · simp [heq] at hst
    · refine .begin ((s₀.run cs).note (s₀.run cs).candidate t) hclock hfree ?_
        (hr.trans (heq.trans ?_)) ?_ ?_
      · rintro ⟨-, rfl⟩
        simp [isOccupied_note_self hy] at hfree
      all_goals simp [emit]
  | defend src t hs => simp [hs] at hst
  | yield src t hs =>
    rcases startProbe_cases (s := ((s₀.run cs).note (s₀.run cs).id t).setId 0)
        (by simpa [PreferredOk] using hpref) t with ⟨heq, -⟩ | ⟨y, hy, hfree, heq⟩
    · simp [heq] at hst
    · refine .begin (((s₀.run cs).note (s₀.run cs).id t).setId 0) rfl hfree
        (by simp [hs]) (hr.trans (heq.trans ?_)) ?_ ?_
      all_goals simp [emit, Call.clock]
  | counter src t hs => simp [sendBeacon, hs] at hst

/-- The run lemma of `ProbeHistory`. -/
theorem probeHistory_run (hwf : s₀.Wf) (h0 : s₀.state = .listen) (cs : List Call)
    (hst : (s₀.run cs).state = .probe) : ProbeHistory s₀ cs := by
  induction cs using List.reverseRecOn with
  | nil => simp [h0] at hst
  | append_singleton cs c ih => exact probeHistory_step (hwf.run cs) ih c hst

/-! ### Listening after begin -/

/-- The deadline of the listening phase that began at `t`. -/
def Listening (t : UInt32) (s : IrIdNegotiator) : Prop :=
  s.Wf ∧ s.state = .listen ∧ s.listenUntil = t + iridTListenMs

theorem Listening.begin (s : IrIdNegotiator) (m : Mac) (p : UInt8) (t : UInt32) (b : Bool) :
    Listening t (s.begin m p t b) :=
  ⟨wf_begin s m p t b, rfl, rfl⟩

/-- Before its deadline a listening station says nothing and goes on
listening. -/
theorem Listening.exec {t : UInt32} {s : IrIdNegotiator} (h : Listening t s) {c : Call}
    (hbegin : ∀ m p u b, c ≠ .begin m p u b) (htick : ∀ u, c = .tick u → u - t < iridTListenMs) :
    (s.exec c).2 = [] ∧ Listening t (s.exec c).1 := by
  obtain ⟨hwf, hst, hdl⟩ := h
  have hrule := exec_rule hwf c
  have hwf' := hwf.exec c
  generalize s.exec c = r at hrule hwf'
  cases hrule with
  | begin m p u b => exact absurd rfl (hbegin m p u b)
  | consume => exact ⟨rfl, hwf', hst, hdl⟩
  | ignore => exact ⟨rfl, hwf', hst, hdl⟩
  | listenEnd u hs hdue =>
    rw [hdl] at hdue
    have hle := le_sub_of_signed (d := iridTListenMs) (by decide) hdue
    exact absurd hle (UInt32.not_le.2 (htick u rfl))
  | evidence => exact ⟨rfl, hwf', by simpa using hst, by simpa using hdl⟩
  | reprobe u hs | acquire u hs | rebeacon u hs | abort c u hev hs | defend src u hs
  | yield src u hs | counter src u hs => simp [hst] at hs

theorem Listening.sent {t : UInt32} {s : IrIdNegotiator} (h : Listening t s) {cs : List Call}
    (hbegin : ∀ m p u b, Call.begin m p u b ∉ cs)
    (htick : ∀ u, Call.tick u ∈ cs → u - t < iridTListenMs) : s.sent cs = [] := by
  induction cs generalizing s with
  | nil => rfl
  | cons c cs ih =>
    obtain ⟨htx, hnext⟩ := h.exec (c := c)
      (fun m p u b hc => hbegin m p u b (by simp [hc])) (fun u hc => htick u (by simp [hc]))
    rw [IrIdNegotiator.sent, htx, ih hnext
      (fun m p u b hc => hbegin m p u b (List.mem_cons_of_mem _ hc))
      (fun u hc => htick u (List.mem_cons_of_mem _ hc))]
    rfl

/-! ### Changes of the id -/

/-- Only a tick makes an id out of none, at the end of the third probe's
period. -/
theorem acquire_of_id {s : IrIdNegotiator} (h : s.Wf) {c : Call} (h0 : s.id = 0)
    (h1 : (s.exec c).1.id ≠ 0) :
    ∃ t, c = .tick t ∧ s.state = .probe ∧ (s.exec c).1.id = s.candidate ∧
      iridTProbeMs ≤ t - s.lastProbeMs ∧ 3 ≤ s.probesSent.toNat := by
  have hrule := exec_rule h c
  have hpref := h.preferredOk
  generalize s.exec c = r at hrule h1
  have hnone : ∀ {s' : IrIdNegotiator} {t : UInt32}, s'.PreferredOk → s'.id = 0 →
      (s'.startProbe t).1.id = 0 := by
    intro s' t hp hid
    rcases startProbe_cases hp t with ⟨heq, -⟩ | ⟨y, -, -, heq⟩ <;> rw [heq] <;> exact hid
  cases hrule with
  | begin m p t b => exact absurd rfl h1
  | listenEnd t => exact absurd (hnone hpref h0) h1
  | acquire t hs hdue hge =>
    refine ⟨t, rfl, hs, by rw [becomeHeld_eq h hs], by simpa [elapsed] using hdue, ?_⟩
    have : ¬ s.probesSent.toNat < 3 := fun hlt => hge (UInt8.lt_iff_toNat_lt.2 hlt)
    omega
  | abort c t => exact absurd (hnone (by simpa [PreferredOk] using hpref) (by simpa using h0)) h1
  | yield src t => exact absurd (hnone (by simpa [PreferredOk] using hpref) (by simp)) h1
  | evidence c id t => exact absurd (by simpa using h0) h1
  | _ => exact absurd h0 h1

/-- Only `begin` and a beacon of a smaller address take an id away; after the
beacon the station probes again, unless all ids are occupied. -/
theorem lost_of_id {s : IrIdNegotiator} (h : s.Wf) {c : Call} (h0 : s.id ≠ 0)
    (h1 : (s.exec c).1.id = 0) :
    (∃ m p t b, c = .begin m p t b) ∨
      ∃ src t, c = .onBeacon src s.id t ∧ src.value < s.mac.value ∧
        ((s.exec c).1.state = .probe ∨
          ∀ id, validId id = true → (s.exec c).1.isOccupied id t = true) := by
  have hrule := exec_rule h c
  have hpref := h.preferredOk
  have hheld := h.held_iff.2 h0
  generalize s.exec c = r at hrule h1
  cases hrule with
  | begin m p t b => exact .inl ⟨m, p, t, b, rfl⟩
  | yield src t hs hlt =>
    refine .inr ⟨src, t, rfl, hlt, ?_⟩
    rcases startProbe_cases (s := (s.note s.id t).setId 0)
        (by simpa [PreferredOk] using hpref) t with ⟨heq, hall⟩ | ⟨y, -, -, heq⟩
    · rw [heq]
      exact .inr hall
    · rw [heq]
      exact .inl rfl
  | listenEnd t hs | reprobe t hs | acquire t hs | abort c t hev hs => simp [hheld] at hs
  | evidence c id t => exact absurd (by simpa using h1) h0
  | _ => exact absurd h1 h0

/-! ### The history theorem -/

/-- **History of an id**, for any calls after a first `begin`.  An id is
acquired only by a tick, after a full unopposed probing that sent exactly three
probes (through the callback, if there is one) at least a probe period apart;
nothing is sent after `begin` until a tick comes at least the listening time
later; an id is lost only to `begin` or to a beacon of a smaller address. -/
theorem id_history (s₀ : IrIdNegotiator) (m : Mac) (p : UInt8) (t : UInt32) (b : Bool)
    (cs : List Call) (c : Call) :
    let s₁ := s₀.begin m p t b
    let s := s₁.run cs
    let s' := (s.exec c).1
    (∀ x, s.id = 0 → s'.id = x → x ≠ 0 →
      ∃ u t₁ t₂ t₃ pre start mid, c = .tick u ∧ cs = pre ++ start :: mid ∧
        Probing (s₁.run pre) start mid x [t₁, t₂, t₃] ∧ iridTProbeMs ≤ u - t₃) ∧
    (∀ pre m' p' t' b' post, .begin m p t b :: cs = pre ++ .begin m' p' t' b' :: post →
      (∀ m p t b, Call.begin m p t b ∉ post) →
      (∀ u, Call.tick u ∈ post → u - t' < iridTListenMs) →
      ((s₀.run pre).exec (.begin m' p' t' b')).1.sent post = []) ∧
    (s.id ≠ 0 → s'.id = 0 →
      (∃ m p t b, c = .begin m p t b) ∨
        ∃ src u, c = .onBeacon src s.id u ∧ src.value < s.mac.value ∧
          (s'.state = .probe ∨ ∀ id, validId id = true → s'.isOccupied id u = true)) := by
  intro s₁ s s'
  have hwf₁ : s₁.Wf := wf_begin s₀ m p t b
  have hwf : s.Wf := hwf₁.run cs
  refine ⟨?_, ?_, lost_of_id hwf⟩
  · rintro x h0 rfl h1
    obtain ⟨u, rfl, hs, hid, hdue, hcount⟩ := acquire_of_id hwf h0 h1
    obtain ⟨pre, start, mid, times, hcs, hprobing, hlen, hle, hlast⟩ :=
      probeHistory_run hwf₁ rfl cs hs
    obtain ⟨t₁, t₂, t₃, rfl⟩ : ∃ t₁ t₂ t₃, times = [t₁, t₂, t₃] :=
      List.length_eq_three.1 (le_antisymm hle (hlen ▸ hcount))
    -- the third probe is the one the tick waited for
    obtain rfl : t₃ = s.lastProbeMs := by simpa using hlast
    exact ⟨u, t₁, t₂, _, pre, start, mid, rfl, hcs, hid ▸ hprobing, hdue⟩
  · intro pre m' p' t' b' post _ hbegin htick
    exact (Listening.begin (s₀.run pre) m' p' t' b').sent hbegin htick

/-- A station without a callback. -/
def silent : IrIdNegotiator :=
  ({} : IrIdNegotiator).begin ⟨#v[0x24, 0x6F, 0x28, 0, 0, 0x03]⟩ 0 0 false

/-- It acquires an id and nothing is ever broadcast. -/
theorem id_acquired_silently :
    (silent.run [.tick 3000, .tick 3150, .tick 3300]).id = 0 ∧
      ((silent.run [.tick 3000, .tick 3150, .tick 3300]).exec (.tick 3450)).1.id = 4 ∧
      silent.sent [.tick 3000, .tick 3150, .tick 3300, .tick 3450] = [] := by
  decide

end IrIdNegotiator

end InfinitagNow
