/-
InfinitagNow/BusConverged.lean

A converged group stays converged.

`NetAct` drives the stations of a bus over a network that delays, reorders,
loses and duplicates; nobody boots.  `Converged` is the closed set: every
station holds an id, the ids are pairwise distinct, and in flight there are
only beacons that carry the address and the id of a holder.  A station that
holds is moved only by a beacon or a probe for its own id from another address
(`keeps_of_quiet`), and the network of a converged group never carries one, so
the set is closed under every step and with it under every run.
-/
import InfinitagNow.StationBus
import InfinitagNow.Runs

namespace InfinitagNow

namespace IrIdNegotiator

/-- Holding goes on: same id and address, no new change reported, and the only
transmissions are beacons for that id. -/
structure Keeps (s : IrIdNegotiator) (r : IrIdNegotiator × List Tx) : Prop where
  held : r.1.state = .held
  id : r.1.id = s.id
  mac : r.1.mac = s.mac
  unchanged : r.1.idChanged = true → s.idChanged = true
  beacons : ∀ t ∈ r.2, t.kind = .beacon ∧ t.id = s.id

/-- The calls that do not question the id of a station with address `m` that
holds `x`. -/
def Call.Quiet (m : Mac) (x : UInt8) : Call → Prop
  | .begin .. => False
  | .onProbe .. => False
  | .onBeacon src id _ => src = m ∨ id ≠ x
  | .tick _ | .onHitReport .. | .consumeIdChanged => True

variable {s : IrIdNegotiator}

theorem emit_beacon {id : UInt8} {dst : Option Mac} {t : Tx} (ht : t ∈ s.emit .beacon id dst) :
    t.kind = .beacon ∧ t.id = id := by
  unfold emit at ht
  split at ht
  · obtain rfl := List.mem_singleton.1 ht
    exact ⟨rfl, rfl⟩
  · exact absurd ht List.not_mem_nil

theorem keeps_refl (hs : s.state = .held) : s.Keeps (s, []) :=
  ⟨hs, rfl, rfl, fun h => h, fun _ ht => absurd ht List.not_mem_nil⟩

theorem keeps_note (hs : s.state = .held) (id : UInt8) (t : UInt32) :
    s.Keeps (s.note id t, []) :=
  ⟨by simpa using hs, by simp, by simp, by simp, fun _ ht => absurd ht List.not_mem_nil⟩

theorem keeps_sendBeacon (hs : s.state = .held) (dst : Option Mac) (t : UInt32) :
    s.Keeps (s.sendBeacon dst t) :=
  ⟨hs, rfl, rfl, fun h => h, fun _ ht => emit_beacon ht⟩

/-- A station that holds is not moved by a quiet call, whatever else the object
contains. -/
theorem keeps_of_quiet {c : Call} (hs : s.state = .held) (hc : c.Quiet s.mac s.id) :
    s.Keeps (s.exec c) := by
  cases c with
  | begin m p t b => exact absurd hc fun h => h
  | onProbe src id t => exact absurd hc fun h => h
  | consumeIdChanged =>
    exact ⟨hs, rfl, rfl, fun h => absurd h Bool.false_ne_true,
      fun _ ht => absurd ht List.not_mem_nil⟩
  | tick t =>
    simp only [exec, tick, hs]
    split
    · exact keeps_sendBeacon hs none t
    · exact keeps_refl hs
  | onHitReport id t =>
    simp only [exec, onHitReport]
    split
    · exact keeps_refl hs
    · -- not probing, so the report is only noted
      rw [if_neg (by simp [hs])]
      exact keeps_note hs id t
  | onBeacon src id t =>
    simp only [exec, onBeacon]
    split
    · exact keeps_refl hs
    · rename_i hskip
      have hsrc : src ≠ s.mac := fun h => hskip (.inr (macCmp_eq_iff.2 h))
      have hid : id ≠ s.id := hc.resolve_left hsrc
      -- a foreign id is noted, and neither branch for the own id is entered
      rw [if_pos hid, if_neg (by simp [hs]), if_neg (by simp [hid])]
      exact keeps_note hs id t

end IrIdNegotiator

/-! ### The network -/

/-- One event of a group in which nobody boots. -/
inductive NetAct (n : ℕ)
  | tick (i : Fin n) (nowMs : UInt32)
  | hit (i : Fin n) (shooterId : UInt8) (nowMs : UInt32)
  | consume (i : Fin n)
  /-- deliver the envelope at position `k` -/
  | deliver (k : ℕ) (nowMs : UInt32)
  | lose (k : ℕ)
  | duplicate (k : ℕ)
  deriving DecidableEq, Repr

namespace Bus

variable {n : ℕ} (mac : Fin n → Mac)

def netStep (b : Bus n) : NetAct n → Bus n
  | .tick i nowMs => b.call mac i (.tick nowMs)
  | .hit i shooterId nowMs => b.call mac i (.onHitReport shooterId nowMs)
  | .consume i => b.call mac i .consumeIdChanged
  | .deliver k nowMs => b.deliver mac k nowMs
  | .lose k => { b with flight := b.flight.eraseIdx k }
  | .duplicate k => { b with flight := b.flight ++ (b.flight[k]?).toList }

def netRun (b : Bus n) (acts : List (NetAct n)) : Bus n :=
  acts.foldl (fun b a => b.netStep mac a) b

/-- An envelope is the beacon of a station for the id it holds. -/
def OwnBeacon (b : Bus n) (e : Envelope n) : Prop :=
  e.kind = .beacon ∧ ∃ j s, b.st j = some s ∧ e.src = mac j ∧ e.id = s.id

/-- Everybody holds an id of its own and says so. -/
structure Converged (b : Bus n) : Prop where
  held : ∀ i s, b.st i = some s → s.state = .held ∧ s.id ≠ 0
  own : ∀ i s, b.st i = some s → s.mac = mac i
  distinct : ∀ i j s s', b.st i = some s → b.st j = some s' → s.id = s'.id → i = j
  flight : ∀ e ∈ b.flight, b.OwnBeacon mac e

/-- From `b` to `b'` no station stopped holding its id or reported a new change,
and only beacons were sent. -/
structure Steady (b b' : Bus n) : Prop where
  st : ∀ i s, b.st i = some s → ∃ s', b'.st i = some s' ∧ s'.state = .held ∧ s'.id = s.id ∧
    (s'.consumeIdChanged.1 = true → s.consumeIdChanged.1 = true)
  sent : ∃ new, b'.log = b.log ++ new ∧ ∀ x ∈ new, x.2.kind = .beacon

variable {mac} {b b' b'' : Bus n}

theorem Converged.steady_refl (h : b.Converged mac) : b.Steady b :=
  ⟨fun i s hs => ⟨s, hs, (h.held i s hs).1, rfl, fun hc => hc⟩,
    [], (List.append_nil _).symm, fun _ hx => absurd hx List.not_mem_nil⟩

theorem Steady.trans (h : b.Steady b') (h' : b'.Steady b'') : b.Steady b'' := by
  refine ⟨fun i s hs => ?_, ?_⟩
  · obtain ⟨s', hs', -, hid', hch'⟩ := h.st i s hs
    obtain ⟨s'', hs'', hheld, hid'', hch''⟩ := h'.st i s' hs'
    exact ⟨s'', hs'', hheld, hid''.trans hid', fun hc => hch' (hch'' hc)⟩
  · obtain ⟨new, hlog, hnew⟩ := h.sent
    obtain ⟨new', hlog', hnew'⟩ := h'.sent
    refine ⟨new ++ new', by rw [hlog', hlog, List.append_assoc], fun x hx => ?_⟩
    rcases List.mem_append.1 hx with hx | hx
    · exact hnew x hx
    · exact hnew' x hx

/-! ### One step -/

/-- The messages on their way do not matter to the stations. -/
theorem Converged.withFlight (h : b.Converged mac) {fl : List (Envelope n)}
    (hfl : ∀ e ∈ fl, e ∈ b.flight) : ({ b with flight := fl } : Bus n).Converged mac :=
  ⟨h.held, h.own, h.distinct, fun e he => h.flight e (hfl e he)⟩

theorem Converged.steady_withFlight (h : b.Converged mac) (fl : List (Envelope n)) :
    b.Steady { b with flight := fl } :=
  ⟨h.steady_refl.st, h.steady_refl.sent⟩

/-- A quiet call on one station. -/
theorem Converged.call (h : b.Converged mac) {i : Fin n} {c : IrIdNegotiator.Call}
    (hc : ∀ s, b.st i = some s → c.Quiet s.mac s.id) :
    (b.call mac i c).Converged mac ∧ b.Steady (b.call mac i c) := by
  cases hi : b.st i with
  | none =>
    rw [call_of_none hi]
    exact ⟨h, h.steady_refl⟩
  | some s =>
    have hk := IrIdNegotiator.keeps_of_quiet (h.held i s hi).1 (hc s hi)
    -- every station after the call is a station before it, with the same id
    have hsame : ∀ j s', (b.call mac i c).st j = some s' → ∃ s₀, b.st j = some s₀ ∧
        s'.state = .held ∧ s'.id = s₀.id ∧ s'.mac = s₀.mac := by
      intro j s' hj
      by_cases hji : j = i
      · subst hji
        rw [call_st_self hi] at hj
        obtain rfl := Option.some.inj hj
        exact ⟨s, hi, hk.held, hk.id, hk.mac⟩
      · rw [call_st_of_ne hji] at hj
        exact ⟨s', hj, (h.held j s' hj).1, rfl, rfl⟩
    have hafter : ∀ j s₀, b.st j = some s₀ → ∃ s', (b.call mac i c).st j = some s' ∧
        s'.state = .held ∧ s'.id = s₀.id ∧
        (s'.consumeIdChanged.1 = true → s₀.consumeIdChanged.1 = true) := by
      intro j s₀ hj
      by_cases hji : j = i
      · subst hji
        obtain rfl : s = s₀ := Option.some.inj (hi.symm.trans hj)
        exact ⟨_, call_st_self hi, hk.held, hk.id, hk.unchanged⟩
      · exact ⟨s₀, (call_st_of_ne hji).trans hj, (h.held j s₀ hj).1, rfl, fun hc => hc⟩
    refine ⟨⟨fun j s' hj => ?_, fun j s' hj => ?_, fun j j' s' s'' hj hj' hid => ?_,
      fun e he => ?_⟩, hafter, ?_⟩
    · obtain ⟨s₀, hs₀, hheld, hid, -⟩ := hsame j s' hj
      exact ⟨hheld, hid ▸ (h.held j s₀ hs₀).2⟩
    · obtain ⟨s₀, hs₀, -, -, hmac⟩ := hsame j s' hj
      exact hmac.trans (h.own j s₀ hs₀)
    · obtain ⟨s₀, hs₀, -, hid₀, -⟩ := hsame j s' hj
      obtain ⟨s₁, hs₁, -, hid₁, -⟩ := hsame j' s'' hj'
      exact h.distinct j j' s₀ s₁ hs₀ hs₁ (hid₀.symm.trans (hid.trans hid₁))
    · rcases mem_call he with he | ⟨s₀, t, hs₀, ht, -, hsrc, hkind, hid⟩
      · obtain ⟨hkind, j, s₀, hs₀, hsrc, hid⟩ := h.flight e he
        obtain ⟨s', hs', -, hid', -⟩ := hafter j s₀ hs₀
        exact ⟨hkind, j, s', hs', hsrc, hid.trans hid'.symm⟩
      · -- a new beacon carries the id its sender goes on holding
        obtain rfl : s = s₀ := Option.some.inj (hi.symm.trans hs₀)
        obtain ⟨hbeacon, hown⟩ := hk.beacons t ht
        exact ⟨hkind.trans hbeacon, i, _, call_st_self hi, hsrc,
          hid.trans (hown.trans hk.id.symm)⟩
    · refine ⟨(s.exec c).2.map fun t => (i, t), by rw [call_of_some hi], fun x hx => ?_⟩
      obtain ⟨t, ht, rfl⟩ := List.mem_map.1 hx
      exact (hk.beacons t ht).1

/-- What a converged group has in flight questions nobody: a station hears its
own address or another id. -/
theorem Converged.quiet (h : b.Converged mac) {e : Envelope n} (he : e ∈ b.flight) (t : UInt32)
    {i : Fin n} {s : IrIdNegotiator} (hs : b.st i = some s) :
    (e.call t).Quiet s.mac s.id := by
  obtain ⟨hkind, j, s', hs', hsrc, hid⟩ := h.flight e he
  simp only [Envelope.call, hkind, IrIdNegotiator.Call.Quiet]
  by_cases hij : j = i
  · left
    rw [hsrc, hij, h.own i s hs]
  · right
    intro heq
    exact hij (h.distinct j i s' s hs' hs (hid.symm.trans heq))

theorem Converged.netStep (h : b.Converged mac) (a : NetAct n) :
    (b.netStep mac a).Converged mac ∧ b.Steady (b.netStep mac a) := by
  cases a with
  | tick i t => exact h.call fun _ _ => trivial
  | hit i x t => exact h.call fun _ _ => trivial
  | consume i => exact h.call fun _ _ => trivial
  | deliver k t =>
    simp only [Bus.netStep, Bus.deliver]
    split
    · exact ⟨h, h.steady_refl⟩
    · rename_i e he
      have hout : ({ b with flight := b.flight.eraseIdx k } : Bus n).Converged mac :=
        h.withFlight fun e he => mem_of_mem_eraseIdx he
      obtain ⟨hconv, hsteady⟩ := hout.call (i := e.dst) (c := e.call t) fun s hs =>
        h.quiet (List.mem_of_getElem? he) t hs
      exact ⟨hconv, (h.steady_withFlight _).trans hsteady⟩
  | lose k =>
    exact ⟨h.withFlight fun e he => mem_of_mem_eraseIdx he, h.steady_withFlight _⟩
  | duplicate k =>
    refine ⟨h.withFlight fun e he => ?_, h.steady_withFlight _⟩
    rcases List.mem_append.1 he with he | he
    · exact he
    · exact List.mem_of_getElem? (Option.mem_toList.1 he)

/-! ### Whole runs -/

theorem Converged.netRun (h : b.Converged mac) (acts : List (NetAct n)) :
    (b.netRun mac acts).Converged mac ∧ b.Steady (b.netRun mac acts) :=
  foldl_chain (R := Steady) (fun h => h.steady_refl) Steady.trans (fun h a => h.netStep a) h acts

/-- **A converged group stays converged**: whatever the clocks, the network and
the hit reports do, between any two moments of a run every station keeps
holding its id and reports no new change, only beacons are sent, and the group
is converged again. -/
theorem stays_converged (h : b.Converged mac) (acts rest : List (NetAct n)) :
    (b.netRun mac (acts ++ rest)).Converged mac ∧
      b.Steady (b.netRun mac (acts ++ rest)) ∧
      (b.netRun mac acts).Steady (b.netRun mac (acts ++ rest)) := by
  have hmid := h.netRun acts
  have hend := hmid.1.netRun rest
  have hrun : b.netRun mac (acts ++ rest) = (b.netRun mac acts).netRun mac rest :=
    List.foldl_append
  rw [hrun]
  exact ⟨hend.1, hmid.2.trans hend.2, hend.2⟩

/-- Two stations with neighbouring ids, each beacon once on its way. -/
def pair : Bus 2 where
  st i := some { send := true, mac := ⟨#v[0, 0, 0, 0, 0, i.val.toUInt8]⟩, state := .held,
                 id := i.val.toUInt8 + 4 }
  flight := [⟨1, ⟨#v[0, 0, 0, 0, 0, 0]⟩, .beacon, 4⟩, ⟨0, ⟨#v[0, 0, 0, 0, 0, 1]⟩, .beacon, 5⟩]

def pairMac (i : Fin 2) : Mac := ⟨#v[0, 0, 0, 0, 0, i.val.toUInt8]⟩

theorem stays_converged_pair :
    (pair.netRun pairMac ([.duplicate 0, .deliver 2 10] ++ [.hit 0 5 20, .tick 1 9000])).Converged
        pairMac ∧
      pair.Steady (pair.netRun pairMac
        ([.duplicate 0, .deliver 2 10] ++ [.hit 0 5 20, .tick 1 9000])) ∧
      (pair.netRun pairMac [.duplicate 0, .deliver 2 10]).Steady (pair.netRun pairMac
        ([.duplicate 0, .deliver 2 10] ++ [.hit 0 5 20, .tick 1 9000])) := by
  refine stays_converged ⟨?_, ?_, ?_, ?_⟩ [.duplicate 0, .deliver 2 10] [.hit 0 5 20, .tick 1 9000]
  · intro i s hs
    obtain rfl := Option.some.inj hs
    fin_cases i <;> decide
  · intro i s hs
    obtain rfl := Option.some.inj hs
    rfl
  · intro i j s s' hs hs' hid
    obtain rfl := Option.some.inj hs
    obtain rfl := Option.some.inj hs'
    fin_cases i <;> fin_cases j <;> first | rfl | exact absurd hid (by decide)
  · intro e he
    simp only [pair, List.mem_cons, List.not_mem_nil, or_false] at he
    rcases he with rfl | rfl
    · exact ⟨rfl, 0, _, rfl, rfl, rfl⟩
    · exact ⟨rfl, 1, _, rfl, rfl, rfl⟩

end Bus

end InfinitagNow
