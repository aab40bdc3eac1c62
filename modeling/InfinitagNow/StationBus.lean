/-
InfinitagNow/StationBus.lean

Stations on a radio bus: any number of negotiators and the probes and beacons
in flight between them.

The send callback only queues.  A broadcast becomes one envelope for every
other booted station, a unicast one for its addressee, and every envelope is
delivered on its own, so deliveries interleave freely.  `Act` is one event of
the whole system (a boot or reboot, a tick, a hit report, one delivery);
`Bus.run` runs a schedule of them.

The second part lists what one call does to who holds and who probes which id;
these are the facts the conflict, displacement and draining results share.
-/
import InfinitagNow.IrIdNegotiator
import InfinitagNow.InFlight

namespace InfinitagNow

/-! ### The system -/

/-- A probe or beacon on its way to one station. -/
structure Envelope (n : ℕ) where
  dst : Fin n
  src : Mac
  kind : TxKind
  id : UInt8
  deriving DecidableEq, Repr

/-- The radio input an envelope causes. -/
def Envelope.call {n : ℕ} (e : Envelope n) (nowMs : UInt32) : IrIdNegotiator.Call :=
  match e.kind with
  | .probe => .onProbe e.src e.id nowMs
  | .beacon => .onBeacon e.src e.id nowMs

structure Bus (n : ℕ) where
  /-- `none`: not booted yet -/
  st : Fin n → Option IrIdNegotiator
  flight : List (Envelope n)
  /-- every transmission so far -/
  log : List (Fin n × Tx) := []

/-- One event of the system; the clock value is the affected station's. -/
inductive Act (n : ℕ)
  | boot (i : Fin n) (preferredId : UInt8) (nowMs : UInt32)
  | tick (i : Fin n) (nowMs : UInt32)
  | hit (i : Fin n) (shooterId : UInt8) (nowMs : UInt32)
  /-- deliver the envelope at position `k` -/
  | deliver (k : ℕ) (nowMs : UInt32)
  deriving DecidableEq, Repr

namespace Bus

variable {n : ℕ} (mac : Fin n → Mac)

/-- Who receives a transmission of station `i`. -/
def receivers (b : Bus n) (i : Fin n) (dst : Option Mac) : List (Fin n) :=
  (List.finRange n).filter fun j =>
    j ≠ i && (b.st j).isSome && (match dst with | none => true | some m => mac j == m)

def fanOut (b : Bus n) (i : Fin n) (txs : List Tx) : List (Envelope n) :=
  txs.flatMap fun t => (b.receivers mac i t.dst).map fun j => ⟨j, mac i, t.kind, t.id⟩

/-- One call on station `i`; what it transmits is put in flight. -/
def call (b : Bus n) (i : Fin n) (c : IrIdNegotiator.Call) : Bus n :=
  match b.st i with
  | none => b
  | some s =>
    { st := Function.update b.st i (some (s.exec c).1)
      flight := b.flight ++ b.fanOut mac i (s.exec c).2
      log := b.log ++ (s.exec c).2.map fun t => (i, t) }

/-- Boot or reboot: `begin` with a callback that queues. -/
def boot (b : Bus n) (i : Fin n) (preferredId : UInt8) (nowMs : UInt32) : Bus n :=
  let s := ((b.st i).getD {}).begin (mac i) preferredId nowMs true
  { b with st := Function.update b.st i (some s) }

def deliver (b : Bus n) (k : ℕ) (nowMs : UInt32) : Bus n :=
  match b.flight[k]? with
  | none => b
  | some e => { b with flight := b.flight.eraseIdx k }.call mac e.dst (e.call nowMs)

def step (b : Bus n) : Act n → Bus n
  | .boot i preferredId nowMs => b.boot mac i preferredId nowMs
  | .tick i nowMs => b.call mac i (.tick nowMs)
  | .hit i shooterId nowMs => b.call mac i (.onHitReport shooterId nowMs)
  | .deliver k nowMs => b.deliver mac k nowMs

def run (b : Bus n) (acts : List (Act n)) : Bus n := acts.foldl (fun b a => b.step mac a) b

/-- `irId()` of a station; a station that is not booted has none. -/
def irId (b : Bus n) (i : Fin n) : UInt8 := ((b.st i).map (·.id)).getD 0

@[simp] theorem run_nil (b : Bus n) : b.run mac [] = b := rfl

theorem run_append (b : Bus n) (as as' : List (Act n)) :
    b.run mac (as ++ as') = (b.run mac as).run mac as' := List.foldl_append

theorem run_concat (b : Bus n) (as : List (Act n)) (a : Act n) :
    b.run mac (as ++ [a]) = (b.run mac as).step mac a := by
  rw [run_append]
  rfl

/-! ### The parts of a configuration after a call -/

section Call

variable {mac} {b : Bus n} {i j : Fin n} {s : IrIdNegotiator} {c : IrIdNegotiator.Call}

theorem call_of_some (hi : b.st i = some s) :
    b.call mac i c =
      { st := Function.update b.st i (some (s.exec c).1)
        flight := b.flight ++ b.fanOut mac i (s.exec c).2
        log := b.log ++ (s.exec c).2.map fun t => (i, t) } := by
  simp [call, hi]

theorem call_of_none (hi : b.st i = none) : b.call mac i c = b := by
  simp [call, hi]

theorem call_st_self (hi : b.st i = some s) : (b.call mac i c).st i = some (s.exec c).1 := by
  simp [call_of_some hi]

theorem call_st_of_ne (hj : j ≠ i) : (b.call mac i c).st j = b.st j := by
  cases hi : b.st i with
  | none => rw [call_of_none hi]
  | some s => simp [call_of_some hi, Function.update_of_ne hj]

theorem mem_call_of_mem {e : Envelope n} (he : e ∈ b.flight) :
    e ∈ (b.call mac i c).flight := by
  cases hi : b.st i with
  | none => rwa [call_of_none hi]
  | some s => simp [call_of_some hi, he]

/-- A transmission reaches every other booted station it is meant for. -/
theorem mem_call_of_tx (hi : b.st i = some s) {t : Tx} (ht : t ∈ (s.exec c).2) (hj : j ≠ i)
    (hboot : (b.st j).isSome = true) (hdst : ∀ m, t.dst = some m → mac j = m) :
    (⟨j, mac i, t.kind, t.id⟩ : Envelope n) ∈ (b.call mac i c).flight := by
  have hrec : j ∈ b.receivers mac i t.dst := by
    refine List.mem_filter.2 ⟨List.mem_finRange j, ?_⟩
    cases hd : t.dst with
    | none => simp [hj, hboot]
    | some m => simp [hj, hboot, hdst m hd]
  rw [call_of_some hi]
  exact List.mem_append_right _ (List.mem_flatMap.2 ⟨t, ht, List.mem_map.2 ⟨j, hrec, rfl⟩⟩)

/-- What is in flight after a call was in flight before or was transmitted by
it. -/
theorem mem_call {e : Envelope n} (he : e ∈ (b.call mac i c).flight) :
    e ∈ b.flight ∨ ∃ s t, b.st i = some s ∧ t ∈ (s.exec c).2 ∧ e.dst ≠ i ∧ e.src = mac i ∧
      e.kind = t.kind ∧ e.id = t.id := by
  cases hi : b.st i with
  | none =>
    rw [call_of_none hi] at he
    exact .inl he
  | some s =>
    rw [call_of_some hi] at he
    rcases List.mem_append.1 he with he | he
    · exact .inl he
    · obtain ⟨t, ht, he⟩ := List.mem_flatMap.1 he
      obtain ⟨j, hj, rfl⟩ := List.mem_map.1 he
      have hne : j ≠ i := by
        have := (List.mem_filter.1 hj).2
        simp at this
        exact this.1.1
      exact .inr ⟨s, t, rfl, ht, hne, rfl, rfl, rfl⟩

end Call

/-! ### Well-formed systems -/

/-- Every booted station satisfies the class invariant, carries its own address
and has a callback. -/
def Ok (b : Bus n) : Prop :=
  ∀ i s, b.st i = some s → s.Wf ∧ s.mac = mac i ∧ s.send = true

end Bus

namespace IrIdNegotiator

variable {s : IrIdNegotiator} {c : Call}

theorem startProbe_mac (s : IrIdNegotiator) (t : UInt32) : (s.startProbe t).1.mac = s.mac := by
  unfold startProbe
  dsimp only
  split <;> rfl

theorem startProbe_send (s : IrIdNegotiator) (t : UInt32) : (s.startProbe t).1.send = s.send := by
  unfold startProbe
  dsimp only
  split <;> rfl

/-- Only `begin` changes the address and the callback. -/
theorem exec_mac_send (h : s.Wf) (hc : ∀ m p t b, c ≠ .begin m p t b) :
    (s.exec c).1.mac = s.mac ∧ (s.exec c).1.send = s.send := by
  have hrule := exec_rule h c
  generalize s.exec c = r at hrule
  cases hrule with
  | begin m p t b => exact absurd rfl (hc m p t b)
  | acquire t hs => rw [becomeHeld_eq h hs]; exact ⟨rfl, rfl⟩
  | listenEnd t => exact ⟨startProbe_mac _ t, startProbe_send _ t⟩
  | abort c t => simp [startProbe_mac, startProbe_send]
  | yield src t => simp [startProbe_mac, startProbe_send]
  | evidence => simp
  | _ => exact ⟨rfl, rfl⟩

/-! ### One call, seen from outside

A station that holds an id after a call either just broadcast a beacon for it,
or held it before and was not asked about it.  A station that probes an id
after a call either just broadcast a probe for it, or probed it before and
nothing spoke against it. -/

theorem startProbe_not_held (hp : s.PreferredOk) (t : UInt32) :
    (s.startProbe t).1.state ≠ .held := by
  rcases startProbe_cases hp t with ⟨heq, -⟩ | ⟨x, -, -, heq⟩ <;> rw [heq] <;> simp

theorem startProbe_probing (hp : s.PreferredOk) (hsend : s.send = true) {t : UInt32}
    (hs : (s.startProbe t).1.state = .probe) :
    ⟨.probe, (s.startProbe t).1.candidate, none⟩ ∈ (s.startProbe t).2 ∧
      s.isOccupied (s.startProbe t).1.candidate t = false := by
  rcases startProbe_cases hp t with ⟨heq, -⟩ | ⟨x, -, hfree, heq⟩
  · rw [heq] at hs
    simp at hs
  · rw [heq]
    exact ⟨by simp [emit, hsend], hfree⟩

theorem held_after (h : s.Wf) (hsend : s.send = true) (hc : ∀ m p t b, c ≠ .begin m p t b)
    (hs : (s.exec c).1.state = .held) :
    ⟨.beacon, (s.exec c).1.id, none⟩ ∈ (s.exec c).2 ∨
      (s.exec c).2 = [] ∧ s.state = .held ∧ s.id = (s.exec c).1.id ∧
        ∀ src t, src ≠ s.mac → c ≠ .onProbe src s.id t ∧ c ≠ .onBeacon src s.id t := by
  have hrule := exec_rule h c
  have hpref := h.preferredOk
  generalize s.exec c = r at hrule hs
  cases hrule with
  | begin m p t b => exact absurd rfl (hc m p t b)
  | consume => exact .inr ⟨rfl, hs, rfl, by simp⟩
  | ignore c hb hopp hheld => exact .inr ⟨rfl, hs, rfl, fun src t hsrc => hheld src t hs hsrc⟩
  | listenEnd t => exact absurd hs (startProbe_not_held hpref t)
  | reprobe t hst => simp [sendProbe, hst] at hs
  | acquire t hst =>
    rw [becomeHeld_eq h hst]
    exact .inl (by simp [emit, hsend])
  | rebeacon t => exact .inl (by simp [sendBeacon, emit, hsend])
  | evidence c id t hev hid hne =>
    refine .inr ⟨rfl, by simpa using hs, by simp, fun src t' hsrc => ⟨?_, ?_⟩⟩
    · rintro rfl
      simp [Call.evidence, hsrc] at hev
      exact hne hev.1.symm
    · rintro rfl
      simp [Call.evidence, hsrc] at hev
      exact hne hev.1.symm
  | abort c t hev hst =>
    exact absurd hs (startProbe_not_held (by simpa [PreferredOk] using hpref) t)
  | defend src t => exact .inl (by simp [emit, hsend])
  | yield src t => exact absurd hs (startProbe_not_held (by simpa [PreferredOk] using hpref) t)
  | counter src t => exact .inl (by simp [sendBeacon, emit, hsend])

theorem probing_after (h : s.Wf) (hsend : s.send = true) (hc : ∀ m p t b, c ≠ .begin m p t b)
    (hs : (s.exec c).1.state = .probe) :
    ⟨.probe, (s.exec c).1.candidate, none⟩ ∈ (s.exec c).2 ∨
      s.state = .probe ∧ s.candidate = (s.exec c).1.candidate ∧
        ¬ c.opposes s.mac s.candidate := by
  have hrule := exec_rule h c
  have hpref := h.preferredOk
  generalize s.exec c = r at hrule hs
  cases hrule with
  | begin m p t b => exact absurd rfl (hc m p t b)
  | consume => exact .inr ⟨hs, rfl, by simp [Call.opposes]⟩
  | ignore c hb hopp => exact .inr ⟨hs, rfl, hopp hs⟩
  | listenEnd t => exact .inl (startProbe_probing hpref hsend hs).1
  | reprobe t hst => exact .inl (by simp [sendProbe, emit, hsend])
  | acquire t hst => simp [becomeHeld_eq h hst] at hs
  | rebeacon t hst => simp [sendBeacon, hst] at hs
  | evidence c id t hev hid hne hopp =>
    exact .inr ⟨by simpa using hs, by simp, hopp (by simpa using hs)⟩
  | abort c t hev hst =>
    exact .inl (startProbe_probing (by simpa [PreferredOk] using hpref) (by simpa using hsend) hs).1
  | defend src t hst => simp [hst] at hs
  | yield src t =>
    exact .inl (startProbe_probing (by simpa [PreferredOk] using hpref) (by simpa using hsend) hs).1
  | counter src t hst => simp [sendBeacon, hst] at hs

/-- Every beacon carries the id held after the call. -/
theorem beacon_tx (h : s.Wf) {t : Tx} (ht : t ∈ (s.exec c).2) (hk : t.kind = .beacon) :
    (s.exec c).1.state = .held ∧ t.id = (s.exec c).1.id := by
  have hrule := exec_rule h c
  have hpref := h.preferredOk
  generalize s.exec c = r at hrule ht
  -- starting to probe sends no beacon
  have hstart : ∀ {s : IrIdNegotiator} {u : UInt32}, s.PreferredOk → t ∉ (s.startProbe u).2 := by
    intro s u hp hmem
    rcases startProbe_cases hp u with ⟨heq, -⟩ | ⟨x, -, -, heq⟩
    · simp [heq] at hmem
    · simp only [heq, emit] at hmem
      split at hmem
      · simp at hmem
        simp [hmem] at hk
      · simp at hmem
  cases hrule with
  | acquire u hst =>
    rw [becomeHeld_eq h hst] at ht ⊢
    simp only [emit] at ht
    split at ht <;> simp at ht
    simp [ht]
  | rebeacon u hst | counter src u hst =>
    simp only [sendBeacon, emit] at ht ⊢
    split at ht <;> simp at ht
    simp [ht, hst]
  | defend src u hst =>
    simp only [emit] at ht
    split at ht <;> simp at ht
    rcases ht with rfl | rfl <;> exact ⟨hst, rfl⟩
  | reprobe u hst =>
    simp only [sendProbe, emit] at ht
    split at ht <;> simp at ht
    simp [ht] at hk
  | listenEnd u => exact absurd ht (hstart hpref)
  | abort c u => exact absurd ht (hstart (by simpa [PreferredOk] using hpref))
  | yield src u => exact absurd ht (hstart (by simpa [PreferredOk] using hpref))
  | _ => simp at ht

end IrIdNegotiator

namespace Bus

variable {n : ℕ} {mac : Fin n → Mac}

theorem Ok.call {b : Bus n} (h : b.Ok mac) (i : Fin n) {c : IrIdNegotiator.Call}
    (hc : ∀ m p t x, c ≠ .begin m p t x) : (b.call mac i c).Ok mac := by
  intro j s hj
  by_cases hji : j = i
  · subst hji
    cases hb : b.st j with
    | none =>
      rw [call_of_none hb] at hj
      exact h j s hj
    | some s₀ =>
      obtain ⟨hwf, hmac, hsend⟩ := h j s₀ hb
      rw [call_st_self hb] at hj
      obtain rfl := Option.some.inj hj
      obtain ⟨h1, h2⟩ := IrIdNegotiator.exec_mac_send hwf hc
      exact ⟨hwf.exec c, h1.trans hmac, h2.trans hsend⟩
  · rw [call_st_of_ne hji] at hj
    exact h j s hj

theorem Ok.boot {b : Bus n} (h : b.Ok mac) (i : Fin n) (p : UInt8) (t : UInt32) :
    (b.boot mac i p t).Ok mac := by
  intro j s hj
  by_cases hji : j = i
  · subst hji
    simp only [Bus.boot, Function.update_self, Option.some.injEq] at hj
    subst hj
    exact ⟨IrIdNegotiator.wf_begin _ _ _ _ _, rfl, rfl⟩
  · simp only [Bus.boot, Function.update_of_ne hji] at hj
    exact h j s hj

theorem Ok.takeOut {b : Bus n} (h : b.Ok mac) (k : ℕ) :
    ({ b with flight := b.flight.eraseIdx k } : Bus n).Ok mac := h

theorem call_ne_begin (e : Envelope n) (t : UInt32) : ∀ m p u x, e.call t ≠ .begin m p u x := by
  intro m p u x
  unfold Envelope.call
  split <;> simp

theorem Ok.step {b : Bus n} (h : b.Ok mac) (a : Act n) : (b.step mac a).Ok mac := by
  cases a with
  | boot i p t => exact h.boot i p t
  | tick i t => exact h.call i (by simp)
  | hit i x t => exact h.call i (by simp)
  | deliver k t =>
    simp only [Bus.step, Bus.deliver]
    split
    · exact h
    · exact (h.takeOut k).call _ (call_ne_begin _ _)

theorem Ok.run {b : Bus n} (h : b.Ok mac) (as : List (Act n)) : (b.run mac as).Ok mac :=
  List.foldlRecOn as _ h fun _ hb a _ => hb.step a

/-! ### Who holds, who probes, what is on its way -/

/-- Station `i` holds id `x`. -/
def Holds (b : Bus n) (i : Fin n) (x : UInt8) : Prop :=
  ∃ s, b.st i = some s ∧ s.state = .held ∧ s.id = x

/-- Station `i` probes id `x`. -/
def Probes (b : Bus n) (i : Fin n) (x : UInt8) : Prop :=
  ∃ s, b.st i = some s ∧ s.state = .probe ∧ s.candidate = x

variable (mac) in
/-- A beacon of `i` for `x` is on its way to `j`. -/
def BeaconTo (b : Bus n) (i j : Fin n) (x : UInt8) : Prop :=
  (⟨j, mac i, .beacon, x⟩ : Envelope n) ∈ b.flight

variable (mac) in
/-- A probe of `i` for `x` is on its way to `j`. -/
def ProbeTo (b : Bus n) (i j : Fin n) (x : UInt8) : Prop :=
  (⟨j, mac i, .probe, x⟩ : Envelope n) ∈ b.flight

theorem holds_of_irId {b : Bus n} (hok : b.Ok mac) {i : Fin n} (h : b.irId i ≠ 0) :
    b.Holds i (b.irId i) := by
  unfold irId at h ⊢
  cases hs : b.st i with
  | none => simp [hs] at h
  | some s =>
    simp only [hs, Option.map_some, Option.getD_some] at h ⊢
    exact ⟨s, hs, (hok i s hs).1.held_iff.2 h, rfl⟩

/-- A rebooted station holds nothing, the others are untouched. -/
theorem holds_boot {b : Bus n} {k i : Fin n} {p : UInt8} {t : UInt32} {x : UInt8}
    (h : (b.boot mac k p t).Holds i x) : i ≠ k ∧ b.Holds i x := by
  obtain ⟨s, hs, hheld, hid⟩ := h
  by_cases hik : i = k
  · subst hik
    simp only [Bus.boot, Function.update_self, Option.some.injEq] at hs
    subst hs
    simp [IrIdNegotiator.begin] at hheld
  · simp only [Bus.boot, Function.update_of_ne hik] at hs
    exact ⟨hik, s, hs, hheld, hid⟩

theorem probes_boot {b : Bus n} {k i : Fin n} {p : UInt8} {t : UInt32} {x : UInt8}
    (h : (b.boot mac k p t).Probes i x) : i ≠ k ∧ b.Probes i x := by
  obtain ⟨s, hs, hprobe, hid⟩ := h
  by_cases hik : i = k
  · subst hik
    simp only [Bus.boot, Function.update_self, Option.some.injEq] at hs
    subst hs
    simp [IrIdNegotiator.begin] at hprobe
  · simp only [Bus.boot, Function.update_of_ne hik] at hs
    exact ⟨hik, s, hs, hprobe, hid⟩

/-- The envelopes of `b` are still in flight in `b₁`, or were handed to station
`k` as the call `c`. -/
def Handed (b b₁ : Bus n) (k : Fin n) (c : IrIdNegotiator.Call) : Prop :=
  ∀ e ∈ b.flight, e ∈ b₁.flight ∨ e.dst = k ∧ ∃ t, c = e.call t

theorem handed_refl (b : Bus n) (k : Fin n) (c : IrIdNegotiator.Call) : Handed b b k c :=
  fun _ he => .inl he

theorem handed_takeOut {b : Bus n} {k : ℕ} {e : Envelope n} (he : b.flight[k]? = some e)
    (t : UInt32) : Handed b { b with flight := b.flight.eraseIdx k } e.dst (e.call t) := by
  intro e' he'
  rcases mem_or_of_getElem? he he' with rfl | hmem
  · exact .inr ⟨rfl, t, rfl⟩
  · exact .inl hmem

theorem step_deliver {b : Bus n} {k : ℕ} {e : Envelope n} (he : b.flight[k]? = some e)
    {t : UInt32} : b.step mac (.deliver k t) =
      ({ b with flight := b.flight.eraseIdx k } : Bus n).call mac e.dst (e.call t) := by
  simp [Bus.step, Bus.deliver, he]

theorem step_deliver_none {b : Bus n} {k : ℕ} (he : b.flight[k]? = none) {t : UInt32} :
    b.step mac (.deliver k t) = b := by
  simp [Bus.step, Bus.deliver, he]

end Bus

end InfinitagNow
