/-
InfinitagNow/NegotiatorClock.lean

A negotiator does not care where its millisecond clock stands
(`src/IrIdNegotiator.cpp`): add a constant to every clock value it is given
and it does the same.

Two objects are run side by side, the second with its clock `k` ahead.
`Alike k` relates what both read in every state; it is kept by the helpers.
`Shifted k` adds the timestamp that the present state reads.  The timestamps
of the other states are not related: `begin` resets none of them, and each is
written before its state is entered.
-/
import InfinitagNow.NegotiatorTrace

namespace InfinitagNow

/-! ### Clock differences -/

theorem sub_shift (now since k : UInt32) : now + k - (since + k) = now - since := by
  grind

theorem add_shift (now ms k : UInt32) : now + k + ms = now + ms + k := by
  grind

theorem elapsed_shift (now since ms k : UInt32) :
    elapsed (now + k) (since + k) ms = elapsed now since ms := by
  rw [elapsed, elapsed, sub_shift]

namespace IrIdNegotiator

/-- The same call with its clock `k` ahead. -/
def Call.shift (k : UInt32) : Call → Call
  | .begin ownMac preferredId nowMs send => .begin ownMac preferredId (nowMs + k) send
  | .tick nowMs => .tick (nowMs + k)
  | .onProbe srcMac id nowMs => .onProbe srcMac id (nowMs + k)
  | .onBeacon srcMac id nowMs => .onBeacon srcMac id (nowMs + k)
  | .onHitReport shooterId nowMs => .onHitReport shooterId (nowMs + k)
  | .consumeIdChanged => .consumeIdChanged

/-! ### Two objects side by side -/

/-- What is read in every state. -/
structure Alike (k : UInt32) (s s' : IrIdNegotiator) : Prop where
  send : s'.send = s.send
  mac : s'.mac = s.mac
  preferred : s'.preferred = s.preferred
  state : s'.state = s.state
  id : s'.id = s.id
  candidate : s'.candidate = s.candidate
  idChanged : s'.idChanged = s.idChanged
  seen : s'.seen = s.seen
  seenMs : ∀ id, s.seen id = true → s'.seenMs id = s.seenMs id + k

/-- `Alike`, and the timestamp of the present state is `k` ahead. -/
structure Shifted (k : UInt32) (s s' : IrIdNegotiator) : Prop extends Alike k s s' where
  listenUntil : s.state = .listen → s'.listenUntil = s.listenUntil + k
  lastProbeMs : s.state = .probe → s'.lastProbeMs = s.lastProbeMs + k
  probesSent : s.state = .probe → s'.probesSent = s.probesSent
  lastBeaconMs : s.state = .held → s'.lastBeaconMs = s.lastBeaconMs + k

/-- The same for the result of a call, together with its transmissions. -/
def ShiftedTx (k : UInt32) (r r' : IrIdNegotiator × List Tx) : Prop :=
  Shifted k r.1 r'.1 ∧ r'.2 = r.2

variable {k : UInt32} {s s' : IrIdNegotiator}

theorem Shifted.tx (h : Shifted k s s') : ShiftedTx k (s, []) (s', []) := ⟨h, rfl⟩

/-! ### The helpers -/

theorem Alike.isOccupied (h : Alike k s s') (id : UInt8) (t : UInt32) :
    s'.isOccupied id (t + k) = s.isOccupied id t := by
  unfold IrIdNegotiator.isOccupied
  rw [h.seen]
  split
  · rfl
  · rename_i hseen
    have hid : s.seen id = true := by
      cases hc : s.seen id with
      | true => rfl
      | false => simp [hc] at hseen
    rw [h.seenMs id hid, elapsed_shift]

theorem Alike.emit (h : Alike k s s') (kind : TxKind) (id : UInt8) (dst : Option Mac) :
    s'.emit kind id dst = s.emit kind id dst := by
  rw [IrIdNegotiator.emit, IrIdNegotiator.emit, h.send]

theorem Alike.otherWins (h : Alike k s s') (m : Mac) : s'.otherWins m = s.otherWins m := by
  rw [IrIdNegotiator.otherWins, IrIdNegotiator.otherWins, h.mac]

theorem Alike.pickCandidate (h : Alike k s s') (t : UInt32) :
    s'.pickCandidate (t + k) = s.pickCandidate t := by
  simp only [IrIdNegotiator.pickCandidate, h.isOccupied, h.preferred, h.mac]

theorem Alike.startProbe (h : Alike k s s') (t : UInt32) :
    ShiftedTx k (s.startProbe t) (s'.startProbe (t + k)) := by
  unfold IrIdNegotiator.startProbe
  rw [h.pickCandidate t]
  dsimp only
  split
  · refine ⟨⟨{ h with state := rfl, candidate := rfl }, ?_, ?_, ?_, ?_⟩, rfl⟩
    · intro _
      exact add_shift t iridTRetryMs k
    · exact fun hs => nomatch hs
    · exact fun hs => nomatch hs
    · exact fun hs => nomatch hs
  · refine ⟨⟨{ h with state := rfl, candidate := rfl }, ?_, ?_, ?_, ?_⟩, h.emit _ _ _⟩
    · exact fun hs => nomatch hs
    · exact fun _ => rfl
    · exact fun _ => rfl
    · exact fun hs => nomatch hs

/-- Evidence touches no timestamp of a state. -/
theorem Shifted.note (h : Shifted k s s') (id : UInt8) (t : UInt32) :
    Shifted k (s.note id t) (s'.note id (t + k)) := by
  unfold IrIdNegotiator.note
  split
  · exact h
  · refine { h with seen := by rw [h.seen], seenMs := fun c hc => ?_ }
    by_cases hcid : c = id
    · subst hcid
      simp
    · simp only [Function.update_of_ne hcid] at hc ⊢
      exact h.seenMs c hc

theorem Alike.setId (h : Alike k s s') {id id' : UInt8} (hid : id' = id) :
    Alike k (s.setId id) (s'.setId id') := by
  subst hid
  unfold IrIdNegotiator.setId
  rw [h.id]
  split
  · exact h
  · exact { h with id := rfl, idChanged := rfl }

/-- An entry that is still set is not the one that was cleared. -/
theorem Alike.clearOwn (h : Alike k s s') :
    Alike k { s with candidate := 0, seen := Function.update s.seen s.id false }
      { s' with candidate := 0, seen := Function.update s'.seen s'.id false } := by
  refine { h with candidate := rfl, seen := ?_, seenMs := fun c hc => h.seenMs c ?_ }
  · dsimp only
    rw [h.seen, h.id]
  · by_cases hcid : c = s.id
    · subst hcid
      simp at hc
    · simpa [Function.update_of_ne hcid] using hc

/-- A station that holds an id and sends a beacon. -/
theorem Alike.sendBeacon (h : Alike k s s') (hs : s.state = .held) (dst : Option Mac)
    (t : UInt32) : ShiftedTx k (s.sendBeacon dst t) (s'.sendBeacon dst (t + k)) := by
  refine ⟨⟨{ h with }, ?_, ?_, ?_, fun _ => rfl⟩, ?_⟩
  · exact fun hl => absurd (hs.symm.trans hl) (by decide)
  · exact fun hp => absurd (hs.symm.trans hp) (by decide)
  · exact fun hp => absurd (hs.symm.trans hp) (by decide)
  · simp only [IrIdNegotiator.sendBeacon, h.id, h.emit]

/-- Two beacons in a row. -/
theorem Alike.twoBeacons (h : Alike k s s') (hs : s.state = .held) (dst : Option Mac)
    (t : UInt32) :
    ShiftedTx k
      (((s.sendBeacon dst t).1.sendBeacon none t).1,
        (s.sendBeacon dst t).2 ++ ((s.sendBeacon dst t).1.sendBeacon none t).2)
      (((s'.sendBeacon dst (t + k)).1.sendBeacon none (t + k)).1,
        (s'.sendBeacon dst (t + k)).2 ++
          ((s'.sendBeacon dst (t + k)).1.sendBeacon none (t + k)).2) := by
  obtain ⟨h₁, htx₁⟩ := h.sendBeacon hs dst t
  obtain ⟨h₂, htx₂⟩ := h₁.toAlike.sendBeacon (by simpa [IrIdNegotiator.sendBeacon] using hs) none t
  exact ⟨h₂, by rw [htx₁, htx₂]⟩

theorem Alike.becomeHeld (h : Alike k s s') (t : UInt32) :
    ShiftedTx k (s.becomeHeld t) (s'.becomeHeld (t + k)) := by
  have hheld : Alike k { s with state := .held } { s' with state := .held } :=
    { h with state := rfl }
  exact (hheld.setId h.candidate).clearOwn.twoBeacons (by simp) none t

/-! ### One call -/

theorem Shifted.tick (h : Shifted k s s') (t : UInt32) :
    ShiftedTx k (s.tick t) (s'.tick (t + k)) := by
  unfold IrIdNegotiator.tick
  rw [h.state]
  cases hs : s.state with
  | listen =>
    dsimp only
    rw [h.listenUntil hs, sub_shift]
    split
    · exact h.toAlike.startProbe t
    · exact h.tx
  | probe =>
    dsimp only
    rw [h.lastProbeMs hs, h.probesSent hs, elapsed_shift]
    split
    · split
      · refine ⟨⟨{ h.toAlike with }, ?_, fun _ => rfl, ?_, ?_⟩, ?_⟩
        · exact fun hl => absurd (hs.symm.trans hl) (by decide)
        · intro _
          simp only [sendProbe, h.probesSent hs]
        · exact fun hh => absurd (hs.symm.trans hh) (by decide)
        · simp only [sendProbe, h.candidate, h.toAlike.emit]
      · exact h.toAlike.becomeHeld t
    · exact h.tx
  | held =>
    dsimp only
    rw [h.lastBeaconMs hs, elapsed_shift]
    split
    · exact h.toAlike.sendBeacon hs none t
    · exact h.tx

/-- The evidence of a probe or beacon. -/
theorem Shifted.noteForeign (h : Shifted k s s') (id : UInt8) (t : UInt32) :
    Shifted k (if id ≠ s.id then s.note id t else s)
      (if id ≠ s'.id then s'.note id (t + k) else s') := by
  rw [h.id]
  split
  · exact h.note id t
  · exact h

theorem Shifted.onProbe (h : Shifted k s s') (src : Mac) (id : UInt8) (t : UInt32) :
    ShiftedTx k (s.onProbe src id t) (s'.onProbe src id (t + k)) := by
  unfold IrIdNegotiator.onProbe
  rw [h.mac]
  split
  · exact h.tx
  · have hn := h.noteForeign id t
    dsimp only
    generalize (if id ≠ s.id then s.note id t else s) = n at hn
    generalize (if id ≠ s'.id then s'.note id (t + k) else s') = n' at hn
    simp only [hn.state, hn.candidate, hn.id, hn.toAlike.otherWins]
    split
    · split
      · exact hn.toAlike.startProbe t
      · exact hn.tx
    · split
      · rename_i hheld
        exact hn.toAlike.twoBeacons hheld.1 (some src) t
      · exact hn.tx

theorem Shifted.onBeacon (h : Shifted k s s') (src : Mac) (id : UInt8) (t : UInt32) :
    ShiftedTx k (s.onBeacon src id t) (s'.onBeacon src id (t + k)) := by
  unfold IrIdNegotiator.onBeacon
  rw [h.mac]
  split
  · exact h.tx
  · have hn := h.noteForeign id t
    dsimp only
    generalize (if id ≠ s.id then s.note id t else s) = n at hn
    generalize (if id ≠ s'.id then s'.note id (t + k) else s') = n' at hn
    simp only [hn.state, hn.candidate, hn.id, hn.toAlike.otherWins]
    split
    · exact hn.toAlike.startProbe t
    · split
      · rename_i hheld
        split
        · exact ((hn.note id t).toAlike.setId rfl).startProbe t
        · exact hn.toAlike.sendBeacon hheld.1 none t
      · exact hn.tx

theorem Shifted.onHitReport (h : Shifted k s s') (id : UInt8) (t : UInt32) :
    ShiftedTx k (s.onHitReport id t) (s'.onHitReport id (t + k)) := by
  unfold IrIdNegotiator.onHitReport
  rw [h.id]
  split
  · exact h.tx
  · have hn := h.note id t
    simp only [hn.state, hn.candidate]
    split
    · exact hn.toAlike.startProbe t
    · exact hn.tx

/-- `begin` relates any two objects: what it leaves alone is not read before it
is written. -/
theorem shifted_begin (s s' : IrIdNegotiator) (m : Mac) (p : UInt8) (t : UInt32) (b : Bool) :
    Shifted k (s.begin m p t b) (s'.begin m p (t + k) b) := by
  refine ⟨⟨rfl, rfl, rfl, rfl, rfl, rfl, rfl, rfl, ?_⟩, ?_, ?_, ?_, ?_⟩
  · exact fun id hid => nomatch hid
  · intro _
    exact add_shift t iridTListenMs k
  · exact fun hs => nomatch hs
  · exact fun hs => nomatch hs
  · exact fun hs => nomatch hs

/-- The step lemma. -/
theorem Shifted.exec (h : Shifted k s s') (c : Call) :
    ShiftedTx k (s.exec c) (s'.exec (c.shift k)) := by
  cases c with
  | begin m p t b => exact (shifted_begin s s' m p t b).tx
  | tick t => exact h.tick t
  | onProbe src id t => exact h.onProbe src id t
  | onBeacon src id t => exact h.onBeacon src id t
  | onHitReport id t => exact h.onHitReport id t
  | consumeIdChanged => exact ⟨{ h with idChanged := rfl }, rfl⟩

/-! ### Runs -/

/-- The run lemma. -/
theorem Shifted.run (h : Shifted k s s') (cs : List Call) :
    Shifted k (s.run cs) (s'.run (cs.map (Call.shift k))) := by
  induction cs generalizing s s' with
  | nil => exact h
  | cons c cs ih => exact ih (h.exec c).1

/-- The transmissions of a run, one list for each call. -/
def transmissions (s : IrIdNegotiator) : List Call → List (List Tx)
  | [] => []
  | c :: cs => (s.exec c).2 :: transmissions (s.exec c).1 cs

theorem Shifted.transmissions (h : Shifted k s s') (cs : List Call) :
    s'.transmissions (cs.map (Call.shift k)) = s.transmissions cs := by
  induction cs generalizing s s' with
  | nil => rfl
  | cons c cs ih =>
    obtain ⟨hnext, htx⟩ := h.exec c
    rw [List.map_cons, IrIdNegotiator.transmissions, IrIdNegotiator.transmissions, htx, ih hnext]

/-- **Only clock differences matter**: two objects that are given the same
calls from a `begin` on, one with its clock `k` ahead, transmit the same and
answer the same after each call. -/
theorem clock_insensitive (k : UInt32) (s₀ s₀' : IrIdNegotiator) (m : Mac) (p : UInt8)
    (t : UInt32) (b : Bool) (cs : List Call) :
    let start : Call := .begin m p t b
    s₀'.transmissions ((start :: cs).map (Call.shift k)) = s₀.transmissions (start :: cs) ∧
    ∀ ds, ds <+: cs →
      let s := s₀.run (start :: ds)
      let s' := s₀'.run ((start :: ds).map (Call.shift k))
      s'.state = s.state ∧ s'.id = s.id ∧ s'.candidate = s.candidate ∧
        s'.consumeIdChanged.1 = s.consumeIdChanged.1 ∧
        ∀ id u, s'.isOccupied id (u + k) = s.isOccupied id u := by
  intro start
  have hbegin : Shifted k (s₀.exec start).1 (s₀'.exec (start.shift k)).1 :=
    shifted_begin s₀ s₀' m p t b
  constructor
  · rw [List.map_cons, transmissions, transmissions, hbegin.transmissions]
    rfl
  · intro ds _ s s'
    have h : Shifted k s s' := hbegin.run ds
    exact ⟨h.state, h.id, h.candidate, h.idChanged, h.toAlike.isOccupied⟩

end IrIdNegotiator

end InfinitagNow
