/-
InfinitagNow/IrIdNegotiator.lean

Zero-config allocation of a station's IR id (`src/IrIdNegotiator.{h,cpp}`).

A station listens, picks a free candidate, probes it three times and, if
nobody objects, holds it and announces it with beacons.  Evidence of other
holders is kept in a table with lazily expiring timestamps.

Every function returns the new object together with what it handed to the send
callback.  `exec` runs one call of the public interface; `Rule` lists what one
call can do, one constructor for each path through the code, and `exec_rule`
says the list is complete for objects that satisfy the class invariant `Wf`.
All later results about the negotiator are case analyses over `Rule`.
-/
import InfinitagNow.Bytes

namespace InfinitagNow

/-! ### Constants -/

def iridTListenMs : UInt32 := 3000
def iridTProbeMs : UInt32 := 150
def iridNProbe : UInt8 := 3
def iridTBeaconMs : UInt32 := 2000
def iridTExpireMs : UInt32 := 8000
def iridTRetryMs : UInt32 := 30000

def validId (id : UInt8) : Bool := 1 ≤ id && id ≤ 15

/-- The ids that can be held, 1 to 15. -/
def irIds : List UInt8 := [1, 2, 3, 4, 5, 6, 7, 8, 9, 10, 11, 12, 13, 14, 15]

theorem mem_irIds_iff {id : UInt8} : id ∈ irIds ↔ validId id = true := by
  simp only [irIds, validId, List.mem_cons, List.not_mem_nil, ← UInt8.toNat_inj,
    UInt8.le_iff_toNat_le, Bool.and_eq_true, decide_eq_true_eq]
  simp
  omega

theorem validId_ne_zero {id : UInt8} (h : validId id = true) : id ≠ 0 := by
  rintro rfl
  exact absurd h (by decide)

/-! ### The object -/

inductive NegState
  | listen | probe | held
  deriving DecidableEq, Repr

inductive TxKind
  | probe | beacon
  deriving DecidableEq, Repr

/-- One call of the send callback; no destination means broadcast. -/
structure Tx where
  kind : TxKind
  id : UInt8
  dst : Option Mac
  deriving DecidableEq, Repr

structure IrIdNegotiator where
  /-- the send callback is set -/
  send : Bool := false
  mac : Mac := {}
  preferred : UInt8 := 0
  state : NegState := .listen
  id : UInt8 := 0
  candidate : UInt8 := 0
  idChanged : Bool := false
  listenUntil : UInt32 := 0
  lastProbeMs : UInt32 := 0
  probesSent : UInt8 := 0
  lastBeaconMs : UInt32 := 0
  -- evidence table, indexed by id
  seenMs : UInt8 → UInt32 := fun _ => 0
  seen : UInt8 → Bool := fun _ => false

namespace IrIdNegotiator

def emit (s : IrIdNegotiator) (kind : TxKind) (id : UInt8) (dst : Option Mac) : List Tx :=
  if s.send then [⟨kind, id, dst⟩] else []

def begin (s : IrIdNegotiator) (ownMac : Mac) (preferredId : UInt8) (nowMs : UInt32)
    (send : Bool) : IrIdNegotiator :=
  { s with
    mac := ownMac
    preferred := if validId preferredId then preferredId else 0
    send := send
    state := .listen
    id := 0
    candidate := 0
    idChanged := false
    listenUntil := nowMs + iridTListenMs
    seen := fun _ => false }

/-- Evidence of another station holding `id` within the evidence lifetime. -/
def isOccupied (s : IrIdNegotiator) (id : UInt8) (nowMs : UInt32) : Bool :=
  if !validId id || !s.seen id then false
  else !elapsed nowMs (s.seenMs id) iridTExpireMs

/-- Record evidence. -/
def note (s : IrIdNegotiator) (id : UInt8) (nowMs : UInt32) : IrIdNegotiator :=
  if !validId id then s
  else { s with
    seen := Function.update s.seen id true
    seenMs := Function.update s.seenMs id nowMs }

/-- Tie-break. -/
def otherWins (s : IrIdNegotiator) (otherMac : Mac) : Bool := macCmp otherMac s.mac == .lt

/-- 1) last held id, 2) MAC-derived, 3) upwards from there, cyclic. -/
def pickCandidate (s : IrIdNegotiator) (nowMs : UInt32) : UInt8 :=
  if s.preferred ≠ 0 ∧ s.isOccupied s.preferred nowMs = false then s.preferred
  else
    let base : ℕ := s.mac.bytes[5].toNat % 15 + 1
    let ids := (List.range 15).map fun i => UInt8.ofNat ((base - 1 + i) % 15 + 1)
    (ids.find? fun id => !s.isOccupied id nowMs).getD 0

def sendProbe (s : IrIdNegotiator) (nowMs : UInt32) : IrIdNegotiator × List Tx :=
  ({ s with lastProbeMs := nowMs, probesSent := s.probesSent + 1 },
    s.emit .probe s.candidate none)

def sendBeacon (s : IrIdNegotiator) (dstMac : Option Mac) (nowMs : UInt32) :
    IrIdNegotiator × List Tx :=
  ({ s with lastBeaconMs := nowMs }, s.emit .beacon s.id dstMac)

def setId (s : IrIdNegotiator) (id : UInt8) : IrIdNegotiator :=
  if id = s.id then s else { s with id := id, idChanged := true }

/-- Next candidate, or back to listening when all ids are taken. -/
def startProbe (s : IrIdNegotiator) (nowMs : UInt32) : IrIdNegotiator × List Tx :=
  let c := s.pickCandidate nowMs
  if c = 0 then
    ({ s with state := .listen, candidate := 0, listenUntil := nowMs + iridTRetryMs }, [])
  else
    { s with state := .probe, candidate := c, probesSent := 0 }.sendProbe nowMs

def becomeHeld (s : IrIdNegotiator) (nowMs : UInt32) : IrIdNegotiator × List Tx :=
  let s := { s with state := .held }.setId s.candidate
  let s := { s with candidate := 0, seen := Function.update s.seen s.id false }
  let (s, tx₁) := s.sendBeacon none nowMs
  let (s, tx₂) := s.sendBeacon none nowMs
  (s, tx₁ ++ tx₂)

def tick (s : IrIdNegotiator) (nowMs : UInt32) : IrIdNegotiator × List Tx :=
  match s.state with
  | .listen =>
    if 0 ≤ (nowMs - s.listenUntil).toInt32 then s.startProbe nowMs else (s, [])
  | .probe =>
    if elapsed nowMs s.lastProbeMs iridTProbeMs then
      if s.probesSent < iridNProbe then s.sendProbe nowMs
      else s.becomeHeld nowMs  -- nobody objected
    else (s, [])
  | .held =>
    if elapsed nowMs s.lastBeaconMs iridTBeaconMs then s.sendBeacon none nowMs else (s, [])

def onProbe (s : IrIdNegotiator) (srcMac : Mac) (id : UInt8) (nowMs : UInt32) :
    IrIdNegotiator × List Tx :=
  if validId id = false ∨ macCmp srcMac s.mac = .eq then (s, [])
  else
    let s := if id ≠ s.id then s.note id nowMs else s
    if s.state = .probe ∧ id = s.candidate then
      if s.otherWins srcMac then s.startProbe nowMs else (s, [])
    else if s.state = .held ∧ id = s.id then
      -- defend the held id: tell the prober and everybody else
      let (s, tx₁) := s.sendBeacon (some srcMac) nowMs
      let (s, tx₂) := s.sendBeacon none nowMs
      (s, tx₁ ++ tx₂)
    else (s, [])

def onBeacon (s : IrIdNegotiator) (srcMac : Mac) (id : UInt8) (nowMs : UInt32) :
    IrIdNegotiator × List Tx :=
  if validId id = false ∨ macCmp srcMac s.mac = .eq then (s, [])
  else
    let s := if id ≠ s.id then s.note id nowMs else s
    if s.state = .probe ∧ id = s.candidate then s.startProbe nowMs
    else if s.state = .held ∧ id = s.id then
      if s.otherWins srcMac then
        -- the winner keeps it, straight to probing
        ((s.note id nowMs).setId 0).startProbe nowMs
      else s.sendBeacon none nowMs
    else (s, [])

def onHitReport (s : IrIdNegotiator) (shooterId : UInt8) (nowMs : UInt32) :
    IrIdNegotiator × List Tx :=
  if validId shooterId = false ∨ shooterId = s.id then (s, [])
  else
    let s := s.note shooterId nowMs
    if s.state = .probe ∧ shooterId = s.candidate then s.startProbe nowMs else (s, [])

def consumeIdChanged (s : IrIdNegotiator) : Bool × IrIdNegotiator :=
  (s.idChanged, { s with idChanged := false })

/-! ### The evidence table -/

section Table

variable (s : IrIdNegotiator) (id c : UInt8) (t u : UInt32)

@[simp] theorem note_send : (s.note id t).send = s.send := by unfold note; split <;> rfl
@[simp] theorem note_mac : (s.note id t).mac = s.mac := by unfold note; split <;> rfl
@[simp] theorem note_preferred : (s.note id t).preferred = s.preferred := by
  unfold note; split <;> rfl
@[simp] theorem note_state : (s.note id t).state = s.state := by unfold note; split <;> rfl
@[simp] theorem note_id : (s.note id t).id = s.id := by unfold note; split <;> rfl
@[simp] theorem note_idChanged : (s.note id t).idChanged = s.idChanged := by
  unfold note; split <;> rfl
@[simp] theorem note_candidate : (s.note id t).candidate = s.candidate := by
  unfold note; split <;> rfl
@[simp] theorem note_probesSent : (s.note id t).probesSent = s.probesSent := by
  unfold note; split <;> rfl
@[simp] theorem note_lastProbeMs : (s.note id t).lastProbeMs = s.lastProbeMs := by
  unfold note; split <;> rfl
@[simp] theorem note_listenUntil : (s.note id t).listenUntil = s.listenUntil := by
  unfold note; split <;> rfl

@[simp] theorem setId_send : (s.setId id).send = s.send := by unfold setId; split <;> rfl
@[simp] theorem setId_mac : (s.setId id).mac = s.mac := by unfold setId; split <;> rfl
@[simp] theorem setId_preferred : (s.setId id).preferred = s.preferred := by
  unfold setId; split <;> rfl
@[simp] theorem setId_state : (s.setId id).state = s.state := by unfold setId; split <;> rfl
@[simp] theorem setId_id : (s.setId id).id = id := by
  unfold setId; split
  · rename_i h; exact h.symm
  · rfl
@[simp] theorem setId_candidate : (s.setId id).candidate = s.candidate := by
  unfold setId; split <;> rfl
@[simp] theorem setId_seen : (s.setId id).seen = s.seen := by unfold setId; split <;> rfl
@[simp] theorem setId_seenMs : (s.setId id).seenMs = s.seenMs := by unfold setId; split <;> rfl

@[simp] theorem isOccupied_setId : (s.setId id).isOccupied c u = s.isOccupied c u := by
  simp [isOccupied]

variable {s id c t u}

/-- Fresh evidence counts. -/
theorem isOccupied_note_self (hid : validId id = true) : (s.note id t).isOccupied id t = true := by
  simp [isOccupied, note, hid, elapsed_self t (show 0 < iridTExpireMs by decide)]

/-- Evidence for one id leaves the others alone. -/
theorem isOccupied_note_of_ne (hne : c ≠ id) :
    (s.note id t).isOccupied c u = s.isOccupied c u := by
  unfold note
  split
  · rfl
  · simp [isOccupied, Function.update_of_ne hne]

/-- At one clock value the occupied ids only grow. -/
theorem isOccupied_note_mono (h : s.isOccupied c t = true) :
    (s.note id t).isOccupied c t = true := by
  by_cases hc : c = id
  · subst hc
    have hid : validId c = true := by
      by_contra hno
      simp [isOccupied, hno] at h
    exact isOccupied_note_self hid
  · rw [isOccupied_note_of_ne hc, h]

end Table

/-! ### Choosing a candidate -/

/-- The scan visits every id once around the cycle. -/
theorem mem_scan_iff {base : ℕ} {id : UInt8} :
    id ∈ (List.range 15).map (fun i => UInt8.ofNat ((base + i) % 15 + 1)) ↔
      validId id = true := by
  have hv : validId id = true ↔ 1 ≤ id.toNat ∧ id.toNat ≤ 15 := by
    simp [validId, UInt8.le_iff_toNat_le]
  rw [hv]
  constructor
  · intro h
    obtain ⟨i, -, rfl⟩ := List.mem_map.1 h
    simp
    omega
  · rintro ⟨h1, h15⟩
    refine List.mem_map.2 ⟨(id.toNat - 1 + (15 - base % 15)) % 15, ?_, ?_⟩
    · simp; omega
    · apply UInt8.toNat_inj.1
      simp
      omega

/-- The stored preference is an id or absent. -/
def PreferredOk (s : IrIdNegotiator) : Prop := s.preferred ≠ 0 → validId s.preferred = true

theorem pickCandidate_spec {s : IrIdNegotiator} (hp : s.PreferredOk) (t : UInt32) :
    (s.pickCandidate t = 0 ∧ ∀ id, validId id = true → s.isOccupied id t = true) ∨
      (validId (s.pickCandidate t) = true ∧ s.isOccupied (s.pickCandidate t) t = false) := by
  unfold pickCandidate
  split
  · rename_i h
    exact .inr ⟨hp h.1, h.2⟩
  · dsimp only
    cases hfind : List.find? (fun id => !s.isOccupied id t)
        ((List.range 15).map fun i =>
          UInt8.ofNat ((s.mac.bytes[5].toNat % 15 + 1 - 1 + i) % 15 + 1)) with
    | none =>
      left
      refine ⟨rfl, fun id hid => ?_⟩
      have := List.find?_eq_none.1 hfind id (mem_scan_iff.2 hid)
      simpa using this
    | some c =>
      right
      exact ⟨mem_scan_iff.1 (List.mem_of_find?_eq_some hfind),
        by simpa using List.find?_some hfind⟩

/-- What starting a probing does: all ids are taken and the station listens
again, or a free id is probed. -/
theorem startProbe_cases {s : IrIdNegotiator} (hp : s.PreferredOk) (t : UInt32) :
    (s.startProbe t =
        ({ s with state := .listen, candidate := 0, listenUntil := t + iridTRetryMs }, []) ∧
      ∀ id, validId id = true → s.isOccupied id t = true) ∨
    ∃ c, validId c = true ∧ s.isOccupied c t = false ∧
      s.startProbe t =
        ({ s with state := .probe, candidate := c, probesSent := 1, lastProbeMs := t },
          s.emit .probe c none) := by
  rcases pickCandidate_spec hp t with ⟨h0, hall⟩ | ⟨hv, hfree⟩
  · left
    exact ⟨by simp [startProbe, h0], hall⟩
  · right
    refine ⟨s.pickCandidate t, hv, hfree, ?_⟩
    simp [startProbe, validId_ne_zero hv, sendProbe, emit]

/-! ### The class invariant -/

structure Wf (s : IrIdNegotiator) : Prop where
  held_iff : s.state = .held ↔ s.id ≠ 0
  probe_iff : s.state = .probe ↔ s.candidate ≠ 0
  id_le : s.id ≤ 15
  candidate_le : s.candidate ≤ 15
  preferred_le : s.preferred ≤ 15
  /-- the own id is never "occupied by someone else" -/
  not_seen : s.state = .held → s.seen s.id = false

theorem validId_iff {id : UInt8} : validId id = true ↔ id ≠ 0 ∧ id ≤ 15 := by
  simp only [validId, Bool.and_eq_true, decide_eq_true_eq, UInt8.le_iff_toNat_le, ne_eq,
    ← UInt8.toNat_inj]
  simp
  omega

section Wf

variable {s : IrIdNegotiator}

theorem Wf.validId_id (h : s.Wf) (hs : s.state = .held) : validId s.id = true :=
  validId_iff.2 ⟨h.held_iff.1 hs, h.id_le⟩

theorem Wf.validId_candidate (h : s.Wf) (hs : s.state = .probe) :
    validId s.candidate = true :=
  validId_iff.2 ⟨h.probe_iff.1 hs, h.candidate_le⟩

theorem Wf.preferredOk (h : s.Wf) : s.PreferredOk := fun hne =>
  validId_iff.2 ⟨hne, h.preferred_le⟩

theorem Wf.id_eq_zero (h : s.Wf) (hs : s.state ≠ .held) : s.id = 0 := by
  by_contra hne
  exact hs (h.held_iff.2 hne)

theorem Wf.candidate_eq_zero (h : s.Wf) (hs : s.state ≠ .probe) : s.candidate = 0 := by
  by_contra hne
  exact hs (h.probe_iff.2 hne)

theorem Wf.held_of_valid (h : s.Wf) (hid : validId s.id = true) : s.state = .held :=
  h.held_iff.2 (validId_ne_zero hid)

/-- Timers and flags do not matter to the invariant. -/
theorem Wf.of_eq {s' : IrIdNegotiator} (h : s.Wf) (hst : s'.state = s.state) (hid : s'.id = s.id)
    (hc : s'.candidate = s.candidate) (hp : s'.preferred = s.preferred)
    (hseen : s'.seen = s.seen) : s'.Wf :=
  ⟨by rw [hst, hid]; exact h.held_iff, by rw [hst, hc]; exact h.probe_iff,
    by rw [hid]; exact h.id_le, by rw [hc]; exact h.candidate_le,
    by rw [hp]; exact h.preferred_le, by rw [hst, hid, hseen]; exact h.not_seen⟩

theorem wf_begin (s : IrIdNegotiator) (m : Mac) (p : UInt8) (t : UInt32) (b : Bool) :
    (s.begin m p t b).Wf := by
  refine ⟨by simp [begin], by simp [begin], by simp [begin], by simp [begin], ?_, by simp [begin]⟩
  simp only [begin]
  split
  · rename_i hp
    exact (validId_iff.1 hp).2
  · decide

/-- Evidence for a foreign id keeps the invariant. -/
theorem Wf.note (h : s.Wf) {id : UInt8} (hid : id ≠ s.id) (t : UInt32) : (s.note id t).Wf := by
  refine ⟨by simpa using h.held_iff, by simpa using h.probe_iff, by simpa using h.id_le,
    by simpa using h.candidate_le, by simpa using h.preferred_le, ?_⟩
  intro hs
  have hseen := h.not_seen (by simpa using hs)
  unfold IrIdNegotiator.note
  split
  · exact hseen
  · simpa [Function.update_of_ne hid.symm] using hseen

/-- Starting a probing from id 0 keeps the invariant. -/
theorem wf_startProbe (h0 : s.id = 0) (hp : s.preferred ≤ 15) (t : UInt32) :
    (s.startProbe t).1.Wf := by
  have hpok : s.PreferredOk := fun hne => validId_iff.2 ⟨hne, hp⟩
  rcases startProbe_cases hpok t with ⟨heq, -⟩ | ⟨c, hc, -, heq⟩
  · rw [heq]
    exact ⟨by simp [h0], by simp, by simp [h0], by simp, hp, by simp⟩
  · rw [heq]
    exact ⟨by simp [h0], by simp [validId_ne_zero hc], by simp [h0],
      (validId_iff.1 hc).2, hp, by simp⟩

end Wf

/-! ### One call of the public interface -/

inductive Call
  | begin (ownMac : Mac) (preferredId : UInt8) (nowMs : UInt32) (send : Bool)
  | tick (nowMs : UInt32)
  | onProbe (srcMac : Mac) (id : UInt8) (nowMs : UInt32)
  | onBeacon (srcMac : Mac) (id : UInt8) (nowMs : UInt32)
  | onHitReport (shooterId : UInt8) (nowMs : UInt32)
  | consumeIdChanged
  deriving DecidableEq, Repr

def exec (s : IrIdNegotiator) : Call → IrIdNegotiator × List Tx
  | .begin ownMac preferredId nowMs send => (s.begin ownMac preferredId nowMs send, [])
  | .tick nowMs => s.tick nowMs
  | .onProbe srcMac id nowMs => s.onProbe srcMac id nowMs
  | .onBeacon srcMac id nowMs => s.onBeacon srcMac id nowMs
  | .onHitReport shooterId nowMs => s.onHitReport shooterId nowMs
  | .consumeIdChanged => (s.consumeIdChanged.2, [])

/-- The evidence a call brings: the id somebody else uses, and the clock. -/
def Call.evidence (m : Mac) : Call → Option (UInt8 × UInt32)
  | .onProbe src id t => if src = m then none else some (id, t)
  | .onBeacon src id t => if src = m then none else some (id, t)
  | .onHitReport id t => some (id, t)
  | _ => none

/-- Another station's probe or beacon, or a hit report. -/
theorem evidence_cases {c : Call} {m : Mac} {id : UInt8} {t : UInt32}
    (hev : c.evidence m = some (id, t)) :
    (∃ src, src ≠ m ∧ (c = .onProbe src id t ∨ c = .onBeacon src id t)) ∨
      c = .onHitReport id t := by
  cases c with
  | begin | tick | consumeIdChanged => exact nomatch hev
  | onProbe src x u =>
    obtain ⟨hsrc, rfl, rfl⟩ : src ≠ m ∧ x = id ∧ u = t := by simpa [Call.evidence] using hev
    exact .inl ⟨src, hsrc, .inl rfl⟩
  | onBeacon src x u =>
    obtain ⟨hsrc, rfl, rfl⟩ : src ≠ m ∧ x = id ∧ u = t := by simpa [Call.evidence] using hev
    exact .inl ⟨src, hsrc, .inr rfl⟩
  | onHitReport x u =>
    obtain ⟨rfl, rfl⟩ : x = id ∧ u = t := by simpa [Call.evidence] using hev
    exact .inr rfl

/-- The calls that stop a station with address `m` from probing `c`: a beacon
for `c` from another address, a hit report with shooter `c`, a probe for `c`
from a smaller address. -/
def Call.opposes (m : Mac) (c : UInt8) : Call → Prop
  | .onProbe src id _ => id = c ∧ src.value < m.value
  | .onBeacon src id _ => id = c ∧ src ≠ m
  | .onHitReport id _ => id = c
  | _ => False

/-- What one call can do to an object, one constructor for each path. -/
inductive Rule (s : IrIdNegotiator) : Call → IrIdNegotiator × List Tx → Prop
  | begin (m p t b) : Rule s (.begin m p t b) (s.begin m p t b, [])
  | consume : Rule s .consumeIdChanged ({ s with idChanged := false }, [])
  /-- nothing due, an own or invalid id, an own echo -/
  | ignore (c) (hbegin : ∀ m p t b, c ≠ .begin m p t b)
      (hopp : s.state = .probe → ¬ c.opposes s.mac s.candidate)
      (hheld : ∀ src t, s.state = .held → src ≠ s.mac →
        c ≠ .onProbe src s.id t ∧ c ≠ .onBeacon src s.id t) : Rule s c (s, [])
  | listenEnd (t) (hs : s.state = .listen) (hdue : 0 ≤ (t - s.listenUntil).toInt32) :
      Rule s (.tick t) (s.startProbe t)
  | reprobe (t) (hs : s.state = .probe) (hdue : elapsed t s.lastProbeMs iridTProbeMs = true)
      (hlt : s.probesSent < iridNProbe) : Rule s (.tick t) (s.sendProbe t)
  | acquire (t) (hs : s.state = .probe) (hdue : elapsed t s.lastProbeMs iridTProbeMs = true)
      (hge : ¬ s.probesSent < iridNProbe) : Rule s (.tick t) (s.becomeHeld t)
  | rebeacon (t) (hs : s.state = .held) : Rule s (.tick t) (s.sendBeacon none t)
  | evidence (c id t) (hev : c.evidence s.mac = some (id, t)) (hid : validId id = true)
      (hne : id ≠ s.id) (hopp : s.state = .probe → ¬ c.opposes s.mac s.candidate) :
      Rule s c (s.note id t, [])
  | abort (c t) (hev : c.evidence s.mac = some (s.candidate, t)) (hs : s.state = .probe)
      (hopp : c.opposes s.mac s.candidate) : Rule s c ((s.note s.candidate t).startProbe t)
  | defend (src t) (hs : s.state = .held) (hsrc : src ≠ s.mac) :
      Rule s (.onProbe src s.id t)
        ({ s with lastBeaconMs := t },
          s.emit .beacon s.id (some src) ++ s.emit .beacon s.id none)
  | yield (src t) (hs : s.state = .held) (hlt : src.value < s.mac.value) :
      Rule s (.onBeacon src s.id t) (((s.note s.id t).setId 0).startProbe t)
  | counter (src t) (hs : s.state = .held) (hsrc : src ≠ s.mac)
      (hge : ¬ src.value < s.mac.value) : Rule s (.onBeacon src s.id t) (s.sendBeacon none t)

theorem otherWins_iff (s : IrIdNegotiator) (m : Mac) :
    s.otherWins m = true ↔ m.value < s.mac.value := by
  simp [otherWins, macCmp_lt_iff]

theorem ne_of_value_lt {m n : Mac} (h : m.value < n.value) : m ≠ n := by
  rintro rfl
  exact absurd h (lt_irrefl _)

/-- A probe or beacon with a valid id is skipped only if it is the station's own. -/
theorem own_of_skip {id : UInt8} {src m : Mac}
    (hskip : validId id = false ∨ macCmp src m = .eq) (hid : validId id = true) : src = m :=
  macCmp_eq_iff.1 (hskip.resolve_left (by simp [hid]))

/-- The list of rules is complete. -/
theorem exec_rule {s : IrIdNegotiator} (h : s.Wf) (c : Call) : Rule s c (s.exec c) := by
  cases c with
  | begin m p t b => exact .begin m p t b
  | consumeIdChanged => exact .consume
  | tick t =>
    have hidle : Rule s (.tick t) (s, []) :=
      .ignore _ (by simp) (by simp [Call.opposes]) (by simp)
    simp only [exec, tick]
    cases hs : s.state with
    | listen =>
      dsimp only
      split
      · rename_i hdue
        exact .listenEnd t hs hdue
      · exact hidle
    | probe =>
      dsimp only
      split
      · rename_i hdue
        split
        · rename_i hlt
          exact .reprobe t hs hdue hlt
        · rename_i hge
          exact .acquire t hs hdue hge
      · exact hidle
    | held =>
      dsimp only
      split
      · exact .rebeacon t hs
      · exact hidle
  | onProbe src id t =>
    simp only [exec, onProbe]
    split
    · rename_i hskip
      refine .ignore _ (by simp) ?_ ?_
      · rintro hs ⟨rfl, hlt⟩
        exact ne_of_value_lt hlt (own_of_skip hskip (h.validId_candidate hs))
      · intro src' t' hs hsrc
        refine ⟨?_, by simp⟩
        rintro ⟨⟩
        exact hsrc (own_of_skip hskip (h.validId_id hs))
    · rename_i hskip
      obtain ⟨hid, hsrc⟩ : validId id = true ∧ src ≠ s.mac := by
        simpa [macCmp_eq_iff] using hskip
      by_cases hne : id = s.id
      · -- the id is ours: nothing is noted, and we hold it
        subst hne
        have hs := h.held_of_valid hid
        have hns : ¬ (s.state = .probe ∧ s.id = s.candidate) := by simp [hs]
        simp only [ne_eq, not_true_eq_false, if_false]
        rw [if_neg hns, if_pos (by simp [hs])]
        exact .defend src t hs hsrc
      · have hev : (Call.onProbe src id t).evidence s.mac = some (id, t) := by
          simp [Call.evidence, hsrc]
        simp only [ne_eq, hne, not_false_eq_true, if_true, note_state, note_candidate, note_id,
          and_false, if_false]
        by_cases hc : s.state = .probe ∧ id = s.candidate
        · obtain ⟨hs, rfl⟩ := hc
          have hother : (s.note s.candidate t).otherWins src = s.otherWins src := by
            simp [otherWins]
          rw [if_pos ⟨hs, rfl⟩, hother]
          -- both probe for the id: the smaller address goes on
          by_cases hw : s.otherWins src = true
          · rw [if_pos hw]
            exact .abort _ t hev hs ⟨rfl, (otherWins_iff s src).1 hw⟩
          · rw [if_neg hw]
            refine .evidence _ _ t hev hid hne fun _ hopp => hw ?_
            exact (otherWins_iff s src).2 hopp.2
        · rw [if_neg hc]
          exact .evidence _ _ t hev hid hne fun hs hopp => hc ⟨hs, hopp.1⟩
  | onBeacon src id t =>
    simp only [exec, onBeacon]
    split
    · rename_i hskip
      refine .ignore _ (by simp) ?_ ?_
      · rintro hs ⟨rfl, hsrc⟩
        exact hsrc (own_of_skip hskip (h.validId_candidate hs))
      · intro src' t' hs hsrc
        refine ⟨by simp, ?_⟩
        rintro ⟨⟩
        exact hsrc (own_of_skip hskip (h.validId_id hs))
    · rename_i hskip
      obtain ⟨hid, hsrc⟩ : validId id = true ∧ src ≠ s.mac := by
        simpa [macCmp_eq_iff] using hskip
      by_cases hne : id = s.id
      · -- the id is ours: nothing is noted, and we hold it
        subst hne
        have hs := h.held_of_valid hid
        have hns : ¬ (s.state = .probe ∧ s.id = s.candidate) := by simp [hs]
        simp only [ne_eq, not_true_eq_false, if_false]
        rw [if_neg hns, if_pos (by simp [hs])]
        split
        · rename_i hw
          exact .yield src t hs ((otherWins_iff s src).1 hw)
        · rename_i hw
          exact .counter src t hs hsrc fun hlt => hw ((otherWins_iff s src).2 hlt)
      · have hev : (Call.onBeacon src id t).evidence s.mac = some (id, t) := by
          simp [Call.evidence, hsrc]
        simp only [ne_eq, hne, not_false_eq_true, if_true, note_state, note_candidate, note_id,
          and_false, if_false]
        by_cases hc : s.state = .probe ∧ id = s.candidate
        · obtain ⟨hs, rfl⟩ := hc
          rw [if_pos ⟨hs, rfl⟩]
          exact .abort _ t hev hs ⟨rfl, hsrc⟩
        · rw [if_neg hc]
          exact .evidence _ _ t hev hid hne fun hs hopp => hc ⟨hs, hopp.1⟩
  | onHitReport id t =>
    simp only [exec, onHitReport]
    split
    · rename_i hskip
      refine .ignore _ (by simp) ?_ (by simp)
      rintro hs rfl
      rcases hskip with hinv | hown
      · simp [h.validId_candidate hs] at hinv
      · exact h.probe_iff.1 hs (hown.trans (h.id_eq_zero (by simp [hs])))
    · rename_i hskip
      obtain ⟨hid, hne⟩ : validId id = true ∧ id ≠ s.id := by simpa using hskip
      simp only [note_state, note_candidate]
      by_cases hc : s.state = .probe ∧ id = s.candidate
      · obtain ⟨hs, rfl⟩ := hc
        rw [if_pos ⟨hs, rfl⟩]
        exact .abort _ t rfl hs rfl
      · rw [if_neg hc]
        exact .evidence _ _ t rfl hid hne fun hs hopp => hc ⟨hs, hopp⟩

/-! ### Runs of calls -/

/-- The object after a sequence of calls. -/
def run (s : IrIdNegotiator) (cs : List Call) : IrIdNegotiator :=
  cs.foldl (fun s c => (s.exec c).1) s

@[simp] theorem run_nil (s : IrIdNegotiator) : s.run [] = s := rfl

theorem run_append (s : IrIdNegotiator) (cs ds : List Call) :
    s.run (cs ++ ds) = (s.run cs).run ds := List.foldl_append

theorem run_concat (s : IrIdNegotiator) (cs : List Call) (c : Call) :
    s.run (cs ++ [c]) = ((s.run cs).exec c).1 := by
  rw [run_append]
  rfl

/-- The object after acquiring its candidate. -/
theorem becomeHeld_eq {s : IrIdNegotiator} (h : s.Wf) (hs : s.state = .probe) (t : UInt32) :
    s.becomeHeld t =
      ({ s with
          state := .held
          id := s.candidate
          idChanged := true
          candidate := 0
          lastBeaconMs := t
          seen := Function.update s.seen s.candidate false },
        s.emit .beacon s.candidate none ++ s.emit .beacon s.candidate none) := by
  have hne : s.candidate ≠ s.id := by
    rw [h.id_eq_zero (by simp [hs])]
    exact h.probe_iff.1 hs
  simp [becomeHeld, setId, hne, sendBeacon, emit]

/-- The step lemma of the class invariant. -/
theorem Wf.exec {s : IrIdNegotiator} (h : s.Wf) (c : Call) : (s.exec c).1.Wf := by
  have hrule := exec_rule h c
  generalize s.exec c = r at hrule
  cases hrule with
  | begin m p t b => exact wf_begin s m p t b
  | consume => exact h.of_eq rfl rfl rfl rfl rfl
  | ignore => exact h
  | listenEnd t hs => exact wf_startProbe (h.id_eq_zero (by simp [hs])) h.preferred_le t
  | reprobe t hs => exact h.of_eq rfl rfl rfl rfl rfl
  | acquire t hs =>
    rw [becomeHeld_eq h hs]
    exact ⟨by simpa using h.probe_iff.1 hs, by simp, h.candidate_le, by simp, h.preferred_le,
      by simp⟩
  | rebeacon t hs => exact h.of_eq rfl rfl rfl rfl rfl
  | evidence c id t hev hid hne hopp => exact h.note hne t
  | abort c t hev hs hopp =>
    have h0 := h.id_eq_zero (s := s) (by simp [hs])
    exact wf_startProbe (by simpa using h0) (by simpa using h.preferred_le) t
  | defend => exact h.of_eq rfl rfl rfl rfl rfl
  | yield => exact wf_startProbe (by simp) (by simpa using h.preferred_le) _
  | counter => exact h.of_eq rfl rfl rfl rfl rfl

/-- The run lemma of the class invariant. -/
theorem Wf.run {s : IrIdNegotiator} (h : s.Wf) (cs : List Call) : (s.run cs).Wf :=
  List.foldlRecOn cs _ h fun _ h c _ => h.exec c

end IrIdNegotiator

end InfinitagNow
