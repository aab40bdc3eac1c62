/-
InfinitagNow/NegotiatorInvariant.lean

What can be relied on about a negotiator between any two calls: the accessor
contracts of `src/IrIdNegotiator.h`, the ids it puts on the air, what it
ignores, and the change flag.

`Wf` carries most of it.  `probe_tx` and `beacon_tx` say what a call may
transmit; `ChangeNoted` is the invariant of the calls between two
`consumeIdChanged`: as long as the flag is not set, the id is the one of the
first of the two.
-/
import InfinitagNow.NegotiatorTrace
import InfinitagNow.StationBus

namespace InfinitagNow

namespace IrIdNegotiator

section Calls

variable {s : IrIdNegotiator} {c : Call}

/-! ### What is transmitted -/

/-- Starting to probe sends the candidate, if anything. -/
theorem startProbe_tx (hp : s.PreferredOk) {t : UInt32} {x : Tx} (hx : x ∈ (s.startProbe t).2) :
    x.kind = .probe ∧ (s.startProbe t).1.state = .probe ∧
      x.id = (s.startProbe t).1.candidate := by
  rcases startProbe_cases hp t with ⟨heq, -⟩ | ⟨y, -, -, heq⟩
  · simp [heq] at hx
  · simp only [heq, emit] at hx ⊢
    split at hx <;> simp at hx
    simp [hx]

/-- Every probe carries the candidate, and the station is probing it. -/
theorem probe_tx (h : s.Wf) {x : Tx} (hx : x ∈ (s.exec c).2) (hk : x.kind = .probe) :
    (s.exec c).1.state = .probe ∧ x.id = (s.exec c).1.candidate := by
  have hrule := exec_rule h c
  have hpref := h.preferredOk
  generalize s.exec c = r at hrule hx
  have hbeacon : ∀ {s' : IrIdNegotiator} {id : UInt8} {dst : Option Mac},
      x ∉ s'.emit .beacon id dst := by
    intro s' id dst hmem
    unfold emit at hmem
    split at hmem <;> simp at hmem
    simp [hmem] at hk
  cases hrule with
  | listenEnd t => exact (startProbe_tx hpref hx).2
  | reprobe t hst =>
    simp only [sendProbe, emit] at hx ⊢
    split at hx <;> simp at hx
    simp [hx, hst]
  | acquire t hst =>
    rw [becomeHeld_eq h hst] at hx
    rcases List.mem_append.1 hx with hx | hx <;> exact absurd hx hbeacon
  | rebeacon t | counter src t => exact absurd hx hbeacon
  | defend src t => rcases List.mem_append.1 hx with hx | hx <;> exact absurd hx hbeacon
  | abort c t => exact (startProbe_tx (by simpa [PreferredOk] using hpref) hx).2
  | yield src t => exact (startProbe_tx (by simpa [PreferredOk] using hpref) hx).2
  | _ => simp at hx

/-- Never an id outside 1 to 15 on the air. -/
theorem validId_tx (h : s.Wf) {x : Tx} (hx : x ∈ (s.exec c).2) : validId x.id = true := by
  have hwf := h.exec c
  cases hk : x.kind with
  | probe =>
    obtain ⟨hst, hid⟩ := probe_tx h hx hk
    rw [hid]
    exact hwf.validId_candidate hst
  | beacon =>
    obtain ⟨hst, hid⟩ := beacon_tx h hx hk
    rw [hid]
    exact hwf.validId_id hst

/-! ### What is ignored -/

theorem exec_onProbe_ignored {src : Mac} {id : UInt8} (h : src = s.mac ∨ validId id = false)
    (t : UInt32) : s.exec (.onProbe src id t) = (s, []) := by
  have hskip : validId id = false ∨ macCmp src s.mac = .eq := h.symm.imp_right macCmp_eq_iff.2
  simp [exec, onProbe, hskip]

theorem exec_onBeacon_ignored {src : Mac} {id : UInt8} (h : src = s.mac ∨ validId id = false)
    (t : UInt32) : s.exec (.onBeacon src id t) = (s, []) := by
  have hskip : validId id = false ∨ macCmp src s.mac = .eq := h.symm.imp_right macCmp_eq_iff.2
  simp [exec, onBeacon, hskip]

theorem exec_onHitReport_ignored {id : UInt8} (h : validId id = false) (t : UInt32) :
    s.exec (.onHitReport id t) = (s, []) := by
  simp [exec, onHitReport, h]

/-! ### The own id -/

/-- A station never blocks the id it holds. -/
theorem isOccupied_id (h : s.Wf) (hs : s.state = .held) (t : UInt32) :
    s.isOccupied s.id t = false := by
  simp [isOccupied, h.not_seen hs]

/-! ### The probe counter -/

/-- A station in PROBE has sent one to three probes for its candidate since it
started to probe it. -/
theorem probesSent_of_probe {s₀ : IrIdNegotiator} (hwf : s₀.Wf) (h0 : s₀.state = .listen)
    {cs : List Call} (hs : (s₀.run cs).state = .probe) :
    1 ≤ (s₀.run cs).probesSent ∧ (s₀.run cs).probesSent ≤ 3 ∧
      ∃ pre start mid times, cs = pre ++ start :: mid ∧
        Probing (s₀.run pre) start mid (s₀.run cs).candidate times ∧
        times.length = (s₀.run cs).probesSent.toNat := by
  obtain ⟨pre, start, mid, times, hcs, hprobing, hlen, hle, hlast⟩ :=
    probeHistory_run hwf h0 cs hs
  have hpos : times ≠ [] := by
    rintro rfl
    simp at hlast
  have hone : 1 ≤ times.length := List.length_pos_iff.2 hpos
  rw [hlen] at hone hle
  exact ⟨UInt8.le_iff_toNat_le.2 hone, UInt8.le_iff_toNat_le.2 hle,
    pre, start, mid, times, hcs, hprobing, hlen⟩

/-! ### The change flag -/

/-- Since `s₀`, the id has changed only if the flag is set. -/
def ChangeNoted (s₀ s : IrIdNegotiator) : Prop := s.idChanged = false → s.id = s₀.id

theorem startProbe_id (s : IrIdNegotiator) (t : UInt32) :
    (s.startProbe t).1.id = s.id ∧ (s.startProbe t).1.idChanged = s.idChanged := by
  unfold startProbe
  dsimp only
  split
  · exact ⟨rfl, rfl⟩
  · exact ⟨rfl, rfl⟩

/-- The step lemma: `setId` is the only way to another id, and it raises the
flag. -/
theorem ChangeNoted.exec {s₀ : IrIdNegotiator} (h : s.Wf) (hn : ChangeNoted s₀ s)
    (hbegin : ∀ m p t b, c ≠ .begin m p t b) (hconsume : c ≠ .consumeIdChanged) :
    ChangeNoted s₀ (s.exec c).1 := by
  have hrule := exec_rule h c
  generalize s.exec c = r at hrule
  intro hflag
  cases hrule with
  | begin m p t b => exact absurd rfl (hbegin m p t b)
  | consume => exact absurd rfl hconsume
  | listenEnd t =>
    rw [(startProbe_id s t).2] at hflag
    rw [(startProbe_id s t).1, hn hflag]
  | acquire t hst => simp [becomeHeld_eq h hst] at hflag
  | evidence c id t =>
    rw [note_idChanged] at hflag
    rw [note_id, hn hflag]
  | abort c t =>
    rw [(startProbe_id _ t).2, note_idChanged] at hflag
    rw [(startProbe_id _ t).1, note_id, hn hflag]
  | yield src t hst =>
    -- the held id is given up
    have hne : 0 ≠ (s.note s.id t).id := by
      rw [note_id]
      exact (h.held_iff.1 hst).symm
    rw [(startProbe_id _ t).2, setId, if_neg hne] at hflag
    exact absurd hflag (by simp)
  | _ => exact hn hflag

/-- The run lemma. -/
theorem ChangeNoted.run {s₀ : IrIdNegotiator} (h : s.Wf) (hn : ChangeNoted s₀ s) {mid : List Call}
    (hbegin : ∀ m p t b, Call.begin m p t b ∉ mid) (hconsume : Call.consumeIdChanged ∉ mid) :
    ChangeNoted s₀ (s.run mid) := by
  induction mid using List.reverseRecOn with
  | nil => exact hn
  | append_singleton mid c ih =>
    have hmid := ih (fun m p t b hm => hbegin m p t b (List.mem_append_left _ hm))
      (fun hm => hconsume (List.mem_append_left _ hm))
    rw [run_concat]
    refine hmid.exec (h.run mid) ?_ ?_
    · rintro m p t b rfl
      exact hbegin m p t b (by simp)
    · rintro rfl
      exact hconsume (by simp)

/-- An id that differs from the one at the last `consumeIdChanged` is reported. -/
theorem consumeIdChanged_of_ne (h : s.Wf) {mid : List Call}
    (hbegin : ∀ m p t b, Call.begin m p t b ∉ mid) (hconsume : Call.consumeIdChanged ∉ mid)
    (hne : (s.run (.consumeIdChanged :: mid)).id ≠ s.id) :
    (s.run (.consumeIdChanged :: mid)).consumeIdChanged.1 = true := by
  have hnoted : ChangeNoted s ((s.exec .consumeIdChanged).1.run mid) :=
    ChangeNoted.run (h.exec _) (fun _ => rfl) hbegin hconsume
  rw [consumeIdChanged, ← Bool.not_eq_false]
  exact fun hflag => hne (hnoted hflag)

end Calls

/-! ### The invariant -/

/-- **The state invariant**, after a `begin` and any calls: the accessors agree
with the state, one to three probes in PROBE, the held id is never occupied,
only the candidate and the held id go on the air, own echoes and invalid ids do
nothing, and no change of the id escapes `consumeIdChanged`. -/
theorem state_invariant (s₀ : IrIdNegotiator) (m : Mac) (p : UInt8) (t : UInt32) (b : Bool)
    (cs : List Call) :
    let s₁ := s₀.begin m p t b
    let s := s₁.run cs
    ((s.id ≠ 0 ↔ s.state = .held) ∧ (s.candidate ≠ 0 ↔ s.state = .probe) ∧
      s.id ≤ 15 ∧ s.candidate ≤ 15) ∧
    (s.state = .probe → 1 ≤ s.probesSent ∧ s.probesSent ≤ 3 ∧
      ∃ pre start mid times, cs = pre ++ start :: mid ∧
        Probing (s₁.run pre) start mid s.candidate times ∧
        times.length = s.probesSent.toNat) ∧
    (s.state = .held → ∀ u, s.isOccupied s.id u = false) ∧
    (∀ c, ∀ x ∈ (s.exec c).2, 1 ≤ x.id ∧ x.id ≤ 15 ∧
      (x.kind = .probe → x.id = (s.exec c).1.candidate) ∧
      (x.kind = .beacon → x.id = (s.exec c).1.id)) ∧
    (∀ src id u, src = s.mac ∨ ¬ (1 ≤ id ∧ id ≤ 15) →
      s.exec (.onProbe src id u) = (s, []) ∧ s.exec (.onBeacon src id u) = (s, [])) ∧
    (∀ id u, ¬ (1 ≤ id ∧ id ≤ 15) → s.exec (.onHitReport id u) = (s, [])) ∧
    (∀ pre mid, cs = pre ++ .consumeIdChanged :: mid →
      (∀ m p t b, Call.begin m p t b ∉ mid) → Call.consumeIdChanged ∉ mid →
      s.id ≠ (s₁.run pre).id → s.consumeIdChanged.1 = true) := by
  intro s₁ s
  have hwf₁ : s₁.Wf := wf_begin s₀ m p t b
  have hwf : s.Wf := hwf₁.run cs
  have hvalid : ∀ id, validId id = true ↔ 1 ≤ id ∧ id ≤ 15 := by simp [validId]
  have hinvalid : ∀ id, ¬ (1 ≤ id ∧ id ≤ 15) → validId id = false := by
    intro id hid
    rw [← hvalid] at hid
    simpa using hid
  refine ⟨⟨hwf.held_iff.symm, hwf.probe_iff.symm, hwf.id_le, hwf.candidate_le⟩,
    probesSent_of_probe hwf₁ rfl, isOccupied_id hwf, ?_, ?_, ?_, ?_⟩
  · intro c x hx
    obtain ⟨hlo, hhi⟩ := (hvalid _).1 (validId_tx hwf hx)
    exact ⟨hlo, hhi, fun hk => (probe_tx hwf hx hk).2, fun hk => (beacon_tx hwf hx hk).2⟩
  · intro src id u h
    have hskip := h.imp_right (hinvalid id)
    exact ⟨exec_onProbe_ignored hskip u, exec_onBeacon_ignored hskip u⟩
  · exact fun id u h => exec_onHitReport_ignored (hinvalid id h) u
  · rintro pre mid rfl hbegin hconsume hne
    have hrun : s = (s₁.run pre).run (.consumeIdChanged :: mid) := run_append _ _ _
    rw [hrun] at hne ⊢
    exact consumeIdChanged_of_ne (hwf₁.run pre) hbegin hconsume hne

end IrIdNegotiator

end InfinitagNow
