/-
InfinitagNow/EvidenceExpiry.lean

How long the evidence of another holder counts (`src/IrIdNegotiator.cpp`,
`isOccupied`, `note`, `pickCandidate`).

Real time is unbounded, the negotiator sees it modulo 2^32.  The history keeps
for each id the real time of the evidence that was written last
(`lastEvidence`); `entry_exec` says what a call does to the table and
`Recorded` that the table is that history modulo 2^32.

An entry is not cleared when it expires, and it is compared modulo 2^32: it
counts again 2^32 ms later, for another eight seconds.  `expires_iff` says that
this is the only way in which it counts for longer than it should.
-/
import InfinitagNow.NegotiatorInvariant

namespace InfinitagNow

namespace IrIdNegotiator

/-! ### The evidence table -/

/-- The entry of an id: the clock of the evidence, if any. -/
def entry (s : IrIdNegotiator) (id : UInt8) : Option UInt32 :=
  if s.seen id then some (s.seenMs id) else none

theorem isOccupied_iff_entry {s : IrIdNegotiator} {id : UInt8} {t : UInt32} :
    s.isOccupied id t = true ↔
      validId id = true ∧ ∃ u, s.entry id = some u ∧ t - u < iridTExpireMs := by
  cases hv : validId id <;> cases hs : s.seen id <;> simp [isOccupied, entry, elapsed, hv, hs]

section Table

variable (s : IrIdNegotiator) (id : UInt8) (t : UInt32)

theorem entry_note (hid : validId id = true) :
    (s.note id t).entry = Function.update s.entry id (some t) := by
  funext c
  by_cases hc : c = id
  · subst hc
    simp [entry, note, hid]
  · simp [entry, note, hid, Function.update_of_ne hc]

theorem entry_setId : (s.setId id).entry = s.entry := by
  funext c
  simp [entry]

theorem entry_startProbe : (s.startProbe t).1.entry = s.entry := by
  unfold startProbe
  dsimp only
  split <;> rfl

end Table

variable {s : IrIdNegotiator}

/-- Evidence for an id that is not the own one is written, and the own id stays. -/
theorem exec_foreign {id : UInt8} {t : UInt32} (hne : id ≠ s.id) (hid : validId id = true)
    {c : Call} (hev : c.evidence s.mac = some (id, t)) :
    (s.exec c).1.id = s.id ∧ (s.exec c).1.entry = Function.update s.entry id (some t) := by
  have hstart : ((s.note id t).startProbe t).1.id = s.id ∧
      ((s.note id t).startProbe t).1.entry = Function.update s.entry id (some t) := by
    rw [(startProbe_id _ t).1, note_id, entry_startProbe, entry_note s id t hid]
    exact ⟨rfl, rfl⟩
  have hnote : (s.note id t).id = s.id ∧
      (s.note id t).entry = Function.update s.entry id (some t) :=
    ⟨note_id s id t, entry_note s id t hid⟩
  have hskip : ∀ src, src ≠ s.mac → ¬ (validId id = false ∨ macCmp src s.mac = .eq) :=
    fun src hsrc hskip => hsrc (own_of_skip hskip hid)
  rcases evidence_cases hev with ⟨src, hsrc, rfl | rfl⟩ | rfl
  · simp only [exec, onProbe, if_neg (hskip src hsrc), ne_eq, hne, not_false_eq_true, if_true,
      note_id, and_false, if_false]
    split
    · split
      · exact hstart
      · exact hnote
    · exact hnote
  · simp only [exec, onBeacon, if_neg (hskip src hsrc), ne_eq, hne, not_false_eq_true, if_true,
      note_id, and_false, if_false]
    split
    · exact hstart
    · exact hnote
  · simp only [exec, onHitReport, hid, hne, Bool.true_eq_false, or_self, if_false]
    split
    · exact hstart
    · exact hnote

/-- Evidence for the own id is written only if the station gives the id up. -/
theorem exec_own (h : s.Wf) {t : UInt32} (hid : validId s.id = true) {c : Call}
    (hev : c.evidence s.mac = some (s.id, t)) :
    (s.exec c).1.id = s.id ∧ (s.exec c).1.entry = s.entry ∨
      (s.exec c).1.id = 0 ∧ (s.exec c).1.entry = Function.update s.entry s.id (some t) := by
  have hheld := h.held_of_valid hid
  have hskip : ∀ src, src ≠ s.mac → ¬ (validId s.id = false ∨ macCmp src s.mac = .eq) :=
    fun src hsrc hskip => hsrc (own_of_skip hskip hid)
  rcases evidence_cases hev with ⟨src, hsrc, rfl | rfl⟩ | rfl
  · left
    simp only [exec, onProbe, if_neg (hskip src hsrc), ne_eq, not_true_eq_false, if_false, hheld,
      reduceCtorEq, false_and, and_self, if_true]
    exact ⟨rfl, rfl⟩
  · simp only [exec, onBeacon, if_neg (hskip src hsrc), ne_eq, not_true_eq_false, if_false, hheld,
      reduceCtorEq, false_and, and_self, if_true]
    split
    · right
      rw [(startProbe_id _ t).1, setId_id, entry_startProbe, entry_setId, entry_note s s.id t hid]
      exact ⟨rfl, rfl⟩
    · exact .inl ⟨rfl, rfl⟩
  · left
    simp [exec, onHitReport]

/-- Evidence for an invalid id is ignored. -/
theorem exec_invalid {id : UInt8} {t : UInt32} (hid : validId id = false) {c : Call}
    (hev : c.evidence s.mac = some (id, t)) : s.exec c = (s, []) := by
  rcases evidence_cases hev with ⟨src, -, rfl | rfl⟩ | rfl
  · exact exec_onProbe_ignored (.inr hid) t
  · exact exec_onBeacon_ignored (.inr hid) t
  · exact exec_onHitReport_ignored hid t

/-- A tick writes nothing; it clears the id it acquires. -/
theorem exec_tick (h : s.Wf) (t : UInt32) :
    (s.exec (.tick t)).1.id = s.id ∧ (s.exec (.tick t)).1.entry = s.entry ∨
      s.id = 0 ∧ (s.exec (.tick t)).1.id ≠ 0 ∧
        (s.exec (.tick t)).1.entry =
          Function.update s.entry (s.exec (.tick t)).1.id none := by
  have hrule := exec_rule h (.tick t)
  generalize s.exec (.tick t) = r at hrule
  cases hrule with
  | listenEnd _ hs => exact .inl ⟨(startProbe_id s t).1, entry_startProbe s t⟩
  | acquire _ hs =>
    right
    rw [becomeHeld_eq h hs]
    refine ⟨h.id_eq_zero (by simp [hs]), h.probe_iff.1 hs, ?_⟩
    funext c
    by_cases hc : c = s.candidate
    · subst hc
      simp [entry]
    · simp [entry, Function.update_of_ne hc]
  | evidence _ _ _ hev | abort _ _ hev => simp [Call.evidence] at hev
  | _ => exact .inl ⟨rfl, rfl⟩

/-- What one call does to the table, and to the id: a `begin` clears it, the
evidence for an id that is not held afterwards is written, the id that is
acquired is cleared, and nothing else happens. -/
theorem entry_exec (h : s.Wf) (c : Call) :
    (∃ m p t b, c = .begin m p t b) ∨
    (∃ id t, c.evidence s.mac = some (id, t) ∧ validId id = true ∧ (s.exec c).1.id ≠ id ∧
      ((s.exec c).1.id = s.id ∨ (s.exec c).1.id = 0) ∧
      (s.exec c).1.entry = Function.update s.entry id (some t)) ∨
    (c.evidence s.mac = none ∧ s.id = 0 ∧ (s.exec c).1.id ≠ 0 ∧
      (s.exec c).1.entry = Function.update s.entry (s.exec c).1.id none) ∨
    ((∀ id t, c.evidence s.mac = some (id, t) → validId id = true → (s.exec c).1.id = id) ∧
      (s.exec c).1.id = s.id ∧ (s.exec c).1.entry = s.entry) := by
  cases hev : c.evidence s.mac with
  | none =>
    cases c with
    | begin m p t b => exact .inl ⟨m, p, t, b, rfl⟩
    | consumeIdChanged => exact .inr (.inr (.inr ⟨by simp, rfl, rfl⟩))
    | tick t =>
      rcases exec_tick h t with ⟨hid, hentry⟩ | ⟨h0, hid, hentry⟩
      · exact .inr (.inr (.inr ⟨by simp, hid, hentry⟩))
      · exact .inr (.inr (.inl ⟨rfl, h0, hid, hentry⟩))
    | onProbe src x u =>
      have hsrc : src = s.mac := by simpa [Call.evidence] using hev
      rw [exec_onProbe_ignored (.inl hsrc)]
      exact .inr (.inr (.inr ⟨by simp, rfl, rfl⟩))
    | onBeacon src x u =>
      have hsrc : src = s.mac := by simpa [Call.evidence] using hev
      rw [exec_onBeacon_ignored (.inl hsrc)]
      exact .inr (.inr (.inr ⟨by simp, rfl, rfl⟩))
    | onHitReport x u => simp [Call.evidence] at hev
  | some e =>
    obtain ⟨id, t⟩ := e
    right
    cases hid : validId id with
    | false =>
      rw [exec_invalid hid hev]
      refine .inr (.inr ⟨?_, rfl, rfl⟩)
      rintro c u ⟨⟩ hc
      simp [hid] at hc
    | true =>
      by_cases hne : id = s.id
      · subst hne
        rcases exec_own h hid hev with ⟨hown, hentry⟩ | ⟨hown, hentry⟩
        · refine .inr (.inr ⟨?_, hown, hentry⟩)
          rintro c u ⟨⟩ -
          exact hown
        · refine .inl ⟨s.id, t, rfl, hid, ?_, .inr hown, hentry⟩
          rw [hown]
          exact (validId_ne_zero hid).symm
      · obtain ⟨hown, hentry⟩ := exec_foreign hne hid hev
        refine .inl ⟨id, t, rfl, hid, ?_, .inl hown, hentry⟩
        rw [hown]
        exact fun heq => hne heq.symm

/-! ### The history of the evidence -/

/-- A call is evidence for `id`: a foreign probe, a foreign beacon or a hit
report with an id that the station does not hold afterwards. -/
def evident (s : IrIdNegotiator) (c : Call) (id : UInt8) : Bool :=
  validId id && ((c.evidence s.mac).map Prod.fst == some id) && (s.exec c).1.id != id

/-- The real time of the last evidence for each id, after one more call: a
`begin` forgets it, and so does acquiring the id. -/
def hear (g : UInt8 → Option ℕ) (s : IrIdNegotiator) (T : ℕ) : Call → UInt8 → Option ℕ
  | .begin _ _ _ _ => fun _ => none
  | c => fun id =>
    if s.evident c id then some T
    else if s.id ≠ id ∧ (s.exec c).1.id = id then none
    else g id

/-- The same after calls with their real times. -/
def lastEvidence (s : IrIdNegotiator) (g : UInt8 → Option ℕ) :
    List (ℕ × Call) → UInt8 → Option ℕ
  | [] => g
  | e :: es => lastEvidence (s.exec e.2).1 (hear g s e.1 e.2) es

/-- The call receives the real time modulo 2^32. -/
def OnClock (e : ℕ × Call) : Prop := e.2 = .consumeIdChanged ∨ e.2.clock = UInt32.ofNat e.1

/-- The table is the history modulo 2^32. -/
structure Recorded (s : IrIdNegotiator) (g : UInt8 → Option ℕ) : Prop where
  entry : ∀ id, s.entry id = (g id).map UInt32.ofNat
  valid : ∀ id T₀, g id = some T₀ → validId id = true

variable {g : UInt8 → Option ℕ} {c : Call} {T : ℕ}

theorem hear_of_not_begin (hbegin : ∀ m p t b, c ≠ .begin m p t b) (id : UInt8) :
    hear g s T c id =
      if s.evident c id then some T
      else if s.id ≠ id ∧ (s.exec c).1.id = id then none
      else g id := by
  cases c with
  | begin m p t b => exact absurd rfl (hbegin m p t b)
  | _ => rfl

/-- An evidence in the history is either new or was there before. -/
theorem hear_cases {id : UInt8} {T₀ : ℕ} (h : hear g s T c id = some T₀) :
    T₀ = T ∧ validId id = true ∨ g id = some T₀ := by
  by_cases hbegin : ∃ m p t b, c = .begin m p t b
  · obtain ⟨m, p, t, b, rfl⟩ := hbegin
    exact nomatch h
  · rw [hear_of_not_begin (by simpa using hbegin)] at h
    split at h
    · rename_i hev
      left
      simp only [evident, Bool.and_eq_true] at hev
      exact ⟨(Option.some.inj h).symm, hev.1.1⟩
    · split at h
      · exact nomatch h
      · exact .inr h

/-- Evidence for `x` writes the entry of `x` in both. -/
theorem Recorded.exec_evidence (hr : Recorded s g) (hclock : OnClock (T, c)) {x : UInt8}
    {t : UInt32} (hev : c.evidence s.mac = some (x, t)) (hx : validId x = true)
    (hne : (s.exec c).1.id ≠ x) (hown : (s.exec c).1.id = s.id ∨ (s.exec c).1.id = 0)
    (hentry : (s.exec c).1.entry = Function.update s.entry x (some t)) (id : UInt8) :
    (s.exec c).1.entry id = (hear g s T c id).map UInt32.ofNat := by
  have ht : t = UInt32.ofNat T := by
    rw [evidence_clock hev]
    rcases hclock with hc | hc
    · have hc : c = .consumeIdChanged := hc
      simp [hc, Call.evidence] at hev
    · exact hc
  have hbegin : ∀ m p u b, c ≠ .begin m p u b := by
    rintro m p u b rfl
    simp [Call.evidence] at hev
  rw [hear_of_not_begin hbegin, hentry]
  by_cases hid : id = x
  · subst hid
    have hevident : s.evident c id = true := by simp [evident, hx, hev, hne]
    simp [hevident, ht]
  · have hevident : s.evident c id = false := by
      have hxid : ¬ x = id := fun heq => hid heq.symm
      simp [evident, hev, hxid]
    rw [Function.update_of_ne hid, hr.entry, if_neg (by simp [hevident])]
    split
    · -- only id 0 can come new, and it has no entry
      rename_i hacq
      have h0 : id = 0 := by
        rcases hown with hown | hown
        · exact absurd (hown.symm.trans hacq.2) hacq.1
        · exact hacq.2.symm.trans hown
      cases hg : g id with
      | none => rfl
      | some T₀ => exact absurd h0 (validId_ne_zero (hr.valid id T₀ hg))
    · rfl

/-- An acquired id loses its entry in both. -/
theorem Recorded.exec_acquired (hr : Recorded s g) (hev : c.evidence s.mac = none)
    (h0 : s.id = 0) (hid : (s.exec c).1.id ≠ 0)
    (hentry : (s.exec c).1.entry = Function.update s.entry (s.exec c).1.id none) (id : UInt8) :
    (s.exec c).1.entry id = (hear g s T c id).map UInt32.ofNat := by
  have hbegin : ∀ m p u b, c ≠ .begin m p u b := by
    rintro m p u b rfl
    exact hid rfl
  have hevident : s.evident c id = false := by simp [evident, hev]
  rw [hear_of_not_begin hbegin, hentry]
  by_cases hx : id = (s.exec c).1.id
  · have hacq : s.id ≠ id ∧ (s.exec c).1.id = id := ⟨by rw [h0, hx]; exact hid.symm, hx.symm⟩
    simp [hevident, hacq]
  · have hacq : ¬ (s.id ≠ id ∧ (s.exec c).1.id = id) := fun hacq => hx hacq.2.symm
    rw [Function.update_of_ne hx, hr.entry, if_neg (by simp [hevident]), if_neg hacq]

/-- Where the table stays, the history stays. -/
theorem Recorded.exec_stays (hr : Recorded s g)
    (hnone : ∀ x t, c.evidence s.mac = some (x, t) → validId x = true → (s.exec c).1.id = x)
    (hown : (s.exec c).1.id = s.id) (hentry : (s.exec c).1.entry = s.entry)
    (hbegin : ∀ m p t b, c ≠ .begin m p t b) (id : UInt8) :
    (s.exec c).1.entry id = (hear g s T c id).map UInt32.ofNat := by
  have hevident : s.evident c id = false := by
    rw [← Bool.not_eq_true, evident]
    simp only [Bool.and_eq_true, beq_iff_eq, Option.map_eq_some_iff, bne_iff_ne]
    rintro ⟨⟨hid, ⟨x, t⟩, hev, rfl⟩, hne⟩
    exact hne (hnone x t hev hid)
  have hacq : ¬ (s.id ≠ id ∧ (s.exec c).1.id = id) := by
    rw [hown]
    exact fun hacq => hacq.1 hacq.2
  rw [hear_of_not_begin hbegin, if_neg (by simp [hevident]), if_neg hacq, hentry, hr.entry]

/-- The step lemma. -/
theorem Recorded.exec (hr : Recorded s g) (h : s.Wf) (hclock : OnClock (T, c)) :
    Recorded (s.exec c).1 (hear g s T c) := by
  refine ⟨fun id => ?_, fun id T₀ h0 => ?_⟩
  · rcases entry_exec h c with ⟨m, p, t, b, rfl⟩ | ⟨x, t, hev, hx, hne, hown, hentry⟩ |
      ⟨hev, h0, hid, hentry⟩ | ⟨hnone, hown, hentry⟩
    · rfl
    · exact hr.exec_evidence hclock hev hx hne hown hentry id
    · exact hr.exec_acquired hev h0 hid hentry id
    · by_cases hbegin : ∃ m p t b, c = .begin m p t b
      · obtain ⟨m, p, t, b, rfl⟩ := hbegin
        rfl
      · exact hr.exec_stays hnone hown hentry (by simpa using hbegin) id
  · rcases hear_cases h0 with ⟨-, hid⟩ | h0
    · exact hid
    · exact hr.valid id T₀ h0

/-- The run lemma, with the times of all evidence in the past. -/
theorem Recorded.run (hr : Recorded s g) (h : s.Wf) {es : List (ℕ × Call)}
    (hclock : ∀ e ∈ es, OnClock e) (hpast : ∀ id T₀, g id = some T₀ → T₀ ≤ T)
    (hT : ∀ e ∈ es, e.1 ≤ T) :
    Recorded (s.run (es.map Prod.snd)) (lastEvidence s g es) ∧
      ∀ id T₀, lastEvidence s g es id = some T₀ → T₀ ≤ T := by
  induction es generalizing s g with
  | nil => exact ⟨hr, hpast⟩
  | cons e es ih =>
    refine ih (hr.exec h (hclock e List.mem_cons_self)) (h.exec e.2)
      (fun f hf => hclock f (List.mem_cons_of_mem _ hf)) ?_
      (fun f hf => hT f (List.mem_cons_of_mem _ hf))
    intro id T₀ h0
    rcases hear_cases h0 with ⟨rfl, -⟩ | h0
    · exact hT e List.mem_cons_self
    · exact hpast id T₀ h0

/-! ### Expiry -/

/-- The last evidence for the id is less than eight seconds old. -/
def Fresh (g : UInt8 → Option ℕ) (id : UInt8) (T : ℕ) : Prop :=
  ∃ T₀, g id = some T₀ ∧ T - T₀ < 8000

/-- The last evidence for the id is old, but counts again: the 32-bit
difference has started anew. -/
def Revived (g : UInt8 → Option ℕ) (id : UInt8) (T : ℕ) : Prop :=
  ∃ T₀, g id = some T₀ ∧ 2 ^ 32 ≤ T - T₀ ∧ (T - T₀) % 2 ^ 32 < 8000

theorem ofNat_sub_toNat {T₀ : ℕ} (hle : T₀ ≤ T) :
    (UInt32.ofNat T - UInt32.ofNat T₀).toNat = (T - T₀) % 2 ^ 32 := by
  rw [UInt32.toNat_sub, UInt32.toNat_ofNat', UInt32.toNat_ofNat']
  omega

/-- What `isOccupied` says of the history. -/
theorem Recorded.isOccupied_iff (hr : Recorded s g) (hpast : ∀ id T₀, g id = some T₀ → T₀ ≤ T)
    (id : UInt8) :
    s.isOccupied id (UInt32.ofNat T) = true ↔
      ∃ T₀, g id = some T₀ ∧ (T - T₀) % 2 ^ 32 < 8000 := by
  rw [isOccupied_iff_entry, hr.entry]
  constructor
  · rintro ⟨-, u, hu, hlt⟩
    obtain ⟨T₀, h0, rfl⟩ := Option.map_eq_some_iff.1 hu
    rw [UInt32.lt_iff_toNat_lt, ofNat_sub_toNat (hpast id T₀ h0)] at hlt
    exact ⟨T₀, h0, hlt⟩
  · rintro ⟨T₀, h0, hlt⟩
    refine ⟨hr.valid id T₀ h0, UInt32.ofNat T₀, by rw [h0]; rfl, ?_⟩
    rw [UInt32.lt_iff_toNat_lt, ofNat_sub_toNat (hpast id T₀ h0)]
    exact hlt

/-- Of an id that has not revived, `isOccupied` says what it should. -/
theorem Recorded.isOccupied_iff_fresh (hr : Recorded s g)
    (hpast : ∀ id T₀, g id = some T₀ → T₀ ≤ T) (id : UInt8) :
    (s.isOccupied id (UInt32.ofNat T) = true ↔ Fresh g id T) ↔ ¬ Revived g id T := by
  rw [hr.isOccupied_iff hpast]
  constructor
  · rintro h ⟨T₀, h0, hold, hlt⟩
    obtain ⟨T₁, h1, hfresh⟩ := h.1 ⟨T₀, h0, hlt⟩
    obtain rfl : T₀ = T₁ := Option.some.inj (h0.symm.trans h1)
    omega
  · intro h
    constructor
    · rintro ⟨T₀, h0, hlt⟩
      have hlow : T - T₀ < 2 ^ 32 := by
        by_contra hold
        exact h ⟨T₀, h0, not_lt.1 hold, hlt⟩
      exact ⟨T₀, h0, by omega⟩
    · rintro ⟨T₀, h0, hlt⟩
      exact ⟨T₀, h0, by omega⟩

/-! ### What the evidence decides -/

/-- The ids in the order in which a candidate is looked for. -/
def order (s : IrIdNegotiator) : List UInt8 :=
  (if s.preferred = 0 then [] else [s.preferred]) ++
    (List.range 15).map fun i =>
      UInt8.ofNat (((s.mac.bytes.getD 5 0).toNat % 15 + 1 - 1 + i) % 15 + 1)

theorem pickCandidate_eq_find (s : IrIdNegotiator) (t : UInt32) :
    s.pickCandidate t = (s.order.find? fun id => !s.isOccupied id t).getD 0 := by
  have hbyte : s.mac.bytes[5] = s.mac.bytes.getD 5 0 := by
    simp [Vector.getD]
  unfold pickCandidate order
  rw [hbyte]
  by_cases h0 : s.preferred = 0
  · simp [h0]
  · by_cases hocc : s.isOccupied s.preferred t = true
    · simp [h0, hocc]
    · simp [h0, hocc]

/-- The ids that were passed over are occupied. -/
theorem occupied_of_skipped {s : IrIdNegotiator} {t : UInt32} {id : UInt8}
    (hpick : s.pickCandidate t ≠ 0) (hid : id ∈ s.order.takeWhile (· ≠ s.pickCandidate t)) :
    s.isOccupied id t = true := by
  cases hfind : s.order.find? fun id => !s.isOccupied id t with
  | none =>
    rw [pickCandidate_eq_find, hfind] at hpick
    exact absurd rfl hpick
  | some x =>
    have hx : s.pickCandidate t = x := by rw [pickCandidate_eq_find, hfind, Option.getD_some]
    obtain ⟨hfree, front, back, horder, hskip⟩ := List.find?_eq_some_iff_append.1 hfind
    have hne : ∀ y ∈ front, y ≠ x := by
      rintro y hy rfl
      have hocc := hskip y hy
      rw [hfree] at hocc
      exact nomatch hocc
    rw [hx, horder, List.takeWhile_append_of_pos (by simpa using hne)] at hid
    simpa using hskip id (by simpa using hid)

/-- The call starts to probe an id. -/
def StartsProbing (s : IrIdNegotiator) (c : Call) : Prop :=
  (s.exec c).1.state = .probe ∧ ¬ (s.state = .probe ∧ s.candidate = (s.exec c).1.candidate)

/-- The call sends the station (back) to listening with id 0. -/
def FallsBack (s : IrIdNegotiator) (c : Call) : Prop :=
  (∀ m p t b, c ≠ .begin m p t b) ∧ (s.exec c).1.state = .listen ∧
    (s.state = .listen → (s.exec c).1.listenUntil ≠ s.listenUntil)

/-- Both are the work of `startProbe`. -/
theorem startProbe_of_change (h : s.Wf) (hc : StartsProbing s c ∨ FallsBack s c) :
    ∃ s₁ : IrIdNegotiator, s₁.PreferredOk ∧ s.exec c = s₁.startProbe c.clock := by
  have hrule := exec_rule h c
  have hpref := h.preferredOk
  unfold StartsProbing FallsBack at hc
  generalize s.exec c = r at hrule hc
  cases hrule with
  | begin m p t b =>
    rcases hc with ⟨hs, -⟩ | ⟨hbegin, -⟩
    · exact nomatch hs
    · exact absurd rfl (hbegin m p t b)
  | listenEnd t => exact ⟨s, hpref, rfl⟩
  | abort c t hev =>
    rw [evidence_clock hev]
    exact ⟨s.note s.candidate c.clock, by simpa [PreferredOk] using hpref, rfl⟩
  | yield src t => exact ⟨(s.note s.id t).setId 0, by simpa [PreferredOk] using hpref, rfl⟩
  | acquire t hs =>
    rw [becomeHeld_eq h hs] at hc
    simp at hc
  | reprobe t hs | rebeacon t hs | defend src t hs | counter src t hs =>
    simp [sendProbe, sendBeacon, hs] at hc
  | evidence | consume | ignore => simp at hc

/-- The entries, and all that the choice of a candidate looks at, outlast
`startProbe`. -/
theorem startProbe_choice (s : IrIdNegotiator) (t : UInt32) :
    (s.startProbe t).1.order = s.order ∧
      ∀ id u, (s.startProbe t).1.isOccupied id u = s.isOccupied id u := by
  unfold startProbe
  dsimp only
  split
  · exact ⟨rfl, fun _ _ => rfl⟩
  · exact ⟨rfl, fun _ _ => rfl⟩

/-- A candidate is chosen over ids that are occupied; if there is none, all
are. -/
theorem occupied_of_startProbe {s : IrIdNegotiator} (hp : s.PreferredOk) (t : UInt32) :
    let s' := (s.startProbe t).1
    (s'.state = .probe → ∀ id ∈ s'.order.takeWhile (· ≠ s'.candidate),
      s'.isOccupied id t = true) ∧
    (s'.state = .listen → ∀ id, validId id = true → s'.isOccupied id t = true) := by
  intro s'
  obtain ⟨horder, hocc⟩ := startProbe_choice s t
  simp only [s', horder, hocc]
  rcases pickCandidate_spec hp t with ⟨h0, hall⟩ | ⟨hv, -⟩
  · have hst : (s.startProbe t).1.state = .listen := by simp [startProbe, h0]
    exact ⟨fun hs => by simp [hst] at hs, fun _ => hall⟩
  · have hne := validId_ne_zero hv
    have hst : (s.startProbe t).1.state = .probe ∧
        (s.startProbe t).1.candidate = s.pickCandidate t := by
      simp [startProbe, hne, sendProbe]
    refine ⟨fun _ id hid => ?_, fun hs => by simp [hst.1] at hs⟩
    rw [hst.2] at hid
    exact occupied_of_skipped hne hid

/-! ### When evidence expires -/

/-- What the evidence should do at the real time `T`: occupy its id for eight
seconds, and only then turn a candidate down or a station away. -/
structure Expires (s : IrIdNegotiator) (g : UInt8 → Option ℕ) (T : ℕ) : Prop where
  occupied : ∀ id, s.isOccupied id (UInt32.ofNat T) = true ↔ Fresh g id T
  skipped : ∀ c, c.clock = UInt32.ofNat T → StartsProbing s c →
    ∀ id ∈ (s.exec c).1.order.takeWhile (· ≠ (s.exec c).1.candidate), Fresh (hear g s T c) id T
  fallback : ∀ c, c.clock = UInt32.ofNat T → FallsBack s c →
    ∀ id, validId id = true → Fresh (hear g s T c) id T

/-- **Expiry**, after a `begin` and any calls, at any later time: the evidence
does what it should exactly when no evidence has come back to life. -/
theorem expires_iff (s₀ : IrIdNegotiator) (m : Mac) (p : UInt8) (t : UInt32) (b : Bool)
    {es : List (ℕ × Call)} (hclock : ∀ e ∈ es, OnClock e) {T : ℕ} (hT : ∀ e ∈ es, e.1 ≤ T) :
    let s₁ := s₀.begin m p t b
    let g := s₁.lastEvidence (fun _ => none) es
    Expires (s₁.run (es.map Prod.snd)) g T ↔ ∀ id, ¬ Revived g id T := by
  intro s₁ g
  have hwf₁ : s₁.Wf := wf_begin s₀ m p t b
  have hwf := hwf₁.run (es.map Prod.snd)
  have hstart : Recorded s₁ fun _ => none := ⟨fun _ => rfl, fun _ _ h0 => nomatch h0⟩
  obtain ⟨hr, hpast⟩ := hstart.run hwf₁ hclock (fun _ _ h0 => nomatch h0) hT
  have hiff := hr.isOccupied_iff_fresh hpast
  constructor
  · exact fun h id => (hiff id).1 (h.occupied id)
  · intro hnone
    -- after one more call at `T`, no evidence has revived either
    have hafter : ∀ c, c.clock = UInt32.ofNat T → ∀ id,
        ((s₁.run (es.map Prod.snd)).exec c).1.isOccupied id (UInt32.ofNat T) = true →
          Fresh (hear g (s₁.run (es.map Prod.snd)) T c) id T := by
      intro c hc id
      have hr' := hr.exec hwf (T := T) (c := c) (.inr hc)
      have hpast' : ∀ id T₀, hear g (s₁.run (es.map Prod.snd)) T c id = some T₀ → T₀ ≤ T := by
        intro id T₀ h0
        rcases hear_cases h0 with ⟨rfl, -⟩ | h0
        · exact le_rfl
        · exact hpast id T₀ h0
      refine ((hr'.isOccupied_iff_fresh hpast' id).2 ?_).1
      rintro ⟨T₀, h0, hold, hlt⟩
      rcases hear_cases h0 with ⟨rfl, -⟩ | h0
      · omega
      · exact hnone id ⟨T₀, h0, hold, hlt⟩
    refine ⟨fun id => (hiff id).2 (hnone id), ?_, ?_⟩
    · intro c hc hs id hid
      obtain ⟨s₂, hp, heq⟩ := startProbe_of_change hwf (.inl hs)
      have hocc := (occupied_of_startProbe hp c.clock).1
      rw [← heq, hc] at hocc
      exact hafter c hc id (hocc hs.1 id hid)
    · intro c hc hs id hid
      obtain ⟨s₂, hp, heq⟩ := startProbe_of_change hwf (.inr hs)
      have hocc := (occupied_of_startProbe hp c.clock).2
      rw [← heq, hc] at hocc
      exact hafter c hc id (hocc hs.2.1 id hid)

/-- A station that holds id 4 and hears once of a holder of id 5. -/
def heardOnce : List (ℕ × Call) :=
  [(3000, .tick 3000), (3150, .tick 3150), (3300, .tick 3300), (3450, .tick 3450),
    (4000, .onHitReport 5 4000)]

/-- The evidence counts five seconds later, and not nine seconds later. -/
theorem expires_iff_heardOnce :
    let s₁ := ({} : IrIdNegotiator).begin ⟨#v[0x24, 0x6F, 0x28, 0, 0, 0x03]⟩ 0 0 true
    let s := s₁.run (heardOnce.map Prod.snd)
    let g := s₁.lastEvidence (fun _ => none) heardOnce
    (Expires s g 9000 ∧ s.isOccupied 5 9000 = true) ∧
      Expires s g 13000 ∧ s.isOccupied 5 13000 = false := by
  intro s₁ s g
  have hexpires : ∀ T, 4000 ≤ T → T < 2 ^ 32 → Expires s g T := by
    intro T hlate hT
    refine (expires_iff {} _ 0 0 true (by simp [heardOnce, OnClock, Call.clock]) ?_).2 ?_
    · intro e he
      have hlast : ∀ e ∈ heardOnce, e.1 ≤ 4000 := by decide
      exact (hlast e he).trans hlate
    · rintro id ⟨T₀, -, hold, -⟩
      omega
  exact ⟨⟨hexpires 9000 (by decide) (by decide), by decide +kernel⟩,
    hexpires 13000 (by decide) (by decide), by decide +kernel⟩

/-- Seven weeks later it has to give up id 4, and takes 6 because of it. -/
theorem evidence_revives :
    let s₁ := ({} : IrIdNegotiator).begin ⟨#v[0x24, 0x6F, 0x28, 0, 0, 0x03]⟩ 0 0 true
    let s := s₁.run (heardOnce.map Prod.snd)
    ¬ Expires s (s₁.lastEvidence (fun _ => none) heardOnce) (2 ^ 32 + 5000) ∧
      s.isOccupied 5 (UInt32.ofNat (2 ^ 32 + 5000)) = true ∧
      (s.exec (.onBeacon ⟨#v[0x24, 0x6F, 0x28, 0, 0, 0x02]⟩ 4
        (UInt32.ofNat (2 ^ 32 + 5000)))).1.candidate = 6 := by
  intro s₁ s
  have hocc : s.isOccupied 5 (UInt32.ofNat (2 ^ 32 + 5000)) = true := by decide +kernel
  refine ⟨fun h => ?_, hocc, by decide +kernel⟩
  obtain ⟨T₀, h0, hlt⟩ := (h.occupied 5).1 hocc
  have hlast : s₁.lastEvidence (fun _ => none) heardOnce 5 = some 4000 := by decide +kernel
  obtain rfl : 4000 = T₀ := Option.some.inj (hlast.symm.trans h0)
  omega

end IrIdNegotiator

end InfinitagNow
