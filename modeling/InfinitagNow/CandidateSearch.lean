/-
InfinitagNow/CandidateSearch.lean

Which id a station probes (`pickCandidate`, `startProbe` in
`src/IrIdNegotiator.cpp`).

The rule has three parts: the preferred id, the one derived from the MAC, then
upwards from there, cyclically through 1 to 15.  The last two are one scan, and
the place of an id in it is its distance from the MAC-derived one (`upwards`).
`Chosen` is the rule without the scan; `pickCandidate_chosen` says the scan
follows it and fails only when there is nothing to choose.
-/
import InfinitagNow.IrIdNegotiator

namespace InfinitagNow

/-! ### The cycle of the ids -/

/-- `(MAC[5] mod 15) + 1` -/
def baseId (m : Mac) : ℕ := (m.bytes.get 5).toNat % 15 + 1

/-- How far an id is above the MAC-derived one, cyclically. -/
def upwards (m : Mac) (id : UInt8) : ℕ := (id.toNat + 15 - baseId m) % 15

/-- The id at a distance from the MAC-derived one. -/
def idAt (m : Mac) (i : ℕ) : UInt8 := UInt8.ofNat ((baseId m - 1 + i) % 15 + 1)

variable {m : Mac} {id : UInt8}

theorem baseId_le (m : Mac) : 1 ≤ baseId m ∧ baseId m ≤ 15 := by
  rw [baseId]
  omega

theorem validId_toNat (h : validId id = true) : 1 ≤ id.toNat ∧ id.toNat ≤ 15 := by
  simpa [validId, UInt8.le_iff_toNat_le] using h

theorem upwards_lt (m : Mac) (id : UInt8) : upwards m id < 15 := Nat.mod_lt _ (by decide)

theorem idAt_toNat (m : Mac) (i : ℕ) : (idAt m i).toNat = (baseId m - 1 + i) % 15 + 1 := by
  rw [idAt, UInt8.toNat_ofNat']
  omega

theorem validId_idAt (m : Mac) (i : ℕ) : validId (idAt m i) = true := by
  have hval := idAt_toNat m i
  simp only [validId, UInt8.le_iff_toNat_le, hval]
  simp
  omega

theorem upwards_idAt {i : ℕ} (hi : i < 15) : upwards m (idAt m i) = i := by
  have hbase := baseId_le m
  rw [upwards, idAt_toNat]
  omega

theorem idAt_upwards (h : validId id = true) : idAt m (upwards m id) = id := by
  have hbase := baseId_le m
  have hid := validId_toNat h
  rw [← UInt8.toNat_inj, idAt_toNat, upwards]
  omega

/-- Ids at the same distance are the same. -/
theorem upwards_inj {id' : UInt8} (h : validId id = true) (h' : validId id' = true)
    (heq : upwards m id = upwards m id') : id = id' := by
  rw [← idAt_upwards (m := m) h, heq, idAt_upwards h']

namespace IrIdNegotiator

variable {s : IrIdNegotiator} {t : UInt32} {c : UInt8}

/-! ### The rule -/

/-- The preferred id may be taken. -/
def PreferredFree (s : IrIdNegotiator) (t : UInt32) : Prop :=
  validId s.preferred = true ∧ s.isOccupied s.preferred t = false

/-- The id the rule names at `t`: the preferred one if it is free, else the
first free one upwards. -/
structure Chosen (s : IrIdNegotiator) (t : UInt32) (c : UInt8) : Prop where
  valid : validId c = true
  free : s.isOccupied c t = false
  preferred : s.PreferredFree t → c = s.preferred
  first : ¬ s.PreferredFree t → ∀ id, validId id = true → s.isOccupied id t = false →
    upwards s.mac c ≤ upwards s.mac id

theorem pickCandidate_preferred (h : s.PreferredFree t) : s.pickCandidate t = s.preferred :=
  if_pos ⟨validId_ne_zero h.1, h.2⟩

/-- Otherwise the scan decides. -/
theorem pickCandidate_scan (hp : s.PreferredOk) (h : ¬ s.PreferredFree t) :
    s.pickCandidate t =
      (((List.range 15).find? fun i => !s.isOccupied (idAt s.mac i) t).map
        (idAt s.mac)).getD 0 := by
  have hskip : ¬ (s.preferred ≠ 0 ∧ s.isOccupied s.preferred t = false) :=
    fun hc => h ⟨hp hc.1, hc.2⟩
  have hmap : ((List.range 15).map (idAt s.mac)).find? (fun id => !s.isOccupied id t) =
      ((List.range 15).find? fun i => !s.isOccupied (idAt s.mac i) t).map (idAt s.mac) :=
    List.find?_map
  show (if s.preferred ≠ 0 ∧ s.isOccupied s.preferred t = false then s.preferred
    else (((List.range 15).map (idAt s.mac)).find? fun id => !s.isOccupied id t).getD 0) = _
  rw [if_neg hskip, hmap]

/-- **The search is sound and complete**: it names the id of the rule, or all
ids are taken. -/
theorem pickCandidate_chosen (hp : s.PreferredOk) (t : UInt32) :
    s.Chosen t (s.pickCandidate t) ∨
      s.pickCandidate t = 0 ∧ ∀ id, validId id = true → s.isOccupied id t = true := by
  by_cases hpref : s.PreferredFree t
  · left
    rw [pickCandidate_preferred hpref]
    exact ⟨hpref.1, hpref.2, fun _ => rfl, fun h => absurd hpref h⟩
  · rw [pickCandidate_scan hp hpref]
    cases hfind : (List.range 15).find? fun i => !s.isOccupied (idAt s.mac i) t with
    | none =>
      right
      refine ⟨rfl, fun id hid => ?_⟩
      have hall := List.find?_range_eq_none.1 hfind (upwards s.mac id) (upwards_lt _ _)
      simpa [idAt_upwards hid] using hall
    | some i =>
      left
      obtain ⟨hfree, hmem, hbefore⟩ := List.find?_range_eq_some.1 hfind
      refine ⟨validId_idAt _ _, by simpa using hfree, fun h => absurd h hpref, ?_⟩
      -- an id nearer to the base was passed over because it is taken
      intro _ id hid hidfree
      show upwards s.mac (idAt s.mac i) ≤ _
      rw [upwards_idAt (List.mem_range.1 hmem)]
      by_contra hlt
      have hocc := hbefore (upwards s.mac id) (not_le.1 hlt)
      rw [idAt_upwards hid, hidfree] at hocc
      exact absurd hocc (by decide)

/-- Where the rule names an id, it names one only. -/
theorem Chosen.eq_iff (h : s.Chosen t c) {id : UInt8} (hid : validId id = true)
    (hfree : s.isOccupied id t = false) :
    c = id ↔ id = s.preferred ∨ ¬ s.PreferredFree t ∧
      ∀ id', validId id' = true → s.isOccupied id' t = false →
        upwards s.mac id ≤ upwards s.mac id' := by
  constructor
  · rintro rfl
    by_cases hpref : s.PreferredFree t
    · exact .inl (h.preferred hpref)
    · exact .inr ⟨hpref, h.first hpref⟩
  · rintro (rfl | ⟨hpref, hfirst⟩)
    · exact h.preferred ⟨hid, hfree⟩
    · exact upwards_inj h.valid hid
        (le_antisymm (h.first hpref id hid hfree) (hfirst c h.valid h.free))

/-! ### Starting to probe -/

theorem startProbe_of_chosen (h : s.Chosen t (s.pickCandidate t)) :
    s.startProbe t =
      ({ s with
          state := .probe
          candidate := s.pickCandidate t
          probesSent := 1
          lastProbeMs := t },
        s.emit .probe (s.pickCandidate t) none) := by
  simp [startProbe, validId_ne_zero h.valid, sendProbe, emit]

theorem startProbe_of_full (h : s.pickCandidate t = 0) :
    s.startProbe t =
      ({ s with state := .listen, candidate := 0, listenUntil := t + iridTRetryMs }, []) := by
  simp [startProbe, h]

/-- An id with evidence of this very moment is not probed. -/
theorem startProbe_candidate_ne (hp : s.PreferredOk) (hc : validId c = true)
    (hseen : s.seen c = true) (hms : s.seenMs c = t) : (s.startProbe t).1.candidate ≠ c := by
  rcases pickCandidate_chosen hp t with h | ⟨h0, -⟩
  · rw [startProbe_of_chosen h]
    rintro rfl
    have hocc : s.isOccupied (s.pickCandidate t) t = true := by
      simp [isOccupied, hc, hseen, hms, elapsed_self t (show 0 < iridTExpireMs by decide)]
    rw [h.free] at hocc
    exact absurd hocc (by decide)
  · rw [startProbe_of_full h0]
    exact (validId_ne_zero hc).symm

/-- **The candidate search**, for any object with the preference that `begin`
makes of `preferredId`: back to listening, silently and for 30 s, exactly when
all ids are taken; otherwise one probe for the id the rule names, which is not
the old candidate if there is evidence for that one of the same moment. -/
theorem candidate_search (s₀ : IrIdNegotiator) (preferredId : UInt8) (t : UInt32) :
    let s := { s₀ with preferred := if validId preferredId then preferredId else 0 }
    (s.startProbe t =
        ({ s with state := .listen, candidate := 0, listenUntil := t + 30000 }, []) ↔
      ∀ id, validId id = true → s.isOccupied id t = true) ∧
    ((∃ id, validId id = true ∧ s.isOccupied id t = false) →
      ∃ c, validId c = true ∧ s.isOccupied c t = false ∧
        s.startProbe t =
          ({ s with state := .probe, candidate := c, probesSent := 1, lastProbeMs := t },
            if s.send then [⟨.probe, c, none⟩] else []) ∧
        (validId preferredId = true → s.isOccupied preferredId t = false → c = preferredId) ∧
        (¬ (validId preferredId = true ∧ s.isOccupied preferredId t = false) →
          ∀ id, validId id = true → s.isOccupied id t = false →
            upwards s.mac c ≤ upwards s.mac id)) ∧
    (validId s.candidate = true → s.seen s.candidate = true → s.seenMs s.candidate = t →
      (s.startProbe t).1.candidate ≠ s.candidate) := by
  intro s
  have hp : s.PreferredOk := by
    intro hne
    by_cases hv : validId preferredId = true
    · show validId (if validId preferredId then preferredId else 0) = true
      rwa [if_pos hv]
    · exact absurd (if_neg hv) hne
  -- the preference is the one passed to `begin`, unless that is no id
  have hpref : s.PreferredFree t ↔
      validId preferredId = true ∧ s.isOccupied preferredId t = false := by
    by_cases hv : validId preferredId = true
    · have heq : s.preferred = preferredId := if_pos hv
      rw [PreferredFree, heq]
    · have heq : s.preferred = 0 := if_neg hv
      have hzero : validId 0 = false := by decide
      simp [PreferredFree, heq, hv, hzero]
  have hcases := pickCandidate_chosen hp t
  refine ⟨⟨fun heq => ?_, fun hall => ?_⟩, ?_, startProbe_candidate_ne hp⟩
  · rcases hcases with h | ⟨-, hall⟩
    · rw [startProbe_of_chosen h] at heq
      exact absurd (congrArg (fun r : IrIdNegotiator × List Tx => r.1.state) heq) (by simp)
    · exact hall
  · rcases hcases with h | ⟨h0, -⟩
    · exact absurd ((hall _ h.valid).symm.trans h.free) (by decide)
    · exact startProbe_of_full h0
  · rintro ⟨id, hid, hfree⟩
    rcases hcases with h | ⟨-, hall⟩
    · refine ⟨s.pickCandidate t, h.valid, h.free, startProbe_of_chosen h, fun hv hf => ?_, ?_⟩
      · rw [h.preferred (hpref.2 ⟨hv, hf⟩)]
        exact if_pos hv
      · exact fun hno => h.first (mt hpref.1 hno)
    · rw [hall id hid] at hfree
      exact absurd hfree (by decide)

end IrIdNegotiator

end InfinitagNow
