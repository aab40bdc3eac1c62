/-
InfinitagNow/LastHeldId.lean

Does a station return to the id it held last (`src/IrIdNegotiator.cpp`)?

The first choice of `pickCandidate` is "last held id (NVS)", but the object
knows only the one that `begin` was given: an id acquired later is handed to
the caller, who persists it, and not remembered here.  `lastHeld` is the id most
recently held in a run.  A probing starts when one is due and some id is free
(`startsProbing_iff`), with the id the rule names (`starts_chosen`); whether
this is the one last held (`ReturnsAt`) depends on the preference of the boot
(`Fits`).
-/
import InfinitagNow.CandidateSearch
import InfinitagNow.EvidenceExpiry

namespace InfinitagNow

namespace IrIdNegotiator

/-! ### The id most recently held -/

/-- After one more call; a `begin` starts a new run. -/
def heldAfter (s : IrIdNegotiator) (last : Option UInt8) : Call → Option UInt8
  | .begin _ _ _ _ => none
  | c => if (s.exec c).1.state = .held then some (s.exec c).1.id else last

/-- After some calls. -/
def lastHeld (s : IrIdNegotiator) (last : Option UInt8) : List Call → Option UInt8
  | [] => last
  | c :: cs => lastHeld (s.exec c).1 (s.heldAfter last c) cs

/-- The id to return to: the one last held, before there is one a valid
`preferredId`. -/
def remembered (s : IrIdNegotiator) (last : Option UInt8) : Option UInt8 :=
  last.or (if validId s.preferred then some s.preferred else none)

variable {s : IrIdNegotiator} {last : Option UInt8} {c : Call}

theorem validId_heldAfter (h : s.Wf) (hlast : ∀ id ∈ last, validId id = true) :
    ∀ id ∈ s.heldAfter last c, validId id = true := by
  intro id hid
  unfold heldAfter at hid
  split at hid
  · exact nomatch hid
  · split at hid
    · rename_i hheld
      obtain rfl := Option.some.inj hid
      exact (h.exec c).validId_id hheld
    · exact hlast id hid

/-- Only ids are held. -/
theorem validId_lastHeld (h : s.Wf) (hlast : ∀ id ∈ last, validId id = true) (cs : List Call) :
    ∀ id ∈ s.lastHeld last cs, validId id = true := by
  induction cs generalizing s last with
  | nil => exact hlast
  | cons c cs ih => exact ih (h.exec c) (validId_heldAfter h hlast)

theorem validId_remembered (hlast : ∀ id ∈ last, validId id = true) :
    ∀ id ∈ s.remembered last, validId id = true := by
  intro id hid
  rw [remembered] at hid
  rcases Option.or_eq_some_iff.1 hid with hid | ⟨-, hid⟩
  · exact hlast id hid
  · split at hid
    · rename_i hv
      obtain rfl := Option.some.inj hid
      exact hv
    · exact nomatch hid

/-! ### Where a probing starts -/

instance : Decidable (StartsProbing s c) := inferInstanceAs (Decidable (_ ∧ _))

/-- Something is to be done about a candidate: the one probed is opposed, the id
held is lost to a smaller address, or the listening is over. -/
def Due (s : IrIdNegotiator) (c : Call) : Prop :=
  s.state = .probe ∧ c.opposes s.mac s.candidate ∨
    (s.state = .held ∧ ∃ src t, c = .onBeacon src s.id t ∧ src.value < s.mac.value) ∨
      s.state = .listen ∧ ∃ t, c = .tick t ∧ 0 ≤ (t - s.listenUntil).toInt32

/-- The table with the evidence the call brings. -/
def heard (s : IrIdNegotiator) (c : Call) : IrIdNegotiator :=
  match c.evidence s.mac with
  | some (id, t) => s.note id t
  | none => s

theorem heard_of_evidence {id : UInt8} {t : UInt32} (hev : c.evidence s.mac = some (id, t)) :
    s.heard c = s.note id t := by
  rw [heard, hev]

theorem heard_preferred (s : IrIdNegotiator) (c : Call) :
    (s.heard c).preferred = s.preferred ∧ (s.heard c).mac = s.mac := by
  rw [heard]
  split
  · exact ⟨note_preferred s _ _, note_mac s _ _⟩
  · exact ⟨rfl, rfl⟩

/-- What opposes a candidate is evidence for it. -/
theorem evidence_of_opposes {m : Mac} {id : UInt8} (hopp : c.opposes m id) :
    c.evidence m = some (id, c.clock) := by
  cases c with
  | onProbe src x u =>
    obtain ⟨rfl, hlt⟩ := hopp
    simp [Call.evidence, Call.clock, ne_of_value_lt hlt]
  | onBeacon src x u =>
    obtain ⟨rfl, hsrc⟩ := hopp
    simp [Call.evidence, Call.clock, hsrc]
  | onHitReport x u =>
    obtain rfl : x = id := hopp
    rfl
  | begin | tick | consumeIdChanged => exact hopp.elim

/-- No other call starts a probing. -/
theorem due_of_starts (h : s.Wf) (hstart : StartsProbing s c) : Due s c := by
  obtain ⟨hprobe, hnew⟩ := hstart
  have hrule := exec_rule h c
  generalize s.exec c = r at hrule hprobe hnew
  cases hrule with
  | abort c t hev hs hopp => exact .inl ⟨hs, hopp⟩
  | yield src t hs hlt => exact .inr (.inl ⟨hs, src, t, rfl, hlt⟩)
  | listenEnd t hs hdue => exact .inr (.inr ⟨hs, t, rfl, hdue⟩)
  | begin m p t b => simp [IrIdNegotiator.begin] at hprobe
  | consume | ignore => exact absurd ⟨hprobe, rfl⟩ hnew
  | reprobe t hs => exact absurd ⟨hs, rfl⟩ hnew
  | acquire t hs => simp [becomeHeld_eq h hs] at hprobe
  | rebeacon t hs | defend src t hs | counter src t hs => simp [sendBeacon, hs] at hprobe
  | evidence c id t =>
    exact absurd ⟨by simpa using hprobe, (note_candidate s id t).symm⟩ hnew

/-- When it is due, the code goes through `startProbe`, with the evidence noted. -/
theorem exec_of_due (h : s.Wf) (hdue : Due s c) :
    ∃ sp : IrIdNegotiator, s.exec c = sp.startProbe c.clock ∧ sp.preferred = s.preferred ∧
      sp.mac = s.mac ∧ sp.isOccupied = (s.heard c).isOccupied := by
  rcases hdue with ⟨hs, hopp⟩ | ⟨hs, src, t, rfl, hlt⟩ | ⟨hs, t, rfl, hdue⟩
  · have hev := evidence_of_opposes hopp
    refine ⟨s.note s.candidate c.clock, ?_, note_preferred s _ _, note_mac s _ _, ?_⟩
    · have hrule := exec_rule h c
      generalize s.exec c = r at hrule
      cases hrule with
      | abort c t hev' => rw [evidence_clock hev']
      | evidence c id t hev' hid hne hno | ignore c hbegin hno => exact absurd hopp (hno hs)
      | begin | consume | listenEnd | reprobe | acquire | rebeacon => exact hopp.elim
      | defend src t hs' | yield src t hs' | counter src t hs' =>
        rw [hs] at hs'
        exact nomatch hs'
    · rw [heard_of_evidence hev]
  · have hsrc := ne_of_value_lt hlt
    have hev : (Call.onBeacon src s.id t).evidence s.mac = some (s.id, t) := by
      simp [Call.evidence, hsrc]
    have hskip : ¬ (validId s.id = false ∨ macCmp src s.mac = .eq) := fun hskip =>
      hsrc (own_of_skip hskip (h.validId_id hs))
    refine ⟨(s.note s.id t).setId 0, ?_, by simp, by simp, ?_⟩
    · simp [exec, onBeacon, hskip, hs, (otherWins_iff s src).2 hlt, Call.clock]
    · rw [heard_of_evidence hev]
      funext id u
      exact isOccupied_setId _ 0 id u
  · refine ⟨s, ?_, rfl, rfl, rfl⟩
    show s.tick t = s.startProbe t
    rw [tick, hs]
    exact if_pos hdue

theorem Chosen.of_eq {s' : IrIdNegotiator} {t : UInt32} {id : UInt8} (h : s.Chosen t id)
    (hpref : s'.preferred = s.preferred) (hmac : s'.mac = s.mac)
    (hocc : s'.isOccupied = s.isOccupied) : s'.Chosen t id := by
  have hfree : s'.PreferredFree t ↔ s.PreferredFree t := by
    rw [PreferredFree, PreferredFree, hpref, hocc]
  refine ⟨h.valid, by rw [hocc]; exact h.free, fun hp => ?_, fun hp => ?_⟩
  · rw [hpref]
    exact h.preferred (hfree.1 hp)
  · rw [hocc, hmac]
    exact h.first (mt hfree.2 hp)

/-- Then the rule names the candidate, or nothing is free. -/
theorem due_chosen (h : s.Wf) (hdue : Due s c) :
    ((s.exec c).1.state = .probe ∧ (s.heard c).Chosen c.clock (s.exec c).1.candidate) ∨
      (s.exec c).1.state = .listen ∧
        ∀ id, validId id = true → (s.heard c).isOccupied id c.clock = true := by
  obtain ⟨sp, heq, hpref, hmac, hocc⟩ := exec_of_due h hdue
  obtain ⟨hpref', hmac'⟩ := heard_preferred s c
  have hp : sp.PreferredOk := by
    rw [PreferredOk, hpref]
    exact h.preferredOk
  rw [heq, ← hocc]
  rcases pickCandidate_chosen hp c.clock with hchosen | ⟨h0, hall⟩
  · rw [startProbe_of_chosen hchosen]
    have hsame := hchosen.of_eq (hpref'.trans hpref.symm) (hmac'.trans hmac.symm) hocc.symm
    exact .inl ⟨rfl, hsame⟩
  · rw [startProbe_of_full h0]
    exact .inr ⟨rfl, hall⟩

/-- Every probing starts with the id the rule names. -/
theorem starts_chosen (h : s.Wf) (hstart : StartsProbing s c) :
    (s.heard c).Chosen c.clock (s.exec c).1.candidate := by
  rcases due_chosen h (due_of_starts h hstart) with ⟨-, hchosen⟩ | ⟨hlisten, -⟩
  · exact hchosen
  · have hprobe := hstart.1
    rw [hlisten] at hprobe
    exact nomatch hprobe

/-- A probing starts when it is due and an id is free. -/
theorem startsProbing_iff (h : s.Wf) :
    StartsProbing s c ↔
      Due s c ∧ ∃ id, validId id = true ∧ (s.heard c).isOccupied id c.clock = false := by
  constructor
  · intro hstart
    have hchosen := starts_chosen h hstart
    exact ⟨due_of_starts h hstart, _, hchosen.valid, hchosen.free⟩
  · rintro ⟨hdue, id, hid, hfree⟩
    rcases due_chosen h hdue with ⟨hprobe, hchosen⟩ | ⟨-, hall⟩
    · refine ⟨hprobe, ?_⟩
      rintro ⟨hs, hsame⟩
      rcases hdue with ⟨-, hopp⟩ | ⟨hs', -⟩ | ⟨hs', -⟩
      · -- the candidate that was opposed is taken now
        have hocc := isOccupied_note_self (s := s) (t := c.clock) (h.validId_candidate hs)
        rw [← heard_of_evidence (evidence_of_opposes hopp), hsame, hchosen.free] at hocc
        exact Bool.noConfusion hocc
      · rw [hs] at hs'
        exact nomatch hs'
      · rw [hs] at hs'
        exact nomatch hs'
    · rw [hall id hid] at hfree
      exact Bool.noConfusion hfree

/-! ### Returning -/

/-- If a probing starts and the id remembered is free, it is the candidate. -/
def ReturnsAt (s : IrIdNegotiator) (last : Option UInt8) (c : Call) : Prop :=
  StartsProbing s c → ∀ id ∈ s.remembered last, (s.heard c).isOccupied id c.clock = false →
    (s.exec c).1.candidate = id

/-- The rule with the preference of the boot names the same id: it is that
preference, or the preference is not to be had and no free id lies before the
one remembered. -/
def Fits (s : IrIdNegotiator) (last : Option UInt8) (c : Call) : Prop :=
  Due s c → ∀ id ∈ s.remembered last, (s.heard c).isOccupied id c.clock = false →
    id = s.preferred ∨ ¬ (s.heard c).PreferredFree c.clock ∧
      ∀ id', validId id' = true → (s.heard c).isOccupied id' c.clock = false →
        upwards s.mac id ≤ upwards s.mac id'

theorem returnsAt_iff (h : s.Wf) (hlast : ∀ id ∈ last, validId id = true) (c : Call) :
    ReturnsAt s last c ↔ Fits s last c := by
  have hvalid := validId_remembered (s := s) hlast
  have hiff : ∀ id ∈ s.remembered last, (s.heard c).isOccupied id c.clock = false →
      StartsProbing s c → ((s.exec c).1.candidate = id ↔ id = s.preferred ∨
        ¬ (s.heard c).PreferredFree c.clock ∧ ∀ id', validId id' = true →
          (s.heard c).isOccupied id' c.clock = false → upwards s.mac id ≤ upwards s.mac id') := by
    intro id hid hfree hstart
    have hsame := (starts_chosen h hstart).eq_iff (hvalid id hid) hfree
    rwa [(heard_preferred s c).1, (heard_preferred s c).2] at hsame
  constructor
  · intro hreturns hdue id hid hfree
    have hstart := (startsProbing_iff h).2 ⟨hdue, id, hvalid id hid, hfree⟩
    exact (hiff id hid hfree hstart).1 (hreturns hstart id hid hfree)
  · intro hfits hstart id hid hfree
    exact (hiff id hid hfree hstart).2 (hfits (due_of_starts h hstart) id hid hfree)

/-- At every call of a run. -/
def Returns (s₁ : IrIdNegotiator) (cs : List Call) : Prop :=
  ∀ pre c post, cs = pre ++ c :: post → ReturnsAt (s₁.run pre) (s₁.lastHeld none pre) c

/-- **Returning to the id last held**: in every run, a station does at every
start of a probing exactly if the preference of its last `begin` leads there. -/
theorem returns_iff (s₀ : IrIdNegotiator) (m : Mac) (preferredId : UInt8) (t : UInt32) (b : Bool)
    (cs : List Call) :
    let s₁ := s₀.begin m preferredId t b
    Returns s₁ cs ↔
      ∀ pre c post, cs = pre ++ c :: post → Fits (s₁.run pre) (s₁.lastHeld none pre) c := by
  intro s₁
  have hwf : s₁.Wf := wf_begin s₀ m preferredId t b
  refine forall_congr' fun pre => forall₂_congr fun c post => forall_congr' fun _ => ?_
  exact returnsAt_iff (hwf.run pre) (validId_lastHeld hwf (by simp) pre) c

/-- Id 9 is preferred but taken at first, so that the station holds 4; then all
ids are taken, it yields, and half a minute later all are free. -/
def yielded : List Call :=
  [Call.onHitReport 9 2900, Call.tick 3000, Call.tick 3150, Call.tick 3300, Call.tick 3450] ++
    [1, 2, 3, 5, 6, 7, 8, 9, 10, 11, 12, 13, 14, 15].map (fun id => Call.onHitReport id 10000) ++
      [Call.onBeacon ⟨#v[0x24, 0x6F, 0x28, 0, 0, 0x02]⟩ 4 10000]

/-- It does not return to 4. -/
theorem preference_is_frozen :
    let s₁ := ({} : IrIdNegotiator).begin ⟨#v[0x24, 0x6F, 0x28, 0, 0, 0x03]⟩ 9 0 true
    ¬ Returns s₁ (yielded ++ [.tick 40000]) ∧ s₁.lastHeld none yielded = some 4 ∧
      ((s₁.run yielded).exec (.tick 40000)).1.candidate = 9 := by
  intro s₁
  have hlast : s₁.lastHeld none yielded = some 4 := by decide +kernel
  have hcand : ((s₁.run yielded).exec (.tick 40000)).1.candidate = 9 := by decide +kernel
  refine ⟨fun h => ?_, hlast, hcand⟩
  have hreturn := h yielded (.tick 40000) [] rfl (by decide +kernel) 4
    (by rw [hlast]; rfl) (by decide +kernel)
  rw [hcand] at hreturn
  exact absurd hreturn (by decide)

end IrIdNegotiator

end InfinitagNow
