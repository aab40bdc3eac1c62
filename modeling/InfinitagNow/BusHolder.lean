/-
InfinitagNow/BusHolder.lean

On a lossless bus a holder is never displaced.

Stations boot, reboot, tick and receive hit reports one event at a time; after
each event everything transmitted is delivered, in any order, before the next
event (`Lossless`).  The invariant `Calm` says

* held ids are distinct;
* a station that probes a held id is already being told: its probe is on its
  way to the holder, or a beacon of the holder is on its way to it;
* every beacon in flight comes from a station that holds its id.

An id is only acquired by a tick, that is with nothing in flight, and then the
second clause says that nobody else holds it.
-/
import InfinitagNow.StationBus

namespace InfinitagNow

namespace IrIdNegotiator

variable {s : IrIdNegotiator} {c : Call}

/-- A holder that meets no smaller holder of its id stays. -/
theorem held_stays (h : s.Wf) (hs : s.state = .held) (hc : ∀ m p t b, c ≠ .begin m p t b)
    (hno : ∀ src t, src.value < s.mac.value → c ≠ .onBeacon src s.id t) :
    (s.exec c).1.state = .held ∧ (s.exec c).1.id = s.id := by
  have hrule := exec_rule h c
  generalize s.exec c = r at hrule
  cases hrule with
  | begin m p t b => exact absurd rfl (hc m p t b)
  | listenEnd t hst => simp [hs] at hst
  | reprobe t hst => simp [hs] at hst
  | acquire t hst => simp [hs] at hst
  | abort c t hev hst => simp [hs] at hst
  | yield src t hst hlt => exact absurd rfl (hno src t hlt)
  | evidence => simp [hs]
  | _ => exact ⟨hs, rfl⟩

/-- An id is acquired by a tick only, from probing it. -/
theorem held_origin (h : s.Wf) (hs : (s.exec c).1.state = .held) :
    s.state = .held ∧ (s.exec c).1.id = s.id ∨
      s.state = .probe ∧ (s.exec c).1.id = s.candidate ∧ ∃ t, c = .tick t := by
  have hrule := exec_rule h c
  have hpref := h.preferredOk
  generalize s.exec c = r at hrule hs
  cases hrule with
  | begin m p t b => simp [IrIdNegotiator.begin] at hs
  | listenEnd t => exact absurd hs (startProbe_not_held hpref t)
  | reprobe t hst => simp [sendProbe, hst] at hs
  | acquire t hst => exact .inr ⟨hst, by simp [becomeHeld_eq h hst], t, rfl⟩
  | abort c t => exact absurd hs (startProbe_not_held (by simpa [PreferredOk] using hpref) t)
  | yield src t => exact absurd hs (startProbe_not_held (by simpa [PreferredOk] using hpref) t)
  | evidence => exact .inl ⟨by simpa using hs, by simp⟩
  | _ => exact .inl ⟨hs, rfl⟩

end IrIdNegotiator

/-- A delivery, as opposed to an event at a station. -/
def Act.isDelivery {n : ℕ} : Act n → Bool
  | .deliver _ _ => true
  | _ => false

namespace Bus

variable {n : ℕ} {mac : Fin n → Mac}

/-! ### Lossless runs -/

variable (mac) in
/-- Every event of the schedule finds nothing in flight. -/
def Lossless (b : Bus n) : List (Act n) → Prop
  | [] => True
  | a :: as => (a.isDelivery = false → b.flight = []) ∧ Lossless (b.step mac a) as

instance decidableLossless : ∀ (b : Bus n) (as : List (Act n)), Decidable (Lossless mac b as)
  | _, [] => inferInstanceAs (Decidable True)
  | b, a :: as =>
    have := decidableLossless (b.step mac a) as
    inferInstanceAs (Decidable ((a.isDelivery = false → b.flight = []) ∧ _))

theorem lossless_append {b : Bus n} {as as' : List (Act n)} :
    Lossless mac b (as ++ as') ↔ Lossless mac b as ∧ Lossless mac (b.run mac as) as' := by
  induction as generalizing b with
  | nil => simp [Lossless]
  | cons a as ih => simp [Lossless, ih, Bus.run, and_assoc]

/-- Nobody booted, nothing in flight. -/
def off : Bus n where
  st _ := none
  flight := []

/-! ### The invariant -/

variable (mac) in
structure Calm (b : Bus n) : Prop where
  ok : b.Ok mac
  distinct : ∀ i j x, i ≠ j → b.Holds i x → ¬ b.Holds j x
  warned : ∀ i j x, i ≠ j → b.Holds i x → b.Probes j x →
    ProbeTo mac b j i x ∨ BeaconTo mac b i j x
  genuine : ∀ e ∈ b.flight, e.kind = .beacon → ∃ i, e.src = mac i ∧ i ≠ e.dst ∧ b.Holds i e.id

theorem calm_off : Calm mac (off (n := n)) where
  ok i s h := by simp [off] at h
  distinct i j x _ h := by
    obtain ⟨s, hs, -⟩ := h
    simp [off] at hs
  warned i j x _ h := by
    obtain ⟨s, hs, -⟩ := h
    simp [off] at hs
  genuine e he := by simp [off] at he

/-- A boot with nothing in flight. -/
theorem Calm.boot {b : Bus n} (h : Calm mac b) (hempty : b.flight = []) (k : Fin n) (p : UInt8)
    (t : UInt32) : Calm mac (b.boot mac k p t) where
  ok := h.ok.boot k p t
  distinct i j x hij hi hj := h.distinct i j x hij (holds_boot hi).2 (holds_boot hj).2
  warned i j x hij hi hj := by
    rcases h.warned i j x hij (holds_boot hi).2 (probes_boot hj).2 with hp | hb
    · exact .inl hp
    · exact .inr hb
  genuine e he := by
    have hfl : (b.boot mac k p t).flight = [] := hempty
    rw [hfl] at he
    simp at he

section Step

variable {b b₁ : Bus n} {k : Fin n} {c : IrIdNegotiator.Call}

/-- A call with nothing in flight, or the delivery of an envelope of `b`. -/
structure CalmCall (b b₁ : Bus n) (k : Fin n) (c : IrIdNegotiator.Call) : Prop where
  st : b₁.st = b.st
  sub : ∀ e ∈ b₁.flight, e ∈ b.flight
  handed : Handed b b₁ k c
  noBegin : ∀ m p t x, c ≠ .begin m p t x
  /-- a tick finds nothing in flight -/
  tick : ∀ t, c = .tick t → b.flight = []
  /-- a beacon was in flight -/
  beacon : ∀ src x t, c = .onBeacon src x t → (⟨k, src, .beacon, x⟩ : Envelope n) ∈ b.flight

/-- Holders stay. -/
theorem Calm.holds_call (h : Calm mac b) (hc : CalmCall b b₁ k c)
    {i : Fin n} {x : UInt8} (hi : b.Holds i x) : (b₁.call mac k c).Holds i x := by
  obtain ⟨s, hs, hheld, rfl⟩ := hi
  rw [← hc.st] at hs
  by_cases hik : i = k
  · subst hik
    obtain ⟨hwf, hmac, -⟩ := h.ok i s (by rw [← hc.st, hs])
    have hstay := IrIdNegotiator.held_stays hwf hheld hc.noBegin fun src t hlt heq => ?_
    · exact ⟨_, call_st_self hs, hstay⟩
    · obtain ⟨j, -, hne, hj⟩ := h.genuine _ (hc.beacon src s.id t heq) rfl
      exact h.distinct j i s.id hne hj ⟨s, by rw [← hc.st, hs], hheld, rfl⟩
  · exact ⟨s, by rw [call_st_of_ne hik, hs], hheld, rfl⟩

/-- Who holds after the call held before, or just acquired the id it was
probing by a tick. -/
theorem Calm.holds_origin (h : Calm mac b) (hc : CalmCall b b₁ k c)
    {i : Fin n} {x : UInt8} (hi : (b₁.call mac k c).Holds i x) :
    b.Holds i x ∨ i = k ∧ b.Probes i x ∧ b.flight = [] := by
  obtain ⟨s', hs', hheld, rfl⟩ := hi
  by_cases hik : i = k
  · subst hik
    cases hs : b₁.st i with
    | none =>
      rw [call_of_none hs, hs] at hs'
      cases hs'
    | some s =>
      rw [call_st_self hs] at hs'
      obtain rfl := Option.some.inj hs'
      have hs₀ : b.st i = some s := by rw [← hc.st, hs]
      rcases IrIdNegotiator.held_origin (h.ok i s hs₀).1 hheld with ⟨h1, h2⟩ | ⟨h1, h2, t, ht⟩
      · exact .inl ⟨s, hs₀, h1, h2.symm⟩
      · exact .inr ⟨rfl, ⟨s, hs₀, h1, h2.symm⟩, hc.tick t ht⟩
  · rw [call_st_of_ne hik, hc.st] at hs'
    exact .inl ⟨s', hs', hheld, rfl⟩

theorem Calm.distinct_call (h : Calm mac b) (hc : CalmCall b b₁ k c) (i j : Fin n) (x : UInt8)
    (hij : i ≠ j) (hi : (b₁.call mac k c).Holds i x) : ¬ (b₁.call mac k c).Holds j x := by
  -- with nothing in flight a probed id is not held
  have free : ∀ i j, i ≠ j → b.flight = [] → b.Holds i x → ¬ b.Probes j x := by
    intro i j hij hempty hi hj
    rcases h.warned i j x hij hi hj with hp | hb
    · simp [ProbeTo, hempty] at hp
    · simp [BeaconTo, hempty] at hb
  intro hj
  rcases h.holds_origin hc hi with hi₀ | ⟨hik, hi₀, hempty⟩
  · rcases h.holds_origin hc hj with hj₀ | ⟨-, hj₀, hempty⟩
    · exact h.distinct i j x hij hi₀ hj₀
    · exact free i j hij hempty hi₀ hj₀
  · rcases h.holds_origin hc hj with hj₀ | ⟨hjk, -, -⟩
    · exact free j i hij.symm hempty hj₀ hi₀
    · exact hij (hik.trans hjk.symm)

theorem Calm.warned_call (hmac : Function.Injective mac) (h : Calm mac b)
    (hc : CalmCall b b₁ k c) (i j : Fin n) (x : UInt8) (hij : i ≠ j)
    (hi : (b₁.call mac k c).Holds i x) (hj : (b₁.call mac k c).Probes j x) :
    ProbeTo mac (b₁.call mac k c) j i x ∨ BeaconTo mac (b₁.call mac k c) i j x := by
  obtain ⟨si, hsi, hheld, hid⟩ := hi
  obtain ⟨sj, hsj, hprobe, hcand⟩ := hj
  -- an envelope for another station stays in flight
  have keep : ∀ e ∈ b.flight, e.dst ≠ k → e ∈ (b₁.call mac k c).flight := by
    intro e he hne
    rcases hc.handed e he with hmem | ⟨hdst, -⟩
    · exact mem_call_of_mem hmem
    · exact absurd hdst hne
  by_cases hjk : j = k
  · subst hjk
    rw [call_st_of_ne hij] at hsi
    cases hs : b₁.st j with
    | none =>
      rw [call_of_none hs, hs] at hsj
      cases hsj
    | some s =>
      rw [call_st_self hs] at hsj
      obtain rfl := Option.some.inj hsj
      have hs₀ : b.st j = some s := by rw [← hc.st, hs]
      obtain ⟨hwf, hsmac, hsend⟩ := h.ok j s hs₀
      rcases IrIdNegotiator.probing_after hwf hsend hc.noBegin hprobe with hp | ⟨h1, h2, hopp⟩
      · left
        rw [hcand] at hp
        exact mem_call_of_tx hs hp hij (by simp [hsi]) (by simp)
      · rw [hcand] at h2
        rcases h.warned i j x hij ⟨si, by rw [← hc.st, hsi], hheld, hid⟩ ⟨s, hs₀, h1, h2⟩ with
          hp | hb
        · exact .inl (keep _ hp hij)
        · rcases hc.handed _ hb with hmem | ⟨-, t, hcall⟩
          · exact .inr (mem_call_of_mem hmem)
          · refine absurd ?_ hopp
            rw [hcall, h2]
            refine ⟨rfl, ?_⟩
            rw [hsmac]
            exact fun heq => hij (hmac heq)
  · rw [call_st_of_ne hjk, hc.st] at hsj
    have hpj : b.Probes j x := ⟨sj, hsj, hprobe, hcand⟩
    by_cases hik : i = k
    · subst hik
      cases hs : b₁.st i with
      | none =>
        rw [call_of_none hs, hs] at hsi
        cases hsi
      | some s =>
        rw [call_st_self hs] at hsi
        obtain rfl := Option.some.inj hsi
        have hs₀ : b.st i = some s := by rw [← hc.st, hs]
        obtain ⟨hwf, hsmac, hsend⟩ := h.ok i s hs₀
        rcases IrIdNegotiator.held_after hwf hsend hc.noBegin hheld with hb | ⟨-, h1, h2, hno⟩
        · right
          rw [hid] at hb
          exact mem_call_of_tx hs hb hij.symm (by simp [hc.st, hsj]) (by simp)
        · rw [hid] at h2
          rcases h.warned i j x hij ⟨s, hs₀, h1, h2⟩ hpj with hp | hb
          · rcases hc.handed _ hp with hmem | ⟨-, t, hcall⟩
            · exact .inl (mem_call_of_mem hmem)
            · have hne : mac j ≠ s.mac := by
                rw [hsmac]
                exact fun heq => hij (hmac heq).symm
              exact absurd (by rw [hcall, h2]; rfl) (hno (mac j) t hne).1
          · exact .inr (keep _ hb hjk)
    · rw [call_st_of_ne hik, hc.st] at hsi
      rcases h.warned i j x hij ⟨si, hsi, hheld, hid⟩ hpj with hp | hb
      · exact .inl (keep _ hp hik)
      · exact .inr (keep _ hb hjk)

/-- The step lemma for calls. -/
theorem Calm.call (hmac : Function.Injective mac) (h : Calm mac b) (hc : CalmCall b b₁ k c) :
    Calm mac (b₁.call mac k c) where
  ok := by
    have hok₁ : b₁.Ok mac := fun i s hs => h.ok i s (by rw [← hc.st, hs])
    exact hok₁.call k hc.noBegin
  distinct := h.distinct_call hc
  warned := h.warned_call hmac hc
  genuine e he hk := by
    rcases mem_call he with hmem | ⟨s, t, hs, ht, hdst, hsrc, hkind, hid⟩
    · obtain ⟨i, hsrc, hne, hi⟩ := h.genuine e (hc.sub e hmem) hk
      exact ⟨i, hsrc, hne, h.holds_call hc hi⟩
    · obtain ⟨hwf, -, -⟩ := h.ok k s (by rw [← hc.st, hs])
      obtain ⟨hheld, htid⟩ := IrIdNegotiator.beacon_tx hwf ht (hkind ▸ hk)
      exact ⟨k, hsrc, hdst.symm, _, call_st_self hs, hheld, by rw [hid, htid]⟩

end Step

theorem calmCall_event {b : Bus n} {k : Fin n} {c : IrIdNegotiator.Call} (hempty : b.flight = [])
    (hc : ∀ m p t x, c ≠ .begin m p t x) (hb : ∀ src x t, c ≠ .onBeacon src x t) :
    CalmCall b b k c where
  st := rfl
  sub _ he := he
  handed := handed_refl b k c
  noBegin := hc
  tick _ _ := hempty
  beacon src x t heq := absurd heq (hb src x t)

theorem calmCall_deliver {b : Bus n} {k : ℕ} {e : Envelope n} (he : b.flight[k]? = some e)
    (t : UInt32) : CalmCall b { b with flight := b.flight.eraseIdx k } e.dst (e.call t) where
  st := rfl
  sub _ h := mem_of_mem_eraseIdx h
  handed := handed_takeOut he t
  noBegin := call_ne_begin e t
  tick u hu := by
    unfold Envelope.call at hu
    split at hu <;> cases hu
  beacon src x u hu := by
    have hmem := List.mem_of_getElem? he
    unfold Envelope.call at hu
    split at hu
    · cases hu
    · rename_i hk
      cases hu
      rwa [← hk]

/-- The step lemma. -/
theorem Calm.step (hmac : Function.Injective mac) {b : Bus n} (h : Calm mac b) {a : Act n}
    (ha : a.isDelivery = false → b.flight = []) : Calm mac (b.step mac a) := by
  cases a with
  | boot k p t => exact h.boot (ha rfl) k p t
  | tick k t => exact h.call hmac (calmCall_event (ha rfl) (by simp) (by simp))
  | hit k x t => exact h.call hmac (calmCall_event (ha rfl) (by simp) (by simp))
  | deliver k t =>
    cases he : b.flight[k]? with
    | none => rwa [step_deliver_none he]
    | some e =>
      rw [step_deliver he]
      exact h.call hmac (calmCall_deliver he t)

/-- The run lemma. -/
theorem Calm.run (hmac : Function.Injective mac) {b : Bus n} (h : Calm mac b)
    {as : List (Act n)} (hl : Lossless mac b as) : Calm mac (b.run mac as) := by
  induction as generalizing b with
  | nil => exact h
  | cons a as ih => exact ih (h.step hmac hl.1) hl.2

theorem Calm.holds_step {b : Bus n} (h : Calm mac b) {a : Act n}
    (ha : a.isDelivery = false → b.flight = []) {i : Fin n} (hboot : ∀ p t, a ≠ .boot i p t)
    {x : UInt8} (hi : b.Holds i x) : (b.step mac a).Holds i x := by
  cases a with
  | boot k p t =>
    have hne : i ≠ k := by
      rintro rfl
      exact hboot p t rfl
    obtain ⟨s, hs, hheld, hid⟩ := hi
    exact ⟨s, by simpa [Bus.step, Bus.boot, Function.update_of_ne hne] using hs, hheld, hid⟩
  | tick k t => exact h.holds_call (calmCall_event (ha rfl) (by simp) (by simp)) hi
  | hit k y t => exact h.holds_call (calmCall_event (ha rfl) (by simp) (by simp)) hi
  | deliver k t =>
    cases he : b.flight[k]? with
    | none => rwa [step_deliver_none he]
    | some e =>
      rw [step_deliver he]
      exact h.holds_call (calmCall_deliver he t) hi

theorem Calm.holds_run (hmac : Function.Injective mac) {b : Bus n} (h : Calm mac b)
    {as : List (Act n)} (hl : Lossless mac b as) {i : Fin n}
    (hboot : ∀ p t, Act.boot i p t ∉ as) {x : UInt8} (hi : b.Holds i x) :
    (b.run mac as).Holds i x := by
  induction as generalizing b with
  | nil => exact hi
  | cons a as ih =>
    refine ih (h.step hmac hl.1) hl.2 (fun p t hmem => hboot p t (List.mem_cons_of_mem _ hmem))
      (h.holds_step hl.1 ?_ hi)
    rintro p t rfl
    exact hboot p t (by simp)

/-! ### Holders are never displaced -/

/-- **No displacement**: on a lossless bus, whenever nothing is in flight, the
id of a holder is neither held nor probed by anybody else, and the holder
keeps it in every continuation in which it does not reboot itself. -/
theorem holder_keeps_id (hmac : Function.Injective mac) (as : List (Act n))
    (hl : Lossless mac off as) (i : Fin n) (x : UInt8) (hi : (off.run mac as).Holds i x) :
    ((off.run mac as).flight = [] →
      ∀ j, j ≠ i → ¬ (off.run mac as).Holds j x ∧ ¬ (off.run mac as).Probes j x) ∧
    ∀ as', Lossless mac off (as ++ as') → (∀ p t, Act.boot i p t ∉ as') →
      (off.run mac (as ++ as')).Holds i x := by
  have hcalm : Calm mac (off.run mac as) := calm_off.run hmac hl
  refine ⟨fun hempty j hj => ⟨hcalm.distinct i j x hj.symm hi, fun hp => ?_⟩, ?_⟩
  · rcases hcalm.warned i j x hj.symm hi hp with h | h
    · simp [ProbeTo, hempty] at h
    · simp [BeaconTo, hempty] at h
  · intro as' hl' hboot
    rw [run_append]
    exact hcalm.holds_run hmac (lossless_append.1 hl').2 hboot hi

/-- Two stations with the same base candidate. -/
def lateMac (i : Fin 2) : Mac := ⟨#v[0x24, 0x6F, 0x28, 0, 0, if i.val = 0 then 0x12 else 0x03]⟩

/-- The second one boots after the first one holds id 4 and probes the same id
although its address is smaller. -/
theorem holder_keeps_id_late :
    ¬ (off.run lateMac [.boot 0 0 0, .tick 0 3000, .tick 0 3150, .tick 0 3300, .tick 0 3450,
        .boot 1 0 5000, .tick 1 8000, .deliver 0 8000, .deliver 0 8000, .deliver 0 8000,
        .deliver 0 8000]).Probes 1 4 := by
  refine ((@holder_keeps_id 2 lateMac ?_ _ (by decide) 0 4 ?_).1 (by decide) 1
    (by decide)).2
  · intro i j h
    fin_cases i <;> fin_cases j <;> first | rfl | exact absurd h (by decide)
  · exact ⟨_, rfl, by decide, by decide⟩

end Bus

end InfinitagNow
