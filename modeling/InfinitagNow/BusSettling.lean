/-
InfinitagNow/BusSettling.lean

Every station gets an id.

At most fifteen stations boot one after the other on a lossless bus, are ticked
in time and shoot at one another under the ids they hold.  What a station probes
or holds it claims; the clocks make sure that whoever starts to probe has heard
of every claim: it has listened for three seconds, and a claim is repeated in
less (`Fleet.known`).  So claims stay distinct, nobody's probing is ever opposed,
only claimed ids are occupied and one of the fifteen is free.  What is left is
the time that `OnTime` allows (`fleet_settles`).
-/
import InfinitagNow.BeaconShield
import InfinitagNow.BusHolder

namespace InfinitagNow

namespace IrIdNegotiator

variable {s : IrIdNegotiator} {c : Call} {x y : UInt8} {d T₀ now last L T : ℕ}

/-! ### What a station claims -/

/-- The id it probes or holds. -/
def Claims (s : IrIdNegotiator) (x : UInt8) : Prop :=
  s.state = .probe ∧ s.candidate = x ∨ s.state = .held ∧ s.id = x

theorem Claims.eq (hx : s.Claims x) (hy : s.Claims y) : x = y := by
  rcases hx with ⟨hs, rfl⟩ | ⟨hs, rfl⟩
  · rcases hy with ⟨-, rfl⟩ | ⟨hs', -⟩
    · rfl
    · exact absurd (hs.symm.trans hs') (by simp)
  · rcases hy with ⟨hs', -⟩ | ⟨-, rfl⟩
    · exact absurd (hs.symm.trans hs') (by simp)
    · rfl

theorem Claims.valid (hx : s.Claims x) (h : s.Wf) : validId x = true := by
  rcases hx with ⟨hs, rfl⟩ | ⟨hs, rfl⟩
  · exact h.validId_candidate hs
  · exact h.validId_id hs

/-- Whatever a call transmits is claimed after it. -/
theorem claims_tx (h : s.Wf) {tx : Tx} (htx : tx ∈ (s.exec c).2) : (s.exec c).1.Claims tx.id := by
  cases hk : tx.kind with
  | probe =>
    obtain ⟨hs, hid⟩ := probe_tx h htx hk
    exact .inl ⟨hs, hid.symm⟩
  | beacon =>
    obtain ⟨hs, hid⟩ := beacon_tx h htx hk
    exact .inr ⟨hs, hid.symm⟩

/-- A tick gives up no claim. -/
theorem Claims.tick (hx : s.Claims x) (h : s.Wf) (t : UInt32) : (s.tick t).1.Claims x := by
  have hrule := exec_rule h (.tick t)
  rw [exec] at hrule
  generalize s.tick t = r at hrule
  cases hrule with
  | listenEnd t hs =>
    rcases hx with ⟨hs', -⟩ | ⟨hs', -⟩ <;> exact absurd (hs.symm.trans hs') (by simp)
  | acquire t hs =>
    rcases hx with ⟨-, hc⟩ | ⟨hs', -⟩
    · rw [becomeHeld_eq h hs]
      exact .inr ⟨rfl, hc⟩
    · exact absurd (hs.symm.trans hs') (by simp)
  | evidence _ _ _ hev | abort _ _ hev => simp [Call.evidence] at hev
  | _ => exact hx

/-- A new claim ends the listening, and its id was free. -/
theorem claims_tick (h : s.Wf) {t : UInt32} (hx : (s.tick t).1.Claims x) :
    s.Claims x ∨ s.state = .listen ∧ 0 ≤ (t - s.listenUntil).toInt32 ∧
      s.isOccupied x t = false := by
  have hrule := exec_rule h (.tick t)
  rw [exec] at hrule
  generalize s.tick t = r at hrule hx
  cases hrule with
  | listenEnd t hs hdue =>
    rcases startProbe_cases h.preferredOk t with ⟨heq, -⟩ | ⟨y, -, hfree, heq⟩
    · rw [heq] at hx
      rcases hx with ⟨hs', -⟩ | ⟨hs', -⟩
      · exact absurd hs' (by simp)
      · exact absurd hs' (by simp)
    · rw [heq] at hx
      rcases hx with ⟨-, rfl⟩ | ⟨hs', -⟩
      · exact .inr ⟨hs, hdue, hfree⟩
      · exact absurd hs' (by simp)
  | acquire t hs =>
    rw [becomeHeld_eq h hs] at hx
    rcases hx with ⟨hs', -⟩ | ⟨-, rfl⟩
    · exact absurd hs' (by simp)
    · exact .inl (.inl ⟨hs, rfl⟩)
  | evidence _ _ _ hev | abort _ _ hev => simp [Call.evidence] at hev
  | _ => exact .inl hx

/-- Of a foreign claim a station takes note, and that is all. -/
theorem exec_hears (h : s.Wf) {t : UInt32} (hev : c.evidence s.mac = some (y, t))
    (hy : validId y = true) (hno : ¬ s.Claims y) : s.exec c = (s.note y t, []) := by
  have hne : y ≠ s.id := by
    rintro rfl
    exact hno (.inr ⟨h.held_of_valid hy, rfl⟩)
  have hprobe : ¬ (s.state = .probe ∧ y = s.candidate) := fun hc => hno (.inl ⟨hc.1, hc.2.symm⟩)
  have hskip : ∀ src, src ≠ s.mac → ¬ (validId y = false ∨ macCmp src s.mac = .eq) :=
    fun src hsrc hskip => hsrc (own_of_skip hskip hy)
  rcases evidence_cases hev with ⟨src, hsrc, rfl | rfl⟩ | rfl
  · simp [exec, onProbe, if_neg (hskip src hsrc), hne, hprobe]
  · simp [exec, onBeacon, if_neg (hskip src hsrc), hne, hprobe]
  · simp [exec, onHitReport, hy, hne, hprobe]

/-! ### In time, before and after the acquisition -/

/-- The station is on its way to an id, or holds one and beacons it. -/
def InTime (d T₀ now last L : ℕ) (s : IrIdNegotiator) : Prop :=
  s.OnTime d T₀ 0 now last L ∨ s.Beaconing now last L

theorem InTime.wf (h : s.InTime d T₀ now last L) : s.Wf := by
  rcases h with h | h
  · exact h.wf
  · exact h.wf

theorem InTime.later (h : s.InTime d T₀ now last L) (hT : now ≤ T) : s.InTime d T₀ T last L := by
  rcases h with h | h
  · exact .inl (h.of_eq h.wf hT)
  · exact .inr (h.of_eq h.wf hT (h.last_le.trans hT) h.last_lt)

/-- Evidence does not matter to the timers. -/
theorem InTime.note (h : s.InTime d T₀ now last L) (t : UInt32) (hy : y ≠ s.id) :
    (s.note y t).InTime d T₀ now last L := by
  have hwf := h.wf.note hy t
  rcases h with h | h
  · exact .inl (h.of_eq hwf le_rfl)
  · refine .inr (h.of_eq hwf le_rfl h.last_le h.last_lt (by simp) (by simp) ?_)
    unfold IrIdNegotiator.note
    split <;> rfl

/-- What is claimed was broadcast a short time before the last tick. -/
theorem InTime.recent (h : s.InTime d T₀ now last L) (hx : s.Claims x) :
    L ≤ now ∧ last < L + 2000 := by
  rcases h with h | h
  · rcases hx with ⟨hs, -⟩ | ⟨hs, -⟩
    · obtain ⟨-, hle, hlt, -⟩ := h.probe hs
      exact ⟨hle, by omega⟩
    · exact absurd hs h.not_held
  · exact ⟨h.le_now, h.last_lt⟩

/-- A tick finds all ids taken, does nothing, or broadcasts what is claimed. -/
theorem InTime.tick (h : s.InTime d T₀ now last L) (hsend : s.send = true) (hd : d ≤ 2 ^ 30)
    (hnow : now ≤ T) (hT : T ≤ last + d) :
    (s.tick (UInt32.ofNat T)).1.Full T ∨
      s.tick (UInt32.ofNat T) = (s, []) ∧ s.InTime d T₀ T T L ∨
      (s.tick (UInt32.ofNat T)).1.InTime d T₀ T T T ∧
        ∀ x, (s.tick (UInt32.ofNat T)).1.Claims x →
          ∃ kind, ⟨kind, x, none⟩ ∈ (s.tick (UInt32.ofNat T)).2 := by
  rcases h with h | h
  · rcases h.tick hd hnow hT with hacq | hfull | ⟨hidle, h'⟩ | ⟨h', htx⟩
    · -- the id is acquired
      obtain ⟨htx, hid, hstart⟩ := beaconing_acquired h.wf hsend h.not_held hacq
      refine .inr (.inr ⟨.inr hstart, fun x hx => ⟨.beacon, ?_⟩⟩)
      obtain rfl := hx.eq (.inr ⟨hacq, hid⟩)
      rw [htx]
      exact List.mem_cons_self
    · exact .inl hfull
    · exact .inr (.inl ⟨hidle, .inl h'⟩)
    · refine .inr (.inr ⟨.inl h', fun x hx => ⟨.probe, ?_⟩⟩)
      rcases hx with ⟨-, rfl⟩ | ⟨hs, -⟩
      · rw [htx, emit, if_pos hsend]
        exact List.mem_singleton_self _
      · exact absurd hs h'.not_held
  · rcases h.tick hd hnow hT with ⟨hidle, h'⟩ | ⟨htx, h'⟩
    · exact .inr (.inl ⟨hidle, .inr h'⟩)
    · refine .inr (.inr ⟨.inr h', fun x hx => ⟨.beacon, ?_⟩⟩)
      have hx' := (claims_tx (c := .tick (UInt32.ofNat T)) h.wf
        (by rw [exec, htx]; exact List.mem_singleton_self _))
      obtain rfl := hx.eq hx'
      rw [htx]
      exact List.mem_singleton_self _

end IrIdNegotiator

namespace Bus

variable {n : ℕ} {mac : Fin n → Mac}

/-! ### Events in real time -/

/-- The time of the last event, and of each station's boot and last tick. -/
structure Watch (n : ℕ) where
  now : ℕ := 0
  boot : Fin n → ℕ := fun _ => 0
  last : Fin n → ℕ := fun _ => 0

/-- One more event. -/
def Watch.see (w : Watch n) (e : ℕ × Act n) : Watch n :=
  match e.2 with
  | .boot i _ _ =>
    { now := e.1, boot := Function.update w.boot i e.1, last := Function.update w.last i e.1 }
  | .tick i _ => { w with now := e.1, last := Function.update w.last i e.1 }
  | .hit _ _ _ => { w with now := e.1 }
  | .deliver _ _ => { w with now := e.1 }

instance (b : Bus n) (i : Fin n) (x : UInt8) : Decidable (b.Holds i x) :=
  decidable_of_iff (∃ s ∈ b.st i, s.state = .held ∧ s.id = x) Iff.rfl

/-- The event may happen at its time: no station has waited for more than `d` ms
for a tick, everything transmitted before a boot or a tick has been delivered, no
station boots twice, whoever hits somebody shoots under an id it holds or under
none, and the affected station reads its clock, which is ahead of the real time
by `skew`. -/
def Allowed (skew : Fin n → ℕ) (d : ℕ) (b : Bus n) (w : Watch n) (e : ℕ × Act n) : Prop :=
  w.now ≤ e.1 ∧ (∀ i, (b.st i).isSome = true → e.1 ≤ w.last i + d) ∧
    match e.2 with
    | .boot i _ t => b.flight = [] ∧ b.st i = none ∧ t = UInt32.ofNat (e.1 + skew i)
    | .tick i t => b.flight = [] ∧ t = UInt32.ofNat (e.1 + skew i)
    | .hit i x t => (validId x = true → ∃ j, b.Holds j x) ∧ t = UInt32.ofNat (e.1 + skew i)
    | .deliver k t => ∀ env ∈ b.flight[k]?, t = UInt32.ofNat (e.1 + skew env.dst)

instance (skew : Fin n → ℕ) (d : ℕ) (b : Bus n) (w : Watch n) :
    DecidablePred (Allowed skew d b w) := fun e => by
  unfold Allowed
  obtain ⟨T, a⟩ := e
  cases a <;> exact inferInstance

variable (mac) in
/-- Every event of the schedule may happen. -/
def Prompt (skew : Fin n → ℕ) (d : ℕ) : Bus n → Watch n → List (ℕ × Act n) → Prop
  | _, _, [] => True
  | b, w, e :: es => Allowed skew d b w e ∧ Prompt skew d (b.step mac e.2) (w.see e) es

instance decidablePrompt (skew : Fin n → ℕ) (d : ℕ) :
    ∀ (b : Bus n) (w : Watch n) (es : List (ℕ × Act n)), Decidable (Prompt mac skew d b w es)
  | _, _, [] => inferInstanceAs (Decidable True)
  | b, w, e :: es =>
    have := decidablePrompt skew d (b.step mac e.2) (w.see e) es
    inferInstanceAs (Decidable (Allowed skew d b w e ∧ _))

/-- Station `i` probes or holds `x`. -/
def Claims (b : Bus n) (i : Fin n) (x : UInt8) : Prop :=
  ∃ s, b.st i = some s ∧ s.Claims x

/-! ### The invariant -/

variable (mac) in
/-- The stations claim different ids.  What `i` claims it broadcast last at
`cast i`, on its own clock, and every other station has written that down, is
about to hear it or booted only then; nothing else is written down anywhere. -/
structure Fleet (skew : Fin n → ℕ) (d : ℕ) (w : Watch n) (cast : Fin n → ℕ) (b : Bus n) :
    Prop where
  ok : b.Ok mac
  inTime : ∀ i s, b.st i = some s →
    s.InTime d (w.boot i + skew i) (w.now + skew i) (w.last i + skew i) (cast i)
  recent : ∀ i s, b.st i = some s → w.boot i ≤ w.now ∧ w.now ≤ w.last i + d
  distinct : ∀ i j x, b.Claims i x → b.Claims j x → i = j
  genuine : ∀ e ∈ b.flight, ∃ i, e.src = mac i ∧ i ≠ e.dst ∧ b.Claims i e.id
  known : ∀ i j x s, i ≠ j → b.Claims i x → b.st j = some s →
    cast i ≤ w.boot j + skew i ∨
      (∃ R, cast i + skew j ≤ R + skew i ∧ R ≤ w.now + skew j ∧
        s.entry x = some (UInt32.ofNat R)) ∨
      ∃ e ∈ b.flight, e.src = mac i ∧ e.dst = j ∧ e.id = x
  only : ∀ j s x, b.st j = some s → s.entry x ≠ none → ∃ i, i ≠ j ∧ b.Claims i x

section Fleet

variable {skew : Fin n → ℕ} {d : ℕ} {w : Watch n} {cast : Fin n → ℕ} {b : Bus n}

theorem fleet_off : Fleet mac skew d {} cast (off (n := n)) where
  ok i s h := by simp [off] at h
  inTime i s h := by simp [off] at h
  recent i s h := by simp [off] at h
  distinct i j x h := by
    obtain ⟨s, hs, -⟩ := h
    simp [off] at hs
  genuine e he := by simp [off] at he
  known i j x s _ _ h := by simp [off] at h
  only j s x h := by simp [off] at h

/-- Time passes. -/
theorem Fleet.later (h : Fleet mac skew d w cast b) {T : ℕ} (hnow : w.now ≤ T)
    (hT : ∀ i, (b.st i).isSome = true → T ≤ w.last i + d) :
    Fleet mac skew d { w with now := T } cast b where
  ok := h.ok
  inTime i s hs := (h.inTime i s hs).later (Nat.add_le_add_right hnow _)
  recent i s hs := ⟨(h.recent i s hs).1.trans hnow, hT i (by rw [hs]; rfl)⟩
  distinct := h.distinct
  genuine := h.genuine
  known i j x s hij hx hs := by
    rcases h.known i j x s hij hx hs with hboot | ⟨R, hR, hle, hentry⟩ | hflight
    · exact .inl hboot
    · exact .inr (.inl ⟨R, hR, hle.trans (Nat.add_le_add_right hnow _), hentry⟩)
    · exact .inr (.inr hflight)
  only := h.only

theorem Fleet.valid (h : Fleet mac skew d w cast b) {i : Fin n} {x : UInt8}
    (hx : b.Claims i x) : validId x = true := by
  obtain ⟨s, hs, hx⟩ := hx
  exact hx.valid (h.inTime i s hs).wf

/-- A claim was broadcast a short time ago. -/
theorem Fleet.cast_le (h : Fleet mac skew d w cast b) {i : Fin n} {x : UInt8}
    (hx : b.Claims i x) : cast i ≤ w.now + skew i ∧ w.now + skew i < cast i + 2000 + d := by
  obtain ⟨s, hs, hx⟩ := hx
  obtain ⟨hle, hlt⟩ := (h.inTime i s hs).recent hx
  have := (h.recent i s hs).2
  omega

/-- A station does not find all ids taken: the others claim at most fourteen. -/
theorem Fleet.not_full (h : Fleet mac skew d w cast b) (hn : n ≤ 15) {j : Fin n}
    {s s' : IrIdNegotiator} (hs : b.st j = some s) (hentry : ∀ x, s.entry x = none →
      s'.entry x = none) (T : ℕ) : ¬ s'.Full T := by
  intro hfull
  have hclaimed : ∀ x ∈ irIds.toFinset, ∃ i, i ≠ j ∧ b.Claims i x := by
    intro x hx
    have hocc := hfull x (mem_irIds_iff.1 (List.mem_toFinset.1 hx))
    obtain ⟨-, u, hu, -⟩ := IrIdNegotiator.isOccupied_iff_entry.1 hocc
    exact h.only j s x hs fun hnone => nomatch (hentry x hnone).symm.trans hu
  have : Nonempty (Fin n) := ⟨j⟩
  choose! f hne hf using hclaimed
  -- different ids are claimed by different stations
  have hcard : irIds.toFinset.card ≤ (Finset.univ.erase j).card := by
    refine Finset.card_le_card_of_injOn f (fun x hx => ?_) fun x hx y hy hxy => ?_
    · exact Finset.mem_coe.2 (Finset.mem_erase.2 ⟨hne x hx, Finset.mem_univ _⟩)
    · obtain ⟨s₁, hs₁, hx₁⟩ := hf x hx
      obtain ⟨s₂, hs₂, hy₂⟩ := hf y hy
      rw [hxy, hs₂] at hs₁
      obtain rfl := Option.some.inj hs₁
      exact hx₁.eq hy₂
  have hids : irIds.toFinset.card = 15 := by decide
  rw [hids, Finset.card_erase_of_mem (Finset.mem_univ j), Finset.card_univ, Fintype.card_fin]
    at hcard
  have := j.pos
  omega

/-! ### A boot -/

theorem boot_st_self {i : Fin n} {p : UInt8} {t : UInt32} (hi : b.st i = none) :
    (b.boot mac i p t).st i = some (({} : IrIdNegotiator).begin (mac i) p t true) := by
  simp [Bus.boot, hi]

theorem boot_st_of_ne {i j : Fin n} {p : UInt8} {t : UInt32} (hj : j ≠ i) :
    (b.boot mac i p t).st j = b.st j := Function.update_of_ne hj _ _

theorem claims_boot_iff {i j : Fin n} {x : UInt8} {p : UInt8} {t : UInt32} (hi : b.st i = none) :
    (b.boot mac i p t).Claims j x ↔ b.Claims j x := by
  unfold Claims
  by_cases hj : j = i
  · subst hj
    rw [boot_st_self hi, hi]
    constructor
    · rintro ⟨s, hs, hx⟩
      obtain rfl := Option.some.inj hs
      rcases hx with ⟨hs, -⟩ | ⟨hs, -⟩ <;> exact nomatch hs
    · rintro ⟨s, hs, -⟩
      exact nomatch hs
  · rw [boot_st_of_ne hj]

/-- The new station listens, and has heard nothing. -/
theorem Fleet.boot (h : Fleet mac skew d w cast b) (hempty : b.flight = []) {i : Fin n}
    (hi : b.st i = none) (p : UInt8) :
    Fleet mac skew d (w.see (w.now, .boot i p (UInt32.ofNat (w.now + skew i))))
      (Function.update cast i (w.now + skew i))
      (b.boot mac i p (UInt32.ofNat (w.now + skew i))) := by
  have hbooted : ∀ {j s}, b.st j = some s → j ≠ i := by
    rintro j s hs rfl
    exact nomatch hi.symm.trans hs
  have hclaims : ∀ {j x}, (b.boot mac i p (UInt32.ofNat (w.now + skew i))).Claims j x →
      b.Claims j x := (claims_boot_iff hi).1
  refine ⟨h.ok.boot i p _, fun j s hs => ?_, fun j s hs => ?_, fun j k x hj hk =>
    h.distinct j k x (hclaims hj) (hclaims hk), fun e he => ?_, fun j k x s hjk hx hs => ?_,
    fun j s x hs hx => ?_⟩
  · by_cases hj : j = i
    · subst hj
      obtain rfl := Option.some.inj ((boot_st_self hi).symm.trans hs)
      simp only [Watch.see, Function.update_self]
      exact .inl (IrIdNegotiator.onTime_begin _ _ _ _ _)
    · rw [boot_st_of_ne hj] at hs
      simpa only [Watch.see, Function.update_of_ne hj] using h.inTime j s hs
  · by_cases hj : j = i
    · subst hj
      simp [Watch.see]
    · rw [boot_st_of_ne hj] at hs
      simpa only [Watch.see, Function.update_of_ne hj] using h.recent j s hs
  · have hflight : (b.boot mac i p (UInt32.ofNat (w.now + skew i))).flight = [] := hempty
    rw [hflight] at he
    exact absurd he List.not_mem_nil
  · -- whatever is claimed was broadcast before the boot
    have hj : j ≠ i := by
      obtain ⟨s, hs, -⟩ := hclaims hx
      exact hbooted hs
    simp only [Watch.see, Function.update_of_ne hj]
    by_cases hk : k = i
    · subst hk
      rw [Function.update_self]
      exact .inl (h.cast_le (hclaims hx)).1
    · rw [boot_st_of_ne hk] at hs
      rw [Function.update_of_ne hk]
      rcases h.known j k x s hjk (hclaims hx) hs with hboot | hentry | ⟨e, he, -⟩
      · exact .inl hboot
      · exact .inr (.inl hentry)
      · rw [hempty] at he
        exact absurd he List.not_mem_nil
  · by_cases hj : j = i
    · subst hj
      obtain rfl := Option.some.inj ((boot_st_self hi).symm.trans hs)
      exact absurd rfl hx
    · rw [boot_st_of_ne hj] at hs
      obtain ⟨k, hk, hclaim⟩ := h.only j s x hs hx
      exact ⟨k, hk, (claims_boot_iff hi).2 hclaim⟩

/-! ### A tick -/

variable {i : Fin n} {s : IrIdNegotiator} {t : UInt32}

/-- What a station comes to claim nobody else does. -/
theorem Fleet.claim_fresh (h : Fleet mac skew d w cast b) (hempty : b.flight = [])
    (hd : d ≤ 1000) (hs : b.st i = some s) (ht : t = UInt32.ofNat (w.now + skew i)) {x : UInt8}
    (hx : (s.tick t).1.Claims x) {j : Fin n} (hj : j ≠ i) : ¬ b.Claims j x := by
  intro hclaim
  have hwf := (h.inTime i s hs).wf
  rcases IrIdNegotiator.claims_tick hwf hx with hold | ⟨hlisten, hdue, hfree⟩
  · exact hj (h.distinct j i x hclaim ⟨s, hs, hold⟩)
  · obtain ⟨hcast, hrecent⟩ := h.cast_le hclaim
    -- the station has listened for three seconds
    have hheard : w.boot i + 3000 ≤ w.now := by
      rcases h.inTime i s hs with hon | hbeacon
      · rw [(hon.listen hlisten).1, ht] at hdue
        have hboot := (h.recent i s hs).1
        have := IrIdNegotiator.le_of_deadline_passed (by omega) hdue
        omega
      · exact nomatch hlisten.symm.trans hbeacon.held
    rcases h.known j i x s hj hclaim hs with hboot | ⟨R, hR, hle, hentry⟩ | ⟨e, he, -⟩
    · omega
    · have hvalid : validId x = true := h.valid hclaim
      have hocc : s.isOccupied x t = true := by
        refine IrIdNegotiator.isOccupied_iff_entry.2 ⟨hvalid, _, hentry, ?_⟩
        rw [ht, UInt32.lt_iff_toNat_lt, IrIdNegotiator.ofNat_sub_toNat hle]
        show (w.now + skew i - R) % 2 ^ 32 < 8000
        omega
      exact nomatch hfree.symm.trans hocc
    · rw [hempty] at he
      exact absurd he List.not_mem_nil

/-- A call that transmits nothing. -/
theorem call_silent {c : IrIdNegotiator.Call} {s' : IrIdNegotiator} (hs : b.st i = some s)
    (hsilent : s.exec c = (s', [])) :
    b.call mac i c = { b with st := Function.update b.st i (some s') } := by
  rw [call_of_some hs, hsilent]
  simp only [fanOut, List.flatMap_nil, List.map_nil, List.append_nil]

/-- A call with nothing to do. -/
theorem call_idle {c : IrIdNegotiator.Call} (hs : b.st i = some s)
    (hidle : s.exec c = (s, [])) : b.call mac i c = b := by
  rw [call_silent hs hidle, ← hs, Function.update_eq_self]

/-- A tick with nothing to do. -/
theorem Fleet.tick_idle (h : Fleet mac skew d w cast b) (hs : b.st i = some s)
    (hidle : s.tick t = (s, []))
    (h' : s.InTime d (w.boot i + skew i) (w.now + skew i) (w.now + skew i) (cast i)) :
    Fleet mac skew d (w.see (w.now, .tick i t)) cast (b.call mac i (.tick t)) := by
  rw [call_idle (c := .tick t) hs hidle]
  refine ⟨h.ok, fun j s' hs' => ?_, fun j s' hs' => ?_, h.distinct, h.genuine, h.known, h.only⟩
  · by_cases hj : j = i
    · subst hj
      obtain rfl := Option.some.inj (hs.symm.trans hs')
      simpa only [Watch.see, Function.update_self] using h'
    · simpa only [Watch.see, Function.update_of_ne hj] using h.inTime j s' hs'
  · by_cases hj : j = i
    · subst hj
      simpa [Watch.see] using (h.recent j s' hs').1
    · simpa only [Watch.see, Function.update_of_ne hj] using h.recent j s' hs'

/-- Claims after a call: those of the others, and the new ones of the station. -/
theorem claims_call {c : IrIdNegotiator.Call} (hs : b.st i = some s) {j : Fin n} {x : UInt8}
    (hx : (b.call mac i c).Claims j x) : j ≠ i ∧ b.Claims j x ∨ j = i ∧ (s.exec c).1.Claims x := by
  obtain ⟨s', hs', hx⟩ := hx
  by_cases hj : j = i
  · subst hj
    obtain rfl := Option.some.inj ((call_st_self hs).symm.trans hs')
    exact .inr ⟨rfl, hx⟩
  · rw [call_st_of_ne hj] at hs'
    exact .inl ⟨hj, s', hs', hx⟩

theorem Claims.call {c : IrIdNegotiator.Call} {j : Fin n} {x : UInt8} (hx : b.Claims j x)
    (hkeep : ∀ s, b.st i = some s → s.Claims x → (s.exec c).1.Claims x) :
    (b.call mac i c).Claims j x := by
  obtain ⟨s', hs', hx⟩ := hx
  by_cases hj : j = i
  · subst hj
    exact ⟨_, call_st_self hs', hkeep s' hs' hx⟩
  · exact ⟨s', by rwa [call_st_of_ne hj], hx⟩

/-- A tick that broadcasts what the station claims. -/
theorem Fleet.tick_casts (h : Fleet mac skew d w cast b) (hempty : b.flight = [])
    (hd : d ≤ 1000) (hs : b.st i = some s) (ht : t = UInt32.ofNat (w.now + skew i))
    (h' : (s.tick t).1.InTime d (w.boot i + skew i) (w.now + skew i) (w.now + skew i)
      (w.now + skew i))
    (hcast : ∀ x, (s.tick t).1.Claims x → ∃ kind, ⟨kind, x, none⟩ ∈ (s.tick t).2) :
    Fleet mac skew d (w.see (w.now, .tick i t)) (Function.update cast i (w.now + skew i))
      (b.call mac i (.tick t)) := by
  have hwf := (h.inTime i s hs).wf
  have hself : (b.call mac i (.tick t)).st i = some (s.tick t).1 := call_st_self hs
  have hdistinct : ∀ j k x, (b.call mac i (.tick t)).Claims j x →
      (b.call mac i (.tick t)).Claims k x → j = k := by
    intro j k x hj hk
    rcases claims_call hs hj with ⟨hji, hold⟩ | ⟨rfl, hnew⟩
    · rcases claims_call hs hk with ⟨-, hold'⟩ | ⟨rfl, hnew⟩
      · exact h.distinct j k x hold hold'
      · exact absurd hold (h.claim_fresh hempty hd hs ht hnew hji)
    · rcases claims_call hs hk with ⟨hki, hold⟩ | ⟨rfl, -⟩
      · exact absurd hold (h.claim_fresh hempty hd hs ht hnew hki)
      · rfl
  have hmono : ∀ {j x}, b.Claims j x → (b.call mac i (.tick t)).Claims j x := fun hx =>
    hx.call fun s' hs' hx' => hx'.tick (h.inTime i s' hs').wf t
  -- an entry is only cleared, and only that of an id the station then holds
  have hentry : (s.tick t).1.entry = s.entry ∨ ∃ y, (s.tick t).1.Claims y ∧
      (s.tick t).1.entry = Function.update s.entry y none := by
    rcases IrIdNegotiator.exec_tick hwf t with ⟨-, hsame⟩ | ⟨-, hne, hcleared⟩
    · exact .inl hsame
    · exact .inr ⟨_, .inr ⟨h'.wf.held_iff.2 hne, rfl⟩, hcleared⟩
  refine ⟨h.ok.call i (by simp), fun j s' hs' => ?_, fun j s' hs' => ?_, hdistinct,
    fun e he => ?_, fun j k x s' hjk hx hs' => ?_, fun j s' x hs' hx => ?_⟩
  · by_cases hj : j = i
    · subst hj
      obtain rfl := Option.some.inj (hself.symm.trans hs')
      simpa only [Watch.see, Function.update_self] using h'
    · rw [call_st_of_ne hj] at hs'
      simpa only [Watch.see, Function.update_of_ne hj] using h.inTime j s' hs'
  · by_cases hj : j = i
    · subst hj
      simpa [Watch.see] using (h.recent j s hs).1
    · rw [call_st_of_ne hj] at hs'
      simpa only [Watch.see, Function.update_of_ne hj] using h.recent j s' hs'
  · rcases mem_call he with hmem | ⟨s', tx, hs', htx, hdst, hsrc, -, hid⟩
    · rw [hempty] at hmem
      exact absurd hmem List.not_mem_nil
    · exact ⟨i, hsrc, hdst.symm, _, call_st_self hs',
        hid ▸ IrIdNegotiator.claims_tx (h.inTime i s' hs').wf htx⟩
  · have hwatch : (w.see (w.now, .tick i t)).boot = w.boot ∧
        (w.see (w.now, .tick i t)).now = w.now := ⟨rfl, rfl⟩
    rw [hwatch.1, hwatch.2]
    rcases claims_call hs hx with ⟨hji, hold⟩ | ⟨rfl, hnew⟩
    · rw [Function.update_of_ne hji]
      by_cases hk : k = i
      · -- the station still knows the claim of another one
        subst hk
        obtain rfl := Option.some.inj (hself.symm.trans hs')
        rcases h.known j k x s hji hold hs with hboot | ⟨R, hR, hle, hseen⟩ | ⟨e, he, -⟩
        · exact .inl hboot
        · refine .inr (.inl ⟨R, hR, hle, ?_⟩)
          rcases hentry with hsame | ⟨y, hy, hcleared⟩
          · rw [hsame, hseen]
          · have hne : x ≠ y := by
              rintro rfl
              exact hji (hdistinct j k x hx ⟨_, hself, hy⟩)
            rw [hcleared, Function.update_of_ne hne, hseen]
        · rw [hempty] at he
          exact absurd he List.not_mem_nil
      · rw [call_st_of_ne hk] at hs'
        rcases h.known j k x s' hjk hold hs' with hboot | hseen | ⟨e, he, -⟩
        · exact .inl hboot
        · exact .inr (.inl hseen)
        · rw [hempty] at he
          exact absurd he List.not_mem_nil
    · -- the others are about to hear what the station claims
      obtain ⟨kind, htx⟩ := hcast x hnew
      rw [call_st_of_ne hjk.symm] at hs'
      exact .inr (.inr ⟨_, mem_call_of_tx hs htx hjk.symm (by rw [hs']; rfl) (by simp), rfl, rfl,
        rfl⟩)
  · by_cases hj : j = i
    · subst hj
      obtain rfl := Option.some.inj (hself.symm.trans hs')
      have hold : s.entry x ≠ none := by
        rcases hentry with hsame | ⟨y, -, hcleared⟩
        · rwa [hsame] at hx
        · intro hnone
          rw [hcleared] at hx
          by_cases hxy : x = y
          · exact hx (by rw [hxy, Function.update_self])
          · exact hx (by rw [Function.update_of_ne hxy, hnone])
      obtain ⟨k, hk, hclaim⟩ := h.only j s x hs hold
      exact ⟨k, hk, hmono hclaim⟩
    · rw [call_st_of_ne hj] at hs'
      obtain ⟨k, hk, hclaim⟩ := h.only j s' x hs' hx
      exact ⟨k, hk, hmono hclaim⟩

/-- What a tick of any station does. -/
theorem Fleet.tick (h : Fleet mac skew d w cast b) (hn : n ≤ 15) (hd : d ≤ 1000)
    (hempty : b.flight = []) (hs : b.st i = some s) (ht : t = UInt32.ofNat (w.now + skew i)) :
    ∃ cast', Fleet mac skew d (w.see (w.now, .tick i t)) cast' (b.call mac i (.tick t)) := by
  have hin := h.inTime i s hs
  have hrecent := (h.recent i s hs).2
  have htick := hin.tick (h.ok i s hs).2.2 (by omega) le_rfl
    (show w.now + skew i ≤ w.last i + skew i + d by omega)
  rw [← ht] at htick
  rcases htick with hfull | ⟨hidle, h'⟩ | ⟨h', hcast⟩
  · refine absurd hfull (h.not_full hn hs (fun x hx => ?_) _)
    rcases IrIdNegotiator.exec_tick hin.wf t with ⟨-, hsame⟩ | ⟨-, -, hcleared⟩
    · exact (congrFun hsame x).trans hx
    · refine (congrFun hcleared x).trans ?_
      by_cases hxy : x = (s.exec (.tick t)).1.id
      · rw [hxy, Function.update_self]
      · rw [Function.update_of_ne hxy, hx]
  · exact ⟨cast, h.tick_idle hs hidle h'⟩
  · exact ⟨_, h.tick_casts hempty hd hs ht h' hcast⟩

/-- A tick of a station that is not booted. -/
theorem Fleet.tick_off (h : Fleet mac skew d w cast b) (hs : b.st i = none) :
    Fleet mac skew d (w.see (w.now, .tick i t)) cast b := by
  have hbooted : ∀ {j s}, b.st j = some s → j ≠ i := by
    rintro j s hj rfl
    exact nomatch hs.symm.trans hj
  refine ⟨h.ok, fun j s' hs' => ?_, fun j s' hs' => ?_, h.distinct, h.genuine, h.known, h.only⟩
  · simpa only [Watch.see, Function.update_of_ne (hbooted hs')] using h.inTime j s' hs'
  · simpa only [Watch.see, Function.update_of_ne (hbooted hs')] using h.recent j s' hs'

/-! ### Deliveries and hits -/

/-- Of the claim of another station a station takes note, and that is all. -/
theorem Fleet.exec_note (h : Fleet mac skew d w cast b) {j : Fin n} {x : UInt8}
    {c : IrIdNegotiator.Call} (hij : i ≠ j) (hclaim : b.Claims i x) (hs : b.st j = some s)
    (hev : c.evidence (mac j) = some (x, t)) : s.exec c = (s.note x t, []) := by
  obtain ⟨hwf, hsmac, -⟩ := h.ok j s hs
  exact IrIdNegotiator.exec_hears hwf (hsmac ▸ hev) (h.valid hclaim) fun hx =>
    hij (h.distinct i j x hclaim ⟨s, hs, hx⟩)

/-- A station takes note of the claim of another one. -/
theorem Fleet.hears (h : Fleet mac skew d w cast b) {j : Fin n} {x : UInt8} (hij : i ≠ j)
    (hclaim : b.Claims i x) (hs : b.st j = some s) (ht : t = UInt32.ofNat (w.now + skew j)) :
    Fleet mac skew d w cast { b with st := Function.update b.st j (some (s.note x t)) } ∧
      ∀ k y, b.Claims k y ↔
        ({ b with st := Function.update b.st j (some (s.note x t)) } : Bus n).Claims k y := by
  obtain ⟨hwf, hsmac, hsend⟩ := h.ok j s hs
  have hvalid : validId x = true := h.valid hclaim
  have hne : x ≠ s.id := fun hid =>
    hij (h.distinct i j x hclaim ⟨s, hs, .inr ⟨hwf.held_of_valid (hid ▸ hvalid), hid.symm⟩⟩)
  have hnote : ∀ {k s'}, Function.update b.st j (some (s.note x t)) k = some s' →
      k = j ∧ s' = s.note x t ∨ k ≠ j ∧ b.st k = some s' := by
    intro k s' hs'
    by_cases hk : k = j
    · subst hk
      rw [Function.update_self] at hs'
      exact .inl ⟨rfl, (Option.some.inj hs').symm⟩
    · rw [Function.update_of_ne hk] at hs'
      exact .inr ⟨hk, hs'⟩
  have hclaims : ∀ k y, b.Claims k y ↔
      ({ b with st := Function.update b.st j (some (s.note x t)) } : Bus n).Claims k y := by
    intro k y
    unfold Claims
    by_cases hk : k = j
    · subst hk
      simp [hs, IrIdNegotiator.Claims]
    · simp [Function.update_of_ne hk]
  refine ⟨⟨fun k s' hs' => ?_, fun k s' hs' => ?_, fun k s' hs' => ?_, fun k₁ k₂ y h₁ h₂ =>
    h.distinct k₁ k₂ y ((hclaims _ _).2 h₁) ((hclaims _ _).2 h₂), fun e he => ?_,
    fun k₁ k₂ y s' hk hy hs' => ?_, fun k s' y hs' hy => ?_⟩, hclaims⟩
  · rcases hnote hs' with ⟨rfl, rfl⟩ | ⟨-, hold⟩
    · exact ⟨hwf.note hne t, by simpa using hsmac, by simpa using hsend⟩
    · exact h.ok k s' hold
  · rcases hnote hs' with ⟨rfl, rfl⟩ | ⟨-, hold⟩
    · exact (h.inTime k s hs).note t hne
    · exact h.inTime k s' hold
  · rcases hnote hs' with ⟨rfl, rfl⟩ | ⟨-, hold⟩
    · exact h.recent k s hs
    · exact h.recent k s' hold
  · obtain ⟨k, hsrc, hdst, hold⟩ := h.genuine e he
    exact ⟨k, hsrc, hdst, (hclaims k e.id).1 hold⟩
  · have hold := (hclaims k₁ y).2 hy
    rcases hnote hs' with ⟨rfl, rfl⟩ | ⟨-, hsame⟩
    · -- the entry is the one just written, or the one before
      rw [IrIdNegotiator.entry_note s _ _ hvalid]
      by_cases hyx : y = x
      · subst hyx
        rw [Function.update_self, ht]
        have := (h.cast_le hold).1
        exact .inr (.inl ⟨w.now + skew k₂, by omega, le_rfl, rfl⟩)
      · rw [Function.update_of_ne hyx]
        exact h.known k₁ k₂ y s hk hold hs
    · exact h.known k₁ k₂ y s' hk hold hsame
  · rcases hnote hs' with ⟨rfl, rfl⟩ | ⟨-, hsame⟩
    · by_cases hyx : y = x
      · subst hyx
        exact ⟨i, hij, (hclaims i y).1 hclaim⟩
      · rw [IrIdNegotiator.entry_note s _ _ hvalid, Function.update_of_ne hyx] at hy
        obtain ⟨l, hl, hold⟩ := h.only k s y hs hy
        exact ⟨l, hl, (hclaims l y).1 hold⟩
    · obtain ⟨l, hl, hold⟩ := h.only k s' y hsame hy
      exact ⟨l, hl, (hclaims l y).1 hold⟩

/-- An envelope is not needed any more once its id has been written down where it
goes. -/
theorem Fleet.takeOut (h : Fleet mac skew d w cast b) {k : ℕ} {e : Envelope n}
    (he : b.flight[k]? = some e) (hseen : ∀ s, b.st e.dst = some s →
      s.entry e.id = some (UInt32.ofNat (w.now + skew e.dst))) :
    Fleet mac skew d w cast { b with flight := b.flight.eraseIdx k } := by
  refine ⟨h.ok, h.inTime, h.recent, h.distinct,
    fun e' he' => h.genuine e' (mem_of_mem_eraseIdx he'), fun i j x s hij hx hs => ?_, h.only⟩
  rcases h.known i j x s hij hx hs with hboot | hentry | ⟨e', he', hsrc, hdst, hid⟩
  · exact .inl hboot
  · exact .inr (.inl hentry)
  · rcases mem_or_of_getElem? he he' with rfl | hmem
    · subst hdst hid
      have := (h.cast_le hx).1
      exact .inr (.inl ⟨w.now + skew e'.dst, by omega, le_rfl, hseen s hs⟩)
    · exact .inr (.inr ⟨e', hmem, hsrc, hdst, hid⟩)

/-- What is delivered is written down; if its destination is not booted, it is
lost. -/
theorem Fleet.deliver (h : Fleet mac skew d w cast b) (hmac : Function.Injective mac) {k : ℕ}
    (ht : ∀ e ∈ b.flight[k]?, t = UInt32.ofNat (w.now + skew e.dst)) :
    Fleet mac skew d w cast (b.step mac (.deliver k t)) ∧
      ∀ j x, b.Claims j x → (b.step mac (.deliver k t)).Claims j x := by
  cases he : b.flight[k]? with
  | none =>
    rw [step_deliver_none he]
    exact ⟨h, fun _ _ hx => hx⟩
  | some e =>
    rw [step_deliver he]
    cases hs : b.st e.dst with
    | none =>
      have hs₁ : ({ b with flight := b.flight.eraseIdx k } : Bus n).st e.dst = none := hs
      rw [call_of_none hs₁]
      exact ⟨h.takeOut he (by simp [hs]), fun _ _ hx => hx⟩
    | some s =>
      obtain ⟨i, hsrc, hne, hclaim⟩ := h.genuine e (List.mem_of_getElem? he)
      have hev : (e.call t).evidence (mac e.dst) = some (e.id, t) := by
        have hforeign : e.src ≠ mac e.dst := hsrc ▸ hmac.ne hne
        unfold Envelope.call
        split <;> simp [IrIdNegotiator.Call.evidence, hforeign]
      have hs₁ : ({ b with flight := b.flight.eraseIdx k } : Bus n).st e.dst = some s := hs
      rw [call_silent hs₁ (h.exec_note hne hclaim hs hev)]
      have hvalid : validId e.id = true := h.valid hclaim
      obtain ⟨hfleet, hclaims⟩ := h.hears hne hclaim hs (ht e he)
      refine ⟨hfleet.takeOut he fun s' hs' => ?_, fun j x hx => (hclaims j x).1 hx⟩
      obtain rfl : s.note e.id t = s' := by simpa using hs'
      rw [IrIdNegotiator.entry_note s _ _ hvalid, Function.update_self, ht e he]

/-- A hit confirms the id of the shooter. -/
theorem Fleet.hit (h : Fleet mac skew d w cast b) {x : UInt8}
    (hx : validId x = true → ∃ j, b.Holds j x) (ht : t = UInt32.ofNat (w.now + skew i)) :
    Fleet mac skew d w cast (b.step mac (.hit i x t)) ∧
      ∀ j y, b.Claims j y → (b.step mac (.hit i x t)).Claims j y := by
  rw [Bus.step]
  cases hs : b.st i with
  | none =>
    rw [call_of_none hs]
    exact ⟨h, fun _ _ hy => hy⟩
  | some s =>
    cases hvalid : validId x with
    | false =>
      rw [call_idle hs (IrIdNegotiator.exec_onHitReport_ignored hvalid t)]
      exact ⟨h, fun _ _ hy => hy⟩
    | true =>
      obtain ⟨j, s', hs', hheld, rfl⟩ := hx hvalid
      by_cases hj : j = i
      · -- its own id: somebody repeats what it has fired
        subst hj
        obtain rfl := Option.some.inj (hs.symm.trans hs')
        have hown : s.exec (.onHitReport s.id t) = (s, []) := by
          simp [IrIdNegotiator.exec, IrIdNegotiator.onHitReport]
        rw [call_idle hs hown]
        exact ⟨h, fun _ _ hy => hy⟩
      · have hclaim : b.Claims j s'.id := ⟨s', hs', .inr ⟨hheld, rfl⟩⟩
        rw [call_silent hs (h.exec_note hj hclaim hs rfl)]
        obtain ⟨hfleet, hclaims⟩ := h.hears hj hclaim hs ht
        exact ⟨hfleet, fun k y => (hclaims k y).1⟩

/-! ### Runs -/

/-- The step lemma; no event gives up a claim. -/
theorem Fleet.step (h : Fleet mac skew d w cast b) (hmac : Function.Injective mac) (hn : n ≤ 15)
    (hd : d ≤ 1000) {e : ℕ × Act n} (ha : Allowed skew d b w e) :
    ∃ cast', Fleet mac skew d (w.see e) cast' (b.step mac e.2) ∧
      ∀ i x, b.Claims i x → (b.step mac e.2).Claims i x := by
  obtain ⟨T, a⟩ := e
  obtain ⟨hnow, hlast, hact⟩ := ha
  have h' := h.later hnow hlast
  cases a with
  | boot i p t =>
    obtain ⟨hempty, hi, ht⟩ := hact
    obtain rfl : t = UInt32.ofNat (T + skew i) := ht
    exact ⟨_, h'.boot hempty hi p, fun j x hx => (claims_boot_iff hi).2 hx⟩
  | tick i t =>
    cases hs : b.st i with
    | none =>
      rw [Bus.step, call_of_none hs]
      exact ⟨cast, h'.tick_off hs, fun _ _ hx => hx⟩
    | some s =>
      obtain ⟨cast', hfleet⟩ := h'.tick hn hd hact.1 hs hact.2
      exact ⟨cast', hfleet, fun j x hx =>
        hx.call fun s' hs' hx' => hx'.tick (h.inTime i s' hs').wf t⟩
  | hit i x t => exact ⟨cast, h'.hit hact.1 hact.2⟩
  | deliver k t => exact ⟨cast, h'.deliver hmac hact⟩

/-- The run lemma. -/
theorem Fleet.run (h : Fleet mac skew d w cast b) (hmac : Function.Injective mac) (hn : n ≤ 15)
    (hd : d ≤ 1000) {es : List (ℕ × Act n)} (hes : Prompt mac skew d b w es) :
    (∃ cast', Fleet mac skew d (es.foldl Watch.see w) cast' (b.run mac (es.map Prod.snd))) ∧
      ∀ i x, b.Claims i x → (b.run mac (es.map Prod.snd)).Claims i x := by
  induction es generalizing b w cast with
  | nil => exact ⟨⟨cast, h⟩, fun _ _ hx => hx⟩
  | cons e es ih =>
    obtain ⟨cast', hfleet, hclaims⟩ := h.step hmac hn hd hes.1
    obtain ⟨hrun, hmore⟩ := ih hfleet hes.2
    exact ⟨hrun, fun i x hx => hmore i x (hclaims i x hx)⟩

/-- A booted station does not boot again. -/
theorem boot_stays {es : List (ℕ × Act n)} (hes : Prompt mac skew d b w es)
    (hi : (b.st i).isSome = true) :
    (es.foldl Watch.see w).boot i = w.boot i ∧
      ((b.run mac (es.map Prod.snd)).st i).isSome = true := by
  induction es generalizing b w with
  | nil => exact ⟨rfl, hi⟩
  | cons e es ih =>
    obtain ⟨⟨-, -, hact⟩, hrest⟩ := hes
    obtain ⟨T, a⟩ := e
    have hcall : ∀ {b : Bus n} {j c}, (b.st i).isSome = true →
        ((b.call mac j c).st i).isSome = true := by
      intro b j c hi
      by_cases hij : i = j
      · subst hij
        obtain ⟨s, hs⟩ := Option.isSome_iff_exists.1 hi
        rw [call_st_self hs]
        rfl
      · rwa [call_st_of_ne hij]
    cases a with
    | boot j p t =>
      have hij : i ≠ j := by
        rintro rfl
        rw [hact.2.1] at hi
        exact nomatch hi
      obtain ⟨hboot, hsome⟩ := ih hrest (by rwa [Bus.step, boot_st_of_ne hij])
      exact ⟨hboot.trans (Function.update_of_ne hij _ _), hsome⟩
    | tick j t => exact ih hrest (hcall hi)
    | hit j x t => exact ih hrest (hcall hi)
    | deliver k t =>
      refine ih hrest ?_
      show ((b.step mac (.deliver k t)).st i).isSome = true
      cases he : b.flight[k]? with
      | none => rwa [step_deliver_none he]
      | some env =>
        rw [step_deliver he]
        exact hcall hi

/-- The clock of the watch is at or after every event. -/
theorem Prompt.le_now {es : List (ℕ × Act n)} (hes : Prompt mac skew d b w es) :
    w.now ≤ (es.foldl Watch.see w).now ∧ ∀ e ∈ es, e.1 ≤ (es.foldl Watch.see w).now := by
  induction es generalizing b w with
  | nil => exact ⟨le_rfl, by simp⟩
  | cons e es ih =>
    obtain ⟨⟨hnow, -⟩, hrest⟩ := hes
    obtain ⟨hle, hall⟩ := ih hrest
    have hsee : (w.see e).now = e.1 := by
      obtain ⟨T, a⟩ := e
      cases a <;> rfl
    rw [hsee] at hle
    refine ⟨hnow.trans hle, fun f hf => ?_⟩
    rcases List.mem_cons.1 hf with rfl | hf
    · exact hle
    · exact hall f hf

theorem prompt_append {es fs : List (ℕ × Act n)} :
    Prompt mac skew d b w (es ++ fs) ↔ Prompt mac skew d b w es ∧
      Prompt mac skew d (b.run mac (es.map Prod.snd)) (es.foldl Watch.see w) fs := by
  induction es generalizing b w with
  | nil => simp [Prompt]
  | cons e es ih => simp [Prompt, ih, Bus.run, and_assoc]

/-- Once its time is up, a station holds what it claims. -/
theorem Fleet.holds (h : Fleet mac skew d w cast b) (hs : b.st i = some s)
    (hlate : w.boot i + 3450 + 4 * d < w.now) : b.Holds i s.id ∧ s.Claims s.id := by
  have hrecent := (h.recent i s hs).2
  rcases h.inTime i s hs with hon | hbeacon
  · have hle := hon.le_due (T := w.now + skew i) (by omega)
    unfold IrIdNegotiator.due at hle
    omega
  · exact ⟨⟨s, hs, hbeacon.held, rfl⟩, .inr ⟨hbeacon.held, rfl⟩⟩

end Fleet

/-! ### Everybody gets an id -/

/-- **A fleet settles**: at most fifteen stations boot at any times on a lossless
bus, are ticked at most a second apart, each with a clock of its own, and hit one
another under the ids they hold.  From 3450 + 4`d` ms after its boot on, a station
holds an id, it is the same one in every continuation, and nobody else holds or
probes it. -/
theorem fleet_settles (hmac : Function.Injective mac) (hn : n ≤ 15) {skew : Fin n → ℕ} {d : ℕ}
    (hd : d ≤ 1000) {es es' : List (ℕ × Act n)} (hrun : Prompt mac skew d off {} (es ++ es'))
    {i : Fin n} {p : UInt8} {t : UInt32} {T : ℕ} (hboot : (T, .boot i p t) ∈ es)
    (hlate : ∃ e ∈ es, T + 3450 + 4 * d < e.1) :
    ∃ x, validId x = true ∧ (off.run mac (es.map Prod.snd)).Holds i x ∧
      (off.run mac ((es ++ es').map Prod.snd)).Holds i x ∧
      ∀ j, j ≠ i → ¬ (off.run mac ((es ++ es').map Prod.snd)).Holds j x ∧
        ¬ (off.run mac ((es ++ es').map Prod.snd)).Probes j x := by
  obtain ⟨hfirst, hrest⟩ := prompt_append.1 hrun
  have hstart : Fleet mac skew d {} (fun _ => 0) off := fleet_off
  obtain ⟨⟨cast, hfleet⟩, -⟩ := hstart.run hmac hn hd hfirst
  obtain ⟨⟨cast', hfleet'⟩, hkeep⟩ := hfleet.run hmac hn hd hrest
  -- the station is booted since `T`
  have hsince : (es.foldl Watch.see {}).boot i = T ∧
      ((off.run mac (es.map Prod.snd)).st i).isSome = true := by
    obtain ⟨pre, mid, rfl⟩ := List.append_of_mem hboot
    obtain ⟨-, hact, hmid⟩ := prompt_append.1 hfirst
    have hst : (((off.run mac (pre.map Prod.snd)).boot mac i p t).st i).isSome = true := by
      rw [boot_st_self hact.2.2.2.1]
      rfl
    obtain ⟨hsame, hsome⟩ := boot_stays hmid hst
    rw [List.foldl_append, List.foldl_cons, List.map_append, List.map_cons, run_append]
    exact ⟨hsame.trans (Function.update_self _ _ _), hsome⟩
  obtain ⟨hsince', hsome'⟩ := boot_stays hrest hsince.2
  rw [hsince.1] at hsince'
  obtain ⟨e, he, hlt⟩ := hlate
  have hnow := (hfirst.le_now).2 e he
  have hnow' := (hrest.le_now).1
  obtain ⟨s, hs⟩ := Option.isSome_iff_exists.1 hsince.2
  obtain ⟨s', hs'⟩ := Option.isSome_iff_exists.1 hsome'
  obtain ⟨hholds, hclaims⟩ := hfleet.holds hs (by omega)
  obtain ⟨hholds', hclaims'⟩ := hfleet'.holds hs' (by omega)
  -- it is the same id, since no claim is given up
  obtain ⟨s'', hs'', hx⟩ := hkeep i s.id ⟨s, hs, hclaims⟩
  obtain rfl := Option.some.inj (hs'.symm.trans hs'')
  have hid : s.id = s'.id := hx.eq hclaims'
  rw [List.map_append, run_append]
  refine ⟨s.id, hclaims.valid (hfleet.inTime i s hs).wf, hholds, hid ▸ hholds', fun j hj => ?_⟩
  have hother : ¬ Claims _ j s.id := fun hclaim => hj
    (hfleet'.distinct j i s.id hclaim ⟨s', hs', hx⟩)
  exact ⟨fun ⟨u, hu, hst, hux⟩ => hother ⟨u, hu, .inr ⟨hst, hux⟩⟩,
    fun ⟨u, hu, hst, hux⟩ => hother ⟨u, hu, .inl ⟨hst, hux⟩⟩⟩

/-- The clock of the second station overflows at 2000. -/
def pairSkew (i : Fin 2) : ℕ := if i.val = 0 then 0 else 2 ^ 32 - 2000

/-- Two stations, ticked once a second; the first one hits the second one as soon
as it holds an id. -/
def pairBoot {n : ℕ} (a b : Fin n) : List (ℕ × Act n) :=
  [(0, .boot a 0 0), (500, .boot b 0 4294965796), (1000, .tick a 1000),
    (1500, .tick b 4294966796), (2000, .tick a 2000), (2500, .tick b 500), (3000, .tick a 3000),
    (3001, .deliver 0 1001), (3500, .tick b 1500), (3501, .deliver 0 3501), (4000, .tick a 4000),
    (4001, .deliver 0 2001), (4500, .tick b 2500), (4501, .deliver 0 4501), (5000, .tick a 5000),
    (5001, .deliver 0 3001), (5500, .tick b 3500), (5501, .deliver 0 5501), (6000, .tick a 6000),
    (6001, .deliver 0 4001), (6002, .deliver 0 4002), (6100, .hit b 4 4100),
    (6500, .tick b 4500), (6501, .deliver 0 6501), (6502, .deliver 0 6502), (7000, .tick a 7000),
    (7100, .hit a 0 7100), (7451, .tick a 7451)]

/-- One more tick. -/
def pairAfter {n : ℕ} (b : Fin n) : List (ℕ × Act n) := [(7500, .tick b 5500)]

theorem fleet_settles_pair :
    ∃ x, validId x = true ∧ (off.run lateMac ((pairBoot 0 1).map Prod.snd)).Holds 0 x ∧
      (off.run lateMac ((pairBoot 0 1 ++ pairAfter 1).map Prod.snd)).Holds 0 x ∧
      ∀ j, j ≠ 0 → ¬ (off.run lateMac ((pairBoot 0 1 ++ pairAfter 1).map Prod.snd)).Holds j x ∧
        ¬ (off.run lateMac ((pairBoot 0 1 ++ pairAfter 1).map Prod.snd)).Probes j x := by
  refine @fleet_settles 2 lateMac ?_ (by decide) pairSkew 1000 le_rfl (pairBoot 0 1)
    (pairAfter 1) (by decide +kernel) 0 0 0 0 (by decide)
    ⟨(7451, .tick 0 7451), by decide, by decide⟩
  intro i j h
  fin_cases i <;> fin_cases j <;> first | rfl | exact absurd h (by decide)

end Bus

end InfinitagNow
