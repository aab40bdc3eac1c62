/-
InfinitagNow/BusConflict.lean

Every conflict resolves: once the network has calmed down, no two stations
hold the same id.

The start is arbitrary.  Stations may hold the same id already, as after an
isolated boot, and anything may be in flight.  The invariant looks at one pair
of stations that hold the same id `x` and asks why it has not been noticed yet:

    a beacon of one for `x` is on its way to the other,
    or both have held `x` from the start and neither has sent a beacon.

A call on one of the two either broadcasts a beacon, which puts a new one on
its way, or transmits nothing and did not consume the beacon of the other.
When nothing is in flight only the second reason is left.
-/
import InfinitagNow.StationBus

namespace InfinitagNow

namespace Bus

variable {n : ℕ} (mac : Fin n → Mac)

/-- Station `i` has sent a beacon since the log was started. -/
def Beaconed (b : Bus n) (i : Fin n) : Prop := ∃ t, (i, t) ∈ b.log ∧ t.kind = .beacon

/-- Station `i` was in state HELD in every configuration of the run. -/
def HeldThroughout (b : Bus n) (acts : List (Act n)) (i : Fin n) : Prop :=
  ∀ as, as <+: acts → ∃ s, (b.run mac as).st i = some s ∧ s.state = .held

variable {mac}

/-! ### One call on one of the two stations -/

/-- A call on `i` while `i` and `j` hold `x` afterwards. -/
theorem conflict_call_self (hmac : Function.Injective mac) {b b₁ : Bus n} (hok : b.Ok mac)
    (hst : b₁.st = b.st) (hlog : b₁.log = b.log) {i j : Fin n} (hij : i ≠ j)
    {c : IrIdNegotiator.Call} (hc : ∀ m p t y, c ≠ .begin m p t y) (hh : Handed b b₁ i c)
    {x : UInt8} (hi : (b₁.call mac i c).Holds i x) (hj : (b₁.call mac i c).Holds j x) :
    BeaconTo mac (b₁.call mac i c) i j x ∨
      b.Holds i x ∧ b.Holds j x ∧ (b₁.call mac i c).log = b.log ∧
        ∀ i' j', (i' = i ∧ j' = j ∨ i' = j ∧ j' = i) → BeaconTo mac b i' j' x →
          BeaconTo mac (b₁.call mac i c) i' j' x := by
  obtain ⟨s', hs', hheld, hid⟩ := hi
  obtain ⟨sj, hsj, hjheld, hjid⟩ := hj
  rw [call_st_of_ne hij.symm] at hsj
  cases hs : b₁.st i with
  | none =>
    rw [call_of_none hs, hs] at hs'
    cases hs'
  | some s =>
    rw [call_st_self hs] at hs'
    obtain rfl := Option.some.inj hs'
    obtain ⟨hwf, hsmac, hsend⟩ := hok i s (by rw [← hst, hs])
    rcases IrIdNegotiator.held_after hwf hsend hc hheld with hbeacon | ⟨hnil, hsheld, hsid, hno⟩
    · -- the call announces the id to everybody
      left
      rw [hid] at hbeacon
      exact mem_call_of_tx hs hbeacon hij.symm (by simp [hsj]) (by simp)
    · -- it was silent: `i` held the id before, and a beacon of `j` would have been answered
      right
      rw [hid] at hsid
      refine ⟨⟨s, by rw [← hst, hs], hsheld, hsid⟩, ⟨sj, by rw [← hst, hsj], hjheld, hjid⟩,
        by simp [call_of_some hs, hnil, hlog], ?_⟩
      rintro i' j' (⟨rfl, rfl⟩ | ⟨rfl, rfl⟩) hon
      · rcases hh _ hon with hmem | ⟨hdst, -⟩
        · exact mem_call_of_mem hmem
        · exact absurd hdst hij.symm
      · rcases hh _ hon with hmem | ⟨-, t, hcall⟩
        · exact mem_call_of_mem hmem
        · have hne : mac i' ≠ s.mac := by
            rw [hsmac]
            exact fun heq => hij (hmac heq).symm
          exact absurd (by rw [hcall, hsid]; rfl) (hno (mac i') t hne).2

/-- A call on a third station. -/
theorem conflict_call_other {b b₁ : Bus n} (hst : b₁.st = b.st) (hlog : b₁.log = b.log)
    {i j k : Fin n} (hik : i ≠ k) (hjk : j ≠ k) {c : IrIdNegotiator.Call}
    (hh : Handed b b₁ k c) {x : UInt8} (hi : (b₁.call mac k c).Holds i x)
    (hj : (b₁.call mac k c).Holds j x) :
    b.Holds i x ∧ b.Holds j x ∧
      (∀ l t, l ≠ k → (l, t) ∈ (b₁.call mac k c).log → (l, t) ∈ b.log) ∧
        ∀ i' j', j' ≠ k → BeaconTo mac b i' j' x → BeaconTo mac (b₁.call mac k c) i' j' x := by
  obtain ⟨si, hsi, hi⟩ := hi
  obtain ⟨sj, hsj, hj⟩ := hj
  rw [call_st_of_ne hik, hst] at hsi
  rw [call_st_of_ne hjk, hst] at hsj
  refine ⟨⟨si, hsi, hi⟩, ⟨sj, hsj, hj⟩, ?_, ?_⟩
  · intro l t hl hmem
    cases hs : b₁.st k with
    | none =>
      rwa [call_of_none hs, hlog] at hmem
    | some s =>
      rw [call_of_some hs] at hmem
      rcases List.mem_append.1 hmem with hmem | hmem
      · rwa [hlog] at hmem
      · obtain ⟨u, -, hu⟩ := List.mem_map.1 hmem
        exact absurd (congrArg Prod.fst hu).symm hl
  · intro i' j' hj' hon
    rcases hh _ hon with hmem | ⟨hdst, -⟩
    · exact mem_call_of_mem hmem
    · exact absurd hdst hj'

/-! ### The invariant -/

/-- Why the conflict of `i` and `j` about `x` is not settled yet. -/
def Unsettled (mac : Fin n → Mac) (b₀ : Bus n) (acts : List (Act n)) (i j : Fin n)
    (x : UInt8) : Prop :=
  BeaconTo mac (b₀.run mac acts) i j x ∨ BeaconTo mac (b₀.run mac acts) j i x ∨
    (HeldThroughout mac b₀ acts i ∧ ¬ Beaconed (b₀.run mac acts) i) ∧
      HeldThroughout mac b₀ acts j ∧ ¬ Beaconed (b₀.run mac acts) j

theorem Unsettled.symm {b₀ : Bus n} {acts : List (Act n)} {i j : Fin n} {x : UInt8}
    (h : Unsettled mac b₀ acts i j x) : Unsettled mac b₀ acts j i x := by
  rcases h with h | h | ⟨h1, h2⟩
  · exact .inr (.inl h)
  · exact .inl h
  · exact .inr (.inr ⟨h2, h1⟩)

theorem HeldThroughout.concat {b₀ : Bus n} {acts : List (Act n)} {i : Fin n}
    (h : HeldThroughout mac b₀ acts i) {a : Act n} {x : UInt8}
    (ha : ((b₀.run mac acts).step mac a).Holds i x) : HeldThroughout mac b₀ (acts ++ [a]) i := by
  intro as has
  rcases List.prefix_concat_iff.1 has with rfl | has
  · obtain ⟨s, hs, hheld, -⟩ := ha
    exact ⟨s, by rw [run_concat]; exact hs, hheld⟩
  · exact h as has

/-- The step lemma for calls. -/
theorem unsettled_call (hmac : Function.Injective mac) {b₀ : Bus n} {acts : List (Act n)}
    (hok : (b₀.run mac acts).Ok mac)
    (ih : ∀ i j x, i ≠ j → (b₀.run mac acts).Holds i x → (b₀.run mac acts).Holds j x →
      Unsettled mac b₀ acts i j x)
    {a : Act n} {b₁ : Bus n} {k : Fin n} {c : IrIdNegotiator.Call}
    (ha : (b₀.run mac acts).step mac a = b₁.call mac k c)
    (hst : b₁.st = (b₀.run mac acts).st) (hlog : b₁.log = (b₀.run mac acts).log)
    (hc : ∀ m p t y, c ≠ .begin m p t y) (hh : Handed (b₀.run mac acts) b₁ k c) {i j : Fin n}
    {x : UInt8} (hij : i ≠ j) (hi : (b₁.call mac k c).Holds i x)
    (hj : (b₁.call mac k c).Holds j x) : Unsettled mac b₀ (acts ++ [a]) i j x := by
  -- the pair kept its state, its beacons and its silence: the old reason still stands
  have carry : ∀ i j : Fin n, i ≠ j → (b₁.call mac k c).Holds i x → (b₁.call mac k c).Holds j x →
      (b₀.run mac acts).Holds i x → (b₀.run mac acts).Holds j x →
      (∀ l t, l = i ∨ l = j → (l, t) ∈ (b₁.call mac k c).log → (l, t) ∈ (b₀.run mac acts).log) →
      (∀ i' j', (i' = i ∧ j' = j ∨ i' = j ∧ j' = i) → BeaconTo mac (b₀.run mac acts) i' j' x →
        BeaconTo mac (b₁.call mac k c) i' j' x) → Unsettled mac b₀ (acts ++ [a]) i j x := by
    intro i j hij hi hj hi₀ hj₀ hlogs hkeep
    unfold Unsettled
    rw [run_concat, ha]
    rcases ih i j x hij hi₀ hj₀ with h | h | ⟨⟨h1, h2⟩, h3, h4⟩
    · exact .inl (hkeep i j (.inl ⟨rfl, rfl⟩) h)
    · exact .inr (.inl (hkeep j i (.inr ⟨rfl, rfl⟩) h))
    · refine .inr (.inr ⟨⟨h1.concat (x := x) (by rw [ha]; exact hi), ?_⟩,
        h3.concat (x := x) (by rw [ha]; exact hj), ?_⟩)
      · rintro ⟨t, ht, hk⟩
        exact h2 ⟨t, hlogs i t (.inl rfl) ht, hk⟩
      · rintro ⟨t, ht, hk⟩
        exact h4 ⟨t, hlogs j t (.inr rfl) ht, hk⟩
  -- a call on the first station of the pair
  have self : ∀ i j : Fin n, i ≠ j → k = i → (b₁.call mac k c).Holds i x →
      (b₁.call mac k c).Holds j x → Unsettled mac b₀ (acts ++ [a]) i j x := by
    rintro i j hij rfl hi hj
    rcases conflict_call_self hmac hok hst hlog hij hc hh hi hj with hb | ⟨hi₀, hj₀, hl, hkeep⟩
    · left
      rw [run_concat, ha]
      exact hb
    · exact carry k j hij hi hj hi₀ hj₀ (fun l t _ hmem => hl ▸ hmem) hkeep
  by_cases hki : k = i
  · exact self i j hij hki hi hj
  by_cases hkj : k = j
  · exact (self j i hij.symm hkj hj hi).symm
  obtain ⟨hi₀, hj₀, hlogs, hkeep⟩ :=
    conflict_call_other hst hlog (Ne.symm hki) (Ne.symm hkj) hh hi hj
  refine carry i j hij hi hj hi₀ hj₀ ?_ ?_
  · rintro l t (rfl | rfl) hmem
    · exact hlogs _ t (Ne.symm hki) hmem
    · exact hlogs _ t (Ne.symm hkj) hmem
  · rintro i' j' (⟨rfl, rfl⟩ | ⟨rfl, rfl⟩) hon
    · exact hkeep _ _ (Ne.symm hkj) hon
    · exact hkeep _ _ (Ne.symm hki) hon

/-- The run lemma: every conflict has a reason to be unsettled. -/
theorem unsettled_run (hmac : Function.Injective mac) {b₀ : Bus n} (hok : b₀.Ok mac)
    (hlog : b₀.log = []) (acts : List (Act n)) :
    ∀ i j x, i ≠ j → (b₀.run mac acts).Holds i x → (b₀.run mac acts).Holds j x →
      Unsettled mac b₀ acts i j x := by
  induction acts using List.reverseRecOn with
  | nil =>
    -- no run yet: both hold from the beginning and nobody has sent
    rintro i j x - ⟨si, hsi, hi, -⟩ ⟨sj, hsj, hj, -⟩
    have hsilent : ∀ l, ¬ Beaconed b₀ l := by
      rintro l ⟨t, ht, -⟩
      simp [hlog] at ht
    refine .inr (.inr ⟨⟨?_, hsilent i⟩, ?_, hsilent j⟩)
    · intro as has
      obtain rfl := List.prefix_nil.1 has
      exact ⟨si, hsi, hi⟩
    · intro as has
      obtain rfl := List.prefix_nil.1 has
      exact ⟨sj, hsj, hj⟩
  | append_singleton acts a ih =>
    intro i j x hij hi hj
    have hokr := hok.run acts
    rw [run_concat] at hi hj
    cases a with
    | tick k t | hit k y t =>
      exact unsettled_call hmac hokr ih rfl rfl rfl (by simp) (handed_refl _ _ _) hij hi hj
    | boot k p t =>
      obtain ⟨hik, hi₀⟩ := holds_boot hi
      obtain ⟨hjk, hj₀⟩ := holds_boot hj
      unfold Unsettled
      rw [run_concat]
      rcases ih i j x hij hi₀ hj₀ with h | h | ⟨⟨h1, h2⟩, h3, h4⟩
      · exact .inl h
      · exact .inr (.inl h)
      · exact .inr (.inr ⟨⟨h1.concat hi, h2⟩, h3.concat hj, h4⟩)
    | deliver k t =>
      cases he : (b₀.run mac acts).flight[k]? with
      | none =>
        have hstep : (b₀.run mac acts).step mac (.deliver k t) = _ := step_deliver_none he
        rw [hstep] at hi hj
        unfold Unsettled
        rw [run_concat, hstep]
        rcases ih i j x hij hi hj with h | h | ⟨⟨h1, h2⟩, h3, h4⟩
        · exact .inl h
        · exact .inr (.inl h)
        · exact .inr (.inr ⟨⟨h1.concat (by rw [hstep]; exact hi), h2⟩,
            h3.concat (by rw [hstep]; exact hj), h4⟩)
      | some e =>
        have hstep : (b₀.run mac acts).step mac (.deliver k t) = _ := step_deliver he
        rw [hstep] at hi hj
        exact unsettled_call hmac hokr ih hstep rfl rfl (call_ne_begin _ _) (handed_takeOut he t)
          hij hi hj

/-! ### The conflict theorem -/

/-- **Conflicts resolve**: from any start, when nothing is in flight and every
station that was HELD all along has sent a beacon, the held ids are pairwise
distinct. -/
theorem irIds_distinct_of_quiet (hmac : Function.Injective mac) (b₀ : Bus n)
    (hok : b₀.Ok mac) (hlog : b₀.log = []) (acts : List (Act n))
    (hquiet : (b₀.run mac acts).flight = [])
    (hbeacon : ∀ i, HeldThroughout mac b₀ acts i → Beaconed (b₀.run mac acts) i)
    (i j : Fin n) (hij : i ≠ j) (hi : (b₀.run mac acts).irId i ≠ 0) :
    (b₀.run mac acts).irId i ≠ (b₀.run mac acts).irId j := by
  intro heq
  have hokr := hok.run acts
  have hi' := holds_of_irId hokr hi
  have hj' := holds_of_irId hokr (i := j) (heq ▸ hi)
  rw [← heq] at hj'
  have hnone : ∀ k l, ¬ BeaconTo mac (b₀.run mac acts) k l ((b₀.run mac acts).irId i) := by
    intro k l h
    simp [BeaconTo, hquiet] at h
  rcases unsettled_run hmac hok hlog acts i j _ hij hi' hj' with h | h | ⟨⟨h1, h2⟩, -⟩
  · exact hnone _ _ h
  · exact hnone _ _ h
  · exact h2 (hbeacon i h1)

/-- Two stations that booted out of range of each other and both hold id 4. -/
def meetMac (i : Fin 2) : Mac := ⟨#v[0x24, 0x6F, 0x28, 0, 0, if i.val = 0 then 0x03 else 0x12]⟩

def meetBus : Bus 2 where
  st i := some { send := true, mac := meetMac i, state := .held, id := 4 }
  flight := []

/-- The first one's beacon and the second one's probe are delivered. -/
theorem irIds_distinct_of_quiet_meet :
    (meetBus.run meetMac [.tick 0 2000, .deliver 0 2000, .deliver 0 2000]).irId 0 ≠
      (meetBus.run meetMac [.tick 0 2000, .deliver 0 2000, .deliver 0 2000]).irId 1 := by
  refine @irIds_distinct_of_quiet 2 meetMac ?_ meetBus ?_ rfl _ ?_ ?_ 0 1 (by decide) ?_
  · intro i j h
    fin_cases i <;> fin_cases j <;> first | rfl | exact absurd h (by decide)
  · rintro i s ⟨⟩
    exact ⟨⟨by simp, by simp, by simp, by simp, by simp, fun _ => rfl⟩, rfl, rfl⟩
  · decide
  · intro i hi
    fin_cases i
    · exact ⟨⟨.beacon, 4, none⟩, by decide, rfl⟩
    · obtain ⟨s, hs, hheld⟩ := hi _ List.prefix_rfl
      obtain rfl := Option.some.inj hs
      exact absurd hheld (by decide)
  · decide

end Bus

end InfinitagNow
