/-
InfinitagNow/PeerEviction.lean

Which peer has to go when the cache is full (`EspNowService::ensurePeer` of
`src/EspNowService.cpp`).

Real time `T` is unbounded, the code sees `millis()`, T modulo 2^32.  In every
slot stands the clock value of the last use of its peer (`Stamped`), and the
slot with the smallest value is taken (`oldest_le`).  That is the peer used
longest ago as long as no wrap of the clock lies between the last uses of two
peers, and never otherwise (`evictsOldest_iff`).
-/
import InfinitagNow.PeerCache

namespace InfinitagNow

open SlotTable

/-- A call of `ensurePeer`, in real time. -/
structure Use where
  time : ℕ
  mac : Mac
  deriving DecidableEq, Repr

/-- The last use of a peer. -/
def lastUsed (calls : List Use) (mac : Mac) : Option ℕ :=
  (calls.reverse.find? fun c => c.mac = mac).map Use.time

theorem lastUsed_concat (calls : List Use) (c : Use) (mac : Mac) :
    lastUsed (calls ++ [c]) mac = if c.mac = mac then some c.time else lastUsed calls mac := by
  rw [lastUsed, List.reverse_append, List.reverse_singleton, List.singleton_append, List.find?_cons]
  by_cases h : c.mac = mac
  · simp [h]
  · simp [h, lastUsed]

theorem mem_of_lastUsed {calls : List Use} {mac : Mac} {T : ℕ} (h : T ∈ lastUsed calls mac) :
    ∃ c ∈ calls, c.time = T := by
  obtain ⟨c, hfind, rfl⟩ := Option.map_eq_some_iff.1 h
  exact ⟨c, List.mem_reverse.1 (List.mem_of_find?_eq_some hfind), rfl⟩

/-- The driver, with the clock at real time `T`. -/
@[simps millis]
def NowLib.clocked (lib : NowLib) (T : ℕ) : NowLib := { lib with millis := fun _ => UInt32.ofNat T }

theorem NowLib.Keeps.clocked {lib : NowLib} (h : lib.Keeps) (T : ℕ) : (lib.clocked T).Keeps := h

namespace EspNowService

variable {ρ : Type*}

section Calls

variable (lib : NowLib)

def use (net : EspNowService ρ) (c : Use) : EspNowService ρ × Bool :=
  net.ensurePeer (lib.clocked c.time) c.mac

def useAll (net : EspNowService ρ) (calls : List Use) : EspNowService ρ :=
  calls.foldl (fun net c => (net.use lib c).1) net

/-- Every call returns true. -/
def Successful : EspNowService ρ → List Use → Prop
  | _, [] => True
  | net, c :: calls => (net.use lib c).2 = true ∧ Successful (net.use lib c).1 calls

instance decidableSuccessful : ∀ (net : EspNowService ρ) (calls : List Use),
    Decidable (Successful lib net calls)
  | _, [] => inferInstanceAs (Decidable True)
  | net, c :: calls =>
    have := decidableSuccessful (net.use lib c).1 calls
    inferInstanceAs (Decidable (_ ∧ _))

end Calls

/-! ### What is asked -/

/-- All slots are used, and the peer has none. -/
structure NeedsSlot (net : EspNowService ρ) (c : Use) : Prop where
  full : ∀ i, (net.peers i).used = true
  new : ¬ Holds net.occupants c.mac
  unicast : c.mac ≠ bcast

/-- Every cached peer was used within the last 2^31 ms. -/
def Recent (pre : List Use) (net : EspNowService ρ) (c : Use) : Prop :=
  ∀ m, Holds net.occupants m → ∃ T ∈ lastUsed pre m, c.time ≤ T + 2 ^ 31

/-- The peer that is gone is the one whose last use lies furthest in the past. -/
def EvictsOldest (pre : List Use) (net net' : EspNowService ρ) : Prop :=
  ∃ m, ∃ T ∈ lastUsed pre m, Holds net.occupants m ∧ ¬ Holds net'.occupants m ∧
    ∀ m', Holds net.occupants m' → ∀ T' ∈ lastUsed pre m', T ≤ T'

/-- No wrap of the clock lies between the last uses of two peers. -/
def SameEpoch (pre : List Use) (net : EspNowService ρ) : Prop :=
  ∀ m, Holds net.occupants m → ∀ m', Holds net.occupants m' →
    ∀ T ∈ lastUsed pre m, ∀ T' ∈ lastUsed pre m', T / 2 ^ 32 = T' / 2 ^ 32

variable {lib : NowLib} {net : EspNowService ρ} {pre : List Use} {c : Use}

/-! ### The stamps -/

/-- Each used slot holds the clock value of its peer's last use. -/
structure Stamped (pre : List Use) (net : EspNowService ρ) : Prop where
  mirrors : net.Mirrors
  stamps : ∀ i m, net.occupants i = some m →
    ∃ T ∈ lastUsed pre m, (net.peers i).lastUse = UInt32.ofNat T

/-- A scan that stamps the slots of `mac`. -/
theorem foldl_stamp_peers (lib : NowLib) (T : ℕ) (mac : Mac) (l : List (Fin 18))
    (net : EspNowService ρ) (i : Fin 18) :
    (l.foldl (fun net i => if (net.peers i).used = true ∧ (net.peers i).mac = mac then
        net.stamp (lib.clocked T) i else net) net).peers i =
      if i ∈ l ∧ (net.peers i).used = true ∧ (net.peers i).mac = mac then
        { net.peers i with lastUse := UInt32.ofNat T }
      else net.peers i := by
  induction l generalizing net with
  | nil => simp
  | cons j l ih =>
    rw [List.foldl_cons, ih]
    by_cases hj : (net.peers j).used = true ∧ (net.peers j).mac = mac
    · rw [if_pos hj]
      by_cases hij : i = j
      · subst hij
        simp [hj]
      · simp [hij]
    · rw [if_neg hj]
      by_cases hij : i = j
      · subst hij
        simp [hj]
      · simp [hij]

/-- A known peer is stamped, in the slot it is in. -/
theorem touch_peers (lib : NowLib) (T : ℕ) (net : EspNowService ρ) (mac : Mac) (i : Fin 18) :
    (net.touch (lib.clocked T) mac).peers i =
      if (net.peers i).used = true ∧ (net.peers i).mac = mac then
        { net.peers i with lastUse := UInt32.ofNat T }
      else net.peers i := by
  rw [touch, foldl_stamp_peers]
  simp

theorem Stamped.stored {net' : EspNowService ρ} (h : Stamped pre net) {i : Fin 18}
    (hmirrors : net'.Mirrors) (hnew : ¬ Holds net.occupants c.mac)
    (hocc : net'.occupants = Function.update net.occupants i (some c.mac))
    (hothers : ∀ j, j ≠ i → net'.peers j = net.peers j)
    (hstamp : (net'.peers i).lastUse = UInt32.ofNat c.time) : Stamped (pre ++ [c]) net' := by
  refine ⟨hmirrors, fun j m hj => ?_⟩
  rw [hocc] at hj
  by_cases hji : j = i
  · subst hji
    rw [Function.update_self] at hj
    obtain rfl : c.mac = m := Option.some.inj hj
    exact ⟨c.time, by rw [lastUsed_concat, if_pos rfl]; rfl, hstamp⟩
  · rw [Function.update_of_ne hji] at hj
    have hne : c.mac ≠ m := by
      rintro rfl
      exact hnew ⟨j, hj⟩
    rw [lastUsed_concat, if_neg hne, hothers j hji]
    exact h.stamps j m hj

/-- The step lemma. -/
theorem Stamped.use (h : Stamped pre net) (hlib : lib.Keeps) (hok : (net.use lib c).2 = true) :
    Stamped (pre ++ [c]) (net.use lib c).1 := by
  have hrule := ensurePeer_rule (hlib.clocked c.time) net c.mac
  have hmirrors := (h.mirrors.ensured hrule).1
  have hnotHeld : c.mac ∉ registered net.log → ¬ Holds net.occupants c.mac :=
    fun hnew hheld => hnew ((h.mirrors.holds _).1 hheld).1
  unfold EspNowService.use at hok ⊢
  generalize net.ensurePeer (lib.clocked c.time) c.mac = res at hrule hmirrors hok ⊢
  cases hrule with
  | known hknown =>
    refine ⟨hmirrors, fun i m hi => ?_⟩
    rw [(touched_touch (lib.clocked c.time) net c.mac).occupants] at hi
    obtain ⟨hused, hmac⟩ := occupants_eq_some_iff.1 hi
    rw [lastUsed_concat, touch_peers]
    by_cases hm : c.mac = m
    · rw [if_pos hm, if_pos ⟨hused, hmac.trans hm.symm⟩]
      exact ⟨c.time, rfl, rfl⟩
    · rw [if_neg hm, if_neg fun hc => hm (hc.2.symm.trans hmac)]
      exact h.stamps i m hi
  | added i hnew hfree =>
    refine h.stored hmirrors (hnotHeld hnew) (occupants_stored _ net i c.mac)
      (fun j hj => Function.update_of_ne hj _ _) ?_
    show (Function.update net.peers i _ i).lastUse = _
    rw [Function.update_self]
    rfl
  | refused => exact Bool.noConfusion hok
  | replaced i old hnew hold =>
    refine h.stored (i := i) hmirrors (hnotHeld hnew) ?_ (fun j hj => ?_) ?_
    · rw [occupants_stored, occupants_evict, Function.update_idem]
    · show Function.update (Function.update _ _ _) _ _ j = _
      rw [Function.update_of_ne hj, Function.update_of_ne hj]
    · show (Function.update (net.evict i).peers i _ i).lastUse = _
      rw [Function.update_self]
      rfl
  | evicted => exact Bool.noConfusion hok

/-! ### The slot that is taken -/

/-- A scan that moves on to smaller values ends with the smallest. -/
theorem scan_le {α : Type*} (f : α → UInt32) (l : List α) (o : α) :
    let o' := l.foldl (fun o i => if f i < f o then i else o) o
    f o' ≤ f o ∧ ∀ i ∈ l, f o' ≤ f i := by
  induction l generalizing o with
  | nil => exact ⟨UInt32.le_refl _, fun i hi => absurd hi List.not_mem_nil⟩
  | cons j l ih =>
    rw [List.foldl_cons]
    obtain ⟨hfirst, hrest⟩ := ih (if f j < f o then j else o)
    have hmin : f (if f j < f o then j else o) ≤ f o ∧ f (if f j < f o then j else o) ≤ f j := by
      split
      · rename_i hlt
        exact ⟨UInt32.le_of_lt hlt, UInt32.le_refl _⟩
      · rename_i hge
        exact ⟨UInt32.le_refl _, UInt32.not_lt.1 hge⟩
    refine ⟨UInt32.le_trans hfirst hmin.1, fun i hi => ?_⟩
    rcases List.mem_cons.1 hi with rfl | hi
    · exact UInt32.le_trans hfirst hmin.2
    · exact hrest i hi

/-- The smallest clock value. -/
theorem oldest_le (net : EspNowService ρ) (i : Fin 18) :
    (net.peers net.oldest).lastUse ≤ (net.peers i).lastUse :=
  (scan_le (fun j => (net.peers j).lastUse) (List.finRange 18) _).2 i (List.mem_finRange i)

/-- A full cache gives up that slot. -/
theorem use_full (hlib : lib.Keeps) (h : net.Mirrors) (hneed : net.NeedsSlot c)
    (hok : (net.use lib c).2 = true) :
    (net.use lib c).1.occupants = Function.update net.occupants net.oldest (some c.mac) := by
  have hunknown : ¬ (lib.clocked c.time).isPeerExist net.log c.mac = true := fun hknown =>
    hneed.new ((h.holds _).2 ⟨(hlib _ _).1 hknown, hneed.unicast⟩)
  have hslot : net.freeSlot = none := by
    rw [freeSlot, List.find?_eq_none]
    intro i _
    simp [hneed.full i]
  have huse : net.use lib c =
      (net.evict net.oldest).register (lib.clocked c.time) net.oldest c.mac := by
    rw [use, ensurePeer, if_neg hunknown, hslot]
  rw [huse] at hok ⊢
  rcases register_cases (lib.clocked c.time) (net.evict net.oldest) net.oldest c.mac with heq | heq
  · rw [heq, occupants_stored, occupants_evict, Function.update_idem]
  · rw [heq] at hok
    exact Bool.noConfusion hok

/-- The peer in that slot is gone, and no other one. -/
theorem gone_iff (hlib : lib.Keeps) (h : net.Mirrors) (hneed : net.NeedsSlot c)
    (hok : (net.use lib c).2 = true) {m : Mac} (hm : Holds net.occupants m) :
    ¬ Holds (net.use lib c).1.occupants m ↔ m = (net.peers net.oldest).mac := by
  have hold : net.occupants net.oldest = some (net.peers net.oldest).mac :=
    occupants_eq_some_iff.2 ⟨hneed.full _, rfl⟩
  have hne : m ≠ c.mac := by
    rintro rfl
    exact hneed.new hm
  have hfree : Function.update net.occupants net.oldest none net.oldest = none :=
    Function.update_self _ _ _
  have htable : (net.use lib c).1.occupants =
      Function.update (Function.update net.occupants net.oldest none) net.oldest (some c.mac) := by
    rw [use_full hlib h hneed hok, Function.update_idem]
  rw [htable, holds_update_some hfree, or_iff_left hne, holds_update_none h.distinct hold,
    and_iff_right hm, not_not]

/-! ### When it is the right one -/

theorem ofNat_le_iff {T T' : ℕ} : UInt32.ofNat T ≤ UInt32.ofNat T' ↔ T % 2 ^ 32 ≤ T' % 2 ^ 32 := by
  rw [UInt32.le_iff_toNat_le, UInt32.toNat_ofNat', UInt32.toNat_ofNat']

/-- The peer in the slot that is taken has the smallest clock value. -/
theorem Stamped.oldest_le (h : Stamped pre net) (hfull : ∀ i, (net.peers i).used = true) :
    ∃ T ∈ lastUsed pre (net.peers net.oldest).mac,
      ∀ m, Holds net.occupants m → ∀ T' ∈ lastUsed pre m, T % 2 ^ 32 ≤ T' % 2 ^ 32 := by
  obtain ⟨T, hT, hstamp⟩ := h.stamps net.oldest _ (occupants_eq_some_iff.2 ⟨hfull _, rfl⟩)
  refine ⟨T, hT, ?_⟩
  rintro m ⟨i, hi⟩ T' hT'
  obtain ⟨T₁, hT₁, hstamp'⟩ := h.stamps i m hi
  obtain rfl : T₁ = T' := Option.some.inj (hT₁.symm.trans hT')
  have hle := EspNowService.oldest_le net i
  rwa [hstamp, hstamp', ofNat_le_iff] at hle

theorem evictsOldest_iff (hlib : lib.Keeps) (h : Stamped pre net)
    (htimes : ∀ u ∈ pre, u.time < c.time) (hneed : net.NeedsSlot c) (hrecent : Recent pre net c)
    (hok : (net.use lib c).2 = true) :
    EvictsOldest pre net (net.use lib c).1 ↔ SameEpoch pre net := by
  obtain ⟨T₀, hT₀, hmin⟩ := h.oldest_le hneed.full
  have hheld : Holds net.occupants (net.peers net.oldest).mac :=
    ⟨net.oldest, occupants_eq_some_iff.2 ⟨hneed.full _, rfl⟩⟩
  constructor
  · rintro ⟨m₀, T, hT, hm₀, hgone, hleast⟩
    rw [gone_iff hlib h.mirrors hneed hok hm₀] at hgone
    subst hgone
    obtain rfl : T₀ = T := Option.some.inj (hT₀.symm.trans hT)
    obtain ⟨T₁, hT₁, hwindow⟩ := hrecent _ hm₀
    obtain rfl : T₀ = T₁ := Option.some.inj (hT₀.symm.trans hT₁)
    -- least in both orders, within half a turn of the clock: no wrap in between
    have hepoch : ∀ m, Holds net.occupants m → ∀ T' ∈ lastUsed pre m,
        T₀ / 2 ^ 32 = T' / 2 ^ 32 := by
      intro m hm T' hT'
      obtain ⟨u, hu, rfl⟩ := mem_of_lastUsed hT'
      have hlt := htimes u hu
      have hle := hleast m hm _ hT'
      have hmod := hmin m hm _ hT'
      omega
    intro m hm m' hm' T' hT' T'' hT''
    rw [← hepoch m hm T' hT', hepoch m' hm' T'' hT'']
  · intro hsame
    refine ⟨_, T₀, hT₀, hheld, (gone_iff hlib h.mirrors hneed hok hheld).2 rfl, ?_⟩
    intro m hm T' hT'
    have hmod := hmin m hm T' hT'
    have hdiv := hsame _ hheld m hm T₀ hT₀ T' hT'
    omega

/-! ### A run -/

theorem stamped_fresh (hlog : net.log = []) (hfree : ∀ i, (net.peers i).used = false) :
    Stamped [] net := by
  refine ⟨mirrors_fresh hlog hfree, fun i m hi => ?_⟩
  rw [occupants_eq_none_iff.2 (hfree i)] at hi
  cases hi

theorem Stamped.useAll (hlib : lib.Keeps) {calls : List Use} (h : Stamped pre net)
    (hok : Successful lib net calls) : Stamped (pre ++ calls) (net.useAll lib calls) := by
  induction calls generalizing pre net with
  | nil =>
    rw [List.append_nil]
    exact h
  | cons c calls ih =>
    have hstep := ih (h.use hlib hok.1) hok.2
    rw [List.append_assoc] at hstep
    exact hstep

theorem successful_append {pre calls : List Use} :
    Successful lib net (pre ++ calls) ↔
      Successful lib net pre ∧ Successful lib (net.useAll lib pre) calls := by
  induction pre generalizing net with
  | nil => exact (iff_of_eq (true_and _)).symm
  | cons c pre ih =>
    show _ ∧ Successful lib _ (pre ++ calls) ↔ (_ ∧ _) ∧ _
    rw [ih, and_assoc]
    rfl

/-- **Which peer has to go**: in every run of successful calls, each time the
cache is full and all its peers were used within 2^31 ms, it is the one used
longest ago, exactly if each time no wrap of the clock lies between their last
uses. -/
theorem evictions_lru_iff (hlib : lib.Keeps) (net : EspNowService ρ) (hlog : net.log = [])
    (hfree : ∀ i, (net.peers i).used = false) {calls : List Use}
    (hinc : calls.Pairwise fun a b => a.time < b.time) (hok : Successful lib net calls) :
    (∀ pre c post, calls = pre ++ c :: post → (net.useAll lib pre).NeedsSlot c →
        Recent pre (net.useAll lib pre) c →
          EvictsOldest pre (net.useAll lib pre) ((net.useAll lib pre).use lib c).1) ↔
      ∀ pre c post, calls = pre ++ c :: post → (net.useAll lib pre).NeedsSlot c →
        Recent pre (net.useAll lib pre) c → SameEpoch pre (net.useAll lib pre) := by
  refine forall_congr' fun pre => forall_congr' fun c => forall_congr' fun post =>
    forall_congr' fun hsplit => forall₂_congr fun hneed hrecent => ?_
  rw [hsplit] at hok hinc
  obtain ⟨hpre, hc, -⟩ := successful_append.1 hok
  have htimes : ∀ u ∈ pre, u.time < c.time := fun u hu =>
    (List.pairwise_append.1 hinc).2.2 u hu c List.mem_cons_self
  exact evictsOldest_iff hlib ((stamped_fresh hlog hfree).useAll hlib hpre) htimes hneed hrecent hc

/-- A device, silent for an hour, and then eighteen others within 18 ms behind the
wrap of the clock. -/
def crowd : List Use :=
  ⟨2 ^ 32 - 3600000, device 0⟩ :: (List.range 18).map fun k => ⟨2 ^ 32 + k, device (k + 1)⟩

theorem willing_keeps : willing.Keeps := fun _ _ => decide_eq_true_iff

/-- The second device has to go, 17 ms after its last use; the silent one stays. -/
theorem younger_evicted :
    crowd.Pairwise (fun a b => a.time < b.time) ∧ Successful willing begun crowd ∧
      ¬ ∀ pre c post, crowd = pre ++ c :: post → (begun.useAll willing pre).NeedsSlot c →
        Recent pre (begun.useAll willing pre) c → EvictsOldest pre (begun.useAll willing pre)
          ((begun.useAll willing pre).use willing c).1 := by
  refine ⟨by decide +kernel, by decide +kernel, ?_⟩
  let pre := crowd.take 18
  let c : Use := ⟨2 ^ 32 + 17, device 18⟩
  let net := begun.useAll willing pre
  have hneed : net.NeedsSlot c := by
    refine ⟨by decide +kernel, ?_, by decide +kernel⟩
    show ¬ ∃ i, net.occupants i = some c.mac
    decide +kernel
  have hok : Successful willing begun pre ∧ (net.use willing c).2 = true := by
    decide +kernel
  have hstamped : Stamped pre net :=
    (stamped_fresh rfl fun _ => rfl).useAll willing_keeps hok.1
  have hrecent : Recent pre net c := by
    have hall : ∀ u ∈ pre, c.time ≤ u.time + 2 ^ 31 := by
      decide +kernel
    rintro m ⟨i, hi⟩
    obtain ⟨T, hT, -⟩ := hstamped.stamps i m hi
    obtain ⟨u, hu, rfl⟩ := mem_of_lastUsed hT
    exact ⟨u.time, hT, hall u hu⟩
  intro hall
  have hlru := hall pre c [] (by decide +kernel) hneed hrecent
  rw [evictsOldest_iff willing_keeps hstamped (by decide +kernel) hneed hrecent hok.2] at hlru
  have hfirst : net.occupants 0 = some (device 0) ∧
      lastUsed pre (device 0) = some (2 ^ 32 - 3600000) := by
    decide +kernel
  have hsecond : net.occupants 1 = some (device 1) ∧
      lastUsed pre (device 1) = some (2 ^ 32) := by
    decide +kernel
  have hepoch := hlru _ ⟨0, hfirst.1⟩ _ ⟨1, hsecond.1⟩ _ hfirst.2 _ hsecond.2
  norm_num at hepoch

/-- Nineteen devices within 19 ms, a day before the clock wraps. -/
def crowdBefore : List Use :=
  (List.range 19).map fun k => ⟨2 ^ 32 - 86400000 + k, device k⟩

/-- The first one has to go. -/
theorem evictions_lru_iff_crowd :
    (∀ pre c post, crowdBefore = pre ++ c :: post → (begun.useAll willing pre).NeedsSlot c →
        Recent pre (begun.useAll willing pre) c → EvictsOldest pre (begun.useAll willing pre)
          ((begun.useAll willing pre).use willing c).1) ∧
      ¬ Holds (begun.useAll willing crowdBefore).occupants (device 0) := by
  have hgone : ∀ i, (begun.useAll willing crowdBefore).occupants i ≠ some (device 0) := by
    decide +kernel
  refine ⟨(evictions_lru_iff willing_keeps begun rfl (fun _ => rfl) (by decide +kernel)
    (by decide +kernel)).2 ?_, fun ⟨i, hi⟩ => hgone i hi⟩
  intro pre c post hsplit _ _ m _ m' _ T hT T' hT'
  have hbefore : ∀ u ∈ crowdBefore, u.time < 2 ^ 32 := by decide
  have hsame : ∀ m, ∀ T ∈ lastUsed pre m, T / 2 ^ 32 = 0 := by
    intro m T hT
    obtain ⟨u, hfind, rfl⟩ := Option.map_eq_some_iff.1 hT
    have hmem : u ∈ pre := List.mem_reverse.1 (List.mem_of_find?_eq_some hfind)
    exact Nat.div_eq_of_lt (hbefore u (hsplit ▸ List.mem_append_left _ hmem))
  rw [hsame m T hT, hsame m' T' hT']

end EspNowService

end InfinitagNow
