/-
InfinitagNow/BusDrain.lean

The negotiation traffic cannot storm: with the clocks standing still, every
sequence of deliveries and losses is finite.

The weight that goes down (`weight`) has three layers, each worth more than
everything the one below can cause.

* An id is free for a station if it is neither occupied nor its candidate.
  Evidence only takes free ids away, and every new probing costs one
  (`freeIds_startProbe`).
* A probe makes at most one holder answer with beacons.
* A beacon makes a holder answer only if its address is strictly smaller than
  the sender's, so a beacon weighs a power of its sender's rank among the
  stations.
-/
import InfinitagNow.StationBus

namespace InfinitagNow

namespace IrIdNegotiator

/-! ### Free ids -/

/-- The ids a station could still turn to. -/
def freeIds (s : IrIdNegotiator) (t : UInt32) : Finset UInt8 :=
  irIds.toFinset.filter fun id => s.isOccupied id t = false ∧ id ≠ s.candidate

variable {s : IrIdNegotiator} {t : UInt32}

theorem freeIds_note (id : UInt8) : (s.note id t).freeIds t ⊆ s.freeIds t := by
  intro x hx
  simp only [freeIds, Finset.mem_filter, note_candidate] at hx ⊢
  refine ⟨hx.1, ?_, hx.2.2⟩
  by_contra hocc
  have : (s.note id t).isOccupied x t = true :=
    isOccupied_note_mono (Bool.not_eq_false _ ▸ hocc)
  simp [this] at hx

/-- A new probing, started because the old candidate is occupied or without
one, costs a free id or ends in listening. -/
theorem freeIds_startProbe (hp : s.PreferredOk)
    (hcand : s.candidate = 0 ∨ s.isOccupied s.candidate t = true) :
    (s.startProbe t).2 = [] ∧ ((s.startProbe t).1.freeIds t).card ≤ (s.freeIds t).card ∨
      (∃ c, (s.startProbe t).2 = s.emit .probe c none) ∧
        ((s.startProbe t).1.freeIds t).card < (s.freeIds t).card := by
  rcases startProbe_cases hp t with ⟨heq, hall⟩ | ⟨c, hc, hfree, heq⟩
  · -- no id is free: it goes back to listening
    left
    rw [heq]
    refine ⟨rfl, Finset.card_le_card ?_⟩
    intro x hx
    simp only [freeIds, Finset.mem_filter, List.mem_toFinset, mem_irIds_iff] at hx
    have hocc := hall x hx.1
    have hfree : s.isOccupied x t = false := hx.2.1
    simp [hocc] at hfree
  · -- the candidate is free no longer
    right
    rw [heq]
    refine ⟨⟨c, rfl⟩, Finset.card_lt_card ?_⟩
    have hne : ∀ x, validId x = true → s.isOccupied x t = false → x ≠ s.candidate := by
      rintro x hx hxf rfl
      rcases hcand with h0 | hocc
      · exact validId_ne_zero hx h0
      · simp [hocc] at hxf
    refine Finset.ssubset_iff_of_subset ?_ |>.2 ⟨c, ?_, ?_⟩
    · intro x hx
      simp only [freeIds, Finset.mem_filter, List.mem_toFinset, mem_irIds_iff] at hx ⊢
      have hxf : s.isOccupied x t = false := hx.2.1
      exact ⟨hx.1, hxf, hne x hx.1 hxf⟩
    · simp only [freeIds, Finset.mem_filter, List.mem_toFinset, mem_irIds_iff]
      exact ⟨hc, hfree, hne c hc hfree⟩
    · simp [freeIds]

/-- What delivering a probe or beacon can do to the free ids and put in
flight: nothing, a new probing, an answer to a probe, an answer to a beacon of
a larger address. -/
theorem exec_radio (h : s.Wf) {c : Call} (hc : ∀ m p u b, c ≠ .begin m p u b)
    (htick : ∀ u, c ≠ .tick u) (htime : ∀ id u, c.evidence s.mac = some (id, u) → u = t)
    (htimeHeld : ∀ src u, c = .onBeacon src s.id u → u = t) :
    ((s.exec c).2 = [] ∧ ((s.exec c).1.freeIds t).card ≤ (s.freeIds t).card) ∨
      ((∃ x, (s.exec c).2 = s.emit .probe x none) ∧
        ((s.exec c).1.freeIds t).card < (s.freeIds t).card) ∨
      ((∃ src u, c = .onProbe src s.id u ∧
        (s.exec c).2 = s.emit .beacon s.id (some src) ++ s.emit .beacon s.id none) ∧
        (s.exec c).1.freeIds t = s.freeIds t) ∨
      ((∃ src u, c = .onBeacon src s.id u ∧ s.mac.value < src.value ∧
        (s.exec c).2 = s.emit .beacon s.id none) ∧
        (s.exec c).1.freeIds t = s.freeIds t) := by
  have hrule := exec_rule h c
  have hpref := h.preferredOk
  generalize s.exec c = r at hrule
  cases hrule with
  | begin m p u b => exact absurd rfl (hc m p u b)
  | listenEnd u => exact absurd rfl (htick u)
  | reprobe u => exact absurd rfl (htick u)
  | acquire u => exact absurd rfl (htick u)
  | rebeacon u => exact absurd rfl (htick u)
  | consume => exact .inl ⟨rfl, le_rfl⟩
  | ignore => exact .inl ⟨rfl, le_rfl⟩
  | evidence c id u hev =>
    obtain rfl := htime id u hev
    exact .inl ⟨rfl, Finset.card_le_card (freeIds_note id)⟩
  | abort c u hev hst =>
    obtain rfl := htime _ u hev
    have hocc : (s.note s.candidate u).isOccupied (s.note s.candidate u).candidate u = true := by
      rw [note_candidate]
      exact isOccupied_note_self (h.validId_candidate hst)
    have hle := Finset.card_le_card (freeIds_note (s := s) (t := u) s.candidate)
    rcases freeIds_startProbe (by simpa [PreferredOk] using hpref) (.inr hocc) with
      ⟨hnil, hcard⟩ | ⟨⟨x, hx⟩, hcard⟩
    · exact .inl ⟨hnil, hcard.trans hle⟩
    · exact .inr (.inl ⟨⟨x, by simpa [emit] using hx⟩, hcard.trans_le hle⟩)
  | yield src u hst =>
    obtain rfl := htimeHeld src u rfl
    have h0 : s.candidate = 0 := h.candidate_eq_zero (by simp [hst])
    have hset : ((s.note s.id u).setId 0).freeIds u = (s.note s.id u).freeIds u := by
      simp [freeIds]
    have hle := Finset.card_le_card (freeIds_note (s := s) (t := u) s.id)
    rw [← hset] at hle
    rcases freeIds_startProbe (s := (s.note s.id u).setId 0) (t := u)
        (by simpa [PreferredOk] using hpref) (.inl (by simpa using h0)) with
      ⟨hnil, hcard⟩ | ⟨⟨x, hx⟩, hcard⟩
    · exact .inl ⟨hnil, hcard.trans hle⟩
    · exact .inr (.inl ⟨⟨x, by simpa [emit] using hx⟩, hcard.trans_le hle⟩)
  | defend src u => exact .inr (.inr (.inl ⟨⟨src, u, rfl, rfl⟩, rfl⟩))
  | counter src u hst hsrc hge =>
    refine .inr (.inr (.inr ⟨⟨src, u, rfl, ?_, rfl⟩, rfl⟩))
    have hne : src.value ≠ s.mac.value := fun heq => hsrc (Mac.value_inj.1 heq)
    omega

theorem eq_of_mem_emit {k : TxKind} {x : UInt8} {d : Option Mac} {t : Tx}
    (h : t ∈ s.emit k x d) : t = ⟨k, x, d⟩ := by
  unfold emit at h
  split at h
  · exact List.mem_singleton.1 h
  · simp at h

theorem length_emit_le (s : IrIdNegotiator) (k : TxKind) (x : UInt8) (d : Option Mac) :
    (s.emit k x d).length ≤ 1 := by
  unfold emit
  split <;> simp

end IrIdNegotiator

namespace Bus

variable {n : ℕ} (mac : Fin n → Mac) (now : Fin n → UInt32)

/-! ### Deliveries with the clocks standing still -/

/-- One envelope is delivered or lost. -/
inductive Delivery : Bus n → Bus n → Prop
  | deliver (b : Bus n) (k : ℕ) (e : Envelope n) (he : b.flight[k]? = some e) :
      Delivery b (b.deliver mac k (now e.dst))
  | lose (b : Bus n) (k : ℕ) (e : Envelope n) (he : b.flight[k]? = some e) :
      Delivery b { b with flight := b.flight.eraseIdx k }

/-- The handler of one envelope. -/
def handle (e : Envelope n) (st : Fin n → Option IrIdNegotiator) :
    (Fin n → Option IrIdNegotiator) × List (Envelope n) :=
  let b : Bus n := ({ st := st, flight := [] } : Bus n).call mac e.dst (e.call (now e.dst))
  (b.st, b.flight)

/-- A delivery on the bus is a step of the handler. -/
theorem Delivery.step {b b' : Bus n} (h : Delivery mac now b b') :
    Drain.Step (handle mac now) (b.st, b.flight) (b'.st, b'.flight) := by
  cases h with
  | lose k e he => exact .lose _ _ k e he
  | deliver k e he =>
    have hd : b.deliver mac k (now e.dst) =
        ({ b with flight := b.flight.eraseIdx k } : Bus n).call mac e.dst
          (e.call (now e.dst)) := by
      simp [Bus.deliver, he]
    have hst : (b.deliver mac k (now e.dst)).st = (handle mac now e b.st).1 := by
      rw [hd]
      unfold handle
      cases hs : b.st e.dst with
      | none => simp [Bus.call, hs]
      | some s => simp [Bus.call, hs]
    have hfl : (b.deliver mac k (now e.dst)).flight =
        b.flight.eraseIdx k ++ (handle mac now e b.st).2 := by
      rw [hd]
      unfold handle
      cases hs : b.st e.dst with
      | none => simp [Bus.call, hs]
      | some s => simp [Bus.call, hs, Bus.fanOut, Bus.receivers]
    rw [hst, hfl]
    exact .deliver _ _ k e he

/-! ### The weight -/

/-- How many stations have a smaller address. -/
def rank (m : Mac) : ℕ := (Finset.univ.filter fun j => (mac j).value < m.value).card

theorem rank_lt {i : Fin n} {m : Mac} (h : (mac i).value < m.value) :
    rank mac (mac i) < rank mac m := by
  refine Finset.card_lt_card ?_
  refine Finset.ssubset_iff_of_subset ?_ |>.2 ⟨i, by simp [h], by simp⟩
  intro j hj
  simp only [Finset.mem_filter, Finset.mem_univ, true_and] at hj ⊢
  omega

theorem rank_self_lt (i : Fin n) : rank mac (mac i) < n := by
  have hss : (Finset.univ.filter fun j => (mac j).value < (mac i).value) ⊂ Finset.univ :=
    Finset.ssubset_iff_of_subset (Finset.subset_univ _) |>.2 ⟨i, by simp, by simp⟩
  simpa [rank] using Finset.card_lt_card hss

/-- A beacon weighs a power of its sender's rank, a probe more than any answer
to it. -/
def messageWeight (e : Envelope n) : ℕ :=
  match e.kind with
  | .beacon => (n + 1) ^ rank mac e.src
  | .probe => 2 * (n + 1) ^ n

/-- A free id weighs as much as the probes that use it up. -/
def stationWeight (t : UInt32) : Option IrIdNegotiator → ℕ
  | none => 0
  | some s => n * (2 * (n + 1) ^ n) * (s.freeIds t).card

def stateWeight (st : Fin n → Option IrIdNegotiator) : ℕ :=
  ∑ i, stationWeight (n := n) (now i) (st i)

theorem stateWeight_update (st : Fin n → Option IrIdNegotiator) (i : Fin n)
    (v : Option IrIdNegotiator) :
    stateWeight now (Function.update st i v) + stationWeight (n := n) (now i) (st i) =
      stateWeight now st + stationWeight (n := n) (now i) v := by
  have hupd : (fun j => stationWeight (n := n) (now j) (Function.update st i v j)) =
      Function.update (fun j => stationWeight (n := n) (now j) (st j)) i
        (stationWeight (n := n) (now i) v) := by
    funext j
    exact Function.apply_update (fun j => stationWeight (n := n) (now j)) st i v j
  have h1 : ∑ j, stationWeight (n := n) (now j) (Function.update st i v j) =
      stationWeight (n := n) (now i) v +
        ∑ j ∈ Finset.univ \ {i}, stationWeight (n := n) (now j) (st j) := by
    rw [hupd, Finset.sum_update_of_mem (Finset.mem_univ i)]
  have h2 : ∑ j, stationWeight (n := n) (now j) (st j) =
      stationWeight (n := n) (now i) (st i) +
        ∑ j ∈ Finset.univ \ {i}, stationWeight (n := n) (now j) (st j) :=
    Finset.sum_eq_add_sum_sdiff_singleton_of_mem (Finset.mem_univ i) _
  unfold stateWeight
  omega

theorem fanOut_append (b : Bus n) (i : Fin n) (txs txs' : List Tx) :
    b.fanOut mac i (txs ++ txs') = b.fanOut mac i txs ++ b.fanOut mac i txs' :=
  List.flatMap_append

/-- The envelopes of one transmission are at most `n`. -/
theorem length_fanOut_le (b : Bus n) (i : Fin n) (txs : List Tx) :
    (b.fanOut mac i txs).length ≤ n * txs.length := by
  unfold fanOut
  rw [List.length_flatMap]
  calc (txs.map fun t => ((b.receivers mac i t.dst).map fun j =>
          (⟨j, mac i, t.kind, t.id⟩ : Envelope n)).length).sum
      ≤ (txs.map fun _ => n).sum := by
        refine List.sum_le_sum fun t _ => ?_
        rw [List.length_map]
        simpa [receivers] using List.length_filter_le _ (List.finRange n)
    _ = n * txs.length := by simp [Nat.mul_comm]

/-- The weight of a fan-out whose envelopes weigh at most `w`. -/
theorem weight_fanOut_le (b : Bus n) (i : Fin n) (txs : List Tx) {w : ℕ}
    (hw : ∀ t ∈ txs, ∀ j, messageWeight mac (⟨j, mac i, t.kind, t.id⟩ : Envelope n) ≤ w) :
    ((b.fanOut mac i txs).map (messageWeight mac)).sum ≤ n * txs.length * w := by
  have hle : ((b.fanOut mac i txs).map (messageWeight mac)).sum ≤
      ((b.fanOut mac i txs).map fun _ => w).sum := by
    refine List.sum_le_sum fun e he => ?_
    obtain ⟨t, ht, he⟩ := List.mem_flatMap.1 he
    obtain ⟨j, -, rfl⟩ := List.mem_map.1 he
    exact hw t ht j
  refine hle.trans ?_
  rw [List.map_const', List.sum_replicate, smul_eq_mul]
  exact Nat.mul_le_mul_right w (length_fanOut_le mac b i txs)

/-- One emission weighs at most a message to every station. -/
theorem weight_emit_le (b : Bus n) (i : Fin n) (s : IrIdNegotiator) (k : TxKind) (x : UInt8)
    (d : Option Mac) :
    ((b.fanOut mac i (s.emit k x d)).map (messageWeight mac)).sum ≤
      n * messageWeight mac (⟨i, mac i, k, x⟩ : Envelope n) := by
  have hsum := weight_fanOut_le mac b i (s.emit k x d)
    (w := messageWeight mac (⟨i, mac i, k, x⟩ : Envelope n)) (by
      intro t ht j
      obtain rfl : t = ⟨k, x, d⟩ := IrIdNegotiator.eq_of_mem_emit ht
      exact le_rfl)
  have hone : n * (s.emit k x d).length ≤ n := by
    simpa using Nat.mul_le_mul_left n (s.length_emit_le k x d)
  exact hsum.trans (Nat.mul_le_mul_right _ hone)

/-! ### Every delivery lowers the weight -/

/-- Every booted station satisfies the class invariant and carries its own
address. -/
def Sound (st : Fin n → Option IrIdNegotiator) : Prop :=
  ∀ i s, st i = some s → s.Wf ∧ s.mac = mac i

variable {mac now} in
theorem handle_of_none {e : Envelope n} {st : Fin n → Option IrIdNegotiator}
    (hs : st e.dst = none) : handle mac now e st = (st, []) := by
  simp [handle, Bus.call, hs]

variable {mac now} in
theorem handle_of_some {e : Envelope n} {st : Fin n → Option IrIdNegotiator} {s : IrIdNegotiator}
    (hs : st e.dst = some s) :
    handle mac now e st =
      (Function.update st e.dst (some (s.exec (e.call (now e.dst))).1),
        ({ st := st, flight := [] } : Bus n).fanOut mac e.dst
          (s.exec (e.call (now e.dst))).2) := by
  simp [handle, Bus.call, hs]

theorem call_ne_tick (e : Envelope n) (t : UInt32) : ∀ u, e.call t ≠ .tick u := by
  intro u
  unfold Envelope.call
  split <;> simp

theorem call_evidence_time (e : Envelope n) (t : UInt32) (m : Mac) :
    ∀ id u, (e.call t).evidence m = some (id, u) → u = t := by
  intro id u h
  unfold Envelope.call IrIdNegotiator.Call.evidence at h
  cases hk : e.kind <;> simp only [hk] at h <;> split at h <;> simp_all

theorem call_eq_onProbe {e : Envelope n} {t u : UInt32} {src : Mac} {id : UInt8}
    (h : e.call t = .onProbe src id u) : e.kind = .probe := by
  unfold Envelope.call at h
  split at h
  · assumption
  · simp at h

theorem call_eq_onBeacon {e : Envelope n} {t u : UInt32} {src : Mac} {id : UInt8}
    (h : e.call t = .onBeacon src id u) : e.kind = .beacon ∧ e.src = src ∧ u = t := by
  unfold Envelope.call at h
  split at h
  · simp at h
  · simp_all

theorem messageWeight_pos (e : Envelope n) : 0 < messageWeight mac e := by
  unfold messageWeight
  split <;> positivity

/-- The step lemma of `Sound`. -/
theorem Sound.handle {st : Fin n → Option IrIdNegotiator} (h : Sound mac st) (e : Envelope n) :
    Sound mac (handle mac now e st).1 := by
  cases hs : st e.dst with
  | none => rwa [handle_of_none hs]
  | some s =>
    rw [handle_of_some hs]
    intro j s' hj
    by_cases hje : j = e.dst
    · subst hje
      obtain ⟨hwf, hmac⟩ := h _ s hs
      simp only [Function.update_self, Option.some.injEq] at hj
      subst hj
      exact ⟨hwf.exec _, (IrIdNegotiator.exec_mac_send hwf (call_ne_begin _ _)).1.trans hmac⟩
    · simp only [Function.update_of_ne hje] at hj
      exact h j s' hj

/-- An answer of station `i` to a probe weighs less than the probe. -/
theorem defend_lt (i : Fin n) : n * 2 * (n + 1) ^ rank mac (mac i) < 2 * (n + 1) ^ n := by
  have hpos : 0 < (n + 1) ^ rank mac (mac i) := by positivity
  calc n * 2 * (n + 1) ^ rank mac (mac i)
      < 2 * ((n + 1) ^ rank mac (mac i) * (n + 1)) := by nlinarith
    _ = 2 * (n + 1) ^ (rank mac (mac i) + 1) := by rw [pow_succ]
    _ ≤ 2 * (n + 1) ^ n :=
        Nat.mul_le_mul_left 2 (Nat.pow_le_pow_right (Nat.succ_pos n) (rank_self_lt mac i))

/-- An answer of station `i` to a beacon of a larger address weighs less than
the beacon. -/
theorem counter_lt {i : Fin n} {m : Mac} (h : (mac i).value < m.value) :
    n * (n + 1) ^ rank mac (mac i) < (n + 1) ^ rank mac m := by
  have hpos : 0 < (n + 1) ^ rank mac (mac i) := by positivity
  calc n * (n + 1) ^ rank mac (mac i)
      < (n + 1) ^ rank mac (mac i) * (n + 1) := by nlinarith
    _ = (n + 1) ^ (rank mac (mac i) + 1) := by rw [pow_succ]
    _ ≤ (n + 1) ^ rank mac m := Nat.pow_le_pow_right (Nat.succ_pos n) (rank_lt mac h)

theorem handle_lower {st : Fin n → Option IrIdNegotiator} (h : Sound mac st) (e : Envelope n) :
    stateWeight now (handle mac now e st).1 +
        ((handle mac now e st).2.map (messageWeight mac)).sum <
      stateWeight now st + messageWeight mac e := by
  have hpos := messageWeight_pos mac e
  cases hs : st e.dst with
  | none =>
    rw [handle_of_none hs]
    simpa using hpos
  | some s =>
    obtain ⟨hwf, hmac⟩ := h _ s hs
    rw [handle_of_some hs]
    dsimp only
    set c := e.call (now e.dst) with hcall
    have hupd := stateWeight_update now st e.dst (some (s.exec c).1)
    rw [hs] at hupd
    simp only [stationWeight] at hupd
    have hemit := weight_emit_le mac { st := st, flight := [] } e.dst s
    rcases IrIdNegotiator.exec_radio hwf (c := c) (t := now e.dst) (call_ne_begin _ _)
        (call_ne_tick _ _) (call_evidence_time _ _ _) (fun _ _ hc => (call_eq_onBeacon hc).2.2) with
      ⟨htx, hfree⟩ | ⟨⟨x, htx⟩, hfree⟩ | ⟨⟨src, u, hc, htx⟩, hfree⟩ |
        ⟨⟨src, u, hc, hlt, htx⟩, hfree⟩
    · -- the call is silent
      have hmul := Nat.mul_le_mul_left (n * (2 * (n + 1) ^ n)) hfree
      rw [htx]
      simp only [fanOut, List.flatMap_nil, List.map_nil, List.sum_nil]
      omega
    · -- a probe goes out: the id it leaves behind outweighs it
      have hmul := Nat.mul_le_mul_left (n * (2 * (n + 1) ^ n)) (Nat.succ_le_of_lt hfree)
      rw [Nat.mul_succ] at hmul
      have hsum : _ ≤ n * (2 * (n + 1) ^ n) := hemit .probe x none
      rw [htx]
      omega
    · -- a probe is answered by two beacons
      have hk : e.kind = .probe := call_eq_onProbe (hcall.symm.trans hc)
      have hlt := defend_lt mac e.dst
      have hw : messageWeight mac e = 2 * (n + 1) ^ n := by simp [messageWeight, hk]
      have hsum : ∀ d, _ ≤ n * (n + 1) ^ rank mac (mac e.dst) := hemit .beacon s.id
      have hunicast := hsum (some src)
      have hbroadcast := hsum none
      have htwo : n * 2 * (n + 1) ^ rank mac (mac e.dst) =
          n * (n + 1) ^ rank mac (mac e.dst) + n * (n + 1) ^ rank mac (mac e.dst) := by ring
      rw [hfree] at hupd
      rw [htx, fanOut_append, List.map_append, List.sum_append]
      omega
    · -- a beacon is answered by the smaller address
      obtain ⟨hk, rfl, -⟩ := call_eq_onBeacon (hcall.symm.trans hc)
      rw [hmac] at hlt
      have hlt := counter_lt mac hlt
      have hw : messageWeight mac e = (n + 1) ^ rank mac e.src := by simp [messageWeight, hk]
      have hsum : _ ≤ n * (n + 1) ^ rank mac (mac e.dst) := hemit .beacon s.id none
      rw [hfree] at hupd
      rw [htx]
      omega

/-- The traffic as a draining system. -/
def weight : Drain.Weight (handle mac now) (Sound mac) where
  state := stateWeight now
  message := messageWeight mac
  pos := messageWeight_pos mac
  inv h e := h.handle mac now e
  lower h e := handle_lower mac now h e

/-- A sequence of deliveries is a run of the handler. -/
theorem Delivery.drainRun {m : ℕ} {f : ℕ → Bus n}
    (h : ∀ k < m, Delivery mac now (f k) (f (k + 1))) :
    Drain.Run (handle mac now) m ((f 0).st, (f 0).flight) ((f m).st, (f m).flight) := by
  induction m with
  | zero => exact .refl _
  | succ m ih => exact .tail (ih fun k hk => h k (by omega)) ((h m (by omega)).step)

/-- **The traffic drains.**  From any configuration of sound stations, with any
messages in flight and the clocks standing still, there is a bound on the
length of every sequence of deliveries and losses; a sequence that cannot be
continued has emptied the network. -/
theorem deliveries_finite (b : Bus n)
    (hok : ∀ i s, b.st i = some s → s.Wf ∧ s.mac = mac i) :
    ∃ B, ∀ m (f : ℕ → Bus n), f 0 = b → (∀ k < m, Delivery mac now (f k) (f (k + 1))) →
      m ≤ B ∧ ((¬ ∃ b', Delivery mac now (f m) b') → (f m).flight = []) := by
  refine ⟨(weight mac now).total (b.st, b.flight), ?_⟩
  rintro m f rfl hf
  refine ⟨?_, ?_⟩
  · have := ((weight mac now).length_le (c := ((f 0).st, (f 0).flight)) hok
      (Delivery.drainRun mac now hf)).2
    omega
  · intro hstuck
    cases hfl : (f m).flight with
    | nil => rfl
    | cons e fl => exact absurd ⟨_, .lose (f m) 0 e (by simp [hfl])⟩ hstuck

/-- Two holders of id 7, each other's beacons on their way, and a foreign
probe for the id. -/
def clashMac (i : Fin 2) : Mac := ⟨#v[0x24, 0x6F, 0x28, 0, 0, if i.val = 0 then 0x06 else 0x15]⟩

def clashBus : Bus 2 where
  st i := some { send := true, mac := clashMac i, state := .held, id := 7 }
  flight := [⟨⟨0, Nat.two_pos⟩, clashMac ⟨1, Nat.one_lt_two⟩, .beacon, 7⟩,
    ⟨⟨1, Nat.one_lt_two⟩, clashMac ⟨0, Nat.two_pos⟩, .beacon, 7⟩,
    ⟨⟨0, Nat.two_pos⟩, ⟨#v[0x24, 0x6F, 0x28, 0, 0, 0x24]⟩, .probe, 7⟩]

theorem deliveries_finite_clash :
    ∃ B, ∀ m (f : ℕ → Bus 2), f 0 = clashBus →
      (∀ k < m, Delivery clashMac (fun _ => 9000) (f k) (f (k + 1))) →
      m ≤ B ∧ ((¬ ∃ b', Delivery clashMac (fun _ => 9000) (f m) b') → (f m).flight = []) := by
  refine deliveries_finite clashMac (fun _ => 9000) clashBus ?_
  rintro i s ⟨⟩
  exact ⟨⟨by simp, by simp, by simp, by simp, by simp, fun _ => rfl⟩, rfl⟩

end Bus

end InfinitagNow
