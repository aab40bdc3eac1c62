/-
InfinitagNow/PushForeign.lean

Foreign stations cannot disturb a running push.

A run of the device is compared with the same run into which packets and raw
frames of other addresses are put.  The two agree on the whole object except for
the trace (`Sync`): every function of the device reads the trace only through
the calls to the `Update` library, and these are the same.  The trace grows by
what was heard, and by a BUSY ack to every foreign BEGIN (`Extra`).
-/
import InfinitagNow.PushReceiver
import InfinitagNow.Runs

namespace InfinitagNow

/-- The answer to a BEGIN while another box pushes. -/
def busyAck : Packet := ackPacket { window := 0xFFFF, status := pushAckBusy }

/-! ### What the trace gains -/

/-- The second trace is the first with packets of other addresses than `m`, and
a BUSY ack after each BEGIN among them; newest first, as traces are. -/
inductive Extra (m : Mac) : List Obs → List Obs → Prop
  | nil : Extra m [] []
  | same (o : Obs) {t t' : List Obs} (h : Extra m t t') : Extra m (o :: t) (o :: t')
  | heard (rx : RxPacket) (hmac : rx.mac ≠ m) (hbegin : rx.pkt.msgType ≠ msgPushBegin)
      {t t' : List Obs} (h : Extra m t t') : Extra m t (.rx rx :: t')
  | busy (rx : RxPacket) (hmac : rx.mac ≠ m) (hbegin : rx.pkt.msgType = msgPushBegin)
      {t t' : List Obs} (h : Extra m t t') :
      Extra m t (.send rx.mac busyAck :: .rx rx :: t')

namespace Extra

variable {m : Mac} {t t' : List Obs}

theorem refl : ∀ t : List Obs, Extra m t t
  | [] => .nil
  | o :: t => .same o (refl t)

/-- The `Update` library is called alike. -/
theorem updates_eq (h : Extra m t t') : updates t' = updates t := by
  induction h with
  | nil => rfl
  | same o h ih => cases o <;> simp [ih]
  | heard rx hmac hbegin h ih => simpa using ih
  | busy rx hmac hbegin h ih => simpa using ih

/-- The sender of the session gets the same packets. -/
theorem sends_eq (h : Extra m t t') :
    (sends t').filter (·.1 = m) = (sends t).filter (·.1 = m) := by
  induction h with
  | nil => rfl
  | same o h ih => cases o <;> simp [ih]
  | heard rx hmac hbegin h ih => simpa using ih
  | busy rx hmac hbegin h ih =>
    rw [sends_send, sends_rx, List.filter_append, ih]
    simp [hmac]

end Extra

namespace EspNowPushReceiver

variable {plat : Platform} {m : Mac} {a b : EspNowPushReceiver}

/-- The objects agree but for what the second heard besides. -/
def Sync (m : Mac) (a b : EspNowPushReceiver) : Prop :=
  ∃ t, b = { a with trace := t } ∧ Extra m a.trace t

theorem Sync.refl (a : EspNowPushReceiver) : Sync m a a := ⟨a.trace, rfl, .refl _⟩

/-! ### Every function keeps the two in step -/

theorem Sync.log (h : Sync m a b) (o : Obs) : Sync m (a.log o) (b.log o) := by
  obtain ⟨t, rfl, ht⟩ := h
  exact ⟨o :: t, rfl, ht.same o⟩

theorem Sync.sendAck (h : Sync m a b) (plat : Platform) (window : UInt16) (missing : UInt32)
    (status detail : UInt8) :
    Sync m (a.sendAck plat window missing status detail)
      (b.sendAck plat window missing status detail) := by
  obtain ⟨t, rfl, ht⟩ := h
  exact ⟨_, rfl, ht.same _⟩

theorem Sync.read (h : Sync m a b) : Sync m a.read b.read := by
  obtain ⟨t, rfl, ht⟩ := h
  exact ⟨t, rfl, ht⟩

theorem Sync.touched (h : Sync m a b) (plat : Platform) :
    Sync m (a.touched plat) (b.touched plat) := by
  obtain ⟨t, rfl, ht⟩ := h
  exact ⟨t, rfl, ht⟩

theorem Sync.fail (h : Sync m a b) (plat : Platform) (status : UInt8) :
    Sync m (a.fail plat status) (b.fail plat status) := by
  obtain ⟨t, rfl, ht⟩ := h
  refine ⟨({ a with trace := t }.fail plat status).trace, ?_, ?_⟩
  · simp only [EspNowPushReceiver.fail, ht.updates_eq]
    rfl
  · simp only [fail_trace, ht.updates_eq]
    exact ((ht.same _).same _).same _

theorem Sync.flashRow (h : Sync m a b) (plat : Platform) (i : ℕ) :
    Sync m (a.flashRow plat i).1 (b.flashRow plat i).1 ∧
      (b.flashRow plat i).2 = (a.flashRow plat i).2 := by
  obtain ⟨t, rfl, ht⟩ := h
  by_cases hw : plat.write (updates a.trace) (a.rowData i) (a.rowLen i) = a.rowLen i
  · have hw' : plat.write (updates t) (a.rowData i) (a.rowLen i) = a.rowLen i := by
      rw [ht.updates_eq, hw]
    rw [flashRow_ok hw, flashRow_ok (r := { a with trace := t }) hw']
    exact ⟨⟨_, rfl, ht.same _⟩, rfl⟩
  · have hw' : plat.write (updates t) (a.rowData i) (a.rowLen i) ≠ a.rowLen i := by
      rw [ht.updates_eq]
      exact hw
    rw [flashRow_fail hw, flashRow_fail (r := { a with trace := t }) hw']
    refine ⟨?_, rfl⟩
    have hlog : Sync m a { a with trace := t } := ⟨t, rfl, ht⟩
    have := (hlog.log (.update (.write (a.rowData i) (a.rowLen i)
      (plat.write (updates a.trace) (a.rowData i) (a.rowLen i))))).fail plat pushAckFinalFlash
    rw [show updates ({ a with trace := t } : EspNowPushReceiver).trace = updates a.trace from
      ht.updates_eq]
    exact this

theorem Sync.flashRows (h : Sync m a b) (plat : Platform) (i n : ℕ) :
    Sync m (a.flashRows plat i n).1 (b.flashRows plat i n).1 ∧
      (b.flashRows plat i n).2 = (a.flashRows plat i n).2 := by
  induction n generalizing a b i with
  | zero => exact ⟨h, rfl⟩
  | succ n ih =>
    obtain ⟨hsync, hok⟩ := h.flashRow plat i
    simp only [EspNowPushReceiver.flashRows, hok]
    split
    · exact ih hsync (i + 1)
    · exact ⟨hsync, hok⟩

theorem Sync.finishWindow (h : Sync m a b) (plat : Platform) :
    Sync m (a.finishWindow plat) (b.finishWindow plat) := by
  have hremain : b.logRemain.remain = a.logRemain.remain := by
    obtain ⟨t, rfl, -⟩ := h
    rfl
  have hlog : Sync m a.logRemain b.logRemain := by
    obtain ⟨t, rfl, ht⟩ := h
    exact ⟨_, rfl, ht.same _⟩
  obtain ⟨hsync, hok⟩ := hlog.flashRows plat 0 a.logRemain.remain.toNat
  simp only [EspNowPushReceiver.finishWindow, hremain, hok]
  split
  · obtain ⟨t, heq, ht⟩ := hsync
    rw [heq]
    exact ⟨_, rfl, (ht.same _).same _⟩
  · exact hsync

/-- A step that does not look at the trace and leaves it alone. -/
theorem Sync.of_commutes {f : EspNowPushReceiver → EspNowPushReceiver} (h : Sync m a b)
    (hcommutes : ∀ t, f { a with trace := t } = { f a with trace := t })
    (htrace : (f a).trace = a.trace) : Sync m (f a) (f b) := by
  obtain ⟨t, rfl, ht⟩ := h
  exact ⟨t, hcommutes t, by rwa [htrace]⟩

theorem Sync.ite {c : Prop} [Decidable c] {a' b' : EspNowPushReceiver} (h : Sync m a b)
    (h' : Sync m a' b') : Sync m (if c then a else a') (if c then b else b') := by
  split
  · exact h
  · exact h'

theorem Sync.logRemain (h : Sync m a b) : Sync m a.logRemain b.logRemain := by
  obtain ⟨t, rfl, ht⟩ := h
  exact ⟨_, rfl, ht.same _⟩

theorem Sync.onFrame (h : Sync m a b) (plat : Platform) (frame : RawFrame) :
    Sync m (a.onFrame plat frame) (b.onFrame plat frame) := by
  have htouched := h.touched plat
  have hstored : Sync m ((a.touched plat).stored frame) ((b.touched plat).stored frame) :=
    htouched.of_commutes (f := fun r => r.stored frame) (fun _ => rfl) rfl
  obtain ⟨t, rfl, ht⟩ := h
  refine .ite (.ite (htouched.read.sendAck plat _ _ _ _) htouched.read) (.ite htouched
    (.ite htouched (.ite (hstored.logRemain.finishWindow plat) hstored.logRemain)))

theorem Sync.drain (h : Sync m a b) (plat : Platform) : Sync m (a.drain plat) (b.drain plat) := by
  have hqueue : ∀ q, Sync m { a with queue := q } { b with queue := q } := fun q =>
    h.of_commutes (f := fun r => { r with queue := q }) (fun _ => rfl) rfl
  have hback := h
  obtain ⟨t, rfl, ht⟩ := h
  unfold EspNowPushReceiver.drain
  refine .ite hback ?_
  dsimp only
  split
  · exact hback
  · rename_i frame queue hpop
    exact (hqueue queue).onFrame plat frame

theorem Sync.tail (h : Sync m a b) (plat : Platform) : Sync m (a.tail plat) (b.tail plat) := by
  have hback := h
  obtain ⟨t, rfl, ht⟩ := h
  exact .ite hback (.ite (.ite (hback.read.read.logRemain.sendAck plat _ _ _ _) hback.read.read)
    hback.read)

theorem Sync.drainAll (h : Sync m a b) (plat : Platform) (k : ℕ) :
    Sync m (a.drainAll plat k) (b.drainAll plat k) := by
  induction k generalizing a b with
  | zero => exact h
  | succ k ih => exact ih (h.drain plat)

theorem Sync.loop (h : Sync m a b) (plat : Platform) : Sync m (a.loop plat) (b.loop plat) := by
  have hqueue : b.queue = a.queue := by
    obtain ⟨t, rfl, -⟩ := h
    rfl
  unfold EspNowPushReceiver.loop
  rw [hqueue]
  exact (h.drainAll plat _).tail plat

theorem Sync.onBegin (h : Sync m a b) (plat : Platform) (rx : RxPacket) :
    Sync m (a.onBegin plat rx) (b.onBegin plat rx) := by
  have hback := h
  have hbegin : Sync m { a with begin := decodePushBegin rx.pkt.payload, srcMac := rx.mac }
      { b with begin := decodePushBegin rx.pkt.payload, srcMac := rx.mac } :=
    h.of_commutes (f := fun r =>
      { r with begin := decodePushBegin rx.pkt.payload, srcMac := rx.mac }) (fun _ => rfl) rfl
  obtain ⟨t, rfl, ht⟩ := h
  unfold EspNowPushReceiver.onBegin
  dsimp only
  rw [ht.updates_eq]
  have hopen := (hbegin.log (.update (.begin (decodePushBegin rx.pkt.payload).size
    (plat.toUpdateLib.begin (updates a.trace) (decodePushBegin rx.pkt.payload).size)))).of_commutes
      (f := fun r => r.openSession.touched plat) (fun _ => rfl) rfl
  exact .ite (hback.log _) (.ite (.ite (hbegin.fail plat _)
    (.ite ((hbegin.log _).fail plat _) hopen)) (hback.touched plat))

theorem Sync.onEnd (h : Sync m a b) (plat : Platform) : Sync m (a.onEnd plat) (b.onEnd plat) := by
  have htouched := h.touched plat
  obtain ⟨t, rfl, ht⟩ := h
  have hend : updates ({ a with trace := t }.touched plat).trace = updates (a.touched plat).trace :=
    ht.updates_eq
  have hlog := htouched.log (.update (.end_ (plat.end_ (updates (a.touched plat).trace))))
  have hacked := (hlog.sendAck plat 0xFFFF 0 pushAckFinalOk 0).sendAck plat 0xFFFF 0
    pushAckFinalOk 0
  have hdone := hacked.of_commutes (f := fun r => { r with state := .done }) (fun _ => rfl) rfl
  show Sync m _ (if _ then _ else if _ then _ else
    if plat.end_ (updates ({ a with trace := t }.touched plat).trace) = false then
      (({ a with trace := t }.touched plat).log (.update (.end_
        (plat.end_ (updates ({ a with trace := t }.touched plat).trace))))).fail plat
          pushAckFinalFlash
    else
      { (((({ a with trace := t }.touched plat).log (.update (.end_
        (plat.end_ (updates ({ a with trace := t }.touched plat).trace))))).sendAck plat 0xFFFF 0
          pushAckFinalOk 0).sendAck plat 0xFFFF 0 pushAckFinalOk 0) with state := .done })
  rw [hend]
  exact .ite (htouched.logRemain.sendAck plat _ _ _ _) (.ite (htouched.fail plat _)
    (.ite ((htouched.log _).fail plat _) hdone))

theorem Sync.onControl (h : Sync m a b) (plat : Platform) (rx : RxPacket) :
    Sync m (a.onControl plat rx) (b.onControl plat rx) := by
  have hlog := h.log (.rx rx)
  have hbegin := hlog.onBegin plat rx
  have hend := hlog.onEnd plat
  obtain ⟨t, rfl, ht⟩ := h
  exact .ite hbegin (.ite hend hlog)

theorem Sync.rawHandler (h : Sync m a b) (mac : Mac) (data : List UInt8) :
    Sync m (a.rawHandler mac data) (b.rawHandler mac data) := by
  refine h.of_commutes (f := fun r => r.rawHandler mac data) (fun t => ?_) ?_
  · simp only [EspNowPushReceiver.rawHandler]
    split_ifs <;> rfl
  · simp only [EspNowPushReceiver.rawHandler]
    split_ifs <;> rfl

/-- The step lemma. -/
theorem Sync.step (h : Sync m a b) (plat : Platform) (ev : Event) :
    Sync m (a.step plat ev) (b.step plat ev) := by
  cases ev with
  | control rx => exact h.onControl plat rx
  | raw mac data => exact h.rawHandler mac data
  | drain => exact h.drain plat
  | tail => exact h.tail plat
  | loop => exact h.loop plat

/-! ### Foreign events -/

/-- A packet or raw frame of another address, in a running session with `m`. -/
def Foreign (m : Mac) (r : EspNowPushReceiver) (ev : Event) : Prop :=
  r.state = .receiving ∧ r.srcMac = m ∧ match ev with
    | .control rx => rx.mac ≠ m
    | .raw mac _ => mac ≠ m
    | _ => False

/-- A foreign event leaves only its trace. -/
theorem Sync.foreign (h : Sync m a b) (plat : Platform) {ev : Event} (hev : Foreign m a ev) :
    Sync m a (b.step plat ev) := by
  obtain ⟨t, rfl, ht⟩ := h
  obtain ⟨hst, hsrc, hmac⟩ := hev
  cases ev with
  | control rx =>
    have hne : rx.mac ≠ m := hmac
    by_cases hbegin : rx.pkt.msgType = msgPushBegin
    · refine ⟨.send rx.mac busyAck :: .rx rx :: t, ?_, ht.busy rx hne hbegin⟩
      simp [EspNowPushReceiver.step, EspNowPushReceiver.onControl, EspNowPushReceiver.onBegin,
        EspNowPushReceiver.log, hbegin, hst, hsrc, hne, busyAck]
    · refine ⟨.rx rx :: t, ?_, ht.heard rx hne hbegin⟩
      simp [EspNowPushReceiver.step, EspNowPushReceiver.onControl, EspNowPushReceiver.log, hbegin,
        hsrc, hne]
  | raw mac data =>
    have hne : mac ≠ m := hmac
    refine ⟨t, ?_, ht⟩
    simp only [EspNowPushReceiver.step, EspNowPushReceiver.rawHandler, hst, hsrc]
    simp [hne]
  | drain | tail | loop => exact hmac.elim

/-- **Foreign stations cannot disturb a push**: put packets and raw frames of
other addresses anywhere into a run, as long as a session with `m` is running
there.  The object ends the same in every field, the `Update` library is called
alike, `m` gets the same packets, and the trace gains nothing but what was heard
and a BUSY ack for every foreign BEGIN. -/
theorem foreign_events_harmless (plat : Platform) (m : Mac) (r : EspNowPushReceiver)
    (evs evs' : List Event) (h : Inserted (step plat) (Foreign m) r evs evs') :
    (r.run plat evs') = { r.run plat evs with trace := (r.run plat evs').trace } ∧
      updates (r.run plat evs').trace = updates (r.run plat evs).trace ∧
      (sends (r.run plat evs').trace).filter (·.1 = m) =
        (sends (r.run plat evs).trace).filter (·.1 = m) ∧
      Extra m (r.run plat evs).trace (r.run plat evs').trace := by
  have hsync : Sync m (r.run plat evs) (r.run plat evs') :=
    h.run (fun hR ev => hR.step plat ev) (fun hR hev => hR.foreign plat hev) (.refl r)
  obtain ⟨t, heq, ht⟩ := hsync
  have htrace : (r.run plat evs').trace = t := by rw [heq]
  rw [htrace]
  exact ⟨heq, ht.updates_eq, ht.sends_eq, ht⟩

/-- While an image of one byte is pushed, another box tries to push and sends a
frame. -/
theorem foreign_events_harmless_oneByte :
    let r := ({} : EspNowPushReceiver).onControl flawlessPlat ⟨{}, beginPacket { size := 1 }⟩
    let other : Mac := ⟨#v[0, 0, 0, 0, 0, 1]⟩
    updates (r.run flawlessPlat [.control ⟨other, beginPacket { size := 9 }⟩,
        .raw other (rawBytes 0 [9]), .raw {} (rawBytes 0 [7]), .loop]).trace =
      updates (r.run flawlessPlat [.raw {} (rawBytes 0 [7]), .loop]).trace := by
  intro r other
  have hforeign : ∀ ev, (match ev with
      | .control rx => rx.mac ≠ {}
      | .raw mac _ => mac ≠ {}
      | _ => False) → Foreign {} r ev := fun ev hev => ⟨by decide +kernel, by decide +kernel, hev⟩
  have h : Inserted (step flawlessPlat) (Foreign {}) r [.raw {} (rawBytes 0 [7]), .loop]
      [.control ⟨other, beginPacket { size := 9 }⟩, .raw other (rawBytes 0 [9]),
        .raw {} (rawBytes 0 [7]), .loop] :=
    .extra (hforeign (.control _) (by decide)) (.extra (hforeign (.raw _ _) (by decide))
      (.keep (.keep (.nil _))))
  exact (foreign_events_harmless flawlessPlat {} r _ _ h).2.1

end EspNowPushReceiver

end InfinitagNow
