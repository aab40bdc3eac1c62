/-
InfinitagNow/PushLeftover.lean

What an earlier session leaves in the frame queue.

The queue is emptied only while a session runs, and an accepted BEGIN does not
reset it.  Beside the queue a run carries where each queued frame comes from
(`Origin`); `CleanFrom` says that only frames that came since the BEGIN, from its
sender, are copied into the window buffer.  Frames left over are the first to be
taken, in window 0, so a session is clean whatever happens in it exactly when
none of them has a number of window 0.
-/
import InfinitagNow.PushReceiver

namespace InfinitagNow

namespace EspNowPushReceiver

variable {plat : Platform} {m : Mac} {r r' : EspNowPushReceiver}

/-! ### Where frames come from -/

/-- A queued frame waited when the session began, or the raw handler got it from
an address since. -/
inductive Origin
  | earlier
  | since (mac : Mac)
  deriving DecidableEq, Repr

/-- The frame the next pass of the draining loop copies into the window buffer
and marks. -/
def copied (r : EspNowPushReceiver) : Option RawFrame :=
  if r.state ≠ .receiving then none
  else
    match r.queue.pop with
    | none => none
    | some (frame, _) =>
      if frame.frameIdx < r.first ∨ frame.frameIdx ≥ r.first + pushWindowFrames then none
      else some frame

/-- The origins of the queued frames after an event: one more behind, or one
less in front. -/
def nextOrigins (r r' : EspNowPushReceiver) (os : List Origin) : Event → List Origin
  | .raw mac _ => if r'.queue.length = r.queue.length + 1 then os ++ [.since mac] else os
  | .drain => if r'.queue.length + 1 = r.queue.length then os.tail else os
  | _ => os

/-- A run in atomic events: every `loop` drains what is queued and ends with the
tail. -/
def atoms (plat : Platform) (r : EspNowPushReceiver) : List Event → List Event
  | [] => []
  | .loop :: evs => .replicate r.queue.length .drain ++ .tail :: atoms plat (r.loop plat) evs
  | ev :: evs => ev :: atoms plat (r.step plat ev) evs

/-- As long as the session lasts, only frames are copied that came since its
BEGIN and from its sender `m`. -/
def CleanFrom (plat : Platform) (m : Mac) (r : EspNowPushReceiver) (os : List Origin) :
    List Event → Prop
  | [] => True
  | ev :: evs => r.state = .receiving →
      (ev = .drain → r.copied ≠ none → os.head? = some (.since m)) ∧
        CleanFrom plat m (r.step plat ev) (nextOrigins r (r.step plat ev) os ev) evs

instance decidableCleanFrom (plat : Platform) (m : Mac) :
    ∀ r os evs, Decidable (CleanFrom plat m r os evs)
  | _, _, [] => isTrue trivial
  | r, os, ev :: evs =>
    have := decidableCleanFrom plat m (r.step plat ev) (nextOrigins r (r.step plat ev) os ev) evs
    inferInstanceAs (Decidable (_ → _ ∧ _))

/-! ### Runs in atomic events -/

theorem run_replicate_drain (r : EspNowPushReceiver) (k : ℕ) :
    r.run plat (.replicate k .drain) = r.drainAll plat k := by
  induction k generalizing r with
  | zero => rfl
  | succ k ih => exact ih (r.drain plat)

/-- The atomic events do what the events do. -/
theorem run_atoms (r : EspNowPushReceiver) (evs : List Event) :
    r.run plat (atoms plat r evs) = r.run plat evs := by
  induction evs generalizing r with
  | nil => rfl
  | cons ev evs ih =>
    cases ev with
    | loop =>
      have happend : r.run plat (atoms plat r (.loop :: evs)) =
          ((r.run plat (.replicate r.queue.length .drain)).tail plat).run plat
            (atoms plat (r.loop plat) evs) := List.foldl_append
      rw [happend, run_replicate_drain]
      exact ih (r.loop plat)
    | control | raw | drain | tail => exact ih _

theorem loop_notMem_atoms (r : EspNowPushReceiver) (evs : List Event) :
    Event.loop ∉ atoms plat r evs := by
  induction evs generalizing r with
  | nil => exact List.not_mem_nil
  | cons ev evs ih =>
    cases ev with
    | loop =>
      intro hmem
      rcases List.mem_append.1 hmem with hmem | hmem
      · exact Event.noConfusion (List.eq_of_mem_replicate hmem)
      · exact ih _ ((List.mem_cons.1 hmem).resolve_left Event.noConfusion)
    | control | raw | drain | tail =>
      intro hmem
      exact ih _ ((List.mem_cons.1 hmem).resolve_left Event.noConfusion)

theorem atoms_replicate_drain (r : EspNowPushReceiver) (k : ℕ) :
    atoms plat r (.replicate k .drain) = .replicate k .drain := by
  induction k generalizing r with
  | zero => rfl
  | succ k ih =>
    show .drain :: atoms plat (r.drain plat) (.replicate k .drain) = _
    rw [ih]
    rfl

/-! ### What a pass of the draining loop does -/

theorem copied_of_pop {frame : RawFrame} {queue : Ring RawFrame 24} (hst : r.state = .receiving)
    (hpop : r.queue.pop = some (frame, queue)) :
    r.copied = if frame.frameIdx < r.first ∨ frame.frameIdx ≥ r.first + pushWindowFrames then none
      else some frame := by
  rw [copied, if_neg (not_not.2 hst), hpop]

/-- Flashing a window leaves the sender and the buffer alone. -/
theorem finishWindow_srcMac (r : EspNowPushReceiver) :
    (r.finishWindow plat).srcMac = r.srcMac := by
  rcases finishWindow_cases plat (r := r) (P := fun _ r₁ => r₁.srcMac = r.srcMac)
      (fun _ h _ => by simpa using h) (by simp) with ⟨r₁, h, heq⟩ | ⟨j, r₁, -, h, -, heq⟩
  · rw [heq]
    simpa using h
  · rw [heq]
    simpa using h

theorem finishWindow_winBuf (r : EspNowPushReceiver) :
    (r.finishWindow plat).winBuf = r.winBuf := by
  funext i
  rcases finishWindow_cases plat (r := r) (P := fun _ r₁ => r₁.winBuf i = r.winBuf i)
      (fun _ h _ => by simpa using h) (by simp) with ⟨r₁, h, heq⟩ | ⟨j, r₁, -, h, -, heq⟩
  · rw [heq]
    simpa using h
  · rw [heq]
    simpa [fail] using h

/-- The window buffer changes by the copied frame only. -/
theorem drain_winBuf (plat : Platform) (r : EspNowPushReceiver) :
    (r.drain plat).winBuf = match r.copied with
      | none => r.winBuf
      | some frame => (r.stored frame).winBuf := by
  have hstored : ∀ f q, (({ r with queue := q }.touched plat).stored f).winBuf =
      (r.stored f).winBuf := fun _ _ => rfl
  have hrule := drain_rule plat r
  generalize r.drain plat = r' at hrule
  funext i
  cases hrule with
  | quiet h =>
    have hnone : r.copied = none := by
      unfold copied
      rcases h with hst | hnil
      · rw [if_pos hst]
      · rw [Ring.pop_of_toList_nil hnil]
        split <;> rfl
    rw [hnone]
  | stale f q hst hpop hlt | reack f q hst hpop hlt =>
    rw [copied_of_pop hst hpop, if_pos (.inl hlt)]
    simp
  | future f q hst hpop hge =>
    rw [copied_of_pop hst hpop, if_pos (.inr hge)]
    simp
  | store f q hst hpop hge hlt =>
    rw [copied_of_pop hst hpop, if_neg (not_or.2 ⟨hge, hlt⟩), logRemain_winBuf]
    exact congrFun (hstored f q) i
  | complete f q hst hpop hge hlt =>
    rw [copied_of_pop hst hpop, if_neg (not_or.2 ⟨hge, hlt⟩), finishWindow_winBuf,
      logRemain_winBuf]
    exact congrFun (hstored f q) i

/-! ### Clean sessions -/

/-- In front of the queue wait the frames left over, none of which has a number
of window 0, and only while that is the window; behind them those that came
since. -/
structure Traced (m : Mac) (r : EspNowPushReceiver) (os : List Origin) : Prop where
  srcMac : r.srcMac = m
  split : ∃ old new, r.queue.toList = old ++ new ∧
    os = old.map (fun _ => .earlier) ++ new.map (fun _ => .since m) ∧
    (∀ f ∈ old, 16 ≤ f.frameIdx.toNat) ∧ (old ≠ [] → r.window = 0)

variable {os : List Origin}

theorem Traced.of_eq (h : r.Traced m os) (hmac : r'.srcMac = r.srcMac)
    (hqueue : r'.queue = r.queue) (hwindow : r'.window = r.window) : r'.Traced m os := by
  refine ⟨hmac.trans h.srcMac, ?_⟩
  rw [hqueue, hwindow]
  exact h.split

/-- A frame came in. -/
theorem Traced.push (h : r.Traced m os) (frame : RawFrame) (hst : r'.srcMac = r.srcMac)
    (hqueue : r'.queue = r.queue.push frame) (hwindow : r'.window = r.window) :
    r'.Traced m (if r'.queue.length = r.queue.length + 1 then os ++ [.since m] else os) := by
  obtain ⟨old, new, hsplit, hos, hold, hwin⟩ := h.split
  rcases Ring.push_cases r.queue frame with ⟨hlist, hlen⟩ | ⟨hlist, hlen⟩
  · rw [hqueue, if_pos hlen]
    refine ⟨hst.trans h.srcMac, old, new ++ [frame], ?_, ?_, hold, hwindow ▸ hwin⟩
    · rw [hqueue, hlist, hsplit, List.append_assoc]
    · rw [hos, List.map_append, List.append_assoc]
      rfl
  · -- the ring was full and the frame is lost
    rw [hqueue, if_neg (by omega)]
    exact ⟨hst.trans h.srcMac, old, new, by rw [hqueue, hlist, hsplit], hos, hold, hwindow ▸ hwin⟩

/-- A frame was taken out.  One left over was not for this window, and the window
stays; the others came since. -/
theorem Traced.pop (h : r.Traced m os) {frame : RawFrame} {queue : Ring RawFrame 24}
    (hpop : r.queue.pop = some (frame, queue)) (hmac : r'.srcMac = r.srcMac)
    (hqueue : r'.queue = queue) (hwindow : r'.window = r.window ∨ os.head? = some (.since m)) :
    r'.Traced m (if r'.queue.length + 1 = r.queue.length then os.tail else os) := by
  have hlist := Ring.toList_of_pop_some hpop
  have hlen : r'.queue.length + 1 = r.queue.length := by
    rw [hqueue, Ring.length_of_pop_some hpop]
  rw [if_pos hlen]
  obtain ⟨old, new, hsplit, hos, hold, hwin⟩ := h.split
  rw [hlist] at hsplit
  cases old with
  | cons f old =>
    -- one left over: it is not of this window, so the window stays
    obtain ⟨-, hsplit⟩ := List.cons.inj hsplit
    have hsame : r'.window = r.window := hwindow.resolve_right (by simp [hos])
    refine ⟨hmac.trans h.srcMac, old, new, hqueue ▸ hsplit, by simp [hos],
      fun f hf => hold f (List.mem_cons_of_mem _ hf), fun _ => ?_⟩
    rw [hsame]
    exact hwin (List.cons_ne_nil _ _)
  | nil =>
    cases new with
    | nil => exact absurd hsplit (List.cons_ne_nil _ _)
    | cons f new =>
      obtain ⟨-, hsplit⟩ := List.cons.inj hsplit
      exact ⟨hmac.trans h.srcMac, [], new, hqueue ▸ hsplit, by simp [hos], by simp, by simp⟩

/-- A frame for the current window is not one left over, and then none is. -/
theorem no_leftover {frame : RawFrame} {queue : Ring RawFrame 24} {old new : List RawFrame}
    (hpop : r.queue.pop = some (frame, queue)) (hsplit : r.queue.toList = old ++ new)
    (hold : ∀ f ∈ old, 16 ≤ f.frameIdx.toNat) (hwin : old ≠ [] → r.window = 0)
    (hlt : ¬ frame.frameIdx ≥ r.first + pushWindowFrames) :
    old = [] ∧ new = frame :: queue.toList := by
  rw [Ring.toList_of_pop_some hpop] at hsplit
  cases old with
  | cons f old =>
    obtain ⟨rfl, -⟩ := List.cons.inj hsplit
    have hfirst : r.first + pushWindowFrames = 16 := by
      rw [first, hwin (List.cons_ne_nil _ _)]
      rfl
    refine absurd ?_ hlt
    rw [hfirst]
    exact UInt32.le_iff_toNat_le.2 (hold frame (by simp))
  | nil => exact ⟨rfl, hsplit.symm⟩

/-- A frame for the current window came since the BEGIN. -/
theorem Traced.head (h : r.Traced m os) {frame : RawFrame} {queue : Ring RawFrame 24}
    (hpop : r.queue.pop = some (frame, queue))
    (hlt : ¬ frame.frameIdx ≥ r.first + pushWindowFrames) : os.head? = some (.since m) := by
  obtain ⟨old, new, hsplit, hos, hold, hwin⟩ := h.split
  obtain ⟨rfl, rfl⟩ := no_leftover hpop hsplit hold hwin hlt
  rw [hos]
  rfl

/-- The step lemma: the event copies a clean frame if any, and the origins stay
right while the session lasts. -/
theorem Traced.step (h : r.Traced m os) (plat : Platform) (hst : r.state = .receiving)
    {ev : Event} (hev : ev ≠ .loop) :
    (ev = .drain → r.copied ≠ none → os.head? = some (.since m)) ∧
      ((r.step plat ev).state = .receiving →
        (r.step plat ev).Traced m (nextOrigins r (r.step plat ev) os ev)) := by
  have hrule := step_rule plat r hev
  generalize r.step plat ev = r' at hrule
  cases hrule with
  | ignore | busy | duplicate | endEarly =>
    exact ⟨fun hd => Event.noConfusion hd, fun _ => h.of_eq (by simp) (by simp) (by simp)⟩
  | refuseEmpty _ _ hne | refuse _ _ hne | accept _ _ hne => exact absurd hst hne
  | endMismatch | endFlash | commit =>
    exact ⟨fun hd => Event.noConfusion hd, fun hrecv => absurd hrecv (by simp)⟩
  | drop mac data =>
    refine ⟨fun hd => Event.noConfusion hd, fun _ => ?_⟩
    rw [nextOrigins, if_neg (by omega)]
    exact h
  | enqueue mac data frame _ hmac =>
    refine ⟨fun hd => Event.noConfusion hd, fun _ => ?_⟩
    rw [nextOrigins, hmac, h.srcMac]
    exact h.push frame h.srcMac.symm rfl rfl
  | quiet hq =>
    have hnil : r.queue.toList = [] := hq.resolve_left (not_not.2 hst)
    refine ⟨fun _ hcopied => absurd ?_ hcopied, fun _ => ?_⟩
    · rw [copied, if_neg (not_not.2 hst), Ring.pop_of_toList_nil hnil]
    · rw [nextOrigins, if_neg (by omega)]
      exact h
  | stale f q _ hpop hlt | reack f q _ hpop hlt =>
    refine ⟨fun _ hcopied => absurd ?_ hcopied,
      fun _ => h.pop hpop (by simp) (by simp) (.inl (by simp))⟩
    rw [copied_of_pop hst hpop, if_pos (.inl hlt)]
  | future f q _ hpop hge =>
    refine ⟨fun _ hcopied => absurd ?_ hcopied,
      fun _ => h.pop hpop (by simp) (by simp) (.inl (by simp))⟩
    rw [copied_of_pop hst hpop, if_pos (.inr hge)]
  | store f q _ hpop _ hlt =>
    exact ⟨fun _ _ => h.head hpop hlt, fun _ => h.pop hpop (by simp) (by simp) (.inl (by simp))⟩
  | complete f q _ hpop _ hlt =>
    refine ⟨fun _ _ => h.head hpop hlt, fun _ => h.pop hpop ?_ ?_ (.inr (h.head hpop hlt))⟩
    · rw [finishWindow_srcMac]
      rfl
    · rw [finishWindow_queue]
      rfl
  | calm | periodic =>
    exact ⟨fun hd => Event.noConfusion hd, fun _ => h.of_eq (by simp) (by simp) (by simp)⟩

theorem Traced.clean (h : r.Traced m os) {evs : List Event} (hevs : .loop ∉ evs) :
    CleanFrom plat m r os evs := by
  induction evs generalizing r os with
  | nil => trivial
  | cons ev evs ih =>
    intro hst
    have hev : ev ≠ .loop := fun heq => hevs (by simp [heq])
    obtain ⟨hhead, hnext⟩ := h.step plat hst hev
    refine ⟨hhead, ?_⟩
    by_cases hst' : (r.step plat ev).state = .receiving
    · exact ih (hnext hst') fun hmem => hevs (List.mem_cons_of_mem _ hmem)
    · -- the session is over
      cases evs with
      | nil => trivial
      | cons => exact fun hrecv => absurd hrecv hst'

/-! ### Sessions that are not clean -/

/-- A frame behind the window is taken out and nothing else happens. -/
theorem drain_future (plat : Platform) {f : RawFrame} {l : List RawFrame}
    (hst : r.state = .receiving) (hwindow : r.window = 0) (hlist : r.queue.toList = f :: l)
    (hge : 16 ≤ f.frameIdx.toNat) :
    (r.drain plat).state = .receiving ∧ (r.drain plat).window = 0 ∧
      (r.drain plat).queue.toList = l := by
  have hfirst : r.first = 0 := by rw [first, hwindow]; rfl
  have hhead : ∀ {g q}, r.queue.pop = some (g, q) → g = f ∧ q.toList = l := by
    intro g q hpop
    rw [Ring.toList_of_pop_some hpop] at hlist
    exact List.cons.inj hlist
  have hrule := drain_rule plat r
  generalize r.drain plat = r' at hrule
  cases hrule with
  | quiet hq =>
    rw [hlist] at hq
    exact absurd (hq.resolve_left (not_not.2 hst)) (List.cons_ne_nil _ _)
  | stale g q _ hpop hlt | reack g q _ hpop hlt =>
    rw [hfirst] at hlt
    exact absurd hlt (UInt32.not_lt.2 (UInt32.le_iff_toNat_le.2 (Nat.zero_le _)))
  | future g q _ hpop => exact ⟨by simpa using hst, by simpa using hwindow, (hhead hpop).2⟩
  | store g q _ hpop _ hlt | complete g q _ hpop _ hlt =>
    rw [(hhead hpop).1, hfirst] at hlt
    have hge' : (0 : UInt32) + pushWindowFrames ≤ f.frameIdx := UInt32.le_iff_toNat_le.2 hge
    exact absurd hge' hlt

/-- The first frame left over with a number of window 0 is copied. -/
theorem not_clean {pre post : List RawFrame} {f : RawFrame} (hst : r.state = .receiving)
    (hwindow : r.window = 0) (hlist : r.queue.toList = pre ++ f :: post)
    (hpre : ∀ g ∈ pre, 16 ≤ g.frameIdx.toNat) (hf : f.frameIdx.toNat < 16) :
    ¬ CleanFrom plat m r (r.queue.toList.map fun _ => .earlier)
      (.replicate (pre.length + 1) .drain) := by
  induction pre generalizing r with
  | nil =>
    -- it is next in the queue
    intro hclean
    obtain ⟨q, hpop, -⟩ := Ring.pop_of_toList_cons hlist
    have hfirst : r.first = 0 := by rw [first, hwindow]; rfl
    have hcopied : r.copied = some f := by
      rw [copied_of_pop hst hpop, hfirst, if_neg]
      rintro (hlt | hge)
      · exact absurd hlt (UInt32.not_lt.2 (UInt32.le_iff_toNat_le.2 (Nat.zero_le _)))
      · exact absurd (UInt32.le_iff_toNat_le.1 hge) (Nat.not_le.2 hf)
    have hhead := (hclean hst).1 rfl (by simp [hcopied])
    rw [hlist] at hhead
    simp at hhead
  | cons g pre ih =>
    -- a frame of a later window is dropped, and nothing else changes
    intro hclean
    obtain ⟨hst', hwindow', hlist'⟩ := drain_future plat hst hwindow hlist
      (hpre g (by simp))
    have hnext := (hclean hst).2
    have horigins : nextOrigins r (r.drain plat) (r.queue.toList.map fun _ => .earlier) .drain =
        (r.drain plat).queue.toList.map fun _ => .earlier := by
      have hlen : (r.drain plat).queue.length + 1 = r.queue.length := by
        rw [← Ring.length_toList, ← Ring.length_toList, hlist, hlist']
        rfl
      rw [nextOrigins, if_pos hlen, hlist, hlist']
      rfl
    have hstep : r.step plat .drain = r.drain plat := rfl
    rw [hstep, horigins] at hnext
    exact ih hst' hwindow' hlist' (fun g hg => hpre g (List.mem_cons_of_mem _ hg)) hnext

/-- **A new session is clean exactly when nothing of window 0 is left over**:
whatever happens after an accepted BEGIN, only frames that came since from its
sender are copied into the window buffer, if and only if no frame in the queue
at the BEGIN has a number below 16. -/
theorem clean_start_iff (plat : Platform) (r : EspNowPushReceiver) (rx : RxPacket)
    (hst : r.state ≠ .receiving) (hopen : (r.onControl plat rx).state = .receiving) :
    (∀ evs, CleanFrom plat rx.mac (r.onControl plat rx) (r.queue.toList.map fun _ => .earlier)
      (atoms plat (r.onControl plat rx) evs)) ↔
        ∀ f ∈ r.queue.toList, 16 ≤ f.frameIdx.toNat := by
  obtain ⟨-, heq⟩ := onControl_opens hst hopen
  have hqueue : (r.onControl plat rx).queue = r.queue := by rw [heq]; simp
  have hwindow : (r.onControl plat rx).window = 0 := by rw [heq]; simp
  have hmac : (r.onControl plat rx).srcMac = rx.mac := by rw [heq]; simp
  constructor
  · intro hclean
    by_contra hbad
    obtain ⟨f, hmem, hf⟩ : ∃ f ∈ r.queue.toList, f.frameIdx.toNat < 16 := by
      simpa using hbad
    -- take the first such frame: those before it are dropped, and it is copied
    obtain ⟨g, hfind⟩ : ∃ g, r.queue.toList.find? (fun f => f.frameIdx.toNat < 16) = some g :=
      Option.isSome_iff_exists.1 (List.find?_isSome.2 ⟨f, hmem, by simpa using hf⟩)
    obtain ⟨hg, pre, post, hlist, hpre⟩ := List.find?_eq_some_iff_append.1 hfind
    have hdrains := hclean (.replicate (pre.length + 1) .drain)
    rw [atoms_replicate_drain, ← hqueue] at hdrains
    refine not_clean hopen hwindow (by rw [hqueue, hlist]) (fun g hg => ?_) (by simpa using hg)
      hdrains
    simpa using hpre g hg
  · intro hall evs
    -- at the BEGIN everything in the queue is left over
    refine Traced.clean ⟨hmac, r.queue.toList, [], ?_, ?_, hall, fun _ => hwindow⟩
      (loop_notMem_atoms _ _)
    · rw [hqueue, List.append_nil]
    · rw [List.map_nil, List.append_nil]

/-- Another box, and a device whose push failed: its image of one byte had the
wrong CRC, and its only frame came twice. -/
def otherBox : Mac := ⟨.replicate 6 1⟩

def afterFailure : EspNowPushReceiver :=
  ({} : EspNowPushReceiver).run flawlessPlat
    [.control ⟨{}, beginPacket { size := 1, crc32 := 5 }⟩, .raw {} (rawBytes 0 [7]), .loop,
      .raw {} (rawBytes 0 [7]), .control ⟨{}, endPacket⟩]

/-- The next session, of another box, begins with the frame of the one before:
it is copied before the box has sent any. -/
theorem leftover_is_copied :
    afterFailure.state = .failed ∧
      (afterFailure.onControl flawlessPlat ⟨otherBox, beginPacket { size := 1 }⟩).state =
        .receiving ∧
      ¬ CleanFrom flawlessPlat otherBox
        (afterFailure.onControl flawlessPlat ⟨otherBox, beginPacket { size := 1 }⟩)
        (afterFailure.queue.toList.map fun _ => .earlier)
        (atoms flawlessPlat
          (afterFailure.onControl flawlessPlat ⟨otherBox, beginPacket { size := 1 }⟩)
          [.loop]) := by
  decide +kernel

/-- The same device, when the second frame was one of window 1. -/
def afterLateFrame : EspNowPushReceiver :=
  ({} : EspNowPushReceiver).run flawlessPlat
    [.control ⟨{}, beginPacket { size := 1, crc32 := 5 }⟩, .raw {} (rawBytes 0 [7]), .loop,
      .raw {} (rawBytes 16 [7]), .control ⟨{}, endPacket⟩]

/-- It is still in the queue when the other box begins, and is thrown away. -/
theorem clean_start_iff_lateFrame :
    afterLateFrame.state = .failed ∧
      afterLateFrame.queue.toList.map (fun f => f.frameIdx) = [16] ∧
      CleanFrom flawlessPlat otherBox
        (afterLateFrame.onControl flawlessPlat ⟨otherBox, beginPacket { size := 1 }⟩)
        (afterLateFrame.queue.toList.map fun _ => .earlier)
        (atoms flawlessPlat
          (afterLateFrame.onControl flawlessPlat ⟨otherBox, beginPacket { size := 1 }⟩)
          [.raw otherBox (rawBytes 0 [7]), .loop]) :=
  ⟨by decide +kernel, by decide +kernel,
    (clean_start_iff flawlessPlat afterLateFrame ⟨otherBox, beginPacket { size := 1 }⟩
      (by decide +kernel) (by decide +kernel)).2 (by decide +kernel) _⟩

end EspNowPushReceiver

end InfinitagNow
