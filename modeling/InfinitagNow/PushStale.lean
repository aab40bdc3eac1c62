/-
InfinitagNow/PushStale.lean

Where the bytes come from that the device passes to `Update.write`
(`EspNowPushReceiver` of `src/EspNowPush.cpp`).

`loop` stores a frame of the current window and sets its bit whatever the
frame's length, as long as it is not too long; `finishWindow` then flashes as
many bytes of each row as the image needs there.  Beside the run goes the list
of the frames heard since the BEGIN (`heard`).  `NoStale` says that every byte
passed to the library was carried by one of them, at its place, and that a frame
too short for its place stays missing; `NoShort` says that no such frame is
taken, and that no window behind the end of the image is completed.  As long as
that holds, the rows marked in the mask are carried by the frames heard
(`Backed`), and the two agree.
-/
import InfinitagNow.PushLeftover

namespace InfinitagNow

/-! ### Writes in a log -/

namespace UpdateCall

/-- What was passed to `write` in a log, oldest first: the bytes of the buffer and
how many were asked for. -/
def writes : List UpdateCall → List (List UInt8 × UInt32)
  | [] => []
  | .write data n _ :: log => writes log ++ [(data, n)]
  | _ :: log => writes log

section Calls

variable (log : List UpdateCall) (size n ret : UInt32) (data : List UInt8) (ok : Bool)

@[simp] theorem writes_begin : writes (.begin size ok :: log) = writes log := rfl
@[simp] theorem writes_write : writes (.write data n ret :: log) = writes log ++ [(data, n)] := rfl
@[simp] theorem writes_end : writes (.end_ ok :: log) = writes log := rfl
@[simp] theorem writes_abort : writes (.abort :: log) = writes log := rfl

end Calls

end UpdateCall

theorem Row.getElem?_memcpy (row : Row) (data : List UInt8) {p : ℕ} (hp : p < 242) :
    (row.memcpy data).bytes[p]? = if p < data.length then data[p]? else row.bytes[p]? := by
  rw [memcpy, List.getElem?_take_of_lt hp]
  split
  · rename_i hlt
    exact List.getElem?_append_left hlt
  · rename_i hge
    have hle : data.length ≤ p := Nat.not_lt.1 hge
    rw [List.getElem?_append_right hle, List.getElem?_drop, Nat.add_sub_cancel' hle]

/-! ### What the image needs -/

/-- How many bytes an image of `size` bytes needs at a frame. -/
def needed (size frameIdx : UInt32) : ℕ := min 242 (size.toNat - frameIdx.toNat * 242)

/-- The length the code computes is what the image needs, as long as the frame
does not begin behind the end. -/
theorem frameLen_eq_needed {size idx : UInt32} (hidx : idx.toNat < 2 ^ 20)
    (h : idx.toNat * 242 ≤ size.toNat) : (frameLen size idx).toNat = needed size idx :=
  frameLen_of_le hidx h

/-- Otherwise the subtraction wraps. -/
theorem lt_frameLen_of_gt {size idx : UInt32} (hidx : idx.toNat < 2 ^ 20)
    (h : size.toNat < idx.toNat * 242) : 242 < (frameLen size idx).toNat := by
  obtain ⟨hmul, hnext⟩ := frameOffset_toNat hidx
  have hlt := size.toNat_lt
  simp only [frameLen, gt_iff_lt, UInt32.lt_iff_toNat_lt, hnext]
  rw [if_pos (by omega), UInt32.toNat_sub, hmul]
  omega

/-- The frames of a window begin inside the image if the first does. -/
theorem frame_le {size first : UInt32} {i : ℕ} (hfirst : first.toNat < 2 ^ 20)
    (h : first.toNat * 242 ≤ size.toNat)
    (hi : i < (framesLeft (totalFramesOf size) first).toNat) :
    (first.toNat + i) * 242 ≤ size.toNat := by
  have hle := framesLeft_le (totalFramesOf size) first
  by_cases hwrap : 2 ^ 32 ≤ size.toNat + 241
  · -- near 2^32 every window is inside
    omega
  · have htotal : (totalFramesOf size).toNat = (size.toNat + 241) / 242 := by
      simp only [totalFramesOf, pushFrameData, UInt32.toNat_div, UInt32.toNat_sub,
        UInt32.toNat_add]
      simp
      omega
    have hfirst : first ≤ totalFramesOf size := by
      rw [UInt32.le_iff_toNat_le, htotal]
      omega
    rw [framesLeft_toNat hfirst, htotal] at hi
    omega

namespace EspNowPushReceiver

open UpdateCall (writes)

variable {plat : Platform} {r r' : EspNowPushReceiver} {G : List RawFrame}

/-! ### The property and the condition -/

/-- The raw frame an event brings from the sender of the session. -/
def heard (r : EspNowPushReceiver) : Event → List RawFrame
  | .raw mac data =>
    if hdr : rawHdr ≤ data.length then
      if max : data.length ≤ 250 then
        if data.take 4 = rawMagic ∧ mac = r.srcMac then [⟨data, hdr, max⟩] else []
      else []
    else []
  | _ => []

/-- The bytes at the first `n` places were all carried there by frames with a
number. -/
def Carried (G : List RawFrame) (idx : UInt32) (bytes : List UInt8) (n : ℕ) : Prop :=
  ∀ p < n, ∃ f ∈ G, f.frameIdx = idx ∧ p < f.data.length ∧ f.data[p]? = bytes[p]?

instance (G : List RawFrame) (idx : UInt32) (bytes : List UInt8) (n : ℕ) :
    Decidable (Carried G idx bytes n) := inferInstanceAs (Decidable (∀ p < n, _))

/-- The writes between two states, oldest first. -/
def passed (r r' : EspNowPushReceiver) : List (List UInt8 × UInt32) :=
  (writes (updates r'.trace)).drop (writes (updates r.trace)).length

/-- Every byte passed to the library was carried by a frame heard, for row `j` of
the window by one with its number; and a frame that is taken without as many
bytes as the image needs stays missing. -/
def Fresh (G : List RawFrame) (r r' : EspNowPushReceiver) (ev : Event) : Prop :=
  (∀ j (h : j < (passed r r').length),
    Carried G (r.first + UInt32.ofNat j) (passed r r')[j].1 (passed r r')[j].2.toNat) ∧
  (ev = .drain → ∀ f ∈ r.copied, bit r.haveMask (r.rowOf f) = false →
    f.data.length < needed r.begin.size f.frameIdx →
      r'.window = r.window ∧ bit r'.haveMask (r.rowOf f) = false)

/-- The property of a session. -/
def NoStale (plat : Platform) (G : List RawFrame) (r : EspNowPushReceiver) : List Event → Prop
  | [] => True
  | ev :: evs => r.state = .receiving →
      Fresh G r (r.step plat ev) ev ∧ NoStale plat (G ++ heard r ev) (r.step plat ev) evs

/-- The frame taken for a place not marked yet has the bytes the image needs
there, and it does not complete a window that begins behind the end. -/
def Suffices (r : EspNowPushReceiver) (f : RawFrame) : Prop :=
  (bit r.haveMask (r.rowOf f) = false → needed r.begin.size f.frameIdx ≤ f.data.length) ∧
  ((r.stored f).haveMask &&& r.windowExpectMask = r.windowExpectMask → r.remain ≠ 0 →
    r.first.toNat * 242 ≤ r.begin.size.toNat)

/-- Only such frames are taken while the session lasts. -/
def NoShort (plat : Platform) (r : EspNowPushReceiver) : List Event → Prop
  | [] => True
  | ev :: evs => r.state = .receiving →
      (ev = .drain → ∀ f ∈ r.copied, r.Suffices f) ∧ NoShort plat (r.step plat ev) evs

instance (G : List RawFrame) (r r' : EspNowPushReceiver) (ev : Event) :
    Decidable (Fresh G r r' ev) := inferInstanceAs (Decidable (_ ∧ _))

instance (r : EspNowPushReceiver) (f : RawFrame) : Decidable (r.Suffices f) :=
  inferInstanceAs (Decidable (_ ∧ _))

instance decidableNoStale (plat : Platform) : ∀ G r evs, Decidable (NoStale plat G r evs)
  | _, _, [] => isTrue trivial
  | G, r, ev :: evs =>
    have := decidableNoStale plat (G ++ heard r ev) (r.step plat ev) evs
    inferInstanceAs (Decidable (_ → _ ∧ _))

instance decidableNoShort (plat : Platform) : ∀ r evs, Decidable (NoShort plat r evs)
  | _, [] => isTrue trivial
  | r, ev :: evs =>
    have := decidableNoShort plat (r.step plat ev) evs
    inferInstanceAs (Decidable (_ → _ ∧ _))

/-! ### What a flashed window passes -/

/-- What `finishWindow` passes for row `j`. -/
def rowWrite (r : EspNowPushReceiver) (j : ℕ) : List UInt8 × UInt32 := (r.rowData j, r.rowLen j)

/-- What holds after `j` rows of a window have been written. -/
structure Written (r₀ : EspNowPushReceiver) (j : ℕ) (r : EspNowPushReceiver) : Prop where
  same : r = { r₀ with trace := r.trace, crc := r.crc, bytesDone := r.bytesDone }
  rows : writes (updates r.trace) =
    writes (updates r₀.trace) ++ (List.range j).map r₀.rowWrite

theorem Written.rowWrite_eq {r₀ : EspNowPushReceiver} {j : ℕ} (h : Written r₀ j r) (i : ℕ) :
    (r.rowData i, r.rowLen i) = r₀.rowWrite i := by
  rw [h.same]
  rfl

/-- The step lemma: a row was passed, whatever the answer. -/
theorem Written.succ {r₀ : EspNowPushReceiver} {j : ℕ} (h : Written r₀ j r) (ret : UInt32) :
    writes (.write (r.rowData j) (r.rowLen j) ret :: updates r.trace) =
      writes (updates r₀.trace) ++ (List.range (j + 1)).map r₀.rowWrite := by
  rw [UpdateCall.writes_write, h.rows, h.rowWrite_eq, List.range_succ, List.map_append,
    List.append_assoc]
  rfl

theorem Written.flashed {r₀ : EspNowPushReceiver} {j : ℕ} (h : Written r₀ j r) :
    Written r₀ (j + 1) (r.flashed j) := by
  refine ⟨?_, h.succ _⟩
  rw [EspNowPushReceiver.flashed, h.same]

/-- The rows are passed in order until a write fails; the first of them is passed
in any case. -/
theorem finishWindow_writes (plat : Platform) (r : EspNowPushReceiver) :
    ∃ k ≤ r.remain.toNat, (r.remain ≠ 0 → k ≠ 0) ∧
      writes (updates (r.finishWindow plat).trace) =
        writes (updates r.trace) ++ (List.range k).map r.rowWrite := by
  rcases finishWindow_cases plat (r := r) (P := Written r) (fun _ h _ => h.flashed)
      ⟨rfl, by simp⟩ with ⟨r₁, h, heq⟩ | ⟨j, r₁, hj, h, -, heq⟩
  · refine ⟨r.remain.toNat, le_rfl, fun hne hzero => hne (UInt32.toNat_inj.1 hzero), ?_⟩
    rw [heq]
    simpa using h.rows
  · refine ⟨j + 1, hj, fun _ => Nat.succ_ne_zero j, ?_⟩
    rw [heq, fail_trace]
    simpa using h.succ (plat.write (updates r₁.trace) (r₁.rowData j) (r₁.rowLen j))

/-- The window is over, or the session. -/
theorem finishWindow_ends (plat : Platform) (r : EspNowPushReceiver) :
    (∃ r₁, Written r r.remain.toNat r₁ ∧ r.finishWindow plat = r₁.nextWindow plat) ∨
      (r.finishWindow plat).state = .failed ∧ (r.finishWindow plat).haveMask = r.haveMask := by
  rcases finishWindow_cases plat (r := r) (P := Written r) (fun _ h _ => h.flashed)
      ⟨rfl, by simp⟩ with hnext | ⟨j, r₁, -, h, -, heq⟩
  · exact .inl hnext
  · right
    rw [heq]
    refine ⟨by simp, ?_⟩
    rw [fail_haveMask, log_haveMask, h.same]

/-- Either way a marked row is not reported as missing any more. -/
theorem finishWindow_over (plat : Platform) {i : ℕ} (hset : bit r.haveMask i = true) :
    ¬ ((r.finishWindow plat).window = r.window ∧
      bit (r.finishWindow plat).haveMask i = false) := by
  rintro ⟨hwindow, hbit⟩
  rcases finishWindow_ends plat r with ⟨r₁, h, heq⟩ | ⟨-, hmask⟩
  · have hnext : (r₁.nextWindow plat).window = r₁.window + 1 := by simp
    have hsame : r₁.window = r.window := by rw [h.same]
    rw [heq, hnext, hsame] at hwindow
    have h10 : (1 : UInt16) = 0 := add_eq_left.1 hwindow
    exact absurd h10 (by decide)
  · rw [hmask, hset] at hbit
    exact Bool.noConfusion hbit

theorem passed_eq {new : List (List UInt8 × UInt32)}
    (h : writes (updates r'.trace) = writes (updates r.trace) ++ new) : passed r r' = new := by
  rw [passed, h, List.drop_left]

theorem passed_nil (h : writes (updates r'.trace) = writes (updates r.trace)) :
    passed r r' = [] :=
  passed_eq (by rw [h, List.append_nil])

/-! ### Rows and the frames heard -/

theorem Carried.mono {G' : List RawFrame} {idx : UInt32} {bytes : List UInt8} {n : ℕ}
    (h : Carried G idx bytes n) (hsub : ∀ f ∈ G, f ∈ G') : Carried G' idx bytes n := by
  intro p hp
  obtain ⟨f, hf, hrest⟩ := h p hp
  exact ⟨f, hsub f hf, hrest⟩

/-- The rows marked are carried by the frames heard. -/
def Backed (G : List RawFrame) (r : EspNowPushReceiver) : Prop :=
  ∀ i < 16, bit r.haveMask i = true →
    Carried G (r.first + UInt32.ofNat i) (r.row i).bytes
      (needed r.begin.size (r.first + UInt32.ofNat i))

/-- A frame with what the image needs is stored, or one more for a place that has
it already. -/
theorem Backed.stored (h : r.Backed G) {f : RawFrame} (hge : ¬ f.frameIdx < r.first)
    (hlt : ¬ f.frameIdx ≥ r.first + pushWindowFrames) (hf : f ∈ G)
    (hfits : bit r.haveMask (r.rowOf f) = false →
      needed r.begin.size f.frameIdx ≤ f.data.length) : (r.stored f).Backed G := by
  intro i hi hbit p hp
  show ∃ g ∈ G, g.frameIdx = r.first + UInt32.ofNat i ∧ p < g.data.length ∧
    g.data[p]? = ((r.stored f).row i).bytes[p]?
  have hp : p < needed r.begin.size (r.first + UInt32.ofNat i) := hp
  by_cases hrow : i = r.rowOf f
  · subst hrow
    have hp242 : p < 242 := lt_of_lt_of_le hp (Nat.min_le_left _ _)
    rw [first_add_rowOf] at hp ⊢
    rw [stored_row_self, Row.getElem?_memcpy _ _ hp242]
    split
    · rename_i hcarried
      exact ⟨f, hf, rfl, hcarried, rfl⟩
    · -- the frame is short here: what the row held was carried before
      rename_i hshort
      have hset : bit r.haveMask (r.rowOf f) = true := by
        by_contra hunset
        have hle := hfits (Bool.eq_false_iff.2 hunset)
        omega
      have hold := h (r.rowOf f) hi hset
      rw [first_add_rowOf] at hold
      exact hold p hp
  · rw [stored_row_of_ne hge hlt hi hrow]
    exact h i hi (((bit_stored hge hlt i).1 hbit).resolve_right hrow) p hp

/-! ### The queue -/

/-- In front of the queue wait the frames left over, none of which has a number
of window 0, and only while that is the window; behind them those heard since. -/
def Queued (G : List RawFrame) (r : EspNowPushReceiver) : Prop :=
  ∃ old new, r.queue.toList = old ++ new ∧ (∀ f ∈ old, 16 ≤ f.frameIdx.toNat) ∧
    (∀ f ∈ new, f ∈ G) ∧ (old ≠ [] → r.window = 0)

theorem Queued.of_eq (h : r.Queued G) (hqueue : r'.queue = r.queue)
    (hwindow : r'.window = r.window) : r'.Queued G := by
  rw [Queued, hqueue, hwindow]
  exact h

/-- A frame came in. -/
theorem Queued.push (h : r.Queued G) (f : RawFrame) :
    Queued (G ++ [f]) { r with queue := r.queue.push f } := by
  obtain ⟨old, new, hsplit, hold, hnew, hwindow⟩ := h
  have hnew' : ∀ g ∈ new, g ∈ G ++ [f] := fun g hg => List.mem_append_left _ (hnew g hg)
  rcases Ring.push_cases r.queue f with ⟨hlist, -⟩ | ⟨hlist, -⟩
  · refine ⟨old, new ++ [f], ?_, hold, ?_, hwindow⟩
    · rw [hlist, hsplit, List.append_assoc]
    · intro g hg
      rcases List.mem_append.1 hg with hg | hg
      · exact hnew' g hg
      · exact List.mem_append_right _ hg
  · -- the ring was full and the frame is lost
    exact ⟨old, new, hlist.trans hsplit, hold, hnew', hwindow⟩

/-- A frame for the current window was heard since the BEGIN, and then no frame
is left over. -/
theorem Queued.take (h : r.Queued G) {f : RawFrame} {queue : Ring RawFrame 24}
    (hpop : r.queue.pop = some (f, queue)) (hlt : ¬ f.frameIdx ≥ r.first + pushWindowFrames) :
    f ∈ G ∧ ∀ g ∈ queue.toList, g ∈ G := by
  obtain ⟨old, new, hsplit, hold, hnew, hwindow⟩ := h
  obtain ⟨-, rfl⟩ := no_leftover hpop hsplit hold hwindow hlt
  exact ⟨hnew f (by simp), fun g hg => hnew g (List.mem_cons_of_mem _ hg)⟩

/-- Any frame was taken out, and the window stays. -/
theorem Queued.pop (h : r.Queued G) {f : RawFrame} {queue : Ring RawFrame 24}
    (hpop : r.queue.pop = some (f, queue)) (hqueue : r'.queue = queue)
    (hwindow : r'.window = r.window) : r'.Queued G := by
  obtain ⟨old, new, hsplit, hold, hnew, hzero⟩ := h
  rw [Ring.toList_of_pop_some hpop] at hsplit
  rw [Queued, hqueue, hwindow]
  cases old with
  | cons g old =>
    obtain ⟨-, hsplit⟩ := List.cons.inj hsplit
    exact ⟨old, new, hsplit, fun g hg => hold g (List.mem_cons_of_mem _ hg), hnew,
      fun _ => hzero (List.cons_ne_nil _ _)⟩
  | nil =>
    rw [List.nil_append] at hsplit
    rw [← hsplit] at hnew
    exact ⟨[], queue.toList, rfl, by simp, fun g hg => hnew g (List.mem_cons_of_mem _ hg),
      by simp⟩

/-! ### One event -/

/-- The invariant of a session in which only sufficient frames are taken. -/
structure Sourced (G : List RawFrame) (r : EspNowPushReceiver) : Prop where
  total : r.totalFrames = totalFramesOf r.begin.size
  queue : r.Queued G
  rows : r.Backed G

/-- Events that leave the window alone. -/
theorem Sourced.of_eq (h : r.Sourced G) (hqueue : r'.Queued G) (hbegin : r'.begin = r.begin)
    (htotal : r'.totalFrames = r.totalFrames) (hwindow : r'.window = r.window)
    (hmask : r'.haveMask = r.haveMask) (hbuf : ∀ i, r'.winBuf i = r.winBuf i) : r'.Sourced G := by
  refine ⟨by rw [htotal, hbegin, h.total], hqueue, ?_⟩
  simp only [Backed, first, row, hbegin, hwindow, hmask, hbuf]
  exact h.rows

theorem Sourced.stored (h : r.Sourced G) {f : RawFrame} (hge : ¬ f.frameIdx < r.first)
    (hlt : ¬ f.frameIdx ≥ r.first + pushWindowFrames) (hf : f ∈ G)
    (hfits : bit r.haveMask (r.rowOf f) = false →
      needed r.begin.size f.frameIdx ≤ f.data.length) : (r.stored f).Sourced G :=
  ⟨h.total, h.queue.of_eq rfl rfl, h.rows.stored hge hlt hf hfits⟩

/-- Events that pass nothing and take no frame for the window. -/
theorem fresh_of_quiet {ev : Event} (hwrites : writes (updates r'.trace) = writes (updates r.trace))
    (hcopied : ev = .drain → r.copied = none) :
    Fresh G r r' ev ↔ (ev = .drain → ∀ f ∈ r.copied, r.Suffices f) := by
  have hnone : ev = .drain → ∀ f, f ∉ r.copied := by
    intro hev f hf
    rw [hcopied hev] at hf
    exact absurd hf (by simp)
  refine ⟨fun _ hev f hf => absurd hf (hnone hev f), fun _ => ⟨?_, ?_⟩⟩
  · intro j hj
    simp [passed_nil hwrites] at hj
  · exact fun hev f hf => absurd hf (hnone hev f)

section Taken

variable {f : RawFrame} {queue : Ring RawFrame 24} (hst : r.state = .receiving)
  (hpop : r.queue.pop = some (f, queue)) (hge : ¬ f.frameIdx < r.first)
  (hlt : ¬ f.frameIdx ≥ r.first + pushWindowFrames)
include hst hpop hge hlt

theorem copied_taken : r.copied = some f := by
  rw [copied_of_pop hst hpop, if_neg (not_or.2 ⟨hge, hlt⟩)]

/-- A frame is stored and the window goes on. -/
theorem fresh_store (hwrites : writes (updates r'.trace) = writes (updates r.trace))
    (hmask : r'.haveMask = (r.stored f).haveMask)
    (hopen : ¬ (r.stored f).haveMask &&& r.windowExpectMask = r.windowExpectMask) :
    Fresh G r r' .drain ↔ r.Suffices f := by
  have hcopied := copied_taken hst hpop hge hlt
  have hset : bit r'.haveMask (r.rowOf f) = true := by
    rw [hmask]
    exact (bit_stored hge hlt _).2 (.inr rfl)
  constructor
  · rintro ⟨-, hmissing⟩
    refine ⟨fun hunset => ?_, fun hfull => absurd hfull hopen⟩
    by_contra hshort
    have hbit := (hmissing rfl f hcopied hunset (Nat.not_le.1 hshort)).2
    rw [hset] at hbit
    exact Bool.noConfusion hbit
  · rintro ⟨hfits, -⟩
    refine ⟨fun j hj => ?_, fun _ g hg hunset hshort => ?_⟩
    · simp [passed_nil hwrites] at hj
    · obtain rfl : f = g := Option.some.inj (hcopied.symm.trans hg)
      exact absurd (hfits hunset) (Nat.not_le.2 hshort)

end Taken

section Complete

variable {f : RawFrame} {r₁ : EspNowPushReceiver}

/-- The number of a row of the window. -/
theorem row_frame_toNat (r : EspNowPushReceiver) {j : ℕ} (hj : j < 16) :
    (r.first + UInt32.ofNat j).toNat = r.first.toNat + j := by
  rw [first_toNat]
  exact firstFrame_add_toNat r.window hj

theorem first_lt (r : EspNowPushReceiver) : r.first.toNat + 16 ≤ 2 ^ 20 := by
  have hwindow := r.window.toNat_lt
  rw [first_toNat]
  omega

/-- The rows of a complete window inside the image are carried. -/
theorem carried_rows (h : r.Sourced G)
    (hfull : r.haveMask &&& r.windowExpectMask = r.windowExpectMask)
    (hinside : r.remain ≠ 0 → r.first.toNat * 242 ≤ r.begin.size.toNat) {j : ℕ}
    (hj : j < r.remain.toNat) :
    Carried G (r.first + UInt32.ofNat j) (r.rowData j) (r.rowLen j).toNat := by
  have hle : r.remain.toNat ≤ 16 := framesLeft_le _ _
  have hne : r.remain ≠ 0 := by
    intro hzero
    rw [hzero] at hj
    exact absurd hj (Nat.not_lt_zero j)
  have hlt := r.first_lt
  have hidx := r.row_frame_toNat (lt_of_lt_of_le hj hle)
  have hstart : (r.first.toNat + j) * 242 ≤ r.begin.size.toNat := by
    refine frame_le (by omega) (hinside hne) ?_
    rw [← h.total]
    exact hj
  have hlen : (r.rowLen j).toNat = needed r.begin.size (r.first + UInt32.ofNat j) :=
    frameLen_eq_needed (by omega) (by rw [hidx]; exact hstart)
  have hbit : bit r.haveMask j = true := by
    refine and_eq_iff.1 hfull j ?_
    rw [windowExpectMask, bit_frameMask_left, decide_eq_true_iff]
    exact hj
  have hrow := h.rows j (lt_of_lt_of_le hj hle) hbit
  rw [← hlen] at hrow
  intro p hp
  rw [rowData, List.getElem?_take_of_lt hp]
  exact hrow p hp

/-- The first row of a window behind the end would be longer than any frame. -/
theorem not_carried_behind {bytes : List UInt8}
    (hbehind : r.begin.size.toNat < r.first.toNat * 242) :
    ¬ Carried G (r.first + UInt32.ofNat 0) bytes (r.rowLen 0).toNat := by
  intro hcarried
  have hlt := r.first_lt
  have hidx := r.row_frame_toNat (j := 0) (by omega)
  have hlong : 242 < (r.rowLen 0).toNat := by
    refine lt_frameLen_of_gt (by omega) ?_
    rw [hidx]
    omega
  obtain ⟨f, -, -, hplace, -⟩ := hcarried 242 hlong
  exact absurd f.length_data_le (Nat.not_le.2 hplace)

/-- A frame completes the window: what is flashed was carried if and only if the
frame suffices. -/
theorem fresh_complete (plat : Platform) (h : r.Sourced G) (hf : f ∈ G)
    (hcopied : r.copied = some f) (hge : ¬ f.frameIdx < r.first)
    (hlt : ¬ f.frameIdx ≥ r.first + pushWindowFrames)
    (hfull : (r.stored f).haveMask &&& r.windowExpectMask = r.windowExpectMask)
    (hupd : updates r₁.trace = updates r.trace)
    (hsame : r₁ = { r.stored f with
      trace := r₁.trace, queue := r₁.queue, reads := r₁.reads, lastRxMs := r₁.lastRxMs }) :
    Fresh G r (r₁.finishWindow plat) .drain ↔ r.Suffices f := by
  have hrows : r₁.rowWrite = (r.stored f).rowWrite := by
    rw [hsame]
    rfl
  have hremain : r₁.remain = r.remain := by
    rw [hsame]
    rfl
  obtain ⟨k, hk, hpos, hwrites⟩ := finishWindow_writes plat r₁
  rw [hupd, hrows] at hwrites
  rw [hremain] at hk hpos
  have hpassed := passed_eq hwrites
  constructor
  · rintro ⟨hcarried, hmissing⟩
    have hset : bit r₁.haveMask (r.rowOf f) = true := by
      rw [hsame]
      exact (bit_stored hge hlt _).2 (.inr rfl)
    have hwindow : r₁.window = r.window := by rw [hsame]; rfl
    have hover := finishWindow_over plat hset
    rw [hwindow] at hover
    refine ⟨fun hunset => ?_, fun _ hne => ?_⟩
    · by_contra hshort
      exact hover (hmissing rfl f hcopied hunset (Nat.not_le.1 hshort))
    · by_contra hbehind
      have hlen : 0 < (passed r (r₁.finishWindow plat)).length := by
        rw [hpassed, List.length_map, List.length_range]
        exact Nat.pos_of_ne_zero (hpos hne)
      have hrow := hcarried 0 hlen
      simp only [hpassed, List.getElem_map, List.getElem_range] at hrow
      exact not_carried_behind (Nat.not_le.1 hbehind) hrow
  · rintro ⟨hfits, hinside⟩
    have hstored := h.stored hge hlt hf hfits
    refine ⟨fun j hj => ?_, fun _ g hg hunset hshort => ?_⟩
    · have hj' : j < k := by simpa [hpassed] using hj
      simp only [hpassed, List.getElem_map, List.getElem_range]
      exact carried_rows hstored hfull (hinside hfull) (lt_of_lt_of_le hj' hk)
    · obtain rfl : f = g := Option.some.inj (hcopied.symm.trans hg)
      exact absurd (hfits hunset) (Nat.not_le.2 hshort)

end Complete

/-- The next window begins with nothing marked. -/
theorem sourced_finishWindow (plat : Platform) (htotal : r.totalFrames = totalFramesOf r.begin.size)
    (hqueue : ∀ f ∈ r.queue.toList, f ∈ G) (hst : (r.finishWindow plat).state = .receiving) :
    (r.finishWindow plat).Sourced G := by
  rcases finishWindow_ends plat r with ⟨r₁, h, heq⟩ | ⟨hfailed, -⟩
  · have hsame : (r₁.nextWindow plat).totalFrames = r.totalFrames ∧
        (r₁.nextWindow plat).begin = r.begin ∧ (r₁.nextWindow plat).haveMask = 0 := by
      rw [h.same]
      simp
    refine ⟨?_, ⟨[], r.queue.toList, ?_, by simp, hqueue, by simp⟩, ?_⟩
    · rw [heq, hsame.1, hsame.2.1, htotal]
    · rw [finishWindow_queue]
      rfl
    · intro i _ hbit
      rw [heq, hsame.2.2, bit_zero] at hbit
      exact Bool.noConfusion hbit
  · rw [hfailed] at hst
    exact absurd hst (by decide)

theorem Sourced.mono (h : r.Sourced G) (G' : List RawFrame) : r.Sourced (G ++ G') := by
  have hsub : ∀ f ∈ G, f ∈ G ++ G' := fun f hf => List.mem_append_left _ hf
  obtain ⟨old, new, hsplit, hold, hnew, hwindow⟩ := h.queue
  exact ⟨h.total, ⟨old, new, hsplit, hold, fun f hf => hsub f (hnew f hf), hwindow⟩,
    fun i hi hbit => (h.rows i hi hbit).mono hsub⟩

/-- The step lemma: an event is as the property wants it exactly when the frame it
takes suffices, and then the invariant is kept while the session lasts. -/
theorem Sourced.step (h : r.Sourced G) (plat : Platform) (hst : r.state = .receiving)
    {ev : Event} (hev : ev ≠ .loop) :
    (Fresh G r (r.step plat ev) ev ↔ (ev = .drain → ∀ f ∈ r.copied, r.Suffices f)) ∧
      ((ev = .drain → ∀ f ∈ r.copied, r.Suffices f) →
        (r.step plat ev).state = .receiving → (r.step plat ev).Sourced (G ++ heard r ev)) := by
  have hrule := step_rule plat r hev
  generalize r.step plat ev = r' at hrule
  have hquiet : G ++ heard r .drain = G := List.append_nil G
  have hall : ∀ {f}, r.copied = some f → (r.Suffices f ↔
      (Event.drain = .drain → ∀ g ∈ r.copied, r.Suffices g)) := by
    intro f hcopied
    rw [hcopied]
    simp
  cases hrule with
  | ignore | busy | duplicate | endEarly | calm | periodic =>
    exact ⟨fresh_of_quiet (by simp) (by simp), fun _ _ =>
      (h.mono _).of_eq ((h.mono _).queue.of_eq (by simp) (by simp)) (by simp) (by simp) (by simp)
        (by simp) (by simp)⟩
  | refuseEmpty _ _ hne | refuse _ _ hne | accept _ _ hne => exact absurd hst hne
  | endMismatch | endFlash | commit =>
    exact ⟨fresh_of_quiet (by simp) (by simp), fun _ hrecv => absurd hrecv (by simp)⟩
  | drop => exact ⟨fresh_of_quiet rfl (by simp), fun _ _ => h.mono _⟩
  | enqueue mac data frame _ hmac hframe hmagic =>
    subst hframe
    refine ⟨fresh_of_quiet rfl (by simp), fun _ _ => ?_⟩
    have hheard : heard r (.raw mac frame.bytes) = [frame] := by
      rw [heard, dif_pos frame.hdr_le, dif_pos frame.le_max, if_pos ⟨hmagic, hmac⟩]
    rw [hheard]
    exact (h.mono _).of_eq (h.queue.push frame) rfl rfl rfl rfl fun _ => rfl
  | quiet hq =>
    have hnil : r.queue.toList = [] := hq.resolve_left (not_not.2 hst)
    refine ⟨fresh_of_quiet rfl fun _ => ?_, fun _ _ => h.mono _⟩
    rw [copied, if_neg (not_not.2 hst), Ring.pop_of_toList_nil hnil]
  | stale f q _ hpop hlt | reack f q _ hpop hlt =>
    refine ⟨fresh_of_quiet (by simp) fun _ => ?_, fun _ _ => ?_⟩
    · rw [copied_of_pop hst hpop, if_pos (.inl hlt)]
    · exact (h.mono _).of_eq ((h.mono _).queue.pop hpop (by simp) (by simp)) (by simp) (by simp)
        (by simp) (by simp) (by simp)
  | future f q _ hpop hge =>
    refine ⟨fresh_of_quiet (by simp) fun _ => ?_, fun _ _ => ?_⟩
    · rw [copied_of_pop hst hpop, if_pos (.inr hge)]
    · exact (h.mono _).of_eq ((h.mono _).queue.pop hpop (by simp) (by simp)) (by simp) (by simp)
        (by simp) (by simp) (by simp)
  | store f q _ hpop hge hlt hopen =>
    have hcopied := copied_taken hst hpop hge hlt
    rw [← hall hcopied]
    refine ⟨fresh_store hst hpop hge hlt rfl rfl hopen, fun hfits _ => ?_⟩
    rw [hquiet]
    exact (h.stored hge hlt (h.queue.take hpop hlt).1 hfits.1).of_eq
      (h.queue.pop hpop rfl rfl) rfl rfl rfl rfl fun _ => rfl
  | complete f q _ hpop hge hlt hfull =>
    have hcopied := copied_taken hst hpop hge hlt
    obtain ⟨hf, hqueue⟩ := h.queue.take hpop hlt
    rw [← hall hcopied]
    refine ⟨fresh_complete plat h hf hcopied hge hlt hfull rfl rfl, fun _ hrecv => ?_⟩
    rw [hquiet]
    exact sourced_finishWindow plat h.total hqueue hrecv

/-! ### Sessions -/

/-- When the session is over nothing is asked any more. -/
theorem noStale_iff_of_ended (plat : Platform) (evs : List Event) (hst : r.state ≠ .receiving) :
    NoStale plat G r evs ↔ NoShort plat r evs := by
  cases evs with
  | nil => exact Iff.rfl
  | cons => exact iff_of_true (fun h => absurd h hst) fun h => absurd h hst

/-- The run lemma. -/
theorem Sourced.noStale_iff (h : r.Sourced G) (plat : Platform) {evs : List Event}
    (hevs : .loop ∉ evs) : NoStale plat G r evs ↔ NoShort plat r evs := by
  induction evs generalizing r G with
  | nil => exact Iff.rfl
  | cons ev evs ih =>
    refine imp_congr_right fun hst => ?_
    have hev : ev ≠ .loop := fun heq => hevs (by simp [heq])
    have htail : .loop ∉ evs := fun hmem => hevs (List.mem_cons_of_mem _ hmem)
    obtain ⟨hfresh, hnext⟩ := h.step plat hst hev
    rw [hfresh]
    refine and_congr_right fun hfits => ?_
    by_cases hst' : (r.step plat ev).state = .receiving
    · exact ih (hnext hfits hst') htail
    · exact noStale_iff_of_ended plat evs hst'

/-- **No stale byte is flashed**, after an accepted BEGIN that finds no frame of
window 0 left over, exactly as long as no frame is taken that is too short for a
place not marked yet, or that completes a window behind the end of the image. -/
theorem no_stale_iff (plat : Platform) (r : EspNowPushReceiver) (rx : RxPacket)
    (hst : r.state ≠ .receiving) (hopen : (r.onControl plat rx).state = .receiving)
    (hleft : ∀ f ∈ r.queue.toList, 16 ≤ f.frameIdx.toNat) (evs : List Event) :
    NoStale plat [] (r.onControl plat rx) (atoms plat (r.onControl plat rx) evs) ↔
      NoShort plat (r.onControl plat rx) (atoms plat (r.onControl plat rx) evs) := by
  obtain ⟨-, heq⟩ := onControl_opens hst hopen
  refine Sourced.noStale_iff ⟨?_, ?_, ?_⟩ plat (loop_notMem_atoms _ _)
  · rw [heq]
    simp
  · -- at the BEGIN everything in the queue is left over
    rw [heq]
    exact ⟨r.queue.toList, [], by simp, hleft, by simp, fun _ => by simp⟩
  · intro i _ hbit
    rw [heq] at hbit
    simp at hbit

/-- The push of one byte. -/
theorem no_stale_iff_tiny :
    NoStale flawlessPlat [] (({} : EspNowPushReceiver).onControl flawlessPlat
        ⟨{}, beginPacket { size := 1 }⟩)
      (atoms flawlessPlat (({} : EspNowPushReceiver).onControl flawlessPlat
        ⟨{}, beginPacket { size := 1 }⟩) [.raw {} (rawBytes 0 [7]), .loop]) :=
  (no_stale_iff flawlessPlat {} ⟨{}, beginPacket { size := 1 }⟩ (by decide) (by decide +kernel)
    (by decide +kernel) [.raw {} (rawBytes 0 [7]), .loop]).2 (by decide +kernel)

/-- Its frame is cut to the bare header: a byte nobody sent is flashed. -/
theorem short_frame_flashes_stale :
    ¬ NoStale flawlessPlat [] (({} : EspNowPushReceiver).onControl flawlessPlat
        ⟨{}, beginPacket { size := 1 }⟩)
      (atoms flawlessPlat (({} : EspNowPushReceiver).onControl flawlessPlat
        ⟨{}, beginPacket { size := 1 }⟩) [.raw {} (rawBytes 0 []), .loop]) := by
  decide +kernel

end EspNowPushReceiver

end InfinitagNow
