/-
InfinitagNow/PushTiling.lean

Both ends cut the image into the same frames.

`windowFrames` are the frames of a window a mask asks for, as numbers; under the
full masks they go through all frames of the image in order, and the bytes of
the frames tile the image.  `Acking` follows the byte count of the sender
through a session: it counts whole windows until the last one is acknowledged,
and then it is the size of the image.
-/
import InfinitagNow.PushMoves

namespace InfinitagNow

/-- The frames of window `w` that `mask` asks for, of `total` frames. -/
def windowFrames (total w : ℕ) (mask : UInt32) : List ℕ :=
  ((List.range 16).filter fun i => bit mask i && decide (16 * w + i < total)).map (16 * w + ·)

theorem mem_windowFrames {total w idx : ℕ} {mask : UInt32} :
    idx ∈ windowFrames total w mask ↔
      16 * w ≤ idx ∧ idx < 16 * w + 16 ∧ idx < total ∧ bit mask (idx - 16 * w) = true := by
  simp only [windowFrames, List.mem_map, List.mem_filter, List.mem_range, Bool.and_eq_true,
    decide_eq_true_iff]
  constructor
  · rintro ⟨i, ⟨hi, hbit, hlt⟩, rfl⟩
    exact ⟨by omega, by omega, hlt, by rwa [Nat.add_sub_cancel_left]⟩
  · rintro ⟨hle, hlt, htotal, hbit⟩
    exact ⟨idx - 16 * w, ⟨by omega, hbit, by omega⟩, by omega⟩

/-- The full masks ask for every frame of the image once, in order. -/
theorem windowFrames_full {total : UInt32} {n : ℕ} (hn : ∀ w, w < n ↔ 16 * w < total.toNat)
    (hn16 : n < 2 ^ 16) :
    ((List.range n).flatMap fun w =>
      windowFrames total.toNat w (frameMask total (firstFrame (UInt16.ofNat w)))) =
        List.range total.toNat := by
  have hle : total.toNat ≤ 16 * n := by
    by_contra hgt
    exact absurd ((hn n).2 (by omega)) (lt_irrefl n)
  -- sixteen numbers a window, cut off behind the last frame
  rw [← flatMap_groups hle]
  refine List.flatMap_congr fun w hw => ?_
  have hlt : w < n := List.mem_range.1 hw
  have hw16 : (UInt16.ofNat w).toNat = w := UInt16.toNat_ofNat_of_lt' (hlt.trans hn16)
  have hfirst := firstFrame_toNat (UInt16.ofNat w)
  rw [hw16] at hfirst
  have hstart : firstFrame (UInt16.ofNat w) ≤ total := by
    rw [UInt32.le_iff_toNat_le, hfirst]
    have := (hn w).1 hlt
    omega
  rw [windowFrames]
  congr 1
  refine List.filter_congr fun i hi => ?_
  have hi16 : i < 16 := List.mem_range.1 hi
  rw [bit_frameMask hstart, hfirst]
  by_cases htotal : 16 * w + i < total.toNat
  · rw [decide_eq_true htotal, Bool.and_true, decide_eq_true_iff]
    omega
  · rw [decide_eq_false htotal, Bool.and_false]

namespace EspNowPushSender

variable {clock : ℕ → UInt32} {s s' : EspNowPushSender} {image : List UInt8}

theorem asked_eq_windowFrames (s : EspNowPushSender) (mask : UInt32) :
    s.asked mask 0 16 =
      (windowFrames s.totalFrames.toNat s.window.toNat mask).map UInt32.ofNat := by
  have hidx : ∀ i < 16, (s.first + UInt32.ofNat i).toNat = 16 * s.window.toNat + i := by
    intro i hi
    rw [s.first_add_toNat hi, Nat.mul_comm]
  rw [asked, windowFrames, List.map_map, ← List.range_eq_range']
  have hfilter : ((List.range 16).filter fun j =>
      bit mask j && decide ((s.first + UInt32.ofNat j).toNat < s.totalFrames.toNat)) =
      (List.range 16).filter fun i =>
        bit mask i && decide (16 * s.window.toNat + i < s.totalFrames.toNat) := by
    refine List.filter_congr fun i hi => ?_
    rw [hidx i (List.mem_range.1 hi)]
  rw [hfilter]
  refine List.map_congr_left fun i hi => ?_
  have hi16 : i < 16 := List.mem_range.1 (List.mem_filter.1 hi).1
  show s.first + UInt32.ofNat i = UInt32.ofNat (16 * s.window.toNat + i)
  rw [← hidx i hi16, UInt32.ofNat_toNat]

/-! ### What a window sends -/

/-- Frame `idx` as the sender hands it to the radio: header, number, and the
bytes read at its offset, as many as computed. -/
def frameSent (s : EspNowPushSender) (image : List UInt8) (idx : ℕ) : Out :=
  .raw s.mac (rawBytes (UInt32.ofNat idx)
    ((image.drop (UInt32.ofNat idx * pushFrameData).toNat).take
      (frameLen s.size (UInt32.ofNat idx)).toNat))

theorem Pushes.sendWindow_frames (h : s.Pushes image) (mask : UInt32) :
    (s.sendWindow mask).out =
      s.out ++ (windowFrames s.totalFrames.toNat s.window.toNat mask).map (s.frameSent image) := by
  rw [sendWindow_image h, sent_out, asked_eq_windowFrames, List.map_map]
  congr 1
  refine List.map_congr_left fun idx hidx => ?_
  have hlt : idx < s.totalFrames.toNat := (mem_windowFrames.1 hidx).2.2.1
  have hnat : (UInt32.ofNat idx).toNat = idx :=
    UInt32.toNat_ofNat_of_lt' (hlt.trans s.totalFrames.toNat_lt)
  have hidx32 : UInt32.ofNat idx < s.totalFrames := by
    rw [UInt32.lt_iff_toNat_lt, hnat]
    exact hlt
  have hread := (h.readAt hidx32).1
  rw [EspNowPushSender.readAt, h.read] at hread
  show Out.raw s.mac (rawBytes _ (chunk 242 image (UInt32.ofNat idx).toNat)) = s.frameSent image idx
  rw [← hread]
  rfl

/-- The frames of an image lie one behind the other. -/
theorem Pushes.tiles (h : s.Pushes image) :
    Tiles image.length s.totalFrames.toNat
      (fun i => (UInt32.ofNat i * pushFrameData).toNat)
      (fun i => (frameLen s.size (UInt32.ofNat i)).toNat) ∧
    ∀ i < s.totalFrames.toNat, (UInt32.ofNat i * pushFrameData).toNat = 242 * i ∧
      1 ≤ (frameLen s.size (UInt32.ofNat i)).toNat ∧
      (frameLen s.size (UInt32.ofNat i)).toNat ≤ 242 := by
  have hle := h.le
  have hcount : ∀ i, i < s.totalFrames.toNat ↔ 242 * i < image.length := by
    intro i
    rw [h.total, frameCount]
    omega
  -- no product wraps: the image has at most 2^24 bytes
  have hsmall : ∀ i < s.totalFrames.toNat, (UInt32.ofNat i).toNat = i ∧ i < 2 ^ 20 := by
    intro i hi
    have := (hcount i).1 hi
    have hlt : i < 2 ^ 20 := by omega
    exact ⟨UInt32.toNat_ofNat_of_lt' (hlt.trans (by decide)), hlt⟩
  have hoff : ∀ i < s.totalFrames.toNat, (UInt32.ofNat i * pushFrameData).toNat = 242 * i := by
    intro i hi
    obtain ⟨hnat, hlt⟩ := hsmall i hi
    rw [(frameOffset_toNat (by omega)).1, hnat, Nat.mul_comm]
  have hlen : ∀ i < s.totalFrames.toNat,
      (frameLen s.size (UInt32.ofNat i)).toNat = Min.min 242 (image.length - 242 * i) := by
    intro i hi
    obtain ⟨hnat, hlt⟩ := hsmall i hi
    have := (hcount i).1 hi
    have hsize := h.size
    rw [frameLen_of_le (by omega) (by omega), hnat, hsize, Nat.mul_comm]
  refine ⟨(tiles_chunks (by decide) hcount).congr hoff hlen, fun i hi => ⟨hoff i hi, ?_, ?_⟩⟩
  · have := (hcount i).1 hi
    rw [hlen i hi]
    omega
  · rw [hlen i hi]
    exact Nat.min_le_left _ _

/-! ### The byte count -/

/-- A session of the image, and how far it is acknowledged. -/
structure Acking (mac : Mac) (image : List UInt8) (s : EspNowPushSender) : Prop where
  mac : s.mac = mac
  pushes : s.Pushes image
  windows : s.windows.toNat = windowCount image.length
  before : s.state ≠ .done → s.endSent = false →
    s.window.toNat < windowCount image.length ∧ s.ackedBytes.toNat = 3872 * s.window.toNat
  after : s.state = .done ∨ s.endSent = true → s.ackedBytes.toNat = image.length

variable {mac : Mac}

/-- Only what is sent, the clock or the retries change. -/
theorem Acking.of_eq (h : s.Acking mac image) (hstate : s'.state = .done ↔ s.state = .done)
    (hmac : s'.mac = s.mac := by simp) (hread : s'.read = s.read := by simp)
    (hsize : s'.size = s.size := by simp) (htotal : s'.totalFrames = s.totalFrames := by simp)
    (hwindows : s'.windows = s.windows := by simp) (hwindow : s'.window = s.window := by simp)
    (hend : s'.endSent = s.endSent := by simp) (hacked : s'.ackedBytes = s.ackedBytes := by simp) :
    s'.Acking mac image where
  mac := by rw [hmac, h.mac]
  pushes := h.pushes.of_eq hread hsize htotal
  windows := by rw [hwindows, h.windows]
  before := by
    rw [ne_eq, hstate, hend, hwindow, hacked]
    exact h.before
  after := by
    rw [hstate, hend, hacked]
    exact h.after

theorem Acking.sendWindow (h : s.Acking mac image) (mask : UInt32) :
    (s.sendWindow mask).Acking mac image := by
  rw [sendWindow_image h.pushes]
  exact h.of_eq Iff.rfl

theorem Acking.wait (h : s.Acking mac image) (ms : UInt32) : (s.wait clock ms).Acking mac image :=
  h.of_eq Iff.rfl

/-- One more window is acknowledged. -/
theorem Acking.ackedBytes_nextWindow (h : s.Acking mac image) (hst : s.state ≠ .done) :
    s.nextWindow.ackedBytes.toNat =
      if s.endSent then image.length else Min.min image.length (3872 * (s.window.toNat + 1)) := by
  have hle := h.pushes.le
  have hsize := h.pushes.size
  have htotal := h.pushes.total
  have hleft := framesLeft_le s.totalFrames s.first
  have hmul : (framesLeft s.totalFrames s.first * pushFrameData).toNat =
      (framesLeft s.totalFrames s.first).toNat * 242 := by
    rw [UInt32.toNat_mul, show pushFrameData.toNat = 242 from rfl, Nat.mod_eq_of_lt (by omega)]
  have hbound : s.ackedBytes.toNat ≤ image.length := by
    cases hend : s.endSent with
    | true => exact (h.after (.inr hend)).le
    | false =>
      obtain ⟨hlt, hacked⟩ := h.before hst hend
      unfold windowCount frameCount at hlt
      omega
  have hsum : (s.ackedBytes + framesLeft s.totalFrames s.first * pushFrameData).toNat =
      s.ackedBytes.toNat + (framesLeft s.totalFrames s.first).toNat * 242 := by
    rw [UInt32.toNat_add, hmul, Nat.mod_eq_of_lt (by omega)]
  have hclamp : s.nextWindow.ackedBytes.toNat = Min.min image.length
      (s.ackedBytes.toNat + (framesLeft s.totalFrames s.first).toNat * 242) := by
    simp only [nextWindow_ackedBytes, gt_iff_lt, UInt32.lt_iff_toNat_lt, hsum]
    split
    · rw [hsize]
      omega
    · rw [hsum]
      omega
  rw [hclamp]
  cases hend : s.endSent with
  | true =>
    -- everything is counted already, and the sum is cut off at the size
    rw [h.after (.inr hend), if_pos rfl]
    omega
  | false =>
    obtain ⟨hlt, hacked⟩ := h.before hst hend
    have hfirst : s.first.toNat = s.window.toNat * 16 := firstFrame_toNat s.window
    have hframes : (framesLeft s.totalFrames s.first).toNat =
        Min.min 16 (frameCount image.length - s.window.toNat * 16) := by
      rw [framesLeft_toNat, htotal, hfirst]
      rw [UInt32.le_iff_toNat_le, htotal, hfirst]
      unfold windowCount at hlt
      omega
    rw [hacked, hframes, if_neg Bool.false_ne_true]
    unfold windowCount frameCount at *
    omega

/-- The next window of the image. -/
theorem Acking.nextWindow (h : s.Acking mac image) (hst : s.state = .pushing)
    (hlt : s.window + 1 < s.windows) : s.nextWindow.Acking mac image where
  mac := h.mac
  pushes := h.pushes.of_eq rfl rfl rfl
  windows := h.windows
  before hdone hend := by
    have hend' : s.endSent = false := hend
    have hacked := h.ackedBytes_nextWindow (by simp [hst])
    obtain ⟨hwin, -⟩ := h.before (by simp [hst]) hend'
    have hsucc : (s.window + 1).toNat = s.window.toNat + 1 := window_succ_toNat h.pushes.le hwin
    have hnext : s.window.toNat + 1 < windowCount image.length := by
      rw [← hsucc, ← h.windows]
      exact UInt16.lt_iff_toNat_lt.1 hlt
    rw [hend', if_neg Bool.false_ne_true] at hacked
    show (s.window + 1).toNat < _ ∧ s.nextWindow.ackedBytes.toNat = 3872 * (s.window + 1).toNat
    rw [hsucc, hacked]
    refine ⟨hnext, ?_⟩
    unfold windowCount frameCount at hnext
    omega
  after hor := by
    have hend : s.endSent = true := hor.resolve_left (by simp [hst])
    have hacked := h.ackedBytes_nextWindow (by simp [hst])
    rwa [hend, if_pos rfl] at hacked

/-- Behind the last window comes END. -/
theorem Acking.lastWindow (h : s.Acking mac image) (hst : s.state = .pushing)
    (hge : s.window + 1 ≥ s.windows) : s.nextWindow.sendEnd.Acking mac image where
  mac := h.mac
  pushes := h.pushes.of_eq rfl rfl rfl
  windows := h.windows
  before _ hend := absurd hend (by simp)
  after _ := by
    have hacked := h.ackedBytes_nextWindow (by simp [hst])
    show s.nextWindow.ackedBytes.toNat = image.length
    rw [hacked]
    cases hend : s.endSent with
    | true => rfl
    | false =>
      obtain ⟨hwin, -⟩ := h.before (by simp [hst]) hend
      have hsucc : (s.window + 1).toNat = s.window.toNat + 1 :=
        window_succ_toNat h.pushes.le hwin
      have hlast : windowCount image.length ≤ s.window.toNat + 1 := by
        rw [← hsucc, ← h.windows]
        exact UInt16.le_iff_toNat_le.1 hge
      rw [if_neg Bool.false_ne_true]
      unfold windowCount frameCount at hlast
      omega

theorem Acking.sendEnd (h : s.Acking mac image) (hend : s.endSent = true) :
    s.sendEnd.Acking mac image := by
  have hsame : s.sendEnd.endSent = s.endSent := by simp [hend]
  exact h.of_eq Iff.rfl rfl rfl rfl rfl rfl rfl hsame rfl

theorem Acking.rule {ev : Event} (hrule : Rule clock s ev s') (hev : ∀ a, ev ≠ .start a)
    (h : s.Acking mac image) : s'.Acking mac image := by
  have hheard : s.heard.Acking mac image := h.of_eq Iff.rfl
  have hretried : s.retried.Acking mac image := h.of_eq Iff.rfl
  cases hrule with
  | refuse a | start a => exact absurd rfl (hev a)
  | ignore | idle => exact h
  | finish =>
    exact ⟨h.mac, h.pushes.of_eq rfl rfl rfl, h.windows, fun hne => absurd rfl hne,
      fun _ => h.pushes.size⟩
  | reject _ hst | giveUp hst => exact h.of_eq (by simp [hst])
  | stale => exact hheard
  | advance _ hst _ _ _ _ _ hlt => exact ((hheard.nextWindow hst hlt).sendWindow _).wait 500
  | last _ hst _ _ _ _ _ hge => exact (hheard.lastWindow hst hge).wait 2000
  | resend => exact (hheard.sendWindow _).wait 500
  | early => exact h.of_eq Iff.rfl
  | endAgain _ _ _ hend => exact (hretried.sendEnd hend).wait 2000
  | hello =>
    have hbegin : s.retried.sendBegin.Acking mac image := hretried.of_eq Iff.rfl
    exact (hbegin.sendWindow _).wait 500
  | again => exact (hretried.sendWindow _).wait 500

theorem Acking.run (h : s.Acking mac image) (clock : ℕ → UInt32) (evs : List Event)
    (hevs : ∀ a, .start a ∉ evs) : (s.run clock evs).Acking mac image :=
  session_invariant Acking.rule h hevs

/-- A push of an image begins with nothing acknowledged. -/
theorem acking_start (clock : ℕ → UInt32) (s : EspNowPushSender) (image : Image)
    (hne : image.bytes ≠ []) (hle : image.bytes.length ≤ 2 ^ 24) (mac : Mac)
    (major minor patch : UInt8) :
    (s.start clock (image.args mac major minor patch)).2.Acking mac image.bytes := by
  have hsession := s.openSession_session image mac major minor patch
  have hsize := hsession.announces.1
  have hpos := List.length_pos_of_ne_nil hne
  have hopen : (s.openSession (image.args mac major minor patch)).Acking mac image.bytes := by
    refine ⟨rfl, hsession.pushes hle, ?_, fun _ _ => ⟨?_, rfl⟩, fun hor => ?_⟩
    · rw [← hsize]
      exact s.windows_openSession _ (by rw [← hsize] at hle; exact hle)
    · show 0 < windowCount image.bytes.length
      unfold windowCount frameCount
      omega
    · rcases hor with hdone | hend
      · simp at hdone
      · simp at hend
  have hbegin : (s.openSession (image.args mac major minor patch)).sendBegin.Acking mac
      image.bytes := hopen.of_eq Iff.rfl
  rw [start_of_ne_nil clock s hne]
  exact (hbegin.sendWindow _).wait 500

end EspNowPushSender

/-! ### The device cuts alike -/

namespace EspNowPushReceiver

variable {plat : Platform} {r r' : EspNowPushReceiver}

/-- While a session runs, the frame count belongs to the size announced. -/
def CountKept (r : EspNowPushReceiver) : Prop :=
  r.state = .receiving → r.totalFrames = totalFramesOf r.begin.size

theorem CountKept.rule {ev : Event} (hrule : Rule plat r ev r') (h : r.CountKept) :
    r'.CountKept := by
  cases hrule with
  | ignore | busy | duplicate | endEarly | drop | enqueue | quiet | stale | reack | future | store
  | calm | periodic => simpa [CountKept] using h
  | refuseEmpty | refuse | endMismatch | endFlash | commit => simp [CountKept]
  | accept => simp [CountKept]
  | complete f q hst =>
    rcases finishWindow_cases plat
        (r := ((({ r with queue := q }.touched plat).stored f).logRemain))
        (P := fun _ r₁ => r₁.totalFrames = r.totalFrames ∧ r₁.begin = r.begin)
        (fun _ h _ => by simpa using h) (by simp) with ⟨r₁, hP, heq⟩ | ⟨j, r₁, -, -, -, heq⟩
    · rw [heq]
      intro _
      simpa [hP.1, hP.2] using h hst
    · rw [heq]
      simp [CountKept]

theorem countKept_run (plat : Platform) (evs : List Event) :
    (({} : EspNowPushReceiver).run plat evs).CountKept :=
  run_invariant CountKept.rule (by simp [CountKept]) evs

end EspNowPushReceiver

/-! ### Both ends -/

/-- **Both ends cut the image alike**: in every state of a session of an image
of 1 byte to 16 MiB, a window sends the frames its mask asks for, under the full
masks every frame once and in order, the frames tile the image, a device that
was announced this size expects the same frames with the same lengths, and the
byte count is the size once all windows are acknowledged. -/
theorem cut_alike (image : Image) (hne : image.bytes ≠ []) (hle : image.bytes.length ≤ 2 ^ 24)
    (clock : ℕ → UInt32) (s₀ : EspNowPushSender) (mac : Mac) (major minor patch : UInt8)
    (evs : List EspNowPushSender.Event) (hevs : ∀ a, .start a ∉ evs) :
    let s := (s₀.start clock (image.args mac major minor patch)).2.run clock evs
    ((List.range s.windows.toNat).flatMap fun w =>
      windowFrames s.totalFrames.toNat w (s.windowMask (UInt16.ofNat w))) =
        List.range s.totalFrames.toNat ∧
    (∀ window mask, ({ s with window := window }.sendWindow mask).out = s.out ++
      (windowFrames s.totalFrames.toNat window.toNat mask).map (s.frameSent image.bytes)) ∧
    (Tiles image.bytes.length s.totalFrames.toNat
        (fun i => (UInt32.ofNat i * pushFrameData).toNat)
        (fun i => (frameLen s.size (UInt32.ofNat i)).toNat) ∧
      ∀ i < s.totalFrames.toNat, (UInt32.ofNat i * pushFrameData).toNat = 242 * i ∧
        1 ≤ (frameLen s.size (UInt32.ofNat i)).toNat ∧
        (frameLen s.size (UInt32.ofNat i)).toNat ≤ 242) ∧
    (∀ (plat : Platform) (revs : List EspNowPushReceiver.Event),
      let r := ({} : EspNowPushReceiver).run plat revs
      r.state = .receiving → r.begin.size.toNat = image.bytes.length →
        r.totalFrames = s.totalFrames ∧ ∀ window : UInt16,
          { r with window := window }.windowExpectMask = s.windowMask window ∧
          ∀ i < 16, { r with window := window }.rowLen i =
            frameLen s.size (UInt32.ofNat (16 * window.toNat + i))) ∧
    (s.state ≠ .done → s.endSent = false →
      s.window < s.windows ∧ s.ackedBytes.toNat = 3872 * s.window.toNat) ∧
    (s.windows ≤ s.window ∨ s.endSent = true ∨ s.state = .done →
      s.ackedBytes.toNat = image.bytes.length) := by
  intro s
  have h : s.Acking mac image.bytes :=
    (EspNowPushSender.acking_start clock s₀ image hne hle mac major minor patch).run clock evs hevs
  have hbefore : s.state ≠ .done → s.endSent = false →
      s.window < s.windows ∧ s.ackedBytes.toNat = 3872 * s.window.toNat := by
    intro hdone hend
    obtain ⟨hlt, hacked⟩ := h.before hdone hend
    rw [UInt16.lt_iff_toNat_lt, h.windows]
    exact ⟨hlt, hacked⟩
  refine ⟨windowFrames_full (fun w => ?_) s.windows.toNat_lt, fun window mask => ?_, h.pushes.tiles,
    fun plat revs => ?_, hbefore, fun hall => h.after ?_⟩
  · rw [h.windows, h.pushes.total, windowCount]
    omega
  · have hp : ({ s with window := window } : EspNowPushSender).Pushes image.bytes :=
      h.pushes.of_eq rfl rfl rfl
    exact hp.sendWindow_frames mask
  · intro r hst hsize
    have hbegin : r.begin.size = s.size := UInt32.toNat_inj.1 (hsize.trans h.pushes.size.symm)
    have htotal : r.totalFrames = s.totalFrames := by
      apply UInt32.toNat_inj.1
      rw [EspNowPushReceiver.countKept_run plat revs hst,
        totalFramesOf_toNat (hsize.trans_le hle), hsize, h.pushes.total]
    refine ⟨htotal, fun window => ⟨?_, fun i hi => ?_⟩⟩
    · show frameMask r.totalFrames (firstFrame window) = frameMask s.totalFrames (firstFrame window)
      rw [htotal]
    · have hidx : firstFrame window + UInt32.ofNat i = UInt32.ofNat (16 * window.toNat + i) := by
        rw [Nat.mul_comm, ← firstFrame_add_toNat window hi, UInt32.ofNat_toNat]
      show frameLen r.begin.size (firstFrame window + UInt32.ofNat i) = _
      rw [hbegin, hidx]
  · rcases hall with hwin | hend | hdone
    · by_contra hnot
      obtain ⟨hdone, hend⟩ := not_or.1 hnot
      exact absurd (hbefore hdone (by simpa using hend)).1 (UInt16.not_lt.2 hwin)
    · exact .inr hend
    · exact .inl hdone

/-- A full frame and one byte. -/
def twoFrames : Image := ⟨.replicate 243 7, by rw [List.length_replicate]; decide⟩

/-- The state of the sender after its only window was acknowledged. -/
def twoFramesAcked : EspNowPushSender :=
  (({} : EspNowPushSender).start UInt32.ofNat (twoFrames.args {} 1 0 0)).2.run UInt32.ofNat
    [.control ⟨{}, ackPacket ⟨0, 0, pushAckWindow, 0⟩⟩]

theorem cut_alike_twoFrames :
    (∀ window mask, ({ twoFramesAcked with window := window }.sendWindow mask).out =
      twoFramesAcked.out ++ (windowFrames twoFramesAcked.totalFrames.toNat window.toNat mask).map
        (twoFramesAcked.frameSent twoFrames.bytes)) ∧
    twoFramesAcked.ackedBytes.toNat = 243 ∧
    (EspNowPushReceiver.run EspNowPushReceiver.flawlessPlat {}
      [.control ⟨{}, beginPacket { size := 243 }⟩]).totalFrames = twoFramesAcked.totalFrames := by
  have hlen : twoFrames.bytes.length = 243 := List.length_replicate
  have h := cut_alike twoFrames (by decide) (by omega) UInt32.ofNat {} {} 1 0 0
    [.control ⟨{}, ackPacket ⟨0, 0, pushAckWindow, 0⟩⟩] (by simp)
  exact ⟨h.2.1, (h.2.2.2.2.2 (.inr (.inl (by decide +kernel)))).trans hlen,
    (h.2.2.2.1 EspNowPushReceiver.flawlessPlat [.control ⟨{}, beginPacket { size := 243 }⟩]
      (by decide +kernel) (by decide +kernel)).1⟩

end InfinitagNow
