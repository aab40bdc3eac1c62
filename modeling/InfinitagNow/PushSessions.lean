/-
InfinitagNow/PushSessions.lean

Several pushes, one after the other, to one device.

A session is known to the device by the address of the box alone.  A BEGIN of
the box is taken for a duplicate while a session runs, whatever image it
announces, so what is left of an earlier push can be mistaken for the new one
(`installs_old_image`).  When every push starts with nothing left over, or goes
on with the image of the one before (`CleanRun`), the box is done only when its
image is the one the device committed last (`done_means_committed`).
-/
import InfinitagNow.PushNet

namespace InfinitagNow

open UpdateCall

namespace Net

variable {w : Radio} {n : Net}

/-! ### Runs with several pushes -/

/-- The image of the last push, after an action. -/
def pushed (prev : Option (List UInt8)) : Act → Option (List UInt8)
  | .start image _ _ _ => if image.bytes = [] then prev else some image.bytes
  | _ => prev

/-- The image of the last push that a run started. -/
def lastPushed (acts : List Act) : Option (List UInt8) := acts.foldl pushed none

theorem pushed_of_running {prev : Option (List UInt8)} {act : Act} (h : act.Running) :
    pushed prev act = prev := by
  cases act with
  | start => exact absurd h id
  | _ => rfl

/-- A push is started when nothing is left over, or again with the same image.
An empty image is refused. -/
def Clean (prev : Option (List UInt8)) (n : Net) : Act → Prop
  | .start image _ _ _ => image.bytes = [] ∨ prev = some image.bytes ∨ n.Settled
  | _ => True

/-- Every start of a run is clean. -/
def CleanRun (w : Radio) (prev : Option (List UInt8)) (n : Net) : List Act → Prop
  | [] => True
  | act :: acts => n.Clean prev act ∧ CleanRun w (pushed prev act) (n.step w act) acts

instance (prev : Option (List UInt8)) (n : Net) : (act : Act) → Decidable (n.Clean prev act)
  | .start image _ _ _ =>
    inferInstanceAs (Decidable (image.bytes = [] ∨ prev = some image.bytes ∨ n.Settled))
  | .timer | .drain | .tail | .control _ | .frame _ | .ack _ | .lose _ _ | .dup _ _ =>
    .isTrue trivial

instance decidableCleanRun (w : Radio) :
    (prev : Option (List UInt8)) → (n : Net) → (acts : List Act) →
      Decidable (n.CleanRun w prev acts)
  | _, _, [] => .isTrue trivial
  | prev, n, act :: acts =>
    have := decidableCleanRun w (pushed prev act) (n.step w act) acts
    inferInstanceAs
      (Decidable (n.Clean prev act ∧ (n.step w act).CleanRun w (pushed prev act) acts))

/-! ### Before the first push -/

/-- Nothing was ever pushed. -/
structure Blank (n : Net) : Prop where
  box : n.box.state = .idle
  dev : n.dev.state = .idle
  queue : n.dev.queue.toList = []
  ctrl : n.ctrl = []
  raw : n.raw = []
  acks : n.acks = []

/-- Nothing happens by itself. -/
theorem Blank.step (h : n.Blank) {act : Act} (hrunning : act.Running) : (n.step w act).Blank := by
  cases act with
  | start => exact absurd hrunning id
  | timer =>
    have hself : n.step w .timer = n := boxAct_self (if_pos (by simp [h.box]))
    rw [hself]
    exact h
  | drain =>
    have hself : n.step w .drain = n := devAct_self (if_pos (by simp [h.dev]))
    rw [hself]
    exact h
  | tail =>
    have hself : n.step w .tail = n := devAct_self (if_pos (by simp [h.dev]))
    rw [hself]
    exact h
  | control i =>
    have hnone : n.step w (.control i) = n := by simp [Net.step, h.ctrl]
    rw [hnone]
    exact h
  | frame i =>
    have hnone : n.step w (.frame i) = n := by simp [Net.step, h.raw]
    rw [hnone]
    exact h
  | ack i =>
    have hnone : n.step w (.ack i) = n := by simp [Net.step, h.acks]
    rw [hnone]
    exact h
  | lose c i =>
    cases c with
    | ctrl => exact ⟨h.box, h.dev, h.queue, by simp [Net.step, lose, h.ctrl], h.raw, h.acks⟩
    | raw => exact ⟨h.box, h.dev, h.queue, h.ctrl, by simp [Net.step, lose, h.raw], h.acks⟩
    | acks => exact ⟨h.box, h.dev, h.queue, h.ctrl, h.raw, by simp [Net.step, lose, h.acks]⟩
  | dup c i =>
    cases c with
    | ctrl => exact ⟨h.box, h.dev, h.queue, by simp [Net.step, dup, h.ctrl], h.raw, h.acks⟩
    | raw => exact ⟨h.box, h.dev, h.queue, h.ctrl, by simp [Net.step, dup, h.raw], h.acks⟩
    | acks => exact ⟨h.box, h.dev, h.queue, h.ctrl, h.raw, by simp [Net.step, dup, h.acks]⟩

/-! ### Clean runs -/

/-- The invariant of clean runs. -/
def Pushed (w : Radio) (n : Net) : Option (List UInt8) → Prop
  | none => n.Blank
  | some image => n.Agree w image

/-- The step lemma of the invariant. -/
theorem Pushed.step (hfits : ∀ image, EspNowPushReceiver.Fits w.plat image)
    {prev : Option (List UInt8)} {act : Act} (hclean : n.Clean prev act) (h : n.Pushed w prev) :
    (n.step w act).Pushed w (pushed prev act) := by
  by_cases hrunning : act.Running
  · rw [pushed_of_running hrunning]
    cases prev with
    | none => exact Blank.step h hrunning
    | some image => exact (Agree.step h (hfits image) hrunning).1
  · cases act with
    | start image major minor patch =>
      by_cases hnil : image.bytes = []
      · -- refused: nothing changes
        have hself : n.step w (.start image major minor patch) = n := by
          refine boxAct_self (((n.box.start_image w.clock image w.devMac major minor
            patch).resolve_right fun hne => hne.1 hnil).2)
        rw [hself, pushed, if_pos hnil]
        exact h
      · rw [pushed, if_neg hnil]
        refine agree_start image hnil major minor patch ?_
        rcases hclean with hclean | rfl | hsettled
        · exact absurd hclean hnil
        · exact .inr h
        · exact .inl hsettled
    | _ => exact absurd trivial hrunning

/-- The run lemma of the invariant. -/
theorem Pushed.run (hfits : ∀ image, EspNowPushReceiver.Fits w.plat image) {acts : List Act}
    {prev : Option (List UInt8)} (hclean : n.CleanRun w prev acts) (h : n.Pushed w prev) :
    (n.run w acts).Pushed w (acts.foldl pushed prev) := by
  induction acts generalizing n prev with
  | nil => exact h
  | cons act acts ih => exact ih hclean.2 (h.step hfits hclean.1)

/-! ### Which image is installed -/

/-- **Box and device agree on the image.**  In a run in which every push starts
with nothing left over from the one before, or with the same image, whatever is
lost, delayed, duplicated or reordered: when the box is done, the image of its
last start is what the device committed last. -/
theorem done_means_committed (w : Radio)
    (hslot : ∀ log size, w.plat.toUpdateLib.begin log size = true → size.toNat ≤ 2 ^ 24) (n : Net)
    (hblank : n.Blank) (acts : List Act) (hclean : n.CleanRun w none acts)
    (hdone : (n.run w acts).box.state = .done) :
    ∃ image, lastPushed acts = some image ∧
      committed (updates (n.run w acts).dev.trace) = some image := by
  have hfits : ∀ image, EspNowPushReceiver.Fits w.plat image := by
    intro image log size hsize hok
    rw [← hsize]
    exact hslot log size hok
  have h : (n.run w acts).Pushed w (lastPushed acts) := Pushed.run hfits hclean hblank
  cases hlast : lastPushed acts with
  | none =>
    rw [hlast] at h
    exact absurd (h.box.symm.trans hdone) (by decide)
  | some image =>
    rw [hlast] at h
    exact ⟨image, rfl, h.done hdone⟩

/-- The image of the one byte 8. -/
def otherByte : Image := ⟨[8], by decide⟩

/-- Two pushes, one after the other. -/
def twoPushes : List Act :=
  [.start oneByte 1 0 0, .control 0, .frame 0, .drain, .ack 0, .lose .acks 0, .control 0, .ack 0,
    .lose .acks 0, .start otherByte 2 0 0, .control 0, .frame 0, .drain, .ack 0, .lose .acks 0,
    .control 0, .ack 0]

theorem done_means_committed_two :
    ∃ image, lastPushed twoPushes = some image ∧
      committed (updates (Net.run calmRadio ⟨{}, {}, [], [], []⟩ twoPushes).dev.trace) =
        some image := by
  refine done_means_committed calmRadio (fun log size hok => ?_) ⟨{}, {}, [], [], []⟩
    ⟨rfl, rfl, by decide, rfl, rfl, rfl⟩ twoPushes ?_ ?_
  · exact of_decide_eq_true hok
  · decide +kernel
  · decide +kernel

/-- A clock that runs 200 ms at every reading. -/
def slowRadio : Radio :=
  { calmRadio with
    plat := { UpdateLib.flawless with millis := fun k => UInt32.ofNat (200 * k) } }

/-- The image 7 is flashed, its acks are lost, and the box turns to the image 8. -/
def mixedPushes : List Act :=
  [.start oneByte 1 0 0, .control 0, .frame 0, .drain, .lose .acks 0, .lose .acks 0,
    .start otherByte 2 0 0, .control 0, .frame 0, .drain, .ack 0, .control 0, .ack 0]

theorem installs_old_image :
    (∀ act ∈ mixedPushes, act.Lossy) ∧
      (Net.run slowRadio ⟨{}, {}, [], [], []⟩ mixedPushes).box.state = .done ∧
      lastPushed mixedPushes = some [8] ∧
      committed (updates (Net.run slowRadio ⟨{}, {}, [], [], []⟩ mixedPushes).dev.trace) =
        some [7] := by
  refine ⟨by simp [mixedPushes, Act.Lossy], ?_, by decide, ?_⟩
  · decide +kernel
  · decide +kernel

end Net

end InfinitagNow
