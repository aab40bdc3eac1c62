/-
InfinitagNow/UploadTruth.lean

Do the upload pages tell the truth (`src/WebUpdateService.cpp`)?

`Watched` runs the service and remembers what the service does not: where in
the call log the latest firmware and the latest image began, and which chunks of
the firmware came.  What the pages should say is read off the calls made since
then (`Upload.Validated`, `AcceptedSince`), not off the flags.

The flag `done` is never cleared and `storeOk` is cleared by the next image
only.  So the pages are right as long as nothing is posted to /update once a
firmware was accepted, and no request without a file is posted to /store while
the last image is an accepted one (`truthful_iff`).
-/
import InfinitagNow.WebUpdateService

namespace InfinitagNow

/-! ### What there is to report -/

/-- The latest firmware: the calls made before it, and its chunks so far. -/
structure Upload where
  before : List UpdateCall
  chunks : List (List UInt8)
  deriving DecidableEq, Repr

/-- A chunk that was written in full. -/
def wholeWrite (c : List UInt8) : UpdateCall :=
  .write c (UInt32.ofNat c.length) (UInt32.ofNat c.length)

/-- Accepted, fully written, and `end(true)` returned true. -/
def Upload.Validated (u : Upload) (log : List UpdateCall) : Prop :=
  log = .end_ true :: ((u.chunks.map wholeWrite).reverse ++
    .begin WebUpdateService.updateSizeUnknown true :: u.before)

instance (u : Upload) (log : List UpdateCall) : Decidable (u.Validated log) :=
  inferInstanceAs (Decidable (_ = _))

theorem Upload.Validated.mem {u : Upload} {log : List UpdateCall} (h : u.Validated log) :
    .end_ true ∈ log := by
  rw [h]
  exact List.mem_cons_self

/-- `end(true)` has returned true since the calls `before`. -/
def AcceptedSince (before log : List HookCall) : Prop :=
  ∃ calls, log = calls ++ before ∧ .end_ true true ∈ calls

/-- The service, the latest firmware, and the calls made before the latest image. -/
structure Watched where
  svc : WebUpdateService
  upload : Option Upload := none
  image : Option (List HookCall) := none

namespace Watched

section Run

variable (lib : UpdateLib) (store : Option StoreHooks)

def event (route : Route) (w : Watched) (e : UploadEvent) : Watched where
  svc := w.svc.handleData lib store route e
  upload := match route, e with
    | .update, .start _ => some ⟨w.svc.updateLog, []⟩
    | .update, .write c => w.upload.map fun u => { u with chunks := u.chunks ++ [c] }
    | _, _ => w.upload
  image := match route, e with
    | .store, .start _ => some w.svc.hookLog
    | _, _ => w.image

def events (route : Route) (w : Watched) (es : List UploadEvent) : Watched :=
  es.foldl (event lib store route) w

def parts (route : Route) (w : Watched) (ps : List Part) : Watched :=
  w.events lib store route (ps.flatMap Part.events)

def request (w : Watched) (r : Request) : Watched :=
  let w := w.parts lib store r.route r.parts
  { w with svc := if r.completed then (w.svc.handleDone store r.route).1 else w.svc }

/-! ### Telling the truth -/

/-- `updateDone()` speaks of the latest firmware. -/
def DoneTruthful (w : Watched) : Prop :=
  w.svc.done = true → ∃ u, w.upload = some u ∧ u.Validated w.svc.updateLog

/-- At every moment while the events arrive. -/
def Throughout (P : Watched → Prop) (route : Route) : Watched → List UploadEvent → Prop
  | w, [] => P w
  | w, e :: es => P w ∧ Throughout P route (w.event lib store route e) es

/-- The latest firmware, or the latest image, was a success. -/
def LatestOk (w : Watched) : Route → Prop
  | .update => ∃ u, w.upload = some u ∧ u.Validated w.svc.updateLog
  | .store => ∃ before, w.image = some before ∧ AcceptedSince before w.svc.hookLog

/-- The answer is a success exactly if the request brought a file and the last
one it brought was a success. -/
def AnswerTruthful (w : Watched) (r : Request) : Prop :=
  let w := w.parts lib store r.route r.parts
  (w.svc.handleDone store r.route).2.code = 200 ↔ r.parts ≠ [] ∧ w.LatestOk r.route

/-- Over a run of requests. -/
def Truthful : Watched → List Request → Prop
  | w, [] => w.DoneTruthful
  | w, r :: rs =>
    (Throughout lib store DoneTruthful r.route w (r.parts.flatMap Part.events) ∧
      (r.completed → w.AnswerTruthful lib store r)) ∧ Truthful (w.request lib store r) rs

/-! ### When they do -/

/-- `Update.end(true)` has not succeeded yet. -/
def Unflashed (w : Watched) : Prop := .end_ true ∉ w.svc.updateLog

/-- On /update: no firmware was accepted before the request, nor before one of
its files starts.  On /store: without a file, only if the last image was not
accepted. -/
def Fits (w : Watched) (r : Request) : Prop :=
  match r.route with
  | .update => (r.parts = [] → w.Unflashed) ∧
      ∀ pre p post, r.parts = pre ++ p :: post → (w.parts lib store .update pre).Unflashed
  | .store => r.parts = [] → ¬ w.LatestOk .store

def AllFit : Watched → List Request → Prop
  | _, [] => True
  | w, r :: rs => w.Fits lib store r ∧ AllFit (w.request lib store r) rs

end Run

/-! ### Flags and calls -/

variable {lib : UpdateLib} {store : Option StoreHooks}

theorem acceptedSince_cons {before log : List HookCall} {c : HookCall} :
    AcceptedSince before (c :: log) ↔
      c = .end_ true true ∧ before <:+ log ∨ AcceptedSince before log := by
  constructor
  · rintro ⟨calls, heq, hmem⟩
    cases calls with
    | nil => exact absurd hmem List.not_mem_nil
    | cons d calls =>
      obtain ⟨rfl, hlog⟩ := List.cons.inj heq
      rcases List.mem_cons.1 hmem with h | h
      · exact .inl ⟨h.symm, calls, hlog.symm⟩
      · exact .inr ⟨calls, hlog, h⟩
  · rintro (⟨rfl, calls, rfl⟩ | ⟨calls, rfl, hmem⟩)
    · exact ⟨.end_ true true :: calls, rfl, List.mem_cons_self⟩
    · exact ⟨c :: calls, rfl, List.mem_cons_of_mem c hmem⟩

theorem acceptedSince_append {before log calls : List HookCall} (h : .end_ true true ∉ calls) :
    AcceptedSince before (calls ++ log) ↔ AcceptedSince before log := by
  induction calls with
  | nil => rfl
  | cons c calls ih =>
    have hne : ¬ c = .end_ true true := fun hc => h (hc ▸ List.mem_cons_self)
    rw [List.cons_append, acceptedSince_cons, ih fun hm => h (List.mem_cons_of_mem c hm)]
    exact or_iff_right fun hc => hne hc.1

theorem not_acceptedSince_self (log : List HookCall) : ¬ AcceptedSince log log := by
  rintro ⟨calls, heq, hmem⟩
  have hnil : calls = [] := by simpa using heq
  rw [hnil] at hmem
  exact absurd hmem List.not_mem_nil

/-- What the flags stand for, at every moment. -/
structure Inv (store : Option StoreHooks) (w : Watched) : Prop where
  done : w.svc.done = true ↔ .end_ true ∈ w.svc.updateLog
  storeOk : w.svc.storeOk = true ↔ w.LatestOk .store
  active : w.svc.storeActive = true → w.svc.storeOk = false ∧ w.image.isSome
  image : ∀ before, w.image = some before → before <:+ w.svc.hookLog
  noStore : store = none → w.svc.storeOk = false

section Steps

variable {w w' : Watched} (calls : List HookCall)

/-- Calls that accept nothing. -/
theorem Inv.quiet (h : w.Inv store)
    (hdone : w'.svc.done = true ↔ .end_ true ∈ w'.svc.updateLog) (himage : w'.image = w.image)
    (hok : w'.svc.storeOk = w.svc.storeOk)
    (hact : w'.svc.storeActive = true → w.svc.storeActive = true)
    (hlog : w'.svc.hookLog = calls ++ w.svc.hookLog) (hcalls : .end_ true true ∉ calls) :
    w'.Inv store := by
  refine ⟨hdone, ?_, ?_, ?_, ?_⟩
  · show w'.svc.storeOk = true ↔
      ∃ before, w'.image = some before ∧ AcceptedSince before w'.svc.hookLog
    rw [hok, himage, hlog, h.storeOk]
    simp only [acceptedSince_append hcalls]
    rfl
  · rw [hok, himage]
    exact fun hactive => h.active (hact hactive)
  · rw [himage, hlog]
    exact fun before hb => (h.image before hb).trans (List.suffix_append _ _)
  · rw [hok]
    exact h.noStore

/-- A new image has not been accepted. -/
theorem Inv.begun (hdone : w'.svc.done = true ↔ .end_ true ∈ w'.svc.updateLog)
    (himage : w'.image = some w.svc.hookLog) (hok : w'.svc.storeOk = false)
    (hlog : w'.svc.hookLog = calls ++ w.svc.hookLog) (hcalls : .end_ true true ∉ calls) :
    w'.Inv store := by
  refine ⟨hdone, ?_, ?_, ?_, fun _ => hok⟩
  · have hfalse : ¬ w'.svc.storeOk = true := Bool.eq_false_iff.1 hok
    refine iff_of_false hfalse ?_
    rintro ⟨before, hb, hacc⟩
    obtain rfl : w.svc.hookLog = before := Option.some.inj (himage.symm.trans hb)
    rw [hlog, acceptedSince_append hcalls] at hacc
    exact not_acceptedSince_self _ hacc
  · rw [himage]
    exact fun _ => ⟨hok, rfl⟩
  · rw [himage, hlog]
    rintro before hb
    obtain rfl : w.svc.hookLog = before := Option.some.inj hb
    exact List.suffix_append _ _

/-- `end(true)` decides. -/
theorem Inv.ended {hooks : StoreHooks} {ret : Bool} (h : w.Inv (some hooks))
    (hact : w.svc.storeActive = true)
    (hdone : w'.svc.done = true ↔ .end_ true ∈ w'.svc.updateLog) (himage : w'.image = w.image)
    (hok : w'.svc.storeOk = ret) (hclosed : w'.svc.storeActive = false)
    (hlog : w'.svc.hookLog = .end_ true ret :: w.svc.hookLog) :
    w'.Inv (some hooks) := by
  obtain ⟨hfalse, hsome⟩ := h.active hact
  obtain ⟨before, hb⟩ := Option.isSome_iff_exists.1 hsome
  have hnot : ¬ AcceptedSince before w.svc.hookLog := by
    intro hacc
    have htrue := h.storeOk.2 ⟨before, hb, hacc⟩
    rw [hfalse] at htrue
    exact Bool.noConfusion htrue
  refine ⟨hdone, ?_, ?_, ?_, fun hnone => nomatch hnone⟩
  · show w'.svc.storeOk = true ↔
      ∃ before, w'.image = some before ∧ AcceptedSince before w'.svc.hookLog
    rw [hok, himage, hlog]
    constructor
    · rintro rfl
      exact ⟨before, hb, acceptedSince_cons.2 (.inl ⟨rfl, h.image before hb⟩)⟩
    · rintro ⟨before', hb', hacc⟩
      obtain rfl : before = before' := Option.some.inj (hb.symm.trans hb')
      rcases acceptedSince_cons.1 hacc with ⟨heq, -⟩ | hacc
      · exact (HookCall.end_.inj heq).2
      · exact absurd hacc hnot
  · rw [hclosed]
    exact fun hactive => Bool.noConfusion hactive
  · rw [himage, hlog]
    exact fun before hb => (h.image before hb).trans (List.suffix_cons _ _)

variable (lib) in
theorem Inv.event_update (h : w.Inv store) (e : UploadEvent) :
    (w.event lib store .update e).Inv store := by
  have hrule := WebUpdateService.handleUploadData_rule lib w.svc e
  obtain ⟨hlog, hact, hok⟩ := hrule.frame
  have hactive : (w.svc.handleUploadData lib e).storeActive = true →
      w.svc.storeActive = true := fun hactive => hact ▸ hactive
  exact h.quiet [] (hrule.done h.done) rfl hok hactive hlog List.not_mem_nil

theorem Inv.rule_store {hooks : StoreHooks} (h : w.Inv (some hooks)) {e : UploadEvent}
    (hrule : WebUpdateService.StoreRule w.svc e w'.svc)
    (himage : w'.image = (w.event lib (some hooks) .store e).image) :
    w'.Inv (some hooks) := by
  obtain ⟨s', upload, image⟩ := w'
  have hdone : s'.done = true ↔ .end_ true ∈ s'.updateLog := by
    obtain ⟨hlog, hdone⟩ := hrule.frame
    rw [hlog, hdone]
    exact h.done
  cases hrule with
  | begun filename ok =>
    exact Inv.begun [.begin filename ok] hdone himage rfl rfl (by simp)
  | skipped buf =>
    exact h.quiet [] hdone himage rfl id rfl (by simp)
  | written buf =>
    exact h.quiet [.write buf true] hdone himage rfl id rfl (by simp)
  | notWritten buf ret =>
    exact h.quiet [.end_ false ret, .write buf false] hdone himage rfl
      (fun hactive => Bool.noConfusion hactive) rfl (by simp)
  | dropped e he =>
    have hsame : image = w.image := by
      rcases he with rfl | rfl
      · exact himage
      · exact himage
    exact h.quiet [] hdone hsame rfl id rfl (by simp)
  | ended ret hact => exact h.ended hact hdone himage rfl rfl rfl
  | aborted ret =>
    exact h.quiet [.end_ false ret] hdone himage rfl
      (fun hactive => Bool.noConfusion hactive) rfl (by simp)

variable (lib) in
theorem Inv.event_store (h : w.Inv store) (e : UploadEvent) :
    (w.event lib store .store e).Inv store := by
  cases store with
  | some hooks => exact h.rule_store (WebUpdateService.handleStoreData_rule hooks w.svc e) rfl
  | none =>
    -- without hooks nothing is ever accepted
    cases e with
    | start filename =>
      have himage : (w.event lib none .store (.start filename)).image = some w.svc.hookLog := rfl
      exact Inv.begun [] h.done himage (h.noStore rfl) rfl List.not_mem_nil
    | write | end_ | aborted => exact ⟨h.done, h.storeOk, h.active, h.image, h.noStore⟩

end Steps

variable (lib) in
theorem Inv.event {w : Watched} (h : w.Inv store) (route : Route) (e : UploadEvent) :
    (w.event lib store route e).Inv store := by
  cases route with
  | update => exact h.event_update lib e
  | store => exact h.event_store lib e

variable (lib) in
theorem Inv.events {w : Watched} (h : w.Inv store) (route : Route) (es : List UploadEvent) :
    (w.events lib store route es).Inv store := by
  induction es generalizing w with
  | nil => exact h
  | cons e es ih => exact ih (h.event lib route e)

variable (lib) in
theorem Inv.request {w : Watched} (h : w.Inv store) (r : Request) :
    (w.request lib store r).Inv store := by
  have hw := h.events lib r.route (r.parts.flatMap Part.events)
  obtain ⟨failed, wrongFile, heq⟩ := WebUpdateService.handleDone_frame store r.route
    (w.parts lib store r.route r.parts).svc
  unfold Watched.request
  dsimp only
  split
  · rw [heq]
    exact ⟨hw.done, hw.storeOk, hw.active, hw.image, hw.noStore⟩
  · exact hw

/-! ### Moments -/

section Moments

variable {P : Watched → Prop} {route : Route}

theorem Throughout.now {w : Watched} {es : List UploadEvent}
    (h : Throughout lib store P route w es) : P w := by
  cases es with
  | nil => exact h
  | cons e es => exact h.1

theorem Throughout.final {w : Watched} {es : List UploadEvent}
    (h : Throughout lib store P route w es) : P (w.events lib store route es) := by
  induction es generalizing w with
  | nil => exact h
  | cons e es ih => exact ih h.2

theorem throughout_append {w : Watched} {es fs : List UploadEvent} :
    Throughout lib store P route w (es ++ fs) ↔
      Throughout lib store P route w es ∧
        Throughout lib store P route (w.events lib store route es) fs := by
  induction es generalizing w with
  | nil => exact ⟨fun h => ⟨h.now, h⟩, fun h => h.2⟩
  | cons e es ih =>
    show P w ∧ Throughout lib store P route (w.event lib store route e) (es ++ fs) ↔ _
    rw [ih, ← and_assoc]
    rfl

end Moments

/-! ### One firmware -/

theorem Unflashed.doneTruthful {w : Watched} (hinv : w.Inv store) (h : w.Unflashed) :
    w.DoneTruthful :=
  fun hdone => absurd (hinv.done.1 hdone) h

/-- The firmware `u` is arriving, the first to be flashed. -/
structure Receiving (w : Watched) (u : Upload) : Prop where
  upload : w.upload = some u
  unflashed : w.Unflashed
  calls : w.svc.failed = false → w.svc.updateLog =
    (u.chunks.map wholeWrite).reverse ++ .begin WebUpdateService.updateSizeUnknown true :: u.before

theorem receiving_start {w : Watched} (h : w.Unflashed) (filename : String) :
    (w.event lib store .update (.start filename)).Receiving ⟨w.svc.updateLog, []⟩ := by
  have hrule := WebUpdateService.handleUploadData_rule lib w.svc (.start filename)
  exact ⟨rfl, hrule.unflashed (fun he => nomatch he) h, hrule.start_calls⟩

theorem Receiving.write {w : Watched} {u : Upload} (h : w.Receiving u) (c : List UInt8) :
    (w.event lib store .update (.write c)).Receiving { u with chunks := u.chunks ++ [c] } := by
  have hrule := WebUpdateService.handleUploadData_rule lib w.svc (.write c)
  refine ⟨?_, hrule.unflashed (fun he => nomatch he) h.unflashed, fun hok => ?_⟩
  · show w.upload.map _ = _
    rw [h.upload]
    rfl
  · show (w.svc.handleUploadData lib (.write c)).updateLog = _
    obtain ⟨hbefore, hlog⟩ := hrule.write_calls hok
    rw [hlog, h.calls hbefore, List.map_append, List.reverse_append]
    rfl

variable (lib store) in
theorem Receiving.last {w : Watched} {u : Upload} (h : w.Receiving u) (p : Part) :
    (w.event lib store .update p.last).upload = some u ∧
      (.end_ true ∈ (w.event lib store .update p.last).svc.updateLog →
        u.Validated (w.event lib store .update p.last).svc.updateLog) := by
  have hrule := WebUpdateService.handleUploadData_rule lib w.svc p.last
  rcases WebUpdateService.last_eq p with hlast | hlast
  · rw [hlast] at hrule ⊢
    refine ⟨h.upload, fun hmem => absurd hmem ?_⟩
    exact hrule.unflashed (fun he => nomatch he) h.unflashed
  · rw [hlast] at hrule ⊢
    refine ⟨h.upload, fun hmem => ?_⟩
    obtain ⟨hok, hlog⟩ := hrule.end_calls h.unflashed hmem
    show (w.svc.handleUploadData lib .end_).updateLog = _
    rw [hlog, h.calls hok]

theorem Receiving.throughout {w : Watched} {u : Upload} (hinv : w.Inv store) (h : w.Receiving u)
    (p : Part) (chunks : List (List UInt8)) :
    Throughout lib store DoneTruthful .update w (chunks.map .write ++ [p.last]) := by
  induction chunks generalizing w u with
  | nil =>
    obtain ⟨hupload, hvalid⟩ := h.last lib store p
    refine ⟨h.unflashed.doneTruthful hinv, fun hdone => ⟨u, hupload, ?_⟩⟩
    exact hvalid ((hinv.event lib .update p.last).done.1 hdone)
  | cons c chunks ih =>
    exact ⟨h.unflashed.doneTruthful hinv, ih (hinv.event lib .update (.write c)) (h.write c)⟩

/-- The start of another firmware leaves `done` as it is. -/
theorem not_throughout {w : Watched} (hinv : w.Inv store) (h : ¬ w.Unflashed) (p : Part) :
    ¬ Throughout lib store DoneTruthful .update w p.events := by
  intro hall
  have hrule := WebUpdateService.handleUploadData_rule lib w.svc (.start p.filename)
  have hflashed : .end_ true ∈ (w.svc.handleUploadData lib (.start p.filename)).updateLog :=
    hrule.flashed_mono (not_not.1 h)
  have hnow : (w.event lib store .update (.start p.filename)).DoneTruthful := hall.2.now
  obtain ⟨u, hu, hvalid⟩ := hnow ((hinv.event lib .update _).done.2 hflashed)
  obtain rfl : ⟨w.svc.updateLog, []⟩ = u := Option.some.inj hu
  -- there would have to be two more calls
  have hlen : (w.svc.handleUploadData lib (.start p.filename)).updateLog.length =
      w.svc.updateLog.length + 2 := congrArg List.length hvalid
  have hle := hrule.length_le
  omega

theorem part_truthful_iff {w : Watched} (hinv : w.Inv store) (p : Part) :
    Throughout lib store DoneTruthful .update w p.events ↔ w.Unflashed := by
  constructor
  · exact fun hall => by_contra fun h => not_throughout hinv h p hall
  · intro h
    exact ⟨h.doneTruthful hinv,
      (receiving_start h p.filename).throughout (hinv.event lib .update _) p p.chunks⟩

theorem parts_truthful_iff {w : Watched} (hinv : w.Inv store) (htrue : w.DoneTruthful)
    (ps : List Part) :
    Throughout lib store DoneTruthful .update w (ps.flatMap Part.events) ↔
      ∀ pre p post, ps = pre ++ p :: post → (w.parts lib store .update pre).Unflashed := by
  induction ps generalizing w with
  | nil => exact iff_of_true htrue fun pre p post h => absurd h (by simp)
  | cons q ps ih =>
    rw [List.flatMap_cons, throughout_append, part_truthful_iff hinv]
    have hparts : ∀ pre, w.parts lib store .update (q :: pre) =
        (w.events lib store .update q.events).parts lib store .update pre := by
      intro pre
      show List.foldl _ w (q.events ++ _) = _
      rw [List.foldl_append]
      rfl
    constructor
    · rintro ⟨hq, hall⟩ pre p post hsplit
      have hrest := (ih (hinv.events lib .update q.events) hall.now).1 hall
      cases pre with
      | nil => exact hq
      | cons r pre =>
        obtain ⟨rfl, htail⟩ := List.cons.inj hsplit
        rw [hparts]
        exact hrest pre p post htail
    · intro h
      have hq : w.Unflashed := h [] q ps rfl
      have hdone : (w.events lib store .update q.events).DoneTruthful :=
        ((part_truthful_iff hinv q).2 hq).final
      refine ⟨hq, (ih (hinv.events lib .update q.events) hdone).2 fun pre p post hsplit => ?_⟩
      rw [← hparts]
      exact h (q :: pre) p post (by rw [hsplit]; rfl)

/-! ### One request -/

/-- An image changes nothing that `updateDone()` speaks of. -/
theorem throughout_store {w : Watched} (htrue : w.DoneTruthful) (es : List UploadEvent) :
    Throughout lib store DoneTruthful .store w es := by
  induction es generalizing w with
  | nil => exact htrue
  | cons e es ih =>
    obtain ⟨hlog, hdone⟩ := WebUpdateService.handleStoreData_frame store w.svc e
    refine ⟨htrue, ih ?_⟩
    show (w.svc.handleStoreData store e).done = true → ∃ u, w.upload = some u ∧
      u.Validated (w.svc.handleStoreData store e).updateLog
    rw [hlog, hdone]
    exact htrue

theorem code_update (s : WebUpdateService) :
    (s.handleDone store .update).2.code = 200 ↔ s.done = true := by
  unfold WebUpdateService.handleDone WebUpdateService.handleUploadDone
  dsimp only
  split
  · rename_i h
    exact iff_of_true rfl h
  · rename_i h
    split
    · exact iff_of_false (show ¬ 400 = 200 by decide) h
    · exact iff_of_false (show ¬ 500 = 200 by decide) h

theorem code_store (s : WebUpdateService) :
    (s.handleDone store .store).2.code = 200 ↔ s.storeOk = true := by
  unfold WebUpdateService.handleDone WebUpdateService.handleStoreDone
  dsimp only
  split
  · rename_i h
    exact iff_of_true rfl h
  · rename_i h
    exact iff_of_false (show ¬ 400 = 200 by decide) h

variable (lib) in
theorem request_truthful_iff {w : Watched} (hinv : w.Inv store) (htrue : w.DoneTruthful)
    (r : Request) :
    Throughout lib store DoneTruthful r.route w (r.parts.flatMap Part.events) ∧
      (r.completed → w.AnswerTruthful lib store r) ↔ w.Fits lib store r := by
  obtain ⟨route, ps⟩ := r
  have hinv' : (w.parts lib store route ps).Inv store := hinv.events lib route _
  cases route with
  | update =>
    show Throughout lib store DoneTruthful .update w (ps.flatMap Part.events) ∧ _ ↔
      (ps = [] → w.Unflashed) ∧ _
    rw [and_comm, ← parts_truthful_iff hinv htrue]
    refine and_congr_left fun hall => ?_
    have hdone : (w.parts lib store .update ps).DoneTruthful := hall.final
    show (_ → (_ ↔ ps ≠ [] ∧ (w.parts lib store .update ps).LatestOk .update)) ↔ _
    rw [code_update]
    by_cases hps : ps = []
    · subst hps
      have hsame : w.parts lib store .update [] = w := rfl
      have hcompleted : (Request.mk .update []).completed = true := rfl
      rw [hsame, hinv.done]
      simp [hcompleted, Unflashed]
    · refine iff_of_true (fun _ => ⟨fun h => ⟨hps, hdone h⟩, ?_⟩) fun h => absurd h hps
      rintro ⟨-, u, -, hvalid⟩
      exact hinv'.done.2 hvalid.mem
  | store =>
    show Throughout lib store DoneTruthful .store w (ps.flatMap Part.events) ∧
      (_ → (_ ↔ ps ≠ [] ∧ (w.parts lib store .store ps).LatestOk .store)) ↔
        (ps = [] → ¬ w.LatestOk .store)
    rw [code_store, and_iff_right (throughout_store htrue _), hinv'.storeOk]
    by_cases hps : ps = []
    · subst hps
      have hsame : w.parts lib store .store [] = w := rfl
      have hcompleted : (Request.mk .store []).completed = true := rfl
      rw [hsame]
      simp [hcompleted]
    · exact iff_of_true (fun _ => ⟨fun h => ⟨hps, h⟩, fun h => h.2⟩) fun h => absurd h hps

/-! ### A run -/

theorem truthful_iff_allFit {w : Watched} (hinv : w.Inv store) (htrue : w.DoneTruthful)
    (rs : List Request) : Truthful lib store w rs ↔ AllFit lib store w rs := by
  induction rs generalizing w with
  | nil => exact iff_of_true htrue trivial
  | cons r rs ih =>
    show (Throughout lib store DoneTruthful r.route w (r.parts.flatMap Part.events) ∧
      (r.completed → w.AnswerTruthful lib store r)) ∧ _ ↔ w.Fits lib store r ∧ _
    rw [request_truthful_iff lib hinv htrue]
    refine and_congr_right fun hfit => ih (hinv.request lib r) ?_
    have hall := ((request_truthful_iff lib hinv htrue r).2 hfit).1
    have hdone : (w.parts lib store r.route r.parts).DoneTruthful := hall.final
    obtain ⟨failed, wrongFile, heq⟩ := WebUpdateService.handleDone_frame store r.route
      (w.parts lib store r.route r.parts).svc
    unfold Watched.request
    dsimp only
    split
    · rw [heq]
      exact hdone
    · exact hdone

/-- **When the pages tell the truth**: for every run of a new service, all
answers and `updateDone()` are right at every moment exactly if each request
fits. -/
theorem upload_pages_truthful_iff (lib : UpdateLib) (store : Option StoreHooks)
    (label filePrefix : String) (rs : List Request) :
    Truthful lib store { svc := { label := label, filePrefix := filePrefix } } rs ↔
      AllFit lib store { svc := { label := label, filePrefix := filePrefix } } rs := by
  have hinv : ({ svc := { label := label, filePrefix := filePrefix } } : Watched).Inv store :=
    { done := by simp
      storeOk := by simp [LatestOk]
      active := by simp
      image := by simp
      noStore := fun _ => rfl }
  exact truthful_iff_allFit hinv (fun h => Bool.noConfusion h) rs

/-- A library and hooks that accept everything. -/
def willing : UpdateLib := { UpdateLib.flawless with begin := fun _ _ => true }

def willingHooks : StoreHooks := ⟨fun _ _ => true, fun _ _ => true, fun _ ok => ok, none⟩

/-- After a firmware that was accepted, one for another device is rejected and
answered with a success; so is a request without an image after an image. -/
theorem rejected_reported_as_success :
    let w₀ : Watched := { svc := { label := "Station", filePrefix := "infinitag-station" } }
    let good : Request := ⟨.update, [⟨"infinitag-station-v1.bin", [[1, 2]], false⟩]⟩
    let wrong : Request := ⟨.update, [⟨"infinitag-target-v1.bin", [[3]], false⟩]⟩
    let image : Request := ⟨.store, [⟨"target.bin", [[4]], false⟩]⟩
    ¬ Truthful willing (some willingHooks) w₀ [good, wrong] ∧
      ¬ Truthful willing (some willingHooks) w₀ [image, ⟨.store, []⟩] := by
  intro w₀ good wrong image
  constructor
  · rintro ⟨-, ⟨-, hanswer⟩, -⟩
    let w := (w₀.request willing (some willingHooks) good).parts willing (some willingHooks)
      .update wrong.parts
    have hcode : (w.svc.handleDone (some willingHooks) .update).2.code = 200 := by
      decide +kernel
    have hinvalid : ∀ u ∈ w.upload, ¬ u.Validated w.svc.updateLog := by
      decide +kernel
    obtain ⟨-, u, hu, hvalid⟩ := (hanswer (by decide +kernel)).1 hcode
    exact hinvalid u hu hvalid
  · rintro ⟨-, ⟨-, hanswer⟩, -⟩
    have hcode : (((w₀.request willing (some willingHooks) image).parts willing (some willingHooks)
        .store []).svc.handleDone (some willingHooks) .store).2.code = 200 := by
      decide +kernel
    exact ((hanswer (by decide +kernel)).1 hcode).1 rfl

end Watched

end InfinitagNow
