/-
InfinitagNow/FlashSessions.lean

What is flashed over /update is one posted file, whole (`handleUploadData` of
`src/WebUpdateService.cpp`).

`FlashSession` says which calls of the `Update` library a posted file may cause.
The flag `failed` is what carries the proof: it is unset inside a file as long
as every call was answered with success.  Each file appends its calls to the log
(`upload_flash`), an image and the answers to requests none.  So whatever was
committed, and it is all in `commits`, was the content of one file with the
right name that came through.
-/
import InfinitagNow.UploadTruth

namespace InfinitagNow

namespace UpdateCall

/-- What each successful end committed, newest first. -/
def commits : List UpdateCall → List (List UInt8)
  | [] => []
  | .end_ true :: log => flashed log :: commits log
  | _ :: log => commits log

section Calls

variable (log : List UpdateCall) (size n ret : UInt32) (data : List UInt8)

@[simp] theorem commits_begin (ok : Bool) : commits (.begin size ok :: log) = commits log := by
  cases ok <;> rfl
@[simp] theorem commits_write : commits (.write data n ret :: log) = commits log := rfl
@[simp] theorem commits_end_true : commits (.end_ true :: log) = flashed log :: commits log := rfl
@[simp] theorem commits_end_false : commits (.end_ false :: log) = commits log := rfl
@[simp] theorem commits_abort : commits (.abort :: log) = commits log := rfl

end Calls

/-- The last commit is the one that counts. -/
theorem committed_eq_head (log : List UpdateCall) : committed log = (commits log).head? := by
  induction log with
  | nil => rfl
  | cons c log ih =>
    cases c with
    | begin size ok => rw [committed_begin, commits_begin, ih]
    | write data n ret => exact ih
    | abort => exact ih
    | end_ ok =>
      cases ok with
      | false => exact ih
      | true => rfl

theorem commits_ne_nil_iff (log : List UpdateCall) : commits log ≠ [] ↔ .end_ true ∈ log := by
  induction log with
  | nil => simp [commits]
  | cons c log ih =>
    cases c with
    | begin size ok => simpa using ih
    | write data n ret => simpa using ih
    | abort => simpa using ih
    | end_ ok =>
      cases ok with
      | false => simpa using ih
      | true => simp

/-- Chunks written in full. -/
theorem flashed_wholeWrites (log : List UpdateCall) {chunks : List (List UInt8)}
    (hsize : ∀ c ∈ chunks, c.length < 2 ^ 32) :
    flashed ((chunks.map wholeWrite).reverse ++ log) = flashed log ++ chunks.flatten := by
  induction chunks generalizing log with
  | nil => simp
  | cons c chunks ih =>
    have hlen : (UInt32.ofNat c.length).toNat = c.length :=
      UInt32.toNat_ofNat_of_lt' (hsize c (by simp))
    have hrest := ih (wholeWrite c :: log) fun c' hc' => hsize c' (List.mem_cons_of_mem c hc')
    rw [List.map_cons, List.reverse_cons, List.append_assoc, List.singleton_append, hrest]
    simp [wholeWrite, hlen]

theorem commits_wholeWrites (log : List UpdateCall) (chunks : List (List UInt8)) :
    commits ((chunks.map wholeWrite).reverse ++ log) = commits log := by
  induction chunks generalizing log with
  | nil => rfl
  | cons c chunks ih =>
    rw [List.map_cons, List.reverse_cons, List.append_assoc, ih]
    exact commits_write log _ _ c

end UpdateCall

open UpdateCall

/-! ### The calls of one file -/

/-- The call that an abort of the client causes. -/
def Part.abortCall (p : Part) : List UpdateCall := if p.aborted then [.abort] else []

/-- Whether the name of a file fits the device. -/
def Part.named (filePrefix : String) (p : Part) : Bool :=
  filePrefix = "" || WebUpdateService.startsWith p.filename filePrefix

/-- The calls of one posted file, oldest first. -/
inductive FlashSession (filePrefix : String) (p : Part) : List UpdateCall → Prop
  | rejected (h : p.named filePrefix = false) : FlashSession filePrefix p p.abortCall
  | notBegun (h : p.named filePrefix = true) :
    FlashSession filePrefix p (.begin WebUpdateService.updateSizeUnknown false :: p.abortCall)
  /-- All chunks were written; `ok` says whether the image was accepted. -/
  | complete (ok : Bool) (h : p.named filePrefix = true) (hend : p.aborted = false) :
    FlashSession filePrefix p (.begin WebUpdateService.updateSizeUnknown true ::
      (p.chunks.map wholeWrite ++ [.end_ ok]))
  | aborted (h : p.named filePrefix = true) (hend : p.aborted = true) :
    FlashSession filePrefix p (.begin WebUpdateService.updateSizeUnknown true ::
      (p.chunks.map wholeWrite ++ [.abort]))
  /-- `bad` was not written in full, what came behind it was not offered. -/
  | broken (good : List (List UInt8)) (bad : List UInt8) (rest : List (List UInt8)) (ret : UInt32)
    (h : p.named filePrefix = true) (hsplit : p.chunks = good ++ bad :: rest)
    (hret : ret ≠ UInt32.ofNat bad.length) :
    FlashSession filePrefix p (.begin WebUpdateService.updateSizeUnknown true ::
      (good.map wholeWrite ++ .write bad (UInt32.ofNat bad.length) ret :: p.abortCall))

/-- The files that were posted to /update. -/
def Request.firmwares (r : Request) : List Part :=
  match r.route with
  | .update => r.parts
  | .store => []

theorem commits_abortCall (p : Part) (log : List UpdateCall) :
    commits (p.abortCall.reverse ++ log) = commits log := by
  unfold Part.abortCall
  split <;> rfl

/-- A file commits nothing, or its content, and then its name fits and it came
through. -/
theorem FlashSession.commits {filePrefix : String} {p : Part} {calls : List UpdateCall}
    (h : FlashSession filePrefix p calls) (hsize : ∀ c ∈ p.chunks, c.length < 2 ^ 32)
    (log : List UpdateCall) :
    UpdateCall.commits (calls.reverse ++ log) = UpdateCall.commits log ∨
      (p.named filePrefix = true ∧ p.aborted = false) ∧
        UpdateCall.commits (calls.reverse ++ log) =
          p.chunks.flatten :: UpdateCall.commits log := by
  cases h with
  | rejected => exact .inl (commits_abortCall p log)
  | notBegun =>
    left
    rw [List.reverse_cons, List.append_assoc, commits_abortCall]
    rfl
  | complete ok hnamed hend =>
    have hcalls : (UpdateCall.begin WebUpdateService.updateSizeUnknown true ::
        (p.chunks.map wholeWrite ++ [.end_ ok])).reverse ++ log =
          .end_ ok :: ((p.chunks.map wholeWrite).reverse ++
            .begin WebUpdateService.updateSizeUnknown true :: log) := by simp
    rw [hcalls]
    cases ok with
    | false => exact .inl (by rw [commits_end_false, commits_wholeWrites, commits_begin])
    | true =>
      refine .inr ⟨⟨hnamed, hend⟩, ?_⟩
      rw [commits_end_true, commits_wholeWrites, commits_begin, flashed_wholeWrites _ hsize,
        flashed_begin_true, List.nil_append]
  | aborted =>
    left
    have hcalls : (UpdateCall.begin WebUpdateService.updateSizeUnknown true ::
        (p.chunks.map wholeWrite ++ [.abort])).reverse ++ log =
          .abort :: ((p.chunks.map wholeWrite).reverse ++
            .begin WebUpdateService.updateSizeUnknown true :: log) := by simp
    rw [hcalls, commits_abort, commits_wholeWrites, commits_begin]
  | broken good bad rest ret =>
    left
    have hcalls : (UpdateCall.begin WebUpdateService.updateSizeUnknown true ::
        (good.map wholeWrite ++ .write bad (UInt32.ofNat bad.length) ret ::
          p.abortCall)).reverse ++ log =
        p.abortCall.reverse ++ .write bad (UInt32.ofNat bad.length) ret ::
          ((good.map wholeWrite).reverse ++
            .begin WebUpdateService.updateSizeUnknown true :: log) := by simp
    rw [hcalls, commits_abortCall, commits_write, commits_wholeWrites, commits_begin]

/-- Of several files: some of the contents, each once and in the order of arrival. -/
theorem commits_sessions {filePrefix : String} {ps : List Part} {calls : List (List UpdateCall)}
    (h : List.Forall₂ (FlashSession filePrefix) ps calls)
    (hsize : ∀ p ∈ ps, ∀ c ∈ p.chunks, c.length < 2 ^ 32) (log : List UpdateCall) :
    ∃ new, UpdateCall.commits (calls.flatten.reverse ++ log) = new ++ UpdateCall.commits log ∧
      new.reverse.Sublist ((ps.filter fun p => p.named filePrefix && !p.aborted).map fun p =>
        p.chunks.flatten) := by
  induction h generalizing log with
  | nil => exact ⟨[], rfl, List.Sublist.slnil⟩
  | @cons p c ps calls hsession _ ih =>
    obtain ⟨new, hnew, hsub⟩ := ih (fun q hq => hsize q (List.mem_cons_of_mem p hq))
      (c.reverse ++ log)
    rw [List.flatten_cons, List.reverse_append, List.append_assoc, hnew]
    rcases hsession.commits (hsize p List.mem_cons_self) log with hlog | ⟨⟨hnamed, hend⟩, hlog⟩
    · refine ⟨new, by rw [hlog], hsub.trans (List.Sublist.map _ ?_)⟩
      exact (List.sublist_cons_self p ps).filter _
    · refine ⟨new ++ [p.chunks.flatten], by rw [hlog, List.append_assoc]; rfl, ?_⟩
      rw [List.reverse_append, List.filter_cons_of_pos (by simp [hnamed, hend])]
      exact hsub.cons_cons _

namespace WebUpdateService

variable (lib : UpdateLib)

theorem wrongName_eq (s : WebUpdateService) (p : Part) :
    s.wrongName p.filename = !p.named s.filePrefix := by
  simp [wrongName, Part.named]

/-! ### One file -/

/-- As long as nothing failed a chunk is written, or it is the one that fails. -/
theorem write_unfailed {s : WebUpdateService} (h : s.failed = false) (c : List UInt8) :
    let s' := s.handleUploadData lib (.write c)
    s'.failed = false ∧ s'.updateLog = wholeWrite c :: s.updateLog ∨
      s'.failed = true ∧ ∃ ret, ret ≠ UInt32.ofNat c.length ∧
        s'.updateLog = .write c (UInt32.ofNat c.length) ret :: s.updateLog := by
  simp only [handleUploadData, h, Bool.false_eq_true, if_false]
  split
  · rename_i hret
    exact .inr ⟨rfl, _, hret, rfl⟩
  · rename_i hret
    refine .inl ⟨h, ?_⟩
    show UpdateCall.write c _ _ :: s.updateLog = _
    rw [not_not.1 hret]
    rfl

theorem write_failed {s : WebUpdateService} (h : s.failed = true) (chunks : List (List UInt8)) :
    (chunks.map .write).foldl (handleUploadData lib) s = s := by
  induction chunks with
  | nil => rfl
  | cons c chunks ih =>
    have hskip : s.handleUploadData lib (.write c) = s := by simp [handleUploadData, h]
    rw [List.map_cons, List.foldl_cons, hskip, ih]

theorem handleUploadData_filePrefix (s : WebUpdateService) (e : UploadEvent) :
    (s.handleUploadData lib e).filePrefix = s.filePrefix := by
  have hrule := handleUploadData_rule lib s e
  generalize s.handleUploadData lib e = s' at hrule
  cases hrule <;> rfl

theorem handleUploadData_wrongFile (s : WebUpdateService) (c : List UInt8) :
    (s.handleUploadData lib (.write c)).wrongFile = s.wrongFile := by
  have hrule := handleUploadData_rule lib s (.write c)
  generalize s.handleUploadData lib (.write c) = s' at hrule
  cases hrule <;> rfl

theorem writes_wrongFile (s : WebUpdateService) (chunks : List (List UInt8)) :
    ((chunks.map .write).foldl (handleUploadData lib) s).wrongFile = s.wrongFile := by
  induction chunks generalizing s with
  | nil => rfl
  | cons c chunks ih => rw [List.map_cons, List.foldl_cons, ih, handleUploadData_wrongFile]

/-- The chunks of a file that was begun: all written, or up to the first that
is not. -/
theorem flash_chunks {s : WebUpdateService} (h : s.failed = false) (chunks : List (List UInt8)) :
    let s' := (chunks.map .write).foldl (handleUploadData lib) s
    (s'.failed = false ∧ s'.updateLog = (chunks.map wholeWrite).reverse ++ s.updateLog) ∨
      ∃ good bad rest ret, chunks = good ++ bad :: rest ∧ ret ≠ UInt32.ofNat bad.length ∧
        s'.failed = true ∧ s'.updateLog = .write bad (UInt32.ofNat bad.length) ret ::
          ((good.map wholeWrite).reverse ++ s.updateLog) := by
  induction chunks generalizing s with
  | nil => exact .inl ⟨h, rfl⟩
  | cons c chunks ih =>
    rw [List.map_cons, List.foldl_cons]
    rcases write_unfailed lib h c with ⟨hopen, hstep⟩ | ⟨hfailed, ret, hret, hstep⟩
    · rcases ih hopen with ⟨hok, hlog⟩ | ⟨good, bad, rest, ret, hsplit, hret, hfailed, hlog⟩
      · refine .inl ⟨hok, ?_⟩
        rw [hlog, hstep]
        simp
      · refine .inr ⟨c :: good, bad, rest, ret, by rw [hsplit, List.cons_append], hret, hfailed,
          ?_⟩
        rw [hlog, hstep]
        simp
    · -- what comes behind the first write error is not offered
      rw [write_failed lib hfailed]
      exact .inr ⟨[], c, chunks, ret, rfl, hret, hfailed, hstep⟩

/-- The last event of a file. -/
theorem flash_last (s : WebUpdateService) (p : Part)
    (hwrong : s.wrongFile = true → s.failed = true) :
    let s' := s.handleUploadData lib p.last
    (s.failed = true → s'.updateLog = p.abortCall ++ s.updateLog) ∧
      (s.failed = false → p.aborted = true → s'.updateLog = .abort :: s.updateLog) ∧
      (s.failed = false → p.aborted = false →
        ∃ ok, s'.updateLog = .end_ ok :: s.updateLog) := by
  have hnamed : s.failed = false → s.wrongFile = false := by
    intro hok
    rw [← Bool.not_eq_true]
    exact fun hw => Bool.false_ne_true (hok.symm.trans (hwrong hw))
  unfold Part.last Part.abortCall
  cases p.aborted with
  | true => exact ⟨fun _ => rfl, fun _ _ => rfl, fun _ hend => Bool.noConfusion hend⟩
  | false =>
    refine ⟨fun hfailed => ?_, fun _ hend => Bool.noConfusion hend, fun hok _ => ?_⟩
    · cases hw : s.wrongFile with
      | true => simp [handleUploadData, hw]
      | false => simp [handleUploadData, hw, hfailed]
    · refine ⟨lib.end_ s.updateLog, ?_⟩
      simp only [handleUploadData, hnamed hok, hok, Bool.false_eq_true, if_false]
      split <;> rfl

/-- The first event of a file. -/
theorem flash_start (s : WebUpdateService) (p : Part) :
    let s' := s.handleUploadData lib (.start p.filename)
    (p.named s.filePrefix = false ∧ s'.failed = true ∧ s'.wrongFile = true ∧
        s'.updateLog = s.updateLog) ∨
      p.named s.filePrefix = true ∧ s'.wrongFile = false ∧
        ∃ ok, s'.failed = !ok ∧ s'.updateLog = .begin updateSizeUnknown ok :: s.updateLog := by
  have hwrong : ({ s with uploading := true, failed := false, wrongFile := false }).wrongName
      p.filename = !p.named s.filePrefix := wrongName_eq s p
  cases hnamed : p.named s.filePrefix with
  | false => simp [handleUploadData, hwrong, hnamed]
  | true =>
    simp only [handleUploadData, hwrong, hnamed]
    cases lib.begin s.updateLog updateSizeUnknown <;> simp [logUpdate]

/-- **One file, one session.** -/
theorem upload_flash (store : Option StoreHooks) (s : WebUpdateService) (p : Part) :
    let s' := s.upload lib store .update p
    ∃ calls, FlashSession s.filePrefix p calls ∧
      s'.updateLog.reverse = s.updateLog.reverse ++ calls := by
  set s₁ := s.handleUploadData lib (.start p.filename) with hs₁
  set s₂ := (p.chunks.map UploadEvent.write).foldl (handleUploadData lib) s₁ with hs₂
  have hupload : s.upload lib store .update p = s₂.handleUploadData lib p.last :=
    upload_eq lib store .update s p
  have hwrong : s₂.wrongFile = s₁.wrongFile := writes_wrongFile lib s₁ p.chunks
  have habort : p.abortCall.reverse = p.abortCall := by
    unfold Part.abortCall
    split <;> rfl
  intro s'
  rw [show s' = s₂.handleUploadData lib p.last from hupload]
  have hguard : s₂.wrongFile = true → s₂.failed = true := by
    rw [hwrong]
    rcases flash_start lib s p with ⟨-, hfailed, -⟩ | ⟨-, hright, -⟩
    · rw [hs₂, write_failed lib hfailed]
      exact fun _ => hfailed
    · rw [hright]
      exact fun h => Bool.noConfusion h
  obtain ⟨hfail, habrt, hend⟩ := flash_last lib s₂ p hguard
  rcases flash_start lib s p with ⟨hnamed, hfailed, -, hlog⟩ | ⟨hnamed, hright, ok, hok, hlog⟩
  · -- another device's name: the library is not called
    have hsame : s₂ = s₁ := write_failed lib hfailed p.chunks
    refine ⟨_, .rejected hnamed, ?_⟩
    rw [hfail (hsame ▸ hfailed), hsame, hlog, List.reverse_append, habort]
  · cases ok with
    | false =>
      have hsame : s₂ = s₁ := write_failed lib hok p.chunks
      refine ⟨_, .notBegun hnamed, ?_⟩
      rw [hfail (hsame ▸ hok), hsame, hlog, List.reverse_append, habort]
      simp
    | true =>
      rcases flash_chunks lib hok p.chunks with ⟨hopen, hlog₂⟩ |
        ⟨good, bad, rest, ret, hsplit, hret, hfailed, hlog₂⟩
      · cases hab : p.aborted with
        | true =>
          refine ⟨_, .aborted hnamed hab, ?_⟩
          rw [habrt hopen hab, hlog₂, hlog]
          simp
        | false =>
          obtain ⟨ok, hlog₃⟩ := hend hopen hab
          refine ⟨_, .complete ok hnamed hab, ?_⟩
          rw [hlog₃, hlog₂, hlog]
          simp
      · refine ⟨_, .broken good bad rest ret hnamed hsplit hret, ?_⟩
        rw [hfail hfailed, hlog₂, hlog, List.reverse_append, habort]
        simp

/-! ### A run -/

variable (store : Option StoreHooks)

/-- What a service has behind it when it has seen the firmwares `ps`. -/
structure Flashed (filePrefix : String) (ps : List Part) (s : WebUpdateService) : Prop where
  named : s.filePrefix = filePrefix
  done : s.done = true ↔ .end_ true ∈ s.updateLog
  sessions : ∃ calls, List.Forall₂ (FlashSession filePrefix) ps calls ∧
    s.updateLog.reverse = calls.flatten

/-- Events leave the name of the device, and `done` says what it should. -/
theorem handleData_done (route : Route) {s : WebUpdateService}
    (h : s.done = true ↔ .end_ true ∈ s.updateLog) (e : UploadEvent) :
    (s.handleData lib store route e).filePrefix = s.filePrefix ∧
      ((s.handleData lib store route e).done = true ↔
        .end_ true ∈ (s.handleData lib store route e).updateLog) := by
  cases route with
  | update => exact ⟨handleUploadData_filePrefix lib s e, (handleUploadData_rule lib s e).done h⟩
  | store =>
    obtain ⟨hlog, hdone⟩ := handleStoreData_frame store s e
    refine ⟨?_, ?_⟩
    · cases store with
      | none => rfl
      | some hooks =>
        have hrule := handleStoreData_rule hooks s e
        show (s.handleStoreData (some hooks) e).filePrefix = s.filePrefix
        generalize s.handleStoreData (some hooks) e = s' at hrule
        cases hrule <;> rfl
    · show (s.handleStoreData store e).done = true ↔ _ ∈ (s.handleStoreData store e).updateLog
      rw [hlog, hdone]
      exact h

theorem foldl_handleData_done (route : Route) {s : WebUpdateService}
    (h : s.done = true ↔ .end_ true ∈ s.updateLog) (es : List UploadEvent) :
    (es.foldl (handleData lib store route) s).filePrefix = s.filePrefix ∧
      ((es.foldl (handleData lib store route) s).done = true ↔
        .end_ true ∈ (es.foldl (handleData lib store route) s).updateLog) := by
  induction es generalizing s with
  | nil => exact ⟨rfl, h⟩
  | cons e es ih =>
    obtain ⟨hnamed, hdone⟩ := handleData_done lib store route h e
    rw [List.foldl_cons, ← hnamed]
    exact ih hdone

theorem foldl_handleStoreData_log (s : WebUpdateService) (es : List UploadEvent) :
    (es.foldl (handleStoreData store) s).updateLog = s.updateLog := by
  induction es generalizing s with
  | nil => rfl
  | cons e es ih => rw [List.foldl_cons, ih, (handleStoreData_frame store s e).1]

theorem Flashed.upload {filePrefix : String} {ps : List Part} {s : WebUpdateService}
    (h : Flashed filePrefix ps s) (route : Route) (p : Part) :
    Flashed filePrefix (ps ++ (Request.mk route [p]).firmwares) (s.upload lib store route p) := by
  obtain ⟨hnamed, hdone⟩ := foldl_handleData_done lib store route h.done p.events
  obtain ⟨calls, hall, hlog⟩ := h.sessions
  refine ⟨hnamed.trans h.named, hdone, ?_⟩
  cases route with
  | store =>
    have hsame : (s.upload lib store .store p).updateLog = s.updateLog :=
      foldl_handleStoreData_log store s p.events
    refine ⟨calls, ?_, by rw [hsame, hlog]⟩
    show List.Forall₂ _ (ps ++ []) calls
    rwa [List.append_nil]
  | update =>
    obtain ⟨session, hsession, hnew⟩ := upload_flash lib store s p
    rw [h.named] at hsession
    refine ⟨calls ++ [session], List.rel_append hall (.cons hsession .nil), ?_⟩
    rw [hnew, hlog, List.flatten_append]
    simp

theorem Flashed.uploads {filePrefix : String} {ps : List Part} {s : WebUpdateService}
    (h : Flashed filePrefix ps s) (route : Route) (qs : List Part) :
    Flashed filePrefix (ps ++ (Request.mk route qs).firmwares)
      (s.uploads lib store route qs) := by
  induction qs generalizing ps s with
  | nil =>
    have hnone : (Request.mk route []).firmwares = [] := by
      cases route <;> rfl
    rw [hnone, List.append_nil]
    exact h
  | cons q qs ih =>
    have hsplit : (Request.mk route (q :: qs)).firmwares =
        (Request.mk route [q]).firmwares ++ (Request.mk route qs).firmwares := by
      cases route <;> rfl
    rw [hsplit, ← List.append_assoc]
    exact ih (h.upload lib store route q)

theorem Flashed.run {filePrefix : String} {ps : List Part} {s : WebUpdateService}
    (h : Flashed filePrefix ps s) (rs : List Request) :
    Flashed filePrefix (ps ++ rs.flatMap Request.firmwares) (s.run lib store rs) := by
  induction rs generalizing ps s with
  | nil =>
    rw [List.flatMap_nil, List.append_nil]
    exact h
  | cons r rs ih =>
    rw [List.flatMap_cons, ← List.append_assoc]
    refine ih ?_
    have hup : Flashed filePrefix (ps ++ r.firmwares) (s.uploads lib store r.route r.parts) :=
      h.uploads lib store r.route r.parts
    unfold request
    dsimp only
    split
    · obtain ⟨failed, wrongFile, heq⟩ :=
        handleDone_frame store r.route (s.uploads lib store r.route r.parts)
      rw [heq]
      exact ⟨hup.named, hup.done, hup.sessions⟩
    · exact hup

/-- **What is flashed is one posted file, whole**: after any requests and the
first files of another one, whatever library and hooks answer, the library was
called in one session for each firmware in the order of arrival; what its
successful ends committed are contents of different files, in this order, each
with a name that fits the device and none of them aborted; and `done` tells
whether there was one. -/
theorem update_installs_whole_files (label filePrefix : String) (rs : List Request)
    (route : Route) (ps : List Part)
    (hsize : ∀ r ∈ rs ++ [Request.mk route ps], ∀ p ∈ r.parts, ∀ c ∈ p.chunks,
      c.length < 2 ^ 32) :
    let s := (({ label := label, filePrefix := filePrefix } : WebUpdateService).run lib store
      rs).uploads lib store route ps
    let files := (rs ++ [Request.mk route ps]).flatMap Request.firmwares
    (∃ calls, List.Forall₂ (FlashSession filePrefix) files calls ∧
        s.updateLog.reverse = calls.flatten) ∧
      (commits s.updateLog).reverse.Sublist
        ((files.filter fun p => p.named filePrefix && !p.aborted).map fun p =>
          p.chunks.flatten) ∧
      (∀ data, committed s.updateLog = some data → ∃ p ∈ files,
        p.named filePrefix = true ∧ p.aborted = false ∧ p.chunks.flatten = data) ∧
      (s.done = true ↔ commits s.updateLog ≠ []) := by
  intro s files
  have hfresh : Flashed filePrefix []
      ({ label := label, filePrefix := filePrefix } : WebUpdateService) :=
    ⟨rfl, by simp, [], .nil, rfl⟩
  have h := (hfresh.run lib store rs).uploads lib store route ps
  have hfiles : [] ++ rs.flatMap Request.firmwares ++ (Request.mk route ps).firmwares = files := by
    show _ = (rs ++ [Request.mk route ps]).flatMap Request.firmwares
    rw [List.flatMap_append, List.flatMap_singleton, List.nil_append]
  rw [hfiles] at h
  obtain ⟨calls, hall, hlog⟩ := h.sessions
  have hfit : ∀ p ∈ files, ∀ c ∈ p.chunks, c.length < 2 ^ 32 := by
    intro p hp
    obtain ⟨r, hr, hp⟩ := List.mem_flatMap.1 hp
    obtain ⟨route, parts⟩ := r
    cases route with
    | store => exact absurd hp List.not_mem_nil
    | update => exact hsize _ hr p hp
  obtain ⟨new, hnew, hsub⟩ := commits_sessions hall hfit []
  have hcommits : commits s.updateLog = new := by
    rw [← List.reverse_reverse s.updateLog, hlog, ← List.append_nil calls.flatten.reverse, hnew]
    simp [commits]
  rw [← hcommits] at hsub
  refine ⟨⟨calls, hall, hlog⟩, hsub, fun data hdata => ?_,
    h.done.trans (commits_ne_nil_iff _).symm⟩
  have hmem : data ∈ (commits s.updateLog).reverse := by
    rw [committed_eq_head] at hdata
    exact List.mem_reverse.2 (List.mem_of_head? hdata)
  obtain ⟨p, hp, hcontent⟩ := List.mem_map.1 (hsub.subset hmem)
  obtain ⟨hp, hfits⟩ := List.mem_filter.1 hp
  simp only [Bool.and_eq_true, Bool.not_eq_true'] at hfits
  exact ⟨p, hp, hfits.1, hfits.2, hcontent⟩

/-- A firmware that fits, one for another device, and one that is aborted. -/
def threeFirmwares : List Request :=
  [⟨.update, [⟨"infinitag-station-v1.bin", [[1, 2], [3]], false⟩]⟩,
    ⟨.update, [⟨"infinitag-target-v1.bin", [[4]], false⟩]⟩,
    ⟨.update, [⟨"infinitag-station-v2.bin", [[5]], true⟩]⟩]

theorem update_installs_whole_files_three :
    let s := (({ label := "Station", filePrefix := "infinitag-station" } : WebUpdateService).run
      Watched.willing none threeFirmwares).uploads Watched.willing none .update []
    committed s.updateLog = some [1, 2, 3] ∧ commits s.updateLog ≠ [] := by
  have h := update_installs_whole_files Watched.willing none "Station" "infinitag-station"
    threeFirmwares .update [] (by simp [threeFirmwares])
  refine ⟨by decide +kernel, h.2.2.2.1 (by decide +kernel)⟩

end WebUpdateService

end InfinitagNow
