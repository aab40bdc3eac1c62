/-
InfinitagNow/StoreSessions.lean

The store hooks are used one session at a time (`handleStoreData` of
`src/WebUpdateService.cpp`).

`Session p calls` says which calls the posted file `p` may cause.  The flag
`storeActive` is what carries the proof: it is set between files never, and
inside a file as long as the session is open (`write_chunks`).  Each file
appends one session to the log (`upload_store`), a firmware and the answers to
requests none, and so the log of a whole run is a list of sessions, one for each
file in the order of arrival (`store_sessions`).
-/
import InfinitagNow.WebUpdateService

namespace InfinitagNow

/-- The calls of one posted file, oldest first. -/
inductive Session (p : Part) : List HookCall → Prop
  | rejected : Session p [.begin p.filename false]
  /-- All chunks were accepted; `end` says whether the upload came through. -/
  | complete (ret : Bool) :
    Session p (.begin p.filename true :: (p.chunks.map fun c => .write c true) ++
      [.end_ (!p.aborted) ret])
  /-- `bad` was not accepted, what came behind it was not offered. -/
  | broken (good : List (List UInt8)) (bad : List UInt8) (rest : List (List UInt8)) (ret : Bool)
    (h : p.chunks = good ++ bad :: rest) :
    Session p (.begin p.filename true :: (good.map fun c => .write c true) ++
      [.write bad false, .end_ false ret])

/-- The files that were posted to /store. -/
def Request.images (r : Request) : List Part :=
  match r.route with
  | .update => []
  | .store => r.parts

namespace WebUpdateService

variable (lib : UpdateLib) (hooks : StoreHooks)

/-! ### One file -/

/-- An open session takes the chunk, or is ended by it. -/
theorem StoreRule.write_open {s s' : WebUpdateService} {c : List UInt8}
    (h : StoreRule s (.write c) s') (hact : s.storeActive = true) :
    s'.storeActive = true ∧ s'.hookLog = .write c true :: s.hookLog ∨
      s'.storeActive = false ∧
        ∃ ret, s'.hookLog = .end_ false ret :: .write c false :: s.hookLog := by
  cases h with
  | written => exact .inl ⟨hact, rfl⟩
  | notWritten _ ret => exact .inr ⟨rfl, ret, rfl⟩
  | skipped _ hclosed => exact Bool.noConfusion (hclosed.symm.trans hact)
  | dropped _ he => rcases he with he | he <;> exact nomatch he

theorem StoreRule.write_closed {s s' : WebUpdateService} {c : List UInt8}
    (h : StoreRule s (.write c) s') (hact : s.storeActive = false) : s' = s := by
  cases h with
  | skipped => rfl
  | written _ hopen | notWritten _ _ hopen => exact Bool.noConfusion (hact.symm.trans hopen)
  | dropped _ he => rcases he with he | he <;> exact nomatch he

/-- The last event of a file closes a session that is open, and does nothing else. -/
theorem StoreRule.last {s s' : WebUpdateService} {p : Part} (h : StoreRule s p.last s') :
    s'.storeActive = false ∧ s'.uploading = false ∧
      (s.storeActive = false → s'.hookLog = s.hookLog) ∧
      (s.storeActive = true → ∃ ret, s'.hookLog = .end_ (!p.aborted) ret :: s.hookLog) := by
  unfold Part.last at h
  cases hab : p.aborted with
  | true =>
    rw [hab, if_pos rfl] at h
    cases h with
    | dropped _ _ hact =>
      exact ⟨hact, rfl, fun _ => rfl, fun hopen => Bool.noConfusion (hact.symm.trans hopen)⟩
    | aborted ret hact =>
      exact ⟨rfl, rfl, fun hclosed => Bool.noConfusion (hclosed.symm.trans hact),
        fun _ => ⟨ret, rfl⟩⟩
  | false =>
    rw [hab, if_neg Bool.false_ne_true] at h
    cases h with
    | dropped _ _ hact =>
      exact ⟨hact, rfl, fun _ => rfl, fun hopen => Bool.noConfusion (hact.symm.trans hopen)⟩
    | ended ret hact =>
      exact ⟨rfl, rfl, fun hclosed => Bool.noConfusion (hclosed.symm.trans hact),
        fun _ => ⟨ret, rfl⟩⟩

/-- A session that is not open stays so until the next file. -/
theorem write_closed {s : WebUpdateService} (h : s.storeActive = false)
    (chunks : List (List UInt8)) :
    (chunks.map .write).foldl (handleStoreData (some hooks)) s = s := by
  induction chunks with
  | nil => rfl
  | cons c chunks ih =>
    rw [List.map_cons, List.foldl_cons, (handleStoreData_rule hooks s (.write c)).write_closed h,
      ih]

/-- The chunks of an open session: all accepted, or up to the first that is not. -/
theorem write_chunks {s : WebUpdateService} (h : s.storeActive = true)
    (chunks : List (List UInt8)) :
    let s' := (chunks.map .write).foldl (handleStoreData (some hooks)) s
    (s'.storeActive = true ∧
        s'.hookLog = (chunks.map fun c => HookCall.write c true).reverse ++ s.hookLog) ∨
      ∃ good bad rest ret, chunks = good ++ bad :: rest ∧ s'.storeActive = false ∧
        s'.hookLog = .end_ false ret :: .write bad false ::
          ((good.map fun c => HookCall.write c true).reverse ++ s.hookLog) := by
  induction chunks generalizing s with
  | nil => exact .inl ⟨h, rfl⟩
  | cons c chunks ih =>
    rw [List.map_cons, List.foldl_cons]
    rcases (handleStoreData_rule hooks s (.write c)).write_open h with ⟨hopen, hstep⟩ |
      ⟨hclosed, ret, hstep⟩
    · rcases ih hopen with ⟨hact, hlog⟩ | ⟨good, bad, rest, ret, hsplit, hact, hlog⟩
      · refine .inl ⟨hact, ?_⟩
        rw [hlog, hstep]
        simp
      · refine .inr ⟨c :: good, bad, rest, ret, by rw [hsplit, List.cons_append], hact, ?_⟩
        rw [hlog, hstep]
        simp
    · -- the first write error ends the session
      rw [write_closed hooks hclosed]
      exact .inr ⟨[], c, chunks, ret, rfl, hclosed, hstep⟩

/-- **One file, one session.** -/
theorem upload_store (s : WebUpdateService) (p : Part) :
    let s' := s.upload lib (some hooks) .store p
    s'.storeActive = false ∧ s'.uploading = false ∧
      ∃ calls, Session p calls ∧ s'.hookLog.reverse = s.hookLog.reverse ++ calls := by
  set s₁ := s.handleStoreData (some hooks) (.start p.filename) with hs₁
  set s₂ := (p.chunks.map UploadEvent.write).foldl (handleStoreData (some hooks)) s₁ with hs₂
  have hupload : s.upload lib (some hooks) .store p = s₂.handleStoreData (some hooks) p.last :=
    upload_eq lib (some hooks) .store s p
  have hlog₁ : s₁.hookLog = .begin p.filename s₁.storeActive :: s.hookLog := rfl
  intro s'
  rw [show s' = s₂.handleStoreData (some hooks) p.last from hupload]
  obtain ⟨hclosed, hup, hidle, hend⟩ := (handleStoreData_rule hooks s₂ p.last).last
  cases hact : s₁.storeActive with
  | false =>
    have hsame : s₂ = s₁ := write_closed hooks hact p.chunks
    refine ⟨hclosed, hup, _, .rejected, ?_⟩
    rw [hidle (hsame ▸ hact), hsame, hlog₁, hact, List.reverse_cons]
  | true =>
    rcases write_chunks hooks hact p.chunks with ⟨hopen, hlog₂⟩ |
      ⟨good, bad, rest, ret, hsplit, hopen, hlog₂⟩
    · obtain ⟨ret, hlog⟩ := hend hopen
      refine ⟨hclosed, hup, _, .complete ret, ?_⟩
      rw [hlog, hlog₂, hlog₁, hact]
      simp
    · refine ⟨hclosed, hup, _, .broken good bad rest ret hsplit, ?_⟩
      rw [hidle hopen, hlog₂, hlog₁, hact]
      simp

/-! ### A run -/

/-- Events of a firmware leave the image side alone. -/
theorem foldl_handleUploadData_frame (s : WebUpdateService) (es : List UploadEvent) :
    (es.foldl (handleUploadData lib) s).hookLog = s.hookLog ∧
      (es.foldl (handleUploadData lib) s).storeActive = s.storeActive := by
  induction es generalizing s with
  | nil => exact ⟨rfl, rfl⟩
  | cons e es ih =>
    obtain ⟨hlog, hact, -⟩ := (handleUploadData_rule lib s e).frame
    rw [List.foldl_cons, ← hlog, ← hact]
    exact ih _

theorem upload_update (s : WebUpdateService) (p : Part) :
    let s' := s.upload lib (some hooks) .update p
    s'.storeActive = s.storeActive ∧ s'.uploading = false ∧ s'.hookLog = s.hookLog := by
  obtain ⟨hlog, hact⟩ := foldl_handleUploadData_frame lib s p.events
  refine ⟨hact, ?_, hlog⟩
  show (s.upload lib (some hooks) .update p).uploading = false
  rw [upload_eq]
  exact (handleUploadData_rule lib _ p.last).uploading (last_eq p)

/-- What a service has behind it when it has seen the images `ps`. -/
structure Served (ps : List Part) (s : WebUpdateService) : Prop where
  closed : s.storeActive = false
  still : s.uploading = false
  sessions : ∃ calls, List.Forall₂ Session ps calls ∧ s.hookLog.reverse = calls.flatten

theorem Served.upload {ps : List Part} {s : WebUpdateService} (h : Served ps s) (route : Route)
    (p : Part) :
    Served (ps ++ (Request.mk route [p]).images) (s.upload lib (some hooks) route p) := by
  obtain ⟨calls, hall, hlog⟩ := h.sessions
  cases route with
  | update =>
    obtain ⟨hact, hup, hsame⟩ := upload_update lib hooks s p
    refine ⟨hact.trans h.closed, hup, calls, ?_, ?_⟩
    · show List.Forall₂ Session (ps ++ []) calls
      rwa [List.append_nil]
    · rw [hsame, hlog]
  | store =>
    obtain ⟨hact, hup, session, hsession, hnew⟩ := upload_store lib hooks s p
    refine ⟨hact, hup, calls ++ [session], ?_, ?_⟩
    · exact List.rel_append hall (.cons hsession .nil)
    · rw [hnew, hlog, List.flatten_append]
      simp

theorem Served.uploads {ps : List Part} {s : WebUpdateService} (h : Served ps s) (route : Route)
    (qs : List Part) :
    Served (ps ++ (Request.mk route qs).images) (s.uploads lib (some hooks) route qs) := by
  induction qs generalizing ps s with
  | nil =>
    have hnone : (Request.mk route []).images = [] := by
      cases route <;> rfl
    rw [hnone, List.append_nil]
    exact h
  | cons q qs ih =>
    have hsplit : (Request.mk route (q :: qs)).images =
        (Request.mk route [q]).images ++ (Request.mk route qs).images := by
      cases route <;> rfl
    rw [hsplit, ← List.append_assoc]
    exact ih (h.upload lib hooks route q)

theorem Served.request {ps : List Part} {s : WebUpdateService} (h : Served ps s) (r : Request) :
    Served (ps ++ r.images) (s.request lib (some hooks) r) := by
  have hup : Served (ps ++ r.images) (s.uploads lib (some hooks) r.route r.parts) :=
    h.uploads lib hooks r.route r.parts
  unfold WebUpdateService.request
  dsimp only
  split
  · obtain ⟨failed, wrongFile, heq⟩ :=
      handleDone_frame (some hooks) r.route (s.uploads lib (some hooks) r.route r.parts)
    rw [heq]
    exact ⟨hup.closed, hup.still, hup.sessions⟩
  · exact hup

theorem Served.run {ps : List Part} {s : WebUpdateService} (h : Served ps s) (rs : List Request) :
    Served (ps ++ rs.flatMap Request.images) (s.run lib (some hooks) rs) := by
  induction rs generalizing ps s with
  | nil =>
    rw [List.flatMap_nil, List.append_nil]
    exact h
  | cons r rs ih =>
    rw [List.flatMap_cons, ← List.append_assoc]
    exact ih (h.request lib hooks r)

/-- **The store hooks are used one session at a time**: after any requests and
the first files `ps` of another one, the calls are one session for each image in
the order of arrival, none is open, and no upload is active. -/
theorem store_sessions (label filePrefix : String) (rs : List Request) (route : Route)
    (ps : List Part) :
    let s := (({ label := label, filePrefix := filePrefix } : WebUpdateService).run lib (some hooks)
      rs).uploads lib (some hooks) route ps
    (∃ calls, List.Forall₂ Session ((rs ++ [Request.mk route ps]).flatMap Request.images) calls ∧
        s.hookLog.reverse = calls.flatten) ∧
      s.storeActive = false ∧ s.uploading = false := by
  intro s
  have hfresh : Served [] ({ label := label, filePrefix := filePrefix } : WebUpdateService) :=
    ⟨rfl, rfl, [], .nil, rfl⟩
  have h := (hfresh.run lib hooks rs).uploads lib hooks route ps
  have himages : (rs ++ [Request.mk route ps]).flatMap Request.images =
      [] ++ rs.flatMap Request.images ++ (Request.mk route ps).images := by
    rw [List.flatMap_append, List.flatMap_singleton, List.nil_append]
  rw [himages]
  exact ⟨h.sessions, h.closed, h.still⟩

end WebUpdateService

end InfinitagNow
