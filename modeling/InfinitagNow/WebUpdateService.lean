/-
InfinitagNow/WebUpdateService.lean

The upload pages of the update mode (`src/WebUpdateService.{h,cpp}`): a firmware
is posted to /update and flashed through the `Update` library, a device image is
posted to /store and handed to the store hooks.

The web server cuts each posted file into a start, chunks and an end, or an
abort when the client goes away (`Part`), and calls the handler of the route for
every one of them; the request is answered behind the last file, unless it was
aborted (`Request`).  Library and hooks are parameters that answer from the
calls made before, so that any sequence of answers is possible.

A `String` is a C string here: its characters are bytes, none of them NUL.
-/
import InfinitagNow.UpdateSession

namespace InfinitagNow

/-! ### The store hooks -/

/-- One call with its answer. -/
inductive HookCall
  | begin (filename : String) (ok : Bool)
  | write (data : List UInt8) (ok : Bool)
  | end_ (ok ret : Bool)
  deriving DecidableEq, Repr

/-- `StoreHooks`; each hook sees the calls made before it, newest first. -/
structure StoreHooks where
  begin : List HookCall → String → Bool
  write : List HookCall → List UInt8 → Bool
  end_ : List HookCall → Bool → Bool
  /-- may be null -/
  resultText : Option (List HookCall → String)

/-! ### What the web server delivers -/

/-- `HTTPUpload` with its status. -/
inductive UploadEvent
  | start (filename : String)
  | write (buf : List UInt8)
  | end_
  | aborted
  deriving DecidableEq, Repr

inductive Route
  | update | store
  deriving DecidableEq, Repr

/-- A posted file. -/
structure Part where
  filename : String
  chunks : List (List UInt8)
  aborted : Bool
  deriving DecidableEq, Repr

def Part.last (p : Part) : UploadEvent := if p.aborted then .aborted else .end_

def Part.events (p : Part) : List UploadEvent :=
  .start p.filename :: (p.chunks.map .write ++ [p.last])

structure Request where
  route : Route
  parts : List Part
  deriving DecidableEq, Repr

/-- Only a request that came through is answered. -/
def Request.completed (r : Request) : Bool := r.parts.all fun p => !p.aborted

structure Response where
  code : ℕ
  contentType : String
  content : String
  deriving DecidableEq, Repr

/-! ### The service -/

structure WebUpdateService where
  label : String := "?"
  filePrefix : String := ""
  uploading : Bool := false
  done : Bool := false
  failed : Bool := false
  /-- rejected because the file name did not match -/
  wrongFile : Bool := false
  /-- `begin` succeeded for this upload -/
  storeActive : Bool := false
  /-- last store upload accepted -/
  storeOk : Bool := false
  /-- the calls to the `Update` library, newest first -/
  updateLog : List UpdateCall := []
  hookLog : List HookCall := []
  deriving DecidableEq, Repr

namespace WebUpdateService

/-- UPDATE_SIZE_UNKNOWN -/
def updateSizeUnknown : UInt32 := 0xFFFFFFFF

/-- `strncmp(filename, prefix, strlen(prefix)) == 0` -/
def startsWith (filename filePrefix : String) : Bool :=
  filePrefix.toList.isPrefixOf filename.toList

/-- The device-type guard. -/
def wrongName (s : WebUpdateService) (filename : String) : Bool :=
  s.filePrefix ≠ "" && !startsWith filename s.filePrefix

def logUpdate (s : WebUpdateService) (c : UpdateCall) : WebUpdateService :=
  { s with updateLog := c :: s.updateLog }

def logHook (s : WebUpdateService) (c : HookCall) : WebUpdateService :=
  { s with hookLog := c :: s.hookLog }

section Handlers

variable (lib : UpdateLib) (store : Option StoreHooks)

def handleUploadData (s : WebUpdateService) : UploadEvent → WebUpdateService
  | .start filename =>
    let s := { s with uploading := true, failed := false, wrongFile := false }
    if s.wrongName filename then { s with failed := true, wrongFile := true }
    else
      let ok := lib.begin s.updateLog updateSizeUnknown
      let s := s.logUpdate (.begin updateSizeUnknown ok)
      if ok then s else { s with failed := true }
  | .write buf =>
    if s.failed then s
    else
      let n := UInt32.ofNat buf.length
      let ret := lib.write s.updateLog buf n
      let s := s.logUpdate (.write buf n ret)
      if ret ≠ n then { s with failed := true } else s
  | .end_ =>
    -- never reached `begin`
    if s.wrongFile then { s with uploading := false }
    else if s.failed then { s with failed := true, uploading := false }
    else
      let ok := lib.end_ s.updateLog
      let s := s.logUpdate (.end_ ok)
      if ok then { s with done := true, uploading := false }
      else { s with failed := true, uploading := false }
  | .aborted => { s.logUpdate .abort with uploading := false, failed := true }

/-- `_store->end(ok)`, which ends the session. -/
def endStore (hooks : StoreHooks) (s : WebUpdateService) (ok : Bool) : WebUpdateService :=
  { s.logHook (.end_ ok (hooks.end_ s.hookLog ok)) with storeActive := false }

def handleStoreData (s : WebUpdateService) (e : UploadEvent) : WebUpdateService :=
  match store with
  | none => s
  | some hooks =>
    match e with
    | .start filename =>
      let ok := hooks.begin s.hookLog filename
      { s.logHook (.begin filename ok) with uploading := true, storeOk := false, storeActive := ok }
    | .write buf =>
      if s.storeActive then
        let ok := hooks.write s.hookLog buf
        let s := s.logHook (.write buf ok)
        if ok then s else s.endStore hooks false
      else s
    | .end_ =>
      if s.storeActive then
        { s.endStore hooks true with storeOk := hooks.end_ s.hookLog true, uploading := false }
      else { s with uploading := false }
    | .aborted =>
      if s.storeActive then { s.endStore hooks false with uploading := false }
      else { s with uploading := false }

def resultPage (title body : String) (backLink : Bool) : String :=
  "<!DOCTYPE html><html><head><meta charset='utf-8'>" ++
  "<meta name='viewport' content='width=device-width,initial-scale=1'>" ++
  "<style>body\x7bmargin:0;background:#0c0e0f;font-family:Helvetica,Arial," ++
  "sans-serif;color:#e8eaea;font-size:14px\x7d.wrap\x7bmax-width:440px;" ++
  "margin:40px auto;padding:16px\x7d.card\x7bbackground:#131516;border:1px " ++
  "solid #23282a;border-radius:8px;padding:24px 28px\x7d.bar\x7bheight:5px;" ++
  "background:linear-gradient(90deg,#79C8B4,#03817D);border-radius:" ++
  "8px 8px 0 0;margin:-24px -28px 18px\x7dh2\x7bfont-size:15px;color:#fff;" ++
  "margin:0 0 10px\x7dp\x7bcolor:#8a9092;line-height:1.5\x7da\x7bcolor:#4db3a2;" ++
  "text-decoration:none\x7d</style></head><body><div class='wrap'>" ++
  "<div class='card'><div class='bar'></div><h2>" ++ title ++ "</h2><p>" ++ body ++ "</p>" ++
  (if backLink then "<p><a href='/'>&larr; Zur&uuml;ck</a></p>" else "") ++
  "</div></div></body></html>"

def handleStoreDone (s : WebUpdateService) : Response :=
  let info := match store.bind StoreHooks.resultText with
    | some resultText => resultText s.hookLog
    | none => ""
  if s.storeOk then ⟨200, "text/html", resultPage "Image gespeichert" info true⟩
  else
    let body := "Kein g&uuml;ltiges Infinitag-Firmware-Image (Marker fehlt) oder " ++
      "Speicherfehler. " ++ info
    ⟨400, "text/html", resultPage "Image abgelehnt" body true⟩

def handleUploadDone (s : WebUpdateService) : WebUpdateService × Response :=
  if s.done then
    let body := "Das Ger&auml;t startet jetzt automatisch neu &ndash; " ++
      "dieses WLAN verschwindet dabei und die Verbindung " ++
      "trennt sich von selbst. Diese Seite kann einfach " ++ "geschlossen werden."
    (s, ⟨200, "text/html", resultPage "Update OK" body false⟩)
  else if s.wrongFile then
    let body := "Dieses Ger&auml;t ist <b>" ++ s.label ++ "</b> und erwartet <b>" ++
      s.filePrefix ++ "-vX.Y.Z.bin</b>. Es wurde nichts geflasht &ndash; bitte die " ++
      "passende Datei w&auml;hlen."
    -- allow a retry without reboot
    ({ s with wrongFile := false, failed := false },
      ⟨400, "text/html", resultPage "Falsche Firmware-Datei" body true⟩)
  else
    ({ s with failed := false },
      ⟨500, "text/html", resultPage "Update fehlgeschlagen"
        "Alte Firmware bleibt aktiv. Bitte erneut versuchen." true⟩)

/-! ### Requests -/

def handleData (route : Route) (s : WebUpdateService) (e : UploadEvent) : WebUpdateService :=
  match route with
  | .update => s.handleUploadData lib e
  | .store => s.handleStoreData store e

def handleDone (route : Route) (s : WebUpdateService) : WebUpdateService × Response :=
  match route with
  | .update => s.handleUploadDone
  | .store => (s, s.handleStoreDone store)

/-- The events of one file. -/
def upload (route : Route) (s : WebUpdateService) (p : Part) : WebUpdateService :=
  p.events.foldl (handleData lib store route) s

def uploads (route : Route) (s : WebUpdateService) (ps : List Part) : WebUpdateService :=
  ps.foldl (upload lib store route) s

def request (s : WebUpdateService) (r : Request) : WebUpdateService :=
  let s := s.uploads lib store r.route r.parts
  if r.completed then (s.handleDone store r.route).1 else s

def run (s : WebUpdateService) (rs : List Request) : WebUpdateService :=
  rs.foldl (request lib store) s

end Handlers

theorem last_eq (p : Part) : p.last = .aborted ∨ p.last = .end_ := by
  unfold Part.last
  cases p.aborted with
  | true => exact .inl rfl
  | false => exact .inr rfl

/-- A file is its start, its chunks and its end. -/
theorem upload_eq (lib : UpdateLib) (store : Option StoreHooks) (route : Route)
    (s : WebUpdateService) (p : Part) :
    s.upload lib store route p =
      ((p.chunks.map UploadEvent.write).foldl (handleData lib store route)
        (s.handleData lib store route (.start p.filename))).handleData lib store route p.last := by
  unfold upload Part.events
  rw [List.foldl_cons, List.foldl_append, List.foldl_cons, List.foldl_nil]

/-! ### What one event can do -/

/-- One constructor for each path of `handleUploadData`. -/
inductive UploadRule (s : WebUpdateService) : UploadEvent → WebUpdateService → Prop
  | wrongName (filename : String) :
    UploadRule s (.start filename) { s with uploading := true, failed := true, wrongFile := true }
  | begun (filename : String) :
    UploadRule s (.start filename)
      { s with
        uploading := true
        failed := false
        wrongFile := false
        updateLog := .begin updateSizeUnknown true :: s.updateLog }
  | notBegun (filename : String) :
    UploadRule s (.start filename)
      { s with
        uploading := true
        failed := true
        wrongFile := false
        updateLog := .begin updateSizeUnknown false :: s.updateLog }
  | skipped (buf : List UInt8) (h : s.failed = true) : UploadRule s (.write buf) s
  | written (buf : List UInt8) (h : s.failed = false) :
    UploadRule s (.write buf)
      { s with
        updateLog := .write buf (UInt32.ofNat buf.length) (UInt32.ofNat buf.length) ::
          s.updateLog }
  | notWritten (buf : List UInt8) (ret : UInt32) :
    UploadRule s (.write buf)
      { s with
        failed := true
        updateLog := .write buf (UInt32.ofNat buf.length) ret :: s.updateLog }
  | dropped (h : s.wrongFile = true ∨ s.failed = true) :
    UploadRule s .end_ { s with uploading := false }
  | flashed (h : s.failed = false) :
    UploadRule s .end_
      { s with uploading := false, done := true, updateLog := .end_ true :: s.updateLog }
  | notFlashed :
    UploadRule s .end_
      { s with uploading := false, failed := true, updateLog := .end_ false :: s.updateLog }
  | aborted :
    UploadRule s .aborted
      { s with uploading := false, failed := true, updateLog := .abort :: s.updateLog }

theorem handleUploadData_rule (lib : UpdateLib) (s : WebUpdateService) (e : UploadEvent) :
    UploadRule s e (s.handleUploadData lib e) := by
  cases e with
  | start filename =>
    dsimp only [handleUploadData]
    split
    · exact .wrongName filename
    · split
      · rename_i hok
        rw [hok]
        exact .begun filename
      · rename_i hok
        rw [Bool.eq_false_iff.2 hok]
        exact .notBegun filename
  | write buf =>
    dsimp only [handleUploadData]
    split
    · rename_i hfailed
      exact .skipped buf hfailed
    · rename_i hfailed
      split
      · exact .notWritten buf _
      · rename_i hret
        rw [not_not.1 hret]
        exact .written buf (Bool.eq_false_iff.2 hfailed)
  | end_ =>
    dsimp only [handleUploadData]
    split
    · rename_i hwrong
      exact .dropped (.inl hwrong)
    · split
      · rename_i hfailed
        rw [← hfailed]
        exact .dropped (.inr hfailed)
      · rename_i hfailed
        split
        · rename_i hok
          rw [hok]
          exact .flashed (Bool.eq_false_iff.2 hfailed)
        · rename_i hok
          rw [Bool.eq_false_iff.2 hok]
          exact .notFlashed
  | aborted => exact .aborted

/-- One constructor for each path of `handleStoreData`, with hooks. -/
inductive StoreRule (s : WebUpdateService) : UploadEvent → WebUpdateService → Prop
  | begun (filename : String) (ok : Bool) :
    StoreRule s (.start filename)
      { s with
        uploading := true
        storeOk := false
        storeActive := ok
        hookLog := .begin filename ok :: s.hookLog }
  | skipped (buf : List UInt8) (h : s.storeActive = false) : StoreRule s (.write buf) s
  | written (buf : List UInt8) (h : s.storeActive = true) :
    StoreRule s (.write buf) { s with hookLog := .write buf true :: s.hookLog }
  | notWritten (buf : List UInt8) (ret : Bool) (h : s.storeActive = true) :
    StoreRule s (.write buf)
      { s with
        storeActive := false
        hookLog := .end_ false ret :: .write buf false :: s.hookLog }
  | dropped (e : UploadEvent) (he : e = .end_ ∨ e = .aborted) (h : s.storeActive = false) :
    StoreRule s e { s with uploading := false }
  | ended (ret : Bool) (h : s.storeActive = true) :
    StoreRule s .end_
      { s with
        uploading := false
        storeOk := ret
        storeActive := false
        hookLog := .end_ true ret :: s.hookLog }
  | aborted (ret : Bool) (h : s.storeActive = true) :
    StoreRule s .aborted
      { s with
        uploading := false
        storeActive := false
        hookLog := .end_ false ret :: s.hookLog }

theorem handleStoreData_rule (hooks : StoreHooks) (s : WebUpdateService) (e : UploadEvent) :
    StoreRule s e (s.handleStoreData (some hooks) e) := by
  cases e with
  | start filename => exact .begun filename _
  | write buf =>
    dsimp only [handleStoreData]
    split
    · rename_i hact
      split
      · rename_i hok
        rw [hok]
        exact .written buf hact
      · rename_i hok
        rw [Bool.eq_false_iff.2 hok]
        exact .notWritten buf _ hact
    · rename_i hact
      exact .skipped buf (Bool.eq_false_iff.2 hact)
  | end_ =>
    dsimp only [handleStoreData]
    split
    · rename_i hact
      exact .ended _ hact
    · rename_i hact
      exact .dropped _ (.inl rfl) (Bool.eq_false_iff.2 hact)
  | aborted =>
    dsimp only [handleStoreData]
    split
    · rename_i hact
      exact .aborted _ hact
    · rename_i hact
      exact .dropped _ (.inr rfl) (Bool.eq_false_iff.2 hact)

section Rules

variable {s s' : WebUpdateService} {e : UploadEvent}

/-- A firmware leaves the image side alone. -/
theorem UploadRule.frame (h : UploadRule s e s') :
    s'.hookLog = s.hookLog ∧ s'.storeActive = s.storeActive ∧ s'.storeOk = s.storeOk := by
  cases h <;> exact ⟨rfl, rfl, rfl⟩

/-- Its last event ends the upload. -/
theorem UploadRule.uploading (h : UploadRule s e s') (he : e = .aborted ∨ e = .end_) :
    s'.uploading = false := by
  cases h with
  | dropped | flashed | notFlashed | aborted => rfl
  | wrongName | begun | notBegun | skipped | written | notWritten =>
    rcases he with he | he
    · cases he
    · cases he

/-- `done` is set when `end(true)` succeeds, and only then. -/
theorem UploadRule.done (h : UploadRule s e s') (hs : s.done = true ↔ .end_ true ∈ s.updateLog) :
    s'.done = true ↔ .end_ true ∈ s'.updateLog := by
  cases h with
  | wrongName | skipped | dropped => exact hs
  | begun | notBegun | written | notWritten | notFlashed | aborted => simpa using hs
  | flashed => exact iff_of_true rfl List.mem_cons_self

theorem UploadRule.flashed_mono (h : UploadRule s e s') (hs : .end_ true ∈ s.updateLog) :
    .end_ true ∈ s'.updateLog := by
  cases h with
  | wrongName | skipped | dropped => exact hs
  | begun | notBegun | written | notWritten | flashed | notFlashed | aborted =>
    exact List.mem_cons_of_mem _ hs

theorem UploadRule.unflashed (h : UploadRule s e s') (he : e ≠ .end_)
    (hs : .end_ true ∉ s.updateLog) : .end_ true ∉ s'.updateLog := by
  cases h with
  | wrongName | skipped => exact hs
  | begun | notBegun | written | notWritten | aborted => simpa using hs
  | dropped | flashed | notFlashed => exact absurd rfl he

theorem UploadRule.length_le (h : UploadRule s e s') :
    s'.updateLog.length ≤ s.updateLog.length + 1 := by
  cases h with
  | wrongName | skipped | dropped => exact Nat.le_succ _
  | begun | notBegun | written | notWritten | flashed | notFlashed | aborted => exact le_rfl

/-- As long as `failed` is unset the library was called and agreed. -/
theorem UploadRule.start_calls {filename : String} (h : UploadRule s (.start filename) s')
    (hok : s'.failed = false) : s'.updateLog = .begin updateSizeUnknown true :: s.updateLog := by
  cases h with
  | begun => rfl
  | wrongName | notBegun => exact Bool.noConfusion hok

theorem UploadRule.write_calls {buf : List UInt8} (h : UploadRule s (.write buf) s')
    (hok : s'.failed = false) :
    s.failed = false ∧ s'.updateLog =
      .write buf (UInt32.ofNat buf.length) (UInt32.ofNat buf.length) :: s.updateLog := by
  cases h with
  | written _ hs => exact ⟨hs, rfl⟩
  | skipped _ hs =>
    rw [hs] at hok
    exact Bool.noConfusion hok
  | notWritten => exact Bool.noConfusion hok

theorem UploadRule.end_calls (h : UploadRule s .end_ s') (hs : .end_ true ∉ s.updateLog)
    (hflashed : .end_ true ∈ s'.updateLog) :
    s.failed = false ∧ s'.updateLog = .end_ true :: s.updateLog := by
  cases h with
  | flashed hok => exact ⟨hok, rfl⟩
  | dropped => exact absurd hflashed hs
  | notFlashed =>
    refine absurd hflashed ?_
    simpa using hs

/-- An image leaves the firmware side alone. -/
theorem StoreRule.frame (h : StoreRule s e s') :
    s'.updateLog = s.updateLog ∧ s'.done = s.done := by
  cases h <;> exact ⟨rfl, rfl⟩

end Rules

theorem handleStoreData_frame (store : Option StoreHooks) (s : WebUpdateService)
    (e : UploadEvent) :
    (s.handleStoreData store e).updateLog = s.updateLog ∧
      (s.handleStoreData store e).done = s.done := by
  cases store with
  | none => exact ⟨rfl, rfl⟩
  | some hooks => exact (handleStoreData_rule hooks s e).frame

/-- An answer clears the flags of a failure, nothing else. -/
theorem handleDone_frame (store : Option StoreHooks) (route : Route) (s : WebUpdateService) :
    ∃ failed wrongFile,
      (s.handleDone store route).1 = { s with failed := failed, wrongFile := wrongFile } := by
  cases route with
  | store => exact ⟨s.failed, s.wrongFile, rfl⟩
  | update =>
    unfold handleDone handleUploadDone
    dsimp only
    split
    · exact ⟨s.failed, s.wrongFile, rfl⟩
    · split
      · exact ⟨false, false, rfl⟩
      · exact ⟨false, s.wrongFile, rfl⟩

end WebUpdateService

end InfinitagNow
