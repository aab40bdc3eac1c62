/-
InfinitagNow/PushVerdict.lean

What the sender's final state says about what was heard.

Next to the state goes the history of the session: the acks that came, the
windows they report done, the timeouts since the last one.  `Orderly` ties what
was sent to it, `Counted` the retries, `Caused` the final state; each is
extended by the last event of a run.  Nothing is assumed about the device, the
read callback or the clock.
-/
import InfinitagNow.PushAnswers

namespace InfinitagNow

namespace EspNowPushSender

variable {clock : ℕ → UInt32} {s s' s₁ : EspNowPushSender} {mac : Mac} {a : PushArgs}

/-! ### The history -/

/-- The ack an event brings. -/
def ackOf (mac : Mac) : Event → Option PushAck
  | .control rx => if IsAck mac rx then some (decodePushAck rx.pkt.payload) else none
  | _ => none

/-- The acks of the device among some events, oldest first. -/
def acksHeard (mac : Mac) (evs : List Event) : List PushAck := evs.filterMap (ackOf mac)

/-- The window an ack reports done. -/
def doneWindow (ack : PushAck) : Option ℕ :=
  if ack.status = pushAckWindow ∧ ack.missing = 0 then some ack.window.toNat else none

/-- The windows reported done, in the order of the reports. -/
def windowsDone (mac : Mac) (evs : List Event) : List ℕ :=
  (acksHeard mac evs).filterMap doneWindow

theorem acksHeard_append (mac : Mac) (evs more : List Event) :
    acksHeard mac (evs ++ more) = acksHeard mac evs ++ acksHeard mac more :=
  List.filterMap_append

theorem windowsDone_append (mac : Mac) (evs more : List Event) :
    windowsDone mac (evs ++ more) = windowsDone mac evs ++ windowsDone mac more := by
  rw [windowsDone, acksHeard_append, List.filterMap_append]
  rfl

theorem windowsDone_sublist (mac : Mac) (evs more : List Event) :
    (windowsDone mac evs).Sublist (windowsDone mac (evs ++ more)) := by
  rw [windowsDone_append]
  exact List.sublist_append_left _ _

theorem mem_acksHeard_last {rx : RxPacket} (hack : IsAck mac rx) (evs : List Event) :
    decodePushAck rx.pkt.payload ∈ acksHeard mac (evs ++ [.control rx]) := by
  rw [acksHeard_append]
  exact List.mem_append_right _ (by simp [acksHeard, ackOf, hack])

theorem mem_acksHeard_append {ack : PushAck} {evs : List Event} (h : ack ∈ acksHeard mac evs)
    (more : List Event) : ack ∈ acksHeard mac (evs ++ more) := by
  rw [acksHeard_append]
  exact List.mem_append_left _ h

/-- One more window is reported done. -/
theorem range_succ_sublist {window : ℕ} {rx : RxPacket} {evs : List Event}
    (h : (List.range window).Sublist (windowsDone mac evs)) (hack : IsAck mac rx)
    (hwin : (decodePushAck rx.pkt.payload).status = pushAckWindow)
    (hmissing : (decodePushAck rx.pkt.payload).missing = 0)
    (heq : (decodePushAck rx.pkt.payload).window.toNat = window) :
    (List.range (window + 1)).Sublist (windowsDone mac (evs ++ [.control rx])) := by
  have hlast : windowsDone mac [.control rx] = [window] := by
    simp [windowsDone, acksHeard, ackOf, doneWindow, hack, hwin, hmissing, heq]
  rw [windowsDone_append, hlast, List.range_succ]
  exact h.append (List.Sublist.refl _)

theorem timeouts_append (clock : ℕ → UInt32) (s : EspNowPushSender) (evs more : List Event) :
    timeouts clock s (evs ++ more) =
      timeouts clock s evs + timeouts clock (s.run clock evs) more := by
  induction evs generalizing s with
  | nil => simp [timeouts, run]
  | cons ev evs ih =>
    cases ev with
    | start b => exact ih (s.step clock (.start b))
    | control rx => exact ih (s.step clock (.control rx))
    | loop =>
      rw [List.cons_append, timeouts_loop, timeouts_loop, ih, Nat.add_assoc]
      rfl

/-! ### Frames of the current window -/

/-- A raw frame of the current window. -/
def OfWindow (s : EspNowPushSender) (o : Out) : Prop :=
  ∃ i data, i < 16 ∧ o = .raw s.mac (rawBytes (s.first + UInt32.ofNat i) data)

/-- The last call of the read callback came after the calls `old`, it was for a
frame of the current window, and the callback answered with another length than
asked for. -/
def ReadShort (old : List (UInt32 × UInt32)) (s : EspNowPushSender) : Prop :=
  ∃ read before idx, s.read = some read ∧ idx < s.totalFrames ∧
    idx.toNat / 16 = s.window.toNat ∧
    s.readCalls = old ++ before ++ [(idx * pushFrameData, frameLen s.size idx)] ∧
    (read (old ++ before).length (idx * pushFrameData) (frameLen s.size idx)).length ≠
      (frameLen s.size idx).toNat

theorem ReadShort.of_prefix {old old' : List (UInt32 × UInt32)} (h : s.ReadShort old')
    (hold : old <+: old') : s.ReadShort old := by
  obtain ⟨read, before, idx, hread, hidx, hwindow, hcalls, hshort⟩ := h
  obtain ⟨more, rfl⟩ := hold
  rw [List.append_assoc old more before] at hcalls hshort
  exact ⟨read, more ++ before, idx, hread, hidx, hwindow, hcalls, hshort⟩

/-- From `s` to `s'` frames of the current window were sent, all of them or
until the callback answered short. -/
structure Tries (s s' : EspNowPushSender) : Prop where
  out : ∃ new, s'.out = s.out ++ new ∧ ∀ o ∈ new, s.OfWindow o
  calls : s.readCalls <+: s'.readCalls
  state : s'.state = s.state ∨
    s'.state = .failed ∧ s'.finalStatus = pushAckFinalFlash ∧ s'.ReadShort s.readCalls

theorem sendFrames_tries (hread : s.read ≠ none) (mask : UInt32) {i n : ℕ} (hn : i + n ≤ 16) :
    s.Tries (s.sendFrames mask i n) := by
  induction n generalizing i s with
  | zero => exact ⟨⟨[], by simp [sendFrames], by simp⟩, List.prefix_rfl, .inl rfl⟩
  | succ n ih =>
    rw [sendFrames_succ]
    split
    · exact ih hread (by omega)
    · dsimp only
      split
      · exact ⟨⟨[], by simp, by simp⟩, List.prefix_rfl, .inl rfl⟩
      · rename_i hidx
        have hcalled : s.readCalls <+: (s.called (s.first + UInt32.ofNat i)).readCalls :=
          List.prefix_append _ _
        split
        · rename_i hshort
          obtain ⟨f, hf⟩ := Option.ne_none_iff_exists'.1 hread
          rw [readAt, hf] at hshort
          have hwindow : (s.first + UInt32.ofNat i).toNat / 16 = s.window.toNat := by
            rw [first, firstFrame_add_toNat s.window (by omega)]
            omega
          exact ⟨⟨[], by simp, by simp⟩, hcalled, .inr ⟨rfl, rfl, f, [], _, hf,
            UInt32.not_le.1 hidx, hwindow, by simp, by simpa using hshort⟩⟩
        · obtain ⟨⟨new, hout, hnew⟩, hcalls, hst⟩ := ih
            (s := (s.called (s.first + UInt32.ofNat i)).emit
              (.raw s.mac (rawBytes (s.first + UInt32.ofNat i)
                (s.readAt ((s.first + UInt32.ofNat i) * pushFrameData)
                  (frameLen s.size (s.first + UInt32.ofNat i)))))) hread (i := i + 1) (by omega)
          refine ⟨⟨_ :: new, by rw [hout, emit_out, List.append_assoc]; rfl, ?_⟩,
            hcalled.trans hcalls, ?_⟩
          · intro o ho
            rcases List.mem_cons.1 ho with rfl | ho
            · exact ⟨i, _, by omega, rfl⟩
            · exact hnew o ho
          · rcases hst with hkeep | ⟨hfailed, hstatus, hshort⟩
            · exact .inl hkeep
            · exact .inr ⟨hfailed, hstatus, hshort.of_prefix hcalled⟩

theorem sendWindow_tries (hread : s.read ≠ none) (mask : UInt32) : s.Tries (s.sendWindow mask) :=
  sendFrames_tries hread mask (by omega)

/-! ### What is sent -/

/-- What may go out when some windows have been reported done: a frame when all
windows before its own are, and END when all windows are. -/
def Justified (windows : UInt16) (done : List ℕ) : Out → Prop
  | .raw _ bytes => ∃ idx data, bytes = rawBytes idx data ∧
      (List.range (idx.toNat / 16)).Sublist done
  | .control _ pkt => pkt = endPacket → (List.range windows.toNat).Sublist done

theorem Justified.mono {windows : UInt16} {done done' : List ℕ} {o : Out}
    (h : Justified windows done o) (hle : done.Sublist done') : Justified windows done' o := by
  cases o with
  | control _ pkt => exact fun hend => (h hend).trans hle
  | raw _ bytes =>
    obtain ⟨idx, data, hbytes, hdone⟩ := h
    exact ⟨idx, data, hbytes, hdone.trans hle⟩

/-- The session reads the frames of the image it was started with. -/
def ReadsFrom (a : PushArgs) (s : EspNowPushSender) : Prop :=
  s.read = a.read ∧ s.size = a.size ∧ s.totalFrames = totalFramesOf a.size

/-- The session keeps to the order of the windows. -/
structure Orderly (a : PushArgs) (windows : UInt16) (old : List Out) (done : List ℕ)
    (s : EspNowPushSender) : Prop where
  source : s.ReadsFrom a
  count : s.windows = windows
  window : (List.range s.window.toNat).Sublist done
  ended : s.endSent = true → (List.range windows.toNat).Sublist done
  out : ∃ new, s.out = old ++ new ∧ ∀ o ∈ new, Justified windows done o

variable {windows : UInt16} {old : List Out} {done done' : List ℕ}

theorem Orderly.mono (h : s.Orderly a windows old done) (hle : done.Sublist done') :
    s.Orderly a windows old done' := by
  obtain ⟨new, hout, hnew⟩ := h.out
  exact ⟨h.source, h.count, h.window.trans hle, fun hend => (h.ended hend).trans hle, new, hout,
    fun o ho => (hnew o ho).mono hle⟩

theorem Orderly.of_eq (h : s.Orderly a windows old done)
    (hsource : s.ReadsFrom a → s'.ReadsFrom a := by simp [ReadsFrom])
    (hwindows : s'.windows = s.windows := by simp) (hwindow : s'.window = s.window := by simp)
    (hend : s'.endSent = s.endSent := by simp) (hout : s'.out = s.out := by simp) :
    s'.Orderly a windows old done :=
  ⟨hsource h.source, hwindows.trans h.count, hwindow ▸ h.window, fun he => h.ended (hend ▸ he),
    by rw [hout]; exact h.out⟩

/-- Something more goes out. -/
theorem Orderly.sends (h : s.Orderly a windows old done) {new : List Out}
    (hnew : ∀ o ∈ new, Justified windows done o) (hout : s'.out = s.out ++ new)
    (hsource : s.ReadsFrom a → s'.ReadsFrom a := by simp [ReadsFrom])
    (hwindows : s'.windows = s.windows := by simp) (hwindow : s'.window = s.window := by simp)
    (hend : s'.endSent = s.endSent := by simp) :
    s'.Orderly a windows old done := by
  obtain ⟨before, hbefore, hjust⟩ := h.out
  refine ⟨hsource h.source, hwindows.trans h.count, hwindow ▸ h.window,
    fun he => h.ended (hend ▸ he), before ++ new, by rw [hout, hbefore, List.append_assoc], ?_⟩
  intro o ho
  rcases List.mem_append.1 ho with ho | ho
  · exact hjust o ho
  · exact hnew o ho

/-- The frames of the current window may go out. -/
theorem Orderly.sendWindow (h : s.Orderly a windows old done) (hread : a.read ≠ none)
    (mask : UInt32) : (s.sendWindow mask).Orderly a windows old done := by
  have htransmits := (s.sendWindow_transmits mask).eq
  obtain ⟨new, hout, hnew⟩ := (sendWindow_tries (h.source.1 ▸ hread) mask).out
  refine h.sends ?_ hout (fun hsource => by rw [htransmits]; exact hsource) (by rw [htransmits])
    (by rw [htransmits]) (by rw [htransmits])
  intro o ho
  obtain ⟨i, data, hi, rfl⟩ := hnew o ho
  refine ⟨_, data, rfl, ?_⟩
  have hwindow : (s.first + UInt32.ofNat i).toNat / 16 = s.window.toNat := by
    rw [first, firstFrame_add_toNat s.window hi]
    omega
  rw [hwindow]
  exact h.window

theorem Orderly.sendBegin (h : s.Orderly a windows old done) :
    s.sendBegin.Orderly a windows old done := by
  have hout : s.sendBegin.out =
      s.out ++ [.control s.mac (beginPacket ⟨s.size, s.crc, s.maj, s.min, s.pat⟩)] := rfl
  refine h.sends ?_ hout
  intro o ho
  obtain rfl := List.mem_singleton.1 ho
  exact fun hend => absurd (congrArg Packet.msgType hend) (by rw [beginPacket_msgType]; decide)

/-- Once all windows are done END may go out. -/
theorem Orderly.sendEnd (h : s.Orderly a windows old done)
    (hall : (List.range windows.toNat).Sublist done) : s.sendEnd.Orderly a windows old done := by
  have hsent : (s.emit (.control s.mac endPacket)).Orderly a windows old done := by
    have hout : (s.emit (.control s.mac endPacket)).out = s.out ++ [.control s.mac endPacket] := rfl
    refine h.sends ?_ hout
    intro o ho
    obtain rfl := List.mem_singleton.1 ho
    exact fun _ => hall
  exact ⟨hsent.source, hsent.count, hsent.window, fun _ => hall, hsent.out⟩

theorem Orderly.wait (h : s.Orderly a windows old done) (ms : UInt32) :
    (s.wait clock ms).Orderly a windows old done := h.of_eq

/-- The next window: its own number may wrap, then nothing is asked of it. -/
theorem Orderly.nextWindow (h : s.Orderly a windows old done)
    (hdone : (List.range (s.window.toNat + 1)).Sublist done) :
    s.heard.nextWindow.Orderly a windows old done := by
  have hle : (s.window + 1).toNat ≤ s.window.toNat + 1 := by
    rw [UInt16.toNat_add]
    exact Nat.mod_le _ _
  exact ⟨h.source, h.count, (List.range_sublist.2 hle).trans hdone, h.ended, h.out⟩

/-- The step lemma: an ack for the current window is the report it waits for. -/
theorem Orderly.rule {evs : List Event} {ev : Event} (hrule : Rule clock s ev s')
    (hev : ∀ b, ev ≠ .start b) (hmac : s.mac = a.mac) (hread : a.read ≠ none)
    (h : s.Orderly a windows old (windowsDone a.mac evs)) :
    s'.Orderly a windows old (windowsDone a.mac (evs ++ [ev])) := by
  have h' := h.mono (windowsDone_sublist a.mac evs [ev])
  have hretried : s.retried.Orderly a windows old (windowsDone a.mac (evs ++ [ev])) := h'.of_eq
  cases hrule with
  | refuse b | start b => exact absurd rfl (hev b)
  | ignore | idle => exact h'
  | finish | reject | stale | early | giveUp => exact h'.of_eq
  | advance rx _ hfrom hack hwin heq hmissing =>
    have hdone := range_succ_sublist h.window ⟨hfrom.trans hmac, hack⟩ hwin hmissing (by rw [heq])
    exact ((h'.nextWindow hdone).sendWindow hread _).wait 500
  | last rx _ hfrom hack hwin heq hmissing hge =>
    have hdone := range_succ_sublist h.window ⟨hfrom.trans hmac, hack⟩ hwin hmissing (by rw [heq])
    have hle : windows.toNat ≤ s.window.toNat + 1 := by
      have hge' := UInt16.le_iff_toNat_le.1 hge
      rw [h.count, UInt16.toNat_add] at hge'
      exact hge'.trans (Nat.mod_le _ _)
    exact ((h'.nextWindow hdone).sendEnd ((List.range_sublist.2 hle).trans hdone)).wait 2000
  | resend =>
    have hheard : s.heard.Orderly a windows old (windowsDone a.mac (evs ++ [_])) := h'.of_eq
    exact (hheard.sendWindow hread _).wait 500
  | endAgain _ _ _ hend => exact (hretried.sendEnd (h'.ended hend)).wait 2000
  | hello => exact (hretried.sendBegin.sendWindow hread _).wait 500
  | again => exact (hretried.sendWindow hread _).wait 500

/-! ### The timeouts since the last ack -/

/-- The session goes on and no ack comes. -/
def Unanswered (mac : Mac) (evs : List Event) : Prop :=
  ∀ ev ∈ evs, match ev with
    | .start _ => False
    | .control rx => ¬ IsAck mac rx
    | .loop => True

/-- The retries of a running session are the timeouts since the last ack. -/
def Counted (clock : ℕ → UInt32) (mac : Mac) (s₁ : EspNowPushSender) (evs : List Event)
    (s : EspNowPushSender) : Prop :=
  s.state = .pushing → ∃ pre quiet, evs = pre ++ quiet ∧ Unanswered mac quiet ∧
    timeouts clock (s₁.run clock pre) quiet = s.retries.toNat

theorem Unanswered.concat {evs : List Event} {ev : Event} (h : Unanswered mac evs)
    (hev : Unanswered mac [ev]) : Unanswered mac (evs ++ [ev]) := by
  intro ev' hmem
  rcases List.mem_append.1 hmem with hmem | hmem
  · exact h ev' hmem
  · exact hev ev' hmem

/-- An ack starts the count anew. -/
theorem counted_of_answered (clock : ℕ → UInt32) (mac : Mac) (s₁ : EspNowPushSender)
    (evs : List Event) (hretries : s.retries = 0) : s₁.Counted clock mac evs s :=
  fun _ => ⟨evs, [], by simp, by simp [Unanswered], by simp [timeouts, hretries]⟩

theorem counted_of_not_pushing (clock : ℕ → UInt32) (mac : Mac) (s₁ : EspNowPushSender)
    (evs : List Event) (hst : s.state ≠ .pushing) : s₁.Counted clock mac evs s :=
  fun hpush => absurd hpush hst

/-- One more pass of `loop`. -/
theorem Counted.loop {evs : List Event} (h : s₁.Counted clock mac evs (s₁.run clock evs))
    (hst : (s₁.run clock evs).state = .pushing) :
    ∃ pre quiet, evs ++ [.loop] = pre ++ quiet ∧ Unanswered mac quiet ∧
      timeouts clock (s₁.run clock pre) quiet =
        (s₁.run clock evs).retries.toNat + if (s₁.run clock evs).Due clock then 1 else 0 := by
  obtain ⟨pre, quiet, heq, hquiet, hcount⟩ := h hst
  refine ⟨pre, quiet ++ [.loop], by rw [heq, List.append_assoc],
    hquiet.concat (by simp [Unanswered]), ?_⟩
  have hrun : (s₁.run clock pre).run clock quiet = s₁.run clock evs := by
    rw [heq, run, run, run, List.foldl_append]
  rw [timeouts_append, hcount, hrun, timeouts_loop]
  rfl

theorem Counted.rule {evs : List Event} {ev : Event}
    (hrule : Rule clock (s₁.run clock evs) ev s') (hev : ∀ b, ev ≠ .start b)
    (hpatient : (s₁.run clock evs).Patient mac)
    (h : s₁.Counted clock mac evs (s₁.run clock evs)) :
    s₁.Counted clock mac (evs ++ [ev]) s' := by
  have hagain : ∀ {s' : EspNowPushSender}, (s₁.run clock evs).Due clock →
      (s₁.run clock evs).RetryLeft → s'.retries = (s₁.run clock evs).retries + 1 →
      s₁.Counted clock mac (evs ++ [.loop]) s' := by
    intro s' hdue hleft hretries _
    obtain ⟨pre, quiet, heq, hquiet, hcount⟩ := h.loop hdue.1
    have hle := (hpatient.retryLeft_iff hdue.1).1 hleft
    have hlimit := (s₁.run clock evs).retryLimit_le
    rw [if_pos hdue] at hcount
    refine ⟨pre, quiet, heq, hquiet, hcount.trans ?_⟩
    rw [hretries, UInt8.toNat_add, UInt8.toNat_one, Nat.mod_eq_of_lt (by omega)]
  cases hrule with
  | refuse b | start b => exact absurd rfl (hev b)
  | ignore rx hno =>
    intro hst
    obtain ⟨pre, quiet, heq, hquiet, hcount⟩ := h hst
    have hack : ¬ IsAck mac rx := by
      rintro ⟨hmac, hack⟩
      simp [hst, hmac, hpatient.mac, hack] at hno
    refine ⟨pre, quiet ++ [.control rx], by rw [heq, List.append_assoc],
      hquiet.concat (by simpa [Unanswered] using hack), ?_⟩
    rw [timeouts_append, hcount]
    rfl
  | finish | reject | giveUp => exact counted_of_not_pushing _ _ _ _ (by simp)
  | stale => exact counted_of_answered _ _ _ _ rfl
  | advance | resend => exact counted_of_answered _ _ _ _ (by simp [sendWindow_retries])
  | last => exact counted_of_answered _ _ _ _ (by simp)
  | idle hst => exact counted_of_not_pushing _ _ _ _ hst
  | early hst hdue =>
    intro _
    obtain ⟨pre, quiet, heq, hquiet, hcount⟩ := h.loop hst
    rw [if_neg fun hpast => hpast.2 hdue] at hcount
    exact ⟨pre, quiet, heq, hquiet, hcount⟩
  | endAgain hst hdue hleft => exact hagain ⟨hst, hdue⟩ hleft (by simp)
  | hello hst hdue hleft => exact hagain ⟨hst, hdue⟩ hleft (by simp [sendWindow_retries])
  | again hst hdue hleft => exact hagain ⟨hst, hdue⟩ hleft (by simp [sendWindow_retries])

/-! ### The final state -/

/-- Why a session failed: the device said so, the callback answered a call of the
session short, or as many timeouts as are retried and one more passed without an
ack. -/
inductive Cause (clock : ℕ → UInt32) (a : PushArgs) (calls : List (UInt32 × UInt32))
    (s₁ : EspNowPushSender) (evs : List Event) (s : EspNowPushSender) : Prop
  | told (ack : PushAck) (hmem : ack ∈ acksHeard a.mac evs)
      (hstatus : s.finalStatus = ack.status ∧ s.finalDetail = ack.detail)
      (hok : ack.status ≠ pushAckFinalOk) (hwin : ack.status ≠ pushAckWindow)
  | short (hstatus : s.finalStatus = pushAckFinalFlash) (hread : s.ReadShort calls)
  | deaf (pre quiet rest : List Event) (hstatus : s.finalStatus = 0xFE)
      (heq : evs = pre ++ quiet ++ rest) (hquiet : Unanswered a.mac quiet)
      (hcount : timeouts clock (s₁.run clock pre) quiet = s.retryLimit + 1)

/-- The state of a session has its cause in the history. -/
structure Caused (clock : ℕ → UInt32) (a : PushArgs) (calls : List (UInt32 × UInt32))
    (s₁ : EspNowPushSender) (evs : List Event) (s : EspNowPushSender) : Prop where
  begun : s.state ≠ .idle
  done : s.state = .done → ∃ ack ∈ acksHeard a.mac evs, ack.status = pushAckFinalOk
  failed : s.state = .failed → Cause clock a calls s₁ evs s

variable {evs : List Event} {calls : List (UInt32 × UInt32)}

theorem Caused.mono (h : Caused clock a calls s₁ evs s) (more : List Event) :
    Caused clock a calls s₁ (evs ++ more) s := by
  refine ⟨h.begun, fun hst => ?_, fun hst => ?_⟩
  · obtain ⟨ack, hmem, hok⟩ := h.done hst
    exact ⟨ack, mem_acksHeard_append hmem more, hok⟩
  · cases h.failed hst with
    | told ack hmem hstatus hok hwin =>
      exact .told ack (mem_acksHeard_append hmem more) hstatus hok hwin
    | short hstatus hread => exact .short hstatus hread
    | deaf pre quiet rest hstatus heq hquiet hcount =>
      exact .deaf pre quiet (rest ++ more) hstatus (by rw [heq, List.append_assoc]) hquiet hcount

theorem caused_of_pushing (clock : ℕ → UInt32) (a : PushArgs) (calls : List (UInt32 × UInt32))
    (s₁ : EspNowPushSender) (evs : List Event) (hst : s.state = .pushing) :
    Caused clock a calls s₁ evs s :=
  ⟨by simp [hst], by simp [hst], by simp [hst]⟩

/-- After frames were sent. -/
theorem caused_of_sendWindow (clock : ℕ → UInt32) (a : PushArgs) (s₁ : EspNowPushSender)
    (evs : List Event) (hst : s.state = .pushing) (hread : s.read ≠ none)
    (hcalls : calls <+: s.readCalls) (mask ms : UInt32) :
    Caused clock a calls s₁ evs ((s.sendWindow mask).wait clock ms) := by
  rcases (sendWindow_tries hread mask).state with hkeep | ⟨hfailed, hstatus, hshort⟩
  · exact caused_of_pushing clock a calls s₁ evs (hkeep.trans hst)
  · exact ⟨by simp [hfailed], by simp [hfailed],
      fun _ => .short hstatus (hshort.of_prefix hcalls)⟩

/-- The step lemma: a session that has ended does nothing more. -/
theorem Caused.rule {ev : Event} (hrule : Rule clock (s₁.run clock evs) ev s')
    (hev : ∀ b, ev ≠ .start b) (hpatient : (s₁.run clock evs).Patient a.mac)
    (hread : (s₁.run clock evs).read ≠ none) (hcalls : calls <+: (s₁.run clock evs).readCalls)
    (hcounted : s₁.Counted clock a.mac evs (s₁.run clock evs))
    (h : Caused clock a calls s₁ evs (s₁.run clock evs)) :
    Caused clock a calls s₁ (evs ++ [ev]) s' := by
  have hpushing := fun {s' : EspNowPushSender} (hst : s'.state = .pushing) =>
    caused_of_pushing clock a calls s₁ (evs ++ [ev]) hst
  have hsends := fun {s : EspNowPushSender} (hst : s.state = .pushing) (hread : s.read ≠ none)
      (hcalls : calls <+: s.readCalls) =>
    caused_of_sendWindow clock a s₁ (evs ++ [ev]) hst hread hcalls
  cases hrule with
  | refuse b | start b => exact absurd rfl (hev b)
  | ignore | idle => exact h.mono _
  | finish rx _ hfrom hok =>
    have hmem := mem_acksHeard_last ⟨hfrom.trans hpatient.mac, hok.1⟩ evs
    exact ⟨by simp, fun _ => ⟨_, hmem, hok.2⟩, by simp⟩
  | reject rx _ hfrom hack hok hwin =>
    have hmem := mem_acksHeard_last ⟨hfrom.trans hpatient.mac, hack⟩ evs
    exact ⟨by simp, by simp, fun _ => .told _ hmem ⟨rfl, rfl⟩ hok hwin⟩
  | stale _ hst => exact hpushing hst
  | advance _ hst | resend _ hst =>
    exact hsends (by simpa using hst) (by simpa using hread) (by simpa using hcalls) _ _
  | last _ hst => exact hpushing (by simpa using hst)
  | early hst => exact hpushing hst
  | giveUp hst hdue hleft =>
    obtain ⟨pre, quiet, heq, hquiet, hcount⟩ := hcounted.loop hst
    have hle := hpatient.le hst
    rw [hpatient.retryLeft_iff hst] at hleft
    rw [if_pos ⟨hst, hdue⟩] at hcount
    have hlimit : timeouts clock (s₁.run clock pre) quiet = (s₁.run clock evs).retryLimit + 1 := by
      omega
    exact ⟨by simp, by simp,
      fun _ => .deaf pre quiet [] rfl (by rw [heq, List.append_nil]) hquiet hlimit⟩
  | endAgain hst => exact hpushing (by simpa using hst)
  | hello hst | again hst =>
    exact hsends (by simpa using hst) (by simpa using hread) (by simpa using hcalls) _ _

/-! ### Whole sessions -/

/-- Everything the history since `s₀` says about the state; `s₁` is the state
after `start`. -/
structure Verdict (clock : ℕ → UInt32) (a : PushArgs) (s₀ s₁ : EspNowPushSender)
    (evs : List Event) : Prop where
  patient : (s₁.run clock evs).Patient a.mac
  orderly : (s₁.run clock evs).Orderly a s₁.windows s₀.out (windowsDone a.mac evs)
  calls : s₀.readCalls <+: (s₁.run clock evs).readCalls
  counted : s₁.Counted clock a.mac evs (s₁.run clock evs)
  caused : Caused clock a s₀.readCalls s₁ evs (s₁.run clock evs)

/-- No call of the callback is forgotten. -/
theorem Rule.calls_prefix {ev : Event} (hrule : Rule clock s ev s') (hev : ∀ b, ev ≠ .start b)
    (hread : s.read ≠ none) : s.readCalls <+: s'.readCalls := by
  have hsends : ∀ s' : EspNowPushSender, s'.read = s.read → s'.readCalls = s.readCalls →
      ∀ mask ms, s.readCalls <+: ((s'.sendWindow mask).wait clock ms).readCalls := by
    intro s' hsame hcalls mask ms
    rw [wait_readCalls, ← hcalls]
    exact (sendWindow_tries (hsame ▸ hread) mask).calls
  cases hrule with
  | refuse b | start b => exact absurd rfl (hev b)
  | advance => exact hsends s.heard.nextWindow rfl rfl _ _
  | resend => exact hsends s.heard rfl rfl _ _
  | hello => exact hsends s.retried.sendBegin rfl rfl _ _
  | again => exact hsends s.retried rfl rfl _ _
  | last | endAgain => simp
  | _ => exact List.prefix_rfl

variable {s₀ : EspNowPushSender}

theorem Verdict.concat (hsome : a.read ≠ none) {ev : Event} (hev : ∀ b, ev ≠ .start b)
    (h : s₀.Verdict clock a s₁ evs) : s₀.Verdict clock a s₁ (evs ++ [ev]) := by
  have hrule := step_rule clock (s₁.run clock evs) ev
  have hrun : s₁.run clock (evs ++ [ev]) = (s₁.run clock evs).step clock ev := by
    rw [run, run, List.foldl_append]
    rfl
  rw [← hrun] at hrule
  have hread : (s₁.run clock evs).read ≠ none := h.orderly.source.1 ▸ hsome
  exact ⟨h.patient.rule hrule hev, h.orderly.rule hrule hev h.patient.mac hsome,
    h.calls.trans (hrule.calls_prefix hev hread), h.counted.rule hrule hev h.patient,
    h.caused.rule hrule hev h.patient hread h.calls h.counted⟩

/-- The run lemma, by induction on the last event. -/
theorem Verdict.run (hsome : a.read ≠ none) (h : s₀.Verdict clock a s₁ [])
    (hevs : ∀ b, .start b ∉ evs) : s₀.Verdict clock a s₁ evs := by
  induction evs using List.reverseRecOn with
  | nil => exact h
  | append_singleton evs ev ih =>
    refine (ih fun b hmem => hevs b (List.mem_append_left _ hmem)).concat hsome fun b heq => ?_
    exact hevs b (List.mem_append_right _ (by simp [heq]))

/-- An accepted `start`: nothing is reported done and nothing is sent but the
start and frames of window 0. -/
theorem start_verdict (s₀ : EspNowPushSender) (hstart : (s₀.start clock a).1 = true) :
    a.read ≠ none ∧ (s₀.start clock a).2.windows = (s₀.openSession a).windows ∧
      s₀.Verdict clock a (s₀.start clock a).2 [] := by
  have hargs : ¬ (a.size = 0 ∨ a.read.isNone) := by
    intro hrefused
    rw [start, if_pos hrefused] at hstart
    exact Bool.false_ne_true hstart
  have hsome : a.read ≠ none := fun hnone => hargs (.inr (by rw [hnone]; rfl))
  have hpatient := (start_accepted hstart).1
  have hopen : (s₀.openSession a).Orderly a (s₀.openSession a).windows s₀.out [] :=
    ⟨⟨rfl, rfl, rfl⟩, rfl, by simp, by simp, [], by simp, by simp⟩
  have hsent : Orderly a _ _ _ (((s₀.openSession a).sendBegin.sendWindow
      ((s₀.openSession a).windowMask 0)).wait clock 500) :=
    (hopen.sendBegin.sendWindow hsome _).wait 500
  rw [start_of_args clock s₀ hargs] at hpatient ⊢
  refine ⟨hsome, hsent.count, hpatient, ?_, ?_, ?_, ?_⟩
  · rw [hsent.count]
    exact hsent
  · have hcalls := (sendWindow_tries (s := (s₀.openSession a).sendBegin) hsome
      ((s₀.openSession a).windowMask 0)).calls
    rwa [run, List.foldl_nil, wait_readCalls]
  · exact counted_of_answered clock a.mac _ [] (by simp [run, sendWindow_retries])
  · exact caused_of_sendWindow (s := (s₀.openSession a).sendBegin) clock a _ [] rfl hsome
      List.prefix_rfl _ _

/-- **The sender's verdict is earned**: whatever device, callback and clock do, in
every session END goes out only when every window was reported done, in order,
and a frame only when all windows before its own were; the session gets done
only by a FINAL_OK that came, and fails only because a final error came, with
its status and detail, because the callback answered the session's last call of
it, for a frame of the window under way, with another length than asked for, or
because the bounded number of timeouts passed with no ack between them. -/
theorem sender_verdict (clock : ℕ → UInt32) (s₀ : EspNowPushSender) (a : PushArgs)
    (hstart : (s₀.start clock a).1 = true) (evs : List Event) (hevs : ∀ b, .start b ∉ evs) :
    let s₁ := (s₀.start clock a).2
    let s := s₁.run clock evs
    (a.size.toNat ≤ 2 ^ 24 → s.windows.toNat = windowCount a.size.toNat) ∧
      (∃ new, s.out = s₀.out ++ new ∧
        (∀ mac bytes, .raw mac bytes ∈ new → ∃ idx data, bytes = rawBytes idx data ∧
          (List.range (idx.toNat / 16)).Sublist (windowsDone a.mac evs)) ∧
        ∀ mac, .control mac endPacket ∈ new →
          (List.range s.windows.toNat).Sublist (windowsDone a.mac evs)) ∧
      s.state ≠ .idle ∧
      (s.state = .done → ∃ ack ∈ acksHeard a.mac evs, ack.status = pushAckFinalOk) ∧
      (s.state = .failed →
        (∃ ack ∈ acksHeard a.mac evs, s.finalStatus = ack.status ∧ s.finalDetail = ack.detail ∧
          ack.status ≠ pushAckFinalOk ∧ ack.status ≠ pushAckWindow) ∨
        (s.finalStatus = pushAckFinalFlash ∧ ∃ read before idx, a.read = some read ∧
          idx < totalFramesOf a.size ∧ idx.toNat / 16 = s.window.toNat ∧
          s.readCalls = s₀.readCalls ++ before ++ [(idx * pushFrameData, frameLen a.size idx)] ∧
          (read (s₀.readCalls ++ before).length (idx * pushFrameData)
            (frameLen a.size idx)).length ≠ (frameLen a.size idx).toNat) ∨
        s.finalStatus = 0xFE ∧ ∃ pre quiet rest, evs = pre ++ quiet ++ rest ∧
          Unanswered a.mac quiet ∧ timeouts clock (s₁.run clock pre) quiet = s.retryLimit + 1) := by
  intro s₁ s
  obtain ⟨hsome, hopened, hbegun⟩ := start_verdict s₀ hstart
  obtain ⟨-, horderly, -, -, hcaused⟩ := hbegun.run hsome hevs
  obtain ⟨new, hout, hnew⟩ := horderly.out
  have hwindows : s.windows = s₁.windows := horderly.count
  refine ⟨fun hle => ?_, ⟨new, hout, fun mac bytes hmem => hnew _ hmem, fun mac hmem => ?_⟩,
    hcaused.begun, hcaused.done, fun hst => ?_⟩
  · rw [hwindows, hopened]
    exact s₀.windows_openSession a hle
  · rw [hwindows]
    exact hnew _ hmem rfl
  · cases hcaused.failed hst with
    | told ack hmem hstatus hok hwin =>
      exact .inl ⟨ack, hmem, hstatus.1, hstatus.2, hok, hwin⟩
    | short hstatus hshort =>
      obtain ⟨read, before, idx, hread, hidx, hwindow, hcalls, hlen⟩ := hshort
      obtain ⟨hsame, hsize, htotal⟩ := horderly.source
      rw [hsize] at hcalls hlen
      exact .inr (.inl ⟨hstatus, read, before, idx, hsame ▸ hread, htotal ▸ hidx, hwindow,
        hcalls, hlen⟩)
    | deaf pre quiet rest hstatus heq hquiet hcount =>
      exact .inr (.inr ⟨hstatus, pre, quiet, rest, heq, hquiet, hcount⟩)

/-- The device reports window 0 done, and then the image installed. -/
def oneByteAnswers : List Event :=
  [.control ⟨{}, ackPacket ⟨0, 0, pushAckWindow, 0⟩⟩,
    .control ⟨{}, ackPacket ⟨0, 0, pushAckFinalOk, 0⟩⟩]

/-- An image of one byte, from a callback that has nothing to read. -/
def emptyFile : PushArgs := { mac := {}, read := some fun _ _ _ => [], size := 1, crc := 0 }

/-- The push of one byte gets done, and the one from the empty file fails in `start`. -/
theorem sender_verdict_oneByte :
    ((oneByteStarted.run (fun k => UInt32.ofNat (3000 * k)) oneByteAnswers).state = .done ∧
      ∃ ack ∈ acksHeard {} oneByteAnswers, ack.status = pushAckFinalOk) ∧
    let s := (start (fun k => UInt32.ofNat (3000 * k)) {} emptyFile).2
    s.state = .failed ∧ s.finalStatus = pushAckFinalFlash ∧ ∃ read before,
      emptyFile.read = some read ∧ s.readCalls = before ++ [(0, 1)] ∧
      (read before.length 0 1).length ≠ 1 := by
  have h := sender_verdict (fun k => UInt32.ofNat (3000 * k)) {}
    { mac := {}, read := some (readOf [7]), size := 1, crc := 0 } rfl oneByteAnswers
    (by simp [oneByteAnswers])
  have hdone : (oneByteStarted.run (fun k => UInt32.ofNat (3000 * k)) oneByteAnswers).state =
      .done := by decide +kernel
  refine ⟨⟨hdone, h.2.2.2.1 hdone⟩, by decide +kernel, by decide +kernel, ?_⟩
  have h' := sender_verdict (fun k => UInt32.ofNat (3000 * k)) {} emptyFile rfl [] (by simp)
  rcases h'.2.2.2.2 (by decide +kernel) with ⟨ack, hack, -⟩ | hshort | ⟨hstatus, -⟩
  · simp [acksHeard] at hack
  · obtain ⟨-, read, before, idx, hread, hidx, -, hcalls, hlen⟩ := hshort
    have hone : totalFramesOf emptyFile.size = 1 := by decide
    rw [hone] at hidx
    obtain rfl := UInt32.lt_one_iff.1 hidx
    have hlast : frameLen emptyFile.size 0 = 1 := by decide
    rw [hlast] at hcalls hlen
    exact ⟨read, before, hread, hcalls, hlen⟩
  · exact absurd hstatus (by decide +kernel)

end EspNowPushSender

end InfinitagNow
