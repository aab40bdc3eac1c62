/-
InfinitagNow/ShotMailbox.lean

The IR decoder between the interrupt that feeds it and the loop that empties it
(`src/IrTelegram.{h,cpp}`).

`feed` runs in the receiver's interrupt, which strikes anywhere in the loop, also
inside `take`; `take` tests `_pending`, copies `_frame` and clears `_pending`, and
each of these is one step here.  An interrupt runs to its end before the loop
goes on.

For the loop the decoder is a `Mailbox` (`mailbox_step`): a feed that returns
true puts a frame.  What is put are the telegrams on the air (`heard_puts`), and
two of them are at least 35 phases apart, so that a loop that makes three steps
in any 34 phases misses none (`spaced_ops`).
-/
import InfinitagNow.Mailbox
import InfinitagNow.ShotStream

namespace InfinitagNow

/-! ### Interrupt and loop -/

inductive IrEvent
  /-- the interrupt: a phase has ended -/
  | phase (p : Phase)
  /-- the loop goes on by one step in `take` -/
  | loop
  /-- the loop calls `reset` -/
  | reset
  deriving DecidableEq, Repr

/-- `reset` -/
def IrtDecoder.reset (d : IrtDecoder) : IrtDecoder := { d with state := .idle }

structure IrReceiver where
  decoder : IrtDecoder := {}
  /-- how far `take` has come -/
  reader : Mailbox.Reader UInt16 := .outside
  /-- what `take` has returned, oldest first -/
  taken : List UInt16 := []
  deriving DecidableEq, Repr

namespace IrReceiver

def step (r : IrReceiver) : IrEvent → IrReceiver
  | .phase p => { r with decoder := (r.decoder.feed p.1 p.2).1 }
  | .loop =>
    match r.reader with
    | .outside => if r.decoder.pending then { r with reader := .checked } else r
    | .checked => { r with reader := .holding r.decoder.frame }
    | .holding frame =>
      { r with
        decoder := { r.decoder with pending := false }
        reader := .outside
        taken := r.taken ++ [frame] }
  | .reset => { r with decoder := r.decoder.reset }

def run (r : IrReceiver) (evs : List IrEvent) : IrReceiver := evs.foldl step r

theorem run_append (r : IrReceiver) (evs evs' : List IrEvent) :
    r.run (evs ++ evs') = (r.run evs).run evs' := List.foldl_append

/-- Left alone, the three steps are `take`. -/
theorem run_take {r : IrReceiver} (hout : r.reader = .outside)
    (hpend : r.decoder.pending = true) :
    r.run [.loop, .loop, .loop] =
      { r with
        decoder := r.decoder.take.2
        taken := r.taken ++ r.decoder.take.1.toList } := by
  simp [run, step, IrtDecoder.take, hout, hpend]

end IrReceiver

/-! ### What is on the air -/

/-- The phases since the decoder was last reset. -/
def air (evs : List IrEvent) : List Phase :=
  evs.foldl (fun h e => match e with
    | .phase p => h ++ [p]
    | .loop => h
    | .reset => []) []

/-- The telegrams with a valid frame, in the order of their stop marks. -/
inductive Heard : List IrEvent → List UInt16 → Prop
  | nil : Heard [] []
  | telegram {evs : List IrEvent} {ws : List UInt16} (h : Heard evs ws) {p : Phase} {w : UInt16}
      (ht : EndsInTelegram (air evs ++ [p]) w) (hf : (irtDecodeFrame w).isSome) :
      Heard (evs ++ [.phase p]) (ws ++ [w])
  | noise {evs : List IrEvent} {ws : List UInt16} (h : Heard evs ws) {p : Phase}
      (hno : ∀ w, EndsInTelegram (air evs ++ [p]) w → ¬ (irtDecodeFrame w).isSome) :
      Heard (evs ++ [.phase p]) ws
  | loop {evs : List IrEvent} {ws : List UInt16} (h : Heard evs ws) : Heard (evs ++ [.loop]) ws
  | reset {evs : List IrEvent} {ws : List UInt16} (h : Heard evs ws) : Heard (evs ++ [.reset]) ws

section Air

variable (evs : List IrEvent)

@[simp] theorem air_phase (p : Phase) : air (evs ++ [.phase p]) = air evs ++ [p] := by
  rw [air, List.foldl_append]
  rfl

@[simp] theorem air_loop : air (evs ++ [.loop]) = air evs := by
  rw [air, List.foldl_append]
  rfl

@[simp] theorem air_reset : air (evs ++ [.reset]) = [] := by
  rw [air, List.foldl_append]
  rfl

/-- How many phases there are, before and after a reset. -/
def phaseCount : List IrEvent → ℕ
  | [] => 0
  | .phase _ :: evs => phaseCount evs + 1
  | _ :: evs => phaseCount evs

def loopCount : List IrEvent → ℕ
  | [] => 0
  | .loop :: evs => loopCount evs + 1
  | _ :: evs => loopCount evs

theorem phaseCount_append (evs' : List IrEvent) :
    phaseCount (evs ++ evs') = phaseCount evs + phaseCount evs' := by
  induction evs with
  | nil => exact (Nat.zero_add _).symm
  | cons e evs ih =>
    cases e with
    | phase p =>
      rw [List.cons_append, phaseCount, phaseCount, ih]
      omega
    | loop | reset => exact ih

theorem loopCount_append (evs' : List IrEvent) :
    loopCount (evs ++ evs') = loopCount evs + loopCount evs' := by
  induction evs with
  | nil => exact (Nat.zero_add _).symm
  | cons e evs ih =>
    cases e with
    | loop =>
      rw [List.cons_append, loopCount, loopCount, ih]
      omega
    | phase | reset => exact ih

theorem length_air_le : (air evs).length ≤ phaseCount evs := by
  induction evs using List.reverseRecOn with
  | nil => exact le_rfl
  | append_singleton evs e ih =>
    rw [phaseCount_append]
    cases e with
    | phase p =>
      rw [air_phase, List.length_append]
      exact Nat.add_le_add_right ih 1
    | loop =>
      rw [air_loop]
      exact ih
    | reset =>
      rw [air_reset]
      exact Nat.zero_le _

end Air

/-! ### Reports -/

namespace IrtDecoder

/-- The frame that this phase completes. -/
def report (d : IrtDecoder) (p : Phase) : Option UInt16 :=
  if (d.feed p.1 p.2).2 then some d.acc else none

theorem report_eq_some_iff (d : IrtDecoder) (p : Phase) (w : UInt16) :
    d.report p = some w ↔ (d.feed p.1 p.2).2 = true ∧ d.acc = w := by
  unfold report
  split
  · rename_i hf
    simp [hf]
  · rename_i hf
    simp [hf]

/-- A report fills the mailbox and leaves the decoder idle. -/
theorem feed_of_report {d : IrtDecoder} {p : Phase} {w : UInt16} (h : d.report p = some w) :
    (d.feed p.1 p.2).1.pending = true ∧ (d.feed p.1 p.2).1.frame = w ∧
      (d.feed p.1 p.2).1.state = .idle := by
  obtain ⟨hf, rfl⟩ := (report_eq_some_iff d p w).1 h
  obtain ⟨hst, hm, hus, hn, hvalid⟩ := (feed_true_iff d p.1 p.2).1 hf
  have hband : irtBitMarkMin ≤ p.2 ∧ p.2 ≤ irtBitMarkMax := hus
  simp [feed, hst, hm, hn, hband, hvalid]

theorem feed_of_no_report {d : IrtDecoder} {p : Phase} (h : d.report p = none) :
    (d.feed p.1 p.2).1.pending = d.pending ∧ (d.feed p.1 p.2).1.frame = d.frame := by
  apply pending_feed
  by_contra hf
  rw [Bool.not_eq_false] at hf
  rw [(report_eq_some_iff d p d.acc).2 ⟨hf, rfl⟩] at h
  exact absurd h (by simp)

/-- The same place in a telegram, whatever is in the mailbox. -/
structure Same (d d' : IrtDecoder) : Prop where
  state : d.state = d'.state
  nbits : d.nbits = d'.nbits
  acc : d.acc = d'.acc

theorem Same.feed {d d' : IrtDecoder} (h : d.Same d') (mark : Bool) (us : UInt32) :
    (d.feed mark us).1.Same (d'.feed mark us).1 ∧ (d.feed mark us).2 = (d'.feed mark us).2 := by
  obtain ⟨state, nbits, acc, pending, frame⟩ := d
  obtain ⟨state', nbits', acc', pending', frame'⟩ := d'
  obtain ⟨rfl, rfl, rfl⟩ : state = state' ∧ nbits = nbits' ∧ acc = acc' :=
    ⟨h.state, h.nbits, h.acc⟩
  cases state with
  | idle =>
    simp only [IrtDecoder.feed, tryHeader]
    split_ifs
    · exact ⟨⟨rfl, rfl, rfl⟩, trivial⟩
    · exact ⟨⟨rfl, rfl, rfl⟩, trivial⟩
  | hdrSpace | bitSpace | bitMark =>
    simp only [IrtDecoder.feed, tryHeader]
    split_ifs <;> exact ⟨⟨rfl, rfl, rfl⟩, rfl⟩

theorem Same.report {d d' : IrtDecoder} (h : d.Same d') (p : Phase) : d.report p = d'.report p := by
  rw [IrtDecoder.report, IrtDecoder.report, (h.feed p.1 p.2).2, h.acc]

/-- The decoder was idle, and since then it was fed with `h`. -/
def Since (d : IrtDecoder) (h : List Phase) : Prop :=
  ∃ d₀ : IrtDecoder, d₀.state = .idle ∧ d.Same (d₀.run h)

theorem Since.of_idle {d : IrtDecoder} (h : d.state = .idle) : d.Since [] :=
  ⟨d, h, ⟨rfl, rfl, rfl⟩⟩

theorem Since.feed {d : IrtDecoder} {h : List Phase} (hd : d.Since h) (p : Phase) :
    (d.feed p.1 p.2).1.Since (h ++ [p]) := by
  obtain ⟨d₀, hidle, hsame⟩ := hd
  refine ⟨d₀, hidle, ?_⟩
  rw [run_append]
  exact (hsame.feed p.1 p.2).1

/-- **A phase is reported** exactly when it ends a telegram with a valid frame. -/
theorem report_iff_telegram {d : IrtDecoder} {h : List Phase} (hd : d.Since h) (p : Phase)
    (w : UInt16) :
    d.report p = some w ↔ EndsInTelegram (h ++ [p]) w ∧ (irtDecodeFrame w).isSome := by
  obtain ⟨d₀, hidle, hsame⟩ := hd
  obtain ⟨mark, us⟩ := p
  rw [hsame.report, report_eq_some_iff]
  constructor
  · rintro ⟨hf, rfl⟩
    exact ⟨endsInTelegram_iff.2 (telegram_of_feed (tracks_run hidle h) hf),
      ((feed_true_iff _ _ _).1 hf).2.2.2.2⟩
  · rintro ⟨hw, hvalid⟩
    obtain ⟨front, t, hsplit, ht⟩ := endsInTelegram_iff.1 hw
    -- the header mark starts the telegram in any state
    obtain ⟨body, stop, rfl, hstop, hst, hn, hacc⟩ := feed_of_telegram (d₀.run front) ht
    rw [← List.append_assoc] at hsplit
    obtain ⟨rfl, hlast⟩ := List.append_inj' hsplit rfl
    obtain ⟨rfl, rfl⟩ : mark = true ∧ us = stop := by simpa using hlast
    rw [run_append]
    exact ⟨(feed_true_iff _ _ _).2 ⟨hst, rfl, hstop, hn, by rw [hacc]; exact hvalid⟩, hacc⟩

end IrtDecoder

/-! ### The mailbox -/

namespace IrReceiver

/-- The decoder and the loop as a mailbox. -/
def mailbox (r : IrReceiver) : Mailbox UInt16 :=
  ⟨r.decoder.pending, r.decoder.frame, r.reader, r.taken⟩

/-- What an event is for the mailbox. -/
def op (r : IrReceiver) : IrEvent → Option (Mailbox.Op UInt16)
  | .phase p => (r.decoder.report p).map .put
  | .loop => some .read
  | .reset => none

def ops (r : IrReceiver) : List IrEvent → List (Mailbox.Op UInt16)
  | [] => []
  | e :: evs => (r.op e).toList ++ (r.step e).ops evs

/-- **The step lemma**: every event is an operation of the mailbox, or none. -/
theorem mailbox_step (r : IrReceiver) (e : IrEvent) :
    (r.step e).mailbox = r.mailbox.run (r.op e).toList := by
  cases e with
  | phase p =>
    cases hrep : r.decoder.report p with
    | none =>
      obtain ⟨hpend, hframe⟩ := IrtDecoder.feed_of_no_report hrep
      simp [op, step, mailbox, Mailbox.run, hrep, hpend, hframe]
    | some w =>
      obtain ⟨hpend, hframe, -⟩ := IrtDecoder.feed_of_report hrep
      simp [op, step, mailbox, Mailbox.run, Mailbox.step, hrep, hpend, hframe]
  | loop =>
    show (r.step .loop).mailbox = r.mailbox.step .read
    cases hr : r.reader with
    | outside =>
      simp only [step, mailbox, Mailbox.step, hr]
      split
      · rfl
      · rw [hr]
    | checked => simp [step, mailbox, Mailbox.step, hr]
    | holding w => simp [step, mailbox, Mailbox.step, hr]
  | reset => rfl

theorem mailbox_run (r : IrReceiver) (evs : List IrEvent) :
    (r.run evs).mailbox = r.mailbox.run (r.ops evs) := by
  induction evs generalizing r with
  | nil => rfl
  | cons e evs ih =>
    calc ((r.step e).run evs).mailbox
        = (r.step e).mailbox.run ((r.step e).ops evs) := ih (r.step e)
      _ = (r.mailbox.run (r.op e).toList).run ((r.step e).ops evs) := by rw [mailbox_step]
      _ = r.mailbox.run (r.ops (e :: evs)) := List.foldl_append.symm

theorem ops_concat (r : IrReceiver) (evs : List IrEvent) (e : IrEvent) :
    r.ops (evs ++ [e]) = r.ops evs ++ ((r.run evs).op e).toList := by
  induction evs generalizing r with
  | nil => simp [ops, run]
  | cons e' evs ih =>
    rw [List.cons_append, ops, ops, ih, List.append_assoc]
    rfl

/-! ### What is put is what was on the air -/

theorem since_step {r : IrReceiver} {evs : List IrEvent} (h : r.decoder.Since (air evs))
    (e : IrEvent) : (r.step e).decoder.Since (air (evs ++ [e])) := by
  cases e with
  | phase p =>
    rw [air_phase]
    exact h.feed p
  | loop =>
    rw [air_loop]
    obtain ⟨d₀, hidle, hsame⟩ := h
    refine ⟨d₀, hidle, ?_⟩
    unfold step
    cases r.reader with
    | outside =>
      dsimp only
      split
      · exact hsame
      · exact hsame
    | checked => exact hsame
    | holding w => exact ⟨hsame.state, hsame.nbits, hsame.acc⟩
  | reset =>
    rw [air_reset]
    exact .of_idle rfl

theorem since_run {r : IrReceiver} (hidle : r.decoder.state = .idle) (evs : List IrEvent) :
    (r.run evs).decoder.Since (air evs) := by
  induction evs using List.reverseRecOn with
  | nil => exact .of_idle hidle
  | append_singleton evs e ih =>
    rw [run_append]
    exact since_step ih e

theorem heard_puts {r : IrReceiver} (hidle : r.decoder.state = .idle) (evs : List IrEvent) :
    Heard evs (Mailbox.puts (r.ops evs)) := by
  induction evs using List.reverseRecOn with
  | nil => exact .nil
  | append_singleton evs e ih =>
    rw [ops_concat, Mailbox.puts_append]
    cases e with
    | phase p =>
      have hreport := IrtDecoder.report_iff_telegram (since_run hidle evs) p
      cases hrep : (r.run evs).decoder.report p with
      | none =>
        have hnone : Mailbox.puts ((r.run evs).op (.phase p)).toList = [] := by
          simp [op, hrep, Mailbox.puts]
        rw [hnone, List.append_nil]
        refine .noise ih fun w hw hvalid => ?_
        rw [(hreport w).2 ⟨hw, hvalid⟩] at hrep
        exact absurd hrep (by simp)
      | some w =>
        have hput : Mailbox.puts ((r.run evs).op (.phase p)).toList = [w] := by
          simp [op, hrep, Mailbox.puts]
        rw [hput]
        obtain ⟨hw, hvalid⟩ := (hreport w).1 hrep
        exact .telegram ih hw hvalid
    | loop =>
      have hnone : Mailbox.puts ((r.run evs).op .loop).toList = [] := rfl
      rw [hnone, List.append_nil]
      exact .loop ih
    | reset =>
      have hnone : Mailbox.puts ((r.run evs).op .reset).toList = [] := rfl
      rw [hnone, List.append_nil]
      exact .reset ih

/-! ### A quick loop -/

/-- Any 34 phases in a row come with three steps of the loop. -/
def Prompt (evs : List IrEvent) : Prop :=
  ∀ a b c, evs = a ++ b ++ c → 34 ≤ phaseCount b → 3 ≤ loopCount b

theorem Prompt.of_append {a evs : List IrEvent} (h : Prompt (a ++ evs)) : Prompt evs := by
  rintro a' b c rfl hb
  exact h (a ++ a') b c (by simp) hb

/-- Before a report there are 34 phases since the last one. -/
theorem phaseCount_of_report {d : IrtDecoder} {evs : List IrEvent} (h : d.Since (air evs))
    {p : Phase} {w : UInt16} (hrep : d.report p = some w) : 34 ≤ phaseCount evs := by
  obtain ⟨⟨hlen, -⟩, -⟩ := (IrtDecoder.report_iff_telegram h p w).1 hrep
  rw [List.length_append, List.length_singleton] at hlen
  have := length_air_le evs
  omega

/-- The step lemma: `before` has happened since the last report. -/
theorem ops_cons_cases (r : IrReceiver) {before : List IrEvent}
    (h : r.decoder.Since (air before)) (e : IrEvent) :
    (∃ w, r.op e = some (.put w) ∧ 34 ≤ phaseCount before ∧ phaseCount [e] = 1 ∧
      (r.step e).decoder.Since (air [])) ∨
    ((∀ w, r.op e ≠ some (.put w)) ∧ (r.step e).decoder.Since (air (before ++ [e]))) := by
  cases e with
  | phase p =>
    cases hrep : r.decoder.report p with
    | some w =>
      left
      refine ⟨w, by simp [op, hrep], phaseCount_of_report h hrep, rfl, ?_⟩
      exact .of_idle (IrtDecoder.feed_of_report hrep).2.2
    | none => exact .inr ⟨by simp [op, hrep], since_step h _⟩
  | loop => exact .inr ⟨by simp [op], since_step h _⟩
  | reset => exact .inr ⟨by simp [op], since_step h _⟩

/-- An event that puts nothing is counted as it is. -/
theorem op_of_no_put {r : IrReceiver} {e : IrEvent} (h : ∀ w, r.op e ≠ some (.put w)) :
    (r.op e).toList = List.replicate (loopCount [e]) .read := by
  cases e with
  | phase p =>
    cases hrep : r.decoder.report p with
    | some w => exact absurd (by simp [op, hrep]) (h w)
    | none => simp [op, hrep, loopCount]
  | loop => rfl
  | reset => rfl

/-- Telegrams are at least 35 phases apart. -/
theorem length_puts_le {r : IrReceiver} {before : List IrEvent}
    (h : r.decoder.Since (air before)) (evs : List IrEvent) :
    35 * (Mailbox.puts (r.ops evs)).length ≤ phaseCount (before ++ evs) := by
  induction evs generalizing r before with
  | nil => exact Nat.zero_le _
  | cons e evs ih =>
    have hsplit : before ++ e :: evs = before ++ [e] ++ evs := by simp
    rw [ops, Mailbox.puts_append, List.length_append]
    rcases ops_cons_cases r h e with ⟨w, hop, hcount, hone, hnext⟩ | ⟨hno, hnext⟩
    · have hrest := ih hnext
      rw [List.nil_append] at hrest
      rw [hop, hsplit, phaseCount_append, phaseCount_append, hone]
      have hput : (Mailbox.puts (some (Mailbox.Op.put w)).toList).length = 1 := rfl
      omega
    · have hrest := ih hnext
      have hput : Mailbox.puts (r.op e).toList = [] := by
        rw [op_of_no_put hno]
        cases e with
        | loop => rfl
        | phase | reset => rfl
      rw [hput, hsplit]
      simpa using hrest

/-- A quick loop makes three steps between two of them. -/
theorem spaced_ops {r : IrReceiver} {before evs : List IrEvent}
    (h : r.decoder.Since (air before)) (hprompt : Prompt (before ++ evs)) :
    Mailbox.Spaced (loopCount before) (r.ops evs) := by
  induction evs generalizing r before with
  | nil => trivial
  | cons e evs ih =>
    have hsplit : before ++ e :: evs = before ++ [e] ++ evs := by simp
    rcases ops_cons_cases r h e with ⟨w, hop, hcount, -, hnext⟩ | ⟨hno, hnext⟩
    · rw [ops, hop]
      refine ⟨hprompt [] before (e :: evs) rfl hcount, ih hnext ?_⟩
      rw [hsplit] at hprompt
      exact hprompt.of_append
    · have hrest := ih hnext (by rwa [← hsplit])
      rw [ops, op_of_no_put hno]
      rw [loopCount_append] at hrest
      cases e with
      | loop => exact hrest
      | phase | reset => exact hrest

/-- **No shot is lost between interrupt and loop.**  Whenever the interrupt
strikes and the loop resets the decoder: at most every 35th phase ends a
telegram; `take` returns frames of telegrams that were on the air, in order, and
none twice; and if any 34 phases in a row come with three steps of the loop, it
returns the frame of every telegram, up to one that still waits. -/
theorem shots_reach_loop (r : IrReceiver) (hidle : r.decoder.state = .idle)
    (hempty : r.decoder.pending = false) (hout : r.reader = .outside) (htaken : r.taken = [])
    (evs : List IrEvent) :
    ∃ ws, Heard evs ws ∧ 35 * ws.length ≤ phaseCount evs ∧
      (r.run evs).taken.Sublist ws ∧
      (Prompt evs → (r.run evs).taken ++ (r.run evs).mailbox.waiting = ws ∧
        (r.run evs).mailbox.waiting.length ≤ 1) := by
  have hsince : r.decoder.Since (air []) := .of_idle hidle
  refine ⟨Mailbox.puts (r.ops evs), heard_puts hidle evs, length_puts_le hsince evs, ?_, ?_⟩
  · have h := Mailbox.got_sublist (m := r.mailbox) hout hempty htaken (r.ops evs)
    rwa [← mailbox_run] at h
  · intro hprompt
    -- nothing has been put yet, as if the loop had just been through
    have hspaced : Mailbox.Spaced (loopCount []) (r.ops evs) := spaced_ops hsince hprompt
    have h := Mailbox.got_of_spaced (m := r.mailbox) hout hempty htaken le_rfl
      (hspaced.mono (Nat.zero_le 3))
    rw [← mailbox_run] at h
    exact ⟨h, Mailbox.length_waiting_le _⟩

/-- A shot, and an interrupt in the middle of `take`. -/
def oneShot : List IrEvent :=
  (played (fun _ => 0) 0 true (irtTimings 0x1326 35)).map .phase ++
    [.loop, .phase (false, 5000), .loop, .loop]

theorem shots_reach_loop_one :
    (({} : IrReceiver).run oneShot).taken = [0x1326] ∧
      ∃ ws, Heard oneShot ws ∧ 35 * ws.length ≤ phaseCount oneShot ∧
        (({} : IrReceiver).run oneShot).taken.Sublist ws := by
  obtain ⟨ws, hheard, hlen, hsub, -⟩ := shots_reach_loop {} rfl rfl rfl rfl oneShot
  exact ⟨by decide +kernel, ws, hheard, hlen, hsub⟩

end IrReceiver

end InfinitagNow
