/-
InfinitagNow/UpdateSession.lean

The Arduino `Update` library as its callers see it.

The library is outside this repository.  It is a parameter here: `UpdateLib`
answers each call from the calls made before it, so that any sequence of
answers is possible.  What a sequence of calls amounts to (the open session,
the bytes accepted in it) is a function of the log of calls, newest first;
what the callers rely on is `Lawful`.
-/
import Mathlib

namespace InfinitagNow

/-- One call with its answer. -/
inductive UpdateCall
  | begin (size : UInt32) (ok : Bool)
  /-- `n` bytes requested, `data` what the buffer holds of them -/
  | write (data : List UInt8) (n ret : UInt32)
  /-- `end(true)` -/
  | end_ (ok : Bool)
  | abort
  deriving DecidableEq, Repr

structure UpdateLib where
  begin : List UpdateCall → UInt32 → Bool
  write : List UpdateCall → List UInt8 → UInt32 → UInt32
  end_ : List UpdateCall → Bool
  getError : List UpdateCall → UInt8
  errorString : List UpdateCall → List UInt8

namespace UpdateCall

/-- The announced size of the open session. -/
def session : List UpdateCall → Option UInt32
  | [] => none
  | .begin size true :: _ => some size
  | .end_ true :: _ => none
  | .abort :: _ => none
  | _ :: log => session log

/-- The bytes passed to successful writes since the last successful begin. -/
def written : List UpdateCall → List UInt8
  | [] => []
  | .begin _ true :: _ => []
  | .write data n ret :: log => if ret = n then written log ++ data else written log
  | _ :: log => written log

/-- The bytes accepted since the last successful begin, those of partial writes
included. -/
def flashed : List UpdateCall → List UInt8
  | [] => []
  | .begin _ true :: _ => []
  | .write data _ ret :: log => flashed log ++ data.take ret.toNat
  | _ :: log => flashed log

/-- The number of bytes requested since the last successful begin. -/
def requested : List UpdateCall → ℕ
  | [] => 0
  | .begin _ true :: _ => 0
  | .write _ n _ :: log => requested log + n.toNat
  | _ :: log => requested log

/-- What the last successful end committed. -/
def committed : List UpdateCall → Option (List UInt8)
  | [] => none
  | .end_ true :: log => some (flashed log)
  | _ :: log => committed log

section Calls

variable (log : List UpdateCall) (size n ret : UInt32) (data : List UInt8)

@[simp] theorem session_begin_true : session (.begin size true :: log) = some size := rfl
@[simp] theorem session_begin_false : session (.begin size false :: log) = session log := rfl
@[simp] theorem session_write : session (.write data n ret :: log) = session log := rfl
@[simp] theorem session_end_true : session (.end_ true :: log) = none := rfl
@[simp] theorem session_end_false : session (.end_ false :: log) = session log := rfl
@[simp] theorem session_abort : session (.abort :: log) = none := rfl

@[simp] theorem written_begin_true : written (.begin size true :: log) = [] := rfl
@[simp] theorem written_begin_false : written (.begin size false :: log) = written log := rfl
@[simp] theorem written_write :
    written (.write data n ret :: log) = if ret = n then written log ++ data else written log := rfl
@[simp] theorem written_end (ok : Bool) : written (.end_ ok :: log) = written log := by
  cases ok <;> rfl
@[simp] theorem written_abort : written (.abort :: log) = written log := rfl

@[simp] theorem flashed_begin_true : flashed (.begin size true :: log) = [] := rfl
@[simp] theorem flashed_begin_false : flashed (.begin size false :: log) = flashed log := rfl
@[simp] theorem flashed_write :
    flashed (.write data n ret :: log) = flashed log ++ data.take ret.toNat := rfl
@[simp] theorem flashed_end (ok : Bool) : flashed (.end_ ok :: log) = flashed log := by
  cases ok <;> rfl
@[simp] theorem flashed_abort : flashed (.abort :: log) = flashed log := rfl

@[simp] theorem requested_begin_true : requested (.begin size true :: log) = 0 := rfl
@[simp] theorem requested_begin_false : requested (.begin size false :: log) = requested log := rfl
@[simp] theorem requested_write :
    requested (.write data n ret :: log) = requested log + n.toNat := rfl
@[simp] theorem requested_end (ok : Bool) : requested (.end_ ok :: log) = requested log := by
  cases ok <;> rfl
@[simp] theorem requested_abort : requested (.abort :: log) = requested log := rfl

@[simp] theorem committed_begin (ok : Bool) :
    committed (.begin size ok :: log) = committed log := by
  cases ok <;> rfl
@[simp] theorem committed_write : committed (.write data n ret :: log) = committed log := rfl
@[simp] theorem committed_end_true : committed (.end_ true :: log) = some (flashed log) := rfl
@[simp] theorem committed_end_false : committed (.end_ false :: log) = committed log := rfl
@[simp] theorem committed_abort : committed (.abort :: log) = committed log := rfl

end Calls

/-- What is committed was on flash at an end that succeeded. -/
theorem exists_of_committed {log : List UpdateCall} {data : List UInt8}
    (h : committed log = some data) :
    ∃ before, .end_ true :: before <:+ log ∧ flashed before = data := by
  induction log with
  | nil => simp [committed] at h
  | cons c log ih =>
    have hskip : committed (c :: log) = committed log →
        ∃ before, .end_ true :: before <:+ c :: log ∧ flashed before = data := by
      intro heq
      obtain ⟨before, hsuffix, hdata⟩ := ih (heq ▸ h)
      exact ⟨before, hsuffix.trans (List.suffix_cons c log), hdata⟩
    cases c with
    | begin size ok => exact hskip (committed_begin log size ok)
    | write => exact hskip rfl
    | abort => exact hskip rfl
    | end_ ok =>
      cases ok with
      | false => exact hskip rfl
      | true => exact ⟨log, List.suffix_rfl, by simpa using h⟩

end UpdateCall

open UpdateCall in
/-- What the callers rely on: a write that reports all its bytes has accepted
them, within the announced size. -/
structure UpdateLib.Lawful (lib : UpdateLib) : Prop where
  write_fits : ∀ log size data n, session log = some size → 0 < n → lib.write log data n = n →
    (flashed log).length + n.toNat ≤ size.toNat

namespace UpdateLib

open UpdateCall

/-- A library with a slot of 16 MiB in which nothing goes wrong. -/
def flawless : UpdateLib where
  begin _ size := size.toNat ≤ 2 ^ 24
  write log _ n :=
    match session log with
    | none => 0
    | some size => if (flashed log).length + n.toNat ≤ size.toNat then n else 0
  end_ log := (session log).isSome
  getError _ := 0
  errorString _ := []

theorem flawless_lawful : flawless.Lawful := by
  refine ⟨fun log size data n hs hn hw => ?_⟩
  have hdef : flawless.write log data n =
      if (flashed log).length + n.toNat ≤ size.toNat then n else 0 := by
    simp [flawless, hs]
  rw [hdef] at hw
  split at hw
  · assumption
  · rw [← hw] at hn
    exact absurd hn (by decide)

end UpdateLib

end InfinitagNow
