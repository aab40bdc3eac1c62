/-
InfinitagNow/Mailbox.lean

A mailbox with room for one value, which the reader empties in three steps: it
tests the flag, copies the value, clears the flag.  Nothing here is about one
program.

The writer is an interrupt: it strikes between any two steps of the reader, and
a new value replaces the old one.  Whenever it strikes, the reader gets values
in the order in which they were put, and none twice (`got_sublist`).  It gets
all of them if it makes three steps between any two (`got_of_spaced`).
-/
import Mathlib

namespace InfinitagNow

namespace Mailbox

/-- How far the reader has come. -/
inductive Reader (α : Type*)
  | outside
  /-- the flag was set -/
  | checked
  /-- the value is copied, the flag still set -/
  | holding (x : α)
  deriving DecidableEq, Repr

inductive Op (α : Type*)
  | put (x : α)
  | read
  deriving DecidableEq, Repr

end Mailbox

structure Mailbox (α : Type*) where
  full : Bool
  slot : α
  reader : Mailbox.Reader α
  /-- what the reader has got, oldest first -/
  got : List α
  deriving DecidableEq, Repr

namespace Mailbox

variable {α : Type*}

def step (m : Mailbox α) : Op α → Mailbox α
  | .put x => { m with full := true, slot := x }
  | .read =>
    match m.reader with
    | .outside => if m.full then { m with reader := .checked } else m
    | .checked => { m with reader := .holding m.slot }
    | .holding x => { m with full := false, reader := .outside, got := m.got ++ [x] }

def run (m : Mailbox α) (ops : List (Op α)) : Mailbox α := ops.foldl step m

/-- The values that are put. -/
def puts : List (Op α) → List α
  | [] => []
  | .put x :: ops => x :: puts ops
  | .read :: ops => puts ops

theorem puts_append (ops ops' : List (Op α)) : puts (ops ++ ops') = puts ops ++ puts ops' := by
  induction ops with
  | nil => rfl
  | cons op ops ih =>
    cases op with
    | put x => rw [List.cons_append, puts, puts, ih, List.cons_append]
    | read => exact ih

/-- What the reader gets next if nothing more is put. -/
def waiting (m : Mailbox α) : List α :=
  match m.reader with
  | .holding x => [x]
  | _ => if m.full then [m.slot] else []

theorem length_waiting_le (m : Mailbox α) : m.waiting.length ≤ 1 := by
  unfold waiting
  split
  · exact le_rfl
  · split
    · exact le_rfl
    · exact Nat.zero_le 1

/-! ### Order -/

/-- What the reader has got and what waits for it was put in this order, and the
flag stays set while the reader is at work. -/
structure Ordered (m : Mailbox α) (ps : List α) : Prop where
  sublist : (m.got ++ m.waiting).Sublist ps
  full : m.reader ≠ .outside → m.full = true

theorem Ordered.put {m : Mailbox α} {ps : List α} (h : m.Ordered ps) (x : α) :
    (m.step (.put x)).Ordered (ps ++ [x]) := by
  refine ⟨?_, fun _ => rfl⟩
  have hgot : m.got.Sublist ps := (List.sublist_append_left _ _).trans h.sublist
  have hnew : (m.got ++ [x]).Sublist (ps ++ [x]) := hgot.append_right [x]
  cases hr : m.reader with
  | outside => simpa [step, waiting, hr] using hnew
  | checked => simpa [step, waiting, hr] using hnew
  | holding y =>
    -- the copied value is safe, the new one will be lost
    have hold : (m.got ++ [y]).Sublist ps := by simpa [waiting, hr] using h.sublist
    simpa [step, waiting, hr] using hold.trans (List.sublist_append_left ps [x])

theorem Ordered.read {m : Mailbox α} {ps : List α} (h : m.Ordered ps) :
    (m.step .read).Ordered ps := by
  obtain ⟨hsub, hfull⟩ := h
  cases hr : m.reader with
  | outside =>
    cases hm : m.full with
    | true =>
      refine ⟨?_, fun _ => by simp [step, hr, hm]⟩
      simpa [step, waiting, hr, hm] using hsub
    | false =>
      have hstep : m.step .read = m := by simp [step, hr, hm]
      rw [hstep]
      exact ⟨hsub, hfull⟩
  | checked =>
    have hm := hfull (by simp [hr])
    refine ⟨?_, fun _ => by simpa [step, hr] using hm⟩
    simpa [step, waiting, hr, hm] using hsub
  | holding x =>
    refine ⟨?_, fun hne => absurd (by simp [step, hr]) hne⟩
    simpa [step, waiting, hr] using hsub

theorem Ordered.run {m : Mailbox α} {ps : List α} (h : m.Ordered ps) (ops : List (Op α)) :
    (m.run ops).Ordered (ps ++ puts ops) := by
  induction ops generalizing m ps with
  | nil =>
    rw [puts, List.append_nil]
    exact h
  | cons op ops ih =>
    cases op with
    | put x =>
      have hput := ih (h.put x)
      rw [List.append_assoc, List.singleton_append] at hput
      exact hput
    | read => exact ih h.read

/-- **Whenever the interrupt strikes**, the reader gets values that were put, in
order, and none twice. -/
theorem got_sublist {m : Mailbox α} (hout : m.reader = .outside) (hempty : m.full = false)
    (hgot : m.got = []) (ops : List (Op α)) : (m.run ops).got.Sublist (puts ops) := by
  have h0 : m.Ordered [] := ⟨by simp [waiting, hout, hempty, hgot], fun h => absurd hout h⟩
  have h := (h0.run ops).sublist
  rw [List.nil_append] at h
  exact (List.sublist_append_left _ _).trans h

/-! ### Completeness -/

/-- Between any two values the reader makes three steps; `n` are done since the
last one. -/
def Spaced : ℕ → List (Op α) → Prop
  | _, [] => True
  | n, .put _ :: ops => 3 ≤ n ∧ Spaced 0 ops
  | n, .read :: ops => Spaced (n + 1) ops

theorem Spaced.mono {n k : ℕ} {ops : List (Op α)} (h : Spaced n ops) (hle : n ≤ k) :
    Spaced k ops := by
  induction ops generalizing n k with
  | nil => trivial
  | cons op ops ih =>
    cases op with
    | put x => exact ⟨h.1.trans hle, h.2⟩
    | read => exact ih h (Nat.succ_le_succ hle)

/-- Where `n` steps have taken the reader since the last value. -/
def Ready (m : Mailbox α) : ℕ → Prop
  | 0 => m.full = true ∧ m.reader = .outside
  | 1 => m.full = true ∧ m.reader = .checked
  | 2 => m.full = true ∧ m.reader = .holding m.slot
  | _ => m.full = false ∧ m.reader = .outside

theorem Ready.empty {m : Mailbox α} {n : ℕ} (hn : 3 ≤ n) (h : m.Ready n) :
    m.full = false ∧ m.reader = .outside := by
  obtain ⟨n, rfl⟩ := Nat.exists_eq_add_of_le' hn
  exact h

theorem Ready.of_empty {m : Mailbox α} {n : ℕ} (hn : 3 ≤ n) (hfull : m.full = false)
    (hout : m.reader = .outside) : m.Ready n := by
  obtain ⟨n, rfl⟩ := Nat.exists_eq_add_of_le' hn
  exact ⟨hfull, hout⟩

/-- A value that is put into an empty box waits there. -/
theorem Ready.put {m : Mailbox α} {n : ℕ} (hn : 3 ≤ n) (h : m.Ready n) (x : α) :
    (m.step (.put x)).Ready 0 ∧
      (m.step (.put x)).got ++ (m.step (.put x)).waiting = m.got ++ m.waiting ++ [x] := by
  obtain ⟨hfull, hout⟩ := h.empty hn
  refine ⟨⟨rfl, hout⟩, ?_⟩
  simp [step, waiting, hfull, hout]

/-- The reader takes it out, one step after the other. -/
theorem Ready.read {m : Mailbox α} {n : ℕ} (h : m.Ready n) :
    (m.step .read).Ready (n + 1) ∧
      (m.step .read).got ++ (m.step .read).waiting = m.got ++ m.waiting := by
  match n with
  | 0 =>
    obtain ⟨hfull, hr⟩ := h
    exact ⟨by simp [step, Ready, hfull, hr], by simp [step, waiting, hfull, hr]⟩
  | 1 =>
    obtain ⟨hfull, hr⟩ := h
    exact ⟨by simp [step, Ready, hfull, hr], by simp [step, waiting, hfull, hr]⟩
  | 2 =>
    obtain ⟨hfull, hr⟩ := h
    exact ⟨by simp [step, Ready, hr], by simp [step, waiting, hr]⟩
  | n + 3 =>
    obtain ⟨hfull, hr⟩ := h
    have hstep : m.step .read = m := by simp [step, hfull, hr]
    rw [hstep]
    exact ⟨⟨hfull, hr⟩, rfl⟩

theorem Ready.run {m : Mailbox α} {n : ℕ} (h : m.Ready n) {ops : List (Op α)}
    (hs : Spaced n ops) :
    (m.run ops).got ++ (m.run ops).waiting = m.got ++ m.waiting ++ puts ops := by
  induction ops generalizing m n with
  | nil => exact (List.append_nil _).symm
  | cons op ops ih =>
    cases op with
    | put x =>
      obtain ⟨hn, hs⟩ := hs
      obtain ⟨hready, hgot⟩ := h.put hn x
      calc ((m.step (.put x)).run ops).got ++ ((m.step (.put x)).run ops).waiting
          = (m.step (.put x)).got ++ (m.step (.put x)).waiting ++ puts ops := ih hready hs
        _ = m.got ++ m.waiting ++ puts (.put x :: ops) := by rw [hgot, puts]; simp
    | read =>
      obtain ⟨hready, hgot⟩ := h.read
      calc ((m.step .read).run ops).got ++ ((m.step .read).run ops).waiting
          = (m.step .read).got ++ (m.step .read).waiting ++ puts ops := ih hready hs
        _ = m.got ++ m.waiting ++ puts (.read :: ops) := by rw [hgot, puts]

/-- **A reader that is quick enough** gets every value. -/
theorem got_of_spaced {m : Mailbox α} (hout : m.reader = .outside) (hempty : m.full = false)
    (hgot : m.got = []) {n : ℕ} (hn : 3 ≤ n) {ops : List (Op α)} (hs : Spaced n ops) :
    (m.run ops).got ++ (m.run ops).waiting = puts ops := by
  have h := (Ready.of_empty hn hempty hout).run hs
  have hnone : m.waiting = [] := by simp [waiting, hout, hempty]
  rw [hgot, hnone] at h
  exact h

end Mailbox

end InfinitagNow
