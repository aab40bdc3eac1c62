/-
InfinitagNow/InFlight.lean

Messages in flight, for any kind of message.

The messages on their way are a list; an unordered network may take out any
position, an ordered one only the first.  Two things are proved here: where a
message can be after one was taken out (`mem_or_of_getElem?`), and when a
message-driven system drains.  For the latter a system is a handler
`deliver : μ → σ → σ × List μ`; each step takes one message out, loses it or
hands it to the handler, and puts the replies in flight.  If the weight of the
replies and of the new state stays below that of the old state and the message
consumed, the total weight bounds the length of every run (`Drain.length_le`).
-/
import Mathlib

namespace InfinitagNow

section TakeOut

variable {μ : Type*} {fl : List μ} {k : ℕ} {e x : μ}

theorem mem_of_mem_eraseIdx (h : x ∈ fl.eraseIdx k) : x ∈ fl :=
  List.eraseIdx_subset h

/-- Taking out `e` leaves every message in flight but possibly `e` itself. -/
theorem mem_or_of_getElem? (he : fl[k]? = some e) (hx : x ∈ fl) : x = e ∨ x ∈ fl.eraseIdx k := by
  induction fl generalizing k with
  | nil => simp at hx
  | cons a fl ih =>
    cases k with
    | zero =>
      obtain rfl : a = e := by simpa using he
      simpa using hx
    | succ k =>
      rcases List.mem_cons.1 hx with rfl | hx
      · exact .inr (by simp)
      · rcases ih (by simpa using he) hx with rfl | hmem
        · exact .inl rfl
        · exact .inr (by simp [hmem])

theorem sum_map_eraseIdx (w : μ → ℕ) (he : fl[k]? = some e) :
    (fl.map w).sum = w e + ((fl.eraseIdx k).map w).sum := by
  induction fl generalizing k with
  | nil => simp at he
  | cons a fl ih =>
    cases k with
    | zero =>
      obtain rfl : a = e := by simpa using he
      simp
    | succ k =>
      have := ih (k := k) (by simpa using he)
      simp only [List.map_cons, List.sum_cons, List.eraseIdx_cons_succ]
      omega

end TakeOut

/-! ### Draining -/

namespace Drain

variable {σ μ : Type*}

/-- One message is delivered or lost. -/
inductive Step (deliver : μ → σ → σ × List μ) : σ × List μ → σ × List μ → Prop
  | deliver (s : σ) (fl : List μ) (k : ℕ) (e : μ) (he : fl[k]? = some e) :
      Step deliver (s, fl) ((deliver e s).1, fl.eraseIdx k ++ (deliver e s).2)
  | lose (s : σ) (fl : List μ) (k : ℕ) (e : μ) (he : fl[k]? = some e) :
      Step deliver (s, fl) (s, fl.eraseIdx k)

/-- `n` messages are delivered or lost, one after the other. -/
inductive Run (deliver : μ → σ → σ × List μ) : ℕ → σ × List μ → σ × List μ → Prop
  | refl (c : σ × List μ) : Run deliver 0 c c
  | tail {n : ℕ} {c c' c'' : σ × List μ} :
      Run deliver n c c' → Step deliver c' c'' → Run deliver (n + 1) c c''

variable {deliver : μ → σ → σ × List μ}

/-- A weight that every delivery lowers. -/
structure Weight (deliver : μ → σ → σ × List μ) (Inv : σ → Prop) where
  state : σ → ℕ
  message : μ → ℕ
  pos : ∀ e, 0 < message e
  inv : ∀ {s}, Inv s → ∀ e, Inv (deliver e s).1
  lower : ∀ {s}, Inv s → ∀ e,
    state (deliver e s).1 + ((deliver e s).2.map message).sum < state s + message e

namespace Weight

variable {Inv : σ → Prop} (W : Weight deliver Inv)

/-- The weight of a state and of everything in flight. -/
def total (c : σ × List μ) : ℕ := W.state c.1 + (c.2.map W.message).sum

theorem step {c c' : σ × List μ} (hc : Inv c.1) (h : Step deliver c c') :
    Inv c'.1 ∧ W.total c' < W.total c := by
  cases h with
  | deliver s fl k e he =>
    refine ⟨W.inv hc e, ?_⟩
    have hlow := W.lower hc e
    dsimp only at hlow
    have hsum := sum_map_eraseIdx W.message he
    simp only [total, List.map_append, List.sum_append]
    omega
  | lose s fl k e he =>
    refine ⟨hc, ?_⟩
    have hpos := W.pos e
    have hsum := sum_map_eraseIdx W.message he
    simp only [total]
    omega

/-- No run is longer than the weight it starts with. -/
theorem length_le {n : ℕ} {c c' : σ × List μ} (hc : Inv c.1) (h : Run deliver n c c') :
    Inv c'.1 ∧ n + W.total c' ≤ W.total c := by
  induction h with
  | refl c => exact ⟨hc, by omega⟩
  | tail _ hstep ih =>
    obtain ⟨hinv, hle⟩ := ih hc
    obtain ⟨hinv', hlt⟩ := W.step hinv hstep
    exact ⟨hinv', by omega⟩

end Weight

end Drain

end InfinitagNow
