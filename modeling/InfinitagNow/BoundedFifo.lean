/-
InfinitagNow/BoundedFifo.lean

A queue of bounded length, and what it means to implement one.

The queue itself is a list: `put` appends an item, unless `cap` items are waiting
already, and `take` removes the first.  A machine implements it when each of its
events is a `put`, a `take` or neither, does to the items waiting what the queue
does, and gets at a `take` the first of them (`Implements`).  From one event
follows every run: the machine's answers are those of the queue (`Serves`), so
that what was taken and what still waits are together what was accepted, in
order.  A ring with one slot left free implements a queue (`Ring.toList_put`,
`Ring.pop_take`).
-/
import InfinitagNow.RingBuffer

namespace InfinitagNow

namespace Fifo

variable {α : Type*}

inductive Op (α : Type*)
  | put (x : α)
  | take
  deriving DecidableEq, Repr

/-- The items waiting after an operation. -/
def step (cap : ℕ) (l : List α) : Op α → List α
  | .put x => if l.length = cap then l else l ++ [x]
  | .take => l.tail

def run (cap : ℕ) (l : List α) (ops : List (Op α)) : List α := ops.foldl (step cap) l

/-- What each `take` gets; nothing if nothing waits. -/
def answers (cap : ℕ) (l : List α) : List (Op α) → List (Option α)
  | [] => []
  | .put x :: ops => answers cap (step cap l (.put x)) ops
  | .take :: ops => l.head? :: answers cap l.tail ops

/-- The items that are not dropped. -/
def accepted (cap : ℕ) (l : List α) : List (Op α) → List α
  | [] => []
  | .put x :: ops =>
    if l.length = cap then accepted cap l ops else x :: accepted cap (l ++ [x]) ops
  | .take :: ops => accepted cap l.tail ops

/-! ### The queue -/

theorem length_step_le {cap : ℕ} {l : List α} (h : l.length ≤ cap) (op : Op α) :
    (step cap l op).length ≤ cap := by
  cases op with
  | put x =>
    rw [step]
    split
    · exact h
    · rw [List.length_append, List.length_singleton]
      omega
  | take =>
    rw [step, List.length_tail]
    omega

/-- Never more than `cap` items wait. -/
theorem length_run_le {cap : ℕ} {l : List α} (h : l.length ≤ cap) (ops : List (Op α)) :
    (run cap l ops).length ≤ cap :=
  List.foldlRecOn (motive := fun l : List α => l.length ≤ cap) ops _ h fun _ hl op _ =>
    length_step_le hl op

/-- **Conservation**: what was waiting and what was accepted is what was taken
and what waits, in order. -/
theorem conservation (cap : ℕ) (l : List α) (ops : List (Op α)) :
    l ++ accepted cap l ops = (answers cap l ops).reduceOption ++ run cap l ops := by
  induction ops generalizing l with
  | nil => simp [accepted, answers, run]
  | cons op ops ih =>
    have hrun : run cap l (op :: ops) = run cap (step cap l op) ops := rfl
    rw [hrun]
    cases op with
    | put x =>
      rw [accepted, answers, ← ih, step]
      split
      · rfl
      · rw [List.append_assoc, List.singleton_append]
    | take =>
      rw [accepted, answers, step]
      cases l with
      | nil => exact ih []
      | cons y l => exact congrArg (y :: ·) (ih l)

/-! ### Implementing a queue -/

section Implements

variable {σ ε : Type*} (next : σ → ε → σ) (op : σ → ε → Option (Op α)) (answer : σ → Option α)

/-- What the events of a run ask of the queue. -/
def ops (s : σ) : List ε → List (Op α)
  | [] => []
  | e :: es => (op s e).toList ++ ops (next s e) es

/-- What the machine gets, once for each `take`. -/
def got (s : σ) : List ε → List (Option α)
  | [] => []
  | e :: es => (if (op s e).any (· matches .take) then [answer s] else []) ++ got (next s e) es

/-- The events that meet `E` do to the items waiting what a queue of length `cap`
does. -/
structure Implements (cap : ℕ) (waiting : σ → List α) (E : ε → Prop) : Prop where
  put : ∀ {s e x}, E e → op s e = some (.put x) →
    waiting (next s e) = step cap (waiting s) (.put x)
  take : ∀ {s e}, E e → op s e = some .take →
    answer s = (waiting s).head? ∧ waiting (next s e) = (waiting s).tail
  idle : ∀ {s e}, E e → op s e = none → waiting (next s e) = waiting s

/-- A run that behaves like a queue, empty at first: the answers, the items
waiting at the end, their order and their number. -/
structure Serves (cap : ℕ) (ops : List (Op α)) (got : List (Option α)) (waiting : List α) :
    Prop where
  gets : got = answers cap [] ops
  waits : waiting = run cap [] ops
  order : accepted cap [] ops = got.reduceOption ++ waiting
  bounded : waiting.length ≤ cap

variable {next op answer} {cap : ℕ} {waiting : σ → List α} {E : ε → Prop}

/-- The run lemma. -/
theorem Implements.run (h : Implements next op answer cap waiting E) (s : σ) {es : List ε}
    (hes : ∀ e ∈ es, E e) :
    got next op answer s es = answers cap (waiting s) (ops next op s es) ∧
      waiting (es.foldl next s) = Fifo.run cap (waiting s) (ops next op s es) := by
  induction es generalizing s with
  | nil => exact ⟨rfl, rfl⟩
  | cons e es ih =>
    have he := hes e List.mem_cons_self
    obtain ⟨hgot, hwaiting⟩ := ih (next s e) fun e' hmem => hes e' (List.mem_cons_of_mem _ hmem)
    cases hop : op s e with
    | none =>
      rw [h.idle he hop] at hgot hwaiting
      simp only [got, ops, hop]
      exact ⟨hgot, hwaiting⟩
    | some o =>
      cases o with
      | put x =>
        rw [h.put he hop] at hgot hwaiting
        simp only [got, ops, hop]
        exact ⟨hgot, hwaiting⟩
      | take =>
        obtain ⟨hanswer, htail⟩ := h.take he hop
        rw [htail] at hgot hwaiting
        simp only [got, ops, hop, hanswer]
        exact ⟨congrArg ((waiting s).head? :: ·) hgot, hwaiting⟩

/-- **Refinement**: from an empty start every run of an implementation is one of
the queue. -/
theorem Implements.serves (h : Implements next op answer cap waiting E) {s : σ}
    (hempty : waiting s = []) {es : List ε} (hes : ∀ e ∈ es, E e) :
    Serves cap (ops next op s es) (got next op answer s es) (waiting (es.foldl next s)) := by
  obtain ⟨hgot, hwaiting⟩ := h.run s hes
  rw [hempty] at hgot hwaiting
  refine ⟨hgot, hwaiting, ?_, ?_⟩
  · rw [hgot, hwaiting]
    exact conservation cap [] _
  · rw [hwaiting]
    exact length_run_le (Nat.zero_le cap) _

end Implements

end Fifo

/-! ### Rings -/

namespace Ring

variable {α β : Type*} {cap : ℕ} (f : α → β)

/-- A ring with `cap + 1` slots, seen through `f`, is a queue of length `cap`. -/
theorem toList_put (r : Ring α (cap + 1)) (x : α) :
    (r.push x).toList.map f = Fifo.step cap (r.toList.map f) (.put (f x)) := by
  have hlt := r.length_lt
  rw [toList_push, Fifo.step, List.length_map, length_toList]
  by_cases hfull : r.length = cap
  · rw [if_pos hfull, if_neg (by omega)]
  · rw [if_neg hfull, if_pos (by omega), List.map_append]
    rfl

theorem pop_take {N : ℕ} (r : Ring α N) :
    (r.pop.map fun p => f p.1) = (r.toList.map f).head? := by
  cases hpop : r.pop with
  | none => rw [toList_of_pop_none hpop]; rfl
  | some p => rw [toList_of_pop_some hpop]; rfl

/-- A ring is empty when head and tail agree. -/
theorem toList_eq_nil {N : ℕ} {r : Ring α N} (h : r.head = r.tail) : r.toList = [] := by
  rw [← List.length_eq_zero_iff, length_toList, length_eq_zero_iff, h]

end Ring

end InfinitagNow
