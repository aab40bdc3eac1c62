/-
InfinitagNow/RingBuffer.lean

A ring buffer with a head and a tail index, one slot always left free.

`push` writes at the head and drops the item when the ring is full, `pop` reads
at the tail.  Seen from outside the ring is the list of its items, oldest first
(`toList`), never longer than `N - 1`: `toList_push`, `toList_of_pop_some` and
`toList_of_pop_none` are all a user of the ring needs to know.
-/
import Mathlib

namespace InfinitagNow

structure Ring (α : Type*) (N : ℕ) where
  head : Fin N
  tail : Fin N
  slots : Fin N → α

namespace Ring

variable {α : Type*} {N : ℕ}

/-- The slot `k` places after `i`. -/
def after (i : Fin N) (k : ℕ) : Fin N := ⟨(i + k) % N, Nat.mod_lt _ i.pos⟩

/-- Store `x` unless the ring is full. -/
def push (r : Ring α N) (x : α) : Ring α N :=
  let next := after r.head 1
  if next ≠ r.tail then
    { r with slots := Function.update r.slots r.head x, head := next }
  else r

/-- Take the oldest item out. -/
def pop (r : Ring α N) : Option (α × Ring α N) :=
  if r.tail ≠ r.head then some (r.slots r.tail, { r with tail := after r.tail 1 })
  else none

/-! ### The ring as a list -/

/-- How many items are stored. -/
def length (r : Ring α N) : ℕ := (r.head + N - r.tail) % N

/-- The items, oldest first. -/
def toList (r : Ring α N) : List α :=
  (List.range r.length).map fun k => r.slots (after r.tail k)

theorem after_zero (i : Fin N) : after i 0 = i :=
  Fin.ext (Nat.mod_eq_of_lt i.isLt)

theorem after_after (i : Fin N) (k l : ℕ) : after (after i k) l = after i (k + l) :=
  Fin.ext (by simp [after, Nat.add_assoc])

/-- Walking less than once around never comes back. -/
theorem after_inj {i : Fin N} {k l : ℕ} (hk : k < N) (hl : l < N) (h : after i k = after i l) :
    k = l := by
  have hmod : k ≡ l [MOD N] := Nat.ModEq.add_left_cancel' (i : ℕ) (congrArg Fin.val h)
  exact Nat.ModEq.eq_of_lt_of_lt hmod hk hl

theorem length_lt (r : Ring α N) : r.length < N := Nat.mod_lt _ r.head.pos

/-- The head is as many slots after the tail as items are stored. -/
theorem after_tail_length (r : Ring α N) : after r.tail r.length = r.head := by
  apply Fin.ext
  have hh := r.head.isLt
  have ht := r.tail.isLt
  simp only [after, length, Nat.add_mod_mod]
  rw [show (r.tail : ℕ) + (r.head + N - r.tail) = r.head + N by omega, Nat.add_mod_right,
    Nat.mod_eq_of_lt hh]

/-- The length is determined by where the head is. -/
theorem length_eq {r : Ring α N} {n : ℕ} (hn : n < N) (h : after r.tail n = r.head) :
    r.length = n :=
  after_inj r.length_lt hn (r.after_tail_length.trans h.symm)

theorem length_eq_zero_iff {r : Ring α N} : r.length = 0 ↔ r.tail = r.head := by
  constructor
  · intro h
    rw [← r.after_tail_length, h, after_zero]
  · intro h
    exact length_eq r.head.pos (by rw [after_zero, h])

@[simp] theorem length_toList (r : Ring α N) : r.toList.length = r.length := by
  simp [toList]

/-- The ring is full when the slot after the head is the tail. -/
theorem next_eq_tail_iff (r : Ring α N) : after r.head 1 = r.tail ↔ r.length + 1 = N := by
  have hlt := r.length_lt
  rw [← r.after_tail_length, after_after]
  constructor
  · intro h
    by_contra hne
    have : r.length + 1 = 0 := after_inj (by omega) r.head.pos (h.trans (after_zero _).symm)
    omega
  · intro h
    rw [h]
    exact Fin.ext (by simp [after, Nat.mod_eq_of_lt r.tail.isLt])

/-- **Storing** appends the item, or drops it when the ring is full. -/
theorem toList_push (r : Ring α N) (x : α) :
    (r.push x).toList = if r.length + 1 < N then r.toList ++ [x] else r.toList := by
  have hlt := r.length_lt
  by_cases hfull : after r.head 1 = r.tail
  · have := r.next_eq_tail_iff.1 hfull
    rw [if_neg (by omega)]
    simp [push, hfull]
  · have hroom : r.length + 1 < N := by
      have : r.length + 1 ≠ N := fun h => hfull (r.next_eq_tail_iff.2 h)
      omega
    have hpush : r.push x =
        { r with slots := Function.update r.slots r.head x, head := after r.head 1 } := by
      simp [push, hfull]
    have hlen : (r.push x).length = r.length + 1 := by
      refine length_eq hroom ?_
      rw [hpush, ← r.after_tail_length, after_after]
    rw [if_pos hroom, toList, hlen, List.range_succ, List.map_append]
    congr 1
    · refine List.map_congr_left fun k hk => ?_
      have hk : k < r.length := List.mem_range.1 hk
      -- no stored item is in the slot written
      have hne : after r.tail k ≠ r.head := by
        intro h
        have := after_inj (by omega) hlt (h.trans r.after_tail_length.symm)
        omega
      simp [hpush, Function.update_of_ne hne]
    · simp [hpush, r.after_tail_length]

/-- Storing, with what becomes of the length. -/
theorem push_cases (r : Ring α N) (x : α) :
    (r.push x).toList = r.toList ++ [x] ∧ (r.push x).length = r.length + 1 ∨
      (r.push x).toList = r.toList ∧ (r.push x).length = r.length := by
  have hlist := toList_push r x
  split at hlist
  · refine .inl ⟨hlist, ?_⟩
    rw [← length_toList, hlist, List.length_append, length_toList]
    rfl
  · refine .inr ⟨hlist, ?_⟩
    rw [← length_toList, hlist, length_toList]

/-- **Taking out** gives the first item, and fails only on the empty ring. -/
theorem pop_of_toList_cons {r : Ring α N} {x : α} {l : List α} (h : r.toList = x :: l) :
    ∃ r', r.pop = some (x, r') ∧ r'.toList = l := by
  have hlen : r.length = l.length + 1 := by
    rw [← length_toList, h, List.length_cons]
  have hne : r.tail ≠ r.head := by
    rw [ne_eq, ← length_eq_zero_iff]
    omega
  have hlt := r.length_lt
  have hlen' : length { r with tail := after r.tail 1 } = l.length := by
    refine length_eq (by omega) ?_
    rw [after_after, Nat.add_comm, ← hlen, r.after_tail_length]
  have hcons : r.toList = r.slots r.tail :: toList { r with tail := after r.tail 1 } := by
    rw [toList, toList, hlen, hlen', List.range_succ_eq_map]
    simp [after_zero, after_after, Nat.add_comm, Function.comp_def]
  rw [h, List.cons.injEq] at hcons
  exact ⟨_, by simp [pop, hne, hcons.1], hcons.2.symm⟩

theorem pop_of_toList_nil {r : Ring α N} (h : r.toList = []) : r.pop = none := by
  have : r.length = 0 := by rw [← length_toList, h, List.length_nil]
  simp [pop, length_eq_zero_iff.1 this]

theorem toList_of_pop_none {r : Ring α N} (h : r.pop = none) : r.toList = [] := by
  cases hl : r.toList with
  | nil => rfl
  | cons x l =>
    obtain ⟨r', hpop, -⟩ := pop_of_toList_cons hl
    simp [h] at hpop

theorem toList_of_pop_some {r r' : Ring α N} {x : α} (h : r.pop = some (x, r')) :
    r.toList = x :: r'.toList := by
  cases hl : r.toList with
  | nil => simp [pop_of_toList_nil hl] at h
  | cons y l =>
    obtain ⟨r'', hpop, hl'⟩ := pop_of_toList_cons hl
    rw [h] at hpop
    obtain ⟨rfl, rfl⟩ : x = y ∧ r' = r'' := by simpa using hpop
    rw [hl']

theorem length_of_pop_some {r r' : Ring α N} {x : α} (h : r.pop = some (x, r')) :
    r'.length + 1 = r.length := by
  rw [← length_toList, ← length_toList, toList_of_pop_some h, List.length_cons]

/-- An item in the ring after a `push` was there before or is the one pushed. -/
theorem mem_toList_push {r : Ring α N} {x y : α} (h : y ∈ (r.push x).toList) :
    y ∈ r.toList ∨ y = x := by
  rw [toList_push] at h
  split at h
  · simpa using h
  · exact .inl h

end Ring

end InfinitagNow
