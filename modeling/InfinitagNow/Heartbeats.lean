/-
InfinitagNow/Heartbeats.lean

Periodic messages over a channel that delays and loses some of them.

Times are natural numbers.  The sender's messages are at most `g` apart
(`Paced`), the channel needs at most `δ` for a message and never loses more than
`k` in a row (`Carried`).  Then the receiver has always heard something in the
last `(k + 1) * g + δ` (`heard_recently`), from its first message on and for as
long as the sender goes on.
-/
import Mathlib

namespace InfinitagNow

variable {g k δ A B T : ℕ} {Bs Rs : List ℕ}

/-- The times do not go back, and are at most `g` apart. -/
def Paced (g : ℕ) (Bs : List ℕ) : Prop := List.IsChain (fun a b => a ≤ b ∧ b ≤ a + g) Bs

/-- Of any `k` + 1 messages in a row, one is received within `δ`. -/
def Carried (k δ : ℕ) (Bs Rs : List ℕ) : Prop :=
  ∀ i < Bs.length - k, ∃ B ∈ (Bs.drop i).take (k + 1), ∃ R ∈ Rs, B ≤ R ∧ R ≤ B + δ

instance : Decidable (Carried k δ Bs Rs) :=
  inferInstanceAs (Decidable (∀ i < _, ∃ B ∈ _, ∃ R ∈ _, _))

theorem Carried.tail (h : Carried k δ (B :: Bs) Rs) : Carried k δ Bs Rs := fun i hi =>
  h (i + 1) (by simp only [List.length_cons]; omega)

/-- The pace does not depend on where the clock starts. -/
theorem paced_map_add {n : ℕ} (h : Paced g (Bs.map (· + n))) : Paced g Bs := by
  unfold Paced at h ⊢
  rw [List.isChain_map] at h
  exact h.imp fun a b hab => by omega

/-- The first messages, none of them later than the pace allows. -/
theorem Paced.mem_take (h : Paced g (B :: Bs)) {n : ℕ} {b : ℕ}
    (hb : b ∈ (B :: Bs).take (n + 1)) : B ≤ b ∧ b ≤ B + n * g := by
  induction n generalizing B Bs with
  | zero =>
    obtain rfl : b = B := by simpa using hb
    omega
  | succ n ih =>
    rw [List.take_succ_cons] at hb
    rcases List.mem_cons.1 hb with rfl | hb
    · omega
    · cases Bs with
      | nil => simp at hb
      | cons B' Bs =>
        obtain ⟨⟨hle, hgap⟩, hrest⟩ := List.isChain_cons_cons.1 h
        obtain ⟨hlow, hhigh⟩ := ih hrest hb
        rw [Nat.succ_mul]
        omega

/-- Messages that are repeated at once. -/
theorem Paced.repeated (h : Paced g (B :: Bs)) (hle : A ≤ B) (hgap : B ≤ A + g) (n : ℕ) :
    Paced g (A :: (List.replicate (n + 1) B ++ Bs)) := by
  induction n generalizing A with
  | zero => exact List.isChain_cons_cons.2 ⟨⟨hle, hgap⟩, h⟩
  | succ n ih => exact List.isChain_cons_cons.2 ⟨⟨hle, hgap⟩, ih le_rfl (Nat.le_add_right B g)⟩

/-- **Heard recently**: up to the last message and what it covers, either the
first `k` + 1 messages are not over, or one was heard not long ago. -/
theorem heard_recently (hpace : Paced g Bs) (hcarried : Carried k δ Bs Rs)
    (hlast : ∃ L ∈ Bs, T ≤ L + g + δ) :
    (∃ b ∈ Bs.head?, T ≤ b + k * g + δ) ∨ ∃ R ∈ Rs, R < T ∧ T ≤ R + (k + 1) * g + δ := by
  induction Bs with
  | nil =>
    obtain ⟨L, hL, -⟩ := hlast
    exact absurd hL List.not_mem_nil
  | cons B Bs ih =>
    obtain ⟨L, hL, hT⟩ := hlast
    -- the messages after the first settle it, or `T` is not far from the first
    have hrest : T ≤ B + (k + 1) * g + δ ∨ ∃ R ∈ Rs, R < T ∧ T ≤ R + (k + 1) * g + δ := by
      have hsplit : (k + 1) * g = k * g + g := Nat.succ_mul k g
      rcases List.mem_cons.1 hL with rfl | hL
      · left
        omega
      · rcases ih (List.IsChain.tail hpace) hcarried.tail ⟨L, hL, hT⟩ with ⟨b, hb, hle⟩ | hheard
        · left
          cases Bs with
          | nil => exact absurd hL List.not_mem_nil
          | cons B' Bs =>
            obtain rfl : B' = b := by simpa using hb
            have hgap := (List.isChain_cons_cons.1 hpace).1.2
            omega
        · exact .inr hheard
    rcases hrest with hnear | hheard
    · by_cases hearly : T ≤ B + k * g + δ
      · exact .inl ⟨B, rfl, hearly⟩
      · by_cases hlen : k + 1 ≤ (B :: Bs).length
        · -- one of the first `k` + 1 messages was heard
          obtain ⟨b, hb, R, hR, hlow, hhigh⟩ := hcarried 0 (by omega)
          rw [List.drop_zero] at hb
          obtain ⟨hBb, hbB⟩ := hpace.mem_take hb
          exact .inr ⟨R, hR, by omega, by omega⟩
        · -- there are not that many
          obtain ⟨n, hn⟩ : ∃ n, k = n + 1 := ⟨k - 1, by simp at hlen; omega⟩
          have htake : (B :: Bs).take (n + 1) = B :: Bs := List.take_of_length_le (by omega)
          obtain ⟨-, hLB⟩ := hpace.mem_take (htake.symm ▸ hL)
          rw [hn, Nat.succ_mul] at hearly
          omega
    · exact .inr hheard

end InfinitagNow
