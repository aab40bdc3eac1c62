/-
InfinitagNow/SlotTable.lean

A table of `n` slots, each free or holding a key.

`Holds` is the set of its keys, `Distinct` says that no key stands in two slots.
Storing a new key in a free slot adds it to the set, freeing a slot removes its
key; both keep the keys distinct.  A set of keys in the table has at most `n`
elements.
-/
import Mathlib

namespace InfinitagNow

namespace SlotTable

variable {n : ℕ} {κ : Type*} {t : Fin n → Option κ} {i : Fin n} {k : κ}

def Holds (t : Fin n → Option κ) (k : κ) : Prop := ∃ i, t i = some k

def Distinct (t : Fin n → Option κ) : Prop := ∀ ⦃i j k⦄, t i = some k → t j = some k → i = j

/-- A key is stored in a free slot. -/
theorem holds_update_some (hfree : t i = none) {k' : κ} :
    Holds (Function.update t i (some k)) k' ↔ Holds t k' ∨ k' = k := by
  constructor
  · rintro ⟨j, hj⟩
    by_cases hji : j = i
    · subst hji
      rw [Function.update_self] at hj
      exact .inr (Option.some.inj hj).symm
    · rw [Function.update_of_ne hji] at hj
      exact .inl ⟨j, hj⟩
  · rintro (⟨j, hj⟩ | rfl)
    · have hji : j ≠ i := by
        rintro rfl
        rw [hfree] at hj
        cases hj
      exact ⟨j, by rw [Function.update_of_ne hji, hj]⟩
    · exact ⟨i, Function.update_self _ _ _⟩

theorem Distinct.update_some (h : Distinct t) (hnew : ¬ Holds t k) :
    Distinct (Function.update t i (some k)) := by
  intro a b k' ha hb
  by_cases hai : a = i <;> by_cases hbi : b = i
  · rw [hai, hbi]
  · subst hai
    rw [Function.update_self] at ha
    rw [Function.update_of_ne hbi] at hb
    exact absurd ⟨b, by rw [hb, ha]⟩ hnew
  · subst hbi
    rw [Function.update_self] at hb
    rw [Function.update_of_ne hai] at ha
    exact absurd ⟨a, by rw [ha, hb]⟩ hnew
  · rw [Function.update_of_ne hai] at ha
    rw [Function.update_of_ne hbi] at hb
    exact h ha hb

/-- A slot is freed. -/
theorem holds_update_none (h : Distinct t) (hi : t i = some k) {k' : κ} :
    Holds (Function.update t i none) k' ↔ Holds t k' ∧ k' ≠ k := by
  constructor
  · rintro ⟨j, hj⟩
    have hji : j ≠ i := by
      rintro rfl
      rw [Function.update_self] at hj
      cases hj
    rw [Function.update_of_ne hji] at hj
    refine ⟨⟨j, hj⟩, ?_⟩
    rintro rfl
    exact hji (h hj hi)
  · rintro ⟨⟨j, hj⟩, hne⟩
    have hji : j ≠ i := by
      rintro rfl
      exact hne (Option.some.inj (hj.symm.trans hi))
    exact ⟨j, by rw [Function.update_of_ne hji, hj]⟩

theorem Distinct.update_none (h : Distinct t) : Distinct (Function.update t i none) := by
  intro a b k' ha hb
  have hkept : ∀ {j}, Function.update t i none j = some k' → t j = some k' := by
    intro j hj
    by_cases hji : j = i
    · rw [hji, Function.update_self] at hj
      cases hj
    · rwa [Function.update_of_ne hji] at hj
  exact h (hkept ha) (hkept hb)

theorem card_le (t : Fin n → Option κ) {S : Finset κ} (hS : ∀ k ∈ S, Holds t k) : S.card ≤ n := by
  choose slot hslot using hS
  have hinj : Function.Injective fun k : S => slot k k.2 := by
    intro a b hab
    have ha := hslot a a.2
    have hb := hslot b b.2
    rw [show slot a a.2 = slot b b.2 from hab, hb] at ha
    exact Subtype.ext (Option.some.inj ha).symm
  simpa using Fintype.card_le_of_injective _ hinj

end SlotTable

end InfinitagNow
