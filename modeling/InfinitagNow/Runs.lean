/-
InfinitagNow/Runs.lean

Runs of a step function over a list of events.

`foldl_chain` is the induction behind statements about the two ends of a run: a
relation that every step keeps up holds between any two moments.  `Inserted`
puts extra events into a run; when each of them is a stutter for a relation that
the steps preserve, both runs end related (`Inserted.run`).  `runTotal_add_le` is
the potential method: if every step pays its cost out of a credit and of what it
takes from a potential, so does the run.  `Along` is a condition on every step of
a run, each in the state it finds; `Along.run` is the invariant rule under it.
-/
import Mathlib

namespace InfinitagNow

variable {σ ε : Type*} {step : σ → ε → σ}

/-- What every step does to a state that satisfies the invariant, a run does. -/
theorem foldl_chain {Inv : σ → Prop} {R : σ → σ → Prop} (hrefl : ∀ {a}, Inv a → R a a)
    (htrans : ∀ {a b c}, R a b → R b c → R a c)
    (hstep : ∀ {a}, Inv a → ∀ e, Inv (step a e) ∧ R a (step a e)) {a : σ} (h : Inv a)
    (es : List ε) : Inv (es.foldl step a) ∧ R a (es.foldl step a) := by
  induction es generalizing a with
  | nil => exact ⟨h, hrefl h⟩
  | cons e es ih =>
    obtain ⟨hinv, hR⟩ := hstep h e
    obtain ⟨hinv', hR'⟩ := ih hinv
    exact ⟨hinv', htrans hR hR'⟩

/-- The second list of events is the first with extra ones put in, each in a
state of the first run that admits it. -/
inductive Inserted (step : σ → ε → σ) (Admits : σ → ε → Prop) : σ → List ε → List ε → Prop
  | nil (a : σ) : Inserted step Admits a [] []
  | keep {a : σ} {e : ε} {es es' : List ε} (h : Inserted step Admits (step a e) es es') :
      Inserted step Admits a (e :: es) (e :: es')
  | extra {a : σ} {e : ε} {es es' : List ε} (hadmits : Admits a e)
      (h : Inserted step Admits a es es') : Inserted step Admits a es (e :: es')

/-- **Stuttering simulation**: steps preserve the relation, extra events of the
second run keep it. -/
theorem Inserted.run {Admits : σ → ε → Prop} {R : σ → σ → Prop}
    (hstep : ∀ {a b}, R a b → ∀ e, R (step a e) (step b e))
    (hextra : ∀ {a b e}, R a b → Admits a e → R a (step b e)) {a b : σ} {es es' : List ε}
    (h : Inserted step Admits a es es') (hR : R a b) :
    R (es.foldl step a) (es'.foldl step b) := by
  induction h generalizing b with
  | nil => exact hR
  | keep _ ih => exact ih (hstep hR _)
  | extra hadmits _ ih => exact ih (hextra hR hadmits)

/-- Every event of a run meets a condition in the state it finds. -/
def Along (step : σ → ε → σ) (P : σ → ε → Prop) : σ → List ε → Prop
  | _, [] => True
  | a, e :: es => P a e ∧ Along step P (step a e) es

instance decidableAlong {P : σ → ε → Prop} [∀ a e, Decidable (P a e)] :
    ∀ (a : σ) (es : List ε), Decidable (Along step P a es)
  | _, [] => inferInstanceAs (Decidable True)
  | a, e :: es =>
    have : Decidable (Along step P (step a e) es) := decidableAlong (step a e) es
    inferInstanceAs (Decidable (P a e ∧ _))

theorem along_append {P : σ → ε → Prop} {a : σ} {es es' : List ε} :
    Along step P a (es ++ es') ↔ Along step P a es ∧ Along step P (es.foldl step a) es' := by
  induction es generalizing a with
  | nil => simp [Along]
  | cons e es ih => simp [Along, ih, and_assoc]

/-- The same, event by event. -/
theorem along_iff {P : σ → ε → Prop} {a : σ} {es : List ε} :
    Along step P a es ↔ ∀ pre e post, es = pre ++ e :: post → P (pre.foldl step a) e := by
  constructor
  · rintro h pre e post rfl
    exact (along_append.1 h).2.1
  · intro h
    induction es generalizing a with
    | nil => trivial
    | cons e es ih =>
      exact ⟨h [] e es rfl, ih fun pre e' post heq => h (e :: pre) e' post (congrArg _ heq)⟩

/-- What the events that meet the condition keep, a run of them keeps. -/
theorem Along.run {I : σ → Prop} {P : σ → ε → Prop} {a : σ} {es : List ε}
    (hes : Along step P a es) (hstep : ∀ {a e}, e ∈ es → P a e → I a → I (step a e))
    (h : I a) : I (es.foldl step a) := by
  induction es generalizing a with
  | nil => exact h
  | cons e es ih =>
    exact ih hes.2 (fun hmem => hstep (List.mem_cons_of_mem _ hmem))
      (hstep List.mem_cons_self hes.1 h)

theorem Along.and {P Q : σ → ε → Prop} {a : σ} {es : List ε} (hP : Along step P a es)
    (hQ : Along step Q a es) : Along step (fun a e => P a e ∧ Q a e) a es :=
  along_iff.2 fun pre e post heq => ⟨along_iff.1 hP pre e post heq, along_iff.1 hQ pre e post heq⟩

/-- A quantity of the steps, summed up along a run. -/
def runTotal (step : σ → ε → σ) (cost : σ → ε → ℕ) : σ → List ε → ℕ
  | _, [] => 0
  | a, e :: es => cost a e + runTotal step cost (step a e) es

/-- **Potential method**: what every step pays, a run pays. -/
theorem runTotal_add_le {Inv : σ → Prop} {E : ε → Prop} {Φ : σ → ℕ} {cost credit : σ → ε → ℕ}
    (hstep : ∀ {a}, Inv a → ∀ {e}, E e →
      Inv (step a e) ∧ cost a e + Φ (step a e) ≤ credit a e + Φ a)
    {a : σ} (h : Inv a) {es : List ε} (hes : ∀ e ∈ es, E e) :
    runTotal step cost a es + Φ (es.foldl step a) ≤ runTotal step credit a es + Φ a := by
  induction es generalizing a with
  | nil => simp [runTotal]
  | cons e es ih =>
    obtain ⟨hinv, hle⟩ := hstep h (hes e List.mem_cons_self)
    have hrest := ih hinv fun e' he' => hes e' (List.mem_cons_of_mem _ he')
    simp only [runTotal, List.foldl_cons]
    omega

end InfinitagNow
