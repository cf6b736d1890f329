import Mathlib.Data.List.Basic

/-!
# Runs of a system

A run is the list of the events that happened, each with the state it led to. An
invariant is carried along a run by its steps; if every step keeps it exactly
under a condition on the state before, then it holds along the whole run exactly
if each event happened where the condition allows it.
-/

namespace NetL7.Lib

universe u v

variable {σ : Type u} {ε : Type v} {step : σ → ε → σ → Prop} {s : σ} {run : List (ε × σ)}

/-- The runs that start in a state. -/
inductive Run (step : σ → ε → σ → Prop) : σ → List (ε × σ) → Prop
  | nil (s : σ) : Run step s []
  | cons {s s' : σ} {e : ε} {run : List (ε × σ)} (hstep : step s e s') (hrun : Run step s' run) :
      Run step s ((e, s') :: run)

/-- Every event of the run happens where `C` allows it. -/
def Along (C : σ → ε → Prop) : σ → List (ε × σ) → Prop
  | _, [] => True
  | s, (e, s') :: run => C s e ∧ Along C s' run

/-- Every step of the run has the property `Q`. -/
def AlongSteps (Q : σ → ε → σ → Prop) : σ → List (ε × σ) → Prop
  | _, [] => True
  | s, (e, s') :: run => Q s e s' ∧ AlongSteps Q s' run

@[simp] theorem along_nil (C : σ → ε → Prop) (s : σ) : Along C s [] := trivial

@[simp] theorem along_cons {C : σ → ε → Prop} {s s' : σ} {e : ε} {run : List (ε × σ)} :
    Along C s ((e, s') :: run) ↔ C s e ∧ Along C s' run := Iff.rfl

@[simp] theorem alongSteps_cons {Q : σ → ε → σ → Prop} {s s' : σ} {e : ε}
    {run : List (ε × σ)} :
    AlongSteps Q s ((e, s') :: run) ↔ Q s e s' ∧ AlongSteps Q s' run := Iff.rfl

theorem alongSteps_forall_mem (I : σ → Prop) :
    AlongSteps (fun _ (_ : ε) s' ↦ I s') s run ↔ ∀ x ∈ run, I x.2 := by
  induction run generalizing s with
  | nil => exact ⟨fun _ x hx ↦ absurd hx List.not_mem_nil, fun _ ↦ trivial⟩
  | cons x run ih => rw [List.forall_mem_cons, alongSteps_cons, ih]

namespace Run

variable {I : σ → Prop} {C : σ → ε → Prop} {Q : σ → ε → σ → Prop}

/-- A property of steps that each step has exactly under a condition, and that
leaves the invariant behind. -/
theorem alongSteps_iff_along (hrun : Run step s run) (hs : I s)
    (hstep : ∀ s e s', I s → step s e s' → (Q s e s' ↔ C s e))
    (hnext : ∀ s e s', I s → step s e s' → Q s e s' → I s') :
    AlongSteps Q s run ↔ Along C s run := by
  induction hrun with
  | nil s => exact Iff.rfl
  | cons hfirst _ ih =>
    rw [alongSteps_cons, along_cons]
    constructor
    · rintro ⟨hQ, hrest⟩
      exact ⟨(hstep _ _ _ hs hfirst).mp hQ, (ih (hnext _ _ _ hs hfirst hQ)).mp hrest⟩
    · rintro ⟨hC, hrest⟩
      have hQ := (hstep _ _ _ hs hfirst).mpr hC
      exact ⟨hQ, (ih (hnext _ _ _ hs hfirst hQ)).mpr hrest⟩

/-- An invariant that each step keeps exactly under a condition. -/
theorem forall_mem_iff_along (hrun : Run step s run) (hs : I s)
    (hstep : ∀ s e s', I s → step s e s' → (I s' ↔ C s e)) :
    (∀ x ∈ run, I x.2) ↔ Along C s run := by
  rw [← alongSteps_forall_mem (s := s)]
  exact hrun.alongSteps_iff_along hs hstep fun _ _ _ _ _ h ↦ h

end Run

end NetL7.Lib
