import Mathlib.Tactic.Common

/-!
# Outcomes of computations that may stop

`Outcome P E m` says that `m` either returns a value with `P` or stops with an
error from `E`. With an empty `E` it is total correctness, with the trivial `E`
partial correctness; the rules below keep `E` a parameter so that one proof
serves both.
-/

namespace NetL7.Lib

universe u v w

variable {ε : Type u} {α β : Type v} {P P' : α → Prop} {Q : β → Prop} {E E' : ε → Prop}

/-- The value returned satisfies `P`, the error raised satisfies `E`. -/
def Outcome (P : α → Prop) (E : ε → Prop) : Except ε α → Prop
  | .ok a => P a
  | .error e => E e

@[simp] theorem outcome_ok (a : α) : Outcome P E (.ok a) ↔ P a := Iff.rfl

@[simp] theorem outcome_pure (a : α) : Outcome P E (pure a) ↔ P a := Iff.rfl

@[simp] theorem outcome_error (e : ε) : Outcome P E (.error e) ↔ E e := Iff.rfl

instance Outcome.decidable [DecidablePred P] [DecidablePred E] :
    (m : Except ε α) → Decidable (Outcome P E m)
  | .ok a => inferInstanceAs (Decidable (P a))
  | .error e => inferInstanceAs (Decidable (E e))

theorem Outcome.mono {m : Except ε α} (h : Outcome P E m) (hP : ∀ a, P a → P' a)
    (hE : ∀ e, E e → E' e) : Outcome P' E' m := by
  cases m with
  | ok a => exact hP a h
  | error e => exact hE e h

theorem Outcome.imp {m : Except ε α} (h : Outcome P E m) (hP : ∀ a, P a → P' a) :
    Outcome P' E m :=
  h.mono hP fun _ he ↦ he

/-- Two facts about the value returned, of which the second says nothing about errors. -/
theorem Outcome.and {m : Except ε α} (h : Outcome P E m) (h' : Outcome P' (fun _ ↦ True) m) :
    Outcome (fun a ↦ P a ∧ P' a) E m := by
  cases m with
  | ok a => exact ⟨h, h'⟩
  | error e => exact h

/-- The bind rule: the second computation starts where the first one ended. -/
theorem Outcome.bind {m : Except ε α} {f : α → Except ε β} (h : Outcome P E m)
    (hf : ∀ a, P a → Outcome Q E (f a)) : Outcome Q E (m >>= f) := by
  cases m with
  | ok a => exact hf a h
  | error e => exact h

/-- The loop rule. The invariant also sees the elements still to come. -/
theorem Outcome.foldlM {γ : Type w} (I : List γ → α → Prop) {f : α → γ → Except ε α}
    (hf : ∀ x xs a, I (x :: xs) a → Outcome (I xs) E (f a x)) {xs : List γ} {a : α}
    (ha : I xs a) : Outcome (I []) E (xs.foldlM f a) := by
  induction xs generalizing a with
  | nil => exact ha
  | cons x xs ih =>
      rw [List.foldlM_cons]
      exact Outcome.bind (hf x xs a ha) fun a' ha' ↦ ih ha'

theorem Outcome.of_eq_ok {m : Except ε α} {a : α} (h : Outcome P E m) (hm : m = .ok a) :
    P a := by
  rwa [hm, outcome_ok] at h

theorem Outcome.of_eq_error {m : Except ε α} {e : ε} (h : Outcome P E m)
    (hm : m = .error e) : E e := by
  rwa [hm, outcome_error] at h

end NetL7.Lib
