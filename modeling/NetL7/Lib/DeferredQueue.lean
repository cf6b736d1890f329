import Mathlib.Data.List.Basic
import Mathlib.Tactic.Common

/-!
# Command queues that are executed later

A controller updates part of its state when a request is accepted and queues
commands that update the rest when they are executed. `flush` is the state
reached once the whole queue has been executed. Executing the head of the
queue does not change the flushed state, and an update that commutes with the
queued commands acts on the flushed state as if the queue were empty.
-/

namespace NetL7.Lib

variable {κ σ β : Type*} (exec : κ → σ → σ)

/-- Execute every queued command, oldest first. -/
def flush (q : List κ) (x : σ) : σ := q.foldl (fun y c ↦ exec c y) x

@[simp] theorem flush_nil (x : σ) : flush exec [] x = x := rfl

@[simp] theorem flush_cons (c : κ) (q : List κ) (x : σ) :
    flush exec (c :: q) x = flush exec q (exec c x) := rfl

theorem flush_append (q r : List κ) (x : σ) :
    flush exec (q ++ r) x = flush exec r (flush exec q x) := by
  simp [flush]

/-- An eager update may be moved past every queued command it commutes with. -/
theorem flush_comm {f : σ → σ} {q : List κ}
    (h : ∀ c ∈ q, ∀ y, exec c (f y) = f (exec c y)) (x : σ) :
    flush exec q (f x) = f (flush exec q x) := by
  induction q generalizing x with
  | nil => rfl
  | cons c q ih =>
      have hc : exec c (f x) = f (exec c x) := h c (by simp) x
      rw [flush_cons, flush_cons, hc]
      exact ih (fun c' hc' ↦ h c' (by simp [hc'])) (exec c x)

/-- A part of the state that no queued command touches is already settled. -/
theorem flush_frame {p : σ → β} {q : List κ}
    (h : ∀ c ∈ q, ∀ y, p (exec c y) = p y) (x : σ) :
    p (flush exec q x) = p x := by
  induction q generalizing x with
  | nil => rfl
  | cons c q ih =>
      rw [flush_cons, ih (fun c' hc' ↦ h c' (by simp [hc'])), h c (by simp)]

/-- A property of the state that every queued command preserves holds after
the flush. -/
theorem flush_induct {P : σ → Prop} {q : List κ}
    (h : ∀ c ∈ q, ∀ y, P y → P (exec c y)) {x : σ} (hx : P x) :
    P (flush exec q x) := by
  induction q generalizing x with
  | nil => exact hx
  | cons c q ih =>
      exact ih (fun c' hc' ↦ h c' (by simp [hc'])) (h c (by simp) x hx)

/-- Each queued command meets its precondition when its turn comes. -/
def Legal (pre : κ → σ → Prop) : List κ → σ → Prop
  | [], _ => True
  | c :: q, x => pre c x ∧ Legal pre q (exec c x)

variable {exec} {pre : κ → σ → Prop}

@[simp] theorem legal_nil (x : σ) : Legal exec pre [] x := trivial

@[simp] theorem legal_cons (c : κ) (q : List κ) (x : σ) :
    Legal exec pre (c :: q) x ↔ pre c x ∧ Legal exec pre q (exec c x) := Iff.rfl

theorem legal_append (q r : List κ) (x : σ) :
    Legal exec pre (q ++ r) x ↔
      Legal exec pre q x ∧ Legal exec pre r (flush exec q x) := by
  induction q generalizing x with
  | nil => simp
  | cons c q ih => simp [ih, and_assoc]

/-- An eager update that neither the commands nor their preconditions read
leaves the queue legal. -/
theorem legal_comm {f : σ → σ} {q : List κ}
    (h : ∀ c ∈ q, ∀ y, exec c (f y) = f (exec c y))
    (hp : ∀ c ∈ q, ∀ y, pre c y → pre c (f y)) {x : σ}
    (hq : Legal exec pre q x) : Legal exec pre q (f x) := by
  induction q generalizing x with
  | nil => trivial
  | cons c q ih =>
      obtain ⟨hc, hq⟩ := hq
      refine ⟨hp c (by simp) x hc, ?_⟩
      rw [h c (by simp)]
      exact ih (fun c' hc' ↦ h c' (by simp [hc'])) (fun c' hc' ↦ hp c' (by simp [hc'])) hq

end NetL7.Lib
