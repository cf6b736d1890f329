import Mathlib.Data.Set.Basic

/-!
# Maximal runs

A run of a set of numbers is a piece of an arithmetic progression inside the set. Two runs that
cannot be made longer are the same or apart.
-/

namespace NetL7.Lib

variable {S : Set ℕ} {step start start' n n' : ℕ}

/-- `n` elements from `start` on, with no neighbour of the set on either side. -/
structure MaximalRun (S : Set ℕ) (step start n : ℕ) : Prop where
  pos : 0 < n
  mem : ∀ k < n, start + step * k ∈ S
  before : ∀ a ∈ S, a + step ≠ start
  after : start + step * n ∉ S

namespace MaximalRun

theorem start_mem (h : MaximalRun S step start n) : start ∈ S := by
  simpa using h.mem 0 h.pos

theorem le_of_start_eq (h : MaximalRun S step start n) (h' : MaximalRun S step start n') :
    n ≤ n' := by
  by_contra hlt
  exact h'.after (h.mem n' (by omega))

/-- The run that an element belongs to does not start behind another one. -/
theorem start_le (h : MaximalRun S step start n) (h' : MaximalRun S step start' n')
    {k k' : ℕ} (hk' : k' < n') (heq : start + step * k = start' + step * k') : k' ≤ k := by
  by_contra hlt
  obtain ⟨d, rfl⟩ : ∃ d, k' = k + d + 1 := ⟨k' - k - 1, by omega⟩
  apply h.before (start' + step * d) (h'.mem d (by omega))
  simp only [Nat.mul_add, Nat.mul_one] at heq
  omega

theorem eq_of_meet (h : MaximalRun S step start n) (h' : MaximalRun S step start' n')
    {k k' : ℕ} (hk : k < n) (hk' : k' < n') (heq : start + step * k = start' + step * k') :
    start = start' ∧ n = n' := by
  have hindex : k = k' := (h'.start_le h hk heq.symm).antisymm (h.start_le h' hk' heq)
  subst hindex
  have hstart : start = start' := by omega
  subst hstart
  exact ⟨rfl, (h.le_of_start_eq h').antisymm (h'.le_of_start_eq h)⟩

end MaximalRun

/-- Maximal runs that cover the set are all there are. -/
theorem maximalRun_iff {ι : Type*} {runs : Set ι} {first len : ι → ℕ}
    (hruns : ∀ r ∈ runs, MaximalRun S step (first r) (len r))
    (hcover : ∀ a ∈ S, ∃ r ∈ runs, ∃ k < len r, a = first r + step * k) :
    MaximalRun S step start n ↔ ∃ r ∈ runs, first r = start ∧ len r = n := by
  constructor
  · intro h
    obtain ⟨r, hr, k, hk, hstart⟩ := hcover start h.start_mem
    obtain ⟨hfirst, hlen⟩ := h.eq_of_meet (hruns r hr) h.pos hk (by simpa using hstart)
    exact ⟨r, hr, hfirst.symm, hlen.symm⟩
  · rintro ⟨r, hr, rfl, rfl⟩
    exact hruns r hr

end NetL7.Lib
