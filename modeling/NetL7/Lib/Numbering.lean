import Mathlib.Data.Finset.Card
import Mathlib.Data.Set.Function
import Mathlib.Order.Interval.Finset.Nat
import Mathlib.Order.Interval.Set.Basic

/-!
# Finite sets numbered from zero

Copies that are created and removed in stack order carry the numbers
`0, …, n - 1`. A new copy takes the number `n`, and the copy that is removed
is the one that carries the largest number.
-/

namespace NetL7.Lib

variable {α : Type*}

/-- The elements of `s` carry the numbers `0, …, n - 1`, each exactly once. -/
def Numbered (s : Finset α) (num : α → ℕ) (n : ℕ) : Prop :=
  Set.BijOn num s (Set.Iio n)

namespace Numbered

variable {s : Finset α} {num num' : α → ℕ} {n c : ℕ} {a b : α}

theorem lt (h : Numbered s num n) (ha : a ∈ s) : num a < n := h.mapsTo ha

theorem eq_of_num_eq (h : Numbered s num n) (ha : a ∈ s) (hb : b ∈ s)
    (hab : num a = num b) : a = b := h.injOn ha hb hab

theorem exists_num (h : Numbered s num n) (hc : c < n) : ∃ a ∈ s, num a = c :=
  h.surjOn hc

theorem existsUnique_num (h : Numbered s num n) (hc : c < n) :
    ∃! a, a ∈ s ∧ num a = c := by
  obtain ⟨a, ha, hac⟩ := h.exists_num hc
  refine ⟨a, ⟨ha, hac⟩, ?_⟩
  rintro b ⟨hb, hbc⟩
  exact h.eq_of_num_eq hb ha (hbc.trans hac.symm)

theorem empty (num : α → ℕ) : Numbered ∅ num 0 := by
  simp [Numbered, Set.BijOn, Set.MapsTo, Set.InjOn, Set.SurjOn, Set.Iio]

theorem congr (h : Numbered s num n) (hnum : ∀ a ∈ s, num' a = num a) :
    Numbered s num' n :=
  (Set.EqOn.bijOn_iff (s := (s : Set α)) fun a ha ↦ hnum a ha).mpr h

variable [DecidableEq α]

/-- The next copy takes the first unused number. -/
theorem push (h : Numbered s num n) (hn : num' a = n)
    (hnum : ∀ b ∈ s, num' b = num b) : Numbered (insert a s) num' (n + 1) := by
  have hs : Set.BijOn num' s (Set.Iio n) := h.congr hnum
  have hins := hs.insert (a := a) (by simp [hn])
  have hIio : insert (num' a) (Set.Iio n) = Set.Iio (n + 1) := by
    ext c
    simp only [hn, Set.mem_insert_iff, Set.mem_Iio]
    omega
  simpa [Numbered, hIio] using hins

/-- Removing the copy with the largest number leaves a numbered set. -/
theorem pop (h : Numbered s num (n + 1)) (ha : a ∈ s) (hn : num a = n) :
    Numbered (s.erase a) num n := by
  have hdiff := Set.BijOn.sdiff_singleton h (a := a) (by simpa using ha)
  have hIio : Set.Iio (n + 1) \ {num a} = Set.Iio n := by
    ext c
    simp only [hn, Set.mem_sdiff, Set.mem_Iio, Set.mem_singleton_iff]
    omega
  simpa [Numbered, hIio] using hdiff

end Numbered

end NetL7.Lib
