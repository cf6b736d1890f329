import Mathlib.Data.List.Basic
import Mathlib.Data.List.Range
import Mathlib.Logic.Function.Basic
import Mathlib.Tactic.Common

/-!
# Windows of a ring buffer

A queue kept in a ring of `size` slots is a window of the ring: it starts at a
position, which may be any representative modulo `size`, and extends over a
number of slots that does not exceed `size`.
-/

namespace NetL7.Lib

variable {α : Type*}

/-- The contents of `n` consecutive slots, starting at position `start`. -/
def window (size : ℕ) (buf : ℕ → α) (start n : ℕ) : List α :=
  (List.range n).map fun i ↦ buf ((start + i) % size)

variable {size start start' n : ℕ} {buf buf' : ℕ → α}

@[simp] theorem window_length : (window size buf start n).length = n := by
  simp [window]

@[simp] theorem window_zero : window size buf start 0 = [] := rfl

theorem window_snoc :
    window size buf start (n + 1) =
      window size buf start n ++ [buf ((start + n) % size)] := by
  simp [window, List.range_succ]

theorem window_cons :
    window size buf start (n + 1) =
      buf (start % size) :: window size buf (start + 1) n := by
  simp [window, List.range_succ_eq_map, Nat.add_assoc, Nat.add_comm 1]

theorem window_congr (h : ∀ i < n, buf ((start + i) % size) = buf' ((start + i) % size)) :
    window size buf start n = window size buf' start n :=
  List.map_congr_left fun i hi ↦ h i (List.mem_range.mp hi)

/-- Only the residue of the starting position matters. -/
theorem window_of_mod_eq (h : start % size = start' % size) :
    window size buf start n = window size buf start' n := by
  refine List.map_congr_left fun i _ ↦ ?_
  rw [Nat.add_mod, h, ← Nat.add_mod]

/-- Different positions of a window that fits are different slots. -/
theorem slot_ne {i j : ℕ} (hij : i < j) (hj : j < i + size) :
    (start + i) % size ≠ (start + j) % size := by
  intro h
  have hsub : (start + j - (start + i)) % size = 0 :=
    Nat.sub_mod_eq_zero_of_mod_eq h.symm
  rw [Nat.add_sub_add_left, Nat.mod_eq_of_lt (by omega)] at hsub
  omega

/-- Writing the slot behind the window does not change it. -/
theorem window_update (hn : n < size) (v : α) :
    window size (Function.update buf ((start + n) % size) v) start n =
      window size buf start n :=
  window_congr fun _ hi ↦ Function.update_of_ne (slot_ne hi (by omega)) _ _

end NetL7.Lib
