import Mathlib.Data.List.Basic
import Mathlib.Logic.Function.Basic
import Mathlib.Tactic.Common

/-!
# Writes around a ring

Values are written one after the other into a ring of `size` slots. As long as there are no
more values than slots, a slot holds the value that came when its turn was, or what it
held before.
-/

namespace NetL7.Lib

variable {α : Type*}

/-- Write the values from slot `start` on. -/
def ringWrite (size : ℕ) (buf : ℕ → α) (start : ℕ) : List α → ℕ → α
  | [] => buf
  | x :: xs => ringWrite size (Function.update buf (start % size) x) (start + 1) xs

/-- How many writes from slot `start` on come before the first one to slot `i`. -/
def ringIndex (size start i : ℕ) : ℕ :=
  if start % size ≤ i then i - start % size else i + size - start % size

variable {size start i : ℕ} {buf : ℕ → α} {xs ys : List α}

@[simp] theorem ringWrite_nil : ringWrite size buf start [] = buf := rfl

theorem ringWrite_congr {start' : ℕ} (h : start % size = start' % size) :
    ringWrite size buf start xs = ringWrite size buf start' xs := by
  induction xs generalizing buf start start' with
  | nil => rfl
  | cons x xs ih =>
    have hnext : (start + 1) % size = (start' + 1) % size := by
      rw [← Nat.mod_add_mod, h, Nat.mod_add_mod]
    rw [ringWrite, ringWrite, h, ih hnext]

theorem succ_mod_eq (hsize : 0 < size) :
    (start + 1) % size = if start % size + 1 = size then 0 else start % size + 1 := by
  have hlt : start % size < size := Nat.mod_lt _ hsize
  rw [← Nat.mod_add_mod]
  split_ifs with h
  · rw [h, Nat.mod_self]
  · exact Nat.mod_eq_of_lt (by omega)

theorem ringIndex_of_start (h : start % size = i) : ringIndex size start i = 0 := by
  rw [ringIndex, h, if_pos (Nat.le_refl i), Nat.sub_self]

theorem ringIndex_succ_of_start (hi : i < size) (h : start % size = i) :
    ringIndex size (start + 1) i = size - 1 := by
  rw [ringIndex, succ_mod_eq (by omega)]
  split_ifs <;> omega

theorem ringIndex_succ (hi : i < size) (hne : start % size ≠ i) :
    ringIndex size start i = ringIndex size (start + 1) i + 1 := by
  have hlt : start % size < size := Nat.mod_lt _ (by omega)
  rw [ringIndex, ringIndex, succ_mod_eq (by omega)]
  split_ifs <;> omega

theorem ringWrite_apply (hlen : xs.length ≤ size) (hi : i < size) :
    ringWrite size buf start xs i = xs.getD (ringIndex size start i) (buf i) := by
  induction xs generalizing buf start with
  | nil => rfl
  | cons x xs ih =>
    rw [List.length_cons] at hlen
    rw [ringWrite, ih (by omega)]
    by_cases hfirst : start % size = i
    · -- the other values do not come round to this slot again
      rw [ringIndex_succ_of_start hi hfirst, ringIndex_of_start hfirst, hfirst,
        Function.update_self, List.getD_cons_zero, List.getD_eq_getElem?_getD,
        List.getElem?_eq_none (by omega), Option.getD_none]
    · rw [ringIndex_succ hi hfirst, List.getD_cons_succ, Function.update_of_ne (Ne.symm hfirst)]

end NetL7.Lib
