import Mathlib.Algebra.Order.Group.Nat
import Mathlib.Logic.Function.Basic
import Mathlib.Tactic.Common

/-!
# Free lists in memory

Memory is a function from addresses to cells of 32 bits, and a pointer takes two
cells. A free list is kept in the free objects themselves: the first word of each is
the address of the next one, and 0 ends the list.
-/

namespace NetL7.Lib

abbrev Memory := ℕ → ℕ

namespace Memory

/-- The pointer at an address. -/
def load (m : Memory) (a : ℕ) : ℕ := m a + 2 ^ 32 * m (a + 4)

/-- A pointer is written. -/
def store (m : Memory) (a v : ℕ) : Memory :=
  Function.update (Function.update m a (v % 2 ^ 32)) (a + 4) (v / 2 ^ 32)

/-- `n` bytes are set to 0. -/
def clear (m : Memory) (a n : ℕ) : Memory := fun b ↦ if a ≤ b ∧ b < a + n then 0 else m b

/-- Nothing is written outside of `n` bytes. -/
def SameOutside (a n : ℕ) (m m' : Memory) : Prop := ∀ b, b < a ∨ a + n ≤ b → m' b = m b

variable {m m' m'' : Memory} {a b n k v : ℕ}

theorem load_store (m : Memory) (a v : ℕ) : (m.store a v).load a = v := by
  unfold load store
  rw [Function.update_self, Function.update_of_ne (by omega), Function.update_self]
  exact Nat.mod_add_div v (2 ^ 32)

theorem load_congr (hlow : m' a = m a) (hhigh : m' (a + 4) = m (a + 4)) :
    m'.load a = m.load a := by
  unfold load
  rw [hlow, hhigh]

/-- A link in cells that are not written. -/
theorem load_congr_within {n : ℕ} (hn : 4 < n)
    (h : ∀ x, a ≤ x → x < a + n → m' x = m x) : m'.load a = m.load a := by
  apply load_congr
  · exact h a le_rfl (by omega)
  · exact h (a + 4) (by omega) (by omega)

theorem SameOutside.refl (m : Memory) : SameOutside a n m m := fun _ _ ↦ rfl

theorem SameOutside.trans (h : SameOutside a n m m') (h' : SameOutside a n m' m'') :
    SameOutside a n m m'' := fun b hb ↦ (h' b hb).trans (h b hb)

theorem SameOutside.mono (h : SameOutside b k m m') (hab : a ≤ b) (hk : b + k ≤ a + n) :
    SameOutside a n m m' := by
  intro i hi
  apply h i
  omega

theorem store_same (m : Memory) (a v : ℕ) : SameOutside a 8 m (m.store a v) := by
  intro b hb
  unfold store
  rw [Function.update_of_ne (by omega), Function.update_of_ne (by omega)]

theorem clear_same (m : Memory) (a n : ℕ) : SameOutside a n m (m.clear a n) := by
  intro b hb
  exact if_neg (by omega)

theorem update_same (m : Memory) (v : ℕ) (hab : a ≤ b) (hb : b < a + n) :
    SameOutside a n m (Function.update m b v) := by
  intro i hi
  exact Function.update_of_ne (by omega) ..

theorem clear_eq_zero (m : Memory) (hab : a ≤ b) (hb : b < a + n) : m.clear a n b = 0 :=
  if_pos ⟨hab, hb⟩

theorem SameOutside.load_eq (h : SameOutside a n m m') (hb : b + 8 ≤ a ∨ a + n ≤ b) :
    m'.load b = m.load b :=
  load_congr (h b (by omega)) (h (b + 4) (by omega))

end Memory

/-- From `head` the links lead through the objects of the list and no others. -/
def FreeList (next : ℕ → ℕ) : ℕ → List ℕ → Prop
  | head, [] => head = 0
  | head, x :: xs => head = x ∧ x ≠ 0 ∧ FreeList next (next x) xs

namespace FreeList

variable {next next' : ℕ → ℕ} {head x : ℕ} {xs ys : List ℕ}

/-- A free list depends on the links of its objects only. -/
theorem congr (h : FreeList next head xs) (hnext : ∀ y ∈ xs, next' y = next y) :
    FreeList next' head xs := by
  induction xs generalizing head with
  | nil => exact h
  | cons y ys ih =>
    obtain ⟨hhead, hne, htail⟩ := h
    refine ⟨hhead, hne, ih ?_ fun z hz ↦ hnext z (List.mem_cons_of_mem _ hz)⟩
    rw [hnext y List.mem_cons_self]
    exact htail

theorem push (h : FreeList next head xs) (hx : x ≠ 0) (hlink : next' x = head)
    (hnext : ∀ y ∈ xs, next' y = next y) : FreeList next' x (x :: xs) := by
  refine ⟨rfl, hx, ?_⟩
  rw [hlink]
  exact h.congr hnext

end FreeList

end NetL7.Lib
