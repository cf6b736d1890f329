import Mathlib.Data.List.Basic

/-!
# Carving a memory area

A cursor moves up through an area, and each region begins where the cursor stands.
Regions carved so are disjoint and lie below the cursor.
-/

namespace NetL7.Lib

/-- A region of memory and the alignment that its base has to have. -/
structure Region where
  alignment : ℕ
  base : ℕ
  size : ℕ
  deriving DecidableEq, Repr

namespace Region

/-- The first address behind a region. -/
def next (r : Region) : ℕ := r.base + r.size

def Aligned (r : Region) : Prop := r.base % r.alignment = 0

/-- The region lies in the addresses from `lo` up to `hi`. -/
def Inside (lo hi : ℕ) (r : Region) : Prop := lo ≤ r.base ∧ r.next ≤ hi

/-- The two regions share no address. -/
def Apart (r s : Region) : Prop := r.next ≤ s.base ∨ s.next ≤ r.base

instance (r : Region) : Decidable r.Aligned := inferInstanceAs (Decidable (_ = _))

instance (lo hi : ℕ) (r : Region) : Decidable (r.Inside lo hi) :=
  inferInstanceAs (Decidable (_ ∧ _))

instance (r s : Region) : Decidable (r.Apart s) := inferInstanceAs (Decidable (_ ∨ _))

end Region

/-- The regions carved between `lo` and the cursor. -/
structure Carved (lo cursor : ℕ) (regions : List Region) : Prop where
  aligned : ∀ r ∈ regions, r.Aligned
  apart : regions.Pairwise Region.Apart
  inside : ∀ r ∈ regions, r.Inside lo cursor

namespace Carved

variable {lo cursor cursor' : ℕ} {regions : List Region}

theorem nil (lo cursor : ℕ) : Carved lo cursor [] where
  aligned _ h := absurd h List.not_mem_nil
  apart := List.Pairwise.nil
  inside _ h := absurd h List.not_mem_nil

theorem mono (h : Carved lo cursor regions) (hle : cursor ≤ cursor') :
    Carved lo cursor' regions where
  aligned := h.aligned
  apart := h.apart
  inside r hr := ⟨(h.inside r hr).1, Nat.le_trans (h.inside r hr).2 hle⟩

theorem snoc (h : Carved lo cursor regions) (hlo : lo ≤ cursor) {a : ℕ}
    (haligned : cursor % a = 0) (size : ℕ) :
    Carved lo (cursor + size) (regions ++ [⟨a, cursor, size⟩]) := by
  constructor
  · intro r hr
    rcases List.mem_append.mp hr with hr | hr
    · exact h.aligned r hr
    · cases List.mem_singleton.mp hr
      exact haligned
  · apply List.pairwise_append.mpr
    refine ⟨h.apart, List.pairwise_singleton _ _, fun r hr s hs ↦ ?_⟩
    cases List.mem_singleton.mp hs
    exact .inl (h.inside r hr).2
  · intro r hr
    rcases List.mem_append.mp hr with hr | hr
    · exact (h.mono (Nat.le_add_right cursor size)).inside r hr
    · cases List.mem_singleton.mp hr
      exact ⟨hlo, Nat.le_refl _⟩

theorem append {mid : ℕ} {more : List Region} (h : Carved lo mid regions)
    (h' : Carved mid cursor more) (hlo : lo ≤ mid) (hmid : mid ≤ cursor) :
    Carved lo cursor (regions ++ more) := by
  constructor
  · exact List.forall_mem_append.mpr ⟨h.aligned, h'.aligned⟩
  · apply List.pairwise_append.mpr
    refine ⟨h.apart, h'.apart, fun r hr s hs ↦ .inl ?_⟩
    exact Nat.le_trans (h.inside r hr).2 (h'.inside s hs).1
  · intro r hr
    cases List.mem_append.mp hr with
    | inl hr => exact (h.mono hmid).inside r hr
    | inr hr => exact ⟨Nat.le_trans hlo (h'.inside r hr).1, (h'.inside r hr).2⟩

end Carved

end NetL7.Lib
