import Mathlib.Data.List.Basic
import Mathlib.Tactic.Common

/-!
# One sequence split among several receivers

A sequence is handed out position by position to receivers that each want the
elements satisfying a predicate. A receiver that has got the first elements of
its subsequence is described by their number, and position `k` of the sequence
has been handed out if fewer such elements come before it.
-/

namespace NetL7.Lib

variable {α : Type*} {p : α → Bool} {l l' : List α} {a : α} {j k : ℕ}

/-- The number of elements before position `k` that satisfy `p`. -/
def rank (p : α → Bool) (l : List α) (k : ℕ) : ℕ := (l.take k).countP p

@[simp] theorem rank_zero : rank p l 0 = 0 := rfl

theorem rank_succ (h : l[k]? = some a) :
    rank p l (k + 1) = rank p l k + if p a then 1 else 0 := by
  unfold rank
  rw [List.take_add_one, h, List.countP_append]
  simp [List.countP_cons]

theorem rank_mono (h : j ≤ k) : rank p l j ≤ rank p l k :=
  (List.take_prefix_take_left h).sublist.countP_le

theorem rank_length_append (hk : k ≤ l.length) : rank p (l ++ l') k = rank p l k := by
  unfold rank
  rw [List.take_append_of_le_length hk]

theorem rank_length : rank p l l.length = (l.filter p).length := by
  unfold rank
  rw [List.take_length, List.countP_eq_length_filter]

/-- Two positions of one receiver with the same rank are equal. -/
theorem rank_injective {b : α} (hj : l[j]? = some a) (hk : l[k]? = some b) (ha : p a = true)
    (hb : p b = true) (h : rank p l j = rank p l k) : j = k := by
  rcases Nat.lt_trichotomy j k with hlt | heq | hgt
  · have hsucc := rank_succ (p := p) hj
    have hmono := rank_mono (p := p) (l := l) (Nat.succ_le_of_lt hlt)
    rw [if_pos ha] at hsucc
    rw [Nat.succ_eq_add_one] at hmono
    omega
  · exact heq
  · have hsucc := rank_succ (p := p) hk
    have hmono := rank_mono (p := p) (l := l) (Nat.succ_le_of_lt hgt)
    rw [if_pos hb] at hsucc
    rw [Nat.succ_eq_add_one] at hmono
    omega

/-- The next element of a receiver extends the prefix that it has. -/
theorem snoc_prefix_filter {got : List α} (hgot : got <+: l.filter p)
    (hlen : got.length = rank p l k) (hk : l[k]? = some a) (ha : p a = true) :
    got ++ [a] <+: l.filter p := by
  have htake : ((l.take k).filter p).length = got.length := by
    rw [hlen, rank, List.countP_eq_length_filter]
  have hsplit : l.filter p = (l.take k).filter p ++ a :: (l.drop (k + 1)).filter p := by
    obtain ⟨hlt, rfl⟩ := List.getElem?_eq_some_iff.mp hk
    conv_lhs => rw [← List.take_append_drop k l, List.drop_eq_getElem_cons hlt]
    rw [List.filter_append, List.filter_cons_of_pos ha]
  have heq : got = (l.take k).filter p := by
    have hprefix : (l.take k).filter p <+: l.filter p := hsplit ▸ List.prefix_append _ _
    have hle := Nat.le_of_eq htake.symm
    exact (List.prefix_of_prefix_length_le hgot hprefix hle).eq_of_length htake.symm
  rw [heq, hsplit]
  exact ⟨(l.drop (k + 1)).filter p, by simp⟩

/-- What comes before a position up to which the receiver has everything. -/
theorem filter_take_prefix {got : List α} (hgot : got <+: l.filter p)
    (hlen : rank p l k ≤ got.length) : (l.take k).filter p <+: got := by
  have hprefix : (l.take k).filter p <+: l.filter p := (List.take_prefix k l).filter p
  apply List.prefix_of_prefix_length_le hprefix hgot
  rwa [← List.countP_eq_length_filter]

end NetL7.Lib
