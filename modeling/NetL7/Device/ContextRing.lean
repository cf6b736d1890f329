import NetL7.Status
import Mathlib.Algebra.BigOperators.Group.List.Basic
import Mathlib.Algebra.Order.Group.Nat
import Mathlib.Data.Nat.Bitwise
import Mathlib.Tactic.Ring

/-!
# The check of the context ring

`check_context_ring` pops every context buffer that the hardware holds and
compares the sum and the exclusive or of the offsets with those of the offsets
stored at initialisation. The two numbers accept every order of the buffers and
no set with a single wrong one, but they accept some with two.
-/

namespace NetL7.Device

/-- The answer to one write of `CNXT_POP_CTRL`: the first value of the control
register with a clear low bit, which ends the wait, and the data register. -/
structure PopReply where
  popCtrl : BitVec 32
  popData : BitVec 32
  idle : popCtrl &&& 1 = 0

namespace PopReply

variable (r : PopReply)

/-- A buffer came back. -/
def Granted : Prop := r.popCtrl &&& 4 = 4

instance : Decidable r.Granted := inferInstanceAs (Decidable (_ = _))

/-- Its offset is 256-byte aligned. -/
def Aligned : Prop := r.popData &&& 255 = 0

instance : Decidable r.Aligned := inferInstanceAs (Decidable (_ = _))

/-- `shifted_offset` -/
def shiftedOffset : BitVec 32 := r.popData >>> 8

theorem aligned_iff : r.Aligned ↔ r.popData.toNat % 256 = 0 := by
  constructor
  · intro h
    have h' := congrArg BitVec.toNat h
    rwa [BitVec.toNat_and, show (255 : BitVec 32).toNat = 2 ^ 8 - 1 from rfl,
      Nat.and_two_pow_sub_one_eq_mod] at h'
  · intro h
    apply BitVec.eq_of_toNat_eq
    rwa [BitVec.toNat_and, show (255 : BitVec 32).toNat = 2 ^ 8 - 1 from rfl,
      Nat.and_two_pow_sub_one_eq_mod]

theorem shiftedOffset_toNat : r.shiftedOffset.toNat = r.popData.toNat / 256 := by
  rw [shiftedOffset, BitVec.toNat_ushiftRight, Nat.shiftRight_eq_div_pow]

theorem shiftedOffset_lt : r.shiftedOffset.toNat < 2 ^ 24 := by
  have h := r.popData.isLt
  rw [shiftedOffset_toNat]
  omega

end PopReply

/-- The local variables of `check_context_ring`. -/
structure RingCheck where
  offsetsSum : BitVec 64
  offsetsChksum : BitVec 32
  refOffsetsChksum : BitVec 32
  status : NlmStatus
  deriving DecidableEq

/-- One turn of the loop that pops the buffers. -/
def RingCheck.pop (c : RingCheck) (i : ℕ) (r : PopReply) : RingCheck :=
  if r.Granted then
    if r.Aligned then
      { c with
        refOffsetsChksum := c.refOffsetsChksum ^^^ BitVec.ofNat 32 i
        offsetsSum := c.offsetsSum + r.shiftedOffset.setWidth 64
        offsetsChksum := c.offsetsChksum ^^^ r.shiftedOffset }
    else { c with status := .deviceContextFail }
  else { c with status := .deviceContextFail }

theorem RingCheck.pop_returned (c : RingCheck) (i : ℕ) {r : PopReply} (hg : r.Granted)
    (ha : r.Aligned) :
    c.pop i r =
      { c with
        refOffsetsChksum := c.refOffsetsChksum ^^^ BitVec.ofNat 32 i
        offsetsSum := c.offsetsSum + r.shiftedOffset.setWidth 64
        offsetsChksum := c.offsetsChksum ^^^ r.shiftedOffset } := by
  rw [RingCheck.pop, if_pos hg, if_pos ha]

/-- The loop, after as many turns as the argument says. -/
def popLoop (replies : ℕ → PopReply) : ℕ → RingCheck
  | 0 => ⟨0, 0, 0, .ok⟩
  | i + 1 => (popLoop replies i).pop i (replies i)

/-- `ref_offsets_sum` -/
def refOffsetsSum (cnxtBufCnt : BitVec 32) : BitVec 64 :=
  (cnxtBufCnt.setWidth 64 - 1) * (cnxtBufCnt - 2).setWidth 64 / 2

/-- `check_context_ring`. The result is `none` when its assertion fails. -/
def checkContextRing (cnxtBufCnt : BitVec 32) (replies : ℕ → PopReply) : Option NlmStatus :=
  if cnxtBufCnt = 0 then none
  else
    let turns := (cnxtBufCnt - 1).toNat
    let c := popLoop replies turns
    let status := if (replies turns).Granted then .deviceContextFail else c.status
    if c.offsetsSum ≠ refOffsetsSum cnxtBufCnt ∨ c.offsetsChksum ≠ c.refOffsetsChksum then
      some .deviceContextFail
    else some status

/-! ### Sums and checksums of lists of buffers -/

/-- The exclusive or of a list. -/
def xorSum (l : List ℕ) : ℕ := l.foldr (· ^^^ ·) 0

theorem xorSum_concat (l : List ℕ) (a : ℕ) : xorSum (l ++ [a]) = xorSum l ^^^ a := by
  induction l with
  | nil => simp [xorSum]
  | cons b l ih =>
      change b ^^^ xorSum (l ++ [a]) = b ^^^ xorSum l ^^^ a
      rw [ih, Nat.xor_assoc]

theorem xorSum_perm {l l' : List ℕ} (h : l.Perm l') : xorSum l = xorSum l' := by
  induction h with
  | nil => rfl
  | cons a _ ih =>
      change a ^^^ xorSum _ = a ^^^ xorSum _
      rw [ih]
  | swap a b l =>
      change b ^^^ (a ^^^ xorSum l) = a ^^^ (b ^^^ xorSum l)
      exact Nat.xor_left_comm _ _ _
  | trans _ _ h₁ h₂ => exact h₁.trans h₂

theorem two_mul_sum_range (n : ℕ) : 2 * (List.range (n + 1)).sum = (n + 1) * n := by
  induction n with
  | zero => rfl
  | succ n ih =>
      rw [List.range_succ, List.sum_append, Nat.mul_add, ih]
      simp only [List.sum_cons, List.sum_nil]
      ring

/-! ### The loop -/

variable (replies : ℕ → PopReply)

/-- The offsets that the first `k` pops return. -/
def poppedOffsets (k : ℕ) : List ℕ := (List.range k).map fun i ↦ (replies i).popData.toNat

/-- The numbers of the buffers that the first `k` pops return. -/
def poppedBuffers (k : ℕ) : List ℕ := (List.range k).map fun i ↦ (replies i).popData.toNat / 256

theorem poppedBuffers_succ (k : ℕ) :
    poppedBuffers replies (k + 1) =
      poppedBuffers replies k ++ [(replies k).shiftedOffset.toNat] := by
  rw [PopReply.shiftedOffset_toNat, poppedBuffers, List.range_succ, List.map_append]
  rfl

theorem poppedBuffers_sum_le (k : ℕ) : (poppedBuffers replies k).sum ≤ 16777216 * k := by
  induction k with
  | zero => exact Nat.le_refl _
  | succ k ih =>
      have h := (replies k).shiftedOffset_lt
      rw [poppedBuffers_succ, List.sum_append, List.sum_singleton]
      omega

/-- The first `k` pops return a buffer with an aligned offset each. -/
def AllReturned (k : ℕ) : Prop := ∀ i < k, (replies i).Granted ∧ (replies i).Aligned

variable {replies}

theorem AllReturned.of_succ {k : ℕ} (h : AllReturned replies (k + 1)) : AllReturned replies k :=
  fun i hi ↦ h i (by omega)

theorem popLoop_status (k : ℕ) :
    (popLoop replies k).status = .ok ∧ AllReturned replies k ∨
      (popLoop replies k).status = .deviceContextFail ∧ ¬AllReturned replies k := by
  induction k with
  | zero => exact Or.inl ⟨rfl, fun i hi ↦ by omega⟩
  | succ k ih =>
      by_cases hk : (replies k).Granted ∧ (replies k).Aligned
      · have hs : (popLoop replies (k + 1)).status = (popLoop replies k).status := by
          rw [popLoop, RingCheck.pop_returned _ _ hk.1 hk.2]
        rw [hs]
        cases ih with
        | inl ih =>
            left
            refine ⟨ih.1, fun i hi ↦ ?_⟩
            rcases Nat.lt_succ_iff_lt_or_eq.mp hi with h | h
            · exact ih.2 i h
            · exact h ▸ hk
        | inr ih => exact Or.inr ⟨ih.1, fun h ↦ ih.2 h.of_succ⟩
      · right
        refine ⟨?_, fun h ↦ hk (h k (by omega))⟩
        rw [popLoop, RingCheck.pop]
        by_cases hg : (replies k).Granted
        · rw [if_pos hg, if_neg fun ha ↦ hk ⟨hg, ha⟩]
        · rw [if_neg hg]

theorem popLoop_sums {k : ℕ} (hk : k < 2 ^ 32) (h : AllReturned replies k) :
    (popLoop replies k).offsetsSum.toNat = (poppedBuffers replies k).sum ∧
      (popLoop replies k).offsetsChksum.toNat = xorSum (poppedBuffers replies k) ∧
        (popLoop replies k).refOffsetsChksum.toNat = xorSum (List.range k) := by
  induction k with
  | zero => exact ⟨rfl, rfl, rfl⟩
  | succ k ih =>
      obtain ⟨h₁, h₂, h₃⟩ := ih (by omega) h.of_succ
      obtain ⟨hg, ha⟩ := h k (by omega)
      have hsum := poppedBuffers_sum_le replies k
      have hlt := (replies k).shiftedOffset_lt
      rw [popLoop, RingCheck.pop_returned _ _ hg ha, poppedBuffers_succ, List.range_succ, xorSum_concat, xorSum_concat,
        List.sum_append, List.sum_singleton]
      refine ⟨?_, ?_, ?_⟩
      · rw [BitVec.toNat_add, h₁, BitVec.toNat_setWidth]
        omega
      · rw [BitVec.toNat_xor, h₂]
      · rw [BitVec.toNat_xor, h₃, BitVec.toNat_ofNat, Nat.mod_eq_of_lt (by omega)]

theorem toNat_sub_one {n : BitVec 32} (hn : n ≠ 0) : (n - 1).toNat = n.toNat - 1 := by
  have hpos : n.toNat ≠ 0 := fun h ↦ hn (BitVec.eq_of_toNat_eq h)
  have hlt := n.isLt
  rw [BitVec.toNat_sub]
  have : (1 : BitVec 32).toNat = 1 := rfl
  omega

theorem refOffsetsSum_toNat {n : BitVec 32} (hn : n ≠ 0) :
    (refOffsetsSum n).toNat = (List.range (n - 1).toNat).sum := by
  have hlt := n.isLt
  have hpos : n.toNat ≠ 0 := fun h ↦ hn (BitVec.eq_of_toNat_eq h)
  have h1 := toNat_sub_one hn
  have h2 : (n.setWidth 64 - 1).toNat = n.toNat - 1 := by
    rw [BitVec.toNat_sub, BitVec.toNat_setWidth]
    have : (1 : BitVec 64).toNat = 1 := rfl
    omega
  rw [refOffsetsSum, BitVec.toNat_udiv, BitVec.toNat_mul, h1, h2, BitVec.toNat_setWidth]
  obtain ⟨m, hm⟩ : ∃ m, n.toNat = m + 1 := ⟨n.toNat - 1, by omega⟩
  cases m with
  | zero =>
      rw [hm, Nat.add_sub_cancel, Nat.zero_mul]
      rfl
  | succ m =>
      have h3 : (n - 2).toNat = m := by
        rw [BitVec.toNat_sub, hm]
        have : (2 : BitVec 32).toNat = 2 := rfl
        omega
      have hmul : (m + 1) * m < 2 ^ 64 :=
        Nat.lt_of_lt_of_le (Nat.mul_lt_mul'' (by omega : m + 1 < 2 ^ 32) (by omega : m < 2 ^ 32))
          (Nat.le_refl _)
      have hsum := two_mul_sum_range m
      rw [h3, hm, Nat.add_sub_cancel, Nat.mod_eq_of_lt (by omega : m < 2 ^ 64),
        Nat.mod_eq_of_lt hmul, ← hsum]
      exact Nat.mul_div_cancel_left _ (by decide)

/-- The last pop fails and what the earlier ones returned has the stored sums. -/
def RingAccepted (replies : ℕ → PopReply) (k : ℕ) : Prop :=
  AllReturned replies k ∧ (poppedBuffers replies k).sum = (List.range k).sum ∧
    xorSum (poppedBuffers replies k) = xorSum (List.range k) ∧ ¬(replies k).Granted

theorem checkContextRing_eq {n : BitVec 32} (hn : n ≠ 0) (replies : ℕ → PopReply) :
    checkContextRing n replies = some .ok ∧ RingAccepted replies (n.toNat - 1) ∨
      checkContextRing n replies = some .deviceContextFail ∧
        ¬RingAccepted replies (n.toNat - 1) := by
  have hk := toNat_sub_one hn
  have hlt := n.isLt
  have href := refOffsetsSum_toNat hn
  rw [checkContextRing, if_neg hn]
  simp only []
  rw [hk] at href ⊢
  generalize hkd : n.toNat - 1 = k at href ⊢
  have hstatus : (popLoop replies k).status = .ok ∧ AllReturned replies k ∨
      (popLoop replies k).status = .deviceContextFail ∧ ¬AllReturned replies k :=
    popLoop_status k
  rcases hstatus with ⟨hs, hall⟩ | ⟨hs, hall⟩
  · obtain ⟨h₁, h₂, h₃⟩ := popLoop_sums (by omega) hall
    have hsum : (popLoop replies k).offsetsSum = refOffsetsSum n ↔
        (poppedBuffers replies k).sum = (List.range k).sum := by
      rw [← BitVec.toNat_inj, h₁, href]
    have hxor : (popLoop replies k).offsetsChksum = (popLoop replies k).refOffsetsChksum ↔
        xorSum (poppedBuffers replies k) = xorSum (List.range k) := by
      rw [← BitVec.toNat_inj, h₂, h₃]
    rw [hs]
    by_cases hc : (popLoop replies k).offsetsSum ≠ refOffsetsSum n ∨
        (popLoop replies k).offsetsChksum ≠ (popLoop replies k).refOffsetsChksum
    · right
      refine ⟨if_pos hc, fun h ↦ ?_⟩
      cases hc with
      | inl hc => exact hc (hsum.mpr h.2.1)
      | inr hc => exact hc (hxor.mpr h.2.2.1)
    · rw [if_neg hc]
      have hc₁ := Classical.not_not.mp fun h ↦ hc (Or.inl h)
      have hc₂ := Classical.not_not.mp fun h ↦ hc (Or.inr h)
      by_cases hg : (replies k).Granted
      · exact Or.inr ⟨by rw [if_pos hg], fun h ↦ h.2.2.2 hg⟩
      · exact Or.inl ⟨by rw [if_neg hg], hall, hsum.mp hc₁, hxor.mp hc₂, hg⟩
  · right
    refine ⟨?_, fun h ↦ hall h.1⟩
    rw [hs, ite_self, ite_self]

theorem poppedBuffers_eq (k : ℕ) :
    poppedBuffers replies k = (poppedOffsets replies k).map (· / 256) := by
  rw [poppedBuffers, poppedOffsets, List.map_map]
  rfl

/-- The offsets stored at initialisation, less the one that is never returned. -/
def storedOffsets (k : ℕ) : List ℕ := (List.range k).map (256 * ·)

theorem storedOffsets_map (k : ℕ) : (storedOffsets k).map (· / 256) = List.range k := by
  rw [storedOffsets, List.map_map]
  have h : ((· / 256) ∘ (256 * ·) : ℕ → ℕ) = id := by
    funext a
    exact Nat.mul_div_cancel_left a (by decide)
  rw [h, List.map_id]

theorem mod_of_mem_poppedOffsets {k : ℕ} (h : AllReturned replies k) {a : ℕ}
    (ha : a ∈ poppedOffsets replies k) : a % 256 = 0 := by
  obtain ⟨i, hi, rfl⟩ := List.mem_map.mp ha
  exact (PopReply.aligned_iff _).mp (h i (List.mem_range.mp hi)).2

theorem mod_of_mem_storedOffsets {k a : ℕ} (ha : a ∈ storedOffsets k) : a % 256 = 0 := by
  obtain ⟨i, -, rfl⟩ := List.mem_map.mp ha
  exact Nat.mul_mod_right _ _

theorem RingAccepted.of_perm {k : ℕ} (hall : ∀ i < k, (replies i).Granted)
    (hp : (poppedOffsets replies k).Perm (storedOffsets k)) (hg : ¬(replies k).Granted) :
    RingAccepted replies k := by
  have hperm : (poppedBuffers replies k).Perm (List.range k) := by
    rw [poppedBuffers_eq, ← storedOffsets_map]
    exact hp.map _
  refine ⟨fun i hi ↦ ⟨hall i hi, ?_⟩, hperm.sum_eq, xorSum_perm hperm, hg⟩
  have hmem : (replies i).popData.toNat ∈ poppedOffsets replies k :=
    List.mem_map.mpr ⟨i, List.mem_range.mpr hi, rfl⟩
  exact (PopReply.aligned_iff _).mpr (mod_of_mem_storedOffsets (hp.mem_iff.mp hmem))

/-- One wrong offset among right ones changes the sum. -/
theorem RingAccepted.not_of_replaced {k a b : ℕ} {rest : List ℕ}
    (hb : (poppedOffsets replies k).Perm (b :: rest))
    (ha : (storedOffsets k).Perm (a :: rest)) (hab : a ≠ b) : ¬RingAccepted replies k := by
  rintro ⟨hall, hsum, -, -⟩
  have hb' := mod_of_mem_poppedOffsets hall (hb.mem_iff.mpr List.mem_cons_self)
  have ha' := mod_of_mem_storedOffsets (ha.mem_iff.mpr List.mem_cons_self)
  have h₁ := (hb.map (· / 256)).sum_eq
  have h₂ := (ha.map (· / 256)).sum_eq
  rw [← poppedBuffers_eq, List.map_cons, List.sum_cons] at h₁
  rw [storedOffsets_map, List.map_cons, List.sum_cons] at h₂
  omega

/-- `check_context_ring` accepts the replies whose aligned offsets have the sum and
the exclusive or of the stored ones, hence every order of the stored offsets, and
reports every set in which one offset is replaced. -/
theorem checkContextRing_ok_iff {n : BitVec 32} (hn : n ≠ 0) (replies : ℕ → PopReply) :
    (checkContextRing n replies = some .ok ∨
        checkContextRing n replies = some .deviceContextFail) ∧
      (checkContextRing n replies = some .ok ↔
        (∀ i < n.toNat - 1, (replies i).Granted ∧ (replies i).popData.toNat % 256 = 0) ∧
          (poppedBuffers replies (n.toNat - 1)).sum = (List.range (n.toNat - 1)).sum ∧
            xorSum (poppedBuffers replies (n.toNat - 1)) = xorSum (List.range (n.toNat - 1)) ∧
              ¬(replies (n.toNat - 1)).Granted) ∧
        ((∀ i < n.toNat - 1, (replies i).Granted) →
          (poppedOffsets replies (n.toNat - 1)).Perm (storedOffsets (n.toNat - 1)) →
            ¬(replies (n.toNat - 1)).Granted → checkContextRing n replies = some .ok) ∧
          ∀ a b rest, (poppedOffsets replies (n.toNat - 1)).Perm (b :: rest) →
            (storedOffsets (n.toNat - 1)).Perm (a :: rest) → a ≠ b →
              checkContextRing n replies = some .deviceContextFail := by
  have hiff : RingAccepted replies (n.toNat - 1) ↔
      (∀ i < n.toNat - 1, (replies i).Granted ∧ (replies i).popData.toNat % 256 = 0) ∧
        (poppedBuffers replies (n.toNat - 1)).sum = (List.range (n.toNat - 1)).sum ∧
          xorSum (poppedBuffers replies (n.toNat - 1)) = xorSum (List.range (n.toNat - 1)) ∧
            ¬(replies (n.toNat - 1)).Granted := by
    simp only [RingAccepted, AllReturned, PopReply.aligned_iff]
  rw [← hiff]
  rcases checkContextRing_eq hn replies with ⟨h, hr⟩ | ⟨h, hr⟩
  · refine ⟨Or.inl h, ⟨fun _ ↦ hr, fun _ ↦ h⟩, fun _ _ _ ↦ h, fun a b rest hb ha hab ↦ ?_⟩
    exact absurd hr (RingAccepted.not_of_replaced hb ha hab)
  · refine ⟨Or.inr h, ⟨fun he ↦ ?_, fun ha ↦ absurd ha hr⟩, fun hall hp hg ↦ ?_,
      fun _ _ _ _ _ _ ↦ h⟩
    · rw [h] at he
      cases he
    · exact absurd (RingAccepted.of_perm hall hp hg) hr

/-- The reply that returns the buffer with the given offset. -/
def returned (offset : BitVec 32) : PopReply := ⟨4, offset, rfl⟩

/-- The replies that return the given offsets and then nothing. -/
def returnedOffsets (l : List (BitVec 32)) (i : ℕ) : PopReply :=
  match l[i]? with
  | some offset => returned offset
  | none => ⟨0, 0, rfl⟩

/-- A ring of five that returns its four buffers in another order, and one that returns the last
buffer in place of the second one. -/
theorem checkContextRing_ok_iff_five :
    checkContextRing 5 (returnedOffsets [512, 0, 768, 256]) = some .ok ∧
      checkContextRing 5 (returnedOffsets [512, 0, 768, 768]) = some .deviceContextFail := by
  have hne : (5 : BitVec 32) ≠ 0 := by decide
  constructor
  · obtain ⟨-, -, hperm, -⟩ := checkContextRing_ok_iff hne (returnedOffsets [512, 0, 768, 256])
    exact hperm (by decide) (by decide) (by decide)
  · obtain ⟨-, -, -, hreplaced⟩ :=
      checkContextRing_ok_iff hne (returnedOffsets [512, 0, 768, 768])
    exact hreplaced 256 768 [512, 0, 768] (by decide) (by decide) (by decide)

/-- The first and the last of four buffers, each returned twice, are accepted. -/
theorem checkContextRing_duplicates :
    ¬∀ (n : BitVec 32) (replies : ℕ → PopReply), n ≠ 0 →
      (checkContextRing n replies = some .ok ↔
        (∀ i < n.toNat - 1, (replies i).Granted) ∧
          (poppedOffsets replies (n.toNat - 1)).Perm (storedOffsets (n.toNat - 1)) ∧
            ¬(replies (n.toNat - 1)).Granted) := by
  intro h
  have h5 := (h 5 (returnedOffsets [0, 0, 768, 768]) (by decide)).mp (by decide)
  exact absurd h5.2.1 (by decide)

end NetL7.Device
