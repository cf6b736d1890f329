import Mathlib.Algebra.BigOperators.Group.List.Basic
import Mathlib.Algebra.Order.Ring.Int
import Mathlib.Data.Int.ModEq
import Mathlib.Data.Nat.ModEq
import Mathlib.Tactic.Ring

/-!
# Sums in one's complement

Words are added with the carry of the top bit added at the bottom. The sum of a list is then its
sum modulo `2 ^ w - 1`, where all ones stands for a sum that is a multiple and is not zero. Such
a sum does not depend on the order of the bytes in the words.
-/

namespace NetL7.Lib

variable {w : ℕ}

/-- The sum of two words with the carry added at the bottom. -/
def onesAdd (a b : BitVec w) : BitVec w :=
  if a.toNat + b.toNat < 2 ^ w then a + b else a + b + 1#w

/-- The sum of a list of words. -/
def onesSum (words : List (BitVec w)) : BitVec w :=
  words.foldl onesAdd 0

/-- The sum of the words as numbers. -/
def natSum (words : List (BitVec w)) : ℕ :=
  (words.map BitVec.toNat).sum

@[simp] theorem natSum_nil : natSum ([] : List (BitVec w)) = 0 := rfl

@[simp] theorem natSum_cons (a : BitVec w) (words : List (BitVec w)) :
    natSum (a :: words) = a.toNat + natSum words :=
  List.sum_cons

theorem natSum_le {words : List (BitVec w)} {n : ℕ} (h : words.length ≤ n) :
    natSum words ≤ n * (2 ^ w - 1) := by
  induction words generalizing n with
  | nil => exact Nat.zero_le _
  | cons a words ih =>
    cases n with
    | zero => cases h
    | succ n =>
      have htail := ih (Nat.le_of_succ_le_succ h)
      have hhead := a.isLt
      rw [natSum_cons, Nat.succ_mul]
      omega

/-! ### The sum modulo `2 ^ w - 1` -/

theorem onesAdd_toNat (a b : BitVec w) :
    (onesAdd a b).toNat =
      if a.toNat + b.toNat < 2 ^ w then a.toNat + b.toNat else a.toNat + b.toNat - (2 ^ w - 1) := by
  have ha := a.isLt
  have hb := b.isLt
  rw [onesAdd]
  split_ifs with h
  · rw [BitVec.toNat_add, Nat.mod_eq_of_lt h]
  · have hcarry : 2 ^ w ≤ a.toNat + b.toNat := Nat.le_of_not_lt h
    have hone : 1 % 2 ^ w = 1 := Nat.mod_eq_of_lt (by omega)
    have hsum : (a.toNat + b.toNat) % 2 ^ w = a.toNat + b.toNat - 2 ^ w := by
      rw [Nat.mod_eq_sub_mod hcarry, Nat.mod_eq_of_lt (by omega)]
    rw [BitVec.toNat_add, BitVec.toNat_add, BitVec.toNat_ofNat, hone, hsum,
      Nat.mod_eq_of_lt (by omega)]
    omega

theorem onesAdd_modEq (a b : BitVec w) :
    (onesAdd a b).toNat ≡ a.toNat + b.toNat [MOD 2 ^ w - 1] := by
  rw [onesAdd_toNat]
  split_ifs with h
  · exact Nat.ModEq.refl _
  · have hcarry : a.toNat + b.toNat - (2 ^ w - 1) + (2 ^ w - 1) = a.toNat + b.toNat :=
      Nat.sub_add_cancel (by omega)
    have hmod := Nat.add_modEq_right (n := 2 ^ w - 1) (a := a.toNat + b.toNat - (2 ^ w - 1))
    rw [hcarry] at hmod
    exact hmod.symm

theorem onesAdd_eq_zero_iff (a b : BitVec w) :
    (onesAdd a b).toNat = 0 ↔ a.toNat + b.toNat = 0 := by
  rw [onesAdd_toNat]
  split_ifs with h
  · exact Iff.rfl
  · have hpos := Nat.two_pow_pos w
    omega

theorem foldl_onesAdd (words : List (BitVec w)) (acc : BitVec w) :
    (words.foldl onesAdd acc).toNat ≡ acc.toNat + natSum words [MOD 2 ^ w - 1] ∧
      ((words.foldl onesAdd acc).toNat = 0 ↔ acc.toNat + natSum words = 0) := by
  induction words generalizing acc with
  | nil => exact ⟨Nat.ModEq.refl _, Iff.rfl⟩
  | cons a words ih =>
    obtain ⟨hmod, hzero⟩ := ih (onesAdd acc a)
    rw [List.foldl_cons, natSum_cons, ← Nat.add_assoc]
    constructor
    · exact hmod.trans ((onesAdd_modEq acc a).add_right _)
    · rw [hzero, Nat.add_eq_zero_iff, onesAdd_eq_zero_iff, ← Nat.add_eq_zero_iff]

/-- The sum is all ones if the words add up to a multiple of all ones, and not to zero. -/
theorem onesSum_eq_allOnes_iff (hw : 0 < w) (words : List (BitVec w)) :
    onesSum words = BitVec.allOnes w ↔ 2 ^ w - 1 ∣ natSum words ∧ natSum words ≠ 0 := by
  obtain ⟨hmod, hzero⟩ := foldl_onesAdd words 0#w
  rw [BitVec.toNat_ofNat, Nat.zero_mod, Nat.zero_add] at hmod hzero
  have hones : 1 < 2 ^ w := Nat.one_lt_two_pow (Nat.ne_of_gt hw)
  have hlt := (onesSum words).isLt
  rw [← BitVec.toNat_inj, BitVec.toNat_allOnes, ← (hmod.dvd_iff dvd_rfl), Ne, ← hzero]
  change (onesSum words).toNat = _ ↔ _ ∣ (onesSum words).toNat ∧ ¬ (onesSum words).toNat = 0
  constructor
  · intro h
    rw [h]
    exact ⟨dvd_rfl, by omega⟩
  · rintro ⟨hdvd, hne⟩
    have hle := Nat.le_of_dvd (Nat.pos_of_ne_zero hne) hdvd
    omega

/-! ### Words of bytes -/

/-- The words of two bytes each, the first byte being the upper one. -/
def bigEndian : List (BitVec w) → List (BitVec (w + w))
  | a :: b :: bytes => (a ++ b) :: bigEndian bytes
  | [] | [_] => []

/-- The words of two bytes each, the first byte being the lower one. -/
def littleEndian : List (BitVec w) → List (BitVec (w + w))
  | a :: b :: bytes => (b ++ a) :: littleEndian bytes
  | [] | [_] => []

theorem toNat_append_eq {v : ℕ} (a : BitVec v) (b : BitVec w) :
    (a ++ b).toNat = 2 ^ w * a.toNat + b.toNat := by
  rw [BitVec.toNat_append, ← Nat.shiftLeft_add_eq_or_of_lt b.isLt, Nat.shiftLeft_eq, Nat.mul_comm]

/-- The sums in the two orders differ by a factor. -/
theorem natSum_bigEndian (bytes : List (BitVec w)) :
    2 ^ w * natSum (bigEndian bytes) ≡ natSum (littleEndian bytes) [MOD 2 ^ (w + w) - 1] := by
  induction bytes using bigEndian.induct with
  | case1 a b bytes ih =>
    have hswap : 2 ^ w * (2 ^ w * a.toNat + b.toNat) ≡ 2 ^ w * b.toNat + a.toNat
        [MOD 2 ^ (w + w) - 1] := by
      have hpos : 1 ≤ 2 ^ (w + w) := Nat.two_pow_pos _
      have hones : (2 ^ (w + w) - 1) * a.toNat + a.toNat = 2 ^ w * (2 ^ w * a.toNat) := by
        rw [← Nat.succ_mul, Nat.succ_eq_add_one, Nat.sub_add_cancel hpos, Nat.pow_add,
          Nat.mul_assoc]
      have heq : 2 ^ w * (2 ^ w * a.toNat + b.toNat) =
          2 ^ w * b.toNat + a.toNat + (2 ^ (w + w) - 1) * a.toNat := by
        rw [Nat.mul_add, ← hones]
        omega
      rw [heq]
      exact Nat.add_modulus_mul_modEq_iff.mpr (Nat.ModEq.refl _)
    rw [bigEndian, littleEndian, natSum_cons, natSum_cons, toNat_append_eq, toNat_append_eq,
      Nat.mul_add]
    exact hswap.add ih
  | case2 => exact Nat.ModEq.refl _
  | case3 a => exact Nat.ModEq.refl _

theorem dvd_natSum_bigEndian (bytes : List (BitVec w)) :
    2 ^ (w + w) - 1 ∣ natSum (bigEndian bytes) ↔ 2 ^ (w + w) - 1 ∣ natSum (littleEndian bytes) := by
  have hcoprime : Nat.Coprime (2 ^ (w + w) - 1) (2 ^ w) := by
    have hself : Nat.Coprime (2 ^ (w + w) - 1) (2 ^ (w + w)) :=
      (Nat.coprime_self_sub_left (Nat.two_pow_pos _)).mpr (Nat.coprime_one_left _)
    exact hself.coprime_dvd_right (Nat.pow_dvd_pow 2 (Nat.le_add_right w w))
  rw [← (natSum_bigEndian bytes).dvd_iff dvd_rfl, hcoprime.dvd_mul_left]

theorem natSum_bigEndian_eq_zero_iff (bytes : List (BitVec w)) :
    natSum (bigEndian bytes) = 0 ↔ natSum (littleEndian bytes) = 0 := by
  have hpos : 2 ^ w ≠ 0 := Nat.ne_of_gt (Nat.two_pow_pos w)
  induction bytes using bigEndian.induct with
  | case1 a b bytes ih =>
    rw [bigEndian, littleEndian, natSum_cons, natSum_cons, toNat_append_eq, toNat_append_eq,
      Nat.add_eq_zero_iff, Nat.add_eq_zero_iff, Nat.add_eq_zero_iff, Nat.add_eq_zero_iff,
      Nat.mul_eq_zero, Nat.mul_eq_zero, or_iff_right hpos, or_iff_right hpos]
    exact and_congr And.comm ih
  | case2 => exact Iff.rfl
  | case3 a => exact Iff.rfl

/-- The words sum to all ones whatever the order of their bytes. -/
theorem onesSum_bigEndian_iff (hw : 0 < w) (bytes : List (BitVec w)) :
    onesSum (bigEndian bytes) = BitVec.allOnes (w + w) ↔
      2 ^ (w + w) - 1 ∣ natSum (littleEndian bytes) ∧ natSum (littleEndian bytes) ≠ 0 := by
  rw [onesSum_eq_allOnes_iff (Nat.add_pos_left hw w), dvd_natSum_bigEndian, Ne,
    natSum_bigEndian_eq_zero_iff]

end NetL7.Lib
