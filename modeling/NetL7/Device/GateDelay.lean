import NetL7.Status
import Mathlib.Algebra.Order.Ring.Int
import Mathlib.Logic.Function.Basic

/-!
# Gate delays in half cycles

The gate open signal of a slice is delayed by full cycles, which are in the low three bits of PHY
control register 1, and by a half cycle, which is bit 16 of PHY control register 0. A half cycle
more carries into the full cycles. A half cycle less borrows from them, but the test for the bit
compares the masked register with 1, so the function always borrows.
-/

namespace NetL7.Device

/-- `ddr3_leveling_mode` -/
inductive Ddr3LevelingMode
  | none
  | write
  | read
  | gate
  deriving DecidableEq, Repr

/-- `ddr3_leveling_request` -/
inductive Ddr3LevelingRequest
  | termreq
  | setreq
  | getreq
  | setgetreq
  deriving DecidableEq, Repr

/-- `ddr3_leveling_transition` -/
inductive Ddr3LevelingTransition
  | s0x
  | s1x
  | sx0
  | sx1
  deriving DecidableEq, Repr

/-- `ddr3_leveling_tristate` -/
inductive Ddr3LevelingTristate
  | val0
  | val1
  | valZ
  | valX
  deriving DecidableEq, Repr

/-- `struct ddr3_state`, and the hardware registers. -/
structure Ddr3State where
  mSaveResponses : Bool
  mCsRank : ℕ
  mInPreamble : Bool
  mStepSize : BitVec 32
  simPsPeriod : BitVec 32
  mWrlvlIsLeveled : Bool
  mGtlvlIsLeveled : Bool
  mMinDelay : BitVec 32
  mMaxDelay : BitVec 32
  levelingTypeStatus : Ddr3LevelingMode
  edges : ℕ → Ddr3LevelingTransition
  mRequest : ℕ → Ddr3LevelingRequest
  mResponse : ℕ → ℕ → Ddr3LevelingTristate
  mDelay : ℕ → BitVec 32
  mPhyCtrl0 : ℕ → BitVec 32
  mPhyCtrl1 : ℕ → BitVec 32
  mDataDelay : ℕ → ℕ → BitVec 32
  mCtrlDelay : ℕ → ℕ → BitVec 32
  hwRegister : ℕ → BitVec 32

/-- The number of delays whose responses are saved. -/
abbrev nlmDdr3MaxDllDelay : ℕ := 256

def ddr3Ctl81 : ℕ := 0x9144

def ddr3Ctl90 : ℕ := 0x9168

namespace Ddr3State

/-- `SET_HW_REGISTER` -/
def setHwRegister (s : Ddr3State) (regName : ℕ) (val : BitVec 32) : Ddr3State :=
  { s with hwRegister := Function.update s.hwRegister (regName % 2 ^ 16 / 4) val }

def setPhyCtrl0 (s : Ddr3State) (slice : ℕ) (val : BitVec 32) : Ddr3State :=
  { s with mPhyCtrl0 := Function.update s.mPhyCtrl0 slice val }

def setPhyCtrl1 (s : Ddr3State) (slice : ℕ) (val : BitVec 32) : Ddr3State :=
  { s with mPhyCtrl1 := Function.update s.mPhyCtrl1 slice val }

/-- `nlm_device_ddr3_init_response` -/
def initResponse (s : Ddr3State) (slice : ℕ) : Ddr3State :=
  if s.mSaveResponses then
    { s with
      mDelay := Function.update s.mDelay slice (-1)
      mResponse := Function.update s.mResponse slice fun i ↦
        if i < nlmDdr3MaxDllDelay then .valZ else s.mResponse slice i }
  else s

/-- `nlm_device_ddr3_incr_full_cycle_delay` -/
def incrFullCycleDelay (s : Ddr3State) (slice : ℕ) : NlmStatus × Ddr3State :=
  let s := s.initResponse slice
  if s.mPhyCtrl1 slice &&& 7 = 7 then (.ddr3DelayChangeFail, s)
  else
    let s := s.setPhyCtrl1 slice (s.mPhyCtrl1 slice + 1)
    (.ok, s.setHwRegister (ddr3Ctl90 + 4 * slice) (s.mPhyCtrl1 slice))

/-- `nlm_device_ddr3_decr_full_cycle_delay` -/
def decrFullCycleDelay (s : Ddr3State) (slice : ℕ) : NlmStatus × Ddr3State :=
  let s := s.initResponse slice
  if s.mPhyCtrl1 slice &&& 7 = 0 then (.ddr3DelayChangeFail, s)
  else
    let s := s.setPhyCtrl1 slice (s.mPhyCtrl1 slice - 1)
    (.ok, s.setHwRegister (ddr3Ctl90 + 4 * slice) (s.mPhyCtrl1 slice))

/-- The end of both functions for half cycles. -/
def loadHalfCycle (slice : ℕ) (r : NlmStatus × Ddr3State) : NlmStatus × Ddr3State :=
  if r.1 = .ok then
    let s := r.2.initResponse slice
    (.ok, s.setHwRegister (ddr3Ctl81 + 4 * slice) (s.mPhyCtrl0 slice))
  else r

/-- `nlm_device_ddr3_incr_half_cycle_delay` -/
def incrHalfCycleDelay (s : Ddr3State) (slice : ℕ) : NlmStatus × Ddr3State :=
  let s := s.initResponse slice
  loadHalfCycle slice <|
    if s.mPhyCtrl0 slice &&& (1#32 <<< 16) = 0 then
      (.ok, s.setPhyCtrl0 slice (s.mPhyCtrl0 slice ||| 1#32 <<< 16))
    else
      (s.setPhyCtrl0 slice (s.mPhyCtrl0 slice &&& ~~~(1#32 <<< 16))).incrFullCycleDelay slice

/-- `nlm_device_ddr3_decr_half_cycle_delay` -/
def decrHalfCycleDelay (s : Ddr3State) (slice : ℕ) : NlmStatus × Ddr3State :=
  let s := s.initResponse slice
  loadHalfCycle slice <|
    if s.mPhyCtrl0 slice &&& (1#32 <<< 16) = 1 then
      (.ok, s.setPhyCtrl0 slice (s.mPhyCtrl0 slice &&& ~~~(1#32 <<< 16)))
    else
      (s.setPhyCtrl0 slice (s.mPhyCtrl0 slice ||| 1#32 <<< 16)).decrFullCycleDelay slice

/-- The delay of the gate in half cycles. -/
def halfCycles (s : Ddr3State) (slice : ℕ) : ℕ :=
  2 * (s.mPhyCtrl1 slice &&& 7).toNat + ((s.mPhyCtrl0 slice).getLsbD 16).toNat

/-- Both registers of all slices are the same. -/
def SamePhyCtrl (s s' : Ddr3State) : Prop :=
  s'.mPhyCtrl0 = s.mPhyCtrl0 ∧ s'.mPhyCtrl1 = s.mPhyCtrl1

/-- The registers are the same but for the bits of the delay of one slice. -/
structure SameOtherBits (slice : ℕ) (s s' : Ddr3State) : Prop where
  phyCtrl0 : ∀ i k, ¬ (i = slice ∧ k = 16) →
    (s'.mPhyCtrl0 i).getLsbD k = (s.mPhyCtrl0 i).getLsbD k
  phyCtrl1 : ∀ i k, ¬ (i = slice ∧ k < 3) →
    (s'.mPhyCtrl1 i).getLsbD k = (s.mPhyCtrl1 i).getLsbD k

/-- A call that changes the delay to `target` if there is such a delay, and nothing else. -/
structure Moves (slice : ℕ) (s : Ddr3State) (possible : Prop) (target : ℕ)
    (r : NlmStatus × Ddr3State) : Prop where
  ok_iff : r.1 = .ok ↔ possible
  halfCycles_eq : r.1 = .ok → r.2.halfCycles slice = target
  sameOtherBits : SameOtherBits slice s r.2
  same_of_fail : r.1 ≠ .ok → SamePhyCtrl s r.2

end Ddr3State

/-- A slice at the start of a leveling, with given control registers. -/
def Ddr3State.leveling (mode : Ddr3LevelingMode) (phyCtrl0 phyCtrl1 : BitVec 32) : Ddr3State where
  mSaveResponses := true
  mCsRank := 0
  mInPreamble := true
  mStepSize := 8
  simPsPeriod := 1
  mWrlvlIsLeveled := false
  mGtlvlIsLeveled := false
  mMinDelay := 0
  mMaxDelay := 255
  levelingTypeStatus := mode
  edges _ := .s0x
  mRequest _ := .termreq
  mResponse _ _ := .valZ
  mDelay _ := 0
  mPhyCtrl0 _ := phyCtrl0
  mPhyCtrl1 _ := phyCtrl1
  mDataDelay _ _ := 0
  mCtrlDelay _ _ := 0
  hwRegister _ := 0

/-- What is asked of the two functions, and of one after the other. -/
inductive GateClause
  | incr
  | decr
  | incrDecr
  | decrIncr
  deriving DecidableEq, Repr

namespace GateClause

/-- A clause for one state and slice. -/
def Holds (s : Ddr3State) (slice : ℕ) : GateClause → Prop
  | incr => Ddr3State.Moves slice s (s.halfCycles slice < 15) (s.halfCycles slice + 1)
      (s.incrHalfCycleDelay slice)
  | decr => Ddr3State.Moves slice s (0 < s.halfCycles slice) (s.halfCycles slice - 1)
      (s.decrHalfCycleDelay slice)
  | incrDecr =>
      let r := s.incrHalfCycleDelay slice
      let r' := r.2.decrHalfCycleDelay slice
      r.1 = .ok → r'.1 = .ok → s.SamePhyCtrl r'.2
  | decrIncr =>
      let r := s.decrHalfCycleDelay slice
      let r' := r.2.incrHalfCycleDelay slice
      r.1 = .ok → r'.1 = .ok → s.SamePhyCtrl r'.2

/-- When a clause holds, by the delay before the call. -/
def HoldsWhen (v : ℕ) : GateClause → Prop
  | incr => v ≠ 15
  | decr => v % 2 = 0 ∧ v ≠ 0
  | incrDecr => v % 2 = 1 ∨ v = 0
  | decrIncr => v % 2 = 0 ∨ v = 1

instance (v : ℕ) : DecidablePred (HoldsWhen v)
  | incr => inferInstanceAs (Decidable (_ ≠ _))
  | decr => inferInstanceAs (Decidable (_ ∧ _))
  | incrDecr => inferInstanceAs (Decidable (_ ∨ _))
  | decrIncr => inferInstanceAs (Decidable (_ ∨ _))

end GateClause

/-! ### The half cycle bit and the full cycles -/

theorem getLsbD_halfCycle (k : ℕ) : (1#32 <<< 16).getLsbD k = decide (k = 16) := by
  have hall : ∀ k < 32, (1#32 <<< 16).getLsbD k = decide (k = 16) := by decide
  by_cases hk : k < 32
  · exact hall k hk
  · rw [BitVec.getLsbD_of_ge _ _ (Nat.le_of_not_lt hk)]
    exact (decide_eq_false (by omega)).symm

theorem getLsbD_set_halfCycle (w : BitVec 32) (k : ℕ) :
    (w ||| 1#32 <<< 16).getLsbD k = (w.getLsbD k || decide (k = 16)) := by
  rw [BitVec.getLsbD_or, getLsbD_halfCycle]

theorem getLsbD_clear_halfCycle (w : BitVec 32) (k : ℕ) :
    (w &&& ~~~(1#32 <<< 16)).getLsbD k = (w.getLsbD k && !decide (k = 16)) := by
  rw [BitVec.getLsbD_and, BitVec.getLsbD_not, getLsbD_halfCycle]
  by_cases hk : k < 32
  · simp [hk]
  · rw [BitVec.getLsbD_of_ge _ _ (Nat.le_of_not_lt hk)]
    rfl

theorem getLsbD_set_self (w : BitVec 32) : (w ||| 1#32 <<< 16).getLsbD 16 = true := by
  rw [getLsbD_set_halfCycle, decide_eq_true rfl, Bool.or_true]

theorem getLsbD_clear_self (w : BitVec 32) : (w &&& ~~~(1#32 <<< 16)).getLsbD 16 = false := by
  rw [getLsbD_clear_halfCycle, decide_eq_true rfl, Bool.not_true, Bool.and_false]

theorem getLsbD_set_of_ne (w : BitVec 32) {k : ℕ} (hk : k ≠ 16) :
    (w ||| 1#32 <<< 16).getLsbD k = w.getLsbD k := by
  rw [getLsbD_set_halfCycle, decide_eq_false hk, Bool.or_false]

theorem getLsbD_clear_of_ne (w : BitVec 32) {k : ℕ} (hk : k ≠ 16) :
    (w &&& ~~~(1#32 <<< 16)).getLsbD k = w.getLsbD k := by
  rw [getLsbD_clear_halfCycle, decide_eq_false hk, Bool.not_false, Bool.and_true]

theorem and_halfCycle_eq_zero (w : BitVec 32) :
    w &&& (1#32 <<< 16) = 0 ↔ w.getLsbD 16 = false := by
  have hand : ∀ k, (w &&& (1#32 <<< 16)).getLsbD k = (w.getLsbD k && decide (k = 16)) := by
    intro k
    rw [BitVec.getLsbD_and, getLsbD_halfCycle]
  constructor
  · intro h
    have hbit := hand 16
    rw [h] at hbit
    simpa using hbit.symm
  · intro h
    apply BitVec.eq_of_getLsbD_eq
    intro k _
    rw [hand]
    by_cases hk : k = 16
    · rw [hk, h]
      rfl
    · simp [hk]

/-- The masked register is 0 or `1 << 16`. -/
theorem and_halfCycle_ne_one (w : BitVec 32) : w &&& (1#32 <<< 16) ≠ 1 := by
  intro h
  have hbit := congrArg (BitVec.getLsbD · 0) h
  simp only [BitVec.getLsbD_and, getLsbD_halfCycle] at hbit
  simp at hbit

theorem fullCycles_toNat (w : BitVec 32) : (w &&& 7).toNat = w.toNat % 8 := by
  rw [BitVec.toNat_and]
  exact Nat.and_two_pow_sub_one_eq_mod w.toNat 3

/-- One full cycle more, where the three bits do not overflow. -/
theorem fullCycles_succ {w : BitVec 32} (h : (w &&& 7).toNat < 7) :
    ((w + 1) &&& 7).toNat = (w &&& 7).toNat + 1 ∧
      ∀ k, 3 ≤ k → (w + 1).getLsbD k = w.getLsbD k := by
  rw [fullCycles_toNat] at *
  have hone : (1 : BitVec 32).toNat = 1 := rfl
  have hlt := w.isLt
  have hadd : (w + 1).toNat = w.toNat + 1 := by
    rw [BitVec.toNat_add, hone]
    exact Nat.mod_eq_of_lt (by omega)
  constructor
  · rw [fullCycles_toNat, hadd]
    omega
  · intro k hk
    -- above the three bits both numbers are the same
    have hshift : ∀ n : ℕ, n.testBit k = (n / 2 ^ 3).testBit (k - 3) := by
      intro n
      rw [Nat.testBit_div_two_pow, Nat.sub_add_cancel hk]
    have hdiv : (w.toNat + 1) / 2 ^ 3 = w.toNat / 2 ^ 3 := by omega
    rw [← BitVec.testBit_toNat, ← BitVec.testBit_toNat, hadd, hshift, hshift, hdiv]

theorem fullCycles_pred {w : BitVec 32} (h : (w &&& 7).toNat ≠ 0) :
    ((w - 1) &&& 7).toNat + 1 = (w &&& 7).toNat ∧
      ∀ k, 3 ≤ k → (w - 1).getLsbD k = w.getLsbD k := by
  have hcancel : w - 1 + 1 = w := BitVec.sub_add_cancel w 1
  have hlt : ((w - 1) &&& 7).toNat < 7 := by
    rw [fullCycles_toNat] at *
    have hone : (1 : BitVec 32).toNat = 1 := rfl
    have hsub := congrArg BitVec.toNat hcancel
    rw [BitVec.toNat_add, hone] at hsub
    omega
  obtain ⟨hsucc, hbits⟩ := fullCycles_succ hlt
  rw [hcancel] at hsucc hbits
  exact ⟨hsucc.symm, fun k hk ↦ (hbits k hk).symm⟩

theorem clear_set_halfCycle {w : BitVec 32} (h : w.getLsbD 16 = true) :
    (w &&& ~~~(1#32 <<< 16)) ||| 1#32 <<< 16 = w := by
  apply BitVec.eq_of_getLsbD_eq
  intro k _
  rw [getLsbD_set_halfCycle, getLsbD_clear_halfCycle]
  by_cases hk : k = 16
  · rw [hk, h]
    rfl
  · simp [hk]

theorem set_clear_halfCycle {w : BitVec 32} (h : w.getLsbD 16 = false) :
    (w ||| 1#32 <<< 16) &&& ~~~(1#32 <<< 16) = w := by
  apply BitVec.eq_of_getLsbD_eq
  intro k _
  rw [getLsbD_clear_halfCycle, getLsbD_set_halfCycle]
  by_cases hk : k = 16
  · rw [hk, h]
    rfl
  · simp [hk]

/-! ### What the calls leave in the registers -/

namespace Ddr3State

variable (s : Ddr3State) (slice i : ℕ) (val : BitVec 32)

@[simp] theorem initResponse_mPhyCtrl0 : (s.initResponse slice).mPhyCtrl0 = s.mPhyCtrl0 := by
  unfold initResponse
  split <;> rfl

@[simp] theorem initResponse_mPhyCtrl1 : (s.initResponse slice).mPhyCtrl1 = s.mPhyCtrl1 := by
  unfold initResponse
  split <;> rfl

@[simp] theorem setHwRegister_mPhyCtrl0 : (s.setHwRegister i val).mPhyCtrl0 = s.mPhyCtrl0 := rfl

@[simp] theorem setHwRegister_mPhyCtrl1 : (s.setHwRegister i val).mPhyCtrl1 = s.mPhyCtrl1 := rfl

@[simp] theorem setPhyCtrl0_mPhyCtrl0 :
    (s.setPhyCtrl0 slice val).mPhyCtrl0 = Function.update s.mPhyCtrl0 slice val := rfl

@[simp] theorem setPhyCtrl0_mPhyCtrl1 : (s.setPhyCtrl0 slice val).mPhyCtrl1 = s.mPhyCtrl1 := rfl

@[simp] theorem setPhyCtrl1_mPhyCtrl0 : (s.setPhyCtrl1 slice val).mPhyCtrl0 = s.mPhyCtrl0 := rfl

@[simp] theorem setPhyCtrl1_mPhyCtrl1 :
    (s.setPhyCtrl1 slice val).mPhyCtrl1 = Function.update s.mPhyCtrl1 slice val := rfl

/-- What a call leaves: its status, and the two registers of the slice. -/
structure Leaves (slice : ℕ) (s : Ddr3State) (r : NlmStatus × Ddr3State) (status : NlmStatus)
    (phyCtrl0 phyCtrl1 : BitVec 32) : Prop where
  status_eq : r.1 = status
  phyCtrl0_eq : r.2.mPhyCtrl0 = Function.update s.mPhyCtrl0 slice phyCtrl0
  phyCtrl1_eq : r.2.mPhyCtrl1 = Function.update s.mPhyCtrl1 slice phyCtrl1

variable {s slice} {r r' : NlmStatus × Ddr3State} {status status' : NlmStatus}
  {w0 w0' w1 w1' : BitVec 32}

namespace Leaves

theorem phyCtrl0 (h : Leaves slice s r status w0 w1) : r.2.mPhyCtrl0 slice = w0 := by
  rw [h.phyCtrl0_eq, Function.update_self]

theorem phyCtrl1 (h : Leaves slice s r status w0 w1) : r.2.mPhyCtrl1 slice = w1 := by
  rw [h.phyCtrl1_eq, Function.update_self]

theorem trans (h : Leaves slice s r status w0 w1) (h' : Leaves slice r.2 r' status' w0' w1') :
    Leaves slice s r' status' w0' w1' where
  status_eq := h'.status_eq
  phyCtrl0_eq := by rw [h'.phyCtrl0_eq, h.phyCtrl0_eq, Function.update_idem]
  phyCtrl1_eq := by rw [h'.phyCtrl1_eq, h.phyCtrl1_eq, Function.update_idem]

theorem loadHalfCycle (h : Leaves slice s r status w0 w1) :
    Leaves slice s (loadHalfCycle slice r) status w0 w1 := by
  unfold Ddr3State.loadHalfCycle
  split_ifs with hok
  · exact ⟨hok.symm.trans h.status_eq, by simpa using h.phyCtrl0_eq, by simpa using h.phyCtrl1_eq⟩
  · exact h

theorem halfCycles (h : Leaves slice s r status w0 w1) :
    r.2.halfCycles slice = 2 * (w1 &&& 7).toNat + (w0.getLsbD 16).toNat := by
  rw [Ddr3State.halfCycles, h.phyCtrl0, h.phyCtrl1]

theorem samePhyCtrl_iff (h : Leaves slice s r status w0 w1) :
    SamePhyCtrl s r.2 ↔ w0 = s.mPhyCtrl0 slice ∧ w1 = s.mPhyCtrl1 slice := by
  rw [SamePhyCtrl, h.phyCtrl0_eq, h.phyCtrl1_eq, Function.update_eq_self_iff,
    Function.update_eq_self_iff]

theorem sameOtherBits (h : Leaves slice s r status w0 w1)
    (h0 : ∀ k, k ≠ 16 → w0.getLsbD k = (s.mPhyCtrl0 slice).getLsbD k)
    (h1 : ∀ k, 3 ≤ k → w1.getLsbD k = (s.mPhyCtrl1 slice).getLsbD k) :
    SameOtherBits slice s r.2 := by
  constructor
  · intro i k hik
    rw [h.phyCtrl0_eq]
    by_cases hi : i = slice
    · rw [hi, Function.update_self]
      exact h0 k fun hk ↦ hik ⟨hi, hk⟩
    · rw [Function.update_of_ne hi]
  · intro i k hik
    rw [h.phyCtrl1_eq]
    by_cases hi : i = slice
    · rw [hi, Function.update_self]
      exact h1 k (Nat.le_of_not_lt fun hk ↦ hik ⟨hi, hk⟩)
    · rw [Function.update_of_ne hi]

theorem moves {possible : Prop} {target : ℕ} (h : Leaves slice s r .ok w0 w1) (hp : possible)
    (htarget : 2 * (w1 &&& 7).toNat + (w0.getLsbD 16).toNat = target)
    (h0 : ∀ k, k ≠ 16 → w0.getLsbD k = (s.mPhyCtrl0 slice).getLsbD k)
    (h1 : ∀ k, 3 ≤ k → w1.getLsbD k = (s.mPhyCtrl1 slice).getLsbD k) :
    Moves slice s possible target r where
  ok_iff := ⟨fun _ ↦ hp, fun _ ↦ h.status_eq⟩
  halfCycles_eq _ := h.halfCycles.trans htarget
  sameOtherBits := h.sameOtherBits h0 h1
  same_of_fail hne := absurd h.status_eq hne

/-- A call that fails has to leave the half cycle alone. -/
theorem not_moves {possible : Prop} {target : ℕ}
    (h : Leaves slice s r .ddr3DelayChangeFail w0 w1)
    (hbit : w0.getLsbD 16 ≠ (s.mPhyCtrl0 slice).getLsbD 16) :
    ¬ Moves slice s possible target r := by
  intro hmoves
  have hfail : r.1 ≠ .ok := by
    rw [h.status_eq]
    decide
  have hsame := h.samePhyCtrl_iff.mp (hmoves.same_of_fail hfail)
  rw [hsame.1] at hbit
  exact hbit rfl

end Leaves

/-- The half cycle is written first, and then the full cycles are changed. -/
theorem Leaves.after_set {f : Ddr3State → NlmStatus × Ddr3State}
    (hf : ∀ s' : Ddr3State, s'.mPhyCtrl1 slice = s.mPhyCtrl1 slice →
      Leaves slice s' (f s') status (s'.mPhyCtrl0 slice) w1) :
    Leaves slice s
      (Ddr3State.loadHalfCycle slice (f ((s.initResponse slice).setPhyCtrl0 slice w0)))
      status w0 w1 := by
  have hset : Leaves slice s (status, (s.initResponse slice).setPhyCtrl0 slice w0) status w0
      (s.mPhyCtrl1 slice) := ⟨rfl, by simp, by simp⟩
  have hfull := hf _ hset.phyCtrl1
  rw [hset.phyCtrl0] at hfull
  exact (hset.trans hfull).loadHalfCycle

theorem incrFull_leaves (hw1 : s.mPhyCtrl1 slice = w1) (h : (w1 &&& 7).toNat < 7) :
    Leaves slice s (s.incrFullCycleDelay slice) .ok (s.mPhyCtrl0 slice) (w1 + 1) := by
  have hne : w1 &&& 7 ≠ 7 := by
    intro heq
    rw [heq] at h
    exact absurd h (by decide)
  simp only [incrFullCycleDelay, initResponse_mPhyCtrl1, hw1, if_neg hne]
  exact ⟨rfl, by simp, by simp⟩

theorem incrFull_fails (hw1 : s.mPhyCtrl1 slice = w1) (h : (w1 &&& 7).toNat = 7) :
    Leaves slice s (s.incrFullCycleDelay slice) .ddr3DelayChangeFail (s.mPhyCtrl0 slice) w1 := by
  have heq : w1 &&& 7 = 7 := BitVec.eq_of_toNat_eq h
  simp only [incrFullCycleDelay, initResponse_mPhyCtrl1, hw1, if_pos heq]
  exact ⟨rfl, by simp, by simp [← hw1]⟩

theorem decrFull_leaves (hw1 : s.mPhyCtrl1 slice = w1) (h : (w1 &&& 7).toNat ≠ 0) :
    Leaves slice s (s.decrFullCycleDelay slice) .ok (s.mPhyCtrl0 slice) (w1 - 1) := by
  have hne : w1 &&& 7 ≠ 0 := by
    intro heq
    rw [heq] at h
    exact h rfl
  simp only [decrFullCycleDelay, initResponse_mPhyCtrl1, hw1, if_neg hne]
  exact ⟨rfl, by simp, by simp⟩

theorem decrFull_fails (hw1 : s.mPhyCtrl1 slice = w1) (h : (w1 &&& 7).toNat = 0) :
    Leaves slice s (s.decrFullCycleDelay slice) .ddr3DelayChangeFail (s.mPhyCtrl0 slice) w1 := by
  have heq : w1 &&& 7 = 0 := BitVec.eq_of_toNat_eq h
  simp only [decrFullCycleDelay, initResponse_mPhyCtrl1, hw1, if_pos heq]
  exact ⟨rfl, by simp, by simp [← hw1]⟩

theorem incrHalf_sets (h : (s.mPhyCtrl0 slice).getLsbD 16 = false) :
    Leaves slice s (s.incrHalfCycleDelay slice) .ok (s.mPhyCtrl0 slice ||| 1#32 <<< 16)
      (s.mPhyCtrl1 slice) := by
  apply Leaves.loadHalfCycle
  simp only [initResponse_mPhyCtrl0, if_pos ((and_halfCycle_eq_zero _).mpr h)]
  exact ⟨rfl, by simp, by simp⟩

/-- A half cycle more on a slice with one is a full cycle more. -/
theorem incrHalf_eq (h : (s.mPhyCtrl0 slice).getLsbD 16 = true) :
    s.incrHalfCycleDelay slice = loadHalfCycle slice
      (((s.initResponse slice).setPhyCtrl0 slice
        (s.mPhyCtrl0 slice &&& ~~~(1#32 <<< 16))).incrFullCycleDelay slice) := by
  have hne : s.mPhyCtrl0 slice &&& (1#32 <<< 16) ≠ 0 := by
    rw [Ne, and_halfCycle_eq_zero, h]
    decide
  simp only [incrHalfCycleDelay, initResponse_mPhyCtrl0, if_neg hne]

/-- A half cycle less is always a full cycle less. -/
theorem decrHalf_eq (s : Ddr3State) (slice : ℕ) :
    s.decrHalfCycleDelay slice = loadHalfCycle slice
      (((s.initResponse slice).setPhyCtrl0 slice
        (s.mPhyCtrl0 slice ||| 1#32 <<< 16)).decrFullCycleDelay slice) := by
  simp only [decrHalfCycleDelay, initResponse_mPhyCtrl0, if_neg (and_halfCycle_ne_one _)]

theorem incrHalf_carries (h : (s.mPhyCtrl0 slice).getLsbD 16 = true)
    (hfull : (s.mPhyCtrl1 slice &&& 7).toNat < 7) :
    Leaves slice s (s.incrHalfCycleDelay slice) .ok (s.mPhyCtrl0 slice &&& ~~~(1#32 <<< 16))
      (s.mPhyCtrl1 slice + 1) := by
  rw [incrHalf_eq h]
  apply Leaves.after_set (f := (incrFullCycleDelay · slice))
  intro s' hs'
  exact incrFull_leaves hs' hfull

theorem incrHalf_fails (h : (s.mPhyCtrl0 slice).getLsbD 16 = true)
    (hfull : (s.mPhyCtrl1 slice &&& 7).toNat = 7) :
    Leaves slice s (s.incrHalfCycleDelay slice) .ddr3DelayChangeFail
      (s.mPhyCtrl0 slice &&& ~~~(1#32 <<< 16)) (s.mPhyCtrl1 slice) := by
  rw [incrHalf_eq h]
  apply Leaves.after_set (f := (incrFullCycleDelay · slice))
  intro s' hs'
  exact incrFull_fails hs' hfull

theorem decrHalf_borrows (hfull : (s.mPhyCtrl1 slice &&& 7).toNat ≠ 0) :
    Leaves slice s (s.decrHalfCycleDelay slice) .ok (s.mPhyCtrl0 slice ||| 1#32 <<< 16)
      (s.mPhyCtrl1 slice - 1) := by
  rw [decrHalf_eq]
  apply Leaves.after_set (f := (decrFullCycleDelay · slice))
  intro s' hs'
  exact decrFull_leaves hs' hfull

theorem decrHalf_fails (hfull : (s.mPhyCtrl1 slice &&& 7).toNat = 0) :
    Leaves slice s (s.decrHalfCycleDelay slice) .ddr3DelayChangeFail
      (s.mPhyCtrl0 slice ||| 1#32 <<< 16) (s.mPhyCtrl1 slice) := by
  rw [decrHalf_eq]
  apply Leaves.after_set (f := (decrFullCycleDelay · slice))
  intro s' hs'
  exact decrFull_fails hs' hfull

end Ddr3State

/-! ### The clauses -/

namespace GateClause

open Ddr3State

variable {s : Ddr3State} {slice : ℕ}

theorem fullCycles_le (w : BitVec 32) : (w &&& 7).toNat ≤ 7 := by
  rw [fullCycles_toNat]
  omega

theorem incr_iff : incr.Holds s slice ↔ incr.HoldsWhen (s.halfCycles slice) := by
  have hle := fullCycles_le (s.mPhyCtrl1 slice)
  rw [Holds, HoldsWhen, halfCycles]
  cases hbit : (s.mPhyCtrl0 slice).getLsbD 16 with
  | false =>
    rw [Bool.toNat_false]
    refine iff_of_true ((incrHalf_sets hbit).moves (by omega) ?_
      (fun k hk ↦ getLsbD_set_of_ne _ hk) fun k _ ↦ rfl) (by omega)
    rw [getLsbD_set_self, Bool.toNat_true]
  | true =>
    rw [Bool.toNat_true]
    by_cases hfull : (s.mPhyCtrl1 slice &&& 7).toNat < 7
    · obtain ⟨hsucc, hkept⟩ := fullCycles_succ hfull
      refine iff_of_true ((incrHalf_carries hbit hfull).moves (by omega) ?_
        (fun k hk ↦ getLsbD_clear_of_ne _ hk) hkept) (by omega)
      rw [getLsbD_clear_self, Bool.toNat_false, hsucc]
      omega
    · refine iff_of_false ((incrHalf_fails hbit (by omega)).not_moves ?_) (by omega)
      rw [getLsbD_clear_self, hbit]
      decide

theorem decr_iff : decr.Holds s slice ↔ decr.HoldsWhen (s.halfCycles slice) := by
  have hle := fullCycles_le (s.mPhyCtrl1 slice)
  rw [Holds, HoldsWhen, halfCycles]
  by_cases hfull : (s.mPhyCtrl1 slice &&& 7).toNat = 0
  · have hfails := decrHalf_fails hfull
    rw [hfull]
    cases hbit : (s.mPhyCtrl0 slice).getLsbD 16 with
    | false =>
      refine iff_of_false (hfails.not_moves ?_) (by decide)
      rw [getLsbD_set_self, hbit]
      decide
    | true =>
      refine iff_of_false (fun hmoves ↦ ?_) (by decide)
      -- the call fails although there is a half cycle to remove
      have hok := hmoves.ok_iff.mpr (by decide)
      rw [hfails.status_eq] at hok
      cases hok
  · obtain ⟨hpred, hkept⟩ := fullCycles_pred hfull
    have hborrows := decrHalf_borrows hfull
    cases hbit : (s.mPhyCtrl0 slice).getLsbD 16 with
    | false =>
      rw [Bool.toNat_false]
      refine iff_of_true (hborrows.moves (by omega) ?_ (fun k hk ↦ getLsbD_set_of_ne _ hk) hkept)
        (by omega)
      rw [getLsbD_set_self, Bool.toNat_true]
      omega
    | true =>
      rw [Bool.toNat_true]
      refine iff_of_false (fun hmoves ↦ ?_) (by omega)
      -- the half cycle stays, and a full cycle is removed
      have hdelay := hmoves.halfCycles_eq hborrows.status_eq
      rw [hborrows.halfCycles, getLsbD_set_self, Bool.toNat_true] at hdelay
      omega

theorem incrDecr_iff : incrDecr.Holds s slice ↔ incrDecr.HoldsWhen (s.halfCycles slice) := by
  have hle := fullCycles_le (s.mPhyCtrl1 slice)
  simp only [Holds, HoldsWhen, halfCycles]
  cases hbit : (s.mPhyCtrl0 slice).getLsbD 16 with
  | false =>
    rw [Bool.toNat_false]
    have hincr := incrHalf_sets hbit
    by_cases hfull : (s.mPhyCtrl1 slice &&& 7).toNat = 0
    · rw [← hincr.phyCtrl1] at hfull
      have hdecr := decrHalf_fails hfull
      rw [hincr.phyCtrl1] at hfull
      refine iff_of_true (fun _ hok ↦ ?_) (by omega)
      rw [hdecr.status_eq] at hok
      cases hok
    · rw [← hincr.phyCtrl1] at hfull
      have hdecr := hincr.trans (decrHalf_borrows hfull)
      rw [hincr.phyCtrl1] at hfull
      refine iff_of_false (fun h ↦ ?_) (by omega)
      -- the half cycle that was added is still there
      have hsame := hdecr.samePhyCtrl_iff.mp (h hincr.status_eq hdecr.status_eq)
      have hset := congrArg (BitVec.getLsbD · 16) hsame.1
      simp only [getLsbD_set_self, hbit] at hset
      cases hset
  | true =>
    rw [Bool.toNat_true]
    refine iff_of_true (fun hok _ ↦ ?_) (by omega)
    by_cases hfull : (s.mPhyCtrl1 slice &&& 7).toNat < 7
    · have hincr := incrHalf_carries hbit hfull
      have hne : ((s.incrHalfCycleDelay slice).2.mPhyCtrl1 slice &&& 7).toNat ≠ 0 := by
        rw [hincr.phyCtrl1, (fullCycles_succ hfull).1]
        exact Nat.succ_ne_zero _
      apply (hincr.trans (decrHalf_borrows hne)).samePhyCtrl_iff.mpr
      rw [hincr.phyCtrl0, hincr.phyCtrl1]
      exact ⟨clear_set_halfCycle hbit, BitVec.add_sub_cancel _ _⟩
    · rw [(incrHalf_fails hbit (by omega)).status_eq] at hok
      cases hok

theorem decrIncr_iff : decrIncr.Holds s slice ↔ decrIncr.HoldsWhen (s.halfCycles slice) := by
  have hle := fullCycles_le (s.mPhyCtrl1 slice)
  simp only [Holds, HoldsWhen, halfCycles]
  by_cases hfull : (s.mPhyCtrl1 slice &&& 7).toNat = 0
  · have hdecr := decrHalf_fails hfull
    refine iff_of_true (fun hok ↦ ?_) ?_
    · rw [hdecr.status_eq] at hok
      cases hok
    · rw [hfull]
      cases (s.mPhyCtrl0 slice).getLsbD 16 with
      | false => decide
      | true => decide
  · have hdecr := decrHalf_borrows hfull
    have hbit : ((s.decrHalfCycleDelay slice).2.mPhyCtrl0 slice).getLsbD 16 = true := by
      rw [hdecr.phyCtrl0, getLsbD_set_self]
    have hlt : ((s.decrHalfCycleDelay slice).2.mPhyCtrl1 slice &&& 7).toNat < 7 := by
      have hpred := (fullCycles_pred hfull).1
      rw [hdecr.phyCtrl1]
      omega
    have hincr := hdecr.trans (incrHalf_carries hbit hlt)
    rw [hdecr.phyCtrl0, hdecr.phyCtrl1] at hincr
    simp only [hincr.samePhyCtrl_iff, hdecr.status_eq, hincr.status_eq, BitVec.sub_add_cancel]
    cases h : (s.mPhyCtrl0 slice).getLsbD 16 with
    | false =>
      rw [Bool.toNat_false]
      exact iff_of_true (fun _ _ ↦ ⟨set_clear_halfCycle h, trivial⟩) (by omega)
    | true =>
      rw [Bool.toNat_true]
      refine iff_of_false (fun hsame ↦ ?_) (by omega)
      have hclear := congrArg (BitVec.getLsbD · 16) (hsame trivial trivial).1
      simp only [getLsbD_clear_self, h] at hclear
      cases hclear

/-- Each clause holds exactly at its own delays, and all of them together at none. -/
theorem holds_iff (s : Ddr3State) (slice : ℕ) :
    (∀ clause : GateClause, clause.Holds s slice ↔ clause.HoldsWhen (s.halfCycles slice)) ∧
      ¬ ∀ clause : GateClause, clause.Holds s slice := by
  have hall : ∀ clause : GateClause,
      clause.Holds s slice ↔ clause.HoldsWhen (s.halfCycles slice) := by
    intro clause
    cases clause with
    | incr => exact incr_iff
    | decr => exact decr_iff
    | incrDecr => exact incrDecr_iff
    | decrIncr => exact decrIncr_iff
  refine ⟨hall, fun h ↦ ?_⟩
  have hdecr := (hall decr).mp (h decr)
  have hincrDecr := (hall incrDecr).mp (h incrDecr)
  simp only [HoldsWhen] at hdecr hincrDecr
  omega

/-- Three half cycles become one where two are expected. -/
theorem decr_of_three : ¬ decr.Holds (Ddr3State.leveling .gate (1#32 <<< 16) 1) 0 := by
  intro h
  exact absurd (decr_iff.mp h) (by decide)

end GateClause

end NetL7.Device
