import NetL7.Device.PoolPartition
import Mathlib.Algebra.Order.Group.Nat
import Mathlib.Tactic.Tauto

/-!
# The estimated size of a memory pool

`nlm_device_estimate_memory_pool_size` adds up what a single thread needs for its
flows and jobs, with some room to spare. The mask that should detect a sum of more
than 32 bits is the complement of an `unsigned int` and is zero, so the sum is cut
off instead.
-/

namespace NetL7.Device

open NetL7.Packet NlmDeviceConfig

/-- `sizeof (nlm_phy_device_t)` on a 64-bit machine. -/
def sizeofNlmPhyDevice : ℕ := 95240

/-- `mask64_high32`: the complement is taken of 32 bits and then extended. -/
def mask64High32 : BitVec 64 := (~~~(0xffffffff : BitVec 32)).setWidth 64

/-- `nlm_device_estimate_memory_pool_size`: the status and `*size_out`, if it is set. -/
def nlmDeviceEstimateMemoryPoolSize (maxFlows maxJobs : BitVec 32) :
    NlmStatus × Option (BitVec 32) :=
  let size : BitVec 64 := BitVec.ofNat 64 sizeofNlmDevice
  let size := size + BitVec.ofNat 64 sizeofNlmPhyDevice
  let size := size + maxFlows.setWidth 64 * BitVec.ofNat 64 sizeofNlmFlow
  if size &&& mask64High32 ≠ 0 then (.outOfMemory, none)
  else
    let size := size + (maxJobs + 2).setWidth 64 * BitVec.ofNat 64 sizeofNlmJob
    if size &&& mask64High32 ≠ 0 then (.outOfMemory, none)
    else
      let size := size + 512
      let size := (size + 255) &&& ~~~(255 : BitVec 64)
      if size &&& mask64High32 ≠ 0 then (.outOfMemory, none)
      else
        let size :=
          if size.toNat < nlmMinMemoryPoolSize then BitVec.ofNat 64 nlmMinMemoryPoolSize else size
        (.ok, some (size.setWidth 32))

/-- The sum without any cut, rounded up. -/
def estimatedSize (maxFlows maxJobs : ℕ) : ℕ :=
  alignUp 256 (sizeofNlmDevice + sizeofNlmPhyDevice + sizeofNlmFlow * maxFlows +
    sizeofNlmJob * (maxJobs + 2) + 512)

theorem mask64High32_eq : mask64High32 = 0#64 := rfl

theorem toNat_and_not_255 (x : BitVec 64) : (x &&& ~~~(255 : BitVec 64)).toNat = x.toNat / 256 * 256 := by
  have h : x &&& ~~~(255 : BitVec 64) = (x >>> 8) <<< 8 := by
    apply BitVec.eq_of_getLsbD_eq
    intro i hi
    have h255 : (255 : BitVec 64).getLsbD i = decide (i < 8) := by
      rw [show (255 : BitVec 64) = BitVec.ofNat 64 (2 ^ 8 - 1) from rfl, BitVec.getLsbD_ofNat,
        Nat.testBit_two_pow_sub_one]
      simp [hi]
    rw [BitVec.getLsbD_and, BitVec.getLsbD_not, h255, BitVec.getLsbD_shiftLeft,
      BitVec.getLsbD_ushiftRight]
    by_cases hi8 : i < 8
    · simp [hi8]
    · simp [hi8, hi, show 8 + (i - 8) = i from by omega]
  have hlt := x.isLt
  rw [h, BitVec.toNat_shiftLeft, BitVec.toNat_ushiftRight, Nat.shiftRight_eq_div_pow,
    Nat.shiftLeft_eq]
  omega

/-- The estimate never fails and returns the lower 32 bits of a sum that counts the jobs
modulo `2 ^ 32`. -/
theorem estimate_eq (maxFlows maxJobs : BitVec 32) :
    ∃ s, nlmDeviceEstimateMemoryPoolSize maxFlows maxJobs = (.ok, some s) ∧
      ∃ jobs, jobs = (maxJobs.toNat + 2) % 2 ^ 32 ∧
        s.toNat = max ((sizeofNlmDevice + sizeofNlmPhyDevice + sizeofNlmFlow * maxFlows.toNat +
          sizeofNlmJob * jobs + 512 + 255) / 256 * 256) nlmMinMemoryPoolSize % 2 ^ 32 := by
  have hf := maxFlows.isLt
  have hj := (maxJobs + 2).isLt
  have hj2 : (maxJobs + 2).toNat = (maxJobs.toNat + 2) % 2 ^ 32 := BitVec.toNat_add _ _
  simp only [nlmDeviceEstimateMemoryPoolSize, mask64High32_eq, BitVec.and_zero, ne_eq]
  refine ⟨_, rfl, (maxJobs + 2).toNat, hj2, ?_⟩
  generalize (maxJobs + 2) = jobs at hj
  have hsum : (BitVec.ofNat 64 sizeofNlmDevice + BitVec.ofNat 64 sizeofNlmPhyDevice +
      maxFlows.setWidth 64 * BitVec.ofNat 64 sizeofNlmFlow +
        jobs.setWidth 64 * BitVec.ofNat 64 sizeofNlmJob + 512 + 255).toNat =
      sizeofNlmDevice + sizeofNlmPhyDevice + sizeofNlmFlow * maxFlows.toNat +
        sizeofNlmJob * jobs.toNat + 512 + 255 := by
    have h512 : (512 : BitVec 64).toNat = 512 := rfl
    have h255 : (255 : BitVec 64).toNat = 255 := rfl
    simp only [BitVec.toNat_add, BitVec.toNat_mul, BitVec.toNat_setWidth, BitVec.toNat_ofNat,
      h512, h255, sizeofNlmDevice, sizeofNlmPhyDevice, sizeofNlmFlow, sizeofNlmJob]
    omega
  have hmask := toNat_and_not_255 (BitVec.ofNat 64 sizeofNlmDevice +
    BitVec.ofNat 64 sizeofNlmPhyDevice + maxFlows.setWidth 64 * BitVec.ofNat 64 sizeofNlmFlow +
      jobs.setWidth 64 * BitVec.ofNat 64 sizeofNlmJob + 512 + 255)
  rw [hsum] at hmask
  rw [← hmask, BitVec.toNat_setWidth]
  split
  · next hlt =>
    rw [Nat.max_eq_right (Nat.le_of_lt hlt)]
    rfl
  · next hlt => rw [Nat.max_eq_left (Nat.not_lt.mp hlt)]

/-! ### What a pool can hold -/

/-- An allocation in a memory pool. -/
inductive PoolAlloc
  | flow (flowType : NlmFlowType)
  | job
  deriving DecidableEq

def PoolAlloc.isFlow : PoolAlloc → Bool
  | flow _ => true
  | job => false

/-- One allocation. -/
def allocOne (c : PoolConfig) (m : MemoryPool) : PoolAlloc → Option MemoryPool
  | .flow flowType => (m.memoryPoolAllocFlow c flowType).map Prod.snd
  | .job => (m.memoryPoolAllocJob c).map Prod.snd

/-- A sequence of allocations, all of which succeed. -/
def allocAll (c : PoolConfig) (m : MemoryPool) : List PoolAlloc → Option MemoryPool
  | [] => some m
  | a :: allocs => (allocOne c m a).bind fun m ↦ allocAll c m allocs

/-- A configuration for one thread without a manager that is accepted with a pool of the
smallest size, and that has a pool of `size` bytes. -/
structure SinglePool (c : NlmDeviceConfig) (size : ℕ) : Prop where
  accepted : { c with memoryPoolSize := nlmMinMemoryPoolSize }.initError 0 = none
  shared : c.xmalloc = 0
  single : c.maxThreads = 1
  direct : c.usingManagerThread = false
  size_eq : c.memoryPoolSize = size
  size_lt : size < 2 ^ 32

/-- The device is initialised, and every order of at most so many allocations succeeds. -/
def HoldsAll (c : NlmDeviceConfig) (flows jobs : ℕ) : Prop :=
  c.initError 0 = none ∧
    ∀ allocs : List PoolAlloc, allocs.countP PoolAlloc.isFlow ≤ flows →
      allocs.countP (fun a ↦ !a.isFlow) ≤ jobs →
        (allocAll (c.sliceOf 0) (MemoryPool.attach (c.sliceOf 0)) allocs).isSome = true

/-- The pool after so many allocations and no release. -/
def MemoryPool.filled (c : PoolConfig) (flows jobs : ℕ) : MemoryPool :=
  ⟨c.flowBase + sizeofNlmFlow * flows, [], [], 1 + jobs, []⟩

section Filled

variable {c : PoolConfig} {flows jobs : ℕ}

/-- There is room for so many flows and jobs. -/
def Room (c : PoolConfig) (flows jobs : ℕ) : Prop :=
  c.flowBase + sizeofNlmFlow * flows + sizeofNlmJob * (jobs + 1) < c.jobBase

instance : Decidable (Room c flows jobs) := inferInstanceAs (Decidable (_ < _))

theorem Room.mono {flows' jobs' : ℕ} (h : Room c flows jobs) (hf : flows' ≤ flows)
    (hj : jobs' ≤ jobs) : Room c flows' jobs' := by
  unfold Room at h ⊢
  simp only [sizeofNlmFlow, sizeofNlmJob] at h ⊢
  omega

theorem flow_refused_iff :
    (MemoryPool.filled c flows jobs).firstFreeFlow + sizeofNlmFlow ≥
        MemoryPool.jobAddr c (MemoryPool.filled c flows jobs).firstFreeJob ↔
      ¬Room c (flows + 1) jobs := by
  simp only [MemoryPool.filled, MemoryPool.jobAddr, Room, sizeofNlmFlow, sizeofNlmJob]
  omega

theorem job_refused_iff :
    MemoryPool.jobAddr c ((MemoryPool.filled c flows jobs).firstFreeJob + 1) ≤
        (MemoryPool.filled c flows jobs).firstFreeFlow ↔
      ¬Room c flows (jobs + 1) := by
  simp only [MemoryPool.filled, MemoryPool.jobAddr, Room, sizeofNlmFlow, sizeofNlmJob]
  omega

theorem allocFresh_filled :
    (MemoryPool.filled c flows jobs).allocFreshFlow c =
      if Room c (flows + 1) jobs then
        some (c.flowBase + sizeofNlmFlow * flows, MemoryPool.filled c (flows + 1) jobs)
      else none := by
  unfold MemoryPool.allocFreshFlow
  by_cases h : Room c (flows + 1) jobs
  · rw [if_pos h, if_neg fun hn ↦ flow_refused_iff.mp hn h]
    rfl
  · rw [if_neg h, if_pos (flow_refused_iff.mpr h)]

theorem allocOne_flow_filled (flowType : NlmFlowType) :
    allocOne c (MemoryPool.filled c flows jobs) (.flow flowType) =
      if Room c (flows + 1) jobs then some (MemoryPool.filled c (flows + 1) jobs) else none := by
  have hfresh : (MemoryPool.filled c flows jobs).memoryPoolAllocFlow c flowType =
      (MemoryPool.filled c flows jobs).allocFreshFlow c := by
    cases flowType <;> rfl
  rw [allocOne, hfresh, allocFresh_filled]
  split <;> rfl

theorem allocOne_job_filled :
    allocOne c (MemoryPool.filled c flows jobs) .job =
      if Room c flows (jobs + 1) then some (MemoryPool.filled c flows (jobs + 1)) else none := by
  have hjob : (MemoryPool.filled c flows jobs).memoryPoolAllocJob c =
      if MemoryPool.jobAddr c ((MemoryPool.filled c flows jobs).firstFreeJob + 1) ≤
          (MemoryPool.filled c flows jobs).firstFreeFlow then none
      else some (1 + jobs, MemoryPool.filled c flows (jobs + 1)) := rfl
  rw [allocOne, hjob]
  by_cases h : Room c flows (jobs + 1)
  · rw [if_pos h, if_neg fun hn ↦ job_refused_iff.mp hn h]
    rfl
  · rw [if_neg h, if_pos (job_refused_iff.mpr h)]
    rfl

/-- Where there is room for all of them, every order of allocations succeeds. -/
theorem allocAll_of_room (allocs : List PoolAlloc)
    (hroom : Room c (flows + allocs.countP PoolAlloc.isFlow)
      (jobs + allocs.countP fun a ↦ !a.isFlow)) :
    (allocAll c (MemoryPool.filled c flows jobs) allocs).isSome = true := by
  induction allocs generalizing flows jobs with
  | nil => rfl
  | cons a allocs ih =>
      cases a with
      | flow flowType =>
          rw [List.countP_cons_of_pos (by rfl), List.countP_cons_of_neg fun h ↦ by cases h] at hroom
          rw [allocAll, allocOne_flow_filled, if_pos (hroom.mono (by omega) (by omega)),
            Option.bind_some]
          exact ih (hroom.mono (by omega) (by omega))
      | job =>
          rw [List.countP_cons_of_neg (by decide), List.countP_cons_of_pos (by rfl)] at hroom
          rw [allocAll, allocOne_job_filled, if_pos (hroom.mono (by omega) (by omega)),
            Option.bind_some]
          exact ih (hroom.mono (by omega) (by omega))

theorem room_of_allocJobs (n : ℕ) (hn : n ≠ 0)
    (h : (allocAll c (MemoryPool.filled c flows jobs) (List.replicate n .job)).isSome = true) :
    Room c flows (jobs + n) := by
  induction n generalizing jobs with
  | zero => exact absurd rfl hn
  | succ n ih =>
      rw [List.replicate_succ, allocAll, allocOne_job_filled] at h
      by_cases hroom : Room c flows (jobs + 1)
      · rw [if_pos hroom, Option.bind_some] at h
        cases n with
        | zero => exact hroom
        | succ n => exact (ih (Nat.succ_ne_zero n) h).mono (Nat.le_refl _) (by omega)
      · rw [if_neg hroom] at h
        cases h

/-- Flows first and then jobs: if they all fit, there was room. -/
theorem room_of_allocFlows (n m : ℕ) (hnm : n ≠ 0 ∨ m ≠ 0)
    (h : (allocAll c (MemoryPool.filled c flows jobs)
      (List.replicate n (.flow .stateful) ++ List.replicate m .job)).isSome = true) :
    Room c (flows + n) (jobs + m) := by
  induction n generalizing flows with
  | zero => exact room_of_allocJobs m (hnm.resolve_left fun h0 ↦ h0 rfl) h
  | succ n ih =>
      rw [List.replicate_succ, List.cons_append, allocAll, allocOne_flow_filled] at h
      by_cases hroom : Room c (flows + 1) jobs
      · rw [if_pos hroom, Option.bind_some] at h
        by_cases hrest : n ≠ 0 ∨ m ≠ 0
        · exact (ih hrest h).mono (by omega) (Nat.le_refl _)
        · obtain ⟨hn, hm⟩ := not_or.mp hrest
          rw [Classical.not_not.mp hn, Classical.not_not.mp hm]
          exact hroom
      · rw [if_neg hroom] at h
        cases h

end Filled

/-! ### Configurations with one pool -/

section Single

variable {c : NlmDeviceConfig} {size : ℕ}

theorem SinglePool.initError_eq_none_iff (h : SinglePool c size) :
    c.initError 0 = none ↔ nlmMinMemoryPoolSize ≤ size := by
  have haccepted := h.accepted
  have hsize := h.size_eq
  unfold initError at haccepted ⊢
  split_ifs at haccepted with hincomplete hthread hmisplaced
  have hshared := h.shared
  simp only [Incomplete, not_or] at hincomplete
  obtain ⟨hregs, hphys, hvirt, hsysmem, harea, hnone, -, hin, hin', hout, hout', hmax, hmax'⟩ :=
    hincomplete
  have hpool : c.memoryPool ≠ 0 := fun h0 ↦ hnone ⟨h0, hshared⟩
  have hiff : c.Incomplete ↔ c.memoryPoolSize < nlmMinMemoryPoolSize := by
    simp only [Incomplete, hregs, hphys, hvirt, hsysmem, harea, hin, hin', hout, hout', hmax, hmax',
      hpool, false_or, or_false, false_and, ne_eq, not_false_eq_true, true_and]
  by_cases hmin : c.memoryPoolSize < nlmMinMemoryPoolSize
  · rw [if_pos (hiff.mpr hmin)]
    exact ⟨fun hn ↦ (by cases hn), fun hn ↦ absurd (hsize ▸ hn) (Nat.not_le.mpr hmin)⟩
  · rw [if_neg fun hn ↦ hmin (hiff.mp hn), if_neg hthread]
    refine ⟨fun _ ↦ hsize ▸ Nat.not_lt.mp hmin, fun _ ↦ if_neg hmisplaced⟩

theorem SinglePool.slice (h : SinglePool c size) :
    c.sliceOf 0 = ⟨c.memoryPool, size / 8 * 8, 0⟩ ∧ c.memoryPool % 8 = 0 := by
  have hlt : nlmMinMemoryPoolSize < 2 ^ 32 := by decide
  have hbounds := SharesPool.bounds ⟨h.accepted, h.shared, hlt⟩
  refine ⟨?_, hbounds.1⟩
  rw [sliceOf, if_pos rfl, initSlice, sliceSize, slicesBase, h.direct, h.single, h.size_eq]
  simp [alignDown]

theorem SinglePool.room_iff (h : SinglePool c size) (flows jobs : ℕ) :
    Room (c.sliceOf 0) flows jobs ↔
      sizeofNlmDevice + sizeofNlmFlow * flows + sizeofNlmJob * (jobs + 1) < size / 8 * 8 := by
  obtain ⟨hslice, hmod⟩ := h.slice
  rw [hslice]
  simp only [Room, PoolConfig.flowBase, PoolConfig.jobBase, sizeofNlmDevice, sizeofNlmFlow,
    sizeofNlmJob]
  omega

theorem SinglePool.holdsAll_of_room (h : SinglePool c size) {flows jobs : ℕ}
    (hmin : nlmMinMemoryPoolSize ≤ size)
    (hfits : sizeofNlmDevice + sizeofNlmFlow * flows + sizeofNlmJob * (jobs + 1) <
      size / 8 * 8) : HoldsAll c flows jobs := by
  have hroom := (h.room_iff flows jobs).mpr hfits
  refine ⟨h.initError_eq_none_iff.mpr hmin, fun allocs hf hj ↦ ?_⟩
  have hzero : Room (c.sliceOf 0) (0 + allocs.countP PoolAlloc.isFlow)
      (0 + allocs.countP fun a ↦ !a.isFlow) := by
    apply hroom.mono
    · rwa [Nat.zero_add]
    · rwa [Nat.zero_add]
  exact allocAll_of_room allocs hzero

theorem SinglePool.holdsAll_iff (h : SinglePool c size) {flows jobs : ℕ}
    (hne : flows ≠ 0 ∨ jobs ≠ 0) :
    HoldsAll c flows jobs ↔ nlmMinMemoryPoolSize ≤ size ∧
      sizeofNlmDevice + sizeofNlmFlow * flows + sizeofNlmJob * (jobs + 1) < size / 8 * 8 := by
  constructor
  · rintro ⟨hinit, hall⟩
    refine ⟨h.initError_eq_none_iff.mp hinit, (h.room_iff flows jobs).mp ?_⟩
    have hlist := hall (List.replicate flows (.flow .stateful) ++ List.replicate jobs .job)
      (by simp [List.countP_replicate, PoolAlloc.isFlow])
      (by simp [List.countP_replicate, PoolAlloc.isFlow])
    have hroom : Room (c.sliceOf 0) (0 + flows) (0 + jobs) :=
      room_of_allocFlows flows jobs hne hlist
    rwa [Nat.zero_add, Nat.zero_add] at hroom
  · rintro ⟨hmin, hfits⟩
    exact h.holdsAll_of_room hmin hfits

theorem singlePool_plain (hsize : size < 2 ^ 32) :
    SinglePool { plain with memoryPoolSize := size } size where
  accepted := by
    change ({ plain with memoryPoolSize := nlmMinMemoryPoolSize } : NlmDeviceConfig).initError 0 =
      none
    decide
  shared := rfl
  single := rfl
  direct := rfl
  size_eq := rfl
  size_lt := hsize

end Single

/-- What the estimate is for: the pool of the returned size holds everything, and the
call fails when no pool of 32 bits would. -/
def EstimateSuffices (maxFlows maxJobs : BitVec 32) : Prop :=
  (∀ s, nlmDeviceEstimateMemoryPoolSize maxFlows maxJobs = (.ok, some s) →
    ∀ c, SinglePool c s.toNat → HoldsAll c maxFlows.toNat maxJobs.toNat) ∧
    ((∀ s c, SinglePool c s → ¬HoldsAll c maxFlows.toNat maxJobs.toNat) →
      (nlmDeviceEstimateMemoryPoolSize maxFlows maxJobs).1 = .outOfMemory)

theorem estimatedSize_eq (flows jobs : ℕ) :
    ∃ q, estimatedSize flows jobs = q * 256 ∧
      (160 + 95240 + 72 * flows + 88 * (jobs + 2) + 512 + 255) / 256 = q ∧
        256 * q ≤ 160 + 95240 + 72 * flows + 88 * (jobs + 2) + 512 + 255 ∧
          160 + 95240 + 72 * flows + 88 * (jobs + 2) + 512 ≤ 256 * q := by
  refine ⟨_, rfl, rfl, Nat.mul_div_le _ _, ?_⟩
  change _ ≤ 256 * ((160 + 95240 + 72 * flows + 88 * (jobs + 2) + 512 + 255) / 256)
  omega

/-- A pool of the size that was cut off is too small. -/
theorem not_estimateSuffices {maxFlows maxJobs : BitVec 32}
    (hbig : 2 ^ 32 ≤ estimatedSize maxFlows.toNat maxJobs.toNat) :
    ¬EstimateSuffices maxFlows maxJobs := by
  rintro ⟨hhold, -⟩
  obtain ⟨s, hs, jobs, hjobs, hsize⟩ := estimate_eq maxFlows maxJobs
  obtain ⟨q, hq, hdiv, hle, -⟩ := estimatedSize_eq maxFlows.toNat maxJobs.toNat
  have hlt := s.isLt
  have hf := maxFlows.isLt
  have hj := maxJobs.isLt
  rw [hq] at hbig
  have hne : maxFlows.toNat ≠ 0 ∨ maxJobs.toNat ≠ 0 := by omega
  have hall := hhold s hs _ (singlePool_plain hlt)
  obtain ⟨hmin, hroom⟩ := ((singlePool_plain hlt).holdsAll_iff hne).mp hall
  simp only [sizeofNlmDevice, sizeofNlmPhyDevice, sizeofNlmFlow, sizeofNlmJob,
    nlmMinMemoryPoolSize] at hroom hmin hsize
  by_cases hwrap : maxJobs.toNat + 2 < 2 ^ 32
  · rw [Nat.mod_eq_of_lt hwrap] at hjobs
    rw [hjobs, hdiv, Nat.max_def] at hsize
    have hcut : s.toNat ≤ 256 * q - 2 ^ 32 := by
      split at hsize <;> omega
    omega
  · omega

/-- A sum of 32 bits is returned whole, and a pool of that size is large enough. -/
theorem estimateSuffices_of_lt {maxFlows maxJobs : BitVec 32}
    (hsmall : estimatedSize maxFlows.toNat maxJobs.toNat < 2 ^ 32) :
    EstimateSuffices maxFlows maxJobs := by
  obtain ⟨s, hs, jobs, hjobs, hsize⟩ := estimate_eq maxFlows maxJobs
  obtain ⟨q, hq, hdiv, -, hge⟩ := estimatedSize_eq maxFlows.toNat maxJobs.toNat
  rw [hq] at hsmall
  have hwrap : jobs = maxJobs.toNat + 2 := by
    rw [hjobs]
    exact Nat.mod_eq_of_lt (by omega)
  simp only [sizeofNlmDevice, sizeofNlmPhyDevice, sizeofNlmFlow, sizeofNlmJob,
    nlmMinMemoryPoolSize] at hsize
  rw [hwrap, hdiv, Nat.max_def] at hsize
  have hkeep : s.toNat = q * 256 := by
    split at hsize <;> omega
  have hroom : ∀ c, SinglePool c s.toNat → HoldsAll c maxFlows.toNat maxJobs.toNat := by
    intro c hc
    apply hc.holdsAll_of_room
    · simp only [nlmMinMemoryPoolSize]
      omega
    · simp only [sizeofNlmDevice, sizeofNlmFlow, sizeofNlmJob]
      omega
  have hplain := singlePool_plain s.isLt
  refine ⟨fun s' hs' ↦ ?_, fun hnone ↦ absurd (hroom _ hplain) (hnone _ _ hplain)⟩
  rw [hs] at hs'
  cases hs'
  exact hroom

/-- The estimate does its work exactly where the uncut sum has 32 bits. -/
theorem estimateSuffices_iff (maxFlows maxJobs : BitVec 32) :
    EstimateSuffices maxFlows maxJobs ↔
      estimatedSize maxFlows.toNat maxJobs.toNat < 2 ^ 32 :=
  ⟨fun h ↦ Nat.not_le.mp fun hbig ↦ not_estimateSuffices hbig h, estimateSuffices_of_lt⟩

/-- Sixty million flows take more than four gigabytes, and the estimate is 25 MB. -/
theorem estimate_sixtyMillion_flows :
    nlmDeviceEstimateMemoryPoolSize 60000000 1 = (.ok, some 25128960) ∧
      ¬∀ maxFlows maxJobs : BitVec 32, EstimateSuffices maxFlows maxJobs := by
  refine ⟨by decide, fun h ↦ not_estimateSuffices ?_ (h 60000000 1)⟩
  decide

end NetL7.Device
