import NetL7.Device.Config
import NetL7.Packet.MemoryPool

/-!
# The slices of a shared memory pool

All dataplane threads of a ring share the pool of the configuration when there is
no `xmalloc`. Thread 0 computes its slice in `nlm_device_init_1`, the others do in
`nlm_device_attach`; the handle of the manager thread lies at the base of the pool.
-/

namespace NetL7.Device

open NetL7.Packet NlmDeviceConfig

namespace NlmDeviceConfig

variable (c : NlmDeviceConfig)

/-- Where the slices begin: behind the manager's handle, if there is one. -/
def slicesBase : ℕ :=
  if c.usingManagerThread then alignUp 8 (c.memoryPool + sizeofNlmDevice) else c.memoryPool

/-- `memory_pool_size` after the partition. -/
def sliceSize : ℕ :=
  let memoryPoolSize :=
    if c.usingManagerThread then
      (2 ^ 32 + c.memoryPoolSize - (c.slicesBase - c.memoryPool)) % 2 ^ 32
    else c.memoryPoolSize
  alignDown 8 (memoryPoolSize / c.maxThreads)

/-- The slice of thread 0 in `nlm_device_init_1`. -/
def initSlice : PoolConfig := ⟨c.slicesBase, c.sliceSize, 0⟩

/-- The slice of another thread in `nlm_device_attach`. -/
def attachSlice (threadId : ℕ) : PoolConfig :=
  ⟨c.slicesBase + c.sliceSize * threadId % 2 ^ 32, c.sliceSize, threadId⟩

def sliceOf (threadId : ℕ) : PoolConfig :=
  if threadId = 0 then c.initSlice else c.attachSlice threadId

/-- A shared pool that `nlm_device_init_1` accepts. -/
structure SharesPool (c : NlmDeviceConfig) : Prop where
  accepted : c.initError 0 = none
  shared : c.xmalloc = 0
  size_lt : c.memoryPoolSize < 2 ^ 32

/-- The memory from `a` to `a + n` lies below that from `b` to `b + k`, or above. -/
def Apart (a n b k : ℕ) : Prop := a + n ≤ b ∨ b + k ≤ a

/-- The memory from `a` to `a + n` lies in the pool. -/
def InPool (a n : ℕ) : Prop := c.memoryPool ≤ a ∧ a + n ≤ c.memoryPool + c.memoryPoolSize

/-- What the partition is for. -/
structure Partitioned (c : NlmDeviceConfig) : Prop where
  inside : ∀ i < c.maxThreads, c.InPool (c.sliceOf i).memoryPool (c.sliceOf i).memoryPoolSize
  disjoint : ∀ i < c.maxThreads, ∀ j < c.maxThreads, i ≠ j →
    Apart (c.sliceOf i).memoryPool (c.sliceOf i).memoryPoolSize
      (c.sliceOf j).memoryPool (c.sliceOf j).memoryPoolSize
  manager_inside : c.usingManagerThread = true → c.InPool c.memoryPool sizeofNlmDevice
  manager_disjoint : c.usingManagerThread = true → ∀ i < c.maxThreads,
    Apart c.memoryPool sizeofNlmDevice (c.sliceOf i).memoryPool (c.sliceOf i).memoryPoolSize
  device_fits : ∀ i < c.maxThreads, sizeofNlmDevice ≤ (c.sliceOf i).memoryPoolSize
  flow_le_job : ∀ i < c.maxThreads, (MemoryPool.attach (c.sliceOf i)).firstFreeFlow ≤
    MemoryPool.jobAddr (c.sliceOf i) (MemoryPool.attach (c.sliceOf i)).firstFreeJob

/-- What the manager's handle takes off the pool. -/
def managerReserve : ℕ := if c.usingManagerThread then sizeofNlmDevice else 0

variable {c : NlmDeviceConfig} {i j : ℕ}

theorem alignDown_le (a x : ℕ) : alignDown a x ≤ x := Nat.div_mul_le_self x a

theorem alignDown_mod (a x : ℕ) : alignDown a x % a = 0 := Nat.mul_mod_left _ _

theorem SharesPool.bounds (h : SharesPool c) : c.memoryPool % 8 = 0 ∧
    nlmMinMemoryPoolSize ≤ c.memoryPoolSize ∧ 0 < c.maxThreads ∧ c.maxThreads ≤ nlmMaxThreads := by
  have haccepted := h.accepted
  have hpool : c.initPool 0 = c.memoryPool := if_neg (not_not.mpr h.shared)
  unfold initError at haccepted
  rw [hpool] at haccepted
  split_ifs at haccepted with hincomplete hthread hmisplaced
  simp only [Incomplete, not_or] at hincomplete
  simp only [Misplaced, not_or] at hmisplaced
  obtain ⟨-, -, -, -, -, -, hsize, -, -, -, -, hpos, hmax⟩ := hincomplete
  obtain ⟨-, -, -, -, -, -, -, hnull, haligned⟩ := hmisplaced
  refine ⟨not_not.mp haligned, ?_, Nat.pos_of_ne_zero hpos, Nat.not_lt.mp hmax⟩
  exact Nat.not_lt.mp fun hlt ↦ hsize ⟨hnull, hlt⟩

theorem managerReserve_le (c : NlmDeviceConfig) : c.managerReserve ≤ sizeofNlmDevice := by
  unfold managerReserve
  split
  · exact le_rfl
  · exact Nat.zero_le _

theorem SharesPool.managerReserve_le_size (h : SharesPool c) :
    c.managerReserve ≤ c.memoryPoolSize := by
  obtain ⟨-, hmin, -⟩ := h.bounds
  exact c.managerReserve_le.trans ((by decide : sizeofNlmDevice ≤ nlmMinMemoryPoolSize).trans hmin)

theorem SharesPool.slicesBase_eq (h : SharesPool c) :
    c.slicesBase = c.memoryPool + c.managerReserve := by
  obtain ⟨haligned, -⟩ := h.bounds
  unfold slicesBase managerReserve
  split
  · simp only [alignUp, sizeofNlmDevice]
    omega
  · rfl

theorem SharesPool.sliceSize_eq (h : SharesPool c) :
    c.sliceSize = alignDown 8 ((c.memoryPoolSize - c.managerReserve) / c.maxThreads) := by
  obtain ⟨-, hmin, -⟩ := h.bounds
  have hlt := h.size_lt
  have hbase := h.slicesBase_eq
  have hsize : (if c.usingManagerThread then
      (2 ^ 32 + c.memoryPoolSize - (c.slicesBase - c.memoryPool)) % 2 ^ 32
      else c.memoryPoolSize) = c.memoryPoolSize - c.managerReserve := by
    rw [hbase]
    unfold managerReserve
    simp only [nlmMinMemoryPoolSize] at hmin
    split
    · simp only [sizeofNlmDevice]
      omega
    · rfl
  unfold sliceSize
  rw [hsize]

theorem SharesPool.slices_le (h : SharesPool c) :
    c.managerReserve + c.sliceSize * c.maxThreads ≤ c.memoryPoolSize := by
  have hreserve := h.managerReserve_le_size
  have hslices : c.sliceSize * c.maxThreads ≤ c.memoryPoolSize - c.managerReserve := by
    rw [h.sliceSize_eq]
    calc alignDown 8 ((c.memoryPoolSize - c.managerReserve) / c.maxThreads) * c.maxThreads
        ≤ (c.memoryPoolSize - c.managerReserve) / c.maxThreads * c.maxThreads :=
          Nat.mul_le_mul_right _ (alignDown_le _ _)
      _ ≤ c.memoryPoolSize - c.managerReserve := Nat.div_mul_le_self _ _
  omega

/-- Both computations of the partition agree, and nothing wraps. -/
theorem SharesPool.sliceOf_eq (h : SharesPool c) (hi : i < c.maxThreads) :
    c.sliceOf i = ⟨c.memoryPool + c.managerReserve + c.sliceSize * i, c.sliceSize, i⟩ := by
  have hle := h.slices_le
  have hlt := h.size_lt
  have hmul : c.sliceSize * i ≤ c.sliceSize * c.maxThreads := Nat.mul_le_mul_left _ hi.le
  unfold sliceOf
  split
  · next hzero => rw [hzero, initSlice, h.slicesBase_eq, Nat.mul_zero, Nat.add_zero]
  · rw [attachSlice, h.slicesBase_eq, Nat.mod_eq_of_lt]
    omega

theorem slice_end_le (hij : i < j) (size : ℕ) : size * i + size ≤ size * j := by
  rw [← Nat.mul_succ]
  exact Nat.mul_le_mul_left _ hij

theorem SharesPool.sliceSize_ge_iff (h : SharesPool c) :
    sizeofNlmDevice + sizeofNlmJob ≤ c.sliceSize ↔
      (sizeofNlmDevice + sizeofNlmJob) * c.maxThreads + c.managerReserve ≤ c.memoryPoolSize := by
  obtain ⟨-, -, hpos, -⟩ := h.bounds
  have hreserve := h.managerReserve_le_size
  have hdiv :
      sizeofNlmDevice + sizeofNlmJob ≤ (c.memoryPoolSize - c.managerReserve) / c.maxThreads ↔
      (sizeofNlmDevice + sizeofNlmJob) * c.maxThreads ≤ c.memoryPoolSize - c.managerReserve :=
    Nat.le_div_iff_mul_le hpos
  rw [← Nat.le_sub_iff_add_le hreserve, ← hdiv, h.sliceSize_eq]
  simp only [alignDown, sizeofNlmDevice, sizeofNlmJob]
  omega

/-- The partition of an accepted shared pool is right exactly if the pool has room
for the device handle of every thread and one job, behind the manager's handle. -/
theorem partitioned_iff (h : SharesPool c) : Partitioned c ↔
    (sizeofNlmDevice + sizeofNlmJob) * c.maxThreads + c.managerReserve ≤ c.memoryPoolSize := by
  obtain ⟨haligned, hmin, hpos, -⟩ := h.bounds
  have hle := h.slices_le
  have hmod : c.sliceSize % 8 = 0 := by
    rw [h.sliceSize_eq]
    exact alignDown_mod _ _
  have hflow : ∀ i < c.maxThreads, ((MemoryPool.attach (c.sliceOf i)).firstFreeFlow ≤
      MemoryPool.jobAddr (c.sliceOf i) (MemoryPool.attach (c.sliceOf i)).firstFreeJob ↔
      sizeofNlmDevice + sizeofNlmJob ≤ c.sliceSize) := by
    intro i hi
    have hreserve : c.managerReserve % 8 = 0 := by
      unfold managerReserve
      split <;> rfl
    have hslice : c.sliceSize * i % 8 = 0 := by
      rw [Nat.mul_mod, hmod, Nat.zero_mul, Nat.zero_mod]
    rw [h.sliceOf_eq hi]
    simp only [MemoryPool.attach, MemoryPool.jobAddr, PoolConfig.flowBase, PoolConfig.jobBase,
      sizeofNlmDevice, sizeofNlmJob]
    omega
  rw [← h.sliceSize_ge_iff]
  constructor
  · intro hpartitioned
    exact (hflow 0 hpos).mp (hpartitioned.flow_le_job 0 hpos)
  · intro hfits
    refine ⟨fun i hi ↦ ?_, fun i hi j hj hne ↦ ?_, fun hmanager ↦ ?_, fun hmanager i hi ↦ ?_,
      fun i hi ↦ ?_, fun i hi ↦ (hflow i hi).mpr hfits⟩
    · rw [h.sliceOf_eq hi]
      have hend := slice_end_le hi c.sliceSize
      constructor
      · exact Nat.le_add_right_of_le (Nat.le_add_right _ _)
      · change c.memoryPool + c.managerReserve + c.sliceSize * i + c.sliceSize ≤ _
        omega
    · rw [h.sliceOf_eq hi, h.sliceOf_eq hj]
      cases hne.lt_or_gt with
      | inl hlt =>
        have hend := slice_end_le hlt c.sliceSize
        left
        change c.memoryPool + c.managerReserve + c.sliceSize * i + c.sliceSize ≤
          c.memoryPool + c.managerReserve + c.sliceSize * j
        omega
      | inr hgt =>
        have hend := slice_end_le hgt c.sliceSize
        right
        change c.memoryPool + c.managerReserve + c.sliceSize * j + c.sliceSize ≤
          c.memoryPool + c.managerReserve + c.sliceSize * i
        omega
    · constructor
      · exact le_rfl
      · simp only [nlmMinMemoryPoolSize, sizeofNlmDevice] at hmin ⊢
        omega
    · left
      rw [h.sliceOf_eq hi]
      have hreserve : c.managerReserve = sizeofNlmDevice := if_pos hmanager
      rw [hreserve]
      exact Nat.le_add_right _ _
    · rw [h.sliceOf_eq hi]
      exact (Nat.le_add_right _ _).trans hfits

/-- A pool of the given size that several threads share with a manager. -/
def sharedPool (memoryPoolSize maxThreads : ℕ) : NlmDeviceConfig :=
  { plain with
    sysmemSize := 0x1000000
    memoryPoolSize := memoryPoolSize
    maxThreads := maxThreads
    usingManagerThread := true }

theorem partitioned_iff_sample : Partitioned (sharedPool 0x10000 8) := by
  apply (partitioned_iff ⟨by decide, rfl, by decide⟩).mpr
  decide

/-- The smallest pool that is accepted cannot hold the handles of 256 threads. -/
theorem smallestPool_not_partitioned :
    SharesPool (sharedPool 0x8000 256) ∧ ¬ Partitioned (sharedPool 0x8000 256) := by
  refine ⟨⟨by decide, rfl, by decide⟩, fun h ↦ ?_⟩
  exact absurd (h.device_fits 0 (by decide)) (by decide)

end NlmDeviceConfig

end NetL7.Device
