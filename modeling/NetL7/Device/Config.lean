import NetL7.Status

/-!
# Device configurations

What the application tells `nlm_device_init` and `nlm_device_attach`, and what
they check of it. Pointers are addresses, and `NULL` is 0.
-/

namespace NetL7.Device

/-- `struct nlm_device_config` -/
structure NlmDeviceConfig where
  registerMapBaseVirt : ℕ
  registerMapBasePhys : ℕ
  registerMapSize : ℕ
  sysmemBaseVirt : ℕ
  sysmemBasePhys : ℕ
  sysmemSize : ℕ
  inputFifoSize : ℕ
  outputFifoSize : ℕ
  sizeOfContextSaveRestoreArea : ℕ
  virtToPhys : ℕ
  packetBasePhys : ℕ
  packetBaseVirt : ℕ
  memoryPool : ℕ
  memoryPoolSize : ℕ
  baseAddrOfDdrMemory : ℕ
  sizeOfDdrMemory : ℕ
  ringId : ℕ
  xmalloc : ℕ
  xfree : ℕ
  maxThreads : ℕ
  threadId : ℕ
  usingManagerThread : Bool
  deriving DecidableEq

/-- `NLM_MASTER_RING` -/
abbrev nlmMasterRing : ℕ := 0

/-- `NLM_LAST_UNUSED_RING_ID` -/
abbrev nlmLastUnusedRingId : ℕ := 6

/-- `NLM_MAX_THREADS` -/
abbrev nlmMaxThreads : ℕ := 256

/-- `NLM_MANAGER_THREAD_ID` in a `uint32_t`. -/
abbrev nlmManagerThreadId : ℕ := 0xffffffff

abbrev nlmMinSysmemSize : ℕ := 32 * 1024

abbrev nlmMinContextSaveRestoreArea : ℕ := 8 * 1024

abbrev nlmMinMemoryPoolSize : ℕ := 32 * 1024

abbrev nlmMaxInputFifoSize : ℕ := 64 * 1024 * 1024

abbrev nlmMaxOutputFifoSize : ℕ := 64 * 1024 * 1024

/-- `(x + (a - 1)) & ~(a - 1)` for a power of two `a`. -/
def alignUp (a x : ℕ) : ℕ := (x + (a - 1)) / a * a

/-- `x & ~(a - 1)` for a power of two `a`. -/
def alignDown (a x : ℕ) : ℕ := x / a * a

namespace NlmDeviceConfig

variable (c : NlmDeviceConfig)

/-- The sizes and pointers that `nlm_device_init_1` rejects at once. -/
def Incomplete : Prop :=
  c.registerMapBaseVirt = 0 ∨ c.registerMapBasePhys = 0 ∨ c.sysmemBaseVirt = 0 ∨
    c.sysmemSize < nlmMinSysmemSize ∨
    c.sizeOfContextSaveRestoreArea < nlmMinContextSaveRestoreArea ∨
    (c.memoryPool = 0 ∧ c.xmalloc = 0) ∨
    (c.memoryPool ≠ 0 ∧ c.memoryPoolSize < nlmMinMemoryPoolSize) ∨
    c.inputFifoSize = 0 ∨ nlmMaxInputFifoSize < c.inputFifoSize ∨
    c.outputFifoSize = 0 ∨ nlmMaxOutputFifoSize < c.outputFifoSize ∨
    c.maxThreads = 0 ∨ nlmMaxThreads < c.maxThreads

/-- The other checks of `nlm_device_init_1` before it touches memory; `memoryPool`
is the pool that it uses. -/
def Misplaced (memoryPool : ℕ) : Prop :=
  c.sysmemBaseVirt % 8 ≠ 0 ∨ c.memoryPool = c.sysmemBaseVirt ∨
    c.registerMapBaseVirt = c.memoryPool ∨ c.registerMapBaseVirt = c.sysmemBaseVirt ∨
    c.registerMapBasePhys = c.sysmemBasePhys ∨
    c.inputFifoSize &&& (c.inputFifoSize - 1) ≠ 0 ∨
    c.outputFifoSize &&& (c.outputFifoSize - 1) ≠ 0 ∨
    memoryPool = 0 ∨ memoryPool % 8 ≠ 0

instance : Decidable c.Incomplete := inferInstanceAs (Decidable (_ ∨ _))

instance (memoryPool : ℕ) : Decidable (c.Misplaced memoryPool) :=
  inferInstanceAs (Decidable (_ ∨ _))

/-- The pool of thread 0: allocated by `xmalloc`, which returned `allocated`, or
the one of the configuration. -/
def initPool (allocated : ℕ) : ℕ := if c.xmalloc ≠ 0 then allocated else c.memoryPool

/-- What `nlm_device_init_1` answers before it touches memory, if not `NLM_OK`. -/
def initError (allocated : ℕ) : Option NlmStatus :=
  if c.Incomplete then some .invalidDeviceConfig
  else if c.threadId ≠ 0 then some .invalidThreadId
  else if c.Misplaced (c.initPool allocated) then some .invalidDeviceConfig
  else none

/-- The fields that have to be the same in every configuration of a ring. -/
def SameRing (master c : NlmDeviceConfig) : Prop :=
  master.registerMapBaseVirt = c.registerMapBaseVirt ∧
    master.registerMapBasePhys = c.registerMapBasePhys ∧
    master.registerMapSize = c.registerMapSize ∧
    master.sysmemBaseVirt = c.sysmemBaseVirt ∧ master.sysmemBasePhys = c.sysmemBasePhys ∧
    master.sysmemSize = c.sysmemSize ∧ master.inputFifoSize = c.inputFifoSize ∧
    master.outputFifoSize = c.outputFifoSize ∧ master.virtToPhys = c.virtToPhys ∧
    master.packetBasePhys = c.packetBasePhys ∧ master.packetBaseVirt = c.packetBaseVirt ∧
    master.baseAddrOfDdrMemory = c.baseAddrOfDdrMemory ∧
    master.sizeOfDdrMemory = c.sizeOfDdrMemory ∧ master.ringId = c.ringId ∧
    master.maxThreads = c.maxThreads ∧ master.usingManagerThread = c.usingManagerThread ∧
    master.xmalloc = c.xmalloc ∧ master.xfree = c.xfree ∧
    (master.memoryPool ≠ 0 → master.memoryPoolSize = c.memoryPoolSize) ∧
    (master.xmalloc = 0 → master.memoryPool = c.memoryPool)

instance (master c : NlmDeviceConfig) : Decidable (SameRing master c) :=
  inferInstanceAs (Decidable (_ ∧ _))

/-- `compare_configs` -/
def compareConfigs (master c : NlmDeviceConfig) : NlmStatus :=
  if ¬ SameRing master c then .invalidDeviceConfig
  else if c.usingManagerThread = true ∧ c.threadId = nlmManagerThreadId then .ok
  else if master.maxThreads ≤ c.threadId then .invalidThreadId
  else .ok

/-- A configuration that `nlm_device_init` accepts. -/
def plain : NlmDeviceConfig where
  registerMapBaseVirt := 0x10000
  registerMapBasePhys := 0x10000
  registerMapSize := 0x10000
  sysmemBaseVirt := 0x100000
  sysmemBasePhys := 0x100000
  sysmemSize := 0x800000
  inputFifoSize := 1024
  outputFifoSize := 1024
  sizeOfContextSaveRestoreArea := 0x10000
  virtToPhys := 1
  packetBasePhys := 0
  packetBaseVirt := 0
  memoryPool := 0x2000000
  memoryPoolSize := 0x10000
  baseAddrOfDdrMemory := 0
  sizeOfDdrMemory := 0
  ringId := 0
  xmalloc := 0
  xfree := 0
  maxThreads := 1
  threadId := 0
  usingManagerThread := false

theorem compareConfigs_eq_ok {master c : NlmDeviceConfig} (h : compareConfigs master c = .ok) :
    SameRing master c ∧ (c.threadId < master.maxThreads ∨
      c.usingManagerThread = true ∧ c.threadId = nlmManagerThreadId) := by
  unfold compareConfigs at h
  split_ifs at h with hsame hmanager hthread
  · exact ⟨hsame, .inr hmanager⟩
  · exact ⟨hsame, .inl (Nat.not_le.mp hthread)⟩

end NlmDeviceConfig

end NetL7.Device
