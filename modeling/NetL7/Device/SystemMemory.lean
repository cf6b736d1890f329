import NetL7.Lib.Carving
import NetL7.Device.Ddr
import Mathlib.Algebra.Order.Ring.Int

/-!
# The layout of the system memory

`physical_device_init` carves all that the device and the threads share from the
system memory, from the bottom up, and gives the rest to the threads as chunks for
PDs and PDFs. Addresses are natural numbers, since no area wraps around.
-/

namespace NetL7.Device

open NetL7.Lib

/-- What the build, the registers and the hardware contribute to the layout. -/
structure Board where
  /-- `sizeof (nlm_phy_device_t)` -/
  sizeofPhyDevice : ℕ
  /-- The bytes of it that are written before the first check. -/
  headSize : ℕ
  /-- The answer of `reset_device`, or of the check that the master ring is up. -/
  ringStatus : NlmStatus
  hwType : ℕ
  numFmsBlocks : ℕ
  /-- `NLM_HW_FMS` is defined. -/
  nlmHwFms : Bool
  /-- The answer of `check_mem_overlap`, or of `init_hw_memory` and
  `check_device_sanity`. -/
  sanity : NlmStatus

/-- What is known of `nlm_phy_device_t`. -/
structure Board.Valid (b : Board) : Prop where
  head_le : b.headSize ≤ b.sizeofPhyDevice
  head_le_min : b.headSize ≤ nlmMinSysmemSize

/-- `NLM_DDR_DMA_AREA_SIZE` -/
abbrev nlmDdrDmaAreaSize : ℕ := 32 * 1024

/-- `sizeof (struct fms_block_hw)` -/
abbrev sizeofFmsBlockHw : ℕ := 229408

/-- `sizeof (struct hw_fd_descriptor)` -/
abbrev sizeofFd : ℕ := 32

/-- `sizeof (struct hw_result_descriptor)` -/
abbrev sizeofResult : ℕ := 16

/-- `sizeof (nlm_job_fifo_t)` and `sizeof (nlm_result_fifo_t)` -/
abbrev sizeofFifo : ℕ := 24

/-- `sizeof (struct hw_pd_descriptor)` -/
abbrev sizeofPd : ℕ := 16

/-- The system memory while it is laid out: `free_ptr`, the areas carved so far, and
the areas that were written. -/
structure Heap where
  freePtr : ℕ
  ddrDmaArea : ℕ
  regions : List Region
  writes : List Region

namespace Heap

variable (heap : Heap) (a base size : ℕ)

def align : Heap := { heap with freePtr := alignUp a heap.freePtr }

/-- The next area of `size` bytes, which has to be aligned to `a` bytes. -/
def carve : Heap :=
  { heap with
    freePtr := heap.freePtr + size
    regions := heap.regions ++ [⟨a, heap.freePtr, size⟩] }

def skip : Heap := { heap with freePtr := heap.freePtr + size }

def write : Heap := { heap with writes := heap.writes ++ [⟨1, base, size⟩] }

/-- `if (free_ptr >= top_of_heap) return NLM_OUT_OF_DEVICE_MEMORY` -/
def check (top : ℕ) : Heap × NlmStatus :=
  (heap, if top ≤ heap.freePtr then .outOfDeviceMemory else .ok)

end Heap

/-- `if (status != NLM_OK) return status` -/
def andThen (r : Heap × NlmStatus) (stage : Heap → Heap × NlmStatus) : Heap × NlmStatus :=
  if r.2 = .ok then stage r.1 else r

namespace NlmDeviceConfig

variable (c : NlmDeviceConfig) (b : Board) (heap : Heap)

/-- The first address behind the system memory. -/
def sysmemEnd : ℕ := c.sysmemBaseVirt + c.sysmemSize

def topOfHeap : ℕ := alignDown 64 c.sysmemEnd

/-- `use_ddr_memory` -/
def UseDdrMemory : Prop := b.nlmHwFms = true ∧ c.sizeOfDdrMemory ≠ 0

instance : Decidable (c.UseDdrMemory b) := inferInstanceAs (Decidable (_ ∧ _))

/-- The memory is cleared, and `nlm_phy_device_t` lies at its base. -/
def initPhyDevice : Heap :=
  let heap : Heap := ⟨c.sysmemBaseVirt, 0, [], []⟩
  (((heap.write c.sysmemBaseVirt c.sysmemSize).write c.sysmemBaseVirt b.headSize).carve 8
    b.sizeofPhyDevice).align 8

/-- `init_pointer_mirror_area`: two pointers of 32 bits, and room for a timestamp. -/
def initPointerMirrorArea : Heap := (heap.write heap.freePtr 8).carve 8 16

/-- `init_ddr_memory` -/
def initDdrMemory : Heap :=
  if c.UseDdrMemory b then
    { (heap.align 16).carve 16 nlmDdrDmaAreaSize with ddrDmaArea := (heap.align 16).freePtr }
  else heap

/-- `init_database_extension_area` for the rings that have one. -/
def initDatabaseExtensionArea : Heap :=
  if b.hwType ≠ 5 ∧ c.ringId = nlmMasterRing then
    (heap.align 128).carve 128 (b.numFmsBlocks * sizeofFmsBlockHw)
  else heap

/-- `buf_cnt` of `init_context_save_restore_area_sysmem` -/
def sysmemBufCnt : ℕ := c.contextSize / 260

/-- `init_context_save_restore_area_sysmem` -/
def initContextSaveRestoreAreaSysmem : Heap × NlmStatus :=
  let heap := heap.align 256
  if c.sysmemEnd - sizeofPdf * nlmMinFlowCnt < heap.freePtr + c.contextSize then
    (heap, .outOfDeviceMemory)
  else if c.sysmemBufCnt < nlmMinFlowCnt then (heap, .invalidArgument)
  else
    let written := (heap.write heap.freePtr c.contextSize).write
      (heap.freePtr + c.sysmemBufCnt * 256) (c.sysmemBufCnt * 4)
    (((written.carve 256 (c.sysmemBufCnt * 256)).carve 4 (c.sysmemBufCnt * 4)).skip
      (c.contextSize - c.sysmemBufCnt * 260), .ok)

/-- The part of `init_context_save_restore_area_ddr` that uses system memory: the
ring goes to the DDR through the DMA area. -/
def initContextSaveRestoreAreaDdrRing : Heap × NlmStatus :=
  if c.OutOfDdr then (heap, .outOfDdrMemory)
  else (heap.write heap.ddrDmaArea (min nlmDdrDmaAreaSize (c.ddrBufCnt * 4)), .ok)

/-- The context save/restore area, in DDR or in system memory. -/
def initContextSaveRestoreArea : Heap × NlmStatus :=
  if b.hwType = 5 then (heap, .ok)
  else if c.UseDdrMemory b then c.initContextSaveRestoreAreaDdrRing heap
  else c.initContextSaveRestoreAreaSysmem heap

/-- `init_input_fifo` -/
def initInputFifo : Heap := (heap.align 32).carve 32 (c.inputFifoSize * sizeofFd)

/-- `init_output_fifo` -/
def initOutputFifo : Heap := (heap.align 16).carve 16 (c.outputFifoSize * sizeofResult)

/-- `physical_device_init` up to the output FIFO. -/
def initHardwareAreas : Heap × NlmStatus :=
  let r := (c.initPhyDevice b).check c.topOfHeap
  let r := andThen r fun heap ↦ (heap.write c.sysmemBaseVirt b.sizeofPhyDevice, b.ringStatus)
  let r := andThen r fun heap ↦ (initPointerMirrorArea heap).check c.topOfHeap
  let r := andThen r fun heap ↦ (c.initDdrMemory b heap).check c.topOfHeap
  let r := andThen r fun heap ↦
    c.initContextSaveRestoreArea b (c.initDatabaseExtensionArea b heap)
  let r := andThen r fun heap ↦ (c.initInputFifo heap).check c.topOfHeap
  andThen r fun heap ↦ (c.initOutputFifo heap).check c.topOfHeap

/-- The loops of `init_manager_thread_fifo`: `job_fifo_init` and `result_fifo_init`
write the header of a FIFO, whose buffer is carved next. -/
def fifoLoop (header size : ℕ) : ℕ → ℕ → Heap → Heap × NlmStatus
  | 0, _, heap => (heap, .ok)
  | n + 1, i, heap =>
    andThen (((heap.write (header + sizeofFifo * i) sizeofFifo).carve 8 size).check c.topOfHeap)
      (fifoLoop header size n (i + 1))

/-- The headers of the FIFOs of all threads and then their buffers. -/
def softwareFifos (size : ℕ) (heap : Heap) : Heap × NlmStatus :=
  c.fifoLoop heap.freePtr size c.maxThreads 0
    ((heap.carve 8 (sizeofFifo * c.maxThreads)).align 8)

/-- `init_manager_thread_fifo` -/
def initManagerThreadFifo : Heap × NlmStatus :=
  if c.usingManagerThread then
    let r := c.softwareFifos (sizeofFd * c.inputFifoSize) heap
    let r := andThen r fun heap ↦ (heap.align 8).check c.topOfHeap
    andThen r (c.softwareFifos (sizeofResult * c.outputFifoSize))
  else (heap, .ok)

/-- `top_of_heap` for the chunks: an index of 24 bits names the PDFs in system memory.
The difference of the pointers is shifted, so it rounds down. -/
def topOfChunks (pdBase : ℕ) : ℕ :=
  if ¬ c.UseDdrMemory b ∧ ((c.topOfHeap : ℤ) - pdBase) / sizeofPdf / 2 ^ 24 ≠ 0 then
    pdBase + (2 ^ 24 - 1) * sizeofPdf
  else c.topOfHeap

/-- `chunksize`: a division of signed numbers, kept in 32 bits. -/
def chunksize (pdBase : ℕ) : ℕ :=
  (Int.tdiv ((c.topOfChunks b pdBase : ℤ) - pdBase) c.maxThreads % 2 ^ 32).toNat

/-- The chunks of the threads. Only the first one is aligned, `device_attach` rounds
the others up. -/
def chunks (pdBase size n : ℕ) : List Region :=
  (List.range n).map fun i ↦ ⟨if i = 0 then 128 else 1, pdBase + size * i, size⟩

/-- The rest of `physical_device_init`: the chunks for PDs and PDFs. -/
def initPd : Heap × NlmStatus :=
  let heap := heap.align 128
  if c.chunksize b heap.freePtr < 32 * sizeofPd then (heap, .outOfDeviceMemory)
  else
    let chunks := chunks heap.freePtr (c.chunksize b heap.freePtr) c.maxThreads
    ({ heap with regions := heap.regions ++ chunks }, b.sanity)

/-- `physical_device_init`, as far as it uses the system memory. -/
def physicalDeviceInit : Heap × NlmStatus :=
  andThen (andThen (c.initHardwareAreas b) c.initManagerThreadFifo) (c.initPd b)

/-- What `physical_device_init` promises. -/
structure SystemMemoryOk (r : Heap × NlmStatus) : Prop where
  carved : r.2 = .ok → Carved c.sysmemBaseVirt c.sysmemEnd r.1.regions
  written : ∀ w ∈ r.1.writes, w.Inside c.sysmemBaseVirt c.sysmemEnd

/-- The area of the pointer mirrors. -/
def mirrorBase : ℕ := alignUp 8 (c.sysmemBaseVirt + b.sizeofPhyDevice)

/-- The address behind the DMA area, or behind the mirrors where there is none. -/
def ddrEnd : ℕ :=
  if c.UseDdrMemory b then alignUp 16 (c.mirrorBase b + 16) + nlmDdrDmaAreaSize
  else c.mirrorBase b + 16

/-- The address behind the database extension area. -/
def databaseEnd : ℕ :=
  if b.hwType ≠ 5 ∧ c.ringId = nlmMasterRing then
    alignUp 128 (c.ddrEnd b) + b.numFmsBlocks * sizeofFmsBlockHw
  else c.ddrEnd b

/-- The address behind the context save/restore area. -/
def contextEnd : ℕ :=
  if b.hwType ≠ 5 ∧ ¬ c.UseDdrMemory b then alignUp 256 (c.databaseEnd b) + c.contextSize
  else c.databaseEnd b

def inputFifoEnd : ℕ := alignUp 32 (c.contextEnd b) + c.inputFifoSize * sizeofFd

/-- The address behind the output FIFO. -/
def fifoEnd : ℕ := alignUp 16 (c.inputFifoEnd b) + c.outputFifoSize * sizeofResult

/-- The address behind the FIFOs of all threads, with their headers at `header`. -/
def softwareFifosEnd (size header : ℕ) : ℕ :=
  alignUp 8 (header + sizeofFifo * c.maxThreads) + c.maxThreads * size

/-- The headers of the result FIFOs. -/
def resultBase : ℕ := alignUp 8 (c.softwareFifosEnd (sizeofFd * c.inputFifoSize) (c.fifoEnd b))

/-- The address behind the software FIFOs, if the manager thread is used. -/
def softwareEnd : ℕ :=
  if c.usingManagerThread then
    c.softwareFifosEnd (sizeofResult * c.outputFifoSize) (c.resultBase b)
  else c.fifoEnd b

/-- The context save/restore area fits in its memory. -/
def ContextFits : Prop :=
  b.hwType = 5 ∨ if c.UseDdrMemory b then ¬ c.OutOfDdr
    else c.contextEnd b + sizeofPdf * nlmMinFlowCnt ≤ c.sysmemEnd

/-- The areas up to the output FIFO fit. -/
def HardwareAreasFit : Prop :=
  b.ringStatus = .ok ∧ c.ContextFits b ∧ c.fifoEnd b < c.topOfHeap

/-- The header of the first software FIFO of a kind goes beyond the memory. -/
def HeaderMisses : Prop :=
  c.usingManagerThread = true ∧ (c.sysmemEnd < c.fifoEnd b + sizeofFifo ∨
    c.resultBase b < c.topOfHeap ∧ c.sysmemEnd < c.resultBase b + sizeofFifo)

/-- The chunks begin beyond the last multiple of 64 in the memory. -/
def ChunksMiss : Prop :=
  c.softwareEnd b < c.topOfHeap ∧ c.topOfHeap < alignUp 128 (c.softwareEnd b) ∧
    (c.UseDdrMemory b → c.maxThreads ≤ 64) ∧ b.sanity = .ok

end NlmDeviceConfig

theorem le_alignUp {a : ℕ} (ha : 0 < a) (x : ℕ) : x ≤ alignUp a x := by
  have hlt := Nat.lt_div_mul_add ha (a := x + (a - 1))
  simp only [alignUp]
  omega

theorem alignUp_mod (a x : ℕ) : alignUp a x % a = 0 := Nat.mul_mod_left _ _

open NlmDeviceConfig

variable {c : NlmDeviceConfig} {b : Board} {heap : Heap} {r : Heap × NlmStatus}

theorem Heap.check_eq_ok {top : ℕ} (h : (heap.check top).2 = .ok) : heap.freePtr < top := by
  unfold Heap.check at h
  split_ifs at h with hle
  exact Nat.lt_of_not_le hle

/-- The areas are carved below `free_ptr`, and what was written lies in the memory. -/
structure HeapOk (c : NlmDeviceConfig) (heap : Heap) : Prop where
  base_le : c.sysmemBaseVirt ≤ heap.freePtr
  carved : Carved c.sysmemBaseVirt heap.freePtr heap.regions
  written : ∀ w ∈ heap.writes, w.Inside c.sysmemBaseVirt c.sysmemEnd

namespace HeapOk

variable {a base size : ℕ}

theorem align (h : HeapOk c heap) (ha : 0 < a) : HeapOk c (heap.align a) where
  base_le := h.base_le.trans (le_alignUp ha _)
  carved := h.carved.mono (le_alignUp ha _)
  written := h.written

theorem carve (h : HeapOk c heap) (haligned : heap.freePtr % a = 0) (size : ℕ) :
    HeapOk c (heap.carve a size) where
  base_le := h.base_le.trans (Nat.le_add_right _ _)
  carved := h.carved.snoc h.base_le haligned size
  written := h.written

theorem skip (h : HeapOk c heap) (size : ℕ) : HeapOk c (heap.skip size) where
  base_le := h.base_le.trans (Nat.le_add_right _ _)
  carved := h.carved.mono (Nat.le_add_right _ _)
  written := h.written

theorem write (h : HeapOk c heap) (hlo : c.sysmemBaseVirt ≤ base)
    (hhi : base + size ≤ c.sysmemEnd) : HeapOk c (heap.write base size) where
  base_le := h.base_le
  carved := h.carved
  written w hw := by
    rcases List.mem_append.mp hw with hw | hw
    · exact h.written w hw
    · cases List.mem_singleton.mp hw
      exact ⟨hlo, hhi⟩

theorem alignCarve (h : HeapOk c heap) (ha : 0 < a) (size : ℕ) :
    HeapOk c ((heap.align a).carve a size) :=
  (h.align ha).carve (alignUp_mod a _) size

end HeapOk

/-- A stage of `physical_device_init` that succeeds exactly if `P` holds, and leaves
a memory with the property `Q` then. -/
structure Yields (c : NlmDeviceConfig) (P : Prop) (Q : Heap → Prop) (r : Heap × NlmStatus) :
    Prop where
  written : ∀ w ∈ r.1.writes, w.Inside c.sysmemBaseVirt c.sysmemEnd
  ok_iff : r.2 = .ok ↔ P
  heap : P → HeapOk c r.1 ∧ Q r.1

namespace Yields

variable {P P' : Prop} {Q Q' : Heap → Prop} {stage : Heap → Heap × NlmStatus}

theorem ok (h : HeapOk c heap) (hq : Q heap) : Yields c True Q (heap, .ok) where
  written := h.written
  ok_iff := ⟨fun _ ↦ trivial, fun _ ↦ rfl⟩
  heap _ := ⟨h, hq⟩

theorem check (h : HeapOk c heap) {e : ℕ} (he : heap.freePtr = e) (hq : Q heap) :
    Yields c (e < c.topOfHeap) Q (heap.check c.topOfHeap) where
  written := h.written
  ok_iff := by
    rw [← he, Heap.check]
    simp
  heap _ := ⟨h, hq⟩

theorem of_iff (h : Yields c P Q r) (hiff : P ↔ P') : Yields c P' Q r where
  written := h.written
  ok_iff := h.ok_iff.trans hiff
  heap hp := h.heap (hiff.mpr hp)

theorem fails (h : HeapOk c heap) {status : NlmStatus} (hstatus : status ≠ .ok) (hp : ¬ P) :
    Yields c P Q (heap, status) where
  written := h.written
  ok_iff := ⟨fun hok ↦ absurd hok hstatus, fun hok ↦ absurd hok hp⟩
  heap hok := absurd hok hp

theorem andThen (h : Yields c P Q r)
    (hstage : ∀ heap, HeapOk c heap → Q heap → P → Yields c P' Q' (stage heap)) :
    Yields c (P ∧ P') Q' (andThen r stage) := by
  by_cases hP : P
  · obtain ⟨hok, hq⟩ := h.heap hP
    have hnext := hstage r.1 hok hq hP
    rw [Device.andThen, if_pos (h.ok_iff.mpr hP)]
    apply hnext.of_iff
    exact ⟨fun hP' ↦ ⟨hP, hP'⟩, And.right⟩
  · have hfail : r.2 ≠ .ok := fun hok ↦ hP (h.ok_iff.mp hok)
    rw [Device.andThen, if_neg hfail]
    exact ⟨h.written, ⟨fun hok ↦ absurd hok hfail, fun hp ↦ absurd hp.1 hP⟩,
      fun hp ↦ absurd hp.1 hP⟩

end Yields

/-- What `nlm_device_init_1` checked, and the sizes of the types. -/
structure Accepted (c : NlmDeviceConfig) : Prop where
  base_mod : c.sysmemBaseVirt % 8 = 0
  size_ge : nlmMinSysmemSize ≤ c.sysmemSize
  size_lt : c.sysmemSize < 2 ^ 32
  context_ge : nlmMinContextSaveRestoreArea ≤ c.contextSize
  threads_pos : 0 < c.maxThreads
  threads_le : c.maxThreads ≤ nlmMaxThreads

theorem accepted_of_initError {allocated : ℕ} (h : c.initError allocated = none)
    (hsize : c.sysmemSize < 2 ^ 32) : Accepted c := by
  unfold initError at h
  split_ifs at h with hincomplete hthread hmisplaced
  simp only [Incomplete, Misplaced, not_or, ne_eq, not_not, nlmMinContextSaveRestoreArea,
    nlmMaxThreads, nlmMinSysmemSize] at hincomplete hmisplaced
  constructor
  · exact hmisplaced.1
  · simp only [nlmMinSysmemSize]
    omega
  · exact hsize
  · simp only [contextSize, alignDown, nlmMinContextSaveRestoreArea]
    omega
  · omega
  · simp only [nlmMaxThreads]
    omega

theorem topOfHeap_spec (c : NlmDeviceConfig) :
    c.topOfHeap % 64 = 0 ∧ c.topOfHeap ≤ c.sysmemEnd ∧ c.sysmemEnd < c.topOfHeap + 64 := by
  simp only [topOfHeap, alignDown]
  omega

theorem initPhyDevice_ok (hc : Accepted c) (hb : b.Valid) : HeapOk c (c.initPhyDevice b) := by
  have hsize := hc.size_ge
  have hhead := hb.head_le_min
  have hstart : HeapOk c ⟨c.sysmemBaseVirt, 0, [], []⟩ :=
    ⟨le_rfl, Carved.nil _ _, fun w hw ↦ absurd hw List.not_mem_nil⟩
  have hfit : c.sysmemBaseVirt + b.headSize ≤ c.sysmemEnd :=
    Nat.add_le_add_left (hhead.trans hsize) _
  exact (((hstart.write le_rfl le_rfl).write le_rfl hfit).carve hc.base_mod _).align (by decide)

theorem writePhyDevice_yields (h : HeapOk c heap) (hfree : heap.freePtr = c.mirrorBase b)
    (hlt : c.mirrorBase b < c.topOfHeap) :
    Yields c (b.ringStatus = .ok) (fun heap ↦ heap.freePtr = c.mirrorBase b)
      (heap.write c.sysmemBaseVirt b.sizeofPhyDevice, b.ringStatus) := by
  obtain ⟨-, htop, -⟩ := topOfHeap_spec c
  have hle : c.sysmemBaseVirt + b.sizeofPhyDevice ≤ c.mirrorBase b := le_alignUp (by decide) _
  have hok := h.write le_rfl ((hle.trans hlt.le).trans htop)
  exact ⟨hok.written, Iff.rfl, fun _ ↦ ⟨hok, hfree⟩⟩

theorem initPointerMirrorArea_yields (h : HeapOk c heap)
    (hfree : heap.freePtr = c.mirrorBase b) (hlt : c.mirrorBase b < c.topOfHeap) :
    Yields c (c.mirrorBase b + 16 < c.topOfHeap)
      (fun heap ↦ heap.freePtr = c.mirrorBase b + 16)
      ((initPointerMirrorArea heap).check c.topOfHeap) := by
  obtain ⟨hmod, htop, -⟩ := topOfHeap_spec c
  have haligned : heap.freePtr % 8 = 0 := hfree ▸ alignUp_mod 8 _
  have hwrite : heap.freePtr + 8 ≤ c.sysmemEnd := by omega
  apply Yields.check
  · exact (h.write h.base_le hwrite).carve haligned 16
  · exact congrArg (· + 16) hfree
  · exact congrArg (· + 16) hfree

theorem initDdrMemory_yields (h : HeapOk c heap) (hfree : heap.freePtr = c.mirrorBase b + 16) :
    Yields c (c.ddrEnd b < c.topOfHeap)
      (fun heap ↦ heap.freePtr = c.ddrEnd b ∧ (c.UseDdrMemory b →
        c.sysmemBaseVirt ≤ heap.ddrDmaArea ∧
          heap.ddrDmaArea + nlmDdrDmaAreaSize = c.ddrEnd b))
      ((c.initDdrMemory b heap).check c.topOfHeap) := by
  unfold initDdrMemory ddrEnd
  split_ifs with hddr
  · have hok := h.alignCarve (a := 16) (by decide) nlmDdrDmaAreaSize
    have hbase : alignUp 16 heap.freePtr = alignUp 16 (c.mirrorBase b + 16) := by rw [hfree]
    apply Yields.check
    · exact ⟨hok.base_le, hok.carved, hok.written⟩
    · exact congrArg (· + nlmDdrDmaAreaSize) hbase
    · refine ⟨congrArg (· + nlmDdrDmaAreaSize) hbase, fun _ ↦ ⟨?_, ?_⟩⟩
      · exact h.base_le.trans (le_alignUp (by decide) _)
      · exact congrArg (· + nlmDdrDmaAreaSize) hbase
  · exact Yields.check h hfree ⟨hfree, fun hyes ↦ absurd hyes hddr⟩

theorem databaseArea_ok (h : HeapOk c heap) (hfree : heap.freePtr = c.ddrEnd b) (size : ℕ) :
    HeapOk c ((heap.align 128).carve 128 size) ∧
      ((heap.align 128).carve 128 size).freePtr = alignUp 128 (c.ddrEnd b) + size ∧
      ((heap.align 128).carve 128 size).ddrDmaArea = heap.ddrDmaArea :=
  ⟨h.alignCarve (by decide) size,
    congrArg (fun address ↦ alignUp 128 address + size) hfree, rfl⟩

theorem initDatabaseExtensionArea_ok (h : HeapOk c heap) (hfree : heap.freePtr = c.ddrEnd b) :
    HeapOk c (c.initDatabaseExtensionArea b heap) ∧
      (c.initDatabaseExtensionArea b heap).freePtr = c.databaseEnd b ∧
      (c.initDatabaseExtensionArea b heap).ddrDmaArea = heap.ddrDmaArea := by
  by_cases harea : b.hwType ≠ 5 ∧ c.ringId = nlmMasterRing
  · have hend : c.databaseEnd b =
        alignUp 128 (c.ddrEnd b) + b.numFmsBlocks * sizeofFmsBlockHw := if_pos harea
    have hheap : c.initDatabaseExtensionArea b heap =
        (heap.align 128).carve 128 (b.numFmsBlocks * sizeofFmsBlockHw) := if_pos harea
    rw [hend, hheap]
    exact databaseArea_ok h hfree _
  · have hend : c.databaseEnd b = c.ddrEnd b := if_neg harea
    have hheap : c.initDatabaseExtensionArea b heap = heap := if_neg harea
    rw [hend, hheap]
    exact ⟨h, hfree, rfl⟩

theorem initContextSysmem_yields (hc : Accepted c) (h : HeapOk c heap) :
    Yields c
      (alignUp 256 heap.freePtr + c.contextSize + sizeofPdf * nlmMinFlowCnt ≤ c.sysmemEnd)
      (fun heap' ↦ heap'.freePtr = alignUp 256 heap.freePtr + c.contextSize)
      (c.initContextSaveRestoreAreaSysmem heap) := by
  have hcontext := hc.context_ge
  have hsize := hc.size_ge
  have hmin : sizeofPdf * nlmMinFlowCnt ≤ c.sysmemEnd := by
    simp only [sysmemEnd, nlmMinSysmemSize, sizeofPdf, nlmMinFlowCnt] at hsize ⊢
    omega
  have hmany : ¬ c.sysmemBufCnt < nlmMinFlowCnt := by
    simp only [sysmemBufCnt, nlmMinContextSaveRestoreArea, nlmMinFlowCnt] at hcontext ⊢
    omega
  have hbufs : c.sysmemBufCnt * 260 ≤ c.contextSize := Nat.div_mul_le_self _ _
  have halign := h.align (a := 256) (by decide)
  have hlo := halign.base_le
  have hfree : (heap.align 256).freePtr = alignUp 256 heap.freePtr := rfl
  have hmod : (heap.align 256).freePtr % 256 = 0 := alignUp_mod 256 _
  unfold initContextSaveRestoreAreaSysmem
  simp only [if_neg hmany]
  rw [← hfree]
  split_ifs with hlarge
  · exact Yields.fails halign (by decide) (by omega)
  · set written := ((heap.align 256).write (heap.align 256).freePtr c.contextSize).write
      ((heap.align 256).freePtr + c.sysmemBufCnt * 256) (c.sysmemBufCnt * 4)
    have hwritten : HeapOk c written :=
      (halign.write hlo (by omega)).write (by omega) (by omega)
    have hring : ((heap.align 256).freePtr + c.sysmemBufCnt * 256) % 4 = 0 := by omega
    have hok := ((hwritten.carve (a := 256) hmod (c.sysmemBufCnt * 256)).carve (a := 4) hring
      (c.sysmemBufCnt * 4)).skip (c.contextSize - c.sysmemBufCnt * 260)
    apply (Yields.ok hok ?_).of_iff
    · exact ⟨fun _ ↦ by omega, fun _ ↦ trivial⟩
    · simp only [Heap.skip, Heap.carve, written, Heap.write]
      omega

theorem initContextSaveRestoreArea_yields (hc : Accepted c) (h : HeapOk c heap)
    (hfree : heap.freePtr = c.databaseEnd b)
    (hdma : c.UseDdrMemory b → c.sysmemBaseVirt ≤ heap.ddrDmaArea ∧
      heap.ddrDmaArea + nlmDdrDmaAreaSize ≤ c.sysmemEnd) :
    Yields c (c.ContextFits b) (fun heap ↦ heap.freePtr = c.contextEnd b)
      (c.initContextSaveRestoreArea b heap) := by
  unfold initContextSaveRestoreArea ContextFits contextEnd
  by_cases hxaui : b.hwType = 5
  · simp only [hxaui, ne_eq, not_true_eq_false, false_and, if_true, if_false, true_or]
    exact Yields.ok h hfree
  simp only [hxaui, if_false, false_or, ne_eq, not_false_eq_true, true_and]
  by_cases hddr : c.UseDdrMemory b
  · simp only [hddr, if_true, not_true_eq_false, if_false]
    unfold initContextSaveRestoreAreaDdrRing
    split_ifs with hout
    · exact Yields.fails h (by decide) (not_not.mpr hout)
    · obtain ⟨hlo, hhi⟩ := hdma hddr
      have hwrite : heap.ddrDmaArea + min nlmDdrDmaAreaSize (c.ddrBufCnt * 4) ≤ c.sysmemEnd :=
        (Nat.add_le_add_left (min_le_left _ _) _).trans hhi
      apply (Yields.ok (h.write hlo hwrite) ?_).of_iff
      · exact ⟨fun _ ↦ hout, fun _ ↦ trivial⟩
      · exact hfree
  · simp only [hddr, if_false, not_false_eq_true, if_true]
    rw [← hfree]
    exact initContextSysmem_yields hc h

theorem initInputFifo_yields (h : HeapOk c heap) (hfree : heap.freePtr = c.contextEnd b) :
    Yields c (c.inputFifoEnd b < c.topOfHeap) (fun heap ↦ heap.freePtr = c.inputFifoEnd b)
      ((c.initInputFifo heap).check c.topOfHeap) := by
  have hend : (c.initInputFifo heap).freePtr = c.inputFifoEnd b := by
    simp only [initInputFifo, Heap.carve, Heap.align, hfree, inputFifoEnd]
  exact Yields.check (h.alignCarve (by decide) _) hend hend

theorem initOutputFifo_yields (h : HeapOk c heap) (hfree : heap.freePtr = c.inputFifoEnd b) :
    Yields c (c.fifoEnd b < c.topOfHeap) (fun heap ↦ heap.freePtr = c.fifoEnd b)
      ((c.initOutputFifo heap).check c.topOfHeap) := by
  have hend : (c.initOutputFifo heap).freePtr = c.fifoEnd b := by
    simp only [initOutputFifo, Heap.carve, Heap.align, hfree, fifoEnd]
  exact Yields.check (h.alignCarve (by decide) _) hend hend

theorem ends_le (c : NlmDeviceConfig) (b : Board) :
    c.mirrorBase b + 16 ≤ c.ddrEnd b ∧ c.ddrEnd b ≤ c.contextEnd b ∧
      c.contextEnd b ≤ c.inputFifoEnd b ∧ c.inputFifoEnd b ≤ c.fifoEnd b := by
  have hddr := le_alignUp (a := 16) (by decide) (c.mirrorBase b + 16)
  have hdatabase := le_alignUp (a := 128) (by decide) (c.ddrEnd b)
  have hcontext := le_alignUp (a := 256) (by decide) (c.databaseEnd b)
  have hinput := le_alignUp (a := 32) (by decide) (c.contextEnd b)
  have houtput := le_alignUp (a := 16) (by decide) (c.inputFifoEnd b)
  have hdatabaseEnd : c.ddrEnd b ≤ c.databaseEnd b := by
    unfold databaseEnd
    split_ifs
    · exact hdatabase.trans (Nat.le_add_right _ _)
    · exact le_rfl
  refine ⟨?_, hdatabaseEnd.trans ?_, ?_, ?_⟩
  · unfold ddrEnd
    split_ifs
    · exact hddr.trans (Nat.le_add_right _ _)
    · exact le_rfl
  · unfold contextEnd
    split_ifs
    · exact hcontext.trans (Nat.le_add_right _ _)
    · exact le_rfl
  · exact hinput.trans (Nat.le_add_right _ _)
  · exact houtput.trans (Nat.le_add_right _ _)

theorem initHardwareAreas_yields (hc : Accepted c) (hb : b.Valid) :
    Yields c (c.HardwareAreasFit b) (fun heap ↦ heap.freePtr = c.fifoEnd b)
      (c.initHardwareAreas b) := by
  obtain ⟨-, htop, -⟩ := topOfHeap_spec c
  have hphy : Yields c (c.mirrorBase b < c.topOfHeap)
      (fun heap ↦ heap.freePtr = c.mirrorBase b) ((c.initPhyDevice b).check c.topOfHeap) :=
    Yields.check (initPhyDevice_ok hc hb) rfl rfl
  have hring := hphy.andThen fun heap h hfree hlt ↦ writePhyDevice_yields h hfree hlt
  have hmirror := hring.andThen fun heap h hfree hlt ↦
    initPointerMirrorArea_yields h hfree hlt.1
  have hddr := hmirror.andThen fun heap h hfree _ ↦ initDdrMemory_yields h hfree
  have hcontext := hddr.andThen fun heap h hfree hlt ↦ by
    obtain ⟨hok, hend, hsame⟩ := initDatabaseExtensionArea_ok h hfree.1
    apply initContextSaveRestoreArea_yields hc hok hend
    intro huse
    obtain ⟨hlo, hhi⟩ := hfree.2 huse
    rw [hsame]
    exact ⟨hlo, (hhi.trans_le hlt.2.le).trans htop⟩
  have hinput := hcontext.andThen fun heap h hfree _ ↦ initInputFifo_yields h hfree
  have houtput := hinput.andThen fun heap h hfree _ ↦ initOutputFifo_yields h hfree
  apply houtput.of_iff
  obtain ⟨hle1, hle2, hle3, hle4⟩ := ends_le c b
  constructor
  · rintro ⟨⟨⟨⟨⟨⟨-, hstatus⟩, -⟩, -⟩, hfits⟩, -⟩, hlt⟩
    exact ⟨hstatus, hfits, hlt⟩
  · rintro ⟨hstatus, hfits, hlt⟩
    exact ⟨⟨⟨⟨⟨⟨by omega, hstatus⟩, by omega⟩, by omega⟩, hfits⟩, by omega⟩, hlt⟩

/-- A header is written before the check of the buffer behind it; only for the first
header no check stands before. -/
theorem fifoLoop_yields {header size : ℕ} (hlo : c.sysmemBaseVirt ≤ header)
    (hsize : size % 8 = 0) (hfirst : header + sizeofFifo ≤ c.sysmemEnd) (n i : ℕ)
    (h : HeapOk c heap) (haligned : heap.freePtr % 8 = 0)
    (hheaders : header + sizeofFifo * (i + n) ≤ heap.freePtr)
    (hchecked : i = 0 ∨ heap.freePtr < c.topOfHeap) :
    Yields c (n = 0 ∨ heap.freePtr + n * size < c.topOfHeap)
      (fun heap' ↦ heap'.freePtr = heap.freePtr + n * size)
      (c.fifoLoop header size n i heap) := by
  obtain ⟨-, htop, -⟩ := topOfHeap_spec c
  induction n generalizing i heap with
  | zero =>
    apply (Yields.ok h ?_).of_iff
    · exact ⟨fun _ ↦ .inl rfl, fun _ ↦ trivial⟩
    · rw [Nat.zero_mul, Nat.add_zero]
  | succ n ih =>
    have hwrite : header + sizeofFifo * i + sizeofFifo ≤ c.sysmemEnd := by
      simp only [sizeofFifo] at *
      omega
    have hok := (h.write (hlo.trans (Nat.le_add_right _ _)) hwrite).carve haligned size
    have hcheck : Yields c (heap.freePtr + size < c.topOfHeap)
        (fun heap' ↦ heap'.freePtr = heap.freePtr + size)
        (((heap.write (header + sizeofFifo * i) sizeofFifo).carve 8 size).check c.topOfHeap) :=
      Yields.check hok rfl rfl
    have hsucc : heap.freePtr + size + n * size = heap.freePtr + (n + 1) * size := by
      rw [Nat.succ_mul]
      omega
    have hloop := hcheck.andThen fun heap' h' hfree hlt ↦ by
      have hrest := ih (i + 1) h' (by omega) (by simp only [sizeofFifo] at *; omega)
        (.inr (hfree.trans_lt hlt))
      rw [hfree, hsucc] at hrest
      exact hrest
    apply hloop.of_iff
    constructor
    · rintro ⟨hlt, hzero | hrest⟩
      · right
        rwa [hzero, Nat.zero_add, Nat.one_mul]
      · exact .inr hrest
    · rintro (hzero | hrest)
      · exact absurd hzero (Nat.succ_ne_zero n)
      · have hle := Nat.le_mul_of_pos_left size (Nat.succ_pos n)
        exact ⟨by omega, .inr hrest⟩

theorem softwareFifos_yields (hc : Accepted c) {size : ℕ} (h : HeapOk c heap)
    (haligned : heap.freePtr % 8 = 0) (hsize : size % 8 = 0)
    (hfirst : heap.freePtr + sizeofFifo ≤ c.sysmemEnd) :
    Yields c (c.softwareFifosEnd size heap.freePtr < c.topOfHeap)
      (fun heap' ↦ heap'.freePtr = c.softwareFifosEnd size heap.freePtr)
      (c.softwareFifos size heap) := by
  have hpos := hc.threads_pos
  have hok := (h.carve haligned (sizeofFifo * c.maxThreads)).align (a := 8) (by decide)
  have hle := le_alignUp (a := 8) (by decide) (heap.freePtr + sizeofFifo * c.maxThreads)
  have hloop := fifoLoop_yields h.base_le hsize hfirst c.maxThreads 0 hok (alignUp_mod 8 _)
    (by rwa [Nat.zero_add]) (.inl rfl)
  apply hloop.of_iff
  constructor
  · rintro (hzero | hlt)
    · exact absurd hzero hpos.ne'
    · exact hlt
  · exact .inr

/-- Something was written behind the memory, and the initialisation failed. -/
def Overrun (c : NlmDeviceConfig) (r : Heap × NlmStatus) : Prop :=
  (∃ w ∈ r.1.writes, ¬ w.Inside c.sysmemBaseVirt c.sysmemEnd) ∧ r.2 ≠ .ok

theorem andThen_of_ok {stage : Heap → Heap × NlmStatus} (h : r.2 = .ok) :
    andThen r stage = stage r.1 := if_pos h

theorem andThen_of_ne {stage : Heap → Heap × NlmStatus} (h : r.2 ≠ .ok) :
    andThen r stage = r := if_neg h

theorem Overrun.andThen {stage : Heap → Heap × NlmStatus} (h : Overrun c r) :
    Overrun c (andThen r stage) := by
  rw [andThen_of_ne h.2]
  exact h

theorem softwareFifos_overrun (hc : Accepted c) (size : ℕ)
    (hfirst : c.sysmemEnd < heap.freePtr + sizeofFifo) :
    Overrun c (c.softwareFifos size heap) := by
  obtain ⟨-, htop, -⟩ := topOfHeap_spec c
  have hpos := hc.threads_pos
  obtain ⟨n, hn⟩ := Nat.exists_eq_succ_of_ne_zero hpos.ne'
  have hle := le_alignUp (a := 8) (by decide) (heap.freePtr + sizeofFifo * c.maxThreads)
  have hheaders : sizeofFifo ≤ sizeofFifo * c.maxThreads := Nat.le_mul_of_pos_right _ hpos
  have hbehind : c.topOfHeap ≤
      alignUp 8 (heap.freePtr + sizeofFifo * c.maxThreads) + size := by omega
  unfold softwareFifos
  rw [show c.fifoLoop heap.freePtr size c.maxThreads = c.fifoLoop heap.freePtr size (n + 1)
    from congrArg _ hn, fifoLoop]
  apply Overrun.andThen
  constructor
  · refine ⟨⟨1, heap.freePtr, sizeofFifo⟩, List.mem_append_right _ (List.mem_singleton.mpr rfl),
      fun hinside ↦ ?_⟩
    exact absurd hinside.2 (Nat.not_le.mpr hfirst)
  · intro hok
    exact absurd (Heap.check_eq_ok hok) (Nat.not_lt.mpr hbehind)

theorem fifoEnd_mod (c : NlmDeviceConfig) (b : Board) : c.fifoEnd b % 8 = 0 := by
  simp only [fifoEnd, alignUp, sizeofResult]
  omega

theorem jobFifos_yields (hc : Accepted c) (h : HeapOk c heap)
    (hfree : heap.freePtr = c.fifoEnd b) (hfirst : c.fifoEnd b + sizeofFifo ≤ c.sysmemEnd) :
    Yields c (c.resultBase b < c.topOfHeap) (fun heap ↦ heap.freePtr = c.resultBase b)
      (andThen (c.softwareFifos (sizeofFd * c.inputFifoSize) heap) fun heap ↦
        (heap.align 8).check c.topOfHeap) := by
  have hmod := fifoEnd_mod c b
  rw [← hfree] at hmod hfirst
  have hjobs := softwareFifos_yields hc h hmod
    (by simp only [sizeofFd]; omega : sizeofFd * c.inputFifoSize % 8 = 0) hfirst
  rw [hfree] at hjobs
  have hboth := hjobs.andThen fun heap' h' hend _ ↦ by
    have hbase : (heap'.align 8).freePtr = c.resultBase b := congrArg (alignUp 8) hend
    have hcheck : Yields c (c.resultBase b < c.topOfHeap)
        (fun heap ↦ heap.freePtr = c.resultBase b) ((heap'.align 8).check c.topOfHeap) :=
      Yields.check (h'.align (by decide)) hbase hbase
    exact hcheck
  apply hboth.of_iff
  exact ⟨And.right, fun hlt ↦ ⟨(le_alignUp (by decide) _).trans_lt hlt, hlt⟩⟩

theorem resultBase_le (c : NlmDeviceConfig) (b : Board) (size : ℕ) :
    c.resultBase b ≤ c.softwareFifosEnd size (c.resultBase b) := by
  have hle := le_alignUp (a := 8) (by decide) (c.resultBase b + sizeofFifo * c.maxThreads)
  unfold softwareFifosEnd
  omega

theorem initManagerThreadFifo_yields (hc : Accepted c) (h : HeapOk c heap)
    (hfree : heap.freePtr = c.fifoEnd b) (hlt : c.fifoEnd b < c.topOfHeap)
    (hmiss : ¬ c.HeaderMisses b) :
    Yields c (c.softwareEnd b < c.topOfHeap) (fun heap ↦ heap.freePtr = c.softwareEnd b)
      (c.initManagerThreadFifo heap) := by
  unfold initManagerThreadFifo softwareEnd
  split_ifs with husing
  · simp only [HeaderMisses, husing, true_and, not_or, not_and, not_lt] at hmiss
    have hboth := (jobFifos_yields hc h hfree hmiss.1).andThen fun heap' h' hend hbase ↦ by
      have hresults := softwareFifos_yields hc h' (hend ▸ alignUp_mod 8 _)
        (by simp only [sizeofResult]; omega : sizeofResult * c.outputFifoSize % 8 = 0)
        (hend ▸ hmiss.2 hbase)
      rw [hend] at hresults
      exact hresults
    apply hboth.of_iff
    exact ⟨And.right, fun hend ↦ ⟨(resultBase_le c b _).trans_lt hend, hend⟩⟩
  · apply (Yields.ok h hfree).of_iff
    exact ⟨fun _ ↦ hlt, fun _ ↦ trivial⟩

theorem initManagerThreadFifo_overrun (hc : Accepted c) (h : HeapOk c heap)
    (hfree : heap.freePtr = c.fifoEnd b) (hmiss : c.HeaderMisses b) :
    Overrun c (c.initManagerThreadFifo heap) := by
  obtain ⟨husing, hmiss⟩ := hmiss
  unfold initManagerThreadFifo
  rw [if_pos husing]
  by_cases hfirst : c.sysmemEnd < c.fifoEnd b + sizeofFifo
  · have hjobs := softwareFifos_overrun hc (sizeofFd * c.inputFifoSize) (hfree ▸ hfirst)
    exact hjobs.andThen.andThen
  · obtain ⟨hbase, hresults⟩ := hmiss.resolve_left hfirst
    have hjobs := jobFifos_yields hc h hfree (Nat.le_of_not_lt hfirst)
    simp only
    rw [andThen_of_ok (hjobs.ok_iff.mpr hbase)]
    apply softwareFifos_overrun hc
    exact (hjobs.heap hbase).2.symm ▸ hresults

theorem chunks_carved {lo pdBase : ℕ} {regions : List Region} (h : Carved lo pdBase regions)
    (hlo : lo ≤ pdBase) (haligned : pdBase % 128 = 0) (size n : ℕ) :
    Carved lo (pdBase + size * n) (regions ++ chunks pdBase size n) := by
  induction n with
  | zero => simpa [chunks] using h
  | succ n ih =>
    have hmod : (pdBase + size * n) % (if n = 0 then 128 else 1) = 0 := by
      split_ifs with hn
      · rw [hn, Nat.mul_zero, Nat.add_zero]
        exact haligned
      · exact Nat.mod_one _
    have hsnoc := ih.snoc (hlo.trans (Nat.le_add_right _ _)) hmod size
    rw [Nat.add_assoc, ← Nat.mul_succ, List.append_assoc] at hsnoc
    rw [chunks, List.range_succ, List.map_append]
    exact hsnoc

theorem chunksize_of_le (hc : Accepted c) {pdBase : ℕ} (hlo : c.sysmemBaseVirt ≤ pdBase)
    (hle : pdBase ≤ c.topOfHeap) :
    pdBase + c.chunksize b pdBase * c.maxThreads ≤ c.topOfHeap := by
  obtain ⟨-, htop, -⟩ := topOfHeap_spec c
  have hsize := hc.size_lt
  have hlimit : pdBase ≤ c.topOfChunks b pdBase ∧ c.topOfChunks b pdBase ≤ c.topOfHeap := by
    unfold topOfChunks
    simp only [sizeofPdf]
    split_ifs with hlimit
    · have hfar := hlimit.2
      omega
    · exact ⟨hle, le_rfl⟩
  obtain ⟨room, hroom⟩ := Nat.exists_eq_add_of_le hlimit.1
  have hdiff : ((c.topOfChunks b pdBase : ℕ) : ℤ) - pdBase = room := by omega
  have hdiv := Nat.div_le_self room c.maxThreads
  have hsmall : room < 2 ^ 32 := by
    simp only [sysmemEnd] at htop
    omega
  have hchunk : c.chunksize b pdBase = room / c.maxThreads := by
    rw [chunksize, hdiff, ← Int.ofNat_tdiv]
    generalize room / c.maxThreads = share at hdiv
    omega
  have hmul := Nat.div_mul_le_self room c.maxThreads
  rw [hchunk]
  omega

/-- Where the chunks begin behind the memory, their size is negative, unless the limit
on the PDFs replaces it. -/
theorem chunksize_of_crossed (hc : Accepted c) :
    32 * sizeofPd ≤ c.chunksize b (c.topOfHeap + 64) ↔
      (c.UseDdrMemory b → c.maxThreads ≤ 64) := by
  have hpos := hc.threads_pos
  have hmax := hc.threads_le
  unfold chunksize topOfChunks
  simp only [sizeofPdf, sizeofPd, nlmMaxThreads] at *
  by_cases hddr : c.UseDdrMemory b
  · have hdiff : ((c.topOfHeap : ℕ) : ℤ) - ((c.topOfHeap + 64 : ℕ) : ℤ) = -((64 : ℕ) : ℤ) := by
      omega
    have hquot : 64 / c.maxThreads = 0 ↔ 64 < c.maxThreads := by
      rw [Nat.div_eq_zero_iff]
      omega
    have hle := Nat.div_le_self 64 c.maxThreads
    rw [if_neg (fun hlimit ↦ hlimit.1 hddr), hdiff, Int.neg_tdiv, ← Int.ofNat_tdiv]
    simp only [hddr, true_implies]
    generalize 64 / c.maxThreads = share at hquot hle
    omega
  · have hlimit : ¬ c.UseDdrMemory b ∧
        (((c.topOfHeap : ℕ) : ℤ) - ((c.topOfHeap + 64 : ℕ) : ℤ)) / (128 : ℕ) / 2 ^ 24 ≠ 0 := by
      exact ⟨hddr, by omega⟩
    have hdiff : ((c.topOfHeap + 64 + (2 ^ 24 - 1) * 128 : ℕ) : ℤ) -
        ((c.topOfHeap + 64 : ℕ) : ℤ) = ((2147483520 : ℕ) : ℤ) := by omega
    have hlarge : 2147483520 / 256 ≤ 2147483520 / c.maxThreads :=
      Nat.div_le_div_left hmax hpos
    have hle := Nat.div_le_self 2147483520 c.maxThreads
    rw [if_pos hlimit, hdiff, ← Int.ofNat_tdiv]
    simp only [hddr, false_implies, iff_true]
    generalize 2147483520 / c.maxThreads = share at hlarge hle
    omega

theorem systemMemoryOk_of_ne (hne : r.2 ≠ .ok)
    (hwritten : ∀ w ∈ r.1.writes, w.Inside c.sysmemBaseVirt c.sysmemEnd) :
    c.SystemMemoryOk r := ⟨fun hok ↦ absurd hok hne, hwritten⟩

theorem Overrun.not_ok (h : Overrun c r) : ¬ c.SystemMemoryOk r := by
  obtain ⟨⟨w, hw, hinside⟩, -⟩ := h
  exact fun hok ↦ hinside (hok.written w hw)

theorem initPd_iff (hc : Accepted c) (h : HeapOk c heap)
    (hfree : heap.freePtr = c.softwareEnd b) (hlt : c.softwareEnd b < c.topOfHeap) :
    c.SystemMemoryOk (c.initPd b heap) ↔ ¬ c.ChunksMiss b := by
  obtain ⟨hmod, htop, hnext⟩ := topOfHeap_spec c
  have hok := h.align (a := 128) (by decide)
  have hbase : (heap.align 128).freePtr = alignUp 128 (c.softwareEnd b) :=
    congrArg (alignUp 128) hfree
  by_cases hcross : c.topOfHeap < alignUp 128 (c.softwareEnd b)
  · have hcrossed : (heap.align 128).freePtr = c.topOfHeap + 64 := by
      rw [hbase]
      simp only [alignUp] at hcross ⊢
      omega
    have hchunk := chunksize_of_crossed (b := b) hc
    simp only [ChunksMiss, hlt, hcross, true_and]
    rw [← hchunk]
    unfold initPd
    simp only [hcrossed]
    split_ifs with hsmall
    · exact ⟨fun _ hmiss ↦ absurd hmiss.1 (Nat.not_le.mpr hsmall),
        fun _ ↦ systemMemoryOk_of_ne (fun hok ↦ by cases hok) h.written⟩
    · constructor
      · rintro hgood ⟨-, hsanity⟩
        -- the first chunk lies behind the memory
        have hpos := hc.threads_pos
        have hfirst : (⟨128, c.topOfHeap + 64, c.chunksize b (c.topOfHeap + 64)⟩ : Region) ∈
            chunks (c.topOfHeap + 64) (c.chunksize b (c.topOfHeap + 64)) c.maxThreads := by
          apply List.mem_map.mpr
          exact ⟨0, List.mem_range.mpr hpos, by simp⟩
        have hinside := ((hgood.carved hsanity).inside _ (List.mem_append_right _ hfirst)).2
        simp only [Region.next] at hinside
        omega
      · intro hmiss
        apply systemMemoryOk_of_ne
        · exact fun hsanity ↦ hmiss ⟨Nat.le_of_not_lt hsmall, hsanity⟩
        · exact h.written
  · have hfit := chunksize_of_le (b := b) hc (hok.base_le.trans hbase.le)
      (Nat.le_of_not_lt hcross)
    refine ⟨fun _ hmiss ↦ hcross hmiss.2.1, fun _ ↦ ?_⟩
    unfold initPd
    simp only
    split_ifs
    · exact systemMemoryOk_of_ne (fun hok ↦ by cases hok) h.written
    · refine ⟨fun _ ↦ ?_, h.written⟩
      apply (chunks_carved hok.carved hok.base_le (alignUp_mod 128 _) _ _).mono
      rw [hbase]
      exact hfit.trans htop

/-- `physical_device_init` keeps to the system memory, and what it carves is disjoint
and aligned, unless the first header of a kind of software FIFOs goes beyond the
memory or the chunks are aligned out of it. -/
theorem systemMemoryOk_iff {allocated : ℕ} (h : c.initError allocated = none)
    (hsize : c.sysmemSize < 2 ^ 32) (hb : b.Valid) :
    c.SystemMemoryOk (c.physicalDeviceInit b) ↔
      ¬ (c.HardwareAreasFit b ∧ (c.HeaderMisses b ∨ c.ChunksMiss b)) := by
  have hc := accepted_of_initError h hsize
  have hareas := initHardwareAreas_yields hc hb
  have hrun : c.physicalDeviceInit b =
      andThen (andThen (c.initHardwareAreas b) c.initManagerThreadFifo) (c.initPd b) := rfl
  rw [hrun]
  by_cases hfit : c.HardwareAreasFit b
  · obtain ⟨hok, hfree⟩ := hareas.heap hfit
    rw [andThen_of_ok (hareas.ok_iff.mpr hfit)]
    simp only [hfit, true_and]
    by_cases hmiss : c.HeaderMisses b
    · have hover := initManagerThreadFifo_overrun hc hok hfree hmiss
      exact ⟨fun hgood ↦ absurd hgood hover.andThen.not_ok,
        fun hnone ↦ absurd (.inl hmiss) hnone⟩
    · have hmanager := initManagerThreadFifo_yields hc hok hfree hfit.2.2 hmiss
      simp only [hmiss, false_or]
      by_cases hend : c.softwareEnd b < c.topOfHeap
      · obtain ⟨hok', hfree'⟩ := hmanager.heap hend
        rw [andThen_of_ok (hmanager.ok_iff.mpr hend)]
        exact initPd_iff hc hok' hfree' hend
      · have hne := fun hstatus ↦ hend (hmanager.ok_iff.mp hstatus)
        rw [andThen_of_ne hne]
        exact ⟨fun _ hchunks ↦ hend hchunks.1,
          fun _ ↦ systemMemoryOk_of_ne hne hmanager.written⟩
  · have hne := fun hstatus ↦ hfit (hareas.ok_iff.mp hstatus)
    rw [andThen_of_ne hne, andThen_of_ne hne]
    exact ⟨fun _ hboth ↦ hfit hboth.1, fun _ ↦ systemMemoryOk_of_ne hne hareas.written⟩

/-- A master ring on the ASIC. -/
def famos : Board where
  sizeofPhyDevice := 95240
  headSize := 0x400
  ringStatus := .ok
  hwType := 4
  numFmsBlocks := 12
  nlmHwFms := true
  sanity := .ok

theorem systemMemoryOk_iff_sample :
    plain.SystemMemoryOk (plain.physicalDeviceInit famos) := by
  apply (@systemMemoryOk_iff plain famos 0 (by decide) (by decide)
    ⟨by decide, by decide⟩).mpr
  rintro ⟨-, ⟨husing, -⟩ | ⟨-, hcross, -⟩⟩
  · cases husing
  · exact absurd hcross (by decide)

/-- The output FIFO ends 48 bytes below the end of the memory. -/
def nearlyFull : NlmDeviceConfig :=
  { plain with sysmemSize := 2946624, outputFifoSize := 1 }

/-- The initialisation succeeds with all PDs and PDFs behind the memory. -/
theorem nearlyFull_outside : nearlyFull.initError 0 = none ∧
    (nearlyFull.physicalDeviceInit famos).2 = .ok ∧
    ¬ nearlyFull.SystemMemoryOk (nearlyFull.physicalDeviceInit famos) := by
  have hstatus : (nearlyFull.physicalDeviceInit famos).2 = .ok := by decide
  refine ⟨by decide, hstatus, fun hgood ↦ ?_⟩
  have hchunk : (⟨128, 3995264, 2147483520⟩ : Region) ∈
      (nearlyFull.physicalDeviceInit famos).1.regions := by decide
  exact absurd ((hgood.carved hstatus).inside _ hchunk).2 (by decide)

end NetL7.Device
