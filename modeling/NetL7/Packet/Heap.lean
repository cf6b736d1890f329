import NetL7.Lib.FreeList
import NetL7.Packet.Separation

/-!
# The allocators in memory

The allocators as they work on memory, with PDFs in system memory: free flows, jobs
and PDs are linked through their first words, a flow keeps its kind and its PDF index
in itself, and all objects are addresses.
-/

namespace NetL7.Packet

open NetL7.Device NetL7.Lib NlmDeviceConfig

/-- The offset of the word of `struct nlm_flow` with the bit `is_stateless`. -/
abbrev isStatelessOffset : ℕ := 28

/-- The offset of `pdf_index` in `struct nlm_flow`. -/
abbrev pdfIndexOffset : ℕ := 56

/-- The offset of `cookie` in `struct hw_pd_descriptor`. -/
abbrev cookieOffset : ℕ := 8

/-- The memory pool, system memory, and the pointers of `nlm_device_t` into both. -/
structure Heap where
  pool : Memory
  sys : Memory
  firstFreeFlow : ℕ
  statefulFlowListHead : ℕ
  statelessFlowListHead : ℕ
  firstFreeJob : ℕ
  jobListHead : ℕ
  pdListHead : ℕ
  firstFreePd : ℕ
  firstFreePdf : ℕ

namespace Heap

/-- The pointers as `device_attach` sets them. -/
def attach (c : ThreadConfig) (pool sys : Memory) : Heap :=
  let pdStart := alignUp 128 (c.pdBase + c.chunkOffset)
  { pool := pool
    sys := sys
    firstFreeFlow := c.pool.flowBase
    statefulFlowListHead := 0
    statelessFlowListHead := 0
    firstFreeJob := c.pool.jobBase - sizeofNlmJob
    jobListHead := 0
    pdListHead := 0
    firstFreePd := if pdStart = c.pdBase then pdStart + sizeofPd else pdStart
    firstFreePdf := alignDown 128 (c.pdBase + c.chunkOffset + c.chunksize) - sizeofPdf }

variable (c : ThreadConfig) (h : Heap)

/-- `flow->is_stateless` -/
def isStateless (flow : ℕ) : Bool := h.pool (flow + isStatelessOffset) % 2 == 1

/-- `flow->u.stateful.pdf_index` -/
def pdfIndex (flow : ℕ) : ℕ := h.pool (flow + pdfIndexOffset)

def setPdfIndex (flow index : ℕ) : Heap :=
  { h with pool := Function.update h.pool (flow + pdfIndexOffset) index }

/-- `sysmem_alloc_pdf` -/
def sysmemAllocPdf (flow : ℕ) : Heap :=
  if h.firstFreePdf - sizeofPdf ≤ h.firstFreePd then h.setPdfIndex flow 0
  else
    { h.setPdfIndex flow ((h.firstFreePdf - c.pdBase) / sizeofPdf % 2 ^ 32) with
      sys := h.sys.clear h.firstFreePdf sizeofPdf
      firstFreePdf := h.firstFreePdf - sizeofPdf }

/-- `sysmem_alloc_pd` -/
def sysmemAllocPd : Option ℕ × Heap :=
  if h.pdListHead ≠ 0 then
    (some h.pdListHead, { h with pdListHead := h.sys.load h.pdListHead })
  else if h.firstFreePdf < h.firstFreePd + sizeofPd then (none, h)
  else
    let h' := { h with firstFreePd := h.firstFreePd + sizeofPd }
    if ((h.firstFreePd - c.pdBase) / sizeofPd) >>> 24 ≠ 0 then (none, h')
    else (some h.firstFreePd, h')

/-- `sysmem_free_pd` -/
def sysmemFreePd (pd : ℕ) : Heap :=
  { h with
    sys := Function.update (h.sys.store pd h.pdListHead) (pd + cookieOffset) 0
    pdListHead := pd }

/-- A flow that was never used, zeroed. -/
def allocFreshFlow : Option (ℕ × Heap) :=
  if h.firstFreeFlow + sizeofNlmFlow ≥ h.firstFreeJob then none
  else some (h.firstFreeFlow,
    { h with
      firstFreeFlow := h.firstFreeFlow + sizeofNlmFlow
      pool := h.pool.clear h.firstFreeFlow sizeofNlmFlow })

/-- The stateless half of `memory_pool_alloc_flow`. -/
def allocStatelessFlow : Option (ℕ × Heap) :=
  if h.statelessFlowListHead ≠ 0 then
    some (h.statelessFlowListHead,
      { h with
        statelessFlowListHead := h.pool.load h.statelessFlowListHead
        pool := h.pool.clear h.statelessFlowListHead sizeofNlmFlow })
  else h.allocFreshFlow

/-- The stateful half of `memory_pool_alloc_flow`. -/
def allocStatefulFlow : Option (ℕ × Heap) :=
  if h.statefulFlowListHead ≠ 0 then
    let flow := h.statefulFlowListHead
    let h' :=
      { h with
        statefulFlowListHead := h.pool.load flow
        pool := h.pool.clear flow sizeofNlmFlow }
    some (flow, h'.setPdfIndex flow (h.pdfIndex flow))
  else h.allocFreshFlow.map fun (flow, h) ↦ (flow, h.sysmemAllocPdf c flow)

/-- `nlm_create_flow` -/
def nlmCreateFlow (flowType : NlmFlowType) : NlmStatus × Option ℕ × Heap :=
  match flowType with
  | .invalid => (.invalidFlow, none, h)
  | .stateless =>
    match h.allocStatelessFlow with
    | none => (.outOfMemory, none, h)
    | some (flow, h) =>
      (.ok, some flow, { h with
        pool := Function.update h.pool (flow + isStatelessOffset)
          (h.pool (flow + isStatelessOffset) / 2 * 2 + 1) })
  | .stateful =>
    match h.allocStatefulFlow c with
    | none => (.outOfMemory, none, h)
    | some (flow, h) =>
      if h.pdfIndex flow = 0 then (.outOfDeviceMemory, none, h) else (.ok, some flow, h)

/-- `memory_pool_free_flow` -/
def memoryPoolFreeFlow (flow : ℕ) : Heap :=
  if h.isStateless flow then
    { h with
      pool := h.pool.store flow h.statelessFlowListHead
      statelessFlowListHead := flow }
  else
    { h with
      pool := h.pool.store flow h.statefulFlowListHead
      statefulFlowListHead := flow }

/-- `memory_pool_alloc_job` -/
def memoryPoolAllocJob : Option ℕ × Heap :=
  if h.jobListHead ≠ 0 then
    (some h.jobListHead, { h with jobListHead := h.pool.load h.jobListHead })
  else if h.firstFreeJob - sizeofNlmJob ≤ h.firstFreeFlow then (none, h)
  else (some h.firstFreeJob, { h with firstFreeJob := h.firstFreeJob - sizeofNlmJob })

/-- `memory_pool_free_job` -/
def memoryPoolFreeJob (job : ℕ) : Heap :=
  { h with pool := h.pool.store job h.jobListHead, jobListHead := job }

end Heap

/-! ## Runs -/

/-- The heap, the addresses of the objects that are in use, and the PDF index that each
flow slot was given first. -/
structure HeapRun where
  heap : Heap
  flows : List ℕ
  jobs : List ℕ
  pds : List ℕ
  given : ℕ → ℕ

namespace HeapRun

def start (c : ThreadConfig) (pool sys : Memory) : HeapRun :=
  ⟨.attach c pool sys, [], [], [], fun _ ↦ 0⟩

/-- The cells of the pool that others than the allocators write: those of flows and
jobs in use, but not the kind and the PDF index of a flow. -/
def PoolWritable (r : HeapRun) (a : ℕ) : Prop :=
  (∃ flow ∈ r.flows, flow ≤ a ∧ a < flow + sizeofNlmFlow ∧ a ≠ flow + isStatelessOffset ∧
    (a = flow + pdfIndexOffset → r.heap.isStateless flow = true)) ∨
  ∃ job ∈ r.jobs, job ≤ a ∧ a < job + sizeofNlmJob

/-- The same of system memory: those of PDs in use and of PDFs. -/
def SysWritable (r : HeapRun) (a : ℕ) : Prop :=
  (∃ pd ∈ r.pds, pd ≤ a ∧ a < pd + sizeofPd) ∨ r.heap.firstFreePdf + sizeofPdf ≤ a

/-- `nlm_create_flow`, whether it succeeds or not. -/
def createFlow (c : ThreadConfig) (r : HeapRun) (flowType : NlmFlowType) : HeapRun :=
  let (_, flow, heap) := r.heap.nlmCreateFlow c flowType
  { r with
    heap := heap
    flows := flow.toList ++ r.flows
    given :=
      if flow = some r.heap.firstFreeFlow then
        Function.update r.given r.heap.firstFreeFlow (heap.pdfIndex r.heap.firstFreeFlow)
      else r.given }

/-- The calls of the allocators on objects in use, and writes to these objects in
between. -/
inductive Step (c : ThreadConfig) : HeapRun → HeapRun → Prop
  | createFlow {r : HeapRun} (flowType : NlmFlowType) : Step c r (r.createFlow c flowType)
  | freeFlow {r : HeapRun} {flow : ℕ} (hflow : flow ∈ r.flows) :
      Step c r { r with
        heap := r.heap.memoryPoolFreeFlow flow
        flows := r.flows.erase flow }
  | allocJob {r : HeapRun} :
      Step c r { r with
        heap := r.heap.memoryPoolAllocJob.2
        jobs := r.heap.memoryPoolAllocJob.1.toList ++ r.jobs }
  | freeJob {r : HeapRun} {job : ℕ} (hjob : job ∈ r.jobs) :
      Step c r { r with heap := r.heap.memoryPoolFreeJob job, jobs := r.jobs.erase job }
  | allocPd {r : HeapRun} :
      Step c r { r with
        heap := (r.heap.sysmemAllocPd c).2
        pds := (r.heap.sysmemAllocPd c).1.toList ++ r.pds }
  | freePd {r : HeapRun} {pd : ℕ} (hpd : pd ∈ r.pds) :
      Step c r { r with heap := r.heap.sysmemFreePd pd, pds := r.pds.erase pd }
  | use {r : HeapRun} {pool sys : Memory}
      (hpool : ∀ a, ¬ r.PoolWritable a → pool a = r.heap.pool a)
      (hsys : ∀ a, ¬ r.SysWritable a → sys a = r.heap.sys a) :
      Step c r { r with heap := { r.heap with pool := pool, sys := sys } }

def Reachable (c : ThreadConfig) (pool sys : Memory) : HeapRun → Prop :=
  Relation.ReflTransGen (Step c) (start c pool sys)

end HeapRun

end NetL7.Packet
