import NetL7.Device.Ddr
import NetL7.Packet.MemoryPool

/-!
# The allocators of a thread

Flows and jobs lie in the memory pool of the thread, PDs and PDFs in its chunk of
system memory, the PDs from the low end and the PDFs from the high end. A PD is
named by its distance from `pd_base` in PDs, a PDF by its distance in PDFs. With
DDR memory the PDFs are there, and all of the chunk is for PDs.
-/

namespace NetL7.Packet

open NetL7.Device NlmDeviceConfig

/-- `sizeof (struct hw_pd_descriptor)` -/
abbrev sizeofPd : ℕ := 16

/-- The memory of a thread: its pool, its chunk of system memory, and the PDF area
in DDR memory if that is used. -/
structure ThreadConfig where
  pool : PoolConfig
  pdBase : ℕ
  chunksize : ℕ
  ddr : Option DdrArea

namespace ThreadConfig

variable (c : ThreadConfig)

/-- The distance of the chunk from `pd_base`. -/
def chunkOffset : ℕ := c.chunksize * c.pool.threadId % 2 ^ 32

/-- The first free PD after `device_attach`. -/
def pdStart : ℕ :=
  if alignUp 128 c.chunkOffset = 0 then 1 else alignUp 128 c.chunkOffset / sizeofPd

/-- The number of PDFs below the end of the chunk. -/
def pdfEnd : ℕ := alignDown 128 (c.chunkOffset + c.chunksize) / sizeofPdf

end ThreadConfig

/-- The fields of `nlm_device_t` for PDs and PDFs. -/
structure PdPool where
  useDdrMemory : Bool
  pdList : List ℕ
  firstFreePd : ℕ
  firstFreePdf : ℕ
  currentPdfIndex : ℕ
  maxPdfIndex : ℕ
  deriving DecidableEq

namespace PdPool

/-- The chunk after `device_attach`. -/
def attach (c : ThreadConfig) : PdPool where
  useDdrMemory := c.ddr.isSome
  pdList := []
  firstFreePd := c.pdStart
  firstFreePdf := c.pdfEnd - 1
  currentPdfIndex := c.ddr.elim 0 fun area ↦ (pdfIndices area c.pool.threadId).currentPdfIndex
  maxPdfIndex := c.ddr.elim 0 fun area ↦ (pdfIndices area c.pool.threadId).maxPdfIndex

variable (m : PdPool)

/-- `sysmem_alloc_pdf`: the PDF index of a flow, or 0. -/
def sysmemAllocPdf : ℕ × PdPool :=
  if m.useDdrMemory then
    if m.currentPdfIndex < m.maxPdfIndex then
      (m.currentPdfIndex, { m with currentPdfIndex := m.currentPdfIndex + 1 })
    else (0, m)
  else if sizeofPdf * (m.firstFreePdf - 1) ≤ sizeofPd * m.firstFreePd then (0, m)
  else (m.firstFreePdf, { m with firstFreePdf := m.firstFreePdf - 1 })

/-- `sysmem_alloc_pd` -/
def sysmemAllocPd : Option ℕ × PdPool :=
  match m.pdList with
  | pd :: pds => (some pd, { m with pdList := pds })
  | [] =>
    if sizeofPdf * m.firstFreePdf < sizeofPd * (m.firstFreePd + 1) then (none, m)
    else
      let m' := { m with firstFreePd := m.firstFreePd + 1 }
      if m.firstFreePd >>> 24 ≠ 0 then (none, m') else (some m.firstFreePd, m')

/-- `sysmem_free_pd` -/
def sysmemFreePd (pd : ℕ) : PdPool := { m with pdList := pd :: m.pdList }

end PdPool

/-- The allocators of a thread and the fields of its flows that they use. -/
structure Allocators where
  pool : MemoryPool
  pds : PdPool
  pdfIndex : ℕ → ℕ
  isStateless : ℕ → Bool

namespace Allocators

def attach (c : ThreadConfig) : Allocators :=
  ⟨.attach c.pool, .attach c, fun _ ↦ 0, fun _ ↦ false⟩

variable (c : ThreadConfig) (m : Allocators)

/-- The stateless half of `memory_pool_alloc_flow`. -/
def allocStatelessFlow : Option (ℕ × Allocators) :=
  (m.pool.memoryPoolAllocFlow c.pool .stateless).map fun (flow, pool) ↦
    (flow, { m with
      pool := pool
      pdfIndex := Function.update m.pdfIndex flow 0
      isStateless := Function.update m.isStateless flow false })

/-- The stateful half of `memory_pool_alloc_flow`: a flow of the free list keeps
its PDF. -/
def allocStatefulFlow : Option (ℕ × Allocators) :=
  (m.pool.memoryPoolAllocFlow c.pool .stateful).map fun (flow, pool) ↦
    match m.pool.statefulFlowList with
    | _ :: _ =>
      (flow, { m with
        pool := pool
        isStateless := Function.update m.isStateless flow false })
    | [] =>
      (flow, { m with
        pool := pool
        pds := m.pds.sysmemAllocPdf.2
        pdfIndex := Function.update m.pdfIndex flow m.pds.sysmemAllocPdf.1
        isStateless := Function.update m.isStateless flow false })

/-- `nlm_create_flow` -/
def nlmCreateFlow (flowType : NlmFlowType) : NlmStatus × Option ℕ × Allocators :=
  match flowType with
  | .invalid => (.invalidFlow, none, m)
  | .stateless =>
    match m.allocStatelessFlow c with
    | none => (.outOfMemory, none, m)
    | some (flow, m) =>
      (.ok, some flow, { m with isStateless := Function.update m.isStateless flow true })
  | .stateful =>
    match m.allocStatefulFlow c with
    | none => (.outOfMemory, none, m)
    | some (flow, m) =>
      if m.pdfIndex flow = 0 then
        (if m.pds.useDdrMemory then .outOfDdrMemory else .outOfDeviceMemory, none, m)
      else (.ok, some flow, m)

/-- `memory_pool_free_flow` -/
def freeFlow (flow : ℕ) : Allocators :=
  { m with pool := m.pool.memoryPoolFreeFlow flow (m.isStateless flow) }

/-- `memory_pool_alloc_job` -/
def allocJob : Option ℕ × Allocators :=
  match m.pool.memoryPoolAllocJob c.pool with
  | none => (none, m)
  | some (job, pool) => (some job, { m with pool := pool })

/-- `memory_pool_free_job` -/
def freeJob (job : ℕ) : Allocators := { m with pool := m.pool.memoryPoolFreeJob job }

/-- `sysmem_alloc_pd` -/
def allocPd : Option ℕ × Allocators :=
  (m.pds.sysmemAllocPd.1, { m with pds := m.pds.sysmemAllocPd.2 })

/-- `sysmem_free_pd` -/
def freePd (pd : ℕ) : Allocators := { m with pds := m.pds.sysmemFreePd pd }

end Allocators

/-! ## Runs -/

/-- The allocators with what they have handed out and not got back. -/
structure AllocRun where
  m : Allocators
  flows : List ℕ
  jobs : List ℕ
  pds : List ℕ

namespace AllocRun

def start (c : ThreadConfig) : AllocRun := ⟨.attach c, [], [], []⟩

/-- The calls of the allocators. -/
inductive Op
  | createFlow (flowType : NlmFlowType)
  | freeFlow (flow : ℕ)
  | allocJob
  | freeJob (job : ℕ)
  | allocPd
  | freePd (pd : ℕ)

/-- Only live objects are freed. -/
def Legal (s : AllocRun) : Op → Prop
  | .freeFlow flow => flow ∈ s.flows
  | .freeJob job => job ∈ s.jobs
  | .freePd pd => pd ∈ s.pds
  | _ => True

/-- What a call does, whether it succeeds or not. -/
def exec (c : ThreadConfig) (s : AllocRun) : Op → AllocRun
  | .createFlow flowType =>
    let (_, flow, m) := s.m.nlmCreateFlow c flowType
    { s with m := m, flows := flow.toList ++ s.flows }
  | .freeFlow flow => { s with m := s.m.freeFlow flow, flows := s.flows.erase flow }
  | .allocJob =>
    let (job, m) := s.m.allocJob c
    { s with m := m, jobs := job.toList ++ s.jobs }
  | .freeJob job => { s with m := s.m.freeJob job, jobs := s.jobs.erase job }
  | .allocPd =>
    let (pd, m) := s.m.allocPd
    { s with m := m, pds := pd.toList ++ s.pds }
  | .freePd pd => { s with m := s.m.freePd pd, pds := s.pds.erase pd }

inductive Step (c : ThreadConfig) : AllocRun → AllocRun → Prop
  | call {s : AllocRun} {op : Op} (hlegal : s.Legal op) : Step c s (s.exec c op)

def Reachable (c : ThreadConfig) : AllocRun → Prop := Relation.ReflTransGen (Step c) (start c)

theorem Reachable.foldl {c : ThreadConfig} {s : AllocRun} (h : Reachable c s) {ops : List Op}
    (hlegal : ∀ op ∈ ops, ∀ s : AllocRun, s.Legal op) : Reachable c (ops.foldl (exec c) s) := by
  induction ops generalizing s with
  | nil => exact h
  | cons op ops ih =>
    have hfirst : Step c s (s.exec c op) := .call (hlegal op List.mem_cons_self s)
    exact ih (h.tail hfirst) fun op' hop ↦ hlegal op' (List.mem_cons_of_mem op hop)

end AllocRun

end NetL7.Packet
