import NetL7.Packet.Refinement
import Mathlib.Data.List.Nodup

/-!
# Objects in use do not overlap

The allocators of a thread, with PDFs in system memory: whatever calls succeed or
fail, flows, jobs, PDs and PDFs in use lie apart, inside the pool and the chunk of
the thread.
-/

namespace NetL7.Packet.HeapRun

open NetL7.Device NetL7.Lib NlmDeviceConfig AllocRun

/-- The flow has a PDF. -/
def IsStateful (r : HeapRun) (f : ℕ) : Prop := f ∈ r.flows ∧ r.heap.isStateless f = false

/-- The address of the PDF of a flow. -/
def pdfOf (c : ThreadConfig) (r : HeapRun) (f : ℕ) : ℕ := c.pdfAddr (r.heap.pdfIndex f)

/-- Objects of `n` bytes at two addresses do not overlap. -/
def Apart (n a b : ℕ) : Prop := a + n ≤ b ∨ b + n ≤ a

/-- Every slot is in use or on one free list at one place, or neither. -/
def UsedOrFreeOnce (r : HeapRun) : Prop :=
  ∃ stateful stateless jobs pds,
    FreeList r.heap.pool.load r.heap.statefulFlowListHead stateful ∧
    FreeList r.heap.pool.load r.heap.statelessFlowListHead stateless ∧
    FreeList r.heap.pool.load r.heap.jobListHead jobs ∧
    FreeList r.heap.sys.load r.heap.pdListHead pds ∧
    (r.flows ++ (stateful ++ stateless)).Nodup ∧ (r.jobs ++ jobs).Nodup ∧ (r.pds ++ pds).Nodup

/-- What the allocators guarantee. -/
structure Separated (c : ThreadConfig) (r : HeapRun) : Prop where
  flows_apart : r.flows.Pairwise (Apart sizeofNlmFlow)
  jobs_apart : r.jobs.Pairwise (Apart sizeofNlmJob)
  pds_apart : r.pds.Pairwise (Apart sizeofPd)
  pdfs_apart : ∀ f g, r.IsStateful f → r.IsStateful g → f ≠ g →
    Apart sizeofPdf (r.pdfOf c f) (r.pdfOf c g)
  flows_grow : ∀ f ∈ r.flows, c.pool.memoryPool + sizeofNlmDevice ≤ f ∧
    f + sizeofNlmFlow ≤ r.heap.firstFreeFlow ∧ r.heap.firstFreeFlow < r.heap.firstFreeJob
  jobs_grow : ∀ j ∈ r.jobs, j + sizeofNlmJob ≤ c.pool.memoryPool + c.pool.memoryPoolSize ∧
    r.heap.firstFreeJob + sizeofNlmJob ≤ j ∧ r.heap.firstFreeFlow < r.heap.firstFreeJob
  pool_bounds : c.pool.memoryPool + sizeofNlmDevice ≤ r.heap.firstFreeFlow ∧
    r.heap.firstFreeJob + sizeofNlmJob ≤ c.pool.memoryPool + c.pool.memoryPoolSize
  pds_grow : ∀ p ∈ r.pds, c.pdBase + c.chunksize * c.pool.threadId ≤ p ∧
    p + sizeofPd ≤ r.heap.firstFreePd
  pdfs_grow : ∀ f, r.IsStateful f →
    r.pdfOf c f + sizeofPdf ≤ c.pdBase + c.chunksize * (c.pool.threadId + 1) ∧
      r.heap.firstFreePdf + sizeofPdf ≤ r.pdfOf c f
  chunk_bounds : c.pdBase + c.chunksize * c.pool.threadId ≤ r.heap.firstFreePd ∧
    r.heap.firstFreePd ≤ r.heap.firstFreePdf ∧
    r.heap.firstFreePdf + sizeofPdf ≤ c.pdBase + c.chunksize * (c.pool.threadId + 1)
  used_or_free : r.UsedOrFreeOnce
  pdf_given : ∀ f, r.IsStateful f → r.heap.pdfIndex f = r.given f
  pdf_index : ∀ f, r.IsStateful f → 0 < r.heap.pdfIndex f ∧ r.heap.pdfIndex f < 2 ^ 24
  pd_index : ∀ p ∈ r.pds, ∃ i, p = c.pdAddr i ∧ 0 < i ∧ i < 2 ^ 24

variable {c : ThreadConfig} {r : HeapRun} {s : AllocRun} {pool sys : Memory} {f j p : ℕ}

theorem flowBase_ge (c : PoolConfig) : c.memoryPool + sizeofNlmDevice ≤ c.flowBase := by
  unfold PoolConfig.flowBase
  omega

theorem pdStart_ge (c : ThreadConfig) : c.chunkOffset ≤ sizeofPd * c.pdStart := by
  unfold ThreadConfig.pdStart
  split
  · next hzero =>
    simp only [alignUp] at hzero
    omega
  · simp only [alignUp, sizeofPd]
    omega

theorem pdfEnd_mul_le (c : ThreadConfig) :
    sizeofPdf * c.pdfEnd ≤ c.chunkOffset + c.chunksize := by
  unfold ThreadConfig.pdfEnd
  simp only [alignDown, sizeofPdf]
  omega

/-- A PDF of a flow in use was taken from the top of the chunk. -/
theorem Sim.pdf_taken (hddr : c.ddr = none) (h : Sim c r s) (hinv : AllocRun.Inv c s)
    (hf : r.IsStateful f) :
    f ∈ s.flows ∧ s.m.isStateless f = false ∧ r.heap.pdfIndex f = s.m.pdfIndex f ∧
      r.given f = s.m.pdfIndex f ∧ s.m.pds.firstFreePdf < s.m.pdfIndex f ∧
      s.m.pdfIndex f < c.pdfEnd ∧ s.m.pdfIndex f ≠ 0 := by
  obtain ⟨hmem, hkind⟩ := hf
  rw [h.flows_eq] at hmem
  have hkind' : s.m.isStateless f = false :=
    (h.flows.kind f (List.mem_append_left _ hmem)).symm.trans hkind
  obtain ⟨hindex, hgiven⟩ := h.flows.index f (List.mem_append_left _ hmem) hkind'
  obtain ⟨hne, htaken⟩ := hinv.flows.pdf_taken f (List.mem_append_left _ hmem) hkind'
  have hmode : s.m.pds.useDdrMemory = false := by
    rw [hinv.chunk_gap.mode, hddr]
    rfl
  unfold PdfTaken at htaken
  rw [hmode] at htaken
  exact ⟨hmem, hkind', hindex, hgiven, htaken.1, htaken.2, hne⟩

theorem Sim.pool_bounds (hc : c.Accepted) (h : Sim c r s) (hinv : AllocRun.Inv c s) :
    c.pool.memoryPool + sizeofNlmDevice ≤ r.heap.firstFreeFlow ∧
      r.heap.firstFreeJob + sizeofNlmJob ≤ c.pool.memoryPool + c.pool.memoryPoolSize := by
  have hbase := flowBase_ge c.pool
  have hsize := hc.pool_ge
  have hpos := hinv.jobs.first_pos
  have hgap := hinv.pool_gap
  rw [h.first_flow, h.first_job]
  constructor
  · obtain ⟨k, hk⟩ := hinv.flows.first
    omega
  · unfold PoolGap at hgap
    simp only [MemoryPool.jobAddr, PoolConfig.jobBase, sizeofNlmJob, sizeofNlmDevice]
      at hgap hsize ⊢
    omega

theorem Sim.flow_below (h : Sim c r s) (hinv : AllocRun.Inv c s)
    (hf : f ∈ flowSlots s.m.pool s.flows) :
    f + sizeofNlmFlow ≤ r.heap.firstFreeFlow ∧ r.heap.firstFreeFlow < r.heap.firstFreeJob := by
  obtain ⟨k, hk, hle⟩ := hinv.flows.slot f hf
  rw [h.first_flow, h.first_job]
  refine ⟨hle, hinv.pool_gap (.inl ?_)⟩
  simp only [sizeofNlmFlow] at hk hle
  omega

theorem Sim.job_above (h : Sim c r s) (hinv : AllocRun.Inv c s) (hj : j ∈ s.jobs) :
    MemoryPool.jobAddr c.pool j + sizeofNlmJob ≤ c.pool.memoryPool + c.pool.memoryPoolSize ∧
      r.heap.firstFreeJob + sizeofNlmJob ≤ MemoryPool.jobAddr c.pool j ∧
      r.heap.firstFreeFlow < r.heap.firstFreeJob := by
  obtain ⟨hpos, hlt⟩ := hinv.jobs.slot j (List.mem_append_left _ hj)
  have hlow := hinv.pool_gap (.inr (by omega))
  rw [h.first_flow, h.first_job]
  simp only [MemoryPool.jobAddr, PoolConfig.jobBase, sizeofNlmJob] at hlow ⊢
  omega

theorem Sim.used_or_free (h : Sim c r s) (hinv : AllocRun.Inv c s) : r.UsedOrFreeOnce := by
  refine ⟨_, _, _, _, h.flows.stateful, h.flows.stateless, h.jobs, h.pds, ?_, ?_, ?_⟩
  · rw [h.flows_eq]
    exact hinv.flows.nodup
  · rw [h.jobs_eq, ← List.map_append]
    refine List.Nodup.map_on ?_ hinv.jobs.nodup
    intro i hi j hj heq
    by_contra hne
    have happ := Inv.job_apart hinv hi hj hne
    simp only [sizeofNlmJob] at happ
    omega
  · rw [h.pds_eq, ← List.map_append]
    refine List.Nodup.map_on ?_ hinv.pds.nodup
    intro p _ q _ heq
    simp only [ThreadConfig.pdAddr, sizeofPd] at heq
    omega

/-- After every sequence of calls, the objects in use are separated. -/
theorem reachable_separated (hc : c.Accepted) (hddr : c.ddr = none)
    (h : Reachable c pool sys r) : Separated c r := by
  obtain ⟨s, hinv, hsim⟩ := h.sim hc hddr
  have hoffset := chunkOffset_eq hc
  have hstart := pdStart_ge c
  have hend := pdfEnd_mul_le c
  have hlt := hinv.chunk_gap.pdf_lt
  have hgap := hinv.chunk_gap.pd_le
  have hfirst := hinv.pds.first
  have hbound := pdfEnd_le hc hddr
  have hsucc : c.chunksize * (c.pool.threadId + 1) =
      c.chunksize * c.pool.threadId + c.chunksize := Nat.mul_succ ..
  rw [hoffset] at hstart hend
  have hpool := hsim.pool_bounds hc hinv
  refine ⟨?_, ?_, ?_, fun f g hf hg hne ↦ ?_, fun f hf ↦ ?_, fun j hj ↦ ?_, hpool, fun p hp ↦ ?_,
    fun f hf ↦ ?_, ?_, hsim.used_or_free hinv, fun f hf ↦ ?_, fun f hf ↦ ?_, fun p hp ↦ ?_⟩
  · rw [hsim.flows_eq]
    apply (List.nodup_append.mp hinv.flows.nodup).1.imp_of_mem
    intro f g hf hg hne
    exact Inv.slots_apart hinv (List.mem_append_left _ hg) f (List.mem_append_left _ hf) hne
  · rw [hsim.jobs_eq]
    apply List.pairwise_map.mpr
    apply (List.nodup_append.mp hinv.jobs.nodup).1.imp_of_mem
    intro i j hi hj hne
    exact Inv.job_apart hinv (List.mem_append_left _ hi) (List.mem_append_left _ hj) hne
  · rw [hsim.pds_eq]
    apply List.pairwise_map.mpr
    exact (List.nodup_append.mp hinv.pds.nodup).1.imp fun hne ↦ pd_apart c hne
  · obtain ⟨hf, hfkind, hfindex, -⟩ := hsim.pdf_taken hddr hinv hf
    obtain ⟨hg, hgkind, hgindex, -⟩ := hsim.pdf_taken hddr hinv hg
    have hindex : s.m.pdfIndex f ≠ s.m.pdfIndex g := fun heq ↦ hne (hinv.flows.pdf_inj f
      (List.mem_append_left _ hf) g (List.mem_append_left _ hg) hfkind hgkind heq)
    unfold Apart pdfOf
    rw [hfindex, hgindex]
    simp only [ThreadConfig.pdfAddr, sizeofPdf]
    omega
  · rw [hsim.flows_eq] at hf
    have hslot : f ∈ flowSlots s.m.pool s.flows := List.mem_append_left _ hf
    obtain ⟨k, hk, -⟩ := hinv.flows.slot f hslot
    have hbase := flowBase_ge c.pool
    exact ⟨by omega, hsim.flow_below hinv hslot⟩
  · rw [hsim.jobs_eq] at hj
    obtain ⟨i, hi, rfl⟩ := List.mem_map.mp hj
    exact hsim.job_above hinv hi
  · rw [hsim.pds_eq] at hp
    obtain ⟨q, hq, rfl⟩ := List.mem_map.mp hp
    obtain ⟨hle, hqlt, -⟩ := hinv.pds.slot q (List.mem_append_left _ hq)
    rw [hsim.first_pd]
    simp only [ThreadConfig.pdAddr, sizeofPd] at hstart ⊢
    omega
  · obtain ⟨-, -, hindex, -, hlow, hhigh, -⟩ := hsim.pdf_taken hddr hinv hf
    unfold pdfOf
    rw [hindex, hsim.first_pdf, hsucc]
    simp only [ThreadConfig.pdfAddr, sizeofPdf] at hend ⊢
    omega
  · rw [hsim.first_pd, hsim.first_pdf, hsucc]
    simp only [ThreadConfig.pdAddr, ThreadConfig.pdfAddr, sizeofPd, sizeofPdf] at hstart hend ⊢
    omega
  · obtain ⟨-, -, hindex, hgiven, -⟩ := hsim.pdf_taken hddr hinv hf
    exact hindex.trans hgiven.symm
  · obtain ⟨-, -, hindex, -, -, hhigh, hne⟩ := hsim.pdf_taken hddr hinv hf
    rw [hindex]
    exact ⟨Nat.pos_of_ne_zero hne, hhigh.trans_le hbound⟩
  · rw [hsim.pds_eq] at hp
    obtain ⟨q, hq, rfl⟩ := List.mem_map.mp hp
    obtain ⟨hle, -, hbits⟩ := hinv.pds.slot q (List.mem_append_left _ hq)
    exact ⟨q, rfl, (pdStart_pos c).trans_le hle, hbits⟩

/-- A thread that has taken one job more. -/
def withJob (r : HeapRun) : HeapRun :=
  { r with
    heap := r.heap.memoryPoolAllocJob.2
    jobs := r.heap.memoryPoolAllocJob.1.toList ++ r.jobs }

/-- A thread that has taken one PD more. -/
def withPd (r : HeapRun) : HeapRun :=
  { r with
    heap := (r.heap.sysmemAllocPd smallChunk).2
    pds := (r.heap.sysmemAllocPd smallChunk).1.toList ++ r.pds }

/-- Two flows, two jobs and two PDs. -/
def twoOfEach : HeapRun :=
  (((((start smallChunk (fun _ ↦ 7) fun _ ↦ 7).createFlow smallChunk .stateful).createFlow
    smallChunk .stateless).withJob.withPd).withJob).withPd

/-- One of each is given back, and a job is taken again. -/
def oneReused : HeapRun :=
  withJob { twoOfEach with
    heap := ((twoOfEach.heap.memoryPoolFreeFlow 4256).memoryPoolFreeJob 36776).sysmemFreePd 65552
    flows := twoOfEach.flows.erase 4256
    jobs := twoOfEach.jobs.erase 36776
    pds := twoOfEach.pds.erase 65552 }

theorem reachable_oneReused : Reachable smallChunk (fun _ ↦ 7) (fun _ ↦ 7) oneReused := by
  have hflow : Reachable smallChunk (fun _ ↦ 7) (fun _ ↦ 7) _ := .single (.createFlow .stateful)
  have htwo : Reachable smallChunk (fun _ ↦ 7) (fun _ ↦ 7) twoOfEach :=
    ((((hflow.tail (.createFlow .stateless)).tail .allocJob).tail .allocPd).tail .allocJob).tail
      .allocPd
  have hflowMem : 4256 ∈ twoOfEach.flows := by decide +kernel
  have hjob : 36776 ∈ twoOfEach.jobs := by decide +kernel
  have hpd : 65552 ∈ twoOfEach.pds := by decide +kernel
  exact (((htwo.tail (.freeFlow hflowMem)).tail (.freeJob hjob)).tail (.freePd hpd)).tail .allocJob

theorem reachable_separated_sample : oneReused.flows = [4328] ∧
    oneReused.jobs = [36776, 36688] ∧ oneReused.pds = [65568] ∧
      Separated smallChunk oneReused :=
  ⟨by decide +kernel, by decide +kernel, by decide +kernel,
    reachable_separated smallChunk_accepted rfl reachable_oneReused⟩

end NetL7.Packet.HeapRun
