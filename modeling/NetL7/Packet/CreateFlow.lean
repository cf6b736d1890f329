import NetL7.Packet.Separation

/-!
# Failing flow creations

A stateful flow needs a slot in the memory pool and a PDF from the chunk or from
DDR memory. The slot is taken first.
-/

namespace NetL7.Packet

open NetL7.Device NlmDeviceConfig

/-- The free lists, the bump pointers and the PDF counter are the same. -/
def Allocators.SameFree (m' m : Allocators) : Prop := m'.pool = m.pool ∧ m'.pds = m.pds

/-- `nlm_create_flow` found no memory. -/
def OutOfFlowMemory (status : NlmStatus) : Prop :=
  status = .outOfMemory ∨ status = .outOfDeviceMemory ∨ status = .outOfDdrMemory

/-- No PDF is left. -/
def PdPool.NoPdf (m : PdPool) : Prop :=
  if m.useDdrMemory then m.maxPdfIndex ≤ m.currentPdfIndex
  else sizeofPdf * (m.firstFreePdf - 1) ≤ sizeofPd * m.firstFreePd

instance (m : PdPool) : Decidable m.NoPdf := inferInstanceAs (Decidable (ite _ _ _))

/-- There is a slot for a stateful flow that was never used, but no PDF. -/
def Allocators.SlotWithoutPdf (c : ThreadConfig) (m : Allocators) : Prop :=
  m.pool.statefulFlowList = [] ∧
    m.pool.firstFreeFlow + sizeofNlmFlow < MemoryPool.jobAddr c.pool m.pool.firstFreeJob ∧
    m.pds.NoPdf

namespace AllocRun

variable {c : ThreadConfig} {s : AllocRun}

theorem sysmemAllocPdf_of_noPdf {m : PdPool} (h : m.NoPdf) : m.sysmemAllocPdf = (0, m) := by
  unfold PdPool.NoPdf at h
  unfold PdPool.sysmemAllocPdf
  split
  · next hddr =>
    rw [if_pos hddr] at h
    exact if_neg (Nat.not_lt.mpr h)
  · next hddr =>
    rw [if_neg hddr] at h
    exact if_pos h

theorem sysmemAllocPdf_ne_zero {m : PdPool} (hgap : ChunkGap c m) (h : ¬ m.NoPdf) :
    m.sysmemAllocPdf.1 ≠ 0 := by
  unfold PdPool.NoPdf at h
  unfold PdPool.sysmemAllocPdf
  split
  · next hddr =>
    rw [if_pos hddr] at h
    rw [if_pos (Nat.not_le.mp h)]
    exact Nat.ne_of_gt (hgap.ddr hddr)
  · next hddr =>
    rw [if_neg hddr] at h
    rw [if_neg h]
    intro hzero
    change m.firstFreePdf = 0 at hzero
    rw [hzero] at h
    exact h (Nat.zero_le _)

theorem createFlow_of_slotWithoutPdf (h : s.m.SlotWithoutPdf c) :
    OutOfFlowMemory (s.m.nlmCreateFlow c .stateful).1 ∧
      (s.m.nlmCreateFlow c .stateful).2.2.pool.firstFreeFlow =
        s.m.pool.firstFreeFlow + sizeofNlmFlow := by
  obtain ⟨hlist, hroom, hpdf⟩ := h
  have halloc : s.m.pool.memoryPoolAllocFlow c.pool .stateful = some (s.m.pool.firstFreeFlow,
      { s.m.pool with firstFreeFlow := s.m.pool.firstFreeFlow + sizeofNlmFlow }) := by
    have hfresh : s.m.pool.allocFreshFlow c.pool = some (s.m.pool.firstFreeFlow,
        { s.m.pool with firstFreeFlow := s.m.pool.firstFreeFlow + sizeofNlmFlow }) :=
      if_neg (Nat.not_le.mpr hroom)
    rw [← hfresh]
    simp only [MemoryPool.memoryPoolAllocFlow, hlist]
  simp only [Allocators.nlmCreateFlow, Allocators.allocStatefulFlow, halloc, hlist,
    Option.map_some, sysmemAllocPdf_of_noPdf hpdf, Function.update_self, if_true]
  refine ⟨?_, trivial⟩
  cases s.m.pds.useDdrMemory with
  | true => exact .inr (.inr rfl)
  | false => exact .inr (.inl rfl)

theorem createFlow_of_not_slotWithoutPdf (h : Inv c s) (hslot : ¬ s.m.SlotWithoutPdf c)
    (hout : OutOfFlowMemory (s.m.nlmCreateFlow c .stateful).1) :
    (s.m.nlmCreateFlow c .stateful).2.2 = s.m := by
  revert hout
  simp only [Allocators.nlmCreateFlow, Allocators.allocStatefulFlow]
  cases halloc : s.m.pool.memoryPoolAllocFlow c.pool .stateful with
  | none => exact fun _ ↦ rfl
  | some r =>
    obtain ⟨flow, pool⟩ := r
    obtain ⟨fs, hlist, rfl⟩ | ⟨hlist, rfl, hroom, rfl⟩ := allocStatefulFlow_cases halloc
    · have hmem : flow ∈ s.m.pool.statefulFlowList := by
        rw [hlist]
        exact List.mem_cons_self
      have hindex := (h.flows.pdf_taken flow (List.mem_append_right _ hmem)
        (h.flows.stateful_kind flow hmem)).1
      simp only [Option.map_some, hlist, if_neg hindex]
      rintro (hout | hout | hout) <;> cases hout
    · have hindex := sysmemAllocPdf_ne_zero h.chunk_gap fun hpdf ↦ hslot ⟨hlist, hroom, hpdf⟩
      simp only [Option.map_some, hlist, Function.update_self, if_neg hindex]
      rintro (hout | hout | hout) <;> cases hout

theorem createStateless_of_out (hout : OutOfFlowMemory (s.m.nlmCreateFlow c .stateless).1) :
    (s.m.nlmCreateFlow c .stateless).2.2 = s.m := by
  revert hout
  simp only [Allocators.nlmCreateFlow]
  cases s.m.allocStatelessFlow c with
  | none => exact fun _ ↦ rfl
  | some r => rintro (hout | hout | hout) <;> cases hout

/-- A creation that finds no memory leaves the allocators alone exactly if it is
not for a stateful flow with a slot but without a PDF. -/
theorem createFlow_atomic_iff (hc : c.Accepted) (hreach : Reachable c s) (flowType : NlmFlowType) :
    (OutOfFlowMemory (s.m.nlmCreateFlow c flowType).1 →
      (s.m.nlmCreateFlow c flowType).2.2.SameFree s.m) ↔
    ¬ (flowType = .stateful ∧ s.m.SlotWithoutPdf c) := by
  have h := hreach.inv hc
  have hsame : ∀ {m : Allocators}, m = s.m → m.SameFree s.m := by
    rintro m rfl
    exact ⟨rfl, rfl⟩
  cases flowType with
  | invalid =>
    exact ⟨fun _ hstateful ↦ (by cases hstateful.1), fun _ _ ↦ hsame rfl⟩
  | stateless =>
    exact ⟨fun _ hstateful ↦ (by cases hstateful.1),
      fun _ hout ↦ hsame (createStateless_of_out hout)⟩
  | stateful =>
    constructor
    · rintro hatomic ⟨-, hslot⟩
      obtain ⟨hout, hfirst⟩ := createFlow_of_slotWithoutPdf hslot
      have hsame := (hatomic hout).1
      rw [hsame] at hfirst
      simp only [sizeofNlmFlow] at hfirst
      omega
    · intro hslot hout
      exact hsame (createFlow_of_not_slotWithoutPdf h (fun hs ↦ hslot ⟨rfl, hs⟩) hout)

/-- A stateful flow and 368 jobs fill the pool. -/
def fullPool : AllocRun :=
  (.createFlow .stateful :: List.replicate 368 .allocJob).foldl (exec smallChunk)
    (start smallChunk)

theorem reachable_fullPool : Reachable smallChunk fullPool := by
  refine Reachable.foldl .refl fun op hop s ↦ ?_
  obtain rfl | hop := List.mem_cons.mp hop
  · trivial
  · rw [List.eq_of_mem_replicate hop]
    trivial

/-- The creation of another stateful flow finds no slot and leaves the pool alone. -/
theorem createFlow_atomic_iff_full :
    (fullPool.m.nlmCreateFlow smallChunk .stateful).1 = .outOfMemory ∧
      (fullPool.m.nlmCreateFlow smallChunk .stateful).2.2.SameFree fullPool.m := by
  have hout : (fullPool.m.nlmCreateFlow smallChunk .stateful).1 = .outOfMemory := by
    decide +kernel
  refine ⟨hout, (createFlow_atomic_iff smallChunk_accepted reachable_fullPool .stateful).mpr ?_
    (.inl hout)⟩
  rintro ⟨-, -, hroom, -⟩
  exact absurd hroom (by decide +kernel)

/-- Two stateful flows take the PDFs of the chunk; the creation of a third one
fails and takes a slot. -/
theorem thirdFlow_loses_slot : ∃ s, Reachable smallChunk s ∧
    (s.m.nlmCreateFlow smallChunk .stateful).1 = .outOfDeviceMemory ∧
    ¬ (s.m.nlmCreateFlow smallChunk .stateful).2.2.SameFree s.m := by
  refine ⟨((start smallChunk).exec smallChunk (.createFlow .stateful)).exec smallChunk
    (.createFlow .stateful), ?_, rfl, fun hsame ↦ ?_⟩
  · exact (Relation.ReflTransGen.refl.tail (.call trivial)).tail (.call trivial)
  · have hfirst := congrArg MemoryPool.firstFreeFlow hsame.1
    exact absurd hfirst (by decide)

end AllocRun

end NetL7.Packet
