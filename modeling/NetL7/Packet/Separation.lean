import NetL7.Packet.Allocators

/-!
# What the allocators hand out

An invariant of the allocators of a thread: every slot below the first free one is
live, free or lost, and never more than one of these, and the two ends of the pool
and of the chunk do not meet.
-/

namespace NetL7.Packet

open NetL7.Device NlmDeviceConfig

/-- A pool and a chunk as the initialisation leaves them. Pools have room for the
handle, chunks for 32 PDs; with PDFs in system memory the chunks of all threads
have less than `2 ^ 31` bytes. -/
structure ThreadConfig.Accepted (c : ThreadConfig) : Prop where
  pool_aligned : c.pool.memoryPool % 8 = 0
  pool_ge : sizeofNlmDevice ≤ c.pool.memoryPoolSize
  base_aligned : c.pdBase % 128 = 0
  chunk_ge : 32 * sizeofPd ≤ c.chunksize
  chunk_lt : c.chunksize * (c.pool.threadId + 1) < 2 ^ 32
  sysmem_lt : c.ddr = none → c.chunksize * (c.pool.threadId + 1) < 2 ^ 31
  ddr_aligned : ∀ area, c.ddr = some area → area.ddrChunksize % 128 = 0

/-- A flow slot below `firstFreeFlow`. -/
def FlowSlot (c : PoolConfig) (firstFreeFlow flow : ℕ) : Prop :=
  ∃ k, flow = c.flowBase + sizeofNlmFlow * k ∧ flow + sizeofNlmFlow ≤ firstFreeFlow

/-- The PDF indices that a thread has handed out. -/
def PdfTaken (c : ThreadConfig) (m : PdPool) (q : ℕ) : Prop :=
  if m.useDdrMemory then 0 < q ∧ q < m.currentPdfIndex else m.firstFreePdf < q ∧ q < c.pdfEnd

namespace AllocRun

/-- The slots of flows. -/
def flowSlots (m : MemoryPool) (flows : List ℕ) : List ℕ :=
  flows ++ (m.statefulFlowList ++ m.statelessFlowList)

structure FlowInv (c : ThreadConfig) (m : Allocators) (flows : List ℕ) : Prop where
  nodup : (flowSlots m.pool flows).Nodup
  slot : ∀ f ∈ flowSlots m.pool flows, FlowSlot c.pool m.pool.firstFreeFlow f
  first : ∃ k, m.pool.firstFreeFlow = c.pool.flowBase + sizeofNlmFlow * k
  stateful_kind : ∀ f ∈ m.pool.statefulFlowList, m.isStateless f = false
  stateless_kind : ∀ f ∈ m.pool.statelessFlowList, m.isStateless f = true
  pdf_taken : ∀ f ∈ flows ++ m.pool.statefulFlowList, m.isStateless f = false →
    m.pdfIndex f ≠ 0 ∧ PdfTaken c m.pds (m.pdfIndex f)
  pdf_inj : ∀ f ∈ flows ++ m.pool.statefulFlowList, ∀ g ∈ flows ++ m.pool.statefulFlowList,
    m.isStateless f = false → m.isStateless g = false → m.pdfIndex f = m.pdfIndex g → f = g

structure JobInv (m : MemoryPool) (jobs : List ℕ) : Prop where
  nodup : (jobs ++ m.jobList).Nodup
  slot : ∀ j ∈ jobs ++ m.jobList, 0 < j ∧ j < m.firstFreeJob
  first_pos : 0 < m.firstFreeJob

structure PdInv (c : ThreadConfig) (m : PdPool) (pds : List ℕ) : Prop where
  nodup : (pds ++ m.pdList).Nodup
  slot : ∀ p ∈ pds ++ m.pdList, c.pdStart ≤ p ∧ p < m.firstFreePd ∧ p < 2 ^ 24
  first : c.pdStart ≤ m.firstFreePd

/-- As soon as anything is allocated, the flows end below the jobs. -/
def PoolGap (c : PoolConfig) (m : MemoryPool) : Prop :=
  c.flowBase < m.firstFreeFlow ∨ 1 < m.firstFreeJob →
    m.firstFreeFlow < MemoryPool.jobAddr c m.firstFreeJob

/-- The PDs end below the PDFs. -/
structure ChunkGap (c : ThreadConfig) (m : PdPool) : Prop where
  pd_le : m.firstFreePd ≤ 8 * m.firstFreePdf
  pdf_lt : m.firstFreePdf < c.pdfEnd
  ddr : m.useDdrMemory = true → 0 < m.currentPdfIndex
  mode : m.useDdrMemory = c.ddr.isSome

structure Inv (c : ThreadConfig) (s : AllocRun) : Prop where
  flows : FlowInv c s.m s.flows
  jobs : JobInv s.m.pool s.jobs
  pds : PdInv c s.m.pds s.pds
  pool_gap : PoolGap c.pool s.m.pool
  chunk_gap : ChunkGap c s.m.pds

variable {c : ThreadConfig} {s s' : AllocRun} {m m' : Allocators} {flows jobs pds : List ℕ}
  {flow job pd q : ℕ}

/-! ## The start -/

theorem chunkOffset_eq (hc : c.Accepted) : c.chunkOffset = c.chunksize * c.pool.threadId := by
  have hlt := hc.chunk_lt
  have hle : c.chunksize * c.pool.threadId ≤ c.chunksize * (c.pool.threadId + 1) :=
    Nat.mul_le_mul_left _ (Nat.le_succ _)
  exact Nat.mod_eq_of_lt (hle.trans_lt hlt)

theorem pdStart_le (hc : c.Accepted) : c.pdStart ≤ 8 * (c.pdfEnd - 1) ∧ 0 < c.pdfEnd := by
  have hge := hc.chunk_ge
  simp only [sizeofPd] at hge
  unfold ThreadConfig.pdStart ThreadConfig.pdfEnd
  split <;> simp only [alignUp, alignDown, sizeofPd, sizeofPdf] <;> omega

theorem pdStart_pos (c : ThreadConfig) : 0 < c.pdStart := by
  unfold ThreadConfig.pdStart
  split
  · decide
  · next hne =>
    simp only [alignUp, sizeofPd] at hne ⊢
    omega

theorem currentPdfIndex_pos {area : DdrArea} (harea : area.ddrChunksize % 128 = 0) (i : ℕ) :
    0 < (pdfIndices area i).currentPdfIndex := by
  have hmul : area.ddrChunksize * i % 2 ^ 32 % 128 = 0 := by
    rw [Nat.mod_mod_of_dvd _ (by decide), Nat.mul_mod, harea, Nat.zero_mul, Nat.zero_mod]
  change 0 < if area.ddrChunksize * i % 2 ^ 32 = 0 then _ else _
  split <;> simp only [sizeofPdf] <;> omega

theorem inv_start (hc : c.Accepted) : Inv c (start c) where
  flows :=
    { nodup := List.nodup_nil
      slot := fun _ hf ↦ absurd hf List.not_mem_nil
      first := ⟨0, rfl⟩
      stateful_kind := fun _ hf ↦ absurd hf List.not_mem_nil
      stateless_kind := fun _ hf ↦ absurd hf List.not_mem_nil
      pdf_taken := fun _ hf ↦ absurd hf List.not_mem_nil
      pdf_inj := fun _ hf ↦ absurd hf List.not_mem_nil }
  jobs := ⟨List.nodup_nil, fun _ hj ↦ absurd hj List.not_mem_nil, Nat.one_pos⟩
  pds := ⟨List.nodup_nil, fun _ hp ↦ absurd hp List.not_mem_nil, le_rfl⟩
  pool_gap := fun h ↦ absurd h (not_or.mpr ⟨lt_irrefl _, lt_irrefl _⟩)
  chunk_gap := by
    obtain ⟨hle, hpos⟩ := pdStart_le hc
    refine ⟨hle, Nat.sub_lt hpos Nat.one_pos, fun hddr ↦ ?_, rfl⟩
    change c.ddr.isSome = true at hddr
    obtain ⟨area, harea⟩ := Option.isSome_iff_exists.mp hddr
    change 0 < c.ddr.elim 0 fun area ↦ (pdfIndices area c.pool.threadId).currentPdfIndex
    rw [harea]
    exact currentPdfIndex_pos (hc.ddr_aligned area harea) _

/-! ## Flows -/

theorem allocStatelessFlow_cases {c : PoolConfig} {m m' : MemoryPool}
    (h : m.memoryPoolAllocFlow c .stateless = some (flow, m')) :
    (∃ fs, m.statelessFlowList = flow :: fs ∧ m' = { m with statelessFlowList := fs }) ∨
    (flow = m.firstFreeFlow ∧
      m.firstFreeFlow + sizeofNlmFlow < MemoryPool.jobAddr c m.firstFreeJob ∧
      m' = { m with firstFreeFlow := m.firstFreeFlow + sizeofNlmFlow }) := by
  unfold MemoryPool.memoryPoolAllocFlow at h
  cases hlist : m.statelessFlowList with
  | cons f fs =>
    simp only [hlist, Option.some.injEq, Prod.mk.injEq] at h
    obtain ⟨rfl, rfl⟩ := h
    exact .inl ⟨fs, rfl, rfl⟩
  | nil =>
    simp only [hlist, MemoryPool.allocFreshFlow] at h
    split at h
    · cases h
    · next hroom =>
      cases h
      exact .inr ⟨rfl, Nat.lt_of_not_le hroom, rfl⟩

theorem allocStatefulFlow_cases {c : PoolConfig} {m m' : MemoryPool}
    (h : m.memoryPoolAllocFlow c .stateful = some (flow, m')) :
    (∃ fs, m.statefulFlowList = flow :: fs ∧ m' = { m with statefulFlowList := fs }) ∨
    (m.statefulFlowList = [] ∧ flow = m.firstFreeFlow ∧
      m.firstFreeFlow + sizeofNlmFlow < MemoryPool.jobAddr c m.firstFreeJob ∧
      m' = { m with firstFreeFlow := m.firstFreeFlow + sizeofNlmFlow }) := by
  unfold MemoryPool.memoryPoolAllocFlow at h
  cases hlist : m.statefulFlowList with
  | cons f fs =>
    simp only [hlist, Option.some.injEq, Prod.mk.injEq] at h
    obtain ⟨rfl, rfl⟩ := h
    exact .inl ⟨fs, rfl, rfl⟩
  | nil =>
    simp only [hlist, MemoryPool.allocFreshFlow] at h
    split at h
    · cases h
    · next hroom =>
      cases h
      exact .inr ⟨rfl, rfl, Nat.lt_of_not_le hroom, rfl⟩

/-- A PDF index is new, or 0 when there is none left. -/
theorem sysmemAllocPdf_cases {m : PdPool} (h : ChunkGap c m) :
    (m.sysmemAllocPdf = (0, m)) ∨
    (m.sysmemAllocPdf.1 ≠ 0 ∧ PdfTaken c m.sysmemAllocPdf.2 m.sysmemAllocPdf.1 ∧
      ¬ PdfTaken c m m.sysmemAllocPdf.1 ∧
      (∀ q, PdfTaken c m q → PdfTaken c m.sysmemAllocPdf.2 q) ∧
      ChunkGap c m.sysmemAllocPdf.2 ∧ m.sysmemAllocPdf.2.pdList = m.pdList ∧
      m.sysmemAllocPdf.2.firstFreePd = m.firstFreePd) := by
  have hend := h.pdf_lt
  have hle := h.pd_le
  cases hddr : m.useDdrMemory with
  | true =>
    have hpos := h.ddr hddr
    simp only [PdPool.sysmemAllocPdf, PdfTaken, hddr, if_true]
    split
    · right
      refine ⟨Nat.ne_of_gt hpos, ⟨hpos, Nat.lt_succ_self _⟩, fun hlt ↦ lt_irrefl _ hlt.2,
        fun q hq ↦ ⟨hq.1, hq.2.trans (Nat.lt_succ_self _)⟩, ?_, rfl, rfl⟩
      exact ⟨hle, hend, fun _ ↦ Nat.succ_pos _, hddr.symm.trans h.mode⟩
    · exact .inl rfl
  | false =>
    simp only [PdPool.sysmemAllocPdf, PdfTaken, hddr, Bool.false_eq_true, if_false]
    split
    · exact .inl rfl
    · next hroom =>
      simp only [sizeofPdf, sizeofPd] at hroom
      right
      refine ⟨by omega, ⟨Nat.sub_lt (by omega) Nat.one_pos, hend⟩, fun hlt ↦ lt_irrefl _ hlt.1,
        fun q hq ↦ ⟨(Nat.sub_le _ _).trans_lt hq.1, hq.2⟩, ?_, rfl, rfl⟩
      refine ⟨?_, (Nat.sub_le _ _).trans_lt hend, fun htrue ↦ ?_, hddr.symm.trans h.mode⟩
      · change m.firstFreePd ≤ 8 * (m.firstFreePdf - 1)
        omega
      · cases htrue

theorem sysmemAllocPdf_pds (m : PdPool) :
    m.sysmemAllocPdf.2.pdList = m.pdList ∧ m.sysmemAllocPdf.2.firstFreePd = m.firstFreePd := by
  unfold PdPool.sysmemAllocPdf
  split
  · split <;> exact ⟨rfl, rfl⟩
  · split <;> exact ⟨rfl, rfl⟩

theorem FlowInv.first_not_mem (h : FlowInv c m flows) :
    m.pool.firstFreeFlow ∉ flowSlots m.pool flows := by
  intro hmem
  obtain ⟨-, -, hle⟩ := h.slot _ hmem
  simp only [sizeofNlmFlow] at hle
  omega

theorem mem_flowSlots_left {m : MemoryPool} {f : ℕ} (hf : f ∈ flows ++ m.statefulFlowList) :
    f ∈ flowSlots m flows := by
  cases List.mem_append.mp hf with
  | inl hf => exact List.mem_append_left _ hf
  | inr hf => exact List.mem_append_right _ (List.mem_append_left _ hf)

/-- A slot is taken from the end of the flows, and lost. -/
theorem FlowInv.lose (h : FlowInv c m flows) {pds : PdPool}
    (hpds : ∀ q, PdfTaken c m.pds q → PdfTaken c pds q) (index : ℕ) (kind : Bool) :
    FlowInv c
      { m with
        pool := { m.pool with firstFreeFlow := m.pool.firstFreeFlow + sizeofNlmFlow }
        pds := pds
        pdfIndex := Function.update m.pdfIndex m.pool.firstFreeFlow index
        isStateless := Function.update m.isStateless m.pool.firstFreeFlow kind } flows := by
  have hfresh := h.first_not_mem
  have hkind : ∀ f ∈ flowSlots m.pool flows,
      Function.update m.isStateless m.pool.firstFreeFlow kind f = m.isStateless f := fun f hf ↦
    Function.update_of_ne (ne_of_mem_of_not_mem hf hfresh) ..
  have hindex : ∀ f ∈ flowSlots m.pool flows,
      Function.update m.pdfIndex m.pool.firstFreeFlow index f = m.pdfIndex f := fun f hf ↦
    Function.update_of_ne (ne_of_mem_of_not_mem hf hfresh) ..
  refine ⟨h.nodup, fun f hf ↦ ?_, ?_, fun f hf ↦ ?_, fun f hf ↦ ?_, fun f hf hf' ↦ ?_,
    fun f hf g hg hf' hg' heq ↦ ?_⟩
  · obtain ⟨k, hk, hle⟩ := h.slot f hf
    exact ⟨k, hk, hle.trans (Nat.le_add_right _ _)⟩
  · obtain ⟨k, hk⟩ := h.first
    refine ⟨k + 1, ?_⟩
    rw [Nat.mul_succ, ← Nat.add_assoc, ← hk]
  · exact (hkind f (mem_flowSlots_left (List.mem_append_right _ hf))).trans (h.stateful_kind f hf)
  · have hslot : f ∈ flowSlots m.pool flows :=
      List.mem_append_right _ (List.mem_append_right _ hf)
    exact (hkind f hslot).trans (h.stateless_kind f hf)
  · have hslot := mem_flowSlots_left hf
    have htaken := h.pdf_taken f hf ((hkind f hslot).symm.trans hf')
    change Function.update m.pdfIndex _ index f ≠ 0 ∧
      PdfTaken c pds (Function.update m.pdfIndex _ index f)
    rw [hindex f hslot]
    exact ⟨htaken.1, hpds _ htaken.2⟩
  · have hslot := mem_flowSlots_left hf
    have hslot' := mem_flowSlots_left hg
    apply h.pdf_inj f hf g hg ((hkind f hslot).symm.trans hf') ((hkind g hslot').symm.trans hg')
    rw [← hindex f hslot, ← hindex g hslot']
    exact heq

theorem FlowInv.fresh (h : FlowInv c m flows) {pds : PdPool}
    (hpds : ∀ q, PdfTaken c m.pds q → PdfTaken c pds q) {index : ℕ} (kind : Bool)
    (hindex : kind = false → index ≠ 0 ∧ PdfTaken c pds index ∧ ¬ PdfTaken c m.pds index) :
    FlowInv c
      { m with
        pool := { m.pool with firstFreeFlow := m.pool.firstFreeFlow + sizeofNlmFlow }
        pds := pds
        pdfIndex := Function.update m.pdfIndex m.pool.firstFreeFlow index
        isStateless := Function.update m.isStateless m.pool.firstFreeFlow kind }
      (m.pool.firstFreeFlow :: flows) := by
  have hlose := h.lose hpds index kind
  have hfresh := h.first_not_mem
  have hself :
      Function.update m.isStateless m.pool.firstFreeFlow kind m.pool.firstFreeFlow = kind :=
    Function.update_self ..
  have hpdf : Function.update m.pdfIndex m.pool.firstFreeFlow index m.pool.firstFreeFlow = index :=
    Function.update_self ..
  have hold : ∀ f ∈ flows ++ m.pool.statefulFlowList,
      Function.update m.isStateless m.pool.firstFreeFlow kind f = false →
      PdfTaken c m.pds (Function.update m.pdfIndex m.pool.firstFreeFlow index f) := by
    intro f hf hkind
    have hne : f ≠ m.pool.firstFreeFlow := ne_of_mem_of_not_mem (mem_flowSlots_left hf) hfresh
    rw [Function.update_of_ne hne] at hkind ⊢
    exact (h.pdf_taken f hf hkind).2
  refine ⟨List.nodup_cons.mpr ⟨hfresh, h.nodup⟩, fun f hf ↦ ?_, hlose.first, hlose.stateful_kind,
    hlose.stateless_kind, fun f hf hf' ↦ ?_, fun f hf g hg hf' hg' heq ↦ ?_⟩
  · cases List.mem_cons.mp hf with
    | inl heq =>
      obtain ⟨k, hk⟩ := h.first
      exact ⟨k, heq.trans hk, by rw [heq]⟩
    | inr hf => exact hlose.slot f hf
  · cases List.mem_cons.mp hf with
    | inl heq =>
      subst heq
      have hnew := hindex (hself.symm.trans hf')
      change Function.update m.pdfIndex _ index _ ≠ 0 ∧
        PdfTaken c pds (Function.update m.pdfIndex _ index _)
      rw [hpdf]
      exact ⟨hnew.1, hnew.2.1⟩
    | inr hf => exact hlose.pdf_taken f hf hf'
  · -- the new index differs from all that were handed out before
    change Function.update m.pdfIndex _ index f = Function.update m.pdfIndex _ index g at heq
    cases List.mem_cons.mp hf with
    | inl hfirst =>
      subst hfirst
      have hnew := (hindex (hself.symm.trans hf')).2.2
      cases List.mem_cons.mp hg with
      | inl hfirst' => exact hfirst'.symm
      | inr hg =>
        rw [← hpdf, heq] at hnew
        exact absurd (hold g hg hg') hnew
    | inr hf =>
      cases List.mem_cons.mp hg with
      | inl hfirst =>
        subst hfirst
        have hnew := (hindex (hself.symm.trans hg')).2.2
        rw [← hpdf, ← heq] at hnew
        exact absurd (hold f hf hf') hnew
      | inr hg => exact hlose.pdf_inj f hf g hg hf' hg' heq

theorem FlowInv.rearrange (h : FlowInv c m flows) {pool : MemoryPool} {flows' : List ℕ}
    {pdfIndex : ℕ → ℕ} (hperm : (flowSlots pool flows').Perm (flowSlots m.pool flows))
    (hfirst : pool.firstFreeFlow = m.pool.firstFreeFlow)
    (hstateful : ∀ f ∈ pool.statefulFlowList, m.isStateless f = false)
    (hstateless : ∀ f ∈ pool.statelessFlowList, m.isStateless f = true)
    (hpdf : ∀ f, m.isStateless f = false → pdfIndex f = m.pdfIndex f) :
    FlowInv c { m with pool := pool, pdfIndex := pdfIndex } flows' := by
  have hmem : ∀ f ∈ flows' ++ pool.statefulFlowList, m.isStateless f = false →
      f ∈ flows ++ m.pool.statefulFlowList := by
    intro f hf hkind
    have hslot := hperm.mem_iff.mp (mem_flowSlots_left hf)
    cases List.mem_append.mp hslot with
    | inl hlive => exact List.mem_append_left _ hlive
    | inr hfree =>
      cases List.mem_append.mp hfree with
      | inl hlist => exact List.mem_append_right _ hlist
      | inr hlist => exact absurd ((h.stateless_kind f hlist).symm.trans hkind) (by decide)
  refine ⟨hperm.nodup_iff.mpr h.nodup, fun f hf ↦ ?_, ?_, hstateful, hstateless,
    fun f hf hf' ↦ ?_, fun f hf g hg hf' hg' heq ↦ ?_⟩
  · change FlowSlot c.pool pool.firstFreeFlow f
    rw [hfirst]
    exact h.slot f (hperm.mem_iff.mp hf)
  · obtain ⟨k, hk⟩ := h.first
    exact ⟨k, hfirst.trans hk⟩
  · have htaken := h.pdf_taken f (hmem f hf hf') hf'
    rw [← hpdf f hf'] at htaken
    exact htaken
  · apply h.pdf_inj f (hmem f hf hf') g (hmem g hg hg') hf' hg'
    rw [← hpdf f hf', ← hpdf g hg']
    exact heq

/-- A free stateful flow is handed out again, with its PDF. -/
theorem FlowInv.recycleStateful (h : FlowInv c m flows) {fs : List ℕ}
    (hlist : m.pool.statefulFlowList = flow :: fs) :
    FlowInv c
      { m with
        pool := { m.pool with statefulFlowList := fs }
        isStateless := Function.update m.isStateless flow false } (flow :: flows) := by
  have hsub : ∀ f ∈ fs, f ∈ m.pool.statefulFlowList := fun f hf ↦ by
    rw [hlist]
    exact List.mem_cons_of_mem _ hf
  have hkind : m.isStateless flow = false := by
    apply h.stateful_kind
    rw [hlist]
    exact List.mem_cons_self
  have hsame : Function.update m.isStateless flow false = m.isStateless := by
    rw [← hkind]
    exact Function.update_eq_self flow m.isStateless
  rw [hsame]
  refine h.rearrange ?_ rfl (fun f hf ↦ h.stateful_kind f (hsub f hf)) h.stateless_kind
    fun _ _ ↦ rfl
  change (flow :: (flows ++ (fs ++ m.pool.statelessFlowList))).Perm (flowSlots m.pool flows)
  rw [flowSlots, hlist]
  exact List.perm_middle.symm

theorem FlowInv.recycleStateless (h : FlowInv c m flows) {fs : List ℕ}
    (hlist : m.pool.statelessFlowList = flow :: fs) :
    FlowInv c
      { m with
        pool := { m.pool with statelessFlowList := fs }
        pdfIndex := Function.update m.pdfIndex flow 0
        isStateless := Function.update m.isStateless flow true } (flow :: flows) := by
  have hsub : ∀ f ∈ fs, f ∈ m.pool.statelessFlowList := fun f hf ↦ by
    rw [hlist]
    exact List.mem_cons_of_mem _ hf
  have hkind : m.isStateless flow = true := by
    apply h.stateless_kind
    rw [hlist]
    exact List.mem_cons_self
  have hsame : Function.update m.isStateless flow true = m.isStateless := by
    rw [← hkind]
    exact Function.update_eq_self flow m.isStateless
  rw [hsame]
  refine h.rearrange ?_ rfl h.stateful_kind (fun f hf ↦ h.stateless_kind f (hsub f hf))
    fun f hf ↦ Function.update_of_ne (fun heq ↦ ?_) ..
  · change (flow :: (flows ++ (m.pool.statefulFlowList ++ fs))).Perm (flowSlots m.pool flows)
    rw [flowSlots, hlist, ← List.append_assoc, ← List.append_assoc]
    exact List.perm_middle.symm
  · rw [heq, hkind] at hf
    cases hf

theorem FlowInv.free (h : FlowInv c m flows) (hflow : flow ∈ flows) :
    FlowInv c (m.freeFlow flow) (flows.erase flow) := by
  have hperm : (flow :: (flows.erase flow ++
      (m.pool.statefulFlowList ++ m.pool.statelessFlowList))).Perm (flowSlots m.pool flows) :=
    (List.perm_cons_erase hflow).symm.append_right _
  unfold Allocators.freeFlow MemoryPool.memoryPoolFreeFlow
  cases hkind : m.isStateless flow with
  | false =>
    refine h.rearrange (List.perm_middle.trans hperm) rfl (fun f hf ↦ ?_) h.stateless_kind
      fun _ _ ↦ rfl
    cases List.mem_cons.mp hf with
    | inl heq => exact heq ▸ hkind
    | inr hf => exact h.stateful_kind f hf
  | true =>
    refine h.rearrange ?_ rfl h.stateful_kind (fun f hf ↦ ?_) fun _ _ ↦ rfl
    · change (flows.erase flow ++
        (m.pool.statefulFlowList ++ flow :: m.pool.statelessFlowList)).Perm _
      rw [← List.append_assoc] at hperm ⊢
      exact List.perm_middle.trans hperm
    · cases List.mem_cons.mp hf with
      | inl heq => exact heq ▸ hkind
      | inr hf => exact h.stateless_kind f hf

/-! ## Jobs and PDs -/

theorem memoryPoolAllocJob_cases {c : PoolConfig} {m m' : MemoryPool}
    (h : m.memoryPoolAllocJob c = some (job, m')) :
    (∃ js, m.jobList = job :: js ∧ m' = { m with jobList := js }) ∨
    (m.jobList = [] ∧ job = m.firstFreeJob ∧
      m.firstFreeFlow < MemoryPool.jobAddr c (m.firstFreeJob + 1) ∧
      m' = { m with firstFreeJob := m.firstFreeJob + 1 }) := by
  unfold MemoryPool.memoryPoolAllocJob at h
  cases hlist : m.jobList with
  | cons j js =>
    simp only [hlist, Option.some.injEq, Prod.mk.injEq] at h
    obtain ⟨rfl, rfl⟩ := h
    exact .inl ⟨js, rfl, rfl⟩
  | nil =>
    simp only [hlist] at h
    split at h
    · cases h
    · next hroom =>
      cases h
      exact .inr ⟨rfl, rfl, Nat.lt_of_not_le hroom, rfl⟩

theorem JobInv.alloc {c : PoolConfig} {m m' : MemoryPool} (h : JobInv m jobs)
    (halloc : m.memoryPoolAllocJob c = some (job, m')) : JobInv m' (job :: jobs) := by
  obtain ⟨js, hlist, rfl⟩ | ⟨hlist, rfl, -, rfl⟩ := memoryPoolAllocJob_cases halloc
  · have hperm : (job :: (jobs ++ js)).Perm (jobs ++ m.jobList) := by
      rw [hlist]
      exact List.perm_middle.symm
    exact ⟨hperm.nodup_iff.mpr h.nodup, fun j hj ↦ h.slot j (hperm.mem_iff.mp hj), h.first_pos⟩
  · have hfresh : m.firstFreeJob ∉ jobs ++ m.jobList := fun hmem ↦
      lt_irrefl _ (h.slot _ hmem).2
    refine ⟨List.nodup_cons.mpr ⟨hfresh, h.nodup⟩, fun j hj ↦ ?_, Nat.succ_pos _⟩
    cases List.mem_cons.mp hj with
    | inl heq => exact ⟨heq ▸ h.first_pos, heq ▸ Nat.lt_succ_self _⟩
    | inr hj => exact ⟨(h.slot j hj).1, (h.slot j hj).2.trans (Nat.lt_succ_self _)⟩

theorem JobInv.free {m : MemoryPool} (h : JobInv m jobs) (hjob : job ∈ jobs) :
    JobInv (m.memoryPoolFreeJob job) (jobs.erase job) := by
  have hperm : (jobs.erase job ++ job :: m.jobList).Perm (jobs ++ m.jobList) :=
    List.perm_middle.trans ((List.perm_cons_erase hjob).symm.append_right _)
  exact ⟨hperm.nodup_iff.mpr h.nodup, fun j hj ↦ h.slot j (hperm.mem_iff.mp hj), h.first_pos⟩

/-- An allocated PD was free or is new; a failure can lose PDs beyond the index. -/
theorem sysmemAllocPd_cases (m : PdPool) :
    (∃ p ps, m.pdList = p :: ps ∧ m.sysmemAllocPd = (some p, { m with pdList := ps })) ∨
    (m.pdList = [] ∧ m.firstFreePd < 8 * m.firstFreePdf ∧ m.firstFreePd < 2 ^ 24 ∧
      m.sysmemAllocPd = (some m.firstFreePd, { m with firstFreePd := m.firstFreePd + 1 })) ∨
    (m.pdList = [] ∧ m.firstFreePd < 8 * m.firstFreePdf ∧ 2 ^ 24 ≤ m.firstFreePd ∧
      m.sysmemAllocPd = (none, { m with firstFreePd := m.firstFreePd + 1 })) ∨
    (m.pdList = [] ∧ 8 * m.firstFreePdf ≤ m.firstFreePd ∧ m.sysmemAllocPd = (none, m)) := by
  unfold PdPool.sysmemAllocPd
  cases hlist : m.pdList with
  | cons p ps => exact .inl ⟨p, ps, rfl, rfl⟩
  | nil =>
    right
    simp only [sizeofPdf, sizeofPd, Nat.shiftRight_eq_div_pow]
    split
    · exact .inr (.inr ⟨trivial, by omega, rfl⟩)
    · split
      · exact .inr (.inl ⟨trivial, by omega, by omega, rfl⟩)
      · exact .inl ⟨trivial, by omega, by omega, rfl⟩

theorem PdInv.alloc {m : PdPool} (h : PdInv c m pds) :
    PdInv c m.sysmemAllocPd.2 (m.sysmemAllocPd.1.toList ++ pds) := by
  have hfirst := h.first
  have hslot : ∀ p ∈ pds ++ m.pdList,
      c.pdStart ≤ p ∧ p < m.firstFreePd + 1 ∧ p < 2 ^ 24 := fun p hp ↦ by
    have hp := h.slot p hp
    omega
  obtain ⟨p, ps, hlist, heq⟩ | ⟨hlist, -, hlt, heq⟩ | ⟨hlist, -, -, heq⟩ | ⟨hlist, -, heq⟩ :=
    sysmemAllocPd_cases m
  · rw [heq]
    have hperm : (p :: (pds ++ ps)).Perm (pds ++ m.pdList) := by
      rw [hlist]
      exact List.perm_middle.symm
    exact ⟨hperm.nodup_iff.mpr h.nodup, fun p hp ↦ h.slot p (hperm.mem_iff.mp hp), hfirst⟩
  · rw [heq]
    have hfresh : m.firstFreePd ∉ pds ++ m.pdList := fun hmem ↦
      lt_irrefl _ (h.slot _ hmem).2.1
    refine ⟨List.nodup_cons.mpr ⟨hfresh, h.nodup⟩, fun p hp ↦ ?_,
      hfirst.trans (Nat.le_succ _)⟩
    cases List.mem_cons.mp hp with
    | inl hp => exact ⟨hp ▸ hfirst, hp ▸ Nat.lt_succ_self _, hp ▸ hlt⟩
    | inr hp => exact hslot p hp
  · rw [heq]
    exact ⟨h.nodup, hslot, hfirst.trans (Nat.le_succ _)⟩
  · rw [heq]
    exact h

theorem PdInv.free {m : PdPool} (h : PdInv c m pds) (hpd : pd ∈ pds) :
    PdInv c (m.sysmemFreePd pd) (pds.erase pd) := by
  have hperm : (pds.erase pd ++ pd :: m.pdList).Perm (pds ++ m.pdList) :=
    List.perm_middle.trans ((List.perm_cons_erase hpd).symm.append_right _)
  exact ⟨hperm.nodup_iff.mpr h.nodup, fun p hp ↦ h.slot p (hperm.mem_iff.mp hp), h.first⟩

/-! ## The calls -/

theorem PoolGap.freshFlow {c : PoolConfig} {m : MemoryPool}
    (hroom : m.firstFreeFlow + sizeofNlmFlow < MemoryPool.jobAddr c m.firstFreeJob) :
    PoolGap c { m with firstFreeFlow := m.firstFreeFlow + sizeofNlmFlow } :=
  fun _ ↦ hroom

theorem Inv.createStateless (h : Inv c s) :
    Inv c (s.exec c (.createFlow .stateless)) := by
  simp only [exec, Allocators.nlmCreateFlow, Allocators.allocStatelessFlow]
  cases halloc : s.m.pool.memoryPoolAllocFlow c.pool .stateless with
  | none => exact h
  | some r =>
    obtain ⟨flow, pool⟩ := r
    simp only [Option.map_some, Function.update_idem, Option.toList_some, List.singleton_append]
    obtain ⟨fs, hlist, rfl⟩ | ⟨rfl, hroom, rfl⟩ := allocStatelessFlow_cases halloc
    · exact ⟨h.flows.recycleStateless hlist, ⟨h.jobs.nodup, h.jobs.slot, h.jobs.first_pos⟩, h.pds,
        h.pool_gap, h.chunk_gap⟩
    · refine ⟨h.flows.fresh (fun _ hq ↦ hq) true (fun hfalse ↦ by cases hfalse), ?_, h.pds,
        PoolGap.freshFlow hroom, h.chunk_gap⟩
      exact ⟨h.jobs.nodup, h.jobs.slot, h.jobs.first_pos⟩

theorem Inv.createStateful (h : Inv c s) :
    Inv c (s.exec c (.createFlow .stateful)) := by
  simp only [exec, Allocators.nlmCreateFlow, Allocators.allocStatefulFlow]
  cases halloc : s.m.pool.memoryPoolAllocFlow c.pool .stateful with
  | none => exact h
  | some r =>
    obtain ⟨flow, pool⟩ := r
    have hjobs : ∀ {pool : MemoryPool}, pool.jobList = s.m.pool.jobList →
        pool.firstFreeJob = s.m.pool.firstFreeJob → JobInv pool s.jobs := by
      intro pool hlist hfirst
      obtain ⟨hnodup, hslot, hpos⟩ := h.jobs
      rw [← hlist] at hnodup hslot
      rw [← hfirst] at hslot hpos
      exact ⟨hnodup, hslot, hpos⟩
    obtain ⟨fs, hlist, rfl⟩ | ⟨hlist, rfl, hroom, rfl⟩ := allocStatefulFlow_cases halloc
    · have hindex : s.m.pdfIndex flow ≠ 0 := by
        have hmem : flow ∈ s.m.pool.statefulFlowList := by
          rw [hlist]
          exact List.mem_cons_self
        exact (h.flows.pdf_taken flow (List.mem_append_right _ hmem)
          (h.flows.stateful_kind flow hmem)).1
      simp only [Option.map_some, hlist, if_neg hindex, Option.toList_some, List.singleton_append]
      exact ⟨h.flows.recycleStateful hlist, hjobs rfl rfl, h.pds, h.pool_gap, h.chunk_gap⟩
    · simp only [Option.map_some, hlist, Function.update_self]
      obtain heq | ⟨hne, htaken, hnew, hkeep, hgap, hpdlist, hfirst⟩ :=
        sysmemAllocPdf_cases h.chunk_gap
      · have hflows := h.flows.lose (fun _ hq ↦ hq) 0 false
        simp only [heq, hlist, if_true, Option.toList_none, List.nil_append] at hflows ⊢
        exact ⟨hflows, hjobs rfl rfl, h.pds, PoolGap.freshFlow hroom, h.chunk_gap⟩
      · have hflows := h.flows.fresh hkeep false fun _ ↦ ⟨hne, htaken, hnew⟩
        simp only [hlist, if_neg hne, Option.toList_some, List.singleton_append] at hflows ⊢
        refine ⟨hflows, hjobs rfl rfl, ?_, PoolGap.freshFlow hroom, hgap⟩
        obtain ⟨hnodup, hslot, hstart⟩ := h.pds
        rw [← hpdlist] at hnodup hslot
        rw [← hfirst] at hslot hstart
        exact ⟨hnodup, hslot, hstart⟩

theorem Inv.allocJob (h : Inv c s) : Inv c (s.exec c .allocJob) := by
  simp only [exec, Allocators.allocJob]
  cases halloc : s.m.pool.memoryPoolAllocJob c.pool with
  | none => exact h
  | some r =>
    obtain ⟨job, pool⟩ := r
    simp only [Option.toList_some, List.singleton_append]
    have hjobs := h.jobs.alloc halloc
    obtain ⟨hnodup, hslot, hfirst, hstateful, hstateless, htaken, hinj⟩ := h.flows
    obtain ⟨js, hlist, rfl⟩ | ⟨hlist, rfl, hroom, rfl⟩ := memoryPoolAllocJob_cases halloc
    · exact ⟨⟨hnodup, hslot, hfirst, hstateful, hstateless, htaken, hinj⟩, hjobs, h.pds,
        h.pool_gap, h.chunk_gap⟩
    · exact ⟨⟨hnodup, hslot, hfirst, hstateful, hstateless, htaken, hinj⟩, hjobs, h.pds,
        fun _ ↦ hroom, h.chunk_gap⟩

theorem Inv.allocPd (h : Inv c s) : Inv c (s.exec c .allocPd) := by
  have hpds := h.pds.alloc
  obtain ⟨hle, hlt, hddr, hmode⟩ := h.chunk_gap
  obtain ⟨hnodup, hslot, hfirst, hstateful, hstateless, htaken, hinj⟩ := h.flows
  have hflows : ∀ {pds : PdPool}, (∀ q, PdfTaken c s.m.pds q → PdfTaken c pds q) →
      FlowInv c { s.m with pds := pds } s.flows := fun hkeep ↦
    ⟨hnodup, hslot, hfirst, hstateful, hstateless,
      fun f hf hf' ↦ ⟨(htaken f hf hf').1, hkeep _ (htaken f hf hf').2⟩, hinj⟩
  simp only [exec, Allocators.allocPd]
  obtain ⟨p, ps, -, heq⟩ | ⟨-, hroom, -, heq⟩ | ⟨-, hroom, -, heq⟩ | ⟨-, -, heq⟩ :=
    sysmemAllocPd_cases s.m.pds
  · rw [heq] at hpds ⊢
    exact ⟨hflows fun _ hq ↦ hq, h.jobs, hpds, h.pool_gap, ⟨hle, hlt, hddr, hmode⟩⟩
  · rw [heq] at hpds ⊢
    exact ⟨hflows fun _ hq ↦ hq, h.jobs, hpds, h.pool_gap, ⟨hroom, hlt, hddr, hmode⟩⟩
  · rw [heq] at hpds ⊢
    exact ⟨hflows fun _ hq ↦ hq, h.jobs, hpds, h.pool_gap, ⟨hroom, hlt, hddr, hmode⟩⟩
  · rw [heq] at hpds ⊢
    exact ⟨h.flows, h.jobs, hpds, h.pool_gap, ⟨hle, hlt, hddr, hmode⟩⟩

theorem Inv.freeFlow (h : Inv c s) (hflow : flow ∈ s.flows) :
    Inv c (s.exec c (.freeFlow flow)) := by
  have hflows := h.flows.free hflow
  simp only [exec]
  unfold Allocators.freeFlow MemoryPool.memoryPoolFreeFlow at hflows ⊢
  cases hkind : s.m.isStateless flow with
  | false =>
    rw [hkind] at hflows
    exact ⟨hflows, ⟨h.jobs.nodup, h.jobs.slot, h.jobs.first_pos⟩, h.pds, h.pool_gap, h.chunk_gap⟩
  | true =>
    rw [hkind] at hflows
    exact ⟨hflows, ⟨h.jobs.nodup, h.jobs.slot, h.jobs.first_pos⟩, h.pds, h.pool_gap, h.chunk_gap⟩

theorem Inv.exec (h : Inv c s) {op : Op} (hlegal : s.Legal op) : Inv c (s.exec c op) := by
  cases op with
  | createFlow flowType =>
    cases flowType with
    | invalid => exact h
    | stateless => exact h.createStateless
    | stateful => exact h.createStateful
  | freeFlow flow => exact h.freeFlow hlegal
  | allocJob => exact h.allocJob
  | freeJob job =>
    obtain ⟨hnodup, hslot, hfirst, hstateful, hstateless, htaken, hinj⟩ := h.flows
    exact ⟨⟨hnodup, hslot, hfirst, hstateful, hstateless, htaken, hinj⟩, h.jobs.free hlegal, h.pds,
      h.pool_gap, h.chunk_gap⟩
  | allocPd => exact h.allocPd
  | freePd pd =>
    obtain ⟨hnodup, hslot, hfirst, hstateful, hstateless, htaken, hinj⟩ := h.flows
    obtain ⟨hle, hlt, hddr, hmode⟩ := h.chunk_gap
    exact ⟨⟨hnodup, hslot, hfirst, hstateful, hstateless, htaken, hinj⟩, h.jobs, h.pds.free hlegal,
      h.pool_gap, ⟨hle, hlt, hddr, hmode⟩⟩

theorem Reachable.inv (hc : c.Accepted) (h : Reachable c s) : Inv c s := by
  induction h with
  | refl => exact inv_start hc
  | tail _ hstep ih =>
    cases hstep with
    | call hlegal => exact ih.exec hlegal

/-- Thread 0 with the smallest chunk. -/
def smallChunk : ThreadConfig := ⟨⟨4096, 32768, 0⟩, 65536, 512, none⟩

theorem smallChunk_accepted : smallChunk.Accepted :=
  ⟨by decide, by decide, by decide, by decide, by decide, fun _ ↦ by decide,
    fun _ harea ↦ by cases harea⟩

end AllocRun

end NetL7.Packet
