import NetL7.Packet.Heap

/-!
# The heap refines the free lists

Every run of the allocators in memory goes through the states of a run with lists:
no write to an object in use or to a free object breaks a free list.
-/

namespace NetL7.Packet

open NetL7.Device NetL7.Lib NlmDeviceConfig AllocRun

namespace ThreadConfig

variable (c : ThreadConfig)

/-- The address of a PD. -/
def pdAddr (pd : ℕ) : ℕ := c.pdBase + sizeofPd * pd

/-- The address of a PDF. -/
def pdfAddr (pdf : ℕ) : ℕ := c.pdBase + sizeofPdf * pdf

end ThreadConfig

namespace HeapRun

/-- The flows in memory are those of the allocators with lists. -/
structure FlowSim (pool : Memory) (statefulHead statelessHead : ℕ) (given : ℕ → ℕ)
    (m : Allocators) (flows : List ℕ) : Prop where
  stateful : FreeList pool.load statefulHead m.pool.statefulFlowList
  stateless : FreeList pool.load statelessHead m.pool.statelessFlowList
  kind : ∀ f ∈ flowSlots m.pool flows, (pool (f + isStatelessOffset) % 2 == 1) = m.isStateless f
  index : ∀ f ∈ flows ++ m.pool.statefulFlowList, m.isStateless f = false →
    pool (f + pdfIndexOffset) = m.pdfIndex f ∧ given f = m.pdfIndex f

/-- A heap and allocators with lists in the same state. -/
structure Sim (c : ThreadConfig) (r : HeapRun) (s : AllocRun) : Prop where
  flows_eq : r.flows = s.flows
  jobs_eq : r.jobs = s.jobs.map (MemoryPool.jobAddr c.pool)
  pds_eq : r.pds = s.pds.map c.pdAddr
  first_flow : r.heap.firstFreeFlow = s.m.pool.firstFreeFlow
  first_job : r.heap.firstFreeJob = MemoryPool.jobAddr c.pool s.m.pool.firstFreeJob
  first_pd : r.heap.firstFreePd = c.pdAddr s.m.pds.firstFreePd
  first_pdf : r.heap.firstFreePdf = c.pdfAddr s.m.pds.firstFreePdf
  flows : FlowSim r.heap.pool r.heap.statefulFlowListHead r.heap.statelessFlowListHead r.given
    s.m s.flows
  jobs : FreeList r.heap.pool.load r.heap.jobListHead
    (s.m.pool.jobList.map (MemoryPool.jobAddr c.pool))
  pds : FreeList r.heap.sys.load r.heap.pdListHead (s.m.pds.pdList.map c.pdAddr)

variable {c : ThreadConfig} {r r' : HeapRun} {s s' : AllocRun} {pool pool' sys : Memory}
  {a b a' b' f g i j p q : ℕ} {given : ℕ → ℕ} {m : Allocators} {flows : List ℕ}

/-! ## Where the objects lie -/

theorem slot_apart {c : PoolConfig} {firstFreeFlow : ℕ} (hf : FlowSlot c firstFreeFlow f)
    (hg : FlowSlot c firstFreeFlow g) (hne : g ≠ f) :
    g + sizeofNlmFlow ≤ f ∨ f + sizeofNlmFlow ≤ g := by
  obtain ⟨k, hk, -⟩ := hf
  obtain ⟨l, hl, -⟩ := hg
  simp only [sizeofNlmFlow] at hk hl ⊢
  omega

theorem flowBase_pos (c : PoolConfig) : 0 < c.flowBase := by
  unfold PoolConfig.flowBase
  simp only [sizeofNlmDevice]
  omega

theorem slot_pos {c : PoolConfig} {firstFreeFlow : ℕ} (hf : FlowSlot c firstFreeFlow f) :
    f ≠ 0 := by
  obtain ⟨k, hk, -⟩ := hf
  have hpos := flowBase_pos c
  omega

theorem jobAddr_lt {c : PoolConfig} {m : MemoryPool} (hgap : PoolGap c m) (hj : 0 < j)
    (hlt : j < m.firstFreeJob) :
    m.firstFreeFlow + sizeofNlmJob < MemoryPool.jobAddr c j ∧
      MemoryPool.jobAddr c j + sizeofNlmJob * j = c.jobBase := by
  have hlow := hgap (.inr (by omega))
  have hmul : sizeofNlmJob * (j + 1) ≤ sizeofNlmJob * m.firstFreeJob := Nat.mul_le_mul_left _ hlt
  simp only [MemoryPool.jobAddr, sizeofNlmJob] at hlow hmul ⊢
  omega

theorem Inv.flow_below_job (h : AllocRun.Inv c s) (hf : f ∈ flowSlots s.m.pool s.flows)
    (hj : j ∈ s.jobs ++ s.m.pool.jobList) :
    f + sizeofNlmFlow ≤ MemoryPool.jobAddr c.pool j := by
  obtain ⟨k, -, hle⟩ := h.flows.slot f hf
  obtain ⟨hpos, hlt⟩ := h.jobs.slot j hj
  have hjob := (jobAddr_lt h.pool_gap hpos hlt).1
  exact hle.trans (Nat.le_of_lt ((Nat.le_add_right _ _).trans_lt hjob))

theorem Inv.job_apart (h : AllocRun.Inv c s) (hi : i ∈ s.jobs ++ s.m.pool.jobList)
    (hj : j ∈ s.jobs ++ s.m.pool.jobList) (hne : i ≠ j) :
    MemoryPool.jobAddr c.pool i + sizeofNlmJob ≤ MemoryPool.jobAddr c.pool j ∨
      MemoryPool.jobAddr c.pool j + sizeofNlmJob ≤ MemoryPool.jobAddr c.pool i := by
  obtain ⟨hposi, hlti⟩ := h.jobs.slot i hi
  obtain ⟨hposj, hltj⟩ := h.jobs.slot j hj
  have hi := (jobAddr_lt h.pool_gap hposi hlti).2
  have hj := (jobAddr_lt h.pool_gap hposj hltj).2
  simp only [sizeofNlmJob] at hi hj ⊢
  omega

theorem pd_apart (c : ThreadConfig) (hne : p ≠ q) :
    c.pdAddr p + sizeofPd ≤ c.pdAddr q ∨ c.pdAddr q + sizeofPd ≤ c.pdAddr p := by
  simp only [ThreadConfig.pdAddr, sizeofPd]
  omega

theorem pdAddr_ne_zero (hp : c.pdStart ≤ p) : c.pdAddr p ≠ 0 := by
  have hpos := pdStart_pos c
  simp only [ThreadConfig.pdAddr, sizeofPd]
  omega

/-! ## Flows -/

/-- Writes that keep the links of free flows, the kinds and the PDF indices. -/
theorem FlowSim.congr (h : FlowSim pool a b given m flows)
    (hload : ∀ f ∈ m.pool.statefulFlowList ++ m.pool.statelessFlowList, pool'.load f = pool.load f)
    (hkind : ∀ f ∈ flowSlots m.pool flows,
      pool' (f + isStatelessOffset) = pool (f + isStatelessOffset))
    (hindex : ∀ f ∈ flows ++ m.pool.statefulFlowList, m.isStateless f = false →
      pool' (f + pdfIndexOffset) = pool (f + pdfIndexOffset)) :
    FlowSim pool' a b given m flows := by
  refine ⟨h.stateful.congr fun f hf ↦ hload f (List.mem_append_left _ hf),
    h.stateless.congr fun f hf ↦ hload f (List.mem_append_right _ hf), fun f hf ↦ ?_,
    fun f hf hf' ↦ ?_⟩
  · rw [hkind f hf]
    exact h.kind f hf
  · rw [hindex f hf hf']
    exact h.index f hf hf'

/-- Nothing is written into the slots of flows. -/
theorem FlowSim.same (h : FlowSim pool a b given m flows)
    (hsame : ∀ f ∈ flowSlots m.pool flows, ∀ x, f ≤ x → x < f + sizeofNlmFlow →
      pool' x = pool x) : FlowSim pool' a b given m flows := by
  apply h.congr
  · intro f hf
    have hslot : f ∈ flowSlots m.pool flows := List.mem_append_right _ hf
    exact Memory.load_congr_within (by decide) (hsame f hslot)
  · intro f hf
    apply hsame f hf
    · omega
    · simp only [sizeofNlmFlow, isStatelessOffset]
      omega
  · intro f hf _
    apply hsame f (mem_flowSlots_left hf)
    · omega
    · simp only [sizeofNlmFlow, pdfIndexOffset]
      omega

theorem FlowSim.take (h : FlowSim pool a b given m flows) (m' : Allocators) (given' : ℕ → ℕ)
    (hout : Memory.SameOutside f sizeofNlmFlow pool pool')
    (hapart : ∀ g ∈ flowSlots m.pool flows, g ≠ f →
      g + sizeofNlmFlow ≤ f ∨ f + sizeofNlmFlow ≤ g)
    (hstateful : FreeList pool.load a' m'.pool.statefulFlowList)
    (hstateless : FreeList pool.load b' m'.pool.statelessFlowList)
    (hslots : ∀ g ∈ flowSlots m'.pool flows, g ∈ flowSlots m.pool flows ∧ g ≠ f)
    (hkeep : ∀ g ∈ m'.pool.statefulFlowList, g ∈ m.pool.statefulFlowList)
    (hm : ∀ g, g ≠ f → m'.isStateless g = m.isStateless g ∧ m'.pdfIndex g = m.pdfIndex g ∧
      given' g = given g) : FlowSim pool' a' b' given' m' flows := by
  have hcell : ∀ g ∈ flowSlots m'.pool flows, ∀ x, g ≤ x → x < g + sizeofNlmFlow →
      pool' x = pool x := by
    intro g hg x hle hlt
    obtain ⟨hslot, hne⟩ := hslots g hg
    have happ := hapart g hslot hne
    exact hout x (by omega)
  have hbefore : FlowSim pool a' b' given' m' flows := by
    refine ⟨hstateful, hstateless, fun g hg ↦ ?_, fun g hg hkind ↦ ?_⟩
    · obtain ⟨hslot, hne⟩ := hslots g hg
      rw [(hm g hne).1]
      exact h.kind g hslot
    · obtain ⟨-, hne⟩ := hslots g (mem_flowSlots_left hg)
      obtain ⟨hk, hi, hgiven⟩ := hm g hne
      rw [hi, hgiven]
      refine h.index g ?_ (hk.symm.trans hkind)
      cases List.mem_append.mp hg with
      | inl hg => exact List.mem_append_left _ hg
      | inr hg => exact List.mem_append_right _ (hkeep g hg)
  exact hbefore.same hcell

theorem FlowSim.put (h : FlowSim pool a b given m flows)
    (hkind : (pool (f + isStatelessOffset) % 2 == 1) = m.isStateless f)
    (hindex : m.isStateless f = false →
      pool (f + pdfIndexOffset) = m.pdfIndex f ∧ given f = m.pdfIndex f) :
    FlowSim pool a b given m (f :: flows) := by
  refine ⟨h.stateful, h.stateless, fun g hg ↦ ?_, fun g hg hg' ↦ ?_⟩
  · cases List.mem_cons.mp hg with
    | inl heq => exact heq ▸ hkind
    | inr hg => exact h.kind g hg
  · cases List.mem_cons.mp hg with
    | inl heq =>
      subst heq
      exact hindex hg'
    | inr hg => exact h.index g hg hg'

theorem Sim.jobs_same (h : Sim c r s) (hout : Memory.SameOutside f sizeofNlmFlow r.heap.pool pool')
    (hf : ∀ j ∈ s.jobs ++ s.m.pool.jobList, f + sizeofNlmFlow ≤ MemoryPool.jobAddr c.pool j) :
    FreeList pool'.load r.heap.jobListHead
      (s.m.pool.jobList.map (MemoryPool.jobAddr c.pool)) := by
  apply h.jobs.congr
  intro y hy
  obtain ⟨j, hj, rfl⟩ := List.mem_map.mp hy
  exact hout.load_eq (.inr (hf j (List.mem_append_right _ hj)))

theorem Inv.fresh_below_job (h : AllocRun.Inv c s)
    (hroom : s.m.pool.firstFreeFlow + sizeofNlmFlow <
      MemoryPool.jobAddr c.pool s.m.pool.firstFreeJob)
    (hj : j ∈ s.jobs ++ s.m.pool.jobList) :
    s.m.pool.firstFreeFlow + sizeofNlmFlow ≤ MemoryPool.jobAddr c.pool j := by
  obtain ⟨-, hlt⟩ := h.jobs.slot j hj
  simp only [MemoryPool.jobAddr, sizeofNlmJob, sizeofNlmFlow] at hroom ⊢
  omega

theorem Inv.slots_apart (h : AllocRun.Inv c s) (hf : f ∈ flowSlots s.m.pool s.flows) :
    ∀ g ∈ flowSlots s.m.pool s.flows, g ≠ f →
      g + sizeofNlmFlow ≤ f ∨ f + sizeofNlmFlow ≤ g := fun g hg ↦
  slot_apart (h.flows.slot f hf) (h.flows.slot g hg)

theorem Inv.fresh_apart (h : AllocRun.Inv c s) :
    ∀ g ∈ flowSlots s.m.pool s.flows, g ≠ s.m.pool.firstFreeFlow →
      g + sizeofNlmFlow ≤ s.m.pool.firstFreeFlow ∨
        s.m.pool.firstFreeFlow + sizeofNlmFlow ≤ g := fun g hg _ ↦ by
  obtain ⟨k, -, hle⟩ := h.flows.slot g hg
  exact .inl hle

theorem mark_same (pool : Memory) (f v : ℕ) :
    Memory.SameOutside f sizeofNlmFlow pool
      (Function.update (pool.clear f sizeofNlmFlow) (f + isStatelessOffset) v) := by
  apply (Memory.clear_same pool f sizeofNlmFlow).trans
  apply Memory.update_same
  · omega
  · simp only [sizeofNlmFlow, isStatelessOffset]
    omega

theorem clear_kind (pool : Memory) (f : ℕ) :
    pool.clear f sizeofNlmFlow (f + isStatelessOffset) = 0 := by
  apply Memory.clear_eq_zero
  · omega
  · simp only [sizeofNlmFlow, isStatelessOffset]
    omega

theorem slots_of_perm {slots slots' : List ℕ} (hperm : (f :: slots').Perm slots)
    (hnodup : slots.Nodup) : ∀ g ∈ slots', g ∈ slots ∧ g ≠ f := by
  have hcons := List.nodup_cons.mp (hperm.nodup_iff.mpr hnodup)
  intro g hg
  exact ⟨hperm.mem_iff.mp (List.mem_cons_of_mem _ hg), ne_of_mem_of_not_mem hg hcons.1⟩

theorem Sim.takeFresh (h : Sim c r s) (hinv : AllocRun.Inv c s) (pdfIndex : ℕ → ℕ)
    (isStateless : ℕ → Bool) (pds : PdPool) (given : ℕ → ℕ)
    (hout : Memory.SameOutside s.m.pool.firstFreeFlow sizeofNlmFlow r.heap.pool pool')
    (hm : ∀ g, g ≠ s.m.pool.firstFreeFlow → isStateless g = s.m.isStateless g ∧
      pdfIndex g = s.m.pdfIndex g ∧ given g = r.given g) :
    FlowSim pool' r.heap.statefulFlowListHead r.heap.statelessFlowListHead given
      ⟨{ s.m.pool with firstFreeFlow := s.m.pool.firstFreeFlow + sizeofNlmFlow }, pds, pdfIndex,
        isStateless⟩ s.flows := by
  apply h.flows.take
  · exact hout
  · exact Inv.fresh_apart hinv
  · exact h.flows.stateful
  · exact h.flows.stateless
  · exact fun g hg ↦ ⟨hg, ne_of_mem_of_not_mem hg hinv.flows.first_not_mem⟩
  · exact fun _ hg ↦ hg
  · exact hm

/-- A stateless flow from the free list. -/
theorem Sim.recycleStateless (h : Sim c r s) (hinv : AllocRun.Inv c s) {fs : List ℕ}
    (hlist : s.m.pool.statelessFlowList = f :: fs) :
    Sim c (r.createFlow c .stateless) (s.exec c (.createFlow .stateless)) := by
  have hfirst : s.m.pool.firstFreeFlow ∉ flowSlots s.m.pool s.flows := hinv.flows.first_not_mem
  have hperm : (f :: flowSlots { s.m.pool with statelessFlowList := fs } s.flows).Perm
      (flowSlots s.m.pool s.flows) := by
    change (f :: (s.flows ++ (s.m.pool.statefulFlowList ++ fs))).Perm _
    rw [flowSlots, hlist, ← List.append_assoc, ← List.append_assoc]
    exact List.perm_middle.symm
  have hmem : f ∈ flowSlots s.m.pool s.flows := hperm.mem_iff.mp List.mem_cons_self
  have hne : f ≠ s.m.pool.firstFreeFlow := fun heq ↦ hfirst (heq ▸ hmem)
  have hchain := h.flows.stateless
  rw [hlist] at hchain
  obtain ⟨hhead, hpos, htail⟩ := hchain
  have hout := mark_same r.heap.pool f (r.heap.pool.clear f sizeofNlmFlow
    (f + isStatelessOffset) / 2 * 2 + 1)
  have hcreate : r.createFlow c .stateless = { r with
      heap := { r.heap with
        statelessFlowListHead := r.heap.pool.load f
        pool := Function.update (r.heap.pool.clear f sizeofNlmFlow) (f + isStatelessOffset)
          (r.heap.pool.clear f sizeofNlmFlow (f + isStatelessOffset) / 2 * 2 + 1) }
      flows := f :: r.flows } := by
    have hgiven : ¬ (some f = some r.heap.firstFreeFlow) := by
      rw [h.first_flow]
      exact fun heq ↦ hne (Option.some.inj heq)
    simp only [createFlow, Heap.nlmCreateFlow, Heap.allocStatelessFlow, hhead, if_pos hpos,
      if_neg hgiven, Option.toList_some, List.singleton_append]
  have hexec : s.exec c (.createFlow .stateless) = { s with
      m :=
        { pool := { s.m.pool with statelessFlowList := fs }
          pds := s.m.pds
          pdfIndex := Function.update s.m.pdfIndex f 0
          isStateless := Function.update s.m.isStateless f true }
      flows := f :: s.flows } := by
    simp only [exec, Allocators.nlmCreateFlow, Allocators.allocStatelessFlow,
      MemoryPool.memoryPoolAllocFlow, hlist, Option.map_some, Function.update_idem,
      Option.toList_some, List.singleton_append]
  rw [hcreate, hexec]
  have htake := h.flows.take
    ⟨{ s.m.pool with statelessFlowList := fs }, s.m.pds, Function.update s.m.pdfIndex f 0,
      Function.update s.m.isStateless f true⟩
    r.given hout (Inv.slots_apart hinv hmem) h.flows.stateful htail
    (slots_of_perm hperm hinv.flows.nodup) (fun _ hg ↦ hg) fun g hg ↦
      ⟨Function.update_of_ne hg .., Function.update_of_ne hg .., rfl⟩
  have hkind : Function.update s.m.isStateless f true f = true := Function.update_self ..
  refine ⟨congrArg (f :: ·) h.flows_eq, h.jobs_eq, h.pds_eq, h.first_flow, h.first_job,
    h.first_pd, h.first_pdf, htake.put ?_ fun hfalse ↦ ?_, ?_, h.pds⟩
  · rw [Function.update_self, clear_kind]
    exact hkind.symm
  · cases hkind.symm.trans hfalse
  · exact h.jobs_same hout fun j hj ↦ Inv.flow_below_job hinv hmem hj

theorem Sim.freshStateless (h : Sim c r s) (hinv : AllocRun.Inv c s)
    (hlist : s.m.pool.statelessFlowList = []) (hhead : r.heap.statelessFlowListHead = 0)
    (hroom : ¬ r.heap.firstFreeFlow + sizeofNlmFlow ≥ r.heap.firstFreeJob) :
    Sim c (r.createFlow c .stateless) (s.exec c (.createFlow .stateless)) := by
  have hcreate : r.createFlow c .stateless = { r with
      heap := { r.heap with
        firstFreeFlow := r.heap.firstFreeFlow + sizeofNlmFlow
        pool := Function.update (r.heap.pool.clear r.heap.firstFreeFlow sizeofNlmFlow)
          (r.heap.firstFreeFlow + isStatelessOffset)
          (r.heap.pool.clear r.heap.firstFreeFlow sizeofNlmFlow
            (r.heap.firstFreeFlow + isStatelessOffset) / 2 * 2 + 1) }
      flows := r.heap.firstFreeFlow :: r.flows
      given := Function.update r.given r.heap.firstFreeFlow
        ((r.createFlow c .stateless).heap.pdfIndex r.heap.firstFreeFlow) } := by
    simp only [createFlow, Heap.nlmCreateFlow, Heap.allocStatelessFlow, Heap.allocFreshFlow,
      hhead, if_neg (not_not.mpr rfl), if_neg hroom, Option.toList_some,
      List.singleton_append, if_true]
  have hout := mark_same r.heap.pool r.heap.firstFreeFlow
    (r.heap.pool.clear r.heap.firstFreeFlow sizeofNlmFlow
      (r.heap.firstFreeFlow + isStatelessOffset) / 2 * 2 + 1)
  generalize (r.createFlow c .stateless).heap.pdfIndex r.heap.firstFreeFlow = index at hcreate
  rw [h.first_flow] at hcreate hout hroom
  rw [h.first_job] at hroom
  have hexec : s.exec c (.createFlow .stateless) = { s with
      m :=
        { pool := { s.m.pool with firstFreeFlow := s.m.pool.firstFreeFlow + sizeofNlmFlow }
          pds := s.m.pds
          pdfIndex := Function.update s.m.pdfIndex s.m.pool.firstFreeFlow 0
          isStateless := Function.update s.m.isStateless s.m.pool.firstFreeFlow true }
      flows := s.m.pool.firstFreeFlow :: s.flows } := by
    simp only [exec, Allocators.nlmCreateFlow, Allocators.allocStatelessFlow,
      MemoryPool.memoryPoolAllocFlow, MemoryPool.allocFreshFlow, hlist, if_neg hroom,
      Option.map_some, Function.update_idem, Option.toList_some, List.singleton_append]
  rw [hcreate, hexec]
  have htake := h.takeFresh hinv (Function.update s.m.pdfIndex s.m.pool.firstFreeFlow 0)
    (Function.update s.m.isStateless s.m.pool.firstFreeFlow true) s.m.pds
    (Function.update r.given s.m.pool.firstFreeFlow index) hout fun g hg ↦
      ⟨Function.update_of_ne hg .., Function.update_of_ne hg .., Function.update_of_ne hg ..⟩
  have hkind : Function.update s.m.isStateless s.m.pool.firstFreeFlow true
      s.m.pool.firstFreeFlow = true := Function.update_self ..
  refine ⟨congrArg (_ :: ·) h.flows_eq, h.jobs_eq, h.pds_eq, rfl, h.first_job,
    h.first_pd, h.first_pdf, htake.put ?_ fun hfalse ↦ ?_, ?_, h.pds⟩
  · rw [Function.update_self, clear_kind]
    exact hkind.symm
  · cases hkind.symm.trans hfalse
  · exact h.jobs_same hout fun j hj ↦ Inv.fresh_below_job hinv (Nat.lt_of_not_le hroom) hj

theorem Sim.createStateless (h : Sim c r s) (hinv : AllocRun.Inv c s) :
    Sim c (r.createFlow c .stateless) (s.exec c (.createFlow .stateless)) := by
  cases hlist : s.m.pool.statelessFlowList with
  | cons f fs => exact h.recycleStateless hinv hlist
  | nil =>
    have hchain := h.flows.stateless
    rw [hlist] at hchain
    have hhead : r.heap.statelessFlowListHead = 0 := hchain
    by_cases hroom : r.heap.firstFreeFlow + sizeofNlmFlow ≥ r.heap.firstFreeJob
    · have hcreate : r.createFlow c .stateless = r := by
        simp only [createFlow, Heap.nlmCreateFlow, Heap.allocStatelessFlow, Heap.allocFreshFlow,
          hhead, if_neg (not_not.mpr rfl), if_pos hroom, Option.toList_none, List.nil_append,
          reduceCtorEq, if_false]
      rw [h.first_flow, h.first_job] at hroom
      have hexec : s.exec c (.createFlow .stateless) = s := by
        simp only [exec, Allocators.nlmCreateFlow, Allocators.allocStatelessFlow,
          MemoryPool.memoryPoolAllocFlow, MemoryPool.allocFreshFlow, hlist, if_pos hroom,
          Option.map_none, Option.toList_none, List.nil_append]
      rw [hcreate, hexec]
      exact h
    · exact h.freshStateless hinv hlist hhead hroom

theorem index_same (pool : Memory) (f v : ℕ) :
    Memory.SameOutside f sizeofNlmFlow pool
      (Function.update (pool.clear f sizeofNlmFlow) (f + pdfIndexOffset) v) := by
  apply (Memory.clear_same pool f sizeofNlmFlow).trans
  apply Memory.update_same
  · omega
  · simp only [sizeofNlmFlow, pdfIndexOffset]
    omega

theorem index_kind (pool : Memory) (f v : ℕ) :
    Function.update (pool.clear f sizeofNlmFlow) (f + pdfIndexOffset) v
      (f + isStatelessOffset) = 0 := by
  rw [Function.update_of_ne (by simp only [pdfIndexOffset, isStatelessOffset]; omega)]
  exact clear_kind pool f

theorem pdfEnd_le (hc : c.Accepted) (hddr : c.ddr = none) : c.pdfEnd ≤ 2 ^ 24 := by
  have hlt := hc.sysmem_lt hddr
  rw [Nat.mul_succ] at hlt
  unfold ThreadConfig.pdfEnd
  rw [chunkOffset_eq hc]
  simp only [alignDown, sizeofPdf]
  omega

/-- `sysmem_alloc_pdf` in memory does what it does with lists. -/
theorem allocPdf_eq {heap : Heap} {m : PdPool} (hc : c.Accepted) (hddr : c.ddr = none)
    (hgap : ChunkGap c m) (hpd : heap.firstFreePd = c.pdAddr m.firstFreePd)
    (hpdf : heap.firstFreePdf = c.pdfAddr m.firstFreePdf) (f : ℕ) :
    ∃ sys, heap.sysmemAllocPdf c f =
        { heap.setPdfIndex f m.sysmemAllocPdf.1 with
          sys := sys
          firstFreePdf := c.pdfAddr m.sysmemAllocPdf.2.firstFreePdf } ∧
      Memory.SameOutside (c.pdfAddr m.firstFreePdf) sizeofPdf heap.sys sys := by
  have hend := pdfEnd_le hc hddr
  have hlt := hgap.pdf_lt
  have hmode : m.useDdrMemory = false := by
    rw [hgap.mode, hddr]
    rfl
  unfold Heap.sysmemAllocPdf PdPool.sysmemAllocPdf
  simp only [hmode, Bool.false_eq_true, if_false, hpd, hpdf]
  by_cases hfull : sizeofPdf * (m.firstFreePdf - 1) ≤ sizeofPd * m.firstFreePd
  · have hfull' : c.pdfAddr m.firstFreePdf - sizeofPdf ≤ c.pdAddr m.firstFreePd := by
      simp only [ThreadConfig.pdfAddr, ThreadConfig.pdAddr, sizeofPdf, sizeofPd] at hfull ⊢
      omega
    rw [if_pos hfull, if_pos hfull', ← hpdf]
    exact ⟨heap.sys, rfl, .refl _⟩
  · have hfull' : ¬ c.pdfAddr m.firstFreePdf - sizeofPdf ≤ c.pdAddr m.firstFreePd := by
      simp only [ThreadConfig.pdfAddr, ThreadConfig.pdAddr, sizeofPdf, sizeofPd] at hfull ⊢
      omega
    have hindex : (c.pdfAddr m.firstFreePdf - c.pdBase) / sizeofPdf % 2 ^ 32 = m.firstFreePdf := by
      simp only [ThreadConfig.pdfAddr, sizeofPdf]
      omega
    have hnext : c.pdfAddr m.firstFreePdf - sizeofPdf = c.pdfAddr (m.firstFreePdf - 1) := by
      simp only [ThreadConfig.pdfAddr, sizeofPdf, sizeofPd] at hfull ⊢
      omega
    rw [if_neg hfull, if_neg hfull', hindex, hnext]
    exact ⟨_, rfl, Memory.clear_same _ _ _⟩

theorem Sim.pds_same (h : Sim c r s) (hinv : AllocRun.Inv c s)
    (hout : Memory.SameOutside (c.pdfAddr s.m.pds.firstFreePdf) sizeofPdf r.heap.sys sys) :
    FreeList sys.load r.heap.pdListHead (s.m.pds.pdList.map c.pdAddr) := by
  apply h.pds.congr
  intro y hy
  obtain ⟨p, hp, rfl⟩ := List.mem_map.mp hy
  obtain ⟨-, hlt, -⟩ := hinv.pds.slot p (List.mem_append_right _ hp)
  have hle := hinv.chunk_gap.pd_le
  apply hout.load_eq
  simp only [ThreadConfig.pdAddr, ThreadConfig.pdfAddr, sizeofPd, sizeofPdf]
  omega

/-- A stateful flow from the free list keeps its PDF. -/
theorem Sim.recycleStateful (h : Sim c r s) (hinv : AllocRun.Inv c s) {fs : List ℕ}
    (hlist : s.m.pool.statefulFlowList = f :: fs) :
    Sim c (r.createFlow c .stateful) (s.exec c (.createFlow .stateful)) := by
  have hfirst : s.m.pool.firstFreeFlow ∉ flowSlots s.m.pool s.flows := hinv.flows.first_not_mem
  have hperm : (f :: flowSlots { s.m.pool with statefulFlowList := fs } s.flows).Perm
      (flowSlots s.m.pool s.flows) := by
    change (f :: (s.flows ++ (fs ++ s.m.pool.statelessFlowList))).Perm _
    rw [flowSlots, hlist]
    exact List.perm_middle.symm
  have hmem : f ∈ flowSlots s.m.pool s.flows := hperm.mem_iff.mp List.mem_cons_self
  have hfree : f ∈ s.m.pool.statefulFlowList := by
    rw [hlist]
    exact List.mem_cons_self
  have hne : f ≠ s.m.pool.firstFreeFlow := fun heq ↦ hfirst (heq ▸ hmem)
  have hchain := h.flows.stateful
  rw [hlist] at hchain
  obtain ⟨hhead, hpos, htail⟩ := hchain
  have hkind := hinv.flows.stateful_kind f hfree
  obtain ⟨hindex, hgiven⟩ := h.flows.index f (List.mem_append_right _ hfree) hkind
  have hzero : s.m.pdfIndex f ≠ 0 :=
    (hinv.flows.pdf_taken f (List.mem_append_right _ hfree) hkind).1
  have hout := index_same r.heap.pool f (r.heap.pool (f + pdfIndexOffset))
  have hcreate : r.createFlow c .stateful = { r with
      heap := { r.heap with
        statefulFlowListHead := r.heap.pool.load f
        pool := Function.update (r.heap.pool.clear f sizeofNlmFlow) (f + pdfIndexOffset)
          (r.heap.pool (f + pdfIndexOffset)) }
      flows := f :: r.flows } := by
    have hfresh : ¬ (some f = some r.heap.firstFreeFlow) := by
      rw [h.first_flow]
      exact fun heq ↦ hne (Option.some.inj heq)
    have hnonzero : ¬ r.heap.pool (f + pdfIndexOffset) = 0 := by
      rw [hindex]
      exact hzero
    simp only [createFlow, Heap.nlmCreateFlow, Heap.allocStatefulFlow, hhead, if_pos hpos,
      Heap.setPdfIndex, Heap.pdfIndex, Function.update_self, if_neg hnonzero, if_neg hfresh,
      Option.toList_some, List.singleton_append]
  have hexec : s.exec c (.createFlow .stateful) = { s with
      m :=
        { pool := { s.m.pool with statefulFlowList := fs }
          pds := s.m.pds
          pdfIndex := s.m.pdfIndex
          isStateless := Function.update s.m.isStateless f false }
      flows := f :: s.flows } := by
    simp only [exec, Allocators.nlmCreateFlow, Allocators.allocStatefulFlow,
      MemoryPool.memoryPoolAllocFlow, hlist, Option.map_some, if_neg hzero,
      Option.toList_some, List.singleton_append]
  rw [hcreate, hexec]
  have htake := h.flows.take
    ⟨{ s.m.pool with statefulFlowList := fs }, s.m.pds, s.m.pdfIndex,
      Function.update s.m.isStateless f false⟩
    r.given hout (Inv.slots_apart hinv hmem) htail h.flows.stateless
    (slots_of_perm hperm hinv.flows.nodup)
    (fun g hg ↦ hlist ▸ List.mem_cons_of_mem _ hg) fun g hg ↦
      ⟨Function.update_of_ne hg .., rfl, rfl⟩
  have hkind' : Function.update s.m.isStateless f false f = false := Function.update_self ..
  refine ⟨congrArg (f :: ·) h.flows_eq, h.jobs_eq, h.pds_eq, h.first_flow, h.first_job,
    h.first_pd, h.first_pdf, htake.put ?_ fun _ ↦ ⟨?_, hgiven⟩, ?_, h.pds⟩
  · rw [index_kind]
    exact hkind'.symm
  · rw [Function.update_self]
    exact hindex
  · exact h.jobs_same hout fun j hj ↦ Inv.flow_below_job hinv hmem hj

theorem createFlow_fresh {heap : Heap}
    (halloc : r.heap.allocStatefulFlow c = some (r.heap.firstFreeFlow, heap)) :
    r.createFlow c .stateful =
      if heap.pdfIndex r.heap.firstFreeFlow = 0 then { r with heap := heap }
      else { r with
        heap := heap
        flows := r.heap.firstFreeFlow :: r.flows
        given := Function.update r.given r.heap.firstFreeFlow
          (heap.pdfIndex r.heap.firstFreeFlow) } := by
  by_cases hindex : heap.pdfIndex r.heap.firstFreeFlow = 0
  · simp only [createFlow, Heap.nlmCreateFlow, halloc, if_pos hindex, Option.toList_none,
      List.nil_append, reduceCtorEq, if_false]
  · simp only [createFlow, Heap.nlmCreateFlow, halloc, if_neg hindex, Option.toList_some,
      List.singleton_append, if_true]

theorem exec_createStateful (halloc : s.m.allocStatefulFlow c = some (f, m)) :
    s.exec c (.createFlow .stateful) =
      if m.pdfIndex f = 0 then { s with m := m } else { s with m := m, flows := f :: s.flows } := by
  by_cases hindex : m.pdfIndex f = 0
  · simp only [exec, Allocators.nlmCreateFlow, halloc, if_pos hindex, Option.toList_none,
      List.nil_append]
  · simp only [exec, Allocators.nlmCreateFlow, halloc, if_neg hindex, Option.toList_some,
      List.singleton_append]

/-- A fresh slot gets a PDF, or stays invalid where there is none left. -/
theorem Sim.freshStateful (hc : c.Accepted) (hddr : c.ddr = none) (h : Sim c r s)
    (hinv : AllocRun.Inv c s) (hlist : s.m.pool.statefulFlowList = [])
    (hhead : r.heap.statefulFlowListHead = 0)
    (hroom : ¬ r.heap.firstFreeFlow + sizeofNlmFlow ≥ r.heap.firstFreeJob) :
    Sim c (r.createFlow c .stateful) (s.exec c (.createFlow .stateful)) := by
  have hfirstFlow := h.first_flow
  obtain ⟨sys, halloc, hsys⟩ := allocPdf_eq hc hddr hinv.chunk_gap
    (show ({ r.heap with
      firstFreeFlow := r.heap.firstFreeFlow + sizeofNlmFlow
      pool := r.heap.pool.clear r.heap.firstFreeFlow sizeofNlmFlow } : Heap).firstFreePd = _
      from h.first_pd) h.first_pdf r.heap.firstFreeFlow
  have hpds := h.pds_same hinv hsys
  obtain ⟨hpdList, hfirstPd⟩ := sysmemAllocPdf_pds s.m.pds
  rw [← hpdList] at hpds
  have hfirst_pd := h.first_pd
  rw [← hfirstPd] at hfirst_pd
  have hout := index_same r.heap.pool r.heap.firstFreeFlow s.m.pds.sysmemAllocPdf.1
  have hroom' := hroom
  rw [h.first_flow, h.first_job] at hroom'
  have htake := fun given hm ↦ h.takeFresh hinv
    (Function.update s.m.pdfIndex s.m.pool.firstFreeFlow s.m.pds.sysmemAllocPdf.1)
    (Function.update s.m.isStateless s.m.pool.firstFreeFlow false) s.m.pds.sysmemAllocPdf.2
    given (hfirstFlow ▸ hout) hm
  have hjobs := h.jobs_same (hfirstFlow ▸ hout) fun j hj ↦
    Inv.fresh_below_job hinv (Nat.lt_of_not_le hroom') hj
  set heap : Heap := { r.heap with
    firstFreeFlow := r.heap.firstFreeFlow + sizeofNlmFlow
    pool := Function.update (r.heap.pool.clear r.heap.firstFreeFlow sizeofNlmFlow)
      (r.heap.firstFreeFlow + pdfIndexOffset) s.m.pds.sysmemAllocPdf.1
    sys := sys
    firstFreePdf := c.pdfAddr s.m.pds.sysmemAllocPdf.2.firstFreePdf }
  set m : Allocators :=
    { pool := { s.m.pool with firstFreeFlow := s.m.pool.firstFreeFlow + sizeofNlmFlow }
      pds := s.m.pds.sysmemAllocPdf.2
      pdfIndex := Function.update s.m.pdfIndex s.m.pool.firstFreeFlow s.m.pds.sysmemAllocPdf.1
      isStateless := Function.update s.m.isStateless s.m.pool.firstFreeFlow false }
  have hheap : r.heap.allocStatefulFlow c = some (r.heap.firstFreeFlow, heap) := by
    unfold Heap.allocStatefulFlow Heap.allocFreshFlow
    rw [if_neg (not_not.mpr hhead), if_neg hroom, Option.map_some]
    exact congrArg (fun heap ↦ some (r.heap.firstFreeFlow, heap)) halloc
  have hm : s.m.allocStatefulFlow c = some (s.m.pool.firstFreeFlow, m) := by
    simp only [Allocators.allocStatefulFlow, MemoryPool.memoryPoolAllocFlow,
      MemoryPool.allocFreshFlow, hlist, if_neg hroom', Option.map_some, m]
  have hpdf : heap.pdfIndex r.heap.firstFreeFlow = s.m.pds.sysmemAllocPdf.1 :=
    Function.update_self ..
  have hpdf' : m.pdfIndex s.m.pool.firstFreeFlow = s.m.pds.sysmemAllocPdf.1 :=
    Function.update_self ..
  have hpool : heap.pool = Function.update (r.heap.pool.clear s.m.pool.firstFreeFlow sizeofNlmFlow)
      (s.m.pool.firstFreeFlow + pdfIndexOffset) s.m.pds.sysmemAllocPdf.1 := by
    rw [← hfirstFlow]
  rw [← hpool] at hjobs
  rw [createFlow_fresh hheap, exec_createStateful hm, hpdf, hpdf', hfirstFlow]
  by_cases hindex : s.m.pds.sysmemAllocPdf.1 = 0
  · rw [if_pos hindex, if_pos hindex]
    have hflows := htake r.given fun g hg ↦
      ⟨Function.update_of_ne hg .., Function.update_of_ne hg .., rfl⟩
    rw [← hpool] at hflows
    exact ⟨h.flows_eq, h.jobs_eq, h.pds_eq, congrArg (· + sizeofNlmFlow) hfirstFlow,
      h.first_job, hfirst_pd, rfl, hflows, hjobs, hpds⟩
  · rw [if_neg hindex, if_neg hindex]
    have hkind : m.isStateless s.m.pool.firstFreeFlow = false := Function.update_self ..
    have hflows := (htake (Function.update r.given s.m.pool.firstFreeFlow
      s.m.pds.sysmemAllocPdf.1) fun g hg ↦ ⟨Function.update_of_ne hg ..,
        Function.update_of_ne hg .., Function.update_of_ne hg ..⟩).put
      (by rw [index_kind]; exact hkind.symm) fun _ ↦
        ⟨(Function.update_self ..).trans hpdf'.symm, (Function.update_self ..).trans hpdf'.symm⟩
    rw [← hpool] at hflows
    exact ⟨congrArg (_ :: ·) h.flows_eq, h.jobs_eq, h.pds_eq,
      congrArg (· + sizeofNlmFlow) hfirstFlow, h.first_job, hfirst_pd, rfl, hflows, hjobs, hpds⟩

theorem Sim.createStateful (hc : c.Accepted) (hddr : c.ddr = none) (h : Sim c r s)
    (hinv : AllocRun.Inv c s) :
    Sim c (r.createFlow c .stateful) (s.exec c (.createFlow .stateful)) := by
  cases hlist : s.m.pool.statefulFlowList with
  | cons f fs => exact h.recycleStateful hinv hlist
  | nil =>
    have hchain := h.flows.stateful
    rw [hlist] at hchain
    have hhead : r.heap.statefulFlowListHead = 0 := hchain
    by_cases hroom : r.heap.firstFreeFlow + sizeofNlmFlow ≥ r.heap.firstFreeJob
    · have hcreate : r.createFlow c .stateful = r := by
        simp only [createFlow, Heap.nlmCreateFlow, Heap.allocStatefulFlow, Heap.allocFreshFlow,
          hhead, if_neg (not_not.mpr rfl), if_pos hroom, Option.map_none, Option.toList_none,
          List.nil_append, reduceCtorEq, if_false]
      rw [h.first_flow, h.first_job] at hroom
      have hexec : s.exec c (.createFlow .stateful) = s := by
        simp only [exec, Allocators.nlmCreateFlow, Allocators.allocStatefulFlow,
          MemoryPool.memoryPoolAllocFlow, MemoryPool.allocFreshFlow, hlist, if_pos hroom,
          Option.map_none, Option.toList_none, List.nil_append]
      rw [hcreate, hexec]
      exact h
    · exact h.freshStateful hc hddr hinv hlist hhead hroom

theorem FlowSim.move (h : FlowSim pool a b given m flows) (statefulList statelessList : List ℕ)
    {flows' : List ℕ} (hstateful : FreeList pool'.load a' statefulList)
    (hstateless : FreeList pool'.load b' statelessList)
    (hcell : ∀ g ∈ flowSlots m.pool flows, ∀ x, g + 8 ≤ x → x < g + sizeofNlmFlow →
      pool' x = pool x)
    (hslots : ∀ g ∈ flows' ++ (statefulList ++ statelessList), g ∈ flowSlots m.pool flows)
    (hkeep : ∀ g ∈ flows' ++ statefulList, m.isStateless g = false →
      g ∈ flows ++ m.pool.statefulFlowList) :
    FlowSim pool' a' b' given
      { m with
        pool := { m.pool with
          statefulFlowList := statefulList
          statelessFlowList := statelessList } } flows' := by
  refine ⟨hstateful, hstateless, fun g hg ↦ ?_, fun g hg hkind ↦ ?_⟩
  · have hslot := hslots g hg
    rw [hcell g hslot _ (by simp only [isStatelessOffset]; omega)
      (by simp only [isStatelessOffset, sizeofNlmFlow]; omega)]
    exact h.kind g hslot
  · have hold := hkeep g hg hkind
    rw [hcell g (mem_flowSlots_left hold) _ (by simp only [pdfIndexOffset]; omega)
      (by simp only [pdfIndexOffset, sizeofNlmFlow]; omega)]
    exact h.index g hold hkind

theorem Sim.freeFlow (h : Sim c r s) (hinv : AllocRun.Inv c s) (hf : f ∈ s.flows) :
    Sim c { r with heap := r.heap.memoryPoolFreeFlow f, flows := r.flows.erase f }
      (s.exec c (.freeFlow f)) := by
  have hslot : f ∈ flowSlots s.m.pool s.flows := List.mem_append_left _ hf
  have hpos : f ≠ 0 := slot_pos (hinv.flows.slot f hslot)
  have hkind : r.heap.isStateless f = s.m.isStateless f := h.flows.kind f hslot
  have hout : ∀ v, Memory.SameOutside f 8 r.heap.pool (r.heap.pool.store f v) := fun v ↦
    Memory.store_same r.heap.pool f v
  have hapart := Inv.slots_apart hinv hslot
  have hcell : ∀ v, ∀ g ∈ flowSlots s.m.pool s.flows, ∀ x, g + 8 ≤ x → x < g + sizeofNlmFlow →
      r.heap.pool.store f v x = r.heap.pool x := by
    intro v g hg x hle hlt
    apply hout v
    rcases eq_or_ne g f with rfl | hne
    · exact .inr hle
    · have hg := hapart g hg hne
      simp only [sizeofNlmFlow] at hg hlt
      omega
  -- a flow in use is on neither list
  have hload : ∀ v, ∀ g ∈ s.m.pool.statefulFlowList ++ s.m.pool.statelessFlowList,
      (r.heap.pool.store f v).load g = r.heap.pool.load g := by
    intro v g hg
    have hne : g ≠ f := ((List.nodup_append.mp hinv.flows.nodup).2.2 f hf g hg).symm
    have hg := hapart g (List.mem_append_right _ hg) hne
    simp only [sizeofNlmFlow] at hg
    apply (hout v).load_eq
    omega
  have hjobs : ∀ v, FreeList (r.heap.pool.store f v).load r.heap.jobListHead
      (s.m.pool.jobList.map (MemoryPool.jobAddr c.pool)) := fun v ↦
    h.jobs_same ((hout v).mono le_rfl (by simp only [sizeofNlmFlow]; omega)) fun j hj ↦
      Inv.flow_below_job hinv hslot hj
  have hflows : r.flows.erase f = s.flows.erase f := by rw [h.flows_eq]
  simp only [exec]
  unfold Heap.memoryPoolFreeFlow Allocators.freeFlow MemoryPool.memoryPoolFreeFlow
  rw [hkind]
  cases hstateless : s.m.isStateless f with
  | true =>
    have hlist := h.flows.stateless.push hpos (Memory.load_store r.heap.pool f _)
      fun y hy ↦ hload _ y (List.mem_append_right _ hy)
    have hother := h.flows.stateful.congr
      fun y hy ↦ hload r.heap.statelessFlowListHead y (List.mem_append_left _ hy)
    refine ⟨hflows, h.jobs_eq, h.pds_eq, h.first_flow, h.first_job, h.first_pd, h.first_pdf,
      h.flows.move _ _ hother hlist (hcell _) (fun g hg ↦ ?_) (fun g hg _ ↦ ?_), hjobs _, h.pds⟩
    · rcases List.mem_append.mp hg with hg | hg
      · exact List.mem_append_left _ (List.mem_of_mem_erase hg)
      · rcases List.mem_append.mp hg with hg | hg
        · exact List.mem_append_right _ (List.mem_append_left _ hg)
        · cases List.mem_cons.mp hg with
          | inl heq => exact heq ▸ hslot
          | inr hg => exact List.mem_append_right _ (List.mem_append_right _ hg)
    · cases List.mem_append.mp hg with
      | inl hg => exact List.mem_append_left _ (List.mem_of_mem_erase hg)
      | inr hg => exact List.mem_append_right _ hg
  | false =>
    have hlist := h.flows.stateful.push hpos (Memory.load_store r.heap.pool f _)
      fun y hy ↦ hload _ y (List.mem_append_left _ hy)
    have hother := h.flows.stateless.congr
      fun y hy ↦ hload r.heap.statefulFlowListHead y (List.mem_append_right _ hy)
    refine ⟨hflows, h.jobs_eq, h.pds_eq, h.first_flow, h.first_job, h.first_pd, h.first_pdf,
      h.flows.move _ _ hlist hother (hcell _) (fun g hg ↦ ?_) (fun g hg _ ↦ ?_), hjobs _, h.pds⟩
    · rcases List.mem_append.mp hg with hg | hg
      · exact List.mem_append_left _ (List.mem_of_mem_erase hg)
      · rcases List.mem_append.mp hg with hg | hg
        · cases List.mem_cons.mp hg with
          | inl heq => exact heq ▸ hslot
          | inr hg => exact List.mem_append_right _ (List.mem_append_left _ hg)
        · exact List.mem_append_right _ (List.mem_append_right _ hg)
    · cases List.mem_append.mp hg with
      | inl hg => exact List.mem_append_left _ (List.mem_of_mem_erase hg)
      | inr hg =>
        cases List.mem_cons.mp hg with
        | inl heq => exact heq ▸ List.mem_append_left _ hf
        | inr hg => exact List.mem_append_right _ hg

/-! ## Jobs and PDs -/

theorem erase_map {addr : ℕ → ℕ} {objects : List ℕ} {x : ℕ}
    (hinj : ∀ y ∈ objects, addr y = addr x → y = x) :
    (objects.map addr).erase (addr x) = (objects.erase x).map addr := by
  induction objects with
  | nil => rfl
  | cons y ys ih =>
    rcases eq_or_ne y x with rfl | hne
    · rw [List.map_cons, List.erase_cons_head, List.erase_cons_head]
    · have haddr : addr y ≠ addr x := fun heq ↦ hne (hinj y List.mem_cons_self heq)
      rw [List.map_cons, List.erase_cons_tail (by simpa using haddr),
        List.erase_cons_tail (by simpa using hne), List.map_cons,
        ih fun z hz ↦ hinj z (List.mem_cons_of_mem _ hz)]

theorem Sim.freeJob (h : Sim c r s) (hinv : AllocRun.Inv c s) (hj : j ∈ s.jobs) :
    Sim c
      { r with
        heap := r.heap.memoryPoolFreeJob (MemoryPool.jobAddr c.pool j)
        jobs := r.jobs.erase (MemoryPool.jobAddr c.pool j) }
      (s.exec c (.freeJob j)) := by
  have hmem : j ∈ s.jobs ++ s.m.pool.jobList := List.mem_append_left _ hj
  obtain ⟨hpos, hlt⟩ := hinv.jobs.slot j hmem
  have hlow := (jobAddr_lt hinv.pool_gap hpos hlt).1
  have hout := Memory.store_same r.heap.pool (MemoryPool.jobAddr c.pool j) r.heap.jobListHead
  refine ⟨h.flows_eq, ?_, h.pds_eq, h.first_flow, h.first_job, h.first_pd, h.first_pdf, ?_, ?_,
    h.pds⟩
  · change r.jobs.erase _ = _
    rw [h.jobs_eq]
    apply erase_map
    intro i hi heq
    by_contra hne
    have happ := Inv.job_apart hinv (List.mem_append_left _ hi) hmem hne
    simp only [sizeofNlmJob] at happ
    omega
  · obtain ⟨hstateful, hstateless, hkind, hindex⟩ := h.flows.same fun f hf x hle hx ↦ hout x
      (.inl (hx.trans_le (Inv.flow_below_job hinv hf hmem)))
    exact ⟨hstateful, hstateless, hkind, hindex⟩
  · refine FreeList.push h.jobs (Nat.ne_of_gt (Nat.zero_lt_of_lt hlow)) (Memory.load_store ..)
      fun y hy ↦ ?_
    obtain ⟨i, hi, rfl⟩ := List.mem_map.mp hy
    have hne : i ≠ j := ((List.nodup_append.mp hinv.jobs.nodup).2.2 j hj i hi).symm
    have happ := Inv.job_apart hinv (List.mem_append_right _ hi) hmem hne
    simp only [sizeofNlmJob] at happ
    apply hout.load_eq
    omega

theorem Sim.allocJob (h : Sim c r s) :
    Sim c
      { r with
        heap := r.heap.memoryPoolAllocJob.2
        jobs := r.heap.memoryPoolAllocJob.1.toList ++ r.jobs }
      (s.exec c .allocJob) := by
  have hchain := h.jobs
  simp only [exec]
  unfold Heap.memoryPoolAllocJob Allocators.allocJob MemoryPool.memoryPoolAllocJob
  cases hlist : s.m.pool.jobList with
  | cons j js =>
    rw [hlist] at hchain
    obtain ⟨hhead, hpos, htail⟩ := hchain
    rw [hhead, if_pos hpos]
    obtain ⟨hstateful, hstateless, hkind, hindex⟩ := h.flows
    exact ⟨h.flows_eq, congrArg (_ :: ·) h.jobs_eq, h.pds_eq, h.first_flow, h.first_job,
      h.first_pd, h.first_pdf, ⟨hstateful, hstateless, hkind, hindex⟩, htail, h.pds⟩
  | nil =>
    rw [hlist] at hchain
    have hhead : r.heap.jobListHead = 0 := hchain
    rw [if_neg (not_not.mpr hhead)]
    have hnext : r.heap.firstFreeJob - sizeofNlmJob =
        MemoryPool.jobAddr c.pool (s.m.pool.firstFreeJob + 1) := by
      rw [h.first_job]
      simp only [MemoryPool.jobAddr, sizeofNlmJob]
      omega
    by_cases hroom : MemoryPool.jobAddr c.pool (s.m.pool.firstFreeJob + 1) ≤ s.m.pool.firstFreeFlow
    · have hfull : r.heap.firstFreeJob - sizeofNlmJob ≤ r.heap.firstFreeFlow := by
        rw [hnext, h.first_flow]
        exact hroom
      rw [if_pos hfull]
      simp only [if_pos hroom]
      exact h
    · have hfree : ¬ r.heap.firstFreeJob - sizeofNlmJob ≤ r.heap.firstFreeFlow := by
        rw [hnext, h.first_flow]
        exact hroom
      rw [if_neg hfree]
      simp only [if_neg hroom]
      obtain ⟨hstateful, hstateless, hkind, hindex⟩ := h.flows
      refine ⟨h.flows_eq, ?_, h.pds_eq, h.first_flow, hnext, h.first_pd, h.first_pdf,
        ⟨hstateful, hstateless, hkind, hindex⟩, hchain, h.pds⟩
      simp only [Option.toList_some, List.singleton_append, List.map_cons]
      rw [h.first_job, h.jobs_eq]

theorem Sim.freePd (h : Sim c r s) (hinv : AllocRun.Inv c s) (hp : p ∈ s.pds) :
    Sim c
      { r with
        heap := r.heap.sysmemFreePd (c.pdAddr p)
        pds := r.pds.erase (c.pdAddr p) }
      (s.exec c (.freePd p)) := by
  obtain ⟨hstart, -, -⟩ := hinv.pds.slot p (List.mem_append_left _ hp)
  have hstore := Memory.store_same r.heap.sys (c.pdAddr p) r.heap.pdListHead
  have hout : Memory.SameOutside (c.pdAddr p) sizeofPd r.heap.sys
      (r.heap.sysmemFreePd (c.pdAddr p)).sys := by
    apply (hstore.mono le_rfl (by simp only [sizeofPd]; omega)).trans
    apply Memory.update_same
    · omega
    · simp only [cookieOffset, sizeofPd]
      omega
  have hlink : (r.heap.sysmemFreePd (c.pdAddr p)).sys.load (c.pdAddr p) = r.heap.pdListHead := by
    have hcookie : Memory.SameOutside (c.pdAddr p + cookieOffset) 4
        (r.heap.sys.store (c.pdAddr p) r.heap.pdListHead)
        (r.heap.sysmemFreePd (c.pdAddr p)).sys :=
      Memory.update_same _ _ le_rfl (by omega)
    rw [hcookie.load_eq (.inl (by simp only [cookieOffset]; omega))]
    exact Memory.load_store ..
  obtain ⟨hstateful, hstateless, hkind, hindex⟩ := h.flows
  refine ⟨h.flows_eq, h.jobs_eq, ?_, h.first_flow, h.first_job, h.first_pd, h.first_pdf,
    ⟨hstateful, hstateless, hkind, hindex⟩, h.jobs, ?_⟩
  · change r.pds.erase _ = _
    rw [h.pds_eq]
    apply erase_map
    intro q _ heq
    simp only [ThreadConfig.pdAddr, sizeofPd] at heq
    omega
  · refine FreeList.push h.pds (pdAddr_ne_zero hstart) hlink fun y hy ↦ ?_
    obtain ⟨q, hq, rfl⟩ := List.mem_map.mp hy
    have hne : q ≠ p := ((List.nodup_append.mp hinv.pds.nodup).2.2 p hp q hq).symm
    have happ := pd_apart c hne
    simp only [sizeofPd] at happ hout
    apply hout.load_eq
    omega

theorem Sim.allocPd (h : Sim c r s) :
    Sim c
      { r with
        heap := (r.heap.sysmemAllocPd c).2
        pds := (r.heap.sysmemAllocPd c).1.toList ++ r.pds }
      (s.exec c .allocPd) := by
  have hchain := h.pds
  obtain ⟨hstateful, hstateless, hkind, hindex⟩ := h.flows
  simp only [exec]
  unfold Heap.sysmemAllocPd Allocators.allocPd PdPool.sysmemAllocPd
  cases hlist : s.m.pds.pdList with
  | cons p ps =>
    rw [hlist] at hchain
    obtain ⟨hhead, hpos, htail⟩ := hchain
    rw [hhead, if_pos hpos]
    exact ⟨h.flows_eq, h.jobs_eq, congrArg (_ :: ·) h.pds_eq, h.first_flow, h.first_job,
      h.first_pd, h.first_pdf, ⟨hstateful, hstateless, hkind, hindex⟩, h.jobs, htail⟩
  | nil =>
    rw [hlist] at hchain
    have hhead : r.heap.pdListHead = 0 := hchain
    have hnext : r.heap.firstFreePd + sizeofPd = c.pdAddr (s.m.pds.firstFreePd + 1) := by
      rw [h.first_pd]
      simp only [ThreadConfig.pdAddr, sizeofPd]
      omega
    have hpd : (r.heap.firstFreePd - c.pdBase) / sizeofPd = s.m.pds.firstFreePd := by
      rw [h.first_pd]
      simp only [ThreadConfig.pdAddr, sizeofPd]
      omega
    have hroom : r.heap.firstFreePdf < r.heap.firstFreePd + sizeofPd ↔
        sizeofPdf * s.m.pds.firstFreePdf < sizeofPd * (s.m.pds.firstFreePd + 1) := by
      rw [hnext, h.first_pdf]
      simp only [ThreadConfig.pdAddr, ThreadConfig.pdfAddr]
      omega
    rw [if_neg (not_not.mpr hhead)]
    by_cases hfull : sizeofPdf * s.m.pds.firstFreePdf < sizeofPd * (s.m.pds.firstFreePd + 1)
    · rw [if_pos (hroom.mpr hfull)]
      simp only [if_pos hfull]
      exact h
    · rw [if_neg (mt hroom.mp hfull)]
      simp only [if_neg hfull, hpd]
      by_cases hbits : s.m.pds.firstFreePd >>> 24 ≠ 0
      · simp only [if_pos hbits]
        exact ⟨h.flows_eq, h.jobs_eq, h.pds_eq, h.first_flow, h.first_job, hnext, h.first_pdf,
          ⟨hstateful, hstateless, hkind, hindex⟩, h.jobs, hchain⟩
      · simp only [if_neg hbits]
        refine ⟨h.flows_eq, h.jobs_eq, ?_, h.first_flow, h.first_job, hnext, h.first_pdf,
          ⟨hstateful, hstateless, hkind, hindex⟩, h.jobs, hchain⟩
        simp only [Option.toList_some, List.singleton_append, List.map_cons]
        rw [h.first_pd, h.pds_eq]

/-! ## Runs -/

section Use

variable (h : Sim c r s) (hinv : AllocRun.Inv c s)
include h

theorem Sim.exists_job {x : ℕ} (hx : ∃ job ∈ r.jobs, job ≤ x ∧ x < job + sizeofNlmJob) :
    ∃ j ∈ s.jobs, MemoryPool.jobAddr c.pool j ≤ x ∧
      x < MemoryPool.jobAddr c.pool j + sizeofNlmJob := by
  obtain ⟨job, hmem, hle, hlt⟩ := hx
  rw [h.jobs_eq] at hmem
  obtain ⟨j, hj, rfl⟩ := List.mem_map.mp hmem
  exact ⟨j, hj, hle, hlt⟩

include hinv

/-- A cell of a flow slot is writable only through the flow in that slot. -/
theorem Sim.owner_of_writable (hf : f ∈ flowSlots s.m.pool s.flows) {x : ℕ} (hle : f ≤ x)
    (hlt : x < f + sizeofNlmFlow) (hx : r.PoolWritable x) :
    f ∈ s.flows ∧ x ≠ f + isStatelessOffset ∧
      (x = f + pdfIndexOffset → r.heap.isStateless f = true) := by
  rcases hx with ⟨g, hg, hgle, hglt, hkind, hindex⟩ | hex
  · rw [h.flows_eq] at hg
    have heq : g = f := by
      by_contra hne
      have happ := Inv.slots_apart hinv hf g (List.mem_append_left _ hg) hne
      omega
    subst heq
    exact ⟨hg, hkind, hindex⟩
  · -- no job in use overlaps a flow slot
    obtain ⟨j, hj, hjle, -⟩ := h.exists_job hex
    have hbelow := Inv.flow_below_job hinv hf (List.mem_append_left _ hj)
    omega

theorem Sim.use_flows (hpool : ∀ a, ¬ r.PoolWritable a → pool a = r.heap.pool a) :
    FlowSim pool r.heap.statefulFlowListHead r.heap.statelessFlowListHead r.given s.m s.flows := by
  apply h.flows.congr
  · intro f hf
    have hslot : f ∈ flowSlots s.m.pool s.flows := List.mem_append_right _ hf
    have hfree : ∀ x, f ≤ x → x < f + sizeofNlmFlow → pool x = r.heap.pool x := by
      intro x hle hlt
      apply hpool
      intro hx
      have hg := (h.owner_of_writable hinv hslot hle hlt hx).1
      exact (List.nodup_append.mp hinv.flows.nodup).2.2 f hg f hf rfl
    exact Memory.load_congr_within (by decide) hfree
  · intro f hf
    have hlt : f + isStatelessOffset < f + sizeofNlmFlow := by
      simp only [isStatelessOffset, sizeofNlmFlow]
      omega
    apply hpool
    intro hx
    exact (h.owner_of_writable hinv hf (Nat.le_add_right _ _) hlt hx).2.1 rfl
  · intro f hf hkind
    have hslot := mem_flowSlots_left hf
    have hlt : f + pdfIndexOffset < f + sizeofNlmFlow := by
      simp only [pdfIndexOffset, sizeofNlmFlow]
      omega
    apply hpool
    intro hx
    have htrue := (h.owner_of_writable hinv hslot (Nat.le_add_right _ _) hlt hx).2.2 rfl
    rw [Heap.isStateless, h.flows.kind f hslot, hkind] at htrue
    cases htrue

theorem Sim.use_jobs (hpool : ∀ a, ¬ r.PoolWritable a → pool a = r.heap.pool a) :
    FreeList pool.load r.heap.jobListHead
      (s.m.pool.jobList.map (MemoryPool.jobAddr c.pool)) := by
  apply h.jobs.congr
  intro y hy
  obtain ⟨i, hi, rfl⟩ := List.mem_map.mp hy
  have hmem : i ∈ s.jobs ++ s.m.pool.jobList := List.mem_append_right _ hi
  have hfree : ∀ x, MemoryPool.jobAddr c.pool i ≤ x →
      x < MemoryPool.jobAddr c.pool i + sizeofNlmJob → pool x = r.heap.pool x := by
    intro x hle hlt
    apply hpool
    rintro (⟨g, hg, hgle, hglt, -, -⟩ | hex)
    · rw [h.flows_eq] at hg
      have hbelow := Inv.flow_below_job hinv (List.mem_append_left _ hg) hmem
      omega
    · obtain ⟨j, hj, hjle, hjlt⟩ := h.exists_job hex
      have hne : i ≠ j := ((List.nodup_append.mp hinv.jobs.nodup).2.2 j hj i hi).symm
      have happ := Inv.job_apart hinv hmem (List.mem_append_left _ hj) hne
      omega
  exact Memory.load_congr_within (by decide) hfree

theorem Sim.use_pds (hsys : ∀ a, ¬ r.SysWritable a → sys a = r.heap.sys a) :
    FreeList sys.load r.heap.pdListHead (s.m.pds.pdList.map c.pdAddr) := by
  apply h.pds.congr
  intro y hy
  obtain ⟨q, hq, rfl⟩ := List.mem_map.mp hy
  obtain ⟨-, hlt, -⟩ := hinv.pds.slot q (List.mem_append_right _ hq)
  have hgap := hinv.chunk_gap.pd_le
  have hfree : ∀ x, c.pdAddr q ≤ x → x < c.pdAddr q + sizeofPd → sys x = r.heap.sys x := by
    intro x hle hx
    apply hsys
    rintro (⟨pd, hpd, hple, hplt⟩ | hpdf)
    · rw [h.pds_eq] at hpd
      obtain ⟨p, hp, rfl⟩ := List.mem_map.mp hpd
      have hne : q ≠ p := ((List.nodup_append.mp hinv.pds.nodup).2.2 p hp q hq).symm
      have happ := pd_apart c hne
      omega
    · rw [h.first_pdf] at hpdf
      simp only [ThreadConfig.pdAddr, ThreadConfig.pdfAddr, sizeofPd, sizeofPdf] at hx hpdf
      omega
  exact Memory.load_congr_within (by decide) hfree

/-- Whatever is written to objects in use, no free list is broken and no kind or PDF
index changes. -/
theorem Sim.use (hpool : ∀ a, ¬ r.PoolWritable a → pool a = r.heap.pool a)
    (hsys : ∀ a, ¬ r.SysWritable a → sys a = r.heap.sys a) :
    Sim c { r with heap := { r.heap with pool := pool, sys := sys } } s :=
  ⟨h.flows_eq, h.jobs_eq, h.pds_eq, h.first_flow, h.first_job, h.first_pd, h.first_pdf,
    h.use_flows hinv hpool, h.use_jobs hinv hpool, h.use_pds hinv hsys⟩

end Use

theorem sim_start (hc : c.Accepted) (pool sys : Memory) :
    Sim c (start c pool sys) (AllocRun.start c) := by
  have hbase := hc.base_aligned
  have hnil : ∀ {p : ℕ → Prop}, ∀ x ∈ ([] : List ℕ), p x := fun _ hx ↦ absurd hx List.not_mem_nil
  refine ⟨rfl, rfl, rfl, rfl, ?_, ?_, ?_, ⟨rfl, rfl, hnil, hnil⟩, rfl, rfl⟩
  · change c.pool.jobBase - sizeofNlmJob = c.pool.jobBase - sizeofNlmJob * 1
    rw [Nat.mul_one]
  · change (if alignUp 128 (c.pdBase + c.chunkOffset) = c.pdBase then _ else _) =
      c.pdBase + sizeofPd * c.pdStart
    have halign : alignUp 128 (c.pdBase + c.chunkOffset) =
        c.pdBase + alignUp 128 c.chunkOffset := by
      simp only [alignUp]
      omega
    have hdvd : alignUp 128 c.chunkOffset % 16 = 0 := by
      simp only [alignUp]
      omega
    unfold ThreadConfig.pdStart
    rw [halign]
    by_cases hzero : alignUp 128 c.chunkOffset = 0
    · rw [if_pos hzero, if_pos (by omega)]
      simp only [sizeofPd]
      omega
    · rw [if_neg hzero, if_neg (by omega)]
      simp only [sizeofPd]
      omega
  · change alignDown 128 (c.pdBase + c.chunkOffset + c.chunksize) - sizeofPdf =
      c.pdBase + sizeofPdf * (c.pdfEnd - 1)
    have hend := (pdStart_le hc).2
    unfold ThreadConfig.pdfEnd at hend ⊢
    simp only [alignDown, sizeofPdf] at hend ⊢
    omega

theorem Sim.step (hc : c.Accepted) (hddr : c.ddr = none) (h : Sim c r s)
    (hinv : AllocRun.Inv c s) (hstep : Step c r r') :
    ∃ s', AllocRun.Inv c s' ∧ Sim c r' s' := by
  cases hstep with
  | createFlow flowType =>
    refine ⟨_, hinv.exec (show s.Legal (.createFlow flowType) from trivial), ?_⟩
    cases flowType with
    | invalid => exact h
    | stateless => exact h.createStateless hinv
    | stateful => exact h.createStateful hc hddr hinv
  | freeFlow hflow =>
    rw [h.flows_eq] at hflow
    exact ⟨_, hinv.exec (show s.Legal (.freeFlow _) from hflow), h.freeFlow hinv hflow⟩
  | allocJob => exact ⟨_, hinv.exec (show s.Legal .allocJob from trivial), h.allocJob⟩
  | freeJob hjob =>
    rw [h.jobs_eq] at hjob
    obtain ⟨j, hj, rfl⟩ := List.mem_map.mp hjob
    exact ⟨_, hinv.exec (show s.Legal (.freeJob j) from hj), h.freeJob hinv hj⟩
  | allocPd => exact ⟨_, hinv.exec (show s.Legal .allocPd from trivial), h.allocPd⟩
  | freePd hpd =>
    rw [h.pds_eq] at hpd
    obtain ⟨p, hp, rfl⟩ := List.mem_map.mp hpd
    exact ⟨_, hinv.exec (show s.Legal (.freePd p) from hp), h.freePd hinv hp⟩
  | use hpool hsys => exact ⟨s, hinv, h.use hinv hpool hsys⟩

/-- Every heap that is reached is in the state of allocators with lists that keep
their invariant. -/
theorem Reachable.sim (hc : c.Accepted) (hddr : c.ddr = none) (h : Reachable c pool sys r) :
    ∃ s, AllocRun.Inv c s ∧ Sim c r s := by
  induction h with
  | refl => exact ⟨_, AllocRun.inv_start hc, sim_start hc pool sys⟩
  | tail _ hstep ih =>
    obtain ⟨s, hinv, hsim⟩ := ih
    exact hsim.step hc hddr hinv hstep

end HeapRun

end NetL7.Packet
