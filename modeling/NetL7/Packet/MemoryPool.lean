import NetL7.Packet.Device

/-!
# Flows, jobs and cookies in the memory pool of a thread

Flows are allocated from the low end of the pool and jobs from the high end. A
job is named by its distance from `job_base`, which is also its index in the
cookie of its FD, PD and RD. Sizes are those of a 64-bit machine.
-/

namespace NetL7.Packet

def sizeofNlmDevice : ℕ := 160

def sizeofNlmFlow : ℕ := 72

def sizeofNlmJob : ℕ := 88

/-- The memory that `device_attach` gets for one thread. -/
structure PoolConfig where
  memoryPool : ℕ
  memoryPoolSize : ℕ
  threadId : ℕ

namespace PoolConfig

variable (c : PoolConfig)

/-- What `nlm_device_init` and `nlm_device_attach` check of a thread. -/
structure Accepted (c : PoolConfig) : Prop where
  aligned : c.memoryPool % 8 = 0
  size_lt : c.memoryPoolSize < 2 ^ 32
  thread_lt : c.threadId < 256

/-- The first free flow after `device_attach`. -/
def flowBase : ℕ := (c.memoryPool + sizeofNlmDevice + 7) / 8 * 8

/-- `job_base` -/
def jobBase : ℕ := (c.memoryPool + c.memoryPoolSize) / 8 * 8

end PoolConfig

/-- The allocator of a thread. A job slot is its distance from `job_base`. -/
structure MemoryPool where
  firstFreeFlow : ℕ
  statefulFlowList : List ℕ
  statelessFlowList : List ℕ
  firstFreeJob : ℕ
  jobList : List ℕ

namespace MemoryPool

variable (c : PoolConfig) (m : MemoryPool)

/-- The pool after `device_attach`. -/
def attach : MemoryPool := ⟨c.flowBase, [], [], 1, []⟩

/-- The address of a job. -/
def jobAddr (job : ℕ) : ℕ := c.jobBase - sizeofNlmJob * job

/-- A flow that was never used. -/
def allocFreshFlow : Option (ℕ × MemoryPool) :=
  if m.firstFreeFlow + sizeofNlmFlow ≥ jobAddr c m.firstFreeJob then none
  else some (m.firstFreeFlow, { m with firstFreeFlow := m.firstFreeFlow + sizeofNlmFlow })

/-- `memory_pool_alloc_flow` -/
def memoryPoolAllocFlow (flowType : NlmFlowType) : Option (ℕ × MemoryPool) :=
  match flowType with
  | .stateless =>
    match m.statelessFlowList with
    | flow :: flows => some (flow, { m with statelessFlowList := flows })
    | [] => allocFreshFlow c m
  | _ =>
    match m.statefulFlowList with
    | flow :: flows => some (flow, { m with statefulFlowList := flows })
    | [] => allocFreshFlow c m

/-- `memory_pool_free_flow` -/
def memoryPoolFreeFlow (flow : ℕ) (isStateless : Bool) : MemoryPool :=
  if isStateless then { m with statelessFlowList := flow :: m.statelessFlowList }
  else { m with statefulFlowList := flow :: m.statefulFlowList }

/-- `memory_pool_alloc_job` -/
def memoryPoolAllocJob : Option (ℕ × MemoryPool) :=
  match m.jobList with
  | job :: jobs => some (job, { m with jobList := jobs })
  | [] =>
    if jobAddr c (m.firstFreeJob + 1) ≤ m.firstFreeFlow then none
    else some (m.firstFreeJob, { m with firstFreeJob := m.firstFreeJob + 1 })

/-- `memory_pool_free_job` -/
def memoryPoolFreeJob (job : ℕ) : MemoryPool := { m with jobList := job :: m.jobList }

end MemoryPool

/-- The pool, the flows and jobs that the application holds, and the cookie
that each job slot was given last. -/
structure PoolRun where
  pool : MemoryPool
  flows : List ℕ
  live : List ℕ
  cookie : ℕ → ℕ

open MemoryPool in
/-- The calls that allocate and free flows and jobs. -/
inductive PoolStep (c : PoolConfig) : PoolRun → PoolRun → Prop
  | createFlow {s : PoolRun} {flow : ℕ} {pool : MemoryPool} (flowType : NlmFlowType)
      (halloc : memoryPoolAllocFlow c s.pool flowType = some (flow, pool)) :
      PoolStep c s { s with pool := pool, flows := flow :: s.flows }
  | createFlowFailed {s : PoolRun} {flow : ℕ} {pool : MemoryPool}
      (halloc : memoryPoolAllocFlow c s.pool .stateful = some (flow, pool)) :
      PoolStep c s { s with pool := pool }
  | freeFlow {s : PoolRun} {flow : ℕ} (hflow : flow ∈ s.flows) (isStateless : Bool) :
      PoolStep c s { s with
        pool := s.pool.memoryPoolFreeFlow flow isStateless
        flows := s.flows.erase flow }
  | enqueue {s : PoolRun} {flow job : ℕ} {pool : MemoryPool} (hflow : flow ∈ s.flows)
      (halloc : memoryPoolAllocJob c s.pool = some (job, pool)) :
      PoolStep c s { s with
        pool := pool
        live := job :: s.live
        cookie := Function.update s.cookie job (nlmEncodeCookie c.threadId job) }
  | enqueueFailed {s : PoolRun} {flow job : ℕ} {pool : MemoryPool} (hflow : flow ∈ s.flows)
      (halloc : memoryPoolAllocJob c s.pool = some (job, pool)) :
      PoolStep c s { s with
        pool := pool
        cookie := Function.update s.cookie job (nlmEncodeCookie c.threadId job) }
  | freeJob {s : PoolRun} {job : ℕ} (hjob : job ∈ s.live) :
      PoolStep c s { s with
        pool := s.pool.memoryPoolFreeJob job
        live := s.live.erase job }

namespace PoolRun

variable {c c' : PoolConfig} {s s' : PoolRun} {job job' : ℕ}

def start (c : PoolConfig) : PoolRun := ⟨MemoryPool.attach c, [], [], fun _ ↦ 0⟩

def Reachable (c : PoolConfig) : PoolRun → Prop :=
  Relation.ReflTransGen (PoolStep c) (start c)

/-- The cookie of every live job is nonzero and leads back to its thread and to
the job, and to no other. -/
def CookiesOk (c : PoolConfig) (s : PoolRun) : Prop :=
  ∀ job ∈ s.live, s.cookie job ≠ 0 ∧ nlmGetThreadId (s.cookie job) = c.threadId ∧
    nlmGetJobIndex (s.cookie job) = job ∧
    ∀ job' ∈ s.live, s.cookie job = s.cookie job' → job = job'

/-- At least `2 ^ 24` jobs fit next to one flow. -/
def CookieOverflow (c : PoolConfig) : Prop :=
  c.flowBase + sizeofNlmFlow + sizeofNlmJob * (2 ^ 24 + 1) < c.jobBase

/-! ## The encoding -/

theorem encodeCookie_eq {threadId : ℕ} (h : threadId < 256) (job : ℕ) :
    nlmEncodeCookie threadId job = 2 ^ 24 * threadId + job % 2 ^ 24 := by
  have hmask : (0xFF000000 : ℕ) = 255 <<< 24 := by decide
  have hlow : (0x00FFFFFF : ℕ) = 2 ^ 24 - 1 := by decide
  have hand : threadId &&& 255 = threadId := by
    have hmod := Nat.and_two_pow_sub_one_eq_mod threadId 8
    rw [Nat.mod_eq_of_lt h] at hmod
    exact hmod
  unfold nlmEncodeCookie
  rw [hmask, ← Nat.shiftLeft_and_distrib, hand, hlow, Nat.and_two_pow_sub_one_eq_mod,
    Nat.shiftLeft_eq, Nat.mul_comm threadId]
  exact (Nat.two_pow_add_eq_or_of_lt (Nat.mod_lt _ (by decide)) _).symm

theorem getThreadId_encodeCookie {threadId : ℕ} (h : threadId < 256) (job : ℕ) :
    nlmGetThreadId (nlmEncodeCookie threadId job) = threadId := by
  have hmask : (0xFF000000 : ℕ) >>> 24 = 2 ^ 8 - 1 := by decide
  have hdiv : (2 ^ 24 * threadId + job % 2 ^ 24) / 2 ^ 24 = threadId := by
    rw [Nat.mul_add_div (by decide), Nat.div_eq_of_lt (Nat.mod_lt _ (by decide)), Nat.add_zero]
  unfold nlmGetThreadId
  rw [Nat.shiftRight_and_distrib, hmask, Nat.and_two_pow_sub_one_eq_mod, Nat.shiftRight_eq_div_pow,
    encodeCookie_eq h, hdiv]
  exact Nat.mod_eq_of_lt h

theorem getJobIndex_encodeCookie {threadId : ℕ} (h : threadId < 256) (job : ℕ) :
    nlmGetJobIndex (nlmEncodeCookie threadId job) = job % 2 ^ 24 := by
  have hlow : (0x00FFFFFF : ℕ) = 2 ^ 24 - 1 := by decide
  unfold nlmGetJobIndex
  rw [hlow, Nat.and_two_pow_sub_one_eq_mod, encodeCookie_eq h, Nat.mul_add_mod, Nat.mod_mod]

/-! ## The jobs that can be live -/

/-- Flows lie below `first_free_flow`, job slots above `first_free_job`. -/
structure Inv (c : PoolConfig) (s : PoolRun) : Prop where
  base_le : c.flowBase ≤ s.pool.firstFreeFlow
  flow_le : s.flows ≠ [] → c.flowBase + sizeofNlmFlow ≤ s.pool.firstFreeFlow
  lists_le : s.pool.statefulFlowList ++ s.pool.statelessFlowList ≠ [] →
    c.flowBase + sizeofNlmFlow ≤ s.pool.firstFreeFlow
  job_room : 1 < s.pool.firstFreeJob →
    c.flowBase + sizeofNlmFlow + sizeofNlmJob * s.pool.firstFreeJob < c.jobBase
  slots : ∀ job ∈ s.live ++ s.pool.jobList, 0 < job ∧ job < s.pool.firstFreeJob
  nodup : (s.live ++ s.pool.jobList).Nodup
  first_pos : 0 < s.pool.firstFreeJob
  cookies : ∀ job ∈ s.live, s.cookie job = nlmEncodeCookie c.threadId job

theorem inv_start (c : PoolConfig) : Inv c (start c) where
  base_le := le_rfl
  flow_le := fun h ↦ absurd rfl h
  lists_le := fun h ↦ absurd rfl h
  job_room := fun h ↦ absurd h (lt_irrefl 1)
  slots := fun _ hjob ↦ absurd hjob List.not_mem_nil
  nodup := List.nodup_nil
  first_pos := Nat.one_pos
  cookies := fun _ hjob ↦ absurd hjob List.not_mem_nil

theorem Inv.allocFlow (h : Inv c s) {flowType : NlmFlowType} {flow : ℕ} {pool : MemoryPool}
    (halloc : s.pool.memoryPoolAllocFlow c flowType = some (flow, pool)) :
    c.flowBase + sizeofNlmFlow ≤ pool.firstFreeFlow ∧
      pool.firstFreeJob = s.pool.firstFreeJob ∧ pool.jobList = s.pool.jobList := by
  have hfresh : ∀ {flow : ℕ} {pool : MemoryPool},
      s.pool.allocFreshFlow c = some (flow, pool) →
        c.flowBase + sizeofNlmFlow ≤ pool.firstFreeFlow ∧
          pool.firstFreeJob = s.pool.firstFreeJob ∧ pool.jobList = s.pool.jobList := by
    intro flow pool hsome
    unfold MemoryPool.allocFreshFlow at hsome
    split at hsome
    · cases hsome
    · cases hsome
      exact ⟨Nat.add_le_add_right h.base_le _, rfl, rfl⟩
  cases flowType with
  | stateless =>
    cases hlist : s.pool.statelessFlowList with
    | nil =>
      apply hfresh
      simpa only [MemoryPool.memoryPoolAllocFlow, hlist] using halloc
    | cons flow' flows =>
      simp only [MemoryPool.memoryPoolAllocFlow, hlist] at halloc
      cases halloc
      refine ⟨h.lists_le ?_, rfl, rfl⟩
      simp [hlist]
  | stateful =>
    cases hlist : s.pool.statefulFlowList with
    | nil =>
      apply hfresh
      simpa only [MemoryPool.memoryPoolAllocFlow, hlist] using halloc
    | cons flow' flows =>
      simp only [MemoryPool.memoryPoolAllocFlow, hlist] at halloc
      cases halloc
      refine ⟨h.lists_le ?_, rfl, rfl⟩
      simp [hlist]
  | invalid =>
    cases hlist : s.pool.statefulFlowList with
    | nil =>
      apply hfresh
      simpa only [MemoryPool.memoryPoolAllocFlow, hlist] using halloc
    | cons flow' flows =>
      simp only [MemoryPool.memoryPoolAllocFlow, hlist] at halloc
      cases halloc
      refine ⟨h.lists_le ?_, rfl, rfl⟩
      simp [hlist]

/-- An allocated job slot was free, and lies in the room above the flows. -/
theorem Inv.allocJob (h : Inv c s) {pool : MemoryPool} (hflows : s.flows ≠ [])
    (halloc : s.pool.memoryPoolAllocJob c = some (job, pool)) :
    (job :: (s.live ++ pool.jobList)).Nodup ∧
      (∀ i ∈ job :: (s.live ++ pool.jobList), 0 < i ∧ i < pool.firstFreeJob) ∧
      c.flowBase + sizeofNlmFlow + sizeofNlmJob * pool.firstFreeJob < c.jobBase ∧
      pool.firstFreeFlow = s.pool.firstFreeFlow ∧
      pool.statefulFlowList = s.pool.statefulFlowList ∧
      pool.statelessFlowList = s.pool.statelessFlowList := by
  have hflow := h.flow_le hflows
  cases hlist : s.pool.jobList with
  | cons j js =>
    simp only [MemoryPool.memoryPoolAllocJob, hlist] at halloc
    cases halloc
    have hperm : (s.live ++ job :: js).Perm (job :: (s.live ++ js)) := List.perm_middle
    have hslots := h.slots
    have hnodup := h.nodup
    rw [hlist] at hslots hnodup
    have hjob := hslots job (List.mem_append_right _ List.mem_cons_self)
    refine ⟨hperm.nodup_iff.mp hnodup, fun i hi ↦ hslots i (hperm.mem_iff.mpr hi), ?_,
      rfl, rfl, rfl⟩
    apply h.job_room
    omega
  | nil =>
    simp only [MemoryPool.memoryPoolAllocJob, hlist] at halloc
    split at halloc
    · cases halloc
    · rename_i hroom
      cases halloc
      have hslots := h.slots
      have hnodup := h.nodup
      rw [hlist, List.append_nil] at hslots hnodup
      have hpos := h.first_pos
      simp only [List.append_nil]
      refine ⟨?_, fun i hi ↦ ?_, ?_, trivial, trivial, trivial⟩
      · apply List.nodup_cons.mpr
        exact ⟨fun hmem ↦ absurd (hslots _ hmem).2 (lt_irrefl _), hnodup⟩
      · rcases List.mem_cons.mp hi with rfl | hi
        · exact ⟨hpos, Nat.lt_succ_self _⟩
        · exact ⟨(hslots i hi).1, (hslots i hi).2.trans (Nat.lt_succ_self _)⟩
      · simp only [MemoryPool.jobAddr, sizeofNlmJob] at hroom ⊢
        omega

/-- A flow was taken, whether or not the call returned it. -/
theorem Inv.flowTaken (h : Inv c s) {flowType : NlmFlowType} {flow : ℕ} {pool : MemoryPool}
    (halloc : s.pool.memoryPoolAllocFlow c flowType = some (flow, pool)) (flows : List ℕ) :
    Inv c { s with pool := pool, flows := flows } := by
  obtain ⟨hflow, hfirst, hlist⟩ := h.allocFlow halloc
  refine ⟨(Nat.le_add_right _ _).trans hflow, fun _ ↦ hflow, fun _ ↦ hflow, ?_, ?_, ?_, ?_,
    h.cookies⟩
  · rw [hfirst]
    exact h.job_room
  · rw [hlist, hfirst]
    exact h.slots
  · rw [hlist]
    exact h.nodup
  · rw [hfirst]
    exact h.first_pos

theorem Inv.jobTaken (h : Inv c s) (hflows : s.flows ≠ []) {job : ℕ} {pool : MemoryPool}
    (halloc : s.pool.memoryPoolAllocJob c = some (job, pool)) :
    Inv c ⟨pool, s.flows, job :: s.live,
      Function.update s.cookie job (nlmEncodeCookie c.threadId job)⟩ := by
  obtain ⟨hnodup, hslots, hroom, hfirst, hstateful, hstateless⟩ := h.allocJob hflows halloc
  refine ⟨?_, ?_, ?_, fun _ ↦ hroom, hslots, hnodup, ?_, fun i hi ↦ ?_⟩
  · rw [hfirst]
    exact h.base_le
  · rw [hfirst]
    exact h.flow_le
  · rw [hfirst, hstateful, hstateless]
    exact h.lists_le
  · exact Nat.zero_lt_of_lt (hslots _ List.mem_cons_self).2
  · rcases List.mem_cons.mp hi with rfl | hi
    · exact Function.update_self ..
    · have hne : i ≠ job := fun heq ↦
        (List.nodup_cons.mp hnodup).1 (heq ▸ List.mem_append_left _ hi)
      exact (Function.update_of_ne hne ..).trans (h.cookies i hi)

/-- A slot may be lost. -/
theorem Inv.loseJob {pool : MemoryPool} {flows live : List ℕ} {cookie : ℕ → ℕ}
    (h : Inv c ⟨pool, flows, job :: live, cookie⟩) : Inv c ⟨pool, flows, live, cookie⟩ where
  base_le := h.base_le
  flow_le := h.flow_le
  lists_le := h.lists_le
  job_room := h.job_room
  slots i hi := h.slots i (List.mem_cons_of_mem _ hi)
  nodup := (List.nodup_cons.mp h.nodup).2
  first_pos := h.first_pos
  cookies i hi := h.cookies i (List.mem_cons_of_mem _ hi)

theorem Inv.step (h : Inv c s) (hstep : PoolStep c s s') : Inv c s' := by
  cases hstep with
  | createFlow flowType halloc => exact h.flowTaken halloc _
  | createFlowFailed halloc => exact h.flowTaken halloc _
  | freeFlow hflow isStateless =>
    have hbase := h.flow_le (List.ne_nil_of_mem hflow)
    cases isStateless with
    | true =>
      exact ⟨h.base_le, fun _ ↦ hbase, fun _ ↦ hbase, h.job_room, h.slots, h.nodup,
        h.first_pos, h.cookies⟩
    | false =>
      exact ⟨h.base_le, fun _ ↦ hbase, fun _ ↦ hbase, h.job_room, h.slots, h.nodup,
        h.first_pos, h.cookies⟩
  | enqueue hflow halloc => exact h.jobTaken (List.ne_nil_of_mem hflow) halloc
  | enqueueFailed hflow halloc => exact (h.jobTaken (List.ne_nil_of_mem hflow) halloc).loseJob
  | @freeJob job hjob =>
    have hperm : (s.live ++ s.pool.jobList).Perm
        (s.live.erase job ++ job :: s.pool.jobList) :=
      ((List.perm_cons_erase hjob).append_right _).trans List.perm_middle.symm
    exact ⟨h.base_le, h.flow_le, h.lists_le, h.job_room,
      fun i hi ↦ h.slots i (hperm.mem_iff.mpr hi), hperm.nodup_iff.mp h.nodup, h.first_pos,
      fun i hi ↦ h.cookies i (List.mem_of_mem_erase hi)⟩

theorem Reachable.inv (h : Reachable c s) : Inv c s := by
  induction h with
  | refl => exact inv_start c
  | tail _ hstep ih => exact ih.step hstep

/-- Jobs of distinct threads never share a cookie. -/
theorem Inv.cookie_ne (h : Inv c s) (h' : Inv c' s') (hc : c.Accepted) (hc' : c'.Accepted)
    (hne : c'.threadId ≠ c.threadId) (hjob : job ∈ s.live) (hjob' : job' ∈ s'.live) :
    s.cookie job ≠ s'.cookie job' := by
  intro heq
  apply hne
  rw [h.cookies job hjob, h'.cookies job' hjob'] at heq
  rw [← getThreadId_encodeCookie hc'.thread_lt job', ← heq,
    getThreadId_encodeCookie hc.thread_lt]

/-- Without overflow every live job has an index that fits in a cookie. -/
theorem Inv.job_lt (h : Inv c s) (hfit : ¬ CookieOverflow c) (hjob : job ∈ s.live) :
    job < 2 ^ 24 := by
  obtain ⟨hpos, hlt⟩ := h.slots job (List.mem_append_left _ hjob)
  have hroom := h.job_room (by omega)
  unfold CookieOverflow at hfit
  simp only [sizeofNlmJob] at hroom hfit
  omega

/-- Where there is room, `n` jobs can be live at once. -/
theorem exists_live_jobs (n : ℕ)
    (hroom : c.flowBase + sizeofNlmFlow + sizeofNlmJob * (n + 1) < c.jobBase) :
    ∃ s, Reachable c s ∧ s.flows ≠ [] ∧ s.pool.firstFreeFlow = c.flowBase + sizeofNlmFlow ∧
      s.pool.jobList = [] ∧ s.pool.firstFreeJob = n + 1 ∧ ∀ i, 0 < i → i ≤ n → i ∈ s.live := by
  induction n with
  | zero =>
    have hspace : ¬ c.flowBase + sizeofNlmFlow ≥ MemoryPool.jobAddr c 1 := by
      simp only [MemoryPool.jobAddr, sizeofNlmJob] at hroom ⊢
      omega
    have halloc : (start c).pool.memoryPoolAllocFlow c .stateless = some (c.flowBase,
        { (start c).pool with firstFreeFlow := c.flowBase + sizeofNlmFlow }) := if_neg hspace
    have hstep := PoolStep.createFlow .stateless halloc
    exact ⟨_, Relation.ReflTransGen.refl.tail hstep, List.cons_ne_nil _ _, rfl, rfl, rfl,
      fun i hpos hle ↦ absurd hpos (Nat.not_lt.mpr hle)⟩
  | succ n ih =>
    obtain ⟨s, hreach, hflows, hfirst, hlist, hjob, hlive⟩ := ih (by
      simp only [sizeofNlmJob] at hroom ⊢
      omega)
    have hspace : ¬ MemoryPool.jobAddr c (s.pool.firstFreeJob + 1) ≤ s.pool.firstFreeFlow := by
      rw [hfirst, hjob]
      simp only [MemoryPool.jobAddr, sizeofNlmJob] at hroom ⊢
      omega
    have halloc : s.pool.memoryPoolAllocJob c = some (n + 1,
        { s.pool with firstFreeJob := s.pool.firstFreeJob + 1 }) := by
      rw [hjob] at hspace
      simp only [MemoryPool.memoryPoolAllocJob, hlist, hjob, if_neg hspace]
    obtain ⟨flow, hflow⟩ := List.exists_mem_of_ne_nil _ hflows
    have hstep := PoolStep.enqueue hflow halloc
    refine ⟨_, hreach.tail hstep, hflows, hfirst, hlist, congrArg (· + 1) hjob,
      fun i hpos hle ↦ ?_⟩
    rcases hle.lt_or_eq with hlt | rfl
    · exact List.mem_cons_of_mem _ (hlive i hpos (Nat.le_of_lt_succ hlt))
    · exact List.mem_cons_self

/-- The cookies of the live jobs are right in every reachable state exactly if
fewer than `2 ^ 24` jobs fit into the pool next to one flow. Jobs of two
threads never share one. -/
theorem cookies_ok_iff (hc : c.Accepted) :
    (∀ s, Reachable c s → CookiesOk c s ∧
      ∀ c' s', c'.Accepted → Reachable c' s' → c'.threadId ≠ c.threadId →
        ∀ job ∈ s.live, ∀ job' ∈ s'.live, s.cookie job ≠ s'.cookie job') ↔
      ¬ CookieOverflow c := by
  constructor
  · intro hall hover
    obtain ⟨s, hreach, -, -, -, -, hlive⟩ := exists_live_jobs (2 ^ 24) hover
    have hjob := hlive (2 ^ 24) (by decide) le_rfl
    have hindex := ((hall s hreach).1 (2 ^ 24) hjob).2.2.1
    rw [hreach.inv.cookies _ hjob, getJobIndex_encodeCookie hc.thread_lt, Nat.mod_self] at hindex
    exact absurd hindex (by decide)
  · intro hfit s hreach
    have h := hreach.inv
    refine ⟨fun job hjob ↦ ?_, fun c' s' hc' hreach' hne job hjob job' hjob' ↦
      h.cookie_ne hreach'.inv hc hc' hne hjob hjob'⟩
    have hindex : ∀ i ∈ s.live, nlmGetJobIndex (s.cookie i) = i := fun i hi ↦ by
      rw [h.cookies i hi, getJobIndex_encodeCookie hc.thread_lt]
      exact Nat.mod_eq_of_lt (h.job_lt hfit hi)
    refine ⟨fun hzero ↦ ?_, ?_, hindex job hjob, fun job' hjob' heq ↦ ?_⟩
    · have hself := hindex job hjob
      rw [hzero] at hself
      have hpos := (h.slots job (List.mem_append_left _ hjob)).1
      exact absurd hself.symm (Nat.ne_of_gt hpos)
    · rw [h.cookies job hjob]
      exact getThreadId_encodeCookie hc.thread_lt job
    · rw [← hindex job hjob, heq, hindex job' hjob']

/-- The smallest pool that `nlm_device_init` accepts for a single thread. -/
theorem cookies_ok_iff_sample :
    (PoolConfig.mk 4096 32768 0).Accepted ∧
      ∀ s, Reachable ⟨4096, 32768, 0⟩ s → CookiesOk ⟨4096, 32768, 0⟩ s := by
  have hc : (PoolConfig.mk 4096 32768 0).Accepted := ⟨by decide, by decide, by decide⟩
  have hfit : ¬ CookieOverflow ⟨4096, 32768, 0⟩ := by
    unfold CookieOverflow
    decide
  exact ⟨hc, fun s hreach ↦ ((cookies_ok_iff hc).mpr hfit s hreach).1⟩

/-- In the largest pool thread 0 can have a live job whose cookie is 0. -/
theorem largestPool_zero_cookie :
    ∃ s, Reachable ⟨4096, 4294967288, 0⟩ s ∧ 2 ^ 24 ∈ s.live ∧ s.cookie (2 ^ 24) = 0 := by
  have hroom : (PoolConfig.mk 4096 4294967288 0).flowBase + sizeofNlmFlow +
      sizeofNlmJob * (2 ^ 24 + 1) < (PoolConfig.mk 4096 4294967288 0).jobBase := by
    decide
  obtain ⟨s, hreach, -, -, -, -, hlive⟩ := exists_live_jobs (2 ^ 24) hroom
  have hjob := hlive (2 ^ 24) (by decide) le_rfl
  refine ⟨s, hreach, hjob, ?_⟩
  rw [hreach.inv.cookies _ hjob, encodeCookie_eq (by decide), Nat.mod_self]
  rfl

end PoolRun

end NetL7.Packet
