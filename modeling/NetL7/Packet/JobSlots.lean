import NetL7.Packet.FailedCalls
import NetL7.Packet.InFlight
import NetL7.Packet.Marks

/-!
# The jobs of a thread

The jobs that wait to be started and those that the hardware has, over any sequence
of calls. The marks of the PDs tell them apart, and the slots of flows keep their
kinds.
-/

namespace NetL7.Packet

open NetL7.Device AllocRun NlmDevice

/-- A thread, the flow slots that were ever handed out, the jobs that wait to be
started and the jobs that the hardware has. -/
structure JobRun where
  t : Thread
  used : List ℕ
  waiting : List ℕ
  started : List ℕ

namespace NlmDevice

variable {f i j p q userCookie : ℕ} {packet : Payload}

theorem enqueueStateless_job (s : NlmDevice) (f j userCookie : ℕ) (packet : Payload) :
    (s.enqueueStateless f j userCookie packet).jobs j =
      { (s.jobs j).ofFlow (s.flows f) f userCookie (nlmEncodeCookie s.threadId j) with
        pd := none
        fd := ((s.enqueueStateless f j userCookie packet).jobs j).fd } := by
  simp [enqueueStateless, setJob]

theorem enqueueStateless_job_of_ne (s : NlmDevice) (h : i ≠ j) :
    (s.enqueueStateless f j userCookie packet).jobs i = s.jobs i :=
  Function.update_of_ne h ..

theorem enqueueStateful_job (s : NlmDevice) (f j p userCookie : ℕ) (packet : Payload) :
    (s.enqueueStateful f j p userCookie packet).jobs j =
      { (s.jobs j).ofFlow (s.flows f) f userCookie (nlmEncodeCookie s.threadId j) with
        pd := some p } :=
  Function.update_self ..

theorem enqueueStateful_job_of_ne (s : NlmDevice) (h : i ≠ j) :
    (s.enqueueStateful f j p userCookie packet).jobs i = s.jobs i :=
  Function.update_of_ne h ..

theorem enqueueStateful_mark (s : NlmDevice) :
    ((s.enqueueStateful f j p userCookie packet).pds p).rsv01 = .createdButNotStarted ∧
      ((s.enqueueStateful f j p userCookie packet).pds p).cookie =
        nlmEncodeCookie s.threadId j := by
  simp [enqueueStateful, setPd]

theorem enqueueStateful_pd_of_ne (s : NlmDevice) (h : q ≠ p) :
    (s.enqueueStateful f j p userCookie packet).pds q = s.pds q :=
  Function.update_of_ne h ..

theorem sysmemFreePd_of_ne (s : NlmDevice) (h : q ≠ p) : (s.sysmemFreePd p).pds q = s.pds q :=
  Function.update_of_ne h ..

end NlmDevice

namespace JobRun

/-- The jobs that are not completed. -/
def live (s : JobRun) : List ℕ := s.waiting ++ s.started

/-- The calls of a thread, and the FDs that the other side takes. -/
inductive Step (c : ThreadConfig) (k : PacketConfig) : JobRun → JobRun → Prop
  | createFlow {s : JobRun} {f : ℕ} {m : Allocators} (flowType : NlmFlowType)
      (hcall : s.t.m.nlmCreateFlow c flowType = (.ok, some f, m)) :
      Step c k s { s with
        t := { s.t with
          device := s.t.device.setFlow f fun _ ↦ InFlight.createdFlow flowType (m.pdfIndex f)
          m := m }
        used := f :: s.used }
  | createFlowFailed {s : JobRun} {status : NlmStatus} {m : Allocators} (flowType : NlmFlowType)
      (hcall : s.t.m.nlmCreateFlow c flowType = (status, none, m)) :
      Step c k s { s with t := { s.t with m := m } }
  | changeGroups {s : JobRun} (f : ℕ) (groups : List ℕ) (combination : ℕ) :
      Step c k s { s with
        t := { s.t with
          device := s.t.device.setFlow f fun flow ↦
            { flow with dbGroupId := groups, dbGroupCombination := combination } } }
  | enqueue {s : JobRun} {f start stop userCookie j : ℕ} {t : Thread} (hf : f ∈ s.used)
      (hcall : s.t.nlmFlowEnqueueSearch c k f start stop userCookie = (.ok, some j, t)) :
      Step c k s { s with t := t, waiting := j :: s.waiting }
  | enqueueFailed {s : JobRun} {f start stop userCookie : ℕ} {status : NlmStatus}
      {job : Option ℕ} {t : Thread} (hstatus : status ≠ .ok)
      (hcall : s.t.nlmFlowEnqueueSearch c k f start stop userCookie = (status, job, t)) :
      Step c k s { s with t := t }
  | cancel {s : JobRun} {j : ℕ} {t : Thread} (hj : j ∈ s.waiting)
      (hcall : s.t.nlmCancelJob j = .ok (.ok, t)) :
      Step c k s { s with t := t, waiting := s.waiting.erase j }
  | startOk {s : JobRun} {batch : List (Option ℕ)} {taken : ℕ → ℕ} {device : NlmDevice}
      (hwait : ∀ j ∈ batch.reduceOption, j ∈ s.waiting) (hnodup : batch.reduceOption.Nodup)
      (hcall : s.t.device.nlmStartJobs taken batch = .ok (.ok, device)) :
      Step c k s { s with
        t := { s.t with device := device }
        waiting := s.waiting.filter (· ∉ batch.reduceOption)
        started := batch.reduceOption ++ s.started }
  | startError {s : JobRun} {batch : List (Option ℕ)} {taken : ℕ → ℕ} {status : NlmStatus}
      {device : NlmDevice} (hstatus : status ≠ .ok)
      (hcall : s.t.device.nlmStartJobs taken batch = .ok (status, device)) :
      Step c k s { s with t := { s.t with device := device } }
  | destroyStateful {s : JobRun} {f userCookie : ℕ} {taken : ℕ → ℕ} {status : NlmStatus}
      {t : Thread} (hf : f ∈ s.used)
      (hcall : s.t.nlmDestroyStatefulFlow c k taken f userCookie = .ok (status, t)) :
      Step c k s { s with
        t := t
        started := if status = .ok then
          (s.t.enqueueFinish c k f userCookie).2.1.toList ++ s.started else s.started }
  | destroyStateless {s : JobRun} {f : ℕ} (hf : f ∈ s.used) :
      Step c k s { s with
        t := { s.t with
          device := (s.t.device.nlmDestroyStatelessFlow f).2.1
          m := if (s.t.device.nlmDestroyStatelessFlow f).2.2 then s.t.m.freeFlow f else s.t.m } }
  | finishStateful {s : JobRun} {j f p errorCode : ℕ} {isFrd : Bool} {device : NlmDevice}
      (hj : j ∈ s.started) (hflow : (s.t.device.jobs j).flow = some f)
      (hpd : (s.t.device.jobs j).pd = some p)
      (hcall : s.t.device.finishStateful f p errorCode isFrd = .ok device) :
      Step c k s { s with
        t := { s.t with
          device := device
          m :=
            ((if (s.t.device.pds p).flowTerm then s.t.m.freeFlow f else s.t.m).freePd p).freeJob j }
        started := s.started.erase j }
  | finishStateless {s : JobRun} {j f : ℕ} (errorCode : ℕ) (hj : j ∈ s.started)
      (hflow : (s.t.device.jobs j).flow = some f) (hpd : (s.t.device.jobs j).pd = none) :
      Step c k s { s with
        t := { s.t with
          device := (s.t.device.finishStateless f errorCode).1
          m := if (s.t.device.finishStateless f errorCode).2 then (s.t.m.freeJob j).freeFlow f
            else s.t.m.freeJob j }
        started := s.started.erase j }
  | tryStart {s : JobRun} {taken : ℕ → ℕ} {device : NlmDevice}
      (hcall : s.t.device.nlmTryStartStatefulFlows taken = .ok device) :
      Step c k s { s with t := { s.t with device := device } }
  | take {s : JobRun} (n : ℕ) :
      Step c k s { s with t := { s.t with device := s.t.device.takeFds n } }
  | forceOneFd {s : JobRun} (f : ℕ) :
      Step c k s { s with
        t := { s.t with
          device := s.t.device.setFlow f fun flow ↦ { flow with lastPd := none } } }

/-- A thread that has just attached. -/
def start (c : ThreadConfig) (inputFifoSize : ℕ) (usingManagerThread : Bool)
    (packetBase : List ℕ) (policy : ℕ) : JobRun where
  t :=
    { device := .attached c.pool.threadId inputFifoSize usingManagerThread
      m := .attach c
      packetBase := packetBase
      packetEnqueuePolicy := policy }
  used := []
  waiting := []
  started := []

/-- The calls together with `NLM_FLOW_OFFSET`, which moves the offset of a stateful flow. -/
inductive AnyStep (c : ThreadConfig) (k : PacketConfig) : JobRun → JobRun → Prop
  | call {s s' : JobRun} (hcall : Step c k s s') : AnyStep c k s s'
  | setFlowOffset {s : JobRun} {f : ℕ} (htype : (s.t.device.flows f).type = .stateful)
      (offset : ℕ) :
      AnyStep c k s { s with
        t := { s.t with
          device := s.t.device.setFlow f fun flow ↦ { flow with flowOffset := offset } } }

def Reaches (c : ThreadConfig) (k : PacketConfig) : JobRun → JobRun → Prop :=
  Relation.ReflTransGen (AnyStep c k)

/-- The marks tell which jobs have been started. -/
structure Inv (c : ThreadConfig) (s : JobRun) : Prop where
  jobs : ∃ jobs, JobInv s.t.m.pool jobs ∧ ∀ j ∈ s.live, j ∈ jobs
  pds : ∃ pds, PdInv c s.t.m.pds pds ∧
    ∀ j ∈ s.live, ∀ p, (s.t.device.jobs j).pd = some p → p ∈ pds
  nodup : s.live.Nodup
  pd_inj : ∀ i ∈ s.live, ∀ j ∈ s.live, ∀ p,
    (s.t.device.jobs i).pd = some p → (s.t.device.jobs j).pd = some p → i = j
  waiting_mark : ∀ j ∈ s.waiting, ∀ p, (s.t.device.jobs j).pd = some p →
    (s.t.device.pds p).rsv01 = .createdButNotStarted ∧
      (s.t.device.pds p).cookie = nlmEncodeCookie s.t.device.threadId j
  started_mark : ∀ j ∈ s.started, ∀ p, (s.t.device.jobs j).pd = some p →
    (s.t.device.pds p).rsv01 = .validAndStarted
  job_flow : ∀ j ∈ s.live, ∃ f ∈ s.used, (s.t.device.jobs j).flow = some f ∧
    ((s.t.device.jobs j).pd = none ↔ (s.t.device.flows f).isStateless = true)
  stateless : ∀ f, (s.t.device.flows f).type = .stateless →
    (s.t.device.flows f).isStateless = true
  stateful : ∀ f, (s.t.device.flows f).type = .stateful →
    (s.t.device.flows f).isStateless = false

/-- The slots of flows keep their kinds: a slot that was freed goes to the list of its
kind. -/
structure Kinds (used : List ℕ) (device : NlmDevice) (m : Allocators) : Prop where
  used_lt : ∀ f ∈ used, f < m.pool.firstFreeFlow
  kind : ∀ f ∈ used, m.isStateless f = (device.flows f).isStateless
  stateful : ∀ f ∈ m.pool.statefulFlowList, f ∈ used ∧ m.isStateless f = false
  stateless : ∀ f ∈ m.pool.statelessFlowList, f ∈ used ∧ m.isStateless f = true

/-- The allocators have the same flows. -/
structure SameFlows (m m' : Allocators) : Prop where
  first : m'.pool.firstFreeFlow = m.pool.firstFreeFlow
  stateful : m'.pool.statefulFlowList = m.pool.statefulFlowList
  stateless : m'.pool.statelessFlowList = m.pool.statelessFlowList
  kind : m'.isStateless = m.isStateless

/-- The job slots and the PDs are the same. -/
structure SameLists (m m' : Allocators) : Prop where
  job_list : m'.pool.jobList = m.pool.jobList
  first_job : m'.pool.firstFreeJob = m.pool.firstFreeJob
  pds : m'.pds.pdList = m.pds.pdList
  first_pd : m'.pds.firstFreePd = m.pds.firstFreePd

variable {c : ThreadConfig} {k : PacketConfig} {s s' : JobRun} {device : NlmDevice}
  {m m' : Allocators} {f j p start stop userCookie : ℕ} {jobs pds : List ℕ}

theorem SameLists.refl (m : Allocators) : SameLists m m := ⟨rfl, rfl, rfl, rfl⟩

theorem SameLists.jobInv (h : SameLists m m') (hinv : JobInv m.pool jobs) :
    JobInv m'.pool jobs := by
  obtain ⟨hnodup, hslot, hpos⟩ := hinv
  rw [← h.job_list] at hnodup hslot
  rw [← h.first_job] at hslot hpos
  exact ⟨hnodup, hslot, hpos⟩

theorem SameLists.pdInv (h : SameLists m m') (hinv : PdInv c m.pds pds) : PdInv c m'.pds pds := by
  obtain ⟨hnodup, hslot, hfirst⟩ := hinv
  rw [← h.pds] at hnodup hslot
  rw [← h.first_pd] at hslot hfirst
  exact ⟨hnodup, hslot, hfirst⟩

theorem SameLists.freeFlow (m : Allocators) (f : ℕ) : SameLists m (m.freeFlow f) := by
  unfold Allocators.freeFlow MemoryPool.memoryPoolFreeFlow
  split
  · exact ⟨rfl, rfl, rfl, rfl⟩
  · exact ⟨rfl, rfl, rfl, rfl⟩

/-- Flows change, or only what does not concern jobs, PDs and marks. -/
theorem Inv.setFlows (h : Inv c s) (hjobs : device.jobs = s.t.device.jobs)
    (hpds : device.pds = s.t.device.pds) (hthread : device.threadId = s.t.device.threadId)
    (hkind : ∀ f ∈ s.used, (device.flows f).isStateless = (s.t.device.flows f).isStateless)
    (hstateless : ∀ f, (device.flows f).type = .stateless → (device.flows f).isStateless = true)
    (hstateful : ∀ f, (device.flows f).type = .stateful → (device.flows f).isStateless = false)
    {used : List ℕ} (hused : ∀ f ∈ s.used, f ∈ used) (hlists : SameLists s.t.m m) :
    Inv c { s with t := { s.t with device := device, m := m }, used := used } := by
  obtain ⟨⟨jobs, hjobInv, hlive⟩, ⟨pds, hpdInv, hlivePds⟩, hnodup, hinj, hwaiting, hstarted,
    hflow, -, -⟩ := h
  refine ⟨⟨jobs, hlists.jobInv hjobInv, hlive⟩, ⟨pds, hlists.pdInv hpdInv, fun j hj ↦ ?_⟩,
    hnodup, ?_, ?_, ?_, fun j hj ↦ ?_, hstateless, hstateful⟩
  · rw [hjobs]
    exact hlivePds j hj
  · rw [hjobs]
    exact hinj
  · rw [hjobs, hpds, hthread]
    exact hwaiting
  · rw [hjobs, hpds]
    exact hstarted
  · obtain ⟨f, hf, hjf, hjkind⟩ := hflow j hj
    rw [hjobs]
    refine ⟨f, hused f hf, hjf, ?_⟩
    rw [hkind f hf]
    exact hjkind

theorem Inv.same (h : Inv c s) (hmarks : Marks [] s.t.device device) (hlists : SameLists s.t.m m) :
    Inv c { s with t := { s.t with device := device, m := m } } := by
  obtain ⟨⟨jobs, hjobInv, hlive⟩, ⟨pds, hpdInv, hlivePds⟩, hnodup, hinj, hwaiting, hstarted,
    hflow, hstateless, hstateful⟩ := h
  obtain ⟨-, hmark, hcookie, hpd, hjobflow, htype, hkind, hthread⟩ := hmarks
  have hmark : ∀ p, (device.pds p).rsv01 = (s.t.device.pds p).rsv01 := fun p ↦
    hmark p fun _ hj ↦ absurd hj List.not_mem_nil
  refine ⟨⟨jobs, hlists.jobInv hjobInv, hlive⟩, ⟨pds, hlists.pdInv hpdInv, fun j hj p hp ↦ ?_⟩,
    hnodup, fun i hi j hj p hip hjp ↦ ?_, fun j hj p hp ↦ ?_, fun j hj p hp ↦ ?_,
    fun j hj ↦ ?_, fun f hf ↦ ?_, fun f hf ↦ ?_⟩
  · exact hlivePds j hj p ((hpd j).symm.trans hp)
  · exact hinj i hi j hj p ((hpd i).symm.trans hip) ((hpd j).symm.trans hjp)
  · have hbefore := hwaiting j hj p ((hpd j).symm.trans hp)
    rw [← hmark, ← hcookie, ← hthread] at hbefore
    exact hbefore
  · exact (hmark p).trans (hstarted j hj p ((hpd j).symm.trans hp))
  · obtain ⟨f, hf, hjf, hjkind⟩ := hflow j hj
    refine ⟨f, hf, (hjobflow j).trans hjf, ?_⟩
    rw [hpd j, hkind f]
    exact hjkind
  · exact (hkind f).trans (hstateless f ((htype f).symm.trans hf))
  · exact (hkind f).trans (hstateful f ((htype f).symm.trans hf))

/-! ## Enqueueing -/

theorem jobInv_of_allocJob {j : Option ℕ} (halloc : m.allocJob c = (j, m'))
    (h : JobInv m.pool jobs) : JobInv m'.pool (j.toList ++ jobs) ∧ m'.pds = m.pds := by
  unfold Allocators.allocJob at halloc
  split at halloc
  · cases halloc
    exact ⟨h, rfl⟩
  · next job pool hsome =>
    cases halloc
    exact ⟨h.alloc hsome, rfl⟩

theorem pdInv_of_allocPd {p : Option ℕ} (halloc : m.allocPd = (p, m')) (h : PdInv c m.pds pds) :
    PdInv c m'.pds (p.toList ++ pds) ∧ m'.pool = m.pool := by
  have hinv := h.alloc
  unfold Allocators.allocPd at halloc
  simp only [Prod.mk.injEq] at halloc
  obtain ⟨rfl, rfl⟩ := halloc
  exact ⟨hinv, rfl⟩

/-- The contents of jobs and PDs that are not live do not matter. -/
theorem Inv.setFree (h : Inv c s) (device : NlmDevice) (m : Allocators) (packetBase : List ℕ)
    (hflows : device.flows = s.t.device.flows) (hthread : device.threadId = s.t.device.threadId)
    (hjobs : ∀ j ∈ s.live, device.jobs j = s.t.device.jobs j)
    (hpdsEq : ∀ j ∈ s.live, ∀ p, (s.t.device.jobs j).pd = some p →
      device.pds p = s.t.device.pds p)
    (hjobInv : ∃ jobs, JobInv m.pool jobs ∧ ∀ j ∈ s.live, j ∈ jobs)
    (hpdInv : ∃ pds, PdInv c m.pds pds ∧
      ∀ j ∈ s.live, ∀ p, (s.t.device.jobs j).pd = some p → p ∈ pds) :
    Inv c { s with
      t := { s.t with device := device, m := m, packetBase := packetBase } } := by
  have hwait : ∀ j ∈ s.waiting, j ∈ s.live := fun j hj ↦ List.mem_append_left _ hj
  have hstart : ∀ j ∈ s.started, j ∈ s.live := fun j hj ↦ List.mem_append_right _ hj
  obtain ⟨pds, hpdInv, hlivePds⟩ := hpdInv
  refine ⟨hjobInv, ⟨pds, hpdInv, fun j hj p hp ↦ ?_⟩, h.nodup, fun i hi j hj p hip hjp ↦ ?_,
    fun j hj p hp ↦ ?_, fun j hj p hp ↦ ?_, fun j hj ↦ ?_, ?_, ?_⟩
  · rw [hjobs j hj] at hp
    exact hlivePds j hj p hp
  · rw [hjobs i hi] at hip
    rw [hjobs j hj] at hjp
    exact h.pd_inj i hi j hj p hip hjp
  · rw [hjobs j (hwait j hj)] at hp
    rw [hpdsEq j (hwait j hj) p hp, hthread]
    exact h.waiting_mark j hj p hp
  · rw [hjobs j (hstart j hj)] at hp
    rw [hpdsEq j (hstart j hj) p hp]
    exact h.started_mark j hj p hp
  · rw [hjobs j hj, hflows]
    exact h.job_flow j hj
  · rw [hflows]
    exact h.stateless
  · rw [hflows]
    exact h.stateful

theorem Inv.addWaiting (h : Inv c s) (hj : j ∉ s.live) (hf : f ∈ s.used)
    (hflow : (s.t.device.jobs j).flow = some f)
    (hkind : (s.t.device.jobs j).pd = none ↔ (s.t.device.flows f).isStateless = true)
    (hjobs : ∃ jobs, JobInv s.t.m.pool jobs ∧ ∀ i ∈ j :: s.live, i ∈ jobs)
    (hpds : ∃ pds, PdInv c s.t.m.pds pds ∧
      ∀ i ∈ j :: s.live, ∀ p, (s.t.device.jobs i).pd = some p → p ∈ pds)
    (hpd : ∀ p, (s.t.device.jobs j).pd = some p →
      (∀ i ∈ s.live, (s.t.device.jobs i).pd ≠ some p) ∧
      (s.t.device.pds p).rsv01 = .createdButNotStarted ∧
      (s.t.device.pds p).cookie = nlmEncodeCookie s.t.device.threadId j) :
    Inv c { s with waiting := j :: s.waiting } := by
  refine ⟨hjobs, hpds, List.nodup_cons.mpr ⟨hj, h.nodup⟩, fun i hi i' hi' p hip hip' ↦ ?_,
    fun i hi p hp ↦ ?_, h.started_mark, fun i hi ↦ ?_, h.stateless, h.stateful⟩
  · cases List.mem_cons.mp hi with
    | inl heq =>
      subst heq
      cases List.mem_cons.mp hi' with
      | inl heq => exact heq.symm
      | inr hi' => exact absurd hip' ((hpd p hip).1 i' hi')
    | inr hi =>
      cases List.mem_cons.mp hi' with
      | inl heq =>
        subst heq
        exact absurd hip ((hpd p hip').1 i hi)
      | inr hi' => exact h.pd_inj i hi i' hi' p hip hip'
  · cases List.mem_cons.mp hi with
    | inl heq =>
      subst heq
      exact (hpd p hp).2
    | inr hi => exact h.waiting_mark i hi p hp
  · cases List.mem_cons.mp hi with
    | inl heq =>
      subst heq
      exact ⟨f, hf, hflow, hkind⟩
    | inr hi => exact h.job_flow i hi

theorem Inv.takenJob (h : Inv c s) (halloc : s.t.m.allocJob c = (some j, m)) :
    j ∉ s.live ∧ m.pds = s.t.m.pds ∧
      ∃ jobs, JobInv m.pool (j :: jobs) ∧ ∀ i ∈ s.live, i ∈ jobs := by
  obtain ⟨jobs, hjobs, hlive⟩ := h.jobs
  obtain ⟨hinv, hpds⟩ := jobInv_of_allocJob halloc hjobs
  refine ⟨fun hj ↦ ?_, hpds, jobs, hinv, hlive⟩
  exact (List.nodup_cons.mp hinv.nodup).1 (List.mem_append_left _ (hlive j hj))

theorem Inv.takenPd (h : Inv c s) {pd : Option ℕ} (hm : m.pds = s.t.m.pds)
    (halloc : m.allocPd = (pd, m')) :
    m'.pool = m.pool ∧ ∃ pds, PdInv c m'.pds (pd.toList ++ pds) ∧
      ∀ i ∈ s.live, ∀ p, (s.t.device.jobs i).pd = some p → p ∈ pds := by
  obtain ⟨pds, hpds, hlive⟩ := h.pds
  rw [← hm] at hpds
  obtain ⟨hinv, hpool⟩ := pdInv_of_allocPd halloc hpds
  exact ⟨hpool, pds, hinv, hlive⟩

theorem pd_not_live (hinv : PdInv c m.pds (p :: pds))
    (hlive : ∀ i ∈ s.live, ∀ p, (s.t.device.jobs i).pd = some p → p ∈ pds) :
    ∀ i ∈ s.live, ∀ q, (s.t.device.jobs i).pd = some q → q ≠ p := by
  rintro i hi q hq rfl
  exact (List.nodup_cons.mp hinv.nodup).1 (List.mem_append_left _ (hlive i hi q hq))

/-- Enqueueing does not disturb the live jobs, whether it succeeds or not. -/
theorem Inv.enqueued (h : Inv c s) {r : NlmStatus × Option ℕ × Thread}
    (henqueued : Thread.Enqueued c k s.t f start stop userCookie r) :
    Inv c { s with t := r.2.2 } := by
  have hfill : ∀ {j : ℕ}, j ∉ s.live → ∀ i ∈ s.live,
      (s.t.fillJob f j userCookie).jobs i = s.t.device.jobs i := fun hj i hi ↦
    Function.update_of_ne (ne_of_mem_of_not_mem hi hj) ..
  cases henqueued with
  | noJob => exact h
  | @badSize j m hjob hrange =>
    obtain ⟨hj, hpds, jobs, hinv, hlive⟩ := h.takenJob hjob
    apply h.setFree (s.t.fillJob f j userCookie) m s.t.packetBase rfl rfl (hfill hj)
      (fun _ _ _ _ ↦ rfl)
    · exact ⟨_, hinv, fun i hi ↦ List.mem_cons_of_mem _ (hlive i hi)⟩
    · exact hpds ▸ h.pds
  | @statelessNoBase j n physAddr m hjob hrange htype hbase =>
    obtain ⟨hj, hpds, jobs, hinv, hlive⟩ := h.takenJob hjob
    apply h.setFree (s.t.fillJob f j userCookie) m s.t.packetBase rfl rfl (hfill hj)
      (fun _ _ _ _ ↦ rfl)
    · exact ⟨_, hinv, fun i hi ↦ List.mem_cons_of_mem _ (hlive i hi)⟩
    · exact hpds ▸ h.pds
  | @stateless j n physAddr base m packetBase hjob hrange htype hbase =>
    obtain ⟨hj, hpds, jobs, hinv, hlive⟩ := h.takenJob hjob
    apply h.setFree (s.t.device.enqueueStateless f j userCookie ⟨base, physAddr % 2 ^ 32, n⟩) m
      packetBase rfl rfl _ (fun _ _ _ _ ↦ rfl)
    · exact ⟨_, hinv, fun i hi ↦ List.mem_cons_of_mem _ (hlive i hi)⟩
    · exact hpds ▸ h.pds
    · exact fun i hi ↦ enqueueStateless_job_of_ne _ (ne_of_mem_of_not_mem hi hj)
  | @noPd j n physAddr m m' hjob hrange htype hpd =>
    obtain ⟨hj, hpds, jobs, hinv, hlive⟩ := h.takenJob hjob
    obtain ⟨hpool, pds, hinvPd, hlivePd⟩ := h.takenPd hpds hpd
    rw [← hpool] at hinv
    have hfree := JobInv.free hinv (List.mem_cons_self : j ∈ j :: jobs)
    rw [List.erase_cons_head] at hfree
    apply h.setFree (s.t.fillJob f j userCookie) (m'.freeJob j) s.t.packetBase rfl rfl (hfill hj)
      (fun _ _ _ _ ↦ rfl)
    · exact ⟨_, hfree, hlive⟩
    · exact ⟨_, hinvPd, hlivePd⟩
  | @statefulNoBase j p n physAddr m m' hjob hrange htype hpd hbase =>
    obtain ⟨hj, hpds, jobs, hinv, hlive⟩ := h.takenJob hjob
    obtain ⟨hpool, pds, hinvPd, hlivePd⟩ := h.takenPd hpds hpd
    have hother := pd_not_live hinvPd hlivePd
    rw [← hpool] at hinv
    have hfree := PdInv.free hinvPd (List.mem_cons_self : p ∈ p :: pds)
    rw [Option.toList_some, List.singleton_append, List.erase_cons_head] at hfree
    apply h.setFree ((s.t.fillJob f j userCookie).sysmemFreePd p) (m'.freePd p) s.t.packetBase
    · rfl
    · rfl
    · exact hfill hj
    · exact fun i hi q hq ↦ sysmemFreePd_of_ne _ (hother i hi q hq)
    · exact ⟨_, hinv, fun i hi ↦ List.mem_cons_of_mem _ (hlive i hi)⟩
    · exact ⟨_, hfree, hlivePd⟩
  | @stateful j p n physAddr base m m' packetBase hjob hrange htype hpd hbase =>
    obtain ⟨hj, hpds, jobs, hinv, hlive⟩ := h.takenJob hjob
    obtain ⟨hpool, pds, hinvPd, hlivePd⟩ := h.takenPd hpds hpd
    have hother := pd_not_live hinvPd hlivePd
    rw [← hpool] at hinv
    apply h.setFree (s.t.device.enqueueStateful f j p userCookie ⟨base, physAddr % 2 ^ 32, n⟩) m'
      packetBase
    · rfl
    · rfl
    · exact fun i hi ↦ enqueueStateful_job_of_ne _ (ne_of_mem_of_not_mem hi hj)
    · exact fun i hi q hq ↦ enqueueStateful_pd_of_ne _ (hother i hi q hq)
    · exact ⟨_, hinv, fun i hi ↦ List.mem_cons_of_mem _ (hlive i hi)⟩
    · exact ⟨_, hinvPd, fun i hi q hq ↦ List.mem_cons_of_mem _ (hlivePd i hi q hq)⟩

theorem Inv.enqueuedOk (h : Inv c s) {t : Thread}
    (henqueued : Thread.Enqueued c k s.t f start stop userCookie (.ok, some j, t))
    (hf : f ∈ s.used)
    (hkind : (s.t.device.flows f).type ≠ .stateless → (s.t.device.flows f).isStateless = false) :
    j ∉ s.live ∧ (t.device.jobs j).flow = some f ∧
      Inv c { s with t := t, waiting := j :: s.waiting } := by
  have hafter := h.enqueued henqueued
  cases henqueued with
  | @stateless _ n physAddr base m packetBase hjob hrange htype hbase =>
    obtain ⟨hj, hpds, jobs, hinv, hlive⟩ := h.takenJob hjob
    have hself := s.t.device.enqueueStateless_job f j userCookie ⟨base, physAddr % 2 ^ 32, n⟩
    have hnone := congrArg NlmJob.pd hself
    have hflow := congrArg NlmJob.flow hself
    refine ⟨hj, hflow, hafter.addWaiting hj hf hflow ?_ ?_ ?_ ?_⟩
    · exact ⟨fun _ ↦ h.stateless f htype, fun _ ↦ hnone⟩
    · refine ⟨_, hinv, fun i hi ↦ ?_⟩
      cases List.mem_cons.mp hi with
      | inl heq => exact List.mem_cons.mpr (.inl heq)
      | inr hi => exact List.mem_cons_of_mem _ (hlive i hi)
    · obtain ⟨pds, hinvPd, hlivePd⟩ := hafter.pds
      refine ⟨pds, hinvPd, fun i hi p hp ↦ ?_⟩
      cases List.mem_cons.mp hi with
      | inl heq =>
        subst heq
        cases hnone.symm.trans hp
      | inr hi => exact hlivePd i hi p hp
    · exact fun p hp ↦ by cases hnone.symm.trans hp
  | @stateful _ p n physAddr base m m' packetBase hjob hrange htype hpd hbase =>
    obtain ⟨hj, hpds, jobs, hinv, hlive⟩ := h.takenJob hjob
    obtain ⟨hpool, pds, hinvPd, hlivePd⟩ := h.takenPd hpds hpd
    have hother := pd_not_live hinvPd hlivePd
    rw [← hpool] at hinv
    have hself := s.t.device.enqueueStateful_job f j p userCookie ⟨base, physAddr % 2 ^ 32, n⟩
    have hsome := congrArg NlmJob.pd hself
    have hflow := congrArg NlmJob.flow hself
    have hkept : ∀ i ∈ s.live, ∀ q, ((s.t.device.enqueueStateful f j p userCookie
        ⟨base, physAddr % 2 ^ 32, n⟩).jobs i).pd = some q → (s.t.device.jobs i).pd = some q := by
      intro i hi q hq
      rw [enqueueStateful_job_of_ne _ (ne_of_mem_of_not_mem hi hj)] at hq
      exact hq
    refine ⟨hj, hflow, hafter.addWaiting hj hf hflow ?_ ?_ ?_ ?_⟩
    · refine ⟨fun hnone ↦ (by cases hnone.symm.trans hsome), fun htrue ↦ ?_⟩
      cases (hkind htype).symm.trans htrue
    · refine ⟨_, hinv, fun i hi ↦ ?_⟩
      cases List.mem_cons.mp hi with
      | inl heq => exact List.mem_cons.mpr (.inl heq)
      | inr hi => exact List.mem_cons_of_mem _ (hlive i hi)
    · refine ⟨_, hinvPd, fun i hi q hq ↦ ?_⟩
      cases List.mem_cons.mp hi with
      | inl heq =>
        subst heq
        cases hsome.symm.trans hq
        exact List.mem_cons_self
      | inr hi => exact List.mem_cons_of_mem _ (hlivePd i hi q (hkept i hi q hq))
    · intro q hq
      cases hsome.symm.trans hq
      exact ⟨fun i hi hip ↦ hother i hi p (hkept i hi p hip) rfl, enqueueStateful_mark _⟩

/-! ## Starting -/

/-- Waiting jobs are started, and the PDs of those that have one are marked. -/
theorem Inv.startBatch (h : Inv c s) {batch marked : List ℕ} (hwait : ∀ j ∈ batch, j ∈ s.waiting)
    (hbatch : batch.Nodup) (hmarks : Marks marked s.t.device device)
    (hmarked : ∀ j ∈ marked, j ∈ batch)
    (hall : ∀ j ∈ batch, (s.t.device.jobs j).pd ≠ none → j ∈ marked) :
    Inv c { s with
      t := { s.t with device := device }
      waiting := s.waiting.filter (· ∉ batch)
      started := batch ++ s.started } := by
  have hmem : ∀ j ∈ s.waiting.filter (· ∉ batch), j ∈ s.waiting ∧ j ∉ batch := fun j hj ↦ by
    rw [List.mem_filter, decide_eq_true_eq] at hj
    exact hj
  have hlive : ∀ j ∈ s.waiting.filter (· ∉ batch) ++ (batch ++ s.started), j ∈ s.live := by
    intro j hj
    rcases List.mem_append.mp hj with hj | hj
    · exact List.mem_append_left _ (hmem j hj).1
    · rcases List.mem_append.mp hj with hj | hj
      · exact List.mem_append_left _ (hwait j hj)
      · exact List.mem_append_right _ hj
  obtain ⟨hwaiting, hstarted, hdisjoint⟩ := List.nodup_append.mp h.nodup
  -- no other job has the PD of a job that is not in the batch
  have hkept : ∀ j ∈ s.live, j ∉ batch → ∀ p, (s.t.device.jobs j).pd = some p →
      (device.pds p).rsv01 = (s.t.device.pds p).rsv01 := fun j hj hnot p hp ↦
    hmarks.kept p fun i hi hip ↦ hnot (h.pd_inj i (List.mem_append_left _ (hwait i (hmarked i hi)))
      j hj p hip hp ▸ hmarked i hi)
  refine ⟨?_, ?_, ?_, fun i hi j hj p hip hjp ↦ ?_, fun j hj p hp ↦ ?_, fun j hj p hp ↦ ?_,
    fun j hj ↦ ?_, fun f hf ↦ ?_, fun f hf ↦ ?_⟩
  · obtain ⟨jobs, hinv, hjobs⟩ := h.jobs
    exact ⟨jobs, hinv, fun j hj ↦ hjobs j (hlive j hj)⟩
  · obtain ⟨pds, hinv, hpds⟩ := h.pds
    exact ⟨pds, hinv, fun j hj p hp ↦ hpds j (hlive j hj) p ((hmarks.jobs_pd j).symm.trans hp)⟩
  · apply List.nodup_append.mpr
    refine ⟨hwaiting.filter _, List.nodup_append.mpr ⟨hbatch, hstarted, ?_⟩, ?_⟩
    · exact fun i hi j hj ↦ hdisjoint i (hwait i hi) j hj
    · intro i hi j hj
      rcases List.mem_append.mp hj with hj | hj
      · exact (ne_of_mem_of_not_mem hj (hmem i hi).2).symm
      · exact hdisjoint i (hmem i hi).1 j hj
  · exact h.pd_inj i (hlive i hi) j (hlive j hj) p ((hmarks.jobs_pd i).symm.trans hip)
      ((hmarks.jobs_pd j).symm.trans hjp)
  · obtain ⟨hj, hnot⟩ := hmem j hj
    have hp := (hmarks.jobs_pd j).symm.trans hp
    obtain ⟨hmark, hcookie⟩ := h.waiting_mark j hj p hp
    refine ⟨(hkept j (List.mem_append_left _ hj) hnot p hp).trans hmark, ?_⟩
    change (device.pds p).cookie = nlmEncodeCookie device.threadId j
    rw [hmarks.cookie, hmarks.thread]
    exact hcookie
  · have hp := (hmarks.jobs_pd j).symm.trans hp
    rcases List.mem_append.mp hj with hj | hj
    · refine hmarks.marked j (hall j hj ?_) p hp
      rw [hp]
      exact Option.some_ne_none p
    · by_cases hin : j ∈ batch
      · exact absurd rfl (hdisjoint j (hwait j hin) j hj)
      · exact (hkept j (List.mem_append_right _ hj) hin p hp).trans (h.started_mark j hj p hp)
  · obtain ⟨f, hf, hflow, hkind⟩ := h.job_flow j (hlive j hj)
    refine ⟨f, hf, (hmarks.jobs_flow j).trans hflow, ?_⟩
    rw [hmarks.jobs_pd j, hmarks.kind f]
    exact hkind
  · exact (hmarks.kind f).trans (h.stateless f ((hmarks.type_eq f).symm.trans hf))
  · exact (hmarks.kind f).trans (h.stateful f ((hmarks.type_eq f).symm.trans hf))

/-- The jobs of a batch that passes the pre-check and have a PD are stateful. -/
theorem Inv.stateful_of_pd (h : Inv c s) {batch : List (Option ℕ)}
    (hcheck : batch.findSome? s.t.device.jobError = none) (hj : j ∈ batch.reduceOption)
    (hwait : j ∈ s.waiting) (hpd : (s.t.device.jobs j).pd ≠ none) :
    s.t.device.jobType j = .stateful := by
  obtain ⟨f, -, hflow, hkind⟩ := h.job_flow j (List.mem_append_left _ hwait)
  have hjob := List.findSome?_eq_none_iff.mp hcheck _ (List.reduceOption_mem_iff.mp hj)
  simp only [jobError, hflow, ite_eq_right_iff, reduceCtorEq, imp_false] at hjob
  simp only [jobType, hflow]
  cases htype : (s.t.device.flows f).type with
  | invalid => exact absurd htype hjob
  | stateful => rfl
  | stateless => exact absurd (hkind.mpr (h.stateless f htype)) hpd

/-! ## Completing and cancelling -/

/-- A job leaves and gives its slot and its PD back. -/
theorem Inv.remove (h : Inv c s) (hj : j ∈ s.live)
    (hpd : ∀ i, (device.jobs i).pd = (s.t.device.jobs i).pd)
    (hflow : ∀ i, (device.jobs i).flow = (s.t.device.jobs i).flow)
    (hmark : ∀ q, (s.t.device.jobs j).pd ≠ some q →
      (device.pds q).rsv01 = (s.t.device.pds q).rsv01 ∧
      (device.pds q).cookie = (s.t.device.pds q).cookie)
    (hkind : ∀ f, (device.flows f).isStateless = (s.t.device.flows f).isStateless)
    (hstateless : ∀ f, (device.flows f).type = .stateless → (device.flows f).isStateless = true)
    (hstateful : ∀ f, (device.flows f).type = .stateful → (device.flows f).isStateless = false)
    (hthread : device.threadId = s.t.device.threadId)
    (hjobs : ∀ jobs, JobInv s.t.m.pool jobs → j ∈ jobs → JobInv m.pool (jobs.erase j))
    (hpds : ∀ pds, PdInv c s.t.m.pds pds → (∀ p, (s.t.device.jobs j).pd = some p → p ∈ pds) →
      ∃ pds', PdInv c m.pds pds' ∧
        ∀ q ∈ pds, (s.t.device.jobs j).pd ≠ some q → q ∈ pds') :
    Inv c { s with
      t := { s.t with device := device, m := m }
      waiting := s.waiting.erase j
      started := s.started.erase j } := by
  have hwait : ∀ i ∈ s.waiting.erase j, i ∈ s.waiting := fun i hi ↦ List.mem_of_mem_erase hi
  have hstart : ∀ i ∈ s.started.erase j, i ∈ s.started := fun i hi ↦ List.mem_of_mem_erase hi
  obtain ⟨hwaiting, hstarted, hdisjoint⟩ := List.nodup_append.mp h.nodup
  have hlive : ∀ i ∈ s.waiting.erase j ++ s.started.erase j, i ∈ s.live ∧ i ≠ j := by
    intro i hi
    rcases List.mem_append.mp hi with hi | hi
    · exact ⟨List.mem_append_left _ (hwait i hi), (hwaiting.mem_erase_iff.mp hi).1⟩
    · exact ⟨List.mem_append_right _ (hstart i hi), (hstarted.mem_erase_iff.mp hi).1⟩
  have hother : ∀ i ∈ s.waiting.erase j ++ s.started.erase j, ∀ p,
      (s.t.device.jobs i).pd = some p → (s.t.device.jobs j).pd ≠ some p := fun i hi p hip hjp ↦
    (hlive i hi).2 (h.pd_inj i (hlive i hi).1 j hj p hip hjp)
  refine ⟨?_, ?_, ?_, fun i hi i' hi' p hip hip' ↦ ?_, fun i hi p hp ↦ ?_, fun i hi p hp ↦ ?_,
    fun i hi ↦ ?_, hstateless, hstateful⟩
  · obtain ⟨jobs, hinv, hall⟩ := h.jobs
    refine ⟨_, hjobs jobs hinv (hall j hj), fun i hi ↦ ?_⟩
    exact (List.mem_erase_of_ne (hlive i hi).2).mpr (hall i (hlive i hi).1)
  · obtain ⟨pds, hinv, hall⟩ := h.pds
    obtain ⟨pds', hinv', hkeep⟩ := hpds pds hinv (hall j hj)
    refine ⟨pds', hinv', fun i hi p hp ↦ ?_⟩
    have hp := (hpd i).symm.trans hp
    exact hkeep p (hall i (hlive i hi).1 p hp) (hother i hi p hp)
  · apply List.nodup_append.mpr
    exact ⟨hwaiting.erase j, hstarted.erase j,
      fun i hi i' hi' ↦ hdisjoint i (hwait i hi) i' (hstart i' hi')⟩
  · exact h.pd_inj i (hlive i hi).1 i' (hlive i' hi').1 p ((hpd i).symm.trans hip)
      ((hpd i').symm.trans hip')
  · have hp := (hpd i).symm.trans hp
    have hbefore := h.waiting_mark i (hwait i hi) p hp
    have hsame := hmark p (hother i (List.mem_append_left _ hi) p hp)
    rw [← hsame.1, ← hsame.2, ← hthread] at hbefore
    exact hbefore
  · have hp := (hpd i).symm.trans hp
    have hsame := hmark p (hother i (List.mem_append_right _ hi) p hp)
    exact hsame.1.trans (h.started_mark i (hstart i hi) p hp)
  · obtain ⟨f, hf, hjf, hkind'⟩ := h.job_flow i (hlive i hi).1
    refine ⟨f, hf, (hflow i).trans hjf, ?_⟩
    rw [hpd i, hkind f]
    exact hkind'

/-! ## The kinds of flows -/

section Kinds

variable {used : List ℕ} {device' : NlmDevice}

theorem SameFlows.refl (m : Allocators) : SameFlows m m := ⟨rfl, rfl, rfl, rfl⟩

theorem SameFlows.trans {m'' : Allocators} (h : SameFlows m m') (h' : SameFlows m' m'') :
    SameFlows m m'' :=
  ⟨h'.first.trans h.first, h'.stateful.trans h.stateful, h'.stateless.trans h.stateless,
    h'.kind.trans h.kind⟩

theorem Kinds.keep (h : Kinds used device m) (hsame : SameFlows m m')
    (hkind : ∀ f ∈ used, (device'.flows f).isStateless = (device.flows f).isStateless) :
    Kinds used device' m' := by
  obtain ⟨hlt, hk, hstateful, hstateless⟩ := h
  rw [← hsame.first] at hlt
  rw [← hsame.kind] at hk hstateful hstateless
  rw [← hsame.stateful] at hstateful
  rw [← hsame.stateless] at hstateless
  exact ⟨hlt, fun f hf ↦ (hk f hf).trans (hkind f hf).symm, hstateful, hstateless⟩

theorem Kinds.free (h : Kinds used device m) (hf : f ∈ used) :
    Kinds used device (m.freeFlow f) := by
  unfold Allocators.freeFlow MemoryPool.memoryPoolFreeFlow
  cases hkind : m.isStateless f with
  | false =>
    refine ⟨h.used_lt, h.kind, fun g hg ↦ ?_, h.stateless⟩
    cases List.mem_cons.mp hg with
    | inl heq =>
      subst heq
      exact ⟨hf, hkind⟩
    | inr hg => exact h.stateful g hg
  | true =>
    refine ⟨h.used_lt, h.kind, h.stateful, fun g hg ↦ ?_⟩
    cases List.mem_cons.mp hg with
    | inl heq =>
      subst heq
      exact ⟨hf, hkind⟩
    | inr hg => exact h.stateless g hg

theorem Kinds.take (h : Kinds used device m) {pool : MemoryPool} {pds : PdPool}
    {pdfIndex : ℕ → ℕ} {kind : Bool} (hf : f ∈ used → m.isStateless f = kind)
    (hfirst : m.pool.firstFreeFlow ≤ pool.firstFreeFlow)
    (hstateful : ∀ g ∈ pool.statefulFlowList, g ∈ m.pool.statefulFlowList)
    (hstateless : ∀ g ∈ pool.statelessFlowList, g ∈ m.pool.statelessFlowList) :
    Kinds used device ⟨pool, pds, pdfIndex, Function.update m.isStateless f kind⟩ := by
  have hsame : ∀ g ∈ used, Function.update m.isStateless f kind g = m.isStateless g := by
    intro g hg
    rcases eq_or_ne g f with rfl | hne
    · rw [Function.update_self, hf hg]
    · exact Function.update_of_ne hne ..
  refine ⟨fun g hg ↦ ?_, fun g hg ↦ ?_, fun g hg ↦ ?_, fun g hg ↦ ?_⟩
  · exact (h.used_lt g hg).trans_le hfirst
  · exact (hsame g hg).trans (h.kind g hg)
  · obtain ⟨hused, hkind⟩ := h.stateful g (hstateful g hg)
    exact ⟨hused, (hsame g hused).trans hkind⟩
  · obtain ⟨hused, hkind⟩ := h.stateless g (hstateless g hg)
    exact ⟨hused, (hsame g hused).trans hkind⟩

theorem Kinds.fill (h : Kinds used device m) {flow : NlmFlow} (hlt : f < m.pool.firstFreeFlow)
    (hflow : m.isStateless f = flow.isStateless) :
    Kinds (f :: used) (device.setFlow f fun _ ↦ flow) m := by
  refine ⟨fun g hg ↦ ?_, fun g hg ↦ ?_, fun g hg ↦ ?_, fun g hg ↦ ?_⟩
  · cases List.mem_cons.mp hg with
    | inl heq => exact heq ▸ hlt
    | inr hg => exact h.used_lt g hg
  · change m.isStateless g = (Function.update device.flows f flow g).isStateless
    rcases eq_or_ne g f with rfl | hne
    · rw [Function.update_self, hflow]
    · rw [Function.update_of_ne hne]
      exact h.kind g ((List.mem_cons.mp hg).resolve_left hne)
  · exact ⟨List.mem_cons_of_mem _ (h.stateful g hg).1, (h.stateful g hg).2⟩
  · exact ⟨List.mem_cons_of_mem _ (h.stateless g hg).1, (h.stateless g hg).2⟩

/-- `nlm_create_flow` hands out a slot that is new or was of the same kind before. -/
theorem Kinds.create (h : Kinds used device m) {flowType : NlmFlowType}
    (hcall : m.nlmCreateFlow c flowType = (.ok, some f, m')) :
    (f ∈ used → (device.flows f).isStateless = (flowType == .stateless)) ∧ SameLists m m' ∧
      ∀ pdfIndex, Kinds (f :: used)
        (device.setFlow f fun _ ↦ InFlight.createdFlow flowType pdfIndex) m' := by
  have hfresh : m.pool.firstFreeFlow ∉ used := fun hmem ↦ lt_irrefl _ (h.used_lt _ hmem)
  cases flowType with
  | invalid => cases hcall
  | stateless =>
    simp only [Allocators.nlmCreateFlow, Allocators.allocStatelessFlow] at hcall
    cases halloc : m.pool.memoryPoolAllocFlow c.pool .stateless with
    | none =>
      rw [halloc] at hcall
      cases hcall
    | some r =>
      obtain ⟨flow, pool⟩ := r
      simp only [halloc, Option.map_some, Function.update_idem, Prod.mk.injEq,
        Option.some.injEq] at hcall
      obtain ⟨-, rfl, rfl⟩ := hcall
      obtain ⟨fs, hlist, rfl⟩ | ⟨rfl, hroom, rfl⟩ := allocStatelessFlow_cases halloc
      · have hmem : flow ∈ m.pool.statelessFlowList := hlist ▸ List.mem_cons_self
        obtain ⟨hused, hkind⟩ := h.stateless flow hmem
        refine ⟨fun _ ↦ (h.kind flow hused).symm.trans hkind, ⟨rfl, rfl, rfl, rfl⟩, fun _ ↦ ?_⟩
        apply Kinds.fill
        · exact h.take (fun _ ↦ hkind) le_rfl (fun _ hg ↦ hg)
            fun g hg ↦ hlist ▸ List.mem_cons_of_mem _ hg
        · exact h.used_lt flow hused
        · exact Function.update_self ..
      · refine ⟨fun hused ↦ absurd hused hfresh, ⟨rfl, rfl, rfl, rfl⟩, fun _ ↦ ?_⟩
        apply Kinds.fill
        · exact h.take (fun hused ↦ absurd hused hfresh) (Nat.le_add_right _ _) (fun _ hg ↦ hg)
            fun _ hg ↦ hg
        · exact Nat.lt_add_of_pos_right (by decide)
        · exact Function.update_self ..
  | stateful =>
    simp only [Allocators.nlmCreateFlow, Allocators.allocStatefulFlow] at hcall
    cases halloc : m.pool.memoryPoolAllocFlow c.pool .stateful with
    | none =>
      rw [halloc] at hcall
      cases hcall
    | some r =>
      obtain ⟨flow, pool⟩ := r
      obtain ⟨fs, hlist, rfl⟩ | ⟨hlist, rfl, hroom, rfl⟩ := allocStatefulFlow_cases halloc
      · have hmem : flow ∈ m.pool.statefulFlowList := hlist ▸ List.mem_cons_self
        obtain ⟨hused, hkind⟩ := h.stateful flow hmem
        simp only [halloc, Option.map_some, hlist] at hcall
        split at hcall
        · cases congrArg (fun r ↦ r.2.1) hcall
        · cases hcall
          refine ⟨fun _ ↦ (h.kind f hused).symm.trans hkind, ⟨rfl, rfl, rfl, rfl⟩, fun _ ↦ ?_⟩
          apply Kinds.fill
          · exact h.take (fun _ ↦ hkind) le_rfl (fun g hg ↦ hlist ▸ List.mem_cons_of_mem _ hg)
              fun _ hg ↦ hg
          · exact h.used_lt f hused
          · exact Function.update_self ..
      · simp only [halloc, Option.map_some, hlist] at hcall
        split at hcall
        · cases congrArg (fun r ↦ r.2.1) hcall
        · cases hcall
          refine ⟨fun hused ↦ absurd hused hfresh, ⟨rfl, rfl, ?_, ?_⟩, fun _ ↦ ?_⟩
          · exact (sysmemAllocPdf_pds m.pds).1
          · exact (sysmemAllocPdf_pds m.pds).2
          · apply Kinds.fill
            · exact h.take (fun hused ↦ absurd hused hfresh) (Nat.le_add_right _ _)
                (fun g hg ↦ hlist ▸ hg) fun _ hg ↦ hg
            · exact Nat.lt_add_of_pos_right (by decide)
            · exact Function.update_self ..

theorem Kinds.createFailed (h : Kinds used device m) {flowType : NlmFlowType} {status : NlmStatus}
    (hcall : m.nlmCreateFlow c flowType = (status, none, m')) :
    SameLists m m' ∧ Kinds used device m' := by
  have hfresh : m.pool.firstFreeFlow ∉ used := fun hmem ↦ lt_irrefl _ (h.used_lt _ hmem)
  cases flowType with
  | invalid =>
    cases hcall
    exact ⟨.refl m, h⟩
  | stateless =>
    simp only [Allocators.nlmCreateFlow, Allocators.allocStatelessFlow] at hcall
    cases halloc : m.pool.memoryPoolAllocFlow c.pool .stateless with
    | none =>
      simp only [halloc, Option.map_none, Prod.mk.injEq, true_and] at hcall
      exact hcall.2 ▸ ⟨.refl m, h⟩
    | some r =>
      rw [halloc] at hcall
      cases hcall
  | stateful =>
    simp only [Allocators.nlmCreateFlow, Allocators.allocStatefulFlow] at hcall
    cases halloc : m.pool.memoryPoolAllocFlow c.pool .stateful with
    | none =>
      simp only [halloc, Option.map_none, Prod.mk.injEq, true_and] at hcall
      exact hcall.2 ▸ ⟨.refl m, h⟩
    | some r =>
      obtain ⟨flow, pool⟩ := r
      obtain ⟨fs, hlist, rfl⟩ | ⟨hlist, rfl, hroom, rfl⟩ := allocStatefulFlow_cases halloc
      · have hmem : flow ∈ m.pool.statefulFlowList := hlist ▸ List.mem_cons_self
        obtain ⟨hused, hkind⟩ := h.stateful flow hmem
        simp only [halloc, Option.map_some, hlist] at hcall
        split at hcall
        · cases congrArg (fun r ↦ r.2.2) hcall
          refine ⟨⟨rfl, rfl, rfl, rfl⟩, h.take (fun _ ↦ hkind) le_rfl (fun g hg ↦ ?_) fun _ hg ↦ hg⟩
          exact hlist ▸ List.mem_cons_of_mem _ hg
        · cases hcall
      · simp only [halloc, Option.map_some, hlist] at hcall
        split at hcall
        · cases congrArg (fun r ↦ r.2.2) hcall
          refine ⟨⟨rfl, rfl, ?_, ?_⟩, h.take (fun hused ↦ absurd hused hfresh)
            (Nat.le_add_right _ _) (fun g hg ↦ ?_) fun _ hg ↦ hg⟩
          · exact (sysmemAllocPdf_pds m.pds).1
          · exact (sysmemAllocPdf_pds m.pds).2
          · exact hlist ▸ hg
        · cases hcall

end Kinds

end JobRun

end NetL7.Packet
