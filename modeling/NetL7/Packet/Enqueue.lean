import NetL7.Packet.Results
import NetL7.Packet.Separation

/-!
# Enqueueing, cancelling and destroying

`nlm_flow_enqueue_search` takes a job slot and, for a stateful flow, a PD, and
finds a packet base for the address of the payload. `nlm_cancel_job` and
`nlm_destroy_stateful_flow` build on it. Pointers to packets are addresses, and
`NULL` is 0.
-/

namespace NetL7.Packet

open NetL7.Device

/-- `NLM_MAX_PACKET_SIZE` -/
abbrev nlmMaxPacketSize : ℕ := 64 * 1024

/-- `FREE_PACKET_BASE` -/
abbrev freePacketBase : ℕ := 0xf0000000f1eeba3e

/-- The configuration of packet memory. -/
structure PacketConfig where
  virtToPhys : Option (ℕ → ℕ)
  packetBasePhys : ℕ
  packetBaseVirt : ℕ

/-- A thread with its allocators, the packet bases of the ring and the enqueue
policy. -/
structure Thread where
  device : NlmDevice
  m : Allocators
  packetBase : List ℕ
  packetEnqueuePolicy : ℕ

/-- The lookup of `store_phys_addr_into_fd` and `store_phys_addr_into_pd`: the
packet base of an address and the table after it. -/
def storePhysAddr (k : PacketConfig) (packetBase : List ℕ) (physAddr : ℕ) :
    Option (ℕ × List ℕ) :=
  let physAddrBase := physAddr / 2 ^ 32 * 2 ^ 32
  match k.virtToPhys with
  | none =>
    if k.packetBasePhys / 2 ^ 36 * 2 ^ 36 ≠ physAddrBase / 2 ^ 36 * 2 ^ 36 then none
    else some (physAddrBase / 2 ^ 32 % 16, packetBase)
  | some _ =>
    match packetBase.findIdx? fun base ↦ base == physAddrBase || base == freePacketBase with
    | none => none
    | some i => some (i, packetBase.set i physAddrBase)

/-- The size and the physical address of a packet, or no size that is allowed. -/
def packetRange (k : PacketConfig) (start stop : ℕ) : Option (ℕ × ℕ) :=
  if start = 0 ∧ stop = 0 then some (0, k.packetBasePhys)
  else
    let packetByteCount := (2 ^ 64 + stop - start) % 2 ^ 64
    if nlmMaxPacketSize ≤ packetByteCount ∨ packetByteCount = 0 then none
    else some (packetByteCount,
      match k.virtToPhys with
      | some virtToPhys => virtToPhys start
      | none => (k.packetBasePhys + (2 ^ 64 + start - k.packetBaseVirt) % 2 ^ 64) % 2 ^ 64)

namespace Thread

variable (c : ThreadConfig) (k : PacketConfig) (t : Thread)

/-- The job slot `j` is filled in as far as that does not depend on the packet. -/
def fillJob (f j userCookie : ℕ) : NlmDevice :=
  t.device.setJob j fun job ↦
    job.ofFlow (t.device.flows f) f userCookie (nlmEncodeCookie t.device.threadId j)

/-- The half of `nlm_flow_enqueue_search_1` for stateless flows. -/
def enqueueStateless (f j userCookie packetByteCount physAddr : ℕ) :
    NlmStatus × Option ℕ × Thread :=
  match storePhysAddr k t.packetBase physAddr with
  | none => (.outOfPacketMemory, none, { t with device := t.fillJob f j userCookie })
  | some (base, packetBase) =>
    (.ok, some j, { t with
      device := t.device.enqueueStateless f j userCookie
        ⟨base, physAddr % 2 ^ 32, packetByteCount⟩
      packetBase := packetBase })

/-- The half for all other flows. -/
def enqueueStateful (f j userCookie packetByteCount physAddr : ℕ) :
    NlmStatus × Option ℕ × Thread :=
  match t.m.allocPd with
  | (none, m) =>
    (.outOfDeviceMemory, none,
      { t with device := t.fillJob f j userCookie, m := m.freeJob j })
  | (some p, m) =>
    match storePhysAddr k t.packetBase physAddr with
    | none =>
      (.outOfPacketMemory, none,
        { t with device := (t.fillJob f j userCookie).sysmemFreePd p, m := m.freePd p })
    | some (base, packetBase) =>
      (.ok, some j, { t with
        device := t.device.enqueueStateful f j p userCookie
          ⟨base, physAddr % 2 ^ 32, packetByteCount⟩
        m := m
        packetBase := packetBase })

/-- The free slot that is handed out next holds the link that `memory_pool_free_job`
has stored in it. The link lies over the first field of a job, which is `flow_offset`.
A slot that was never used holds what was there before. -/
def withLink : Thread :=
  match t.m.pool.jobList with
  | [] => t
  | j :: jobs =>
    { t with device := t.device.setJob j fun job ↦
      { job with flowOffset := (jobs.head?.map (MemoryPool.jobAddr c.pool)).getD 0 } }

/-- `nlm_flow_enqueue_search_1` in the job slot `j`. -/
def enqueueInSlot (f j start stop userCookie : ℕ) : NlmStatus × Option ℕ × Thread :=
  match packetRange k start stop with
  | none => (.invalidPacketSize, none, { t with device := t.fillJob f j userCookie })
  | some (packetByteCount, physAddr) =>
    if (t.device.flows f).type = .stateless then
      t.enqueueStateless k f j userCookie packetByteCount physAddr
    else t.enqueueStateful k f j userCookie packetByteCount physAddr

/-- `nlm_flow_enqueue_search_1`. `memory_pool_alloc_job` clears nothing. -/
def nlmFlowEnqueueSearch1 (f start stop userCookie : ℕ) : NlmStatus × Option ℕ × Thread :=
  match t.m.allocJob c with
  | (none, _) => (.outOfMemory, none, t)
  | (some j, m) => { t.withLink c with m := m }.enqueueInSlot k f j start stop userCookie

/-- The group combination of a flow goes up. -/
def nextCombination (f : ℕ) : Thread :=
  { t with device := t.device.setFlow f fun flow ↦
    { flow with dbGroupCombination := (flow.dbGroupCombination + 1) % 2 ^ 32 } }

/-- The arguments that `nlm_flow_enqueue_search` checks first. -/
def enqueueError (f start stop : ℕ) : Option NlmStatus :=
  if (start = 0 ∨ stop = 0) ∧ ¬ (start = 0 ∧ stop = 0 ∧ t.packetEnqueuePolicy.testBit 0) then
    some .invalidArgument
  else if (t.device.flows f).type = .invalid then some .invalidFlow
  else if (t.device.flows f).dbGroupId = [] then some .incorrectAccess
  else none

/-- `nlm_flow_enqueue_search` -/
def nlmFlowEnqueueSearch (f start stop userCookie : ℕ) : NlmStatus × Option ℕ × Thread :=
  match t.enqueueError f start stop with
  | some status => (status, none, t)
  | none =>
    let t := if t.packetEnqueuePolicy.testBit 1 then t.nextCombination f else t
    t.nlmFlowEnqueueSearch1 c k f start stop userCookie

/-- `nlm_cancel_job` -/
def nlmCancelJob (j : ℕ) : Except Fault (NlmStatus × Thread) :=
  match (t.device.jobs j).pd with
  | none => .ok (.invalidJob, t)
  | some p =>
    if (t.device.pds p).rsv01 ≠ .createdButNotStarted then .ok (.invalidJob, t)
    else
      match (t.device.jobs j).flow with
      | none => .ok (.invalidFlow, t)
      | some f =>
        if (t.device.flows f).type = .invalid then .ok (.invalidFlow, t)
        else do
          apiAssert ((t.device.pds p).cookie != 0) .zeroCookie
          .ok (.ok, { t with
            device := t.device.sysmemFreePd p
            m := (t.m.freePd p).freeJob j })

/-- The thread when a flow has been made invalid. -/
def invalidated (f : ℕ) : Thread :=
  { t with device := t.device.setFlow f fun flow ↦ { flow with type := .invalid } }

/-- The zero-length packet of a flow that is being destroyed. It goes into a new FD. -/
def enqueueFinish (f userCookie : ℕ) : NlmStatus × Option ℕ × Thread :=
  ((t.invalidated f).nextCombination f).nlmFlowEnqueueSearch1 c k f 0 0 userCookie

/-- The packet that ends a flow is started at once. -/
def startFinish (taken : ℕ → ℕ) (f : ℕ) (job : Option ℕ) : Except Fault (NlmStatus × Thread) :=
  match job, job.bind fun j ↦ (t.device.jobs j).pd with
  | some j, some p => do
    apiAssert ((t.device.pds p).rsv01 == .createdButNotStarted) .pdNotCreated
    let device := t.device.setPd p fun pd ↦
      { pd with flowTerm := true, rsv01 := .validAndStarted }
    let device := device.nlmFlowAddJobToList f j p
    let device := device.setJob j fun job ↦
      { job with flowOffset := (device.flows f).flowOffset }
    let device ← device.nlmTryStartStatefulFlows taken
    .ok (.ok, { t with device := device })
  | _, _ => .error .nullPd

/-- `nlm_destroy_stateful_flow` -/
def nlmDestroyStatefulFlow (taken : ℕ → ℕ) (f userCookie : ℕ) :
    Except Fault (NlmStatus × Thread) :=
  match (t.device.flows f).type with
  | .stateless => .ok (.invalidArgument, t)
  | .invalid => .ok (.invalidFlow, t)
  | .stateful =>
    if (t.device.flows f).flowOffset = 0 ∨ (t.device.flows f).dbGroupCombination = 0 then
      .ok (.endOfJob, { t.invalidated f with m := t.m.freeFlow f })
    else
      let (status, job, t') := t.enqueueFinish c k f userCookie
      if status ≠ .ok then .ok (status, t') else t'.startFinish taken f job

/-! ## The link in a free slot -/

section Link

variable {c t}

theorem withLink_nil (hlist : t.m.pool.jobList = []) : t.withLink c = t := by
  unfold withLink
  rw [hlist]

/-- The link changes the offset in one free slot and nothing else. -/
theorem withLink_eq (t : Thread) : ∃ jobs,
    t.withLink c = { t with device := { t.device with jobs := jobs } } ∧
      (∀ i ∉ t.m.pool.jobList, jobs i = t.device.jobs i) ∧
      ∀ i, (jobs i).pd = (t.device.jobs i).pd := by
  cases hlist : t.m.pool.jobList with
  | nil => exact ⟨t.device.jobs, withLink_nil hlist, fun _ _ ↦ rfl, fun _ ↦ rfl⟩
  | cons j jobs =>
    unfold withLink
    rw [hlist]
    refine ⟨_, rfl, fun i hi ↦ Function.update_of_ne (List.ne_of_not_mem_cons hi) .., fun i ↦ ?_⟩
    rcases eq_or_ne i j with rfl | hne
    · rw [Function.update_self]
    · rw [Function.update_of_ne hne]

theorem withLink_job_of_not_mem {i : ℕ} (hi : i ∉ t.m.pool.jobList) :
    (t.withLink c).device.jobs i = t.device.jobs i := by
  obtain ⟨jobs, heq, hsame, -⟩ := t.withLink_eq (c := c)
  rw [heq]
  exact hsame i hi

theorem withLink_pd (t : Thread) (i : ℕ) :
    ((t.withLink c).device.jobs i).pd = (t.device.jobs i).pd := by
  obtain ⟨jobs, heq, -, hpd⟩ := t.withLink_eq (c := c)
  rw [heq]
  exact hpd i

@[simp] theorem withLink_m (t : Thread) : (t.withLink c).m = t.m := by
  obtain ⟨jobs, heq, -⟩ := t.withLink_eq (c := c)
  rw [heq]

@[simp] theorem withLink_packetBase (t : Thread) : (t.withLink c).packetBase = t.packetBase := by
  obtain ⟨jobs, heq, -⟩ := t.withLink_eq (c := c)
  rw [heq]

@[simp] theorem withLink_flows (t : Thread) : (t.withLink c).device.flows = t.device.flows := by
  obtain ⟨jobs, heq, -⟩ := t.withLink_eq (c := c)
  rw [heq]

@[simp] theorem withLink_pds (t : Thread) : (t.withLink c).device.pds = t.device.pds := by
  obtain ⟨jobs, heq, -⟩ := t.withLink_eq (c := c)
  rw [heq]

@[simp] theorem withLink_pending (t : Thread) :
    (t.withLink c).device.pendingFlowList = t.device.pendingFlowList := by
  obtain ⟨jobs, heq, -⟩ := t.withLink_eq (c := c)
  rw [heq]

end Link

end Thread

end NetL7.Packet
