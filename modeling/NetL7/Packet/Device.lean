import NetL7.Packet.Fifo
import NetL7.Packet.Formats
import NetL7.Status
import Mathlib.Data.List.ReduceOption

/-!
# State of a dataplane thread

Flows, jobs and PDs are named by their index; a PD index of 0 in a link means
the end of a chain. The list of pending flows, which the source threads through
the flows, is a list of flow indices. A thread that works through a manager
thread has a software job FIFO, the others use the ring of the hardware.
-/

namespace NetL7.Packet

/-- `nlm_flow_type` -/
inductive NlmFlowType
  | invalid
  | stateless
  | stateful
  deriving DecidableEq, Repr

/-- `struct nlm_flow`. The list `dbGroupId` holds the first `db_group_cnt`
entries of the array; the others are 0. -/
structure NlmFlow where
  type : NlmFlowType
  dbGroupId : List ℕ
  errored : ℕ
  dbGroupCombination : ℕ
  lastDbGroupCombination : ℕ
  isStateless : Bool
  lastPd : Option ℕ
  pendingPdHead : Option ℕ
  pdfIndex : ℕ
  flowOffset : ℕ
  jobSeqId : ℕ
  deriving DecidableEq, Repr

/-- `struct nlm_job` -/
structure NlmJob where
  flowOffset : ℕ
  flow : Option ℕ
  userCookie : ℕ
  pd : Option ℕ
  dbGroupCombination : ℕ
  fd : HwFdDescriptor
  deriving DecidableEq, Repr

/-- A thread's `nlm_device_t` together with the input ring it submits to. -/
structure NlmDevice where
  threadId : ℕ
  flows : ℕ → NlmFlow
  jobs : ℕ → NlmJob
  pds : ℕ → HwPdDescriptor
  pendingFlowList : List ℕ
  swJobFifo : Option (SwFifo HwFdDescriptor)
  inputFifoSize : ℕ
  inputRdPtr : ℕ
  inputWrtPtr : ℕ
  inputWrtPtrDirty : Bool
  inputFifo : ℕ → HwFdDescriptor
  fdfFifoWrtPtr : ℕ

/-- A flow of zero bytes. -/
def NlmFlow.zero : NlmFlow where
  type := .invalid
  dbGroupId := []
  errored := 0
  dbGroupCombination := 0
  lastDbGroupCombination := 0
  isStateless := false
  lastPd := none
  pendingPdHead := none
  pdfIndex := 0
  flowOffset := 0
  jobSeqId := 0

/-- A job of zero bytes. -/
def NlmJob.zero : NlmJob := ⟨0, none, 0, none, 0, .zero⟩

/-- A PD of zero bytes. -/
def HwPdDescriptor.zero : HwPdDescriptor := ⟨0, .none, false, false, false, 0, 0, 0, ⟨0, 0⟩⟩

/-- A thread that has just attached to a ring of the given size. -/
def NlmDevice.attached (threadId inputFifoSize : ℕ) (usingManagerThread : Bool) : NlmDevice where
  threadId := threadId
  flows := fun _ ↦ .zero
  jobs := fun _ ↦ .zero
  pds := fun _ ↦ .zero
  pendingFlowList := []
  swJobFifo :=
    if usingManagerThread then some (.init inputFifoSize .zero) else none
  inputFifoSize := inputFifoSize
  inputRdPtr := 0
  inputWrtPtr := 0
  inputWrtPtrDirty := false
  inputFifo := fun _ ↦ .zero
  fdfFifoWrtPtr := 0

/-- What aborts a call: a failed `api_assert` or a NULL pointer. -/
inductive Fault
  | nullFd
  | nullPd
  | nullFlow
  | pdfIndex
  | pdNotCreated
  | pdNotStarted
  | packetNotEmpty
  | linkedLastPd
  | flowPending
  | zeroCookie
  deriving DecidableEq, Repr

namespace NlmDevice

variable (s : NlmDevice)

def setFlow (f : ℕ) (g : NlmFlow → NlmFlow) : NlmDevice :=
  { s with flows := Function.update s.flows f (g (s.flows f)) }

def setJob (j : ℕ) (g : NlmJob → NlmJob) : NlmDevice :=
  { s with jobs := Function.update s.jobs j (g (s.jobs j)) }

def setPd (p : ℕ) (g : HwPdDescriptor → HwPdDescriptor) : NlmDevice :=
  { s with pds := Function.update s.pds p (g (s.pds p)) }

/-- Writes a descriptor into a slot of the input ring. -/
def setFd (slot : ℕ) (fd : HwFdDescriptor) : NlmDevice :=
  { s with inputFifo := Function.update s.inputFifo slot fd }

/-- The job that `job_base - NLM_GET_JOB_INDEX (cookie)` points to. -/
def jobOfCookie (cookie : ℕ) : NlmJob := s.jobs (nlmGetJobIndex cookie)

/-- `sysmem_alloc_fd`: the slot of the new FD, zeroed, or `NULL`. -/
def sysmemAllocFd : Option (ℕ × NlmDevice) :=
  if (s.inputWrtPtr + 1) &&& (s.inputFifoSize - 1) = s.inputRdPtr then none
  else some (s.inputWrtPtr,
    { s with
      inputWrtPtr := (s.inputWrtPtr + 1) &&& (s.inputFifoSize - 1)
      inputWrtPtrDirty := true
      inputFifo := Function.update s.inputFifo s.inputWrtPtr .zero })

/-- `nlm_device_update_input_wrt_ptr` -/
def nlmDeviceUpdateInputWrtPtr : NlmDevice :=
  { s with fdfFifoWrtPtr := s.inputWrtPtr, inputWrtPtrDirty := false }

/-- `nlm_device_add_flow_to_pending` -/
def nlmDeviceAddFlowToPending (f : ℕ) : NlmDevice :=
  { s with pendingFlowList := s.pendingFlowList ++ [f] }

/-- `nlm_device_remove_flow_from_pending` on the head of the list. -/
def nlmDeviceRemoveFlowFromPending (f : ℕ) : NlmDevice :=
  setFlow { s with pendingFlowList := s.pendingFlowList.tail } f
    fun flow ↦ { flow with pendingPdHead := none }

/-- `nlm_flow_add_job_to_list` -/
def nlmFlowAddJobToList (f j p : ℕ) : NlmDevice :=
  let flow := s.flows f
  let combination := (s.jobs j).dbGroupCombination
  let s :=
    match flow.lastPd with
    | some last =>
      let s :=
        if combination ≠ flow.lastDbGroupCombination then
          s.setPd last fun pd ↦ { pd with swDisconnect := true }
        else s
      s.setPd last fun pd ↦ { pd with pdNla := { pd.pdNla with pdNlaIndex := p } }
    | none =>
      if flow.pendingPdHead = none then
        (s.setFlow f fun flow ↦ { flow with pendingPdHead := some p }).nlmDeviceAddFlowToPending f
      else s
  s.setFlow f fun flow ↦
    { flow with lastPd := some p, lastDbGroupCombination := combination }

end NlmDevice

/-- `api_assert` -/
def apiAssert (b : Bool) (e : Fault) : Except Fault Unit :=
  if b then .ok () else .error e

/-- The three branches of `nlm_flow_start_pending_pd_chain` that fill in the FD,
and the fields filled in after them. -/
def fillFd (fd : HwFdDescriptor) (pd : HwPdDescriptor) (pdIndex pdfIndex : ℕ) (job : NlmJob) :
    HwFdDescriptor :=
  let fd :=
    if job.fd.gidCnt = 0 ∧ pd.flowTerm = true then { fd with flowType := .reinit }
    else if pd.flowTerm then
      { ({ fd with flowType := .stateful }.copyPd pd) with
        flowTerm := false
        packetPrd := false
        endAnchor := true
        startAnchor := false
        pdNla := ⟨0, pdIndex⟩ }
    else
      { ({ fd with flowType := .stateful }.copyPd pd) with
        endAnchor := false
        pdNla := ⟨0, pd.pdNla.pdNlaIndex⟩
        startAnchor := job.flowOffset == 0 }
  { fd with
    cookie := pd.cookie
    gidCnt := job.fd.gidCnt
    gid0 := job.fd.gid0
    gid1 := job.fd.gid1
    gid2 := job.fd.gid2
    gid3 := job.fd.gid3
    gid4 := job.fd.gid4
    gid5 := job.fd.gid5
    pdfIndex := pdfIndex }

namespace NlmDevice

/-- The assertions of `nlm_flow_start_pending_pd_chain`. -/
def chainAsserts (pd : HwPdDescriptor) (pdfIndex : ℕ) (job : NlmJob) : Except Fault Unit := do
  apiAssert (pd.flowTerm == false || job.fd.gidCnt == 0 || pd.packetByteCount == 0)
    .packetNotEmpty
  apiAssert (pdfIndex >>> 24 == 0) .pdfIndex

/-- `nlm_flow_start_pending_pd_chain` on the head of the pending list. -/
def nlmFlowStartPendingPdChain (s : NlmDevice) (f : ℕ) :
    Except Fault (NlmStatus × NlmDevice) :=
  match (s.flows f).pendingPdHead with
  | none => .error .nullPd
  | some p =>
    let pd := s.pds p
    let job := s.jobOfCookie pd.cookie
    let pdfIndex := (s.flows f).pdfIndex
    match s.swJobFifo with
    | some fifo =>
      let fd := fifo.peekInput
      let s := s.nlmDeviceRemoveFlowFromPending f
      match fd with
      | none => .error .nullFd
      | some slot => do
        chainAsserts pd pdfIndex job
        let fifo := fifo.write slot (fillFd (fifo.buf slot) pd p pdfIndex job)
        .ok (.ok, { s with swJobFifo := some fifo.push })
    | none =>
      match s.sysmemAllocFd with
      | none => .ok (.inputFifoFull, s)
      | some (slot, s) => do
        let s := s.nlmDeviceRemoveFlowFromPending f
        chainAsserts pd pdfIndex job
        .ok (.ok, s.setFd slot (fillFd (s.inputFifo slot) pd p pdfIndex job))

/-- The other side of the FIFO or of the ring takes up to `n` FDs. -/
def takeFds (s : NlmDevice) (n : ℕ) : NlmDevice :=
  match s.swJobFifo with
  | some fifo => { s with swJobFifo := some (fifo.popMany n) }
  | none =>
    let sent := (s.fdfFifoWrtPtr + s.inputFifoSize - s.inputRdPtr) % s.inputFifoSize
    { s with inputRdPtr := (s.inputRdPtr + min n sent) % s.inputFifoSize }

/-- The loop of `nlm_try_start_stateful_flows`. Before iteration `i` the other
side takes up to `taken i` FDs. An iteration shortens the pending list or ends
the loop, so that its length bounds the number of iterations. -/
def tryStartLoop (taken : ℕ → ℕ) : ℕ → ℕ → NlmDevice → Except Fault NlmDevice
  | 0, _, s => .ok s
  | fuel + 1, i, s =>
    let s := s.takeFds (taken i)
    match s.pendingFlowList with
    | [] => .ok s
    | f :: _ => do
      let r ← s.nlmFlowStartPendingPdChain f
      if r.1 ≠ .ok then .ok r.2 else tryStartLoop taken fuel (i + 1) r.2

/-- `nlm_try_start_stateful_flows` -/
def nlmTryStartStatefulFlows (taken : ℕ → ℕ) (s : NlmDevice) : Except Fault NlmDevice := do
  let s ← tryStartLoop taken s.pendingFlowList.length 0 s
  .ok (if s.swJobFifo.isNone && s.inputWrtPtrDirty then s.nlmDeviceUpdateInputWrtPtr else s)

/-! ## `nlm_start_jobs` -/

/-- The error that the pre-check reports for one entry of the batch. -/
def jobError (s : NlmDevice) (job : Option ℕ) : Option NlmStatus :=
  match job with
  | none => some .invalidJob
  | some j =>
    match (s.jobs j).flow with
    | none => some .invalidJob
    | some f => if (s.flows f).type = .invalid then some .invalidFlow else none

/-- The type of the flow of a job. -/
def jobType (s : NlmDevice) (j : ℕ) : NlmFlowType :=
  match (s.jobs j).flow with
  | none => .invalid
  | some f => (s.flows f).type

/-- The number of stateless jobs of a batch. -/
def nStateless (s : NlmDevice) (jobs : List ℕ) : ℕ :=
  jobs.countP fun j ↦ s.jobType j = .stateless

/-- The number of stateful jobs of a batch. -/
def nStateful (s : NlmDevice) (jobs : List ℕ) : ℕ :=
  jobs.countP fun j ↦ s.jobType j = .stateful

/-- The stateless jobs are pushed into the software FIFO. -/
def pushStateless (s : NlmDevice) (fifo : SwFifo HwFdDescriptor) :
    List ℕ → Except Fault (SwFifo HwFdDescriptor)
  | [] => .ok fifo
  | j :: js =>
    if s.jobType j = .stateless then
      match fifo.peekInput with
      | none => .error .nullFd
      | some slot => pushStateless s (fifo.write slot (s.jobs j).fd).push js
    else pushStateless s fifo js

/-- One stateless job is put into the ring. -/
def startStatelessJob (s : NlmDevice) (j : ℕ) : Option NlmDevice :=
  match s.sysmemAllocFd with
  | none => none
  | some (slot, s) =>
    let s := s.setFd slot (s.jobs j).fd
    let s := s.setFlow ((s.jobs j).flow.getD 0) fun flow ↦
      { flow with jobSeqId := (flow.jobSeqId + 1) % 2 ^ 32 }
    some (s.setJob j fun job ↦ { job with flowOffset := 0 })

/-- The loop over the stateless jobs in the ring, and whether it went through.
`sysmem_alloc_fd` reads the pointer of the hardware anew for each of them: by the
first one the hardware has taken up to `taken 0` FDs, by the second one up to
`taken 1` more, and so on. -/
def startStatelessLoop : (ℕ → ℕ) → NlmDevice → List ℕ → Bool × NlmDevice
  | _, s, [] => (true, s)
  | taken, s, j :: js =>
    if s.jobType j = .stateless then
      match (s.takeFds (taken 0)).startStatelessJob j with
      | none => (false, s.takeFds (taken 0))
      | some s => startStatelessLoop (fun i ↦ taken (i + 1)) s js
    else startStatelessLoop taken s js

/-- One stateful job is started. -/
def startStatefulJob (s : NlmDevice) (j : ℕ) : Except Fault NlmDevice :=
  match (s.jobs j).flow, (s.jobs j).pd with
  | some f, some p => do
    apiAssert ((s.flows f).pdfIndex != 0) .pdfIndex
    let s := s.setJob j fun job ↦ { job with flowOffset := (s.flows f).flowOffset }
    let s := s.setFlow f fun flow ↦
      { flow with flowOffset := (flow.flowOffset + (s.pds p).packetByteCount) % 2 ^ 64 }
    apiAssert ((s.pds p).rsv01 == .createdButNotStarted) .pdNotCreated
    let s := s.nlmFlowAddJobToList f j p
    .ok (s.setPd p fun pd ↦ { pd with rsv01 := .validAndStarted })
  | _, _ => .error .nullPd

/-- The stateless part of `nlm_start_jobs`. -/
def startStateless (taken : ℕ → ℕ) (s : NlmDevice) (jobs : List ℕ) :
    Except Fault (NlmStatus × NlmDevice) :=
  if s.nStateless jobs = 0 then .ok (.ok, s)
  else
    match s.swJobFifo with
    | some fifo =>
      if fifo.free < s.nStateless jobs then .ok (.inputFifoFull, s)
      else do
        let fifo ← s.pushStateless fifo jobs
        .ok (.ok, { s with swJobFifo := some fifo })
    | none =>
      match startStatelessLoop taken s jobs with
      | (false, s') => .ok (.inputFifoFull, { s' with inputWrtPtr := s.inputWrtPtr })
      | (true, s') =>
        .ok (.ok, if s.nStateful jobs = 0 then s'.nlmDeviceUpdateInputWrtPtr else s')

/-- The stateful part of `nlm_start_jobs`. -/
def startStateful (taken : ℕ → ℕ) (s : NlmDevice) (jobs : List ℕ) :
    Except Fault (NlmStatus × NlmDevice) :=
  if s.nStateful jobs = 0 then .ok (.ok, s)
  else do
    let s ← (jobs.filter fun j ↦ s.jobType j = .stateful).foldlM startStatefulJob s
    let s ← s.nlmTryStartStatefulFlows taken
    .ok (.ok, s)

/-- `nlm_start_jobs`. The numbers `taken` go on where the stateless jobs have left off. -/
def nlmStartJobs (taken : ℕ → ℕ) (s : NlmDevice) (batch : List (Option ℕ)) :
    Except Fault (NlmStatus × NlmDevice) :=
  if batch = [] then .ok (.invalidArgument, s)
  else
    match batch.findSome? s.jobError with
    | some status => .ok (status, s)
    | none => do
      let jobs := batch.reduceOption
      let (status, s') ← s.startStateless taken jobs
      if status ≠ .ok then .ok (status, s')
      else s'.startStateful (fun i ↦ taken (i + s.nStateless jobs)) jobs

end NlmDevice

end NetL7.Packet
