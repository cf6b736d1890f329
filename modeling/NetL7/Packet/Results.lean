import NetL7.Packet.MemoryPool
import NetL7.Packet.StartJobs

/-!
# Enqueueing jobs and taking their results

`nlm_flow_enqueue_search_1` fills in a job, and for a stateful flow a PD;
`populate_results` frees them again when the result of the job has come.
-/

namespace NetL7.Packet

/-- Where the payload of a packet lies. -/
structure Payload where
  packetBase : ℕ
  packetAddr : ℕ
  packetByteCount : ℕ

/-- The fields of a job that do not depend on the type of its flow. -/
def NlmJob.ofFlow (job : NlmJob) (flow : NlmFlow) (f userCookie cookie : ℕ) : NlmJob :=
  { job with
    flow := some f
    userCookie := userCookie
    dbGroupCombination := flow.dbGroupCombination
    fd := { job.fd with
      cookie := cookie
      gid0 := flow.dbGroupId.getD 0 0
      gid1 := flow.dbGroupId.getD 1 0
      gid2 := flow.dbGroupId.getD 2 0
      gid3 := flow.dbGroupId.getD 3 0
      gid4 := flow.dbGroupId.getD 4 0
      gid5 := flow.dbGroupId.getD 5 0
      gidCnt := flow.dbGroupId.length } }

namespace NlmDevice

variable (s : NlmDevice)

/-- The stateless half of `nlm_flow_enqueue_search_1` in the job slot `j`. -/
def enqueueStateless (f j userCookie : ℕ) (packet : Payload) : NlmDevice :=
  s.setJob j fun job ↦
    let job := job.ofFlow (s.flows f) f userCookie (nlmEncodeCookie s.threadId j)
    { job with
      pd := none
      fd := { job.fd with
        packetBase := packet.packetBase
        packetAddr := packet.packetAddr
        flowType := .stateless
        endAnchor := true
        startAnchor := true
        pdfIndex := 0
        swDisconnect := false
        packetPrd := true
        flowTerm := false
        packetByteCount := packet.packetByteCount
        pdNla := ⟨0, 0⟩ } }

/-- The stateful half, which also fills in the PD `p`. -/
def enqueueStateful (f j p userCookie : ℕ) (packet : Payload) : NlmDevice :=
  let s' := s.setJob j fun job ↦
    { job.ofFlow (s.flows f) f userCookie (nlmEncodeCookie s.threadId j) with pd := some p }
  s'.setPd p fun _ ↦
    { packetBase := packet.packetBase
      rsv01 := .createdButNotStarted
      swDisconnect := false
      packetPrd := true
      flowTerm := false
      packetByteCount := packet.packetByteCount
      packetAddr := packet.packetAddr
      cookie := nlmEncodeCookie s.threadId j
      pdNla := ⟨0, 0⟩ }

/-- `nlm_flow_notice_job_completion` -/
def nlmFlowNoticeJobCompletion (f p : ℕ) : Except Fault NlmDevice :=
  if (s.flows f).lastPd = some p then do
    apiAssert ((s.pds p).pdNla.pdNlaIndex == 0) .linkedLastPd
    .ok (s.setFlow f fun flow ↦ { flow with lastPd := none })
  else if (s.pds p).pdNla.pdNlaIndex = 0 then .ok s
  else do
    apiAssert (s.flows f).pendingPdHead.isNone .flowPending
    let s' := s.setFlow f fun flow ↦
      { flow with pendingPdHead := some (s.pds p).pdNla.pdNlaIndex }
    .ok (s'.nlmDeviceAddFlowToPending f)

/-- `sysmem_free_pd` -/
def sysmemFreePd (p : ℕ) : NlmDevice := s.setPd p fun pd ↦ { pd with cookie := 0 }

/-- The error code of the result is kept in the flow. -/
def noteError (f errorCode : ℕ) : NlmDevice :=
  if errorCode = 0 then s else s.setFlow f fun flow ↦ { flow with errored := errorCode }

end NlmDevice

/-- One job of a stateless flow is done. -/
def NlmFlow.uncountJob (flow : NlmFlow) : NlmFlow :=
  { flow with jobSeqId := (2 ^ 32 + flow.jobSeqId - 1) % 2 ^ 32 }

namespace NlmDevice

variable (s : NlmDevice)

/-- `memory_pool_free_flow` overwrites the type of the flow with a pointer, which
is the type of no flow. -/
def releaseFlow (f : ℕ) : NlmDevice := s.setFlow f fun flow ↦ { flow with type := .invalid }

/-- What `populate_results` does with the FRD of a job of the stateless flow
`f`, and whether it frees the flow. -/
def finishStateless (f errorCode : ℕ) : NlmDevice × Bool :=
  let s := (s.noteError f errorCode).setFlow f NlmFlow.uncountJob
  if (s.flows f).type = .invalid ∧ (s.flows f).jobSeqId = 0 then (s.releaseFlow f, true)
  else (s, false)

/-- What `populate_results` does with an FRD or PRD of the job of PD `p` of the
stateful flow `f`. -/
def finishStateful (f p errorCode : ℕ) (isFrd : Bool) : Except Fault NlmDevice := do
  let s := s.noteError f errorCode
  apiAssert ((s.pds p).rsv01 == .validAndStarted) .pdNotStarted
  let s ← (if isFrd then s.nlmFlowNoticeJobCompletion f p else .ok s)
  .ok (s.sysmemFreePd p)

/-- `nlm_destroy_stateless_flow`, and whether it frees the flow. -/
def nlmDestroyStatelessFlow (f : ℕ) : NlmStatus × NlmDevice × Bool :=
  match (s.flows f).type with
  | .stateful => (.invalidArgument, s, false)
  | .stateless =>
    let s := s.setFlow f fun flow ↦ { flow with type := .invalid }
    if (s.flows f).jobSeqId = 0 then (.ok, s.releaseFlow f, true) else (.ok, s, false)
  | .invalid => (.invalidFlow, s, false)

end NlmDevice

end NetL7.Packet
