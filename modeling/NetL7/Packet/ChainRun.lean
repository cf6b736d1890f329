import NetL7.Packet.InFlight
import NetL7.Packet.InputRing
import NetL7.Packet.Populate

/-!
# Chains of PDs and the hardware

The hardware takes FDs from the input ring in order and walks the chain of PDs behind
each. It uses the link and the bit `sw_disconnect` as it has read them: those in the FD
for the first PD, and those in memory, at the time it gets there, for every other. A
thread starts jobs, hands over the chains that wait, destroys flows and takes results in
between. Other threads put FDs into the same ring, and stateless jobs theirs.

A job is started once, and only the last packet of a flow has no bytes. The policy to enqueue
empty packets and the calls for `NLM_FLOW_FORCE_ONE_FD` and `NLM_FLOW_OFFSET` have no steps. To
enqueue a packet with a combination of its own is to change the groups to the same ones first. A
flow has less than `2 ^ 64` bytes and fewer than `2 ^ 32` changes of its groups, and the index
of a job has 24 bits. The results for matches, which complete nothing, are left out.
-/

namespace NetL7.Packet

/-- A descriptor as the hardware has read it, and the FD under which it got there. -/
structure Walk where
  fd : HwFdDescriptor
  cookie : ℕ
  pdNlaIndex : ℕ
  swDisconnect : Bool
  packetPrd : Bool
  deriving DecidableEq, Repr

namespace Walk

def ofFd (fd : HwFdDescriptor) : Walk :=
  ⟨fd, fd.cookie, fd.pdNla.pdNlaIndex, fd.swDisconnect, fd.packetPrd⟩

def ofPd (fd : HwFdDescriptor) (pd : HwPdDescriptor) : Walk :=
  ⟨fd, pd.cookie, pd.pdNla.pdNlaIndex, pd.swDisconnect, pd.packetPrd⟩

variable (w : Walk)

/-- There is no link to follow. -/
def last : Bool := w.pdNlaIndex == 0 || w.swDisconnect

/-- The packet of the descriptor is scanned for the job of its cookie. The FD in front of
the last packet of a flow yields no result and scans nothing of its own. -/
def scans : Bool := w.packetPrd || w.last

end Walk

namespace NlmDevice

variable (d : NlmDevice)

/-- The FD of a stateful flow of this thread. -/
def owns (fd : HwFdDescriptor) : Bool :=
  fd.flowType != .stateless && nlmGetThreadId fd.cookie == d.threadId

/-- The index of the PD of a job. -/
def pdIndex (j : ℕ) : ℕ := (d.jobs j).pd.getD 0

/-- What `nlm_destroy_stateful_flow` does with the job of the last packet before it tries
to start the pending flows. -/
def addFinish (f j p : ℕ) : NlmDevice :=
  let d := d.setPd p fun pd ↦ { pd with flowTerm := true, rsv01 := .validAndStarted }
  let d := d.nlmFlowAddJobToList f j p
  d.setJob j fun job ↦ { job with flowOffset := (d.flows f).flowOffset }

end NlmDevice

/-- A thread, the flows it has allocated, what the hardware walks, the results it has
returned and the thread has not taken, the jobs that wait to be started, and for each flow
the jobs that are started and not completed. `started` and `scanned` record the jobs of a
flow in the order in which they were started and in which the hardware scanned their
packets. -/
structure ChainRun where
  t : Thread
  used : List ℕ
  walks : List Walk
  results : List HwResultDescriptor
  waiting : List ℕ
  running : ℕ → List ℕ
  started : ℕ → List ℕ
  scanned : ℕ → List ℕ

namespace ChainRun

/-- A slot that no job in use has. -/
structure FreeJob (s : ChainRun) (j : ℕ) : Prop where
  pos : 0 < j
  lt : j < 2 ^ 24
  not_waiting : j ∉ s.waiting
  not_running : ∀ f, j ∉ s.running f

/-- A PD that no job in use has. -/
structure FreePd (s : ChainRun) (p : ℕ) : Prop where
  ne_zero : p ≠ 0
  not_waiting : ∀ j ∈ s.waiting, (s.t.device.jobs j).pd ≠ some p
  not_running : ∀ f, ∀ j ∈ s.running f, (s.t.device.jobs j).pd ≠ some p

variable (s : ChainRun)

/-- A flow that has been destroyed loses the jobs that were not started. -/
def waitingBut (f : ℕ) : List ℕ := s.waiting.filter fun j ↦ (s.t.device.jobs j).flow ≠ some f

/-- The thread when it has enqueued the last packet of a flow. -/
def finishing (f j p userCookie : ℕ) (packet : Payload) : NlmDevice :=
  ((s.t.invalidated f).nextCombination f).device.enqueueStateful f j p userCookie packet

/-- The flow whose job a cookie names. -/
def flowOf (cookie : ℕ) : ℕ := (s.t.device.jobOfCookie cookie).flow.getD 0

/-- What the hardware scans is recorded. -/
def scan (w : Walk) : ℕ → List ℕ :=
  if w.scans then
    Function.update s.scanned (s.flowOf w.cookie)
      (s.scanned (s.flowOf w.cookie) ++ [nlmGetJobIndex w.cookie])
  else s.scanned

/-- The hardware has taken the next FD of the ring. -/
def taken : ChainRun :=
  let fd := s.t.device.inputFifo s.t.device.inputRdPtr
  let t := { s.t with device := s.t.device.takeFd }
  if s.t.device.owns fd then
    { s with t := t, walks := .ofFd fd :: s.walks, scanned := s.scan (.ofFd fd) }
  else { s with t := t }

/-- The hardware has followed the link of a descriptor. -/
def followed (w : Walk) (results : List HwResultDescriptor) : ChainRun :=
  let w' := Walk.ofPd w.fd (s.t.device.pds w.pdNlaIndex)
  { s with
    walks := w' :: s.walks.erase w
    results := s.results ++ results
    scanned := s.scan w' }

/-- The flows that stay allocated when a result has been taken. The result of the last
packet of a flow frees the flow. -/
def usedAfter (rd : HwResultDescriptor) : List ℕ :=
  if (s.t.device.pds (s.t.device.pdIndex (nlmGetJobIndex rd.cookie))).flowTerm then
    s.used.filter (· ≠ s.flowOf rd.cookie)
  else s.used

/-- A result for the packet of a descriptor. -/
structure ResultFor (w : Walk) (isFrd : Bool) (rd : HwResultDescriptor) : Prop where
  cookie : rd.cookie = w.cookie
  valid : rd.valid = true
  type : rd.resultType = if isFrd then fmsFrdResult else fmsPrdResult

/-- The steps of the thread, of the hardware, and of the others at the ring. -/
inductive Step : ChainRun → ChainRun → Prop
  | createFlow {s : ChainRun} {f pdfIndex : ℕ} (hf : f ∉ s.used) (hpdf : pdfIndex ≠ 0)
      (hpdfLt : pdfIndex >>> 24 = 0) (m : Allocators) :
      Step s { s with
        t := { s.t with
          device := s.t.device.setFlow f fun _ ↦ InFlight.createdFlow .stateful pdfIndex
          m := m }
        used := f :: s.used
        started := Function.update s.started f []
        scanned := Function.update s.scanned f [] }
  | changeGroups {s : ChainRun} (f : ℕ) (groups : List ℕ)
      (hcombination : (s.t.device.flows f).dbGroupCombination + 1 < 2 ^ 32) :
      Step s { s with
        t := { s.t with
          device := s.t.device.setFlow f fun flow ↦ { flow with
            dbGroupId := groups
            dbGroupCombination := (flow.dbGroupCombination + 1) % 2 ^ 32 } } }
  | enqueue {s : ChainRun} {f j p : ℕ} (htype : (s.t.device.flows f).type = .stateful)
      (hgroups : (s.t.device.flows f).dbGroupId ≠ []) (hj : s.FreeJob j) (hp : s.FreePd p)
      (userCookie : ℕ) {packet : Payload} (hbytes : 0 < packet.packetByteCount) (m : Allocators)
      (packetBase : List ℕ) :
      Step s { s with
        t := { s.t with
          device := s.t.device.enqueueStateful f j p userCookie packet
          m := m
          packetBase := packetBase }
        waiting := j :: s.waiting }
  | cancel {s : ChainRun} {j : ℕ} {t : Thread} (hj : j ∈ s.waiting)
      (hcall : s.t.nlmCancelJob j = .ok (.ok, t)) :
      Step s { s with t := t, waiting := s.waiting.erase j }
  | leftover {s : ChainRun} {jobs : ℕ → NlmJob} {pds : ℕ → HwPdDescriptor}
      (hjobs : ∀ j, ¬s.FreeJob j → jobs j = s.t.device.jobs j)
      (hpds : ∀ p, ¬s.FreePd p → pds p = s.t.device.pds p) (m : Allocators) :
      Step s { s with t := { s.t with
        device := { s.t.device with jobs := jobs, pds := pds }
        m := m } }
  -- `sw_disconnect` is written before the link, and the hardware may come in between
  | disconnect {s : ChainRun} {f p : ℕ} (htype : (s.t.device.flows f).type = .stateful)
      (hlast : (s.t.device.flows f).lastPd = some p) :
      Step s { s with
        t := { s.t with device := s.t.device.setPd p fun pd ↦ { pd with swDisconnect := true } } }
  | start {s : ChainRun} {f j : ℕ} {device : NlmDevice} (hj : j ∈ s.waiting)
      (hflow : (s.t.device.jobs j).flow = some f)
      (hbytes : (s.t.device.flows f).flowOffset +
        (s.t.device.pds (s.t.device.pdIndex j)).packetByteCount < 2 ^ 64)
      (hcall : s.t.device.startStatefulJob j = .ok device) :
      Step s { s with
        t := { s.t with device := device }
        waiting := s.waiting.erase j
        running := Function.update s.running f (s.running f ++ [j])
        started := Function.update s.started f (s.started f ++ [j]) }
  | destroy {s : ChainRun} {f j p : ℕ} (htype : (s.t.device.flows f).type = .stateful)
      (hsent : (s.t.device.flows f).flowOffset ≠ 0)
      (hgroups : (s.t.device.flows f).dbGroupCombination ≠ 0)
      (hcombination : (s.t.device.flows f).dbGroupCombination + 1 < 2 ^ 32)
      (hj : s.FreeJob j) (hp : s.FreePd p) (userCookie : ℕ) {packet : Payload}
      (hbytes : packet.packetByteCount = 0) (m : Allocators) (packetBase : List ℕ) :
      Step s { s with
        t := { s.t with
          device := (s.finishing f j p userCookie packet).addFinish f j p
          m := m
          packetBase := packetBase }
        waiting := s.waitingBut f
        running := Function.update s.running f (s.running f ++ [j])
        started := Function.update s.started f (s.started f ++ [j]) }
  | destroyUnused {s : ChainRun} {f : ℕ} (htype : (s.t.device.flows f).type = .stateful)
      (hunused : (s.t.device.flows f).flowOffset = 0 ∨
        (s.t.device.flows f).dbGroupCombination = 0) :
      Step s { s with
        t := { s.t.invalidated f with m := s.t.m.freeFlow f }
        used := s.used.filter (· ≠ f)
        waiting := s.waitingBut f }
  | destroyFailed {s : ChainRun} {f : ℕ} (htype : (s.t.device.flows f).type = .stateful) :
      Step s { s with
        t := (s.t.invalidated f).nextCombination f
        waiting := s.waitingBut f }
  | startChain {s : ChainRun} {f : ℕ} {rest : List ℕ} {device : NlmDevice}
      (hlist : s.t.device.pendingFlowList = f :: rest)
      (hcall : s.t.device.nlmFlowStartPendingPdChain f = .ok (.ok, device)) :
      Step s { s with t := { s.t with device := device } }
  | publish {s : ChainRun} :
      Step s { s with t := { s.t with device := s.t.device.nlmDeviceUpdateInputWrtPtr } }
  | otherFd {s : ChainRun} {slot : ℕ} {device : NlmDevice} {fd : HwFdDescriptor}
      (halloc : s.t.device.sysmemAllocFd = some (slot, device))
      (hother : s.t.device.owns fd = false) :
      Step s { s with t := { s.t with device := device.setFd slot fd } }
  | take {s : ChainRun} (hsent : s.t.device.inputRdPtr ≠ s.t.device.fdfFifoWrtPtr) :
      Step s s.taken
  | follow {s : ChainRun} {w : Walk} {results : List HwResultDescriptor} (hw : w ∈ s.walks)
      (hlast : w.last = false) (hcount : results.length = if w.packetPrd then 1 else 0)
      (hresults : ∀ rd ∈ results, ResultFor w false rd) :
      Step s (s.followed w results)
  | stop {s : ChainRun} {w : Walk} {rd : HwResultDescriptor} (hw : w ∈ s.walks)
      (hlast : w.last = true) (hrd : ResultFor w true rd) :
      Step s { s with walks := s.walks.erase w, results := s.results ++ [rd] }
  | collect {s : ChainRun} {rd : HwResultDescriptor} {rest : List HwResultDescriptor}
      {t : Thread} {result : Option NlmResult} {mark : Bool} (hresults : s.results = rd :: rest)
      (hcall : s.t.populateResults rd = .ok (t, result, mark)) :
      Step s { s with
        t := t
        used := s.usedAfter rd
        results := rest
        running := fun f ↦ (s.running f).erase (nlmGetJobIndex rd.cookie) }

/-- A thread that has just attached to a ring. -/
def start (threadId inputFifoSize : ℕ) (m : Allocators) (packetBase : List ℕ) (policy : ℕ) :
    ChainRun where
  t :=
    { device := .attached threadId inputFifoSize false
      m := m
      packetBase := packetBase
      packetEnqueuePolicy := policy }
  used := []
  walks := []
  results := []
  waiting := []
  running := fun _ ↦ []
  started := fun _ ↦ []
  scanned := fun _ ↦ []

def Reaches : ChainRun → ChainRun → Prop := Relation.ReflTransGen Step

/-! ## What belongs to a flow -/

/-- A cookie names a job of the flow that is not completed. -/
def inFlow (f cookie : ℕ) : Bool := decide (nlmGetJobIndex cookie ∈ s.running f)

/-- The FDs of a flow in the ring. -/
def fdsOf (f : ℕ) : List HwFdDescriptor :=
  s.t.device.ringFds.filter fun fd ↦ s.t.device.owns fd && s.inFlow f fd.cookie

/-- What the hardware walks of a flow. -/
def walksOf (f : ℕ) : List Walk := s.walks.filter fun w ↦ s.inFlow f w.cookie

/-- The jobs of a flow whose results have been returned, and whether a result is an FRD. -/
def resultsOf (f : ℕ) : List (ℕ × Bool) :=
  (s.results.filter fun rd ↦ s.inFlow f rd.cookie).map fun rd ↦
    (nlmGetJobIndex rd.cookie, rd.resultType == fmsFrdResult)

end ChainRun

end NetL7.Packet
