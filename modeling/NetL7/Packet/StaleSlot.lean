import NetL7.Packet.ManageInput
import NetL7.Packet.Pending
import NetL7.Packet.StartJobs

/-!
# Stateful flows behind a manager thread

A flow that is started through the software FIFO writes its FD over the one
that an earlier job left in the slot, while the ring of the hardware hands out
zeroed FDs. The three branches that fill in the FD write different fields.
-/

namespace NetL7.Packet

/-- The bits of an FD that no code writes. -/
structure HwFdDescriptor.ReservedZero (fd : HwFdDescriptor) : Prop where
  rsv11 : fd.rsv11 = 0
  rsv12 : fd.rsv12 = 0
  rsv21 : fd.rsv21 = 0
  rsv22 : fd.rsv22 = 0
  error : fd.error = 0
  rsv31 : fd.rsv31 = 0
  rsv32 : fd.rsv32 = 0
  rsv05 : fd.rsv05 = 0

/-- The fields that the re-init branch does not write are zero. -/
structure HwFdDescriptor.PacketZero (fd : HwFdDescriptor) : Prop where
  endAnchor : fd.endAnchor = false
  startAnchor : fd.startAnchor = false
  packetBase : fd.packetBase = 0
  swDisconnect : fd.swDisconnect = false
  packetPrd : fd.packetPrd = false
  flowTerm : fd.flowTerm = false
  packetByteCount : fd.packetByteCount = 0
  packetAddr : fd.packetAddr = 0
  pdNla : fd.pdNla = ⟨0, 0⟩

/-- The branch of `nlm_flow_start_pending_pd_chain` that re-initialises a flow. -/
def Reinit (pd : HwPdDescriptor) (job : NlmJob) : Prop := job.fd.gidCnt = 0 ∧ pd.flowTerm = true

variable {stale fd : HwFdDescriptor} {pd : HwPdDescriptor} {p pdfIndex : ℕ} {job : NlmJob}

theorem reservedZero_fillFd (h : stale.ReservedZero) :
    (fillFd stale pd p pdfIndex job).ReservedZero := by
  obtain ⟨h11, h12, h21, h22, herror, h31, h32, h05⟩ := h
  unfold fillFd
  simp only
  split
  · exact ⟨h11, h12, h21, h22, herror, h31, h32, h05⟩
  · split
    · exact ⟨h11, h12, h21, h22, herror, h31, h32, h05⟩
    · exact ⟨h11, h12, h21, h22, herror, h31, h32, h05⟩

/-- What the slot held shows through in the re-init branch only. -/
theorem fillFd_eq_iff (h : stale.ReservedZero) :
    fillFd stale pd p pdfIndex job = fillFd .zero pd p pdfIndex job ↔
      ¬ Reinit pd job ∨ stale.PacketZero := by
  obtain ⟨h11, h12, h21, h22, herror, h31, h32, h05⟩ := h
  unfold fillFd Reinit
  simp only
  split
  · rename_i hreinit
    constructor
    · intro heq
      simp only [HwFdDescriptor.mk.injEq, HwFdDescriptor.zero] at heq
      right
      constructor
      · exact heq.2.1
      · exact heq.2.2.1
      · tauto
      · tauto
      · tauto
      · tauto
      · tauto
      · tauto
      · tauto
    · rintro (hnot | hzero)
      · exact absurd hreinit hnot
      · obtain ⟨hend, hstart, hbase, hdisc, hprd, hterm, hcount, haddr, hnla⟩ := hzero
        simp only [HwFdDescriptor.zero, h11, h12, h21, h22, herror, h31, h32, h05, hend, hstart,
          hbase, hdisc, hprd, hterm, hcount, haddr, hnla]
  · rename_i hnot
    refine ⟨fun _ ↦ .inl hnot, fun _ ↦ ?_⟩
    split
    · simp only [HwFdDescriptor.zero, HwFdDescriptor.copyPd, h11, h12, h21, h22, herror, h31,
        h32, h05]
    · simp only [HwFdDescriptor.zero, HwFdDescriptor.copyPd, h11, h12, h21, h22, herror, h31,
        h32, h05]

/-- The FDs that a thread pushes: those of stateless jobs, and those that start
a chain of PDs in the slot. -/
inductive Built (stale : HwFdDescriptor) : HwFdDescriptor → Prop
  | stateless {fd : HwFdDescriptor} (h : fd.ReservedZero) : Built stale fd
  | chain (pd : HwPdDescriptor) (p pdfIndex : ℕ) (job : NlmJob) :
      Built stale (fillFd stale pd p pdfIndex job)

theorem Built.reservedZero (h : Built stale fd) (hstale : stale.ReservedZero) :
    fd.ReservedZero := by
  cases h with
  | stateless h => exact h
  | chain pd p pdfIndex job => exact reservedZero_fillFd hstale

namespace InputRun

variable {size maxThreads t : ℕ} {s s' : InputRun}

/-- A step in which a thread pushes only what the library builds. -/
def LibraryStep (size maxThreads : ℕ) (s s' : InputRun) : Prop :=
  (∃ actor, InputStep size maxThreads actor s s') ∧
    ∀ t slot fd, (s.fifos t).peekInput = some slot → s'.pushed t = s.pushed t ++ [fd] →
      Built ((s.fifos t).buf slot) fd

/-- Any history of the software FIFOs. -/
def LibraryRun (size maxThreads : ℕ) : InputRun → InputRun → Prop :=
  Relation.ReflTransGen (LibraryStep size maxThreads)

theorem LibraryStep.reservedZero (hstep : LibraryStep size maxThreads s s')
    (h : ∀ t slot, ((s.fifos t).buf slot).ReservedZero) :
    ∀ t slot, ((s'.fifos t).buf slot).ReservedZero := by
  obtain ⟨⟨actor, hstep⟩, hbuilt⟩ := hstep
  cases hstep with
  | enter => exact h
  | skip => exact h
  | full => exact h
  | alloc => exact h
  | copy => exact h
  | @pop _ i noJobs hpc =>
    intro t slot
    rcases eq_or_ne t i with rfl | hne
    · simp only [Function.update_self]
      exact h t slot
    · simp only [Function.update_of_ne hne]
      exact h t slot
  | round => exact h
  | leave => exact h
  | publish => exact h
  | @push _ t' slot' ht fd hcookie hpeek =>
    have hfd := hbuilt t' slot' fd hpeek (Function.update_self ..)
    intro t slot
    rcases eq_or_ne t t' with rfl | hne
    · simp only [Function.update_self]
      change (Function.update (s.fifos t).buf slot' fd slot).ReservedZero
      rcases eq_or_ne slot slot' with rfl | hslot
      · rw [Function.update_self]
        exact hfd.reservedZero (h t slot)
      · rw [Function.update_of_ne hslot]
        exact h t slot
    · simp only [Function.update_of_ne hne]
      exact h t slot
  | take => exact h

theorem LibraryRun.reservedZero (hrun : LibraryRun size maxThreads (start size) s) (t slot : ℕ) :
    ((s.fifos t).buf slot).ReservedZero := by
  have hall : ∀ t slot, ((s.fifos t).buf slot).ReservedZero := by
    induction hrun with
    | refl => exact fun _ _ ↦ ⟨rfl, rfl, rfl, rfl, rfl, rfl, rfl, rfl⟩
    | tail _ hstep ih => exact hstep.reservedZero ih
  exact hall t slot

theorem LibraryRun.reaches (hrun : LibraryRun size maxThreads s s') :
    Reaches size maxThreads s s' :=
  Relation.ReflTransGen.mono (fun _ _ h ↦ h.1) _ _ hrun

theorem managerStep_pushed (size maxThreads : ℕ) (s : InputRun) :
    (s.managerStep size maxThreads).pushed = s.pushed := by
  unfold managerStep
  split
  · rfl
  · split
    · split
      · rfl
      · split <;> rfl
    · split <;> rfl
  · split <;> rfl
  · rfl
  · split <;> rfl

/-- A step that pushes nothing is always one of the library. -/
theorem LibraryStep.of_pushed (hstep : ∃ actor, InputStep size maxThreads actor s s')
    (hpushed : s'.pushed = s.pushed) : LibraryStep size maxThreads s s' := by
  refine ⟨hstep, fun t slot fd _ heq ↦ ?_⟩
  rw [hpushed, List.self_eq_append_right] at heq
  cases heq

theorem libraryRun_managerSteps (size maxThreads n : ℕ) (s : InputRun) :
    LibraryRun size maxThreads s ((managerStep size maxThreads)^[n] s) := by
  induction n generalizing s with
  | zero => exact .refl
  | succ n ih =>
    have hrest := ih (s.managerStep size maxThreads)
    rw [Function.iterate_succ_apply]
    rcases managerStep_cases size maxThreads s with heq | hstep
    · rw [heq] at hrest ⊢
      exact hrest
    · exact .head (.of_pushed ⟨_, hstep⟩ (managerStep_pushed size maxThreads s)) hrest

/-- A thread pushes the FD of a stateless job. -/
theorem libraryStep_pushFd {slot : ℕ} {fd : HwFdDescriptor} (ht : t < maxThreads)
    (hcookie : nlmGetThreadId fd.cookie = t) (hpeek : (s.fifos t).peekInput = some slot)
    (hfd : fd.ReservedZero) : LibraryStep size maxThreads s (s.pushFd t slot fd) := by
  refine ⟨⟨_, .push ht fd hcookie hpeek⟩, fun i slot' fd' _ heq ↦ ?_⟩
  change Function.update s.pushed t (s.pushed t ++ [fd]) i = s.pushed i ++ [fd'] at heq
  rcases eq_or_ne i t with rfl | hne
  · rw [Function.update_self] at heq
    cases List.append_cancel_left heq
    exact .stateless hfd
  · rw [Function.update_of_ne hne, List.self_eq_append_right] at heq
    cases heq

/-- What a thread has pushed stays pushed. -/
theorem Reaches.pushed_prefix (hrun : Reaches size maxThreads s s') (t : ℕ) :
    s.pushed t <+: s'.pushed t := by
  induction hrun with
  | refl => exact List.prefix_refl _
  | @tail s₁ s₂ _ hstep ih =>
    refine ih.trans ?_
    obtain ⟨actor, hstep⟩ := hstep
    cases hstep with
    | @push _ t' slot ht fd hcookie hpeek =>
      rcases eq_or_ne t t' with rfl | hne
      · simp only [Function.update_self]
        exact List.prefix_append _ _
      · simp only [Function.update_of_ne hne]
        exact List.prefix_refl _
    | _ => exact List.prefix_refl _

end InputRun

namespace NlmDevice

variable {s s' : NlmDevice} {f : ℕ} {fifo : SwFifo HwFdDescriptor}

/-- The FD of a flow over the contents of a slot. -/
def chainFd (s : NlmDevice) (f p : ℕ) (stale : HwFdDescriptor) : HwFdDescriptor :=
  fillFd stale (s.pds p) p (s.flows f).pdfIndex (s.jobOfCookie (s.pds p).cookie)

theorem startPendingPdChain_swFifo {p slot : ℕ} (hfifo : s.swJobFifo = some fifo)
    (hp : (s.flows f).pendingPdHead = some p)
    (hasserts : chainAsserts (s.pds p) (s.flows f).pdfIndex
      (s.jobOfCookie (s.pds p).cookie) = .ok ())
    (hpeek : fifo.peekInput = some slot) :
    ∃ s', s.nlmFlowStartPendingPdChain f = .ok (.ok, s') ∧
      s'.swJobFifo = some (fifo.write slot (s.chainFd f p (fifo.buf slot))).push := by
  unfold nlmFlowStartPendingPdChain
  simp only [hp, hfifo, hpeek, hasserts, bind, Except.bind]
  exact ⟨_, rfl, rfl⟩

theorem startPendingPdChain_ring {p : ℕ} (hfifo : s.swJobFifo = none)
    (hp : (s.flows f).pendingPdHead = some p)
    (hasserts : chainAsserts (s.pds p) (s.flows f).pdfIndex
      (s.jobOfCookie (s.pds p).cookie) = .ok ())
    (hring : RingOk s) (hroom : 0 < s.freeFds) :
    ∃ s', s.nlmFlowStartPendingPdChain f = .ok (.ok, s') ∧
      s'.inputFifo s.inputWrtPtr = s.chainFd f p .zero := by
  have hspace := mt hring.sysmemAllocFd_eq_none.mp (Nat.ne_of_gt hroom)
  unfold nlmFlowStartPendingPdChain
  unfold sysmemAllocFd at hspace ⊢
  split at hspace
  · exact absurd rfl hspace
  · rename_i hne
    simp only [hp, hfifo, if_neg hne, hasserts, bind, Except.bind]
    refine ⟨_, rfl, ?_⟩
    change Function.update (Function.update s.inputFifo s.inputWrtPtr .zero) s.inputWrtPtr
      (s.chainFd f p (Function.update s.inputFifo s.inputWrtPtr .zero s.inputWrtPtr))
        s.inputWrtPtr = _
    rw [Function.update_self, Function.update_self]

end NlmDevice

open InputRun NlmDevice in
/-- After any history of the software FIFOs, thread `t` starts its pending flow
`f` behind the manager thread. Whatever everybody does then, the FD that the
manager puts into the ring is the one that a thread with a ring of its own would
have built, unless the flow is re-initialised in a slot with leftovers. -/
theorem managerFd_eq_directFd_iff {size maxThreads t f p slot : ℕ} {s : InputRun}
    {d r : NlmDevice} (hsize : FifoSizeOk size) (ht : t < maxThreads)
    (hrun : LibraryRun size maxThreads (start size) s)
    (hfifo : d.swJobFifo = some (s.fifos t)) (hslot : (s.fifos t).peekInput = some slot)
    (hp : (d.flows f).pendingPdHead = some p)
    (hasserts : chainAsserts (d.pds p) (d.flows f).pdfIndex
      (d.jobOfCookie (d.pds p).cookie) = .ok ())
    (hcookie : nlmGetThreadId (d.pds p).cookie = t)
    (hdirect : r.swJobFifo = none) (hflows : r.flows = d.flows) (hjobs : r.jobs = d.jobs)
    (hpds : r.pds = d.pds) (hring : RingOk r) (hroom : 0 < r.freeFds) :
    let s' := s.pushFd t slot (d.chainFd f p ((s.fifos t).buf slot))
    ∃ d' r', d.nlmFlowStartPendingPdChain f = .ok (.ok, d') ∧
      r.nlmFlowStartPendingPdChain f = .ok (.ok, r') ∧
      InputStep size maxThreads .thread s s' ∧ d'.swJobFifo = some (s'.fifos t) ∧
      ∀ s'', Reaches size maxThreads s' s'' →
        (s.pushed t).length < (s''.placedBy t).length →
        ((s''.placedBy t)[(s.pushed t).length]? = some (r'.inputFifo r.inputWrtPtr) ↔
          ¬ Reinit (d.pds p) (d.jobOfCookie (d.pds p).cookie) ∨
            ((s.fifos t).buf slot).PacketZero) := by
  intro s'
  obtain ⟨d', hd', hfifo'⟩ := startPendingPdChain_swFifo hfifo hp hasserts hslot
  have hasserts' : chainAsserts (r.pds p) (r.flows f).pdfIndex
      (r.jobOfCookie (r.pds p).cookie) = .ok () := by
    unfold jobOfCookie
    rw [hflows, hjobs, hpds]
    exact hasserts
  obtain ⟨r', hr', hslot'⟩ := startPendingPdChain_ring hdirect (hflows ▸ hp) hasserts' hring hroom
  have hchain : r.chainFd f p .zero = d.chainFd f p .zero := by
    unfold chainFd jobOfCookie
    rw [hflows, hjobs, hpds]
  have hthread : nlmGetThreadId (d.chainFd f p ((s.fifos t).buf slot)).cookie = t := hcookie
  have hpush : InputStep size maxThreads .thread s s' := .push ht _ hthread hslot
  refine ⟨d', r', hd', hr', hpush, ?_, fun s'' hreach hlen ↦ ?_⟩
  · rw [hfifo']
    simp only [s', pushFd, Function.update_self]
  · have hprefix := hreach.pushed_prefix t
    simp only [s', pushFd, Function.update_self] at hprefix
    have hall : Reaches size maxThreads (start size) s'' :=
      (Relation.ReflTransGen.tail hrun.reaches ⟨_, hpush⟩).trans hreach
    have hinv := hall.inv hsize
    have hplaced : s''.placedBy t <+: s''.pushed t := ⟨_, (hinv.order t).symm⟩
    have hget : (s''.placedBy t)[(s.pushed t).length]? =
        some (d.chainFd f p ((s.fifos t).buf slot)) := by
      rw [List.getElem?_eq_getElem hlen, hplaced.getElem hlen, ← List.getElem?_eq_getElem]
      obtain ⟨rest, hrest⟩ := hprefix
      rw [← hrest]
      simp
    rw [hget, hslot', hchain, Option.some.injEq]
    exact fillFd_eq_iff (hrun.reservedZero t slot)

/-! ## A slot that held a stateless job -/

namespace NlmDevice

/-- The FD of a stateless job of thread 0 with 100 bytes. -/
def statelessFd : HwFdDescriptor :=
  { HwFdDescriptor.zero with
    endAnchor := true
    startAnchor := true
    gidCnt := 1
    gid0 := 5
    packetPrd := true
    packetByteCount := 100
    cookie := 2 }

/-- A flow without groups whose terminating PD 1 waits to be started. -/
def destroyedFlow (s : NlmDevice) : NlmDevice :=
  let s := s.setFlow 1 fun flow ↦ { flow with pdfIndex := 1, pendingPdHead := some 1 }
  let s := s.setPd 1 fun pd ↦ { pd with cookie := 1, flowTerm := true }
  s.nlmDeviceAddFlowToPending 1

/-- The same flow with a ring of its own. -/
def withRing : NlmDevice := destroyedFlow (attached 0 2 false)

end NlmDevice

namespace InputRun

open NlmDevice

/-- The FD goes through the FIFO and the ring, and the hardware takes it. -/
def throughRing (s : InputRun) (slot : ℕ) (fd : HwFdDescriptor) : InputRun :=
  ((managerStep 2 1)^[8] (s.pushFd 0 slot fd)).takeFd 2

/-- Two stateless jobs have gone through a FIFO and a ring of two slots. -/
def bothSlotsUsed : InputRun := ((start 2).throughRing 0 statelessFd).throughRing 1 statelessFd

theorem libraryRun_throughRing {slot : ℕ} {s : InputRun}
    (hpeek : (s.fifos 0).peekInput = some slot)
    (hsent : ((managerStep 2 1)^[8] (s.pushFd 0 slot statelessFd)).inputRdPtr ≠
      ((managerStep 2 1)^[8] (s.pushFd 0 slot statelessFd)).fdfFifoWrtPtr) :
    LibraryRun 2 1 s (s.throughRing slot statelessFd) := by
  have hpush : LibraryStep 2 1 s (s.pushFd 0 slot statelessFd) :=
    libraryStep_pushFd (by decide) (by decide) hpeek ⟨rfl, rfl, rfl, rfl, rfl, rfl, rfl, rfl⟩
  have hpass : LibraryRun 2 1 (s.pushFd 0 slot statelessFd) _ :=
    libraryRun_managerSteps 2 1 8 _
  exact (hpass.head hpush).tail (.of_pushed ⟨_, .take hsent⟩ rfl)

theorem bothSlotsUsed_run : LibraryRun 2 1 (start 2) bothSlotsUsed := by
  have hfirst : LibraryRun 2 1 (start 2) ((start 2).throughRing 0 statelessFd) :=
    libraryRun_throughRing rfl (by decide)
  exact hfirst.trans (libraryRun_throughRing rfl (by decide))

/-- The thread behind the manager thread, with its terminating PD. -/
def behindManager : NlmDevice :=
  { destroyedFlow (attached 0 2 true) with swJobFifo := some (bothSlotsUsed.fifos 0) }

/-- A normal packet in place of the terminating one. -/
def withPacket (d : NlmDevice) : NlmDevice :=
  d.setPd 1 fun pd ↦ { pd with flowTerm := false, packetByteCount := 40 }

/-- The FD of a packet in the slot of a stateless job is the one that a ring gets. -/
theorem managerFd_eq_directFd_iff_sample :
    ∃ r' s'', (withPacket withRing).nlmFlowStartPendingPdChain 1 = .ok (.ok, r') ∧
      Reaches 2 1 bothSlotsUsed s'' ∧ (s''.placedBy 0).length = 3 ∧
      ((bothSlotsUsed.fifos 0).buf 0).packetByteCount = 100 ∧
      (s''.placedBy 0)[2]? = some (r'.inputFifo 0) := by
  obtain ⟨d', r', -, hr', hstep, -, hiff⟩ :=
    managerFd_eq_directFd_iff (d := withPacket behindManager) (r := withPacket withRing) (f := 1)
      (p := 1) (t := 0) (by decide) (by decide) bothSlotsUsed_run rfl rfl rfl rfl (by decide) rfl
      rfl rfl rfl ⟨by decide, by decide, by decide⟩ (by decide)
  have hpass := reaches_managerSteps 2 1 8 (bothSlotsUsed.pushFd 0 0
    ((withPacket behindManager).chainFd 1 1 ((bothSlotsUsed.fifos 0).buf 0)))
  have hnormal : ¬ Reinit ((withPacket behindManager).pds 1)
      ((withPacket behindManager).jobOfCookie ((withPacket behindManager).pds 1).cookie) :=
    fun hreinit ↦ by cases hreinit.2
  exact ⟨r', _, hr', hpass.head ⟨_, hstep⟩, rfl, rfl, (hiff _ hpass (by decide)).mpr (.inl hnormal)⟩

/-- The FD that re-initialises the flow reaches the ring with the byte count of the
stateless job, which it has not if the ring is the thread's own. -/
theorem behindManager_leftover :
    ∃ d' r' s'', LibraryRun 2 1 (start 2) bothSlotsUsed ∧
      behindManager.swJobFifo = some (bothSlotsUsed.fifos 0) ∧
      behindManager.nlmFlowStartPendingPdChain 1 = .ok (.ok, d') ∧
      withRing.nlmFlowStartPendingPdChain 1 = .ok (.ok, r') ∧
      d'.swJobFifo = some ((bothSlotsUsed.pushFd 0 0 (behindManager.chainFd 1 1 statelessFd)).fifos
        0) ∧
      Reaches 2 1 (bothSlotsUsed.pushFd 0 0 (behindManager.chainFd 1 1 statelessFd)) s'' ∧
      (s''.placedBy 0)[2]?.map HwFdDescriptor.packetByteCount = some 100 ∧
      (r'.inputFifo 0).packetByteCount = 0 :=
  ⟨_, _, _, bothSlotsUsed_run, rfl, rfl, rfl, rfl,
    reaches_managerSteps 2 1 8 (bothSlotsUsed.pushFd 0 0 (behindManager.chainFd 1 1 statelessFd)),
    rfl, rfl⟩

end InputRun

end NetL7.Packet
