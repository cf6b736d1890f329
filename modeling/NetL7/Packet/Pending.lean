import NetL7.Packet.Device

/-!
# Starting the pending flows

`nlm_try_start_stateful_flows` starts the pending flows one by one. In the ring
of the hardware it stops when there is no room. Through a software FIFO it does
not look at the slot that `peek_job_fifo_input` returns, so that it needs a free
slot for each pending flow.
-/

namespace NetL7.Packet

open NetL7.Lib

/-- The number of elements in the FIFO when iteration `k` begins, if it holds `c`
elements before iteration `i = 0` and every iteration adds one. -/
def fillLevel (taken : ℕ → ℕ) : ℕ → ℕ → ℕ → ℕ
  | i, c, 0 => c - taken i
  | i, c, k + 1 => fillLevel taken (i + 1) (c - taken i + 1) k

namespace NlmDevice

variable {taken : ℕ → ℕ} {s s' : NlmDevice} {fifo : SwFifo HwFdDescriptor} {f i : ℕ}

/-- A pending flow has a PD to start, and the assertions about it hold. -/
def Ready (s : NlmDevice) (f : ℕ) : Prop :=
  ∃ p, (s.flows f).pendingPdHead = some p ∧
    chainAsserts (s.pds p) (s.flows f).pdfIndex (s.jobOfCookie (s.pds p).cookie) = .ok ()

/-- One flow started through a software FIFO: it needs a free slot, and leaves
the other flows alone. -/
theorem startPendingPdChain_fifo (hfifo : s.swJobFifo = some fifo) (h : fifo.Ok)
    (hready : s.Ready f) :
    (fifo.count = fifo.size ∧ s.nlmFlowStartPendingPdChain f = .error .nullFd) ∨
      (fifo.count < fifo.size ∧ ∃ s' fifo', s.nlmFlowStartPendingPdChain f = .ok (.ok, s') ∧
        s'.swJobFifo = some fifo' ∧ fifo'.Ok ∧ fifo'.size = fifo.size ∧
        fifo'.count = fifo.count + 1 ∧ s'.pendingFlowList = s.pendingFlowList.tail ∧
        ∀ g, g ≠ f → s.Ready g → s'.Ready g) := by
  obtain ⟨p, hp, hasserts⟩ := hready
  unfold nlmFlowStartPendingPdChain
  simp only [hp, hfifo]
  rcases hpeek : fifo.peekInput with _ | slot
  · exact .inl ⟨h.peekInput_eq_none.mp hpeek, rfl⟩
  · right
    obtain ⟨hcount, -⟩ := h.peekInput_eq_some.mp hpeek
    simp only [hasserts, bind, Except.bind]
    generalize fillFd (fifo.buf slot) (s.pds p) p (s.flows f).pdfIndex
      (s.jobOfCookie (s.pds p).cookie) = fd
    have hwrite := h.write slot fd
    have hspace : (fifo.write slot fd).count < (fifo.write slot fd).size := by
      rw [SwFifo.count_write]
      exact hcount
    have hpush := hwrite.count_push hspace
    rw [SwFifo.count_write] at hpush
    refine ⟨hcount, _, _, rfl, rfl, hwrite.push hspace, rfl, hpush, rfl,
      fun g hg hready ↦ ?_⟩
    have hflow : (s.nlmDeviceRemoveFlowFromPending f).flows g = s.flows g :=
      Function.update_of_ne hg _ _
    obtain ⟨q, hq, hasserts'⟩ := hready
    refine ⟨q, ?_, ?_⟩
    · change ((s.nlmDeviceRemoveFlowFromPending f).flows g).pendingPdHead = some q
      rw [hflow, hq]
    · change chainAsserts (s.pds q) ((s.nlmDeviceRemoveFlowFromPending f).flows g).pdfIndex
        (s.jobOfCookie (s.pds q).cookie) = .ok ()
      rw [hflow, hasserts']

variable (taken) in
/-- The loop goes through exactly if the FIFO is not full when an iteration
begins, and then it has started every pending flow. -/
theorem tryStartLoop_fifo {flows : List ℕ} (hflows : s.pendingFlowList = flows)
    (hfifo : s.swJobFifo = some fifo) (h : fifo.Ok) (hnodup : flows.Nodup)
    (hready : ∀ f ∈ flows, s.Ready f) :
    ((∀ k < flows.length, fillLevel taken i fifo.count k < fifo.size) ∧
      ∃ s', tryStartLoop taken flows.length i s = .ok s' ∧ s'.pendingFlowList = []) ∨
    ((∃ k < flows.length, fillLevel taken i fifo.count k = fifo.size) ∧
      tryStartLoop taken flows.length i s = .error .nullFd) := by
  induction flows generalizing s fifo i with
  | nil => exact .inl ⟨by simp, s, rfl, hflows⟩
  | cons f flows ih =>
    obtain ⟨hf, hnodup⟩ := List.nodup_cons.mp hnodup
    have htake := h.popMany (taken i)
    have hcount := h.count_popMany (taken i)
    have hs : (s.takeFds (taken i)).swJobFifo = some (fifo.popMany (taken i)) := by
      simp only [takeFds, hfifo]
    have hlist : (s.takeFds (taken i)).pendingFlowList = f :: flows := by
      simp only [takeFds, hfifo, hflows]
    have hready' : ∀ g, s.Ready g → (s.takeFds (taken i)).Ready g := by
      intro g hg
      simpa only [takeFds, hfifo, Ready, jobOfCookie] using hg
    rw [List.length_cons, tryStartLoop]
    simp only [hlist]
    rcases startPendingPdChain_fifo hs htake (hready' f (hready f (by simp))) with
      ⟨hfull, herr⟩ | ⟨hspace, s', fifo', hok, hfifo', hok', hsize', hcount', hlist', hother⟩
    · rw [hcount] at hfull
      refine .inr ⟨⟨0, by simp, hfull⟩, ?_⟩
      simp only [herr, bind, Except.bind]
    · rw [hcount] at hspace hcount'
      rw [hlist, List.tail_cons] at hlist'
      simp only [hok, bind, Except.bind, ne_eq, not_true_eq_false, if_false]
      have hsize : fifo'.size = fifo.size := hsize'
      have hnext := ih (i := i + 1) hlist' hfifo' hok' hnodup fun g hg ↦
        hother g (fun heq ↦ hf (heq ▸ hg)) (hready' g (hready g (by simp [hg])))
      rw [hcount', hsize] at hnext
      rcases hnext with ⟨hlt, s'', heq, hnil⟩ | ⟨⟨k, hk, hfull⟩, herr⟩
      · refine .inl ⟨fun k hk ↦ ?_, s'', heq, hnil⟩
        rcases k with _ | k
        · exact hspace
        · exact hlt k (by omega)
      · exact .inr ⟨⟨k + 1, by omega, hfull⟩, herr⟩

/-- Through a software FIFO the pending flows are started without a NULL slot
exactly if the FIFO has a free slot whenever one of them has its turn. Then all
of them are started. -/
theorem tryStart_ok_iff_free_slots (taken : ℕ → ℕ) (hfifo : s.swJobFifo = some fifo)
    (h : fifo.Ok) (hnodup : s.pendingFlowList.Nodup)
    (hready : ∀ f ∈ s.pendingFlowList, s.Ready f) :
    ((∃ s', s.nlmTryStartStatefulFlows taken = .ok s' ∧ s'.pendingFlowList = []) ↔
      ∀ k < s.pendingFlowList.length, fillLevel taken 0 fifo.count k < fifo.size) ∧
    (s.nlmTryStartStatefulFlows taken = .error .nullFd ↔
      ∃ k < s.pendingFlowList.length, fillLevel taken 0 fifo.count k = fifo.size) := by
  have hloop := tryStartLoop_fifo taken (i := 0) rfl hfifo h hnodup hready
  unfold nlmTryStartStatefulFlows
  rcases hloop with ⟨hlt, s', heq, hnil⟩ | ⟨⟨k, hk, hfull⟩, herr⟩
  · simp only [heq, bind, Except.bind]
    refine ⟨⟨fun _ ↦ hlt, fun _ ↦ ⟨_, rfl, ?_⟩⟩, ⟨fun h ↦ by simp at h, ?_⟩⟩
    · split
      · exact hnil
      · exact hnil
    · rintro ⟨k, hk, hfull⟩
      have hk' := hlt k hk
      omega
  · simp only [herr, bind, Except.bind]
    refine ⟨⟨?_, fun hlt ↦ ?_⟩, ⟨fun _ ↦ ⟨k, hk, hfull⟩, fun _ ↦ trivial⟩⟩
    · rintro ⟨s', h, -⟩
      simp at h
    · have hk' := hlt k hk
      omega

/-! ## Two flows and one slot -/

/-- A pending flow `f` whose only PD is `f`, of the job with cookie `f`. -/
def addPendingFlow (s : NlmDevice) (f : ℕ) : NlmDevice :=
  let s := s.setFlow f fun flow ↦
    { flow with
      type := .stateful
      dbGroupId := [1]
      pdfIndex := f
      pendingPdHead := some f
      lastPd := some f }
  let s := s.setPd f fun pd ↦
    { pd with cookie := f, packetByteCount := 100, rsv01 := .validAndStarted }
  let s := s.setJob f fun job ↦
    { job with
      flow := some f
      pd := some f
      fd := { job.fd with cookie := f, gidCnt := 1, gid0 := 1 } }
  s.nlmDeviceAddFlowToPending f

/-- Two flows wait for a software FIFO of one slot. -/
def twoFlowsOneSlot : NlmDevice :=
  ((attached 0 1 true).addPendingFlow 1).addPendingFlow 2

/-- Three flows wait for a software FIFO of two slots. -/
def threeFlowsTwoSlots : NlmDevice :=
  (((attached 0 2 true).addPendingFlow 1).addPendingFlow 2).addPendingFlow 3

/-- The manager thread moves one FD before the third flow has its turn. -/
theorem tryStart_ok_iff_free_slots_sample : ∃ s', threeFlowsTwoSlots.nlmTryStartStatefulFlows
    (fun i ↦ if i = 2 then 1 else 0) = .ok s' ∧ s'.pendingFlowList = [] := by
  have hready : ∀ f ∈ threeFlowsTwoSlots.pendingFlowList, threeFlowsTwoSlots.Ready f := by
    intro f hf
    have hmem : f ∈ [1, 2, 3] := hf
    have hf : f = 1 ∨ f = 2 ∨ f = 3 := by simpa using hmem
    rcases hf with rfl | rfl | rfl
    · exact ⟨1, rfl, rfl⟩
    · exact ⟨2, rfl, rfl⟩
    · exact ⟨3, rfl, rfl⟩
  refine (tryStart_ok_iff_free_slots (s := threeFlowsTwoSlots) _ rfl
    ⟨by decide, by decide, by decide, by decide⟩ (by decide) hready).1.mpr ?_
  decide

/-- If the manager thread does not come in between, the second flow finds the
FIFO full and is started through a NULL slot. -/
theorem twoFlowsOneSlot_nullFd :
    twoFlowsOneSlot.nlmTryStartStatefulFlows (fun _ ↦ 0) = .error .nullFd := by
  rfl

end NlmDevice

end NetL7.Packet
