import NetL7.Packet.ChainInvariant

/-!
# The ring and the hardware

Handing over a flow turns its queue from one that waits into one that was sent. The hardware
takes it from the ring, follows the links and stops where it finds none. Nothing else at the
ring touches a queue.
-/

namespace NetL7.Packet

open NetL7.Lib NlmDevice

namespace NlmDevice

variable {d d' : NlmDevice} {f j slot : ℕ}

theorem owns_congr (hthread : d'.threadId = d.threadId) (fd : HwFdDescriptor) :
    d'.owns fd = d.owns fd := by
  unfold owns
  rw [hthread]

/-- Only the ring differs. -/
def SameButRingFds (d' d : NlmDevice) : Prop :=
  d' = { d with
    inputRdPtr := d'.inputRdPtr
    inputWrtPtr := d'.inputWrtPtr
    inputWrtPtrDirty := d'.inputWrtPtrDirty
    inputFifo := d'.inputFifo
    fdfFifoWrtPtr := d'.fdfFifoWrtPtr }

theorem sysmemAllocFd_same (h : d.sysmemAllocFd = some (slot, d')) : d'.SameButRingFds d := by
  unfold sysmemAllocFd at h
  split at h
  · cases h
  · cases h
    rfl

theorem sysmemAllocFd_zero (h : d.sysmemAllocFd = some (slot, d')) : d'.inputFifo slot = .zero := by
  unfold sysmemAllocFd at h
  split at h
  · cases h
  · cases h
    exact Function.update_self ..

end NlmDevice

namespace ChainRun

variable {s s' : ChainRun} {f g i j p slot : ℕ} {device : NlmDevice} {fd : HwFdDescriptor}
  {w : Walk} {rd : HwResultDescriptor}

/-! ## The ring -/

theorem fdsOf_snoc {t : Thread} (hring : t.device.ringFds = s.t.device.ringFds ++ [fd])
    (hthread : t.device.threadId = s.t.device.threadId) (f : ℕ) : fdsOf { s with t := t } f =
      s.fdsOf f ++ if s.t.device.owns fd && s.inFlow f fd.cookie then [fd] else [] := by
  have howns : t.device.owns = s.t.device.owns := funext (owns_congr hthread)
  change t.device.ringFds.filter (fun fd ↦ t.device.owns fd && s.inFlow f fd.cookie) = _
  rw [hring, howns, List.filter_append, List.filter_singleton, cond_eq_ite]
  rfl

/-- A step at the ring that concerns no flow of the thread. -/
theorem Inv.sameButRing (h : Inv s) {t : Thread} (hsame : t.device.SameButRingFds s.t.device)
    (hring : RingSound t.device) (hfds : ∀ f, fdsOf { s with t := t } f = s.fdsOf f)
    (howned : ∀ fd ∈ t.device.ringFds, t.device.owns fd = true → s.Owned fd.cookie) :
    Inv { s with t := t } := by
  have hflows : t.device.flows = s.t.device.flows := by
    rw [hsame]
  have hthread : t.device.threadId = s.t.device.threadId := by
    rw [hsame]
  have hjob : ∀ i, SameJob s.t.device t.device i := fun i ↦ by
    rw [hsame]
    exact ⟨rfl, rfl⟩
  refine ⟨hring, ?_, h.mem.same hthread rfl rfl (fun i _ ↦ hjob i) (fun g ↦ ?_) (fun g ↦ ?_)
    fun g ↦ ?_, fun g ↦ ?_, fun fd hfd hours ↦ (howned fd hfd hours).congr rfl,
    fun w hw ↦ (h.walks w hw).congr rfl, fun rd hrd ↦ (h.results rd hrd).congr rfl hthread,
    fun g ↦ ?_⟩
  · rw [hsame]
    exact h.fifo
  · exact congrArg NlmFlow.isStateless (congrFun hflows g)
  · exact congrArg NlmFlow.type (congrFun hflows g)
  · exact congrArg NlmFlow.lastPd (congrFun hflows g)
  · obtain ⟨l, hl⟩ := h.lanes g
    refine ⟨l, hl.frame rfl rfl rfl rfl ?_ (congrArg NlmFlow.pendingPdHead (congrFun hflows g))
      (hfds g) rfl hthread (fun i _ ↦ (hjob i).pdIndex) fun i _ ↦ ?_⟩
    · rw [hsame]
    · rw [(hjob i).pd]
  · have hflow := congrFun hflows g
    refine (h.flows g).same rfl (fun i hi hf ↦ ⟨hi, ?_⟩) (.inl (congrArg NlmFlow.type hflow))
      (congrArg NlmFlow.pdfIndex hflow) (congrArg NlmFlow.dbGroupId hflow)
      (congrArg NlmFlow.dbGroupCombination hflow) (congrArg NlmFlow.flowOffset hflow)
    rw [← (hjob i).job]
    exact hf

theorem Inv.publish (h : Inv s) :
    Inv { s with t := { s.t with device := s.t.device.nlmDeviceUpdateInputWrtPtr } } :=
  h.sameButRing rfl h.ring.publish.1 (fun _ ↦ rfl) h.fds

theorem Inv.otherFd (h : Inv s) (halloc : s.t.device.sysmemAllocFd = some (slot, device))
    (hother : s.t.device.owns fd = false) :
    Inv { s with t := { s.t with device := device.setFd slot fd } } := by
  obtain ⟨hring, hfds⟩ := h.ring.alloc halloc fd
  have hsame : (device.setFd slot fd).SameButRingFds s.t.device := by
    rw [sysmemAllocFd_same halloc]
    rfl
  have hthread : (device.setFd slot fd).threadId = s.t.device.threadId := by
    rw [hsame]
  refine h.sameButRing (t := { s.t with device := device.setFd slot fd }) hsame hring (fun f ↦ ?_)
    fun fd' hfd' hours ↦ ?_
  · rw [fdsOf_snoc (t := { s.t with device := device.setFd slot fd }) hfds hthread, hother]
    exact List.append_nil _
  · rw [owns_congr hthread] at hours
    rw [hfds] at hfd'
    rcases List.mem_append.mp hfd' with hfd' | hfd'
    · exact h.fds fd' hfd' hours
    · rw [List.mem_singleton.mp hfd', hother] at hours
      cases hours

/-! ## Handing a flow over -/

/-- The FD for the first job of a flow that waits. -/
def handedFd (d : NlmDevice) (f j : ℕ) : HwFdDescriptor :=
  fillFd .zero (d.pds (d.pdIndex j)) (d.pdIndex j) (d.flows f).pdfIndex (d.jobs j)

/-- What the hardware finds in the FD of a flow: the first job, or the way to the last one. -/
theorem handedFd_shows {d : NlmDevice} {js : List ℕ} (hthread : d.threadId < 256)
    (hok : RunningJob d f j) (hlinked : (d.pds (d.pdIndex j)).pdNla.pdNlaIndex = d.headPd js)
    (hne : ∀ i ∈ js, d.pdIndex i ≠ 0) :
    ∃ c, (Lane.sent c (j :: js)).Ok ∧
      ((d.pds (d.pdIndex j)).flowTerm = false → c.own = true) ∧
      WalkShows d c j (.ofFd (handedFd d f j)) ∧ d.owns (handedFd d f j) = true := by
  have hcookie : (handedFd d f j).cookie = nlmEncodeCookie d.threadId j := hok.pd_cookie
  have hours : nlmGetThreadId (nlmEncodeCookie d.threadId j) = d.threadId :=
    PoolRun.getThreadId_encodeCookie hthread j
  cases hterm : (d.pds (d.pdIndex j)).flowTerm with
  | false =>
    refine ⟨⟨true, js.head?, (d.pds (d.pdIndex j)).swDisconnect⟩,
      ⟨List.cons_ne_nil j js, .inl ⟨rfl, .inr rfl⟩⟩, fun _ ↦ rfl, ⟨hcookie, ?_, ?_, ?_⟩, ?_⟩
    · have hlink : linkOf d js.head? = d.headPd js := by cases js <;> rfl
      simp [Walk.ofFd, handedFd, fillFd, hterm, hlinked, hlink]
    · simp [Walk.ofFd, handedFd, fillFd, hterm, HwFdDescriptor.copyPd]
    · simp [Walk.ofFd, Walk.scans, handedFd, fillFd, hterm, HwFdDescriptor.copyPd, hok.prd]
    · rw [owns, hcookie, hours]
      simp [handedFd, fillFd, hterm, HwFdDescriptor.copyPd]
  | true =>
    obtain ⟨-, -, hcut, hlink⟩ := hok.term hterm
    have hnil : js = [] := by
      cases js with
      | nil => rfl
      | cons i js => exact absurd (hlinked.symm.trans hlink) (hne i List.mem_cons_self)
    subst hnil
    by_cases hgroups : (d.jobs j).fd.gidCnt = 0
    · refine ⟨⟨true, none, false⟩, ⟨List.cons_ne_nil j _, .inl ⟨rfl, .inl rfl⟩⟩, fun _ ↦ rfl,
        ⟨hcookie, ?_, ?_, ?_⟩, ?_⟩
      · simp [Walk.ofFd, handedFd, fillFd, hterm, hgroups, HwFdDescriptor.zero, linkOf]
      · simp [Walk.ofFd, handedFd, fillFd, hterm, hgroups, HwFdDescriptor.zero]
      · simp [Walk.ofFd, Walk.scans, Walk.last, handedFd, fillFd, hterm, hgroups,
          HwFdDescriptor.zero]
      · rw [owns, hcookie, hours]
        simp [handedFd, fillFd, hterm, hgroups]
    · refine ⟨⟨false, some j, false⟩, ⟨List.cons_ne_nil j _, .inr ⟨rfl, rfl, rfl, rfl⟩⟩, nofun,
        ⟨hcookie, ?_, ?_, ?_⟩, ?_⟩
      · simp [Walk.ofFd, handedFd, fillFd, hterm, hgroups, linkOf]
      · simp [Walk.ofFd, handedFd, fillFd, hterm, hgroups, HwFdDescriptor.copyPd, hcut]
      · simp [Walk.ofFd, Walk.scans, Walk.last, handedFd, fillFd, hterm, hgroups,
          HwFdDescriptor.copyPd, hcut, hok.ne_zero]
      · rw [owns, hcookie, hours]
        simp [handedFd, fillFd, hterm, hgroups, HwFdDescriptor.copyPd]

/-- A flow on the pending list waits with a first job. -/
theorem Inv.pending (h : Inv s) (hf : f ∈ s.t.device.pendingFlowList) :
    ∃ j js, Shows s f (.pending (j :: js)) := by
  obtain ⟨l, hl⟩ := h.lanes f
  have hpos := List.count_pos_iff.mpr hf
  have hok := hl.ok
  rw [hl.pending] at hpos
  cases l with
  | pending rest =>
    cases rest with
    | nil => exact absurd rfl hok
    | cons j js => exact ⟨j, js, hl⟩
  | _ => exact absurd hpos (lt_irrefl 0)

/-- No assertion fails when a pending flow is started, and nothing but a full ring is in the
way. -/
theorem Inv.startPendingPdChain_eq (h : Inv s) {js : List ℕ}
    (hl : Shows s f (.pending (j :: js))) : s.t.device.nlmFlowStartPendingPdChain f =
      match s.t.device.sysmemAllocFd with
      | none => .ok (.inputFifoFull, s.t.device)
      | some (slot, d) => .ok (.ok, (d.nlmDeviceRemoveFlowFromPending f).setFd slot
          (handedFd s.t.device f j)) := by
  have hj : j ∈ s.running f := hl.running ▸ List.mem_cons_self
  have hok := h.mem.running f j hj
  have hhead : (s.t.device.flows f).pendingPdHead = some (s.t.device.pdIndex j) := hl.head
  have hpdf := ((h.flows f).pdf (.inr (List.ne_nil_of_mem hj))).2
  have hjob : s.t.device.jobOfCookie (s.t.device.pds (s.t.device.pdIndex j)).cookie =
      s.t.device.jobs j := by
    rw [hok.pd_cookie, jobOfCookie, hok.index h.mem.thread_lt]
  have hassert : chainAsserts (s.t.device.pds (s.t.device.pdIndex j))
      (s.t.device.flows f).pdfIndex (s.t.device.jobs j) = .ok () := by
    have hempty : ((s.t.device.pds (s.t.device.pdIndex j)).flowTerm == false ||
        (s.t.device.jobs j).fd.gidCnt == 0 ||
          (s.t.device.pds (s.t.device.pdIndex j)).packetByteCount == 0) = true := by
      cases hterm : (s.t.device.pds (s.t.device.pdIndex j)).flowTerm with
      | false => rfl
      | true => simp [(hok.term hterm).2.1]
    have hshift : ((s.t.device.flows f).pdfIndex >>> 24 == 0) = true := beq_iff_eq.mpr hpdf
    simp only [chainAsserts, apiAssert, hempty, hshift, if_true]
    rfl
  unfold nlmFlowStartPendingPdChain
  rw [hhead, h.fifo]
  simp only [hjob, hassert]
  cases halloc : s.t.device.sysmemAllocFd with
  | none => rfl
  | some r =>
    obtain ⟨slot, d⟩ := r
    have hzero := sysmemAllocFd_zero halloc
    change Except.ok (NlmStatus.ok, (d.nlmDeviceRemoveFlowFromPending f).setFd slot (fillFd
      (d.inputFifo slot) _ _ _ _)) = _
    rw [hzero]
    rfl

theorem removeFlow_self (d : NlmDevice) (f : ℕ) :
    (d.nlmDeviceRemoveFlowFromPending f).flows f = { d.flows f with pendingPdHead := none } :=
  Function.update_self ..

theorem removeFlow_of_ne (d : NlmDevice) (hg : g ≠ f) :
    (d.nlmDeviceRemoveFlowFromPending f).flows g = d.flows g := Function.update_of_ne hg ..

theorem removeFlow_field {d : NlmDevice} {β : Type} (field : NlmFlow → β)
    (hfield : ∀ flow : NlmFlow, field { flow with pendingPdHead := none } = field flow) (g : ℕ) :
    field ((d.nlmDeviceRemoveFlowFromPending f).flows g) = field (d.flows g) := by
  by_cases hg : g = f
  · subst hg
    rw [removeFlow_self, hfield]
  · rw [removeFlow_of_ne d hg]

theorem Inv.startChain (h : Inv s) {rest : List ℕ} (hlist : s.t.device.pendingFlowList = f :: rest)
    (hcall : s.t.device.nlmFlowStartPendingPdChain f = .ok (.ok, device)) :
    Inv { s with t := { s.t with device := device } } := by
  obtain ⟨j, js, hl⟩ := h.pending (hlist ▸ List.mem_cons_self)
  have hj : j ∈ s.running f := hl.running ▸ List.mem_cons_self
  have hok := h.mem.running f j hj
  rw [h.startPendingPdChain_eq hl] at hcall
  cases halloc : s.t.device.sysmemAllocFd with
  | none =>
    rw [halloc] at hcall
    cases hcall
  | some r =>
  obtain ⟨slot, d⟩ := r
  rw [halloc] at hcall
  have hdevice : device =
      (d.setFd slot (handedFd s.t.device f j)).nlmDeviceRemoveFlowFromPending f :=
    (Prod.mk.inj (Except.ok.inj hcall)).2.symm
  obtain ⟨hring, hfds⟩ := h.ring.alloc halloc (handedFd s.t.device f j)
  have hlinked := h.mem.linked f
  rw [hl.running] at hlinked
  obtain ⟨c, hcok, hcext, hcshows, hours⟩ := handedFd_shows h.mem.thread_lt hok hlinked.1
    fun i hi ↦ (h.mem.running f i (hl.running ▸ List.mem_cons_of_mem j hi)).ne_zero
  have hsame := sysmemAllocFd_same halloc
  have hflows : (d.setFd slot (handedFd s.t.device f j)).flows = s.t.device.flows := by
    change d.flows = s.t.device.flows
    rw [hsame]
  have hfield : ∀ {β : Type} (field : NlmFlow → β),
      (∀ flow : NlmFlow, field { flow with pendingPdHead := none } = field flow) →
      ∀ g, field (device.flows g) = field (s.t.device.flows g) := by
    intro β field hkeep g
    rw [hdevice, removeFlow_field field hkeep, hflows]
  have hthread : device.threadId = s.t.device.threadId := by
    rw [hdevice]
    change d.threadId = s.t.device.threadId
    rw [hsame]
  have hpending : device.pendingFlowList = rest := by
    rw [hdevice]
    change d.pendingFlowList.tail = rest
    rw [hsame, hlist]
    rfl
  have hjob : ∀ i, SameJob s.t.device device i := fun i ↦ by
    rw [hdevice]
    refine ⟨?_, ?_⟩
    · change d.jobs i = s.t.device.jobs i
      rw [hsame]
    · change d.pds (s.t.device.pdIndex i) = s.t.device.pds (s.t.device.pdIndex i)
      rw [hsame]
  have hringFds : device.ringFds = s.t.device.ringFds ++ [handedFd s.t.device f j] := by
    rw [hdevice]
    exact hfds
  have hin : ∀ g, s.inFlow g (handedFd s.t.device f j).cookie = decide (g = f) := by
    intro g
    have hindex : nlmGetJobIndex (handedFd s.t.device f j).cookie = j := by
      rw [show (handedFd s.t.device f j).cookie = _ from hcshows.cookie, hok.index h.mem.thread_lt]
    unfold inFlow
    rw [hindex]
    refine decide_eq_decide.mpr ⟨fun hg ↦ h.mem.flow_eq hg hj, fun hg ↦ hg ▸ hj⟩
  have hfdsOf : ∀ g, fdsOf { s with t := { s.t with device := device } } g =
      s.fdsOf g ++ if g = f then [handedFd s.t.device f j] else [] := by
    intro g
    rw [fdsOf_snoc (t := { s.t with device := device }) hringFds hthread, hours, hin]
    simp
  refine ⟨?_, ?_, h.mem.same hthread rfl rfl (fun i _ ↦ hjob i) (hfield _ fun _ ↦ rfl)
    (hfield _ fun _ ↦ rfl) (hfield _ fun _ ↦ rfl), fun g ↦ ?_, fun fd hfd hours' ↦ ?_,
    fun w hw ↦ (h.walks w hw).congr rfl, fun rd hrd ↦ (h.results rd hrd).congr rfl hthread,
    fun g ↦ ?_⟩
  · change RingSound device
    rw [hdevice]
    exact ⟨⟨hring.size_ok, hring.rd_lt, hring.wrt_lt⟩, hring.sent_lt, hring.sent_le⟩
  · change device.swJobFifo = none
    rw [hdevice]
    change d.swJobFifo = none
    rw [hsame]
    exact h.fifo
  · by_cases hgf : g = f
    · subst hgf
      have hcount := hl.pending
      rw [hlist, List.count_cons_self] at hcount
      refine ⟨.sent c (j :: js), hcok, hl.running, hl.started, hl.results, ?_, ?_, ?_, hl.walks,
        fun hterm ↦ hcext ?_⟩
      · change device.pendingFlowList.count g = 0
        rw [hpending]
        exact Nat.succ.inj hcount
      · change (device.flows g).pendingPdHead = none
        rw [hdevice, removeFlow_self]
      · rw [hfdsOf, if_pos rfl, show s.fdsOf g = [] from hl.fds]
        refine ⟨_, j, rfl, rfl, hcshows.congr hthread fun i _ ↦ (hjob i).pdIndex⟩
      · have hkeep := hterm j hj
        change (device.pds (device.pdIndex j)).flowTerm = false at hkeep
        rw [(hjob j).pd'] at hkeep
        exact hkeep
    · obtain ⟨l, hl'⟩ := h.lanes g
      refine ⟨l, hl'.frame rfl rfl rfl rfl ?_ ?_ ?_ rfl hthread (fun i _ ↦ (hjob i).pdIndex)
        fun i _ ↦ congrArg HwPdDescriptor.flowTerm (hjob i).pd⟩
      · change device.pendingFlowList.count g = _
        rw [hpending, hlist, List.count_cons_of_ne (Ne.symm hgf)]
      · change (device.flows g).pendingPdHead = _
        rw [hdevice, removeFlow_of_ne _ hgf, hflows]
      · rw [hfdsOf, if_neg hgf, List.append_nil]
  · change fd ∈ device.ringFds at hfd
    change device.owns fd = true at hours'
    rw [owns_congr hthread] at hours'
    rw [hringFds] at hfd
    rcases List.mem_append.mp hfd with hfd | hfd
    · exact (h.fds fd hfd hours').congr rfl
    · refine ⟨f, ?_⟩
      rw [List.mem_singleton.mp hfd]
      exact (hin f).trans (decide_eq_true rfl)
  · refine (h.flows g).same rfl (fun i hi hf ↦ ⟨hi, ?_⟩) (.inl (hfield _ (fun _ ↦ rfl) g))
      (hfield _ (fun _ ↦ rfl) g) (hfield _ (fun _ ↦ rfl) g) (hfield _ (fun _ ↦ rfl) g)
      (hfield _ (fun _ ↦ rfl) g)
    rw [← (hjob i).job]
    exact hf

/-! ## The hardware -/

theorem inFlow_unique (h : Mem s) {cookie : ℕ} (hf : s.inFlow f cookie = true)
    (hg : s.inFlow g cookie = true) : g = f :=
  h.flow_eq (inFlow_iff.mp hg) (inFlow_iff.mp hf)

theorem inFlow_of_ne (h : Mem s) {cookie : ℕ} (hf : s.inFlow f cookie = true) (hg : g ≠ f) :
    s.inFlow g cookie = false := by
  rw [← Bool.not_eq_true]
  exact fun hg' ↦ hg (inFlow_unique h hf hg')

theorem inFlow_encode (h : Mem s) (hj : j ∈ s.running f) :
    s.inFlow f (nlmEncodeCookie s.t.device.threadId j) = true := by
  rw [inFlow_iff, (h.running f j hj).index h.thread_lt]
  exact hj

theorem flowOf_encode (h : Mem s) (hj : j ∈ s.running f) :
    s.flowOf (nlmEncodeCookie s.t.device.threadId j) = f := by
  unfold flowOf jobOfCookie
  rw [(h.running f j hj).index h.thread_lt, (h.running f j hj).flow]
  rfl

/-- What is recorded of a descriptor of a job. -/
theorem scan_encode (h : Mem s) (hj : j ∈ s.running f)
    (hcookie : w.cookie = nlmEncodeCookie s.t.device.threadId j) (g : ℕ) :
    s.scan w g = s.scanned g ++ if g = f ∧ w.scans = true then [j] else [] := by
  unfold scan
  rw [hcookie, flowOf_encode h hj, (h.running f j hj).index h.thread_lt]
  by_cases hscans : w.scans = true
  · rw [if_pos hscans]
    by_cases hg : g = f
    · subst hg
      rw [Function.update_self, if_pos ⟨rfl, hscans⟩]
    · rw [Function.update_of_ne hg, if_neg fun hc ↦ hg hc.1, List.append_nil]
  · rw [if_neg hscans, if_neg fun hc ↦ hscans hc.2, List.append_nil]

/-- The FD that the hardware takes is the only one of its flow. -/
theorem Inv.sent (h : Inv s) (hfd : fd ∈ s.t.device.ringFds) (hours : s.t.device.owns fd = true) :
    ∃ f c j js, Shows s f (.sent c (j :: js)) ∧ s.fdsOf f = [fd] ∧
      WalkShows s.t.device c j (.ofFd fd) ∧ j ∈ s.running f := by
  obtain ⟨f, hf⟩ := h.fds fd hfd hours
  obtain ⟨l, hl⟩ := h.lanes f
  have hmem : fd ∈ s.fdsOf f := List.mem_filter.mpr ⟨hfd, by rw [hours, hf]; rfl⟩
  have hfds := hl.fds
  cases l with
  | sent c rest =>
    obtain ⟨fd', j, heq, hhead, hshows⟩ := hfds
    cases rest with
    | nil => cases hhead
    | cons i js =>
      cases hhead
      rw [heq, List.mem_singleton] at hmem
      subst hmem
      exact ⟨f, c, _, js, hl, heq, hshows, hl.running ▸ List.mem_cons_self⟩
  | _ => exact absurd (hfds ▸ hmem) List.not_mem_nil

theorem Inv.take (h : Inv s) (hsent : s.t.device.inputRdPtr ≠ s.t.device.fdfFifoWrtPtr) :
    Inv s.taken := by
  obtain ⟨hring, hfds⟩ := h.ring.take hsent
  have hrest : ∀ fd ∈ s.t.device.takeFd.ringFds, fd ∈ s.t.device.ringFds := fun fd hfd ↦
    hfds ▸ List.mem_cons_of_mem _ hfd
  have hfdsOf : ∀ g, s.fdsOf g = (if s.t.device.owns (s.t.device.inputFifo s.t.device.inputRdPtr) &&
      s.inFlow g (s.t.device.inputFifo s.t.device.inputRdPtr).cookie then
        [s.t.device.inputFifo s.t.device.inputRdPtr] else []) ++
      fdsOf { s with t := { s.t with device := s.t.device.takeFd } } g := by
    intro g
    unfold fdsOf
    rw [hfds, List.filter_cons]
    split <;> rfl
  cases hours : s.t.device.owns (s.t.device.inputFifo s.t.device.inputRdPtr) with
  | false =>
    have heq : s.taken = { s with t := { s.t with device := s.t.device.takeFd } } := by
      unfold taken
      simp only [hours]
      rfl
    rw [heq]
    refine h.sameButRing (t := { s.t with device := s.t.device.takeFd }) rfl hring (fun f ↦ ?_)
      fun fd hfd hours' ↦ h.fds fd (hrest fd hfd) hours'
    rw [hfdsOf f, hours]
    rfl
  | true =>
    obtain ⟨f, c, j, js, hl, hself, hshows, hj⟩ := h.sent (hfds ▸ List.mem_cons_self) hours
    have hcookie : (s.t.device.inputFifo s.t.device.inputRdPtr).cookie =
        nlmEncodeCookie s.t.device.threadId j := hshows.cookie
    have hin := inFlow_encode h.mem hj
    rw [← hcookie] at hin
    have heq : s.taken = { s with
        t := { s.t with device := s.t.device.takeFd }
        walks := .ofFd (s.t.device.inputFifo s.t.device.inputRdPtr) :: s.walks
        scanned := s.scan (.ofFd (s.t.device.inputFifo s.t.device.inputRdPtr)) } := by
      unfold taken
      simp only [hours]
      rfl
    rw [heq]
    have hscan := scan_encode h.mem hj (w := .ofFd (s.t.device.inputFifo s.t.device.inputRdPtr))
      hcookie
    refine ⟨hring, h.fifo, h.mem.same rfl rfl rfl (fun _ _ ↦ ⟨rfl, rfl⟩) (fun _ ↦ rfl)
      (fun _ ↦ rfl) (fun _ ↦ rfl), fun g ↦ ?_, fun fd hfd hours' ↦ ?_, fun w hw ↦ ?_,
      fun rd hrd ↦ (h.results rd hrd).congr rfl rfl, fun g ↦ ?_⟩
    · by_cases hgf : g = f
      · rw [hgf]
        have hfdsAfter : fdsOf { s with t := { s.t with device := s.t.device.takeFd } } f = [] := by
          have hall := hfdsOf f
          rw [hself, hours, hin] at hall
          exact (List.cons.inj hall).2.symm
        have hwalksAfter : (Walk.ofFd (s.t.device.inputFifo s.t.device.inputRdPtr) ::
            s.walks).filter (fun w ↦ s.inFlow f w.cookie) =
              [.ofFd (s.t.device.inputFifo s.t.device.inputRdPtr)] := by
          refine (List.filter_cons_of_pos (p := fun w : Walk ↦ s.inFlow f w.cookie) hin).trans ?_
          exact congrArg _ hl.walks
        have hshowsAfter : WalkShows s.t.device.takeFd c j
            (.ofFd (s.t.device.inputFifo s.t.device.inputRdPtr)) := hshows.congr rfl fun _ _ ↦ rfl
        obtain ⟨-, hcopy⟩ := hl.ok
        have hscanSelf := hscan f
        rw [hshows.own] at hscanSelf
        cases hown : c.own with
        | true =>
          rw [hown, if_pos ⟨rfl, rfl⟩] at hscanSelf
          refine ⟨.walking [] (some j) c js, .inl ⟨hown, rfl, ?_⟩, hl.running, ?_, hl.results,
            hl.pending, hl.head, hfdsAfter, ⟨_, j, hwalksAfter, rfl, hshowsAfter⟩, fun _ ↦ hown⟩
          · rcases hcopy with ⟨-, hcopy⟩ | ⟨hfalse, -⟩
            · exact hcopy
            · exact absurd (hown.symm.trans hfalse) (by decide)
          · change s.started f = s.scan _ f ++ js
            rw [hscanSelf, hl.started, List.append_assoc]
            rfl
        | false =>
          rw [hown, if_neg (by simp), List.append_nil] at hscanSelf
          refine ⟨.walking [] none c (j :: js), .inr ?_, hl.running, ?_, hl.results, hl.pending,
            hl.head, hfdsAfter, ⟨_, j, hwalksAfter, rfl, hshowsAfter⟩, hl.extensible⟩
          · rcases hcopy with ⟨htrue, -⟩ | ⟨-, hcut, hlen, hlink⟩
            · exact absurd (hown.symm.trans htrue) (by decide)
            · exact ⟨hown, rfl, hcut, hlen, hlink⟩
          · change s.started f = s.scan _ f ++ (j :: js)
            rw [hscanSelf, hl.started]
            rfl
      · obtain ⟨l, hl'⟩ := h.lanes g
        have hnot := inFlow_of_ne h.mem hin hgf
        refine ⟨l, hl'.frame rfl rfl ?_ rfl rfl rfl ?_ ?_ rfl (fun _ _ ↦ rfl) fun _ _ ↦ rfl⟩
        · refine (hscan g).trans ?_
          rw [if_neg fun hc ↦ hgf hc.1, List.append_nil]
        · rw [hfdsOf g, hnot, Bool.and_false]
          rfl
        · exact List.filter_cons_of_neg (by rw [Bool.not_eq_true]; exact hnot)
    · exact (h.fds fd (hrest fd hfd) hours').congr rfl
    · rcases List.mem_cons.mp hw with rfl | hw
      · exact ⟨f, hin⟩
      · exact (h.walks w hw).congr rfl
    · exact (h.flows g).same rfl (fun i hi hf ↦ ⟨hi, hf⟩) (.inl rfl) rfl rfl rfl rfl

/-- A descriptor that the hardware walks is the only one of its flow. -/
theorem Inv.walking (h : Inv s) (hw : w ∈ s.walks) : ∃ f returned cur c rest j,
    Shows s f (.walking returned cur c rest) ∧ s.walksOf f = [w] ∧
      cur.or rest.head? = some j ∧ WalkShows s.t.device c j w ∧ j ∈ s.running f := by
  obtain ⟨f, hf⟩ := h.walks w hw
  obtain ⟨l, hl⟩ := h.lanes f
  have hmem : w ∈ s.walksOf f := List.mem_filter.mpr ⟨hw, hf⟩
  have hwalks := hl.walks
  cases l with
  | walking returned cur c rest =>
    obtain ⟨w', j, heq, hj, hshows⟩ := hwalks
    rw [heq, List.mem_singleton] at hmem
    subst hmem
    refine ⟨f, returned, cur, c, rest, j, hl, heq, hj, hshows, ?_⟩
    rw [hl.running]
    cases cur with
    | some i =>
      cases hj
      exact List.mem_append_left _ (List.mem_append_right _ List.mem_cons_self)
    | none => exact List.mem_append_right _ (List.mem_of_head? hj)
  | _ => exact absurd (hwalks ▸ hmem) List.not_mem_nil

theorem walksOf_erase (hwalks : s.walksOf f = [w]) :
    (s.walks.erase w).filter (fun w ↦ s.inFlow f w.cookie) = [] := by
  rw [← List.erase_filter]
  change (s.walksOf f).erase w = []
  rw [hwalks, List.erase_cons_head]

theorem walksOf_erase_of_ne (hnot : s.inFlow g w.cookie = false) :
    (s.walks.erase w).filter (fun w ↦ s.inFlow g w.cookie) = s.walksOf g := by
  rw [← List.erase_filter]
  refine List.erase_of_not_mem fun hmem ↦ ?_
  exact Bool.false_ne_true (hnot.symm.trans (List.mem_filter.mp hmem).2)

theorem resultsOf_append (s : ChainRun) (results : List HwResultDescriptor) (f : ℕ) :
    resultsOf { s with results := s.results ++ results } f = s.resultsOf f ++
      ((results.filter fun rd ↦ s.inFlow f rd.cookie).map fun rd ↦
        (nlmGetJobIndex rd.cookie, rd.resultType == fmsFrdResult)) := by
  unfold resultsOf
  rw [List.filter_append, List.map_append]
  rfl

/-- A step of the hardware. -/
theorem Inv.hardware (h : Inv s) {walks : List Walk} {results : List HwResultDescriptor}
    {scanned : ℕ → List ℕ}
    (hwalks : ∀ w ∈ walks, s.Owned w.cookie) (hresults : ∀ rd ∈ results, s.ResultOk rd)
    (hself : ∃ l, Shows { s with
      walks := walks
      results := s.results ++ results
      scanned := scanned } f l)
    (hscanned : ∀ g, g ≠ f → scanned g = s.scanned g)
    (hwalksOf : ∀ g, g ≠ f → walks.filter (fun w ↦ s.inFlow g w.cookie) = s.walksOf g)
    (hother : ∀ g, g ≠ f → ∀ rd ∈ results, s.inFlow g rd.cookie = false) :
    Inv { s with walks := walks, results := s.results ++ results, scanned := scanned } := by
  refine ⟨h.ring, h.fifo, h.mem.same rfl rfl rfl (fun _ _ ↦ ⟨rfl, rfl⟩) (fun _ ↦ rfl)
    (fun _ ↦ rfl) (fun _ ↦ rfl), fun g ↦ ?_, h.fds, hwalks, fun rd hrd ↦ ?_, fun g ↦ ?_⟩
  · by_cases hgf : g = f
    · exact hgf ▸ hself
    · obtain ⟨l, hl⟩ := h.lanes g
      refine ⟨l, hl.frame rfl rfl (hscanned g hgf) ?_ rfl rfl rfl (hwalksOf g hgf) rfl
        (fun _ _ ↦ rfl) fun _ _ ↦ rfl⟩
      refine (resultsOf_append s results g).trans ?_
      have hnil : results.filter (fun rd ↦ s.inFlow g rd.cookie) = [] :=
        List.filter_eq_nil_iff.mpr fun rd hrd ↦ by simp [hother g hgf rd hrd]
      rw [hnil, List.map_nil, List.append_nil]
  · rcases List.mem_append.mp hrd with hrd | hrd
    · exact (h.results rd hrd).congr rfl rfl
    · exact (hresults rd hrd).congr rfl rfl
  · exact (h.flows g).same rfl (fun i hi hf ↦ ⟨hi, hf⟩) (.inl rfl) rfl rfl rfl rfl

/-- The result for the packet of a job. -/
theorem ResultFor.ok {isFrd : Bool} (hrd : ResultFor w isFrd rd) (hj : j ∈ s.running f)
    (hcookie : w.cookie = nlmEncodeCookie s.t.device.threadId j) : s.ResultOk rd := by
  refine ⟨hrd.valid, ?_, f, j, hj, hrd.cookie.trans hcookie⟩
  cases isFrd with
  | false => exact .inr hrd.type
  | true => exact .inl hrd.type

/-- What a result tells of its flow. -/
theorem ResultFor.shown {isFrd : Bool} (h : Mem s) (hrd : ResultFor w isFrd rd)
    (hj : j ∈ s.running f) (hcookie : w.cookie = nlmEncodeCookie s.t.device.threadId j) :
    ([rd].filter fun rd ↦ s.inFlow f rd.cookie).map (fun rd ↦
      (nlmGetJobIndex rd.cookie, rd.resultType == fmsFrdResult)) = [(j, isFrd)] := by
  have heq := hrd.cookie.trans hcookie
  have hin := inFlow_encode h hj
  rw [← heq] at hin
  rw [List.filter_cons_of_pos (p := fun rd : HwResultDescriptor ↦ s.inFlow f rd.cookie) hin,
    List.filter_nil, List.map_cons, List.map_nil, heq, (h.running f j hj).index h.thread_lt, hrd.type]
  cases isFrd <;> rfl

theorem Inv.stop (h : Inv s) (hw : w ∈ s.walks) (hlast : w.last = true)
    (hrd : ResultFor w true rd) :
    Inv { s with walks := s.walks.erase w, results := s.results ++ [rd] } := by
  obtain ⟨f, returned, cur, c, rest, j, hl, hwalks, hcur, hshows, hj⟩ := h.walking hw
  have hin := inFlow_encode h.mem hj
  rw [← hshows.cookie] at hin
  have hown : c.own = true := by
    rw [← hshows.own, Walk.scans, hlast, Bool.or_true]
  refine h.hardware (fun w' hw' ↦ h.walks w' (List.mem_of_mem_erase hw'))
    (fun rd' hrd' ↦ List.mem_singleton.mp hrd' ▸ hrd.ok hj hshows.cookie) ?_ (fun _ _ ↦ rfl)
    (fun g hg ↦ walksOf_erase_of_ne (inFlow_of_ne h.mem hin hg)) fun g hg rd' hrd' ↦ ?_
  · rcases hl.ok with ⟨-, hsome, -⟩ | ⟨hfalse, -⟩
    · cases cur with
      | none => cases hsome
      | some i =>
        cases hcur
        refine ⟨.final returned j rest, trivial, ?_, hl.started, ?_, hl.pending, hl.head, hl.fds,
          walksOf_erase hwalks, fun _ ↦ trivial⟩
        · refine hl.running.trans ?_
          simp [Lane.opened]
        · refine (resultsOf_append s [rd] f).trans ?_
          rw [hl.results, hrd.shown h.mem hj hshows.cookie]
          rfl
    · exact absurd (hown.symm.trans hfalse) (by decide)
  · rw [List.mem_singleton.mp hrd', hrd.cookie]
    exact inFlow_of_ne h.mem hin hg

/-- The link that the hardware follows leads to the first job that is left. -/
theorem Inv.next (h : Inv s) {returned rest : List ℕ} {cur : Option ℕ} {c : Copy ℕ}
    (hl : Shows s f (.walking returned cur c rest)) (hshows : WalkShows s.t.device c j w)
    (hlast : w.last = false) : ∃ a js, rest = a :: js ∧ w.pdNlaIndex = s.t.device.pdIndex a ∧
      a ∈ s.running f ∧
      (s.t.device.pds (s.t.device.pdIndex a)).pdNla.pdNlaIndex = s.t.device.headPd js := by
  have hne : w.pdNlaIndex ≠ 0 := by
    intro hzero
    simp [Walk.last, hzero] at hlast
  have hcopy : c.link = none ∨ c.link = rest.head? := by
    rcases hl.ok with ⟨-, -, hcopy⟩ | ⟨-, -, -, -, hlink⟩
    · exact hcopy
    · exact .inr hlink
  have hlink := hshows.link
  rcases hcopy with hnone | hhead
  · rw [hnone] at hlink
    exact absurd hlink hne
  · cases rest with
    | nil =>
      rw [hhead] at hlink
      exact absurd hlink hne
    | cons a js =>
      rw [hhead] at hlink
      refine ⟨a, js, rfl, hlink, ?_, ?_⟩
      · rw [hl.running]
        exact List.mem_append_right _ List.mem_cons_self
      · have hlinked := h.mem.linked f
        rw [hl.running] at hlinked
        exact (hlinked.of_suffix ⟨_, rfl⟩ : s.t.device.Linked (a :: js)).1

theorem Inv.follow (h : Inv s) {results : List HwResultDescriptor} (hw : w ∈ s.walks)
    (hlast : w.last = false) (hcount : results.length = if w.packetPrd then 1 else 0)
    (hresults : ∀ rd ∈ results, ResultFor w false rd) : Inv (s.followed w results) := by
  obtain ⟨f, returned, cur, c, rest, j, hl, hwalks, hcur, hshows, hj⟩ := h.walking hw
  obtain ⟨a, js, rfl, hindex, ha, hnext⟩ := h.next hl hshows hlast
  have hok := h.mem.running f a ha
  have hin := inFlow_encode h.mem hj
  rw [← hshows.cookie] at hin
  have hina := inFlow_encode h.mem ha
  have hcookie : (Walk.ofPd w.fd (s.t.device.pds w.pdNlaIndex)).cookie =
      nlmEncodeCookie s.t.device.threadId a := by
    rw [hindex]
    exact hok.pd_cookie
  rw [← hcookie] at hina
  have hscans : (Walk.ofPd w.fd (s.t.device.pds w.pdNlaIndex)).scans = true := by
    rw [hindex]
    simp [Walk.scans, Walk.ofPd, hok.prd]
  have hscan := scan_encode h.mem ha hcookie
  have hprd : w.packetPrd = c.own := by
    rw [← hshows.own, Walk.scans, hlast, Bool.or_false]
  -- the packet yields a result if the descriptor stands for it
  have hshown : (results.filter fun rd ↦ s.inFlow f rd.cookie).map (fun rd ↦
      (nlmGetJobIndex rd.cookie, rd.resultType == fmsFrdResult)) = cur.toList.map (·, false) := by
    rw [hprd] at hcount
    rcases hl.ok with ⟨hown, hsome, -⟩ | ⟨hown, hnone, -⟩
    · rw [hown] at hcount
      obtain ⟨rd, rfl⟩ := List.length_eq_one_iff.mp hcount
      cases cur with
      | none => cases hsome
      | some i =>
        cases hcur
        exact (hresults rd List.mem_cons_self).shown h.mem hj hshows.cookie
    · rw [hown] at hcount
      obtain rfl := List.length_eq_zero_iff.mp hcount
      rw [hnone]
      rfl
  refine h.hardware (f := f) (fun w' hw' ↦ ?_) (fun rd hrd ↦ (hresults rd hrd).ok hj hshows.cookie)
    ⟨.walking (returned ++ cur.toList) (some a)
      ⟨true, js.head?, (s.t.device.pds (s.t.device.pdIndex a)).swDisconnect⟩ js,
      .inl ⟨rfl, rfl, .inr rfl⟩, ?_, ?_, ?_, hl.pending, hl.head, hl.fds,
      ⟨.ofPd w.fd (s.t.device.pds w.pdNlaIndex), a, ?_, rfl, hcookie, ?_, ?_, hscans⟩,
      fun _ ↦ rfl⟩ (fun g hg ↦ ?_) (fun g hg ↦ ?_) fun g hg rd hrd ↦ ?_
  · rcases List.mem_cons.mp hw' with rfl | hw'
    · exact ⟨f, hina⟩
    · exact h.walks w' (List.mem_of_mem_erase hw')
  · refine hl.running.trans ?_
    simp [Lane.opened]
  · change s.started f = s.scan _ f ++ js
    rw [hscan, if_pos ⟨rfl, hscans⟩, hl.started, List.append_assoc]
    rfl
  · refine (resultsOf_append s results f).trans ?_
    rw [hl.results, hshown]
    simp [Lane.results]
  · refine (List.filter_cons_of_pos (p := fun w : Walk ↦ s.inFlow f w.cookie) hina).trans ?_
    exact congrArg _ (walksOf_erase hwalks)
  · rw [hindex]
    refine hnext.trans ?_
    cases js <;> rfl
  · rw [hindex]
    rfl
  · refine (hscan g).trans ?_
    rw [if_neg fun hc ↦ hg hc.1, List.append_nil]
  · have hnot := inFlow_of_ne h.mem hina hg
    refine (List.filter_cons_of_neg (p := fun w : Walk ↦ s.inFlow g w.cookie) ?_).trans
      (walksOf_erase_of_ne (inFlow_of_ne h.mem hin hg))
    rw [Bool.not_eq_true]
    exact hnot
  · rw [(hresults rd hrd).cookie]
    exact inFlow_of_ne h.mem hin hg

end ChainRun

end NetL7.Packet
