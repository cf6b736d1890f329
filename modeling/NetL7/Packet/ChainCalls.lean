import NetL7.Packet.ChainInvariant

/-!
# The calls of a thread

Creating and changing flows, enqueueing and cancelling jobs leave all queues alone;
starting a job and destroying a flow put one job at the end of a queue.
-/

namespace NetL7.Packet

open NetL7.Lib NlmDevice

namespace ChainRun

variable {s s' : ChainRun} {f g i j p : ℕ} {device : NlmDevice}

theorem FreeJob.not_live (h : s.FreeJob j) : ¬s.Live j := by
  rintro (hj | ⟨f, hj⟩)
  · exact h.not_waiting hj
  · exact h.not_running f hj

theorem FreePd.ne (h : s.FreePd p) (hmem : Mem s) (hi : s.Live i) : s.t.device.pdIndex i ≠ p := by
  rintro rfl
  obtain ⟨f, hok⟩ := hmem.jobOk hi
  rcases hi with hi | ⟨g, hi⟩
  · exact h.not_waiting i hi hok.pd
  · exact h.not_running g i hi hok.pd

theorem Mem.ne_of_ne (h : Mem s) (hi : s.Live i) (hj : s.Live j) (hne : i ≠ j) :
    s.t.device.pdIndex i ≠ s.t.device.pdIndex j := fun heq ↦ hne (h.pd_inj i j hi hj heq)

/-! ## Flows -/

theorem Shows.eq_idle {l : Lane ℕ} (h : Shows s f l) (hidle : s.running f = []) : l = .idle := by
  have hok := h.ok
  have hopened := h.running.symm.trans hidle
  cases l with
  | idle => rfl
  | pending rest => exact absurd hopened hok
  | sent c rest => exact absurd hopened hok.1
  | walking returned cur c rest =>
    obtain ⟨hfront, hrest⟩ := List.append_eq_nil_iff.mp hopened
    have hcur := Option.toList_eq_nil_iff.mp (List.append_eq_nil_iff.mp hfront).2
    subst hrest hcur
    rcases hok with ⟨-, hsome, -⟩ | ⟨-, -, -, hlen, -⟩
    · cases hsome
    · cases hlen
  | final returned last rest => exact absurd hopened (by simp [Lane.opened])

theorem Inv.createFlow (h : Inv s) {pdfIndex : ℕ} (htype : (s.t.device.flows f).type = .invalid)
    (hidle : s.running f = []) (hpdf : pdfIndex ≠ 0) (hpdfLt : pdfIndex >>> 24 = 0)
    (m : Allocators) : Inv { s with
      t := { s.t with
        device := s.t.device.setFlow f fun _ ↦ InFlight.createdFlow .stateful pdfIndex
        m := m }
      started := Function.update s.started f []
      scanned := Function.update s.scanned f [] } := by
  have hself : (s.t.device.setFlow f fun _ ↦ InFlight.createdFlow .stateful pdfIndex).flows f =
      InFlight.createdFlow .stateful pdfIndex := Function.update_self ..
  have hother : ∀ g, g ≠ f → (s.t.device.setFlow f fun _ ↦
      InFlight.createdFlow .stateful pdfIndex).flows g = s.t.device.flows g := fun g hg ↦
    Function.update_of_ne hg ..
  have hwaiting : ∀ j ∈ s.waiting, (s.t.device.jobs j).flow ≠ some f := by
    intro j hj hf
    obtain ⟨g, hg, hok⟩ := h.mem.waiting j hj
    rw [← Option.some.inj (hf.symm.trans hok.flow), htype] at hg
    cases hg
  refine ⟨⟨⟨h.ring.size_ok, h.ring.rd_lt, h.ring.wrt_lt⟩, h.ring.sent_lt, h.ring.sent_le⟩, h.fifo,
    ?_, fun g ↦ ?_, h.fds, h.walks, fun rd hrd ↦ (h.results rd hrd).congr rfl rfl, fun g ↦ ?_⟩
  · refine h.mem.shrink rfl (fun _ _ ↦ ⟨rfl, rfl⟩) (List.Sublist.refl _) (fun _ ↦ List.suffix_rfl)
      (fun g ↦ ?_) (fun j hj g hg ↦ ?_) (fun g hne hg ↦ ?_) fun g hg ↦ ?_
    · by_cases hgf : g = f
      · subst hgf
        exact (congrArg NlmFlow.isStateless hself).trans rfl
      · exact (congrArg NlmFlow.isStateless (hother g hgf)).trans (h.mem.kind g)
    · obtain ⟨k, hk, hok⟩ := h.mem.waiting j hj
      have hgf : g ≠ f := fun heq ↦ hwaiting j hj (heq ▸ hg)
      rw [← Option.some.inj (hok.flow.symm.trans hg)] at hgf ⊢
      exact (congrArg NlmFlow.type (hother k hgf)).trans hk
    · have hgf : g ≠ f := fun heq ↦ hne (heq ▸ hidle)
      exact (congrArg NlmFlow.type (hother g hgf)).trans hg
    · by_cases hgf : g = f
      · subst hgf
        refine (congrArg NlmFlow.lastPd hself).trans ?_
        change none = (s.running g).getLast?.map s.t.device.pdIndex
        rw [hidle]
        rfl
      · refine (congrArg NlmFlow.lastPd (hother g hgf)).trans
          (h.mem.last g (hg.imp_left fun ht ↦ ?_))
        exact (congrArg NlmFlow.type (hother g hgf)).symm.trans ht
  · obtain ⟨l, hl⟩ := h.lanes g
    refine ⟨l, ?_⟩
    by_cases hgf : g = f
    · subst hgf
      cases hl.eq_idle hidle
      refine ⟨trivial, hl.running, ?_, hl.results, hl.pending, ?_, hl.fds, hl.walks,
        fun _ ↦ trivial⟩
      · change Function.update s.started g [] g = Function.update s.scanned g [] g ++ []
        rw [Function.update_self, Function.update_self, List.append_nil]
      · exact congrArg NlmFlow.pendingPdHead hself
    · refine hl.frame rfl (Function.update_of_ne hgf ..) (Function.update_of_ne hgf ..) rfl rfl ?_
        rfl rfl rfl (fun _ _ ↦ rfl) fun _ _ ↦ rfl
      exact congrArg NlmFlow.pendingPdHead (hother g hgf)
  · by_cases hgf : g = f
    · subst hgf
      refine ⟨?_, fun _ ↦ ?_, fun _ hne ↦ ?_, fun j hj hf ↦ absurd hf (hwaiting j hj),
        fun _ hne ↦ absurd hidle hne⟩
      · rw [hself]
        exact NlmFlowType.noConfusion
      · rw [hself]
        exact ⟨hpdf, hpdfLt⟩
      · rw [hself] at hne
        exact absurd rfl hne
    · have heq := hother g hgf
      exact (h.flows g).same rfl (fun j hj hf ↦ ⟨hj, hf⟩) (.inl (congrArg NlmFlow.type heq))
        (congrArg NlmFlow.pdfIndex heq) (congrArg NlmFlow.dbGroupId heq)
        (congrArg NlmFlow.dbGroupCombination heq) (congrArg NlmFlow.flowOffset heq)

/-- A step that only changes what the queues do not depend on in one flow. -/
theorem Quiet.setFlow (s : ChainRun) (t : Thread) (f : ℕ) (change : NlmFlow → NlmFlow)
    {waiting : List ℕ} (hdevice : t.device = s.t.device.setFlow f change)
    (hkind : ∀ flow, (change flow).isStateless = flow.isStateless)
    (hhead : ∀ flow, (change flow).pendingPdHead = flow.pendingPdHead)
    (hlast : ∀ flow, (change flow).lastPd = flow.lastPd)
    (hwaiting : waiting.Sublist s.waiting)
    (htype : (∀ flow, (change flow).type = flow.type) ∨ (∀ flow, (change flow).type = .invalid) ∧
      ∀ j ∈ waiting, (s.t.device.jobs j).flow ≠ some f) :
    Quiet s { s with t := t, waiting := waiting } := by
  have hflow : ∀ g, t.device.flows g =
      if g = f then change (s.t.device.flows f) else s.t.device.flows g := by
    intro g
    rw [hdevice]
    exact Function.update_apply ..
  have hkeep : ∀ {β : Type} (field : NlmFlow → β), (∀ flow, field (change flow) = field flow) →
      ∀ g, field (t.device.flows g) = field (s.t.device.flows g) := by
    intro β field hfield g
    rw [hflow]
    split
    · next heq => rw [hfield, heq]
    · rfl
  refine ⟨?_, rfl, rfl, rfl, rfl, rfl, hwaiting, fun j _ ↦ ?_, hkeep _ hkind, hkeep _ hhead,
    hkeep _ hlast, fun g ↦ ?_, fun j hj g hg ↦ ?_⟩
  · change t.device.SameButMemory s.t.device
    rw [hdevice]
    exact .setFlow _ f _
  · change SameJob s.t.device t.device j
    rw [hdevice]
    exact ⟨rfl, rfl⟩
  · rcases htype with htype | ⟨htype, -⟩
    · exact .inl (hkeep _ htype g)
    · rw [hflow]
      split
      · exact .inr (htype _)
      · exact .inl rfl
  · rcases htype with htype | ⟨-, hother⟩
    · exact hkeep _ htype g
    · have hne : g ≠ f := fun heq ↦ hother j hj (heq ▸ hg)
      rw [hflow, if_neg hne]

theorem Inv.changeGroups (h : Inv s) (f : ℕ) (groups : List ℕ)
    (hcombination : (s.t.device.flows f).dbGroupCombination + 1 < 2 ^ 32) : Inv { s with
      t := { s.t with
        device := s.t.device.setFlow f fun flow ↦ { flow with
          dbGroupId := groups
          dbGroupCombination := (flow.dbGroupCombination + 1) % 2 ^ 32 } } } := by
  refine h.quiet (.setFlow s _ f (fun flow ↦ { flow with
    dbGroupId := groups
    dbGroupCombination := (flow.dbGroupCombination + 1) % 2 ^ 32 }) rfl (fun _ ↦ rfl) (fun _ ↦ rfl)
    (fun _ ↦ rfl) (List.Sublist.refl _) (.inl fun _ ↦ rfl)) fun g ↦ ?_
  have hflow := h.flows g
  by_cases hgf : g = f
  · subst hgf
    have hself : (s.t.device.setFlow g fun flow ↦ { flow with
        dbGroupId := groups
        dbGroupCombination := (flow.dbGroupCombination + 1) % 2 ^ 32 }).flows g =
        { s.t.device.flows g with
          dbGroupId := groups
          dbGroupCombination := ((s.t.device.flows g).dbGroupCombination + 1) % 2 ^ 32 } :=
      Function.update_self ..
    have hpos : ((s.t.device.flows g).dbGroupCombination + 1) % 2 ^ 32 ≠ 0 := by omega
    refine ⟨?_, ?_, fun _ _ ↦ ?_, fun _ _ _ ↦ ?_, ?_⟩ <;> rw [hself]
    · exact hflow.type
    · exact hflow.pdf
    · exact hpos
    · exact hpos
    · exact fun hs hne ↦ ⟨(hflow.running hs hne).1, hpos⟩
  · have heq : (s.t.device.setFlow f fun flow ↦ { flow with
        dbGroupId := groups
        dbGroupCombination := (flow.dbGroupCombination + 1) % 2 ^ 32 }).flows g =
        s.t.device.flows g := Function.update_of_ne hgf ..
    exact hflow.same rfl (fun j hj hf ↦ ⟨hj, hf⟩) (.inl (congrArg NlmFlow.type heq))
      (congrArg NlmFlow.pdfIndex heq) (congrArg NlmFlow.dbGroupId heq)
      (congrArg NlmFlow.dbGroupCombination heq) (congrArg NlmFlow.flowOffset heq)

theorem mem_waitingBut : j ∈ s.waitingBut f ↔
    j ∈ s.waiting ∧ (s.t.device.jobs j).flow ≠ some f := by
  simp [waitingBut]

/-- Flows of which one has become invalid. -/
theorem FlowOk.invalidated (h : ∀ g, FlowOk s g) (hrunning : s'.running = s.running)
    (hwaiting : ∀ j ∈ s'.waiting, j ∈ s.waitingBut f)
    (hjobs : ∀ j ∈ s'.waiting, s'.t.device.jobs j = s.t.device.jobs j)
    (hself : (s'.t.device.flows f).type = .invalid)
    (hstateful : (s.t.device.flows f).type = .stateful)
    (hpdf : (s'.t.device.flows f).pdfIndex = (s.t.device.flows f).pdfIndex)
    (hother : ∀ g, g ≠ f → s'.t.device.flows g = s.t.device.flows g) (g : ℕ) : FlowOk s' g := by
  have hmem : ∀ j ∈ s'.waiting, ∀ k, (s'.t.device.jobs j).flow = some k →
      j ∈ s.waiting ∧ (s.t.device.jobs j).flow = some k ∧ k ≠ f := by
    intro j hj k hk
    obtain ⟨hj', hne⟩ := mem_waitingBut.mp (hwaiting j hj)
    rw [hjobs j hj] at hk
    exact ⟨hj', hk, fun heq ↦ hne (heq ▸ hk)⟩
  by_cases hgf : g = f
  · subst hgf
    have hnot : (s'.t.device.flows g).type ≠ .stateful := fun hs ↦
      NlmFlowType.noConfusion (hself.symm.trans hs)
    refine ⟨fun hs ↦ ?_, fun _ ↦ ?_, fun hs ↦ absurd hs hnot,
      fun j hj hf ↦ absurd rfl (hmem j hj g hf).2.2, fun hs ↦ absurd hs hnot⟩
    · exact NlmFlowType.noConfusion (hself.symm.trans hs)
    · rw [hpdf]
      exact (h g).pdf (.inl hstateful)
  · have heq := hother g hgf
    refine (h g).same (congrFun hrunning g) (fun j hj hf ↦ ?_) (.inl (congrArg NlmFlow.type heq))
      (congrArg NlmFlow.pdfIndex heq) (congrArg NlmFlow.dbGroupId heq)
      (congrArg NlmFlow.dbGroupCombination heq) (congrArg NlmFlow.flowOffset heq)
    obtain ⟨hj', hf', -⟩ := hmem j hj g hf
    exact ⟨hj', hf'⟩

theorem waitingBut_sublist : (s.waitingBut f).Sublist s.waiting := List.filter_sublist

theorem Inv.destroyUnused (h : Inv s) (htype : (s.t.device.flows f).type = .stateful) : Inv { s with
    t := { s.t.invalidated f with m := s.t.m.freeFlow f }
    waiting := s.waitingBut f } := by
  refine h.quiet (.setFlow s _ f (fun flow ↦ { flow with type := .invalid }) rfl (fun _ ↦ rfl)
    (fun _ ↦ rfl) (fun _ ↦ rfl) waitingBut_sublist
    (.inr ⟨fun _ ↦ rfl, fun j hj ↦ (mem_waitingBut.mp hj).2⟩)) ?_
  have hself : (s.t.invalidated f).device.flows f = { s.t.device.flows f with type := .invalid } :=
    Function.update_self ..
  refine FlowOk.invalidated h.flows rfl (fun _ hj ↦ hj) (fun _ _ ↦ rfl) ?_ htype ?_
    fun g hg ↦ Function.update_of_ne hg ..
  · exact congrArg NlmFlow.type hself
  · exact (congrArg NlmFlow.pdfIndex hself).trans rfl

/-- The flow when its last packet is about to be enqueued. -/
theorem finishing_flow (t : Thread) (f : ℕ) :
    ((t.invalidated f).nextCombination f).device = t.device.setFlow f fun flow ↦ { flow with
      type := .invalid
      dbGroupCombination := (flow.dbGroupCombination + 1) % 2 ^ 32 } := by
  simp [Thread.invalidated, Thread.nextCombination, setFlow]

theorem finishing_self (t : Thread) (f : ℕ) :
    ((t.invalidated f).nextCombination f).device.flows f = { t.device.flows f with
      type := .invalid
      dbGroupCombination := ((t.device.flows f).dbGroupCombination + 1) % 2 ^ 32 } := by
  rw [finishing_flow]
  exact Function.update_self ..

theorem Inv.destroyFailed (h : Inv s) (htype : (s.t.device.flows f).type = .stateful) : Inv { s with
    t := (s.t.invalidated f).nextCombination f
    waiting := s.waitingBut f } := by
  refine h.quiet (.setFlow s _ f _ (finishing_flow s.t f) (fun _ ↦ rfl) (fun _ ↦ rfl) (fun _ ↦ rfl)
    waitingBut_sublist (.inr ⟨fun _ ↦ rfl, fun j hj ↦ (mem_waitingBut.mp hj).2⟩)) ?_
  have hflows := congrArg NlmDevice.flows (finishing_flow s.t f)
  have hself := finishing_self s.t f
  refine FlowOk.invalidated h.flows rfl (fun _ hj ↦ hj) (fun j _ ↦ ?_) ?_ htype ?_ fun g hg ↦ ?_
  · exact congrFun (congrArg NlmDevice.jobs (finishing_flow s.t f)) j
  · exact congrArg NlmFlow.type hself
  · exact (congrArg NlmFlow.pdfIndex hself).trans rfl
  · exact (congrFun hflows g).trans (Function.update_of_ne hg ..)

/-! ## Jobs -/

/-- A step that changes only jobs and PDs that are not in use any more. -/
theorem Inv.memory (h : Inv s) {t : Thread} {waiting : List ℕ}
    (hdevice : t.device = { s.t.device with jobs := t.device.jobs, pds := t.device.pds })
    (hwaiting : waiting.Sublist s.waiting)
    (hsame : ∀ i, (i ∈ waiting ∨ ∃ f, i ∈ s.running f) → SameJob s.t.device t.device i) :
    Inv { s with t := t, waiting := waiting } := by
  have hflow : ∀ g, t.device.flows g = s.t.device.flows g := by
    intro g
    rw [hdevice]
  refine h.quiet ⟨?_, rfl, rfl, rfl, rfl, rfl, hwaiting, hsame,
    fun g ↦ congrArg NlmFlow.isStateless (hflow g),
    fun g ↦ congrArg NlmFlow.pendingPdHead (hflow g), fun g ↦ congrArg NlmFlow.lastPd (hflow g),
    fun g ↦ .inl (congrArg NlmFlow.type (hflow g)),
    fun _ _ g _ ↦ congrArg NlmFlow.type (hflow g)⟩ fun g ↦ ?_
  · change t.device.SameButMemory s.t.device
    rw [hdevice]
    rfl
  · refine (h.flows g).same rfl (fun i hi hf ↦ ⟨hwaiting.subset hi, ?_⟩)
      (.inl (congrArg NlmFlow.type (hflow g))) (congrArg NlmFlow.pdfIndex (hflow g))
      (congrArg NlmFlow.dbGroupId (hflow g)) (congrArg NlmFlow.dbGroupCombination (hflow g))
      (congrArg NlmFlow.flowOffset (hflow g))
    rw [← (hsame i (.inl hi)).job]
    exact hf

/-- A job that has been filled in waits to be started. -/
theorem Inv.wait (h : Inv s) (hnot : ¬s.Live j)
    (hnew : ∀ i, s.Live i → s.t.device.pdIndex i ≠ s.t.device.pdIndex j)
    (htype : (s.t.device.flows f).type = .stateful)
    (hcombination : (s.t.device.flows f).dbGroupCombination ≠ 0)
    (hok : WaitingJob s.t.device f j) : Inv { s with waiting := j :: s.waiting } := by
  have hmem : Mem { s with waiting := j :: s.waiting } := by
    have hlive : ∀ i, Live { s with waiting := j :: s.waiting } i → i = j ∨ s.Live i := by
      rintro i (hi | hi)
      · exact (List.mem_cons.mp hi).imp_right .inl
      · exact .inr (.inr hi)
    refine ⟨h.mem.thread_lt, h.mem.kind, fun i hi ↦ ?_, h.mem.running,
      List.nodup_cons.mpr ⟨fun hj ↦ hnot (.inl hj), h.mem.waiting_nodup⟩, h.mem.running_nodup,
      fun i hi g hg ↦ ?_, fun i k hi hk heq ↦ ?_, h.mem.linked, h.mem.last⟩
    · rcases List.mem_cons.mp hi with rfl | hi
      · exact ⟨f, htype, hok⟩
      · exact h.mem.waiting i hi
    · rcases List.mem_cons.mp hi with rfl | hi
      · exact hnot (.inr ⟨g, hg⟩)
      · exact h.mem.disjoint i hi g hg
    · rcases hlive i hi with rfl | hi'
      · rcases hlive k hk with rfl | hk'
        · rfl
        · exact absurd heq.symm (hnew k hk')
      · rcases hlive k hk with rfl | hk'
        · exact absurd heq (hnew i hi')
        · exact h.mem.pd_inj i k hi' hk' heq
  refine ⟨h.ring, h.fifo, hmem, fun g ↦ ?_, h.fds, h.walks,
    fun rd hrd ↦ (h.results rd hrd).congr rfl rfl, fun g ↦ ?_⟩
  · obtain ⟨l, hl⟩ := h.lanes g
    exact ⟨l, hl.frame rfl rfl rfl rfl rfl rfl rfl rfl rfl (fun _ _ ↦ rfl) fun _ _ ↦ rfl⟩
  · have hflow := h.flows g
    refine ⟨hflow.type, hflow.pdf, hflow.groups, fun i hi hg ↦ ?_, hflow.running⟩
    rcases List.mem_cons.mp hi with rfl | hi
    · rw [Option.some.inj (hg.symm.trans hok.flow)]
      exact hcombination
    · exact (h.flows g).waiting i hi hg

theorem enqueueStateful_waiting (d : NlmDevice) (hj : 0 < j) (hlt : j < 2 ^ 24) (hp : p ≠ 0)
    (userCookie : ℕ) {packet : Payload} (hbytes : 0 < packet.packetByteCount) :
    (d.enqueueStateful f j p userCookie packet).pdIndex j = p ∧
      WaitingJob (d.enqueueStateful f j p userCookie packet) f j := by
  have hindex : (d.enqueueStateful f j p userCookie packet).pdIndex j = p := by
    simp [enqueueStateful, NlmDevice.pdIndex, setPd, setJob]
  have hjob := Function.update_self j ({ (d.jobs j).ofFlow (d.flows f) f userCookie
    (nlmEncodeCookie d.threadId j) with pd := some p }) d.jobs
  refine ⟨hindex, ⟨⟨hj, hlt, ?_, ?_, ?_, ?_, ?_, ?_⟩, ?_, ?_, ?_, ?_, ?_⟩⟩
  · exact (congrArg NlmJob.flow hjob).trans rfl
  · rw [hindex]
    exact (congrArg NlmJob.pd hjob).trans rfl
  · rw [hindex]
    exact hp
  · exact (congrArg (fun job ↦ job.fd.cookie) hjob).trans rfl
  all_goals
    rw [hindex]
    simp [enqueueStateful, setPd, setJob, hbytes]

theorem enqueueStateful_same (d : NlmDevice) (userCookie : ℕ) (packet : Payload) (hi : i ≠ j)
    (hp : d.pdIndex i ≠ p) : SameJob d (d.enqueueStateful f j p userCookie packet) i :=
  ⟨Function.update_of_ne hi .., Function.update_of_ne hp ..⟩

theorem Inv.enqueue (h : Inv s) (htype : (s.t.device.flows f).type = .stateful)
    (hgroups : (s.t.device.flows f).dbGroupId ≠ []) (hj : s.FreeJob j) (hp : s.FreePd p)
    (userCookie : ℕ) {packet : Payload} (hbytes : 0 < packet.packetByteCount) (m : Allocators)
    (packetBase : List ℕ) : Inv { s with
      t := { s.t with
        device := s.t.device.enqueueStateful f j p userCookie packet
        m := m
        packetBase := packetBase }
      waiting := j :: s.waiting } := by
  obtain ⟨hindex, hok⟩ := enqueueStateful_waiting s.t.device (f := f) hj.pos hj.lt hp.ne_zero
    userCookie hbytes
  have hsame : ∀ i, s.Live i →
      SameJob s.t.device (s.t.device.enqueueStateful f j p userCookie packet) i := fun i hi ↦
    enqueueStateful_same _ userCookie packet (fun heq ↦ hj.not_live (heq ▸ hi)) (hp.ne h.mem hi)
  have hfilled := h.memory (t := { s.t with
    device := s.t.device.enqueueStateful f j p userCookie packet
    m := m
    packetBase := packetBase }) rfl (List.Sublist.refl _) hsame
  refine hfilled.wait (f := f) hj.not_live (fun i hi ↦ ?_) htype
    ((h.flows f).groups htype hgroups) hok
  change (s.t.device.enqueueStateful f j p userCookie packet).pdIndex i ≠
    (s.t.device.enqueueStateful f j p userCookie packet).pdIndex j
  rw [hindex, (hsame i hi).pdIndex]
  exact hp.ne h.mem hi

theorem erase_waiting (h : Mem s) (hj : j ∈ s.waiting)
    (hi : i ∈ s.waiting.erase j ∨ ∃ f, i ∈ s.running f) : s.Live i ∧ i ≠ j := by
  rcases hi with hi | ⟨k, hi⟩
  · obtain ⟨hne, hi⟩ := h.waiting_nodup.mem_erase_iff.mp hi
    exact ⟨.inl hi, hne⟩
  · exact ⟨.inr ⟨k, hi⟩, fun heq ↦ h.disjoint j hj k (heq ▸ hi)⟩

/-- A job that is cancelled gives its PD back. -/
theorem cancel_device {t t' : Thread} (hcall : t.nlmCancelJob j = .ok (.ok, t')) :
    ∃ p, (t.device.jobs j).pd = some p ∧ t'.device = t.device.sysmemFreePd p := by
  unfold Thread.nlmCancelJob at hcall
  split at hcall
  · cases hcall
  · next p hp =>
    refine ⟨p, hp, ?_⟩
    split at hcall
    · cases hcall
    · split at hcall
      · cases hcall
      · split at hcall
        · cases hcall
        · obtain ⟨-, -, hcall⟩ := bind_eq_ok hcall
          cases hcall
          rfl

theorem cancel_same (h : Mem s) {t : Thread} (hj : j ∈ s.waiting)
    (hcall : s.t.nlmCancelJob j = .ok (.ok, t))
    (hi : i ∈ s.waiting.erase j ∨ ∃ f, i ∈ s.running f) : SameJob s.t.device t.device i := by
  obtain ⟨p, hp, hdevice⟩ := cancel_device hcall
  obtain ⟨f, -, hok⟩ := h.waiting j hj
  obtain rfl := Option.some.inj (hok.pd.symm.trans hp)
  obtain ⟨hi, hne⟩ := erase_waiting h hj hi
  rw [hdevice]
  exact ⟨rfl, Function.update_of_ne (h.ne_of_ne hi (.inl hj) hne) ..⟩

theorem Inv.cancel (h : Inv s) {t : Thread} (hj : j ∈ s.waiting)
    (hcall : s.t.nlmCancelJob j = .ok (.ok, t)) :
    Inv { s with t := t, waiting := s.waiting.erase j } := by
  refine h.memory ?_ List.erase_sublist fun i hi ↦ cancel_same h.mem hj hcall hi
  obtain ⟨p, -, hdevice⟩ := cancel_device hcall
  rw [hdevice]
  rfl

theorem Inv.leftover (h : Inv s) {jobs : ℕ → NlmJob} {pds : ℕ → HwPdDescriptor}
    (hjobs : ∀ j, ¬s.FreeJob j → jobs j = s.t.device.jobs j)
    (hpds : ∀ p, ¬s.FreePd p → pds p = s.t.device.pds p) (m : Allocators) :
    Inv { s with t := { s.t with
      device := { s.t.device with jobs := jobs, pds := pds }
      m := m } } := by
  refine h.memory rfl (List.Sublist.refl _) fun i hi ↦
    ⟨hjobs i fun hfree ↦ ?_, hpds _ fun hfree ↦ ?_⟩
  · exact hfree.not_live hi
  · exact hfree.ne h.mem hi rfl

/-- The last PD of a flow is marked before a job is linked to it. -/
theorem Inv.disconnect (h : Inv s) (htype : (s.t.device.flows f).type = .stateful)
    (hlast : (s.t.device.flows f).lastPd = some p) : Inv { s with
      t := { s.t with
        device := s.t.device.setPd p fun pd ↦ { pd with swDisconnect := true } } } := by
  have hpd : ∀ q, ∃ cut, (s.t.device.setPd p fun pd ↦ { pd with swDisconnect := true }).pds q =
      { s.t.device.pds q with swDisconnect := cut } := by
    intro q
    by_cases hq : q = p
    · subst hq
      exact ⟨true, Function.update_self ..⟩
    · exact ⟨_, Function.update_of_ne hq ..⟩
  have hlastJob := hlast.symm.trans (h.mem.last f (.inl htype))
  obtain ⟨k, hk, rfl⟩ := Option.map_eq_some_iff.mp hlastJob.symm
  have hk' : s.Live k := .inr ⟨f, List.mem_of_getLast? hk⟩
  have hother : ∀ i, s.Live i → i ≠ k → SameJob s.t.device
      (s.t.device.setPd (s.t.device.pdIndex k) fun pd ↦ { pd with swDisconnect := true }) i :=
    fun i hi hne ↦ ⟨rfl, Function.update_of_ne (h.mem.ne_of_ne hi hk' hne) ..⟩
  have hmem : Mem { s with
      t := { s.t with
        device := s.t.device.setPd (s.t.device.pdIndex k)
          fun pd ↦ { pd with swDisconnect := true } } } := by
    refine ⟨h.mem.thread_lt, h.mem.kind, fun i hi ↦ ?_, fun g i hi ↦ ?_, h.mem.waiting_nodup,
      h.mem.running_nodup, h.mem.disjoint, h.mem.pd_inj, fun g ↦ ?_, h.mem.last⟩
    · obtain ⟨g, hg, hok⟩ := h.mem.waiting i hi
      have hne : i ≠ k := fun heq ↦ h.mem.disjoint i hi f (heq ▸ List.mem_of_getLast? hk)
      exact ⟨g, hg, hok.same (hother i (.inl hi) hne) rfl⟩
    · have hok := h.mem.running g i hi
      by_cases hne : i = k
      · subst hne
        obtain ⟨cut, heq⟩ := hpd (s.t.device.pdIndex i)
        refine ⟨hok.toJobOk.congr rfl ((congrArg HwPdDescriptor.cookie heq).trans rfl)
          ((congrArg HwPdDescriptor.packetPrd heq).trans rfl) rfl, ?_, fun hterm ↦ ?_⟩
        · exact (congrArg HwPdDescriptor.rsv01 heq).trans hok.mark
        · have hinvalid := (hok.term ((congrArg HwPdDescriptor.flowTerm heq).symm.trans hterm)).1
          rw [h.mem.flow_eq hi (List.mem_of_getLast? hk), htype] at hinvalid
          cases hinvalid
      · exact hok.same (hother i (.inr ⟨g, hi⟩) hne) rfl fun hinvalid ↦ hinvalid
    · refine (h.mem.linked g).congr_link (fun _ _ ↦ rfl) fun i _ ↦ ?_
      obtain ⟨cut, heq⟩ := hpd (s.t.device.pdIndex i)
      exact (congrArg HwPdDescriptor.pdNla heq).trans rfl
  refine ⟨⟨⟨h.ring.size_ok, h.ring.rd_lt, h.ring.wrt_lt⟩, h.ring.sent_lt, h.ring.sent_le⟩, h.fifo,
    hmem, fun g ↦ ?_, h.fds, h.walks, fun rd hrd ↦ (h.results rd hrd).congr rfl rfl, fun g ↦ ?_⟩
  · obtain ⟨l, hl⟩ := h.lanes g
    refine ⟨l, hl.frame rfl rfl rfl rfl rfl rfl rfl rfl rfl (fun _ _ ↦ rfl) fun i _ ↦ ?_⟩
    obtain ⟨cut, heq⟩ := hpd (s.t.device.pdIndex i)
    exact (congrArg HwPdDescriptor.flowTerm heq).trans rfl
  · exact (h.flows g).same rfl (fun i hi hf ↦ ⟨hi, hf⟩) (.inl rfl) rfl rfl rfl rfl

/-! ## Jobs that are put at the end of a queue -/

/-- `d'` is what the job `j` with PD `p` makes of the device when it is linked, and what is
done to its job and PD afterwards. -/
structure Added (s : ChainRun) (d' : NlmDevice) (f j p : ℕ) : Prop where
  fresh : ¬s.Live j
  new : ∀ i, s.Live i → s.t.device.pdIndex i ≠ p
  index : d'.pdIndex j = p
  jobs : ∀ i, i ≠ j → d'.jobs i = s.t.device.jobs i
  pds : ∀ q, q ≠ p → d'.pds q = (s.t.device.nlmFlowAddJobToList f j p).pds q
  rest : d' = { s.t.device.nlmFlowAddJobToList f j p with jobs := d'.jobs, pds := d'.pds }
  ok : RunningJob d' f j
  link : (d'.pds p).pdNla.pdNlaIndex = 0
  term : ∀ i ∈ s.running f, (s.t.device.pds (s.t.device.pdIndex i)).flowTerm = false
  last : (s.t.device.flows f).lastPd = (s.running f).getLast?.map s.t.device.pdIndex

theorem Added.flows {d' : NlmDevice} (h : Added s d' f j p) (g : ℕ) : d'.flows g =
    if g = f then s.t.device.linkedFlow f j p else s.t.device.flows g := by
  rw [h.rest, addJobToList_eq]
  exact Function.update_apply ..

theorem Added.field {d' : NlmDevice} (h : Added s d' f j p) {β : Type} (field : NlmFlow → β)
    (hfield : field (s.t.device.linkedFlow f j p) = field (s.t.device.flows f)) (g : ℕ) :
    field (d'.flows g) = field (s.t.device.flows g) := by
  rw [h.flows]
  split
  · next heq => rw [hfield, heq]
  · rfl

theorem Added.linking {t : Thread} (h : Added s t.device f j p) : Linking s { s with
    t := t
    running := Function.update s.running f (s.running f ++ [j])
    started := Function.update s.started f (s.started f ++ [j]) } f j := by
  have hrest := h.rest
  have hpds := h.pds
  rw [addJobToList_eq] at hrest hpds
  refine ⟨⟨h.fresh, ?_, fun i hi ↦ h.jobs i fun heq ↦ h.fresh (heq ▸ hi), fun i hi ↦ ?_,
    fun i hi ↦ ?_, h.ok, ?_, rfl, rfl, h.term, h.last, h.field _ rfl, h.field _ rfl,
    fun g ↦ ?_⟩, ?_, rfl, rfl, rfl, rfl, fun g ↦ ?_⟩
  · change t.device.threadId = s.t.device.threadId
    rw [hrest]
  · change t.device.pds (s.t.device.pdIndex i) = _
    rw [hpds _ (h.new i hi)]
    change _ = if _ then s.t.device.linkedPd f j (t.device.pdIndex j) _ else _
    rw [h.index]
  · change _ ≠ t.device.pdIndex j
    rw [h.index]
    exact h.new i hi
  · change (t.device.pds (t.device.pdIndex j)).pdNla.pdNlaIndex = 0
    rw [h.index]
    exact h.link
  · change (t.device.flows g).lastPd = if g = f then some (t.device.pdIndex j) else _
    rw [h.flows, h.index]
    split <;> rfl
  · change t.device = _
    conv_lhs => rw [hrest]
    conv_rhs => rw [hrest]
  · change (t.device.flows g).pendingPdHead = if _ then some (t.device.pdIndex j) else _
    rw [h.flows, h.index]
    by_cases hgf : g = f
    · subst hgf
      rw [if_pos rfl]
      by_cases hcond : (s.t.device.flows g).lastPd = none ∧
          (s.t.device.flows g).pendingPdHead = none
      · rw [if_pos ⟨rfl, hcond⟩]
        exact if_pos hcond
      · rw [if_neg fun hc ↦ hcond hc.2]
        exact if_neg hcond
    · rw [if_neg hgf, if_neg fun hc ↦ hgf hc.1]

theorem Added.inv {t : Thread} (h : Added s t.device f j p) (hinv : Inv s)
    (hpdf : (s.t.device.flows f).pdfIndex ≠ 0 ∧ (s.t.device.flows f).pdfIndex >>> 24 = 0)
    (hrunning : (s.t.device.flows f).type = .stateful →
      (s.t.device.flows f).flowOffset ≠ 0 ∧ (s.t.device.flows f).dbGroupCombination ≠ 0) :
    Inv { s with
      t := t
      running := Function.update s.running f (s.running f ++ [j])
      started := Function.update s.started f (s.started f ++ [j]) } := by
  have hwaiting : ∀ i ∈ s.waiting, t.device.jobs i = s.t.device.jobs i := fun i hi ↦
    h.jobs i fun heq ↦ h.fresh (.inl (heq ▸ hi))
  refine hinv.append h.linking fun g ↦ ?_
  have htype : (t.device.flows g).type = (s.t.device.flows g).type := h.field _ rfl g
  have hpdfIndex : (t.device.flows g).pdfIndex = (s.t.device.flows g).pdfIndex := h.field _ rfl g
  have hgroups : (t.device.flows g).dbGroupId = (s.t.device.flows g).dbGroupId := h.field _ rfl g
  have hcombination : (t.device.flows g).dbGroupCombination =
      (s.t.device.flows g).dbGroupCombination := h.field _ rfl g
  have hoffset : (t.device.flows g).flowOffset = (s.t.device.flows g).flowOffset := h.field _ rfl g
  by_cases hgf : g = f
  · subst hgf
    refine ⟨?_, fun _ ↦ ?_, fun hs hne ↦ ?_, fun i hi hf ↦ ?_, fun hs _ ↦ ?_⟩
    · rw [htype]
      exact (hinv.flows g).type
    · rw [hpdfIndex]
      exact hpdf
    · rw [hcombination]
      exact (hinv.flows g).groups (htype.symm.trans hs) (hgroups ▸ hne)
    · rw [hcombination]
      exact (hinv.flows g).waiting i hi (hwaiting i hi ▸ hf)
    · rw [hoffset, hcombination]
      exact hrunning (htype.symm.trans hs)
  · refine (hinv.flows g).same (Function.update_of_ne hgf ..) (fun i hi hf ↦ ⟨hi, ?_⟩) (.inl htype)
      hpdfIndex hgroups hcombination hoffset
    exact hwaiting i hi ▸ hf

/-- The PD of a job is none that is linked to others. -/
theorem addJobToList_pds_new (hnew : ∀ i, s.Live i → s.t.device.pdIndex i ≠ p)
    (hlast : (s.t.device.flows f).lastPd = (s.running f).getLast?.map s.t.device.pdIndex) :
    (s.t.device.nlmFlowAddJobToList f j p).pds p = s.t.device.pds p := by
  rw [addJobToList_eq]
  refine if_neg fun hp ↦ ?_
  rw [hlast] at hp
  obtain ⟨k, hk, heq⟩ := Option.map_eq_some_iff.mp hp
  exact hnew k (.inr ⟨f, List.mem_of_getLast? hk⟩) heq

/-! ## Starting a job -/

/-- The offset of a flow goes up by the bytes of a packet. -/
theorem Inv.setOffset (h : Inv s) {n : ℕ} (hlt : (s.t.device.flows f).flowOffset + n < 2 ^ 64) :
    Inv { s with
      t := { s.t with
        device := s.t.device.setFlow f fun flow ↦
          { flow with flowOffset := (flow.flowOffset + n) % 2 ^ 64 } } } := by
  refine h.quiet (.setFlow s _ f (fun flow ↦
    { flow with flowOffset := (flow.flowOffset + n) % 2 ^ 64 }) rfl (fun _ ↦ rfl) (fun _ ↦ rfl)
    (fun _ ↦ rfl) (List.Sublist.refl _) (.inl fun _ ↦ rfl)) fun g ↦ ?_
  have hflow := h.flows g
  by_cases hgf : g = f
  · subst hgf
    have hself : (s.t.device.setFlow g fun flow ↦
        { flow with flowOffset := (flow.flowOffset + n) % 2 ^ 64 }).flows g =
        { s.t.device.flows g with
          flowOffset := ((s.t.device.flows g).flowOffset + n) % 2 ^ 64 } :=
      Function.update_self ..
    refine ⟨?_, ?_, ?_, ?_, ?_⟩ <;> rw [hself]
    · exact hflow.type
    · exact hflow.pdf
    · exact hflow.groups
    · exact hflow.waiting
    · refine fun hs hne ↦ ⟨?_, (hflow.running hs hne).2⟩
      change ((s.t.device.flows g).flowOffset + n) % 2 ^ 64 ≠ 0
      rw [Nat.mod_eq_of_lt hlt]
      have hpos := (hflow.running hs hne).1
      omega
  · have heq : (s.t.device.setFlow f fun flow ↦
        { flow with flowOffset := (flow.flowOffset + n) % 2 ^ 64 }).flows g =
        s.t.device.flows g := Function.update_of_ne hgf ..
    exact hflow.same rfl (fun j hj hf ↦ ⟨hj, hf⟩) (.inl (congrArg NlmFlow.type heq))
      (congrArg NlmFlow.pdfIndex heq) (congrArg NlmFlow.dbGroupId heq)
      (congrArg NlmFlow.dbGroupCombination heq) (congrArg NlmFlow.flowOffset heq)

/-- The device when the offset of a job is known and the job is about to be linked. -/
def withOffset (d : NlmDevice) (f j p : ℕ) : NlmDevice :=
  (d.setJob j fun job ↦ { job with flowOffset := (d.flows f).flowOffset }).setFlow f fun flow ↦
    { flow with flowOffset := (flow.flowOffset + (d.pds p).packetByteCount) % 2 ^ 64 }

/-- No assertion of the loop over the stateful jobs fails. -/
theorem Inv.startStatefulJob_eq (h : Inv s) (hj : j ∈ s.waiting)
    (hflow : (s.t.device.jobs j).flow = some f) : s.t.device.startStatefulJob j =
      .ok (((withOffset s.t.device f j (s.t.device.pdIndex j)).nlmFlowAddJobToList f j
        (s.t.device.pdIndex j)).setPd (s.t.device.pdIndex j) fun pd ↦
          { pd with rsv01 := .validAndStarted }) := by
  obtain ⟨g, hg, hok⟩ := h.mem.waiting j hj
  obtain rfl := Option.some.inj (hok.flow.symm.trans hflow)
  have hpdf := ((h.flows g).pdf (.inl hg)).1
  have hmark := hok.mark
  unfold startStatefulJob
  rw [hok.flow, hok.pd]
  simp only [bind, Except.bind]
  have hpdf' : ((s.t.device.flows g).pdfIndex != 0) = true := by simpa using hpdf
  rw [hpdf']
  have hmark' : (((s.t.device.setJob j fun job ↦ { job with
      flowOffset := (s.t.device.flows g).flowOffset }).setFlow g fun flow ↦ { flow with
        flowOffset := (flow.flowOffset + (s.t.device.pds
          (s.t.device.pdIndex j)).packetByteCount) % 2 ^ 64 }).pds
            (s.t.device.pdIndex j)).rsv01 = .createdButNotStarted := hmark
  simp only [apiAssert, if_true]
  rw [if_pos]
  · rfl
  · rw [beq_iff_eq]
    exact hmark'

theorem addJobToList_jobs (d : NlmDevice) (f j p : ℕ) :
    (d.nlmFlowAddJobToList f j p).jobs = d.jobs := by
  rw [addJobToList_eq]

theorem addJobToList_type (d : NlmDevice) (f j p : ℕ) :
    ((d.nlmFlowAddJobToList f j p).flows f).type = (d.flows f).type := by
  rw [addJobToList_eq]
  simp [linkedFlow]

theorem addFinish_jobs (d : NlmDevice) (f j p : ℕ) : ∃ offset, (d.addFinish f j p).jobs =
    Function.update d.jobs j { d.jobs j with flowOffset := offset } := by
  unfold addFinish setJob
  simp only [addJobToList_jobs]
  exact ⟨_, rfl⟩

theorem withOffset_pdIndex (d : NlmDevice) (f j p i : ℕ) :
    (withOffset d f j p).pdIndex i = d.pdIndex i := by
  by_cases hi : i = j
  · subst hi
    simp [withOffset, NlmDevice.pdIndex, setFlow, setJob]
  · simp [withOffset, NlmDevice.pdIndex, setFlow, setJob, hi]

/-- The state in which a job is off the list of those that wait and its offset is known. -/
def starting (s : ChainRun) (f j : ℕ) : ChainRun :=
  { s with
    t := { s.t with device := withOffset s.t.device f j (s.t.device.pdIndex j) }
    waiting := s.waiting.erase j }

theorem Inv.starting (h : Inv s) (hj : j ∈ s.waiting)
    (hbytes : (s.t.device.flows f).flowOffset +
      (s.t.device.pds (s.t.device.pdIndex j)).packetByteCount < 2 ^ 64) :
    Inv (s.starting f j) := by
  have htaken := h.memory (t := { s.t with device := s.t.device.setJob j fun job ↦ { job with
      flowOffset := (s.t.device.flows f).flowOffset } }) rfl (List.erase_sublist (a := j))
    fun i hi ↦ ⟨Function.update_of_ne (erase_waiting h.mem hj hi).2 .., rfl⟩
  exact htaken.setOffset (f := f) (n := (s.t.device.pds (s.t.device.pdIndex j)).packetByteCount)
    hbytes

theorem starting_flow (s : ChainRun) (f j : ℕ) : (s.starting f j).t.device.flows f =
    { s.t.device.flows f with
      flowOffset := ((s.t.device.flows f).flowOffset +
        (s.t.device.pds (s.t.device.pdIndex j)).packetByteCount) % 2 ^ 64 } :=
  Function.update_self ..

/-- What `nlm_start_jobs` does with a job that waits. -/
theorem Inv.startAdded (h : Inv s) (hj : j ∈ s.waiting) (hflow : (s.t.device.jobs j).flow = some f)
    (hbytes : (s.t.device.flows f).flowOffset +
      (s.t.device.pds (s.t.device.pdIndex j)).packetByteCount < 2 ^ 64)
    (hcall : s.t.device.startStatefulJob j = .ok device) :
    Added (s.starting f j) device f j (s.t.device.pdIndex j) := by
  obtain ⟨g, hg, hok⟩ := h.mem.waiting j hj
  obtain rfl := Option.some.inj (hok.flow.symm.trans hflow)
  rw [h.startStatefulJob_eq hj hflow] at hcall
  have hoffset := h.starting hj hbytes
  have hindex := withOffset_pdIndex s.t.device g j (s.t.device.pdIndex j)
  have hnew : ∀ i, (s.starting g j).Live i →
      (s.starting g j).t.device.pdIndex i ≠ s.t.device.pdIndex j := by
    intro i hi
    obtain ⟨hi, hne⟩ := erase_waiting h.mem hj hi
    change (withOffset s.t.device g j (s.t.device.pdIndex j)).pdIndex i ≠ _
    rw [hindex]
    exact h.mem.ne_of_ne hi (.inl hj) hne
  have htype := (congrArg NlmFlow.type (starting_flow s g j)).trans hg
  have hlast := hoffset.mem.last g (.inl htype)
  have hpd := addJobToList_pds_new (j := j) hnew hlast
  have hdevice := (Except.ok.inj hcall).symm
  have hself : device.pds (s.t.device.pdIndex j) =
      { s.t.device.pds (s.t.device.pdIndex j) with rsv01 := .validAndStarted } := by
    rw [hdevice]
    refine (Function.update_self ..).trans ?_
    change { ((s.starting g j).t.device.nlmFlowAddJobToList g j (s.t.device.pdIndex j)).pds
      (s.t.device.pdIndex j) with rsv01 := .validAndStarted } = _
    rw [hpd]
    rfl
  have hjob : device.jobs j = { s.t.device.jobs j with
      flowOffset := (s.t.device.flows g).flowOffset } := by
    rw [hdevice]
    refine (congrFun (addJobToList_jobs ..) j).trans ?_
    exact Function.update_self ..
  have hindexSelf : device.pdIndex j = s.t.device.pdIndex j := by
    unfold NlmDevice.pdIndex
    rw [hjob]
  have hthread : device.threadId = s.t.device.threadId := by
    rw [hdevice, addJobToList_eq]
    rfl
  have hrun : RunningJob device g j := by
    refine ⟨⟨hok.pos, hok.lt, ?_, ?_, ?_, ?_, ?_, ?_⟩, ?_, fun hterm ↦ ?_⟩
    · rw [hjob]
      exact hok.flow
    · rw [hindexSelf, hjob]
      exact hok.pd
    · rw [hindexSelf]
      exact hok.ne_zero
    · rw [hjob, hthread]
      exact hok.cookie
    · rw [hindexSelf, hself, hthread]
      exact hok.pd_cookie
    · rw [hindexSelf, hself]
      exact hok.prd
    · rw [hindexSelf, hself]
    · rw [hindexSelf, hself] at hterm
      exact absurd (hok.term.symm.trans hterm) (by decide)
  refine ⟨fun hlive ↦ (erase_waiting h.mem hj hlive).2 rfl, hnew, hindexSelf, fun i _ ↦ ?_,
    fun q hq ↦ ?_, ?_, hrun, ?_, fun i hi ↦ ?_, hlast⟩
  · rw [hdevice]
    exact congrFun (addJobToList_jobs ..) i
  · rw [hdevice]
    exact Function.update_of_ne hq ..
  · rw [hdevice]
    rfl
  · rw [hself]
    exact hok.link
  · change (s.t.device.pds ((withOffset s.t.device g j (s.t.device.pdIndex j)).pdIndex
      i)).flowTerm = false
    rw [hindex]
    cases hterm : (s.t.device.pds (s.t.device.pdIndex i)).flowTerm with
    | false => rfl
    | true => exact NlmFlowType.noConfusion (hg.symm.trans ((h.mem.running g i hi).term hterm).1)

theorem Inv.start (h : Inv s) (hj : j ∈ s.waiting) (hflow : (s.t.device.jobs j).flow = some f)
    (hbytes : (s.t.device.flows f).flowOffset +
      (s.t.device.pds (s.t.device.pdIndex j)).packetByteCount < 2 ^ 64)
    (hcall : s.t.device.startStatefulJob j = .ok device) : Inv { s with
      t := { s.t with device := device }
      waiting := s.waiting.erase j
      running := Function.update s.running f (s.running f ++ [j])
      started := Function.update s.started f (s.started f ++ [j]) } := by
  obtain ⟨g, hg, hok⟩ := h.mem.waiting j hj
  obtain rfl := Option.some.inj (hok.flow.symm.trans hflow)
  have hadded := h.startAdded hj hflow hbytes hcall
  have hoffset := h.starting hj hbytes
  have hself := starting_flow s g j
  have htype := (congrArg NlmFlow.type hself).trans hg
  refine Added.inv (t := { s.t with device := device }) hadded hoffset
    ((hoffset.flows g).pdf (.inl htype)) fun _ ↦ ?_
  rw [hself]
  refine ⟨?_, (h.flows g).waiting j hj hok.flow⟩
  change ((s.t.device.flows g).flowOffset +
    (s.t.device.pds (s.t.device.pdIndex j)).packetByteCount) % 2 ^ 64 ≠ 0
  rw [Nat.mod_eq_of_lt hbytes]
  have hpos := hok.bytes
  omega

/-! ## Destroying a flow -/

/-- The last packet of a flow when its job has been filled in. -/
def finishingPd (d : NlmDevice) (f j p userCookie : ℕ) (packet : Payload) : NlmDevice :=
  (d.enqueueStateful f j p userCookie packet).setPd p fun pd ↦
    { pd with flowTerm := true, rsv01 := .validAndStarted }

theorem finishingPd_pds (d : NlmDevice) (f j p userCookie : ℕ) (packet : Payload) :
    (finishingPd d f j p userCookie packet).pds p =
      { packetBase := packet.packetBase
        rsv01 := .validAndStarted
        swDisconnect := false
        packetPrd := true
        flowTerm := true
        packetByteCount := packet.packetByteCount
        packetAddr := packet.packetAddr
        cookie := nlmEncodeCookie d.threadId j
        pdNla := ⟨0, 0⟩ } := by
  simp [finishingPd, enqueueStateful, setPd, setJob]

theorem finishingPd_job (d : NlmDevice) (f j p userCookie : ℕ) (packet : Payload) :
    (finishingPd d f j p userCookie packet).jobs j =
      { (d.jobs j).ofFlow (d.flows f) f userCookie (nlmEncodeCookie d.threadId j) with
        pd := some p } := Function.update_self ..

theorem finishingPd_same (d : NlmDevice) (userCookie : ℕ) (packet : Payload) (hi : i ≠ j)
    (hp : d.pdIndex i ≠ p) : SameJob d (finishingPd d f j p userCookie packet) i := by
  have hsame := enqueueStateful_same (f := f) d userCookie packet hi hp
  exact ⟨hsame.job, (Function.update_of_ne hp ..).trans hsame.pd⟩

/-- The job of the last packet of a flow when it has been linked. -/
theorem RunningJob.finishing {d d' : NlmDevice} {userCookie : ℕ} {packet : Payload}
    (hj : 0 < j) (hlt : j < 2 ^ 24) (hp : p ≠ 0) (hbytes : packet.packetByteCount = 0)
    (hjob : ∃ offset, d'.jobs j =
      { (finishingPd d f j p userCookie packet).jobs j with flowOffset := offset })
    (hpd : d'.pds p = (finishingPd d f j p userCookie packet).pds p)
    (hthread : d'.threadId = d.threadId) (htype : (d'.flows f).type = .invalid) :
    d'.pdIndex j = p ∧ RunningJob d' f j := by
  obtain ⟨offset, hjob⟩ := hjob
  rw [finishingPd_job] at hjob
  rw [finishingPd_pds] at hpd
  have hindex : d'.pdIndex j = p := by
    unfold NlmDevice.pdIndex
    rw [hjob]
    rfl
  refine ⟨hindex, ⟨⟨hj, hlt, ?_, ?_, ?_, ?_, ?_, ?_⟩, ?_, fun _ ↦ ⟨htype, ?_, ?_, ?_⟩⟩⟩
  · rw [hjob]
    rfl
  · rw [hindex, hjob]
  · rw [hindex]
    exact hp
  · rw [hjob, hthread]
    rfl
  · rw [hindex, hpd, hthread]
  · rw [hindex, hpd]
  · rw [hindex, hpd]
  · rw [hindex, hpd]
    exact hbytes
  · rw [hindex, hpd]
  · rw [hindex, hpd]

/-- The state in which the last packet of a flow is filled in. -/
def filled (s : ChainRun) (f j p userCookie : ℕ) (packet : Payload) (m : Allocators)
    (packetBase : List ℕ) : ChainRun :=
  { s with
    t := { s.t with
      device := finishingPd ((s.t.invalidated f).nextCombination f).device f j p userCookie packet
      m := m
      packetBase := packetBase }
    waiting := s.waitingBut f }

section Filled

variable (h : Inv s) (htype : (s.t.device.flows f).type = .stateful) (hj : s.FreeJob j)
  (hp : s.FreePd p) (userCookie : ℕ) {packet : Payload} (m : Allocators) (packetBase : List ℕ)

theorem filled_live (hi : (s.filled f j p userCookie packet m packetBase).Live i) : s.Live i :=
  hi.imp_left fun hi ↦ waitingBut_sublist.subset hi

include h hj hp

theorem filled_same (hi : s.Live i) : SameJob s.t.device
    (s.filled f j p userCookie packet m packetBase).t.device i := by
  have hindex : ((s.t.invalidated f).nextCombination f).device.pdIndex i =
      s.t.device.pdIndex i := by
    rw [finishing_flow]
    rfl
  have hne : i ≠ j := fun heq ↦ hj.not_live (heq ▸ hi)
  have hpne : ((s.t.invalidated f).nextCombination f).device.pdIndex i ≠ p := by
    rw [hindex]
    exact hp.ne h.mem hi
  have hsame := finishingPd_same (f := f) _ userCookie packet hne hpne
  refine ⟨hsame.job.trans ?_, ?_⟩
  · rw [finishing_flow]
    rfl
  · have hpd := hsame.pd
    rw [hindex] at hpd
    refine hpd.trans ?_
    rw [finishing_flow]
    rfl

include htype

theorem Inv.filled : Inv (s.filled f j p userCookie packet m packetBase) := by
  have hfailed := h.destroyFailed htype
  refine hfailed.memory (t := { s.t with
    device := finishingPd ((s.t.invalidated f).nextCombination f).device f j p userCookie packet
    m := m
    packetBase := packetBase }) rfl (List.Sublist.refl _) fun i hi ↦ ?_
  have hi' := hi.imp_left fun hi ↦ waitingBut_sublist.subset hi
  have hindex : ((s.t.invalidated f).nextCombination f).device.pdIndex i =
      s.t.device.pdIndex i := by
    rw [finishing_flow]
    rfl
  have hpne : ((s.t.invalidated f).nextCombination f).device.pdIndex i ≠ p := by
    rw [hindex]
    exact hp.ne h.mem hi'
  exact finishingPd_same _ userCookie packet (fun heq ↦ hj.not_live (heq ▸ hi')) hpne

/-- What `nlm_destroy_stateful_flow` does with the last packet. -/
theorem Inv.destroyAdded (hbytes : packet.packetByteCount = 0) :
    Added (s.filled f j p userCookie packet m packetBase)
      ((s.finishing f j p userCookie packet).addFinish f j p) f j p := by
  have hlive : ∀ i, (s.filled f j p userCookie packet m packetBase).Live i → s.Live i := fun i ↦
    filled_live userCookie m packetBase
  have hsame : ∀ i, s.Live i → SameJob s.t.device
      (s.filled f j p userCookie packet m packetBase).t.device i := fun i ↦
    filled_same h hj hp userCookie m packetBase
  have hnew : ∀ i, (s.filled f j p userCookie packet m packetBase).Live i →
      (s.filled f j p userCookie packet m packetBase).t.device.pdIndex i ≠ p := by
    intro i hi
    rw [(hsame i (hlive i hi)).pdIndex]
    exact hp.ne h.mem (hlive i hi)
  have hself := finishing_self s.t f
  have hlast : ((s.filled f j p userCookie packet m packetBase).t.device.flows f).lastPd =
      (s.running f).getLast?.map
        (s.filled f j p userCookie packet m packetBase).t.device.pdIndex := by
    have hkeep : ((s.filled f j p userCookie packet m packetBase).t.device.flows f).lastPd =
        (s.t.device.flows f).lastPd := (congrArg NlmFlow.lastPd hself).trans rfl
    rw [hkeep, h.mem.last f (.inl htype)]
    cases hlast : (s.running f).getLast? with
    | none => rfl
    | some k =>
      have hk := hsame k (.inr ⟨f, List.mem_of_getLast? hlast⟩)
      rw [Option.map_some, Option.map_some, hk.pdIndex]
  have hpd := addJobToList_pds_new (j := j) hnew hlast
  have htypeAfter : (((s.finishing f j p userCookie packet).addFinish f j p).flows f).type =
      .invalid := by
    refine Eq.trans ?_ (congrArg NlmFlow.type hself)
    exact addJobToList_type (finishingPd ((s.t.invalidated f).nextCombination f).device f j p
      userCookie packet) f j p
  have hthread : ((s.finishing f j p userCookie packet).addFinish f j p).threadId =
      ((s.t.invalidated f).nextCombination f).device.threadId := by
    change (NlmDevice.nlmFlowAddJobToList (finishingPd ((s.t.invalidated f).nextCombination
      f).device f j p userCookie packet) f j p).threadId = _
    rw [addJobToList_eq]
    rfl
  obtain ⟨offset, hjobs⟩ := addFinish_jobs (s.finishing f j p userCookie packet) f j p
  have hjob := (congrFun hjobs j).trans (Function.update_self ..)
  obtain ⟨hindexAfter, hrun⟩ := RunningJob.finishing hj.pos hj.lt hp.ne_zero hbytes
    ⟨offset, hjob⟩ hpd hthread htypeAfter
  refine ⟨fun hi ↦ hj.not_live (hlive j hi), hnew, hindexAfter, fun i hi ↦ ?_, fun _ _ ↦ rfl,
    rfl, hrun, ?_, fun i hi ↦ ?_, hlast⟩
  · exact (congrFun hjobs i).trans (Function.update_of_ne hi ..)
  · exact (congrArg (fun pd : HwPdDescriptor ↦ pd.pdNla.pdNlaIndex) hpd).trans
      (congrArg (fun pd : HwPdDescriptor ↦ pd.pdNla.pdNlaIndex) (finishingPd_pds ..))
  · rw [(hsame i (.inr ⟨f, hi⟩)).pd']
    cases hterm : (s.t.device.pds (s.t.device.pdIndex i)).flowTerm with
    | false => rfl
    | true =>
      have hinvalid := ((h.mem.running f i hi).term hterm).1
      exact NlmFlowType.noConfusion (htype.symm.trans hinvalid)

theorem Inv.destroy (hbytes : packet.packetByteCount = 0) : Inv { s with
      t := { s.t with
        device := (s.finishing f j p userCookie packet).addFinish f j p
        m := m
        packetBase := packetBase }
      waiting := s.waitingBut f
      running := Function.update s.running f (s.running f ++ [j])
      started := Function.update s.started f (s.started f ++ [j]) } := by
  have hadded := h.destroyAdded htype hj hp userCookie m packetBase hbytes
  have hself := finishing_self s.t f
  refine Added.inv (t := { s.t with
    device := (s.finishing f j p userCookie packet).addFinish f j p
    m := m
    packetBase := packetBase }) hadded (h.filled htype hj hp userCookie m packetBase) ?_
    fun hs ↦ ?_
  · have hpdf := (h.flows f).pdf (.inl htype)
    change (((s.t.invalidated f).nextCombination f).device.flows f).pdfIndex ≠ 0 ∧
      (((s.t.invalidated f).nextCombination f).device.flows f).pdfIndex >>> 24 = 0
    rw [congrArg NlmFlow.pdfIndex hself]
    exact hpdf
  · exact NlmFlowType.noConfusion ((congrArg NlmFlow.type hself).symm.trans hs)

end Filled

end ChainRun

end NetL7.Packet
