import NetL7.Packet.ChainLanes

/-!
# The invariant of a thread with its chains

In every state each flow shows a queue, and every FD of the thread in the ring, every
descriptor that the hardware walks and every result belongs to a job of some flow that is
started and not completed. Two kinds of steps cover most of what a thread does: those that
leave all queues alone, and those that put a job at the end of one.
-/

namespace NetL7.Packet

open NetL7.Lib NlmDevice

namespace NlmDevice

variable {d d' : NlmDevice} {f j : ℕ}

/-- Only flows, jobs and PDs differ. -/
def SameButMemory (d' d : NlmDevice) : Prop :=
  d' = { d with flows := d'.flows, jobs := d'.jobs, pds := d'.pds }

theorem SameButMemory.trans {d'' : NlmDevice} (h' : d''.SameButMemory d')
    (h : d'.SameButMemory d) : d''.SameButMemory d := by
  unfold SameButMemory at h' h ⊢
  rw [h', h]

theorem SameButMemory.setPd (d : NlmDevice) (p : ℕ) (g : HwPdDescriptor → HwPdDescriptor) :
    (d.setPd p g).SameButMemory d := rfl

theorem SameButMemory.setFlow (d : NlmDevice) (f : ℕ) (g : NlmFlow → NlmFlow) :
    (d.setFlow f g).SameButMemory d := rfl

theorem SameButMemory.ringFds (h : d'.SameButMemory d) : d'.ringFds = d.ringFds := by
  rw [h]
  rfl

theorem SameButMemory.threadId (h : d'.SameButMemory d) : d'.threadId = d.threadId := by
  rw [h]

theorem SameButMemory.ring (h : d'.SameButMemory d) (hring : RingSound d) : RingSound d' := by
  rw [h]
  exact ⟨⟨hring.size_ok, hring.rd_lt, hring.wrt_lt⟩, hring.sent_lt, hring.sent_le⟩

theorem JobOk.index (h : JobOk d f j) (hthread : d.threadId < 256) :
    nlmGetJobIndex (nlmEncodeCookie d.threadId j) = j := by
  rw [PoolRun.getJobIndex_encodeCookie hthread]
  exact Nat.mod_eq_of_lt h.lt

end NlmDevice

namespace ChainRun

/-- A cookie that names a job which is started and not completed. -/
def Owned (s : ChainRun) (cookie : ℕ) : Prop := ∃ f, s.inFlow f cookie = true

/-- A result of the thread that it has not taken. -/
structure ResultOk (s : ChainRun) (rd : HwResultDescriptor) : Prop where
  valid : rd.valid = true
  type : rd.resultType = fmsFrdResult ∨ rd.resultType = fmsPrdResult
  cookie : ∃ f, ∃ j ∈ s.running f, rd.cookie = nlmEncodeCookie s.t.device.threadId j

/-- The type of a flow, and the numbers that decide whether it can be started and destroyed. -/
structure FlowOk (s : ChainRun) (f : ℕ) : Prop where
  type : (s.t.device.flows f).type ≠ .stateless
  pdf : (s.t.device.flows f).type = .stateful ∨ s.running f ≠ [] →
    (s.t.device.flows f).pdfIndex ≠ 0 ∧ (s.t.device.flows f).pdfIndex >>> 24 = 0
  groups : (s.t.device.flows f).type = .stateful → (s.t.device.flows f).dbGroupId ≠ [] →
    (s.t.device.flows f).dbGroupCombination ≠ 0
  waiting : ∀ j ∈ s.waiting, (s.t.device.jobs j).flow = some f →
    (s.t.device.flows f).dbGroupCombination ≠ 0
  running : (s.t.device.flows f).type = .stateful → s.running f ≠ [] →
    (s.t.device.flows f).flowOffset ≠ 0 ∧ (s.t.device.flows f).dbGroupCombination ≠ 0

structure Inv (s : ChainRun) : Prop where
  ring : RingSound s.t.device
  fifo : s.t.device.swJobFifo = none
  mem : Mem s
  lanes : ∀ f, ∃ l, Shows s f l
  fds : ∀ fd ∈ s.t.device.ringFds, s.t.device.owns fd = true → s.Owned fd.cookie
  walks : ∀ w ∈ s.walks, s.Owned w.cookie
  results : ∀ rd ∈ s.results, s.ResultOk rd
  flows : ∀ f, FlowOk s f

variable {s s' : ChainRun} {f g i j p cookie : ℕ} {l : Lane ℕ} {rd : HwResultDescriptor}

theorem inFlow_iff : s.inFlow f cookie = true ↔ nlmGetJobIndex cookie ∈ s.running f :=
  decide_eq_true_iff

theorem inFlow_congr (hrunning : s'.running f = s.running f) : s'.inFlow f = s.inFlow f := by
  funext cookie
  unfold inFlow
  rw [hrunning]

theorem fdsOf_congr (hring : s'.t.device.ringFds = s.t.device.ringFds)
    (hthread : s'.t.device.threadId = s.t.device.threadId)
    (h : ∀ fd ∈ s.t.device.ringFds, s.t.device.owns fd = true →
      s'.inFlow f fd.cookie = s.inFlow f fd.cookie) : s'.fdsOf f = s.fdsOf f := by
  unfold fdsOf
  rw [hring]
  refine List.filter_congr fun fd hfd ↦ ?_
  have howns : s'.t.device.owns fd = s.t.device.owns fd := by
    unfold owns
    rw [hthread]
  rw [howns]
  cases hours : s.t.device.owns fd with
  | false => rfl
  | true => rw [h fd hfd hours]

theorem walksOf_congr (hwalks : s'.walks = s.walks)
    (h : ∀ w ∈ s.walks, s'.inFlow f w.cookie = s.inFlow f w.cookie) :
    s'.walksOf f = s.walksOf f := by
  unfold walksOf
  rw [hwalks]
  exact List.filter_congr h

theorem resultsOf_congr (hresults : s'.results = s.results)
    (h : ∀ rd ∈ s.results, s'.inFlow f rd.cookie = s.inFlow f rd.cookie) :
    s'.resultsOf f = s.resultsOf f := by
  unfold resultsOf
  rw [hresults, List.filter_congr h]

/-! ## Steps that leave the queues alone -/

/-- What no queue notices. -/
structure Quiet (s s' : ChainRun) : Prop where
  device : s'.t.device.SameButMemory s.t.device
  walks : s'.walks = s.walks
  results : s'.results = s.results
  running : s'.running = s.running
  started : s'.started = s.started
  scanned : s'.scanned = s.scanned
  waiting : s'.waiting.Sublist s.waiting
  same : ∀ j, s'.Live j → SameJob s.t.device s'.t.device j
  kind : ∀ f, (s'.t.device.flows f).isStateless = (s.t.device.flows f).isStateless
  head : ∀ f, (s'.t.device.flows f).pendingPdHead = (s.t.device.flows f).pendingPdHead
  lastPd : ∀ f, (s'.t.device.flows f).lastPd = (s.t.device.flows f).lastPd
  type : ∀ f, (s'.t.device.flows f).type = (s.t.device.flows f).type ∨
    (s'.t.device.flows f).type = .invalid
  waiting_type : ∀ j ∈ s'.waiting, ∀ f, (s.t.device.jobs j).flow = some f →
    (s'.t.device.flows f).type = (s.t.device.flows f).type

theorem Quiet.mem (h : Quiet s s') (hmem : Mem s) : Mem s' := by
  refine hmem.shrink h.device.threadId h.same h.waiting (fun f ↦ h.running ▸ List.suffix_rfl)
    (fun f ↦ (h.kind f).trans (hmem.kind f)) (fun j hj f hf ↦ ?_) (fun f _ hinvalid ↦ ?_)
    fun f hf ↦ ?_
  · obtain ⟨g, hg, hok⟩ := hmem.waiting j (h.waiting.subset hj)
    rw [h.waiting_type j hj f hf, ← Option.some.inj (hok.flow.symm.trans hf), hg]
  · rcases h.type f with heq | heq
    · rw [heq, hinvalid]
    · exact heq
  · rw [h.lastPd, h.running]
    refine hmem.last f (hf.imp (fun htype ↦ ?_) fun hne ↦ h.running ▸ hne)
    rcases h.type f with heq | heq
    · exact heq.symm.trans htype
    · rw [heq] at htype
      cases htype

theorem Quiet.shows (h : Quiet s s') (hshows : Shows s f l) : Shows s' f l := by
  have hin : s'.inFlow f = s.inFlow f := inFlow_congr (congrFun h.running f)
  have hlive : ∀ i ∈ s.running f, s'.Live i := fun i hi ↦ .inr ⟨f, h.running ▸ hi⟩
  refine hshows.frame (congrFun h.running f) (congrFun h.started f) (congrFun h.scanned f)
    (resultsOf_congr h.results fun _ _ ↦ congrFun hin _) ?_ (h.head f)
    (fdsOf_congr h.device.ringFds h.device.threadId fun _ _ _ ↦ congrFun hin _)
    (walksOf_congr h.walks fun _ _ ↦ congrFun hin _) h.device.threadId
    (fun i hi ↦ (h.same i (hlive i hi)).pdIndex) fun i hi ↦ ?_
  · rw [h.device]
  · rw [(h.same i (hlive i hi)).pd]

theorem Owned.congr (h : s.Owned cookie) (hrunning : s'.running = s.running) :
    s'.Owned cookie := by
  obtain ⟨f, hf⟩ := h
  exact ⟨f, inFlow_congr (congrFun hrunning f) ▸ hf⟩

theorem ResultOk.congr (h : s.ResultOk rd) (hrunning : s'.running = s.running)
    (hthread : s'.t.device.threadId = s.t.device.threadId) : s'.ResultOk rd := by
  obtain ⟨hvalid, htype, g, i, hi, hcookie⟩ := h
  exact ⟨hvalid, htype, g, i, hrunning ▸ hi, hthread ▸ hcookie⟩

theorem Inv.quiet (h : Inv s) (hq : Quiet s s') (hflows : ∀ f, FlowOk s' f) : Inv s' := by
  refine ⟨hq.device.ring h.ring, ?_, hq.mem h.mem, fun f ↦ ?_, fun fd hfd howns ↦ ?_,
    fun w hw ↦ ?_, fun rd hrd ↦ ?_, hflows⟩
  · rw [hq.device]
    exact h.fifo
  · obtain ⟨l, hl⟩ := h.lanes f
    exact ⟨l, hq.shows hl⟩
  · rw [hq.device.ringFds] at hfd
    have howns' : s.t.device.owns fd = true := by
      unfold owns at howns ⊢
      rw [← hq.device.threadId]
      exact howns
    exact (h.fds fd hfd howns').congr hq.running
  · rw [hq.walks] at hw
    exact (h.walks w hw).congr hq.running
  · rw [hq.results] at hrd
    exact (h.results rd hrd).congr hq.running hq.device.threadId

/-- A flow whose numbers are the same and whose jobs may have left. -/
theorem FlowOk.shrink (h : FlowOk s f) (hrunning : s'.running f ≠ [] → s.running f ≠ [])
    (hwaiting : ∀ j ∈ s'.waiting, (s'.t.device.jobs j).flow = some f →
      j ∈ s.waiting ∧ (s.t.device.jobs j).flow = some f)
    (htype : (s'.t.device.flows f).type = (s.t.device.flows f).type ∨
      (s'.t.device.flows f).type = .invalid)
    (hpdf : (s'.t.device.flows f).pdfIndex = (s.t.device.flows f).pdfIndex)
    (hgroups : (s'.t.device.flows f).dbGroupId = (s.t.device.flows f).dbGroupId)
    (hcombination : (s'.t.device.flows f).dbGroupCombination =
      (s.t.device.flows f).dbGroupCombination)
    (hoffset : (s'.t.device.flows f).flowOffset = (s.t.device.flows f).flowOffset) :
    FlowOk s' f := by
  have hstateful : (s'.t.device.flows f).type = .stateful →
      (s.t.device.flows f).type = .stateful := by
    intro hs
    rcases htype with heq | heq
    · exact heq.symm.trans hs
    · exact NlmFlowType.noConfusion (heq.symm.trans hs)
  refine ⟨fun hs ↦ ?_, fun hf ↦ ?_, fun hs hne ↦ ?_, fun j hj hf ↦ ?_, fun hs hne ↦ ?_⟩
  · rcases htype with heq | heq
    · exact h.type (heq.symm.trans hs)
    · exact NlmFlowType.noConfusion (heq.symm.trans hs)
  · rw [hpdf]
    exact h.pdf (hf.imp hstateful hrunning)
  · rw [hcombination]
    exact h.groups (hstateful hs) (hgroups ▸ hne)
  · rw [hcombination]
    obtain ⟨hj', hf'⟩ := hwaiting j hj hf
    exact h.waiting j hj' hf'
  · rw [hoffset, hcombination]
    exact h.running (hstateful hs) (hrunning hne)

theorem FlowOk.same (h : FlowOk s f) (hrunning : s'.running f = s.running f)
    (hwaiting : ∀ j ∈ s'.waiting, (s'.t.device.jobs j).flow = some f →
      j ∈ s.waiting ∧ (s.t.device.jobs j).flow = some f)
    (htype : (s'.t.device.flows f).type = (s.t.device.flows f).type ∨
      (s'.t.device.flows f).type = .invalid)
    (hpdf : (s'.t.device.flows f).pdfIndex = (s.t.device.flows f).pdfIndex)
    (hgroups : (s'.t.device.flows f).dbGroupId = (s.t.device.flows f).dbGroupId)
    (hcombination : (s'.t.device.flows f).dbGroupCombination =
      (s.t.device.flows f).dbGroupCombination)
    (hoffset : (s'.t.device.flows f).flowOffset = (s.t.device.flows f).flowOffset) :
    FlowOk s' f :=
  h.shrink (fun hne ↦ hrunning ▸ hne) hwaiting htype hpdf hgroups hcombination hoffset

/-- Which flows are allocated concerns no queue. -/
theorem Inv.setUsed (h : Inv s) (used : List ℕ) : Inv { s with used := used } :=
  h.quiet ⟨rfl, rfl, rfl, rfl, rfl, rfl, List.Sublist.refl _, fun _ _ ↦ ⟨rfl, rfl⟩, fun _ ↦ rfl,
    fun _ ↦ rfl, fun _ ↦ rfl, fun _ ↦ .inl rfl, fun _ _ _ _ ↦ rfl⟩
    fun g ↦ (h.flows g).same rfl (fun _ hi hf ↦ ⟨hi, hf⟩) (.inl rfl) rfl rfl rfl rfl

/-! ## A job at the end of a queue -/

/-- A job is linked to the last one of its flow, or the flow waits to be started. -/
structure Linking (s s' : ChainRun) (f j : ℕ) : Prop extends Appended s s' f j where
  device : s'.t.device = { s.t.device with
    flows := s'.t.device.flows
    jobs := s'.t.device.jobs
    pds := s'.t.device.pds
    pendingFlowList :=
      if (s.t.device.flows f).lastPd = none ∧ (s.t.device.flows f).pendingPdHead = none then
        s.t.device.pendingFlowList ++ [f]
      else s.t.device.pendingFlowList }
  walks : s'.walks = s.walks
  results : s'.results = s.results
  started : s'.started = Function.update s.started f (s.started f ++ [j])
  scanned : s'.scanned = s.scanned
  head : ∀ g, (s'.t.device.flows g).pendingPdHead =
    if g = f ∧ (s.t.device.flows f).lastPd = none ∧ (s.t.device.flows f).pendingPdHead = none then
      some (s'.t.device.pdIndex j)
    else (s.t.device.flows g).pendingPdHead

theorem ResultOk.inFlow (h : s.ResultOk rd) (hmem : Mem s) : s.Owned rd.cookie := by
  obtain ⟨-, -, g, i, hi, hcookie⟩ := h
  refine ⟨g, inFlow_iff.mpr ?_⟩
  rw [hcookie, (hmem.running g i hi).index hmem.thread_lt]
  exact hi

namespace Linking

variable (h : Linking s s' f j)
include h

theorem ringFds : s'.t.device.ringFds = s.t.device.ringFds := by
  rw [h.device]
  rfl

theorem ring (hring : RingSound s.t.device) : RingSound s'.t.device := by
  rw [h.device]
  exact ⟨⟨hring.size_ok, hring.rd_lt, hring.wrt_lt⟩, hring.sent_lt, hring.sent_le⟩

theorem running_self : s'.running f = s.running f ++ [j] := by
  rw [h.running, Function.update_self]

theorem running_of_ne (hg : g ≠ f) : s'.running g = s.running g := by
  rw [h.running, Function.update_of_ne hg]

/-- A job that is started belongs to the same flow as before. -/
theorem inFlow_eq (hcookie : s.Owned cookie) (g : ℕ) : s'.inFlow g cookie = s.inFlow g cookie := by
  obtain ⟨k, hk⟩ := hcookie
  have hne : nlmGetJobIndex cookie ≠ j := fun heq ↦ h.fresh (.inr ⟨k, heq ▸ inFlow_iff.mp hk⟩)
  by_cases hg : g = f
  · subst hg
    unfold inFlow
    rw [h.running_self]
    simp only [List.mem_append, List.mem_singleton, hne, or_false]
  · exact congrFun (inFlow_congr (h.running_of_ne hg)) cookie

theorem owned (hcookie : s.Owned cookie) : s'.Owned cookie := by
  obtain ⟨k, hk⟩ := hcookie
  exact ⟨k, (h.inFlow_eq ⟨k, hk⟩ k).trans hk⟩

theorem pdIndex_eq (hi : s.Live i) : s'.t.device.pdIndex i = s.t.device.pdIndex i := by
  unfold NlmDevice.pdIndex
  rw [h.jobs i hi]

theorem flowTerm_eq (hi : s.Live i) : (s'.t.device.pds (s.t.device.pdIndex i)).flowTerm =
    (s.t.device.pds (s.t.device.pdIndex i)).flowTerm := by
  rw [h.pds i hi]
  split <;> rfl

theorem fdsOf_eq (hinv : Inv s) (g : ℕ) : s'.fdsOf g = s.fdsOf g :=
  fdsOf_congr h.ringFds h.thread fun fd hfd howns ↦ h.inFlow_eq (hinv.fds fd hfd howns) g

theorem walksOf_eq (hinv : Inv s) (g : ℕ) : s'.walksOf g = s.walksOf g :=
  walksOf_congr h.walks fun w hw ↦ h.inFlow_eq (hinv.walks w hw) g

theorem resultsOf_eq (hinv : Inv s) (g : ℕ) : s'.resultsOf g = s.resultsOf g :=
  resultsOf_congr h.results fun rd hrd ↦ h.inFlow_eq ((hinv.results rd hrd).inFlow hinv.mem) g

theorem shows_of_ne (hinv : Inv s) (hg : g ≠ f) (hshows : Shows s g l) : Shows s' g l := by
  refine hshows.frame (h.running_of_ne hg) ?_ (congrFun h.scanned g) (h.resultsOf_eq hinv g) ?_ ?_
    (h.fdsOf_eq hinv g) (h.walksOf_eq hinv g) h.thread (fun i hi ↦ h.pdIndex_eq (.inr ⟨g, hi⟩))
    fun i hi ↦ h.flowTerm_eq (.inr ⟨g, hi⟩)
  · rw [h.started, Function.update_of_ne hg]
  · rw [h.device]
    split
    · rw [List.count_append, List.count_singleton, if_neg (by simpa using Ne.symm hg), Nat.add_zero]
    · rfl
  · rw [h.head, if_neg fun hcond ↦ hg hcond.1]

/-- Nothing is left of the queue of the flow exactly if it waits to be started from now on. -/
theorem waits_iff (hshows : Shows s f l) : ((s.t.device.flows f).lastPd = none ∧
    (s.t.device.flows f).pendingPdHead = none) ↔ l = .idle := by
  rw [h.lastPd, hshows.running, hshows.head]
  have hok := hshows.ok
  cases l with
  | idle => simp [Lane.opened, pendingHead]
  | pending rest =>
    cases rest with
    | nil => exact absurd rfl hok
    | cons i rest => simp [Lane.opened, pendingHead]
  | sent c rest => simpa [Lane.opened] using fun hnil ↦ absurd hnil hok.1
  | walking returned cur c rest =>
    have hne : cur = none → rest ≠ [] := by
      rintro rfl rfl
      rcases hok with ⟨-, hcur, -⟩ | ⟨-, -, -, hlen, -⟩
      · cases hcur
      · cases hlen
    refine iff_of_false (fun hnil ↦ ?_) (by simp)
    have hopened := List.getLast?_eq_none_iff.mp (Option.map_eq_none_iff.mp hnil.1)
    have hrest := List.append_eq_nil_iff.mp hopened
    exact hne (Option.toList_eq_nil_iff.mp (List.append_eq_nil_iff.mp hrest.1).2) hrest.2
  | final returned last rest => simp [Lane.opened]

theorem shows_self (hinv : Inv s) (hshows : Shows s f l) : Shows s' f (l.add j) := by
  have hwaits := h.waits_iff hshows
  have hext : l.Extensible := hshows.extensible h.term
  have hindex : ∀ i ∈ l.opened, s'.t.device.pdIndex i = s.t.device.pdIndex i := fun i hi ↦
    h.pdIndex_eq (.inr ⟨f, hshows.running ▸ hi⟩)
  have hfds := hshows.fds.congr hshows.ok h.thread hindex
  have hwalks := hshows.walks.congr hshows.ok h.thread hindex
  rw [← h.fdsOf_eq hinv] at hfds
  rw [← h.walksOf_eq hinv] at hwalks
  refine ⟨hshows.ok.add hext j, ?_, ?_, ?_, ?_, ?_, ?_, ?_, fun _ ↦ hext.add j⟩
  · rw [h.running_self, hshows.running, Lane.opened_add]
  · rw [h.started, Function.update_self, h.scanned, hshows.started, Lane.rest_add,
      List.append_assoc]
  · rw [h.resultsOf_eq hinv, hshows.results, Lane.results_add]
  · rw [h.device]
    by_cases hidle : l = .idle
    · have hpending := hshows.pending
      rw [if_pos (hwaits.mpr hidle), List.count_append, hpending]
      subst hidle
      simp [pendingHead, Lane.add]
    · rw [if_neg fun hcond ↦ hidle (hwaits.mp hcond), hshows.pending]
      have hok := hshows.ok
      cases l with
      | idle => exact absurd rfl hidle
      | pending rest =>
        cases rest with
        | nil => exact absurd rfl hok
        | cons i rest => rfl
      | _ => rfl
  · rw [h.head]
    by_cases hidle : l = .idle
    · rw [if_pos ⟨rfl, hwaits.mpr hidle⟩]
      subst hidle
      rfl
    · rw [if_neg fun hcond ↦ hidle (hwaits.mp hcond.2), hshows.head]
      have hok := hshows.ok
      cases l with
      | idle => exact absurd rfl hidle
      | pending rest =>
        cases rest with
        | nil => exact absurd rfl hok
        | cons i rest => exact congrArg some (hindex i List.mem_cons_self).symm
      | _ => rfl
  · cases l with
    | sent c rest =>
      obtain ⟨fd, i, hfds, hi, hshow⟩ := hfds
      exact ⟨fd, i, hfds, by rw [List.head?_append, hi]; rfl, hshow⟩
    | _ => exact hfds
  · cases l with
    | walking returned cur c rest =>
      obtain ⟨w, i, hwalks, hi, hshow⟩ := hwalks
      refine ⟨w, i, hwalks, ?_, hshow⟩
      cases cur with
      | some k => exact hi
      | none =>
        have hhead : rest.head? = some i := hi
        change (rest ++ [j]).head? = some i
        rw [List.head?_append, hhead]
        rfl
    | _ => exact hwalks

end Linking

theorem Inv.append (h : Inv s) (hlink : Linking s s' f j) (hflows : ∀ g, FlowOk s' g) : Inv s' := by
  refine ⟨hlink.ring h.ring, ?_, h.mem.append hlink.toAppended, fun g ↦ ?_, fun fd hfd howns ↦ ?_,
    fun w hw ↦ ?_, fun rd hrd ↦ ?_, hflows⟩
  · rw [hlink.device]
    exact h.fifo
  · obtain ⟨l, hl⟩ := h.lanes g
    by_cases hg : g = f
    · subst hg
      exact ⟨_, hlink.shows_self h hl⟩
    · exact ⟨l, hlink.shows_of_ne h hg hl⟩
  · rw [hlink.ringFds] at hfd
    have howns' : s.t.device.owns fd = true := by
      unfold owns at howns ⊢
      rw [← hlink.thread]
      exact howns
    exact hlink.owned (h.fds fd hfd howns')
  · rw [hlink.walks] at hw
    exact hlink.owned (h.walks w hw)
  · rw [hlink.results] at hrd
    obtain ⟨hvalid, htype, g, i, hi, hcookie⟩ := h.results rd hrd
    refine ⟨hvalid, htype, g, i, ?_, hlink.thread ▸ hcookie⟩
    by_cases hg : g = f
    · subst hg
      rw [hlink.running_self]
      exact List.mem_append_left _ hi
    · rw [hlink.running_of_ne hg]
      exact hi

end ChainRun

end NetL7.Packet
