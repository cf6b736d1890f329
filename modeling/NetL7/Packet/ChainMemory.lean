import NetL7.Packet.ChainRun

/-!
# The chain of a flow in memory

The PDs of the jobs of a flow that are started and not completed are linked one to the
next in the order in which they were started, and `last_pd` is the last of them. No two
jobs in use share a PD.
-/

namespace NetL7.Packet

namespace NlmDevice

variable {d d' : NlmDevice} {f j p : ℕ}

/-- The index of the first PD of a list of jobs, or 0. -/
def headPd (d : NlmDevice) : List ℕ → ℕ
  | [] => 0
  | j :: _ => d.pdIndex j

/-- The PDs of the jobs are linked in order, and the last one has no link. -/
def Linked (d : NlmDevice) : List ℕ → Prop
  | [] => True
  | j :: js => (d.pds (d.pdIndex j)).pdNla.pdNlaIndex = d.headPd js ∧ Linked d js

/-- The job and its PD are the same. -/
structure SameJob (d d' : NlmDevice) (j : ℕ) : Prop where
  job : d'.jobs j = d.jobs j
  pd : d'.pds (d.pdIndex j) = d.pds (d.pdIndex j)

/-- A job in use on a flow, and its PD. -/
structure JobOk (d : NlmDevice) (f j : ℕ) : Prop where
  pos : 0 < j
  lt : j < 2 ^ 24
  flow : (d.jobs j).flow = some f
  pd : (d.jobs j).pd = some (d.pdIndex j)
  ne_zero : d.pdIndex j ≠ 0
  cookie : (d.jobs j).fd.cookie = nlmEncodeCookie d.threadId j
  pd_cookie : (d.pds (d.pdIndex j)).cookie = nlmEncodeCookie d.threadId j
  prd : (d.pds (d.pdIndex j)).packetPrd = true

/-- A job that waits to be started. -/
structure WaitingJob (d : NlmDevice) (f j : ℕ) : Prop extends JobOk d f j where
  mark : (d.pds (d.pdIndex j)).rsv01 = .createdButNotStarted
  link : (d.pds (d.pdIndex j)).pdNla.pdNlaIndex = 0
  cut : (d.pds (d.pdIndex j)).swDisconnect = false
  term : (d.pds (d.pdIndex j)).flowTerm = false
  bytes : 0 < (d.pds (d.pdIndex j)).packetByteCount

/-- A job that is started. -/
structure RunningJob (d : NlmDevice) (f j : ℕ) : Prop extends JobOk d f j where
  mark : (d.pds (d.pdIndex j)).rsv01 = .validAndStarted
  term : (d.pds (d.pdIndex j)).flowTerm = true →
    (d.flows f).type = .invalid ∧ (d.pds (d.pdIndex j)).packetByteCount = 0 ∧
      (d.pds (d.pdIndex j)).swDisconnect = false ∧
      (d.pds (d.pdIndex j)).pdNla.pdNlaIndex = 0

theorem SameJob.pdIndex (h : SameJob d d' j) : d'.pdIndex j = d.pdIndex j := by
  unfold NlmDevice.pdIndex
  rw [h.job]

theorem SameJob.pd' (h : SameJob d d' j) : d'.pds (d'.pdIndex j) = d.pds (d.pdIndex j) := by
  rw [h.pdIndex, h.pd]

theorem SameJob.refl (d : NlmDevice) (j : ℕ) : SameJob d d j := ⟨rfl, rfl⟩

theorem JobOk.congr (h : JobOk d f j) (hjob : d'.jobs j = d.jobs j)
    (hcookie : (d'.pds (d.pdIndex j)).cookie = (d.pds (d.pdIndex j)).cookie)
    (hprd : (d'.pds (d.pdIndex j)).packetPrd = (d.pds (d.pdIndex j)).packetPrd)
    (hthread : d'.threadId = d.threadId) : JobOk d' f j := by
  have hindex : d'.pdIndex j = d.pdIndex j := by
    unfold NlmDevice.pdIndex
    rw [hjob]
  refine ⟨h.pos, h.lt, ?_, ?_, ?_, ?_, ?_, ?_⟩
  · rw [hjob, h.flow]
  · rw [hjob, hindex, h.pd]
  · rw [hindex]
    exact h.ne_zero
  · rw [hjob, hthread, h.cookie]
  · rw [hindex, hcookie, hthread, h.pd_cookie]
  · rw [hindex, hprd, h.prd]

theorem JobOk.same (h : JobOk d f j) (hsame : SameJob d d' j) (hthread : d'.threadId = d.threadId) :
    JobOk d' f j :=
  h.congr hsame.job (congrArg HwPdDescriptor.cookie hsame.pd)
    (congrArg HwPdDescriptor.packetPrd hsame.pd) hthread

theorem WaitingJob.same (h : WaitingJob d f j) (hsame : SameJob d d' j)
    (hthread : d'.threadId = d.threadId) : WaitingJob d' f j := by
  refine ⟨h.toJobOk.same hsame hthread, ?_, ?_, ?_, ?_, ?_⟩ <;> rw [hsame.pd']
  · exact h.mark
  · exact h.link
  · exact h.cut
  · exact h.term
  · exact h.bytes

theorem RunningJob.same (h : RunningJob d f j) (hsame : SameJob d d' j)
    (hthread : d'.threadId = d.threadId)
    (htype : (d.flows f).type = .invalid → (d'.flows f).type = .invalid) : RunningJob d' f j := by
  refine ⟨h.toJobOk.same hsame hthread, ?_, fun hterm ↦ ?_⟩
  · rw [hsame.pd']
    exact h.mark
  · rw [hsame.pd'] at hterm ⊢
    exact (h.term hterm).imp_left htype

theorem Linked.congr_link {js : List ℕ} (hlinked : d.Linked js)
    (hindex : ∀ j ∈ js, d'.pdIndex j = d.pdIndex j)
    (hlink : ∀ j ∈ js, (d'.pds (d.pdIndex j)).pdNla = (d.pds (d.pdIndex j)).pdNla) :
    d'.Linked js := by
  induction js with
  | nil => trivial
  | cons j js ih =>
    have hrest := fun i hi ↦ hindex i (List.mem_cons_of_mem j hi)
    have hhead : d'.headPd js = d.headPd js := by
      cases js with
      | nil => rfl
      | cons i js => exact hrest i List.mem_cons_self
    refine ⟨?_, ih hlinked.2 hrest fun i hi ↦ hlink i (List.mem_cons_of_mem j hi)⟩
    rw [hindex j List.mem_cons_self, hlink j List.mem_cons_self, hhead]
    exact hlinked.1

theorem Linked.congr {js : List ℕ} (hlinked : d.Linked js) (h : ∀ j ∈ js, SameJob d d' j) :
    d'.Linked js :=
  hlinked.congr_link (fun j hj ↦ (h j hj).pdIndex) fun j hj ↦
    congrArg HwPdDescriptor.pdNla (h j hj).pd

theorem Linked.of_suffix {js js' : List ℕ} (hlinked : d.Linked js) (h : js' <:+ js) :
    d.Linked js' := by
  obtain ⟨front, rfl⟩ := h
  induction front with
  | nil => exact hlinked
  | cons j front ih => exact ih hlinked.2

/-! ## Linking a job -/

section Link

variable (d : NlmDevice) (f j p : ℕ)

/-- The bit `sw_disconnect` that the last PD of a flow has when a job is linked to it. -/
def cutBefore (d : NlmDevice) (f j q : ℕ) : Bool :=
  (d.pds q).swDisconnect ||
    (d.jobs j).dbGroupCombination != (d.flows f).lastDbGroupCombination

/-- The PD that a PD has become when `p` was linked to the last one. -/
def linkedPd (d : NlmDevice) (f j p q : ℕ) : HwPdDescriptor :=
  { d.pds q with
    swDisconnect := d.cutBefore f j q
    pdNla := { (d.pds q).pdNla with pdNlaIndex := p } }

/-- The flow when the job has been linked. -/
def linkedFlow (d : NlmDevice) (f j p : ℕ) : NlmFlow :=
  { d.flows f with
    lastPd := some p
    lastDbGroupCombination := (d.jobs j).dbGroupCombination
    pendingPdHead := if (d.flows f).lastPd = none ∧ (d.flows f).pendingPdHead = none then some p
      else (d.flows f).pendingPdHead }

/-- `nlm_flow_add_job_to_list` changes the last PD, the flow, and the list of pending
flows. -/
theorem addJobToList_eq : d.nlmFlowAddJobToList f j p =
    { d with
      flows := Function.update d.flows f (d.linkedFlow f j p)
      pds := fun q ↦ if (d.flows f).lastPd = some q then d.linkedPd f j p q else d.pds q
      pendingFlowList :=
        if (d.flows f).lastPd = none ∧ (d.flows f).pendingPdHead = none then
          d.pendingFlowList ++ [f]
        else d.pendingFlowList } := by
  cases hlast : (d.flows f).lastPd with
  | none =>
    by_cases hhead : (d.flows f).pendingPdHead = none
    · simp [nlmFlowAddJobToList, linkedFlow, hlast, hhead, setFlow, nlmDeviceAddFlowToPending]
    · simp [nlmFlowAddJobToList, linkedFlow, hlast, hhead, setFlow]
  | some last =>
    have hpds : Function.update d.pds last (d.linkedPd f j p last) =
        fun q ↦ if last = q then d.linkedPd f j p q else d.pds q := by
      funext q
      by_cases hq : last = q
      · subst hq
        rw [Function.update_self, if_pos rfl]
      · rw [Function.update_of_ne (Ne.symm hq), if_neg hq]
    by_cases hcut : (d.jobs j).dbGroupCombination = (d.flows f).lastDbGroupCombination
    · simpa [nlmFlowAddJobToList, linkedFlow, hlast, hcut, setFlow, setPd, linkedPd, cutBefore]
        using hpds
    · have hcut' : d.cutBefore f j last = true := by simp [cutBefore, hcut]
      simp only [linkedPd, hcut'] at hpds
      simpa [nlmFlowAddJobToList, linkedFlow, hlast, hcut, setFlow, setPd, linkedPd] using hpds

end Link

/-- A list of linked jobs gets one more. -/
theorem Linked.append {js : List ℕ} (hlinked : d.Linked js) (hp : d'.pdIndex j = p)
    (hnew : (d'.pds p).pdNla.pdNlaIndex = 0) (hindex : ∀ i ∈ js, d'.pdIndex i = d.pdIndex i)
    (hlast : ∀ i ∈ js.getLast?, (d'.pds (d'.pdIndex i)).pdNla.pdNlaIndex = p)
    (hother : ∀ i ∈ js, i ∉ js.getLast? →
      (d'.pds (d'.pdIndex i)).pdNla = (d.pds (d.pdIndex i)).pdNla) (hnodup : js.Nodup) :
    d'.Linked (js ++ [j]) := by
  induction js with
  | nil =>
    refine ⟨?_, trivial⟩
    rw [hp]
    exact hnew
  | cons i js ih =>
    obtain ⟨hnot, hnodup⟩ := List.nodup_cons.mp hnodup
    cases js with
    | nil =>
      refine ⟨?_, ?_, trivial⟩
      · rw [hlast i rfl]
        exact hp.symm
      · rw [hp]
        exact hnew
    | cons i' js =>
      have hgetLast : (i :: i' :: js).getLast? = (i' :: js).getLast? := rfl
      rw [hgetLast] at hlast hother
      refine ⟨?_, ih hlinked.2 (fun k hk ↦ hindex k (List.mem_cons_of_mem i hk)) hlast
        (fun k hk ↦ hother k (List.mem_cons_of_mem i hk)) hnodup⟩
      have hi : i ∉ (i' :: js).getLast? := fun hmem ↦ hnot (List.mem_of_getLast? hmem)
      rw [hother i List.mem_cons_self hi, hlinked.1]
      exact (hindex i' (by simp)).symm

end NlmDevice

namespace ChainRun

open NlmDevice

/-- A job that is in use. -/
def Live (s : ChainRun) (j : ℕ) : Prop := j ∈ s.waiting ∨ ∃ f, j ∈ s.running f

/-- What holds of the memory. -/
structure Mem (s : ChainRun) : Prop where
  thread_lt : s.t.device.threadId < 256
  kind : ∀ f, (s.t.device.flows f).isStateless = false
  waiting : ∀ j ∈ s.waiting, ∃ f, (s.t.device.flows f).type = .stateful ∧
    WaitingJob s.t.device f j
  running : ∀ f, ∀ j ∈ s.running f, RunningJob s.t.device f j
  waiting_nodup : s.waiting.Nodup
  running_nodup : ∀ f, (s.running f).Nodup
  disjoint : ∀ j ∈ s.waiting, ∀ f, j ∉ s.running f
  pd_inj : ∀ i j, s.Live i → s.Live j → s.t.device.pdIndex i = s.t.device.pdIndex j → i = j
  linked : ∀ f, s.t.device.Linked (s.running f)
  last : ∀ f, (s.t.device.flows f).type = .stateful ∨ s.running f ≠ [] →
    (s.t.device.flows f).lastPd = (s.running f).getLast?.map s.t.device.pdIndex

variable {s s' : ChainRun} {f g i j p : ℕ}

theorem Mem.jobOk (h : Mem s) (hj : s.Live j) : ∃ f, JobOk s.t.device f j := by
  rcases hj with hj | ⟨f, hj⟩
  · obtain ⟨f, -, hok⟩ := h.waiting j hj
    exact ⟨f, hok.toJobOk⟩
  · exact ⟨f, (h.running f j hj).toJobOk⟩

/-- A job runs on one flow. -/
theorem Mem.flow_eq (h : Mem s) (hf : j ∈ s.running f) (hg : j ∈ s.running g) : f = g :=
  Option.some.inj ((h.running f j hf).flow.symm.trans (h.running g j hg).flow)

theorem getLast?_of_suffix {js js' : List ℕ} (h : js' <:+ js) (hne : js' ≠ []) :
    js'.getLast? = js.getLast? := by
  obtain ⟨front, rfl⟩ := h
  rw [List.getLast?_append_of_ne_nil _ hne]

/-- Jobs leave, and what is left of them in memory is the same. -/
theorem Mem.shrink (h : Mem s) (hthread : s'.t.device.threadId = s.t.device.threadId)
    (hsame : ∀ j, s'.Live j → SameJob s.t.device s'.t.device j)
    (hwait : s'.waiting.Sublist s.waiting) (hrun : ∀ f, s'.running f <:+ s.running f)
    (hkind : ∀ f, (s'.t.device.flows f).isStateless = false)
    (htype : ∀ j ∈ s'.waiting, ∀ f, (s.t.device.jobs j).flow = some f →
      (s'.t.device.flows f).type = .stateful)
    (hinvalid : ∀ f, s'.running f ≠ [] → (s.t.device.flows f).type = .invalid →
      (s'.t.device.flows f).type = .invalid)
    (hlast : ∀ f, (s'.t.device.flows f).type = .stateful ∨ s'.running f ≠ [] →
      (s'.t.device.flows f).lastPd = (s'.running f).getLast?.map s.t.device.pdIndex) :
    Mem s' := by
  have hlive : ∀ j, s'.Live j → s.Live j := by
    rintro j (hj | ⟨f, hj⟩)
    · exact .inl (hwait.subset hj)
    · exact .inr ⟨f, (hrun f).subset hj⟩
  refine ⟨hthread ▸ h.thread_lt, hkind, fun j hj ↦ ?_, fun f j hj ↦ ?_,
    h.waiting_nodup.sublist hwait, fun f ↦ (h.running_nodup f).sublist (hrun f).sublist,
    fun j hj f hf ↦ h.disjoint j (hwait.subset hj) f ((hrun f).subset hf),
    fun i j hi hj heq ↦ ?_, fun f ↦ ?_, fun f hf ↦ ?_⟩
  · obtain ⟨f, -, hok⟩ := h.waiting j (hwait.subset hj)
    exact ⟨f, htype j hj f hok.flow, hok.same (hsame j (.inl hj)) hthread⟩
  · exact (h.running f j ((hrun f).subset hj)).same (hsame j (.inr ⟨f, hj⟩)) hthread
      (hinvalid f (List.ne_nil_of_mem hj))
  · rw [(hsame i hi).pdIndex, (hsame j hj).pdIndex] at heq
    exact h.pd_inj i j (hlive i hi) (hlive j hj) heq
  · exact ((h.linked f).of_suffix (hrun f)).congr fun j hj ↦ hsame j (.inr ⟨f, hj⟩)
  · rw [hlast f hf]
    cases hjs : (s'.running f).getLast? with
    | none => rfl
    | some j =>
      have hj : j ∈ s'.running f := List.mem_of_getLast? hjs
      rw [Option.map_some, Option.map_some, (hsame j (.inr ⟨f, hj⟩)).pdIndex]

/-- Memory in which nothing in use has changed. -/
theorem Mem.same (h : Mem s) (hthread : s'.t.device.threadId = s.t.device.threadId)
    (hwait : s'.waiting = s.waiting) (hrun : s'.running = s.running)
    (hsame : ∀ j, s.Live j → SameJob s.t.device s'.t.device j)
    (hkind : ∀ f, (s'.t.device.flows f).isStateless = (s.t.device.flows f).isStateless)
    (htype : ∀ f, (s'.t.device.flows f).type = (s.t.device.flows f).type)
    (hlast : ∀ f, (s'.t.device.flows f).lastPd = (s.t.device.flows f).lastPd) : Mem s' := by
  have hlive : ∀ j, s'.Live j ↔ s.Live j := by
    intro j
    unfold Live
    rw [hwait, hrun]
  refine h.shrink hthread (fun j hj ↦ hsame j ((hlive j).mp hj)) (hwait ▸ List.Sublist.refl _)
    (fun f ↦ hrun ▸ List.suffix_rfl) (fun f ↦ (hkind f).trans (h.kind f)) ?_ ?_ ?_
  · intro j hj f hf
    rw [hwait] at hj
    obtain ⟨g, hg, hok⟩ := h.waiting j hj
    rw [htype, ← Option.some.inj (hok.flow.symm.trans hf)]
    exact hg
  · intro f _ hinvalid
    rw [htype, hinvalid]
  · intro f hf
    rw [htype, hrun] at hf
    rw [hlast, hrun]
    exact h.last f hf

/-- A job that was not in use is put at the end of the chain of its flow. -/
structure Appended (s s' : ChainRun) (f j : ℕ) : Prop where
  fresh : ¬s.Live j
  thread : s'.t.device.threadId = s.t.device.threadId
  jobs : ∀ i, s.Live i → s'.t.device.jobs i = s.t.device.jobs i
  pds : ∀ i, s.Live i → s'.t.device.pds (s.t.device.pdIndex i) =
    if (s.t.device.flows f).lastPd = some (s.t.device.pdIndex i) then
      s.t.device.linkedPd f j (s'.t.device.pdIndex j) (s.t.device.pdIndex i)
    else s.t.device.pds (s.t.device.pdIndex i)
  new : ∀ i, s.Live i → s.t.device.pdIndex i ≠ s'.t.device.pdIndex j
  ok : RunningJob s'.t.device f j
  link : (s'.t.device.pds (s'.t.device.pdIndex j)).pdNla.pdNlaIndex = 0
  waiting : s'.waiting = s.waiting
  running : s'.running = Function.update s.running f (s.running f ++ [j])
  term : ∀ i ∈ s.running f, (s.t.device.pds (s.t.device.pdIndex i)).flowTerm = false
  lastPd : (s.t.device.flows f).lastPd = (s.running f).getLast?.map s.t.device.pdIndex
  kind : ∀ g, (s'.t.device.flows g).isStateless = (s.t.device.flows g).isStateless
  type : ∀ g, (s'.t.device.flows g).type = (s.t.device.flows g).type
  last : ∀ g, (s'.t.device.flows g).lastPd =
    if g = f then some (s'.t.device.pdIndex j) else (s.t.device.flows g).lastPd

theorem Mem.append (h : Mem s) (happ : Appended s s' f j) : Mem s' := by
  obtain ⟨hj, hthread, hjobs, hpds, hnew, hok, hlink, hwait, hrun, hterm, hlastPd, hkind, htype,
    hlast⟩ := happ
  have hindex : ∀ i, s.Live i → s'.t.device.pdIndex i = s.t.device.pdIndex i := fun i hi ↦ by
    unfold NlmDevice.pdIndex
    rw [hjobs i hi]
  have hlive : ∀ i, s'.Live i → s.Live i ∨ i = j := by
    rintro i (hi | ⟨g, hi⟩)
    · exact .inl (.inl (hwait ▸ hi))
    · rw [hrun] at hi
      by_cases hg : g = f
      · subst hg
        rw [Function.update_self] at hi
        rcases List.mem_append.mp hi with hi | hi
        · exact .inl (.inr ⟨g, hi⟩)
        · exact .inr (List.mem_singleton.mp hi)
      · rw [Function.update_of_ne hg] at hi
        exact .inl (.inr ⟨g, hi⟩)
  -- the last job of the flow is the only one whose PD changes
  have hchanged : ∀ i, s.Live i → (s.t.device.flows f).lastPd = some (s.t.device.pdIndex i) →
      i ∈ (s.running f).getLast? := by
    intro i hi hlast
    rw [hlastPd] at hlast
    obtain ⟨k, hk, heq⟩ := Option.map_eq_some_iff.mp hlast
    have hki := h.pd_inj k i (.inr ⟨f, List.mem_of_getLast? hk⟩) hi heq
    exact hki ▸ hk
  have hsame : ∀ i, s.Live i → i ∉ (s.running f).getLast? → SameJob s.t.device s'.t.device i := by
    intro i hi hnot
    refine ⟨hjobs i hi, ?_⟩
    rw [hpds i hi, if_neg fun hlast ↦ hnot (hchanged i hi hlast)]
  have hpd : ∀ i, s.Live i → ∃ cut link, s'.t.device.pds (s'.t.device.pdIndex i) =
      { s.t.device.pds (s.t.device.pdIndex i) with swDisconnect := cut, pdNla := link } := by
    intro i hi
    rw [hindex i hi, hpds i hi]
    split
    · exact ⟨_, _, rfl⟩
    · exact ⟨_, _, rfl⟩
  have hjobOk : ∀ g i, s.Live i → JobOk s.t.device g i → JobOk s'.t.device g i := by
    intro g i hi hi'
    obtain ⟨cut, link, heq⟩ := hpd i hi
    rw [hindex i hi] at heq
    exact hi'.congr (hjobs i hi) (by rw [heq]) (by rw [heq]) hthread
  have hrunSelf : s'.running f = s.running f ++ [j] := by rw [hrun, Function.update_self]
  have hrunOther : ∀ g, g ≠ f → s'.running g = s.running g := fun g hg ↦ by
    rw [hrun, Function.update_of_ne hg]
  have hnotLast : ∀ g, g ≠ f → ∀ i ∈ s.running g, i ∉ (s.running f).getLast? :=
    fun g hg i hi hlast ↦ hg (h.flow_eq hi (List.mem_of_getLast? hlast))
  refine ⟨hthread ▸ h.thread_lt, fun g ↦ (hkind g).trans (h.kind g), fun i hi ↦ ?_,
    fun g i hi ↦ ?_, hwait ▸ h.waiting_nodup, fun g ↦ ?_, fun i hi g hg ↦ ?_,
    fun i k hi hk heq ↦ ?_, fun g ↦ ?_, fun g hg ↦ ?_⟩
  · rw [hwait] at hi
    obtain ⟨g, hg, hok⟩ := h.waiting i hi
    refine ⟨g, (htype g).trans hg, hok.same (hsame i (.inl hi) fun hlast ↦ ?_) hthread⟩
    exact h.disjoint i hi f (List.mem_of_getLast? hlast)
  · by_cases hg : g = f
    · subst hg
      rw [hrunSelf] at hi
      rcases List.mem_append.mp hi with hi | hi
      · obtain ⟨cut, link, heq⟩ := hpd i (.inr ⟨g, hi⟩)
        have hi' := h.running g i hi
        refine ⟨hjobOk g i (.inr ⟨g, hi⟩) hi'.toJobOk, ?_, fun htrue ↦ ?_⟩
        · rw [heq]
          exact hi'.mark
        · rw [heq] at htrue
          exact absurd ((hterm i hi).symm.trans htrue) (by decide)
      · rw [List.mem_singleton.mp hi]
        exact hok
    · rw [hrunOther g hg] at hi
      exact (h.running g i hi).same (hsame i (.inr ⟨g, hi⟩) (hnotLast g hg i hi)) hthread
        fun hinvalid ↦ (htype g).trans hinvalid
  · by_cases hg : g = f
    · subst hg
      rw [hrunSelf]
      rw [← List.concat_eq_append]
      exact (h.running_nodup g).concat fun hmem ↦ hj (.inr ⟨g, hmem⟩)
    · rw [hrunOther g hg]
      exact h.running_nodup g
  · rw [hwait] at hi
    by_cases hgf : g = f
    · subst hgf
      rw [hrunSelf] at hg
      rcases List.mem_append.mp hg with hg | hg
      · exact h.disjoint i hi g hg
      · exact hj (.inl (List.mem_singleton.mp hg ▸ hi))
    · rw [hrunOther g hgf] at hg
      exact h.disjoint i hi g hg
  · rcases hlive i hi with hi | rfl
    · rcases hlive k hk with hk | rfl
      · rw [hindex i hi, hindex k hk] at heq
        exact h.pd_inj i k hi hk heq
      · rw [hindex i hi] at heq
        exact absurd heq (hnew i hi)
    · rcases hlive k hk with hk | rfl
      · rw [hindex k hk] at heq
        exact absurd heq.symm (hnew k hk)
      · rfl
  · by_cases hg : g = f
    · subst hg
      rw [hrunSelf]
      refine (h.linked g).append rfl hlink (fun i hi ↦ hindex i (.inr ⟨g, hi⟩)) ?_ ?_
        (h.running_nodup g)
      · intro i hi
        have hi' : s.Live i := .inr ⟨g, List.mem_of_getLast? hi⟩
        rw [hindex i hi', hpds i hi', if_pos]
        · rfl
        · rw [hlastPd, hi]
          rfl
      · intro i hi hnot
        rw [(hsame i (.inr ⟨g, hi⟩) hnot).pd']
    · rw [hrunOther g hg]
      exact (h.linked g).congr fun i hi ↦ hsame i (.inr ⟨g, hi⟩) (hnotLast g hg i hi)
  · rw [hlast]
    by_cases hgf : g = f
    · subst hgf
      rw [if_pos rfl, hrunSelf, List.getLast?_append]
      rfl
    · rw [if_neg hgf, hrunOther g hgf]
      rw [htype, hrunOther g hgf] at hg
      rw [h.last g hg]
      cases hjs : (s.running g).getLast? with
      | none => rfl
      | some i =>
        rw [Option.map_some, Option.map_some, hindex i (.inr ⟨g, List.mem_of_getLast? hjs⟩)]

end ChainRun

end NetL7.Packet
