import NetL7.Packet.Counts

/-!
# The marks of the PDs

A PD is marked when its job is enqueued, and marked anew when the job is started.
Of all calls only those that start a job change the marks of PDs in use.
-/

namespace NetL7.Packet

namespace NlmDevice

variable {s s' s'' : NlmDevice} {f j : ℕ} {jobs jobs' : List ℕ} {taken : ℕ → ℕ}

/-- From `s` to `s'` the PDs of the given jobs are marked as started, and apart from
that jobs, marks, cookies and the types of flows are the same. -/
structure Marks (jobs : List ℕ) (s s' : NlmDevice) : Prop where
  marked : ∀ j ∈ jobs, ∀ p, (s.jobs j).pd = some p → (s'.pds p).rsv01 = .validAndStarted
  kept : ∀ p, (∀ j ∈ jobs, (s.jobs j).pd ≠ some p) → (s'.pds p).rsv01 = (s.pds p).rsv01
  cookie : ∀ p, (s'.pds p).cookie = (s.pds p).cookie
  jobs_pd : ∀ j, (s'.jobs j).pd = (s.jobs j).pd
  jobs_flow : ∀ j, (s'.jobs j).flow = (s.jobs j).flow
  type_eq : ∀ f, (s'.flows f).type = (s.flows f).type
  kind : ∀ f, (s'.flows f).isStateless = (s.flows f).isStateless
  thread : s'.threadId = s.threadId

namespace Marks

theorem of_same (hflows : s'.flows = s.flows) (hjobs : s'.jobs = s.jobs) (hpds : s'.pds = s.pds)
    (hthread : s'.threadId = s.threadId) : Marks [] s s' := by
  refine ⟨fun _ hj ↦ absurd hj List.not_mem_nil, fun p _ ↦ ?_, fun p ↦ ?_, fun j ↦ ?_, fun j ↦ ?_,
    fun f ↦ ?_, fun f ↦ ?_, hthread⟩
  · rw [hpds]
  · rw [hpds]
  · rw [hjobs]
  · rw [hjobs]
  · rw [hflows]
  · rw [hflows]

theorem refl (s : NlmDevice) : Marks [] s s := of_same rfl rfl rfl rfl

theorem trans (h : Marks jobs s s') (h' : Marks jobs' s' s'') : Marks (jobs ++ jobs') s s'' where
  marked := fun j hj p hp ↦ by
    by_cases hlater : ∃ i ∈ jobs', (s.jobs i).pd = some p
    · obtain ⟨i, hi, hip⟩ := hlater
      exact h'.marked i hi p ((h.jobs_pd i).trans hip)
    · have hkept := h'.kept p fun i hi hip ↦ hlater ⟨i, hi, (h.jobs_pd i).symm.trans hip⟩
      cases List.mem_append.mp hj with
      | inl hj => exact hkept.trans (h.marked j hj p hp)
      | inr hj => exact absurd ⟨j, hj, hp⟩ hlater
  kept := fun p hp ↦
    (h'.kept p fun i hi hip ↦
      hp i (List.mem_append_right _ hi) ((h.jobs_pd i).symm.trans hip)).trans
      (h.kept p fun i hi ↦ hp i (List.mem_append_left _ hi))
  cookie := fun p ↦ (h'.cookie p).trans (h.cookie p)
  jobs_pd := fun j ↦ (h'.jobs_pd j).trans (h.jobs_pd j)
  jobs_flow := fun j ↦ (h'.jobs_flow j).trans (h.jobs_flow j)
  type_eq := fun f ↦ (h'.type_eq f).trans (h.type_eq f)
  kind := fun f ↦ (h'.kind f).trans (h.kind f)
  thread := h'.thread.trans h.thread

theorem same_trans (h : Marks [] s s') (h' : Marks [] s' s'') : Marks [] s s'' := h.trans h'

theorem then_same (h : Marks jobs s s') (h' : Marks [] s' s'') : Marks jobs s s'' := by
  have hall := h.trans h'
  rw [List.append_nil] at hall
  exact hall

theorem setFlow {g : NlmFlow → NlmFlow} (s : NlmDevice) (f : ℕ)
    (htype : (g (s.flows f)).type = (s.flows f).type)
    (hkind : (g (s.flows f)).isStateless = (s.flows f).isStateless) :
    Marks [] s (s.setFlow f g) := by
  refine ⟨fun _ hj ↦ absurd hj List.not_mem_nil, fun _ _ ↦ rfl, fun _ ↦ rfl, fun _ ↦ rfl,
    fun _ ↦ rfl, fun i ↦ ?_, fun i ↦ ?_, rfl⟩
  · change (Function.update s.flows f (g (s.flows f)) i).type = _
    rcases eq_or_ne i f with rfl | hne
    · rw [Function.update_self, htype]
    · rw [Function.update_of_ne hne]
  · change (Function.update s.flows f (g (s.flows f)) i).isStateless = _
    rcases eq_or_ne i f with rfl | hne
    · rw [Function.update_self, hkind]
    · rw [Function.update_of_ne hne]

theorem setJob {g : NlmJob → NlmJob} (s : NlmDevice) (j : ℕ)
    (hpd : (g (s.jobs j)).pd = (s.jobs j).pd) (hflow : (g (s.jobs j)).flow = (s.jobs j).flow) :
    Marks [] s (s.setJob j g) := by
  refine ⟨fun _ hj ↦ absurd hj List.not_mem_nil, fun _ _ ↦ rfl, fun _ ↦ rfl, fun i ↦ ?_, fun i ↦ ?_,
    fun _ ↦ rfl, fun _ ↦ rfl, rfl⟩
  · change (Function.update s.jobs j (g (s.jobs j)) i).pd = _
    rcases eq_or_ne i j with rfl | hne
    · rw [Function.update_self, hpd]
    · rw [Function.update_of_ne hne]
  · change (Function.update s.jobs j (g (s.jobs j)) i).flow = _
    rcases eq_or_ne i j with rfl | hne
    · rw [Function.update_self, hflow]
    · rw [Function.update_of_ne hne]

theorem setPd {g : HwPdDescriptor → HwPdDescriptor} (s : NlmDevice) (p : ℕ)
    (hmark : (g (s.pds p)).rsv01 = (s.pds p).rsv01)
    (hcookie : (g (s.pds p)).cookie = (s.pds p).cookie) : Marks [] s (s.setPd p g) := by
  refine ⟨fun _ hj ↦ absurd hj List.not_mem_nil, fun q _ ↦ ?_, fun q ↦ ?_, fun _ ↦ rfl,
    fun _ ↦ rfl, fun _ ↦ rfl, fun _ ↦ rfl, rfl⟩
  · change (Function.update s.pds p (g (s.pds p)) q).rsv01 = _
    rcases eq_or_ne q p with rfl | hne
    · rw [Function.update_self, hmark]
    · rw [Function.update_of_ne hne]
  · change (Function.update s.pds p (g (s.pds p)) q).cookie = _
    rcases eq_or_ne q p with rfl | hne
    · rw [Function.update_self, hcookie]
    · rw [Function.update_of_ne hne]

theorem startPd {g : HwPdDescriptor → HwPdDescriptor} {p : ℕ} (hp : (s.jobs j).pd = some p)
    (hmark : (g (s.pds p)).rsv01 = .validAndStarted)
    (hcookie : (g (s.pds p)).cookie = (s.pds p).cookie) : Marks [j] s (s.setPd p g) := by
  refine ⟨fun i hi q hq ↦ ?_, fun q hq ↦ ?_, fun q ↦ ?_, fun _ ↦ rfl, fun _ ↦ rfl, fun _ ↦ rfl,
    fun _ ↦ rfl, rfl⟩
  · rw [List.mem_singleton.mp hi, hp] at hq
    cases hq
    change (Function.update s.pds p (g (s.pds p)) p).rsv01 = _
    rw [Function.update_self, hmark]
  · have hne : q ≠ p := fun heq ↦ hq j List.mem_cons_self (heq ▸ hp)
    change (Function.update s.pds p (g (s.pds p)) q).rsv01 = _
    rw [Function.update_of_ne hne]
  · change (Function.update s.pds p (g (s.pds p)) q).cookie = _
    rcases eq_or_ne q p with rfl | hne
    · rw [Function.update_self, hcookie]
    · rw [Function.update_of_ne hne]

theorem removeFlowFromPending (s : NlmDevice) (f : ℕ) :
    Marks [] s (s.nlmDeviceRemoveFlowFromPending f) :=
  (of_same rfl rfl rfl rfl : Marks [] s { s with pendingFlowList := s.pendingFlowList.tail }).trans
    (setFlow _ f rfl rfl)

theorem takeFds (s : NlmDevice) (n : ℕ) : Marks [] s (s.takeFds n) := by
  unfold NlmDevice.takeFds
  split
  · exact of_same rfl rfl rfl rfl
  · exact of_same rfl rfl rfl rfl

theorem allocFd {slot : ℕ} (halloc : s.sysmemAllocFd = some (slot, s')) : Marks [] s s' := by
  unfold sysmemAllocFd at halloc
  split at halloc
  · cases halloc
  · cases halloc
    exact of_same rfl rfl rfl rfl

theorem addJobToList (s : NlmDevice) (f j p : ℕ) : Marks [] s (s.nlmFlowAddJobToList f j p) := by
  unfold NlmDevice.nlmFlowAddJobToList
  refine same_trans ?_ (setFlow _ f rfl rfl)
  split
  · refine same_trans ?_ (setPd _ _ rfl rfl)
    split
    · exact setPd _ _ rfl rfl
    · exact refl s
  · split
    · have hhead : Marks [] s (s.setFlow f fun flow ↦ { flow with pendingPdHead := some p }) :=
        setFlow s f rfl rfl
      exact hhead.trans (of_same rfl rfl rfl rfl)
    · exact refl s

end Marks

theorem startPendingPdChain_marks {status : NlmStatus}
    (h : s.nlmFlowStartPendingPdChain f = .ok (status, s')) : Marks [] s s' := by
  unfold nlmFlowStartPendingPdChain at h
  split at h
  · cases h
  · simp only at h
    split at h
    · split at h
      · cases h
      · obtain ⟨-, -, h⟩ := bind_eq_ok h
        cases h
        exact (Marks.removeFlowFromPending s f).trans (.of_same rfl rfl rfl rfl)
    · split at h
      · cases h
        exact .refl s
      · next slot s₁ halloc =>
        obtain ⟨-, -, h⟩ := bind_eq_ok h
        cases h
        exact (Marks.allocFd halloc).trans
          ((Marks.removeFlowFromPending s₁ f).trans (.of_same rfl rfl rfl rfl))

theorem tryStartLoop_marks {fuel i : ℕ} (h : tryStartLoop taken fuel i s = .ok s') :
    Marks [] s s' := by
  induction fuel generalizing s i with
  | zero =>
    cases h
    exact .refl _
  | succ fuel ih =>
    unfold tryStartLoop at h
    refine (Marks.takeFds s (taken i)).same_trans ?_
    simp only at h
    split at h
    · cases h
      exact .refl _
    · obtain ⟨⟨status, s₁⟩, hstart, h⟩ := bind_eq_ok h
      refine (startPendingPdChain_marks hstart).same_trans ?_
      split at h
      · cases h
        exact .refl _
      · exact ih h

theorem tryStart_marks (h : s.nlmTryStartStatefulFlows taken = .ok s') : Marks [] s s' := by
  unfold nlmTryStartStatefulFlows at h
  obtain ⟨s₁, hloop, h⟩ := bind_eq_ok h
  refine (tryStartLoop_marks hloop).same_trans ?_
  cases h
  split
  · exact .of_same rfl rfl rfl rfl
  · exact .refl s₁

theorem startStatefulJob_marks (h : s.startStatefulJob j = .ok s') : Marks [j] s s' := by
  unfold startStatefulJob at h
  split at h
  · next f p hf hp =>
    obtain ⟨-, -, h⟩ := bind_eq_ok h
    obtain ⟨-, -, h⟩ := bind_eq_ok h
    cases h
    have hoffset : Marks [] s (s.setJob j fun job ↦
        { job with flowOffset := (s.flows f).flowOffset }) := Marks.setJob s j rfl rfl
    have hflow : Marks [] (s.setJob j fun job ↦ { job with flowOffset := (s.flows f).flowOffset })
        ((s.setJob j fun job ↦ { job with flowOffset := (s.flows f).flowOffset }).setFlow f
          fun flow ↦ { flow with
            flowOffset := (flow.flowOffset + (s.pds p).packetByteCount) % 2 ^ 64 }) :=
      Marks.setFlow _ f rfl rfl
    have hbefore := (hoffset.trans hflow).trans (Marks.addJobToList _ f j p)
    exact hbefore.trans (Marks.startPd ((hbefore.jobs_pd j).trans hp) rfl rfl)
  · cases h

theorem foldlM_startStatefulJob_marks (h : jobs.foldlM startStatefulJob s = .ok s') :
    Marks jobs s s' := by
  induction jobs generalizing s with
  | nil =>
    cases h
    exact .refl _
  | cons j jobs ih =>
    rw [List.foldlM_cons] at h
    obtain ⟨s₁, hj, h⟩ := bind_eq_ok h
    exact (startStatefulJob_marks hj).trans (ih h)

/-- The stateful half marks the stateful jobs of the batch. -/
theorem startStateful_marks {status : NlmStatus}
    (h : s.startStateful taken jobs = .ok (status, s')) :
    Marks (jobs.filter fun j ↦ s.jobType j = .stateful) s s' := by
  unfold startStateful at h
  split at h
  · next hzero =>
    cases h
    have hnone : (jobs.filter fun j ↦ s.jobType j = .stateful) = [] := by
      apply List.filter_eq_nil_iff.mpr
      exact fun j hj ↦ List.countP_eq_zero.mp hzero j hj
    rw [hnone]
    exact .refl s
  · obtain ⟨s₁, hjobs, h⟩ := bind_eq_ok h
    obtain ⟨s₂, htry, h⟩ := bind_eq_ok h
    cases h
    exact (foldlM_startStatefulJob_marks hjobs).then_same (tryStart_marks htry)

theorem startStatelessJob_marks (h : s.startStatelessJob j = some s') : Marks [] s s' := by
  unfold startStatelessJob at h
  split at h
  · cases h
  · next slot s₁ halloc =>
    cases h
    have hfd : Marks [] s₁ (s₁.setFd slot (s₁.jobs j).fd) := .of_same rfl rfl rfl rfl
    exact ((Marks.allocFd halloc).trans hfd).trans
      ((Marks.setFlow _ _ rfl rfl).trans (Marks.setJob _ j rfl rfl))

theorem startStatelessLoop_marks (taken : ℕ → ℕ) (s : NlmDevice) (jobs : List ℕ) :
    Marks [] s (startStatelessLoop taken s jobs).2 := by
  induction jobs generalizing s taken with
  | nil => exact .refl s
  | cons j jobs ih =>
    unfold startStatelessLoop
    split
    · have htake := Marks.takeFds s (taken 0)
      cases hstart : (s.takeFds (taken 0)).startStatelessJob j with
      | none => exact htake
      | some s₁ => exact (htake.trans (startStatelessJob_marks hstart)).trans (ih _ s₁)
    · exact ih taken s

theorem startStateless_marks {status : NlmStatus}
    (h : s.startStateless taken jobs = .ok (status, s')) : Marks [] s s' := by
  have hloop := startStatelessLoop_marks taken s jobs
  unfold startStateless at h
  split at h
  · cases h
    exact .refl s
  · split at h
    · split at h
      · cases h
        exact .refl s
      · obtain ⟨fifo, -, h⟩ := bind_eq_ok h
        cases h
        exact .of_same rfl rfl rfl rfl
    · split at h
      · next s₁ heq =>
        cases h
        rw [heq] at hloop
        exact hloop.trans (.of_same rfl rfl rfl rfl)
      · next s₁ heq =>
        cases h
        rw [heq] at hloop
        split
        · exact hloop.trans (.of_same rfl rfl rfl rfl)
        · exact hloop

/-- A call of `nlm_start_jobs` that succeeds marks the stateful jobs of the batch,
one that fails marks nothing. -/
theorem startJobs_marks {batch : List (Option ℕ)} {status : NlmStatus}
    (h : s.nlmStartJobs taken batch = .ok (status, s')) :
    status = .ok ∧ batch.findSome? s.jobError = none ∧
        Marks (batch.reduceOption.filter fun j ↦ s.jobType j = .stateful) s s' ∨
      status ≠ .ok ∧ Marks [] s s' := by
  by_cases hne : batch = []
  · unfold nlmStartJobs at h
    rw [if_pos hne] at h
    cases h
    exact .inr ⟨by decide, .refl s⟩
  · cases hcheck : batch.findSome? s.jobError with
    | some err =>
      unfold nlmStartJobs at h
      rw [if_neg hne, hcheck] at h
      cases h
      obtain ⟨entry, -, herr⟩ := List.exists_of_findSome?_eq_some hcheck
      exact .inr ⟨jobError_ne_ok herr, .refl s⟩
    | none =>
      rw [nlmStartJobs_of_check hne hcheck] at h
      obtain ⟨⟨status₁, s₁⟩, hstateless, h⟩ := bind_eq_ok h
      have hbefore := startStateless_marks hstateless
      split at h
      · next hstatus =>
        cases h
        exact .inr ⟨hstatus, hbefore⟩
      · have htype : s₁.jobType = s.jobType := jobType_congr hbefore.jobs_flow hbefore.type_eq
        have hstarted := startStateful_marks h
        rw [htype] at hstarted
        exact .inl ⟨startStateful_status h, rfl, hbefore.trans hstarted⟩

end NlmDevice

end NetL7.Packet
