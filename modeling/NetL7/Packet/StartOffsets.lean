import NetL7.Packet.Marks

/-!
# The offsets that a start records

Of all that `nlm_start_jobs` does, only the start of a stateful job moves the offset
of a flow on. The job keeps the offset that its flow had before.
-/

namespace NetL7.Packet

namespace NlmDevice

variable {s s' s'' : NlmDevice} {f j : ℕ} {jobs : List ℕ} {taken : ℕ → ℕ}

/-- From `s` to `s'` the jobs keep their flows, their PDs and the sizes of these. -/
structure SameWork (s s' : NlmDevice) : Prop where
  job_pd : ∀ j, (s'.jobs j).pd = (s.jobs j).pd
  job_flow : ∀ j, (s'.jobs j).flow = (s.jobs j).flow
  bytes : ∀ p, (s'.pds p).packetByteCount = (s.pds p).packetByteCount

theorem SameWork.refl (s : NlmDevice) : SameWork s s := ⟨fun _ ↦ rfl, fun _ ↦ rfl, fun _ ↦ rfl⟩

theorem SameWork.trans (h : SameWork s s') (h' : SameWork s' s'') : SameWork s s'' where
  job_pd := fun j ↦ (h'.job_pd j).trans (h.job_pd j)
  job_flow := fun j ↦ (h'.job_flow j).trans (h.job_flow j)
  bytes := fun p ↦ (h'.bytes p).trans (h.bytes p)

theorem SameWork.setJob {g : NlmJob → NlmJob} (s : NlmDevice) (j : ℕ)
    (hpd : (g (s.jobs j)).pd = (s.jobs j).pd) (hflow : (g (s.jobs j)).flow = (s.jobs j).flow) :
    SameWork s (s.setJob j g) := by
  refine ⟨fun i ↦ ?_, fun i ↦ ?_, fun _ ↦ rfl⟩
  · change (Function.update s.jobs j (g (s.jobs j)) i).pd = _
    rcases eq_or_ne i j with rfl | hne
    · rw [Function.update_self, hpd]
    · rw [Function.update_of_ne hne]
  · change (Function.update s.jobs j (g (s.jobs j)) i).flow = _
    rcases eq_or_ne i j with rfl | hne
    · rw [Function.update_self, hflow]
    · rw [Function.update_of_ne hne]

theorem setJob_flowOffset (s : NlmDevice) (j : ℕ) (g : NlmJob → NlmJob) (i : ℕ) :
    ((s.setJob j g).jobs i).flowOffset =
      if i = j then (g (s.jobs j)).flowOffset else (s.jobs i).flowOffset := by
  change (Function.update s.jobs j (g (s.jobs j)) i).flowOffset = _
  split
  · next heq => rw [heq, Function.update_self]
  · next hne => rw [Function.update_of_ne hne]

theorem setJob_pd (s : NlmDevice) (j : ℕ) (g : NlmJob → NlmJob) (i : ℕ) :
    ((s.setJob j g).jobs i).pd = if i = j then (g (s.jobs j)).pd else (s.jobs i).pd := by
  change (Function.update s.jobs j (g (s.jobs j)) i).pd = _
  split
  · next heq => rw [heq, Function.update_self]
  · next hne => rw [Function.update_of_ne hne]

theorem setFlow_flowOffset (s : NlmDevice) (f : ℕ) (g : NlmFlow → NlmFlow) (i : ℕ) :
    ((s.setFlow f g).flows i).flowOffset =
      if i = f then (g (s.flows f)).flowOffset else (s.flows i).flowOffset := by
  change (Function.update s.flows f (g (s.flows f)) i).flowOffset = _
  split
  · next heq => rw [heq, Function.update_self]
  · next hne => rw [Function.update_of_ne hne]

/-- All offsets are the same, too. -/
structure Offsets (s s' : NlmDevice) : Prop extends SameWork s s' where
  flow : ∀ f, (s'.flows f).flowOffset = (s.flows f).flowOffset
  job : ∀ j, (s'.jobs j).flowOffset = (s.jobs j).flowOffset

namespace Offsets

theorem of_same (hflows : s'.flows = s.flows) (hjobs : s'.jobs = s.jobs) (hpds : s'.pds = s.pds) :
    Offsets s s' := by
  refine ⟨⟨fun j ↦ ?_, fun j ↦ ?_, fun p ↦ ?_⟩, fun f ↦ ?_, fun j ↦ ?_⟩
  · rw [hjobs]
  · rw [hjobs]
  · rw [hpds]
  · rw [hflows]
  · rw [hjobs]

theorem refl (s : NlmDevice) : Offsets s s := of_same rfl rfl rfl

theorem trans (h : Offsets s s') (h' : Offsets s' s'') : Offsets s s'' where
  toSameWork := h.toSameWork.trans h'.toSameWork
  flow := fun f ↦ (h'.flow f).trans (h.flow f)
  job := fun j ↦ (h'.job j).trans (h.job j)

theorem setFlow {g : NlmFlow → NlmFlow} (s : NlmDevice) (f : ℕ)
    (hoffset : (g (s.flows f)).flowOffset = (s.flows f).flowOffset) :
    Offsets s (s.setFlow f g) := by
  refine ⟨⟨fun _ ↦ rfl, fun _ ↦ rfl, fun _ ↦ rfl⟩, fun i ↦ ?_, fun _ ↦ rfl⟩
  rw [setFlow_flowOffset]
  split
  · next heq => rw [hoffset, heq]
  · rfl

theorem setPd {g : HwPdDescriptor → HwPdDescriptor} (s : NlmDevice) (p : ℕ)
    (hbytes : (g (s.pds p)).packetByteCount = (s.pds p).packetByteCount) :
    Offsets s (s.setPd p g) := by
  refine ⟨⟨fun _ ↦ rfl, fun _ ↦ rfl, fun q ↦ ?_⟩, fun _ ↦ rfl, fun _ ↦ rfl⟩
  change (Function.update s.pds p (g (s.pds p)) q).packetByteCount = _
  rcases eq_or_ne q p with rfl | hne
  · rw [Function.update_self, hbytes]
  · rw [Function.update_of_ne hne]

theorem removeFlowFromPending (s : NlmDevice) (f : ℕ) :
    Offsets s (s.nlmDeviceRemoveFlowFromPending f) :=
  (of_same rfl rfl rfl : Offsets s { s with pendingFlowList := s.pendingFlowList.tail }).trans
    (setFlow _ f rfl)

theorem takeFds (s : NlmDevice) (n : ℕ) : Offsets s (s.takeFds n) := by
  unfold NlmDevice.takeFds
  split
  · exact of_same rfl rfl rfl
  · exact of_same rfl rfl rfl

theorem allocFd {slot : ℕ} (halloc : s.sysmemAllocFd = some (slot, s')) : Offsets s s' := by
  unfold sysmemAllocFd at halloc
  split at halloc
  · cases halloc
  · cases halloc
    exact of_same rfl rfl rfl

theorem addJobToList (s : NlmDevice) (f j p : ℕ) : Offsets s (s.nlmFlowAddJobToList f j p) := by
  unfold NlmDevice.nlmFlowAddJobToList
  refine trans ?_ (setFlow _ f rfl)
  split
  · refine trans ?_ (setPd _ _ rfl)
    split
    · exact setPd _ _ rfl
    · exact refl s
  · split
    · have hhead : Offsets s (s.setFlow f fun flow ↦ { flow with pendingPdHead := some p }) :=
        setFlow s f rfl
      exact hhead.trans (of_same rfl rfl rfl)
    · exact refl s

end Offsets

theorem startPendingPdChain_offsets {status : NlmStatus}
    (h : s.nlmFlowStartPendingPdChain f = .ok (status, s')) : Offsets s s' := by
  unfold nlmFlowStartPendingPdChain at h
  split at h
  · cases h
  · simp only at h
    split at h
    · split at h
      · cases h
      · obtain ⟨-, -, h⟩ := bind_eq_ok h
        cases h
        exact (Offsets.removeFlowFromPending s f).trans (.of_same rfl rfl rfl)
    · split at h
      · cases h
        exact .refl s
      · next slot s₁ halloc =>
        obtain ⟨-, -, h⟩ := bind_eq_ok h
        cases h
        exact (Offsets.allocFd halloc).trans
          ((Offsets.removeFlowFromPending s₁ f).trans (.of_same rfl rfl rfl))

theorem tryStartLoop_offsets {fuel i : ℕ} (h : tryStartLoop taken fuel i s = .ok s') :
    Offsets s s' := by
  induction fuel generalizing s i with
  | zero =>
    cases h
    exact .refl _
  | succ fuel ih =>
    unfold tryStartLoop at h
    refine (Offsets.takeFds s (taken i)).trans ?_
    simp only at h
    split at h
    · cases h
      exact .refl _
    · obtain ⟨⟨status, s₁⟩, hstart, h⟩ := bind_eq_ok h
      refine (startPendingPdChain_offsets hstart).trans ?_
      split at h
      · cases h
        exact .refl _
      · exact ih h

theorem tryStart_offsets (h : s.nlmTryStartStatefulFlows taken = .ok s') : Offsets s s' := by
  unfold nlmTryStartStatefulFlows at h
  obtain ⟨s₁, hloop, h⟩ := bind_eq_ok h
  refine (tryStartLoop_offsets hloop).trans ?_
  cases h
  split
  · exact .of_same rfl rfl rfl
  · exact .refl s₁

/-! ## Stateless jobs -/

/-- From `s` to `s'` the offsets of the flows are the same, and those of the jobs too,
unless the job is stateless and its offset became 0. -/
structure Cleared (s s' : NlmDevice) : Prop extends SameWork s s' where
  flow : ∀ f, (s'.flows f).flowOffset = (s.flows f).flowOffset
  job : ∀ j, (s'.jobs j).flowOffset = (s.jobs j).flowOffset ∨
    (s'.jobs j).flowOffset = 0 ∧ s.jobType j = .stateless

theorem Offsets.cleared (h : Offsets s s') : Cleared s s' where
  toSameWork := h.toSameWork
  flow := h.flow
  job := fun j ↦ .inl (h.job j)

theorem Cleared.trans (h : Cleared s s') (h' : Cleared s' s'') (htype : s'.jobType = s.jobType) :
    Cleared s s'' where
  toSameWork := h.toSameWork.trans h'.toSameWork
  flow := fun f ↦ (h'.flow f).trans (h.flow f)
  job := fun j ↦ by
    rcases h'.job j with hsame | ⟨hzero, hj⟩
    · rcases h.job j with hbefore | ⟨hzero, hj⟩
      · exact .inl (hsame.trans hbefore)
      · exact .inr ⟨hsame.trans hzero, hj⟩
    · exact .inr ⟨hzero, htype ▸ hj⟩

theorem startStatelessJob_cleared (hj : s.jobType j = .stateless)
    (h : s.startStatelessJob j = some s') :
    Cleared s s' ∧ (s'.jobs j).flowOffset = 0 := by
  unfold startStatelessJob at h
  split at h
  · cases h
  · next slot s₁ halloc =>
    cases h
    have hbefore : Offsets s ((s₁.setFd slot (s₁.jobs j).fd).setFlow ((s₁.jobs j).flow.getD 0)
        fun flow ↦ { flow with jobSeqId := (flow.jobSeqId + 1) % 2 ^ 32 }) := by
      have hfd : Offsets s₁ (s₁.setFd slot (s₁.jobs j).fd) := .of_same rfl rfl rfl
      exact ((Offsets.allocFd halloc).trans hfd).trans (.setFlow _ _ rfl)
    refine ⟨⟨hbefore.toSameWork.trans (.setJob _ j rfl rfl), hbefore.flow, fun i ↦ ?_⟩, ?_⟩
    · rw [setJob_flowOffset]
      split
      · next heq => exact .inr ⟨rfl, heq ▸ hj⟩
      · exact .inl (hbefore.job i)
    · rw [setJob_flowOffset, if_pos rfl]

theorem startStatelessLoop_cleared (taken : ℕ → ℕ) (s : NlmDevice) (jobs : List ℕ) :
    Cleared s (startStatelessLoop taken s jobs).2 ∧ ((startStatelessLoop taken s jobs).1 = true →
      ∀ j ∈ jobs, s.jobType j = .stateless →
        ((startStatelessLoop taken s jobs).2.jobs j).flowOffset = 0) := by
  induction jobs generalizing s taken with
  | nil => exact ⟨(Offsets.refl s).cleared, fun _ j hj ↦ absurd hj List.not_mem_nil⟩
  | cons j jobs ih =>
    unfold startStatelessLoop
    split
    · next hj =>
      have htake := Marks.takeFds s (taken 0)
      have htypeTake : (s.takeFds (taken 0)).jobType = s.jobType :=
        jobType_congr htake.jobs_flow htake.type_eq
      have hclearedTake := (Offsets.takeFds s (taken 0)).cleared
      cases hstart : (s.takeFds (taken 0)).startStatelessJob j with
      | none => exact ⟨hclearedTake, fun h ↦ by cases h⟩
      | some s₁ =>
        have hmarks := htake.trans (startStatelessJob_marks hstart)
        have htype : s₁.jobType = s.jobType := jobType_congr hmarks.jobs_flow hmarks.type_eq
        obtain ⟨hstarted, hzero⟩ :=
          startStatelessJob_cleared (htypeTake.symm ▸ hj) hstart
        have hcleared := hclearedTake.trans hstarted htypeTake
        obtain ⟨hrest, hall⟩ := ih (fun i ↦ taken (i + 1)) s₁
        refine ⟨hcleared.trans hrest htype, fun hok i hi hstateless ↦ ?_⟩
        cases List.mem_cons.mp hi with
        | inl heq =>
            rcases hrest.job j with hsame | ⟨hlater, -⟩
            · rw [heq]
              exact hsame.trans hzero
            · rw [heq]
              exact hlater
        | inr hi => exact hall hok i hi (htype ▸ hstateless)
    · next hj =>
      obtain ⟨hrest, hall⟩ := ih taken s
      refine ⟨hrest, fun hok i hi hstateless ↦ ?_⟩
      cases List.mem_cons.mp hi with
      | inl heq => exact absurd (heq ▸ hstateless) hj
      | inr hi => exact hall hok i hi hstateless

/-- Only without a manager thread are the offsets of the stateless jobs cleared. -/
theorem startStateless_cleared {status : NlmStatus}
    (h : s.startStateless taken jobs = .ok (status, s')) :
    Cleared s s' ∧ (status = .ok → s.swJobFifo = none →
      ∀ j ∈ jobs, s.jobType j = .stateless → (s'.jobs j).flowOffset = 0) := by
  obtain ⟨hloop, hall⟩ := startStatelessLoop_cleared taken s jobs
  unfold startStateless at h
  split at h
  · next hzero =>
    cases h
    refine ⟨(Offsets.refl s).cleared, fun _ _ j hj hstateless ↦ ?_⟩
    exact absurd (decide_eq_true hstateless) (List.countP_eq_zero.mp hzero j hj)
  · split at h
    · next fifo hfifo =>
      have hsome : s.swJobFifo ≠ none := by
        rw [hfifo]
        exact Option.some_ne_none _
      split at h
      · cases h
        exact ⟨(Offsets.refl s).cleared, fun _ hnone ↦ absurd hnone hsome⟩
      · obtain ⟨fifo', -, h⟩ := bind_eq_ok h
        cases h
        have hsame : Offsets s { s with swJobFifo := some fifo' } := .of_same rfl rfl rfl
        exact ⟨hsame.cleared, fun _ hnone ↦ absurd hnone hsome⟩
    · split at h
      · next s₁ heq =>
        cases h
        rw [heq] at hloop
        refine ⟨⟨⟨hloop.job_pd, hloop.job_flow, hloop.bytes⟩, hloop.flow, hloop.job⟩, ?_⟩
        exact fun hok ↦ by cases hok
      · next s₁ heq =>
        cases h
        rw [heq] at hloop hall
        split
        · exact ⟨⟨⟨hloop.job_pd, hloop.job_flow, hloop.bytes⟩, hloop.flow, hloop.job⟩,
            fun _ _ ↦ hall rfl⟩
        · exact ⟨hloop, fun _ _ ↦ hall rfl⟩

end NlmDevice

/-! ## Stateful jobs -/

/-- How many bytes of each flow have been started, and at which byte of its flow the
packet of each job begins. -/
structure Account where
  total : ℕ → ℕ
  start : ℕ → ℕ

/-- A job of a stateful flow is started. -/
def Account.begin (s : NlmDevice) (a : Account) (j : ℕ) : Account :=
  match (s.jobs j).flow, (s.jobs j).pd with
  | some f, some p =>
    { total := Function.update a.total f (a.total f + (s.pds p).packetByteCount)
      start := Function.update a.start j (a.total f) }
  | _, _ => a

/-- The flows hold the numbers of bytes, as far as 64 bits can. -/
def Account.Agrees (s : NlmDevice) (a : Account) : Prop :=
  ∀ f, (s.flows f).flowOffset = a.total f % 2 ^ 64

theorem Account.begin_congr {s s' : NlmDevice} (h : NlmDevice.SameWork s s') :
    Account.begin s' = Account.begin s := by
  funext a j
  unfold Account.begin
  rw [h.job_flow, h.job_pd]
  split
  · rw [h.bytes]
  · rfl

theorem Account.begin_of_pd {s : NlmDevice} {j : ℕ} (h : (s.jobs j).pd = none) (a : Account) :
    a.begin s j = a := by
  unfold Account.begin
  rw [h]
  split
  · next heq => cases heq
  · rfl

theorem Account.begin_of_some {s : NlmDevice} {f j p : ℕ} (hf : (s.jobs j).flow = some f)
    (hp : (s.jobs j).pd = some p) (a : Account) :
    a.begin s j =
      { total := Function.update a.total f (a.total f + (s.pds p).packetByteCount)
        start := Function.update a.start j (a.total f) } := by
  unfold Account.begin
  rw [hf, hp]

/-- Jobs without a PD may be left out. -/
theorem Account.foldl_begin_filter {s : NlmDevice} {P : ℕ → Prop} [DecidablePred P]
    {jobs : List ℕ} (h : ∀ j ∈ jobs, ¬ P j → (s.jobs j).pd = none) (a : Account) :
    (jobs.filter fun j ↦ P j).foldl (Account.begin s) a = jobs.foldl (Account.begin s) a := by
  induction jobs generalizing a with
  | nil => rfl
  | cons j jobs ih =>
      have hrest := fun i hi ↦ h i (List.mem_cons_of_mem _ hi)
      by_cases hj : P j
      · rw [List.filter_cons_of_pos (by simpa using hj), List.foldl_cons, List.foldl_cons]
        exact ih hrest _
      · rw [List.filter_cons_of_neg (by simpa using hj), List.foldl_cons,
          Account.begin_of_pd (h j List.mem_cons_self hj)]
        exact ih hrest _

namespace NlmDevice

variable {s s' : NlmDevice} {f j : ℕ} {jobs : List ℕ} {taken : ℕ → ℕ} {a : Account}

theorem startStatefulJob_offsets (h : s.startStatefulJob j = .ok s') (ha : a.Agrees s) :
    SameWork s s' ∧ (a.begin s j).Agrees s' ∧
      (s'.jobs j).flowOffset = (a.begin s j).start j % 2 ^ 64 ∧
      ∀ i ≠ j, (s'.jobs i).flowOffset = (s.jobs i).flowOffset ∧
        (a.begin s j).start i = a.start i := by
  unfold startStatefulJob at h
  split at h
  · next f p hf hp =>
    obtain ⟨-, -, h⟩ := bind_eq_ok h
    obtain ⟨-, -, h⟩ := bind_eq_ok h
    cases h
    rw [Account.begin_of_some hf hp]
    have hafter := (Offsets.addJobToList ((s.setJob j fun job ↦
      { job with flowOffset := (s.flows f).flowOffset }).setFlow f fun flow ↦
        { flow with flowOffset := (flow.flowOffset + (s.pds p).packetByteCount) % 2 ^ 64 })
      f j p).trans (Offsets.setPd _ p
        (g := fun pd ↦ { pd with rsv01 := .validAndStarted }) rfl)
    have hoffset : ∀ i, ((s.setJob j fun job ↦
        { job with flowOffset := (s.flows f).flowOffset }).jobs i).flowOffset =
          if i = j then (s.flows f).flowOffset else (s.jobs i).flowOffset :=
      setJob_flowOffset s j fun job ↦ { job with flowOffset := (s.flows f).flowOffset }
    refine ⟨?_, fun g ↦ ?_, ?_, fun i hi ↦ ⟨?_, Function.update_of_ne hi ..⟩⟩
    · have hjob : SameWork s (s.setJob j fun job ↦
        { job with flowOffset := (s.flows f).flowOffset }) := .setJob s j rfl rfl
      exact hjob.trans ⟨hafter.job_pd, hafter.job_flow, hafter.bytes⟩
    · refine (hafter.flow g).trans ?_
      rw [setFlow_flowOffset]
      rcases eq_or_ne g f with rfl | hne
      · rw [if_pos rfl]
        change ((s.flows g).flowOffset + (s.pds p).packetByteCount) % 2 ^ 64 =
          Function.update a.total g (a.total g + (s.pds p).packetByteCount) g % 2 ^ 64
        rw [Function.update_self, ha g, Nat.mod_add_mod]
      · have hout : Function.update a.total f (a.total f + (s.pds p).packetByteCount) g =
          a.total g := Function.update_of_ne hne ..
        rw [if_neg hne]
        exact (ha g).trans (congrArg (· % 2 ^ 64) hout.symm)
    · have hself : Function.update a.start j (a.total f) j = a.total f := Function.update_self ..
      have hj := (hafter.job j).trans (hoffset j)
      rw [if_pos rfl] at hj
      exact hj.trans ((ha f).trans (congrArg (· % 2 ^ 64) hself.symm))
    · have hother := (hafter.job i).trans (hoffset i)
      rwa [if_neg hi] at hother
  · cases h

theorem foldlM_startStatefulJob_offsets (h : jobs.foldlM startStatefulJob s = .ok s')
    (ha : a.Agrees s) :
    SameWork s s' ∧ (jobs.foldl (Account.begin s) a).Agrees s' ∧
      (∀ j ∈ jobs, (s'.jobs j).flowOffset =
        (jobs.foldl (Account.begin s) a).start j % 2 ^ 64) ∧
      ∀ j ∉ jobs, (s'.jobs j).flowOffset = (s.jobs j).flowOffset ∧
        (jobs.foldl (Account.begin s) a).start j = a.start j := by
  induction jobs generalizing s a with
  | nil =>
    cases h
    exact ⟨.refl _, ha, fun j hj ↦ absurd hj List.not_mem_nil, fun _ _ ↦ ⟨rfl, rfl⟩⟩
  | cons i jobs ih =>
    rw [List.foldlM_cons] at h
    obtain ⟨s₁, hi, h⟩ := bind_eq_ok h
    obtain ⟨hwork, hagree, hself, hother⟩ := startStatefulJob_offsets hi ha
    obtain ⟨hrest, hfinal, hmem, hnot⟩ := ih h hagree
    rw [Account.begin_congr hwork] at hfinal hmem hnot
    refine ⟨hwork.trans hrest, hfinal, fun j hj ↦ ?_, fun j hj ↦ ?_⟩
    · by_cases hin : j ∈ jobs
      · exact hmem j hin
      · have hji : j = i := (List.mem_cons.mp hj).resolve_right hin
        obtain ⟨hoffset, hstart⟩ := hnot j hin
        rw [List.foldl_cons, hoffset, hstart, hji]
        exact hself
    · obtain ⟨hne, hin⟩ := not_or.mp fun hor ↦ hj (List.mem_cons.mpr hor)
      obtain ⟨hoffset, hstart⟩ := hnot j hin
      obtain ⟨hoffset', hstart'⟩ := hother j hne
      exact ⟨hoffset.trans hoffset', hstart.trans hstart'⟩

/-- What a start that succeeds does to the offsets. -/
structure StartedOffsets (s s' : NlmDevice) (jobs : List ℕ) (a a' : Account) : Prop
    extends SameWork s s' where
  agrees : a'.Agrees s'
  stateful : ∀ j ∈ jobs, s.jobType j = .stateful →
    (s'.jobs j).flowOffset = a'.start j % 2 ^ 64
  stateless : s.swJobFifo = none → ∀ j ∈ jobs, s.jobType j = .stateless →
    (s'.jobs j).flowOffset = 0
  other : ∀ j, ¬ (j ∈ jobs ∧ s.jobType j = .stateful) → a'.start j = a.start j ∧
    ((s'.jobs j).flowOffset = (s.jobs j).flowOffset ∨
      (s'.jobs j).flowOffset = 0 ∧ s.jobType j = .stateless)

theorem startStateful_offsets {status : NlmStatus} (ha : a.Agrees s)
    (h : s.startStateful taken jobs = .ok (status, s')) :
    let a' := (jobs.filter fun j ↦ s.jobType j = .stateful).foldl (Account.begin s) a
    SameWork s s' ∧ a'.Agrees s' ∧
      (∀ j ∈ jobs, s.jobType j = .stateful → (s'.jobs j).flowOffset = a'.start j % 2 ^ 64) ∧
      ∀ j, ¬ (j ∈ jobs ∧ s.jobType j = .stateful) →
        (s'.jobs j).flowOffset = (s.jobs j).flowOffset ∧ a'.start j = a.start j := by
  intro a'
  unfold startStateful at h
  split at h
  · next hzero =>
    cases h
    have hnone : (jobs.filter fun j ↦ s.jobType j = .stateful) = [] := by
      apply List.filter_eq_nil_iff.mpr
      exact fun j hj ↦ List.countP_eq_zero.mp hzero j hj
    have ha' : a' = a := by
      change List.foldl _ _ (jobs.filter fun j ↦ s.jobType j = .stateful) = a
      rw [hnone]
      rfl
    rw [ha']
    refine ⟨.refl s, ha, fun j hj hstateful ↦ ?_, fun _ _ ↦ ⟨rfl, rfl⟩⟩
    exact absurd (decide_eq_true hstateful) (List.countP_eq_zero.mp hzero j hj)
  · obtain ⟨s₁, hjobs, h⟩ := bind_eq_ok h
    obtain ⟨s₂, htry, h⟩ := bind_eq_ok h
    cases h
    obtain ⟨hwork, hagree, hmem, hnot⟩ := foldlM_startStatefulJob_offsets hjobs ha
    have hsame := tryStart_offsets htry
    refine ⟨hwork.trans hsame.toSameWork, fun f ↦ (hsame.flow f).trans (hagree f), ?_, ?_⟩
    · intro j hj hstateful
      refine (hsame.job j).trans (hmem j ?_)
      exact List.mem_filter.mpr ⟨hj, decide_eq_true hstateful⟩
    · intro j hj
      have hout : j ∉ jobs.filter fun j ↦ s.jobType j = .stateful := fun hin ↦ by
        obtain ⟨hmem, htype⟩ := List.mem_filter.mp hin
        exact hj ⟨hmem, of_decide_eq_true htype⟩
      obtain ⟨hoffset, hstart⟩ := hnot j hout
      exact ⟨(hsame.job j).trans hoffset, hstart⟩

/-- `nlm_start_jobs` accounts for the stateful jobs of the batch in their order. -/
theorem startJobs_offsets {batch : List (Option ℕ)} {status : NlmStatus} (ha : a.Agrees s)
    (h : s.nlmStartJobs taken batch = .ok (status, s')) :
    status = .ok ∧ StartedOffsets s s' batch.reduceOption a
        ((batch.reduceOption.filter fun j ↦ s.jobType j = .stateful).foldl (Account.begin s) a) ∨
      status ≠ .ok ∧ Cleared s s' := by
  by_cases hne : batch = []
  · unfold nlmStartJobs at h
    rw [if_pos hne] at h
    cases h
    exact .inr ⟨by decide, (Offsets.refl s).cleared⟩
  · cases hcheck : batch.findSome? s.jobError with
    | some err =>
      unfold nlmStartJobs at h
      rw [if_neg hne, hcheck] at h
      cases h
      obtain ⟨entry, -, herr⟩ := List.exists_of_findSome?_eq_some hcheck
      exact .inr ⟨jobError_ne_ok herr, (Offsets.refl s).cleared⟩
    | none =>
      rw [nlmStartJobs_of_check hne hcheck] at h
      obtain ⟨⟨status₁, s₁⟩, hstateless, h⟩ := bind_eq_ok h
      obtain ⟨hcleared, hzero⟩ := startStateless_cleared hstateless
      split at h
      · next hstatus =>
        cases h
        exact .inr ⟨hstatus, hcleared⟩
      · next hstatus =>
        have hbefore := startStateless_marks hstateless
        have htype : s₁.jobType = s.jobType := jobType_congr hbefore.jobs_flow hbefore.type_eq
        have hagree : a.Agrees s₁ := fun f ↦ (hcleared.flow f).trans (ha f)
        have hstarted := startStateful_offsets hagree h
        rw [htype, Account.begin_congr hcleared.toSameWork] at hstarted
        obtain ⟨hwork, hfinal, hmem, hnot⟩ := hstarted
        left
        refine ⟨startStateful_status h, hcleared.toSameWork.trans hwork, hfinal, hmem, ?_, ?_⟩
        · intro hnone j hj hj'
          have hout : ¬ (j ∈ batch.reduceOption ∧ s.jobType j = .stateful) := fun hin ↦ by
            rw [hj'] at hin
            cases hin.2
          exact (hnot j hout).1.trans (hzero (not_not.mp hstatus) hnone j hj hj')
        · intro j hj
          obtain ⟨hoffset, hstart⟩ := hnot j hj
          rw [hoffset]
          exact ⟨hstart, hcleared.job j⟩

end NlmDevice

end NetL7.Packet
