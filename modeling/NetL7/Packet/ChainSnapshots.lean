import NetL7.Packet.ChainGroups

/-!
# The groups that a flow had when a packet was enqueued

A recorded run remembers, for each job in use, the groups that its flow had when the job was
enqueued. However the groups change later, in whatever order jobs are started and chains are
cut or taken up again, the hardware searches each packet with an FD that names the groups which
were remembered for its job.
-/

namespace NetL7.Packet

open NetL7.Lib NlmDevice

namespace ChainRun

variable {s s' : ChainRun} {f i j p : ℕ} {device : NlmDevice}

/-! ## What a step does to the groups of the jobs -/

/-- A job in use keeps its groups, and a new one gets those that its flow has. -/
def KeepsGroups (s s' : ChainRun) : Prop :=
  ∀ j, s'.Live j → s.Live j ∧ s'.t.device.jobGroups j = s.t.device.jobGroups j ∨
    ¬s.Live j ∧ ∃ f, (s'.t.device.jobs j).flow = some f ∧
      s'.t.device.jobGroups j = (s.t.device.flows f).groups

/-- No job is new. -/
theorem KeepsGroups.of_kept (hlive : ∀ j, s'.Live j → s.Live j)
    (hgroups : ∀ j, s'.Live j → s'.t.device.jobGroups j = s.t.device.jobGroups j) :
    KeepsGroups s s' := fun j hj ↦ .inl ⟨hlive j hj, hgroups j hj⟩

theorem keepsGroups_enqueue (hinv : Inv s) (hj : s.FreeJob j) (hp : s.FreePd p)
    (userCookie : ℕ) (packet : Payload) (m : Allocators) (packetBase : List ℕ) :
    KeepsGroups s { s with
      t := { s.t with
        device := s.t.device.enqueueStateful f j p userCookie packet
        m := m
        packetBase := packetBase }
      waiting := j :: s.waiting } := by
  intro i hi
  by_cases hij : i = j
  · subst hij
    refine .inr ⟨hj.not_live, f, ?_, enqueueStateful_groups s.t.device userCookie packet⟩
    exact (congrArg NlmJob.flow (enqueueStateful_job s.t.device userCookie packet)).trans rfl
  · have hlive : s.Live i := hi.imp_left fun hi ↦ (List.mem_cons.mp hi).resolve_left hij
    exact .inl ⟨hlive, (enqueueStateful_same s.t.device userCookie packet hij
      (hp.ne hinv.mem hlive)).kept.groups⟩

theorem keepsGroups_start (hinv : Inv s) (hj : j ∈ s.waiting)
    (hflow : (s.t.device.jobs j).flow = some f)
    (hcall : s.t.device.startStatefulJob j = .ok device) : KeepsGroups s { s with
      t := { s.t with device := device }
      waiting := s.waiting.erase j
      running := Function.update s.running f (s.running f ++ [j])
      started := Function.update s.started f (s.started f ++ [j]) } := by
  refine .of_kept (fun i hi ↦ ?_) fun i _ ↦ ?_
  · have hlive : i = j ∨ i ∈ s.waiting.erase j ∨ ∃ f, i ∈ s.running f :=
      live_append (s := { s with waiting := s.waiting.erase j }) hi
    rcases hlive with rfl | hlive
    · exact .inl hj
    · exact (erase_waiting hinv.mem hj hlive).1
  · rw [hinv.startStatefulJob_eq hj hflow] at hcall
    change (device.jobs i).fd.groups = _
    rw [← Except.ok.inj hcall]
    refine (congrArg (fun job : NlmJob ↦ job.fd.groups)
      (congrFun (addJobToList_jobs ..) i)).trans ?_
    change (Function.update s.t.device.jobs j _ i).fd.groups = (s.t.device.jobs i).fd.groups
    rw [Function.update_apply]
    split
    · next heq => rw [heq]
    · rfl

theorem keepsGroups_destroy (hinv : Inv s) (hj : s.FreeJob j) (hp : s.FreePd p)
    (userCookie : ℕ) (packet : Payload) (m : Allocators) (packetBase : List ℕ) :
    KeepsGroups s { s with
      t := { s.t with
        device := (s.finishing f j p userCookie packet).addFinish f j p
        m := m
        packetBase := packetBase }
      waiting := s.waitingBut f
      running := Function.update s.running f (s.running f ++ [j])
      started := Function.update s.started f (s.started f ++ [j]) } := by
  obtain ⟨offset, hjobs⟩ := addFinish_jobs (s.finishing f j p userCookie packet) f j p
  have hself := (congrFun hjobs j).trans (Function.update_self ..)
  intro i hi
  by_cases hij : i = j
  · subst hij
    have hfilled := enqueueStateful_job (f := f) (j := i) (p := p)
      ((s.t.invalidated f).nextCombination f).device userCookie packet
    refine .inr ⟨hj.not_live, f, (congrArg NlmJob.flow hself).trans
      ((congrArg NlmJob.flow hfilled).trans rfl), ?_⟩
    refine (congrArg (fun job : NlmJob ↦ job.fd.groups) hself).trans ?_
    refine (enqueueStateful_groups _ userCookie packet).trans ?_
    exact (congrArg NlmFlow.groups (finishing_self s.t f)).trans rfl
  · have hlive : s.Live i := by
      have hmid := live_append (s := { s with waiting := s.waitingBut f }) hi
      exact (hmid.resolve_left hij).imp_left fun hi ↦ waitingBut_sublist.subset hi
    have hother := (congrFun hjobs i).trans (Function.update_of_ne hij ..)
    refine .inl ⟨hlive, (congrArg (fun job : NlmJob ↦ job.fd.groups) hother).trans ?_⟩
    have hpd : ((s.t.invalidated f).nextCombination f).device.pdIndex i ≠ p := by
      rw [finishing_flow]
      exact hp.ne hinv.mem hlive
    refine (enqueueStateful_same _ userCookie packet hij hpd).kept.groups.trans ?_
    rw [finishing_flow]
    rfl

theorem keepsGroups_collect (hinv : Inv s) {rd : HwResultDescriptor}
    {rest : List HwResultDescriptor} {t : Thread} {result : Option NlmResult} {mark : Bool}
    (hfirst : s.results = rd :: rest) (hcall : s.t.populateResults rd = .ok (t, result, mark)) :
    KeepsGroups s { s with
      t := t
      used := s.usedAfter rd
      results := rest
      running := fun f ↦ (s.running f).erase (nlmGetJobIndex rd.cookie) } := by
  obtain ⟨f, j, l, hl, hcookie, hresults⟩ := hinv.firstResult hfirst
  obtain ⟨hvalid, htype, -⟩ := hinv.results rd (hfirst ▸ List.mem_cons_self)
  obtain ⟨flow, pendingFlowList, m, -, heq⟩ :=
    hinv.populateResults_eq hl hcookie hvalid htype hresults
  obtain rfl := (Prod.mk.inj (Except.ok.inj (heq.symm.trans hcall))).1
  exact .of_kept (fun i hi ↦ hi.imp_right fun ⟨g, hg⟩ ↦ ⟨g, List.mem_of_mem_erase hg⟩)
    fun _ _ ↦ rfl

theorem Step.keepsGroups (hstep : Step s s') (hinv : Inv s) : KeepsGroups s s' := by
  cases hstep with
  | createFlow => exact .of_kept (fun _ hj ↦ hj) fun _ _ ↦ rfl
  | changeGroups => exact .of_kept (fun _ hj ↦ hj) fun _ _ ↦ rfl
  | enqueue _ _ hj hp userCookie _ m packetBase =>
    exact keepsGroups_enqueue hinv hj hp userCookie _ m packetBase
  | cancel hj hcall =>
    exact .of_kept (fun i hi ↦ (erase_waiting hinv.mem hj hi).1) fun i hi ↦
      (cancel_same hinv.mem hj hcall hi).kept.groups
  | leftover hjobs _ m =>
    exact .of_kept (fun _ hj ↦ hj) fun i hi ↦
      congrArg (fun job : NlmJob ↦ job.fd.groups) (hjobs i fun hfree ↦ hfree.not_live hi)
  | disconnect => exact .of_kept (fun _ hj ↦ hj) fun _ _ ↦ rfl
  | start hj hflow _ hcall => exact keepsGroups_start hinv hj hflow hcall
  | destroy _ _ _ _ hj hp userCookie _ m packetBase =>
    exact keepsGroups_destroy hinv hj hp userCookie _ m packetBase
  | destroyUnused =>
    exact .of_kept (fun i hi ↦ hi.imp_left fun hi ↦ waitingBut_sublist.subset hi) fun _ _ ↦ rfl
  | @destroyFailed f _ =>
    refine .of_kept (fun i hi ↦ hi.imp_left fun hi ↦ waitingBut_sublist.subset hi) fun i _ ↦ ?_
    change (((s.t.invalidated f).nextCombination f).device.jobs i).fd.groups = _
    rw [finishing_flow]
    rfl
  | @startChain f rest device hlist hcall =>
    refine .of_kept (fun _ hj ↦ hj) fun i _ ↦ ?_
    obtain ⟨j, js, hl⟩ := hinv.pending (hlist ▸ List.mem_cons_self : f ∈ s.t.device.pendingFlowList)
    rw [hinv.startPendingPdChain_eq hl] at hcall
    cases halloc : s.t.device.sysmemAllocFd with
    | none =>
      rw [halloc] at hcall
      cases hcall
    | some r =>
      obtain ⟨slot, d⟩ := r
      rw [halloc] at hcall
      change (device.jobs i).fd.groups = _
      rw [← (Prod.mk.inj (Except.ok.inj hcall)).2]
      change (d.jobs i).fd.groups = _
      rw [sysmemAllocFd_same halloc]
      rfl
  | publish => exact .of_kept (fun _ hj ↦ hj) fun _ _ ↦ rfl
  | @otherFd slot device fd halloc _ =>
    refine .of_kept (fun _ hj ↦ hj) fun i _ ↦ ?_
    change (device.jobs i).fd.groups = _
    rw [sysmemAllocFd_same halloc]
    rfl
  | take =>
    unfold taken
    simp only
    split <;> exact .of_kept (fun _ hj ↦ hj) fun _ _ ↦ rfl
  | follow => exact .of_kept (fun _ hj ↦ hj) fun _ _ ↦ rfl
  | stop => exact .of_kept (fun _ hj ↦ hj) fun _ _ ↦ rfl
  | collect hresults hcall => exact keepsGroups_collect hinv hresults hcall

end ChainRun

/-! ## Recorded runs -/

/-- A run with the groups that are remembered for each job. -/
structure RecordedRun where
  run : ChainRun
  snapshot : ℕ → ℕ × List ℕ

namespace RecordedRun

variable {x x' : RecordedRun} {s s' : ChainRun} {w : Walk}

/-- A step of the run. What is remembered for a job stays as long as the job is in use, and for
a new job the groups of its flow are remembered. -/
structure Step (x x' : RecordedRun) : Prop where
  step : ChainRun.Step x.run x'.run
  kept : ∀ j, x.run.Live j → x'.run.Live j → x'.snapshot j = x.snapshot j
  taken : ∀ j f, ¬x.run.Live j → x'.run.Live j → (x'.run.t.device.jobs j).flow = some f →
    x'.snapshot j = (x.run.t.device.flows f).groups

def Reaches : RecordedRun → RecordedRun → Prop := Relation.ReflTransGen Step

/-- The jobs in use have the groups that are remembered for them. -/
def Exact (x : RecordedRun) : Prop :=
  ∀ j, x.run.Live j → x.run.t.device.jobGroups j = x.snapshot j

theorem Step.exact (hstep : Step x x') (hinv : ChainRun.Inv x.run) (h : Exact x) : Exact x' := by
  intro j hj
  rcases hstep.step.keepsGroups hinv j hj with ⟨hlive, hgroups⟩ | ⟨hnew, f, hflow, hgroups⟩
  · rw [hgroups, h j hlive, hstep.kept j hlive hj]
  · rw [hgroups, hstep.taken j f hnew hj hflow]

theorem Reaches.run (hrun : Reaches x x') : ChainRun.Reaches x.run x'.run :=
  Relation.ReflTransGen.lift RecordedRun.run (fun _ _ (hstep : Step _ _) ↦ hstep.step) _ _ hrun

theorem Reaches.exact (hrun : Reaches x x') (hinv : ChainRun.Inv x.run)
    (hlife : ChainRun.Lifetime x.run) (h : Exact x) : Exact x' := by
  induction hrun with
  | refl => exact h
  | tail hfront hstep ih => exact hstep.exact ((Reaches.run hfront).inv hinv hlife).1 ih

variable {threadId size policy : ℕ} {m : Allocators} {packetBase : List ℕ}
  {snapshot : ℕ → ℕ × List ℕ}

end RecordedRun

end NetL7.Packet
