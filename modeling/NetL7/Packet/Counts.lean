import NetL7.Packet.Results

/-!
# What a call does to the job counters

Of all calls only `nlm_start_jobs` counts the jobs of a stateless flow up, and
it does so only where a thread has a ring of its own.
-/

namespace NetL7.Packet

namespace NlmDevice

variable {s s' s'' : NlmDevice} {f j : ℕ} {jobs : List ℕ} {taken : ℕ → ℕ}

/-- The counters, the types of the flows and the flows of the jobs are the same. -/
structure KeepsCounts (s' s : NlmDevice) : Prop where
  seq_eq : ∀ f, (s'.flows f).jobSeqId = (s.flows f).jobSeqId
  type_eq : ∀ f, (s'.flows f).type = (s.flows f).type
  stateless_eq : ∀ f, (s'.flows f).isStateless = (s.flows f).isStateless
  jobs_flow : ∀ j, (s'.jobs j).flow = (s.jobs j).flow
  fifo_isNone : s'.swJobFifo.isNone = s.swJobFifo.isNone
  ring : RingSound s → RingSound s'

namespace KeepsCounts

theorem refl (s : NlmDevice) : KeepsCounts s s :=
  ⟨fun _ ↦ rfl, fun _ ↦ rfl, fun _ ↦ rfl, fun _ ↦ rfl, rfl, id⟩

theorem trans (h : KeepsCounts s' s) (h' : KeepsCounts s'' s') : KeepsCounts s'' s where
  seq_eq := fun f ↦ (h'.seq_eq f).trans (h.seq_eq f)
  type_eq := fun f ↦ (h'.type_eq f).trans (h.type_eq f)
  stateless_eq := fun f ↦ (h'.stateless_eq f).trans (h.stateless_eq f)
  jobs_flow := fun j ↦ (h'.jobs_flow j).trans (h.jobs_flow j)
  fifo_isNone := h'.fifo_isNone.trans h.fifo_isNone
  ring := h'.ring ∘ h.ring

theorem setFlow {g : NlmFlow → NlmFlow} (s : NlmDevice) (f : ℕ)
    (hseq : ∀ x, (g x).jobSeqId = x.jobSeqId) (htype : ∀ x, (g x).type = x.type)
    (hstateless : ∀ x, (g x).isStateless = x.isStateless) : KeepsCounts (s.setFlow f g) s := by
  have hflow : ∀ i, (s.setFlow f g).flows i = s.flows i ∨
      (s.setFlow f g).flows i = g (s.flows i) := fun i ↦ by
    by_cases hi : i = f
    · subst hi
      exact .inr (Function.update_self ..)
    · exact .inl (Function.update_of_ne hi ..)
  refine ⟨fun i ↦ ?_, fun i ↦ ?_, fun i ↦ ?_, fun _ ↦ rfl, rfl,
    fun h ↦ h.congr rfl rfl rfl rfl⟩
  · rcases hflow i with heq | heq
    · rw [heq]
    · rw [heq, hseq]
  · rcases hflow i with heq | heq
    · rw [heq]
    · rw [heq, htype]
  · rcases hflow i with heq | heq
    · rw [heq]
    · rw [heq, hstateless]

theorem setJob {g : NlmJob → NlmJob} (s : NlmDevice) (j : ℕ)
    (hflow : (g (s.jobs j)).flow = (s.jobs j).flow) : KeepsCounts (s.setJob j g) s := by
  refine ⟨fun _ ↦ rfl, fun _ ↦ rfl, fun _ ↦ rfl, fun i ↦ ?_, rfl,
    fun h ↦ h.congr rfl rfl rfl rfl⟩
  change (Function.update s.jobs j (g (s.jobs j)) i).flow = _
  by_cases hi : i = j
  · subst hi
    rw [Function.update_self, hflow]
  · rw [Function.update_of_ne hi]

theorem setPd (s : NlmDevice) (p : ℕ) (g : HwPdDescriptor → HwPdDescriptor) :
    KeepsCounts (s.setPd p g) s :=
  ⟨fun _ ↦ rfl, fun _ ↦ rfl, fun _ ↦ rfl, fun _ ↦ rfl, rfl,
    fun h ↦ h.congr rfl rfl rfl rfl⟩

theorem pending (s : NlmDevice) (flows : List ℕ) :
    KeepsCounts { s with pendingFlowList := flows } s :=
  ⟨fun _ ↦ rfl, fun _ ↦ rfl, fun _ ↦ rfl, fun _ ↦ rfl, rfl,
    fun h ↦ h.congr rfl rfl rfl rfl⟩

theorem updateInputWrtPtr (s : NlmDevice) : KeepsCounts s.nlmDeviceUpdateInputWrtPtr s :=
  ⟨fun _ ↦ rfl, fun _ ↦ rfl, fun _ ↦ rfl, fun _ ↦ rfl, rfl, fun h ↦ h.publish.1⟩

theorem removeFlowFromPending (s : NlmDevice) (f : ℕ) :
    KeepsCounts (s.nlmDeviceRemoveFlowFromPending f) s :=
  (pending s _).trans (setFlow _ f (fun _ ↦ rfl) (fun _ ↦ rfl) fun _ ↦ rfl)

theorem allocFd {slot : ℕ} (halloc : s.sysmemAllocFd = some (slot, s')) : KeepsCounts s' s := by
  have hring := fun h : RingSound s ↦ (h.sysmemAllocFd_counts halloc).1
  unfold sysmemAllocFd at halloc
  split at halloc
  · cases halloc
  · cases halloc
    exact ⟨fun _ ↦ rfl, fun _ ↦ rfl, fun _ ↦ rfl, fun _ ↦ rfl, rfl, hring⟩

theorem takeFds (s : NlmDevice) (n : ℕ) : KeepsCounts (s.takeFds n) s := by
  cases hfifo : s.swJobFifo with
  | some fifo =>
    unfold NlmDevice.takeFds
    simp only [hfifo]
    refine ⟨fun _ ↦ rfl, fun _ ↦ rfl, fun _ ↦ rfl, fun _ ↦ rfl, ?_,
      fun h ↦ h.congr rfl rfl rfl rfl⟩
    rw [hfifo]
    rfl
  | none =>
    have hsound : RingSound s → RingSound (s.takeFds n) := fun h ↦ (h.takeFds hfifo n).1
    rw [takeFds_eq hfifo] at hsound ⊢
    exact ⟨fun _ ↦ rfl, fun _ ↦ rfl, fun _ ↦ rfl, fun _ ↦ rfl, rfl, hsound⟩

theorem addJobToList (s : NlmDevice) (f j p : ℕ) : KeepsCounts (s.nlmFlowAddJobToList f j p) s := by
  have hlast : ∀ t : NlmDevice, KeepsCounts (t.setFlow f fun flow ↦
      { flow with
        lastPd := some p
        lastDbGroupCombination := (s.jobs j).dbGroupCombination }) t :=
    fun t ↦ setFlow t f (fun _ ↦ rfl) (fun _ ↦ rfl) fun _ ↦ rfl
  unfold NlmDevice.nlmFlowAddJobToList
  refine KeepsCounts.trans ?_ (hlast _)
  split
  · refine KeepsCounts.trans ?_ (setPd _ _ _)
    split
    · exact setPd _ _ _
    · exact refl s
  · split
    · have hhead : KeepsCounts (s.setFlow f fun flow ↦ { flow with pendingPdHead := some p }) s :=
        setFlow s f (fun _ ↦ rfl) (fun _ ↦ rfl) fun _ ↦ rfl
      exact hhead.trans (pending _ _)
    · exact refl s

end KeepsCounts

/-- A computation that only continues when it succeeds. -/
theorem bind_eq_ok {α β : Type} {x : Except Fault α} {g : α → Except Fault β} {b : β}
    (h : (x >>= g) = .ok b) : ∃ a, x = .ok a ∧ g a = .ok b := by
  cases x with
  | error e => cases h
  | ok a => exact ⟨a, rfl, h⟩

theorem startPendingPdChain_keepsCounts {status : NlmStatus}
    (h : s.nlmFlowStartPendingPdChain f = .ok (status, s')) : KeepsCounts s' s := by
  unfold nlmFlowStartPendingPdChain at h
  split at h
  · cases h
  · simp only at h
    split at h
    · rename_i fifo hfifo
      split at h
      · cases h
      · obtain ⟨-, -, h⟩ := bind_eq_ok h
        cases h
        refine (KeepsCounts.removeFlowFromPending s f).trans ?_
        refine ⟨fun _ ↦ rfl, fun _ ↦ rfl, fun _ ↦ rfl, fun _ ↦ rfl, ?_,
          fun h ↦ h.congr rfl rfl rfl rfl⟩
        change false = s.swJobFifo.isNone
        rw [hfifo]
        rfl
    · split at h
      · cases h
        exact .refl s
      · rename_i slot s₁ halloc
        obtain ⟨-, -, h⟩ := bind_eq_ok h
        cases h
        refine (KeepsCounts.allocFd halloc).trans ?_
        refine (KeepsCounts.removeFlowFromPending s₁ f).trans ?_
        exact ⟨fun _ ↦ rfl, fun _ ↦ rfl, fun _ ↦ rfl, fun _ ↦ rfl, rfl,
          fun h ↦ h.congr rfl rfl rfl rfl⟩

theorem tryStartLoop_keepsCounts {fuel i : ℕ} (h : tryStartLoop taken fuel i s = .ok s') :
    KeepsCounts s' s := by
  induction fuel generalizing s i with
  | zero =>
    cases h
    exact .refl _
  | succ fuel ih =>
    unfold tryStartLoop at h
    refine (KeepsCounts.takeFds s (taken i)).trans ?_
    simp only at h
    split at h
    · cases h
      exact .refl _
    · obtain ⟨⟨status, s₁⟩, hstart, h⟩ := bind_eq_ok h
      refine (startPendingPdChain_keepsCounts hstart).trans ?_
      split at h
      · cases h
        exact .refl _
      · exact ih h

theorem tryStart_keepsCounts (h : s.nlmTryStartStatefulFlows taken = .ok s') :
    KeepsCounts s' s := by
  unfold nlmTryStartStatefulFlows at h
  obtain ⟨s₁, hloop, h⟩ := bind_eq_ok h
  refine (tryStartLoop_keepsCounts hloop).trans ?_
  cases h
  split
  · exact KeepsCounts.updateInputWrtPtr s₁
  · exact .refl s₁

theorem startStatefulJob_keepsCounts (h : s.startStatefulJob j = .ok s') : KeepsCounts s' s := by
  unfold startStatefulJob at h
  split at h
  · rename_i f p hf hp
    obtain ⟨-, -, h⟩ := bind_eq_ok h
    obtain ⟨-, -, h⟩ := bind_eq_ok h
    cases h
    refine KeepsCounts.trans ?_ (KeepsCounts.setPd _ _ _)
    refine KeepsCounts.trans ?_ (KeepsCounts.addJobToList _ _ _ _)
    refine KeepsCounts.trans (KeepsCounts.setJob s j ?_)
      (KeepsCounts.setFlow _ f (fun _ ↦ rfl) (fun _ ↦ rfl) fun _ ↦ rfl)
    rfl
  · cases h

theorem startStateful_keepsCounts {status : NlmStatus}
    (h : s.startStateful taken jobs = .ok (status, s')) : KeepsCounts s' s := by
  have hfold : ∀ (js : List ℕ) (s s' : NlmDevice),
      js.foldlM startStatefulJob s = .ok s' → KeepsCounts s' s := by
    intro js
    induction js with
    | nil =>
      intro s s' h
      cases h
      exact .refl s
    | cons j js ih =>
      intro s s' h
      rw [List.foldlM_cons] at h
      obtain ⟨s₁, hj, h⟩ := bind_eq_ok h
      exact (startStatefulJob_keepsCounts hj).trans (ih _ _ h)
  unfold startStateful at h
  split at h
  · cases h
    exact .refl s
  · obtain ⟨s₁, hjobs, h⟩ := bind_eq_ok h
    obtain ⟨s₂, htry, h⟩ := bind_eq_ok h
    cases h
    exact (hfold _ _ _ hjobs).trans (tryStart_keepsCounts htry)

theorem finishStateful_keepsCounts {p errorCode : ℕ} {isFrd : Bool}
    (h : s.finishStateful f p errorCode isFrd = .ok s') : KeepsCounts s' s := by
  have herror : KeepsCounts (s.noteError f errorCode) s := by
    unfold noteError
    split
    · exact .refl s
    · exact KeepsCounts.setFlow s f (fun _ ↦ rfl) (fun _ ↦ rfl) fun _ ↦ rfl
  unfold finishStateful at h
  obtain ⟨-, -, h⟩ := bind_eq_ok h
  obtain ⟨s₁, hnotice, h⟩ := bind_eq_ok h
  cases h
  refine herror.trans (KeepsCounts.trans ?_ (KeepsCounts.setPd _ _ _))
  split at hnotice
  · unfold nlmFlowNoticeJobCompletion at hnotice
    split at hnotice
    · obtain ⟨-, -, hnotice⟩ := bind_eq_ok hnotice
      cases hnotice
      exact KeepsCounts.setFlow _ f (fun _ ↦ rfl) (fun _ ↦ rfl) fun _ ↦ rfl
    · split at hnotice
      · cases hnotice
        exact .refl _
      · obtain ⟨-, -, hnotice⟩ := bind_eq_ok hnotice
        cases hnotice
        refine KeepsCounts.trans ?_ (KeepsCounts.pending _ _)
        exact KeepsCounts.setFlow _ f (fun _ ↦ rfl) (fun _ ↦ rfl) fun _ ↦ rfl
  · cases hnotice
    exact .refl _

theorem setFlow_setFlow (s : NlmDevice) (f : ℕ) (g g' : NlmFlow → NlmFlow) :
    (s.setFlow f g).setFlow f g' = s.setFlow f fun flow ↦ g' (g flow) := by
  unfold setFlow
  simp only [Function.update_self, Function.update_idem]

theorem noteError_eq (s : NlmDevice) (f errorCode : ℕ) :
    s.noteError f errorCode = s.setFlow f fun flow ↦
      if errorCode = 0 then flow else { flow with errored := errorCode } := by
  unfold noteError
  split
  · unfold setFlow
    rw [Function.update_eq_self]
  · rfl

theorem setFlow_spec {g : NlmFlow → NlmFlow} (s : NlmDevice) (f : ℕ)
    (htype : (g (s.flows f)).type = (s.flows f).type)
    (hstateless : (g (s.flows f)).isStateless = (s.flows f).isStateless) :
    (∀ i, i ≠ f → (s.setFlow f g).flows i = s.flows i) ∧
    (∀ i, ((s.setFlow f g).flows i).type = (s.flows i).type) ∧
    (∀ i, ((s.setFlow f g).flows i).isStateless = (s.flows i).isStateless) ∧
    (s.setFlow f g).flows f = g (s.flows f) := by
  have hother : ∀ i, i ≠ f → (s.setFlow f g).flows i = s.flows i := fun i hi ↦
    Function.update_of_ne hi ..
  have hself : (s.setFlow f g).flows f = g (s.flows f) := Function.update_self ..
  refine ⟨hother, fun i ↦ ?_, fun i ↦ ?_, hself⟩
  · rcases eq_or_ne i f with rfl | hi
    · rw [hself, htype]
    · rw [hother i hi]
  · rcases eq_or_ne i f with rfl | hi
    · rw [hself, hstateless]
    · rw [hother i hi]

/-- The FRD of a stateless job counts its flow down and frees it after the last
one if it has been destroyed. -/
theorem finishStateless_spec (s : NlmDevice) (f errorCode : ℕ) :
    (∀ g, g ≠ f → (s.finishStateless f errorCode).1.flows g = s.flows g) ∧
    (∀ g, ((s.finishStateless f errorCode).1.flows g).type = (s.flows g).type) ∧
    (∀ g, ((s.finishStateless f errorCode).1.flows g).isStateless = (s.flows g).isStateless) ∧
    ((s.finishStateless f errorCode).1.flows f).jobSeqId =
      (2 ^ 32 + (s.flows f).jobSeqId - 1) % 2 ^ 32 ∧
    (s.finishStateless f errorCode).1.jobs = s.jobs ∧
    (s.finishStateless f errorCode).1.swJobFifo = s.swJobFifo ∧
    (RingSound s → RingSound (s.finishStateless f errorCode).1) ∧
    ((s.finishStateless f errorCode).2 = true ↔
      (s.flows f).type = .invalid ∧ (2 ^ 32 + (s.flows f).jobSeqId - 1) % 2 ^ 32 = 0) := by
  have hnote : ∀ flow : NlmFlow, (if errorCode = 0 then flow
      else { flow with errored := errorCode }).type = flow.type ∧
        (if errorCode = 0 then flow else { flow with errored := errorCode }).isStateless =
          flow.isStateless ∧
        (if errorCode = 0 then flow else { flow with errored := errorCode }).jobSeqId =
          flow.jobSeqId := fun flow ↦ by split <;> exact ⟨rfl, rfl, rfl⟩
  obtain ⟨htype, hkind, hseq⟩ := hnote (s.flows f)
  unfold finishStateless
  rw [noteError_eq, setFlow_setFlow]
  obtain ⟨hother, htypes, hkinds, hself⟩ := setFlow_spec s f (g := fun flow ↦
    NlmFlow.uncountJob (if errorCode = 0 then flow else { flow with errored := errorCode }))
    htype hkind
  simp only
  rw [hself]
  have hcount : (NlmFlow.uncountJob (if errorCode = 0 then s.flows f
      else { s.flows f with errored := errorCode })).jobSeqId =
        (2 ^ 32 + (s.flows f).jobSeqId - 1) % 2 ^ 32 := by
    rw [← hseq]
    rfl
  have hinvalid : (NlmFlow.uncountJob (if errorCode = 0 then s.flows f
      else { s.flows f with errored := errorCode })).type = (s.flows f).type := htype
  rw [hcount, hinvalid]
  split
  · rename_i hfree
    unfold releaseFlow
    rw [setFlow_setFlow]
    obtain ⟨hother', htypes', hkinds', hself'⟩ := setFlow_spec s f (g := fun flow ↦
      { NlmFlow.uncountJob (if errorCode = 0 then flow
          else { flow with errored := errorCode }) with type := .invalid })
      hfree.1.symm hkind
    refine ⟨hother', htypes', hkinds', ?_, rfl, rfl, fun h ↦ h.congr rfl rfl rfl rfl,
      fun _ ↦ hfree, fun _ ↦ rfl⟩
    rw [hself']
    exact hcount
  · rename_i hkeep
    refine ⟨hother, htypes, hkinds, ?_, rfl, rfl, fun h ↦ h.congr rfl rfl rfl rfl,
      fun hfalse ↦ (by cases hfalse), fun hfree ↦ absurd hfree hkeep⟩
    rw [hself]
    exact hcount

/-- The call counts the stateless jobs it starts: it starts none, or it fails
before the first one, or the thread has a ring of its own with room for all. -/
def CountsStarts (s : NlmDevice) (taken : ℕ → ℕ) (batch : List (Option ℕ)) : Prop :=
  batch.findSome? s.jobError = none → s.nStateless batch.reduceOption ≠ 0 →
    match s.swJobFifo with
    | some fifo => fifo.free < s.nStateless batch.reduceOption
    | none => ¬ s.FillsUp taken (s.nStateless batch.reduceOption)

/-- The flows after the stateless jobs among `jobs` have been counted. -/
structure Counted (s : NlmDevice) (jobs : List ℕ) (s' : NlmDevice) : Prop where
  seq_eq : ∀ f, (s'.flows f).jobSeqId =
    (NlmFlow.countJob^[s.startedOn jobs f] (s.flows f)).jobSeqId
  type_eq : ∀ f, (s'.flows f).type = (s.flows f).type
  stateless_eq : ∀ f, (s'.flows f).isStateless = (s.flows f).isStateless
  jobs_flow : ∀ j, (s'.jobs j).flow = (s.jobs j).flow
  fifo_isNone : s'.swJobFifo.isNone = s.swJobFifo.isNone
  ring : RingSound s → RingSound s'

theorem Counted.keep (h : Counted s jobs s') (h' : KeepsCounts s'' s') : Counted s jobs s'' where
  seq_eq := fun f ↦ (h'.seq_eq f).trans (h.seq_eq f)
  type_eq := fun f ↦ (h'.type_eq f).trans (h.type_eq f)
  stateless_eq := fun f ↦ (h'.stateless_eq f).trans (h.stateless_eq f)
  jobs_flow := fun j ↦ (h'.jobs_flow j).trans (h.jobs_flow j)
  fifo_isNone := h'.fifo_isNone.trans h.fifo_isNone
  ring := h'.ring ∘ h.ring

theorem counted_of_none (hzero : s.nStateless jobs = 0) : Counted s jobs s where
  seq_eq := fun f ↦ by
    have hle : s.startedOn jobs f ≤ s.nStateless jobs :=
      List.countP_mono_left fun i _ hi ↦ by simpa using (of_decide_eq_true hi).1
    rw [Nat.le_zero.mp (hle.trans_eq hzero)]
    rfl
  type_eq := fun _ ↦ rfl
  stateless_eq := fun _ ↦ rfl
  jobs_flow := fun _ ↦ rfl
  fifo_isNone := rfl
  ring := id

theorem countJob_iterate_isStateless (n : ℕ) (flow : NlmFlow) :
    (NlmFlow.countJob^[n] flow).isStateless = flow.isStateless := by
  induction n generalizing flow with
  | zero => rfl
  | succ n ih => rw [Function.iterate_succ_apply, ih]; rfl

theorem StatelessStarted.counted (h : StatelessStarted s jobs s') : Counted s jobs s' where
  seq_eq := fun f ↦ by rw [h.flows_eq]
  type_eq := fun f ↦ by rw [h.flows_eq, NlmFlow.countJob_iterate_type]
  stateless_eq := fun f ↦ by rw [h.flows_eq, countJob_iterate_isStateless]
  jobs_flow := h.jobs_flow
  fifo_isNone := by
    have hrest := h.rest
    unfold SameButRing at hrest
    rw [hrest]
  ring := fun _ ↦ h.ring_sound

theorem jobError_ne_ok {entry : Option ℕ} {err : NlmStatus} (h : s.jobError entry = some err) :
    err ≠ .ok := by
  unfold jobError at h
  split at h
  · cases h
    decide
  · split at h
    · cases h
      decide
    · split at h
      · cases h
        decide
      · cases h

/-- What the stateless half does when it counts its starts. -/
theorem startStateless_counted {batch : List (Option ℕ)} {status : NlmStatus}
    (hring : s.swJobFifo = none → RingSound s) (hcond : s.CountsStarts taken batch)
    (hcheck : batch.findSome? s.jobError = none)
    (h : s.startStateless taken batch.reduceOption = .ok (status, s')) :
    status = .ok ∧ Counted s batch.reduceOption s' ∨ status ≠ .ok ∧ KeepsCounts s' s := by
  unfold startStateless at h
  split at h
  · rename_i hzero
    cases h
    exact .inl ⟨rfl, counted_of_none hzero⟩
  · rename_i hn
    have hcount := hcond hcheck hn
    cases hfifo : s.swJobFifo with
    | some fifo =>
      simp only [hfifo] at hcount h
      rw [if_pos hcount] at h
      cases h
      exact .inr ⟨by decide, .refl s⟩
    | none =>
      simp only [hfifo] at hcount h
      have hok := hring hfifo
      rcases hloop : startStatelessLoop taken s batch.reduceOption with ⟨b, s₁⟩
      rw [hloop] at h
      cases b with
      | false =>
        have hout := (startStatelessLoop_fst hok hfifo).mp (congrArg Prod.fst hloop)
        have hzero : s.roomAt taken 0 = 0 :=
          Nat.eq_zero_of_not_pos fun hpos ↦ hcount ⟨hpos, hout⟩
        have hsame := congrArg Prod.snd hloop
        rw [startStatelessLoop_full hok hfifo hzero] at hsame
        subst hsame
        cases h
        exact .inr ⟨by decide, .refl s⟩
      | true =>
        obtain ⟨pre, suf, hjobs, hpre, hends⟩ := startStatelessLoop_spec hok hfifo hloop
        rw [hends.whole rfl, List.append_nil] at hjobs
        rw [← hjobs] at hpre
        simp only [Except.ok.injEq, Prod.mk.injEq] at h
        obtain ⟨rfl, rfl⟩ := h
        refine .inl ⟨rfl, ?_⟩
        split
        · exact hpre.counted.keep (.updateInputWrtPtr s₁)
        · exact hpre.counted

/-- A call that counts its starts has counted every stateless job if it
succeeds, and has changed no counter if it fails. -/
theorem startJobs_counted {batch : List (Option ℕ)} {status : NlmStatus}
    (hring : s.swJobFifo = none → RingSound s) (hcond : s.CountsStarts taken batch)
    (h : s.nlmStartJobs taken batch = .ok (status, s')) :
    status = .ok ∧ batch.findSome? s.jobError = none ∧ Counted s batch.reduceOption s' ∨
      status ≠ .ok ∧ KeepsCounts s' s := by
  by_cases hne : batch = []
  · unfold nlmStartJobs at h
    rw [if_pos hne] at h
    cases h
    exact .inr ⟨by decide, .refl s⟩
  · cases hcheck : batch.findSome? s.jobError with
    | some err =>
      unfold nlmStartJobs at h
      rw [if_neg hne, hcheck] at h
      cases h
      obtain ⟨entry, -, herr⟩ := List.exists_of_findSome?_eq_some hcheck
      exact .inr ⟨jobError_ne_ok herr, .refl s⟩
    | none =>
      rw [nlmStartJobs_of_check hne hcheck] at h
      obtain ⟨⟨status₁, s₁⟩, hstateless, h⟩ := bind_eq_ok h
      rcases startStateless_counted hring hcond hcheck hstateless with
        ⟨rfl, hcounted⟩ | ⟨hstatus, hkeep⟩
      · have hstatus := startStateful_status h
        exact .inl ⟨hstatus, rfl, hcounted.keep (startStateful_keepsCounts h)⟩
      · rw [if_pos hstatus] at h
        cases h
        exact .inr ⟨hstatus, hkeep⟩

end NlmDevice

end NetL7.Packet
