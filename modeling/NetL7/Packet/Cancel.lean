import NetL7.Packet.JobSlots

/-!
# Cancelling jobs

`nlm_cancel_job` takes back a job that was enqueued. It tells from the mark of the
PD whether the job has been started.
-/

namespace NetL7.Packet

open NetL7.Device AllocRun NlmDevice

namespace JobRun

variable {c : ThreadConfig} {k : PacketConfig} {s s' : JobRun} {device : NlmDevice}
  {m m' : Allocators} {f j p start stop userCookie : ℕ} {jobs pds : List ℕ}

/-! ## The calls -/

theorem allocJob_sameFlows {j : Option ℕ} (h : m.allocJob c = (j, m')) : SameFlows m m' := by
  unfold Allocators.allocJob at h
  split at h
  · cases h
    exact .refl m
  · next job pool halloc =>
    cases h
    obtain ⟨js, -, rfl⟩ | ⟨-, -, -, rfl⟩ := memoryPoolAllocJob_cases halloc
    · exact ⟨rfl, rfl, rfl, rfl⟩
    · exact ⟨rfl, rfl, rfl, rfl⟩

theorem allocPd_sameFlows {p : Option ℕ} (h : m.allocPd = (p, m')) : SameFlows m m' := by
  unfold Allocators.allocPd at h
  cases h
  exact ⟨rfl, rfl, rfl, rfl⟩

theorem enqueued_sameFlows {t : Thread} {r : NlmStatus × Option ℕ × Thread}
    (h : Thread.Enqueued c k t f start stop userCookie r) : SameFlows t.m r.2.2.m := by
  cases h with
  | noJob => exact .refl _
  | badSize hjob => exact allocJob_sameFlows hjob
  | statelessNoBase hjob => exact allocJob_sameFlows hjob
  | stateless hjob => exact allocJob_sameFlows hjob
  | noPd hjob _ _ hpd =>
    have hsame := (allocJob_sameFlows hjob).trans (allocPd_sameFlows hpd)
    exact hsame.trans ⟨rfl, rfl, rfl, rfl⟩
  | statefulNoBase hjob _ _ hpd =>
    have hsame := (allocJob_sameFlows hjob).trans (allocPd_sameFlows hpd)
    exact hsame.trans ⟨rfl, rfl, rfl, rfl⟩
  | stateful hjob _ _ hpd => exact (allocJob_sameFlows hjob).trans (allocPd_sameFlows hpd)

theorem nextCombination_marks (t : Thread) (f : ℕ) :
    Marks [] t.device (t.nextCombination f).device := by
  simp only [Thread.nextCombination]
  apply Marks.setFlow
  · rfl
  · rfl

theorem Inv.nextCombination (h : Inv c s) (f : ℕ) : Inv c { s with t := s.t.nextCombination f } :=
  h.same (nextCombination_marks s.t f) (.refl _)

/-- A slot on the free list belongs to no live job. -/
theorem Inv.not_free (h : Inv c s) (hj : j ∈ s.live) : j ∉ s.t.m.pool.jobList := by
  obtain ⟨jobs, hinv, hlive⟩ := h.jobs
  intro hfree
  exact (List.nodup_append.mp hinv.nodup).2.2 j (hlive j hj) j hfree rfl

theorem Inv.withLink (h : Inv c s) : Inv c { s with t := s.t.withLink c } := by
  obtain ⟨jobs, heq, hsame, -⟩ := s.t.withLink_eq (c := c)
  rw [heq]
  exact h.setFree { s.t.device with jobs := jobs } s.t.m s.t.packetBase rfl rfl
    (fun j hj ↦ hsame j (h.not_free hj)) (fun _ _ _ _ ↦ rfl) h.jobs h.pds

theorem enqueueSearch_cases {t : Thread} {r : NlmStatus × Option ℕ × Thread}
    (h : t.nlmFlowEnqueueSearch c k f start stop userCookie = r) :
    (r.1 ≠ .ok ∧ r.2.2 = t) ∨
    ((t.device.flows f).type ≠ .invalid ∧
      (Thread.Enqueued c k (t.withLink c) f start stop userCookie r ∨
        Thread.Enqueued c k ((t.nextCombination f).withLink c) f start stop userCookie r)) := by
  subst h
  unfold Thread.nlmFlowEnqueueSearch
  cases herror : t.enqueueError f start stop with
  | some status =>
    have hstatus : status ≠ .ok := by
      unfold Thread.enqueueError at herror
      split at herror
      · cases herror
        decide
      · split at herror
        · cases herror
          decide
        · split at herror
          · cases herror
            decide
          · cases herror
    exact .inl ⟨hstatus, rfl⟩
  | none =>
    refine .inr ⟨fun hinvalid ↦ ?_, ?_⟩
    · unfold Thread.enqueueError at herror
      rw [if_pos hinvalid] at herror
      split at herror <;> cases herror
    · simp only
      split
      · exact .inr (Thread.enqueueSearch1_enqueued ..)
      · exact .inl (Thread.enqueueSearch1_enqueued ..)

theorem Inv.enqueueFailed (h : Inv c s) (hk : Kinds s.used s.t.device s.t.m)
    {r : NlmStatus × Option ℕ × Thread}
    (hcall : s.t.nlmFlowEnqueueSearch c k f start stop userCookie = r) :
    Inv c { s with t := r.2.2 } ∧ Kinds s.used r.2.2.device r.2.2.m := by
  obtain ⟨-, heq⟩ | ⟨-, henqueued | henqueued⟩ := enqueueSearch_cases hcall
  · rw [heq]
    exact ⟨h, hk⟩
  · have hsame := enqueued_sameFlows henqueued
    rw [Thread.withLink_m] at hsame
    refine ⟨h.withLink.enqueued henqueued, hk.keep hsame fun g _ ↦ ?_⟩
    rw [henqueued.flows_eq, Thread.withLink_flows]
  · have hsame := enqueued_sameFlows henqueued
    rw [Thread.withLink_m] at hsame
    refine ⟨(h.nextCombination f).withLink.enqueued henqueued, hk.keep hsame fun g _ ↦ ?_⟩
    rw [henqueued.flows_eq, Thread.withLink_flows]
    exact (nextCombination_marks s.t f).kind g

theorem Inv.enqueue (h : Inv c s) (hf : f ∈ s.used) {t : Thread}
    (hcall : s.t.nlmFlowEnqueueSearch c k f start stop userCookie = (.ok, some j, t)) :
    Inv c { s with t := t, waiting := j :: s.waiting } := by
  have hkind : (s.t.device.flows f).type ≠ .invalid → (s.t.device.flows f).type ≠ .stateless →
      (s.t.device.flows f).isStateless = false := by
    intro hvalid hne
    apply h.stateful f
    cases htype : (s.t.device.flows f).type with
    | invalid => exact absurd htype hvalid
    | stateless => exact absurd htype hne
    | stateful => rfl
  obtain ⟨hne, -⟩ | ⟨hvalid, henqueued | henqueued⟩ := enqueueSearch_cases hcall
  · exact absurd rfl hne
  · refine (h.withLink.enqueuedOk henqueued hf ?_).2.2
    rw [Thread.withLink_flows]
    exact hkind hvalid
  · have hmarks := nextCombination_marks s.t f
    refine ((h.nextCombination f).withLink.enqueuedOk henqueued hf ?_).2.2
    rw [Thread.withLink_flows]
    intro hne
    exact (hmarks.kind f).trans (hkind hvalid fun htype ↦ hne ((hmarks.type_eq f).trans htype))

theorem Inv.invalidate (h : Inv c s) (f : ℕ) : Inv c { s with t := s.t.invalidated f } ∧
    ∀ g, ((s.t.invalidated f).device.flows g).isStateless =
      (s.t.device.flows g).isStateless := by
  have hkind : ∀ g, ((s.t.invalidated f).device.flows g).isStateless =
      (s.t.device.flows g).isStateless := fun g ↦ by
    rcases eq_or_ne g f with rfl | hne
    · rw [Thread.invalidated_flow]
    · exact congrArg NlmFlow.isStateless (Function.update_of_ne hne ..)
  have htype : ∀ g {type : NlmFlowType}, ((s.t.invalidated f).device.flows g).type = type →
      type ≠ .invalid → (s.t.device.flows g).type = type := fun g type hg hvalid ↦ by
    rcases eq_or_ne g f with rfl | hne
    · rw [Thread.invalidated_flow] at hg
      exact absurd hg.symm hvalid
    · exact (congrArg NlmFlow.type (Function.update_of_ne hne ..)).symm.trans hg
  refine ⟨?_, hkind⟩
  apply h.setFlows
  · rfl
  · rfl
  · rfl
  · exact fun g _ ↦ hkind g
  · exact fun g hg ↦ (hkind g).trans (h.stateless g (htype g hg (by decide)))
  · exact fun g hg ↦ (hkind g).trans (h.stateful g (htype g hg (by decide)))
  · exact fun _ hg ↦ hg
  · exact .refl _

theorem startFinish_marks {t t' : Thread} {taken : ℕ → ℕ} {status : NlmStatus}
    (h : t.startFinish taken f (some j) = .ok (status, t')) :
    Marks [j] t.device t'.device ∧ t'.m = t.m ∧
      t' = { t with device := t'.device } := by
  unfold Thread.startFinish at h
  split at h
  · next j p heq hpd =>
    cases heq
    obtain ⟨-, -, h⟩ := bind_eq_ok h
    obtain ⟨device, htry, h⟩ := bind_eq_ok h
    cases h
    refine ⟨?_, rfl, rfl⟩
    apply Marks.then_same _ (tryStart_marks htry)
    refine Marks.then_same ?_ (Marks.setJob _ j ?_ ?_)
    · exact (Marks.startPd hpd rfl rfl).then_same (Marks.addJobToList _ f j p)
    · rfl
    · rfl
  · cases h

theorem Inv.enqueueFinish (h : Inv c s) (hk : Kinds s.used s.t.device s.t.m)
    (c' : PacketConfig) :
    Inv c { s with t := (s.t.enqueueFinish c c' f userCookie).2.2 } ∧
      Kinds s.used (s.t.enqueueFinish c c' f userCookie).2.2.device
        (s.t.enqueueFinish c c' f userCookie).2.2.m := by
  obtain ⟨hinv, hkind⟩ := h.invalidate f
  have henqueued := Thread.enqueueFinish_enqueued c c' s.t f userCookie
  have hsame := enqueued_sameFlows henqueued
  rw [Thread.withLink_m] at hsame
  refine ⟨(hinv.nextCombination f).withLink.enqueued henqueued, hk.keep hsame fun g _ ↦ ?_⟩
  rw [henqueued.flows_eq, Thread.withLink_flows]
  exact ((nextCombination_marks _ f).kind g).trans (hkind g)

theorem Inv.destroyStateful (h : Inv c s) (hk : Kinds s.used s.t.device s.t.m) (hf : f ∈ s.used)
    {taken : ℕ → ℕ} {status : NlmStatus} {t : Thread}
    (hcall : s.t.nlmDestroyStatefulFlow c k taken f userCookie = .ok (status, t)) :
    Inv c { s with
      t := t
      started := if status = .ok then
        (s.t.enqueueFinish c k f userCookie).2.1.toList ++ s.started else s.started } ∧
      Kinds s.used t.device t.m := by
  obtain ⟨hinv, hkind⟩ := h.invalidate f
  unfold Thread.nlmDestroyStatefulFlow at hcall
  split at hcall
  · cases hcall
    exact ⟨h, hk⟩
  · cases hcall
    exact ⟨h, hk⟩
  · next htype =>
    split at hcall
    · cases hcall
      refine ⟨hinv.same (.refl _) (.freeFlow _ f), ?_⟩
      exact (hk.free hf).keep (.refl _) fun g _ ↦ hkind g
    · simp only at hcall
      split at hcall
      · next hfailed =>
        cases hcall
        rw [if_neg hfailed]
        exact h.enqueueFinish hk k
      · next hok =>
        have henqueued := Thread.enqueueFinish_enqueued c k s.t f userCookie
        obtain ⟨-, hkAfter⟩ := h.enqueueFinish (f := f) hk k
        rcases hr : s.t.enqueueFinish c k f userCookie with ⟨status', job, t'⟩
        rw [hr] at henqueued hcall hok hkAfter
        cases not_not.mp hok
        cases job with
        | none => cases henqueued
        | some j =>
          have hnot : ((s.t.invalidated f).device.flows f).isStateless = false :=
            (hkind f).trans (h.stateful f htype)
          have hkindAfter : ((((s.t.invalidated f).nextCombination f).withLink c).device.flows
              f).isStateless = false := by
            rw [Thread.withLink_flows]
            exact ((nextCombination_marks _ f).kind f).trans hnot
          obtain ⟨hj, -, hwaiting⟩ :=
            (hinv.nextCombination f).withLink.enqueuedOk henqueued hf fun _ ↦ hkindAfter
          obtain ⟨hmarks, hm, ht⟩ := startFinish_marks hcall
          have hstatus := Thread.startFinish_status hcall
          have hstarted := hwaiting.startBatch
            (fun i hi ↦ List.mem_singleton.mp hi ▸ List.mem_cons_self) (List.nodup_singleton j)
            hmarks (fun _ hi ↦ hi) fun _ hi _ ↦ hi
          have hfilter : (j :: s.waiting).filter (· ∉ [j]) = s.waiting := by
            rw [List.filter_cons_of_neg (by simp), List.filter_eq_self]
            intro i hi
            simp only [List.mem_singleton, decide_not, Bool.not_eq_true', decide_eq_false_iff_not]
            exact ne_of_mem_of_not_mem (List.mem_append_left _ hi) hj
          change Inv c { s with
            t := { t' with device := t.device }
            waiting := (j :: s.waiting).filter (· ∉ [j])
            started := [j] ++ s.started } at hstarted
          rw [hfilter, ← ht] at hstarted
          rw [hm, if_pos hstatus]
          exact ⟨hstarted, hkAfter.keep (.refl _) fun g _ ↦ hmarks.kind g⟩

theorem finishStateful_marks {d d' : NlmDevice} {errorCode : ℕ} {isFrd : Bool}
    (h : d.finishStateful f p errorCode isFrd = .ok d') :
    ∃ d₁, Marks [] d d₁ ∧ d' = d₁.sysmemFreePd p := by
  unfold NlmDevice.finishStateful at h
  obtain ⟨-, -, h⟩ := bind_eq_ok h
  obtain ⟨d₁, hnotice, h⟩ := bind_eq_ok h
  cases h
  refine ⟨d₁, ?_, rfl⟩
  have hnote : Marks [] d (d.noteError f errorCode) := by
    unfold NlmDevice.noteError
    split
    · exact .refl d
    · exact .setFlow d f rfl rfl
  refine hnote.same_trans ?_
  split at hnotice
  · unfold nlmFlowNoticeJobCompletion at hnotice
    split at hnotice
    · obtain ⟨-, -, hnotice⟩ := bind_eq_ok hnotice
      cases hnotice
      exact .setFlow _ f rfl rfl
    · split at hnotice
      · cases hnotice
        exact .refl _
      · obtain ⟨-, -, hnotice⟩ := bind_eq_ok hnotice
        cases hnotice
        have hhead : Marks [] (d.noteError f errorCode) ((d.noteError f errorCode).setFlow f
            fun flow ↦ { flow with
              pendingPdHead := some ((d.noteError f errorCode).pds p).pdNla.pdNlaIndex }) :=
          .setFlow _ f rfl rfl
        exact hhead.same_trans (.of_same rfl rfl rfl rfl)
  · cases hnotice
    exact .refl _

/-- A live job gives its PD and its slot back, after its flow if that is freed too. -/
theorem Inv.removeStateful (h : Inv c s) (hj : j ∈ s.live)
    (hp : (s.t.device.jobs j).pd = some p) (hmarks : Marks [] s.t.device device)
    (hlists : SameLists s.t.m m) :
    Inv c { s with
      t := { s.t with device := device.sysmemFreePd p, m := (m.freePd p).freeJob j }
      waiting := s.waiting.erase j
      started := s.started.erase j } := by
  apply h.remove hj
  · exact hmarks.jobs_pd
  · exact hmarks.jobs_flow
  · intro q hq
    have hne : q ≠ p := fun heq ↦ hq (heq ▸ hp)
    rw [sysmemFreePd_of_ne device hne]
    exact ⟨hmarks.kept q fun _ hi ↦ absurd hi List.not_mem_nil, hmarks.cookie q⟩
  · exact hmarks.kind
  · exact fun f hf ↦ (hmarks.kind f).trans (h.stateless f ((hmarks.type_eq f).symm.trans hf))
  · exact fun f hf ↦ (hmarks.kind f).trans (h.stateful f ((hmarks.type_eq f).symm.trans hf))
  · exact hmarks.thread
  · exact fun jobs hinv hmem ↦ JobInv.free (hlists.jobInv hinv) hmem
  · intro pds hinv hmem
    refine ⟨pds.erase p, PdInv.free (hlists.pdInv hinv) (hmem p hp), fun q hq hne ↦ ?_⟩
    have hqp : q ≠ p := by
      rintro rfl
      exact hne hp
    exact (List.mem_erase_of_ne hqp).mpr hq

theorem Inv.cancel (h : Inv c s) (hj : j ∈ s.waiting) {t : Thread}
    (hcall : s.t.nlmCancelJob j = .ok (.ok, t)) :
    Inv c { s with t := t, waiting := s.waiting.erase j } ∧
      SameFlows s.t.m t.m ∧ t.device.flows = s.t.device.flows := by
  have hstarted : s.started.erase j = s.started := by
    apply List.erase_of_not_mem
    exact fun hmem ↦ (List.nodup_append.mp h.nodup).2.2 j hj j hmem rfl
  unfold Thread.nlmCancelJob at hcall
  split at hcall
  · cases hcall
  · next p hp =>
    split at hcall
    · cases hcall
    · split at hcall
      · cases hcall
      · split at hcall
        · cases hcall
        · obtain ⟨-, -, hcall⟩ := bind_eq_ok hcall
          cases hcall
          have hinv := h.removeStateful (List.mem_append_left _ hj) hp (.refl _) (.refl _)
          rw [hstarted] at hinv
          exact ⟨hinv, ⟨rfl, rfl, rfl, rfl⟩, rfl⟩

theorem finishStateless_same (d : NlmDevice) (f errorCode : ℕ) :
    (d.finishStateless f errorCode).1.pds = d.pds ∧
      (d.finishStateless f errorCode).1.threadId = d.threadId := by
  have hnote : (d.noteError f errorCode).pds = d.pds ∧
      (d.noteError f errorCode).threadId = d.threadId := by
    unfold noteError
    split <;> exact ⟨rfl, rfl⟩
  unfold finishStateless
  simp only
  split <;> exact hnote

theorem Inv.finishStateless (h : Inv c s) (hj : j ∈ s.started) (errorCode : ℕ) :
    Inv c { s with
      t := { s.t with
        device := (s.t.device.finishStateless f errorCode).1
        m := if (s.t.device.finishStateless f errorCode).2 then (s.t.m.freeJob j).freeFlow f
          else s.t.m.freeJob j }
      started := s.started.erase j } := by
  obtain ⟨-, htype, hkind, -, hjobs, -⟩ := s.t.device.finishStateless_spec f errorCode
  obtain ⟨hpds, hthread⟩ := finishStateless_same s.t.device f errorCode
  have hwaiting : s.waiting.erase j = s.waiting := by
    apply List.erase_of_not_mem
    exact fun hmem ↦ (List.nodup_append.mp h.nodup).2.2 j hmem j hj rfl
  have hlists : ∀ freed : Bool, SameLists (s.t.m.freeJob j)
      (if freed then (s.t.m.freeJob j).freeFlow f else s.t.m.freeJob j) := fun freed ↦ by
    split
    · exact .freeFlow _ f
    · exact .refl _
  have hinv : Inv c { s with
      t := { s.t with
        device := (s.t.device.finishStateless f errorCode).1
        m := if (s.t.device.finishStateless f errorCode).2 then (s.t.m.freeJob j).freeFlow f
          else s.t.m.freeJob j }
      waiting := s.waiting.erase j
      started := s.started.erase j } := by
    apply h.remove (List.mem_append_right _ hj)
    · exact fun i ↦ congrArg (fun jobs ↦ (jobs i).pd) hjobs
    · exact fun i ↦ congrArg (fun jobs ↦ (jobs i).flow) hjobs
    · exact fun q _ ↦ ⟨congrArg (fun pds ↦ (pds q).rsv01) hpds,
        congrArg (fun pds ↦ (pds q).cookie) hpds⟩
    · exact hkind
    · exact fun g hg ↦ (hkind g).trans (h.stateless g ((htype g).symm.trans hg))
    · exact fun g hg ↦ (hkind g).trans (h.stateful g ((htype g).symm.trans hg))
    · exact hthread
    · exact fun jobs hinv hmem ↦ (hlists _).jobInv (JobInv.free hinv hmem)
    · exact fun pds hinv _ ↦ ⟨pds, (hlists _).pdInv hinv, fun q hq _ ↦ hq⟩
  rw [hwaiting] at hinv
  exact hinv

theorem destroyStateless_flows (d : NlmDevice) (f : ℕ) :
    (d.nlmDestroyStatelessFlow f).2.1.jobs = d.jobs ∧
    (d.nlmDestroyStatelessFlow f).2.1.pds = d.pds ∧
    (d.nlmDestroyStatelessFlow f).2.1.threadId = d.threadId ∧
    (∀ g, ((d.nlmDestroyStatelessFlow f).2.1.flows g).isStateless = (d.flows g).isStateless) ∧
    ∀ g, ((d.nlmDestroyStatelessFlow f).2.1.flows g).type = (d.flows g).type ∨
      ((d.nlmDestroyStatelessFlow f).2.1.flows g).type = .invalid := by
  have hone : ∀ d : NlmDevice, ∀ g,
      ((d.setFlow f fun flow ↦ { flow with type := .invalid }).flows g).isStateless =
        (d.flows g).isStateless ∧
      (((d.setFlow f fun flow ↦ { flow with type := .invalid }).flows g).type =
        (d.flows g).type ∨
      ((d.setFlow f fun flow ↦ { flow with type := .invalid }).flows g).type = .invalid) := by
    intro d g
    rcases eq_or_ne g f with rfl | hne
    · simp [setFlow]
    · simp [setFlow, hne]
  unfold nlmDestroyStatelessFlow
  cases (d.flows f).type with
  | stateful => exact ⟨rfl, rfl, rfl, fun _ ↦ rfl, fun _ ↦ .inl rfl⟩
  | invalid => exact ⟨rfl, rfl, rfl, fun _ ↦ rfl, fun _ ↦ .inl rfl⟩
  | stateless =>
    simp only
    split
    · refine ⟨rfl, rfl, rfl, fun g ↦ ?_, fun g ↦ ?_⟩
      · exact (hone _ g).1.trans (hone d g).1
      · cases (hone _ g).2 with
        | inl heq => exact (hone d g).2.imp heq.trans heq.trans
        | inr heq => exact .inr heq
    · exact ⟨rfl, rfl, rfl, fun g ↦ (hone d g).1, fun g ↦ (hone d g).2⟩

/-! ## Runs -/

theorem Inv.createFlow (h : Inv c s) (hk : Kinds s.used s.t.device s.t.m)
    {flowType : NlmFlowType} (hcall : s.t.m.nlmCreateFlow c flowType = (.ok, some f, m)) :
    Inv c { s with
      t := { s.t with
        device := s.t.device.setFlow f fun _ ↦ InFlight.createdFlow flowType (m.pdfIndex f)
        m := m }
      used := f :: s.used } := by
  obtain ⟨hkind, hlists, -⟩ := hk.create hcall
  have hself : ((s.t.device.setFlow f fun _ ↦
      InFlight.createdFlow flowType (m.pdfIndex f)).flows f) =
        InFlight.createdFlow flowType (m.pdfIndex f) := Function.update_self ..
  have hother : ∀ g, g ≠ f → ((s.t.device.setFlow f fun _ ↦
      InFlight.createdFlow flowType (m.pdfIndex f)).flows g) = s.t.device.flows g :=
    fun g hg ↦ Function.update_of_ne hg ..
  apply h.setFlows
  · rfl
  · rfl
  · rfl
  · intro g hg
    rcases eq_or_ne g f with rfl | hne
    · rw [hself, hkind hg]
      rfl
    · rw [hother g hne]
  · intro g hg
    rcases eq_or_ne g f with rfl | hne
    · rw [hself] at hg ⊢
      change flowType = _ at hg
      subst hg
      rfl
    · rw [hother g hne] at hg ⊢
      exact h.stateless g hg
  · intro g hg
    rcases eq_or_ne g f with rfl | hne
    · rw [hself] at hg ⊢
      change flowType = _ at hg
      subst hg
      rfl
    · rw [hother g hne] at hg ⊢
      exact h.stateful g hg
  · exact fun g hg ↦ List.mem_cons_of_mem _ hg
  · exact hlists

theorem Inv.destroyStateless (h : Inv c s) (hk : Kinds s.used s.t.device s.t.m)
    (hf : f ∈ s.used) (m : Allocators)
    (hm : m = if (s.t.device.nlmDestroyStatelessFlow f).2.2 then s.t.m.freeFlow f else s.t.m) :
    Inv c { s with
      t := { s.t with device := (s.t.device.nlmDestroyStatelessFlow f).2.1, m := m } } ∧
      Kinds s.used (s.t.device.nlmDestroyStatelessFlow f).2.1 m := by
  subst hm
  obtain ⟨hjobs, hpds, hthread, hkind, htype⟩ := destroyStateless_flows s.t.device f
  have hvalid : ∀ g {type : NlmFlowType},
      ((s.t.device.nlmDestroyStatelessFlow f).2.1.flows g).type = type → type ≠ .invalid →
      (s.t.device.flows g).type = type := by
    intro g type hg hne
    cases htype g with
    | inl heq => exact heq.symm.trans hg
    | inr heq => exact absurd (hg.symm.trans heq) hne
  constructor
  · apply h.setFlows
    · exact hjobs
    · exact hpds
    · exact hthread
    · exact fun g _ ↦ hkind g
    · exact fun g hg ↦ (hkind g).trans (h.stateless g (hvalid g hg (by decide)))
    · exact fun g hg ↦ (hkind g).trans (h.stateful g (hvalid g hg (by decide)))
    · exact fun _ hg ↦ hg
    · split
      · exact .freeFlow _ f
      · exact .refl _
  · have hfreed : Kinds s.used s.t.device (if (s.t.device.nlmDestroyStatelessFlow f).2.2 then
        s.t.m.freeFlow f else s.t.m) := by
      split
      · exact hk.free hf
      · exact hk
    exact hfreed.keep (.refl _) fun g _ ↦ hkind g

theorem Inv.finishStateful (h : Inv c s) (hk : Kinds s.used s.t.device s.t.m)
    {p errorCode : ℕ} {isFrd : Bool} {device : NlmDevice} (hj : j ∈ s.started)
    (hflow : (s.t.device.jobs j).flow = some f) (hp : (s.t.device.jobs j).pd = some p)
    (hcall : s.t.device.finishStateful f p errorCode isFrd = .ok device) (m : Allocators)
    (hm : m = if (s.t.device.pds p).flowTerm then s.t.m.freeFlow f else s.t.m) :
    Inv c { s with
      t := { s.t with device := device, m := (m.freePd p).freeJob j }
      started := s.started.erase j } ∧
      Kinds s.used device ((m.freePd p).freeJob j) := by
  subst hm
  obtain ⟨device, hmarks, rfl⟩ := finishStateful_marks hcall
  obtain ⟨g, hg, hjg, -⟩ := h.job_flow j (List.mem_append_right _ hj)
  cases hflow.symm.trans hjg
  have hwaiting : s.waiting.erase j = s.waiting := by
    apply List.erase_of_not_mem
    exact fun hmem ↦ (List.nodup_append.mp h.nodup).2.2 j hmem j hj rfl
  have hlists : SameLists s.t.m
      (if (s.t.device.pds p).flowTerm then s.t.m.freeFlow f else s.t.m) := by
    split
    · exact .freeFlow _ f
    · exact .refl _
  have hfreed : Kinds s.used s.t.device
      (if (s.t.device.pds p).flowTerm then s.t.m.freeFlow f else s.t.m) := by
    split
    · exact hk.free hg
    · exact hk
  have hinv := h.removeStateful (List.mem_append_right _ hj) hp hmarks hlists
  rw [hwaiting] at hinv
  exact ⟨hinv, hfreed.keep ⟨rfl, rfl, rfl, rfl⟩ fun g _ ↦ hmarks.kind g⟩

theorem Step.inv (hstep : Step c k s s') (h : Inv c s) (hk : Kinds s.used s.t.device s.t.m) :
    Inv c s' ∧ Kinds s'.used s'.t.device s'.t.m := by
  cases hstep with
  | createFlow flowType hcall => exact ⟨h.createFlow hk hcall, (hk.create hcall).2.2 _⟩
  | createFlowFailed flowType hcall =>
    obtain ⟨hlists, hkinds⟩ := hk.createFailed hcall
    exact ⟨h.same (.refl _) hlists, hkinds⟩
  | changeGroups f groups combination =>
    have hmarks : Marks [] s.t.device (s.t.device.setFlow f fun flow ↦
        { flow with dbGroupId := groups, dbGroupCombination := combination }) :=
      .setFlow _ f rfl rfl
    exact ⟨h.same hmarks (.refl _), hk.keep (.refl _) fun g _ ↦ hmarks.kind g⟩
  | enqueue hf hcall => exact ⟨h.enqueue hf hcall, (h.enqueueFailed hk hcall).2⟩
  | enqueueFailed hstatus hcall => exact h.enqueueFailed hk hcall
  | cancel hj hcall =>
    obtain ⟨hinv, hsame, hflows⟩ := h.cancel hj hcall
    refine ⟨hinv, hk.keep hsame fun g _ ↦ ?_⟩
    rw [hflows]
  | @startOk batch taken device hwait hnodup hcall =>
    obtain ⟨-, hcheck, hmarks⟩ | ⟨hne, -⟩ := startJobs_marks hcall
    · refine ⟨h.startBatch hwait hnodup hmarks (fun j hj ↦ List.mem_of_mem_filter hj)
        (fun j hj hpd ↦ ?_), hk.keep (.refl _) fun g _ ↦ hmarks.kind g⟩
      apply List.mem_filter.mpr
      exact ⟨hj, decide_eq_true (h.stateful_of_pd hcheck hj (hwait j hj) hpd)⟩
    · exact absurd rfl hne
  | startError hstatus hcall =>
    obtain ⟨hok, -⟩ | ⟨-, hmarks⟩ := startJobs_marks hcall
    · exact absurd hok hstatus
    · exact ⟨h.same hmarks (.refl _), hk.keep (.refl _) fun g _ ↦ hmarks.kind g⟩
  | destroyStateful hf hcall => exact h.destroyStateful hk hf hcall
  | destroyStateless hf => exact h.destroyStateless hk hf _ rfl
  | finishStateful hj hflow hpd hcall => exact h.finishStateful hk hj hflow hpd hcall _ rfl
  | @finishStateless j f errorCode hj hflow hpd =>
    obtain ⟨g, hg, hjg, -⟩ := h.job_flow j (List.mem_append_right _ hj)
    cases hflow.symm.trans hjg
    obtain ⟨-, -, hkind, -⟩ := s.t.device.finishStateless_spec f errorCode
    have hkFree : Kinds s.used (s.t.device.finishStateless f errorCode).1 (s.t.m.freeJob j) :=
      hk.keep ⟨rfl, rfl, rfl, rfl⟩ fun g _ ↦ hkind g
    refine ⟨h.finishStateless hj errorCode, ?_⟩
    change Kinds s.used _ (if _ then _ else _)
    split
    · exact hkFree.free hg
    · exact hkFree
  | tryStart hcall =>
    have hmarks := tryStart_marks hcall
    exact ⟨h.same hmarks (.refl _), hk.keep (.refl _) fun g _ ↦ hmarks.kind g⟩
  | take n =>
    have hmarks := Marks.takeFds s.t.device n
    exact ⟨h.same hmarks (.refl _), hk.keep (.refl _) fun g _ ↦ hmarks.kind g⟩
  | forceOneFd f =>
    have hmarks : Marks [] s.t.device (s.t.device.setFlow f fun flow ↦
        { flow with lastPd := none }) := .setFlow _ f rfl rfl
    exact ⟨h.same hmarks (.refl _), hk.keep (.refl _) fun g _ ↦ hmarks.kind g⟩

theorem AnyStep.inv (hstep : AnyStep c k s s') (h : Inv c s)
    (hk : Kinds s.used s.t.device s.t.m) : Inv c s' ∧ Kinds s'.used s'.t.device s'.t.m := by
  cases hstep with
  | call hcall => exact hcall.inv h hk
  | @setFlowOffset f htype offset =>
    have hmarks : Marks [] s.t.device (s.t.device.setFlow f fun flow ↦
        { flow with flowOffset := offset }) := .setFlow _ f rfl rfl
    exact ⟨h.same hmarks (.refl _), hk.keep (.refl _) fun g _ ↦ hmarks.kind g⟩

theorem inv_start (hc : c.Accepted) (inputFifoSize : ℕ) (usingManagerThread : Bool)
    (packetBase : List ℕ) (policy : ℕ) :
    Inv c (JobRun.start c inputFifoSize usingManagerThread packetBase policy) ∧
      Kinds [] (JobRun.start c inputFifoSize usingManagerThread packetBase policy).t.device
        (JobRun.start c inputFifoSize usingManagerThread packetBase policy).t.m := by
  have hinv := AllocRun.inv_start hc
  have hnil : ∀ {α : Type} {p : α → Prop}, ∀ x ∈ ([] : List α), p x := fun _ hx ↦
    absurd hx List.not_mem_nil
  constructor
  · refine ⟨⟨[], hinv.jobs, hnil⟩, ⟨[], hinv.pds, hnil⟩, List.nodup_nil, hnil, hnil, hnil, hnil,
      fun f hf ↦ ?_, fun f hf ↦ ?_⟩
    · cases hf
    · rfl
  · exact ⟨hnil, hnil, hnil, hnil⟩

theorem Reaches.inv (hc : c.Accepted) {inputFifoSize policy : ℕ} {usingManagerThread : Bool}
    {packetBase : List ℕ}
    (hrun : Reaches c k (JobRun.start c inputFifoSize usingManagerThread packetBase policy) s) :
    Inv c s ∧ Kinds s.used s.t.device s.t.m := by
  induction hrun with
  | refl => exact inv_start hc inputFifoSize usingManagerThread packetBase policy
  | tail _ hstep ih => exact hstep.inv ih.1 ih.2

/-! ## What can be cancelled -/

theorem enqueued_job {t t' : Thread}
    (h : Thread.Enqueued c k t f start stop userCookie (.ok, some j, t')) :
    (t'.device.jobs j).flow = some f ∧ t'.device.threadId = t.device.threadId := by
  cases h with
  | @stateless _ n physAddr base =>
    exact ⟨congrArg NlmJob.flow (t.device.enqueueStateless_job f j userCookie
      ⟨base, physAddr % 2 ^ 32, n⟩), rfl⟩
  | @stateful _ p n physAddr base =>
    exact ⟨congrArg NlmJob.flow (t.device.enqueueStateful_job f j p userCookie
      ⟨base, physAddr % 2 ^ 32, n⟩), rfl⟩

end JobRun

end NetL7.Packet
