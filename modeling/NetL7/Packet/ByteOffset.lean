import NetL7.Packet.Cancel
import NetL7.Packet.FlowOffset
import NetL7.Packet.StartOffsets

/-!
# Offsets within a packet

`populate_results` subtracts from the position of a match the offset that the start
of the job recorded. For a stateless job that is 0, but behind a manager thread
nothing is recorded, and the job slot holds what was there: the link of the free list,
if the slot was used before.
-/

namespace NetL7.Packet

open NetL7.Device AllocRun NlmDevice

/-! ## The calls -/

namespace Thread

variable {c : ThreadConfig} {k : PacketConfig} {t t' : Thread}
  {f j start stop userCookie : ℕ} {r : NlmStatus × Option ℕ × Thread}

theorem fillJob_offsets (t : Thread) (f j userCookie : ℕ) :
    (∀ i, ((t.fillJob f j userCookie).jobs i).flowOffset = (t.device.jobs i).flowOffset) ∧
      ∀ i, ((t.fillJob f j userCookie).jobs i).pd = (t.device.jobs i).pd := by
  unfold fillJob
  constructor
  · intro i
    rw [setJob_flowOffset]
    split
    · next heq => rw [heq, NlmJob.ofFlow]
    · rfl
  · intro i
    rw [setJob_pd]
    split
    · next heq => rw [heq, NlmJob.ofFlow]
    · rfl

theorem enqueueStateless_offsets (d : NlmDevice) (f j userCookie : ℕ) (packet : Payload) :
    (∀ i, ((d.enqueueStateless f j userCookie packet).jobs i).flowOffset =
        (d.jobs i).flowOffset) ∧
      ∀ i ≠ j, ((d.enqueueStateless f j userCookie packet).jobs i).pd = (d.jobs i).pd := by
  unfold NlmDevice.enqueueStateless
  refine ⟨fun i ↦ ?_, fun i hi ↦ ?_⟩
  · rw [setJob_flowOffset]
    split
    · next heq => rw [heq, NlmJob.ofFlow]
    · rfl
  · rw [setJob_pd, if_neg hi]

theorem enqueueStateful_offsets (d : NlmDevice) (f j p userCookie : ℕ) (packet : Payload) :
    (∀ i, ((d.enqueueStateful f j p userCookie packet).jobs i).flowOffset =
        (d.jobs i).flowOffset) ∧
      (∀ i ≠ j, ((d.enqueueStateful f j p userCookie packet).jobs i).pd = (d.jobs i).pd) ∧
      ((d.enqueueStateful f j p userCookie packet).jobs j).pd = some p ∧
      ((d.enqueueStateful f j p userCookie packet).pds p).packetByteCount =
        packet.packetByteCount := by
  refine ⟨fun i ↦ ?_, fun i hi ↦ ?_, ?_, ?_⟩
  · rcases eq_or_ne i j with rfl | hne
    · rw [d.enqueueStateful_job, NlmJob.ofFlow]
    · rw [d.enqueueStateful_job_of_ne hne]
  · rw [d.enqueueStateful_job_of_ne hi]
  · rw [d.enqueueStateful_job]
  · simp only [NlmDevice.enqueueStateful, setPd, Function.update_self]

/-- Enqueueing leaves the offsets of all jobs, and the PDs of the others. -/
theorem Enqueued.offsets (h : Enqueued c k t f start stop userCookie r) :
    (∀ i, (r.2.2.device.jobs i).flowOffset = (t.device.jobs i).flowOffset) ∧
      ∀ i, r.2.1 ≠ some i → (r.2.2.device.jobs i).pd = (t.device.jobs i).pd := by
  cases h with
  | noJob => exact ⟨fun _ ↦ rfl, fun _ _ ↦ rfl⟩
  | @badSize j => exact (t.fillJob_offsets f j userCookie).imp_right fun h i _ ↦ h i
  | @statelessNoBase j => exact (t.fillJob_offsets f j userCookie).imp_right fun h i _ ↦ h i
  | @noPd j => exact (t.fillJob_offsets f j userCookie).imp_right fun h i _ ↦ h i
  | @statefulNoBase j => exact (t.fillJob_offsets f j userCookie).imp_right fun h i _ ↦ h i
  | @stateless j n physAddr base =>
      obtain ⟨hoffset, hpd⟩ :=
        enqueueStateless_offsets t.device f j userCookie ⟨base, physAddr % 2 ^ 32, n⟩
      exact ⟨hoffset, fun i hi ↦ hpd i fun heq ↦ hi (congrArg some heq.symm)⟩
  | @stateful j p n physAddr base =>
      obtain ⟨hoffset, hpd, -⟩ :=
        enqueueStateful_offsets t.device f j p userCookie ⟨base, physAddr % 2 ^ 32, n⟩
      exact ⟨hoffset, fun i hi ↦ hpd i fun heq ↦ hi (congrArg some heq.symm)⟩

theorem nextCombination_offsets (t : Thread) (f : ℕ) :
    Offsets t.device (t.nextCombination f).device := by
  simp only [nextCombination]
  apply Offsets.setFlow
  rfl

theorem invalidated_offsets (t : Thread) (f : ℕ) :
    Offsets t.device (t.invalidated f).device := by
  simp only [invalidated]
  apply Offsets.setFlow
  rfl

/-- The two steps before a flow gets its last packet. -/
theorem finishing_offsets (t : Thread) (f : ℕ) :
    Offsets t.device ((t.invalidated f).nextCombination f).device :=
  (t.invalidated_offsets f).trans (nextCombination_offsets _ f)

theorem enqueueFinish_bytes (h : t.enqueueFinish c k f userCookie = (.ok, some j, t')) :
    ∃ p, (t'.device.jobs j).flow = some f ∧ (t'.device.jobs j).pd = some p ∧
      (t'.device.pds p).packetByteCount = 0 := by
  have henqueued := enqueueFinish_enqueued c k t f userCookie
  rw [h] at henqueued
  have hflow := (JobRun.enqueued_job henqueued).1
  cases henqueued with
  | stateless _ _ hstateless =>
      have hinvalid : (((t.invalidated f).nextCombination f).device.flows f).type = .invalid := by
        simp [Thread.nextCombination, Thread.invalidated, NlmDevice.setFlow]
      rw [withLink_flows, hinvalid] at hstateless
      cases hstateless
  | @stateful _ p n physAddr base _ _ _ _ hrange =>
      obtain ⟨-, -, hpd, hbytes⟩ := enqueueStateful_offsets
        (((t.invalidated f).nextCombination f).withLink c).device f j p userCookie
        ⟨base, physAddr % 2 ^ 32, n⟩
      cases hrange
      exact ⟨p, hflow, hpd, hbytes⟩

theorem startFinish_offsets {taken : ℕ → ℕ} {status : NlmStatus}
    (h : t.startFinish taken f (some j) = .ok (status, t')) :
    SameWork t.device t'.device ∧
      (∀ g, (t'.device.flows g).flowOffset = (t.device.flows g).flowOffset) ∧
      ∀ i, (t'.device.jobs i).flowOffset =
        if i = j then (t.device.flows f).flowOffset else (t.device.jobs i).flowOffset := by
  unfold startFinish at h
  split at h
  · next j p heq hpd =>
    cases heq
    obtain ⟨-, -, h⟩ := bind_eq_ok h
    obtain ⟨device, htry, h⟩ := bind_eq_ok h
    cases h
    have hbefore : Offsets t.device ((t.device.setPd p fun pd ↦
        { pd with flowTerm := true, rsv01 := .validAndStarted }).nlmFlowAddJobToList f j p) :=
      (Offsets.setPd _ p rfl).trans (Offsets.addJobToList _ f j p)
    have hafter := tryStart_offsets htry
    refine ⟨?_, fun g ↦ (hafter.flow g).trans (hbefore.flow g), fun i ↦ ?_⟩
    · exact (hbefore.toSameWork.trans (.setJob _ j rfl rfl)).trans hafter.toSameWork
    · rw [hafter.job i, setJob_flowOffset, hbefore.flow f, hbefore.job i]
  · cases h

end Thread

namespace JobRun

variable {c : ThreadConfig} {k : PacketConfig} {s s' : JobRun} {a : Account}
  {f j p start stop userCookie : ℕ}

/-! ## Runs -/

/-- The flows that the step created. -/
def created (s s' : JobRun) : List ℕ := s'.used.take (s'.used.length - s.used.length)

/-- The jobs that the step started, in their order. -/
def begun (s s' : JobRun) : List ℕ := s'.started.take (s'.started.length - s.started.length)

/-- A new flow begins at byte 0, and the jobs that the step started are accounted for. -/
def account (a : Account) (s s' : JobRun) : Account :=
  (begun s s').foldl (Account.begin s'.t.device)
    { a with total := (created s s').foldl (fun total f ↦ Function.update total f 0) a.total }

/-- The position of byte `b` of the packet of a job, counted from the start of the
flow for a stateful flow. -/
def position (s : JobRun) (a : Account) (j b : ℕ) : ℕ :=
  if (s.t.device.jobs j).pd = none then b else a.start j + b

/-- The flows and the started jobs hold the offsets of the account. -/
structure Tracked (s : JobRun) (a : Account) : Prop where
  agrees : a.Agrees s.t.device
  stateful : ∀ j ∈ s.started, (s.t.device.jobs j).pd ≠ none →
    (s.t.device.jobs j).flowOffset = a.start j % 2 ^ 64
  stateless : ∀ j ∈ s.started, (s.t.device.jobs j).pd = none →
    (s.t.device.jobs j).flowOffset % 2 ^ 32 = 0

theorem take_length_sub {α : Type} (new old : List α) :
    (new ++ old).take ((new ++ old).length - old.length) = new := by
  rw [List.length_append, Nat.add_sub_cancel, List.take_left]

theorem begun_append {new : List ℕ} (h : s'.started = new ++ s.started) : begun s s' = new := by
  rw [begun, h, take_length_sub]

theorem begun_of_le (h : s'.started.length ≤ s.started.length) : begun s s' = [] := by
  rw [begun, Nat.sub_eq_zero_of_le h, List.take_zero]

theorem account_of_used (h : s'.used = s.used) :
    account a s s' = (begun s s').foldl (Account.begin s'.t.device) a := by
  rw [account, created, h, Nat.sub_self, List.take_zero]
  rfl

theorem account_of_le (hused : s'.used = s.used) (h : s'.started.length ≤ s.started.length) :
    account a s s' = a := by
  rw [account_of_used hused, begun_of_le h]
  rfl

/-- A step that starts nothing keeps the started jobs tracked. -/
theorem Tracked.keep (h : Tracked s a)
    (hflow : ∀ f, (s'.t.device.flows f).flowOffset = (s.t.device.flows f).flowOffset)
    (hjob : ∀ j ∈ s'.started, j ∈ s.started ∧
      (s'.t.device.jobs j).pd = (s.t.device.jobs j).pd ∧
      ((s'.t.device.jobs j).flowOffset = (s.t.device.jobs j).flowOffset ∨
        (s'.t.device.jobs j).flowOffset = 0 ∧ (s.t.device.jobs j).pd = none)) :
    Tracked s' a where
  agrees := fun f ↦ (hflow f).trans (h.agrees f)
  stateful := fun j hj hpd ↦ by
    obtain ⟨hmem, hsame, hoffset⟩ := hjob j hj
    rw [hsame] at hpd
    rcases hoffset with heq | ⟨-, hnone⟩
    · exact heq.trans (h.stateful j hmem hpd)
    · exact absurd hnone hpd
  stateless := fun j hj hpd ↦ by
    obtain ⟨hmem, hsame, hoffset⟩ := hjob j hj
    rw [hsame] at hpd
    rcases hoffset with heq | ⟨hzero, -⟩
    · rw [heq]
      exact h.stateless j hmem hpd
    · rw [hzero, Nat.zero_mod]

theorem Tracked.same (h : Tracked s a) (hoffsets : Offsets s.t.device s'.t.device)
    (hstarted : ∀ j ∈ s'.started, j ∈ s.started) : Tracked s' a := by
  apply h.keep hoffsets.flow
  exact fun j hj ↦ ⟨hstarted j hj, hoffsets.job_pd j, .inl (hoffsets.job j)⟩

/-- Among the live jobs the stateless ones have no PD. -/
theorem Inv.pd_of_stateless (h : Inv c s) (hj : j ∈ s.live)
    (htype : s.t.device.jobType j = .stateless) : (s.t.device.jobs j).pd = none := by
  obtain ⟨f, -, hflow, hkind⟩ := h.job_flow j hj
  simp only [jobType, hflow] at htype
  exact hkind.mpr (h.stateless f htype)

theorem Inv.stateless_of_pd (h : Inv c s) {batch : List (Option ℕ)}
    (hcheck : batch.findSome? s.t.device.jobError = none) (hj : j ∈ batch.reduceOption)
    (hlive : j ∈ s.live) (hpd : (s.t.device.jobs j).pd = none) :
    s.t.device.jobType j = .stateless := by
  obtain ⟨f, -, hflow, hkind⟩ := h.job_flow j hlive
  have hjob := List.findSome?_eq_none_iff.mp hcheck _ (List.reduceOption_mem_iff.mp hj)
  simp only [jobError, hflow, ite_eq_right_iff, reduceCtorEq, imp_false] at hjob
  simp only [jobType, hflow]
  cases htype : (s.t.device.flows f).type with
  | invalid => exact absurd htype hjob
  | stateless => rfl
  | stateful =>
      have hstateful := h.stateful f htype
      rw [hkind.mp hpd] at hstateful
      cases hstateful

theorem Tracked.startOk (h : Tracked s a) (hinv : Inv c s) {batch : List (Option ℕ)}
    {taken : ℕ → ℕ} {device : NlmDevice}
    (hwait : ∀ j ∈ batch.reduceOption, j ∈ s.waiting)
    (hcall : s.t.device.nlmStartJobs taken batch = .ok (.ok, device))
    (hclean : ∀ j ∈ batch.reduceOption, (device.jobs j).pd = none →
      s.t.device.swJobFifo ≠ none → (s.t.device.jobs j).flowOffset % 2 ^ 32 = 0) :
    Tracked { s with
      t := { s.t with device := device }
      waiting := s.waiting.filter (· ∉ batch.reduceOption)
      started := batch.reduceOption ++ s.started }
      (batch.reduceOption.foldl (Account.begin device) a) := by
  obtain ⟨-, hcheck, -⟩ | ⟨hne, -⟩ := startJobs_marks hcall
  · obtain ⟨-, hstart⟩ | ⟨hne, -⟩ := startJobs_offsets h.agrees hcall
    · have hpd : ∀ j ∈ batch.reduceOption, s.t.device.jobType j ≠ .stateful →
          (s.t.device.jobs j).pd = none := fun j hj hnot ↦ by
        by_contra hsome
        exact hnot (hinv.stateful_of_pd hcheck hj (hwait j hj) hsome)
      rw [Account.foldl_begin_filter hpd, ← Account.begin_congr hstart.toSameWork] at hstart
      -- a started job is not in the batch, since no job waits when it has been started
      have hapart : ∀ j ∈ s.started, ¬ (j ∈ batch.reduceOption ∧
          s.t.device.jobType j = .stateful) := fun j hj hin ↦
        (List.nodup_append.mp hinv.nodup).2.2 j (hwait j hin.1) j hj rfl
      refine ⟨hstart.agrees, fun j hj hsome ↦ ?_, fun j hj hnone ↦ ?_⟩
      · have hsome' : (s.t.device.jobs j).pd ≠ none := by rwa [← hstart.job_pd j]
        cases List.mem_append.mp hj with
        | inl hj => exact hstart.stateful j hj (hinv.stateful_of_pd hcheck hj (hwait j hj) hsome')
        | inr hj =>
            obtain ⟨hsame, hoffset | ⟨-, htype⟩⟩ := hstart.other j (hapart j hj)
            · rw [hsame]
              exact hoffset.trans (h.stateful j hj hsome')
            · exact absurd (hinv.pd_of_stateless (List.mem_append_right _ hj) htype) hsome'
      · have hnone' : (s.t.device.jobs j).pd = none := by rwa [← hstart.job_pd j]
        cases List.mem_append.mp hj with
        | inl hj =>
            have htype :=
              hinv.stateless_of_pd hcheck hj (List.mem_append_left _ (hwait j hj)) hnone'
            by_cases hfifo : s.t.device.swJobFifo = none
            · change (device.jobs j).flowOffset % 2 ^ 32 = 0
              rw [hstart.stateless hfifo j hj htype, Nat.zero_mod]
            · have hnot : ¬ (j ∈ batch.reduceOption ∧ s.t.device.jobType j = .stateful) :=
                fun hin ↦ by
                  rw [htype] at hin
                  cases hin.2
              change (device.jobs j).flowOffset % 2 ^ 32 = 0
              obtain ⟨-, hoffset | ⟨hzero, -⟩⟩ := hstart.other j hnot
              · rw [hoffset]
                exact hclean j hj hnone hfifo
              · rw [hzero, Nat.zero_mod]
        | inr hj =>
            change (device.jobs j).flowOffset % 2 ^ 32 = 0
            obtain ⟨-, hoffset | ⟨hzero, -⟩⟩ := hstart.other j (hapart j hj)
            · rw [hoffset]
              exact h.stateless j hj hnone'
            · rw [hzero, Nat.zero_mod]
    · exact absurd rfl hne
  · exact absurd rfl hne

theorem Tracked.of_le (h : Tracked s' a) (hused : s'.used = s.used)
    (hle : s'.started.length ≤ s.started.length) : Tracked s' (account a s s') := by
  rw [account_of_le hused hle]
  exact h

theorem Tracked.of_begun (new : List ℕ)
    (h : Tracked s' (new.foldl (Account.begin s'.t.device) a)) (hused : s'.used = s.used)
    (hstarted : s'.started = new ++ s.started) : Tracked s' (account a s s') := by
  rw [account_of_used hused, begun_append hstarted]
  exact h

theorem Tracked.idle (h : Tracked s a) (hused : s'.used = s.used)
    (hstarted : s'.started = s.started) (hoffsets : Offsets s.t.device s'.t.device) :
    Tracked s' (account a s s') := by
  apply Tracked.of_le _ hused (congrArg List.length hstarted).le
  exact h.same hoffsets fun j hj ↦ hstarted ▸ hj

theorem Tracked.finish (h : Tracked s a) (hused : s'.used = s.used)
    (hstarted : s'.started = s.started.erase j) (hoffsets : Offsets s.t.device s'.t.device) :
    Tracked s' (account a s s') := by
  have hle : s'.started.length ≤ s.started.length := by
    rw [hstarted]
    exact List.length_erase_le
  apply Tracked.of_le _ hused hle
  apply h.same hoffsets
  intro i hi
  rw [hstarted] at hi
  exact List.mem_of_mem_erase hi

theorem Tracked.createFlow (h : Tracked s a) {m : Allocators} (flowType : NlmFlowType) :
    Tracked { s with
      t := { s.t with
        device := s.t.device.setFlow f fun _ ↦ InFlight.createdFlow flowType (m.pdfIndex f)
        m := m }
      used := f :: s.used } { a with total := Function.update a.total f 0 } where
  agrees := fun g ↦ by
    have hoffset := setFlow_flowOffset s.t.device f
      (fun _ ↦ InFlight.createdFlow flowType (m.pdfIndex f)) g
    refine hoffset.trans ?_
    change _ = Function.update a.total f 0 g % 2 ^ 64
    split
    · next heq =>
      rw [heq, Function.update_self, Nat.zero_mod]
      rfl
    · next hne => rw [Function.update_of_ne hne, h.agrees g]
  stateful := h.stateful
  stateless := h.stateless

/-- Enqueueing with the link in the slot leaves the offsets of all jobs in use. -/
theorem enqueued_offsets {t : Thread} {r : NlmStatus × Option ℕ × Thread}
    (henqueued : Thread.Enqueued c k (t.withLink c) f start stop userCookie r) :
    (∀ g, (r.2.2.device.flows g).flowOffset = (t.device.flows g).flowOffset) ∧
      (∀ i ∉ t.m.pool.jobList,
        (r.2.2.device.jobs i).flowOffset = (t.device.jobs i).flowOffset) ∧
      ∀ i, r.2.1 ≠ some i → (r.2.2.device.jobs i).pd = (t.device.jobs i).pd := by
  obtain ⟨hoffset, hpd⟩ := henqueued.offsets
  refine ⟨fun g ↦ ?_, fun i hi ↦ ?_, fun i hi ↦ (hpd i hi).trans (t.withLink_pd i)⟩
  · rw [henqueued.flows_eq, Thread.withLink_flows]
  · rw [hoffset, Thread.withLink_job_of_not_mem hi]

theorem enqueueSearch_offsets {r : NlmStatus × Option ℕ × Thread}
    (hcall : s.t.nlmFlowEnqueueSearch c k f start stop userCookie = r) :
    (∀ f, (r.2.2.device.flows f).flowOffset = (s.t.device.flows f).flowOffset) ∧
      (∀ i ∉ s.t.m.pool.jobList,
        (r.2.2.device.jobs i).flowOffset = (s.t.device.jobs i).flowOffset) ∧
      ∀ i, r.2.1 ≠ some i → (r.2.2.device.jobs i).pd = (s.t.device.jobs i).pd := by
  obtain ⟨-, heq⟩ | ⟨-, henqueued | henqueued⟩ := enqueueSearch_cases hcall
  · rw [heq]
    exact ⟨fun _ ↦ rfl, fun _ _ ↦ rfl, fun _ _ ↦ rfl⟩
  · exact enqueued_offsets henqueued
  · obtain ⟨hflow, hoffset, hpd⟩ := enqueued_offsets henqueued
    have hnext := s.t.nextCombination_offsets f
    exact ⟨fun g ↦ (hflow g).trans (hnext.flow g), fun i hi ↦ (hoffset i hi).trans (hnext.job i),
      fun i hi ↦ (hpd i hi).trans (hnext.job_pd i)⟩

theorem Tracked.enqueueFailed (h : Tracked s a) (hinv : Inv c s) {status : NlmStatus} {job : Option ℕ} {t : Thread}
    (hstatus : status ≠ .ok)
    (hcall : s.t.nlmFlowEnqueueSearch c k f start stop userCookie = (status, job, t)) :
    Tracked { s with t := t } a := by
  obtain ⟨hflow, hoffset, hpd⟩ := enqueueSearch_offsets hcall
  have hjob : job = none ∨ t = s.t := by
    obtain ⟨-, heq⟩ | ⟨-, henqueued | henqueued⟩ := enqueueSearch_cases hcall
    · exact .inr heq
    · exact .inl (henqueued.job_eq_none hstatus)
    · exact .inl (henqueued.job_eq_none hstatus)
  apply h.keep hflow
  intro i hi
  refine ⟨hi, ?_, .inl (hoffset i (hinv.not_free (List.mem_append_right _ hi)))⟩
  cases hjob with
  | inl hnone =>
      apply hpd i
      rw [hnone]
      exact (Option.some_ne_none i).symm
  | inr heq => rw [heq]

theorem Tracked.enqueue (h : Tracked s a) (hinv : Inv c s) {t : Thread} (hfresh : j ∉ s.started)
    (hcall : s.t.nlmFlowEnqueueSearch c k f start stop userCookie = (.ok, some j, t)) :
    Tracked { s with t := t, waiting := j :: s.waiting } a := by
  obtain ⟨hflow, hoffset, hpd⟩ := enqueueSearch_offsets hcall
  apply h.keep hflow
  intro i hi
  refine ⟨hi, ?_, .inl (hoffset i (hinv.not_free (List.mem_append_right _ hi)))⟩
  apply hpd i
  rintro ⟨⟩
  exact hfresh hi

theorem Tracked.startError (h : Tracked s a) (hinv : Inv c s) {batch : List (Option ℕ)}
    {taken : ℕ → ℕ} {status : NlmStatus} {device : NlmDevice} (hstatus : status ≠ .ok)
    (hcall : s.t.device.nlmStartJobs taken batch = .ok (status, device)) :
    Tracked { s with t := { s.t with device := device } } a := by
  obtain ⟨hok, -⟩ | ⟨-, hcleared⟩ := startJobs_offsets h.agrees hcall
  · exact absurd hok hstatus
  · apply h.keep hcleared.flow
    intro j hj
    refine ⟨hj, hcleared.job_pd j, (hcleared.job j).imp_right fun hzero ↦ ⟨hzero.1, ?_⟩⟩
    exact hinv.pd_of_stateless (List.mem_append_right _ hj) hzero.2

/-- The job that ends a flow begins at the end of the flow. -/
theorem Tracked.startFinish (h : Tracked s a) (hinv : Inv c s) {taken : ℕ → ℕ} {status : NlmStatus} {t t' : Thread}
    (henqueue : s.t.enqueueFinish c k f userCookie = (.ok, some j, t'))
    (hcall : t'.startFinish taken f (some j) = .ok (status, t)) :
    Tracked { s with t := t, started := [j] ++ s.started } (a.begin t.device j) := by
  have henqueued := Thread.enqueueFinish_enqueued c k s.t f userCookie
  rw [henqueue] at henqueued
  obtain ⟨p, hf, hp, hbytes⟩ := Thread.enqueueFinish_bytes henqueue
  obtain ⟨hwork, hflows, hjobs⟩ := Thread.startFinish_offsets hcall
  obtain ⟨hflowAfter, hoffset, hpd⟩ := enqueued_offsets henqueued
  have hbefore := s.t.finishing_offsets f
  have hflow : ∀ g, (t'.device.flows g).flowOffset = a.total g % 2 ^ 64 := fun g ↦
    (hflowAfter g).trans ((hbefore.flow g).trans (h.agrees g))
  have hother : ∀ i ≠ j, i ∈ s.started →
      (t.device.jobs i).flowOffset = (s.t.device.jobs i).flowOffset ∧
        (t.device.jobs i).pd = (s.t.device.jobs i).pd := fun i hi hstarted ↦ by
    have hne : (some j : Option ℕ) ≠ some i := fun heq ↦ hi (Option.some.inj heq).symm
    have hsame := hjobs i
    rw [if_neg hi] at hsame
    have hfree := hinv.not_free (List.mem_append_right _ hstarted)
    exact ⟨hsame.trans ((hoffset i hfree).trans (hbefore.job i)),
      (hwork.job_pd i).trans ((hpd i hne).trans (hbefore.job_pd i))⟩
  rw [Account.begin_of_some ((hwork.job_flow j).trans hf) ((hwork.job_pd j).trans hp),
    (hwork.bytes p).trans hbytes, Nat.add_zero, Function.update_eq_self]
  refine ⟨fun g ↦ (hflows g).trans (hflow g), fun i hi hsome ↦ ?_, fun i hi hnone ↦ ?_⟩
  · change (t.device.jobs i).flowOffset = Function.update a.start j (a.total f) i % 2 ^ 64
    rcases eq_or_ne i j with rfl | hne
    · have hself := hjobs i
      rw [if_pos rfl] at hself
      rw [Function.update_self, hself, hflow f]
    · have hi' := (List.mem_cons.mp hi).resolve_left hne
      obtain ⟨hsame, hpdSame⟩ := hother i hne hi'
      rw [Function.update_of_ne hne, hsame]
      exact h.stateful i hi' fun hnone ↦ hsome (hpdSame.trans hnone)
  · rcases eq_or_ne i j with rfl | hne
    · have hnone' : (t.device.jobs i).pd = none := hnone
      rw [(hwork.job_pd i).trans hp] at hnone'
      cases hnone'
    · have hi' := (List.mem_cons.mp hi).resolve_left hne
      obtain ⟨hsame, hpdSame⟩ := hother i hne hi'
      change (t.device.jobs i).flowOffset % 2 ^ 32 = 0
      rw [hsame]
      exact h.stateless i hi' (hpdSame.symm.trans hnone)

theorem Tracked.destroyStateful (h : Tracked s a) (hinv : Inv c s) {taken : ℕ → ℕ} {status : NlmStatus} {t : Thread}
    (hcall : s.t.nlmDestroyStatefulFlow c k taken f userCookie = .ok (status, t))
    (hs' : s' = { s with
      t := t
      started := if status = .ok then
        (s.t.enqueueFinish c k f userCookie).2.1.toList ++ s.started else s.started }) :
    Tracked s' (account a s s') := by
  have hidle : status ≠ .ok → Offsets s.t.device t.device → Tracked s' (account a s s') := by
    intro hne hoffsets
    rw [if_neg hne] at hs'
    subst hs'
    exact h.idle rfl rfl hoffsets
  unfold Thread.nlmDestroyStatefulFlow at hcall
  split at hcall
  · cases hcall
    exact hidle (by decide) (.refl _)
  · cases hcall
    exact hidle (by decide) (.refl _)
  · split at hcall
    · cases hcall
      exact hidle (by decide) (s.t.invalidated_offsets f)
    · simp only at hcall
      have henqueued := Thread.enqueueFinish_enqueued c k s.t f userCookie
      rcases hr : s.t.enqueueFinish c k f userCookie with ⟨status', job, t'⟩
      rw [hr] at henqueued hcall hs'
      split at hcall
      · next hfailed =>
        cases hcall
        rw [if_neg hfailed] at hs'
        subst hs'
        refine Tracked.of_le ?_ rfl le_rfl
        obtain ⟨hflowAfter, hoffset, hpd⟩ := enqueued_offsets henqueued
        have hbefore := s.t.finishing_offsets f
        have hnone : job = none := henqueued.job_eq_none hfailed
        apply h.keep
        · exact fun g ↦ (hflowAfter g).trans (hbefore.flow g)
        · intro i hi
          have hfree := hinv.not_free (List.mem_append_right _ hi)
          refine ⟨hi, (hpd i ?_).trans (hbefore.job_pd i),
            .inl ((hoffset i hfree).trans (hbefore.job i))⟩
          rw [hnone]
          exact (Option.some_ne_none i).symm
      · next hok =>
        cases not_not.mp hok
        cases job with
        | none => cases henqueued
        | some j =>
          have hstatus := Thread.startFinish_status hcall
          rw [if_pos hstatus] at hs'
          subst hs'
          refine Tracked.of_begun [j] ?_ rfl rfl
          exact h.startFinish hinv hr hcall

end JobRun

end NetL7.Packet
