import NetL7.Packet.Counts
import Mathlib.Data.Finset.Card
import Mathlib.Data.Finset.Range

/-!
# Jobs in flight on a stateless flow

`job_seq_id` of a stateless flow decides when a destroyed flow goes back to the
free list. It is counted up in `nlm_start_jobs` and down in `populate_results`.
-/

namespace NetL7.Packet

open NlmDevice

/-- A thread with the flows it has allocated, the free list of its stateless
flows, the jobs that wait to be started and the jobs that the hardware has. -/
structure InFlight where
  device : NlmDevice
  used : List ℕ
  statelessFlowList : List ℕ
  waiting : List ℕ
  started : List ℕ

/-- A memory pool of less than 4 GiB holds fewer jobs. -/
def maxJobs : ℕ := 2 ^ 32 / sizeofNlmJob

namespace InFlight

/-- The jobs of flow `f` that have been started and have no result yet. -/
def outstanding (s : InFlight) (f : ℕ) : ℕ :=
  s.started.countP fun j ↦ (s.device.jobs j).flow = some f

def start (threadId size : ℕ) (usingManagerThread : Bool) : InFlight :=
  ⟨.attached threadId size usingManagerThread, [], [], [], []⟩

/-- A flow as `nlm_create_flow` leaves it. -/
def createdFlow (flowType : NlmFlowType) (pdfIndex : ℕ) : NlmFlow :=
  { NlmFlow.zero with
    type := flowType
    isStateless := flowType == .stateless
    pdfIndex := pdfIndex }

/-- The calls of a thread and the progress of the hardware or the manager thread. A
step of `nlm_start_jobs` carries its batch and what the other side takes meanwhile. -/
inductive Step : Option ((ℕ → ℕ) × List (Option ℕ)) → InFlight → InFlight → Prop
  | createFlow {s : InFlight} {f : ℕ} (hf : f ∉ s.used) (flowType : NlmFlowType)
      (htype : flowType ≠ .invalid) (pdfIndex : ℕ) :
      Step none s { s with
        device := s.device.setFlow f fun _ ↦ createdFlow flowType pdfIndex
        used := f :: s.used }
  | createAgain {s : InFlight} {f : ℕ} {fs : List ℕ} (hlist : s.statelessFlowList = f :: fs) :
      Step none s { s with
        device := s.device.setFlow f fun _ ↦ createdFlow .stateless 0
        statelessFlowList := fs }
  | changeGroups {s : InFlight} (f : ℕ) (groups : List ℕ) (combination : ℕ) :
      Step none s { s with
        device := s.device.setFlow f fun flow ↦
          { flow with dbGroupId := groups, dbGroupCombination := combination } }
  | enqueueStateless {s : InFlight} {f j : ℕ} (hf : f ∈ s.used) (hj : j < maxJobs)
      (htype : (s.device.flows f).type = .stateless)
      (hgroups : (s.device.flows f).dbGroupId ≠ [])
      (hfree : j ∉ s.waiting ++ s.started) (userCookie : ℕ) (packet : Payload) :
      Step none s { s with
        device := s.device.enqueueStateless f j userCookie packet
        waiting := j :: s.waiting }
  | enqueueStateful {s : InFlight} {f j : ℕ} (hf : f ∈ s.used) (hj : j < maxJobs)
      (htype : (s.device.flows f).type = .stateful)
      (hgroups : (s.device.flows f).dbGroupId ≠ [])
      (hfree : j ∉ s.waiting ++ s.started) (p userCookie : ℕ) (packet : Payload) :
      Step none s { s with
        device := s.device.enqueueStateful f j p userCookie packet
        waiting := j :: s.waiting }
  | startOk {s : InFlight} {batch : List (Option ℕ)} {taken : ℕ → ℕ} {device : NlmDevice}
      (hwait : ∀ j ∈ batch.reduceOption, j ∈ s.waiting) (hnodup : batch.reduceOption.Nodup)
      (hcall : s.device.nlmStartJobs taken batch = .ok (.ok, device)) :
      Step (some (taken, batch)) s { s with
        device := device
        waiting := s.waiting.filter (· ∉ batch.reduceOption)
        started := batch.reduceOption ++ s.started }
  | startError {s : InFlight} {batch : List (Option ℕ)} {taken : ℕ → ℕ} {status : NlmStatus}
      {device : NlmDevice} (hstatus : status ≠ .ok)
      (hcall : s.device.nlmStartJobs taken batch = .ok (status, device)) :
      Step (some (taken, batch)) s { s with device := device }
  | finishStateless {s : InFlight} {j f : ℕ} (hj : j ∈ s.started)
      (hflow : (s.device.jobs j).flow = some f)
      (hkind : (s.device.flows f).isStateless = true) (errorCode : ℕ) :
      Step none s { s with
        device := (s.device.finishStateless f errorCode).1
        statelessFlowList :=
          if (s.device.finishStateless f errorCode).2 then f :: s.statelessFlowList
          else s.statelessFlowList
        started := s.started.erase j }
  | finishStateful {s : InFlight} {j f p errorCode : ℕ} {isFrd : Bool} {device : NlmDevice}
      (hj : j ∈ s.started) (hflow : (s.device.jobs j).flow = some f)
      (hkind : (s.device.flows f).isStateless = false)
      (hcall : s.device.finishStateful f p errorCode isFrd = .ok device) :
      Step none s { s with device := device, started := s.started.erase j }
  | tryStart {s : InFlight} {taken : ℕ → ℕ} {device : NlmDevice}
      (hcall : s.device.nlmTryStartStatefulFlows taken = .ok device) :
      Step none s { s with device := device }
  | destroy {s : InFlight} {f : ℕ} (hf : f ∈ s.used) :
      Step none s { s with
        device := (s.device.nlmDestroyStatelessFlow f).2.1
        statelessFlowList :=
          if (s.device.nlmDestroyStatelessFlow f).2.2 then f :: s.statelessFlowList
          else s.statelessFlowList }
  | take {s : InFlight} (n : ℕ) : Step none s { s with device := s.device.takeFds n }
  | forceOneFd {s : InFlight} (f : ℕ) :
      Step none s { s with
        device := s.device.setFlow f fun flow ↦ { flow with lastPd := none } }
  | setFlowOffset {s : InFlight} {f : ℕ} (htype : (s.device.flows f).type = .stateful)
      (offset : ℕ) :
      Step none s { s with
        device := s.device.setFlow f fun flow ↦ { flow with flowOffset := offset } }

/-- Runs in which every `nlm_start_jobs` counts the jobs it starts. -/
def Reaches : InFlight → InFlight → Prop :=
  Relation.ReflTransGen fun s s' ↦
    ∃ call, Step call s s' ∧
      ∀ taken batch, call = some (taken, batch) → s.device.CountsStarts taken batch

structure Inv (s : InFlight) : Prop where
  nodup : (s.waiting ++ s.started).Nodup
  bound : ∀ j ∈ s.waiting ++ s.started, j < maxJobs
  job_flow : ∀ j ∈ s.waiting ++ s.started, ∃ f ∈ s.used, (s.device.jobs j).flow = some f
  stateless : ∀ f, (s.device.flows f).type = .stateless → (s.device.flows f).isStateless = true
  stateful : ∀ f, (s.device.flows f).type = .stateful → (s.device.flows f).isStateless = false
  counted : ∀ f ∈ s.used, (s.device.flows f).isStateless = true →
    (s.device.flows f).jobSeqId = s.outstanding f
  list_iff : ∀ f, f ∈ s.statelessFlowList ↔ f ∈ s.used ∧
    (s.device.flows f).isStateless = true ∧ (s.device.flows f).type = .invalid ∧
    s.outstanding f = 0
  list_nodup : s.statelessFlowList.Nodup
  ring : s.device.swJobFifo = none → RingSound s.device

variable {s s' s'' : InFlight} {f j : ℕ} {device : NlmDevice}

/-- So many jobs are never in flight that the counter could wrap. -/
theorem length_lt_of_nodup {jobs : List ℕ} (hnodup : jobs.Nodup) (h : ∀ j ∈ jobs, j < maxJobs) :
    jobs.length < 2 ^ 32 := by
  have hsub : jobs.toFinset ⊆ Finset.range maxJobs := fun j hj ↦
    Finset.mem_range.mpr (h j (List.mem_toFinset.mp hj))
  have hcard := Finset.card_le_card hsub
  rw [List.toFinset_card_of_nodup hnodup, Finset.card_range] at hcard
  exact hcard.trans_lt (by decide)

/-- The counts only depend on the flows of the started jobs. -/
theorem outstanding_congr (hjobs : ∀ j ∈ s.started, (device.jobs j).flow = (s.device.jobs j).flow)
    (f : ℕ) : outstanding { s with device := device } f = s.outstanding f :=
  List.countP_congr fun j hj ↦ by rw [hjobs j hj]

theorem Inv.keep (h : Inv s) (hkeep : KeepsCounts device s.device) :
    Inv { s with device := device } := by
  have hout := outstanding_congr (s := s) fun j _ ↦ hkeep.jobs_flow j
  refine ⟨h.nodup, h.bound, fun j hj ↦ ?_, fun f hf ↦ ?_, fun f hf ↦ ?_, fun f hf hkind ↦ ?_,
    fun f ↦ ?_, h.list_nodup, fun hfifo ↦ ?_⟩
  · rw [hkeep.jobs_flow]
    exact h.job_flow j hj
  · rw [hkeep.stateless_eq]
    exact h.stateless f ((hkeep.type_eq f).symm.trans hf)
  · rw [hkeep.stateless_eq]
    exact h.stateful f ((hkeep.type_eq f).symm.trans hf)
  · rw [hout]
    exact (hkeep.seq_eq f).trans (h.counted f hf ((hkeep.stateless_eq f).symm.trans hkind))
  · rw [hout]
    change f ∈ s.statelessFlowList ↔ f ∈ s.used ∧ (device.flows f).isStateless = true ∧
      (device.flows f).type = .invalid ∧ s.outstanding f = 0
    rw [hkeep.stateless_eq, hkeep.type_eq]
    exact h.list_iff f
  · have hnone : s.device.swJobFifo = none := by
      have heq := hkeep.fifo_isNone
      change device.swJobFifo = none at hfifo
      rw [hfifo] at heq
      exact Option.isNone_iff_eq_none.mp heq.symm
    exact hkeep.ring (h.ring hnone)

theorem outstanding_pos (hj : j ∈ s.started) (hflow : (s.device.jobs j).flow = some f) :
    0 < s.outstanding f :=
  List.countP_pos_iff.mpr ⟨j, hj, by simpa using hflow⟩

theorem Inv.create (h : Inv s) {flowType : NlmFlowType} (htype : flowType ≠ .invalid)
    (pdfIndex : ℕ) {used fs : List ℕ} (hzero : s.outstanding f = 0)
    (hused : ∀ g, g ∈ used ↔ g = f ∨ g ∈ s.used)
    (hfs : ∀ g, g ∈ fs ↔ g ≠ f ∧ g ∈ s.statelessFlowList) (hnodup : fs.Nodup) :
    Inv { s with
      device := s.device.setFlow f fun _ ↦ createdFlow flowType pdfIndex
      used := used
      statelessFlowList := fs } := by
  have hself : (s.device.setFlow f fun _ ↦ createdFlow flowType pdfIndex).flows f =
      createdFlow flowType pdfIndex := Function.update_self ..
  have hother : ∀ g, g ≠ f → (s.device.setFlow f fun _ ↦ createdFlow flowType pdfIndex).flows g =
      s.device.flows g := fun g hg ↦ Function.update_of_ne hg ..
  refine ⟨h.nodup, h.bound, fun j hj ↦ ?_, fun g hg ↦ ?_, fun g hg ↦ ?_, fun g hg hkind ↦ ?_,
    fun g ↦ ?_, hnodup, fun hfifo ↦ ?_⟩
  · obtain ⟨g, hg, hflow⟩ := h.job_flow j hj
    exact ⟨g, (hused g).mpr (.inr hg), hflow⟩
  · rcases eq_or_ne g f with rfl | hne
    · rw [hself] at hg ⊢
      cases flowType with
      | stateless => rfl
      | stateful => cases hg
      | invalid => cases hg
    · rw [hother g hne] at hg ⊢
      exact h.stateless g hg
  · rcases eq_or_ne g f with rfl | hne
    · rw [hself] at hg ⊢
      cases flowType with
      | stateless => cases hg
      | stateful => rfl
      | invalid => cases hg
    · rw [hother g hne] at hg ⊢
      exact h.stateful g hg
  · rcases eq_or_ne g f with rfl | hne
    · rw [hself]
      exact hzero.symm
    · rw [hother g hne] at hkind ⊢
      exact h.counted g (((hused g).mp hg).resolve_left hne) hkind
  · rcases eq_or_ne g f with rfl | hne
    · rw [hself]
      constructor
      · intro hg
        exact absurd rfl ((hfs g).mp hg).1
      · rintro ⟨-, -, hinvalid, -⟩
        exact absurd hinvalid htype
    · rw [hother g hne, hfs, hused]
      have hlist := h.list_iff g
      constructor
      · rintro ⟨-, hg⟩
        obtain ⟨hg, hrest⟩ := hlist.mp hg
        exact ⟨.inr hg, hrest⟩
      · rintro ⟨hg, hrest⟩
        exact ⟨hne, hlist.mpr ⟨hg.resolve_left hne, hrest⟩⟩
  · have hring := h.ring hfifo
    exact hring.congr rfl rfl rfl rfl

/-- A free job slot is filled in for flow `f`. -/
theorem Inv.enqueue (h : Inv s) (hf : f ∈ s.used) (hj : j < maxJobs)
    (hfree : j ∉ s.waiting ++ s.started) (hflows : device.flows = s.device.flows)
    (hself : (device.jobs j).flow = some f)
    (hother : ∀ i, i ≠ j → (device.jobs i).flow = (s.device.jobs i).flow)
    (hfifo : device.swJobFifo = s.device.swJobFifo) (hring : RingSound s.device → RingSound device) :
    Inv { s with device := device, waiting := j :: s.waiting } := by
  have hout : ∀ g, outstanding { s with device := device, waiting := j :: s.waiting } g =
      s.outstanding g := fun g ↦
    List.countP_congr fun i hi ↦ by
      have hne : i ≠ j := fun heq ↦ hfree (heq ▸ List.mem_append_right _ hi)
      change decide ((device.jobs i).flow = some g) = true ↔ _
      rw [hother i hne]
  refine ⟨?_, fun i hi ↦ ?_, fun i hi ↦ ?_, ?_, ?_, fun g hg hkind ↦ ?_, fun g ↦ ?_,
    h.list_nodup, fun hnone ↦ hring (h.ring (hfifo.symm.trans hnone))⟩
  · exact List.nodup_cons.mpr ⟨hfree, h.nodup⟩
  · rcases List.mem_cons.mp hi with rfl | hi
    · exact hj
    · exact h.bound i hi
  · rcases List.mem_cons.mp hi with rfl | hi
    · exact ⟨f, hf, hself⟩
    · have hne : i ≠ j := fun heq ↦ hfree (heq ▸ hi)
      rw [hother i hne]
      exact h.job_flow i hi
  · rw [hflows]
    exact h.stateless
  · rw [hflows]
    exact h.stateful
  · rw [hout]
    rw [hflows] at hkind ⊢
    exact h.counted g hg hkind
  · rw [hout, hflows]
    exact h.list_iff g

section Start

variable {batch : List (Option ℕ)} {jobs : List ℕ}

theorem type_ne_invalid (hcheck : batch.findSome? s.device.jobError = none)
    (hj : j ∈ batch.reduceOption) (hflow : (s.device.jobs j).flow = some f) :
    (s.device.flows f).type ≠ .invalid := by
  intro hinvalid
  have hmem : some j ∈ batch := List.reduceOption_mem_iff.mp hj
  have herr := List.findSome?_eq_none_iff.mp hcheck _ hmem
  simp [jobError, hflow, hinvalid] at herr

/-- All started jobs of a stateless flow are stateless jobs. -/
theorem Inv.startedOn_eq (h : Inv s)
    (hvalid : ∀ j ∈ jobs, (s.device.jobs j).flow = some f → (s.device.flows f).type ≠ .invalid)
    (hkind : (s.device.flows f).isStateless = true) :
    s.device.startedOn jobs f = jobs.countP fun j ↦ (s.device.jobs j).flow = some f := by
  apply List.countP_congr
  intro j hj
  simp only [decide_eq_true_eq, and_iff_right_iff_imp]
  intro hflow
  rw [jobType, hflow]
  cases htype : (s.device.flows f).type with
  | stateless => exact htype
  | stateful =>
    rw [h.stateful f htype] at hkind
    cases hkind
  | invalid => exact absurd htype (hvalid j hj hflow)

theorem mem_of_mem_start (hwait : ∀ j ∈ jobs, j ∈ s.waiting)
    (hj : j ∈ s.waiting.filter (· ∉ jobs) ++ (jobs ++ s.started)) :
    j ∈ s.waiting ++ s.started := by
  rcases List.mem_append.mp hj with hj | hj
  · exact List.mem_append_left _ (List.mem_filter.mp hj).1
  · rcases List.mem_append.mp hj with hj | hj
    · exact List.mem_append_left _ (hwait j hj)
    · exact List.mem_append_right _ hj

theorem Inv.nodup_start (h : Inv s) (hwait : ∀ j ∈ jobs, j ∈ s.waiting) (hnodup : jobs.Nodup) :
    (s.waiting.filter (· ∉ jobs) ++ (jobs ++ s.started)).Nodup := by
  obtain ⟨hw, hs, hdisj⟩ := List.nodup_append.mp h.nodup
  refine List.nodup_append.mpr ⟨hw.filter _, List.nodup_append.mpr ⟨hnodup, hs, ?_⟩, ?_⟩
  · exact fun a ha b hb ↦ hdisj a (hwait a ha) b hb
  · intro a ha b hb
    obtain ⟨haw, hajobs⟩ := List.mem_filter.mp ha
    rcases List.mem_append.mp hb with hb | hb
    · rintro rfl
      exact absurd hb (by simpa using hajobs)
    · exact hdisj a haw b hb

theorem outstanding_start (hcounted : Counted s.device jobs device) (f : ℕ) :
    outstanding { s with
      device := device
      waiting := s.waiting.filter (· ∉ jobs)
      started := jobs ++ s.started } f =
        jobs.countP (fun j ↦ (s.device.jobs j).flow = some f) + s.outstanding f := by
  change (jobs ++ s.started).countP (fun j ↦ (device.jobs j).flow = some f) = _
  rw [List.countP_append]
  simp only [hcounted.jobs_flow]
  rfl

end Start

theorem Inv.startOk (h : Inv s) {batch : List (Option ℕ)}
    (hwait : ∀ j ∈ batch.reduceOption, j ∈ s.waiting) (hnodup : batch.reduceOption.Nodup)
    (hcheck : batch.findSome? s.device.jobError = none)
    (hcounted : Counted s.device batch.reduceOption device) :
    Inv { s with
      device := device
      waiting := s.waiting.filter (· ∉ batch.reduceOption)
      started := batch.reduceOption ++ s.started } := by
  set jobs := batch.reduceOption with hjobs
  have hvalid : ∀ f, ∀ j ∈ jobs, (s.device.jobs j).flow = some f →
      (s.device.flows f).type ≠ .invalid := fun f j hj hflow ↦ type_ne_invalid hcheck hj hflow
  have hout := outstanding_start hcounted
  have hnone : ∀ f, (s.device.flows f).type = .invalid →
      jobs.countP (fun j ↦ (s.device.jobs j).flow = some f) = 0 := fun f hinvalid ↦
    List.countP_eq_zero.mpr fun j hj hflow ↦
      hvalid f j hj (of_decide_eq_true hflow) hinvalid
  have hnodup' := h.nodup_start hwait hnodup
  have hbound : ∀ i ∈ s.waiting.filter (· ∉ jobs) ++ (jobs ++ s.started), i < maxJobs :=
    fun i hi ↦ h.bound i (mem_of_mem_start hwait hi)
  refine ⟨hnodup', hbound, fun i hi ↦ ?_, fun f hf ↦ ?_, fun f hf ↦ ?_, fun f hf hkind ↦ ?_,
    fun f ↦ ?_, h.list_nodup, fun hfifo ↦ ?_⟩
  · rw [hcounted.jobs_flow]
    exact h.job_flow i (mem_of_mem_start hwait hi)
  · rw [hcounted.stateless_eq]
    exact h.stateless f ((hcounted.type_eq f).symm.trans hf)
  · rw [hcounted.stateless_eq]
    exact h.stateful f ((hcounted.type_eq f).symm.trans hf)
  · rw [hcounted.stateless_eq] at hkind
    have hseq := h.counted f hf hkind
    rw [hout, hcounted.seq_eq, h.startedOn_eq (hvalid f) hkind]
    rcases (jobs.countP fun j ↦ (s.device.jobs j).flow = some f).eq_zero_or_pos with hn | hn
    · rw [hn, Nat.zero_add]
      exact hseq
    · rw [NlmFlow.countJob_iterate_jobSeqId hn, hseq, Nat.add_comm]
      apply Nat.mod_eq_of_lt
      rw [← hout]
      have hlen := length_lt_of_nodup hnodup'.of_append_right fun i hi ↦
        hbound i (List.mem_append_right _ hi)
      exact (List.countP_le_length ..).trans_lt hlen
  · have hlist := h.list_iff f
    rw [hout, hcounted.stateless_eq, hcounted.type_eq]
    constructor
    · intro hf
      obtain ⟨hused, hkind, hinvalid, hzero⟩ := hlist.mp hf
      exact ⟨hused, hkind, hinvalid, by rw [hnone f hinvalid, hzero]⟩
    · rintro ⟨hused, hkind, hinvalid, hzero⟩
      rw [hnone f hinvalid, Nat.zero_add] at hzero
      exact hlist.mpr ⟨hused, hkind, hinvalid, hzero⟩
  · have hnone : s.device.swJobFifo = none := by
      have heq := hcounted.fifo_isNone
      change device.swJobFifo = none at hfifo
      rw [hfifo] at heq
      exact Option.isNone_iff_eq_none.mp heq.symm
    exact hcounted.ring (h.ring hnone)

theorem outstanding_erase (hj : j ∈ s.started) (hflow : (s.device.jobs j).flow = some f) (g : ℕ) :
    (s.started.erase j).countP (fun i ↦ (s.device.jobs i).flow = some g) =
      if g = f then s.outstanding g - 1 else s.outstanding g := by
  have hperm := List.perm_cons_erase hj
  have hcount : s.outstanding g =
      (j :: s.started.erase j).countP fun i ↦ (s.device.jobs i).flow = some g :=
    hperm.countP_eq _
  rw [hcount, List.countP_cons, hflow]
  split
  · rename_i heq
    simp [heq]
  · rename_i hne
    simp [Ne.symm hne]

/-- The started jobs lose one, of which the other fields of the run know nothing. -/
theorem Inv.erase (h : Inv s) (j : ℕ) :
    (s.waiting ++ s.started.erase j).Nodup ∧
      ∀ i ∈ s.waiting ++ s.started.erase j, i ∈ s.waiting ++ s.started := by
  constructor
  · exact h.nodup.sublist (List.Sublist.append_left List.erase_sublist _)
  · intro i hi
    rcases List.mem_append.mp hi with hi | hi
    · exact List.mem_append_left _ hi
    · exact List.mem_append_right _ (List.mem_of_mem_erase hi)

theorem Inv.finishStateless (h : Inv s) (hj : j ∈ s.started)
    (hflow : (s.device.jobs j).flow = some f)
    (hkind : (s.device.flows f).isStateless = true) (errorCode : ℕ) :
    Inv { s with
      device := (s.device.finishStateless f errorCode).1
      statelessFlowList :=
        if (s.device.finishStateless f errorCode).2 then f :: s.statelessFlowList
        else s.statelessFlowList
      started := s.started.erase j } := by
  obtain ⟨f', hf, hflow'⟩ := h.job_flow j (List.mem_append_right _ hj)
  obtain rfl : f' = f := Option.some.inj (hflow'.symm.trans hflow)
  have hpos := outstanding_pos hj hflow
  have hseq := h.counted f' hf hkind
  have hlt : s.outstanding f' < 2 ^ 32 :=
    (List.countP_le_length ..).trans_lt (length_lt_of_nodup h.nodup.of_append_right
      fun i hi ↦ h.bound i (List.mem_append_right _ hi))
  obtain ⟨hother, htype, hstateless, hcount, hjobs, hfifo, hring, hfreed⟩ :=
    finishStateless_spec s.device f' errorCode
  have hone : (2 ^ 32 + (s.device.flows f').jobSeqId - 1) % 2 ^ 32 = s.outstanding f' - 1 := by
    rw [hseq]
    omega
  rw [hone] at hcount hfreed
  obtain ⟨hnodup, hsub⟩ := h.erase j
  set device := (s.device.finishStateless f' errorCode).1 with hdevice
  set fs := if (s.device.finishStateless f' errorCode).2 then f' :: s.statelessFlowList
    else s.statelessFlowList with hfs
  have hout : ∀ g, outstanding { s with
      device := device
      statelessFlowList := fs
      started := s.started.erase j } g =
        if g = f' then s.outstanding g - 1 else s.outstanding g := fun g ↦ by
    rw [← outstanding_erase hj hflow g]
    change (s.started.erase j).countP (fun i ↦ (device.jobs i).flow = some g) = _
    rw [hjobs]
  have hnot : f' ∉ s.statelessFlowList := fun hmem ↦ by
    have hzero := ((h.list_iff f').mp hmem).2.2.2
    omega
  refine ⟨hnodup, fun i hi ↦ h.bound i (hsub i hi), fun i hi ↦ ?_, fun g hg ↦ ?_, fun g hg ↦ ?_,
    fun g hg hkind' ↦ ?_, fun g ↦ ?_, ?_, fun hnone ↦ hring (h.ring (hfifo.symm.trans hnone))⟩
  · rw [hjobs]
    exact h.job_flow i (hsub i hi)
  · rw [hstateless g]
    exact h.stateless g ((htype g).symm.trans hg)
  · rw [hstateless g]
    exact h.stateful g ((htype g).symm.trans hg)
  · rw [hout]
    rcases eq_or_ne g f' with rfl | hne
    · rw [if_pos rfl]
      exact hcount
    · rw [if_neg hne, hother g hne]
      rw [hstateless g] at hkind'
      exact h.counted g hg hkind'
  · rw [hout, hstateless g, htype g]
    have hlist := h.list_iff g
    rcases eq_or_ne g f' with rfl | hne
    · rw [if_pos rfl]
      constructor
      · intro hg
        rw [hfs] at hg
        split at hg
        · rename_i hfree
          exact ⟨hf, hkind, hfreed.mp hfree⟩
        · exact absurd hg hnot
      · rintro ⟨-, -, hinvalid, hzero⟩
        rw [hfs, if_pos (hfreed.mpr ⟨hinvalid, hzero⟩)]
        exact List.mem_cons_self
    · rw [if_neg hne, hfs]
      split
      · rw [List.mem_cons, or_iff_right hne]
        exact hlist
      · exact hlist
  · rw [hfs]
    split
    · exact List.nodup_cons.mpr ⟨hnot, h.list_nodup⟩
    · exact h.list_nodup

/-- The flow is written twice when it is freed, with the same effect on its type. -/
theorem destroyStateless_spec {d : NlmDevice} (htype : (d.flows f).type = .stateless) :
    ∃ g : NlmFlow → NlmFlow, (d.nlmDestroyStatelessFlow f).2.1 = d.setFlow f g ∧
      (∀ flow, (g flow).type = .invalid) ∧
      (∀ flow, (g flow).isStateless = flow.isStateless) ∧
      (∀ flow, (g flow).jobSeqId = flow.jobSeqId) ∧
      ((d.nlmDestroyStatelessFlow f).2.2 = true ↔ (d.flows f).jobSeqId = 0) := by
  have hself : ((d.setFlow f fun flow ↦ { flow with type := .invalid }).flows f).jobSeqId =
      (d.flows f).jobSeqId := by
    change (Function.update d.flows f _ f).jobSeqId = _
    rw [Function.update_self]
  simp only [nlmDestroyStatelessFlow, htype, hself]
  split
  · rename_i hzero
    refine ⟨fun flow ↦ { flow with type := .invalid }, ?_, fun _ ↦ rfl, fun _ ↦ rfl,
      fun _ ↦ rfl, fun _ ↦ hzero, fun _ ↦ rfl⟩
    unfold releaseFlow
    rw [setFlow_setFlow]
  · rename_i hne
    exact ⟨fun flow ↦ { flow with type := .invalid }, rfl, fun _ ↦ rfl, fun _ ↦ rfl,
      fun _ ↦ rfl, fun hfalse ↦ (by cases hfalse), fun hzero ↦ absurd hzero hne⟩

theorem Inv.destroy (h : Inv s) (hf : f ∈ s.used) :
    Inv { s with
      device := (s.device.nlmDestroyStatelessFlow f).2.1
      statelessFlowList :=
        if (s.device.nlmDestroyStatelessFlow f).2.2 then f :: s.statelessFlowList
        else s.statelessFlowList } := by
  cases htype : (s.device.flows f).type with
  | stateful =>
    simp only [nlmDestroyStatelessFlow, htype]
    exact h
  | invalid =>
    simp only [nlmDestroyStatelessFlow, htype]
    exact h
  | stateless =>
    have hkind := h.stateless f htype
    have hseq := h.counted f hf hkind
    have hnot : f ∉ s.statelessFlowList := fun hmem ↦ by
      have hinvalid := ((h.list_iff f).mp hmem).2.2.1
      rw [htype] at hinvalid
      cases hinvalid
    obtain ⟨g, hdevice, hinvalid, hstateless, hcount, hfreed⟩ := destroyStateless_spec htype
    rw [hdevice]
    have hself : (s.device.setFlow f g).flows f = g (s.device.flows f) := Function.update_self ..
    have hother : ∀ i, i ≠ f → (s.device.setFlow f g).flows i = s.device.flows i :=
      fun i hi ↦ Function.update_of_ne hi ..
    refine ⟨h.nodup, h.bound, h.job_flow, fun i hi ↦ ?_, fun i hi ↦ ?_, fun i hi hkind' ↦ ?_,
      fun i ↦ ?_, ?_, fun hnone ↦ ?_⟩
    · rcases eq_or_ne i f with rfl | hne
      · rw [hself, hinvalid] at hi
        cases hi
      · rw [hother i hne] at hi ⊢
        exact h.stateless i hi
    · rcases eq_or_ne i f with rfl | hne
      · rw [hself, hinvalid] at hi
        cases hi
      · rw [hother i hne] at hi ⊢
        exact h.stateful i hi
    · rcases eq_or_ne i f with rfl | hne
      · rw [hself, hcount]
        exact hseq
      · rw [hother i hne] at hkind' ⊢
        exact h.counted i hi hkind'
    · rcases eq_or_ne i f with rfl | hne
      · rw [hself, hinvalid, hstateless]
        constructor
        · intro hi
          split at hi
          · rename_i hfree
            exact ⟨hf, hkind, rfl, hseq.symm.trans (hfreed.mp hfree)⟩
          · exact absurd hi hnot
        · rintro ⟨-, -, -, hzero⟩
          rw [if_pos (hfreed.mpr (hseq.trans hzero))]
          exact List.mem_cons_self
      · rw [hother i hne]
        split
        · rw [List.mem_cons, or_iff_right hne]
          exact h.list_iff i
        · exact h.list_iff i
    · split
      · exact List.nodup_cons.mpr ⟨hnot, h.list_nodup⟩
      · exact h.list_nodup
    · have hring := h.ring hnone
      exact hring.congr rfl rfl rfl rfl

theorem Inv.finishStateful (h : Inv s) (hj : j ∈ s.started)
    (hflow : (s.device.jobs j).flow = some f)
    (hkind : (s.device.flows f).isStateless = false) (hkeep : KeepsCounts device s.device) :
    Inv { s with device := device, started := s.started.erase j } := by
  obtain ⟨hnodup, hsub⟩ := h.erase j
  have hdevice := h.keep hkeep
  have hout : ∀ g, (s.device.flows g).isStateless = true →
      outstanding { s with device := device, started := s.started.erase j } g =
        s.outstanding g := by
    intro g hg
    have hne : g ≠ f := by
      rintro rfl
      rw [hkind] at hg
      cases hg
    have herase := outstanding_erase hj hflow g
    rw [if_neg hne] at herase
    rw [← herase]
    change (s.started.erase j).countP (fun i ↦ (device.jobs i).flow = some g) = _
    simp only [hkeep.jobs_flow]
  refine ⟨hnodup, fun i hi ↦ h.bound i (hsub i hi), fun i hi ↦ hdevice.job_flow i (hsub i hi),
    hdevice.stateless, hdevice.stateful, fun g hg hkind' ↦ ?_, fun g ↦ ?_, h.list_nodup,
    hdevice.ring⟩
  · rw [hout g ((hkeep.stateless_eq g).symm.trans hkind')]
    exact (hkeep.seq_eq g).trans (h.counted g hg ((hkeep.stateless_eq g).symm.trans hkind'))
  · change g ∈ s.statelessFlowList ↔ g ∈ s.used ∧ (device.flows g).isStateless = true ∧
      (device.flows g).type = .invalid ∧ _
    rw [h.list_iff g, hkeep.stateless_eq, hkeep.type_eq]
    constructor
    · rintro ⟨hg, hkind', hinvalid, hzero⟩
      exact ⟨hg, hkind', hinvalid, (hout g hkind').trans hzero⟩
    · rintro ⟨hg, hkind', hinvalid, hzero⟩
      exact ⟨hg, hkind', hinvalid, (hout g hkind').symm.trans hzero⟩

theorem Inv.step (h : Inv s) {call : Option ((ℕ → ℕ) × List (Option ℕ))}
    (hstep : Step call s s')
    (hcond : ∀ taken batch, call = some (taken, batch) → s.device.CountsStarts taken batch) :
    Inv s' := by
  cases hstep with
  | @createFlow _ f hf flowType htype pdfIndex =>
    have hzero : s.outstanding f = 0 := by
      apply List.countP_eq_zero.mpr
      intro j hj hflow
      obtain ⟨g, hg, hflow'⟩ := h.job_flow j (List.mem_append_right _ hj)
      rw [hflow', decide_eq_true_eq] at hflow
      exact hf (Option.some.inj hflow ▸ hg)
    apply h.create htype pdfIndex hzero (fun g ↦ List.mem_cons) (fun g ↦ ?_) h.list_nodup
    constructor
    · intro hg
      exact ⟨fun heq ↦ hf (heq ▸ ((h.list_iff g).mp hg).1), hg⟩
    · exact And.right
  | @createAgain _ f fs hlist =>
    have hmem : f ∈ s.statelessFlowList := hlist ▸ List.mem_cons_self
    obtain ⟨hf, -, -, hzero⟩ := (h.list_iff f).mp hmem
    have hnodup := h.list_nodup
    rw [hlist] at hnodup
    obtain ⟨hnot, hfs⟩ := List.nodup_cons.mp hnodup
    apply h.create (by decide) 0 hzero (fun g ↦ ?_) (fun g ↦ ?_) hfs
    · constructor
      · exact .inr
      · rintro (rfl | hg)
        · exact hf
        · exact hg
    · rw [hlist, List.mem_cons]
      constructor
      · intro hg
        exact ⟨fun heq ↦ hnot (heq ▸ hg), .inr hg⟩
      · rintro ⟨hne, rfl | hg⟩
        · exact absurd rfl hne
        · exact hg
  | changeGroups f groups combination =>
    apply h.keep
    exact KeepsCounts.setFlow _ f (fun _ ↦ rfl) (fun _ ↦ rfl) fun _ ↦ rfl
  | @enqueueStateless _ f j hf hj htype hgroups hfree userCookie packet =>
    refine h.enqueue hf hj hfree ?_ ?_ (fun i hi ↦ ?_) ?_
      fun hring ↦ hring.congr rfl rfl rfl rfl
    · rfl
    · change (Function.update s.device.jobs j _ j).flow = _
      rw [Function.update_self]
      rfl
    · change (Function.update s.device.jobs j _ i).flow = _
      rw [Function.update_of_ne hi]
    · rfl
  | @enqueueStateful _ f j hf hj htype hgroups hfree p userCookie packet =>
    refine h.enqueue hf hj hfree ?_ ?_ (fun i hi ↦ ?_) ?_
      fun hring ↦ hring.congr rfl rfl rfl rfl
    · rfl
    · change (Function.update s.device.jobs j _ j).flow = _
      rw [Function.update_self]
      rfl
    · change (Function.update s.device.jobs j _ i).flow = _
      rw [Function.update_of_ne hi]
    · rfl
  | @startOk _ batch taken device hwait hnodup hcall =>
    rcases startJobs_counted h.ring (hcond taken batch rfl) hcall with
      ⟨-, hcheck, hcounted⟩ | ⟨hne, -⟩
    · exact h.startOk hwait hnodup hcheck hcounted
    · exact absurd rfl hne
  | @startError _ batch taken status device hstatus hcall =>
    rcases startJobs_counted h.ring (hcond taken batch rfl) hcall with ⟨hok, -⟩ | ⟨-, hkeep⟩
    · exact absurd hok hstatus
    · exact h.keep hkeep
  | finishStateless hj hflow hkind errorCode => exact h.finishStateless hj hflow hkind errorCode
  | finishStateful hj hflow hkind hcall =>
    exact h.finishStateful hj hflow hkind (finishStateful_keepsCounts hcall)
  | tryStart hcall => exact h.keep (tryStart_keepsCounts hcall)
  | destroy hf => exact h.destroy hf
  | take n => exact h.keep (.takeFds s.device n)
  | forceOneFd f => exact h.keep (.setFlow _ f (fun _ ↦ rfl) (fun _ ↦ rfl) fun _ ↦ rfl)
  | @setFlowOffset _ f htype offset =>
    exact h.keep (.setFlow _ f (fun _ ↦ rfl) (fun _ ↦ rfl) fun _ ↦ rfl)

theorem inv_start {size : ℕ} (hsize : FifoSizeOk size) (threadId : ℕ)
    (usingManagerThread : Bool) : Inv (start threadId size usingManagerThread) where
  nodup := List.nodup_nil
  bound := fun _ hj ↦ absurd hj List.not_mem_nil
  job_flow := fun _ hj ↦ absurd hj List.not_mem_nil
  stateless := fun _ hf ↦ by cases hf
  stateful := fun _ hf ↦ by cases hf
  counted := fun _ hf ↦ absurd hf List.not_mem_nil
  list_iff := fun f ↦ ⟨fun hf ↦ absurd hf List.not_mem_nil,
    fun hf ↦ absurd hf.1 List.not_mem_nil⟩
  list_nodup := List.nodup_nil
  ring := fun _ ↦ ⟨⟨hsize, Nat.pos_of_ne_zero hsize.1, Nat.pos_of_ne_zero hsize.1⟩,
    Nat.pos_of_ne_zero hsize.1, le_rfl⟩

theorem Reaches.refl (s : InFlight) : Reaches s s := Relation.ReflTransGen.refl

theorem Reaches.call (hrun : Reaches s s') (hstep : Step none s' s'') : Reaches s s'' :=
  hrun.tail ⟨none, hstep, fun _ _ hcall ↦ by cases hcall⟩

theorem Reaches.start {taken : ℕ → ℕ} {batch : List (Option ℕ)} (hrun : Reaches s s')
    (hstep : Step (some (taken, batch)) s' s'') (hcounts : s'.device.CountsStarts taken batch) :
    Reaches s s'' :=
  hrun.tail ⟨_, hstep, fun _ _ hcall ↦ by cases hcall; exact hcounts⟩

theorem Reaches.inv (hrun : Reaches s s') (h : Inv s) : Inv s' := by
  induction hrun with
  | refl => exact h
  | tail _ hstep ih =>
    obtain ⟨call, hstep, hcond⟩ := hstep
    exact ih.step hstep hcond

/-- A thread with the stateless flow 1. -/
def oneFlow (usingManagerThread : Bool) : InFlight where
  device := ((NlmDevice.attached 0 2 usingManagerThread).setFlow 1 fun _ ↦
    createdFlow .stateless 0).setFlow 1 fun flow ↦
      { flow with dbGroupId := [5], dbGroupCombination := 1 }
  used := [1]
  statelessFlowList := []
  waiting := []
  started := []

end InFlight

end NetL7.Packet
