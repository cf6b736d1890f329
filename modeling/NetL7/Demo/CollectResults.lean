import NetL7.Packet.Populate

/-!
# Collecting results in the multithreaded demo

`collect_results` of `mtdemo.c` asks for results until as many jobs have completed as the
thread has started. It counts the results with status `NLM_END_OF_JOB`. The other statuses
`populate_results` gives to a job that failed are printed, and the counter stays.
-/

namespace NetL7.Demo

open NetL7.Packet

/-- What one call of `nlm_get_all_search_results` returns. -/
structure Batch where
  status : NlmStatus
  results : List NlmResult

/-- The status of a match. -/
def IsMatch (status : NlmStatus) : Prop := status = .ok ∨ status = .endAnchored

/-- A status that `populate_results` gives to a completed job. -/
def IsFinal (status : NlmStatus) : Prop :=
  status = .endOfJob ∨ ∃ code < 32, code ≠ 0 ∧ convertHwErrorCodeToStatus code = status

instance : DecidablePred IsMatch := fun _ ↦ inferInstanceAs (Decidable (_ ∨ _))

instance : DecidablePred IsFinal := fun _ ↦ inferInstanceAs (Decidable (_ ∨ _))

/-- How many results have a status. -/
def statusCnt (P : NlmStatus → Prop) [DecidablePred P] (batches : List Batch) : ℕ :=
  ((batches.flatMap (·.results)).countP fun r ↦ P r.status)

/-- The variables that `collect_results` writes. -/
structure Collect where
  jobsCompleted : ℕ
  /-- `num_results`, which all threads share. -/
  numResults : ℕ
  flagError : Bool
  deriving DecidableEq

/-- One turn of the `for` loop of `collect_results`. -/
def Collect.result (tid : ℕ) (s : Collect) (r : NlmResult) : Except NlmStatus Collect :=
  if r.cookie ≠ tid then .error .invalidJob
  else match r.status with
    | .ok | .endAnchored => .ok { s with numResults := (s.numResults + 1) % 2 ^ 32 }
    | .endOfJob => .ok { s with jobsCompleted := (s.jobsCompleted + 1) % 2 ^ 32 }
    | _ => .ok { s with flagError := true }

/-- Where `collect_results` is when no more batches have come. -/
inductive CollectOutcome
  | returned (status : NlmStatus) (s : Collect) (rest : List Batch)
  | waiting (s : Collect)

/-- The `while` loop of `collect_results`. -/
def collectResults (tid nJobs : ℕ) (s : Collect) : List Batch → CollectOutcome
  | [] => if s.jobsCompleted = nJobs then .returned .ok s [] else .waiting s
  | b :: rest =>
    if s.jobsCompleted = nJobs then .returned .ok s (b :: rest)
    else if b.status ≠ .ok then .returned b.status s rest
    else match b.results.foldlM (Collect.result tid) s with
      | .error status => .returned status s rest
      | .ok s => collectResults tid nJobs s rest

/-- The batches in which each of the jobs gets its final result, up to the last one. -/
structure Delivery (tid nJobs : ℕ) (batches : List Batch) : Prop where
  status_ok : ∀ b ∈ batches, b.status = .ok
  cookie : ∀ b ∈ batches, ∀ r ∈ b.results, r.cookie = tid
  kind : ∀ b ∈ batches, ∀ r ∈ b.results, IsMatch r.status ∨ IsFinal r.status
  finals : statusCnt IsFinal batches = nJobs
  last : ∀ k < batches.length, statusCnt IsFinal (batches.take k) < nJobs

/-- The clause for one thread: the loop ends with the last of the batches. -/
def EndsWithLast (tid nJobs numResults : ℕ) (flagError : Bool) (batches : List Batch) : Prop :=
  ∃ s, collectResults tid nJobs ⟨0, numResults, flagError⟩ batches = .returned .ok s []

@[simp] theorem statusCnt_nil (P : NlmStatus → Prop) [DecidablePred P] : statusCnt P [] = 0 := rfl

theorem statusCnt_cons (P : NlmStatus → Prop) [DecidablePred P] (b : Batch)
    (batches : List Batch) :
    statusCnt P (b :: batches) =
      b.results.countP (fun r ↦ P r.status) + statusCnt P batches := by
  simp only [statusCnt, List.flatMap_cons, List.countP_append]

theorem statusCnt_append (P : NlmStatus → Prop) [DecidablePred P] (before after : List Batch) :
    statusCnt P (before ++ after) = statusCnt P before + statusCnt P after := by
  simp only [statusCnt, List.flatMap_append, List.countP_append]

theorem isFinal_endOfJob : IsFinal .endOfJob := .inl rfl

theorem Collect.result_eq {tid : ℕ} {r : NlmResult} (s : Collect) (hcookie : r.cookie = tid) :
    ∃ s', s.result tid r = .ok s' ∧
      s'.jobsCompleted = if r.status = .endOfJob then (s.jobsCompleted + 1) % 2 ^ 32
        else s.jobsCompleted := by
  simp only [Collect.result, hcookie, ne_eq, not_true_eq_false, if_false]
  cases r.status
  all_goals exact ⟨_, rfl, by simp⟩

theorem foldlM_result {tid : ℕ} {results : List NlmResult} (s : Collect)
    (hcookie : ∀ r ∈ results, r.cookie = tid)
    (hlt : s.jobsCompleted + results.countP (fun r ↦ r.status = .endOfJob) < 2 ^ 32) :
    ∃ s', results.foldlM (Collect.result tid) s = .ok s' ∧
      s'.jobsCompleted = s.jobsCompleted + results.countP (fun r ↦ r.status = .endOfJob) := by
  induction results generalizing s with
  | nil => exact ⟨s, rfl, rfl⟩
  | cons r results ih =>
    obtain ⟨s₁, hs₁, hjobs⟩ := s.result_eq (hcookie r List.mem_cons_self)
    rw [List.countP_cons] at hlt
    have hnext : s₁.jobsCompleted + results.countP (fun r ↦ r.status = .endOfJob) =
        s.jobsCompleted + (r :: results).countP (fun r ↦ r.status = .endOfJob) := by
      rw [List.countP_cons, hjobs]
      by_cases h : r.status = .endOfJob
      · simp only [h, decide_true, if_true] at hlt ⊢
        omega
      · simp [h]
    obtain ⟨s', hs', hjobs'⟩ := ih s₁ (fun r hr ↦ hcookie r (List.mem_cons_of_mem _ hr))
      (by rw [hnext, List.countP_cons]; exact hlt)
    refine ⟨s', ?_, hjobs'.trans hnext⟩
    rw [List.foldlM_cons, hs₁]
    exact hs'

theorem countP_endOfJob_le (results : List NlmResult) :
    results.countP (fun r ↦ r.status = .endOfJob) ≤
      results.countP (fun r ↦ IsFinal r.status) := by
  apply List.countP_mono_left
  intro r _ hr
  have hr : r.status = .endOfJob := by simpa using hr
  simp [hr, isFinal_endOfJob]

theorem countP_endOfJob_eq_iff (results : List NlmResult) :
    results.countP (fun r ↦ r.status = .endOfJob) =
        results.countP (fun r ↦ IsFinal r.status) ↔
      ∀ r ∈ results, IsFinal r.status → r.status = .endOfJob := by
  induction results with
  | nil => simp
  | cons r results ih =>
    have hle := countP_endOfJob_le results
    rw [List.forall_mem_cons, ← ih, List.countP_cons, List.countP_cons]
    by_cases hend : r.status = .endOfJob
    · simp [hend, isFinal_endOfJob]
    · by_cases hfin : IsFinal r.status
      · simp only [hend, hfin, decide_true, decide_false, if_true, Bool.false_eq_true, if_false,
          true_imp_iff, false_and, iff_false]
        omega
      · simp [hend, hfin]

theorem statusCnt_endOfJob_le (batches : List Batch) :
    statusCnt (· = .endOfJob) batches ≤ statusCnt IsFinal batches :=
  countP_endOfJob_le _

/-- The two counts agree exactly if every completion is an `NLM_END_OF_JOB`. -/
theorem statusCnt_endOfJob_eq_iff (batches : List Batch) :
    statusCnt (· = .endOfJob) batches = statusCnt IsFinal batches ↔
      ∀ b ∈ batches, ∀ r ∈ b.results, IsFinal r.status → r.status = .endOfJob := by
  rw [statusCnt, statusCnt, countP_endOfJob_eq_iff]
  simp only [List.mem_flatMap]
  constructor
  · intro h b hb r hr
    exact h r ⟨b, hb, hr⟩
  · rintro h r ⟨b, hb, hr⟩
    exact h b hb r hr

/-- The loop takes the batches one by one as long as fewer jobs than `nJobs` have been
counted. -/
theorem collectResults_eq {tid nJobs : ℕ} {batches : List Batch} (s : Collect)
    (hn : nJobs < 2 ^ 32) (hok : ∀ b ∈ batches, b.status = .ok)
    (hcookie : ∀ b ∈ batches, ∀ r ∈ b.results, r.cookie = tid)
    (hbefore : ∀ k < batches.length,
      s.jobsCompleted + statusCnt (· = .endOfJob) (batches.take k) < nJobs)
    (hle : s.jobsCompleted + statusCnt (· = .endOfJob) batches ≤ nJobs) :
    ∃ s', s'.jobsCompleted = s.jobsCompleted + statusCnt (· = .endOfJob) batches ∧
      collectResults tid nJobs s batches =
        if s'.jobsCompleted = nJobs then .returned .ok s' [] else .waiting s' := by
  induction batches generalizing s with
  | nil => exact ⟨s, rfl, rfl⟩
  | cons b rest ih =>
    have hcur : s.jobsCompleted < nJobs := hbefore 0 (by simp)
    rw [statusCnt_cons] at hle
    obtain ⟨s₁, hs₁, hjobs⟩ := foldlM_result s (hcookie b List.mem_cons_self) (by omega)
    obtain ⟨s', hs', hloop⟩ := ih s₁ (fun b hb ↦ hok b (List.mem_cons_of_mem _ hb))
      (fun b hb ↦ hcookie b (List.mem_cons_of_mem _ hb))
      (by
        intro k hk
        have := hbefore (k + 1) (Nat.succ_lt_succ hk)
        rw [List.take_succ_cons, statusCnt_cons] at this
        omega)
      (by omega)
    refine ⟨s', ?_, ?_⟩
    · rw [statusCnt_cons]
      omega
    · rw [collectResults, if_neg (by omega), hok b List.mem_cons_self]
      simp only [ne_eq, not_true_eq_false, if_false, hs₁]
      exact hloop

theorem Delivery.endOfJob_lt {tid nJobs : ℕ} {batches : List Batch}
    (h : Delivery tid nJobs batches) {k : ℕ} (hk : k < batches.length) :
    statusCnt (· = .endOfJob) (batches.take k) < nJobs :=
  (statusCnt_endOfJob_le _).trans_lt (h.last k hk)

/-- A job that failed keeps the thread in the loop, whatever matches still come. -/
theorem collectResults_waits {tid nJobs : ℕ} {batches rest : List Batch} (s : Collect)
    (hs : s.jobsCompleted = 0) (hn : nJobs < 2 ^ 32) (h : Delivery tid nJobs batches)
    (hfailed : ∃ b ∈ batches, ∃ r ∈ b.results, IsFinal r.status ∧ r.status ≠ .endOfJob)
    (hok : ∀ b ∈ rest, b.status = .ok) (hcookie : ∀ b ∈ rest, ∀ r ∈ b.results, r.cookie = tid)
    (hmatch : ∀ b ∈ rest, ∀ r ∈ b.results, IsMatch r.status) :
    ∃ s', collectResults tid nJobs s (batches ++ rest) = .waiting s' := by
  have hlt : statusCnt (· = .endOfJob) batches < nJobs := by
    have hle := statusCnt_endOfJob_le batches
    have hne : statusCnt (· = .endOfJob) batches ≠ statusCnt IsFinal batches := by
      intro heq
      obtain ⟨b, hb, r, hr, hfin, hend⟩ := hfailed
      exact hend ((statusCnt_endOfJob_eq_iff batches).mp heq b hb r hr hfin)
    have := h.finals
    omega
  have hrest : statusCnt (· = .endOfJob) rest = 0 := by
    simp only [statusCnt, List.countP_eq_zero, List.mem_flatMap]
    rintro r ⟨b, hb, hr⟩ hend
    have hend : r.status = .endOfJob := by simpa using hend
    have := hmatch b hb r hr
    rw [hend] at this
    revert this
    decide
  obtain ⟨s', hs', hloop⟩ := collectResults_eq s hn
    (List.forall_mem_append.mpr ⟨h.status_ok, hok⟩)
    (List.forall_mem_append.mpr ⟨h.cookie, hcookie⟩)
    (by
      intro k _
      have htotal := statusCnt_append (· = .endOfJob) ((batches ++ rest).take k)
        ((batches ++ rest).drop k)
      rw [List.take_append_drop, statusCnt_append] at htotal
      omega)
    (by rw [statusCnt_append]; omega)
  refine ⟨s', ?_⟩
  rw [hloop, if_neg]
  rw [hs', statusCnt_append]
  omega

theorem endsWithLast_iff {tid nJobs numResults : ℕ} {flagError : Bool} {batches : List Batch}
    (hn : nJobs < 2 ^ 32) (h : Delivery tid nJobs batches) :
    EndsWithLast tid nJobs numResults flagError batches ↔
      ∀ b ∈ batches, ∀ r ∈ b.results, IsFinal r.status → r.status = .endOfJob := by
  have hle := statusCnt_endOfJob_le batches
  obtain ⟨s', hs', hloop⟩ := collectResults_eq ⟨0, numResults, flagError⟩ hn h.status_ok h.cookie
    (fun k hk ↦ by simpa using h.endOfJob_lt hk)
    (by simpa [h.finals] using hle)
  rw [← statusCnt_endOfJob_eq_iff, h.finals, EndsWithLast, hloop]
  simp only [Nat.zero_add] at hs'
  constructor
  · rintro ⟨s, hs⟩
    split_ifs at hs with hend
    omega
  · intro hcnt
    rw [if_pos (by omega)]
    exact ⟨s', rfl⟩

/-- Three jobs that all complete, with matches before and between them. -/
def threeJobs : List Batch :=
  [⟨.ok, [⟨.ok, 7, .isMatch 1 0 0 3 3 2⟩, ⟨.endOfJob, 7, .stats 100 0 0 0⟩]⟩,
    ⟨.ok, []⟩,
    ⟨.ok, [⟨.endOfJob, 7, .stats 200 0 0 0⟩, ⟨.endAnchored, 7, .isMatch 2 0 0 9 9 4⟩,
      ⟨.endOfJob, 7, .stats 300 0 0 0⟩]⟩]

theorem endsWithLast_iff_threeJobs : EndsWithLast 7 3 0 false threeJobs :=
  (endsWithLast_iff (by decide)
    { status_ok := by decide
      cookie := by decide
      kind := by decide
      finals := by decide
      last := by decide }).mpr (by decide)

/-- Two jobs; the NFA of the second one has run out of states. -/
def failedJob : List Batch :=
  [⟨.ok, [⟨.ok, 7, .isMatch 1 0 0 3 3 2⟩, ⟨.endOfJob, 7, .stats 100 0 0 0⟩]⟩,
    ⟨.ok, [⟨.deviceNfaStateLimit, 7, .stats 200 0 0 0⟩]⟩]

theorem failedJob_never_ends :
    Delivery 7 2 failedJob ∧ ¬ EndsWithLast 7 2 0 false failedJob := by
  constructor
  · exact
      { status_ok := by decide
        cookie := by decide
        kind := by decide
        finals := by decide
        last := by decide }
  · rintro ⟨s, hs⟩
    have hwait : collectResults 7 2 ⟨0, 0, false⟩ failedJob = .waiting ⟨1, 1, true⟩ := rfl
    rw [hwait] at hs
    cases hs

end NetL7.Demo
