import NetL7.Demo.CollectResults

/-!
# The result loop of the packet benchmark

`dpi_loop.c` keeps the number of jobs it still waits for in `job_cnt`. A result is a match if
its status is `NLM_OK`, or `NLM_END_ANCHORED` and the loop is verbose; every other result counts
as the end of a job. So a loop that is not verbose takes a match at the end of the data for
a completion.
-/

namespace NetL7.Demo

open NetL7.Packet

/-- `matches[i].u.stats.timestamp` -/
def timestamp : ResultInfo → ℕ
  | .stats timestamp _ _ _ => timestamp
  | .isMatch .. => 0

/-- The variables of one round of the benchmark. -/
structure ResultLoop where
  jobCnt : ℤ
  status : NlmStatus
  lastTimestamp : ℕ
  engineCycles : ℕ
  packetCnt : ℕ
  /-- `cnt`, the turns the inner loop has left. -/
  cnt : ℕ
  deriving DecidableEq

namespace ResultLoop

variable (flagVerbose : ℕ) (s : ResultLoop)

/-- The part of a turn that measures how long the engine took. -/
def measure (r : NlmResult) : ResultLoop :=
  let cycles := (2 ^ 64 + timestamp r.u - s.lastTimestamp) % 2 ^ 64
  if s.lastTimestamp ≠ 0 ∧ r.cookie ≠ 0 ∧ cycles ≤ 0xff0000 then
    { s with
      engineCycles := (s.engineCycles + cycles) % 2 ^ 64
      packetCnt := (s.packetCnt + 1) % 2 ^ 32 }
  else s

/-- One turn of the `for` loop over a batch. -/
def turn (r : NlmResult) : ResultLoop :=
  if r.status = .ok then s
  else if r.status = .endAnchored ∧ flagVerbose ≠ 0 then s
  else if r.status = .endOfJob then
    { s.measure r with
      status := .endOfJob, jobCnt := s.jobCnt - 1, lastTimestamp := timestamp r.u }
  else { s with status := .endOfJob, jobCnt := s.jobCnt - 1 }

/-- One turn of the inner loop: the results of one call. -/
def batch (b : Batch) : ResultLoop :=
  let s := { s with status := b.status }
  let s := if b.status = .ok then b.results.foldl (turn flagVerbose) s else s
  { s with cnt := s.cnt - 1 }

/-- `status == NLM_OK && cnt` -/
def Again : Prop := s.status = .ok ∧ s.cnt ≠ 0

instance : Decidable s.Again := inferInstanceAs (Decidable (_ ∧ _))

/-- The outer loop starts the inner one anew. -/
def next : ResultLoop := if s.Again then s else { s with cnt := 1000000 }

/-- The states after each of the batches, and whether the outer loop has been left. -/
def afterBatches : ResultLoop → List Batch → List ResultLoop × Bool
  | _, [] => ([], false)
  | s, b :: rest =>
    let s := s.batch flagVerbose b
    if ¬ s.Again ∧ s.jobCnt = 0 then ([s], true)
    else
      let r := afterBatches s.next rest
      (s :: r.1, r.2)

end ResultLoop

/-- One round with `submitted` jobs, where `before` holds the variables of the last round. -/
def resultRound (flagVerbose submitted : ℕ) (before : ResultLoop) (batches : List Batch) :
    List ResultLoop × Bool :=
  if submitted = 0 then ([], true)
  else ResultLoop.afterBatches flagVerbose
    { before with jobCnt := submitted, lastTimestamp := 0, cnt := 1000000 } batches

/-- How many jobs have got their final result. -/
def finalCnt (batches : List Batch) : ℕ := statusCnt (¬ IsMatch ·) batches

/-- The clause for one round, over all values of `flag_verbose`. -/
structure Accounted (submitted : ℕ) (before : ResultLoop) (batches : List Batch) : Prop where
  jobCnt : ∀ flag < 3, ∀ k s, (resultRound flag submitted before batches).1[k]? = some s →
    s.jobCnt = (submitted : ℤ) - finalCnt (batches.take (k + 1))
  same : ∀ flag < 3, (resultRound flag submitted before batches).1.map (·.jobCnt) =
    (resultRound 0 submitted before batches).1.map (·.jobCnt)
  left : ∀ flag < 3, (resultRound flag submitted before batches).2 = true →
    finalCnt (batches.take (resultRound flag submitted before batches).1.length) = submitted

/-- No batch that comes while jobs are outstanding holds an anchored match. -/
def NoAnchored (submitted : ℕ) (batches : List Batch) : Prop :=
  ∀ k b, batches[k]? = some b → finalCnt (batches.take k) < submitted →
    ∀ r ∈ b.results, r.status ≠ .endAnchored

/-- A call that fails returns no results. -/
def NoResultsOnError (batches : List Batch) : Prop :=
  ∀ b ∈ batches, b.status ≠ .ok → b.results = []

/-- The results of a batch that are matches at the end of the data. -/
def anchoredCnt (b : Batch) : ℕ := statusCnt (· = .endAnchored) [b]

theorem finalCnt_cons (b : Batch) (batches : List Batch) :
    finalCnt (b :: batches) = finalCnt [b] + finalCnt batches := by
  rw [finalCnt, ← List.singleton_append, statusCnt_append]
  rfl

theorem anchoredCnt_eq_zero_iff (b : Batch) :
    anchoredCnt b = 0 ↔ ∀ r ∈ b.results, r.status ≠ .endAnchored := by
  simp [anchoredCnt, statusCnt]

theorem noAnchored_cons {n : ℕ} {b : Batch} {rest : List Batch} :
    NoAnchored n (b :: rest) ↔
      (0 < n → anchoredCnt b = 0) ∧ NoAnchored (n - finalCnt [b]) rest := by
  rw [anchoredCnt_eq_zero_iff]
  constructor
  · intro h
    constructor
    · intro hn
      exact h 0 b rfl hn
    · intro k b' hb' hlt
      apply h (k + 1) b' hb'
      rw [List.take_succ_cons, finalCnt_cons]
      omega
  · rintro ⟨hfirst, hrest⟩ k b' hb' hlt
    cases k with
    | zero =>
      cases hb'
      exact hfirst hlt
    | succ k =>
      rw [List.take_succ_cons, finalCnt_cons] at hlt
      exact hrest k b' hb' (by omega)

namespace ResultLoop

variable {flagVerbose : ℕ}

/-- What the loop subtracts for one result: a completion, or a match it takes for one. -/
theorem turn_jobCnt (s : ResultLoop) (r : NlmResult) :
    (s.turn flagVerbose r).jobCnt = s.jobCnt - (if ¬ IsMatch r.status then 1 else 0) -
      (if flagVerbose = 0 ∧ r.status = .endAnchored then 1 else 0) := by
  simp only [turn, measure]
  by_cases hok : r.status = .ok
  · simp [hok, IsMatch]
  by_cases hanchored : r.status = .endAnchored
  · by_cases hflag : flagVerbose = 0
    · simp [hanchored, hflag, IsMatch]
    · simp [hanchored, hflag, IsMatch]
  · by_cases hend : r.status = .endOfJob
    · simp [hend, IsMatch]
    · simp [hok, hanchored, hend, IsMatch]

theorem turn_status (s : ResultLoop) (r : NlmResult)
    (h : (s.turn flagVerbose r).status = .ok) : s.turn flagVerbose r = s := by
  simp only [turn] at h ⊢
  split_ifs at h ⊢
  all_goals rfl

theorem turn_eq_of_not_anchored (s : ResultLoop) {r : NlmResult} (h : r.status ≠ .endAnchored) :
    s.turn flagVerbose r = s.turn 0 r := by
  simp [turn, h]

theorem foldl_turn_jobCnt (s : ResultLoop) (results : List NlmResult) :
    (results.foldl (turn flagVerbose) s).jobCnt =
      s.jobCnt - results.countP (fun r ↦ ¬ IsMatch r.status) -
        (if flagVerbose = 0 then results.countP (fun r ↦ r.status = .endAnchored) else 0 : ℕ) := by
  induction results generalizing s with
  | nil => simp
  | cons r results ih =>
    rw [List.foldl_cons, ih, turn_jobCnt, List.countP_cons, List.countP_cons]
    by_cases hflag : flagVerbose = 0
    · by_cases hm : IsMatch r.status
      · by_cases ha : r.status = .endAnchored
        · simp [hflag, ha, IsMatch]
          omega
        · simp [hflag, hm, ha]
      · by_cases ha : r.status = .endAnchored
        · exact absurd (.inr ha) hm
        · simp [hflag, hm, ha]
          omega
    · by_cases hm : IsMatch r.status
      · simp [hflag, hm]
      · simp [hflag, hm]
        omega

theorem foldl_turn_status (s : ResultLoop) (results : List NlmResult)
    (h : (results.foldl (turn flagVerbose) s).status = .ok) :
    results.foldl (turn flagVerbose) s = s := by
  induction results generalizing s with
  | nil => rfl
  | cons r results ih =>
    rw [List.foldl_cons] at h ⊢
    have hrest := ih (s.turn flagVerbose r) h
    rw [hrest] at h ⊢
    exact turn_status s r h

theorem batch_jobCnt (flagVerbose : ℕ) (s : ResultLoop) {b : Batch} (hb : b.status ≠ .ok → b.results = []) :
    (s.batch flagVerbose b).jobCnt =
      s.jobCnt - finalCnt [b] - (if flagVerbose = 0 then anchoredCnt b else 0 : ℕ) := by
  simp only [batch, finalCnt, anchoredCnt, statusCnt, List.flatMap_cons, List.flatMap_nil,
    List.append_nil]
  by_cases hok : b.status = .ok
  · rw [if_pos hok, foldl_turn_jobCnt]
  · simp [hok, hb hok]

theorem batch_jobCnt_of_again (s : ResultLoop) (b : Batch)
    (h : (s.batch flagVerbose b).Again) : (s.batch flagVerbose b).jobCnt = s.jobCnt := by
  have hstatus := h.1
  simp only [batch] at hstatus ⊢
  by_cases hok : b.status = .ok
  · rw [if_pos hok] at hstatus ⊢
    rw [foldl_turn_status _ _ hstatus]
  · rw [if_neg hok]

theorem batch_eq_of_not_anchored (s : ResultLoop) {b : Batch} (h : anchoredCnt b = 0) :
    s.batch flagVerbose b = s.batch 0 b := by
  rw [anchoredCnt_eq_zero_iff] at h
  have hfold : ∀ (results : List NlmResult) (s : ResultLoop),
      (∀ r ∈ results, r.status ≠ .endAnchored) →
        results.foldl (turn flagVerbose) s = results.foldl (turn 0) s := by
    intro results
    induction results with
    | nil => exact fun _ _ ↦ rfl
    | cons r results ih =>
      intro s hr
      rw [List.foldl_cons, List.foldl_cons, turn_eq_of_not_anchored s (hr r List.mem_cons_self)]
      exact ih _ fun r hmem ↦ hr r (List.mem_cons_of_mem _ hmem)
  simp only [batch, hfold b.results _ h]

@[simp] theorem next_jobCnt (s : ResultLoop) : s.next.jobCnt = s.jobCnt := by
  rw [next]
  split_ifs <;> rfl

theorem batch_step (flagVerbose : ℕ) {n : ℕ} {s : ResultLoop} {b : Batch} (hs : s.jobCnt = n)
    (hn : 0 < n) (hb : b.status ≠ .ok → b.results = []) (hle : finalCnt [b] ≤ n)
    (h : anchoredCnt b = 0) :
    (s.batch flagVerbose b).jobCnt = (n - finalCnt [b] : ℕ) ∧
      (¬ (s.batch flagVerbose b).Again ∧ (s.batch flagVerbose b).jobCnt = 0 ↔
        finalCnt [b] = n) := by
  have hcnt := batch_jobCnt flagVerbose s hb
  rw [h, ite_self, hs] at hcnt
  refine ⟨by omega, ?_⟩
  constructor
  · rintro ⟨-, hzero⟩
    omega
  · intro hall
    refine ⟨?_, by omega⟩
    intro hagain
    have := batch_jobCnt_of_again s b hagain
    omega

/-- Without anchored matches the verbosity makes no difference. -/
theorem afterBatches_eq_of_noAnchored {n : ℕ} {batches : List Batch} (s : ResultLoop)
    (hs : s.jobCnt = n) (hn : 0 < n) (herr : NoResultsOnError batches)
    (hle : finalCnt batches ≤ n) (h : NoAnchored n batches) :
    afterBatches flagVerbose s batches = afterBatches 0 s batches := by
  induction batches generalizing n s with
  | nil => rfl
  | cons b rest ih =>
    obtain ⟨hfirst, hrest⟩ := noAnchored_cons.mp h
    rw [finalCnt_cons] at hle
    obtain ⟨hcnt, hleave⟩ := batch_step 0 hs hn (herr b List.mem_cons_self) (by omega) (hfirst hn)
    simp only [afterBatches, batch_eq_of_not_anchored s (hfirst hn), hleave]
    by_cases hall : finalCnt [b] = n
    · rw [if_pos hall, if_pos hall]
    · have htail := ih (s.batch 0 b).next ((next_jobCnt _).trans hcnt) (by omega)
        (fun b hb ↦ herr b (List.mem_cons_of_mem _ hb)) (by omega) hrest
      rw [if_neg hall, if_neg hall, htail]

/-- The counter after each batch, and what has come when the loop is left. -/
theorem afterBatches_accounted {n : ℕ} {batches : List Batch} (s : ResultLoop)
    (hs : s.jobCnt = n) (hn : 0 < n) (herr : NoResultsOnError batches)
    (hle : finalCnt batches ≤ n) (h : NoAnchored n batches) :
    (∀ k s', (afterBatches flagVerbose s batches).1[k]? = some s' →
        s'.jobCnt = (n : ℤ) - finalCnt (batches.take (k + 1))) ∧
      ((afterBatches flagVerbose s batches).2 = true →
        finalCnt (batches.take (afterBatches flagVerbose s batches).1.length) = n) := by
  induction batches generalizing n s with
  | nil => simp [afterBatches]
  | cons b rest ih =>
    obtain ⟨hfirst, hrest⟩ := noAnchored_cons.mp h
    rw [finalCnt_cons] at hle
    obtain ⟨hcnt, hleave⟩ := batch_step flagVerbose hs hn (herr b List.mem_cons_self) (by omega)
      (hfirst hn)
    simp only [afterBatches, hleave]
    by_cases hall : finalCnt [b] = n
    · rw [if_pos hall]
      constructor
      · intro k s' hk
        cases k with
        | zero =>
          cases hk
          simp only [Nat.zero_add, List.take_succ_cons, List.take_zero]
          omega
        | succ k => simp at hk
      · intro _
        simpa using hall
    · rw [if_neg hall]
      obtain ⟨htail, hleft⟩ := ih (s.batch flagVerbose b).next ((next_jobCnt _).trans hcnt)
        (by omega) (fun b hb ↦ herr b (List.mem_cons_of_mem _ hb)) (by omega) hrest
      constructor
      · intro k s' hk
        rw [List.take_succ_cons, finalCnt_cons]
        cases k with
        | zero =>
          cases hk
          simp only [List.take_zero]
          have : finalCnt [] = 0 := rfl
          omega
        | succ k =>
          have := htail k s' hk
          omega
      · intro hend
        rw [List.length_cons, List.take_succ_cons, finalCnt_cons, hleft hend]
        omega

/-- A loop that is not verbose and counts right has met no anchored match. -/
theorem noAnchored_of_jobCnt {n : ℕ} {batches : List Batch} (s : ResultLoop)
    (hs : s.jobCnt = n) (herr : NoResultsOnError batches) (hle : finalCnt batches ≤ n)
    (h : ∀ k s', (afterBatches 0 s batches).1[k]? = some s' →
      s'.jobCnt = (n : ℤ) - finalCnt (batches.take (k + 1))) :
    NoAnchored n batches := by
  induction batches generalizing n s with
  | nil => simp [NoAnchored]
  | cons b rest ih =>
    rw [noAnchored_cons]
    rw [finalCnt_cons] at hle
    have hb := herr b List.mem_cons_self
    have hfirst : (s.batch 0 b).jobCnt = (n : ℤ) - finalCnt [b] := by
      apply h 0
      simp only [afterBatches]
      split_ifs <;> rfl
    have hcnt := batch_jobCnt 0 s hb
    rw [if_pos rfl, hs] at hcnt
    have hzero : anchoredCnt b = 0 := by omega
    refine ⟨fun _ ↦ hzero, ?_⟩
    by_cases hall : finalCnt [b] = n
    · intro k b' _ hlt
      omega
    · apply ih (s.batch 0 b).next
      · rw [next_jobCnt]
        omega
      · exact fun b hb ↦ herr b (List.mem_cons_of_mem _ hb)
      · omega
      · intro k s' hk
        have hstep : (afterBatches 0 s (b :: rest)).1[k + 1]? = some s' := by
          simp only [afterBatches]
          rw [if_neg (by omega)]
          exact hk
        have := h (k + 1) s' hstep
        rw [List.take_succ_cons, finalCnt_cons] at this
        omega

end ResultLoop

theorem accounted_iff {submitted : ℕ} (before : ResultLoop) {batches : List Batch}
    (herr : NoResultsOnError batches) (hle : finalCnt batches ≤ submitted) :
    Accounted submitted before batches ↔ NoAnchored submitted batches := by
  by_cases hzero : submitted = 0
  · have hround : ∀ flag, resultRound flag submitted before batches = ([], true) :=
      fun flag ↦ if_pos hzero
    constructor
    · intro _ k b _ hlt
      omega
    · intro _
      constructor
      · simp [hround]
      · simp [hround]
      · intro flag _ _
        rw [hround]
        exact hzero.symm
  have hround : ∀ flag, resultRound flag submitted before batches =
      ResultLoop.afterBatches flag
        { before with jobCnt := submitted, lastTimestamp := 0, cnt := 1000000 } batches :=
    fun flag ↦ if_neg hzero
  constructor
  · intro h
    refine ResultLoop.noAnchored_of_jobCnt
      { before with jobCnt := submitted, lastTimestamp := 0, cnt := 1000000 } rfl herr hle ?_
    rw [← hround 0]
    exact h.jobCnt 0 (by omega)
  · intro h
    have hpos : 0 < submitted := Nat.pos_of_ne_zero hzero
    constructor
    · intro flag _
      rw [hround]
      exact (ResultLoop.afterBatches_accounted _ rfl hpos herr hle h).1
    · intro flag _
      rw [hround, hround, ResultLoop.afterBatches_eq_of_noAnchored _ rfl hpos herr hle h]
    · intro flag _
      rw [hround]
      exact (ResultLoop.afterBatches_accounted _ rfl hpos herr hle h).2

/-- Three jobs of which one fails, with matches before and between their completions. -/
def oneFails : List Batch :=
  [⟨.ok, [⟨.ok, 7, .isMatch 1 0 0 3 3 2⟩, ⟨.endOfJob, 7, .stats 100 0 0 0⟩]⟩,
    ⟨.ok, []⟩,
    ⟨.ok, [⟨.deviceNfaStateLimit, 7, .stats 200 0 0 0⟩, ⟨.ok, 7, .isMatch 2 0 0 9 9 4⟩,
      ⟨.endOfJob, 7, .stats 300 0 0 0⟩]⟩]

theorem accounted_iff_oneFails : Accounted 3 ⟨0, .ok, 0, 0, 0, 0⟩ oneFails := by
  refine (accounted_iff _ (by unfold NoResultsOnError; decide) (by decide)).mpr ?_
  have hnone : ∀ b ∈ oneFails, ∀ r ∈ b.results, r.status ≠ .endAnchored := by decide
  exact fun k b hget _ ↦ hnone b (List.mem_of_getElem? hget)

/-- One job whose match at the end of the data comes in a batch before its completion. -/
def anchoredFirst : List Batch :=
  [⟨.ok, [⟨.endAnchored, 7, .isMatch 1 0 0 3 3 2⟩]⟩, ⟨.ok, [⟨.endOfJob, 7, .stats 100 0 0 0⟩]⟩]

/-- The loop that is not verbose ends with the job still outstanding. -/
theorem anchoredFirst_not_accounted :
    NoResultsOnError anchoredFirst ∧ finalCnt anchoredFirst = 1 ∧
      ¬ Accounted 1 ⟨0, .ok, 0, 0, 0, 0⟩ anchoredFirst := by
  refine ⟨by unfold NoResultsOnError; decide, by decide, ?_⟩
  intro h
  have hleft := h.left 0 (by omega)
  revert hleft
  decide

end NetL7.Demo
