import NetL7.Packet.InputRing

/-!
# The stateless half of `nlm_start_jobs`

With a ring of its own a thread allocates one FD after the other and takes the
write pointer back when the ring is full. What the loop has done to the flows
and the jobs by then stays. Between two allocations the hardware may take FDs that
it knows of already, so that the ring may fill up later than it looked at first.
-/

namespace NetL7.Packet

/-- One more job of a stateless flow is in flight. -/
def NlmFlow.countJob (flow : NlmFlow) : NlmFlow :=
  { flow with jobSeqId := (flow.jobSeqId + 1) % 2 ^ 32 }

namespace NlmFlow

@[simp] theorem countJob_iterate_type (n : ℕ) (flow : NlmFlow) :
    (countJob^[n] flow).type = flow.type := by
  induction n generalizing flow with
  | zero => rfl
  | succ n ih => rw [Function.iterate_succ_apply, ih]; rfl

theorem countJob_iterate_jobSeqId {n : ℕ} (hn : 0 < n) (flow : NlmFlow) :
    (countJob^[n] flow).jobSeqId = (flow.jobSeqId + n) % 2 ^ 32 := by
  induction n generalizing flow with
  | zero => exact absurd hn (lt_irrefl 0)
  | succ n ih =>
    rw [Function.iterate_succ_apply]
    rcases n.eq_zero_or_pos with rfl | hpos
    · rfl
    · rw [ih hpos]
      change ((flow.jobSeqId + 1) % 2 ^ 32 + n) % 2 ^ 32 = _
      rw [Nat.mod_add_mod, Nat.add_assoc, Nat.add_comm 1 n]

/-- Fewer than `2 ^ 32` increments do not come back to where they started. -/
theorem countJob_iterate_ne {n : ℕ} (hn : 0 < n) (hlt : n < 2 ^ 32) (flow : NlmFlow) :
    countJob^[n] flow ≠ flow := by
  intro heq
  have hseq := countJob_iterate_jobSeqId hn flow
  rw [heq] at hseq
  omega

end NlmFlow

namespace NlmDevice

variable {s s' s'' : NlmDevice} {j : ℕ} {jobs : List ℕ} {taken : ℕ → ℕ}

/-- A slot whose FD the hardware has taken already. -/
def SlotFree (s : NlmDevice) (slot : ℕ) : Prop :=
  ∃ k ≤ s.freeFds, slot = (s.inputWrtPtr + k) % s.inputFifoSize

/-- The library and the hardware find in `s'` what they find in `s`. -/
def SameAs (s' s : NlmDevice) : Prop :=
  s' = { s with inputFifo := s'.inputFifo } ∧
    ∀ slot, ¬ s.SlotFree slot → s'.inputFifo slot = s.inputFifo slot

/-- The number of stateless jobs of a batch that belong to flow `f`. -/
def startedOn (s : NlmDevice) (jobs : List ℕ) (f : ℕ) : ℕ :=
  jobs.countP fun j ↦ s.jobType j = .stateless ∧ (s.jobs j).flow = some f

theorem SameAs.refl (s : NlmDevice) : SameAs s s := ⟨rfl, fun _ _ ↦ rfl⟩

/-! ## The progress of the hardware -/

/-- The FDs that the hardware would take by the allocation number `i`. -/
def takenBy (taken : ℕ → ℕ) : ℕ → ℕ
  | 0 => taken 0
  | i + 1 => takenBy taken i + taken (i + 1)

theorem takenBy_succ (taken : ℕ → ℕ) (i : ℕ) :
    takenBy taken (i + 1) = taken 0 + takenBy (fun k ↦ taken (k + 1)) i := by
  induction i with
  | zero => rfl
  | succ i ih =>
    change takenBy taken (i + 1) + taken (i + 2) = _
    rw [ih, Nat.add_assoc]
    rfl

/-- The FDs that have been free by the allocation number `i`: the free ones, and
those that the hardware has taken of the ones it knows of. -/
def roomAt (s : NlmDevice) (taken : ℕ → ℕ) (i : ℕ) : ℕ :=
  s.freeFds + min (takenBy taken i) s.sentCount

theorem freeFds_takeFds (h : RingSound s) (hfifo : s.swJobFifo = none) :
    (s.takeFds (taken 0)).freeFds = s.roomAt taken 0 := (h.takeFds hfifo (taken 0)).2.1

/-- One allocation later there is room for one FD less. -/
theorem roomAt_succ (h : RingSound s) (hfifo : s.swJobFifo = none)
    (hfree : s'.freeFds + 1 = (s.takeFds (taken 0)).freeFds)
    (hsent : s'.sentCount = (s.takeFds (taken 0)).sentCount) (i : ℕ) :
    s'.roomAt (fun k ↦ taken (k + 1)) i + 1 = s.roomAt taken (i + 1) := by
  obtain ⟨-, hroom, hrest⟩ := h.takeFds hfifo (taken 0)
  unfold roomAt
  rw [takenBy_succ]
  omega

/-! ## The loop over the stateless jobs -/

/-- What is the same after any number of stateless jobs have been put into the ring. -/
def SameButRing (s' s : NlmDevice) : Prop :=
  s' = { s with
    inputRdPtr := s'.inputRdPtr
    inputWrtPtr := s'.inputWrtPtr
    inputWrtPtrDirty := s'.inputWrtPtrDirty
    inputFifo := s'.inputFifo
    flows := s'.flows
    jobs := s'.jobs }

theorem SameButRing.swJobFifo (h : SameButRing s' s) : s'.swJobFifo = s.swJobFifo := by
  unfold SameButRing at h
  rw [h]

theorem sameButRing_takeFds (hfifo : s.swJobFifo = none) (n : ℕ) :
    SameButRing (s.takeFds n) s := by
  rw [takeFds_eq hfifo]
  rfl

/-- The effect of starting the stateless jobs among `jobs`. -/
structure StatelessStarted (s : NlmDevice) (jobs : List ℕ) (s' : NlmDevice) : Prop where
  ring_sound : RingSound s'
  room_eq : s'.freeFds + s'.sentCount + s.nStateless jobs = s.freeFds + s.sentCount
  flows_eq : ∀ f, s'.flows f = NlmFlow.countJob^[s.startedOn jobs f] (s.flows f)
  jobs_flow : ∀ j, (s'.jobs j).flow = (s.jobs j).flow
  rest : SameButRing s' s

theorem jobType_congr (hjobs : ∀ j, (s'.jobs j).flow = (s.jobs j).flow)
    (hflows : ∀ f, (s'.flows f).type = (s.flows f).type) : s'.jobType = s.jobType := by
  funext j
  unfold jobType
  rw [hjobs]
  rcases (s.jobs j).flow with _ | f
  · rfl
  · exact hflows f

theorem exists_flow_of_stateless (hj : s.jobType j = .stateless) :
    ∃ f, (s.jobs j).flow = some f := by
  unfold jobType at hj
  rcases hf : (s.jobs j).flow with _ | f
  · rw [hf] at hj
    exact NlmFlowType.noConfusion hj
  · exact ⟨f, rfl⟩

theorem startStatelessJob_eq_none (h : RingOk s) :
    s.startStatelessJob j = none ↔ s.freeFds = 0 := by
  rw [← h.sysmemAllocFd_eq_none]
  unfold startStatelessJob
  rcases s.sysmemAllocFd with _ | ⟨slot, s'⟩ <;> simp

/-- One stateless job takes one FD and is counted once. -/
theorem startStatelessJob_eq_some (h : RingSound s) {f : ℕ} (hf : (s.jobs j).flow = some f)
    (hstart : s.startStatelessJob j = some s') :
    RingSound s' ∧ s'.freeFds + 1 = s.freeFds ∧ s'.sentCount = s.sentCount ∧
      s'.flows = Function.update s.flows f (s.flows f).countJob ∧
      (∀ i, (s'.jobs i).flow = (s.jobs i).flow) ∧ SameButRing s' s := by
  unfold startStatelessJob at hstart
  rcases halloc : s.sysmemAllocFd with _ | ⟨slot, s₁⟩
  · rw [halloc] at hstart
    exact absurd hstart (by simp)
  · rw [halloc] at hstart
    obtain ⟨hring, hfree, hsent⟩ := h.sysmemAllocFd_counts halloc
    have hs₁ : s₁.flows = s.flows ∧ s₁.jobs = s.jobs ∧ SameButRing s₁ s := by
      unfold sysmemAllocFd at halloc
      split at halloc
      · exact absurd halloc (by simp)
      · obtain ⟨-, rfl⟩ := Prod.mk.inj (Option.some.inj halloc)
        exact ⟨rfl, rfl, rfl⟩
    obtain ⟨hflows, hjobs, hrest⟩ := hs₁
    obtain rfl := Option.some.inj hstart
    refine ⟨hring.congr rfl rfl rfl rfl, hfree, hsent, ?_, fun i ↦ ?_, ?_⟩
    · have hflow : (s₁.jobs j).flow.getD 0 = f := by rw [hjobs, hf]; rfl
      change Function.update s₁.flows ((s₁.jobs j).flow.getD 0)
        (s₁.flows ((s₁.jobs j).flow.getD 0)).countJob = _
      rw [hflow, hflows]
    · change (Function.update s₁.jobs j { s₁.jobs j with flowOffset := 0 } i).flow = _
      rw [hjobs]
      by_cases hi : i = j
      · subst hi
        rw [Function.update_self]
      · rw [Function.update_of_ne hi]
    · unfold SameButRing at hrest ⊢
      rw [hrest]
      rfl

/-- Before the first allocation the hardware may take FDs. -/
theorem StatelessStarted.nil (h : RingSound s) (hfifo : s.swJobFifo = none) (n : ℕ) :
    StatelessStarted s [] (s.takeFds n) := by
  obtain ⟨hring, hfree, hsent⟩ := h.takeFds hfifo n
  have hn : s.nStateless [] = 0 := rfl
  refine ⟨hring, by omega, fun f ↦ ?_, fun j ↦ ?_, sameButRing_takeFds hfifo n⟩
  · rw [takeFds_eq hfifo]
    rfl
  · rw [takeFds_eq hfifo]

theorem StatelessStarted.skip (h : StatelessStarted s jobs s')
    (hj : s.jobType j ≠ .stateless) : StatelessStarted s (j :: jobs) s' := by
  refine { h with room_eq := ?_, flows_eq := fun f ↦ ?_ }
  · have hn : s.nStateless (j :: jobs) = s.nStateless jobs :=
      List.countP_cons_of_neg (by simpa using hj)
    rw [hn]
    exact h.room_eq
  · have hn : s.startedOn (j :: jobs) f = s.startedOn jobs f :=
      List.countP_cons_of_neg (by simp [hj])
    rw [hn]
    exact h.flows_eq f

/-- What starting one more job keeps of the flows and the jobs. -/
theorem jobType_startStatelessJob (hring : RingSound s) {n f : ℕ} (hfifo : s.swJobFifo = none)
    (hf : (s.jobs j).flow = some f) (hstart : (s.takeFds n).startStatelessJob j = some s') :
    s'.flows = Function.update s.flows f (s.flows f).countJob ∧
      (∀ i, (s'.jobs i).flow = (s.jobs i).flow) ∧ SameButRing s' s ∧ s'.jobType = s.jobType := by
  have hsound := (hring.takeFds hfifo n).1
  have hrest₁ := sameButRing_takeFds hfifo n
  rw [takeFds_eq hfifo] at hsound hstart hrest₁
  obtain ⟨-, -, -, hflows, hjobs, hrest⟩ := startStatelessJob_eq_some hsound hf hstart
  refine ⟨hflows, hjobs, ?_, jobType_congr hjobs fun g ↦ ?_⟩
  · unfold SameButRing at hrest ⊢
    exact hrest
  · rw [hflows]
    by_cases hg : g = f
    · subst hg
      rw [Function.update_self]
      rfl
    · rw [Function.update_of_ne hg]

theorem StatelessStarted.cons (hring : RingSound s) {n : ℕ} (hfifo : s.swJobFifo = none)
    (hj : s.jobType j = .stateless) (hstart : (s.takeFds n).startStatelessJob j = some s')
    (h : StatelessStarted s' jobs s'') : StatelessStarted s (j :: jobs) s'' := by
  obtain ⟨f, hf⟩ := exists_flow_of_stateless hj
  obtain ⟨hflows, hjobs, hrest, htype⟩ := jobType_startStatelessJob hring hfifo hf hstart
  refine ⟨h.ring_sound, ?_, fun g ↦ ?_, fun i ↦ (h.jobs_flow i).trans (hjobs i), ?_⟩
  · have hn : s.nStateless (j :: jobs) = s'.nStateless jobs + 1 := by
      unfold nStateless
      rw [htype, List.countP_cons_of_pos (by simpa using hj)]
    obtain ⟨hsound, hfree, hsent⟩ := hring.takeFds hfifo n
    have hf' : ((s.takeFds n).jobs j).flow = some f := by
      rw [takeFds_eq hfifo]
      exact hf
    obtain ⟨-, hfree', hsent', -⟩ := startStatelessJob_eq_some hsound hf' hstart
    have hroom := h.room_eq
    omega
  · have hn : s'.startedOn jobs g = s.startedOn jobs g := by
      unfold startedOn
      simp only [htype, hjobs]
    rw [h.flows_eq, hflows, hn]
    by_cases hg : g = f
    · subst hg
      have hcount : s.startedOn (j :: jobs) g = s.startedOn jobs g + 1 :=
        List.countP_cons_of_pos (by simp [hj, hf])
      rw [Function.update_self, hcount, Function.iterate_succ_apply]
    · have hcount : s.startedOn (j :: jobs) g = s.startedOn jobs g :=
        List.countP_cons_of_neg (by simp [hf, Ne.symm hg])
      rw [Function.update_of_ne hg, hcount]
  · have hrest' := h.rest
    unfold SameButRing at hrest hrest' ⊢
    rw [hrest', hrest]

/-- How far the loop gets: every allocation before the end of `pre` finds room, and
where the loop stops early the next one finds none. -/
structure LoopEnds (s : NlmDevice) (taken : ℕ → ℕ) (pre suf : List ℕ) (b : Bool) : Prop where
  found : ∀ i < s.nStateless pre, i < s.roomAt taken i
  whole : b = true → suf = []
  full : b = false → s.roomAt taken (s.nStateless pre) ≤ s.nStateless pre
  left : b = false → 0 < s.nStateless suf

/-- The loop starts the stateless jobs up to the first one for which there is
no FD. -/
theorem startStatelessLoop_spec (h : RingSound s) (hfifo : s.swJobFifo = none) {b : Bool}
    (hloop : startStatelessLoop taken s jobs = (b, s')) :
    ∃ pre suf, jobs = pre ++ suf ∧ StatelessStarted s pre s' ∧ s.LoopEnds taken pre suf b := by
  induction jobs generalizing s taken with
  | nil =>
    obtain ⟨rfl, rfl⟩ := Prod.mk.inj hloop
    have hnil := StatelessStarted.nil h hfifo 0
    rw [takeFds_zero h hfifo] at hnil
    exact ⟨[], [], rfl, hnil, fun i hi ↦ absurd hi (Nat.not_lt_zero i), fun _ ↦ rfl,
      fun hb ↦ Bool.noConfusion hb, fun hb ↦ Bool.noConfusion hb⟩
  | cons j jobs ih =>
    unfold startStatelessLoop at hloop
    split at hloop
    · rename_i hj
      have hroom : (s.takeFds (taken 0)).freeFds = s.roomAt taken 0 := freeFds_takeFds h hfifo
      obtain ⟨hsound, -⟩ := h.takeFds hfifo (taken 0)
      rcases hstart : (s.takeFds (taken 0)).startStatelessJob j with _ | s₁
      · rw [hstart] at hloop
        obtain ⟨rfl, rfl⟩ := Prod.mk.inj hloop
        have hzero := (startStatelessJob_eq_none hsound.toRingOk).mp hstart
        refine ⟨[], j :: jobs, rfl, .nil h hfifo _, fun i hi ↦ absurd hi (Nat.not_lt_zero i),
          fun hb ↦ Bool.noConfusion hb, fun _ ↦ ?_, fun _ ↦ ?_⟩
        · exact (hroom.symm.trans hzero).le
        · exact List.countP_pos_iff.mpr ⟨j, List.mem_cons_self, by simpa using hj⟩
      · rw [hstart] at hloop
        obtain ⟨f, hf⟩ := exists_flow_of_stateless hj
        obtain ⟨-, -, hrest, htype⟩ := jobType_startStatelessJob h hfifo hf hstart
        have hf' : ((s.takeFds (taken 0)).jobs j).flow = some f := by
          rw [takeFds_eq hfifo]
          exact hf
        obtain ⟨hring, hfree, hsent, -⟩ := startStatelessJob_eq_some hsound hf' hstart
        obtain ⟨pre, suf, rfl, hpre, hends⟩ := ih hring (hrest.swJobFifo.trans hfifo) hloop
        have hshift := roomAt_succ h hfifo hfree hsent
        have hn : ∀ js, s₁.nStateless js = s.nStateless js := fun js ↦ by
          unfold nStateless
          rw [htype]
        have hcons : s.nStateless (j :: pre) = s.nStateless pre + 1 :=
          List.countP_cons_of_pos (by simpa using hj)
        refine ⟨j :: pre, suf, rfl, .cons h hfifo hj hstart hpre, fun i hi ↦ ?_, hends.whole,
          fun hb ↦ ?_, fun hb ↦ hn suf ▸ hends.left hb⟩
        · cases i with
          | zero => omega
          | succ i =>
            have hfound := hends.found i (by rw [hn]; omega)
            have hi := hshift i
            omega
        · have hfull := hends.full hb
          have hlast := hshift (s.nStateless pre)
          rw [hn] at hfull
          rw [hcons]
          omega
    · rename_i hj
      obtain ⟨pre, suf, rfl, hpre, hends⟩ := ih h hfifo hloop
      have hn : s.nStateless (j :: pre) = s.nStateless pre :=
        List.countP_cons_of_neg (by simpa using hj)
      exact ⟨j :: pre, suf, rfl, hpre.skip hj, hn ▸ hends.found, hends.whole,
        hn ▸ hends.full, hends.left⟩

/-- If the first allocation finds no room the loop does nothing. -/
theorem startStatelessLoop_full (h : RingSound s) (hfifo : s.swJobFifo = none)
    (hzero : s.roomAt taken 0 = 0) : (startStatelessLoop taken s jobs).2 = s := by
  induction jobs with
  | nil => rfl
  | cons j jobs ih =>
    unfold startStatelessLoop
    split
    · have hsame : s.takeFds (taken 0) = s :=
        takeFds_of_sentCount h hfifo (Nat.add_eq_zero_iff.mp hzero).2
      rw [hsame, (startStatelessJob_eq_none h.toRingOk).mpr (Nat.add_eq_zero_iff.mp hzero).1]
    · exact ih

theorem nStateless_append (s : NlmDevice) (pre suf : List ℕ) :
    s.nStateless (pre ++ suf) = s.nStateless pre + s.nStateless suf := List.countP_append

/-- The loop stops early exactly if one of its allocations finds no room. -/
theorem startStatelessLoop_fst (h : RingSound s) (hfifo : s.swJobFifo = none) :
    (startStatelessLoop taken s jobs).1 = false ↔
      ∃ i < s.nStateless jobs, s.roomAt taken i ≤ i := by
  rcases hloop : startStatelessLoop taken s jobs with ⟨b, s'⟩
  obtain ⟨pre, suf, rfl, hpre, hends⟩ := startStatelessLoop_spec h hfifo hloop
  rw [nStateless_append]
  constructor
  · intro hb
    exact ⟨s.nStateless pre, Nat.lt_add_of_pos_right (hends.left hb), hends.full hb⟩
  · rintro ⟨i, hi, hroom⟩
    by_contra hb
    rw [Bool.not_eq_false] at hb
    rw [hends.whole hb] at hi
    exact absurd (hends.found i hi) (Nat.not_lt.mpr hroom)

theorem StatelessStarted.flows_ne (h : StatelessStarted s jobs s') (hring : RingSound s)
    (hpos : 0 < s.nStateless jobs) : s'.flows ≠ s.flows := by
  obtain ⟨j, hmem, hj⟩ := List.countP_pos_iff.mp hpos
  rw [decide_eq_true_eq] at hj
  obtain ⟨f, hf⟩ := exists_flow_of_stateless hj
  have hcount : 0 < s.startedOn jobs f :=
    List.countP_pos_iff.mpr ⟨j, hmem, by simp [hj, hf]⟩
  have hle : s.startedOn jobs f ≤ s.nStateless jobs :=
    List.countP_mono_left fun i _ hi ↦ by simpa using (of_decide_eq_true hi).1
  have hlt := hring.freeFds_add_sentCount_lt
  have hroom := h.room_eq
  intro heq
  refine NlmFlow.countJob_iterate_ne hcount (by omega) (s.flows f) ?_
  rw [← h.flows_eq, heq]

/-- Some stateless jobs find room and another one does not. -/
def FillsUp (s : NlmDevice) (taken : ℕ → ℕ) (n : ℕ) : Prop :=
  0 < s.roomAt taken 0 ∧ ∃ i < n, s.roomAt taken i ≤ i

instance (s : NlmDevice) (taken : ℕ → ℕ) (n : ℕ) : Decidable (s.FillsUp taken n) :=
  inferInstanceAs (Decidable (0 < s.roomAt taken 0 ∧ ∃ i < n, s.roomAt taken i ≤ i))

/-- In which case `nlm_start_jobs` gives up in the middle of the batch. -/
def GivesUpMidway (s : NlmDevice) (taken : ℕ → ℕ) (batch : List (Option ℕ)) : Prop :=
  s.swJobFifo = none ∧ batch.findSome? s.jobError = none ∧
    s.FillsUp taken (s.nStateless batch.reduceOption)

/-- The stateful half of the call does not report errors. -/
theorem startStateful_status {status : NlmStatus}
    (h : s.startStateful taken jobs = .ok (status, s')) : status = .ok := by
  unfold startStateful at h
  split at h
  · exact (Prod.mk.inj (Except.ok.inj h)).1.symm
  · rcases hfold : (jobs.filter fun j ↦ s.jobType j = .stateful).foldlM startStatefulJob s
      with e | s₁
    · rw [hfold] at h
      change Except.error e = _ at h
      cases h
    · rw [hfold] at h
      rcases htry : s₁.nlmTryStartStatefulFlows taken with e | s₂
      · simp only [bind, Except.bind, htry] at h
        cases h
      · simp only [bind, Except.bind, htry] at h
        exact (Prod.mk.inj (Except.ok.inj h)).1.symm

/-- The stateless half: an error leaves everything as it was, or the ring was
filled up on the way. -/
theorem startStateless_error {status : NlmStatus} (h : s.swJobFifo = none → RingSound s)
    (hstart : s.startStateless taken jobs = .ok (status, s')) (hstatus : status ≠ .ok) :
    s'.SameAs s ∨ s.swJobFifo = none ∧ s.FillsUp taken (s.nStateless jobs) := by
  unfold startStateless at hstart
  split at hstart
  · exact absurd (Prod.mk.inj (Except.ok.inj hstart)).1.symm hstatus
  · rcases hfifo : s.swJobFifo with _ | fifo
    · rw [hfifo] at hstart
      have hring := h hfifo
      rcases hloop : startStatelessLoop taken s jobs with ⟨b, s₁⟩
      rw [hloop] at hstart
      cases b with
      | true => exact absurd (Prod.mk.inj (Except.ok.inj hstart)).1.symm hstatus
      | false =>
        have hout := (startStatelessLoop_fst hring hfifo).mp (congrArg Prod.fst hloop)
        rcases (s.roomAt taken 0).eq_zero_or_pos with hzero | hpos
        · have hsame := congrArg Prod.snd hloop
          rw [startStatelessLoop_full hring hfifo hzero] at hsame
          obtain ⟨-, rfl⟩ := Prod.mk.inj (Except.ok.inj hstart)
          subst hsame
          exact .inl (.refl s)
        · exact .inr ⟨rfl, hpos, hout⟩
    · rw [hfifo] at hstart
      simp only at hstart
      split at hstart
      · obtain ⟨-, rfl⟩ := Prod.mk.inj (Except.ok.inj hstart)
        exact .inl (.refl s)
      · rcases hpush : s.pushStateless fifo jobs with e | fifo'
        · rw [hpush] at hstart
          change Except.error e = _ at hstart
          cases hstart
        · rw [hpush] at hstart
          exact absurd (Prod.mk.inj (Except.ok.inj hstart)).1.symm hstatus

theorem nlmStartJobs_of_check {batch : List (Option ℕ)} (hne : batch ≠ [])
    (hcheck : batch.findSome? s.jobError = none) :
    s.nlmStartJobs taken batch = s.startStateless taken batch.reduceOption >>= fun r ↦
      if r.1 ≠ .ok then .ok (r.1, r.2)
      else r.2.startStateful (fun i ↦ taken (i + s.nStateless batch.reduceOption))
        batch.reduceOption := by
  unfold nlmStartJobs
  rw [if_neg hne, hcheck]

/-- `nlm_start_jobs` gives all of the batch back when it fails, whatever the hardware
takes meanwhile, except where some of the stateless jobs found room in the ring and
another one did not. -/
theorem startJobs_all_or_nothing_iff (taken : ℕ → ℕ) (batch : List (Option ℕ))
    (h : s.swJobFifo = none → RingSound s) :
    (∀ status s', s.nlmStartJobs taken batch = .ok (status, s') → status ≠ .ok → s'.SameAs s) ↔
      ¬ s.GivesUpMidway taken batch := by
  constructor
  · rintro hsame ⟨hfifo, hcheck, hpos, i, hi, hroom⟩
    have hring := h hfifo
    have hne : batch ≠ [] := by
      rintro rfl
      exact absurd hi (Nat.not_lt_zero i)
    have hn : s.nStateless batch.reduceOption ≠ 0 := Nat.ne_of_gt (Nat.zero_lt_of_lt hi)
    rcases hloop : startStatelessLoop taken s batch.reduceOption with ⟨b, s₁⟩
    have hb : b = false := by
      have hfst := (startStatelessLoop_fst hring hfifo).mpr ⟨i, hi, hroom⟩
      rwa [hloop] at hfst
    subst hb
    obtain ⟨pre, suf, -, hpre, hends⟩ := startStatelessLoop_spec hring hfifo hloop
    have hstart : s.nlmStartJobs taken batch =
        .ok (.inputFifoFull, { s₁ with inputWrtPtr := s.inputWrtPtr }) := by
      rw [nlmStartJobs_of_check hne hcheck]
      simp only [startStateless, if_neg hn, hfifo, hloop]
      rfl
    have hrest := (hsame _ _ hstart (by decide)).1
    -- the first allocation found room, so that the loop has started a job
    have hstarted : 0 < s.nStateless pre := by
      rcases (s.nStateless pre).eq_zero_or_pos with hzero | hstarted
      · have hfull := hends.full rfl
        rw [hzero] at hfull
        omega
      · exact hstarted
    have hflows := congrArg NlmDevice.flows hrest
    exact hpre.flows_ne hring hstarted hflows
  · intro hmid status s' hstart hstatus
    by_cases hne : batch = []
    · unfold nlmStartJobs at hstart
      rw [if_pos hne] at hstart
      obtain ⟨-, rfl⟩ := Prod.mk.inj (Except.ok.inj hstart)
      exact .refl s
    · cases hcheck : batch.findSome? s.jobError with
      | some err =>
        unfold nlmStartJobs at hstart
        rw [if_neg hne, hcheck] at hstart
        obtain ⟨-, rfl⟩ := Prod.mk.inj (Except.ok.inj hstart)
        exact .refl s
      | none =>
        rw [nlmStartJobs_of_check hne hcheck] at hstart
        cases hstateless : s.startStateless taken batch.reduceOption with
        | error e =>
          rw [hstateless] at hstart
          change Except.error e = _ at hstart
          cases hstart
        | ok r =>
          rw [hstateless] at hstart
          change (if r.1 ≠ .ok then Except.ok (r.1, r.2)
            else r.2.startStateful (fun i ↦ taken (i + s.nStateless batch.reduceOption))
              batch.reduceOption) = _ at hstart
          split at hstart
          · rename_i hne
            obtain ⟨-, rfl⟩ := Prod.mk.inj (Except.ok.inj hstart)
            rcases startStateless_error h hstateless hne with hsame | ⟨hfifo, hfills⟩
            · exact hsame
            · exact absurd ⟨hfifo, hcheck, hfills⟩ hmid
          · exact absurd (startStateful_status hstart) hstatus

/-- A thread whose ring has one free FD, with two jobs of the stateless flow 1. -/
def twoJobsOneFd : NlmDevice :=
  { attached 0 2 false with
    flows := fun _ ↦ { NlmFlow.zero with type := .stateless, isStateless := true }
    jobs := fun _ ↦ { NlmJob.zero with flow := some 1 } }

/-- The thread after the first of its jobs has been started. Its ring is full. -/
def oneJobFullRing : NlmDevice :=
  match twoJobsOneFd.nlmStartJobs (fun _ ↦ 0) [some 1] with
  | .ok (_, s) => s
  | .error _ => twoJobsOneFd

/-- On the full ring the call fails and leaves everything as it was, although the
hardware would have taken an FD one allocation later. -/
theorem startJobs_all_or_nothing_iff_sample :
    ∃ s', oneJobFullRing.nlmStartJobs (fun i ↦ i) [some 2, some 1] = .ok (.inputFifoFull, s') ∧
      (oneJobFullRing.flows 1).jobSeqId = 1 ∧ s'.SameAs oneJobFullRing := by
  have hsound : oneJobFullRing.swJobFifo = none → RingSound oneJobFullRing :=
    fun _ ↦ ⟨⟨by decide, by decide, by decide⟩, by decide, by decide⟩
  have hmid : ¬ oneJobFullRing.GivesUpMidway (fun i ↦ i) [some 2, some 1] := by
    rintro ⟨-, -, hpos, -⟩
    revert hpos
    decide
  exact ⟨_, rfl, rfl,
    (startJobs_all_or_nothing_iff (fun i ↦ i) _ hsound).mpr hmid _ _ rfl (by decide)⟩

/-- The failed call leaves the job that had been put into the ring counted. -/
theorem twoJobsOneFd_counted :
    ∃ s', twoJobsOneFd.nlmStartJobs (fun _ ↦ 0) [some 1, some 2] = .ok (.inputFifoFull, s') ∧
      (twoJobsOneFd.flows 1).jobSeqId = 0 ∧ (s'.flows 1).jobSeqId = 1 ∧
      ¬ s'.SameAs twoJobsOneFd := by
  refine ⟨_, rfl, rfl, rfl, fun hsame ↦ ?_⟩
  have hseq := congrArg (fun s ↦ (s.flows 1).jobSeqId) hsame.1
  exact absurd hseq (by decide)

end NlmDevice

end NetL7.Packet
