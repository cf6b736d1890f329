import NetL7.Packet.Populate

/-!
# Assertions with effects

`pretty_assert` evaluates its argument only without `NDEBUG`. In
`get_search_results_from_fifo` the argument is the call of `populate_results`, so
the two builds agree only where every RD of the FIFO is one that this call ignores.
-/

namespace NetL7.Packet

open NetL7.Lib

/-- A dataplane thread with its software result FIFO and the results it has copied. -/
structure ResultRun where
  t : Thread
  fifo : SwFifo HwResultDescriptor
  results : List NlmResult

namespace ResultRun

/-- The call of `populate_results` for the RD in the given slot, which returns 0. -/
def populate (r : ResultRun) (slot : ℕ) : Except ResultFault ResultRun := do
  let (t, result, mark) ← r.t.populateResults (r.fifo.buf slot)
  .ok
    { t := t
      fifo := if mark then r.fifo.write slot (r.fifo.buf slot).mark else r.fifo
      results := r.results ++ result.toList }

/-- `pretty_assert` around an expression with effects. With `NDEBUG` it is
`(void) (0 && (EXP))`. -/
def prettyAssert (ndebug : Bool) (exp : ResultRun → Except ResultFault ResultRun)
    (r : ResultRun) : Except ResultFault ResultRun :=
  if ndebug then .ok r else exp r

/-- The loop of `get_search_results_from_fifo`. Each turn pops one RD, so as many turns
as the FIFO has RDs are enough. -/
def fifoLoop (ndebug : Bool) (nBufEntries : ℕ) : ℕ → ResultRun → Except ResultFault ResultRun
  | 0, r => .ok r
  | turns + 1, r =>
    match r.fifo.peekOutput with
    | none => .ok r
    | some slot => do
      let r ← prettyAssert ndebug (fun r ↦ r.populate slot) r
      let r := { r with fifo := r.fifo.pop }
      if r.results.length = nBufEntries then .ok r else fifoLoop ndebug nBufEntries turns r

/-- `get_search_results_from_fifo`. `NLM_OK` is its only status. -/
def getSearchResultsFromFifo (ndebug : Bool) (nBufEntries : ℕ) (t : Thread)
    (fifo : SwFifo HwResultDescriptor) : Except ResultFault ResultRun :=
  fifoLoop ndebug nBufEntries fifo.count ⟨t, fifo, []⟩

/-- Two runs end with the same results, the same thread (its jobs, PDs, flows and free
lists) and the same FIFO. Slots that have been popped do not count. -/
structure Same (r r' : ResultRun) : Prop where
  results : r'.results = r.results
  thread : r'.t = r.t
  size : r'.fifo.size = r.fifo.size
  in_eq : r'.fifo.inPtr = r.fifo.inPtr
  out_eq : r'.fifo.outPtr = r.fifo.outPtr
  contents : r'.fifo.contents = r.fifo.contents

end ResultRun

namespace SwFifo

variable {α : Type*} {f : SwFifo α}

/-- Writing into the slot that is popped leaves the other elements. -/
theorem Ok.contents_write_pop (h : f.Ok) (hcount : 0 < f.count) (v : α) :
    (f.write (f.outPtr % f.size) v).pop.contents = f.pop.contents := by
  have hpop := h.count_pop hcount
  have hle := h.count_le
  have hmod := h.pop_out_mod
  refine window_congr fun i hi ↦ Function.update_of_ne ?_ _ _
  change i < f.pop.count at hi
  change (f.pop.outPtr + i) % f.size ≠ f.outPtr % f.size
  have hslot : (f.pop.outPtr + i) % f.size = (f.outPtr + (i + 1)) % f.size := by
    rw [Nat.add_mod, hmod, ← Nat.add_mod, Nat.add_assoc, Nat.add_comm 1 i]
  rw [hslot]
  have hne : (f.outPtr + 0) % f.size ≠ (f.outPtr + (i + 1)) % f.size :=
    slot_ne (by omega) (by omega)
  exact hne.symm

end SwFifo

namespace ResultRun

variable {r r' : ResultRun} {n turns : ℕ}

/-- The FIFO behind one turn of the loop, with or without a mark. -/
structure Popped (f f' : SwFifo HwResultDescriptor) : Prop where
  ok : f'.Ok
  size : f'.size = f.size
  in_eq : f'.inPtr = f.inPtr
  count : f'.count + 1 = f.count
  contents : f'.contents = f.pop.contents

theorem popped_pop {f : SwFifo HwResultDescriptor} (h : f.Ok) (hcount : 0 < f.count) :
    Popped f f.pop :=
  ⟨h.pop hcount, rfl, rfl, h.count_pop hcount, rfl⟩

theorem popped_write {f : SwFifo HwResultDescriptor} (h : f.Ok) (hcount : 0 < f.count)
    (v : HwResultDescriptor) : Popped f (f.write (f.outPtr % f.size) v).pop :=
  ⟨(h.write _ v).pop hcount, rfl, rfl, (h.write _ v).count_pop hcount,
    h.contents_write_pop hcount v⟩

theorem peek_cases (h : r.fifo.Ok) :
    r.fifo.peekOutput = none ∧ r.fifo.contents = [] ∧ r.fifo.count = 0 ∨
      r.fifo.peekOutput = some (r.fifo.outPtr % r.fifo.size) ∧ 0 < r.fifo.count ∧
        r.fifo.contents = r.fifo.buf (r.fifo.outPtr % r.fifo.size) :: r.fifo.pop.contents := by
  rcases Nat.eq_zero_or_pos r.fifo.count with hzero | hpos
  · refine Or.inl ⟨h.peekOutput_eq_none.mpr hzero, ?_, hzero⟩
    rw [← List.length_eq_zero_iff, SwFifo.contents_length, hzero]
  · exact Or.inr ⟨h.peekOutput_eq_some.mpr ⟨hpos, rfl⟩, hpos, h.contents_pop hpos⟩

/-- The FIFO when the loop has emptied it. -/
structure Drained (f f' : SwFifo HwResultDescriptor) : Prop where
  ok : f'.Ok
  size : f'.size = f.size
  in_eq : f'.inPtr = f.inPtr
  count : f'.count = 0

theorem Drained.of_popped {f f' f'' : SwFifo HwResultDescriptor} (hp : Popped f f')
    (hd : Drained f' f'') : Drained f f'' :=
  ⟨hd.ok, hd.size.trans hp.size, hd.in_eq.trans hp.in_eq, hd.count⟩

theorem Drained.contents_eq {f f' : SwFifo HwResultDescriptor} (h : Drained f f') :
    f'.contents = [] := by
  rw [← List.length_eq_zero_iff, SwFifo.contents_length, h.count]

theorem Drained.out_eq {f f' : SwFifo HwResultDescriptor} (h : Drained f f') :
    f'.outPtr = f.inPtr := by
  rw [← h.in_eq]
  exact (h.ok.count_eq_zero.mp h.count).symm

/-- Without assertions the loop pops every RD and does nothing else. -/
theorem fifoLoop_ndebug (hn : n ≠ 0) (hok : r.fifo.Ok) (hres : r.results = [])
    (hturns : r.fifo.count ≤ turns) :
    ∃ f, fifoLoop true n turns r = .ok { r with fifo := f } ∧ Drained r.fifo f := by
  induction turns generalizing r with
  | zero => exact ⟨r.fifo, rfl, hok, rfl, rfl, Nat.le_zero.mp hturns⟩
  | succ turns ih =>
      rw [fifoLoop]
      rcases peek_cases hok with ⟨hpeek, -, hzero⟩ | ⟨hpeek, hpos, -⟩
      · rw [hpeek]
        exact ⟨r.fifo, rfl, hok, rfl, rfl, hzero⟩
      · have hp := popped_pop hok hpos
        have hlen : ¬r.results.length = n := by
          rw [hres]
          exact fun h ↦ hn h.symm
        obtain ⟨f, hf, hd⟩ := ih (r := { r with fifo := r.fifo.pop }) hp.ok hres
          (by have := hp.count; change r.fifo.pop.count ≤ turns; omega)
        refine ⟨f, ?_, hd.of_popped hp⟩
        rw [hpeek]
        change (if r.results.length = n then _ else _) = _
        rw [if_neg hlen]
        exact hf

theorem populate_cases {slot : ℕ} (h : r.populate slot = .ok r') :
    (r.t.Ignored (r.fifo.buf slot) ∧ r'.t = r.t ∧ r'.results = r.results ∨
        ¬r.t.Ignored (r.fifo.buf slot) ∧ r'.results.length = r.results.length + 1) ∧
      (r'.fifo = r.fifo ∨ r'.fifo = r.fifo.write slot (r.fifo.buf slot).mark) := by
  unfold populate at h
  obtain ⟨⟨t, result, mark⟩, hp, h⟩ := except_bind h
  cases h
  constructor
  · rcases Thread.populateResults_cases hp with ⟨hi, rfl, rfl⟩ | ⟨hi, res, rfl⟩
    · exact Or.inl ⟨hi, rfl, List.append_nil _⟩
    · exact Or.inr ⟨hi, List.length_append⟩
  · cases mark with
    | true => exact Or.inr rfl
    | false => exact Or.inl rfl

theorem fifoLoop_length (h : fifoLoop false n turns r = .ok r') :
    r.results.length ≤ r'.results.length := by
  induction turns generalizing r with
  | zero =>
      cases h
      exact Nat.le_refl _
  | succ turns ih =>
      rw [fifoLoop] at h
      cases hpeek : r.fifo.peekOutput with
      | none =>
          rw [hpeek] at h
          cases h
          exact Nat.le_refl _
      | some slot =>
          rw [hpeek] at h
          obtain ⟨r₁, hr₁, h⟩ := except_bind h
          have hle : r.results.length ≤ r₁.results.length := by
            rcases (populate_cases hr₁).1 with ⟨-, -, heq⟩ | ⟨-, heq⟩
            · exact Nat.le_of_eq (congrArg List.length heq.symm)
            · omega
          change (if r₁.results.length = n then _ else _) = _ at h
          split at h
          · cases h
            exact hle
          · exact Nat.le_trans hle (ih (r := { r₁ with fifo := r₁.fifo.pop }) h)

/-- With assertions that hold, the loop returns no result exactly if every RD is ignored,
and then it only drains the FIFO. -/
theorem fifoLoop_debug (hn : n ≠ 0) (hok : r.fifo.Ok) (hres : r.results = [])
    (hturns : r.fifo.count ≤ turns) (h : fifoLoop false n turns r = .ok r') :
    ((∀ rd ∈ r.fifo.contents, r.t.Ignored rd) ∧ r'.t = r.t ∧ r'.results = [] ∧
        Drained r.fifo r'.fifo) ∨
      (¬∀ rd ∈ r.fifo.contents, r.t.Ignored rd) ∧ r'.results ≠ [] := by
  induction turns generalizing r with
  | zero =>
      have hzero := Nat.le_zero.mp hturns
      have hnil : r.fifo.contents = [] := by
        rw [← List.length_eq_zero_iff, SwFifo.contents_length, hzero]
      rw [hnil]
      cases h
      exact Or.inl ⟨fun rd hrd ↦ absurd hrd List.not_mem_nil, rfl, hres, hok, rfl, rfl, hzero⟩
  | succ turns ih =>
      rw [fifoLoop] at h
      rcases peek_cases hok with ⟨hpeek, hnil, hzero⟩ | ⟨hpeek, hpos, hcons⟩
      · rw [hpeek] at h
        rw [hnil]
        cases h
        exact Or.inl ⟨fun rd hrd ↦ absurd hrd List.not_mem_nil, rfl, hres, hok, rfl, rfl, hzero⟩
      · rw [hpeek] at h
        obtain ⟨r₁, hr₁, h⟩ := except_bind h
        obtain ⟨hcase, hfifo⟩ := populate_cases hr₁
        have hp : Popped r.fifo r₁.fifo.pop := by
          rcases hfifo with hf | hf
          · rw [hf]
            exact popped_pop hok hpos
          · rw [hf]
            exact popped_write hok hpos _
        rcases hcase with ⟨hi, ht, hsame⟩ | ⟨hi, hlen⟩
        · have hnil₁ : r₁.results = [] := hsame.trans hres
          have hne : ¬r₁.results.length = n := by
            rw [hnil₁]
            exact fun he ↦ hn he.symm
          change (if r₁.results.length = n then _ else _) = _ at h
          rw [if_neg hne] at h
          have hrest := ih (r := { r₁ with fifo := r₁.fifo.pop }) hp.ok hnil₁
            (by have := hp.count; change r₁.fifo.pop.count ≤ turns; omega) h
          simp only [hp.contents, ht] at hrest
          rw [hcons, List.forall_mem_cons]
          rcases hrest with ⟨hall, ht', hres', hd⟩ | ⟨hnot, hres'⟩
          · exact Or.inl ⟨⟨hi, hall⟩, ht', hres', hd.of_popped hp⟩
          · exact Or.inr ⟨fun hall ↦ hnot hall.2, hres'⟩
        · right
          rw [hcons, List.forall_mem_cons]
          refine ⟨fun hall ↦ hi hall.1, fun hnil ↦ ?_⟩
          have hle : r₁.results.length ≤ r'.results.length := by
            change (if r₁.results.length = n then _ else _) = _ at h
            split at h
            · cases h
              exact Nat.le_refl _
            · exact fifoLoop_length (r := { r₁ with fifo := r₁.fifo.pop }) h
          rw [hnil] at hle
          simp only [List.length_nil] at hle
          omega

/-- The two builds agree on a run without a failed assertion exactly if every RD of the
FIFO is one that is ignored. -/
theorem getSearchResultsFromFifo_same_iff {t : Thread} {fifo : SwFifo HwResultDescriptor}
    (hok : fifo.Ok) (hn : 1 ≤ n) (hrun : getSearchResultsFromFifo false n t fifo = .ok r) :
    (∃ r', getSearchResultsFromFifo true n t fifo = .ok r' ∧ Same r r') ↔
      ∀ rd ∈ fifo.contents, t.Ignored rd := by
  have hne : n ≠ 0 := Nat.ne_of_gt hn
  obtain ⟨f, hf, hd⟩ := fifoLoop_ndebug (r := ⟨t, fifo, []⟩) hne hok rfl (Nat.le_refl _)
  have hdebug := fifoLoop_debug (r := ⟨t, fifo, []⟩) hne hok rfl (Nat.le_refl _) hrun
  constructor
  · rintro ⟨r', hr', hsame⟩
    rw [getSearchResultsFromFifo, hf] at hr'
    cases hr'
    rcases hdebug with ⟨hall, -⟩ | ⟨-, hres⟩
    · exact hall
    · exact absurd hsame.results.symm hres
  · intro hall
    rcases hdebug with ⟨-, ht, hres, hdr⟩ | ⟨hnot, -⟩
    · refine ⟨_, hf, hres.symm, ht.symm, ?_, ?_, ?_, ?_⟩
      · exact hd.size.trans hdr.size.symm
      · exact hd.in_eq.trans hdr.in_eq.symm
      · exact hd.out_eq.trans hdr.out_eq.symm
      · exact hd.contents_eq.trans hdr.contents_eq.symm
    · exact absurd hall hnot

/-- A thread whose job 1 belongs to a stateless flow that has errored. -/
def erroredThread : Thread where
  device :=
    { NlmDevice.attached 0 2 true with
      flows := fun _ ↦
        { NlmFlow.zero with type := .stateless, isStateless := true, errored := 3, jobSeqId := 1 }
      jobs := fun _ ↦
        { NlmJob.zero with
          flow := some 1
          userCookie := 7
          fd := { HwFdDescriptor.zero with cookie := 1 } } }
  m := .attach ⟨⟨4096, 32768, 0⟩, 0, 4096, none⟩
  packetBase := []
  packetEnqueuePolicy := 0

/-- A FIFO that holds one RD. -/
def fifoOf (rd : HwResultDescriptor) : SwFifo HwResultDescriptor := ⟨2, 1, 0, fun _ ↦ rd⟩

theorem fifoOf_ok (rd : HwResultDescriptor) : (fifoOf rd).Ok where
  size_ok := (by decide : FifoSizeOk 2)
  in_lt := (by decide : 1 < 2 ^ 32)
  out_lt := (by decide : 0 < 2 ^ 32)
  count_le := (by decide : (2 ^ 32 + 1 - 0) % 2 ^ 32 ≤ 2)

/-- An end-anchored match of an errored flow. -/
def lateMatch : HwResultDescriptor := ⟨5, 1, 0, 3 * 2 ^ 30⟩

theorem getSearchResultsFromFifo_same_iff_late :
    ∃ r, getSearchResultsFromFifo false 1 erroredThread (fifoOf lateMatch) = .ok r ∧
      ∃ r', getSearchResultsFromFifo true 1 erroredThread (fifoOf lateMatch) = .ok r' ∧
        Same r r' := by
  have hrun : getSearchResultsFromFifo false 1 erroredThread (fifoOf lateMatch) =
      .ok ⟨erroredThread, (fifoOf lateMatch).pop, []⟩ := rfl
  refine ⟨_, hrun, (getSearchResultsFromFifo_same_iff (fifoOf_ok _) (by decide) hrun).mpr ?_⟩
  intro rd hrd
  have hmem : rd = lateMatch := List.mem_singleton.mp hrd
  rw [hmem]
  exact Or.inr ⟨rfl, rfl, 1, rfl, by decide⟩

/-- The FRD of a job: the build without assertions returns nothing and frees nothing. -/
theorem getSearchResultsFromFifo_frd :
    ¬∀ (t : Thread) (fifo : SwFifo HwResultDescriptor) (n : ℕ) (r : ResultRun), fifo.Ok → 1 ≤ n →
      getSearchResultsFromFifo false n t fifo = .ok r →
        ∃ r', getSearchResultsFromFifo true n t fifo = .ok r' ∧ Same r r' := by
  intro h
  have hrun : ∃ r, getSearchResultsFromFifo false 1 erroredThread
      (fifoOf ⟨2 ^ 29, 1, 0, 2 ^ 31⟩) = .ok r ∧ r.results.length = 1 := ⟨_, rfl, rfl⟩
  obtain ⟨r, hr, hlen⟩ := hrun
  obtain ⟨r', hr', hsame⟩ := h _ _ _ r (fifoOf_ok _) (by decide) hr
  have hnone : getSearchResultsFromFifo true 1 erroredThread (fifoOf ⟨2 ^ 29, 1, 0, 2 ^ 31⟩) =
      .ok ⟨erroredThread, (fifoOf ⟨2 ^ 29, 1, 0, 2 ^ 31⟩).pop, []⟩ := rfl
  rw [hnone] at hr'
  cases hr'
  rw [← hsame.results] at hlen
  cases hlen

end ResultRun

end NetL7.Packet
