import NetL7.Device.GateDelay

/-!
# The search for edges

`nlm_device_ddr3_find_edge` looks for the delays at which the response of a slice changes, coarsely
in steps and then by a binary search. Its loop runs while the signed index of the edge is less than
the unsigned number of edges. The index starts at -1 and the number at 0, and in C such a comparison
is unsigned, so the loop is never entered.
-/

namespace NetL7.Device

/-- The responses of a slice to a delay, as `nlm_device_ddr3_get_response` gives them. They may
depend on what is in the registers. -/
abbrev Ddr3Response := Ddr3State → BitVec 32 → Ddr3LevelingTristate

/-- The transition between two responses. -/
def ddr3Transition (resp1 resp2 : Ddr3LevelingTristate) : Ddr3LevelingTransition :=
  if resp1 ≠ .valX then if resp1 = .val0 then .s0x else .s1x
  else if resp2 = .val0 then .sx0 else .sx1

/-- Stores into the first entries of `edges`. -/
def Ddr3State.setEdges (s : Ddr3State) (edges : List Ddr3LevelingTransition) : Ddr3State :=
  { s with edges := fun i ↦ edges.getD i (s.edges i) }

/-- `nlm_device_ddr3_get_edges`: the state with the edges, their number, and `*reset`. -/
def Ddr3State.getEdges (s : Ddr3State) (slice : ℕ) (startVal : Ddr3LevelingTransition)
    (reset : Bool) : Ddr3State × BitVec 32 × Bool :=
  match s.levelingTypeStatus with
  | .none => (s, 0, reset)
  | .write =>
    if startVal ≠ .sx1 then (s.setEdges [.s0x, .sx1], 2, reset)
    else if s.mWrlvlIsLeveled then (s.setEdges [.sx1], 1, reset)
    else
      let dataDelay := s.mDataDelay s.mCsRank slice
      let ctrlDelay := s.mCtrlDelay s.mCsRank slice
      if ctrlDelay - dataDelay < s.simPsPeriod >>> 1 then (s.setEdges [.sx1], 1, reset)
      else (s.setEdges [.s0x, .sx1], 2, reset)
  | .read =>
    if startVal = .s0x then (s.setEdges [.s0x, .sx1], 2, reset)
    else (s.setEdges [.sx0, .s0x], 2, reset)
  | .gate =>
    if s.mGtlvlIsLeveled then (s.setEdges [.s0x, .sx1], 2, reset)
    else
      let turnBack := startVal = .sx1 ∨ startVal = .s1x
      let s := if turnBack then (s.decrHalfCycleDelay slice).2 else s
      let reset := if turnBack then true else reset
      if s.mInPreamble then (s.setEdges [.s0x, .sx1], 2, reset)
      else (s.setEdges [.s0x, .sx1, .s1x], 3, reset)

/-- The edges that are asked for. -/
def requestedEdges (s : Ddr3State) (slice : ℕ) (startVal : Ddr3LevelingTransition) :
    List Ddr3LevelingTransition :=
  let r := s.getEdges slice startVal true
  (List.range r.2.1.toNat).map r.1.edges

/-- The response is still the one before the edge. -/
def beforeEdge (resp1 resp2 resp : Ddr3LevelingTristate) : Bool :=
  resp = resp1 ∨ resp1 = .valX ∧ resp ≠ resp2

/-- The binary search of `nlm_device_ddr3_trans_edge`, or nothing if it has not ended within
`fuel`. -/
def bisect (before : BitVec 32 → Bool) : ℕ → BitVec 32 → BitVec 32 → Option (BitVec 32 × BitVec 32)
  | 0, _, _ => none
  | fuel + 1, min, max =>
    if 1 < max - min then
      let delay := (min + max) >>> 1
      if before delay then bisect before fuel delay max else bisect before fuel min delay
    else some (min, max)

/-- An edge, the state and the bracket in which it was searched for, and its delay. -/
structure LocatedEdge where
  edge : Ddr3LevelingTransition
  state : Ddr3State
  min : BitVec 32
  max : BitVec 32
  delay : BitVec 32

/-- The variables of the search. `located` keeps what `nlm_device_ddr3_trans_edge` found. -/
structure FindEdge where
  state : Ddr3State
  lastDelay : Ddr3LevelingTransition → BitVec 32
  startVal : Ddr3LevelingTransition
  reset : Bool
  edgesSize : BitVec 32
  delay : BitVec 32
  resp1 : Ddr3LevelingTristate
  resp2 : Ddr3LevelingTristate
  idx : BitVec 32
  min : BitVec 32
  max : BitVec 32
  located : List LocatedEdge

namespace FindEdge

/-- `nlm_device_ddr3_trans_edge` -/
def transEdge (response : Ddr3Response) (fuel : ℕ) (resp1 resp2 : Ddr3LevelingTristate)
    (f : FindEdge) : Option FindEdge :=
  let trans := ddr3Transition resp1 resp2
  if 0 ≤ f.idx.toInt ∧ trans = f.state.edges f.idx.toNat then do
    let (min, delay) ←
      bisect (fun delay ↦ beforeEdge resp1 resp2 (response f.state delay)) fuel f.min f.max
    some { f with
      lastDelay := Function.update f.lastDelay trans delay
      min := min
      idx := f.idx + 1
      located := f.located ++ [⟨trans, f.state, f.min, f.max, delay⟩] }
  else some f

/-- What a turn does if there is an edge between the last two responses. -/
def changed (response : Ddr3Response) (slice fuel : ℕ) (f : FindEdge) : Option FindEdge :=
  let f :=
    if f.idx = -1 then
      let startVal := ddr3Transition f.resp1 f.resp2
      let (state, edgesSize, reset) := f.state.getEdges slice startVal f.reset
      { f with
        startVal := startVal, state := state, edgesSize := edgesSize, reset := reset, idx := 0 }
    else f
  if f.reset then some f
  else do
    let f := { f with max := f.delay }
    let f ←
      -- without an x between the responses there are two edges
      if f.resp1 ≠ .valX ∧ f.resp2 ≠ .valX then do
        let f ← f.transEdge response fuel f.resp1 .valX
        f.transEdge response fuel .valX f.resp2
      else f.transEdge response fuel f.resp1 f.resp2
    some { f with resp1 := f.resp2 }

/-- The start of a turn: the search begins at the least delay. -/
def restart (response : Ddr3Response) (f : FindEdge) : FindEdge :=
  if f.reset then
    { f with
      reset := false
      delay := f.state.mMinDelay
      resp1 := response f.state f.state.mMinDelay }
  else f

/-- One turn of the loop, with the status if the function returns. -/
def turn (response : Ddr3Response) (slice fuel : ℕ) (f : FindEdge) :
    Option (FindEdge × Option NlmStatus) := do
  let f := f.restart response
  let f := { f with min := f.delay, delay := f.delay + f.state.mStepSize }
  if f.state.mMaxDelay < f.delay ∧ f.min = f.state.mMaxDelay then
    some (f, some .ddr3LevelingMaxDelayReached)
  else
    let delay := if f.state.mMaxDelay < f.delay then f.state.mMaxDelay else f.delay
    let f := { f with delay := delay, resp2 := response f.state delay }
    let f ← if f.resp1 ≠ f.resp2 then f.changed response slice fuel else some f
    some (f, none)

/-- The loop of `nlm_device_ddr3_find_edge`, or nothing if it has not ended within `fuel`. The
guard compares without a sign. -/
def loop (response : Ddr3Response) (slice : ℕ) : ℕ → FindEdge → Option (NlmStatus × FindEdge)
  | 0, _ => none
  | fuel + 1, f =>
    if f.idx < f.edgesSize then do
      match ← f.turn response slice fuel with
      | (f, some status) => some (status, f)
      | (f, none) => loop response slice fuel f
    else some (.ok, f)

end FindEdge

/-- What a call returns and writes. `calcDelays` has the delays and the transition of each call of
`nlm_device_ddr3_calc_delays`. -/
structure FindEdgeResult where
  status : NlmStatus
  state : Ddr3State
  lastDelay : Ddr3LevelingTransition → BitVec 32
  startVal : Ddr3LevelingTransition
  located : List LocatedEdge
  calcDelays : List ((Ddr3LevelingTransition → BitVec 32) × Ddr3LevelingTransition)

/-- `nlm_device_ddr3_find_edge` -/
def nlmDeviceDdr3FindEdge (response : Ddr3Response) (slice fuel : ℕ) (s : Ddr3State)
    (lastDelay : Ddr3LevelingTransition → BitVec 32) (startVal : Ddr3LevelingTransition) :
    Option FindEdgeResult := do
  let f : FindEdge :=
    { state := s.initResponse slice, lastDelay := lastDelay, startVal := startVal, reset := true,
      edgesSize := 0, delay := 0, resp1 := .valZ, resp2 := .valZ, idx := -1, min := 0, max := 0,
      located := [] }
  let (status, f) ← f.loop response slice fuel
  if status = .ok then
    some ⟨.ok, { f.state with mRequest := Function.update f.state.mRequest slice .termreq },
      f.lastDelay, f.startVal, f.located, [(f.lastDelay, f.startVal)]⟩
  else some ⟨status, f.state, f.lastDelay, f.startVal, f.located, []⟩

/-! ### What a search has to do -/

/-- The responses before and after an edge. -/
def Ddr3LevelingTransition.responses :
    Ddr3LevelingTransition → Ddr3LevelingTristate × Ddr3LevelingTristate
  | .s0x => (.val0, .valX)
  | .s1x => (.val1, .valX)
  | .sx0 => (.valX, .val0)
  | .sx1 => (.valX, .val1)

/-- The response has not left the value before the edge yet. -/
def Ddr3LevelingTransition.before (edge : Ddr3LevelingTransition) (resp : Ddr3LevelingTristate) :
    Bool :=
  beforeEdge edge.responses.1 edge.responses.2 resp

/-- The delay of an edge is the least one in its bracket at which the response has left the value
before the edge. -/
structure LocatedEdge.Least (response : Ddr3Response) (e : LocatedEdge) : Prop where
  min_lt : e.min < e.delay
  le_max : e.delay ≤ e.max
  left : e.edge.before (response e.state e.delay) = false
  before : ∀ delay, e.min < delay → delay < e.delay →
    e.edge.before (response e.state delay) = true

/-- What a search has to have done when it returns. -/
structure FoundEdges (response : Ddr3Response) (slice : ℕ) (s : Ddr3State) (r : FindEdgeResult) :
    Prop where
  in_order : r.status = .ok → r.located.map LocatedEdge.edge = requestedEdges s slice r.startVal
  least : r.status = .ok → ∀ e ∈ r.located, e.Least response
  lastDelay : r.status = .ok → ∀ e ∈ r.located, r.lastDelay e.edge = e.delay
  calcDelays : r.status = .ok → r.calcDelays = [(r.lastDelay, r.startVal)]
  not_calcDelays : r.status ≠ .ok → r.calcDelays = []
  maxDelay : r.located.length < (requestedEdges s slice r.startVal).length →
    r.status = .ddr3LevelingMaxDelayReached

/-- The search returns, and has found the edges. -/
def FindsEdges (response : Ddr3Response) (slice : ℕ) (s : Ddr3State)
    (lastDelay : Ddr3LevelingTransition → BitVec 32) (startVal : Ddr3LevelingTransition) : Prop :=
  ∃ fuel r, nlmDeviceDdr3FindEdge response slice fuel s lastDelay startVal = some r ∧
    FoundEdges response slice (s.initResponse slice) r

/-! ### The binary search -/

section Bisect

variable {before : BitVec 32 → Bool} {fuel : ℕ} {min max : BitVec 32}

theorem toNat_middle (h : min.toNat + max.toNat < 2 ^ 32) :
    ((min + max) >>> 1).toNat = (min.toNat + max.toNat) / 2 := by
  rw [BitVec.toNat_ushiftRight, BitVec.toNat_add, Nat.mod_eq_of_lt h, Nat.shiftRight_eq_div_pow,
    Nat.pow_one]

theorem one_lt_sub_iff (hle : min ≤ max) : 1 < max - min ↔ min.toNat + 1 < max.toNat := by
  have hone : (1 : BitVec 32).toNat = 1 := rfl
  rw [BitVec.lt_def, BitVec.toNat_sub_of_le hle, hone]
  exact Nat.lt_sub_iff_add_lt'

/-- The search ends at two neighbours. The response is still the one before the edge at the first
of them, and no longer at the second. -/
theorem bisect_spec (hlt : min < max) (hmax : max.toNat < 2 ^ 31) (hmin : before min = true)
    (hleft : before max = false) (hfuel : max.toNat - min.toNat ≤ 2 ^ fuel) :
    ∃ lo hi, bisect before (fuel + 1) min max = some (lo, hi) ∧ min ≤ lo ∧ hi ≤ max ∧
      hi.toNat = lo.toNat + 1 ∧ before lo = true ∧ before hi = false := by
  induction fuel generalizing min max with
  | zero =>
    have hlt' := BitVec.lt_def.mp hlt
    have hnarrow : ¬ 1 < max - min := by
      rw [one_lt_sub_iff (BitVec.le_of_lt hlt)]
      omega
    refine ⟨min, max, ?_, BitVec.le_refl _, BitVec.le_refl _, by omega, hmin, hleft⟩
    rw [bisect, if_neg hnarrow]
  | succ fuel ih =>
    have hlt' := BitVec.lt_def.mp hlt
    rw [Nat.pow_succ] at hfuel
    rw [bisect]
    by_cases hwide : 1 < max - min
    · rw [if_pos hwide]
      dsimp only
      rw [one_lt_sub_iff (BitVec.le_of_lt hlt)] at hwide
      have hmid : ((min + max) >>> 1).toNat = (min.toNat + max.toNat) / 2 :=
        toNat_middle (by omega)
      have hlower : min < (min + max) >>> 1 := BitVec.lt_def.mpr (by omega)
      have hupper : (min + max) >>> 1 < max := BitVec.lt_def.mpr (by omega)
      -- one half of the bracket still has the edge in it
      cases hbefore : before ((min + max) >>> 1) with
      | true =>
        obtain ⟨lo, hi, heq, hlo, hhi, hfound⟩ :=
          ih hupper hmax hbefore hleft (by omega)
        rw [if_pos rfl]
        exact ⟨lo, hi, heq, BitVec.le_trans (BitVec.le_of_lt hlower) hlo, hhi, hfound⟩
      | false =>
        obtain ⟨lo, hi, heq, hlo, hhi, hfound⟩ :=
          ih hlower (by omega) hmin hbefore (by omega)
        rw [if_neg Bool.false_ne_true]
        exact ⟨lo, hi, heq, hlo, BitVec.le_trans hhi (BitVec.le_of_lt hupper), hfound⟩
    · rw [if_neg hwide]
      rw [one_lt_sub_iff (BitVec.le_of_lt hlt)] at hwide
      exact ⟨min, max, rfl, BitVec.le_refl _, BitVec.le_refl _, by omega, hmin, hleft⟩

end Bisect

theorem ddr3Transition_responses (edge : Ddr3LevelingTransition) :
    ddr3Transition edge.responses.1 edge.responses.2 = edge := by
  cases edge <;> rfl

/-- If the response leaves the value before the next edge once and for all in the bracket, the
least delay after it is found. -/
theorem FindEdge.transEdge_least {response : Ddr3Response} {fuel : ℕ} {f : FindEdge}
    {edge : Ddr3LevelingTransition} (hidx : 0 ≤ f.idx.toInt)
    (hedge : edge = f.state.edges f.idx.toNat) (hlt : f.min < f.max)
    (hmax : f.max.toNat < 2 ^ 31) (hfuel : f.max.toNat - f.min.toNat ≤ 2 ^ fuel)
    (hmin : edge.before (response f.state f.min) = true)
    (hleft : edge.before (response f.state f.max) = false)
    (honce : ∀ delay delay', f.min < delay → delay < delay' →
      edge.before (response f.state delay') = true →
      edge.before (response f.state delay) = true) :
    ∃ e f', f.transEdge response (fuel + 1) edge.responses.1 edge.responses.2 = some f' ∧
      f'.located = f.located ++ [e] ∧ f'.lastDelay e.edge = e.delay ∧ f'.idx = f.idx + 1 ∧
      e.edge = edge ∧ e.Least response := by
  obtain ⟨lo, hi, heq, hlo, hhi, hnext, hbefore, hafter⟩ :=
    @bisect_spec (fun delay ↦ edge.before (response f.state delay)) fuel f.min f.max hlt hmax hmin
      hleft hfuel
  have hminhi : f.min < hi := by
    rw [BitVec.lt_def, hnext]
    exact Nat.lt_succ_of_le (BitVec.le_def.mp hlo)
  let e : LocatedEdge := ⟨edge, f.state, f.min, f.max, hi⟩
  refine ⟨e, { f with
      lastDelay := Function.update f.lastDelay edge hi
      min := lo
      idx := f.idx + 1
      located := f.located ++ [e] }, ?_, rfl, Function.update_self .., rfl, rfl, ?_⟩
  · rw [FindEdge.transEdge]
    simp only [ddr3Transition_responses]
    rw [if_pos ⟨hidx, hedge⟩]
    have heq' : bisect (fun delay ↦
        beforeEdge edge.responses.1 edge.responses.2 (response f.state delay)) (fuel + 1) f.min
        f.max = some (lo, hi) := heq
    rw [heq']
    rfl
  · refine ⟨hminhi, hhi, hafter, fun delay hmin' hdelay ↦ ?_⟩
    have hdelay' : delay.toNat < hi.toNat := BitVec.lt_def.mp hdelay
    rw [hnext] at hdelay'
    rcases Nat.lt_succ_iff_lt_or_eq.mp hdelay' with hlower | heqlo
    · exact honce delay lo hmin' (BitVec.lt_def.mpr hlower) hbefore
    · rw [BitVec.eq_of_toNat_eq heqlo]
      exact hbefore

/-! ### The loop is not entered -/

section Search

variable {response : Ddr3Response} {slice fuel : ℕ} {s : Ddr3State}
  {lastDelay : Ddr3LevelingTransition → BitVec 32} {startVal : Ddr3LevelingTransition}

theorem FindEdge.loop_eq {f : FindEdge} (hidx : f.idx = -1) (hsize : f.edgesSize = 0) :
    f.loop response slice (fuel + 1) = some (.ok, f) := by
  have hguard : ¬ f.idx < f.edgesSize := by
    rw [hidx, hsize]
    decide
  rw [FindEdge.loop, if_neg hguard]

/-- Every call succeeds, with the delays the caller had. -/
theorem findEdge_eq :
    nlmDeviceDdr3FindEdge response slice (fuel + 1) s lastDelay startVal =
      some ⟨.ok, { s.initResponse slice with
          mRequest := Function.update (s.initResponse slice).mRequest slice .termreq },
        lastDelay, startVal, [], [(lastDelay, startVal)]⟩ := by
  simp only [nlmDeviceDdr3FindEdge, FindEdge.loop_eq]
  rfl

@[simp] theorem Ddr3State.initResponse_levelingTypeStatus :
    (s.initResponse slice).levelingTypeStatus = s.levelingTypeStatus := by
  unfold Ddr3State.initResponse
  split <;> rfl

theorem requestedEdges_ne_nil (h : s.levelingTypeStatus ≠ .none) :
    requestedEdges s slice startVal ≠ [] := by
  have hsize : (s.getEdges slice startVal true).2.1.toNat ≠ 0 := by
    unfold Ddr3State.getEdges
    cases hmode : s.levelingTypeStatus with
    | none => exact absurd hmode h
    | write => grind
    | read => grind
    | gate => grind
  rw [requestedEdges, Ne, List.map_eq_nil_iff, List.range_eq_nil]
  exact hsize

/-- The caller's delays are used although no edge was looked for. -/
theorem not_findsEdges (h : requestedEdges (s.initResponse slice) slice startVal ≠ []) :
    ¬ FindsEdges response slice s lastDelay startVal := by
  rintro ⟨fuel, r, hr, hfound⟩
  cases fuel with
  | zero => cases hr
  | succ fuel =>
    rw [findEdge_eq] at hr
    obtain rfl := Option.some.inj hr
    exact h (hfound.in_order rfl).symm

end Search

/-- No search in a leveling finds the edges that are asked for. -/
theorem findsEdges_never (response : Ddr3Response) (slice : ℕ) (s : Ddr3State)
    (lastDelay : Ddr3LevelingTransition → BitVec 32) (startVal : Ddr3LevelingTransition)
    (h : s.levelingTypeStatus ≠ .none) :
    ¬ FindsEdges response slice s lastDelay startVal := by
  apply not_findsEdges
  apply requestedEdges_ne_nil
  rw [Ddr3State.initResponse_levelingTypeStatus]
  exact h

/-- In a write leveling whose response goes from 0 to 1 at 100. -/
theorem findsEdges_never_write :
    ¬ FindsEdges (fun _ delay ↦ if delay < 100 then .val0 else .val1) 2
      (Ddr3State.leveling .write 0 0) (fun _ ↦ 0) .sx1 :=
  findsEdges_never _ _ _ _ _ (by decide)

/-- In a read leveling the edges at 20 and 40 are not found. -/
theorem not_findsEdges_read :
    ¬ FindsEdges
      (fun _ delay ↦ if delay < 20 then .val0 else if delay < 40 then .valX else .val1) 0
      (Ddr3State.leveling .read 0 0) (fun _ ↦ 0) .s0x :=
  not_findsEdges (by decide)

end NetL7.Device
