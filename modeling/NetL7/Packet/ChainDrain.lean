import Mathlib.Algebra.GroupWithZero.Nat
import Mathlib.Algebra.Order.BigOperators.Group.List
import NetL7.Packet.ChainSafety

/-!
# Nothing gets stuck

As long as a job is started and not completed, the thread or the hardware can do something
about it, and what is left to be done gets less. A packet that was linked too late costs one
more way through the pending list and the ring, and pays for it with the job that was
completed before.
-/

namespace NetL7.Packet

open NetL7.Lib NlmDevice

/-- One summand falls by `n` and no other one rises. -/
theorem sum_map_add_le {l : List ℕ} {g g' : ℕ → ℕ} {f n : ℕ} (hf : f ∈ l)
    (hle : ∀ k ∈ l, g' k ≤ g k) (hlt : g' f + n ≤ g f) : (l.map g').sum + n ≤ (l.map g).sum := by
  induction l with
  | nil => cases hf
  | cons k l ih =>
    have hk := hle k List.mem_cons_self
    have hrest := List.sum_le_sum fun i hi ↦ hle i (List.mem_cons_of_mem k hi)
    rw [List.map_cons, List.map_cons, List.sum_cons, List.sum_cons]
    rcases List.mem_cons.mp hf with rfl | hf
    · omega
    · have hfall := ih hf fun i hi ↦ hle i (List.mem_cons_of_mem k hi)
      omega

namespace NlmDevice

variable {d : NlmDevice}

theorem RingSound.rd_eq_wrt (h : RingSound d) (hempty : d.ringFds = []) :
    d.inputRdPtr = d.inputWrtPtr := by
  have hcount := h.rd_add_fdCount
  have hlength : d.ringFds.length = d.fdCount := window_length
  have hzero : d.fdCount = 0 := by
    rw [← hlength, hempty]
    rfl
  rw [hzero, Nat.add_zero, Nat.mod_eq_of_lt h.rd_lt] at hcount
  exact hcount

theorem RingSound.ringFds_eq_nil (h : RingSound d) (heq : d.inputRdPtr = d.inputWrtPtr) :
    d.ringFds = [] := by
  have hzero : d.fdCount = 0 := by
    rw [h.fdCount_eq, if_pos heq.le, heq, Nat.sub_self]
  unfold ringFds
  rw [hzero, window_zero]

/-- An empty ring has room for an FD. -/
theorem RingSound.alloc_ne_none (h : RingSound d) (hsize : 1 < d.inputFifoSize)
    (hempty : d.ringFds = []) : d.sysmemAllocFd ≠ none := by
  have hnext := h.wrt_next
  have heq := h.rd_eq_wrt hempty
  unfold sysmemAllocFd
  rw [hnext, heq]
  split_ifs <;> first | omega | exact Option.some_ne_none _

end NlmDevice

namespace ChainRun

/-- What is left to be done for a flow. -/
def load (s : ChainRun) (f : ℕ) : ℕ := 2 * (s.unscanned f).length + 4 * (s.running f).length

/-- What is left to be done. -/
def work (s : ChainRun) : ℕ :=
  (s.used.map s.load).sum + 4 * s.t.device.pendingFlowList.length +
    3 * s.t.device.ringFds.length + 2 * s.walks.length + s.results.length

/-- Something is done, and nothing is started. -/
structure Drains (s s' : ChainRun) : Prop where
  reaches : Reaches s s'
  started : s'.started = s.started
  waiting : s'.waiting = s.waiting
  work : s'.work < s.work

variable {s s' : ChainRun} {f g j : ℕ} {w : Walk}

theorem unscanned_length (s : ChainRun) (f : ℕ) :
    (s.unscanned f).length = (s.started f).length - (s.scanned f).length := List.length_drop

theorem scan_length (s : ChainRun) (w : Walk) (f : ℕ) :
    (s.scanned f).length ≤ (s.scan w f).length := by
  unfold scan
  split
  · rw [Function.update_apply]
    split
    · next heq =>
      rw [heq, List.length_append]
      exact Nat.le_add_right ..
    · exact le_rfl
  · exact le_rfl

/-- What has been scanned is not left to be done. -/
theorem load_le (hstarted : s'.started f = s.started f) (hrunning : s'.running f = s.running f)
    (hscanned : (s.scanned f).length ≤ (s'.scanned f).length) : s'.load f ≤ s.load f := by
  unfold load
  rw [unscanned_length, unscanned_length, hstarted, hrunning]
  omega

theorem Lifetime.used (h : Lifetime s) (hj : j ∈ s.running f) : f ∈ s.used := by
  by_contra hf
  rw [(h f hf).1] at hj
  cases hj

theorem usedAfter_sublist (s : ChainRun) (rd : HwResultDescriptor) :
    (s.usedAfter rd).Sublist s.used := by
  unfold usedAfter
  split
  · exact List.filter_sublist
  · exact List.Sublist.refl _

/-- The next result can be taken. -/
theorem Inv.drainResult (h : Inv s) (hlife : Lifetime s) {rd : HwResultDescriptor}
    {rest : List HwResultDescriptor} (hfirst : s.results = rd :: rest) : ∃ s', Drains s s' := by
  obtain ⟨f, j, l, hl, hcookie, hresults⟩ := h.firstResult hfirst
  obtain ⟨hvalid, htype, -⟩ := h.results rd (hfirst ▸ List.mem_cons_self)
  obtain ⟨flow, pendingFlowList, m, hc, heq⟩ :=
    h.populateResults_eq hl hcookie hvalid htype hresults
  have hj := first_mem hl hresults
  have hindex := (h.mem.running f j hj).index h.mem.thread_lt
  refine ⟨_, .single (.collect hfirst heq), rfl, rfl, ?_⟩
  rw [hcookie, hindex]
  have hload : ∀ g, (s.collected f j flow pendingFlowList m rest).load g ≤ s.load g := by
    intro g
    have hlength := List.length_erase_le (a := j) (l := s.running g)
    change 2 * (s.unscanned g).length + 4 * ((s.running g).erase j).length ≤ _
    unfold load
    omega
  have hself : (s.collected f j flow pendingFlowList m rest).load f + 4 ≤ s.load f := by
    have hlength := List.length_erase_of_mem hj
    have hpos := List.length_pos_of_mem hj
    change 2 * (s.unscanned f).length + 4 * ((s.running f).erase j).length + 4 ≤ _
    unfold load
    omega
  have hall := sum_map_add_le (hlife.used hj) (fun g _ ↦ hload g) hself
  have hused := ((s.usedAfter_sublist rd).map
    (s.collected f j flow pendingFlowList m rest).load).sum_le_sum fun _ _ ↦ Nat.zero_le _
  have hpending := hc.length_le
  have hcount : s.results.length = rest.length + 1 := by
    rw [hfirst]
    rfl
  change ((s.usedAfter rd).map (s.collected f j flow pendingFlowList m rest).load).sum +
    4 * pendingFlowList.length + 3 * s.t.device.ringFds.length + 2 * s.walks.length +
      rest.length < s.work
  unfold work
  omega

/-- The result of a packet, for the job of a cookie. -/
def resultDescriptor (resultType cookie : ℕ) : HwResultDescriptor :=
  ⟨resultType * 2 ^ 29, cookie, 0, 2 ^ 31⟩

theorem resultFor (w : Walk) (isFrd : Bool) : ResultFor w isFrd
    (resultDescriptor (if isFrd then fmsFrdResult else fmsPrdResult) w.cookie) := by
  refine ⟨rfl, ?_, ?_⟩
  · change (2 ^ 31).testBit 31 = true
    decide
  · cases isFrd <;> simp [resultDescriptor, HwResultDescriptor.resultType, fmsPrdResult]

/-- The hardware can go on, or return the result of the last packet it finds. -/
theorem Inv.drainWalk (h : Inv s) (hlife : Lifetime s) (hw : w ∈ s.walks) : ∃ s', Drains s s' := by
  have hpos := List.length_pos_of_mem hw
  have herase := List.length_erase_of_mem hw
  cases hlast : w.last with
  | true =>
    refine ⟨_, .single (.stop hw hlast (resultFor w true)), rfl, rfl, ?_⟩
    change (s.used.map s.load).sum + 4 * s.t.device.pendingFlowList.length +
      3 * s.t.device.ringFds.length + 2 * (s.walks.erase w).length + (s.results ++ [_]).length <
        s.work
    unfold work
    rw [List.length_append, herase, List.length_singleton]
    omega
  | false =>
    obtain ⟨f, returned, cur, c, rest, i, hl, -, -, hshows, -⟩ := h.walking hw
    obtain ⟨a, js, rfl, hindex, ha, -⟩ := h.next hl hshows hlast
    have hok := h.mem.running f a ha
    let results := if w.packetPrd then [resultDescriptor fmsPrdResult w.cookie] else []
    have hcount : results.length = if w.packetPrd then 1 else 0 := by
      cases hprd : w.packetPrd <;> simp [results, hprd]
    have hresults : ∀ rd ∈ results, ResultFor w false rd := by
      intro rd hrd
      cases hprd : w.packetPrd with
      | false => simp [results, hprd] at hrd
      | true =>
        simp only [results, hprd, if_true, List.mem_singleton] at hrd
        exact hrd ▸ resultFor w false
    refine ⟨_, .single (.follow hw hlast hcount hresults), rfl, rfl, ?_⟩
    have hcookie : (Walk.ofPd w.fd (s.t.device.pds w.pdNlaIndex)).cookie =
        nlmEncodeCookie s.t.device.threadId a := by
      rw [hindex]
      exact hok.pd_cookie
    have hscans : (Walk.ofPd w.fd (s.t.device.pds w.pdNlaIndex)).scans = true := by
      rw [hindex]
      simp [Walk.scans, Walk.ofPd, hok.prd]
    have hscan := scan_encode h.mem ha hcookie f
    rw [if_pos ⟨rfl, hscans⟩] at hscan
    have hself : (s.followed w results).load f + 2 ≤ s.load f := by
      have hleft := congrArg List.length hl.unscanned
      have hlonger := congrArg List.length hscan
      rw [unscanned_length, Lane.rest, List.length_cons] at hleft
      rw [List.length_append, List.length_singleton] at hlonger
      unfold load
      rw [unscanned_length, unscanned_length]
      change 2 * ((s.started f).length - (s.scan _ f).length) + 4 * (s.running f).length + 2 ≤ _
      omega
    have hload : ∀ g ∈ s.used, (s.followed w results).load g ≤ s.load g := fun g _ ↦
      load_le rfl rfl (s.scan_length _ g)
    have hall : (s.used.map (s.followed w results).load).sum + 2 ≤ (s.used.map s.load).sum :=
      sum_map_add_le (hlife.used ha) hload hself
    have hle : results.length ≤ 1 := by
      rw [hcount]
      split <;> omega
    change (s.used.map (s.followed w results).load).sum +
      4 * s.t.device.pendingFlowList.length + 3 * s.t.device.ringFds.length +
        2 * (Walk.ofPd w.fd (s.t.device.pds w.pdNlaIndex) :: s.walks.erase w).length +
          (s.results ++ results).length < s.work
    unfold work
    rw [List.length_append, List.length_cons, herase]
    omega

/-- The hardware can take what it was told of. -/
theorem Inv.drainSent (h : Inv s) (hsent : s.t.device.inputRdPtr ≠ s.t.device.fdfFifoWrtPtr) :
    Drains s s.taken := by
  obtain ⟨-, hfds⟩ := h.ring.take hsent
  have hcount := congrArg List.length hfds
  rw [List.length_cons] at hcount
  cases hours : s.t.device.owns (s.t.device.inputFifo s.t.device.inputRdPtr) with
  | false =>
    have heq : s.taken = { s with t := { s.t with device := s.t.device.takeFd } } := by
      unfold taken
      simp only [hours]
      rfl
    refine ⟨.single (.take hsent), ?_, ?_, ?_⟩ <;> rw [heq]
    change (s.used.map s.load).sum + 4 * s.t.device.pendingFlowList.length +
      3 * s.t.device.takeFd.ringFds.length + 2 * s.walks.length + s.results.length < s.work
    unfold work
    omega
  | true =>
    have heq : s.taken = { s with
        t := { s.t with device := s.t.device.takeFd }
        walks := .ofFd (s.t.device.inputFifo s.t.device.inputRdPtr) :: s.walks
        scanned := s.scan (.ofFd (s.t.device.inputFifo s.t.device.inputRdPtr)) } := by
      unfold taken
      simp only [hours]
      rfl
    refine ⟨.single (.take hsent), ?_, ?_, ?_⟩
    · rw [heq]
    · rw [heq]
    · have hload : ∀ g ∈ s.used, s.taken.load g ≤ s.load g := fun g _ ↦ by
        rw [heq]
        exact load_le (s := s) rfl rfl (s.scan_length _ g)
      have hall : (s.used.map s.taken.load).sum ≤ (s.used.map s.load).sum := List.sum_le_sum hload
      unfold work
      rw [heq] at hall ⊢
      change (s.used.map _).sum + 4 * s.t.device.pendingFlowList.length +
        3 * s.t.device.takeFd.ringFds.length + 2 * (_ :: s.walks).length + s.results.length < _
      rw [List.length_cons]
      omega

/-- The hardware can take the first FD once it has been told of it. -/
theorem Inv.drainRing (h : Inv s) (hring : s.t.device.ringFds ≠ []) : ∃ s', Drains s s' := by
  by_cases hsent : s.t.device.inputRdPtr = s.t.device.fdfFifoWrtPtr
  · have hpublish := h.publish.drainSent fun heq ↦ hring (h.ring.ringFds_eq_nil heq)
    exact ⟨_, .head .publish hpublish.reaches, hpublish.started, hpublish.waiting, hpublish.work⟩
  · exact ⟨_, h.drainSent hsent⟩

/-- A flow can be handed over when nothing is in the ring. -/
theorem Inv.drainPending (h : Inv s) (hsize : 1 < s.t.device.inputFifoSize)
    (hring : s.t.device.ringFds = []) (hpending : s.t.device.pendingFlowList ≠ []) :
    ∃ s', Drains s s' := by
  obtain ⟨f, rest, hlist⟩ := List.exists_cons_of_ne_nil hpending
  obtain ⟨j, js, hl⟩ := h.pending (hlist ▸ List.mem_cons_self : f ∈ s.t.device.pendingFlowList)
  obtain ⟨⟨slot, d⟩, halloc⟩ := Option.ne_none_iff_exists'.mp (h.ring.alloc_ne_none hsize hring)
  have hcall := h.startPendingPdChain_eq hl
  rw [halloc] at hcall
  obtain ⟨-, hfds⟩ := h.ring.alloc halloc (handedFd s.t.device f j)
  have hsame := sysmemAllocFd_same halloc
  refine ⟨_, .single (.startChain hlist hcall), rfl, rfl, ?_⟩
  have hlength : d.pendingFlowList.tail.length = rest.length := by
    rw [hsame, hlist]
    rfl
  change (s.used.map s.load).sum + 4 * d.pendingFlowList.tail.length +
    3 * (d.setFd slot (handedFd s.t.device f j)).ringFds.length + 2 * s.walks.length +
      s.results.length < s.work
  unfold work
  rw [hfds, hlength, hlist, List.length_append, List.length_cons, List.length_cons,
    List.length_nil]
  omega

/-- Nothing is under way. -/
def Idle (s : ChainRun) : Prop :=
  s.results = [] ∧ s.walks = [] ∧ s.t.device.ringFds = [] ∧ s.t.device.pendingFlowList = []

/-- Something can be done unless nothing is under way. -/
theorem Inv.drain (h : Inv s) (hlife : Lifetime s) (hsize : 1 < s.t.device.inputFifoSize) :
    s.Idle ∨ ∃ s', Drains s s' := by
  cases hresults : s.results with
  | cons rd rest => exact .inr (h.drainResult hlife hresults)
  | nil =>
    cases hwalks : s.walks with
    | cons w walks => exact .inr (h.drainWalk hlife (hwalks ▸ List.mem_cons_self : w ∈ s.walks))
    | nil =>
      by_cases hring : s.t.device.ringFds = []
      · by_cases hpending : s.t.device.pendingFlowList = []
        · exact .inl ⟨hresults, hwalks, hring, hpending⟩
        · exact .inr (h.drainPending hsize hring hpending)
      · exact .inr (h.drainRing hring)

/-- When nothing is under way, all jobs that were started are completed. -/
theorem Inv.idle (h : Inv s) (hidle : s.Idle) (f : ℕ) :
    s.running f = [] ∧ s.scanned f = s.started f := by
  obtain ⟨hresults, hwalks, hring, hpending⟩ := hidle
  obtain ⟨l, hl⟩ := h.lanes f
  have hfds := hl.fds
  have hws := hl.walks
  have hrs := hl.results
  have hcount := hl.pending
  unfold fdsOf at hfds
  unfold walksOf at hws
  unfold resultsOf at hrs
  rw [hring] at hfds
  rw [hwalks] at hws
  rw [hresults] at hrs
  rw [hpending] at hcount
  cases l with
  | idle =>
    refine ⟨hl.running, ?_⟩
    have hstarted := hl.started
    rw [Lane.rest, List.append_nil] at hstarted
    exact hstarted.symm
  | pending rest =>
    cases rest with
    | nil => exact absurd rfl hl.ok
    | cons i rest => cases hcount
  | sent c rest =>
    obtain ⟨fd, i, hnil, -⟩ := hfds
    cases hnil
  | walking returned cur c rest =>
    obtain ⟨w, i, hnil, -⟩ := hws
    cases hnil
  | final returned last rest => simp [Lane.results] at hrs

/-! ## The size of the ring -/

theorem Step.inputFifoSize (hstep : Step s s') (h : Inv s) :
    s'.t.device.inputFifoSize = s.t.device.inputFifoSize := by
  cases hstep with
  | @cancel j t hj hcall =>
    obtain ⟨p, -, hdevice⟩ := cancel_device hcall
    change t.device.inputFifoSize = _
    rw [hdevice]
    rfl
  | @start f j device hj hflow hbytes hcall =>
    rw [h.startStatefulJob_eq hj hflow] at hcall
    change device.inputFifoSize = _
    rw [← Except.ok.inj hcall, addJobToList_eq]
    rfl
  | @destroy f j p htype hsent hgroups hcombination hj hp userCookie packet hbytes m packetBase =>
    change (NlmDevice.nlmFlowAddJobToList (finishingPd _ f j p userCookie packet) f j
      p).inputFifoSize = _
    rw [addJobToList_eq, finishing_flow]
    rfl
  | @destroyFailed f htype =>
    change ((s.t.invalidated f).nextCombination f).device.inputFifoSize = _
    rw [finishing_flow]
    rfl
  | @startChain f rest device hlist hcall =>
    obtain ⟨j, js, hl⟩ := h.pending (hlist ▸ List.mem_cons_self : f ∈ s.t.device.pendingFlowList)
    rw [h.startPendingPdChain_eq hl] at hcall
    cases halloc : s.t.device.sysmemAllocFd with
    | none =>
      rw [halloc] at hcall
      cases hcall
    | some r =>
      obtain ⟨slot, d⟩ := r
      rw [halloc] at hcall
      have hsize : d.inputFifoSize = s.t.device.inputFifoSize := by
        rw [sysmemAllocFd_same halloc]
      change device.inputFifoSize = _
      rw [← (Prod.mk.inj (Except.ok.inj hcall)).2]
      exact hsize
  | @otherFd slot device fd halloc hother =>
    change device.inputFifoSize = _
    rw [sysmemAllocFd_same halloc]
  | take hsent =>
    unfold taken
    simp only
    split <;> rfl
  | @collect rd rest t result mark hfirst hcall =>
    obtain ⟨f, j, l, hl, hcookie, hresults⟩ := h.firstResult hfirst
    obtain ⟨hvalid, htype, -⟩ := h.results rd (hfirst ▸ List.mem_cons_self)
    obtain ⟨flow, pendingFlowList, m, -, heq⟩ :=
      h.populateResults_eq hl hcookie hvalid htype hresults
    obtain rfl := (Prod.mk.inj (Except.ok.inj (heq.symm.trans hcall))).1
    rfl
  | _ => rfl

theorem Reaches.inputFifoSize (hrun : Reaches s s') (h : Inv s) (hlife : Lifetime s) :
    s'.t.device.inputFifoSize = s.t.device.inputFifoSize := by
  induction hrun with
  | refl => rfl
  | tail hfront hstep ih =>
    obtain ⟨hinv, -⟩ := Reaches.inv hfront h hlife
    exact (hstep.inputFifoSize hinv).trans ih

/-! ## Completion -/

variable {threadId size policy : ℕ} {m : Allocators} {packetBase : List ℕ}

end ChainRun

end NetL7.Packet
