import NetL7.Packet.ChainCalls
import NetL7.Packet.ChainHardware

/-!
# Taking results

`populate_results` takes the result of the first job of a flow that is not completed. After
an FRD the flow waits again if a job was linked too late, and is free of jobs otherwise. No
assertion fails on the way.
-/

namespace NetL7.Packet

open NetL7.Lib NlmDevice

namespace NlmDevice

variable {d : NlmDevice} {f g p : ℕ}

/-- The device when a job of flow `f` with PD `p` is completed. -/
def completed (d : NlmDevice) (f p : ℕ) (flow : NlmFlow) (pendingFlowList : List ℕ) : NlmDevice :=
  { d with
    flows := Function.update d.flows f flow
    pds := Function.update d.pds p { d.pds p with cookie := 0 }
    pendingFlowList := pendingFlowList }

theorem noteError_errored (d : NlmDevice) (f errorCode : ℕ) : d.noteError f errorCode =
    d.setFlow f fun flow ↦
      { flow with errored := if errorCode = 0 then flow.errored else errorCode } := by
  unfold noteError
  split
  · simp [setFlow]
  · rfl

end NlmDevice

namespace Thread

variable {t : Thread} {rd : HwResultDescriptor} {f j p : ℕ}

/-- The flow of a completed job whose error code is noted. -/
def erroredFlow (t : Thread) (rd : HwResultDescriptor) (f : ℕ) : NlmFlow :=
  { t.device.flows f with
    errored := if rd.errorCode = 0 then (t.device.flows f).errored else rd.errorCode }

theorem completeJob_eq {device : NlmDevice} {m : Allocators}
    (hpd : ({ t with device := t.device.noteError f rd.errorCode } : Thread).completePd rd f p =
      .ok { t with device := device, m := m })
    (hkind : (device.flows f).isStateless = false) :
    t.completeJob rd j f (some p) = .ok { t with device := device, m := m.freeJob j } := by
  simp [completeJob, hpd, bind, Except.bind, hkind]

/-- A PRD, or an FRD that finds nothing to hand over again. -/
theorem completePd_plain (hmark : (t.device.pds p).rsv01 = .validAndStarted)
    (hterm : (t.device.pds p).flowTerm = false) (hfrd : rd.resultType ≠ fmsFrdResult) :
    ({ t with device := t.device.noteError f rd.errorCode } : Thread).completePd rd f p =
      .ok { t with
        device := t.device.completed f p (t.erroredFlow rd f) t.device.pendingFlowList
        m := t.m.freePd p } := by
  rw [noteError_errored]
  simp [completePd, setFlow, hmark, hterm, hfrd, resultAssert, bind, Except.bind, sysmemFreePd,
    setPd, completed, erroredFlow]

/-- The FRD of the last packet of a flow frees the flow. -/
theorem completePd_term (hmark : (t.device.pds p).rsv01 = .validAndStarted)
    (hterm : (t.device.pds p).flowTerm = true) (htype : (t.device.flows f).type = .invalid)
    (hfrd : rd.resultType = fmsFrdResult) :
    ({ t with device := t.device.noteError f rd.errorCode } : Thread).completePd rd f p =
      .ok { t with
        device := t.device.completed f p { t.erroredFlow rd f with type := .invalid }
          t.device.pendingFlowList
        m := (t.m.freeFlow f).freePd p } := by
  rw [noteError_errored]
  simp [completePd, setFlow, hmark, hterm, hfrd, htype, resultAssert, bind, Except.bind,
    sysmemFreePd, setPd, completed, erroredFlow, releaseFlow]

/-- The FRD of the last job in the chain. -/
theorem completePd_last (hmark : (t.device.pds p).rsv01 = .validAndStarted)
    (hterm : (t.device.pds p).flowTerm = false)
    (htype : (t.device.flows f).type ≠ .stateless)
    (hkind : (t.device.flows f).isStateless = false) (hfrd : rd.resultType = fmsFrdResult)
    (hlast : (t.device.flows f).lastPd = some p)
    (hlink : (t.device.pds p).pdNla.pdNlaIndex = 0) :
    ({ t with device := t.device.noteError f rd.errorCode } : Thread).completePd rd f p =
      .ok { t with
        device := t.device.completed f p { t.erroredFlow rd f with lastPd := none }
          t.device.pendingFlowList
        m := t.m.freePd p } := by
  have hstateful : (t.device.flows f).type = .stateful ∨ (t.device.flows f).type = .invalid := by
    cases hflow : (t.device.flows f).type with
    | stateless => exact absurd hflow htype
    | stateful => exact .inl rfl
    | invalid => exact .inr rfl
  rw [noteError_errored]
  simp [completePd, setFlow, hmark, hterm, hfrd, hkind, hstateful, resultAssert, bind, Except.bind,
    sysmemFreePd, setPd, completed, erroredFlow, nlmFlowNoticeJobCompletion, hlast, hlink,
    apiAssert]

/-- The FRD of a job to which another was linked too late. -/
theorem completePd_linked {q : ℕ} (hmark : (t.device.pds p).rsv01 = .validAndStarted)
    (hterm : (t.device.pds p).flowTerm = false)
    (htype : (t.device.flows f).type ≠ .stateless)
    (hkind : (t.device.flows f).isStateless = false) (hfrd : rd.resultType = fmsFrdResult)
    (hlast : (t.device.flows f).lastPd ≠ some p)
    (hlink : (t.device.pds p).pdNla.pdNlaIndex = q) (hq : q ≠ 0)
    (hhead : (t.device.flows f).pendingPdHead = none) :
    ({ t with device := t.device.noteError f rd.errorCode } : Thread).completePd rd f p =
      .ok { t with
        device := t.device.completed f p { t.erroredFlow rd f with pendingPdHead := some q }
          (t.device.pendingFlowList ++ [f])
        m := t.m.freePd p } := by
  subst hlink
  have hstateful : (t.device.flows f).type = .stateful ∨ (t.device.flows f).type = .invalid := by
    cases hflow : (t.device.flows f).type with
    | stateless => exact absurd hflow htype
    | stateful => exact .inl rfl
    | invalid => exact .inr rfl
  rw [noteError_errored]
  simp [completePd, setFlow, hmark, hterm, hfrd, hkind, hstateful, resultAssert, bind, Except.bind,
    sysmemFreePd, setPd, completed, erroredFlow, nlmFlowNoticeJobCompletion, hlast, hq, hhead,
    apiAssert, nlmDeviceAddFlowToPending]

theorem populateResults_eq {t' : Thread} (hcookie : rd.cookie ≠ 0) (hvalid : rd.valid = true)
    (hindex : nlmGetJobIndex rd.cookie = j) (hjob : (t.device.jobs j).fd.cookie = rd.cookie)
    (hflow : (t.device.jobs j).flow = some f) (hpd : (t.device.jobs j).pd = some p)
    (hkind : (t.device.flows f).isStateless = false)
    (htype : rd.resultType = fmsFrdResult ∨ rd.resultType = fmsPrdResult)
    (hcomplete : t.completeJob rd j f (some p) = .ok t') :
    t.populateResults rd = .ok (t', some (statsResult rd (t.device.jobs j)), true) := by
  have hnot : rd.resultType ≠ fmsMatchResult := by
    rcases htype with heq | heq <;> rw [heq] <;> decide
  unfold populateResults
  simp only [hindex, hflow, hpd, hkind, if_neg hnot, if_pos htype, hcomplete, hjob, hvalid]
  simp [resultAssert, bind, Except.bind, hcookie]

end Thread

namespace ChainRun

variable {s s' : ChainRun} {f g i j p : ℕ} {rd : HwResultDescriptor}
  {rest : List HwResultDescriptor} {l : Lane ℕ} {flow : NlmFlow} {pendingFlowList : List ℕ}

/-- What becomes of a flow when the result of its first job is taken. -/
structure Completion (s : ChainRun) (f j : ℕ) (l : Lane ℕ) (flow : NlmFlow)
    (pendingFlowList : List ℕ) : Prop where
  type : flow.type = (s.t.device.flows f).type
  kind : flow.isStateless = (s.t.device.flows f).isStateless
  pdf : flow.pdfIndex = (s.t.device.flows f).pdfIndex
  groups : flow.dbGroupId = (s.t.device.flows f).dbGroupId
  combination : flow.dbGroupCombination = (s.t.device.flows f).dbGroupCombination
  offset : flow.flowOffset = (s.t.device.flows f).flowOffset
  linked : flow.lastDbGroupCombination = (s.t.device.flows f).lastDbGroupCombination
  last : flow.type = .stateful ∨ l.retire.opened ≠ [] →
    flow.lastPd = l.retire.opened.getLast?.map s.t.device.pdIndex
  head : flow.pendingPdHead = (pendingHead l.retire).map s.t.device.pdIndex
  pending : pendingFlowList.count f = (pendingHead l.retire).toList.length
  others : ∀ g, g ≠ f → pendingFlowList.count g = s.t.device.pendingFlowList.count g
  length_le : pendingFlowList.length ≤ s.t.device.pendingFlowList.length + 1
  term : (s.t.device.pds (s.t.device.pdIndex j)).flowTerm = true → l.retire = .idle

/-- The first result belongs to the first job of a flow. -/
theorem Inv.firstResult (h : Inv s) (hresults : s.results = rd :: rest) :
    ∃ f j l, Shows s f l ∧ rd.cookie = nlmEncodeCookie s.t.device.threadId j ∧
      l.results = (j, rd.resultType == fmsFrdResult) ::
        (rest.filter fun rd ↦ s.inFlow f rd.cookie).map (fun rd ↦
          (nlmGetJobIndex rd.cookie, rd.resultType == fmsFrdResult)) := by
  obtain ⟨hvalid, htype, f, j, hj, hcookie⟩ := h.results rd (hresults ▸ List.mem_cons_self)
  obtain ⟨l, hl⟩ := h.lanes f
  have hin := inFlow_encode h.mem hj
  rw [← hcookie] at hin
  refine ⟨f, j, l, hl, hcookie, hl.results.symm.trans ?_⟩
  unfold resultsOf
  rw [hresults, List.filter_cons_of_pos (p := fun rd : HwResultDescriptor ↦ s.inFlow f rd.cookie)
    hin, List.map_cons, hcookie, (h.mem.running f j hj).index h.mem.thread_lt]

theorem pendingHead_of_results {b : Bool} {rs : List (ℕ × Bool)} (h : l.results = (j, b) :: rs) :
    pendingHead l = none := by
  cases l with
  | pending rest => cases h
  | _ => rfl

theorem pendingHead_retire {b : Bool} {rs : List (ℕ × Bool)} (h : l.results = (j, b) :: rs)
    (hnot : ∀ r rest, l ≠ .final [] r rest) : pendingHead l.retire = none := by
  cases l with
  | walking returned cur c rest => cases returned <;> rfl
  | final returned last rest =>
    cases returned with
    | nil => exact absurd rfl (hnot last rest)
    | cons r returned => rfl
  | _ => cases h

/-- No assertion of `populate_results` fails. -/
theorem Inv.populateResults_eq (h : Inv s) (hl : Shows s f l)
    (hcookie : rd.cookie = nlmEncodeCookie s.t.device.threadId j) (hvalid : rd.valid = true)
    (htype : rd.resultType = fmsFrdResult ∨ rd.resultType = fmsPrdResult)
    {rs : List (ℕ × Bool)} (hresults : l.results = (j, rd.resultType == fmsFrdResult) :: rs) :
    ∃ flow pendingFlowList m, Completion s f j l flow pendingFlowList ∧
      s.t.populateResults rd = .ok ({ s.t with
        device := s.t.device.completed f (s.t.device.pdIndex j) flow pendingFlowList
        m := m }, some (statsResult rd (s.t.device.jobs j)), true) := by
  obtain ⟨hopened, -, hrest⟩ := Lane.opened_of_results hresults
  have hrunning := hl.running.trans hopened
  have hj : j ∈ s.running f := hrunning ▸ List.mem_cons_self
  have hok := h.mem.running f j hj
  have hindex := hok.index h.mem.thread_lt
  have hne : rd.cookie ≠ 0 := by
    intro hzero
    rw [← hcookie, hzero] at hindex
    exact hok.pos.ne hindex
  have hlinked := h.mem.linked f
  rw [hrunning] at hlinked
  have hlast := h.mem.last f (.inr (List.ne_nil_of_mem hj))
  rw [hrunning] at hlast
  have hkind := h.mem.kind f
  have hcomplete : ∀ {device : NlmDevice} {m : Allocators},
      ({ s.t with device := s.t.device.noteError f rd.errorCode } : Thread).completePd rd f
        (s.t.device.pdIndex j) = .ok { s.t with device := device, m := m } →
      (device.flows f).isStateless = false →
      s.t.populateResults rd = .ok ({ s.t with device := device, m := m.freeJob j },
        some (statsResult rd (s.t.device.jobs j)), true) := fun hpd hdevice ↦
    Thread.populateResults_eq hne hvalid (hcookie ▸ hindex) (hok.cookie.trans hcookie.symm) hok.flow
      hok.pd hkind htype (Thread.completeJob_eq hpd hdevice)
  have hflow : ∀ flow pendingFlowList, (s.t.device.completed f (s.t.device.pdIndex j) flow
      pendingFlowList).flows f = flow := fun _ _ ↦ Function.update_self ..
  have hterm : l.retire.opened ≠ [] →
      (s.t.device.pds (s.t.device.pdIndex j)).flowTerm = false := by
    intro hmore
    cases hflag : (s.t.device.pds (s.t.device.pdIndex j)).flowTerm with
    | false => rfl
    | true =>
      have hzero := hlinked.1.symm.trans (hok.term hflag).2.2.2
      cases hjs : l.retire.opened with
      | nil => exact absurd hjs hmore
      | cons i js =>
        rw [hjs] at hzero hrunning
        have hi : i ∈ s.running f := hrunning ▸ List.mem_cons_of_mem j List.mem_cons_self
        exact absurd hzero (h.mem.running f i hi).ne_zero
  have hnone : (s.t.device.flows f).pendingPdHead = none := by
    rw [hl.head, pendingHead_of_results hresults]
    rfl
  have hcount : s.t.device.pendingFlowList.count f = 0 := by
    rw [hl.pending, pendingHead_of_results hresults]
    rfl
  have hlastRest : l.retire.opened ≠ [] →
      (s.t.device.flows f).lastPd = l.retire.opened.getLast?.map s.t.device.pdIndex := by
    intro hmore
    rw [hlast, getLast?_of_suffix (List.suffix_cons j _) hmore]
  rcases Lane.eq_final_of_results hl.ok hresults with ⟨hfrd, hfinal⟩ | ⟨hfrd, hmore, hnot⟩
  · have hfrd' : rd.resultType = fmsFrdResult := beq_iff_eq.mp hfrd
    generalize l.rest = tail at hfinal
    subst hfinal
    cases tail with
    | nil =>
      cases hflag : (s.t.device.pds (s.t.device.pdIndex j)).flowTerm with
      | true =>
        have hinvalid := (hok.term hflag).1
        refine ⟨{ s.t.erroredFlow rd f with type := .invalid }, s.t.device.pendingFlowList, _,
          ⟨hinvalid.symm, rfl, rfl, rfl, rfl, rfl, rfl, ?_, hnone, hcount, fun _ _ ↦ rfl,
          Nat.le_succ _, fun _ ↦ rfl⟩,
          hcomplete (Thread.completePd_term hok.mark hflag hinvalid hfrd') ?_⟩
        · rintro (hs | hne)
          · cases hs
          · exact absurd rfl hne
        · rw [hflow]
          exact hkind
      | false =>
        refine ⟨{ s.t.erroredFlow rd f with lastPd := none }, s.t.device.pendingFlowList, _,
          ⟨rfl, rfl, rfl, rfl, rfl, rfl, rfl, fun _ ↦ rfl, hnone, hcount, fun _ _ ↦ rfl,
          Nat.le_succ _, fun _ ↦ rfl⟩, hcomplete (Thread.completePd_last hok.mark hflag
            (h.flows f).type hkind hfrd' hlast hlinked.1) ?_⟩
        rw [hflow]
        exact hkind
    | cons a js =>
      have ha : a ∈ s.running f := hrunning ▸ List.mem_cons_of_mem j List.mem_cons_self
      have hlastNe : (s.t.device.flows f).lastPd ≠ some (s.t.device.pdIndex j) := by
        intro heq
        have hnodup := h.mem.running_nodup f
        rw [hrunning] at hnodup
        obtain ⟨k, hk, hkj⟩ := Option.map_eq_some_iff.mp
          ((hlastRest (List.cons_ne_nil a js)).symm.trans heq)
        have hk' := List.mem_of_getLast? hk
        have hkf : k ∈ s.running f := hrunning ▸ List.mem_cons_of_mem j hk'
        have hkj' := h.mem.pd_inj k j (.inr ⟨f, hkf⟩) (.inr ⟨f, hj⟩) hkj
        exact (List.nodup_cons.mp hnodup).1 (hkj' ▸ hk')
      refine ⟨{ s.t.erroredFlow rd f with pendingPdHead := some (s.t.device.pdIndex a) },
        s.t.device.pendingFlowList ++ [f], _,
        ⟨rfl, rfl, rfl, rfl, rfl, rfl, rfl, fun _ ↦ hlastRest (List.cons_ne_nil a js), rfl,
        ?_, fun g hg ↦ ?_, List.length_append.le, fun hflag ↦ ?_⟩,
        hcomplete (Thread.completePd_linked hok.mark (hterm (List.cons_ne_nil a js)) (h.flows f).type hkind hfrd' hlastNe hlinked.1
          (h.mem.running f a ha).ne_zero hnone) ?_⟩
      · rw [List.count_append, hcount, List.count_singleton_self]
        rfl
      · rw [List.count_append, List.count_singleton, if_neg (by simpa using Ne.symm hg),
          Nat.add_zero]
      · exact absurd ((hterm (List.cons_ne_nil a js)).symm.trans hflag) (by decide)
      · rw [hflow]
        exact hkind
  · have hfrd' : rd.resultType ≠ fmsFrdResult := fun heq ↦ by
      rw [heq] at hfrd
      cases hfrd
    have hhead := pendingHead_retire hresults hnot
    refine ⟨s.t.erroredFlow rd f, s.t.device.pendingFlowList, _,
      ⟨rfl, rfl, rfl, rfl, rfl, rfl, rfl, fun _ ↦ hlastRest hmore, ?_, ?_, fun _ _ ↦ rfl,
      Nat.le_succ _, fun hflag ↦ ?_⟩,
      hcomplete (Thread.completePd_plain hok.mark (hterm hmore) hfrd') ?_⟩
    · rw [hhead]
      exact hnone
    · rw [hhead]
      exact hcount
    · exact absurd ((hterm hmore).symm.trans hflag) (by decide)
    · rw [hflow]
      exact hkind

/-- The state when the first result has been taken. -/
def collected (s : ChainRun) (f j : ℕ) (flow : NlmFlow) (pendingFlowList : List ℕ)
    (m : Allocators) (rest : List HwResultDescriptor) : ChainRun :=
  { s with
    t := { s.t with
      device := s.t.device.completed f (s.t.device.pdIndex j) flow pendingFlowList
      m := m }
    results := rest
    running := fun g ↦ (s.running g).erase j }

section Collected

variable {m : Allocators} {rs : List (ℕ × Bool)} {b : Bool} (h : Inv s) (hl : Shows s f l)
  (hresults : l.results = (j, b) :: rs) (hc : Completion s f j l flow pendingFlowList)
include hl hresults

theorem running_first : s.running f = j :: l.retire.opened :=
  hl.running.trans (Lane.opened_of_results hresults).1

theorem first_mem : j ∈ s.running f := by
  rw [running_first hl hresults]
  exact List.mem_cons_self

theorem collected_running_self :
    (s.collected f j flow pendingFlowList m rest).running f = l.retire.opened := by
  change (s.running f).erase j = _
  rw [running_first hl hresults, List.erase_cons_head]

include h

theorem collected_running_of_ne (hg : g ≠ f) :
    (s.collected f j flow pendingFlowList m rest).running g = s.running g :=
  List.erase_of_not_mem fun hj ↦ hg (h.mem.flow_eq hj (first_mem hl hresults))

theorem collected_live (hi : (s.collected f j flow pendingFlowList m rest).Live i) :
    s.Live i ∧ i ≠ j := by
  rcases hi with hi | ⟨g, hi⟩
  · exact ⟨.inl hi, fun heq ↦ h.mem.disjoint i hi f (heq ▸ first_mem hl hresults)⟩
  · have hi' := (h.mem.running_nodup g).mem_erase_iff.mp hi
    exact ⟨.inr ⟨g, hi'.2⟩, hi'.1⟩

theorem collected_same (hi : s.Live i) (hne : i ≠ j) : SameJob s.t.device
    (s.collected f j flow pendingFlowList m rest).t.device i :=
  ⟨rfl, Function.update_of_ne
    (h.mem.ne_of_ne hi (.inr ⟨f, first_mem hl hresults⟩) hne) ..⟩

omit h hl hresults in
theorem collected_flow_of_ne (hg : g ≠ f) :
    (s.collected f j flow pendingFlowList m rest).t.device.flows g = s.t.device.flows g :=
  Function.update_of_ne hg ..

omit h hl hresults in
theorem collected_field {β : Type} (field : NlmFlow → β)
    (hfield : field flow = field (s.t.device.flows f)) (g : ℕ) :
    field ((s.collected f j flow pendingFlowList m rest).t.device.flows g) =
      field (s.t.device.flows g) := by
  by_cases hg : g = f
  · subst hg
    exact (congrArg field (Function.update_self ..)).trans hfield
  · rw [collected_flow_of_ne hg]

include hc

theorem collected_mem : Mem (s.collected f j flow pendingFlowList m rest) := by
  refine h.mem.shrink rfl (fun i hi ↦ ?_) (List.Sublist.refl _) (fun g ↦ ?_)
    (fun g ↦ (collected_field _ hc.kind g).trans (h.mem.kind g)) (fun i hi g hg ↦ ?_)
    (fun g _ hinvalid ↦ (collected_field _ hc.type g).trans hinvalid) fun g hg ↦ ?_
  · obtain ⟨hi, hne⟩ := collected_live h hl hresults hi
    exact collected_same h hl hresults hi hne
  · by_cases hgf : g = f
    · subst hgf
      rw [collected_running_self hl hresults, running_first hl hresults]
      exact List.suffix_cons ..
    · rw [collected_running_of_ne h hl hresults hgf]
  · obtain ⟨k, hk, hok⟩ := h.mem.waiting i hi
    rw [collected_field _ hc.type g, ← Option.some.inj (hok.flow.symm.trans hg), hk]
  · by_cases hgf : g = f
    · subst hgf
      have hself : (s.collected g j flow pendingFlowList m rest).t.device.flows g = flow :=
        Function.update_self ..
      rw [collected_running_self hl hresults, hself] at hg ⊢
      exact hc.last hg
    · rw [collected_running_of_ne h hl hresults hgf, collected_flow_of_ne hgf] at hg ⊢
      exact h.mem.last g hg

end Collected

theorem collected_inFlow {m : Allocators} {cookie : ℕ} (hne : nlmGetJobIndex cookie ≠ j) (g : ℕ) :
    (s.collected f j flow pendingFlowList m rest).inFlow g cookie = s.inFlow g cookie :=
  decide_eq_decide.mpr (List.mem_erase_of_ne hne)

theorem Owned.collected {m : Allocators} {cookie : ℕ} (h : s.Owned cookie)
    (hne : nlmGetJobIndex cookie ≠ j) :
    (s.collected f j flow pendingFlowList m rest).Owned cookie := by
  obtain ⟨g, hg⟩ := h
  exact ⟨g, (collected_inFlow hne g).trans hg⟩

theorem FdsShow.retire {d : NlmDevice} {fds : List HwFdDescriptor} {b : Bool}
    {rs : List (ℕ × Bool)} (h : FdsShow d fds l) (hresults : l.results = (j, b) :: rs) :
    fds = [] ∧ FdsShow d fds l.retire := by
  cases l with
  | walking returned cur c rest =>
    cases returned with
    | nil => cases hresults
    | cons r returned => exact ⟨h, h⟩
  | final returned last rest =>
    cases returned with
    | nil => cases rest <;> exact ⟨h, h⟩
    | cons r returned => exact ⟨h, h⟩
  | _ => cases hresults

/-- What the hardware walks is a job that stays. -/
theorem WalksShow.retire {d : NlmDevice} {walks : List Walk} {b : Bool} {rs : List (ℕ × Bool)}
    (h : WalksShow d walks l) (hresults : l.results = (j, b) :: rs) :
    WalksShow d walks l.retire ∧ ∀ w ∈ walks, ∃ i ∈ l.retire.opened,
      w.cookie = nlmEncodeCookie d.threadId i := by
  cases l with
  | walking returned cur c rest =>
    cases returned with
    | nil => cases hresults
    | cons r returned =>
      obtain ⟨w, i, rfl, hi, hshows⟩ := h
      refine ⟨⟨w, i, rfl, hi, hshows⟩, fun w' hw' ↦ ⟨i, ?_, ?_⟩⟩
      · cases cur with
        | some k =>
          cases hi
          exact List.mem_append_left _ (List.mem_append_right _ List.mem_cons_self)
        | none => exact List.mem_append_right _ (List.mem_of_head? hi)
      · rw [List.mem_singleton.mp hw']
        exact hshows.cookie
  | final returned last rest =>
    have hnil : walks = [] := h
    subst hnil
    cases returned with
    | nil => cases rest <;> exact ⟨rfl, fun _ hw ↦ absurd hw List.not_mem_nil⟩
    | cons r returned => exact ⟨rfl, fun _ hw ↦ absurd hw List.not_mem_nil⟩
  | _ => cases hresults

section Collected

variable {b : Bool} (h : Inv s) (hl : Shows s f l) (hfirst : s.results = rd :: rest)
  (hcookie : rd.cookie = nlmEncodeCookie s.t.device.threadId j)
  (hresults : l.results = (j, b) :: (rest.filter fun rd ↦ s.inFlow f rd.cookie).map (fun rd ↦
    (nlmGetJobIndex rd.cookie, rd.resultType == fmsFrdResult)))
include h hl hresults

theorem first_not_mem : j ∉ l.retire.opened := by
  have hnodup := h.mem.running_nodup f
  rw [running_first hl hresults] at hnodup
  exact (List.nodup_cons.mp hnodup).1

theorem inFlow_first {cookie : ℕ} (hg : s.inFlow g cookie = true)
    (heq : nlmGetJobIndex cookie = j) : g = f := by
  rw [inFlow_iff, heq] at hg
  exact h.mem.flow_eq hg (first_mem hl hresults)

theorem fd_ne {fd : HwFdDescriptor} (hfd : fd ∈ s.t.device.ringFds)
    (hours : s.t.device.owns fd = true) : nlmGetJobIndex fd.cookie ≠ j := by
  intro heq
  obtain ⟨g, hg⟩ := h.fds fd hfd hours
  obtain rfl := inFlow_first h hl hresults hg heq
  have hmem : fd ∈ s.fdsOf g := List.mem_filter.mpr ⟨hfd, by rw [hours, hg]; rfl⟩
  rw [(hl.fds.retire hresults).1] at hmem
  cases hmem

theorem walk_ne {w : Walk} (hw : w ∈ s.walks) : nlmGetJobIndex w.cookie ≠ j := by
  intro heq
  obtain ⟨g, hg⟩ := h.walks w hw
  obtain rfl := inFlow_first h hl hresults hg heq
  obtain ⟨i, hi, hwi⟩ := (hl.walks.retire hresults).2 w (List.mem_filter.mpr ⟨hw, hg⟩)
  have hif : i ∈ s.running g := by
    rw [running_first hl hresults]
    exact List.mem_cons_of_mem j hi
  rw [hwi, (h.mem.running g i hif).index h.mem.thread_lt] at heq
  exact first_not_mem h hl hresults (heq ▸ hi)

include hfirst in
theorem result_ne {rd' : HwResultDescriptor} (hrd : rd' ∈ rest) :
    nlmGetJobIndex rd'.cookie ≠ j := by
  intro heq
  have hok := h.results rd' (hfirst ▸ List.mem_cons_of_mem rd hrd)
  obtain ⟨g, hg⟩ := hok.inFlow h.mem
  obtain rfl := inFlow_first h hl hresults hg heq
  have hshown := (Lane.opened_of_results hresults).2.1
  have hmem : (j, rd'.resultType == fmsFrdResult) ∈ l.retire.results := by
    rw [hshown, ← heq]
    exact List.mem_map_of_mem (List.mem_filter.mpr ⟨hrd, hg⟩)
  have hopened := (Lane.results_prefix l.retire).subset (List.mem_map_of_mem (f := Prod.fst) hmem)
  exact first_not_mem h hl hresults hopened

include hfirst hcookie

theorem Inv.collected (hc : Completion s f j l flow pendingFlowList) (m : Allocators) :
    Inv (s.collected f j flow pendingFlowList m rest) := by
  have hfdsOf : ∀ g, (s.collected f j flow pendingFlowList m rest).fdsOf g = s.fdsOf g := fun g ↦
    fdsOf_congr rfl rfl fun fd hfd hours ↦ collected_inFlow (fd_ne h hl hresults hfd hours) g
  have hwalksOf : ∀ g, (s.collected f j flow pendingFlowList m rest).walksOf g = s.walksOf g :=
    fun g ↦ walksOf_congr rfl fun w hw ↦ collected_inFlow (walk_ne h hl hresults hw) g
  have hresultsOf : ∀ g, (s.collected f j flow pendingFlowList m rest).resultsOf g =
      (rest.filter fun rd ↦ s.inFlow g rd.cookie).map fun rd ↦
        (nlmGetJobIndex rd.cookie, rd.resultType == fmsFrdResult) := fun g ↦ by
    unfold resultsOf
    exact congrArg _ (List.filter_congr fun rd' hrd ↦
      collected_inFlow (result_ne h hl hfirst hresults hrd) g)
  have hj := first_mem hl hresults
  refine ⟨⟨⟨h.ring.size_ok, h.ring.rd_lt, h.ring.wrt_lt⟩, h.ring.sent_lt, h.ring.sent_le⟩, h.fifo,
    collected_mem h hl hresults hc, fun g ↦ ?_,
    fun fd hfd hours ↦ (h.fds fd hfd hours).collected (fd_ne h hl hresults hfd hours),
    fun w hw ↦ (h.walks w hw).collected (walk_ne h hl hresults hw), fun rd' hrd ↦ ?_, fun g ↦ ?_⟩
  · by_cases hgf : g = f
    · subst hgf
      obtain ⟨-, hshown, hrest⟩ := Lane.opened_of_results hresults
      refine ⟨l.retire, hl.ok.retire, collected_running_self hl hresults, ?_, ?_, hc.pending, ?_,
        ?_, ?_, fun hterm ↦ ?_⟩
      · rw [hrest]
        exact hl.started
      · rw [hresultsOf, hshown]
      · exact (congrArg NlmFlow.pendingPdHead (Function.update_self ..)).trans hc.head
      · rw [hfdsOf]
        exact ((hl.fds.retire hresults).2.congr hl.ok.retire rfl fun _ _ ↦ rfl)
      · rw [hwalksOf]
        exact ((hl.walks.retire hresults).1.congr hl.ok.retire rfl fun _ _ ↦ rfl)
      · cases hflag : (s.t.device.pds (s.t.device.pdIndex j)).flowTerm with
        | true =>
          rw [hc.term hflag]
          trivial
        | false =>
          refine (hl.extensible fun i hi ↦ ?_).retire
          rw [running_first hl hresults] at hi
          rcases List.mem_cons.mp hi with rfl | hi
          · exact hflag
          · have hi' : i ∈ (s.collected g j flow pendingFlowList m rest).running g := by
              rw [collected_running_self hl hresults]
              exact hi
            have hlive := collected_live h hl hresults (.inr ⟨g, hi'⟩)
            have hsame : SameJob s.t.device
                (s.collected g j flow pendingFlowList m rest).t.device i :=
              collected_same h hl hresults hlive.1 hlive.2
            have hkeep := hsame.pd'
            rw [← hkeep]
            exact hterm i hi'
    · obtain ⟨l', hl'⟩ := h.lanes g
      have hnot : s.inFlow g rd.cookie = false := by
        rw [hcookie]
        exact inFlow_of_ne h.mem (inFlow_encode h.mem hj) hgf
      refine ⟨l', hl'.frame (collected_running_of_ne h hl hresults hgf) rfl rfl ?_ (hc.others g hgf)
        (congrArg NlmFlow.pendingPdHead (collected_flow_of_ne hgf)) (hfdsOf g) (hwalksOf g) rfl
        (fun _ _ ↦ rfl) fun i hi ↦ ?_⟩
      · rw [hresultsOf]
        unfold resultsOf
        rw [hfirst, List.filter_cons_of_neg (p := fun rd : HwResultDescriptor ↦
          s.inFlow g rd.cookie) (by rw [Bool.not_eq_true]; exact hnot)]
      · have hne : i ≠ j := fun heq ↦ hgf (h.mem.flow_eq (heq ▸ hi) hj)
        have hsame : SameJob s.t.device (s.collected f j flow pendingFlowList m rest).t.device i :=
          collected_same h hl hresults (.inr ⟨g, hi⟩) hne
        have hkeep := hsame.pd
        rw [hkeep]
  · have hne := result_ne h hl hfirst hresults hrd
    obtain ⟨hvalid, htype, g, i, hi, hci⟩ := h.results rd' (hfirst ▸ List.mem_cons_of_mem rd hrd)
    refine ⟨hvalid, htype, g, i, ?_, hci⟩
    rw [hci, (h.mem.running g i hi).index h.mem.thread_lt] at hne
    exact (List.mem_erase_of_ne hne).mpr hi
  · refine (h.flows g).shrink (fun hne ↦ ?_) (fun i hi hf ↦ ⟨hi, hf⟩)
      (.inl (collected_field _ hc.type g)) (collected_field _ hc.pdf g)
      (collected_field _ hc.groups g) (collected_field _ hc.combination g)
      (collected_field _ hc.offset g)
    intro hnil
    refine hne ?_
    change (s.running g).erase j = []
    rw [hnil]
    rfl

end Collected

theorem Inv.collect (h : Inv s) {t : Thread} {result : Option NlmResult} {mark : Bool}
    (hfirst : s.results = rd :: rest) (hcall : s.t.populateResults rd = .ok (t, result, mark)) :
    Inv { s with
      t := t
      results := rest
      running := fun f ↦ (s.running f).erase (nlmGetJobIndex rd.cookie) } := by
  obtain ⟨f, j, l, hl, hcookie, hresults⟩ := h.firstResult hfirst
  obtain ⟨hvalid, htype, -⟩ := h.results rd (hfirst ▸ List.mem_cons_self)
  obtain ⟨flow, pendingFlowList, m, hc, heq⟩ :=
    h.populateResults_eq hl hcookie hvalid htype hresults
  obtain rfl := (Prod.mk.inj (Except.ok.inj (heq.symm.trans hcall))).1
  have hindex := (h.mem.running f j (first_mem hl hresults)).index h.mem.thread_lt
  rw [hcookie, hindex]
  exact h.collected hl hfirst hcookie hresults hc m

end ChainRun

end NetL7.Packet
