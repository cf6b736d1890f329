import NetL7.Packet.ChainResults

/-!
# What holds in every run

Whatever the order of the calls, of what the hardware does and of what others put into the
ring, the packets of a flow are scanned in the order in which they were started, a packet
that was linked too late is handed over again, and no assertion fails.
-/

namespace NetL7.Packet

open NetL7.Lib NlmDevice

namespace ChainRun

variable {s s' : ChainRun} {f j : ℕ}

theorem inv_start {threadId size : ℕ} (hthread : threadId < 256) (hsize : FifoSizeOk size)
    (m : Allocators) (packetBase : List ℕ) (policy : ℕ) :
    Inv (start threadId size m packetBase policy) := by
  have hpos : 0 < size := Nat.pos_of_ne_zero hsize.1
  refine ⟨⟨⟨hsize, hpos, hpos⟩, hpos, le_rfl⟩, rfl, ?_, fun f ↦ ⟨.idle, ?_⟩, fun fd hfd ↦ ?_,
    fun _ hw ↦ absurd hw List.not_mem_nil, fun _ hrd ↦ absurd hrd List.not_mem_nil,
    fun f ↦ ⟨nofun, fun hf ↦ ?_, nofun, nofun, nofun⟩⟩
  · refine ⟨hthread, fun _ ↦ rfl, nofun, fun _ ↦ nofun, List.nodup_nil, fun _ ↦ List.nodup_nil,
      nofun, fun i _ hi ↦ ?_, fun _ ↦ trivial, fun _ _ ↦ rfl⟩
    rcases hi with hi | ⟨f, hi⟩ <;> cases hi
  · refine ⟨trivial, rfl, rfl, rfl, rfl, rfl, ?_, rfl, fun _ ↦ trivial⟩
    have hring : (attached threadId size false).ringFds = [] := by
      simp [ringFds, fdCount, attached, window]
    change (attached threadId size false).ringFds.filter _ = []
    rw [hring]
    rfl
  · have hring : (attached threadId size false).ringFds = [] := by
      simp [ringFds, fdCount, attached, window]
    change fd ∈ (attached threadId size false).ringFds at hfd
    rw [hring] at hfd
    cases hfd
  · rcases hf with hf | hf
    · cases hf
    · exact absurd rfl hf

/-- A flow that is not allocated has no job that is started, and none can be enqueued. -/
def Lifetime (s : ChainRun) : Prop :=
  ∀ f, f ∉ s.used → s.running f = [] ∧ (s.t.device.flows f).type = .invalid

theorem Step.inv (hstep : Step s s') (h : Inv s) (hlife : Lifetime s) : Inv s' := by
  cases hstep with
  | createFlow hf hpdf hpdfLt m =>
    obtain ⟨hidle, htype⟩ := hlife _ hf
    exact (h.createFlow htype hidle hpdf hpdfLt m).setUsed _
  | changeGroups f groups hcombination => exact h.changeGroups f groups hcombination
  | enqueue htype hgroups hj hp userCookie hbytes m packetBase =>
    exact h.enqueue htype hgroups hj hp userCookie hbytes m packetBase
  | cancel hj hcall => exact h.cancel hj hcall
  | leftover hjobs hpds m => exact h.leftover hjobs hpds m
  | disconnect htype hlast => exact h.disconnect htype hlast
  | start hj hflow hbytes hcall => exact h.start hj hflow hbytes hcall
  | destroy htype _ _ _ hj hp userCookie hbytes m packetBase =>
    exact h.destroy htype hj hp userCookie m packetBase hbytes
  | destroyUnused htype _ => exact (h.destroyUnused htype).setUsed _
  | destroyFailed htype => exact h.destroyFailed htype
  | startChain hlist hcall => exact h.startChain hlist hcall
  | publish => exact h.publish
  | otherFd halloc hother => exact h.otherFd halloc hother
  | take hsent => exact h.take hsent
  | follow hw hlast hcount hresults => exact h.follow hw hlast hcount hresults
  | stop hw hlast hrd => exact h.stop hw hlast hrd
  | collect hresults hcall => exact (h.collect hresults hcall).setUsed _

/-- A flow whose type is valid is allocated. -/
theorem Lifetime.mem (h : Lifetime s) (htype : (s.t.device.flows f).type ≠ .invalid) :
    f ∈ s.used := by
  by_contra hf
  exact htype (h f hf).2

/-- Steps that free no flow. -/
theorem Lifetime.keep (h : Lifetime s) (hused : s'.used = s.used)
    (hrunning : ∀ f, f ∉ s.used → s'.running f = s.running f)
    (htype : ∀ f, f ∉ s.used → (s'.t.device.flows f).type = (s.t.device.flows f).type ∨
      (s'.t.device.flows f).type = .invalid) : Lifetime s' := by
  intro f hf
  rw [hused] at hf
  obtain ⟨hidle, hinvalid⟩ := h f hf
  refine ⟨(hrunning f hf).trans hidle, ?_⟩
  rcases htype f hf with heq | heq
  · exact heq.trans hinvalid
  · exact heq

theorem finishing_type (s : ChainRun) (f g : ℕ) :
    (((s.t.invalidated f).nextCombination f).device.flows g).type = (s.t.device.flows g).type ∨
      (((s.t.invalidated f).nextCombination f).device.flows g).type = .invalid := by
  by_cases hg : g = f
  · subst hg
    exact .inr (congrArg NlmFlow.type (finishing_self s.t g))
  · refine .inl (congrArg NlmFlow.type ?_)
    rw [finishing_flow]
    exact Function.update_of_ne hg ..

theorem setFlow_type (d : NlmDevice) (f g : ℕ) (change : NlmFlow → NlmFlow)
    (htype : ∀ flow, (change flow).type = flow.type) :
    ((d.setFlow f change).flows g).type = (d.flows g).type := by
  change (Function.update d.flows f (change (d.flows f)) g).type = _
  rw [Function.update_apply]
  split
  · next heq => rw [htype, heq]
  · rfl

/-- A flow is freed when nothing of it is left. -/
theorem Step.lifetime (hstep : Step s s') (h : Inv s) (hlife : Lifetime s) : Lifetime s' := by
  cases hstep with
  | @createFlow f pdfIndex hf hpdf hpdfLt m =>
    intro g hg
    obtain ⟨hne, hg⟩ := not_or.mp fun hmem ↦ hg (List.mem_cons.mpr hmem)
    refine ⟨(hlife g hg).1, ?_⟩
    exact (congrArg NlmFlow.type (Function.update_of_ne hne ..)).trans (hlife g hg).2
  | changeGroups f groups hcombination =>
    refine hlife.keep rfl (fun _ _ ↦ rfl) fun g _ ↦ .inl ?_
    exact setFlow_type s.t.device f g (fun flow ↦ { flow with
      dbGroupId := groups
      dbGroupCombination := (flow.dbGroupCombination + 1) % 2 ^ 32 }) fun _ ↦ rfl
  | enqueue => exact hlife.keep rfl (fun _ _ ↦ rfl) fun _ _ ↦ .inl rfl
  | @cancel j t hj hcall =>
    refine hlife.keep rfl (fun _ _ ↦ rfl) fun g _ ↦ .inl ?_
    obtain ⟨p, -, hdevice⟩ := cancel_device hcall
    change (t.device.flows g).type = _
    rw [hdevice]
    rfl
  | leftover => exact hlife.keep rfl (fun _ _ ↦ rfl) fun _ _ ↦ .inl rfl
  | disconnect => exact hlife.keep rfl (fun _ _ ↦ rfl) fun _ _ ↦ .inl rfl
  | start hj hflow hbytes hcall =>
    obtain ⟨k, hk, hok⟩ := h.mem.waiting _ hj
    obtain rfl := Option.some.inj (hok.flow.symm.trans hflow)
    have hmem := hlife.mem (hk.trans_ne (by decide))
    refine hlife.keep rfl (fun g hg ↦ ?_) fun g _ ↦ .inl ?_
    · exact Function.update_of_ne (fun heq ↦ hg (by rw [heq]; exact hmem)) ..
    · exact (startStatefulJob_keepsCounts hcall).type_eq g
  | @destroy f j p htype _ _ _ hj hp userCookie packet hbytes m packetBase =>
    have hmem := hlife.mem (htype.trans_ne (by decide))
    have hne : ∀ g, g ∉ s.used → g ≠ f := fun g hg heq ↦ hg (heq ▸ hmem)
    refine hlife.keep rfl (fun g hg ↦ Function.update_of_ne (hne g hg) ..) fun g hg ↦ ?_
    have hadd : ∀ d : NlmDevice, ((d.nlmFlowAddJobToList f j p).flows g) = d.flows g := fun d ↦ by
      rw [addJobToList_eq]
      exact Function.update_of_ne (hne g hg) ..
    exact Or.imp ((congrArg NlmFlow.type (hadd _)).trans ·)
      ((congrArg NlmFlow.type (hadd _)).trans ·) (finishing_type s f g)
  | @destroyUnused f htype hunused =>
    intro g hg
    by_cases hgf : g = f
    · subst hgf
      have hself : (s.t.invalidated g).device.flows g =
          { s.t.device.flows g with type := .invalid } := Function.update_self ..
      refine ⟨?_, congrArg NlmFlow.type hself⟩
      by_contra hne
      obtain ⟨hoffset, hcombination⟩ := (h.flows g).running htype hne
      rcases hunused with hzero | hzero
      · exact hoffset hzero
      · exact hcombination hzero
    · have hg' : g ∉ s.used := fun hmem ↦ hg (List.mem_filter.mpr ⟨hmem, by simpa using hgf⟩)
      refine ⟨(hlife g hg').1, ?_⟩
      exact (congrArg NlmFlow.type (Function.update_of_ne hgf ..)).trans (hlife g hg').2
  | @destroyFailed f htype =>
    exact hlife.keep rfl (fun _ _ ↦ rfl) fun g _ ↦ finishing_type s f g
  | startChain hlist hcall =>
    refine hlife.keep rfl (fun _ _ ↦ rfl) fun g _ ↦ .inl ?_
    exact (startPendingPdChain_keepsCounts hcall).type_eq g
  | publish => exact hlife.keep rfl (fun _ _ ↦ rfl) fun _ _ ↦ .inl rfl
  | otherFd halloc hother =>
    refine hlife.keep rfl (fun _ _ ↦ rfl) fun g _ ↦ .inl ?_
    exact (KeepsCounts.allocFd halloc).type_eq g
  | take hsent =>
    refine hlife.keep ?_ (fun g _ ↦ ?_) fun g _ ↦ .inl ?_ <;> unfold taken <;> simp only <;>
      split <;> rfl
  | follow => exact hlife.keep rfl (fun _ _ ↦ rfl) fun _ _ ↦ .inl rfl
  | stop => exact hlife.keep rfl (fun _ _ ↦ rfl) fun _ _ ↦ .inl rfl
  | @collect rd rest t result mark hfirst hcall =>
    obtain ⟨f, j, l, hl, hcookie, hresults⟩ := h.firstResult hfirst
    obtain ⟨hvalid, htype, -⟩ := h.results rd (hfirst ▸ List.mem_cons_self)
    obtain ⟨flow, pendingFlowList, m, hc, heq⟩ :=
      h.populateResults_eq hl hcookie hvalid htype hresults
    obtain rfl := (Prod.mk.inj (Except.ok.inj (heq.symm.trans hcall))).1
    have hj := first_mem hl hresults
    have hindex := (h.mem.running f j hj).index h.mem.thread_lt
    have hkeep : ∀ g, ((s.collected f j flow pendingFlowList m rest).t.device.flows g).type =
        (s.t.device.flows g).type := collected_field NlmFlow.type hc.type
    intro g hg
    have hfree : g ∉ s.used ∨
        (s.t.device.pds (s.t.device.pdIndex j)).flowTerm = true ∧ g = f := by
      by_contra hnot
      rw [not_or, not_not] at hnot
      refine hg ?_
      change g ∈ s.usedAfter rd
      unfold usedAfter
      rw [hcookie, hindex, flowOf_encode h.mem hj]
      split
      · next hterm =>
        exact List.mem_filter.mpr ⟨hnot.1, by simpa using fun heq ↦ hnot.2 ⟨hterm, heq⟩⟩
      · exact hnot.1
    rw [hcookie, hindex]
    rcases hfree with hfree | ⟨hterm, rfl⟩
    · refine ⟨?_, (hkeep g).trans (hlife g hfree).2⟩
      change (s.running g).erase j = []
      rw [(hlife g hfree).1]
      rfl
    · refine ⟨?_, (hkeep g).trans ((h.mem.running g j hj).term hterm).1⟩
      have hidle : (s.collected g j flow pendingFlowList m rest).running g = l.retire.opened :=
        collected_running_self hl hresults
      rw [hc.term hterm] at hidle
      exact hidle

theorem lifetime_start (threadId size : ℕ) (m : Allocators) (packetBase : List ℕ) (policy : ℕ) :
    Lifetime (start threadId size m packetBase policy) := fun _ _ ↦ ⟨rfl, rfl⟩

theorem Reaches.inv (hrun : Reaches s s') (h : Inv s) (hlife : Lifetime s) :
    Inv s' ∧ Lifetime s' := by
  induction hrun with
  | refl => exact ⟨h, hlife⟩
  | tail _ hstep ih => exact ⟨hstep.inv ih.1 ih.2, hstep.lifetime ih.1 ih.2⟩

/-! ## Order -/

/-- The jobs that are started and whose packets have not been scanned. -/
def unscanned (s : ChainRun) (f : ℕ) : List ℕ := (s.started f).drop (s.scanned f).length

theorem Shows.unscanned {l : Lane ℕ} (h : Shows s f l) : s.unscanned f = l.rest := by
  unfold ChainRun.unscanned
  rw [h.started, List.drop_left]

variable {threadId size policy : ℕ} {m : Allocators} {packetBase : List ℕ}

theorem reached_inv (hthread : threadId < 256) (hsize : FifoSizeOk size)
    (hrun : Reaches (start threadId size m packetBase policy) s) : Inv s ∧ Lifetime s :=
  hrun.inv (inv_start hthread hsize m packetBase policy) (lifetime_start _ _ _ _ _)

/-- The allocators of a thread before it has attached to memory. -/
def noMemory : Allocators :=
  .attach ⟨⟨0, 0, 0⟩, 0, 0, none⟩

/-! ## Computed runs -/

/-- A step with what decides it. Results are taken and links followed where the hardware
got first. -/
inductive Move
  | createFlow (f pdfIndex : ℕ)
  | changeGroups (f : ℕ) (groups : List ℕ)
  | enqueue (f j p packetByteCount : ℕ)
  | start (j : ℕ)
  | destroy (f j p : ℕ)
  | startChain
  | publish
  | take
  | follow
  | stop
  | collect

/-- A slot that no job in use has, as far as it can be computed. -/
def Unused (s : ChainRun) (j p : ℕ) : Prop :=
  (0 < j ∧ j < 2 ^ 24 ∧ j ∉ s.waiting ∧ ∀ f ∈ s.used, j ∉ s.running f) ∧ p ≠ 0 ∧
    (∀ i ∈ s.waiting, (s.t.device.jobs i).pd ≠ some p) ∧
      ∀ f ∈ s.used, ∀ i ∈ s.running f, (s.t.device.jobs i).pd ≠ some p

instance (s : ChainRun) (j p : ℕ) : Decidable (s.Unused j p) :=
  inferInstanceAs (Decidable ((_ ∧ _) ∧ _))

/-- The result of a descriptor that matched nothing. -/
def resultOf (w : Walk) (isFrd : Bool) : HwResultDescriptor :=
  ⟨(if isFrd then fmsFrdResult else fmsPrdResult) * 2 ^ 29, w.cookie, 0, 2 ^ 31⟩

def move (s : ChainRun) : Move → Option ChainRun
  | .createFlow f pdfIndex =>
    if f ∉ s.used ∧ pdfIndex ≠ 0 ∧ pdfIndex >>> 24 = 0 then
      some { s with
        t := { s.t with
          device := s.t.device.setFlow f fun _ ↦ InFlight.createdFlow .stateful pdfIndex }
        used := f :: s.used
        started := Function.update s.started f []
        scanned := Function.update s.scanned f [] }
    else none
  | .changeGroups f groups =>
    if (s.t.device.flows f).dbGroupCombination + 1 < 2 ^ 32 then
      some { s with
        t := { s.t with
          device := s.t.device.setFlow f fun flow ↦ { flow with
            dbGroupId := groups
            dbGroupCombination := (flow.dbGroupCombination + 1) % 2 ^ 32 } } }
    else none
  | .enqueue f j p packetByteCount =>
    if (s.t.device.flows f).type = .stateful ∧ (s.t.device.flows f).dbGroupId ≠ [] ∧
        s.Unused j p ∧ 0 < packetByteCount then
      some { s with
        t := { s.t with
          device := s.t.device.enqueueStateful f j p 0 ⟨0, 0, packetByteCount⟩ }
        waiting := j :: s.waiting }
    else none
  | .start j =>
    match (s.t.device.jobs j).flow, s.t.device.startStatefulJob j with
    | some f, .ok device =>
      if j ∈ s.waiting ∧ (s.t.device.flows f).flowOffset +
          (s.t.device.pds (s.t.device.pdIndex j)).packetByteCount < 2 ^ 64 then
        some { s with
          t := { s.t with device := device }
          waiting := s.waiting.erase j
          running := Function.update s.running f (s.running f ++ [j])
          started := Function.update s.started f (s.started f ++ [j]) }
      else none
    | _, _ => none
  | .destroy f j p =>
    if (s.t.device.flows f).type = .stateful ∧ (s.t.device.flows f).flowOffset ≠ 0 ∧
        (s.t.device.flows f).dbGroupCombination ≠ 0 ∧
        (s.t.device.flows f).dbGroupCombination + 1 < 2 ^ 32 ∧ s.Unused j p then
      some { s with
        t := { s.t with device := (s.finishing f j p 0 ⟨0, 0, 0⟩).addFinish f j p }
        waiting := s.waitingBut f
        running := Function.update s.running f (s.running f ++ [j])
        started := Function.update s.started f (s.started f ++ [j]) }
    else none
  | .startChain =>
    match s.t.device.pendingFlowList with
    | [] => none
    | f :: _ =>
      match s.t.device.nlmFlowStartPendingPdChain f with
      | .ok (.ok, device) => some { s with t := { s.t with device := device } }
      | _ => none
  | .publish =>
    some { s with t := { s.t with device := s.t.device.nlmDeviceUpdateInputWrtPtr } }
  | .take => if s.t.device.inputRdPtr ≠ s.t.device.fdfFifoWrtPtr then some s.taken else none
  | .follow =>
    match s.walks with
    | [] => none
    | w :: _ =>
      if w.last = false then
        some (s.followed w (if w.packetPrd then [resultOf w false] else []))
      else none
  | .stop =>
    match s.walks with
    | [] => none
    | w :: _ =>
      if w.last = true then
        some { s with walks := s.walks.erase w, results := s.results ++ [resultOf w true] }
      else none
  | .collect =>
    match s.results with
    | [] => none
    | rd :: rest =>
      match s.t.populateResults rd with
      | .ok (t, _, _) =>
        some { s with
          t := t
          used := s.usedAfter rd
          results := rest
          running := fun f ↦ (s.running f).erase (nlmGetJobIndex rd.cookie) }
      | .error _ => none

theorem Unused.free (h : s.Unused j p) (hlife : Lifetime s) : s.FreeJob j ∧ s.FreePd p := by
  obtain ⟨⟨hpos, hlt, hwaiting, hrunning⟩, hne, hpds, hrunningPds⟩ := h
  have hidle : ∀ f, f ∉ s.used → s.running f = [] := fun f hf ↦ (hlife f hf).1
  refine ⟨⟨hpos, hlt, hwaiting, fun f ↦ ?_⟩, ⟨hne, hpds, fun f i hi ↦ ?_⟩⟩
  · by_cases hf : f ∈ s.used
    · exact hrunning f hf
    · rw [hidle f hf]
      exact List.not_mem_nil
  · by_cases hf : f ∈ s.used
    · exact hrunningPds f hf i hi
    · rw [hidle f hf] at hi
      cases hi

theorem resultOf_for (w : Walk) (isFrd : Bool) : ResultFor w isFrd (resultOf w isFrd) := by
  refine ⟨rfl, ?_, ?_⟩
  · change (2 ^ 31).testBit 31 = true
    decide
  · change (if isFrd then fmsFrdResult else fmsPrdResult) * 2 ^ 29 / 2 ^ 29 % 8 = _
    cases isFrd <;> decide

/-- What can be computed is a step. -/
theorem Step.of_move (hlife : Lifetime s) {change : Move} (h : s.move change = some s') :
    Step s s' := by
  cases change with
  | createFlow f pdfIndex =>
    simp only [move] at h
    split_ifs at h with hcond
    cases h
    exact .createFlow hcond.1 hcond.2.1 hcond.2.2 s.t.m
  | changeGroups f groups =>
    simp only [move] at h
    split_ifs at h with hcond
    cases h
    exact .changeGroups f groups hcond
  | enqueue f j p packetByteCount =>
    simp only [move] at h
    split_ifs at h with hcond
    cases h
    obtain ⟨htype, hgroups, hunused, hpos⟩ := hcond
    obtain ⟨hj, hp⟩ := hunused.free hlife
    have hbytes : 0 < (⟨0, 0, packetByteCount⟩ : Payload).packetByteCount := hpos
    exact .enqueue htype hgroups hj hp 0 hbytes s.t.m s.t.packetBase
  | start j =>
    simp only [move] at h
    split at h
    · next f device hflow hcall =>
      split_ifs at h with hcond
      cases h
      exact .start hcond.1 hflow hcond.2 hcall
    · cases h
  | destroy f j p =>
    simp only [move] at h
    split_ifs at h with hcond
    cases h
    obtain ⟨htype, hsent, hgroups, hcombination, hunused⟩ := hcond
    obtain ⟨hj, hp⟩ := hunused.free hlife
    have hbytes : (⟨0, 0, 0⟩ : Payload).packetByteCount = 0 := rfl
    exact .destroy htype hsent hgroups hcombination hj hp 0 hbytes s.t.m s.t.packetBase
  | startChain =>
    simp only [move] at h
    split at h
    · cases h
    · next f rest hlist =>
      split at h
      · next device hcall =>
        cases h
        exact .startChain hlist hcall
      · cases h
  | publish =>
    cases h
    exact .publish
  | take =>
    simp only [move] at h
    split_ifs at h with hsent
    cases h
    exact .take hsent
  | follow =>
    simp only [move] at h
    split at h
    · cases h
    · next w rest hwalks =>
      split_ifs at h with hlast
      all_goals cases h
      · next hprd =>
        refine .follow (hwalks ▸ List.mem_cons_self) hlast (by simp [hprd]) fun rd hrd ↦ ?_
        rw [List.mem_singleton.mp hrd]
        exact resultOf_for w false
      · next hprd =>
        exact .follow (hwalks ▸ List.mem_cons_self) hlast (by simp [hprd]) nofun
  | stop =>
    simp only [move] at h
    split at h
    · cases h
    · next w rest hwalks =>
      split_ifs at h with hlast
      cases h
      exact .stop (hwalks ▸ List.mem_cons_self) hlast (resultOf_for w true)
  | collect =>
    simp only [move] at h
    split at h
    · cases h
    · next rd rest hresults =>
      split at h
      · next t result mark hcall =>
        cases h
        exact .collect hresults hcall
      · cases h

theorem Reaches.moves (hthread : threadId < 256) (hsize : FifoSizeOk size)
    (hrun : Reaches (start threadId size m packetBase policy) s) {changes : List Move}
    (h : changes.foldlM move s = some s') : Reaches (start threadId size m packetBase policy) s' := by
  induction changes generalizing s with
  | nil =>
    cases h
    exact hrun
  | cons change changes ih =>
    rw [List.foldlM_cons] at h
    obtain ⟨s₁, hfirst, hrest⟩ := Option.bind_eq_some_iff.mp h
    exact ih (hrun.tail (.of_move (reached_inv hthread hsize hrun).2 hfirst)) hrest

/-- A thread that attaches to a ring of four FDs without memory of its own. -/
def fresh : ChainRun := start 0 4 noMemory [] 0

/-- A property of the state that some steps lead to is one of a state that is reached. -/
theorem exists_reached (changes : List Move) (Q : ChainRun → Prop)
    (h : ∃ s ∈ changes.foldlM move fresh, Q s) : ∃ s, Reaches fresh s ∧ Q s := by
  obtain ⟨s, hs, hQ⟩ := h
  exact ⟨s, Reaches.moves (by decide) (by decide) .refl hs, hQ⟩

/-- Two jobs are enqueued on flow 1. The hardware has read the link of the first one when the
second one is linked. -/
def lateLink : List Move :=
  [.createFlow 1 1, .changeGroups 1 [1025], .enqueue 1 1 1 100, .enqueue 1 2 2 50, .start 1,
    .startChain, .publish, .take, .start 2, .stop]

/-- The flow goes on from its second job, whose result has not been taken. -/
def onwards : List Move := lateLink ++ [.collect, .startChain, .publish, .take, .stop]

/-- In every run the packets of a flow are scanned in the order in which its jobs were
started, none is passed over, and the jobs that have not been scanned are the last of those
that are not completed. -/
theorem scanned_in_order (hthread : threadId < 256) (hsize : FifoSizeOk size)
    (hrun : Reaches (start threadId size m packetBase policy) s) (f : ℕ) :
    s.started f = s.scanned f ++ s.unscanned f ∧ s.unscanned f <:+ s.running f ∧
      (s.running f).Nodup := by
  obtain ⟨h, -⟩ := reached_inv hthread hsize hrun
  obtain ⟨l, hl⟩ := h.lanes f
  refine ⟨?_, ?_, h.mem.running_nodup f⟩
  · rw [hl.unscanned]
    exact hl.started
  · obtain ⟨front, hfront⟩ := l.opened_eq_append
    rw [hl.unscanned, hl.running, hfront]
    exact List.suffix_append ..

theorem scanned_in_order_sample : ∃ s, Reaches fresh s ∧ s.started 1 = [1, 2] ∧
    s.scanned 1 = [1] ∧ s.unscanned 1 = [2] ∧ s.unscanned 1 <:+ s.running 1 := by
  obtain ⟨s, hrun, hstarted, hscanned⟩ := exists_reached lateLink
    (fun s ↦ s.started 1 = [1, 2] ∧ s.scanned 1 = [1]) (by decide +kernel)
  obtain ⟨horder, hsuffix, -⟩ := scanned_in_order (by decide) (by decide) hrun 1
  rw [hscanned, hstarted] at horder
  exact ⟨s, hrun, hstarted, hscanned, (List.cons.inj horder).2.symm, hsuffix⟩

/-- The places from which a flow goes on: the pending list, the ring, the hardware, and an
FRD that has not been taken. -/
def places (s : ChainRun) (f : ℕ) : ℕ :=
  s.t.device.pendingFlowList.count f + (s.fdsOf f).length + (s.walksOf f).length +
    (s.resultsOf f).countP (·.2)

theorem results_countP (returned : List ℕ) :
    (returned.map fun j ↦ (j, false)).countP (·.2) = 0 := by
  rw [List.countP_eq_zero]
  intro r hr
  obtain ⟨j, -, rfl⟩ := List.mem_map.mp hr
  exact Bool.false_ne_true

theorem Shows.places {l : Lane ℕ} (h : Shows s f l) :
    l = .idle ∧ s.places f = 0 ∨ s.places f = 1 := by
  have hok := h.ok
  have hfds := h.fds
  have hwalks := h.walks
  unfold ChainRun.places
  rw [h.pending, h.results]
  cases l with
  | idle =>
    rw [show s.fdsOf f = [] from hfds, show s.walksOf f = [] from hwalks]
    exact .inl ⟨rfl, rfl⟩
  | pending rest =>
    rw [show s.fdsOf f = [] from hfds, show s.walksOf f = [] from hwalks]
    cases rest with
    | nil => exact absurd rfl hok
    | cons j rest => exact .inr rfl
  | sent c rest =>
    obtain ⟨fd, j, heq, -⟩ := hfds
    rw [heq, show s.walksOf f = [] from hwalks]
    exact .inr rfl
  | walking returned cur c rest =>
    obtain ⟨w, j, heq, -⟩ := hwalks
    rw [heq, show s.fdsOf f = [] from hfds, Lane.results, results_countP]
    exact .inr rfl
  | final returned last rest =>
    rw [show s.fdsOf f = [] from hfds, show s.walksOf f = [] from hwalks, Lane.results,
      List.countP_append, results_countP]
    exact .inr rfl

/-- A flow goes on from at most one place, so that its packets are never scanned twice at
the same time, and from exactly one as long as a packet is left that has not been scanned,
so that a packet which was linked too late is not lost. What is left hangs together, and a
flow on the pending list is handed over from the first job that is left. -/
theorem goes_on_from_one_place (hthread : threadId < 256) (hsize : FifoSizeOk size)
    (hrun : Reaches (start threadId size m packetBase policy) s) (f : ℕ) :
    s.places f ≤ 1 ∧ (s.unscanned f ≠ [] → s.places f = 1) ∧
      s.t.device.Linked (s.unscanned f) ∧
      (f ∈ s.t.device.pendingFlowList → s.unscanned f ≠ [] ∧
        (s.t.device.flows f).pendingPdHead = some (s.t.device.headPd (s.unscanned f))) := by
  obtain ⟨h, -⟩ := reached_inv hthread hsize hrun
  obtain ⟨l, hl⟩ := h.lanes f
  rw [hl.unscanned]
  refine ⟨?_, fun hleft ↦ ?_, ?_, fun hpending ↦ ?_⟩
  · rcases hl.places with ⟨-, hzero⟩ | hone
    · exact hzero.le.trans (Nat.zero_le 1)
    · exact hone.le
  · rcases hl.places with ⟨rfl, -⟩ | hone
    · exact absurd rfl hleft
    · exact hone
  · obtain ⟨front, hfront⟩ := l.opened_eq_append
    have hlinked := h.mem.linked f
    rw [hl.running, hfront] at hlinked
    exact hlinked.of_suffix (List.suffix_append ..)
  · obtain ⟨j, js, hl'⟩ := h.pending hpending
    have hrest := hl'.unscanned
    rw [hl.unscanned] at hrest
    rw [hrest]
    exact ⟨List.cons_ne_nil j js, hl'.head⟩

theorem goes_on_from_one_place_sample : ∃ s, Reaches fresh s ∧ s.unscanned 1 = [2] ∧
    s.places 1 = 1 ∧ (s.t.device.flows 1).pendingPdHead = some (s.t.device.headPd [2]) := by
  obtain ⟨s, hrun, hleft, hlist⟩ := exists_reached (lateLink ++ [.collect])
    (fun s ↦ s.unscanned 1 = [2] ∧ 1 ∈ s.t.device.pendingFlowList) (by decide +kernel)
  obtain ⟨-, hone, -, hhead⟩ := goes_on_from_one_place (by decide) (by decide) hrun 1
  rw [hleft] at hone hhead
  exact ⟨s, hrun, hleft, hone (List.cons_ne_nil 2 []), (hhead hlist).2⟩

/-- The jobs of every flow that are not completed are the last ones that were started. -/
def Completes (s : ChainRun) : Prop := ∀ f, s.running f <:+ s.started f

theorem Completes.append (h : Completes s) (f j g : ℕ) :
    Function.update s.running f (s.running f ++ [j]) g <:+
      Function.update s.started f (s.started f ++ [j]) g := by
  by_cases hg : g = f
  · subst hg
    obtain ⟨front, hfront⟩ := h g
    rw [Function.update_self, Function.update_self, ← hfront, List.append_assoc]
    exact List.suffix_append ..
  · rw [Function.update_of_ne hg, Function.update_of_ne hg]
    exact h g

theorem Step.completes (hstep : Step s s') (h : Inv s) (hlife : Lifetime s) (hs : Completes s) :
    Completes s' := by
  cases hstep with
  | @createFlow f pdfIndex hf hpdf hpdfLt m =>
    intro g
    change s.running g <:+ Function.update s.started f [] g
    by_cases hg : g = f
    · subst hg
      rw [(hlife g hf).1]
      exact List.nil_suffix
    · rw [Function.update_of_ne hg]
      exact hs g
  | start => exact fun g ↦ hs.append _ _ g
  | destroy => exact fun g ↦ hs.append _ _ g
  | take hsent =>
    intro g
    unfold taken
    simp only
    split <;> exact hs g
  | @collect rd rest t result mark hfirst hcall =>
    obtain ⟨f, j, l, hl, hcookie, hresults⟩ := h.firstResult hfirst
    have hfront := running_first hl hresults
    have hindex := (h.mem.running f j (first_mem hl hresults)).index h.mem.thread_lt
    intro g
    change (s.running g).erase (nlmGetJobIndex rd.cookie) <:+ s.started g
    rw [hcookie, hindex]
    by_cases hg : g = f
    · subst hg
      have hsuffix := hs g
      rw [hfront] at hsuffix ⊢
      rw [List.erase_cons_head]
      exact (List.suffix_cons ..).trans hsuffix
    · rw [List.erase_of_not_mem fun hj ↦ hg (h.mem.flow_eq hj (first_mem hl hresults))]
      exact hs g
  | _ => exact hs

theorem Reaches.completes (hrun : Reaches s s') (h : Inv s) (hlife : Lifetime s)
    (hs : Completes s) : Completes s' := by
  induction hrun with
  | refl => exact hs
  | tail hfront hstep ih =>
    obtain ⟨h', hlife'⟩ := Reaches.inv hfront h hlife
    exact hstep.completes h' hlife' ih

/-- The jobs of a flow are completed in the order in which they were started, each once: the
next result of the thread is always for the first job of some flow that is not completed. -/
theorem completed_in_order (hthread : threadId < 256) (hsize : FifoSizeOk size)
    (hrun : Reaches (start threadId size m packetBase policy) s) :
    (∀ f, s.running f <:+ s.started f) ∧
      ∀ rd rest, s.results = rd :: rest → ∃ f j js, s.running f = j :: js ∧
        (s.t.device.jobs j).flow = some f ∧ rd.cookie = nlmEncodeCookie s.t.device.threadId j ∧
          j ∈ s.scanned f := by
  have hstart := inv_start hthread hsize m packetBase policy
  have hlife := lifetime_start threadId size m packetBase policy
  obtain ⟨h, -⟩ := hrun.inv hstart hlife
  have hcompletes := hrun.completes hstart hlife fun _ ↦ List.nil_suffix
  refine ⟨hcompletes, fun rd rest hfirst ↦ ?_⟩
  obtain ⟨f, j, l, hl, hcookie, hresults⟩ := h.firstResult hfirst
  have hrunning := running_first hl hresults
  have hj := first_mem hl hresults
  refine ⟨f, j, _, hrunning, (h.mem.running f j hj).flow, hcookie, ?_⟩
  -- what is left over when the jobs that have not been scanned are taken off both lists
  obtain ⟨done, hdone⟩ := hcompletes f
  obtain ⟨front, hfront⟩ := l.retire.opened_eq_append
  have hrest := (Lane.opened_of_results hresults).2.2
  rw [hrunning, hfront, hrest, hl.started, ← List.cons_append, ← List.append_assoc] at hdone
  rw [← List.append_cancel_right hdone]
  exact List.mem_append_right _ List.mem_cons_self

theorem completed_in_order_sample : ∃ s, ∃ rd : HwResultDescriptor, Reaches fresh s ∧
    s.running 1 = [2] ∧ [2] <:+ s.started 1 ∧ ∃ f j js, s.running f = j :: js ∧
      (s.t.device.jobs j).flow = some f ∧
        rd.cookie = nlmEncodeCookie s.t.device.threadId j ∧ j ∈ s.scanned f := by
  obtain ⟨s, hrun, hrunning, hresults⟩ := exists_reached onwards
    (fun s ↦ s.running 1 = [2] ∧ s.results.length = 1) (by decide +kernel)
  obtain ⟨rd, hrd⟩ := List.length_eq_one_iff.mp hresults
  obtain ⟨hcompletes, hnext⟩ := completed_in_order (by decide) (by decide) hrun
  exact ⟨s, rd, hrun, hrunning, hrunning ▸ hcompletes 1, hnext rd [] hrd⟩

/-! ## Assertions -/

end ChainRun

end NetL7.Packet
