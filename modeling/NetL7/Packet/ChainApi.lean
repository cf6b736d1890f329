import Mathlib.Algebra.GroupWithZero.Nat
import NetL7.Packet.ChainSafety

/-!
# The calls that hand flows over

`nlm_try_start_stateful_flows` hands over the flows on the pending list until the ring is
full, and `nlm_start_jobs` and `nlm_destroy_stateful_flow` call it once they have linked
their jobs. Each of these calls is a run of the steps, whatever the hardware takes from the
ring in between, so that what holds in every run holds after every call.
-/

namespace NetL7.Packet

open NetL7.Lib NlmDevice

namespace ChainRun

/-- A run in which no job is started, and what it makes of the device. -/
structure Handing (s s' : ChainRun) (device : NlmDevice) : Prop where
  reaches : Reaches s s'
  thread : s'.t = { s.t with device := device }
  waiting : s'.waiting = s.waiting
  started : s'.started = s.started
  type : ∀ f, (device.flows f).type = (s.t.device.flows f).type

variable {s s' s'' : ChainRun} {f i j p : ℕ} {device device' : NlmDevice}

theorem Handing.refl (s : ChainRun) : Handing s s s.t.device := ⟨.refl, rfl, rfl, rfl, fun _ ↦ rfl⟩

theorem Handing.device_eq (h : Handing s s' device) : s'.t.device = device := by
  rw [h.thread]

theorem Handing.trans (h : Handing s s' device) (h' : Handing s' s'' device') :
    Handing s s'' device' := by
  refine ⟨h.reaches.trans h'.reaches, ?_, h'.waiting.trans h.waiting,
    h'.started.trans h.started, fun f ↦ ?_⟩
  · rw [h'.thread, h.thread]
  · rw [h'.type, h.device_eq, h.type]

theorem Handing.single {t : Thread} (hstep : Step s { s with t := t })
    (hthread : t = { s.t with device := device })
    (htype : ∀ f, (device.flows f).type = (s.t.device.flows f).type) :
    Handing s { s with t := t } device :=
  ⟨.single hstep, hthread, rfl, rfl, htype⟩

/-! ## The pending list -/

/-- The hardware takes some FDs. -/
theorem Inv.takeFds (h : Inv s) (n : ℕ) : ∃ s', Handing s s' (s.t.device.takeFds n) := by
  induction n generalizing s with
  | zero =>
    rw [takeFds_zero h.ring h.fifo]
    exact ⟨s, .refl s⟩
  | succ n ih =>
    by_cases hsent : s.t.device.inputRdPtr = s.t.device.fdfFifoWrtPtr
    · rw [takeFds_of_eq h.ring h.fifo hsent]
      exact ⟨s, .refl s⟩
    · have htaken : Handing s s.taken s.t.device.takeFd := by
        refine ⟨.single (.take hsent), ?_, ?_, ?_, fun _ ↦ rfl⟩ <;> unfold taken <;> simp only <;>
          split <;> rfl
      obtain ⟨s', hs'⟩ := ih (h.take hsent)
      rw [htaken.device_eq] at hs'
      rw [takeFds_succ h.ring h.fifo hsent]
      exact ⟨s', htaken.trans hs'⟩

theorem Inv.tryStartLoop (h : Inv s) (hlife : Lifetime s) (taken : ℕ → ℕ) (fuel i : ℕ) :
    ∃ device s', tryStartLoop taken fuel i s.t.device = .ok device ∧ Handing s s' device := by
  induction fuel generalizing s i with
  | zero => exact ⟨_, s, rfl, .refl s⟩
  | succ fuel ih =>
    obtain ⟨s₁, hs₁⟩ := h.takeFds (taken i)
    obtain ⟨h₁, hlife₁⟩ := hs₁.reaches.inv h hlife
    unfold NlmDevice.tryStartLoop
    rw [← hs₁.device_eq]
    cases hlist : s₁.t.device.pendingFlowList with
    | nil =>
      simp only [hlist]
      exact ⟨_, s₁, rfl, hs₁.device_eq ▸ hs₁⟩
    | cons f rest =>
      obtain ⟨j, js, hl⟩ :=
        h₁.pending (hlist ▸ List.mem_cons_self : f ∈ s₁.t.device.pendingFlowList)
      have hcall := h₁.startPendingPdChain_eq hl
      cases halloc : s₁.t.device.sysmemAllocFd with
      | none =>
        rw [halloc] at hcall
        simp only [hlist, hcall]
        exact ⟨_, s₁, rfl, hs₁.device_eq ▸ hs₁⟩
      | some r =>
        obtain ⟨slot, d⟩ := r
        rw [halloc] at hcall
        have hs₂ := Handing.single (.startChain hlist hcall) rfl
          (startPendingPdChain_keepsCounts hcall).type_eq
        obtain ⟨h₂, hlife₂⟩ := hs₂.reaches.inv h₁ hlife₁
        obtain ⟨device, s₃, hloop, hs₃⟩ := ih h₂ hlife₂ (i + 1)
        simp only [hlist, hcall]
        exact ⟨device, s₃, hloop, hs₁.trans (hs₂.trans hs₃)⟩

/-- `nlm_try_start_stateful_flows` never fails, and is a run. -/
theorem Inv.tryStart (h : Inv s) (hlife : Lifetime s) (taken : ℕ → ℕ) :
    ∃ device s', s.t.device.nlmTryStartStatefulFlows taken = .ok device ∧
      Handing s s' device := by
  obtain ⟨device, s₁, hloop, hs₁⟩ := h.tryStartLoop hlife taken
    s.t.device.pendingFlowList.length 0
  unfold nlmTryStartStatefulFlows
  rw [hloop]
  by_cases hdirty : (device.swJobFifo.isNone && device.inputWrtPtrDirty) = true
  · refine ⟨_, { s₁ with t := { s₁.t with device := s₁.t.device.nlmDeviceUpdateInputWrtPtr } },
      congrArg Except.ok (if_pos hdirty), ?_⟩
    have hpublish := Handing.single (s := s₁) .publish rfl fun _ ↦ rfl
    rw [hs₁.device_eq] at hpublish ⊢
    exact hs₁.trans hpublish
  · exact ⟨_, s₁, congrArg Except.ok (if_neg hdirty), hs₁⟩

/-! ## Starting jobs -/

/-- Starting one job leaves the other jobs that wait alone. -/
theorem Inv.start_same (h : Inv s) (hj : j ∈ s.waiting) (hflow : (s.t.device.jobs j).flow = some f)
    (hbytes : (s.t.device.flows f).flowOffset +
      (s.t.device.pds (s.t.device.pdIndex j)).packetByteCount < 2 ^ 64)
    (hcall : s.t.device.startStatefulJob j = .ok device) (hi : i ∈ s.waiting) (hne : i ≠ j) :
    SameJob s.t.device device i := by
  have hadd := h.startAdded hj hflow hbytes hcall
  have hmid := h.starting hj hbytes
  have hi' : i ∈ (s.starting f j).waiting := h.mem.waiting_nodup.mem_erase_iff.mpr ⟨hne, hi⟩
  have hsame : SameJob s.t.device (s.starting f j).t.device i := ⟨Function.update_of_ne hne .., rfl⟩
  refine ⟨(hadd.jobs i hne).trans hsame.job, ?_⟩
  rw [← hsame.pdIndex, hadd.pds _ (hadd.new i (.inl hi')), addJobToList_eq]
  refine (if_neg fun hlast ↦ ?_).trans (hsame.pd' ▸ rfl)
  rw [hadd.last] at hlast
  obtain ⟨k, hk, hpd⟩ := Option.map_eq_some_iff.mp hlast
  have hk' := List.mem_of_getLast? hk
  obtain rfl := hmid.mem.pd_inj k i (.inr ⟨f, hk'⟩) (.inl hi') hpd
  exact hmid.mem.disjoint k hi' f hk'

/-- The bytes of the packet of a job. -/
def bytesOf (s : ChainRun) (j : ℕ) : ℕ :=
  (s.t.device.pds (s.t.device.pdIndex j)).packetByteCount

/-- No offset wraps when the jobs are started. -/
def Fits (s : ChainRun) (jobs : List ℕ) : Prop :=
  ∀ j ∈ jobs, ∀ f ∈ (s.t.device.jobs j).flow,
    (s.t.device.flows f).flowOffset + (jobs.map s.bytesOf).sum < 2 ^ 64

instance (s : ChainRun) (jobs : List ℕ) : Decidable (s.Fits jobs) :=
  inferInstanceAs (Decidable (∀ j ∈ jobs, _))

theorem starting_offset_le (s : ChainRun) (f j g : ℕ) :
    ((s.starting f j).t.device.flows g).flowOffset ≤
      (s.t.device.flows g).flowOffset + s.bytesOf j := by
  by_cases hg : g = f
  · subst hg
    rw [starting_flow]
    exact Nat.mod_le ..
  · have heq : (s.starting f j).t.device.flows g = s.t.device.flows g :=
      Function.update_of_ne hg ..
    rw [heq]
    exact Nat.le_add_right ..

theorem Fits.start {jobs : List ℕ} (hfits : s.Fits (j :: jobs)) (h : Inv s)
    (hj : j ∈ s.waiting) (hflow : (s.t.device.jobs j).flow = some f)
    (hbytes : (s.t.device.flows f).flowOffset + s.bytesOf j < 2 ^ 64)
    (hcall : s.t.device.startStatefulJob j = .ok device)
    (hjobs : ∀ i ∈ jobs, i ∈ s.waiting ∧ i ≠ j) : Fits { s with
      t := { s.t with device := device }
      waiting := s.waiting.erase j
      running := Function.update s.running f (s.running f ++ [j])
      started := Function.update s.started f (s.started f ++ [j]) } jobs := by
  intro i hi g hg
  have hsame := fun i (hi : i ∈ jobs) ↦
    h.start_same hj hflow hbytes hcall (hjobs i hi).1 (hjobs i hi).2
  have hoffset := (h.startAdded hj hflow hbytes hcall).field NlmFlow.flowOffset rfl g
  have hle := s.starting_offset_le f j g
  have hmap : jobs.map (fun i ↦ (device.pds (device.pdIndex i)).packetByteCount) =
      jobs.map s.bytesOf := List.map_congr_left fun i hi ↦
    congrArg HwPdDescriptor.packetByteCount (hsame i hi).pd'
  have hfit := hfits i (List.mem_cons_of_mem j hi) g ((congrArg NlmJob.flow (hsame i hi).job) ▸ hg)
  rw [List.map_cons, List.sum_cons] at hfit
  change (device.flows g).flowOffset +
    (jobs.map fun i ↦ (device.pds (device.pdIndex i)).packetByteCount).sum < 2 ^ 64
  rw [hoffset, hmap]
  omega

/-- The last packet of a flow is linked and handed over like any other. -/
theorem Inv.startFinish (h : Inv s) (hlife : Lifetime s)
    (htype : (s.t.device.flows f).type = .stateful)
    (hsent : (s.t.device.flows f).flowOffset ≠ 0)
    (hgroups : (s.t.device.flows f).dbGroupCombination ≠ 0)
    (hcombination : (s.t.device.flows f).dbGroupCombination + 1 < 2 ^ 32)
    (hj : s.FreeJob j) (hp : s.FreePd p) (userCookie : ℕ) {packet : Payload}
    (hbytes : packet.packetByteCount = 0) (m : Allocators) (packetBase : List ℕ)
    (taken : ℕ → ℕ) : ∃ t s', ({ s.t with
        device := s.finishing f j p userCookie packet
        m := m
        packetBase := packetBase } : Thread).startFinish taken f (some j) = .ok (.ok, t) ∧
      Reaches s s' ∧ s'.t = t ∧ (t.device.flows f).type = .invalid := by
  have hstep := Step.destroy htype hsent hgroups hcombination hj hp userCookie hbytes m packetBase
  obtain ⟨device, s', htry, hs'⟩ := (hstep.inv h hlife).tryStart (hstep.lifetime h hlife) taken
  refine ⟨_, s', ?_, .head hstep hs'.reaches, hs'.thread, ?_⟩
  case refine_2 =>
    have hadd := h.destroyAdded htype hj hp userCookie m packetBase hbytes
    refine (hs'.type f).trans ((hadd.field NlmFlow.type rfl f).trans ?_)
    exact congrArg NlmFlow.type (finishing_self s.t f)
  have hpd : ((s.finishing f j p userCookie packet).jobs j).pd = some p :=
    (congrArg NlmJob.pd (Function.update_self ..)).trans rfl
  have hmark : ((s.finishing f j p userCookie packet).pds p).rsv01 = .createdButNotStarted :=
    (congrArg HwPdDescriptor.rsv01 (Function.update_self ..)).trans rfl
  unfold Thread.startFinish
  simp only [Option.bind_some, hpd, hmark]
  change ((NlmDevice.nlmTryStartStatefulFlows taken
    ((s.finishing f j p userCookie packet).addFinish f j p)) >>= _) = _
  rw [htry]
  rfl

/-- With a job slot the last packet cannot be enqueued, and what was taken for it is left
over, or it is enqueued and handed over. -/
theorem Inv.enqueueInSlot (h : Inv s) (hlife : Lifetime s)
    (htype : (s.t.device.flows f).type = .stateful)
    (hsent : (s.t.device.flows f).flowOffset ≠ 0)
    (hgroups : (s.t.device.flows f).dbGroupCombination ≠ 0)
    (hcombination : (s.t.device.flows f).dbGroupCombination + 1 < 2 ^ 32) {m : Allocators}
    (hj : s.FreeJob j) (hpds : ∀ p m', m.allocPd = (some p, m') → s.FreePd p)
    (k : PacketConfig) (taken : ℕ → ℕ) (userCookie : ℕ) : ∃ status t s',
      (match ({ (s.t.invalidated f).nextCombination f with m := m } : Thread).enqueueInSlot k f j
          0 0 userCookie with
      | (status, job, t) =>
        if status ≠ NlmStatus.ok then Except.ok (status, t) else t.startFinish taken f job) =
          .ok (status, t) ∧ Reaches s s' ∧ s'.t = t ∧ (t.device.flows f).type = .invalid := by
  have hfailed := Step.destroyFailed htype
  have hself := finishing_self s.t f
  have hinvalid : (((s.t.invalidated f).nextCombination f).device.flows f).type ≠ .stateless := by
    rw [hself]
    exact NlmFlowType.noConfusion
  have hdevice := finishing_flow s.t f
  unfold Thread.enqueueInSlot
  have hfill : ∀ i, ¬FreeJob { s with
      t := (s.t.invalidated f).nextCombination f
      waiting := s.waitingBut f } i → (((s.t.invalidated f).nextCombination f).fillJob f j
        userCookie).jobs i = ((s.t.invalidated f).nextCombination f).device.jobs i := by
    intro i hi
    refine Function.update_of_ne (fun heq ↦ hi ?_) ..
    rw [heq]
    exact ⟨hj.pos, hj.lt, fun hmem ↦ hj.not_waiting (waitingBut_sublist.subset hmem),
      hj.not_running⟩
  simp only [packetRange, and_self, if_true]
  rw [if_neg hinvalid]
  unfold Thread.enqueueStateful
  rcases hpd : m.allocPd with ⟨_ | p, m'⟩
  · exact ⟨_, _, _, rfl, .head hfailed (.single (.leftover hfill (fun _ _ ↦ rfl) _)), rfl,
      congrArg NlmFlow.type hself⟩
  have hp := hpds p m' hpd
  rcases hstore : storePhysAddr k ((s.t.invalidated f).nextCombination f).packetBase
    k.packetBasePhys with _ | ⟨base, packetBase⟩ <;> simp only
  · have hfree : FreePd { s with
        t := (s.t.invalidated f).nextCombination f
        waiting := s.waitingBut f } p := by
      have hsame : ((s.t.invalidated f).nextCombination f).device.jobs = s.t.device.jobs := by
        rw [hdevice]
        rfl
      refine ⟨hp.ne_zero, fun i hi ↦ ?_, fun g i hi ↦ ?_⟩
      · change (((s.t.invalidated f).nextCombination f).device.jobs i).pd ≠ some p
        rw [hsame]
        exact hp.not_waiting i (waitingBut_sublist.subset hi)
      · change (((s.t.invalidated f).nextCombination f).device.jobs i).pd ≠ some p
        rw [hsame]
        exact hp.not_running g i hi
    have hpdsSame : ∀ q, ¬FreePd { s with
        t := (s.t.invalidated f).nextCombination f
        waiting := s.waitingBut f } q → ((((s.t.invalidated f).nextCombination f).fillJob f j
          userCookie).sysmemFreePd p).pds q =
            ((s.t.invalidated f).nextCombination f).device.pds q := fun q hq ↦
      Function.update_of_ne (fun heq : q = p ↦ hq (heq ▸ hfree)) ..
    exact ⟨_, _, _, rfl, .head hfailed (.single (.leftover hfill hpdsSame _)), rfl,
      congrArg NlmFlow.type hself⟩
  · obtain ⟨t, s', hcall, hstarts, hthread, hafter⟩ := h.startFinish hlife htype hsent hgroups
      hcombination hj hp userCookie
      (show (Payload.mk base (k.packetBasePhys % 2 ^ 32) 0).packetByteCount = 0 from rfl) m'
      packetBase taken
    exact ⟨_, t, s', hcall, hstarts, hthread, hafter⟩

theorem finishing_withLink (t : Thread) (c : ThreadConfig) (f : ℕ) :
    ((t.invalidated f).nextCombination f).withLink c =
      ((t.withLink c).invalidated f).nextCombination f := by
  have hm : ((t.invalidated f).nextCombination f).m = t.m := rfl
  unfold Thread.withLink
  rw [hm]
  split
  · rfl
  · rfl

/-- The link in the slot that is handed out next is left over from its last job. -/
theorem step_withLink {c : ThreadConfig}
    (hfree : ∀ j ∈ s.t.m.pool.jobList.head?, s.FreeJob j) :
    Step s { s with t := s.t.withLink c } := by
  unfold Thread.withLink
  split
  · exact .leftover (fun _ _ ↦ rfl) (fun _ _ ↦ rfl) s.t.m
  · next j jobs hlist =>
    rw [hlist] at hfree
    refine .leftover (fun i hi ↦ Function.update_of_ne (fun heq ↦ hi ?_) ..) (fun _ _ ↦ rfl) s.t.m
    exact heq ▸ hfree j rfl

/-- The last packet cannot be enqueued, and what was taken for it is left over, or it is
enqueued and handed over. The allocators hand out what no job in use has. -/
theorem Inv.enqueueFinish (h : Inv s) (hlife : Lifetime s)
    (htype : (s.t.device.flows f).type = .stateful)
    (hsent : (s.t.device.flows f).flowOffset ≠ 0)
    (hgroups : (s.t.device.flows f).dbGroupCombination ≠ 0)
    (hcombination : (s.t.device.flows f).dbGroupCombination + 1 < 2 ^ 32) {c : ThreadConfig}
    (hjobs : ∀ j m, s.t.m.allocJob c = (some j, m) → s.FreeJob j ∧
      ∀ p m', m.allocPd = (some p, m') → s.FreePd p) (k : PacketConfig) (taken : ℕ → ℕ)
    (userCookie : ℕ) : ∃ status t s', (match s.t.enqueueFinish c k f userCookie with
      | (status, job, t) =>
        if status ≠ NlmStatus.ok then Except.ok (status, t) else t.startFinish taken f job) =
          .ok (status, t) ∧ Reaches s s' ∧ s'.t = t ∧ (t.device.flows f).type = .invalid := by
  unfold Thread.enqueueFinish Thread.nlmFlowEnqueueSearch1
  have halloc : ((s.t.invalidated f).nextCombination f).m.allocJob c = s.t.m.allocJob c := rfl
  rw [halloc]
  rcases hjob : s.t.m.allocJob c with ⟨_ | j, m⟩
  · exact ⟨_, _, _, rfl, .single (.destroyFailed htype), rfl,
      congrArg NlmFlow.type (finishing_self s.t f)⟩
  obtain ⟨hj, hpds⟩ := hjobs j m hjob
  have hhead : ∀ i ∈ s.t.m.pool.jobList.head?, s.FreeJob i := fun i hi ↦ by
    obtain ⟨rest, hlist⟩ := List.head?_eq_some_iff.mp hi
    simp only [Allocators.allocJob, MemoryPool.memoryPoolAllocJob, hlist, Prod.mk.injEq,
      Option.some.injEq] at hjob
    exact hjob.1 ▸ hj
  have hlink := step_withLink (c := c) hhead
  have hpdsLink : ∀ p m', m.allocPd = (some p, m') →
      FreePd { s with t := s.t.withLink c } p := fun p m' hpd ↦ by
    obtain ⟨hzero, hwait, hrun⟩ := hpds p m' hpd
    refine ⟨hzero, fun i hi ↦ ?_, fun g i hi ↦ ?_⟩
    · rw [Thread.withLink_pd]
      exact hwait i hi
    · rw [Thread.withLink_pd]
      exact hrun g i hi
  obtain ⟨hafter, hlifeAfter⟩ := Reaches.inv (.single hlink) h hlife
  rw [← Thread.withLink_flows (c := c)] at htype hsent hgroups hcombination
  have hlast := hafter.enqueueInSlot hlifeAfter htype hsent hgroups hcombination
    ⟨hj.pos, hj.lt, hj.not_waiting, hj.not_running⟩ hpdsLink k taken userCookie
  obtain ⟨status, t, s', hcall, hsteps, hthread, hinvalid⟩ := hlast
  refine ⟨status, t, s', ?_, .head hlink hsteps, hthread, hinvalid⟩
  simp only [finishing_withLink]
  exact hcall

variable {threadId size policy : ℕ} {m : Allocators} {packetBase : List ℕ}

/-- The allocators have handed out every job and every PD in use, and no job yet whose index
does not fit into a cookie. -/
structure HandedOut (c : ThreadConfig) (s : ChainRun) (a : AllocRun) : Prop where
  reachable : AllocRun.Reachable c a
  allocators : a.m = s.t.m
  few : a.m.pool.firstFreeJob < 2 ^ 24
  waiting : ∀ j ∈ s.waiting, j ∈ a.jobs ∧ ∀ p ∈ (s.t.device.jobs j).pd, p ∈ a.pds
  running : ∀ f, ∀ j ∈ s.running f, j ∈ a.jobs ∧ ∀ p ∈ (s.t.device.jobs j).pd, p ∈ a.pds

variable {c : ThreadConfig} {a : AllocRun}

theorem HandedOut.freeJob (h : HandedOut c s a) (hc : c.Accepted) {m : Allocators}
    (halloc : s.t.m.allocJob c = (some j, m)) : s.FreeJob j ∧ m.pds = s.t.m.pds := by
  have hinv := (h.reachable.inv hc).jobs
  rw [← h.allocators] at halloc ⊢
  unfold Allocators.allocJob at halloc
  cases hjob : a.m.pool.memoryPoolAllocJob c.pool with
  | none => simp [hjob] at halloc
  | some r =>
    obtain ⟨i, pool⟩ := r
    simp only [hjob, Prod.mk.injEq, Option.some.injEq] at halloc
    obtain ⟨rfl, rfl⟩ := halloc
    obtain ⟨hnot, -⟩ := List.nodup_cons.mp (hinv.alloc hjob).nodup
    have hfresh : i ∉ a.jobs := fun hi ↦ hnot (List.mem_append_left _ hi)
    have hslot : 0 < i ∧ i ≤ a.m.pool.firstFreeJob := by
      obtain ⟨js, hlist, -⟩ | ⟨-, rfl, -⟩ := AllocRun.memoryPoolAllocJob_cases hjob
      · obtain ⟨hpos, hlt⟩ := hinv.slot i (List.mem_append_right _ (hlist ▸ List.mem_cons_self))
        exact ⟨hpos, hlt.le⟩
      · exact ⟨hinv.first_pos, le_rfl⟩
    exact ⟨⟨hslot.1, hslot.2.trans_lt h.few, fun hi ↦ hfresh (h.waiting i hi).1,
      fun f hi ↦ hfresh (h.running f i hi).1⟩, rfl⟩

theorem HandedOut.freePd (h : HandedOut c s a) (hc : c.Accepted) {m m' : Allocators}
    (hpds : m.pds = s.t.m.pds) (halloc : m.allocPd = (some p, m')) : s.FreePd p := by
  have hinv := (h.reachable.inv hc).pds
  have halloc' : a.m.pds.sysmemAllocPd.1 = some p := by
    rw [h.allocators, ← hpds]
    exact congrArg Prod.fst halloc
  have hnodup := hinv.alloc.nodup
  have hslot := hinv.alloc.slot p
  rw [halloc'] at hnodup hslot
  obtain ⟨hnot, -⟩ := List.nodup_cons.mp hnodup
  have hfresh : p ∉ a.pds := fun hp ↦ hnot (List.mem_append_left _ hp)
  refine ⟨?_, fun i hi heq ↦ hfresh ((h.waiting i hi).2 p heq),
    fun f i hi heq ↦ hfresh ((h.running f i hi).2 p heq)⟩
  exact ((AllocRun.pdStart_pos c).trans_le (hslot List.mem_cons_self).1).ne'

end ChainRun

end NetL7.Packet
