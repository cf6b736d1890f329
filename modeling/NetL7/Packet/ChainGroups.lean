import NetL7.Packet.ChainSafety

/-!
# The groups a packet is searched with

All packets that the hardware reaches from one FD are searched with the groups of that FD.
The groups of a flow may change while its packets are on the way, so the chain is cut with
`sw_disconnect` wherever the combination of groups changes. The number of a combination is
never used for other groups as long as it can be found in a job of the flow.
-/

namespace NetL7.Packet

open NetL7.Lib NlmDevice

/-- The groups that an FD names. -/
def HwFdDescriptor.groups (fd : HwFdDescriptor) : ℕ × List ℕ :=
  (fd.gidCnt, [fd.gid0, fd.gid1, fd.gid2, fd.gid3, fd.gid4, fd.gid5])

/-- The groups of a flow as an FD names them. -/
def NlmFlow.groups (flow : NlmFlow) : ℕ × List ℕ :=
  (flow.dbGroupId.length, (List.range 6).map fun i ↦ flow.dbGroupId.getD i 0)

namespace NlmDevice

/-- The number of the combination of groups of a job. -/
def combination (d : NlmDevice) (j : ℕ) : ℕ := (d.jobs j).dbGroupCombination

/-- The groups of a job. -/
def jobGroups (d : NlmDevice) (j : ℕ) : ℕ × List ℕ := (d.jobs j).fd.groups

/-- The hardware goes on from a packet to the next one only if they are searched with the same
groups. -/
def Joined (d : NlmDevice) (i j : ℕ) : Prop :=
  d.combination i = d.combination j ∨ (d.pds (d.pdIndex i)).swDisconnect = true

/-- A job that has kept its flow and its groups. -/
structure Kept (d d' : NlmDevice) (j : ℕ) : Prop where
  flow : (d'.jobs j).flow = (d.jobs j).flow
  combination : d'.combination j = d.combination j
  groups : d'.jobGroups j = d.jobGroups j
  index : d'.pdIndex j = d.pdIndex j
  cut : (d.pds (d.pdIndex j)).swDisconnect = true →
    (d'.pds (d'.pdIndex j)).swDisconnect = true
  term : (d'.pds (d'.pdIndex j)).flowTerm = (d.pds (d.pdIndex j)).flowTerm

theorem SameJob.kept {d d' : NlmDevice} {j : ℕ} (h : SameJob d d' j) : Kept d d' j := by
  refine ⟨congrArg _ h.job, congrArg NlmJob.dbGroupCombination h.job,
    congrArg (fun job : NlmJob ↦ job.fd.groups) h.job, h.pdIndex, fun hcut ↦ ?_,
    congrArg HwPdDescriptor.flowTerm h.pd'⟩
  rw [h.pd']
  exact hcut

theorem Kept.trans {d d' d'' : NlmDevice} {j : ℕ} (h : Kept d d' j) (h' : Kept d' d'' j) :
    Kept d d'' j :=
  ⟨h'.flow.trans h.flow, h'.combination.trans h.combination, h'.groups.trans h.groups,
    h'.index.trans h.index, fun hcut ↦ h'.cut (h.cut hcut), h'.term.trans h.term⟩

end NlmDevice

namespace ChainRun

/-- A job of a flow that is in use. -/
structure On (s : ChainRun) (f j : ℕ) : Prop where
  live : s.Live j
  flow : (s.t.device.jobs j).flow = some f

/-- A combination stands for the same groups in all jobs of a flow, and no job has one that
is newer than that of its flow. -/
structure JobGroups (s : ChainRun) (f : ℕ) : Prop where
  now : (s.t.device.flows f).type = .stateful → ∀ j, s.On f j →
    s.t.device.combination j ≤ (s.t.device.flows f).dbGroupCombination ∧
      (s.t.device.combination j = (s.t.device.flows f).dbGroupCombination →
        s.t.device.jobGroups j = (s.t.device.flows f).groups)
  same : ∀ i j, s.On f i → s.On f j → s.t.device.combination i = s.t.device.combination j →
    s.t.device.jobGroups i = s.t.device.jobGroups j

/-- The chain of a flow is cut wherever the combination changes. The last packet of a flow
has a combination of its own. -/
structure ChainGroups (s : ChainRun) (f : ℕ) : Prop where
  last : ∀ j ∈ (s.running f).getLast?,
    (s.t.device.flows f).lastDbGroupCombination = s.t.device.combination j
  chain : (s.running f).IsChain s.t.device.Joined
  own : ∀ j ∈ s.running f, (s.t.device.pds (s.t.device.pdIndex j)).flowTerm = true →
    ∀ i ∈ s.running f, s.t.device.combination i = s.t.device.combination j → i = j

/-- What the hardware has read, or finds in the ring. -/
def Read (s : ChainRun) (w : Walk) : Prop :=
  w ∈ s.walks ∨ ∃ fd ∈ s.t.device.ringFds, s.t.device.owns fd = true ∧ w = .ofFd fd

/-- A descriptor names the groups of its job, and so does the next one it leads to. The last
packet of a flow has an FD of its own. -/
structure Copied (s : ChainRun) (w : Walk) : Prop where
  groups : w.fd.groups = s.t.device.jobGroups (nlmGetJobIndex w.cookie)
  next : w.last = false → ∀ j, s.Live j → s.t.device.pdIndex j = w.pdNlaIndex →
    s.t.device.combination j = s.t.device.combination (nlmGetJobIndex w.cookie)
  alone : (s.t.device.pds (s.t.device.pdIndex (nlmGetJobIndex w.cookie))).flowTerm = true →
    w.fd.cookie = w.cookie

structure Grouped (s : ChainRun) : Prop where
  jobs : ∀ f, JobGroups s f
  chains : ∀ f, ChainGroups s f
  read : ∀ w, s.Read w → s.Copied w

variable {s s' : ChainRun} {f g i j p : ℕ} {w : Walk} {device : NlmDevice}

/-! ## Jobs -/

/-- No job of a flow is new, and its combination has not changed or is newer. -/
theorem JobGroups.shrink (h : JobGroups s f)
    (hon : ∀ j, s'.On f j → s.On f j ∧ Kept s.t.device s'.t.device j)
    (hflow : ∀ j, s'.On f j → (s'.t.device.flows f).type = .stateful →
      (s.t.device.flows f).type = .stateful ∧
        ((s.t.device.flows f).dbGroupCombination < (s'.t.device.flows f).dbGroupCombination ∨
          (s'.t.device.flows f).dbGroupCombination = (s.t.device.flows f).dbGroupCombination ∧
            (s'.t.device.flows f).dbGroupId = (s.t.device.flows f).dbGroupId)) :
    JobGroups s' f := by
  refine ⟨fun hs j hj ↦ ?_, fun i j hi hj heq ↦ ?_⟩
  · obtain ⟨hs, hchange⟩ := hflow j hj hs
    obtain ⟨hj, hkept⟩ := hon j hj
    obtain ⟨hle, hnow⟩ := h.now hs j hj
    rw [hkept.combination, hkept.groups]
    rcases hchange with hlt | ⟨hcombination, hgroups⟩
    · exact ⟨hle.trans hlt.le, fun heq ↦ absurd (heq ▸ hle) (Nat.not_le_of_lt hlt)⟩
    · rw [hcombination]
      refine ⟨hle, fun heq ↦ (hnow heq).trans ?_⟩
      unfold NlmFlow.groups
      rw [hgroups]
  · obtain ⟨hi, hki⟩ := hon i hi
    obtain ⟨hj, hkj⟩ := hon j hj
    rw [hki.combination, hkj.combination] at heq
    rw [hki.groups, hkj.groups]
    exact h.same i j hi hj heq

/-- A flow gets a job. -/
theorem JobGroups.add (h : JobGroups s f)
    (hon : ∀ i, s'.On f i → i = j ∨ s.On f i ∧ Kept s.t.device s'.t.device i)
    (hold : ∀ i, s.On f i → s.t.device.combination i ≤ s'.t.device.combination j ∧
      (s.t.device.combination i = s'.t.device.combination j →
        s.t.device.jobGroups i = s'.t.device.jobGroups j))
    (hnew : (s'.t.device.flows f).type = .stateful →
      s'.t.device.combination j = (s'.t.device.flows f).dbGroupCombination ∧
        s'.t.device.jobGroups j = (s'.t.device.flows f).groups) : JobGroups s' f := by
  refine ⟨fun hs i hi ↦ ?_, fun i k hi hk heq ↦ ?_⟩
  · obtain ⟨hcombination, hgroups⟩ := hnew hs
    rw [← hcombination, ← hgroups]
    rcases hon i hi with rfl | ⟨hi, hkept⟩
    · exact ⟨le_rfl, fun _ ↦ rfl⟩
    · rw [hkept.combination, hkept.groups]
      exact hold i hi
  · rcases hon i hi with rfl | ⟨hi, hki⟩
    · rcases hon k hk with rfl | ⟨hk, hkk⟩
      · rfl
      · rw [hkk.combination] at heq
        rw [hkk.groups]
        exact ((hold k hk).2 heq.symm).symm
    · rw [hki.combination] at heq
      rw [hki.groups]
      rcases hon k hk with rfl | ⟨hk, hkk⟩
      · exact (hold i hi).2 heq
      · rw [hkk.combination] at heq
        rw [hkk.groups]
        exact h.same i k hi hk heq

/-! ## Chains -/

theorem Joined.kept {d d' : NlmDevice} (h : d.Joined i j) (hi : Kept d d' i) (hj : Kept d d' j) :
    d'.Joined i j := by
  rcases h with heq | hcut
  · exact .inl (hi.combination.trans (heq.trans hj.combination.symm))
  · exact .inr (hi.cut hcut)

/-- No job is put at the end of the chain. -/
theorem ChainGroups.shrink (h : ChainGroups s f) (hrunning : s'.running f <:+ s.running f)
    (hkept : ∀ j ∈ s'.running f, Kept s.t.device s'.t.device j)
    (hlast : s'.running f ≠ [] → (s'.t.device.flows f).lastDbGroupCombination =
      (s.t.device.flows f).lastDbGroupCombination) : ChainGroups s' f := by
  refine ⟨fun j hj ↦ ?_, ?_, fun j hj hterm i hi heq ↦ ?_⟩
  · have hmem := List.mem_of_getLast? hj
    have hne := List.ne_nil_of_mem hmem
    rw [hlast hne, (hkept j hmem).combination]
    exact h.last j (getLast?_of_suffix hrunning hne ▸ hj)
  · exact (h.chain.suffix hrunning).imp_of_mem_imp fun i j hi hj hij ↦
      Joined.kept hij (hkept i hi) (hkept j hj)
  · rw [(hkept i hi).combination, (hkept j hj).combination] at heq
    rw [(hkept j hj).term] at hterm
    exact h.own j (hrunning.subset hj) hterm i (hrunning.subset hi) heq

/-- A job is put at the end of the chain. -/
theorem ChainGroups.append (h : ChainGroups s f) (hrunning : s'.running f = s.running f ++ [j])
    (hkept : ∀ i ∈ s.running f, Kept s.t.device s'.t.device i)
    (hcut : ∀ i ∈ (s.running f).getLast?,
      s'.t.device.combination j ≠ (s.t.device.flows f).lastDbGroupCombination →
        (s'.t.device.pds (s'.t.device.pdIndex i)).swDisconnect = true)
    (hlast : (s'.t.device.flows f).lastDbGroupCombination = s'.t.device.combination j)
    (hterm : ∀ i ∈ s.running f, (s.t.device.pds (s.t.device.pdIndex i)).flowTerm = false)
    (hown : (s'.t.device.pds (s'.t.device.pdIndex j)).flowTerm = true →
      ∀ i ∈ s.running f, s.t.device.combination i ≠ s'.t.device.combination j) :
    ChainGroups s' f := by
  refine ⟨fun i hi ↦ ?_, ?_, fun k hk hflag i hi heq ↦ ?_⟩
  · rw [hrunning, List.getLast?_append] at hi
    obtain rfl : j = i := Option.some.inj hi
    exact hlast
  · rw [hrunning]
    have hold : (s.running f).IsChain s'.t.device.Joined := h.chain.imp_of_mem_imp
      fun i k hi hk hik ↦ Joined.kept hik (hkept i hi) (hkept k hk)
    refine hold.append (List.isChain_singleton j) fun i hi k hk ↦ ?_
    obtain rfl : j = k := Option.some.inj hk
    by_cases heq : s'.t.device.combination j = (s.t.device.flows f).lastDbGroupCombination
    · refine .inl ?_
      rw [heq, h.last i hi]
      exact (hkept i (List.mem_of_getLast? hi)).combination
    · exact .inr (hcut i hi heq)
  · rw [hrunning] at hk hi
    rcases List.mem_append.mp hk with hk | hk
    · exact absurd ((hterm k hk).symm.trans ((hkept k hk).term.symm.trans hflag)) (by decide)
    · obtain rfl := List.mem_singleton.mp hk
      rcases List.mem_append.mp hi with hi | hi
      · exact absurd ((hkept i hi).combination.symm.trans heq) (hown hflag i hi)
      · exact List.mem_singleton.mp hi

/-! ## The hardware -/

/-- What the hardware has read belongs to a job that runs, and leads to one that runs. -/
theorem Inv.read (h : Inv s) (hw : s.Read w) : ∃ f j, j ∈ s.running f ∧
    w.cookie = nlmEncodeCookie s.t.device.threadId j ∧
    (w.last = false → ∃ k ∈ s.running f, w.pdNlaIndex = s.t.device.pdIndex k) := by
  rcases hw with hw | ⟨fd, hfd, hours, rfl⟩
  · obtain ⟨f, returned, cur, c, rest, j, hl, -, -, hshows, hj⟩ := h.walking hw
    refine ⟨f, j, hj, hshows.cookie, fun hlast ↦ ?_⟩
    obtain ⟨k, js, -, hindex, hk, -⟩ := h.next hl hshows hlast
    exact ⟨k, hk, hindex⟩
  · obtain ⟨f, c, j, js, hl, -, hshows, hj⟩ := h.sent hfd hours
    refine ⟨f, j, hj, hshows.cookie, fun hlast ↦ ?_⟩
    have hne : (Walk.ofFd fd).pdNlaIndex ≠ 0 := by
      intro hzero
      simp [Walk.last, hzero] at hlast
    have hlink := hshows.link
    cases hc : c.link with
    | none =>
      rw [hc] at hlink
      exact absurd hlink hne
    | some k =>
      rw [hc] at hlink
      refine ⟨k, ?_, hlink⟩
      rw [hl.running]
      rcases hl.ok.2 with ⟨-, hcopy⟩ | ⟨-, -, -, hhead⟩
      · exact List.mem_cons_of_mem j (copy_mem hcopy hc)
      · exact List.mem_of_head? (hhead.symm.trans hc)

theorem Inv.read_index (h : Inv s) (hw : s.Read w) :
    ∃ f, nlmGetJobIndex w.cookie ∈ s.running f := by
  obtain ⟨f, j, hj, hcookie, -⟩ := h.read hw
  refine ⟨f, ?_⟩
  rw [hcookie, (h.mem.running f j hj).index h.mem.thread_lt]
  exact hj

/-- The jobs that a descriptor is about have not changed. -/
theorem Copied.frame (h : s.Copied w) (hinv : Inv s) (hw : s.Read w)
    (hlive : ∀ j, s'.Live j → s.Live j ∨ ∀ i, s.Live i →
      s.t.device.pdIndex i ≠ s'.t.device.pdIndex j)
    (hkept : ∀ j, s.Live j → s'.Live j → Kept s.t.device s'.t.device j)
    (hself : s'.Live (nlmGetJobIndex w.cookie)) : s'.Copied w := by
  obtain ⟨f, hindex⟩ := hinv.read_index hw
  have hkeptSelf := hkept _ (.inr ⟨f, hindex⟩) hself
  refine ⟨h.groups.trans hkeptSelf.groups.symm, fun hlast j hj hpd ↦ ?_,
    fun hterm ↦ h.alone (hkeptSelf.term.symm.trans hterm)⟩
  have hj' : s.Live j := by
    rcases hlive j hj with hj' | hnew
    · exact hj'
    · obtain ⟨g, -, -, -, hlink⟩ := hinv.read hw
      obtain ⟨k, hk, hpd'⟩ := hlink hlast
      exact absurd (hpd'.symm.trans hpd.symm) (hnew k (.inr ⟨g, hk⟩))
  have hkeptJob := hkept j hj' hj
  rw [hkeptJob.index] at hpd
  rw [hkeptJob.combination, hkeptSelf.combination]
  exact h.next hlast j hj' hpd

/-- The PD of a job that is not cut off leads to a job with the same groups. -/
theorem Grouped.next (h : Grouped s) (hmem : Mem s) (hj : j ∈ s.running f)
    (hcut : (s.t.device.pds (s.t.device.pdIndex j)).swDisconnect = false) (hi : s.Live i)
    (hpd : s.t.device.pdIndex i = (s.t.device.pds (s.t.device.pdIndex j)).pdNla.pdNlaIndex) :
    s.t.device.combination i = s.t.device.combination j := by
  obtain ⟨front, js, hrunning⟩ := List.append_of_mem hj
  have hsuffix : j :: js <:+ s.running f := ⟨front, hrunning.symm⟩
  have hlinked := ((hmem.linked f).of_suffix hsuffix).1
  have hchain := (h.chains f).chain.suffix hsuffix
  cases js with
  | nil =>
    obtain ⟨g, hok⟩ := hmem.jobOk hi
    exact absurd (hpd.trans hlinked) hok.ne_zero
  | cons k js =>
    have hk : k ∈ s.running f := hsuffix.subset (by simp)
    obtain rfl := hmem.pd_inj i k hi (.inr ⟨f, hk⟩) (hpd.trans hlinked)
    rcases (List.isChain_cons_cons.mp hchain).1 with heq | htrue
    · exact heq.symm
    · exact absurd (hcut.symm.trans htrue) (by decide)

/-! ## Steps -/

/-- A step that puts no job anywhere and changes one flow. -/
theorem Grouped.frame (h : Grouped s) (hinv : Inv s) (hinv' : Inv s') (f : ℕ)
    (hlive : ∀ j, s'.Live j → s.Live j)
    (hkept : ∀ j, s'.Live j → Kept s.t.device s'.t.device j)
    (hrunning : ∀ g, s'.running g <:+ s.running g)
    (hother : ∀ g, g ≠ f → s'.t.device.flows g = s.t.device.flows g)
    (hlast : s'.running f ≠ [] → (s'.t.device.flows f).lastDbGroupCombination =
      (s.t.device.flows f).lastDbGroupCombination)
    (hflow : ∀ j, s'.On f j → (s'.t.device.flows f).type = .stateful →
      (s.t.device.flows f).type = .stateful ∧ ((s.t.device.flows f).dbGroupCombination <
        (s'.t.device.flows f).dbGroupCombination ∨
          (s'.t.device.flows f).dbGroupCombination = (s.t.device.flows f).dbGroupCombination ∧
            (s'.t.device.flows f).dbGroupId = (s.t.device.flows f).dbGroupId))
    (hread : ∀ w, s'.Read w → s.Read w ∨ s'.Copied w) : Grouped s' := by
  refine ⟨fun g ↦ ?_, fun g ↦ ?_, fun w hw ↦ ?_⟩
  · refine (h.jobs g).shrink (fun j hj ↦ ?_) fun j hj hs ↦ ?_
    · have hkeep := hkept j hj.live
      exact ⟨⟨hlive j hj.live, hkeep.flow.symm.trans hj.flow⟩, hkeep⟩
    · by_cases hg : g = f
      · subst hg
        exact hflow j hj hs
      · rw [hother g hg] at hs ⊢
        exact ⟨hs, .inr ⟨rfl, rfl⟩⟩
  · refine (h.chains g).shrink (hrunning g) (fun j hj ↦ hkept j (.inr ⟨g, hj⟩)) fun hne ↦ ?_
    by_cases hg : g = f
    · subst hg
      exact hlast hne
    · rw [hother g hg]
  · rcases hread w hw with hold | hnew
    · obtain ⟨g, hg⟩ := hinv'.read_index hw
      exact (h.read w hold).frame hinv hold (fun j hj ↦ .inl (hlive j hj))
        (fun j _ hj ↦ hkept j hj) (.inr ⟨g, hg⟩)
    · exact hnew

/-- A step that leaves the flows and the jobs alone. -/
theorem Grouped.same (h : Grouped s) (hinv : Inv s) (hinv' : Inv s')
    (hflows : s'.t.device.flows = s.t.device.flows) (hlive : ∀ j, s'.Live j → s.Live j)
    (hkept : ∀ j, s'.Live j → Kept s.t.device s'.t.device j) (hrunning : s'.running = s.running)
    (hread : ∀ w, s'.Read w → s.Read w ∨ s'.Copied w) : Grouped s' := by
  refine h.frame hinv hinv' 0 hlive hkept (fun g ↦ hrunning ▸ List.suffix_rfl)
    (fun g _ ↦ congrFun hflows g) (fun _ ↦ ?_) (fun j _ hs ↦ ?_) hread
  · rw [hflows]
  · rw [hflows] at hs ⊢
    exact ⟨hs, .inr ⟨rfl, rfl⟩⟩

/-- What is in the ring is the same. -/
theorem Read.same (hw : s'.Read w) (hring : s'.t.device.ringFds = s.t.device.ringFds)
    (hthread : s'.t.device.threadId = s.t.device.threadId) (hwalks : s'.walks = s.walks) :
    s.Read w := by
  rcases hw with hw | ⟨fd, hfd, hours, rfl⟩
  · exact .inl (hwalks ▸ hw)
  · rw [hring] at hfd
    rw [owns_congr hthread] at hours
    exact .inr ⟨fd, hfd, hours, rfl⟩

section Enqueue

variable (d : NlmDevice) (userCookie : ℕ) (packet : Payload)

theorem enqueueStateful_job : (d.enqueueStateful f j p userCookie packet).jobs j =
    { (d.jobs j).ofFlow (d.flows f) f userCookie (nlmEncodeCookie d.threadId j) with
      pd := some p } := Function.update_self ..

theorem enqueueStateful_combination :
    (d.enqueueStateful f j p userCookie packet).combination j =
      (d.flows f).dbGroupCombination :=
  (congrArg NlmJob.dbGroupCombination (enqueueStateful_job d userCookie packet)).trans rfl

theorem enqueueStateful_groups :
    (d.enqueueStateful f j p userCookie packet).jobGroups j = (d.flows f).groups :=
  (congrArg (fun job : NlmJob ↦ job.fd.groups) (enqueueStateful_job d userCookie packet)).trans rfl

end Enqueue

/-- A job gets the groups that its flow has. -/
theorem Grouped.enqueue (h : Grouped s) (hinv : Inv s)
    (htype : (s.t.device.flows f).type = .stateful) (hj : s.FreeJob j) (hp : s.FreePd p) (userCookie : ℕ) (packet : Payload) (m : Allocators)
    (packetBase : List ℕ) (hinv' : Inv { s with
      t := { s.t with
        device := s.t.device.enqueueStateful f j p userCookie packet
        m := m
        packetBase := packetBase }
      waiting := j :: s.waiting }) : Grouped { s with
        t := { s.t with
          device := s.t.device.enqueueStateful f j p userCookie packet
          m := m
          packetBase := packetBase }
        waiting := j :: s.waiting } := by
  have hkept : ∀ i, s.Live i →
      Kept s.t.device (s.t.device.enqueueStateful f j p userCookie packet) i := fun i hi ↦
    (enqueueStateful_same _ userCookie packet (fun heq : i = j ↦ hj.not_live (heq ▸ hi))
      (hp.ne hinv.mem hi)).kept
  have hlive : ∀ i, (i ∈ j :: s.waiting ∨ ∃ f, i ∈ s.running f) → i = j ∨ s.Live i := by
    rintro i (hi | hi)
    · exact (List.mem_cons.mp hi).imp_right .inl
    · exact .inr (.inr hi)
  have hjob := enqueueStateful_job (f := f) (j := j) (p := p) s.t.device userCookie packet
  have hcombination := enqueueStateful_combination (f := f) (j := j) (p := p) s.t.device userCookie
    packet
  have hgroups := enqueueStateful_groups (f := f) (j := j) (p := p) s.t.device userCookie packet
  have hindex : (s.t.device.enqueueStateful f j p userCookie packet).pdIndex j = p := by
    unfold NlmDevice.pdIndex
    rw [hjob]
    rfl
  refine ⟨fun g ↦ ?_, fun g ↦ ?_, fun w hw ↦ ?_⟩
  · by_cases hg : g = f
    · subst hg
      refine (h.jobs g).add (j := j) (fun i hi ↦ ?_) (fun i hi ↦ ?_) fun _ ↦
        ⟨hcombination, hgroups⟩
      · rcases hlive i hi.live with rfl | hlive
        · exact .inl rfl
        · exact .inr ⟨⟨hlive, (hkept i hlive).flow.symm.trans hi.flow⟩, hkept i hlive⟩
      · change _ ≤ (s.t.device.enqueueStateful g j p userCookie packet).combination j ∧ (_ =
          (s.t.device.enqueueStateful g j p userCookie packet).combination j → _ =
            (s.t.device.enqueueStateful g j p userCookie packet).jobGroups j)
        rw [hcombination, hgroups]
        exact (h.jobs g).now htype i hi
    · refine (h.jobs g).shrink (fun i hi ↦ ?_) fun i _ hs ↦ ⟨hs, .inr ⟨rfl, rfl⟩⟩
      rcases hlive i hi.live with rfl | hlive
      · have hflow := hi.flow
        change ((s.t.device.enqueueStateful f i p userCookie packet).jobs i).flow = some g at hflow
        rw [hjob] at hflow
        exact absurd (Option.some.inj hflow).symm hg
      · exact ⟨⟨hlive, (hkept i hlive).flow.symm.trans hi.flow⟩, hkept i hlive⟩
  · exact (h.chains g).shrink List.suffix_rfl (fun i hi ↦ hkept i (.inr ⟨g, hi⟩)) fun _ ↦ rfl
  · obtain ⟨g, hself⟩ := hinv'.read_index hw
    refine (h.read w hw).frame hinv hw (fun i hi ↦ ?_) (fun i hi _ ↦ hkept i hi) (.inr ⟨g, hself⟩)
    rcases hlive i hi with rfl | hlive
    · refine .inr fun k hk ↦ ?_
      change _ ≠ (s.t.device.enqueueStateful f i p userCookie packet).pdIndex i
      rw [hindex]
      exact hp.ne hinv.mem hk
    · exact .inl hlive

/-! ## Jobs that are put at the end of a chain -/

theorem Added.kept {t : Thread} (hadd : Added s t.device f j p) (hi : s.Live i) :
    Kept s.t.device t.device i := by
  have hjob := hadd.jobs i fun heq ↦ hadd.fresh (heq ▸ hi)
  have hindex : t.device.pdIndex i = s.t.device.pdIndex i := by
    unfold NlmDevice.pdIndex
    rw [hjob]
  refine ⟨congrArg _ hjob, congrArg NlmJob.dbGroupCombination hjob,
    congrArg (fun job : NlmJob ↦ job.fd.groups) hjob, hindex, fun hcut ↦ ?_, ?_⟩
  · rw [hindex, hadd.pds _ (hadd.new i hi), addJobToList_eq]
    change (if _ then s.t.device.linkedPd f j p _ else _).swDisconnect = true
    split
    · change (_ || _) = true
      rw [hcut, Bool.true_or]
    · exact hcut
  · rw [hindex, hadd.pds _ (hadd.new i hi), addJobToList_eq]
    change (if _ then s.t.device.linkedPd f j p _ else _).flowTerm = _
    split <;> rfl

/-- One job runs that did not. -/
theorem live_append {t : Thread} {started : ℕ → List ℕ} (hi : Live { s with
    t := t
    running := Function.update s.running f (s.running f ++ [j])
    started := started } i) : i = j ∨ s.Live i := by
  rcases hi with hi | ⟨g, hi⟩
  · exact .inr (.inl hi)
  · change i ∈ Function.update s.running f (s.running f ++ [j]) g at hi
    by_cases hg : g = f
    · subst hg
      rw [Function.update_self] at hi
      rcases List.mem_append.mp hi with hi | hi
      · exact .inr (.inr ⟨g, hi⟩)
      · exact .inl (List.mem_singleton.mp hi)
    · rw [Function.update_of_ne hg] at hi
      exact .inr (.inr ⟨g, hi⟩)

/-- The chain is cut where a job with another combination is linked to it. -/
theorem Grouped.added (h : Grouped s) (hinv : Inv s) {t : Thread} (hadd : Added s t.device f j p)
    (hcombination : t.device.combination j = s.t.device.combination j)
    (hown : (t.device.pds (t.device.pdIndex j)).flowTerm = true →
      ∀ i ∈ s.running f, s.t.device.combination i ≠ t.device.combination j)
    (hinv' : Inv { s with
      t := t
      running := Function.update s.running f (s.running f ++ [j])
      started := Function.update s.started f (s.started f ++ [j]) })
    (hjobs : JobGroups { s with
      t := t
      running := Function.update s.running f (s.running f ++ [j])
      started := Function.update s.started f (s.started f ++ [j]) } f) : Grouped { s with
        t := t
        running := Function.update s.running f (s.running f ++ [j])
        started := Function.update s.started f (s.started f ++ [j]) } := by
  have hlive : ∀ i, Live { s with
      t := t
      running := Function.update s.running f (s.running f ++ [j])
      started := Function.update s.started f (s.started f ++ [j]) } i → i = j ∨ s.Live i :=
    fun _ ↦ live_append
  have hself := (hadd.flows f).trans (if_pos rfl)
  have hother : ∀ g, g ≠ f → t.device.flows g = s.t.device.flows g := fun g hg ↦
    (hadd.flows g).trans (if_neg hg)
  refine ⟨fun g ↦ ?_, fun g ↦ ?_, fun w hw ↦ ?_⟩
  · by_cases hg : g = f
    · exact hg ▸ hjobs
    · refine (h.jobs g).shrink (fun i hi ↦ ?_) fun i _ hs ↦ ?_
      · rcases hlive i hi.live with rfl | hlive
        · exact absurd (Option.some.inj (hi.flow.symm.trans hadd.ok.flow)) hg
        · have hkept := hadd.kept hlive
          exact ⟨⟨hlive, hkept.flow.symm.trans hi.flow⟩, hkept⟩
      · have heq := hother g hg
        exact ⟨(congrArg NlmFlow.type heq).symm.trans hs,
          .inr ⟨congrArg NlmFlow.dbGroupCombination heq, congrArg NlmFlow.dbGroupId heq⟩⟩
  · by_cases hg : g = f
    · subst hg
      refine (h.chains g).append (j := j) (Function.update_self ..)
        (fun i hi ↦ hadd.kept (.inr ⟨g, hi⟩)) (fun i hi hne ↦ ?_) ?_ hadd.term hown
      · have hi' : s.Live i := .inr ⟨g, List.mem_of_getLast? hi⟩
        change (t.device.pds (t.device.pdIndex i)).swDisconnect = true
        rw [(hadd.kept hi').index, hadd.pds _ (hadd.new i hi'), addJobToList_eq]
        refine (congrArg HwPdDescriptor.swDisconnect (if_pos ?_)).trans ?_
        · rw [hadd.last, hi]
          rfl
        · change t.device.combination j ≠ _ at hne
          rw [hcombination] at hne
          change (_ || (s.t.device.combination j != _)) = true
          rw [bne_iff_ne.mpr hne, Bool.or_true]
      · change (t.device.flows g).lastDbGroupCombination = t.device.combination j
        rw [hself, hcombination]
        rfl
    · have hrunning : Function.update s.running f (s.running f ++ [j]) g = s.running g :=
        Function.update_of_ne hg ..
      refine (h.chains g).shrink (hrunning ▸ List.suffix_rfl) (fun i hi ↦ ?_)
        fun _ ↦ congrArg _ (hother g hg)
      change i ∈ Function.update s.running f (s.running f ++ [j]) g at hi
      rw [hrunning] at hi
      exact hadd.kept (.inr ⟨g, hi⟩)
  · obtain ⟨g, hg⟩ := hinv'.read_index hw
    have hread : s.Read w := hw.same hadd.linking.ringFds hadd.linking.thread rfl
    refine (h.read w hread).frame hinv hread (fun i hi ↦ ?_) (fun i hi _ ↦ hadd.kept hi)
      (.inr ⟨g, hg⟩)
    rcases hlive i hi with rfl | hlive
    · refine .inr fun k hk ↦ ?_
      change _ ≠ t.device.pdIndex i
      rw [hadd.index]
      exact hadd.new k hk
    · exact .inl hlive

/-- A job that is started keeps its groups. -/
theorem Grouped.start (h : Grouped s) (hinv : Inv s) (hj : j ∈ s.waiting)
    (hflow : (s.t.device.jobs j).flow = some f)
    (hbytes : (s.t.device.flows f).flowOffset +
      (s.t.device.pds (s.t.device.pdIndex j)).packetByteCount < 2 ^ 64)
    (hcall : s.t.device.startStatefulJob j = .ok device) : Grouped { s with
      t := { s.t with device := device }
      waiting := s.waiting.erase j
      running := Function.update s.running f (s.running f ++ [j])
      started := Function.update s.started f (s.started f ++ [j]) } := by
  have hmidInv := hinv.starting hj hbytes
  have hadd := hinv.startAdded hj hflow hbytes hcall
  obtain ⟨g, hg, hok⟩ := hinv.mem.waiting j hj
  obtain rfl := Option.some.inj (hok.flow.symm.trans hflow)
  have hself := starting_flow s g j
  have hterm : (device.pds (device.pdIndex j)).flowTerm = false := by
    cases hflag : (device.pds (device.pdIndex j)).flowTerm with
    | false => rfl
    | true =>
      have hinvalid := (hadd.ok.term hflag).1
      rw [(hadd.flows g).trans (if_pos rfl)] at hinvalid
      change ((s.starting g j).t.device.flows g).type = .invalid at hinvalid
      rw [hself] at hinvalid
      exact NlmFlowType.noConfusion (hg.symm.trans hinvalid)
  have hkept : ∀ i, (s.starting g j).Live i → Kept s.t.device (s.starting g j).t.device i :=
    fun i hi ↦ SameJob.kept ⟨Function.update_of_ne (erase_waiting hinv.mem hj hi).2 .., rfl⟩
  have hmid : Grouped (s.starting g j) := by
    refine h.frame hinv hmidInv g (fun i hi ↦ (erase_waiting hinv.mem hj hi).1) hkept
      (fun _ ↦ List.suffix_rfl) (fun k hk ↦ Function.update_of_ne hk ..) (fun _ ↦ ?_)
      (fun i _ hs ↦ ?_) fun w hw ↦ .inl (hw.same rfl rfl rfl)
    · rw [hself]
    · rw [hself] at hs ⊢
      exact ⟨hs, .inr ⟨rfl, rfl⟩⟩
  have hjob : device.jobs j = { s.t.device.jobs j with
      flowOffset := (s.t.device.flows g).flowOffset } := by
    rw [hinv.startStatefulJob_eq hj hflow] at hcall
    rw [← Except.ok.inj hcall]
    refine (congrFun (addJobToList_jobs ..) j).trans ?_
    exact Function.update_self ..
  have hkeptSelf : Kept s.t.device device j := by
    have hindex : device.pdIndex j = s.t.device.pdIndex j := hadd.index
    refine ⟨?_, ?_, ?_, hindex, fun hcut ↦ absurd (hok.cut.symm.trans hcut) (by decide),
      hterm.trans hok.term.symm⟩
    · rw [hjob]
    · exact (congrArg NlmJob.dbGroupCombination hjob).trans rfl
    · exact (congrArg (fun job : NlmJob ↦ job.fd.groups) hjob).trans rfl
  refine hmid.added (t := { s.t with device := device }) hmidInv hadd ?_
    (fun htrue ↦ absurd (hterm.symm.trans htrue) (by decide)) (hinv.start hj hflow hbytes hcall) ?_
  · have hstarting : (s.starting g j).t.device.jobs j = { s.t.device.jobs j with
        flowOffset := (s.t.device.flows g).flowOffset } := Function.update_self ..
    refine hkeptSelf.combination.trans ?_
    exact (congrArg NlmJob.dbGroupCombination hstarting).symm
  · have hkeep : ∀ i, i = j ∨ (s.starting g j).Live i → s.Live i ∧ Kept s.t.device device i := by
      rintro i (rfl | hi)
      · exact ⟨.inl hj, hkeptSelf⟩
      · exact ⟨(erase_waiting hinv.mem hj hi).1,
          (hkept i hi).trans (hadd.kept (t := { s.t with device := device }) hi)⟩
    refine (h.jobs g).shrink (fun i hi ↦ ?_) fun i _ hs ↦ ?_
    · obtain ⟨hlive, hkept⟩ := hkeep i (live_append hi.live)
      exact ⟨⟨hlive, hkept.flow.symm.trans hi.flow⟩, hkept⟩
    · have hlinked := (hadd.flows g).trans (if_pos rfl)
      change (device.flows g).type = .stateful at hs
      change _ ∧ (_ < (device.flows g).dbGroupCombination ∨
        (device.flows g).dbGroupCombination = _ ∧ (device.flows g).dbGroupId = _)
      rw [hlinked] at hs ⊢
      change ((s.starting g j).t.device.flows g).type = .stateful at hs
      change _ ∧ (_ < ((s.starting g j).t.device.flows g).dbGroupCombination ∨
        ((s.starting g j).t.device.flows g).dbGroupCombination = _ ∧
          ((s.starting g j).t.device.flows g).dbGroupId = _)
      rw [hself] at hs ⊢
      exact ⟨hs, .inr ⟨rfl, rfl⟩⟩

/-- The last packet of a flow has a combination of its own. -/
theorem Grouped.destroy (h : Grouped s) (hinv : Inv s)
    (htype : (s.t.device.flows f).type = .stateful)
    (hcombination : (s.t.device.flows f).dbGroupCombination + 1 < 2 ^ 32)
    (hj : s.FreeJob j) (hp : s.FreePd p) (userCookie : ℕ) {packet : Payload}
    (hbytes : packet.packetByteCount = 0) (m : Allocators) (packetBase : List ℕ) :
    Grouped { s with
      t := { s.t with
        device := (s.finishing f j p userCookie packet).addFinish f j p
        m := m
        packetBase := packetBase }
      waiting := s.waitingBut f
      running := Function.update s.running f (s.running f ++ [j])
      started := Function.update s.started f (s.started f ++ [j]) } := by
  have hmidInv : Inv (s.filled f j p userCookie packet m packetBase) :=
    hinv.filled htype hj hp userCookie m packetBase
  have hadd := hinv.destroyAdded htype hj hp userCookie m packetBase hbytes
  have hself : (s.filled f j p userCookie packet m packetBase).t.device.flows f = _ :=
    finishing_self s.t f
  have hlive : ∀ i, (s.filled f j p userCookie packet m packetBase).Live i → s.Live i := fun i ↦
    filled_live userCookie m packetBase
  have hkept : ∀ i, s.Live i → Kept s.t.device
      (s.filled f j p userCookie packet m packetBase).t.device i := fun i hi ↦
    (filled_same hinv hj hp userCookie m packetBase hi).kept
  have hring : (s.filled f j p userCookie packet m packetBase).t.device.ringFds =
      s.t.device.ringFds := by
    change (finishingPd _ f j p userCookie packet).ringFds = _
    rw [finishing_flow]
    rfl
  have hthread : (s.filled f j p userCookie packet m packetBase).t.device.threadId =
      s.t.device.threadId := by
    change (finishingPd _ f j p userCookie packet).threadId = _
    rw [finishing_flow]
    rfl
  have hmid : Grouped (s.filled f j p userCookie packet m packetBase) := by
    refine h.frame hinv hmidInv f hlive (fun i hi ↦ hkept i (hlive i hi)) (fun _ ↦ List.suffix_rfl)
      (fun g hg ↦ ?_) (fun _ ↦ ?_) (fun i _ hs ↦ ?_) fun w hw ↦ .inl (hw.same hring hthread rfl)
    · refine (congrFun (congrArg NlmDevice.flows (finishing_flow s.t f)) g).trans ?_
      exact Function.update_of_ne hg ..
    · rw [hself]
    · rw [hself] at hs
      cases hs
  obtain ⟨offset, hjobs⟩ := addFinish_jobs (s.finishing f j p userCookie packet) f j p
  have hjob := (congrFun hjobs j).trans (Function.update_self ..)
  have hfilled := finishingPd_job ((s.t.invalidated f).nextCombination f).device f j p userCookie
    packet
  have hsame : ((s.finishing f j p userCookie packet).addFinish f j p).combination j =
      (s.filled f j p userCookie packet m packetBase).t.device.combination j :=
    (congrArg NlmJob.dbGroupCombination hjob).trans rfl
  have hnumber : ((s.finishing f j p userCookie packet).addFinish f j p).combination j =
      (s.t.device.flows f).dbGroupCombination + 1 := by
    rw [hsame]
    refine (congrArg NlmJob.dbGroupCombination hfilled).trans ?_
    refine (congrArg NlmFlow.dbGroupCombination (finishing_self s.t f)).trans ?_
    exact Nat.mod_eq_of_lt hcombination
  refine hmid.added (t := { s.t with
    device := (s.finishing f j p userCookie packet).addFinish f j p
    m := m
    packetBase := packetBase }) hmidInv hadd hsame (fun _ i hi heq ↦ ?_)
    (hinv.destroy htype hj hp userCookie m packetBase hbytes) ?_
  · have hi' : s.Live i := .inr ⟨f, hi⟩
    have hle := ((h.jobs f).now htype i ⟨hi', (hinv.mem.running f i hi).flow⟩).1
    rw [(hkept i hi').combination] at heq
    exact absurd (heq.trans hnumber) (by omega)
  refine (h.jobs f).add (j := j) (fun i hi ↦ ?_) (fun i hi ↦ ?_) fun hs ↦ ?_
  · rcases live_append hi.live with rfl | hlive'
    · exact .inl rfl
    · have hkeep := (hkept i (hlive i hlive')).trans (hadd.kept (t := { s.t with
        device := (s.finishing f j p userCookie packet).addFinish f j p
        m := m
        packetBase := packetBase }) hlive')
      exact .inr ⟨⟨hlive i hlive', hkeep.flow.symm.trans hi.flow⟩, hkeep⟩
  · have hle := ((h.jobs f).now htype i hi).1
    change _ ≤ ((s.finishing f j p userCookie packet).addFinish f j p).combination j ∧ (_ =
      ((s.finishing f j p userCookie packet).addFinish f j p).combination j → _)
    rw [hnumber]
    exact ⟨by omega, fun heq ↦ by omega⟩
  · have hlinked := (hadd.flows f).trans (if_pos rfl)
    change (((s.finishing f j p userCookie packet).addFinish f j p).flows f).type = .stateful at hs
    rw [hlinked] at hs
    exact NlmFlowType.noConfusion ((congrArg NlmFlow.type hself).symm.trans hs)

/-! ## The ring and the hardware -/

/-- The FD of a flow names the groups of the first job that waits. -/
theorem Grouped.handedFd (h : Grouped s) (hmem : Mem s) (hj : j ∈ s.running f) :
    s.Copied (.ofFd (handedFd s.t.device f j)) := by
  have hok := hmem.running f j hj
  have hcookie : (ChainRun.handedFd s.t.device f j).cookie =
      nlmEncodeCookie s.t.device.threadId j := hok.pd_cookie
  have hindex : nlmGetJobIndex (Walk.ofFd (ChainRun.handedFd s.t.device f j)).cookie = j := by
    rw [show (Walk.ofFd (ChainRun.handedFd s.t.device f j)).cookie = _ from hcookie,
      hok.index hmem.thread_lt]
  refine ⟨?_, fun hlast i hi hpd ↦ ?_, fun _ ↦ rfl⟩
  · rw [hindex]
    rfl
  · rw [hindex]
    cases hterm : (s.t.device.pds (s.t.device.pdIndex j)).flowTerm with
    | false =>
      have hlast' : (s.t.device.pds (s.t.device.pdIndex j)).swDisconnect = false := by
        simp [Walk.last, Walk.ofFd, ChainRun.handedFd, fillFd, hterm, HwFdDescriptor.copyPd]
          at hlast
        exact hlast.2
      refine h.next hmem hj hlast' hi (hpd.trans ?_)
      simp [Walk.ofFd, ChainRun.handedFd, fillFd, hterm]
    | true =>
      by_cases hgroups : (s.t.device.jobs j).fd.gidCnt = 0
      · simp [Walk.last, Walk.ofFd, ChainRun.handedFd, fillFd, hterm, hgroups,
          HwFdDescriptor.zero] at hlast
      · have hself : s.t.device.pdIndex i = s.t.device.pdIndex j := by
          rw [hpd]
          simp [Walk.ofFd, ChainRun.handedFd, fillFd, hterm, hgroups]
        rw [hmem.pd_inj i j hi (.inr ⟨f, hj⟩) hself]

theorem Grouped.startChain (h : Grouped s) (hinv : Inv s) {rest : List ℕ}
    (hlist : s.t.device.pendingFlowList = f :: rest)
    (hcall : s.t.device.nlmFlowStartPendingPdChain f = .ok (.ok, device)) :
    Grouped { s with t := { s.t with device := device } } := by
  have hinv' := hinv.startChain hlist hcall
  obtain ⟨j, js, hl⟩ := hinv.pending (hlist ▸ List.mem_cons_self)
  have hj : j ∈ s.running f := hl.running ▸ List.mem_cons_self
  rw [hinv.startPendingPdChain_eq hl] at hcall
  cases halloc : s.t.device.sysmemAllocFd with
  | none =>
    rw [halloc] at hcall
    cases hcall
  | some r =>
  obtain ⟨slot, d⟩ := r
  rw [halloc] at hcall
  have hdevice : device = (d.setFd slot (ChainRun.handedFd s.t.device f
      j)).nlmDeviceRemoveFlowFromPending f := (Prod.mk.inj (Except.ok.inj hcall)).2.symm
  obtain ⟨-, hfds⟩ := hinv.ring.alloc halloc (ChainRun.handedFd s.t.device f j)
  have hsame := sysmemAllocFd_same halloc
  have hflows : d.flows = s.t.device.flows := by
    rw [hsame]
  have hself : device.flows f = { s.t.device.flows f with pendingPdHead := none } := by
    rw [hdevice, removeFlow_self]
    exact congrArg (fun flow : NlmFlow ↦ { flow with pendingPdHead := none }) (congrFun hflows f)
  have hjob : ∀ i, SameJob s.t.device device i := fun i ↦ by
    rw [hdevice]
    refine ⟨?_, ?_⟩
    · change d.jobs i = s.t.device.jobs i
      rw [hsame]
    · change d.pds (s.t.device.pdIndex i) = s.t.device.pds (s.t.device.pdIndex i)
      rw [hsame]
  have hthread : device.threadId = s.t.device.threadId := by
    rw [hdevice]
    change d.threadId = s.t.device.threadId
    rw [hsame]
  refine h.frame hinv hinv' f (fun _ hi ↦ hi) (fun i _ ↦ (hjob i).kept) (fun _ ↦ List.suffix_rfl)
    (fun g hg ↦ ?_) (fun _ ↦ ?_) (fun i _ hs ↦ ?_) fun w hw ↦ ?_
  · change device.flows g = _
    rw [hdevice, removeFlow_of_ne _ hg]
    exact congrFun hflows g
  · change (device.flows f).lastDbGroupCombination = _
    rw [hself]
  · change (device.flows f).type = .stateful at hs
    change _ ∧ (_ < (device.flows f).dbGroupCombination ∨
      (device.flows f).dbGroupCombination = _ ∧ (device.flows f).dbGroupId = _)
    rw [hself] at hs ⊢
    exact ⟨hs, .inr ⟨rfl, rfl⟩⟩
  · rcases hw with hw | ⟨fd, hfd, hours, rfl⟩
    · exact .inl (.inl hw)
    · have hringFds : device.ringFds =
          s.t.device.ringFds ++ [ChainRun.handedFd s.t.device f j] := by
        rw [hdevice]
        exact hfds
      change fd ∈ device.ringFds at hfd
      rw [hringFds] at hfd
      rcases List.mem_append.mp hfd with hfd | hfd
      · exact .inl (.inr ⟨fd, hfd, (owns_congr hthread fd).symm.trans hours, rfl⟩)
      · rw [List.mem_singleton.mp hfd]
        have hcopied := h.handedFd hinv.mem hj
        refine .inr ⟨?_, fun hlast i hi hpd ↦ ?_, fun _ ↦ rfl⟩
        · refine hcopied.groups.trans ?_
          exact (hjob _).kept.groups.symm
        · change device.pdIndex i = _ at hpd
          rw [(hjob i).pdIndex] at hpd
          refine (hjob i).kept.combination.trans ?_
          exact (hcopied.next hlast i hi hpd).trans (hjob _).kept.combination.symm

theorem Grouped.otherFd (h : Grouped s) (hinv : Inv s) {slot : ℕ} {fd : HwFdDescriptor}
    (halloc : s.t.device.sysmemAllocFd = some (slot, device))
    (hother : s.t.device.owns fd = false) :
    Grouped { s with t := { s.t with device := device.setFd slot fd } } := by
  have hinv' := hinv.otherFd halloc hother
  obtain ⟨-, hfds⟩ := hinv.ring.alloc halloc fd
  have hsame := sysmemAllocFd_same halloc
  have hthread : (device.setFd slot fd).threadId = s.t.device.threadId := by
    change device.threadId = _
    rw [hsame]
  refine h.same hinv hinv' ?_ (fun _ hi ↦ hi) (fun i _ ↦ SameJob.kept ⟨?_, ?_⟩) rfl fun w hw ↦
    .inl ?_
  · change device.flows = _
    rw [hsame]
  · change device.jobs i = _
    rw [hsame]
  · change device.pds _ = _
    rw [hsame]
  · rcases hw with hw | ⟨fd', hfd', hours, rfl⟩
    · exact .inl hw
    · change fd' ∈ (device.setFd slot fd).ringFds at hfd'
      have hours' := (owns_congr hthread fd').symm.trans hours
      rw [hfds] at hfd'
      rcases List.mem_append.mp hfd' with hfd' | hfd'
      · exact .inr ⟨fd', hfd', hours', rfl⟩
      · rw [List.mem_singleton.mp hfd', hother] at hours'
        cases hours'

/-- Taking an FD from the ring copies nothing else. -/
theorem Grouped.take (h : Grouped s) (hinv : Inv s)
    (hsent : s.t.device.inputRdPtr ≠ s.t.device.fdfFifoWrtPtr) : Grouped s.taken := by
  have hinv' := hinv.take hsent
  obtain ⟨-, hfds⟩ := hinv.ring.take hsent
  have hrest : ∀ fd ∈ s.t.device.takeFd.ringFds, fd ∈ s.t.device.ringFds := fun fd hfd ↦
    hfds ▸ List.mem_cons_of_mem _ hfd
  have hold : ∀ w, (∃ fd ∈ s.t.device.takeFd.ringFds, s.t.device.owns fd = true ∧ w = .ofFd fd) →
      s.Read w := by
    rintro w ⟨fd, hfd, hours, rfl⟩
    exact .inr ⟨fd, hrest fd hfd, hours, rfl⟩
  cases hours : s.t.device.owns (s.t.device.inputFifo s.t.device.inputRdPtr) with
  | false =>
    have heq : s.taken = { s with t := { s.t with device := s.t.device.takeFd } } := by
      unfold taken
      simp only [hours]
      rfl
    rw [heq] at hinv' ⊢
    exact h.same hinv hinv' rfl (fun _ hi ↦ hi) (fun i _ ↦ SameJob.kept ⟨rfl, rfl⟩) rfl fun w hw ↦
      .inl (hw.elim .inl (hold w))
  | true =>
    have heq : s.taken = { s with
        t := { s.t with device := s.t.device.takeFd }
        walks := .ofFd (s.t.device.inputFifo s.t.device.inputRdPtr) :: s.walks
        scanned := s.scan (.ofFd (s.t.device.inputFifo s.t.device.inputRdPtr)) } := by
      unfold taken
      simp only [hours]
      rfl
    rw [heq] at hinv' ⊢
    refine h.same hinv hinv' rfl (fun _ hi ↦ hi) (fun i _ ↦ SameJob.kept ⟨rfl, rfl⟩) rfl fun w hw ↦
      .inl ?_
    rcases hw with hw | hw
    · rcases List.mem_cons.mp hw with rfl | hw
      · exact .inr ⟨_, hfds ▸ List.mem_cons_self, hours, rfl⟩
      · exact .inl hw
    · exact hold w hw

/-- The hardware goes on with the groups it has, and they are those of the next job. -/
theorem Grouped.follow (h : Grouped s) (hinv : Inv s) {results : List HwResultDescriptor}
    (hw : w ∈ s.walks) (hlast : w.last = false) (hinv' : Inv (s.followed w results)) :
    Grouped (s.followed w results) := by
  obtain ⟨f, returned, cur, c, rest, j, hl, -, -, hshows, hj⟩ := hinv.walking hw
  obtain ⟨a, js, -, hindex, ha, -⟩ := hinv.next hl hshows hlast
  have hok := hinv.mem.running f j hj
  have hoka := hinv.mem.running f a ha
  have hcopied := h.read w (.inl hw)
  have hjob : nlmGetJobIndex w.cookie = j := by
    rw [hshows.cookie, hok.index hinv.mem.thread_lt]
  have hself : nlmGetJobIndex (s.t.device.pds w.pdNlaIndex).cookie = a := by
    rw [hindex, hoka.pd_cookie, hoka.index hinv.mem.thread_lt]
  have hnumber := hcopied.next hlast a (.inr ⟨f, ha⟩) hindex.symm
  rw [hjob] at hnumber
  refine h.same hinv hinv' rfl (fun _ hi ↦ hi) (fun i _ ↦ SameJob.kept ⟨rfl, rfl⟩) rfl
    fun w' hw' ↦ ?_
  rcases hw' with hw' | hw'
  · rcases List.mem_cons.mp hw' with rfl | hw'
    · refine .inr ⟨?_, fun hlast' i hi hpd ↦ ?_, fun hterm ↦ ?_⟩
      · change w.fd.groups = s.t.device.jobGroups (nlmGetJobIndex
          (s.t.device.pds w.pdNlaIndex).cookie)
        rw [hself, hcopied.groups, hjob]
        exact ((h.jobs f).same a j ⟨.inr ⟨f, ha⟩, hoka.flow⟩ ⟨.inr ⟨f, hj⟩, hok.flow⟩ hnumber).symm
      · change s.t.device.combination i = s.t.device.combination (nlmGetJobIndex
          (s.t.device.pds w.pdNlaIndex).cookie)
        change s.t.device.pdIndex i = (s.t.device.pds w.pdNlaIndex).pdNla.pdNlaIndex at hpd
        rw [hself]
        rw [hindex] at hpd hlast'
        refine h.next hinv.mem ha ?_ hi hpd
        simp [Walk.last, Walk.ofPd] at hlast'
        exact hlast'.2
      · change (s.t.device.pds (s.t.device.pdIndex (nlmGetJobIndex
          (s.t.device.pds w.pdNlaIndex).cookie))).flowTerm = true at hterm
        rw [hself] at hterm
        obtain rfl := (h.chains f).own a ha hterm j hj hnumber.symm
        rw [← hjob] at hterm
        refine (hcopied.alone hterm).trans (hshows.cookie.trans ?_)
        change _ = (s.t.device.pds w.pdNlaIndex).cookie
        rw [hindex, hok.pd_cookie]
    · exact .inl (.inl (List.mem_of_mem_erase hw'))
  · exact .inl (.inr hw')

theorem Grouped.collect (h : Grouped s) (hinv : Inv s) {rd : HwResultDescriptor}
    {rest : List HwResultDescriptor} {t : Thread} {result : Option NlmResult} {mark : Bool}
    (hfirst : s.results = rd :: rest) (hcall : s.t.populateResults rd = .ok (t, result, mark)) :
    Grouped { s with
      t := t
      results := rest
      running := fun f ↦ (s.running f).erase (nlmGetJobIndex rd.cookie) } := by
  have hinv' := hinv.collect hfirst hcall
  obtain ⟨f, j, l, hl, hcookie, hresults⟩ := hinv.firstResult hfirst
  obtain ⟨hvalid, htype, -⟩ := hinv.results rd (hfirst ▸ List.mem_cons_self)
  obtain ⟨flow, pendingFlowList, m, hc, heq⟩ :=
    hinv.populateResults_eq hl hcookie hvalid htype hresults
  obtain rfl := (Prod.mk.inj (Except.ok.inj (heq.symm.trans hcall))).1
  have hindex := (hinv.mem.running f j (first_mem hl hresults)).index hinv.mem.thread_lt
  rw [hcookie, hindex] at hinv' ⊢
  change Inv (s.collected f j flow pendingFlowList m rest) at hinv'
  change Grouped (s.collected f j flow pendingFlowList m rest)
  have hlive : ∀ i, (s.collected f j flow pendingFlowList m rest).Live i → s.Live i ∧ i ≠ j :=
    fun i ↦ collected_live hinv hl hresults
  have hself : (s.collected f j flow pendingFlowList m rest).t.device.flows f = flow :=
    Function.update_self ..
  refine h.frame hinv hinv' f (fun i hi ↦ (hlive i hi).1) (fun i hi ↦ ?_) (fun g ↦ ?_)
    (fun g hg ↦ collected_flow_of_ne hg) (fun _ ↦ ?_) (fun i _ hs ↦ ?_)
    fun w hw ↦ .inl (hw.same rfl rfl rfl)
  · obtain ⟨hi, hne⟩ := hlive i hi
    exact (collected_same hinv hl hresults hi hne).kept
  · by_cases hg : g = f
    · subst hg
      rw [collected_running_self hl hresults, running_first hl hresults]
      exact List.suffix_cons ..
    · rw [collected_running_of_ne hinv hl hresults hg]
  · rw [hself]
    exact hc.linked
  · rw [hself] at hs ⊢
    exact ⟨hc.type.symm.trans hs, .inr ⟨hc.combination, hc.groups⟩⟩

variable {threadId size policy : ℕ} {m : Allocators} {packetBase : List ℕ}

end ChainRun

end NetL7.Packet
