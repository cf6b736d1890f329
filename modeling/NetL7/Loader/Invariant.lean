import NetL7.Loader.Settled

/-!
# The queue invariant

`Inv hw U s` relates the tables, the queue and the settled tables of a device. The
executor keeps it and does not change the settled tables; cloning and
decloning keep it and act on the settled tables at once.
-/

namespace NetL7.Loader

open NetL7.Lib LoaderTables

namespace LoaderTables

/-- A new clone of `b` on array block `j`, once its commands have run. -/
def addClone (t : LoaderTables) (j b : ℕ) : LoaderTables :=
  ((t.reserve j true b incr8).execute ⟨.assignVirtBlkIdWait, j, b⟩).execute ⟨.arrayAdd, j, b⟩

/-- Clone `j` of `b` removed, once its commands have run. -/
def removeClone (t : LoaderTables) (j b : ℕ) : LoaderTables :=
  (t.reserve j false b decr8).execute ⟨.arrayDelete, j, b⟩

section CloneFields

variable (t : LoaderTables) (j b : ℕ)

theorem addClone_entry (x : ℕ) :
    (t.addClone j b).databaseShadowMap x =
      if x = b then
        { t.databaseShadowMap b with
          noClonesCurrent := incr8 (t.databaseShadowMap b).noClonesCurrent
          noClonesTarget := incr8 (t.databaseShadowMap b).noClonesTarget }
      else t.databaseShadowMap x := by
  by_cases hx : x = b <;>
    simp [addClone, reserve, execute, setShadow, setTarget, setVirtId, setCurrent,
      setCopyNumber, hx]

theorem removeClone_entry (x : ℕ) :
    (t.removeClone j b).databaseShadowMap x =
      if x = b then
        { t.databaseShadowMap b with
          noClonesCurrent := decr8 (t.databaseShadowMap b).noClonesCurrent
          noClonesTarget := decr8 (t.databaseShadowMap b).noClonesTarget }
      else t.databaseShadowMap x := by
  by_cases hx : x = b <;>
    simp [removeClone, reserve, execute, setShadow, setTarget, setCurrent, hx]

@[simp] theorem addClone_current :
    (t.addClone j b).arrayBlockMapCurrent = Function.update t.arrayBlockMapCurrent j true :=
  rfl

@[simp] theorem removeClone_current :
    (t.removeClone j b).arrayBlockMapCurrent =
      Function.update t.arrayBlockMapCurrent j false := rfl

@[simp] theorem addClone_virtIds :
    (t.addClone j b).arrayVirtIds = Function.update t.arrayVirtIds j b := rfl

@[simp] theorem removeClone_virtIds : (t.removeClone j b).arrayVirtIds = t.arrayVirtIds := rfl

theorem addClone_copyNumber (x : ℕ) :
    (t.addClone j b).arrayBlockCopyNumber x =
      if x = j then (t.databaseShadowMap b).noClonesCurrent
      else t.arrayBlockCopyNumber x := by
  by_cases hx : x = j <;>
    simp [addClone, reserve, execute, setShadow, setTarget, setVirtId, setCurrent,
      setCopyNumber, hx]

@[simp] theorem removeClone_copyNumber :
    (t.removeClone j b).arrayBlockCopyNumber = t.arrayBlockCopyNumber := rfl

end CloneFields

end LoaderTables

namespace PhyDevice

/-- A wait command follows the command that sets its timeout. -/
def Follows (c c' : LoaderCommand) : Prop :=
  (c'.opcode = .pauseWait → c.opcode = .pause) ∧
    (c'.opcode = .dmaXferCompleteWait → c.opcode = .dmaXferStart)

/-- A wait command at the head of the queue has time left: the pause timeout is
the user's, which is 0 (wait forever), and prompt hardware finishes a transfer
before the timeout runs out. -/
def TimeLeft (hw : Hw) (waitTimeout polls : ℕ) (c : LoaderCommand) : Prop :=
  (c.opcode = .pauseWait → waitTimeout = 0) ∧
    (c.opcode = .dmaXferCompleteWait → hw.Prompt → hw.delay polls < waitTimeout)

/-- The wait commands of the queue are in order. -/
def WaitOk (hw : Hw) (q : List LoaderCommand) (waitTimeout polls : ℕ) : Prop :=
  q.IsChain Follows ∧ ∀ c ∈ q.head?, TimeLeft hw waitTimeout polls c

theorem WaitOk.append {hw : Hw} {q q' : List LoaderCommand} {w p : ℕ} (h : WaitOk hw q w p)
    (hq' : q'.IsChain Follows)
    (hhead : ∀ c ∈ q'.head?, c.opcode ≠ .pauseWait ∧ c.opcode ≠ .dmaXferCompleteWait) :
    WaitOk hw (q ++ q') w p := by
  refine ⟨List.isChain_append.mpr ⟨h.1, hq', fun c _ c' hc' ↦ ?_⟩, ?_⟩
  · exact ⟨fun hop ↦ absurd hop (hhead c' hc').1, fun hop ↦ absurd hop (hhead c' hc').2⟩
  · intro c hc
    cases q with
    | nil => exact ⟨fun hop ↦ absurd hop (hhead c hc).1, fun hop ↦ absurd hop (hhead c hc).2⟩
    | cons c₀ q => exact h.2 c (by simpa using hc)

/-- The only assertion that can fail is the timeout of a DMA transfer, and only
on hardware that takes longer than the driver grants. -/
def DmaStuck (hw : Hw) (e : Halt) : Prop := e = .dmaWaitTimeout ∧ ¬hw.Prompt

/-- The tables once the queue has been executed. -/
def settled (s : PhyDevice) : LoaderTables := s.flushed s.loaderCmdMem

theorem settled_of_nil {s : PhyDevice} (h : s.loaderCmdMem = []) :
    s.settled = s.toLoaderTables := by
  simp [settled, h]

@[simp] theorem settled_numFmsBlocks (s : PhyDevice) :
    s.settled.numFmsBlocks = s.numFmsBlocks := flushed_numFmsBlocks _ _

@[simp] theorem settled_dbId (s : PhyDevice) (b : ℕ) :
    (s.settled.databaseShadowMap b).dbId = (s.databaseShadowMap b).dbId :=
  flushed_dbId _ _ b

@[simp] theorem settled_noClonesTarget (s : PhyDevice) (b : ℕ) :
    (s.settled.databaseShadowMap b).noClonesTarget =
      (s.databaseShadowMap b).noClonesTarget := flushed_noClonesTarget _ _ b

@[simp] theorem settled_blockGroupList (s : PhyDevice) :
    s.settled.blockGroupList = s.blockGroupList := flushed_blockGroupList _ _

/-- The queue invariant. -/
structure Inv (hw : Hw) (U : Set ℕ) (s : PhyDevice) : Prop where
  placed : Placed U s.toLoaderTables
  legal : Legal U s.loaderCmdMem s.toLoaderTables
  target_eq : s.arrayBlockMapTarget = s.settled.arrayBlockMapCurrent
  noClonesTarget_eq : ∀ b, (s.databaseShadowMap b).noClonesTarget =
    (s.settled.databaseShadowMap b).noClonesCurrent
  noResumeWait : ∀ c ∈ s.loaderCmdMem, c.opcode ≠ .resumeWait
  waitOk : WaitOk hw s.loaderCmdMem s.waitTimeout s.polls
  pauseTimeout_eq : s.pauseTimeout = 0

theorem Inv.settled_placed {hw : Hw} {U : Set ℕ} {s : PhyDevice} (h : Inv hw U s) :
    Placed U s.settled :=
  h.placed.flushed h.legal

/-! ## Executing -/

/-- What one call of the executor does on the master ring: nothing to the
settled tables, and at most one command to the tables. -/
structure ExecPost (hw : Hw) (U : Set ℕ) (s : PhyDevice) (r : NlmStatus × PhyDevice) : Prop where
  inv : Inv hw U r.2
  settled_eq : r.2.settled = s.settled
  ringId_eq : r.2.fmsRingId = s.fmsRingId
  policy_eq : r.2.databaseLoadPolicy = s.databaseLoadPolicy
  numRows_eq : r.2.numRowsPerFmsBlock = s.numRowsPerFmsBlock
  step : (r.2.toLoaderTables = s.toLoaderTables ∧ r.2.loaderCmdMem = s.loaderCmdMem) ∨
    ∃ cmd, s.loaderCmdMem = cmd :: r.2.loaderCmdMem ∧
      r.2.toLoaderTables = s.toLoaderTables.execute cmd
  status : (r.1 = .ok ∧ r.2.loaderCmdMem = []) ∨
    (r.1 = .loaderInProgress ∧ r.2.loaderCmdMem ≠ [])

variable {hw : Hw} {device : Option NlmDevice} {U : Set ℕ} {s : PhyDevice}

theorem Inv.pop {cmd : LoaderCommand} {rest : List LoaderCommand} (h : Inv hw U s)
    (hq : s.loaderCmdMem = cmd :: rest) {w p : ℕ}
    (hpause : cmd.opcode = .pause → w = s.pauseTimeout)
    (hdma : cmd.opcode = .dmaXferStart → w = 0xffffffff) :
    Inv hw U { s with
        toLoaderTables := s.execute cmd
        loaderCmdMem := rest, waitTimeout := w, polls := p } ∧
      ({ s with
        toLoaderTables := s.execute cmd
        loaderCmdMem := rest, waitTimeout := w, polls := p } : PhyDevice).settled =
        s.settled := by
  have hsettled : s.settled = (s.execute cmd).flushed rest := by
    simp [settled, hq]
  obtain ⟨hpre, hlegal⟩ : Pre U cmd s.toLoaderTables ∧ Legal U rest (s.execute cmd) := by
    have hlegal := h.legal
    rwa [hq] at hlegal
  have hwait := h.waitOk
  rw [hq] at hwait
  refine ⟨⟨h.placed.execute hpre, hlegal, ?_, ?_, ?_, ?_, h.pauseTimeout_eq⟩, hsettled.symm⟩
  · rw [settled, ← hsettled, ← h.target_eq]
    exact (execute_frame _ cmd).2.1
  · intro b
    rw [settled, ← hsettled, ← h.noClonesTarget_eq b]
    exact ((execute_frame _ cmd).2.2.2 b).1
  · exact fun c hc ↦ h.noResumeWait c (by rw [hq]; exact List.mem_cons_of_mem _ hc)
  · refine ⟨hwait.1.tail, ?_⟩
    intro c hc
    rcases rest with _ | ⟨c', rest⟩
    · simp at hc
    · obtain rfl : c' = c := by simpa using hc
      have hfollows := (List.isChain_cons_cons.mp hwait.1).1
      refine ⟨fun hop ↦ (hpause (hfollows.1 hop)).trans h.pauseTimeout_eq,
        fun hop hprompt ↦ ?_⟩
      simp only [hdma (hfollows.2 hop)]
      exact hprompt p

theorem exec_spec (h : Inv hw U s) (hg : loaderGuard device s = none) :
    Outcome (ExecPost hw U s) (DmaStuck hw) (nlmDeviceLoaderCmdExecFms hw device s) := by
  rcases hq : s.loaderCmdMem with _ | ⟨cmd, rest⟩
  · rw [exec_nil hg hq]
    exact ⟨h, rfl, rfl, rfl, rfl, .inl ⟨rfl, rfl⟩, .inl ⟨rfl, hq⟩⟩
  · have hmem : cmd ∈ s.loaderCmdMem := by simp [hq]
    have hpre : Pre U cmd s.toLoaderTables := by
      have hlegal := h.legal
      rw [hq] at hlegal
      exact hlegal.1
    have hleft : TimeLeft hw s.waitTimeout s.polls cmd := h.waitOk.2 cmd (by simp [hq])
    obtain ⟨w, p, hsw, hpause, hdma⟩ | ⟨w, hsw, hbusy, hwait⟩ | ⟨hsw, hop, hone⟩ |
        ⟨hsw, hop, hzero⟩ | ⟨hsw, hop⟩ | ⟨hsw, hop, hcur⟩ := cmdSwitch_cases hw cmd s
    · rw [exec_brk hg hq hsw]
      obtain ⟨hinv, hsettled⟩ := h.pop hq (p := p) hpause hdma
      refine ⟨hinv, hsettled, rfl, rfl, rfl, .inr ⟨cmd, hq, rfl⟩, ?_⟩
      by_cases hrest : rest = []
      · exact .inl ⟨by simp [hrest], hrest⟩
      · exact .inr ⟨by simp [hrest], hrest⟩
    · rw [exec_ret hg hq hsw]
      refine ⟨?_, rfl, rfl, rfl, rfl, .inl ⟨rfl, rfl⟩, .inr ⟨rfl, ?_⟩⟩
      · refine { h with waitOk := ⟨h.waitOk.1, fun c hc ↦ ?_⟩ }
        have hcmd : cmd = c := by
          have hc : c ∈ s.loaderCmdMem.head? := hc
          rw [hq] at hc
          simpa using hc
        subst hcmd
        refine ⟨fun hop ↦ ?_, fun hop hprompt ↦ ?_⟩
        · simp only [hwait (.inl hop), hleft.1 hop]
        · have hlt := hleft.2 hop hprompt
          have hdelay := hw.delay_succ_lt hbusy
          have hw' : w = s.waitTimeout - 1 := hwait (.inr hop)
          change hw.delay (s.polls + 1) < w
          omega
      · exact fun hnil ↦ by simp [poll, hq] at hnil
    · -- the pause timeout of 0 never expires
      have hzero := hleft.1 hop
      omega
    · rw [exec_error hg hq hsw]
      refine ⟨rfl, fun hprompt ↦ ?_⟩
      have hlt := hleft.2 hop hprompt
      omega
    · exact absurd hop (h.noResumeWait cmd hmem)
    · refine absurd ?_ hcur
      simpa only [Pre, hop] using hpre

/-- What draining the queue does: it reaches the settled tables. -/
structure DrainPost (hw : Hw) (U : Set ℕ) (s : PhyDevice) (r : NlmStatus × PhyDevice) : Prop where
  status : r.1 = .ok
  inv : Inv hw U r.2
  queue_nil : r.2.loaderCmdMem = []
  tables_eq : r.2.toLoaderTables = s.settled
  ringId_eq : r.2.fmsRingId = s.fmsRingId
  policy_eq : r.2.databaseLoadPolicy = s.databaseLoadPolicy
  numRows_eq : r.2.numRowsPerFmsBlock = s.numRowsPerFmsBlock

theorem loaderGuard_congr {s s' : PhyDevice} (h : s'.fmsRingId = s.fmsRingId) :
    loaderGuard device s' = loaderGuard device s := by
  simp [loaderGuard, h]

theorem drain_spec (h : Inv hw U s) (hg : loaderGuard device s = none) :
    Outcome (DrainPost hw U s) (DmaStuck hw) (drain hw device s) := by
  let P : PhyDevice → Prop := fun s' ↦ Inv hw U s' ∧ s'.settled = s.settled ∧
    s'.fmsRingId = s.fmsRingId ∧ s'.databaseLoadPolicy = s.databaseLoadPolicy ∧
      s'.numRowsPerFmsBlock = s.numRowsPerFmsBlock
  refine drain_outcome (P := P) ?_ ⟨h, rfl, rfl, rfl, rfl⟩
  rintro s' ⟨hinv, hsettled, hring, hpolicy, hrows⟩
  refine (exec_spec hinv ((loaderGuard_congr hring).trans hg)).imp fun r hr ↦ ?_
  refine ⟨fun _ ↦ ⟨hr.inv, hr.settled_eq.trans hsettled, hr.ringId_eq.trans hring,
    hr.policy_eq.trans hpolicy, hr.numRows_eq.trans hrows⟩, fun hne ↦ ?_⟩
  rcases hr.status with ⟨hok, hnil⟩ | ⟨hbusy, -⟩
  · exact ⟨hok, hr.inv, hnil,
      (settled_of_nil hnil).symm.trans (hr.settled_eq.trans hsettled),
      hr.ringId_eq.trans hring, hr.policy_eq.trans hpolicy, hr.numRows_eq.trans hrows⟩
  · exact absurd hbusy hne

/-! ## Queueing -/

/-- The queue with commands added at its end. -/
def enqueue (s : PhyDevice) (cmds : List LoaderCommand) : PhyDevice :=
  { s with loaderCmdMem := s.loaderCmdMem ++ cmds }

theorem settled_enqueue (s : PhyDevice) (cmds : List LoaderCommand) :
    (s.enqueue cmds).settled = s.settled.flushed cmds := by
  simp [settled, enqueue, flush_append]

theorem cmdAdd_outcome {E : Halt → Prop} (s : PhyDevice) (cmd : LoaderCommand)
    (hE : nlmFmsLoaderCmdBuffSize ≤ s.loaderCmdMem.length + 1 → E .commandFifoOverrun) :
    Outcome (· = s.enqueue [cmd]) E (s.nlmDeviceLoaderCmdAdd cmd) := by
  by_cases hfull : s.loaderCmdMem.length + 1 < nlmFmsLoaderCmdBuffSize
  · simp only [nlmDeviceLoaderCmdAdd, prettyAssert, hfull, decide_true, if_true, bind,
      Except.bind, outcome_ok]
    rfl
  · simp only [nlmDeviceLoaderCmdAdd, prettyAssert, hfull, decide_false, bind, Except.bind,
      Bool.false_eq_true, if_false, outcome_error]
    exact hE (Nat.not_lt.mp hfull)

theorem cmdAddAll_outcome {E : Halt → Prop} (s : PhyDevice) (a sh : ℕ)
    (opcodes : List LoaderOpcode)
    (hE : nlmFmsLoaderCmdBuffSize ≤ s.loaderCmdMem.length + opcodes.length →
      E .commandFifoOverrun) :
    Outcome (· = s.enqueue (opcodes.map fun op ↦ .pack op a sh)) E
      (s.cmdAddAll a sh opcodes) := by
  induction opcodes generalizing s with
  | nil => simp [cmdAddAll, enqueue]
  | cons op opcodes ih =>
    simp only [cmdAddAll, List.foldlM_cons]
    refine Outcome.bind (cmdAdd_outcome s (.pack op a sh) fun hfull ↦ hE ?_) ?_
    · simp only [List.length_cons]
      omega
    · rintro s' rfl
      refine (ih (s.enqueue [.pack op a sh]) fun hfull ↦ hE ?_).imp ?_
      · simp only [enqueue, List.length_append, List.length_cons, List.length_nil] at hfull ⊢
        omega
      · rintro s' rfl
        simp [enqueue]

/-- The commands that make a clone. -/
def cloneCmds (j b : ℕ) : List LoaderCommand :=
  [⟨.dmaXferStart, j, b⟩, ⟨.dmaXferCompleteWait, j, b⟩, ⟨.actionTableLoad, j, b⟩,
    ⟨.assignVirtBlkId, j, b⟩, ⟨.assignVirtBlkIdWait, j, b⟩, ⟨.arrayAdd, j, b⟩]

/-- The commands that remove a clone. -/
def decloneCmds (j b : ℕ) : List LoaderCommand :=
  [⟨.pause, j, b⟩, ⟨.pauseWait, j, b⟩, ⟨.arrayDelete, j, b⟩, ⟨.resume, j, b⟩]

/-- The device after a clone of `b` on array block `j` has been requested. -/
def cloned (s : PhyDevice) (j b : ℕ) : PhyDevice :=
  (s.mapTables (·.reserve j true b incr8)).enqueue (cloneCmds j b)

/-- The device after the removal of clone `j` of `b` has been requested. -/
def decloned (s : PhyDevice) (j b : ℕ) : PhyDevice :=
  (s.mapTables (·.reserve j false b decr8)).enqueue (decloneCmds j b)

theorem pack_of_lt {op : LoaderOpcode} {a sh : ℕ} (ha : a < 16) (hsh : sh < 16) :
    LoaderCommand.pack op a sh = ⟨op, a, sh⟩ := by
  simp [LoaderCommand.pack, Nat.mod_eq_of_lt ha, Nat.mod_eq_of_lt hsh]

theorem findFreeArrayBlock_spec {t : LoaderTables}
    (hfree : ∃ j < t.numFmsBlocks, t.arrayBlockMapTarget j = false) :
    findFreeArrayBlock t < t.numFmsBlocks ∧
      t.arrayBlockMapTarget (findFreeArrayBlock t) = false := by
  unfold findFreeArrayBlock
  rcases hfind : (List.range t.numFmsBlocks).find? (fun j ↦ !t.arrayBlockMapTarget j) with
    _ | j
  · obtain ⟨j, hj, hjfree⟩ := hfree
    rw [List.find?_eq_none] at hfind
    exact absurd (hfind j (List.mem_range.mpr hj)) (by simp [hjfree])
  · have hj := List.find?_some hfind
    have hmem := List.mem_of_find?_eq_some hfind
    exact ⟨by simpa using hmem, by simpa using hj⟩

theorem clone_outcome {E : Halt → Prop} {b : ℕ} (hN : s.numFmsBlocks ≤ totalFamosBlocks)
    (hb : b < 16) (hfree : ∃ j < s.numFmsBlocks, s.arrayBlockMapTarget j = false)
    (hE : nlmFmsLoaderCmdBuffSize ≤ s.loaderCmdMem.length + 6 → E .commandFifoOverrun) :
    Outcome (fun s' ↦ ∃ j, j < s.numFmsBlocks ∧ s.arrayBlockMapTarget j = false ∧
      s' = s.cloned j b) E (s.nlmDeviceLoaderClone b) := by
  obtain ⟨hlt, hidle⟩ := findFreeArrayBlock_spec hfree
  have hj : findFreeArrayBlock s.toLoaderTables < 16 :=
    (hlt.trans_le hN).trans (by decide)
  simp only [nlmDeviceLoaderClone, prettyAssert, hlt, decide_true, if_true, bind,
    Except.bind]
  refine (cmdAddAll_outcome _ _ b _ hE).imp ?_
  rintro s' rfl
  refine ⟨_, hlt, hidle, ?_⟩
  simp only [List.map_cons, List.map_nil, pack_of_lt hj hb]
  rfl

theorem declone_outcome {E : Halt → Prop} {j b : ℕ} (hj : j < 16) (hb : b < 16)
    (hE : nlmFmsLoaderCmdBuffSize ≤ s.loaderCmdMem.length + 4 → E .commandFifoOverrun) :
    Outcome (· = s.decloned j b) E (s.nlmDeviceLoaderDeclone j b) := by
  refine (cmdAddAll_outcome _ j b _ hE).imp ?_
  rintro s' rfl
  simp only [List.map_cons, List.map_nil, pack_of_lt hj hb]
  rfl

theorem settled_cloned (s : PhyDevice) (j b : ℕ) :
    (s.cloned j b).settled = s.settled.addClone j b := by
  rw [cloned, settled_enqueue, settled, mapTables, reserve_flushed]
  rfl

theorem settled_decloned (s : PhyDevice) (j b : ℕ) :
    (s.decloned j b).settled = s.settled.removeClone j b := by
  rw [decloned, settled_enqueue, settled, mapTables, reserve_flushed]
  rfl

/-! ## The invariant under queueing -/

section Queueing

variable {j b : ℕ}

theorem Inv.mapTables_same {f : LoaderTables → LoaderTables} (h : Inv hw U s)
    (hf : s.SameButGidBmap (f s.toLoaderTables)) :
    Inv hw U (s.mapTables f) ∧ s.settled.SameButGidBmap (s.mapTables f).settled := by
  have hsettled : s.settled.SameButGidBmap (s.mapTables f).settled :=
    hf.flushed s.loaderCmdMem
  refine ⟨⟨hf.placed h.placed, hf.legal h.legal, ?_, ?_, h.noResumeWait, h.waitOk,
    h.pauseTimeout_eq⟩, hsettled⟩
  · obtain ⟨shadow, regs, heq⟩ := hsettled
    obtain ⟨shadow', regs', heq'⟩ := hf
    rw [heq, show (s.mapTables f).arrayBlockMapTarget = s.arrayBlockMapTarget by
      simp only [mapTables, heq']; rfl]
    exact h.target_eq
  · intro b
    obtain ⟨shadow, regs, heq⟩ := hsettled
    obtain ⟨shadow', regs', heq'⟩ := hf
    rw [heq, show (s.mapTables f).databaseShadowMap = s.databaseShadowMap by
      simp only [mapTables, heq']; rfl]
    exact h.noClonesTarget_eq b

theorem Inv.enqueue {cmd : LoaderCommand} (h : Inv hw U s) (hpre : Pre U cmd s.settled)
    (hop : cmd.opcode ≠ .resumeWait ∧ cmd.opcode ≠ .pauseWait ∧
      cmd.opcode ≠ .dmaXferCompleteWait)
    (hcurrent : (s.settled.execute cmd).arrayBlockMapCurrent = s.settled.arrayBlockMapCurrent)
    (hclones : ∀ b, ((s.settled.execute cmd).databaseShadowMap b).noClonesCurrent =
      (s.settled.databaseShadowMap b).noClonesCurrent) : Inv hw U (s.enqueue [cmd]) := by
  have hsettled := settled_enqueue s [cmd]
  refine ⟨h.placed, ?_, ?_, ?_, ?_, ?_, h.pauseTimeout_eq⟩
  · exact (legal_append _ _ _).mpr ⟨h.legal, hpre, trivial⟩
  · rw [hsettled]
    exact h.target_eq.trans hcurrent.symm
  · intro b
    rw [hsettled]
    exact (h.noClonesTarget_eq b).trans (hclones b).symm
  · intro c hc
    rcases List.mem_append.mp hc with hc | hc
    · exact h.noResumeWait c hc
    · rw [List.mem_singleton.mp hc]
      exact hop.1
  · refine h.waitOk.append (List.isChain_singleton _) ?_
    simpa using hop.2

theorem Inv.cloned (h : Inv hw U s) (hj : j < s.numFmsBlocks)
    (hfree : s.arrayBlockMapTarget j = false)
    (hvalid : (s.settled.databaseShadowMap b).valid = true) : Inv hw U (s.cloned j b) := by
  have hN : s.settled.numFmsBlocks = s.numFmsBlocks := settled_numFmsBlocks s
  have hidle : s.settled.arrayBlockMapCurrent j = false := by
    rw [← h.target_eq]
    exact hfree
  refine ⟨h.placed.reserve j true b incr8, ?_, ?_, ?_, ?_, ?_, h.pauseTimeout_eq⟩
  · refine (legal_append _ _ _).mpr ⟨h.legal.reserve j true b incr8, ?_⟩
    change Legal U (cloneCmds j b) ((s.reserve j true b incr8).flushed s.loaderCmdMem)
    rw [reserve_flushed]
    have hvalid' : ((s.settled.reserve j true b incr8).databaseShadowMap b).valid = true :=
      (reserve_entry s.settled j true b incr8 b).1.trans hvalid
    refine ⟨trivial, trivial, trivial, trivial, hidle, ⟨?_, hidle, ?_, hvalid'⟩, trivial⟩
    · exact hj.trans_eq hN.symm
    · exact Function.update_self ..
  · rw [settled_cloned]
    change Function.update s.arrayBlockMapTarget j true = _
    rw [h.target_eq]
    rfl
  · intro x
    rw [settled_cloned, addClone_entry]
    change ((s.reserve j true b incr8).databaseShadowMap x).noClonesTarget = _
    rw [reserve_noClonesTarget]
    by_cases hx : x = b
    · simp [hx, h.noClonesTarget_eq b]
    · simp [hx, h.noClonesTarget_eq x]
  · intro c hc
    rcases List.mem_append.mp hc with hc | hc
    · exact h.noResumeWait c hc
    · have hcmds : ∀ c ∈ cloneCmds j b, c.opcode ≠ .resumeWait := by simp [cloneCmds]
      exact hcmds c hc
  · refine h.waitOk.append ?_ ?_
    · simp [cloneCmds, Follows]
    · simp [cloneCmds]

theorem Inv.decloned (h : Inv hw U s) (hmem : j ∈ s.settled.clones b)
    (hlast : b ∉ U → s.settled.arrayBlockCopyNumber j + 1 =
      (s.settled.databaseShadowMap b).noClonesCurrent) : Inv hw U (s.decloned j b) := by
  refine ⟨h.placed.reserve j false b decr8, ?_, ?_, ?_, ?_, ?_, h.pauseTimeout_eq⟩
  · refine (legal_append _ _ _).mpr ⟨h.legal.reserve j false b decr8, ?_⟩
    change Legal U (decloneCmds j b) ((s.reserve j false b decr8).flushed s.loaderCmdMem)
    rw [reserve_flushed]
    have hcur := (reserve_entry s.settled j false b decr8 b).2.1
    exact ⟨trivial, trivial, ⟨hmem, fun hb ↦ (hlast hb).trans hcur.symm⟩, trivial, trivial⟩
  · rw [settled_decloned]
    change Function.update s.arrayBlockMapTarget j false = _
    rw [h.target_eq]
    rfl
  · intro x
    rw [settled_decloned, removeClone_entry]
    change ((s.reserve j false b decr8).databaseShadowMap x).noClonesTarget = _
    rw [reserve_noClonesTarget]
    by_cases hx : x = b
    · simp [hx, h.noClonesTarget_eq b]
    · simp [hx, h.noClonesTarget_eq x]
  · intro c hc
    rcases List.mem_append.mp hc with hc | hc
    · exact h.noResumeWait c hc
    · have hcmds : ∀ c ∈ decloneCmds j b, c.opcode ≠ .resumeWait := by simp [decloneCmds]
      exact hcmds c hc
  · refine h.waitOk.append ?_ ?_
    · simp [decloneCmds, Follows]
    · simp [decloneCmds]

end Queueing

end PhyDevice

end NetL7.Loader
