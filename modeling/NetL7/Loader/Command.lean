import NetL7.Lib.DeferredQueue
import NetL7.Lib.Outcome
import NetL7.Loader.Scheduler
import Mathlib.Data.Nat.Find

/-!
# The loader's command queue

Accepted requests queue commands; `nlm_device_loader_cmd_exec_fms` executes at
most one command on each call. A wait command stays at the head of the queue
while the hardware is busy.
-/

namespace NetL7.Loader

/-- The answers of the hardware to the successive polls of its busy bits. Every
operation eventually completes. -/
structure Hw where
  ready : ℕ → Bool
  eventually_ready : ∀ n, ∃ k, ready (n + k) = true

/-- The number of busy answers before the next ready one. -/
def Hw.delay (hw : Hw) (n : ℕ) : ℕ := Nat.find (hw.eventually_ready n)

/-- No operation takes as many polls as the driver grants to a DMA transfer. -/
def Hw.Prompt (hw : Hw) : Prop := ∀ n, hw.delay n < 0xffffffff

theorem Hw.delay_succ_lt (hw : Hw) {n : ℕ} (h : hw.ready n = false) :
    hw.delay (n + 1) < hw.delay n := by
  have hfind : hw.ready (n + hw.delay n) = true := Nat.find_spec (hw.eventually_ready n)
  have hpos : hw.delay n ≠ 0 := by
    intro hzero
    rw [hzero, Nat.add_zero, h] at hfind
    exact Bool.noConfusion hfind
  have hle : hw.delay (n + 1) ≤ hw.delay n - 1 := by
    refine Nat.find_min' (hw.eventually_ready (n + 1)) ?_
    rwa [show n + 1 + (hw.delay n - 1) = n + hw.delay n by omega]
  omega

namespace LoaderTables

/-- The bulk update of `FMS_LOADER_CMD_GID_BMAP_CONFIGURE`. The shadow address
only selects the database; the array address carries a number of copies. -/
def gidBmapConfigure (t : LoaderTables) (cmd : LoaderCommand) : LoaderTables :=
  let blockList := t.createShadowBlockListByDbId (t.databaseShadowMap cmd.addrShadow).dbId
  (List.range t.numFmsBlocks).foldl (fun t j ↦
    blockList.foldl (fun t blk ↦
      if blk = t.arrayVirtIds j ∧ t.arrayBlockMapCurrent j = true ∧
          (t.databaseShadowMap blk).noClonesCurrent = cmd.addrArray then
        t.nlmDeviceBlockSchedulerAdd blk j (1 <<< t.arrayBlockCopyNumber j)
      else t) t) t

/-- The table updates of a command that completes. -/
def execute (t : LoaderTables) (cmd : LoaderCommand) : LoaderTables :=
  match cmd.opcode with
  | .arrayAdd =>
    ((t.setCurrent cmd.addrArray true).setCopyNumber cmd.addrArray
        (t.databaseShadowMap cmd.addrShadow).noClonesCurrent).setShadow cmd.addrShadow
      fun e ↦ { e with noClonesCurrent := incr8 e.noClonesCurrent }
  | .arrayDelete =>
    (t.setCurrent cmd.addrArray false).setShadow cmd.addrShadow
      fun e ↦ { e with noClonesCurrent := decr8 e.noClonesCurrent }
  | .shadowDelete => t.setShadow cmd.addrShadow fun e ↦ { e with valid := false }
  | .gidBmapConfigure => t.gidBmapConfigure cmd
  | .assignVirtBlkIdWait => t.setVirtId cmd.addrArray cmd.addrShadow
  | _ => t

end LoaderTables

/-- How the `switch` over the opcode is left. -/
inductive SwitchExit
  | brk
  | ret (status : NlmStatus)
  deriving DecidableEq

namespace PhyDevice

/-- Applies an update of the tables. -/
def mapTables (s : PhyDevice) (f : LoaderTables → LoaderTables) : PhyDevice :=
  { s with toLoaderTables := f s.toLoaderTables }

/-- One poll of a busy bit. -/
def poll (s : PhyDevice) : PhyDevice := { s with polls := s.polls + 1 }

/-- The `switch` of `nlm_device_loader_cmd_exec_fms`. -/
def cmdSwitch (hw : Hw) (cmd : LoaderCommand) (s : PhyDevice) :
    Except Halt (SwitchExit × PhyDevice) :=
  let done := s.mapTables (·.execute cmd)
  match cmd.opcode with
  | .shadowDelete => do
    prettyAssert ((s.databaseShadowMap cmd.addrShadow).noClonesCurrent == 0)
      .shadowStillCloned
    .ok (.brk, done)
  | .pause => .ok (.brk, { done with waitTimeout := s.pauseTimeout })
  | .pauseWait =>
    if s.waitTimeout = 1 then .ok (.ret .loaderBlockPauseTimeout, s)
    else if hw.ready s.polls then .ok (.brk, done.poll)
    else .ok (.ret .loaderInProgress, { s.poll with waitTimeout := s.waitTimeout - 1 })
  | .resume => .ok (.brk, { done with waitTimeout := 0xffff })
  | .resumeWait => do
    prettyAssert (s.waitTimeout != 0) .resumeWaitTimeout
    if hw.ready s.polls then .ok (.brk, done.poll)
    else .ok (.ret .loaderInProgress, { s.poll with waitTimeout := s.waitTimeout - 1 })
  | .dmaXferStart => .ok (.brk, { done with waitTimeout := 0xffffffff })
  | .dmaXferCompleteWait => do
    prettyAssert (s.waitTimeout != 0) .dmaWaitTimeout
    if hw.ready s.polls then .ok (.brk, done.poll)
    else .ok (.ret .loaderInProgress, { s.poll with waitTimeout := s.waitTimeout - 1 })
  | .assignVirtBlkIdWait =>
    if hw.ready s.polls then .ok (.brk, done.poll)
    else .ok (.ret .loaderInProgress, s.poll)
  | _ => .ok (.brk, done)

/-- The checks at the head of every loader entry point: the device exists, the
ring is the master ring and the thread is thread 0. -/
def loaderGuard (device : Option NlmDevice) (s : PhyDevice) : Option NlmStatus :=
  match device with
  | none => some .invalidArgument
  | some d =>
    if s.fmsRingId ≠ 0 then some .invalidRingId
    else if d.threadId ≠ 0 then some .invalidThreadId
    else none

/-- `nlm_device_loader_cmd_exec_fms` -/
def nlmDeviceLoaderCmdExecFms (hw : Hw) (device : Option NlmDevice) (s : PhyDevice) :
    Except Halt (NlmStatus × PhyDevice) :=
  match loaderGuard device s with
  | some status => .ok (status, s)
  | none =>
    match s.loaderCmdMem with
    | [] => .ok (.ok, s)
    | cmd :: rest => do
      match ← cmdSwitch hw cmd s with
      | (.ret status, s) => .ok (status, s)
      | (.brk, s) =>
        .ok (if rest = [] then .ok else .loaderInProgress, { s with loaderCmdMem := rest })

/-- `nlm_device_loader_cmd_add` -/
def nlmDeviceLoaderCmdAdd (s : PhyDevice) (cmd : LoaderCommand) : Except Halt PhyDevice := do
  prettyAssert (s.loaderCmdMem.length + 1 < nlmFmsLoaderCmdBuffSize) .commandFifoOverrun
  .ok { s with loaderCmdMem := s.loaderCmdMem ++ [cmd] }

/-- Adds one command for each opcode, all with the same addresses. -/
def cmdAddAll (s : PhyDevice) (addrArray addrShadow : ℕ) (opcodes : List LoaderOpcode) :
    Except Halt PhyDevice :=
  opcodes.foldlM (fun s op ↦ s.nlmDeviceLoaderCmdAdd (.pack op addrArray addrShadow)) s

/-- The first array block that no target clone occupies, `num_fms_blocks` if
there is none. -/
def findFreeArrayBlock (t : LoaderTables) : ℕ :=
  ((List.range t.numFmsBlocks).find? fun j ↦ !t.arrayBlockMapTarget j).getD t.numFmsBlocks

/-- `nlm_device_loader_clone` -/
def nlmDeviceLoaderClone (s : PhyDevice) (addrShadow : ℕ) : Except Halt PhyDevice := do
  let arrayBlockNo := findFreeArrayBlock s.toLoaderTables
  prettyAssert (arrayBlockNo < s.numFmsBlocks) .noFreeArrayBlock
  let s := s.mapTables fun t ↦ (t.setTarget arrayBlockNo true).setShadow addrShadow
    fun e ↦ { e with noClonesTarget := incr8 e.noClonesTarget }
  s.cmdAddAll arrayBlockNo addrShadow
    [.dmaXferStart, .dmaXferCompleteWait, .actionTableLoad, .assignVirtBlkId,
      .assignVirtBlkIdWait, .arrayAdd]

/-- `nlm_device_loader_declone` -/
def nlmDeviceLoaderDeclone (s : PhyDevice) (addrArray addrShadow : ℕ) :
    Except Halt PhyDevice :=
  let s := s.mapTables fun t ↦ (t.setTarget addrArray false).setShadow addrShadow
    fun e ↦ { e with noClonesTarget := decr8 e.noClonesTarget }
  s.cmdAddAll addrArray addrShadow [.pause, .pauseWait, .arrayDelete, .resume]

/-! ## One call of the executor -/

/-- Everything one pass through the `switch` can do: complete the command, wait
for the hardware, report a pause timeout, or fail an assertion. -/
theorem cmdSwitch_cases (hw : Hw) (cmd : LoaderCommand) (s : PhyDevice) :
    (∃ w p, cmdSwitch hw cmd s =
        .ok (.brk, { s.mapTables (·.execute cmd) with waitTimeout := w, polls := p }) ∧
      (cmd.opcode = .pause → w = s.pauseTimeout) ∧
      (cmd.opcode = .dmaXferStart → w = 0xffffffff)) ∨
    (∃ w, cmdSwitch hw cmd s =
        .ok (.ret .loaderInProgress, { s.poll with waitTimeout := w }) ∧
      hw.ready s.polls = false ∧
      (cmd.opcode = .pauseWait ∨ cmd.opcode = .dmaXferCompleteWait →
        w = s.waitTimeout - 1)) ∨
    (cmdSwitch hw cmd s = .ok (.ret .loaderBlockPauseTimeout, s) ∧
      cmd.opcode = .pauseWait ∧ s.waitTimeout = 1) ∨
    (cmdSwitch hw cmd s = .error .dmaWaitTimeout ∧ cmd.opcode = .dmaXferCompleteWait ∧
      s.waitTimeout = 0) ∨
    (cmdSwitch hw cmd s = .error .resumeWaitTimeout ∧ cmd.opcode = .resumeWait) ∨
    (cmdSwitch hw cmd s = .error .shadowStillCloned ∧ cmd.opcode = .shadowDelete ∧
      (s.databaseShadowMap cmd.addrShadow).noClonesCurrent ≠ 0) := by
  obtain ⟨opcode, a, sh⟩ := cmd
  cases opcode
  case shadowDelete =>
    by_cases hcur : (s.databaseShadowMap sh).noClonesCurrent = 0
    · refine .inl ⟨s.waitTimeout, s.polls, ?_, by simp, by simp⟩
      simp [cmdSwitch, prettyAssert, hcur, mapTables, bind, Except.bind]
    · simp [cmdSwitch, prettyAssert, hcur, bind, Except.bind]
  case pauseWait =>
    by_cases hw1 : s.waitTimeout = 1
    · simp [cmdSwitch, hw1]
    · by_cases hr : hw.ready s.polls = true
      · refine .inl ⟨s.waitTimeout, s.polls + 1, ?_, by simp, by simp⟩
        simp [cmdSwitch, hw1, hr, mapTables, poll]
      · refine .inr (.inl ⟨s.waitTimeout - 1, ?_, by simpa using hr, by simp⟩)
        simp [cmdSwitch, hw1, hr]
  case resumeWait =>
    by_cases hz : s.waitTimeout = 0
    · simp [cmdSwitch, prettyAssert, hz, bind, Except.bind]
    · by_cases hr : hw.ready s.polls = true
      · refine .inl ⟨s.waitTimeout, s.polls + 1, ?_, by simp, by simp⟩
        simp [cmdSwitch, prettyAssert, hz, hr, mapTables, poll, bind, Except.bind]
      · refine .inr (.inl ⟨s.waitTimeout - 1, ?_, by simpa using hr, by simp⟩)
        simp [cmdSwitch, prettyAssert, hz, hr, bind, Except.bind]
  case dmaXferCompleteWait =>
    by_cases hz : s.waitTimeout = 0
    · simp [cmdSwitch, prettyAssert, hz, bind, Except.bind]
    · by_cases hr : hw.ready s.polls = true
      · refine .inl ⟨s.waitTimeout, s.polls + 1, ?_, by simp, by simp⟩
        simp [cmdSwitch, prettyAssert, hz, hr, mapTables, poll, bind, Except.bind]
      · refine .inr (.inl ⟨s.waitTimeout - 1, ?_, by simpa using hr, by simp⟩)
        simp [cmdSwitch, prettyAssert, hz, hr, bind, Except.bind]
  case assignVirtBlkIdWait =>
    by_cases hr : hw.ready s.polls = true
    · refine .inl ⟨s.waitTimeout, s.polls + 1, ?_, by simp, by simp⟩
      simp [cmdSwitch, hr, mapTables, poll]
    · refine .inr (.inl ⟨s.waitTimeout, ?_, by simpa using hr, by simp⟩)
      simp [cmdSwitch, hr, poll]
  case pause => exact .inl ⟨s.pauseTimeout, s.polls, rfl, fun _ ↦ rfl, by simp⟩
  case resume => exact .inl ⟨0xffff, s.polls, rfl, by simp, by simp⟩
  case dmaXferStart => exact .inl ⟨0xffffffff, s.polls, rfl, by simp, fun _ ↦ rfl⟩
  all_goals exact .inl ⟨s.waitTimeout, s.polls, rfl, by simp, by simp⟩

variable {hw : Hw} {device : Option NlmDevice} {s s' : PhyDevice} {cmd : LoaderCommand}
  {rest : List LoaderCommand} {status : NlmStatus}

theorem exec_of_guard (h : loaderGuard device s = some status) :
    nlmDeviceLoaderCmdExecFms hw device s = .ok (status, s) := by
  simp [nlmDeviceLoaderCmdExecFms, h]

theorem exec_nil (h : loaderGuard device s = none) (hq : s.loaderCmdMem = []) :
    nlmDeviceLoaderCmdExecFms hw device s = .ok (.ok, s) := by
  simp [nlmDeviceLoaderCmdExecFms, h, hq]

theorem exec_brk (h : loaderGuard device s = none) (hq : s.loaderCmdMem = cmd :: rest)
    (hsw : cmdSwitch hw cmd s = .ok (.brk, s')) :
    nlmDeviceLoaderCmdExecFms hw device s =
      .ok (if rest = [] then .ok else .loaderInProgress, { s' with loaderCmdMem := rest }) := by
  simp [nlmDeviceLoaderCmdExecFms, h, hq, hsw, bind, Except.bind]

theorem exec_ret (h : loaderGuard device s = none) (hq : s.loaderCmdMem = cmd :: rest)
    (hsw : cmdSwitch hw cmd s = .ok (.ret status, s')) :
    nlmDeviceLoaderCmdExecFms hw device s = .ok (status, s') := by
  simp [nlmDeviceLoaderCmdExecFms, h, hq, hsw, bind, Except.bind]

theorem exec_error {e : Halt} (h : loaderGuard device s = none)
    (hq : s.loaderCmdMem = cmd :: rest) (hsw : cmdSwitch hw cmd s = .error e) :
    nlmDeviceLoaderCmdExecFms hw device s = .error e := by
  simp [nlmDeviceLoaderCmdExecFms, h, hq, hsw, bind, Except.bind]

theorem loaderGuard_ne_inProgress (h : loaderGuard device s = some status) :
    status ≠ .loaderInProgress := by
  rcases device with _ | d
  · simp only [loaderGuard, Option.some.injEq] at h
    simp [← h]
  · by_cases hring : s.fmsRingId = 0 <;> by_cases hthread : d.threadId = 0 <;>
      simp_all [loaderGuard] <;> simp [← h]

/-- While it reports progress, the executor consumes a command or a busy
answer. -/
theorem exec_inProgress_decreases
    (h : nlmDeviceLoaderCmdExecFms hw device s = .ok (.loaderInProgress, s')) :
    s'.loaderCmdMem.length < s.loaderCmdMem.length ∨
      s'.loaderCmdMem.length = s.loaderCmdMem.length ∧
        hw.delay s'.polls < hw.delay s.polls := by
  rcases hg : loaderGuard device s with _ | status
  · rcases hq : s.loaderCmdMem with _ | ⟨cmd, rest⟩
    · simp [exec_nil hg hq] at h
    · obtain ⟨w, p, hsw, -⟩ | ⟨w, hsw, hbusy, -⟩ | ⟨hsw, -⟩ | ⟨hsw, -⟩ | ⟨hsw, -⟩ | ⟨hsw, -⟩ :=
        cmdSwitch_cases hw cmd s
      · rw [exec_brk hg hq hsw, Except.ok.injEq, Prod.mk.injEq] at h
        exact .inl (by simp [← h.2])
      · rw [exec_ret hg hq hsw, Except.ok.injEq, Prod.mk.injEq] at h
        refine .inr ⟨by simp [← h.2, poll, hq], ?_⟩
        rw [← h.2]
        exact hw.delay_succ_lt hbusy
      · simp [exec_ret hg hq hsw] at h
      · simp [exec_error hg hq hsw] at h
      · simp [exec_error hg hq hsw] at h
      · simp [exec_error hg hq hsw] at h
  · simp only [exec_of_guard hg, Except.ok.injEq, Prod.mk.injEq] at h
    exact absurd h.1 (loaderGuard_ne_inProgress hg)

/-- The loop `do … while (NLM_LOADER_IN_PROGRESS == status)` that ends the
synchronous calls. -/
def drain (hw : Hw) (device : Option NlmDevice) (s : PhyDevice) :
    Except Halt (NlmStatus × PhyDevice) :=
  match _h : nlmDeviceLoaderCmdExecFms hw device s with
  | .error e => .error e
  | .ok (.loaderInProgress, s') => drain hw device s'
  | .ok (status, s') => .ok (status, s')
termination_by (s.loaderCmdMem.length, hw.delay s.polls)
decreasing_by
  rcases exec_inProgress_decreases _h with hlt | ⟨heq, hlt⟩
  · exact Prod.Lex.left _ _ hlt
  · rw [heq]
    exact Prod.Lex.right _ hlt

/-- The loop rule of `drain`. -/
theorem drain_outcome {P : PhyDevice → Prop} {Q : NlmStatus × PhyDevice → Prop}
    {E : Halt → Prop}
    (hstep : ∀ s, P s → Lib.Outcome
      (fun r ↦ (r.1 = .loaderInProgress → P r.2) ∧ (r.1 ≠ .loaderInProgress → Q r)) E
      (nlmDeviceLoaderCmdExecFms hw device s)) (hs : P s) :
    Lib.Outcome Q E (drain hw device s) := by
  fun_induction drain hw device s with
  | case1 s e h => exact (hstep s hs).of_eq_error h
  | case2 s s' h ih => exact ih (((hstep s hs).of_eq_ok h).1 rfl)
  | case3 s status s' hne h => exact ((hstep s hs).of_eq_ok h).2 fun heq ↦ hne heq

end PhyDevice

end NetL7.Loader
