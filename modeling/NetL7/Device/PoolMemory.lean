import NetL7.Device.Attach
import NetL7.Device.PoolPartition

/-!
# The memory of the handles

A handle lies in memory from `xmalloc` or in the pool of the configuration. Three
functions choose between the two in different orders, no failing call gives back
what it obtained, and `nlm_device_detach` frees whatever the handle recorded.
-/

namespace NetL7.Device

open NetL7.Lib NetL7.Packet NlmDeviceConfig

/-- What a call does with the memory of handles. -/
inductive PoolAction
  | xmalloc (size result : ℕ)
  | xfree (memoryPool : ℕ)
  | write (base size : ℕ)
  deriving DecidableEq

/-- The checks of `nlm_device_init_1` between those of sizes and the choice of the
memory. -/
def NlmDeviceConfig.Clashes (c : NlmDeviceConfig) : Prop :=
  c.sysmemBaseVirt % 8 ≠ 0 ∨ c.memoryPool = c.sysmemBaseVirt ∨
    c.registerMapBaseVirt = c.memoryPool ∨ c.registerMapBaseVirt = c.sysmemBaseVirt ∨
    c.registerMapBasePhys = c.sysmemBasePhys ∨
    c.inputFifoSize &&& (c.inputFifoSize - 1) ≠ 0 ∨
    c.outputFifoSize &&& (c.outputFifoSize - 1) ≠ 0

/-- `nlm_device_init_1` returns before it takes memory. -/
def NlmDeviceConfig.Refused (c : NlmDeviceConfig) : Prop :=
  c.Incomplete ∨ c.threadId ≠ 0 ∨ c.Clashes

instance (c : NlmDeviceConfig) : Decidable c.Clashes := inferInstanceAs (Decidable (_ ∨ _))

instance (c : NlmDeviceConfig) : Decidable c.Refused := inferInstanceAs (Decidable (_ ∨ _))

/-- The test of `device_attach`. -/
def Excess (p : NlmPhyDevice) (c : NlmDeviceConfig) : Prop :=
  c.maxThreads < (p.threadsAttached + 1) % 2 ^ 32

instance (p : NlmPhyDevice) (c : NlmDeviceConfig) : Decidable (Excess p c) :=
  inferInstanceAs (Decidable (_ < _))

/-- `device_attach` clears its memory and fills in the handle at its base. -/
def deviceAttachActions (p : NlmPhyDevice) (c : NlmDeviceConfig) (base size : ℕ) :
    List PoolAction :=
  if Excess p c then [] else [.write base size, .write base sizeofNlmDevice]

/-- `nlm_device_init_1` -/
def nlmDeviceInit1Actions (p : NlmPhyDevice) (c : NlmDeviceConfig) (allocated : ℕ)
    (initStatus : NlmStatus) : List PoolAction :=
  if c.Refused then []
  else
    let obtained := if c.xmalloc ≠ 0 then [.xmalloc c.memoryPoolSize allocated] else []
    if c.initPool allocated = 0 ∨ c.initPool allocated % 8 ≠ 0 then obtained
    else
      let base := if c.xmalloc ≠ 0 then allocated else c.initSlice.memoryPool
      let size := if c.xmalloc ≠ 0 then c.memoryPoolSize else c.initSlice.memoryPoolSize
      -- the first word is cleared, so that a bad configuration shows at once
      let touched := obtained ++ [.write base 4]
      if initStatus ≠ .ok then touched
      else touched ++ deviceAttachActions (physicalDeviceInit p c initStatus).2 c base size

/-- The attaching of the manager thread. -/
def attachManagerActions (p : NlmPhyDevice) (c : NlmDeviceConfig) (allocated : ℕ) :
    List PoolAction :=
  if p.config.usingManagerThread = false then []
  else if c.xmalloc ≠ 0 then
    .xmalloc sizeofNlmDevice allocated ::
      if allocated = 0 then []
      -- the pool of the configuration is cleared, not the new handle
      else [.write c.memoryPool sizeofNlmDevice, .write allocated sizeofNlmDevice]
  else [.write c.memoryPool sizeofNlmDevice]

/-- The attaching of a dataplane thread, which prefers the pool to `xmalloc`. -/
def attachThreadActions (p : NlmPhyDevice) (c : NlmDeviceConfig) (allocated : ℕ) :
    List PoolAction :=
  if c.memoryPool ≠ 0 then
    if c.memoryPool % 8 ≠ 0 then []
    else deviceAttachActions p c (c.attachSlice c.threadId).memoryPool
      (c.attachSlice c.threadId).memoryPoolSize
  else if c.xmalloc ≠ 0 then
    .xmalloc c.memoryPoolSize allocated ::
      if allocated = 0 then []
      else deviceAttachActions p c allocated (alignDown 8 c.memoryPoolSize)
  else []

/-- The checks of `nlm_device_attach` for a thread other than thread 0. -/
def AttachChecked (p : NlmPhyDevice) (c : NlmDeviceConfig) : Prop :=
  ¬ (nlmMaxThreads - 1 < c.threadId ∧ c.threadId ≠ nlmManagerThreadId) ∧
    c.ringId < nlmLastUnusedRingId ∧ c.threadId ≠ 0 ∧ c.sysmemBaseVirt ≠ 0 ∧
    p.deviceMagic = nlmDeviceMagic ∧ compareConfigs p.config c = .ok

instance (p : NlmPhyDevice) (c : NlmDeviceConfig) : Decidable (AttachChecked p c) :=
  inferInstanceAs (Decidable (_ ∧ _))

/-- `nlm_device_attach` -/
def nlmDeviceAttachActions (p : NlmPhyDevice) (c : NlmDeviceConfig) (allocated : ℕ)
    (initStatus : NlmStatus) : List PoolAction :=
  if c.threadId = 0 then
    if c.ringId = nlmMasterRing ∨ nlmLastUnusedRingId ≤ c.ringId then []
    else nlmDeviceInit1Actions p c allocated initStatus
  else if ¬ AttachChecked p c then []
  else if c.threadId = nlmManagerThreadId then attachManagerActions p c allocated
  else attachThreadActions p c allocated

/-- A handle, with the configuration it was attached with and what `xmalloc` returned
for it. -/
structure PoolHandle where
  device : NlmDevice
  config : NlmDeviceConfig
  memoryPool : ℕ
  block : Option ℕ
  deriving DecidableEq

/-- What `nlm_device_init_1` records in the handle. -/
def initHandle (c : NlmDeviceConfig) (allocated : ℕ) (device : NlmDevice) : PoolHandle where
  device := device
  config := c
  memoryPool := if c.xmalloc ≠ 0 then allocated else c.initSlice.memoryPool
  block := if c.xmalloc ≠ 0 then some allocated else none

/-- What `nlm_device_attach` records in the handle. -/
def attachHandle (c : NlmDeviceConfig) (allocated : ℕ) (device : NlmDevice) : PoolHandle :=
  if c.threadId = 0 then initHandle c allocated device
  else if c.threadId = nlmManagerThreadId then
    ⟨device, c, c.memoryPool, if c.xmalloc ≠ 0 then some allocated else none⟩
  else if c.memoryPool ≠ 0 then ⟨device, c, (c.attachSlice c.threadId).memoryPool, none⟩
  else ⟨device, c, allocated, some allocated⟩

/-- `nlm_device_detach` -/
def nlmDeviceDetachActions (p : NlmPhyDevice) (h : PoolHandle) : List PoolAction :=
  if p.deviceMagic ≠ nlmDeviceMagic then []
  else if h.device.fmsRingId = 0 ∧ h.device.threadId = 0 then []
  else if p.config.xfree ≠ 0 then [.xfree h.memoryPool]
  else []

/-! ## Runs -/

/-- Thread 0 gets a block that is aligned and large enough for the handle, and the
rest of the initialisation succeeds. -/
def InitRegular (c : NlmDeviceConfig) (allocated : ℕ) (initStatus : NlmStatus) : Prop :=
  ¬ c.Refused → allocated ≠ 0 →
    allocated % 8 = 0 ∧ initStatus = .ok ∧ sizeofNlmDevice ≤ c.memoryPoolSize

instance (c : NlmDeviceConfig) (allocated : ℕ) (initStatus : NlmStatus) :
    Decidable (InitRegular c allocated initStatus) :=
  inferInstanceAs (Decidable (_ → _ → _))

/-- The calls, with the answers of `xmalloc` and the hardware. -/
inductive PoolCall
  | init (c : NlmDeviceConfig) (allocated : ℕ) (initStatus : NlmStatus)
  | attach (c : NlmDeviceConfig) (allocated : ℕ) (initStatus : NlmStatus)
  | detachNull (contextRing xauiBuffers : NlmStatus)
  | detach (h : PoolHandle) (contextRing xauiBuffers : NlmStatus)

namespace PoolCall

/-- The configuration that the call is given. -/
def config : PoolCall → Option NlmDeviceConfig
  | .init c _ _ => some c
  | .attach c _ _ => some c
  | _ => none

/-- The address of the ring that the call works on. -/
def sysmem : PoolCall → ℕ
  | .init c _ _ => c.sysmemBaseVirt
  | .attach c _ _ => c.sysmemBaseVirt
  | .detachNull _ _ => 0
  | .detach h _ _ => h.config.sysmemBaseVirt

def actions (p : NlmPhyDevice) : PoolCall → List PoolAction
  | .init c allocated initStatus =>
    if c.ringId ≠ nlmMasterRing then [] else nlmDeviceInit1Actions p c allocated initStatus
  | .attach c allocated initStatus => nlmDeviceAttachActions p c allocated initStatus
  | .detachNull _ _ => []
  | .detach h _ _ => nlmDeviceDetachActions p h

/-- The handle that the call gives out. -/
def handle (p : NlmPhyDevice) : PoolCall → Option PoolHandle
  | .init c allocated initStatus =>
    (nlmDeviceInit p c allocated initStatus).2.1.map (initHandle c allocated)
  | .attach c allocated initStatus =>
    (nlmDeviceAttach p c allocated initStatus).bind fun r ↦ r.2.1.map (attachHandle c allocated)
  | _ => none

def phy (p : NlmPhyDevice) : PoolCall → NlmPhyDevice
  | .init c allocated initStatus => (nlmDeviceInit p c allocated initStatus).2.2
  | .attach c allocated initStatus =>
    ((nlmDeviceAttach p c allocated initStatus).map fun r ↦ r.2.2).getD p
  | .detachNull _ _ => p
  | .detach h contextRing xauiBuffers =>
    (nlmDeviceDetach p (some h.device) contextRing xauiBuffers).2.2

/-- What the memory of a call needs to be paired, on the ring `p`. -/
def Regular (p : NlmPhyDevice) : PoolCall → Prop
  | .init c allocated initStatus =>
    c.ringId = nlmMasterRing → InitRegular c allocated initStatus
  | .attach c allocated initStatus =>
    (c.threadId = 0 → c.ringId ≠ nlmMasterRing → c.ringId < nlmLastUnusedRingId →
      InitRegular c allocated initStatus) ∧
    (AttachChecked p c → c.threadId = nlmManagerThreadId →
      p.config.usingManagerThread = true → allocated ≠ 0 →
      c.memoryPool ≠ 0 ∧ sizeofNlmDevice ≤ c.memoryPoolSize) ∧
    (AttachChecked p c → c.threadId ≠ nlmManagerThreadId → c.memoryPool ≠ 0 →
      c.memoryPool % 8 = 0 → ¬ Excess p c →
      c.InPool (c.attachSlice c.threadId).memoryPool (c.attachSlice c.threadId).memoryPoolSize ∧
        c.InPool (c.attachSlice c.threadId).memoryPool sizeofNlmDevice) ∧
    (AttachChecked p c → c.threadId ≠ nlmManagerThreadId → c.memoryPool = 0 →
      allocated ≠ 0 → ¬ Excess p c ∧ sizeofNlmDevice ≤ c.memoryPoolSize)
  | .detachNull _ _ => True
  | .detach h _ _ => h.device.threadId = 0 ∨ h.config.memoryPool = 0

end PoolCall

/-- The blocks that `xmalloc` has given out, with their sizes. -/
def PoolAction.apply (live : List (ℕ × ℕ)) : PoolAction → List (ℕ × ℕ)
  | .xmalloc size result => if result = 0 then live else (result, size) :: live
  | .xfree memoryPool => live.filter fun block ↦ block.1 ≠ memoryPool
  | .write _ _ => live

/-- The rings by the address of their system memory, the attached handles and the
blocks that have not been freed. -/
structure PoolRun where
  rings : ℕ → NlmPhyDevice
  handles : List PoolHandle
  live : List (ℕ × ℕ)

namespace PoolRun

/-- The ring that a call works on. -/
def ring (s : PoolRun) (call : PoolCall) : NlmPhyDevice := s.rings call.sysmem

/-- The handles behind a call. -/
def handlesAfter (s : PoolRun) : PoolCall → List PoolHandle
  | .detach h contextRing xauiBuffers =>
    if (nlmDeviceDetach (s.rings h.config.sysmemBaseVirt) (some h.device) contextRing
        xauiBuffers).2.1 then s.handles.erase h
    else s.handles
  | call => (call.handle (s.ring call)).toList ++ s.handles

def next (s : PoolRun) (call : PoolCall) : PoolRun where
  rings := Function.update s.rings call.sysmem (call.phy (s.ring call))
  handles := s.handlesAfter call
  live := (call.actions (s.ring call)).foldl PoolAction.apply s.live

/-- Every configuration supplies `xmalloc` and `xfree`, `xmalloc` returns no block that
is still in use, and a thread detaches through its handle. -/
structure Legal (s : PoolRun) (call : PoolCall) : Prop where
  supplied : ∀ c, call.config = some c → c.xmalloc ≠ 0 ∧ c.xfree ≠ 0
  fresh : ∀ size result, .xmalloc size result ∈ call.actions (s.ring call) →
    result ∉ s.live.map Prod.fst
  attached : ∀ h contextRing xauiBuffers, call = .detach h contextRing xauiBuffers →
    h ∈ s.handles

inductive Step : PoolRun → PoolCall → PoolRun → Prop
  | mk {s : PoolRun} {call : PoolCall} (hlegal : s.Legal call) : Step s call (s.next call)

/-- The memory lies in a block, or in the pool of the configuration. -/
def Allowed (live : List (ℕ × ℕ)) (c : Option NlmDeviceConfig) (base size : ℕ) : Prop :=
  (∃ block ∈ live, block.1 ≤ base ∧ base + size ≤ block.1 + block.2) ∨
    ∃ d, c = some d ∧ d.memoryPool ≠ 0 ∧ d.InPool base size

/-- What is freed was obtained for the handle and is still in use, what is written may
be written, and a call that gives out no handle keeps no block. -/
structure StepOk (s : PoolRun) (call : PoolCall) (s' : PoolRun) : Prop where
  freed : ∀ q, .xfree q ∈ call.actions (s.ring call) → q ∈ s.live.map Prod.fst ∧
    ∃ h contextRing xauiBuffers, call = .detach h contextRing xauiBuffers ∧ h.block = some q
  written : ∀ base size, .write base size ∈ call.actions (s.ring call) →
    Allowed s'.live call.config base size
  kept : call.handle (s.ring call) = none → ∀ size result, result ≠ 0 →
    .xmalloc size result ∈ call.actions (s.ring call) → .xfree result ∈ call.actions (s.ring call)

/-- The calls whose memory is paired. -/
def Regular (s : PoolRun) (call : PoolCall) : Prop := call.Regular (s.ring call)

variable {s s' : PoolRun} {call : PoolCall} {p : NlmPhyDevice} {c : NlmDeviceConfig}
  {allocated : ℕ} {initStatus : NlmStatus} {h : PoolHandle} {acts : List PoolAction}

/-- What detaching the handle frees is the block obtained for it. -/
def Own (h : PoolHandle) : Prop := h.device.threadId = 0 ∨ h.config.memoryPool = 0

/-- All actions write, and only where `P` allows it. -/
def WritesIn (P : ℕ → ℕ → Prop) (acts : List PoolAction) : Prop :=
  ∀ a ∈ acts, ∃ base size, a = .write base size ∧ P base size

/-- The memory lies in the pool that the configuration names. -/
def InConfigPool (c : NlmDeviceConfig) (base size : ℕ) : Prop :=
  c.memoryPool ≠ 0 ∧ c.InPool base size

/-- What a regular call of `nlm_device_init` or `nlm_device_attach` comes to. -/
inductive Outcome (c : NlmDeviceConfig) : Option PoolHandle → List PoolAction → Prop
  | nothing : Outcome c none []
  | noBlock (size : ℕ) : Outcome c none [.xmalloc size 0]
  | block {h : PoolHandle} {size b : ℕ} {acts : List PoolAction} (hb : b ≠ 0)
      (hblock : h.block = some b) (hown : Own h → h.memoryPool = b)
      (hwrites : WritesIn (fun lo n ↦ b ≤ lo ∧ lo + n ≤ b + size ∨ InConfigPool c lo n) acts) :
      Outcome c (some h) (.xmalloc size b :: acts)
  | pool {h : PoolHandle} {acts : List PoolAction} (hblock : h.block = none) (hown : ¬ Own h)
      (hwrites : WritesIn (InConfigPool c) acts) : Outcome c (some h) acts

theorem misplaced_iff (c : NlmDeviceConfig) (pool : ℕ) :
    c.Misplaced pool ↔ c.Clashes ∨ pool = 0 ∨ pool % 8 ≠ 0 := by
  simp only [Misplaced, Clashes, or_assoc]

theorem initError_eq_none_iff (c : NlmDeviceConfig) (allocated : ℕ) :
    c.initError allocated = none ↔
      ¬ c.Refused ∧ ¬ (c.initPool allocated = 0 ∨ c.initPool allocated % 8 ≠ 0) := by
  have hiff := misplaced_iff c (c.initPool allocated)
  unfold initError Refused
  split_ifs with hincomplete hthread hmisplaced
  · exact ⟨fun h ↦ h.elim, fun h ↦ (h.1 (Or.inl hincomplete)).elim⟩
  · exact ⟨fun h ↦ h.elim, fun h ↦ (h.1 (Or.inr (Or.inl hthread))).elim⟩
  · refine ⟨fun h ↦ h.elim, fun h ↦ ?_⟩
    cases hiff.mp hmisplaced with
    | inl hclash => exact (h.1 (Or.inr (Or.inr hclash))).elim
    | inr hpool => exact (h.2 hpool).elim
  · refine ⟨fun _ ↦ ⟨?_, fun hpool ↦ hmisplaced (hiff.mpr (Or.inr hpool))⟩, fun _ ↦ rfl⟩
    rintro (hor | hor | hor)
    · exact hincomplete hor
    · exact hthread hor
    · exact hmisplaced (hiff.mpr (Or.inl hor))

theorem init1_eq_none (h : c.initError allocated ≠ none) :
    (nlmDeviceInit1 p c allocated initStatus).2.1 = none := by
  cases herror : c.initError allocated with
  | none => exact absurd herror h
  | some status => simp only [nlmDeviceInit1, herror]

theorem init1_eq_some (h : c.initError allocated = none) (hstatus : initStatus = .ok) :
    (nlmDeviceInit1 p c allocated initStatus).2.1 = some ⟨c.ringId, c.threadId⟩ ∧
      ¬ Excess (physicalDeviceInit p c initStatus).2 c := by
  obtain ⟨-, hpos, -⟩ := RingState.threads_bounds h
  have hle : ¬ c.maxThreads < 1 := by omega
  refine ⟨?_, hle⟩
  simp [nlmDeviceInit1, h, physicalDeviceInit, hstatus, deviceAttach, hle]

theorem init1_outcome (hx : c.xmalloc ≠ 0) (hregular : InitRegular c allocated initStatus) :
    Outcome c ((nlmDeviceInit1 p c allocated initStatus).2.1.map (initHandle c allocated))
      (nlmDeviceInit1Actions p c allocated initStatus) := by
  have hpool : c.initPool allocated = allocated := if_pos hx
  unfold nlmDeviceInit1Actions
  by_cases hrefused : c.Refused
  · have herror : c.initError allocated ≠ none := fun hnone ↦
      ((initError_eq_none_iff c allocated).mp hnone).1 hrefused
    rw [init1_eq_none herror, if_pos hrefused]
    exact .nothing
  · rw [if_neg hrefused, hpool]
    simp only [if_pos hx]
    by_cases hzero : allocated = 0
    · have herror : c.initError allocated ≠ none := fun hnone ↦
        ((initError_eq_none_iff c allocated).mp hnone).2 (Or.inl (hpool.trans hzero))
      rw [init1_eq_none herror, if_pos (Or.inl hzero), hzero]
      exact .noBlock _
    · obtain ⟨hmod, hstatus, hsize⟩ := hregular hrefused hzero
      have hgood : ¬ (allocated = 0 ∨ allocated % 8 ≠ 0) := by omega
      have hnone : c.initError allocated = none := by
        apply (initError_eq_none_iff c allocated).mpr
        rw [hpool]
        exact ⟨hrefused, hgood⟩
      obtain ⟨hhandle, hroom⟩ := init1_eq_some (p := p) hnone hstatus
      rw [hhandle, if_neg hgood, if_neg (not_not.mpr hstatus), deviceAttachActions, if_neg hroom]
      refine .block hzero (if_pos hx) (fun _ ↦ if_pos hx) fun a ha ↦ ?_
      have hmem : a = .write allocated 4 ∨ a = .write allocated c.memoryPoolSize ∨
          a = .write allocated sizeofNlmDevice := by simpa using ha
      have hword : 4 ≤ sizeofNlmDevice := by decide
      rcases hmem with rfl | rfl | rfl
      · exact ⟨_, _, rfl, Or.inl ⟨le_rfl, by omega⟩⟩
      · exact ⟨_, _, rfl, Or.inl ⟨le_rfl, le_rfl⟩⟩
      · exact ⟨_, _, rfl, Or.inl ⟨le_rfl, by omega⟩⟩

theorem attachManager_outcome (hx : c.xmalloc ≠ 0) (hthread : c.threadId = nlmManagerThreadId)
    (hregular : p.config.usingManagerThread = true → allocated ≠ 0 →
      c.memoryPool ≠ 0 ∧ sizeofNlmDevice ≤ c.memoryPoolSize) :
    Outcome c ((attachManager p c allocated).bind fun r ↦ r.2.1.map (attachHandle c allocated))
      (attachManagerActions p c allocated) := by
  unfold attachManager attachManagerActions
  by_cases husing : p.config.usingManagerThread = false
  · rw [if_pos husing, if_pos husing]
    exact .nothing
  · rw [if_neg husing, if_neg husing, if_pos hx, if_pos hx]
    by_cases hzero : allocated = 0
    · rw [if_pos hzero, if_pos hzero, hzero]
      exact .noBlock _
    · obtain ⟨hpool, hsize⟩ := hregular (Bool.not_eq_false _ ▸ husing) hzero
      have hne : c.threadId ≠ 0 := fun heq ↦ absurd (hthread.symm.trans heq) (by decide)
      have hhandle : attachHandle c allocated ⟨c.ringId, c.threadId⟩ =
          ⟨⟨c.ringId, c.threadId⟩, c, c.memoryPool, some allocated⟩ := by
        rw [attachHandle, if_neg hne, if_pos hthread, if_pos hx]
      rw [if_neg hzero, if_neg hzero, if_neg hpool]
      change Outcome c (some (attachHandle c allocated ⟨c.ringId, c.threadId⟩)) _
      rw [hhandle]
      refine .block hzero rfl ?_ fun a ha ↦ ?_
      · rintro (heq | heq)
        · exact absurd heq hne
        · exact absurd heq hpool
      · have hmem : a = .write c.memoryPool sizeofNlmDevice ∨
            a = .write allocated sizeofNlmDevice := by simpa using ha
        rcases hmem with rfl | rfl
        · exact ⟨_, _, rfl, Or.inr ⟨hpool, le_rfl, by omega⟩⟩
        · exact ⟨_, _, rfl, Or.inl ⟨le_rfl, le_rfl⟩⟩

theorem deviceAttach_handle (p : NlmPhyDevice) (c : NlmDeviceConfig) :
    (deviceAttach p c).2.1 = if Excess p c then none else some ⟨c.ringId, c.threadId⟩ := by
  by_cases hexcess : Excess p c
  · have hattach : deviceAttach p c = (.excessDeviceAttach, none,
        { p with threadsAttached := (p.threadsAttached + 1) % 2 ^ 32 }) := if_pos hexcess
    rw [hattach, if_pos hexcess]
  · have hattach : deviceAttach p c = (.ok, some ⟨c.ringId, c.threadId⟩,
        { p with threadsAttached := (p.threadsAttached + 1) % 2 ^ 32 }) := if_neg hexcess
    rw [hattach, if_neg hexcess]

theorem attachThread_outcome (hx : c.xmalloc ≠ 0) (hzero : c.threadId ≠ 0)
    (hthread : c.threadId ≠ nlmManagerThreadId)
    (hslice : c.memoryPool ≠ 0 → c.memoryPool % 8 = 0 → ¬ Excess p c →
      c.InPool (c.attachSlice c.threadId).memoryPool (c.attachSlice c.threadId).memoryPoolSize ∧
        c.InPool (c.attachSlice c.threadId).memoryPool sizeofNlmDevice)
    (hblock : c.memoryPool = 0 → allocated ≠ 0 →
      ¬ Excess p c ∧ sizeofNlmDevice ≤ c.memoryPoolSize) :
    Outcome c ((if NoPool c allocated then some (.invalidDeviceConfig, none, p)
        else some (deviceAttach p c)).bind fun r ↦ r.2.1.map (attachHandle c allocated))
      (attachThreadActions p c allocated) := by
  have hhandle : ∀ device, attachHandle c allocated device =
      if c.memoryPool ≠ 0 then ⟨device, c, (c.attachSlice c.threadId).memoryPool, none⟩
      else ⟨device, c, allocated, some allocated⟩ := fun device ↦ by
    rw [attachHandle, if_neg hzero, if_neg hthread]
  unfold attachThreadActions
  by_cases hpool : c.memoryPool ≠ 0
  · rw [if_pos hpool]
    by_cases hmod : c.memoryPool % 8 ≠ 0
    · have hno : NoPool c allocated := by rwa [NoPool, if_pos hpool]
      rw [if_pos hno, if_pos hmod]
      exact .nothing
    · have hyes : ¬ NoPool c allocated := by rwa [NoPool, if_pos hpool]
      rw [if_neg hyes, if_neg hmod, Option.bind_some, deviceAttach_handle, deviceAttachActions]
      by_cases hexcess : Excess p c
      · rw [if_pos hexcess, if_pos hexcess]
        exact .nothing
      · obtain ⟨hall, hdevice⟩ := hslice hpool (not_not.mp hmod) hexcess
        rw [if_neg hexcess, if_neg hexcess, Option.map_some, hhandle, if_pos hpool]
        refine .pool rfl ?_ fun a ha ↦ ?_
        · rintro (heq | heq)
          · exact hzero heq
          · exact hpool heq
        · have hmem : a = .write (c.attachSlice c.threadId).memoryPool
                (c.attachSlice c.threadId).memoryPoolSize ∨
              a = .write (c.attachSlice c.threadId).memoryPool sizeofNlmDevice := by simpa using ha
          rcases hmem with rfl | rfl
          · exact ⟨_, _, rfl, hpool, hall⟩
          · exact ⟨_, _, rfl, hpool, hdevice⟩
  · have hnull := not_not.mp hpool
    rw [if_neg hpool, if_pos hx]
    by_cases hfail : allocated = 0
    · have hno : NoPool c allocated := by
        rw [NoPool, if_neg hpool]
        exact Or.inr hfail
      rw [if_pos hno, if_pos hfail, hfail]
      exact .noBlock _
    · obtain ⟨hexcess, hsize⟩ := hblock hnull hfail
      have hyes : ¬ NoPool c allocated := by
        rw [NoPool, if_neg hpool]
        rintro (hnone | hnone)
        · exact hx hnone
        · exact hfail hnone
      rw [if_neg hyes, if_neg hfail, Option.bind_some, deviceAttach_handle, deviceAttachActions,
        if_neg hexcess, if_neg hexcess, Option.map_some, hhandle, if_neg hpool]
      refine .block hfail rfl (fun _ ↦ rfl) fun a ha ↦ ?_
      have hmem : a = .write allocated (alignDown 8 c.memoryPoolSize) ∨
          a = .write allocated sizeofNlmDevice := by simpa using ha
      have hle : alignDown 8 c.memoryPoolSize ≤ c.memoryPoolSize := Nat.div_mul_le_self _ _
      rcases hmem with rfl | rfl
      · exact ⟨_, _, rfl, Or.inl ⟨le_rfl, by omega⟩⟩
      · exact ⟨_, _, rfl, Or.inl ⟨le_rfl, by omega⟩⟩

theorem attach_unchecked (hzero : c.threadId ≠ 0) (h : ¬ AttachChecked p c) :
    (nlmDeviceAttach p c allocated initStatus).bind (fun r ↦ r.2.1.map (attachHandle c allocated)) =
      none := by
  unfold nlmDeviceAttach
  rw [if_neg fun hand ↦ hzero hand.2]
  by_cases hthread : nlmMaxThreads - 1 < c.threadId ∧ c.threadId ≠ nlmManagerThreadId
  · rw [if_pos hthread]
    rfl
  rw [if_neg hthread]
  by_cases hring : nlmLastUnusedRingId ≤ c.ringId
  · rw [if_pos hring]
    rfl
  rw [if_neg hring, if_neg hzero]
  by_cases hsysmem : c.sysmemBaseVirt = 0
  · rw [if_pos hsysmem]
    rfl
  rw [if_neg hsysmem]
  by_cases hmagic : p.deviceMagic ≠ nlmDeviceMagic
  · rw [if_pos hmagic]
    rfl
  rw [if_neg hmagic]
  by_cases hcompare : compareConfigs p.config c ≠ .ok
  · rw [if_pos hcompare]
    rfl
  exact absurd ⟨hthread, Nat.not_le.mp hring, hzero, hsysmem, not_not.mp hmagic,
    not_not.mp hcompare⟩ h

theorem attach_checked (h : AttachChecked p c) :
    nlmDeviceAttach p c allocated initStatus =
      if c.threadId = nlmManagerThreadId then attachManager p c allocated
      else if NoPool c allocated then some (.invalidDeviceConfig, none, p)
      else some (deviceAttach p c) := by
  obtain ⟨hthread, hring, hzero, hsysmem, hmagic, hcompare⟩ := h
  unfold nlmDeviceAttach
  rw [if_neg fun hand ↦ hzero hand.2, if_neg hthread, if_neg (Nat.not_le.mpr hring), if_neg hzero,
    if_neg hsysmem, if_neg (not_not.mpr hmagic), if_neg (not_not.mpr hcompare)]

theorem attach_outcome (hx : c.xmalloc ≠ 0)
    (hregular : PoolCall.Regular p (.attach c allocated initStatus)) :
    Outcome c ((nlmDeviceAttach p c allocated initStatus).bind
        fun r ↦ r.2.1.map (attachHandle c allocated))
      (nlmDeviceAttachActions p c allocated initStatus) := by
  obtain ⟨hinit, hmanager, hslice, hblock⟩ := hregular
  unfold nlmDeviceAttachActions
  by_cases hzero : c.threadId = 0
  · rw [if_pos hzero]
    unfold nlmDeviceAttach
    by_cases hmaster : c.ringId = nlmMasterRing
    · rw [if_pos ⟨hmaster, hzero⟩, if_pos (Or.inl hmaster)]
      exact .nothing
    · have hthread : ¬ (nlmMaxThreads - 1 < c.threadId ∧ c.threadId ≠ nlmManagerThreadId) := by
        rw [hzero]
        decide
      rw [if_neg fun hand ↦ hmaster hand.1, if_neg hthread]
      by_cases hring : nlmLastUnusedRingId ≤ c.ringId
      · rw [if_pos hring, if_pos (Or.inr hring)]
        exact .nothing
      · have hhandle : attachHandle c allocated = initHandle c allocated := by
          funext device
          rw [attachHandle, if_pos hzero]
        rw [if_neg hring, if_pos hzero, if_neg (not_or.mpr ⟨hmaster, hring⟩), hhandle]
        exact init1_outcome hx (hinit hzero hmaster (Nat.not_le.mp hring))
  · rw [if_neg hzero]
    by_cases hchecked : AttachChecked p c
    · rw [if_neg (not_not.mpr hchecked), attach_checked hchecked]
      by_cases hthread : c.threadId = nlmManagerThreadId
      · rw [if_pos hthread, if_pos hthread]
        exact attachManager_outcome hx hthread (hmanager hchecked hthread)
      · rw [if_neg hthread, if_neg hthread]
        exact attachThread_outcome hx hzero hthread (hslice hchecked hthread)
          (hblock hchecked hthread)
    · rw [if_pos hchecked, attach_unchecked hzero hchecked]
      exact .nothing

theorem init_outcome (hx : c.xmalloc ≠ 0)
    (hregular : PoolCall.Regular p (.init c allocated initStatus)) :
    Outcome c ((nlmDeviceInit p c allocated initStatus).2.1.map (initHandle c allocated))
      (PoolCall.actions p (.init c allocated initStatus)) := by
  unfold nlmDeviceInit
  by_cases hring : c.ringId ≠ nlmMasterRing
  · rw [if_pos hring, PoolCall.actions, if_pos hring]
    exact .nothing
  · rw [if_neg hring, PoolCall.actions, if_neg hring]
    exact init1_outcome hx (hregular (not_not.mp hring))

/-- What holds of the handles in a regular run. -/
structure Inv (s : PoolRun) : Prop where
  own : ∀ h ∈ s.handles, Own h → h.block = some h.memoryPool
  live : ∀ h ∈ s.handles, ∀ b, h.block = some b → b ∈ s.live.map Prod.fst
  apart : s.handles.Pairwise fun h h' ↦ ∀ b, h.block = some b → h'.block ≠ some b

theorem WritesIn.foldl {P : ℕ → ℕ → Prop} (h : WritesIn P acts) (live : List (ℕ × ℕ)) :
    acts.foldl PoolAction.apply live = live := by
  induction acts generalizing live with
  | nil => rfl
  | cons a acts ih =>
      obtain ⟨lo, n, rfl, -⟩ := h _ List.mem_cons_self
      exact ih (fun b hb ↦ h b (List.mem_cons_of_mem _ hb)) live

theorem WritesIn.not_xfree {P : ℕ → ℕ → Prop} {q : ℕ} (h : WritesIn P acts) :
    PoolAction.xfree q ∉ acts := fun hmem ↦ by
  obtain ⟨lo, n, heq, -⟩ := h _ hmem
  cases heq

/-- The blocks behind a call that gives out a handle. -/
theorem Outcome.inv {made : Option PoolHandle} (h : Outcome c made acts) (hinv : Inv s)
    (hfresh : ∀ size r, .xmalloc size r ∈ acts → r ∉ s.live.map Prod.fst)
    (rings : ℕ → NlmPhyDevice) :
    Inv ⟨rings, made.toList ++ s.handles, acts.foldl PoolAction.apply s.live⟩ := by
  cases h with
  | nothing => exact ⟨hinv.own, hinv.live, hinv.apart⟩
  | noBlock => exact ⟨hinv.own, hinv.live, hinv.apart⟩
  | @pool h _ hblock hown hwrites =>
      rw [hwrites.foldl]
      refine ⟨fun g hg hgown ↦ ?_, fun g hg b hb ↦ ?_, ?_⟩
      · cases List.mem_cons.mp hg with
        | inl heq => exact absurd (heq ▸ hgown) hown
        | inr hg => exact hinv.own g hg hgown
      · cases List.mem_cons.mp hg with
        | inl heq =>
            rw [heq, hblock] at hb
            cases hb
        | inr hg => exact hinv.live g hg b hb
      · refine List.pairwise_cons.mpr ⟨fun g _ b hb ↦ ?_, hinv.apart⟩
        rw [hblock] at hb
        cases hb
  | @block h size b acts hb hblock hown hwrites =>
      have hlive : (PoolAction.xmalloc size b :: acts).foldl PoolAction.apply s.live =
          (b, size) :: s.live := by
        rw [List.foldl_cons, PoolAction.apply, if_neg hb]
        exact hwrites.foldl _
      have hnew : b ∉ s.live.map Prod.fst := hfresh size b List.mem_cons_self
      rw [hlive]
      refine ⟨fun g hg hgown ↦ ?_, fun g hg q hq ↦ ?_, ?_⟩
      · cases List.mem_cons.mp hg with
        | inl heq =>
            rw [heq] at hgown ⊢
            rw [hblock, hown hgown]
        | inr hg => exact hinv.own g hg hgown
      · rw [List.map_cons]
        cases List.mem_cons.mp hg with
        | inl heq =>
            rw [heq, hblock] at hq
            cases hq
            exact List.mem_cons_self
        | inr hg => exact List.mem_cons_of_mem _ (hinv.live g hg q hq)
      · refine List.pairwise_cons.mpr ⟨fun g hg q hq hq' ↦ ?_, hinv.apart⟩
        rw [hblock] at hq
        cases hq
        exact hnew (hinv.live g hg _ hq')

/-- What an `Outcome` says about freeing, writing and keeping. -/
theorem Outcome.ok {made : Option PoolHandle} (h : Outcome c made acts) (live : List (ℕ × ℕ)) :
    (∀ q, .xfree q ∉ acts) ∧
      (∀ base size, .write base size ∈ acts →
        Allowed (acts.foldl PoolAction.apply live) (some c) base size) ∧
      (made = none → ∀ size r, r ≠ 0 → .xmalloc size r ∉ acts) := by
  cases h with
  | nothing =>
      exact ⟨fun _ h ↦ absurd h List.not_mem_nil, fun _ _ h ↦ absurd h List.not_mem_nil,
        fun _ _ _ _ h ↦ absurd h List.not_mem_nil⟩
  | noBlock size =>
      refine ⟨fun q h ↦ ?_, fun base n h ↦ ?_, fun _ n r hr h ↦ ?_⟩
      · cases List.mem_singleton.mp h
      · cases List.mem_singleton.mp h
      · cases List.mem_singleton.mp h
        exact hr rfl
  | pool hblock hown hwrites =>
      refine ⟨fun q ↦ hwrites.not_xfree, fun base n h ↦ Or.inr ?_, fun hnone ↦ by cases hnone⟩
      obtain ⟨lo, m, heq, hpool, hin⟩ := hwrites _ h
      cases heq
      exact ⟨c, rfl, hpool, hin⟩
  | @block h size b acts hb hblock hown hwrites =>
      refine ⟨fun q hmem ↦ ?_, fun base n hmem ↦ ?_, fun hnone ↦ by cases hnone⟩
      · cases List.mem_cons.mp hmem with
        | inl heq => cases heq
        | inr hmem => exact hwrites.not_xfree hmem
      · have hmem' : PoolAction.write base n ∈ acts := by
          cases List.mem_cons.mp hmem with
          | inl heq => cases heq
          | inr hmem => exact hmem
        have hlive : (PoolAction.xmalloc size b :: acts).foldl PoolAction.apply live =
            (b, size) :: live := by
          rw [List.foldl_cons, PoolAction.apply, if_neg hb]
          exact hwrites.foldl _
        rw [hlive]
        obtain ⟨lo, m, heq, hin | ⟨hpool, hin⟩⟩ := hwrites _ hmem'
        · cases heq
          exact Or.inl ⟨(b, size), List.mem_cons_self, hin⟩
        · cases heq
          exact Or.inr ⟨c, rfl, hpool, hin⟩

theorem Inv.erase (hinv : Inv s) (rings : ℕ → NlmPhyDevice) (h : PoolHandle) :
    Inv ⟨rings, s.handles.erase h, s.live⟩ :=
  ⟨fun g hg ↦ hinv.own g (List.mem_of_mem_erase hg),
    fun g hg ↦ hinv.live g (List.mem_of_mem_erase hg), hinv.apart.sublist List.erase_sublist⟩

/-- No other handle lies in the block that a detached handle gives back. -/
theorem Inv.free (hinv : Inv s) (rings : ℕ → NlmPhyDevice) (hmem : h ∈ s.handles)
    (hown : Own h) :
    Inv ⟨rings, s.handles.erase h, s.live.filter fun block ↦ block.1 ≠ h.memoryPool⟩ := by
  have hpair : (h :: s.handles.erase h).Pairwise
      fun h h' ↦ ∀ b, h.block = some b → h'.block ≠ some b := by
    refine ((List.perm_cons_erase hmem).pairwise_iff ?_).mp hinv.apart
    intro g g' hapart b hb hb'
    exact hapart b hb' hb
  obtain ⟨hfirst, hrest⟩ := List.pairwise_cons.mp hpair
  refine ⟨(hinv.erase rings h).own, fun g hg b hb ↦ ?_, hrest⟩
  obtain ⟨block, hblock, rfl⟩ := List.mem_map.mp ((hinv.erase rings h).live g hg b hb)
  apply List.mem_map_of_mem
  apply List.mem_filter.mpr
  refine ⟨hblock, decide_eq_true fun heq ↦ ?_⟩
  exact hfirst g hg h.memoryPool (hinv.own h hmem hown) (heq ▸ hb)

theorem detach_cases (p : NlmPhyDevice) (h : PoolHandle) (contextRing xauiBuffers : NlmStatus) :
    (nlmDeviceDetachActions p h = [] ∧
      (nlmDeviceDetach p (some h.device) contextRing xauiBuffers).2.1 = false) ∨
    ((nlmDeviceDetach p (some h.device) contextRing xauiBuffers).2.1 = true ∧
      (nlmDeviceDetachActions p h = [] ∨ nlmDeviceDetachActions p h = [.xfree h.memoryPool])) := by
  unfold nlmDeviceDetachActions nlmDeviceDetach
  by_cases hmagic : p.deviceMagic ≠ nlmDeviceMagic
  · exact .inl ⟨if_pos hmagic, by simp only [if_pos hmagic]⟩
  by_cases hzero : h.device.fmsRingId = 0 ∧ h.device.threadId = 0
  · exact .inl ⟨by rw [if_neg hmagic, if_pos hzero], by simp only [if_neg hmagic, if_pos hzero]⟩
  · right
    rw [if_neg hmagic, if_neg hzero]
    constructor
    · simp only [if_neg hmagic, if_neg hzero]
      split_ifs <;> rfl
    · by_cases hfree : p.config.xfree ≠ 0
      · exact .inr (if_pos hfree)
      · exact .inl (if_neg hfree)

theorem Inv.detach (hinv : Inv s) {contextRing xauiBuffers : NlmStatus} (hmem : h ∈ s.handles)
    (hown : Own h) :
    StepOk s (.detach h contextRing xauiBuffers) (s.next (.detach h contextRing xauiBuffers)) ∧
      Inv (s.next (.detach h contextRing xauiBuffers)) := by
  set p := s.rings h.config.sysmemBaseVirt with hp
  have hnext : s.next (.detach h contextRing xauiBuffers) =
      ⟨Function.update s.rings h.config.sysmemBaseVirt
          (PoolCall.phy p (.detach h contextRing xauiBuffers)),
        if (nlmDeviceDetach p (some h.device) contextRing xauiBuffers).2.1 then
          s.handles.erase h else s.handles,
        (nlmDeviceDetachActions p h).foldl PoolAction.apply s.live⟩ := rfl
  have hok : ∀ s', (∀ a ∈ nlmDeviceDetachActions p h, a = .xfree h.memoryPool) →
      StepOk s (.detach h contextRing xauiBuffers) s' := fun s' hall ↦ by
    refine ⟨fun q hq ↦ ?_, fun base size hw ↦ ?_, fun _ size r _ hr ↦ ?_⟩
    · cases hall _ hq
      have hblock := hinv.own h hmem hown
      exact ⟨hinv.live h hmem _ hblock, h, contextRing, xauiBuffers, rfl, hblock⟩
    · cases hall _ hw
    · cases hall _ hr
  rw [hnext]
  obtain ⟨hnil, hflag⟩ | ⟨hflag, hnil | hfree⟩ := detach_cases p h contextRing xauiBuffers
  · rw [hflag, hnil]
    refine ⟨hok _ fun a ha ↦ ?_, hinv.own, hinv.live, hinv.apart⟩
    rw [hnil] at ha
    cases ha
  · rw [hflag, hnil]
    refine ⟨hok _ fun a ha ↦ ?_, hinv.erase _ h⟩
    rw [hnil] at ha
    cases ha
  · rw [hflag, hfree]
    refine ⟨hok _ fun a ha ↦ ?_, hinv.free _ hmem hown⟩
    rw [hfree] at ha
    exact List.mem_singleton.mp ha

theorem Inv.step (hinv : Inv s) (hstep : Step s call s') (hregular : s.Regular call) :
    StepOk s call s' ∧ Inv s' := by
  cases hstep with
  | mk hlegal =>
      cases call with
      | init c allocated initStatus =>
          have houtcome := init_outcome (hlegal.supplied c rfl).1 hregular
          obtain ⟨hfreed, hwritten, hkept⟩ := houtcome.ok s.live
          refine ⟨⟨fun q hq ↦ absurd hq (hfreed q), hwritten, fun hnone size r hr hmem ↦ ?_⟩,
            houtcome.inv hinv hlegal.fresh _⟩
          exact absurd hmem (hkept hnone size r hr)
      | attach c allocated initStatus =>
          have houtcome := attach_outcome (hlegal.supplied c rfl).1 hregular
          obtain ⟨hfreed, hwritten, hkept⟩ := houtcome.ok s.live
          refine ⟨⟨fun q hq ↦ absurd hq (hfreed q), hwritten, fun hnone size r hr hmem ↦ ?_⟩,
            houtcome.inv hinv hlegal.fresh _⟩
          exact absurd hmem (hkept hnone size r hr)
      | detachNull contextRing xauiBuffers =>
          refine ⟨⟨?_, ?_, ?_⟩, hinv.own, hinv.live, hinv.apart⟩
          · exact fun q hq ↦ absurd hq List.not_mem_nil
          · exact fun base size hw ↦ absurd hw List.not_mem_nil
          · exact fun _ size r _ hr ↦ absurd hr List.not_mem_nil
      | detach h contextRing xauiBuffers =>
          exact hinv.detach (hlegal.attached h contextRing xauiBuffers rfl) hregular

/-- No ring has been initialised. -/
structure Initial (s : PoolRun) : Prop where
  magic : ∀ sysmem, (s.rings sysmem).deviceMagic ≠ nlmDeviceMagic
  handles : s.handles = []
  live : s.live = []

theorem Initial.inv (h : Initial s) : Inv s := by
  refine ⟨fun g hg ↦ ?_, fun g hg ↦ ?_, ?_⟩
  · rw [h.handles] at hg
    cases hg
  · rw [h.handles] at hg
    cases hg
  · rw [h.handles]
    exact List.Pairwise.nil

/-- Along a run of regular calls the memory of the handles is paired. -/
theorem stepOk_of_regular {run : List (PoolCall × PoolRun)} (hinit : Initial s)
    (hrun : Run Step s run) (hregular : Along Regular s run) : AlongSteps StepOk s run := by
  have hinv := hinit.inv
  clear hinit
  induction hrun with
  | nil s => trivial
  | cons hstep _ ih =>
      obtain ⟨hfirst, hrest⟩ := along_cons.mp hregular
      obtain ⟨hok, hnext⟩ := hinv.step hstep hfirst
      exact alongSteps_cons.mpr ⟨hok, ih hrest hnext⟩

/-- The states that some calls lead through. -/
def trace (s : PoolRun) : List PoolCall → List (PoolCall × PoolRun)
  | [] => []
  | call :: calls => (call, s.next call) :: (s.next call).trace calls

/-- The configurations of ring 1, whose threads get their memory from `xmalloc`. -/
def allocatingConfig (threadId : ℕ) : NlmDeviceConfig :=
  { RingState.sampleConfig threadId with memoryPool := 0, xmalloc := 1, xfree := 1 }

/-- The configurations of ring 1 with both a pool and `xmalloc`. -/
def sharedConfig (threadId : ℕ) : NlmDeviceConfig :=
  { allocatingConfig threadId with memoryPool := 0x4000000 }

/-- Threads 0 and 1 attach to ring 1, and thread 1 detaches. -/
def sampleCalls (config : ℕ → NlmDeviceConfig) : List PoolCall :=
  [.attach (config 0) 0x2000000 .ok, .attach (config 1) 0x3000000 .ok,
    .detach (attachHandle (config 1) 0x3000000 ⟨1, 1⟩) .ok .ok]

def unused : PoolRun := ⟨fun _ ↦ RingState.sampleRing, [], []⟩

theorem Legal.of_fresh
    (hsupplied : ∀ c, call.config = some c → c.xmalloc ≠ 0 ∧ c.xfree ≠ 0)
    (hfresh : ∀ a ∈ call.actions (s.ring call), ∀ block ∈ s.live,
      (match a with | .xmalloc _ result => result | _ => 0) ≠ block.1)
    (hattached : ∀ h contextRing xauiBuffers, call = .detach h contextRing xauiBuffers →
      h ∈ s.handles) : s.Legal call := by
  refine ⟨hsupplied, fun size result hmem hin ↦ ?_, hattached⟩
  obtain ⟨block, hblock, heq⟩ := List.mem_map.mp hin
  exact hfresh _ hmem block hblock heq.symm

theorem sampleCalls_run (config : ℕ → NlmDeviceConfig)
    (hconfig : config = allocatingConfig ∨ config = sharedConfig) :
    Run Step unused (unused.trace (sampleCalls config)) := by
  refine .cons ⟨.of_fresh ?_ ?_ ?_⟩ (.cons ⟨.of_fresh ?_ ?_ ?_⟩
    (.cons ⟨.of_fresh ?_ ?_ ?_⟩ (.nil _)))
  · rintro c ⟨⟩
    rcases hconfig with rfl | rfl <;> decide
  · rcases hconfig with rfl | rfl <;> decide
  · rintro h contextRing xauiBuffers ⟨⟩
  · rintro c ⟨⟩
    rcases hconfig with rfl | rfl <;> decide
  · rcases hconfig with rfl | rfl <;> decide
  · rintro h contextRing xauiBuffers ⟨⟩
  · rintro c ⟨⟩
  · rcases hconfig with rfl | rfl <;> decide
  · rintro h contextRing xauiBuffers ⟨⟩
    rcases hconfig with rfl | rfl <;> decide

theorem stepOk_of_regular_sample :
    AlongSteps StepOk unused (unused.trace (sampleCalls allocatingConfig)) := by
  refine stepOk_of_regular ⟨fun _ ↦ ?_, rfl, rfl⟩ (sampleCalls_run _ (.inl rfl)) ?_
  · change RingState.sampleRing.deviceMagic ≠ nlmDeviceMagic
    decide
  · refine ⟨⟨?_, ?_, fun _ _ hpool ↦ absurd rfl hpool, ?_⟩,
      ⟨?_, ?_, fun _ _ hpool ↦ absurd rfl hpool, ?_⟩, Or.inr rfl, trivial⟩
    all_goals decide

/-- A thread whose memory is part of the pool has that part freed. -/
theorem sharedConfig_frees_pool :
    Run Step unused (unused.trace (sampleCalls sharedConfig)) ∧
      ¬ AlongSteps StepOk unused (unused.trace (sampleCalls sharedConfig)) := by
  constructor
  · exact sampleCalls_run _ (.inr rfl)
  · rintro ⟨-, -, hdetach, -⟩
    have hfreed := (hdetach.freed ((sharedConfig 1).attachSlice 1).memoryPool (by decide)).1
    exact absurd hfreed (by decide)

end PoolRun

end NetL7.Device
