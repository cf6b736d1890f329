import NetL7.Device.Config
import NetL7.Lib.Runs
import Mathlib.Tactic.Common
import Mathlib.Algebra.Order.Group.Nat
import Mathlib.Data.List.Count

/-!
# Attaching threads to a ring

Thread 0 initialises a ring, the other dataplane threads and the manager thread
attach to it. The ring counts the attached threads; the thread that brings the
count to 0 takes all context buffers out of the hardware.
-/

namespace NetL7.Device

open NetL7.Lib NlmDeviceConfig

/-- `NLM_DEVICE_MAGIC` -/
abbrev nlmDeviceMagic : ℕ := 0xdeadbeef

/-- The fields of `nlm_phy_device_t` that concern attaching, and the number of
times that `check_context_ring` has emptied the context ring. -/
structure NlmPhyDevice where
  deviceMagic : ℕ
  config : NlmDeviceConfig
  threadsAttached : ℕ
  contextRingChecks : ℕ

/-- The handle that a thread gets. -/
structure NlmDevice where
  fmsRingId : ℕ
  threadId : ℕ
  deriving DecidableEq

/-- `physical_device_init`: system memory is cleared and the configuration
stored; `status` is what the rest of the initialisation comes to. -/
def physicalDeviceInit (p : NlmPhyDevice) (c : NlmDeviceConfig) (status : NlmStatus) :
    NlmStatus × NlmPhyDevice :=
  (status, { p with deviceMagic := nlmDeviceMagic, config := c, threadsAttached := 0 })

/-- `device_attach` -/
def deviceAttach (p : NlmPhyDevice) (c : NlmDeviceConfig) :
    NlmStatus × Option NlmDevice × NlmPhyDevice :=
  let attachTid := (p.threadsAttached + 1) % 2 ^ 32
  let p := { p with threadsAttached := attachTid }
  if c.maxThreads < attachTid then (.excessDeviceAttach, none, p)
  else (.ok, some ⟨c.ringId, c.threadId⟩, p)

/-- `nlm_device_init_1`, with what `xmalloc` and the hardware answer. -/
def nlmDeviceInit1 (p : NlmPhyDevice) (c : NlmDeviceConfig) (allocated : ℕ)
    (initStatus : NlmStatus) : NlmStatus × Option NlmDevice × NlmPhyDevice :=
  match c.initError allocated with
  | some status => (status, none, p)
  | none =>
    let (status, p) := physicalDeviceInit p c initStatus
    if status ≠ .ok then (status, none, p) else deviceAttach p c

/-- `nlm_device_init` -/
def nlmDeviceInit (p : NlmPhyDevice) (c : NlmDeviceConfig) (allocated : ℕ)
    (initStatus : NlmStatus) : NlmStatus × Option NlmDevice × NlmPhyDevice :=
  if c.ringId ≠ nlmMasterRing then (.invalidRingId, none, p)
  else nlmDeviceInit1 p c allocated initStatus

/-- The attaching of the manager thread; `none` is a write to `NULL`. The handle lies
at `memory_pool`, or in memory from `xmalloc`, but there the source clears
`memory_pool` in place of it. -/
def attachManager (p : NlmPhyDevice) (c : NlmDeviceConfig) (allocated : ℕ) :
    Option (NlmStatus × Option NlmDevice × NlmPhyDevice) :=
  if p.config.usingManagerThread = false then some (.invalidDeviceConfig, none, p)
  else if c.xmalloc ≠ 0 then
    if allocated = 0 then some (.invalidDeviceConfig, none, p)
    -- memset (config->memory_pool, 0, sizeof (nlm_device_t))
    else if c.memoryPool = 0 then none
    else some (.ok, some ⟨c.ringId, c.threadId⟩, p)
  else if c.memoryPool = 0 then none
  else some (.ok, some ⟨c.ringId, c.threadId⟩, p)

/-- The memory that `nlm_device_attach` finds for a dataplane thread is missing or
not aligned. -/
def NoPool (c : NlmDeviceConfig) (allocated : ℕ) : Prop :=
  if c.memoryPool ≠ 0 then c.memoryPool % 8 ≠ 0 else c.xmalloc = 0 ∨ allocated = 0

instance (c : NlmDeviceConfig) (allocated : ℕ) : Decidable (NoPool c allocated) :=
  inferInstanceAs (Decidable (ite _ _ _))

/-- `nlm_device_attach`, if it returns. -/
def nlmDeviceAttach (p : NlmPhyDevice) (c : NlmDeviceConfig) (allocated : ℕ)
    (initStatus : NlmStatus) : Option (NlmStatus × Option NlmDevice × NlmPhyDevice) :=
  if c.ringId = nlmMasterRing ∧ c.threadId = 0 then some (.invalidRingId, none, p)
  else if nlmMaxThreads - 1 < c.threadId ∧ c.threadId ≠ nlmManagerThreadId then
    some (.invalidThreadId, none, p)
  else if nlmLastUnusedRingId ≤ c.ringId then some (.invalidRingId, none, p)
  else if c.threadId = 0 then some (nlmDeviceInit1 p c allocated initStatus)
  else if c.sysmemBaseVirt = 0 then some (.invalidDeviceConfig, none, p)
  else if p.deviceMagic ≠ nlmDeviceMagic then some (.deviceUninitialized, none, p)
  else if compareConfigs p.config c ≠ .ok then some (.invalidDeviceConfig, none, p)
  else if c.threadId = nlmManagerThreadId then attachManager p c allocated
  else if NoPool c allocated then some (.invalidDeviceConfig, none, p)
  else some (deviceAttach p c)

/-- `nlm_device_detach`, with what `check_context_ring` and `check_xaui_buffers`
find. The flag says whether the thread has been taken off the count. -/
def nlmDeviceDetach (p : NlmPhyDevice) (device : Option NlmDevice)
    (contextRing xauiBuffers : NlmStatus) : NlmStatus × Bool × NlmPhyDevice :=
  match device with
  | none => (.invalidArgument, false, p)
  | some d =>
    if p.deviceMagic ≠ nlmDeviceMagic then (.deviceUninitialized, false, p)
    else if d.fmsRingId = 0 ∧ d.threadId = 0 then (.invalidThreadId, false, p)
    else
      let detachTid := (2 ^ 32 + p.threadsAttached - 1) % 2 ^ 32
      let p := { p with threadsAttached := detachTid }
      if detachTid = 0 then
        let p := { p with contextRingChecks := p.contextRingChecks + 1 }
        (if contextRing ≠ .ok then contextRing else xauiBuffers, true, p)
      else (xauiBuffers, true, p)

/-! ## Runs -/

/-- The ring and the handles that are attached to it. -/
structure RingState where
  phy : NlmPhyDevice
  handles : List NlmDevice

namespace RingState

/-- The calls that return, with the answers of `xmalloc` and the hardware. A thread
detaches through its handle. -/
inductive Event
  | init (c : NlmDeviceConfig) (allocated : ℕ) (initStatus : NlmStatus)
  | attach (c : NlmDeviceConfig) (allocated : ℕ) (initStatus : NlmStatus)
  | detach (device : Option NlmDevice) (contextRing xauiBuffers : NlmStatus)

/-- The handle of a successful call is attached. -/
def afterAttach (s : RingState) (r : NlmStatus × Option NlmDevice × NlmPhyDevice) : RingState :=
  ⟨r.2.2, r.2.1.toList ++ s.handles⟩

inductive Step : RingState → Event → RingState → Prop
  | init {s : RingState} (c : NlmDeviceConfig) (allocated : ℕ) (initStatus : NlmStatus) :
      Step s (.init c allocated initStatus)
        (s.afterAttach (nlmDeviceInit s.phy c allocated initStatus))
  | attach {s : RingState} {r : NlmStatus × Option NlmDevice × NlmPhyDevice}
      (c : NlmDeviceConfig) (allocated : ℕ) (initStatus : NlmStatus)
      (h : nlmDeviceAttach s.phy c allocated initStatus = some r) :
      Step s (.attach c allocated initStatus) (s.afterAttach r)
  | detachNull {s : RingState} (contextRing xauiBuffers : NlmStatus) :
      Step s (.detach none contextRing xauiBuffers) s
  | detach {s : RingState} {d : NlmDevice} (contextRing xauiBuffers : NlmStatus)
      (hd : d ∈ s.handles) :
      Step s (.detach (some d) contextRing xauiBuffers)
        ⟨(nlmDeviceDetach s.phy (some d) contextRing xauiBuffers).2.2,
          if (nlmDeviceDetach s.phy (some d) contextRing xauiBuffers).2.1 then s.handles.erase d
          else s.handles⟩

/-- A dataplane thread's handle. -/
def isDataplane (d : NlmDevice) : Bool := d.threadId != nlmManagerThreadId

/-- The number of dataplane threads that are attached. -/
def dataplaneThreads (s : RingState) : ℕ := s.handles.countP isDataplane

/-- The counter is right. -/
def Accounted (s : RingState) : Prop := s.phy.threadsAttached = s.dataplaneThreads

/-- A call of `nlm_device_attach` that hands out no handle. -/
def Rejected (s : RingState) : Event → Prop
  | .attach c allocated initStatus =>
    ∃ r, nlmDeviceAttach s.phy c allocated initStatus = some r ∧ r.2.1 = none
  | _ => False

/-- What a step should do to the counter: keep it right, leave it alone when an
attach is rejected, and empty the context ring only when no thread is left. -/
structure StepOk (s : RingState) (e : Event) (s' : RingState) : Prop where
  accounted : Accounted s'
  rejected : Rejected s e → s'.phy.threadsAttached = s.phy.threadsAttached
  last : s'.phy.contextRingChecks ≠ s.phy.contextRingChecks → s'.dataplaneThreads = 0

/-- The call initialises the ring. -/
def StartsRing : Event → Prop
  | .init c allocated _ => c.ringId = nlmMasterRing ∧ c.initError allocated = none
  | .attach c allocated _ =>
    c.ringId ≠ nlmMasterRing ∧ c.ringId < nlmLastUnusedRingId ∧ c.initError allocated = none
  | .detach .. => False

/-- The call attaches a dataplane thread, as far as its configuration goes. -/
def Joins (p : NlmPhyDevice) : Event → Prop
  | .attach c allocated _ =>
    c.threadId ≠ 0 ∧ c.threadId < nlmMaxThreads ∧ c.ringId < nlmLastUnusedRingId ∧
      c.sysmemBaseVirt ≠ 0 ∧ p.deviceMagic = nlmDeviceMagic ∧
      compareConfigs p.config c = .ok ∧ ¬ NoPool c allocated
  | _ => False

/-- The ring is initialised only while no dataplane thread is attached, a thread
joins only while fewer than `max_threads` are, and the manager does not detach. -/
structure Clean (s : RingState) (e : Event) : Prop where
  starts : StartsRing e → s.dataplaneThreads = 0
  joins : Joins s.phy e → s.dataplaneThreads < s.phy.config.maxThreads
  manager : ∀ d contextRing xauiBuffers, e = .detach (some d) contextRing xauiBuffers →
    d.threadId ≠ nlmManagerThreadId

/-- What holds as long as the counter is right. -/
structure Sound (s : RingState) : Prop where
  accounted : Accounted s
  threads_le : s.dataplaneThreads ≤ nlmMaxThreads
  max_le : s.phy.deviceMagic = nlmDeviceMagic → s.phy.config.maxThreads ≤ nlmMaxThreads
  magic : s.handles ≠ [] → s.phy.deviceMagic = nlmDeviceMagic

variable {s s' : RingState} {e : Event} {p : NlmPhyDevice} {c : NlmDeviceConfig}
  {allocated : ℕ} {initStatus : NlmStatus}

theorem dataplaneThreads_cons_of_ne {d : NlmDevice} (hd : d.threadId ≠ nlmManagerThreadId)
    (p : NlmPhyDevice) (handles : List NlmDevice) :
    (RingState.mk p (d :: handles)).dataplaneThreads =
      handles.countP isDataplane + 1 := by
  apply List.countP_cons_of_pos
  exact bne_iff_ne.mpr hd

theorem dataplaneThreads_cons_of_eq {d : NlmDevice} (hd : d.threadId = nlmManagerThreadId)
    (p : NlmPhyDevice) (handles : List NlmDevice) :
    (RingState.mk p (d :: handles)).dataplaneThreads = handles.countP isDataplane := by
  apply List.countP_cons_of_neg
  simp only [isDataplane, hd, bne_self_eq_false, Bool.false_eq_true, not_false_eq_true]

theorem threads_bounds (h : c.initError allocated = none) :
    c.threadId = 0 ∧ 0 < c.maxThreads ∧ c.maxThreads ≤ nlmMaxThreads := by
  unfold initError at h
  split_ifs at h with hincomplete hthread
  simp only [Incomplete, not_or] at hincomplete
  exact ⟨not_not.mp hthread, Nat.pos_of_ne_zero hincomplete.2.2.2.2.2.2.2.2.2.2.2.1,
    Nat.not_lt.mp hincomplete.2.2.2.2.2.2.2.2.2.2.2.2⟩

/-- The ring memory after `physical_device_init`. -/
def cleared (p : NlmPhyDevice) (c : NlmDeviceConfig) (threadsAttached : ℕ) : NlmPhyDevice :=
  { p with deviceMagic := nlmDeviceMagic, config := c, threadsAttached := threadsAttached }

theorem init1_cases (p : NlmPhyDevice) (c : NlmDeviceConfig) (allocated : ℕ)
    (initStatus : NlmStatus) :
    (c.initError allocated ≠ none ∧
      ∃ status, nlmDeviceInit1 p c allocated initStatus = (status, none, p)) ∨
    (c.initError allocated = none ∧
      nlmDeviceInit1 p c allocated initStatus = (initStatus, none, cleared p c 0)) ∨
    (c.initError allocated = none ∧
      nlmDeviceInit1 p c allocated initStatus =
        (.ok, some ⟨c.ringId, c.threadId⟩, cleared p c 1)) := by
  cases h : c.initError allocated with
  | some status =>
    refine .inl ⟨Option.some_ne_none status, status, ?_⟩
    simp only [nlmDeviceInit1, h]
  | none =>
    right
    obtain ⟨-, hpos, -⟩ := threads_bounds h
    by_cases hstatus : initStatus = .ok
    · refine .inr ⟨rfl, ?_⟩
      have hle : ¬ c.maxThreads < 1 := by omega
      simp [nlmDeviceInit1, h, physicalDeviceInit, hstatus, deviceAttach, hle, cleared]
    · refine .inl ⟨rfl, ?_⟩
      simp [nlmDeviceInit1, h, physicalDeviceInit, hstatus, cleared]

/-- A ring that is initialised forgets the threads attached before. -/
theorem Sound.init1 (h : Sound s) (r : NlmStatus × Option NlmDevice × NlmPhyDevice)
    (hr : r = nlmDeviceInit1 s.phy c allocated initStatus) :
    (Accounted (s.afterAttach r) ↔ (c.initError allocated = none → s.dataplaneThreads = 0)) ∧
      (Accounted (s.afterAttach r) → Sound (s.afterAttach r) ∧
        (r.2.1 = none → r.2.2.threadsAttached = s.phy.threadsAttached)) ∧
      r.2.2.contextRingChecks = s.phy.contextRingChecks := by
  have hcount : s.phy.threadsAttached = s.dataplaneThreads := h.accounted
  subst hr
  obtain ⟨hne, status, heq⟩ | ⟨hnone, heq⟩ | ⟨hnone, heq⟩ :=
    init1_cases s.phy c allocated initStatus
  · rw [heq]
    exact ⟨⟨fun _ hnone ↦ absurd hnone hne, fun _ ↦ h.accounted⟩, fun _ ↦ ⟨h, fun _ ↦ rfl⟩, rfl⟩
  · rw [heq]
    obtain ⟨-, -, hmax⟩ := threads_bounds hnone
    have hiff : Accounted (s.afterAttach (initStatus, none, cleared s.phy c 0)) ↔
        0 = s.dataplaneThreads := Iff.rfl
    refine ⟨hiff.trans ⟨fun h₀ _ ↦ h₀.symm, fun h₀ ↦ (h₀ hnone).symm⟩, fun hacc ↦ ⟨?_, fun _ ↦ ?_⟩,
      rfl⟩
    · exact ⟨hacc, h.threads_le, fun _ ↦ hmax, fun _ ↦ rfl⟩
    · exact (hiff.mp hacc).trans hcount.symm
  · rw [heq]
    obtain ⟨hthread, -, hmax⟩ := threads_bounds hnone
    have hdataplane : (s.afterAttach (.ok, some ⟨c.ringId, c.threadId⟩,
        cleared s.phy c 1)).dataplaneThreads = s.dataplaneThreads + 1 := by
      apply dataplaneThreads_cons_of_ne
      exact fun heq ↦ absurd (hthread.symm.trans heq) (by decide)
    have hiff : Accounted (s.afterAttach (.ok, some ⟨c.ringId, c.threadId⟩, cleared s.phy c 1)) ↔
        1 = s.dataplaneThreads + 1 := by
      unfold Accounted
      rw [hdataplane]
      rfl
    refine ⟨hiff.trans ⟨fun h₀ _ ↦ by omega, fun h₀ ↦ (by have hzero := h₀ hnone; omega)⟩,
      fun hacc ↦ ⟨⟨hacc, ?_, fun _ ↦ hmax, fun _ ↦ rfl⟩, fun hr ↦ ?_⟩, rfl⟩
    · have hone := hiff.mp hacc
      rw [hdataplane]
      simp only [nlmMaxThreads]
      omega
    · cases hr

/-- What `nlm_device_attach` comes to if it returns: nothing, the initialisation of
the ring, a handle for the manager, or a dataplane thread more. -/
theorem attach_cases (hreturns : nlmDeviceAttach p c allocated initStatus ≠ none) :
    (¬ StartsRing (.attach c allocated initStatus) ∧ ¬ Joins p (.attach c allocated initStatus) ∧
      ∃ status, nlmDeviceAttach p c allocated initStatus = some (status, none, p)) ∨
    (c.ringId ≠ nlmMasterRing ∧ c.ringId < nlmLastUnusedRingId ∧
      ¬ Joins p (.attach c allocated initStatus) ∧
      nlmDeviceAttach p c allocated initStatus =
        some (nlmDeviceInit1 p c allocated initStatus)) ∨
    (¬ StartsRing (.attach c allocated initStatus) ∧ ¬ Joins p (.attach c allocated initStatus) ∧
      p.deviceMagic = nlmDeviceMagic ∧ c.threadId = nlmManagerThreadId ∧
      nlmDeviceAttach p c allocated initStatus = some (.ok, some ⟨c.ringId, c.threadId⟩, p)) ∨
    (¬ StartsRing (.attach c allocated initStatus) ∧ Joins p (.attach c allocated initStatus) ∧
      nlmDeviceAttach p c allocated initStatus = some (deviceAttach p c)) := by
  have hstarts : c.threadId ≠ 0 → ¬ StartsRing (.attach c allocated initStatus) :=
    fun hne hs ↦ hne (threads_bounds hs.2.2).1
  have hjoins : c.threadId = 0 → ¬ Joins p (.attach c allocated initStatus) :=
    fun hzero hj ↦ hj.1 hzero
  unfold nlmDeviceAttach at hreturns ⊢
  by_cases hmaster : c.ringId = nlmMasterRing ∧ c.threadId = 0
  · rw [if_pos hmaster]
    exact .inl ⟨fun hs ↦ hs.1 hmaster.1, hjoins hmaster.2, _, rfl⟩
  rw [if_neg hmaster] at hreturns ⊢
  by_cases hthread : nlmMaxThreads - 1 < c.threadId ∧ c.threadId ≠ nlmManagerThreadId
  · rw [if_pos hthread]
    refine .inl ⟨hstarts (Nat.ne_of_gt (Nat.zero_lt_of_lt hthread.1)), fun hj ↦ ?_, _, rfl⟩
    have hlt := hj.2.1
    omega
  rw [if_neg hthread] at hreturns ⊢
  by_cases hring : nlmLastUnusedRingId ≤ c.ringId
  · rw [if_pos hring]
    exact .inl ⟨fun hs ↦ absurd hs.2.1 (Nat.not_lt.mpr hring),
      fun hj ↦ absurd hj.2.2.1 (Nat.not_lt.mpr hring), _, rfl⟩
  rw [if_neg hring] at hreturns ⊢
  by_cases hzero : c.threadId = 0
  · rw [if_pos hzero]
    exact .inr (.inl ⟨fun hm ↦ hmaster ⟨hm, hzero⟩, Nat.not_le.mp hring, hjoins hzero, rfl⟩)
  rw [if_neg hzero] at hreturns ⊢
  have hs := hstarts hzero
  by_cases hsysmem : c.sysmemBaseVirt = 0
  · rw [if_pos hsysmem]
    exact .inl ⟨hs, fun hj ↦ hj.2.2.2.1 hsysmem, _, rfl⟩
  rw [if_neg hsysmem] at hreturns ⊢
  by_cases hmagic : p.deviceMagic = nlmDeviceMagic
  swap
  · rw [if_pos hmagic]
    exact .inl ⟨hs, fun hj ↦ hmagic hj.2.2.2.2.1, _, rfl⟩
  rw [if_neg (not_not.mpr hmagic)] at hreturns ⊢
  by_cases hconfig : compareConfigs p.config c = .ok
  swap
  · rw [if_pos hconfig]
    exact .inl ⟨hs, fun hj ↦ hconfig hj.2.2.2.2.2.1, _, rfl⟩
  rw [if_neg (not_not.mpr hconfig)] at hreturns ⊢
  by_cases hmanager : c.threadId = nlmManagerThreadId
  · rw [if_pos hmanager] at hreturns ⊢
    have hj : ¬ Joins p (.attach c allocated initStatus) := fun hj ↦
      absurd (hmanager ▸ hj.2.1) (by decide)
    unfold attachManager at hreturns ⊢
    split_ifs at hreturns ⊢ with husing hxmalloc halloc hnull hnull
    · exact .inl ⟨hs, hj, _, rfl⟩
    · exact .inl ⟨hs, hj, _, rfl⟩
    · exact absurd rfl hreturns
    · exact .inr (.inr (.inl ⟨hs, hj, hmagic, hmanager, rfl⟩))
    · exact absurd rfl hreturns
    · exact .inr (.inr (.inl ⟨hs, hj, hmagic, hmanager, rfl⟩))
  rw [if_neg hmanager] at hreturns ⊢
  by_cases hpool : NoPool c allocated
  · rw [if_pos hpool]
    exact .inl ⟨hs, fun hj ↦ hj.2.2.2.2.2.2 hpool, _, rfl⟩
  rw [if_neg hpool]
  refine .inr (.inr (.inr ⟨hs, ⟨hzero, ?_, Nat.not_le.mp hring, hsysmem, hmagic, hconfig, hpool⟩,
    rfl⟩))
  by_contra hge
  exact hthread ⟨by omega, hmanager⟩

theorem Sound.init_iff (h : Sound s) (hstep : Step s (.init c allocated initStatus) s') :
    (StepOk s (.init c allocated initStatus) s' ↔ Clean s (.init c allocated initStatus)) ∧
      (Accounted s' → Sound s') := by
  cases hstep
  have hclean : Clean s (.init c allocated initStatus) ↔
      (c.ringId = nlmMasterRing ∧ c.initError allocated = none → s.dataplaneThreads = 0) :=
    ⟨fun hc ↦ hc.starts, fun hc ↦ ⟨hc, False.elim, fun _ _ _ heq ↦ by cases heq⟩⟩
  rw [hclean]
  unfold nlmDeviceInit
  by_cases hring : c.ringId = nlmMasterRing
  · rw [if_neg (not_not.mpr hring)]
    obtain ⟨hiff, hsound, hchecks⟩ :=
      h.init1 _ (rfl : _ = nlmDeviceInit1 s.phy c allocated initStatus)
    refine ⟨⟨fun hok hc ↦ hiff.mp hok.accounted hc.2, fun hc ↦ ?_⟩, fun hacc ↦ (hsound hacc).1⟩
    exact ⟨hiff.mpr fun hnone ↦ hc ⟨hring, hnone⟩, False.elim, fun hne ↦ absurd hchecks hne⟩
  · rw [if_pos hring]
    refine ⟨⟨fun _ hc ↦ absurd hc.1 hring, fun _ ↦ ?_⟩, fun _ ↦ h⟩
    exact ⟨h.accounted, False.elim, fun hne ↦ absurd rfl hne⟩

theorem Step.attach_inv (h : Step s (.attach c allocated initStatus) s') :
    ∃ r, nlmDeviceAttach s.phy c allocated initStatus = some r ∧ s' = s.afterAttach r := by
  cases h with
  | attach _ _ _ hcall => exact ⟨_, hcall, rfl⟩

theorem Sound.attach_iff (h : Sound s) (hstep : Step s (.attach c allocated initStatus) s') :
    (StepOk s (.attach c allocated initStatus) s' ↔ Clean s (.attach c allocated initStatus)) ∧
      (Accounted s' → Sound s') := by
  obtain ⟨r, hcall, rfl⟩ := Step.attach_inv hstep
  have hcount : s.phy.threadsAttached = s.dataplaneThreads := h.accounted
  have hmanager : ∀ d contextRing xauiBuffers, Event.attach c allocated initStatus =
      .detach (some d) contextRing xauiBuffers → d.threadId ≠ nlmManagerThreadId :=
    fun _ _ _ heq ↦ by cases heq
  obtain ⟨hs, hj, status, heq⟩ | ⟨hmaster, hring, hj, heq⟩ | ⟨hs, hj, hmagic, hthread, heq⟩ |
    ⟨hs, hj, heq⟩ := attach_cases (Option.ne_none_iff_exists'.mpr ⟨_, hcall⟩) <;>
    cases heq.symm.trans hcall
  · refine ⟨⟨fun _ ↦ ⟨fun hs' ↦ absurd hs' hs, fun hj' ↦ absurd hj' hj, hmanager⟩, fun _ ↦ ?_⟩,
      fun _ ↦ h⟩
    exact ⟨h.accounted, fun _ ↦ rfl, fun hne ↦ absurd rfl hne⟩
  · obtain ⟨hiff, hsound, hchecks⟩ :=
      h.init1 _ (rfl : _ = nlmDeviceInit1 s.phy c allocated initStatus)
    refine ⟨⟨fun hok ↦ ⟨fun hs ↦ hiff.mp hok.accounted hs.2.2, fun hj' ↦ absurd hj' hj, hmanager⟩,
      fun hc ↦ ?_⟩, fun hacc ↦ (hsound hacc).1⟩
    have hacc := hiff.mpr fun hnone ↦ hc.starts ⟨hmaster, hring, hnone⟩
    refine ⟨hacc, ?_, fun hne ↦ absurd hchecks hne⟩
    rintro ⟨r, hr, hnone⟩
    cases heq.symm.trans hr
    exact (hsound hacc).2 hnone
  · have hdataplane : (s.afterAttach (.ok, some ⟨c.ringId, c.threadId⟩, s.phy)).dataplaneThreads =
        s.dataplaneThreads :=
      dataplaneThreads_cons_of_eq hthread _ _
    have hacc : Accounted (s.afterAttach (.ok, some ⟨c.ringId, c.threadId⟩, s.phy)) :=
      hcount.trans hdataplane.symm
    refine ⟨⟨fun _ ↦ ⟨fun hs' ↦ absurd hs' hs, fun hj' ↦ absurd hj' hj, hmanager⟩, fun _ ↦ ?_⟩,
      fun _ ↦ ⟨hacc, hdataplane.trans_le h.threads_le, h.max_le, fun _ ↦ hmagic⟩⟩
    exact ⟨hacc, fun _ ↦ rfl, fun hne ↦ absurd rfl hne⟩
  · have hle := h.threads_le
    have hmax := h.max_le hj.2.2.2.2.1
    have hsame : s.phy.config.maxThreads = c.maxThreads :=
      (compareConfigs_eq_ok hj.2.2.2.2.2.1).1.2.2.2.2.2.2.2.2.2.2.2.2.2.2.1
    have htid : (s.phy.threadsAttached + 1) % 2 ^ 32 = s.dataplaneThreads + 1 := by
      rw [hcount]
      apply Nat.mod_eq_of_lt
      simp only [nlmMaxThreads] at hle
      omega
    unfold deviceAttach at heq ⊢
    rw [htid, ← hsame] at heq ⊢
    by_cases hlt : s.phy.config.maxThreads < s.dataplaneThreads + 1
    · simp only [if_pos hlt]
      have hnot : ¬ Accounted (s.afterAttach (.excessDeviceAttach, none,
          { s.phy with threadsAttached := s.dataplaneThreads + 1 })) :=
        Nat.succ_ne_self s.dataplaneThreads
      refine ⟨⟨fun hok ↦ absurd hok.accounted hnot, fun hc ↦ ?_⟩, fun hacc ↦ absurd hacc hnot⟩
      have hjoin := hc.joins hj
      omega
    · simp only [if_neg hlt]
      have hthread : c.threadId ≠ nlmManagerThreadId := by
        have hsmall := hj.2.1
        simp only [nlmMaxThreads] at hsmall
        simp only [nlmManagerThreadId]
        omega
      have hdataplane : (s.afterAttach (.ok, some ⟨c.ringId, c.threadId⟩,
          { s.phy with threadsAttached := s.dataplaneThreads + 1 })).dataplaneThreads =
          s.dataplaneThreads + 1 :=
        dataplaneThreads_cons_of_ne hthread _ _
      have hacc : Accounted (s.afterAttach (.ok, some ⟨c.ringId, c.threadId⟩,
          { s.phy with threadsAttached := s.dataplaneThreads + 1 })) := hdataplane.symm
      refine ⟨⟨fun _ ↦ ⟨fun hs' ↦ absurd hs' hs, fun _ ↦ by omega, hmanager⟩, fun _ ↦ ?_⟩,
        fun _ ↦ ⟨hacc, ?_, h.max_le, fun _ ↦ hj.2.2.2.2.1⟩⟩
      · refine ⟨hacc, fun hrejected ↦ ?_, fun hne ↦ absurd rfl hne⟩
        obtain ⟨r, hr, hnone⟩ := hrejected
        rw [heq, if_neg hlt] at hr
        cases hr
        cases hnone
      · rw [hdataplane]
        omega

/-- What detaching a handle other than that of the master ring's thread 0 leaves. -/
theorem detach_eq {d : NlmDevice} (hmagic : p.deviceMagic = nlmDeviceMagic)
    (hfirst : ¬ (d.fmsRingId = 0 ∧ d.threadId = 0)) (contextRing xauiBuffers : NlmStatus) :
    (nlmDeviceDetach p (some d) contextRing xauiBuffers).2 =
      (true, { p with
        threadsAttached := (2 ^ 32 + p.threadsAttached - 1) % 2 ^ 32
        contextRingChecks := p.contextRingChecks +
          if (2 ^ 32 + p.threadsAttached - 1) % 2 ^ 32 = 0 then 1 else 0 }) := by
  unfold nlmDeviceDetach
  simp only [if_neg (not_not.mpr hmagic), if_neg hfirst]
  by_cases hlast : (2 ^ 32 + p.threadsAttached - 1) % 2 ^ 32 = 0
  · simp only [if_pos hlast]
  · simp only [if_neg hlast, Nat.add_zero]

theorem Sound.detach_iff (h : Sound s) {device : Option NlmDevice}
    {contextRing xauiBuffers : NlmStatus}
    (hstep : Step s (.detach device contextRing xauiBuffers) s') :
    (StepOk s (.detach device contextRing xauiBuffers) s' ↔
        Clean s (.detach device contextRing xauiBuffers)) ∧
      (Accounted s' → Sound s') := by
  cases hstep with
  | detachNull =>
    refine ⟨⟨fun _ ↦ ⟨False.elim, False.elim, fun _ _ _ heq ↦ by cases heq⟩, fun _ ↦ ?_⟩, fun _ ↦ h⟩
    exact ⟨h.accounted, False.elim, fun hne ↦ absurd rfl hne⟩
  | @detach d _ _ hd =>
    have hcount : s.phy.threadsAttached = s.dataplaneThreads := h.accounted
    have hmagic : s.phy.deviceMagic = nlmDeviceMagic := h.magic (List.ne_nil_of_mem hd)
    have hclean : Clean s (.detach (some d) contextRing xauiBuffers) ↔
        d.threadId ≠ nlmManagerThreadId := by
      constructor
      · exact fun hc ↦ hc.manager d contextRing xauiBuffers rfl
      · intro hne
        refine ⟨False.elim, False.elim, fun d' _ _ heq ↦ ?_⟩
        cases heq
        exact hne
    rw [hclean]
    by_cases hfirst : d.fmsRingId = 0 ∧ d.threadId = 0
    · -- thread 0 of the master ring is sent away
      have heq : (nlmDeviceDetach s.phy (some d) contextRing xauiBuffers).2 = (false, s.phy) := by
        unfold nlmDeviceDetach
        simp only [if_neg (not_not.mpr hmagic), if_pos hfirst]
      rw [heq]
      refine ⟨⟨fun _ ↦ ?_, fun _ ↦ ⟨h.accounted, False.elim, fun hne ↦ absurd rfl hne⟩⟩, fun _ ↦ h⟩
      rw [hfirst.2]
      decide
    · have hle := h.threads_le
      simp only [nlmMaxThreads] at hle
      rw [detach_eq hmagic hfirst, if_pos rfl]
      set tid := (2 ^ 32 + s.phy.threadsAttached - 1) % 2 ^ 32 with htid
      set p' : NlmPhyDevice := { s.phy with
        threadsAttached := tid
        contextRingChecks := s.phy.contextRingChecks + if tid = 0 then 1 else 0 } with hp'
      have hafter : (RingState.mk p' (s.handles.erase d)).dataplaneThreads =
          s.dataplaneThreads - if isDataplane d then 1 else 0 := by
        unfold dataplaneThreads
        rw [List.countP_erase]
        simp only [hd, true_and]
      by_cases hmanager : d.threadId = nlmManagerThreadId
      · have hnot : ¬ Accounted ⟨p', s.handles.erase d⟩ := by
          have hd' : isDataplane d = false := by
            simp only [isDataplane, hmanager, bne_self_eq_false]
          intro hacc
          change tid = _ at hacc
          rw [hafter, hd', htid, hcount] at hacc
          simp only [Bool.false_eq_true, if_false] at hacc
          omega
        exact ⟨⟨fun hok ↦ absurd hok.accounted hnot, fun hne ↦ absurd hmanager hne⟩,
          fun hacc ↦ absurd hacc hnot⟩
      · have hd' : isDataplane d = true := bne_iff_ne.mpr hmanager
        have hpos : 0 < s.dataplaneThreads := List.countP_pos_iff.mpr ⟨d, hd, hd'⟩
        rw [hd', if_pos rfl] at hafter
        have htid' : tid = s.dataplaneThreads - 1 := by omega
        have hacc : Accounted ⟨p', s.handles.erase d⟩ := htid'.trans hafter.symm
        refine ⟨⟨fun _ ↦ hmanager, fun _ ↦ ⟨hacc, False.elim, fun hne ↦ ?_⟩⟩,
          fun _ ↦ ⟨hacc, hafter.trans_le ((Nat.sub_le _ _).trans h.threads_le), h.max_le,
            fun _ ↦ hmagic⟩⟩
        -- the ring was emptied, so the counter is 0
        have hzero : tid = 0 := by
          by_contra hne'
          exact hne (by simp only [hp', if_neg hne', Nat.add_zero])
        exact hacc.symm.trans hzero

theorem Sound.step_iff (h : Sound s) (hstep : Step s e s') :
    (StepOk s e s' ↔ Clean s e) ∧ (Accounted s' → Sound s') := by
  cases e with
  | init c allocated initStatus => exact h.init_iff hstep
  | attach c allocated initStatus => exact h.attach_iff hstep
  | detach device contextRing xauiBuffers => exact h.detach_iff hstep

/-- System memory before the first initialisation of the ring. -/
def unused (p : NlmPhyDevice) : RingState :=
  ⟨{ p with deviceMagic := 0, threadsAttached := 0 }, []⟩

theorem Sound.unused (p : NlmPhyDevice) : Sound (RingState.unused p) :=
  ⟨rfl, Nat.zero_le _, fun hmagic ↦ absurd (show 0 = nlmDeviceMagic from hmagic) (by decide),
    fun hne ↦ absurd rfl hne⟩

/-- In every run the counter is right after every step, a rejected attach leaves it
alone and the context ring is emptied only behind the last thread, exactly if the
ring is initialised only while no dataplane thread is attached, a dataplane thread
joins only while fewer than `max_threads` are attached, and the manager does not
detach. -/
theorem attach_accounting_iff_clean {run : List (Event × RingState)}
    (hrun : Run Step (RingState.unused p) run) :
    AlongSteps StepOk (RingState.unused p) run ↔ Along Clean (RingState.unused p) run :=
  hrun.alongSteps_iff_along (Sound.unused p) (fun _ _ _ h hstep ↦ (h.step_iff hstep).1)
    fun _ _ _ h hstep hok ↦ (h.step_iff hstep).2 hok.accounted

/-- The configurations of ring 1, whose threads share a memory pool. -/
def sampleConfig (threadId : ℕ) : NlmDeviceConfig :=
  { plain with
    ringId := 1
    maxThreads := 2
    threadId := threadId
    usingManagerThread := true }

/-- Ring memory that has never been used. -/
def sampleRing : NlmPhyDevice := ⟨0, sampleConfig 0, 0, 0⟩

/-- The ring with some threads attached. -/
def sampleAttached (threadsAttached : ℕ) : NlmPhyDevice :=
  ⟨nlmDeviceMagic, sampleConfig 0, threadsAttached, 0⟩

/-- Thread 0 and a second thread attach, and the second one detaches. -/
def sampleRun (threadId threadsAttached : ℕ) : List (Event × RingState) :=
  let s₂ : RingState := ⟨sampleAttached threadsAttached, [⟨1, threadId⟩, ⟨1, 0⟩]⟩
  [(.attach (sampleConfig 0) 0 .ok, ⟨sampleAttached 1, [⟨1, 0⟩]⟩),
    (.attach (sampleConfig threadId) 0 .ok, s₂),
    (.detach (some ⟨1, threadId⟩) .ok .ok,
      ⟨(nlmDeviceDetach s₂.phy (some ⟨1, threadId⟩) .ok .ok).2.2, [⟨1, 0⟩]⟩)]

theorem dataplane_run : Run Step (RingState.unused sampleRing) (sampleRun 1 2) :=
  .cons (Step.attach (r := (.ok, some ⟨1, 0⟩, sampleAttached 1)) _ _ _ rfl)
    (.cons (Step.attach (r := (.ok, some ⟨1, 1⟩, sampleAttached 2)) _ _ _ rfl)
      (.cons (.detach _ _ (by decide)) (.nil _)))

theorem attach_accounting_iff_clean_sample :
    AlongSteps StepOk (RingState.unused sampleRing) (sampleRun 1 2) := by
  apply (attach_accounting_iff_clean dataplane_run).mpr
  refine ⟨⟨fun _ ↦ rfl, fun hj ↦ absurd rfl hj.1, fun _ _ _ heq ↦ by cases heq⟩,
    ⟨fun hs ↦ absurd hs.2.2 (by decide), fun _ ↦ by decide, fun _ _ _ heq ↦ by cases heq⟩,
    ⟨False.elim, False.elim, fun d _ _ heq ↦ ?_⟩, trivial⟩
  cases heq
  decide

/-- Thread 0 and the manager attach, and the manager detaches: this takes the
contexts away from thread 0, which the counter no longer knows. -/
theorem managerRun_empties_ring :
    Run Step (RingState.unused sampleRing) (sampleRun nlmManagerThreadId 1) ∧
      ¬ AlongSteps StepOk (RingState.unused sampleRing) (sampleRun nlmManagerThreadId 1) := by
  constructor
  · exact .cons (Step.attach (r := (.ok, some ⟨1, 0⟩, sampleAttached 1)) _ _ _ rfl)
      (.cons (Step.attach (r := (.ok, some ⟨1, nlmManagerThreadId⟩, sampleAttached 1)) _ _ _ rfl)
        (.cons (.detach _ _ (by decide)) (.nil _)))
  · rintro ⟨-, -, hlast, -⟩
    exact absurd (hlast.last (by decide)) (by decide)

end RingState

end NetL7.Device
