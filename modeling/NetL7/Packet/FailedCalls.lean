import NetL7.Packet.Counts
import NetL7.Packet.Enqueue

/-!
# Calls that fail for want of memory

What `nlm_flow_enqueue_search` and `nlm_destroy_stateful_flow` leave behind when
they fail: a slot that was never used and a slot on the free list are both free.
-/

namespace NetL7.Packet

open NetL7.Device AllocRun

namespace Allocators

variable (c : ThreadConfig) (m : Allocators)

/-- A job slot that `memory_pool_alloc_job` can still hand out. -/
def FreeJob (j : ℕ) : Prop :=
  j ∈ m.pool.jobList ∨
    m.pool.firstFreeJob ≤ j ∧ m.pool.firstFreeFlow < MemoryPool.jobAddr c.pool (j + 1)

/-- A PD that `sysmem_alloc_pd` can still hand out. -/
def FreePd (p : ℕ) : Prop :=
  p ∈ m.pds.pdList ∨ m.pds.firstFreePd ≤ p ∧ p < 8 * m.pds.firstFreePdf ∧ p < 2 ^ 24

/-- The same job slots and PDs are free. -/
def SameSlots (m' : Allocators) : Prop :=
  (∀ j, m'.FreeJob c j ↔ m.FreeJob c j) ∧ ∀ p, m'.FreePd p ↔ m.FreePd p

/-- `memory_pool_alloc_job` has a slot. -/
def HasJob : Prop :=
  m.pool.jobList ≠ [] ∨
    m.pool.firstFreeFlow < MemoryPool.jobAddr c.pool (m.pool.firstFreeJob + 1)

/-- `sysmem_alloc_pd` has a PD. -/
def HasPd : Prop :=
  m.pds.pdList ≠ [] ∨ m.pds.firstFreePd < 8 * m.pds.firstFreePdf ∧ m.pds.firstFreePd < 2 ^ 24

variable {c : ThreadConfig} {m m' m'' : Allocators} {j p : ℕ}

theorem SameSlots.refl : m.SameSlots c m := ⟨fun _ ↦ Iff.rfl, fun _ ↦ Iff.rfl⟩

theorem allocJob_eq_none (h : m.allocJob c = (none, m')) : ¬ m.HasJob c ∧ m' = m := by
  unfold allocJob MemoryPool.memoryPoolAllocJob at h
  unfold HasJob
  cases hlist : m.pool.jobList with
  | cons j js => simp [hlist] at h
  | nil =>
    simp only [hlist] at h
    split at h
    · next hnone =>
      split at hnone
      · next hroom =>
        cases h
        exact ⟨fun h ↦ h.elim (fun h ↦ h rfl) fun h ↦ absurd hroom (Nat.not_le.mpr h), rfl⟩
      · cases hnone
    · cases h

/-- An allocated job was free, is no longer, and goes back when it is freed. -/
theorem allocJob_eq_some (h : m.allocJob c = (some j, m')) {jobs : List ℕ}
    (hinv : JobInv m.pool jobs) :
    m.HasJob c ∧ m.FreeJob c j ∧ ¬ m'.FreeJob c j ∧ m'.pds = m.pds ∧
      ∀ i, (m'.freeJob j).FreeJob c i ↔ m.FreeJob c i := by
  unfold allocJob at h
  cases halloc : m.pool.memoryPoolAllocJob c.pool with
  | none => simp [halloc] at h
  | some r =>
    obtain ⟨job, pool⟩ := r
    simp only [halloc, Prod.mk.injEq, Option.some.injEq] at h
    obtain ⟨rfl, rfl⟩ := h
    obtain ⟨js, hlist, rfl⟩ | ⟨hlist, rfl, hroom, rfl⟩ := memoryPoolAllocJob_cases halloc
    · have hmem : job ∈ jobs ++ m.pool.jobList := by
        rw [hlist]
        exact List.mem_append_right _ List.mem_cons_self
      have hfresh := (List.nodup_append.mp hinv.nodup).2.1
      rw [hlist] at hfresh
      refine ⟨.inl (by rw [hlist]; exact List.cons_ne_nil _ _), .inl ?_, ?_, rfl, fun i ↦ ?_⟩
      · rw [hlist]
        exact List.mem_cons_self
      · rintro (hfree | ⟨hle, -⟩)
        · exact (List.nodup_cons.mp hfresh).1 hfree
        · exact absurd (hinv.slot job hmem).2 (Nat.not_lt.mpr hle)
      · simp only [FreeJob, freeJob, MemoryPool.memoryPoolFreeJob, hlist]
    · refine ⟨.inr hroom, .inr ⟨le_rfl, hroom⟩, ?_, rfl, fun i ↦ ?_⟩
      · rintro (hfree | ⟨hle, -⟩)
        · change m.pool.firstFreeJob ∈ m.pool.jobList at hfree
          rw [hlist] at hfree
          cases hfree
        · exact absurd hle (Nat.not_succ_le_self _)
      · simp only [FreeJob, freeJob, MemoryPool.memoryPoolFreeJob, hlist, List.mem_singleton,
          List.not_mem_nil, false_or]
        constructor
        · rintro (rfl | ⟨hle, hfree⟩)
          · exact ⟨le_rfl, hroom⟩
          · exact ⟨(Nat.le_succ _).trans hle, hfree⟩
        · rintro ⟨hle, hfree⟩
          cases hle.eq_or_lt with
          | inl heq => exact .inl heq.symm
          | inr hlt => exact .inr ⟨hlt, hfree⟩

theorem allocPd_eq_none (h : m.allocPd = (none, m')) :
    ¬ m.HasPd ∧ m'.pool = m.pool ∧ ∀ p, m'.FreePd p ↔ m.FreePd p := by
  unfold allocPd at h
  simp only [Prod.mk.injEq] at h
  obtain ⟨hnone, rfl⟩ := h
  obtain ⟨p, ps, -, heq⟩ | ⟨-, -, -, heq⟩ | ⟨hlist, hroom, hindex, heq⟩ | ⟨hlist, hroom, heq⟩ :=
    sysmemAllocPd_cases m.pds
  · rw [heq] at hnone
    cases hnone
  · rw [heq] at hnone
    cases hnone
  · rw [heq]
    refine ⟨fun h ↦ h.elim (fun h ↦ h hlist) fun h ↦ absurd hindex (Nat.not_le.mpr h.2), rfl,
      fun p ↦ or_congr Iff.rfl ?_⟩
    change m.pds.firstFreePd + 1 ≤ p ∧ _ ↔ _
    omega
  · rw [heq]
    exact ⟨fun h ↦ h.elim (fun h ↦ h hlist) fun h ↦ absurd hroom (Nat.not_le.mpr h.1), rfl,
      fun p ↦ Iff.rfl⟩

theorem allocPd_eq_some (h : m.allocPd = (some p, m')) :
    m.HasPd ∧ m'.pool = m.pool ∧ ∀ q, (m'.freePd p).FreePd q ↔ m.FreePd q := by
  unfold allocPd at h
  simp only [Prod.mk.injEq] at h
  obtain ⟨hsome, rfl⟩ := h
  obtain ⟨p', ps, hlist, heq⟩ | ⟨hlist, hroom, hindex, heq⟩ | ⟨-, -, -, heq⟩ | ⟨-, -, heq⟩ :=
    sysmemAllocPd_cases m.pds
  · rw [heq] at hsome ⊢
    cases hsome
    refine ⟨.inl (by rw [hlist]; exact List.cons_ne_nil _ _), rfl, fun q ↦ ?_⟩
    simp only [FreePd, freePd, PdPool.sysmemFreePd, hlist]
  · rw [heq] at hsome ⊢
    cases hsome
    refine ⟨.inr ⟨hroom, hindex⟩, rfl, fun q ↦ ?_⟩
    simp only [FreePd, freePd, PdPool.sysmemFreePd, hlist, List.mem_singleton, List.not_mem_nil,
      false_or]
    omega
  · rw [heq] at hsome
    cases hsome
  · rw [heq] at hsome
    cases hsome

end Allocators

namespace Thread

/-- The ways through `nlm_flow_enqueue_search_1`. -/
inductive Enqueued (c : ThreadConfig) (k : PacketConfig) (t : Thread)
    (f start stop userCookie : ℕ) : NlmStatus × Option ℕ × Thread → Prop
  | noJob (hjob : ¬ t.m.HasJob c) : Enqueued c k t f start stop userCookie (.outOfMemory, none, t)
  | badSize {j : ℕ} {m : Allocators} (hjob : t.m.allocJob c = (some j, m))
      (hrange : packetRange k start stop = none) :
      Enqueued c k t f start stop userCookie (.invalidPacketSize, none,
        { t with device := t.fillJob f j userCookie, m := m })
  | statelessNoBase {j n physAddr : ℕ} {m : Allocators} (hjob : t.m.allocJob c = (some j, m))
      (hrange : packetRange k start stop = some (n, physAddr))
      (htype : (t.device.flows f).type = .stateless)
      (hbase : storePhysAddr k t.packetBase physAddr = none) :
      Enqueued c k t f start stop userCookie (.outOfPacketMemory, none,
        { t with device := t.fillJob f j userCookie, m := m })
  | stateless {j n physAddr base : ℕ} {m : Allocators} {packetBase : List ℕ}
      (hjob : t.m.allocJob c = (some j, m))
      (hrange : packetRange k start stop = some (n, physAddr))
      (htype : (t.device.flows f).type = .stateless)
      (hbase : storePhysAddr k t.packetBase physAddr = some (base, packetBase)) :
      Enqueued c k t f start stop userCookie (.ok, some j,
        { t with
          device := t.device.enqueueStateless f j userCookie ⟨base, physAddr % 2 ^ 32, n⟩
          m := m
          packetBase := packetBase })
  | noPd {j n physAddr : ℕ} {m m' : Allocators} (hjob : t.m.allocJob c = (some j, m))
      (hrange : packetRange k start stop = some (n, physAddr))
      (htype : (t.device.flows f).type ≠ .stateless) (hpd : m.allocPd = (none, m')) :
      Enqueued c k t f start stop userCookie (.outOfDeviceMemory, none,
        { t with device := t.fillJob f j userCookie, m := m'.freeJob j })
  | statefulNoBase {j p n physAddr : ℕ} {m m' : Allocators}
      (hjob : t.m.allocJob c = (some j, m))
      (hrange : packetRange k start stop = some (n, physAddr))
      (htype : (t.device.flows f).type ≠ .stateless) (hpd : m.allocPd = (some p, m'))
      (hbase : storePhysAddr k t.packetBase physAddr = none) :
      Enqueued c k t f start stop userCookie (.outOfPacketMemory, none,
        { t with
          device := (t.fillJob f j userCookie).sysmemFreePd p
          m := m'.freePd p })
  | stateful {j p n physAddr base : ℕ} {m m' : Allocators} {packetBase : List ℕ}
      (hjob : t.m.allocJob c = (some j, m))
      (hrange : packetRange k start stop = some (n, physAddr))
      (htype : (t.device.flows f).type ≠ .stateless) (hpd : m.allocPd = (some p, m'))
      (hbase : storePhysAddr k t.packetBase physAddr = some (base, packetBase)) :
      Enqueued c k t f start stop userCookie (.ok, some j,
        { t with
          device := t.device.enqueueStateful f j p userCookie ⟨base, physAddr % 2 ^ 32, n⟩
          m := m'
          packetBase := packetBase })

variable {c : ThreadConfig} {k : PacketConfig} {t t' : Thread} {f start stop userCookie : ℕ}
  {r : NlmStatus × Option ℕ × Thread}

/-- The call goes one of the ways, with the link in the slot that it takes. -/
theorem enqueueSearch1_enqueued (c : ThreadConfig) (k : PacketConfig) (t : Thread)
    (f start stop userCookie : ℕ) :
    Enqueued c k (t.withLink c) f start stop userCookie
      (t.nlmFlowEnqueueSearch1 c k f start stop userCookie) := by
  unfold nlmFlowEnqueueSearch1
  rcases hjob : t.m.allocJob c with ⟨j, m⟩
  cases j with
  | none =>
    have hnone := Allocators.allocJob_eq_none hjob
    have hlist : t.m.pool.jobList = [] := by
      by_contra hlist
      exact hnone.1 (.inl hlist)
    rw [withLink_nil hlist]
    exact .noJob hnone.1
  | some j =>
    rw [← t.withLink_m (c := c)] at hjob
    generalize t.withLink c = t at hjob
    simp only
    unfold enqueueInSlot
    cases hrange : packetRange k start stop with
    | none => exact .badSize hjob hrange
    | some range =>
      obtain ⟨n, physAddr⟩ := range
      simp only
      by_cases htype : (t.device.flows f).type = .stateless
      · rw [if_pos htype]
        unfold enqueueStateless
        cases hbase : storePhysAddr k t.packetBase physAddr with
        | none => exact .statelessNoBase hjob hrange htype hbase
        | some stored => exact .stateless hjob hrange htype hbase
      · rw [if_neg htype]
        unfold enqueueStateful
        rcases hpd : m.allocPd with ⟨p, m'⟩
        cases p with
        | none => exact .noPd hjob hrange htype hpd
        | some p =>
          cases hbase : storePhysAddr k t.packetBase physAddr with
          | none => exact .statefulNoBase hjob hrange htype hpd hbase
          | some stored => exact .stateful hjob hrange htype hpd hbase

/-- As if the call had not been made. -/
structure Untouched (c : ThreadConfig) (f : ℕ) (t' t : Thread) : Prop where
  slots : t.m.SameSlots c t'.m
  pending : t'.device.pendingFlowList = t.device.pendingFlowList
  last_pd : (t'.device.flows f).lastPd = (t.device.flows f).lastPd
  pending_head : (t'.device.flows f).pendingPdHead = (t.device.flows f).pendingPdHead

/-- There is a job slot for the packet, but its size is not allowed, or it has no
packet base although everything else is there. -/
def LosesJob (c : ThreadConfig) (k : PacketConfig) (t : Thread) (f start stop : ℕ) : Prop :=
  t.m.HasJob c ∧ (packetRange k start stop = none ∨
    ∃ n physAddr, packetRange k start stop = some (n, physAddr) ∧
      storePhysAddr k t.packetBase physAddr = none ∧
      ((t.device.flows f).type = .stateless ∨ t.m.HasPd))

theorem hasPd_congr {m m' : Allocators} (hpds : m'.pds = m.pds) : m'.HasPd ↔ m.HasPd := by
  unfold Allocators.HasPd
  rw [hpds]

theorem freePd_congr {m m' : Allocators} (hpds : m'.pds = m.pds) (p : ℕ) :
    m'.FreePd p ↔ m.FreePd p := by
  unfold Allocators.FreePd
  rw [hpds]

theorem freeJob_congr {m m' : Allocators} (hpool : m'.pool = m.pool) (j : ℕ) :
    m'.FreeJob c j ↔ m.FreeJob c j := by
  unfold Allocators.FreeJob
  rw [hpool]

/-- A failed `nlm_flow_enqueue_search_1` leaves no trace exactly if no job is lost. -/
theorem Enqueued.untouched_iff (h : Enqueued c k t f start stop userCookie r) {jobs : List ℕ}
    (hinv : JobInv t.m.pool jobs) :
    (r.1 ≠ .ok → r.2.1 = none ∧ Untouched c f r.2.2 t) ↔ ¬ LosesJob c k t f start stop := by
  cases h with
  | noJob hjob =>
    exact ⟨fun _ hloses ↦ hjob hloses.1, fun _ _ ↦ ⟨rfl, .refl, rfl, rfl, rfl⟩⟩
  | @badSize j m hjob hrange =>
    obtain ⟨hhas, hfree, hgone, -⟩ := Allocators.allocJob_eq_some hjob hinv
    constructor
    · intro hatomic
      exact absurd (((hatomic fun heq ↦ by cases heq).2.slots.1 j).mpr hfree) hgone
    · exact fun hloses ↦ absurd ⟨hhas, .inl hrange⟩ hloses
  | @statelessNoBase j n physAddr m hjob hrange htype hbase =>
    obtain ⟨hhas, hfree, hgone, -⟩ := Allocators.allocJob_eq_some hjob hinv
    constructor
    · intro hatomic
      exact absurd (((hatomic fun heq ↦ by cases heq).2.slots.1 j).mpr hfree) hgone
    · exact fun hloses ↦ absurd ⟨hhas, .inr ⟨n, physAddr, hrange, hbase, .inl htype⟩⟩ hloses
  | stateless hjob hrange htype hbase =>
    refine ⟨fun _ hloses ↦ ?_, fun _ hne ↦ absurd rfl hne⟩
    obtain ⟨-, hnone | ⟨n', physAddr', hrange', hbase', -⟩⟩ := hloses
    · rw [hrange] at hnone
      cases hnone
    · rw [hrange] at hrange'
      cases hrange'
      rw [hbase] at hbase'
      cases hbase'
  | @noPd j n physAddr m m' hjob hrange htype hpd =>
    obtain ⟨-, -, -, hpds, hback⟩ := Allocators.allocJob_eq_some hjob hinv
    obtain ⟨hnone, hpool, hsame⟩ := Allocators.allocPd_eq_none hpd
    constructor
    · rintro - ⟨-, hbad | ⟨n', physAddr', -, -, htype' | hhas⟩⟩
      · rw [hrange] at hbad
        cases hbad
      · exact htype htype'
      · exact hnone ((hasPd_congr hpds).mpr hhas)
    · refine fun _ _ ↦ ⟨rfl, ⟨fun i ↦ ?_, fun p ↦ ?_⟩, rfl, rfl, rfl⟩
      · have hpool' : (m'.freeJob j).pool = (m.freeJob j).pool := by
          simp only [Allocators.freeJob, hpool]
        exact (freeJob_congr hpool' i).trans (hback i)
      · exact (hsame p).trans (freePd_congr hpds p)
  | @statefulNoBase j p n physAddr m m' hjob hrange htype hpd hbase =>
    obtain ⟨hhas, hfree, hgone, hpds, -⟩ := Allocators.allocJob_eq_some hjob hinv
    obtain ⟨hhasPd, hpool, -⟩ := Allocators.allocPd_eq_some hpd
    constructor
    · intro hatomic
      have hpool' : (m'.freePd p).pool = m.pool := hpool
      exact absurd ((freeJob_congr hpool' j).mp
        (((hatomic fun heq ↦ by cases heq).2.slots.1 j).mpr hfree)) hgone
    · exact fun hloses ↦ absurd ⟨hhas, .inr ⟨n, physAddr, hrange, hbase,
        .inr ((hasPd_congr hpds).mp hhasPd)⟩⟩ hloses
  | stateful hjob hrange htype hpd hbase =>
    refine ⟨fun _ hloses ↦ ?_, fun _ hne ↦ absurd rfl hne⟩
    obtain ⟨-, hnone | ⟨n', physAddr', hrange', hbase', -⟩⟩ := hloses
    · rw [hrange] at hnone
      cases hnone
    · rw [hrange] at hrange'
      cases hrange'
      rw [hbase] at hbase'
      cases hbase'

theorem nextCombination_flow (t : Thread) (f : ℕ) :
    (t.nextCombination f).device.flows f = { t.device.flows f with
      dbGroupCombination := ((t.device.flows f).dbGroupCombination + 1) % 2 ^ 32 } :=
  Function.update_self ..

theorem losesJob_nextCombination :
    LosesJob c k (t.nextCombination f) f start stop ↔ LosesJob c k t f start stop := by
  unfold LosesJob
  rw [nextCombination_flow]
  rfl

theorem untouched_nextCombination :
    Untouched c f t' (t.nextCombination f) ↔ Untouched c f t' t := by
  constructor
  · rintro ⟨hslots, hpending, hlast, hhead⟩
    rw [nextCombination_flow] at hlast hhead
    exact ⟨hslots, hpending, hlast, hhead⟩
  · rintro ⟨hslots, hpending, hlast, hhead⟩
    refine ⟨hslots, hpending, ?_, ?_⟩
    · rw [nextCombination_flow]
      exact hlast
    · rw [nextCombination_flow]
      exact hhead

theorem losesJob_withLink :
    LosesJob c k (t.withLink c) f start stop ↔ LosesJob c k t f start stop := by
  unfold LosesJob
  rw [withLink_m, withLink_packetBase, withLink_flows]

theorem untouched_withLink : Untouched c f t' (t.withLink c) ↔ Untouched c f t' t := by
  constructor
  · rintro ⟨hslots, hpending, hlast, hhead⟩
    rw [withLink_m] at hslots
    rw [withLink_pending] at hpending
    rw [withLink_flows] at hlast hhead
    exact ⟨hslots, hpending, hlast, hhead⟩
  · rintro ⟨hslots, hpending, hlast, hhead⟩
    refine ⟨?_, ?_, ?_, ?_⟩
    · rw [withLink_m]
      exact hslots
    · rw [withLink_pending]
      exact hpending
    · rw [withLink_flows]
      exact hlast
    · rw [withLink_flows]
      exact hhead

theorem enqueueSearch1_untouched_iff {jobs : List ℕ} (hinv : JobInv t.m.pool jobs) :
    ((t.nlmFlowEnqueueSearch1 c k f start stop userCookie).1 ≠ .ok →
      (t.nlmFlowEnqueueSearch1 c k f start stop userCookie).2.1 = none ∧
        Untouched c f (t.nlmFlowEnqueueSearch1 c k f start stop userCookie).2.2 t) ↔
    ¬ LosesJob c k t f start stop := by
  have hinvLink : JobInv (t.withLink c).m.pool jobs := by
    rw [withLink_m]
    exact hinv
  rw [← losesJob_withLink, ← untouched_withLink]
  exact (enqueueSearch1_enqueued c k t f start stop userCookie).untouched_iff hinvLink

/-- In every reachable state a failing `nlm_flow_enqueue_search` leaves job slots,
PDs and the pending state of the flow alone exactly if it loses no job: the packet
has a size and a base, or an earlier check stops the call. -/
theorem enqueueSearch_atomic_iff (hc : c.Accepted) {flows jobs pds : List ℕ}
    (hreach : Reachable c ⟨t.m, flows, jobs, pds⟩) (k : PacketConfig)
    (f start stop userCookie : ℕ) :
    ((t.nlmFlowEnqueueSearch c k f start stop userCookie).1 ≠ .ok →
      (t.nlmFlowEnqueueSearch c k f start stop userCookie).2.1 = none ∧
        Untouched c f (t.nlmFlowEnqueueSearch c k f start stop userCookie).2.2 t) ↔
    ¬ (t.enqueueError f start stop = none ∧ LosesJob c k t f start stop) := by
  have hinv := (hreach.inv hc).jobs
  unfold nlmFlowEnqueueSearch
  cases herror : t.enqueueError f start stop with
  | some status =>
    exact ⟨fun _ hnone ↦ (by cases hnone.1), fun _ _ ↦ ⟨rfl, .refl, rfl, rfl, rfl⟩⟩
  | none =>
    have hloses : ∀ {p : Prop}, ¬ ((none : Option NlmStatus) = none ∧ p) ↔ ¬ p :=
      not_congr (and_iff_right rfl)
    rw [hloses]
    simp only
    split
    · rw [← losesJob_nextCombination, ← untouched_nextCombination]
      exact enqueueSearch1_untouched_iff hinv
    · exact enqueueSearch1_untouched_iff hinv

/-- A thread with one stateless flow that searches group 1. -/
def oneFlow : Thread where
  device := (NlmDevice.attached 0 2 false).setFlow 0 fun flow ↦
    { flow with type := .stateless, isStateless := true, dbGroupId := [1] }
  m := .attach smallChunk
  packetBase := List.replicate 16 freePacketBase
  packetEnqueuePolicy := 0

/-- Packet memory whose addresses are physical. -/
def flatMemory : PacketConfig := ⟨some id, 0, 0⟩

/-- A stateful flow has been created and all PDs of the chunk are taken. -/
def noPds : AllocRun :=
  (.createFlow .stateful :: List.replicate 15 .allocPd).foldl (exec smallChunk)
    (AllocRun.start smallChunk)

theorem reachable_noPds : Reachable smallChunk noPds := by
  refine Reachable.foldl .refl fun op hop s ↦ ?_
  obtain rfl | hop := List.mem_cons.mp hop
  · trivial
  · rw [List.eq_of_mem_replicate hop]
    trivial

/-- The thread of that flow, which searches group 1. -/
def crowded : Thread where
  device := (NlmDevice.attached 0 2 false).setFlow 4256 fun flow ↦
    { flow with type := .stateful, dbGroupId := [1], pdfIndex := noPds.m.pdfIndex 4256 }
  m := noPds.m
  packetBase := List.replicate 16 freePacketBase
  packetEnqueuePolicy := 0

/-- The job gets a slot but no PD, and the slot is given back. -/
theorem enqueueSearch_atomic_iff_crowded :
    4256 ∈ noPds.flows ∧
      (crowded.nlmFlowEnqueueSearch smallChunk flatMemory 4256 4096 4196 7).1 =
        .outOfDeviceMemory ∧
      (crowded.nlmFlowEnqueueSearch smallChunk flatMemory 4256 4096 4196 7).2.1 = none ∧
      Untouched smallChunk 4256
        (crowded.nlmFlowEnqueueSearch smallChunk flatMemory 4256 4096 4196 7).2.2 crowded := by
  have hout : (crowded.nlmFlowEnqueueSearch smallChunk flatMemory 4256 4096 4196 7).1 =
      .outOfDeviceMemory := by decide +kernel
  have hkeeps : ¬ LosesJob smallChunk flatMemory crowded 4256 4096 4196 := by
    rintro ⟨-, hnone | ⟨n, physAddr, hrange, hbase, -⟩⟩
    · exact absurd hnone (by decide)
    · cases hrange
      exact absurd hbase (by decide)
  refine ⟨by decide, hout, (enqueueSearch_atomic_iff (t := crowded) smallChunk_accepted
    reachable_noPds flatMemory 4256 4096 4196 7).mpr (fun hloses ↦ hkeeps hloses.2) ?_⟩
  rw [hout]
  decide

/-- A packet that is too large costs a job slot. -/
theorem largePacket_loses_slot :
    Reachable smallChunk ⟨oneFlow.m, [], [], []⟩ ∧
      (oneFlow.nlmFlowEnqueueSearch smallChunk flatMemory 0 4096 104096 7).1 = .invalidPacketSize ∧
      ¬ Untouched smallChunk 0
        (oneFlow.nlmFlowEnqueueSearch smallChunk flatMemory 0 4096 104096 7).2.2 oneFlow := by
  refine ⟨.refl, rfl, fun h ↦ ?_⟩
  have hfree : oneFlow.m.FreeJob smallChunk 1 := .inr ⟨by decide, by decide⟩
  obtain hlist | ⟨hle, -⟩ := (h.slots.1 1).mpr hfree
  · exact absurd hlist (by decide)
  · exact absurd hle (by decide)

/-! ## Destroying a stateful flow -/

theorem Enqueued.flows_eq (h : Enqueued c k t f start stop userCookie r) :
    r.2.2.device.flows = t.device.flows := by
  cases h <;> rfl

theorem Enqueued.job_eq_none (h : Enqueued c k t f start stop userCookie r) (hr : r.1 ≠ .ok) :
    r.2.1 = none := by
  cases h with
  | stateless => exact absurd rfl hr
  | stateful => exact absurd rfl hr
  | _ => rfl

theorem Enqueued.status_ne_endOfJob (h : Enqueued c k t f start stop userCookie r) :
    r.1 ≠ .endOfJob := by
  cases h <;> exact fun heq ↦ by cases heq

/-- The call has a job slot, a PD and a packet base for the zero-length packet. -/
def CanFinish (c : ThreadConfig) (k : PacketConfig) (t : Thread) : Prop :=
  t.m.HasJob c ∧ t.m.HasPd ∧ storePhysAddr k t.packetBase k.packetBasePhys ≠ none

/-- The zero-length packet of a flow that is no longer valid is enqueued exactly if
there is everything it needs. -/
theorem Enqueued.ok_iff_canFinish (h : Enqueued c k t f 0 0 userCookie r) {jobs : List ℕ}
    (hinv : JobInv t.m.pool jobs) (htype : (t.device.flows f).type = .invalid) :
    r.1 = .ok ↔ CanFinish c k t := by
  have hrange₀ : packetRange k 0 0 = some (0, k.packetBasePhys) := rfl
  have hstateless : (t.device.flows f).type ≠ .stateless := by
    rw [htype]
    decide
  cases h with
  | noJob hjob => exact ⟨fun hok ↦ (by cases hok), fun hcan ↦ absurd hcan.1 hjob⟩
  | badSize hjob hrange => cases hrange
  | statelessNoBase hjob hrange htype' hbase => exact absurd htype' hstateless
  | stateless hjob hrange htype' hbase => exact absurd htype' hstateless
  | noPd hjob hrange htype' hpd =>
    obtain ⟨-, -, -, hpds, -⟩ := Allocators.allocJob_eq_some hjob hinv
    have hnone := (Allocators.allocPd_eq_none hpd).1
    exact ⟨fun hok ↦ (by cases hok), fun hcan ↦ absurd ((hasPd_congr hpds).mpr hcan.2.1) hnone⟩
  | statefulNoBase hjob hrange htype' hpd hbase =>
    rw [hrange₀] at hrange
    cases hrange
    exact ⟨fun hok ↦ (by cases hok), fun hcan ↦ absurd hbase hcan.2.2⟩
  | stateful hjob hrange htype' hpd hbase =>
    obtain ⟨hhas, -, -, hpds, -⟩ := Allocators.allocJob_eq_some hjob hinv
    have hhasPd := (Allocators.allocPd_eq_some hpd).1
    rw [hrange₀] at hrange
    cases hrange
    refine ⟨fun _ ↦ ⟨hhas, (hasPd_congr hpds).mp hhasPd, ?_⟩, fun _ ↦ rfl⟩
    rw [hbase]
    exact Option.some_ne_none _

theorem canFinish_withLink : CanFinish c k (t.withLink c) ↔ CanFinish c k t := by
  unfold CanFinish
  rw [withLink_m, withLink_packetBase]

/-- The flow as the call finds it. -/
def NeverSent (t : Thread) (f : ℕ) : Prop :=
  (t.device.flows f).flowOffset = 0 ∨ (t.device.flows f).dbGroupCombination = 0

theorem invalidated_flow (t : Thread) (f : ℕ) :
    (t.invalidated f).device.flows f = { t.device.flows f with type := .invalid } :=
  Function.update_self ..

theorem enqueueFinish_enqueued (c : ThreadConfig) (k : PacketConfig) (t : Thread)
    (f userCookie : ℕ) : Enqueued c k (((t.invalidated f).nextCombination f).withLink c) f 0 0
      userCookie (t.enqueueFinish c k f userCookie) :=
  enqueueSearch1_enqueued c k _ f 0 0 userCookie

theorem startFinish_status {taken : ℕ → ℕ} {job : Option ℕ} {status : NlmStatus}
    (h : t.startFinish taken f job = .ok (status, t')) : status = .ok := by
  unfold startFinish at h
  split at h
  · obtain ⟨-, -, h⟩ := NlmDevice.bind_eq_ok h
    obtain ⟨device, -, h⟩ := NlmDevice.bind_eq_ok h
    cases h
    rfl
  · cases h

theorem destroy_cases {taken : ℕ → ℕ} {status : NlmStatus}
    (htype : (t.device.flows f).type = .stateful)
    (h : t.nlmDestroyStatefulFlow c k taken f userCookie = .ok (status, t')) :
    (NeverSent t f ∧ status = .endOfJob) ∨
    (¬ NeverSent t f ∧ (t.enqueueFinish c k f userCookie).1 = .ok ∧ status = .ok) ∨
    (¬ NeverSent t f ∧ (t.enqueueFinish c k f userCookie).1 ≠ .ok ∧
      t.enqueueFinish c k f userCookie = (status, none, t')) := by
  have henqueued := enqueueFinish_enqueued c k t f userCookie
  simp only [nlmDestroyStatefulFlow, htype] at h
  split at h
  · next hnever =>
    cases h
    exact .inl ⟨hnever, rfl⟩
  · next hsent =>
    right
    split at h
    · next hok =>
      have hnone := henqueued.job_eq_none hok
      refine .inr ⟨hsent, hok, ?_⟩
      cases h
      rw [← hnone]
    · next hok => exact .inl ⟨hsent, not_not.mp hok, startFinish_status h⟩

/-- A stateful flow is left alone by every failing `nlm_destroy_stateful_flow`
exactly if the call cannot fail: the flow was never used, or there are a job slot, a
PD and a packet base for its last packet. -/
theorem destroy_retryable_iff (hc : c.Accepted) {flows jobs pds : List ℕ}
    (hreach : Reachable c ⟨t.m, flows, jobs, pds⟩) (htype : (t.device.flows f).type = .stateful)
    (k : PacketConfig) (taken : ℕ → ℕ) (userCookie : ℕ) :
    (∀ status t', t.nlmDestroyStatefulFlow c k taken f userCookie = .ok (status, t') →
      status ≠ .ok → status ≠ .endOfJob →
      t'.device.flows f = t.device.flows f ∧ Untouched c f t' t) ↔
    NeverSent t f ∨ CanFinish c k t := by
  have henqueued := enqueueFinish_enqueued c k t f userCookie
  have hflow : ((((t.invalidated f).nextCombination f).withLink c).device.flows f).type =
      .invalid := by
    rw [withLink_flows, nextCombination_flow, invalidated_flow]
  have hinv : JobInv (((t.invalidated f).nextCombination f).withLink c).m.pool jobs := by
    rw [withLink_m]
    exact (hreach.inv hc).jobs
  have hcan := (henqueued.ok_iff_canFinish hinv hflow).trans canFinish_withLink
  constructor
  · intro hretry
    by_contra hnot
    obtain ⟨hsent, hfinish⟩ := not_or.mp hnot
    have hfailed : (t.enqueueFinish c k f userCookie).1 ≠ .ok := fun hok ↦ hfinish (hcan.mp hok)
    have hend : (t.enqueueFinish c k f userCookie).1 ≠ .endOfJob := henqueued.status_ne_endOfJob
    have hcall : t.nlmDestroyStatefulFlow c k taken f userCookie =
        .ok ((t.enqueueFinish c k f userCookie).1, (t.enqueueFinish c k f userCookie).2.2) := by
      unfold NeverSent at hsent
      simp only [nlmDestroyStatefulFlow, htype, if_neg hsent, if_pos hfailed]
    -- the flow stays invalid
    have hsame := (hretry _ _ hcall hfailed hend).1
    rw [henqueued.flows_eq] at hsame
    rw [hsame, htype] at hflow
    cases hflow
  · intro hready status t' hcall hok hend
    obtain ⟨-, heq⟩ | ⟨-, -, heq⟩ | ⟨hsent, hfailed, -⟩ := destroy_cases htype hcall
    · exact absurd heq hend
    · exact absurd heq hok
    · exact absurd (hcan.mpr (hready.resolve_left hsent)) hfailed

def freeBases : List ℕ := List.replicate 16 freePacketBase

/-- A thread with one stateful flow on which 100 bytes were sent. -/
def sentFlow (packetBase : List ℕ) : Thread where
  device := (NlmDevice.attached 0 2 false).setFlow 0 fun flow ↦
    { flow with
      type := .stateful
      dbGroupId := [1]
      dbGroupCombination := 1
      pdfIndex := 3
      flowOffset := 100 }
  m := .attach smallChunk
  packetBase := packetBase
  packetEnqueuePolicy := 0

/-- A stateful flow has been created, and a job with its PD is on the way. -/
def oneOnTheWay : AllocRun :=
  [.createFlow .stateful, .allocJob, .allocPd].foldl (exec smallChunk) (AllocRun.start smallChunk)

theorem reachable_oneOnTheWay : Reachable smallChunk oneOnTheWay := by
  refine Reachable.foldl .refl fun op hop s ↦ ?_
  simp only [List.mem_cons, List.not_mem_nil, or_false] at hop
  rcases hop with rfl | rfl | rfl <;> trivial

/-- The thread of that flow. -/
def sentOnTheWay : Thread where
  device := (NlmDevice.attached 0 2 false).setFlow 4256 fun flow ↦
    { flow with
      type := .stateful
      dbGroupId := [1]
      dbGroupCombination := 1
      pdfIndex := oneOnTheWay.m.pdfIndex 4256
      flowOffset := 100 }
  m := oneOnTheWay.m
  packetBase := freeBases
  packetEnqueuePolicy := 0

theorem destroy_retryable_iff_sample :
    CanFinish smallChunk flatMemory sentOnTheWay ∧
      ∀ status t', sentOnTheWay.nlmDestroyStatefulFlow smallChunk flatMemory
        (fun _ ↦ 0) 4256 7 = .ok (status, t') → status ≠ .ok → status ≠ .endOfJob →
        t'.device.flows 4256 = sentOnTheWay.device.flows 4256 ∧
          Untouched smallChunk 4256 t' sentOnTheWay := by
  have hcan : CanFinish smallChunk flatMemory sentOnTheWay :=
    ⟨.inr (by decide +kernel), .inr (by decide +kernel), by decide⟩
  refine ⟨hcan, ?_⟩
  apply (destroy_retryable_iff smallChunk_accepted reachable_oneOnTheWay rfl flatMemory
    (fun _ ↦ 0) 7).mpr
  exact .inr hcan

/-- All packet bases are in use, for addresses above 4 GB. -/
def fullBases : List ℕ := (List.range 16).map fun i ↦ 2 ^ 32 * (i + 1)

/-- When all packet bases are in use, the flow is neither destroyed nor kept, and the
next call does not know it. -/
theorem fullBases_lose_flow :
    Reachable smallChunk ⟨(sentFlow fullBases).m, [], [], []⟩ ∧
      ∃ t', (sentFlow fullBases).nlmDestroyStatefulFlow smallChunk flatMemory
          (fun _ ↦ 0) 0 7 = .ok (.outOfPacketMemory, t') ∧
        t'.device.flows 0 ≠ (sentFlow fullBases).device.flows 0 ∧
        { t' with packetBase := List.replicate 16 freePacketBase }.nlmDestroyStatefulFlow smallChunk
            flatMemory (fun _ ↦ 0) 0 7 =
          .ok (.invalidFlow, { t' with packetBase := List.replicate 16 freePacketBase }) :=
  ⟨.refl, _, rfl, by decide, rfl⟩

end Thread

end NetL7.Packet
