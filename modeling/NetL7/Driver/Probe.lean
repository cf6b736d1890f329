import NetL7.Driver.Ownership
import Mathlib.Algebra.Order.Group.Nat

/-!
# The device table of the driver

`nlm_pci_probe` takes one slot of `device_list` for a device, and then five more for a FAMOS and
one more for a XAUI EX2. It takes the first slot before it checks whether the others fit, and
the check wants one slot to stay free.
-/

namespace NetL7.Driver

open NetL7.Lib

/-- `MAX_DEVICES` -/
abbrev maxDevices : ℕ := 16

/-- `NLM_PCI_DEV_ID` -/
abbrev nlmPciDevId : ℕ := 8

/-- `enum nlm_device_type` -/
inductive DeviceType
  | unknown
  | mars1
  | mars2
  | famos
  | xauiex2
  | mars3
  deriving DecidableEq, Repr

/-- The part of `struct nlm_device` that a probe fills in. -/
structure DeviceSlot where
  type : DeviceType
  regmapBase : ℕ
  regmapSize : ℕ
  procEntry : Option String

/-- `device_list` and `n_devices` -/
@[ext]
structure DeviceTable where
  slots : ℕ → DeviceSlot
  nDevices : ℕ

/-- What the kernel passes to a probe. -/
structure PciDevice where
  /-- `pci_enable_device` succeeds. -/
  enabled : Bool
  resourceStart : ℕ
  resourceLen : ℕ

/-- One call of `nlm_pci_probe`: the device, and `nlm_id->device`. -/
structure ProbeCall where
  dev : Option PciDevice
  device : ℕ

/-- The switch over `nlm_id->device`. -/
def deviceType (device : ℕ) : Option DeviceType :=
  if device = nlmPciDevId then some .mars1
  else if device = nlmPciDevId + 1 then some .mars2
  else if device = nlmPciDevId + 2 then some .famos
  else if device = nlmPciDevId + 3 then some .xauiex2
  else if device = nlmPciDevId + 4 then some .mars3
  else none

namespace DeviceTable

variable (t : DeviceTable)

/-- `dev_id = n_devices++`, and the assignments to `device_list[dev_id]`. -/
def takeSlot (type : DeviceType) (dev : PciDevice) : DeviceTable where
  slots := Function.update t.slots t.nDevices
    { type := type, regmapBase := dev.resourceStart, regmapSize := dev.resourceLen % 2 ^ 32
      procEntry := none }
  nDevices := t.nDevices + 1

/-- `n` slots one after the other. -/
def takeSlots (type : DeviceType) (dev : PciDevice) : ℕ → DeviceTable
  | 0 => t
  | n + 1 => (takeSlots type dev n).takeSlot type dev

end DeviceTable

/-- `nlm_pci_probe` -/
def nlmPciProbe (call : ProbeCall) (t : DeviceTable) : Except Errno Unit × DeviceTable :=
  if maxDevices ≤ t.nDevices then (.error .einval, t)
  else match call.dev with
    | none => (.error .einval, t)
    | some dev =>
      if !dev.enabled then (.error .einval, t)
      else match deviceType call.device with
        | none => (.error .einval, t)
        | some type =>
          let t := t.takeSlot type dev
          if type = .famos then
            if maxDevices ≤ t.nDevices + 5 then (.error .einval, t)
            else (.ok (), t.takeSlots type dev 5)
          else if type = .xauiex2 then
            if maxDevices ≤ t.nDevices + 1 then (.error .einval, t)
            else (.ok (), t.takeSlot type dev)
          else (.ok (), t)

/-- How many slots a device has: one for each ring. -/
def DeviceType.slotCnt : DeviceType → ℕ
  | .famos => 6
  | .xauiex2 => 2
  | _ => 1

/-- A file below `/proc/NetL7` and the slot it belongs to. -/
structure ProcEntry where
  slot : ℕ
  name : String
  deriving DecidableEq

/-- The name of entry `j` of the device with the number `id`. -/
def procName (type : DeviceType) (id j : ℕ) : String :=
  match type with
  | .mars1 => s!"mars1.{id}"
  | .mars2 => s!"mars2.{id}"
  | .mars3 => s!"mars3.{id}"
  | .famos => s!"fms.{id}.r{j}"
  | .xauiex2 => s!"xauiex2.{id}.r{j}"
  | .unknown => ""

/-- The entries of one device from `slots[i]` on, and whether one has failed; `ok` says which
slots the kernel creates a file for. -/
def procGroup (ok : ℕ → Bool) (type : DeviceType) (id : ℕ) :
    ℕ → ℕ → ℕ → List ProcEntry × Bool
  | 0, _, _ => ([], false)
  | n + 1, j, i =>
    if ok i then
      let r := procGroup ok type id n (j + 1) (i + 1)
      (⟨i, procName type id j⟩ :: r.1, r.2)
    else ([], true)

theorem DeviceType.slotCnt_pos (type : DeviceType) : 0 < type.slotCnt := by
  cases type <;> decide

/-- The loop of `create_proc_entries` from `i` on. -/
def createFrom (t : DeviceTable) (ok : ℕ → Bool) (i : ℕ) (ids : DeviceType → ℕ) :
    List ProcEntry × Bool :=
  if i < t.nDevices then
    let type := (t.slots i).type
    -- an unknown type is only reported
    if type = .unknown then createFrom t ok (i + 1) ids
    else
      let r := procGroup ok type (ids type) type.slotCnt 0 i
      if r.2 then r
      else
        let rest := createFrom t ok (i + type.slotCnt)
          (Function.update ids type (ids type + 1))
        (r.1 ++ rest.1, rest.2)
  else ([], false)
termination_by t.nDevices - i
decreasing_by
  · omega
  · have := DeviceType.slotCnt_pos (t.slots i).type
    omega

/-- `create_proc_entries`: the entries it has made and its result. `mkdir` says whether
`/proc/NetL7` could be made. -/
def createProcEntries (t : DeviceTable) (mkdir : Bool) (ok : ℕ → Bool) :
    List ProcEntry × Except Errno Unit :=
  if mkdir then
    let r := createFrom t ok 0 fun _ ↦ 0
    (r.1, if r.2 then .error .einval else .ok ())
  else ([], .error .einval)

/-- `create_proc_entries` uses slots below `n_devices` only, and each of them once. -/
def ProcEntriesOk (t : DeviceTable) : Prop :=
  ∀ mkdir ok, ((createProcEntries t mkdir ok).1.map (·.slot)).Nodup ∧
    (∀ e ∈ (createProcEntries t mkdir ok).1, e.slot < t.nDevices) ∧
    ((createProcEntries t mkdir ok).2 = .ok () →
      (createProcEntries t mkdir ok).1.map (·.slot) = List.range t.nDevices)

/-- The clause for one probe. -/
structure ProbeOk (t : DeviceTable) (call : ProbeCall) (t' : DeviceTable) : Prop where
  le : t'.nDevices ≤ maxDevices
  rejected : ∀ e, (nlmPciProbe call t).1 = .error e → t' = t
  fits : ∀ dev type, call.dev = some dev → dev.enabled = true →
    deviceType call.device = some type → t.nDevices + type.slotCnt ≤ maxDevices →
      (nlmPciProbe call t).1 = .ok ()
  accepted : (nlmPciProbe call t).1 = .ok () → ∃ dev type, call.dev = some dev ∧
    deviceType call.device = some type ∧ t'.nDevices = t.nDevices + type.slotCnt ∧
    (∀ i < t.nDevices, t'.slots i = t.slots i) ∧
    ∀ i < type.slotCnt, t'.slots (t.nDevices + i) =
      ⟨type, dev.resourceStart, dev.resourceLen % 2 ^ 32, none⟩
  procEntries : ProcEntriesOk t'

/-- The probes after which the table is as it should be. -/
def RoomAsChecked (t : DeviceTable) (call : ProbeCall) : Prop :=
  ∀ dev, call.dev = some dev → dev.enabled = true →
    (deviceType call.device = some .famos → t.nDevices ≤ 9 ∨ maxDevices ≤ t.nDevices) ∧
    (deviceType call.device = some .xauiex2 → t.nDevices ≤ 13 ∨ maxDevices ≤ t.nDevices)

/-- One probe. -/
def ProbeStep (t : DeviceTable) (call : ProbeCall) (t' : DeviceTable) : Prop :=
  (nlmPciProbe call t).2 = t'

/-- The slots from `i` on belong to complete devices of the given types. -/
def GroupedFrom (t : DeviceTable) : ℕ → List DeviceType → Prop
  | i, [] => i = t.nDevices
  | i, type :: rest => type ≠ .unknown ∧
    (∀ k < type.slotCnt, (t.slots (i + k)).type = type) ∧ GroupedFrom t (i + type.slotCnt) rest

/-- The table holds complete devices and has no more slots than there are. -/
structure Grouped (t : DeviceTable) : Prop where
  le : t.nDevices ≤ maxDevices
  groups : ∃ types, GroupedFrom t 0 types

namespace DeviceTable

variable (t : DeviceTable) (type : DeviceType) (dev : PciDevice)

theorem takeSlot_takeSlots (n : ℕ) :
    (t.takeSlot type dev).takeSlots type dev n = t.takeSlots type dev (n + 1) := by
  induction n with
  | zero => rfl
  | succ n ih =>
    rw [takeSlots, ih]
    rfl

@[simp] theorem takeSlots_nDevices (n : ℕ) :
    (t.takeSlots type dev n).nDevices = t.nDevices + n := by
  induction n with
  | zero => rfl
  | succ n ih =>
    rw [takeSlots, takeSlot, ih]
    rfl

theorem takeSlots_slots_of_lt (n : ℕ) {i : ℕ} (hi : i < t.nDevices) :
    (t.takeSlots type dev n).slots i = t.slots i := by
  induction n with
  | zero => rfl
  | succ n ih =>
    rw [takeSlots, takeSlot, ← ih]
    exact Function.update_of_ne (by rw [takeSlots_nDevices]; omega) _ _

theorem takeSlots_slots_new (n : ℕ) {i : ℕ} (hi : i < n) :
    (t.takeSlots type dev n).slots (t.nDevices + i) =
      ⟨type, dev.resourceStart, dev.resourceLen % 2 ^ 32, none⟩ := by
  induction n with
  | zero => omega
  | succ n ih =>
    rw [takeSlots, takeSlot, takeSlots_nDevices]
    by_cases hlast : i = n
    · rw [hlast]
      exact Function.update_self _ _ _
    · have hne : t.nDevices + i ≠ t.nDevices + n := by omega
      exact (Function.update_of_ne hne _ _).trans (ih (by omega))

end DeviceTable

theorem nlmPciProbe_of_known {t : DeviceTable} {call : ProbeCall} {dev : PciDevice}
    {type : DeviceType} (hlt : t.nDevices < maxDevices) (hdev : call.dev = some dev)
    (henabled : dev.enabled = true) (htype : deviceType call.device = some type) :
    nlmPciProbe call t =
      if type = .famos ∧ 10 ≤ t.nDevices ∨ type = .xauiex2 ∧ 14 ≤ t.nDevices then
        (.error .einval, t.takeSlot type dev)
      else (.ok (), t.takeSlots type dev type.slotCnt) := by
  have hmax : maxDevices = 16 := rfl
  have hfull : ¬ maxDevices ≤ t.nDevices := by omega
  have hone : (t.takeSlot type dev).nDevices = t.nDevices + 1 := rfl
  simp only [nlmPciProbe, hfull, if_false, hdev, henabled, Bool.not_true, Bool.false_eq_true,
    htype, hone]
  cases type with
  | famos =>
    by_cases hroom : 10 ≤ t.nDevices
    · simp [hroom, show maxDevices ≤ t.nDevices + 1 + 5 by omega]
    · simp [hroom, show ¬ maxDevices ≤ t.nDevices + 1 + 5 by omega, DeviceType.slotCnt,
        DeviceTable.takeSlot_takeSlots]
  | xauiex2 =>
    by_cases hroom : 14 ≤ t.nDevices
    · simp [hroom, show maxDevices ≤ t.nDevices + 1 + 1 by omega]
    · simp [hroom, show ¬ maxDevices ≤ t.nDevices + 1 + 1 by omega, DeviceType.slotCnt,
        DeviceTable.takeSlots]
  | _ => simp [DeviceType.slotCnt, DeviceTable.takeSlots]

/-- A probe that fails before it takes a slot. -/
theorem nlmPciProbe_of_unknown {t : DeviceTable} {call : ProbeCall}
    (h : maxDevices ≤ t.nDevices ∨ ∀ dev type, call.dev = some dev → dev.enabled = true →
      deviceType call.device ≠ some type) : nlmPciProbe call t = (.error .einval, t) := by
  simp only [nlmPciProbe]
  by_cases hfull : maxDevices ≤ t.nDevices
  · rw [if_pos hfull]
  · rw [if_neg hfull]
    cases hdev : call.dev with
    | none => rfl
    | some dev =>
      by_cases henabled : dev.enabled
      · cases htype : deviceType call.device with
        | none => simp [henabled]
        | some type => exact absurd htype ((h.resolve_left hfull) dev type hdev henabled)
      · simp [henabled]

theorem deviceType_ne_unknown (device : ℕ) : deviceType device ≠ some .unknown := by
  simp only [deviceType]
  split_ifs <;> simp

section ProcEntries

variable {t : DeviceTable} (ok : ℕ → Bool)

theorem procGroup_slots (type : DeviceType) (id n j i : ℕ) :
    (procGroup ok type id n j i).1.map (·.slot) <+: List.range' i n ∧
      ((procGroup ok type id n j i).2 = false →
        (procGroup ok type id n j i).1.map (·.slot) = List.range' i n) := by
  induction n generalizing j i with
  | zero => simp [procGroup]
  | succ n ih =>
    obtain ⟨hstart, hall⟩ := ih (j + 1) (i + 1)
    rw [procGroup]
    by_cases hok : ok i
    · rw [if_pos hok, List.range'_succ]
      constructor
      · exact (List.prefix_cons_inj i).mpr hstart
      · intro h
        rw [List.map_cons, hall h]
    · rw [if_neg hok]
      exact ⟨List.nil_prefix, by simp⟩

theorem GroupedFrom.le {types : List DeviceType} {i : ℕ} (h : GroupedFrom t i types) :
    i ≤ t.nDevices := by
  induction types generalizing i with
  | nil => exact Nat.le_of_eq h
  | cons type rest ih => exact Nat.le_trans (Nat.le_add_right _ _) (ih h.2.2)

theorem createFrom_slots {types : List DeviceType} {i : ℕ} (ids : DeviceType → ℕ)
    (h : GroupedFrom t i types) :
    (createFrom t ok i ids).1.map (·.slot) <+: List.range' i (t.nDevices - i) ∧
      ((createFrom t ok i ids).2 = false →
        (createFrom t ok i ids).1.map (·.slot) = List.range' i (t.nDevices - i)) := by
  induction types generalizing i ids with
  | nil =>
    have hend : i = t.nDevices := h
    rw [createFrom, if_neg (by omega), hend, Nat.sub_self]
    simp
  | cons type rest ih =>
    obtain ⟨hknown, htypes, hrest⟩ := h
    have hpos := type.slotCnt_pos
    have hle := hrest.le
    have htype : (t.slots i).type = type := htypes 0 hpos
    obtain ⟨hstart, hall⟩ := procGroup_slots ok type (ids type) type.slotCnt 0 i
    have hsplit : List.range' i (t.nDevices - i) = List.range' i type.slotCnt ++
        List.range' (i + type.slotCnt) (t.nDevices - (i + type.slotCnt)) := by
      rw [List.range'_append_1]
      congr 1
      omega
    rw [createFrom, if_pos (by omega), hsplit]
    simp only [htype, hknown, if_false]
    by_cases hfailed : (procGroup ok type (ids type) type.slotCnt 0 i).2
    · rw [if_pos hfailed]
      exact ⟨hstart.trans (List.prefix_append _ _), by simp [hfailed]⟩
    · rw [if_neg hfailed]
      obtain ⟨hstart', hall'⟩ := ih (Function.update ids type (ids type + 1)) hrest
      simp only [List.map_append, hall (by simpa using hfailed)]
      constructor
      · exact (List.prefix_append_right_inj _).mpr hstart'
      · intro hend
        rw [hall' hend]

theorem Grouped.procEntriesOk (h : Grouped t) : ProcEntriesOk t := by
  obtain ⟨types, htypes⟩ := h.groups
  intro mkdir ok
  cases mkdir with
  | false => simp [createProcEntries]
  | true =>
    obtain ⟨hstart, hall⟩ := createFrom_slots ok (fun _ ↦ 0) htypes
    rw [Nat.sub_zero, ← List.range_eq_range'] at hstart hall
    simp only [createProcEntries, if_true]
    refine ⟨hstart.sublist.nodup List.nodup_range, ?_, ?_⟩
    · intro e he
      exact List.mem_range.mp (hstart.subset (List.mem_map_of_mem he))
    · intro hret
      apply hall
      by_contra hfailed
      simp [hfailed] at hret

end ProcEntries

section Steps

variable {t t' : DeviceTable} {call : ProbeCall}

theorem GroupedFrom.takeSlots {types : List DeviceType} {i : ℕ} (h : GroupedFrom t i types)
    {type : DeviceType} (hknown : type ≠ .unknown) (dev : PciDevice) :
    GroupedFrom (t.takeSlots type dev type.slotCnt) i (types ++ [type]) := by
  induction types generalizing i with
  | nil =>
    have hend : i = t.nDevices := h
    refine ⟨hknown, ?_, ?_⟩
    · intro k hk
      rw [hend, t.takeSlots_slots_new type dev _ hk]
    · rw [GroupedFrom, DeviceTable.takeSlots_nDevices, hend]
  | cons first rest ih =>
    obtain ⟨hfirst, htypes, hrest⟩ := h
    have hle := hrest.le
    refine ⟨hfirst, ?_, ih hrest⟩
    intro k hk
    rw [t.takeSlots_slots_of_lt type dev _ (by omega)]
    exact htypes k hk

/-- The check leaves room for all the slots of a device that it accepts. -/
theorem room_of_checked {type : DeviceType} (hlt : t.nDevices < maxDevices)
    (hroom : ¬ (type = .famos ∧ 10 ≤ t.nDevices ∨ type = .xauiex2 ∧ 14 ≤ t.nDevices)) :
    t.nDevices + type.slotCnt ≤ maxDevices := by
  have hmax : maxDevices = 16 := rfl
  cases type
  all_goals
    simp [DeviceType.slotCnt] at hroom ⊢
    omega

theorem Grouped.takeSlots (h : Grouped t) {type : DeviceType} (hknown : type ≠ .unknown)
    (dev : PciDevice) (hle : t.nDevices + type.slotCnt ≤ maxDevices) :
    Grouped (t.takeSlots type dev type.slotCnt) := by
  obtain ⟨types, htypes⟩ := h.groups
  constructor
  · rwa [DeviceTable.takeSlots_nDevices]
  · exact ⟨_, htypes.takeSlots hknown dev⟩

theorem roomAsChecked_iff {dev : PciDevice} {type : DeviceType}
    (hlt : t.nDevices < maxDevices) (hdev : call.dev = some dev) (henabled : dev.enabled = true)
    (htype : deviceType call.device = some type) :
    RoomAsChecked t call ↔
      ¬ (type = .famos ∧ 10 ≤ t.nDevices ∨ type = .xauiex2 ∧ 14 ≤ t.nDevices) := by
  have hmax : maxDevices = 16 := rfl
  simp only [RoomAsChecked, htype, Option.some.injEq]
  constructor
  · intro h
    obtain ⟨hfamos, hxaui⟩ := h dev hdev henabled
    rintro (⟨rfl, hge⟩ | ⟨rfl, hge⟩)
    · have := hfamos rfl
      omega
    · have := hxaui rfl
      omega
  · intro h _ _ _
    constructor
    · rintro rfl
      simp only [true_and, reduceCtorEq, false_and, or_false] at h
      omega
    · rintro rfl
      simp only [true_and, reduceCtorEq, false_and, false_or] at h
      omega

/-- A call for a device of a known type, while a slot is free. -/
def Known (t : DeviceTable) (call : ProbeCall) : Prop :=
  t.nDevices < maxDevices ∧ ∃ dev type, call.dev = some dev ∧ dev.enabled = true ∧
    deviceType call.device = some type

theorem Grouped.probeOk_of_not_known (h : Grouped t) (hknown : ¬ Known t call)
    (hprobe : nlmPciProbe call t = (.error .einval, t)) : ProbeOk t call t where
  le := h.le
  rejected := fun _ _ ↦ rfl
  fits := by
    intro dev type hdev henabled htype hle
    have hpos := type.slotCnt_pos
    exact absurd ⟨by omega, dev, type, hdev, henabled, htype⟩ hknown
  accepted := by
    intro hok
    rw [hprobe] at hok
    cases hok
  procEntries := h.procEntriesOk

theorem roomAsChecked_of_not_known (hknown : ¬ Known t call) : RoomAsChecked t call := by
  intro dev hdev henabled
  constructor
  · intro htype
    exact .inr (Nat.le_of_not_lt fun hlt ↦ hknown ⟨hlt, dev, _, hdev, henabled, htype⟩)
  · intro htype
    exact .inr (Nat.le_of_not_lt fun hlt ↦ hknown ⟨hlt, dev, _, hdev, henabled, htype⟩)

theorem probeOk_of_accepted {dev : PciDevice} {type : DeviceType} (hdev : call.dev = some dev)
    (htype : deviceType call.device = some type)
    (hprobe : nlmPciProbe call t = (.ok (), t.takeSlots type dev type.slotCnt))
    (h : Grouped (t.takeSlots type dev type.slotCnt)) :
    ProbeOk t call (t.takeSlots type dev type.slotCnt) where
  le := h.le
  rejected := by
    intro e he
    rw [hprobe] at he
    cases he
  fits := by
    intro _ _ _ _ _ _
    rw [hprobe]
  accepted := by
    intro _
    refine ⟨dev, type, hdev, htype, t.takeSlots_nDevices type dev _, ?_, ?_⟩
    · exact fun i hi ↦ t.takeSlots_slots_of_lt type dev _ hi
    · exact fun i hi ↦ t.takeSlots_slots_new type dev _ hi
  procEntries := h.procEntriesOk

/-- A probe that fails behind the first slot leaves it taken. -/
theorem not_probeOk_of_partial {dev : PciDevice} {type : DeviceType}
    (hprobe : nlmPciProbe call t = (.error .einval, t.takeSlot type dev)) :
    ¬ ProbeOk t call (t.takeSlot type dev) := by
  intro hok
  have hsame := hok.rejected .einval (by rw [hprobe])
  have hcnt := congrArg (·.nDevices) hsame
  simp [DeviceTable.takeSlot] at hcnt

theorem Grouped.probeOk_iff (h : Grouped t) (hstep : ProbeStep t call t') :
    (ProbeOk t call t' ↔ RoomAsChecked t call) ∧ (ProbeOk t call t' → Grouped t') := by
  by_cases hknown : Known t call
  · obtain ⟨hlt, dev, type, hdev, henabled, htype⟩ := hknown
    have hprobe := nlmPciProbe_of_known hlt hdev henabled htype
    rw [roomAsChecked_iff hlt hdev henabled htype]
    by_cases hroom : type = .famos ∧ 10 ≤ t.nDevices ∨ type = .xauiex2 ∧ 14 ≤ t.nDevices
    · rw [if_pos hroom] at hprobe
      rw [ProbeStep, hprobe] at hstep
      subst hstep
      have hnot := not_probeOk_of_partial hprobe
      exact ⟨by simp [hnot, hroom], fun hok ↦ absurd hok hnot⟩
    · rw [if_neg hroom] at hprobe
      rw [ProbeStep, hprobe] at hstep
      subst hstep
      have hne : type ≠ .unknown := fun heq ↦ deviceType_ne_unknown _ (heq ▸ htype)
      have hgrouped := h.takeSlots hne dev (room_of_checked hlt hroom)
      have hok := probeOk_of_accepted hdev htype hprobe hgrouped
      exact ⟨⟨fun _ ↦ hroom, fun _ ↦ hok⟩, fun _ ↦ hgrouped⟩
  · have hprobe : nlmPciProbe call t = (.error .einval, t) := by
      apply nlmPciProbe_of_unknown
      by_cases hfull : maxDevices ≤ t.nDevices
      · exact .inl hfull
      · right
        intro dev type hdev henabled htype
        exact hknown ⟨Nat.lt_of_not_le hfull, dev, type, hdev, henabled, htype⟩
    rw [ProbeStep, hprobe] at hstep
    subst hstep
    have hok := h.probeOk_of_not_known hknown hprobe
    exact ⟨⟨fun _ ↦ roomAsChecked_of_not_known hknown, fun _ ↦ hok⟩, fun _ ↦ h⟩

end Steps

/-- The table before the first probe. -/
def DeviceTable.empty (slots : ℕ → DeviceSlot) : DeviceTable := ⟨slots, 0⟩

theorem grouped_empty (slots : ℕ → DeviceSlot) : Grouped (DeviceTable.empty slots) where
  le := Nat.zero_le _
  groups := ⟨[], rfl⟩

theorem probes_ok_iff (slots : ℕ → DeviceSlot) {run : List (ProbeCall × DeviceTable)}
    (hrun : Run ProbeStep (DeviceTable.empty slots) run) :
    AlongSteps ProbeOk (DeviceTable.empty slots) run ↔
      Along RoomAsChecked (DeviceTable.empty slots) run := by
  apply hrun.alongSteps_iff_along (grouped_empty slots)
  · exact fun t call t' h hstep ↦ (h.probeOk_iff hstep).1
  · exact fun t call t' h hstep ↦ (h.probeOk_iff hstep).2

/-- A FAMOS whose registers lie at 0. -/
def famosProbe : ProbeCall := ⟨some ⟨true, 0, 0⟩, nlmPciDevId + 2⟩

/-- The table after `n` devices of this kind have been probed. -/
def famosTable (slots : ℕ → DeviceSlot) : ℕ → DeviceTable
  | 0 => DeviceTable.empty slots
  | n + 1 => (nlmPciProbe famosProbe (famosTable slots n)).2

/-- The tables after each of some probes. -/
def probeRun : DeviceTable → List ProbeCall → List (ProbeCall × DeviceTable)
  | _, [] => []
  | t, call :: calls => (call, (nlmPciProbe call t).2) :: probeRun (nlmPciProbe call t).2 calls

theorem run_probeRun (t : DeviceTable) (calls : List ProbeCall) :
    Run ProbeStep t (probeRun t calls) := by
  induction calls generalizing t with
  | nil => exact Run.nil t
  | cons call calls ih => exact Run.cons rfl (ih _)

/-- A FAMOS, a MARS 1, two XAUI EX2 of which one cannot be enabled, and a FAMOS. -/
def mixedProbes : List ProbeCall :=
  [famosProbe, ⟨some ⟨true, 0x1000, 0x100⟩, nlmPciDevId⟩,
    ⟨some ⟨false, 0x2000, 0x100⟩, nlmPciDevId + 3⟩, ⟨some ⟨true, 0x3000, 0x100⟩, nlmPciDevId + 3⟩,
    famosProbe]

theorem probes_ok_iff_mixed :
    AlongSteps ProbeOk (DeviceTable.empty fun _ ↦ ⟨.unknown, 0, 0, none⟩)
      (probeRun (DeviceTable.empty fun _ ↦ ⟨.unknown, 0, 0, none⟩) mixedProbes) := by
  refine (probes_ok_iff _ (run_probeRun _ mixedProbes)).mpr ?_
  refine ⟨?_, ?_, ?_, ?_, ?_, trivial⟩ <;>
    exact fun _ _ _ ↦ ⟨fun _ ↦ .inl (by decide), fun _ ↦ .inl (by decide)⟩

/-- The third FAMOS is rejected, and one slot stays taken. -/
theorem third_famos_leaves_slot :
    Run ProbeStep (DeviceTable.empty fun _ ↦ ⟨.unknown, 0, 0, none⟩)
        [(famosProbe, famosTable (fun _ ↦ ⟨.unknown, 0, 0, none⟩) 1),
          (famosProbe, famosTable (fun _ ↦ ⟨.unknown, 0, 0, none⟩) 2),
          (famosProbe, famosTable (fun _ ↦ ⟨.unknown, 0, 0, none⟩) 3)] ∧
      ¬ AlongSteps ProbeOk (DeviceTable.empty fun _ ↦ ⟨.unknown, 0, 0, none⟩)
        [(famosProbe, famosTable (fun _ ↦ ⟨.unknown, 0, 0, none⟩) 1),
          (famosProbe, famosTable (fun _ ↦ ⟨.unknown, 0, 0, none⟩) 2),
          (famosProbe, famosTable (fun _ ↦ ⟨.unknown, 0, 0, none⟩) 3)] := by
  constructor
  · exact Run.cons rfl (Run.cons rfl (Run.cons rfl (Run.nil _)))
  · rintro ⟨-, -, hthird, -⟩
    have hsame := hthird.rejected .einval rfl
    have hcnt := congrArg (·.nDevices) hsame
    revert hcnt
    decide

end NetL7.Driver
