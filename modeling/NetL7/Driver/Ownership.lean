import NetL7.Lib.Runs
import Mathlib.Tactic.Common

/-!
# Ownership of a proc device

A file of `/proc/NetL7` that is opened for writing gives its process the device
to itself. The driver keeps the owner's pid and does not count the handles.
-/

namespace NetL7.Driver

open NetL7.Lib

/-- The pid of a process; 0 stands for no owner. -/
abbrev Pid := {pid : ℕ // pid ≠ 0}

/-- The errors of the file operations. -/
inductive Errno
  | einval
  | ebusy
  | enomem
  deriving DecidableEq, Repr

/-- The owner in `struct nlm_device`. -/
structure NlmDevice where
  ownerPid : ℕ
  deriving DecidableEq, Repr

/-- An open file: the process that opened it, and whether `FMODE_WRITE` is set. -/
structure File where
  pid : Pid
  fmodeWrite : Bool
  deriving DecidableEq

/-- `nlm_device_open`. The result of `single_open` is given. -/
def nlmDeviceOpen (dev : Option NlmDevice) (pid : Pid) (fmodeWrite : Bool)
    (singleOpen : Except Errno Unit) : Except Errno (Option NlmDevice) :=
  match dev with
  | none => .error .einval
  | some d =>
    if fmodeWrite then
      if d.ownerPid = 0 then .ok (some { d with ownerPid := pid })
      else if d.ownerPid = pid then .ok (some d)
      else .error .ebusy
    else singleOpen.map fun _ ↦ some d

/-- `nlm_device_close` -/
def nlmDeviceClose (dev : Option NlmDevice) (fmodeWrite : Bool) :
    Except Errno (Option NlmDevice) :=
  match dev with
  | none => .error .einval
  | some d => .ok (some (if fmodeWrite then { d with ownerPid := 0 } else d))

/-- A device and the files of it that are open. -/
structure ProcDevice where
  dev : NlmDevice
  files : List File

namespace ProcDevice

/-- What processes do with the device. -/
inductive Event
  | open (pid : Pid) (fmodeWrite : Bool) (singleOpen : Except Errno Unit)
  | close (file : File)

/-- The device when it has been registered. -/
def registered : ProcDevice := ⟨⟨0⟩, []⟩

/-- The effect of the file operations. The kernel closes only open files. -/
inductive Step : ProcDevice → Event → ProcDevice → Prop
  | opened {s : ProcDevice} {pid : Pid} {fmodeWrite : Bool} {singleOpen : Except Errno Unit}
      {dev : NlmDevice}
      (h : nlmDeviceOpen (some s.dev) pid fmodeWrite singleOpen = .ok (some dev)) :
      Step s (.open pid fmodeWrite singleOpen) ⟨dev, ⟨pid, fmodeWrite⟩ :: s.files⟩
  | openFailed {s : ProcDevice} {pid : Pid} {fmodeWrite : Bool} {singleOpen : Except Errno Unit}
      {e : Errno} (h : nlmDeviceOpen (some s.dev) pid fmodeWrite singleOpen = .error e) :
      Step s (.open pid fmodeWrite singleOpen) s
  | closed {s : ProcDevice} {file : File} {dev : NlmDevice} (hfile : file ∈ s.files)
      (h : nlmDeviceClose (some s.dev) file.fmodeWrite = .ok (some dev)) :
      Step s (.close file) ⟨dev, s.files.erase file⟩

/-- All files open for writing belong to one process, which is the owner; there
is no owner exactly if there is no such file. -/
structure Exclusive (s : ProcDevice) : Prop where
  single : ∀ f ∈ s.files, f.fmodeWrite = true → ∀ f' ∈ s.files, f'.fmodeWrite = true →
    f.pid = f'.pid
  owner : ∀ f ∈ s.files, f.fmodeWrite = true → s.dev.ownerPid = f.pid
  free : s.dev.ownerPid = 0 ↔ ∀ f ∈ s.files, f.fmodeWrite = false

/-- A file open for writing is closed only as the last such file. -/
def LastClose (s : ProcDevice) : Event → Prop
  | .open .. => True
  | .close file => file.fmodeWrite = true → ∀ f ∈ s.files.erase file, f.fmodeWrite = false

variable {s s' : ProcDevice} {e : Event}

theorem Exclusive.of_owner (howner : ∀ f ∈ s.files, f.fmodeWrite = true → s.dev.ownerPid = f.pid)
    (hfree : (∀ f ∈ s.files, f.fmodeWrite = false) → s.dev.ownerPid = 0) : Exclusive s where
  single := fun f hf hw f' hf' hw' ↦
    Subtype.ext ((howner f hf hw).symm.trans (howner f' hf' hw'))
  owner := howner
  free := by
    refine ⟨fun hzero f hf ↦ ?_, hfree⟩
    by_contra hw
    exact f.pid.2 ((howner f hf (eq_true_of_ne_false hw)).symm.trans hzero)

theorem Exclusive.congr (h : Exclusive s) (hdev : s'.dev = s.dev)
    (hfiles : ∀ f : File, f.fmodeWrite = true → (f ∈ s'.files ↔ f ∈ s.files)) : Exclusive s' := by
  apply Exclusive.of_owner
  · intro f hf hw
    rw [hdev]
    exact h.owner f ((hfiles f hw).mp hf) hw
  · intro hnone
    rw [hdev, h.free]
    intro f hf
    by_contra hw
    have hw := eq_true_of_ne_false hw
    have hread := hnone f ((hfiles f hw).mpr hf)
    rw [hread] at hw
    cases hw

theorem Exclusive.opened (h : Exclusive s) {pid : Pid} {fmodeWrite : Bool}
    {singleOpen : Except Errno Unit} {dev : NlmDevice}
    (hopen : nlmDeviceOpen (some s.dev) pid fmodeWrite singleOpen = .ok (some dev)) :
    Exclusive ⟨dev, ⟨pid, fmodeWrite⟩ :: s.files⟩ := by
  cases fmodeWrite with
  | false =>
    have hdev : dev = s.dev := by
      cases singleOpen with
      | error e => cases hopen
      | ok u => cases hopen; rfl
    refine h.congr hdev fun f hw ↦ ⟨fun hf ↦ ?_, List.mem_cons_of_mem _⟩
    rcases List.mem_cons.mp hf with rfl | hf
    · cases hw
    · exact hf
  | true =>
    have hdev : dev.ownerPid = pid ∧ (s.dev.ownerPid = 0 ∨ s.dev.ownerPid = pid) := by
      simp only [nlmDeviceOpen, if_true] at hopen
      split at hopen
      · rename_i hzero
        cases hopen
        exact ⟨rfl, .inl hzero⟩
      split at hopen
      · rename_i hsame
        cases hopen
        exact ⟨hsame, .inr hsame⟩
      · cases hopen
    apply Exclusive.of_owner
    · intro f hf hw
      rcases List.mem_cons.mp hf with rfl | hf
      · exact hdev.1
      rcases hdev.2 with hzero | hsame
      · rw [h.free.mp hzero f hf] at hw
        cases hw
      · exact hdev.1.trans (hsame.symm.trans (h.owner f hf hw))
    · intro hnone
      cases hnone ⟨pid, true⟩ List.mem_cons_self

theorem Exclusive.closed_iff (h : Exclusive s) {file : File} {dev : NlmDevice}
    (hclose : nlmDeviceClose (some s.dev) file.fmodeWrite = .ok (some dev)) :
    Exclusive ⟨dev, s.files.erase file⟩ ↔ LastClose s (.close file) := by
  obtain ⟨pid, fmodeWrite⟩ := file
  cases fmodeWrite with
  | false =>
    obtain rfl : dev = s.dev := by
      cases hclose
      rfl
    refine ⟨fun _ hw ↦ (by cases hw), fun _ ↦ h.congr rfl fun f hw ↦ ?_⟩
    refine List.mem_erase_of_ne ?_
    rintro rfl
    cases hw
  | true =>
    have hzero : dev.ownerPid = 0 := by
      cases hclose
      rfl
    refine ⟨fun hexclusive _ ↦ hexclusive.free.mp hzero, fun hlast ↦ ?_⟩
    have hnone := hlast rfl
    refine Exclusive.of_owner (fun f hf hw ↦ ?_) fun _ ↦ hzero
    rw [hnone f hf] at hw
    cases hw

/-- One step keeps the exclusion exactly if it closes no file open for writing
before the last one. -/
theorem Exclusive.step_iff (h : Exclusive s) (hstep : Step s e s') :
    Exclusive s' ↔ LastClose s e := by
  cases hstep with
  | opened hopen => exact ⟨fun _ ↦ trivial, fun _ ↦ h.opened hopen⟩
  | openFailed => exact ⟨fun _ ↦ trivial, fun _ ↦ h⟩
  | closed hfile hclose => exact h.closed_iff hclose

theorem exclusive_registered : Exclusive registered :=
  .of_owner (fun _ hf ↦ absurd hf List.not_mem_nil) fun _ ↦ rfl

/-- In a run the device has at most one owner, whose pid it knows, in every
state exactly if no process closes one of several files open for writing. -/
theorem exclusive_iff_lastClose {run : List (Event × ProcDevice)}
    (hrun : Run Step registered run) :
    (∀ x ∈ run, Exclusive x.2) ↔ Along LastClose registered run :=
  hrun.forall_mem_iff_along exclusive_registered fun _ _ _ hs hstep ↦ hs.step_iff hstep

def firstProcess : Pid := ⟨1, by decide⟩

def secondProcess : Pid := ⟨2, by decide⟩

/-- The device with files open for writing. -/
def writing (ownerPid : ℕ) (pids : List Pid) : ProcDevice :=
  ⟨⟨ownerPid⟩, pids.map fun pid ↦ ⟨pid, true⟩⟩

/-- One process after the other opens the device and closes it. -/
def turnsRun : List (Event × ProcDevice) :=
  [(.open firstProcess true (.ok ()), writing 1 [firstProcess]),
    (.open secondProcess true (.ok ()), writing 1 [firstProcess]),
    (.close ⟨firstProcess, true⟩, writing 0 []),
    (.open secondProcess true (.ok ()), writing 2 [secondProcess])]

theorem exclusive_iff_lastClose_sample :
    Run Step registered turnsRun ∧ ∀ x ∈ turnsRun, Exclusive x.2 := by
  have hrun : Run Step registered turnsRun :=
    .cons (.opened rfl) (.cons (.openFailed rfl) (.cons (.closed (by decide) rfl)
      (.cons (.opened rfl) (.nil _))))
  refine ⟨hrun, (exclusive_iff_lastClose hrun).mpr ⟨trivial, trivial, fun _ f hf ↦ ?_, trivial,
    trivial⟩⟩
  exact absurd hf (by decide +revert)

/-- The first process opens the device twice and closes one of the files; then
the second process opens it. -/
def nestedRun : List (Event × ProcDevice) :=
  [(.open firstProcess true (.ok ()), writing 1 [firstProcess]),
    (.open firstProcess true (.ok ()), writing 1 [firstProcess, firstProcess]),
    (.close ⟨firstProcess, true⟩, writing 0 [firstProcess]),
    (.open secondProcess true (.ok ()), writing 2 [secondProcess, firstProcess])]

theorem nestedRun_two_owners : Run Step registered nestedRun ∧
    ¬ ∀ x ∈ nestedRun, Exclusive x.2 := by
  have hrun : Run Step registered nestedRun :=
    .cons (.opened rfl) (.cons (.opened rfl) (.cons (.closed (by decide) rfl)
      (.cons (.opened rfl) (.nil _))))
  refine ⟨hrun, fun hall ↦ ?_⟩
  have hlast := hall (.open secondProcess true (.ok ()), writing 2 [secondProcess, firstProcess])
    (by simp [nestedRun])
  have hsame := hlast.single ⟨secondProcess, true⟩ (by decide) rfl ⟨firstProcess, true⟩
    (by decide) rfl
  exact absurd hsame (by decide)

end ProcDevice

end NetL7.Driver
