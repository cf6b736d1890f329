import NetL7.Packet.Device

/-!
# The manager thread's input pass

`nlm_manage_input` moves FDs from the software FIFOs of the threads to the ring
of the hardware, one FD of each thread per round. The threads go on pushing and
the hardware goes on taking FDs while a pass runs.
-/

namespace NetL7.Packet

open NetL7.Lib

/-- Where the manager thread stands: outside a pass, before thread `i` of a
round in which `noJobs` threads had none, with a ring slot allocated, with the
FD copied but not yet popped, or behind the loop. -/
inductive ManagerPc
  | idle
  | scan (i noJobs : ℕ)
  | allocated (i noJobs slot : ℕ)
  | copied (i noJobs : ℕ)
  | finish
  deriving DecidableEq

/-- The FIFOs, the ring and the manager thread. `pushed`, `placed` and `taken`
record the FDs that the threads pushed, that the manager copied into the ring
and that the hardware took; the hardware has been told of the first `sent`
FDs in the ring. -/
structure InputRun where
  fifos : ℕ → SwFifo HwFdDescriptor
  inputFifo : ℕ → HwFdDescriptor
  inputRdPtr : ℕ
  inputWrtPtr : ℕ
  fdfFifoWrtPtr : ℕ
  pc : ManagerPc
  njobs : ℕ
  pushed : ℕ → List HwFdDescriptor
  placed : List HwFdDescriptor
  taken : List HwFdDescriptor
  sent : ℕ

/-- The state after `nlm_device_init`. -/
def InputRun.start (size : ℕ) : InputRun where
  fifos := fun _ ↦ .init size .zero
  inputFifo := fun _ ↦ .zero
  inputRdPtr := 0
  inputWrtPtr := 0
  fdfFifoWrtPtr := 0
  pc := .idle
  njobs := 0
  pushed := fun _ ↦ []
  placed := []
  taken := []
  sent := 0

/-- Who takes a step. -/
inductive InputActor
  | manager
  | thread
  | hardware
  deriving DecidableEq

/-- One step of the manager thread, of a thread or of the hardware. -/
inductive InputStep (size maxThreads : ℕ) : InputActor → InputRun → InputRun → Prop
  | enter {s : InputRun} (hpc : s.pc = .idle) :
      InputStep size maxThreads .manager s { s with pc := .scan 0 0, njobs := 0 }
  | skip {s : InputRun} {i noJobs : ℕ} (hpc : s.pc = .scan i noJobs) (hi : i < maxThreads)
      (hempty : (s.fifos i).empty = true) :
      InputStep size maxThreads .manager s { s with pc := .scan (i + 1) (noJobs + 1) }
  | full {s : InputRun} {i noJobs : ℕ} (hpc : s.pc = .scan i noJobs) (hi : i < maxThreads)
      (hempty : (s.fifos i).empty = false)
      (hfull : (s.inputWrtPtr + 1) &&& (size - 1) = s.inputRdPtr) :
      InputStep size maxThreads .manager s { s with pc := .finish }
  | alloc {s : InputRun} {i noJobs : ℕ} (hpc : s.pc = .scan i noJobs) (hi : i < maxThreads)
      (hempty : (s.fifos i).empty = false)
      (hspace : (s.inputWrtPtr + 1) &&& (size - 1) ≠ s.inputRdPtr) :
      InputStep size maxThreads .manager s { s with
        inputWrtPtr := (s.inputWrtPtr + 1) &&& (size - 1)
        inputFifo := Function.update s.inputFifo s.inputWrtPtr .zero
        pc := .allocated i noJobs s.inputWrtPtr }
  | copy {s : InputRun} {i noJobs slot out : ℕ} (hpc : s.pc = .allocated i noJobs slot)
      (hpeek : (s.fifos i).peekOutput = some out) :
      InputStep size maxThreads .manager s { s with
        inputFifo := Function.update s.inputFifo slot ((s.fifos i).buf out)
        placed := s.placed ++ [(s.fifos i).buf out]
        pc := .copied i noJobs }
  | pop {s : InputRun} {i noJobs : ℕ} (hpc : s.pc = .copied i noJobs) :
      InputStep size maxThreads .manager s { s with
        fifos := Function.update s.fifos i (s.fifos i).pop
        njobs := s.njobs + 1
        pc := .scan (i + 1) noJobs }
  | round {s : InputRun} {noJobs : ℕ} (hpc : s.pc = .scan maxThreads noJobs) :
      InputStep size maxThreads .manager s { s with
        pc := if noJobs = maxThreads then .finish else .scan 0 0 }
  | leave {s : InputRun} (hpc : s.pc = .finish) (hjobs : s.njobs = 0) :
      InputStep size maxThreads .manager s { s with pc := .idle }
  | publish {s : InputRun} (hpc : s.pc = .finish) (hjobs : s.njobs ≠ 0) :
      InputStep size maxThreads .manager s { s with
        fdfFifoWrtPtr := s.inputWrtPtr
        sent := s.placed.length
        pc := .idle }
  | push {s : InputRun} {t slot : ℕ} (ht : t < maxThreads) (fd : HwFdDescriptor)
      (hcookie : nlmGetThreadId fd.cookie = t) (hpeek : (s.fifos t).peekInput = some slot) :
      InputStep size maxThreads .thread s { s with
        fifos := Function.update s.fifos t ((s.fifos t).write slot fd).push
        pushed := Function.update s.pushed t (s.pushed t ++ [fd]) }
  | take {s : InputRun} (hsent : s.inputRdPtr ≠ s.fdfFifoWrtPtr) :
      InputStep size maxThreads .hardware s { s with
        inputRdPtr := (s.inputRdPtr + 1) &&& (size - 1)
        taken := s.taken ++ [s.inputFifo s.inputRdPtr] }

/-- What the manager thread does next. -/
def InputRun.managerStep (size maxThreads : ℕ) (s : InputRun) : InputRun :=
  match s.pc with
  | .idle => { s with pc := .scan 0 0, njobs := 0 }
  | .scan i noJobs =>
    if i < maxThreads then
      if (s.fifos i).empty then { s with pc := .scan (i + 1) (noJobs + 1) }
      else if (s.inputWrtPtr + 1) &&& (size - 1) = s.inputRdPtr then { s with pc := .finish }
      else { s with
        inputWrtPtr := (s.inputWrtPtr + 1) &&& (size - 1)
        inputFifo := Function.update s.inputFifo s.inputWrtPtr .zero
        pc := .allocated i noJobs s.inputWrtPtr }
    else if i = maxThreads then
      { s with pc := if noJobs = maxThreads then .finish else .scan 0 0 }
    else s
  | .allocated i noJobs slot =>
    match (s.fifos i).peekOutput with
    | none => s
    | some out => { s with
        inputFifo := Function.update s.inputFifo slot ((s.fifos i).buf out)
        placed := s.placed ++ [(s.fifos i).buf out]
        pc := .copied i noJobs }
  | .copied i noJobs => { s with
      fifos := Function.update s.fifos i (s.fifos i).pop
      njobs := s.njobs + 1
      pc := .scan (i + 1) noJobs }
  | .finish =>
    if s.njobs = 0 then { s with pc := .idle }
    else { s with fdfFifoWrtPtr := s.inputWrtPtr, sent := s.placed.length, pc := .idle }

/-- A thread pushes an FD into a slot of its FIFO. -/
def InputRun.pushFd (s : InputRun) (t slot : ℕ) (fd : HwFdDescriptor) : InputRun :=
  { s with
    fifos := Function.update s.fifos t ((s.fifos t).write slot fd).push
    pushed := Function.update s.pushed t (s.pushed t ++ [fd]) }

/-- The hardware takes the first FD of the ring. -/
def InputRun.takeFd (size : ℕ) (s : InputRun) : InputRun :=
  { s with
    inputRdPtr := (s.inputRdPtr + 1) &&& (size - 1)
    taken := s.taken ++ [s.inputFifo s.inputRdPtr] }

/-- Steps of anybody. -/
def InputRun.Reaches (size maxThreads : ℕ) : InputRun → InputRun → Prop :=
  Relation.ReflTransGen fun s s' ↦ ∃ actor, InputStep size maxThreads actor s s'

namespace InputRun

/-- The number of ring slots allocated since the start. -/
def allocated (s : InputRun) : ℕ :=
  s.placed.length + match s.pc with
    | .allocated .. => 1
    | _ => 0

/-- The FDs of thread `t` that have not been copied yet. -/
def waiting (s : InputRun) (t : ℕ) : List HwFdDescriptor :=
  match s.pc with
  | .copied i _ => if t = i then (s.fifos t).contents.tail else (s.fifos t).contents
  | _ => (s.fifos t).contents

/-- The FDs in the ring that carry the thread id `t`. -/
def placedBy (s : InputRun) (t : ℕ) : List HwFdDescriptor :=
  s.placed.filter fun fd ↦ nlmGetThreadId fd.cookie = t

/-- What holds at the place where the manager stands. -/
def PcOk (s : InputRun) (size maxThreads : ℕ) : Prop :=
  match s.pc with
  | .idle => True
  | .scan i noJobs => i ≤ maxThreads ∧ noJobs ≤ i
  | .allocated i noJobs slot => i < maxThreads ∧ noJobs ≤ i ∧ slot = s.placed.length % size ∧
      0 < (s.fifos i).count
  | .copied i noJobs => i < maxThreads ∧ noJobs ≤ i ∧ 0 < (s.fifos i).count
  | .finish => True

/-- The invariant of the input side. -/
structure Inv (size maxThreads : ℕ) (s : InputRun) : Prop where
  fifos_ok : ∀ t, (s.fifos t).Ok ∧ (s.fifos t).size = size
  order : ∀ t, s.pushed t = s.placedBy t ++ s.waiting t
  cookies : ∀ t, ∀ fd ∈ (s.fifos t).contents, nlmGetThreadId fd.cookie = t
  rd_eq : s.inputRdPtr = s.taken.length % size
  wrt_eq : s.inputWrtPtr = s.allocated % size
  sent_eq : s.fdfFifoWrtPtr = s.sent % size
  taken_le : s.taken.length ≤ s.sent
  sent_le : s.sent ≤ s.placed.length
  allocated_lt : s.allocated < s.taken.length + size
  taken_eq : s.taken = s.placed.take s.taken.length
  window_eq : window size s.inputFifo s.taken.length (s.placed.length - s.taken.length) =
    s.placed.drop s.taken.length
  pc_ok : s.PcOk size maxThreads

variable {size maxThreads : ℕ} {s s' : InputRun} {actor : InputActor}

theorem and_sub_one (h : FifoSizeOk size) (x : ℕ) : x &&& (size - 1) = x % size :=
  SwFifo.and_size_sub_one (f := (⟨size, 0, 0, fun _ ↦ ()⟩ : SwFifo Unit)) h x

theorem Inv.allocated_mono (h : Inv size maxThreads s) : s.taken.length ≤ s.allocated := by
  have htaken := h.taken_le
  have hsent := h.sent_le
  unfold allocated
  omega

/-- The test of `sysmem_alloc_fd` fails exactly if one slot is left. -/
theorem Inv.full_iff (h : Inv size maxThreads s) (hsize : FifoSizeOk size) :
    (s.inputWrtPtr + 1) &&& (size - 1) = s.inputRdPtr ↔
      s.allocated + 1 = s.taken.length + size := by
  have hle := h.allocated_mono
  have hlt := h.allocated_lt
  rw [and_sub_one hsize, h.rd_eq, h.wrt_eq, Nat.mod_add_mod]
  constructor
  · intro heq
    have hsub : (s.allocated + 1 - s.taken.length) % size = 0 :=
      Nat.sub_mod_eq_zero_of_mod_eq heq
    obtain ⟨q, hq⟩ := Nat.dvd_of_mod_eq_zero hsub
    have hq1 : q = 1 := by
      rcases q with _ | _ | q
      · omega
      · rfl
      · rw [Nat.mul_add, Nat.mul_add, Nat.mul_one] at hq
        omega
    rw [hq1, Nat.mul_one] at hq
    omega
  · intro heq
    rw [heq, Nat.add_mod_right]

theorem Inv.empty_iff (h : Inv size maxThreads s) (t : ℕ) :
    (s.fifos t).empty = true ↔ (s.fifos t).count = 0 := by
  rw [(h.fifos_ok t).1.empty_iff, ← List.length_eq_zero_iff, SwFifo.contents_length]

/-- A manager step that moves neither FDs nor pointers. -/
theorem Inv.withPc (h : Inv size maxThreads s) {pc : ManagerPc} {njobs : ℕ}
    (halloc : allocated { s with pc := pc, njobs := njobs } = s.allocated)
    (hwait : ∀ t, waiting { s with pc := pc, njobs := njobs } t = s.waiting t)
    (hok : PcOk { s with pc := pc, njobs := njobs } size maxThreads) :
    Inv size maxThreads { s with pc := pc, njobs := njobs } := by
  refine { h with
    order := fun t ↦ ?_
    wrt_eq := ?_
    allocated_lt := ?_
    pc_ok := hok }
  · rw [hwait]
    exact h.order t
  · rw [halloc]
    exact h.wrt_eq
  · rw [halloc]
    exact h.allocated_lt

theorem Inv.alloc (h : Inv size maxThreads s) (hsize : FifoSizeOk size) {i noJobs : ℕ}
    (hpc : s.pc = .scan i noJobs) (hi : i < maxThreads) (hempty : (s.fifos i).empty = false)
    (hspace : (s.inputWrtPtr + 1) &&& (size - 1) ≠ s.inputRdPtr) :
    Inv size maxThreads { s with
      inputWrtPtr := (s.inputWrtPtr + 1) &&& (size - 1)
      inputFifo := Function.update s.inputFifo s.inputWrtPtr .zero
      pc := .allocated i noJobs s.inputWrtPtr } := by
  have halloc : s.allocated = s.placed.length := by simp [allocated, hpc]
  have hwait : ∀ t, s.waiting t = (s.fifos t).contents := fun t ↦ by simp [waiting, hpc]
  have hok : i ≤ maxThreads ∧ noJobs ≤ i := by
    have hok := h.pc_ok
    rwa [PcOk, hpc] at hok
  have hfull := mt (h.full_iff hsize).mpr hspace
  have hlt := h.allocated_lt
  have hmono := h.allocated_mono
  have hwrt := h.wrt_eq
  rw [halloc] at hfull hlt hmono hwrt
  refine { h with
    order := fun t ↦ ?_
    wrt_eq := ?_
    allocated_lt := ?_
    window_eq := ?_
    pc_ok := ?_ }
  · have horder := h.order t
    rwa [hwait] at horder
  · change (s.inputWrtPtr + 1) &&& (size - 1) = (s.placed.length + 1) % size
    rw [and_sub_one hsize, hwrt, Nat.mod_add_mod]
  · change s.placed.length + 1 < s.taken.length + size
    omega
  · rw [← h.window_eq, hwrt]
    have hslot : s.placed.length = s.taken.length + (s.placed.length - s.taken.length) := by
      omega
    conv_lhs => rw [hslot]
    rw [Nat.add_sub_cancel_left]
    exact window_update (by omega) _
  · refine ⟨hi, hok.2, hwrt, Nat.pos_of_ne_zero fun hzero ↦ ?_⟩
    rw [(h.empty_iff i).mpr hzero] at hempty
    exact Bool.noConfusion hempty

theorem Inv.copy (h : Inv size maxThreads s) {i noJobs slot out : ℕ}
    (hpc : s.pc = .allocated i noJobs slot) (hpeek : (s.fifos i).peekOutput = some out) :
    Inv size maxThreads { s with
      inputFifo := Function.update s.inputFifo slot ((s.fifos i).buf out)
      placed := s.placed ++ [(s.fifos i).buf out]
      pc := .copied i noJobs } := by
  have halloc : s.allocated = s.placed.length + 1 := by simp [allocated, hpc]
  have hwait : ∀ t, s.waiting t = (s.fifos t).contents := fun t ↦ by simp [waiting, hpc]
  obtain ⟨hi, hno, rfl, hcount⟩ : i < maxThreads ∧ noJobs ≤ i ∧
      slot = s.placed.length % size ∧ 0 < (s.fifos i).count := by
    have hok := h.pc_ok
    rwa [PcOk, hpc] at hok
  obtain ⟨hfifo, hsize⟩ := h.fifos_ok i
  obtain ⟨-, rfl⟩ := hfifo.peekOutput_eq_some.mp hpeek
  have hcontents := hfifo.contents_pop hcount
  set fd := (s.fifos i).buf ((s.fifos i).outPtr % (s.fifos i).size) with hfd
  have hcookie : nlmGetThreadId fd.cookie = i :=
    h.cookies i fd (by rw [hcontents]; exact List.mem_cons_self)
  have htaken := h.taken_le.trans h.sent_le
  have hlt := h.allocated_lt
  have hwrt := h.wrt_eq
  rw [halloc] at hlt hwrt
  refine { h with
    order := fun t ↦ ?_
    wrt_eq := ?_
    sent_le := ?_
    allocated_lt := ?_
    taken_eq := ?_
    window_eq := ?_
    pc_ok := ⟨hi, hno, hcount⟩ }
  · have horder := h.order t
    rw [hwait] at horder
    change s.pushed t = (s.placed ++ [fd]).filter (fun fd ↦ nlmGetThreadId fd.cookie = t) ++
      (if t = i then (s.fifos t).contents.tail else (s.fifos t).contents)
    rw [List.filter_append, horder]
    by_cases ht : t = i
    · subst ht
      rw [if_pos rfl, List.filter_cons_of_pos (by simpa using hcookie), List.filter_nil,
        hcontents, List.tail_cons, List.append_assoc, List.singleton_append]
      rfl
    · rw [if_neg ht, List.filter_cons_of_neg
        (by simpa [hcookie] using fun heq : i = t ↦ ht heq.symm), List.filter_nil,
        List.append_nil]
      rfl
  · simpa [allocated] using hwrt
  · change s.sent ≤ (s.placed ++ [fd]).length
    rw [List.length_append]
    exact h.sent_le.trans (Nat.le_add_right _ _)
  · simpa [allocated] using hlt
  · change s.taken = (s.placed ++ [fd]).take s.taken.length
    rw [List.take_append_of_le_length htaken]
    exact h.taken_eq
  · change window size (Function.update s.inputFifo (s.placed.length % size) fd)
      s.taken.length ((s.placed ++ [fd]).length - s.taken.length) =
        (s.placed ++ [fd]).drop s.taken.length
    have hlen : (s.placed ++ [fd]).length - s.taken.length =
        s.placed.length - s.taken.length + 1 := by
      rw [List.length_append, List.length_singleton]
      omega
    have hslot : s.taken.length + (s.placed.length - s.taken.length) = s.placed.length := by
      omega
    rw [hlen, List.drop_append_of_le_length htaken, window_snoc, hslot, Function.update_self,
      ← h.window_eq]
    congr 1
    conv_lhs => rw [← hslot]
    rw [Nat.add_sub_cancel_left]
    exact window_update (by omega) _

theorem Inv.pop (h : Inv size maxThreads s) {i noJobs : ℕ} (hpc : s.pc = .copied i noJobs) :
    Inv size maxThreads { s with
      fifos := Function.update s.fifos i (s.fifos i).pop
      njobs := s.njobs + 1
      pc := .scan (i + 1) noJobs } := by
  have halloc : s.allocated = s.placed.length := by simp [allocated, hpc]
  have hwait : ∀ t, s.waiting t =
      if t = i then (s.fifos t).contents.tail else (s.fifos t).contents :=
    fun t ↦ by simp [waiting, hpc]
  obtain ⟨hi, hno, hcount⟩ : i < maxThreads ∧ noJobs ≤ i ∧ 0 < (s.fifos i).count := by
    have hok := h.pc_ok
    rwa [PcOk, hpc] at hok
  obtain ⟨hfifo, hsize⟩ := h.fifos_ok i
  have hcontents := hfifo.contents_pop hcount
  have hlt := h.allocated_lt
  have hwrt := h.wrt_eq
  rw [halloc] at hlt hwrt
  refine { h with
    fifos_ok := fun t ↦ ?_
    order := fun t ↦ ?_
    cookies := fun t fd hfd ↦ ?_
    wrt_eq := hwrt
    allocated_lt := hlt
    pc_ok := ⟨hi, hno.trans (Nat.le_succ i)⟩ }
  · by_cases ht : t = i
    · subst ht
      simp only [Function.update_self]
      exact ⟨hfifo.pop hcount, hsize⟩
    · simp only [Function.update_of_ne ht]
      exact h.fifos_ok t
  · have horder := h.order t
    rw [hwait] at horder
    change s.pushed t = s.placedBy t ++ (Function.update s.fifos i (s.fifos i).pop t).contents
    rw [horder]
    by_cases ht : t = i
    · subst ht
      rw [if_pos rfl, Function.update_self, hcontents, List.tail_cons]
    · rw [if_neg ht, Function.update_of_ne ht]
  · by_cases ht : t = i
    · subst ht
      simp only [Function.update_self] at hfd
      exact h.cookies t fd (by rw [hcontents]; exact List.mem_cons_of_mem _ hfd)
    · simp only [Function.update_of_ne ht] at hfd
      exact h.cookies t fd hfd

theorem Inv.push (h : Inv size maxThreads s) {t slot : ℕ} (fd : HwFdDescriptor)
    (hcookie : nlmGetThreadId fd.cookie = t) (hpeek : (s.fifos t).peekInput = some slot) :
    Inv size maxThreads { s with
      fifos := Function.update s.fifos t ((s.fifos t).write slot fd).push
      pushed := Function.update s.pushed t (s.pushed t ++ [fd]) } := by
  obtain ⟨hfifo, hsize⟩ := h.fifos_ok t
  obtain ⟨hok, hpush, hcontents⟩ := hfifo.push_write hpeek fd
  refine { h with
    fifos_ok := fun x ↦ ?_
    order := fun x ↦ ?_
    cookies := fun x fd' hfd ↦ ?_
    pc_ok := ?_ }
  · by_cases hx : x = t
    · subst hx
      simp only [Function.update_self]
      exact ⟨hok, hsize⟩
    · simp only [Function.update_of_ne hx]
      exact h.fifos_ok x
  · have horder := h.order x
    by_cases hx : x = t
    · subst hx
      simp only [Function.update_self]
      rw [horder, List.append_assoc]
      change s.placedBy x ++ (s.waiting x ++ [fd]) = s.placedBy x ++ waiting { s with
        fifos := Function.update s.fifos x ((s.fifos x).write slot fd).push
        pushed := Function.update s.pushed x (s.pushed x ++ [fd]) } x
      congr 1
      unfold waiting
      simp only [Function.update_self, hcontents]
      rcases hpc : s.pc with _ | ⟨i, n⟩ | ⟨i, n, a⟩ | ⟨i, n⟩ | _ <;> simp only
      split
      · rename_i hxi
        have hok := h.pc_ok
        rw [PcOk, hpc] at hok
        obtain ⟨-, -, hpos⟩ := hok
        rw [← hxi] at hpos
        have hne : (s.fifos x).contents ≠ [] := by
          intro hnil
          have hlen := congrArg List.length hnil
          rw [SwFifo.contents_length, List.length_nil] at hlen
          omega
        rw [List.tail_append_of_ne_nil hne]
      · rfl
    · simp only [Function.update_of_ne hx]
      refine horder.trans ?_
      change s.placedBy x ++ s.waiting x = s.placedBy x ++ waiting { s with
        fifos := Function.update s.fifos t ((s.fifos t).write slot fd).push
        pushed := Function.update s.pushed t (s.pushed t ++ [fd]) } x
      congr 1
      unfold waiting
      simp only [Function.update_of_ne hx]
  · by_cases hx : x = t
    · subst hx
      simp only [Function.update_self, hcontents] at hfd
      rcases List.mem_append.mp hfd with hfd | hfd
      · exact h.cookies x fd' hfd
      · rwa [List.mem_singleton.mp hfd]
    · simp only [Function.update_of_ne hx] at hfd
      exact h.cookies x fd' hfd
  · have hgrow : ∀ i, 0 < (s.fifos i).count →
        0 < (Function.update s.fifos t ((s.fifos t).write slot fd).push i).count := by
      intro i hi
      by_cases hit : i = t
      · subst hit
        rw [Function.update_self, hpush]
        exact Nat.succ_pos _
      · rwa [Function.update_of_ne hit]
    have hok := h.pc_ok
    unfold PcOk at hok ⊢
    simp only
    rcases hpc : s.pc with _ | ⟨i, n⟩ | ⟨i, n, a⟩ | ⟨i, n⟩ | _ <;> rw [hpc] at hok <;>
      simp only at hok ⊢
    · exact hok
    · exact ⟨hok.1, hok.2.1, hok.2.2.1, hgrow i hok.2.2.2⟩
    · exact ⟨hok.1, hok.2.1, hgrow i hok.2.2⟩

theorem Inv.take (h : Inv size maxThreads s) (hsize : FifoSizeOk size)
    (hsent : s.inputRdPtr ≠ s.fdfFifoWrtPtr) :
    Inv size maxThreads { s with
      inputRdPtr := (s.inputRdPtr + 1) &&& (size - 1)
      taken := s.taken ++ [s.inputFifo s.inputRdPtr] } := by
  have hlt : s.taken.length < s.sent := by
    refine h.taken_le.lt_of_ne fun heq ↦ hsent ?_
    rw [h.rd_eq, h.sent_eq, heq]
  have hplaced := hlt.trans_le h.sent_le
  have hlen : (s.taken ++ [s.inputFifo s.inputRdPtr]).length = s.taken.length + 1 := by simp
  have hwindow := h.window_eq
  rw [show s.placed.length - s.taken.length = s.placed.length - (s.taken.length + 1) + 1 by
    omega, window_cons, List.drop_eq_getElem_cons hplaced] at hwindow
  obtain ⟨hhead, htail⟩ := List.cons.inj hwindow
  have hmono := h.allocated_lt
  refine { h with
    rd_eq := ?_
    taken_le := ?_
    allocated_lt := ?_
    taken_eq := ?_
    window_eq := ?_ }
  · rw [hlen, and_sub_one hsize, h.rd_eq, Nat.mod_add_mod]
  · rw [hlen]
    exact hlt
  · rw [hlen]
    change s.allocated < _
    omega
  · rw [hlen, List.take_succ_eq_append_getElem hplaced, ← h.taken_eq, h.rd_eq, hhead]
  · rw [hlen]
    exact htail

theorem Inv.step (h : Inv size maxThreads s) (hsize : FifoSizeOk size)
    (hstep : InputStep size maxThreads actor s s') : Inv size maxThreads s' := by
  have hok := h.pc_ok
  cases hstep with
  | enter hpc =>
    refine h.withPc (by simp [allocated, hpc]) (fun t ↦ by simp [waiting, hpc]) ?_
    exact ⟨Nat.zero_le _, le_rfl⟩
  | skip hpc hi hempty =>
    rw [PcOk, hpc] at hok
    refine h.withPc (by simp [allocated, hpc]) (fun t ↦ by simp [waiting, hpc]) ?_
    exact ⟨hi, Nat.succ_le_succ hok.2⟩
  | full hpc hi hempty hfull =>
    exact h.withPc (by simp [allocated, hpc]) (fun t ↦ by simp [waiting, hpc]) trivial
  | alloc hpc hi hempty hspace => exact h.alloc hsize hpc hi hempty hspace
  | copy hpc hpeek => exact h.copy hpc hpeek
  | pop hpc => exact h.pop hpc
  | @round _ noJobs hpc =>
    by_cases hno : noJobs = maxThreads
    · rw [if_pos hno]
      exact h.withPc (by simp [allocated, hpc]) (fun t ↦ by simp [waiting, hpc]) trivial
    · rw [if_neg hno]
      refine h.withPc (by simp [allocated, hpc]) (fun t ↦ by simp [waiting, hpc]) ?_
      exact ⟨Nat.zero_le _, le_rfl⟩
  | leave hpc hjobs =>
    exact h.withPc (by simp [allocated, hpc]) (fun t ↦ by simp [waiting, hpc]) trivial
  | publish hpc hjobs =>
    have halloc : s.allocated = s.placed.length := by simp [allocated, hpc]
    have hwait : ∀ t, s.waiting t = (s.fifos t).contents := fun t ↦ by simp [waiting, hpc]
    have hwrt := h.wrt_eq
    have hlt := h.allocated_lt
    rw [halloc] at hwrt hlt
    refine { h with
      order := fun t ↦ ?_
      wrt_eq := hwrt
      sent_eq := hwrt
      taken_le := h.taken_le.trans h.sent_le
      sent_le := le_rfl
      allocated_lt := hlt
      pc_ok := trivial }
    have horder := h.order t
    rwa [hwait] at horder
  | push ht fd hcookie hpeek => exact h.push fd hcookie hpeek
  | take hsent => exact h.take hsize hsent

theorem inv_start (hsize : FifoSizeOk size) : Inv size maxThreads (start size) where
  fifos_ok := fun _ ↦ ⟨SwFifo.init_ok hsize _, rfl⟩
  order := fun _ ↦ (SwFifo.contents_init size HwFdDescriptor.zero).symm
  cookies := fun t fd hfd ↦ by
    change fd ∈ (SwFifo.init size HwFdDescriptor.zero).contents at hfd
    rw [SwFifo.contents_init] at hfd
    exact absurd hfd List.not_mem_nil
  rd_eq := (Nat.zero_mod size).symm
  wrt_eq := (Nat.zero_mod size).symm
  sent_eq := (Nat.zero_mod size).symm
  taken_le := le_rfl
  sent_le := le_rfl
  allocated_lt := (Nat.pos_of_ne_zero hsize.1).trans_eq (Nat.zero_add _).symm
  taken_eq := rfl
  window_eq := rfl
  pc_ok := trivial

theorem Reaches.inv (hrun : Reaches size maxThreads (start size) s) (hsize : FifoSizeOk size) :
    Inv size maxThreads s := by
  induction hrun with
  | refl => exact inv_start hsize
  | tail _ hstep ih =>
    obtain ⟨actor, hstep⟩ := hstep
    exact ih.step hsize hstep

/-! ## A pass ends -/

/-- The number of ring slots that can still be allocated. -/
def room (s : InputRun) (size : ℕ) : ℕ := size - 1 + s.taken.length - s.allocated

/-- One if an FD has been moved in the current round. -/
def credit (s : InputRun) : ℕ :=
  match s.pc with
  | .scan i noJobs => if noJobs < i then 1 else 0
  | .allocated .. => 1
  | .copied .. => 1
  | _ => 0

/-- A bound on the manager's steps to the end of the current round. -/
def left (s : InputRun) (maxThreads : ℕ) : ℕ :=
  match s.pc with
  | .idle => 0
  | .scan i _ => 3 * (maxThreads - i) + 2
  | .allocated i .. => 3 * (maxThreads - i) + 1
  | .copied i _ => 3 * (maxThreads - i)
  | .finish => 1

/-- A bound on the manager's steps to the end of the pass. -/
def potential (s : InputRun) (size maxThreads : ℕ) : ℕ :=
  (s.room size + s.credit) * (3 * maxThreads + 1) + s.left maxThreads

/-- A manager step comes closer to the end of the round, or it ends a round in
which an FD was moved. -/
theorem Inv.manager_step (h : Inv size maxThreads s) (hsize : FifoSizeOk size)
    (hpc : s.pc ≠ .idle) (hstep : InputStep size maxThreads .manager s s') :
    (s'.room size + s'.credit ≤ s.room size + s.credit ∧
      s'.left maxThreads < s.left maxThreads) ∨
    (s'.room size + s'.credit + 1 ≤ s.room size + s.credit ∧
      s'.left maxThreads < 3 * maxThreads + 1 + s.left maxThreads) := by
  have hok := h.pc_ok
  have hlt := h.allocated_lt
  have hmono := h.allocated_mono
  have hpos := Nat.pos_of_ne_zero hsize.1
  cases hstep with
  | enter hidle => exact absurd hidle hpc
  | @skip _ i noJobs hscan hi hempty =>
    left
    simp only [room, credit, left, allocated, hscan, Nat.add_lt_add_iff_right]
    omega
  | @full _ i noJobs hscan hi hempty hfull =>
    left
    simp only [room, credit, left, allocated, hscan]
    omega
  | @alloc _ i noJobs hscan hi hempty hspace =>
    have hfull := mt (h.full_iff hsize).mpr hspace
    simp only [allocated, hscan] at hfull hlt hmono
    simp only [room, credit, left, allocated, hscan]
    by_cases hno : noJobs < i
    · rw [if_pos hno]
      right
      omega
    · rw [if_neg hno]
      left
      omega
  | @copy _ i noJobs slot out halloc hpeek =>
    left
    simp only [room, credit, left, allocated, halloc, List.length_append, List.length_singleton]
    omega
  | @pop _ i noJobs hcopied =>
    rw [PcOk, hcopied] at hok
    obtain ⟨hi, hno, -⟩ := hok
    left
    simp only [room, credit, left, allocated, hcopied, if_pos (Nat.lt_succ_of_le hno)]
    omega
  | @round _ noJobs hscan =>
    rw [PcOk, hscan] at hok
    by_cases hno : noJobs = maxThreads
    · left
      simp only [room, credit, left, allocated, hscan, if_pos hno]
      omega
    · right
      have hlt : noJobs < maxThreads := hok.2.lt_of_ne hno
      simp only [room, credit, left, allocated, hscan, if_neg hno, if_pos hlt, lt_irrefl,
        if_false]
      omega
  | leave hfinish =>
    left
    simp only [room, credit, left, allocated, hfinish]
    omega
  | publish hfinish =>
    left
    simp only [room, credit, left, allocated, hfinish]
    omega

theorem Inv.potential_lt (h : Inv size maxThreads s) (hsize : FifoSizeOk size)
    (hpc : s.pc ≠ .idle) (hstep : InputStep size maxThreads .manager s s') :
    s'.potential size maxThreads < s.potential size maxThreads := by
  unfold potential
  rcases h.manager_step hsize hpc hstep with ⟨hle, hlt⟩ | ⟨hle, hlt⟩
  · have hmul := Nat.mul_le_mul_right (3 * maxThreads + 1) hle
    omega
  · have hmul := Nat.mul_le_mul_right (3 * maxThreads + 1) hle
    rw [Nat.add_mul, Nat.one_mul] at hmul
    omega

/-- The manager thread is never stuck inside a pass. -/
theorem Inv.exists_step (h : Inv size maxThreads s) (hpc : s.pc ≠ .idle) :
    ∃ s', InputStep size maxThreads .manager s s' := by
  have hok := h.pc_ok
  rcases hs : s.pc with _ | ⟨i, noJobs⟩ | ⟨i, noJobs, slot⟩ | ⟨i, noJobs⟩ | _
  · exact absurd hs hpc
  · rw [PcOk, hs] at hok
    rcases hok.1.lt_or_eq with hi | rfl
    · rcases hempty : (s.fifos i).empty with _ | _
      · by_cases hfull : (s.inputWrtPtr + 1) &&& (size - 1) = s.inputRdPtr
        · exact ⟨_, .full hs hi hempty hfull⟩
        · exact ⟨_, .alloc hs hi hempty hfull⟩
      · exact ⟨_, .skip hs hi hempty⟩
    · exact ⟨_, .round hs⟩
  · rw [PcOk, hs] at hok
    exact ⟨_, .copy hs ((h.fifos_ok i).1.peekOutput_eq_some.mpr ⟨hok.2.2.2, rfl⟩)⟩
  · exact ⟨_, .pop hs⟩
  · by_cases hjobs : s.njobs = 0
    · exact ⟨_, .leave hs hjobs⟩
    · exact ⟨_, .publish hs hjobs⟩

theorem managerStep_cases (size maxThreads : ℕ) (s : InputRun) :
    s.managerStep size maxThreads = s ∨
      InputStep size maxThreads .manager s (s.managerStep size maxThreads) := by
  unfold managerStep
  split
  · next hpc => exact .inr (.enter hpc)
  · next i noJobs hpc =>
    split
    · next hi =>
      split
      · next hempty => exact .inr (.skip hpc hi hempty)
      · next hempty =>
        rw [Bool.not_eq_true] at hempty
        split
        · next hfull => exact .inr (.full hpc hi hempty hfull)
        · next hspace => exact .inr (.alloc hpc hi hempty hspace)
    · split
      · next heq =>
        subst heq
        exact .inr (.round hpc)
      · exact .inl rfl
  · next hpc =>
    split
    · exact .inl rfl
    · next hpeek => exact .inr (.copy hpc hpeek)
  · next hpc => exact .inr (.pop hpc)
  · next hpc =>
    split
    · next hjobs => exact .inr (.leave hpc hjobs)
    · next hjobs => exact .inr (.publish hpc hjobs)

theorem reaches_managerSteps (size maxThreads n : ℕ) (s : InputRun) :
    Reaches size maxThreads s ((managerStep size maxThreads)^[n] s) := by
  induction n generalizing s with
  | zero => exact .refl
  | succ n ih =>
    have hrest := ih (s.managerStep size maxThreads)
    rw [Function.iterate_succ_apply]
    rcases managerStep_cases size maxThreads s with heq | hstep
    · rw [heq] at hrest ⊢
      exact hrest
    · exact .head ⟨_, hstep⟩ hrest

/-- Part of a pass during which the hardware takes no FD: `k` steps of the
manager thread, and any number of pushes in between. -/
inductive PassRun (size maxThreads : ℕ) : ℕ → InputRun → InputRun → Prop
  | refl (s : InputRun) : PassRun size maxThreads 0 s s
  | push {k : ℕ} {s s' s'' : InputRun} (h : PassRun size maxThreads k s s')
      (hstep : InputStep size maxThreads .thread s' s'') : PassRun size maxThreads k s s''
  | move {k : ℕ} {s s' s'' : InputRun} (h : PassRun size maxThreads k s s')
      (hpc : s'.pc ≠ .idle) (hstep : InputStep size maxThreads .manager s' s'') :
      PassRun size maxThreads (k + 1) s s''

theorem PassRun.bound {k : ℕ} (hrun : PassRun size maxThreads k s s')
    (h : Inv size maxThreads s) (hsize : FifoSizeOk size) :
    Inv size maxThreads s' ∧
      k + s'.potential size maxThreads ≤ s.potential size maxThreads := by
  induction hrun with
  | refl => exact ⟨h, (Nat.zero_add _).le⟩
  | push _ hstep ih =>
    refine ⟨(ih h).1.step hsize hstep, ?_⟩
    cases hstep with
    | push ht fd hcookie hpeek => exact (ih h).2
  | move _ hpc hstep ih =>
    refine ⟨(ih h).1.step hsize hstep, ?_⟩
    have hlt := (ih h).1.potential_lt hsize hpc hstep
    have hle := (ih h).2
    omega

/-- Whatever the order of the steps of the manager thread, the threads and the
hardware: the FDs in the ring that carry a thread's id are a prefix of the FDs
it pushed, the hardware takes the FDs of the ring in order and is told only of
copied ones, an FD stays in its slot until the hardware has taken it, and while
the hardware takes none a pass is over after a bounded number of steps of the
manager thread, which always has a next step. -/
theorem manageInput_in_order (hsize : FifoSizeOk size)
    (hrun : Reaches size maxThreads (start size) s) :
    (∀ t, s.placedBy t <+: s.pushed t) ∧
      (s.taken = s.placed.take s.taken.length ∧ s.taken.length ≤ s.sent ∧
        s.sent ≤ s.placed.length ∧ s.fdfFifoWrtPtr = s.sent % size) ∧
      (s.placed.length < s.taken.length + size ∧
        window size s.inputFifo s.inputRdPtr (s.placed.length - s.taken.length) =
          s.placed.drop s.taken.length) ∧
      (∀ k s', PassRun size maxThreads k s s' → k ≤ s.potential size maxThreads) ∧
      (s.pc ≠ .idle → ∃ s', InputStep size maxThreads .manager s s') := by
  have h := hrun.inv hsize
  refine ⟨fun t ↦ ⟨s.waiting t, (h.order t).symm⟩,
    ⟨h.taken_eq, h.taken_le, h.sent_le, h.sent_eq⟩, ⟨?_, ?_⟩, fun k s' hpass ↦ ?_,
    h.exists_step⟩
  · exact (Nat.le_add_right _ _).trans_lt h.allocated_lt
  · rw [← h.window_eq, h.rd_eq]
    exact window_of_mod_eq (Nat.mod_mod _ _)
  · have hbound := (hpass.bound h hsize).2
    omega

/-- A thread has pushed an FD. -/
def oneFd : InputRun :=
  (start 4).pushFd 1 0 { HwFdDescriptor.zero with cookie := nlmEncodeCookie 1 1 }

/-- Another one pushes one too, the manager thread makes a pass, and the hardware takes
the first of the two. -/
def twoFds : InputRun :=
  ((managerStep 4 2)^[12] (oneFd.pushFd 0 0
    { HwFdDescriptor.zero with cookie := nlmEncodeCookie 0 1 })).takeFd 4

theorem manageInput_in_order_sample :
    FifoSizeOk 4 ∧ Reaches 4 2 (start 4) twoFds ∧ twoFds.pc = .idle ∧ twoFds.sent = 2 ∧
      (twoFds.pushed 1).length = 1 ∧ twoFds.placedBy 1 = twoFds.pushed 1 ∧
      twoFds.taken = twoFds.placed.take 1 := by
  have hfirst : InputStep 4 2 .thread (start 4) oneFd := .push (by decide) _ (by decide) rfl
  have hsecond : InputStep 4 2 .thread oneFd (oneFd.pushFd 0 0
      { HwFdDescriptor.zero with cookie := nlmEncodeCookie 0 1 }) :=
    .push (by decide) _ (by decide) rfl
  have hpass := (Relation.ReflTransGen.head ⟨_, hfirst⟩ (.single ⟨_, hsecond⟩)).trans
    (reaches_managerSteps 4 2 12 _)
  have hrun : Reaches 4 2 (start 4) twoFds := hpass.tail ⟨_, .take (by decide)⟩
  obtain ⟨hplaced, ⟨htaken, -⟩, -⟩ := manageInput_in_order (by decide) hrun
  exact ⟨by decide, hrun, by decide, by decide, by decide,
    (hplaced 1).eq_of_length (by decide), htaken⟩

end InputRun

end NetL7.Packet
