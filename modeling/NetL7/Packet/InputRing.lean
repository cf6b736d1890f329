import NetL7.Lib.RingWindow
import NetL7.Packet.Device

/-!
# The FDs in the input ring

Between the read pointer and the write pointer of the ring lie the FDs that the hardware
has not taken yet. It knows of those before the write pointer it was told of.
-/

namespace NetL7.Packet

open NetL7.Lib

namespace NlmDevice

section Pointers

variable {s s' : NlmDevice}

/-- The ring and its pointers as `nlm_device_init` leaves them and every
operation keeps them. -/
structure RingOk (s : NlmDevice) : Prop where
  size_ok : FifoSizeOk s.inputFifoSize
  rd_lt : s.inputRdPtr < s.inputFifoSize
  wrt_lt : s.inputWrtPtr < s.inputFifoSize

/-- The number of FDs that `sysmem_alloc_fd` can hand out. -/
def freeFds (s : NlmDevice) : ℕ :=
  (s.inputFifoSize + s.inputRdPtr - s.inputWrtPtr - 1) % s.inputFifoSize

theorem and_inputFifoSize_sub_one (h : FifoSizeOk s.inputFifoSize) (x : ℕ) :
    x &&& (s.inputFifoSize - 1) = x % s.inputFifoSize :=
  SwFifo.and_size_sub_one (f := (⟨s.inputFifoSize, 0, 0, fun _ ↦ ()⟩ : SwFifo Unit)) h x

namespace RingOk

variable (h : RingOk s)
include h

theorem freeFds_eq : s.freeFds =
    if s.inputRdPtr ≤ s.inputWrtPtr then s.inputFifoSize + s.inputRdPtr - s.inputWrtPtr - 1
    else s.inputRdPtr - s.inputWrtPtr - 1 := by
  have hrd := h.rd_lt
  have hwrt := h.wrt_lt
  unfold freeFds
  split
  · exact Nat.mod_eq_of_lt (by omega)
  · rw [show s.inputFifoSize + s.inputRdPtr - s.inputWrtPtr - 1 =
      s.inputFifoSize + (s.inputRdPtr - s.inputWrtPtr - 1) by omega, Nat.add_mod_left]
    exact Nat.mod_eq_of_lt (by omega)

theorem wrt_next : (s.inputWrtPtr + 1) &&& (s.inputFifoSize - 1) =
    if s.inputWrtPtr + 1 = s.inputFifoSize then 0 else s.inputWrtPtr + 1 := by
  have hwrt := h.wrt_lt
  rw [and_inputFifoSize_sub_one h.size_ok]
  split
  · rename_i heq
    rw [heq, Nat.mod_self]
  · exact Nat.mod_eq_of_lt (by omega)

theorem sysmemAllocFd_eq_none : s.sysmemAllocFd = none ↔ s.freeFds = 0 := by
  have hrd := h.rd_lt
  have hwrt := h.wrt_lt
  have hfree := h.freeFds_eq
  have hnext := h.wrt_next
  unfold sysmemAllocFd
  constructor
  · intro hnone
    split at hnone
    · split at hfree <;> split at hnext <;> omega
    · exact absurd hnone (by simp)
  · intro hzero
    refine if_pos ?_
    split at hfree <;> split at hnext <;> omega

theorem sysmemAllocFd_eq_some {slot : ℕ} (halloc : s.sysmemAllocFd = some (slot, s')) :
    RingOk s' ∧ s'.freeFds + 1 = s.freeFds := by
  have hrd := h.rd_lt
  have hwrt := h.wrt_lt
  have hfree := h.freeFds_eq
  have hnext := h.wrt_next
  unfold sysmemAllocFd at halloc
  split at halloc
  · exact absurd halloc (by simp)
  · rename_i hspace
    obtain ⟨-, rfl⟩ := Prod.mk.inj (Option.some.inj halloc)
    have hring : RingOk { s with
        inputWrtPtr := (s.inputWrtPtr + 1) &&& (s.inputFifoSize - 1)
        inputWrtPtrDirty := true
        inputFifo := Function.update s.inputFifo s.inputWrtPtr .zero } := by
      refine ⟨h.size_ok, hrd, ?_⟩
      simp only
      split at hnext <;> omega
    refine ⟨hring, ?_⟩
    rw [hring.freeFds_eq]
    simp only
    split at hfree <;> split at hnext <;> split <;> omega

end RingOk

end Pointers

variable (s : NlmDevice)

/-- The number of FDs in the ring. -/
def fdCount : ℕ := (s.inputWrtPtr + s.inputFifoSize - s.inputRdPtr) % s.inputFifoSize

/-- The number of those that the hardware knows of. -/
def sentCount : ℕ := (s.fdfFifoWrtPtr + s.inputFifoSize - s.inputRdPtr) % s.inputFifoSize

/-- The FDs in the ring, in order. -/
def ringFds : List HwFdDescriptor := window s.inputFifoSize s.inputFifo s.inputRdPtr s.fdCount

/-- The hardware takes an FD. -/
def takeFd : NlmDevice := { s with inputRdPtr := (s.inputRdPtr + 1) % s.inputFifoSize }

/-- The pointers of the ring, with the one that the hardware was told. -/
structure RingSound (s : NlmDevice) : Prop extends RingOk s where
  sent_lt : s.fdfFifoWrtPtr < s.inputFifoSize
  sent_le : s.sentCount ≤ s.fdCount

variable {s} {s' : NlmDevice} {slot : ℕ}

theorem RingSound.congr (h : RingSound s) (hsize : s'.inputFifoSize = s.inputFifoSize)
    (hrd : s'.inputRdPtr = s.inputRdPtr) (hwrt : s'.inputWrtPtr = s.inputWrtPtr)
    (hsent : s'.fdfFifoWrtPtr = s.fdfFifoWrtPtr) : RingSound s' := by
  refine ⟨⟨hsize ▸ h.size_ok, ?_, ?_⟩, ?_, ?_⟩
  · rw [hsize, hrd]
    exact h.rd_lt
  · rw [hsize, hwrt]
    exact h.wrt_lt
  · rw [hsize, hsent]
    exact h.sent_lt
  · unfold sentCount fdCount
    rw [hsize, hrd, hwrt, hsent]
    exact h.sent_le

theorem distance_eq {size r w : ℕ} (hr : r < size) (hw : w < size) :
    (w + size - r) % size = if r ≤ w then w - r else w + size - r := by
  split_ifs with hle
  · rw [Nat.sub_add_comm hle, Nat.add_mod_right]
    exact Nat.mod_eq_of_lt (by omega)
  · exact Nat.mod_eq_of_lt (by omega)

namespace RingSound

variable (h : RingSound s)
include h

theorem fdCount_eq : s.fdCount = if s.inputRdPtr ≤ s.inputWrtPtr then s.inputWrtPtr - s.inputRdPtr
    else s.inputWrtPtr + s.inputFifoSize - s.inputRdPtr := distance_eq h.rd_lt h.wrt_lt

theorem sentCount_eq : s.sentCount =
    if s.inputRdPtr ≤ s.fdfFifoWrtPtr then s.fdfFifoWrtPtr - s.inputRdPtr
    else s.fdfFifoWrtPtr + s.inputFifoSize - s.inputRdPtr := distance_eq h.rd_lt h.sent_lt

theorem rd_add_fdCount : (s.inputRdPtr + s.fdCount) % s.inputFifoSize = s.inputWrtPtr := by
  have hrd := h.rd_lt
  have hwrt := h.wrt_lt
  rw [h.fdCount_eq]
  split_ifs with hle
  · rw [Nat.add_sub_cancel' hle]
    exact Nat.mod_eq_of_lt hwrt
  · rw [Nat.add_sub_cancel' (by omega), Nat.add_mod_right]
    exact Nat.mod_eq_of_lt hwrt

theorem fdCount_lt : s.fdCount < s.inputFifoSize := Nat.mod_lt _ (Nat.zero_lt_of_lt h.rd_lt)

/-- An FD that is put into the slot that was allocated comes last. -/
theorem alloc (halloc : s.sysmemAllocFd = some (slot, s')) (fd : HwFdDescriptor) :
    RingSound (s'.setFd slot fd) ∧ (s'.setFd slot fd).ringFds = s.ringFds ++ [fd] := by
  have hrd := h.rd_lt
  have hwrt := h.wrt_lt
  have hsent := h.sent_lt
  have hcount := h.fdCount_eq
  have hsentCount := h.sentCount_eq
  have hle := h.sent_le
  have hlt := h.fdCount_lt
  have hslot := h.rd_add_fdCount
  have hnext := h.wrt_next
  have hring := (h.sysmemAllocFd_eq_some halloc).1
  unfold sysmemAllocFd at halloc
  split at halloc
  · cases halloc
  · next hspace =>
    rw [hnext] at hspace
    cases halloc
    have hwrt' : (s.inputWrtPtr + 1) &&& (s.inputFifoSize - 1) < s.inputFifoSize := hring.wrt_lt
    have hcount' : (s.fdCount + 1) = (((s.inputWrtPtr + 1) &&& (s.inputFifoSize - 1)) +
        s.inputFifoSize - s.inputRdPtr) % s.inputFifoSize := by
      rw [distance_eq hrd hwrt', hcount]
      generalize (s.inputWrtPtr + 1) &&& (s.inputFifoSize - 1) = next at hnext hwrt' ⊢
      rw [← hnext] at hspace
      by_cases hwrap : s.inputWrtPtr + 1 = s.inputFifoSize
      · rw [if_pos hwrap] at hnext
        split_ifs <;> omega
      · rw [if_neg hwrap] at hnext
        split_ifs <;> omega
    refine ⟨⟨⟨h.size_ok, hrd, hwrt'⟩, hsent, ?_⟩, ?_⟩
    · change s.sentCount ≤ (((s.inputWrtPtr + 1) &&& (s.inputFifoSize - 1)) + s.inputFifoSize -
        s.inputRdPtr) % s.inputFifoSize
      rw [← hcount']
      omega
    · change window s.inputFifoSize (Function.update (Function.update s.inputFifo s.inputWrtPtr
        .zero) s.inputWrtPtr fd) s.inputRdPtr ((((s.inputWrtPtr + 1) &&& (s.inputFifoSize - 1)) +
          s.inputFifoSize - s.inputRdPtr) % s.inputFifoSize) = s.ringFds ++ [fd]
      rw [← hcount', window_snoc, hslot, Function.update_self, Function.update_idem, ringFds]
      conv_lhs => rw [← hslot]
      rw [window_update hlt]

theorem publish : RingSound s.nlmDeviceUpdateInputWrtPtr ∧
    s.nlmDeviceUpdateInputWrtPtr.ringFds = s.ringFds :=
  ⟨⟨⟨h.size_ok, h.rd_lt, h.wrt_lt⟩, h.wrt_lt, le_rfl⟩, rfl⟩

/-- Both counts fall when the hardware takes an FD. -/
theorem take_counts (hsent : s.inputRdPtr ≠ s.fdfFifoWrtPtr) :
    s.takeFd.fdCount + 1 = s.fdCount ∧ s.takeFd.sentCount + 1 = s.sentCount := by
  have hrd := h.rd_lt
  have hwrt := h.wrt_lt
  have hlt := h.sent_lt
  have hcount := h.fdCount_eq
  have hsentCount := h.sentCount_eq
  have hle := h.sent_le
  have hrd' : (s.inputRdPtr + 1) % s.inputFifoSize < s.inputFifoSize := Nat.mod_lt _ (by omega)
  have hnext : (s.inputRdPtr + 1) % s.inputFifoSize =
      if s.inputRdPtr + 1 = s.inputFifoSize then 0 else s.inputRdPtr + 1 := by
    split_ifs with heq
    · rw [heq, Nat.mod_self]
    · exact Nat.mod_eq_of_lt (by omega)
  constructor
  · change (s.inputWrtPtr + s.inputFifoSize - (s.inputRdPtr + 1) % s.inputFifoSize) %
      s.inputFifoSize + 1 = s.fdCount
    rw [distance_eq hrd' hwrt, hcount]
    generalize (s.inputRdPtr + 1) % s.inputFifoSize = next at hnext hrd' ⊢
    by_cases hwrap : s.inputRdPtr + 1 = s.inputFifoSize
    · rw [if_pos hwrap] at hnext
      split_ifs at hsentCount hcount ⊢ <;> omega
    · rw [if_neg hwrap] at hnext
      split_ifs at hsentCount hcount ⊢ <;> omega
  · change (s.fdfFifoWrtPtr + s.inputFifoSize - (s.inputRdPtr + 1) % s.inputFifoSize) %
      s.inputFifoSize + 1 = s.sentCount
    rw [distance_eq hrd' hlt, hsentCount]
    generalize (s.inputRdPtr + 1) % s.inputFifoSize = next at hnext hrd' ⊢
    by_cases hwrap : s.inputRdPtr + 1 = s.inputFifoSize
    · rw [if_pos hwrap] at hnext
      split_ifs at hsentCount hcount ⊢ <;> omega
    · rw [if_neg hwrap] at hnext
      split_ifs at hsentCount hcount ⊢ <;> omega

/-- The hardware takes the first FD. -/
theorem take (hsent : s.inputRdPtr ≠ s.fdfFifoWrtPtr) :
    RingSound s.takeFd ∧ s.ringFds = s.inputFifo s.inputRdPtr :: s.takeFd.ringFds := by
  have hrd := h.rd_lt
  have hle := h.sent_le
  have hrd' : (s.inputRdPtr + 1) % s.inputFifoSize < s.inputFifoSize := Nat.mod_lt _ (by omega)
  obtain ⟨hcount', hsent'⟩ := h.take_counts hsent
  refine ⟨⟨⟨h.size_ok, hrd', h.wrt_lt⟩, h.sent_lt, by omega⟩, ?_⟩
  have hmod : (s.inputRdPtr + 1) % s.inputFifoSize =
      (s.inputRdPtr + 1) % s.inputFifoSize % s.inputFifoSize := (Nat.mod_mod _ _).symm
  unfold ringFds
  rw [← hcount', window_cons, Nat.mod_eq_of_lt hrd, window_of_mod_eq hmod]
  rfl

theorem freeFds_add_fdCount : s.freeFds + s.fdCount + 1 = s.inputFifoSize := by
  have hrd := h.rd_lt
  have hwrt := h.wrt_lt
  have hcount := h.fdCount_eq
  rw [h.freeFds_eq]
  split_ifs at hcount ⊢ <;> omega

/-- Together the two counts bound what a call can allocate. -/
theorem freeFds_add_sentCount_lt : s.freeFds + s.sentCount < 2 ^ 32 := by
  have hle := h.sent_le
  have hroom := h.freeFds_add_fdCount
  have hsize : s.inputFifoSize < 2 ^ 32 := h.size_ok.2.1.trans_lt (by decide)
  omega

/-- `sysmem_alloc_fd` hands out a free FD, of which the hardware does not know yet. -/
theorem sysmemAllocFd_counts (halloc : s.sysmemAllocFd = some (slot, s')) :
    RingSound s' ∧ s'.freeFds + 1 = s.freeFds ∧ s'.sentCount = s.sentCount := by
  have hring := (h.alloc halloc .zero).1
  have hfree := (h.sysmemAllocFd_eq_some halloc).2
  have hsent : s'.sentCount = s.sentCount := by
    unfold sysmemAllocFd at halloc
    split at halloc
    · cases halloc
    · cases halloc
      rfl
  exact ⟨hring.congr rfl rfl rfl rfl, hfree, hsent⟩

end RingSound

theorem takeFds_eq (hfifo : s.swJobFifo = none) (n : ℕ) : s.takeFds n =
    { s with inputRdPtr := (s.inputRdPtr + min n s.sentCount) % s.inputFifoSize } := by
  unfold takeFds
  split
  · next fifo heq => cases hfifo.symm.trans heq
  · rfl

theorem takeFds_of_sentCount (h : RingSound s) (hfifo : s.swJobFifo = none) {n : ℕ}
    (hzero : min n s.sentCount = 0) : s.takeFds n = s := by
  rw [takeFds_eq hfifo, hzero, Nat.add_zero, Nat.mod_eq_of_lt h.rd_lt]

theorem takeFds_zero (h : RingSound s) (hfifo : s.swJobFifo = none) : s.takeFds 0 = s :=
  takeFds_of_sentCount h hfifo (Nat.zero_min _)

theorem takeFds_of_eq (h : RingSound s) (hfifo : s.swJobFifo = none)
    (hsent : s.inputRdPtr = s.fdfFifoWrtPtr) (n : ℕ) : s.takeFds n = s := by
  have hzero : s.sentCount = 0 := by
    unfold sentCount
    rw [hsent, Nat.add_sub_cancel_left, Nat.mod_self]
  exact takeFds_of_sentCount h hfifo (by rw [hzero, Nat.min_zero])

theorem takeFds_succ (h : RingSound s) (hfifo : s.swJobFifo = none)
    (hsent : s.inputRdPtr ≠ s.fdfFifoWrtPtr) (n : ℕ) :
    s.takeFds (n + 1) = s.takeFd.takeFds n := by
  have hcount : s.takeFd.sentCount + 1 = s.sentCount := (h.take_counts hsent).2
  have hmin : min (n + 1) s.sentCount = 1 + min n s.takeFd.sentCount := by omega
  rw [takeFds_eq hfifo, takeFds_eq (s := s.takeFd) hfifo, hmin, ← Nat.add_assoc, ← Nat.mod_add_mod]
  rfl

/-- The FDs that the hardware takes are free afterwards. -/
theorem RingSound.takeFds (h : RingSound s) (hfifo : s.swJobFifo = none) (n : ℕ) :
    RingSound (s.takeFds n) ∧ (s.takeFds n).freeFds = s.freeFds + min n s.sentCount ∧
      (s.takeFds n).sentCount + min n s.sentCount = s.sentCount := by
  induction n generalizing s with
  | zero =>
    rw [takeFds_zero h hfifo, Nat.zero_min]
    exact ⟨h, rfl, rfl⟩
  | succ n ih =>
    rcases eq_or_ne s.inputRdPtr s.fdfFifoWrtPtr with hsent | hsent
    · have hzero : s.sentCount = 0 := by
        unfold sentCount
        rw [hsent, Nat.add_sub_cancel_left, Nat.mod_self]
      rw [takeFds_of_eq h hfifo hsent, hzero, Nat.min_zero]
      exact ⟨h, rfl, rfl⟩
    · have htake := (h.take hsent).1
      obtain ⟨hcount, hsentCount⟩ := h.take_counts hsent
      have hroom := h.freeFds_add_fdCount
      have hroom' : s.takeFd.freeFds + s.takeFd.fdCount + 1 = s.inputFifoSize :=
        htake.freeFds_add_fdCount
      obtain ⟨hsound, hfree, hrest⟩ := ih (s := s.takeFd) htake hfifo
      rw [takeFds_succ h hfifo hsent]
      refine ⟨hsound, ?_, ?_⟩
      · rw [hfree]
        omega
      · omega

end NlmDevice

end NetL7.Packet
