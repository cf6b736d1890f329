import NetL7.Lib.Demux
import NetL7.Packet.Fifo
import NetL7.Packet.Formats

/-!
# The manager thread's output pass

`nlm_manage_output` goes through the result descriptors (RDs) between the read
pointer and the write pointer it has read, and hands each one over to the FIFO
of its thread. What does not fit stays in the ring, unmarked, for a later pass.
-/

namespace NetL7.Packet

open NetL7.Lib

/-- `struct hw_result_descriptor`, one word for each of its unions. -/
structure HwResultDescriptor where
  u1 : ℕ
  cookie : ℕ
  u3 : ℕ
  u4 : ℕ
  deriving DecidableEq, Repr

/-- `RD_WAS_PROCESSED`. The hardware sets the valid bit in this word, which is
not set here. -/
def rdWasProcessed : ℕ := 0x7eedbee0

def HwResultDescriptor.zero : HwResultDescriptor := ⟨0, 0, 0, 0⟩

def HwResultDescriptor.mark (rd : HwResultDescriptor) : HwResultDescriptor :=
  { rd with u4 := rdWasProcessed }

/-- The RDs of thread `t`. -/
def ofThread (t : ℕ) (rd : HwResultDescriptor) : Bool := nlmGetThreadId rd.cookie == t

/-- The loop variables of a pass: which of the two loops over a wrapped window
runs, its index, the write pointer and `no_update`. `pos` counts the RDs since
the start of the hardware, `seen` those that it had written when the pass began. -/
structure Cursor where
  second : Bool
  i : ℕ
  wrtPtr : ℕ
  noUpdate : Bool
  pos : ℕ
  seen : ℕ

/-- Where the manager thread stands: outside a pass, before an RD, with a slot
of the thread's FIFO, with the RD pushed but not marked, behind the loops, or
between the two writes of the read pointer. -/
inductive OutputPc
  | idle
  | scan (c : Cursor)
  | peeked (c : Cursor) (slot : ℕ)
  | pushed (c : Cursor)
  | finish (c : Cursor)
  | flush

/-- The result FIFOs, the output ring and the manager thread. `produced` are the
RDs that the hardware wrote; of these the first `released` are behind the read
pointer and the hardware knows of the first `told`. -/
structure OutputRun where
  fifos : ℕ → SwFifo HwResultDescriptor
  skip : ℕ → Bool
  outputFifo : ℕ → HwResultDescriptor
  outputRdPtr : ℕ
  rdfRdPtr : ℕ
  outputWrtPtr : ℕ
  pc : OutputPc
  produced : List HwResultDescriptor
  pushed : ℕ → List HwResultDescriptor
  popped : ℕ → List HwResultDescriptor
  released : ℕ
  told : ℕ

/-- The state after `nlm_device_init`. -/
def OutputRun.start (fifoSize : ℕ) : OutputRun where
  fifos := fun _ ↦ .init fifoSize .zero
  skip := fun _ ↦ false
  outputFifo := fun _ ↦ .zero
  outputRdPtr := 0
  rdfRdPtr := 0
  outputWrtPtr := 0
  pc := .idle
  produced := []
  pushed := fun _ ↦ []
  popped := fun _ ↦ []
  released := 0
  told := 0

namespace Cursor

/-- Where the running loop ends, if the read pointer is `rdPtr`. -/
def limit (c : Cursor) (size rdPtr : ℕ) : ℕ :=
  if c.second then c.wrtPtr else if rdPtr < c.wrtPtr then c.wrtPtr else size

/-- The cursor behind the RD, which was left in the ring or not. -/
def next (c : Cursor) (kept : Bool) : Cursor :=
  { c with i := c.i + 1, pos := c.pos + 1, noUpdate := c.noUpdate || kept }

end Cursor

/-- One step of the manager thread, of the hardware or of a thread. -/
inductive OutputStep (size maxThreads : ℕ) : OutputRun → OutputRun → Prop
  | enter {s : OutputRun} (hpc : s.pc = .idle) (hne : s.outputRdPtr ≠ s.outputWrtPtr) :
      OutputStep size maxThreads s { s with
        skip := fun t ↦ if t < maxThreads then false else s.skip t
        pc := .scan
          ⟨false, s.outputRdPtr, s.outputWrtPtr, false, s.released, s.produced.length⟩ }
  | processed {s : OutputRun} {c : Cursor} (hpc : s.pc = .scan c)
      (hi : c.i < c.limit size s.outputRdPtr) (hmark : (s.outputFifo c.i).u4 = rdWasProcessed) :
      OutputStep size maxThreads s { s with pc := .scan (c.next false) }
  | skipped {s : OutputRun} {c : Cursor} (hpc : s.pc = .scan c)
      (hi : c.i < c.limit size s.outputRdPtr) (hmark : (s.outputFifo c.i).u4 ≠ rdWasProcessed)
      (hskip : s.skip (nlmGetThreadId (s.outputFifo c.i).cookie) = true) :
      OutputStep size maxThreads s { s with pc := .scan (c.next true) }
  | full {s : OutputRun} {c : Cursor} (hpc : s.pc = .scan c)
      (hi : c.i < c.limit size s.outputRdPtr) (hmark : (s.outputFifo c.i).u4 ≠ rdWasProcessed)
      (hskip : s.skip (nlmGetThreadId (s.outputFifo c.i).cookie) = false)
      (hpeek : (s.fifos (nlmGetThreadId (s.outputFifo c.i).cookie)).peekInput = none) :
      OutputStep size maxThreads s { s with
        skip := Function.update s.skip (nlmGetThreadId (s.outputFifo c.i).cookie) true
        pc := .scan (c.next true) }
  | peek {s : OutputRun} {c : Cursor} {slot : ℕ} (hpc : s.pc = .scan c)
      (hi : c.i < c.limit size s.outputRdPtr) (hmark : (s.outputFifo c.i).u4 ≠ rdWasProcessed)
      (hskip : s.skip (nlmGetThreadId (s.outputFifo c.i).cookie) = false)
      (hpeek : (s.fifos (nlmGetThreadId (s.outputFifo c.i).cookie)).peekInput = some slot) :
      OutputStep size maxThreads s { s with pc := .peeked c slot }
  | push {s : OutputRun} {c : Cursor} {slot t : ℕ} (hpc : s.pc = .peeked c slot)
      (ht : nlmGetThreadId (s.outputFifo c.i).cookie = t) :
      OutputStep size maxThreads s { s with
        fifos := Function.update s.fifos t
          ((s.fifos t).write slot (s.outputFifo c.i)).push
        pushed := Function.update s.pushed t (s.pushed t ++ [s.outputFifo c.i])
        pc := .pushed c }
  | mark {s : OutputRun} {c : Cursor} (hpc : s.pc = .pushed c) :
      OutputStep size maxThreads s { s with
        outputFifo := Function.update s.outputFifo c.i (s.outputFifo c.i).mark
        pc := .scan (c.next false) }
  | wrap {s : OutputRun} {c : Cursor} (hpc : s.pc = .scan c)
      (hi : c.i = c.limit size s.outputRdPtr) (hsecond : c.second = false)
      (hwrap : ¬ s.outputRdPtr < c.wrtPtr) :
      OutputStep size maxThreads s { s with pc := .scan { c with second := true, i := 0 } }
  | done {s : OutputRun} {c : Cursor} (hpc : s.pc = .scan c)
      (hi : c.i = c.limit size s.outputRdPtr)
      (hlast : c.second = true ∨ s.outputRdPtr < c.wrtPtr) :
      OutputStep size maxThreads s { s with pc := .finish c }
  | keep {s : OutputRun} {c : Cursor} (hpc : s.pc = .finish c)
      (hkeep : c.noUpdate = true ∨ c.i &&& (size - 1) = s.outputRdPtr) :
      OutputStep size maxThreads s { s with pc := .idle }
  | update {s : OutputRun} {c : Cursor} (hpc : s.pc = .finish c)
      (hnew : c.noUpdate = false) (hne : c.i &&& (size - 1) ≠ s.outputRdPtr) :
      OutputStep size maxThreads s { s with
        outputRdPtr := c.i &&& (size - 1)
        released := c.pos
        pc := .flush }
  | flush {s : OutputRun} (hpc : s.pc = .flush) :
      OutputStep size maxThreads s { s with
        rdfRdPtr := s.outputRdPtr
        told := s.released
        pc := .idle }
  | append {s : OutputRun} (rd : HwResultDescriptor)
      (hspace : (s.outputWrtPtr + 1) % size ≠ s.rdfRdPtr)
      (hthread : nlmGetThreadId rd.cookie < maxThreads) (hvalid : rd.u4 ≠ rdWasProcessed) :
      OutputStep size maxThreads s { s with
        outputFifo := Function.update s.outputFifo s.outputWrtPtr rd
        outputWrtPtr := (s.outputWrtPtr + 1) % size
        produced := s.produced ++ [rd] }
  | pop {s : OutputRun} {t out : ℕ} (hpeek : (s.fifos t).peekOutput = some out) :
      OutputStep size maxThreads s { s with
        fifos := Function.update s.fifos t (s.fifos t).pop
        popped := Function.update s.popped t (s.popped t ++ [(s.fifos t).buf out]) }

namespace OutputRun

def Reaches (size maxThreads : ℕ) : OutputRun → OutputRun → Prop :=
  Relation.ReflTransGen (OutputStep size maxThreads)

/-- Thread `t` has got all its RDs among the first `k`. -/
def GotAll (s : OutputRun) (k t : ℕ) : Prop :=
  rank (ofThread t) s.produced k ≤ (s.pushed t).length

/-- The RD at position `k` has been pushed. -/
def Handed (s : OutputRun) (k : ℕ) (rd : HwResultDescriptor) : Prop :=
  rank (ofThread (nlmGetThreadId rd.cookie)) s.produced k <
    (s.pushed (nlmGetThreadId rd.cookie)).length

/-- The position of the RD that has been pushed but not marked. -/
def unmarked (s : OutputRun) : Option ℕ :=
  match s.pc with
  | .pushed c => some c.pos
  | _ => none

/-- The loop variables agree with the positions of the RDs. -/
structure CursorOk (size maxThreads : ℕ) (s : OutputRun) (c : Cursor) : Prop where
  seen_gt : s.released < c.seen
  seen_le : c.seen ≤ s.produced.length
  seen_lt : c.seen < s.released + size
  wrt_eq : c.wrtPtr = c.seen % size
  i_le : c.i ≤ c.limit size s.outputRdPtr
  first : c.second = false → s.outputRdPtr ≤ c.i ∧ c.pos = s.released + (c.i - s.outputRdPtr)
  wrapped : c.second = true → ¬ s.outputRdPtr < c.wrtPtr ∧
    c.pos = s.released + (size - s.outputRdPtr) + c.i
  got : ∀ t < maxThreads, s.skip t = false → s.GotAll c.pos t
  got_all : c.noUpdate = false → ∀ t, s.GotAll c.pos t

/-- What holds at the place where the manager stands. -/
def PcOk (size maxThreads : ℕ) (s : OutputRun) : OutputPc → Prop
  | .idle => True
  | .scan c => CursorOk size maxThreads s c
  | .peeked c slot => CursorOk size maxThreads s c ∧ c.i < c.limit size s.outputRdPtr ∧
      ∃ rd, s.produced[c.pos]? = some rd ∧ ¬ s.Handed c.pos rd ∧
        s.skip (nlmGetThreadId rd.cookie) = false ∧
        (s.fifos (nlmGetThreadId rd.cookie)).peekInput = some slot
  | .pushed c => CursorOk size maxThreads s c ∧ c.i < c.limit size s.outputRdPtr ∧
      ∃ rd, s.produced[c.pos]? = some rd ∧ s.Handed c.pos rd
  | .finish c => CursorOk size maxThreads s c ∧ c.pos = c.seen ∧ c.i % size = c.seen % size
  | .flush => True

/-- The invariant of the output side. -/
structure Inv (size maxThreads : ℕ) (s : OutputRun) : Prop where
  fifos_ok : ∀ t, (s.fifos t).Ok
  order : ∀ t, s.pushed t = s.popped t ++ (s.fifos t).contents
  pushed_prefix : ∀ t, s.pushed t <+: s.produced.filter (ofThread t)
  produced_ok : ∀ rd ∈ s.produced, nlmGetThreadId rd.cookie < maxThreads ∧
    rd.u4 ≠ rdWasProcessed
  rd_eq : s.outputRdPtr = s.released % size
  rdf_eq : s.rdfRdPtr = s.told % size
  wrt_eq : s.outputWrtPtr = s.produced.length % size
  told_le : s.told ≤ s.released
  released_le : s.released ≤ s.produced.length
  produced_lt : s.produced.length < s.told + size
  got_released : ∀ t, s.GotAll s.released t
  marked : ∀ k rd, s.released ≤ k → s.produced[k]? = some rd → s.Handed k rd →
    s.unmarked ≠ some k → (s.outputFifo (k % size)).u4 = rdWasProcessed
  intact : ∀ k rd, s.released ≤ k → s.produced[k]? = some rd →
    ¬ s.Handed k rd ∨ s.unmarked = some k → s.outputFifo (k % size) = rd
  pc_ok : s.PcOk size maxThreads s.pc

variable {size maxThreads : ℕ} {s s' : OutputRun} {c : Cursor}

/-! ## The window -/

theorem add_sub_mod {r x : ℕ} (hle : r % size ≤ x) (hx : x < size) :
    (r + (x - r % size)) % size = x := by
  have hr := Nat.div_add_mod r size
  have heq : r + (x - r % size) = size * (r / size) + x := by omega
  rw [heq, Nat.mul_add_mod, Nat.mod_eq_of_lt hx]

theorem window_end {r n : ℕ} (hlt : r < n) (hn : n < r + size) :
    (r % size < n % size → n = r + (n % size - r % size)) ∧
      (¬ r % size < n % size → n = r + (size - r % size) + n % size) := by
  have hsize : 0 < size := by omega
  have hr := Nat.mod_lt r hsize
  have hmod : n % size = (r % size + (n - r)) % size := by
    rw [Nat.mod_add_mod]
    congr 1
    omega
  by_cases hfit : r % size + (n - r) < size
  · rw [Nat.mod_eq_of_lt hfit] at hmod
    omega
  · have hwrap : size ≤ r % size + (n - r) := Nat.not_lt.mp hfit
    have hrest : r % size + (n - r) - size < size := by omega
    rw [Nat.mod_eq_sub_mod hwrap, Nat.mod_eq_of_lt hrest] at hmod
    omega

theorem mod_ne_of_lt {j k : ℕ} (hjk : j < k) (hk : k < j + size) : j % size ≠ k % size := by
  have hne : (0 + j) % size ≠ (0 + k) % size := slot_ne hjk hk
  rwa [Nat.zero_add, Nat.zero_add] at hne

namespace CursorOk

variable (h : CursorOk size maxThreads s c) (hrd : s.outputRdPtr = s.released % size)
include h hrd

/-- The RD at the cursor is the one at its position. -/
theorem pos_lt (hi : c.i < c.limit size s.outputRdPtr) :
    c.pos < c.seen ∧ c.pos % size = c.i := by
  have hend := window_end h.seen_gt h.seen_lt
  have hsize : 0 < size := by
    have hgt := h.seen_gt
    have hlt := h.seen_lt
    omega
  have hwrt := h.wrt_eq
  have hmod := Nat.mod_lt c.seen hsize
  unfold Cursor.limit at hi
  cases hsecond : c.second with
  | true =>
    obtain ⟨hwrap, hpos⟩ := h.wrapped hsecond
    rw [hsecond, if_pos rfl] at hi
    rw [hrd, hwrt] at hwrap
    have hseen := hend.2 hwrap
    rw [hrd] at hpos
    refine ⟨by omega, ?_⟩
    have hr := Nat.div_add_mod s.released size
    have hrlt := Nat.mod_lt s.released hsize
    have heq : c.pos = size * (s.released / size + 1) + c.i := by
      rw [Nat.mul_add, Nat.mul_one]
      omega
    rw [heq, Nat.mul_add_mod, Nat.mod_eq_of_lt (by omega)]
  | false =>
    obtain ⟨hle, hpos⟩ := h.first hsecond
    rw [hsecond, if_neg (by decide)] at hi
    rw [hrd] at hle hpos
    have hrlt := Nat.mod_lt s.released hsize
    split at hi
    · rename_i hlt
      rw [hrd, hwrt] at hlt
      have hseen := hend.1 hlt
      refine ⟨by omega, ?_⟩
      rw [hpos]
      exact add_sub_mod hle (by omega)
    · rename_i hwrap
      rw [hrd, hwrt] at hwrap
      have hseen := hend.2 hwrap
      refine ⟨by omega, ?_⟩
      rw [hpos]
      exact add_sub_mod hle (by omega)

theorem pos_le : c.pos ≤ c.seen := by
  have hend := window_end h.seen_gt h.seen_lt
  have hwrt := h.wrt_eq
  have hi := h.i_le
  unfold Cursor.limit at hi
  cases hsecond : c.second with
  | true =>
    obtain ⟨hwrap, hpos⟩ := h.wrapped hsecond
    rw [hsecond, if_pos rfl] at hi
    rw [hrd, hwrt] at hwrap
    have hseen := hend.2 hwrap
    rw [hrd] at hpos
    omega
  | false =>
    obtain ⟨hle, hpos⟩ := h.first hsecond
    rw [hsecond, if_neg (by decide)] at hi
    rw [hrd] at hle hpos
    split at hi
    · rename_i hlt
      rw [hrd, hwrt] at hlt
      have hseen := hend.1 hlt
      omega
    · rename_i hwrap
      rw [hrd, hwrt] at hwrap
      have hseen := hend.2 hwrap
      omega

/-- Behind the last loop the cursor is at the end of the window. -/
theorem pos_eq (hi : c.i = c.limit size s.outputRdPtr)
    (hlast : c.second = true ∨ s.outputRdPtr < c.wrtPtr) :
    c.pos = c.seen ∧ c.i % size = c.seen % size := by
  have hend := window_end h.seen_gt h.seen_lt
  have hwrt := h.wrt_eq
  unfold Cursor.limit at hi
  cases hsecond : c.second with
  | true =>
    obtain ⟨hwrap, hpos⟩ := h.wrapped hsecond
    rw [hsecond, if_pos rfl] at hi
    rw [hrd, hwrt] at hwrap
    have hseen := hend.2 hwrap
    rw [hrd] at hpos
    refine ⟨by omega, ?_⟩
    rw [hi, hwrt, Nat.mod_mod]
  | false =>
    obtain ⟨hle, hpos⟩ := h.first hsecond
    have hlt : s.outputRdPtr < c.wrtPtr := by
      rcases hlast with hlast | hlast
      · rw [hsecond] at hlast
        cases hlast
      · exact hlast
    rw [hsecond, if_neg (by decide), if_pos hlt] at hi
    rw [hrd, hwrt] at hlt
    have hseen := hend.1 hlt
    rw [hrd] at hle hpos
    refine ⟨by omega, ?_⟩
    rw [hi, hwrt, Nat.mod_mod]

end CursorOk

/-! ## Steps -/

/-- A step that moves the manager and sets skip bits. -/
theorem Inv.withPc (h : Inv size maxThreads s) (skip : ℕ → Bool) {pc : OutputPc}
    (hold : s.unmarked = none) (hnew : unmarked { s with pc := pc, skip := skip } = none)
    (hok : PcOk size maxThreads { s with pc := pc, skip := skip } pc) :
    Inv size maxThreads { s with pc := pc, skip := skip } := by
  refine { h with marked := ?_, intact := ?_, pc_ok := hok }
  · intro k rd hk hget hhanded _
    apply h.marked k rd hk hget hhanded
    rw [hold]
    exact (Option.some_ne_none k).symm
  · intro k rd hk hget hor
    apply h.intact k rd hk hget
    rw [hnew] at hor
    exact .inl (hor.resolve_right (Option.some_ne_none k).symm)

theorem CursorOk.next (h : CursorOk size maxThreads s c) (hrd : s.outputRdPtr = s.released % size)
    (hi : c.i < c.limit size s.outputRdPtr) (kept : Bool) (skip : ℕ → Bool) (pc : OutputPc)
    (hgot : ∀ t < maxThreads, skip t = false → s.GotAll (c.pos + 1) t)
    (hall : c.noUpdate = false → kept = false → ∀ t, s.GotAll (c.pos + 1) t) :
    CursorOk size maxThreads { s with skip := skip, pc := pc } (c.next kept) := by
  refine ⟨h.seen_gt, h.seen_le, h.seen_lt, h.wrt_eq, hi, fun hsecond ↦ ?_, fun hsecond ↦ ?_,
    hgot, fun hno ↦ ?_⟩
  · obtain ⟨hle, hpos⟩ := h.first hsecond
    refine ⟨Nat.le_succ_of_le hle, ?_⟩
    change c.pos + 1 = s.released + (c.i + 1 - s.outputRdPtr)
    omega
  · obtain ⟨hwrap, hpos⟩ := h.wrapped hsecond
    refine ⟨hwrap, ?_⟩
    change c.pos + 1 = s.released + (size - s.outputRdPtr) + (c.i + 1)
    omega
  · obtain ⟨hno, hkept⟩ := Bool.or_eq_false_iff.mp hno
    exact hall hno hkept

theorem CursorOk.released_le_pos (h : CursorOk size maxThreads s c) : s.released ≤ c.pos := by
  cases hsecond : c.second with
  | true =>
    have hpos := (h.wrapped hsecond).2
    omega
  | false =>
    have hpos := (h.first hsecond).2
    omega

theorem Inv.exists_rd (h : Inv size maxThreads s) (hc : CursorOk size maxThreads s c)
    (hi : c.i < c.limit size s.outputRdPtr) :
    ∃ rd, s.produced[c.pos]? = some rd ∧ rd ∈ s.produced ∧ c.pos % size = c.i := by
  obtain ⟨hlt, hmod⟩ := hc.pos_lt h.rd_eq hi
  have hpos : c.pos < s.produced.length := hlt.trans_le hc.seen_le
  exact ⟨_, List.getElem?_eq_getElem hpos, List.getElem_mem hpos, hmod⟩

/-- An unmarked RD at the cursor has not been pushed. -/
theorem Inv.unhanded (h : Inv size maxThreads s) (hc : CursorOk size maxThreads s c)
    (hi : c.i < c.limit size s.outputRdPtr) (hnone : s.unmarked = none)
    (hmark : (s.outputFifo c.i).u4 ≠ rdWasProcessed) :
    ∃ rd, s.produced[c.pos]? = some rd ∧ rd ∈ s.produced ∧ ¬ s.Handed c.pos rd ∧
      s.outputFifo c.i = rd := by
  obtain ⟨rd, hget, hmem, hmod⟩ := h.exists_rd hc hi
  have hle := hc.released_le_pos
  have hnot : ¬ s.Handed c.pos rd := by
    intro hhanded
    apply hmark
    rw [← hmod]
    apply h.marked c.pos rd hle hget hhanded
    rw [hnone]
    exact (Option.some_ne_none c.pos).symm
  refine ⟨rd, hget, hmem, hnot, ?_⟩
  rw [← hmod]
  exact h.intact c.pos rd hle hget (.inl hnot)

/-- Beyond an RD that thread `t` does not want, or has got. -/
theorem GotAll.succ {t k : ℕ} {rd : HwResultDescriptor} (h : s.GotAll k t)
    (hget : s.produced[k]? = some rd) (hrd : nlmGetThreadId rd.cookie ≠ t ∨ s.Handed k rd) :
    s.GotAll (k + 1) t := by
  unfold GotAll at h ⊢
  rw [rank_succ hget]
  by_cases ht : nlmGetThreadId rd.cookie = t
  · have hhanded : s.Handed k rd := hrd.resolve_left (not_not_intro ht)
    unfold Handed at hhanded
    rw [ht] at hhanded
    split
    · exact hhanded
    · exact h
  · rw [if_neg (by simpa [ofThread] using ht)]
    exact h

theorem Inv.processed (h : Inv size maxThreads s) (hpc : s.pc = .scan c)
    (hi : c.i < c.limit size s.outputRdPtr) (hmark : (s.outputFifo c.i).u4 = rdWasProcessed) :
    Inv size maxThreads { s with pc := .scan (c.next false) } := by
  have hc : CursorOk size maxThreads s c := by
    have hok := h.pc_ok
    rwa [hpc] at hok
  have hnone : s.unmarked = none := by rw [unmarked, hpc]
  obtain ⟨rd, hget, hmem, hmod⟩ := h.exists_rd hc hi
  have hhanded : s.Handed c.pos rd := by
    by_contra hnot
    have hslot := h.intact c.pos rd (hc.released_le_pos) hget (.inl hnot)
    rw [hmod] at hslot
    rw [hslot] at hmark
    exact (h.produced_ok rd hmem).2 hmark
  apply h.withPc s.skip hnone rfl
  exact hc.next h.rd_eq hi false _ _ (fun t ht hskip ↦ (hc.got t ht hskip).succ hget (.inr hhanded))
    fun hno _ t ↦ (hc.got_all hno t).succ hget (.inr hhanded)

/-- An RD stays in the ring, and its thread gets no more in this pass. -/
theorem Inv.kept (h : Inv size maxThreads s) (hpc : s.pc = .scan c)
    (hi : c.i < c.limit size s.outputRdPtr) (hmark : (s.outputFifo c.i).u4 ≠ rdWasProcessed)
    {skip : ℕ → Bool} (hskip : skip (nlmGetThreadId (s.outputFifo c.i).cookie) = true)
    (hother : ∀ t, t ≠ nlmGetThreadId (s.outputFifo c.i).cookie → skip t = s.skip t) :
    Inv size maxThreads { s with skip := skip, pc := .scan (c.next true) } := by
  have hc : CursorOk size maxThreads s c := by
    have hok := h.pc_ok
    rwa [hpc] at hok
  have hnone : s.unmarked = none := by rw [unmarked, hpc]
  obtain ⟨rd, hget, -, -, hslot⟩ := h.unhanded hc hi hnone hmark
  rw [hslot] at hskip hother
  apply h.withPc _ hnone rfl
  refine hc.next h.rd_eq hi true _ _ (fun t ht hfalse ↦ ?_) fun _ hkept ↦ Bool.noConfusion hkept
  have hne : t ≠ nlmGetThreadId rd.cookie := by
    rintro rfl
    rw [hskip] at hfalse
    exact Bool.noConfusion hfalse
  exact (hc.got t ht ((hother t hne).symm.trans hfalse)).succ hget (.inl hne.symm)

theorem Inv.peek (h : Inv size maxThreads s) {slot : ℕ} (hpc : s.pc = .scan c)
    (hi : c.i < c.limit size s.outputRdPtr) (hmark : (s.outputFifo c.i).u4 ≠ rdWasProcessed)
    (hskip : s.skip (nlmGetThreadId (s.outputFifo c.i).cookie) = false)
    (hpeek : (s.fifos (nlmGetThreadId (s.outputFifo c.i).cookie)).peekInput = some slot) :
    Inv size maxThreads { s with pc := .peeked c slot } := by
  have hc : CursorOk size maxThreads s c := by
    have hok := h.pc_ok
    rwa [hpc] at hok
  have hnone : s.unmarked = none := by rw [unmarked, hpc]
  obtain ⟨rd, hget, -, hnot, hslot⟩ := h.unhanded hc hi hnone hmark
  rw [hslot] at hskip hpeek
  apply h.withPc s.skip hnone rfl
  exact ⟨⟨hc.seen_gt, hc.seen_le, hc.seen_lt, hc.wrt_eq, hc.i_le, hc.first, hc.wrapped, hc.got,
    hc.got_all⟩, hi, rd, hget, hnot, hskip, hpeek⟩

/-- The RD is pushed: it is the next one of its thread. -/
theorem length_push (pushed : ℕ → List HwResultDescriptor) (t i : ℕ) (rd : HwResultDescriptor) :
    (Function.update pushed t (pushed t ++ [rd]) i).length =
      (pushed i).length + if i = t then 1 else 0 := by
  rcases eq_or_ne i t with rfl | hne
  · rw [Function.update_self, if_pos rfl, List.length_append, List.length_singleton]
  · rw [Function.update_of_ne hne, if_neg hne, Nat.add_zero]

section Push

variable {t : ℕ} {rd : HwResultDescriptor} (hproduced : s'.produced = s.produced)
  (hpushed : s'.pushed = Function.update s.pushed t (s.pushed t ++ [rd]))
include hproduced hpushed

theorem GotAll.push {k i : ℕ} (h : s.GotAll k i) : s'.GotAll k i := by
  unfold GotAll at h ⊢
  rw [hproduced, hpushed, length_push]
  exact h.trans (Nat.le_add_right _ _)

/-- If `rd` is the next RD of its thread, nothing else is handed over with it. -/
theorem handed_push {j k : ℕ} {r : HwResultDescriptor} (ht : nlmGetThreadId rd.cookie = t)
    (hget : s.produced[j]? = some rd)
    (hlen : (s.pushed t).length = rank (ofThread t) s.produced j)
    (hr : s.produced[k]? = some r) : s'.Handed k r ↔ s.Handed k r ∨ k = j := by
  have hrd : ofThread t rd = true := by simp [ofThread, ht]
  unfold Handed
  rw [hproduced, hpushed, length_push]
  by_cases hthread : nlmGetThreadId r.cookie = t
  · rw [hthread, if_pos rfl, hlen]
    have hwant : ofThread t r = true := by simp [ofThread, hthread]
    constructor
    · intro hlt
      rcases Nat.lt_succ_iff_lt_or_eq.mp hlt with hlt | heq
      · exact .inl hlt
      · exact .inr (rank_injective hr hget hwant hrd heq)
    · rintro (hlt | rfl)
      · exact Nat.lt_succ_of_lt hlt
      · exact Nat.lt_succ_self _
  · rw [if_neg hthread, Nat.add_zero]
    refine ⟨.inl, fun hor ↦ hor.resolve_right ?_⟩
    rintro rfl
    rw [hget] at hr
    exact hthread (Option.some.inj hr ▸ ht)

end Push

theorem Inv.push (h : Inv size maxThreads s) {slot t : ℕ} (hpc : s.pc = .peeked c slot)
    (ht : nlmGetThreadId (s.outputFifo c.i).cookie = t) :
    Inv size maxThreads { s with
      fifos := Function.update s.fifos t ((s.fifos t).write slot (s.outputFifo c.i)).push
      pushed := Function.update s.pushed t (s.pushed t ++ [s.outputFifo c.i])
      pc := .pushed c } := by
  obtain ⟨hc, hi, rd, hget, hnot, hskip, hpeek⟩ : CursorOk size maxThreads s c ∧
      c.i < c.limit size s.outputRdPtr ∧ ∃ rd, s.produced[c.pos]? = some rd ∧
        ¬ s.Handed c.pos rd ∧ s.skip (nlmGetThreadId rd.cookie) = false ∧
        (s.fifos (nlmGetThreadId rd.cookie)).peekInput = some slot := by
    have hok := h.pc_ok
    rwa [hpc] at hok
  have hnone : s.unmarked = none := by rw [unmarked, hpc]
  have hmem : rd ∈ s.produced := List.mem_of_getElem? hget
  have hslot : s.outputFifo c.i = rd := by
    rw [← (hc.pos_lt h.rd_eq hi).2]
    exact h.intact c.pos rd hc.released_le_pos hget (.inl hnot)
  rw [hslot] at ht ⊢
  subst ht
  set t := nlmGetThreadId rd.cookie with ht
  have hrd : ofThread t rd = true := by simp [ofThread, ht]
  have hlen : (s.pushed t).length = rank (ofThread t) s.produced c.pos := by
    have hgot := hc.got t (h.produced_ok rd hmem).1 hskip
    unfold GotAll at hgot
    change ¬ rank (ofThread t) s.produced c.pos < (s.pushed t).length at hnot
    omega
  obtain ⟨hok, -, hcontents⟩ := (h.fifos_ok t).push_write hpeek rd
  set s' : OutputRun := { s with
    fifos := Function.update s.fifos t ((s.fifos t).write slot rd).push
    pushed := Function.update s.pushed t (s.pushed t ++ [rd])
    pc := .pushed c } with hs'
  have hgotAll : ∀ k i, s.GotAll k i → s'.GotAll k i := by
    intro k i hgot
    apply hgot.push
    · rfl
    · rfl
  -- one more RD has been handed over, the one at the cursor
  have hhanded : ∀ k r, s.produced[k]? = some r →
      (s'.Handed k r ↔ s.Handed k r ∨ k = c.pos) := by
    intro k r hr
    refine handed_push ?_ ?_ ht.symm hget hlen hr
    · rfl
    · rfl
  have hc' : CursorOk size maxThreads s' c :=
    ⟨hc.seen_gt, hc.seen_le, hc.seen_lt, hc.wrt_eq, hc.i_le, hc.first, hc.wrapped,
      fun i hi hfalse ↦ hgotAll _ _ (hc.got i hi hfalse),
      fun hno i ↦ hgotAll _ _ (hc.got_all hno i)⟩
  refine { h with
    fifos_ok := fun i ↦ ?_
    order := fun i ↦ ?_
    pushed_prefix := fun i ↦ ?_
    got_released := fun i ↦ hgotAll _ _ (h.got_released i)
    marked := fun k r hk hr hdone hne ↦ ?_
    intact := fun k r hk hr hor ↦ ?_
    pc_ok := ⟨hc', hi, rd, hget, (hhanded _ _ hget).mpr (.inr rfl)⟩ }
  · rcases eq_or_ne i t with rfl | hne
    · simp only [hs', Function.update_self]
      exact hok
    · simp only [hs', Function.update_of_ne hne]
      exact h.fifos_ok i
  · rcases eq_or_ne i t with rfl | hne
    · simp only [hs', Function.update_self]
      rw [hcontents, h.order, List.append_assoc]
    · simp only [hs', Function.update_of_ne hne]
      exact h.order i
  · rcases eq_or_ne i t with rfl | hne
    · simp only [hs', Function.update_self]
      exact snoc_prefix_filter (h.pushed_prefix _) hlen hget hrd
    · simp only [hs', Function.update_of_ne hne]
      exact h.pushed_prefix i
  · have hpos : k ≠ c.pos := fun heq ↦ hne (heq ▸ rfl)
    apply h.marked k r hk hr (((hhanded k r hr).mp hdone).resolve_right hpos)
    rw [hnone]
    exact (Option.some_ne_none k).symm
  · apply h.intact k r hk hr
    left
    rcases hor with hor | hor
    · exact fun hold ↦ hor ((hhanded k r hr).mpr (.inl hold))
    · obtain rfl : c.pos = k := Option.some.inj hor
      rw [hget] at hr
      obtain rfl := Option.some.inj hr
      exact hnot

theorem Inv.mark (h : Inv size maxThreads s) (hpc : s.pc = .pushed c) :
    Inv size maxThreads { s with
      outputFifo := Function.update s.outputFifo c.i (s.outputFifo c.i).mark
      pc := .scan (c.next false) } := by
  obtain ⟨hc, hi, rd, hget, hhanded⟩ : CursorOk size maxThreads s c ∧
      c.i < c.limit size s.outputRdPtr ∧
        ∃ rd, s.produced[c.pos]? = some rd ∧ s.Handed c.pos rd := by
    have hok := h.pc_ok
    rwa [hpc] at hok
  have hunmarked : s.unmarked = some c.pos := by rw [unmarked, hpc]
  have hmod := (hc.pos_lt h.rd_eq hi).2
  have hother : ∀ k, s.released ≤ k → k < s.produced.length → k ≠ c.pos →
      Function.update s.outputFifo c.i (s.outputFifo c.i).mark (k % size) =
        s.outputFifo (k % size) := by
    intro k hk hlt hne
    apply Function.update_of_ne
    rw [← hmod]
    have hlen := h.produced_lt
    have htold := h.told_le
    have hpos := hc.released_le_pos
    have hposlt := (List.getElem?_eq_some_iff.mp hget).1
    rcases Nat.lt_or_gt_of_ne hne with hlt' | hgt
    · exact mod_ne_of_lt hlt' (by omega)
    · exact (mod_ne_of_lt hgt (by omega)).symm
  have hok : CursorOk size maxThreads { s with
      outputFifo := Function.update s.outputFifo c.i (s.outputFifo c.i).mark
      pc := .scan (c.next false) } (c.next false) := by
    have hnext := hc.next h.rd_eq hi false s.skip s.pc
      (fun t ht hskip ↦ (hc.got t ht hskip).succ hget (.inr hhanded))
      fun hno _ t ↦ (hc.got_all hno t).succ hget (.inr hhanded)
    exact ⟨hnext.seen_gt, hnext.seen_le, hnext.seen_lt, hnext.wrt_eq, hnext.i_le, hnext.first,
      hnext.wrapped, hnext.got, hnext.got_all⟩
  refine { h with marked := fun k r hk hr hdone _ ↦ ?_, intact := fun k r hk hr hor ↦ ?_,
                  pc_ok := hok }
  · rcases eq_or_ne k c.pos with rfl | hne
    · simp only [hmod, Function.update_self]
      rfl
    · have hlt := (List.getElem?_eq_some_iff.mp hr).1
      simp only [hother k hk hlt hne]
      apply h.marked k r hk hr hdone
      rw [hunmarked]
      exact fun heq ↦ hne (Option.some.inj heq).symm
  · have hnot : ¬ s.Handed k r := hor.resolve_right (Option.some_ne_none k).symm
    rcases eq_or_ne k c.pos with rfl | hne
    · rw [hget] at hr
      obtain rfl := Option.some.inj hr
      exact absurd hhanded hnot
    · have hlt := (List.getElem?_eq_some_iff.mp hr).1
      simp only [hother k hk hlt hne]
      exact h.intact k r hk hr (.inl hnot)

/-- A pass that left no RD behind releases the window. -/
theorem Inv.update (h : Inv size maxThreads s) (hsize : FifoSizeOk size)
    (hpc : s.pc = .finish c) (hnew : c.noUpdate = false) :
    Inv size maxThreads { s with
      outputRdPtr := c.i &&& (size - 1)
      released := c.pos
      pc := .flush } := by
  obtain ⟨hc, hpos, hmod⟩ : CursorOk size maxThreads s c ∧ c.pos = c.seen ∧
      c.i % size = c.seen % size := by
    have hok := h.pc_ok
    rwa [hpc] at hok
  have hand : c.i &&& (size - 1) = c.i % size :=
    SwFifo.and_size_sub_one (f := (⟨size, 0, 0, fun _ ↦ ()⟩ : SwFifo Unit)) hsize c.i
  have hnone : s.unmarked = none := by rw [unmarked, hpc]
  have hle := hc.released_le_pos
  refine { h with
    rd_eq := ?_
    told_le := h.told_le.trans hle
    released_le := ?_
    got_released := hc.got_all hnew
    marked := fun k r hk hr hdone _ ↦ ?_
    intact := fun k r hk hr hor ↦ ?_
    pc_ok := trivial }
  · change c.i &&& (size - 1) = c.pos % size
    rw [hand, hmod, hpos]
  · change c.pos ≤ s.produced.length
    rw [hpos]
    exact hc.seen_le
  · apply h.marked k r (hle.trans hk) hr hdone
    rw [hnone]
    exact (Option.some_ne_none k).symm
  · exact h.intact k r (hle.trans hk) hr (.inl (hor.resolve_right (Option.some_ne_none k).symm))

theorem Inv.flush (h : Inv size maxThreads s) (hpc : s.pc = .flush) :
    Inv size maxThreads { s with
      rdfRdPtr := s.outputRdPtr
      told := s.released
      pc := .idle } := by
  have hnone : s.unmarked = none := by rw [unmarked, hpc]
  refine { h with
    rdf_eq := h.rd_eq
    told_le := le_rfl
    produced_lt := h.produced_lt.trans_le (Nat.add_le_add_right h.told_le size)
    marked := fun k r hk hr hdone _ ↦ ?_
    intact := fun k r hk hr hor ↦ ?_
    pc_ok := trivial }
  · apply h.marked k r hk hr hdone
    rw [hnone]
    exact (Option.some_ne_none k).symm
  · exact h.intact k r hk hr (.inl (hor.resolve_right (Option.some_ne_none k).symm))

/-- The state behind an RD that the hardware appends. -/
def withRd (s : OutputRun) (size : ℕ) (rd : HwResultDescriptor) : OutputRun :=
  { s with
    outputFifo := Function.update s.outputFifo s.outputWrtPtr rd
    outputWrtPtr := (s.outputWrtPtr + 1) % size
    produced := s.produced ++ [rd] }

section Append

variable {rd r : HwResultDescriptor} {k t : ℕ}

theorem GotAll.withRd (h : s.GotAll k t) (hk : k ≤ s.produced.length) :
    (s.withRd size rd).GotAll k t := by
  change rank (ofThread t) (s.produced ++ [rd]) k ≤ _
  rw [rank_length_append hk]
  exact h

theorem handed_withRd (hk : k ≤ s.produced.length) :
    (s.withRd size rd).Handed k r ↔ s.Handed k r := by
  change rank _ (s.produced ++ [rd]) k < _ ↔ _
  rw [rank_length_append hk]
  exact Iff.rfl

theorem getElem?_withRd (h : s.produced[k]? = some r) :
    (s.withRd size rd).produced[k]? = some r :=
  (List.getElem?_append_left (List.getElem?_eq_some_iff.mp h).1).trans h

theorem eq_of_getElem?_withRd (h : (s.withRd size rd).produced[k]? = some r) :
    k < s.produced.length ∧ s.produced[k]? = some r ∨ k = s.produced.length ∧ r = rd := by
  change (s.produced ++ [rd])[k]? = some r at h
  rcases Nat.lt_trichotomy k s.produced.length with hlt | heq | hgt
  · rw [List.getElem?_append_left hlt] at h
    exact .inl ⟨hlt, h⟩
  · rw [List.getElem?_append_right heq.ge, heq, Nat.sub_self] at h
    exact .inr ⟨heq, (Option.some.inj h).symm⟩
  · rw [List.getElem?_eq_none (by rw [List.length_append, List.length_singleton]; omega)] at h
    cases h

/-- The new RD is behind all that its thread has got. -/
theorem Inv.not_handed_withRd (h : Inv size maxThreads s) :
    ¬ (s.withRd size rd).Handed s.produced.length rd := by
  rw [handed_withRd le_rfl]
  unfold Handed
  rw [rank_length]
  exact Nat.not_lt.mpr (h.pushed_prefix _).length_le

theorem CursorOk.withRd (h : CursorOk size maxThreads s c)
    (hrd : s.outputRdPtr = s.released % size) : CursorOk size maxThreads (s.withRd size rd) c := by
  have hpos : c.pos ≤ s.produced.length := (h.pos_le hrd).trans h.seen_le
  refine ⟨h.seen_gt, ?_, h.seen_lt, h.wrt_eq, h.i_le, h.first, h.wrapped,
    fun t ht hskip ↦ (h.got t ht hskip).withRd hpos, fun hno t ↦ (h.got_all hno t).withRd hpos⟩
  change c.seen ≤ (s.produced ++ [rd]).length
  rw [List.length_append]
  exact h.seen_le.trans (Nat.le_add_right _ _)

theorem Inv.pcOk_withRd (h : Inv size maxThreads s) :
    PcOk size maxThreads (s.withRd size rd) s.pc := by
  have hok := h.pc_ok
  cases hpc : s.pc with
  | idle => trivial
  | scan c =>
    rw [hpc] at hok
    exact CursorOk.withRd hok h.rd_eq
  | peeked c slot =>
    rw [hpc] at hok
    obtain ⟨hc, hi, r, hr, hnot, hskip, hpeek⟩ := hok
    have hpos : c.pos ≤ s.produced.length := (List.getElem?_eq_some_iff.mp hr).1.le
    exact ⟨hc.withRd h.rd_eq, hi, r, getElem?_withRd hr, mt (handed_withRd hpos).mp hnot, hskip,
      hpeek⟩
  | pushed c =>
    rw [hpc] at hok
    obtain ⟨hc, hi, r, hr, hdone⟩ := hok
    have hpos : c.pos ≤ s.produced.length := (List.getElem?_eq_some_iff.mp hr).1.le
    exact ⟨hc.withRd h.rd_eq, hi, r, getElem?_withRd hr, (handed_withRd hpos).mpr hdone⟩
  | finish c =>
    rw [hpc] at hok
    exact ⟨hok.1.withRd h.rd_eq, hok.2⟩
  | flush => trivial

end Append

theorem Inv.append (h : Inv size maxThreads s) (rd : HwResultDescriptor)
    (hspace : (s.outputWrtPtr + 1) % size ≠ s.rdfRdPtr)
    (hthread : nlmGetThreadId rd.cookie < maxThreads) (hvalid : rd.u4 ≠ rdWasProcessed) :
    Inv size maxThreads { s with
      outputFifo := Function.update s.outputFifo s.outputWrtPtr rd
      outputWrtPtr := (s.outputWrtPtr + 1) % size
      produced := s.produced ++ [rd] } := by
  have htold := h.told_le
  have hrel := h.released_le
  have hlen := h.produced_lt
  have hroom : s.produced.length + 1 < s.told + size := by
    refine Nat.lt_of_le_of_ne hlen fun heq ↦ hspace ?_
    rw [h.wrt_eq, h.rdf_eq, Nat.mod_add_mod, heq, Nat.add_mod_right]
  have hslot : ∀ k, s.released ≤ k → k < s.produced.length →
      Function.update s.outputFifo s.outputWrtPtr rd (k % size) = s.outputFifo (k % size) := by
    intro k hk hlt
    apply Function.update_of_ne
    rw [h.wrt_eq]
    exact mod_ne_of_lt hlt (by omega)
  change Inv size maxThreads (s.withRd size rd)
  refine { h with
    pushed_prefix := fun t ↦ ?_
    produced_ok := fun r hr ↦ ?_
    wrt_eq := ?_
    released_le := ?_
    produced_lt := ?_
    got_released := fun t ↦ (h.got_released t).withRd hrel
    marked := fun k r hk hr hdone hne ↦ ?_
    intact := fun k r hk hr hor ↦ ?_
    pc_ok := h.pcOk_withRd }
  · exact (h.pushed_prefix t).trans ((List.prefix_append _ _).filter _)
  · rcases List.mem_append.mp hr with hr | hr
    · exact h.produced_ok r hr
    · rw [List.mem_singleton.mp hr]
      exact ⟨hthread, hvalid⟩
  · change (s.outputWrtPtr + 1) % size = (s.produced ++ [rd]).length % size
    rw [h.wrt_eq, Nat.mod_add_mod, List.length_append, List.length_singleton]
  · change s.released ≤ (s.produced ++ [rd]).length
    rw [List.length_append]
    exact hrel.trans (Nat.le_add_right _ _)
  · change (s.produced ++ [rd]).length < s.told + size
    rw [List.length_append, List.length_singleton]
    exact hroom
  · rcases eq_of_getElem?_withRd hr with ⟨hlt, hr⟩ | ⟨rfl, rfl⟩
    · change (Function.update s.outputFifo s.outputWrtPtr rd (k % size)).u4 = _
      rw [hslot k hk hlt]
      exact h.marked k r hk hr ((handed_withRd hlt.le).mp hdone) hne
    · exact absurd hdone h.not_handed_withRd
  · change Function.update s.outputFifo s.outputWrtPtr rd (k % size) = r
    rcases eq_of_getElem?_withRd hr with ⟨hlt, hr⟩ | ⟨rfl, rfl⟩
    · rw [hslot k hk hlt]
      apply h.intact k r hk hr
      exact hor.imp_left fun hnot hdone ↦ hnot ((handed_withRd hlt.le).mpr hdone)
    · rw [h.wrt_eq, Function.update_self]

theorem Inv.pop (h : Inv size maxThreads s) {t out : ℕ}
    (hpeek : (s.fifos t).peekOutput = some out) :
    Inv size maxThreads { s with
      fifos := Function.update s.fifos t (s.fifos t).pop
      popped := Function.update s.popped t (s.popped t ++ [(s.fifos t).buf out]) } := by
  have hfifo := h.fifos_ok t
  obtain ⟨hcount, hout⟩ := hfifo.peekOutput_eq_some.mp hpeek
  have hcontents := hfifo.contents_pop hcount
  have hpop := hfifo.pop hcount
  have hless := hfifo.count_pop hcount
  refine { h with
    fifos_ok := fun i ↦ ?_
    order := fun i ↦ ?_
    pc_ok := ?_ }
  · rcases eq_or_ne i t with rfl | hne
    · simp only [Function.update_self]
      exact hpop
    · simp only [Function.update_of_ne hne]
      exact h.fifos_ok i
  · have horder := h.order i
    rcases eq_or_ne i t with rfl | hne
    · simp only [Function.update_self]
      rw [horder, hcontents, hout, List.append_assoc, List.singleton_append]
    · simp only [Function.update_of_ne hne]
      exact horder
  · have hok := h.pc_ok
    change PcOk size maxThreads _ s.pc
    cases hpc : s.pc with
    | idle => trivial
    | scan c =>
      rw [hpc] at hok
      exact { hok with }
    | peeked c slot =>
      rw [hpc] at hok
      obtain ⟨hc, hi, r, hr, hnot, hskip, hslot⟩ := hok
      refine ⟨{ hc with }, hi, r, hr, hnot, hskip, ?_⟩
      change (Function.update s.fifos t (s.fifos t).pop (nlmGetThreadId r.cookie)).peekInput = _
      rcases eq_or_ne (nlmGetThreadId r.cookie) t with rfl | hne
      · rw [Function.update_self]
        obtain ⟨hlt, hin⟩ := hfifo.peekInput_eq_some.mp hslot
        have hsize : (s.fifos (nlmGetThreadId r.cookie)).pop.size =
            (s.fifos (nlmGetThreadId r.cookie)).size := rfl
        refine hpop.peekInput_eq_some.mpr ⟨by omega, ?_⟩
        rw [← hpop.in_mod, hsize]
        rw [← hfifo.in_mod] at hin
        exact hin
      · rw [Function.update_of_ne hne]
        exact hslot
    | pushed c =>
      rw [hpc] at hok
      exact ⟨{ hok.1 with }, hok.2⟩
    | finish c =>
      rw [hpc] at hok
      exact ⟨{ hok.1 with }, hok.2⟩
    | flush => trivial

theorem Inv.enter (h : Inv size maxThreads s) (hsize : 0 < size) (hpc : s.pc = .idle)
    (hne : s.outputRdPtr ≠ s.outputWrtPtr) :
    Inv size maxThreads { s with
      skip := fun t ↦ if t < maxThreads then false else s.skip t
      pc := .scan
        ⟨false, s.outputRdPtr, s.outputWrtPtr, false, s.released, s.produced.length⟩ } := by
  have hnone : s.unmarked = none := by rw [unmarked, hpc]
  have hlt : s.released < s.produced.length := by
    refine Nat.lt_of_le_of_ne h.released_le fun heq ↦ hne ?_
    rw [h.rd_eq, h.wrt_eq, heq]
  have htold := h.told_le
  have hlen := h.produced_lt
  apply h.withPc _ hnone rfl
  have hseen : s.produced.length < s.released + size := by omega
  refine ⟨hlt, le_rfl, hseen, h.wrt_eq, ?_, fun _ ↦ ⟨le_rfl, ?_⟩,
    fun hfalse ↦ Bool.noConfusion hfalse, fun t _ _ ↦ h.got_released t,
    fun _ t ↦ h.got_released t⟩
  · change s.outputRdPtr ≤ if s.outputRdPtr < s.outputWrtPtr then s.outputWrtPtr else size
    split
    · rename_i hlt
      exact hlt.le
    · rw [h.rd_eq]
      exact (Nat.mod_lt _ hsize).le
  · change s.released = s.released + (s.outputRdPtr - s.outputRdPtr)
    omega

theorem Inv.wrap (h : Inv size maxThreads s) (hpc : s.pc = .scan c)
    (hi : c.i = c.limit size s.outputRdPtr) (hsecond : c.second = false)
    (hwrap : ¬ s.outputRdPtr < c.wrtPtr) :
    Inv size maxThreads { s with pc := .scan { c with second := true, i := 0 } } := by
  have hc : CursorOk size maxThreads s c := by
    have hok := h.pc_ok
    rwa [hpc] at hok
  have hnone : s.unmarked = none := by rw [unmarked, hpc]
  have hpos := (hc.first hsecond).2
  unfold Cursor.limit at hi
  rw [hsecond, if_neg (by decide), if_neg hwrap] at hi
  apply h.withPc s.skip hnone rfl
  refine ⟨hc.seen_gt, hc.seen_le, hc.seen_lt, hc.wrt_eq, Nat.zero_le _,
    fun hfalse ↦ Bool.noConfusion hfalse, fun _ ↦ ⟨hwrap, ?_⟩, hc.got, hc.got_all⟩
  rw [hpos, hi]
  rfl

theorem Inv.step (h : Inv size maxThreads s) (hsize : FifoSizeOk size)
    (hstep : OutputStep size maxThreads s s') : Inv size maxThreads s' := by
  have hpos := Nat.pos_of_ne_zero hsize.1
  have hok := h.pc_ok
  cases hstep with
  | enter hpc hne => exact h.enter hpos hpc hne
  | processed hpc hi hmark => exact h.processed hpc hi hmark
  | skipped hpc hi hmark hskip => exact h.kept hpc hi hmark hskip fun _ _ ↦ rfl
  | full hpc hi hmark hskip hpeek =>
    exact h.kept hpc hi hmark (Function.update_self ..) fun t ht ↦ Function.update_of_ne ht ..
  | peek hpc hi hmark hskip hpeek => exact h.peek hpc hi hmark hskip hpeek
  | push hpc ht => exact h.push hpc ht
  | mark hpc => exact h.mark hpc
  | wrap hpc hi hsecond hwrap => exact h.wrap hpc hi hsecond hwrap
  | done hpc hi hlast =>
    rw [hpc] at hok
    have hnone : s.unmarked = none := by rw [unmarked, hpc]
    apply h.withPc s.skip hnone rfl
    exact ⟨{ hok with }, hok.pos_eq h.rd_eq hi hlast⟩
  | keep hpc hkeep =>
    have hnone : s.unmarked = none := by rw [unmarked, hpc]
    exact h.withPc s.skip hnone rfl trivial
  | update hpc hnew hne => exact h.update hsize hpc hnew
  | flush hpc => exact h.flush hpc
  | append rd hspace hthread hvalid => exact h.append rd hspace hthread hvalid
  | pop hpeek => exact h.pop hpeek

theorem inv_start {fifoSize : ℕ} (hsize : 0 < size) (hfifo : FifoSizeOk fifoSize) :
    Inv size maxThreads (start fifoSize) where
  fifos_ok := fun _ ↦ SwFifo.init_ok hfifo _
  order := fun _ ↦ (SwFifo.contents_init fifoSize HwResultDescriptor.zero).symm
  pushed_prefix := fun _ ↦ List.nil_prefix
  produced_ok := fun _ hrd ↦ absurd hrd List.not_mem_nil
  rd_eq := (Nat.zero_mod size).symm
  rdf_eq := (Nat.zero_mod size).symm
  wrt_eq := (Nat.zero_mod size).symm
  told_le := le_rfl
  released_le := le_rfl
  produced_lt := hsize.trans_eq (Nat.zero_add size).symm
  got_released := fun _ ↦ le_rfl
  marked := fun _ _ _ hget ↦ by cases hget
  intact := fun _ _ _ hget ↦ by cases hget
  pc_ok := trivial

theorem Reaches.inv {fifoSize : ℕ} (hrun : Reaches size maxThreads (start fifoSize) s)
    (hsize : FifoSizeOk size) (hfifo : FifoSizeOk fifoSize) : Inv size maxThreads s := by
  induction hrun with
  | refl => exact inv_start (Nat.pos_of_ne_zero hsize.1) hfifo
  | tail _ hstep ih => exact ih.step hsize hstep

/-- Whatever the order of the steps of the manager thread, the hardware and the
threads: what has been pushed to a thread's FIFO is a prefix of the thread's RDs
in the order of the hardware, the thread pops it in that order, and the read
pointers, the one of the software and the one that the hardware knows, have only
passed RDs that have been pushed. -/
theorem manageOutput_in_order {fifoSize : ℕ} (hsize : FifoSizeOk size)
    (hfifo : FifoSizeOk fifoSize) (hrun : Reaches size maxThreads (start fifoSize) s) :
    (∀ t, s.pushed t <+: s.produced.filter (ofThread t)) ∧
      (∀ t, s.pushed t = s.popped t ++ (s.fifos t).contents) ∧
      (∀ t, (s.produced.take s.released).filter (ofThread t) <+: s.pushed t) ∧
      s.outputRdPtr = s.released % size ∧ s.rdfRdPtr = s.told % size ∧
      s.told ≤ s.released ∧ s.released ≤ s.produced.length ∧
      s.produced.length < s.told + size := by
  have h := hrun.inv hsize hfifo
  refine ⟨h.pushed_prefix, h.order, fun t ↦ ?_, h.rd_eq, h.rdf_eq, h.told_le, h.released_le,
    h.produced_lt⟩
  exact filter_take_prefix (h.pushed_prefix t) (h.got_released t)

/-- An RD of thread 0 is handed over. -/
theorem manageOutput_in_order_sample :
    FifoSizeOk 2 ∧ FifoSizeOk 1 ∧ ∃ s, Reaches 2 1 (start 1) s ∧
      (s.pushed 0).length = 1 ∧ s.pushed 0 <+: s.produced.filter (ofThread 0) := by
  have happend : OutputStep 2 1 (start 1) _ :=
    .append ⟨0, 1, 0, 2 ^ 31⟩ (by decide) (by decide) (by decide)
  have henter : OutputStep 2 1 { start 1 with
      outputFifo := Function.update (start 1).outputFifo 0 ⟨0, 1, 0, 2 ^ 31⟩
      outputWrtPtr := 1
      produced := [⟨0, 1, 0, 2 ^ 31⟩] } _ := .enter rfl (by decide)
  have hpeek : OutputStep 2 1 { start 1 with
      skip := fun t ↦ if t < 1 then false else false
      outputFifo := Function.update (start 1).outputFifo 0 ⟨0, 1, 0, 2 ^ 31⟩
      outputWrtPtr := 1
      pc := .scan ⟨false, 0, 1, false, 0, 1⟩
      produced := [⟨0, 1, 0, 2 ^ 31⟩] } _ :=
    .peek (c := ⟨false, 0, 1, false, 0, 1⟩) rfl (by decide) (by decide) rfl rfl
  have hpush : OutputStep 2 1 { start 1 with
      skip := fun t ↦ if t < 1 then false else false
      outputFifo := Function.update (start 1).outputFifo 0 ⟨0, 1, 0, 2 ^ 31⟩
      outputWrtPtr := 1
      pc := .peeked ⟨false, 0, 1, false, 0, 1⟩ 0
      produced := [⟨0, 1, 0, 2 ^ 31⟩] } _ := .push rfl rfl
  have hrun : Reaches 2 1 (start 1) _ :=
    (((Relation.ReflTransGen.refl.tail happend).tail henter).tail hpeek).tail hpush
  have hin := (manageOutput_in_order (by decide) (by decide) hrun).1 0
  exact ⟨by decide, by decide, _, hrun, rfl, hin⟩

end OutputRun

end NetL7.Packet
