import NetL7.Lib.RingWindow
import Mathlib.Algebra.Group.Nat.Units
import Mathlib.Logic.Relation

/-!
# The software FIFOs

The single-producer single-consumer FIFOs between a thread and the manager
thread. The counters `in` and `out` are free-running 32-bit words. The job FIFO
and the result FIFO are the same code on different elements.
-/

namespace NetL7.Packet

open NetL7.Lib

/-- `NLM_MAX_INPUT_FIFO_SIZE` and `NLM_MAX_OUTPUT_FIFO_SIZE` -/
abbrev nlmMaxFifoSize : ℕ := 64 * 1024 * 1024

/-- The checks of `nlm_device_init_1` on the size of a FIFO. -/
def FifoSizeOk (size : ℕ) : Prop :=
  size ≠ 0 ∧ size ≤ nlmMaxFifoSize ∧ size &&& (size - 1) = 0

instance (size : ℕ) : Decidable (FifoSizeOk size) := by
  unfold FifoSizeOk
  infer_instance

/-- `struct nlm_job_fifo`, and `struct nlm_result_fifo` but for its skip bit. -/
structure SwFifo (α : Type*) where
  size : ℕ
  inPtr : ℕ
  outPtr : ℕ
  buf : ℕ → α

namespace SwFifo

variable {α : Type*}

/-- `job_fifo_init` and `result_fifo_init` on a zeroed buffer. -/
def init (size : ℕ) (zero : α) : SwFifo α := ⟨size, 0, 0, fun _ ↦ zero⟩

/-- `job_fifo_free` -/
def free (f : SwFifo α) : ℕ :=
  (2 ^ 32 + f.size - f.inPtr + f.outPtr) % 2 ^ 32

/-- `peek_job_fifo_input` and `peek_result_fifo_input`: the slot to fill, or
`NULL`. -/
def peekInput (f : SwFifo α) : Option ℕ :=
  if f.free = 0 then none else some (f.inPtr &&& (f.size - 1))

/-- `push_job_fifo` and `push_result_fifo` -/
def push (f : SwFifo α) : SwFifo α := { f with inPtr := (f.inPtr + 1) % 2 ^ 32 }

/-- `peek_job_fifo_output` and `peek_result_fifo_output`: the slot to read, or
`NULL`. -/
def peekOutput (f : SwFifo α) : Option ℕ :=
  if f.inPtr = f.outPtr then none else some (f.outPtr &&& (f.size - 1))

/-- `pop_job_fifo` and `pop_result_fifo` -/
def pop (f : SwFifo α) : SwFifo α := { f with outPtr := (f.outPtr + 1) % 2 ^ 32 }

/-- `job_fifo_empty` -/
def empty (f : SwFifo α) : Bool := f.inPtr == f.outPtr

/-- Stores a value into a slot. -/
def write (f : SwFifo α) (slot : ℕ) (v : α) : SwFifo α :=
  { f with buf := Function.update f.buf slot v }

/-! ## The queue a FIFO holds -/

/-- The number of elements pushed and not yet popped. -/
def count (f : SwFifo α) : ℕ := (2 ^ 32 + f.inPtr - f.outPtr) % 2 ^ 32

/-- The elements pushed and not yet popped, oldest first. -/
def contents (f : SwFifo α) : List α := window f.size f.buf f.outPtr f.count

/-- The consumer pops up to `n` elements. -/
def popMany (f : SwFifo α) (n : ℕ) : SwFifo α :=
  { f with outPtr := (f.outPtr + min n f.count) % 2 ^ 32 }

/-- The counters are words and the FIFO is not overfull. -/
structure Ok (f : SwFifo α) : Prop where
  size_ok : FifoSizeOk f.size
  in_lt : f.inPtr < 2 ^ 32
  out_lt : f.outPtr < 2 ^ 32
  count_le : f.count ≤ f.size

variable {f : SwFifo α}

@[simp] theorem contents_length (f : SwFifo α) : f.contents.length = f.count := window_length

@[simp] theorem count_write (f : SwFifo α) (slot : ℕ) (v : α) :
    (f.write slot v).count = f.count := rfl

@[simp] theorem count_init (size : ℕ) (zero : α) : (init size zero).count = 0 := by
  simp [init, count]

@[simp] theorem contents_init (size : ℕ) (zero : α) : (init size zero).contents = [] := by
  rw [contents, count_init, window_zero]

theorem init_ok {size : ℕ} (h : FifoSizeOk size) (zero : α) : (init size zero).Ok where
  size_ok := h
  in_lt := Nat.two_pow_pos 32
  out_lt := Nat.two_pow_pos 32
  count_le := by
    rw [count_init]
    exact Nat.zero_le _

theorem exists_size_eq (h : FifoSizeOk f.size) : ∃ k ≤ 26, f.size = 2 ^ k := by
  obtain ⟨hne, hle, hand⟩ := h
  obtain ⟨k, hk⟩ := Nat.ne_zero_and_sub_one_eq_zero_iff_isPowerOfTwo.mp ⟨hne, hand⟩
  refine ⟨k, ?_, hk⟩
  rw [hk] at hle
  exact (Nat.pow_le_pow_iff_right (by decide)).mp (hle.trans (by decide : _ ≤ 2 ^ 26))

theorem size_dvd (h : FifoSizeOk f.size) : f.size ∣ 2 ^ 32 := by
  obtain ⟨k, hk, hsize⟩ := exists_size_eq h
  rw [hsize]
  exact Nat.pow_dvd_pow 2 (hk.trans (by decide))

theorem and_size_sub_one (h : FifoSizeOk f.size) (x : ℕ) :
    x &&& (f.size - 1) = x % f.size := by
  obtain ⟨k, -, hsize⟩ := exists_size_eq h
  rw [hsize]
  exact Nat.and_two_pow_sub_one_eq_mod x k

namespace Ok

variable (h : f.Ok)

include h

theorem size_lt : f.size < 2 ^ 32 := h.size_ok.2.1.trans_lt (by decide)

/-- The input counter is the output counter plus the number of elements. -/
theorem in_eq : f.inPtr = (f.outPtr + f.count) % 2 ^ 32 := by
  have hin := h.in_lt
  have hout := h.out_lt
  unfold count
  omega

theorem in_mod : f.inPtr % f.size = (f.outPtr + f.count) % f.size := by
  rw [h.in_eq, Nat.mod_mod_of_dvd _ (size_dvd h.size_ok)]

/-- `job_fifo_free` is what the queue leaves of the capacity. -/
theorem free_eq : f.free = f.size - f.count := by
  have hin := h.in_lt
  have hout := h.out_lt
  have hcount := h.count_le
  have hsize := h.size_lt
  unfold free
  unfold count at hcount ⊢
  omega

theorem count_eq_zero : f.count = 0 ↔ f.inPtr = f.outPtr := by
  have hin := h.in_lt
  have hout := h.out_lt
  unfold count
  omega

theorem peekInput_eq_none : f.peekInput = none ↔ f.count = f.size := by
  have hcount := h.count_le
  unfold peekInput
  rw [h.free_eq]
  split <;> simp <;> omega

theorem peekInput_eq_some {slot : ℕ} :
    f.peekInput = some slot ↔ f.count < f.size ∧ slot = (f.outPtr + f.count) % f.size := by
  have hcount := h.count_le
  unfold peekInput
  rw [h.free_eq, and_size_sub_one h.size_ok, h.in_mod]
  split
  · simp
    omega
  · simp only [Option.some.injEq, eq_comm (b := slot)]
    exact ⟨fun hslot ↦ ⟨by omega, hslot⟩, fun hslot ↦ hslot.2⟩

theorem peekOutput_eq_none : f.peekOutput = none ↔ f.count = 0 := by
  rw [h.count_eq_zero]
  unfold peekOutput
  split <;> simp [*]

theorem peekOutput_eq_some {slot : ℕ} :
    f.peekOutput = some slot ↔ 0 < f.count ∧ slot = f.outPtr % f.size := by
  have hzero := h.count_eq_zero
  unfold peekOutput
  rw [and_size_sub_one h.size_ok]
  split
  · rename_i heq
    simp [hzero.mpr heq]
  · rename_i hne
    have hpos : 0 < f.count := Nat.pos_of_ne_zero fun hz ↦ hne (hzero.mp hz)
    simp [hpos, eq_comm (b := slot)]

theorem empty_iff : f.empty = true ↔ f.contents = [] := by
  rw [← List.length_eq_zero_iff, contents_length, h.count_eq_zero]
  simp [empty]

/-! ### Operations -/

theorem write (slot : ℕ) (v : α) : (f.write slot v).Ok :=
  ⟨h.size_ok, h.in_lt, h.out_lt, h.count_le⟩

omit h in
theorem contents_write (hcount : f.count < f.size) (v : α) :
    (f.write ((f.outPtr + f.count) % f.size) v).contents = f.contents :=
  window_update hcount v

theorem count_push (hcount : f.count < f.size) : f.push.count = f.count + 1 := by
  have hin := h.in_lt
  have hout := h.out_lt
  have hsize := h.size_lt
  unfold push count at *
  simp only at *
  omega

theorem push (hcount : f.count < f.size) : f.push.Ok :=
  ⟨h.size_ok, Nat.mod_lt _ (by decide), h.out_lt, (h.count_push hcount).trans_le hcount⟩

theorem contents_push (hcount : f.count < f.size) :
    f.push.contents = f.contents ++ [f.buf ((f.outPtr + f.count) % f.size)] := by
  unfold contents
  rw [h.count_push hcount]
  exact window_snoc

/-- A value written to the free slot and pushed comes behind the others. -/
theorem push_write {slot : ℕ} (hpeek : f.peekInput = some slot) (v : α) :
    (f.write slot v).push.Ok ∧ (f.write slot v).push.count = f.count + 1 ∧
      (f.write slot v).push.contents = f.contents ++ [v] := by
  obtain ⟨hcount, rfl⟩ := h.peekInput_eq_some.mp hpeek
  have hwrite := h.write ((f.outPtr + f.count) % f.size) v
  have hspace : (f.write ((f.outPtr + f.count) % f.size) v).count <
      (f.write ((f.outPtr + f.count) % f.size) v).size := by
    rw [count_write]
    exact hcount
  refine ⟨hwrite.push hspace, ?_, ?_⟩
  · rw [hwrite.count_push hspace, count_write]
  · rw [hwrite.contents_push hspace, contents_write hcount]
    congr 2
    exact Function.update_self ..

theorem count_pop (hcount : 0 < f.count) : f.pop.count + 1 = f.count := by
  have hin := h.in_lt
  have hout := h.out_lt
  unfold pop count at *
  simp only at *
  omega

theorem pop (hcount : 0 < f.count) : f.pop.Ok := by
  refine ⟨h.size_ok, h.in_lt, Nat.mod_lt _ (by decide), ?_⟩
  have hpop := h.count_pop hcount
  have hle := h.count_le
  change f.pop.count ≤ f.size
  omega

theorem pop_out_mod : f.pop.outPtr % f.size = (f.outPtr + 1) % f.size := by
  change (f.outPtr + 1) % 2 ^ 32 % f.size = _
  rw [Nat.mod_mod_of_dvd _ (size_dvd h.size_ok)]

theorem contents_pop (hcount : 0 < f.count) :
    f.contents = f.buf (f.outPtr % f.size) :: f.pop.contents := by
  have hpop := h.count_pop hcount
  unfold contents
  rw [← hpop, window_cons]
  congr 1
  exact (window_of_mod_eq h.pop_out_mod).symm

theorem count_popMany (n : ℕ) : (f.popMany n).count = f.count - n := by
  have hin := h.in_lt
  have hout := h.out_lt
  have hle := h.count_le
  unfold popMany
  unfold count at hle ⊢
  simp only
  omega

theorem popMany (n : ℕ) : (f.popMany n).Ok := by
  refine ⟨h.size_ok, h.in_lt, Nat.mod_lt _ (by decide), ?_⟩
  rw [h.count_popMany]
  exact (Nat.sub_le _ _).trans h.count_le

end Ok

end SwFifo

/-! ## Two threads at work -/

/-- Where the producer stands: it may hold the slot that `peek` granted. -/
inductive Producer
  | idle
  | holding (slot : ℕ)

/-- Where the consumer stands: it may hold a slot, and the value read from it. -/
inductive Consumer (α : Type*)
  | idle
  | holding (slot : ℕ)
  | read (v : α)

/-- A FIFO in use. `pushed` and `popped` record the values pushed and the values
that the consumer read before it popped. -/
structure FifoRun (α : Type*) where
  fifo : SwFifo α
  producer : Producer
  consumer : Consumer α
  pushed : List α
  popped : List α

/-- A FIFO that both threads are about to use. -/
def FifoRun.start {α : Type*} (f : SwFifo α) : FifoRun α := ⟨f, .idle, .idle, [], []⟩

/-- One step of either thread. -/
inductive FifoStep {α : Type*} : FifoRun α → FifoRun α → Prop
  | peekInput {r : FifoRun α} {slot : ℕ} (hpc : r.producer = .idle)
      (hpeek : r.fifo.peekInput = some slot) :
      FifoStep r { r with producer := .holding slot }
  | write {r : FifoRun α} {slot : ℕ} (hpc : r.producer = .holding slot) (v : α) :
      FifoStep r { r with fifo := r.fifo.write slot v }
  | push {r : FifoRun α} {slot : ℕ} (hpc : r.producer = .holding slot) :
      FifoStep r { r with
        fifo := r.fifo.push
        producer := .idle
        pushed := r.pushed ++ [r.fifo.buf slot] }
  | peekOutput {r : FifoRun α} {slot : ℕ} (hpc : r.consumer = .idle)
      (hpeek : r.fifo.peekOutput = some slot) :
      FifoStep r { r with consumer := .holding slot }
  | read {r : FifoRun α} {slot : ℕ} (hpc : r.consumer = .holding slot) :
      FifoStep r { r with consumer := .read (r.fifo.buf slot) }
  | pop {r : FifoRun α} {v : α} (hpc : r.consumer = .read v) :
      FifoStep r { r with
        fifo := r.fifo.pop
        consumer := .idle
        popped := r.popped ++ [v] }

/-- What the producer relies on: its slot is the free one behind the queue. -/
def Producer.Ok {α : Type*} (f : SwFifo α) : Producer → Prop
  | .idle => True
  | .holding slot => f.count < f.size ∧ slot = (f.outPtr + f.count) % f.size

/-- What the consumer relies on: its slot is the oldest one of the queue. -/
def Consumer.Ok {α : Type*} (f : SwFifo α) : Consumer α → Prop
  | .idle => True
  | .holding slot => 0 < f.count ∧ slot = f.outPtr % f.size
  | .read v => 0 < f.count ∧ v = f.buf (f.outPtr % f.size)

/-- The invariant of a FIFO in use; `before` is what it held at the start. -/
structure FifoInv {α : Type*} (size : ℕ) (before : List α) (r : FifoRun α) : Prop where
  fifo : r.fifo.Ok
  size_eq : r.fifo.size = size
  producer : r.producer.Ok r.fifo
  consumer : r.consumer.Ok r.fifo
  order : r.popped ++ r.fifo.contents = before ++ r.pushed

/-- A bounded queue: nothing happens, a value is appended while there is space,
or the oldest value is removed. -/
inductive BoundedQueueStep {α : Type*} (size : ℕ) : List α → List α → Prop
  | stutter (q : List α) : BoundedQueueStep size q q
  | enqueue {q : List α} (v : α) (h : q.length < size) : BoundedQueueStep size q (q ++ [v])
  | dequeue (v : α) (q : List α) : BoundedQueueStep size (v :: q) q

variable {α : Type*} {size : ℕ} {before : List α} {r r' : FifoRun α}

/-- A step keeps the invariant and is a step of the bounded queue. -/
theorem FifoInv.step (h : FifoInv size before r) (hstep : FifoStep r r') :
    FifoInv size before r' ∧
      BoundedQueueStep size r.fifo.contents r'.fifo.contents := by
  obtain ⟨hok, rfl, hproducer, hconsumer, horder⟩ := h
  cases hstep with
  | peekInput hpc hpeek =>
    exact ⟨⟨hok, rfl, hok.peekInput_eq_some.mp hpeek, hconsumer, horder⟩, .stutter _⟩
  | @write slot hpc v =>
    rw [hpc] at hproducer
    obtain ⟨hcount, rfl⟩ := hproducer
    have hcontents := SwFifo.Ok.contents_write hcount v
    refine ⟨⟨hok.write _ v, rfl, ?_, ?_, hcontents.symm ▸ horder⟩, ?_⟩
    · change r.producer.Ok _
      rw [hpc]
      exact ⟨hcount, rfl⟩
    · -- the slot of the consumer is another one
      have hslot : 0 < r.fifo.count →
          r.fifo.outPtr % r.fifo.size ≠ (r.fifo.outPtr + r.fifo.count) % r.fifo.size :=
        fun hpos ↦ slot_ne (i := 0) hpos (by omega)
      change r.consumer.Ok _
      rcases hc : r.consumer with _ | slot | v'
      · trivial
      · rw [hc] at hconsumer
        exact hconsumer
      · rw [hc] at hconsumer
        refine ⟨hconsumer.1, hconsumer.2.trans ?_⟩
        exact (Function.update_of_ne (hslot hconsumer.1) _ _).symm
    · rw [hcontents]
      exact .stutter _
  | @push slot hpc =>
    rw [hpc] at hproducer
    obtain ⟨hcount, rfl⟩ := hproducer
    have hcontents := hok.contents_push hcount
    refine ⟨⟨hok.push hcount, rfl, trivial, ?_, ?_⟩, ?_⟩
    · change r.consumer.Ok _
      have hpos : 0 < r.fifo.push.count := by
        rw [hok.count_push hcount]
        omega
      rcases hc : r.consumer with _ | slot | v'
      · trivial
      · rw [hc] at hconsumer
        exact ⟨hpos, hconsumer.2⟩
      · rw [hc] at hconsumer
        exact ⟨hpos, hconsumer.2⟩
    · change r.popped ++ r.fifo.push.contents = before ++ (r.pushed ++ _)
      rw [hcontents, ← List.append_assoc, horder, List.append_assoc]
    · change BoundedQueueStep _ _ r.fifo.push.contents
      rw [hcontents]
      exact .enqueue _ (by simpa using hcount)
  | peekOutput hpc hpeek =>
    exact ⟨⟨hok, rfl, hproducer, hok.peekOutput_eq_some.mp hpeek, horder⟩, .stutter _⟩
  | read hpc =>
    rw [hpc] at hconsumer
    obtain ⟨hcount, rfl⟩ := hconsumer
    exact ⟨⟨hok, rfl, hproducer, ⟨hcount, rfl⟩, horder⟩, .stutter _⟩
  | @pop v hpc =>
    rw [hpc] at hconsumer
    obtain ⟨hcount, rfl⟩ := hconsumer
    have hcontents := hok.contents_pop hcount
    have hpop := hok.count_pop hcount
    refine ⟨⟨hok.pop hcount, rfl, ?_, trivial, ?_⟩, ?_⟩
    · change r.producer.Ok _
      rcases hp : r.producer with _ | slot
      · trivial
      · rw [hp] at hproducer
        obtain ⟨hlt, rfl⟩ := hproducer
        refine ⟨?_, ?_⟩
        · change r.fifo.pop.count < r.fifo.size
          omega
        · change _ = (r.fifo.pop.outPtr + r.fifo.pop.count) % r.fifo.size
          rw [Nat.add_mod r.fifo.pop.outPtr, hok.pop_out_mod, ← Nat.add_mod, Nat.add_assoc,
            Nat.add_comm 1, hpop]
    · change (r.popped ++ [_]) ++ r.fifo.pop.contents = _
      rw [List.append_assoc, List.singleton_append, ← hcontents, horder]
    · change BoundedQueueStep _ _ r.fifo.pop.contents
      rw [hcontents]
      exact .dequeue _ _

theorem FifoInv.run (h : FifoInv size before r) (hrun : Relation.ReflTransGen FifoStep r r') :
    FifoInv size before r' := by
  induction hrun with
  | refl => exact h
  | tail _ hstep ih => exact (ih.step hstep).1

theorem fifoInv_start {f : SwFifo α} (h : f.Ok) :
    FifoInv f.size f.contents (FifoRun.start f) := by
  refine ⟨h, rfl, trivial, trivial, ?_⟩
  change [] ++ f.contents = f.contents ++ []
  rw [List.nil_append, List.append_nil]

/-- Whatever the two threads do, and however often the counters wrap, the FIFO
is a bounded queue of capacity `size`: values come out in the order in which
they were pushed, the peeks tell full and empty exactly, the producer never
holds a slot of an unread element, and every step is a step of the queue. -/
theorem fifo_refines_bounded_queue {f : SwFifo α} (h : f.Ok)
    (hrun : Relation.ReflTransGen FifoStep (FifoRun.start f) r) :
    r.popped ++ r.fifo.contents = f.contents ++ r.pushed ∧
      r.fifo.contents.length ≤ f.size ∧
      (r.fifo.peekInput = none ↔ r.fifo.contents.length = f.size) ∧
      (r.fifo.peekOutput = none ↔ r.fifo.contents = []) ∧
      (r.fifo.empty = true ↔ r.fifo.contents = []) ∧
      r.fifo.free = f.size - r.fifo.contents.length ∧
      (∀ slot, r.producer = .holding slot → ∀ i < r.fifo.contents.length,
        slot ≠ (r.fifo.outPtr + i) % f.size) ∧
      ∀ r', FifoStep r r' →
        BoundedQueueStep f.size r.fifo.contents r'.fifo.contents := by
  have hinv := (fifoInv_start h).run hrun
  obtain ⟨hok, hsize, hproducer, -, horder⟩ := hinv
  refine ⟨horder, ?_, ?_, ?_, hok.empty_iff, ?_, fun slot hpc i hi ↦ ?_,
    fun r' hstep ↦ ?_⟩
  · rw [SwFifo.contents_length, ← hsize]
    exact hok.count_le
  · rw [SwFifo.contents_length, ← hsize]
    exact hok.peekInput_eq_none
  · rw [hok.peekOutput_eq_none, ← List.length_eq_zero_iff, SwFifo.contents_length]
  · rw [SwFifo.contents_length, ← hsize]
    exact hok.free_eq
  · rw [hpc] at hproducer
    obtain ⟨hcount, rfl⟩ := hproducer
    rw [SwFifo.contents_length] at hi
    rw [← hsize]
    exact (slot_ne hi (by omega)).symm
  · exact (((fifoInv_start h).run hrun).step hstep).2

/-- Two slots whose counters are about to wrap. -/
def wrappingFifo : SwFifo ℕ := ⟨2, 2 ^ 32 - 1, 2 ^ 32 - 1, fun _ ↦ 0⟩

theorem wrappingFifo_ok : wrappingFifo.Ok :=
  ⟨by decide, by decide, by decide, by decide⟩

theorem fifo_refines_bounded_queue_sample :
    wrappingFifo.Ok ∧ ∃ r, Relation.ReflTransGen FifoStep (FifoRun.start wrappingFifo) r ∧
      r.pushed = [7] ∧ r.popped ++ r.fifo.contents = wrappingFifo.contents ++ r.pushed := by
  have hpeek : FifoStep (FifoRun.start wrappingFifo)
      { FifoRun.start wrappingFifo with producer := .holding 1 } :=
    .peekInput rfl (by decide)
  have hwrite : FifoStep { FifoRun.start wrappingFifo with producer := .holding 1 }
      { FifoRun.start wrappingFifo with
        fifo := wrappingFifo.write 1 7
        producer := .holding 1 } :=
    .write rfl 7
  have hpush : FifoStep { FifoRun.start wrappingFifo with
        fifo := wrappingFifo.write 1 7
        producer := .holding 1 } _ :=
    .push rfl
  have hrun := ((Relation.ReflTransGen.refl.tail hpeek).tail hwrite).tail hpush
  exact ⟨wrappingFifo_ok, _, hrun, rfl, (fifo_refines_bounded_queue wrappingFifo_ok hrun).1⟩

end NetL7.Packet
