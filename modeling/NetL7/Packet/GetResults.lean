import NetL7.Packet.FlowOffset
import NetL7.Packet.ManageOutput

/-!
# Threads that share the output ring

Without a manager thread every thread looks for its RDs in the ring itself, under a lock. It
marks those that it has interpreted, leaves the RDs of other threads where they are, and moves
the read pointer if it has left none behind.
-/

namespace NetL7.Packet

open NetL7.Lib OutputRun

/-- The output ring and the threads that share it. `got` are the RDs that a thread has
interpreted; `kept` are the ones among them that it did not mark. `produced` are the RDs that
the hardware wrote, of which the first `released` are behind the read pointer. -/
structure DirectRun where
  threads : ℕ → Thread
  outputFifo : ℕ → HwResultDescriptor
  outputRdPtr : ℕ
  outputWrtPtr : ℕ
  produced : List HwResultDescriptor
  got : ℕ → List HwResultDescriptor
  kept : List HwResultDescriptor
  released : ℕ

/-- A match at the end of the data. `populate_results` does not mark it if its flow has
errored. -/
def HwResultDescriptor.IsLate (rd : HwResultDescriptor) : Prop :=
  rd.resultType = fmsMatchResult ∧ rd.endAnchor = true

/-- The variables of a call. `pos` counts the RDs since the start of the hardware. -/
structure Scan where
  run : DirectRun
  buf : List NlmResult
  noUpdate : Bool
  pos : ℕ

namespace DirectRun

/-- The threads when the ring has just been initialised. -/
def start (threads : ℕ → Thread) : DirectRun where
  threads := threads
  outputFifo := fun _ ↦ .zero
  outputRdPtr := 0
  outputWrtPtr := 0
  produced := []
  got := fun _ ↦ []
  kept := []
  released := 0

/-- Thread `t` has interpreted the RD in slot `i`. -/
def interpreted (s : DirectRun) (t i : ℕ) (thread : Thread) (mark : Bool) : DirectRun :=
  { s with
    threads := Function.update s.threads t thread
    outputFifo :=
      if mark then Function.update s.outputFifo i (s.outputFifo i).mark else s.outputFifo
    got := Function.update s.got t (s.got t ++ [s.outputFifo i])
    kept := if mark then s.kept else s.kept ++ [s.outputFifo i] }

end DirectRun

namespace Scan

/-- `consume_rd_for_thread` on the RD in slot `i`. -/
def consumeRdForThread (c : Scan) (t i : ℕ) : Except ResultFault Scan :=
  if (c.run.outputFifo i).u4 = rdWasProcessed then .ok c
  else do
    resultAssert ((c.run.outputFifo i).cookie != 0) .zeroCookie
    if nlmGetThreadId (c.run.outputFifo i).cookie ≠ t then .ok { c with noUpdate := true }
    else do
      let (thread, result, mark) ← (c.run.threads t).populateResults (c.run.outputFifo i)
      .ok { c with
        run := c.run.interpreted t i thread mark
        buf := c.buf ++ result.toList }

/-- One of the loops over the ring, from the index `i` on, and the index behind it. It stops
at the RD that fills the buffer. -/
def loop (t n : ℕ) : ℕ → ℕ → Scan → Except ResultFault (ℕ × Scan)
  | 0, i, c => .ok (i, c)
  | turns + 1, i, c => do
    let c ← c.consumeRdForThread t i
    if c.buf.length = n then .ok (i, c) else loop t n turns (i + 1) { c with pos := c.pos + 1 }

end Scan

namespace DirectRun

/-- The loops of `nlm_get_all_search_results`. -/
def scanLoops (size n t : ℕ) (s : DirectRun) : Except ResultFault (ℕ × Scan) :=
  if s.outputRdPtr < s.outputWrtPtr then
    Scan.loop t n (s.outputWrtPtr - s.outputRdPtr) s.outputRdPtr ⟨s, [], false, s.released⟩
  else do
    let (i, c) ← Scan.loop t n (size - s.outputRdPtr) s.outputRdPtr ⟨s, [], false, s.released⟩
    if c.buf.length < n then Scan.loop t n s.outputWrtPtr 0 c else .ok (i, c)

/-- The end of a call whose loops stopped at index `i`. -/
def updateRdPtr (size i : ℕ) (c : Scan) : DirectRun :=
  if c.noUpdate = false ∧ i &&& (size - 1) ≠ c.run.outputRdPtr then
    { c.run with outputRdPtr := i &&& (size - 1), released := c.pos }
  else c.run

/-- `nlm_get_all_search_results` of thread `t` with room for `n` results, as long as it holds
the lock. It reads the write pointer once, and what the hardware writes meanwhile lies behind
it. -/
def nlmGetAllSearchResults (size n t : ℕ) (s : DirectRun) :
    Except ResultFault (List NlmResult × DirectRun) :=
  if s.outputRdPtr = s.outputWrtPtr then .ok ([], s)
  else do
    let (i, c) ← s.scanLoops size n t
    .ok (c.buf, updateRdPtr size i c)

/-- A call, an RD that the hardware writes, or anything else that a thread does. -/
inductive Step (size : ℕ) : DirectRun → DirectRun → Prop
  | results {s s' : DirectRun} {n t : ℕ} {buf : List NlmResult} (hn : 0 < n)
      (hcall : s.nlmGetAllSearchResults size n t = .ok (buf, s')) : Step size s s'
  | append {s : DirectRun} (rd : HwResultDescriptor)
      (hspace : (s.outputWrtPtr + 1) % size ≠ s.outputRdPtr) (hvalid : rd.u4 ≠ rdWasProcessed) :
      Step size s { s with
        outputFifo := Function.update s.outputFifo s.outputWrtPtr rd
        outputWrtPtr := (s.outputWrtPtr + 1) % size
        produced := s.produced ++ [rd] }
  | other {s : DirectRun} (t : ℕ) (thread : Thread) :
      Step size s { s with threads := Function.update s.threads t thread }

def Reaches (size : ℕ) : DirectRun → DirectRun → Prop :=
  Relation.ReflTransGen (Step size)

/-- Thread `t` has got all its RDs among the first `k`. -/
def GotAll (s : DirectRun) (k t : ℕ) : Prop :=
  rank (ofThread t) s.produced k ≤ (s.got t).length

/-- The RD at position `k` has been interpreted. -/
def Handed (s : DirectRun) (k : ℕ) (rd : HwResultDescriptor) : Prop :=
  rank (ofThread (nlmGetThreadId rd.cookie)) s.produced k <
    (s.got (nlmGetThreadId rd.cookie)).length

/-- The invariant of the ring, as long as every RD that was interpreted is marked. -/
structure Inv (size : ℕ) (s : DirectRun) : Prop where
  got_prefix : ∀ t, s.got t <+: s.produced.filter (ofThread t)
  produced_ok : ∀ rd ∈ s.produced, rd.u4 ≠ rdWasProcessed
  rd_eq : s.outputRdPtr = s.released % size
  wrt_eq : s.outputWrtPtr = s.produced.length % size
  released_le : s.released ≤ s.produced.length
  produced_lt : s.produced.length < s.released + size
  got_released : ∀ t, s.GotAll s.released t
  marked : ∀ k rd, s.released ≤ k → s.produced[k]? = some rd → s.Handed k rd →
    (s.outputFifo (k % size)).u4 = rdWasProcessed
  intact : ∀ k rd, s.released ≤ k → s.produced[k]? = some rd → ¬s.Handed k rd →
    s.outputFifo (k % size) = rd

/-- What holds of a call of thread `t` that began in `s`. -/
structure ScanOk (size t : ℕ) (s : DirectRun) (c : Scan) : Prop where
  inv : Inv size c.run
  produced : c.run.produced = s.produced
  released : c.run.released = s.released
  others : ∀ u, u ≠ t → c.run.got u = s.got u
  le_pos : s.released ≤ c.pos
  got : c.run.GotAll c.pos t
  got_all : c.noUpdate = false → ∀ u, c.run.GotAll c.pos u
  update : (∀ u, u ≠ t → s.GotAll s.produced.length u) → c.noUpdate = false

variable {size n t u i k turns : ℕ} {s s' : DirectRun} {c c' : Scan} {rd : HwResultDescriptor}
  {buf : List NlmResult}

/-- The RDs of the second list are those of the first one and late ones. -/
def KeepsLate (l l' : List HwResultDescriptor) : Prop :=
  ∃ late : List HwResultDescriptor, l' = l ++ late ∧ ∀ rd ∈ late, rd.IsLate

theorem KeepsLate.refl (l : List HwResultDescriptor) : KeepsLate l l :=
  ⟨[], (List.append_nil l).symm, fun _ hrd ↦ absurd hrd List.not_mem_nil⟩

theorem KeepsLate.trans {l l' l'' : List HwResultDescriptor} (h : KeepsLate l l')
    (h' : KeepsLate l' l'') : KeepsLate l l'' := by
  obtain ⟨late, rfl, hlate⟩ := h
  obtain ⟨late', rfl, hlate'⟩ := h'
  refine ⟨late ++ late', List.append_assoc .., fun rd hrd ↦ ?_⟩
  exact (List.mem_append.mp hrd).elim (hlate rd) (hlate' rd)

theorem KeepsLate.eq_nil {l l' : List HwResultDescriptor} (h : KeepsLate l l') (hl : l' = []) :
    l = [] := by
  obtain ⟨late, rfl, -⟩ := h
  exact (List.append_eq_nil_iff.mp hl).1

/-! ## One RD -/

/-- Only a match at the end of the data is not marked. -/
theorem isLate_of_populateResults {thread thread' : Thread} {result : Option NlmResult}
    (h : thread.populateResults rd = .ok (thread', result, false)) : rd.IsLate := by
  unfold Thread.populateResults at h
  obtain ⟨-, h⟩ := resultAssert_bind h
  obtain ⟨-, h⟩ := resultAssert_bind h
  obtain ⟨-, h⟩ := resultAssert_bind h
  cases hflow : (thread.device.jobs (nlmGetJobIndex rd.cookie)).flow with
  | none =>
    simp only [hflow] at h
    cases h
  | some f =>
    simp only [hflow] at h
    obtain ⟨-, h⟩ := resultAssert_bind h
    split at h
    · rename_i hmatch
      split at h
      · rename_i hanchor
        exact ⟨hmatch, hanchor.1⟩
      · obtain ⟨-, h⟩ := resultAssert_bind h
        cases h
    · split at h
      · obtain ⟨thread₁, -, h⟩ := except_bind h
        cases h
      · split at h
        · cases h
        · cases h

theorem GotAll.mono {j : ℕ} (h : s.GotAll k t) (hle : j ≤ k) : s.GotAll j t :=
  (rank_mono hle).trans h

/-- Behind an RD that is not its own, or that it has interpreted, a thread has what it had
before. -/
theorem GotAll.succ (h : s.GotAll k u) (hget : s.produced[k]? = some rd)
    (hor : nlmGetThreadId rd.cookie ≠ u ∨ s.Handed k rd) : s.GotAll (k + 1) u := by
  unfold GotAll
  rw [rank_succ hget]
  by_cases hown : ofThread u rd = true
  · rw [if_pos hown]
    have hthread : nlmGetThreadId rd.cookie = u := beq_iff_eq.mp hown
    have hhanded := hor.resolve_left (not_not_intro hthread)
    unfold Handed at hhanded
    rw [hthread] at hhanded
    exact hhanded
  · rw [if_neg hown]
    exact h

theorem ofThread_self (rd : HwResultDescriptor) : ofThread (nlmGetThreadId rd.cookie) rd = true :=
  beq_self_eq_true _

theorem handed_of_gotAll (h : s.GotAll (k + 1) (nlmGetThreadId rd.cookie))
    (hget : s.produced[k]? = some rd) : s.Handed k rd := by
  unfold GotAll at h
  rw [rank_succ hget, if_pos (ofThread_self rd)] at h
  exact h

/-- An RD that is not marked has not been interpreted, and the ring holds it. -/
theorem Inv.unmarked (h : Inv size s) (hk : s.released ≤ k) (hget : s.produced[k]? = some rd)
    (hmark : (s.outputFifo (k % size)).u4 ≠ rdWasProcessed) :
    ¬s.Handed k rd ∧ s.outputFifo (k % size) = rd := by
  have hnot : ¬s.Handed k rd := fun hhanded ↦ hmark (h.marked k rd hk hget hhanded)
  exact ⟨hnot, h.intact k rd hk hget hnot⟩

/-- A marked RD has been interpreted. -/
theorem Inv.handed (h : Inv size s) (hk : s.released ≤ k) (hget : s.produced[k]? = some rd)
    (hmark : (s.outputFifo (k % size)).u4 = rdWasProcessed) : s.Handed k rd := by
  by_contra hnot
  rw [h.intact k rd hk hget hnot] at hmark
  exact h.produced_ok rd (List.mem_of_getElem? hget) hmark

theorem Inv.slot_ne (h : Inv size s) {j : ℕ} (hj : s.released ≤ j) (hk : s.released ≤ k)
    (hjlt : j < s.produced.length) (hklt : k < s.produced.length) (hne : j ≠ k) :
    j % size ≠ k % size := by
  have hlen := h.produced_lt
  rcases Nat.lt_or_gt_of_ne hne with hlt | hgt
  · exact mod_ne_of_lt hlt (by omega)
  · exact (mod_ne_of_lt hgt (by omega)).symm

theorem interpreted_got_self (thread : Thread) (mark : Bool) :
    (s.interpreted t i thread mark).got t = s.got t ++ [s.outputFifo i] :=
  Function.update_self ..

theorem interpreted_got_ne (thread : Thread) (mark : Bool) (hne : u ≠ t) :
    (s.interpreted t i thread mark).got u = s.got u :=
  Function.update_of_ne hne ..

theorem interpreted_got_length (s : DirectRun) (t i u : ℕ) (thread : Thread) (mark : Bool) :
    (s.got u).length ≤ ((s.interpreted t i thread mark).got u).length := by
  rcases eq_or_ne u t with rfl | hne
  · rw [interpreted_got_self, List.length_append]
    exact Nat.le_add_right ..
  · rw [interpreted_got_ne thread mark hne]

theorem GotAll.interpreted (h : s.GotAll k u) (thread : Thread) (mark : Bool) :
    (s.interpreted t i thread mark).GotAll k u :=
  Nat.le_trans h (interpreted_got_length s t i u thread mark)

section Interpreted

variable (h : Inv size s) (hk : s.released ≤ k) (hget : s.produced[k]? = some rd)
  (hmark : (s.outputFifo (k % size)).u4 ≠ rdWasProcessed)
  (hthread : nlmGetThreadId rd.cookie = t) (hgot : s.GotAll k t)
include h hk hget hmark hthread hgot

/-- The RD is the next one of its thread. -/
theorem Inv.length_got : (s.got t).length = rank (ofThread t) s.produced k := by
  have hnot := (h.unmarked hk hget hmark).1
  unfold Handed at hnot
  rw [hthread] at hnot
  exact Nat.le_antisymm (Nat.not_lt.mp hnot) hgot

theorem Inv.handed_interpreted (thread : Thread) {j : ℕ} {r : HwResultDescriptor}
    (hr : s.produced[j]? = some r) :
    (s.interpreted t (k % size) thread true).Handed j r ↔ s.Handed j r ∨ j = k := by
  have hlen := h.length_got hk hget hmark hthread hgot
  unfold Handed
  change rank _ s.produced j < _ ↔ _
  rcases eq_or_ne (nlmGetThreadId r.cookie) t with heq | hne
  · rw [heq, interpreted_got_self, List.length_append, List.length_singleton, hlen,
      Nat.lt_succ_iff, Nat.le_iff_lt_or_eq]
    refine or_congr_right ⟨fun hrank ↦ ?_, fun hjk ↦ by rw [hjk]⟩
    exact rank_injective hr hget (heq ▸ ofThread_self r) (hthread ▸ ofThread_self rd) hrank
  · rw [interpreted_got_ne thread true hne]
    refine ⟨.inl, fun hor ↦ hor.resolve_right ?_⟩
    rintro rfl
    rw [hget] at hr
    exact hne (Option.some.inj hr ▸ hthread)

theorem Inv.interpreted (thread : Thread) : Inv size (s.interpreted t (k % size) thread true) := by
  have hslot := (h.unmarked hk hget hmark).2
  have hklt := (List.getElem?_eq_some_iff.mp hget).1
  have hown : ofThread t rd = true := hthread ▸ ofThread_self rd
  have hother : ∀ j, s.released ≤ j → j < s.produced.length → j ≠ k →
      (s.interpreted t (k % size) thread true).outputFifo (j % size) = s.outputFifo (j % size) :=
    fun j hj hjlt hne ↦ Function.update_of_ne (h.slot_ne hj hk hjlt hklt hne) ..
  refine ⟨fun u ↦ ?_, h.produced_ok, h.rd_eq, h.wrt_eq, h.released_le, h.produced_lt,
    fun u ↦ (h.got_released u).interpreted thread true, fun j r hj hr hdone ↦ ?_,
    fun j r hj hr hnot ↦ ?_⟩
  · rcases eq_or_ne u t with rfl | hne
    · rw [interpreted_got_self, hslot]
      exact snoc_prefix_filter (h.got_prefix u) (h.length_got hk hget hmark hthread hgot) hget hown
    · rw [interpreted_got_ne thread true hne]
      exact h.got_prefix u
  · rcases eq_or_ne j k with rfl | hne
    · change (Function.update s.outputFifo (j % size) (s.outputFifo (j % size)).mark
        (j % size)).u4 = _
      rw [Function.update_self]
      rfl
    · rw [hother j hj (List.getElem?_eq_some_iff.mp hr).1 hne]
      apply h.marked j r hj hr
      exact ((h.handed_interpreted hk hget hmark hthread hgot thread hr).mp hdone).resolve_right hne
  · rw [h.handed_interpreted hk hget hmark hthread hgot thread hr, not_or] at hnot
    rw [hother j hj (List.getElem?_eq_some_iff.mp hr).1 hnot.2]
    exact h.intact j r hj hr hnot.1

end Interpreted

/-! ## The loops -/

/-- What `consume_rd_for_thread` can do. -/
theorem consume_cases (h : c.consumeRdForThread t i = .ok c') :
    (c.run.outputFifo i).u4 = rdWasProcessed ∧ c' = c ∨
      (c.run.outputFifo i).u4 ≠ rdWasProcessed ∧
        nlmGetThreadId (c.run.outputFifo i).cookie ≠ t ∧ c' = { c with noUpdate := true } ∨
      (c.run.outputFifo i).u4 ≠ rdWasProcessed ∧
        nlmGetThreadId (c.run.outputFifo i).cookie = t ∧ ∃ thread result mark,
          (c.run.threads t).populateResults (c.run.outputFifo i) = .ok (thread, result, mark) ∧
            c' = { c with
              run := c.run.interpreted t i thread mark
              buf := c.buf ++ result.toList } := by
  unfold Scan.consumeRdForThread at h
  by_cases hmark : (c.run.outputFifo i).u4 = rdWasProcessed
  · rw [if_pos hmark] at h
    exact .inl ⟨hmark, (Except.ok.inj h).symm⟩
  · rw [if_neg hmark] at h
    obtain ⟨-, h⟩ := resultAssert_bind h
    by_cases hthread : nlmGetThreadId (c.run.outputFifo i).cookie = t
    · rw [if_neg (not_not_intro hthread)] at h
      obtain ⟨⟨thread, result, mark⟩, hcall, h⟩ := except_bind h
      exact .inr (.inr ⟨hmark, hthread, thread, result, mark, hcall, (Except.ok.inj h).symm⟩)
    · rw [if_pos hthread] at h
      exact .inr (.inl ⟨hmark, hthread, (Except.ok.inj h).symm⟩)

theorem consume_kept (h : c.consumeRdForThread t i = .ok c') :
    KeepsLate c.run.kept c'.run.kept := by
  obtain ⟨-, rfl⟩ | ⟨-, -, rfl⟩ | ⟨-, -, thread, result, mark, hcall, rfl⟩ := consume_cases h
  · exact .refl _
  · exact .refl _
  · cases mark with
    | true => exact .refl _
    | false =>
      refine ⟨[c.run.outputFifo i], rfl, fun rd hrd ↦ ?_⟩
      rw [List.mem_singleton.mp hrd]
      exact isLate_of_populateResults hcall

/-- At most one result is stored, and the position is the caller's. -/
theorem consume_buf (h : c.consumeRdForThread t i = .ok c') :
    c'.buf.length ≤ c.buf.length + 1 ∧ c'.pos = c.pos := by
  obtain ⟨-, rfl⟩ | ⟨-, -, rfl⟩ | ⟨-, -, thread, result, mark, -, rfl⟩ := consume_cases h
  · exact ⟨Nat.le_succ _, rfl⟩
  · exact ⟨Nat.le_succ _, rfl⟩
  · refine ⟨?_, rfl⟩
    cases result with
    | none => simp
    | some r => simp

theorem loop_kept {i' : ℕ} (h : Scan.loop t n turns i c = .ok (i', c')) :
    KeepsLate c.run.kept c'.run.kept := by
  induction turns generalizing i c with
  | zero => exact congrArg (·.2.run.kept) (Except.ok.inj h) ▸ .refl _
  | succ turns ih =>
    obtain ⟨c₁, hconsume, h⟩ := except_bind h
    have hkept := consume_kept hconsume
    by_cases hfull : c₁.buf.length = n
    · rw [if_pos hfull] at h
      exact (congrArg (·.2.run.kept) (Except.ok.inj h)) ▸ hkept
    · rw [if_neg hfull] at h
      have hrest := ih h
      exact hkept.trans hrest

namespace ScanOk

/-- One turn: the thread has got its RDs up to the next position. -/
theorem consume (h : ScanOk size t s c) (hlt : c.pos < s.produced.length)
    (hi : c.pos % size = i) (hcall : c.consumeRdForThread t i = .ok c')
    (hkept : c'.run.kept = []) : ScanOk size t s { c' with pos := c.pos + 1 } := by
  subst hi
  have hk : c.run.released ≤ c.pos := h.released.trans_le h.le_pos
  obtain ⟨rd, hget⟩ : ∃ rd, c.run.produced[c.pos]? = some rd := by
    rw [h.produced]
    exact ⟨_, List.getElem?_eq_getElem hlt⟩
  have hle : s.released ≤ c.pos + 1 := h.le_pos.trans (Nat.le_succ _)
  obtain ⟨hmark, rfl⟩ | ⟨hmark, hthread, rfl⟩ | ⟨hmark, hthread, thread, result, mark, -, rfl⟩ :=
    consume_cases hcall
  · have hhanded := h.inv.handed hk hget hmark
    exact ⟨h.inv, h.produced, h.released, h.others, hle, h.got.succ hget (.inr hhanded),
      fun hno u ↦ (h.got_all hno u).succ hget (.inr hhanded), h.update⟩
  · obtain ⟨hnot, hslot⟩ := h.inv.unmarked hk hget hmark
    rw [hslot] at hthread
    refine ⟨h.inv, h.produced, h.released, h.others, hle, h.got.succ hget (.inl hthread),
      fun hno ↦ Bool.noConfusion hno, fun hothers ↦ ?_⟩
    -- the thread that the RD belongs to would have interpreted it
    have hall := hothers _ hthread
    unfold GotAll at hall
    rw [← h.others _ hthread, ← h.produced] at hall
    have hlast : c.run.GotAll c.run.produced.length (nlmGetThreadId rd.cookie) := hall
    exact absurd (handed_of_gotAll (hlast.mono (h.produced ▸ hlt)) hget) hnot
  · cases mark with
    | false => exact absurd hkept (List.append_ne_nil_of_right_ne_nil _ (List.cons_ne_nil _ _))
    | true =>
      have hslot := (h.inv.unmarked hk hget hmark).2
      rw [hslot] at hthread
      have hinv := h.inv.interpreted hk hget hmark hthread h.got thread
      have hhanded : (c.run.interpreted t (c.pos % size) thread true).Handed c.pos rd :=
        (h.inv.handed_interpreted hk hget hmark hthread h.got thread hget).mpr (.inr rfl)
      refine ⟨hinv, h.produced, h.released, fun u hne ↦ ?_, hle,
        (h.got.interpreted thread true).succ hget (.inr hhanded),
        fun hno u ↦ ((h.got_all hno u).interpreted thread true).succ hget (.inr hhanded),
        h.update⟩
      exact (interpreted_got_ne thread true hne).trans (h.others u hne)

/-- A call that stops at an RD leaves the read pointer at it. -/
theorem back (h : ScanOk size t s { c with pos := k + 1 }) (hk : s.released ≤ k) :
    ScanOk size t s { c with pos := k } :=
  { h with
    le_pos := hk
    got := h.got.mono (Nat.le_succ k)
    got_all := fun hno u ↦ (h.got_all hno u).mono (Nat.le_succ k) }

/-- A loop over slots that follow each other. -/
theorem loop {i' : ℕ} (h : ScanOk size t s c) (hbuf : c.buf.length < n)
    (hi : ∀ x < turns, (c.pos + x) % size = i + x) (hlen : c.pos + turns ≤ s.produced.length)
    (hcall : Scan.loop t n turns i c = .ok (i', c')) (hkept : c'.run.kept = []) :
    ScanOk size t s c' ∧ c'.pos ≤ c.pos + turns ∧ i' + c.pos = i + c'.pos ∧
      c'.buf.length ≤ n ∧ (c'.buf.length < n → c'.pos = c.pos + turns) := by
  induction turns generalizing i c with
  | zero =>
    obtain ⟨rfl, rfl⟩ := Prod.mk.inj (Except.ok.inj hcall)
    exact ⟨h, le_rfl, rfl, hbuf.le, fun _ ↦ rfl⟩
  | succ turns ih =>
    obtain ⟨c₁, hconsume, hcall⟩ := except_bind hcall
    obtain ⟨hbuf₁, hpos₁⟩ := consume_buf hconsume
    have hfirst : c.pos % size = i := hi 0 (Nat.succ_pos turns)
    by_cases hfull : c₁.buf.length = n
    · rw [if_pos hfull] at hcall
      obtain ⟨rfl, rfl⟩ := Prod.mk.inj (Except.ok.inj hcall)
      have hnext := h.consume (by omega) hfirst hconsume hkept
      have hback : ScanOk size t s c₁ := by
        have hsame := hnext.back h.le_pos
        rwa [← hpos₁] at hsame
      exact ⟨hback, by omega, by omega, hfull.le, fun hlt ↦ absurd hfull hlt.ne⟩
    · rw [if_neg hfull] at hcall
      have hkept₁ : c₁.run.kept = [] := (loop_kept hcall).eq_nil hkept
      have hnext := h.consume (by omega) hfirst hconsume hkept₁
      rw [← hpos₁] at hnext
      have hrest : ∀ x < turns, (c₁.pos + 1 + x) % size = i + 1 + x := by
        intro x hx
        have hx' := hi (x + 1) (Nat.succ_lt_succ hx)
        rw [hpos₁]
        rw [show c.pos + 1 + x = c.pos + (x + 1) by omega, hx']
        omega
      have hlen' : c₁.pos + 1 + turns ≤ s.produced.length := by omega
      obtain ⟨hok, hpos, hsum, hle, hall⟩ := ih hnext (by change c₁.buf.length < n; omega)
        hrest hlen' hcall
      dsimp only at hpos hsum hall
      exact ⟨hok, by omega, by omega, hle, fun hlt ↦ by rw [hall hlt]; omega⟩

end ScanOk

/-! ## A call -/

section Window

variable (h : Inv size s)
include h

theorem Inv.scanOk (t : ℕ) : ScanOk size t s ⟨s, [], false, s.released⟩ :=
  ⟨h, rfl, rfl, fun _ _ ↦ rfl, le_rfl, h.got_released t, fun _ u ↦ h.got_released u, fun _ ↦ rfl⟩

theorem Inv.size_pos : 0 < size := by
  have hle := h.released_le
  have hlt := h.produced_lt
  omega

theorem Inv.add_mod {x : ℕ} (hx : s.outputRdPtr + x < size) :
    (s.released + x) % size = s.outputRdPtr + x := by
  rw [← Nat.mod_add_mod, ← h.rd_eq, Nat.mod_eq_of_lt hx]

/-- The index behind the first loop is that of the position. -/
theorem Inv.pos_mod (hle : s.released ≤ k) (hsum : i + s.released = s.outputRdPtr + k) :
    k % size = i % size := by
  obtain ⟨d, rfl⟩ := Nat.exists_eq_add_of_le hle
  obtain rfl : i = s.outputRdPtr + d := by omega
  rw [h.rd_eq, Nat.mod_add_mod]

/-- The loops go through the RDs in the order of the hardware. -/
theorem Inv.scanLoops (hn : 0 < n) (hne : s.outputRdPtr ≠ s.outputWrtPtr)
    (hcall : s.scanLoops size n t = .ok (i, c)) (hkept : c.run.kept = []) :
    ScanOk size t s c ∧ c.pos % size = i % size ∧ c.pos ≤ s.produced.length ∧
      c.buf.length ≤ n ∧ (c.buf.length < n → c.pos = s.produced.length) := by
  have hsize := h.size_pos
  have hlt : s.released < s.produced.length := by
    refine Nat.lt_of_le_of_ne h.released_le fun heq ↦ hne ?_
    rw [h.rd_eq, h.wrt_eq, heq]
  have hend := window_end hlt h.produced_lt
  rw [← h.rd_eq, ← h.wrt_eq] at hend
  have hwrt : s.outputWrtPtr < size := h.wrt_eq ▸ Nat.mod_lt _ hsize
  have hrd : s.outputRdPtr < size := h.rd_eq ▸ Nat.mod_lt _ hsize
  unfold DirectRun.scanLoops at hcall
  by_cases hptr : s.outputRdPtr < s.outputWrtPtr
  · rw [if_pos hptr] at hcall
    have hlen := hend.1 hptr
    obtain ⟨hok, hpos, hsum, hle, hall⟩ := (h.scanOk t).loop hn
      (fun x hx ↦ h.add_mod (by omega)) (by dsimp only; omega) hcall hkept
    dsimp only at hpos hsum hall
    exact ⟨hok, h.pos_mod hok.le_pos hsum, by omega, hle, fun hless ↦ by rw [hall hless]; omega⟩
  · rw [if_neg hptr] at hcall
    have hlen := hend.2 hptr
    obtain ⟨⟨i₁, c₁⟩, hfirst, hcall⟩ := except_bind hcall
    dsimp only at hcall
    have hkept₁ : c₁.run.kept = [] := by
      split at hcall
      · exact (loop_kept hcall).eq_nil hkept
      · rw [(Prod.mk.inj (Except.ok.inj hcall)).2]
        exact hkept
    obtain ⟨hok, hpos, hsum, hle, hall⟩ := (h.scanOk t).loop hn
      (fun x hx ↦ h.add_mod (by omega)) (by dsimp only; omega) hfirst hkept₁
    dsimp only at hpos hsum hall
    by_cases hless : c₁.buf.length < n
    · rw [if_pos hless] at hcall
      have hwrap := hall hless
      -- the first loop has gone to the end of the ring
      have hzero : c₁.pos % size = 0 := by
        rw [h.pos_mod hok.le_pos hsum, show i₁ = size by omega, Nat.mod_self]
      have hmod : ∀ x < size, (c₁.pos + x) % size = x := fun x hx ↦ by
        rw [← Nat.mod_add_mod, hzero, Nat.zero_add, Nat.mod_eq_of_lt hx]
      obtain ⟨hok₂, hpos₂, hsum₂, hle₂, hall₂⟩ := hok.loop hless
        (fun x hx ↦ by rw [hmod x (by omega), Nat.zero_add]) (by omega) hcall hkept
      have hback : c.pos = c₁.pos + i := by omega
      refine ⟨hok₂, ?_, by omega, hle₂, fun hfull ↦ by rw [hall₂ hfull]; omega⟩
      rw [hback, hmod i (by omega), Nat.mod_eq_of_lt (by omega)]
    · rw [if_neg hless] at hcall
      obtain ⟨rfl, rfl⟩ := Prod.mk.inj (Except.ok.inj hcall)
      exact ⟨hok, h.pos_mod hok.le_pos hsum, by omega, hle, fun hfull ↦ absurd hfull hless⟩

end Window

theorem updateRdPtr_run (size i : ℕ) (c : Scan) :
    (updateRdPtr size i c).got = c.run.got ∧ (updateRdPtr size i c).kept = c.run.kept ∧
      (updateRdPtr size i c).produced = c.run.produced ∧
      (updateRdPtr size i c).outputWrtPtr = c.run.outputWrtPtr := by
  unfold updateRdPtr
  split
  · exact ⟨rfl, rfl, rfl, rfl⟩
  · exact ⟨rfl, rfl, rfl, rfl⟩

theorem and_size_sub_one (hsize : FifoSizeOk size) (i : ℕ) : i &&& (size - 1) = i % size :=
  SwFifo.and_size_sub_one (f := (⟨size, 0, 0, fun _ ↦ ()⟩ : SwFifo Unit)) hsize i

/-- The read pointer passes only RDs that have been interpreted. -/
theorem ScanOk.updateRdPtr (h : ScanOk size t s c) (hsize : FifoSizeOk size)
    (hmod : c.pos % size = i % size) (hle : c.pos ≤ s.produced.length) :
    Inv size (updateRdPtr size i c) := by
  unfold DirectRun.updateRdPtr
  split
  · rename_i hcond
    have hback : c.run.released ≤ c.pos := h.released.trans_le h.le_pos
    exact { h.inv with
      rd_eq := (and_size_sub_one hsize i).trans hmod.symm
      released_le := hle.trans_eq (congrArg List.length h.produced).symm
      produced_lt := h.inv.produced_lt.trans_le (Nat.add_le_add_right hback size)
      got_released := h.got_all hcond.1
      marked := fun k rd hk ↦ h.inv.marked k rd (hback.trans hk)
      intact := fun k rd hk ↦ h.inv.intact k rd (hback.trans hk) }
  · exact h.inv

theorem scanLoops_kept (h : s.scanLoops size n t = .ok (i, c)) :
    KeepsLate s.kept c.run.kept := by
  unfold DirectRun.scanLoops at h
  split at h
  · exact loop_kept h
  · obtain ⟨⟨i₁, c₁⟩, hfirst, h⟩ := except_bind h
    have hkept := loop_kept hfirst
    dsimp only at h
    split at h
    · exact hkept.trans (loop_kept h)
    · rw [← (Prod.mk.inj (Except.ok.inj h)).2]
      exact hkept

/-- A call that finds anything in the ring. -/
theorem results_cases (h : s.nlmGetAllSearchResults size n t = .ok (buf, s')) :
    s.outputRdPtr = s.outputWrtPtr ∧ buf = [] ∧ s' = s ∨
      s.outputRdPtr ≠ s.outputWrtPtr ∧ ∃ i c, s.scanLoops size n t = .ok (i, c) ∧
        buf = c.buf ∧ s' = updateRdPtr size i c := by
  unfold nlmGetAllSearchResults at h
  split at h
  · rename_i heq
    obtain ⟨rfl, rfl⟩ := Prod.mk.inj (Except.ok.inj h)
    exact .inl ⟨heq, rfl, rfl⟩
  · rename_i hne
    obtain ⟨⟨i, c⟩, hscan, h⟩ := except_bind h
    obtain ⟨rfl, rfl⟩ := Prod.mk.inj (Except.ok.inj h)
    exact .inr ⟨hne, i, c, hscan, rfl, rfl⟩

theorem results_kept (h : s.nlmGetAllSearchResults size n t = .ok (buf, s')) :
    KeepsLate s.kept s'.kept := by
  obtain ⟨-, -, rfl⟩ | ⟨-, i, c, hscan, -, rfl⟩ := results_cases h
  · exact .refl _
  · rw [(updateRdPtr_run size i c).2.1]
    exact scanLoops_kept hscan

theorem Inv.results (h : Inv size s) (hsize : FifoSizeOk size) (hn : 0 < n)
    (hcall : s.nlmGetAllSearchResults size n t = .ok (buf, s')) (hkept : s'.kept = []) :
    Inv size s' := by
  obtain ⟨-, -, rfl⟩ | ⟨hne, i, c, hscan, -, rfl⟩ := results_cases hcall
  · exact h
  · rw [(updateRdPtr_run size i c).2.1] at hkept
    obtain ⟨hok, hmod, hle, -, -⟩ := h.scanLoops hn hne hscan hkept
    exact hok.updateRdPtr hsize hmod hle

/-! ## Runs -/

theorem Inv.append (h : Inv size s) (rd : HwResultDescriptor)
    (hspace : (s.outputWrtPtr + 1) % size ≠ s.outputRdPtr) (hvalid : rd.u4 ≠ rdWasProcessed) :
    Inv size { s with
      outputFifo := Function.update s.outputFifo s.outputWrtPtr rd
      outputWrtPtr := (s.outputWrtPtr + 1) % size
      produced := s.produced ++ [rd] } := by
  have hrel := h.released_le
  have hlen := h.produced_lt
  have hroom : s.produced.length + 1 < s.released + size := by
    refine Nat.lt_of_le_of_ne hlen fun heq ↦ hspace ?_
    rw [h.wrt_eq, h.rd_eq, Nat.mod_add_mod, heq, Nat.add_mod_right]
  have hslot : ∀ k, s.released ≤ k → k < s.produced.length →
      Function.update s.outputFifo s.outputWrtPtr rd (k % size) = s.outputFifo (k % size) := by
    intro k hk hlt
    apply Function.update_of_ne
    rw [h.wrt_eq]
    exact mod_ne_of_lt hlt (by omega)
  have hrank : ∀ k ≤ s.produced.length, ∀ u, rank (ofThread u) (s.produced ++ [rd]) k =
      rank (ofThread u) s.produced k := fun k hk u ↦ rank_length_append hk
  have hcase : ∀ k r, (s.produced ++ [rd])[k]? = some r →
      k < s.produced.length ∧ s.produced[k]? = some r ∨ k = s.produced.length ∧ r = rd := by
    intro k r hr
    rcases Nat.lt_trichotomy k s.produced.length with hlt | rfl | hgt
    · rw [List.getElem?_append_left hlt] at hr
      exact .inl ⟨hlt, hr⟩
    · rw [List.getElem?_concat_length] at hr
      exact .inr ⟨rfl, (Option.some.inj hr).symm⟩
    · rw [List.getElem?_eq_none (by simp; omega)] at hr
      cases hr
  refine ⟨fun u ↦ (h.got_prefix u).trans ((List.prefix_append _ _).filter _), fun r hr ↦ ?_,
    h.rd_eq, ?_, ?_, ?_, fun u ↦ ?_, fun k r hk hr hdone ↦ ?_, fun k r hk hr hnot ↦ ?_⟩
  · rcases List.mem_append.mp hr with hr | hr
    · exact h.produced_ok r hr
    · rw [List.mem_singleton.mp hr]
      exact hvalid
  · change (s.outputWrtPtr + 1) % size = (s.produced ++ [rd]).length % size
    rw [h.wrt_eq, Nat.mod_add_mod, List.length_append, List.length_singleton]
  · change s.released ≤ (s.produced ++ [rd]).length
    rw [List.length_append]
    exact hrel.trans (Nat.le_add_right _ _)
  · change (s.produced ++ [rd]).length < s.released + size
    rw [List.length_append, List.length_singleton]
    exact hroom
  · exact (hrank _ hrel u).trans_le (h.got_released u)
  · have hdone' : rank (ofThread (nlmGetThreadId r.cookie)) (s.produced ++ [rd]) k <
        (s.got (nlmGetThreadId r.cookie)).length := hdone
    rcases hcase k r hr with ⟨hlt, hr⟩ | ⟨rfl, rfl⟩
    · rw [hrank k hlt.le] at hdone'
      exact (congrArg HwResultDescriptor.u4 (hslot k hk hlt)).trans (h.marked k r hk hr hdone')
    · -- nobody has got more RDs than there were
      rw [hrank _ le_rfl, rank_length] at hdone'
      exact absurd hdone' (Nat.not_lt.mpr (h.got_prefix _).length_le)
  · rcases hcase k r hr with ⟨hlt, hr⟩ | ⟨rfl, rfl⟩
    · refine (hslot k hk hlt).trans (h.intact k r hk hr fun hold ↦ hnot ?_)
      exact (hrank k hlt.le _).trans_lt hold
    · change Function.update s.outputFifo s.outputWrtPtr r (s.produced.length % size) = r
      rw [h.wrt_eq, Function.update_self]

theorem Step.kept (h : Step size s s') : KeepsLate s.kept s'.kept := by
  cases h with
  | results hn hcall => exact results_kept hcall
  | append rd hspace hvalid => exact .refl _
  | other t thread => exact .refl _

theorem Reaches.kept (hrun : Reaches size s s') : KeepsLate s.kept s'.kept := by
  induction hrun with
  | refl => exact .refl _
  | tail _ hstep ih => exact ih.trans hstep.kept

/-- An RD that was interpreted and not marked is a match at the end of the data. -/
theorem Reaches.isLate {threads : ℕ → Thread} (hrun : Reaches size (start threads) s)
    (hrd : rd ∈ s.kept) : rd.IsLate := by
  obtain ⟨late, heq, hlate⟩ := hrun.kept
  rw [heq] at hrd
  exact hlate rd hrd

theorem Step.inv (h : Step size s s') (hsize : FifoSizeOk size) (hinv : Inv size s)
    (hkept : s'.kept = []) : Inv size s' := by
  cases h with
  | results hn hcall => exact hinv.results hsize hn hcall hkept
  | append rd hspace hvalid => exact hinv.append rd hspace hvalid
  | other t thread => exact { hinv with }

theorem inv_start (threads : ℕ → Thread) (hsize : FifoSizeOk size) :
    Inv size (start threads) where
  got_prefix := fun _ ↦ List.nil_prefix
  produced_ok := fun _ hrd ↦ absurd hrd List.not_mem_nil
  rd_eq := (Nat.zero_mod size).symm
  wrt_eq := (Nat.zero_mod size).symm
  released_le := le_rfl
  produced_lt := (Nat.pos_of_ne_zero hsize.1).trans_eq (Nat.zero_add size).symm
  got_released := fun _ ↦ le_rfl
  marked := fun _ _ _ hget ↦ by cases hget
  intact := fun _ _ _ hget ↦ by cases hget

theorem Reaches.inv {threads : ℕ → Thread} (hrun : Reaches size (start threads) s)
    (hsize : FifoSizeOk size) (hkept : s.kept = []) : Inv size s := by
  induction hrun with
  | refl => exact inv_start threads hsize
  | tail _ hstep ih => exact hstep.inv hsize (ih (hstep.kept.eq_nil hkept)) hkept

/-- Whatever the order in which the threads call and the hardware writes: as long as every RD
that was interpreted is marked, each thread interprets its own RDs, each of them once and in
the order of the hardware, and the read pointer has only passed RDs that their threads have
interpreted. -/
theorem sharedRing_in_order {threads : ℕ → Thread} (hsize : FifoSizeOk size)
    (hrun : Reaches size (start threads) s) (hkept : s.kept = []) :
    (∀ t, s.got t <+: s.produced.filter (ofThread t)) ∧
      (∀ t, (s.produced.take s.released).filter (ofThread t) <+: s.got t) ∧
      s.outputRdPtr = s.released % size ∧ s.outputWrtPtr = s.produced.length % size ∧
      s.released ≤ s.produced.length ∧ s.produced.length < s.released + size := by
  have h := hrun.inv hsize hkept
  refine ⟨h.got_prefix, fun t ↦ ?_, h.rd_eq, h.wrt_eq, h.released_le, h.produced_lt⟩
  exact filter_take_prefix (h.got_prefix t) (h.got_released t)

/-! ## Computed runs -/

/-- A step with what decides it. -/
inductive Event
  | write (rd : HwResultDescriptor)
  | call (n t : ℕ)

def event (size : ℕ) (s : DirectRun) : Event → Option DirectRun
  | .write rd =>
    if (s.outputWrtPtr + 1) % size ≠ s.outputRdPtr ∧ rd.u4 ≠ rdWasProcessed then
      some { s with
        outputFifo := Function.update s.outputFifo s.outputWrtPtr rd
        outputWrtPtr := (s.outputWrtPtr + 1) % size
        produced := s.produced ++ [rd] }
    else none
  | .call n t =>
    match s.nlmGetAllSearchResults size n t with
    | .ok (_, s') => if 0 < n then some s' else none
    | .error _ => none

theorem Step.of_event {e : Event} (h : s.event size e = some s') : Step size s s' := by
  cases e with
  | write rd =>
    simp only [event] at h
    split_ifs at h with hcond
    cases h
    exact .append rd hcond.1 hcond.2
  | call n t =>
    simp only [event] at h
    split at h
    · next buf s'' hcall =>
      split_ifs at h with hn
      cases h
      exact .results hn hcall
    · cases h

theorem Reaches.events {s₀ : DirectRun} (hrun : Reaches size s₀ s) {events : List Event}
    (h : events.foldlM (event size) s = some s') : Reaches size s₀ s' := by
  induction events generalizing s with
  | nil =>
    cases h
    exact hrun
  | cons e events ih =>
    rw [List.foldlM_cons] at h
    obtain ⟨s₁, hfirst, hrest⟩ := Option.bind_eq_some_iff.mp h
    exact ih (hrun.tail (.of_event hfirst)) hrest

/-- A thread whose jobs are all started. -/
def sharing (t : ℕ) : Thread :=
  { threadAt 100 with
    device := { (threadAt 100).device with
      threadId := t
      jobs := fun j ↦ { (threadAt 100).device.jobs j with
        fd := { HwFdDescriptor.zero with cookie := nlmEncodeCookie t j } } } }

/-- A match in the packet of job 1. -/
def matchOf (t position : ℕ) : HwResultDescriptor :=
  { matchAt position with cookie := nlmEncodeCookie t 1 }

/-- Two threads take turns while the ring of four RDs wraps. Thread 1 finds an RD of thread 0 in
front of its own, and thread 0 has room for one result at a time. -/
def takingTurns : List Event :=
  [.write (matchOf 0 105), .write (matchOf 1 110), .write (matchOf 0 120), .call 8 1, .call 1 0,
    .call 1 0, .write (matchOf 1 130), .write (matchOf 1 140), .call 8 0, .call 8 1,
    .write (matchOf 0 150)]

/-- A property of the state that some events lead to is one of a state that is reached. -/
theorem exists_reached (events : List Event) (Q : DirectRun → Prop)
    (h : ∃ s ∈ events.foldlM (event 4) (start sharing), Q s) :
    ∃ s, Reaches 4 (start sharing) s ∧ Q s := by
  obtain ⟨s, hs, hQ⟩ := h
  exact ⟨s, .events .refl hs, hQ⟩

theorem sharedRing_in_order_sample : ∃ s, Reaches 4 (start sharing) s ∧ s.kept = [] ∧
    s.produced.length = 6 ∧ s.released = 5 ∧
      s.got 1 = [matchOf 1 110, matchOf 1 130, matchOf 1 140] ∧
        s.got 1 <+: s.produced.filter (ofThread 1) ∧
          (s.produced.take s.released).filter (ofThread 1) <+: s.got 1 := by
  obtain ⟨s, hrun, hkept, hproduced, hreleased, hgot⟩ := exists_reached takingTurns
    (fun s ↦ s.kept = [] ∧ s.produced.length = 6 ∧ s.released = 5 ∧
      s.got 1 = [matchOf 1 110, matchOf 1 130, matchOf 1 140]) (by decide +kernel)
  obtain ⟨hin, hfront, -⟩ := sharedRing_in_order (by decide) hrun hkept
  exact ⟨s, hrun, hkept, hproduced, hreleased, hgot, hin 1, hfront 1⟩

/-- A call never returns more results than there is room for. If it returns fewer, its thread
has interpreted all its RDs; and if the other threads had done so before, the ring is empty. -/
theorem call_finds_everything {threads : ℕ → Thread} (hsize : FifoSizeOk size)
    (hrun : Reaches size (start threads) s) (hn : 0 < n)
    (hcall : s.nlmGetAllSearchResults size n t = .ok (buf, s')) (hkept : s'.kept = []) :
    buf.length ≤ n ∧
      (buf.length < n → s'.got t = s'.produced.filter (ofThread t) ∧
        ((∀ u, u ≠ t → s.got u = s.produced.filter (ofThread u)) →
          s'.outputRdPtr = s'.outputWrtPtr)) := by
  have hinv := hrun.inv hsize ((results_kept hcall).eq_nil hkept)
  obtain ⟨heq, rfl, rfl⟩ | ⟨hne, i, c, hscan, rfl, rfl⟩ := results_cases hcall
  · refine ⟨Nat.zero_le n, fun _ ↦ ⟨?_, fun _ ↦ heq⟩⟩
    have hall : s'.released = s'.produced.length := by
      by_contra hdiff
      have hlt := Nat.lt_of_le_of_ne hinv.released_le hdiff
      apply mod_ne_of_lt hlt hinv.produced_lt
      rw [← hinv.rd_eq, ← hinv.wrt_eq, heq]
    have hgot := hinv.got_released t
    unfold GotAll at hgot
    rw [hall, rank_length] at hgot
    exact (hinv.got_prefix t).eq_of_length_le hgot
  · obtain ⟨hgot, hsame, hproduced, hwrt⟩ := updateRdPtr_run size i c
    rw [hsame] at hkept
    obtain ⟨hok, hmod, -, hle, hall⟩ := hinv.scanLoops hn hne hscan hkept
    refine ⟨hle, fun hless ↦ ⟨?_, fun hothers ↦ ?_⟩⟩
    · rw [hgot, hproduced]
      have hfound := hok.got
      unfold GotAll at hfound
      rw [hall hless, ← hok.produced, rank_length] at hfound
      exact (hok.inv.got_prefix t).eq_of_length_le hfound
    · have hnew : c.noUpdate = false := by
        refine hok.update fun u hu ↦ ?_
        unfold GotAll
        rw [hothers u hu, rank_length]
      have hptr : i &&& (size - 1) = c.run.outputWrtPtr := by
        rw [and_size_sub_one hsize, ← hmod, hall hless, hok.inv.wrt_eq, hok.produced]
      rw [hwrt, ← hptr]
      unfold updateRdPtr
      split
      · rfl
      · rename_i hcond
        by_contra hdiff
        exact hcond ⟨hnew, Ne.symm hdiff⟩

/-- Thread 1 takes the two RDs that lie across the end of the ring, and empties it. -/
theorem call_finds_everything_sample : ∃ s buf s', Reaches 4 (start sharing) s ∧
    s.nlmGetAllSearchResults 4 8 1 = .ok (buf, s') ∧ s.outputWrtPtr < s.outputRdPtr ∧
      buf.length = 2 ∧ s'.got 1 = s'.produced.filter (ofThread 1) ∧
        s'.outputRdPtr = s'.outputWrtPtr := by
  obtain ⟨s, hrun, hwraps, hfirst, hthreads, hkept, hcall⟩ := exists_reached (takingTurns.take 8)
    (fun s ↦ s.outputWrtPtr < s.outputRdPtr ∧ s.got 0 = s.produced.filter (ofThread 0) ∧
      (∀ rd ∈ s.produced, nlmGetThreadId rd.cookie < 2) ∧ s.kept = [] ∧
        (s.nlmGetAllSearchResults 4 8 1).toOption.map (fun r ↦ (r.1.length, r.2.kept)) =
          some (2, [])) (by decide +kernel)
  cases hresult : s.nlmGetAllSearchResults 4 8 1 with
  | error e =>
    rw [hresult] at hcall
    cases hcall
  | ok r =>
    obtain ⟨buf, s'⟩ := r
    rw [hresult] at hcall
    obtain ⟨hlen, hkept'⟩ := Prod.mk.inj (Option.some.inj hcall)
    have hothers : ∀ u, u ≠ 1 → s.got u = s.produced.filter (ofThread u) := by
      intro u hu
      rcases Nat.eq_zero_or_pos u with rfl | hpos
      · exact hfirst
      · have hnone : s.produced.filter (ofThread u) = [] :=
          List.filter_eq_nil_iff.mpr fun rd hrd hown ↦ by
            have hthread := hthreads rd hrd
            rw [beq_iff_eq.mp hown] at hthread
            omega
        have hinv := hrun.inv (by decide) hkept
        have hgot := hinv.got_prefix u
        rw [hnone] at hgot ⊢
        exact List.prefix_nil.mp hgot
    obtain ⟨-, hall⟩ := call_finds_everything (by decide) hrun (by decide) hresult hkept'
    obtain ⟨hgot, hempty⟩ := hall (hlen.trans_lt (by decide))
    exact ⟨s, buf, s', hrun, hresult, hwraps, hlen, hgot, hempty hothers⟩

end DirectRun

end NetL7.Packet
