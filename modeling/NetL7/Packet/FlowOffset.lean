import NetL7.Packet.Populate
import Mathlib.Data.Nat.Bitwise

/-!
# Offsets from the start of a flow

An RD carries 40 bits of the position of a match, in two fields. `populate_results`
hands on these bits alone, although the job remembers the 64-bit position at which
its packet begins.
-/

namespace NetL7.Packet

/-- The offset that a match result carries. -/
def NlmResult.flowOffset (r : NlmResult) : ℕ :=
  match r.u with
  | .isMatch _ _ _ _ flowOffset _ => flowOffset
  | .stats .. => 0

/-- The offset within the packet that a match result carries. -/
def NlmResult.byteOffset (r : NlmResult) : ℕ :=
  match r.u with
  | .isMatch _ _ _ byteOffset _ _ => byteOffset
  | .stats .. => 0

/-- The two fields of the position do not overlap. -/
theorem HwResultDescriptor.offset_eq (rd : HwResultDescriptor) :
    rd.offset = 2 ^ 24 * rd.byteOffsetHi + rd.byteOffsetLo := by
  have hlo : rd.byteOffsetLo < 2 ^ 24 := Nat.mod_lt _ (by decide)
  rw [HwResultDescriptor.offset, Nat.lor_comm, ← Nat.shiftLeft_add_eq_or_of_lt hlo,
    Nat.shiftLeft_eq, Nat.mul_comm]

/-- An RD cannot carry more than 40 bits of a position. -/
theorem HwResultDescriptor.offset_lt (rd : HwResultDescriptor) : rd.offset < 2 ^ 40 := by
  have hlo : rd.byteOffsetLo < 2 ^ 24 := Nat.mod_lt _ (by decide)
  have hhi : rd.byteOffsetHi < 2 ^ 16 := Nat.mod_lt _ (by decide)
  rw [rd.offset_eq]
  omega

namespace Thread

variable {t t' : Thread} {rd : HwResultDescriptor} {r : NlmResult} {mark : Bool}

/-- What a match that is not ignored tells the user. -/
theorem populateResults_match (htype : rd.resultType = fmsMatchResult)
    (h : t.populateResults rd = .ok (t', some r, mark)) :
    r = matchResult rd (t.device.jobs (nlmGetJobIndex rd.cookie)) := by
  unfold populateResults at h
  obtain ⟨-, h⟩ := resultAssert_bind h
  obtain ⟨-, h⟩ := resultAssert_bind h
  obtain ⟨-, h⟩ := resultAssert_bind h
  cases hflow : (t.device.jobs (nlmGetJobIndex rd.cookie)).flow with
  | none =>
      simp only [hflow] at h
      cases h
  | some f =>
      simp only [hflow] at h
      obtain ⟨-, h⟩ := resultAssert_bind h
      rw [if_pos htype] at h
      split at h
      · cases h
      · obtain ⟨-, h⟩ := resultAssert_bind h
        cases h
        rfl

/-- A match at a position of the flow, of which the RD carries the low 40 bits, is
delivered with this position exactly if it has no other bits. -/
theorem populateResults_flowOffset_iff {position : ℕ} (htype : rd.resultType = fmsMatchResult)
    (hrd : rd.offset = position % 2 ^ 40)
    (h : t.populateResults rd = .ok (t', some r, mark)) :
    r.flowOffset = position ↔ position < 2 ^ 40 := by
  have hr : r.flowOffset = rd.offset := by
    rw [populateResults_match htype h]
    rfl
  rw [hr, hrd]
  constructor
  · intro hmod
    rw [← hmod]
    exact Nat.mod_lt _ (by decide)
  · exact Nat.mod_eq_of_lt

end Thread

/-- A thread with one started job of a stateful flow, whose packet of 100 bytes begins at
the given position. -/
def threadAt (position : ℕ) : Thread where
  device :=
    { NlmDevice.attached 0 2 false with
      flows := fun _ ↦
        { NlmFlow.zero with type := .stateful, pdfIndex := 1, flowOffset := position + 100 }
      jobs := fun _ ↦
        { NlmJob.zero with
          flowOffset := position
          flow := some 1
          pd := some 1
          fd := { HwFdDescriptor.zero with cookie := 1 } }
      pds := fun _ ↦
        { HwPdDescriptor.zero with rsv01 := .validAndStarted, packetByteCount := 100, cookie := 1 } }
  m := .attach ⟨⟨4096, 32768, 0⟩, 0, 4096, none⟩
  packetBase := []
  packetEnqueuePolicy := 0

/-- The RD of a match at a position. -/
def matchAt (position : ℕ) : HwResultDescriptor :=
  ⟨position % 2 ^ 24, 1, 0, 2 ^ 31 + position / 2 ^ 24 % 2 ^ 16⟩

/-- A match in the second packet of a flow. -/
theorem populateResults_flowOffset_iff_second :
    ∃ t' r mark, (threadAt 100).populateResults (matchAt 105) = .ok (t', some r, mark) ∧
      (r.flowOffset = 105 ↔ 105 < 2 ^ 40) :=
  ⟨_, _, _, rfl, @Thread.populateResults_flowOffset_iff (threadAt 100) _ (matchAt 105) _ _ 105
    (by decide) (by decide) rfl⟩

/-- The first byte behind `2 ^ 40` is delivered as the first byte of the flow. -/
theorem populateResults_flowOffset_wraps :
    ¬∀ (t t' : Thread) (rd : HwResultDescriptor) (r : NlmResult) (mark : Bool) (position : ℕ),
      position < 2 ^ 64 → rd.resultType = fmsMatchResult → rd.offset = position % 2 ^ 40 →
        t.populateResults rd = .ok (t', some r, mark) → r.flowOffset = position := by
  intro h
  have hrun : ∃ t' r mark, (threadAt (2 ^ 40)).populateResults (matchAt (2 ^ 40)) =
      .ok (t', some r, mark) ∧ r.flowOffset = 0 := ⟨_, _, _, rfl, rfl⟩
  obtain ⟨t', r, mark, hr, hzero⟩ := hrun
  have hpos := h _ t' _ r mark (2 ^ 40) (by decide) (by decide) (by decide) hr
  rw [hzero] at hpos
  exact absurd hpos (by decide)

end NetL7.Packet
