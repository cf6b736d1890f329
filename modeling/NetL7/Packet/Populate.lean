import NetL7.Packet.Enqueue
import NetL7.Packet.ManageOutput

/-!
# Decoding results

`populate_results` turns a result descriptor (RD) into a result for the user and
frees what a completed job held. `get_search_results_from_fifo` calls it for the
RDs that the manager thread handed over, but only inside an assertion, so a build
without assertions pops the RDs and drops them.
-/

namespace NetL7.Packet

open NetL7.Lib

/-! ### The fields of an RD -/

namespace HwResultDescriptor

variable (rd : HwResultDescriptor)

/-- `u1.hw.result_type` -/
def resultType : ℕ := rd.u1 / 2 ^ 29 % 8

/-- `u1.hw_frd.error_code` -/
def errorCode : ℕ := rd.u1 / 2 ^ 24 % 32

/-- `u1.hw.byte_offset_lo`, and `u1.hw_frd.timestamp_lo`. -/
def byteOffsetLo : ℕ := rd.u1 % 2 ^ 24

/-- `u3.hw.match_length` -/
def matchLength : ℕ := rd.u3 / 2 ^ 16 % 2 ^ 16

/-- `u3.hw.rule_id` -/
def ruleId : ℕ := rd.u3 % 2 ^ 16

/-- `u4.hw.valid` -/
def valid : Bool := rd.u4.testBit 31

/-- `u4.hw.end_anchor` -/
def endAnchor : Bool := rd.u4.testBit 30

/-- `u4.hw.gid` -/
def gid : ℕ := rd.u4 / 2 ^ 16 % 2 ^ 12

/-- `u4.hw.byte_offset_hi`, and `u4.hw_frd.timestamp_hi`. -/
def byteOffsetHi : ℕ := rd.u4 % 2 ^ 16

/-- The two halves of a byte offset or of a timestamp. -/
def offset : ℕ := rd.byteOffsetLo ||| rd.byteOffsetHi <<< 24

end HwResultDescriptor

/-- `FMS_MATCH_RESULT` -/
abbrev fmsMatchResult : ℕ := 0

/-- `FMS_FRD_RESULT` -/
abbrev fmsFrdResult : ℕ := 1

/-- `FMS_PRD_RESULT` -/
abbrev fmsPrdResult : ℕ := 2

/-- `FMS_ERD_RESULT` -/
abbrev fmsErdResult : ℕ := 4

/-- `convert_hw_error_code_to_status` -/
def convertHwErrorCodeToStatus : ℕ → NlmStatus
  | 0 => .ok
  | 1 | 4 => .deviceIllegalInstruction
  | 2 | 5 => .deviceSramAddr
  | 3 | 6 => .deviceParityError
  | 7 => .deviceNfaStateLimit
  | 8 => .endOfJob
  | 9 => .deviceNfaTimeout
  | 10 => .deviceDfaTimeout
  | 13 => .deviceBusyPollTimeout
  | 15 => .deviceContextFail
  | 0x15 => .deviceResultClamp
  | 0x16 => .deviceContextClamp
  | 0x17 => .deviceContextRingEmpty
  | 0x1C => .invalidGroupid
  | _ => .deviceFailure

/-! ### Results -/

/-- The union of `struct nlm_result`. -/
inductive ResultInfo
  | isMatch (ruleId groupId databaseId byteOffset flowOffset matchLength : ℕ)
  | stats (timestamp totalStateCnt peakStateCnt finalStateCnt : ℕ)
  deriving DecidableEq, Repr

/-- `struct nlm_result` -/
structure NlmResult where
  status : NlmStatus
  cookie : ℕ
  u : ResultInfo
  deriving DecidableEq, Repr

/-- The assertions of `populate_results`, and a NULL flow. -/
inductive ResultFault
  | zeroCookie
  | notValid
  | otherCookie
  | nullFlow
  | pdKind
  | flowErrored
  | pdNotStarted
  | flowNotInvalid
  | notFrd
  | unsupportedType
  | notice (e : Fault)
  deriving DecidableEq, Repr

/-- `api_assert` -/
def resultAssert (b : Bool) (e : ResultFault) : Except ResultFault Unit :=
  if b then .ok () else .error e

/-- What an RD of a match tells the user. -/
def matchResult (rd : HwResultDescriptor) (job : NlmJob) : NlmResult where
  status := if rd.endAnchor then .endAnchored else .ok
  cookie := job.userCookie
  u := .isMatch rd.ruleId (rd.gid % 1024) (rd.gid / 1024)
    ((2 ^ 64 + rd.offset - job.flowOffset % 2 ^ 64) % 2 ^ 32) rd.offset rd.matchLength

/-- What the RD of a completed job tells the user. -/
def statsResult (rd : HwResultDescriptor) (job : NlmJob) : NlmResult where
  status := if rd.errorCode = 0 then .endOfJob else convertHwErrorCodeToStatus rd.errorCode
  cookie := job.userCookie
  u := .stats rd.offset 0 0 0

namespace Thread

variable (t : Thread)

/-- The part of `populate_results` that frees the PD of a completed job. -/
def completePd (rd : HwResultDescriptor) (f p : ℕ) : Except ResultFault Thread := do
  resultAssert ((t.device.pds p).rsv01 == .validAndStarted) .pdNotStarted
  let t ←
    if (t.device.pds p).flowTerm then do
      resultAssert ((t.device.flows f).type == .invalid) .flowNotInvalid
      resultAssert (rd.resultType == fmsFrdResult) .notFrd
      .ok { t with device := t.device.releaseFlow f, m := t.m.freeFlow f }
    else if ((t.device.flows f).type = .stateful ∨
        (t.device.flows f).type = .invalid ∧ (t.device.flows f).isStateless = false) ∧
          rd.resultType = fmsFrdResult then
      match t.device.nlmFlowNoticeJobCompletion f p with
      | .ok device => .ok { t with device := device }
      | .error e => .error (.notice e)
    else .ok t
  .ok { t with device := t.device.sysmemFreePd p, m := t.m.freePd p }

/-- The part of `populate_results` that counts down the jobs of a stateless flow. -/
def completeStateless (rd : HwResultDescriptor) (f : ℕ) : Except ResultFault Thread := do
  resultAssert (rd.resultType == fmsFrdResult) .notFrd
  let t := { t with device := t.device.setFlow f NlmFlow.uncountJob }
  if (t.device.flows f).type = .invalid ∧ (t.device.flows f).jobSeqId = 0 then
    .ok { t with device := t.device.releaseFlow f, m := t.m.freeFlow f }
  else .ok t

/-- What `populate_results` does for an FRD or a PRD of the job `j`. -/
def completeJob (rd : HwResultDescriptor) (j f : ℕ) (pd : Option ℕ) :
    Except ResultFault Thread := do
  let t := { t with device := t.device.noteError f rd.errorCode }
  let t ← match pd with
    | some p => t.completePd rd f p
    | none => .ok t
  let t := { t with m := t.m.freeJob j }
  if (t.device.flows f).isStateless then t.completeStateless rd f else .ok t

/-- `populate_results`: the thread afterwards, the result if there is one, and whether
the RD is marked. The cookie that is written behind the results is left out. -/
def populateResults (rd : HwResultDescriptor) :
    Except ResultFault (Thread × Option NlmResult × Bool) := do
  resultAssert (rd.cookie != 0) .zeroCookie
  resultAssert rd.valid .notValid
  let j := nlmGetJobIndex rd.cookie
  let job := t.device.jobs j
  resultAssert (job.fd.cookie == rd.cookie) .otherCookie
  match job.flow with
  | none => .error .nullFlow
  | some f =>
    resultAssert ((t.device.flows f).isStateless == job.pd.isNone) .pdKind
    if rd.resultType = fmsMatchResult then
      if rd.endAnchor = true ∧ (t.device.flows f).errored ≠ 0 then .ok (t, none, false)
      else do
        resultAssert ((t.device.flows f).errored == 0) .flowErrored
        .ok (t, some (matchResult rd job), true)
    else if rd.resultType = fmsFrdResult ∨ rd.resultType = fmsPrdResult then do
      let t' ← t.completeJob rd j f job.pd
      .ok (t', some (statsResult rd job), true)
    else if rd.resultType = fmsErdResult then .ok (t, none, true)
    else .error .unsupportedType

/-- The RDs that yield no result: error reports, and end-anchored matches of a flow that
has errored. -/
def Ignored (rd : HwResultDescriptor) : Prop :=
  rd.resultType = fmsErdResult ∨
    rd.resultType = fmsMatchResult ∧ rd.endAnchor = true ∧
      ∃ f, (t.device.jobs (nlmGetJobIndex rd.cookie)).flow = some f ∧
        (t.device.flows f).errored ≠ 0

end Thread

theorem resultAssert_bind {α : Type} {b : Bool} {e : ResultFault} {f : Unit → Except ResultFault α}
    {a : α} (h : (resultAssert b e >>= f) = .ok a) : b = true ∧ f () = .ok a := by
  cases b with
  | true => exact ⟨rfl, h⟩
  | false => cases h

theorem except_bind {α β : Type} {m : Except ResultFault α} {f : α → Except ResultFault β} {b : β}
    (h : (m >>= f) = .ok b) : ∃ a, m = .ok a ∧ f a = .ok b := by
  cases m with
  | ok a => exact ⟨a, rfl, h⟩
  | error e => cases h

theorem Thread.populateResults_cases {t t' : Thread} {rd : HwResultDescriptor}
    {result : Option NlmResult} {mark : Bool}
    (h : t.populateResults rd = .ok (t', result, mark)) :
    t.Ignored rd ∧ t' = t ∧ result = none ∨ ¬t.Ignored rd ∧ ∃ r, result = some r := by
  unfold Thread.populateResults at h
  obtain ⟨-, h⟩ := resultAssert_bind h
  obtain ⟨-, h⟩ := resultAssert_bind h
  obtain ⟨-, h⟩ := resultAssert_bind h
  cases hflow : (t.device.jobs (nlmGetJobIndex rd.cookie)).flow with
  | none =>
      simp only [hflow] at h
      cases h
  | some f =>
      simp only [hflow] at h
      obtain ⟨-, h⟩ := resultAssert_bind h
      have hignored : t.Ignored rd ↔ rd.resultType = fmsErdResult ∨
          rd.resultType = fmsMatchResult ∧ rd.endAnchor = true ∧
            (t.device.flows f).errored ≠ 0 := by
        simp [Thread.Ignored, hflow]
      rw [hignored]
      by_cases hmatch : rd.resultType = fmsMatchResult
      · rw [if_pos hmatch] at h
        by_cases hanchor : rd.endAnchor = true ∧ (t.device.flows f).errored ≠ 0
        · rw [if_pos hanchor] at h
          cases h
          exact Or.inl ⟨Or.inr ⟨hmatch, hanchor⟩, rfl, rfl⟩
        · rw [if_neg hanchor] at h
          obtain ⟨-, h⟩ := resultAssert_bind h
          cases h
          refine Or.inr ⟨?_, _, rfl⟩
          rintro (herd | hno)
          · rw [hmatch] at herd
            cases herd
          · exact hanchor hno.2
      · rw [if_neg hmatch] at h
        by_cases hdone : rd.resultType = fmsFrdResult ∨ rd.resultType = fmsPrdResult
        · rw [if_pos hdone] at h
          obtain ⟨t₁, -, h⟩ := except_bind h
          cases h
          refine Or.inr ⟨?_, _, rfl⟩
          rintro (herd | hno)
          · rw [herd] at hdone
            rcases hdone with hd | hd <;> cases hd
          · exact hmatch hno.1
        · rw [if_neg hdone] at h
          by_cases herd : rd.resultType = fmsErdResult
          · rw [if_pos herd] at h
            cases h
            exact Or.inl ⟨Or.inl herd, rfl, rfl⟩
          · rw [if_neg herd] at h
            cases h

end NetL7.Packet
