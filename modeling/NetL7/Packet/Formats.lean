import Mathlib.Data.Nat.Notation

/-!
# Descriptors

The flow descriptor (FD) and the packet descriptor (PD) that the software
hands to the hardware. Bit-fields are separate fields; the values stored into
them fit by the checks of the packet interface.
-/

namespace NetL7.Packet

/-- `fms_flow_type` -/
inductive FmsFlowType
  | stateless
  | init
  | stateful
  | finish
  | passThrough
  | reinit
  deriving DecidableEq, Repr

/-- `struct hw_pd_nla`, the link to the next PD. -/
structure HwPdNla where
  rsvCookie : ℕ
  pdNlaIndex : ℕ
  deriving DecidableEq, Repr

/-- `struct hw_fd_descriptor` -/
structure HwFdDescriptor where
  flowType : FmsFlowType
  endAnchor : Bool
  startAnchor : Bool
  gidCnt : ℕ
  pdfIndex : ℕ
  rsv11 : ℕ
  gid1 : ℕ
  rsv12 : ℕ
  gid0 : ℕ
  rsv21 : ℕ
  gid3 : ℕ
  rsv22 : ℕ
  gid2 : ℕ
  error : ℕ
  rsv31 : ℕ
  gid5 : ℕ
  rsv32 : ℕ
  gid4 : ℕ
  packetBase : ℕ
  rsv05 : ℕ
  swDisconnect : Bool
  packetPrd : Bool
  flowTerm : Bool
  packetByteCount : ℕ
  packetAddr : ℕ
  cookie : ℕ
  pdNla : HwPdNla
  deriving DecidableEq, Repr

/-- The FD of zero bytes. -/
def HwFdDescriptor.zero : HwFdDescriptor where
  flowType := .stateless
  endAnchor := false
  startAnchor := false
  gidCnt := 0
  pdfIndex := 0
  rsv11 := 0
  gid1 := 0
  rsv12 := 0
  gid0 := 0
  rsv21 := 0
  gid3 := 0
  rsv22 := 0
  gid2 := 0
  error := 0
  rsv31 := 0
  gid5 := 0
  rsv32 := 0
  gid4 := 0
  packetBase := 0
  rsv05 := 0
  swDisconnect := false
  packetPrd := false
  flowTerm := false
  packetByteCount := 0
  packetAddr := 0
  cookie := 0
  pdNla := ⟨0, 0⟩

/-- The state of a PD, kept in its field `rsv01`. -/
inductive PdState
  | none
  | createdButNotStarted
  | validAndStarted
  deriving DecidableEq, Repr

/-- `struct hw_pd_descriptor` -/
structure HwPdDescriptor where
  packetBase : ℕ
  rsv01 : PdState
  swDisconnect : Bool
  packetPrd : Bool
  flowTerm : Bool
  packetByteCount : ℕ
  packetAddr : ℕ
  cookie : ℕ
  pdNla : HwPdNla
  deriving DecidableEq, Repr

/-- `HW_COPY_PD_INTO_FD` -/
def HwFdDescriptor.copyPd (fd : HwFdDescriptor) (pd : HwPdDescriptor) : HwFdDescriptor :=
  { fd with
    packetByteCount := pd.packetByteCount
    packetBase := pd.packetBase
    packetAddr := pd.packetAddr
    packetPrd := pd.packetPrd
    flowTerm := pd.flowTerm
    swDisconnect := pd.swDisconnect }

/-- `NLM_GET_THREAD_ID` -/
def nlmGetThreadId (cookie : ℕ) : ℕ := (cookie &&& 0xFF000000) >>> 24

/-- `NLM_GET_JOB_INDEX` -/
def nlmGetJobIndex (cookie : ℕ) : ℕ := cookie &&& 0x00FFFFFF

/-- `NLM_ENCODE_COOKIE` -/
def nlmEncodeCookie (threadId jobidx : ℕ) : ℕ :=
  ((threadId <<< 24) &&& 0xFF000000) ||| (jobidx &&& 0x00FFFFFF)

end NetL7.Packet
