import NetL7.Demo.FmsXfd
import NetL7.Packet.FlowGroups

/-!
# The frames of the demo

`packet_tx` of `dpi_demo.c` sends frames to the search processor: an Ethernet header, a
`struct fms_xfd` that is cut after the groups it has, an EtherType, and an IP packet. Three
lengths are written by hand, in seven branches for the groups and in the headers of IP and UDP.
-/

namespace NetL7.Demo

open NetL7.Lib NetL7.Packet

/-! ### Headers as bytes -/

/-- The bytes of a word in memory. -/
def bytes16 (x : BitVec 16) : List Byte :=
  [x.extractLsb' 0 8, x.extractLsb' 8 8]

def bytes32 (x : BitVec 32) : List Byte :=
  [x.extractLsb' 0 8, x.extractLsb' 8 8, x.extractLsb' 16 8, x.extractLsb' 24 8]

def htons (x : BitVec 16) : BitVec 16 :=
  x.extractLsb' 0 8 ++ x.extractLsb' 8 8

def htonl (x : BitVec 32) : BitVec 32 :=
  x.extractLsb' 0 8 ++ x.extractLsb' 8 8 ++ x.extractLsb' 16 8 ++ x.extractLsb' 24 8

/-- `struct ether_header` -/
structure EtherHeader where
  etherDhost : List Byte
  etherShost : List Byte
  etherType : BitVec 16

def EtherHeader.bytes (h : EtherHeader) : List Byte :=
  h.etherDhost ++ h.etherShost ++ bytes16 h.etherType

/-- `struct iphdr` -/
structure Iphdr where
  version : BitVec 4
  ihl : BitVec 4
  tos : Byte
  totLen : BitVec 16
  id : BitVec 16
  fragOff : BitVec 16
  ttl : Byte
  protocol : Byte
  check : BitVec 16
  saddr : BitVec 32
  daddr : BitVec 32

def Iphdr.bytes (h : Iphdr) : List Byte :=
  [h.version ++ h.ihl, h.tos] ++ bytes16 h.totLen ++ bytes16 h.id ++ bytes16 h.fragOff ++
    [h.ttl, h.protocol] ++ bytes16 h.check ++ bytes32 h.saddr ++ bytes32 h.daddr

/-- The loop of `ip_chksum` over the words of the header. -/
def sumWords (words : List (BitVec 16)) : BitVec 32 :=
  words.foldl (fun chksum word ↦ chksum + word.setWidth 32) 0

/-- The end of `ip_chksum`: the carries are added, and the complement is taken. -/
def finalChk (chksum : BitVec 32) : BitVec 16 :=
  let chksum := (chksum >>> 16) + (chksum &&& 0xffff)
  let chksum := chksum + (chksum >>> 16)
  (~~~chksum &&& 0xffff).setWidth 16

/-- `ip_chksum` -/
def ipChksum (h : Iphdr) : Iphdr :=
  let h := { h with check := 0 }
  { h with check := finalChk (sumWords (littleEndian h.bytes)) }

/-- `struct udphdr` -/
structure Udphdr where
  source : BitVec 16
  dest : BitVec 16
  len : BitVec 16
  check : BitVec 16

def Udphdr.bytes (h : Udphdr) : List Byte :=
  bytes16 h.source ++ bytes16 h.dest ++ bytes16 h.len ++ bytes16 h.check

/-! ### `packet_tx` -/

/-- The first bytes of a buffer. -/
def firstBytes (packet : ℕ → Byte) (length : ℕ) : List Byte :=
  (List.range length).map packet

/-- The buffer after bytes are copied to a position. -/
def writeBytes (packet : ℕ → Byte) (position : ℕ) (bytes : List Byte) : ℕ → Byte :=
  fun i ↦ if i < position then packet i else (bytes[i - position]?).getD (packet i)

/-- `eval_str` -/
def evalStr : List Byte :=
  [0x61, 0x62, 0x63, 0x64] ++ List.replicate 60 0

def dataLen : ℕ := 32

def etherHeader : EtherHeader where
  etherDhost := [0x00, 0x01, 0x02, 0x03, 0x04, 0x05]
  etherShost := [0x10, 0x20, 0x30, 0x40, 0x50, 0x60]
  etherType := htons 0x4321

/-- The first `switch`: the header for a frame, and the number of frames. -/
def fmsHeader (flow : NlmFlow) (flowType : FmsFlowType) : FmsXfd × ℕ :=
  let x := FmsXfd.zero
  let cnt := BitVec.ofNat 3 flow.dbGroupId.length
  let (x, packets) :=
    match flowType with
    | .init => ({ x with flowType := flowTypeCode .init, gidCnt := 0 }, 1)
    | .stateless =>
      ({ x with
        flowType := flowTypeCode .stateless, endAnchor := 1, startAnchor := 1, pdfIndexHi := 0,
        pdfIndexMi := 0, pdfIndexLo := 0, gidCnt := cnt }, 32)
    | .stateful =>
      ({ x with
        flowType := flowTypeCode .stateful, endAnchor := 0, startAnchor := 0,
        pdfIndexHi := BitVec.ofNat 8 (flow.pdfIndex >>> 16 &&& 0xff),
        pdfIndexMi := BitVec.ofNat 8 (flow.pdfIndex >>> 8 &&& 0xff),
        pdfIndexLo := BitVec.ofNat 8 (flow.pdfIndex &&& 0xff), gidCnt := cnt }, 32)
    | _ => (x, 32)
  ({ x with hOffset := 2, padCnt := 0, cookie := 0 }, packets)

def ipHeader : Iphdr :=
  ipChksum
    { ihl := 5, version := 4, tos := 0, id := 1, fragOff := 0, ttl := 128,
      saddr := htonl 0xc0a82115, daddr := htonl 0xc0a83869, protocol := 17,
      totLen := htons (BitVec.ofNat 16 (20 + 8 + evalStr.length)), check := 0 }

def udpHeader : Udphdr where
  source := htons 300
  dest := htons 80
  len := htons (BitVec.ofNat 16 (8 + dataLen))
  check := 0

/-- `packet_tx`, once the device is open: the frames that are sent, one after the other. -/
def packetTx (flow : NlmFlow) (flowType : FmsFlowType) : List (List Byte) :=
  let packet := writeBytes (fun _ ↦ 0) 0 etherHeader.bytes
  let fmsPosition := 14
  let (x, packets) := fmsHeader flow flowType
  let (x, added) := x.setGroups fun i ↦ flow.dbGroupId.getD i 0
  let packet := writeBytes packet fmsPosition x.bytes
  let length := fmsPosition + added
  let packet := writeBytes packet length (bytes16 (htons 0x0800))
  let length := length + 2
  let packet := writeBytes packet length ipHeader.bytes
  let length := length + 20
  let packet := writeBytes packet length udpHeader.bytes
  let length := length + 8
  let packet := writeBytes packet length evalStr
  let length := length + evalStr.length
  (List.range packets).map fun i ↦
    firstBytes (writeBytes packet (fmsPosition + 3) [BitVec.ofNat 8 i]) length

/-! ### What a frame says -/

/-- The `struct fms_xfd` of a frame, after its Ethernet header. -/
def frameXfd (frame : List Byte) : FmsXfd :=
  FmsXfd.read (frame.drop 14)

/-- What comes after it, for the number of groups that it has. -/
def afterXfd (frame : List Byte) : List Byte :=
  frame.drop (14 + FmsXfd.headerLength (frameXfd frame).gidCnt.toNat)

/-- What comes after the EtherType there. -/
def ipPacket (frame : List Byte) : List Byte :=
  (afterXfd frame).drop 2

/-- A field of two bytes in network order. -/
def networkField (bytes : List Byte) (i : ℕ) : ℕ :=
  (bytes.getD i 0 ++ bytes.getD (i + 1) 0).toNat

/-- What a frame with the given groups says about its flow and its lengths. -/
structure FrameSays (flow : NlmFlow) (flowType : FmsFlowType) (groups : List ℕ)
    (frame : List Byte) : Prop where
  flowType_eq : (frameXfd frame).flowType = flowTypeCode flowType
  gidCnt_eq : (frameXfd frame).gidCnt.toNat = groups.length
  groups_eq : (frameXfd frame).groups = groups
  pdfIndex_eq : flowType = .stateful → (frameXfd frame).pdfIndex = flow.pdfIndex
  etherType_eq : (afterXfd frame).take 2 = [0x08, 0x00]
  ipHeader_eq : (ipPacket frame).take 20 = ipHeader.bytes
  ipSum_eq : onesSum (bigEndian ((ipPacket frame).take 20)) = 0xffff#16
  totLen_eq : networkField (ipPacket frame) 2 = (ipPacket frame).length

/-- The length field of the UDP header. -/
def udpLength (frame : List Byte) : ℕ :=
  networkField ((ipPacket frame).drop 20) 4

/-- A flow as the packet interface keeps it. -/
structure FlowInRange (flow : NlmFlow) : Prop where
  groups_le : flow.dbGroupId.length ≤ 6
  groups_lt : ∀ id ∈ flow.dbGroupId, id < 2 ^ 12
  pdfIndex_lt : flow.pdfIndex < 2 ^ 24

/-- The types of frames that are sent. -/
def IsSent (flowType : FmsFlowType) : Prop :=
  flowType = .init ∨ flowType = .stateless ∨ flowType = .stateful

/-- The groups in a frame: an INIT frame has none. -/
def sentGroups (flow : NlmFlow) (flowType : FmsFlowType) : List ℕ :=
  if flowType = .init then [] else flow.dbGroupId

/-! ### The checksum -/

theorem foldl_chksum {words : List (BitVec 16)} {acc : BitVec 32}
    (h : acc.toNat + natSum words < 2 ^ 32) :
    (words.foldl (fun chksum word ↦ chksum + word.setWidth 32) acc).toNat =
      acc.toNat + natSum words := by
  induction words generalizing acc with
  | nil => rfl
  | cons word words ih =>
    rw [natSum_cons] at h
    have hword : (word.setWidth 32).toNat = word.toNat :=
      BitVec.toNat_setWidth_of_le (by decide)
    have hadd : (acc + word.setWidth 32).toNat = acc.toNat + word.toNat := by
      rw [BitVec.toNat_add, hword]
      exact Nat.mod_eq_of_lt (by omega)
    rw [List.foldl_cons, ih (by omega), hadd, natSum_cons, Nat.add_assoc]

theorem finalChk_spec (chksum : BitVec 32) :
    2 ^ 16 - 1 ∣ chksum.toNat + (finalChk chksum).toNat ∧
      chksum.toNat + (finalChk chksum).toNat ≠ 0 := by
  have hlt := chksum.isLt
  have hupper : (chksum >>> 16).toNat = chksum.toNat / 2 ^ 16 := by
    rw [BitVec.toNat_ushiftRight, Nat.shiftRight_eq_div_pow]
  have hmask : ∀ c : BitVec 32, (c &&& 0xffff).toNat = c.toNat % 2 ^ 16 := fun c ↦ by
    rw [BitVec.toNat_and]
    exact Nat.and_two_pow_sub_one_eq_mod c.toNat 16
  -- `once` and `twice` are the sums after the carries are added once and twice
  obtain ⟨once, honce⟩ : ∃ once, once = (chksum >>> 16) + (chksum &&& 0xffff) := ⟨_, rfl⟩
  have hone : once.toNat = chksum.toNat / 2 ^ 16 + chksum.toNat % 2 ^ 16 := by
    rw [honce, BitVec.toNat_add, hupper, hmask]
    exact Nat.mod_eq_of_lt (by omega)
  have htwo : (once + (once >>> 16)).toNat = once.toNat + once.toNat / 2 ^ 16 := by
    rw [BitVec.toNat_add, BitVec.toNat_ushiftRight, Nat.shiftRight_eq_div_pow]
    exact Nat.mod_eq_of_lt (by omega)
  have hfinal : (finalChk chksum).toNat =
      2 ^ 16 - 1 - (once.toNat + once.toNat / 2 ^ 16) % 2 ^ 16 := by
    rw [finalChk, ← honce, BitVec.toNat_setWidth, hmask, BitVec.toNat_not, htwo]
    omega
  rw [hfinal, hone]
  constructor
  · exact ⟨chksum.toNat / 2 ^ 16 +
      (chksum.toNat / 2 ^ 16 + chksum.toNat % 2 ^ 16) / 2 ^ 16 + 1, by omega⟩
  · omega

theorem natSum_check (h : Iphdr) (check : BitVec 16) :
    natSum (littleEndian { h with check := check }.bytes) =
      natSum (littleEndian { h with check := 0 }.bytes) + check.toNat := by
  have hword : ∀ x : BitVec 16, x.extractLsb' 8 8 ++ x.extractLsb' 0 8 = x :=
    fun _ ↦ BitVec.extractLsb'_append_extractLsb'
  simp only [Iphdr.bytes, bytes16, bytes32, List.cons_append, List.nil_append, littleEndian,
    natSum_cons, natSum_nil, hword]
  have hzero : (0 : BitVec 16).toNat = 0 := rfl
  omega

/-- With its checksum, every header adds up to all ones. -/
theorem onesSum_ipChksum (h : Iphdr) :
    onesSum (bigEndian (ipChksum h).bytes) = BitVec.allOnes 16 := by
  obtain ⟨hdvd, hne⟩ := finalChk_spec (sumWords (littleEndian { h with check := 0 }.bytes))
  have hsum : (sumWords (littleEndian { h with check := 0 }.bytes)).toNat =
      natSum (littleEndian { h with check := 0 }.bytes) := by
    have hle : natSum (littleEndian { h with check := 0 }.bytes) ≤ 10 * (2 ^ 16 - 1) :=
      natSum_le (Nat.le_refl 10)
    have hzero : (0 : BitVec 32).toNat = 0 := rfl
    rw [sumWords, foldl_chksum (by omega), hzero, Nat.zero_add]
  rw [hsum, ← natSum_check] at hdvd hne
  exact (onesSum_bigEndian_iff (by decide) _).mpr ⟨hdvd, hne⟩

/-! ### The bytes of a frame -/

section Buffer

variable {packet : ℕ → Byte} {position n : ℕ} {bytes : List Byte}

@[simp] theorem length_firstBytes : (firstBytes packet n).length = n := by
  rw [firstBytes, List.length_map, List.length_range]

theorem getElem?_firstBytes (i : ℕ) :
    (firstBytes packet n)[i]? = if i < n then some (packet i) else none := by
  rw [firstBytes, List.getElem?_map]
  split_ifs with h
  · rw [List.getElem?_range h, Option.map_some]
  · rw [List.getElem?_eq_none (by rw [List.length_range]; omega), Option.map_none]

theorem firstBytes_writeBytes (h : position ≤ n) (hn : n ≤ position + bytes.length) :
    firstBytes (writeBytes packet position bytes) n =
      firstBytes packet position ++ bytes.take (n - position) := by
  apply List.ext_getElem?
  intro i
  rw [getElem?_firstBytes, List.getElem?_append, length_firstBytes, getElem?_firstBytes,
    List.getElem?_take, writeBytes]
  by_cases hi : i < position
  · rw [if_pos (Nat.lt_of_lt_of_le hi h), if_pos hi, if_pos hi, if_pos hi]
  · rw [if_neg hi, if_neg hi]
    by_cases hin : i < n
    · have hget : i - position < bytes.length := by omega
      rw [if_pos hin, if_pos (by omega), List.getElem?_eq_getElem hget, Option.getD_some]
    · rw [if_neg hin, if_neg (by omega)]

theorem firstBytes_append {k : ℕ} (h : bytes.length = k) :
    firstBytes (writeBytes packet n bytes) (n + k) = firstBytes packet n ++ bytes := by
  subst h
  rw [firstBytes_writeBytes (Nat.le_add_right _ _) (Nat.le_refl _), Nat.add_sub_cancel_left,
    List.take_length]

theorem firstBytes_writeByte (b : Byte) :
    firstBytes (writeBytes packet position [b]) n = (firstBytes packet n).set position b := by
  apply List.ext_getElem?
  intro i
  rw [getElem?_firstBytes, List.getElem?_set, length_firstBytes, getElem?_firstBytes, writeBytes]
  by_cases hi : position = i
  · subst hi
    simp
  · rw [if_neg hi]
    by_cases hlt : i < position
    · rw [if_pos hlt]
    · rw [if_neg hlt, List.getElem?_eq_none (by rw [List.length_singleton]; omega),
        Option.getD_none]

end Buffer

/-- The bytes of a frame. -/
def frameBytes (x : FmsXfd) (length : ℕ) : List Byte :=
  etherHeader.bytes ++ (x.bytes.take length ++
    (bytes16 (htons 0x0800) ++ (ipHeader.bytes ++ (udpHeader.bytes ++ evalStr))))

theorem set_frameBytes (x : FmsXfd) {length : ℕ} (h : 3 < length) (cookie : Byte) :
    (frameBytes x length).set 17 cookie = frameBytes { x with cookie := cookie } length := by
  have hether : etherHeader.bytes.length = 14 := rfl
  have hlt : 17 - 14 < (x.bytes.take length).length := by
    rw [List.length_take]
    exact Nat.lt_min.mpr ⟨h, show 3 < 16 by decide⟩
  have hset : x.bytes.set 3 cookie = FmsXfd.bytes { x with cookie := cookie } := rfl
  rw [frameBytes, List.set_append_right _ _ (by rw [hether]; decide), hether,
    List.set_append_left _ _ hlt, ← List.take_set, hset]
  rfl

theorem packetTx_eq {flow : NlmFlow} {flowType : FmsFlowType} {x : FmsXfd} {packets length : ℕ}
    {y : FmsXfd} (hx : fmsHeader flow flowType = (x, packets))
    (hy : x.setGroups (flow.dbGroupId.getD · 0) = (y, length)) (h : 3 < length)
    (hlength : length ≤ 16) :
    packetTx flow flowType = (List.range packets).map fun i ↦
      frameBytes { y with cookie := BitVec.ofNat 8 i } length := by
  have hether : etherHeader.bytes.length = 14 := rfl
  have hfirst : firstBytes (writeBytes (fun _ ↦ 0) 0 etherHeader.bytes) 14 = etherHeader.bytes :=
    firstBytes_append hether
  have htype : (bytes16 (htons 0x0800)).length = 2 := rfl
  have hip : ipHeader.bytes.length = 20 := rfl
  have hudp : udpHeader.bytes.length = 8 := rfl
  rw [packetTx, hx]
  simp only [hy]
  apply List.map_congr_left
  intro i _
  rw [← set_frameBytes _ h, firstBytes_writeByte, firstBytes_append rfl, firstBytes_append hudp,
    firstBytes_append hip, firstBytes_append htype,
    firstBytes_writeBytes (Nat.le_add_right _ _) (Nat.add_le_add_left hlength _),
    Nat.add_sub_cancel_left, hfirst]
  simp only [frameBytes, List.append_assoc]

/-! ### What is read from a frame -/

section Frame

variable {x : FmsXfd}

/-- A frame whose header is cut after its groups. -/
def cutFrame (x : FmsXfd) : List Byte :=
  frameBytes x (FmsXfd.headerLength x.gidCnt.toNat)

theorem frameXfd_cutFrame (h : x.gidCnt.toNat ≤ 6) :
    FmsXfd.SameFlow x (frameXfd (cutFrame x)) ∧ (frameXfd (cutFrame x)).groups = x.groups := by
  have hether : etherHeader.bytes.length = 14 := rfl
  rw [frameXfd, cutFrame, frameBytes, ← hether, List.drop_left]
  exact FmsXfd.read_take h _

theorem afterXfd_cutFrame (h : x.gidCnt.toNat ≤ 6) :
    afterXfd (cutFrame x) =
      bytes16 (htons 0x0800) ++ (ipHeader.bytes ++ (udpHeader.bytes ++ evalStr)) := by
  have hlength : (etherHeader.bytes ++
      x.bytes.take (FmsXfd.headerLength x.gidCnt.toNat)).length =
        14 + FmsXfd.headerLength x.gidCnt.toNat := by
    have hether : etherHeader.bytes.length = 14 := rfl
    have hbytes : x.bytes.length = 16 := rfl
    rw [List.length_append, List.length_take, hether, hbytes, FmsXfd.headerLength]
    omega
  rw [afterXfd, (frameXfd_cutFrame h).1.gidCnt_eq, cutFrame, frameBytes, ← List.append_assoc]
  exact List.drop_left' hlength

theorem ipPacket_cutFrame (h : x.gidCnt.toNat ≤ 6) :
    ipPacket (cutFrame x) = ipHeader.bytes ++ (udpHeader.bytes ++ evalStr) := by
  rw [ipPacket, afterXfd_cutFrame h]
  rfl

/-- What `packet_tx` has stored in the header of a frame. -/
structure HeaderOf (flow : NlmFlow) (flowType : FmsFlowType) (x : FmsXfd) : Prop where
  flowType_eq : x.flowType = flowTypeCode flowType
  gidCnt_eq : x.gidCnt.toNat = (sentGroups flow flowType).length
  gidCnt_le : x.gidCnt.toNat ≤ 6
  groups_eq : x.groups = sentGroups flow flowType
  pdfIndex_eq : flowType = .stateful → x.pdfIndex = flow.pdfIndex

theorem HeaderOf.frameSays {flow : NlmFlow} {flowType : FmsFlowType}
    (h : HeaderOf flow flowType x) :
    FrameSays flow flowType (sentGroups flow flowType) (cutFrame x) where
  flowType_eq := (frameXfd_cutFrame h.gidCnt_le).1.flowType_eq.trans h.flowType_eq
  gidCnt_eq := by rw [(frameXfd_cutFrame h.gidCnt_le).1.gidCnt_eq, h.gidCnt_eq]
  groups_eq := (frameXfd_cutFrame h.gidCnt_le).2.trans h.groups_eq
  pdfIndex_eq hstateful :=
    (frameXfd_cutFrame h.gidCnt_le).1.pdfIndex_eq.trans (h.pdfIndex_eq hstateful)
  etherType_eq := by
    rw [afterXfd_cutFrame h.gidCnt_le]
    rfl
  ipHeader_eq := by
    rw [ipPacket_cutFrame h.gidCnt_le]
    rfl
  ipSum_eq := by
    have htake : (ipPacket (cutFrame x)).take 20 = ipHeader.bytes := by
      rw [ipPacket_cutFrame h.gidCnt_le]
      rfl
    rw [htake]
    exact onesSum_ipChksum _
  totLen_eq := by
    rw [ipPacket_cutFrame h.gidCnt_le]
    rfl

end Frame

theorem toNat_pdfIndex {index : ℕ} (h : index < 2 ^ 24) :
    (BitVec.ofNat 8 (index >>> 16 &&& 0xff) ++ BitVec.ofNat 8 (index >>> 8 &&& 0xff) ++
      BitVec.ofNat 8 (index &&& 0xff)).toNat = index := by
  have hbyte : ∀ n : ℕ, (BitVec.ofNat 8 (n &&& 0xff)).toNat = n % 2 ^ 8 := fun n ↦ by
    rw [BitVec.toNat_ofNat, Nat.and_two_pow_sub_one_eq_mod _ 8, Nat.mod_mod]
  rw [toNat_append_eq, toNat_append_eq, hbyte, hbyte, hbyte, Nat.shiftRight_eq_div_pow,
    Nat.shiftRight_eq_div_pow]
  omega

theorem map_getD_range (l : List ℕ) : (List.range l.length).map (l.getD · 0) = l := by
  apply List.ext_getElem
  · rw [List.length_map, List.length_range]
  · intro i _ hi
    rw [List.getElem_map, List.getElem_range, List.getD_eq_getElem?_getD,
      List.getElem?_eq_getElem hi, Option.getD_some]

theorem fmsHeader_spec {flow : NlmFlow} {flowType : FmsFlowType} (hflow : FlowInRange flow)
    (hsent : IsSent flowType) :
    (fmsHeader flow flowType).1.flowType = flowTypeCode flowType ∧
      (fmsHeader flow flowType).1.gidCnt.toNat = (sentGroups flow flowType).length ∧
      (flowType = .stateful → (fmsHeader flow flowType).1.pdfIndex = flow.pdfIndex) ∧
      (fmsHeader flow flowType).2 = if flowType = .init then 1 else 32 := by
  have hcnt : (BitVec.ofNat 3 flow.dbGroupId.length).toNat = flow.dbGroupId.length := by
    have hle := hflow.groups_le
    rw [BitVec.toNat_ofNat]
    exact Nat.mod_eq_of_lt (by omega)
  rcases hsent with rfl | rfl | rfl
  · exact ⟨rfl, rfl, nofun, rfl⟩
  · exact ⟨rfl, hcnt, nofun, rfl⟩
  · refine ⟨rfl, hcnt, fun _ ↦ ?_, rfl⟩
    exact toNat_pdfIndex hflow.pdfIndex_lt

theorem sentGroups_length_le {flow : NlmFlow} (hflow : FlowInRange flow) (flowType : FmsFlowType) :
    (sentGroups flow flowType).length ≤ 6 := by
  rw [sentGroups]
  split_ifs
  · exact Nat.zero_le _
  · exact hflow.groups_le

theorem map_getD_sentGroups (flow : NlmFlow) (flowType : FmsFlowType) :
    (List.range (sentGroups flow flowType).length).map (flow.dbGroupId.getD · 0) =
      sentGroups flow flowType := by
  rw [sentGroups]
  split_ifs
  · rfl
  · exact map_getD_range _

theorem getD_dbGroupId_lt {flow : NlmFlow} (hflow : FlowInRange flow) (i : ℕ) :
    flow.dbGroupId.getD i 0 < 2 ^ 12 := by
  rw [List.getD_eq_getElem?_getD]
  cases hget : flow.dbGroupId[i]? with
  | none => exact Nat.two_pow_pos 12
  | some id => exact hflow.groups_lt id (List.mem_of_getElem? hget)

/-- The frames differ in their cookies only. -/
theorem packetTx_cutFrame {flow : NlmFlow} {flowType : FmsFlowType} (hflow : FlowInRange flow)
    (hsent : IsSent flowType) :
    ∃ x : FmsXfd, (∀ cookie, HeaderOf flow flowType { x with cookie := cookie }) ∧
      packetTx flow flowType = (List.range (if flowType = .init then 1 else 32)).map fun i ↦
        cutFrame { x with cookie := BitVec.ofNat 8 i } := by
  obtain ⟨htype, hcnt, hpdf, hpackets⟩ := fmsHeader_spec hflow hsent
  cases hx : fmsHeader flow flowType with
  | mk x packets =>
  cases hy : x.setGroups (flow.dbGroupId.getD · 0) with
  | mk y length =>
  simp only [hx] at htype hcnt hpdf hpackets
  have hsix : x.gidCnt.toNat ≤ 6 := by
    rw [hcnt]
    exact sentGroups_length_le hflow flowType
  have hsame := FmsXfd.setGroups_sameFlow x (flow.dbGroupId.getD · 0)
  have hset := FmsXfd.setGroups_spec hsix fun i _ ↦ getD_dbGroupId_lt hflow i
  rw [hy] at hsame hset
  dsimp only at hsame hset
  obtain ⟨hgroups, rfl⟩ := hset
  rw [← hsame.gidCnt_eq] at hsix hcnt hgroups hy
  rw [hcnt, map_getD_sentGroups] at hgroups
  refine ⟨y, fun cookie ↦ ?_, ?_⟩
  · exact ⟨hsame.flowType_eq.trans htype, hcnt, hsix, hgroups,
      fun hstateful ↦ hsame.pdfIndex_eq.trans (hpdf hstateful)⟩
  · rw [packetTx_eq hx hy (by rw [FmsXfd.headerLength]; omega)
      (by rw [FmsXfd.headerLength]; omega), hpackets]
    rfl

/-- Every frame says the type of the flow, its groups and its PDF index, and has its IP packet
where the header ends. An INIT frame has no groups. -/
theorem packetTx_frameSays (flow : NlmFlow) (flowType : FmsFlowType) (hflow : FlowInRange flow)
    (hsent : IsSent flowType) :
    (packetTx flow flowType).length = (if flowType = .init then 1 else 32) ∧
      ∀ frame ∈ packetTx flow flowType,
        FrameSays flow flowType (sentGroups flow flowType) frame := by
  obtain ⟨x, hx, heq⟩ := packetTx_cutFrame hflow hsent
  rw [heq]
  constructor
  · rw [List.length_map, List.length_range]
  · intro frame hframe
    obtain ⟨i, _, rfl⟩ := List.mem_map.mp hframe
    exact (hx _).frameSays

/-- A stateful flow with three groups. -/
def threeGroups : NlmFlow :=
  { NlmFlow.zero with type := .stateful, dbGroupId := [0x401, 0xfff, 5], pdfIndex := 70000 }

theorem packetTx_frameSays_three :
    (packetTx threeGroups .stateful).length = 32 ∧
      ∀ frame ∈ packetTx threeGroups .stateful, (frameXfd frame).groups = [0x401, 0xfff, 5] := by
  obtain ⟨hlength, hall⟩ := packetTx_frameSays threeGroups .stateful
    ⟨by decide, by decide, by decide⟩ (.inr (.inr rfl))
  exact ⟨hlength, fun frame hframe ↦ (hall frame hframe).groups_eq⟩

/-- The frame that starts a flow with one group has none. -/
theorem init_frame_without_groups :
    ¬ ∀ (flow : NlmFlow) (flowType : FmsFlowType), FlowInRange flow → IsSent flowType →
      ∀ frame ∈ packetTx flow flowType, FrameSays flow flowType flow.dbGroupId frame ∧
        networkField (ipPacket frame) 2 = 20 + udpLength frame := by
  intro h
  have hflow : FlowInRange { NlmFlow.zero with dbGroupId := [1] } :=
    ⟨by decide, by decide, by decide⟩
  obtain ⟨x, hx, heq⟩ := packetTx_cutFrame hflow (.inl rfl)
  have hmem : cutFrame { x with cookie := BitVec.ofNat 8 0 } ∈
      packetTx { NlmFlow.zero with dbGroupId := [1] } .init := by
    rw [heq]
    exact List.mem_singleton.mpr rfl
  have hgroups := (h _ _ hflow (.inl rfl) _ hmem).1.groups_eq
  rw [(hx _).frameSays.groups_eq] at hgroups
  cases hgroups

/-- The UDP header counts 32 bytes of data, where 64 are sent. -/
theorem packetTx_udpLength {flow : NlmFlow} {flowType : FmsFlowType} (hflow : FlowInRange flow)
    (hsent : IsSent flowType) :
    ∀ frame ∈ packetTx flow flowType,
      20 + udpLength frame + 32 = networkField (ipPacket frame) 2 := by
  obtain ⟨x, hx, heq⟩ := packetTx_cutFrame hflow hsent
  rw [heq]
  intro frame hframe
  obtain ⟨i, _, rfl⟩ := List.mem_map.mp hframe
  rw [udpLength, ipPacket_cutFrame (hx _).gidCnt_le]
  rfl

/-! ### Flows of the packet interface -/

theorem flowInRange_toFlow {s : FlowGroups} {l : List (ℕ × ℕ)} (h : s.Holds l) (hl : PairSet l)
    {flow : NlmFlow} (hpdf : flow.pdfIndex < 2 ^ 24) : FlowInRange (s.toFlow flow) where
  groups_le := by
    rw [FlowGroups.toFlow, h.take, encoded, List.length_map]
    exact hl.length_le
  groups_lt := by
    intro id hid
    rw [FlowGroups.toFlow, h.take] at hid
    obtain ⟨p, hp, rfl⟩ := List.mem_map.mp hid
    obtain ⟨hd, hg, hne⟩ := hl.valid p hp
    rw [muxDbGid_eq ⟨hd, hg, hne⟩]
    simp only [nlmMaxDatabaseId, nlmMaxGroupId] at hd hg
    omega
  pdfIndex_lt := hpdf

/-- After any calls that edit the groups of a flow, its frames have the pairs that are left, in the
order of insertion. -/
theorem packetTx_edits (edits : List GroupEdit) {flow : NlmFlow} (hpdf : flow.pdfIndex < 2 ^ 24)
    {flowType : FmsFlowType} (htype : flowType = .stateless ∨ flowType = .stateful) :
    ∃ s, FlowGroups.zero.run edits = some s ∧
      ∀ frame ∈ packetTx (s.toFlow flow) flowType,
        (frameXfd frame).groups = encoded (pairsAfter edits) := by
  obtain ⟨s, hrun, hholds⟩ := FlowGroups.zero_holds.run (pairSet_pairsAfter []) edits
  refine ⟨s, hrun, fun frame hframe ↦ ?_⟩
  have hflow := flowInRange_toFlow hholds (pairSet_pairsAfter edits) hpdf
  obtain ⟨x, hx, heq⟩ := packetTx_cutFrame hflow (.inr htype)
  rw [heq] at hframe
  obtain ⟨i, _, rfl⟩ := List.mem_map.mp hframe
  have hinit : flowType ≠ .init := by
    rcases htype with rfl | rfl <;> decide
  rw [(hx _).frameSays.groups_eq, sentGroups, if_neg hinit]
  exact hholds.take

end NetL7.Demo
