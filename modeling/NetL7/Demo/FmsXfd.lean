import NetL7.Lib.OnesComplement
import NetL7.Packet.Formats
import Mathlib.Tactic.IntervalCases

/-!
# The command header of a frame

A `struct fms_xfd` says what a frame is searched for. A group has 12 bits: its upper four share a
byte with those of the next group, and its lower eight have a byte of their own. A header is cut
after the groups that it has.
-/

namespace NetL7.Demo

open NetL7.Lib NetL7.Packet

abbrev Byte : Type := BitVec 8

/-- The code of an `fms_flow_type`. -/
def flowTypeCode : FmsFlowType → BitVec 3
  | .stateless => 0
  | .init => 1
  | .stateful => 2
  | .finish => 3
  | .passThrough => 4
  | .reinit => 5

/-- `struct fms_xfd` -/
structure FmsXfd where
  flowType : BitVec 3
  endAnchor : BitVec 1
  startAnchor : BitVec 1
  gidCnt : BitVec 3
  hOffset : Byte
  padCnt : Byte
  cookie : Byte
  pdfIndexHi : Byte
  pdfIndexMi : Byte
  pdfIndexLo : Byte
  gid1Hi : BitVec 4
  gid0Hi : BitVec 4
  gid0Lo : Byte
  gid1Lo : Byte
  gid3Hi : BitVec 4
  gid2Hi : BitVec 4
  gid2Lo : Byte
  gid3Lo : Byte
  gid5Hi : BitVec 4
  gid4Hi : BitVec 4
  gid4Lo : Byte
  gid5Lo : Byte

namespace FmsXfd

/-- The header of zero bytes. -/
def zero : FmsXfd where
  flowType := 0
  endAnchor := 0
  startAnchor := 0
  gidCnt := 0
  hOffset := 0
  padCnt := 0
  cookie := 0
  pdfIndexHi := 0
  pdfIndexMi := 0
  pdfIndexLo := 0
  gid1Hi := 0
  gid0Hi := 0
  gid0Lo := 0
  gid1Lo := 0
  gid3Hi := 0
  gid2Hi := 0
  gid2Lo := 0
  gid3Lo := 0
  gid5Hi := 0
  gid4Hi := 0
  gid4Lo := 0
  gid5Lo := 0

def bytes (x : FmsXfd) : List Byte :=
  [x.flowType ++ x.endAnchor ++ x.startAnchor ++ x.gidCnt, x.hOffset, x.padCnt, x.cookie,
    x.pdfIndexHi, x.pdfIndexMi, x.pdfIndexLo,
    x.gid1Hi ++ x.gid0Hi, x.gid0Lo, x.gid1Lo,
    x.gid3Hi ++ x.gid2Hi, x.gid2Lo, x.gid3Lo,
    x.gid5Hi ++ x.gid4Hi, x.gid4Lo, x.gid5Lo]

/-- The header at the start of some bytes. -/
def read (bytes : List Byte) : FmsXfd :=
  let b := fun i ↦ bytes.getD i 0
  { flowType := (b 0).extractLsb' 5 3
    endAnchor := (b 0).extractLsb' 4 1
    startAnchor := (b 0).extractLsb' 3 1
    gidCnt := (b 0).extractLsb' 0 3
    hOffset := b 1
    padCnt := b 2
    cookie := b 3
    pdfIndexHi := b 4
    pdfIndexMi := b 5
    pdfIndexLo := b 6
    gid1Hi := (b 7).extractLsb' 4 4
    gid0Hi := (b 7).extractLsb' 0 4
    gid0Lo := b 8
    gid1Lo := b 9
    gid3Hi := (b 10).extractLsb' 4 4
    gid2Hi := (b 10).extractLsb' 0 4
    gid2Lo := b 11
    gid3Lo := b 12
    gid5Hi := (b 13).extractLsb' 4 4
    gid4Hi := (b 13).extractLsb' 0 4
    gid4Lo := b 14
    gid5Lo := b 15 }

/-- The six places for groups. -/
def gids (x : FmsXfd) : List ℕ :=
  [(x.gid0Hi ++ x.gid0Lo).toNat, (x.gid1Hi ++ x.gid1Lo).toNat, (x.gid2Hi ++ x.gid2Lo).toNat,
    (x.gid3Hi ++ x.gid3Lo).toNat, (x.gid4Hi ++ x.gid4Lo).toNat, (x.gid5Hi ++ x.gid5Lo).toNat]

/-- The groups that the header has, in order. -/
def groups (x : FmsXfd) : List ℕ :=
  x.gids.take x.gidCnt.toNat

def pdfIndex (x : FmsXfd) : ℕ :=
  (x.pdfIndexHi ++ x.pdfIndexMi ++ x.pdfIndexLo).toNat

/-- The length of a header with `n` groups: two groups share the byte of their upper bits. -/
def headerLength (n : ℕ) : ℕ :=
  7 + n + (n + 1) / 2

/-- The upper bits of a group. -/
def gidHi (dbGroupId : ℕ) : BitVec 4 := BitVec.ofNat 4 (dbGroupId >>> 8 &&& 0xf)

def gidLo (dbGroupId : ℕ) : Byte := BitVec.ofNat 8 (dbGroupId &&& 0xff)

/-- Stores the group `k`. -/
def setGid (x : FmsXfd) (k dbGroupId : ℕ) : FmsXfd :=
  match k with
  | 0 => { x with gid0Hi := gidHi dbGroupId, gid0Lo := gidLo dbGroupId }
  | 1 => { x with gid1Hi := gidHi dbGroupId, gid1Lo := gidLo dbGroupId }
  | 2 => { x with gid2Hi := gidHi dbGroupId, gid2Lo := gidLo dbGroupId }
  | 3 => { x with gid3Hi := gidHi dbGroupId, gid3Lo := gidLo dbGroupId }
  | 4 => { x with gid4Hi := gidHi dbGroupId, gid4Lo := gidLo dbGroupId }
  | _ => { x with gid5Hi := gidHi dbGroupId, gid5Lo := gidLo dbGroupId }

/-- The `switch` on `gid_cnt`: the header with the groups, and what is added to the length. -/
def setGroups (x : FmsXfd) (id : ℕ → ℕ) : FmsXfd × ℕ :=
  match x.gidCnt.toNat with
  | 0 => (x, 7)
  | 1 => (x.setGid 0 (id 0), 9)
  | 2 => ((x.setGid 0 (id 0)).setGid 1 (id 1), 10)
  | 3 => (((x.setGid 0 (id 0)).setGid 1 (id 1)).setGid 2 (id 2), 12)
  | 4 => ((((x.setGid 0 (id 0)).setGid 1 (id 1)).setGid 2 (id 2)).setGid 3 (id 3), 13)
  | 5 =>
    (((((x.setGid 0 (id 0)).setGid 1 (id 1)).setGid 2 (id 2)).setGid 3 (id 3)).setGid 4 (id 4), 15)
  | 6 =>
    ((((((x.setGid 0 (id 0)).setGid 1 (id 1)).setGid 2 (id 2)).setGid 3 (id 3)).setGid 4
      (id 4)).setGid 5 (id 5), 16)
  | _ => (x, 0)

end FmsXfd

/-! ### Fields of words -/

section Words

variable {v w : ℕ}

theorem extractLsb_append_high (x : BitVec v) (y : BitVec w) (i len : ℕ) :
    (x ++ y).extractLsb' (w + i) len = x.extractLsb' i len := by
  ext k hk
  rw [BitVec.getElem_extractLsb', BitVec.getElem_extractLsb', BitVec.getLsbD_append,
    if_neg (by omega)]
  congr 1
  omega

theorem extractLsb_append_upper (x : BitVec v) (y : BitVec w) :
    (x ++ y).extractLsb' w v = x := by
  have h := extractLsb_append_high x y 0 v
  rw [Nat.add_zero, BitVec.extractLsb'_eq_self] at h
  exact h

theorem extractLsb_append_lower (x : BitVec v) (y : BitVec w) :
    (x ++ y).extractLsb' 0 w = y := by
  ext k hk
  rw [BitVec.getElem_extractLsb', BitVec.getLsbD_append, if_pos (by omega), Nat.zero_add,
    BitVec.getLsbD_eq_getElem]

end Words

namespace FmsXfd

/-! ### Groups -/

theorem toNat_gid {id : ℕ} (h : id < 2 ^ 12) : (gidHi id ++ gidLo id).toNat = id := by
  have hhi : (gidHi id).toNat = id / 2 ^ 8 := by
    rw [gidHi, BitVec.toNat_ofNat, Nat.shiftRight_eq_div_pow,
      Nat.and_two_pow_sub_one_eq_mod _ 4, Nat.mod_mod]
    exact Nat.mod_eq_of_lt (by omega)
  have hlo : (gidLo id).toNat = id % 2 ^ 8 := by
    rw [gidLo, BitVec.toNat_ofNat, Nat.and_two_pow_sub_one_eq_mod _ 8, Nat.mod_mod]
  rw [toNat_append_eq, hhi, hlo]
  exact Nat.div_add_mod id (2 ^ 8)

/-- Two headers that say the same about the flow, but for the groups. -/
structure SameFlow (x y : FmsXfd) : Prop where
  flowType_eq : y.flowType = x.flowType
  gidCnt_eq : y.gidCnt = x.gidCnt
  pdfIndexHi_eq : y.pdfIndexHi = x.pdfIndexHi
  pdfIndexMi_eq : y.pdfIndexMi = x.pdfIndexMi
  pdfIndexLo_eq : y.pdfIndexLo = x.pdfIndexLo

theorem SameFlow.pdfIndex_eq {x y : FmsXfd} (h : SameFlow x y) : y.pdfIndex = x.pdfIndex := by
  rw [pdfIndex, pdfIndex, h.pdfIndexHi_eq, h.pdfIndexMi_eq, h.pdfIndexLo_eq]

theorem SameFlow.trans {x y z : FmsXfd} (h : SameFlow x y) (h' : SameFlow y z) : SameFlow x z where
  flowType_eq := h'.flowType_eq.trans h.flowType_eq
  gidCnt_eq := h'.gidCnt_eq.trans h.gidCnt_eq
  pdfIndexHi_eq := h'.pdfIndexHi_eq.trans h.pdfIndexHi_eq
  pdfIndexMi_eq := h'.pdfIndexMi_eq.trans h.pdfIndexMi_eq
  pdfIndexLo_eq := h'.pdfIndexLo_eq.trans h.pdfIndexLo_eq

theorem setGid_sameFlow (x : FmsXfd) (k id : ℕ) : SameFlow x (x.setGid k id) := by
  unfold setGid
  split <;> exact ⟨rfl, rfl, rfl, rfl, rfl⟩

theorem gids_setGid (x : FmsXfd) {k : ℕ} (hk : k < 6) (id : ℕ) :
    (x.setGid k id).gids = x.gids.set k (gidHi id ++ gidLo id).toNat := by
  interval_cases k <;> rfl

theorem setGroups_sameFlow (x : FmsXfd) (id : ℕ → ℕ) : SameFlow x (x.setGroups id).1 := by
  have h0 := setGid_sameFlow x 0 (id 0)
  have h1 := h0.trans (setGid_sameFlow _ 1 (id 1))
  have h2 := h1.trans (setGid_sameFlow _ 2 (id 2))
  have h3 := h2.trans (setGid_sameFlow _ 3 (id 3))
  have h4 := h3.trans (setGid_sameFlow _ 4 (id 4))
  have h5 := h4.trans (setGid_sameFlow _ 5 (id 5))
  unfold setGroups
  split
  · exact ⟨rfl, rfl, rfl, rfl, rfl⟩
  · exact h0
  · exact h1
  · exact h2
  · exact h3
  · exact h4
  · exact h5
  · exact ⟨rfl, rfl, rfl, rfl, rfl⟩

/-- The groups are stored in order, and the length is that of a header with so many groups. -/
theorem setGroups_spec {x : FmsXfd} {id : ℕ → ℕ} (hcnt : x.gidCnt.toNat ≤ 6)
    (hid : ∀ i < x.gidCnt.toNat, id i < 2 ^ 12) :
    (x.setGroups id).1.groups = (List.range x.gidCnt.toNat).map id ∧
      (x.setGroups id).2 = headerLength x.gidCnt.toNat := by
  have hgid : ∀ i < x.gidCnt.toNat, (gidHi (id i) ++ gidLo (id i)).toNat = id i :=
    fun i hi ↦ toNat_gid (hid i hi)
  rw [groups, (setGroups_sameFlow x id).gidCnt_eq, setGroups]
  generalize x.gidCnt.toNat = n at *
  interval_cases n
  · exact ⟨rfl, rfl⟩
  all_goals
    simp (disch := decide) only [gids_setGid, hgid]
    exact ⟨rfl, rfl⟩

theorem read_bytes (x : FmsXfd) : read x.bytes = x := by
  obtain ⟨flowType, endAnchor, startAnchor, gidCnt⟩ := x
  have h5 := extractLsb_append_high (flowType ++ endAnchor ++ startAnchor) gidCnt
  have h4 := extractLsb_append_high (flowType ++ endAnchor) startAnchor
  simp only [read, bytes, List.getD_cons_zero, List.getD_cons_succ, extractLsb_append_lower,
    extractLsb_append_upper, h5 2 3, h5 1 1, h5 0 1, h4 1 3, h4 0 1]

section Cut

variable {x y : FmsXfd} {l l' : List Byte}

/-- The first seven bytes decide what the header says about the flow. -/
theorem read_sameFlow (h : ∀ i < 7, l.getD i 0 = l'.getD i 0) : SameFlow (read l') (read l) := by
  constructor <;> simp (disch := decide) only [read, h]

theorem read_groups {n : ℕ} (hn : n ≤ 6) (h : ∀ i < headerLength n, l.getD i 0 = l'.getD i 0) :
    (read l).gids.take n = (read l').gids.take n := by
  interval_cases n
  all_goals simp (disch := decide) only [read, gids, h, List.take_succ_cons, List.take_zero]

/-- The header is read back although it ends after its last group. -/
theorem read_take (h : x.gidCnt.toNat ≤ 6) (rest : List Byte) :
    SameFlow x (read (x.bytes.take (headerLength x.gidCnt.toNat) ++ rest)) ∧
      (read (x.bytes.take (headerLength x.gidCnt.toNat) ++ rest)).groups = x.groups := by
  have hlength : headerLength x.gidCnt.toNat ≤ x.bytes.length := by
    change _ ≤ 16
    rw [headerLength]
    omega
  have hget : ∀ i < headerLength x.gidCnt.toNat,
      (x.bytes.take (headerLength x.gidCnt.toNat) ++ rest).getD i 0 = x.bytes.getD i 0 := by
    intro i hi
    have hi' : i < (x.bytes.take (headerLength x.gidCnt.toNat)).length := by
      rw [List.length_take]
      omega
    rw [List.getD_eq_getElem?_getD, List.getD_eq_getElem?_getD, List.getElem?_append_left hi',
      List.getElem?_take_of_lt hi]
  have hsame := read_sameFlow fun i hi ↦ hget i (by rw [headerLength]; omega)
  have hgroups := read_groups h hget
  rw [read_bytes] at hsame hgroups
  refine ⟨hsame, ?_⟩
  rw [groups, hsame.gidCnt_eq]
  exact hgroups

end Cut

end FmsXfd

end NetL7.Demo
