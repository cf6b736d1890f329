import NetL7.Loader.Scheduler
import Mathlib.Data.Nat.Bitwise

/-!
# Tagging a block image with its database

`nlm_extract_groups_from_block` merges the database id into the upper two bits of
every group id. Bits that the image already has there stay, and then the database
that a result names is another one.
-/

namespace NetL7.Loader

/-! ### The two bit-fields -/

theorem FmsRowHw.gid_setGid (r : FmsRowHw) (g : BitVec 12) : (r.setGid g).gid = g := by
  apply BitVec.eq_of_getLsbD_eq
  intro i hi
  simp only [FmsRowHw.gid, FmsRowHw.setGid, BitVec.getLsbD_extractLsb', BitVec.getLsbD_append, hi,
    decide_true, Bool.true_and, show ¬20 + i < 20 from by omega, if_false,
    Nat.add_sub_cancel_left]

theorem FmsRowHw.low_setGid (r : FmsRowHw) (g : BitVec 12) :
    (r.setGid g).data0.extractLsb' 0 20 = r.data0.extractLsb' 0 20 := by
  apply BitVec.eq_of_getLsbD_eq
  intro i hi
  simp only [FmsRowHw.setGid, BitVec.getLsbD_extractLsb', BitVec.getLsbD_append, hi,
    decide_true, Bool.true_and, Nat.zero_add, if_true]

theorem FmsActionResultEntry.gid_setGid (e : FmsActionResultEntry) (g : BitVec 12) :
    (e.setGid g).gid = g := by
  apply BitVec.eq_of_getLsbD_eq
  intro i hi
  simp only [FmsActionResultEntry.gid, FmsActionResultEntry.setGid, BitVec.getLsbD_extractLsb',
    BitVec.getLsbD_append, hi, decide_true, Bool.true_and, show ¬14 + i < 14 from by omega,
    show 14 + i < 12 + 14 from by omega, if_false, if_true, Nat.add_sub_cancel_left]

theorem FmsActionResultEntry.low_setGid (e : FmsActionResultEntry) (g : BitVec 12) :
    (e.setGid g).w0.extractLsb' 0 14 = e.w0.extractLsb' 0 14 := by
  apply BitVec.eq_of_getLsbD_eq
  intro i hi
  simp only [FmsActionResultEntry.setGid, BitVec.getLsbD_extractLsb', BitVec.getLsbD_append, hi,
    decide_true, Bool.true_and, Nat.zero_add, if_true, show i < 12 + 14 from by omega]

theorem FmsActionResultEntry.high_setGid (e : FmsActionResultEntry) (g : BitVec 12) :
    (e.setGid g).w0.extractLsb' 26 6 = e.w0.extractLsb' 26 6 := by
  apply BitVec.eq_of_getLsbD_eq
  intro i hi
  simp only [FmsActionResultEntry.setGid, BitVec.getLsbD_extractLsb', BitVec.getLsbD_append, hi,
    decide_true, Bool.true_and, show ¬26 + i < 12 + 14 from by omega, if_false,
    show 26 + i - (12 + 14) = i from by omega]

/-! ### The merged id -/

theorem or_tag_iff (gid : BitVec 12) {dbId : ℕ} (hdb : dbId ≤ nlmMaxDatabaseId) :
    (gid ||| BitVec.ofNat 12 dbId <<< 10).toNat = dbId <<< 10 ||| gid.toNat % 1024 ↔
      gid.toNat / 1024 ||| dbId = dbId := by
  simp only [nlmMaxDatabaseId] at hdb
  have hlt := gid.isLt
  have htag : (BitVec.ofNat 12 dbId <<< 10).toNat = dbId <<< 10 := by
    rw [BitVec.toNat_shiftLeft, BitVec.toNat_ofNat, Nat.mod_eq_of_lt (by omega : dbId < 2 ^ 12),
      Nat.shiftLeft_eq]
    omega
  have hmod : gid.toNat % 1024 < 2 ^ 10 := Nat.mod_lt _ (by decide)
  have hsplit : gid.toNat = (gid.toNat / 1024) <<< 10 ||| gid.toNat % 1024 := by
    rw [← Nat.shiftLeft_add_eq_or_of_lt hmod, Nat.shiftLeft_eq]
    omega
  have hor : gid.toNat ||| dbId <<< 10 =
      (gid.toNat / 1024 ||| dbId) <<< 10 ||| gid.toNat % 1024 := by
    calc
      gid.toNat ||| dbId <<< 10 =
          (gid.toNat / 1024) <<< 10 ||| gid.toNat % 1024 ||| dbId <<< 10 := by rw [← hsplit]
      _ = (gid.toNat / 1024) <<< 10 ||| dbId <<< 10 ||| gid.toNat % 1024 := Nat.or_right_comm _ _ _
      _ = (gid.toNat / 1024 ||| dbId) <<< 10 ||| gid.toNat % 1024 := by
        rw [Nat.shiftLeft_or_distrib]
  rw [BitVec.toNat_or, htag, hor, ← Nat.shiftLeft_add_eq_or_of_lt hmod,
    ← Nat.shiftLeft_add_eq_or_of_lt hmod, Nat.shiftLeft_eq, Nat.shiftLeft_eq]
  omega

/-! ### The group list -/

theorem eraseDups_concat (l : List ℕ) (a : ℕ) :
    (l ++ [a]).eraseDups = if a ∈ l then l.eraseDups else l.eraseDups ++ [a] := by
  rw [List.eraseDups_append]
  by_cases ha : a ∈ l
  · have hnone : [a].removeAll l = [] := by simp [List.removeAll, ha]
    rw [if_pos ha, hnone]
    exact List.append_nil _
  · have hone : [a].removeAll l = [a] := by simp [List.removeAll, ha]
    rw [if_neg ha, hone]
    rfl

/-- The nonzero group ids of the rows, in the order of the rows. -/
def rowGroups (row : ℕ → FmsRowHw) (n : ℕ) : List ℕ :=
  ((List.range n).map fun i ↦ (row i).gid.toNat % 1024).filter (· ≠ 0)

theorem rowGroups_succ (row : ℕ → FmsRowHw) (n : ℕ) :
    rowGroups row (n + 1) =
      if (row n).gid.toNat % 1024 = 0 then rowGroups row n
      else rowGroups row n ++ [(row n).gid.toNat % 1024] := by
  rw [rowGroups, List.range_succ, List.map_append, List.filter_append, List.map_singleton]
  by_cases h : (row n).gid.toNat % 1024 = 0
  · rw [if_pos h, List.filter_cons_of_neg (by simpa using h)]
    exact List.append_nil _
  · rw [if_neg h, List.filter_cons_of_pos (by simpa using h)]
    rfl

/-- The loop over the rows keeps the first occurrence of every group. -/
theorem groupListOfRows_eq (row : ℕ → FmsRowHw) :
    groupListOfRows row = (rowGroups row famosBlockSize).eraseDups := by
  rw [groupListOfRows]
  generalize famosBlockSize = n
  induction n with
  | zero => rfl
  | succ n ih =>
      rw [List.range_succ, List.foldl_append, ih, List.foldl_cons, List.foldl_nil, rowGroups_succ]
      by_cases hzero : (row n).gid.toNat % 1024 = 0
      · rw [if_pos (Or.inl hzero), if_pos hzero]
      rw [if_neg hzero, eraseDups_concat]
      by_cases hmem : (row n).gid.toNat % 1024 ∈ rowGroups row n
      · rw [if_pos (Or.inr (List.mem_eraseDups.mpr hmem)), if_pos hmem]
      · have hno : ¬((row n).gid.toNat % 1024 = 0 ∨
            (row n).gid.toNat % 1024 ∈ (rowGroups row n).eraseDups) := by
          rw [List.mem_eraseDups]
          exact not_or.mpr ⟨hzero, hmem⟩
        rw [if_neg hno, if_neg hmem]

/-! ### The image after the call -/

/-- The upper bits of a group id that the database id does not have. -/
def KeepsTag (gid : BitVec 12) (dbId : ℕ) : Prop :=
  gid.toNat % 1024 ≠ 0 → gid.toNat / 1024 ||| dbId = dbId

instance (gid : BitVec 12) (dbId : ℕ) : Decidable (KeepsTag gid dbId) :=
  inferInstanceAs (Decidable (_ → _))

/-- What is to become of one group id. -/
def Tagged (gid gid' : BitVec 12) (dbId : ℕ) : Prop :=
  gid.toNat % 1024 ≠ 0 → gid'.toNat = dbId <<< 10 ||| gid.toNat % 1024

instance (gid gid' : BitVec 12) (dbId : ℕ) : Decidable (Tagged gid gid' dbId) :=
  inferInstanceAs (Decidable (_ → _))

variable (block : FmsBlockHw) {dbId : ℕ}

theorem extract_row (i : ℕ) :
    (nlmExtractGroupsFromBlock block dbId).1.row i =
      if i < famosBlockSize ∧ (block.row i).gid.toNat % 1024 ≠ 0 then
        (block.row i).setGid ((block.row i).gid ||| BitVec.ofNat 12 dbId <<< 10)
      else block.row i := by
  have hlen := groupListOfRows_length_le block.row
  simp only [nlmExtractGroupsFromBlock, if_neg (Nat.not_lt.mpr hlen)]

theorem extract_actionTable (i : ℕ) :
    (nlmExtractGroupsFromBlock block dbId).1.actionTable i =
      if i < maxAcceptPerBlock ∧ (block.actionTable i).gid.toNat % 1024 ≠ 0 then
        (block.actionTable i).setGid ((block.actionTable i).gid ||| BitVec.ofNat 12 dbId <<< 10)
      else block.actionTable i := by
  have hlen := groupListOfRows_length_le block.row
  simp only [nlmExtractGroupsFromBlock, if_neg (Nat.not_lt.mpr hlen)]

theorem extract_row_tagged_iff (hdb : dbId ≤ nlmMaxDatabaseId) {i : ℕ} (hi : i < famosBlockSize) :
    Tagged (block.row i).gid ((nlmExtractGroupsFromBlock block dbId).1.row i).gid dbId ↔
      KeepsTag (block.row i).gid dbId := by
  rw [Tagged, KeepsTag, extract_row]
  by_cases hzero : (block.row i).gid.toNat % 1024 = 0
  · exact ⟨fun _ h ↦ absurd hzero h, fun _ h ↦ absurd hzero h⟩
  · rw [if_pos ⟨hi, hzero⟩, FmsRowHw.gid_setGid, or_tag_iff _ hdb]

theorem extract_actionTable_tagged_iff (hdb : dbId ≤ nlmMaxDatabaseId) {i : ℕ}
    (hi : i < maxAcceptPerBlock) :
    Tagged (block.actionTable i).gid
        ((nlmExtractGroupsFromBlock block dbId).1.actionTable i).gid dbId ↔
      KeepsTag (block.actionTable i).gid dbId := by
  rw [Tagged, KeepsTag, extract_actionTable]
  by_cases hzero : (block.actionTable i).gid.toNat % 1024 = 0
  · exact ⟨fun _ h ↦ absurd hzero h, fun _ h ↦ absurd hzero h⟩
  · rw [if_pos ⟨hi, hzero⟩, FmsActionResultEntry.gid_setGid, or_tag_iff _ hdb]

/-- Two rows differ at most in their group ids, and not at all if the id is zero. -/
def SameRow (r r' : FmsRowHw) : Prop :=
  r'.data0.extractLsb' 0 20 = r.data0.extractLsb' 0 20 ∧ r'.data1 = r.data1 ∧
    r'.data2 = r.data2 ∧ (r.gid.toNat % 1024 = 0 → r' = r)

/-- The same of two action entries. -/
def SameEntry (e e' : FmsActionResultEntry) : Prop :=
  e'.w0.extractLsb' 0 14 = e.w0.extractLsb' 0 14 ∧
    e'.w0.extractLsb' 26 6 = e.w0.extractLsb' 26 6 ∧ e'.w1 = e.w1 ∧ e'.w2 = e.w2 ∧
      e'.w3 = e.w3 ∧ (e.gid.toNat % 1024 = 0 → e' = e)

theorem extract_sameRow (i : ℕ) :
    SameRow (block.row i) ((nlmExtractGroupsFromBlock block dbId).1.row i) := by
  rw [extract_row]
  by_cases h : i < famosBlockSize ∧ (block.row i).gid.toNat % 1024 ≠ 0
  · rw [if_pos h]
    exact ⟨FmsRowHw.low_setGid _ _, rfl, rfl, fun h0 ↦ absurd h0 h.2⟩
  · rw [if_neg h]
    exact ⟨rfl, rfl, rfl, fun _ ↦ rfl⟩

theorem extract_sameEntry (i : ℕ) :
    SameEntry (block.actionTable i)
      ((nlmExtractGroupsFromBlock block dbId).1.actionTable i) := by
  rw [extract_actionTable]
  by_cases h : i < maxAcceptPerBlock ∧ (block.actionTable i).gid.toNat % 1024 ≠ 0
  · rw [if_pos h]
    exact ⟨FmsActionResultEntry.low_setGid _ _, FmsActionResultEntry.high_setGid _ _, rfl, rfl,
      rfl, fun h0 ↦ absurd h0 h.2⟩
  · rw [if_neg h]
    exact ⟨rfl, rfl, rfl, rfl, rfl, fun _ ↦ rfl⟩

/-- What the extraction is for: the list of the groups, the tagged ids and nothing else
changed. -/
def ExtractsGroups (block : FmsBlockHw) (dbId : ℕ) : Prop :=
  let r := nlmExtractGroupsFromBlock block dbId
  r.2.2 = .ok ∧ r.2.1 = (rowGroups block.row famosBlockSize).eraseDups ∧
    (∀ g ∈ r.2.1, g ≠ 0) ∧ r.2.1.length ≤ nlmMaxGroupId ∧
      (∀ i < famosBlockSize, Tagged (block.row i).gid (r.1.row i).gid dbId) ∧
        (∀ i < maxAcceptPerBlock,
          Tagged (block.actionTable i).gid (r.1.actionTable i).gid dbId) ∧
          (∀ i, SameRow (block.row i) (r.1.row i)) ∧
            ∀ i, SameEntry (block.actionTable i) (r.1.actionTable i)

/-- The extraction is right exactly for the images whose group ids have no upper bit
that the database id lacks. -/
theorem extractsGroups_iff (hdb : dbId ≤ nlmMaxDatabaseId) :
    ExtractsGroups block dbId ↔
      (∀ i < famosBlockSize, KeepsTag (block.row i).gid dbId) ∧
        ∀ i < maxAcceptPerBlock, KeepsTag (block.actionTable i).gid dbId := by
  have hgroups := nlmExtractGroupsFromBlock_groups block dbId
  constructor
  · rintro ⟨-, -, -, -, hrow, hentry, -, -⟩
    exact ⟨fun i hi ↦ (extract_row_tagged_iff block hdb hi).mp (hrow i hi),
      fun i hi ↦ (extract_actionTable_tagged_iff block hdb hi).mp (hentry i hi)⟩
  · rintro ⟨hrow, hentry⟩
    refine ⟨nlmExtractGroupsFromBlock_status block dbId, ?_, ?_, ?_,
      fun i hi ↦ (extract_row_tagged_iff block hdb hi).mpr (hrow i hi),
      fun i hi ↦ (extract_actionTable_tagged_iff block hdb hi).mpr (hentry i hi),
      extract_sameRow block, extract_sameEntry block⟩
    · rw [hgroups, groupListOfRows_eq]
    · rw [hgroups]
      exact fun g hg ↦ Nat.ne_of_gt ((groupListOfRows_spec block.row).2 g hg).1
    · rw [hgroups]
      exact groupListOfRows_length_le block.row

/-- An image of empty rows and entries but for the first row. -/
def imageOfRow (r : FmsRowHw) : FmsBlockHw where
  row i := if i = 0 then r else ⟨0, 0, 0⟩
  actionTable _ := ⟨0, 0, 0, 0⟩

/-- A row of group 5 that the compiler left untagged, in database 1. -/
theorem extractsGroups_iff_untagged :
    ExtractsGroups (imageOfRow ⟨0x00500000, 0, 0⟩) 1 ∧ 1 ≤ nlmMaxDatabaseId := by
  refine ⟨(extractsGroups_iff _ (by decide)).mpr ⟨fun i _ ↦ ?_, fun i _ ↦ ?_⟩, by decide⟩
  · cases i with
    | zero => decide
    | succ i =>
        change KeepsTag (FmsRowHw.gid ⟨0, 0, 0⟩) 1
        decide
  · change KeepsTag (FmsActionResultEntry.gid ⟨0, 0, 0, 0⟩) 1
    decide

/-- A row of group 5 whose id already names database 2, in database 1. -/
theorem extractsGroups_tagged_image :
    ¬∀ (block : FmsBlockHw) (dbId : ℕ), dbId ≤ nlmMaxDatabaseId → ExtractsGroups block dbId := by
  intro h
  have hrow := (h (imageOfRow ⟨0x80500000, 0, 0⟩) 1 (by decide)).2.2.2.2.1 0 (by decide)
  rw [extract_row] at hrow
  exact absurd hrow (by decide)

end NetL7.Loader
