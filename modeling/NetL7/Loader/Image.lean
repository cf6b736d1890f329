import NetL7.Loader.Api
import Mathlib.Data.Finset.Insert

/-!
# Writing an image into the shadow blocks

`nlm_device_write_database_to_shadow` fills the first invalid shadow blocks. It
touches neither the array blocks nor the clone counters of the shadow blocks it
takes.
-/

namespace NetL7.Loader

namespace LoaderTables

/-- Replaces the tables that describe images. -/
def withImage (t : LoaderTables) (shadowMap : ℕ → ShadowMapEntry) (groups : ℕ → List ℕ)
    (area : ℕ → FmsBlockHw) : LoaderTables :=
  { t with
    databaseShadowMap := shadowMap
    blockGroupList := groups
    databaseExtensionArea := area }

/-- The blocks `W` of `t` now hold an image of database `d`. -/
structure ImageWritten (t : LoaderTables) (d : ℕ) (database : FmsDatabase) (W : Finset ℕ)
    (t' : LoaderTables) : Prop where
  frame : ∃ shadowMap groups area, t' = t.withImage shadowMap groups area
  free : ∀ b ∈ W, b < t.numFmsBlocks ∧ (t.databaseShadowMap b).valid = false
  entry_mem : ∀ b ∈ W, t'.databaseShadowMap b =
    { t.databaseShadowMap b with valid := true, dbId := d, virtBlkNo := b }
  groups_mem : ∀ b ∈ W, ∃ i, t'.blockGroupList b = groupListOfRows (database.block i).row
  notMem : ∀ b ∉ W, t'.databaseShadowMap b = t.databaseShadowMap b ∧
    t'.blockGroupList b = t.blockGroupList b

variable {t t' t'' : LoaderTables} {d i : ℕ} {database : FmsDatabase} {W : Finset ℕ}

theorem ImageWritten.refl (t : LoaderTables) (d : ℕ) (database : FmsDatabase) :
    ImageWritten t d database ∅ t :=
  ⟨⟨t.databaseShadowMap, t.blockGroupList, t.databaseExtensionArea, rfl⟩, by simp, by simp,
    by simp, fun _ _ ↦ ⟨rfl, rfl⟩⟩

theorem ImageWritten.insert (h : ImageWritten t d database {i} t')
    (h' : ImageWritten t' d database W t'') (hi : i ∉ W) :
    ImageWritten t d database (insert i W) t'' := by
  have hne : ∀ b ∈ W, b ∉ ({i} : Finset ℕ) := by
    intro b hb hbi
    exact hi (Finset.mem_singleton.mp hbi ▸ hb)
  obtain ⟨shadowMap, groups, area, rfl⟩ := h.frame
  obtain ⟨shadowMap', groups', area', rfl⟩ := h'.frame
  refine ⟨⟨shadowMap', groups', area', rfl⟩, ?_, ?_, ?_, ?_⟩
  · intro b hb
    rcases Finset.mem_insert.mp hb with rfl | hb
    · exact h.free b (by simp)
    · obtain ⟨hlt, hvalid⟩ := h'.free b hb
      rw [(h.notMem b (hne b hb)).1] at hvalid
      exact ⟨hlt, hvalid⟩
  · intro b hb
    rcases Finset.mem_insert.mp hb with rfl | hb
    · rw [(h'.notMem b hi).1]
      exact h.entry_mem b (by simp)
    · rw [h'.entry_mem b hb, (h.notMem b (hne b hb)).1]
  · intro b hb
    rcases Finset.mem_insert.mp hb with rfl | hb
    · rw [(h'.notMem b hi).2]
      exact h.groups_mem b (by simp)
    · exact h'.groups_mem b hb
  · intro b hb
    obtain ⟨hbi, hbW⟩ := not_or.mp (mt Finset.mem_insert.mpr hb)
    have h₁ := h.notMem b (by simpa using hbi)
    have h₂ := h'.notMem b hbW
    exact ⟨h₂.1.trans h₁.1, h₂.2.trans h₁.2⟩

end LoaderTables

namespace PhyDevice

open LoaderTables

variable {t : LoaderTables} {d i : ℕ}

theorem writeShadowBlock_spec (hi : i < t.numFmsBlocks)
    (hvalid : (t.databaseShadowMap i).valid = false) (database : FmsDatabase) (blkNo : ℕ) :
    ∃ t', writeShadowBlock t d i (database.block blkNo) = (.ok, t') ∧
      ImageWritten t d database {i} t' := by
  have hstatus := nlmExtractGroupsFromBlock_status (database.block blkNo) d
  have hgroups := nlmExtractGroupsFromBlock_groups (database.block blkNo) d
  rcases hextract : nlmExtractGroupsFromBlock (database.block blkNo) d with
    ⟨block', groups, status⟩
  rw [hextract] at hstatus hgroups
  obtain rfl : status = .ok := hstatus
  let t' := { t with
    databaseExtensionArea := Function.update t.databaseExtensionArea i block'
    blockGroupList := Function.update t.blockGroupList i groups }
  refine ⟨t'.setShadow i fun e ↦ { e with valid := true, dbId := d, virtBlkNo := i },
    by simp [writeShadowBlock, hextract, t'], ⟨_, _, _, rfl⟩, ?_, ?_, ?_, ?_⟩
  · simpa using ⟨hi, hvalid⟩
  · intro b hb
    obtain rfl : b = i := by simpa using hb
    simp [setShadow, t']
  · intro b hb
    obtain rfl : b = i := by simpa using hb
    refine ⟨blkNo, ?_⟩
    rw [← hgroups]
    simp [setShadow, t']
  · intro b hb
    have hb : b ≠ i := by simpa using hb
    simp [setShadow, t', hb]

theorem writeLoop_spec (database : FmsDatabase) {is : List ℕ} (numBlocks blkNo : ℕ)
    (hnodup : is.Nodup) (hlt : ∀ i ∈ is, i < t.numFmsBlocks)
    (hspace : numBlocks - blkNo ≤ is.countP fun i ↦ !(t.databaseShadowMap i).valid) :
    ∃ t' W, writeLoop d database numBlocks is blkNo t = (.ok, t') ∧
      W.card = numBlocks - blkNo ∧ (∀ b ∈ W, b ∈ is) ∧ ImageWritten t d database W t' := by
  induction is generalizing t blkNo with
  | nil =>
    have hzero : numBlocks - blkNo = 0 := by simpa using hspace
    refine ⟨t, ∅, by rw [writeLoop], ?_, by simp, .refl t d database⟩
    rw [Finset.card_empty, hzero]
  | cons i is ih =>
    obtain ⟨hi, hnodup⟩ := List.nodup_cons.mp hnodup
    have hlt' : ∀ x ∈ is, x < t.numFmsBlocks := fun x hx ↦ hlt x (by simp [hx])
    unfold writeLoop
    by_cases hdone : numBlocks ≤ blkNo
    · rw [if_pos hdone]
      refine ⟨t, ∅, rfl, ?_, by simp, .refl t d database⟩
      rw [Finset.card_empty, Nat.sub_eq_zero_of_le hdone]
    rw [if_neg hdone]
    by_cases hvalid : (t.databaseShadowMap i).valid = true
    · rw [if_pos hvalid]
      rw [List.countP_cons_of_neg (by simp [hvalid])] at hspace
      obtain ⟨t', W, heq, hcard, hsub, hwritten⟩ := ih blkNo hnodup hlt' hspace
      exact ⟨t', W, heq, hcard, fun b hb ↦ List.mem_cons_of_mem i (hsub b hb), hwritten⟩
    · rw [if_neg hvalid]
      rw [List.countP_cons_of_pos (by simpa using hvalid)] at hspace
      obtain ⟨t₁, heq₁, hone⟩ := writeShadowBlock_spec (d := d) (hlt i (by simp))
        (by simpa using hvalid) database blkNo
      have hsame : ∀ x ∈ is, t₁.databaseShadowMap x = t.databaseShadowMap x := by
        intro x hx
        refine (hone.notMem x ?_).1
        rw [Finset.mem_singleton]
        rintro rfl
        exact hi hx
      have hN : t₁.numFmsBlocks = t.numFmsBlocks := by
        obtain ⟨shadowMap, groups, area, rfl⟩ := hone.frame
        rfl
      have hcount : is.countP (fun x ↦ !(t₁.databaseShadowMap x).valid) =
          is.countP fun x ↦ !(t.databaseShadowMap x).valid :=
        List.countP_congr fun x hx ↦ by rw [hsame x hx]
      obtain ⟨t', W, heq, hcard, hsub, hwritten⟩ := ih (t := t₁) (blkNo + 1) hnodup
        (fun x hx ↦ hN ▸ hlt' x hx) (by rw [hcount]; omega)
      have hiW : i ∉ W := fun h ↦ hi (hsub i h)
      refine ⟨t', insert i W, by simp [heq₁, heq], ?_, ?_, hone.insert hwritten hiW⟩
      · rw [Finset.card_insert_of_notMem hiW, hcard]
        omega
      · intro b hb
        rcases Finset.mem_insert.mp hb with rfl | hb
        · simp
        · exact List.mem_cons_of_mem i (hsub b hb)

/-- With enough space, writing an image fills as many free shadow blocks as the image has
blocks. -/
theorem nlmDeviceWriteDatabaseToShadow_ok (database : FmsDatabase) {numBlocks : ℕ}
    (hspace : numBlocks ≤ t.getNumShadowBlocksFree) :
    ∃ t' W, nlmDeviceWriteDatabaseToShadow t d database numBlocks = (.ok, t') ∧
      W.card = numBlocks ∧ ImageWritten t d database W t' := by
  obtain ⟨t', W, heq, hcard, -, hwritten⟩ := writeLoop_spec (t := t) (d := d) database
    numBlocks 0 List.nodup_range (fun i hi ↦ List.mem_range.mp hi) (by
      rw [Nat.sub_zero]
      exact hspace)
  refine ⟨t', W, ?_, by simpa using hcard, hwritten⟩
  rw [nlmDeviceWriteDatabaseToShadow, if_neg (Nat.not_lt.mpr hspace), heq]

/-- Writing an image either finds too little space and changes nothing, or
fills as many free shadow blocks as the image has blocks. -/
theorem nlmDeviceWriteDatabaseToShadow_spec (t : LoaderTables) (d : ℕ)
    (database : FmsDatabase) (numBlocks : ℕ) :
    nlmDeviceWriteDatabaseToShadow t d database numBlocks = (.invalidDatabaseSize, t) ∨
      ∃ t' W, nlmDeviceWriteDatabaseToShadow t d database numBlocks = (.ok, t') ∧
        W.card = numBlocks ∧ ImageWritten t d database W t' := by
  by_cases hspace : t.getNumShadowBlocksFree < numBlocks
  · left
    rw [nlmDeviceWriteDatabaseToShadow, if_pos hspace]
  · exact .inr (nlmDeviceWriteDatabaseToShadow_ok database (Nat.not_lt.mp hspace))

end PhyDevice

end NetL7.Loader
