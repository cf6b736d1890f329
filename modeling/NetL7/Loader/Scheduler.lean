import NetL7.Loader.Tables
import Mathlib.Data.Finset.Card
import Mathlib.Order.Interval.Finset.Nat

/-!
# Group lists and the group bitmap

A block image names the groups its rows belong to. While an array block runs a
clone of the image, its bit is set in the bitmap entry of each of these groups,
in the time slot of the clone's copy number.
-/

namespace NetL7.Loader

/-! ## Groups of a block -/

/-- The distinct nonzero group ids of the rows, in order of first occurrence.
The array `seen` marks exactly the ids already in the list. -/
def groupListOfRows (row : ℕ → FmsRowHw) : List ℕ :=
  (List.range famosBlockSize).foldl
    (fun l i ↦
      let curGid := (row i).gid.toNat % 1024
      if curGid = 0 ∨ curGid ∈ l then l else l ++ [curGid]) []

/-- `nlm_extract_groups_from_block`: tags rows and action entries with the
database id and returns the group list. -/
def nlmExtractGroupsFromBlock (block : FmsBlockHw) (dbId : ℕ) :
    FmsBlockHw × List ℕ × NlmStatus :=
  let tag := BitVec.ofNat 12 dbId <<< 10
  let row := fun i ↦
    if i < famosBlockSize ∧ (block.row i).gid.toNat % 1024 ≠ 0 then
      (block.row i).setGid ((block.row i).gid ||| tag)
    else block.row i
  let groups := groupListOfRows block.row
  if nlmMaxGroupId < groups.length then
    ({ block with row := row }, groups, .invalidGroupid)
  else
    let actionTable := fun i ↦
      if i < maxAcceptPerBlock ∧ (block.actionTable i).gid.toNat % 1024 ≠ 0 then
        (block.actionTable i).setGid ((block.actionTable i).gid ||| tag)
      else block.actionTable i
    (⟨row, actionTable⟩, groups, .ok)

theorem groupListOfRows_spec (row : ℕ → FmsRowHw) :
    (groupListOfRows row).Nodup ∧
      ∀ g ∈ groupListOfRows row, 0 < g ∧ g ≤ nlmMaxGroupId := by
  unfold groupListOfRows
  generalize List.range famosBlockSize = rows
  suffices h : ∀ l : List ℕ, (l.Nodup ∧ ∀ g ∈ l, 0 < g ∧ g ≤ nlmMaxGroupId) →
      ((rows.foldl (fun l i ↦
          let curGid := (row i).gid.toNat % 1024
          if curGid = 0 ∨ curGid ∈ l then l else l ++ [curGid]) l).Nodup ∧
        ∀ g ∈ rows.foldl (fun l i ↦
          let curGid := (row i).gid.toNat % 1024
          if curGid = 0 ∨ curGid ∈ l then l else l ++ [curGid]) l,
          0 < g ∧ g ≤ nlmMaxGroupId) from h [] (by simp)
  induction rows with
  | nil => exact fun l h ↦ h
  | cons i rows ih =>
      intro l hl
      rw [List.foldl_cons]
      apply ih
      by_cases hskip : (row i).gid.toNat % 1024 = 0 ∨ (row i).gid.toNat % 1024 ∈ l
      · simpa only [hskip, ↓reduceIte] using hl
      · simp only [hskip, ↓reduceIte]
        obtain ⟨hzero, hmem⟩ := not_or.mp hskip
        refine ⟨?_, ?_⟩
        · rw [List.nodup_append]
          refine ⟨hl.1, by simp, ?_⟩
          rintro g hg _ hone rfl
          exact hmem (List.mem_singleton.mp hone ▸ hg)
        · intro g hg
          rcases List.mem_append.mp hg with hg | hg
          · exact hl.2 g hg
          · have hgid : g = (row i).gid.toNat % 1024 := by simpa using hg
            change 0 < g ∧ g ≤ 1023
            omega

theorem groupListOfRows_length_le (row : ℕ → FmsRowHw) :
    (groupListOfRows row).length ≤ nlmMaxGroupId := by
  obtain ⟨hnodup, hrange⟩ := groupListOfRows_spec row
  have hsub : (groupListOfRows row).toFinset ⊆ Finset.Icc 1 nlmMaxGroupId := by
    intro g hg
    obtain ⟨hpos, hle⟩ := hrange g (List.mem_toFinset.mp hg)
    exact Finset.mem_Icc.mpr ⟨hpos, hle⟩
  calc
    (groupListOfRows row).length = (groupListOfRows row).toFinset.card :=
      (List.toFinset_card_of_nodup hnodup).symm
    _ ≤ (Finset.Icc 1 nlmMaxGroupId).card := Finset.card_le_card hsub
    _ = nlmMaxGroupId := by simp

/-- The error exit of the extraction is never taken. -/
theorem nlmExtractGroupsFromBlock_status (block : FmsBlockHw) (dbId : ℕ) :
    (nlmExtractGroupsFromBlock block dbId).2.2 = .ok := by
  have hlen := groupListOfRows_length_le block.row
  simp only [nlmExtractGroupsFromBlock, if_neg (Nat.not_lt.mpr hlen)]

theorem nlmExtractGroupsFromBlock_groups (block : FmsBlockHw) (dbId : ℕ) :
    (nlmExtractGroupsFromBlock block dbId).2.1 = groupListOfRows block.row := by
  have hlen := groupListOfRows_length_le block.row
  simp only [nlmExtractGroupsFromBlock, if_neg (Nat.not_lt.mpr hlen)]

/-! ## Bitmap entries -/

namespace GidBitmapData

/-- Bit 3 of the time-slot map selects bitmap 0, bit 0 selects bitmap 3. -/
def slotSelected (timeslotMap : ℕ) (k : Fin 4) : Bool := timeslotMap.testBit (3 - k)

def ofBitmaps (bitmap : Fin 4 → BitVec 12) : GidBitmapData :=
  ⟨bitmap, fun k ↦ bitmap k != 0⟩

def add (e : GidBitmapData) (addrArray timeslotMap : ℕ) : GidBitmapData :=
  ofBitmaps fun k ↦ e.fmsBlockBitmap k |||
    if slotSelected timeslotMap k then 1#12 <<< addrArray else 0

def delete (e : GidBitmapData) (addrArray timeslotMap : ℕ) : GidBitmapData :=
  ofBitmaps fun k ↦ e.fmsBlockBitmap k &&&
    if slotSelected timeslotMap k then ~~~(1#12 <<< addrArray) else BitVec.allOnes 12

/-- The bit of an array block in one time slot. -/
def bit (e : GidBitmapData) (k : Fin 4) (j : ℕ) : Bool := (e.fmsBlockBitmap k).getLsbD j

/-- Each valid bit says whether its bitmap is nonzero. -/
def ValidBits (e : GidBitmapData) : Prop := ∀ k, e.valid k = (e.fmsBlockBitmap k != 0)

theorem validBits_ofBitmaps (bitmap : Fin 4 → BitVec 12) : (ofBitmaps bitmap).ValidBits :=
  fun _ ↦ rfl

theorem bit_one_shift (a j : ℕ) :
    (1#12 <<< a).getLsbD j = (decide (j = a) && decide (j < 12)) := by
  by_cases hj : j < 12
  · by_cases haj : j = a
    · subst haj
      simp [hj]
    · by_cases hlt : j < a
      · simp [hlt, haj]
      · have hpos : j - a ≠ 0 := by omega
        simp [hj, haj, hlt, hpos]
  · simp [hj]

theorem bit_add (e : GidBitmapData) (a m : ℕ) (k : Fin 4) (j : ℕ) :
    (e.add a m).bit k j =
      (e.bit k j || (slotSelected m k && decide (j = a) && decide (j < 12))) := by
  simp only [add, bit, ofBitmaps, BitVec.getLsbD_or]
  by_cases hs : slotSelected m k = true
  · rw [if_pos hs, bit_one_shift, hs, Bool.true_and]
  · simp [hs]

theorem bit_lt {e : GidBitmapData} {k : Fin 4} {j : ℕ} (h : e.bit k j = true) : j < 12 := by
  by_contra hj
  have hzero : (e.fmsBlockBitmap k).getLsbD j = false :=
    BitVec.getLsbD_of_ge _ _ (Nat.not_lt.mp hj)
  simp [bit, hzero] at h

theorem bit_delete (e : GidBitmapData) (a m : ℕ) (k : Fin 4) (j : ℕ) :
    (e.delete a m).bit k j = (e.bit k j && !(slotSelected m k && decide (j = a))) := by
  by_cases hj : j < 12
  · simp only [delete, bit, ofBitmaps, BitVec.getLsbD_and]
    by_cases hs : slotSelected m k = true
    · rw [if_pos hs, BitVec.getLsbD_not, bit_one_shift, hs]
      simp [hj]
    · rw [if_neg hs, BitVec.getLsbD_allOnes]
      simp [hs, hj]
  · have hzero : ∀ e' : GidBitmapData, e'.bit k j = false := by
      intro e'
      simpa using fun h ↦ hj (bit_lt (e := e') (k := k) h)
    simp [hzero]

/-- The time-slot bit of a copy number selects exactly one bitmap. -/
theorem slotSelected_shift (c : ℕ) (k : Fin 4) :
    slotSelected (1 <<< c) k = decide (c = 3 - k) := by
  simp [slotSelected, Nat.one_shiftLeft, Nat.testBit_two_pow]

end GidBitmapData

/-! ## Scheduler updates -/

namespace LoaderTables

/-- `nlm_device_block_scheduler_add` -/
def nlmDeviceBlockSchedulerAdd (t : LoaderTables) (addrShadow addrArray timeslotMap : ℕ) :
    LoaderTables :=
  let dbId := (t.databaseShadowMap addrShadow).dbId
  (t.blockGroupList addrShadow).foldl
    (fun t g ↦ t.writeGidBmap dbId g ((t.gidBmapShadow dbId g).add addrArray timeslotMap)) t

/-- `nlm_device_block_scheduler_delete` -/
def nlmDeviceBlockSchedulerDelete (t : LoaderTables) (addrShadow addrArray timeslotMap : ℕ) :
    LoaderTables :=
  let dbId := (t.databaseShadowMap addrShadow).dbId
  (t.blockGroupList addrShadow).foldl
    (fun t g ↦ t.writeGidBmap dbId g ((t.gidBmapShadow dbId g).delete addrArray timeslotMap)) t

/-- The bit of array block `j` in time slot `k` of the entry of group `g` of
database `d`. -/
def gidBit (t : LoaderTables) (d g : ℕ) (k : Fin 4) (j : ℕ) : Bool :=
  (t.gidBmapShadow d g).bit k j

/-- The shadow bitmap is what the hardware holds, and its valid bits are
exact. -/
def BmapWritten (t : LoaderTables) : Prop :=
  t.gidBmapHw = t.gidBmapShadow ∧ ∀ d g, (t.gidBmapShadow d g).ValidBits

/-- Replaces the group bitmap, leaving the other tables alone. -/
def withGidBmap (t : LoaderTables) (shadow hw : ℕ → ℕ → GidBitmapData) : LoaderTables :=
  { t with gidBmapShadow := shadow, gidBmapHw := hw }

/-- Both scheduler updates rewrite the entries of the listed groups. -/
def mapGidBmap (t : LoaderTables) (f : GidBitmapData → GidBitmapData) (d : ℕ)
    (groups : List ℕ) : LoaderTables :=
  groups.foldl (fun t g ↦ t.writeGidBmap d g (f (t.gidBmapShadow d g))) t

theorem mapGidBmap_frame (f : GidBitmapData → GidBitmapData) (d : ℕ) (groups : List ℕ)
    (t : LoaderTables) :
    t.mapGidBmap f d groups =
      t.withGidBmap (t.mapGidBmap f d groups).gidBmapShadow
        (t.mapGidBmap f d groups).gidBmapHw := by
  unfold mapGidBmap
  induction groups generalizing t with
  | nil => rfl
  | cons g groups ih =>
      rw [List.foldl_cons, ih]
      rfl

theorem BmapWritten.writeGidBmap {t : LoaderTables} (h : t.BmapWritten) (d g : ℕ)
    {e : GidBitmapData} (he : e.ValidBits) : (t.writeGidBmap d g e).BmapWritten := by
  refine ⟨?_, ?_⟩
  · simp [LoaderTables.writeGidBmap, h.1]
  · intro d' g'
    by_cases hd : d' = d
    · subst hd
      by_cases hg : g' = g
      · subst hg
        simpa [LoaderTables.writeGidBmap] using he
      · simpa [LoaderTables.writeGidBmap, hg] using h.2 d' g'
    · simpa [LoaderTables.writeGidBmap, hd] using h.2 d' g'

theorem BmapWritten.mapGidBmap {t : LoaderTables} (h : t.BmapWritten)
    {f : GidBitmapData → GidBitmapData} (hf : ∀ e, (f e).ValidBits) (d : ℕ)
    (groups : List ℕ) : (t.mapGidBmap f d groups).BmapWritten := by
  unfold LoaderTables.mapGidBmap
  induction groups generalizing t with
  | nil => exact h
  | cons g groups ih =>
      rw [List.foldl_cons]
      exact ih (h.writeGidBmap d g (hf _))

theorem gidBit_writeGidBmap (t : LoaderTables) (d g : ℕ) (e : GidBitmapData) (d' g' : ℕ)
    (k : Fin 4) (j : ℕ) :
    (t.writeGidBmap d g e).gidBit d' g' k j =
      if d' = d ∧ g' = g then e.bit k j else t.gidBit d' g' k j := by
  by_cases hd : d' = d
  · subst hd
    by_cases hg : g' = g
    · subst hg
      simp [gidBit, writeGidBmap]
    · simp [gidBit, writeGidBmap, hg]
  · simp [gidBit, writeGidBmap, hd]

theorem gidBit_schedulerAdd (t : LoaderTables) (sh a m d g : ℕ) (k : Fin 4) (j : ℕ) :
    (t.nlmDeviceBlockSchedulerAdd sh a m).gidBit d g k j = true ↔
      t.gidBit d g k j = true ∨
        (d = (t.databaseShadowMap sh).dbId ∧ g ∈ t.blockGroupList sh ∧
          GidBitmapData.slotSelected m k = true ∧ j = a ∧ j < 12) := by
  unfold nlmDeviceBlockSchedulerAdd
  generalize (t.databaseShadowMap sh).dbId = db
  generalize t.blockGroupList sh = groups
  induction groups generalizing t with
  | nil => simp
  | cons g₀ groups ih =>
      rw [List.foldl_cons, ih, gidBit_writeGidBmap]
      by_cases hg : d = db ∧ g = g₀
      · obtain ⟨rfl, rfl⟩ := hg
        simp only [and_self, ↓reduceIte, GidBitmapData.bit_add]
        simp [gidBit]
        tauto
      · simp only [hg, ↓reduceIte, List.mem_cons]
        tauto

theorem gidBit_schedulerDelete (t : LoaderTables) (sh a m d g : ℕ) (k : Fin 4) (j : ℕ) :
    (t.nlmDeviceBlockSchedulerDelete sh a m).gidBit d g k j = true ↔
      t.gidBit d g k j = true ∧
        ¬(d = (t.databaseShadowMap sh).dbId ∧ g ∈ t.blockGroupList sh ∧
          GidBitmapData.slotSelected m k = true ∧ j = a) := by
  unfold nlmDeviceBlockSchedulerDelete
  generalize (t.databaseShadowMap sh).dbId = db
  generalize t.blockGroupList sh = groups
  induction groups generalizing t with
  | nil => simp
  | cons g₀ groups ih =>
      rw [List.foldl_cons, ih, gidBit_writeGidBmap]
      by_cases hg : d = db ∧ g = g₀
      · obtain ⟨rfl, rfl⟩ := hg
        by_cases hs : GidBitmapData.slotSelected m k = true
        · simp [gidBit, GidBitmapData.bit_delete, hs]
          tauto
        · simp [gidBit, GidBitmapData.bit_delete, hs]
      · simp only [hg, ↓reduceIte, List.mem_cons]
        tauto

end LoaderTables

end NetL7.Loader
