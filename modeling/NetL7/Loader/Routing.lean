import NetL7.Loader.Unload

/-!
# The group bitmap follows the clones

On the settled tables the bit of an array block is set in exactly the entries
of the groups and the database of the shadow block it runs, in the time slot of
its copy number. Clones of a round whose bulk update is still to be queued are
the exception.
-/

namespace NetL7.Loader

open NetL7.Lib LoaderTables

namespace LoaderTables

/-- The bitmap is exact for all array blocks but the pending ones, whose bits
are clear. -/
def Routed (pending : Set ℕ) (t : LoaderTables) : Prop :=
  ∀ d g k j, t.gidBit d g k j = true ↔
    j ∉ pending ∧ t.arrayBlockMapCurrent j = true ∧
      (t.databaseShadowMap (t.arrayVirtIds j)).valid = true ∧
      (t.databaseShadowMap (t.arrayVirtIds j)).dbId = d ∧
      g ∈ t.blockGroupList (t.arrayVirtIds j) ∧ t.arrayBlockCopyNumber j + k = 3

theorem slotSelected_shift_iff (c : ℕ) (k : Fin 4) :
    GidBitmapData.slotSelected (1 <<< c) k = true ↔ c + k = 3 := by
  rw [GidBitmapData.slotSelected_shift, decide_eq_true_iff]
  omega

variable {t t' : LoaderTables} {pending : Set ℕ} {U : Set ℕ} {j b : ℕ}

/-! ## Single updates -/

theorem Routed.addClone (h : Routed pending t) (hj : t.arrayBlockMapCurrent j = false) :
    Routed (insert j pending) (t.addClone j b) := by
  intro d g k x
  have hbit : (t.addClone j b).gidBit d g k x = t.gidBit d g k x := rfl
  rw [hbit, h d g k x, addClone_entry, addClone_current, addClone_virtIds,
    addClone_copyNumber]
  by_cases hx : x = j
  · subst hx
    simp [hj]
  · have hgroups : (t.addClone j b).blockGroupList = t.blockGroupList := rfl
    rw [hgroups, Function.update_of_ne hx, Function.update_of_ne hx, if_neg hx]
    by_cases hv : t.arrayVirtIds x = b <;> simp [hx, hv]

theorem Routed.removal (h : Routed pending t) (hj : t.arrayVirtIds j = b) :
    Routed pending ((t.nlmDeviceBlockSchedulerDelete b j
      (1 <<< t.arrayBlockCopyNumber j)).removeClone j b) := by
  intro d g k x
  have hbit := gidBit_schedulerDelete t b j (1 <<< t.arrayBlockCopyNumber j) d g k x
  obtain ⟨shadow, regs, heq⟩ := sameButGidBmap_schedulerDelete t b j
    (1 <<< t.arrayBlockCopyNumber j)
  have hremove : ((t.nlmDeviceBlockSchedulerDelete b j
      (1 <<< t.arrayBlockCopyNumber j)).removeClone j b).gidBit d g k x =
      (t.nlmDeviceBlockSchedulerDelete b j
        (1 <<< t.arrayBlockCopyNumber j)).gidBit d g k x := rfl
  rw [hremove, hbit, h d g k x, slotSelected_shift_iff, removeClone_entry,
    removeClone_current, removeClone_virtIds, removeClone_copyNumber, heq]
  change _ ↔ x ∉ pending ∧ Function.update t.arrayBlockMapCurrent j false x = true ∧
    (if t.arrayVirtIds x = b then _ else t.databaseShadowMap (t.arrayVirtIds x)).valid = true ∧
    (if t.arrayVirtIds x = b then _ else t.databaseShadowMap (t.arrayVirtIds x)).dbId = d ∧
    g ∈ t.blockGroupList (t.arrayVirtIds x) ∧ t.arrayBlockCopyNumber x + k = 3
  by_cases hx : x = j
  · subst hx
    rw [Function.update_self, hj]
    simp only [Bool.false_eq_true, false_and, and_false, iff_false]
    rintro ⟨⟨-, -, -, rfl, hg, hc⟩, hnot⟩
    exact hnot ⟨rfl, hg, hc, trivial⟩
  · rw [Function.update_of_ne hx]
    by_cases hv : t.arrayVirtIds x = b
    · simp only [hx, hv, if_true, and_false, not_false_eq_true, and_true]
      exact Iff.rfl
    · simp only [hx, hv, if_false, and_false, not_false_eq_true, and_true]

theorem Routed.shadowDelete (h : Routed pending t) (hp : Placed U t)
    (hb : t.clones b = ∅) (a : ℕ) : Routed pending (t.execute ⟨.shadowDelete, a, b⟩) := by
  intro d g k x
  have hbit : (t.execute ⟨.shadowDelete, a, b⟩).gidBit d g k x = t.gidBit d g k x := rfl
  rw [hbit, h d g k x]
  change _ ↔ x ∉ pending ∧ t.arrayBlockMapCurrent x = true ∧
    ((t.setShadow b fun e ↦ { e with valid := false }).databaseShadowMap
      (t.arrayVirtIds x)).valid = true ∧
    ((t.setShadow b fun e ↦ { e with valid := false }).databaseShadowMap
      (t.arrayVirtIds x)).dbId = d ∧
    g ∈ t.blockGroupList (t.arrayVirtIds x) ∧ t.arrayBlockCopyNumber x + k = 3
  by_cases hcur : t.arrayBlockMapCurrent x = true
  · have hv : t.arrayVirtIds x ≠ b := by
      intro hv
      have hmem : x ∈ t.clones b := mem_clones.mpr ⟨(hp.owner_valid x hcur).1, hcur, hv⟩
      simp [hb] at hmem
    simp [setShadow, hv]
  · simp [hcur]

/-! ## The bulk update -/

theorem gidBit_foldl {α : Type*} {t₀ : LoaderTables} {f : LoaderTables → α → LoaderTables}
    {Q : α → Prop} {d g : ℕ} {k : Fin 4} {x : ℕ}
    (hf : ∀ t y, t₀.SameButGidBmap t → t₀.SameButGidBmap (f t y) ∧
      ((f t y).gidBit d g k x = true ↔ t.gidBit d g k x = true ∨ Q y))
    (ys : List α) {t : LoaderTables} (ht : t₀.SameButGidBmap t) :
    t₀.SameButGidBmap (ys.foldl f t) ∧
      ((ys.foldl f t).gidBit d g k x = true ↔
        t.gidBit d g k x = true ∨ ∃ y ∈ ys, Q y) := by
  induction ys generalizing t with
  | nil => exact ⟨ht, by simp⟩
  | cons y ys ih =>
    obtain ⟨hsame, hbit⟩ := hf t y ht
    obtain ⟨hsame', hbit'⟩ := ih hsame
    refine ⟨hsame', ?_⟩
    rw [List.foldl_cons, hbit', hbit, or_assoc]
    simp

theorem gidBit_configure (t : LoaderTables) (cmd : LoaderCommand) (d g : ℕ) (k : Fin 4)
    (x : ℕ) :
    (t.gidBmapConfigure cmd).gidBit d g k x = true ↔
      t.gidBit d g k x = true ∨
        (x < t.numFmsBlocks ∧ x < 12 ∧ t.arrayBlockMapCurrent x = true ∧
          t.arrayVirtIds x ∈ t.createShadowBlockListByDbId
            (t.databaseShadowMap cmd.addrShadow).dbId ∧
          (t.databaseShadowMap (t.arrayVirtIds x)).noClonesCurrent = cmd.addrArray ∧
          (t.databaseShadowMap (t.arrayVirtIds x)).dbId = d ∧
          g ∈ t.blockGroupList (t.arrayVirtIds x) ∧ t.arrayBlockCopyNumber x + k = 3) := by
  unfold gidBmapConfigure
  generalize t.createShadowBlockListByDbId (t.databaseShadowMap cmd.addrShadow).dbId = blocks
  let Q : ℕ → ℕ → Prop := fun j blk ↦
    (blk = t.arrayVirtIds j ∧ t.arrayBlockMapCurrent j = true ∧
      (t.databaseShadowMap blk).noClonesCurrent = cmd.addrArray) ∧
    d = (t.databaseShadowMap blk).dbId ∧ g ∈ t.blockGroupList blk ∧
      t.arrayBlockCopyNumber j + k = 3 ∧ x = j ∧ x < 12
  have hinner : ∀ t' j, t.SameButGidBmap t' → ∀ blk,
      t.SameButGidBmap (if blk = t'.arrayVirtIds j ∧ t'.arrayBlockMapCurrent j = true ∧
          (t'.databaseShadowMap blk).noClonesCurrent = cmd.addrArray then
        t'.nlmDeviceBlockSchedulerAdd blk j (1 <<< t'.arrayBlockCopyNumber j) else t') ∧
      ((if blk = t'.arrayVirtIds j ∧ t'.arrayBlockMapCurrent j = true ∧
          (t'.databaseShadowMap blk).noClonesCurrent = cmd.addrArray then
        t'.nlmDeviceBlockSchedulerAdd blk j (1 <<< t'.arrayBlockCopyNumber j)
        else t').gidBit d g k x = true ↔ t'.gidBit d g k x = true ∨ Q j blk) := by
    rintro t' j ⟨shadow, regs, rfl⟩ blk
    split
    · rename_i hcond
      refine ⟨SameButGidBmap.trans ⟨shadow, regs, rfl⟩ (sameButGidBmap_schedulerAdd _ _ _ _), ?_⟩
      rw [gidBit_schedulerAdd, slotSelected_shift_iff]
      exact or_congr Iff.rfl ⟨fun h ↦ ⟨hcond, h⟩, fun h ↦ h.2⟩
    · rename_i hcond
      exact ⟨⟨shadow, regs, rfl⟩, ⟨.inl, fun h ↦ h.elim id fun h ↦ absurd h.1 hcond⟩⟩
  have houter := (gidBit_foldl (Q := fun j ↦ ∃ blk ∈ blocks, Q j blk) (d := d) (g := g)
    (k := k) (x := x) (fun t' j ht' ↦
      gidBit_foldl (fun t'' blk ht'' ↦ hinner t'' j ht'' blk) blocks ht')
    (List.range t.numFmsBlocks) (SameButGidBmap.refl t)).2
  rw [houter]
  refine or_congr Iff.rfl ⟨?_, ?_⟩
  · rintro ⟨j, hj, blk, hblk, ⟨rfl, hcur, ha⟩, rfl, hg, hc, rfl, hx⟩
    exact ⟨List.mem_range.mp hj, hx, hcur, hblk, ha, rfl, hg, hc⟩
  · rintro ⟨hj, hx, hcur, hblk, ha, rfl, hg, hc⟩
    exact ⟨x, List.mem_range.mpr hj, _, hblk, ⟨rfl, hcur, ha⟩, rfl, hg, hc, rfl, hx⟩

/-- The bulk update gives the pending clones their bits. -/
theorem Routed.configure {cmd : LoaderCommand} (h : Routed pending t) (hp : Placed U t)
    (hpending : ∀ j ∈ pending, t.arrayBlockMapCurrent j = true →
      (t.databaseShadowMap (t.arrayVirtIds j)).dbId =
          (t.databaseShadowMap cmd.addrShadow).dbId ∧
        (t.databaseShadowMap (t.arrayVirtIds j)).noClonesCurrent = cmd.addrArray) :
    Routed ∅ (t.gidBmapConfigure cmd) := by
  intro d g k x
  rw [gidBit_configure, h d g k x]
  obtain ⟨shadow, regs, heq⟩ := sameButGidBmap_configure t cmd
  rw [heq]
  change _ ↔ x ∉ (∅ : Set ℕ) ∧ t.arrayBlockMapCurrent x = true ∧
    (t.databaseShadowMap (t.arrayVirtIds x)).valid = true ∧
    (t.databaseShadowMap (t.arrayVirtIds x)).dbId = d ∧
    g ∈ t.blockGroupList (t.arrayVirtIds x) ∧ t.arrayBlockCopyNumber x + k = 3
  constructor
  · rintro (⟨-, hrest⟩ | ⟨-, -, hcur, hblk, -, hd, hg, hc⟩)
    · exact ⟨Set.notMem_empty x, hrest⟩
    · exact ⟨Set.notMem_empty x, hcur, (mem_blockList.mp hblk).2.1, hd, hg, hc⟩
  · rintro ⟨-, hcur, hvalid, hd, hg, hc⟩
    by_cases hx : x ∈ pending
    · obtain ⟨hdb, ha⟩ := hpending x hx hcur
      have hlt := (hp.owner_valid x hcur).1
      refine .inr ⟨hlt, hlt.trans_le hp.blocks_le, hcur, ?_, ha, hd, hg, hc⟩
      exact mem_blockList.mpr ⟨(hp.valid_lt _ hvalid).1, hvalid, hdb⟩
    · exact .inl ⟨hx, hcur, hvalid, hd, hg, hc⟩

/-! ## Shadow and hardware -/

theorem BmapWritten.schedulerAdd (h : t.BmapWritten) (sh a m : ℕ) :
    (t.nlmDeviceBlockSchedulerAdd sh a m).BmapWritten :=
  h.mapGidBmap (f := fun e ↦ e.add a m)
    (fun _ ↦ GidBitmapData.validBits_ofBitmaps _) _ _

theorem BmapWritten.schedulerDelete (h : t.BmapWritten) (sh a m : ℕ) :
    (t.nlmDeviceBlockSchedulerDelete sh a m).BmapWritten :=
  h.mapGidBmap (f := fun e ↦ e.delete a m)
    (fun _ ↦ GidBitmapData.validBits_ofBitmaps _) _ _

theorem BmapWritten.configure (h : t.BmapWritten) (cmd : LoaderCommand) :
    (t.gidBmapConfigure cmd).BmapWritten := by
  unfold gidBmapConfigure
  refine List.foldlRecOn _ _ h fun t ht j _ ↦ ?_
  refine List.foldlRecOn _ _ ht fun t ht blk _ ↦ ?_
  split
  · exact ht.schedulerAdd _ _ _
  · exact ht

end LoaderTables

namespace PhyDevice

variable {hw : Hw} {U : Set ℕ} {s s' : PhyDevice} {b n d : ℕ} {bs js : List ℕ} {pending : Set ℕ}

/-- No bulk update is queued. -/
def NoConfigure (s : PhyDevice) : Prop :=
  ∀ c ∈ s.loaderCmdMem, c.opcode ≠ .gidBmapConfigure

theorem settled_removal (hq : NoConfigure s) (j b : ℕ) :
    (s.removal j b).settled =
      (s.settled.nlmDeviceBlockSchedulerDelete b j
        (1 <<< s.arrayBlockCopyNumber j)).removeClone j b := by
  rw [removal, settled_decloned]
  congr 1
  exact flush_comm _
    (f := fun t : LoaderTables ↦
      t.nlmDeviceBlockSchedulerDelete b j (1 <<< s.arrayBlockCopyNumber j))
    (fun cmd hcmd t ↦ schedulerDelete_execute t b j _ (hq cmd hcmd)) _

/-- The settled group bitmap is exact and is what the hardware holds. -/
structure BmapOk (s : PhyDevice) : Prop where
  routed : Routed ∅ s.settled
  written : s.settled.BmapWritten
  noConfigure : NoConfigure s

theorem BmapOk.removal {j : ℕ} (h : BmapOk s) (hmem : j ∈ s.settled.clones b)
    (hcopy : s.settled.arrayBlockCopyNumber j = s.arrayBlockCopyNumber j) :
    BmapOk (s.removal j b) := by
  have hsettled := settled_removal h.noConfigure j b
  rw [← hcopy] at hsettled
  refine ⟨?_, ?_, ?_⟩
  · rw [hsettled]
    exact h.routed.removal (mem_clones.mp hmem).2.2
  · rw [hsettled]
    exact h.written.schedulerDelete _ _ _
  · intro c hc
    rw [removal_queue] at hc
    rcases List.mem_append.mp hc with hc | hc
    · exact h.noConfigure c hc
    · have hcmds : ∀ c ∈ decloneCmds j b, c.opcode ≠ .gidBmapConfigure := by
        simp [decloneCmds]
      exact hcmds c hc

theorem Removals.bmapOk (h : Removals b n s s') (hs : Shrinkable hw U b s) (hok : BmapOk s) :
    BmapOk s' := by
  induction h with
  | refl => exact hok
  | step h hj hvic ih =>
    have hs' := (h.shrinkable hs).1
    obtain ⟨hv, hcur, htgt⟩ := isVictim_iff.mp hvic
    obtain ⟨hmem, hcopy⟩ := hs'.retained _ (mem_clones.mpr ⟨hj, hcur, hv⟩) (by omega)
    exact (ih hs hok).removal hmem hcopy

theorem ShrinkAll.bmapOk (h : ShrinkAll n bs s s') (hnodup : bs.Nodup)
    (hbs : ∀ b ∈ bs, Shrinkable hw U b s) (hok : BmapOk s) : BmapOk s' := by
  induction h with
  | nil => exact hok
  | @cons b bs s s' s'' h _ ih =>
    obtain ⟨hb, hnodup⟩ := List.nodup_cons.mp hnodup
    have hsb := hbs b (by simp)
    refine ih hnodup (fun x hx ↦ ?_) (h.bmapOk hsb hok)
    exact h.shrinkable_other hsb (hbs x (by simp [hx])) fun heq ↦ hb (heq ▸ hx)

theorem Taken.bmapOk (h : Taken b js s s') (hs : Inv hw U s) (hb : b ∈ U) (hnodup : js.Nodup)
    (hjs : ∀ j ∈ js, j ∈ s.settled.clones b)
    (hcopy : s.settled.arrayBlockCopyNumber = s.arrayBlockCopyNumber) (hok : BmapOk s) :
    BmapOk s' := by
  induction h with
  | nil => exact hok
  | @cons j js s s' hmem h ih =>
    obtain ⟨hj, hnodup⟩ := List.nodup_cons.mp hnodup
    have hjS := hjs j (by simp)
    have hone : Taken b [j] s (s.removal j b) := .cons hmem (.nil _)
    have hpost := hone.post hs hb (by simp) (by simpa using hjS)
    refine ih hpost.inv hnodup (fun x hx ↦ ?_) ?_ (hok.removal hjS (congrFun hcopy j))
    · rw [hpost.clones_eq, if_pos rfl]
      have hne : x ≠ j := fun h ↦ hj (h ▸ hx)
      simpa [hne] using hjs x (by simp [hx])
    · rw [hpost.copyNumber_eq, hcopy, hone.sameView.copyNumber_eq]

theorem UnloadAll.bmapOk (h : UnloadAll bs s s') (hs : Inv hw U s) (hnodup : bs.Nodup)
    (hbs : ∀ b ∈ bs, b ∈ U ∧ s.settled.clones b = s.clones b)
    (hcopy : s.settled.arrayBlockCopyNumber = s.arrayBlockCopyNumber) (hok : BmapOk s) :
    BmapOk s' := by
  induction h with
  | nil => exact hok
  | @cons b bs s s' s'' h _ ih =>
    obtain ⟨hb, hnodup⟩ := List.nodup_cons.mp hnodup
    obtain ⟨hbU, hbeq⟩ := hbs b (by simp)
    have hjs : ∀ j ∈ cloneList s.toLoaderTables b, j ∈ s.settled.clones b := by
      intro j hj
      rw [hbeq]
      exact mem_cloneList.mp hj
    have htaken := h.post hs hbU (cloneList_nodup _ _) hjs
    have hok' := h.bmapOk hs hbU (cloneList_nodup _ _) hjs hcopy hok
    have hone : UnloadAll [b] s (s'.enqueue [shadowDeleteCmd b]) := .cons h (.nil _)
    have hpost := hone.post hs (by simp) fun x hx ↦ by
      rw [List.mem_singleton.mp hx]
      exact ⟨hbU, hbeq⟩
    have hempty : s'.settled.clones b = ∅ := by
      rw [htaken.clones_eq, if_pos rfl, hbeq, cloneList_toFinset, Finset.sdiff_self]
    refine ih hpost.inv hnodup (fun x hx ↦ ?_) ?_ ⟨?_, ?_, ?_⟩
    · have hne : x ≠ b := fun h ↦ hb (h ▸ hx)
      obtain ⟨hxU, hxeq⟩ := hbs x (by simp [hx])
      refine ⟨hxU, ?_⟩
      rw [hpost.clones_eq, if_neg (by simpa using hne), hxeq, hone.sameView.clones_eq]
    · rw [hpost.copyNumber_eq, hcopy, hone.sameView.copyNumber_eq]
    · rw [settled_enqueue]
      exact hok'.routed.shadowDelete htaken.inv.settled_placed hempty 0
    · rw [settled_enqueue]
      exact hok'.written
    · intro c hc
      rcases List.mem_append.mp hc with hc | hc
      · exact hok'.noConfigure c hc
      · rw [List.mem_singleton.mp hc]
        simp [shadowDeleteCmd]

/-! ## Growth -/

/-- No command makes a shadow block valid. -/
theorem valid_of_settled (h : (s.settled.databaseShadowMap b).valid = true) :
    (s.databaseShadowMap b).valid = true := by
  by_contra hnot
  have hsettled : (s.settled.databaseShadowMap b).valid = false := by
    refine flush_induct _ (P := fun t : LoaderTables ↦ (t.databaseShadowMap b).valid = false)
      (fun cmd _ t ht ↦ ?_) (by simpa using hnot)
    obtain ⟨opcode, a, sh⟩ := cmd
    cases opcode with
    | gidBmapConfigure =>
      have hview := SameView.of_sameButGidBmap
        (sameButGidBmap_configure t ⟨.gidBmapConfigure, a, sh⟩)
      exact (hview.entry_eq b).1.trans ht
    | arrayAdd =>
      by_cases hb : b = sh <;>
        simp_all [execute, setShadow, setCopyNumber, setCurrent]
    | arrayDelete => by_cases hb : b = sh <;> simp_all [execute, setShadow, setCurrent]
    | shadowDelete => by_cases hb : b = sh <;> simp_all [execute, setShadow]
    | _ => exact ht
  simp [hsettled] at h

/-- The commands queued for a clone do not touch the bitmap: the new clone is
pending. -/
theorem Clonings.routed (h : Clonings bs s s') (hs : Inv hw U s)
    (hvalid : ∀ b ∈ bs, (s.settled.databaseShadowMap b).valid = true)
    (hdb : ∀ b ∈ bs, (s.settled.databaseShadowMap b).dbId = d)
    (hrouted : Routed pending s.settled) (hwritten : s.settled.BmapWritten)
    (hpending : ∀ j ∈ pending,
      (s.settled.databaseShadowMap (s.settled.arrayVirtIds j)).dbId = d) :
    s'.settled.BmapWritten ∧ ∃ pending', Routed pending' s'.settled ∧
      ∀ j ∈ pending',
        (s'.settled.databaseShadowMap (s'.settled.arrayVirtIds j)).dbId = d := by
  induction h generalizing pending with
  | nil => exact ⟨hwritten, pending, hrouted, hpending⟩
  | @cons b bs s s' j hj hfree _ ih =>
    have hidle : s.settled.arrayBlockMapCurrent j = false := by
      rw [← hs.target_eq]
      exact hfree
    have hentry : ∀ x, ((s.cloned j b).settled.databaseShadowMap x).dbId =
        (s.settled.databaseShadowMap x).dbId := by
      intro x
      rw [settled_cloned, addClone_entry]
      by_cases hx : x = b <;> simp [hx]
    refine @ih (insert j pending) (hs.cloned hj hfree (hvalid b (by simp)))
      (fun x hx ↦ ?_) (fun x hx ↦ ?_) ?_ ?_ fun x hx ↦ ?_
    · rw [settled_cloned_valid]
      exact hvalid x (by simp [hx])
    · rw [hentry]
      exact hdb x (by simp [hx])
    · rw [settled_cloned]
      exact hrouted.addClone hidle
    · rw [settled_cloned]
      exact hwritten
    · rw [hentry, settled_cloned, addClone_virtIds]
      by_cases hxj : x = j
      · rw [hxj, Function.update_self]
        exact hdb b (by simp)
      · rw [Function.update_of_ne hxj]
        exact hpending x (hx.resolve_left hxj)

theorem Rounds.routed (h : Rounds bs n s s') (hs : Inv hw U s)
    (hlist : s.createShadowBlockListByDbId d = bs) {c : ℕ}
    (hbs : ∀ b ∈ bs, (s.settled.databaseShadowMap b).valid = true ∧
      (s.databaseShadowMap b).noClonesTarget = c)
    (hrouted : Routed ∅ s.settled) (hwritten : s.settled.BmapWritten) :
    Routed ∅ s'.settled ∧ s'.settled.BmapWritten := by
  induction h with
  | zero => exact ⟨hrouted, hwritten⟩
  | @succ n s s' s'' h h' ih =>
    obtain ⟨hrouted', hwritten'⟩ := ih hs hlist hbs hrouted hwritten
    have hvalid : ∀ b ∈ bs, (s.settled.databaseShadowMap b).valid = true :=
      fun b hb ↦ (hbs b hb).1
    have hpost := h.post hs hvalid
    have hvalid' : ∀ b ∈ bs, (s'.settled.databaseShadowMap b).valid = true :=
      fun b hb ↦ (hpost.valid_eq b).trans (hvalid b hb)
    have hround := h'.post hpost.inv hvalid'
    have hdbId : ∀ x, (s'.settled.databaseShadowMap x).dbId =
        (s.databaseShadowMap x).dbId := by
      intro x
      rw [settled_dbId, (h.sameView.entry_eq x).2.2]
    have hdbId'' : ∀ x, (s''.settled.databaseShadowMap x).dbId =
        (s.databaseShadowMap x).dbId := by
      intro x
      rw [settled_dbId, (h'.sameView.entry_eq x).2.2,
        (h.sameView.entry_eq x).2.2]
    have hmem : ∀ b ∈ bs, (s.databaseShadowMap b).dbId = d := by
      intro b hb
      rw [← hlist] at hb
      exact (mem_blockList.mp hb).2.2
    obtain ⟨hwritten'', pending, hpend, hpendDb⟩ := h'.routed (d := d) hpost.inv hvalid'
      (fun b hb ↦ (hdbId b).trans (hmem b hb)) hrouted' hwritten' (by simp)
    have htarget : ∀ b ∈ bs, (s''.databaseShadowMap b).noClonesTarget = c + n + 1 := by
      intro b hb
      have hnodup : bs.Nodup := hlist ▸ s.blockList_nodup d
      rw [hround.target_eq, hpost.target_eq, (hbs b hb).2,
        List.count_eq_one_of_mem hnodup hb, Nat.mul_one]
    rw [settled_enqueue]
    change Routed ∅ (s''.settled.gidBmapConfigure (configureCmd s''.toLoaderTables bs)) ∧
      (s''.settled.gidBmapConfigure (configureCmd s''.toLoaderTables bs)).BmapWritten
    refine ⟨hpend.configure hround.inv.settled_placed fun j hj hcur ↦ ?_,
      hwritten''.configure _⟩
    have hmemv : s''.settled.arrayVirtIds j ∈ bs := by
      have hv := (hround.inv.settled_placed.owner_valid j hcur).2
      rw [hround.valid_eq, hpost.valid_eq] at hv
      have hlt := (hs.settled_placed.valid_lt _ hv).1
      rw [settled_numFmsBlocks] at hlt
      rw [← hlist]
      exact mem_blockList.mpr
        ⟨hlt, valid_of_settled hv, (hdbId'' _).symm.trans (hpendDb j hj)⟩
    have hhead : bs.headD 0 ∈ bs := by
      rcases bs with _ | ⟨b, bs⟩
      · simp at hmemv
      · simp
    refine ⟨?_, ?_⟩
    · change _ = (s''.settled.databaseShadowMap (bs.headD 0)).dbId
      rw [hpendDb j hj, hdbId'', hmem _ hhead]
    · change _ = (s''.databaseShadowMap (bs.headD 0)).noClonesTarget
      rw [← hround.inv.noClonesTarget_eq, htarget _ hmemv, htarget _ hhead]

/-- A resize of a database at rest leaves the settled bitmap exact. -/
theorem Resized.routed {c numCopies : ℕ} (h : Resized bs c numCopies s s') (hs : Inv hw U s)
    (hlist : s.createShadowBlockListByDbId d = bs)
    (hbs : ∀ b ∈ bs, (s.settled.databaseShadowMap b).valid = true ∧
      (s.databaseShadowMap b).noClonesTarget = c)
    (hshrink : ∀ b ∈ bs, Shrinkable hw U b s) (hok : BmapOk s) :
    Routed ∅ s'.settled ∧ s'.settled.BmapWritten := by
  unfold Resized at h
  split at h
  · exact h.routed hs hlist hbs hok.routed hok.written
  · have hnodup : bs.Nodup := hlist ▸ s.blockList_nodup d
    have hok' := h.bmapOk hnodup hshrink hok
    exact ⟨hok'.routed, hok'.written⟩

end PhyDevice

end NetL7.Loader
