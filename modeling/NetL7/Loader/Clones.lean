import NetL7.Lib.Numbering
import NetL7.Loader.Command

/-!
# Clones of the shadow blocks

The clones of a shadow block are the current array blocks that carry its
virtual id. `Placed` says that the counters, the copy numbers and the current
flags agree. Every queued command keeps it, provided its precondition holds
when it is executed.
-/

namespace NetL7.Loader

open NetL7.Lib

namespace LoaderTables

/-- The current array blocks that run a copy of shadow block `b`. -/
def clones (t : LoaderTables) (b : ℕ) : Finset ℕ :=
  (Finset.range t.numFmsBlocks).filter fun j ↦
    t.arrayBlockMapCurrent j = true ∧ t.arrayVirtIds j = b

@[simp] theorem mem_clones {t : LoaderTables} {b j : ℕ} :
    j ∈ t.clones b ↔
      j < t.numFmsBlocks ∧ t.arrayBlockMapCurrent j = true ∧ t.arrayVirtIds j = b := by
  simp [clones]

theorem card_clones_le (t : LoaderTables) (b : ℕ) : (t.clones b).card ≤ t.numFmsBlocks := by
  calc
    (t.clones b).card ≤ (Finset.range t.numFmsBlocks).card := Finset.card_filter_le _ _
    _ = t.numFmsBlocks := Finset.card_range _

/-- The parallel tables agree. The shadow blocks in `U` are being unloaded:
their clones are removed in any order, so that their copy numbers may have
gaps. -/
structure Placed (U : Set ℕ) (t : LoaderTables) : Prop where
  blocks_le : t.numFmsBlocks ≤ totalFamosBlocks
  valid_lt : ∀ b, (t.databaseShadowMap b).valid = true →
    b < t.numFmsBlocks ∧ (t.databaseShadowMap b).dbId ≤ nlmMaxDatabaseId
  owner_valid : ∀ j, t.arrayBlockMapCurrent j = true →
    j < t.numFmsBlocks ∧ (t.databaseShadowMap (t.arrayVirtIds j)).valid = true
  card_clones : ∀ b, (t.clones b).card = (t.databaseShadowMap b).noClonesCurrent
  numbered : ∀ b, b ∉ U →
    Numbered (t.clones b) t.arrayBlockCopyNumber (t.databaseShadowMap b).noClonesCurrent

/-- What has to hold when a command is executed. -/
def Pre (U : Set ℕ) (cmd : LoaderCommand) (t : LoaderTables) : Prop :=
  match cmd.opcode with
  | .arrayAdd =>
    cmd.addrArray < t.numFmsBlocks ∧ t.arrayBlockMapCurrent cmd.addrArray = false ∧
      t.arrayVirtIds cmd.addrArray = cmd.addrShadow ∧
      (t.databaseShadowMap cmd.addrShadow).valid = true
  | .arrayDelete =>
    cmd.addrArray ∈ t.clones cmd.addrShadow ∧
      (cmd.addrShadow ∉ U → t.arrayBlockCopyNumber cmd.addrArray + 1 =
        (t.databaseShadowMap cmd.addrShadow).noClonesCurrent)
  | .shadowDelete => (t.databaseShadowMap cmd.addrShadow).noClonesCurrent = 0
  | .assignVirtBlkIdWait => t.arrayBlockMapCurrent cmd.addrArray = false
  | _ => True

namespace Placed

variable {U : Set ℕ} {t : LoaderTables}

theorem current_lt (h : Placed U t) (b : ℕ) :
    (t.databaseShadowMap b).noClonesCurrent ≤ totalFamosBlocks := by
  rw [← h.card_clones b]
  exact (t.card_clones_le b).trans h.blocks_le

theorem eq_zero_of_not_valid (h : Placed U t) {b : ℕ}
    (hb : (t.databaseShadowMap b).valid = false) :
    (t.databaseShadowMap b).noClonesCurrent = 0 := by
  rw [← h.card_clones b, Finset.card_eq_zero, Finset.eq_empty_iff_forall_notMem]
  intro j hj
  obtain ⟨-, hcur, rfl⟩ := mem_clones.mp hj
  simp [(h.owner_valid j hcur).2] at hb

theorem mono (h : Placed U t) {U' : Set ℕ} (hU : U ⊆ U') : Placed U' t :=
  { h with numbered := fun b hb ↦ h.numbered b fun hbU ↦ hb (hU hbU) }

/-- A shadow block without clones may leave the set of blocks being unloaded. -/
theorem shrink_set (h : Placed U t) {U' : Set ℕ}
    (hU : ∀ b ∈ U, b ∉ U' → (t.databaseShadowMap b).noClonesCurrent = 0) : Placed U' t := by
  refine { h with numbered := fun b hb ↦ ?_ }
  by_cases hbU : b ∈ U
  · have hzero := hU b hbU hb
    have hempty : t.clones b = ∅ := by
      rw [← Finset.card_eq_zero, h.card_clones b, hzero]
    rw [hzero, hempty]
    exact Numbered.empty _
  · exact h.numbered b hbU

end Placed

/-! ## The group bitmap aside -/

/-- The two states differ in the group bitmap only. -/
def SameButGidBmap (t t' : LoaderTables) : Prop :=
  ∃ shadow regs, t' = t.withGidBmap shadow regs

theorem SameButGidBmap.refl (t : LoaderTables) : t.SameButGidBmap t :=
  ⟨t.gidBmapShadow, t.gidBmapHw, rfl⟩

theorem SameButGidBmap.trans {t t' t'' : LoaderTables} (h : t.SameButGidBmap t')
    (h' : t'.SameButGidBmap t'') : t.SameButGidBmap t'' := by
  obtain ⟨shadow, regs, rfl⟩ := h
  obtain ⟨shadow', regs', rfl⟩ := h'
  exact ⟨shadow', regs', rfl⟩

theorem SameButGidBmap.symm {t t' : LoaderTables} (h : t.SameButGidBmap t') :
    t'.SameButGidBmap t := by
  obtain ⟨shadow, regs, rfl⟩ := h
  exact ⟨t.gidBmapShadow, t.gidBmapHw, rfl⟩

theorem sameButGidBmap_schedulerAdd (t : LoaderTables) (sh a m : ℕ) :
    t.SameButGidBmap (t.nlmDeviceBlockSchedulerAdd sh a m) :=
  ⟨_, _, mapGidBmap_frame (fun e ↦ e.add a m) _ _ t⟩

theorem sameButGidBmap_schedulerDelete (t : LoaderTables) (sh a m : ℕ) :
    t.SameButGidBmap (t.nlmDeviceBlockSchedulerDelete sh a m) :=
  ⟨_, _, mapGidBmap_frame (fun e ↦ e.delete a m) _ _ t⟩

theorem sameButGidBmap_foldl {α : Type*} {f : LoaderTables → α → LoaderTables}
    (hf : ∀ (t : LoaderTables) (x : α), t.SameButGidBmap (f t x)) (xs : List α) (t : LoaderTables) :
    t.SameButGidBmap (xs.foldl f t) := by
  induction xs generalizing t with
  | nil => exact .refl t
  | cons x xs ih => exact (hf t x).trans (ih (f t x))

theorem sameButGidBmap_configure (t : LoaderTables) (cmd : LoaderCommand) :
    t.SameButGidBmap (t.gidBmapConfigure cmd) := by
  refine sameButGidBmap_foldl (fun t j ↦ sameButGidBmap_foldl (fun t blk ↦ ?_) _ t) _ t
  split
  · exact sameButGidBmap_schedulerAdd t _ _ _
  · exact .refl t

theorem SameButGidBmap.execute {t t' : LoaderTables} (h : t.SameButGidBmap t')
    (cmd : LoaderCommand) : (t.execute cmd).SameButGidBmap (t'.execute cmd) := by
  obtain ⟨opcode, a, sh⟩ := cmd
  by_cases hop : opcode = .gidBmapConfigure
  · subst hop
    exact (sameButGidBmap_configure t _).symm.trans
      (h.trans (sameButGidBmap_configure t' _))
  · obtain ⟨shadow, regs, rfl⟩ := h
    refine ⟨shadow, regs, ?_⟩
    cases opcode <;> first | rfl | exact absurd rfl hop

theorem SameButGidBmap.placed {U : Set ℕ} {t t' : LoaderTables} (h : t.SameButGidBmap t')
    (ht : Placed U t) : Placed U t' := by
  obtain ⟨shadow, regs, rfl⟩ := h
  exact ⟨ht.blocks_le, ht.valid_lt, ht.owner_valid, ht.card_clones, ht.numbered⟩

theorem SameButGidBmap.pre {U : Set ℕ} {t t' : LoaderTables} (h : t.SameButGidBmap t')
    {cmd : LoaderCommand} (ht : Pre U cmd t) : Pre U cmd t' := by
  obtain ⟨shadow, regs, rfl⟩ := h
  exact ht

/-! ## Commands keep the tables placed -/

section Execute

variable {U : Set ℕ} {t : LoaderTables} {a sh : ℕ}

theorem clones_arrayAdd (ha : a < t.numFmsBlocks) (hv : t.arrayVirtIds a = sh) (b : ℕ) :
    (t.execute ⟨.arrayAdd, a, sh⟩).clones b =
      if b = sh then insert a (t.clones sh) else t.clones b := by
  ext j
  rw [apply_ite (j ∈ ·), mem_clones]
  by_cases hja : j = a
  · subst hja
    by_cases hb : b = sh
    · simp [execute, setShadow, setCopyNumber, setCurrent, hb, ha, hv]
    · have hne : sh ≠ b := fun h ↦ hb h.symm
      simp [execute, setShadow, setCopyNumber, setCurrent, hb, hv, hne]
  · by_cases hb : b = sh <;>
      simp [execute, setShadow, setCopyNumber, setCurrent, hja, hb]

theorem clones_arrayDelete (hv : t.arrayVirtIds a = sh) (b : ℕ) :
    (t.execute ⟨.arrayDelete, a, sh⟩).clones b =
      if b = sh then (t.clones sh).erase a else t.clones b := by
  ext j
  rw [apply_ite (j ∈ ·), mem_clones]
  by_cases hja : j = a
  · subst hja
    by_cases hb : b = sh
    · simp [execute, setShadow, setCurrent, hb]
    · have hne : sh ≠ b := fun h ↦ hb h.symm
      simp [execute, setShadow, setCurrent, hb, hv, hne]
  · by_cases hb : b = sh <;> simp [execute, setShadow, setCurrent, hja, hb]

theorem Placed.arrayAdd (h : Placed U t) (hpre : Pre U ⟨.arrayAdd, a, sh⟩ t) :
    Placed U (t.execute ⟨.arrayAdd, a, sh⟩) := by
  obtain ⟨ha, hcur, hv, hvalid⟩ := hpre
  have hnot : a ∉ t.clones sh := by simp [hcur]
  have hincr : incr8 (t.databaseShadowMap sh).noClonesCurrent =
      (t.databaseShadowMap sh).noClonesCurrent + 1 := by
    have := h.current_lt sh
    exact incr8_of_lt (this.trans_lt (by decide))
  refine ⟨h.blocks_le, ?_, ?_, ?_, ?_⟩
  · intro b hb
    by_cases hbsh : b = sh
    · subst hbsh
      simpa [execute, setShadow, setCopyNumber, setCurrent] using h.valid_lt b hvalid
    · simpa [execute, setShadow, setCopyNumber, setCurrent, hbsh] using
        h.valid_lt b (by simpa [execute, setShadow, setCopyNumber, setCurrent, hbsh] using hb)
  · intro j hj
    have hvalid' : ∀ b, ((t.execute ⟨.arrayAdd, a, sh⟩).databaseShadowMap b).valid =
        (t.databaseShadowMap b).valid := by
      intro b
      by_cases hbsh : b = sh
      · simp [execute, setShadow, setCopyNumber, setCurrent, hbsh]
      · simp [execute, setShadow, setCopyNumber, setCurrent, hbsh]
    rw [hvalid']
    by_cases hja : j = a
    · subst hja
      exact ⟨ha, by simpa [execute, setShadow, setCopyNumber, setCurrent, hv] using hvalid⟩
    · exact h.owner_valid j (by
        simpa [execute, setShadow, setCopyNumber, setCurrent, hja] using hj)
  · intro b
    rw [clones_arrayAdd ha hv]
    by_cases hbsh : b = sh
    · subst hbsh
      simp only [if_true, Finset.card_insert_of_notMem hnot, h.card_clones b]
      simp [execute, setShadow, setCopyNumber, setCurrent, hincr]
    · simp only [hbsh, if_false, h.card_clones b]
      simp [execute, setShadow, setCopyNumber, setCurrent, hbsh]
  · intro b hbU
    have hcopy : ∀ j ∈ t.clones b,
        (t.execute ⟨.arrayAdd, a, sh⟩).arrayBlockCopyNumber j = t.arrayBlockCopyNumber j := by
      intro j hj
      have hja : j ≠ a := by
        rintro rfl
        simp [hcur] at hj
      simp [execute, setShadow, setCopyNumber, setCurrent, hja]
    rw [clones_arrayAdd ha hv]
    by_cases hbsh : b = sh
    · subst hbsh
      have hnew : (t.execute ⟨.arrayAdd, a, b⟩).arrayBlockCopyNumber a =
          (t.databaseShadowMap b).noClonesCurrent := by
        simp [execute, setShadow, setCopyNumber, setCurrent]
      have hpush := (h.numbered b hbU).push hnew hcopy
      simpa [execute, setShadow, setCopyNumber, setCurrent, hincr] using hpush
    · have hcongr := (h.numbered b hbU).congr hcopy
      simpa [execute, setShadow, setCopyNumber, setCurrent, hbsh] using hcongr

theorem Placed.arrayDelete (h : Placed U t) (hpre : Pre U ⟨.arrayDelete, a, sh⟩ t) :
    Placed U (t.execute ⟨.arrayDelete, a, sh⟩) := by
  obtain ⟨hmem, hlast⟩ := hpre
  obtain ⟨ha, hcur, hv⟩ := mem_clones.mp hmem
  have hcard : ((t.clones sh).erase a).card + 1 =
      (t.databaseShadowMap sh).noClonesCurrent := by
    rw [Finset.card_erase_add_one hmem, h.card_clones sh]
  have hdecr : decr8 (t.databaseShadowMap sh).noClonesCurrent =
      ((t.clones sh).erase a).card := by
    have hle := h.current_lt sh
    rw [← hcard] at hle ⊢
    exact decr8_succ (by simp only [totalFamosBlocks] at hle; omega)
  have hfields : ∀ b, ((t.execute ⟨.arrayDelete, a, sh⟩).databaseShadowMap b).valid =
        (t.databaseShadowMap b).valid ∧
      ((t.execute ⟨.arrayDelete, a, sh⟩).databaseShadowMap b).dbId =
        (t.databaseShadowMap b).dbId := by
    intro b
    by_cases hb : b = sh <;> simp [execute, setShadow, setCurrent, hb]
  refine ⟨h.blocks_le, ?_, ?_, ?_, ?_⟩
  · intro b hb
    rw [(hfields b).1] at hb
    rw [(hfields b).2]
    exact h.valid_lt b hb
  · intro j hj
    rw [(hfields _).1]
    by_cases hja : j = a
    · simp [execute, setShadow, setCurrent, hja] at hj
    · exact h.owner_valid j (by simpa [execute, setShadow, setCurrent, hja] using hj)
  · intro b
    rw [clones_arrayDelete hv]
    by_cases hb : b = sh
    · subst hb
      simp [execute, setShadow, setCurrent, hdecr]
    · simpa [execute, setShadow, setCurrent, hb] using h.card_clones b
  · intro b hbU
    rw [clones_arrayDelete hv]
    by_cases hb : b = sh
    · subst hb
      have hnum := h.numbered b hbU
      rw [← hcard] at hnum
      have hcopy : t.arrayBlockCopyNumber a = ((t.clones b).erase a).card := by
        have hlast : t.arrayBlockCopyNumber a + 1 =
            (t.databaseShadowMap b).noClonesCurrent := hlast hbU
        omega
      simpa [execute, setShadow, setCurrent, hdecr] using hnum.pop hmem hcopy
    · simpa [execute, setShadow, setCurrent, hb] using h.numbered b hbU

theorem Placed.shadowDelete (h : Placed U t) (hpre : Pre U ⟨.shadowDelete, a, sh⟩ t) :
    Placed U (t.execute ⟨.shadowDelete, a, sh⟩) := by
  have hempty : t.clones sh = ∅ := by
    rw [← Finset.card_eq_zero, h.card_clones sh]
    exact hpre
  have hcur : ∀ b, ((t.execute ⟨.shadowDelete, a, sh⟩).databaseShadowMap b).noClonesCurrent =
      (t.databaseShadowMap b).noClonesCurrent := by
    intro b
    by_cases hb : b = sh <;> simp [execute, setShadow, hb]
  refine ⟨h.blocks_le, ?_, ?_, ?_, ?_⟩
  · intro b hb
    by_cases hbsh : b = sh
    · simp [execute, setShadow, hbsh] at hb
    · simpa [execute, setShadow, hbsh] using
        h.valid_lt b (by simpa [execute, setShadow, hbsh] using hb)
  · intro j hj
    obtain ⟨hlt, hvalid⟩ := h.owner_valid j hj
    have hne : t.arrayVirtIds j ≠ sh := by
      intro hv
      have hmem : j ∈ t.clones sh := mem_clones.mpr ⟨hlt, hj, hv⟩
      simp [hempty] at hmem
    exact ⟨hlt, by simpa [execute, setShadow, hne] using hvalid⟩
  · intro b
    rw [hcur]
    exact h.card_clones b
  · intro b hbU
    rw [hcur]
    exact h.numbered b hbU

theorem Placed.assignVirtBlkIdWait (h : Placed U t)
    (hpre : Pre U ⟨.assignVirtBlkIdWait, a, sh⟩ t) :
    Placed U (t.execute ⟨.assignVirtBlkIdWait, a, sh⟩) := by
  have hidle : t.arrayBlockMapCurrent a = false := hpre
  have hclones : ∀ b, (t.execute ⟨.assignVirtBlkIdWait, a, sh⟩).clones b = t.clones b := by
    intro b
    ext j
    by_cases hja : j = a
    · subst hja
      rw [mem_clones, mem_clones]
      simp [execute, setVirtId, hidle]
    · rw [mem_clones, mem_clones]
      simp [execute, setVirtId, hja]
  refine ⟨h.blocks_le, h.valid_lt, ?_, ?_, ?_⟩
  · intro j hj
    have hja : j ≠ a := by
      rintro rfl
      simp [execute, setVirtId, hidle] at hj
    simpa [execute, setVirtId, hja] using h.owner_valid j hj
  · intro b
    rw [hclones]
    exact h.card_clones b
  · intro b hbU
    rw [hclones]
    exact h.numbered b hbU

theorem Placed.execute (h : Placed U t) {cmd : LoaderCommand} (hpre : Pre U cmd t) :
    Placed U (t.execute cmd) := by
  obtain ⟨opcode, a, sh⟩ := cmd
  cases opcode with
  | arrayAdd => exact h.arrayAdd hpre
  | arrayDelete => exact h.arrayDelete hpre
  | shadowDelete => exact h.shadowDelete hpre
  | assignVirtBlkIdWait => exact h.assignVirtBlkIdWait hpre
  | gidBmapConfigure => exact (sameButGidBmap_configure t _).placed h
  | _ => exact h

end Execute

end LoaderTables

end NetL7.Loader
