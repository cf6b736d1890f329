import NetL7.Loader.Api
import NetL7.Loader.Invariant

/-!
# Removing clones

The victim search reads the copy numbers and current flags of the tables, which
lag behind the targets. It finds what it looks for as long as the clones below
the target count are retained: no queued command touches them.
-/

namespace NetL7.Loader

open NetL7.Lib LoaderTables

namespace LoaderTables

/-- The tables agree on everything that a request leaves to the queue. -/
structure SameView (t t' : LoaderTables) : Prop where
  numFmsBlocks_eq : t'.numFmsBlocks = t.numFmsBlocks
  virtIds_eq : t'.arrayVirtIds = t.arrayVirtIds
  current_eq : t'.arrayBlockMapCurrent = t.arrayBlockMapCurrent
  copyNumber_eq : t'.arrayBlockCopyNumber = t.arrayBlockCopyNumber
  groups_eq : t'.blockGroupList = t.blockGroupList
  entry_eq : ∀ b, (t'.databaseShadowMap b).valid = (t.databaseShadowMap b).valid ∧
    (t'.databaseShadowMap b).noClonesCurrent = (t.databaseShadowMap b).noClonesCurrent ∧
    (t'.databaseShadowMap b).dbId = (t.databaseShadowMap b).dbId

namespace SameView

variable {t t' t'' : LoaderTables}

theorem refl (t : LoaderTables) : t.SameView t :=
  ⟨rfl, rfl, rfl, rfl, rfl, fun _ ↦ ⟨rfl, rfl, rfl⟩⟩

theorem trans (h : t.SameView t') (h' : t'.SameView t'') : t.SameView t'' where
  numFmsBlocks_eq := h'.numFmsBlocks_eq.trans h.numFmsBlocks_eq
  virtIds_eq := h'.virtIds_eq.trans h.virtIds_eq
  current_eq := h'.current_eq.trans h.current_eq
  copyNumber_eq := h'.copyNumber_eq.trans h.copyNumber_eq
  groups_eq := h'.groups_eq.trans h.groups_eq
  entry_eq := fun b ↦ ⟨(h'.entry_eq b).1.trans (h.entry_eq b).1,
    (h'.entry_eq b).2.1.trans (h.entry_eq b).2.1,
    (h'.entry_eq b).2.2.trans (h.entry_eq b).2.2⟩

theorem reserve (t : LoaderTables) (j : ℕ) (v : Bool) (b : ℕ) (count : ℕ → ℕ) :
    t.SameView (t.reserve j v b count) :=
  ⟨rfl, rfl, rfl, rfl, rfl, t.reserve_entry j v b count⟩

theorem of_sameButGidBmap (h : t.SameButGidBmap t') : t.SameView t' := by
  obtain ⟨shadow, regs, rfl⟩ := h
  exact ⟨rfl, rfl, rfl, rfl, rfl, fun _ ↦ ⟨rfl, rfl, rfl⟩⟩

theorem clones_eq (h : t.SameView t') (b : ℕ) : t'.clones b = t.clones b := by
  simp only [clones, h.numFmsBlocks_eq, h.current_eq, h.virtIds_eq]

theorem blockList_eq (h : t.SameView t') (databaseId : ℕ) :
    t'.createShadowBlockListByDbId databaseId = t.createShadowBlockListByDbId databaseId := by
  unfold createShadowBlockListByDbId
  rw [h.numFmsBlocks_eq]
  refine List.filter_congr fun b _ ↦ ?_
  rw [(h.entry_eq b).1, (h.entry_eq b).2.2]

end SameView

theorem clones_removeClone {t : LoaderTables} {j b : ℕ} (hj : t.arrayVirtIds j = b) (x : ℕ) :
    (t.removeClone j b).clones x = if x = b then (t.clones b).erase j else t.clones x :=
  clones_arrayDelete (t := t.reserve j false b decr8) hj x

end LoaderTables

namespace PhyDevice

/-- The device after the removal of clone `j` of `b` has been requested: its bits
in the group bitmap are cleared at once. -/
def removal (s : PhyDevice) (j b : ℕ) : PhyDevice :=
  (s.mapTables fun t ↦
    t.nlmDeviceBlockSchedulerDelete b j (1 <<< t.arrayBlockCopyNumber j)).decloned j b

section Removal

variable (s : PhyDevice) (j b : ℕ)

theorem removal_tables : (s.removal j b).toLoaderTables =
    (s.nlmDeviceBlockSchedulerDelete b j (1 <<< s.arrayBlockCopyNumber j)).reserve
      j false b decr8 := rfl

theorem removal_queue :
    (s.removal j b).loaderCmdMem = s.loaderCmdMem ++ decloneCmds j b := rfl

theorem removal_sameView : s.SameView (s.removal j b).toLoaderTables :=
  (SameView.of_sameButGidBmap (sameButGidBmap_schedulerDelete _ _ _ _)).trans
    (SameView.reserve _ _ _ _ _)

theorem removal_noClonesTarget (x : ℕ) :
    ((s.removal j b).databaseShadowMap x).noClonesTarget =
      if x = b then decr8 (s.databaseShadowMap b).noClonesTarget
      else (s.databaseShadowMap x).noClonesTarget := by
  obtain ⟨shadow, regs, heq⟩ := sameButGidBmap_schedulerDelete s.toLoaderTables b j
    (1 <<< s.arrayBlockCopyNumber j)
  rw [removal_tables, reserve_noClonesTarget, heq]
  rfl

end Removal

variable {hw : Hw} {U : Set ℕ} {s s' : PhyDevice} {b j : ℕ}

/-- Requesting the removal of a clone keeps the invariant. -/
theorem Inv.removal (h : Inv hw U s) (hmem : j ∈ s.settled.clones b)
    (hlast : b ∉ U → s.settled.arrayBlockCopyNumber j + 1 =
      (s.settled.databaseShadowMap b).noClonesCurrent) :
    Inv hw U (s.removal j b) ∧
      (s.settled.removeClone j b).SameButGidBmap (s.removal j b).settled := by
  obtain ⟨hinv, hsame⟩ := h.mapTables_same
    (f := fun t ↦ t.nlmDeviceBlockSchedulerDelete b j (1 <<< t.arrayBlockCopyNumber j))
    (sameButGidBmap_schedulerDelete _ _ _ _)
  rw [PhyDevice.removal, settled_decloned]
  obtain ⟨shadow, regs, heq⟩ := hsame
  refine ⟨hinv.decloned ?_ ?_, shadow, regs, ?_⟩
  · rw [heq]
    exact hmem
  · rw [heq]
    exact hlast
  · rw [heq]
    rfl

/-- The clones of `b` below its target count are still there once the queue has
been executed. -/
def Retained (s : PhyDevice) (b : ℕ) : Prop :=
  ∀ j ∈ s.clones b, s.arrayBlockCopyNumber j < (s.databaseShadowMap b).noClonesTarget →
    j ∈ s.settled.clones b ∧
      s.settled.arrayBlockCopyNumber j = s.arrayBlockCopyNumber j

/-- The victim search on `b` finds its victims. -/
structure Shrinkable (hw : Hw) (U : Set ℕ) (b : ℕ) (s : PhyDevice) : Prop where
  inv : Inv hw U s
  notMem : b ∉ U
  retained : Retained s b
  target_le : (s.databaseShadowMap b).noClonesTarget ≤ (s.databaseShadowMap b).noClonesCurrent

theorem isVictim_iff {t : LoaderTables} :
    isVictim t b j = true ↔ t.arrayVirtIds j = b ∧ t.arrayBlockMapCurrent j = true ∧
      (t.databaseShadowMap b).noClonesTarget = t.arrayBlockCopyNumber j + 1 := by
  simp [isVictim, and_assoc, eq_comm (a := b)]

theorem noClonesTarget_le (h : Inv hw U s) (b : ℕ) :
    (s.databaseShadowMap b).noClonesTarget ≤ totalFamosBlocks := by
  rw [h.noClonesTarget_eq]
  exact h.settled_placed.current_lt b

namespace Shrinkable

/-- A search that still misses a victim has one in the tables. -/
theorem exists_victim (h : Shrinkable hw U b s)
    (hpos : 0 < (s.databaseShadowMap b).noClonesTarget) :
    ∃ j < s.numFmsBlocks, isVictim s.toLoaderTables b j = true := by
  have hlt : (s.databaseShadowMap b).noClonesTarget - 1 <
      (s.databaseShadowMap b).noClonesCurrent := by
    have := h.target_le
    omega
  obtain ⟨j, hj, hcopy⟩ := (h.inv.placed.numbered b h.notMem).exists_num hlt
  obtain ⟨hjN, hcur, hv⟩ := mem_clones.mp hj
  exact ⟨j, hjN, isVictim_iff.mpr ⟨hv, hcur, by omega⟩⟩

theorem victim_settled (h : Shrinkable hw U b s) (hj : j < s.numFmsBlocks)
    (hvic : isVictim s.toLoaderTables b j = true) :
    j ∈ s.settled.clones b ∧ s.settled.arrayBlockCopyNumber j + 1 =
      (s.settled.databaseShadowMap b).noClonesCurrent := by
  obtain ⟨hv, hcur, htgt⟩ := isVictim_iff.mp hvic
  obtain ⟨hmem, hcopy⟩ := h.retained j (mem_clones.mpr ⟨hj, hcur, hv⟩) (by omega)
  refine ⟨hmem, ?_⟩
  rw [← h.inv.noClonesTarget_eq, htgt, hcopy]

theorem removal_target (h : Shrinkable hw U b s)
    (hvic : isVictim s.toLoaderTables b j = true) :
    ((s.removal j b).databaseShadowMap b).noClonesTarget + 1 =
      (s.databaseShadowMap b).noClonesTarget := by
  obtain ⟨-, -, htgt⟩ := isVictim_iff.mp hvic
  have hle := noClonesTarget_le h.inv b
  rw [removal_noClonesTarget, if_pos rfl, htgt, decr8_succ (by
    rw [htgt] at hle
    simp only [totalFamosBlocks] at hle
    omega)]

/-- Taking a victim leaves the search in the same situation. -/
theorem removal (h : Shrinkable hw U b s) (hj : j < s.numFmsBlocks)
    (hvic : isVictim s.toLoaderTables b j = true) : Shrinkable hw U b (s.removal j b) := by
  obtain ⟨hv, hcur, htgt⟩ := isVictim_iff.mp hvic
  obtain ⟨hmem, hlast⟩ := h.victim_settled hj hvic
  obtain ⟨hinv, hsame⟩ := h.inv.removal hmem fun _ ↦ hlast
  have hview := removal_sameView s j b
  have htarget := h.removal_target hvic
  refine ⟨hinv, h.notMem, fun x hx hlt ↦ ?_, ?_⟩
  · rw [hview.clones_eq] at hx
    rw [hview.copyNumber_eq] at hlt ⊢
    obtain ⟨hxmem, hxcopy⟩ := h.retained x hx (by omega)
    have hne : x ≠ j := by
      rintro rfl
      omega
    have hvj : s.settled.arrayVirtIds j = b := (mem_clones.mp hmem).2.2
    obtain ⟨shadow, regs, heq⟩ := hsame
    rw [heq]
    refine ⟨?_, hxcopy⟩
    change x ∈ (s.settled.removeClone j b).clones b
    rw [clones_removeClone hvj, if_pos rfl]
    exact Finset.mem_erase.mpr ⟨hne, hxmem⟩
  · rw [(hview.entry_eq b).2.1]
    have := h.target_le
    omega

/-- Taking a victim of another shadow block does not disturb the search. -/
theorem removal_other {b' : ℕ} (h : Shrinkable hw U b s) (h' : Shrinkable hw U b' s)
    (hb : b' ≠ b) (hj : j < s.numFmsBlocks)
    (hvic : isVictim s.toLoaderTables b j = true) : Shrinkable hw U b' (s.removal j b) := by
  obtain ⟨hmem, hlast⟩ := h.victim_settled hj hvic
  obtain ⟨hinv, hsame⟩ := h.inv.removal hmem fun _ ↦ hlast
  have hview := removal_sameView s j b
  have htarget : ((s.removal j b).databaseShadowMap b').noClonesTarget =
      (s.databaseShadowMap b').noClonesTarget := by
    rw [removal_noClonesTarget, if_neg hb]
  refine ⟨hinv, h'.notMem, fun x hx hlt ↦ ?_, ?_⟩
  · rw [hview.clones_eq] at hx
    rw [hview.copyNumber_eq, htarget] at hlt
    rw [hview.copyNumber_eq]
    obtain ⟨hxmem, hxcopy⟩ := h'.retained x hx hlt
    have hvj : s.settled.arrayVirtIds j = b := (mem_clones.mp hmem).2.2
    obtain ⟨shadow, regs, heq⟩ := hsame
    rw [heq]
    refine ⟨?_, hxcopy⟩
    change x ∈ (s.settled.removeClone j b).clones b'
    rwa [clones_removeClone hvj, if_neg hb]
  · rw [(hview.entry_eq b').2.1, htarget]
    exact h'.target_le

end Shrinkable

/-- `n` victims of `b` have been taken, one after the other. -/
inductive Removals (b : ℕ) : ℕ → PhyDevice → PhyDevice → Prop
  | refl (s : PhyDevice) : Removals b 0 s s
  | step {n : ℕ} {s s' : PhyDevice} {j : ℕ} (h : Removals b n s s')
      (hj : j < s'.numFmsBlocks) (hvic : isVictim s'.toLoaderTables b j = true) :
      Removals b (n + 1) s (s'.removal j b)

namespace Removals

variable {n m : ℕ} {s'' : PhyDevice}

theorem trans (h : Removals b n s s') (h' : Removals b m s' s'') :
    Removals b (n + m) s s'' := by
  induction h' with
  | refl => exact h
  | step _ hj hvic ih => exact (ih h).step hj hvic

theorem sameView (h : Removals b n s s') : s.SameView s'.toLoaderTables := by
  induction h with
  | refl => exact .refl _
  | step _ _ _ ih => exact ih.trans (removal_sameView _ _ _)

theorem length_queue (h : Removals b n s s') :
    s'.loaderCmdMem.length = s.loaderCmdMem.length + 4 * n := by
  induction h with
  | refl => simp
  | step _ _ _ ih =>
    rw [removal_queue, List.length_append, ih]
    simp only [decloneCmds, List.length_cons, List.length_nil]
    omega

theorem config_eq (h : Removals b n s s') :
    s'.fmsRingId = s.fmsRingId ∧ s'.databaseLoadPolicy = s.databaseLoadPolicy ∧
      s'.numRowsPerFmsBlock = s.numRowsPerFmsBlock := by
  induction h with
  | refl => exact ⟨rfl, rfl, rfl⟩
  | step _ _ _ ih => exact ih

theorem shrinkable (h : Removals b n s s') (hs : Shrinkable hw U b s) :
    Shrinkable hw U b s' ∧
      (s'.databaseShadowMap b).noClonesTarget + n =
        (s.databaseShadowMap b).noClonesTarget := by
  induction h with
  | refl => exact ⟨hs, rfl⟩
  | step _ hj hvic ih =>
    obtain ⟨hs', htgt⟩ := ih hs
    refine ⟨hs'.removal hj hvic, ?_⟩
    have := hs'.removal_target hvic
    omega

theorem shrinkable_other {b' : ℕ} (h : Removals b n s s') (hs : Shrinkable hw U b s)
    (hs' : Shrinkable hw U b' s) (hb : b' ≠ b) : Shrinkable hw U b' s' := by
  induction h with
  | refl => exact hs'
  | step h hj hvic ih => exact (h.shrinkable hs).1.removal_other (ih hs hs') hb hj hvic

theorem noClonesTarget_other {b' : ℕ} (h : Removals b n s s') (hb : b' ≠ b) :
    (s'.databaseShadowMap b').noClonesTarget = (s.databaseShadowMap b').noClonesTarget := by
  induction h with
  | refl => rfl
  | step _ _ _ ih => rw [removal_noClonesTarget, if_neg hb, ih]

end Removals

/-! ## The search terminates -/

section Search

variable {E : Halt → Prop} {n : ℕ}

/-- One pass that starts with a victim missing takes at least one. -/
theorem victimPass_outcome {missing : ℕ} (h : Shrinkable hw U b s) (hpos : 0 < missing)
    (hmissing : missing ≤ (s.databaseShadowMap b).noClonesTarget) (hb : b < 16)
    (hE : nlmFmsLoaderCmdBuffSize ≤ s.loaderCmdMem.length + 4 * missing →
      E .commandFifoOverrun) :
    Outcome (fun r ↦ ∃ k, 0 < k ∧ Removals b k s r.1 ∧ r.2 + k = missing) E
      (victimPass b s missing) := by
  obtain ⟨j₀, hj₀, hvic₀⟩ := h.exists_victim (by omega)
  -- until a victim is taken, `j₀` is still to come
  let I : List ℕ → PhyDevice × ℕ → Prop := fun rest r ↦
    (∀ j ∈ rest, j < s.numFmsBlocks) ∧ ∃ k, Removals b k s r.1 ∧ r.2 + k = missing ∧
      (0 < k ∨ j₀ ∈ rest)
  have hstart : I (List.range s.numFmsBlocks) (s, missing) :=
    ⟨by simp, 0, .refl s, rfl, .inr (List.mem_range.mpr hj₀)⟩
  refine (Outcome.foldlM I ?_ hstart).imp ?_
  · rintro j rest ⟨s', m⟩ ⟨hrest, k, hrem, hk, hprog⟩
    have hrem : Removals b k s s' := hrem
    have hk : m + k = missing := hk
    have hview := hrem.sameView
    obtain ⟨hs', htgt⟩ := hrem.shrinkable h
    have hjN : j < s'.numFmsBlocks := by
      rw [hview.numFmsBlocks_eq]
      exact hrest j (by simp)
    have hrest' : ∀ j ∈ rest, j < s.numFmsBlocks := fun j hj ↦ hrest j (by simp [hj])
    simp only
    by_cases hcond : m ≠ 0 ∧ isVictim s'.toLoaderTables b j = true
    · rw [if_pos hcond]
      obtain ⟨hm, hvic⟩ := hcond
      have htpos : (s'.databaseShadowMap b).noClonesTarget ≠ 0 := by
        have := (isVictim_iff.mp hvic).2.2
        omega
      have hj16 : j < 16 := (hjN.trans_le hs'.inv.placed.blocks_le).trans (by decide)
      simp only [prettyAssert, bne_iff_ne, ne_eq, htpos, not_false_eq_true, if_true, bind,
        Except.bind]
      refine Outcome.bind (declone_outcome (E := E) hj16 hb fun hfull ↦ hE ?_) ?_
      · have hlen := hrem.length_queue
        have hfull : nlmFmsLoaderCmdBuffSize ≤ s'.loaderCmdMem.length + 4 := hfull
        omega
      · rintro s'' rfl
        exact ⟨hrest', k + 1, hrem.step hjN hvic, by omega, .inl (by omega)⟩
    · rw [if_neg hcond]
      refine ⟨hrest', k, hrem, hk, ?_⟩
      rcases hprog with hk0 | hmem
      · exact .inl hk0
      · rcases List.mem_cons.mp hmem with rfl | hmem
        · rcases Nat.eq_zero_or_pos k with rfl | hk0
          · cases hrem
            exact absurd ⟨by omega, hvic₀⟩ hcond
          · exact .inl hk0
        · exact .inr hmem
  · rintro ⟨s', m⟩ ⟨-, k, hrem, hk, hprog⟩
    refine ⟨k, ?_, hrem, hk⟩
    simpa using hprog

/-- The victim search terminates, having taken all the victims. -/
theorem whileBlkDelta_outcome {fuel : ℕ} {missing : ℕ} (hfuel : missing ≤ fuel)
    (h : Shrinkable hw U b s) (hmissing : missing ≤ (s.databaseShadowMap b).noClonesTarget)
    (hb : b < 16) (hE : nlmFmsLoaderCmdBuffSize ≤ s.loaderCmdMem.length + 4 * missing →
      E .commandFifoOverrun) :
    Outcome (Removals b missing s) E (whileBlkDelta b fuel s missing) := by
  induction fuel generalizing s missing with
  | zero =>
    obtain rfl : missing = 0 := by omega
    exact .refl s
  | succ fuel ih =>
    rcases missing with _ | missing
    · exact .refl s
    · refine Outcome.bind (victimPass_outcome h (Nat.succ_pos _) hmissing hb hE) ?_
      rintro ⟨s', m⟩ ⟨k, hkpos, hrem, hk⟩
      obtain ⟨hs', htgt⟩ := hrem.shrinkable h
      have hlen := hrem.length_queue
      simp only at hrem hk hs' htgt hlen
      refine (ih (by omega) hs' (by omega) fun hfull ↦ hE (by omega)).imp fun s'' hrem' ↦ ?_
      have hall := hrem.trans hrem'
      rwa [show k + m = missing + 1 by omega] at hall

/-- A pass takes a victim or leaves everything as it was. -/
theorem victimPass_progress {missing m : ℕ}
    (h : victimPass b s missing = .ok (s', m)) : m < missing ∨ m = missing ∧ s' = s := by
  let I : List ℕ → PhyDevice × ℕ → Prop := fun _ r ↦
    r.2 < missing ∨ r.2 = missing ∧ r.1 = s
  have hpass : Outcome (I []) (fun _ ↦ True) (victimPass b s missing) := by
    refine Outcome.foldlM I ?_ (.inr ⟨rfl, rfl⟩)
    rintro j rest ⟨s', m⟩ hI
    simp only
    split
    · rename_i hcond
      refine Outcome.bind (P := fun _ ↦ True) (by unfold prettyAssert; split <;> trivial) ?_
      rintro - -
      refine Outcome.bind (P := fun _ ↦ True) ?_ ?_
      · generalize nlmDeviceLoaderDeclone _ j b = r
        cases r <;> trivial
      · rintro s'' -
        have hlt : m - 1 < missing := by
          rcases hI with hlt | ⟨heq, -⟩
          · simp only at hlt
            omega
          · simp only at heq
            omega
        exact .inl hlt
    · exact hI
  exact hpass.of_eq_ok h

/-- A search that is not over after as many passes as victims were missing runs
forever. -/
theorem whileBlkDelta_diverges {fuel missing : ℕ} (hfuel : missing ≤ fuel)
    (h : whileBlkDelta b fuel s missing = .error .victimSearch) (fuel' : ℕ) :
    whileBlkDelta b fuel' s missing = .error .victimSearch := by
  induction fuel generalizing s missing fuel' with
  | zero =>
    obtain rfl : missing = 0 := by omega
    cases h
  | succ fuel ih =>
    rcases missing with _ | missing
    · cases h
    · rcases hpass : victimPass b s (missing + 1) with e | ⟨s', m⟩
      · rcases fuel' with _ | fuel'
        · rfl
        · simpa [whileBlkDelta, hpass, bind, Except.bind] using h
      · have hstep : ∀ n, whileBlkDelta b (n + 1) s (missing + 1) =
            whileBlkDelta b n s' m := by
          intro n
          simp [whileBlkDelta, hpass, bind, Except.bind]
        rw [hstep] at h
        rcases victimPass_progress hpass with hlt | ⟨rfl, rfl⟩
        · rcases fuel' with _ | fuel'
          · rfl
          · rw [hstep]
            exact ih (by omega) h fuel'
        · induction fuel' with
          | zero => rfl
          | succ fuel' ih' => rw [hstep, ih']

/-- `n` victims of each block of a list have been taken. -/
inductive ShrinkAll (n : ℕ) : List ℕ → PhyDevice → PhyDevice → Prop
  | nil (s : PhyDevice) : ShrinkAll n [] s s
  | cons {b : ℕ} {bs : List ℕ} {s s' s'' : PhyDevice} (h : Removals b n s s')
      (h' : ShrinkAll n bs s' s'') : ShrinkAll n (b :: bs) s s''

namespace ShrinkAll

variable {bs : List ℕ}

theorem sameView (h : ShrinkAll n bs s s') : s.SameView s'.toLoaderTables := by
  induction h with
  | nil => exact .refl _
  | cons h _ ih => exact h.sameView.trans ih

theorem config_eq (h : ShrinkAll n bs s s') :
    s'.fmsRingId = s.fmsRingId ∧ s'.databaseLoadPolicy = s.databaseLoadPolicy ∧
      s'.numRowsPerFmsBlock = s.numRowsPerFmsBlock := by
  induction h with
  | nil => exact ⟨rfl, rfl, rfl⟩
  | cons h _ ih =>
    obtain ⟨hring, hpolicy, hrows⟩ := h.config_eq
    exact ⟨ih.1.trans hring, ih.2.1.trans hpolicy, ih.2.2.trans hrows⟩

theorem noClonesTarget_other (h : ShrinkAll n bs s s') (hb : b ∉ bs) :
    (s'.databaseShadowMap b).noClonesTarget = (s.databaseShadowMap b).noClonesTarget := by
  induction h with
  | nil => rfl
  | cons h _ ih =>
    obtain ⟨hne, hb⟩ := not_or.mp (mt List.mem_cons.mpr hb)
    rw [ih hb, h.noClonesTarget_other hne]

end ShrinkAll

theorem shrink_outcome {bs : List ℕ} (hnodup : bs.Nodup)
    (h : ∀ b ∈ bs, Shrinkable hw U b s ∧ n ≤ (s.databaseShadowMap b).noClonesTarget ∧ b < 16)
    (hE : nlmFmsLoaderCmdBuffSize ≤ s.loaderCmdMem.length + 4 * (n * bs.length) →
      E .commandFifoOverrun) :
    Outcome (ShrinkAll n bs s) E (shrink bs n s) := by
  induction bs generalizing s with
  | nil => exact .nil s
  | cons b bs ih =>
    obtain ⟨hb, hnodup⟩ := List.nodup_cons.mp hnodup
    obtain ⟨hs, hn, hb16⟩ := h b (by simp)
    simp only [shrink, List.foldlM_cons]
    rw [List.length_cons, Nat.mul_succ] at hE
    refine Outcome.bind
      (whileBlkDelta_outcome le_rfl hs hn hb16 fun hfull ↦ hE (by omega)) ?_
    intro s' hrem
    have hlen := hrem.length_queue
    refine (ih hnodup (fun b' hb' ↦ ?_) fun hfull ↦ hE (by omega)).imp fun s'' hrest ↦
      .cons hrem hrest
    obtain ⟨hs', hn', hb16'⟩ := h b' (by simp [hb'])
    have hne : b' ≠ b := by
      rintro rfl
      exact hb hb'
    exact ⟨hrem.shrinkable_other hs hs' hne, by rwa [hrem.noClonesTarget_other hne], hb16'⟩

end Search

end PhyDevice

end NetL7.Loader
