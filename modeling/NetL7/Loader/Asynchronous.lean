import NetL7.Loader.Synchronous

/-!
# Asynchronous calls

Under the asynchronous policy a call queues its commands and returns; later
calls execute them one at a time. `Draining` is what holds of a device whatever
is queued. It is kept by every call, except that `NLM_DATABASE_BALANCE` must not
change the number of copies of a database that still has commands in the queue.
-/

namespace NetL7.Loader

open NetL7.Lib LoaderTables

namespace LoaderTables

variable {U : Set ℕ} {t : LoaderTables} {cmd : LoaderCommand} {q : List LoaderCommand} {b d : ℕ}

/-- The command adds or removes a clone of shadow block `b`, or deletes the block. -/
def Touches (b : ℕ) (cmd : LoaderCommand) : Prop :=
  (cmd.opcode = .arrayAdd ∨ cmd.opcode = .arrayDelete ∨ cmd.opcode = .shadowDelete) ∧
    cmd.addrShadow = b

/-- The clones of shadow block `b` and its entry are the same. -/
structure SameBlock (b : ℕ) (t t' : LoaderTables) : Prop where
  valid_eq : (t'.databaseShadowMap b).valid = (t.databaseShadowMap b).valid
  current_eq : (t'.databaseShadowMap b).noClonesCurrent = (t.databaseShadowMap b).noClonesCurrent
  clones_eq : t'.clones b = t.clones b
  copyNumber_eq : ∀ j ∈ t.clones b, t'.arrayBlockCopyNumber j = t.arrayBlockCopyNumber j

/-- Shadow block `b` has lost clones, if anything. -/
structure FewerClones (b : ℕ) (t t' : LoaderTables) : Prop where
  clones_sub : t'.clones b ⊆ t.clones b
  copyNumber_eq : ∀ j ∈ t'.clones b, t'.arrayBlockCopyNumber j = t.arrayBlockCopyNumber j

theorem SameBlock.trans {t' t'' : LoaderTables} (h : SameBlock b t t') (h' : SameBlock b t' t'') :
    SameBlock b t t'' where
  valid_eq := h'.valid_eq.trans h.valid_eq
  current_eq := h'.current_eq.trans h.current_eq
  clones_eq := h'.clones_eq.trans h.clones_eq
  copyNumber_eq := fun j hj ↦
    (h'.copyNumber_eq j (by rwa [h.clones_eq])).trans (h.copyNumber_eq j hj)

theorem SameBlock.fewerClones {t' : LoaderTables} (h : SameBlock b t t') : FewerClones b t t' where
  clones_sub := h.clones_eq.le
  copyNumber_eq := fun j hj ↦ h.copyNumber_eq j (h.clones_eq ▸ hj)

theorem FewerClones.trans {t' t'' : LoaderTables} (h : FewerClones b t t')
    (h' : FewerClones b t' t'') : FewerClones b t t'' where
  clones_sub := h'.clones_sub.trans h.clones_sub
  copyNumber_eq := fun j hj ↦
    (h'.copyNumber_eq j hj).trans (h.copyNumber_eq j (h'.clones_sub hj))

theorem execute_sameBlock (hpre : Pre U cmd t) (hcmd : ¬ Touches b cmd) :
    SameBlock b t (t.execute cmd) := by
  obtain ⟨opcode, a, sh⟩ := cmd
  have hne : opcode = .arrayAdd ∨ opcode = .arrayDelete ∨ opcode = .shadowDelete → b ≠ sh := by
    rintro hop rfl
    exact hcmd ⟨hop, rfl⟩
  cases opcode with
  | arrayAdd =>
    obtain ⟨ha, hcur, hv, -⟩ := hpre
    have hbsh := hne (.inl rfl)
    refine ⟨?_, ?_, ?_, fun j hj ↦ ?_⟩
    · simp [execute, setShadow, setCopyNumber, setCurrent, hbsh]
    · simp [execute, setShadow, setCopyNumber, setCurrent, hbsh]
    · rw [clones_arrayAdd ha hv, if_neg hbsh]
    · have hja : j ≠ a := by
        rintro rfl
        simp [hcur] at hj
      simp [execute, setShadow, setCopyNumber, setCurrent, hja]
  | arrayDelete =>
    have hv : t.arrayVirtIds a = sh := (mem_clones.mp hpre.1).2.2
    have hbsh := hne (.inr (.inl rfl))
    refine ⟨?_, ?_, ?_, fun _ _ ↦ rfl⟩
    · simp [execute, setShadow, setCurrent, hbsh]
    · simp [execute, setShadow, setCurrent, hbsh]
    · rw [clones_arrayDelete hv, if_neg hbsh]
  | shadowDelete =>
    have hbsh := hne (.inr (.inr rfl))
    refine ⟨?_, ?_, rfl, fun _ _ ↦ rfl⟩
    · simp [execute, setShadow, hbsh]
    · simp [execute, setShadow, hbsh]
  | assignVirtBlkIdWait =>
    have hidle : t.arrayBlockMapCurrent a = false := hpre
    refine ⟨rfl, rfl, ?_, fun _ _ ↦ rfl⟩
    ext j
    rw [mem_clones, mem_clones]
    by_cases hja : j = a
    · subst hja
      simp [execute, setVirtId, hidle]
    · simp [execute, setVirtId, hja]
  | gidBmapConfigure =>
    obtain ⟨shadow, regs, heq⟩ := sameButGidBmap_configure t ⟨.gidBmapConfigure, a, sh⟩
    simp only [execute, heq]
    exact ⟨rfl, rfl, rfl, fun _ _ ↦ rfl⟩
  | _ => exact ⟨rfl, rfl, rfl, fun _ _ ↦ rfl⟩

theorem execute_fewerClones (hpre : Pre U cmd t)
    (hcmd : cmd.opcode = .arrayAdd → cmd.addrShadow ≠ b) : FewerClones b t (t.execute cmd) := by
  by_cases htouch : Touches b cmd
  swap
  · exact (execute_sameBlock hpre htouch).fewerClones
  obtain ⟨opcode, a, sh⟩ := cmd
  obtain ⟨hop, rfl : sh = b⟩ := htouch
  obtain rfl | rfl | rfl : opcode = .arrayAdd ∨ opcode = .arrayDelete ∨
    opcode = .shadowDelete := hop
  · exact absurd rfl (hcmd rfl)
  · have hv : t.arrayVirtIds a = sh := (mem_clones.mp hpre.1).2.2
    refine ⟨?_, fun _ _ ↦ rfl⟩
    rw [clones_arrayDelete hv, if_pos rfl]
    exact Finset.erase_subset _ _
  · exact ⟨Finset.Subset.refl _, fun _ _ ↦ rfl⟩

theorem flushed_sameBlock (hq : Legal U q t) (hquiet : ∀ cmd ∈ q, ¬ Touches b cmd) :
    SameBlock b t (t.flushed q) := by
  induction q generalizing t with
  | nil => exact ⟨rfl, rfl, rfl, fun _ _ ↦ rfl⟩
  | cons cmd q ih =>
    have hfirst := execute_sameBlock hq.1 (hquiet cmd List.mem_cons_self)
    exact hfirst.trans (ih hq.2 fun c hc ↦ hquiet c (List.mem_cons_of_mem cmd hc))

theorem flushed_fewerClones (hq : Legal U q t)
    (hadd : ∀ cmd ∈ q, cmd.opcode = .arrayAdd → cmd.addrShadow ≠ b) :
    FewerClones b t (t.flushed q) := by
  induction q generalizing t with
  | nil => exact ⟨Finset.Subset.refl _, fun _ _ ↦ rfl⟩
  | cons cmd q ih =>
    have hfirst := execute_fewerClones hq.1 (hadd cmd List.mem_cons_self)
    exact hfirst.trans (ih hq.2 fun c hc ↦ hadd c (List.mem_cons_of_mem cmd hc))

theorem valid_of_execute (h : ((t.execute cmd).databaseShadowMap b).valid = true) :
    (t.databaseShadowMap b).valid = true := by
  obtain ⟨opcode, a, sh⟩ := cmd
  cases opcode with
  | gidBmapConfigure =>
    obtain ⟨shadow, regs, heq⟩ := sameButGidBmap_configure t ⟨.gidBmapConfigure, a, sh⟩
    simp only [execute, heq] at h
    exact h
  | arrayAdd =>
    by_cases hb : b = sh <;> simp_all [execute, setShadow, setCopyNumber, setCurrent]
  | arrayDelete => by_cases hb : b = sh <;> simp_all [execute, setShadow, setCurrent]
  | shadowDelete => by_cases hb : b = sh <;> simp_all [execute, setShadow]
  | _ => exact h

theorem valid_of_flushed (h : ((t.flushed q).databaseShadowMap b).valid = true) :
    (t.databaseShadowMap b).valid = true := by
  induction q generalizing t with
  | nil => exact h
  | cons cmd q ih => exact valid_of_execute (ih h)

/-- A block that is valid now but not once the queue has been executed is the
subject of a queued deletion. -/
theorem exists_shadowDelete (hvalid : (t.databaseShadowMap b).valid = true)
    (hsettled : ((t.flushed q).databaseShadowMap b).valid = false) :
    ∃ cmd ∈ q, cmd.opcode = .shadowDelete ∧ cmd.addrShadow = b := by
  induction q generalizing t with
  | nil =>
    change (t.databaseShadowMap b).valid = false at hsettled
    rw [hvalid] at hsettled
    cases hsettled
  | cons cmd q ih =>
    by_cases hnext : ((t.execute cmd).databaseShadowMap b).valid = true
    · obtain ⟨c, hc, hop⟩ := ih hnext hsettled
      exact ⟨c, List.mem_cons_of_mem cmd hc, hop⟩
    · refine ⟨cmd, List.mem_cons_self, ?_⟩
      obtain ⟨opcode, a, sh⟩ := cmd
      cases opcode with
      | shadowDelete =>
        refine ⟨rfl, ?_⟩
        by_contra hne
        have hsame : ((t.execute ⟨.shadowDelete, a, sh⟩).databaseShadowMap b).valid =
            (t.databaseShadowMap b).valid := by
          simp [execute, setShadow, Ne.symm hne]
        exact hnext (hsame.trans hvalid)
      | arrayAdd =>
        by_cases hb : b = sh <;> simp_all [execute, setShadow, setCopyNumber, setCurrent]
      | arrayDelete => by_cases hb : b = sh <;> simp_all [execute, setShadow, setCurrent]
      | gidBmapConfigure =>
        obtain ⟨shadow, regs, heq⟩ := sameButGidBmap_configure t ⟨.gidBmapConfigure, a, sh⟩
        simp only [execute, heq] at hnext
        exact absurd hvalid hnext
      | _ => exact absurd hvalid hnext

theorem flushed_invalid (hinvalid : (t.databaseShadowMap b).valid = false) :
    ((t.flushed q).databaseShadowMap b).valid = false := by
  by_contra hvalid
  rw [valid_of_flushed (Bool.eq_true_of_not_eq_false hvalid)] at hinvalid
  cases hinvalid

/-- A block whose deletion is queued will not be valid. -/
theorem flushed_shadowDelete (hcmd : cmd ∈ q) (hop : cmd.opcode = .shadowDelete) :
    ((t.flushed q).databaseShadowMap cmd.addrShadow).valid = false := by
  induction q generalizing t with
  | nil => exact absurd hcmd List.not_mem_nil
  | cons c q ih =>
    rcases List.mem_cons.mp hcmd with rfl | hcmd
    · refine flushed_invalid (t := t.execute cmd) ?_
      obtain ⟨opcode, a, sh⟩ := cmd
      obtain rfl : opcode = .shadowDelete := hop
      simp [execute, setShadow]
    · exact ih hcmd

end LoaderTables

namespace PhyDevice

variable {hw : Hw} {device : Option NlmDevice} {U Z : Set ℕ} {s s' s'' : PhyDevice} {b d : ℕ}

/-- No queued command touches the blocks of the database. -/
def Quiet (s : PhyDevice) (d : ℕ) : Prop :=
  ∀ b, (s.databaseShadowMap b).dbId = d → ∀ cmd ∈ s.loaderCmdMem, ¬ Touches b cmd

/-- Block `b` can be given `numCopies` copies while commands are queued: it is
not to be deleted, and a clone that is still to come is not one too many. -/
def Settable (s : PhyDevice) (numCopies b : ℕ) : Prop :=
  ∀ cmd ∈ s.loaderCmdMem, cmd.addrShadow = b → cmd.opcode ≠ .shadowDelete ∧
    (cmd.opcode = .arrayAdd → (s.databaseShadowMap b).noClonesTarget ≤ numCopies)

/-- What holds of a device whatever is queued. The blocks in `U` are being
unloaded; the databases in `Z` have been written but may not have copies yet. -/
structure Draining (hw : Hw) (U Z : Set ℕ) (s : PhyDevice) : Prop where
  inv : Inv hw U s
  target_le : ∀ b, (s.databaseShadowMap b).noClonesTarget ≤ 4
  target_pos : ∀ b, (s.settled.databaseShadowMap b).valid = true →
    (s.databaseShadowMap b).dbId ∉ Z → 1 ≤ (s.databaseShadowMap b).noClonesTarget
  uniform : ∀ b b', (s.databaseShadowMap b).valid = true →
    (s.databaseShadowMap b').valid = true →
    (s.databaseShadowMap b).dbId = (s.databaseShadowMap b').dbId →
    (s.databaseShadowMap b).noClonesTarget = (s.databaseShadowMap b').noClonesTarget
  unloading : ∀ b ∈ U, (s.settled.databaseShadowMap b).valid = false

theorem Settable.settled_valid {numCopies : ℕ} (h : Settable s numCopies b)
    (hvalid : (s.databaseShadowMap b).valid = true) :
    (s.settled.databaseShadowMap b).valid = true := by
  by_contra hinvalid
  obtain ⟨cmd, hcmd, hop, hsh⟩ := exists_shadowDelete hvalid (Bool.not_eq_true _ ▸ hinvalid)
  exact (h cmd hcmd hsh).1 hop

/-- Some of the queued commands have been executed, and nothing else happened. -/
structure Later (s s' : PhyDevice) : Prop where
  settled_eq : s'.settled = s.settled
  valid_of : ∀ b, (s'.databaseShadowMap b).valid = true → (s.databaseShadowMap b).valid = true
  queue_sub : s'.loaderCmdMem ⊆ s.loaderCmdMem
  ringId_eq : s'.fmsRingId = s.fmsRingId

namespace Later

theorem refl (s : PhyDevice) : Later s s := ⟨rfl, fun _ h ↦ h, List.Subset.refl _, rfl⟩

variable (h : Later s s')
include h

theorem target_eq (b : ℕ) : (s'.databaseShadowMap b).noClonesTarget =
    (s.databaseShadowMap b).noClonesTarget := by
  rw [← settled_noClonesTarget, h.settled_eq, settled_noClonesTarget]

theorem dbId_eq (b : ℕ) : (s'.databaseShadowMap b).dbId = (s.databaseShadowMap b).dbId := by
  rw [← settled_dbId, h.settled_eq, settled_dbId]

theorem quiet (hd : Quiet s d) : Quiet s' d := fun b hb cmd hcmd ↦
  hd b ((h.dbId_eq b).symm.trans hb) cmd (h.queue_sub hcmd)

theorem settable {numCopies : ℕ} (hb : Settable s numCopies b) : Settable s' numCopies b := by
  intro cmd hcmd hsh
  rw [h.target_eq]
  exact hb cmd (h.queue_sub hcmd) hsh

end Later

theorem ExecPost.later {r : NlmStatus × PhyDevice} (h : ExecPost hw U s r) : Later s r.2 := by
  refine ⟨h.settled_eq, fun b hvalid ↦ ?_, ?_, h.ringId_eq⟩
  · rcases h.step with ⟨htables, -⟩ | ⟨cmd, -, htables⟩
    · rwa [htables] at hvalid
    · rw [htables] at hvalid
      exact valid_of_execute hvalid
  · rcases h.step with ⟨-, hq⟩ | ⟨cmd, hq, -⟩
    · rw [hq]
      exact List.Subset.refl _
    · rw [hq]
      exact List.subset_cons_self _ _

theorem DrainPost.later {r : NlmStatus × PhyDevice} (h : DrainPost hw U s r) : Later s r.2 := by
  refine ⟨(settled_of_nil h.queue_nil).trans h.tables_eq, fun b hvalid ↦ ?_, ?_, h.ringId_eq⟩
  · rw [h.tables_eq] at hvalid
    exact valid_of_flushed hvalid
  · rw [h.queue_nil]
    exact List.nil_subset _

/-- A call went through, or is going on. -/
def Accepted (status : NlmStatus) : Prop := status = .ok ∨ status = .loaderInProgress

theorem Finished.later {r : NlmStatus × PhyDevice} (h : Finished hw U s r) :
    Later s r.2 ∧ Inv hw U r.2 ∧ Accepted r.1 := by
  unfold Finished at h
  split at h
  · exact ⟨h.later, h.inv, .inl h.status⟩
  · refine ⟨h.later, h.inv, ?_⟩
    rcases h.status with ⟨hok, -⟩ | ⟨hbusy, -⟩
    · exact .inl hok
    · exact .inr hbusy

namespace Draining

theorem later (h : Draining hw U Z s) (hl : Later s s') (hinv : Inv hw U s') :
    Draining hw U Z s' := by
  refine ⟨hinv, fun b ↦ ?_, fun b hvalid hZ ↦ ?_, fun b b' hb hb' hdb ↦ ?_, fun b hb ↦ ?_⟩
  · rw [hl.target_eq]
    exact h.target_le b
  · rw [hl.settled_eq] at hvalid
    rw [hl.dbId_eq] at hZ
    rw [hl.target_eq]
    exact h.target_pos b hvalid hZ
  · rw [hl.dbId_eq, hl.dbId_eq] at hdb
    rw [hl.target_eq, hl.target_eq]
    exact h.uniform b b' (hl.valid_of b hb) (hl.valid_of b' hb') hdb
  · rw [hl.settled_eq]
    exact h.unloading b hb

theorem mono {Z' : Set ℕ} (h : Draining hw U Z s) (hZ : Z ⊆ Z') : Draining hw U Z' s :=
  { h with target_pos := fun b hvalid hb ↦ h.target_pos b hvalid fun hbZ ↦ hb (hZ hbZ) }

theorem target_eq_zero (h : Draining hw U Z s)
    (hb : (s.settled.databaseShadowMap b).valid = false) :
    (s.databaseShadowMap b).noClonesTarget = 0 := by
  rw [h.inv.noClonesTarget_eq]
  exact h.inv.settled_placed.eq_zero_of_not_valid hb

/-- With an empty queue no block is being unloaded. -/
theorem settle (h : Draining hw U Z s) (hnil : s.loaderCmdMem = []) : Draining hw ∅ Z s := by
  refine { h with
    inv := h.inv.shrink_set hnil fun b hb _ ↦ ?_
    unloading := fun b hb ↦ absurd hb (Set.notMem_empty b) }
  have hinvalid := h.unloading b hb
  rw [settled_of_nil hnil] at hinvalid
  exact h.inv.placed.eq_zero_of_not_valid hinvalid

/-- A block to which nothing is to be added has the clones that it will keep. -/
theorem shrinkable (h : Draining hw U Z s) {numCopies : ℕ} (hset : Settable s numCopies b)
    (hvalid : (s.databaseShadowMap b).valid = true)
    (hlt : numCopies < (s.databaseShadowMap b).noClonesTarget) : Shrinkable hw U b s := by
  have hfewer : FewerClones b s.toLoaderTables s.settled := by
    refine flushed_fewerClones h.inv.legal fun cmd hcmd hop hsh ↦ ?_
    have hle := (hset cmd hcmd hsh).2 hop
    omega
  have hU : b ∉ U := by
    intro hU
    have hsettled := hset.settled_valid hvalid
    rw [h.unloading b hU] at hsettled
    cases hsettled
  have htarget := h.inv.noClonesTarget_eq b
  refine ⟨h.inv, hU, fun j hj hcopy ↦ ?_, ?_⟩
  · rw [htarget] at hcopy
    obtain ⟨i, hi, hnum⟩ := (h.inv.settled_placed.numbered b hU).exists_num hcopy
    have hsame := hfewer.copyNumber_eq i hi
    obtain rfl : i = j := (h.inv.placed.numbered b hU).eq_of_num_eq (hfewer.clones_sub hi) hj
      (hsame.symm.trans hnum)
    exact ⟨hi, hsame⟩
  · rw [htarget, ← h.inv.settled_placed.card_clones b, ← h.inv.placed.card_clones b]
    exact Finset.card_le_card hfewer.clones_sub

end Draining

/-! ## Setting the number of copies -/

/-- The commands queued on the way from `s` to `s'` are about blocks of the list. -/
def QueuedFor (bs : List ℕ) (s s' : PhyDevice) : Prop :=
  ∀ cmd ∈ s'.loaderCmdMem,
    cmd ∈ s.loaderCmdMem ∨ (cmd.addrShadow ∈ bs ∧ cmd.opcode ≠ .shadowDelete) ∨
      cmd.opcode = .gidBmapConfigure

section Queued

variable {bs : List ℕ} {n c numCopies : ℕ}

theorem QueuedFor.refl (bs : List ℕ) (s : PhyDevice) : QueuedFor bs s s := fun _ h ↦ .inl h

theorem QueuedFor.trans (h : QueuedFor bs s s') (h' : QueuedFor bs s' s'') :
    QueuedFor bs s s'' := by
  intro cmd hcmd
  rcases h' cmd hcmd with hcmd | hcmd
  · exact h cmd hcmd
  · exact .inr hcmd

theorem QueuedFor.enqueue {cmds : List LoaderCommand} {f : LoaderTables → LoaderTables}
    (h : ∀ cmd ∈ cmds, (cmd.addrShadow ∈ bs ∧ cmd.opcode ≠ .shadowDelete) ∨
      cmd.opcode = .gidBmapConfigure) :
    QueuedFor bs s ((s.mapTables f).enqueue cmds) := by
  intro cmd hcmd
  exact (List.mem_append.mp hcmd).imp_right (h cmd)

theorem QueuedFor.removal (j : ℕ) (hb : b ∈ bs) : QueuedFor bs s (s.removal j b) := by
  apply QueuedFor.enqueue (s := s.mapTables _)
  intro cmd hcmd
  left
  simp only [decloneCmds, List.mem_cons, List.not_mem_nil, or_false] at hcmd
  rcases hcmd with rfl | rfl | rfl | rfl <;> exact ⟨hb, by simp⟩

theorem Removals.queuedFor (h : Removals b n s s') (hb : b ∈ bs) : QueuedFor bs s s' := by
  induction h with
  | refl => exact .refl bs _
  | step _ _ _ ih => exact ih.trans (.removal _ hb)

theorem ShrinkAll.queuedFor {bs' : List ℕ} (h : ShrinkAll n bs' s s') (hsub : bs' ⊆ bs) :
    QueuedFor bs s s' := by
  induction h with
  | nil => exact .refl bs _
  | cons h _ ih =>
    obtain ⟨hb, hsub⟩ := List.cons_subset.mp hsub
    exact (h.queuedFor hb).trans (ih hsub)

theorem Clonings.queuedFor {bs' : List ℕ} (h : Clonings bs' s s') (hsub : bs' ⊆ bs) :
    QueuedFor bs s s' := by
  induction h with
  | nil => exact .refl bs _
  | cons _ _ _ ih =>
    obtain ⟨hb, hsub⟩ := List.cons_subset.mp hsub
    refine QueuedFor.trans (.enqueue fun cmd hcmd ↦ ?_) (ih hsub)
    left
    simp only [cloneCmds, List.mem_cons, List.not_mem_nil, or_false] at hcmd
    rcases hcmd with rfl | rfl | rfl | rfl | rfl | rfl <;> exact ⟨hb, by simp⟩

theorem Rounds.queuedFor (h : Rounds bs n s s') : QueuedFor bs s s' := by
  induction h with
  | zero => exact .refl bs _
  | succ _ h' ih =>
    refine (ih.trans (h'.queuedFor (List.Subset.refl bs))).trans (.enqueue (f := id) ?_)
    intro cmd hcmd
    obtain rfl := List.mem_singleton.mp hcmd
    exact .inr rfl

theorem Resized.queuedFor (h : Resized bs c numCopies s s') : QueuedFor bs s s' := by
  unfold Resized at h
  split at h
  · exact h.queuedFor
  · exact h.queuedFor (List.Subset.refl bs)

theorem QueuedFor.quiet (h : QueuedFor bs s s') (hview : s.SameView s'.toLoaderTables)
    (hbs : ∀ b ∈ bs, (s.databaseShadowMap b).dbId ≠ d) (hquiet : Quiet s d) : Quiet s' d := by
  rintro b hb cmd hcmd ⟨hop, rfl⟩
  rw [(hview.entry_eq _).2.2] at hb
  rcases h cmd hcmd with hold | hnew | hnew
  · exact hquiet _ hb cmd hold ⟨hop, rfl⟩
  · exact hbs _ hnew.1 hb
  · rw [hnew] at hop
    rcases hop with hop | hop | hop <;> cases hop

theorem QueuedFor.settable (h : QueuedFor bs s s')
    (hmem : ∀ b ∈ bs, (s'.databaseShadowMap b).noClonesTarget = numCopies)
    (hother : ∀ b ∉ bs, (s'.databaseShadowMap b).noClonesTarget =
      (s.databaseShadowMap b).noClonesTarget) (hb : Settable s numCopies b) :
    Settable s' numCopies b := by
  have htarget : (s.databaseShadowMap b).noClonesTarget ≤ numCopies →
      (s'.databaseShadowMap b).noClonesTarget ≤ numCopies := by
    intro hle
    by_cases hbs : b ∈ bs
    · exact (hmem b hbs).le
    · rwa [hother b hbs]
  intro cmd hcmd hsh
  rcases h cmd hcmd with hold | ⟨hnew, hop⟩ | hop
  · exact ⟨(hb cmd hold hsh).1, fun hadd ↦ htarget ((hb cmd hold hsh).2 hadd)⟩
  · exact ⟨hop, fun _ ↦ (hmem b (hsh ▸ hnew)).le⟩
  · rw [hop]
    exact ⟨by simp, by simp⟩

end Queued

/-- A DMA transfer takes too long, or the space for commands or clones runs out. -/
def ResourceHalt (e : Halt) : Prop :=
  e = .dmaWaitTimeout ∨ e = .commandFifoOverrun ∨ e = .balanceFailed

/-- The requested number of copies is, or will be, the number of copies of `d`. -/
structure SetDone (hw : Hw) (U Z : Set ℕ) (d numCopies : ℕ) (s s' : PhyDevice) : Prop where
  draining : Draining hw U (Z \ {d}) s'
  ringId_eq : s'.fmsRingId = s.fmsRingId
  dbId_eq : ∀ b, (s'.databaseShadowMap b).dbId = (s.databaseShadowMap b).dbId
  valid_of : ∀ b, (s'.databaseShadowMap b).valid = true → (s.databaseShadowMap b).valid = true
  settled_eq : ∀ b, (s'.settled.databaseShadowMap b).valid =
    (s.settled.databaseShadowMap b).valid
  target_mem : ∀ b ∈ s.createShadowBlockListByDbId d,
    (s'.databaseShadowMap b).noClonesTarget = numCopies
  target_notMem : ∀ b ∉ s.createShadowBlockListByDbId d,
    (s'.databaseShadowMap b).noClonesTarget = (s.databaseShadowMap b).noClonesTarget
  quiet : ∀ d' ≠ d, Quiet s d' → Quiet s' d'
  settable : ∀ b, Settable s numCopies b → Settable s' numCopies b

theorem Draining.exists_target (h : Draining hw U Z s) (d : ℕ) :
    ∃ c, ∀ b ∈ s.createShadowBlockListByDbId d, (s.databaseShadowMap b).noClonesTarget = c := by
  cases hlist : s.createShadowBlockListByDbId d with
  | nil => exact ⟨0, fun b hb ↦ absurd hb List.not_mem_nil⟩
  | cons b₀ bs =>
    refine ⟨(s.databaseShadowMap b₀).noClonesTarget, fun b hb ↦ ?_⟩
    rw [← hlist] at hb
    have hb₀ : b₀ ∈ s.createShadowBlockListByDbId d := hlist ▸ List.mem_cons_self
    obtain ⟨-, hvalid, hdb⟩ := mem_blockList.mp hb
    obtain ⟨-, hvalid₀, hdb₀⟩ := mem_blockList.mp hb₀
    exact h.uniform b b₀ hvalid hvalid₀ (hdb.trans hdb₀.symm)

/-- A database gets between 1 and 4 copies. -/
theorem Draining.resized (h : Draining hw U Z s) {numCopies : ℕ} (hpos : 1 ≤ numCopies)
    (hfour : numCopies ≤ 4)
    (hpost : ResizedPost hw U (s.createShadowBlockListByDbId d) numCopies s s') :
    Draining hw U (Z \ {d}) s' := by
  have hentry := hpost.view.entry_eq
  refine ⟨hpost.inv, fun b ↦ ?_, fun b hvalid hZ ↦ ?_, fun b b' hb hb' hdb ↦ ?_, fun b hb ↦ ?_⟩
  · by_cases hb : b ∈ s.createShadowBlockListByDbId d
    · rw [hpost.target_mem b hb]
      exact hfour
    · rw [hpost.target_notMem b hb]
      exact h.target_le b
  · by_cases hb : b ∈ s.createShadowBlockListByDbId d
    · rw [hpost.target_mem b hb]
      exact hpos
    · rw [hpost.target_notMem b hb]
      rw [hpost.valid_eq] at hvalid
      rw [(hentry b).2.2] at hZ
      have hvalid' := valid_of_flushed hvalid
      refine h.target_pos b hvalid fun hbZ ↦ hZ ⟨hbZ, fun hbd ↦ hb ?_⟩
      exact mem_blockList.mpr ⟨(h.inv.placed.valid_lt b hvalid').1, hvalid', hbd⟩
  · rw [(hentry b).1] at hb
    rw [(hentry b').1] at hb'
    rw [(hentry b).2.2, (hentry b').2.2] at hdb
    have hiff : b ∈ s.createShadowBlockListByDbId d ↔ b' ∈ s.createShadowBlockListByDbId d :=
      mem_blockList_congr (h.inv.placed.valid_lt b hb).1 (h.inv.placed.valid_lt b' hb').1 hb hb' hdb
    by_cases hmem : b ∈ s.createShadowBlockListByDbId d
    · rw [hpost.target_mem b hmem, hpost.target_mem b' (hiff.mp hmem)]
    · rw [hpost.target_notMem b hmem, hpost.target_notMem b' (mt hiff.mpr hmem)]
      exact h.uniform b b' hb hb' hdb
  · rw [hpost.valid_eq]
    exact h.unloading b hb

/-- A request for a database whose blocks can be given the copies fails no
assertion but for want of space. -/
theorem Draining.setNumCopies {E : Halt → Prop} (hE : ∀ e, ResourceHalt e → E e)
    (h : Draining hw U Z s) {numCopies : ℕ} (hpos : 1 ≤ numCopies)
    (hset : ∀ b ∈ s.createShadowBlockListByDbId d, Settable s numCopies b) :
    Outcome (fun r ↦ (r.2 = s ∧ ¬ Accepted r.1 ∧
        (loaderGuard device s = none → d ≤ nlmMaxDatabaseId → numCopies ≤ 4 →
          s.createShadowBlockListByDbId d ≠ [] → ∀ c,
          (∀ b ∈ s.createShadowBlockListByDbId d, (s.databaseShadowMap b).noClonesTarget = c) →
          s.arrayBlocksFree < (s.createShadowBlockListByDbId d).length * (numCopies - c))) ∨
      (Accepted r.1 ∧ SetDone hw U Z d numCopies s r.2)) E
      (nlmDeviceDatabaseSetNumCopies hw device d numCopies s) := by
  obtain ⟨c, hc⟩ := h.exists_target d
  have hbs : ∀ b ∈ s.createShadowBlockListByDbId d,
      (s.settled.databaseShadowMap b).valid = true ∧
        (s.databaseShadowMap b).noClonesTarget = c := fun b hb ↦
    ⟨(hset b hb).settled_valid (mem_blockList.mp hb).2.1, hc b hb⟩
  have hshrink : numCopies < c → ∀ b ∈ s.createShadowBlockListByDbId d,
      Shrinkable hw U b s := fun hlt b hb ↦
    h.shrinkable (hset b hb) (mem_blockList.mp hb).2.1 (by rwa [hc b hb])
  refine (setNumCopies_outcome h.inv hbs hshrink (fun e he ↦ hE e (.inl he.1))
    fun _ _ _ ↦ hE _ (.inr (.inl rfl))).imp ?_
  rintro r (⟨hsame, hok, hbusy, hspace⟩ | ⟨-, hne, hfour, s₁, hresized, hfinished⟩)
  · left
    refine ⟨hsame, fun hr ↦ hr.elim hok hbusy, fun hg hd hk hne c' hc' ↦ ?_⟩
    obtain ⟨b, hb⟩ := List.exists_mem_of_ne_nil _ hne
    rw [← hc' b hb, hc b hb]
    exact (hspace hg hd hk hne).2
  right
  have hpost := hresized.post h.inv (s.blockList_nodup d) hbs hshrink
  obtain ⟨hlater, hinv, haccepted⟩ := hfinished.later
  have hentry := hpost.view.entry_eq
  have hdraining := h.resized hpos hfour hpost
  refine ⟨haccepted, ?_⟩
  constructor
  · exact hdraining.later hlater hinv
  · exact hlater.ringId_eq.trans hpost.ringId_eq
  · exact fun b ↦ (hlater.dbId_eq b).trans (hentry b).2.2
  · exact fun b hb ↦ (hentry b).1.symm.trans (hlater.valid_of b hb)
  · intro b
    rw [hlater.settled_eq]
    exact hpost.valid_eq b
  · exact fun b hb ↦ (hlater.target_eq b).trans (hpost.target_mem b hb)
  · exact fun b hb ↦ (hlater.target_eq b).trans (hpost.target_notMem b hb)
  · intro d' hd' hq
    apply hlater.quiet
    refine hresized.queuedFor.quiet hpost.view (fun b hb ↦ ?_) hq
    rw [(mem_blockList.mp hb).2.2]
    exact hd'.symm
  · intro b hb
    exact hlater.settable (hresized.queuedFor.settable hpost.target_mem hpost.target_notMem hb)

/-! ## Balancing -/

/-- All databases can be given `numCopies` copies while commands are queued. -/
def Balanceable (s : PhyDevice) (numCopies : ℕ) : Prop := ∀ b, Settable s numCopies b

/-- Of each database that may not have copies yet no command is queued, unless
it has been asked for `numCopies` copies. -/
def QuietOrSet (Z : Set ℕ) (s : PhyDevice) (numCopies : ℕ) : Prop :=
  ∀ d ∈ Z, Quiet s d ∨ ∀ b ∈ s.createShadowBlockListByDbId d,
    (s.databaseShadowMap b).noClonesTarget = numCopies

/-- What holds between the requests of a balancing that began in `s`. -/
structure Balancing (hw : Hw) (U Z : Set ℕ) (numCopies : ℕ) (s s' : PhyDevice) : Prop where
  draining : Draining hw U Z s'
  ringId_eq : s'.fmsRingId = s.fmsRingId
  dbId_eq : ∀ b, (s'.databaseShadowMap b).dbId = (s.databaseShadowMap b).dbId
  settled_eq : ∀ b, (s'.settled.databaseShadowMap b).valid =
    (s.settled.databaseShadowMap b).valid
  balanceable : Balanceable s' numCopies
  quiet_or : QuietOrSet Z s' numCopies

namespace Balancing

variable {numCopies : ℕ}

theorem set (h : Balancing hw U Z numCopies s s') (hset : SetDone hw U Z d numCopies s' s'') :
    Balancing hw U Z numCopies s s'' := by
  have hmem : ∀ d' b, b ∈ s''.createShadowBlockListByDbId d' →
      b ∈ s'.createShadowBlockListByDbId d' := by
    intro d' b hb
    obtain ⟨-, hvalid, hdb⟩ := mem_blockList.mp hb
    have hvalid' := hset.valid_of b hvalid
    exact mem_blockList.mpr ⟨(h.draining.inv.placed.valid_lt b hvalid').1, hvalid',
      (hset.dbId_eq b).symm.trans hdb⟩
  constructor
  · exact hset.draining.mono Set.sdiff_subset
  · exact hset.ringId_eq.trans h.ringId_eq
  · exact fun b ↦ (hset.dbId_eq b).trans (h.dbId_eq b)
  · exact fun b ↦ (hset.settled_eq b).trans (h.settled_eq b)
  · exact fun b ↦ hset.settable b (h.balanceable b)
  · intro d' hZ
    rcases eq_or_ne d' d with rfl | hne
    · exact .inr fun b hb ↦ hset.target_mem b (hmem d' b hb)
    · refine (h.quiet_or d' hZ).imp (hset.quiet d' hne) fun htarget b hb ↦ ?_
      rw [hset.target_notMem b fun hb' ↦ hne ?_]
      · exact htarget b (hmem d' b hb)
      · rw [← (mem_blockList.mp (hmem d' b hb)).2.2, (mem_blockList.mp hb').2.2]

/-- A database that a loop passes over has copies. -/
theorem target_pos_of_skip (h : Balancing hw U Z numCopies s s') (hpos : 1 ≤ numCopies)
    (hskip : ∀ c, residentCopies s'.toLoaderTables d = some c → numCopies ≤ c)
    (hvalid : (s'.settled.databaseShadowMap b).valid = true)
    (hdb : (s'.databaseShadowMap b).dbId = d) : 1 ≤ (s'.databaseShadowMap b).noClonesTarget := by
  have hvalid' := valid_of_flushed hvalid
  have hb : b ∈ s'.createShadowBlockListByDbId d :=
    mem_blockList.mpr ⟨(h.draining.inv.placed.valid_lt b hvalid').1, hvalid', hdb⟩
  by_cases hZ : d ∈ Z
  swap
  · exact h.draining.target_pos b hvalid (hdb.symm ▸ hZ)
  rcases h.quiet_or d hZ with hquiet | htarget
  · obtain ⟨c, hc⟩ := exists_residentCopies hb
    have hle := hskip c hc
    obtain ⟨b₀, hb₀, rfl⟩ := residentCopies_eq_some hc
    obtain ⟨-, hvalid₀, hdb₀⟩ := mem_blockList.mp hb₀
    have hsame : SameBlock b₀ s'.toLoaderTables s'.settled :=
      flushed_sameBlock h.draining.inv.legal (hquiet b₀ hdb₀)
    have huniform := h.draining.uniform b b₀ hvalid' hvalid₀ (hdb.trans hdb₀.symm)
    rw [h.draining.inv.noClonesTarget_eq b₀, hsame.current_eq] at huniform
    omega
  · rw [htarget b hb]
    exact hpos

end Balancing

theorem Draining.balance {E : Halt → Prop} (hE : ∀ e, ResourceHalt e → E e)
    (h : Draining hw U Z s) (hset : Balanceable s (balancedCopies s.toLoaderTables))
    (hquiet : QuietOrSet Z s (balancedCopies s.toLoaderTables)) :
    Outcome (fun r ↦ (r.2 = s ∧ ¬ Accepted r.1 ∧ (loaderGuard device s = none →
        shadowBlocksOccupied s.toLoaderTables = 0)) ∨
      (Accepted r.1 ∧ Draining hw U ∅ r.2 ∧
        Balancing hw U Z (balancedCopies s.toLoaderTables) s r.2)) E
      (nlmDeviceDatabaseBalance hw device s) := by
  unfold nlmDeviceDatabaseBalance
  cases hg : loaderGuard device s with
  | some status =>
    exact .inl ⟨rfl, fun hr ↦ hr.elim (loaderGuard_ne_ok hg) (loaderGuard_ne_inProgress hg),
      fun hnone ↦ absurd hnone (Option.some_ne_none status)⟩
  | none =>
    simp only
    by_cases hocc : shadowBlocksOccupied s.toLoaderTables = 0
    · rw [if_pos hocc]
      refine .inl ⟨rfl, ?_, fun _ ↦ hocc⟩
      rintro (hr | hr) <;> cases hr
    rw [if_neg hocc]
    obtain ⟨hpos, -, -⟩ := balancedCopies_spec hocc
    generalize balancedCopies s.toLoaderTables = numCopies at hpos hset hquiet ⊢
    let J₁ : ℕ → PhyDevice → Prop := fun _ s' ↦ Balancing hw U Z numCopies s s'
    let J₂ : ℕ → PhyDevice → Prop := fun d s' ↦ Balancing hw U Z numCopies s s' ∧
      ∀ b, (s'.settled.databaseShadowMap b).valid = true → (s'.databaseShadowMap b).dbId < d →
        1 ≤ (s'.databaseShadowMap b).noClonesTarget
    have hbegin : J₁ 0 s := ⟨h, rfl, fun _ ↦ rfl, fun _ ↦ rfl, hset, hquiet⟩
    have hfailed : E .balanceFailed := hE _ (.inr (.inr rfl))
    refine Outcome.bind (balanceLoop_outcome Accepted (fun _ hst ↦ hst) J₁
      (fun _ _ hs _ ↦ hs) ?_ (.inl rfl) hbegin) ?_
    · intro d s₁ c _ hs₁ _ _
      refine (hs₁.draining.setNumCopies hE hpos fun b _ ↦ hs₁.balanceable b).imp ?_
      rintro r (⟨-, hr, -⟩ | ⟨hr, hset⟩)
      · obtain ⟨hok, hbusy⟩ := not_or.mp hr
        exact .inr ⟨hok, hbusy, hfailed⟩
      · exact .inl ⟨hr, hs₁.set hset⟩
    rintro ⟨status, s₁⟩ ⟨hstatus, hs₁⟩
    refine (balanceLoop_outcome Accepted (fun _ hst ↦ hst) J₂ ?_ ?_ hstatus
      ⟨hs₁, fun b _ hb ↦ absurd hb (Nat.not_lt_zero _)⟩).imp ?_
    · rintro d s₂ ⟨hs₂, hbelow⟩ hskip
      refine ⟨hs₂, fun b hvalid hb ↦ ?_⟩
      rcases Nat.lt_succ_iff_lt_or_eq.mp hb with hb | hb
      · exact hbelow b hvalid hb
      · exact hs₂.target_pos_of_skip hpos (fun c hc ↦ by simpa using hskip c hc) hvalid hb
    · rintro d s₂ c _ ⟨hs₂, hbelow⟩ _ _
      refine (hs₂.draining.setNumCopies hE hpos fun b _ ↦ hs₂.balanceable b).imp ?_
      rintro r (⟨-, hr, -⟩ | ⟨hr, hset⟩)
      · obtain ⟨hok, hbusy⟩ := not_or.mp hr
        exact .inr ⟨hok, hbusy, hfailed⟩
      · refine .inl ⟨hr, hs₂.set hset, fun b hvalid hb ↦ ?_⟩
        rw [hset.settled_eq] at hvalid
        rw [hset.dbId_eq] at hb
        by_cases hmem : b ∈ s₂.createShadowBlockListByDbId d
        · rw [hset.target_mem b hmem]
          exact hpos
        · rw [hset.target_notMem b hmem]
          have hvalid' := valid_of_flushed hvalid
          refine hbelow b hvalid ((Nat.lt_succ_iff.mp hb).lt_of_ne fun hbd ↦ hmem ?_)
          exact mem_blockList.mpr
            ⟨(hs₂.draining.inv.placed.valid_lt b hvalid').1, hvalid', hbd⟩
    · rintro ⟨status', s₂⟩ ⟨hstatus', hs₂, hbelow⟩
      refine .inr ⟨hstatus', { hs₂.draining with target_pos := fun b hvalid _ ↦ ?_ }, hs₂⟩
      have hvalid' := valid_of_flushed hvalid
      exact hbelow b hvalid (Nat.lt_succ_of_le (hs₂.draining.inv.placed.valid_lt b hvalid').2)

/-! ## Loading -/

/-- No shadow block of the database will be left when the queue has been
executed. -/
def Gone (s : PhyDevice) (d : ℕ) : Prop :=
  ∀ b, (s.settled.databaseShadowMap b).valid = true → (s.databaseShadowMap b).dbId ≠ d

theorem Later.gone (h : Later s s') (hgone : Gone s d) : Gone s' d := by
  intro b hvalid
  rw [h.settled_eq] at hvalid
  rw [h.dbId_eq]
  exact hgone b hvalid

theorem Balancing.gone {numCopies : ℕ} (h : Balancing hw U Z numCopies s s')
    (hgone : Gone s d) : Gone s' d := by
  intro b hvalid
  rw [h.settled_eq] at hvalid
  rw [h.dbId_eq]
  exact hgone b hvalid

theorem SetDone.gone {numCopies d' : ℕ} (h : SetDone hw U Z d' numCopies s s')
    (hgone : Gone s d) : Gone s' d := by
  intro b hvalid
  rw [h.settled_eq] at hvalid
  rw [h.dbId_eq]
  exact hgone b hvalid

namespace Draining

theorem write (h : Draining hw ∅ Z s) (hnil : s.loaderCmdMem = []) (hd : d ≤ nlmMaxDatabaseId)
    (hnew : s.createShadowBlockListByDbId d = []) {database : FmsDatabase}
    {W : Finset ℕ} {t' : LoaderTables} (hw' : ImageWritten s.toLoaderTables d database W t') :
    Draining hw ∅ (insert d Z) (s.mapTables fun _ ↦ t') ∧
      ∀ d' ≠ d, Gone s d' → Gone (s.mapTables fun _ ↦ t') d' := by
  have hplaced := h.inv.placed
  have hcounts := hw'.entry_counts
  have hvalid := fun b hb ↦ hw'.valid_cases hplaced (b := b) hb
  have hplaced' := hw'.placed hplaced hd
  have hsettled : s.settled = s.toLoaderTables := settled_of_nil hnil
  have hdb : ∀ b, (s.databaseShadowMap b).valid = true → (s.databaseShadowMap b).dbId ≠ d := by
    intro b hvalid hbd
    have hmem : b ∈ s.createShadowBlockListByDbId d :=
      mem_blockList.mpr ⟨(hplaced.valid_lt b hvalid).1, hvalid, hbd⟩
    rw [hnew] at hmem
    exact absurd hmem List.not_mem_nil
  have htarget : ∀ b, (t'.databaseShadowMap b).noClonesTarget =
      (t'.databaseShadowMap b).noClonesCurrent := by
    intro b
    rw [(hcounts b).1, (hcounts b).2, h.inv.noClonesTarget_eq, hsettled]
  have hzero : ∀ b, (s.databaseShadowMap b).noClonesCurrent = 0 →
      (t'.databaseShadowMap b).noClonesTarget = 0 := by
    intro b hb
    rw [htarget, (hcounts b).1, hb]
  have hblocks : t'.arrayBlockMapTarget = t'.arrayBlockMapCurrent := by
    have heq := h.inv.target_eq
    rw [hsettled] at heq
    obtain ⟨shadowMap, groups, area, rfl⟩ := hw'.frame
    exact heq
  have hsettled' : (s.mapTables fun _ ↦ t').settled = t' := settled_of_nil hnil
  constructor
  · refine ⟨⟨hplaced', ?_, ?_, fun b ↦ ?_, h.inv.noResumeWait, h.inv.waitOk,
      h.inv.pauseTimeout_eq⟩, fun b ↦ ?_, fun b hb hbZ ↦ ?_, fun b b' hb hb' hbb ↦ ?_,
      fun b hb ↦ absurd hb (Set.notMem_empty b)⟩
    · change Legal ∅ s.loaderCmdMem t'
      rw [hnil]
      trivial
    · rw [hsettled']
      exact hblocks
    · rw [hsettled']
      exact htarget b
    · exact (hcounts b).2.trans_le (h.target_le b)
    · rw [hsettled'] at hb
      change 1 ≤ (t'.databaseShadowMap b).noClonesTarget
      change (t'.databaseShadowMap b).dbId ∉ insert d Z at hbZ
      rcases hvalid b hb with ⟨-, hbd, -⟩ | ⟨-, hb, hentry⟩
      · exact absurd (Set.mem_insert_iff.mpr (.inl hbd)) hbZ
      · rw [hentry] at hbZ ⊢
        refine h.target_pos b ?_ fun hmem ↦ hbZ (Set.mem_insert_of_mem d hmem)
        rw [hsettled]
        exact hb
    · change (t'.databaseShadowMap b).dbId = (t'.databaseShadowMap b').dbId at hbb
      change (t'.databaseShadowMap b).noClonesTarget = (t'.databaseShadowMap b').noClonesTarget
      rcases hvalid b hb with ⟨-, hbd, hzero₁⟩ | ⟨-, hb, hentry⟩
      · rcases hvalid b' hb' with ⟨-, -, hzero₂⟩ | ⟨-, hb', hentry'⟩
        · rw [hzero b hzero₁, hzero b' hzero₂]
        · rw [hbd, hentry'] at hbb
          exact absurd hbb.symm (hdb b' hb')
      · rcases hvalid b' hb' with ⟨-, hbd', -⟩ | ⟨-, hb', hentry'⟩
        · rw [hbd', hentry] at hbb
          exact absurd hbb (hdb b hb)
        · rw [hentry, hentry'] at hbb ⊢
          exact h.uniform b b' hb hb' hbb
  · intro d' hne hgone b hb
    rw [hsettled'] at hb
    change (t'.databaseShadowMap b).dbId ≠ d'
    rcases hvalid b hb with ⟨-, hbd, -⟩ | ⟨-, hb, hentry⟩
    · rw [hbd]
      exact hne.symm
    · rw [hentry]
      apply hgone b
      rw [hsettled]
      exact hb

/-- The common end of the calls. -/
theorem finish {E : Halt → Prop} (hE : ∀ e, ResourceHalt e → E e) (h : Draining hw U Z s)
    (hg : loaderGuard device s = none) :
    Outcome (fun r ↦ Accepted r.1 ∧ Draining hw U Z r.2 ∧ Later s r.2) E
      (finishByPolicy hw device s) := by
  refine (finish_outcome (E := E) h.inv hg fun e he ↦ hE e (.inl he.1)).imp fun r hr ↦ ?_
  obtain ⟨hlater, hinv, haccepted⟩ := Finished.later hr
  exact ⟨haccepted, h.later hlater hinv, hlater⟩

/-- The end of a load: a request that has only been accepted is worked off by the policy. -/
theorem finishLoad {E : Halt → Prop} (hE : ∀ e, ResourceHalt e → E e) {r : NlmStatus × PhyDevice}
    (haccepted : Accepted r.1) (hr : Draining hw ∅ ∅ r.2) (hg : loaderGuard device r.2 = none)
    (hgone : ∀ d' ≠ d, Gone s d' → Gone r.2 d') :
    Outcome (fun r ↦ Draining hw ∅ ∅ r.2 ∧
        ∀ d', (Accepted r.1 → d' ≠ d) → Gone s d' → Gone r.2 d') E
      (if r.1 ≠ .ok then Except.ok (r.1, r.2) else finishByPolicy hw device r.2) := by
  split
  · exact ⟨hr, fun d' hd' ↦ hgone d' (hd' haccepted)⟩
  · refine (hr.finish hE hg).imp fun r' hr' ↦ ⟨hr'.2.1, fun d' hd' hold ↦ ?_⟩
    exact hr'.2.2.gone (hgone d' (hd' hr'.1) hold)

theorem loadChecked {E : Halt → Prop} (hE : ∀ e, ResourceHalt e → E e) (h : Draining hw ∅ ∅ s)
    (hnil : s.loaderCmdMem = []) (hg : loaderGuard device s = none) (hd : d ≤ nlmMaxDatabaseId)
    (database : Option FmsDatabase) (headStatus : NlmStatus) {numBlocks : ℕ}
    (hblocks : headStatus = .ok → 1 ≤ numBlocks) (numCopies : ℕ) :
    Outcome (fun r ↦ Draining hw ∅ ∅ r.2 ∧
        ∀ d', (Accepted r.1 → d' ≠ d) → Gone s d' → Gone r.2 d') E
      (PhyDevice.loadChecked hw device database headStatus numBlocks d numCopies s) := by
  have hsame : Draining hw ∅ ∅ s ∧ ∀ status d', (Accepted status → d' ≠ d) → Gone s d' →
      Gone s d' := ⟨h, fun _ _ _ hgone ↦ hgone⟩
  unfold PhyDevice.loadChecked
  split
  swap
  · exact ⟨hsame.1, hsame.2 _⟩
  rename_i db
  split
  · exact ⟨hsame.1, hsame.2 _⟩
  rename_i hlist
  by_cases hfour : 4 < numCopies
  · rw [if_pos hfour]
    exact ⟨hsame.1, hsame.2 _⟩
  rw [if_neg hfour]
  by_cases hspace : 0 < numCopies ∧ s.arrayBlocksFree < numBlocks * numCopies
  · rw [if_pos hspace]
    exact ⟨hsame.1, hsame.2 _⟩
  rw [if_neg hspace]
  obtain heq | ⟨t', W, heq, hcard, hwritten⟩ := nlmDeviceWriteDatabaseToShadow_spec
    s.toLoaderTables d db numBlocks
  · rw [heq]
    exact ⟨hsame.1, hsame.2 _⟩
  rw [heq]
  obtain ⟨hrest, hgone⟩ := h.write hnil hd hlist hwritten
  obtain ⟨hlen, hzero⟩ := blockList_written h.inv.placed hlist hwritten
  rw [hcard] at hlen
  set s₁ := s.mapTables fun _ ↦ t' with hs₁
  have hlen' : (s₁.createShadowBlockListByDbId d).length = numBlocks := hlen
  have hne : s₁.createShadowBlockListByDbId d ≠ [] :=
    List.ne_nil_of_length_pos (hlen' ▸ hblocks rfl)
  have hguard : loaderGuard device s₁ = none := hg
  have hidle : ∀ cmd, cmd ∉ s₁.loaderCmdMem := by
    intro cmd
    change cmd ∉ s.loaderCmdMem
    rw [hnil]
    exact List.not_mem_nil
  have hset : ∀ n b, Settable s₁ n b := fun n b cmd hcmd ↦ absurd hcmd (hidle cmd)
  by_cases hcopies : numCopies = 0
  · simp only [hcopies, ne_eq, not_true_eq_false, if_false]
    refine Outcome.bind (hrest.balance hE (hset _) fun d' _ ↦ .inl fun b _ cmd hcmd ↦
      absurd hcmd (hidle cmd)) ?_
    rintro r (⟨-, -, hocc⟩ | ⟨haccepted, hr, hbalanced⟩)
    · obtain ⟨b, hb⟩ := List.exists_mem_of_ne_nil _ hne
      obtain ⟨hlt, hvalid, -⟩ := mem_blockList.mp hb
      have hpos : 0 < shadowBlocksOccupied s₁.toLoaderTables :=
        List.countP_pos_iff.mpr ⟨b, List.mem_range.mpr hlt, hvalid⟩
      exact absurd (hocc hguard) (Nat.ne_of_gt hpos)
    · exact finishLoad hE haccepted hr ((loaderGuard_congr hbalanced.ringId_eq).trans hguard)
        fun d' hd' hold ↦ hbalanced.gone (hgone d' hd' hold)
  · simp only [hcopies, ne_eq, not_false_eq_true, if_true]
    refine Outcome.bind (hrest.setNumCopies hE (Nat.pos_of_ne_zero hcopies) fun b _ ↦ hset _ b) ?_
    rintro r (⟨-, -, hfull⟩ | ⟨haccepted, hset⟩)
    · have htarget : ∀ b ∈ s₁.createShadowBlockListByDbId d,
          (s₁.databaseShadowMap b).noClonesTarget = 0 := by
        intro b hb
        rw [hrest.inv.noClonesTarget_eq, settled_of_nil (s := s₁) hnil]
        exact (hzero b hb).2
      have hfull := hfull hguard hd (Nat.not_lt.mp hfour) hne 0 htarget
      rw [arrayBlocksFree_written hwritten, hlen', Nat.sub_zero] at hfull
      exact absurd ⟨Nat.pos_of_ne_zero hcopies, hfull⟩ hspace
    · refine finishLoad hE haccepted (hset.draining.mono ?_)
        ((loaderGuard_congr hset.ringId_eq).trans hguard)
        fun d' hd' hold ↦ hset.gone (hgone d' hd' hold)
      simp

/-- The first command of a call: the executor, which must leave the queue empty. -/
theorem exec {E : Halt → Prop} (hE : ∀ e, ResourceHalt e → E e) (h : Draining hw U Z s)
    (hg : loaderGuard device s = none) :
    Outcome (fun r ↦ Draining hw U Z r.2 ∧ Later s r.2 ∧ loaderGuard device r.2 = none ∧
        (r.1 ≠ .loaderInProgress → r.2.loaderCmdMem = [])) E
      (nlmDeviceLoaderCmdExecFms hw device s) := by
  refine (exec_spec h.inv hg).mono (fun r hr ↦ ?_) fun e he ↦ hE e (.inl he.1)
  refine ⟨h.later hr.later hr.inv, hr.later, (loaderGuard_congr hr.ringId_eq).trans hg,
    fun hne ↦ ?_⟩
  rcases hr.status with ⟨-, hnil⟩ | ⟨hbusy, -⟩
  · exact hnil
  · exact absurd hbusy hne

end Draining

/-! ## The calls -/

/-- What a call leaves behind: the databases in `New` may have come, no other. -/
def Left (hw : Hw) (New : Set ℕ) (s s' : PhyDevice) : Prop :=
  (∃ U, Draining hw U ∅ s') ∧ ∀ d ∉ New, Gone s d → Gone s' d

/-- Database `d` is half unloaded: its clones are gone, and the deletion of its
shadow blocks is queued. -/
def HalfUnloaded (s : PhyDevice) (d : ℕ) : Prop :=
  s.createShadowBlockListByDbId d ≠ [] ∧ ∀ b ∈ s.createShadowBlockListByDbId d,
    (s.databaseShadowMap b).noClonesCurrent = 0 ∧
      ∃ cmd ∈ s.loaderCmdMem, cmd.opcode = .shadowDelete ∧ cmd.addrShadow = b

theorem Left.of_later (h : Draining hw U ∅ s) (New : Set ℕ) (hl : Later s s')
    (hinv : Inv hw U s') : Left hw New s s' :=
  ⟨⟨U, h.later hl hinv⟩, fun _ _ ↦ hl.gone⟩

theorem Left.refl (h : Draining hw U ∅ s) (New : Set ℕ) : Left hw New s s :=
  .of_later h New (.refl s) h.inv

namespace Draining

variable {E : Halt → Prop}

theorem load (hE : ∀ e, ResourceHalt e → E e) (h : Draining hw U ∅ s)
    (database : Option FmsDatabase) (dbSize numCopies : ℕ) :
    Outcome (fun r ↦ Left hw {x | x = d ∧ Accepted r.1} s r.2) E
      (nlmDeviceLoadDatabase hw device database dbSize d numCopies s) := by
  unfold nlmDeviceLoadDatabase
  cases hg : loaderGuard device s with
  | some status => exact .refl h _
  | none =>
    simp only
    by_cases hd : nlmMaxDatabaseId < d
    · rw [if_pos hd]
      exact .refl h _
    rw [if_neg hd]
    refine Outcome.bind (h.exec hE hg) ?_
    rintro ⟨status, s₁⟩ ⟨hs₁, hlater, hg₁, hnil⟩
    simp only
    split
    · exact .of_later h _ hlater hs₁.inv
    · rename_i hne
      refine ((hs₁.settle (hnil hne)).loadChecked hE (hnil hne) hg₁ (Nat.not_lt.mp hd) database _
        AtRest.check_ok numCopies).imp fun r hr ↦ ⟨⟨_, hr.1⟩, fun d' hd' hgone ↦ ?_⟩
      exact hr.2 d' (fun haccepted hdd ↦ hd' ⟨hdd, haccepted⟩) (hlater.gone hgone)

section Unloaded

variable {bs : List ℕ} {s₁ s₂ : PhyDevice}

/-- Blocks that are still in use at the end of the queue were not unloaded. -/
theorem unloaded_valid (hempty : s₁.loaderCmdMem = [])
    (hpost : UnloadedPost hw {b | b ∈ bs} bs s₁ s₂) {b : ℕ}
    (hb : (s₂.settled.databaseShadowMap b).valid = true) :
    b ∉ bs ∧ (s₁.databaseShadowMap b).valid = true := by
  rw [hpost.valid_eq, settled_of_nil hempty] at hb
  by_cases hmem : b ∈ bs
  · rw [if_pos hmem] at hb
    cases hb
  · rw [if_neg hmem] at hb
    exact ⟨hmem, hb⟩

theorem unloaded_target (hrest : Draining hw ∅ ∅ s₁) (hempty : s₁.loaderCmdMem = [])
    (hpost : UnloadedPost hw {b | b ∈ bs} bs s₁ s₂) (b : ℕ) :
    (s₂.databaseShadowMap b).noClonesTarget =
      if b ∈ bs then 0 else (s₁.databaseShadowMap b).noClonesTarget := by
  have hsettled : s₁.settled = s₁.toLoaderTables := settled_of_nil hempty
  rw [hpost.inv.noClonesTarget_eq, ← hpost.inv.settled_placed.card_clones b, hpost.clones_eq,
    hsettled, hrest.inv.noClonesTarget_eq, hsettled, ← hrest.inv.placed.card_clones b]
  split
  · rfl
  · rfl

/-- The blocks of a database are the ones to be unloaded. -/
theorem unloadAll (hrest : Draining hw ∅ ∅ s₁) (hempty : s₁.loaderCmdMem = [])
    (hall : UnloadAll (s₁.createShadowBlockListByDbId d) s₁ s₂)
    (hpost : UnloadedPost hw {b | b ∈ s₁.createShadowBlockListByDbId d}
      (s₁.createShadowBlockListByDbId d) s₁ s₂) :
    Draining hw {b | b ∈ s₁.createShadowBlockListByDbId d} ∅ s₂ := by
  have hentry := hall.sameView.entry_eq
  have htarget := unloaded_target hrest hempty hpost
  refine ⟨hpost.inv, fun b ↦ ?_, fun b hb _ ↦ ?_, fun b b' hb hb' hdb ↦ ?_, fun b hb ↦ ?_⟩
  · rw [htarget]
    split
    · exact Nat.zero_le 4
    · exact hrest.target_le b
  · obtain ⟨hmem, hb⟩ := unloaded_valid hempty hpost hb
    rw [htarget, if_neg hmem]
    refine hrest.target_pos b ?_ (Set.notMem_empty _)
    rw [settled_of_nil hempty]
    exact hb
  · rw [(hentry b).1] at hb
    rw [(hentry b').1] at hb'
    rw [(hentry b).2.2, (hentry b').2.2] at hdb
    have hiff : b ∈ s₁.createShadowBlockListByDbId d ↔ b' ∈ s₁.createShadowBlockListByDbId d :=
      mem_blockList_congr (hrest.inv.placed.valid_lt b hb).1 (hrest.inv.placed.valid_lt b' hb').1
        hb hb' hdb
    rw [htarget, htarget]
    by_cases hmem : b ∈ s₁.createShadowBlockListByDbId d
    · rw [if_pos hmem, if_pos (hiff.mp hmem)]
    · rw [if_neg hmem, if_neg (mt hiff.mpr hmem)]
      exact hrest.uniform b b' hb hb' hdb
  · rw [hpost.valid_eq]
    exact if_pos hb

theorem gone_of_unloadAll (hrest : Draining hw ∅ ∅ s₁) (hempty : s₁.loaderCmdMem = [])
    (hall : UnloadAll (s₁.createShadowBlockListByDbId d) s₁ s₂)
    (hpost : UnloadedPost hw {b | b ∈ s₁.createShadowBlockListByDbId d}
      (s₁.createShadowBlockListByDbId d) s₁ s₂) {d' : ℕ} (hor : d' = d ∨ Gone s₁ d') :
    Gone s₂ d' := by
  intro b hb hbd
  obtain ⟨hmem, hb⟩ := unloaded_valid hempty hpost hb
  rw [(hall.sameView.entry_eq b).2.2] at hbd
  rcases hor with rfl | hgone
  · exact hmem (mem_blockList.mpr ⟨(hrest.inv.placed.valid_lt b hb).1, hb, hbd⟩)
  · refine hgone b ?_ hbd
    rw [settled_of_nil hempty]
    exact hb

end Unloaded

theorem unload (hE : ∀ e, ResourceHalt e → E e) (h : Draining hw U ∅ s) :
    Outcome (fun r ↦ Left hw ∅ s r.2 ∧ (Accepted r.1 → Gone r.2 d)) E
      (nlmDeviceUnloadDatabase hw device d s) := by
  unfold nlmDeviceUnloadDatabase
  cases hg : loaderGuard device s with
  | some status =>
    exact ⟨.refl h _,
      fun hr ↦ (hr.elim (loaderGuard_ne_ok hg) (loaderGuard_ne_inProgress hg)).elim⟩
  | none =>
    simp only
    by_cases hd : nlmMaxDatabaseId < d
    · rw [if_pos hd]
      exact ⟨.refl h _, fun hr ↦ by rcases hr with hr | hr <;> cases hr⟩
    rw [if_neg hd]
    refine Outcome.bind (h.exec hE hg) ?_
    rintro ⟨status, s₁⟩ ⟨hs₁, hlater, hg₁, hnil⟩
    simp only
    split
    · exact ⟨.of_later h _ hlater hs₁.inv, fun hr ↦ by rcases hr with hr | hr <;> cases hr⟩
    rename_i hne
    have hempty := hnil hne
    have hrest := hs₁.settle hempty
    split
    · exact ⟨.of_later h _ hlater hs₁.inv, fun hr ↦ by rcases hr with hr | hr <;> cases hr⟩
    have hnodup : (s₁.createShadowBlockListByDbId d).Nodup := s₁.blockList_nodup d
    have hU : Inv hw {b | b ∈ s₁.createShadowBlockListByDbId d} s₁ :=
      hrest.inv.mono (Set.empty_subset _)
    have hclones : ∀ b, s₁.settled.clones b = s₁.clones b :=
      fun b ↦ by rw [settled_of_nil hempty]
    have hlt : ∀ b ∈ s₁.createShadowBlockListByDbId d, b < 16 := fun b hb ↦
      ((mem_blockList.mp hb).1.trans_le hrest.inv.placed.blocks_le).trans (by decide)
    refine Outcome.bind (unloadAll_outcome hU hnodup
      (fun b hb ↦ ⟨hb, hclones b, hlt b hb⟩) fun _ ↦ hE _ (.inr (.inl rfl))) ?_
    intro s₂ hall
    have hpost := hall.post hU hnodup fun b hb ↦ ⟨hb, hclones b⟩
    have hg₂ : loaderGuard device s₂ = none := (loaderGuard_congr hall.config_eq.1).trans hg₁
    have hgone : ∀ d', (d' = d ∨ Gone s₁ d') → Gone s₂ d' :=
      fun d' ↦ gone_of_unloadAll hrest hempty hall hpost
    refine ((hrest.unloadAll hempty hall hpost).finish hE hg₂).imp ?_
    rintro r ⟨-, hr, hlater₂⟩
    exact ⟨⟨⟨_, hr⟩, fun d' _ hgone' ↦ hlater₂.gone (hgone d' (.inr (hlater.gone hgone')))⟩,
      fun _ ↦ hlater₂.gone (hgone d (.inl rfl))⟩

theorem setParamCopyCnt (hE : ∀ e, ResourceHalt e → E e) (h : Draining hw U ∅ s)
    (numCopies : ℕ) :
    Outcome (fun r ↦ Left hw ∅ s r.2) E
      (PhyDevice.setParamCopyCnt hw device d numCopies s) := by
  unfold PhyDevice.setParamCopyCnt
  split
  · exact .refl h _
  split_ifs with hd hrange
  · exact .refl h _
  · exact .refl h _
  have hcall : ∀ (status : NlmStatus) (s₁ : PhyDevice), Draining hw U ∅ s₁ → Later s s₁ →
      (status ≠ .loaderInProgress → loaderGuard device s₁ = none → s₁.loaderCmdMem = []) →
      Outcome (fun r ↦ Left hw ∅ s r.2) E
        (if status = .loaderInProgress then
          (Except.ok (CallResult.ofStatus .busy, s₁) : Except Halt _)
        else nlmDeviceDatabaseSetNumCopies hw device d numCopies s₁ >>= fun r ↦
          .ok (⟨.ok, some r.1, none⟩, r.2)) := by
    intro status s₁ hs₁ hlater hnil
    split
    · exact .of_later h _ hlater hs₁.inv
    rename_i hne
    cases hg : loaderGuard device s₁ with
    | some status' =>
      have heq : nlmDeviceDatabaseSetNumCopies hw device d numCopies s₁ = .ok (status', s₁) := by
        unfold nlmDeviceDatabaseSetNumCopies
        rw [hg]
      rw [heq]
      exact .of_later h _ hlater hs₁.inv
    | none =>
      have hempty := hnil hne hg
      refine Outcome.bind ((hs₁.settle hempty).setNumCopies hE (by omega) fun b _ ↦ ?_) ?_
      · intro cmd hcmd
        rw [hempty] at hcmd
        exact absurd hcmd List.not_mem_nil
      · rintro r (⟨hsame, -⟩ | ⟨-, hset⟩)
        · change Left hw ∅ s r.2
          rw [hsame]
          exact .of_later h _ hlater hs₁.inv
        · exact ⟨⟨_, hset.draining.mono Set.sdiff_subset⟩,
            fun d' _ hgone ↦ hset.gone (hlater.gone hgone)⟩
  cases hg : loaderGuard device s with
  | some status =>
    rw [exec_of_guard hg]
    exact hcall status s h (.refl s) fun _ hnone ↦ absurd (hg.symm.trans hnone)
      (Option.some_ne_none status)
  | none =>
    refine Outcome.bind (h.exec hE hg) ?_
    rintro ⟨status, s₁⟩ ⟨hs₁, hlater, -, hnil⟩
    exact hcall status s₁ hs₁ hlater fun hne _ ↦ hnil hne

end Draining

end PhyDevice

end NetL7.Loader
