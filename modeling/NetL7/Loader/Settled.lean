import NetL7.Loader.Clones

/-!
# The settled state

A request changes the targets at once and leaves the rest to queued commands.
The settled tables are the tables once the queue has been executed. On them
every accepted request acts immediately: a clone is added, a clone is removed.
-/

namespace NetL7.Loader

open NetL7.Lib

namespace LoaderTables

/-! ## The eager half of a request -/

/-- The target of array block `j` and the target count of shadow block `b`
change when a request is queued. -/
def reserve (t : LoaderTables) (j : ℕ) (v : Bool) (b : ℕ) (count : ℕ → ℕ) : LoaderTables :=
  (t.setTarget j v).setShadow b fun e ↦ { e with noClonesTarget := count e.noClonesTarget }

section Reserve

variable (t : LoaderTables) (j : ℕ) (v : Bool) (b : ℕ) (count : ℕ → ℕ)

theorem reserve_entry (x : ℕ) :
    ((t.reserve j v b count).databaseShadowMap x).valid = (t.databaseShadowMap x).valid ∧
      ((t.reserve j v b count).databaseShadowMap x).noClonesCurrent =
        (t.databaseShadowMap x).noClonesCurrent ∧
      ((t.reserve j v b count).databaseShadowMap x).dbId = (t.databaseShadowMap x).dbId := by
  by_cases hx : x = b <;> simp [reserve, setShadow, setTarget, hx]

theorem reserve_noClonesTarget (x : ℕ) :
    ((t.reserve j v b count).databaseShadowMap x).noClonesTarget =
      if x = b then count (t.databaseShadowMap b).noClonesTarget
      else (t.databaseShadowMap x).noClonesTarget := by
  by_cases hx : x = b <;> simp [reserve, setShadow, setTarget, hx]

theorem reserve_schedulerAdd (sh a m : ℕ) :
    (t.reserve j v b count).nlmDeviceBlockSchedulerAdd sh a m =
      (t.nlmDeviceBlockSchedulerAdd sh a m).reserve j v b count := by
  unfold nlmDeviceBlockSchedulerAdd
  simp only [(reserve_entry t j v b count sh).2.2]
  exact List.foldl_hom (fun t : LoaderTables ↦ t.reserve j v b count) fun _ _ ↦ rfl

theorem reserve_createShadowBlockList (databaseId : ℕ) :
    (t.reserve j v b count).createShadowBlockListByDbId databaseId =
      t.createShadowBlockListByDbId databaseId := by
  unfold createShadowBlockListByDbId
  refine List.filter_congr fun x _ ↦ ?_
  rw [(reserve_entry t j v b count x).1, (reserve_entry t j v b count x).2.2]

theorem reserve_configure (cmd : LoaderCommand) :
    (t.reserve j v b count).gidBmapConfigure cmd =
      (t.gidBmapConfigure cmd).reserve j v b count := by
  unfold gidBmapConfigure
  simp only [(reserve_entry t j v b count _).2.2, reserve_createShadowBlockList]
  refine List.foldl_hom (fun t : LoaderTables ↦ t.reserve j v b count) fun t' a ↦ ?_
  refine List.foldl_hom (fun t : LoaderTables ↦ t.reserve j v b count) fun t' blk ↦ ?_
  simp only [(reserve_entry t' j v b count blk).2.1, reserve_schedulerAdd]
  exact (apply_ite (fun t : LoaderTables ↦ t.reserve j v b count) _ _ _).symm

theorem reserve_setShadow (sh : ℕ) {f : ShadowMapEntry → ShadowMapEntry}
    (hf : ∀ e, f { e with noClonesTarget := count e.noClonesTarget } =
      { f e with noClonesTarget := count (f e).noClonesTarget }) :
    (t.reserve j v b count).setShadow sh f = (t.setShadow sh f).reserve j v b count := by
  by_cases hsh : sh = b
  · subst hsh
    simp [reserve, setShadow, setTarget, hf]
  · simp only [reserve, setShadow, setTarget, Function.update_of_ne hsh,
      Function.update_of_ne (Ne.symm hsh), Function.update_comm hsh]

theorem reserve_execute (cmd : LoaderCommand) :
    (t.reserve j v b count).execute cmd = (t.execute cmd).reserve j v b count := by
  obtain ⟨opcode, a, sh⟩ := cmd
  cases opcode with
  | arrayAdd =>
    simp only [execute, (reserve_entry t j v b count sh).2.1]
    exact reserve_setShadow ((t.setCurrent a true).setCopyNumber a _) j v b count sh
      fun _ ↦ rfl
  | arrayDelete =>
    simp only [execute]
    exact reserve_setShadow (t.setCurrent a false) j v b count sh fun _ ↦ rfl
  | shadowDelete =>
    simp only [execute]
    exact reserve_setShadow t j v b count sh fun _ ↦ rfl
  | gidBmapConfigure => exact reserve_configure t j v b count _
  | _ => rfl

end Reserve

/-- The deletion from the group bitmap is moved past every command but the bulk
update. -/
theorem schedulerDelete_execute (t : LoaderTables) (sh a m : ℕ) {cmd : LoaderCommand}
    (hop : cmd.opcode ≠ .gidBmapConfigure) :
    (t.nlmDeviceBlockSchedulerDelete sh a m).execute cmd =
      (t.execute cmd).nlmDeviceBlockSchedulerDelete sh a m := by
  have hdb : ((t.execute cmd).databaseShadowMap sh).dbId = (t.databaseShadowMap sh).dbId := by
    obtain ⟨opcode, a', sh'⟩ := cmd
    by_cases hsh : sh = sh' <;> cases opcode <;>
      simp_all [execute, setShadow, setCopyNumber, setCurrent, setVirtId]
  have hgroups : (t.execute cmd).blockGroupList sh = t.blockGroupList sh := by
    obtain ⟨opcode, a', sh'⟩ := cmd
    cases opcode <;> first | rfl | exact absurd rfl hop
  unfold nlmDeviceBlockSchedulerDelete
  simp only [hdb, hgroups]
  refine (List.foldl_hom (fun t : LoaderTables ↦ t.execute cmd) fun t' g ↦ ?_).symm
  obtain ⟨opcode, a', sh'⟩ := cmd
  cases opcode <;> first | rfl | exact absurd rfl hop

/-! ## Flushing the queue -/

/-- The tables once the commands have been executed. -/
abbrev flushed (t : LoaderTables) (q : List LoaderCommand) : LoaderTables :=
  flush (fun cmd t ↦ t.execute cmd) q t

/-- Each command finds what it needs when its turn comes. -/
abbrev Legal (U : Set ℕ) (q : List LoaderCommand) (t : LoaderTables) : Prop :=
  Lib.Legal (fun cmd t ↦ LoaderTables.execute t cmd) (Pre U) q t

variable {U : Set ℕ} {t t' : LoaderTables} {q : List LoaderCommand}

theorem execute_frame (t : LoaderTables) (cmd : LoaderCommand) :
    (t.execute cmd).numFmsBlocks = t.numFmsBlocks ∧
      (t.execute cmd).arrayBlockMapTarget = t.arrayBlockMapTarget ∧
      (t.execute cmd).blockGroupList = t.blockGroupList ∧
      ∀ b, ((t.execute cmd).databaseShadowMap b).noClonesTarget =
          (t.databaseShadowMap b).noClonesTarget ∧
        ((t.execute cmd).databaseShadowMap b).dbId = (t.databaseShadowMap b).dbId := by
  obtain ⟨opcode, a, sh⟩ := cmd
  cases opcode with
  | gidBmapConfigure =>
    obtain ⟨shadow, hw, heq⟩ := sameButGidBmap_configure t ⟨.gidBmapConfigure, a, sh⟩
    simp only [execute, heq]
    exact ⟨rfl, rfl, rfl, fun _ ↦ ⟨rfl, rfl⟩⟩
  | arrayAdd =>
    refine ⟨rfl, rfl, rfl, fun b ↦ ?_⟩
    by_cases hb : b = sh <;> simp [execute, setShadow, setCopyNumber, setCurrent, hb]
  | arrayDelete =>
    refine ⟨rfl, rfl, rfl, fun b ↦ ?_⟩
    by_cases hb : b = sh <;> simp [execute, setShadow, setCurrent, hb]
  | shadowDelete =>
    refine ⟨rfl, rfl, rfl, fun b ↦ ?_⟩
    by_cases hb : b = sh <;> simp [execute, setShadow, hb]
  | _ => exact ⟨rfl, rfl, rfl, fun _ ↦ ⟨rfl, rfl⟩⟩

@[simp] theorem flushed_numFmsBlocks (t : LoaderTables) (q : List LoaderCommand) :
    (t.flushed q).numFmsBlocks = t.numFmsBlocks :=
  flush_frame _ (fun cmd _ t ↦ (t.execute_frame cmd).1) t

@[simp] theorem flushed_target (t : LoaderTables) (q : List LoaderCommand) :
    (t.flushed q).arrayBlockMapTarget = t.arrayBlockMapTarget :=
  flush_frame _ (fun cmd _ t ↦ (t.execute_frame cmd).2.1) t

@[simp] theorem flushed_blockGroupList (t : LoaderTables) (q : List LoaderCommand) :
    (t.flushed q).blockGroupList = t.blockGroupList :=
  flush_frame _ (fun cmd _ t ↦ (t.execute_frame cmd).2.2.1) t

@[simp] theorem flushed_noClonesTarget (t : LoaderTables) (q : List LoaderCommand) (b : ℕ) :
    ((t.flushed q).databaseShadowMap b).noClonesTarget =
      (t.databaseShadowMap b).noClonesTarget :=
  flush_frame _ (p := fun t ↦ (t.databaseShadowMap b).noClonesTarget)
    (fun cmd _ t ↦ ((t.execute_frame cmd).2.2.2 b).1) t

@[simp] theorem flushed_dbId (t : LoaderTables) (q : List LoaderCommand) (b : ℕ) :
    ((t.flushed q).databaseShadowMap b).dbId = (t.databaseShadowMap b).dbId :=
  flush_frame _ (p := fun t ↦ (t.databaseShadowMap b).dbId)
    (fun cmd _ t ↦ ((t.execute_frame cmd).2.2.2 b).2) t

theorem Placed.flushed (h : Placed U t) (hq : Legal U q t) : Placed U (t.flushed q) := by
  induction q generalizing t with
  | nil => exact h
  | cons cmd q ih => exact ih (h.execute hq.1) hq.2

theorem SameButGidBmap.flushed (h : t.SameButGidBmap t') (q : List LoaderCommand) :
    (t.flushed q).SameButGidBmap (t'.flushed q) := by
  induction q generalizing t t' with
  | nil => exact h
  | cons cmd q ih => exact ih (h.execute cmd)

theorem SameButGidBmap.legal (h : t.SameButGidBmap t') (hq : Legal U q t) :
    Legal U q t' := by
  induction q generalizing t t' with
  | nil => trivial
  | cons cmd q ih => exact ⟨h.pre hq.1, ih (h.execute cmd) hq.2⟩

theorem Legal.mono {U' : Set ℕ} (hU : U ⊆ U') (hq : Legal U q t) : Legal U' q t := by
  induction q generalizing t with
  | nil => trivial
  | cons cmd q ih =>
    refine ⟨?_, ih hq.2⟩
    have hpre : Pre U cmd t := hq.1
    obtain ⟨opcode, a, sh⟩ := cmd
    cases opcode <;> first | exact hpre | exact ⟨hpre.1, fun hsh ↦ hpre.2 fun h ↦ hsh (hU h)⟩

theorem reserve_flushed (t : LoaderTables) (j : ℕ) (v : Bool) (b : ℕ) (count : ℕ → ℕ)
    (q : List LoaderCommand) :
    (t.reserve j v b count).flushed q = (t.flushed q).reserve j v b count :=
  flush_comm _ (f := fun t ↦ t.reserve j v b count)
    (fun cmd _ t ↦ t.reserve_execute j v b count cmd) t

theorem pre_reserve {cmd : LoaderCommand} {j : ℕ} {v : Bool} {b : ℕ} {count : ℕ → ℕ}
    (h : Pre U cmd t) : Pre U cmd (t.reserve j v b count) := by
  obtain ⟨opcode, a, sh⟩ := cmd
  obtain ⟨hvalid, hcur, -⟩ := t.reserve_entry j v b count sh
  cases opcode with
  | arrayAdd => exact ⟨h.1, h.2.1, h.2.2.1, hvalid.trans h.2.2.2⟩
  | arrayDelete => exact ⟨h.1, fun hsh ↦ (h.2 hsh).trans hcur.symm⟩
  | shadowDelete => exact hcur.trans h
  | _ => exact h

theorem Legal.reserve (hq : Legal U q t) (j : ℕ) (v : Bool) (b : ℕ) (count : ℕ → ℕ) :
    Legal U q (t.reserve j v b count) :=
  legal_comm (fun cmd _ t ↦ t.reserve_execute j v b count cmd) (fun _ _ _ ↦ pre_reserve) hq

theorem Placed.reserve (h : Placed U t) (j : ℕ) (v : Bool) (b : ℕ) (count : ℕ → ℕ) :
    Placed U (t.reserve j v b count) := by
  have hentry := t.reserve_entry j v b count
  refine ⟨h.blocks_le, fun x hx ↦ ?_, fun a ha ↦ ?_, fun x ↦ ?_, fun x hx ↦ ?_⟩
  · rw [(hentry x).1] at hx
    rw [(hentry x).2.2]
    exact h.valid_lt x hx
  · exact ⟨(h.owner_valid a ha).1, (hentry _).1.trans (h.owner_valid a ha).2⟩
  · exact (h.card_clones x).trans (hentry x).2.1.symm
  · rw [(hentry x).2.1]
    exact h.numbered x hx

end LoaderTables

end NetL7.Loader
