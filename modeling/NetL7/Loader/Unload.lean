import NetL7.Loader.Resize

/-!
# Unloading

`nlm_device_unload_database` takes the clones of a block in the order of the
array blocks, whatever their copy numbers, and then queues the deletion of the
shadow block. By the time the deletion is executed no clone is left.
-/

namespace NetL7.Loader

open NetL7.Lib LoaderTables

namespace PhyDevice

variable {hw : Hw} {U : Set ℕ} {s s' : PhyDevice} {b : ℕ} {bs js : List ℕ} {E : Halt → Prop}

/-- The listed clones of `b` have been taken out of service. -/
inductive Taken (b : ℕ) : List ℕ → PhyDevice → PhyDevice → Prop
  | nil (s : PhyDevice) : Taken b [] s s
  | cons {j : ℕ} {js : List ℕ} {s s' : PhyDevice} (hmem : j ∈ s.clones b)
      (h : Taken b js (s.removal j b) s') : Taken b (j :: js) s s'

/-- What taking clones out of service keeps and changes. -/
structure TakenPost (hw : Hw) (U : Set ℕ) (b : ℕ) (js : List ℕ) (s s' : PhyDevice) : Prop where
  inv : Inv hw U s'
  clones_eq : ∀ x, s'.settled.clones x =
    if x = b then s.settled.clones b \ js.toFinset else s.settled.clones x
  copyNumber_eq : s'.settled.arrayBlockCopyNumber = s.settled.arrayBlockCopyNumber
  valid_eq : ∀ x, (s'.settled.databaseShadowMap x).valid =
    (s.settled.databaseShadowMap x).valid

namespace Taken

theorem snoc {j : ℕ} (h : Taken b js s s') (hmem : j ∈ s'.clones b) :
    Taken b (js ++ [j]) s (s'.removal j b) := by
  induction h with
  | nil => exact .cons hmem (.nil _)
  | cons hmem' _ ih => exact .cons hmem' (ih hmem)

theorem length_queue (h : Taken b js s s') :
    s'.loaderCmdMem.length = s.loaderCmdMem.length + 4 * js.length := by
  induction h with
  | nil => simp
  | cons _ _ ih =>
    rw [ih, removal_queue, List.length_append, List.length_cons]
    simp only [decloneCmds, List.length_cons, List.length_nil]
    omega

theorem sameView (h : Taken b js s s') : s.SameView s'.toLoaderTables := by
  induction h with
  | nil => exact .refl _
  | cons _ _ ih => exact (removal_sameView _ _ _).trans ih

theorem config_eq (h : Taken b js s s') :
    s'.fmsRingId = s.fmsRingId ∧ s'.databaseLoadPolicy = s.databaseLoadPolicy ∧
      s'.numRowsPerFmsBlock = s.numRowsPerFmsBlock := by
  induction h with
  | nil => exact ⟨rfl, rfl, rfl⟩
  | cons _ _ ih => exact ih

theorem post (h : Taken b js s s') (hs : Inv hw U s) (hb : b ∈ U) (hnodup : js.Nodup)
    (hjs : ∀ j ∈ js, j ∈ s.settled.clones b) : TakenPost hw U b js s s' := by
  induction h with
  | nil => exact ⟨hs, fun x ↦ by by_cases hx : x = b <;> simp [hx], rfl, fun _ ↦ rfl⟩
  | @cons j js s s' hmem _ ih =>
    obtain ⟨hj, hnodup⟩ := List.nodup_cons.mp hnodup
    have hjS := hjs j (by simp)
    obtain ⟨hinv, hsame⟩ := hs.removal hjS fun hnot ↦ absurd hb hnot
    have hview := SameView.of_sameButGidBmap hsame
    have hvj : s.settled.arrayVirtIds j = b := (mem_clones.mp hjS).2.2
    have hclones : ∀ x, (s.removal j b).settled.clones x =
        if x = b then (s.settled.clones b).erase j else s.settled.clones x := by
      intro x
      rw [hview.clones_eq, clones_removeClone hvj]
    have hpost := ih hinv hnodup fun x hx ↦ by
      rw [hclones, if_pos rfl, Finset.mem_erase]
      exact ⟨fun h ↦ hj (h ▸ hx), hjs x (by simp [hx])⟩
    refine ⟨hpost.inv, fun x ↦ ?_, ?_, fun x ↦ ?_⟩
    · rw [hpost.clones_eq]
      by_cases hx : x = b
      · rw [if_pos hx, if_pos hx, hclones, if_pos rfl, List.toFinset_cons,
          Finset.sdiff_insert, Finset.erase_sdiff_comm]
      · rw [if_neg hx, if_neg hx, hclones, if_neg hx]
    · rw [hpost.copyNumber_eq, hview.copyNumber_eq, removeClone_copyNumber]
    · rw [hpost.valid_eq, (hview.entry_eq x).1, settled_removeClone_valid]

end Taken

/-- The clones of `b` in the order of the array blocks. -/
def cloneList (t : LoaderTables) (b : ℕ) : List ℕ :=
  (List.range t.numFmsBlocks).filter fun j ↦
    decide (t.arrayBlockMapCurrent j = true ∧ b = t.arrayVirtIds j)

theorem mem_cloneList {t : LoaderTables} {j : ℕ} : j ∈ cloneList t b ↔ j ∈ t.clones b := by
  simp [cloneList, eq_comm (a := b)]

theorem cloneList_nodup (t : LoaderTables) (b : ℕ) : (cloneList t b).Nodup :=
  List.nodup_range.filter _

theorem cloneList_toFinset (t : LoaderTables) (b : ℕ) :
    (cloneList t b).toFinset = t.clones b := by
  ext j
  rw [List.mem_toFinset, mem_cloneList]

theorem cloneList_length (t : LoaderTables) (b : ℕ) :
    (cloneList t b).length = (t.clones b).card := by
  rw [← cloneList_toFinset, List.toFinset_card_of_nodup (cloneList_nodup t b)]

/-- The command that deletes a shadow block. -/
def shadowDeleteCmd (b : ℕ) : LoaderCommand := ⟨.shadowDelete, 0, b⟩

theorem unloadBlock_outcome (hN : s.numFmsBlocks ≤ totalFamosBlocks) (hb : b < 16)
    (hE : nlmFmsLoaderCmdBuffSize ≤
        s.loaderCmdMem.length + (4 * (cloneList s.toLoaderTables b).length + 1) →
      E .commandFifoOverrun) :
    Outcome (fun s'' ↦ ∃ s', Taken b (cloneList s.toLoaderTables b) s s' ∧
      s'' = s'.enqueue [shadowDeleteCmd b]) E (unloadBlock s b) := by
  let cond : ℕ → Prop := fun j ↦ s.arrayBlockMapCurrent j = true ∧ b = s.arrayVirtIds j
  let I : List ℕ → PhyDevice → Prop := fun rest s' ↦ (∀ j ∈ rest, j < s.numFmsBlocks) ∧
    ∃ taken, cloneList s.toLoaderTables b = taken ++ rest.filter (fun j ↦ decide (cond j)) ∧
      Taken b taken s s'
  unfold unloadBlock
  refine Outcome.bind (Outcome.foldlM I ?_ ⟨by simp, [], rfl, .nil s⟩) ?_
  · rintro j rest s' ⟨hrest, taken, hsplit, htaken⟩
    have hview := htaken.sameView
    have hlen := htaken.length_queue
    have htotal := congrArg List.length hsplit
    have hrest' : ∀ x ∈ rest, x < s.numFmsBlocks := fun x hx ↦ hrest x (by simp [hx])
    have hjN := hrest j (by simp)
    rw [hview.current_eq, hview.virtIds_eq]
    by_cases hj : cond j
    · rw [if_pos hj]
      rw [List.filter_cons_of_pos (by simpa using hj)] at hsplit htotal
      rw [List.length_append, List.length_cons] at htotal
      have hmem : j ∈ s'.clones b := by
        rw [hview.clones_eq]
        exact mem_clones.mpr ⟨hjN, hj.1, hj.2.symm⟩
      refine (declone_outcome (E := E) ((hjN.trans_le hN).trans (by decide)) hb
        fun hfull ↦ hE ?_).imp ?_
      · have hfull : nlmFmsLoaderCmdBuffSize ≤ s'.loaderCmdMem.length + 4 := hfull
        omega
      · rintro s'' rfl
        exact ⟨hrest', taken ++ [j], by rw [hsplit, List.append_assoc]; rfl,
          htaken.snoc hmem⟩
    · rw [if_neg hj]
      rw [List.filter_cons_of_neg (by simpa using hj)] at hsplit
      exact ⟨hrest', taken, hsplit, htaken⟩
  · rintro s' ⟨-, taken, hsplit, htaken⟩
    rw [List.filter_nil, List.append_nil] at hsplit
    have hlen := htaken.length_queue
    rw [hsplit] at hE ⊢
    refine (cmdAdd_outcome s' _ fun hfull ↦ hE (by omega)).imp ?_
    rintro s'' rfl
    refine ⟨s', htaken, ?_⟩
    rw [pack_of_lt (by decide) hb]
    rfl

/-- The listed shadow blocks have been unloaded. -/
inductive UnloadAll : List ℕ → PhyDevice → PhyDevice → Prop
  | nil (s : PhyDevice) : UnloadAll [] s s
  | cons {b : ℕ} {bs : List ℕ} {s s' s'' : PhyDevice}
      (h : Taken b (cloneList s.toLoaderTables b) s s')
      (h' : UnloadAll bs (s'.enqueue [shadowDeleteCmd b]) s'') : UnloadAll (b :: bs) s s''

/-- What unloading keeps and changes. -/
structure UnloadedPost (hw : Hw) (U : Set ℕ) (bs : List ℕ) (s s' : PhyDevice) : Prop where
  inv : Inv hw U s'
  clones_eq : ∀ x, s'.settled.clones x = if x ∈ bs then ∅ else s.settled.clones x
  copyNumber_eq : s'.settled.arrayBlockCopyNumber = s.settled.arrayBlockCopyNumber
  valid_eq : ∀ x, (s'.settled.databaseShadowMap x).valid =
    if x ∈ bs then false else (s.settled.databaseShadowMap x).valid

theorem settled_shadowDelete (s : PhyDevice) (b x : ℕ) :
    ((s.enqueue [shadowDeleteCmd b]).settled.databaseShadowMap x).valid =
        (if x = b then false else (s.settled.databaseShadowMap x).valid) ∧
      ((s.enqueue [shadowDeleteCmd b]).settled.databaseShadowMap x).noClonesCurrent =
        (s.settled.databaseShadowMap x).noClonesCurrent := by
  rw [settled_enqueue]
  by_cases hx : x = b <;> simp [shadowDeleteCmd, execute, setShadow, hx]

theorem Inv.shadowDelete (hs : Inv hw U s)
    (hcur : (s.settled.databaseShadowMap b).noClonesCurrent = 0) :
    Inv hw U (s.enqueue [shadowDeleteCmd b]) := by
  refine hs.enqueue hcur ⟨by simp [shadowDeleteCmd], by simp [shadowDeleteCmd],
    by simp [shadowDeleteCmd]⟩ rfl fun x ↦ ?_
  have hsettled := (settled_shadowDelete s b x).2
  rwa [settled_enqueue] at hsettled

namespace UnloadAll

theorem sameView (h : UnloadAll bs s s') : s.SameView s'.toLoaderTables := by
  induction h with
  | nil => exact .refl _
  | cons h _ ih => exact h.sameView.trans ih

theorem config_eq (h : UnloadAll bs s s') :
    s'.fmsRingId = s.fmsRingId ∧ s'.databaseLoadPolicy = s.databaseLoadPolicy ∧
      s'.numRowsPerFmsBlock = s.numRowsPerFmsBlock := by
  induction h with
  | nil => exact ⟨rfl, rfl, rfl⟩
  | cons h _ ih =>
    obtain ⟨hring, hpolicy, hrows⟩ := h.config_eq
    exact ⟨ih.1.trans hring, ih.2.1.trans hpolicy, ih.2.2.trans hrows⟩

theorem post (h : UnloadAll bs s s') (hs : Inv hw U s) (hnodup : bs.Nodup)
    (hbs : ∀ b ∈ bs, b ∈ U ∧ s.settled.clones b = s.clones b) : UnloadedPost hw U bs s s' := by
  induction h with
  | nil => exact ⟨hs, fun _ ↦ rfl, rfl, fun _ ↦ rfl⟩
  | @cons b bs s s' s'' h _ ih =>
    obtain ⟨hb, hnodup⟩ := List.nodup_cons.mp hnodup
    obtain ⟨hbU, hbeq⟩ := hbs b (by simp)
    have htaken := h.post hs hbU (cloneList_nodup _ _) fun j hj ↦ by
      rw [hbeq]
      exact mem_cloneList.mp hj
    have hempty : s'.settled.clones b = ∅ := by
      rw [htaken.clones_eq, if_pos rfl, hbeq, cloneList_toFinset, Finset.sdiff_self]
    have hcur : (s'.settled.databaseShadowMap b).noClonesCurrent = 0 := by
      rw [← htaken.inv.settled_placed.card_clones b, hempty, Finset.card_empty]
    have hclones : ∀ x, (s'.enqueue [shadowDeleteCmd b]).settled.clones x =
        s'.settled.clones x := by
      intro x
      rw [settled_enqueue]
      rfl
    have hpost := ih (htaken.inv.shadowDelete hcur) hnodup fun x hx ↦ by
      have hne : x ≠ b := fun h ↦ hb (h ▸ hx)
      refine ⟨(hbs x (by simp [hx])).1, ?_⟩
      rw [hclones, htaken.clones_eq, if_neg hne, (hbs x (by simp [hx])).2]
      exact (h.sameView.clones_eq x).symm
    refine ⟨hpost.inv, fun x ↦ ?_, ?_, fun x ↦ ?_⟩
    · rw [hpost.clones_eq, hclones]
      by_cases hx : x = b
      · subst hx
        simp [hempty]
      · simp [htaken.clones_eq, hx]
    · rw [hpost.copyNumber_eq, settled_enqueue]
      exact htaken.copyNumber_eq
    · rw [hpost.valid_eq, (settled_shadowDelete s' b x).1, htaken.valid_eq]
      by_cases hx : x = b <;> simp [hx]

end UnloadAll

/-- An upper bound on the number of commands that unloading queues. -/
def unloadCost (t : LoaderTables) (bs : List ℕ) : ℕ :=
  (bs.map fun b ↦ 4 * (t.clones b).card + 1).sum

theorem unloadAll_outcome (hs : Inv hw U s) (hnodup : bs.Nodup)
    (hbs : ∀ b ∈ bs, b ∈ U ∧ s.settled.clones b = s.clones b ∧ b < 16)
    (hE : nlmFmsLoaderCmdBuffSize ≤ s.loaderCmdMem.length + unloadCost s.toLoaderTables bs →
      E .commandFifoOverrun) :
    Outcome (UnloadAll bs s) E (bs.foldlM unloadBlock s) := by
  induction bs generalizing s with
  | nil => exact .nil s
  | cons b bs ih =>
    obtain ⟨hb, hnodup'⟩ := List.nodup_cons.mp hnodup
    have hcost : unloadCost s.toLoaderTables (b :: bs) =
        4 * (cloneList s.toLoaderTables b).length + 1 + unloadCost s.toLoaderTables bs := by
      simp [unloadCost, cloneList_length]
    rw [hcost] at hE
    rw [List.foldlM_cons]
    refine Outcome.bind (unloadBlock_outcome hs.placed.blocks_le (hbs b (by simp)).2.2
      fun hfull ↦ hE (by omega)) ?_
    rintro _ ⟨s', htaken, rfl⟩
    have hone : UnloadAll [b] s (s'.enqueue [shadowDeleteCmd b]) := .cons htaken (.nil _)
    have hpost := hone.post hs (by simp) fun x hx ↦ by
      rw [List.mem_singleton.mp hx]
      exact ⟨(hbs b (by simp)).1, (hbs b (by simp)).2.1⟩
    have hview := hone.sameView
    have hlen : (s'.enqueue [shadowDeleteCmd b]).loaderCmdMem.length =
        s.loaderCmdMem.length + (4 * (cloneList s.toLoaderTables b).length + 1) := by
      simp [enqueue, htaken.length_queue, Nat.add_assoc]
    have hcost' : unloadCost (s'.enqueue [shadowDeleteCmd b]).toLoaderTables bs =
        unloadCost s.toLoaderTables bs := by
      simp only [unloadCost, hview.clones_eq]
    refine (ih hpost.inv hnodup' (fun x hx ↦ ?_) fun hfull ↦ hE (by omega)).imp
      fun s'' h ↦ .cons htaken h
    have hne : x ≠ b := fun h ↦ hb (h ▸ hx)
    obtain ⟨hxU, hxeq, hx16⟩ := hbs x (by simp [hx])
    refine ⟨hxU, ?_, hx16⟩
    rw [hpost.clones_eq, if_neg (by simpa using hne), hxeq, hview.clones_eq]

end PhyDevice

end NetL7.Loader
