import NetL7.Loader.Shrink

/-!
# Making clones

Growth proceeds in rounds. A round requests one clone of each block of the
database on the first array blocks without a target, and then the bulk update
of the group bitmap.
-/

namespace NetL7.Loader

open NetL7.Lib LoaderTables

namespace LoaderTables

theorem countP_range_eq_card (n : ℕ) (p : ℕ → Bool) :
    (List.range n).countP p = ((Finset.range n).filter fun i ↦ p i = true).card := by
  have hset : (Finset.range n).filter (fun i ↦ p i = true) =
      ((List.range n).filter p).toFinset := by
    ext i
    simp
  rw [hset, List.toFinset_card_of_nodup (List.nodup_range.filter p),
    List.countP_eq_length_filter]

theorem arrayBlocksFree_eq_card (t : LoaderTables) :
    t.arrayBlocksFree =
      ((Finset.range t.numFmsBlocks).filter fun j ↦ t.arrayBlockMapTarget j = false).card := by
  rw [arrayBlocksFree, countP_range_eq_card]
  congr 1
  exact Finset.filter_congr fun j _ ↦ by simp

theorem exists_free {t : LoaderTables} (h : 0 < t.arrayBlocksFree) :
    ∃ j < t.numFmsBlocks, t.arrayBlockMapTarget j = false := by
  rw [arrayBlocksFree_eq_card, Finset.card_pos] at h
  obtain ⟨j, hj⟩ := h
  exact ⟨j, by simpa using Finset.mem_filter.mp hj⟩

theorem arrayBlocksFree_reserve {t : LoaderTables} {j b : ℕ} {count : ℕ → ℕ}
    (hj : j < t.numFmsBlocks) (hfree : t.arrayBlockMapTarget j = false) :
    (t.reserve j true b count).arrayBlocksFree + 1 = t.arrayBlocksFree := by
  rw [arrayBlocksFree_eq_card, arrayBlocksFree_eq_card]
  have hmem : j ∈ (Finset.range t.numFmsBlocks).filter
      fun j ↦ t.arrayBlockMapTarget j = false := by simp [hj, hfree]
  rw [← Finset.card_erase_add_one hmem]
  congr 2
  ext x
  rw [Finset.mem_filter, Finset.mem_erase, Finset.mem_filter]
  by_cases hx : x = j
  · subst hx
    simp [reserve, setShadow, setTarget]
  · simp [reserve, setShadow, setTarget, hx]

end LoaderTables

namespace PhyDevice

variable {hw : Hw} {U : Set ℕ} {s s' s'' : PhyDevice} {b : ℕ} {bs : List ℕ} {n : ℕ}
  {E : Halt → Prop}

/-- One clone of each block of the list has been requested. -/
inductive Clonings : List ℕ → PhyDevice → PhyDevice → Prop
  | nil (s : PhyDevice) : Clonings [] s s
  | cons {b : ℕ} {bs : List ℕ} {s s' : PhyDevice} {j : ℕ} (hj : j < s.numFmsBlocks)
      (hfree : s.arrayBlockMapTarget j = false) (h : Clonings bs (s.cloned j b) s') :
      Clonings (b :: bs) s s'

theorem cloned_sameView (s : PhyDevice) (j b : ℕ) :
    s.SameView (s.cloned j b).toLoaderTables := SameView.reserve _ _ _ _ _

theorem cloned_noClonesTarget (h : Inv hw U s) (j b x : ℕ) :
    ((s.cloned j b).databaseShadowMap x).noClonesTarget =
      (s.databaseShadowMap x).noClonesTarget + if x = b then 1 else 0 := by
  change ((s.reserve j true b incr8).databaseShadowMap x).noClonesTarget = _
  have hle := noClonesTarget_le h b
  rw [reserve_noClonesTarget]
  by_cases hx : x = b
  · subst hx
    rw [if_pos rfl, if_pos rfl, incr8_of_lt (hle.trans_lt (by decide))]
  · simp [hx]

/-- The settled tables keep valid flags and database ids when a clone is added. -/
theorem settled_cloned_valid (s : PhyDevice) (j b x : ℕ) :
    ((s.cloned j b).settled.databaseShadowMap x).valid =
      (s.settled.databaseShadowMap x).valid := by
  rw [settled_cloned, addClone_entry]
  by_cases hx : x = b <;> simp [hx]

/-- What a sequence of clonings keeps and changes. -/
structure ClonedPost (hw : Hw) (U : Set ℕ) (bs : List ℕ) (s s' : PhyDevice) : Prop where
  inv : Inv hw U s'
  valid_eq : ∀ x, (s'.settled.databaseShadowMap x).valid =
    (s.settled.databaseShadowMap x).valid
  target_eq : ∀ x, (s'.databaseShadowMap x).noClonesTarget =
    (s.databaseShadowMap x).noClonesTarget + bs.count x
  free_eq : s'.arrayBlocksFree + bs.length = s.arrayBlocksFree
  length_eq : s'.loaderCmdMem.length = s.loaderCmdMem.length + 6 * bs.length

namespace Clonings

theorem sameView (h : Clonings bs s s') : s.SameView s'.toLoaderTables := by
  induction h with
  | nil => exact .refl _
  | cons _ _ _ ih => exact (cloned_sameView _ _ _).trans ih

theorem config_eq (h : Clonings bs s s') :
    s'.fmsRingId = s.fmsRingId ∧ s'.databaseLoadPolicy = s.databaseLoadPolicy ∧
      s'.numRowsPerFmsBlock = s.numRowsPerFmsBlock := by
  induction h with
  | nil => exact ⟨rfl, rfl, rfl⟩
  | cons _ _ _ ih => exact ih

theorem post (h : Clonings bs s s') (hs : Inv hw U s)
    (hvalid : ∀ b ∈ bs, (s.settled.databaseShadowMap b).valid = true) :
    ClonedPost hw U bs s s' := by
  induction h with
  | nil => exact ⟨hs, fun _ ↦ rfl, fun _ ↦ rfl, rfl, rfl⟩
  | @cons b bs s s' j hj hfree _ ih =>
    have hpost := ih (hs.cloned hj hfree (hvalid b (by simp))) fun x hx ↦ by
      rw [settled_cloned_valid]
      exact hvalid x (by simp [hx])
    refine ⟨hpost.inv, fun x ↦ ?_, fun x ↦ ?_, ?_, ?_⟩
    · rw [hpost.valid_eq, settled_cloned_valid]
    · rw [hpost.target_eq, cloned_noClonesTarget hs, List.count_cons]
      by_cases hx : x = b
      · simp [hx]
        omega
      · have hx' : (b == x) = false := by simpa using fun h ↦ hx h.symm
        simp [hx, hx']
    · have hone : (s.cloned j b).arrayBlocksFree + 1 = s.arrayBlocksFree :=
        arrayBlocksFree_reserve hj hfree
      have := hpost.free_eq
      rw [List.length_cons]
      omega
    · have hlen : (s.cloned j b).loaderCmdMem.length = s.loaderCmdMem.length + 6 := by
        simp [cloned, enqueue, mapTables, cloneCmds]
      rw [hpost.length_eq, hlen, List.length_cons]
      omega

end Clonings

theorem clone_all_outcome (hs : Inv hw U s)
    (hvalid : ∀ b ∈ bs, (s.settled.databaseShadowMap b).valid = true)
    (hspace : bs.length ≤ s.arrayBlocksFree)
    (hE : nlmFmsLoaderCmdBuffSize ≤ s.loaderCmdMem.length + 6 * bs.length →
      E .commandFifoOverrun) :
    Outcome (Clonings bs s) E (bs.foldlM nlmDeviceLoaderClone s) := by
  induction bs generalizing s with
  | nil => exact .nil s
  | cons b bs ih =>
    rw [List.foldlM_cons]
    rw [List.length_cons] at hspace hE
    have hb := hvalid b (by simp)
    have hb16 : b < 16 := by
      have hlt := (hs.settled_placed.valid_lt b hb).1
      rw [settled_numFmsBlocks] at hlt
      exact (hlt.trans_le hs.placed.blocks_le).trans (by decide)
    refine Outcome.bind (clone_outcome hs.placed.blocks_le hb16
      (exists_free (by omega)) fun hfull ↦ hE (by omega)) ?_
    rintro s' ⟨j, hj, hfree, rfl⟩
    have hone : (s.cloned j b).arrayBlocksFree + 1 = s.arrayBlocksFree :=
      arrayBlocksFree_reserve hj hfree
    have hlen : (s.cloned j b).loaderCmdMem.length = s.loaderCmdMem.length + 6 := by
      simp [cloned, enqueue, mapTables, cloneCmds]
    refine (ih (hs.cloned hj hfree hb) (fun x hx ↦ ?_) (by omega)
      fun hfull ↦ hE (by omega)).imp fun s'' h ↦ .cons hj hfree h
    rw [settled_cloned_valid]
    exact hvalid x (by simp [hx])

/-! ## Rounds -/

/-- The bulk update queued at the end of a round. -/
def configureCmd (t : LoaderTables) (bs : List ℕ) : LoaderCommand :=
  ⟨.gidBmapConfigure, (t.databaseShadowMap (bs.headD 0)).noClonesTarget, bs.headD 0⟩

/-- `n` rounds of growth of the blocks of a list have been requested. -/
inductive Rounds (bs : List ℕ) : ℕ → PhyDevice → PhyDevice → Prop
  | zero (s : PhyDevice) : Rounds bs 0 s s
  | succ {n : ℕ} {s s' s'' : PhyDevice} (h : Rounds bs n s s') (h' : Clonings bs s' s'') :
      Rounds bs (n + 1) s (s''.enqueue [configureCmd s''.toLoaderTables bs])

theorem Inv.configure (h : Inv hw U s) {cmd : LoaderCommand}
    (hop : cmd.opcode = .gidBmapConfigure) :
    Inv hw U (s.enqueue [cmd]) ∧ s.settled.SameButGidBmap (s.enqueue [cmd]).settled := by
  obtain ⟨opcode, a, sh⟩ := cmd
  subst hop
  have hsame := sameButGidBmap_configure s.settled ⟨.gidBmapConfigure, a, sh⟩
  have hview := SameView.of_sameButGidBmap hsame
  refine ⟨h.enqueue trivial ⟨by simp, by simp, by simp⟩ hview.current_eq fun b ↦
    (hview.entry_eq b).2.1, ?_⟩
  rw [settled_enqueue]
  exact hsame

/-- What rounds of growth keep and change. -/
structure GrownPost (hw : Hw) (U : Set ℕ) (bs : List ℕ) (n : ℕ) (s s' : PhyDevice) : Prop where
  inv : Inv hw U s'
  valid_eq : ∀ x, (s'.settled.databaseShadowMap x).valid =
    (s.settled.databaseShadowMap x).valid
  target_eq : ∀ x, (s'.databaseShadowMap x).noClonesTarget =
    (s.databaseShadowMap x).noClonesTarget + n * bs.count x
  free_eq : s'.arrayBlocksFree + n * bs.length = s.arrayBlocksFree
  length_eq : s'.loaderCmdMem.length = s.loaderCmdMem.length + n * (6 * bs.length + 1)

namespace Rounds

theorem sameView (h : Rounds bs n s s') : s.SameView s'.toLoaderTables := by
  induction h with
  | zero => exact .refl _
  | succ _ h' ih => exact ih.trans h'.sameView

theorem config_eq (h : Rounds bs n s s') :
    s'.fmsRingId = s.fmsRingId ∧ s'.databaseLoadPolicy = s.databaseLoadPolicy ∧
      s'.numRowsPerFmsBlock = s.numRowsPerFmsBlock := by
  induction h with
  | zero => exact ⟨rfl, rfl, rfl⟩
  | succ _ h' ih =>
    obtain ⟨hring, hpolicy, hrows⟩ := h'.config_eq
    exact ⟨hring.trans ih.1, hpolicy.trans ih.2.1, hrows.trans ih.2.2⟩

theorem post (h : Rounds bs n s s') (hs : Inv hw U s)
    (hvalid : ∀ b ∈ bs, (s.settled.databaseShadowMap b).valid = true) :
    GrownPost hw U bs n s s' := by
  induction h with
  | zero => exact ⟨hs, fun _ ↦ rfl, fun _ ↦ by simp, by simp, by simp⟩
  | @succ n s s' s'' _ h' ih =>
    have hpost := ih hs hvalid
    have hround := h'.post hpost.inv fun b hb ↦ (hpost.valid_eq b).trans (hvalid b hb)
    have hop : (configureCmd s''.toLoaderTables bs).opcode = .gidBmapConfigure := rfl
    obtain ⟨hinv, hsame⟩ := hround.inv.configure hop
    refine ⟨hinv, fun x ↦ ?_, fun x ↦ ?_, ?_, ?_⟩
    · rw [((SameView.of_sameButGidBmap hsame).entry_eq x).1, hround.valid_eq, hpost.valid_eq]
    · change (s''.databaseShadowMap x).noClonesTarget = _
      rw [hround.target_eq, hpost.target_eq, Nat.succ_mul n, Nat.add_assoc]
    · have hfree : (s''.enqueue [configureCmd s''.toLoaderTables bs]).arrayBlocksFree =
          s''.arrayBlocksFree := rfl
      have h₁ := hround.free_eq
      have h₂ := hpost.free_eq
      rw [hfree, Nat.succ_mul n]
      omega
    · have hlen : (s''.enqueue [configureCmd s''.toLoaderTables bs]).loaderCmdMem.length =
          s''.loaderCmdMem.length + 1 := by simp [enqueue]
      rw [hlen, hround.length_eq, hpost.length_eq, Nat.succ_mul n]
      omega

end Rounds

/-- Growing terminates without an assertion failing, as long as there is space. -/
theorem grow_outcome (hs : Inv hw U s) (hne : bs ≠ [])
    (hvalid : ∀ b ∈ bs, (s.settled.databaseShadowMap b).valid = true)
    (hspace : n * bs.length ≤ s.arrayBlocksFree)
    (hE : nlmFmsLoaderCmdBuffSize ≤ s.loaderCmdMem.length + n * (6 * bs.length + 1) →
      E .commandFifoOverrun) :
    Outcome (Rounds bs n s) E ((List.range n).foldlM (fun s _ ↦ growRound bs s) s) := by
  induction n with
  | zero => exact .zero s
  | succ n ih =>
    rw [Nat.succ_mul n] at hspace hE
    rw [List.range_succ, List.foldlM_append]
    refine Outcome.bind (ih (by omega) fun hfull ↦ hE (by omega)) fun s' h ↦ ?_
    have hpost := h.post hs hvalid
    have hfree := hpost.free_eq
    have hlen := hpost.length_eq
    simp only [List.foldlM_cons, List.foldlM_nil, growRound, bind_assoc]
    refine Outcome.bind (clone_all_outcome hpost.inv
      (fun b hb ↦ (hpost.valid_eq b).trans (hvalid b hb)) (by omega)
      fun hfull ↦ hE (by omega)) fun s'' h' ↦ ?_
    have hround := h'.post hpost.inv fun b hb ↦ (hpost.valid_eq b).trans (hvalid b hb)
    have hlen' := hround.length_eq
    refine Outcome.bind (cmdAdd_outcome s'' _ fun hfull ↦ hE (by omega)) ?_
    rintro s''' rfl
    have hhead : bs.headD 0 ∈ bs := by
      rcases bs with _ | ⟨b, bs⟩
      · exact absurd rfl hne
      · simp
    have hb : (s''.settled.databaseShadowMap (bs.headD 0)).valid = true := by
      rw [hround.valid_eq, hpost.valid_eq]
      exact hvalid _ hhead
    have hlt := (hround.inv.settled_placed.valid_lt _ hb).1
    rw [settled_numFmsBlocks] at hlt
    have hb16 : bs.headD 0 < 16 := (hlt.trans_le hround.inv.placed.blocks_le).trans (by decide)
    have htgt16 : (s''.databaseShadowMap (bs.headD 0)).noClonesTarget < 16 :=
      (noClonesTarget_le hround.inv _).trans_lt (by decide)
    rw [pack_of_lt htgt16 hb16]
    exact h.succ h'

end PhyDevice

end NetL7.Loader
