import NetL7.Loader.Calls
import NetL7.Loader.CommandQueue
import NetL7.Loader.Image

/-!
# The command ring never overruns

Every call keeps the invariant of the ring, so each time a command is added there is room
for it, whatever has been stacked up on the queue by the calls before.
-/

namespace NetL7.Loader

open NetL7.Lib LoaderTables

namespace PhyDevice

variable {k M : ℕ} {s s' : PhyDevice} {j b : ℕ} {hw : Hw} {device : Option NlmDevice}

/-! ## Growing -/

/-- Nothing has been executed, and no deletion of a shadow block has been queued. -/
structure Extends (s s' : PhyDevice) : Prop where
  view : s.SameView s'.toLoaderTables
  shadows_eq : pendingShadows s'.loaderCmdMem = pendingShadows s.loaderCmdMem

theorem Extends.refl (s : PhyDevice) : Extends s s := ⟨.refl _, rfl⟩

theorem Extends.trans {s'' : PhyDevice} (h : Extends s s') (h' : Extends s' s'') :
    Extends s s'' :=
  ⟨h.view.trans h'.view, h'.shadows_eq.trans h.shadows_eq⟩

theorem Extends.of_append {cmds : List LoaderCommand} (hview : s.SameView s'.toLoaderTables)
    (hq : s'.loaderCmdMem = s.loaderCmdMem ++ cmds)
    (hcmds : ∀ c ∈ cmds, c.opcode ≠ .shadowDelete) : Extends s s' := by
  refine ⟨hview, ?_⟩
  have hnil : cmds.filter (·.opcode = .shadowDelete) = [] := by
    rw [List.filter_eq_nil_iff]
    intro c hc
    simpa using hcmds c hc
  rw [hq, pendingShadows, List.filter_append, hnil, List.append_nil]
  rfl

theorem occupied_of_view {t t' : LoaderTables} (h : t.SameView t') :
    shadowBlocksOccupied t' = shadowBlocksOccupied t := by
  unfold shadowBlocksOccupied
  rw [h.numFmsBlocks_eq]
  exact List.countP_congr fun b _ ↦ by rw [(h.entry_eq b).1]

theorem Ring.of_extends (h : Ring M s) (hs : Extends s s') (hq : Queued 1 s')
    (hspent : ∀ j, DeletePending s' j → Spent M s'.toLoaderTables j) : Ring M s' := by
  refine ⟨hq, hspent, ?_, ?_⟩
  · rw [hs.shadows_eq]
    refine h.unloads.imp_right fun ⟨d, hd⟩ ↦ ⟨d, ?_⟩
    rw [hs.view.blockList_eq]
    exact hd
  · unfold balancedCopies
    rw [occupied_of_view hs.view, hs.view.numFmsBlocks_eq]
    exact h.fair

theorem Queued.lt_sixteen (h : Queued k s) {d : ℕ} (hb : b ∈ s.createShadowBlockListByDbId d) :
    b < 16 :=
  ((mem_blockList.mp hb).1.trans_le h.blocks_le).trans (by decide)

theorem cloned_extends (s : PhyDevice) (j b : ℕ) : Extends s (s.cloned j b) :=
  .of_append (cloned_sameView s j b) rfl (by simp [cloneCmds])

theorem deletePending_cloned {i : ℕ} (h : DeletePending (s.cloned j b) i) :
    DeletePending s i :=
  h.of_append rfl (by simp [cloneCmds])

theorem Queued.cloned_target (h : Queued k s) (x : ℕ) :
    ((s.cloned j b).databaseShadowMap x).noClonesTarget =
      (s.databaseShadowMap x).noClonesTarget + if x = b then 1 else 0 := by
  change ((s.reserve j true b incr8).databaseShadowMap x).noClonesTarget = _
  have hle := h.noClonesTarget_le b
  rw [reserve_noClonesTarget]
  by_cases hx : x = b
  · rw [if_pos hx, if_pos hx, hx, incr8_of_lt (by omega)]
  · rw [if_neg hx, if_neg hx]
    rfl

theorem clone_ring_outcome (h : Queued 1 s) (hb : b < 16) :
    Outcome (fun s' ↦ ∃ j < s.numFmsBlocks, s.arrayBlockMapTarget j = false ∧
      s' = s.cloned j b) NoOverrun (s.nlmDeviceLoaderClone b) := by
  by_cases hfree : ∃ j < s.numFmsBlocks, s.arrayBlockMapTarget j = false
  · refine (clone_outcome h.blocks_le hb hfree fun hfull ↦ ?_).imp ?_
    · have hlen := h.length_lt le_rfl
      omega
    · rintro s' ⟨j, hj, hidle, rfl⟩
      exact ⟨j, hj, hidle, rfl⟩
  · have hfull : ¬findFreeArrayBlock s.toLoaderTables < s.numFmsBlocks := by
      intro hlt
      unfold findFreeArrayBlock at hlt
      rcases hfind : (List.range s.numFmsBlocks).find? (fun j ↦ !s.arrayBlockMapTarget j) with
        _ | j
      · rw [hfind] at hlt
        exact absurd hlt (lt_irrefl _)
      · have hj := List.find?_some hfind
        have hmem := List.mem_of_find?_eq_some hfind
        exact hfree ⟨j, by simpa using hmem, by simpa using hj⟩
    simp [nlmDeviceLoaderClone, prettyAssert, hfull, NoOverrun, bind, Except.bind]

section Growth

variable {d l : ℕ} {bs : List ℕ}

/-- The blocks of one database grow. What has been spent before stays so, as long as the
last block does not get more than `M` copies. -/
theorem Queued.spent_cloned (h : Queued k s) (hb : b ∈ s.createShadowBlockListByDbId d)
    (hlast : ∀ l ∈ (s.createShadowBlockListByDbId d).getLast?,
      ((s.cloned j b).databaseShadowMap l).noClonesTarget ≤ M) {i : ℕ}
    (hi : Spent M s.toLoaderTables i) : Spent M (s.cloned j b).toLoaderTables i := by
  have hview := cloned_sameView s j b
  have htarget := fun x ↦ h.cloned_target (j := j) (b := b) x
  have hbd := (mem_blockList.mp hb).2.2
  unfold Spent at hi ⊢
  rw [hview.virtIds_eq, hview.copyNumber_eq, hview.blockList_eq, (hview.entry_eq _).1,
    (hview.entry_eq _).2.2]
  by_cases hd : (s.databaseShadowMap (s.arrayVirtIds i)).dbId = d
  · rw [hd]
    exact .inr (.inr hlast)
  · have hne : s.arrayVirtIds i ≠ b := fun heq ↦ hd (heq ▸ hbd)
    rw [htarget, if_neg hne]
    refine hi.imp_right (Or.imp_right fun hlist l hl ↦ ?_)
    have hl' : l ≠ b := by
      rintro rfl
      exact hd ((mem_blockList.mp (List.mem_of_getLast? hl)).2.2.symm.trans hbd)
    rw [htarget, if_neg hl']
    exact hlist l hl

/-- The devices in the course of a growth to `numCopies` copies. -/
structure Growing (M d : ℕ) (s₀ s : PhyDevice) : Prop where
  queued : Queued 1 s
  extends_eq : Extends s₀ s
  pending : ∀ j, DeletePending s j → DeletePending s₀ j
  spent : ∀ j, DeletePending s j → Spent M s.toLoaderTables j

variable {s₀ : PhyDevice} {numCopies : ℕ}

theorem Growing.cloned (h : Growing M d s₀ s) (hj : j < s.numFmsBlocks)
    (hfree : s.arrayBlockMapTarget j = false) (hb : b ∈ s₀.createShadowBlockListByDbId d)
    (hlast : (∀ i, ¬DeletePending s₀ i) ∨ ∀ l ∈ (s₀.createShadowBlockListByDbId d).getLast?,
      ((s.cloned j b).databaseShadowMap l).noClonesTarget ≤ M) :
    Growing M d s₀ (s.cloned j b) := by
  have hlist := h.extends_eq.view.blockList_eq d
  refine ⟨(h.queued.cloned hj hfree).mono (by omega),
    h.extends_eq.trans (cloned_extends s j b),
    fun i hi ↦ h.pending i (deletePending_cloned hi), fun i hi ↦ ?_⟩
  have hi := deletePending_cloned hi
  rcases hlast with hnone | hlast
  · exact absurd (h.pending i hi) (hnone i)
  · rw [← hlist] at hb hlast
    exact h.queued.spent_cloned hb hlast (h.spent i hi)

/-- A round gives each block one clone more. -/
theorem growRound_ring (h : Growing M d s₀ s)
    (hbs : s₀.createShadowBlockListByDbId d = bs) (hl : l ∈ bs.getLast?)
    (hlast : (∀ i, ¬DeletePending s₀ i) ∨ (s.databaseShadowMap l).noClonesTarget + 1 ≤ M) :
    Outcome (fun s' ↦ Growing M d s₀ s' ∧ (s'.databaseShadowMap l).noClonesTarget =
      (s.databaseShadowMap l).noClonesTarget + 1) NoOverrun (growRound bs s) := by
  have hnodup : bs.Nodup := hbs ▸ s₀.blockList_nodup d
  have hmeml : l ∈ bs := List.mem_of_getLast? hl
  let I : List ℕ → PhyDevice → Prop := fun rest s' ↦ (∀ b ∈ rest, b ∈ bs) ∧
    Growing M d s₀ s' ∧ (rest = bs ∨ Queued 0 s') ∧
    (s'.databaseShadowMap l).noClonesTarget + rest.count l =
      (s.databaseShadowMap l).noClonesTarget + 1
  have hstart : I bs s := ⟨fun _ hb ↦ hb, h, .inl rfl, by
    rw [List.count_eq_one_of_mem hnodup hmeml]⟩
  unfold growRound
  refine Outcome.bind (Outcome.foldlM I ?_ hstart) ?_
  · rintro b rest s' ⟨hrest, hs', -, hcount⟩
    have hb : b ∈ s₀.createShadowBlockListByDbId d := hbs ▸ hrest b (by simp)
    refine (clone_ring_outcome hs'.queued (hs'.queued.lt_sixteen
      ((hs'.extends_eq.view.blockList_eq d).symm ▸ hb))).imp ?_
    rintro _ ⟨j, hj, hfree, rfl⟩
    have htarget : ((s'.cloned j b).databaseShadowMap l).noClonesTarget + rest.count l =
        (s.databaseShadowMap l).noClonesTarget + 1 := by
      rw [hs'.queued.cloned_target, ← hcount, List.count_cons]
      by_cases hlb : l = b
      · simp [hlb]
        omega
      · have hbl : (b == l) = false := by simpa using fun h ↦ hlb h.symm
        simp [hlb, hbl]
    refine ⟨fun x hx ↦ hrest x (by simp [hx]), hs'.cloned hj hfree hb (hlast.imp_right ?_),
      .inr (hs'.queued.cloned hj hfree), htarget⟩
    intro hle l' hl'
    rw [hbs] at hl'
    obtain rfl : l' = l := Option.mem_unique hl' hl
    omega
  · rintro s' ⟨-, hs', hqueued, hcount⟩
    have hqueued : Queued 0 s' := by
      refine hqueued.resolve_left fun hnil ↦ ?_
      rw [← hnil] at hmeml
      simp at hmeml
    have hlen := hs'.queued.length_lt le_rfl
    refine (cmdAdd_outcome s' _ fun hfull ↦ ?_).imp ?_
    · omega
    rintro _ rfl
    have hop : (LoaderCommand.pack .gidBmapConfigure
        (s'.databaseShadowMap (bs.headD 0)).noClonesTarget (bs.headD 0)).opcode =
          .gidBmapConfigure := rfl
    generalize LoaderCommand.pack .gidBmapConfigure
        (s'.databaseShadowMap (bs.headD 0)).noClonesTarget (bs.headD 0) = cmd at hop ⊢
    have hpending : ∀ i, DeletePending (s'.enqueue [cmd]) i → DeletePending s' i :=
      fun i hi ↦ hi.of_append rfl (by simp [hop])
    refine ⟨⟨hqueued.enqueue (.inl hop) ?_ (by omega), hs'.extends_eq.trans
      (.of_append (.refl _) rfl (by simp [hop])), fun i hi ↦ hs'.pending i (hpending i hi),
      fun i hi ↦ hs'.spent i (hpending i hi)⟩, ?_⟩
    · simpa [opCount, hop] using hs'.queued.shadowDeletes_le
    · rw [List.count_nil, Nat.add_zero] at hcount
      exact hcount

/-- Growth stops when the last block has `numCopies` copies. -/
theorem grow_ring {n : ℕ} (h : Growing M d s₀ s) (hbs : s₀.createShadowBlockListByDbId d = bs)
    (hl : l ∈ bs.getLast?) (hn : (s.databaseShadowMap l).noClonesTarget + n = numCopies)
    (hlast : (∀ i, ¬DeletePending s₀ i) ∨ numCopies ≤ M) :
    Outcome (Growing M d s₀) NoOverrun ((List.range n).foldlM (fun s _ ↦ growRound bs s) s) := by
  let I : List ℕ → PhyDevice → Prop := fun rest s' ↦ Growing M d s₀ s' ∧
    (s'.databaseShadowMap l).noClonesTarget + rest.length = numCopies
  have hstart : I (List.range n) s := ⟨h, by rw [List.length_range]; exact hn⟩
  refine (Outcome.foldlM I ?_ hstart).imp fun s' hs' ↦ hs'.1
  rintro i rest s' ⟨hs', hcount⟩
  rw [List.length_cons] at hcount
  refine (growRound_ring hs' hbs hl (hlast.imp_right fun hle ↦ by omega)).imp ?_
  rintro s'' ⟨hs'', htarget⟩
  exact ⟨hs'', by omega⟩

end Growth

/-! ## Shrinking -/

theorem removal_extends (s : PhyDevice) (j b : ℕ) : Extends s (s.removal j b) :=
  .of_append (removal_sameView s j b) (removal_queue s j b) (by simp [decloneCmds])

theorem deletePending_removal {i : ℕ} (h : DeletePending (s.removal j b) i) :
    DeletePending s i ∨ i = j := by
  obtain ⟨c, hc, hop, haddr⟩ := h
  rw [removal_queue] at hc
  rcases List.mem_append.mp hc with hc | hc
  · exact .inl ⟨c, hc, hop, haddr⟩
  · have hall : ∀ c ∈ decloneCmds j b, c.addrArray = j := by simp [decloneCmds]
    exact .inr (haddr.symm.trans (hall c hc))

/-- A removal takes one from the target. -/
theorem Queued.removal_target (h : Queued 1 s) (hj : j ∈ s.clones b)
    (hdel : ¬DeletePending s j) (x : ℕ) :
    ((s.removal j b).databaseShadowMap x).noClonesTarget =
      (s.databaseShadowMap x).noClonesTarget - if x = b then 1 else 0 := by
  have hpos := Finset.card_pos.mpr ⟨j, h.mem_settled_clones hj hdel⟩
  have hle := h.noClonesTarget_le b
  rw [← h.noClonesTarget_eq b] at hpos
  rw [removal_noClonesTarget]
  by_cases hx : x = b
  · rw [if_pos hx, if_pos hx, hx]
    unfold decr8
    omega
  · rw [if_neg hx, if_neg hx, Nat.sub_zero]

theorem Spent.of_view {t t' : LoaderTables} {i : ℕ} (h : Spent M t i) (hview : t.SameView t')
    (htarget : ∀ x, (t'.databaseShadowMap x).noClonesTarget ≤
      (t.databaseShadowMap x).noClonesTarget) : Spent M t' i := by
  unfold Spent at h ⊢
  rw [hview.virtIds_eq, hview.copyNumber_eq, hview.blockList_eq, (hview.entry_eq _).1,
    (hview.entry_eq _).2.2]
  exact h.imp (htarget _).trans (Or.imp_right fun hlast l hl ↦ (htarget l).trans (hlast l hl))

/-- The devices in the course of shrinking the blocks of a list: their copies whose removal
is queued are out of the reach of the victim search. -/
structure Shrinking (M : ℕ) (bs : List ℕ) (s₀ s : PhyDevice) : Prop where
  queued : Queued 1 s
  extends_eq : Extends s₀ s
  spent : ∀ j, DeletePending s j → Spent M s.toLoaderTables j
  passed : ∀ j, DeletePending s j → s.arrayVirtIds j ∈ bs →
    (s.databaseShadowMap (s.arrayVirtIds j)).noClonesTarget ≤ s.arrayBlockCopyNumber j

section Shrinkage

variable {s₀ : PhyDevice} {bs : List ℕ}

theorem Shrinking.not_pending (h : Shrinking M bs s₀ s) (hb : b ∈ bs)
    (hvic : isVictim s.toLoaderTables b j = true) : ¬DeletePending s j := by
  obtain ⟨hvirt, -, htarget⟩ := isVictim_iff.mp hvic
  intro hdel
  have hle := h.passed j hdel (by rwa [hvirt])
  rw [hvirt] at hle
  omega

theorem Shrinking.removal (h : Shrinking M bs s₀ s) (hb : b ∈ bs) (hj : j < s.numFmsBlocks)
    (hvic : isVictim s.toLoaderTables b j = true) : Shrinking M bs s₀ (s.removal j b) := by
  have hdel := h.not_pending hb hvic
  obtain ⟨hvirt, hcur, htarget⟩ := isVictim_iff.mp hvic
  have hmem : j ∈ s.clones b := mem_clones.mpr ⟨hj, hcur, hvirt⟩
  have hview := removal_sameView s j b
  have htarget' := h.queued.removal_target hmem hdel
  have hle : ∀ x, ((s.removal j b).databaseShadowMap x).noClonesTarget ≤
      (s.databaseShadowMap x).noClonesTarget := fun x ↦ (htarget' x).trans_le (Nat.sub_le _ _)
  have hnew : ((s.removal j b).databaseShadowMap (s.arrayVirtIds j)).noClonesTarget ≤
      s.arrayBlockCopyNumber j := by
    rw [hvirt, htarget', if_pos rfl, htarget]
    omega
  refine ⟨h.queued.removal hmem hdel, h.extends_eq.trans (removal_extends s j b),
    fun i hi ↦ ?_, fun i hi hbs ↦ ?_⟩
  · rcases deletePending_removal hi with hi | rfl
    · exact (h.spent i hi).of_view hview hle
    · left
      rw [hview.virtIds_eq, hview.copyNumber_eq]
      exact hnew
  · rw [hview.virtIds_eq, hview.copyNumber_eq]
    rw [hview.virtIds_eq] at hbs
    rcases deletePending_removal hi with hi | rfl
    · exact (hle _).trans (h.passed i hi hbs)
    · exact hnew

theorem declone_ring_outcome (h : Queued 1 s) (hj : j < s.numFmsBlocks) (hb : b < 16) :
    Outcome (· = s.removal j b) NoOverrun
      ((s.mapTables fun t ↦ t.nlmDeviceBlockSchedulerDelete b j
        (1 <<< t.arrayBlockCopyNumber j)).nlmDeviceLoaderDeclone j b) := by
  refine declone_outcome ((hj.trans_le h.blocks_le).trans (by decide)) hb fun hfull ↦ ?_
  have hlen := h.length_lt le_rfl
  have hfull : nlmFmsLoaderCmdBuffSize ≤ s.loaderCmdMem.length + 4 := hfull
  omega

theorem victimPass_ring (h : Shrinking M bs s₀ s) (hb : b ∈ bs) (hb16 : b < 16)
    (missing : ℕ) :
    Outcome (fun r ↦ Shrinking M bs s₀ r.1) NoOverrun (victimPass b s missing) := by
  let I : List ℕ → PhyDevice × ℕ → Prop := fun rest r ↦
    (∀ j ∈ rest, j < s₀.numFmsBlocks) ∧ Shrinking M bs s₀ r.1
  have hstart : I (List.range s.numFmsBlocks) (s, missing) := by
    refine ⟨fun j hj ↦ ?_, h⟩
    rw [← h.extends_eq.view.numFmsBlocks_eq]
    exact List.mem_range.mp hj
  refine (Outcome.foldlM I ?_ hstart).imp fun r hr ↦ hr.2
  rintro j rest ⟨s', m⟩ ⟨hrest, hs'⟩
  have hrest' : ∀ j ∈ rest, j < s₀.numFmsBlocks := fun j hj ↦ hrest j (by simp [hj])
  have hs' : Shrinking M bs s₀ s' := hs'
  have hjN : j < s'.numFmsBlocks := by
    rw [hs'.extends_eq.view.numFmsBlocks_eq]
    exact hrest j (by simp)
  simp only
  by_cases hvic : m ≠ 0 ∧ isVictim s'.toLoaderTables b j = true
  · rw [if_pos hvic]
    by_cases hzero : (s'.databaseShadowMap b).noClonesTarget = 0
    · simp [prettyAssert, hzero, NoOverrun, bind, Except.bind]
    · simp only [prettyAssert, bne_iff_ne, ne_eq, hzero, not_false_eq_true, if_true, bind,
        Except.bind]
      refine Outcome.bind (declone_ring_outcome hs'.queued hjN hb16) ?_
      rintro _ rfl
      exact ⟨hrest', hs'.removal hb hjN hvic.2⟩
  · rw [if_neg hvic]
    exact ⟨hrest', hs'⟩

theorem whileBlkDelta_ring (hb : b ∈ bs) (hb16 : b < 16) (fuel : ℕ) (missing : ℕ)
    (h : Shrinking M bs s₀ s) :
    Outcome (Shrinking M bs s₀) NoOverrun (whileBlkDelta b fuel s missing) := by
  induction fuel generalizing s missing with
  | zero =>
    cases missing with
    | zero => exact h
    | succ missing => simp [whileBlkDelta, NoOverrun]
  | succ fuel ih =>
    cases missing with
    | zero => exact h
    | succ missing =>
      refine Outcome.bind (victimPass_ring h hb hb16 (missing + 1)) ?_
      rintro ⟨s', m⟩ hs'
      exact ih m hs'

theorem shrink_ring (h : Shrinking M bs s₀ s) (hbs : ∀ b ∈ bs, b < 16) (n : ℕ) :
    Outcome (Shrinking M bs s₀) NoOverrun (shrink bs n s) := by
  let I : List ℕ → PhyDevice → Prop := fun rest s' ↦ (∀ b ∈ rest, b ∈ bs) ∧
    Shrinking M bs s₀ s'
  have hstart : I bs s := ⟨fun _ hb ↦ hb, h⟩
  refine (Outcome.foldlM I ?_ hstart).imp fun s' hs' ↦ hs'.2
  rintro b rest s' ⟨hrest, hs'⟩
  have hb := hrest b (by simp)
  exact (whileBlkDelta_ring hb (hbs b hb) n n hs').imp fun s'' hs'' ↦
    ⟨fun x hx ↦ hrest x (by simp [hx]), hs''⟩

end Shrinkage

/-! ## Setting the number of copies -/

/-- The loop over the deltas ends with that of the last block. -/
theorem deltaLoop_last {t : LoaderTables} {numCopies : ℕ} (bs : List ℕ) (first : Bool)
    (delta oldDelta : ℤ) :
    Outcome (fun δ ↦ ∀ l ∈ bs.getLast?, δ = missingCopies t numCopies l) NoOverrun
      (deltaLoop t numCopies bs first delta oldDelta) := by
  induction bs generalizing first delta oldDelta with
  | nil => simp [deltaLoop]
  | cons b bs ih =>
    by_cases heq : delta = oldDelta
    swap
    · simp [deltaLoop, prettyAssert, heq, NoOverrun, bind, Except.bind]
    simp only [deltaLoop, prettyAssert, heq, beq_self_eq_true, if_true, bind, Except.bind]
    rcases bs with _ | ⟨b', bs⟩
    · simp [deltaLoop]
    · exact (ih false (missingCopies t numCopies b) _).imp fun δ hδ l hl ↦
        hδ l (by simpa [List.getLast?_cons] using hl)

theorem setNumCopies_ring (h : Ring M s) {numCopies : ℕ}
    (hM : (∀ j, ¬DeletePending s j) ∨ numCopies = M) (d : ℕ) :
    Outcome (fun r ↦ Ring M r.2) NoOverrun
      (nlmDeviceDatabaseSetNumCopies hw device d numCopies s) := by
  unfold nlmDeviceDatabaseSetNumCopies
  rcases hg : loaderGuard device s with _ | status
  swap
  · exact h
  simp only
  generalize hbs : s.createShadowBlockListByDbId d = bs
  split_ifs with hd hfour hnil hspace
  · exact h
  · exact h
  · exact h
  · exact h
  obtain ⟨l, hl⟩ : ∃ l, l ∈ bs.getLast? := ⟨_, List.getLast?_eq_some_getLast hnil⟩
  have hmem : ∀ b ∈ bs, b ∈ s.createShadowBlockListByDbId d := fun b hb ↦ hbs ▸ hb
  refine Outcome.bind (deltaLoop_last bs true 0 0) fun δ hδ ↦ ?_
  have hδ : δ = numCopies - (s.databaseShadowMap l).noClonesTarget := hδ l hl
  have hresize : Outcome (Ring M) NoOverrun (resize bs δ s) := by
    unfold resize
    by_cases hpos : 0 < δ
    · rw [if_pos hpos]
      have hstart : Growing M d s s := ⟨h.queued, .refl s, fun _ hj ↦ hj, h.spent⟩
      refine (grow_ring hstart hbs hl (by omega) (hM.imp_right fun hM ↦ hM.le)).imp ?_
      exact fun s' hs' ↦ h.of_extends hs'.extends_eq hs'.queued hs'.spent
    · rw [if_neg hpos]
      by_cases hzero : δ = 0
      · rw [hzero, neg_zero, Int.toNat_zero, shrink_zero]
        exact h
      have hstart : Shrinking M bs s s := by
        refine ⟨h.queued, .refl s, h.spent, fun j hj hjbs ↦ ?_⟩
        rcases hM with hnone | rfl
        · exact absurd hj (hnone j)
        · obtain ⟨-, hvalid, hdb⟩ := mem_blockList.mp (hmem _ hjbs)
          rcases h.spent j hj with hle | hinvalid | hlast
          · exact hle
          · rw [hinvalid] at hvalid
            cases hvalid
          · -- the database was not to shrink any more
            rw [hdb, hbs] at hlast
            have hle := hlast l hl
            omega
      refine (shrink_ring hstart (fun b hb ↦ h.queued.lt_sixteen (hmem b hb)) _).imp ?_
      exact fun s' hs' ↦ h.of_extends hs'.extends_eq hs'.queued hs'.spent
  exact Outcome.bind hresize fun s' hs' ↦ hs'.finish

theorem Ring.raise (h : Ring M s) (hocc : shadowBlocksOccupied s.toLoaderTables ≠ 0) :
    Ring (balancedCopies s.toLoaderTables) s := by
  have hle := h.fair.resolve_left hocc
  exact ⟨h.queued, fun j hj ↦ (h.spent j hj).imp_right (Or.imp_right fun hlast l hl ↦
    (hlast l hl).trans hle), h.unloads, .inr le_rfl⟩

theorem balanceLoop_ring (wrongSide : ℕ → Bool) {r : NlmStatus × PhyDevice} (h : Ring M r.2) :
    Outcome (fun r ↦ Ring M r.2) NoOverrun (balanceLoop hw device wrongSide M r) := by
  refine Outcome.foldlM (fun _ (r : NlmStatus × PhyDevice) ↦ Ring M r.2) ?_ h
  rintro d rest ⟨status, s⟩ hs
  simp only
  split
  · exact hs
  · split
    · refine Outcome.bind (setNumCopies_ring hs (.inr rfl) d) ?_
      rintro ⟨status', s'⟩ hs'
      by_cases hgood : (status' == .ok || status' == .loaderInProgress) = true
      · simp only [prettyAssert, hgood, if_true, bind, Except.bind]
        exact hs'
      · simp [prettyAssert, hgood, NoOverrun, bind, Except.bind]
    · exact hs

theorem balance_ring (h : Ring M s) :
    Outcome (fun r ↦ ∃ M, Ring M r.2) NoOverrun (nlmDeviceDatabaseBalance hw device s) := by
  unfold nlmDeviceDatabaseBalance
  split
  · exact ⟨M, h⟩
  · split_ifs with hocc
    · exact ⟨M, h⟩
    · refine Outcome.bind (balanceLoop_ring _ (r := (.ok, s)) (h.raise hocc)) fun r hr ↦ ?_
      exact (balanceLoop_ring _ hr).imp fun r hr ↦ ⟨_, hr⟩

/-! ## Loading -/

theorem not_deletePending_of_nil (hq : s.loaderCmdMem = []) (j : ℕ) : ¬DeletePending s j := by
  rintro ⟨c, hc, -⟩
  simp [hq] at hc

/-- An image is written while the queue is empty. -/
theorem Ring.written (h : Ring M s) (hq : s.loaderCmdMem = []) {d : ℕ}
    {database : FmsDatabase} {W : Finset ℕ} {t' : LoaderTables}
    (hw' : ImageWritten s.toLoaderTables d database W t') :
    Ring 0 (s.mapTables fun _ ↦ t') := by
  have hentry : ∀ b, (t'.databaseShadowMap b).noClonesTarget =
      (s.databaseShadowMap b).noClonesTarget := by
    intro b
    by_cases hb : b ∈ W
    · rw [hw'.entry_mem b hb]
    · rw [(hw'.notMem b hb).1]
  obtain ⟨shadowMap, groups, area, rfl⟩ := hw'.frame
  have hnil : (s.mapTables fun _ ↦ s.toLoaderTables.withImage shadowMap groups area).loaderCmdMem =
      [] := hq
  have hqueued := h.queued
  refine ⟨⟨hqueued.blocks_le, ?_, fun b ↦ ?_, ?_, ?_, ?_, ?_, ?_, ?_, ?_,
    hqueued.pauseTimeout_eq⟩, fun j hj ↦ absurd hj (not_deletePending_of_nil hnil j), ?_,
    .inr (Nat.zero_le _)⟩
  · have htarget := hqueued.target_eq
    rw [settled_of_nil hq] at htarget
    rw [settled_of_nil hnil]
    exact htarget
  · have htarget := hqueued.noClonesTarget_eq b
    rw [settled_of_nil hq] at htarget
    rw [settled_of_nil hnil]
    exact (hentry b).trans htarget
  · simp [hnil]
  · simp [hnil]
  · simp [hnil]
  · simp [hnil, opCount]
  · simp [hnil, Covered]
  · simp [hnil]
  · simp [hnil]
  · exact .inl (by simp [hnil, pendingShadows])

theorem loadChecked_ring (h : Ring M s) (hq : s.loaderCmdMem = [])
    (database : Option FmsDatabase) (headStatus : NlmStatus) (numBlocks d numCopies : ℕ) :
    Outcome (fun r ↦ ∃ M, Ring M r.2) NoOverrun
      (loadChecked hw device database headStatus numBlocks d numCopies s) := by
  unfold loadChecked
  split
  swap
  · exact ⟨M, h⟩
  split
  · exact ⟨M, h⟩
  rename_i db _ _
  by_cases hfour : 4 < numCopies
  · rw [if_pos hfour]
    exact ⟨M, h⟩
  rw [if_neg hfour]
  by_cases hspace : 0 < numCopies ∧ s.arrayBlocksFree < numBlocks * numCopies
  · rw [if_pos hspace]
    exact ⟨M, h⟩
  rw [if_neg hspace]
  obtain heq | ⟨t', W, heq, -, hwritten⟩ := nlmDeviceWriteDatabaseToShadow_spec
    s.toLoaderTables d db numBlocks
  · rw [heq]
    exact ⟨M, h⟩
  rw [heq]
  have hring := h.written hq hwritten
  have hnil : (s.mapTables fun _ ↦ t').loaderCmdMem = [] := hq
  have hfinish : ∀ r : NlmStatus × PhyDevice, (∃ M, Ring M r.2) →
      Outcome (fun r ↦ ∃ M, Ring M r.2) NoOverrun
        (if r.1 ≠ .ok then Except.ok (r.1, r.2) else finishByPolicy hw device r.2) := by
    rintro r ⟨M', hr⟩
    split
    · exact ⟨M', hr⟩
    · exact hr.finish.imp fun r hr ↦ ⟨M', hr⟩
  by_cases hzero : numCopies = 0
  · simp only [hzero, ne_eq, not_true_eq_false, if_false]
    exact Outcome.bind (balance_ring hring) hfinish
  · simp only [hzero, ne_eq, not_false_eq_true, if_true]
    exact Outcome.bind ((setNumCopies_ring hring (.inl (not_deletePending_of_nil hnil)) d).imp
      fun r hr ↦ ⟨_, hr⟩) hfinish

theorem load_ring (h : Ring M s) (database : Option FmsDatabase) (dbSize d numCopies : ℕ) :
    Outcome (fun r ↦ ∃ M, Ring M r.2) NoOverrun
      (nlmDeviceLoadDatabase hw device database dbSize d numCopies s) := by
  unfold nlmDeviceLoadDatabase
  rcases hg : loaderGuard device s with _ | status
  swap
  · exact ⟨M, h⟩
  simp only
  split_ifs with hd
  · exact ⟨M, h⟩
  refine Outcome.bind h.exec ?_
  rintro ⟨status, s'⟩ ⟨hs', hnil⟩
  simp only
  split_ifs with hbusy
  · exact ⟨M, hs'⟩
  · exact loadChecked_ring hs' (hnil hg hbusy) database _ _ d numCopies

/-! ## Unloading -/

/-- The devices in the course of an unload of the blocks `bs` that began with an empty
queue; the blocks `rest` are still to come. -/
structure Unloading (bs rest : List ℕ) (s₀ s : PhyDevice) : Prop where
  queued : Queued 1 s
  view : s₀.SameView s.toLoaderTables
  shadows_eq : pendingShadows s.loaderCmdMem ++ rest = bs
  not_adds : ∀ c ∈ s.loaderCmdMem, ¬c.Adds
  target_current : ∀ j, s.arrayBlockMapTarget j = true → s.arrayBlockMapCurrent j = true
  gone : ∀ j, DeletePending s j → s.arrayVirtIds j ∉ rest ∧
    (s.databaseShadowMap (s.arrayVirtIds j)).noClonesTarget = 0

/-- The same while the clones of `b` are removed; the array blocks `js` are still to come. -/
structure UnloadingBlock (bs : List ℕ) (b : ℕ) (rest js : List ℕ) (s₀ s : PhyDevice) : Prop where
  queued : Queued 1 s
  view : s₀.SameView s.toLoaderTables
  shadows_eq : pendingShadows s.loaderCmdMem ++ b :: rest = bs
  not_adds : ∀ c ∈ s.loaderCmdMem, ¬c.Adds
  target_current : ∀ j, s.arrayBlockMapTarget j = true → s.arrayBlockMapCurrent j = true
  gone : ∀ j, DeletePending s j → (s.arrayVirtIds j = b ∧ j ∉ js) ∨
    (s.arrayVirtIds j ∉ b :: rest ∧
      (s.databaseShadowMap (s.arrayVirtIds j)).noClonesTarget = 0)
  removed : ∀ j < s.numFmsBlocks, j ∉ js → s.arrayBlockMapCurrent j = true →
    s.arrayVirtIds j = b → s.arrayBlockMapTarget j = false

section Unload

variable {s₀ : PhyDevice} {bs rest js : List ℕ}

theorem Unloading.begin (h : Unloading bs (b :: rest) s₀ s) :
    UnloadingBlock bs b rest (List.range s.numFmsBlocks) s₀ s :=
  ⟨h.queued, h.view, h.shadows_eq, h.not_adds, h.target_current, fun j hj ↦ .inr (h.gone j hj),
    fun _ hj hnot ↦ absurd (List.mem_range.mpr hj) hnot⟩

theorem UnloadingBlock.skip (h : UnloadingBlock bs b rest (j :: js) s₀ s)
    (hj : ¬(s.arrayBlockMapCurrent j = true ∧ b = s.arrayVirtIds j)) :
    UnloadingBlock bs b rest js s₀ s := by
  refine { h with
    gone := fun i hi ↦ (h.gone i hi).imp_left fun hb ↦ ⟨hb.1, fun hjs ↦ hb.2 (by simp [hjs])⟩
    removed := fun i hi hnot hcur hvirt ↦ ?_ }
  refine h.removed i hi (fun hmem ↦ ?_) hcur hvirt
  rcases List.mem_cons.mp hmem with rfl | hmem
  · exact hj ⟨hcur, hvirt.symm⟩
  · exact hnot hmem

theorem UnloadingBlock.removal (h : UnloadingBlock bs b rest (j :: js) s₀ s)
    (hnodup : (j :: js).Nodup) (hlt : j < s.numFmsBlocks)
    (hj : s.arrayBlockMapCurrent j = true ∧ b = s.arrayVirtIds j) :
    UnloadingBlock bs b rest js s₀ (s.removal j b) := by
  obtain ⟨hcur, hvirt⟩ := hj
  have hmem : j ∈ s.clones b := mem_clones.mpr ⟨hlt, hcur, hvirt.symm⟩
  have hdel : ¬DeletePending s j := by
    intro hdel
    rcases h.gone j hdel with ⟨-, hnot⟩ | ⟨hnot, -⟩
    · simp at hnot
    · simp [hvirt] at hnot
  have hview := removal_sameView s j b
  have htarget := removal_arrayBlockMapTarget s j b
  refine ⟨h.queued.removal hmem hdel, h.view.trans hview, ?_, fun c hc ↦ ?_, fun i hi ↦ ?_,
    fun i hi ↦ ?_, fun i hi hnot hcur' hvirt' ↦ ?_⟩
  · rw [(removal_extends s j b).shadows_eq]
    exact h.shadows_eq
  · rw [removal_queue] at hc
    rcases List.mem_append.mp hc with hc | hc
    · exact h.not_adds c hc
    · have hall : ∀ c ∈ decloneCmds j b, ¬c.Adds := by simp [decloneCmds, LoaderCommand.Adds]
      exact hall c hc
  · rw [htarget] at hi
    rw [hview.current_eq]
    by_cases hij : i = j
    · rw [hij, Function.update_self] at hi
      cases hi
    · rw [Function.update_of_ne hij] at hi
      exact h.target_current i hi
  · rw [hview.virtIds_eq]
    rcases deletePending_removal hi with hi | rfl
    · rcases h.gone i hi with ⟨hb, hnot⟩ | ⟨hnot, hzero⟩
      · exact .inl ⟨hb, fun hjs ↦ hnot (by simp [hjs])⟩
      · refine .inr ⟨hnot, ?_⟩
        rw [h.queued.removal_target hmem hdel, hzero, Nat.zero_sub]
    · exact .inl ⟨hvirt.symm, (List.nodup_cons.mp hnodup).1⟩
  · rw [hview.current_eq] at hcur'
    rw [hview.virtIds_eq] at hvirt'
    rw [hview.numFmsBlocks_eq] at hi
    rw [htarget]
    by_cases hij : i = j
    · rw [hij, Function.update_self]
    · rw [Function.update_of_ne hij]
      exact h.removed i hi (by simp [hij, hnot]) hcur' hvirt'

/-- When all its clones have been removed, a block has no target left. -/
theorem UnloadingBlock.target_eq_zero (h : UnloadingBlock bs b rest [] s₀ s) :
    (s.databaseShadowMap b).noClonesTarget = 0 := by
  rw [h.queued.noClonesTarget_eq, Finset.card_eq_zero, Finset.eq_empty_iff_forall_notMem]
  intro j hj
  obtain ⟨hlt, hcur, hvirt⟩ := mem_clones.mp hj
  rw [settled_numFmsBlocks] at hlt
  rw [settled_virtIds_of_not_adds fun c hc hadds ↦ absurd hadds (h.not_adds c hc)] at hvirt
  rw [← h.queued.target_eq] at hcur
  have hfalse := h.removed j hlt List.not_mem_nil (h.target_current j hcur) hvirt
  rw [hcur] at hfalse
  cases hfalse

theorem UnloadingBlock.finish (h : UnloadingBlock bs b rest [] s₀ s) (hnodup : bs.Nodup)
    (hlen : bs.length ≤ s.numFmsBlocks) : Unloading bs rest s₀ (s.enqueue [shadowDeleteCmd b]) := by
  have hzero := h.target_eq_zero
  have hop : (shadowDeleteCmd b).opcode = .shadowDelete := rfl
  have hqueue : (s.enqueue [shadowDeleteCmd b]).loaderCmdMem =
    s.loaderCmdMem ++ [shadowDeleteCmd b] := rfl
  have hpending : ∀ i, DeletePending (s.enqueue [shadowDeleteCmd b]) i → DeletePending s i :=
    fun i hi ↦ hi.of_append rfl (by simp [hop])
  have hcount : opCount .shadowDelete s.loaderCmdMem =
      (pendingShadows s.loaderCmdMem).length := by
    rw [opCount, List.countP_eq_length_filter, pendingShadows, List.length_map]
  have hsplit := h.shadows_eq
  have hrest : b ∉ rest := by
    rw [← hsplit] at hnodup
    exact (List.nodup_cons.mp (List.nodup_append.mp hnodup).2.1).1
  refine ⟨h.queued.enqueue (.inr hop) ?_ (by simp [budget, cmdBudget, hop]), h.view, ?_,
    fun c hc ↦ ?_, h.target_current, fun i hi ↦ ?_⟩
  · have htotal := congrArg List.length hsplit
    have hone : opCount .shadowDelete [shadowDeleteCmd b] = 1 := rfl
    rw [List.length_append, List.length_cons] at htotal
    omega
  · rw [hqueue, pendingShadows, List.filter_append, List.map_append, List.append_assoc]
    exact hsplit
  · rw [hqueue] at hc
    rcases List.mem_append.mp hc with hc | hc
    · exact h.not_adds c hc
    · rw [List.mem_singleton.mp hc]
      simp [shadowDeleteCmd, LoaderCommand.Adds]
  · rcases h.gone i (hpending i hi) with ⟨hb, -⟩ | ⟨hnot, hgone⟩
    · change s.arrayVirtIds i ∉ rest ∧
        (s.databaseShadowMap (s.arrayVirtIds i)).noClonesTarget = 0
      rw [hb]
      exact ⟨hrest, hzero⟩
    · exact ⟨fun hmem ↦ hnot (List.mem_cons_of_mem b hmem), hgone⟩

theorem unloadBlock_ring (h : Unloading bs (b :: rest) s₀ s) (hnodup : bs.Nodup)
    (hlen : bs.length ≤ s.numFmsBlocks) (hb : b < 16) :
    Outcome (Unloading bs rest s₀) NoOverrun (unloadBlock s b) := by
  let I : List ℕ → PhyDevice → Prop := fun js s' ↦ js.Nodup ∧
    (∀ j ∈ js, j < s₀.numFmsBlocks) ∧ UnloadingBlock bs b rest js s₀ s'
  have hN := h.view.numFmsBlocks_eq
  have hstart : I (List.range s.numFmsBlocks) s :=
    ⟨List.nodup_range, fun j hj ↦ hN ▸ List.mem_range.mp hj, h.begin⟩
  unfold unloadBlock
  refine Outcome.bind (Outcome.foldlM I ?_ hstart) ?_
  · rintro j js s' ⟨hjs, hlt, hs'⟩
    have hjs' := (List.nodup_cons.mp hjs).2
    have hlt' : ∀ j ∈ js, j < s₀.numFmsBlocks := fun j hj ↦ hlt j (by simp [hj])
    have hjN : j < s'.numFmsBlocks := by
      rw [hs'.view.numFmsBlocks_eq]
      exact hlt j (by simp)
    by_cases hj : s'.arrayBlockMapCurrent j = true ∧ b = s'.arrayVirtIds j
    · rw [if_pos hj]
      refine (declone_ring_outcome hs'.queued hjN hb).imp ?_
      rintro _ rfl
      exact ⟨hjs', hlt', hs'.removal hjs hjN hj⟩
    · rw [if_neg hj]
      exact ⟨hjs', hlt', hs'.skip hj⟩
  · rintro s' ⟨-, -, hs'⟩
    have hlen' := hs'.queued.length_lt le_rfl
    refine (cmdAdd_outcome s' _ fun hfull ↦ ?_).imp ?_
    · omega
    rintro _ rfl
    rw [pack_of_lt (by decide) hb]
    refine hs'.finish hnodup ?_
    rw [hs'.view.numFmsBlocks_eq, ← hN]
    exact hlen

end Unload

theorem unload_ring (h : Ring M s) (d : ℕ) :
    Outcome (fun r ↦ ∃ M, Ring M r.2) NoOverrun (nlmDeviceUnloadDatabase hw device d s) := by
  unfold nlmDeviceUnloadDatabase
  rcases hg : loaderGuard device s with _ | status
  swap
  · exact ⟨M, h⟩
  simp only
  split_ifs with hd
  · exact ⟨M, h⟩
  refine Outcome.bind h.exec ?_
  rintro ⟨status, s'⟩ ⟨hs', hnil⟩
  simp only
  split_ifs with hbusy hlist
  · exact ⟨M, hs'⟩
  · exact ⟨M, hs'⟩
  have hs' : Ring M s' := hs'
  have hnil : s'.loaderCmdMem = [] := hnil hg hbusy
  generalize hbs : s'.createShadowBlockListByDbId d = bs
  have hnodup : bs.Nodup := hbs ▸ s'.blockList_nodup d
  have hlen : bs.length ≤ s'.numFmsBlocks := by
    rw [← hbs]
    exact (List.length_filter_le _ _).trans_eq (List.length_range ..)
  have hstart : Unloading bs bs s' s' := by
    refine ⟨hs'.queued, .refl _, by simp [hnil, pendingShadows], by simp [hnil], fun j hj ↦ ?_,
      fun j hj ↦ absurd hj (not_deletePending_of_nil hnil j)⟩
    have htarget := hs'.queued.target_eq
    rw [settled_of_nil hnil] at htarget
    rwa [htarget] at hj
  let I : List ℕ → PhyDevice → Prop := fun rest s'' ↦ (∀ b ∈ rest, b ∈ bs) ∧
    Unloading bs rest s' s''
  refine Outcome.bind (Outcome.foldlM I ?_ ⟨fun _ hb ↦ hb, hstart⟩) ?_
  · rintro b rest s'' ⟨hrest, hs''⟩
    have hb : b < 16 := hs'.queued.lt_sixteen (hbs ▸ hrest b (by simp))
    refine (unloadBlock_ring hs'' hnodup ?_ hb).imp fun s₃ hs₃ ↦
      ⟨fun x hx ↦ hrest x (by simp [hx]), hs₃⟩
    rw [hs''.view.numFmsBlocks_eq]
    exact hlen
  · rintro s'' ⟨-, hs''⟩
    have hring : Ring 0 s'' := by
      refine ⟨hs''.queued, fun j hj ↦ .inl ?_, .inr ⟨d, ?_⟩, .inr (Nat.zero_le _)⟩
      · rw [(hs''.gone j hj).2]
        exact Nat.zero_le _
      · rw [hs''.view.blockList_eq, hbs, ← hs''.shadows_eq, List.append_nil]
    exact hring.finish.imp fun r hr ↦ ⟨0, hr⟩

/-! ## Runs -/

theorem setParamCopyCnt_ring (h : Ring M s) (d numCopies : ℕ) :
    Outcome (fun r ↦ ∃ M, Ring M r.2) NoOverrun (setParamCopyCnt hw device d numCopies s) := by
  unfold setParamCopyCnt
  split
  · exact ⟨M, h⟩
  split_ifs with hd hrange
  · exact ⟨M, h⟩
  · exact ⟨M, h⟩
  rcases hg : loaderGuard device s with _ | status
  · refine Outcome.bind h.exec ?_
    rintro ⟨status, s'⟩ ⟨hs', hnil⟩
    simp only
    split_ifs with hbusy
    · exact ⟨M, hs'⟩
    have hnil : s'.loaderCmdMem = [] := hnil hg hbusy
    have hset : Outcome _ NoOverrun (nlmDeviceDatabaseSetNumCopies hw device d numCopies s') :=
      setNumCopies_ring hs' (.inl (not_deletePending_of_nil hnil)) d
    exact Outcome.bind hset fun r hr ↦ ⟨M, hr⟩
  · rw [exec_of_guard hg]
    simp only [nlmDeviceDatabaseSetNumCopies, hg, bind, Except.bind]
    split_ifs
    · exact ⟨M, h⟩
    · exact ⟨M, h⟩

theorem callStep_ring (h : Ring M s) (call : LoaderCall) :
    Outcome (fun r ↦ ∃ M, Ring M r.2) NoOverrun (callStep hw s call) := by
  cases call with
  | load device database dbSize databaseId numCopies =>
    exact Outcome.bind (load_ring h database dbSize databaseId numCopies) fun r hr ↦ hr
  | unload device databaseId => exact Outcome.bind (unload_ring h databaseId) fun r hr ↦ hr
  | setCopyCnt device databaseId numCopies => exact setParamCopyCnt_ring h databaseId numCopies
  | balance device =>
    simp only [callStep, setParamBalance]
    split
    · exact ⟨M, h⟩
    · exact Outcome.bind (balance_ring h) fun r hr ↦ hr
  | setLoadPolicy device policy =>
    simp only [callStep, setParamLoadPolicy]
    split
    · exact ⟨M, h⟩
    · exact ⟨M, { h.queued with }, h.spent, h.unloads, h.fair⟩
  | getCopyCnt device databaseId =>
    simp only [callStep]
    split
    · exact ⟨M, h⟩
    · refine Outcome.bind (P := fun r ↦ ∃ M, Ring M r.2.2) ?_ ?_
      swap
      · rintro ⟨status, value, s'⟩ hr
        exact hr
      unfold nlmDeviceDatabaseGetNumCopies
      split
      · exact ⟨M, h⟩
      split_ifs
      · exact ⟨M, h⟩
      split
      · exact ⟨M, h⟩
      · by_cases hnone : (s.createShadowBlockListByDbId databaseId == []) = true
        · simp only [prettyAssert, hnone, if_true, bind, Except.bind]
          exact ⟨M, h⟩
        · simp [prettyAssert, hnone, NoOverrun, bind, Except.bind]
      · refine Outcome.bind h.exec ?_
        rintro ⟨status, s'⟩ ⟨hs', -⟩
        exact ⟨M, hs'⟩
  | loaderStatus device =>
    simp only [callStep]
    split
    · exact ⟨M, h⟩
    · exact Outcome.bind h.exec fun r hr ↦ ⟨M, hr.1⟩

theorem ring_initDevice (c : LoaderConfig) : Ring 0 c.initDevice := by
  have hclones : ∀ b, c.initDevice.toLoaderTables.clones b = ∅ := by
    intro b
    simp [clones, LoaderConfig.initDevice]
  have hsettled : c.initDevice.settled = c.initDevice.toLoaderTables := settled_of_nil rfl
  refine ⟨⟨c.numFmsBlocks_le, ?_, fun b ↦ ?_, ?_, ?_, List.Pairwise.nil, Nat.zero_le _, trivial,
    List.isChain_nil, ?_, rfl⟩, fun j hj ↦ absurd hj (not_deletePending_of_nil rfl j), .inl rfl,
    .inr (Nat.zero_le _)⟩
  · rw [hsettled]
    rfl
  · rw [hsettled, hclones]
    rfl
  · simp [LoaderConfig.initDevice]
  · simp [LoaderConfig.initDevice]
  · simp [LoaderConfig.initDevice]

/-- Whatever the policy, the calls and the hardware do, no command is added to a full ring:
no call fails the assertion of the ring, and after each call that returns there is room for the
commands of one more clone. -/
theorem runCalls_no_overrun (hw : Hw) (c : LoaderConfig) (calls : List LoaderCall) :
    Outcome (fun s ↦ s.loaderCmdMem.length + 6 < nlmFmsLoaderCmdBuffSize)
      (· ≠ .commandFifoOverrun) (runCalls hw c.initDevice calls) := by
  let I : List LoaderCall → PhyDevice → Prop := fun _ s ↦ ∃ M, Ring M s
  refine (Outcome.foldlM I ?_ ⟨0, ring_initDevice c⟩).imp ?_
  · rintro call rest s ⟨M, hs⟩
    have hstep : Outcome _ NoOverrun (callStep hw s call) := callStep_ring hs call
    rcases hresult : callStep hw s call with e | r
    · rw [hresult] at hstep
      exact hstep
    · rw [hresult] at hstep
      exact hstep
  · rintro s ⟨M, hs⟩
    exact hs.queued.length_lt le_rfl

end PhyDevice

end NetL7.Loader
