import NetL7.Loader.GroupTags
import NetL7.Loader.Rest

/-!
# Synchronous calls

Every call that loads, unloads, copies or balances takes a device at rest to a
device at rest, whether it succeeds or not.
-/

namespace NetL7.Loader

open NetL7.Lib LoaderTables

namespace LoaderTables.ImageWritten

variable {t t' : LoaderTables} {d b j : ℕ} {database : FmsDatabase} {W : Finset ℕ}
  (h : ImageWritten t d database W t')
include h

/-! ## What writing an image keeps -/

theorem entry_counts (b : ℕ) :
    (t'.databaseShadowMap b).noClonesCurrent = (t.databaseShadowMap b).noClonesCurrent ∧
      (t'.databaseShadowMap b).noClonesTarget = (t.databaseShadowMap b).noClonesTarget := by
  by_cases hb : b ∈ W
  · rw [h.entry_mem b hb]
    exact ⟨rfl, rfl⟩
  · rw [(h.notMem b hb).1]
    exact ⟨rfl, rfl⟩

/-- A valid block is a new one without copies, or has been valid before. -/
theorem valid_cases (hplaced : Placed ∅ t) (hb : (t'.databaseShadowMap b).valid = true) :
    (b ∈ W ∧ (t'.databaseShadowMap b).dbId = d ∧ (t.databaseShadowMap b).noClonesCurrent = 0) ∨
      (b ∉ W ∧ (t.databaseShadowMap b).valid = true ∧
        t'.databaseShadowMap b = t.databaseShadowMap b) := by
  by_cases hbW : b ∈ W
  · refine .inl ⟨hbW, ?_, hplaced.eq_zero_of_not_valid (h.free b hbW).2⟩
    rw [h.entry_mem b hbW]
  · have hentry := (h.notMem b hbW).1
    rw [hentry] at hb
    exact .inr ⟨hbW, hb, hentry⟩

theorem owner_eq (hplaced : Placed ∅ t) (hj : t.arrayBlockMapCurrent j = true) :
    t'.databaseShadowMap (t.arrayVirtIds j) = t.databaseShadowMap (t.arrayVirtIds j) ∧
      t'.blockGroupList (t.arrayVirtIds j) = t.blockGroupList (t.arrayVirtIds j) := by
  apply h.notMem
  intro hb
  have hvalid := (hplaced.owner_valid j hj).2
  rw [(h.free _ hb).2] at hvalid
  cases hvalid

theorem placed (hplaced : Placed ∅ t) (hd : d ≤ nlmMaxDatabaseId) : Placed ∅ t' := by
  have hcounts := h.entry_counts
  have hvalid := fun b hb ↦ h.valid_cases hplaced (b := b) hb
  have howner := fun j hj ↦ h.owner_eq hplaced (j := j) hj
  have hfree := h.free
  obtain ⟨shadowMap, groups, area, rfl⟩ := h.frame
  refine ⟨hplaced.blocks_le, fun b hb ↦ ?_, fun j hj ↦ ?_, fun b ↦ ?_, fun b hbU ↦ ?_⟩
  · change b < t.numFmsBlocks ∧ (shadowMap b).dbId ≤ nlmMaxDatabaseId
    rcases hvalid b hb with ⟨hbW, hbd, -⟩ | ⟨-, hb, hentry⟩
    · exact ⟨(hfree b hbW).1, hbd.trans_le hd⟩
    · change shadowMap b = _ at hentry
      rw [hentry]
      exact hplaced.valid_lt b hb
  · refine ⟨(hplaced.owner_valid j hj).1, ?_⟩
    have hentry := (howner j hj).1
    change shadowMap (t.arrayVirtIds j) = _ at hentry
    change (shadowMap (t.arrayVirtIds j)).valid = true
    rw [hentry]
    exact (hplaced.owner_valid j hj).2
  · exact (hplaced.card_clones b).trans (hcounts b).1.symm
  · have hcur : (shadowMap b).noClonesCurrent = _ := (hcounts b).1
    change Numbered _ _ (shadowMap b).noClonesCurrent
    rw [hcur]
    exact hplaced.numbered b hbU

end LoaderTables.ImageWritten

namespace PhyDevice

variable {hw : Hw} {device : Option NlmDevice} {U Z Z' : Set ℕ} {s s' : PhyDevice} {d : ℕ}

theorem Inv.mono {U' : Set ℕ} (h : Inv hw U s) (hU : U ⊆ U') : Inv hw U' s :=
  { h with placed := h.placed.mono hU, legal := h.legal.mono hU }

/-- Once the queue is empty the unloaded blocks may be forgotten. -/
theorem Inv.shrink_set {U' : Set ℕ} (h : Inv hw U s) (hnil : s.loaderCmdMem = [])
    (hU : ∀ b ∈ U, b ∉ U' → (s.databaseShadowMap b).noClonesCurrent = 0) : Inv hw U' s :=
  { h with placed := h.placed.shrink_set hU, legal := by rw [hnil]; trivial }

theorem blockList_written {t t' : LoaderTables} (h : Placed ∅ t)
    (hnew : t.createShadowBlockListByDbId d = []) {database : FmsDatabase} {W : Finset ℕ}
    (hw' : ImageWritten t d database W t') :
    (t'.createShadowBlockListByDbId d).length = W.card ∧
      ∀ b ∈ t'.createShadowBlockListByDbId d, b ∈ W ∧
        (t'.databaseShadowMap b).noClonesCurrent = 0 := by
  obtain ⟨shadowMap, groups, area, rfl⟩ := hw'.frame
  have hmem : ∀ b, b ∈ (t.withImage shadowMap groups area).createShadowBlockListByDbId d ↔
      b ∈ W := by
    intro b
    rw [mem_blockList]
    by_cases hb : b ∈ W
    · rw [hw'.entry_mem b hb]
      exact ⟨fun _ ↦ hb, fun _ ↦ ⟨(hw'.free b hb).1, rfl, rfl⟩⟩
    · rw [(hw'.notMem b hb).1]
      refine ⟨fun h' ↦ ?_, fun hbW ↦ absurd hbW hb⟩
      have hlist : b ∈ t.createShadowBlockListByDbId d := mem_blockList.mpr h'
      simp [hnew] at hlist
  have hW : ((t.withImage shadowMap groups area).createShadowBlockListByDbId d).toFinset = W := by
    ext b
    rw [List.mem_toFinset, hmem]
  refine ⟨?_, fun b hb ↦ ?_⟩
  · rw [← hW, List.toFinset_card_of_nodup (blockList_nodup _ d)]
  · have hbW := (hmem b).mp hb
    rw [hw'.entry_mem b hbW]
    exact ⟨hbW, h.eq_zero_of_not_valid (hw'.free b hbW).2⟩

/-- Writing an image takes no array block. -/
theorem arrayBlocksFree_written {database : FmsDatabase} {t' : LoaderTables} {W : Finset ℕ}
    (hw' : ImageWritten s.toLoaderTables d database W t') :
    (s.mapTables fun _ ↦ t').arrayBlocksFree = s.arrayBlocksFree := by
  obtain ⟨shadowMap, groups, area, rfl⟩ := hw'.frame
  rfl

/-- A loop that ends has seen only blocks whose target is met, and reports the
copies of one of them. -/
theorem numCopiesLoop_spec {t : LoaderTables} {is : List ℕ} {n c : ℕ}
    (h : numCopiesLoop t d is n = some c) :
    (∀ i ∈ is, (t.databaseShadowMap i).valid = true → (t.databaseShadowMap i).dbId = d →
      (t.databaseShadowMap i).noClonesCurrent = (t.databaseShadowMap i).noClonesTarget) ∧
    ((c = n ∧ ∀ i ∈ is, (t.databaseShadowMap i).valid = true →
      (t.databaseShadowMap i).dbId ≠ d) ∨
    ∃ i ∈ is, (t.databaseShadowMap i).valid = true ∧ (t.databaseShadowMap i).dbId = d ∧
      (t.databaseShadowMap i).noClonesCurrent = c) := by
  induction is generalizing n with
  | nil =>
    obtain rfl : n = c := by simpa [numCopiesLoop] using h
    exact ⟨by simp, .inl ⟨rfl, by simp⟩⟩
  | cons i is ih =>
    by_cases hi : (t.databaseShadowMap i).valid = true ∧ (t.databaseShadowMap i).dbId = d
    · by_cases hne : (t.databaseShadowMap i).noClonesCurrent =
        (t.databaseShadowMap i).noClonesTarget
      swap
      · simp [numCopiesLoop, hi.1, hi.2, hne] at h
      have hnext : numCopiesLoop t d is (t.databaseShadowMap i).noClonesCurrent = some c := by
        simpa [numCopiesLoop, hi.1, hi.2, hne] using h
      obtain ⟨hmet, hlast⟩ := ih hnext
      refine ⟨fun x hx hvalid hdb ↦ ?_, .inr ?_⟩
      · rcases List.mem_cons.mp hx with rfl | hx
        · exact hne
        · exact hmet x hx hvalid hdb
      · rcases hlast with ⟨hc, -⟩ | ⟨x, hx, hlast⟩
        · exact ⟨i, List.mem_cons_self, hi.1, hi.2, hc.symm⟩
        · exact ⟨x, List.mem_cons_of_mem i hx, hlast⟩
    · have hskip : numCopiesLoop t d is n = some c := by
        rcases hvalid : (t.databaseShadowMap i).valid with _ | _
        · simpa [numCopiesLoop, hvalid] using h
        · have hdb : (t.databaseShadowMap i).dbId ≠ d := fun hdb ↦ hi ⟨hvalid, hdb⟩
          simpa [numCopiesLoop, hvalid, hdb] using h
      obtain ⟨hmet, hlast⟩ := ih hskip
      refine ⟨fun x hx hvalid hdb ↦ ?_, ?_⟩
      · rcases List.mem_cons.mp hx with rfl | hx
        · exact absurd ⟨hvalid, hdb⟩ hi
        · exact hmet x hx hvalid hdb
      · rcases hlast with ⟨hc, hnone⟩ | ⟨x, hx, hlast⟩
        · refine .inl ⟨hc, fun x hx hvalid hdb ↦ ?_⟩
          rcases List.mem_cons.mp hx with rfl | hx
          · exact hi ⟨hvalid, hdb⟩
          · exact hnone x hx hvalid hdb
        · exact .inr ⟨x, List.mem_cons_of_mem i hx, hlast⟩

/-- The blocks of database `d` hold the image and have the copies asked for. -/
structure Loaded (s : PhyDevice) (d : ℕ) (db : FmsDatabase) (numCopies : ℕ) (s' : PhyDevice) :
    Prop where
  ringId_eq : s'.fmsRingId = s.fmsRingId
  numFmsBlocks_eq : s'.numFmsBlocks = s.numFmsBlocks
  numRows_eq : s'.numRowsPerFmsBlock = s.numRowsPerFmsBlock
  copies_eq : ∀ b ∈ s'.createShadowBlockListByDbId d,
    (s'.databaseShadowMap b).noClonesCurrent = numCopies
  groups_eq : ∀ b ∈ s'.createShadowBlockListByDbId d,
    ∃ i, s'.blockGroupList b = groupListOfRows (db.block i).row

namespace AtRest

/-- The common end of the calls has nothing left to do. -/
theorem finishByPolicy_eq (h : AtRest hw Z s) (hg : loaderGuard device s = none) :
    Outcome (· = (.ok, s)) (DmaStuck hw) (finishByPolicy hw device s) := by
  have hexec := h.exec_eq hg
  unfold finishByPolicy
  rw [if_pos h.policy_ne]
  refine drain_outcome (P := (· = s)) ?_ rfl
  rintro _ rfl
  rw [hexec]
  exact ⟨fun _ ↦ rfl, fun _ ↦ rfl⟩

theorem balance (h : AtRest hw Z s) :
    Outcome (fun r ↦ (r.2 = s ∧ (loaderGuard device s = none →
        shadowBlocksOccupied s.toLoaderTables = 0)) ∨
      (r.1 = .ok ∧ AtRest hw ∅ r.2 ∧ SameDatabases s r.2)) (DmaStuck hw)
      (nlmDeviceDatabaseBalance hw device s) := by
  unfold nlmDeviceDatabaseBalance
  rcases hg : loaderGuard device s with _ | status
  · simp only
    by_cases hocc : shadowBlocksOccupied s.toLoaderTables = 0
    · rw [if_pos hocc]
      exact .inl ⟨rfl, fun _ ↦ hocc⟩
    · rw [if_neg hocc]
      refine (balanceLoops_at_rest h hg hocc).imp ?_
      rintro r ⟨hok, hr, hsame, heq⟩
      refine .inr ⟨hok, hr.of_pos fun b hvalid ↦ ?_, hsame⟩
      rw [heq b hvalid]
      exact (balancedCopies_spec hocc).1
  · exact .inl ⟨rfl, fun hnone ↦ by simp at hnone⟩

/-! ## Loading -/

/-- A device at rest into which an image has been written. The new blocks have
no copies yet. -/
theorem write (h : AtRest hw Z s) (hd : d ≤ nlmMaxDatabaseId)
    (hnew : s.createShadowBlockListByDbId d = []) {database : FmsDatabase} {W : Finset ℕ}
    {t' : LoaderTables} (hw' : ImageWritten s.toLoaderTables d database W t') :
    AtRest hw (insert d Z) (s.mapTables fun _ ↦ t') := by
  have hplaced := h.inv.placed
  have hcounts := hw'.entry_counts
  have hvalid := fun b hb ↦ hw'.valid_cases hplaced (b := b) hb
  have hplaced' := hw'.placed hplaced hd
  have hdb : ∀ b, (s.databaseShadowMap b).valid = true → (s.databaseShadowMap b).dbId ≠ d := by
    intro b hvalid hbd
    have hmem := h.mem_own_list hvalid
    simp [hbd, hnew] at hmem
  have howner := fun j hj ↦ hw'.owner_eq hplaced (j := j) hj
  obtain ⟨shadowMap, groups, area, rfl⟩ := hw'.frame
  have hsettled : (s.mapTables fun _ ↦ s.toLoaderTables.withImage shadowMap groups area).settled =
      s.toLoaderTables.withImage shadowMap groups area := settled_of_nil h.queue_nil
  refine ⟨⟨hplaced', ?_, ?_, fun b ↦ ?_, h.inv.noResumeWait, h.inv.waitOk,
    h.inv.pauseTimeout_eq⟩, h.queue_nil, h.policy_ne, fun b ↦ ?_, fun b hb hbZ ↦ ?_,
    fun b b' hb hb' hbb ↦ ?_, ?_, h.written⟩
  · change Legal ∅ s.loaderCmdMem _
    rw [h.queue_nil]
    trivial
  · rw [hsettled]
    exact h.target_eq_current
  · rw [hsettled]
    exact (hcounts b).2.trans ((h.noClonesTarget_eq b).trans (hcounts b).1.symm)
  · exact (hcounts b).1.trans_le (h.copies_le b)
  · change 1 ≤ (shadowMap b).noClonesCurrent
    change (shadowMap b).dbId ∉ insert d Z at hbZ
    rcases hvalid b hb with ⟨-, hbd, -⟩ | ⟨-, hb, hentry⟩
    · exact absurd (Set.mem_insert_iff.mpr (.inl hbd)) hbZ
    · change shadowMap b = _ at hentry
      rw [hentry] at hbZ ⊢
      exact h.copies_pos b hb fun hmem ↦ hbZ (Set.mem_insert_of_mem d hmem)
  · change (shadowMap b).dbId = (shadowMap b').dbId at hbb
    change (shadowMap b).noClonesCurrent = (shadowMap b').noClonesCurrent
    rcases hvalid b hb with ⟨-, hbd, hzero⟩ | ⟨-, hb, hentry⟩
    · change (shadowMap b).dbId = d at hbd
      rcases hvalid b' hb' with ⟨-, -, hzero'⟩ | ⟨-, hb', hentry'⟩
      · exact ((hcounts b).1.trans hzero).trans ((hcounts b').1.trans hzero').symm
      · change shadowMap b' = _ at hentry'
        rw [hbd, hentry'] at hbb
        exact absurd hbb.symm (hdb b' hb')
    · change shadowMap b = _ at hentry
      rcases hvalid b' hb' with ⟨-, hbd', -⟩ | ⟨-, hb', hentry'⟩
      · change (shadowMap b').dbId = d at hbd'
        rw [hbd', hentry] at hbb
        exact absurd hbb (hdb b hb)
      · change shadowMap b' = _ at hentry'
        rw [hentry, hentry'] at hbb ⊢
        exact h.uniform b b' hb hb' hbb
  · intro d' g k j
    change s.gidBit d' g k j = true ↔ j ∉ (∅ : Set ℕ) ∧ s.arrayBlockMapCurrent j = true ∧
      (shadowMap (s.arrayVirtIds j)).valid = true ∧ (shadowMap (s.arrayVirtIds j)).dbId = d' ∧
      g ∈ groups (s.arrayVirtIds j) ∧ s.arrayBlockCopyNumber j + k = 3
    rw [h.routed d' g k j]
    refine and_congr Iff.rfl (and_congr_right fun hj ↦ ?_)
    obtain ⟨hentry, hgroups⟩ := howner j hj
    change shadowMap _ = _ at hentry
    change groups _ = _ at hgroups
    rw [hentry, hgroups]

theorem check_ok {database : Option FmsDatabase} {dbSize : ℕ}
    (h : nlmLoaderFmsCheckParamsAndHead s database dbSize = .ok) :
    1 ≤ numBlocksOfSize dbSize := by
  rcases database with _ | db
  · simp [nlmLoaderFmsCheckParamsAndHead] at h
  · simp only [nlmLoaderFmsCheckParamsAndHead] at h
    split_ifs at h with h₁ h₂ h₃
    all_goals first | exact NlmStatus.noConfusion h | omega

/-- An image that is not loaded yet and finds enough space is loaded, with the copies asked
for or, with none asked for, with as many as the balancing gives it. -/
theorem loadChecked_ok (h : AtRest hw ∅ s) (hg : loaderGuard device s = none)
    (hd : d ≤ nlmMaxDatabaseId) (db : FmsDatabase) {numBlocks numCopies : ℕ}
    (hblocks : 1 ≤ numBlocks) (hfour : numCopies ≤ 4)
    (hnew : s.createShadowBlockListByDbId d = [])
    (harray : numBlocks * numCopies ≤ s.arrayBlocksFree ∨ numCopies = 0)
    (hshadow : numBlocks ≤ s.getNumShadowBlocksFree) :
    Outcome (fun r ↦ r.1 = .ok ∧ AtRest hw ∅ r.2 ∧
        (r.2.createShadowBlockListByDbId d).length = numBlocks ∧
        (0 < numCopies → Loaded s d db numCopies r.2)) (DmaStuck hw)
      (PhyDevice.loadChecked hw device (some db) .ok numBlocks d numCopies s) := by
  obtain ⟨t', W, heq, hcard, hwritten⟩ :=
    nlmDeviceWriteDatabaseToShadow_ok (d := d) db hshadow
  have hspace : ¬(0 < numCopies ∧ s.arrayBlocksFree < numBlocks * numCopies) := by omega
  simp only [PhyDevice.loadChecked, hnew, heq, if_neg (Nat.not_lt.mpr hfour), if_neg hspace]
  have hrest := h.write hd hnew hwritten
  obtain ⟨hlen, hzero⟩ := blockList_written h.inv.placed hnew hwritten
  rw [hcard] at hlen
  have hne : t'.createShadowBlockListByDbId d ≠ [] :=
    List.ne_nil_of_length_pos (hlen ▸ hblocks)
  have hfinish : ∀ r : NlmStatus × PhyDevice, r.1 = .ok → AtRest hw ∅ r.2 →
      loaderGuard device r.2 = none →
      Outcome (· = (.ok, r.2)) (DmaStuck hw)
        (if r.1 ≠ .ok then Except.ok (r.1, r.2) else finishByPolicy hw device r.2) := by
    rintro ⟨status, s₂⟩ hok hs₂ hg₂
    rw [if_neg (not_not.mpr hok)]
    exact hs₂.finishByPolicy_eq hg₂
  have hguard : loaderGuard device (s.mapTables fun _ ↦ t') = none := hg
  by_cases hcopies : numCopies = 0
  · simp only [hcopies, ne_eq, not_true_eq_false, if_false]
    refine Outcome.bind hrest.balance ?_
    rintro r (⟨-, hocc⟩ | ⟨hok, hr, hsame⟩)
    · obtain ⟨b, hb⟩ := List.exists_mem_of_ne_nil _ hne
      obtain ⟨hlt, hvalid, -⟩ := mem_blockList.mp hb
      have hpos : 0 < shadowBlocksOccupied (s.mapTables fun _ ↦ t').toLoaderTables :=
        List.countP_pos_iff.mpr ⟨b, List.mem_range.mpr hlt, hvalid⟩
      have hocc := hocc hguard
      omega
    · refine (hfinish r hok hr ((loaderGuard_congr hsame.ringId_eq).trans hguard)).imp ?_
      rintro _ rfl
      exact ⟨rfl, hr, (congrArg List.length (hsame.blockList_eq d)).trans hlen, by simp⟩
  · simp only [hcopies, ne_eq, not_false_eq_true, if_true]
    refine Outcome.bind (set_at_rest hrest (Nat.pos_of_ne_zero hcopies)) ?_
    rintro r (⟨-, -, -, hfull⟩ | ⟨hok, hr, hset⟩)
    · have hfull := (hfull hguard hd hfour hne 0 fun b hb ↦ (hzero b hb).2).2
      have hlen' : ((s.mapTables fun _ ↦ t').createShadowBlockListByDbId d).length =
        numBlocks := hlen
      rw [arrayBlocksFree_written hwritten, hlen', Nat.sub_zero] at hfull
      omega
    · have hr : AtRest hw ∅ r.2 := hr.mono (by simp)
      refine (hfinish r hok hr ((loaderGuard_congr hset.ringId_eq).trans hguard)).imp ?_
      rintro _ rfl
      have hlist := hset.sameDatabases.blockList_eq d
      obtain ⟨shadowMap, groups, area, rfl⟩ := hwritten.frame
      refine ⟨rfl, hr, (congrArg List.length hlist).trans hlen, fun _ ↦ ⟨hset.ringId_eq,
        hset.numFmsBlocks_eq, hset.numRows_eq, fun b hb ↦ ?_, fun b hb ↦ ?_⟩⟩
      · rw [hlist] at hb
        exact hset.copies_mem b hb
      · rw [hlist] at hb
        obtain ⟨i, hgroups⟩ := hwritten.groups_mem b (hzero b hb).1
        exact ⟨i, (congrFun hset.groups_eq b).trans hgroups⟩

theorem loadChecked (h : AtRest hw ∅ s) (hg : loaderGuard device s = none)
    (hd : d ≤ nlmMaxDatabaseId) (database : Option FmsDatabase) (headStatus : NlmStatus)
    {numBlocks : ℕ} (hblocks : headStatus = .ok → 1 ≤ numBlocks) (numCopies : ℕ) :
    Outcome (fun r ↦ AtRest hw ∅ r.2) (DmaStuck hw)
      (PhyDevice.loadChecked hw device database headStatus numBlocks d numCopies s) := by
  rcases database with _ | db
  · exact h
  by_cases hhead : headStatus = .ok
  swap
  · unfold PhyDevice.loadChecked
    split
    · exact absurd rfl hhead
    · exact h
  subst hhead
  rcases hlist : s.createShadowBlockListByDbId d with _ | ⟨blk, blks⟩
  swap
  · simp only [PhyDevice.loadChecked, hlist]
    exact h
  by_cases hfour : 4 < numCopies
  · simp only [PhyDevice.loadChecked, hlist, if_pos hfour]
    exact h
  by_cases hspace : 0 < numCopies ∧ s.arrayBlocksFree < numBlocks * numCopies
  · simp only [PhyDevice.loadChecked, hlist, if_neg hfour, if_pos hspace]
    exact h
  by_cases hshadow : s.getNumShadowBlocksFree < numBlocks
  · simp only [PhyDevice.loadChecked, hlist, if_neg hfour, if_neg hspace,
      nlmDeviceWriteDatabaseToShadow, if_pos hshadow]
    exact h
  exact (h.loadChecked_ok hg hd db (hblocks rfl) (Nat.not_lt.mp hfour) hlist (by omega)
    (Nat.not_lt.mp hshadow)).imp fun r hr ↦ hr.2.1

/-- The call as a whole, for an image of the right size. -/
theorem load_written (h : AtRest hw ∅ s) (hg : loaderGuard device s = none)
    (hd : d ≤ nlmMaxDatabaseId) (db : FmsDatabase) {dbSize numCopies : ℕ}
    (hhead : nlmLoaderFmsCheckParamsAndHead s (some db) dbSize = .ok) (hfour : numCopies ≤ 4)
    (hnew : s.createShadowBlockListByDbId d = [])
    (harray : numBlocksOfSize dbSize * numCopies ≤ s.arrayBlocksFree ∨ numCopies = 0)
    (hshadow : numBlocksOfSize dbSize ≤ s.getNumShadowBlocksFree) :
    Outcome (fun r ↦ r.1 = .ok ∧ AtRest hw ∅ r.2 ∧
        (r.2.createShadowBlockListByDbId d).length = numBlocksOfSize dbSize ∧
        (0 < numCopies → Loaded s d db numCopies r.2)) (DmaStuck hw)
      (nlmDeviceLoadDatabase hw device (some db) dbSize d numCopies s) := by
  simp only [nlmDeviceLoadDatabase, hg, if_neg (Nat.not_lt.mpr hd), h.exec_eq hg, bind,
    Except.bind, reduceCtorEq, if_false, hhead]
  exact h.loadChecked_ok hg hd db (check_ok hhead) hfour hnew harray hshadow

theorem load (h : AtRest hw ∅ s) (database : Option FmsDatabase) (dbSize numCopies : ℕ) :
    Outcome (fun r ↦ AtRest hw ∅ r.2) (DmaStuck hw)
      (nlmDeviceLoadDatabase hw device database dbSize d numCopies s) := by
  unfold nlmDeviceLoadDatabase
  rcases hg : loaderGuard device s with _ | status
  swap
  · exact h
  simp only
  by_cases hd : nlmMaxDatabaseId < d
  · rw [if_pos hd]
    exact h
  rw [if_neg hd, h.exec_eq hg]
  simp only [bind, Except.bind, reduceCtorEq, if_false]
  exact h.loadChecked hg (Nat.not_lt.mp hd) database _ check_ok numCopies

/-! ## Unloading -/

theorem unloadCost_lt (h : AtRest hw Z s) (d : ℕ) :
    unloadCost s.toLoaderTables (s.createShadowBlockListByDbId d) <
      nlmFmsLoaderCmdBuffSize := by
  obtain ⟨c, -, hc⟩ := h.exists_copies d
  have hcost : unloadCost s.toLoaderTables (s.createShadowBlockListByDbId d) =
      (s.createShadowBlockListByDbId d).length * (4 * c + 1) := by
    unfold unloadCost
    rw [List.map_congr_left fun b hb ↦ by rw [h.inv.placed.card_clones b, hc b hb],
      List.map_const', List.sum_replicate, Nat.nsmul_eq_mul]
  have hfit := length_mul_le h.inv (d := d) (c := c) fun b hb ↦
    (h.noClonesTarget_eq b).trans (hc b hb)
  have hlen : (s.createShadowBlockListByDbId d).length ≤ s.numFmsBlocks := by
    unfold createShadowBlockListByDbId
    exact (List.length_filter_le _ _).trans_eq (List.length_range ..)
  have hN : s.numFmsBlocks ≤ 12 := h.inv.placed.blocks_le
  change _ < 14 * 12
  rw [hcost, Nat.mul_succ, Nat.mul_left_comm]
  omega

/-- The entries after an unload whose queue has been worked off. -/
theorem unloaded_entry {bs : List ℕ} {s₁ : PhyDevice} (h : AtRest hw ∅ s)
    (hall : UnloadAll bs s s₁) (hpost : UnloadedPost hw {b | b ∈ bs} bs s s₁)
    {r : NlmStatus × PhyDevice} (hr : DrainPost hw {b | b ∈ bs} s₁ r) (b : ℕ) :
    (r.2.databaseShadowMap b).noClonesCurrent =
        (if b ∈ bs then 0 else (s.databaseShadowMap b).noClonesCurrent) ∧
      (r.2.databaseShadowMap b).dbId = (s.databaseShadowMap b).dbId ∧
      (r.2.databaseShadowMap b).valid =
        (if b ∈ bs then false else (s.databaseShadowMap b).valid) := by
  rw [hr.tables_eq]
  refine ⟨?_, ?_, ?_⟩
  · rw [← hpost.inv.settled_placed.card_clones b, hpost.clones_eq, h.settled_eq,
      ← h.inv.placed.card_clones b]
    split
    · rfl
    · rfl
  · rw [settled_dbId, (hall.sameView.entry_eq b).2.2]
  · rw [hpost.valid_eq, h.settled_eq]

/-- The tables after an unload whose queue has been worked off. -/
theorem of_unloadAll {bs : List ℕ} {s₁ : PhyDevice} (h : AtRest hw ∅ s)
    (hall : UnloadAll bs s s₁) (hpost : UnloadedPost hw {b | b ∈ bs} bs s s₁)
    (hbmap : BmapOk s₁) {r : NlmStatus × PhyDevice} (hr : DrainPost hw {b | b ∈ bs} s₁ r) :
    AtRest hw ∅ r.2 := by
  have hentry := h.unloaded_entry hall hpost hr
  have hcur := fun b ↦ (hentry b).1
  have hdb := fun b ↦ (hentry b).2.1
  have hvalid : ∀ b, (r.2.databaseShadowMap b).valid = true →
      b ∉ bs ∧ (s.databaseShadowMap b).valid = true := by
    intro b hb
    rw [(hentry b).2.2] at hb
    by_cases hmem : b ∈ bs
    · simp [hmem] at hb
    · exact ⟨hmem, by simpa [hmem] using hb⟩
  refine ⟨hr.inv.shrink_set hr.queue_nil fun b hb _ ↦ ?_, hr.queue_nil, ?_, fun b ↦ ?_,
    fun b hb _ ↦ ?_, fun b b' hb hb' hbb ↦ ?_, ?_, ?_⟩
  · rw [hcur]
    exact if_pos hb
  · rw [hr.policy_eq, hall.config_eq.2.1]
    exact h.policy_ne
  · rw [hcur]
    split
    · exact Nat.zero_le 4
    · exact h.copies_le b
  · obtain ⟨hmem, hb⟩ := hvalid b hb
    rw [hcur, if_neg hmem]
    exact h.copies_pos b hb (Set.notMem_empty _)
  · obtain ⟨hmem, hb⟩ := hvalid b hb
    obtain ⟨hmem', hb'⟩ := hvalid b' hb'
    rw [hdb, hdb] at hbb
    rw [hcur, hcur, if_neg hmem, if_neg hmem']
    exact h.uniform b b' hb hb' hbb
  · rw [hr.tables_eq]
    exact hbmap.routed
  · rw [hr.tables_eq]
    exact hbmap.written

/-- An accepted unload takes the blocks of the database out of service and works off the
queue. -/
theorem unload_accepted (h : AtRest hw ∅ s) (hg : loaderGuard device s = none)
    (hd : d ≤ nlmMaxDatabaseId) {bs : List ℕ} (hbs : s.createShadowBlockListByDbId d = bs)
    (hne : bs ≠ []) :
    Outcome (fun r ↦ ∃ s₁, UnloadAll bs s s₁ ∧ UnloadedPost hw {b | b ∈ bs} bs s s₁ ∧
        BmapOk s₁ ∧ DrainPost hw {b | b ∈ bs} s₁ r ∧
        r.2.numRowsPerFmsBlock = s.numRowsPerFmsBlock) (DmaStuck hw)
      (nlmDeviceUnloadDatabase hw device d s) := by
  simp only [nlmDeviceUnloadDatabase, hg, if_neg (Nat.not_lt.mpr hd), h.exec_eq hg, bind,
    Except.bind, reduceCtorEq, if_false, hbs, if_neg hne]
  have hnodup : bs.Nodup := hbs ▸ s.blockList_nodup d
  have hU : Inv hw {b | b ∈ bs} s := h.inv.mono (Set.empty_subset _)
  have hclones : ∀ b, s.settled.clones b = s.clones b := fun b ↦ by rw [h.settled_eq]
  have hlt : ∀ b ∈ bs, b < 16 := by
    rintro b hb
    rw [← hbs] at hb
    exact ((mem_blockList.mp hb).1.trans_le h.inv.placed.blocks_le).trans (by decide)
  refine Outcome.bind (unloadAll_outcome hU hnodup
    (fun b hb ↦ ⟨hb, hclones b, hlt b hb⟩) fun hfull ↦ ?_) ?_
  · have hcost := h.unloadCost_lt d
    rw [h.queue_nil, List.length_nil, Nat.zero_add, ← hbs] at hfull
    exact absurd hcost (Nat.not_lt.mpr hfull)
  intro s₁ hall
  have hpost := hall.post hU hnodup fun b hb ↦ ⟨hb, hclones b⟩
  have hbmap := hall.bmapOk hU hnodup (fun b hb ↦ ⟨hb, hclones b⟩)
    (by rw [h.settled_eq]) h.bmapOk
  obtain ⟨hring, hpolicy, hrows⟩ := hall.config_eq
  unfold finishByPolicy
  rw [if_pos (by rw [hpolicy]; exact h.policy_ne)]
  refine (drain_spec hpost.inv ((loaderGuard_congr hring).trans hg)).imp fun r hr ↦ ?_
  exact ⟨s₁, hall, hpost, hbmap, hr, hr.numRows_eq.trans hrows⟩

theorem unload (h : AtRest hw ∅ s) :
    Outcome (fun r ↦ AtRest hw ∅ r.2) (DmaStuck hw)
      (nlmDeviceUnloadDatabase hw device d s) := by
  rcases hg : loaderGuard device s with _ | status
  swap
  · simp only [nlmDeviceUnloadDatabase, hg]
    exact h
  by_cases hd : nlmMaxDatabaseId < d
  · simp only [nlmDeviceUnloadDatabase, hg, if_pos hd]
    exact h
  by_cases hlist : s.createShadowBlockListByDbId d = []
  · simp only [nlmDeviceUnloadDatabase, hg, if_neg hd, h.exec_eq hg, bind, Except.bind,
      reduceCtorEq, if_false, if_pos hlist]
    exact h
  refine (h.unload_accepted hg (Nat.not_lt.mp hd) rfl hlist).imp ?_
  rintro r ⟨s₁, hall, hpost, hbmap, hr, -⟩
  exact h.of_unloadAll hall hpost hbmap hr

/-! ## The other calls -/

theorem getNumCopies (h : AtRest hw ∅ s) :
    Outcome (fun r ↦ r.2.2 = s) (DmaStuck hw)
      (nlmDeviceDatabaseGetNumCopies hw device d s) := by
  unfold nlmDeviceDatabaseGetNumCopies
  rcases hg : loaderGuard device s with _ | status
  swap
  · rfl
  simp only
  split_ifs with hd
  · rfl
  split
  · rfl
  · rename_i hzero
    have hnil : s.createShadowBlockListByDbId d = [] := by
      rw [List.eq_nil_iff_forall_not_mem]
      intro b hb
      obtain ⟨hlt, hvalid, hbd⟩ := mem_blockList.mp hb
      obtain ⟨-, ⟨-, hnone⟩ | ⟨i, -, hi, -, hcur⟩⟩ := numCopiesLoop_spec hzero
      · exact hnone b (List.mem_range.mpr hlt) hvalid hbd
      · have hpos := h.copies_pos i hi (Set.notMem_empty _)
        omega
    simp [hnil, prettyAssert, bind, Except.bind]
  · rw [h.exec_eq hg]
    rfl

theorem setParamCopyCnt (h : AtRest hw ∅ s) (numCopies : ℕ) :
    Outcome (fun r ↦ AtRest hw ∅ r.2) (DmaStuck hw)
      (PhyDevice.setParamCopyCnt hw device d numCopies s) := by
  unfold PhyDevice.setParamCopyCnt
  split
  · exact h
  split_ifs with hd hrange
  · exact h
  · exact h
  have hset : Outcome (fun r ↦ AtRest hw ∅ r.2) (DmaStuck hw)
      (nlmDeviceDatabaseSetNumCopies hw device d numCopies s) := by
    refine (set_at_rest h (by omega)).imp ?_
    rintro r (⟨hsame, -⟩ | ⟨-, hr, -⟩)
    · rw [hsame]
      exact h
    · exact hr.mono Set.sdiff_subset
  have hcall : ∀ status : NlmStatus, Outcome (fun r ↦ AtRest hw ∅ r.2) (DmaStuck hw)
      (if status = .loaderInProgress then
        (Except.ok (CallResult.ofStatus .busy, s) : Except Halt _)
      else nlmDeviceDatabaseSetNumCopies hw device d numCopies s >>= fun r ↦
        .ok (⟨.ok, some r.1, none⟩, r.2)) := by
    intro status
    split
    · exact h
    · exact Outcome.bind hset fun r hr ↦ hr
  rcases hg : loaderGuard device s with _ | status
  · rw [h.exec_eq hg]
    exact hcall .ok
  · rw [exec_of_guard hg]
    exact hcall status

end AtRest

/-! ## Runs -/

end PhyDevice

/-- The call does not select the asynchronous policy. -/
def LoaderCall.Synchronous : LoaderCall → Prop
  | .setLoadPolicy _ policy => policy % 256 ≠ databaseLoadPolicyAsync
  | _ => True

namespace PhyDevice

theorem AtRest.callStep (h : AtRest hw ∅ s) {call : LoaderCall} (hcall : call.Synchronous) :
    Outcome (fun r ↦ AtRest hw ∅ r.2) (DmaStuck hw) (callStep hw s call) := by
  cases call with
  | load device database dbSize databaseId numCopies =>
    exact Outcome.bind (h.load database dbSize numCopies) fun r hr ↦ hr
  | unload device databaseId => exact Outcome.bind h.unload fun r hr ↦ hr
  | setCopyCnt device databaseId numCopies => exact h.setParamCopyCnt numCopies
  | balance device =>
    rcases hp : paramGuard device with _ | status
    · simp only [PhyDevice.callStep, PhyDevice.setParamBalance, hp]
      refine Outcome.bind h.balance ?_
      rintro r (⟨hsame, -⟩ | ⟨-, hr, -⟩)
      · change AtRest hw ∅ r.2
        rw [hsame]
        exact h
      · exact hr
    · simp only [PhyDevice.callStep, PhyDevice.setParamBalance, hp]
      exact h
  | setLoadPolicy device policy =>
    rcases hp : paramGuard device with _ | status
    · simp only [PhyDevice.callStep, PhyDevice.setParamLoadPolicy, hp]
      exact ⟨{ h.inv with }, h.queue_nil, hcall, h.copies_le, h.copies_pos, h.uniform,
        h.routed, h.written⟩
    · simp only [PhyDevice.callStep, PhyDevice.setParamLoadPolicy, hp]
      exact h
  | getCopyCnt device databaseId =>
    rcases hp : paramGuard device with _ | status
    · simp only [PhyDevice.callStep, hp]
      refine Outcome.bind h.getNumCopies fun r hr ↦ ?_
      change AtRest hw ∅ r.2.2
      rw [hr]
      exact h
    · simp only [PhyDevice.callStep, hp]
      exact h
  | loaderStatus device =>
    rcases hp : paramGuard device with _ | status
    · simp only [PhyDevice.callStep, hp]
      rcases hg : loaderGuard device s with _ | status
      · rw [h.exec_eq hg]
        exact h
      · rw [exec_of_guard hg]
        exact h
    · simp only [PhyDevice.callStep, hp]
      exact h

theorem atRest_initDevice (hw : Hw) (c : LoaderConfig) : AtRest hw ∅ c.initDevice := by
  have hclones : ∀ b, c.initDevice.toLoaderTables.clones b = ∅ := by
    intro b
    simp [clones, LoaderConfig.initDevice]
  have hplaced : Placed ∅ c.initDevice.toLoaderTables := by
    refine ⟨c.numFmsBlocks_le, fun b hb ↦ Bool.noConfusion hb,
      fun j hj ↦ Bool.noConfusion hj, fun b ↦ ?_, fun b _ ↦ ?_⟩
    · rw [hclones]
      rfl
    · rw [hclones]
      exact Numbered.empty _
  refine ⟨⟨hplaced, trivial, rfl, fun _ ↦ rfl, fun c hc ↦ absurd hc List.not_mem_nil,
    ⟨List.isChain_nil, fun c hc ↦ absurd hc (by simp [LoaderConfig.initDevice])⟩, rfl⟩, rfl,
    by simp [LoaderConfig.initDevice], fun _ ↦ Nat.zero_le 4, fun b hb ↦ Bool.noConfusion hb,
    fun b _ hb ↦ Bool.noConfusion hb, fun d g k j ↦ ?_, rfl, fun d g ↦ ?_⟩
  · simp [gidBit, GidBitmapData.bit, LoaderConfig.initDevice, GidBitmapData.zero]
  · intro k
    simp [LoaderConfig.initDevice, GidBitmapData.zero]

theorem runCalls_atRest (h : AtRest hw ∅ s) (calls : List LoaderCall)
    (hcalls : ∀ call ∈ calls, call.Synchronous) :
    Outcome (AtRest hw ∅) (DmaStuck hw) (runCalls hw s calls) := by
  let I : List LoaderCall → PhyDevice → Prop := fun rest s ↦
    AtRest hw ∅ s ∧ ∀ call ∈ rest, call.Synchronous
  refine (Outcome.foldlM I ?_ ⟨h, hcalls⟩).imp fun s hs ↦ hs.1
  rintro call rest s ⟨hs, hrest⟩
  have hstep := hs.callStep (hrest call (by simp))
  rcases hresult : callStep hw s call with e | r
  · rw [hresult] at hstep
    exact hstep
  · rw [hresult] at hstep
    exact ⟨hstep, fun call' hcall' ↦ hrest call' (by simp [hcall'])⟩

/-! ## A sample run -/

/-- Hardware that is never busy. -/
def idleHw : Hw := ⟨fun _ ↦ true, fun _ ↦ ⟨0, rfl⟩⟩

/-- A master ring with four array blocks. -/
def fourBlocks : LoaderConfig := ⟨4, famosBlockSize, 0, by decide, by decide⟩

/-- An image without rules. -/
def blankImage : FmsDatabase :=
  ⟨fmsAsmFamosFpga, fun _ ↦ ⟨fun _ ↦ ⟨0, 0, 0⟩, fun _ ↦ ⟨0, 0, 0, 0⟩⟩⟩

/-- An image of which every row belongs to group 5. -/
def groupImage : FmsDatabase :=
  ⟨fmsAsmFamosFpga, fun _ ↦ ⟨fun _ ↦ ⟨0x00500000, 0, 0⟩, fun _ ↦ ⟨0, 0, 0, 0⟩⟩⟩

theorem groupListOfRows_groupImage (n : ℕ) : 5 ∈ groupListOfRows (groupImage.block n).row := by
  rw [groupListOfRows_eq, List.mem_eraseDups, rowGroups]
  refine List.mem_filter.mpr ⟨List.mem_map.mpr ⟨0, List.mem_range.mpr (by decide), ?_⟩, by decide⟩
  change (FmsRowHw.gid ⟨0x00500000, 0, 0⟩).toNat % 1024 = 5
  decide

/-- Thread 0 loads a database of one block with two copies. -/
def sampleCalls : List LoaderCall :=
  let device : Option NlmDevice := some ⟨0⟩
  [.setLoadPolicy device 1,
    .load device (some groupImage) (sizeofFmsFileSig + sizeofFmsBlockHw) 0 2]

theorem sampleCalls_synchronous : ∀ call ∈ sampleCalls, call.Synchronous := by
  simp [sampleCalls, LoaderCall.Synchronous]

theorem idleHw_prompt : idleHw.Prompt := by
  intro n
  have hzero : idleHw.delay n = 0 := (Nat.find_eq_zero _).mpr rfl
  rw [hzero]
  decide

/-- The device before the load. -/
def policySet : PhyDevice := { fourBlocks.initDevice with databaseLoadPolicy := 1 }

theorem policySet_atRest : AtRest idleHw ∅ policySet := by
  have hrun := runCalls_atRest (atRest_initDevice idleHw fourBlocks) [.setLoadPolicy (some ⟨0⟩) 1]
    (by simp [LoaderCall.Synchronous])
  exact hrun.of_eq_ok rfl

theorem runCalls_policy_load (database : Option FmsDatabase) (dbSize : ℕ) :
    runCalls idleHw fourBlocks.initDevice [.setLoadPolicy (some ⟨0⟩) 1,
      .load (some ⟨0⟩) database dbSize 0 2] =
      (nlmDeviceLoadDatabase idleHw (some ⟨0⟩) database dbSize 0 2 policySet).map Prod.snd := by
  change (callStep idleHw policySet _).map Prod.snd >>= _ = _
  simp only [callStep]
  cases nlmDeviceLoadDatabase idleHw (some ⟨0⟩) database dbSize 0 2 policySet <;> rfl

theorem sampleCalls_loaded : ∃ s, runCalls idleHw fourBlocks.initDevice sampleCalls = .ok s ∧
    AtRest idleHw ∅ s ∧ (s.createShadowBlockListByDbId 0).length = 1 ∧
      Loaded policySet 0 groupImage 2 s := by
  have hcnt : numBlocksOfSize (sizeofFmsFileSig + sizeofFmsBlockHw) = 1 := rfl
  have hhead : nlmLoaderFmsCheckParamsAndHead policySet (some groupImage)
      (sizeofFmsFileSig + sizeofFmsBlockHw) = .ok := by
    simp [nlmLoaderFmsCheckParamsAndHead, hcnt, policySet, fourBlocks, LoaderConfig.initDevice,
      groupImage]
  have hcalls : runCalls idleHw fourBlocks.initDevice sampleCalls = _ :=
    runCalls_policy_load (some groupImage) (sizeofFmsFileSig + sizeofFmsBlockHw)
  rw [hcalls]
  generalize sizeofFmsFileSig + sizeofFmsBlockHw = dbSize at hcnt hhead ⊢
  have hload : Outcome _ (DmaStuck idleHw) (nlmDeviceLoadDatabase idleHw (some ⟨0⟩)
      (some groupImage) dbSize 0 2 policySet) :=
    policySet_atRest.load_written rfl (by decide) groupImage hhead (by decide) rfl
      (.inl (by rw [hcnt]; decide)) (by rw [hcnt]; decide)
  rcases hresult : nlmDeviceLoadDatabase idleHw (some ⟨0⟩) (some groupImage) dbSize 0 2 policySet
    with e | r
  · exact absurd idleHw_prompt (hload.of_eq_error hresult).2
  · obtain ⟨-, hrest, hlen, hloaded⟩ := hload.of_eq_ok hresult
    exact ⟨r.2, rfl, hrest, hlen.trans hcnt, hloaded (by decide)⟩

/-- After any run of synchronous calls the queue is empty and the parallel
tables agree: the targets are met, and the clones of every loaded block carry
the numbers of its copies, one to four and as many for each block of a
database. -/
theorem runCalls_tables_agree (hw : Hw) (c : LoaderConfig) (calls : List LoaderCall)
    (hcalls : ∀ call ∈ calls, call.Synchronous) :
    Outcome (fun s ↦ s.loaderCmdMem = [] ∧ s.arrayBlockMapCurrent = s.arrayBlockMapTarget ∧
      (∀ j, s.arrayBlockMapCurrent j = true → j < s.numFmsBlocks ∧
        (s.databaseShadowMap (s.arrayVirtIds j)).valid = true) ∧
      ∀ b, (s.databaseShadowMap b).valid = true →
        (s.databaseShadowMap b).noClonesCurrent = (s.databaseShadowMap b).noClonesTarget ∧
        (s.databaseShadowMap b).noClonesCurrent = (s.toLoaderTables.clones b).card ∧
        1 ≤ (s.databaseShadowMap b).noClonesCurrent ∧
        (s.databaseShadowMap b).noClonesCurrent ≤ 4 ∧
        (∀ b', (s.databaseShadowMap b').valid = true →
          (s.databaseShadowMap b').dbId = (s.databaseShadowMap b).dbId →
          (s.databaseShadowMap b').noClonesCurrent =
            (s.databaseShadowMap b).noClonesCurrent) ∧
        (∀ j ∈ s.toLoaderTables.clones b,
          s.arrayBlockCopyNumber j < (s.databaseShadowMap b).noClonesCurrent) ∧
        ∀ n < (s.databaseShadowMap b).noClonesCurrent,
          ∃! j, j ∈ s.toLoaderTables.clones b ∧ s.arrayBlockCopyNumber j = n)
      (DmaStuck hw) (runCalls hw c.initDevice calls) := by
  refine (runCalls_atRest (atRest_initDevice hw c) calls hcalls).imp fun s hs ↦ ?_
  have hplaced := hs.inv.placed
  refine ⟨hs.queue_nil, hs.target_eq_current.symm, hplaced.owner_valid, fun b hvalid ↦ ?_⟩
  have hnum := hplaced.numbered b (Set.notMem_empty b)
  exact ⟨(hs.noClonesTarget_eq b).symm, (hplaced.card_clones b).symm,
    hs.copies_pos b hvalid (Set.notMem_empty _), hs.copies_le b,
    fun b' hvalid' hdb ↦ hs.uniform b' b hvalid' hvalid hdb, fun j hj ↦ hnum.lt hj,
    fun n hn ↦ hnum.existsUnique_num hn⟩

theorem runCalls_tables_agree_sample : ∃ s b,
    runCalls idleHw fourBlocks.initDevice sampleCalls = .ok s ∧
      (s.databaseShadowMap b).dbId = 0 ∧ (s.toLoaderTables.clones b).card = 2 ∧
      ∃! j, j ∈ s.toLoaderTables.clones b ∧ s.arrayBlockCopyNumber j = 1 := by
  obtain ⟨s, hrun, -, hlen, hloaded⟩ := sampleCalls_loaded
  obtain ⟨b, hb⟩ := List.exists_mem_of_length_pos (hlen.ge)
  obtain ⟨-, hvalid, hdb⟩ := mem_blockList.mp hb
  have hsync := sampleCalls_synchronous
  generalize sampleCalls = calls at hrun hsync ⊢
  obtain ⟨-, -, -, hagree⟩ := (runCalls_tables_agree idleHw fourBlocks calls hsync).of_eq_ok hrun
  obtain ⟨-, hcard, -, -, -, -, hunique⟩ := hagree b hvalid
  have htwo := hloaded.copies_eq b hb
  rw [htwo] at hcard hunique
  exact ⟨s, b, hrun, hdb, hcard.symm, hunique 1 (by decide)⟩

/-- After any run of synchronous calls the group bitmap is exact, and the
hardware holds it. -/
theorem runCalls_bitmap_exact (hw : Hw) (c : LoaderConfig) (calls : List LoaderCall)
    (hcalls : ∀ call ∈ calls, call.Synchronous) :
    Outcome (fun s ↦ s.gidBmapHw = s.gidBmapShadow ∧ ∀ d g (k : Fin 4),
      (((s.gidBmapShadow d g).valid k = true ↔ (s.gidBmapShadow d g).fmsBlockBitmap k ≠ 0) ∧
      ∀ j, (s.gidBmapShadow d g).bit k j = true ↔
        s.arrayBlockMapCurrent j = true ∧
          (s.databaseShadowMap (s.arrayVirtIds j)).valid = true ∧
          (s.databaseShadowMap (s.arrayVirtIds j)).dbId = d ∧
          g ∈ s.blockGroupList (s.arrayVirtIds j) ∧ s.arrayBlockCopyNumber j + (k : ℕ) = 3))
      (DmaStuck hw) (runCalls hw c.initDevice calls) := by
  refine (runCalls_atRest (atRest_initDevice hw c) calls hcalls).imp fun s hs ↦ ?_
  refine ⟨hs.written.1, fun d g k ↦ ⟨?_, fun j ↦ ?_⟩⟩
  · rw [hs.written.2 d g k, bne_iff_ne]
  · exact (hs.routed d g k j).trans ⟨fun h ↦ h.2, fun h ↦ ⟨Set.notMem_empty j, h⟩⟩

theorem runCalls_bitmap_exact_sample : ∃ s j,
    runCalls idleHw fourBlocks.initDevice sampleCalls = .ok s ∧
      s.arrayBlockCopyNumber j = 1 ∧ (s.gidBmapHw 0 5).bit 2 j = true ∧
      (s.gidBmapHw 0 5).bit 3 j = false := by
  obtain ⟨s, hrun, hrest, hlen, hloaded⟩ := sampleCalls_loaded
  obtain ⟨b, hb⟩ := List.exists_mem_of_length_pos (hlen.ge)
  obtain ⟨-, hvalid, hdb⟩ := mem_blockList.mp hb
  have hnum := hrest.inv.placed.numbered b (Set.notMem_empty b)
  rw [hloaded.copies_eq b hb] at hnum
  obtain ⟨j, hj, hone⟩ := hnum.exists_num (Nat.one_lt_two)
  obtain ⟨-, hcur, rfl⟩ := mem_clones.mp hj
  obtain ⟨i, hgroups⟩ := hloaded.groups_eq _ hb
  have hfive : 5 ∈ s.blockGroupList (s.arrayVirtIds j) := hgroups ▸ groupListOfRows_groupImage i
  have hsync := sampleCalls_synchronous
  generalize sampleCalls = calls at hrun hsync ⊢
  obtain ⟨hhw, hexact⟩ := (runCalls_bitmap_exact idleHw fourBlocks calls hsync).of_eq_ok hrun
  refine ⟨s, j, hrun, hone, ?_⟩
  rw [hhw]
  refine ⟨((hexact 0 5 2).2 j).mpr ⟨hcur, hvalid, hdb, hfive, ?_⟩, ?_⟩
  · rw [hone]
    rfl
  · refine Bool.eq_false_iff.mpr fun hbit ↦ ?_
    obtain ⟨-, -, -, -, hslot⟩ := ((hexact 0 5 3).2 j).mp hbit
    rw [hone] at hslot
    exact absurd hslot (by decide)

end PhyDevice

end NetL7.Loader
