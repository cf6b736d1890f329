import NetL7.Loader.Calls
import NetL7.Loader.Image
import NetL7.Loader.Routing
import Mathlib.Algebra.Order.BigOperators.Group.Finset
import Mathlib.Algebra.BigOperators.Ring.Finset

/-!
# The loader at rest

With a synchronous policy every call leaves the queue empty. `AtRest` is what
then holds of the tables; every call keeps it, whether it succeeds or not.
-/

namespace NetL7.Loader

open NetL7.Lib LoaderTables

namespace PhyDevice

variable {hw : Hw} {device : Option NlmDevice} {U : Set ℕ} {s s' : PhyDevice}

/-! ## Space -/

/-- A constant summed over the blocks of a list. -/
theorem sum_ite_mem {n c : ℕ} {bs : List ℕ} (hlt : ∀ b ∈ bs, b < n) (hnodup : bs.Nodup) :
    ∑ b ∈ Finset.range n, (if b ∈ bs then c else 0) = bs.length * c := by
  rw [← Finset.sum_filter, Finset.sum_const, Nat.nsmul_eq_mul]
  congr 1
  rw [← List.toFinset_card_of_nodup hnodup]
  congr 1
  ext b
  rw [Finset.mem_filter, Finset.mem_range, List.mem_toFinset]
  exact ⟨fun hb ↦ hb.2, fun hb ↦ ⟨hlt b hb, hb⟩⟩

/-- The free array blocks and the clones requested fill the array. -/
theorem arrayBlocksFree_add_sum (h : Inv hw U s) :
    s.arrayBlocksFree + ∑ b ∈ Finset.range s.numFmsBlocks,
      (s.databaseShadowMap b).noClonesTarget = s.numFmsBlocks := by
  have hplaced := h.settled_placed
  have hsum : ∑ b ∈ Finset.range s.numFmsBlocks, (s.databaseShadowMap b).noClonesTarget =
      ((Finset.range s.numFmsBlocks).filter
        fun j ↦ ¬s.arrayBlockMapTarget j = false).card := by
    rw [Finset.card_eq_sum_card_fiberwise (f := s.settled.arrayVirtIds)
      (t := Finset.range s.numFmsBlocks)]
    · refine Finset.sum_congr rfl fun b _ ↦ ?_
      rw [h.noClonesTarget_eq, ← hplaced.card_clones b]
      congr 1
      ext j
      rw [mem_clones, Finset.mem_filter, Finset.mem_filter, h.target_eq]
      simp [and_assoc]
    · intro j hj
      have hcur : s.settled.arrayBlockMapCurrent j = true := by
        rw [← h.target_eq]
        simpa using (Finset.mem_filter.mp hj).2
      have hlt := (hplaced.valid_lt _ (hplaced.owner_valid j hcur).2).1
      simpa using hlt
  rw [hsum, arrayBlocksFree_eq_card]
  simpa using Finset.card_filter_add_card_filter_not (s := Finset.range s.numFmsBlocks)
    (fun j ↦ s.arrayBlockMapTarget j = false)

/-- The clones of one database are among the clones of all. -/
theorem length_mul_le (h : Inv hw U s) {d c : ℕ}
    (hc : ∀ b ∈ s.createShadowBlockListByDbId d,
      (s.databaseShadowMap b).noClonesTarget = c) :
    (s.createShadowBlockListByDbId d).length * c + s.arrayBlocksFree ≤ s.numFmsBlocks := by
  have hsum := arrayBlocksFree_add_sum h
  have hle : (s.createShadowBlockListByDbId d).length * c ≤
      ∑ b ∈ Finset.range s.numFmsBlocks, (s.databaseShadowMap b).noClonesTarget := by
    calc
      (s.createShadowBlockListByDbId d).length * c =
          ∑ b ∈ (s.createShadowBlockListByDbId d).toFinset,
            (s.databaseShadowMap b).noClonesTarget := by
        rw [Finset.sum_congr rfl fun b hb ↦ hc b (List.mem_toFinset.mp hb),
          Finset.sum_const, List.toFinset_card_of_nodup (blockList_nodup _ d), Nat.nsmul_eq_mul]
      _ ≤ _ := Finset.sum_le_sum_of_subset fun b hb ↦
        Finset.mem_range.mpr (mem_blockList.mp (List.mem_toFinset.mp hb)).1
  omega

/-! ## The rest state -/

/-- The state between two synchronous calls. The databases in `Z` have been
written to the shadow blocks but may not have copies yet. -/
structure AtRest (hw : Hw) (Z : Set ℕ) (s : PhyDevice) : Prop where
  inv : Inv hw ∅ s
  queue_nil : s.loaderCmdMem = []
  policy_ne : s.databaseLoadPolicy ≠ databaseLoadPolicyAsync
  copies_le : ∀ b, (s.databaseShadowMap b).noClonesCurrent ≤ 4
  copies_pos : ∀ b, (s.databaseShadowMap b).valid = true → (s.databaseShadowMap b).dbId ∉ Z →
    1 ≤ (s.databaseShadowMap b).noClonesCurrent
  uniform : ∀ b b', (s.databaseShadowMap b).valid = true →
    (s.databaseShadowMap b').valid = true →
    (s.databaseShadowMap b).dbId = (s.databaseShadowMap b').dbId →
    (s.databaseShadowMap b).noClonesCurrent = (s.databaseShadowMap b').noClonesCurrent
  routed : Routed ∅ s.toLoaderTables
  written : s.toLoaderTables.BmapWritten

namespace AtRest

variable {Z : Set ℕ} (h : AtRest hw Z s)

include h

theorem settled_eq : s.settled = s.toLoaderTables := settled_of_nil h.queue_nil

theorem target_eq_current : s.arrayBlockMapTarget = s.arrayBlockMapCurrent := by
  rw [h.inv.target_eq, h.settled_eq]

theorem noClonesTarget_eq (b : ℕ) :
    (s.databaseShadowMap b).noClonesTarget = (s.databaseShadowMap b).noClonesCurrent := by
  rw [h.inv.noClonesTarget_eq, h.settled_eq]

theorem shrinkable (b : ℕ) : Shrinkable hw ∅ b s :=
  ⟨h.inv, Set.notMem_empty b, fun j hj _ ↦ by rw [h.settled_eq]; exact ⟨hj, rfl⟩,
    (h.noClonesTarget_eq b).le⟩

theorem bmapOk : BmapOk s :=
  ⟨by rw [h.settled_eq]; exact h.routed, by rw [h.settled_eq]; exact h.written,
    fun c hc ↦ by simp [h.queue_nil] at hc⟩

theorem exec_eq (hg : loaderGuard device s = none) :
    nlmDeviceLoaderCmdExecFms hw device s = .ok (.ok, s) := exec_nil hg h.queue_nil

end AtRest

/-! ## Setting the number of copies -/

/-- What a successful request does to a device at rest: the blocks of `d` now
have `numCopies` copies. -/
structure SetPost (s : PhyDevice) (d numCopies : ℕ) (s' : PhyDevice) : Prop where
  numFmsBlocks_eq : s'.numFmsBlocks = s.numFmsBlocks
  ringId_eq : s'.fmsRingId = s.fmsRingId
  entry_eq : ∀ b, (s'.databaseShadowMap b).valid = (s.databaseShadowMap b).valid ∧
    (s'.databaseShadowMap b).dbId = (s.databaseShadowMap b).dbId
  numRows_eq : s'.numRowsPerFmsBlock = s.numRowsPerFmsBlock
  groups_eq : s'.blockGroupList = s.blockGroupList
  copies_mem : ∀ b ∈ s.createShadowBlockListByDbId d,
    (s'.databaseShadowMap b).noClonesCurrent = numCopies
  copies_notMem : ∀ b ∉ s.createShadowBlockListByDbId d,
    (s'.databaseShadowMap b).noClonesCurrent = (s.databaseShadowMap b).noClonesCurrent

/-- The blocks of one database have the same number of copies. -/
theorem AtRest.exists_copies {Z : Set ℕ} (h : AtRest hw Z s) (d : ℕ) :
    ∃ c ≤ 4, ∀ b ∈ s.createShadowBlockListByDbId d,
      (s.databaseShadowMap b).noClonesCurrent = c := by
  rcases hlist : s.createShadowBlockListByDbId d with _ | ⟨b₀, bs⟩
  · exact ⟨0, by omega, by simp⟩
  · refine ⟨_, h.copies_le b₀, fun b hb ↦ ?_⟩
    rw [← hlist] at hb
    have hb₀ : b₀ ∈ s.createShadowBlockListByDbId d := by simp [hlist]
    obtain ⟨-, hvalid, hdb⟩ := mem_blockList.mp hb
    obtain ⟨-, hvalid₀, hdb₀⟩ := mem_blockList.mp hb₀
    exact h.uniform b b₀ hvalid hvalid₀ (hdb.trans hdb₀.symm)

/-- A queue that is empty when a request starts does not overrun. -/
theorem request_length_lt {free total n c k : ℕ} (htotal : n * c + free ≤ total)
    (hle : total ≤ totalFamosBlocks) (hk : k ≤ 4) (hspace : c < k → n * (k - c) ≤ free) :
    (k - c) * (6 * n + 1) + 4 * ((c - k) * n) < nlmFmsLoaderCmdBuffSize := by
  change total ≤ 12 at hle
  change _ < 14 * 12
  rcases Nat.lt_or_ge c k with hlt | hge
  · have hzero : c - k = 0 := by omega
    have hroom := hspace hlt
    rw [hzero, Nat.mul_succ, ← Nat.mul_assoc, Nat.mul_comm _ 6, Nat.mul_assoc,
      Nat.mul_comm (k - c) n]
    omega
  · have hzero : k - c = 0 := by omega
    have hmul : (c - k) * n ≤ n * c := by
      rw [Nat.mul_comm]
      exact Nat.mul_le_mul_left n (Nat.sub_le c k)
    rw [hzero, Nat.zero_mul]
    omega

namespace SetPost

variable {Z : Set ℕ} {d numCopies : ℕ} {s' : PhyDevice}

theorem copies_le (hset : SetPost s d numCopies s') (h : AtRest hw Z s) (hfour : numCopies ≤ 4)
    (b : ℕ) : (s'.databaseShadowMap b).noClonesCurrent ≤ 4 := by
  by_cases hb : b ∈ s.createShadowBlockListByDbId d
  · rw [hset.copies_mem b hb]
    exact hfour
  · rw [hset.copies_notMem b hb]
    exact h.copies_le b

theorem copies_pos (hset : SetPost s d numCopies s') (h : AtRest hw Z s) (hpos : 1 ≤ numCopies)
    {b : ℕ} (hvalid : (s'.databaseShadowMap b).valid = true)
    (hZ : (s'.databaseShadowMap b).dbId ∉ Z \ {d}) :
    1 ≤ (s'.databaseShadowMap b).noClonesCurrent := by
  by_cases hb : b ∈ s.createShadowBlockListByDbId d
  · rw [hset.copies_mem b hb]
    exact hpos
  · rw [hset.copies_notMem b hb]
    rw [(hset.entry_eq b).1] at hvalid
    rw [(hset.entry_eq b).2] at hZ
    refine h.copies_pos b hvalid fun hbZ ↦ hZ ⟨hbZ, fun hbd ↦ hb ?_⟩
    exact mem_blockList.mpr ⟨(h.inv.placed.valid_lt b hvalid).1, hvalid, hbd⟩

theorem uniform (hset : SetPost s d numCopies s') (h : AtRest hw Z s) {b b' : ℕ}
    (hvalid : (s'.databaseShadowMap b).valid = true)
    (hvalid' : (s'.databaseShadowMap b').valid = true)
    (hdb : (s'.databaseShadowMap b).dbId = (s'.databaseShadowMap b').dbId) :
    (s'.databaseShadowMap b).noClonesCurrent = (s'.databaseShadowMap b').noClonesCurrent := by
  rw [(hset.entry_eq b).1] at hvalid
  rw [(hset.entry_eq b').1] at hvalid'
  rw [(hset.entry_eq b).2, (hset.entry_eq b').2] at hdb
  have hiff : b ∈ s.createShadowBlockListByDbId d ↔ b' ∈ s.createShadowBlockListByDbId d :=
    mem_blockList_congr (h.inv.placed.valid_lt b hvalid).1 (h.inv.placed.valid_lt b' hvalid').1
      hvalid hvalid' hdb
  by_cases hb : b ∈ s.createShadowBlockListByDbId d
  · rw [hset.copies_mem b hb, hset.copies_mem b' (hiff.mp hb)]
  · rw [hset.copies_notMem b hb, hset.copies_notMem b' fun hb' ↦ hb (hiff.mpr hb')]
    exact h.uniform b b' hvalid hvalid' hdb

end SetPost

theorem set_at_rest {Z : Set ℕ} (h : AtRest hw Z s) {d numCopies : ℕ}
    (hpos : 1 ≤ numCopies) :
    Outcome (fun r ↦
      (r.2 = s ∧ r.1 ≠ .ok ∧ r.1 ≠ .loaderInProgress ∧
        (loaderGuard device s = none → d ≤ nlmMaxDatabaseId → numCopies ≤ 4 →
          s.createShadowBlockListByDbId d ≠ [] → ∀ c,
          (∀ b ∈ s.createShadowBlockListByDbId d,
            (s.databaseShadowMap b).noClonesCurrent = c) →
          c < numCopies ∧ s.arrayBlocksFree <
            (s.createShadowBlockListByDbId d).length * (numCopies - c))) ∨
      (r.1 = .ok ∧ AtRest hw (Z \ {d}) r.2 ∧ SetPost s d numCopies r.2)) (DmaStuck hw)
      (nlmDeviceDatabaseSetNumCopies hw device d numCopies s) := by
  obtain ⟨c, hc4, hc⟩ := h.exists_copies d
  have htgt : ∀ b ∈ s.createShadowBlockListByDbId d,
      (s.databaseShadowMap b).noClonesTarget = c := fun b hb ↦
    (h.noClonesTarget_eq b).trans (hc b hb)
  have hbs : ∀ b ∈ s.createShadowBlockListByDbId d,
      (s.settled.databaseShadowMap b).valid = true ∧
        (s.databaseShadowMap b).noClonesTarget = c := fun b hb ↦
    ⟨by rw [h.settled_eq]; exact (mem_blockList.mp hb).2.1, htgt b hb⟩
  have htotal := length_mul_le h.inv htgt
  refine (setNumCopies_outcome h.inv hbs (fun _ b _ ↦ h.shrinkable b) (fun _ he ↦ he)
    fun hfour hspace hfull ↦ ?_).imp ?_
  · have hlt := request_length_lt htotal h.inv.placed.blocks_le hfour hspace
    rw [h.queue_nil, List.length_nil, Nat.zero_add] at hfull
    omega
  · rintro r (⟨hsame, hok, hbusy, hspace⟩ | ⟨-, hne, hfour, s', hresized, hfinished⟩)
    · refine .inl ⟨hsame, hok, hbusy, fun hg hd hk hne c' hc' ↦ ?_⟩
      obtain ⟨b, hb⟩ := List.exists_mem_of_ne_nil _ hne
      rw [← hc' b hb, hc b hb]
      exact hspace hg hd hk hne
    · right
      have hpost := hresized.post h.inv (s.blockList_nodup d) hbs fun _ b _ ↦ h.shrinkable b
      obtain ⟨hrouted, hwritten⟩ := hresized.routed h.inv rfl hbs
        (fun b _ ↦ h.shrinkable b) h.bmapOk
      have hsync : s'.databaseLoadPolicy ≠ databaseLoadPolicyAsync := by
        rw [hpost.policy_eq]
        exact h.policy_ne
      rw [Finished, if_pos hsync] at hfinished
      have hentry : ∀ b, (r.2.databaseShadowMap b).valid = (s.databaseShadowMap b).valid ∧
          (r.2.databaseShadowMap b).dbId = (s.databaseShadowMap b).dbId := by
        intro b
        rw [hfinished.tables_eq, hpost.valid_eq, h.settled_eq, settled_dbId,
          (hpost.view.entry_eq b).2.2]
        exact ⟨rfl, rfl⟩
      have hcopies : ∀ b, (r.2.databaseShadowMap b).noClonesCurrent =
          (s'.databaseShadowMap b).noClonesTarget := by
        intro b
        rw [hfinished.tables_eq, hpost.inv.noClonesTarget_eq]
      have hset : SetPost s d numCopies r.2 := by
        refine ⟨?_, hfinished.ringId_eq.trans hpost.ringId_eq, hentry,
          hfinished.numRows_eq.trans hpost.numRows_eq, ?_, fun b hb ↦ ?_, fun b hb ↦ ?_⟩
        · rw [hfinished.tables_eq, settled_numFmsBlocks, hpost.view.numFmsBlocks_eq]
        · rw [hfinished.tables_eq, settled_blockGroupList, hpost.view.groups_eq]
        · rw [hcopies, hpost.target_mem b hb]
        · rw [hcopies, hpost.target_notMem b hb, h.noClonesTarget_eq]
      refine ⟨hfinished.status, ⟨hfinished.inv, hfinished.queue_nil, ?_, hset.copies_le h hfour,
        fun b hvalid hZ ↦ hset.copies_pos h hpos hvalid hZ,
        fun b b' hvalid hvalid' hdb ↦ hset.uniform h hvalid hvalid' hdb, ?_, ?_⟩, hset⟩
      · rw [hfinished.policy_eq]
        exact hsync
      · rw [hfinished.tables_eq]
        exact hrouted
      · rw [hfinished.tables_eq]
        exact hwritten

/-! ## Balancing -/

/-- The rule for the two loops of `nlm_device_database_balance`. The invariant
`J d` holds before database `d` is looked at. -/
theorem balanceLoop_outcome {wrongSide : ℕ → Bool} {numCopies : ℕ} {E : Halt → Prop}
    (St : NlmStatus → Prop) (hSt : ∀ st, St st → st = .ok ∨ st = .loaderInProgress)
    (J : ℕ → PhyDevice → Prop)
    (hskip : ∀ d s, J d s → (∀ c, residentCopies s.toLoaderTables d = some c →
      wrongSide c = false) → J (d + 1) s)
    (hset : ∀ d s c, d ≤ nlmMaxDatabaseId → J d s →
      residentCopies s.toLoaderTables d = some c → wrongSide c = true →
      Outcome (fun r ↦ St r.1 ∧ J (d + 1) r.2 ∨
          (r.1 ≠ .ok ∧ r.1 ≠ .loaderInProgress ∧ E .balanceFailed)) E
        (nlmDeviceDatabaseSetNumCopies hw device d numCopies s))
    {r : NlmStatus × PhyDevice} (hst : St r.1) (hr : J 0 r.2) :
    Outcome (fun r ↦ St r.1 ∧ J 4 r.2) E (balanceLoop hw device wrongSide numCopies r) := by
  let I : List ℕ → NlmStatus × PhyDevice → Prop := fun rest r ↦
    ∃ d ≤ 4, rest = List.range' d (4 - d) ∧ St r.1 ∧ J d r.2
  have hstart : I (List.range (nlmMaxDatabaseId + 1)) r := ⟨0, by omega, rfl, hst, hr⟩
  refine (Outcome.foldlM I ?_ hstart).imp ?_
  · rintro x rest ⟨status, s⟩ ⟨d, hd, hrest, hst, hJ⟩
    have hlt : d < 4 := by
      by_contra hge
      obtain rfl : d = 4 := by omega
      simp at hrest
    rw [show 4 - d = (4 - (d + 1)) + 1 by omega, List.range'_succ] at hrest
    obtain ⟨rfl, rfl⟩ := List.cons.inj hrest
    have hrest : ∀ r, St r.1 → J (x + 1) r.2 → I (List.range' (x + 1) (4 - (x + 1))) r :=
      fun r hst hJ ↦ ⟨x + 1, by omega, rfl, hst, hJ⟩
    simp only
    rcases hres : residentCopies s.toLoaderTables x with _ | copies
    · exact hrest _ hst (hskip x s hJ fun c hc ↦ by simp [hres] at hc)
    · rcases hwrong : wrongSide copies with _ | _
      · simp only [hwrong, Bool.false_eq_true, if_false, outcome_ok]
        refine hrest _ hst (hskip x s hJ fun c hc ↦ ?_)
        rw [hres, Option.some.injEq] at hc
        rwa [← hc]
      · simp only [hwrong, if_true]
        refine Outcome.bind (hset x s copies (Nat.lt_succ_iff.mp hlt) hJ hres hwrong) ?_
        rintro ⟨status', s'⟩ (⟨hst', hJ'⟩ | ⟨hok, hbusy, hE⟩)
        · have hgood : (status' == .ok || status' == .loaderInProgress) = true := by
            rcases hSt _ hst' with hok | hbusy
            · simp only at hok
              simp [hok]
            · simp only at hbusy
              simp [hbusy]
          simp only [prettyAssert, hgood, if_true, bind, Except.bind, outcome_ok]
          exact hrest _ hst' hJ'
        · have hbad : (status' == .ok || status' == .loaderInProgress) = false := by
            simpa using ⟨hok, hbusy⟩
          simp only [prettyAssert, hbad, Bool.false_eq_true, if_false, bind, Except.bind,
            outcome_error]
          exact hE
  · rintro r ⟨d, hd, hrest, hst, hJ⟩
    have hd4 : d = 4 := by
      by_contra hne
      have hlen := congrArg List.length hrest
      simp only [List.length_nil, List.length_range'] at hlen
      omega
    exact ⟨hst, hd4 ▸ hJ⟩

/-- Only the databases and their blocks are known to be the same. -/
structure SameDatabases (s s' : PhyDevice) : Prop where
  numFmsBlocks_eq : s'.numFmsBlocks = s.numFmsBlocks
  ringId_eq : s'.fmsRingId = s.fmsRingId
  entry_eq : ∀ b, (s'.databaseShadowMap b).valid = (s.databaseShadowMap b).valid ∧
    (s'.databaseShadowMap b).dbId = (s.databaseShadowMap b).dbId

theorem SameDatabases.trans {s'' : PhyDevice} (h : SameDatabases s s')
    (h' : SameDatabases s' s'') : SameDatabases s s'' where
  numFmsBlocks_eq := h'.numFmsBlocks_eq.trans h.numFmsBlocks_eq
  ringId_eq := h'.ringId_eq.trans h.ringId_eq
  entry_eq := fun b ↦ ⟨(h'.entry_eq b).1.trans (h.entry_eq b).1,
    (h'.entry_eq b).2.trans (h.entry_eq b).2⟩

theorem SetPost.sameDatabases {d numCopies : ℕ} (h : SetPost s d numCopies s') :
    SameDatabases s s' := ⟨h.numFmsBlocks_eq, h.ringId_eq, h.entry_eq⟩

theorem SameDatabases.blockList_eq (h : SameDatabases s s') (d : ℕ) :
    s'.createShadowBlockListByDbId d = s.createShadowBlockListByDbId d := by
  unfold createShadowBlockListByDbId
  rw [h.numFmsBlocks_eq]
  refine List.filter_congr fun b _ ↦ ?_
  rw [(h.entry_eq b).1, (h.entry_eq b).2]

theorem residentCopies_eq_some {t : LoaderTables} {d c : ℕ}
    (h : residentCopies t d = some c) :
    ∃ b ∈ t.createShadowBlockListByDbId d, (t.databaseShadowMap b).noClonesCurrent = c := by
  unfold residentCopies at h
  rcases hlist : t.createShadowBlockListByDbId d with _ | ⟨b, bs⟩
  · simp [hlist] at h
  · exact ⟨b, by simp, by simpa [hlist] using h⟩

theorem exists_residentCopies {t : LoaderTables} {d b : ℕ}
    (h : b ∈ t.createShadowBlockListByDbId d) : ∃ c, residentCopies t d = some c := by
  unfold residentCopies
  rcases hlist : t.createShadowBlockListByDbId d with _ | ⟨b, bs⟩
  · simp [hlist] at h
  · exact ⟨_, rfl⟩

namespace AtRest

variable {Z Z' : Set ℕ}

theorem of_pos (h : AtRest hw Z s) (hpos : ∀ b, (s.databaseShadowMap b).valid = true →
    1 ≤ (s.databaseShadowMap b).noClonesCurrent) : AtRest hw Z' s :=
  { h with copies_pos := fun b hvalid _ ↦ hpos b hvalid }

theorem mono (h : AtRest hw Z s) (hZ : Z ⊆ Z') : AtRest hw Z' s :=
  { h with copies_pos := fun b hvalid hb ↦ h.copies_pos b hvalid fun hbZ ↦ hb (hZ hbZ) }

theorem copies_eq (h : AtRest hw Z s) {d c b : ℕ}
    (hres : residentCopies s.toLoaderTables d = some c)
    (hb : b ∈ s.createShadowBlockListByDbId d) :
    (s.databaseShadowMap b).noClonesCurrent = c := by
  obtain ⟨b₀, hb₀, hc⟩ := residentCopies_eq_some hres
  obtain ⟨-, hvalid, hdb⟩ := mem_blockList.mp hb
  obtain ⟨-, hvalid₀, hdb₀⟩ := mem_blockList.mp hb₀
  rw [← hc]
  exact h.uniform b b₀ hvalid hvalid₀ (hdb.trans hdb₀.symm)

theorem mem_own_list (h : AtRest hw Z s) {b : ℕ} (hvalid : (s.databaseShadowMap b).valid = true) :
    b ∈ s.createShadowBlockListByDbId (s.databaseShadowMap b).dbId :=
  mem_blockList.mpr ⟨(h.inv.placed.valid_lt b hvalid).1, hvalid, rfl⟩

/-- Once no database has more than its share, there is space for each to grow to
its share. -/
theorem growth_fits (h : AtRest hw Z s) {numCopies d c : ℕ}
    (hshare : numCopies * shadowBlocksOccupied s.toLoaderTables ≤ s.numFmsBlocks)
    (hle : ∀ b, (s.databaseShadowMap b).valid = true →
      (s.databaseShadowMap b).noClonesCurrent ≤ numCopies)
    (hc : ∀ b ∈ s.createShadowBlockListByDbId d,
      (s.databaseShadowMap b).noClonesCurrent = c) :
    (s.createShadowBlockListByDbId d).length * (numCopies - c) ≤ s.arrayBlocksFree := by
  have hsum := arrayBlocksFree_add_sum h.inv
  have hblocks := sum_ite_mem (c := numCopies - c)
    (fun b hb ↦ (mem_blockList.mp hb).1) (s.blockList_nodup d)
  have hoccupied : ∑ b ∈ Finset.range s.numFmsBlocks,
      (if (s.databaseShadowMap b).valid = true then numCopies else 0) =
        numCopies * shadowBlocksOccupied s.toLoaderTables := by
    rw [← Finset.sum_filter, Finset.sum_const, Nat.nsmul_eq_mul, Nat.mul_comm,
      shadowBlocksOccupied, countP_range_eq_card]
  have hterm : ∀ b ∈ Finset.range s.numFmsBlocks,
      (s.databaseShadowMap b).noClonesTarget +
          (if b ∈ s.createShadowBlockListByDbId d then numCopies - c else 0) ≤
        if (s.databaseShadowMap b).valid = true then numCopies else 0 := by
    intro b _
    rw [h.noClonesTarget_eq]
    by_cases hvalid : (s.databaseShadowMap b).valid = true
    · have hcur := hle b hvalid
      rw [if_pos hvalid]
      by_cases hb : b ∈ s.createShadowBlockListByDbId d
      · have hcb := hc b hb
        rw [if_pos hb]
        omega
      · rw [if_neg hb]
        omega
    · have hzero := h.inv.placed.eq_zero_of_not_valid (by simpa using hvalid)
      have hb : b ∉ s.createShadowBlockListByDbId d := fun hb ↦
        hvalid (mem_blockList.mp hb).2.1
      rw [if_neg hvalid, if_neg hb, hzero]
  have htotal := Finset.sum_le_sum hterm
  rw [Finset.sum_add_distrib, hblocks, hoccupied] at htotal
  omega

end AtRest

theorem SameDatabases.refl (s : PhyDevice) : SameDatabases s s :=
  ⟨rfl, rfl, fun _ ↦ ⟨rfl, rfl⟩⟩

theorem SameDatabases.shadowBlocksOccupied_eq (h : SameDatabases s s') :
    shadowBlocksOccupied s'.toLoaderTables = shadowBlocksOccupied s.toLoaderTables := by
  unfold shadowBlocksOccupied
  rw [h.numFmsBlocks_eq]
  exact List.countP_congr fun b _ ↦ by rw [(h.entry_eq b).1]

theorem shadowBlocksOccupied_le (t : LoaderTables) : shadowBlocksOccupied t ≤ t.numFmsBlocks :=
  List.countP_le_length.trans_eq (List.length_range ..)

/-- The shares that balancing deals out fit into the array. -/
theorem balancedCopies_spec {t : LoaderTables} (h : shadowBlocksOccupied t ≠ 0) :
    1 ≤ balancedCopies t ∧ balancedCopies t ≤ 4 ∧
      balancedCopies t * shadowBlocksOccupied t ≤ t.numFmsBlocks := by
  refine ⟨?_, min_le_left _ _, ?_⟩
  · refine le_min (by decide) ?_
    exact (Nat.one_le_div_iff (Nat.pos_of_ne_zero h)).mpr (shadowBlocksOccupied_le t)
  · exact (Nat.mul_le_mul_right _ (min_le_right _ _)).trans (Nat.div_mul_le_self _ _)

/-- A bound on the databases below `d` extends to `d` when the first block of `d`
meets it. -/
theorem AtRest.forall_lt_succ {Z : Set ℕ} {P : ℕ → Prop} {d : ℕ} (h : AtRest hw Z s)
    (hlt : ∀ b, (s.databaseShadowMap b).valid = true → (s.databaseShadowMap b).dbId < d →
      P (s.databaseShadowMap b).noClonesCurrent)
    (hd : ∀ c, residentCopies s.toLoaderTables d = some c → P c) :
    ∀ b, (s.databaseShadowMap b).valid = true → (s.databaseShadowMap b).dbId < d + 1 →
      P (s.databaseShadowMap b).noClonesCurrent := by
  intro b hvalid hb
  rcases Nat.lt_succ_iff_lt_or_eq.mp hb with hb | hb
  · exact hlt b hvalid hb
  · have hmem := h.mem_own_list hvalid
    rw [hb] at hmem
    obtain ⟨c, hc⟩ := exists_residentCopies hmem
    rw [h.copies_eq hc hmem]
    exact hd c hc

theorem AtRest.dbId_lt {Z : Set ℕ} (h : AtRest hw Z s) {b : ℕ}
    (hvalid : (s.databaseShadowMap b).valid = true) : (s.databaseShadowMap b).dbId < 4 :=
  Nat.lt_succ_of_le (h.inv.placed.valid_lt b hvalid).2

/-- The copies of a resized database are `numCopies`, those of the others are kept. -/
theorem SetPost.copies_cases {Z : Set ℕ} {d numCopies : ℕ} (hset : SetPost s d numCopies s')
    (h : AtRest hw Z s) {b : ℕ} (hvalid : (s'.databaseShadowMap b).valid = true) :
    (s'.databaseShadowMap b).noClonesCurrent = numCopies ∨
      ((s.databaseShadowMap b).valid = true ∧ (s'.databaseShadowMap b).dbId ≠ d ∧
        (s'.databaseShadowMap b).dbId = (s.databaseShadowMap b).dbId ∧
        (s'.databaseShadowMap b).noClonesCurrent =
          (s.databaseShadowMap b).noClonesCurrent) := by
  obtain ⟨hval, hid⟩ := hset.entry_eq b
  rw [hval] at hvalid
  by_cases hb : b ∈ s.createShadowBlockListByDbId d
  · exact .inl (hset.copies_mem b hb)
  · refine .inr ⟨hvalid, fun hbd ↦ hb ?_, hid, hset.copies_notMem b hb⟩
    rw [← hbd, hid]
    exact h.mem_own_list hvalid

/-- The databases below `d` have no more than `numCopies` copies. -/
def ShrunkBelow (hw : Hw) (Z : Set ℕ) (s : PhyDevice) (numCopies d : ℕ) (s' : PhyDevice) : Prop :=
  AtRest hw Z s' ∧ SameDatabases s s' ∧
    ∀ b, (s'.databaseShadowMap b).valid = true → (s'.databaseShadowMap b).dbId < d →
      (s'.databaseShadowMap b).noClonesCurrent ≤ numCopies

/-- No database has more than `numCopies` copies, and those below `d` have so many. -/
def GrownBelow (hw : Hw) (Z : Set ℕ) (s : PhyDevice) (numCopies d : ℕ) (s' : PhyDevice) : Prop :=
  AtRest hw Z s' ∧ SameDatabases s s' ∧
    (∀ b, (s'.databaseShadowMap b).valid = true →
      (s'.databaseShadowMap b).noClonesCurrent ≤ numCopies) ∧
    ∀ b, (s'.databaseShadowMap b).valid = true → (s'.databaseShadowMap b).dbId < d →
      (s'.databaseShadowMap b).noClonesCurrent = numCopies

section Loops

variable {Z : Set ℕ} {numCopies : ℕ} {r : NlmStatus × PhyDevice}

theorem shrinkLoop_at_rest (hg : loaderGuard device s = none) (hpos : 1 ≤ numCopies)
    (hfour : numCopies ≤ 4) (hst : r.1 = .ok) (hr : ShrunkBelow hw Z s numCopies 0 r.2) :
    Outcome (fun r ↦ r.1 = .ok ∧ ShrunkBelow hw Z s numCopies 4 r.2) (DmaStuck hw)
      (balanceLoop hw device (fun copies ↦ numCopies < copies) numCopies r) := by
  refine balanceLoop_outcome (· = .ok) (fun _ ↦ .inl) (ShrunkBelow hw Z s numCopies) ?_ ?_ hst hr
  · rintro d s₁ ⟨hs₁, hsame, hle⟩ hskip
    exact ⟨hs₁, hsame, hs₁.forall_lt_succ (P := (· ≤ numCopies)) hle
      fun c hc ↦ by simpa using hskip c hc⟩
  · rintro d s₁ c hd ⟨hs₁, hsame, hle⟩ hres hwrong
    have hlt : numCopies < c := by simpa using hwrong
    refine (set_at_rest hs₁ hpos).imp ?_
    rintro ⟨status, s₂⟩ (⟨-, -, -, hspace⟩ | ⟨hok, hs₂, hset⟩)
    · -- a database that shrinks needs no space
      obtain ⟨b, hb, -⟩ := residentCopies_eq_some hres
      have hlt' := (hspace ((loaderGuard_congr hsame.ringId_eq).trans hg) hd hfour
        (List.ne_nil_of_mem hb) c fun b hb ↦ hs₁.copies_eq hres hb).1
      omega
    · refine .inl ⟨hok, hs₂.mono Set.sdiff_subset, hsame.trans hset.sameDatabases,
        fun b hvalid hb ↦ ?_⟩
      rcases hset.copies_cases hs₁ hvalid with hc | ⟨hvalid₁, hne, hid, hc⟩
      · exact hc.le
      · rw [hc]
        exact hle b hvalid₁ (hid ▸ (Nat.lt_succ_iff.mp hb).lt_of_ne hne)

theorem growLoop_at_rest (hg : loaderGuard device s = none) (hpos : 1 ≤ numCopies)
    (hfour : numCopies ≤ 4)
    (hshare : numCopies * shadowBlocksOccupied s.toLoaderTables ≤ s.numFmsBlocks)
    (hst : r.1 = .ok) (hr : GrownBelow hw Z s numCopies 0 r.2) :
    Outcome (fun r ↦ r.1 = .ok ∧ GrownBelow hw Z s numCopies 4 r.2) (DmaStuck hw)
      (balanceLoop hw device (fun copies ↦ copies < numCopies) numCopies r) := by
  refine balanceLoop_outcome (· = .ok) (fun _ ↦ .inl) (GrownBelow hw Z s numCopies) ?_ ?_ hst hr
  · rintro d s₂ ⟨hs₂, hsame₂, hle₂, heq₂⟩ hskip
    refine ⟨hs₂, hsame₂, hle₂, hs₂.forall_lt_succ (P := (· = numCopies)) heq₂ fun c hc ↦ ?_⟩
    obtain ⟨b, hb, rfl⟩ := residentCopies_eq_some hc
    have hge : numCopies ≤ (s₂.databaseShadowMap b).noClonesCurrent := by
      simpa using hskip _ hc
    exact (hle₂ b (mem_blockList.mp hb).2.1).antisymm hge
  · rintro d s₂ c hd ⟨hs₂, hsame₂, hle₂, heq₂⟩ hres hwrong
    refine (set_at_rest hs₂ hpos).imp ?_
    rintro ⟨status, s₃⟩ (⟨-, -, -, hspace⟩ | ⟨hok, hs₃, hset⟩)
    · obtain ⟨b, hb, -⟩ := residentCopies_eq_some hres
      have hc := fun b hb ↦ hs₂.copies_eq hres (b := b) hb
      have hfull := (hspace ((loaderGuard_congr hsame₂.ringId_eq).trans hg) hd hfour
        (List.ne_nil_of_mem hb) c hc).2
      have hshare₂ : numCopies * shadowBlocksOccupied s₂.toLoaderTables ≤
          s₂.numFmsBlocks := by
        rw [hsame₂.shadowBlocksOccupied_eq, hsame₂.numFmsBlocks_eq]
        exact hshare
      have hfits := hs₂.growth_fits hshare₂ hle₂ hc
      omega
    · refine .inl ⟨hok, hs₃.mono Set.sdiff_subset, hsame₂.trans hset.sameDatabases,
        fun b hvalid ↦ ?_, fun b hvalid hb ↦ ?_⟩
      · rcases hset.copies_cases hs₂ hvalid with hc | ⟨hvalid₂, -, -, hc⟩
        · exact hc.le
        · exact hc.le.trans (hle₂ b hvalid₂)
      · rcases hset.copies_cases hs₂ hvalid with hc | ⟨hvalid₂, hne, hid, hc⟩
        · exact hc
        · exact hc.trans (heq₂ b hvalid₂ (hid ▸ (Nat.lt_succ_iff.mp hb).lt_of_ne hne))

end Loops

/-- The two loops of the balancing on a device at rest: the first leaves no
database with more than its share, the second none with less. -/
theorem balanceLoops_at_rest {Z : Set ℕ} (h : AtRest hw Z s)
    (hg : loaderGuard device s = none) (hocc : shadowBlocksOccupied s.toLoaderTables ≠ 0) :
    Outcome (fun r ↦ r.1 = .ok ∧ AtRest hw Z r.2 ∧ SameDatabases s r.2 ∧
        ∀ b, (r.2.databaseShadowMap b).valid = true →
          (r.2.databaseShadowMap b).noClonesCurrent = balancedCopies s.toLoaderTables)
      (DmaStuck hw)
      (balanceLoop hw device (fun copies ↦ balancedCopies s.toLoaderTables < copies)
          (balancedCopies s.toLoaderTables) (.ok, s) >>=
        balanceLoop hw device (fun copies ↦ copies < balancedCopies s.toLoaderTables)
          (balancedCopies s.toLoaderTables)) := by
  obtain ⟨hpos, hfour, hshare⟩ := balancedCopies_spec hocc
  refine Outcome.bind (shrinkLoop_at_rest hg hpos hfour rfl
    ⟨h, .refl s, fun b _ hb ↦ absurd hb (Nat.not_lt_zero _)⟩) ?_
  rintro ⟨status, s₁⟩ ⟨hok, hs₁, hsame, hle⟩
  have hle' : ∀ b, (s₁.databaseShadowMap b).valid = true →
      (s₁.databaseShadowMap b).noClonesCurrent ≤ balancedCopies s.toLoaderTables :=
    fun b hvalid ↦ hle b hvalid (hs₁.dbId_lt hvalid)
  refine (growLoop_at_rest hg hpos hfour hshare hok
    ⟨hs₁, hsame, hle', fun b _ hb ↦ absurd hb (Nat.not_lt_zero _)⟩).imp ?_
  rintro ⟨status, s₂⟩ ⟨hok, hs₂, hsame₂, -, heq₂⟩
  exact ⟨hok, hs₂, hsame₂, fun b hvalid ↦ heq₂ b hvalid (hs₂.dbId_lt hvalid)⟩

end PhyDevice

end NetL7.Loader
