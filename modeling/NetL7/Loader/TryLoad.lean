import NetL7.Loader.Sha2
import NetL7.Loader.Synchronous

/-!
# The admission test

`nlm_device_try_load_database` computes from the tables of the loaded databases whether an
image will fit once the database that it replaces is gone.
-/

namespace NetL7.Loader

open NetL7.Lib LoaderTables

/-! ## The checksum of a block image -/

/-- The bytes of a word in memory. -/
def wordBytes (w : BitVec 32) : List Byte :=
  (List.range 4).map fun k ↦ w.extractLsb' (8 * k) 8

/-- The bytes of a block image, up to its checksum. -/
def FmsBlockHw.bytes (block : FmsBlockHw) : List Byte :=
  (List.range famosBlockSize).flatMap (fun j ↦
      [(block.row j).data0, (block.row j).data1, (block.row j).data2].flatMap wordBytes) ++
    (List.range maxAcceptPerBlock).flatMap fun j ↦
      [(block.actionTable j).w0, (block.actionTable j).w1, (block.actionTable j).w2,
        (block.actionTable j).w3].flatMap wordBytes

/-- The loop over the words of a checksum. -/
def sameWords (checksum : Digest) : Except MemoryFault (Option Digest) → Bool
  | .ok (some words) => words == checksum
  | _ => false

/-- Compares the checksum of a block image with the words stored behind it; `pad` is what
the static variable of `sha2.c` holds. -/
def chksumMatches (pad : ℕ → Byte) (block : FmsBlockHw) (checksum : Digest) : Bool :=
  sameWords checksum
    (nlmChksumSha256 nlmSha256Xform hac pad block.bytes (PhyDevice.sizeofFmsBlockHw - 32))

theorem length_flatMap_const {α β : Type} {f : α → List β} {n : ℕ}
    (hf : ∀ x, (f x).length = n) (xs : List α) : (xs.flatMap f).length = xs.length * n := by
  induction xs with
  | nil => simp
  | cons x xs ih =>
    rw [List.flatMap_cons, List.length_append, hf, ih, List.length_cons, Nat.succ_mul,
      Nat.add_comm]

theorem FmsBlockHw.length_bytes (block : FmsBlockHw) :
    block.bytes.length = PhyDevice.sizeofFmsBlockHw - 32 := by
  have hword : ∀ w, (wordBytes w).length = 4 := fun w ↦ by simp [wordBytes]
  rw [FmsBlockHw.bytes, List.length_append,
    length_flatMap_const (n := 12) fun j ↦ length_flatMap_const hword _,
    length_flatMap_const (n := 16) fun j ↦ length_flatMap_const hword _,
    List.length_range, List.length_range]
  rfl

/-- The words that belong behind a block image. -/
def FmsBlockHw.chksum (block : FmsBlockHw) : Digest :=
  (wholeBlocks block.bytes block.bytes.length ++ [lastBlock block.bytes]).foldl
    nlmSha256Xform hac

/-- What an earlier call has left in `pad` makes no difference. -/
theorem chksumMatches_iff {pad : ℕ → Byte} {block : FmsBlockHw} {checksum : Digest} :
    chksumMatches pad block checksum = true ↔ block.chksum = checksum := by
  have hlen := block.length_bytes
  have hne : block.bytes ≠ [] := by
    intro h
    rw [h] at hlen
    exact absurd hlen (by decide)
  have hsum : nlmChksumSha256 nlmSha256Xform hac pad block.bytes
      (PhyDevice.sizeofFmsBlockHw - 32) = .ok (some block.chksum) := by
    rw [← hlen]
    exact nlmChksumSha256_eq nlmSha256Xform hac pad hne
  rw [chksumMatches, hsum, sameWords, beq_iff_eq]

namespace PhyDevice

/-! ## The test -/

/-- The id `-1`, which stands for no database. -/
abbrev noDatabase : ℕ := 0xffffffff

/-- The shadow blocks of the database to be replaced. -/
def replacedBlocks (t : LoaderTables) (replacingDbId : ℕ) : List ℕ :=
  if replacingDbId ≠ noDatabase then t.createShadowBlockListByDbId replacingDbId else []

/-- `blocks_to_reuse` -/
def blocksToReuse (t : LoaderTables) : List ℕ → ℕ
  | [] => 0
  | blk :: blks => (blk :: blks).length * (t.databaseShadowMap blk).noClonesTarget

/-- The space that an image takes: array blocks if a number of copies is asked for, else
shadow blocks. -/
def spaceNeeded (blockCnt numCopies : ℕ) : ℕ :=
  if 0 < numCopies then blockCnt * numCopies else blockCnt

/-- The space that there will be, in the same unit. -/
def spaceExpected (t : LoaderTables) (blockList : List ℕ) (numCopies : ℕ) : ℕ :=
  if 0 < numCopies then t.arrayBlocksFree + blocksToReuse t blockList
  else t.getNumShadowBlocksFree + blockList.length

/-- `nlm_device_try_load_database`. The loader does not keep the checksums that stand behind
the block images, so they are an argument of their own. -/
def nlmDeviceTryLoadDatabase (pad : ℕ → Byte) (device : Option NlmDevice)
    (buffer : Option FmsDatabase) (checksum : ℕ → Digest)
    (dbSize replacingDbId newDbId numCopies : ℕ) (s : PhyDevice) : NlmStatus :=
  let blockCnt := numBlocksOfSize dbSize
  match loaderGuard device s with
  | some status => status
  | none =>
    if 4 < numCopies then .invalidArgument
    else if nlmMaxDatabaseId < newDbId then .invalidDatabaseId
    else if replacingDbId ≠ noDatabase ∧ nlmMaxDatabaseId < replacingDbId then
      .invalidDatabaseId
    else
      match buffer, nlmLoaderFmsCheckParamsAndHead s buffer dbSize with
      | some db, .ok =>
        let blockList := replacedBlocks s.toLoaderTables replacingDbId
        if newDbId ≠ replacingDbId ∧ s.createShadowBlockListByDbId newDbId ≠ [] then
          .invalidDatabaseId
        else if replacingDbId ≠ noDatabase ∧ blockList = [] then .invalidDatabaseId
        else if spaceExpected s.toLoaderTables blockList numCopies <
            spaceNeeded blockCnt numCopies then .invalidDatabaseSize
        else if (List.range blockCnt).all fun i ↦
            chksumMatches pad (db.block i) (checksum i) then .ok
        else .invalidDatabaseChecksum
      | _, status => status

/-- What the test has found out when it accepts an image. -/
structure Admitted (s : PhyDevice) (dbSize replacingDbId newDbId numCopies : ℕ) : Prop where
  numCopies_le : numCopies ≤ 4
  newDbId_le : newDbId ≤ nlmMaxDatabaseId
  replacing : replacingDbId ≠ noDatabase → replacingDbId ≤ nlmMaxDatabaseId ∧
    s.createShadowBlockListByDbId replacingDbId ≠ []
  absent : newDbId = replacingDbId ∨ s.createShadowBlockListByDbId newDbId = []
  space : spaceNeeded (numBlocksOfSize dbSize) numCopies ≤
    spaceExpected s.toLoaderTables (replacedBlocks s.toLoaderTables replacingDbId) numCopies

variable {hw : Hw} {device : Option NlmDevice} {s s' : PhyDevice}

theorem tryLoad_admitted {pad : ℕ → Byte} {buffer : Option FmsDatabase}
    {checksum : ℕ → Digest} {dbSize replacingDbId newDbId numCopies : ℕ}
    (h : nlmDeviceTryLoadDatabase pad device buffer checksum dbSize replacingDbId newDbId
      numCopies s = .ok) :
    loaderGuard device s = none ∧ (∃ db, buffer = some db) ∧
      nlmLoaderFmsCheckParamsAndHead s buffer dbSize = .ok ∧
      Admitted s dbSize replacingDbId newDbId numCopies := by
  unfold nlmDeviceTryLoadDatabase at h
  rcases hg : loaderGuard device s with _ | status
  swap
  · simp only [hg] at h
    exact absurd h (loaderGuard_ne_ok hg)
  simp only [hg] at h
  by_cases hfour : 4 < numCopies
  · rw [if_pos hfour] at h
    cases h
  by_cases hnew : nlmMaxDatabaseId < newDbId
  · rw [if_neg hfour, if_pos hnew] at h
    cases h
  by_cases hreplacing : replacingDbId ≠ noDatabase ∧ nlmMaxDatabaseId < replacingDbId
  · rw [if_neg hfour, if_neg hnew, if_pos hreplacing] at h
    cases h
  rw [if_neg hfour, if_neg hnew, if_neg hreplacing] at h
  rcases buffer with _ | db
  · cases h
  by_cases hhead : nlmLoaderFmsCheckParamsAndHead s (some db) dbSize = .ok
  swap
  · split at h
    · rename_i hok
      exact absurd hok hhead
    · exact absurd h hhead
  simp only [hhead] at h
  split_ifs at h with habsent hempty hspace hsums
  have hlist : replacingDbId ≠ noDatabase → replacingDbId ≤ nlmMaxDatabaseId ∧
      s.createShadowBlockListByDbId replacingDbId ≠ [] := by
    intro hne
    refine ⟨Nat.not_lt.mp fun hlt ↦ hreplacing ⟨hne, hlt⟩, fun hnil ↦ hempty ⟨hne, ?_⟩⟩
    rw [replacedBlocks, if_pos hne, hnil]
  exact ⟨rfl, ⟨db, rfl⟩, hhead, Nat.not_lt.mp hfour, Nat.not_lt.mp hnew, hlist,
    by tauto, Nat.not_lt.mp hspace⟩

/-! ## Unloading the replaced database -/

/-- The shadow blocks `bs` have been given up, and all others are as before. -/
structure Vacated (hw : Hw) (bs : List ℕ) (s s' : PhyDevice) : Prop where
  atRest : AtRest hw ∅ s'
  numFmsBlocks_eq : s'.numFmsBlocks = s.numFmsBlocks
  ringId_eq : s'.fmsRingId = s.fmsRingId
  numRows_eq : s'.numRowsPerFmsBlock = s.numRowsPerFmsBlock
  entry_eq : ∀ b, (s'.databaseShadowMap b).noClonesCurrent =
      (if b ∈ bs then 0 else (s.databaseShadowMap b).noClonesCurrent) ∧
    (s'.databaseShadowMap b).dbId = (s.databaseShadowMap b).dbId ∧
    (s'.databaseShadowMap b).valid =
      (if b ∈ bs then false else (s.databaseShadowMap b).valid)

theorem AtRest.vacated_nil (h : AtRest hw ∅ s) : Vacated hw [] s s :=
  ⟨h, rfl, rfl, rfl, fun b ↦ by simp⟩

theorem AtRest.unload_vacates (h : AtRest hw ∅ s) (hg : loaderGuard device s = none) {d : ℕ}
    (hd : d ≤ nlmMaxDatabaseId) (hne : s.createShadowBlockListByDbId d ≠ []) :
    Outcome (fun r ↦ r.1 = .ok ∧ Vacated hw (s.createShadowBlockListByDbId d) s r.2)
      (DmaStuck hw) (nlmDeviceUnloadDatabase hw device d s) := by
  refine (h.unload_accepted hg hd rfl hne).imp ?_
  rintro r ⟨s₁, hall, hpost, hbmap, hr, hrows⟩
  refine ⟨hr.status, h.of_unloadAll hall hpost hbmap hr, ?_,
    hr.ringId_eq.trans hall.config_eq.1, hrows, h.unloaded_entry hall hpost hr⟩
  rw [hr.tables_eq, settled_numFmsBlocks, hall.sameView.numFmsBlocks_eq]

/-! ## The space that is left -/

theorem getNumShadowBlocksFree_eq_sum (t : LoaderTables) :
    t.getNumShadowBlocksFree = ∑ b ∈ Finset.range t.numFmsBlocks,
      if (t.databaseShadowMap b).valid = true then 0 else 1 := by
  rw [getNumShadowBlocksFree, countP_range_eq_card, Finset.card_filter]
  exact Finset.sum_congr rfl fun b _ ↦ by cases (t.databaseShadowMap b).valid <;> rfl

/-- Every loaded block has a clone, so no more array blocks than shadow blocks are free. -/
theorem AtRest.arrayBlocksFree_le (h : AtRest hw ∅ s) :
    s.arrayBlocksFree ≤ s.getNumShadowBlocksFree := by
  have hsum := arrayBlocksFree_add_sum h.inv
  have hshadow := getNumShadowBlocksFree_eq_sum s.toLoaderTables
  have hone : ∀ b ∈ Finset.range s.numFmsBlocks, 1 ≤ (s.databaseShadowMap b).noClonesTarget +
      if (s.databaseShadowMap b).valid = true then 0 else 1 := by
    intro b _
    by_cases hvalid : (s.databaseShadowMap b).valid = true
    · rw [h.noClonesTarget_eq, if_pos hvalid]
      exact h.copies_pos b hvalid (Set.notMem_empty _)
    · rw [if_neg hvalid]
      omega
  have htotal := Finset.sum_le_sum hone
  rw [Finset.sum_add_distrib, ← hshadow, Finset.sum_const, Finset.card_range,
    Nat.nsmul_eq_mul, Nat.mul_one] at htotal
  omega

namespace Vacated

variable {bs : List ℕ} (v : Vacated hw bs s s')
include v

theorem blockList_nil {d : ℕ} (hd : ∀ b ∈ s.createShadowBlockListByDbId d, b ∈ bs) :
    s'.createShadowBlockListByDbId d = [] := by
  rw [List.eq_nil_iff_forall_not_mem]
  intro b hb
  obtain ⟨hlt, hvalid, hbd⟩ := mem_blockList.mp hb
  obtain ⟨-, hdb, hval⟩ := v.entry_eq b
  rw [hval] at hvalid
  by_cases hmem : b ∈ bs
  · simp [hmem] at hvalid
  · rw [if_neg hmem] at hvalid
    exact hmem (hd b (mem_blockList.mpr ⟨v.numFmsBlocks_eq ▸ hlt, hvalid, hdb ▸ hbd⟩))

theorem getNumShadowBlocksFree_eq (hnodup : bs.Nodup)
    (hbs : ∀ b ∈ bs, b < s.numFmsBlocks ∧ (s.databaseShadowMap b).valid = true) :
    s'.getNumShadowBlocksFree = s.getNumShadowBlocksFree + bs.length := by
  have hblocks := sum_ite_mem (c := 1) (fun b hb ↦ (hbs b hb).1) hnodup
  rw [getNumShadowBlocksFree_eq_sum, getNumShadowBlocksFree_eq_sum, v.numFmsBlocks_eq,
    ← Nat.mul_one bs.length, ← hblocks, ← Finset.sum_add_distrib]
  refine Finset.sum_congr rfl fun b _ ↦ ?_
  rw [(v.entry_eq b).2.2]
  by_cases hmem : b ∈ bs
  · simp [hmem, (hbs b hmem).2]
  · simp [hmem]

theorem arrayBlocksFree_eq (h : AtRest hw ∅ s) (hnodup : bs.Nodup)
    (hlt : ∀ b ∈ bs, b < s.numFmsBlocks) {c : ℕ}
    (hc : ∀ b ∈ bs, (s.databaseShadowMap b).noClonesTarget = c) :
    s'.arrayBlocksFree = s.arrayBlocksFree + bs.length * c := by
  have hblocks := sum_ite_mem (c := c) hlt hnodup
  have hsum := arrayBlocksFree_add_sum h.inv
  have hsum' := arrayBlocksFree_add_sum v.atRest.inv
  have hsplit : ∑ b ∈ Finset.range s.numFmsBlocks, (s.databaseShadowMap b).noClonesTarget =
      ∑ b ∈ Finset.range s.numFmsBlocks, (s'.databaseShadowMap b).noClonesTarget +
        bs.length * c := by
    rw [← hblocks, ← Finset.sum_add_distrib]
    refine Finset.sum_congr rfl fun b _ ↦ ?_
    rw [v.atRest.noClonesTarget_eq, (v.entry_eq b).1]
    by_cases hmem : b ∈ bs
    · simp [hmem, hc b hmem]
    · simp [hmem, h.noClonesTarget_eq]
  rw [v.numFmsBlocks_eq] at hsum'
  omega

end Vacated

/-! ## Replacing a database -/

/-- The unload, unless there is nothing to replace. -/
def unloadReplaced (hw : Hw) (device : Option NlmDevice) (replacingDbId : ℕ) (s : PhyDevice) :
    Except Halt (NlmStatus × PhyDevice) :=
  if replacingDbId ≠ noDatabase then nlmDeviceUnloadDatabase hw device replacingDbId s
  else .ok (.ok, s)

/-- The calls that an accepted test announces. -/
def replaceDatabase (hw : Hw) (device : Option NlmDevice) (database : Option FmsDatabase)
    (dbSize replacingDbId newDbId numCopies : ℕ) (s : PhyDevice) :
    Except Halt (NlmStatus × NlmStatus × PhyDevice) := do
  let (unloaded, s) ← unloadReplaced hw device replacingDbId s
  let (loaded, s) ← nlmDeviceLoadDatabase hw device database dbSize newDbId numCopies s
  .ok (unloaded, loaded, s)

/-- Database `d` is loaded, and each of its blocks has `numCopies` copies. -/
def HasCopies (s : PhyDevice) (d numCopies : ℕ) : Prop :=
  s.createShadowBlockListByDbId d ≠ [] ∧ ∀ b ∈ s.createShadowBlockListByDbId d,
    (s.databaseShadowMap b).noClonesCurrent = numCopies ∧
    (s.databaseShadowMap b).noClonesTarget = numCopies ∧
    (s.toLoaderTables.clones b).card = numCopies

theorem check_congr (hN : s'.numFmsBlocks = s.numFmsBlocks)
    (hrows : s'.numRowsPerFmsBlock = s.numRowsPerFmsBlock) (database : Option FmsDatabase)
    (dbSize : ℕ) :
    nlmLoaderFmsCheckParamsAndHead s' database dbSize =
      nlmLoaderFmsCheckParamsAndHead s database dbSize := by
  unfold nlmLoaderFmsCheckParamsAndHead
  rw [hN, hrows]

section Admission

variable {replacingDbId newDbId numCopies dbSize : ℕ}

theorem mem_replacedBlocks {t : LoaderTables} {b : ℕ} (hb : b ∈ replacedBlocks t replacingDbId) :
    b ∈ t.createShadowBlockListByDbId replacingDbId := by
  unfold replacedBlocks at hb
  split at hb
  · exact hb
  · simp at hb

theorem replacedBlocks_nodup (t : LoaderTables) (replacingDbId : ℕ) :
    (replacedBlocks t replacingDbId).Nodup := by
  unfold replacedBlocks
  split
  · exact t.blockList_nodup replacingDbId
  · exact List.nodup_nil

/-- The clones of the replaced database are counted by its first block. -/
theorem blocksToReuse_eq {t : LoaderTables} {bs : List ℕ} {c : ℕ}
    (hc : ∀ b ∈ bs, (t.databaseShadowMap b).noClonesTarget = c) :
    blocksToReuse t bs = bs.length * c := by
  rcases bs with _ | ⟨blk, blks⟩
  · simp [blocksToReuse]
  · rw [blocksToReuse, hc blk List.mem_cons_self]

/-- The space expected is there after the unload. -/
theorem Admitted.space_vacated (ha : Admitted s dbSize replacingDbId newDbId numCopies)
    (h : AtRest hw ∅ s)
    (v : Vacated hw (replacedBlocks s.toLoaderTables replacingDbId) s s') :
    (numBlocksOfSize dbSize * numCopies ≤ s'.arrayBlocksFree ∨ numCopies = 0) ∧
      numBlocksOfSize dbSize ≤ s'.getNumShadowBlocksFree := by
  have hnodup := replacedBlocks_nodup s.toLoaderTables replacingDbId
  have hmem : ∀ b ∈ replacedBlocks s.toLoaderTables replacingDbId,
      b < s.numFmsBlocks ∧ (s.databaseShadowMap b).valid = true := by
    intro b hb
    obtain ⟨hlt, hvalid, -⟩ := mem_blockList.mp (mem_replacedBlocks hb)
    exact ⟨hlt, hvalid⟩
  have hspace := ha.space
  by_cases hcopies : 0 < numCopies
  · obtain ⟨c, -, hc⟩ := h.exists_copies replacingDbId
    have htarget : ∀ b ∈ replacedBlocks s.toLoaderTables replacingDbId,
        (s.databaseShadowMap b).noClonesTarget = c := fun b hb ↦
      (h.noClonesTarget_eq b).trans (hc b (mem_replacedBlocks hb))
    have hfree := v.arrayBlocksFree_eq h hnodup (fun b hb ↦ (hmem b hb).1) htarget
    rw [spaceNeeded, if_pos hcopies, spaceExpected, if_pos hcopies,
      blocksToReuse_eq htarget, ← hfree] at hspace
    refine ⟨.inl hspace, ?_⟩
    calc
      numBlocksOfSize dbSize ≤ numBlocksOfSize dbSize * numCopies :=
        Nat.le_mul_of_pos_right _ hcopies
      _ ≤ s'.arrayBlocksFree := hspace
      _ ≤ s'.getNumShadowBlocksFree := v.atRest.arrayBlocksFree_le
  · rw [spaceNeeded, if_neg hcopies, spaceExpected, if_neg hcopies,
      ← v.getNumShadowBlocksFree_eq hnodup hmem] at hspace
    exact ⟨.inr (by omega), hspace⟩

theorem Admitted.absent_vacated (ha : Admitted s dbSize replacingDbId newDbId numCopies)
    (v : Vacated hw (replacedBlocks s.toLoaderTables replacingDbId) s s') :
    s'.createShadowBlockListByDbId newDbId = [] := by
  refine v.blockList_nil fun b hb ↦ ?_
  rcases ha.absent with heq | hnil
  · have hne : replacingDbId ≠ noDatabase := by
      have hle := ha.newDbId_le
      rw [heq] at hle
      rintro rfl
      exact absurd hle (by decide)
    rwa [replacedBlocks, if_pos hne, ← heq]
  · simp [hnil] at hb

/-- The load of an image for which there is space. -/
theorem AtRest.load_ok (h : AtRest hw ∅ s) (hg : loaderGuard device s = none)
    {d : ℕ} (hd : d ≤ nlmMaxDatabaseId) (db : FmsDatabase)
    (hhead : nlmLoaderFmsCheckParamsAndHead s (some db) dbSize = .ok) (hfour : numCopies ≤ 4)
    (hnew : s.createShadowBlockListByDbId d = [])
    (harray : numBlocksOfSize dbSize * numCopies ≤ s.arrayBlocksFree ∨ numCopies = 0)
    (hshadow : numBlocksOfSize dbSize ≤ s.getNumShadowBlocksFree) :
    Outcome (fun r ↦ r.1 = .ok ∧ (0 < numCopies → HasCopies r.2 d numCopies)) (DmaStuck hw)
      (nlmDeviceLoadDatabase hw device (some db) dbSize d numCopies s) := by
  have hblocks := AtRest.check_ok hhead
  refine (h.load_written hg hd db hhead hfour hnew harray hshadow).imp ?_
  rintro r ⟨hok, hr, hlen, hloaded⟩
  refine ⟨hok, fun hpos ↦ ⟨List.ne_nil_of_length_pos (hlen ▸ hblocks), fun b hb ↦ ?_⟩⟩
  have hcur := (hloaded hpos).copies_eq b hb
  exact ⟨hcur, (hr.noClonesTarget_eq b).trans hcur,
    (hr.inv.placed.card_clones b).trans hcur⟩

theorem Admitted.unloadReplaced_ok (ha : Admitted s dbSize replacingDbId newDbId numCopies)
    (h : AtRest hw ∅ s) (hg : loaderGuard device s = none) :
    Outcome (fun r ↦ r.1 = .ok ∧
        Vacated hw (replacedBlocks s.toLoaderTables replacingDbId) s r.2) (DmaStuck hw)
      (unloadReplaced hw device replacingDbId s) := by
  by_cases hne : replacingDbId ≠ noDatabase
  · obtain ⟨hle, hlist⟩ := ha.replacing hne
    rw [unloadReplaced, replacedBlocks, if_pos hne, if_pos hne]
    exact h.unload_vacates hg hle hlist
  · rw [unloadReplaced, replacedBlocks, if_neg hne, if_neg hne]
    exact ⟨rfl, h.vacated_nil⟩

theorem AtRest.replace_ok (h : AtRest hw ∅ s) (hg : loaderGuard device s = none)
    {db : FmsDatabase} (hhead : nlmLoaderFmsCheckParamsAndHead s (some db) dbSize = .ok)
    (ha : Admitted s dbSize replacingDbId newDbId numCopies) :
    Outcome (fun r ↦ r.1 = .ok ∧ r.2.1 = .ok ∧
        (0 < numCopies → HasCopies r.2.2 newDbId numCopies)) (DmaStuck hw)
      (replaceDatabase hw device (some db) dbSize replacingDbId newDbId numCopies s) := by
  unfold replaceDatabase
  refine Outcome.bind (ha.unloadReplaced_ok h hg) ?_
  rintro ⟨unloaded, s'⟩ ⟨hok, v⟩
  obtain ⟨harray, hshadow⟩ := ha.space_vacated h v
  refine Outcome.bind (v.atRest.load_ok ((loaderGuard_congr v.ringId_eq).trans hg)
    ha.newDbId_le db ((check_congr v.numFmsBlocks_eq v.numRows_eq _ _).trans hhead)
    ha.numCopies_le (ha.absent_vacated v) harray hshadow) ?_
  rintro ⟨loaded, s''⟩ ⟨hloaded, hcopies⟩
  exact ⟨hok, hloaded, hcopies⟩

end Admission

/-- After any run of synchronous calls, what the test accepts can be done: the replaced
database is unloaded and the image is loaded with the copies asked for. -/
theorem runCalls_tryLoad (hw : Hw) (c : LoaderConfig) (calls : List LoaderCall)
    (hcalls : ∀ call ∈ calls, call.Synchronous) {s : PhyDevice}
    (hrun : runCalls hw c.initDevice calls = .ok s) (pad : ℕ → Byte)
    (device : Option NlmDevice) (buffer : Option FmsDatabase) (checksum : ℕ → Digest)
    (dbSize replacingDbId newDbId numCopies : ℕ)
    (htry : nlmDeviceTryLoadDatabase pad device buffer checksum dbSize replacingDbId newDbId
      numCopies s = .ok) :
    Outcome (fun r ↦ r.1 = .ok ∧ r.2.1 = .ok ∧
        (0 < numCopies → HasCopies r.2.2 newDbId numCopies)) (DmaStuck hw)
      (replaceDatabase hw device buffer dbSize replacingDbId newDbId numCopies s) := by
  have hs : AtRest hw ∅ s :=
    (runCalls_atRest (atRest_initDevice hw c) calls hcalls).of_eq_ok hrun
  obtain ⟨hg, ⟨db, rfl⟩, hhead, ha⟩ := tryLoad_admitted htry
  exact hs.replace_ok hg hhead ha

/-- A blank image replaces the database that has been loaded. -/
theorem runCalls_tryLoad_replacing : ∃ s r,
    runCalls idleHw fourBlocks.initDevice sampleCalls = .ok s ∧
      (s.createShadowBlockListByDbId 0).length = 1 ∧
      replaceDatabase idleHw (some ⟨0⟩) (some blankImage) (sizeofFmsFileSig + sizeofFmsBlockHw)
        0 0 2 s = .ok r ∧ r.1 = .ok ∧ r.2.1 = .ok ∧ HasCopies r.2.2 0 2 := by
  obtain ⟨s, hrun, hrest, hlen, hloaded⟩ := sampleCalls_loaded
  have hguard : loaderGuard (some ⟨0⟩) s = none := loaderGuard_congr hloaded.ringId_eq
  have hcnt : numBlocksOfSize (sizeofFmsFileSig + sizeofFmsBlockHw) = 1 := rfl
  have hhead : nlmLoaderFmsCheckParamsAndHead s (some blankImage)
      (sizeofFmsFileSig + sizeofFmsBlockHw) = .ok := by
    refine (check_congr hloaded.numFmsBlocks_eq hloaded.numRows_eq _ _).trans ?_
    simp [nlmLoaderFmsCheckParamsAndHead, hcnt, policySet, fourBlocks, LoaderConfig.initDevice,
      blankImage]
  obtain ⟨b, hlist⟩ := List.length_eq_one_iff.mp hlen
  have hb : b ∈ s.createShadowBlockListByDbId 0 := hlist ▸ List.mem_singleton_self b
  have htwo : (s.databaseShadowMap b).noClonesTarget = 2 :=
    (hrest.noClonesTarget_eq b).trans (hloaded.copies_eq b hb)
  have htry : nlmDeviceTryLoadDatabase (fun _ ↦ 0) (some ⟨0⟩) (some blankImage)
      (fun i ↦ (blankImage.block i).chksum) (sizeofFmsFileSig + sizeofFmsBlockHw) 0 0 2 s =
        .ok := by
    simp [nlmDeviceTryLoadDatabase, hguard, hcnt, hhead, hlist, htwo, replacedBlocks,
      spaceExpected, spaceNeeded, blocksToReuse, chksumMatches_iff]
  have hsync := sampleCalls_synchronous
  generalize sizeofFmsFileSig + sizeofFmsBlockHw = dbSize at htry ⊢
  generalize sampleCalls = calls at hrun hsync ⊢
  have hreplace := runCalls_tryLoad idleHw fourBlocks calls hsync hrun _ _ _ _ _ _ _ _ htry
  rcases hresult : replaceDatabase idleHw (some ⟨0⟩) (some blankImage) dbSize 0 0 2 s with e | r
  · exact absurd idleHw_prompt (hreplace.of_eq_error hresult).2
  · obtain ⟨hunloaded, hok, hcopies⟩ := hreplace.of_eq_ok hresult
    exact ⟨s, r, hrun, hlen, hresult, hunloaded, hok, hcopies (by decide)⟩

end PhyDevice

end NetL7.Loader
