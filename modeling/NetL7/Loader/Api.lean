import NetL7.Loader.Command
import Mathlib.Algebra.Order.Ring.Int

/-!
# Loading, unloading and balancing databases

The loader entry points of the dataplane interface. A run is a sequence of
calls on a freshly initialised device. The block deny mask is 0.
-/

namespace NetL7.Loader

namespace PhyDevice

section EntryPoints

variable (hw : Hw) (device : Option NlmDevice)

/-- The common end of the calls that queue commands: the synchronous policies
drain the queue, the asynchronous one executes a single command. -/
def finishByPolicy (s : PhyDevice) : Except Halt (NlmStatus × PhyDevice) :=
  if s.databaseLoadPolicy ≠ databaseLoadPolicyAsync then drain hw device s
  else nlmDeviceLoaderCmdExecFms hw device s

/-! ## Changing the number of copies -/

/-- `num_copies - no_clones_target` for a shadow block. -/
def missingCopies (t : LoaderTables) (numCopies blk : ℕ) : ℤ :=
  numCopies - (t.databaseShadowMap blk).noClonesTarget

/-- The loop that computes `delta`. Its assertion compares the two variables
before `delta` is updated, so the last block is never compared. -/
def deltaLoop (t : LoaderTables) (numCopies : ℕ) :
    List ℕ → Bool → ℤ → ℤ → Except Halt ℤ
  | [], _, delta, _ => .ok delta
  | blk :: blks, first, delta, oldDelta => do
    prettyAssert (delta == oldDelta) .unequalDelta
    let delta := missingCopies t numCopies blk
    deltaLoop t numCopies blks false delta (if first then delta else oldDelta)

/-- One round of growth: one more clone of each block, then the bulk update of
the group bitmap. -/
def growRound (blockList : List ℕ) (s : PhyDevice) : Except Halt PhyDevice := do
  let s ← blockList.foldlM nlmDeviceLoaderClone s
  let blk := blockList.headD 0
  s.nlmDeviceLoaderCmdAdd
    (.pack .gidBmapConfigure (s.databaseShadowMap blk).noClonesTarget blk)

/-- The condition under which the victim search takes array block `j`. -/
def isVictim (t : LoaderTables) (blk j : ℕ) : Bool :=
  blk == t.arrayVirtIds j && t.arrayBlockMapCurrent j &&
    (t.databaseShadowMap blk).noClonesTarget == t.arrayBlockCopyNumber j + 1

/-- One pass of the victim search over the array blocks. `missing` is
`-blk_delta`, and the pass stops when it reaches 0. -/
def victimPass (blk : ℕ) (s : PhyDevice) (missing : ℕ) : Except Halt (PhyDevice × ℕ) :=
  (List.range s.numFmsBlocks).foldlM (fun (s, missing) j ↦
    if missing ≠ 0 ∧ isVictim s.toLoaderTables blk j = true then do
      prettyAssert ((s.databaseShadowMap blk).noClonesTarget != 0) .noCloneTarget
      let s := s.mapTables fun t ↦
        t.nlmDeviceBlockSchedulerDelete blk j (1 <<< t.arrayBlockCopyNumber j)
      let s ← s.nlmDeviceLoaderDeclone j blk
      .ok (s, missing - 1)
    else .ok (s, missing)) (s, missing)

/-- The victim search `while (blk_delta)`, cut off after `fuel` passes. -/
def whileBlkDelta (blk : ℕ) : ℕ → PhyDevice → ℕ → Except Halt PhyDevice
  | _, s, 0 => .ok s
  | 0, _, _ + 1 => .error .victimSearch
  | fuel + 1, s, missing + 1 => do
    let (s, missing) ← victimPass blk s (missing + 1)
    whileBlkDelta blk fuel s missing

/-- The shrinking branch. A pass that makes progress takes a victim, so a search
for `n` victims that needs more than `n` passes runs forever. -/
def shrink (blockList : List ℕ) (n : ℕ) (s : PhyDevice) : Except Halt PhyDevice :=
  blockList.foldlM (fun s blk ↦ whileBlkDelta blk n s n) s

/-- The two branches of `nlm_device_database_set_num_copies`. -/
def resize (blockList : List ℕ) (delta : ℤ) (s : PhyDevice) : Except Halt PhyDevice :=
  if 0 < delta then (List.range delta.toNat).foldlM (fun s _ ↦ growRound blockList s) s
  else shrink blockList (-delta).toNat s

/-- `nlm_device_database_set_num_copies` -/
def nlmDeviceDatabaseSetNumCopies (databaseId numCopies : ℕ) (s : PhyDevice) :
    Except Halt (NlmStatus × PhyDevice) :=
  match loaderGuard device s with
  | some status => .ok (status, s)
  | none =>
    if nlmMaxDatabaseId < databaseId then .ok (.invalidDatabaseId, s)
    else if 4 < numCopies then .ok (.invalidArgument, s)
    else
      let blockList := s.createShadowBlockListByDbId databaseId
      let arrayBlocksRequired :=
        (blockList.map (missingCopies s.toLoaderTables numCopies)).sum
      if blockList = [] then .ok (.invalidDatabaseId, s)
      else if 0 < arrayBlocksRequired ∧ (s.arrayBlocksFree : ℤ) < arrayBlocksRequired then
        .ok (.invalidDatabaseSize, s)
      else do
        let delta ← deltaLoop s.toLoaderTables numCopies blockList true 0 0
        let s ← resize blockList delta s
        finishByPolicy hw device s

/-! ## Balancing -/

/-- The number of valid shadow blocks. -/
def shadowBlocksOccupied (t : LoaderTables) : ℕ :=
  (List.range t.numFmsBlocks).countP fun i ↦ (t.databaseShadowMap i).valid

/-- The number of copies that `nlm_device_database_balance` decides on. -/
def balancedCopies (t : LoaderTables) : ℕ :=
  min 4 (t.numFmsBlocks / shadowBlocksOccupied t)

/-- The current number of copies of the first block of a database, if the
database is loaded. -/
def residentCopies (t : LoaderTables) (databaseId : ℕ) : Option ℕ :=
  (t.createShadowBlockListByDbId databaseId).head?.map fun blk ↦
    (t.databaseShadowMap blk).noClonesCurrent

/-- One of the two loops of `nlm_device_database_balance`: every database whose
current number of copies is on the wrong side is set to `numCopies`. -/
def balanceLoop (wrongSide : ℕ → Bool) (numCopies : ℕ) (r : NlmStatus × PhyDevice) :
    Except Halt (NlmStatus × PhyDevice) :=
  (List.range (nlmMaxDatabaseId + 1)).foldlM (fun (status, s) i ↦
    match residentCopies s.toLoaderTables i with
    | none => .ok (status, s)
    | some copies =>
      if wrongSide copies then do
        let (status, s) ← nlmDeviceDatabaseSetNumCopies hw device i numCopies s
        prettyAssert (status == .ok || status == .loaderInProgress) .balanceFailed
        .ok (status, s)
      else .ok (status, s)) r

/-- `nlm_device_database_balance` -/
def nlmDeviceDatabaseBalance (s : PhyDevice) : Except Halt (NlmStatus × PhyDevice) :=
  match loaderGuard device s with
  | some status => .ok (status, s)
  | none =>
    if shadowBlocksOccupied s.toLoaderTables = 0 then .ok (.invalidDatabaseId, s)
    else do
      let numCopies := balancedCopies s.toLoaderTables
      let r ← balanceLoop hw device (fun copies ↦ numCopies < copies) numCopies (.ok, s)
      balanceLoop hw device (fun copies ↦ copies < numCopies) numCopies r

/-! ## Loading and unloading -/

/-- `sizeof (struct fms_file_sig)` -/
abbrev sizeofFmsFileSig : ℕ := 12

/-- `sizeof (struct fms_block_hw)` -/
abbrev sizeofFmsBlockHw : ℕ := 229408

/-- The number of block images in a buffer of `dbSize` bytes, computed in 64
bits and stored in 32. -/
def numBlocksOfSize (dbSize : ℕ) : ℕ :=
  (2 ^ 64 + dbSize - sizeofFmsFileSig) % 2 ^ 64 / sizeofFmsBlockHw % 2 ^ 32

/-- `nlm_loader_fms_check_params_and_head` -/
def nlmLoaderFmsCheckParamsAndHead (s : PhyDevice) (buffer : Option FmsDatabase)
    (dbSize : ℕ) : NlmStatus :=
  let blockCnt := numBlocksOfSize dbSize
  match buffer with
  | none => .invalidArgument
  | some db =>
    if dbSize = 0 then .invalidArgument
    else if dbSize ≠ sizeofFmsFileSig + sizeofFmsBlockHw * blockCnt then
      .invalidDatabaseSize
    else if blockCnt < 1 ∨ s.numFmsBlocks < blockCnt then .invalidDatabaseSize
    else if ∃ i ∈ List.range blockCnt,
        ∃ j ∈ List.range' s.numRowsPerFmsBlock (famosBlockSize - s.numRowsPerFmsBlock),
          (db.block i).row j ≠ ⟨0, 0, 0⟩ then .invalidDatabaseSize
    else if db.productId ≠ fmsAsmFamosFpga then .invalidDatabaseVersion
    else .ok

/-- Writes one block image into shadow block `i`. -/
def writeShadowBlock (t : LoaderTables) (databaseId i : ℕ) (block : FmsBlockHw) :
    NlmStatus × LoaderTables :=
  let (block, groups, status) := nlmExtractGroupsFromBlock block databaseId
  let t := { t with
    databaseExtensionArea := Function.update t.databaseExtensionArea i block
    blockGroupList := Function.update t.blockGroupList i groups }
  if status ≠ .ok then (status, t)
  else (.ok, t.setShadow i fun e ↦
    { e with valid := true, dbId := databaseId, virtBlkNo := i })

/-- The loop of `nlm_device_write_database_to_shadow` over the shadow blocks;
`blkNo` images have been written. -/
def writeLoop (databaseId : ℕ) (database : FmsDatabase) (numBlocks : ℕ) :
    List ℕ → ℕ → LoaderTables → NlmStatus × LoaderTables
  | [], _, t => (.ok, t)
  | i :: is, blkNo, t =>
    if numBlocks ≤ blkNo then (.ok, t)
    else if (t.databaseShadowMap i).valid then writeLoop databaseId database numBlocks is blkNo t
    else
      let r := writeShadowBlock t databaseId i (database.block blkNo)
      if r.1 ≠ .ok then r else writeLoop databaseId database numBlocks is (blkNo + 1) r.2

/-- `nlm_device_write_database_to_shadow` -/
def nlmDeviceWriteDatabaseToShadow (t : LoaderTables) (databaseId : ℕ)
    (database : FmsDatabase) (numBlocks : ℕ) : NlmStatus × LoaderTables :=
  if t.getNumShadowBlocksFree < numBlocks then (.invalidDatabaseSize, t)
  else writeLoop databaseId database numBlocks (List.range t.numFmsBlocks) 0 t

/-- `nlm_device_load_database` once the queue is empty; `headStatus` is the
verdict of `nlm_loader_fms_check_params_and_head`. -/
def loadChecked (database : Option FmsDatabase) (headStatus : NlmStatus)
    (numBlocks databaseId numCopies : ℕ) (s : PhyDevice) :
    Except Halt (NlmStatus × PhyDevice) :=
  match database, headStatus with
  | some db, .ok =>
    match s.createShadowBlockListByDbId databaseId with
    | blk :: _ =>
      .ok (if (s.databaseShadowMap blk).noClonesTarget ≠ 0 then .invalidArgument else .busy, s)
    | [] =>
      if 4 < numCopies then .ok (.invalidArgument, s)
      else if 0 < numCopies ∧ s.arrayBlocksFree < numBlocks * numCopies then
        .ok (.invalidDatabaseSize, s)
      else
        match nlmDeviceWriteDatabaseToShadow s.toLoaderTables databaseId db numBlocks with
        | (.ok, t) => do
          let s := s.mapTables fun _ ↦ t
          let (status, s) ←
            if numCopies ≠ 0 then
              nlmDeviceDatabaseSetNumCopies hw device databaseId numCopies s
            else nlmDeviceDatabaseBalance hw device s
          if status ≠ .ok then .ok (status, s) else finishByPolicy hw device s
        | (status, t) => .ok (status, s.mapTables fun _ ↦ t)
  | _, status => .ok (status, s)

/-- `nlm_device_load_database` -/
def nlmDeviceLoadDatabase (database : Option FmsDatabase) (dbSize databaseId numCopies : ℕ)
    (s : PhyDevice) : Except Halt (NlmStatus × PhyDevice) :=
  match loaderGuard device s with
  | some status => .ok (status, s)
  | none =>
    if nlmMaxDatabaseId < databaseId then .ok (.invalidDatabaseId, s)
    else do
      let (status, s) ← nlmDeviceLoaderCmdExecFms hw device s
      if status = .loaderInProgress then .ok (.busy, s)
      else
        loadChecked hw device database (nlmLoaderFmsCheckParamsAndHead s database dbSize)
          (numBlocksOfSize dbSize) databaseId numCopies s

/-- The array blocks of one shadow block are taken out of service and its
deletion is queued. -/
def unloadBlock (s : PhyDevice) (blk : ℕ) : Except Halt PhyDevice := do
  let s ← (List.range s.numFmsBlocks).foldlM (fun s j ↦
    if s.arrayBlockMapCurrent j = true ∧ blk = s.arrayVirtIds j then
      let s := s.mapTables fun t ↦
        t.nlmDeviceBlockSchedulerDelete blk j (1 <<< t.arrayBlockCopyNumber j)
      s.nlmDeviceLoaderDeclone j blk
    else .ok s) s
  s.nlmDeviceLoaderCmdAdd (.pack .shadowDelete 0 blk)

/-- `nlm_device_unload_database` -/
def nlmDeviceUnloadDatabase (databaseId : ℕ) (s : PhyDevice) :
    Except Halt (NlmStatus × PhyDevice) :=
  match loaderGuard device s with
  | some status => .ok (status, s)
  | none =>
    if nlmMaxDatabaseId < databaseId then .ok (.invalidDatabaseId, s)
    else do
      let (status, s) ← nlmDeviceLoaderCmdExecFms hw device s
      if status = .loaderInProgress then .ok (.busy, s)
      else if s.createShadowBlockListByDbId databaseId = [] then .ok (.invalidDatabaseId, s)
      else do
        let s ← (s.createShadowBlockListByDbId databaseId).foldlM unloadBlock s
        finishByPolicy hw device s

end EntryPoints

end PhyDevice

end NetL7.Loader
