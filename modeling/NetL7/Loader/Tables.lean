import NetL7.Status
import Mathlib.Logic.Function.Basic

/-!
# Loader state of the physical device

The loader keeps its state in parallel tables, one entry for each array block
(a block of the search array) or shadow block (a block image in the database
extension area). Fixed-size C arrays are functions on indices. The ring
`loader_cmd_mem` is the list of the commands between `cmd_rd_ptr` and
`cmd_wr_ptr`.

`uint8_t` counters are natural numbers kept below 256 by `incr8` and `decr8`.
The host is little endian, so `SWAP32` is the identity.
-/

namespace NetL7.Loader

/-- `FAMOS_BLOCK_SIZE` -/
abbrev famosBlockSize : ℕ := 0x4000

/-- `MAX_ACCEPT_PER_BLOCK` -/
abbrev maxAcceptPerBlock : ℕ := 0x800

/-- `NLM_FMS_LOADER_CMD_BUFF_SIZE` -/
abbrev nlmFmsLoaderCmdBuffSize : ℕ := 14 * totalFamosBlocks

/-- `NLM_DATABASE_LOAD_POLICY_ASYNC` -/
abbrev databaseLoadPolicyAsync : ℕ := 2

/-- `FMS_ASM_FAMOS_FPGA`, the product id expected in an image header. -/
abbrev fmsAsmFamosFpga : BitVec 32 := 0x46534d46

/-- `++` on a `uint8_t`. -/
def incr8 (n : ℕ) : ℕ := (n + 1) % 256

/-- `--` on a `uint8_t`. -/
def decr8 (n : ℕ) : ℕ := (n + 255) % 256

theorem incr8_of_lt {n : ℕ} (h : n < 255) : incr8 n = n + 1 := by
  unfold incr8
  omega

theorem decr8_succ {n : ℕ} (h : n < 255) : decr8 (n + 1) = n := by
  unfold decr8
  omega

/-- One row of a block image, `union fms_row_hw`. -/
structure FmsRowHw where
  data0 : BitVec 32
  data1 : BitVec 32
  data2 : BitVec 32
  deriving DecidableEq

/-- The field `tcam.w0.gid`, the upper 12 bits of the first word. -/
def FmsRowHw.gid (r : FmsRowHw) : BitVec 12 := r.data0.extractLsb' 20 12

def FmsRowHw.setGid (r : FmsRowHw) (g : BitVec 12) : FmsRowHw :=
  { r with data0 := g ++ r.data0.extractLsb' 0 20 }

/-- One entry of the action table, `struct fms_action_result_entry`. -/
structure FmsActionResultEntry where
  w0 : BitVec 32
  w1 : BitVec 32
  w2 : BitVec 32
  w3 : BitVec 32
  deriving DecidableEq

/-- The field `w0.s.gid`, bits 14 to 25. -/
def FmsActionResultEntry.gid (e : FmsActionResultEntry) : BitVec 12 :=
  e.w0.extractLsb' 14 12

def FmsActionResultEntry.setGid (e : FmsActionResultEntry) (g : BitVec 12) :
    FmsActionResultEntry :=
  { e with w0 := e.w0.extractLsb' 26 6 ++ (g ++ e.w0.extractLsb' 0 14) }

/-- A block image, `struct fms_block_hw`. -/
structure FmsBlockHw where
  row : ℕ → FmsRowHw
  actionTable : ℕ → FmsActionResultEntry

/-- A database image: the product id of its header and its block images. The
buffer that holds it is `sizeof (struct fms_file_sig)` bytes of header followed
by the blocks. -/
structure FmsDatabase where
  productId : BitVec 32
  block : ℕ → FmsBlockHw

/-- `struct fms_database_shadow_map_entry` -/
structure ShadowMapEntry where
  valid : Bool
  noClonesCurrent : ℕ
  noClonesTarget : ℕ
  dbId : ℕ
  virtBlkNo : ℕ
  deriving DecidableEq, Repr

/-- `struct fms_gid_bitmap_data`: `fms_block_bitmap0` to `fms_block_bitmap3` and
their valid bits, indexed by the time slot. -/
structure GidBitmapData where
  fmsBlockBitmap : Fin 4 → BitVec 12
  valid : Fin 4 → Bool

/-- `enum fms_loader_command_opcode` -/
inductive LoaderOpcode
  | nop
  | arrayAdd
  | arrayDelete
  | shadowDelete
  | pause
  | pauseWait
  | resume
  | resumeWait
  | dmaXferStart
  | dmaXferCompleteWait
  | actionTableLoad
  | actionTableClear
  | gidBmapConfigure
  | assignVirtBlkId
  | assignVirtBlkIdWait
  deriving DecidableEq, Repr

/-- `struct fms_loader_command` -/
structure LoaderCommand where
  opcode : LoaderOpcode
  addrArray : ℕ
  addrShadow : ℕ
  deriving DecidableEq, Repr

/-- The two addresses are four-bit fields. -/
def LoaderCommand.pack (opcode : LoaderOpcode) (addrArray addrShadow : ℕ) :
    LoaderCommand :=
  ⟨opcode, addrArray % 16, addrShadow % 16⟩

/-- The parallel tables. `gidBmapHw` holds the value last written to each
hardware entry of the group bitmap. -/
structure LoaderTables where
  numFmsBlocks : ℕ
  databaseShadowMap : ℕ → ShadowMapEntry
  arrayVirtIds : ℕ → ℕ
  arrayBlockMapCurrent : ℕ → Bool
  arrayBlockMapTarget : ℕ → Bool
  arrayBlockCopyNumber : ℕ → ℕ
  blockGroupList : ℕ → List ℕ
  gidBmapShadow : ℕ → ℕ → GidBitmapData
  gidBmapHw : ℕ → ℕ → GidBitmapData
  databaseExtensionArea : ℕ → FmsBlockHw

/-- The loader's part of `nlm_phy_device_t`. `polls` counts the polls of a
busy bit made so far and indexes the answers of the hardware. -/
structure PhyDevice extends LoaderTables where
  fmsRingId : ℕ
  numRowsPerFmsBlock : ℕ
  databaseLoadPolicy : ℕ
  waitTimeout : ℕ
  pauseTimeout : ℕ
  loaderCmdMem : List LoaderCommand
  polls : ℕ

/-- A thread's device handle. -/
structure NlmDevice where
  threadId : ℕ
  deriving DecidableEq

/-- Ways in which a loader call does not return: a failed `pretty_assert`, or
the victim search running forever. -/
inductive Halt
  | dmaWaitTimeout
  | resumeWaitTimeout
  | shadowStillCloned
  | commandFifoOverrun
  | noFreeArrayBlock
  | unequalDelta
  | noCloneTarget
  | blocksWithoutCopies
  | balanceFailed
  | victimSearch
  deriving DecidableEq, Repr

/-- `pretty_assert` -/
def prettyAssert (b : Bool) (e : Halt) : Except Halt Unit :=
  if b then .ok () else .error e

/-! ## Updates of single tables -/

namespace LoaderTables

variable (t : LoaderTables)

def setShadow (sh : ℕ) (f : ShadowMapEntry → ShadowMapEntry) : LoaderTables :=
  { t with databaseShadowMap :=
      Function.update t.databaseShadowMap sh (f (t.databaseShadowMap sh)) }

def setTarget (j : ℕ) (b : Bool) : LoaderTables :=
  { t with arrayBlockMapTarget := Function.update t.arrayBlockMapTarget j b }

def setCurrent (j : ℕ) (b : Bool) : LoaderTables :=
  { t with arrayBlockMapCurrent := Function.update t.arrayBlockMapCurrent j b }

def setCopyNumber (j c : ℕ) : LoaderTables :=
  { t with arrayBlockCopyNumber := Function.update t.arrayBlockCopyNumber j c }

def setVirtId (j v : ℕ) : LoaderTables :=
  { t with arrayVirtIds := Function.update t.arrayVirtIds j v }

/-- The shadow entry of the group bitmap is replaced and written to hardware. -/
def writeGidBmap (d g : ℕ) (e : GidBitmapData) : LoaderTables :=
  { t with
    gidBmapShadow := Function.update t.gidBmapShadow d
      (Function.update (t.gidBmapShadow d) g e)
    gidBmapHw := Function.update t.gidBmapHw d
      (Function.update (t.gidBmapHw d) g e) }

/-- `nlm_device_create_shadow_block_list_by_db_id` -/
def createShadowBlockListByDbId (databaseId : ℕ) : List ℕ :=
  (List.range t.numFmsBlocks).filter fun i ↦
    (t.databaseShadowMap i).valid && (t.databaseShadowMap i).dbId == databaseId

/-- `nlm_device_get_num_shadow_blocks_free` -/
def getNumShadowBlocksFree : ℕ :=
  (List.range t.numFmsBlocks).countP fun i ↦ !(t.databaseShadowMap i).valid

/-- The number of array blocks that no target clone occupies. -/
def arrayBlocksFree : ℕ :=
  (List.range t.numFmsBlocks).countP fun i ↦ !t.arrayBlockMapTarget i

end LoaderTables

end NetL7.Loader
