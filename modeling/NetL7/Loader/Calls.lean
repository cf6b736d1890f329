import NetL7.Loader.Api

/-!
# Runs of the loader

The calls through which an application reaches the loader, and the device
states that sequences of such calls produce.
-/

namespace NetL7.Loader

/-- What `physical_device_init` finds out about the hardware. -/
structure LoaderConfig where
  numFmsBlocks : ℕ
  numRowsPerFmsBlock : ℕ
  fmsRingId : ℕ
  numFmsBlocks_pos : 0 < numFmsBlocks
  numFmsBlocks_le : numFmsBlocks ≤ totalFamosBlocks

/-- A bitmap entry of zeros. -/
def GidBitmapData.zero : GidBitmapData := ⟨fun _ ↦ 0, fun _ ↦ false⟩

/-- The device after `physical_device_init`: the memory is zeroed and the group
bitmap of the hardware is cleared. -/
def LoaderConfig.initDevice (c : LoaderConfig) : PhyDevice where
  numFmsBlocks := c.numFmsBlocks
  databaseShadowMap := fun _ ↦ ⟨false, 0, 0, 0, 0⟩
  arrayVirtIds := fun _ ↦ 0
  arrayBlockMapCurrent := fun _ ↦ false
  arrayBlockMapTarget := fun _ ↦ false
  arrayBlockCopyNumber := fun _ ↦ 0
  blockGroupList := fun _ ↦ []
  gidBmapShadow := fun _ _ ↦ .zero
  gidBmapHw := fun _ _ ↦ .zero
  databaseExtensionArea := fun _ ↦ ⟨fun _ ↦ ⟨0, 0, 0⟩, fun _ ↦ ⟨0, 0, 0, 0⟩⟩
  fmsRingId := c.fmsRingId
  numRowsPerFmsBlock := c.numRowsPerFmsBlock
  databaseLoadPolicy := 0
  waitTimeout := 0
  pauseTimeout := 0
  loaderCmdMem := []
  polls := 0

/-- What a call hands back: its status, and for the parameter calls the status
and the value stored through the caller's pointers. -/
structure CallResult where
  status : NlmStatus
  dbStatus : Option NlmStatus
  value : Option ℕ
  deriving DecidableEq, Repr

def CallResult.ofStatus (status : NlmStatus) : CallResult := ⟨status, none, none⟩

/-- The calls that reach the loader. -/
inductive LoaderCall
  | load (device : Option NlmDevice) (database : Option FmsDatabase)
      (dbSize databaseId numCopies : ℕ)
  | unload (device : Option NlmDevice) (databaseId : ℕ)
  | setCopyCnt (device : Option NlmDevice) (databaseId numCopies : ℕ)
  | balance (device : Option NlmDevice)
  | setLoadPolicy (device : Option NlmDevice) (policy : ℕ)
  | getCopyCnt (device : Option NlmDevice) (databaseId : ℕ)
  | loaderStatus (device : Option NlmDevice)

namespace PhyDevice

/-- The first error of the loop of `nlm_device_database_get_num_copies`, or the
number of copies it ends with. -/
def numCopiesLoop (t : LoaderTables) (databaseId : ℕ) : List ℕ → ℕ → Option ℕ
  | [], numCopies => some numCopies
  | i :: is, numCopies =>
    let e := t.databaseShadowMap i
    if e.valid && e.dbId == databaseId then
      if e.noClonesCurrent ≠ e.noClonesTarget then none
      else numCopiesLoop t databaseId is e.noClonesCurrent
    else numCopiesLoop t databaseId is numCopies

/-- `nlm_device_database_get_num_copies` -/
def nlmDeviceDatabaseGetNumCopies (hw : Hw) (device : Option NlmDevice) (databaseId : ℕ)
    (s : PhyDevice) : Except Halt (NlmStatus × Option ℕ × PhyDevice) :=
  match loaderGuard device s with
  | some status => .ok (status, none, s)
  | none =>
    if nlmMaxDatabaseId < databaseId then .ok (.invalidDatabaseId, none, s)
    else
      match numCopiesLoop s.toLoaderTables databaseId (List.range s.numFmsBlocks) 0 with
      | none => .ok (.busy, none, s)
      | some 0 => do
        prettyAssert (s.createShadowBlockListByDbId databaseId == []) .blocksWithoutCopies
        .ok (.databaseUnloaded, some 0, s)
      | some numCopies => do
        let (status, s) ← nlmDeviceLoaderCmdExecFms hw device s
        .ok (status, some numCopies, s)

/-- The checks at the head of `nlm_device_set_param_va` and
`nlm_device_get_param_va`. -/
def paramGuard (device : Option NlmDevice) : Option NlmStatus :=
  match device with
  | none => some .invalidArgument
  | some d => if d.threadId ≠ 0 then some .invalidThreadId else none

/-- The case `NLM_DATABASE_COPY_CNT` of `nlm_device_set_param_va`. -/
def setParamCopyCnt (hw : Hw) (device : Option NlmDevice) (databaseId numCopies : ℕ)
    (s : PhyDevice) : Except Halt (CallResult × PhyDevice) :=
  match paramGuard device with
  | some status => .ok (.ofStatus status, s)
  | none =>
    if nlmMaxDatabaseId < databaseId then .ok (⟨.ok, some .invalidDatabaseId, none⟩, s)
    else if numCopies < 1 ∨ 4 < numCopies then .ok (⟨.ok, some .invalidArgument, none⟩, s)
    else do
      let (status, s) ← nlmDeviceLoaderCmdExecFms hw device s
      if status = .loaderInProgress then .ok (.ofStatus .busy, s)
      else do
        let (status, s) ← nlmDeviceDatabaseSetNumCopies hw device databaseId numCopies s
        .ok (⟨.ok, some status, none⟩, s)

/-- The case `NLM_DATABASE_BALANCE` of `nlm_device_set_param_va`. -/
def setParamBalance (hw : Hw) (device : Option NlmDevice) (s : PhyDevice) :
    Except Halt (CallResult × PhyDevice) :=
  match paramGuard device with
  | some status => .ok (.ofStatus status, s)
  | none => do
    let (status, s) ← nlmDeviceDatabaseBalance hw device s
    .ok (⟨.ok, some status, none⟩, s)

/-- The case `NLM_DATABASE_LOAD_POLICY` of `nlm_device_set_param_va`. The policy
is stored in a `uint8_t`. -/
def setParamLoadPolicy (device : Option NlmDevice) (policy : ℕ) (s : PhyDevice) :
    CallResult × PhyDevice :=
  match paramGuard device with
  | some status => (.ofStatus status, s)
  | none => (.ofStatus .ok, { s with databaseLoadPolicy := policy % 256 })

/-- One call. -/
def callStep (hw : Hw) (s : PhyDevice) : LoaderCall → Except Halt (CallResult × PhyDevice)
  | .load device database dbSize databaseId numCopies => do
    let (status, s) ←
      nlmDeviceLoadDatabase hw device database dbSize databaseId numCopies s
    .ok (.ofStatus status, s)
  | .unload device databaseId => do
    let (status, s) ← nlmDeviceUnloadDatabase hw device databaseId s
    .ok (.ofStatus status, s)
  | .setCopyCnt device databaseId numCopies =>
    setParamCopyCnt hw device databaseId numCopies s
  | .balance device => setParamBalance hw device s
  | .setLoadPolicy device policy => .ok (setParamLoadPolicy device policy s)
  | .getCopyCnt device databaseId =>
    match paramGuard device with
    | some status => .ok (.ofStatus status, s)
    | none => do
      let (status, value, s) ← nlmDeviceDatabaseGetNumCopies hw device databaseId s
      .ok (⟨.ok, some status, value⟩, s)
  | .loaderStatus device =>
    match paramGuard device with
    | some status => .ok (.ofStatus status, s)
    | none => do
      let (status, s) ← nlmDeviceLoaderCmdExecFms hw device s
      .ok (⟨.ok, some status, none⟩, s)

/-- A run of calls, whatever their results. -/
def runCalls (hw : Hw) (s : PhyDevice) (calls : List LoaderCall) : Except Halt PhyDevice :=
  calls.foldlM (fun s call ↦ (callStep hw s call).map Prod.snd) s

end PhyDevice

end NetL7.Loader
