import NetL7.Loader.Asynchronous
import Mathlib.Logic.Relation

/-!
# Interleaved calls

Runs in which calls follow each other under any load policy, whatever is still
queued. Along a run the databases are tracked whose unloading was accepted and
that have not been loaded again.
-/

namespace NetL7.Loader

open NetL7.Lib LoaderTables

namespace PhyDevice

variable {hw : Hw} {device : Option NlmDevice} {U : Set ℕ} {s s' : PhyDevice} {b d : ℕ}
  {E : Halt → Prop}

/-! ## Querying the number of copies -/

theorem numCopiesLoop_zero {t : LoaderTables} {is : List ℕ}
    (h : ∀ i ∈ is, (t.databaseShadowMap i).valid = true → (t.databaseShadowMap i).dbId = d →
      (t.databaseShadowMap i).noClonesCurrent = 0 ∧ (t.databaseShadowMap i).noClonesTarget = 0) :
    numCopiesLoop t d is 0 = some 0 := by
  induction is with
  | nil => rfl
  | cons i is ih =>
    have hrest := ih fun x hx ↦ h x (List.mem_cons_of_mem i hx)
    by_cases hi : (t.databaseShadowMap i).valid = true ∧ (t.databaseShadowMap i).dbId = d
    · obtain ⟨hcur, htarget⟩ := h i List.mem_cons_self hi.1 hi.2
      simpa [numCopiesLoop, hi.1, hi.2, hcur, htarget] using hrest
    · rcases hvalid : (t.databaseShadowMap i).valid with _ | _
      · simpa [numCopiesLoop, hvalid] using hrest
      · have hdb : (t.databaseShadowMap i).dbId ≠ d := fun hdb ↦ hi ⟨hvalid, hdb⟩
        simpa [numCopiesLoop, hvalid, hdb] using hrest

namespace Draining

/-- A query of a half unloaded database stops the device. -/
theorem getNumCopies_of_halfUnloaded (h : Draining hw U ∅ s) (hg : loaderGuard device s = none)
    (hd : d ≤ nlmMaxDatabaseId) (hhalf : HalfUnloaded s d) :
    nlmDeviceDatabaseGetNumCopies hw device d s = .error .blocksWithoutCopies := by
  have hzero : numCopiesLoop s.toLoaderTables d (List.range s.numFmsBlocks) 0 = some 0 := by
    refine numCopiesLoop_zero fun i hi hvalid hdb ↦ ?_
    obtain ⟨hcur, cmd, hcmd, hop, rfl⟩ :=
      hhalf.2 i (mem_blockList.mpr ⟨List.mem_range.mp hi, hvalid, hdb⟩)
    exact ⟨hcur, h.target_eq_zero (flushed_shadowDelete hcmd hop)⟩
  have hlist : (s.createShadowBlockListByDbId d == []) = false := by
    simpa using hhalf.1
  simp [nlmDeviceDatabaseGetNumCopies, hg, Nat.not_lt.mpr hd, hzero, hlist, prettyAssert, bind,
    Except.bind]

theorem getNumCopies (hE : ∀ e, ResourceHalt e → E e) (h : Draining hw U ∅ s)
    (hquery : loaderGuard device s = none → d ≤ nlmMaxDatabaseId → HalfUnloaded s d →
      E .blocksWithoutCopies) :
    Outcome (fun r ↦ Left hw ∅ s r.2.2) E (nlmDeviceDatabaseGetNumCopies hw device d s) := by
  unfold nlmDeviceDatabaseGetNumCopies
  cases hg : loaderGuard device s with
  | some status => exact .refl h _
  | none =>
    simp only
    split_ifs with hd
    · exact .refl h _
    split
    · exact .refl h _
    · rename_i hzero
      by_cases hlist : s.createShadowBlockListByDbId d = []
      · simp only [hlist, prettyAssert]
        exact .refl h _
      have herror : prettyAssert (s.createShadowBlockListByDbId d == []) .blocksWithoutCopies =
          .error .blocksWithoutCopies := by
        simp [prettyAssert, hlist]
      rw [herror]
      apply hquery hg (Nat.not_lt.mp hd)
      obtain ⟨hmet, hlast⟩ := numCopiesLoop_spec hzero
      obtain ⟨x, hx⟩ := List.exists_mem_of_ne_nil _ hlist
      obtain ⟨hxlt, hxvalid, hxdb⟩ := mem_blockList.mp hx
      obtain ⟨i, hi, hivalid, hidb, hicur⟩ := hlast.resolve_left fun hnone ↦
        hnone.2 x (List.mem_range.mpr hxlt) hxvalid hxdb
      have hitarget := (hmet i hi hivalid hidb).symm.trans hicur
      refine ⟨hlist, fun b hb ↦ ?_⟩
      obtain ⟨hlt, hvalid, hdb⟩ := mem_blockList.mp hb
      have htarget : (s.databaseShadowMap b).noClonesTarget = 0 :=
        (h.uniform b i hvalid hivalid (hdb.trans hidb.symm)).trans hitarget
      refine ⟨(hmet b (List.mem_range.mpr hlt) hvalid hdb).trans htarget, ?_⟩
      apply exists_shadowDelete hvalid
      by_contra hsettled
      have hpos := h.target_pos b (Bool.eq_true_of_not_eq_false hsettled) (Set.notMem_empty _)
      omega
    · refine Outcome.bind (h.exec hE hg) ?_
      rintro r ⟨hr, hlater, -, -⟩
      exact .of_later h _ hlater hr.inv

end Draining

/-! ## One call -/

/-- Balancing does not take back clones that are still to come, and does not
give copies to a database that is being unloaded; or it has nothing to do. -/
def BalanceOk (s : PhyDevice) : Prop :=
  Balanceable s (balancedCopies s.toLoaderTables) ∨
    ∀ d c, residentCopies s.toLoaderTables d = some c → c = balancedCopies s.toLoaderTables

/-- The databases whose unloading was accepted and that have not been loaded
since, after a call with result `r`. -/
def unloadedAfter (call : LoaderCall) (r : CallResult) (gone : Set ℕ) : Set ℕ :=
  match call with
  | .load _ _ _ databaseId _ => {d | d ∈ gone ∧ ¬(d = databaseId ∧ Accepted r.status)}
  | .unload _ databaseId => {d | d ∈ gone ∨ d = databaseId ∧ Accepted r.status}
  | _ => gone

/-- What every call leaves behind. -/
def CallPost (hw : Hw) (call : LoaderCall) (s : PhyDevice) (r : CallResult × PhyDevice) : Prop :=
  (∃ U, Draining hw U ∅ r.2) ∧
    ∀ gone : Set ℕ, (∀ d ∈ gone, Gone s d) → ∀ d ∈ unloadedAfter call r.1 gone, Gone r.2 d

theorem Left.callPost {call : LoaderCall} {r : CallResult × PhyDevice} (h : Left hw ∅ s r.2)
    (hsame : ∀ gone, unloadedAfter call r.1 gone = gone) : CallPost hw call s r := by
  refine ⟨h.1, fun gone hgone d hd ↦ ?_⟩
  rw [hsame] at hd
  exact h.2 d (Set.notMem_empty d) (hgone d hd)

namespace Draining

/-- Balancing has nothing to do when every database has the copies it decides on. -/
theorem balance_idle (h : Draining hw U ∅ s)
    (hidle : ∀ d c, residentCopies s.toLoaderTables d = some c →
      c = balancedCopies s.toLoaderTables) :
    Outcome (fun r : NlmStatus × PhyDevice ↦ r.2 = s) E
      (nlmDeviceDatabaseBalance hw device s) := by
  unfold nlmDeviceDatabaseBalance
  split
  · rfl
  split
  · rfl
  generalize balancedCopies s.toLoaderTables = numCopies at hidle ⊢
  have hloop : ∀ {wrongSide : ℕ → Bool}, wrongSide numCopies = false → ∀ r : NlmStatus × PhyDevice,
      r.2 = s → Outcome (fun r : NlmStatus × PhyDevice ↦ r.2 = s) E
        (balanceLoop hw device wrongSide numCopies r) := by
    intro wrongSide hside r hr
    refine Outcome.foldlM (fun _ (r : NlmStatus × PhyDevice) ↦ r.2 = s) ?_ hr
    rintro i is ⟨status, s₁⟩ rfl
    simp only
    split
    · rfl
    · rename_i c hc
      obtain rfl := hidle i c hc
      simp [hside]
  refine Outcome.bind (hloop (by simp) _ rfl) ?_
  intro r hr
  exact hloop (by simp) r hr

theorem setParamBalance (hE : ∀ e, ResourceHalt e → E e) (h : Draining hw U ∅ s)
    (hok : BalanceOk s) :
    Outcome (fun r ↦ Left hw ∅ s r.2) E (PhyDevice.setParamBalance hw device s) := by
  unfold PhyDevice.setParamBalance
  split
  · exact .refl h _
  rcases hok with hok | hidle
  · refine Outcome.bind (h.balance hE hok fun d hd ↦ absurd hd (Set.notMem_empty d)) ?_
    rintro r (⟨hsame, -⟩ | ⟨-, hr, hbalanced⟩)
    · change Left hw ∅ s r.2
      rw [hsame]
      exact .refl h _
    · exact ⟨⟨_, hr⟩, fun d _ ↦ hbalanced.gone⟩
  · refine Outcome.bind (h.balance_idle hidle) fun r hr ↦ ?_
    change Left hw ∅ s r.2
    rw [hr]
    exact .refl h _

/-- Every call keeps what is common to all states, if balancing is asked for
only where it may be. -/
theorem callStep (hE : ∀ e, ResourceHalt e → E e) (h : Draining hw U ∅ s) {call : LoaderCall}
    (hbalance : ∀ device, call = .balance device → BalanceOk s)
    (hquery : ∀ device d, call = .getCopyCnt device d → paramGuard device = none →
      loaderGuard device s = none → d ≤ nlmMaxDatabaseId → HalfUnloaded s d →
      E .blocksWithoutCopies) :
    Outcome (CallPost hw call s) E (PhyDevice.callStep hw s call) := by
  cases call with
  | load device database dbSize databaseId numCopies =>
    refine Outcome.bind (h.load hE database dbSize numCopies) ?_
    rintro ⟨status, s'⟩ ⟨hr, hleft⟩
    exact ⟨hr, fun gone hgone d hd ↦ hleft d hd.2 (hgone d hd.1)⟩
  | unload device databaseId =>
    refine Outcome.bind (h.unload hE) ?_
    rintro ⟨status, s'⟩ ⟨⟨hr, hleft⟩, hunloaded⟩
    refine ⟨hr, fun gone hgone d hd ↦ ?_⟩
    rcases hd with hd | ⟨rfl, haccepted⟩
    · exact hleft d (Set.notMem_empty d) (hgone d hd)
    · exact hunloaded haccepted
  | setCopyCnt device databaseId numCopies =>
    exact (h.setParamCopyCnt hE numCopies).imp fun r hr ↦ hr.callPost fun _ ↦ rfl
  | balance device =>
    exact (h.setParamBalance hE (hbalance device rfl)).imp fun r hr ↦ hr.callPost fun _ ↦ rfl
  | setLoadPolicy device policy =>
    refine Left.callPost ?_ fun _ ↦ rfl
    rcases hp : paramGuard device with _ | status
    · simp only [setParamLoadPolicy, hp]
      exact ⟨⟨U, { h.inv with }, h.target_le, h.target_pos, h.uniform, h.unloading⟩,
        fun _ _ hgone ↦ hgone⟩
    · simp only [setParamLoadPolicy, hp]
      exact .refl h _
  | getCopyCnt device databaseId =>
    rcases hp : paramGuard device with _ | status
    · simp only [PhyDevice.callStep, hp]
      refine Outcome.bind (h.getNumCopies hE (hquery device databaseId rfl hp)) fun r hr ↦ ?_
      exact Left.callPost hr fun _ ↦ rfl
    · simp only [PhyDevice.callStep, hp]
      exact Left.callPost (.refl h _) fun _ ↦ rfl
  | loaderStatus device =>
    rcases hp : paramGuard device with _ | status
    · simp only [PhyDevice.callStep, hp]
      rcases hg : loaderGuard device s with _ | status
      · refine Outcome.bind (h.exec hE hg) ?_
        rintro r ⟨hr, hlater, -, -⟩
        exact Left.callPost (.of_later h _ hlater hr.inv) fun _ ↦ rfl
      · rw [exec_of_guard hg]
        exact Left.callPost (.refl h _) fun _ ↦ rfl
    · simp only [PhyDevice.callStep, hp]
      exact Left.callPost (.refl h _) fun _ ↦ rfl

end Draining

/-! ## Runs -/

/-- A call that returns, made where `P` allows it. -/
def Step (hw : Hw) (P : PhyDevice → LoaderCall → Prop) (x y : PhyDevice × Set ℕ) : Prop :=
  ∃ call r, P x.1 call ∧ callStep hw x.1 call = .ok (r, y.1) ∧ y.2 = unloadedAfter call r x.2

/-- The state `s` is reached from initialisation, and the databases in `gone`
have been unloaded and not loaded again. -/
def Reached (hw : Hw) (c : LoaderConfig) (P : PhyDevice → LoaderCall → Prop) (s : PhyDevice)
    (gone : Set ℕ) : Prop :=
  Relation.ReflTransGen (Step hw P) (c.initDevice, ∅) (s, gone)

/-- Balancing is asked for only where it may be. -/
def BalanceAllowed (s : PhyDevice) (call : LoaderCall) : Prop :=
  ∀ device, call = .balance device → BalanceOk s

/-- Balancing is not asked for. -/
def NotBalance (_ : PhyDevice) (call : LoaderCall) : Prop := ∀ device, call ≠ .balance device

theorem AtRest.draining (h : AtRest hw ∅ s) : Draining hw ∅ ∅ s where
  inv := h.inv
  target_le := fun b ↦ (h.noClonesTarget_eq b).trans_le (h.copies_le b)
  target_pos := fun b hvalid hb ↦ by
    rw [h.settled_eq] at hvalid
    rw [h.noClonesTarget_eq]
    exact h.copies_pos b hvalid hb
  uniform := fun b b' hb hb' hdb ↦ by
    rw [h.noClonesTarget_eq, h.noClonesTarget_eq]
    exact h.uniform b b' hb hb' hdb
  unloading := fun b hb ↦ absurd hb (Set.notMem_empty b)

theorem Reached.draining {c : LoaderConfig} {P : PhyDevice → LoaderCall → Prop} {gone : Set ℕ}
    (hP : ∀ s call, P s call → BalanceAllowed s call) (h : Reached hw c P s gone) :
    (∃ U, Draining hw U ∅ s) ∧ ∀ d ∈ gone, Gone s d := by
  let I : PhyDevice × Set ℕ → Prop := fun x ↦
    (∃ U, Draining hw U ∅ x.1) ∧ ∀ d ∈ x.2, Gone x.1 d
  have hstep : ∀ x y, Step hw P x y → I x → I y := by
    rintro x y ⟨call, r, hcall, hresult, hgone⟩ ⟨⟨U, hx⟩, hxgone⟩
    have hpost := (hx.callStep (E := fun _ ↦ True) (fun _ _ ↦ trivial) (hP _ _ hcall)
      fun _ _ _ _ _ _ _ ↦ trivial).of_eq_ok hresult
    refine ⟨hpost.1, fun d hd ↦ ?_⟩
    rw [hgone] at hd
    exact hpost.2 x.2 hxgone d hd
  have hrun : ∀ x, Relation.ReflTransGen (Step hw P) (c.initDevice, ∅) x → I x := by
    intro x hx
    induction hx with
    | refl =>
      exact ⟨⟨∅, (atRest_initDevice hw c).draining⟩, fun d hd ↦ absurd hd (Set.notMem_empty d)⟩
    | tail _ hlast ih => exact hstep _ _ hlast ih
  exact hrun _ h

/-! ## A blank image -/

theorem groupListOfRows_blank (n : ℕ) : groupListOfRows (blankImage.block n).row = [] := by
  have hzero : ∀ i, ((blankImage.block n).row i).gid.toNat % 1024 = 0 := by
    intro i
    simp [blankImage, FmsRowHw.gid]
  unfold groupListOfRows
  generalize List.range famosBlockSize = is
  induction is with
  | nil => rfl
  | cons i is ih => simpa only [List.foldl_cons, hzero, true_or, if_true] using ih

/-- The tables after an image without rules has been written into shadow block `i`. -/
def blankWritten (t : LoaderTables) (databaseId i : ℕ) : LoaderTables :=
  { t with
    databaseExtensionArea := Function.update t.databaseExtensionArea i
      (nlmExtractGroupsFromBlock (blankImage.block 0) databaseId).1
    blockGroupList := Function.update t.blockGroupList i [] }.setShadow i fun e ↦
      { e with valid := true, dbId := databaseId, virtBlkNo := i }

theorem writeShadowBlock_blank (t : LoaderTables) (databaseId i : ℕ) :
    writeShadowBlock t databaseId i (blankImage.block 0) =
      (.ok, blankWritten t databaseId i) := by
  have hstatus := nlmExtractGroupsFromBlock_status (blankImage.block 0) databaseId
  have hgroups := nlmExtractGroupsFromBlock_groups (blankImage.block 0) databaseId
  rw [groupListOfRows_blank] at hgroups
  unfold writeShadowBlock
  unfold blankWritten
  generalize nlmExtractGroupsFromBlock (blankImage.block 0) databaseId = x at hstatus hgroups ⊢
  obtain ⟨block, groups, status⟩ := x
  obtain rfl : status = .ok := hstatus
  obtain rfl : groups = [] := hgroups
  rfl

/-- `sizeof` an image of one block. -/
abbrev oneBlockSize : ℕ := sizeofFmsFileSig + sizeofFmsBlockHw

/-- Thread 0. -/
abbrev masterThread : Option NlmDevice := some ⟨0⟩

theorem write_blank {t : LoaderTables} (databaseId : ℕ) {i : ℕ}
    (hfree : 1 ≤ t.getNumShadowBlocksFree)
    (hi : (List.range t.numFmsBlocks).find? (fun i ↦ !(t.databaseShadowMap i).valid) = some i) :
    nlmDeviceWriteDatabaseToShadow t databaseId blankImage 1 =
      (.ok, blankWritten t databaseId i) := by
  unfold nlmDeviceWriteDatabaseToShadow
  rw [if_neg (Nat.not_lt.mpr hfree)]
  generalize List.range t.numFmsBlocks = is at hi
  induction is with
  | nil => cases hi
  | cons x is ih =>
    cases hx : (t.databaseShadowMap x).valid with
    | true =>
      simp only [List.find?_cons, hx, Bool.not_true] at hi
      simpa [writeLoop, hx] using ih hi
    | false =>
      obtain rfl : x = i := by simpa [List.find?_cons, hx] using hi
      cases is with
      | nil => simp [writeLoop, hx, writeShadowBlock_blank]
      | cons y is => simp [writeLoop, hx, writeShadowBlock_blank]

/-- What loading an image without rules into shadow block `i` comes to on an
idle device with room for it. -/
def loadBlank (hw : Hw) (s : PhyDevice) (databaseId numCopies i : ℕ) :
    Except Halt (NlmStatus × PhyDevice) := do
  let (status, s) ← nlmDeviceDatabaseSetNumCopies hw masterThread databaseId numCopies
    (s.mapTables fun _ ↦ blankWritten s.toLoaderTables databaseId i)
  if status ≠ .ok then .ok (status, s) else finishByPolicy hw masterThread s

/-- The device is idle, database `databaseId` is not loaded, and there is room
for `numCopies` copies of it; its block goes to shadow block `i`. -/
def ReadyFor (s : PhyDevice) (databaseId numCopies i : ℕ) : Prop :=
  s.loaderCmdMem = [] ∧ s.fmsRingId = 0 ∧ s.numRowsPerFmsBlock = famosBlockSize ∧
    databaseId ≤ nlmMaxDatabaseId ∧ (1 ≤ numCopies ∧ numCopies ≤ 4) ∧
    numCopies ≤ s.arrayBlocksFree ∧ 1 ≤ s.numFmsBlocks ∧
    s.createShadowBlockListByDbId databaseId = [] ∧ 1 ≤ s.getNumShadowBlocksFree ∧
    (List.range s.numFmsBlocks).find? (fun i ↦ !(s.databaseShadowMap i).valid) = some i

instance (s : PhyDevice) (databaseId numCopies i : ℕ) :
    Decidable (ReadyFor s databaseId numCopies i) := inferInstanceAs (Decidable (_ ∧ _))

theorem load_blank {databaseId numCopies i : ℕ} (h : ReadyFor s databaseId numCopies i) :
    nlmDeviceLoadDatabase hw masterThread (some blankImage) oneBlockSize databaseId numCopies s =
      loadBlank hw s databaseId numCopies i := by
  obtain ⟨hidle, hring, hrows, hid, hcopies, hroom, hblocks, hnew, hfree, hi⟩ := h
  have hguard : loaderGuard masterThread s = none := by simp [loaderGuard, hring]
  have hone : numBlocksOfSize oneBlockSize = 1 := by decide
  have hhead : nlmLoaderFmsCheckParamsAndHead s (some blankImage) oneBlockSize = .ok := by
    simp [nlmLoaderFmsCheckParamsAndHead, hone, hrows, blankImage]
    omega
  have hwrite := write_blank databaseId hfree hi
  have hchecked : loadChecked hw masterThread (some blankImage) .ok 1 databaseId numCopies s =
      loadBlank hw s databaseId numCopies i := by
    have hzero : numCopies ≠ 0 := by omega
    simp [loadChecked, hnew, Nat.not_lt.mpr hcopies.2, Nat.not_lt.mpr hroom, hwrite, loadBlank,
      hzero, bind, Except.bind]
  unfold nlmDeviceLoadDatabase
  simp only [hguard, if_neg (Nat.not_lt.mpr hid), exec_nil hguard hidle, hone, bind, Except.bind,
    reduceCtorEq, if_false]
  rw [hhead]
  exact hchecked

/-- Loads a database of one block without rules. -/
def loadBlankCall (databaseId numCopies : ℕ) : LoaderCall :=
  .load masterThread (some blankImage) oneBlockSize databaseId numCopies

def statusPolls (n : ℕ) : List LoaderCall := List.replicate n (.loaderStatus masterThread)

theorem runCalls_append (calls rest : List LoaderCall) :
    runCalls hw s (calls ++ rest) = runCalls hw s calls >>= fun s ↦ runCalls hw s rest :=
  List.foldlM_append

theorem runCalls_async (rest : List LoaderCall) :
    runCalls hw s (.setLoadPolicy masterThread databaseLoadPolicyAsync :: rest) =
      runCalls hw { s with databaseLoadPolicy := databaseLoadPolicyAsync } rest := rfl

theorem runCalls_load {databaseId numCopies i : ℕ} (h : ReadyFor s databaseId numCopies i)
    (rest : List LoaderCall) :
    runCalls hw s (loadBlankCall databaseId numCopies :: rest) =
      loadBlank hw s databaseId numCopies i >>= fun r ↦ runCalls hw r.2 rest := by
  have hcall : (callStep hw s (loadBlankCall databaseId numCopies)).map Prod.snd =
      (loadBlank hw s databaseId numCopies i).map Prod.snd := by
    simp only [callStep, loadBlankCall, load_blank h]
    cases loadBlank hw s databaseId numCopies i <;> rfl
  rw [runCalls, List.foldlM_cons, hcall]
  cases loadBlank hw s databaseId numCopies i <;> rfl

/-- The master ring of a device with `n` array blocks. -/
def masterRing (n : ℕ) (hpos : 0 < n) (hle : n ≤ totalFamosBlocks) : LoaderConfig :=
  ⟨n, famosBlockSize, 0, hpos, hle⟩

/-- A call of thread 0 whose outcome can be computed; a load says where its block goes. -/
inductive BlankCall
  | load (databaseId numCopies i : ℕ)
  | unload (databaseId : ℕ)
  | balance
  | setLoadPolicy (policy : ℕ)
  | loaderStatus

namespace BlankCall

def call : BlankCall → LoaderCall
  | .load databaseId numCopies _ => loadBlankCall databaseId numCopies
  | .unload databaseId => .unload masterThread databaseId
  | .balance => .balance masterThread
  | .setLoadPolicy policy => .setLoadPolicy masterThread policy
  | .loaderStatus => .loaderStatus masterThread

/-- Loading finds an idle device with room, balancing a drained one. -/
def Ready (s : PhyDevice) : BlankCall → Prop
  | .load databaseId numCopies i => ReadyFor s databaseId numCopies i
  | .balance => s.loaderCmdMem = []
  | _ => True

instance (s : PhyDevice) : (call : BlankCall) → Decidable (call.Ready s)
  | .load databaseId numCopies i => inferInstanceAs (Decidable (ReadyFor s databaseId numCopies i))
  | .balance => inferInstanceAs (Decidable (s.loaderCmdMem = []))
  | .unload _ => inferInstanceAs (Decidable True)
  | .setLoadPolicy _ => inferInstanceAs (Decidable True)
  | .loaderStatus => inferInstanceAs (Decidable True)

/-- What the call comes to where it is ready. -/
def outcome (hw : Hw) (s : PhyDevice) : BlankCall → Except Halt (CallResult × PhyDevice)
  | .load databaseId numCopies i => do
    let (status, s) ← loadBlank hw s databaseId numCopies i
    .ok (.ofStatus status, s)
  | .unload databaseId => callStep hw s (.unload masterThread databaseId)
  | .balance => callStep hw s (.balance masterThread)
  | .setLoadPolicy policy => callStep hw s (.setLoadPolicy masterThread policy)
  | .loaderStatus => callStep hw s (.loaderStatus masterThread)

theorem outcome_eq {call : BlankCall} (h : call.Ready s) :
    call.outcome hw s = callStep hw s call.call := by
  cases call with
  | load databaseId numCopies i =>
    have hload : ReadyFor s databaseId numCopies i := h
    simp only [outcome, BlankCall.call, callStep, loadBlankCall, load_blank hload]
  | _ => rfl

/-- The databases unloaded and not loaded again, as a list. -/
def unloaded (status : NlmStatus) (gone : List ℕ) : BlankCall → List ℕ
  | .load databaseId _ _ =>
    if status = .ok ∨ status = .loaderInProgress then gone.filter (· ≠ databaseId) else gone
  | .unload databaseId =>
    if status = .ok ∨ status = .loaderInProgress then databaseId :: gone else gone
  | _ => gone

theorem mem_unloaded (r : CallResult) (gone : List ℕ) (call : BlankCall) :
    {d | d ∈ call.unloaded r.status gone} = unloadedAfter call.call r {d | d ∈ gone} := by
  ext d
  cases call with
  | load databaseId numCopies i =>
    change d ∈ unloaded r.status gone (.load databaseId numCopies i) ↔
      d ∈ gone ∧ ¬(d = databaseId ∧ (r.status = .ok ∨ r.status = .loaderInProgress))
    unfold unloaded
    split_ifs with haccepted
    · simp [haccepted]
    · simp [haccepted]
  | unload databaseId =>
    change d ∈ unloaded r.status gone (.unload databaseId) ↔
      d ∈ gone ∨ d = databaseId ∧ (r.status = .ok ∨ r.status = .loaderInProgress)
    unfold unloaded
    split_ifs with haccepted
    · simp [haccepted, or_comm]
    · simp [haccepted]
  | _ => rfl

/-- One call of a computed run. -/
def step (hw : Hw) (x : PhyDevice × List ℕ) (call : BlankCall) :
    Except Halt (PhyDevice × List ℕ) :=
  if call.Ready x.1 then do
    let (r, s) ← call.outcome hw x.1
    .ok (s, call.unloaded r.status x.2)
  else .error .balanceFailed

/-- The states of a computed run are reached. -/
theorem reached_foldlM {c : LoaderConfig} {P : PhyDevice → LoaderCall → Prop}
    {calls : List BlankCall} (hP : ∀ call ∈ calls, ∀ s, call.Ready s → P s call.call) :
    Outcome (fun x ↦ Reached hw c P x.1 {d | d ∈ x.2}) (fun _ ↦ True)
      (calls.foldlM (step hw) (c.initDevice, [])) := by
  refine Outcome.foldlM (fun rest x ↦ (∀ call ∈ rest, call ∈ calls) ∧
    Reached hw c P x.1 {d | d ∈ x.2}) ?_ ⟨fun _ ↦ id, ?_⟩ |>.imp fun x hx ↦ hx.2
  · rintro call rest ⟨s, gone⟩ ⟨hmem, hreached⟩
    unfold step
    split_ifs with hready
    · rw [outcome_eq hready]
      cases hresult : callStep hw s call.call with
      | error e => trivial
      | ok r =>
        refine ⟨fun call' hcall ↦ hmem call' (List.mem_cons_of_mem _ hcall), ?_⟩
        exact hreached.tail ⟨call.call, r.1, hP call (hmem call List.mem_cons_self) s hready,
          hresult, mem_unloaded r.1 gone call⟩
    · trivial
  · have hnone : {d | d ∈ ([] : List ℕ)} = (∅ : Set ℕ) := by simp
    change Relation.ReflTransGen _ _ (c.initDevice, {d | d ∈ ([] : List ℕ)})
    rw [hnone]

/-- A property of the last state of a computed run is one of a state that is reached. -/
theorem exists_reached (hw : Hw) (c : LoaderConfig) (P : PhyDevice → LoaderCall → Prop)
    (calls : List BlankCall) (Q : PhyDevice × List ℕ → Prop)
    (hP : ∀ call ∈ calls, ∀ s, call.Ready s → P s call.call)
    (hrun : Outcome Q (fun _ ↦ False) (calls.foldlM (step hw) (c.initDevice, []))) :
    ∃ s gone, Reached hw c P s {d | d ∈ gone} ∧ Q (s, gone) := by
  have hboth := hrun.and (reached_foldlM hP)
  cases hlast : calls.foldlM (step hw) (c.initDevice, []) with
  | error e => exact (hboth.of_eq_error hlast).elim
  | ok x => exact ⟨x.1, x.2, (hboth.of_eq_ok hlast).2, (hboth.of_eq_ok hlast).1⟩

theorem balanceAllowed {call : BlankCall} (h : call.Ready s) : BalanceAllowed s call.call := by
  intro device heq
  cases call with
  | balance =>
    refine .inl fun b cmd hcmd ↦ ?_
    rw [show s.loaderCmdMem = [] from h] at hcmd
    exact absurd hcmd List.not_mem_nil
  | _ => cases heq

end BlankCall

/-- A master ring with three array blocks. -/
def threeBlocks : LoaderConfig := masterRing 3 (by decide) (by decide)

/-- Database 1 is loaded asynchronously with one copy and database 0 with two. -/
def twoDatabases : List BlankCall :=
  .setLoadPolicy databaseLoadPolicyAsync :: .load 1 1 0 :: (List.replicate 6 .loaderStatus ++
    .load 0 2 1 :: List.replicate 13 .loaderStatus)

/-! ## The assertions -/

/-- The assertions of the loader about copies and blocks. -/
def CopyAssertion (e : Halt) : Prop :=
  e = .blocksWithoutCopies ∨ e = .shadowStillCloned ∨ e = .unequalDelta ∨ e = .noFreeArrayBlock

/-- Without balancing these assertions fail in one situation only: the copies of
a half unloaded database are queried. -/
theorem copyAssertion_iff (hw : Hw) (c : LoaderConfig) {s : PhyDevice} {gone : Set ℕ}
    (h : Reached hw c NotBalance s gone) {call : LoaderCall} (hcall : NotBalance s call) :
    (∃ e, CopyAssertion e ∧ callStep hw s call = .error e) ↔
      ∃ device d, call = .getCopyCnt device d ∧ paramGuard device = none ∧
        loaderGuard device s = none ∧ d ≤ nlmMaxDatabaseId ∧ HalfUnloaded s d := by
  have hallowed : ∀ s call, NotBalance s call → BalanceAllowed s call :=
    fun _ _ hnot device heq ↦ absurd heq (hnot device)
  obtain ⟨⟨U, hs⟩, -⟩ := h.draining hallowed
  constructor
  · rintro ⟨e, hassertion, hresult⟩
    have hpost := (hs.callStep
      (E := fun e ↦ ResourceHalt e ∨ ∃ device d, call = .getCopyCnt device d ∧
        paramGuard device = none ∧ loaderGuard device s = none ∧ d ≤ nlmMaxDatabaseId ∧
        HalfUnloaded s d)
      (fun _ ↦ .inl) (hallowed s call hcall)
      fun device d heq hp hg hd hhalf ↦ .inr ⟨device, d, heq, hp, hg, hd, hhalf⟩).of_eq_error
      hresult
    refine hpost.resolve_left ?_
    rcases hassertion with rfl | rfl | rfl | rfl <;> simp [ResourceHalt]
  · rintro ⟨device, d, rfl, hp, hg, hd, hhalf⟩
    refine ⟨.blocksWithoutCopies, .inl rfl, ?_⟩
    simp only [callStep, hp, hs.getNumCopies_of_halfUnloaded hg hd hhalf, bind, Except.bind]

/-- The copies of database 0 are queried when one of its two clones is gone. -/
theorem copyAssertion_iff_unloading :
    ∃ s gone, Reached idleHw threeBlocks NotBalance s gone ∧ s.loaderCmdMem ≠ [] ∧
      (s.databaseShadowMap 1).noClonesCurrent = 1 ∧ (s.databaseShadowMap 1).noClonesTarget = 0 ∧
      ¬ ∃ e, CopyAssertion e ∧ callStep idleHw s (.getCopyCnt masterThread 0) = .error e := by
  obtain ⟨s, gone, hreached, hbusy, hmem, hcurrent, htarget⟩ :=
    BlankCall.exists_reached idleHw threeBlocks NotBalance
      (twoDatabases ++ .unload 0 :: List.replicate 4 .loaderStatus)
      (fun x ↦ x.1.loaderCmdMem ≠ [] ∧ 1 ∈ x.1.createShadowBlockListByDbId 0 ∧
        (x.1.databaseShadowMap 1).noClonesCurrent = 1 ∧
        (x.1.databaseShadowMap 1).noClonesTarget = 0)
      (by simp [twoDatabases, BlankCall.call, NotBalance, loadBlankCall]) (by decide +kernel)
  refine ⟨s, _, hreached, hbusy, hcurrent, htarget, ?_⟩
  rw [copyAssertion_iff idleHw threeBlocks hreached (by simp [NotBalance])]
  rintro ⟨device, d, heq, -, -, -, hhalf⟩
  cases heq
  rw [(hhalf.2 1 hmem).1] at hcurrent
  exact absurd hcurrent (by decide)

/-- A database is loaded and unloaded asynchronously, and its copies are queried
when its clone is gone. -/
def queryCalls : List LoaderCall :=
  .setLoadPolicy masterThread databaseLoadPolicyAsync :: loadBlankCall 0 1 ::
    (statusPolls 6 ++ [.unload masterThread 0] ++ statusPolls 2 ++ [.getCopyCnt masterThread 0])

theorem queryCalls_abort : Outcome (fun _ ↦ False) (fun e ↦ e = .blocksWithoutCopies)
    (runCalls idleHw (masterRing 1 (by decide) (by decide)).initDevice queryCalls) := by
  rw [queryCalls, runCalls_async, runCalls_load (i := 0) (by decide +kernel)]
  decide +kernel

/-! ## The victim search -/

/-- If balancing is asked for only where it may be, every victim search ends. -/
theorem victimSearch_ends (hw : Hw) (c : LoaderConfig) {s : PhyDevice} {gone : Set ℕ}
    (h : Reached hw c BalanceAllowed s gone) {call : LoaderCall} (hcall : BalanceAllowed s call) :
    callStep hw s call ≠ .error .victimSearch := by
  obtain ⟨⟨U, hs⟩, -⟩ := h.draining fun _ _ ↦ id
  intro hresult
  have hpost := (hs.callStep (E := fun e ↦ ResourceHalt e ∨ e = .blocksWithoutCopies)
    (fun _ ↦ .inl) hcall fun _ _ _ _ _ _ _ ↦ .inr rfl).of_eq_error hresult
  simp [ResourceHalt] at hpost

/-- Balancing takes one of the two copies of database 0. -/
theorem victimSearch_ends_shrinking :
    ∃ s gone, Reached idleHw threeBlocks BalanceAllowed s gone ∧
      residentCopies s.toLoaderTables 0 = some 2 ∧
      Outcome (fun r ↦ (r.2.databaseShadowMap 1).noClonesTarget = 1) (fun _ ↦ True)
        (callStep idleHw s (.balance masterThread)) ∧
      callStep idleHw s (.balance masterThread) ≠ .error .victimSearch := by
  obtain ⟨s, gone, hreached, hready, hcopies, hshrunk⟩ :=
    BlankCall.exists_reached idleHw threeBlocks BalanceAllowed twoDatabases
      (fun x ↦ BlankCall.Ready x.1 .balance ∧ residentCopies x.1.toLoaderTables 0 = some 2 ∧
        Outcome (fun r ↦ (r.2.databaseShadowMap 1).noClonesTarget = 1) (fun _ ↦ True)
          (callStep idleHw x.1 (.balance masterThread)))
      (fun _ _ _ ↦ BlankCall.balanceAllowed) (by decide +kernel)
  exact ⟨s, _, hreached, hcopies, hshrunk,
    victimSearch_ends idleHw threeBlocks hreached (BlankCall.balanceAllowed hready)⟩

/-- Two databases share three array blocks; the second is to have two copies,
but none has been made when balancing settles for one. -/
def balanceCalls : List LoaderCall :=
  .setLoadPolicy masterThread databaseLoadPolicyAsync :: loadBlankCall 1 1 ::
    (statusPolls 6 ++ [loadBlankCall 0 2, .balance masterThread])

theorem balanceCalls_search : Outcome (fun _ ↦ False) (fun e ↦ e = .victimSearch)
    (runCalls idleHw (masterRing 3 (by decide) (by decide)).initDevice balanceCalls) := by
  rw [balanceCalls, runCalls_async, runCalls_load (i := 0) (by decide +kernel)]
  have hsplit : ∀ s : PhyDevice, runCalls idleHw s
      (statusPolls 6 ++ [loadBlankCall 0 2, .balance masterThread]) =
        runCalls idleHw s (statusPolls 6) >>= fun s ↦
          runCalls idleHw s [loadBlankCall 0 2, .balance masterThread] :=
    fun s ↦ runCalls_append _ _
  simp only [hsplit]
  rw [← bind_assoc]
  refine Outcome.bind (P := fun s ↦ ReadyFor s 0 2 1 ∧ Outcome (fun _ ↦ False)
    (fun e ↦ e = .victimSearch)
    (loadBlank idleHw s 0 2 1 >>= fun r ↦ runCalls idleHw r.2 [.balance masterThread])) ?_ ?_
  · decide +kernel
  · rintro s ⟨hready, hresult⟩
    rw [runCalls_load hready]
    exact hresult

/-! ## The tables of a drained device -/

/-- If balancing is asked for only where it may be, a drained device runs
valid blocks, as many as intended, and none of a database that was unloaded. -/
theorem drained_tables (hw : Hw) (c : LoaderConfig) {s : PhyDevice} {gone : Set ℕ}
    (h : Reached hw c BalanceAllowed s gone) (hnil : s.loaderCmdMem = []) :
    (∀ j, s.arrayBlockMapCurrent j = true →
      (s.databaseShadowMap (s.arrayVirtIds j)).valid = true) ∧
    (∀ j, s.arrayBlockMapTarget j = true → s.arrayBlockMapCurrent j = true) ∧
    ∀ d ∈ gone, ∀ j, s.arrayBlockMapCurrent j = true →
      (s.databaseShadowMap (s.arrayVirtIds j)).dbId ≠ d := by
  obtain ⟨⟨U, hs⟩, hgone⟩ := h.draining fun _ _ ↦ id
  have hsettled : s.settled = s.toLoaderTables := settled_of_nil hnil
  have howner := hs.inv.placed.owner_valid
  refine ⟨fun j hj ↦ (howner j hj).2, fun j hj ↦ ?_, fun d hd j hj ↦ ?_⟩
  · rw [hs.inv.target_eq, hsettled] at hj
    exact hj
  · apply hgone d hd
    rw [hsettled]
    exact (howner j hj).2

/-- Database 0 is balanced to one copy and unloaded, database 1 keeps running. -/
theorem drained_tables_unloaded :
    ∃ s gone, Reached idleHw threeBlocks BalanceAllowed s gone ∧ 0 ∈ gone ∧
      s.loaderCmdMem = [] ∧ s.arrayBlockMapCurrent 0 = true ∧
      (s.databaseShadowMap (s.arrayVirtIds 0)).valid = true ∧
      ∀ j, s.arrayBlockMapCurrent j = true → (s.databaseShadowMap (s.arrayVirtIds j)).dbId ≠ 0 := by
  obtain ⟨s, gone, hreached, hgone, hnil, hcurrent⟩ :=
    BlankCall.exists_reached idleHw threeBlocks BalanceAllowed
      (twoDatabases ++ .balance :: List.replicate 3 .loaderStatus ++
        .unload 0 :: List.replicate 5 .loaderStatus)
      (fun x ↦ 0 ∈ x.2 ∧ x.1.loaderCmdMem = [] ∧ x.1.arrayBlockMapCurrent 0 = true)
      (fun _ _ _ ↦ BlankCall.balanceAllowed) (by decide +kernel)
  obtain ⟨hvalid, -, hother⟩ := drained_tables idleHw threeBlocks hreached hnil
  exact ⟨s, _, hreached, hgone, hnil, hcurrent, hvalid 0 hcurrent, hother 0 hgone⟩

/-- A database is loaded and unloaded asynchronously; balancing gives it a new
clone before the deletion of its shadow block. -/
def regrowCalls : List LoaderCall :=
  .setLoadPolicy masterThread databaseLoadPolicyAsync :: loadBlankCall 0 1 ::
    (statusPolls 6 ++ [.unload masterThread 0] ++ statusPolls 2 ++ [.balance masterThread] ++
      statusPolls 9)

theorem regrowCalls_tables :
    Outcome (fun s ↦ s.loaderCmdMem = [] ∧ s.arrayBlockMapCurrent 0 = true ∧
        (s.databaseShadowMap (s.arrayVirtIds 0)).valid = false) (fun _ ↦ False)
      (runCalls idleHw (masterRing 1 (by decide) (by decide)).initDevice regrowCalls) := by
  rw [regrowCalls, runCalls_async, runCalls_load (i := 0) (by decide +kernel)]
  decide +kernel

end PhyDevice

end NetL7.Loader
