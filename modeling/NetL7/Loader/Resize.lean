import NetL7.Loader.Grow
import Mathlib.Algebra.Order.Ring.Int
import Mathlib.Data.Nat.Cast.Order.Ring

/-!
# Setting the number of copies

The specification of `nlm_device_database_set_num_copies`. The blocks of a
database have one target count, so the deltas agree and the database either
grows in rounds or shrinks block by block.
-/

namespace NetL7.Loader

open NetL7.Lib LoaderTables

namespace LoaderTables

theorem mem_blockList {t : LoaderTables} {databaseId b : ℕ} :
    b ∈ t.createShadowBlockListByDbId databaseId ↔
      b < t.numFmsBlocks ∧ (t.databaseShadowMap b).valid = true ∧
        (t.databaseShadowMap b).dbId = databaseId := by
  simp [createShadowBlockListByDbId]

/-- The list of a database has all blocks of the databases it has blocks of. -/
theorem mem_blockList_congr {t : LoaderTables} {databaseId b b' : ℕ} (hb : b < t.numFmsBlocks)
    (hb' : b' < t.numFmsBlocks) (hvalid : (t.databaseShadowMap b).valid = true)
    (hvalid' : (t.databaseShadowMap b').valid = true)
    (hdb : (t.databaseShadowMap b).dbId = (t.databaseShadowMap b').dbId) :
    b ∈ t.createShadowBlockListByDbId databaseId ↔
      b' ∈ t.createShadowBlockListByDbId databaseId := by
  rw [mem_blockList, mem_blockList, hdb]
  simp only [hb, hb', hvalid, hvalid', true_and]

theorem blockList_nodup (t : LoaderTables) (databaseId : ℕ) :
    (t.createShadowBlockListByDbId databaseId).Nodup :=
  List.nodup_range.filter _

end LoaderTables

namespace PhyDevice

variable {U : Set ℕ} {s s' : PhyDevice} {bs : List ℕ} {c numCopies databaseId : ℕ}
  {E : Halt → Prop} {hw : Hw} {device : Option NlmDevice}

/-! ## The deltas -/

theorem deltaLoop_const {t : LoaderTables} {δ : ℤ}
    (h : ∀ b ∈ bs, missingCopies t numCopies b = δ) :
    deltaLoop t numCopies bs false δ δ = .ok δ := by
  induction bs with
  | nil => rfl
  | cons b bs ih =>
    have hb : missingCopies t numCopies b = δ := h b (by simp)
    have hrest := ih fun x hx ↦ h x (by simp [hx])
    simpa [deltaLoop, prettyAssert, bind, Except.bind, hb] using hrest

theorem deltaLoop_uniform {t : LoaderTables} {δ : ℤ} (hne : bs ≠ [])
    (h : ∀ b ∈ bs, missingCopies t numCopies b = δ) :
    deltaLoop t numCopies bs true 0 0 = .ok δ := by
  rcases bs with _ | ⟨b, bs⟩
  · exact absurd rfl hne
  · have hb : missingCopies t numCopies b = δ := h b (by simp)
    have hrest := deltaLoop_const fun x hx ↦ h x (List.mem_cons_of_mem b hx)
    simpa [deltaLoop, prettyAssert, bind, Except.bind, hb] using hrest

theorem sum_missing {t : LoaderTables} {δ : ℤ}
    (h : ∀ b ∈ bs, missingCopies t numCopies b = δ) :
    (bs.map (missingCopies t numCopies)).sum = bs.length * δ := by
  have hmap : bs.map (missingCopies t numCopies) = List.replicate bs.length δ :=
    List.eq_replicate_iff.mpr ⟨by simp, by simpa using h⟩
  rw [hmap, List.sum_replicate, nsmul_eq_mul]

/-! ## Growing or shrinking -/

/-- The blocks of the list, which have `c` copies, get `numCopies`. -/
def Resized (bs : List ℕ) (c numCopies : ℕ) (s s' : PhyDevice) : Prop :=
  if c < numCopies then Rounds bs (numCopies - c) s s'
  else ShrinkAll (c - numCopies) bs s s'

/-- What a resize keeps and changes. -/
structure ResizedPost (hw : Hw) (U : Set ℕ) (bs : List ℕ) (numCopies : ℕ) (s s' : PhyDevice) :
    Prop where
  inv : Inv hw U s'
  view : s.SameView s'.toLoaderTables
  valid_eq : ∀ x, (s'.settled.databaseShadowMap x).valid =
    (s.settled.databaseShadowMap x).valid
  target_mem : ∀ b ∈ bs, (s'.databaseShadowMap b).noClonesTarget = numCopies
  target_notMem : ∀ b ∉ bs,
    (s'.databaseShadowMap b).noClonesTarget = (s.databaseShadowMap b).noClonesTarget
  ringId_eq : s'.fmsRingId = s.fmsRingId
  policy_eq : s'.databaseLoadPolicy = s.databaseLoadPolicy
  numRows_eq : s'.numRowsPerFmsBlock = s.numRowsPerFmsBlock

theorem settled_removeClone_valid (t : LoaderTables) (j b x : ℕ) :
    ((t.removeClone j b).databaseShadowMap x).valid = (t.databaseShadowMap x).valid := by
  rw [removeClone_entry]
  by_cases hx : x = b <;> simp [hx]

theorem Removals.valid_eq {n b : ℕ} (h : Removals b n s s') (hs : Shrinkable hw U b s) (x : ℕ) :
    (s'.settled.databaseShadowMap x).valid = (s.settled.databaseShadowMap x).valid := by
  induction h with
  | refl => rfl
  | step h hj hvic ih =>
    have hs' := (h.shrinkable hs).1
    obtain ⟨hmem, hlast⟩ := hs'.victim_settled hj hvic
    have hsame := (hs'.inv.removal hmem fun _ ↦ hlast).2
    rw [((SameView.of_sameButGidBmap hsame).entry_eq x).1, settled_removeClone_valid, ih hs]

theorem ShrinkAll.post {n : ℕ} (h : ShrinkAll n bs s s') (hs : Inv hw U s) (hnodup : bs.Nodup)
    (hbs : ∀ b ∈ bs, Shrinkable hw U b s) :
    Inv hw U s' ∧
      (∀ x, (s'.settled.databaseShadowMap x).valid =
        (s.settled.databaseShadowMap x).valid) ∧
      ∀ b ∈ bs, (s'.databaseShadowMap b).noClonesTarget + n =
        (s.databaseShadowMap b).noClonesTarget := by
  induction h with
  | nil => exact ⟨hs, fun _ ↦ rfl, by simp⟩
  | @cons b bs s s' s'' h h' ih =>
    obtain ⟨hb, hnodup⟩ := List.nodup_cons.mp hnodup
    have hsb := hbs b (by simp)
    obtain ⟨hsb', htgt⟩ := h.shrinkable hsb
    have hne : ∀ x ∈ bs, x ≠ b := by
      rintro x hx rfl
      exact hb hx
    obtain ⟨hinv, hvalid, htarget⟩ := ih hsb'.inv hnodup fun x hx ↦
      h.shrinkable_other hsb (hbs x (by simp [hx])) (hne x hx)
    refine ⟨hinv, fun x ↦ (hvalid x).trans (h.valid_eq hsb x), fun x hx ↦ ?_⟩
    rcases List.mem_cons.mp hx with rfl | hx
    · rw [h'.noClonesTarget_other hb]
      exact htgt
    · rw [htarget x hx, h.noClonesTarget_other (hne x hx)]

theorem ShrinkAll.eq_of_zero (h : ShrinkAll 0 bs s s') : s' = s := by
  induction bs generalizing s with
  | nil =>
    cases h
    rfl
  | cons b bs ih =>
    cases h with
    | cons h h' =>
      cases h
      exact ih h'

theorem ShrinkAll.zero (bs : List ℕ) (s : PhyDevice) : ShrinkAll 0 bs s s := by
  induction bs with
  | nil => exact .nil s
  | cons b bs ih => exact .cons (.refl s) ih

theorem shrink_zero (bs : List ℕ) (s : PhyDevice) : shrink bs 0 s = .ok s := by
  induction bs with
  | nil => rfl
  | cons b bs ih => exact ih

theorem Resized.post (h : Resized bs c numCopies s s') (hs : Inv hw U s) (hnodup : bs.Nodup)
    (hbs : ∀ b ∈ bs, (s.settled.databaseShadowMap b).valid = true ∧
      (s.databaseShadowMap b).noClonesTarget = c)
    (hshrink : numCopies < c → ∀ b ∈ bs, Shrinkable hw U b s) :
    ResizedPost hw U bs numCopies s s' := by
  unfold Resized at h
  split at h
  · rename_i hlt
    have hpost := h.post hs fun b hb ↦ (hbs b hb).1
    refine ⟨hpost.inv, h.sameView, hpost.valid_eq, fun b hb ↦ ?_, fun b hb ↦ ?_,
      h.config_eq.1, h.config_eq.2.1, h.config_eq.2.2⟩
    · rw [hpost.target_eq, (hbs b hb).2, List.count_eq_one_of_mem hnodup hb]
      omega
    · rw [hpost.target_eq, List.count_eq_zero_of_not_mem hb]
      omega
  · rename_i hle
    rcases Nat.eq_or_lt_of_le (Nat.not_lt.mp hle) with heq | hlt
    · -- nothing to remove
      have hzero : c - numCopies = 0 := by omega
      rw [hzero] at h
      obtain rfl : s' = s := by
        exact h.eq_of_zero
      exact ⟨hs, .refl _, fun _ ↦ rfl, fun b hb ↦ (hbs b hb).2.trans heq.symm,
        fun _ _ ↦ rfl, rfl, rfl, rfl⟩
    · obtain ⟨hinv, hvalid, htarget⟩ := h.post hs hnodup (hshrink hlt)
      refine ⟨hinv, h.sameView, hvalid, fun b hb ↦ ?_, fun b hb ↦ h.noClonesTarget_other hb,
        h.config_eq.1, h.config_eq.2.1, h.config_eq.2.2⟩
      have h₁ := htarget b hb
      have h₂ := (hbs b hb).2
      omega

theorem resize_outcome (hs : Inv hw U s) (hne : bs ≠ []) (hnodup : bs.Nodup)
    (hbs : ∀ b ∈ bs, (s.settled.databaseShadowMap b).valid = true ∧
      (s.databaseShadowMap b).noClonesTarget = c)
    (hshrink : numCopies < c → ∀ b ∈ bs, Shrinkable hw U b s)
    (hspace : c < numCopies → bs.length * (numCopies - c) ≤ s.arrayBlocksFree)
    (hE : nlmFmsLoaderCmdBuffSize ≤ s.loaderCmdMem.length +
        ((numCopies - c) * (6 * bs.length + 1) + 4 * ((c - numCopies) * bs.length)) →
      E .commandFifoOverrun) :
    Outcome (Resized bs c numCopies s) E (resize bs ((numCopies : ℤ) - c) s) := by
  unfold resize Resized
  by_cases hlt : c < numCopies
  · have hpos : 0 < (numCopies : ℤ) - c := by omega
    have htoNat : ((numCopies : ℤ) - c).toNat = numCopies - c := by omega
    simp only [if_pos hpos, if_pos hlt, htoNat]
    refine grow_outcome hs hne (fun b hb ↦ (hbs b hb).1) ?_ fun hfull ↦ hE (by omega)
    rw [Nat.mul_comm]
    exact hspace hlt
  · have hneg : ¬0 < (numCopies : ℤ) - c := by omega
    have htoNat : (-((numCopies : ℤ) - c)).toNat = c - numCopies := by omega
    simp only [if_neg hneg, if_neg hlt, htoNat]
    rcases Nat.eq_or_lt_of_le (Nat.not_lt.mp hlt) with heq | hgt
    · -- no victim is looked for
      simp only [heq, Nat.sub_self, shrink_zero]
      exact .zero bs s
    · refine shrink_outcome hnodup (fun b hb ↦ ⟨hshrink hgt b hb, ?_, ?_⟩)
        fun hfull ↦ hE (by omega)
      · rw [(hbs b hb).2]
        omega
      · have hblt := (hs.settled_placed.valid_lt b (hbs b hb).1).1
        rw [settled_numFmsBlocks] at hblt
        exact (hblt.trans_le hs.placed.blocks_le).trans (by decide)

/-! ## The entry point -/

/-- How a call ends after it has queued its commands. -/
def Finished (hw : Hw) (U : Set ℕ) (s : PhyDevice) (r : NlmStatus × PhyDevice) : Prop :=
  if s.databaseLoadPolicy ≠ databaseLoadPolicyAsync then DrainPost hw U s r else ExecPost hw U s r

theorem finish_outcome (hs : Inv hw U s) (hg : loaderGuard device s = none)
    (hdma : ∀ e, DmaStuck hw e → E e) :
    Outcome (Finished hw U s) E (finishByPolicy hw device s) := by
  unfold finishByPolicy Finished
  split
  · exact (drain_spec hs hg).mono (fun _ h ↦ h) hdma
  · exact (exec_spec hs hg).mono (fun _ h ↦ h) hdma

theorem loaderGuard_ne_ok {status : NlmStatus} (h : loaderGuard device s = some status) :
    status ≠ .ok := by
  rcases device with _ | d
  · simp only [loaderGuard, Option.some.injEq] at h
    simp [← h]
  · by_cases hring : s.fmsRingId = 0 <;> by_cases hthread : d.threadId = 0 <;>
      simp_all [loaderGuard] <;> simp [← h]

/-- `nlm_device_database_set_num_copies` either rejects the request and changes
nothing, or resizes the database. It rejects a well-formed request only for
lack of space. -/
theorem setNumCopies_outcome (hs : Inv hw U s)
    (hbs : ∀ b ∈ s.createShadowBlockListByDbId databaseId,
      (s.settled.databaseShadowMap b).valid = true ∧
        (s.databaseShadowMap b).noClonesTarget = c)
    (hshrink : numCopies < c →
      ∀ b ∈ s.createShadowBlockListByDbId databaseId, Shrinkable hw U b s)
    (hdma : ∀ e, DmaStuck hw e → E e)
    (hE : numCopies ≤ 4 →
      (c < numCopies → (s.createShadowBlockListByDbId databaseId).length * (numCopies - c) ≤
        s.arrayBlocksFree) →
      nlmFmsLoaderCmdBuffSize ≤ s.loaderCmdMem.length +
        ((numCopies - c) * (6 * (s.createShadowBlockListByDbId databaseId).length + 1) +
          4 * ((c - numCopies) * (s.createShadowBlockListByDbId databaseId).length)) →
      E .commandFifoOverrun) :
    Outcome (fun r ↦
      (r.2 = s ∧ r.1 ≠ .ok ∧ r.1 ≠ .loaderInProgress ∧
        (loaderGuard device s = none → databaseId ≤ nlmMaxDatabaseId → numCopies ≤ 4 →
          s.createShadowBlockListByDbId databaseId ≠ [] →
          c < numCopies ∧ s.arrayBlocksFree <
            (s.createShadowBlockListByDbId databaseId).length * (numCopies - c))) ∨
      (loaderGuard device s = none ∧ s.createShadowBlockListByDbId databaseId ≠ [] ∧
        numCopies ≤ 4 ∧
        ∃ s', Resized (s.createShadowBlockListByDbId databaseId) c numCopies s s' ∧
          Finished hw U s' r)) E
      (nlmDeviceDatabaseSetNumCopies hw device databaseId numCopies s) := by
  unfold nlmDeviceDatabaseSetNumCopies
  generalize hlist : s.createShadowBlockListByDbId databaseId = bs at hbs hshrink hE ⊢
  have hnodup : bs.Nodup := hlist ▸ s.blockList_nodup databaseId
  rcases hg : loaderGuard device s with _ | status
  · simp only
    by_cases hid : nlmMaxDatabaseId < databaseId
    · rw [if_pos hid]
      exact .inl ⟨rfl, by simp, by simp, fun _ h ↦ absurd hid (Nat.not_lt.mpr h)⟩
    rw [if_neg hid]
    by_cases hfour : 4 < numCopies
    · rw [if_pos hfour]
      exact .inl ⟨rfl, by simp, by simp, fun _ _ h ↦ absurd hfour (Nat.not_lt.mpr h)⟩
    rw [if_neg hfour]
    by_cases hne : bs = []
    · rw [if_pos hne]
      exact .inl ⟨rfl, by simp, by simp, fun _ _ _ h ↦ absurd hne h⟩
    rw [if_neg hne]
    have hδ : ∀ b ∈ bs, missingCopies s.toLoaderTables numCopies b = (numCopies : ℤ) - c := by
      intro b hb
      rw [missingCopies, (hbs b hb).2]
    have hlen : 0 < bs.length := List.length_pos_iff.mpr hne
    rw [sum_missing hδ]
    by_cases hspace : 0 < (bs.length : ℤ) * ((numCopies : ℤ) - c) ∧
        (s.arrayBlocksFree : ℤ) < bs.length * ((numCopies : ℤ) - c)
    · rw [if_pos hspace]
      refine .inl ⟨rfl, by simp, by simp, fun _ _ _ _ ↦ ?_⟩
      have hlt : c < numCopies := by
        have := (mul_pos_iff_of_pos_left (by exact_mod_cast hlen)).mp hspace.1
        omega
      refine ⟨hlt, ?_⟩
      have hfree := hspace.2
      rw [← Nat.cast_sub hlt.le] at hfree
      exact_mod_cast hfree
    rw [if_neg hspace, deltaLoop_uniform hne hδ]
    have hroom : c < numCopies → bs.length * (numCopies - c) ≤ s.arrayBlocksFree := by
      intro hlt
      by_contra hfull
      refine hspace ⟨mul_pos (by exact_mod_cast hlen) (by omega), ?_⟩
      rw [← Nat.cast_sub hlt.le]
      exact_mod_cast Nat.not_le.mp hfull
    have hresize : Outcome (Resized bs c numCopies s) E
        (resize bs ((numCopies : ℤ) - c) s) :=
      resize_outcome hs hne hnodup hbs hshrink hroom (hE (Nat.not_lt.mp hfour) hroom)
    refine Outcome.bind (P := (· = (numCopies : ℤ) - c)) rfl ?_
    rintro _ rfl
    refine Outcome.bind hresize fun s' hres ↦ ?_
    have hpost := hres.post hs hnodup hbs hshrink
    refine (finish_outcome hpost.inv ((loaderGuard_congr hpost.ringId_eq).trans hg)
      hdma).imp fun r hr ↦ ?_
    exact .inr ⟨trivial, hne, Nat.not_lt.mp hfour, s', hres, hr⟩
  · exact .inl ⟨rfl, loaderGuard_ne_ok hg, loaderGuard_ne_inProgress hg,
      fun h ↦ by simp at h⟩

end PhyDevice

end NetL7.Loader
