import NetL7.Loader.Unload

/-!
# The commands queued and their budget

Once the asynchronous policy has been selected, a balancing may cut into an unload, and the
tables then no longer agree as they do otherwise. What bounds the queue still holds: an
array block is removed at most once and added at most once by the commands queued, and
each shadow block is deleted at most once.
-/

namespace NetL7.Loader

open NetL7.Lib LoaderTables

/-! ## The budget of a queue -/

/-- What a command stands for: the commands of its clone and the bulk update after it, the
commands of its removal, or itself. -/
def cmdBudget (c : LoaderCommand) : ℕ :=
  match c.opcode with
  | .arrayAdd => 7
  | .arrayDelete => 4
  | .shadowDelete => 1
  | _ => 0

def budget (q : List LoaderCommand) : ℕ := (q.map cmdBudget).sum

/-- Wherever the execution stands, the commands that are left are covered by their budget,
up to `k` commands of a sequence that has begun. -/
def Covered (k : ℕ) : List LoaderCommand → Prop
  | [] => True
  | c :: q => (c :: q).length ≤ budget (c :: q) + k ∧ Covered k q

theorem Covered.append {k k' : ℕ} {q x : List LoaderCommand} (h : Covered k q)
    (hx : Covered k' x) (hle : x.length + k ≤ budget x + k') : Covered k' (q ++ x) := by
  induction q with
  | nil => exact hx
  | cons c q ih =>
    refine ⟨?_, ih h.2⟩
    have hlen := h.1
    have hbudget : budget (c :: (q ++ x)) = budget (c :: q) + budget x := by
      simp [budget, Nat.add_assoc]
    change (q ++ x).length + 1 ≤ budget (c :: (q ++ x)) + k'
    rw [hbudget, List.length_append]
    rw [List.length_cons] at hlen
    omega

theorem Covered.mono {k k' : ℕ} {q : List LoaderCommand} (h : Covered k q) (hk : k ≤ k') :
    Covered k' q := by
  induction q with
  | nil => trivial
  | cons c q ih => exact ⟨h.1.trans (Nat.add_le_add_left hk _), ih h.2⟩

theorem Covered.length_le {k : ℕ} {q : List LoaderCommand} (h : Covered k q) :
    q.length ≤ budget q + k := by
  cases q with
  | nil => simp
  | cons c q => exact h.1

/-- The number of commands with an opcode. -/
def opCount (op : LoaderOpcode) (q : List LoaderCommand) : ℕ := q.countP (·.opcode = op)

theorem budget_eq (q : List LoaderCommand) :
    budget q = 7 * opCount .arrayAdd q + 4 * opCount .arrayDelete q +
      opCount .shadowDelete q := by
  induction q with
  | nil => rfl
  | cons c q ih =>
    have hcons : budget (c :: q) = cmdBudget c + budget q := by simp [budget]
    obtain ⟨opcode, a, sh⟩ := c
    rw [hcons, ih]
    cases opcode <;> simp [opCount, cmdBudget] <;> omega

/-- Commands for different array blocks are no more than the array blocks. -/
theorem opCount_le {op : LoaderOpcode} {q : List LoaderCommand} {n : ℕ}
    (hq : q.Pairwise fun c c' ↦ c.opcode = op → c'.opcode = op → c.addrArray ≠ c'.addrArray)
    (hlt : ∀ c ∈ q, c.opcode = op → c.addrArray < n) : opCount op q ≤ n := by
  let addrs := (q.filter (·.opcode = op)).map LoaderCommand.addrArray
  have hnodup : addrs.Nodup := by
    refine List.pairwise_map.mpr (List.pairwise_filter.mpr (hq.imp ?_))
    intro c c' h hc hc'
    exact h (by simpa using hc) (by simpa using hc')
  have hsub : addrs.toFinset ⊆ Finset.range n := by
    intro a ha
    obtain ⟨c, hc, rfl⟩ := List.mem_map.mp (List.mem_toFinset.mp ha)
    obtain ⟨hmem, hop⟩ := List.mem_filter.mp hc
    exact Finset.mem_range.mpr (hlt c hmem (by simpa using hop))
  calc
    opCount op q = addrs.length := by
      rw [opCount, List.countP_eq_length_filter, List.length_map]
    _ = addrs.toFinset.card := (List.toFinset_card_of_nodup hnodup).symm
    _ ≤ (Finset.range n).card := Finset.card_le_card hsub
    _ = n := Finset.card_range n

/-! ## The commands queued for an array block -/

/-- The commands of a clone that change the virtual id or the current flag. -/
def LoaderCommand.Adds (c : LoaderCommand) : Prop :=
  c.opcode = .arrayAdd ∨ c.opcode = .assignVirtBlkIdWait

/-- What is excluded for two commands on one array block, in the order of the queue. -/
structure Before (c c' : LoaderCommand) : Prop where
  delete_delete : c.opcode = .arrayDelete → c'.opcode = .arrayDelete →
    c.addrArray ≠ c'.addrArray
  add_adds : c.opcode = .arrayAdd → c'.Adds → c.addrArray ≠ c'.addrArray
  adds_delete : c.Adds → c'.opcode = .arrayDelete → c.addrArray ≠ c'.addrArray

namespace PhyDevice

/-- The removal of array block `j` is queued. -/
def DeletePending (s : PhyDevice) (j : ℕ) : Prop :=
  ∃ c ∈ s.loaderCmdMem, c.opcode = .arrayDelete ∧ c.addrArray = j

/-- The part of the queue invariant that a balancing cannot break. -/
structure Queued (k : ℕ) (s : PhyDevice) : Prop where
  blocks_le : s.numFmsBlocks ≤ totalFamosBlocks
  target_eq : s.arrayBlockMapTarget = s.settled.arrayBlockMapCurrent
  noClonesTarget_eq : ∀ b,
    (s.databaseShadowMap b).noClonesTarget = (s.settled.clones b).card
  adds : ∀ c ∈ s.loaderCmdMem, c.Adds → c.addrArray < s.numFmsBlocks ∧
    s.arrayBlockMapTarget c.addrArray = true ∧
    (s.arrayBlockMapCurrent c.addrArray = true → DeletePending s c.addrArray)
  deletes : ∀ c ∈ s.loaderCmdMem, c.opcode = .arrayDelete → c.addrArray < s.numFmsBlocks
  order : s.loaderCmdMem.Pairwise Before
  shadowDeletes_le : opCount .shadowDelete s.loaderCmdMem ≤ s.numFmsBlocks
  covered : Covered k s.loaderCmdMem
  pauses : s.loaderCmdMem.IsChain fun c c' ↦ c'.opcode = .pauseWait → c.opcode = .pause
  head_pause : ∀ c ∈ s.loaderCmdMem.head?, c.opcode = .pauseWait → s.waitTimeout = 0
  pauseTimeout_eq : s.pauseTimeout = 0

variable {k : ℕ} {s s' : PhyDevice} {j b : ℕ}

/-- There is room for the commands of one more clone. -/
theorem Queued.length_lt (h : Queued k s) (hk : k ≤ 1) :
    s.loaderCmdMem.length + 6 < nlmFmsLoaderCmdBuffSize := by
  have hadds : opCount .arrayAdd s.loaderCmdMem ≤ s.numFmsBlocks :=
    opCount_le (h.order.imp fun hb hc hc' ↦ hb.add_adds hc (.inl hc'))
      fun c hc hop ↦ (h.adds c hc (.inl hop)).1
  have hdeletes : opCount .arrayDelete s.loaderCmdMem ≤ s.numFmsBlocks :=
    opCount_le (h.order.imp fun hb hc hc' ↦ hb.delete_delete hc hc') h.deletes
  have hlen := h.covered.length_le
  have hN : s.numFmsBlocks ≤ 12 := h.blocks_le
  have hshadow := h.shadowDeletes_le
  rw [budget_eq] at hlen
  change _ < 14 * 12
  omega

theorem Queued.mono {k' : ℕ} (h : Queued k s) (hk : k ≤ k') : Queued k' s :=
  { h with covered := h.covered.mono hk }

/-! ## What the queue leaves alone -/

theorem settled_current_of_not_pending (hcur : s.arrayBlockMapCurrent j = true)
    (hdel : ¬DeletePending s j) : s.settled.arrayBlockMapCurrent j = true := by
  refine flush_induct _ (P := fun t : LoaderTables ↦ t.arrayBlockMapCurrent j = true) ?_ hcur
  intro c hc t ht
  obtain ⟨opcode, a, sh⟩ := c
  cases opcode with
  | arrayAdd =>
    by_cases ha : j = a <;> simp [execute, setShadow, setCopyNumber, setCurrent, ha, ht]
  | arrayDelete =>
    have ha : j ≠ a := fun ha ↦ hdel ⟨_, hc, rfl, ha.symm⟩
    simpa [execute, setShadow, setCurrent, ha] using ht
  | gidBmapConfigure =>
    obtain ⟨shadow, hw, heq⟩ := sameButGidBmap_configure t ⟨.gidBmapConfigure, a, sh⟩
    simp only [execute, heq]
    exact ht
  | _ => exact ht

theorem settled_virtIds_of_not_adds
    (hadds : ∀ c ∈ s.loaderCmdMem, c.Adds → c.addrArray ≠ j) :
    s.settled.arrayVirtIds j = s.arrayVirtIds j := by
  refine flush_frame _ (p := fun t : LoaderTables ↦ t.arrayVirtIds j) ?_ _
  intro c hc t
  obtain ⟨opcode, a, sh⟩ := c
  cases opcode with
  | assignVirtBlkIdWait =>
    have ha : j ≠ a := fun ha ↦ hadds _ hc (.inr rfl) ha.symm
    simp [execute, setVirtId, ha]
  | gidBmapConfigure =>
    obtain ⟨shadow, hw, heq⟩ := sameButGidBmap_configure t ⟨.gidBmapConfigure, a, sh⟩
    simp only [execute, heq]
    rfl
  | _ => rfl

theorem Queued.deletePending (h : Queued k s) (htarget : s.arrayBlockMapTarget j = false)
    (hcur : s.arrayBlockMapCurrent j = true) : DeletePending s j := by
  by_contra hdel
  have hsettled := settled_current_of_not_pending hcur hdel
  rw [← h.target_eq, htarget] at hsettled
  cases hsettled

/-- A current array block whose removal is not queued is not added either. -/
theorem Queued.not_adds (h : Queued k s) (hcur : s.arrayBlockMapCurrent j = true)
    (hdel : ¬DeletePending s j) : ∀ c ∈ s.loaderCmdMem, c.Adds → c.addrArray ≠ j := by
  rintro c hc hadds rfl
  exact hdel ((h.adds c hc hadds).2.2 hcur)

/-- What the queue will leave on such a block is what is there. -/
theorem Queued.mem_settled_clones (h : Queued k s) (hj : j ∈ s.clones b)
    (hdel : ¬DeletePending s j) : j ∈ s.settled.clones b := by
  obtain ⟨hlt, hcur, hvirt⟩ := mem_clones.mp hj
  refine mem_clones.mpr ⟨by rwa [settled_numFmsBlocks],
    settled_current_of_not_pending hcur hdel, ?_⟩
  rw [settled_virtIds_of_not_adds (h.not_adds hcur hdel)]
  exact hvirt

theorem Queued.noClonesTarget_le (h : Queued k s) (b : ℕ) :
    (s.databaseShadowMap b).noClonesTarget ≤ 12 := by
  rw [h.noClonesTarget_eq b]
  exact ((s.settled.card_clones_le b).trans_eq (settled_numFmsBlocks s)).trans h.blocks_le

/-! ## Requesting a clone and a removal -/

theorem clones_addClone {t : LoaderTables} (hj : j < t.numFmsBlocks)
    (hfree : t.arrayBlockMapCurrent j = false) (x : ℕ) :
    (t.addClone j b).clones x = if x = b then insert j (t.clones b) else t.clones x := by
  ext i
  have hmem : i ∈ (t.addClone j b).clones x ↔ i < t.numFmsBlocks ∧
      Function.update t.arrayBlockMapCurrent j true i = true ∧
      Function.update t.arrayVirtIds j b i = x := mem_clones
  rw [hmem]
  by_cases hx : x = b
  · subst hx
    by_cases hi : i = j
    · subst hi
      simp [hj]
    · simp [hi]
  · by_cases hi : i = j
    · subst hi
      simp [hx, hfree, eq_comm (a := b)]
    · simp [hx, hi]

theorem opCount_append (op : LoaderOpcode) (q x : List LoaderCommand) :
    opCount op (q ++ x) = opCount op q + opCount op x := List.countP_append ..

theorem DeletePending.enqueue (h : DeletePending s j) (cmds : List LoaderCommand)
    (hq : s'.loaderCmdMem = s.loaderCmdMem ++ cmds) : DeletePending s' j := by
  obtain ⟨c, hc, hop⟩ := h
  exact ⟨c, hq ▸ List.mem_append_left cmds hc, hop⟩

/-- Commands other than a removal leave no array block newly pending. -/
theorem DeletePending.of_append {cmds : List LoaderCommand} (h : DeletePending s' j)
    (hq : s'.loaderCmdMem = s.loaderCmdMem ++ cmds)
    (hcmds : ∀ c ∈ cmds, c.opcode ≠ .arrayDelete) : DeletePending s j := by
  obtain ⟨c, hc, hop, haddr⟩ := h
  rw [hq] at hc
  rcases List.mem_append.mp hc with hc | hc
  · exact ⟨c, hc, hop, haddr⟩
  · exact absurd hop (hcmds c hc)

theorem Queued.deletes_append {cmds : List LoaderCommand} (h : Queued k s)
    (hcmds : ∀ c ∈ cmds, c.opcode = .arrayDelete → c.addrArray < s.numFmsBlocks) :
    ∀ c ∈ s.loaderCmdMem ++ cmds, c.opcode = .arrayDelete → c.addrArray < s.numFmsBlocks := by
  intro c hc hop
  rcases List.mem_append.mp hc with hc | hc
  · exact h.deletes c hc hop
  · exact hcmds c hc hop

theorem Queued.head_pause_append {cmds : List LoaderCommand} (h : Queued k s)
    (hcmds : ∀ c ∈ cmds.head?, c.opcode ≠ .pauseWait) :
    ∀ c ∈ (s.loaderCmdMem ++ cmds).head?, c.opcode = .pauseWait → s.waitTimeout = 0 := by
  intro c hc hop
  rcases hq : s.loaderCmdMem with _ | ⟨c₀, rest⟩
  · rw [hq] at hc
    exact absurd hop (hcmds c hc)
  · rw [hq] at hc
    exact h.head_pause c (by rw [hq]; exact hc) hop

theorem Queued.cloned (h : Queued 1 s) (hj : j < s.numFmsBlocks)
    (hfree : s.arrayBlockMapTarget j = false) : Queued 0 (s.cloned j b) := by
  have hidle : s.settled.arrayBlockMapCurrent j = false := by
    rw [← h.target_eq]
    exact hfree
  have hqueue : (s.cloned j b).loaderCmdMem = s.loaderCmdMem ++ cloneCmds j b := rfl
  have htarget : (s.cloned j b).arrayBlockMapTarget =
      Function.update s.arrayBlockMapTarget j true := rfl
  have hne : ∀ c ∈ s.loaderCmdMem, c.Adds → c.addrArray ≠ j := by
    rintro c hc hadds rfl
    rw [(h.adds c hc hadds).2.1] at hfree
    cases hfree
  refine ⟨h.blocks_le, ?_, fun x ↦ ?_, fun c hc hadds ↦ ?_,
    h.deletes_append (by simp [cloneCmds]), ?_, ?_, ?_, ?_,
    h.head_pause_append (by simp [cloneCmds]), h.pauseTimeout_eq⟩
  · rw [settled_cloned, htarget, h.target_eq]
    rfl
  · have hle := h.noClonesTarget_le b
    rw [settled_cloned, clones_addClone (by rwa [settled_numFmsBlocks]) hidle]
    change ((s.reserve j true b incr8).databaseShadowMap x).noClonesTarget = _
    rw [reserve_noClonesTarget]
    by_cases hx : x = b
    · have hmem : j ∉ s.settled.clones b := by
        intro hmem
        rw [(mem_clones.mp hmem).2.1] at hidle
        cases hidle
      rw [if_pos hx, if_pos hx, Finset.card_insert_of_notMem hmem, ← h.noClonesTarget_eq,
        incr8_of_lt (by omega)]
    · rw [if_neg hx, if_neg hx]
      exact h.noClonesTarget_eq x
  · rw [hqueue] at hc
    rcases List.mem_append.mp hc with hc | hc
    · obtain ⟨hlt, htrue, hpending⟩ := h.adds c hc hadds
      refine ⟨hlt, ?_, fun hcur ↦ (hpending hcur).enqueue _ hqueue⟩
      rw [htarget, Function.update_of_ne (hne c hc hadds)]
      exact htrue
    · have haddr : c.addrArray = j := by
        have hall : ∀ c ∈ cloneCmds j b, c.addrArray = j := by simp [cloneCmds]
        exact hall c hc
      rw [haddr, htarget, Function.update_self]
      exact ⟨hj, rfl, fun hcur ↦ (h.deletePending hfree hcur).enqueue _ hqueue⟩
  · rw [hqueue, List.pairwise_append]
    have hcmds : ∀ c ∈ cloneCmds j b, c.opcode ≠ .arrayDelete ∧ c.addrArray = j := by
      simp [cloneCmds]
    refine ⟨h.order, ?_, fun c hc c' hc' ↦ ?_⟩
    · have hnone : ∀ op, op ≠ .arrayAdd → op ≠ .arrayDelete → ∀ c' ∈ cloneCmds j b,
          Before ⟨op, j, b⟩ c' := fun op hadd hdel c' hc' ↦
        ⟨fun hop ↦ absurd hop hdel, fun hop ↦ absurd hop hadd,
          fun _ hop ↦ absurd hop (hcmds c' hc').1⟩
      simp only [cloneCmds, List.forall_mem_cons] at hnone
      simp only [cloneCmds, List.pairwise_cons, List.forall_mem_cons]
      have h₁ := hnone .dmaXferStart (by simp) (by simp)
      have h₂ := hnone .dmaXferCompleteWait (by simp) (by simp)
      have h₃ := hnone .actionTableLoad (by simp) (by simp)
      have h₄ := hnone .assignVirtBlkId (by simp) (by simp)
      have h₅ := hnone .assignVirtBlkIdWait (by simp) (by simp)
      exact ⟨h₁.2, h₂.2.2, h₃.2.2.2, h₄.2.2.2.2, h₅.2.2.2.2.2, by simp, List.Pairwise.nil⟩
    · obtain ⟨hdel, haddr⟩ := hcmds c' hc'
      refine ⟨fun _ hop ↦ absurd hop hdel, fun hop _ ↦ ?_, fun _ hop ↦ absurd hop hdel⟩
      rw [haddr]
      exact hne c hc (.inl hop)
  · rw [hqueue, opCount_append]
    exact h.shadowDeletes_le
  · rw [hqueue]
    exact h.covered.append (by simp [Covered, cloneCmds, budget, cmdBudget])
      (by simp [cloneCmds, budget, cmdBudget])
  · rw [hqueue, List.isChain_append]
    exact ⟨h.pauses, by simp [cloneCmds], by simp [cloneCmds]⟩

theorem removal_settled_same (s : PhyDevice) (j b : ℕ) :
    (s.settled.removeClone j b).SameButGidBmap (s.removal j b).settled := by
  have hsame : s.settled.SameButGidBmap
      (s.mapTables fun t ↦ t.nlmDeviceBlockSchedulerDelete b j
        (1 <<< t.arrayBlockCopyNumber j)).settled :=
    (sameButGidBmap_schedulerDelete s.toLoaderTables b j
      (1 <<< s.arrayBlockCopyNumber j)).flushed s.loaderCmdMem
  rw [PhyDevice.removal, settled_decloned]
  obtain ⟨shadow, regs, heq⟩ := hsame
  refine ⟨shadow, regs, ?_⟩
  rw [heq]
  rfl

theorem removal_arrayBlockMapTarget (s : PhyDevice) (j b : ℕ) :
    (s.removal j b).arrayBlockMapTarget = Function.update s.arrayBlockMapTarget j false := by
  obtain ⟨shadow, regs, heq⟩ := sameButGidBmap_schedulerDelete s.toLoaderTables b j
    (1 <<< s.arrayBlockCopyNumber j)
  rw [removal_tables, heq]
  rfl

/-- A clone is removed whose removal is not queued yet. -/
theorem Queued.removal (h : Queued 1 s) (hj : j ∈ s.clones b) (hdel : ¬DeletePending s j) :
    Queued 1 (s.removal j b) := by
  obtain ⟨hlt, hcur, hvirt⟩ := mem_clones.mp hj
  have hmem := h.mem_settled_clones hj hdel
  have hne := h.not_adds hcur hdel
  have hview := removal_sameView s j b
  have hqueue := removal_queue s j b
  have htarget := removal_arrayBlockMapTarget s j b
  have hsettled := removal_settled_same s j b
  have hsettledView := SameView.of_sameButGidBmap hsettled
  have hcmds : ∀ c ∈ decloneCmds j b, ¬c.Adds ∧ c.addrArray = j := by
    simp [decloneCmds, LoaderCommand.Adds]
  refine ⟨hview.numFmsBlocks_eq ▸ h.blocks_le, ?_, fun x ↦ ?_, fun c hc hadds ↦ ?_, ?_, ?_, ?_,
    ?_, ?_, ?_, h.pauseTimeout_eq⟩
  · rw [hsettledView.current_eq, htarget, h.target_eq]
    rfl
  · have hle := h.noClonesTarget_le b
    rw [hsettledView.clones_eq, clones_removeClone (mem_clones.mp hmem).2.2,
      removal_noClonesTarget]
    by_cases hx : x = b
    · have hpos := Finset.card_pos.mpr ⟨j, hmem⟩
      rw [if_pos hx, if_pos hx, Finset.card_erase_of_mem hmem, ← h.noClonesTarget_eq b]
      rw [← h.noClonesTarget_eq b] at hpos
      unfold decr8
      omega
    · rw [if_neg hx, if_neg hx]
      exact h.noClonesTarget_eq x
  · rw [hqueue] at hc
    rcases List.mem_append.mp hc with hc | hc
    · obtain ⟨haddr, htrue, hpending⟩ := h.adds c hc hadds
      rw [hview.numFmsBlocks_eq, hview.current_eq, htarget,
        Function.update_of_ne (hne c hc hadds)]
      exact ⟨haddr, htrue, fun hcur ↦ (hpending hcur).enqueue _ hqueue⟩
    · exact absurd hadds (hcmds c hc).1
  · rw [hview.numFmsBlocks_eq, hqueue]
    exact h.deletes_append fun c hc _ ↦ (hcmds c hc).2.symm ▸ hlt
  · rw [hqueue, List.pairwise_append]
    refine ⟨h.order, ?_, fun c hc c' hc' ↦ ?_⟩
    · simp only [decloneCmds, List.pairwise_cons, List.forall_mem_cons]
      refine ⟨⟨?_, ?_, ?_, by simp⟩, ⟨?_, ?_, by simp⟩, ⟨?_, by simp⟩, by simp, List.Pairwise.nil⟩
      all_goals exact ⟨by simp, by simp, by simp [LoaderCommand.Adds]⟩
    · obtain ⟨hadds, haddr⟩ := hcmds c' hc'
      refine ⟨fun hop _ ↦ ?_, fun _ hop ↦ absurd hop hadds, fun hop _ ↦ ?_⟩
      · rw [haddr]
        exact fun heq ↦ hdel ⟨c, hc, hop, heq⟩
      · rw [haddr]
        exact hne c hc hop
  · rw [hqueue, opCount_append, hview.numFmsBlocks_eq]
    exact h.shadowDeletes_le
  · rw [hqueue]
    exact h.covered.append (by simp [Covered, decloneCmds, budget, cmdBudget])
      (by simp [decloneCmds, budget, cmdBudget])
  · rw [hqueue, List.isChain_append]
    exact ⟨h.pauses, by simp [decloneCmds], by simp [decloneCmds]⟩
  · rw [hqueue]
    exact h.head_pause_append (by simp [decloneCmds])

/-- A command that touches no array block is queued. -/
theorem Queued.enqueue {k' : ℕ} {cmd : LoaderCommand} (h : Queued k s)
    (hop : cmd.opcode = .gidBmapConfigure ∨ cmd.opcode = .shadowDelete)
    (hshadow : opCount .shadowDelete s.loaderCmdMem + opCount .shadowDelete [cmd] ≤
      s.numFmsBlocks)
    (hbudget : 1 + k ≤ budget [cmd] + k') : Queued k' (s.enqueue [cmd]) := by
  have hqueue : (s.enqueue [cmd]).loaderCmdMem = s.loaderCmdMem ++ [cmd] := rfl
  have hadds : ¬cmd.Adds := by
    rcases hop with hop | hop <;> simp [LoaderCommand.Adds, hop]
  have hdelete : cmd.opcode ≠ .arrayDelete := by
    rcases hop with hop | hop <;> simp [hop]
  have hpause : cmd.opcode ≠ .pauseWait := by
    rcases hop with hop | hop <;> simp [hop]
  have hsettled : (s.settled.execute cmd).arrayBlockMapCurrent =
        s.settled.arrayBlockMapCurrent ∧
      ∀ x, (s.settled.execute cmd).clones x = s.settled.clones x := by
    obtain ⟨opcode, a, sh⟩ := cmd
    rcases hop with rfl | rfl
    · have hview := SameView.of_sameButGidBmap
        (sameButGidBmap_configure s.settled ⟨.gidBmapConfigure, a, sh⟩)
      exact ⟨hview.current_eq, hview.clones_eq⟩
    · exact ⟨rfl, fun _ ↦ rfl⟩
  refine ⟨h.blocks_le, ?_, fun x ↦ ?_, fun c hc hc' ↦ ?_,
    h.deletes_append (by simp [hdelete]), ?_, ?_, ?_, ?_,
    h.head_pause_append (by simp [hpause]), h.pauseTimeout_eq⟩
  · rw [settled_enqueue]
    exact h.target_eq.trans hsettled.1.symm
  · rw [settled_enqueue]
    exact (h.noClonesTarget_eq x).trans (congrArg Finset.card (hsettled.2 x).symm)
  · rw [hqueue] at hc
    rcases List.mem_append.mp hc with hc | hc
    · obtain ⟨hlt, htrue, hpending⟩ := h.adds c hc hc'
      exact ⟨hlt, htrue, fun hcur ↦ (hpending hcur).enqueue _ hqueue⟩
    · rw [List.mem_singleton.mp hc] at hc'
      exact absurd hc' hadds
  · rw [hqueue, List.pairwise_append]
    refine ⟨h.order, List.pairwise_singleton _ _, fun c _ c' hc' ↦ ?_⟩
    rw [List.mem_singleton.mp hc']
    exact ⟨fun _ hop ↦ absurd hop hdelete, fun _ hop ↦ absurd hop hadds,
      fun _ hop ↦ absurd hop hdelete⟩
  · rw [hqueue, opCount_append]
    exact hshadow
  · rw [hqueue]
    have hone : [cmd].length = 1 := rfl
    exact h.covered.append ⟨by omega, trivial⟩ (by omega)
  · rw [hqueue, List.isChain_append]
    refine ⟨h.pauses, List.isChain_singleton _, fun c _ c' hc' hop ↦ ?_⟩
    obtain rfl : cmd = c' := by simpa using hc'
    exact absurd hop hpause

/-! ## Executing a command -/

theorem execute_current {t : LoaderTables} {cmd : LoaderCommand}
    (h : (t.execute cmd).arrayBlockMapCurrent j = true) :
    (cmd.opcode = .arrayAdd ∧ cmd.addrArray = j) ∨
      (t.arrayBlockMapCurrent j = true ∧
        ¬(cmd.opcode = .arrayDelete ∧ cmd.addrArray = j)) := by
  obtain ⟨opcode, a, sh⟩ := cmd
  cases opcode with
  | arrayAdd =>
    by_cases ha : j = a
    · exact .inl ⟨rfl, ha.symm⟩
    · exact .inr ⟨by simpa [execute, setShadow, setCopyNumber, setCurrent, ha] using h, by simp⟩
  | arrayDelete =>
    by_cases ha : j = a
    · simp [execute, setShadow, setCurrent, ha] at h
    · refine .inr ⟨by simpa [execute, setShadow, setCurrent, ha] using h, ?_⟩
      exact fun hop ↦ ha hop.2.symm
  | gidBmapConfigure =>
    obtain ⟨shadow, hw, heq⟩ := sameButGidBmap_configure t ⟨.gidBmapConfigure, a, sh⟩
    simp only [execute, heq] at h
    exact .inr ⟨h, by simp⟩
  | _ => exact .inr ⟨h, by simp⟩

/-- The device after the head of the queue has been executed. -/
def popped (s : PhyDevice) (cmd : LoaderCommand) (rest : List LoaderCommand) (w p : ℕ) :
    PhyDevice :=
  { s.mapTables (·.execute cmd) with waitTimeout := w, polls := p, loaderCmdMem := rest }

theorem Queued.popped {cmd : LoaderCommand} {rest : List LoaderCommand} {w p : ℕ}
    (h : Queued k s) (hq : s.loaderCmdMem = cmd :: rest)
    (hw : cmd.opcode = .pause → w = s.pauseTimeout) : Queued k (s.popped cmd rest w p) := by
  have hframe := s.execute_frame cmd
  have hsettled : (s.popped cmd rest w p).settled = s.settled := by
    rw [settled, settled, hq]
    rfl
  have hmem : ∀ c ∈ rest, c ∈ s.loaderCmdMem := fun c hc ↦ hq ▸ List.mem_cons_of_mem cmd hc
  have horder := h.order
  have hshadow := h.shadowDeletes_le
  have hcovered := h.covered
  have hpauses := h.pauses
  rw [hq] at horder hshadow hcovered hpauses
  obtain ⟨hhead, horder⟩ := List.pairwise_cons.mp horder
  refine ⟨?_, ?_, fun b ↦ ?_, fun c hc hadds ↦ ?_, fun c hc hop ↦ ?_, horder, ?_, hcovered.2,
    (List.isChain_cons.mp hpauses).2, fun c hc hop ↦ ?_, h.pauseTimeout_eq⟩
  · exact hframe.1.trans_le h.blocks_le
  · rw [hsettled]
    exact hframe.2.1.trans h.target_eq
  · rw [hsettled]
    exact (hframe.2.2.2 b).1.trans (h.noClonesTarget_eq b)
  · obtain ⟨hlt, htrue, hpending⟩ := h.adds c (hmem c hc) hadds
    refine ⟨hlt.trans_eq hframe.1.symm, (congrFun hframe.2.1 _).trans htrue, fun hcur ↦ ?_⟩
    rcases execute_current hcur with ⟨hop, haddr⟩ | ⟨hcur, hdel⟩
    · exact absurd haddr ((hhead c hc).add_adds hop hadds)
    · obtain ⟨d, hd, hop, haddr⟩ := hpending hcur
      rw [hq] at hd
      rcases List.mem_cons.mp hd with rfl | hd
      · exact absurd ⟨hop, haddr⟩ hdel
      · exact ⟨d, hd, hop, haddr⟩
  · exact (h.deletes c (hmem c hc) hop).trans_eq hframe.1.symm
  · refine le_trans ?_ (hshadow.trans_eq hframe.1.symm)
    exact (List.sublist_cons_self cmd rest).countP_le
  · have hprev := (List.isChain_cons.mp hpauses).1 c hc hop
    exact (hw hprev).trans h.pauseTimeout_eq

theorem Queued.wait {w p : ℕ} (h : Queued k s)
    (hw : ∀ c ∈ s.loaderCmdMem.head?, c.opcode = .pauseWait → w = s.waitTimeout - 1) :
    Queued k { s with waitTimeout := w, polls := p } := by
  refine { h with head_pause := fun c hc hop ↦ ?_ }
  have hzero := h.head_pause c hc hop
  have hw := hw c hc hop
  change w = 0
  omega

/-! ## What keeps a removal from being requested twice -/

/-- The victim search does not take the copy on array block `j` any more: its number is not
below the target, or its shadow block is gone, or no later balancing will shrink its
database. -/
def Spent (M : ℕ) (t : LoaderTables) (j : ℕ) : Prop :=
  (t.databaseShadowMap (t.arrayVirtIds j)).noClonesTarget ≤ t.arrayBlockCopyNumber j ∨
    (t.databaseShadowMap (t.arrayVirtIds j)).valid = false ∨
    ∀ l ∈ (t.createShadowBlockListByDbId
        (t.databaseShadowMap (t.arrayVirtIds j)).dbId).getLast?,
      (t.databaseShadowMap l).noClonesTarget ≤ M

/-- The shadow blocks whose deletion is queued. -/
def pendingShadows (q : List LoaderCommand) : List ℕ :=
  (q.filter (·.opcode = .shadowDelete)).map LoaderCommand.addrShadow

/-- The invariant of the command ring. No balancing since the queue was empty has decided
on more than `M` copies, and none to come will decide on fewer. -/
structure Ring (M : ℕ) (s : PhyDevice) : Prop where
  queued : Queued 1 s
  spent : ∀ j, DeletePending s j → Spent M s.toLoaderTables j
  unloads : pendingShadows s.loaderCmdMem = [] ∨
    ∃ d, s.createShadowBlockListByDbId d = pendingShadows s.loaderCmdMem
  fair : shadowBlocksOccupied s.toLoaderTables = 0 ∨ M ≤ balancedCopies s.toLoaderTables

theorem execute_array {t : LoaderTables} {cmd : LoaderCommand}
    (h : ¬(cmd.Adds ∧ cmd.addrArray = j)) :
    (t.execute cmd).arrayVirtIds j = t.arrayVirtIds j ∧
      (t.execute cmd).arrayBlockCopyNumber j = t.arrayBlockCopyNumber j := by
  obtain ⟨opcode, a, sh⟩ := cmd
  cases opcode with
  | arrayAdd =>
    have ha : j ≠ a := fun ha ↦ h ⟨.inl rfl, ha.symm⟩
    simp [execute, setShadow, setCopyNumber, setCurrent, ha]
  | assignVirtBlkIdWait =>
    have ha : j ≠ a := fun ha ↦ h ⟨.inr rfl, ha.symm⟩
    simp [execute, setVirtId, ha]
  | gidBmapConfigure =>
    obtain ⟨shadow, hw, heq⟩ := sameButGidBmap_configure t ⟨.gidBmapConfigure, a, sh⟩
    simp only [execute, heq]
    exact ⟨rfl, rfl⟩
  | _ => exact ⟨rfl, rfl⟩

theorem execute_valid (t : LoaderTables) (cmd : LoaderCommand) (x : ℕ) :
    ((t.execute cmd).databaseShadowMap x).valid =
      ((t.databaseShadowMap x).valid &&
        !decide (cmd.opcode = .shadowDelete ∧ x = cmd.addrShadow)) := by
  obtain ⟨opcode, a, sh⟩ := cmd
  cases opcode with
  | gidBmapConfigure =>
    obtain ⟨shadow, hw, heq⟩ := sameButGidBmap_configure t ⟨.gidBmapConfigure, a, sh⟩
    simp only [execute, heq]
    simp [LoaderTables.withGidBmap]
  | arrayAdd => by_cases hx : x = sh <;> simp [execute, setShadow, setCopyNumber, setCurrent, hx]
  | arrayDelete => by_cases hx : x = sh <;> simp [execute, setShadow, setCurrent, hx]
  | shadowDelete => by_cases hx : x = sh <;> simp [execute, setShadow, hx]
  | _ => simp [execute, setVirtId]

theorem execute_blockList (t : LoaderTables) (cmd : LoaderCommand) (d : ℕ) :
    (t.execute cmd).createShadowBlockListByDbId d =
      (t.createShadowBlockListByDbId d).filter fun x ↦
        !decide (cmd.opcode = .shadowDelete ∧ x = cmd.addrShadow) := by
  have hframe := t.execute_frame cmd
  unfold createShadowBlockListByDbId
  rw [hframe.1, List.filter_filter]
  refine List.filter_congr fun x _ ↦ ?_
  rw [execute_valid, (hframe.2.2.2 x).2]
  cases (t.databaseShadowMap x).valid <;> simp [Bool.and_comm]

theorem execute_blockList_of_ne {t : LoaderTables} {cmd : LoaderCommand}
    (h : cmd.opcode ≠ .shadowDelete) (d : ℕ) :
    (t.execute cmd).createShadowBlockListByDbId d = t.createShadowBlockListByDbId d := by
  rw [execute_blockList, List.filter_eq_self]
  simp [h]

/-- A shadow block that is deleted comes first in the list of its database. -/
theorem execute_blockList_head {t : LoaderTables} {cmd : LoaderCommand} {d₀ : ℕ} {bs : List ℕ}
    (hop : cmd.opcode = .shadowDelete)
    (hlist : t.createShadowBlockListByDbId d₀ = cmd.addrShadow :: bs) (d : ℕ) :
    (t.execute cmd).createShadowBlockListByDbId d =
      if d = d₀ then bs else t.createShadowBlockListByDbId d := by
  rw [execute_blockList]
  by_cases hd : d = d₀
  · have hnodup := blockList_nodup t d₀
    rw [hlist] at hnodup
    obtain ⟨hnot, -⟩ := List.nodup_cons.mp hnodup
    rw [if_pos hd, hd, hlist, List.filter_cons_of_neg (by simp [hop]), List.filter_eq_self]
    rintro x hx
    have hne : x ≠ cmd.addrShadow := fun h ↦ hnot (h ▸ hx)
    simp [hne]
  · rw [if_neg hd, List.filter_eq_self]
    intro x hx
    have hne : x ≠ cmd.addrShadow := by
      rintro rfl
      have hmem : cmd.addrShadow ∈ t.createShadowBlockListByDbId d₀ := by simp [hlist]
      exact hd ((mem_blockList.mp hx).2.2.symm.trans (mem_blockList.mp hmem).2.2)
    simp [hne]

theorem pendingShadows_cons (cmd : LoaderCommand) (rest : List LoaderCommand) :
    pendingShadows (cmd :: rest) =
      if cmd.opcode = .shadowDelete then cmd.addrShadow :: pendingShadows rest
      else pendingShadows rest := by
  by_cases hop : cmd.opcode = .shadowDelete <;> simp [pendingShadows, hop]

theorem execute_occupied (t : LoaderTables) (cmd : LoaderCommand) :
    shadowBlocksOccupied (t.execute cmd) ≤ shadowBlocksOccupied t := by
  unfold shadowBlocksOccupied
  rw [(t.execute_frame cmd).1]
  refine List.countP_mono_left fun x _ hx ↦ ?_
  rw [execute_valid] at hx
  simp only [Bool.and_eq_true] at hx
  exact hx.1

/-- With fewer shadow blocks in use, a balancing decides on no fewer copies. -/
theorem balancedCopies_le {t t' : LoaderTables} (hN : t'.numFmsBlocks = t.numFmsBlocks)
    (hle : shadowBlocksOccupied t' ≤ shadowBlocksOccupied t)
    (hne : shadowBlocksOccupied t' ≠ 0) : balancedCopies t ≤ balancedCopies t' := by
  unfold balancedCopies
  rw [hN]
  exact min_le_min le_rfl (Nat.div_le_div_left hle (Nat.pos_of_ne_zero hne))

variable {M : ℕ} {hw : Hw} {device : Option NlmDevice}

theorem Ring.popped {cmd : LoaderCommand} {rest : List LoaderCommand} {w p : ℕ}
    (h : Ring M s) (hq : s.loaderCmdMem = cmd :: rest)
    (hw : cmd.opcode = .pause → w = s.pauseTimeout) : Ring M (s.popped cmd rest w p) := by
  have hframe := s.execute_frame cmd
  have horder := h.queued.order
  have hunloads := h.unloads
  rw [hq] at horder hunloads
  rw [pendingShadows_cons] at hunloads
  obtain ⟨hhead, -⟩ := List.pairwise_cons.mp horder
  -- the last block of a list stays the last one
  have hlists : (pendingShadows rest = [] ∨
      ∃ d, (s.execute cmd).createShadowBlockListByDbId d = pendingShadows rest) ∧
      ∀ d, ∀ l ∈ ((s.execute cmd).createShadowBlockListByDbId d).getLast?,
        l ∈ (s.createShadowBlockListByDbId d).getLast? := by
    by_cases hop : cmd.opcode = .shadowDelete
    · rw [if_pos hop] at hunloads
      obtain ⟨d₀, hlist⟩ := hunloads.resolve_left (by simp)
      have hexec := execute_blockList_head hop hlist
      refine ⟨.inr ⟨d₀, by rw [hexec, if_pos rfl]⟩, fun d l hl ↦ ?_⟩
      rw [hexec] at hl
      by_cases hd : d = d₀
      · rw [if_pos hd] at hl
        rw [hd, hlist, List.getLast?_cons, Option.mem_def.mp hl]
        rfl
      · rwa [if_neg hd] at hl
    · rw [if_neg hop] at hunloads
      simp only [execute_blockList_of_ne hop]
      exact ⟨hunloads, fun _ _ hl ↦ hl⟩
  refine ⟨h.queued.popped hq hw, fun j hj ↦ ?_, hlists.1, ?_⟩
  · obtain ⟨c, hc, hop, haddr⟩ := hj
    have hspent := h.spent j ⟨c, hq ▸ List.mem_cons_of_mem cmd hc, hop, haddr⟩
    have hnot : ¬(cmd.Adds ∧ cmd.addrArray = j) := fun hadds ↦
      (hhead c hc).adds_delete hadds.1 hop (hadds.2.trans haddr.symm)
    obtain ⟨hvirt, hcopy⟩ : (s.execute cmd).arrayVirtIds j = s.arrayVirtIds j ∧
        (s.execute cmd).arrayBlockCopyNumber j = s.arrayBlockCopyNumber j :=
      execute_array hnot
    change Spent M (s.execute cmd) j
    unfold Spent at hspent ⊢
    rw [hvirt, hcopy, (hframe.2.2.2 _).1, (hframe.2.2.2 _).2, execute_valid]
    refine hspent.imp_right (Or.imp (fun hvalid ↦ by simp [hvalid]) fun hlast l hl ↦ ?_)
    rw [(hframe.2.2.2 l).1]
    exact hlast l (hlists.2 _ l hl)
  · change shadowBlocksOccupied (s.execute cmd) = 0 ∨ M ≤ balancedCopies (s.execute cmd)
    by_cases hzero : shadowBlocksOccupied (s.execute cmd) = 0
    · exact .inl hzero
    · have hle := execute_occupied s.toLoaderTables cmd
      exact .inr ((h.fair.resolve_left (by omega)).trans
        (balancedCopies_le hframe.1 hle hzero))

theorem Ring.wait {w p : ℕ} (h : Ring M s)
    (hw : ∀ c ∈ s.loaderCmdMem.head?, c.opcode = .pauseWait → w = s.waitTimeout - 1) :
    Ring M { s with waitTimeout := w, polls := p } :=
  ⟨h.queued.wait hw, h.spent, h.unloads, h.fair⟩

/-- No assertion but that of the ring. -/
def NoOverrun (e : Halt) : Prop := e ≠ .commandFifoOverrun

theorem Ring.exec (h : Ring M s) :
    Outcome (fun r ↦ Ring M r.2 ∧ (loaderGuard device s = none → r.1 ≠ .loaderInProgress →
        r.2.loaderCmdMem = [])) NoOverrun (nlmDeviceLoaderCmdExecFms hw device s) := by
  rcases hg : loaderGuard device s with _ | status
  swap
  · rw [exec_of_guard hg]
    exact ⟨h, fun hnone ↦ by cases hnone⟩
  rcases hq : s.loaderCmdMem with _ | ⟨cmd, rest⟩
  · rw [exec_nil hg hq]
    exact ⟨h, fun _ _ ↦ hq⟩
  have hhead : ∀ c ∈ s.loaderCmdMem.head?, c = cmd := by simp [hq, eq_comm]
  obtain ⟨w, p, hsw, hpause, -⟩ | ⟨w, hsw, -, hwait⟩ | ⟨hsw, hop, hone⟩ | ⟨hsw, -⟩ | ⟨hsw, -⟩ |
    ⟨hsw, -⟩ := cmdSwitch_cases hw cmd s
  · rw [exec_brk hg hq hsw]
    refine ⟨h.popped hq hpause, fun _ hne ↦ ?_⟩
    by_contra hrest
    have hrest : rest ≠ [] := hrest
    simp [hrest] at hne
  · rw [exec_ret hg hq hsw]
    refine ⟨h.wait fun c hc hop ↦ hwait (.inl (hhead c hc ▸ hop)), fun _ hne ↦ absurd rfl hne⟩
  · -- the timeout of a pause is never set
    have hzero := h.queued.head_pause cmd (by simp [hq]) hop
    omega
  all_goals
    rw [exec_error hg hq hsw]
    simp [NoOverrun]

theorem Ring.finish (h : Ring M s) :
    Outcome (fun r ↦ Ring M r.2) NoOverrun (finishByPolicy hw device s) := by
  unfold finishByPolicy
  split
  · refine drain_outcome (P := Ring M) (fun s' hs' ↦ ?_) h
    have hexec : Outcome _ NoOverrun (nlmDeviceLoaderCmdExecFms hw device s') := hs'.exec
    exact hexec.imp fun r hr ↦ ⟨fun _ ↦ hr.1, fun _ ↦ hr.1⟩
  · exact h.exec.imp fun r hr ↦ hr.1

end PhyDevice

end NetL7.Loader
