import NetL7.Packet.Results
import Mathlib.Data.Nat.Bitwise

/-!
# The set of (database, group) pairs of a flow

The array of a flow is copied into every FD with the entries past its count, so
the pairs must stay at the front and the rest must stay zero, whatever the order
in which pairs are added and removed.
-/

namespace NetL7.Packet

/-- `NLM_FMS_GROUPS_PER_PACKET` -/
abbrev groupsPerPacket : ℕ := 6

/-- `MUX_DB_GID` -/
def muxDbGid (databaseId groupId : ℕ) : ℕ :=
  (databaseId &&& nlmMaxDatabaseId) <<< 10 ||| groupId &&& nlmMaxGroupId

/-- The ids that the calls accept. -/
def ValidPair (p : ℕ × ℕ) : Prop := p.1 ≤ nlmMaxDatabaseId ∧ p.2 ≤ nlmMaxGroupId ∧ p.2 ≠ 0

instance (p : ℕ × ℕ) : Decidable (ValidPair p) := inferInstanceAs (Decidable (_ ∧ _ ∧ _))

/-- The fields `db_group_id`, `db_group_cnt` and `db_group_combination` of a flow. -/
structure FlowGroups where
  dbGroupId : List ℕ
  dbGroupCnt : ℕ
  dbGroupCombination : ℕ
  deriving DecidableEq, Repr

namespace FlowGroups

/-- A flow of zero bytes. -/
def zero : FlowGroups := ⟨List.replicate groupsPerPacket 0, 0, 0⟩

/-- The loop that looks for a pair among the first `db_group_cnt` entries. -/
def find (s : FlowGroups) (dbGroup : ℕ) : Option ℕ :=
  (s.dbGroupId.take s.dbGroupCnt).findIdx? (· == dbGroup)

/-- The loop that shifts the entries from `j` on down by one, in `turns` turns. -/
def shiftArray (a : List ℕ) : ℕ → ℕ → List ℕ
  | _, 0 => a
  | j, turns + 1 => shiftArray (a.set j (a.getD (j + 1) 0)) (j + 1) turns

/-- `nlm_flow_add_database_and_group` on a device and a flow. The result is `none`
when the assertion fails. -/
def nlmFlowAddDatabaseAndGroup (s : FlowGroups) (databaseId groupId : ℕ) :
    Option (NlmStatus × FlowGroups) :=
  if databaseId > nlmMaxDatabaseId then some (.invalidDatabaseId, s)
  else if groupId > nlmMaxGroupId ∨ groupId = 0 then some (.invalidGroupid, s)
  else
    let dbGroup := muxDbGid databaseId groupId
    if dbGroup = 0 then none
    else if s.dbGroupCnt ≥ groupsPerPacket then some (.incorrectAccess, s)
    else
      match s.find dbGroup with
      | some _ => some (.incorrectAccess, s)
      | none =>
        some (.ok,
          { dbGroupId := s.dbGroupId.set s.dbGroupCnt dbGroup
            dbGroupCnt := s.dbGroupCnt + 1
            dbGroupCombination := (s.dbGroupCombination + 1) % 2 ^ 32 })

/-- `nlm_flow_remove_database_and_group` on a device and a flow. -/
def nlmFlowRemoveDatabaseAndGroup (s : FlowGroups) (databaseId groupId : ℕ) :
    Option (NlmStatus × FlowGroups) :=
  if databaseId > nlmMaxDatabaseId then some (.invalidDatabaseId, s)
  else if groupId > nlmMaxGroupId ∨ groupId = 0 then some (.invalidGroupid, s)
  else
    let dbGroup := muxDbGid databaseId groupId
    if dbGroup = 0 then none
    else
      match s.find dbGroup with
      | none => some (.incorrectAccess, s)
      | some i =>
        some (.ok,
          { dbGroupId :=
              (shiftArray s.dbGroupId i (groupsPerPacket - 1 - i)).set (groupsPerPacket - 1) 0
            dbGroupCnt := s.dbGroupCnt - 1
            dbGroupCombination := (s.dbGroupCombination + 1) % 2 ^ 32 })

end FlowGroups

/-- The two calls that edit the set of a flow. -/
inductive GroupEdit
  | add (databaseId groupId : ℕ)
  | remove (databaseId groupId : ℕ)
  deriving DecidableEq, Repr

/-- One call. -/
def FlowGroups.edit (s : FlowGroups) : GroupEdit → Option (NlmStatus × FlowGroups)
  | .add databaseId groupId => s.nlmFlowAddDatabaseAndGroup databaseId groupId
  | .remove databaseId groupId => s.nlmFlowRemoveDatabaseAndGroup databaseId groupId

/-- A sequence of calls. -/
def FlowGroups.run (s : FlowGroups) : List GroupEdit → Option FlowGroups
  | [] => some s
  | e :: edits => (s.edit e).bind fun r ↦ r.2.run edits

/-! ### The set itself -/

/-- Whether a set of pairs admits a call. -/
def GroupEdit.Admitted (l : List (ℕ × ℕ)) : GroupEdit → Prop
  | .add databaseId groupId =>
      ValidPair (databaseId, groupId) ∧ (databaseId, groupId) ∉ l ∧ l.length < groupsPerPacket
  | .remove databaseId groupId => ValidPair (databaseId, groupId) ∧ (databaseId, groupId) ∈ l

instance (l : List (ℕ × ℕ)) : (e : GroupEdit) → Decidable (e.Admitted l)
  | .add _ _ => inferInstanceAs (Decidable (_ ∧ _ ∧ _))
  | .remove _ _ => inferInstanceAs (Decidable (_ ∧ _))

/-- The set after a call, in the order of insertion. -/
def GroupEdit.apply (l : List (ℕ × ℕ)) (e : GroupEdit) : List (ℕ × ℕ) :=
  if e.Admitted l then
    match e with
    | .add databaseId groupId => l ++ [(databaseId, groupId)]
    | .remove databaseId groupId => l.erase (databaseId, groupId)
  else l

/-- The set after a sequence of calls. -/
def pairsAfter (edits : List GroupEdit) : List (ℕ × ℕ) := edits.foldl GroupEdit.apply []

theorem pairsAfter_concat (edits : List GroupEdit) (e : GroupEdit) :
    pairsAfter (edits ++ [e]) = e.apply (pairsAfter edits) := by
  rw [pairsAfter, List.foldl_append]
  rfl

theorem GroupEdit.apply_add {l : List (ℕ × ℕ)} {d g : ℕ} (h : (GroupEdit.add d g).Admitted l) :
    (GroupEdit.add d g).apply l = l ++ [(d, g)] := if_pos h

theorem GroupEdit.apply_remove {l : List (ℕ × ℕ)} {d g : ℕ}
    (h : (GroupEdit.remove d g).Admitted l) :
    (GroupEdit.remove d g).apply l = l.erase (d, g) := if_pos h

theorem GroupEdit.apply_of_not {l : List (ℕ × ℕ)} {e : GroupEdit} (h : ¬e.Admitted l) :
    e.apply l = l := if_neg h

/-- What every set reached has. -/
structure PairSet (l : List (ℕ × ℕ)) : Prop where
  nodup : l.Nodup
  length_le : l.length ≤ groupsPerPacket
  valid : ∀ p ∈ l, ValidPair p

theorem PairSet.apply {l : List (ℕ × ℕ)} (h : PairSet l) (e : GroupEdit) :
    PairSet (e.apply l) := by
  by_cases ha : e.Admitted l
  · cases e with
    | add d g =>
        obtain ⟨hv, hmem, hlen⟩ := ha
        rw [GroupEdit.apply_add ⟨hv, hmem, hlen⟩]
        constructor
        · exact List.nodup_append.mpr ⟨h.nodup, List.pairwise_singleton _ _, by
            intro p hp q hq hpq
            rw [List.mem_singleton.mp hq] at hpq
            exact hmem (hpq ▸ hp)⟩
        · rw [List.length_append]
          exact hlen
        · intro p hp
          rcases List.mem_append.mp hp with hp | hp
          · exact h.valid p hp
          · exact List.mem_singleton.mp hp ▸ hv
    | remove d g =>
        rw [GroupEdit.apply_remove ha]
        constructor
        · exact h.nodup.erase _
        · exact Nat.le_trans List.length_erase_le h.length_le
        · exact fun p hp ↦ h.valid p (List.mem_of_mem_erase hp)
  · rw [GroupEdit.apply_of_not ha]
    exact h

theorem pairSet_pairsAfter (edits : List GroupEdit) : PairSet (pairsAfter edits) := by
  induction edits using List.reverseRecOn with
  | nil => exact ⟨List.nodup_nil, Nat.zero_le _, fun p hp ↦ absurd hp List.not_mem_nil⟩
  | append_singleton edits e ih =>
      rw [pairsAfter_concat]
      exact ih.apply e

theorem mem_pairsAfter (edits : List GroupEdit) (d g : ℕ) :
    (d, g) ∈ pairsAfter edits ↔
      ∃ before after, edits = before ++ .add d g :: after ∧
        (GroupEdit.add d g).Admitted (pairsAfter before) ∧ .remove d g ∉ after := by
  induction edits using List.reverseRecOn with
  | nil =>
      refine ⟨fun h ↦ absurd h List.not_mem_nil, ?_⟩
      rintro ⟨before, after, h, -⟩
      exact absurd h.symm (by simp)
  | append_singleton edits e ih =>
      rw [pairsAfter_concat]
      constructor
      · intro hmem
        by_cases hold : (d, g) ∈ pairsAfter edits
        · obtain ⟨before, after, rfl, hadm, hrem⟩ := ih.mp hold
          refine ⟨before, after ++ [e], by simp, hadm, fun h ↦ ?_⟩
          rcases List.mem_append.mp h with h | h
          · exact hrem h
          · rw [← List.mem_singleton.mp h, GroupEdit.apply_remove
              ⟨(pairSet_pairsAfter _).valid _ hold, hold⟩] at hmem
            exact (pairSet_pairsAfter _).nodup.not_mem_erase hmem
        · by_cases ha : e.Admitted (pairsAfter edits)
          · cases e with
            | add d' g' =>
                rw [GroupEdit.apply_add ha, List.mem_append, List.mem_singleton] at hmem
                have he := hmem.resolve_left hold
                cases he
                exact ⟨edits, [], rfl, ha, List.not_mem_nil⟩
            | remove d' g' =>
                rw [GroupEdit.apply_remove ha] at hmem
                exact absurd (List.mem_of_mem_erase hmem) hold
          · rw [GroupEdit.apply_of_not ha] at hmem
            exact absurd hmem hold
      · rintro ⟨before, after, heq, hadm, hrem⟩
        rcases List.eq_nil_or_concat after with rfl | ⟨after, e', rfl⟩
        · obtain ⟨rfl, he⟩ := List.append_inj' heq rfl
          cases he
          rw [GroupEdit.apply_add hadm]
          exact List.mem_append_right _ (List.mem_singleton.mpr rfl)
        · rw [List.concat_eq_append] at heq hrem
          rw [← List.cons_append, ← List.append_assoc] at heq
          obtain ⟨hedits, he⟩ := List.append_inj' heq rfl
          cases he
          have hold := ih.mpr ⟨before, after, hedits, hadm,
            fun h ↦ hrem (List.mem_append_left _ h)⟩
          by_cases ha : e.Admitted (pairsAfter edits)
          · cases e with
            | add d' g' =>
                rw [GroupEdit.apply_add ha]
                exact List.mem_append_left _ hold
            | remove d' g' =>
                rw [GroupEdit.apply_remove ha]
                refine (List.mem_erase_of_ne fun h ↦ hrem ?_).mpr hold
                cases h
                exact List.mem_append_right _ (List.mem_singleton.mpr rfl)
          · rwa [GroupEdit.apply_of_not ha]

/-! ### Encoded pairs -/

theorem muxDbGid_eq {p : ℕ × ℕ} (h : ValidPair p) : muxDbGid p.1 p.2 = 1024 * p.1 + p.2 := by
  obtain ⟨hd, hg, -⟩ := h
  simp only [nlmMaxDatabaseId, nlmMaxGroupId] at hd hg
  rw [muxDbGid, show nlmMaxDatabaseId = 2 ^ 2 - 1 from rfl,
    show nlmMaxGroupId = 2 ^ 10 - 1 from rfl, Nat.and_two_pow_sub_one_eq_mod,
    Nat.and_two_pow_sub_one_eq_mod, ← Nat.shiftLeft_add_eq_or_of_lt (Nat.mod_lt _ (by decide)),
    Nat.shiftLeft_eq]
  omega

theorem muxDbGid_ne_zero {p : ℕ × ℕ} (h : ValidPair p) : muxDbGid p.1 p.2 ≠ 0 := by
  have h0 := h.2.2
  rw [muxDbGid_eq h]
  omega

theorem muxDbGid_injective {p q : ℕ × ℕ} (hp : ValidPair p) (hq : ValidPair q)
    (h : muxDbGid p.1 p.2 = muxDbGid q.1 q.2) : p = q := by
  rw [muxDbGid_eq hp, muxDbGid_eq hq] at h
  have hp' := hp.2.1
  have hq' := hq.2.1
  simp only [nlmMaxGroupId] at hp' hq'
  apply Prod.ext <;> omega

/-- The encoded pairs of a set. -/
def encoded (l : List (ℕ × ℕ)) : List ℕ := l.map fun p ↦ muxDbGid p.1 p.2

theorem mem_encoded {l : List (ℕ × ℕ)} (h : PairSet l) {p : ℕ × ℕ} (hp : ValidPair p) :
    muxDbGid p.1 p.2 ∈ encoded l ↔ p ∈ l := by
  constructor
  · intro hmem
    obtain ⟨q, hq, hqp⟩ := List.mem_map.mp hmem
    exact muxDbGid_injective (h.valid q hq) hp hqp ▸ hq
  · exact fun hmem ↦ List.mem_map.mpr ⟨p, hmem, rfl⟩

/-! ### The array holds the set -/

/-- The first entries of the array are the encoded pairs, the others are zero. -/
structure FlowGroups.Holds (s : FlowGroups) (l : List (ℕ × ℕ)) : Prop where
  ids : s.dbGroupId = encoded l ++ List.replicate (groupsPerPacket - l.length) 0
  cnt : s.dbGroupCnt = l.length
  combination : s.dbGroupCombination < 2 ^ 32

namespace FlowGroups

variable {s : FlowGroups} {l : List (ℕ × ℕ)}

theorem zero_holds : zero.Holds [] := ⟨rfl, rfl, by decide⟩

theorem Holds.take (h : s.Holds l) : s.dbGroupId.take s.dbGroupCnt = encoded l := by
  rw [h.ids, h.cnt]
  exact List.take_left' (List.length_map _)

theorem Holds.find_eq_none_iff (h : s.Holds l) (hl : PairSet l) {p : ℕ × ℕ}
    (hp : ValidPair p) : s.find (muxDbGid p.1 p.2) = none ↔ p ∉ l := by
  rw [find, h.take, List.findIdx?_eq_none_iff, ← mem_encoded hl hp]
  constructor
  · intro hall hmem
    have := hall _ hmem
    rw [beq_self_eq_true] at this
    cases this
  · intro hmem x hx
    exact beq_eq_false_iff_ne.mpr fun he ↦ hmem (he ▸ hx)

/-- The shift drops the entry at `j` and repeats the last one. -/
theorem shiftArray_spec (pre post : List ℕ) (x : ℕ) :
    ∃ y, shiftArray (pre ++ x :: post) pre.length post.length = pre ++ post ++ [y] := by
  induction post generalizing pre x with
  | nil => exact ⟨x, by rw [List.append_nil]; rfl⟩
  | cons z post ih =>
      obtain ⟨y, hy⟩ := ih (pre ++ [z]) z
      refine ⟨y, ?_⟩
      have hget : (pre ++ x :: z :: post).getD (pre.length + 1) 0 = z := by
        simp [List.getD_eq_getElem?_getD]
      have hset : (pre ++ x :: z :: post).set pre.length z = pre ++ [z] ++ z :: post := by
        simp
      rw [List.length_cons, shiftArray, hget, hset]
      rw [List.length_append, List.length_singleton] at hy
      rw [hy]
      simp

theorem Holds.add (h : s.Holds l) {d g : ℕ} (ha : (GroupEdit.add d g).Admitted l) :
    FlowGroups.Holds
      { dbGroupId := s.dbGroupId.set s.dbGroupCnt (muxDbGid d g)
        dbGroupCnt := s.dbGroupCnt + 1
        dbGroupCombination := (s.dbGroupCombination + 1) % 2 ^ 32 } (l ++ [(d, g)]) := by
  obtain ⟨n, hn⟩ : ∃ n, groupsPerPacket - l.length = n + 1 :=
    ⟨groupsPerPacket - l.length - 1, by have := ha.2.2; omega⟩
  constructor
  · have hlen : (encoded l).length = l.length := List.length_map _
    have hn' : groupsPerPacket - (l.length + 1) = n := by omega
    rw [h.ids, h.cnt, hn, List.length_append, List.length_singleton, hn', ← hlen,
      List.set_append_right _ _ (Nat.le_refl _), Nat.sub_self, List.replicate_succ,
      List.set_cons_zero, encoded, encoded, List.map_append, List.append_assoc]
    rfl
  · rw [h.cnt, List.length_append]
    rfl
  · exact Nat.mod_lt _ (by decide)

theorem Holds.remove (h : s.Holds l) (hl : PairSet l) {d g i : ℕ}
    (hv : ValidPair (d, g)) (hi : s.find (muxDbGid d g) = some i) :
    FlowGroups.Holds
      { dbGroupId :=
          (shiftArray s.dbGroupId i (groupsPerPacket - 1 - i)).set (groupsPerPacket - 1) 0
        dbGroupCnt := s.dbGroupCnt - 1
        dbGroupCombination := (s.dbGroupCombination + 1) % 2 ^ 32 } (l.erase (d, g)) := by
  have hmem : (d, g) ∈ l := by
    by_contra hmem
    rw [(h.find_eq_none_iff hl hv).mpr hmem] at hi
    cases hi
  obtain ⟨pre, post, hpre, rfl, herase⟩ := List.exists_erase_eq hmem
  have hlen := hl.length_le
  rw [List.length_append, List.length_cons] at hlen
  have hcut : s.dbGroupId = encoded pre ++ muxDbGid d g :: (encoded post ++
      List.replicate (groupsPerPacket - (pre.length + (post.length + 1))) 0) := by
    rw [h.ids, encoded, List.map_append, List.map_cons, List.append_assoc, List.length_append,
      List.length_cons]
    rfl
  have hi' : i = (encoded pre).length := by
    have hnot : muxDbGid d g ∉ encoded pre := fun hm ↦ by
      obtain ⟨q, hq, hqp⟩ := List.mem_map.mp hm
      have heq := muxDbGid_injective (hl.valid q (List.mem_append_left _ hq)) hv hqp
      exact hpre (heq ▸ hq)
    have hnone : (encoded pre).findIdx? (· == muxDbGid d g) = none := by
      rw [List.findIdx?_eq_none_iff]
      exact fun x hx ↦ beq_eq_false_iff_ne.mpr fun he ↦ hnot (he ▸ hx)
    rw [find, h.take, encoded, List.map_append, List.map_cons, List.findIdx?_append, ← encoded,
      hnone, List.findIdx?_cons, if_pos (beq_self_eq_true _)] at hi
    simpa using hi.symm
  constructor
  · have hturns : groupsPerPacket - 1 - i = (encoded post ++
        List.replicate (groupsPerPacket - (pre.length + (post.length + 1))) 0).length := by
      rw [hi', List.length_append, encoded, encoded, List.length_map, List.length_map,
        List.length_replicate]
      omega
    obtain ⟨y, hy⟩ := shiftArray_spec (encoded pre) (encoded post ++
      List.replicate (groupsPerPacket - (pre.length + (post.length + 1))) 0) (muxDbGid d g)
    have hpos : groupsPerPacket - 1 = (encoded pre ++ (encoded post ++
        List.replicate (groupsPerPacket - (pre.length + (post.length + 1))) 0)).length := by
      rw [List.length_append, ← hturns, hi', encoded, List.length_map]
      omega
    rw [hturns, hcut, hi', hy, hpos, List.set_append_right _ _ (Nat.le_refl _), Nat.sub_self,
      List.set_cons_zero, herase, List.length_append]
    have hzeros : groupsPerPacket - (pre.length + post.length) =
        groupsPerPacket - (pre.length + (post.length + 1)) + 1 := by omega
    rw [hzeros, List.replicate_succ', encoded, encoded, encoded, List.map_append,
      List.append_assoc, List.append_assoc, List.append_assoc]
  · rw [h.cnt, List.length_erase_of_mem hmem]
  · exact Nat.mod_lt _ (by decide)

/-- What one call may do to an array that holds a set. -/
def Edited (s : FlowGroups) (l : List (ℕ × ℕ)) (e : GroupEdit) (r : NlmStatus × FlowGroups) :
    Prop :=
  r.2.Holds (e.apply l) ∧
    (r.1 = .ok ∧ e.Admitted l ∧
        r.2.dbGroupCombination = (s.dbGroupCombination + 1) % 2 ^ 32 ∨
      r.1 ≠ .ok ∧ ¬e.Admitted l ∧ r.2 = s)

theorem Holds.refused (h : s.Holds l) {e : GroupEdit} {status : NlmStatus}
    (hs : status ≠ .ok) (ha : ¬e.Admitted l) : Edited s l e (status, s) := by
  refine ⟨?_, Or.inr ⟨hs, ha, rfl⟩⟩
  rw [GroupEdit.apply_of_not ha]
  exact h

theorem Holds.edited_add (h : s.Holds l) (hl : PairSet l) (d g : ℕ) :
    ∃ r, s.nlmFlowAddDatabaseAndGroup d g = some r ∧ Edited s l (.add d g) r := by
  rw [nlmFlowAddDatabaseAndGroup]
  by_cases hd : d > nlmMaxDatabaseId
  · rw [if_pos hd]
    exact ⟨_, rfl, h.refused (fun he ↦ by cases he) fun ha ↦ Nat.not_lt.mpr ha.1.1 hd⟩
  by_cases hg : g > nlmMaxGroupId ∨ g = 0
  · rw [if_neg hd, if_pos hg]
    refine ⟨_, rfl, h.refused (fun he ↦ by cases he) fun ha ↦ ?_⟩
    cases hg with
    | inl hg => exact Nat.not_lt.mpr ha.1.2.1 hg
    | inr hg => exact ha.1.2.2 hg
  have hv : ValidPair (d, g) :=
    ⟨Nat.not_lt.mp hd, Nat.not_lt.mp fun hn ↦ hg (Or.inl hn), fun hn ↦ hg (Or.inr hn)⟩
  rw [if_neg hd, if_neg hg]
  simp only []
  rw [if_neg (muxDbGid_ne_zero hv)]
  by_cases hc : s.dbGroupCnt ≥ groupsPerPacket
  · rw [if_pos hc]
    refine ⟨_, rfl, h.refused (fun he ↦ by cases he) fun ha ↦ ?_⟩
    exact Nat.not_lt.mpr (h.cnt ▸ hc) ha.2.2
  rw [if_neg hc]
  cases hf : s.find (muxDbGid d g) with
  | some i =>
      refine ⟨_, rfl, h.refused (fun he ↦ by cases he) fun ha ↦ ?_⟩
      rw [(h.find_eq_none_iff hl hv).mpr ha.2.1] at hf
      cases hf
  | none =>
      have ha : (GroupEdit.add d g).Admitted l :=
        ⟨hv, (h.find_eq_none_iff hl hv).mp hf, h.cnt ▸ Nat.not_le.mp hc⟩
      refine ⟨_, rfl, ?_, Or.inl ⟨rfl, ha, rfl⟩⟩
      rw [GroupEdit.apply_add ha]
      exact h.add ha

theorem Holds.edited_remove (h : s.Holds l) (hl : PairSet l) (d g : ℕ) :
    ∃ r, s.nlmFlowRemoveDatabaseAndGroup d g = some r ∧ Edited s l (.remove d g) r := by
  rw [nlmFlowRemoveDatabaseAndGroup]
  by_cases hd : d > nlmMaxDatabaseId
  · rw [if_pos hd]
    exact ⟨_, rfl, h.refused (fun he ↦ by cases he) fun ha ↦ Nat.not_lt.mpr ha.1.1 hd⟩
  by_cases hg : g > nlmMaxGroupId ∨ g = 0
  · rw [if_neg hd, if_pos hg]
    refine ⟨_, rfl, h.refused (fun he ↦ by cases he) fun ha ↦ ?_⟩
    cases hg with
    | inl hg => exact Nat.not_lt.mpr ha.1.2.1 hg
    | inr hg => exact ha.1.2.2 hg
  have hv : ValidPair (d, g) :=
    ⟨Nat.not_lt.mp hd, Nat.not_lt.mp fun hn ↦ hg (Or.inl hn), fun hn ↦ hg (Or.inr hn)⟩
  rw [if_neg hd, if_neg hg]
  simp only []
  rw [if_neg (muxDbGid_ne_zero hv)]
  cases hf : s.find (muxDbGid d g) with
  | none =>
      refine ⟨_, rfl, h.refused (fun he ↦ by cases he) fun ha ↦ ?_⟩
      exact (h.find_eq_none_iff hl hv).mp hf ha.2
  | some i =>
      have ha : (GroupEdit.remove d g).Admitted l := by
        refine ⟨hv, ?_⟩
        by_contra hmem
        rw [(h.find_eq_none_iff hl hv).mpr hmem] at hf
        cases hf
      refine ⟨_, rfl, ?_, Or.inl ⟨rfl, ha, rfl⟩⟩
      rw [GroupEdit.apply_remove ha]
      exact h.remove hl hv hf

theorem Holds.edit (h : s.Holds l) (hl : PairSet l) (e : GroupEdit) :
    ∃ r, s.edit e = some r ∧ Edited s l e r := by
  cases e with
  | add d g => exact h.edited_add hl d g
  | remove d g => exact h.edited_remove hl d g

theorem Holds.run (h : s.Holds l) (hl : PairSet l) (edits : List GroupEdit) :
    ∃ s', s.run edits = some s' ∧ s'.Holds (edits.foldl GroupEdit.apply l) := by
  induction edits generalizing s l with
  | nil => exact ⟨s, rfl, h⟩
  | cons e edits ih =>
      obtain ⟨r, hr, hedited⟩ := h.edit hl e
      obtain ⟨s', hs', hholds⟩ := ih hedited.1 (hl.apply e)
      refine ⟨s', ?_, hholds⟩
      rw [FlowGroups.run, hr]
      exact hs'

/-- The flow of the packet functions that has these groups. -/
def toFlow (s : FlowGroups) (flow : NlmFlow) : NlmFlow :=
  { flow with
    dbGroupId := s.dbGroupId.take s.dbGroupCnt
    dbGroupCombination := s.dbGroupCombination }

/-- Entries past the count are copied into an FD as zeros. -/
theorem Holds.getD_toFlow (h : s.Holds l) (flow : NlmFlow) (i : ℕ) :
    (s.toFlow flow).dbGroupId.getD i 0 = s.dbGroupId.getD i 0 := by
  have hlen : (encoded l).length = l.length := List.length_map _
  rw [toFlow, h.take, h.ids]
  change (encoded l).getD i 0 = _
  by_cases hi : i < l.length
  · rw [List.getD_append _ _ _ _ (hlen ▸ hi)]
  · rw [List.getD_append_right _ _ _ _ (by omega), List.getD_eq_default _ _ (by omega)]
    simp only [List.getD_eq_getElem?_getD, List.getElem?_replicate]
    split <;> rfl

end FlowGroups

/-- The flow group set: after every sequence of calls the array holds the pairs added
and not removed since, in the order of insertion, and the next call succeeds exactly
where the set admits it. -/
theorem flowGroups_run (edits : List GroupEdit) :
    (∀ p q : ℕ × ℕ, ValidPair p → ValidPair q →
        muxDbGid p.1 p.2 ≠ 0 ∧ (muxDbGid p.1 p.2 = muxDbGid q.1 q.2 → p = q)) ∧
      (pairsAfter edits).Nodup ∧ (pairsAfter edits).length ≤ groupsPerPacket ∧
        (∀ p ∈ pairsAfter edits, ValidPair p) ∧
          (∀ d g, (d, g) ∈ pairsAfter edits ↔
            ∃ before after, edits = before ++ .add d g :: after ∧
              (GroupEdit.add d g).Admitted (pairsAfter before) ∧ .remove d g ∉ after) ∧
            ∃ s, FlowGroups.zero.run edits = some s ∧ s.dbGroupCnt = (pairsAfter edits).length ∧
              s.dbGroupId = (pairsAfter edits).map (fun p ↦ muxDbGid p.1 p.2) ++
                List.replicate (groupsPerPacket - (pairsAfter edits).length) 0 ∧
                ∀ e, ∃ status s', s.edit e = some (status, s') ∧
                  (status = .ok ↔ e.Admitted (pairsAfter edits)) ∧
                    (status ≠ .ok → s' = s) ∧
                      (s'.dbGroupCombination ≠ s.dbGroupCombination ↔ status = .ok) := by
  have hset := pairSet_pairsAfter edits
  refine ⟨fun p q hp hq ↦ ⟨muxDbGid_ne_zero hp, muxDbGid_injective hp hq⟩, hset.nodup,
    hset.length_le, hset.valid, mem_pairsAfter edits, ?_⟩
  have hnil : PairSet [] := pairSet_pairsAfter []
  obtain ⟨s, hs, hholds⟩ := FlowGroups.zero_holds.run hnil edits
  refine ⟨s, hs, hholds.cnt, hholds.ids, fun e ↦ ?_⟩
  obtain ⟨⟨status, s'⟩, he, -, hcase⟩ := hholds.edit hset e
  refine ⟨status, s', he, ?_⟩
  have hlt := hholds.combination
  rcases hcase with ⟨hok, ha, hcomb⟩ | ⟨hok, ha, hsame⟩
  · refine ⟨⟨fun _ ↦ ha, fun _ ↦ hok⟩, fun hn ↦ absurd hok hn, fun _ ↦ hok, fun _ ↦ ?_⟩
    simp only [] at hcomb
    omega
  · simp only [] at hok hsame
    refine ⟨⟨fun h ↦ absurd h hok, fun h ↦ absurd h ha⟩, fun _ ↦ hsame, fun h ↦ ?_,
      fun h ↦ absurd h hok⟩
    exact absurd (congrArg FlowGroups.dbGroupCombination hsame) h

/-- A pair added twice, another one added, and the first one removed. -/
example :
    FlowGroups.zero.run [.add 1 5, .add 1 5, .add 3 1023, .remove 1 5] =
      some ⟨[4095, 0, 0, 0, 0, 0], 1, 3⟩ := by decide

end NetL7.Packet
