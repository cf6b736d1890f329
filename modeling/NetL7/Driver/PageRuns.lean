import NetL7.Lib.MaximalRuns
import Mathlib.Algebra.Order.Ring.Int

/-!
# Runs of pages

`find_free_chunks` sorts the physical addresses of the pages it got and cuts the table where two
neighbours are not a page apart. `compare_addresses` returns the low 32 bits of a difference
of 64 bits as an `int`, so the order is the one of the addresses only while the low 32 bits of
the distance of any two of them are a positive `int`.
-/

namespace NetL7.Driver

open NetL7.Lib

/-- `PAGE_SIZE` -/
abbrev pageSize : ℕ := 4096

/-- `compare_addresses`: a difference of `long`s returned as an `int`. -/
def compareAddresses (a b : BitVec 64) : ℤ := ((a - b).setWidth 32).toInt

/-- What `find_free_chunks` writes at the start of a run of pages. -/
structure Segment where
  start : BitVec 64
  npages : ℕ
  deriving DecidableEq

/-- The loop over the sorted table behind its first entry. -/
def cutRuns : BitVec 64 → BitVec 64 → ℕ → List (BitVec 64) → List Segment
  | start, _, npages, [] => [⟨start, npages⟩]
  | start, prev, npages, memory :: rest =>
    if prev + BitVec.ofNat 64 pageSize = memory then cutRuns start memory (npages + 1) rest
    else ⟨start, npages⟩ :: cutRuns memory memory 1 rest

/-- The segments of one batch. The scratch page is zeroed, so an empty batch has the entry 0. -/
def cutSegments : List (BitVec 64) → List Segment
  | [] => cutRuns 0 0 1 []
  | page :: rest => cutRuns page page 1 rest

/-- The addresses of a batch as numbers. -/
def pageSet (pages : List (BitVec 64)) : Set ℕ := {a | ∃ p ∈ pages, p.toNat = a}

/-- The comparison orders the pages by their addresses. -/
def OrdersPages (pages : List (BitVec 64)) : Prop :=
  ∀ a ∈ pages, ∀ b ∈ pages,
    (compareAddresses a b < 0 ↔ a < b) ∧ (compareAddresses a b = 0 ↔ a = b)

/-- What the loop cuts from any table that a sort by the comparison can leave. -/
def CutsMaximalRuns (pages : List (BitVec 64)) : Prop :=
  ∀ table, table.Perm pages → table.Pairwise (compareAddresses · · ≤ 0) →
    (cutSegments table).Nodup ∧ ∀ start npages,
      (⟨start, npages⟩ ∈ cutSegments table ↔
        MaximalRun (pageSet pages) pageSize start.toNat npages)

/-- No two pages are so far apart that the low 32 bits of the distance are not a positive
`int`. -/
def CloseInLowBits (pages : List (BitVec 64)) : Prop :=
  ∀ a ∈ pages, ∀ b ∈ pages, a < b →
    0 < (b.toNat - a.toNat) % 2 ^ 32 ∧ (b.toNat - a.toNat) % 2 ^ 32 < 2 ^ 31

instance (pages : List (BitVec 64)) : Decidable (CloseInLowBits pages) :=
  inferInstanceAs (Decidable (∀ a ∈ pages, ∀ b ∈ pages, a < b → _ ∧ _))

theorem toNat_low_sub (a b : BitVec 64) :
    ((a - b).setWidth 32).toNat = (2 ^ 64 - b.toNat + a.toNat) % 2 ^ 32 := by
  rw [BitVec.toNat_setWidth, BitVec.toNat_sub]
  omega

theorem compareAddresses_of_lt {a b : BitVec 64} (h : a < b) :
    (compareAddresses a b < 0 ↔ 0 < (b.toNat - a.toNat) % 2 ^ 32 ∧
        (b.toNat - a.toNat) % 2 ^ 32 ≤ 2 ^ 31) ∧
      (compareAddresses a b = 0 ↔ (b.toNat - a.toNat) % 2 ^ 32 = 0) ∧
      (compareAddresses b a < 0 ↔ 2 ^ 31 ≤ (b.toNat - a.toNat) % 2 ^ 32) ∧
      (compareAddresses b a = 0 ↔ (b.toNat - a.toNat) % 2 ^ 32 = 0) := by
  have hlt : a.toNat < b.toNat := h
  -- the two differences are complements modulo 2 ^ 32
  have ha := toNat_low_sub a b
  have hb := toNat_low_sub b a
  have hb64 : b.toNat < 2 ^ 64 := b.isLt
  simp only [compareAddresses, BitVec.toInt_eq_toNat_cond, ha, hb]
  refine ⟨?_, ?_, ?_, ?_⟩
  all_goals
    constructor
    all_goals
      intro _
      split_ifs at *
      all_goals omega

theorem compareAddresses_self (a : BitVec 64) : compareAddresses a a = 0 := by
  simp [compareAddresses]

theorem ordersPages_iff (pages : List (BitVec 64)) :
    OrdersPages pages ↔ CloseInLowBits pages := by
  constructor
  · intro h a ha b hb hlt
    obtain ⟨hneg, -, hneg', -⟩ := compareAddresses_of_lt hlt
    have hpos := hneg.mp ((h a ha b hb).1.mpr hlt)
    have hnot : ¬ compareAddresses b a < 0 := fun hlt' ↦ BitVec.lt_asymm hlt ((h b hb a ha).1.mp hlt')
    rw [hneg'] at hnot
    omega
  · intro h a ha b hb
    rcases BitVec.lt_trichotomy a b with hlt | heq | hgt
    · obtain ⟨hneg, hzero, -, -⟩ := compareAddresses_of_lt hlt
      have hclose := h a ha b hb hlt
      have hne : a ≠ b := BitVec.ne_of_lt hlt
      simp only [hneg, hzero, hlt, hne, iff_true, iff_false]
      omega
    · rw [heq]
      simp [compareAddresses_self]
    · obtain ⟨-, -, hneg, hzero⟩ := compareAddresses_of_lt hgt
      have hclose := h b hb a ha hgt
      have hne : a ≠ b := (BitVec.ne_of_lt hgt).symm
      have hnot : ¬ a < b := BitVec.lt_asymm hgt
      simp only [hneg, hzero, hnot, hne, iff_false]
      omega

theorem OrdersPages.sorted {pages table : List (BitVec 64)} (h : OrdersPages pages)
    (hnodup : pages.Nodup) (hperm : table.Perm pages)
    (hsort : table.Pairwise (compareAddresses · · ≤ 0)) : table.Pairwise (· < ·) := by
  have hne : table.Pairwise (· ≠ ·) := hperm.nodup_iff.mpr hnodup
  apply (hsort.and hne).imp_of_mem
  rintro a b ha hb ⟨hle, hab⟩
  have hcmp := h a (hperm.mem_iff.mp ha) b (hperm.mem_iff.mp hb)
  apply hcmp.1.mp
  have hzero : compareAddresses a b ≠ 0 := fun hzero ↦ hab (hcmp.2.mp hzero)
  omega

/-- What is known when the loop is at the end of a run of `npages` pages. -/
structure AtRun (S : Set ℕ) (start prev : BitVec 64) (npages : ℕ) (rest : List (BitVec 64)) :
    Prop where
  pos : 0 < npages
  prev_eq : prev.toNat = start.toNat + 4096 * (npages - 1)
  mem : ∀ k < npages, start.toNat + 4096 * k ∈ S
  before : ∀ a ∈ S, a + 4096 ≠ start.toNat
  behind : ∀ a ∈ S, prev.toNat < a → ∃ p ∈ rest, p.toNat = a
  rest_mem : ∀ p ∈ rest, p.toNat ∈ S
  sorted : rest.Pairwise (· < ·)
  lt : ∀ p ∈ rest, prev < p
  aligned : ∀ a ∈ S, 4096 ∣ a

namespace AtRun

variable {S : Set ℕ} {start prev memory : BitVec 64} {npages : ℕ} {rest : List (BitVec 64)}

theorem prev_mem (h : AtRun S start prev npages rest) : prev.toNat ∈ S := by
  rw [h.prev_eq]
  exact h.mem _ (Nat.sub_lt h.pos Nat.one_pos)

theorem behind_next (h : AtRun S start prev npages (memory :: rest)) {a : ℕ} (ha : a ∈ S)
    (hgt : memory.toNat < a) : ∃ p ∈ rest, p.toNat = a := by
  have hlt : prev.toNat < memory.toNat := h.lt memory List.mem_cons_self
  obtain ⟨p, hp, rfl⟩ := h.behind a ha (hlt.trans hgt)
  cases hp with
  | head => exact absurd hgt (Nat.lt_irrefl _)
  | tail _ hp => exact ⟨p, hp, rfl⟩

theorem extend (h : AtRun S start prev npages (memory :: rest))
    (hnext : prev + 4096#64 = memory) :
    AtRun S start memory (npages + 1) rest := by
  have hlt : prev.toNat < memory.toNat := h.lt memory List.mem_cons_self
  have hmem : memory.toNat = prev.toNat + 4096 := by
    have := congrArg BitVec.toNat hnext
    simp only [BitVec.toNat_add, BitVec.toNat_ofNat] at this
    omega
  have hpos := h.pos
  have hprev := h.prev_eq
  constructor
  · omega
  · omega
  · intro k hk
    by_cases hlast : k = npages
    · have hk' : start.toNat + 4096 * k = memory.toNat := by omega
      rw [hk']
      exact h.rest_mem memory List.mem_cons_self
    · exact h.mem k (by omega)
  · exact h.before
  · exact fun a ha hgt ↦ h.behind_next ha hgt
  · exact fun p hp ↦ h.rest_mem p (List.mem_cons_of_mem _ hp)
  · exact h.sorted.of_cons
  · exact (List.pairwise_cons.mp h.sorted).1
  · exact h.aligned

/-- A page further away is not the neighbour of any page before it. -/
theorem gap (h : AtRun S start prev npages (memory :: rest))
    (hnext : prev + 4096#64 ≠ memory) :
    prev.toNat + 4096 < memory.toNat := by
  have hlt : prev.toNat < memory.toNat := h.lt memory List.mem_cons_self
  have hprev := h.aligned _ h.prev_mem
  have hmem := h.aligned _ (h.rest_mem memory List.mem_cons_self)
  have hne : memory.toNat ≠ prev.toNat + 4096 := by
    intro heq
    apply hnext
    apply BitVec.eq_of_toNat_eq
    have := memory.isLt
    simp only [BitVec.toNat_add, BitVec.toNat_ofNat]
    omega
  omega

theorem maximalRun (h : AtRun S start prev npages rest)
    (hend : ∀ p ∈ rest, prev.toNat + 4096 < p.toNat) :
    MaximalRun S 4096 start.toNat npages where
  pos := h.pos
  mem := h.mem
  before := h.before
  after := by
    intro hmem
    have hpos := h.pos
    have hprev := h.prev_eq
    obtain ⟨p, hp, heq⟩ := h.behind _ hmem (by omega)
    have := hend p hp
    omega

theorem restart (h : AtRun S start prev npages (memory :: rest))
    (hgap : prev.toNat + 4096 < memory.toNat) : AtRun S memory memory 1 rest := by
  have hmem := h.rest_mem memory List.mem_cons_self
  have hsorted := List.pairwise_cons.mp h.sorted
  constructor
  · exact Nat.one_pos
  · omega
  · intro k hk
    have : k = 0 := by omega
    simpa [this] using hmem
  · intro a ha heq
    obtain ⟨p, hp, rfl⟩ := h.behind a ha (by omega)
    cases hp with
    | head => omega
    | tail _ hp =>
      have : memory.toNat < p.toNat := hsorted.1 p hp
      omega
  · exact fun a ha hgt ↦ h.behind_next ha hgt
  · exact fun p hp ↦ h.rest_mem p (List.mem_cons_of_mem _ hp)
  · exact hsorted.2
  · exact hsorted.1
  · exact h.aligned

theorem index (h : AtRun S start prev npages rest) {a : ℕ} (ha : a ∈ S) (hge : start.toNat ≤ a)
    (hle : a ≤ prev.toNat) : ∃ k < npages, a = start.toNat + 4096 * k := by
  have hstart := h.aligned _ (by simpa using h.mem 0 h.pos)
  have haligned := h.aligned a ha
  have hprev := h.prev_eq
  have hpos := h.pos
  exact ⟨(a - start.toNat) / 4096, by omega, by omega⟩

end AtRun

/-- What the loop cuts from the pages that start at `start`. -/
structure CutOk (S : Set ℕ) (start : BitVec 64) (segments : List Segment) : Prop where
  maximal : ∀ seg ∈ segments, MaximalRun S pageSize seg.start.toNat seg.npages
  cover : ∀ a ∈ S, start.toNat ≤ a → ∃ seg ∈ segments, ∃ k < seg.npages,
    a = seg.start.toNat + pageSize * k
  le : ∀ seg ∈ segments, start ≤ seg.start
  nodup : segments.Nodup

namespace AtRun

variable {S : Set ℕ} {start prev memory : BitVec 64} {npages : ℕ} {rest : List (BitVec 64)}

theorem cutOk_last (h : AtRun S start prev npages []) : CutOk S start [⟨start, npages⟩] := by
  have hlast : ∀ a ∈ S, a ≤ prev.toNat := by
    intro a ha
    by_contra hgt
    obtain ⟨p, hp, -⟩ := h.behind a ha (by omega)
    cases hp
  constructor
  · intro seg hseg
    rw [List.mem_singleton.mp hseg]
    exact h.maximalRun (by simp)
  · intro a ha hge
    obtain ⟨k, hk, heq⟩ := h.index ha hge (hlast a ha)
    exact ⟨_, List.mem_singleton_self _, k, hk, heq⟩
  · intro seg hseg
    rw [List.mem_singleton.mp hseg]
    exact BitVec.le_refl start
  · exact List.pairwise_singleton _ _

theorem cutOk_cons {segments : List Segment} (h : AtRun S start prev npages (memory :: rest))
    (hgap : prev.toNat + 4096 < memory.toNat) (htail : CutOk S memory segments) :
    CutOk S start (⟨start, npages⟩ :: segments) := by
  have hfirst : ∀ p ∈ memory :: rest, memory.toNat ≤ p.toNat := by
    intro p hp
    cases hp with
    | head => exact Nat.le_refl _
    | tail _ hp => exact BitVec.le_of_lt ((List.pairwise_cons.mp h.sorted).1 p hp)
  have hstart : start.toNat < memory.toNat := by
    have := h.prev_eq
    omega
  constructor
  · intro seg hseg
    cases hseg with
    | head => exact h.maximalRun fun p hp ↦ hgap.trans_le (hfirst p hp)
    | tail _ hseg => exact htail.maximal seg hseg
  · intro a ha hge
    by_cases hle : a ≤ prev.toNat
    · obtain ⟨k, hk, heq⟩ := h.index ha hge hle
      exact ⟨_, List.mem_cons_self, k, hk, heq⟩
    · obtain ⟨p, hp, rfl⟩ := h.behind a ha (by omega)
      obtain ⟨seg, hseg, hk⟩ := htail.cover _ ha (hfirst p hp)
      exact ⟨seg, List.mem_cons_of_mem _ hseg, hk⟩
  · intro seg hseg
    cases hseg with
    | head => exact BitVec.le_refl start
    | tail _ hseg =>
      have : memory.toNat ≤ seg.start.toNat := htail.le seg hseg
      exact BitVec.le_def.mpr (by omega)
  · apply List.nodup_cons.mpr
    constructor
    · intro hmem
      have : memory.toNat ≤ start.toNat := htail.le _ hmem
      omega
    · exact htail.nodup

theorem cutOk (h : AtRun S start prev npages rest) :
    CutOk S start (cutRuns start prev npages rest) := by
  induction rest generalizing start prev npages with
  | nil => exact h.cutOk_last
  | cons memory rest ih =>
    rw [cutRuns]
    by_cases hnext : prev + BitVec.ofNat 64 pageSize = memory
    · rw [if_pos hnext]
      exact ih (h.extend hnext)
    · rw [if_neg hnext]
      have hgap := h.gap hnext
      exact h.cutOk_cons hgap (ih (h.restart hgap))

end AtRun

theorem first_le {pages rest : List (BitVec 64)} {page : BitVec 64}
    (hperm : (page :: rest).Perm pages) (hsorted : (page :: rest).Pairwise (· < ·)) {a : ℕ}
    (ha : a ∈ pageSet pages) : page.toNat ≤ a := by
  obtain ⟨p, hp, rfl⟩ := ha
  cases hperm.mem_iff.mpr hp with
  | head => exact Nat.le_refl _
  | tail _ hp => exact BitVec.le_of_lt ((List.pairwise_cons.mp hsorted).1 p hp)

theorem atRun_first {pages rest : List (BitVec 64)} {page : BitVec 64}
    (hperm : (page :: rest).Perm pages) (hsorted : (page :: rest).Pairwise (· < ·))
    (haligned : ∀ p ∈ pages, pageSize ∣ p.toNat) :
    AtRun (pageSet pages) page page 1 rest := by
  have hmem : ∀ p, p ∈ pages ↔ p ∈ page :: rest := fun p ↦ hperm.mem_iff.symm
  have hlt := (List.pairwise_cons.mp hsorted).1
  constructor
  · exact Nat.one_pos
  · simp
  · intro k hk
    have : k = 0 := by omega
    exact ⟨page, (hmem page).mpr List.mem_cons_self, by simp [this]⟩
  · intro a ha heq
    have := first_le hperm hsorted ha
    omega
  · rintro a ⟨p, hp, rfl⟩ hgt
    cases (hmem p).mp hp with
    | head => omega
    | tail _ hp => exact ⟨p, hp, rfl⟩
  · exact fun p hp ↦ ⟨p, (hmem p).mpr (List.mem_cons_of_mem _ hp), rfl⟩
  · exact hsorted.of_cons
  · exact hlt
  · rintro a ⟨p, hp, rfl⟩
    exact haligned p hp

theorem cutsMaximalRuns_of_ordersPages {pages : List (BitVec 64)} (hne : pages ≠ [])
    (hnodup : pages.Nodup) (haligned : ∀ p ∈ pages, pageSize ∣ p.toNat)
    (h : OrdersPages pages) : CutsMaximalRuns pages := by
  intro table hperm hsort
  have hsorted := h.sorted hnodup hperm hsort
  cases table with
  | nil => exact absurd hperm.nil_eq.symm hne
  | cons page rest =>
    have hat := atRun_first hperm hsorted haligned
    have hok := hat.cutOk
    refine ⟨hok.nodup, ?_⟩
    intro start npages
    have hmaximal : ∀ seg ∈ {seg | seg ∈ cutRuns page page 1 rest},
        MaximalRun (pageSet pages) pageSize seg.start.toNat seg.npages := hok.maximal
    rw [maximalRun_iff hmaximal fun a ha ↦ hok.cover a ha (first_le hperm hsorted ha)]
    constructor
    · exact fun h ↦ ⟨_, h, rfl, rfl⟩
    · rintro ⟨seg, hseg, hstart, rfl⟩
      rwa [← BitVec.eq_of_toNat_eq hstart]

/-- Of no pages at all the loop makes a segment of one page at address 0. -/
theorem not_cutsMaximalRuns_nil : ¬ CutsMaximalRuns [] := by
  intro h
  obtain ⟨-, hruns⟩ := h [] (List.Perm.refl []) List.Pairwise.nil
  have := (hruns 0 1).mp (by simp [cutSegments, cutRuns])
  obtain ⟨p, hp, -⟩ := this.start_mem
  cases hp

theorem ordersPages_and_cuts_iff {pages : List (BitVec 64)} (hnodup : pages.Nodup)
    (haligned : ∀ p ∈ pages, pageSize ∣ p.toNat) :
    OrdersPages pages ∧ CutsMaximalRuns pages ↔ pages ≠ [] ∧ CloseInLowBits pages := by
  rw [← ordersPages_iff]
  constructor
  · rintro ⟨horder, hcuts⟩
    refine ⟨?_, horder⟩
    rintro rfl
    exact not_cutsMaximalRuns_nil hcuts
  · rintro ⟨hne, horder⟩
    exact ⟨horder, cutsMaximalRuns_of_ordersPages hne hnodup haligned horder⟩

/-- All pages lie in the first 2 gigabytes. -/
theorem closeInLowBits_of_lt {pages : List (BitVec 64)} (h : ∀ p ∈ pages, p.toNat < 2 ^ 31) :
    CloseInLowBits pages := by
  intro a ha b hb hlt
  have hbound := h b hb
  rw [BitVec.lt_def] at hlt
  omega

/-- A batch with two runs and a page of its own, in the order in which the pages were got. -/
theorem ordersPages_and_cuts_iff_sample :
    OrdersPages [0x7000, 0x2000, 0x40000000, 0x1000, 0x8000, 0x3000] ∧
      CutsMaximalRuns [0x7000, 0x2000, 0x40000000, 0x1000, 0x8000, 0x3000] :=
  (ordersPages_and_cuts_iff (by decide) (by simp [pageSize])).mpr
    ⟨by decide, closeInLowBits_of_lt (by simp)⟩

/-- Two pages four gigabytes apart compare as equal. -/
theorem pages_four_gigabytes_apart : ¬ OrdersPages [0x1000, 0x100001000] := by
  intro h
  have hzero := (h 0x1000 (by simp) 0x100001000 (by simp)).2
  revert hzero
  decide

end NetL7.Driver
