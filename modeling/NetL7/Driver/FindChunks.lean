import NetL7.Driver.FixedMemory
import Mathlib.Data.List.Flatten

/-!
# The search for free chunks

`find_free_chunks` collects pages in batches of the size of its scratch table, cuts each sorted
batch into segments and keeps the long ones in a list that is sorted by length. Every segment
stands for the pages from its start on. A batch without pages is cut as well, and the zeroed
table then gives a segment for page 0, which nobody allocated.
-/

namespace NetL7.Driver

/-- The entries of the scratch table. -/
def maxIndex : ℕ := 2 * 1024 * 1024 / 8

/-- `page_threshold` -/
def pageThreshold : ℕ := 2 * 1024 * 1024 / pageSize

/-- The pages that `release_chunks` frees for one segment. -/
def Segment.pages (s : Segment) : List (BitVec 64) :=
  (List.range s.npages).map fun i ↦ s.start + BitVec.ofNat 64 (i * pageSize)

/-- `release_chunks`: the pages in the order in which they are freed. -/
def releaseChunks (list : List Segment) : List (BitVec 64) := list.flatMap Segment.pages

/-- `insert_into_sorted_list` -/
def insertIntoSortedList (element : Segment) : List Segment → List Segment
  | [] => [element]
  | cur :: rest =>
    if cur.npages < element.npages then element :: cur :: rest
    else cur :: insertIntoSortedList element rest

/-- The two lists of `find_free_chunks`. -/
structure ChunkLists where
  good : List Segment
  free : List Segment

/-- What the search does with one segment. -/
def ChunkLists.add (lists : ChunkLists) (segment : Segment) : ChunkLists :=
  if segment.npages < pageThreshold then { lists with free := segment :: lists.free }
  else { lists with good := insertIntoSortedList segment lists.good }

/-- The batches from `restart` on. `pages` are the pages that the kernel still hands out. -/
def searchBatches (sort : List (BitVec 64) → List (BitVec 64)) (pages : List (BitVec 64))
    (lists : ChunkLists) : ChunkLists :=
  let lists := (cutSegments (sort (pages.take maxIndex))).foldl ChunkLists.add lists
  if maxIndex ≤ pages.length then searchBatches sort (pages.drop maxIndex) lists else lists
termination_by pages.length
decreasing_by
  simp only [maxIndex] at *
  rw [List.length_drop]
  omega

/-- The lists at the end of the search. -/
def searchedLists (sort : List (BitVec 64) → List (BitVec 64)) (pages : List (BitVec 64)) :
    ChunkLists :=
  searchBatches sort pages ⟨[], []⟩

/-- The pages counted in a list of segments. -/
def countPages (list : List Segment) : ℕ := (list.map Segment.npages).sum

/-- What `find_free_chunks` leaves: its result, the pages that it freed, and whether it freed the
scratch table. -/
structure FindResult where
  result : Except ChunkErrno (List Segment)
  freed : List (BitVec 64)
  tableFreed : Bool

/-- `find_free_chunks`. `table` tells if there is memory for the scratch table; the two totals
are `int`s. -/
def findFreeChunks (sort : List (BitVec 64) → List (BitVec 64)) (table : Bool)
    (pages : List (BitVec 64)) : FindResult :=
  if table then
    let lists := searchedLists sort pages
    let freed := releaseChunks lists.free
    if pages.length % 2 ^ 32 = (countPages lists.good + countPages lists.free) % 2 ^ 32 then
      ⟨.ok lists.good, freed, true⟩
    else ⟨.error .efault, freed, false⟩
  else ⟨.error .enomem, [], false⟩

/-- The segments of all batches. -/
def batchSegments (sort : List (BitVec 64) → List (BitVec 64)) (pages : List (BitVec 64)) :
    List Segment :=
  cutSegments (sort (pages.take maxIndex)) ++
    if maxIndex ≤ pages.length then batchSegments sort (pages.drop maxIndex) else []
termination_by pages.length
decreasing_by
  simp only [maxIndex] at *
  rw [List.length_drop]
  omega

/-- The runs that are long enough, the longest first. -/
def longRuns (segments : List Segment) : List Segment :=
  (segments.filter (pageThreshold ≤ ·.npages)).foldl (fun l s ↦ insertIntoSortedList s l) []

/-! ### Segments and their pages -/

theorem pages_length (s : Segment) : s.pages.length = s.npages := by
  simp [Segment.pages]

theorem releaseChunks_length (list : List Segment) :
    (releaseChunks list).length = countPages list := by
  simp [releaseChunks, countPages, List.length_flatMap, pages_length]

theorem pages_succ (start : BitVec 64) (npages : ℕ) :
    (⟨start, npages + 1⟩ : Segment).pages =
      (⟨start, npages⟩ : Segment).pages ++ [start + BitVec.ofNat 64 (npages * pageSize)] := by
  simp [Segment.pages, List.range_succ]

/-- The loop cuts the table without loss. -/
theorem releaseChunks_cutRuns (start : BitVec 64) (n : ℕ) (rest : List (BitVec 64)) :
    releaseChunks (cutRuns start (start + BitVec.ofNat 64 (n * pageSize)) (n + 1) rest) =
      (⟨start, n + 1⟩ : Segment).pages ++ rest := by
  induction rest generalizing start n with
  | nil => simp [cutRuns, releaseChunks]
  | cons memory rest ih =>
    have hnext : start + BitVec.ofNat 64 (n * pageSize) + BitVec.ofNat 64 pageSize =
        start + BitVec.ofNat 64 ((n + 1) * pageSize) := by
      rw [BitVec.add_assoc, ← BitVec.ofNat_add, ← Nat.add_one_mul]
    rw [cutRuns, hnext]
    split_ifs with hrun
    · -- the run goes on
      rw [← hrun, ih, pages_succ start (n + 1), List.append_assoc]
      rfl
    · have hih := ih memory 0
      simp only [Nat.zero_mul, BitVec.add_zero, Nat.zero_add] at hih
      have hcons : ∀ (s : Segment) l, releaseChunks (s :: l) = s.pages ++ releaseChunks l :=
        fun s l ↦ List.flatMap_cons
      rw [hcons, hih]
      simp [Segment.pages]

theorem releaseChunks_cutSegments (table : List (BitVec 64)) :
    releaseChunks (cutSegments table) = if table = [] then [0] else table := by
  cases table with
  | nil => rfl
  | cons page rest =>
    have h := releaseChunks_cutRuns page 0 rest
    simp only [Nat.zero_mul, BitVec.add_zero, Nat.zero_add] at h
    rw [cutSegments, h]
    simp [Segment.pages]

/-! ### The two lists -/

theorem insertIntoSortedList_perm (element : Segment) (list : List Segment) :
    (insertIntoSortedList element list).Perm (element :: list) := by
  induction list with
  | nil => exact .refl _
  | cons cur rest ih =>
    rw [insertIntoSortedList]
    split_ifs
    · exact .refl _
    · exact (ih.cons cur).trans (.swap element cur rest)

namespace ChunkLists

/-- The segments of both lists. -/
def segments (lists : ChunkLists) : List Segment := lists.good ++ lists.free

theorem add_perm (lists : ChunkLists) (segment : Segment) :
    (lists.add segment).segments.Perm (segment :: lists.segments) := by
  rw [add]
  split_ifs
  · exact List.perm_middle
  · exact (insertIntoSortedList_perm segment lists.good).append_right lists.free

theorem foldl_add_perm (segs : List Segment) (lists : ChunkLists) :
    (segs.foldl add lists).segments.Perm (segs ++ lists.segments) := by
  induction segs generalizing lists with
  | nil => exact .refl _
  | cons s segs ih =>
    exact ((ih (lists.add s)).trans ((lists.add_perm s).append_left segs)).trans
      List.perm_middle

theorem foldl_add_good (segs : List Segment) (lists : ChunkLists) :
    (segs.foldl add lists).good =
      (segs.filter (pageThreshold ≤ ·.npages)).foldl (fun l s ↦ insertIntoSortedList s l)
        lists.good := by
  induction segs generalizing lists with
  | nil => rfl
  | cons s segs ih =>
    rw [List.foldl_cons, ih, add]
    by_cases hshort : s.npages < pageThreshold
    · rw [if_pos hshort, List.filter_cons_of_neg (by simpa using hshort)]
    · rw [if_neg hshort, List.filter_cons_of_pos (by simpa using hshort), List.foldl_cons]

end ChunkLists

open scoped List

section Search

variable {sort : List (BitVec 64) → List (BitVec 64)}

theorem searchBatches_eq (pages : List (BitVec 64)) (lists : ChunkLists) :
    searchBatches sort pages lists = (batchSegments sort pages).foldl ChunkLists.add lists := by
  induction pages, lists using searchBatches.induct sort with
  | case1 pages lists lists' hfull ih =>
    rw [searchBatches, batchSegments, if_pos hfull, if_pos hfull, List.foldl_append]
    exact ih
  | case2 pages lists hlast =>
    rw [searchBatches, batchSegments, if_neg hlast, if_neg hlast, List.append_nil]

theorem searchedLists_good (pages : List (BitVec 64)) :
    (searchedLists sort pages).good = longRuns (batchSegments sort pages) := by
  rw [searchedLists, searchBatches_eq, ChunkLists.foldl_add_good]
  rfl

/-- The pages of all segments: those that were allocated, and page 0 if the last batch is
empty. -/
theorem releaseChunks_batchSegments (hsort : ∀ table, (sort table).Perm table)
    (pages : List (BitVec 64)) :
    (releaseChunks (batchSegments sort pages)).Perm
      (pages ++ if maxIndex ∣ pages.length then [0] else []) := by
  induction pages using batchSegments.induct with
  | case1 pages ih =>
    have hperm := hsort (pages.take maxIndex)
    rw [batchSegments, releaseChunks, List.flatMap_append, ← releaseChunks,
      releaseChunks_cutSegments]
    by_cases hfull : maxIndex ≤ pages.length
    · -- a full batch is not empty, and the rest of the pages is one batch shorter
      have hne : sort (pages.take maxIndex) ≠ [] := by
        intro hnil
        have hlength := hperm.length_eq
        rw [hnil, List.length_take, Nat.min_eq_left hfull] at hlength
        exact absurd hlength (by decide)
      have hdvd : maxIndex ∣ (pages.drop maxIndex).length ↔ maxIndex ∣ pages.length := by
        rw [List.length_drop, Nat.dvd_sub_iff_left hfull (Nat.dvd_refl _)]
      have hrest := ih hfull
      simp only [hdvd] at hrest
      rw [if_pos hfull, if_neg hne]
      calc
        _ ~ pages.take maxIndex ++ (pages.drop maxIndex ++ _) := hperm.append hrest
        _ = _ := by rw [← List.append_assoc, List.take_append_drop]
    · rw [if_neg hfull]
      have htake : pages.take maxIndex = pages := List.take_of_length_le (Nat.le_of_not_le hfull)
      rw [htake] at hperm ⊢
      cases pages with
      | nil =>
        rw [hperm.eq_nil]
        simp
      | cons page rest =>
        have hne : sort (page :: rest) ≠ [] := fun hnil ↦ by simp [hnil] at hperm
        have hdvd : ¬ maxIndex ∣ (page :: rest).length :=
          Nat.not_dvd_of_pos_of_lt (Nat.succ_pos _) (Nat.lt_of_not_le hfull)
        rw [if_neg hne, if_neg hdvd]
        simpa using hperm

end Search

end NetL7.Driver
