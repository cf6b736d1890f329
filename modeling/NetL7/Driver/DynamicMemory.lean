import NetL7.Driver.FindChunks
import Mathlib.Algebra.Order.BigOperators.Group.List
import Mathlib.Data.List.Perm.Basic
import Mathlib.Data.List.Sort

/-!
# Memory taken from the kernel

`dynamic_memory_init` gives the devices the longest chunk of the search, or one chunk after the
other, and frees what it does not need. `memory_manager_fini` frees what the device list
records. A page is lost when neither of them knows it any more.
-/

namespace NetL7.Driver

open NetL7.Lib

/-- What `dynamic_memory_init` leaves: its result, which is `none` where it reads from an empty
chunk list, what it freed, and the regions in the device list. -/
structure InitResult where
  result : Option (Except ChunkErrno Unit)
  freed : List (BitVec 64)
  tableFreed : Bool
  sysmem : List Region
  packetmem : List Region

/-- A chunk in the device list. -/
def Segment.region (s : Segment) : Region :=
  ⟨pageSize, s.start.toNat, s.npages * pageSize % 2 ^ 32⟩

/-- One of the two loops that assign chunks: the regions, and the chunks that are left. -/
def assignChunks : ℕ → List Segment → List Region × Option (List Segment)
  | 0, chunklist => ([], some chunklist)
  | _ + 1, [] => ([], none)
  | n + 1, chunk :: rest =>
    let r := assignChunks n rest
    (chunk.region :: r.1, r.2)

/-- `PAGE_ALIGN` of the requested size, 256 MB by default. -/
def requestedSize (physSize : ℕ) : ℕ :=
  pageDown (((if physSize = 0 then 256 * 1024 * 1024 else physSize) + pageSize - 1) % 2 ^ 64)

/-- `dynamic_memory_init` -/
def dynamicMemoryInit (sort : List (BitVec 64) → List (BitVec 64)) (nDevices physSize dmaSize : ℕ)
    (table : Bool) (pages : List (BitVec 64)) : InitResult :=
  let found := findFreeChunks sort table pages
  match found.result with
  | .error e => ⟨some (.error e), found.freed, found.tableFreed, [], []⟩
  | .ok [] => ⟨none, found.freed, found.tableFreed, [], []⟩
  | .ok (chunk :: rest) =>
    let size := requestedSize physSize
    if chunk.npages * pageSize = size then
      let r := fixedMemoryChunking nDevices chunk.start.toNat size dmaSize
      ⟨some r.1, found.freed ++ releaseChunks rest, found.tableFreed, r.2.1, r.2.2⟩
    else if size < chunk.npages * pageSize then
      let upper : Segment := ⟨chunk.start + BitVec.ofNat 64 size, chunk.npages - size / pageSize⟩
      let r := fixedMemoryChunking nDevices chunk.start.toNat size dmaSize
      ⟨some r.1, found.freed ++ releaseChunks (upper :: rest), found.tableFreed, r.2.1, r.2.2⟩
    else
      let sys := assignChunks nDevices (chunk :: rest)
      match sys.2 with
      | none => ⟨some (.error .enomem), found.freed, found.tableFreed, sys.1, []⟩
      | some chunklist =>
        let packet := assignChunks nDevices chunklist
        match packet.2 with
        | none => ⟨some (.error .enomem), found.freed, found.tableFreed, sys.1, packet.1⟩
        | some chunklist =>
          ⟨some (.ok ()), found.freed ++ releaseChunks chunklist, found.tableFreed, sys.1,
            packet.1⟩

/-- What `memory_manager_fini` frees for one region of the device list. -/
def releaseRegion (r : Region) : List (BitVec 64) :=
  if r.base = 0 then []
  else (⟨BitVec.ofNat 64 r.base, r.size / pageSize⟩ : Segment).pages

/-- `memory_manager_fini`, for memory that was not given on the command line. -/
def memoryManagerFini (nDevices : ℕ) (sysmem packetmem : List Region) : List (BitVec 64) :=
  (List.range nDevices).flatMap fun i ↦
    sysmem[i]?.elim [] releaseRegion ++ packetmem[i]?.elim [] releaseRegion

/-- The pages that are freed when the memory manager has come and gone. -/
def freedPages (sort : List (BitVec 64) → List (BitVec 64)) (nDevices physSize dmaSize : ℕ)
    (table : Bool) (pages : List (BitVec 64)) : List (BitVec 64) :=
  let r := dynamicMemoryInit sort nDevices physSize dmaSize table pages
  r.freed ++ memoryManagerFini nDevices r.sysmem r.packetmem

/-- Pages of memory are aligned and end before the addresses do. -/
def IsPage (p : BitVec 64) : Prop := pageSize ∣ p.toNat ∧ p.toNat + pageSize < 2 ^ 64

/-- The clause for one sequence of pages. Without a scratch table no page is allocated. -/
structure PagesConserved (sort : List (BitVec 64) → List (BitVec 64))
    (nDevices physSize dmaSize : ℕ) (table : Bool) (pages : List (BitVec 64)) : Prop where
  partition : table = true → (releaseChunks (searchedLists sort pages).segments).Perm pages
  no_null : (dynamicMemoryInit sort nDevices physSize dmaSize table pages).result ≠ none
  table_freed : (dynamicMemoryInit sort nDevices physSize dmaSize table pages).tableFreed = table
  freed : (freedPages sort nDevices physSize dmaSize table pages).Perm
    (if table then pages else [])

/-- When the clause holds, for the runs that are long enough. -/
def ChunksSettled (nDevices size dmaSize : ℕ) : List Segment → Prop
  | [] => False
  | chunk :: rest =>
    if size ≤ chunk.npages * pageSize then
      -- what is asked for is cut from the longest run
      size = 0 ∨ chunk.start ≠ 0 ∧ packetSize dmaSize ≤ size / nDevices ∧
        nDevices * pageSize ∣ size
    else
      -- the runs go to the devices one after the other
      ∀ c ∈ (chunk :: rest).take (2 * nDevices), c.start ≠ 0

/-- When the clause holds. -/
def SearchSettled (sort : List (BitVec 64) → List (BitVec 64)) (nDevices physSize dmaSize : ℕ)
    (table : Bool) (pages : List (BitVec 64)) : Prop :=
  table = false ∨ ¬ maxIndex ∣ pages.length ∧
    ChunksSettled nDevices (requestedSize physSize) dmaSize (longRuns (batchSegments sort pages))

/-! ### Pages of neighbouring segments -/

theorem pages_add (start : BitVec 64) (m n : ℕ) :
    (⟨start, m + n⟩ : Segment).pages =
      (⟨start, m⟩ : Segment).pages ++
        (⟨start + BitVec.ofNat 64 (m * pageSize), n⟩ : Segment).pages := by
  simp only [Segment.pages, List.range_add, List.map_append, List.map_map]
  congr 1
  apply List.map_congr_left
  intro i _
  simp only [Function.comp_apply]
  rw [BitVec.add_assoc, ← BitVec.ofNat_add, ← Nat.add_mul]

theorem pages_mul (start : BitVec 64) (n k : ℕ) :
    ((List.range n).flatMap fun i ↦
        (⟨start + BitVec.ofNat 64 (i * (k * pageSize)), k⟩ : Segment).pages) =
      (⟨start, n * k⟩ : Segment).pages := by
  induction n with
  | zero => simp [Segment.pages]
  | succ n ih =>
    rw [List.range_succ, List.flatMap_append, ih, Nat.add_one_mul, pages_add, Nat.mul_assoc]
    simp

theorem flatMap_getElem {α β : Type*} (f : α → List β) (list : List α) {n : ℕ}
    (h : list.length ≤ n) :
    ((List.range n).flatMap fun i ↦ list[i]?.elim [] f) = list.flatMap f := by
  induction list generalizing n with
  | nil => simp
  | cons a list ih =>
    obtain ⟨n, rfl⟩ : ∃ m, n = m + 1 := ⟨n - 1, by simp at h; omega⟩
    rw [List.range_succ_eq_map, List.flatMap_cons, List.flatMap_map, List.flatMap_cons]
    simp only [List.getElem?_cons_succ]
    rw [ih (Nat.le_of_succ_le_succ h)]
    rfl

theorem memoryManagerFini_perm {n : ℕ} (sysmem packetmem : List Region)
    (hsys : sysmem.length ≤ n) (hpacket : packetmem.length ≤ n) :
    (memoryManagerFini n sysmem packetmem).Perm ((sysmem ++ packetmem).flatMap releaseRegion) := by
  have h := List.flatMap_append_perm (List.range n)
    (fun i ↦ sysmem[i]?.elim [] releaseRegion) (fun i ↦ packetmem[i]?.elim [] releaseRegion)
  rw [flatMap_getElem _ _ hsys, flatMap_getElem _ _ hpacket, ← List.flatMap_append] at h
  exact h.symm

/-! ### Runs of pages that exist -/

section Pages

variable {sort : List (BitVec 64) → List (BitVec 64)} {pages : List (BitVec 64)}

/-- A segment whose pages exist does not pass the end of the addresses. -/
theorem segment_end {s : Segment} (hpos : 0 < s.npages) (h : ∀ p ∈ s.pages, IsPage p) :
    pageSize ∣ s.start.toNat ∧ s.start.toNat + s.npages * pageSize < 2 ^ 64 := by
  have hmem : ∀ i < s.npages, IsPage (s.start + BitVec.ofNat 64 (i * pageSize)) :=
    fun i hi ↦ h _ (List.mem_map.mpr ⟨i, List.mem_range.mpr hi, rfl⟩)
  have hstart : IsPage s.start := by simpa using hmem 0 hpos
  refine ⟨hstart.1, ?_⟩
  have hall : ∀ i ≤ s.npages, s.start.toNat + i * pageSize < 2 ^ 64 := by
    intro i
    induction i with
    | zero => exact fun _ ↦ by simpa using s.start.isLt
    | succ i ih =>
      intro hi
      have hlt := ih (Nat.le_of_succ_le hi)
      have hadd : (s.start + BitVec.ofNat 64 (i * pageSize)).toNat =
          s.start.toNat + i * pageSize := by
        rw [BitVec.toNat_add, BitVec.toNat_ofNat, Nat.add_mod_mod, Nat.mod_eq_of_lt hlt]
      have hlast := (hmem i hi).2
      rw [hadd] at hlast
      calc s.start.toNat + (i + 1) * pageSize
          = s.start.toNat + i * pageSize + pageSize := by rw [Nat.add_one_mul, Nat.add_assoc]
        _ < 2 ^ 64 := hlast
  exact hall _ le_rfl

theorem longRuns_perm (segments : List Segment) :
    (longRuns segments).Perm (segments.filter (pageThreshold ≤ ·.npages)) := by
  have h : ∀ (l acc : List Segment),
      (l.foldl (fun l s ↦ insertIntoSortedList s l) acc).Perm (l ++ acc) := by
    intro l
    induction l with
    | nil => exact fun acc ↦ .refl _
    | cons s l ih =>
      intro acc
      exact ((ih _).trans ((insertIntoSortedList_perm s acc).append_left l)).trans
        List.perm_middle
  have hnil := h (segments.filter (pageThreshold ≤ ·.npages)) []
  rwa [List.append_nil] at hnil

theorem npages_le_of_mem {s : Segment} {list : List Segment} (h : s ∈ list) :
    s.npages ≤ countPages list :=
  List.le_sum_of_mem (List.mem_map_of_mem h)

theorem npages_le_maxIndex (hsort : ∀ table, (sort table).Perm table) {s : Segment}
    (h : s ∈ batchSegments sort pages) : s.npages ≤ maxIndex := by
  induction pages using batchSegments.induct with
  | case1 pages ih =>
    rw [batchSegments] at h
    cases List.mem_append.mp h with
    | inl h =>
      have hle := npages_le_of_mem h
      rw [← releaseChunks_length, releaseChunks_cutSegments] at hle
      have hlength := (hsort (pages.take maxIndex)).length_eq
      rw [List.length_take] at hlength
      split_ifs at hle
      · exact hle.trans (by decide)
      · omega
    | inr h =>
      split_ifs at h with hfull
      · exact ih hfull h
      · exact absurd h List.not_mem_nil

end Pages

/-! ### A chunk that is cut up -/

section Carve

variable {n size d : ℕ} {start : BitVec 64}

theorem toNat_ne_zero (hne : start ≠ 0) : start.toNat ≠ 0 :=
  fun h ↦ hne (BitVec.eq_of_toNat_eq h)

theorem memoryManagerFini_nil (n : ℕ) : memoryManagerFini n [] [] = [] := by
  simp [memoryManagerFini]

theorem releaseRegion_deviceRegions {k : ℕ} (hne : start ≠ 0)
    (hend : start.toNat + n * (k * pageSize) < 2 ^ 64) (hsmall : k * pageSize < 2 ^ 32) :
    (deviceRegions n start.toNat (k * pageSize)).flatMap releaseRegion =
      (⟨start, n * k⟩ : Segment).pages := by
  have hpos := toNat_ne_zero hne
  rw [deviceRegions, List.flatMap_map, ← pages_mul, List.flatMap_def, List.flatMap_def]
  congr 1
  apply List.map_congr_left
  intro i hi
  have hle : i * (k * pageSize) ≤ n * (k * pageSize) :=
    Nat.mul_le_mul_right _ (Nat.le_of_lt (List.mem_range.mp hi))
  have hbase : (start.toNat + i * (k * pageSize)) % 2 ^ 64 = start.toNat + i * (k * pageSize) :=
    Nat.mod_eq_of_lt ((Nat.add_le_add_left hle _).trans_lt hend)
  have hsum : start.toNat + i * (k * pageSize) ≠ 0 := fun h ↦ hpos (Nat.add_eq_zero_iff.mp h).1
  rw [releaseRegion, hbase, if_neg hsum, Nat.mod_eq_of_lt hsmall,
    Nat.mul_div_cancel _ (by decide), BitVec.ofNat_add, BitVec.ofNat_toNat, BitVec.setWidth_eq]

theorem firstPage_of_dvd {b : ℕ} (h : pageSize ∣ b) : firstPage b = b := by
  simp only [firstPage, pageDown, pageSize] at *
  omega

theorem deviceShare_of_dvd {b : ℕ} (h : pageSize ∣ b) (hsize : size < 2 ^ 64) :
    deviceShare n b size = pageDown (size / n) := by
  have hrest : restSize b size = size := by
    rw [restSize, headSize, firstPage_of_dvd h]
    omega
  rw [deviceShare, hrest]

theorem fini_carved (hn : 0 < n) (hne : start ≠ 0) (haligned : pageSize ∣ start.toNat) (hs0 : size ≠ 0)
    (hend : start.toNat + size < 2 ^ 64) (hsmall : size < 2 ^ 32)
    (hshare : packetSize d ≤ pageDown (size / n)) :
    (memoryManagerFini n (fixedMemoryChunking n start.toNat size d).2.1
      (fixedMemoryChunking n start.toNat size d).2.2).Perm
      (⟨start, n * (size / n / pageSize)⟩ : Segment).pages := by
  have hsize : size < 2 ^ 64 := by omega
  have hb0 := toNat_ne_zero hne
  have hdevice := deviceShare_of_dvd (n := n) haligned hsize
  obtain ⟨p, hp⟩ : ∃ p, packetSize d = p * pageSize := ⟨_, rfl⟩
  obtain ⟨q, hq⟩ : ∃ q, size / n / pageSize = p + q := by
    rw [hp, pageDown] at hshare
    exact Nat.exists_eq_add_of_le (Nat.le_of_mul_le_mul_right hshare (by decide))
  have hsys : sysmemShare n start.toNat size d = q * pageSize := by
    rw [sysmemShare, hdevice, pageDown, hq, hp, Nat.add_mul, Nat.add_sub_cancel_left]
  have htotal : n * (q * pageSize) + n * (p * pageSize) ≤ size := by
    rw [← Nat.mul_add, ← Nat.add_mul, Nat.add_comm q, ← hq]
    exact (Nat.mul_le_mul_left n (Nat.div_mul_le_self _ _)).trans (Nat.mul_div_le _ _)
  have hmid : (start + BitVec.ofNat 64 (n * q * pageSize)).toNat =
      start.toNat + n * (q * pageSize) := by
    rw [BitVec.toNat_add, BitVec.toNat_ofNat, Nat.add_mod_mod, Nat.mul_assoc]
    exact Nat.mod_eq_of_lt (by omega)
  have hmid_ne : start + BitVec.ofNat 64 (n * q * pageSize) ≠ 0 := by
    intro h
    rw [h] at hmid
    exact hb0 (Nat.add_eq_zero_iff.mp hmid.symm).1
  have hq_le : q * pageSize ≤ n * (q * pageSize) := Nat.le_mul_of_pos_left _ hn
  have hp_le : p * pageSize ≤ n * (p * pageSize) := Nat.le_mul_of_pos_left _ hn
  rw [chunked_of_share start.isLt hsize hb0 hs0 (hdevice ▸ hshare), firstPage_of_dvd haligned]
  refine (memoryManagerFini_perm _ _ (by simp [deviceRegions]) (by simp [deviceRegions])).trans ?_
  rw [List.flatMap_append, hsys, hp, ← hmid, releaseRegion_deviceRegions hne (by omega) (by omega),
    releaseRegion_deviceRegions hmid_ne (by omega) (by omega), ← pages_add, ← Nat.mul_add,
    Nat.add_comm q, ← hq]

theorem share_exact_iff (hsize : pageSize ∣ size) :
    n * (size / n / pageSize) = size / pageSize ↔ n * pageSize ∣ size := by
  obtain ⟨m, rfl⟩ := hsize
  have hpos : 0 < pageSize := by decide
  rw [Nat.div_div_eq_div_mul, Nat.mul_comm n pageSize, Nat.mul_div_mul_left _ _ hpos,
    Nat.mul_div_cancel_left _ hpos, Nat.mul_dvd_mul_iff_left hpos]
  exact Nat.mul_div_eq_iff_dvd

/-- The pages of the chunk are all freed exactly if the devices share them without rest. -/
theorem carved_iff (hn : 0 < n) (haligned : pageSize ∣ start.toNat) (hsize : pageSize ∣ size)
    (hend : start.toNat + size < 2 ^ 64) (hsmall : size < 2 ^ 32) :
    (memoryManagerFini n (fixedMemoryChunking n start.toNat size d).2.1
        (fixedMemoryChunking n start.toNat size d).2.2).Perm
        (⟨start, size / pageSize⟩ : Segment).pages ↔
      size = 0 ∨ start ≠ 0 ∧ packetSize d ≤ size / n ∧ n * pageSize ∣ size := by
  by_cases hs0 : size = 0
  · simp [hs0, fixedMemoryChunking, memoryManagerFini_nil, Segment.pages]
  have hpages : 0 < size / pageSize :=
    Nat.div_pos (Nat.le_of_dvd (Nat.pos_of_ne_zero hs0) hsize) (by decide)
  have hnone : ¬ [].Perm (⟨start, size / pageSize⟩ : Segment).pages := by
    intro h
    have hlength := h.length_eq
    rw [pages_length] at hlength
    exact absurd hlength hpages.ne
  by_cases hne : start = 0
  · simp only [hne] at hnone
    simpa [hs0, hne, fixedMemoryChunking, memoryManagerFini_nil] using hnone
  have hroom : packetSize d ≤ pageDown (size / n) ↔ packetSize d ≤ size / n := by
    obtain ⟨k, hk⟩ := pageSize_dvd_packetSize d
    simp only [hk, pageDown, pageSize]
    omega
  have hb0 := toNat_ne_zero hne
  by_cases hshare : packetSize d ≤ pageDown (size / n)
  · have hfini := fini_carved (d := d) hn hne haligned hs0 hend hsmall hshare
    have hexact := share_exact_iff (n := n) hsize
    constructor
    · intro h
      have hlength := (hfini.symm.trans h).length_eq
      rw [pages_length, pages_length] at hlength
      exact .inr ⟨hne, hroom.mp hshare, hexact.mp hlength⟩
    · rintro (h | ⟨-, -, hdvd⟩)
      · exact absurd h hs0
      · rw [← hexact.mpr hdvd]
        exact hfini
  · have hdevice := deviceShare_of_dvd (n := n) haligned (by omega : size < 2 ^ 64)
    rw [fixedMemoryChunking_eq start.isLt (by omega) hb0 hs0, hdevice,
      if_pos (Nat.lt_of_not_le hshare), memoryManagerFini_nil]
    simp only [hnone, false_iff]
    rintro (h | h)
    · exact hs0 h
    · exact hshare (hroom.mpr h.2.1)

end Carve

/-! ### Chunks that go to the devices in turn -/

theorem assignChunks_eq (n : ℕ) (chunklist : List Segment) :
    assignChunks n chunklist =
      ((chunklist.take n).map Segment.region,
        if n ≤ chunklist.length then some (chunklist.drop n) else none) := by
  induction n generalizing chunklist with
  | zero => simp [assignChunks]
  | succ n ih =>
    cases chunklist with
    | nil => simp [assignChunks]
    | cons chunk rest => simp [assignChunks, ih]

theorem releaseRegion_region {s : Segment} (h : s.npages ≤ maxIndex) :
    releaseRegion s.region = if s.start = 0 then [] else s.pages := by
  have hsmall : s.npages * pageSize % 2 ^ 32 = s.npages * pageSize := by
    simp only [maxIndex, pageSize] at *
    omega
  have hzero : s.start.toNat = 0 ↔ s.start = 0 :=
    ⟨fun h ↦ BitVec.eq_of_toNat_eq h, fun h ↦ h ▸ rfl⟩
  simp only [releaseRegion, Segment.region, hsmall, hzero]
  rw [Nat.mul_div_cancel _ (by decide), BitVec.ofNat_toNat, BitVec.setWidth_eq]

theorem countPages_append (l l' : List Segment) :
    countPages (l ++ l') = countPages l + countPages l' := by
  simp [countPages]

theorem countPages_cons (s : Segment) (l : List Segment) :
    countPages (s :: l) = s.npages + countPages l := by
  simp [countPages]

/-- The pages of the chunks that are not skipped. -/
def keptPages (chunks : List Segment) : List (BitVec 64) :=
  chunks.flatMap fun s ↦ if s.start = 0 then [] else s.pages

theorem keptPages_length_le (chunks : List Segment) :
    (keptPages chunks).length ≤ countPages chunks := by
  induction chunks with
  | nil => exact le_rfl
  | cons s rest ih =>
    have hs : (if s.start = 0 then [] else s.pages).length ≤ s.npages := by
      split_ifs
      · exact Nat.zero_le _
      · exact (pages_length s).le
    rw [keptPages, List.flatMap_cons, List.length_append, countPages_cons]
    exact Nat.add_le_add hs ih

theorem keptPages_perm_iff {chunks : List Segment} (hpos : ∀ s ∈ chunks, 0 < s.npages) :
    (keptPages chunks).Perm (releaseChunks chunks) ↔ ∀ s ∈ chunks, s.start ≠ 0 := by
  constructor
  · intro h s hs hzero
    have hlength := h.length_eq
    have hs_pos := hpos s hs
    obtain ⟨l, l', rfl⟩ := List.append_of_mem hs
    rw [releaseChunks_length, countPages_append, countPages_cons, keptPages, List.flatMap_append,
      List.flatMap_cons, if_pos hzero, List.nil_append, List.length_append] at hlength
    have hl := keptPages_length_le l
    have hl' := keptPages_length_le l'
    rw [keptPages] at hl hl'
    omega
  · intro h
    rw [keptPages, releaseChunks, List.flatMap_def, List.flatMap_def]
    apply List.Perm.of_eq
    congr 1
    exact List.map_congr_left fun s hs ↦ if_neg (h s hs)

/-! ### The whole run -/

section Run

variable {sort : List (BitVec 64) → List (BitVec 64)} {pages : List (BitVec 64)}
  {n physSize d : ℕ}

theorem searched_perm (hsort : ∀ table, (sort table).Perm table) (pages : List (BitVec 64)) :
    (releaseChunks (searchedLists sort pages).segments).Perm
      (pages ++ if maxIndex ∣ pages.length then [0] else []) := by
  refine List.Perm.trans ?_ (releaseChunks_batchSegments hsort pages)
  rw [searchedLists, searchBatches_eq]
  have h := ChunkLists.foldl_add_perm (batchSegments sort pages) ⟨[], []⟩
  have hnil : ChunkLists.segments ⟨[], []⟩ = [] := rfl
  rw [hnil, List.append_nil] at h
  exact h.flatMap_right _

/-- Segments and pages agree exactly if the last batch is not empty. -/
theorem partition_iff (hsort : ∀ table, (sort table).Perm table) :
    (releaseChunks (searchedLists sort pages).segments).Perm pages ↔
      ¬ maxIndex ∣ pages.length := by
  have h := searched_perm hsort pages
  constructor
  · intro hperm hdvd
    have hlength := hperm.symm.trans h
    rw [if_pos hdvd] at hlength
    simpa using hlength.length_eq
  · intro hdvd
    rw [if_neg hdvd, List.append_nil] at h
    exact h

theorem findFreeChunks_eq (hsort : ∀ table, (sort table).Perm table)
    (hdvd : ¬ maxIndex ∣ pages.length) :
    findFreeChunks sort true pages =
      ⟨.ok (longRuns (batchSegments sort pages)), releaseChunks (searchedLists sort pages).free,
        true⟩ := by
  have hlength := ((partition_iff hsort).mpr hdvd).length_eq
  rw [releaseChunks_length, ChunkLists.segments, countPages_append] at hlength
  rw [← searchedLists_good]
  simp only [findFreeChunks, if_true, hlength]

theorem longRuns_pages (hsort : ∀ table, (sort table).Perm table)
    (hdvd : ¬ maxIndex ∣ pages.length) (hpage : ∀ p ∈ pages, IsPage p) {s : Segment}
    (hs : s ∈ longRuns (batchSegments sort pages)) :
    0 < s.npages ∧ s.npages ≤ maxIndex ∧ ∀ p ∈ s.pages, IsPage p := by
  have hfilter := (longRuns_perm _).mem_iff.mp hs
  obtain ⟨hmem, hlong⟩ := List.mem_filter.mp hfilter
  have hthreshold : pageThreshold ≤ s.npages := by simpa using hlong
  refine ⟨lt_of_lt_of_le (by decide) hthreshold, npages_le_maxIndex hsort hmem, ?_⟩
  intro p hp
  have hall := releaseChunks_batchSegments hsort pages
  rw [if_neg hdvd, List.append_nil] at hall
  exact hpage p (hall.mem_iff.mp (List.mem_flatMap.mpr ⟨s, hmem, hp⟩))

/-- The pages that are freed beside the free list have to be those of the long runs. -/
theorem freed_perm_iff (hsort : ∀ table, (sort table).Perm table)
    (hdvd : ¬ maxIndex ∣ pages.length) (more : List (BitVec 64)) :
    (releaseChunks (searchedLists sort pages).free ++ more).Perm pages ↔
      more.Perm (releaseChunks (longRuns (batchSegments sort pages))) := by
  have hpart := (partition_iff hsort).mpr hdvd
  rw [ChunkLists.segments, releaseChunks, List.flatMap_append, ← releaseChunks, ← releaseChunks,
    searchedLists_good] at hpart
  have hswap := List.perm_append_comm.trans hpart
  constructor
  · intro h
    exact (List.perm_append_left_iff _).mp (h.trans hswap.symm)
  · intro h
    exact (h.append_left _).trans hswap

variable {chunk : Segment} {rest : List Segment}

/-- The longest run is as long as what is asked for. -/
theorem init_carved (hsort : ∀ table, (sort table).Perm table) (hdvd : ¬ maxIndex ∣ pages.length)
    (hruns : longRuns (batchSegments sort pages) = chunk :: rest)
    (hle : requestedSize physSize ≤ chunk.npages * pageSize) :
    let size := requestedSize physSize
    let upper : Segment := ⟨chunk.start + BitVec.ofNat 64 size, chunk.npages - size / pageSize⟩
    let r := fixedMemoryChunking n chunk.start.toNat size d
    dynamicMemoryInit sort n physSize d true pages =
      ⟨some r.1, releaseChunks (searchedLists sort pages).free ++ releaseChunks (upper :: rest),
        true, r.2.1, r.2.2⟩ := by
  simp only [dynamicMemoryInit, findFreeChunks_eq hsort hdvd, hruns]
  by_cases hexact : chunk.npages * pageSize = requestedSize physSize
  · rw [if_pos hexact, ← hexact, Nat.mul_div_cancel _ (by decide), Nat.sub_self]
    rfl
  · rw [if_neg hexact, if_pos (Nat.lt_of_le_of_ne hle (Ne.symm hexact))]

/-- No run is as long as what is asked for. -/
theorem init_assigned (hsort : ∀ table, (sort table).Perm table)
    (hdvd : ¬ maxIndex ∣ pages.length)
    (hruns : longRuns (batchSegments sort pages) = chunk :: rest)
    (hlt : chunk.npages * pageSize < requestedSize physSize) :
    ∃ result, dynamicMemoryInit sort n physSize d true pages =
      ⟨some result, releaseChunks (searchedLists sort pages).free ++
          releaseChunks ((chunk :: rest).drop (2 * n)), true,
        ((chunk :: rest).take n).map Segment.region,
        (((chunk :: rest).drop n).take n).map Segment.region⟩ := by
  have hdrop : ((chunk :: rest).drop n).drop n = (chunk :: rest).drop (2 * n) := by
    rw [List.drop_drop, Nat.two_mul]
  simp only [dynamicMemoryInit, findFreeChunks_eq hsort hdvd, hruns, if_neg hlt.ne,
    if_neg (Nat.lt_asymm hlt), assignChunks_eq]
  by_cases hsys : n ≤ (chunk :: rest).length
  · by_cases hpacket : n ≤ ((chunk :: rest).drop n).length
    · simp only [if_pos hsys, if_pos hpacket, hdrop]
      exact ⟨_, rfl⟩
    · have hnil : (chunk :: rest).drop (2 * n) = [] := by
        rw [← hdrop]
        exact List.drop_of_length_le (Nat.le_of_not_le hpacket)
      simp only [if_pos hsys, if_neg hpacket, hnil, releaseChunks, List.flatMap_nil,
        List.append_nil]
      exact ⟨_, rfl⟩
  · have hnil : (chunk :: rest).drop n = [] := List.drop_of_length_le (Nat.le_of_not_le hsys)
    rw [hnil, List.drop_nil] at hdrop
    simp only [if_neg hsys, ← hdrop, hnil, releaseChunks, List.flatMap_nil, List.append_nil,
      List.take_nil, List.map_nil]
    exact ⟨_, rfl⟩

theorem perm_append_swap_iff (kept all more : List (BitVec 64)) :
    (more ++ kept).Perm (all ++ more) ↔ kept.Perm all := by
  constructor
  · intro h
    exact (List.perm_append_right_iff more).mp (List.perm_append_comm.trans h)
  · intro h
    exact List.perm_append_comm.trans (h.append_right more)

theorem carved_settled (hn : 0 < n) (hpos : 0 < chunk.npages) (hmax : chunk.npages ≤ maxIndex)
    (hpage : ∀ p ∈ chunk.pages, IsPage p) {size : ℕ} (hsize : pageSize ∣ size)
    (hle : size ≤ chunk.npages * pageSize) :
    let upper : Segment := ⟨chunk.start + BitVec.ofNat 64 size, chunk.npages - size / pageSize⟩
    let r := fixedMemoryChunking n chunk.start.toNat size d
    (releaseChunks (upper :: rest) ++ memoryManagerFini n r.2.1 r.2.2).Perm
        (releaseChunks (chunk :: rest)) ↔
      ChunksSettled n size d (chunk :: rest) := by
  obtain ⟨haligned, hend⟩ := segment_end hpos hpage
  have hsmall : size < 2 ^ 32 := by
    simp only [maxIndex, pageSize] at *
    omega
  rw [ChunksSettled, if_pos hle, ← carved_iff hn haligned hsize (by omega) hsmall]
  obtain ⟨m, rfl⟩ := hsize
  have hm : m ≤ chunk.npages := by
    simp only [pageSize] at hle
    omega
  have hcut : chunk.pages = (⟨chunk.start, m⟩ : Segment).pages ++
      (⟨chunk.start + BitVec.ofNat 64 (pageSize * m), chunk.npages - m⟩ : Segment).pages := by
    rw [Nat.mul_comm pageSize m, ← pages_add, Nat.add_sub_cancel' hm]
  have hdiv : pageSize * m / pageSize = m := Nat.mul_div_cancel_left m (by decide)
  simp only [releaseChunks, List.flatMap_cons, hcut, hdiv, List.append_assoc _ _ (rest.flatMap _)]
  exact perm_append_swap_iff _ _ _

theorem assigned_settled (hruns : ∀ s ∈ chunk :: rest, 0 < s.npages ∧ s.npages ≤ maxIndex)
    {size : ℕ} (hlt : chunk.npages * pageSize < size) :
    (releaseChunks ((chunk :: rest).drop (2 * n)) ++
        memoryManagerFini n (((chunk :: rest).take n).map Segment.region)
          ((((chunk :: rest).drop n).take n).map Segment.region)).Perm
        (releaseChunks (chunk :: rest)) ↔
      ChunksSettled n size d (chunk :: rest) := by
  have htaken : ∀ s ∈ (chunk :: rest).take (2 * n), 0 < s.npages ∧ s.npages ≤ maxIndex :=
    fun s hs ↦ hruns s (List.mem_of_mem_take hs)
  have hlength : ∀ l : List Segment, ((l.take n).map Segment.region).length ≤ n :=
    fun l ↦ (List.length_map _).trans_le (List.length_take_le _ _)
  have hfini := memoryManagerFini_perm _ _ (hlength (chunk :: rest))
    (hlength ((chunk :: rest).drop n))
  have hkept : ((((chunk :: rest).take n).map Segment.region ++
      (((chunk :: rest).drop n).take n).map Segment.region).flatMap releaseRegion) =
      keptPages ((chunk :: rest).take (2 * n)) := by
    rw [← List.map_append, ← List.take_add, ← Nat.two_mul, List.flatMap_map, keptPages,
      List.flatMap_def, List.flatMap_def]
    congr 1
    exact List.map_congr_left fun s hs ↦ releaseRegion_region (htaken s hs).2
  have hsplit : releaseChunks (chunk :: rest) =
      releaseChunks ((chunk :: rest).take (2 * n)) ++
        releaseChunks ((chunk :: rest).drop (2 * n)) := by
    rw [releaseChunks, releaseChunks, releaseChunks, ← List.flatMap_append, List.take_append_drop]
  rw [hkept] at hfini
  rw [ChunksSettled, if_neg (Nat.not_le.mpr hlt), hsplit, perm_append_swap_iff,
    ← keptPages_perm_iff fun s hs ↦ (htaken s hs).1]
  exact ⟨hfini.symm.trans, hfini.trans⟩

/-- Both ways through `dynamic_memory_init` read a chunk and free the scratch table. -/
theorem init_reads (hsort : ∀ table, (sort table).Perm table) (hdvd : ¬ maxIndex ∣ pages.length)
    (hruns : longRuns (batchSegments sort pages) = chunk :: rest) :
    (dynamicMemoryInit sort n physSize d true pages).result ≠ none ∧
      (dynamicMemoryInit sort n physSize d true pages).tableFreed = true := by
  by_cases hle : requestedSize physSize ≤ chunk.npages * pageSize
  · rw [init_carved hsort hdvd hruns hle]
    exact ⟨Option.some_ne_none _, rfl⟩
  · obtain ⟨result, hinit⟩ := init_assigned (n := n) (d := d) hsort hdvd hruns
      (Nat.lt_of_not_le hle)
    rw [hinit]
    exact ⟨Option.some_ne_none _, rfl⟩

theorem freedPages_perm_iff (hsort : ∀ table, (sort table).Perm table) (hn : 0 < n)
    (hpage : ∀ p ∈ pages, IsPage p) (hdvd : ¬ maxIndex ∣ pages.length)
    (hruns : longRuns (batchSegments sort pages) = chunk :: rest) :
    (freedPages sort n physSize d true pages).Perm pages ↔
      ChunksSettled n (requestedSize physSize) d (chunk :: rest) := by
  have hpages : ∀ s ∈ chunk :: rest,
      0 < s.npages ∧ s.npages ≤ maxIndex ∧ ∀ p ∈ s.pages, IsPage p :=
    fun s hs ↦ longRuns_pages hsort hdvd hpage (hruns ▸ hs)
  obtain ⟨hpos, hmax, hframes⟩ := hpages chunk List.mem_cons_self
  by_cases hle : requestedSize physSize ≤ chunk.npages * pageSize
  · rw [freedPages, init_carved hsort hdvd hruns hle, List.append_assoc,
      freed_perm_iff hsort hdvd, hruns]
    exact carved_settled hn hpos hmax hframes (pageSize_dvd_pageDown _) hle
  · have hlt := Nat.lt_of_not_le hle
    obtain ⟨result, hinit⟩ := init_assigned (n := n) (d := d) hsort hdvd hruns hlt
    rw [freedPages, hinit, List.append_assoc, freed_perm_iff hsort hdvd, hruns]
    exact assigned_settled (fun s hs ↦ ⟨(hpages s hs).1, (hpages s hs).2.1⟩) hlt

/-- Every page is freed once exactly if the last batch is not empty, some run is long enough,
and what the devices get is all of it. -/
theorem pagesConserved_iff (hsort : ∀ table, (sort table).Perm table) (hn : 0 < n)
    (hpage : ∀ p ∈ pages, IsPage p) (table : Bool) :
    PagesConserved sort n physSize d table pages ↔
      SearchSettled sort n physSize d table pages := by
  cases table with
  | false =>
    refine ⟨fun _ ↦ .inl rfl, fun _ ↦ ⟨nofun, by simp [dynamicMemoryInit, findFreeChunks], rfl, ?_⟩⟩
    simp [freedPages, dynamicMemoryInit, findFreeChunks, memoryManagerFini_nil]
  | true =>
    by_cases hdvd : maxIndex ∣ pages.length
    · constructor
      · exact fun h ↦ absurd hdvd ((partition_iff hsort).mp (h.partition rfl))
      · rintro (h | ⟨h, -⟩)
        · exact absurd h (by decide)
        · exact absurd hdvd h
    have hpart := (partition_iff hsort).mpr hdvd
    rw [SearchSettled]
    cases hruns : longRuns (batchSegments sort pages) with
    | nil =>
      have hnull : (dynamicMemoryInit sort n physSize d true pages).result = none := by
        simp only [dynamicMemoryInit, findFreeChunks_eq hsort hdvd, hruns]
      simp only [ChunksSettled, and_false, or_false]
      exact ⟨fun h ↦ absurd hnull h.no_null, nofun⟩
    | cons chunk rest =>
      constructor
      · exact fun h ↦ .inr ⟨hdvd, (freedPages_perm_iff hsort hn hpage hdvd hruns).mp h.freed⟩
      · rintro (h | ⟨-, h⟩)
        · exact absurd h (by decide)
        · obtain ⟨hnull, htable⟩ := init_reads hsort hdvd hruns
          exact ⟨fun _ ↦ hpart, hnull, htable,
            (freedPages_perm_iff hsort hn hpage hdvd hruns).mpr h⟩

/-- A sort by the comparison. -/
def sortPages : List (BitVec 64) → List (BitVec 64) :=
  List.insertionSort (compareAddresses · · ≤ 0)

theorem sortPages_perm (table : List (BitVec 64)) : (sortPages table).Perm table :=
  List.perm_insertionSort _ _

/-- Two megabytes in a row for one device that asks for as much. -/
theorem pagesConserved_two_megabytes :
    PagesConserved sortPages 1 0x200000 0x1000 true (⟨0x100000, 512⟩ : Segment).pages := by
  have hcut : cutSegments (sortPages (⟨0x100000, 512⟩ : Segment).pages) =
      [⟨0x100000, 512⟩] := by decide +kernel
  have hlength : (⟨0x100000, 512⟩ : Segment).pages.length = 512 := pages_length _
  have htake : (⟨0x100000, 512⟩ : Segment).pages.take maxIndex =
      (⟨0x100000, 512⟩ : Segment).pages :=
    List.take_of_length_le (hlength.trans_le (by decide))
  have hpage : ∀ p ∈ (⟨0x100000, 512⟩ : Segment).pages, IsPage p := by
    intro p hp
    obtain ⟨i, hi, rfl⟩ := List.mem_map.mp hp
    have hlt := List.mem_range.mp hi
    have hlow : (0x100000 : BitVec 64).toNat = 0x100000 := rfl
    simp only [IsPage, pageSize, BitVec.toNat_add, BitVec.toNat_ofNat, hlow] at *
    omega
  apply (pagesConserved_iff sortPages_perm Nat.one_pos hpage true).mpr
  rw [SearchSettled, batchSegments, htake, hcut, hlength]
  have hlast : ¬ maxIndex ≤ 512 := by decide
  have hsize : requestedSize 0x200000 = 0x200000 := by decide
  have hruns : longRuns ([⟨0x100000, 512⟩] ++ []) = [⟨0x100000, 512⟩] := by decide
  have hstart : (0x100000 : BitVec 64) ≠ 0 := by decide
  have hpacket : packetSize 0x1000 ≤ 0x200000 / 1 := by decide
  have hexact : 1 * pageSize ∣ 0x200000 := by decide
  rw [if_neg hlast, hruns, hsize, ChunksSettled, if_pos (by decide)]
  exact .inr ⟨by decide, .inr ⟨hstart, hpacket, hexact⟩⟩

/-- The kernel has no page left for the first batch. -/
theorem page_zero_freed : ¬ PagesConserved sortPages 1 0 0 true [] :=
  fun h ↦ (partition_iff sortPages_perm).mp (h.partition rfl) (Nat.dvd_zero _)

end Run

end NetL7.Driver
