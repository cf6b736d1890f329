import NetL7.Driver.PageRuns
import NetL7.Lib.Carving
import Mathlib.Tactic.Ring

/-!
# Memory given on the command line

`fixed_memory_chunking` cuts the memory at `fixed_phys_base` into the system memory and the
packet memory of each device. It takes the bytes up to the first page boundary off the size,
and at the end compares with the base it was given plus the size that is left, so it takes
them off twice.
-/

namespace NetL7.Driver

open NetL7.Lib

/-- The errors of the memory manager. -/
inductive ChunkErrno
  | einval
  | enomem
  | efault
  deriving DecidableEq, Repr

/-- `x & PAGE_MASK` -/
def pageDown (x : ℕ) : ℕ := x / pageSize * pageSize

/-- One of the two loops: the regions, with sizes in 32 bits, and `base` behind them. -/
def carve (size : ℕ) : ℕ → ℕ → List Region × ℕ
  | 0, base => ([], base)
  | n + 1, base =>
    let r := carve size n ((base + size) % 2 ^ 64)
    (⟨pageSize, base, size % 2 ^ 32⟩ :: r.1, r.2)

/-- `fixed_memory_chunking`: the result, and the regions for the system memory and for the
packet memory that it records. -/
def fixedMemoryChunking (nDevices physBase physSize dmaSize : ℕ) :
    Except ChunkErrno Unit × List Region × List Region :=
  if physBase = 0 ∨ physSize = 0 then (.error .einval, [], [])
  else
    let dmaSize := if dmaSize = 0 then 2 * 1024 * 1024 else dmaSize
    let base := pageDown ((physBase + pageSize - 1) % 2 ^ 64)
    let physSize :=
      if base ≠ physBase then
        (2 ^ 64 + physSize - (2 ^ 64 + base - physBase) % 2 ^ 64) % 2 ^ 64
      else physSize
    let sysmemSize := pageDown (physSize / nDevices)
    let dmaSize := pageDown dmaSize
    if sysmemSize < dmaSize then (.error .enomem, [], [])
    else
      let sysmemSize := sysmemSize - dmaSize
      let sysmem := carve sysmemSize nDevices base
      let packetmem := carve dmaSize nDevices sysmem.2
      (if (physBase + physSize) % 2 ^ 64 < packetmem.2 then .error .efault else .ok (),
        sysmem.1, packetmem.1)

/-- What the regions of the devices should be. -/
structure RegionsOk (nDevices physBase physSize : ℕ) (sysmem packetmem : List Region) : Prop where
  count : sysmem.length = nDevices ∧ packetmem.length = nDevices
  aligned : ∀ r ∈ sysmem ++ packetmem, r.Aligned ∧ pageSize ∣ r.size
  apart : (sysmem ++ packetmem).Pairwise Region.Apart
  inside : ∀ r ∈ sysmem ++ packetmem, r.Inside physBase (physBase + physSize)
  sysmem_size : ∀ r ∈ sysmem, ∀ r' ∈ sysmem, r.size = r'.size
  packetmem_size : ∀ r ∈ packetmem, ∀ r' ∈ packetmem, r.size = r'.size

/-! ### The numbers behind a call -/

/-- The first page boundary of the range. -/
def firstPage (physBase : ℕ) : ℕ := pageDown (physBase + (pageSize - 1))

/-- The bytes before the first page boundary. -/
def headSize (physBase : ℕ) : ℕ := firstPage physBase - physBase

/-- `phys_size` without the head, in 64 bits -/
def restSize (physBase physSize : ℕ) : ℕ := (2 ^ 64 + physSize - headSize physBase) % 2 ^ 64

/-- The whole pages that a device gets. -/
def deviceShare (nDevices physBase physSize : ℕ) : ℕ :=
  pageDown (restSize physBase physSize / nDevices)

/-- The packet memory of a device. -/
def packetSize (dmaSize : ℕ) : ℕ := pageDown (if dmaSize = 0 then 2 * 1024 * 1024 else dmaSize)

/-- The whole pages of the range hold the packet memory of all devices. -/
def EnoughRoom (nDevices physBase physSize dmaSize : ℕ) : Prop :=
  nDevices * packetSize dmaSize ≤ pageDown (physBase + physSize) - firstPage physBase

/-- The clause for one call. -/
def ChunkedRight (nDevices physBase physSize dmaSize : ℕ) : Prop :=
  let r := fixedMemoryChunking nDevices physBase physSize dmaSize
  (r.1 = .ok () → RegionsOk nDevices physBase physSize r.2.1 r.2.2) ∧
    (EnoughRoom nDevices physBase physSize dmaSize → r.1 = .ok ())

/-- When the clause holds. `total` is what the devices get together. -/
def HeadFits (nDevices physBase physSize dmaSize : ℕ) : Prop :=
  let head := headSize physBase
  let total := nDevices * deviceShare nDevices physBase physSize
  if physBase = 0 ∨ physSize = 0 then ¬ EnoughRoom nDevices physBase physSize dmaSize
  else if deviceShare nDevices physBase physSize < packetSize dmaSize then True
  else if head ≤ physSize then
    -- the second case is that of regions that end where the addresses end
    firstPage physBase + total < 2 ^ 64 + packetSize dmaSize ∧
      (total + 2 * head ≤ physSize ∧
          (physBase + physSize - head < 2 ^ 64 ∨ 2 ^ 64 < firstPage physBase + total) ∨
        firstPage physBase + total = 2 ^ 64)
  else
    -- the range does not reach a page boundary, and its size wraps
    packetSize dmaSize ≠ 0 ∧
      (physBase + restSize physBase physSize) % 2 ^ 64 < (firstPage physBase + total) % 2 ^ 64

theorem carve_eq (size n start : ℕ) :
    carve size n (start % 2 ^ 64) =
      ((List.range n).map fun i ↦ ⟨pageSize, (start + i * size) % 2 ^ 64, size % 2 ^ 32⟩,
        (start + n * size) % 2 ^ 64) := by
  induction n generalizing start with
  | zero => simp [carve]
  | succ n ih =>
    have hshift : ∀ i, start + size + i * size = start + (i + 1) * size := by
      intro i
      ring
    rw [carve, Nat.mod_add_mod, ih, List.range_succ_eq_map, List.map_cons, List.map_map]
    simp only [hshift, Nat.zero_mul, Nat.add_zero]
    rfl

section Chunking

variable {n b s d : ℕ}

theorem firstPage_mod (b : ℕ) : pageDown ((b + pageSize - 1) % 2 ^ 64) = firstPage b % 2 ^ 64 := by
  simp only [firstPage, pageDown, pageSize]
  omega

theorem restSize_eq (hb : b < 2 ^ 64) (hs : s < 2 ^ 64) :
    (if firstPage b % 2 ^ 64 ≠ b then
      (2 ^ 64 + s - (2 ^ 64 + firstPage b % 2 ^ 64 - b) % 2 ^ 64) % 2 ^ 64 else s) =
      restSize b s := by
  have hle : b ≤ firstPage b ∧ firstPage b ≤ b + 4095 := by
    simp only [firstPage, pageDown, pageSize]
    omega
  rw [restSize, headSize]
  by_cases hpage : firstPage b % 2 ^ 64 = b
  · rw [if_neg (not_not_intro hpage)]
    omega
  · rw [if_pos hpage]
    omega

/-- The regions of one kind for the devices in turn. -/
def deviceRegions (n start size : ℕ) : List Region :=
  (List.range n).map fun i ↦ ⟨pageSize, (start + i * size) % 2 ^ 64, size % 2 ^ 32⟩

/-- What the devices get for system memory. -/
def sysmemShare (n b s d : ℕ) : ℕ := deviceShare n b s - packetSize d

theorem fixedMemoryChunking_eq (hb : b < 2 ^ 64) (hs : s < 2 ^ 64) (hb0 : b ≠ 0) (hs0 : s ≠ 0) :
    fixedMemoryChunking n b s d =
      if deviceShare n b s < packetSize d then (.error .enomem, [], [])
      else
        (if (b + restSize b s) % 2 ^ 64 <
            (firstPage b + n * sysmemShare n b s d + n * packetSize d) % 2 ^ 64 then
            .error .efault else .ok (),
          deviceRegions n (firstPage b) (sysmemShare n b s d),
          deviceRegions n (firstPage b + n * sysmemShare n b s d) (packetSize d)) := by
  have hnone : ¬ (b = 0 ∨ s = 0) := by omega
  simp only [fixedMemoryChunking, if_neg hnone, firstPage_mod, restSize_eq hb hs, carve_eq]
  rfl

theorem total_eq (hroom : packetSize d ≤ deviceShare n b s) :
    firstPage b + n * sysmemShare n b s d + n * packetSize d =
      firstPage b + n * deviceShare n b s := by
  rw [sysmemShare, Nat.add_assoc, ← Nat.mul_add, Nat.sub_add_cancel hroom]

theorem mem_deviceRegions {start size : ℕ} {r : Region} :
    r ∈ deviceRegions n start size ↔
      ∃ i < n, ⟨pageSize, (start + i * size) % 2 ^ 64, size % 2 ^ 32⟩ = r := by
  simp [deviceRegions]

theorem carved_deviceRegions {start size : ℕ} (hstart : pageSize ∣ start) (hsize : pageSize ∣ size)
    (hlt : ∀ i < n, start + i * size < 2 ^ 64) :
    Carved start (start + n * size) (deviceRegions n start size) := by
  have hbase : ∀ i < n, (start + i * size) % 2 ^ 64 = start + i * size :=
    fun i hi ↦ Nat.mod_eq_of_lt (hlt i hi)
  have hstored : size % 2 ^ 32 ≤ size := Nat.mod_le _ _
  constructor
  · intro r hr
    obtain ⟨i, hi, rfl⟩ := mem_deviceRegions.mp hr
    simp only [Region.Aligned, hbase i hi]
    exact Nat.mod_eq_zero_of_dvd (Nat.dvd_add hstart (Nat.dvd_mul_left_of_dvd hsize i))
  · apply List.pairwise_map.mpr
    apply List.pairwise_lt_range.imp_of_mem
    intro i j hi hj hij
    left
    have hmul : (i + 1) * size ≤ j * size := Nat.mul_le_mul_right _ hij
    rw [Nat.add_one_mul] at hmul
    simp only [Region.next, hbase i (List.mem_range.mp hi), hbase j (List.mem_range.mp hj)]
    omega
  · intro r hr
    obtain ⟨i, hi, rfl⟩ := mem_deviceRegions.mp hr
    have hmul : (i + 1) * size ≤ n * size := Nat.mul_le_mul_right _ hi
    rw [Nat.add_one_mul] at hmul
    simp only [Region.Inside, Region.next, hbase i hi]
    omega

theorem pageSize_dvd_pageDown (x : ℕ) : pageSize ∣ pageDown x := Nat.dvd_mul_left _ _

theorem pageSize_dvd_firstPage (b : ℕ) : pageSize ∣ firstPage b := pageSize_dvd_pageDown _

theorem pageSize_dvd_packetSize (d : ℕ) : pageSize ∣ packetSize d := pageSize_dvd_pageDown _

theorem pageSize_dvd_sysmemShare (n b s d : ℕ) : pageSize ∣ sysmemShare n b s d :=
  Nat.dvd_sub (pageSize_dvd_pageDown _) (pageSize_dvd_packetSize d)

theorem deviceRegions_size {start size : ℕ} {r : Region} (hr : r ∈ deviceRegions n start size) :
    r.size = size % 2 ^ 32 := by
  obtain ⟨i, -, rfl⟩ := mem_deviceRegions.mp hr
  rfl

/-- The regions are as they should be exactly if the last one starts in 64 bits. -/
theorem regionsOk_iff {start z p : ℕ} (hn : 0 < n) (hs : s < 2 ^ 64) (hstart : pageSize ∣ start)
    (hz : pageSize ∣ z) (hp : pageSize ∣ p) (hlo : b ≤ start)
    (hhi : start + n * z + n * p ≤ b + s) :
    RegionsOk n b s (deviceRegions n start z) (deviceRegions n (start + n * z) p) ↔
      start + n * z + n * p < 2 ^ 64 + p := by
  obtain ⟨m, rfl⟩ : ∃ m, n = m + 1 := ⟨n - 1, by omega⟩
  have hlast : (m + 1) * p = m * p + p := Nat.add_one_mul m p
  constructor
  · intro h
    have hmem : ⟨pageSize, (start + (m + 1) * z + m * p) % 2 ^ 64, p % 2 ^ 32⟩ ∈
        deviceRegions (m + 1) (start + (m + 1) * z) p :=
      mem_deviceRegions.mpr ⟨m, Nat.lt_succ_self m, rfl⟩
    have hinside := (h.inside _ (List.mem_append_right _ hmem)).1
    simp only at hinside
    generalize (m + 1) * z = total at *
    omega
  · intro hlt
    have hsys : ∀ i < m + 1, start + i * z < 2 ^ 64 := by
      intro i hi
      have hmul : i * z ≤ (m + 1) * z := Nat.mul_le_mul_right _ (Nat.le_of_lt hi)
      omega
    have hpkt : ∀ i < m + 1, start + (m + 1) * z + i * p < 2 ^ 64 := by
      intro i hi
      have hmul : i * p ≤ m * p := Nat.mul_le_mul_right _ (Nat.le_of_lt_succ hi)
      omega
    have hmid : pageSize ∣ start + (m + 1) * z := Nat.dvd_add hstart (Nat.dvd_mul_left_of_dvd hz _)
    have hcarved := (carved_deviceRegions hstart hz hsys).append
      (carved_deviceRegions hmid hp hpkt) (Nat.le_add_right _ _) (Nat.le_add_right _ _)
    have hstored : ∀ x, pageSize ∣ x → pageSize ∣ x % 2 ^ 32 := by
      intro x hx
      simp only [pageSize] at *
      omega
    constructor
    · simp [deviceRegions]
    · intro r hr
      refine ⟨hcarved.aligned r hr, ?_⟩
      cases List.mem_append.mp hr with
      | inl hr => exact deviceRegions_size hr ▸ hstored z hz
      | inr hr => exact deviceRegions_size hr ▸ hstored p hp
    · exact hcarved.apart
    · intro r hr
      have hinside := hcarved.inside r hr
      exact ⟨hlo.trans hinside.1, hinside.2.trans hhi⟩
    · intro r hr r' hr'
      rw [deviceRegions_size hr, deviceRegions_size hr']
    · intro r hr r' hr'
      rw [deviceRegions_size hr, deviceRegions_size hr']

theorem not_regionsOk {z p : ℕ} (hn : 0 < n) (hb : b < 2 ^ 64)
    (hshort : s < headSize b) :
    ¬ RegionsOk n b s (deviceRegions n (firstPage b) z)
      (deviceRegions n (firstPage b + n * z) p) := by
  intro h
  have hmem : ⟨pageSize, (firstPage b + 0 * z) % 2 ^ 64, z % 2 ^ 32⟩ ∈
      deviceRegions n (firstPage b) z := mem_deviceRegions.mpr ⟨0, hn, rfl⟩
  obtain ⟨hbase, hnext⟩ := h.inside _ (List.mem_append_left _ hmem)
  simp only [Region.next, Nat.zero_mul, Nat.add_zero] at hbase hnext
  simp only [headSize, firstPage, pageDown, pageSize] at *
  omega

theorem aligned_of_short (hshort : s < headSize b) : pageDown (b + s) - firstPage b = 0 := by
  simp only [headSize, firstPage, pageDown, pageSize] at *
  omega

/-- A device's share holds its packet memory exactly if there is room for all of them. -/
theorem enoughRoom_iff (hn : 0 < n) (hs : s < 2 ^ 64) (hhead : headSize b ≤ s) :
    EnoughRoom n b s d ↔ packetSize d ≤ deviceShare n b s := by
  have hrest : restSize b s = s - headSize b := by
    simp only [restSize]
    omega
  have hpages : pageDown (b + s) - firstPage b = pageDown (s - headSize b) := by
    simp only [headSize, firstPage, pageDown, pageSize] at *
    omega
  obtain ⟨k, hk⟩ := pageSize_dvd_pageDown (if d = 0 then 2 * 1024 * 1024 else d)
  rw [EnoughRoom, deviceShare, hpages, hrest, packetSize, hk, pageDown, pageDown,
    Nat.mul_comm pageSize k, ← Nat.mul_assoc]
  rw [Nat.mul_le_mul_right_iff (by decide), Nat.mul_le_mul_right_iff (by decide)]
  rw [Nat.le_div_iff_mul_le (by decide), Nat.le_div_iff_mul_le (by decide),
    Nat.le_div_iff_mul_le hn]
  rw [Nat.mul_comm n k, Nat.mul_right_comm]

/-- The last check of `fixed_memory_chunking`, if the range reaches the first page boundary. -/
theorem passes_iff {e : ℕ} (hb : b < 2 ^ 64) (hs : s < 2 ^ 64)
    (hhead : headSize b ≤ s) (hdvd : pageSize ∣ e) (hlo : firstPage b ≤ e) (hhi : e ≤ b + s) :
    e % 2 ^ 64 ≤ (b + restSize b s) % 2 ^ 64 ↔
      e + headSize b ≤ b + s ∧ (b + s - headSize b < 2 ^ 64 ∨ 2 ^ 64 < e) ∨ e = 2 ^ 64 := by
  have hrest : b + restSize b s = b + s - headSize b := by
    simp only [restSize]
    omega
  have hshort : headSize b < 4096 ∧ b ≤ firstPage b := by
    simp only [headSize, firstPage, pageDown, pageSize]
    omega
  obtain ⟨k, rfl⟩ := hdvd
  simp only [pageSize] at *
  rw [hrest]
  omega

theorem selfCheck_ok (p : Prop) [Decidable p] :
    (if p then (.error .efault : Except ChunkErrno Unit) else .ok ()) = .ok () ↔ ¬ p := by
  split_ifs with h <;> simp [h]

theorem chunked_of_share (hb : b < 2 ^ 64) (hs : s < 2 ^ 64) (hb0 : b ≠ 0) (hs0 : s ≠ 0)
    (hshare : packetSize d ≤ deviceShare n b s) :
    fixedMemoryChunking n b s d =
      (if (b + restSize b s) % 2 ^ 64 <
            (firstPage b + n * deviceShare n b s) % 2 ^ 64 then .error .efault else .ok (),
        deviceRegions n (firstPage b) (sysmemShare n b s d),
        deviceRegions n (firstPage b + n * sysmemShare n b s d) (packetSize d)) := by
  rw [fixedMemoryChunking_eq hb hs hb0 hs0, if_neg (Nat.not_lt.mpr hshare), total_eq hshare]

theorem chunkedRight_of_head (hn : 0 < n) (hb : b < 2 ^ 64) (hs : s < 2 ^ 64) (hb0 : b ≠ 0)
    (hs0 : s ≠ 0) (hshare : packetSize d ≤ deviceShare n b s) (hhead : headSize b ≤ s) :
    ChunkedRight n b s d ↔
      firstPage b + n * deviceShare n b s < 2 ^ 64 + packetSize d ∧
        (n * deviceShare n b s + 2 * headSize b ≤ s ∧
            (b + s - headSize b < 2 ^ 64 ∨ 2 ^ 64 < firstPage b + n * deviceShare n b s) ∨
          firstPage b + n * deviceShare n b s = 2 ^ 64) := by
  have hroom : EnoughRoom n b s d := (enoughRoom_iff hn hs hhead).mpr hshare
  have hle : b ≤ firstPage b := by
    simp only [firstPage, pageDown, pageSize]
    omega
  have hfirst : firstPage b = b + headSize b := by
    rw [headSize, Nat.add_sub_cancel' hle]
  have hrest : restSize b s = s - headSize b := by
    simp only [restSize]
    omega
  have htotal : n * deviceShare n b s ≤ s - headSize b := by
    rw [← hrest]
    exact (Nat.mul_le_mul_left n (Nat.div_mul_le_self _ _)).trans (Nat.mul_div_le _ _)
  have hdvd : pageSize ∣ firstPage b + n * deviceShare n b s :=
    Nat.dvd_add (pageSize_dvd_pageDown _) (Nat.dvd_mul_left_of_dvd (pageSize_dvd_pageDown _) n)
  have hends : firstPage b + n * deviceShare n b s ≤ b + s := by omega
  have hpasses := passes_iff hb hs hhead hdvd (Nat.le_add_right _ _) hends
  have hregions := regionsOk_iff hn hs (pageSize_dvd_firstPage b)
    (pageSize_dvd_sysmemShare n b s d) (pageSize_dvd_packetSize d) hle
    ((total_eq hshare).trans_le hends)
  rw [total_eq hshare] at hregions
  have htwice : firstPage b + n * deviceShare n b s + headSize b ≤ b + s ↔
      n * deviceShare n b s + 2 * headSize b ≤ s := by omega
  rw [htwice] at hpasses
  rw [← hregions, ← hpasses]
  simp only [ChunkedRight, chunked_of_share hb hs hb0 hs0 hshare, selfCheck_ok, Nat.not_lt, hroom,
    true_imp_iff]
  exact and_congr_left fun hok ↦ ⟨fun h ↦ h hok, fun h _ ↦ h⟩

theorem chunkedRight_of_short (hn : 0 < n) (hb : b < 2 ^ 64) (hs : s < 2 ^ 64) (hb0 : b ≠ 0)
    (hs0 : s ≠ 0) (hshare : packetSize d ≤ deviceShare n b s) (hshort : s < headSize b) :
    ChunkedRight n b s d ↔
      packetSize d ≠ 0 ∧
        (b + restSize b s) % 2 ^ 64 < (firstPage b + n * deviceShare n b s) % 2 ^ 64 := by
  have hroom : EnoughRoom n b s d ↔ packetSize d = 0 := by
    rw [EnoughRoom, aligned_of_short hshort, Nat.le_zero, Nat.mul_eq_zero]
    omega
  have hregions := not_regionsOk (z := sysmemShare n b s d) (p := packetSize d) hn hb hshort
  simp only [ChunkedRight, chunked_of_share hb hs hb0 hs0 hshare, selfCheck_ok, hroom, hregions]
  exact ⟨fun h ↦ ⟨fun hzero ↦ h.1 (h.2 hzero), not_not.mp h.1⟩,
    fun h ↦ ⟨fun hpass ↦ hpass h.2, fun hzero ↦ absurd hzero h.1⟩⟩

/-- The call is right exactly if the head can be taken off twice, or if it has to fail. -/
theorem chunkedRight_iff (hn : 0 < n) (hb : b < 2 ^ 64) (hs : s < 2 ^ 64) :
    ChunkedRight n b s d ↔ HeadFits n b s d := by
  unfold HeadFits
  by_cases hnone : b = 0 ∨ s = 0
  · simp [ChunkedRight, fixedMemoryChunking, hnone]
  have hb0 : b ≠ 0 := fun h ↦ hnone (.inl h)
  have hs0 : s ≠ 0 := fun h ↦ hnone (.inr h)
  rw [if_neg hnone]
  by_cases hshare : deviceShare n b s < packetSize d
  · have hroom : ¬ EnoughRoom n b s d := by
      by_cases hhead : headSize b ≤ s
      · rw [enoughRoom_iff hn hs hhead]
        omega
      · rw [EnoughRoom, aligned_of_short (Nat.lt_of_not_le hhead), Nat.le_zero, Nat.mul_eq_zero]
        omega
    simp [ChunkedRight, fixedMemoryChunking_eq hb hs hb0 hs0, hshare, hroom]
  rw [if_neg hshare]
  by_cases hhead : headSize b ≤ s
  · rw [if_pos hhead]
    exact chunkedRight_of_head hn hb hs hb0 hs0 (Nat.le_of_not_lt hshare) hhead
  · rw [if_neg hhead]
    exact chunkedRight_of_short hn hb hs hb0 hs0 (Nat.le_of_not_lt hshare)
      (Nat.lt_of_not_le hhead)

/-- Memory from a page boundary on. -/
theorem chunkedRight_iff_aligned : ChunkedRight 2 (2 ^ 28) (2 ^ 28) 0 := by
  have hhead : headSize (2 ^ 28) = 0 := by decide
  have hshare : deviceShare 2 (2 ^ 28) (2 ^ 28) = 2 ^ 27 := by decide
  apply (chunkedRight_iff (by decide) (by decide) (by decide)).mpr
  simp only [HeadFits, EnoughRoom, hhead, hshare]
  decide

/-- Four megabytes and the head of a page: the bytes of the head are taken off twice. -/
theorem headFits_unaligned : ¬ ChunkedRight 1 0x1001 0x400fff 0 := by
  intro h
  have hroom : EnoughRoom 1 0x1001 0x400fff 0 := by
    unfold EnoughRoom
    decide
  have hfault : (fixedMemoryChunking 1 0x1001 0x400fff 0).1 = .error .efault := rfl
  exact absurd (hfault.symm.trans (h.2 hroom)) (by simp)

end Chunking

end NetL7.Driver
