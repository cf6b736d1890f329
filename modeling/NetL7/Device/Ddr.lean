import NetL7.Device.Config
import Mathlib.Tactic.Common
import Mathlib.Algebra.Order.Group.Nat

/-!
# PDFs in DDR memory

The context buffers lie at the base of the DDR, the context ring above them, and
the PDFs of all threads above the ring. Addresses have 64 bits, sizes of chunks 32.
-/

namespace NetL7.Device

/-- `NLM_MIN_FLOW_CNT` -/
abbrev nlmMinFlowCnt : ℕ := 16

/-- `sizeof (struct hw_pdf_descriptor)` -/
abbrev sizeofPdf : ℕ := 128

/-- What `init_context_save_restore_area_ddr` leaves in `nlm_phy_device_t`. -/
structure DdrArea where
  pdfBaseInDdr : ℕ
  ddrChunksize : ℕ
  deriving DecidableEq

/-- The PDF indices of a thread that `device_attach` computes. -/
structure PdfIndices where
  currentPdfIndex : ℕ
  maxPdfIndex : ℕ

namespace NlmDeviceConfig

variable (c : NlmDeviceConfig)

/-- `size_of_context_save_restore_area` rounded down to 256 bytes. -/
def contextSize : ℕ := alignDown 256 c.sizeOfContextSaveRestoreArea

/-- `buf_cnt` -/
def ddrBufCnt : ℕ := alignDown 4 (c.contextSize / 256)

/-- The base of the DDR in the internal memory map. -/
def ddrBase : ℕ := c.baseAddrOfDdrMemory ||| 2 ^ 61

/-- The check for `NLM_OUT_OF_DDR_MEMORY`. -/
def OutOfDdr : Prop :=
  c.contextSize = 0 ∨ c.sizeOfDdrMemory ≤ c.contextSize ∨ c.ddrBufCnt = 0 ∨
    (2 ^ 64 + c.sizeOfDdrMemory - c.ddrBufCnt * 4 - sizeofPdf * nlmMinFlowCnt) % 2 ^ 64 ≤
      c.contextSize

instance : Decidable c.OutOfDdr := inferInstanceAs (Decidable (_ ∨ _))

/-- The first address behind the context ring. -/
def contextRingEnd : ℕ := c.ddrBase + c.contextSize + c.ddrBufCnt * 4

/-- `top_of_ddr` -/
def topOfDdr : ℕ :=
  alignDown 128 ((c.baseAddrOfDdrMemory + c.sizeOfDdrMemory) % 2 ^ 64 ||| 2 ^ 61)

/-- The memory for PDFs as the source computes it. -/
def ddrRoom : ℕ := (2 ^ 64 + c.topOfDdr - alignUp 128 c.contextRingEnd) % 2 ^ 64

/-- `init_context_save_restore_area_ddr` -/
def initContextSaveRestoreAreaDdr : Option DdrArea :=
  if c.OutOfDdr then none
  else some ⟨alignUp 128 c.contextRingEnd, alignDown 128 (c.ddrRoom / c.maxThreads % 2 ^ 32)⟩

/-- The part of `device_attach` for PDFs in DDR. -/
def pdfIndices (area : DdrArea) (threadId : ℕ) : PdfIndices :=
  let offset := area.ddrChunksize * threadId % 2 ^ 32
  { currentPdfIndex := if offset = 0 then offset / sizeofPdf + 1 else offset / sizeofPdf
    maxPdfIndex := (2 ^ 32 + (offset + area.ddrChunksize) / sizeofPdf - 1) % 2 ^ 32 }

/-- The indices that `sysmem_alloc_pdf` hands out to a thread. -/
def HandsOut (area : DdrArea) (threadId q : ℕ) : Prop :=
  (pdfIndices area threadId).currentPdfIndex ≤ q ∧ q < (pdfIndices area threadId).maxPdfIndex

/-- What the threads rely on. -/
structure PdfsOk (c : NlmDeviceConfig) (area : DdrArea) : Prop where
  disjoint : ∀ i < c.maxThreads, ∀ j < c.maxThreads, i ≠ j →
    ∀ q, HandsOut area i q → ¬ HandsOut area j q
  nonzero : ∀ i < c.maxThreads, ∀ q, HandsOut area i q → q ≠ 0
  index_lt : ∀ i < c.maxThreads, ∀ q, HandsOut area i q → q < 2 ^ 24
  above : ∀ i < c.maxThreads, ∀ q, HandsOut area i q →
    c.contextRingEnd ≤ area.pdfBaseInDdr + sizeofPdf * q
  inside : ∀ i < c.maxThreads, ∀ q, HandsOut area i q →
    area.pdfBaseInDdr + sizeofPdf * q + sizeofPdf ≤ c.ddrBase + c.sizeOfDdrMemory

/-- A configuration that gets past `nlm_device_init_1`. The base is at most 64 GB. -/
structure DdrConfig (c : NlmDeviceConfig) : Prop where
  threads_pos : 0 < c.maxThreads
  threads_le : c.maxThreads ≤ nlmMaxThreads
  context_ge : nlmMinContextSaveRestoreArea ≤ c.sizeOfContextSaveRestoreArea
  context_lt : c.sizeOfContextSaveRestoreArea < 2 ^ 32
  base_le : c.baseAddrOfDdrMemory ≤ 2 ^ 36
  size_lt : c.sizeOfDdrMemory < 2 ^ 64

/-- The number of PDFs in the share of one thread, as far as 32 bits can hold it. -/
def pdfShare : ℕ := c.ddrRoom / c.maxThreads % 2 ^ 32 / sizeofPdf

variable {c : NlmDeviceConfig} {area : DdrArea} {i j q n : ℕ}

theorem DdrConfig.ddrBase_eq (h : DdrConfig c) : c.ddrBase = 2 ^ 61 + c.baseAddrOfDdrMemory := by
  have hle := h.base_le
  have hor := Nat.two_pow_add_eq_or_of_lt (b := c.baseAddrOfDdrMemory) (i := 61) (by omega) 1
  rw [Nat.mul_one] at hor
  rw [ddrBase, hor, Nat.or_comm]

/-- What an accepted configuration leaves below the top of the DDR. -/
theorem DdrConfig.sizes (h : DdrConfig c) (hddr : ¬ c.OutOfDdr) :
    c.contextSize < 2 ^ 32 ∧ c.ddrBufCnt * 4 ≤ c.contextSize ∧
      c.contextSize + c.ddrBufCnt * 4 + sizeofPdf * nlmMinFlowCnt < c.sizeOfDdrMemory := by
  have hge := h.context_ge
  have hlt := h.context_lt
  have hsize := h.size_lt
  simp only [OutOfDdr, contextSize, ddrBufCnt, alignDown, not_or, sizeofPdf, nlmMinFlowCnt,
    nlmMinContextSaveRestoreArea] at hge hddr ⊢
  omega

theorem DdrConfig.room_le (h : DdrConfig c) (hddr : ¬ c.OutOfDdr)
    (hsmall : c.baseAddrOfDdrMemory + c.sizeOfDdrMemory < 2 ^ 61) :
    alignUp 128 c.contextRingEnd + c.ddrRoom ≤ c.ddrBase + c.sizeOfDdrMemory := by
  have hbase := h.ddrBase_eq
  obtain ⟨hcontext, hring, hroom⟩ := h.sizes hddr
  have hor := Nat.two_pow_add_eq_or_of_lt hsmall 1
  rw [Nat.mul_one, Nat.or_comm] at hor
  have hmod : (c.baseAddrOfDdrMemory + c.sizeOfDdrMemory) % 2 ^ 64 =
      c.baseAddrOfDdrMemory + c.sizeOfDdrMemory := by omega
  simp only [sizeofPdf, nlmMinFlowCnt] at hroom
  rw [ddrRoom, topOfDdr, hmod, ← hor, contextRingEnd, hbase]
  simp only [alignUp, alignDown]
  omega

theorem handsOut_iff (hchunk : area.ddrChunksize = sizeofPdf * n) (hn : 0 < n)
    (hfit : n * i + n < 2 ^ 25 + 2 ^ 25) (hwrap : n * i < 2 ^ 25) :
    HandsOut area i q ↔ (0 < q ∧ n * i ≤ q) ∧ q + 1 < n * i + n := by
  have hoffset : area.ddrChunksize * i % 2 ^ 32 = sizeofPdf * (n * i) := by
    rw [hchunk, Nat.mul_assoc]
    apply Nat.mod_eq_of_lt
    simp only [sizeofPdf]
    omega
  have hcurrent : (if sizeofPdf * (n * i) = 0 then sizeofPdf * (n * i) / sizeofPdf + 1
      else sizeofPdf * (n * i) / sizeofPdf) ≤ q ↔ 0 < q ∧ n * i ≤ q := by
    simp only [sizeofPdf]
    split
    · omega
    · omega
  have hmax : (2 ^ 32 + (sizeofPdf * (n * i) + sizeofPdf * n) / sizeofPdf - 1) % 2 ^ 32 =
      n * i + n - 1 := by
    simp only [sizeofPdf]
    omega
  simp only [HandsOut, pdfIndices, hoffset]
  rw [hcurrent, hchunk, hmax]
  omega

theorem mul_le_of_lt (hij : i < j) (n : ℕ) : n * i + n ≤ n * j := by
  rw [← Nat.mul_succ]
  exact Nat.mul_le_mul_left _ hij

theorem area_of_accepted (harea : c.initContextSaveRestoreAreaDdr = some area) :
    ¬ c.OutOfDdr ∧ area.pdfBaseInDdr = alignUp 128 c.contextRingEnd ∧
      area.ddrChunksize = sizeofPdf * c.pdfShare := by
  by_cases hout : c.OutOfDdr
  · rw [initContextSaveRestoreAreaDdr, if_pos hout] at harea
    cases harea
  · rw [initContextSaveRestoreAreaDdr, if_neg hout] at harea
    cases harea
    exact ⟨hout, rfl, Nat.mul_comm _ _⟩

theorem DdrConfig.pdfShare_lt (h : DdrConfig c) : c.pdfShare < 2 ^ 25 := by
  have hpos := h.threads_pos
  simp only [pdfShare, sizeofPdf]
  omega

/-- A chunk of no bytes has the highest limit of all. -/
theorem PdfsOk.pdfShare_pos (h : DdrConfig c) (hok : PdfsOk c area)
    (hchunk : area.ddrChunksize = sizeofPdf * c.pdfShare) : 0 < c.pdfShare := by
  by_contra hzero
  have hzero : area.ddrChunksize = 0 := by
    rw [hchunk, Nat.eq_zero_of_not_pos hzero, Nat.mul_zero]
  have hout : HandsOut area 0 (2 ^ 24) := by
    simp only [HandsOut, pdfIndices, hzero]
    decide
  exact absurd (hok.index_lt 0 h.threads_pos _ hout) (lt_irrefl _)

/-- The first thread whose PDFs reach the limit hands one out that is too high. -/
theorem PdfsOk.pdfShare_mul_le (h : DdrConfig c) (hok : PdfsOk c area)
    (hchunk : area.ddrChunksize = sizeofPdf * c.pdfShare) :
    c.pdfShare * c.maxThreads ≤ 2 ^ 24 + 1 := by
  have hsome := hok.pdfShare_pos h hchunk
  have hshare := h.pdfShare_lt
  have hmax := h.threads_le
  refine Nat.le_of_not_lt fun hover ↦ ?_
  set i := (2 ^ 24 + 1) / c.pdfShare with hi
  have hle : c.pdfShare * i ≤ 2 ^ 24 + 1 := Nat.mul_div_le _ _
  have hlt : 2 ^ 24 + 1 < c.pdfShare * i + c.pdfShare := by
    rw [← Nat.mul_succ]
    exact Nat.lt_mul_div_succ _ hsome
  have hthread : i < c.maxThreads := by
    apply (Nat.div_lt_iff_lt_mul hsome).mpr
    rw [Nat.mul_comm]
    exact hover
  have hlarge : 2 ^ 16 < c.pdfShare := by
    by_contra hsmall
    have hmul := Nat.mul_le_mul (Nat.le_of_not_lt hsmall) hmax
    exact absurd (hover.trans_le hmul) (by decide)
  have hout : HandsOut area i (c.pdfShare * i + c.pdfShare - 2) := by
    apply (handsOut_iff hchunk hsome (by omega) (by omega)).mpr
    omega
  have hindex := hok.index_lt i hthread _ hout
  omega

theorem DdrConfig.pdf_inside (h : DdrConfig c) (hddr : ¬ c.OutOfDdr)
    (hall : c.pdfShare * c.maxThreads ≤ 2 ^ 24 + 1) (hlast : q + 1 < c.pdfShare * c.maxThreads) :
    alignUp 128 c.contextRingEnd + sizeofPdf * q + sizeofPdf ≤
      c.ddrBase + c.sizeOfDdrMemory := by
  by_cases hsmall : c.baseAddrOfDdrMemory + c.sizeOfDdrMemory < 2 ^ 61
  · have hroom := h.room_le hddr hsmall
    have hbytes : sizeofPdf * c.pdfShare ≤ c.ddrRoom / c.maxThreads :=
      (Nat.mul_div_le _ _).trans (Nat.mod_le _ _)
    have hshares : sizeofPdf * (c.pdfShare * c.maxThreads) ≤ c.ddrRoom :=
      calc sizeofPdf * (c.pdfShare * c.maxThreads)
          = sizeofPdf * c.pdfShare * c.maxThreads := (Nat.mul_assoc _ _ _).symm
        _ ≤ c.ddrRoom / c.maxThreads * c.maxThreads := Nat.mul_le_mul_right _ hbytes
        _ ≤ c.ddrRoom := Nat.div_mul_le_self _ _
    simp only [sizeofPdf] at hshares ⊢
    omega
  · -- a DDR of that size has room for all indices
    obtain ⟨hcontext, hring, -⟩ := h.sizes hddr
    have hbase := h.ddrBase_eq
    have hle := h.base_le
    rw [contextRingEnd, hbase]
    simp only [alignUp, sizeofPdf]
    omega

theorem pdfsOk_of_share (h : DdrConfig c) (hddr : ¬ c.OutOfDdr)
    (hbase : area.pdfBaseInDdr = alignUp 128 c.contextRingEnd)
    (hchunk : area.ddrChunksize = sizeofPdf * c.pdfShare) (hsome : 0 < c.pdfShare)
    (hall : c.pdfShare * c.maxThreads ≤ 2 ^ 24 + 1) : PdfsOk c area := by
  have hiff : ∀ i < c.maxThreads, ∀ q, HandsOut area i q ↔
      (0 < q ∧ c.pdfShare * i ≤ q) ∧ q + 1 < c.pdfShare * i + c.pdfShare := by
    intro i hi q
    have hend := mul_le_of_lt hi c.pdfShare
    exact handsOut_iff hchunk hsome (by omega) (by omega)
  have hbelow : ∀ i < c.maxThreads, ∀ q, HandsOut area i q →
      q + 1 < c.pdfShare * c.maxThreads := by
    intro i hi q hq
    have hend := mul_le_of_lt hi c.pdfShare
    have hlast := ((hiff i hi q).mp hq).2
    omega
  constructor
  · intro i hi j hj hne q hq hq'
    have hqi := (hiff i hi q).mp hq
    have hqj := (hiff j hj q).mp hq'
    cases hne.lt_or_gt with
    | inl hlt =>
      have hend := mul_le_of_lt hlt c.pdfShare
      omega
    | inr hgt =>
      have hend := mul_le_of_lt hgt c.pdfShare
      omega
  · exact fun i hi q hq ↦ Nat.ne_of_gt ((hiff i hi q).mp hq).1.1
  · intro i hi q hq
    have hlast := hbelow i hi q hq
    omega
  · intro i hi q hq
    have hle : c.contextRingEnd ≤ alignUp 128 c.contextRingEnd := by
      simp only [alignUp]
      omega
    rw [hbase]
    exact hle.trans (Nat.le_add_right _ _)
  · intro i hi q hq
    rw [hbase]
    exact h.pdf_inside hddr hall (hbelow i hi q hq)

/-- The threads share the PDFs in DDR correctly exactly if each of them gets at
least one, and all together get no more than an index of 24 bits can name. -/
theorem pdfsOk_iff (h : DdrConfig c) (harea : c.initContextSaveRestoreAreaDdr = some area) :
    PdfsOk c area ↔ 0 < c.pdfShare ∧ c.pdfShare * c.maxThreads ≤ 2 ^ 24 + 1 := by
  obtain ⟨hddr, hbase, hchunk⟩ := area_of_accepted harea
  constructor
  · intro hok
    exact ⟨hok.pdfShare_pos h hchunk, hok.pdfShare_mul_le h hchunk⟩
  · rintro ⟨hsome, hall⟩
    exact pdfsOk_of_share h hddr hbase hchunk hsome hall

/-- A configuration with DDR memory. -/
def withDdr (sizeOfDdrMemory maxThreads : ℕ) : NlmDeviceConfig :=
  { plain with sizeOfDdrMemory := sizeOfDdrMemory, maxThreads := maxThreads }

theorem ddrConfig_withDdr {sizeOfDdrMemory maxThreads : ℕ} (hsize : sizeOfDdrMemory < 2 ^ 64)
    (hpos : 0 < maxThreads) (hle : maxThreads ≤ nlmMaxThreads) :
    DdrConfig (withDdr sizeOfDdrMemory maxThreads) where
  threads_pos := hpos
  threads_le := hle
  context_ge := (by decide : nlmMinContextSaveRestoreArea ≤ 0x10000)
  context_lt := (by decide : 0x10000 < 2 ^ 32)
  base_le := Nat.zero_le _
  size_lt := hsize

theorem pdfsOk_iff_sample : PdfsOk (withDdr (2 ^ 30) 4) ⟨2 ^ 61 + 66560, 268418816⟩ := by
  have hconfig : DdrConfig (withDdr (2 ^ 30) 4) :=
    ddrConfig_withDdr (by decide) (by decide) (by decide)
  apply (pdfsOk_iff hconfig (by decide +kernel)).mpr
  decide +kernel

/-- With 4 GB of DDR the only thread gets indices of 25 bits. -/
theorem fourGigabytes_index :
    (withDdr (2 ^ 32) 1).initContextSaveRestoreAreaDdr = some ⟨2 ^ 61 + 66560, 4294900736⟩ ∧
      ¬ PdfsOk (withDdr (2 ^ 32) 1) ⟨2 ^ 61 + 66560, 4294900736⟩ := by
  refine ⟨by decide +kernel, fun h ↦ ?_⟩
  exact absurd (h.index_lt 0 (by decide) (2 ^ 24) ⟨by decide +kernel, by decide +kernel⟩)
    (by decide)

end NlmDeviceConfig

end NetL7.Device
