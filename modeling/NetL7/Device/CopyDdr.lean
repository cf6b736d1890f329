import Mathlib.Data.Nat.Notation
import Mathlib.Tactic.IntervalCases

/-!
# Copies into DDR memory

`nlm_device_copy_into_ddr` is built in two variants. The DMA engine moves `byte_cnt` bytes. The
loop over words ends `byte_cnt * sizeof (uint32_t)` bytes after its start, so it moves four
times as many.
-/

namespace NetL7.Device

/-- DDR memory has the address bits `IND_ADDR_LSB` and `IND_ADDR_MSB` carry, 36 in all. -/
abbrev DdrMemory := BitVec 36 → BitVec 8

/-- The bytes of `ddr_dma_area`. -/
abbrev DmaArea := ℕ → BitVec 8

/-- `((uint32_t *) ddr_dma_area)[i]` -/
def DmaArea.word (area : DmaArea) (i : ℕ) : BitVec 32 :=
  area (4 * i + 3) ++ area (4 * i + 2) ++ area (4 * i + 1) ++ area (4 * i)

/-- `IND_ADDR_LSB` and `IND_ADDR_MSB` of one indirect access. -/
def indAddr (addr : BitVec 64) : BitVec 32 × BitVec 32 :=
  (addr.setWidth 32, 0x20000000 ||| ((addr >>> 32).setWidth 32 &&& 0xF))

/-- `nlm_device_ddr_write_ind_32`: the controller stores the four bytes of `data`. -/
def nlmDeviceDdrWriteInd32 (ddr : DdrMemory) (addr : BitVec 64) (data : BitVec 32) : DdrMemory :=
  let (addrLsb, addrMsb) := indAddr addr
  fun a ↦
    let k := (a - (addrMsb.setWidth 4 ++ addrLsb)).toNat
    if k < 4 then data.extractLsb' (8 * k) 8 else ddr a

/-- A DDR memory and the bytes of the DMA area that have been read. -/
structure CopyState where
  ddr : DdrMemory
  areaRead : List ℕ

/-- The loop of `nlm_device_copy_into_ddr`, or nothing if it has not ended within `fuel`. -/
def copyWords (area : DmaArea) (last : BitVec 64) :
    ℕ → BitVec 64 → ℕ → CopyState → Option CopyState
  | 0, _, _, _ => none
  | fuel + 1, addr, i, s =>
    if addr < last then
      copyWords area last fuel (addr + 4) (i + 1)
        { ddr := nlmDeviceDdrWriteInd32 s.ddr addr (area.word i)
          areaRead := s.areaRead ++ [4 * i, 4 * i + 1, 4 * i + 2, 4 * i + 3] }
    else some s

/-- `ddr_addr & ~(1ull << 61)` -/
def clearDdrBit (ddrAddr : BitVec 64) : BitVec 64 := ddrAddr &&& ~~~(1#64 <<< 61)

/-- `nlm_device_copy_into_ddr` where `NO_DMA_FOR_DDR` is defined. -/
def nlmDeviceCopyIntoDdr (area : DmaArea) (ddrAddr : BitVec 64) (byteCnt : BitVec 32)
    (ddr : DdrMemory) : Option CopyState :=
  let ddrAddr := clearDdrBit ddrAddr
  let last := ddrAddr + byteCnt.setWidth 64 * 4
  copyWords area last (byteCnt.toNat + 1) ddrAddr 0 ⟨ddr, []⟩

/-- What the DMA engine leaves in DDR memory. -/
def dmaTransfer (area : DmaArea) (ddrAddr : BitVec 64) (byteCnt : ℕ) (ddr : DdrMemory) :
    DdrMemory := fun a ↦
  let k := (a - ddrAddr.setWidth 36).toNat
  if k < byteCnt then area k else ddr a

/-- The clause for one call: the loop over words does what the DMA engine does. -/
def CopiesAsDma (area : DmaArea) (ddrAddr : BitVec 64) (byteCnt : BitVec 32) (ddr : DdrMemory) :
    Prop :=
  ∃ s, nlmDeviceCopyIntoDdr area ddrAddr byteCnt ddr = some s ∧
    s.ddr = dmaTransfer area ddrAddr byteCnt.toNat ddr ∧ ∀ k ∈ s.areaRead, k < byteCnt.toNat

theorem indAddr_joined (addr : BitVec 64) :
    (indAddr addr).2.setWidth 4 ++ (indAddr addr).1 = addr.setWidth 36 := by
  apply BitVec.eq_of_getLsbD_eq
  intro i hi
  have hhigh : (indAddr addr).2.setWidth 4 = (addr >>> 32).setWidth 4 := by
    apply BitVec.eq_of_getLsbD_eq
    intro j hj
    simp only [indAddr]
    interval_cases j <;> simp
  have hlow : (indAddr addr).1 = addr.setWidth 32 := rfl
  rw [hhigh, hlow, BitVec.getLsbD_append]
  by_cases h : i < 32
  · simp [h, show i < 36 by omega]
  · simp [h, show i < 36 by omega, show i - 32 < 4 by omega, show 32 + (i - 32) = i by omega]

theorem extractLsb'_word (area : DmaArea) (i : ℕ) {k : ℕ} (hk : k < 4) :
    (area.word i).extractLsb' (8 * k) 8 = area (4 * i + k) := by
  apply BitVec.eq_of_getLsbD_eq
  intro j hj
  simp only [DmaArea.word, BitVec.getLsbD_extractLsb', BitVec.getLsbD_append, hj, decide_true,
    Bool.true_and]
  interval_cases k
  · simp [hj]
  · simp [hj, show 8 + j - 8 = j by omega]
  · simp [hj, show ¬ 16 + j < 8 by omega, show ¬ 16 + j - 8 < 8 by omega,
      show 16 + j - 8 - 8 = j by omega]
  · simp [hj, show ¬ 24 + j < 8 by omega, show ¬ 24 + j - 8 < 8 by omega,
      show ¬ 24 + j - 8 - 8 < 8 by omega,
      show 24 + j - 8 - 8 - 8 = j by omega]

theorem setWidth_clearDdrBit (ddrAddr : BitVec 64) :
    (clearDdrBit ddrAddr).setWidth 36 = ddrAddr.setWidth 36 := by
  apply BitVec.eq_of_getLsbD_eq
  intro i hi
  have h61 : i ≠ 61 := by omega
  have hbit : (~~~(1#64 <<< 61)).getLsbD i = true := by
    interval_cases i <;> decide
  simp only [clearDdrBit, BitVec.getLsbD_setWidth, BitVec.getLsbD_and, hbit, Bool.and_true]

theorem dmaTransfer_clearDdrBit (area : DmaArea) (ddrAddr : BitVec 64) (n : ℕ) (ddr : DdrMemory) :
    dmaTransfer area (clearDdrBit ddrAddr) n ddr = dmaTransfer area ddrAddr n ddr := by
  funext a
  simp only [dmaTransfer, setWidth_clearDdrBit]

/-- One word more is what the DMA engine moves with four bytes more. -/
theorem write_dmaTransfer (area : DmaArea) (base : BitVec 64) (ddr : DdrMemory) {i : ℕ}
    (hi : 4 * (i + 1) ≤ 2 ^ 36) :
    nlmDeviceDdrWriteInd32 (dmaTransfer area base (4 * i) ddr) (base + BitVec.ofNat 64 (4 * i))
      (area.word i) = dmaTransfer area base (4 * (i + 1)) ddr := by
  funext a
  have hsub : (a - (base + BitVec.ofNat 64 (4 * i)).setWidth 36).toNat =
      ((a - base.setWidth 36).toNat + 2 ^ 36 - 4 * i) % 2 ^ 36 := by
    simp only [BitVec.toNat_sub, BitVec.toNat_setWidth, BitVec.toNat_add, BitVec.toNat_ofNat]
    omega
  have hlt : (a - base.setWidth 36).toNat < 2 ^ 36 := BitVec.isLt _
  simp only [nlmDeviceDdrWriteInd32, indAddr_joined, dmaTransfer, hsub]
  by_cases hk : ((a - base.setWidth 36).toNat + 2 ^ 36 - 4 * i) % 2 ^ 36 < 4
  · have hword : 4 * i + ((a - base.setWidth 36).toNat + 2 ^ 36 - 4 * i) % 2 ^ 36 =
        (a - base.setWidth 36).toNat := by omega
    rw [if_pos hk, if_pos (by omega), extractLsb'_word area i hk, hword]
  · rw [if_neg hk]
    by_cases hold : (a - base.setWidth 36).toNat < 4 * i
    · rw [if_pos hold, if_pos (by omega)]
    · rw [if_neg hold, if_neg (by omega)]

theorem range_four_mul_succ (i : ℕ) :
    List.range (4 * (i + 1)) = List.range (4 * i) ++ [4 * i, 4 * i + 1, 4 * i + 2, 4 * i + 3] := by
  rw [show 4 * (i + 1) = 4 * i + 1 + 1 + 1 + 1 by omega]
  simp only [List.range_succ, List.append_assoc, List.cons_append, List.nil_append]

/-- After `i` words the loop has done what the DMA engine does with `4 * i` bytes. -/
theorem copyWords_eq (area : DmaArea) (base : BitVec 64) (ddr : DdrMemory) (n i : ℕ)
    (h36 : 4 * (i + n) ≤ 2 ^ 36) (h64 : base.toNat + 4 * (i + n) < 2 ^ 64) :
    copyWords area (base + BitVec.ofNat 64 (4 * (i + n))) (n + 1)
      (base + BitVec.ofNat 64 (4 * i)) i ⟨dmaTransfer area base (4 * i) ddr, List.range (4 * i)⟩ =
      some ⟨dmaTransfer area base (4 * (i + n)) ddr, List.range (4 * (i + n))⟩ := by
  induction n generalizing i with
  | zero => simp [copyWords]
  | succ n ih =>
    have hlt : base + BitVec.ofNat 64 (4 * i) < base + BitVec.ofNat 64 (4 * (i + (n + 1))) := by
      simp only [BitVec.lt_def, BitVec.toNat_add, BitVec.toNat_ofNat]
      omega
    have hnext : base + BitVec.ofNat 64 (4 * i) + 4 = base + BitVec.ofNat 64 (4 * (i + 1)) := by
      rw [BitVec.add_assoc, show (4 : BitVec 64) = BitVec.ofNat 64 4 from rfl,
        ← BitVec.ofNat_add, Nat.mul_add_one]
    have hih := ih (i + 1) (by omega) (by omega)
    rw [show i + 1 + n = i + (n + 1) by omega] at hih
    rw [copyWords, if_pos hlt, hnext, write_dmaTransfer area base ddr (by omega),
      ← range_four_mul_succ]
    exact hih

theorem setWidth_mul_four (byteCnt : BitVec 32) :
    byteCnt.setWidth 64 * 4 = BitVec.ofNat 64 (4 * byteCnt.toNat) := by
  have h4 : (4 : BitVec 64).toNat = 4 := rfl
  have hcnt : byteCnt.toNat < 2 ^ 32 := byteCnt.isLt
  apply BitVec.eq_of_toNat_eq
  simp only [BitVec.toNat_mul, BitVec.toNat_setWidth, BitVec.toNat_ofNat, h4]
  omega

/-- No end of the loop wraps: the largest address without the bit leaves room for every count. -/
theorem clearDdrBit_add_lt (ddrAddr : BitVec 64) (byteCnt : BitVec 32) :
    (clearDdrBit ddrAddr).toNat + 4 * byteCnt.toNat < 2 ^ 64 := by
  have hcnt : byteCnt.toNat < 2 ^ 32 := byteCnt.isLt
  have hmask : (~~~(1#64 <<< 61)).toNat = 2 ^ 64 - 1 - 2 ^ 61 := by decide
  have hle : (clearDdrBit ddrAddr).toNat ≤ 2 ^ 64 - 1 - 2 ^ 61 := by
    rw [clearDdrBit, BitVec.toNat_and, ← hmask]
    exact Nat.and_le_right
  omega

/-- The loop does what the DMA engine does with four times as many bytes. -/
theorem nlmDeviceCopyIntoDdr_eq (area : DmaArea) (ddrAddr : BitVec 64) (byteCnt : BitVec 32)
    (ddr : DdrMemory) : nlmDeviceCopyIntoDdr area ddrAddr byteCnt ddr =
      some ⟨dmaTransfer area ddrAddr (4 * byteCnt.toNat) ddr, List.range (4 * byteCnt.toNat)⟩ := by
  have hcnt : byteCnt.toNat < 2 ^ 32 := byteCnt.isLt
  have h64 := clearDdrBit_add_lt ddrAddr byteCnt
  have hloop := copyWords_eq area (clearDdrBit ddrAddr) ddr byteCnt.toNat 0 (by omega) (by omega)
  have hnone : dmaTransfer area (clearDdrBit ddrAddr) 0 ddr = ddr := by
    funext a
    simp [dmaTransfer]
  rw [nlmDeviceCopyIntoDdr, setWidth_mul_four]
  simpa [hnone, dmaTransfer_clearDdrBit] using hloop

/-- No copy of a positive count is the one of the DMA engine: the loop reads words of the DMA
area that lie behind the count. -/
theorem never_copiesAsDma (area : DmaArea) (ddrAddr : BitVec 64) (byteCnt : BitVec 32)
    (ddr : DdrMemory) (hcnt : 0 < byteCnt.toNat) : ¬ CopiesAsDma area ddrAddr byteCnt ddr := by
  rintro ⟨s, hs, -, hread⟩
  rw [nlmDeviceCopyIntoDdr_eq] at hs
  cases hs
  exact absurd (hread byteCnt.toNat (List.mem_range.mpr (by omega))) (lt_irrefl _)

/-- Not even where DDR memory already holds what is copied. -/
theorem never_copiesAsDma_sample :
    ¬ CopiesAsDma (fun k ↦ BitVec.ofNat 8 k) ((1 <<< 61) + 256) 64 fun a ↦ a.setWidth 8 :=
  never_copiesAsDma _ _ 64 _ (by decide)

/-- Clearing one PDF clears the three behind it as well. -/
theorem clear_pdf_overruns : ¬ CopiesAsDma (fun _ ↦ 0) (1 <<< 61) 16 (fun _ ↦ 0xff) := by
  rintro ⟨s, hs, hddr, -⟩
  rw [nlmDeviceCopyIntoDdr_eq] at hs
  cases hs
  have := congrFun hddr 16
  revert this
  decide

end NetL7.Device
