import NetL7.Device.SystemMemory
import Mathlib.Algebra.Order.Group.Nat

/-!
# The check for overlapping rings

`check_mem_overlap` rebuilds the memory of every ring from the registers that
`physical_device_init` wrote for it. The registers hold the address of the pointer
mirrors instead of the base of the system memory, no size of DDR memory from
`2 ^ 32` on, and for a ring without DDR memory the check keeps whatever its
variable for the base of the DDR memory held before.
-/

namespace NetL7.Device

/-- `PDF0_CONFIG_DEFAULT` -/
abbrev pdf0ConfigDefault : ℕ := 2

/-- The registers of one ring that the check reads. -/
structure RingRegisters where
  pdfConfig : ℕ
  pdfMemmapConfig : ℕ
  fdfRdfBaseLow : ℕ
  fdfRdfBaseHi : ℕ
  cnxtBuffBaseLo : ℕ
  cnxtBuffBaseHi : ℕ
  /-- `SCRATCH0 + (2 * i) * 4` -/
  scratchSysmem : ℕ
  /-- `SCRATCH0 + (2 * i + 1) * 4` -/
  scratchDdr : ℕ

/-- Two registers read as one address. -/
def joinWords (hi low : ℕ) : ℕ := hi <<< 32 ||| low

namespace RingRegisters

variable (r : RingRegisters)

/-- `sysmem_lo[i]` -/
def sysmemLo : ℕ :=
  if r.pdfConfig = 0 then 0
  else if r.pdfConfig ≠ pdf0ConfigDefault then joinWords r.fdfRdfBaseHi r.fdfRdfBaseLow
  else 0

/-- `ddr_lo[i]`, which held `stale` before. -/
def ddrLo (stale : ℕ) : ℕ :=
  if r.pdfConfig = 0 then 0
  else if r.pdfConfig ≠ pdf0ConfigDefault then
    -- nothing is assigned for a ring without DDR memory
    if r.pdfMemmapConfig ≠ 0 then joinWords r.cnxtBuffBaseHi r.cnxtBuffBaseLo else stale
  else 0

end RingRegisters

/-- `lo + size - 1` in 64 bits -/
def rangeHi (lo size : ℕ) : ℕ := (lo + size + (2 ^ 64 - 1)) % 2 ^ 64

/-- The test of one pair of ranges. -/
def Clash (lo size lo' size' : ℕ) : Prop :=
  lo ≠ 0 ∧ lo' ≠ 0 ∧ ¬ (rangeHi lo size < lo' ∨ rangeHi lo' size' < lo)

instance (lo size lo' size' : ℕ) : Decidable (Clash lo size lo' size') :=
  inferInstanceAs (Decidable (_ ∧ _))

/-- `check_mem_overlap`, where `stale` is what `ddr_lo` held before. -/
def checkMemOverlap (ring : Fin nlmLastUnusedRingId → RingRegisters)
    (stale : Fin nlmLastUnusedRingId → ℕ) : NlmStatus :=
  let clash := (List.finRange nlmLastUnusedRingId).any fun i ↦
    ((List.finRange nlmLastUnusedRingId).any fun j ↦ i ≠ j ∧
      Clash (ring i).sysmemLo (ring i).scratchSysmem
        (ring j).sysmemLo (ring j).scratchSysmem) ||
    ((List.finRange nlmLastUnusedRingId).any fun j ↦ i ≠ j ∧
      Clash ((ring i).ddrLo (stale i)) (ring i).scratchDdr
        ((ring j).ddrLo (stale j)) (ring j).scratchDdr)
  if clash then .invalidDeviceConfig else .ok

/-- `pdf_config` of `configure_device`; `nlmBigEndian` belongs to the build. -/
def pdfConfigWord (nlmBigEndian : Bool) : ℕ :=
  1 <<< 1 ||| 0 <<< 4 ||| nlmBigEndian.toNat <<< 5 ||| 0 <<< 8 ||| 2 <<< 24

namespace NlmDeviceConfig

variable (c : NlmDeviceConfig) (b : Board)

/-- `CONVERT_TO_PHYSICAL` -/
def convertToPhysical (address : ℕ) : ℕ :=
  (c.sysmemBasePhys + (address - c.sysmemBaseVirt)) % 2 ^ 64

/-- The physical address of the pointer mirrors. -/
def mirrorPhys : ℕ := c.convertToPhysical (c.mirrorBase b)

/-- The physical address of the context buffers. -/
def contextPhys : ℕ :=
  if c.UseDdrMemory b then c.ddrBase else c.convertToPhysical (alignUp 256 (c.databaseEnd b))

/-- The size of the DDR memory as the registers hold it. -/
def recordedDdr : ℕ :=
  if c.sizeOfDdrMemory >>> 32 ≠ 0 then 0 else c.sizeOfDdrMemory % 2 ^ 32

/-- What `physical_device_init` writes for a ring before the check. -/
def ringRegisters (nlmBigEndian : Bool) : RingRegisters where
  pdfConfig := pdfConfigWord nlmBigEndian
  pdfMemmapConfig := if c.UseDdrMemory b then 1 <<< 16 else 0
  fdfRdfBaseLow := c.mirrorPhys b % 2 ^ 32
  fdfRdfBaseHi := c.mirrorPhys b >>> 32 % 2 ^ 32
  cnxtBuffBaseLo := c.contextPhys b % 2 ^ 32
  cnxtBuffBaseHi := c.contextPhys b >>> 32 % 2 ^ 32
  scratchSysmem := c.sysmemSize % 2 ^ 32
  scratchDdr := c.recordedDdr

/-- A configuration that came as far as the check. The system memory lies in the
physical address space, and the base of the DDR memory is at most 64 GB. -/
structure SetUp (i : ℕ) : Prop where
  ringId_eq : c.ringId = i
  checked : ∃ allocated, c.initError allocated = none
  areas : (c.initHardwareAreas b).2 = .ok
  sysmem_lt : c.sysmemSize < 2 ^ 32
  sysmem_le : c.sysmemBasePhys + c.sysmemSize ≤ 2 ^ 64
  base_le : c.baseAddrOfDdrMemory ≤ 2 ^ 36
  ddr_lt : c.sizeOfDdrMemory < 2 ^ 64

end NlmDeviceConfig

/-- The rings of a device: the configured ones, and what the registers hold of the
others, which are absent or not set up. -/
structure Rings where
  board : Board
  valid : board.Valid
  phyDevice_pos : 0 < board.sizeofPhyDevice
  hwType_ne : board.hwType ≠ 5
  nlmBigEndian : Bool
  config : Fin nlmLastUnusedRingId → Option NlmDeviceConfig
  setUp : ∀ i c, config i = some c → c.SetUp board i
  idle : Fin nlmLastUnusedRingId → RingRegisters
  idle_config : ∀ i, (idle i).pdfConfig = 0 ∨ (idle i).pdfConfig = pdf0ConfigDefault

/-- Some address belongs to both ranges. -/
def Meets (base size base' size' : ℕ) : Prop :=
  ∃ x, (base ≤ x ∧ x < base + size) ∧ base' ≤ x ∧ x < base' + size'

/-- Each range begins before the other ends. -/
def Crosses (base size base' size' : ℕ) : Prop := base < base' + size' ∧ base' < base + size

namespace Rings

variable (rings : Rings)

def registers (i : Fin nlmLastUnusedRingId) : RingRegisters :=
  match rings.config i with
  | some c => c.ringRegisters rings.board rings.nlmBigEndian
  | none => rings.idle i

/-- Two different rings have the configurations `c` and `d`. -/
def Pair (c d : NlmDeviceConfig) : Prop :=
  ∃ i j, i ≠ j ∧ rings.config i = some c ∧ rings.config j = some d

/-- The memories of two rings intersect. -/
def Overlap : Prop :=
  ∃ c d, rings.Pair c d ∧
    (Meets c.sysmemBasePhys c.sysmemSize d.sysmemBasePhys d.sysmemSize ∨
      (c.UseDdrMemory rings.board ∧ d.UseDdrMemory rings.board ∧
        Meets c.baseAddrOfDdrMemory c.sizeOfDdrMemory d.baseAddrOfDdrMemory d.sizeOfDdrMemory))

/-- The system memory, moved up to the pointer mirrors, stays below `2 ^ 64`. -/
def MirrorFits (c : NlmDeviceConfig) : Prop :=
  c.sysmemBasePhys + (c.mirrorBase rings.board - c.sysmemBaseVirt) + c.sysmemSize ≤ 2 ^ 64

/-- The memories of two rings intersect, and the registers show it. -/
def Visible : Prop :=
  ∃ c d, rings.Pair c d ∧
    ((rings.MirrorFits c ∧ rings.MirrorFits d ∧
        Meets c.sysmemBasePhys c.sysmemSize d.sysmemBasePhys d.sysmemSize) ∨
      (c.UseDdrMemory rings.board ∧ d.UseDdrMemory rings.board ∧
        Crosses c.baseAddrOfDdrMemory c.recordedDdr d.baseAddrOfDdrMemory d.recordedDdr))

/-- A ring without DDR memory stands beside a ring such that the registers hold two
bytes of DDR memory for the two. -/
def Exposed : Prop :=
  ∃ c d, rings.Pair c d ∧ ¬ c.UseDdrMemory rings.board ∧ 2 ≤ c.recordedDdr + d.recordedDdr

end Rings

section Ranges

variable {base size base' size' lo lo' : ℕ}

theorem meets_iff (hsize : 0 < size) (hsize' : 0 < size') :
    Meets base size base' size' ↔ Crosses base size base' size' := by
  constructor
  · rintro ⟨x, hx, hx'⟩
    constructor <;> omega
  · rintro ⟨h, h'⟩
    refine ⟨max base base', ?_, ?_⟩ <;> omega

theorem Crosses.symm (h : Crosses base size base' size') : Crosses base' size' base size :=
  ⟨h.2, h.1⟩

theorem rangeHi_eq (hlo : 0 < lo) (hfits : lo + size ≤ 2 ^ 64) :
    rangeHi lo size = lo + size - 1 := by
  rw [rangeHi]
  omega

theorem clash_iff (hlo : 0 < lo) (hlo' : 0 < lo') (hfits : lo + size ≤ 2 ^ 64)
    (hfits' : lo' + size' ≤ 2 ^ 64) :
    Clash lo size lo' size' ↔ Crosses lo size lo' size' := by
  rw [Clash, Crosses, rangeHi_eq hlo hfits, rangeHi_eq hlo' hfits']
  omega

theorem Clash.symm (h : Clash lo size lo' size') : Clash lo' size' lo size := by
  obtain ⟨hlo, hlo', hnot⟩ := h
  exact ⟨hlo', hlo, fun hor ↦ hnot hor.symm⟩

/-- A range with an unknown lower end clashes with nothing if the sizes are so small. -/
theorem not_clash_of_small (hlo : lo < 2 ^ 64) (hlo' : lo' < 2 ^ 64) (hsum : size + size' < 2) :
    ¬ Clash lo size lo' size' := by
  rintro ⟨hne, hne', hnot⟩
  rw [rangeHi_eq (by omega) (by omega), rangeHi_eq (by omega) (by omega)] at hnot
  omega

theorem exists_clash (hlo' : 2 ≤ lo') (hfits' : lo' + size' ≤ 2 ^ 63) (hsize : size ≤ 2 ^ 32)
    (hsum : 2 ≤ size + size') : ∃ lo < 2 ^ 64, Clash lo size lo' size' := by
  have hlo : ∃ lo, 0 < lo ∧ lo ≤ lo' + 1 ∧ Crosses lo size lo' size' := by
    rcases Nat.lt_or_ge 1 size' with hbig | hsmall
    · exact ⟨lo' + 1, by omega, by omega, by omega, by omega⟩
    · rcases Nat.eq_zero_or_pos size' with hzero | hpos
      · exact ⟨lo' - 1, by omega, by omega, by omega, by omega⟩
      · exact ⟨lo', by omega, by omega, by omega, by omega⟩
  obtain ⟨lo, hpos, hle, hcross⟩ := hlo
  exact ⟨lo, by omega, (clash_iff hpos (by omega) (by omega) (by omega)).mpr hcross⟩

theorem joinWords_split {x : ℕ} (hx : x < 2 ^ 64) :
    joinWords (x >>> 32 % 2 ^ 32) (x % 2 ^ 32) = x := by
  have hlt : x % 2 ^ 32 < 2 ^ 32 := Nat.mod_lt _ (by decide)
  rw [joinWords, ← Nat.shiftLeft_add_eq_or_of_lt hlt, Nat.shiftLeft_eq, Nat.shiftRight_eq_div_pow]
  omega

end Ranges

theorem checkMemOverlap_eq (ring : Fin nlmLastUnusedRingId → RingRegisters)
    (stale : Fin nlmLastUnusedRingId → ℕ) :
    checkMemOverlap ring stale = .invalidDeviceConfig ↔ ∃ i j, i ≠ j ∧
      (Clash (ring i).sysmemLo (ring i).scratchSysmem (ring j).sysmemLo (ring j).scratchSysmem ∨
        Clash ((ring i).ddrLo (stale i)) (ring i).scratchDdr ((ring j).ddrLo (stale j))
          (ring j).scratchDdr) := by
  simp only [checkMemOverlap, ite_eq_left_iff, reduceCtorEq, imp_false, not_not, List.any_eq_true,
    List.mem_finRange, true_and, Bool.or_eq_true, decide_eq_true_eq]
  constructor
  · rintro ⟨i, ⟨j, hne, h⟩ | ⟨j, hne, h⟩⟩
    · exact ⟨i, j, hne, Or.inl h⟩
    · exact ⟨i, j, hne, Or.inr h⟩
  · rintro ⟨i, j, hne, h | h⟩
    · exact ⟨i, Or.inl ⟨j, hne, h⟩⟩
    · exact ⟨i, Or.inr ⟨j, hne, h⟩⟩

namespace RingRegisters

variable {r : RingRegisters}

theorem sysmemLo_idle (h : r.pdfConfig = 0 ∨ r.pdfConfig = pdf0ConfigDefault) :
    r.sysmemLo = 0 := by
  rw [sysmemLo]
  split_ifs with hzero hdefault
  · rfl
  · exact absurd (h.resolve_left hzero) hdefault
  · rfl

theorem ddrLo_idle (h : r.pdfConfig = 0 ∨ r.pdfConfig = pdf0ConfigDefault) (stale : ℕ) :
    r.ddrLo stale = 0 := by
  rw [ddrLo]
  by_cases hzero : r.pdfConfig = 0
  · rw [if_pos hzero]
  · rw [if_neg hzero, if_neg (not_not.mpr (h.resolve_left hzero))]

theorem sysmemLo_set (hzero : r.pdfConfig ≠ 0) (hdefault : r.pdfConfig ≠ pdf0ConfigDefault) :
    r.sysmemLo = joinWords r.fdfRdfBaseHi r.fdfRdfBaseLow := by
  rw [sysmemLo, if_neg hzero, if_pos hdefault]

theorem ddrLo_set (hzero : r.pdfConfig ≠ 0) (hdefault : r.pdfConfig ≠ pdf0ConfigDefault)
    (stale : ℕ) :
    r.ddrLo stale =
      if r.pdfMemmapConfig ≠ 0 then joinWords r.cnxtBuffBaseHi r.cnxtBuffBaseLo else stale := by
  rw [ddrLo, if_neg hzero, if_pos hdefault]

end RingRegisters

theorem pdfConfigWord_ne (nlmBigEndian : Bool) :
    pdfConfigWord nlmBigEndian ≠ 0 ∧ pdfConfigWord nlmBigEndian ≠ pdf0ConfigDefault := by
  cases nlmBigEndian <;> decide

namespace NlmDeviceConfig

variable {c d : NlmDeviceConfig} {b : Board} {i : ℕ}

theorem recordedDdr_lt (c : NlmDeviceConfig) : c.recordedDdr < 2 ^ 32 := by
  rw [recordedDdr]
  split
  · decide
  · exact Nat.mod_lt _ (by decide)

theorem recordedDdr_le (c : NlmDeviceConfig) : c.recordedDdr ≤ c.sizeOfDdrMemory := by
  rw [recordedDdr]
  split
  · exact Nat.zero_le _
  · exact Nat.mod_le _ _

namespace SetUp

theorem accepted (h : c.SetUp b i) : Accepted c := by
  obtain ⟨allocated, hnone⟩ := h.checked
  exact accepted_of_initError hnone h.sysmem_lt

/-- The distance of the pointer mirrors from the base is the same for every ring. -/
theorem mirrorBase_eq (h : c.SetUp b i) :
    c.mirrorBase b - c.sysmemBaseVirt = alignUp 8 b.sizeofPhyDevice := by
  have hmod := h.accepted.base_mod
  simp only [mirrorBase, alignUp]
  omega

theorem mirror_lt (h : c.SetUp b i) (hb : b.Valid) : alignUp 8 b.sizeofPhyDevice < c.sysmemSize := by
  have hfit := (initHardwareAreas_yields h.accepted hb).ok_iff.mp h.areas
  obtain ⟨h₁, h₂, h₃, h₄⟩ := ends_le c b
  obtain ⟨-, htop, -⟩ := topOfHeap_spec c
  have hlt := hfit.2.2
  have hbase : c.sysmemBaseVirt + b.sizeofPhyDevice ≤ c.mirrorBase b := le_alignUp (by decide) _
  rw [← h.mirrorBase_eq]
  simp only [sysmemEnd] at htop
  omega

theorem mirrorPhys_eq (h : c.SetUp b i) (hb : b.Valid) :
    c.mirrorPhys b = c.sysmemBasePhys + alignUp 8 b.sizeofPhyDevice := by
  have hlt := h.mirror_lt hb
  have hle := h.sysmem_le
  rw [mirrorPhys, convertToPhysical, h.mirrorBase_eq]
  exact Nat.mod_eq_of_lt (by omega)

theorem ddrBase_eq (h : c.SetUp b i) : c.ddrBase = 2 ^ 61 + c.baseAddrOfDdrMemory := by
  have hle := h.base_le
  have hor := Nat.two_pow_add_eq_or_of_lt (b := c.baseAddrOfDdrMemory) (i := 61) (by omega) 1
  rw [Nat.mul_one] at hor
  rw [ddrBase, hor, Nat.or_comm]

theorem ddr_pos (huse : c.UseDdrMemory b) : 0 < c.sizeOfDdrMemory :=
  Nat.pos_of_ne_zero huse.2

end SetUp

section Registers

variable (h : c.SetUp b i) (nlmBigEndian : Bool)
include h

theorem ringRegisters_sysmemLo (hb : b.Valid) :
    (c.ringRegisters b nlmBigEndian).sysmemLo =
      c.sysmemBasePhys + alignUp 8 b.sizeofPhyDevice := by
  obtain ⟨hzero, hdefault⟩ := pdfConfigWord_ne nlmBigEndian
  have hlt : c.mirrorPhys b < 2 ^ 64 := Nat.mod_lt _ (by decide)
  have hjoin : (c.ringRegisters b nlmBigEndian).sysmemLo = c.mirrorPhys b :=
    (RingRegisters.sysmemLo_set hzero hdefault).trans (joinWords_split hlt)
  rw [hjoin, h.mirrorPhys_eq hb]

theorem ringRegisters_scratchSysmem :
    (c.ringRegisters b nlmBigEndian).scratchSysmem = c.sysmemSize :=
  Nat.mod_eq_of_lt h.sysmem_lt

theorem ringRegisters_ddrLo (stale : ℕ) :
    (c.ringRegisters b nlmBigEndian).ddrLo stale =
      if c.UseDdrMemory b then 2 ^ 61 + c.baseAddrOfDdrMemory else stale := by
  obtain ⟨hzero, hdefault⟩ := pdfConfigWord_ne nlmBigEndian
  have hle := h.base_le
  have hset := @RingRegisters.ddrLo_set (c.ringRegisters b nlmBigEndian) hzero hdefault stale
  rw [hset]
  by_cases huse : c.UseDdrMemory b
  · have hphys : c.contextPhys b = 2 ^ 61 + c.baseAddrOfDdrMemory := by
      rw [contextPhys, if_pos huse, h.ddrBase_eq]
    have hmap : (c.ringRegisters b nlmBigEndian).pdfMemmapConfig = 1 <<< 16 := if_pos huse
    rw [if_pos huse, hmap, if_pos (by decide), ← hphys]
    exact joinWords_split (by omega)
  · have hmap : (c.ringRegisters b nlmBigEndian).pdfMemmapConfig = 0 := if_neg huse
    rw [if_neg huse, hmap, if_neg (by decide)]

end Registers

/-- The test of two system memories, with the bounds moved up to the mirrors. -/
theorem clash_mirrors {j offset : ℕ} (hc : c.SetUp b i) (hd : d.SetUp b j) (hpos : 0 < offset)
    (hltc : offset < c.sysmemSize) (hltd : offset < d.sysmemSize) :
    Clash (c.sysmemBasePhys + offset) c.sysmemSize (d.sysmemBasePhys + offset) d.sysmemSize ↔
      c.sysmemBasePhys + offset + c.sysmemSize ≤ 2 ^ 64 ∧
        d.sysmemBasePhys + offset + d.sysmemSize ≤ 2 ^ 64 ∧
        Meets c.sysmemBasePhys c.sysmemSize d.sysmemBasePhys d.sysmemSize := by
  have hlec := hc.sysmem_le
  have hled := hd.sysmem_le
  have hsizec := hc.sysmem_lt
  have hsized := hd.sysmem_lt
  rw [meets_iff (by omega) (by omega)]
  by_cases hfits : c.sysmemBasePhys + offset + c.sysmemSize ≤ 2 ^ 64 ∧
      d.sysmemBasePhys + offset + d.sysmemSize ≤ 2 ^ 64
  · rw [clash_iff (by omega) (by omega) hfits.1 hfits.2, Crosses, Crosses]
    omega
  · -- the upper end of such a range wraps around to an address below the offset
    rw [Clash, rangeHi, rangeHi]
    omega

theorem clash_ddr {j : ℕ} (hc : c.SetUp b i) (hd : d.SetUp b j) :
    Clash (2 ^ 61 + c.baseAddrOfDdrMemory) c.recordedDdr (2 ^ 61 + d.baseAddrOfDdrMemory)
        d.recordedDdr ↔
      Crosses c.baseAddrOfDdrMemory c.recordedDdr d.baseAddrOfDdrMemory d.recordedDdr := by
  have hlec := hc.base_le
  have hled := hd.base_le
  have hsizec := c.recordedDdr_lt
  have hsized := d.recordedDdr_lt
  rw [clash_iff (by omega) (by omega) (by omega) (by omega), Crosses, Crosses]
  omega

end NlmDeviceConfig

namespace Rings

variable {rings : Rings} {c d : NlmDeviceConfig} {i j : Fin nlmLastUnusedRingId}

theorem registers_some (h : rings.config i = some c) :
    rings.registers i = c.ringRegisters rings.board rings.nlmBigEndian := by
  rw [registers, h]

theorem registers_none (h : rings.config i = none) : rings.registers i = rings.idle i := by
  rw [registers, h]

theorem configured_of_sysmemLo (h : (rings.registers i).sysmemLo ≠ 0) :
    ∃ c, rings.config i = some c := by
  cases hc : rings.config i with
  | some c => exact ⟨c, rfl⟩
  | none =>
      rw [registers_none hc, RingRegisters.sysmemLo_idle (rings.idle_config i)] at h
      exact absurd rfl h

theorem configured_of_ddrLo {stale : ℕ} (h : (rings.registers i).ddrLo stale ≠ 0) :
    ∃ c, rings.config i = some c := by
  cases hc : rings.config i with
  | some c => exact ⟨c, rfl⟩
  | none =>
      rw [registers_none hc, RingRegisters.ddrLo_idle (rings.idle_config i)] at h
      exact absurd rfl h

theorem clash_sysmem (hc : rings.config i = some c) (hd : rings.config j = some d) :
    Clash (rings.registers i).sysmemLo (rings.registers i).scratchSysmem
        (rings.registers j).sysmemLo (rings.registers j).scratchSysmem ↔
      rings.MirrorFits c ∧ rings.MirrorFits d ∧
        Meets c.sysmemBasePhys c.sysmemSize d.sysmemBasePhys d.sysmemSize := by
  have hset := rings.setUp i c hc
  have hset' := rings.setUp j d hd
  have hpos : 0 < alignUp 8 rings.board.sizeofPhyDevice :=
    rings.phyDevice_pos.trans_le (le_alignUp (by decide) _)
  rw [registers_some hc, registers_some hd, NlmDeviceConfig.ringRegisters_sysmemLo hset _ rings.valid,
    NlmDeviceConfig.ringRegisters_sysmemLo hset' _ rings.valid,
    NlmDeviceConfig.ringRegisters_scratchSysmem hset,
    NlmDeviceConfig.ringRegisters_scratchSysmem hset', MirrorFits, MirrorFits, hset.mirrorBase_eq,
    hset'.mirrorBase_eq]
  exact NlmDeviceConfig.clash_mirrors hset hset' hpos (hset.mirror_lt rings.valid)
    (hset'.mirror_lt rings.valid)

theorem ddrLo_some (hc : rings.config i = some c) (stale : ℕ) :
    (rings.registers i).ddrLo stale =
      if c.UseDdrMemory rings.board then 2 ^ 61 + c.baseAddrOfDdrMemory else stale := by
  rw [registers_some hc]
  exact NlmDeviceConfig.ringRegisters_ddrLo (rings.setUp i c hc) _ stale

theorem scratchDdr_some (hc : rings.config i = some c) :
    (rings.registers i).scratchDdr = c.recordedDdr := by
  rw [registers_some hc]
  rfl

/-- What the registers show is an overlap. -/
theorem Visible.overlap (h : rings.Visible) : rings.Overlap := by
  obtain ⟨c, d, hpair, ⟨-, -, hmeets⟩ | ⟨hc, hd, hcross⟩⟩ := h
  · exact ⟨c, d, hpair, Or.inl hmeets⟩
  · have hlec := c.recordedDdr_le
    have hled := d.recordedDdr_le
    refine ⟨c, d, hpair, Or.inr ⟨hc, hd, ?_⟩⟩
    apply (meets_iff (NlmDeviceConfig.SetUp.ddr_pos hc) (NlmDeviceConfig.SetUp.ddr_pos hd)).mpr
    obtain ⟨h₁, h₂⟩ := hcross
    constructor <;> omega

theorem Visible.reported (h : rings.Visible) (stale : Fin nlmLastUnusedRingId → ℕ) :
    checkMemOverlap rings.registers stale = .invalidDeviceConfig := by
  apply (checkMemOverlap_eq _ _).mpr
  obtain ⟨c, d, ⟨i, j, hne, hi, hj⟩, hsysmem | ⟨hc, hd, hcross⟩⟩ := h
  · exact ⟨i, j, hne, Or.inl ((clash_sysmem hi hj).mpr hsysmem)⟩
  · refine ⟨i, j, hne, Or.inr ?_⟩
    rw [ddrLo_some hi, ddrLo_some hj, if_pos hc, if_pos hd, scratchDdr_some hi, scratchDdr_some hj]
    exact (NlmDeviceConfig.clash_ddr (rings.setUp i c hi) (rings.setUp j d hj)).mpr hcross

/-- A report shows an overlap, or comes from what the variables held before. -/
theorem visible_of_reported {stale : Fin nlmLastUnusedRingId → ℕ}
    (h : checkMemOverlap rings.registers stale = .invalidDeviceConfig) :
    rings.Visible ∨ ∃ i j c d, i ≠ j ∧ rings.config i = some c ∧ rings.config j = some d ∧
      ¬ c.UseDdrMemory rings.board ∧
      Clash (stale i) c.recordedDdr ((rings.registers j).ddrLo (stale j)) d.recordedDdr := by
  obtain ⟨i, j, hne, hclash | hclash⟩ := (checkMemOverlap_eq _ _).mp h
  · obtain ⟨c, hc⟩ := configured_of_sysmemLo hclash.1
    obtain ⟨d, hd⟩ := configured_of_sysmemLo hclash.2.1
    exact Or.inl ⟨c, d, ⟨i, j, hne, hc, hd⟩, Or.inl ((clash_sysmem hc hd).mp hclash)⟩
  · obtain ⟨c, hc⟩ := configured_of_ddrLo hclash.1
    obtain ⟨d, hd⟩ := configured_of_ddrLo hclash.2.1
    rw [scratchDdr_some hc, scratchDdr_some hd] at hclash
    by_cases huse : c.UseDdrMemory rings.board
    · by_cases huse' : d.UseDdrMemory rings.board
      · rw [ddrLo_some hc, ddrLo_some hd, if_pos huse, if_pos huse'] at hclash
        have hcross := (NlmDeviceConfig.clash_ddr (rings.setUp i c hc) (rings.setUp j d hd)).mp hclash
        exact Or.inl ⟨c, d, ⟨i, j, hne, hc, hd⟩, Or.inr ⟨huse, huse', hcross⟩⟩
      · have hother := hclash.symm
        rw [ddrLo_some hd, if_neg huse'] at hother
        exact Or.inr ⟨j, i, d, c, hne.symm, hd, hc, huse', hother⟩
    · rw [ddrLo_some hc, if_neg huse] at hclash
      exact Or.inr ⟨i, j, c, d, hne, hc, hd, huse, hclash⟩

/-- Beside an exposed ring some content of the variables leads to a report. -/
theorem Exposed.reported (h : rings.Exposed) : ∃ stale : Fin nlmLastUnusedRingId → ℕ,
    (∀ i, stale i < 2 ^ 64) ∧
      checkMemOverlap rings.registers stale = .invalidDeviceConfig := by
  obtain ⟨c, d, ⟨i, j, hne, hi, hj⟩, hc, hsum⟩ := h
  have hsizec := c.recordedDdr_lt
  have hsized := d.recordedDdr_lt
  have hled := (rings.setUp j d hj).base_le
  have hlo : ∃ lo', (2 ≤ lo' ∧ lo' ≤ 2 ^ 62) ∧ (rings.registers j).ddrLo lo' = lo' := by
    by_cases huse : d.UseDdrMemory rings.board
    · exact ⟨2 ^ 61 + d.baseAddrOfDdrMemory, by omega, by rw [ddrLo_some hj, if_pos huse]⟩
    · exact ⟨2, by omega, by rw [ddrLo_some hj, if_neg huse]⟩
  obtain ⟨lo', hbounds, hlo'⟩ := hlo
  have hexists : ∃ lo < 2 ^ 64, Clash lo c.recordedDdr lo' d.recordedDdr :=
    exists_clash hbounds.1 (by omega) (by omega) hsum
  obtain ⟨lo, hlt, hclash⟩ := hexists
  refine ⟨fun k ↦ if k = i then lo else lo', fun k ↦ ?_, ?_⟩
  · change (if k = i then lo else lo') < 2 ^ 64
    split_ifs
    · exact hlt
    · omega
  · refine (checkMemOverlap_eq _ _).mpr ⟨i, j, hne, Or.inr ?_⟩
    rw [if_pos rfl, if_neg hne.symm, ddrLo_some hi, if_neg hc, hlo', scratchDdr_some hi,
      scratchDdr_some hj]
    exact hclash

theorem ddrLo_lt (hj : rings.config j = some d) {stale : ℕ} (hstale : stale < 2 ^ 64) :
    (rings.registers j).ddrLo stale < 2 ^ 64 := by
  have hle := (rings.setUp j d hj).base_le
  rw [ddrLo_some hj]
  split_ifs
  · omega
  · exact hstale

/-- The check answers correctly whatever its variables held before exactly if the
registers show some overlap, or there is none and no ring is exposed. -/
theorem checkMemOverlap_iff (rings : Rings) :
    (∀ stale : Fin nlmLastUnusedRingId → ℕ, (∀ i, stale i < 2 ^ 64) →
      (checkMemOverlap rings.registers stale = .invalidDeviceConfig ↔ rings.Overlap)) ↔
      rings.Visible ∨ ¬ rings.Overlap ∧ ¬ rings.Exposed := by
  constructor
  · intro hcorrect
    by_cases hoverlap : rings.Overlap
    · left
      have hreport := (hcorrect (fun _ ↦ 0) fun _ ↦ by decide).mpr hoverlap
      rcases visible_of_reported hreport with hvisible | ⟨i, j, c, d, -, -, -, -, hclash⟩
      · exact hvisible
      · exact absurd rfl hclash.1
    · right
      refine ⟨hoverlap, fun hexposed ↦ ?_⟩
      obtain ⟨stale, hlt, hreport⟩ := hexposed.reported
      exact hoverlap ((hcorrect stale hlt).mp hreport)
  · rintro (hvisible | ⟨hoverlap, hexposed⟩) stale hlt
    · exact ⟨fun _ ↦ hvisible.overlap, fun _ ↦ hvisible.reported stale⟩
    · refine ⟨fun hreport ↦ ?_, fun h ↦ absurd h hoverlap⟩
      rcases visible_of_reported hreport with hvisible | ⟨i, j, c, d, hne, hi, hj, hc, hclash⟩
      · exact hvisible.overlap
      · have hsum : c.recordedDdr + d.recordedDdr < 2 := by
          by_contra hbig
          exact hexposed ⟨c, d, ⟨i, j, hne, hi, hj⟩, hc, by omega⟩
        exact absurd hclash (not_clash_of_small (hlt i) (ddrLo_lt hj (hlt j)) hsum)

end Rings

open NlmDeviceConfig (plain)

/-- A ring with 8 GB of DDR memory from address 0 on. -/
def eightGigabytes (ringId : ℕ) : NlmDeviceConfig :=
  { plain with
    ringId := ringId
    sysmemBasePhys := 0x1000000 * (ringId + 1)
    sizeOfDdrMemory := 2 ^ 33 }

theorem setUp_eightGigabytes {ringId : ℕ}
    (hareas : ((eightGigabytes ringId).initHardwareAreas famos).2 = .ok) (hle : ringId ≤ 1) :
    (eightGigabytes ringId).SetUp famos ringId where
  ringId_eq := rfl
  checked := by
    have hring : ringId = 0 ∨ ringId = 1 := by omega
    rcases hring with rfl | rfl
    · exact ⟨0, by decide⟩
    · exact ⟨0, by decide⟩
  areas := hareas
  sysmem_lt := (by decide : plain.sysmemSize < 2 ^ 32)
  sysmem_le := by
    change 0x1000000 * (ringId + 1) + 0x800000 ≤ 2 ^ 64
    omega
  base_le := Nat.zero_le _
  ddr_lt := (by decide : 2 ^ 33 < 2 ^ 64)

/-- Rings 0 and 1 are configured with the same DDR memory. -/
def sharedDdr : Rings where
  board := famos
  valid := ⟨by decide, by decide⟩
  phyDevice_pos := by decide
  hwType_ne := by decide
  nlmBigEndian := false
  config := fun i ↦ if i.val ≤ 1 then some (eightGigabytes i) else none
  setUp := fun i c h ↦ by
    split_ifs at h with hle
    cases h
    have hi : i.val = 0 ∨ i.val = 1 := by omega
    rcases hi with hi | hi
    · rw [hi]
      exact setUp_eightGigabytes (by decide +kernel) (by decide)
    · rw [hi]
      exact setUp_eightGigabytes (by decide +kernel) (by decide)
  idle := fun _ ↦ ⟨0, 0, 0, 0, 0, 0, 0, 0⟩
  idle_config := fun _ ↦ Or.inl rfl

/-- Nothing is reported of the two rings. -/
theorem sharedDdr_unreported :
    ¬ ∀ (rings : Rings) (stale : Fin nlmLastUnusedRingId → ℕ), (∀ i, stale i < 2 ^ 64) →
      (checkMemOverlap rings.registers stale = .invalidDeviceConfig ↔ rings.Overlap) := by
  intro h
  have hoverlap : sharedDdr.Overlap := by
    refine ⟨eightGigabytes 0, eightGigabytes 1, ⟨0, 1, by decide, rfl, rfl⟩, Or.inr ?_⟩
    exact ⟨by decide, by decide, 0, by decide, by decide⟩
  have hreport := (h sharedDdr (fun _ ↦ 0) fun _ ↦ by decide).mpr hoverlap
  exact absurd hreport (by decide +kernel)

end NetL7.Device
