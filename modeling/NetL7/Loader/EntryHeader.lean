import Mathlib.Data.Nat.Notation
import Mathlib.Tactic.IntervalCases

/-!
# Headers of database entries

`nlm_get_entry_header` takes a record of sixteen bytes apart. A byte that is shifted to the left
has type `int`, so the low half of the address is widened with its sign: an address with bit 31
set comes out with all the bits above it set.
-/

namespace NetL7.Loader

/-- A `uint8_t` as the `int` it is promoted to. -/
def promote (b : BitVec 8) : BitVec 32 := b.setWidth 32

/-- `nlm_read_misaligned_uint32` -/
def nlmReadMisalignedUint32 (buf : ℕ → BitVec 8) : BitVec 32 :=
  promote (buf 0) <<< 24 ||| promote (buf 1) <<< 16 ||| promote (buf 2) <<< 8 ||| promote (buf 3)

/-- `nlm_read_misaligned_uint64` -/
def nlmReadMisalignedUint64 (buf : ℕ → BitVec 8) : BitVec 64 :=
  let high := (buf 0).setWidth 64 <<< 56 ||| (buf 1).setWidth 64 <<< 48 |||
    (buf 2).setWidth 64 <<< 40 ||| (buf 3).setWidth 64 <<< 32
  -- no cast here: each term is an `int` when it meets the 64 bits
  high ||| (promote (buf 4) <<< 24).signExtend 64 ||| (promote (buf 5) <<< 16).signExtend 64 |||
    (promote (buf 6) <<< 8).signExtend 64 ||| (promote (buf 7)).signExtend 64

/-- What the caller's pointers of `nlm_get_entry_header` point to. -/
@[ext]
structure EntryHeader where
  addr : BitVec 64
  numEntry : BitVec 32
  entrySize : BitVec 32
  addrInc : BitVec 32
  deriving DecidableEq

/-- `nlm_get_entry_header`, where `out` is what the pointers held before. -/
def nlmGetEntryHeader (buf : ℕ → BitVec 8) (out : EntryHeader) : ℤ × EntryHeader :=
  let t := promote (buf 0)
  if t = 0xff then (0xff, out)
  else
    let out := { out with entrySize := promote (buf 1), addrInc := promote (buf 2) }
    if promote (buf 3) ≠ ~~~t &&& 0xff then (-1, out)
    else
      (t.toInt, { out with
        addr := nlmReadMisalignedUint64 fun i ↦ buf (4 + i)
        numEntry := nlmReadMisalignedUint32 fun i ↦ buf (12 + i) })

/-- Byte `i` of a big-endian word of `n` bytes. -/
def bigEndianByte (n : ℕ) (x : BitVec (8 * n)) (i : ℕ) : BitVec 8 :=
  x.extractLsb' (8 * (n - 1 - i)) 8

/-- The record `(type, size, inc, ~type, addr, count)` in big-endian order. -/
def entryRecord (type size inc : BitVec 8) (addr : BitVec 64) (count : BitVec 32) :
    ℕ → BitVec 8
  | 0 => type
  | 1 => size
  | 2 => inc
  | 3 => ~~~type
  | i + 4 => if i < 8 then bigEndianByte 8 addr i else bigEndianByte 4 count (i - 8)

/-- The clause of the decoder: the record gives back its own fields. -/
def HeaderRoundTrip (type size inc : BitVec 8) (addr : BitVec 64) (count : BitVec 32) : Prop :=
  ∀ out, nlmGetEntryHeader (entryRecord type size inc addr count) out =
    ((type.toNat : ℤ), ⟨addr, count, promote size, promote inc⟩)

theorem widen_promote_shiftLeft (b : BitVec 8) (n : ℕ) :
    (promote b <<< n).setWidth 64 <<< 32 = b.setWidth 64 <<< (n + 32) := by
  apply BitVec.eq_of_getLsbD_eq
  intro i hi
  simp only [promote, BitVec.getLsbD_shiftLeft, BitVec.getLsbD_setWidth]
  by_cases h : n + 32 ≤ i
  · have hbit : i - 32 - n = i - (n + 32) := by omega
    grind
  · grind

/-- The low half is read as a word of 32 bits with a sign. -/
theorem nlmReadMisalignedUint64_eq (buf : ℕ → BitVec 8) :
    nlmReadMisalignedUint64 buf = (nlmReadMisalignedUint32 buf).setWidth 64 <<< 32 |||
      (nlmReadMisalignedUint32 fun i ↦ buf (4 + i)).signExtend 64 := by
  have h0 := widen_promote_shiftLeft (buf 0) 24
  have h1 := widen_promote_shiftLeft (buf 1) 16
  have h2 := widen_promote_shiftLeft (buf 2) 8
  have h3 := widen_promote_shiftLeft (buf 3) 0
  simp only [BitVec.shiftLeft_zero] at h3
  simp only [nlmReadMisalignedUint64, nlmReadMisalignedUint32, BitVec.setWidth_or,
    BitVec.shiftLeft_or_distrib, BitVec.signExtend_or, h0, h1, h2, h3, BitVec.or_assoc]

theorem nlmReadMisalignedUint32_bigEndian (x : BitVec 32) :
    nlmReadMisalignedUint32 (bigEndianByte 4 x) = x := by
  apply BitVec.eq_of_getLsbD_eq
  intro i hi
  simp only [nlmReadMisalignedUint32, promote, bigEndianByte]
  interval_cases i <;> simp

theorem bigEndianByte_read (buf : ℕ → BitVec 8) {j : ℕ} (hj : j < 4) :
    bigEndianByte 4 (nlmReadMisalignedUint32 buf) j = buf j := by
  apply BitVec.eq_of_getLsbD_eq
  intro i hi
  simp only [nlmReadMisalignedUint32, promote, bigEndianByte, BitVec.getLsbD_extractLsb']
  interval_cases j <;> interval_cases i <;> simp

theorem nlmReadMisalignedUint32_congr {buf buf' : ℕ → BitVec 8} (h : ∀ i < 4, buf i = buf' i) :
    nlmReadMisalignedUint32 buf = nlmReadMisalignedUint32 buf' := by
  simp only [nlmReadMisalignedUint32, h 0 (by omega), h 1 (by omega), h 2 (by omega),
    h 3 (by omega)]

theorem read_eq_word_iff {buf : ℕ → BitVec 8} {x : BitVec 32} :
    nlmReadMisalignedUint32 buf = x ↔ ∀ j < 4, buf j = bigEndianByte 4 x j := by
  constructor
  · rintro rfl j hj
    exact (bigEndianByte_read buf hj).symm
  · intro h
    rw [nlmReadMisalignedUint32_congr h, nlmReadMisalignedUint32_bigEndian]

theorem read_high_half (x : BitVec 64) :
    nlmReadMisalignedUint32 (bigEndianByte 8 x) = x.extractLsb' 32 32 := by
  rw [← nlmReadMisalignedUint32_bigEndian (x.extractLsb' 32 32)]
  apply nlmReadMisalignedUint32_congr
  intro i hi
  simp only [bigEndianByte]
  apply BitVec.eq_of_getLsbD_eq
  intro j hj
  have hbit : 8 * (8 - 1 - i) + j = 32 + (8 * (4 - 1 - i) + j) := by omega
  have hlt : 8 * (4 - 1 - i) + j < 32 := by omega
  simp [hj, hbit, hlt]

theorem read_low_half (x : BitVec 64) :
    (nlmReadMisalignedUint32 fun i ↦ bigEndianByte 8 x (4 + i)) = x.setWidth 32 := by
  rw [← nlmReadMisalignedUint32_bigEndian (x.setWidth 32)]
  apply nlmReadMisalignedUint32_congr
  intro i hi
  simp only [bigEndianByte]
  apply BitVec.eq_of_getLsbD_eq
  intro j hj
  have hbit : 8 * (8 - 1 - (4 + i)) + j = 8 * (4 - 1 - i) + j := by omega
  have hlt : 8 * (4 - 1 - i) + j < 32 := by omega
  simp [hj, hbit, hlt]

theorem getLsbD_read (x : BitVec 64) {i : ℕ} (hi : i < 64) :
    (nlmReadMisalignedUint64 (bigEndianByte 8 x)).getLsbD i =
      (x.getLsbD i || decide (32 ≤ i) && x.getLsbD 31) := by
  simp only [nlmReadMisalignedUint64_eq, read_high_half, read_low_half, BitVec.getLsbD_or,
    BitVec.getLsbD_shiftLeft, BitVec.getLsbD_setWidth, BitVec.getLsbD_extractLsb',
    BitVec.getLsbD_signExtend, BitVec.msb_eq_getLsbD_last]
  by_cases h : i < 32
  · simp [h, hi, show ¬ 32 ≤ i by omega]
  · have hbit : 32 + (i - 32) = i := by omega
    simp [h, hi, hbit, show 32 ≤ i by omega, show i - 32 < 32 by omega,
      show i - 32 < 64 by omega]

theorem high_half_eq_allOnes_iff (x : BitVec 64) :
    x.extractLsb' 32 32 = BitVec.allOnes 32 ↔ ∀ i < 64, 32 ≤ i → x.getLsbD i = true := by
  constructor
  · intro h i hi hlow
    have hbit := congrArg (·.getLsbD (i - 32)) h
    have hsum : 32 + (i - 32) = i := by omega
    have hlt : i - 32 < 32 := by omega
    simpa only [BitVec.getLsbD_extractLsb', BitVec.getLsbD_allOnes, hsum, hlt, decide_true,
      Bool.true_and] using hbit
  · intro h
    apply BitVec.eq_of_getLsbD_eq
    intro i hi
    have hbit := h (32 + i) (by omega) (by omega)
    simp only [BitVec.getLsbD_extractLsb', BitVec.getLsbD_allOnes, hi, hbit, decide_true,
      Bool.true_and]

theorem read_eq_iff (x : BitVec 64) :
    nlmReadMisalignedUint64 (bigEndianByte 8 x) = x ↔
      x.getLsbD 31 = false ∨ x.extractLsb' 32 32 = BitVec.allOnes 32 := by
  rw [high_half_eq_allOnes_iff]
  constructor
  · intro h
    by_cases hbit : x.getLsbD 31 = false
    · exact .inl hbit
    · right
      intro i hi hlow
      have hread := getLsbD_read x hi
      rw [h] at hread
      simpa [hlow, Bool.eq_true_of_not_eq_false hbit] using hread
  · intro h
    apply BitVec.eq_of_getLsbD_eq
    intro i hi
    rw [getLsbD_read x hi]
    cases h with
    | inl h => rw [h, Bool.and_false, Bool.or_false]
    | inr h =>
      by_cases hlow : 32 ≤ i
      · rw [h i hi hlow, Bool.true_or]
      · simp only [hlow, decide_false, Bool.false_and, Bool.or_false]

theorem promote_complement (b b' : BitVec 8) :
    promote b' = ~~~(promote b) &&& 0xff ↔ b' = ~~~b := by
  have h : ~~~(promote b) &&& 0xff = promote (~~~b) := by
    revert b
    decide
  rw [h]
  constructor
  · intro heq
    have := congrArg BitVec.toNat heq
    simp only [promote, BitVec.toNat_setWidth] at this
    apply BitVec.eq_of_toNat_eq
    omega
  · intro heq
    rw [heq]

theorem promote_eq_ff (b : BitVec 8) : promote b = 0xff ↔ b = 0xff := by
  revert b
  decide

theorem toInt_promote (b : BitVec 8) : (promote b).toInt = b.toNat := by
  revert b
  decide

theorem nlmGetEntryHeader_entryRecord {type : BitVec 8} (htype : type ≠ 0xff)
    (size inc : BitVec 8) (addr : BitVec 64) (count : BitVec 32) (out : EntryHeader) :
    nlmGetEntryHeader (entryRecord type size inc addr count) out =
      ((type.toNat : ℤ), ⟨nlmReadMisalignedUint64 (bigEndianByte 8 addr), count, promote size,
        promote inc⟩) := by
  have haddr : (nlmReadMisalignedUint64 fun i ↦ entryRecord type size inc addr count (4 + i)) =
      nlmReadMisalignedUint64 (bigEndianByte 8 addr) := by
    simp [nlmReadMisalignedUint64, entryRecord]
  have hcount : (nlmReadMisalignedUint32 fun i ↦ entryRecord type size inc addr count (12 + i)) =
      count := by
    calc _ = nlmReadMisalignedUint32 (bigEndianByte 4 count) := by
          simp [nlmReadMisalignedUint32, entryRecord]
      _ = count := nlmReadMisalignedUint32_bigEndian count
  have hff : promote type ≠ 0xff := fun h ↦ htype ((promote_eq_ff type).mp h)
  have hcompl := (promote_complement type (~~~type)).mpr rfl
  simp only [nlmGetEntryHeader, haddr, hcount]
  simp only [entryRecord, hff, hcompl, toInt_promote, ne_eq, not_true_eq_false, if_false]

theorem nlmGetEntryHeader_eq_neg_one_iff (buf : ℕ → BitVec 8) (out : EntryHeader) :
    (nlmGetEntryHeader buf out).1 = -1 ↔ buf 0 ≠ 0xff ∧ buf 3 ≠ ~~~(buf 0) := by
  simp only [nlmGetEntryHeader, promote_eq_ff, ne_eq, promote_complement]
  split_ifs with hff hcompl
  · simp [hff]
  · have ht := toInt_promote (buf 0)
    simp only [hcompl, ht, not_true_eq_false, and_false, iff_false]
    omega
  · simpa [hcompl] using hff

theorem header_round_trip_iff {type : BitVec 8} (htype : type ≠ 0xff) (size inc : BitVec 8)
    (addr : BitVec 64) (count : BitVec 32) (buf : ℕ → BitVec 8) (out : EntryHeader) :
    ((nlmGetEntryHeader buf out).1 = -1 ↔ buf 0 ≠ 0xff ∧ buf 3 ≠ ~~~(buf 0)) ∧
      (HeaderRoundTrip type size inc addr count ↔
        addr.getLsbD 31 = false ∨ addr.extractLsb' 32 32 = BitVec.allOnes 32) := by
  refine ⟨nlmGetEntryHeader_eq_neg_one_iff buf out, ?_⟩
  rw [← read_eq_iff]
  constructor
  · intro h
    have := h ⟨0, 0, 0, 0⟩
    rw [nlmGetEntryHeader_entryRecord htype] at this
    exact congrArg (·.2.addr) this
  · intro h out
    rw [nlmGetEntryHeader_entryRecord htype, h]

theorem header_round_trip_iff_zero :
    ((nlmGetEntryHeader (fun _ ↦ 7) ⟨0, 0, 0, 0⟩).1 = -1 ↔
        (7 : BitVec 8) ≠ 0xff ∧ (7 : BitVec 8) ≠ ~~~7) ∧
      (HeaderRoundTrip 0 4 8 0x1000 2 ↔
        (0x1000 : BitVec 64).getLsbD 31 = false ∨
          (0x1000 : BitVec 64).extractLsb' 32 32 = BitVec.allOnes 32) :=
  header_round_trip_iff (by decide) 4 8 0x1000 2 (fun _ ↦ 7) ⟨0, 0, 0, 0⟩

/-- An address of two gigabytes is read as one near the end of the 64-bit range. -/
theorem header_of_two_gigabytes : ¬ HeaderRoundTrip 0 4 8 0x80000000 1 := by
  intro h
  have := h ⟨0, 0, 0, 0⟩
  revert this
  decide

end NetL7.Loader
