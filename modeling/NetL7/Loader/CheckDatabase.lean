import NetL7.Loader.EntryHeader
import NetL7.Loader.Sha2
import NetL7.Status

/-!
# The check of a database

`nlm_check_database` compares the last 32 bytes with the checksum of the bytes before them and
then looks at the preamble. It does not check that there are 32 bytes, and of no bytes at
all `nlm_chksum_sha256` makes no checksum.
-/

namespace NetL7.Loader

/-- `BIO_MAGIC` -/
abbrev bioMagic : Byte := 0x5d

/-- `BIO_MAGIC_` -/
abbrev bioMagic' : Byte := 0xa2

/-- `BIO_MAJOR` -/
abbrev bioMajor : Byte := 1

def readByte (buffer : List Byte) (i : ℕ) : Except MemoryFault Byte :=
  match buffer[i]? with
  | none => .error .outOfBounds
  | some byte => .ok byte

/-- `nlm_read_misaligned_uint32 (buf + i)` -/
def readWord (buffer : List Byte) (i : ℕ) : Except MemoryFault (BitVec 32) :=
  if i + 4 ≤ buffer.length then .ok (nlmReadMisalignedUint32 fun j ↦ buffer.getD (i + j) 0)
  else .error .outOfBounds

/-- `nlm_check_preamble`. The minor revision is read and makes no difference. -/
def nlmCheckPreamble (buffer : List Byte) : Except MemoryFault NlmStatus := do
  let magic ← readByte buffer 0
  if magic ≠ bioMagic then .ok .invalidDatabaseFileMagic
  else
    let magic' ← readByte buffer 3
    if magic' ≠ bioMagic' then .ok .invalidDatabaseFileMagic
    else
      let majorRev ← readByte buffer 1
      if majorRev ≠ bioMajor then .ok .invalidDatabaseVersion
      else
        let _ ← readByte buffer 2
        .ok .ok

/-- The loop over the words of the checksum, which has no value if `chksum` is none. -/
def compareWords (buffer : List Byte) (chksumStart : ℕ) (chksum : Option Digest) :
    List (Fin 8) → Except MemoryFault Bool
  | [] => .ok true
  | i :: rest =>
    match chksum with
    | none => .error .uninitialised
    | some words => do
      let word ← readWord buffer (chksumStart + i * 4)
      if words[i] ≠ word then .ok false else compareWords buffer chksumStart chksum rest

/-- `db_size - 32` in 32 bits -/
def chksumStart (dbSize : ℕ) : ℕ := (dbSize + (2 ^ 32 - 32)) % 2 ^ 32

/-- `nlm_check_database`, where the buffer holds `db_size` bytes and `pad` is what the static
variable of `sha2.c` holds. -/
def nlmCheckDatabase (pad : ℕ → Byte) (buffer : List Byte) : Except MemoryFault NlmStatus := do
  let start := chksumStart buffer.length
  let chksum ← nlmChksumSha256 nlmSha256Xform hac pad buffer start
  let same ← compareWords buffer start chksum (List.finRange 8)
  if same then nlmCheckPreamble buffer else .ok .invalidDatabaseChecksum

/-- The last 32 bytes are the words of the checksum of the others, in big-endian order. -/
def EndsInChecksum (buffer : List Byte) : Prop :=
  32 ≤ buffer.length ∧ ∃ words, (∀ pad, nlmChksumSha256 nlmSha256Xform hac pad
      (buffer.take (buffer.length - 32)) (buffer.length - 32) = .ok (some words)) ∧
    ∀ i : Fin 8, ∀ j < 4,
      buffer.getD (buffer.length - 32 + i * 4 + j) 0 = bigEndianByte 4 words[i] j

/-- The preamble has the magic bytes and the major revision. -/
def HasPreamble (buffer : List Byte) : Prop :=
  4 ≤ buffer.length ∧ buffer.getD 0 0 = bioMagic ∧ buffer.getD 3 0 = bioMagic' ∧
    buffer.getD 1 0 = bioMajor

/-- The clause for one buffer: no fault, and `NLM_OK` exactly for a good database. -/
def CheckedRight (pad : ℕ → Byte) (buffer : List Byte) : Prop :=
  ∃ status, nlmCheckDatabase pad buffer = .ok status ∧
    (status = .ok ↔ EndsInChecksum buffer ∧ HasPreamble buffer)

theorem readByte_eq {buffer : List Byte} {i : ℕ} (hi : i < buffer.length) :
    readByte buffer i = .ok (buffer.getD i 0) := by
  rw [readByte, List.getElem?_eq_getElem hi, List.getD_eq_getElem _ _ hi]

theorem nlmCheckPreamble_eq {buffer : List Byte} (hlen : 4 ≤ buffer.length) :
    ∃ status, nlmCheckPreamble buffer = .ok status ∧ (status = .ok ↔ HasPreamble buffer) := by
  simp only [nlmCheckPreamble, readByte_eq (show 0 < buffer.length by omega),
    readByte_eq (show 1 < buffer.length by omega), readByte_eq (show 2 < buffer.length by omega),
    readByte_eq (show 3 < buffer.length by omega), bind, Except.bind, HasPreamble]
  generalize buffer.getD 0 0 = magic
  generalize buffer.getD 3 0 = magic'
  generalize buffer.getD 1 0 = major
  split_ifs with hmagic hmagic' hmajor
  · exact ⟨_, rfl, by simp only [reduceCtorEq, false_iff]; exact fun h ↦ hmagic h.2.1⟩
  · exact ⟨_, rfl, by simp only [reduceCtorEq, false_iff]; exact fun h ↦ hmagic' h.2.2.1⟩
  · exact ⟨_, rfl, by simp only [reduceCtorEq, false_iff]; exact fun h ↦ hmajor h.2.2.2⟩
  · refine ⟨_, rfl, fun _ ↦ ?_, fun _ ↦ rfl⟩
    exact ⟨hlen, not_not.mp hmagic, not_not.mp hmagic', not_not.mp hmajor⟩

theorem compareWords_eq {buffer : List Byte} {start : ℕ} (words : Digest) (is : List (Fin 8))
    (hlen : start + 32 ≤ buffer.length) :
    ∃ same, compareWords buffer start (some words) is = .ok same ∧
      (same = true ↔ ∀ i ∈ is, ∀ j < 4,
        buffer.getD (start + i * 4 + j) 0 = bigEndianByte 4 words[i] j) := by
  induction is with
  | nil => exact ⟨true, rfl, by simp⟩
  | cons i rest ih =>
    obtain ⟨same, hsame, hiff⟩ := ih
    have hread : readWord buffer (start + i * 4) =
        .ok (nlmReadMisalignedUint32 fun j ↦ buffer.getD (start + i * 4 + j) 0) :=
      if_pos (by omega)
    have hword : (nlmReadMisalignedUint32 fun j ↦ buffer.getD (start + i * 4 + j) 0) = words[i] ↔
        ∀ j < 4, buffer.getD (start + i * 4 + j) 0 = bigEndianByte 4 words[i] j :=
      read_eq_word_iff
    simp only [compareWords, hread, bind, Except.bind, List.forall_mem_cons, ← hword, ← hiff]
    by_cases heq : (nlmReadMisalignedUint32 fun j ↦ buffer.getD (start + i * 4 + j) 0) = words[i]
    · rw [if_neg (not_not.mpr heq.symm), hsame]
      exact ⟨same, rfl, (and_iff_right heq).symm⟩
    · rw [if_pos (fun h ↦ heq h.symm)]
      exact ⟨false, rfl, fun h ↦ (Bool.false_ne_true h).elim, fun h ↦ absurd h.1 heq⟩

theorem nlmChksumSha256_take {σ : Type} (xform : σ → Block → σ) (hac : σ) (pad : ℕ → Byte)
    (buffer : List Byte) (size : ℕ) :
    nlmChksumSha256 xform hac pad (buffer.take size) size =
      nlmChksumSha256 xform hac pad buffer size := by
  rw [nlmChksumSha256, nlmChksumSha256, Sha256.absorb_take (Nat.le_of_eq (Nat.zero_add size))]

theorem chksumStart_of_le {n : ℕ} (hlen : 32 ≤ n) (hsize : n < 2 ^ 32) :
    chksumStart n = n - 32 := by
  simp only [chksumStart]
  omega

theorem lt_chksumStart {n : ℕ} (hlen : n < 32) : n < chksumStart n := by
  simp only [chksumStart]
  omega

theorem nlmCheckDatabase_eq (pad : ℕ → Byte) (buffer : List Byte) :
    nlmCheckDatabase pad buffer =
      (nlmChksumSha256 nlmSha256Xform hac pad buffer (chksumStart buffer.length)).bind
        fun chksum ↦ (compareWords buffer (chksumStart buffer.length) chksum
          (List.finRange 8)).bind fun same ↦
            if same then nlmCheckPreamble buffer else .ok .invalidDatabaseChecksum := rfl

/-- A file with at least one byte before the checksum is checked as it should be. -/
theorem checkedRight_of_le (pad : ℕ → Byte) {buffer : List Byte} (hsize : buffer.length < 2 ^ 32)
    (hlen : 33 ≤ buffer.length) : CheckedRight pad buffer := by
  have hstart := chksumStart_of_le (show 32 ≤ buffer.length by omega) hsize
  have htake : (buffer.take (buffer.length - 32)).length = buffer.length - 32 := by
    rw [List.length_take]
    omega
  have hne : buffer.take (buffer.length - 32) ≠ [] := by
    intro h
    rw [h] at htake
    simp at htake
    omega
  have hchksum := fun pad ↦ nlmChksumSha256_eq nlmSha256Xform hac pad hne
  simp only [htake] at hchksum
  obtain ⟨words, hwords⟩ : ∃ words, ∀ pad, nlmChksumSha256 nlmSha256Xform hac pad
      (buffer.take (buffer.length - 32)) (buffer.length - 32) = .ok (some words) := ⟨_, hchksum⟩
  have hsum : EndsInChecksum buffer ↔ ∀ i ∈ List.finRange 8, ∀ j < 4,
      buffer.getD (buffer.length - 32 + (i : Fin 8) * 4 + j) 0 = bigEndianByte 4 words[i] j := by
    constructor
    · rintro ⟨-, words', hwords', hbytes⟩ i - j hj
      have hsame : words' = words := by
        have := (hwords' fun _ ↦ 0).symm.trans (hwords fun _ ↦ 0)
        simpa using this
      rw [← hsame]
      exact hbytes i j hj
    · intro hbytes
      exact ⟨by omega, words, hwords, fun i ↦ hbytes i (List.mem_finRange i)⟩
  obtain ⟨same, hsame, hiff⟩ := compareWords_eq words (List.finRange 8)
    (show buffer.length - 32 + 32 ≤ buffer.length by omega)
  obtain ⟨status, hstatus, hpreamble⟩ :=
    nlmCheckPreamble_eq (show 4 ≤ buffer.length by omega)
  rw [← hsum] at hiff
  have hcheck : nlmCheckDatabase pad buffer =
      if same then nlmCheckPreamble buffer else .ok .invalidDatabaseChecksum := by
    rw [nlmCheckDatabase_eq, hstart, ← nlmChksumSha256_take, hwords, Except.bind, hsame,
      Except.bind]
  rw [CheckedRight, hcheck]
  cases same with
  | true => exact ⟨status, hstatus, hpreamble.trans (and_iff_right (hiff.mp rfl)).symm⟩
  | false =>
    have hnot : ¬ EndsInChecksum buffer := fun h ↦ Bool.false_ne_true (hiff.mpr h)
    exact ⟨.invalidDatabaseChecksum, rfl, by simp [hnot]⟩

theorem nlmCheckDatabase_of_lt (pad : ℕ → Byte) {buffer : List Byte} (hlen : buffer.length < 32) :
    nlmCheckDatabase pad buffer = .error .outOfBounds := by
  have hstart := lt_chksumStart hlen
  have hread : nlmChksumSha256 nlmSha256Xform hac pad buffer (chksumStart buffer.length) =
      .error .outOfBounds := by
    rw [nlmChksumSha256, if_neg (by omega),
      Sha256.absorb_of_length_lt (Nat.zero_le _) (by omega)]
  rw [nlmCheckDatabase_eq, hread]
  rfl

theorem nlmCheckDatabase_of_eq (pad : ℕ → Byte) {buffer : List Byte} (hlen : buffer.length = 32) :
    nlmCheckDatabase pad buffer = .error .uninitialised := by
  have hstart : chksumStart buffer.length = 0 := by
    rw [chksumStart_of_le (by omega) (by omega), hlen]
  have hnone : nlmChksumSha256 nlmSha256Xform hac pad buffer 0 = .ok none := if_pos rfl
  rw [nlmCheckDatabase_eq, hstart, hnone]
  rfl

theorem checkedRight_iff (pad : ℕ → Byte) {buffer : List Byte} (hsize : buffer.length < 2 ^ 32) :
    CheckedRight pad buffer ↔ 33 ≤ buffer.length := by
  constructor
  · rintro ⟨status, hstatus, -⟩
    by_contra hlen
    by_cases hlt : buffer.length < 32
    · rw [nlmCheckDatabase_of_lt pad hlt] at hstatus
      cases hstatus
    · rw [nlmCheckDatabase_of_eq pad (by omega)] at hstatus
      cases hstatus
  · exact checkedRight_of_le pad hsize

theorem checkedRight_iff_zeroes :
    CheckedRight (fun _ ↦ 0) (List.replicate 40 0) ↔
      33 ≤ (List.replicate 40 (0 : Byte)).length :=
  checkedRight_iff _ (by decide)

/-- A file that is nothing but a checksum is compared with an uninitialised one. -/
theorem only_checksum_not_checked : ¬ CheckedRight (fun _ ↦ 0) (List.replicate 32 0) := by
  rintro ⟨status, hstatus, -⟩
  rw [nlmCheckDatabase_of_eq _ rfl] at hstatus
  cases hstatus

end NetL7.Loader
