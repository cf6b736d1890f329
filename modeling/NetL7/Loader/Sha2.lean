import NetL7.Lib.RingWrites
import Mathlib.Algebra.Order.Ring.Int
import Mathlib.Data.List.GetD

/-!
# The checksum of a database

`nlm_chksum_sha256` hashes blocks of 64 bytes. While it reads the buffer it calls
`nlm_sha256_xform` whenever the block is full. While it pads it does not: a tail of 59 bytes or
more leaves no room for the marker, a zero and the length, and what comes next is
written over the start of the block.
-/

namespace NetL7.Loader

open NetL7.Lib

abbrev Byte := BitVec 8

/-- The 64 bytes of `pad`. -/
abbrev Block := Fin 64 → Byte

/-! ### The compression function -/

/-- The eight words of `ha`, or of `nlm_chksum`. -/
abbrev Digest := Vector (BitVec 32) 8

/-- `hac` -/
def hac : Digest :=
  #v[0x6a09e667, 0xbb67ae85, 0x3c6ef372, 0xa54ff53a,
    0x510e527f, 0x9b05688c, 0x1f83d9ab, 0x5be0cd19]

/-- `sha256_seed` -/
def sha256Seed : List (BitVec 32) := [
  0x428a2f98, 0x71374491, 0xb5c0fbcf, 0xe9b5dba5, 0x3956c25b, 0x59f111f1, 0x923f82a4, 0xab1c5ed5,
  0xd807aa98, 0x12835b01, 0x243185be, 0x550c7dc3, 0x72be5d74, 0x80deb1fe, 0x9bdc06a7, 0xc19bf174,
  0xe49b69c1, 0xefbe4786, 0x0fc19dc6, 0x240ca1cc, 0x2de92c6f, 0x4a7484aa, 0x5cb0a9dc, 0x76f988da,
  0x983e5152, 0xa831c66d, 0xb00327c8, 0xbf597fc7, 0xc6e00bf3, 0xd5a79147, 0x06ca6351, 0x14292967,
  0x27b70a85, 0x2e1b2138, 0x4d2c6dfc, 0x53380d13, 0x650a7354, 0x766a0abb, 0x81c2c92e, 0x92722c85,
  0xa2bfe8a1, 0xa81a664b, 0xc24b8b70, 0xc76c51a3, 0xd192e819, 0xd6990624, 0xf40e3585, 0x106aa070,
  0x19a4c116, 0x1e376c08, 0x2748774c, 0x34b0bcb5, 0x391c0cb3, 0x4ed8aa4a, 0x5b9cca4f, 0x682e6ff3,
  0x748f82ee, 0x78a5636f, 0x84c87814, 0x8cc70208, 0x90befffa, 0xa4506ceb, 0xbef9a3f7, 0xc67178f2]

def ror (a : BitVec 32) (n : ℕ) : BitVec 32 := a >>> n ||| a <<< (32 - n)

/-- `E0` -/
def bigSigma0 (a : BitVec 32) : BitVec 32 := ror a 2 ^^^ ror a 13 ^^^ ror a 22

/-- `E1` -/
def bigSigma1 (a : BitVec 32) : BitVec 32 := ror a 6 ^^^ ror a 11 ^^^ ror a 25

/-- `e0` -/
def smallSigma0 (a : BitVec 32) : BitVec 32 := ror a 7 ^^^ ror a 18 ^^^ a >>> 3

/-- `e1` -/
def smallSigma1 (a : BitVec 32) : BitVec 32 := ror a 17 ^^^ ror a 19 ^^^ a >>> 10

/-- `c` -/
def choose (x y z : BitVec 32) : BitVec 32 := z ^^^ (x &&& (y ^^^ z))

/-- `m` -/
def majority (x y z : BitVec 32) : BitVec 32 := (x &&& y) ^^^ (z &&& (x ^^^ y))

/-- The first 16 entries of `w`. -/
def blockWord (pad : Block) (i : Fin 16) : BitVec 32 :=
  (pad ⟨4 * i, by omega⟩).setWidth 32 <<< 24 ||| (pad ⟨4 * i + 1, by omega⟩).setWidth 32 <<< 16 |||
    (pad ⟨4 * i + 2, by omega⟩).setWidth 32 <<< 8 ||| (pad ⟨4 * i + 3, by omega⟩).setWidth 32

/-- `w` -/
def schedule (pad : Block) : List (BitVec 32) :=
  (List.range 48).foldl
    (fun w i ↦ w ++ [smallSigma1 (w.getD (i + 14) 0) + w.getD (i + 9) 0 +
      smallSigma0 (w.getD (i + 1) 0) + w.getD i 0])
    (List.ofFn (blockWord pad))

/-- One turn of the main loop of `nlm_sha256_xform`. -/
def sha256Round (tar : Digest) (seedAndWord : BitVec 32 × BitVec 32) : Digest :=
  let t0 := tar[7] + bigSigma1 tar[4] + choose tar[4] tar[5] tar[6] + seedAndWord.1 +
    seedAndWord.2
  let t1 := bigSigma0 tar[0] + majority tar[0] tar[1] tar[2]
  #v[t0 + t1, tar[0], tar[1], tar[2], tar[3] + t0, tar[4], tar[5], tar[6]]

/-- `nlm_sha256_xform` -/
def nlmSha256Xform (ha : Digest) (pad : Block) : Digest :=
  let tar := (sha256Seed.zip (schedule pad)).foldl sha256Round ha
  ha.zipWith (· + ·) tar

/-! ### The checksum over any compression function -/

/-- The static variables of `sha2.c`. -/
structure Sha256 (σ : Type) where
  cnt : ℕ
  totalSize : ℕ
  ha : σ
  pad : ℕ → Byte

/-- A read outside of the buffer, or of a variable that has no value yet. -/
inductive MemoryFault
  | outOfBounds
  | uninitialised
  deriving DecidableEq, Repr

namespace Sha256

variable {σ : Type} (xform : σ → Block → σ) (s : Sha256 σ)

/-- `nlm_chksum_sha256_add_byte`; the result is the new `cnt`. -/
def addByte (byte : Byte) : Sha256 σ where
  cnt := s.cnt % 64 + 1
  totalSize := (s.totalSize + 1) % 2 ^ 32
  ha := s.ha
  pad := Function.update s.pad (s.cnt % 64) byte

/-- A call of `nlm_sha256_xform`. -/
def runXform : Sha256 σ := { s with ha := xform s.ha fun i ↦ s.pad i }

/-- The loop of `nlm_chksum_sha256` over the bytes from `i` on. -/
def absorb (buffer : List Byte) : ℕ → ℕ → Sha256 σ → Except MemoryFault (Sha256 σ)
  | 0, _, s => .ok s
  | n + 1, i, s =>
    match buffer[i]? with
    | none => .error .outOfBounds
    | some byte =>
      let s := s.addByte byte
      absorb buffer n (i + 1) (if s.cnt = 64 then s.runXform xform else s)

/-- `(0x40 - sizeof (uint32_t)) > nlm_chksum_sha256_add_byte (0)` -/
def fillZeros (s : Sha256 σ) : Sha256 σ :=
  if s.cnt % 64 + 1 < 60 then fillZeros (s.addByte 0) else s.addByte 0
termination_by 64 - s.cnt % 64
decreasing_by
  simp only [addByte]
  omega

/-- `(total_size << 3) >> i`, cut to a byte. -/
def lengthByte (totalSize i : ℕ) : Byte := BitVec.ofNat 8 (totalSize * 8 % 2 ^ 32 / 2 ^ i)

/-- `nlm_chksum_sha256_post`; the words it copies are `ha`. -/
def post : Sha256 σ :=
  let s := (s.addByte 0x80).fillZeros
  let s := [24, 16, 8, 0].foldl (fun s i ↦ s.addByte (lengthByte s.totalSize i)) s
  s.runXform xform

end Sha256

/-- `nlm_chksum_sha256` on the first `size` bytes, where `pad` holds what an earlier call has
left. There is no checksum if `size` is 0. -/
def nlmChksumSha256 {σ : Type} (xform : σ → Block → σ) (hac : σ) (pad : ℕ → Byte)
    (buffer : List Byte) (size : ℕ) : Except MemoryFault (Option σ) :=
  if size = 0 then .ok none
  else match Sha256.absorb xform buffer size 0 ⟨0, 0, hac, pad⟩ with
    | .error e => .error e
    | .ok s => .ok (some (s.post xform).ha)

/-- The blocks that a checksum passes to the compression function. -/
def xformBlocks (pad : ℕ → Byte) (buffer : List Byte) : List Block :=
  match nlmChksumSha256 (fun blocks block ↦ blocks ++ [block]) [] pad buffer buffer.length with
  | .ok (some blocks) => blocks
  | _ => []

/-! ### The blocks that are hashed -/

/-- Block `q` of the buffer. -/
def bufferBlock (buffer : List Byte) (q : ℕ) : Block := fun j ↦ buffer.getD (64 * q + j) 0

/-- The blocks that the first `n` bytes fill. -/
def wholeBlocks (buffer : List Byte) (n : ℕ) : List Block :=
  (List.range (n / 64)).map (bufferBlock buffer)

/-- How many zeros are written from position `c` on. -/
def zeroCnt (c : ℕ) : ℕ := max 1 (60 - c)

/-- The four bytes of the length, the first one when `totalSize` bytes have been written. -/
def lengthBytes (totalSize : ℕ) : List Byte :=
  [Sha256.lengthByte totalSize 24, Sha256.lengthByte (totalSize + 1) 16,
    Sha256.lengthByte (totalSize + 2) 8, Sha256.lengthByte (totalSize + 3) 0]

/-- What is written behind the marker of `n` bytes. -/
def padding (n : ℕ) : List Byte :=
  List.replicate (zeroCnt ((n + 1) % 64)) 0 ++ lengthBytes (n + 1 + zeroCnt ((n + 1) % 64))

/-- The last block of a buffer. -/
def lastBlock (buffer : List Byte) : Block := fun p ↦
  (padding buffer.length).getD (ringIndex 64 (buffer.length + 1) p)
    (if (p : ℕ) = buffer.length % 64 then 0x80
      else buffer.getD (64 * (buffer.length / 64) + p) 0)

namespace Sha256

variable {σ : Type} {xform : σ → Block → σ} {hac : σ} {buffer : List Byte} {s : Sha256 σ}

/-- What is known when `i` bytes have been read. -/
structure Absorbed (xform : σ → Block → σ) (hac : σ) (buffer : List Byte) (i : ℕ)
    (s : Sha256 σ) : Prop where
  cnt : s.cnt % 64 = i % 64
  totalSize : s.totalSize = i % 2 ^ 32
  ha : s.ha = (wholeBlocks buffer i).foldl xform hac
  pad : ∀ j < i % 64, s.pad j = buffer.getD (64 * (i / 64) + j) 0

theorem absorbed_zero (pad : ℕ → Byte) : Absorbed xform hac buffer 0 ⟨0, 0, hac, pad⟩ where
  cnt := rfl
  totalSize := rfl
  ha := rfl
  pad := fun j hj ↦ absurd hj (Nat.not_lt_zero j)

theorem Absorbed.step {i : ℕ} {byte : Byte} (h : Absorbed xform hac buffer i s)
    (hbyte : buffer[i]? = some byte) :
    Absorbed xform hac buffer (i + 1)
      (if (s.addByte byte).cnt = 64 then (s.addByte byte).runXform xform else s.addByte byte) := by
  have hcnt := h.cnt
  have hget : buffer.getD i 0 = byte := by rw [List.getD_eq_getElem?_getD, hbyte]; rfl
  have hpad : ∀ j ≤ i % 64, (s.addByte byte).pad j = buffer.getD (64 * (i / 64) + j) 0 := by
    intro j hj
    simp only [addByte, hcnt]
    by_cases hlast : j = i % 64
    · rw [hlast, Function.update_self, Nat.div_add_mod, hget]
    · rw [Function.update_of_ne hlast]
      exact h.pad j (by omega)
  have htotal : (s.addByte byte).totalSize = (i + 1) % 2 ^ 32 := by
    simp only [addByte, h.totalSize, Nat.mod_add_mod]
  have hnew : (s.addByte byte).cnt = i % 64 + 1 := by rw [addByte, hcnt]
  rw [hnew]
  by_cases hfull : i % 64 + 1 = 64
  · rw [if_pos hfull]
    have hblock : (fun j : Fin 64 ↦ (s.addByte byte).pad j) = bufferBlock buffer (i / 64) := by
      funext j
      exact hpad j (by omega)
    have hdiv : (i + 1) / 64 = i / 64 + 1 := by omega
    constructor
    · simp only [runXform, hnew]
      omega
    · exact htotal
    · simp only [runXform, hblock, wholeBlocks, hdiv, List.range_succ, List.map_append,
        List.foldl_append]
      rw [show (s.addByte byte).ha = s.ha from rfl, h.ha]
      rfl
    · intro j hj
      omega
  · rw [if_neg hfull]
    have hdiv : (i + 1) / 64 = i / 64 := by omega
    constructor
    · rw [hnew]
      omega
    · exact htotal
    · rw [wholeBlocks, hdiv]
      exact h.ha
    · intro j hj
      rw [hdiv]
      exact hpad j (by omega)

theorem Absorbed.run {n i : ℕ} (h : Absorbed xform hac buffer i s)
    (hlen : i + n ≤ buffer.length) :
    ∃ s', absorb xform buffer n i s = .ok s' ∧ Absorbed xform hac buffer (i + n) s' := by
  induction n generalizing i s with
  | zero => exact ⟨s, rfl, h⟩
  | succ n ih =>
    have hbyte : buffer[i]? = some buffer[i] := List.getElem?_eq_getElem (by omega)
    obtain ⟨s', hs', habsorbed⟩ := ih (h.step hbyte) (by omega)
    refine ⟨s', ?_, by rwa [Nat.add_right_comm] at habsorbed⟩
    rw [absorb, hbyte]
    exact hs'

/-- The loop reads the first `i + n` bytes only. -/
theorem absorb_take {n i m : ℕ} (h : i + n ≤ m) :
    absorb xform (buffer.take m) n i s = absorb xform buffer n i s := by
  induction n generalizing i s with
  | zero => rfl
  | succ n ih =>
    rw [absorb, absorb, List.getElem?_take_of_lt (by omega)]
    cases buffer[i]? with
    | none => rfl
    | some byte => exact ih (by omega)

theorem absorb_of_length_lt {n i : ℕ} (hi : i ≤ buffer.length) (h : buffer.length < i + n) :
    absorb xform buffer n i s = .error .outOfBounds := by
  induction n generalizing i s with
  | zero => omega
  | succ n ih =>
    rw [absorb]
    by_cases hend : i = buffer.length
    · rw [List.getElem?_eq_none (Nat.le_of_eq hend.symm)]
    · have hlt : i < buffer.length := by omega
      rw [List.getElem?_eq_getElem hlt]
      exact ih hlt (by omega)

/-- Bytes added one after the other. -/
def addBytes (s : Sha256 σ) (bytes : List Byte) : Sha256 σ := bytes.foldl addByte s

theorem addBytes_totalSize (bytes : List Byte) :
    (s.addBytes bytes).totalSize % 2 ^ 32 = (s.totalSize + bytes.length) % 2 ^ 32 := by
  induction bytes generalizing s with
  | nil => rfl
  | cons byte bytes ih =>
    have hstep : (s.addByte byte).totalSize = (s.totalSize + 1) % 2 ^ 32 := rfl
    rw [addBytes, List.foldl_cons, ← addBytes, ih, hstep, List.length_cons]
    omega

theorem addBytes_ha (bytes : List Byte) : (s.addBytes bytes).ha = s.ha := by
  induction bytes generalizing s with
  | nil => rfl
  | cons byte bytes ih => exact ih

theorem addBytes_pad (bytes : List Byte) :
    (s.addBytes bytes).pad = ringWrite 64 s.pad s.cnt bytes := by
  induction bytes generalizing s with
  | nil => rfl
  | cons byte bytes ih =>
    have hstep : (s.addByte byte).cnt = s.cnt % 64 + 1 := rfl
    rw [addBytes, List.foldl_cons, ← addBytes, ih, hstep, ringWrite, ringWrite_congr]
    · rfl
    · omega

theorem fillZeros_eq : s.fillZeros = s.addBytes (List.replicate (zeroCnt (s.cnt % 64)) 0) := by
  induction s using fillZeros.induct with
  | case1 s hlt ih =>
    have hstep : (s.addByte 0).cnt = s.cnt % 64 + 1 := rfl
    have hcnt : zeroCnt (s.cnt % 64) = zeroCnt ((s.addByte 0).cnt % 64) + 1 := by
      rw [hstep, zeroCnt, zeroCnt]
      omega
    rw [fillZeros, if_pos hlt, ih, hcnt, List.replicate_succ]
    rfl
  | case2 s hge =>
    have hcnt : zeroCnt (s.cnt % 64) = 1 := by
      rw [zeroCnt]
      omega
    rw [fillZeros, if_neg hge, hcnt]
    rfl

@[simp] theorem lengthByte_mod (n i : ℕ) : lengthByte (n % 2 ^ 32) i = lengthByte n i := by
  rw [lengthByte, lengthByte, Nat.mod_mul_mod]

theorem addLength_eq :
    [24, 16, 8, 0].foldl (fun s i ↦ s.addByte (lengthByte s.totalSize i)) s =
      s.addBytes (lengthBytes s.totalSize) := by
  simp only [List.foldl_cons, List.foldl_nil, addBytes, lengthBytes, addByte, Nat.mod_add_mod,
    lengthByte_mod, Nat.add_assoc, Nat.reduceAdd]

theorem lengthBytes_congr {n n' : ℕ} (h : n % 2 ^ 32 = n' % 2 ^ 32) :
    lengthBytes n = lengthBytes n' := by
  have hbyte : ∀ k i, lengthByte (n + k) i = lengthByte (n' + k) i := by
    intro k i
    rw [← lengthByte_mod (n + k), ← lengthByte_mod (n' + k), ← Nat.mod_add_mod n, h,
      Nat.mod_add_mod]
  have hfirst : lengthByte n 24 = lengthByte n' 24 := hbyte 0 24
  simp only [lengthBytes, hfirst, hbyte]

theorem post_eq {n : ℕ} (hcnt : s.cnt % 64 = n % 64) (htotal : s.totalSize = n % 2 ^ 32) :
    s.post xform = ((s.addByte 0x80).addBytes (padding n)).runXform xform := by
  have hmarker : (s.addByte 0x80).cnt % 64 = (n + 1) % 64 := by
    have : (s.addByte 0x80).cnt = s.cnt % 64 + 1 := rfl
    omega
  have hsize : ((s.addByte 0x80).addBytes (List.replicate (zeroCnt ((n + 1) % 64)) 0)).totalSize %
      2 ^ 32 = (n + 1 + zeroCnt ((n + 1) % 64)) % 2 ^ 32 := by
    have : (s.addByte 0x80).totalSize = (s.totalSize + 1) % 2 ^ 32 := rfl
    rw [addBytes_totalSize, List.length_replicate]
    omega
  rw [post, addLength_eq, fillZeros_eq, hmarker, lengthBytes_congr hsize, padding]
  simp only [addBytes, List.foldl_append]

end Sha256

theorem length_padding (n : ℕ) : (padding n).length = zeroCnt ((n + 1) % 64) + 4 := by
  simp [padding, lengthBytes]

theorem zeroCnt_le (c : ℕ) : zeroCnt c ≤ 60 := by
  rw [zeroCnt]
  omega

theorem ringIndex_marker (n : ℕ) {p : ℕ} (hp : p < 64) :
    ringIndex 64 (n + 1) p = (p + 127 - n % 64) % 64 := by
  rw [ringIndex]
  split_ifs <;> omega

theorem ringIndex_lt_of_gt {n p : ℕ} (hp : p < 64) (hgt : n % 64 < p) :
    ringIndex 64 (n + 1) p < (padding n).length := by
  rw [length_padding, ringIndex_marker n hp, zeroCnt]
  omega

namespace Sha256

variable {σ : Type} {xform : σ → Block → σ} {hac : σ} {buffer : List Byte} {s : Sha256 σ}

theorem Absorbed.post_ha (h : Absorbed xform hac buffer buffer.length s) :
    (s.post xform).ha =
      (wholeBlocks buffer buffer.length ++ [lastBlock buffer]).foldl xform hac := by
  have hcnt : (s.addByte 0x80).cnt % 64 = (buffer.length + 1) % 64 := by
    have hstep : (s.addByte 0x80).cnt = s.cnt % 64 + 1 := rfl
    have := h.cnt
    omega
  have hblock : (fun p : Fin 64 ↦ ((s.addByte 0x80).addBytes (padding buffer.length)).pad p) =
      lastBlock buffer := by
    funext p
    have hlen : (padding buffer.length).length ≤ 64 := by
      rw [length_padding]
      have := zeroCnt_le ((buffer.length + 1) % 64)
      omega
    rw [addBytes_pad, ringWrite_congr hcnt, ringWrite_apply hlen p.isLt, lastBlock]
    by_cases hgt : buffer.length % 64 < p
    · have hlt := ringIndex_lt_of_gt p.isLt hgt
      rw [List.getD_eq_getElem?_getD, List.getD_eq_getElem?_getD, List.getElem?_eq_getElem hlt]
      rfl
    · congr 1
      simp only [addByte, h.cnt]
      by_cases hmarker : (p : ℕ) = buffer.length % 64
      · rw [if_pos hmarker, hmarker, Function.update_self]
      · rw [if_neg hmarker, Function.update_of_ne hmarker]
        exact h.pad p (by omega)
  rw [post_eq h.cnt h.totalSize, runXform]
  simp only [hblock, addBytes_ha, List.foldl_append, List.foldl_cons, List.foldl_nil]
  rw [show (s.addByte 0x80).ha = s.ha from rfl, h.ha]

end Sha256

/-- The checksum folds the compression function over the blocks. -/
theorem nlmChksumSha256_eq {σ : Type} (xform : σ → Block → σ) (hac : σ) (pad : ℕ → Byte)
    {buffer : List Byte} (hne : buffer ≠ []) :
    nlmChksumSha256 xform hac pad buffer buffer.length =
      .ok (some ((wholeBlocks buffer buffer.length ++ [lastBlock buffer]).foldl xform hac)) := by
  have hsize : buffer.length ≠ 0 := fun h ↦ hne (List.length_eq_zero_iff.mp h)
  obtain ⟨s, hs, h⟩ := (Sha256.absorbed_zero pad).run (Nat.le_of_eq (Nat.zero_add _))
  rw [Nat.zero_add] at h
  rw [nlmChksumSha256, if_neg hsize, hs]
  simp only [h.post_ha]

theorem foldl_append_singleton {α : Type} (init xs : List α) :
    xs.foldl (fun ys x ↦ ys ++ [x]) init = init ++ xs := by
  induction xs generalizing init with
  | nil => simp
  | cons x xs ih => rw [List.foldl_cons, ih, List.append_assoc, List.singleton_append]

theorem xformBlocks_eq (pad : ℕ → Byte) {buffer : List Byte} (hne : buffer ≠ []) :
    xformBlocks pad buffer = wholeBlocks buffer buffer.length ++ [lastBlock buffer] := by
  rw [xformBlocks, nlmChksumSha256_eq _ _ pad hne]
  exact foldl_append_singleton [] _

/-- The checksum of a buffer depends on its blocks only. -/
theorem nlmChksumSha256_eq_foldl {σ : Type} (xform : σ → Block → σ) (hac : σ)
    (pad : ℕ → Byte) {buffer : List Byte} (hne : buffer ≠ []) :
    nlmChksumSha256 xform hac pad buffer buffer.length =
      .ok (some ((xformBlocks pad buffer).foldl xform hac)) := by
  rw [nlmChksumSha256_eq xform hac pad hne, xformBlocks_eq pad hne]

/-! ### What the last block tells -/

section LastBlock

variable {a b buffer : List Byte} {p : ℕ}

/-- The position gets a zero behind the marker. -/
theorem lastBlock_zero (hp : p < 64)
    (h : (p + 127 - buffer.length % 64) % 64 < zeroCnt ((buffer.length + 1) % 64)) :
    (lastBlock buffer ⟨p, hp⟩).toNat = 0 := by
  simp only [lastBlock, ringIndex_marker _ hp, padding]
  rw [List.getD_append _ _ _ _ (by rwa [List.length_replicate]), List.getD_replicate _ h]
  rfl

/-- The position gets byte `k` of the length, when `t` bytes have been written. -/
theorem lastBlock_length (hp : p < 64) {k i t : ℕ}
    (h : (p + 127 - buffer.length % 64) % 64 = zeroCnt ((buffer.length + 1) % 64) + k)
    (hi : i + 8 * k = 24) (ht : buffer.length + 1 + zeroCnt ((buffer.length + 1) % 64) + k = t) :
    (lastBlock buffer ⟨p, hp⟩).toNat = t * 8 % 2 ^ 32 / 2 ^ i % 256 := by
  simp only [lastBlock, ringIndex_marker _ hp, padding, h]
  rw [List.getD_append_right _ _ _ _ (by rw [List.length_replicate]; omega),
    List.length_replicate, Nat.add_sub_cancel_left, ← ht]
  have hk : k = 0 ∨ k = 1 ∨ k = 2 ∨ k = 3 := by omega
  rcases hk with rfl | rfl | rfl | rfl
  · obtain rfl : i = 24 := by omega
    rfl
  · obtain rfl : i = 16 := by omega
    rfl
  · obtain rfl : i = 8 := by omega
    rfl
  · obtain rfl : i = 0 := by omega
    rfl

theorem lastBlock_kept (hp : p < 64)
    (h : zeroCnt ((buffer.length + 1) % 64) + 4 ≤ (p + 127 - buffer.length % 64) % 64) :
    lastBlock buffer ⟨p, hp⟩ = if p = buffer.length % 64 then 0x80
      else buffer.getD (64 * (buffer.length / 64) + p) 0 := by
  simp only [lastBlock, ringIndex_marker _ hp]
  rw [List.getD_eq_getElem?_getD, List.getElem?_eq_none (by rwa [length_padding])]
  rfl

theorem lastBlock_marker (hp : p < 64) (hr : p = buffer.length % 64)
    (h : zeroCnt ((buffer.length + 1) % 64) + 4 ≤ (p + 127 - buffer.length % 64) % 64) :
    (lastBlock buffer ⟨p, hp⟩).toNat = 128 := by
  rw [lastBlock_kept hp h, if_pos hr]
  rfl

theorem lastBlock_ne_short (hlt : a.length % 64 < b.length % 64) (hb : b.length % 64 ≤ 58) :
    lastBlock a ≠ lastBlock b := by
  intro heq
  have hp : b.length % 64 < 64 := by omega
  have hat := congrArg BitVec.toNat (congrFun heq ⟨b.length % 64, hp⟩)
  rw [lastBlock_zero hp (by rw [zeroCnt]; omega),
    lastBlock_marker hp rfl (by rw [zeroCnt]; omega)] at hat
  omega

theorem lastBlock_ne_short_long (hq : a.length / 64 = b.length / 64) (ha : a.length % 64 ≤ 58)
    (hb : 59 ≤ b.length % 64) : lastBlock a ≠ lastBlock b := by
  intro heq
  have hat : ∀ p (hp : p < 64),
      (lastBlock a ⟨p, hp⟩).toNat = (lastBlock b ⟨p, hp⟩).toNat :=
    fun p hp ↦ congrArg BitVec.toNat (congrFun heq ⟨p, hp⟩)
  have hlen := Nat.div_add_mod a.length 64
  have hlen' := Nat.div_add_mod b.length 64
  have h61 : (lastBlock a ⟨61, by omega⟩).toNat =
      (64 * (a.length / 64) + 61) * 8 % 2 ^ 32 / 2 ^ 16 % 256 :=
    lastBlock_length _ (k := 1) (by rw [zeroCnt]; omega) rfl (by rw [zeroCnt]; omega)
  have h62 : (lastBlock a ⟨62, by omega⟩).toNat =
      (64 * (a.length / 64) + 62) * 8 % 2 ^ 32 / 2 ^ 8 % 256 :=
    lastBlock_length _ (k := 2) (by rw [zeroCnt]; omega) rfl (by rw [zeroCnt]; omega)
  have h63 : (lastBlock a ⟨63, by omega⟩).toNat =
      (64 * (a.length / 64) + 63) * 8 % 2 ^ 32 / 2 ^ 0 % 256 :=
    lastBlock_length _ (k := 3) (by rw [zeroCnt]; omega) rfl (by rw [zeroCnt]; omega)
  rw [hat] at h61 h62 h63
  have hcases : b.length % 64 = 59 ∨ b.length % 64 = 60 ∨ b.length % 64 = 61 ∨
      b.length % 64 = 62 ∨ b.length % 64 = 63 := by omega
  rcases hcases with hb | hb | hb | hb | hb
  · rw [lastBlock_length (t := 64 * (a.length / 64) + 63) _ (k := 2) (i := 8)
      (by rw [zeroCnt]; omega) rfl (by rw [zeroCnt]; omega)] at h63
    omega
  · rw [lastBlock_zero _ (by rw [zeroCnt]; omega)] at h61
    rw [lastBlock_length (t := 64 * (a.length / 64) + 63) _ (k := 1) (i := 16)
      (by rw [zeroCnt]; omega) rfl (by rw [zeroCnt]; omega)] at h63
    omega
  · rw [lastBlock_zero _ (by rw [zeroCnt]; omega)] at h62
    omega
  · rw [lastBlock_zero _ (by rw [zeroCnt]; omega)] at h63
    omega
  · have hp : a.length % 64 < 64 := by omega
    have hmarker := hat _ hp
    rw [lastBlock_marker hp rfl (by rw [zeroCnt]; omega),
      lastBlock_zero hp (by rw [zeroCnt]; omega)] at hmarker
    omega

theorem lengthByte_odd (q : ℕ) : (64 * q + 63) * 8 % 2 ^ 32 / 2 ^ 8 % 256 % 2 = 1 := by
  omega

theorem highByte_eq (q : ℕ) :
    (64 * q + 61) * 8 % 2 ^ 32 / 2 ^ 24 = (64 * q + 63) * 8 % 2 ^ 32 / 2 ^ 24 := by
  omega

theorem lastBlock_ne_59 (hq : a.length / 64 = b.length / 64) (ha : a.length % 64 = 59)
    (hb : 60 ≤ b.length % 64) : lastBlock a ≠ lastBlock b := by
  intro heq
  have hat : ∀ p (hp : p < 64),
      (lastBlock a ⟨p, hp⟩).toNat = (lastBlock b ⟨p, hp⟩).toNat :=
    fun p hp ↦ congrArg BitVec.toNat (congrFun heq ⟨p, hp⟩)
  have hlen := Nat.div_add_mod a.length 64
  have hlen' := Nat.div_add_mod b.length 64
  have h61 : (lastBlock a ⟨61, by omega⟩).toNat =
      (64 * (a.length / 64) + 61) * 8 % 2 ^ 32 / 2 ^ 24 % 256 :=
    lastBlock_length _ (k := 0) (by rw [zeroCnt]; omega) rfl (by rw [zeroCnt]; omega)
  have h63 : (lastBlock a ⟨63, by omega⟩).toNat =
      (64 * (a.length / 64) + 63) * 8 % 2 ^ 32 / 2 ^ 8 % 256 :=
    lastBlock_length _ (k := 2) (by rw [zeroCnt]; omega) rfl (by rw [zeroCnt]; omega)
  have hcases : b.length % 64 = 60 ∨ b.length % 64 = 61 ∨ b.length % 64 = 62 ∨
      b.length % 64 = 63 := by omega
  rcases hcases with hb | hb | hb | hb
  · have h60 := hat 60 (by omega)
    rw [lastBlock_zero _ (by rw [zeroCnt]; omega),
      lastBlock_marker _ hb.symm (by rw [zeroCnt]; omega)] at h60
    omega
  · rw [hat, lastBlock_marker _ hb.symm (by rw [zeroCnt]; omega)] at h61
    rw [hat, lastBlock_length (t := 64 * (a.length / 64) + 63) _ (k := 0) (i := 24)
      (by rw [zeroCnt]; omega) rfl (by rw [zeroCnt]; omega)] at h63
    -- the high byte of the length is 128 at 61 and odd at 63
    have hodd := lengthByte_odd (a.length / 64)
    rw [← h63, ← highByte_eq, ← h61] at hodd
    omega
  · rw [hat, lastBlock_zero _ (by rw [zeroCnt]; omega)] at h63
    omega
  · have h59 := hat 59 (by omega)
    rw [lastBlock_marker _ ha.symm (by rw [zeroCnt]; omega),
      lastBlock_zero _ (by rw [zeroCnt]; omega)] at h59
    omega

theorem lastBlock_ne_60 (hq : a.length / 64 = b.length / 64) (ha : a.length % 64 = 60)
    (hb : 61 ≤ b.length % 64) : lastBlock a ≠ lastBlock b := by
  intro heq
  have hat : ∀ p (hp : p < 64),
      (lastBlock a ⟨p, hp⟩).toNat = (lastBlock b ⟨p, hp⟩).toNat :=
    fun p hp ↦ congrArg BitVec.toNat (congrFun heq ⟨p, hp⟩)
  have hlen := Nat.div_add_mod a.length 64
  have hlen' := Nat.div_add_mod b.length 64
  have h1 : (lastBlock a ⟨1, by omega⟩).toNat =
      (64 * (a.length / 64) + 65) * 8 % 2 ^ 32 / 2 ^ 0 % 256 :=
    lastBlock_length _ (k := 3) (by rw [zeroCnt]; omega) rfl (by rw [zeroCnt]; omega)
  have h63 : (lastBlock a ⟨63, by omega⟩).toNat =
      (64 * (a.length / 64) + 63) * 8 % 2 ^ 32 / 2 ^ 16 % 256 :=
    lastBlock_length _ (k := 1) (by rw [zeroCnt]; omega) rfl (by rw [zeroCnt]; omega)
  have hcases : b.length % 64 = 61 ∨ b.length % 64 = 62 ∨ b.length % 64 = 63 := by omega
  rcases hcases with hb | hb | hb
  · have h61 := hat 61 (by omega)
    rw [lastBlock_zero _ (by rw [zeroCnt]; omega),
      lastBlock_marker _ hb.symm (by rw [zeroCnt]; omega)] at h61
    omega
  · rw [hat, lastBlock_length (t := 64 * (a.length / 64) + 65) _ (k := 1) (i := 16)
      (by rw [zeroCnt]; omega) rfl (by rw [zeroCnt]; omega)] at h1
    rw [hat, lastBlock_zero _ (by rw [zeroCnt]; omega)] at h63
    omega
  · rw [hat, lastBlock_zero _ (by rw [zeroCnt]; omega)] at h1
    omega

theorem lastBlock_ne_61 (hq : a.length / 64 = b.length / 64)
    (hlt : a.length % 64 < b.length % 64) (ha : 61 ≤ a.length % 64) :
    lastBlock a ≠ lastBlock b := by
  intro heq
  have hat : ∀ p (hp : p < 64),
      (lastBlock a ⟨p, hp⟩).toNat = (lastBlock b ⟨p, hp⟩).toNat :=
    fun p hp ↦ congrArg BitVec.toNat (congrFun heq ⟨p, hp⟩)
  have hlen := Nat.div_add_mod a.length 64
  have hcases : a.length % 64 = 61 ∧ b.length % 64 = 62 ∨
      a.length % 64 = 61 ∧ b.length % 64 = 63 ∨ a.length % 64 = 62 ∧ b.length % 64 = 63 := by
    omega
  rcases hcases with ⟨ha, hb⟩ | ⟨ha, hb⟩ | ⟨ha, hb⟩
  · have h62 := hat 62 (by omega)
    rw [lastBlock_zero _ (by rw [zeroCnt]; omega),
      lastBlock_marker _ hb.symm (by rw [zeroCnt]; omega)] at h62
    omega
  · have h2 := hat 2 (by omega)
    rw [lastBlock_length (t := 64 * (a.length / 64) + 66) _ (k := 3) (i := 0)
      (by rw [zeroCnt]; omega) rfl (by rw [zeroCnt]; omega),
      lastBlock_zero _ (by rw [zeroCnt]; omega)] at h2
    omega
  · have h3 := hat 3 (by omega)
    rw [lastBlock_length (t := 64 * (a.length / 64) + 67) _ (k := 3) (i := 0)
      (by rw [zeroCnt]; omega) rfl (by rw [zeroCnt]; omega),
      lastBlock_zero _ (by rw [zeroCnt]; omega)] at h3
    omega

/-- The last block tells the length of the tail. -/
theorem lastBlock_ne_of_lt (hq : a.length / 64 = b.length / 64)
    (hlt : a.length % 64 < b.length % 64) : lastBlock a ≠ lastBlock b := by
  by_cases hb : b.length % 64 ≤ 58
  · exact lastBlock_ne_short hlt hb
  · have hcases : a.length % 64 ≤ 58 ∨ a.length % 64 = 59 ∨ a.length % 64 = 60 ∨
        61 ≤ a.length % 64 := by omega
    rcases hcases with ha | ha | ha | ha
    · exact lastBlock_ne_short_long hq ha (by omega)
    · exact lastBlock_ne_59 hq ha (by omega)
    · exact lastBlock_ne_60 hq ha (by omega)
    · exact lastBlock_ne_61 hq hlt ha

theorem length_eq_of_lastBlock_eq (hq : a.length / 64 = b.length / 64)
    (h : lastBlock a = lastBlock b) : a.length = b.length := by
  have hnot : ¬ a.length % 64 < b.length % 64 := fun hlt ↦ lastBlock_ne_of_lt hq hlt h
  have hnot' : ¬ b.length % 64 < a.length % 64 :=
    fun hlt ↦ lastBlock_ne_of_lt hq.symm hlt h.symm
  omega

end LastBlock

/-- The bytes of a buffer of `n` bytes that the padding is written over. -/
def Overwritten (n i : ℕ) : Prop :=
  59 ≤ n % 64 ∧ n - n % 64 ≤ i ∧ (n % 64 = 63 ∨ i + 58 < n)

/-- Two buffers of one length that differ only where the padding is written over them. -/
def AgreeOutsidePadding (a b : List Byte) : Prop :=
  a.length = b.length ∧ ∀ i < a.length, a.getD i 0 ≠ b.getD i 0 → Overwritten a.length i

theorem overwritten_iff {n p : ℕ} (hp : p < n % 64) :
    Overwritten n (64 * (n / 64) + p) ↔
      (p + 127 - n % 64) % 64 < zeroCnt ((n + 1) % 64) + 4 := by
  rw [Overwritten, zeroCnt]
  omega

theorem wholeBlocks_eq_iff {a b : List Byte} {n : ℕ} :
    wholeBlocks a n = wholeBlocks b n ↔ ∀ i < 64 * (n / 64), a.getD i 0 = b.getD i 0 := by
  rw [wholeBlocks, wholeBlocks, List.map_inj_left]
  constructor
  · intro h i hi
    have hblock := congrFun (h (i / 64) (List.mem_range.mpr (by omega)))
      ⟨i % 64, Nat.mod_lt _ (by omega)⟩
    simpa only [bufferBlock, Nat.div_add_mod] using hblock
  · intro h q hq
    have hq := List.mem_range.mp hq
    funext j
    exact h _ (by omega)

theorem lastBlock_eq_iff {a b : List Byte} (hlen : a.length = b.length) :
    lastBlock a = lastBlock b ↔ ∀ p < a.length % 64,
      ¬ Overwritten a.length (64 * (a.length / 64) + p) →
        a.getD (64 * (a.length / 64) + p) 0 = b.getD (64 * (a.length / 64) + p) 0 := by
  constructor
  · intro h p hp hkept
    rw [overwritten_iff hp, Nat.not_lt] at hkept
    have hp64 : p < 64 := by omega
    have hat := congrFun h ⟨p, hp64⟩
    rw [lastBlock_kept hp64 hkept, lastBlock_kept hp64 (by rwa [← hlen]), ← hlen,
      if_neg (by omega), if_neg (by omega)] at hat
    exact hat
  · intro h
    funext p
    simp only [lastBlock, ← hlen]
    by_cases hindex : ringIndex 64 (a.length + 1) p < (padding a.length).length
    · rw [List.getD_eq_getElem _ _ hindex, List.getD_eq_getElem _ _ hindex]
    · congr 1
      by_cases hmarker : (p : ℕ) = a.length % 64
      · rw [if_pos hmarker, if_pos hmarker]
      · have hle : ¬ a.length % 64 < p := fun hgt ↦ hindex (ringIndex_lt_of_gt p.isLt hgt)
        have hp : (p : ℕ) < a.length % 64 := by omega
        rw [if_neg hmarker, if_neg hmarker]
        apply h p hp
        rw [overwritten_iff hp]
        rwa [ringIndex_marker _ p.isLt, length_padding] at hindex

theorem agreeOutsidePadding_iff {a b : List Byte} :
    AgreeOutsidePadding a b ↔ a.length = b.length ∧
      (∀ i < 64 * (a.length / 64), a.getD i 0 = b.getD i 0) ∧
      ∀ p < a.length % 64, ¬ Overwritten a.length (64 * (a.length / 64) + p) →
        a.getD (64 * (a.length / 64) + p) 0 = b.getD (64 * (a.length / 64) + p) 0 := by
  constructor
  · rintro ⟨hlen, h⟩
    refine ⟨hlen, ?_, ?_⟩
    · intro i hi
      by_contra hne
      have := (h i (by omega) hne).2.1
      omega
    · intro p hp hkept
      by_contra hne
      exact hkept (h _ (by omega) hne)
  · rintro ⟨hlen, hwhole, htail⟩
    refine ⟨hlen, ?_⟩
    intro i hi hne
    by_contra hkept
    by_cases hi' : i < 64 * (a.length / 64)
    · exact hne (hwhole i hi')
    · have hsplit : 64 * (a.length / 64) + (i - 64 * (a.length / 64)) = i := by omega
      have hat := htail (i - 64 * (a.length / 64)) (by omega)
      rw [hsplit] at hat
      exact hne (hat hkept)

/-- The blocks forget exactly the bytes that the padding is written over. -/
theorem xformBlocks_eq_iff (pad pad' : ℕ → Byte) {a b : List Byte} (ha : a ≠ []) (hb : b ≠ []) :
    xformBlocks pad a = xformBlocks pad' b ↔ AgreeOutsidePadding a b := by
  rw [xformBlocks_eq pad ha, xformBlocks_eq pad' hb, agreeOutsidePadding_iff]
  constructor
  · intro h
    obtain ⟨hwhole, hlast⟩ := List.append_inj' h rfl
    have hq : a.length / 64 = b.length / 64 := by
      simpa [wholeBlocks] using congrArg List.length hwhole
    have hlen := length_eq_of_lastBlock_eq hq (List.singleton_inj.mp hlast)
    rw [← hlen] at hwhole
    refine ⟨hlen, wholeBlocks_eq_iff.mp hwhole, ?_⟩
    exact (lastBlock_eq_iff hlen).mp (List.singleton_inj.mp hlast)
  · rintro ⟨hlen, hwhole, htail⟩
    rw [← hlen, wholeBlocks_eq_iff.mpr hwhole, (lastBlock_eq_iff hlen).mpr htail]

/-- Two buffers are hashed as different blocks, unless they differ at most in bytes that the
padding is written over. -/
theorem xformBlocks_ne_iff (pad pad' : ℕ → Byte) {a b : List Byte} (ha : a ≠ [])
    (hb : b ≠ []) : xformBlocks pad a ≠ xformBlocks pad' b ↔ ¬ AgreeOutsidePadding a b := by
  rw [ne_eq, xformBlocks_eq_iff pad pad' ha hb]

theorem xformBlocks_ne_iff_short :
    xformBlocks (fun _ ↦ 0) [1] ≠ xformBlocks (fun _ ↦ 0) [2] ↔ ¬ AgreeOutsidePadding [1] [2] :=
  xformBlocks_ne_iff _ _ (by decide) (by decide)

/-- The first of 59 bytes does not reach the compression function. -/
theorem first_of_59_bytes_lost :
    (0 :: List.replicate 58 0 : List Byte) ≠ 1 :: List.replicate 58 0 ∧
      xformBlocks (fun _ ↦ 0) (0 :: List.replicate 58 0) =
        xformBlocks (fun _ ↦ 0) (1 :: List.replicate 58 0) := by
  refine ⟨by decide, ?_⟩
  apply (xformBlocks_eq_iff _ _ (by decide) (by decide)).mpr
  refine ⟨rfl, ?_⟩
  intro i _ hne
  cases i with
  | zero => exact ⟨by decide, by decide, .inr (by decide)⟩
  | succ i => exact absurd rfl hne

end NetL7.Loader
