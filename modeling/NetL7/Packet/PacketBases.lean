import NetL7.Packet.Enqueue
import Mathlib.Data.Nat.Bitwise

/-!
# Packet addresses in descriptors

A descriptor holds the low 32 bits of the address of its packet and the index of
the upper bits in a table of 16 bases. Without `virt_to_phys` the table is filled
once around `packet_base_phys`; with it the table is filled on demand and entries
never change again, so what a descriptor encodes stays true. The hardware
registers that mirror the table are left out.
-/

namespace NetL7.Packet

/-- `HW_PACKET_BASES` -/
abbrev hwPacketBases : ℕ := 16

/-- The part of `configure_device` that initialises the table. -/
def initPacketBases (k : PacketConfig) : List ℕ :=
  match k.virtToPhys with
  | none => (List.range hwPacketBases).map fun i ↦ k.packetBasePhys / 2 ^ 36 * 2 ^ 36 + i * 2 ^ 32
  | some _ => List.replicate hwPacketBases freePacketBase

/-- How the loop over the table ends. -/
inductive BaseSearch
  | found (i : ℕ)
  | free (i : ℕ)
  | full
  deriving DecidableEq, Repr

/-- The loop over the table, from the entry `i` on. -/
def searchBases (physAddrBase : ℕ) : List ℕ → ℕ → BaseSearch
  | [], _ => .full
  | base :: bases, i =>
    if base = physAddrBase then .found i
    else if base = freePacketBase then .free i
    else searchBases physAddrBase bases (i + 1)

/-- `store_phys_addr_into_fd` -/
def storePhysAddrIntoFd (k : PacketConfig) (packetBase : List ℕ) (fd : HwFdDescriptor)
    (physAddr : ℕ) : NlmStatus × List ℕ × HwFdDescriptor :=
  let physAddrBase := physAddr / 2 ^ 32 * 2 ^ 32
  let fd := { fd with packetAddr := physAddr % 2 ^ 32 }
  match k.virtToPhys with
  | none =>
    if k.packetBasePhys / 2 ^ 36 * 2 ^ 36 ≠ physAddrBase / 2 ^ 36 * 2 ^ 36 then
      (.outOfPacketMemory, packetBase, fd)
    else (.ok, packetBase, { fd with packetBase := physAddrBase / 2 ^ 32 % 16 })
  | some _ =>
    match searchBases physAddrBase packetBase 0 with
    | .found i => (.ok, packetBase, { fd with packetBase := i })
    | .free i => (.ok, packetBase.set i physAddrBase, { fd with packetBase := i })
    | .full => (.outOfPacketMemory, packetBase, fd)

/-- `store_phys_addr_into_pd` -/
def storePhysAddrIntoPd (k : PacketConfig) (packetBase : List ℕ) (pd : HwPdDescriptor)
    (physAddr : ℕ) : NlmStatus × List ℕ × HwPdDescriptor :=
  let physAddrBase := physAddr / 2 ^ 32 * 2 ^ 32
  let pd := { pd with packetAddr := physAddr % 2 ^ 32 }
  match k.virtToPhys with
  | none =>
    if k.packetBasePhys / 2 ^ 36 * 2 ^ 36 ≠ physAddrBase / 2 ^ 36 * 2 ^ 36 then
      (.outOfPacketMemory, packetBase, pd)
    else (.ok, packetBase, { pd with packetBase := physAddrBase / 2 ^ 32 % 16 })
  | some _ =>
    match searchBases physAddrBase packetBase 0 with
    | .found i => (.ok, packetBase, { pd with packetBase := i })
    | .free i => (.ok, packetBase.set i physAddrBase, { pd with packetBase := i })
    | .full => (.outOfPacketMemory, packetBase, pd)

/-- A call of one of the two functions. -/
inductive StoreCall
  | intoFd (fd : HwFdDescriptor) (physAddr : ℕ)
  | intoPd (pd : HwPdDescriptor) (physAddr : ℕ)

/-- The address that a call stores. -/
def StoreCall.physAddr : StoreCall → ℕ
  | .intoFd _ physAddr => physAddr
  | .intoPd _ physAddr => physAddr

/-- What a call returns, the table after it and the two fields of the descriptor. -/
structure StoreResult where
  status : NlmStatus
  table : List ℕ
  packetBase : ℕ
  packetAddr : ℕ
  deriving DecidableEq, Repr

/-- One call. -/
def StoreCall.result (k : PacketConfig) (table : List ℕ) : StoreCall → StoreResult
  | .intoFd fd physAddr =>
    let r := storePhysAddrIntoFd k table fd physAddr
    ⟨r.1, r.2.1, r.2.2.packetBase, r.2.2.packetAddr⟩
  | .intoPd pd physAddr =>
    let r := storePhysAddrIntoPd k table pd physAddr
    ⟨r.1, r.2.1, r.2.2.packetBase, r.2.2.packetAddr⟩

/-- The table after a sequence of calls. -/
def tableAfter (k : PacketConfig) : List ℕ → List StoreCall → List ℕ
  | table, [] => table
  | table, call :: calls => tableAfter k (call.result k table).table calls

/-- The addresses of a sequence of calls, each with what its call returned. -/
def storeLog (k : PacketConfig) : List ℕ → List StoreCall → List (ℕ × StoreResult)
  | _, [] => []
  | table, call :: calls =>
    (call.physAddr, call.result k table) :: storeLog k (call.result k table).table calls

/-- The bases in use. -/
def allocatedBases (table : List ℕ) : List ℕ := table.filter (· ≠ freePacketBase)

/-! ### The two encodings of an address -/

/-- What both functions do with the table and an address: the index of the base and the
table, or nothing when the call fails. -/
def encodePhysAddr (k : PacketConfig) (table : List ℕ) (physAddr : ℕ) : Option (ℕ × List ℕ) :=
  match k.virtToPhys with
  | none =>
    if k.packetBasePhys / 2 ^ 36 = physAddr / 2 ^ 36 then some (physAddr / 2 ^ 32 % 16, table)
    else none
  | some _ =>
    match searchBases (physAddr / 2 ^ 32 * 2 ^ 32) table 0 with
    | .found i => some (i, table)
    | .free i => some (i, table.set i (physAddr / 2 ^ 32 * 2 ^ 32))
    | .full => none

theorem window_iff (a b : ℕ) :
    a / 2 ^ 36 * 2 ^ 36 ≠ b / 2 ^ 32 * 2 ^ 32 / 2 ^ 36 * 2 ^ 36 ↔ ¬a / 2 ^ 36 = b / 2 ^ 36 := by
  omega

theorem base_index (a : ℕ) : a / 2 ^ 32 * 2 ^ 32 / 2 ^ 32 % 16 = a / 2 ^ 32 % 16 := by
  omega

theorem storePhysAddrIntoFd_eq (k : PacketConfig) (table : List ℕ) (fd : HwFdDescriptor)
    (a : ℕ) :
    storePhysAddrIntoFd k table fd a =
      match encodePhysAddr k table a with
      | some (i, table') => (.ok, table', { fd with packetAddr := a % 2 ^ 32, packetBase := i })
      | none => (.outOfPacketMemory, table, { fd with packetAddr := a % 2 ^ 32 }) := by
  unfold storePhysAddrIntoFd encodePhysAddr
  cases k.virtToPhys with
  | none =>
      simp only [window_iff, base_index]
      by_cases h : k.packetBasePhys / 2 ^ 36 = a / 2 ^ 36
      · simp only [h, not_true_eq_false, if_false, if_true]
      · simp only [h, not_false_eq_true, if_false, if_true]
  | some _ =>
      simp only []
      cases searchBases (a / 2 ^ 32 * 2 ^ 32) table 0 with
      | found i => rfl
      | free i => rfl
      | full => rfl

theorem storePhysAddrIntoPd_eq (k : PacketConfig) (table : List ℕ) (pd : HwPdDescriptor)
    (a : ℕ) :
    storePhysAddrIntoPd k table pd a =
      match encodePhysAddr k table a with
      | some (i, table') => (.ok, table', { pd with packetAddr := a % 2 ^ 32, packetBase := i })
      | none => (.outOfPacketMemory, table, { pd with packetAddr := a % 2 ^ 32 }) := by
  unfold storePhysAddrIntoPd encodePhysAddr
  cases k.virtToPhys with
  | none =>
      simp only [window_iff, base_index]
      by_cases h : k.packetBasePhys / 2 ^ 36 = a / 2 ^ 36
      · simp only [h, not_true_eq_false, if_false, if_true]
      · simp only [h, not_false_eq_true, if_false, if_true]
  | some _ =>
      simp only []
      cases searchBases (a / 2 ^ 32 * 2 ^ 32) table 0 with
      | found i => rfl
      | free i => rfl
      | full => rfl

theorem StoreCall.result_of_some {k : PacketConfig} {table : List ℕ} {call : StoreCall}
    {r : ℕ × List ℕ} (h : encodePhysAddr k table call.physAddr = some r) :
    call.result k table = ⟨.ok, r.2, r.1, call.physAddr % 2 ^ 32⟩ := by
  cases call with
  | intoFd fd a =>
      change encodePhysAddr k table a = some r at h
      simp only [StoreCall.result, storePhysAddrIntoFd_eq, h]
      rfl
  | intoPd pd a =>
      change encodePhysAddr k table a = some r at h
      simp only [StoreCall.result, storePhysAddrIntoPd_eq, h]
      rfl

theorem StoreCall.result_of_none {k : PacketConfig} {table : List ℕ} {call : StoreCall}
    (h : encodePhysAddr k table call.physAddr = none) :
    (call.result k table).status = .outOfPacketMemory ∧ (call.result k table).table = table := by
  cases call with
  | intoFd fd a =>
      change encodePhysAddr k table a = none at h
      simp only [StoreCall.result, storePhysAddrIntoFd_eq, h]
      exact ⟨trivial, trivial⟩
  | intoPd pd a =>
      change encodePhysAddr k table a = none at h
      simp only [StoreCall.result, storePhysAddrIntoPd_eq, h]
      exact ⟨trivial, trivial⟩

theorem StoreCall.result_status_iff {k : PacketConfig} {table : List ℕ} {call : StoreCall} :
    (call.result k table).status = .ok ↔ ∃ r, encodePhysAddr k table call.physAddr = some r := by
  cases h : encodePhysAddr k table call.physAddr with
  | none =>
      rw [(StoreCall.result_of_none h).1]
      exact ⟨fun hs ↦ (by cases hs), fun ⟨r, hr⟩ ↦ (by cases hr)⟩
  | some r =>
      rw [StoreCall.result_of_some h]
      exact ⟨fun _ ↦ ⟨r, rfl⟩, fun _ ↦ rfl⟩

/-! ### The loop over the table -/

theorem searchBases_of_mem {b : ℕ} {bases : List ℕ} (hb : b ∈ bases)
    (hfree : freePacketBase ∉ bases) (rest : List ℕ) (i : ℕ) :
    ∃ n, bases[n]? = some b ∧ searchBases b (bases ++ rest) i = .found (i + n) := by
  induction bases generalizing i with
  | nil => exact absurd hb List.not_mem_nil
  | cons base bases ih =>
      by_cases hbase : base = b
      · refine ⟨0, congrArg some hbase, ?_⟩
        rw [List.cons_append, searchBases, if_pos hbase, Nat.add_zero]
      · have hmem := (List.mem_cons.mp hb).resolve_left fun h ↦ hbase h.symm
        obtain ⟨n, hn, hs⟩ := ih hmem (fun h ↦ hfree (List.mem_cons_of_mem _ h)) (i + 1)
        refine ⟨n + 1, hn, ?_⟩
        rw [List.cons_append, searchBases, if_neg hbase,
          if_neg fun h : base = freePacketBase ↦ hfree (h ▸ List.mem_cons_self), hs, Nat.add_right_comm, Nat.add_assoc]

theorem searchBases_of_not_mem {b : ℕ} {bases : List ℕ} (hb : b ∉ bases)
    (hfree : freePacketBase ∉ bases) (rest : List ℕ) (i : ℕ) :
    searchBases b (bases ++ rest) i = searchBases b rest (i + bases.length) := by
  induction bases generalizing i with
  | nil => rfl
  | cons base bases ih =>
      rw [List.cons_append, searchBases, if_neg fun h : base = b ↦ hb (h ▸ List.mem_cons_self),
        if_neg fun h : base = freePacketBase ↦ hfree (h ▸ List.mem_cons_self),
        ih (fun h ↦ hb (List.mem_cons_of_mem _ h)) fun h ↦ hfree (List.mem_cons_of_mem _ h),
        List.length_cons, Nat.add_right_comm, Nat.add_assoc]

/-- The loop stops where `storePhysAddr` finds the base or a free entry. -/
theorem searchBases_spec (b : ℕ) (table : List ℕ) (i : ℕ) :
    (∃ n, searchBases b table i = .found (i + n) ∧ table.set n b = table ∧
        table.findIdx? (fun base ↦ base == b || base == freePacketBase) = some n) ∨
      (∃ n, searchBases b table i = .free (i + n) ∧
        table.findIdx? (fun base ↦ base == b || base == freePacketBase) = some n) ∨
        searchBases b table i = .full ∧
          table.findIdx? (fun base ↦ base == b || base == freePacketBase) = none := by
  induction table generalizing i with
  | nil => exact Or.inr (Or.inr ⟨rfl, rfl⟩)
  | cons base table ih =>
      rw [searchBases, List.findIdx?_cons]
      by_cases hb : base = b
      · left
        refine ⟨0, if_pos hb, by rw [List.set_cons_zero, hb], if_pos ?_⟩
        rw [hb, beq_self_eq_true, Bool.true_or]
      by_cases hfree : base = freePacketBase
      · right
        left
        refine ⟨0, by rw [if_neg hb, if_pos hfree, Nat.add_zero], if_pos ?_⟩
        rw [hfree, beq_self_eq_true, Bool.or_true]
      have hno : (base == b || base == freePacketBase) = false := by
        rw [beq_eq_false_iff_ne.mpr hb, beq_eq_false_iff_ne.mpr hfree, Bool.or_false]
      rw [if_neg hb, if_neg hfree, hno, if_neg (by decide)]
      rcases ih (i + 1) with ⟨n, hs, hset, hidx⟩ | ⟨n, hs, hidx⟩ | ⟨hs, hidx⟩
      · left
        refine ⟨n + 1, by rw [hs, Nat.add_right_comm, Nat.add_assoc], ?_, by rw [hidx]; rfl⟩
        rw [List.set_cons_succ, hset]
      · right
        left
        exact ⟨n + 1, by rw [hs, Nat.add_right_comm, Nat.add_assoc], by rw [hidx]; rfl⟩
      · right
        right
        exact ⟨hs, by rw [hidx]; rfl⟩

/-- The lookup of the enqueue functions is the one of both descriptors. -/
theorem storePhysAddr_eq (k : PacketConfig) (table : List ℕ) (a : ℕ) :
    storePhysAddr k table a = encodePhysAddr k table a := by
  rw [storePhysAddr, encodePhysAddr]
  cases k.virtToPhys with
  | none =>
      simp only [window_iff, base_index]
      by_cases h : k.packetBasePhys / 2 ^ 36 = a / 2 ^ 36
      · simp only [h, not_true_eq_false, if_false, if_true]
      · simp only [h, not_false_eq_true, if_false, if_true]
  | some f =>
      simp only []
      generalize a / 2 ^ 32 * 2 ^ 32 = b
      rcases searchBases_spec b table 0 with ⟨n, hs, hset, hidx⟩ | ⟨n, hs, hidx⟩ | ⟨hs, hidx⟩
      · rw [hs, hidx]
        simp only [hset, Nat.zero_add]
      · rw [hs, hidx]
        simp only [Nat.zero_add]
      · rw [hs, hidx]

/-! ### The table of allocated bases -/

/-- The allocated bases are distinct and come first; the other entries are free. -/
structure Allocated (table bases : List ℕ) : Prop where
  table_eq : table = bases ++ List.replicate (hwPacketBases - bases.length) freePacketBase
  length_le : bases.length ≤ hwPacketBases
  nodup : bases.Nodup
  aligned : ∀ b ∈ bases, b % 2 ^ 32 = 0

namespace Allocated

variable {k : PacketConfig} {table bases : List ℕ}

theorem free_not_mem (h : Allocated table bases) : freePacketBase ∉ bases := fun hmem ↦ by
  have := h.aligned _ hmem
  exact absurd this (by decide)

theorem init {f : ℕ → ℕ} (hk : k.virtToPhys = some f) : Allocated (initPacketBases k) [] := by
  refine ⟨?_, Nat.zero_le _, List.nodup_nil, fun b hb ↦ absurd hb List.not_mem_nil⟩
  rw [initPacketBases, hk]
  rfl

theorem push (h : Allocated table bases) {b : ℕ} (hb : b ∉ bases) (hmod : b % 2 ^ 32 = 0)
    (hlen : bases.length < hwPacketBases) :
    Allocated (table.set bases.length b) (bases ++ [b]) := by
  obtain ⟨n, hn⟩ : ∃ n, hwPacketBases - bases.length = n + 1 :=
    ⟨hwPacketBases - bases.length - 1, by omega⟩
  constructor
  · have hn' : hwPacketBases - (bases.length + 1) = n := by omega
    rw [h.table_eq, hn, List.length_append, List.length_singleton, hn',
      List.set_append_right _ _ (Nat.le_refl _), Nat.sub_self, List.replicate_succ,
      List.set_cons_zero, List.append_assoc]
    rfl
  · rw [List.length_append]
    exact hlen
  · refine List.nodup_append.mpr ⟨h.nodup, List.pairwise_singleton _ _, ?_⟩
    intro x hx y hy hxy
    rw [List.mem_singleton.mp hy] at hxy
    exact hb (hxy ▸ hx)
  · intro x hx
    rcases List.mem_append.mp hx with hx | hx
    · exact h.aligned x hx
    · exact List.mem_singleton.mp hx ▸ hmod

/-- The dynamic encoding: it fails exactly when every entry is allocated to another
base, and otherwise the base has the index afterwards. -/
theorem encode (h : Allocated table bases) {f : ℕ → ℕ} (hk : k.virtToPhys = some f) (a : ℕ) :
    (∃ i table' bases', encodePhysAddr k table a = some (i, table') ∧ Allocated table' bases' ∧
        bases <+: bases' ∧ bases'[i]? = some (a / 2 ^ 32 * 2 ^ 32) ∧
          (∀ b, b ∈ bases' ↔ b ∈ bases ∨ b = a / 2 ^ 32 * 2 ^ 32) ∧
            ¬(bases.length = hwPacketBases ∧ a / 2 ^ 32 * 2 ^ 32 ∉ bases)) ∨
      encodePhysAddr k table a = none ∧ bases.length = hwPacketBases ∧
        a / 2 ^ 32 * 2 ^ 32 ∉ bases := by
  simp only [encodePhysAddr, hk]
  have hmod : a / 2 ^ 32 * 2 ^ 32 % 2 ^ 32 = 0 := Nat.mul_mod_left _ _
  generalize a / 2 ^ 32 * 2 ^ 32 = b at hmod ⊢
  by_cases hb : b ∈ bases
  · obtain ⟨i, hi, hs⟩ := searchBases_of_mem hb h.free_not_mem
      (List.replicate (hwPacketBases - bases.length) freePacketBase) 0
    rw [← h.table_eq, Nat.zero_add] at hs
    left
    refine ⟨i, table, bases, by rw [hs], h, List.prefix_refl _, hi, fun x ↦ ?_, fun hn ↦ hn.2 hb⟩
    exact ⟨Or.inl, fun hx ↦ hx.elim id fun he ↦ he ▸ hb⟩
  · have hs := searchBases_of_not_mem hb h.free_not_mem
      (List.replicate (hwPacketBases - bases.length) freePacketBase) 0
    rw [← h.table_eq, Nat.zero_add] at hs
    rcases Nat.lt_or_eq_of_le h.length_le with hlen | hlen
    · obtain ⟨n, hn⟩ : ∃ n, hwPacketBases - bases.length = n + 1 :=
        ⟨hwPacketBases - bases.length - 1, by omega⟩
      have hne : freePacketBase ≠ b := fun he ↦ by
        rw [← he] at hmod
        exact absurd hmod (by decide)
      rw [hn, List.replicate_succ, searchBases, if_neg hne, if_pos rfl] at hs
      left
      refine ⟨bases.length, _, bases ++ [b], by rw [hs], h.push hb hmod hlen,
        List.prefix_append _ _, ?_, fun x ↦ ?_, fun hn ↦ absurd hn.1 (Nat.ne_of_lt hlen)⟩
      · rw [List.getElem?_append_right (Nat.le_refl _), Nat.sub_self]
        rfl
      · rw [List.mem_append, List.mem_singleton]
    · rw [hlen, Nat.sub_self] at hs
      exact Or.inr ⟨by rw [hs]; rfl, hlen, hb⟩

theorem allocatedBases_eq (h : Allocated table bases) : allocatedBases table = bases := by
  have hall : bases.filter (· ≠ freePacketBase) = bases := by
    rw [List.filter_eq_self]
    exact fun b hb ↦ decide_eq_true fun he : b = freePacketBase ↦ h.free_not_mem (he ▸ hb)
  have hnone : (List.replicate (hwPacketBases - bases.length) freePacketBase).filter
      (· ≠ freePacketBase) = [] := by
    rw [List.filter_eq_nil_iff]
    intro b hb
    rw [List.eq_of_mem_replicate hb]
    decide
  rw [allocatedBases, h.table_eq, List.filter_append, hall, hnone, List.append_nil]

theorem not_mem_iff (h : Allocated table bases) (a : ℕ) :
    a / 2 ^ 32 * 2 ^ 32 ∉ bases ↔ ∀ b ∈ bases, a / 2 ^ 32 ≠ b / 2 ^ 32 := by
  constructor
  · intro hn b hb he
    have hmod := h.aligned b hb
    apply hn
    have hbase : a / 2 ^ 32 * 2 ^ 32 = b := by omega
    exact hbase ▸ hb
  · intro hall hmem
    apply hall _ hmem
    omega

/-- Along a sequence of calls the allocated bases only grow, they are those of the
successful calls, and what these calls encoded stays in the table. -/
theorem run (h : Allocated table bases) {f : ℕ → ℕ} (hk : k.virtToPhys = some f)
    (calls : List StoreCall) :
    ∃ bases', Allocated (tableAfter k table calls) bases' ∧ bases <+: bases' ∧
      (∀ b, b ∈ bases' ↔ b ∈ bases ∨
        ∃ e ∈ storeLog k table calls, e.2.status = .ok ∧ b = e.1 / 2 ^ 32 * 2 ^ 32) ∧
        ∀ e ∈ storeLog k table calls, e.2.status = .ok →
          bases'[e.2.packetBase]? = some (e.1 / 2 ^ 32 * 2 ^ 32) ∧
            e.2.packetAddr = e.1 % 2 ^ 32 := by
  induction calls generalizing table bases with
  | nil =>
      refine ⟨bases, h, List.prefix_refl _, fun b ↦ ⟨Or.inl, fun hb ↦ ?_⟩,
        fun e he ↦ absurd he List.not_mem_nil⟩
      rcases hb with hb | ⟨e, he, -⟩
      · exact hb
      · exact absurd he List.not_mem_nil
  | cons call calls ih =>
      rcases h.encode hk call.physAddr with
        ⟨i, table', bases', henc, hal, hpre, hi, hmem, -⟩ | ⟨henc, -, -⟩
      · have hres := StoreCall.result_of_some henc
        obtain ⟨final, hfinal, hpre', hmem', hlog⟩ := ih hal
        simp only [tableAfter, storeLog, hres, List.forall_mem_cons]
        refine ⟨final, hfinal, hpre.trans hpre', fun b ↦ ?_, fun _ ↦ ⟨?_, trivial⟩, hlog⟩
        · rw [hmem' b, hmem b]
          simp only [List.mem_cons, or_and_right, exists_or, exists_eq_left, true_and, or_assoc]
        · obtain ⟨rest, rfl⟩ := hpre'
          obtain ⟨hlt, -⟩ := List.getElem?_eq_some_iff.mp hi
          rw [List.getElem?_append_left hlt]
          exact hi
      · obtain ⟨hstatus, htable⟩ := StoreCall.result_of_none henc
        obtain ⟨final, hfinal, hpre', hmem', hlog⟩ := ih h
        simp only [tableAfter, storeLog, htable, hstatus, List.forall_mem_cons]
        refine ⟨final, hfinal, hpre', fun b ↦ ?_, fun he ↦ (by cases he), hlog⟩
        rw [hmem' b]
        simp only [List.mem_cons, or_and_right, exists_or, exists_eq_left, hstatus, reduceCtorEq,
          false_and, false_or]

end Allocated

/-! ### The table filled at initialisation -/

theorem getD_map_range (f : ℕ → ℕ) {n i : ℕ} (hi : i < n) :
    ((List.range n).map f).getD i 0 = f i := by
  rw [List.getD_eq_getElem?_getD, List.getElem?_map, List.getElem?_range hi, Option.map_some,
    Option.getD_some]

section Static

variable {k : PacketConfig} (hk : k.virtToPhys = none)

include hk

theorem encodePhysAddr_static (table : List ℕ) (a : ℕ) :
    encodePhysAddr k table a =
      if k.packetBasePhys / 2 ^ 36 = a / 2 ^ 36 then some (a / 2 ^ 32 % 16, table) else none := by
  rw [encodePhysAddr, hk]

theorem table_static (table : List ℕ) (call : StoreCall) : (call.result k table).table = table := by
  cases h : encodePhysAddr k table call.physAddr with
  | none => exact (StoreCall.result_of_none h).2
  | some r =>
      rw [StoreCall.result_of_some h]
      rw [encodePhysAddr_static hk] at h
      split at h
      · cases h
        rfl
      · cases h

theorem tableAfter_static (table : List ℕ) (calls : List StoreCall) :
    tableAfter k table calls = table := by
  induction calls with
  | nil => rfl
  | cons call calls ih => rw [tableAfter, table_static hk, ih]

theorem storeLog_static (table : List ℕ) (calls : List StoreCall) {e : ℕ × StoreResult}
    (he : e ∈ storeLog k table calls) :
    ∃ call ∈ calls, e = (call.physAddr, call.result k table) := by
  induction calls with
  | nil => exact absurd he List.not_mem_nil
  | cons call calls ih =>
      rw [storeLog, table_static hk, List.mem_cons] at he
      rcases he with rfl | he
      · exact ⟨call, List.mem_cons_self, rfl⟩
      · obtain ⟨call', hcall, heq⟩ := ih he
        exact ⟨call', List.mem_cons_of_mem _ hcall, heq⟩

theorem initPacketBases_getD {i : ℕ} (hi : i < hwPacketBases) :
    (initPacketBases k).getD i 0 = k.packetBasePhys / 2 ^ 36 * 2 ^ 36 + i * 2 ^ 32 := by
  rw [initPacketBases, hk]
  exact getD_map_range _ hi

end Static

/-- What a successful call encoded, read back from the table after all calls. -/
theorem storeLog_decode (k : PacketConfig) (calls : List StoreCall) :
    ∀ e ∈ storeLog k (initPacketBases k) calls, e.2.status = .ok →
      (tableAfter k (initPacketBases k) calls).getD e.2.packetBase 0 + e.2.packetAddr = e.1 := by
  intro e he hok
  cases hk : k.virtToPhys with
  | none =>
      obtain ⟨call, -, rfl⟩ := storeLog_static hk _ _ he
      obtain ⟨r, hr⟩ := StoreCall.result_status_iff.mp hok
      rw [StoreCall.result_of_some hr, tableAfter_static hk]
      rw [encodePhysAddr_static hk] at hr
      split at hr
      · rename_i hwin
        cases hr
        simp only []
        have hi : call.physAddr / 2 ^ 32 % 16 < hwPacketBases := Nat.mod_lt _ (by decide)
        rw [initPacketBases_getD hk hi]
        omega
      · cases hr
  | some f =>
      obtain ⟨bases, hal, -, -, hlog⟩ := (Allocated.init hk).run hk calls
      obtain ⟨hbase, haddr⟩ := hlog e he hok
      obtain ⟨hlt, -⟩ := List.getElem?_eq_some_iff.mp hbase
      rw [List.getD_eq_getElem?_getD, hal.table_eq, List.getElem?_append_left hlt, hbase, haddr,
        Option.getD_some]
      omega

/-- The address encoding of packets: what a successful call stored decodes to its
address after all later calls, a call fails exactly when the table is used up or the
address is outside the window, and both functions choose the same encoding. -/
theorem storePhysAddr_roundTrip (k : PacketConfig) (calls : List StoreCall) :
    (∀ e ∈ storeLog k (initPacketBases k) calls, e.2.status = .ok →
      (tableAfter k (initPacketBases k) calls).getD e.2.packetBase 0 + e.2.packetAddr = e.1) ∧
      (k.virtToPhys ≠ none →
        (allocatedBases (tableAfter k (initPacketBases k) calls)).Nodup ∧
          (∀ b, b ∈ allocatedBases (tableAfter k (initPacketBases k) calls) ↔
            ∃ e ∈ storeLog k (initPacketBases k) calls,
              e.2.status = .ok ∧ b = e.1 / 2 ^ 32 * 2 ^ 32) ∧
            ∀ call : StoreCall,
              (call.result k (tableAfter k (initPacketBases k) calls)).status ≠ .ok ↔
                (allocatedBases (tableAfter k (initPacketBases k) calls)).length =
                    hwPacketBases ∧
                  ∀ b ∈ allocatedBases (tableAfter k (initPacketBases k) calls),
                    call.physAddr / 2 ^ 32 ≠ b / 2 ^ 32) ∧
        (k.virtToPhys = none → ∀ call : StoreCall,
          (call.result k (tableAfter k (initPacketBases k) calls)).status ≠ .ok ↔
            call.physAddr / 2 ^ 36 ≠ k.packetBasePhys / 2 ^ 36) ∧
          ∀ (fd : HwFdDescriptor) (pd : HwPdDescriptor) (a : ℕ),
            let table := tableAfter k (initPacketBases k) calls
            let r := storePhysAddrIntoFd k table fd a
            let r' := storePhysAddrIntoPd k table pd a
            r.1 = r'.1 ∧ r.2.1 = r'.2.1 ∧ r.2.2.packetAddr = r'.2.2.packetAddr ∧
              (r.1 = .ok → r.2.2.packetBase = r'.2.2.packetBase) := by
  refine ⟨storeLog_decode k calls, fun hdyn ↦ ?_, fun hk call ↦ ?_, fun fd pd a ↦ ?_⟩
  · obtain ⟨f, hk⟩ := Option.ne_none_iff_exists'.mp hdyn
    obtain ⟨bases, hal, -, hmem, -⟩ := (Allocated.init hk).run hk calls
    rw [hal.allocatedBases_eq]
    refine ⟨hal.nodup, fun b ↦ ?_, fun call ↦ ?_⟩
    · rw [hmem b]
      exact ⟨fun h ↦ h.resolve_left List.not_mem_nil, Or.inr⟩
    · rw [Ne, StoreCall.result_status_iff, ← hal.not_mem_iff]
      rcases hal.encode hk call.physAddr with
        ⟨i, table', bases', henc, -, -, -, -, hn⟩ | ⟨henc, hlen, hb⟩
      · exact ⟨fun h ↦ absurd ⟨_, henc⟩ h, fun h ↦ absurd h hn⟩
      · refine ⟨fun _ ↦ ⟨hlen, hb⟩, fun _ ⟨r, hr⟩ ↦ ?_⟩
        rw [henc] at hr
        cases hr
  · rw [Ne, StoreCall.result_status_iff, encodePhysAddr_static hk]
    by_cases hwin : k.packetBasePhys / 2 ^ 36 = call.physAddr / 2 ^ 36
    · rw [if_pos hwin]
      exact ⟨fun h ↦ absurd ⟨_, rfl⟩ h, fun h ↦ absurd hwin.symm h⟩
    · rw [if_neg hwin]
      exact ⟨fun _ h ↦ hwin h.symm, fun _ ⟨r, hr⟩ ↦ (by cases hr)⟩
  · intro table r r'
    change (storePhysAddrIntoFd k table fd a).1 = (storePhysAddrIntoPd k table pd a).1 ∧ _
    simp only [r, r', storePhysAddrIntoFd_eq, storePhysAddrIntoPd_eq]
    cases encodePhysAddr k table a with
    | none => exact ⟨rfl, rfl, rfl, fun h ↦ (by cases h)⟩
    | some e => exact ⟨rfl, rfl, rfl, fun _ ↦ rfl⟩

/-- Two packets in one 4 GB region share a base, a third one gets its own. -/
example :
    (storeLog ⟨some id, 0, 0⟩ (initPacketBases ⟨some id, 0, 0⟩)
      [.intoFd .zero 0x100000010, .intoPd .zero 0x100000020, .intoPd .zero 0x200000000]).map
        (fun e ↦ (e.2.packetBase, e.2.packetAddr)) = [(0, 16), (0, 32), (1, 0)] := by decide

end NetL7.Packet
