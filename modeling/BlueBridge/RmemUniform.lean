import BlueBridge.RmemAlloc
import BlueBridge.RmemCapacity
/-!
# RmemUniform — blocks in a row (`read_uniform_rmem`, `write_uniform_rmem`)

A uniform block is one address for a number of blocks in a row.  From offset 0 on, the list the uniform functions expand
it into is those blocks, so a read or a write of whole blocks is one of consecutive bytes.
-/
namespace Bb
namespace Rmem

open Bytes Wire

section Row

variable {B n : Nat} {base : Ip6Memaddr}

theorem tmpAddrs_zero (B : Nat) (base : Ip6Memaddr) (n : UInt64) :
    tmpAddrs B ⟨base, n, 0⟩ = some (bulkAddrs B base n.toNat) := by
  have hzero : (0 : UInt64) ≤ n := by
    rw [UInt64.le_iff_toNat_le]
    exact Nat.zero_le _
  rw [tmpAddrs, if_pos hzero, bulkAddrs, List.range_eq_range']
  rfl

theorem bulkAddrs_succ (B : Nat) (base : Ip6Memaddr) (n : Nat) :
    bulkAddrs B base (n + 1) = bulkAddrs B base n ++ [blockAddr B base n] := by
  rw [bulkAddrs, List.range_succ, List.map_append]
  rfl

theorem subid_of_mem_bulkAddrs {a : Ip6Memaddr} (ha : a ∈ bulkAddrs B base n) : a.subid = base.subid := by
  obtain ⟨i, -, rfl⟩ := List.mem_map.1 ha
  rfl

theorem paddr_blockAddr {i : Nat} (h : base.paddr.toNat + i * B < 2 ^ 64) :
    (blockAddr B base i).paddr.toNat = base.paddr.toNat + i * B :=
  congrArg Prod.fst (range_blockAddr h)

/-- **Blocks in a row hold consecutive bytes.** -/
theorem remote_bulkAddrs (st : UInt16 → Server) : ∀ {n : Nat}, (∀ i < n, base.paddr.toNat + i * B < 2 ^ 64) →
    remote B st (bulkAddrs B base n) = readBytes (st base.subid).mem base.paddr.toNat (n * B)
  | 0,     _ => by simp [bulkAddrs, remote, remoteBytes, readBytes]
  | n + 1, h => by
    have hinit := remote_bulkAddrs st (fun i hi => h i (Nat.lt_succ_of_lt hi))
    have hlast : remote B st [blockAddr B base n] = readBytes (st base.subid).mem (base.paddr.toNat + n * B) B := by
      rw [← paddr_blockAddr (h n (Nat.lt_succ_self n))]
      simp [remote, remoteBytes, blockAddr]
    rw [bulkAddrs_succ, remote_append, hinit, hlast, Nat.succ_mul, readBytes_add]

theorem apart_bulkAddrs (h : ∀ i < n, base.paddr.toNat + i * B < 2 ^ 64) : (bulkAddrs B base n).Pairwise (Apart B) := by
  apply List.pairwise_map.2
  refine List.pairwise_lt_range.imp_of_mem (fun {i j} hi hj hij => ?_)
  have hmul : i * B + B ≤ j * B := by
    rw [← Nat.succ_mul]
    exact Nat.mul_le_mul_right B hij
  refine .inr (.inl ?_)
  rw [paddr_blockAddr (h i (List.mem_range.1 hi)), paddr_blockAddr (h j (List.mem_range.1 hj))]
  omega

/-- What a write of at most one block, or of whole blocks, stores is inside the bytes it is for. -/
theorem covers_bulkStores (h : ∀ i < n, base.paddr.toNat + i * B < 2 ^ 64) {mem : Nat → UInt8}
    {payload size : Nat} (hwhole : size ≤ B ∨ B ∣ size) {w : UInt16 × Nat × List UInt8} {q : Nat}
    (hw : w ∈ bulkStores B (bulkAddrs B base n) mem payload size) (hq : Covers w.2 q) :
    w.1 = base.subid ∧ base.paddr.toNat ≤ q ∧ q < base.paddr.toNat + size := by
  unfold bulkStores at hw
  unfold Covers at hq
  split at hw
  · obtain ⟨a, ha, rfl⟩ := List.mem_map.1 hw
    cases n with
    | zero   => cases ha
    | succ n =>
      rw [bulkAddrs, List.range_succ_eq_map, List.map_cons] at ha
      cases List.mem_singleton.1 ha
      simp only [paddr_blockAddr (h 0 (Nat.succ_pos n)), length_readBytes] at hq
      exact ⟨rfl, by omega, by omega⟩
  · next hle =>
    have hdvd := hwhole.resolve_left hle
    rw [if_neg (fun h => h (Nat.mod_eq_zero_of_dvd hdvd)), List.append_nil] at hw
    obtain ⟨i, a, ha, rfl⟩ := mem_batchChunks.1 hw
    rw [List.getElem?_take] at ha
    split at ha
    · next hi =>
      rw [bulkAddrs, List.getElem?_map, Option.map_eq_some_iff] at ha
      obtain ⟨j, hj, rfl⟩ := ha
      obtain ⟨hin, hij⟩ := List.getElem?_eq_some_iff.1 hj
      rw [List.getElem_range] at hij
      rw [List.length_range] at hin
      subst hij
      have hmul : (i + 1) * B ≤ size := by
        rw [← Nat.div_mul_cancel hdvd]
        exact Nat.mul_le_mul_right B hi
      simp only [paddr_blockAddr (h i hin), length_readBytes] at hq
      rw [Nat.succ_mul] at hmul
      exact ⟨rfl, by omega, by omega⟩
    · cases ha

end Row

section Uniform

variable {B : Nat} {C : Cluster} {alloc : Server → Nat → UInt64} {me targetIp : SockaddrIn6} {st : UInt16 → Server}
  {base : Ip6Memaddr} {n size : UInt64}

/-- What the uniform functions ask of a block in a row and a size of at most one block, or of whole blocks. -/
structure Row (B : Nat) (base : Ip6Memaddr) (n size : UInt64) : Prop where
  pos : 0 < n.toNat
  small : size.toNat < 2 ^ 32
  packet : min size.toNat B < 2 ^ 16
  room : size.toNat ≤ n.toNat * B
  fits : ∀ i < n.toNat, base.paddr.toNat + i * B < 2 ^ 64
  whole : size.toNat ≤ B ∨ B ∣ size.toNat ∧ base.subid.toNat < ushrtMax

theorem length_bulkAddrs (B : Nat) (base : Ip6Memaddr) (n : Nat) : (bulkAddrs B base n).length = n := by
  rw [bulkAddrs, List.length_map, List.length_range]

theorem Row.ne_nil (h : Row B base n size) : bulkAddrs B base n.toNat ≠ [] := by
  apply List.ne_nil_of_length_pos
  rw [length_bulkAddrs]
  exact h.pos

theorem Row.covered (h : Row B base n size) : size.toNat ≤ (bulkAddrs B base n.toNat).length * B := by
  rw [length_bulkAddrs]
  exact h.room

theorem Row.subids (h : Row B base n size) : size.toNat ≤ B ∨ B ∣ size.toNat ∧
    ∀ a ∈ (bulkAddrs B base n.toNat).take (size.toNat / B), a.subid.toNat < ushrtMax := by
  refine h.whole.imp_right (And.imp_right (fun hs a ha => ?_))
  rw [subid_of_mem_bulkAddrs (List.mem_of_mem_take ha)]
  exact hs

/-- **A uniform read gets the bytes from its address on.** -/
theorem readUniformRmem_runs (hB₀ : 0 < B) (h : Row B base n size) (hport : targetIp.port = C.port) (mem : Nat → UInt8)
    {rxBuf : Nat} (hbuf : rxBuf + size.toNat < 2 ^ 64) :
    Runs (rmemNet B C alloc True) (readUniformRmem B me targetIp ⟨base, n, 0⟩ mem rxBuf size) st (fun r st' =>
      r.1.1.port = C.port ∧
      readBytes r.1.2 rxBuf size.toNat = readBytes (st base.subid).mem base.paddr.toNat size.toNat ∧ st' = st) := by
  unfold readUniformRmem
  rw [tmpAddrs_zero]
  apply Runs.bind (readBulkRmem_runs (c := ⟨targetIp, bulkAddrs B base n.toNat, mem⟩) hB₀ h.packet rxBuf hport h.ne_nil
    h.small h.covered hbuf h.subids)
  rintro ⟨c, e⟩ st' ⟨-, hport', -, hbytes, -, rfl⟩
  refine Runs.ret ⟨hport', ?_, rfl⟩
  rw [hbytes, remote_bulkAddrs st' h.fits, take_readBytes _ _ h.room]

/-- **A uniform write puts its bytes there**, and no other byte changes. -/
theorem writeUniformRmem_runs (hB₀ : 0 < B) (h : Row B base n size) (hport : targetIp.port = C.port) (mem : Nat → UInt8)
    (payload : Nat) :
    Runs (rmemNet B C alloc True) (writeUniformRmem B me targetIp ⟨base, n, 0⟩ mem payload size) st (fun r st' =>
      r.1.port = C.port ∧
      readBytes (st' base.subid).mem base.paddr.toNat size.toNat = readBytes mem payload size.toNat ∧
      ∀ s q, (s = base.subid → q < base.paddr.toNat ∨ base.paddr.toNat + size.toNat ≤ q) →
        (st' s).mem q = (st s).mem q) := by
  unfold writeUniformRmem
  rw [tmpAddrs_zero]
  have hsub : B < size.toNat → ∀ a ∈ (bulkAddrs B base n.toNat).take (size.toNat / B), a.subid.toNat < ushrtMax :=
    fun hlt => (h.subids.resolve_left (Nat.not_le.2 hlt)).2
  apply Runs.bind (writeBulkRmem_runs (c := ⟨targetIp, bulkAddrs B base n.toNat, mem⟩) hB₀ h.packet payload hport h.ne_nil
    h.small h.covered hsub)
  rintro ⟨c, e⟩ st' ⟨-, hport', -, -, rfl⟩
  refine Runs.ret ⟨hport', ?_, ?_⟩
  · have hstored := remote_bulkStores st hB₀ (apart_bulkAddrs h.fits) h.ne_nil mem payload h.covered
      (h.whole.imp_right And.left)
    have htake := congrArg (List.take size.toNat) hstored
    rwa [remote_bulkAddrs _ h.fits, take_readBytes _ _ h.room, List.take_left' (length_readBytes ..)] at htake
  · intro s q hq
    apply storeAll_of_not_covered
    intro w hw hs hcovers
    obtain ⟨hsub, hlo, hhi⟩ := covers_bulkStores h.fits (h.whole.imp_right And.left) hw hcovers
    have := hq (hs.symm.trans hsub)
    omega

/-- Blocks in a row are on one server. -/
theorem subid_of_take {m : Nat} (hn : 0 < n.toNat) (hm : 0 < m)
    (h : ∀ a ∈ (bulkAddrs B base n.toNat).take m, a.subid.toNat < ushrtMax) : base.subid.toNat < ushrtMax := by
  obtain ⟨k, hk⟩ := Nat.exists_eq_succ_of_ne_zero (Nat.ne_of_gt hn)
  obtain ⟨j, rfl⟩ := Nat.exists_eq_succ_of_ne_zero (Nat.ne_of_gt hm)
  apply h (blockAddr B base 0)
  rw [hk, bulkAddrs, List.range_succ_eq_map, List.map_cons, List.take_succ_cons]
  exact List.mem_cons_self

section Subids

variable {α : Type} {mem : Nat → UInt8} {buf : Nat} {Q : α → Conf Packet (UInt16 → Server) α → Prop} {d rc : List Packet}
  (hB₀ : 0 < B) (hport : targetIp.port = C.port) (hlt : B < size.toNat) (hroom : size.toNat / B ≤ n.toNat)

include hB₀ hport hlt hroom

/-- A uniform read of more than one block returns only if `sub_ids` can count the server. -/
theorem readUniformRmem_subid {f : (SockaddrIn6 × (Nat → UInt8)) × Exit → Prog Packet α} (hsize : size.toNat < 2 ^ 32)
    (h : Ends (rmemNet B C alloc True) Q
      ⟨(readUniformRmem B me targetIp ⟨base, n, 0⟩ mem buf size).bind f, [], st, d, [], rc⟩) :
    base.subid.toNat < ushrtMax := by
  have hpos : 0 < size.toNat / B := Nat.div_pos (Nat.le_of_lt hlt) hB₀
  have hlen : size.toNat / B ≤ (bulkAddrs B base n.toNat).length := by rwa [length_bulkAddrs]
  unfold readUniformRmem at h
  rw [tmpAddrs_zero] at h
  simp only [Prog.bind_eq, Prog.bind_assoc] at h
  rw [readBulkRmem_eq, if_neg (Nat.not_le.2 hlt), if_neg (Nat.not_lt.2 hlen), Prog.bind_assoc] at h
  have hcount := counted_of_ends (batchOp_read buf) _ _ st d rc hport (within_readCalls B hlen) h
  exact subid_of_take (Nat.lt_of_lt_of_le hpos hroom) hpos
    (subids_of_readCalls (Nat.lt_of_le_of_lt (Nat.div_le_self ..) hsize) hcount)

/-- So does a uniform write. -/
theorem writeUniformRmem_subid {f : SockaddrIn6 × Exit → Prog Packet α}
    (h : Ends (rmemNet B C alloc True) Q
      ⟨(writeUniformRmem B me targetIp ⟨base, n, 0⟩ mem buf size).bind f, [], st, d, [], rc⟩) :
    base.subid.toNat < ushrtMax := by
  have hpos : 0 < size.toNat / B := Nat.div_pos (Nat.le_of_lt hlt) hB₀
  have hlen : size.toNat / B ≤ (bulkAddrs B base n.toNat).length := by rwa [length_bulkAddrs]
  unfold writeUniformRmem at h
  rw [tmpAddrs_zero] at h
  simp only [Prog.bind_eq, Prog.bind_assoc] at h
  rw [writeBulkRmem_eq, if_neg (Nat.not_le.2 hlt), if_neg (Nat.not_lt.2 hlen), Prog.bind_assoc] at h
  have hcount := counted_of_ends (batchOp_write buf) _ _ st d rc hport (within_writeCalls B hlen) h
  exact subid_of_take (Nat.lt_of_lt_of_le hpos hroom) hpos
    (subids_of_writeCalls (Nat.lt_of_le_of_lt (Nat.div_le_self ..) size.toNat_lt) hcount)

end Subids

/-- **A uniform read that starts behind the first block** of as many as it is for: the pointer is outside the array, or
the read is refused and nothing is read. -/
theorem readUniformRmem_offset {block : Ip6MemaddrBlock} (hB₀ : 0 < B) (hoff : block.offset ≠ 0)
    (hlen : block.length.toNat ≤ 1 ∨ block.length.toNat ≤ size.toNat / B) (hsize : size.toNat ≤ B → block.length.toNat ≤ 1)
    (targetIp : SockaddrIn6) (mem : Nat → UInt8) (rxBuf : Nat) :
    readUniformRmem B me targetIp block mem rxBuf size = .fail ∨
    B < size.toNat ∧ readUniformRmem B me targetIp block mem rxBuf size = .ret ((targetIp, mem), .success) := by
  have hpos : 0 < block.offset.toNat := Nat.pos_of_ne_zero (fun h => hoff (UInt64.toNat_inj.1 h))
  unfold readUniformRmem
  cases haddrs : tmpAddrs B block with
  | none       => exact .inl rfl
  | some addrs =>
    have hcount := length_tmpAddrs haddrs
    rcases Nat.lt_or_ge B size.toNat with hlt | hle
    · refine .inr ⟨hlt, ?_⟩
      have hdiv : 0 < size.toNat / B := Nat.div_pos (Nat.le_of_lt hlt) hB₀
      simp only [readBulkRmem, if_neg (Nat.not_le.2 hlt)]
      rw [if_pos (by omega)]
      rfl
    · have hnil : addrs = [] := List.eq_nil_of_length_eq_zero (by have := hsize hle; omega)
      refine .inl ?_
      simp only [readBulkRmem, if_pos hle, Caller.readFirst, hnil]
      rfl

end Uniform

end Rmem
end Bb
