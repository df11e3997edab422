import BlueBridge.RmemRead
/-!
# RmemBulk — bulk writes and reads (`write_bulk_rmem`, `read_bulk_rmem`)

A bulk request of more than one block goes out in full batches, a last partial batch, and a single request for the bytes
below `BLOCK_SIZE`.  The batches cover the first `size / BLOCK_SIZE` blocks of the list in order.  The single request
goes to the first block of the list instead of the next one, so a size above `BLOCK_SIZE` that is not a multiple of it
does not come back.
-/
namespace Bb
namespace Rmem

open Bytes Wire
open Function (update update_self update_of_ne)

/-! ## Stores -/

theorem storeAll_append (st : UInt16 → Server) (ws ws' : List (UInt16 × Nat × List UInt8)) :
    storeAll st (ws ++ ws') = storeAll (storeAll st ws) ws' := by
  funext s
  simp only [storeAll, Server.writes, List.filter_append, List.map_append, writeAll, List.foldl_append]

theorem storeAll_single (st : UInt16 → Server) (s : UInt16) (p : UInt64) (d : List UInt8) :
    storeAll st [(s, p.toNat, d)] = update st s ((st s).write p d) := by
  funext s'
  by_cases h : s = s'
  · subst h
    rw [update_self, storeAll, List.filter_cons_of_pos (by simp)]
    rfl
  · rw [update_of_ne (Ne.symm h), storeAll, List.filter_cons_of_neg (by simpa using h)]
    rfl

theorem storeAll_of_not_covered {st : UInt16 → Server} {ws : List (UInt16 × Nat × List UInt8)} {s : UInt16} {q : Nat}
    (h : ∀ w ∈ ws, w.1 = s → ¬ Covers w.2 q) : (storeAll st ws s).mem q = (st s).mem q := by
  refine writeAll_of_not_covered (fun w hw => ?_)
  obtain ⟨x, hx, rfl⟩ := List.mem_map.1 hw
  exact h x (List.mem_filter.1 hx).1 (by simpa using (List.mem_filter.1 hx).2)

theorem storeAll_of_mem {st : UInt16 → Server} {ws : List (UInt16 × Nat × List UInt8)}
    {w : UInt16 × Nat × List UInt8} {q : Nat} (hw : w ∈ ws) (hq : Covers w.2 q)
    (h : ∀ w' ∈ ws, w'.1 = w.1 → Covers w'.2 q → w' = w) :
    (storeAll st ws w.1).mem q = w.2.2.getD (q - w.2.1) 0 := by
  refine writeAll_eq (fun v hv hcov => ?_) ⟨w.2, List.mem_map.2 ⟨w, List.mem_filter.2 ⟨hw, by simp⟩, rfl⟩, hq⟩
  obtain ⟨x, hx, rfl⟩ := List.mem_map.1 hv
  rw [h x (List.mem_filter.1 hx).1 (by simpa using (List.mem_filter.1 hx).2) hcov]

/-! ## Blocks -/

/-- Blocks of `B` bytes that share no byte. -/
def Apart (B : Nat) (a b : Ip6Memaddr) : Prop :=
  a.subid ≠ b.subid ∨ a.paddr.toNat + B ≤ b.paddr.toNat ∨ b.paddr.toNat + B ≤ a.paddr.toNat

theorem Apart.symm {B : Nat} {a b : Ip6Memaddr} (h : Apart B a b) : Apart B b a :=
  h.imp Ne.symm Or.symm

theorem apart_of_getElem? {B : Nat} {addrs : List Ip6Memaddr} (hap : addrs.Pairwise (Apart B)) {i j : Nat}
    {a b : Ip6Memaddr} (hi : addrs[i]? = some a) (hj : addrs[j]? = some b) (hij : i ≠ j) : Apart B a b := by
  obtain ⟨hil, rfl⟩ := List.getElem?_eq_some_iff.1 hi
  obtain ⟨hjl, rfl⟩ := List.getElem?_eq_some_iff.1 hj
  rcases Nat.lt_or_gt_of_ne hij with h | h
  · exact List.pairwise_iff_getElem.1 hap i j hil hjl h
  · exact (List.pairwise_iff_getElem.1 hap j i hjl hil h).symm

theorem mem_batchChunks {mem : Nat → UInt8} {payload len : Nat} {addrs : List Ip6Memaddr}
    {w : UInt16 × Nat × List UInt8} : w ∈ batchChunks mem payload len addrs ↔
      ∃ i a, addrs[i]? = some a ∧ w = (a.subid, a.paddr.toNat, readBytes mem (payload + len * i) len) := by
  simp only [batchChunks, List.mem_map, Prod.exists, List.mem_zipIdx_iff_getElem?]
  constructor
  · rintro ⟨a, i, ha, rfl⟩; exact ⟨i, a, ha, rfl⟩
  · rintro ⟨i, a, ha, rfl⟩; exact ⟨a, i, ha, rfl⟩

theorem batchChunks_append (mem : Nat → UInt8) (payload len : Nat) (as bs : List Ip6Memaddr) :
    batchChunks mem payload len (as ++ bs) =
      batchChunks mem payload len as ++ batchChunks mem (payload + len * as.length) len bs := by
  rw [batchChunks, List.zipIdx_append, List.map_append, Nat.zero_add, @List.zipIdx_eq_map_add _ bs as.length,
    List.map_map]
  refine congrArg _ (List.map_congr_left (fun x _ => ?_))
  simp only [Function.comp, Nat.mul_add, Nat.add_assoc]

/-- The `i`th chunk is in the `i`th block. -/
theorem read_storeAll {B payload : Nat} {addrs : List Ip6Memaddr} (hap : addrs.Pairwise (Apart B))
    (st : UInt16 → Server) (mem : Nat → UInt8) {i : Nat} {a : Ip6Memaddr} (ha : addrs[i]? = some a) :
    readBytes (storeAll st (batchChunks mem payload B addrs) a.subid).mem a.paddr.toNat B =
      readBytes mem (payload + B * i) B := by
  refine List.map_congr_left (fun k hk => ?_)
  have hkB := List.mem_range.1 hk
  have hmem : (a.subid, a.paddr.toNat, readBytes mem (payload + B * i) B) ∈ batchChunks mem payload B addrs :=
    mem_batchChunks.2 ⟨i, a, ha, rfl⟩
  have hcov : Covers (a.paddr.toNat, readBytes mem (payload + B * i) B) (a.paddr.toNat + k) :=
    ⟨Nat.le_add_right _ _, by rw [length_readBytes]; omega⟩
  refine (storeAll_of_mem hmem hcov (fun w hw hs hcov => ?_)).trans
    (by rw [Nat.add_sub_cancel_left, getD_readBytes _ _ hkB])
  obtain ⟨j, b, hb, rfl⟩ := mem_batchChunks.1 hw
  by_cases hij : i = j
  · subst hij
    rw [ha] at hb
    cases hb
    rfl
  · -- another block covers the byte
    have hapart := apart_of_getElem? hap ha hb hij
    simp only [Covers, length_readBytes] at hcov
    rcases hapart with h | h | h
    · exact absurd hs.symm h
    · omega
    · omega

/-- **Chunks stored in blocks apart are in them**, in list order. -/
theorem remoteBytes_storeAll {B payload : Nat} {addrs : List Ip6Memaddr} (hap : addrs.Pairwise (Apart B))
    (st : UInt16 → Server) (mem : Nat → UInt8) :
    (remoteBytes (storeAll st (batchChunks mem payload B addrs)) B addrs).flatten =
      readBytes mem payload (addrs.length * B) := by
  have hlen : addrs.length = (remoteBytes (storeAll st (batchChunks mem payload B addrs)) B addrs).length := by
    rw [remoteBytes, List.length_map]
  rw [hlen]
  refine (readBytes_flatten (fun i v hv => ?_)).symm
  rw [remoteBytes, List.getElem?_map, Option.map_eq_some_iff] at hv
  obtain ⟨a, ha, rfl⟩ := hv
  rw [read_storeAll hap st mem ha, Nat.mul_comm]

/-- A block apart from those stored to is as it was. -/
theorem read_storeAll_apart {B : Nat} {st : UInt16 → Server} {ws : List (UInt16 × Nat × List UInt8)} {b : Ip6Memaddr}
    (h : ∀ w ∈ ws, ∃ a : Ip6Memaddr, Apart B a b ∧ w.1 = a.subid ∧ w.2.1 = a.paddr.toNat ∧ w.2.2.length ≤ B) :
    readBytes (storeAll st ws b.subid).mem b.paddr.toNat B = readBytes (st b.subid).mem b.paddr.toNat B := by
  refine readBytes_congr (fun k hk => storeAll_of_not_covered (fun w hw hs hcov => ?_))
  obtain ⟨a, hapart, h1, h2, h3⟩ := h w hw
  unfold Covers at hcov
  rcases hapart with h | h | h
  · exact h (h1.symm.trans hs)
  · omega
  · omega

/-! ## Single requests -/

section Single

variable {C : Cluster} {targetIp : SockaddrIn6} (B : Nat) (alloc : Server → Nat → UInt64) (fifo : Prop)
  (me : SockaddrIn6)
  (st : UInt16 → Server)

theorem handlePacket_write {p : Packet} (hport : p.dst.port = C.port) (hcmd : p.dst.addr.cmd = writeCmd)
    (hfits : p.data.length < 2 ^ 16) :
    handlePacket B C alloc st p =
      (update st p.dst.addr.subid ((st p.dst.addr.subid).write p.dst.addr.paddr p.data), [ackOf C p]) := by
  rw [handlePacket, if_pos hport]
  simp only [processRequest, if_pos hcmd, writeMem, take_fits hfits]
  rfl

/-- The answer to a read of `len` bytes. -/
def readReply (C : Cluster) (len : UInt16) (st : UInt16 → Server) (p : Packet) : Packet :=
  preparePacket ⟨C.addr p.dst.addr.subid, C.port⟩ ⟨returnID p.src p.dst.addr.cmd p.dst.addr.paddr, p.src.port,
    readBytes (st p.dst.addr.subid).mem p.dst.addr.paddr.toNat len.toNat⟩

theorem handlePacket_read {p : Packet} {len : UInt16} (hport : p.dst.port = C.port) (hcmd : p.dst.addr.cmd = readCmd)
    (hlen : p.dst.addr.args.toUInt16 = len) : handlePacket B C alloc st p = (st, [readReply C len st p]) := by
  have hw : ¬ readCmd = writeCmd := by decide
  have hwb : ¬ readCmd = writeBulkCmd := by decide
  rw [handlePacket, if_pos hport]
  simp only [processRequest, hcmd, if_neg hw, if_neg hwb, if_true, readMem, hlen, Function.update_eq_self]
  rw [readReply, hcmd]
  rfl

theorem writeRmem_runs (hport : targetIp.port = C.port) (a : Ip6Memaddr) (mem : Nat → UInt8) (payload : Nat)
    (len : UInt16) :
    Runs (rmemNet B C alloc fifo) (writeRmem me targetIp a mem payload len) st
      (fun r st' => r.1.port = C.port ∧ r.2 = { a with cmd := writeCmd } ∧
        st' = storeAll st [(a.subid, a.paddr.toNat, readBytes mem payload len.toNat)]) := by
  have hfits : (readBytes mem payload len.toNat).length < 2 ^ 16 := by
    rw [length_readBytes]; exact len.toNat_lt
  have hserve : (rmemNet B C alloc fifo).serve st
      (preparePacket me ⟨{ a with cmd := writeCmd }, targetIp.port, readBytes mem payload len.toNat⟩) = _ :=
    handlePacket_write B alloc st hport rfl hfits
  refine (runs_request (fun p : Packet => (p.src, { a with cmd := writeCmd })) hserve).mono ?_
  rintro r st' ⟨rfl, rfl⟩
  exact ⟨rfl, rfl, (storeAll_single st a.subid a.paddr _).symm⟩

theorem readRmem_runs (hport : targetIp.port = C.port) (a : Ip6Memaddr) (mem : Nat → UInt8) (rxBuf : Nat)
    (len : UInt16) :
    Runs (rmemNet B C alloc fifo) (readRmem me targetIp a mem rxBuf len) st
      (fun r st' => r.1.port = C.port ∧ r.2.1 = { a with cmd := readCmd, args := len.toUInt32 } ∧
        r.2.2.1 = writeBytes mem rxBuf (readBytes (st a.subid).mem a.paddr.toNat len.toNat) ∧ st' = st) := by
  have hserve : (rmemNet B C alloc fifo).serve st
      (preparePacket me ⟨{ a with cmd := readCmd, args := len.toUInt32 }, targetIp.port, []⟩) = _ :=
    handlePacket_read B alloc st hport rfl (UInt16.toUInt16_toUInt32 len)
  refine (runs_request (fun p : Packet => (p.src, { a with cmd := readCmd, args := len.toUInt32 },
    writeBytes mem rxBuf p.data, p.data.length)) hserve).mono ?_
  rintro r st' ⟨rfl, rfl⟩
  exact ⟨rfl, rfl, rfl, rfl⟩

end Single

/-! ## Bulk writes -/

/-- The caller as it was, `target_ip` pointing at a server. -/
structure Caller.Kept (C : Cluster) (c c' : Caller) : Prop where
  port : c'.targetIp.port = C.port
  addrs : c'.addrs = c.addrs
  mem : c'.mem = c.mem

/-- The addresses from `&addrs[i]` on that a batch of `n` uses. -/
def part (addrs : List Ip6Memaddr) (i n : Nat) : List Ip6Memaddr := (addrs.drop i).take n

theorem part_add (addrs : List Ip6Memaddr) (i n k : Nat) :
    part addrs i (n + k) = part addrs i n ++ part addrs (i + n) k := by
  rw [part, List.take_add, List.drop_drop]
  rfl

theorem length_part {addrs : List Ip6Memaddr} {i n : Nat} (h : i + n ≤ addrs.length) : (part addrs i n).length = n := by
  rw [part, List.length_take, List.length_drop]
  omega

theorem part_succ (addrs : List Ip6Memaddr) (k m : Nat) : part addrs (k * batchSize) ((m + 1) * batchSize) =
    part addrs (k * batchSize) batchSize ++ part addrs ((k + 1) * batchSize) (m * batchSize) := by
  rw [Nat.succ_mul, Nat.add_comm, part_add, Nat.succ_mul]

/-- The full batches and the partial one make up the first `n` addresses. -/
theorem take_eq_parts (addrs : List Ip6Memaddr) (n : Nat) : addrs.take n =
    part addrs (0 * batchSize) (n / batchSize * batchSize) ++ part addrs (n - n % batchSize) (n % batchSize) := by
  have h := part_add addrs 0 (n - n % batchSize) (n % batchSize)
  rw [Nat.sub_add_cancel (Nat.mod_le ..), Nat.zero_add, part, List.drop_zero] at h
  rw [h, Nat.zero_mul, Nat.div_mul_self_eq_mod_sub_self]

section Bulk

variable {B : Nat} {C : Cluster} {alloc : Server → Nat → UInt64} {me : SockaddrIn6} {st : UInt16 → Server} {c : Caller}

theorem Caller.writeFirst_runs {a : Ip6Memaddr} {r : List Ip6Memaddr} (hport : c.targetIp.port = C.port)
    (ha : c.addrs = a :: r) (payload : Nat) (len : UInt16) :
    Runs (rmemNet B C alloc True) (c.writeFirst me payload len) st
      (fun c' st' => c'.targetIp.port = C.port ∧ c'.addrs = { a with cmd := writeCmd } :: r ∧ c'.mem = c.mem ∧
        st' = storeAll st [(a.subid, a.paddr.toNat, readBytes c.mem payload len.toNat)]) := by
  rw [Caller.writeFirst, ha]
  refine Runs.bind (writeRmem_runs B alloc True me st hport a c.mem payload len) ?_
  rintro ⟨ip, a'⟩ st' ⟨hip, rfl, rfl⟩
  exact Runs.ret ⟨hip, rfl, rfl, rfl⟩

theorem Caller.batchWrite_runs (hport : c.targetIp.port = C.port) (hB : B < 2 ^ 16) {i n : Nat} (payload : Nat)
    (hin : i + n ≤ c.addrs.length) (hn : n ≤ batchSize) (hsub : ∀ a ∈ part c.addrs i n, a.subid.toNat < ushrtMax) :
    Runs (rmemNet B C alloc True) (c.batchWrite B me i n payload) st
      (fun c' st' => c.Kept C c' ∧ st' = storeAll st (batchChunks c.mem payload B (part c.addrs i n))) := by
  have hlen : (part c.addrs i n).length ≤ batchSize := by rwa [length_part hin]
  rw [Caller.batchWrite, slice, if_pos hin]
  refine Runs.bind (Rmem.batchWrite_runs B alloc me c.mem payload (UInt16.ofNat B) st hport hsub (countFor_lt hlen)) ?_
  rintro ip st' ⟨hip, rfl⟩
  rw [UInt16.toNat_ofNat_of_lt' hB]
  exact Runs.ret ⟨⟨hip, rfl, rfl⟩, rfl⟩

theorem batch_le (k m : Nat) : k * batchSize + batchSize ≤ (k + (m + 1)) * batchSize := by
  rw [← Nat.succ_mul]
  exact Nat.mul_le_mul_right _ (by omega)

/-- The first address of a batch and its place in the buffer are computed without a wrap. -/
theorem batch_no_wrap {k m w : Nat} (hB₀ : 0 < B) (hw : B * ((k + (m + 1)) * batchSize) < w) :
    k * batchSize % w = k * batchSize ∧ B * k * batchSize % w = B * (k * batchSize) := by
  have hk : k * batchSize ≤ (k + (m + 1)) * batchSize := Nat.le_trans (Nat.le_add_right ..) (batch_le k m)
  have hoff : B * (k * batchSize) < w := Nat.lt_of_le_of_lt (Nat.mul_le_mul_left B hk) hw
  refine ⟨Nat.mod_eq_of_lt (Nat.lt_of_le_of_lt (Nat.le_mul_of_pos_left _ hB₀) hoff), ?_⟩
  rw [Nat.mul_assoc, Nat.mod_eq_of_lt hoff]

/-- The full batches from the `k`th on. -/
theorem writeBatches_runs (hB₀ : 0 < B) (hB : B < 2 ^ 16) (payload : Nat) : ∀ (m k : Nat) (c : Caller)
    (st : UInt16 → Server), c.targetIp.port = C.port → (k + m) * batchSize ≤ c.addrs.length →
    B * ((k + m) * batchSize) < 2 ^ 64 →
    (∀ a ∈ part c.addrs (k * batchSize) (m * batchSize), a.subid.toNat < ushrtMax) →
    Runs (rmemNet B C alloc True) (writeBatches B me payload (List.range' k m) c) st
      (fun c' st' => c.Kept C c' ∧ st' = storeAll st (batchChunks c.mem (payload + B * (k * batchSize)) B
        (part c.addrs (k * batchSize) (m * batchSize))))
  | 0, k, c, st, hport, _, _, _ => by
    rw [Nat.zero_mul, part, List.take_zero]
    exact Runs.ret ⟨⟨hport, rfl, rfl⟩, rfl⟩
  | m + 1, k, c, st, hport, hlen, h64, hsub => by
    have hk := batch_le k m
    obtain ⟨hidx, hoff⟩ := batch_no_wrap hB₀ h64
    have hnext : (k + 1) * batchSize = k * batchSize + batchSize := Nat.succ_mul ..
    rw [part_succ] at hsub
    have hsum : k + 1 + m = k + (m + 1) := by omega
    rw [List.range'_succ, writeBatches, hidx, hoff]
    refine Runs.bind (Caller.batchWrite_runs hport hB _ (by omega) (Nat.le_refl _)
      (fun a ha => hsub a (List.mem_append_left _ ha))) ?_
    rintro c₁ st₁ ⟨⟨hport₁, haddrs₁, hmem₁⟩, rfl⟩
    refine (writeBatches_runs hB₀ hB payload m (k + 1) c₁ _ hport₁ (by rw [haddrs₁, hsum]; exact hlen)
      (by rw [hsum]; exact h64) (fun a ha => hsub a (List.mem_append_right _ (by rwa [haddrs₁] at ha)))).mono ?_
    rintro c₂ st₂ ⟨⟨hport₂, haddrs₂, hmem₂⟩, rfl⟩
    refine ⟨⟨hport₂, haddrs₂.trans haddrs₁, hmem₂.trans hmem₁⟩, ?_⟩
    rw [haddrs₁, hmem₁, part_succ, batchChunks_append, storeAll_append, length_part (by omega), hnext, Nat.mul_add,
      Nat.add_assoc]

/-- The block an address names. -/
def place (a : Ip6Memaddr) : UInt16 × UInt64 := (a.subid, a.paddr)

def firstStore (addrs : List Ip6Memaddr) (d : List UInt8) : List (UInt16 × Nat × List UInt8) :=
  (addrs.take 1).map (fun a => (a.subid, a.paddr.toNat, d))

/-- What `write_bulk_rmem` stores: the bytes below `BLOCK_SIZE` go to the first block. -/
def bulkStores (B : Nat) (addrs : List Ip6Memaddr) (mem : Nat → UInt8) (payload size : Nat) :
    List (UInt16 × Nat × List UInt8) :=
  if size ≤ B then firstStore addrs (readBytes mem payload size)
  else batchChunks mem payload B (addrs.take (size / B)) ++
    if size % B ≠ 0 then
      firstStore addrs (readBytes mem (payload + B * (size / B / batchSize * batchSize + 1)) (size % B))
    else []

/-- The batches of a bulk write: the full ones, then the partial one. -/
theorem writeChunks_runs (hB₀ : 0 < B) (hB : B < 2 ^ 16) (payload n : Nat) (hport : c.targetIp.port = C.port)
    (hn : n ≤ c.addrs.length) (h64 : B * n < 2 ^ 64) (hsub : ∀ a ∈ c.addrs.take n, a.subid.toNat < ushrtMax) :
    Runs (rmemNet B C alloc True)
      ((writeBatches B me payload (List.range (n / batchSize)) c).bind (fun c =>
        c.batchWrite B me (n - n % batchSize) (n % batchSize) (payload + B * (n - n % batchSize) % 2 ^ 64))) st
      (fun c' st' => c.Kept C c' ∧ st' = storeAll st (batchChunks c.mem payload B (c.addrs.take n))) := by
  have hoff : n / batchSize * batchSize = n - n % batchSize := Nat.div_mul_self_eq_mod_sub_self
  have hle : n - n % batchSize ≤ n := Nat.sub_le ..
  have hsum : n - n % batchSize + n % batchSize = n := Nat.sub_add_cancel (Nat.mod_le ..)
  rw [take_eq_parts] at hsub
  rw [List.range_eq_range', Nat.mod_eq_of_lt (Nat.lt_of_le_of_lt (Nat.mul_le_mul_left B hle) h64)]
  refine Runs.bind (writeBatches_runs hB₀ hB payload (n / batchSize) 0 c st hport (by rw [Nat.zero_add, hoff]; omega)
    (by rw [Nat.zero_add, hoff]; exact Nat.lt_of_le_of_lt (Nat.mul_le_mul_left B hle) h64)
    (fun a ha => hsub a (List.mem_append_left _ ha))) ?_
  rintro c₁ st₁ ⟨⟨hport₁, haddrs₁, hmem₁⟩, rfl⟩
  refine (Caller.batchWrite_runs hport₁ hB _ (by rw [haddrs₁, hsum]; exact hn) (Nat.le_of_lt (Nat.mod_lt _ (by decide)))
    (fun a ha => hsub a (List.mem_append_right _ (by rwa [haddrs₁] at ha)))).mono ?_
  rintro c₂ st₂ ⟨⟨hport₂, haddrs₂, hmem₂⟩, rfl⟩
  refine ⟨⟨hport₂, haddrs₂.trans haddrs₁, hmem₂.trans hmem₁⟩, ?_⟩
  rw [haddrs₁, hmem₁, take_eq_parts, batchChunks_append, storeAll_append, hoff, length_part (by omega), Nat.zero_mul,
    Nat.mul_zero, Nat.add_zero]

/-- **What a bulk write does**, for every size. -/
theorem writeBulkRmem_runs {size : UInt64} (hB₀ : 0 < B) (hfit : min size.toNat B < 2 ^ 16) (payload : Nat)
    (hport : c.targetIp.port = C.port) (hne : c.addrs ≠ []) (hsize : size.toNat < 2 ^ 32)
    (hcov : size.toNat ≤ c.addrs.length * B)
    (hsub : B < size.toNat → ∀ a ∈ c.addrs.take (size.toNat / B), a.subid.toNat < ushrtMax) :
    Runs (rmemNet B C alloc True) (writeBulkRmem B me c payload size) st
      (fun r st' => r.2 = .success ∧ r.1.targetIp.port = C.port ∧ r.1.addrs.map place = c.addrs.map place ∧
        r.1.mem = c.mem ∧ st' = storeAll st (bulkStores B c.addrs c.mem payload size.toNat)) := by
  obtain ⟨a, r, ha⟩ := List.exists_cons_of_ne_nil hne
  unfold writeBulkRmem bulkStores
  by_cases hle : size.toNat ≤ B
  · have hlen : size.toUInt16.toNat = size.toNat := by
      rw [UInt64.toNat_toUInt16]; exact Nat.mod_eq_of_lt (by omega)
    rw [if_pos hle, if_pos hle]
    refine Runs.bind (Caller.writeFirst_runs hport ha payload size.toUInt16) ?_
    rintro c₁ st₁ ⟨hport₁, haddrs₁, hmem₁, rfl⟩
    refine Runs.ret ⟨rfl, hport₁, ?_, hmem₁, ?_⟩
    · rw [haddrs₁, ha]; rfl
    · rw [hlen, ha]; rfl
  · have hB : B < 2 ^ 16 := by omega
    have hchunks : size.toNat / B ≤ c.addrs.length := by
      rw [Nat.div_le_iff_le_mul_add_pred hB₀, Nat.mul_comm]
      omega
    have hmul : B * (size.toNat / B) ≤ size.toNat := Nat.mul_div_le ..
    have hmod : size.toNat % B < B := Nat.mod_lt _ hB₀
    have hres : (UInt16.ofNat (size.toNat % B)).toNat = size.toNat % B :=
      UInt16.toNat_ofNat_of_lt' (Nat.lt_trans hmod hB)
    have hoff : size.toNat / B - size.toNat / B % batchSize = size.toNat / B / batchSize * batchSize :=
      Nat.div_mul_self_eq_mod_sub_self.symm
    rw [if_neg hle, if_neg hle, if_neg (Nat.not_lt.2 hchunks)]
    simp only [Prog.bind_eq, ← Prog.bind_assoc]
    refine Runs.bind (writeChunks_runs hB₀ hB payload (size.toNat / B) hport hchunks (by omega)
      (hsub (Nat.lt_of_not_le hle))) ?_
    rintro c₁ st₁ ⟨⟨hport₁, haddrs₁, hmem₁⟩, rfl⟩
    by_cases hr : size.toNat % B = 0
    · rw [if_neg (by rw [hr]; exact fun h => h rfl), if_neg (fun h => h hr), List.append_nil]
      exact Runs.ret ⟨rfl, hport₁, by rw [haddrs₁], hmem₁, rfl⟩
    · have hnz : UInt16.ofNat (size.toNat % B) ≠ 0 := by
        intro h
        rw [h] at hres
        exact hr hres.symm
      have hB1 : B * (size.toNat / B / batchSize * batchSize + 1) < 2 ^ 64 := by
        have := Nat.mul_le_mul_left B (Nat.sub_le (size.toNat / B) (size.toNat / B % batchSize))
        rw [hoff] at this
        rw [Nat.mul_add]
        omega
      rw [if_pos hnz, if_pos hr, hoff, Nat.mod_eq_of_lt hB1]
      refine Runs.bind (Caller.writeFirst_runs hport₁ (haddrs₁.trans ha) _ (UInt16.ofNat (size.toNat % B))) ?_
      rintro c₂ st₂ ⟨hport₂, haddrs₂, hmem₂, rfl⟩
      refine Runs.ret ⟨rfl, hport₂, ?_, hmem₂.trans hmem₁, ?_⟩
      · rw [haddrs₂, ha]; rfl
      · rw [hres, hmem₁, storeAll_append, ha]; rfl

/-! ## What is stored -/

/-- The blocks of a list, concatenated. -/
def remote (B : Nat) (st : UInt16 → Server) (addrs : List Ip6Memaddr) : List UInt8 := (remoteBytes st B addrs).flatten

theorem remote_append (B : Nat) (st : UInt16 → Server) (as bs : List Ip6Memaddr) :
    remote B st (as ++ bs) = remote B st as ++ remote B st bs := by
  simp only [remote, remoteBytes, List.map_append, List.flatten_append]

theorem length_remote (B : Nat) (st : UInt16 → Server) : ∀ addrs : List Ip6Memaddr,
    (remote B st addrs).length = addrs.length * B
  | [] => by simp [remote, remoteBytes]
  | a :: r => by
    have := length_remote B st r
    rw [remote, remoteBytes] at this
    rw [remote, remoteBytes, List.map_cons, List.flatten_cons, List.length_append, this, length_readBytes,
      List.length_cons, Nat.succ_mul, Nat.add_comm]

theorem remote_congr {st st' : UInt16 → Server} {addrs : List Ip6Memaddr}
    (h : ∀ b ∈ addrs, readBytes (st b.subid).mem b.paddr.toNat B = readBytes (st' b.subid).mem b.paddr.toNat B) :
    remote B st addrs = remote B st' addrs :=
  congrArg List.flatten (List.map_congr_left h)

theorem remote_place {st : UInt16 → Server} {as bs : List Ip6Memaddr} (h : as.map place = bs.map place) :
    remote B st as = remote B st bs := by
  have key : ∀ cs : List Ip6Memaddr, remoteBytes st B cs =
      (cs.map place).map (fun x => readBytes (st x.1).mem x.2.toNat B) := fun cs => by
    rw [List.map_map]; rfl
  rw [remote, remote, key, key, h]

/-- A write of at most one block puts its bytes at the start of the first. -/
theorem remote_firstStore {a : Ip6Memaddr} {r : List Ip6Memaddr} (hap : (a :: r).Pairwise (Apart B))
    (st : UInt16 → Server) {d : List UInt8} (hd : d.length ≤ B) :
    remote B (storeAll st (firstStore (a :: r) d)) (a :: r) = d ++ (remote B st (a :: r)).drop d.length := by
  have hsplit : ∀ st' : UInt16 → Server,
      remote B st' (a :: r) = readBytes (st' a.subid).mem a.paddr.toNat B ++ remote B st' r := fun _ => rfl
  have hfirst : (storeAll st (firstStore (a :: r) d) a.subid).mem = writeBytes (st a.subid).mem a.paddr.toNat d := by
    have := congrFun (storeAll_single st a.subid a.paddr d) a.subid
    rw [update_self] at this
    exact congrArg Server.mem this
  have hrest : remote B (storeAll st (firstStore (a :: r) d)) r = remote B st r := by
    refine remote_congr (fun b hb => read_storeAll_apart (fun w hw => ?_))
    cases List.mem_singleton.1 hw
    exact ⟨a, (List.pairwise_cons.1 hap).1 b hb, rfl, rfl, hd⟩
  rw [hsplit, hsplit, hfirst, hrest, readBytes_writeBytes_le _ _ hd, List.append_assoc,
    List.drop_append_of_le_length (by rwa [length_readBytes])]

/-- Whole blocks stored are the first blocks. -/
theorem remote_chunks {addrs : List Ip6Memaddr} (hap : addrs.Pairwise (Apart B)) (st : UInt16 → Server)
    (mem : Nat → UInt8) (payload : Nat) {n : Nat} (hn : n ≤ addrs.length) :
    remote B (storeAll st (batchChunks mem payload B (addrs.take n))) addrs =
      readBytes mem payload (n * B) ++ (remote B st addrs).drop (n * B) := by
  have hap' := hap
  rw [← List.take_append_drop n addrs, List.pairwise_append] at hap'
  obtain ⟨hapt, -, hcross⟩ := hap'
  have hlen : (addrs.take n).length = n := by rw [List.length_take]; omega
  have hfirst := @remoteBytes_storeAll B payload _ hapt st mem
  rw [hlen] at hfirst
  have hrest : remote B (storeAll st (batchChunks mem payload B (addrs.take n))) (addrs.drop n) =
      remote B st (addrs.drop n) := by
    refine remote_congr (fun b hb => read_storeAll_apart (fun w hw => ?_))
    obtain ⟨i, a, ha, rfl⟩ := mem_batchChunks.1 hw
    exact ⟨a, hcross a (List.mem_of_getElem? ha) b hb, rfl, rfl, Nat.le_of_eq (length_readBytes ..)⟩
  have hsplit : ∀ st' : UInt16 → Server,
      remote B st' addrs = remote B st' (addrs.take n) ++ remote B st' (addrs.drop n) := fun st' => by
    rw [← remote_append, List.take_append_drop]
  rw [hsplit, hsplit st, hrest, List.drop_left' (by rw [length_remote, hlen])]
  exact congrArg (· ++ _) hfirst

/-! ## Bulk reads -/

/-- The caller with the blocks `as` read into its buffer from `p` on, and no other byte changed. -/
structure Caller.Filled (B : Nat) (C : Cluster) (st : UInt16 → Server) (p : Nat) (as : List Ip6Memaddr)
    (c c' : Caller) : Prop where
  port : c'.targetIp.port = C.port
  addrs : c'.addrs = c.addrs
  bytes : readBytes c'.mem p (as.length * B) = remote B st as
  frame : ∀ q, q < p ∨ p + as.length * B ≤ q → c'.mem q = c.mem q

theorem Caller.Filled.nil (hport : c.targetIp.port = C.port) (p : Nat) : c.Filled B C st p [] c :=
  ⟨hport, rfl, by simp [readBytes, remote, remoteBytes], fun _ _ => rfl⟩

theorem Caller.Filled.append {p : Nat} {as bs : List Ip6Memaddr} {c₁ c₂ : Caller} (h₁ : c.Filled B C st p as c₁)
    (h₂ : c₁.Filled B C st (p + as.length * B) bs c₂) : c.Filled B C st p (as ++ bs) c₂ := by
  have hlen : (as ++ bs).length * B = as.length * B + bs.length * B := by rw [List.length_append, Nat.add_mul]
  refine ⟨h₂.port, h₂.addrs.trans h₁.addrs, ?_, fun q hq => ?_⟩
  · rw [hlen, readBytes_add, remote_append, h₂.bytes, ← h₁.bytes]
    exact congrArg (· ++ _) (readBytes_congr (fun i hi => h₂.frame _ (Or.inl (by omega))))
  · rw [hlen] at hq
    rw [h₂.frame q (by omega), h₁.frame q (by omega)]

theorem Caller.batchRead_runs (hport : c.targetIp.port = C.port) (hB : B < 2 ^ 16) {i n : Nat} {rxBuf : Nat}
    (hin : i + n ≤ c.addrs.length) (hn : n ≤ batchSize) (hsub : ∀ a ∈ part c.addrs i n, a.subid.toNat < ushrtMax)
    (hbuf : rxBuf + n * B < 2 ^ 64) :
    Runs (rmemNet B C alloc True) (c.batchRead B me i n rxBuf) st
      (fun c' st' => c.Filled B C st rxBuf (part c.addrs i n) c' ∧ st' = st) := by
  have hlen := length_part hin
  have hBn : (UInt16.ofNat B).toNat = B := UInt16.toNat_ofNat_of_lt' hB
  rw [Caller.batchRead, slice, if_pos hin]
  refine Runs.bind (Rmem.batchRead_runs B alloc True me c.mem rxBuf (UInt16.ofNat B) st hport
    (by rwa [← part, hlen]) hsub (by rwa [← part, hlen, hBn])) ?_
  rintro mem' st' ⟨rfl, hbytes, hframe⟩
  rw [hBn] at hbytes hframe
  exact Runs.ret ⟨⟨hport, rfl, hbytes, hframe⟩, rfl⟩

theorem readBatches_runs (hB₀ : 0 < B) (hB : B < 2 ^ 16) (rxBuf : Nat) : ∀ (m k : Nat) (c : Caller),
    c.targetIp.port = C.port → (k + m) * batchSize ≤ c.addrs.length → B * ((k + m) * batchSize) < 2 ^ 32 →
    rxBuf + B * ((k + m) * batchSize) < 2 ^ 64 →
    (∀ a ∈ part c.addrs (k * batchSize) (m * batchSize), a.subid.toNat < ushrtMax) →
    Runs (rmemNet B C alloc True) (readBatches B me rxBuf (List.range' k m) c) st
      (fun c' st' => c.Filled B C st (rxBuf + B * (k * batchSize)) (part c.addrs (k * batchSize) (m * batchSize)) c' ∧
        st' = st)
  | 0, k, c, hport, _, _, _, _ => by
    rw [Nat.zero_mul, part, List.take_zero]
    exact Runs.ret ⟨.nil hport _, rfl⟩
  | m + 1, k, c, hport, hlen, h32, hbuf, hsub => by
    have hk := batch_le k m
    have hBk := Nat.mul_le_mul_left B hk
    rw [Nat.mul_add] at hBk
    obtain ⟨hidx, hoff⟩ := batch_no_wrap hB₀ h32
    have hnext : (k + 1) * batchSize = k * batchSize + batchSize := Nat.succ_mul ..
    rw [part_succ] at hsub
    have hsum : k + 1 + m = k + (m + 1) := by omega
    rw [List.range'_succ, readBatches, hidx, hoff]
    refine Runs.bind (Caller.batchRead_runs hport hB (by omega) (Nat.le_refl _)
      (fun a ha => hsub a (List.mem_append_left _ ha)) (by rw [Nat.mul_comm batchSize]; omega)) ?_
    rintro c₁ st₁ ⟨h₁, hst₁⟩
    rw [hst₁]
    refine (readBatches_runs hB₀ hB rxBuf m (k + 1) c₁ h₁.port (by rw [h₁.addrs, hsum]; exact hlen)
      (by rw [hsum]; exact h32) (by rw [hsum]; exact hbuf)
      (fun a ha => hsub a (List.mem_append_right _ (by rwa [h₁.addrs] at ha)))).mono ?_
    rintro c₂ st₂ ⟨h₂, hst₂⟩
    rw [h₁.addrs] at h₂
    have hpos : rxBuf + B * ((k + 1) * batchSize) =
        rxBuf + B * (k * batchSize) + (part c.addrs (k * batchSize) batchSize).length * B := by
      rw [length_part (by omega), hnext, Nat.mul_add, Nat.mul_comm batchSize B, Nat.add_assoc]
    rw [hpos] at h₂
    rw [part_succ]
    exact ⟨h₁.append h₂, hst₂⟩

theorem readChunks_runs (hB₀ : 0 < B) (hB : B < 2 ^ 16) (rxBuf n : Nat) (hport : c.targetIp.port = C.port)
    (hn : n ≤ c.addrs.length) (h32 : B * n < 2 ^ 32) (hbuf : rxBuf + B * n < 2 ^ 64)
    (hsub : ∀ a ∈ c.addrs.take n, a.subid.toNat < ushrtMax) :
    Runs (rmemNet B C alloc True)
      ((readBatches B me rxBuf (List.range (n / batchSize % 2 ^ 32)) c).bind (fun c =>
        c.batchRead B me (n - n % batchSize) (n % batchSize) (rxBuf + B * (n - n % batchSize) % 2 ^ 64))) st
      (fun c' st' => c.Filled B C st rxBuf (c.addrs.take n) c' ∧ st' = st) := by
  have hoff : n / batchSize * batchSize = n - n % batchSize := Nat.div_mul_self_eq_mod_sub_self
  have hsum : n - n % batchSize + n % batchSize = n := Nat.sub_add_cancel (Nat.mod_le ..)
  have hle : B * (n - n % batchSize) ≤ B * n := Nat.mul_le_mul_left B (Nat.sub_le ..)
  have hdiv : n / batchSize < 2 ^ 32 :=
    Nat.lt_of_le_of_lt (Nat.le_trans (Nat.div_le_self ..) (Nat.le_mul_of_pos_left n hB₀)) h32
  have hbytes : B * (n - n % batchSize) + n % batchSize * B = B * n := by
    rw [Nat.mul_comm (n % batchSize), ← Nat.mul_add, hsum]
  have hptr : B * (n - n % batchSize) % 2 ^ 64 = B * (n - n % batchSize) := Nat.mod_eq_of_lt (by omega)
  rw [take_eq_parts] at hsub
  rw [Nat.mod_eq_of_lt hdiv, List.range_eq_range', hptr]
  refine Runs.bind (readBatches_runs hB₀ hB rxBuf (n / batchSize) 0 c hport (by rw [Nat.zero_add, hoff]; omega)
    (by rw [Nat.zero_add, hoff]; omega) (by rw [Nat.zero_add, hoff]; omega)
    (fun a ha => hsub a (List.mem_append_left _ ha))) ?_
  rintro c₁ st₁ ⟨h₁, rfl⟩
  refine (Caller.batchRead_runs h₁.port hB (by rw [h₁.addrs, hsum]; exact hn) (Nat.le_of_lt (Nat.mod_lt _ (by decide)))
    (fun a ha => hsub a (List.mem_append_right _ (by rwa [h₁.addrs] at ha))) (by omega)).mono ?_
  rintro c₂ st₂ ⟨h₂, rfl⟩
  have hpos : rxBuf + B * (n - n % batchSize) =
      rxBuf + B * (0 * batchSize) + (part c.addrs (0 * batchSize) (n / batchSize * batchSize)).length * B := by
    rw [length_part (by omega), hoff, Nat.zero_mul, Nat.mul_zero, Nat.add_zero, Nat.mul_comm B]
  rw [h₁.addrs, hpos] at h₂
  have h := h₁.append h₂
  rw [← take_eq_parts, Nat.zero_mul, Nat.mul_zero, Nat.add_zero] at h
  exact ⟨h, rfl⟩

theorem take_remote_cons {a : Ip6Memaddr} {r : List Ip6Memaddr} {k : Nat} (h : k ≤ B) :
    (remote B st (a :: r)).take k = readBytes (st a.subid).mem a.paddr.toNat k := by
  have hsplit : remote B st (a :: r) = readBytes (st a.subid).mem a.paddr.toNat B ++ remote B st r := rfl
  obtain ⟨j, rfl⟩ := Nat.exists_eq_add_of_le h
  rw [hsplit, readBytes_add, List.append_assoc, List.take_left' (length_readBytes ..)]

/-- **What a bulk read does**, for a size of at most one block or of whole blocks. -/
theorem readBulkRmem_runs {size : UInt64} (hB₀ : 0 < B) (hfit : min size.toNat B < 2 ^ 16) (rxBuf : Nat)
    (hport : c.targetIp.port = C.port) (hne : c.addrs ≠ []) (hsize : size.toNat < 2 ^ 32)
    (hcov : size.toNat ≤ c.addrs.length * B) (hbuf : rxBuf + size.toNat < 2 ^ 64)
    (h : size.toNat ≤ B ∨ B ∣ size.toNat ∧ ∀ a ∈ c.addrs.take (size.toNat / B), a.subid.toNat < ushrtMax) :
    Runs (rmemNet B C alloc True) (readBulkRmem B me c rxBuf size) st
      (fun r st' => r.2 = .success ∧ r.1.targetIp.port = C.port ∧ r.1.addrs.map place = c.addrs.map place ∧
        readBytes r.1.mem rxBuf size.toNat = (remote B st c.addrs).take size.toNat ∧
        (∀ q, q < rxBuf ∨ rxBuf + size.toNat ≤ q → r.1.mem q = c.mem q) ∧ st' = st) := by
  unfold readBulkRmem
  by_cases hle : size.toNat ≤ B
  · obtain ⟨a, r, ha⟩ := List.exists_cons_of_ne_nil hne
    have hlen : size.toUInt16.toNat = size.toNat := by
      rw [UInt64.toNat_toUInt16]; exact Nat.mod_eq_of_lt (by omega)
    rw [if_pos hle, Caller.readFirst, ha]
    simp only [Prog.bind_eq, Prog.bind_assoc]
    refine Runs.bind (readRmem_runs B alloc True me st hport a c.mem rxBuf size.toUInt16) ?_
    rintro ⟨ip, a', mem', n⟩ st' ⟨hip, rfl, rfl, rfl⟩
    refine Runs.ret ⟨rfl, hip, rfl, ?_, fun q hq => ?_, rfl⟩
    · have := readBytes_writeBytes c.mem rxBuf (readBytes (st' a.subid).mem a.paddr.toNat size.toUInt16.toNat)
      rw [length_readBytes] at this
      rw [take_remote_cons hle, ← hlen]
      exact this
    · exact writeBytes_of_not_mem c.mem (by rw [length_readBytes]; omega)
  · have hB : B < 2 ^ 16 := by omega
    obtain ⟨hdvd, hsub⟩ := h.resolve_left hle
    have hmul : B * (size.toNat / B) = size.toNat := Nat.mul_div_cancel' hdvd
    have hchunks : size.toNat / B ≤ c.addrs.length := by
      rw [Nat.div_le_iff_le_mul_add_pred hB₀, Nat.mul_comm]
      omega
    rw [if_neg hle, if_neg (Nat.not_lt.2 hchunks)]
    simp only [Prog.bind_eq, ← Prog.bind_assoc]
    refine Runs.bind (readChunks_runs hB₀ hB rxBuf (size.toNat / B) hport hchunks (by omega) (by omega) hsub) ?_
    rintro c₁ st₁ ⟨h₁, rfl⟩
    have hlen : (c.addrs.take (size.toNat / B)).length * B = size.toNat := by
      rw [List.length_take, Nat.min_eq_left hchunks, Nat.mul_comm, hmul]
    have hbytes := h₁.bytes
    have hframe := h₁.frame
    rw [hlen] at hbytes hframe
    rw [if_neg (by rw [Nat.mod_eq_zero_of_dvd hdvd]; exact fun h => h rfl)]
    refine Runs.ret ⟨rfl, h₁.port, by rw [h₁.addrs], ?_, hframe, rfl⟩
    have hsplit : remote B st₁ c.addrs =
        remote B st₁ (c.addrs.take (size.toNat / B)) ++ remote B st₁ (c.addrs.drop (size.toNat / B)) := by
      rw [← remote_append, List.take_append_drop]
    rw [hbytes, hsplit, List.take_left' (by rw [length_remote, hlen])]

end Bulk

end Rmem
end Bb
