import BlueBridge.RmemRoundTrip
/-!
# Disk — the block device (`apps/bb_disk.c`, served by `buse.c`)

`xmp_read` and `xmp_write` hand a request for `len` bytes at `offset` to the bulk functions, with the addresses from
that of the block `offset` is in on.  They do not say where in its block `offset` is, so a request has to begin with a
block; one of more than a block has to end with one too, for the bytes behind go to its first block.  Requests with such
extents are served as by a disk, in any order, and no others are (`serves_iff`).

For the converse a single read is enough: it does not fetch the last byte of any other extent (`served_of_fetched`).
-/
namespace Bb
namespace Disk

open Bytes Wire Rmem

/-! ## The device -/

section Device

variable (B : Nat) (me : SockaddrIn6)

/-- A bulk request on `&r.memList[page_offset]`: it uses the first address there or, if larger than a block,
`num_addrs`. -/
def bulkAt (c : Caller) (pageOffset numAddrs : Nat) (bulk : Caller → Prog Packet (Caller × Exit)) :
    Prog Packet Caller :=
  match slice c.addrs pageOffset (max 1 numAddrs) with
  | none       => .fail
  | some addrs => do
    let (c', _) ← bulk { c with addrs := addrs }
    pure { c' with addrs := c.addrs.take pageOffset ++ (c'.addrs ++ c.addrs.drop (pageOffset + max 1 numAddrs)) }

/-- `xmp_read`; the caller is `r`, with `r.memList`, and the client's memory. -/
def xmpRead (c : Caller) (buf : Nat) (len : UInt32) (offset : UInt64) : Prog Packet Caller :=
  bulkAt c (offset.toNat / B) (len.toNat / B) (fun c => readBulkRmem B me c buf len.toUInt64)

/-- `xmp_write`. -/
def xmpWrite (c : Caller) (buf : Nat) (len : UInt32) (offset : UInt64) : Prog Packet Caller :=
  bulkAt c (offset.toNat / B) (len.toNat / B) (fun c => writeBulkRmem B me c buf len.toUInt64)

/-- `NBD_CMD_READ` and `NBD_CMD_WRITE`. -/
inductive Cmd where
  | read | write
  deriving DecidableEq, Repr

/-- A request as `buse_main` hands it on: `chunk` has been allocated and, for a write, filled; `mem` is the client's
memory then. -/
structure Request where
  cmd : Cmd
  offset : UInt64
  len : UInt32
  chunk : Nat
  mem : Nat → UInt8

def Request.data (q : Request) : List UInt8 := readBytes q.mem q.chunk q.len.toNat

/-- `buse_main` on a request; `chunk` is then the answer to a read. -/
def Request.serve (q : Request) (c : Caller) : Prog Packet Caller :=
  match q.cmd with
  | .read  => xmpRead B me { c with mem := q.mem } q.chunk q.len q.offset
  | .write => xmpWrite B me { c with mem := q.mem } q.chunk q.len q.offset

end Device

/-! ## Disks -/

/-- The byte `i` of the device. -/
def byteAt (B : Nat) (memList : List Ip6Memaddr) (st : UInt16 → Server) (i : Nat) : UInt8 :=
  match memList[i / B]? with
  | some a => (st a.subid).mem (a.paddr.toNat + i % B)
  | none   => 0

/-- **The requests are served as by a disk**: each is answered, a read with the bytes of `disk`, in which every write is
put; and a write changes no byte of the device outside its extent. -/
def AsDisk (B : Nat) (C : Cluster) (alloc : Server → Nat → UInt64) (me : SockaddrIn6) (memList : List Ip6Memaddr) :
    List Request → (Nat → UInt8) → Caller → (UInt16 → Server) → Prop
  | [],      _,    _, _  => True
  | q :: qs, disk, c, st => Runs (rmemNet B C alloc True) (q.serve B me c) st (fun c' st' =>
    match q.cmd with
    | .read  =>
      readBytes c'.mem q.chunk q.len.toNat = readBytes disk q.offset.toNat q.len.toNat ∧
      AsDisk B C alloc me memList qs disk c' st'
    | .write =>
      (∀ i < memList.length * B, i < q.offset.toNat ∨ q.offset.toNat + q.len.toNat ≤ i →
        byteAt B memList st' i = byteAt B memList st i) ∧
      AsDisk B C alloc me memList qs (writeBytes disk q.offset.toNat q.data) c' st')

/-- Every sequence of reads and writes with such extents, offset and length, is served as by a disk. -/
def Serves (B : Nat) (C : Cluster) (alloc : Server → Nat → UInt64) (me : SockaddrIn6) (memList : List Ip6Memaddr)
    (extents : Set (UInt64 × UInt32)) : Prop :=
  ∀ (targetIp : SockaddrIn6) (mem : Nat → UInt8) (st : UInt16 → Server) (qs : List Request),
    targetIp.port = C.port → Live B memList st →
    (∀ q ∈ qs, (q.offset, q.len) ∈ extents ∧ q.chunk + q.len.toNat < 2 ^ 64) →
    AsDisk B C alloc me memList qs (byteAt B memList st) ⟨targetIp, memList, mem⟩ st

/-- **The extents that are served**: from a block that there is, and, unless empty, from its start; with chunks that a
`uint16_t` can count; of at most one block, or of whole blocks on servers `sub_ids` can count. -/
def Served (B : Nat) (memList : List Ip6Memaddr) (e : UInt64 × UInt32) : Prop :=
  e.1.toNat < memList.length * B ∧ (e.2.toNat = 0 ∨ B ∣ e.1.toNat ∧ min e.2.toNat B < 2 ^ 16 ∧
    (e.2.toNat ≤ B ∨ B ∣ e.2.toNat ∧ ∀ a ∈ part memList (e.1.toNat / B) (e.2.toNat / B), a.subid.toNat ≤ 65534))

instance (B : Nat) (memList : List Ip6Memaddr) (e : UInt64 × UInt32) : Decidable (Served B memList e) :=
  inferInstanceAs (Decidable (_ ∧ _))

variable {B : Nat} {C : Cluster} {alloc : Server → Nat → UInt64} {me : SockaddrIn6} {memList : List Ip6Memaddr}
  {st : UInt16 → Server} {disk : Nat → UInt8} {c : Caller}

/-! ## The device as a disk -/

theorem byteAt_block (memList : List Ip6Memaddr) (st : UInt16 → Server) {i k : Nat} {a : Ip6Memaddr}
    (ha : memList[i]? = some a) (hk : k < B) :
    byteAt B memList st (i * B + k) = (st a.subid).mem (a.paddr.toNat + k) := by
  have hdiv : (i * B + k) / B = i := by
    rw [Nat.mul_comm, Nat.mul_add_div (by omega), Nat.div_eq_of_lt hk, Nat.add_zero]
  have hmod : (i * B + k) % B = k := by rw [Nat.mul_comm, Nat.mul_add_mod, Nat.mod_eq_of_lt hk]
  rw [byteAt, hdiv, ha, hmod]

/-- The device has the bytes of `disk`. -/
def Shows (B : Nat) (memList : List Ip6Memaddr) (st : UInt16 → Server) (disk : Nat → UInt8) : Prop :=
  readBytes disk 0 (memList.length * B) = remote B st memList

theorem shows_byteAt (B : Nat) (memList : List Ip6Memaddr) (st : UInt16 → Server) :
    Shows B memList st (byteAt B memList st) := by
  have hlen : memList.length = (remoteBytes st B memList).length := by rw [remoteBytes, List.length_map]
  rw [Shows, hlen]
  refine readBytes_flatten (fun i v hv => ?_)
  rw [remoteBytes, List.getElem?_map, Option.map_eq_some_iff] at hv
  obtain ⟨a, ha, rfl⟩ := hv
  refine List.map_congr_left (fun k hk => ?_)
  rw [Nat.zero_add, byteAt_block memList st ha (List.mem_range.1 hk)]

theorem Shows.byteAt (h : Shows B memList st disk) {i : Nat} (hi : i < memList.length * B) :
    byteAt B memList st i = disk i := by
  have hbytes := congrArg (·.getD i 0) ((shows_byteAt B memList st).trans h.symm)
  simpa only [getD_readBytes _ _ hi, Nat.zero_add] using hbytes

theorem parts_eq (addrs : List Ip6Memaddr) (p m : Nat) :
    addrs.take p ++ (part addrs p m ++ addrs.drop (p + m)) = addrs := by
  rw [part, ← List.drop_drop, List.take_append_drop, List.take_append_drop]

theorem remote_parts (B : Nat) (st : UInt16 → Server) (addrs : List Ip6Memaddr) (p m : Nat) :
    remote B st addrs =
      remote B st (addrs.take p) ++ (remote B st (part addrs p m) ++ remote B st (addrs.drop (p + m))) := by
  rw [← remote_append, ← remote_append, parts_eq]

/-- The blocks before some of the blocks, those, and the blocks after. -/
theorem Shows.split (h : Shows B memList st disk) {addrs : List Ip6Memaddr}
    (haddrs : addrs.map place = memList.map place) {p m k : Nat} (hlen : memList.length = p + (m + k)) :
    readBytes disk 0 (p * B) = remote B st (addrs.take p) ∧
    readBytes disk (p * B) (m * B) = remote B st (part addrs p m) ∧
    readBytes disk (p * B + m * B) (k * B) = remote B st (addrs.drop (p + m)) := by
  have hlen' : addrs.length = memList.length := by simpa using congrArg List.length haddrs
  rw [Shows, hlen, Nat.add_mul, Nat.add_mul, readBytes_add, readBytes_add, ← remote_place haddrs,
    remote_parts B st addrs p m, Nat.zero_add] at h
  obtain ⟨h₁, h⟩ := List.append_inj h (by rw [length_readBytes, length_remote, List.length_take]; congr 1; omega)
  obtain ⟨h₂, h₃⟩ := List.append_inj h (by rw [length_readBytes, length_remote, length_part (by omega)])
  exact ⟨h₁, h₂, h₃⟩

/-! ## Extents that are served -/

/-- `r` between requests: `memList` names the same blocks, whatever else its addresses have. -/
structure Ready (C : Cluster) (memList : List Ip6Memaddr) (c : Caller) : Prop where
  port : c.targetIp.port = C.port
  addrs : c.addrs.map place = memList.map place

theorem Ready.length (h : Ready C memList c) : c.addrs.length = memList.length := by
  simpa using congrArg List.length h.addrs

theorem map_place_part {as bs : List Ip6Memaddr} (h : as.map place = bs.map place) (i n : Nat) :
    (part as i n).map place = (part bs i n).map place := by
  rw [part, part, List.map_take, List.map_take, List.map_drop, List.map_drop, h]

theorem apart_of_place {as bs : List Ip6Memaddr} (h : as.map place = bs.map place) (hap : bs.Pairwise (Apart B)) :
    as.Pairwise (Apart B) := by
  have hplaces : ∀ cs : List Ip6Memaddr, (cs.map place).Pairwise
      (fun x y => x.1 ≠ y.1 ∨ x.2.toNat + B ≤ y.2.toNat ∨ y.2.toNat + B ≤ x.2.toNat) ↔ cs.Pairwise (Apart B) :=
    fun cs => List.pairwise_map
  rw [← hplaces, h, hplaces]
  exact hap

theorem bulkAt_runs {p n : Nat} {bulk : Caller → Prog Packet (Caller × Exit)}
    {Q : (Nat → UInt8) → (UInt16 → Server) → Prop} (hc : Ready C memList c) (hin : p + max 1 n ≤ memList.length)
    (h : Runs (rmemNet B C alloc True) (bulk { c with addrs := part c.addrs p (max 1 n) }) st (fun r st' =>
      r.1.targetIp.port = C.port ∧ r.1.addrs.map place = (part c.addrs p (max 1 n)).map place ∧ Q r.1.mem st')) :
    Runs (rmemNet B C alloc True) (bulkAt c p n bulk) st (fun c' st' => Ready C memList c' ∧ Q c'.mem st') := by
  rw [bulkAt, slice, if_pos (by rw [hc.length]; exact hin)]
  refine Runs.bind h ?_
  rintro ⟨c', e⟩ st' ⟨hport, haddrs, hQ⟩
  refine Runs.ret ⟨⟨hport, ?_⟩, hQ⟩
  rw [List.map_append, List.map_append, haddrs, ← List.map_append, ← List.map_append, parts_eq, hc.addrs]

section Extent

variable {offset : UInt64} {len : UInt32}

theorem blocks_le (hB₀ : 0 < B) (hin : offset.toNat + len.toNat ≤ memList.length * B)
    (hoff : offset.toNat < memList.length * B) : offset.toNat / B + max 1 (len.toNat / B) ≤ memList.length := by
  have hfirst : offset.toNat / B < memList.length := (Nat.div_lt_iff_lt_mul hB₀).2 hoff
  have hall : (offset.toNat / B + len.toNat / B) * B ≤ memList.length * B := by
    rw [Nat.add_mul]
    exact Nat.le_trans (Nat.add_le_add (Nat.div_mul_le_self ..) (Nat.div_mul_le_self ..)) hin
  have := Nat.le_of_mul_le_mul_right hall hB₀
  omega

/-- What the bulk functions need of the addresses they are given. -/
structure Bulk (B : Nat) (addrs : List Ip6Memaddr) (size : Nat) : Prop where
  ne : addrs ≠ []
  fit : min size B < 2 ^ 16
  cov : size ≤ addrs.length * B
  subids : B < size → ∀ a ∈ addrs.take (size / B), a.subid.toNat < ushrtMax

theorem Served.bulk (hB₀ : 0 < B) (hc : Ready C memList c) (hin : offset.toNat + len.toNat ≤ memList.length * B)
    (hs : Served B memList (offset, len)) :
    Bulk B (part c.addrs (offset.toNat / B) (max 1 (len.toNat / B))) len.toNat := by
  dsimp only [Served] at hs
  obtain ⟨hoff, hext⟩ := hs
  have hlen := @length_part c.addrs _ _ (by rw [hc.length]; exact blocks_le hB₀ hin hoff)
  have hmax : 1 * B ≤ max 1 (len.toNat / B) * B := Nat.mul_le_mul_right B (Nat.le_max_left ..)
  have hne : part c.addrs (offset.toNat / B) (max 1 (len.toNat / B)) ≠ [] := by
    rw [← List.length_pos_iff, hlen]
    omega
  rcases hext with h0 | ⟨-, hfit, hle | ⟨hdvd, hsub⟩⟩
  · exact ⟨hne, by omega, by rw [h0]; exact Nat.zero_le _, fun h => by omega⟩
  · refine ⟨hne, hfit, ?_, fun h => absurd hle (Nat.not_le.2 h)⟩
    rw [hlen]
    omega
  · refine ⟨hne, hfit, ?_, fun _ => ?_⟩
    · rw [hlen]
      calc len.toNat = len.toNat / B * B := (Nat.div_mul_cancel hdvd).symm
        _ ≤ max 1 (len.toNat / B) * B := Nat.mul_le_mul_right B (Nat.le_max_right ..)
    · rw [part, List.take_take, Nat.min_eq_left (Nat.le_max_right ..), ← part]
      exact subid_of_place (map_place_part hc.addrs ..) (fun a ha => Nat.lt_succ_of_le (hsub a ha))

theorem Served.whole (hs : Served B memList (offset, len)) : len.toNat ≤ B ∨ B ∣ len.toNat := by
  rcases hs.2 with h0 | ⟨-, -, hle | ⟨hdvd, -⟩⟩
  · exact Or.inl (Nat.le_trans (Nat.le_of_eq h0) (Nat.zero_le B))
  · exact Or.inl hle
  · exact Or.inr hdvd

/-- An extent that is served begins with its block, if it has a byte. -/
theorem Served.start (hs : Served B memList (offset, len)) (m : Nat → UInt8) :
    readBytes m offset.toNat len.toNat = readBytes m (offset.toNat / B * B) len.toNat ∧
    ∀ d : List UInt8, d.length = len.toNat → writeBytes m offset.toNat d = writeBytes m (offset.toNat / B * B) d := by
  rcases hs.2 with h0 | ⟨hdvd, -⟩
  · have h0 : len.toNat = 0 := h0
    refine ⟨by rw [h0]; rfl, fun d hd => ?_⟩
    rw [List.length_eq_zero_iff.1 (hd.trans h0)]
    funext q
    rw [writeBytes_of_not_mem m (by simp), writeBytes_of_not_mem m (by simp)]
  · have hdvd : B ∣ offset.toNat := hdvd
    rw [Nat.div_mul_cancel hdvd]
    exact ⟨rfl, fun _ _ => rfl⟩

theorem xmpRead_runs (hB₀ : 0 < B) (hc : Ready C memList c) (h : Shows B memList st disk)
    (hin : offset.toNat + len.toNat ≤ memList.length * B) (hs : Served B memList (offset, len)) {buf : Nat}
    (hbuf : buf + len.toNat < 2 ^ 64) :
    Runs (rmemNet B C alloc True) (xmpRead B me c buf len offset) st (fun c' st' => Ready C memList c' ∧
      readBytes c'.mem buf len.toNat = readBytes disk offset.toNat len.toNat ∧ st' = st) := by
  have hblocks := blocks_le hB₀ hin hs.1
  have hbulk := hs.bulk hB₀ hc hin
  have hlen : len.toUInt64.toNat = len.toNat := UInt32.toNat_toUInt64 len
  refine bulkAt_runs hc hblocks (Q := fun mem st' => readBytes mem buf len.toNat =
    readBytes disk offset.toNat len.toNat ∧ st' = st) ((readBulkRmem_runs
    (c := ⟨c.targetIp, part c.addrs (offset.toNat / B) (max 1 (len.toNat / B)), c.mem⟩) hB₀
    (by rw [hlen]; exact hbulk.fit) buf hc.port hbulk.ne (by rw [hlen]; exact len.toNat_lt)
    (by rw [hlen]; exact hbulk.cov) (by rwa [hlen]) ?_).mono ?_)
  · rw [hlen]
    by_cases hle : len.toNat ≤ B
    · exact Or.inl hle
    · exact Or.inr ⟨hs.whole.resolve_left hle, hbulk.subids (Nat.lt_of_not_le hle)⟩
  · rintro ⟨c', e⟩ st' ⟨-, hport, haddrs, hbytes, -, rfl⟩
    refine ⟨hport, haddrs, ?_, rfl⟩
    obtain ⟨k, hk⟩ := Nat.exists_eq_add_of_le hblocks
    rw [Nat.add_assoc] at hk
    have hcov := hbulk.cov
    rw [length_part (by rw [hc.length]; exact hblocks)] at hcov
    rw [hlen] at hbytes
    rw [hbytes, (hs.start disk).1, ← (h.split hc.addrs hk).2.1, take_readBytes _ _ hcov]

/-- Whole blocks stored are stored on the disk. -/
theorem Shows.bulkStores (hB₀ : 0 < B) (hap : memList.Pairwise (Apart B)) (h : Shows B memList st disk)
    {addrs : List Ip6Memaddr} (haddrs : addrs.map place = memList.map place) {p m : Nat} (hin : p + m ≤ memList.length)
    {mem : Nat → UInt8} {payload size : Nat} (hbulk : Bulk B (part addrs p m) size)
    (hwhole : size ≤ B ∨ B ∣ size) :
    Shows B memList (storeAll st (bulkStores B (part addrs p m) mem payload size))
      (writeBytes disk (p * B) (readBytes mem payload size)) := by
  have hlen' : addrs.length = memList.length := by simpa using congrArg List.length haddrs
  have hlen := @length_part addrs p m (by omega)
  obtain ⟨k, hk⟩ := Nat.exists_eq_add_of_le hin
  rw [Nat.add_assoc] at hk
  obtain ⟨h₁, h₂, h₃⟩ := h.split haddrs hk
  have hap' := apart_of_place haddrs hap
  rw [← parts_eq addrs p m, List.pairwise_append, List.pairwise_append] at hap'
  obtain ⟨-, ⟨hapm, -, hafter⟩, hbefore⟩ := hap'
  have hcov := hbulk.cov
  rw [hlen] at hcov
  have hmid := remote_bulkStores st hB₀ hapm hbulk.ne mem payload hbulk.cov hwhole
  -- the blocks before and after are apart from those stored to
  have hpre : remote B (storeAll st (Rmem.bulkStores B (part addrs p m) mem payload size)) (addrs.take p) =
      remote B st (addrs.take p) := by
    refine remote_congr (fun b hb => read_storeAll_apart (fun w hw => ?_))
    obtain ⟨i, a, ha, -, hw⟩ := mem_bulkStores hB₀ hw
    exact ⟨a, (hbefore b hb a (List.mem_append_left _ (List.mem_of_getElem? ha))).symm, hw⟩
  have hpost : remote B (storeAll st (Rmem.bulkStores B (part addrs p m) mem payload size)) (addrs.drop (p + m)) =
      remote B st (addrs.drop (p + m)) := by
    refine remote_congr (fun b hb => read_storeAll_apart (fun w hw => ?_))
    obtain ⟨i, a, ha, -, hw⟩ := mem_bulkStores hB₀ hw
    exact ⟨a, hafter a (List.mem_of_getElem? ha) b hb, hw⟩
  rw [Shows, ← remote_place haddrs, hk, Nat.add_mul, Nat.add_mul, readBytes_add, readBytes_add,
    remote_parts B _ addrs p m, hpre, hmid, hpost, ← h₁, ← h₂, ← h₃, Nat.zero_add,
    readBytes_writeBytes_disjoint disk (Or.inr (Nat.le_of_eq (Nat.zero_add _))),
    readBytes_writeBytes_le disk _ (by rwa [length_readBytes]), length_readBytes,
    readBytes_writeBytes_disjoint disk (Or.inl (by rw [length_readBytes]; omega))]

/-- What `xmp_write` stores, wherever in its block `offset` is. -/
theorem xmpWrite_stores (hB₀ : 0 < B) (hc : Ready C memList c)
    (hblocks : offset.toNat / B + max 1 (len.toNat / B) ≤ memList.length)
    (hbulk : Bulk B (part c.addrs (offset.toNat / B) (max 1 (len.toNat / B))) len.toNat) (buf : Nat) :
    Runs (rmemNet B C alloc True) (xmpWrite B me c buf len offset) st (fun c' st' => Ready C memList c' ∧ st' =
      storeAll st (bulkStores B (part c.addrs (offset.toNat / B) (max 1 (len.toNat / B))) c.mem buf len.toNat)) := by
  have hlen : len.toUInt64.toNat = len.toNat := UInt32.toNat_toUInt64 len
  refine bulkAt_runs hc hblocks (Q := fun _ st' => st' = storeAll st (bulkStores B (part c.addrs (offset.toNat / B)
    (max 1 (len.toNat / B))) c.mem buf len.toNat)) ((writeBulkRmem_runs
    (c := ⟨c.targetIp, part c.addrs (offset.toNat / B) (max 1 (len.toNat / B)), c.mem⟩) hB₀
    (by rw [hlen]; exact hbulk.fit) buf hc.port hbulk.ne (by rw [hlen]; exact len.toNat_lt)
    (by rw [hlen]; exact hbulk.cov) (by rw [hlen]; exact hbulk.subids)).mono ?_)
  rintro r st' ⟨-, hport, haddrs, -, rfl⟩
  exact ⟨hport, haddrs, by rw [hlen]⟩

theorem xmpWrite_runs (hB₀ : 0 < B) (hap : memList.Pairwise (Apart B)) (hc : Ready C memList c)
    (h : Shows B memList st disk) (hin : offset.toNat + len.toNat ≤ memList.length * B)
    (hs : Served B memList (offset, len)) (buf : Nat) :
    Runs (rmemNet B C alloc True) (xmpWrite B me c buf len offset) st (fun c' st' => Ready C memList c' ∧
      Shows B memList st' (writeBytes disk offset.toNat (readBytes c.mem buf len.toNat))) := by
  have hblocks := blocks_le hB₀ hin hs.1
  have hbulk := hs.bulk hB₀ hc hin
  refine (xmpWrite_stores hB₀ hc hblocks hbulk buf).mono ?_
  rintro c' st' ⟨hc', rfl⟩
  refine ⟨hc', ?_⟩
  rw [(hs.start disk).2 _ (length_readBytes ..)]
  exact h.bulkStores hB₀ hap hc.addrs hblocks hbulk hs.whole

end Extent

/-- **Requests with extents that are served** are served as by a disk. -/
theorem asDisk_of_served (hB₀ : 0 < B) (hap : memList.Pairwise (Apart B)) : ∀ (qs : List Request) {disk : Nat → UInt8}
    {c : Caller} {st : UInt16 → Server}, Ready C memList c → Shows B memList st disk →
    (∀ q ∈ qs, Served B memList (q.offset, q.len) ∧ q.offset.toNat + q.len.toNat ≤ memList.length * B ∧
      q.chunk + q.len.toNat < 2 ^ 64) → AsDisk B C alloc me memList qs disk c st
  | [], _, _, _, _, _, _ => trivial
  | ⟨.read, offset, len, chunk, mem⟩ :: qs, disk, c, st, hc, h, hqs => by
    obtain ⟨hs, hin, hbuf⟩ := hqs _ List.mem_cons_self
    refine (xmpRead_runs (c := { c with mem := mem }) hB₀ ⟨hc.port, hc.addrs⟩ h hin hs hbuf).mono ?_
    rintro c' st' ⟨hc', hbytes, rfl⟩
    exact ⟨hbytes, asDisk_of_served hB₀ hap qs hc' h (fun q hq => hqs q (List.mem_cons_of_mem _ hq))⟩
  | ⟨.write, offset, len, chunk, mem⟩ :: qs, disk, c, st, hc, h, hqs => by
    obtain ⟨hs, hin, -⟩ := hqs _ List.mem_cons_self
    refine (xmpWrite_runs (c := { c with mem := mem }) hB₀ hap ⟨hc.port, hc.addrs⟩ h hin hs chunk).mono ?_
    rintro c' st' ⟨hc', h'⟩
    refine ⟨fun i hi hout => ?_, asDisk_of_served hB₀ hap qs hc' h' (fun q hq => hqs q (List.mem_cons_of_mem _ hq))⟩
    have hout : i < offset.toNat ∨ offset.toNat + len.toNat ≤ i := hout
    rw [h'.byteAt hi, h.byteAt hi]
    exact writeBytes_of_not_mem disk (by rw [length_readBytes]; omega)

/-! ## What a read fetches -/

/-- A bulk read of `size` bytes fetches the `j`th byte of the `i`th block it is given. -/
def Fetched (B size i j : Nat) : Prop :=
  if size ≤ B then i = 0 ∧ j < size % 2 ^ 16
  else i < size / B ∧ j < B % 2 ^ 16 ∨ i = 0 ∧ j < size % B % 2 ^ 16

theorem fetched_lt {size i j : Nat} (hB₀ : 0 < B) (h : Fetched B size i j) : j < B := by
  unfold Fetched at h
  split at h
  · omega
  · have := Nat.mod_lt size hB₀
    omega

/-- **If the last byte of an extent is fetched**, it begins and ends as one that is served. -/
theorem served_of_fetched {offset len i j : Nat} (hB₀ : 0 < B) (hlen : 0 < len) (h : Fetched B len i j)
    (hlast : (offset / B + i) * B + j = offset + len - 1) : B ∣ offset ∧ min len B < 2 ^ 16 ∧ (len ≤ B ∨ B ∣ len) := by
  have hoff := Nat.div_add_mod' offset B
  rw [Nat.add_mul] at hlast
  unfold Fetched at h
  split at h
  · next hle =>
    obtain ⟨rfl, hj⟩ := h
    refine ⟨Nat.dvd_of_mod_eq_zero (by omega), by omega, Or.inl hle⟩
  · next hgt =>
    have hdiv := Nat.div_add_mod' len B
    have hmod := Nat.mod_lt len hB₀
    rcases h with ⟨hi, hj⟩ | ⟨rfl, hj⟩
    · -- within the whole blocks: the last byte of the last of them
      have hiB := Nat.mul_le_mul_right B (show i + 1 ≤ len / B from hi)
      rw [Nat.succ_mul] at hiB
      refine ⟨Nat.dvd_of_mod_eq_zero (by omega), by omega, Or.inr (Nat.dvd_of_mod_eq_zero (by omega))⟩
    · have hB := Nat.mul_le_mul_right B (show 1 ≤ len / B from Nat.div_pos (by omega) hB₀)
      omega

/-! ## Reading zeros -/

section Blank

variable {α : Type} {Q : α → Conf Packet (UInt16 → Server) α → Prop} {d rc : List Packet}

/-- The first `n` bytes of the block are zero. -/
def Blank (st : UInt16 → Server) (n : Nat) (a : Ip6Memaddr) : Prop :=
  ∀ j < n, (st a.subid).mem (a.paddr.toNat + j) = 0

theorem eq_zero_of_bytes {m : Nat → UInt8} {p n : Nat} (hin : ∀ v ∈ readBytes m p n, v = 0)
    (hout : ∀ q, q < p ∨ p + n ≤ q → m q = 0) : m = fun _ => 0 := by
  funext q
  by_cases hq : q < p ∨ p + n ≤ q
  · exact hout q hq
  · obtain ⟨k, rfl⟩ := Nat.exists_eq_add_of_le (show p ≤ q by omega)
    exact hin _ (List.mem_map.2 ⟨k, List.mem_range.2 (by omega), rfl⟩)

theorem batchRead_blank {i n rxBuf : Nat} (hport : c.targetIp.port = C.port) (hmem : c.mem = fun _ => 0)
    (hin : i + n ≤ c.addrs.length) (hn : n ≤ batchSize) (hsub : ∀ a ∈ part c.addrs i n, a.subid.toNat < ushrtMax)
    (hbuf : rxBuf < 2 ^ 32) (hblank : ∀ a ∈ part c.addrs i n, Blank st (B % 2 ^ 16) a) :
    Runs (rmemNet B C alloc True) (c.batchRead B me i n rxBuf) st (fun c' st' => c' = c ∧ st' = st) := by
  have hlen := length_part hin
  have hBn : (UInt16.ofNat B).toNat = B % 2 ^ 16 := UInt16.toNat_ofNat'
  have hroom : n * (B % 2 ^ 16) ≤ batchSize * 2 ^ 16 := Nat.mul_le_mul hn (by omega)
  rw [Caller.batchRead, slice, if_pos hin]
  refine Runs.bind (Rmem.batchRead_runs B alloc True me c.mem rxBuf (UInt16.ofNat B) st hport
    (by rwa [← part, hlen]) hsub (by rw [← part, hlen, hBn]; unfold batchSize at hroom; omega)) ?_
  rintro mem' st' ⟨rfl, hbytes, hframe⟩
  have hzero : mem' = fun _ => 0 := by
    refine eq_zero_of_bytes (fun v hv => ?_) (fun q hq => (hframe q hq).trans (congrFun hmem q))
    rw [hbytes] at hv
    obtain ⟨block, hblock, hv⟩ := List.mem_flatten.1 hv
    obtain ⟨a, ha, rfl⟩ := List.mem_map.1 hblock
    obtain ⟨j, hj, rfl⟩ := List.mem_map.1 hv
    exact hblank a ha j (by rw [← hBn]; exact List.mem_range.1 hj)
  refine Runs.ret ⟨?_, rfl⟩
  rw [hzero, ← hmem]

/-- Full batches of zeros change nothing. -/
theorem readBatches_blank {f : Caller → Prog Packet α} (hport : c.targetIp.port = C.port) (hmem : c.mem = fun _ => 0) :
    ∀ (m k : Nat) (d rc : List Packet), (k + m) * batchSize ≤ c.addrs.length → (k + m) * batchSize < 2 ^ 32 →
    (∀ a ∈ part c.addrs (k * batchSize) (m * batchSize), Blank st (B % 2 ^ 16) a) →
    Ends (rmemNet B C alloc True) Q ⟨(readBatches B me 0 (List.range' k m) c).bind f, [], st, d, [], rc⟩ →
    (∀ a ∈ part c.addrs (k * batchSize) (m * batchSize), a.subid.toNat < ushrtMax) ∧
      ∃ d' rc', Ends (rmemNet B C alloc True) Q ⟨f c, [], st, d', [], rc'⟩
  | 0, k, d, rc, _, _, _, h => by
    rw [Nat.zero_mul, part, List.take_zero]
    exact ⟨fun _ ha => absurd ha List.not_mem_nil, d, rc, h⟩
  | m + 1, k, d, rc, hlen, h32, hblank, h => by
    have hk := batch_le k m
    have hsum : k + 1 + m = k + (m + 1) := by omega
    rw [part_succ] at hblank
    rw [List.range'_succ, readBatches, Nat.mod_eq_of_lt (by omega), Prog.bind_eq, Prog.bind_assoc] at h
    have hfirst := Caller.batchRead_subids (by omega) h
    obtain ⟨c₁, st₁, d₁, rc₁, ⟨hc₁, hst₁⟩, h₁⟩ := (batchRead_blank hport hmem (by omega) (Nat.le_refl _) hfirst
      (by omega) (fun a ha => hblank a (List.mem_append_left _ ha))).rest h
    rw [hc₁, hst₁] at h₁
    obtain ⟨hrest, hf⟩ := readBatches_blank hport hmem m (k + 1) d₁ rc₁ (by rw [hsum]; exact hlen)
      (by rw [hsum]; exact h32) (fun a ha => hblank a (List.mem_append_right _ ha)) h₁
    rw [part_succ]
    exact ⟨fun a ha => (List.mem_append.1 ha).elim (hfirst a) (hrest a), hf⟩

theorem readFirst_blank {a : Ip6Memaddr} {r : List Ip6Memaddr} (hport : c.targetIp.port = C.port)
    (hmem : c.mem = fun _ => 0) (ha : c.addrs = a :: r) (rxBuf : Nat) {len : UInt16} (hblank : Blank st len.toNat a) :
    Runs (rmemNet B C alloc True) (c.readFirst me rxBuf len) st (fun c' st' => c'.mem = (fun _ => 0) ∧ st' = st) := by
  rw [Caller.readFirst, ha]
  refine Runs.bind (readRmem_runs B alloc True me st hport a c.mem rxBuf len) ?_
  rintro ⟨ip, a', mem', n⟩ st' ⟨-, -, rfl, rfl⟩
  refine Runs.ret ⟨?_, rfl⟩
  have hbytes := readBytes_writeBytes c.mem rxBuf (readBytes (st' a.subid).mem a.paddr.toNat len.toNat)
  rw [length_readBytes] at hbytes
  refine eq_zero_of_bytes (p := rxBuf) (n := len.toNat) (fun v hv => ?_) (fun q hq => ?_)
  · rw [hbytes] at hv
    obtain ⟨j, hj, rfl⟩ := List.mem_map.1 hv
    exact hblank j (List.mem_range.1 hj)
  · exact (writeBytes_of_not_mem c.mem (by rw [length_readBytes]; omega)).trans (congrFun hmem q)

/-- The batches of a bulk read, if they fetch zeros only. -/
theorem readChunks_blank {n : Nat} {f : Caller → Prog Packet α} (hport : c.targetIp.port = C.port)
    (hmem : c.mem = fun _ => 0) (hn : n ≤ c.addrs.length) (hn32 : n < 2 ^ 32) (h32 : B * n < 2 ^ 32)
    (hchunk : ∀ a ∈ c.addrs.take n, Blank st (B % 2 ^ 16) a)
    (h : Ends (rmemNet B C alloc True) Q ⟨(readBatches B me 0 (List.range (n / batchSize % 2 ^ 32)) c).bind (fun c =>
      (c.batchRead B me (n - n % batchSize) (n % batchSize) (0 + B * (n - n % batchSize) % 2 ^ 64)).bind f),
      [], st, d, [], rc⟩) :
    (∀ a ∈ c.addrs.take n, a.subid.toNat < ushrtMax) ∧
      ∃ d' rc', Ends (rmemNet B C alloc True) Q ⟨f c, [], st, d', [], rc'⟩ := by
  have hoff : n / batchSize * batchSize = n - n % batchSize := Nat.div_mul_self_eq_mod_sub_self
  have hsum : n - n % batchSize + n % batchSize = n := Nat.sub_add_cancel (Nat.mod_le ..)
  have hdiv : n / batchSize < 2 ^ 32 := Nat.lt_of_le_of_lt (Nat.div_le_self ..) hn32
  have hptr : B * (n - n % batchSize) < 2 ^ 32 := Nat.lt_of_le_of_lt (Nat.mul_le_mul_left B (Nat.sub_le ..)) h32
  rw [take_eq_parts] at hchunk ⊢
  rw [Nat.mod_eq_of_lt hdiv, List.range_eq_range'] at h
  obtain ⟨hfull, d₁, rc₁, h₁⟩ := readBatches_blank hport hmem (n / batchSize) 0 d rc
    (by rw [Nat.zero_add, hoff]; omega) (by rw [Nat.zero_add, hoff]; omega)
    (fun a ha => hchunk a (List.mem_append_left _ ha)) h
  have hlast := Caller.batchRead_subids (by rw [hsum]; exact hn) h₁
  obtain ⟨c₂, st₂, d₂, rc₂, ⟨rfl, rfl⟩, h₂⟩ := (batchRead_blank hport hmem (by rw [hsum]; exact hn)
    (Nat.le_of_lt (Nat.mod_lt _ (by decide))) hlast (by omega)
    (fun a ha => hchunk a (List.mem_append_right _ ha))).rest h₁
  exact ⟨fun a ha => (List.mem_append.1 ha).elim (hfull a) (hlast a), d₂, rc₂, h₂⟩

/-- **A bulk read that fetches zeros only leaves a zeroed memory so.** -/
theorem readBulkRmem_blank {size : UInt64} {f : Caller × Exit → Prog Packet α}
    (hport : c.targetIp.port = C.port) (hmem : c.mem = fun _ => 0) (hne : c.addrs ≠ [])
    (hchunks : size.toNat / B ≤ c.addrs.length) (hsize : size.toNat < 2 ^ 32)
    (hblank : ∀ i j a, c.addrs[i]? = some a → Fetched B size.toNat i j → (st a.subid).mem (a.paddr.toNat + j) = 0)
    (h : Ends (rmemNet B C alloc True) Q ⟨(readBulkRmem B me c 0 size).bind f, [], st, d, [], rc⟩) :
    (B < size.toNat → ∀ a ∈ c.addrs.take (size.toNat / B), a.subid.toNat < ushrtMax) ∧
      ∃ r d' rc', r.1.mem = (fun _ => 0) ∧ Ends (rmemNet B C alloc True) Q ⟨f r, [], st, d', [], rc'⟩ := by
  obtain ⟨a, r, ha⟩ := List.exists_cons_of_ne_nil hne
  have ha₀ : c.addrs[0]? = some a := by rw [ha]; rfl
  unfold Fetched at hblank
  unfold readBulkRmem at h
  by_cases hle : size.toNat ≤ B
  · simp only [if_pos hle, Prog.bind_eq, Prog.bind_assoc] at h hblank
    have hfirst : Blank st size.toUInt16.toNat a := fun j hj =>
      hblank 0 j a ha₀ ⟨rfl, by rwa [UInt64.toNat_toUInt16] at hj⟩
    obtain ⟨c₁, st₁, d₁, rc₁, ⟨hmem₁, rfl⟩, h₁⟩ := (readFirst_blank hport hmem ha 0 hfirst).rest h
    exact ⟨fun hlt => absurd hle (Nat.not_le.2 hlt), _, d₁, rc₁, hmem₁, h₁⟩
  · simp only [if_neg hle] at hblank
    generalize hn : size.toNat / B = n at *
    have hn32 : n < 2 ^ 32 := by
      rw [← hn]
      exact Nat.lt_of_le_of_lt (Nat.div_le_self ..) hsize
    have h32 : B * n < 2 ^ 32 := by
      rw [← hn]
      exact Nat.lt_of_le_of_lt (Nat.mul_div_le ..) hsize
    have hchunk : ∀ a ∈ c.addrs.take n, Blank st (B % 2 ^ 16) a := by
      intro a ha j hj
      obtain ⟨i, hi⟩ := List.getElem?_of_mem ha
      rw [List.getElem?_take] at hi
      split at hi
      · next hin => exact hblank i j a hi (Or.inl ⟨hin, hj⟩)
      · cases hi
    simp only [if_neg hle, if_neg (Nat.not_lt.2 hchunks), Prog.bind_eq, Prog.bind_assoc] at h
    obtain ⟨hsub, d₂, rc₂, h₂⟩ := readChunks_blank hport hmem hchunks hn32 h32 hchunk h
    refine ⟨fun _ => hsub, ?_⟩
    split at h₂
    · have hfirst : Blank st (UInt16.ofNat (size.toNat % B)).toNat a := fun j hj =>
        hblank 0 j a ha₀ (Or.inr ⟨rfl, by rwa [UInt16.toNat_ofNat'] at hj⟩)
      rw [Prog.bind_assoc] at h₂
      obtain ⟨c₃, st₃, d₃, rc₃, ⟨hmem₃, rfl⟩, h₃⟩ := (readFirst_blank hport hmem ha _ hfirst).rest h₂
      exact ⟨_, d₃, rc₃, hmem₃, h₃⟩
    · exact ⟨_, d₂, rc₂, hmem, h₂⟩

theorem xmpRead_blank {Q : Caller → Conf Packet (UInt16 → Server) Caller → Prop} {offset : UInt64} {len : UInt32}
    (hB₀ : 0 < B) (hport : c.targetIp.port = C.port) (hmem : c.mem = fun _ => 0)
    (hblank : ∀ i j a, c.addrs[offset.toNat / B + i]? = some a → Fetched B len.toNat i j →
      (st a.subid).mem (a.paddr.toNat + j) = 0)
    (h : Ends (rmemNet B C alloc True) Q ⟨xmpRead B me c 0 len offset, [], st, d, [], rc⟩) :
    offset.toNat < c.addrs.length * B ∧
    (B < len.toNat → ∀ a ∈ part c.addrs (offset.toNat / B) (len.toNat / B), a.subid.toNat < ushrtMax) ∧
    ∃ c' conf, c'.mem = (fun _ => 0) ∧ Q c' conf := by
  have hlen : len.toUInt64.toNat = len.toNat := UInt32.toNat_toUInt64 len
  unfold xmpRead bulkAt slice at h
  by_cases hin : offset.toNat / B + max 1 (len.toNat / B) ≤ c.addrs.length
  · rw [if_pos hin] at h
    have hpart := length_part hin
    have hpart₀ : ∀ i j a, (part c.addrs (offset.toNat / B) (max 1 (len.toNat / B)))[i]? = some a →
        Fetched B len.toUInt64.toNat i j → (st a.subid).mem (a.paddr.toNat + j) = 0 := by
      intro i j a ha hf
      rw [part, List.getElem?_take] at ha
      split at ha
      · rw [List.getElem?_drop] at ha
        exact hblank i j a ha (hlen ▸ hf)
      · cases ha
    obtain ⟨hsub, ⟨c', e⟩, d', rc', hmem', h'⟩ := readBulkRmem_blank
      (c := ⟨c.targetIp, part c.addrs (offset.toNat / B) (max 1 (len.toNat / B)), c.mem⟩) hport hmem
      (by rw [← List.length_pos_iff, hpart]; omega) (by rw [hpart, hlen]; exact Nat.le_max_right ..)
      (by rw [hlen]; exact len.toNat_lt) hpart₀ h
    rw [hlen, part, List.take_take, Nat.min_eq_left (Nat.le_max_right ..), ← part] at hsub
    refine ⟨(Nat.div_lt_iff_lt_mul hB₀).1 (by omega), hsub, _, _, ?_, h'.of_ret rfl⟩
    exact hmem'
  · rw [if_neg hin] at h
    exact absurd h (not_ends_fail rfl)

end Blank

/-! ## Extents that are not -/

/-- Servers with just the blocks. -/
def blocksOnly (B : Nat) (memList : List Ip6Memaddr) (mem : UInt16 → Nat → UInt8) : UInt16 → Server := fun s =>
  ⟨mem s, memList.map (fun a => (a.paddr.toNat, B))⟩

theorem live_blocksOnly (memList : List Ip6Memaddr) (mem : UInt16 → Nat → UInt8) :
    Live B memList (blocksOnly B memList mem) :=
  fun _ ha => ⟨_, List.mem_map_of_mem ha, Nat.le_refl _, Nat.le_refl _⟩

/-- The last byte of an extent that does not begin and end so is in no byte fetched. -/
theorem not_fetched_last (hap : memList.Pairwise (Apart B)) {offset len b k : Nat} {x : Ip6Memaddr} (hB₀ : 0 < B)
    (hx : memList[b]? = some x) (hk : k < B) (hlen : 0 < len) (hlast : b * B + k = offset + len - 1)
    (hbad : ¬ (B ∣ offset ∧ min len B < 2 ^ 16 ∧ (len ≤ B ∨ B ∣ len))) {i j : Nat} {a : Ip6Memaddr}
    (ha : memList[offset / B + i]? = some a) (hf : Fetched B len i j) :
    ¬ (a.subid = x.subid ∧ a.paddr.toNat + j = x.paddr.toNat + k) := by
  rintro ⟨hs, hp⟩
  have hj := fetched_lt hB₀ hf
  by_cases hib : offset / B + i = b
  · subst hib
    cases ha.symm.trans hx
    exact hbad (served_of_fetched hB₀ hlen hf (by omega))
  · rcases apart_of_getElem? hap ha hx hib with hapart | hapart | hapart
    · exact hapart hs
    · omega
    · omega

theorem served_of_serves (hB₀ : 0 < B) (hap : memList.Pairwise (Apart B)) {extents : Set (UInt64 × UInt32)}
    (h : Serves B C alloc me memList extents) {offset : UInt64} {len : UInt32} (he : (offset, len) ∈ extents)
    (hin : offset.toNat + len.toNat ≤ memList.length * B) : Served B memList (offset, len) := by
  -- reads into zeroed memory
  have hread : ∀ mem : UInt16 → Nat → UInt8, Runs (rmemNet B C alloc True)
      (xmpRead B me ⟨⟨me.addr, C.port⟩, memList, fun _ => 0⟩ 0 len offset) (blocksOnly B memList mem) (fun c' _ =>
        readBytes c'.mem 0 len.toNat =
          readBytes (byteAt B memList (blocksOnly B memList mem)) offset.toNat len.toNat) := by
    intro mem
    have hrun : AsDisk B C alloc me memList [⟨.read, offset, len, 0, fun _ => 0⟩] _ _ _ :=
      h ⟨me.addr, C.port⟩ (fun _ => 0) (blocksOnly B memList mem) _ rfl (live_blocksOnly memList mem) (fun q hq => by
        cases List.mem_singleton.1 hq
        exact ⟨he, by rw [Nat.zero_add]; exact Nat.lt_trans len.toNat_lt (by decide)⟩)
    exact hrun.mono (fun _ _ hpost => hpost.1)
  obtain ⟨hoff, hsub, -⟩ := xmpRead_blank hB₀ rfl rfl (fun _ _ _ _ _ => rfl) (hread (fun _ _ => 0) [] [])
  refine ⟨hoff, ?_⟩
  by_cases h0 : len.toNat = 0
  · exact Or.inl h0
  · -- the last byte is 1, all others are 0
    have hlast : (offset.toNat + len.toNat - 1) / B < memList.length := (Nat.div_lt_iff_lt_mul hB₀).2 (by omega)
    have hmod := Nat.mod_lt (offset.toNat + len.toNat - 1) hB₀
    have hsplit := Nat.div_add_mod' (offset.toNat + len.toNat - 1) B
    generalize (offset.toNat + len.toNat - 1) / B = b at *
    generalize (offset.toNat + len.toNat - 1) % B = k at *
    obtain ⟨x, hx⟩ : ∃ x, memList[b]? = some x := ⟨_, List.getElem?_eq_getElem hlast⟩
    have hgeom : B ∣ offset.toNat ∧ min len.toNat B < 2 ^ 16 ∧ (len.toNat ≤ B ∨ B ∣ len.toNat) := by
      by_contra hbad
      have hblank : ∀ i j a, memList[offset.toNat / B + i]? = some a → Fetched B len.toNat i j →
          (if a.subid = x.subid ∧ a.paddr.toNat + j = x.paddr.toNat + k then 1 else 0 : UInt8) = 0 :=
        fun i j a ha hf => if_neg (not_fetched_last hap hB₀ hx hmod (by omega) hsplit hbad ha hf)
      obtain ⟨-, -, c', conf, hmem, -, -, hbytes⟩ := xmpRead_blank hB₀ rfl rfl hblank
        (hread (fun s q => if s = x.subid ∧ q = x.paddr.toNat + k then 1 else 0) [] [])
      have hbyte := congrArg (·.getD (len.toNat - 1) 0) hbytes
      simp only [getD_readBytes _ _ (show len.toNat - 1 < len.toNat by omega), hmem] at hbyte
      rw [show offset.toNat + (len.toNat - 1) = b * B + k by omega, byteAt_block _ _ hx hmod] at hbyte
      simp [blocksOnly] at hbyte
    obtain ⟨hdvd, hfit, hwhole⟩ := hgeom
    refine Or.inr ⟨hdvd, hfit, ?_⟩
    by_cases hle : len.toNat ≤ B
    · exact Or.inl hle
    · exact Or.inr ⟨hwhole.resolve_left hle, fun a ha => Nat.le_of_lt_succ (hsub (Nat.lt_of_not_le hle) a ha)⟩

/-- **The device serves requests as a disk exactly if each has an extent that is served.** -/
theorem serves_iff (hB₀ : 0 < B) (hap : memList.Pairwise (Apart B)) (extents : Set (UInt64 × UInt32))
    (hin : ∀ e ∈ extents, e.1.toNat + e.2.toNat ≤ memList.length * B) :
    Serves B C alloc me memList extents ↔ ∀ e ∈ extents, Served B memList e := by
  constructor
  · intro h e he
    exact served_of_serves hB₀ hap h he (hin e he)
  · intro h targetIp mem st qs hport _ hqs
    refine asDisk_of_served hB₀ hap qs ⟨hport, rfl⟩ (shows_byteAt B memList st) (fun q hq => ?_)
    exact ⟨h _ (hqs q hq).1, hin _ (hqs q hq).1, (hqs q hq).2⟩

/-- A device of two blocks of two bytes, used block by block and as a whole. -/
theorem serves_iff_two_blocks :
    Serves 2 plainCluster (fun _ _ => 0) ⟨⟨9, 0, 0, 0⟩, 6000⟩ [⟨1, 0, 0, 0⟩, ⟨2, 0, 0, 0⟩]
      {(0, 2), (2, 1), (0, 4)} := by
  refine (serves_iff (by decide) (by unfold Apart; decide) _ ?_).2 ?_
  · rintro e (rfl | rfl | rfl) <;> decide
  · rintro e (rfl | rfl | rfl) <;> decide

/-- Writing 7 at the offset 1: it is in the byte before. -/
theorem xmpWrite_misplaces :
    ∃ c conf, Reach (rmemNet 2 plainCluster (fun _ _ => 0) True)
        (start (xmpWrite 2 ⟨⟨9, 0, 0, 0⟩, 6000⟩ ⟨⟨⟨1, 0, 0, 0⟩, 5000⟩, [⟨1, 0, 0, 0⟩, ⟨2, 0, 0, 0⟩], fun _ => 7⟩ 0 1 1)
          (fun _ => ⟨fun _ => 0, [(0, 2)]⟩)) conf ∧ conf.prog = .ret c ∧
      (List.range 4).map (byteAt 2 [⟨1, 0, 0, 0⟩, ⟨2, 0, 0, 0⟩] conf.srv) = [7, 0, 0, 0] := by
  have hruns := @xmpWrite_stores 2 plainCluster (fun _ _ => 0) ⟨⟨9, 0, 0, 0⟩, 6000⟩ [⟨1, 0, 0, 0⟩, ⟨2, 0, 0, 0⟩]
    (fun _ => ⟨fun _ => 0, [(0, 2)]⟩) ⟨⟨⟨1, 0, 0, 0⟩, 5000⟩, [⟨1, 0, 0, 0⟩, ⟨2, 0, 0, 0⟩], fun _ => 7⟩ 1 1 (by decide)
    ⟨rfl, rfl⟩ (by decide) ⟨by decide, by decide, by decide, by decide⟩ 0
  obtain ⟨c, conf, hreach, hret, -, -, -, hsrv⟩ := (hruns [] []).returns
  exact ⟨c, conf, hreach, hret, by rw [hsrv]; decide⟩

end Disk
end Bb
