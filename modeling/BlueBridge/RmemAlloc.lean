import BlueBridge.RmemBatch
/-!
# RmemAlloc — bulk allocation (`allocate_bulk_rmem`, `allocate_uniform_rmem`, `allocate_mem_bulk`)

The client asks for a number of blocks and takes the answer for that many blocks of `BLOCK_SIZE` bytes; the server takes
the number for a number of bytes.  The two agree exactly if `BLOCK_SIZE` is 1 (`allocateBulk_reserved_iff`).
-/
namespace Bb
namespace Rmem

open Bytes Wire
open Function (update update_self)

/-! ## Regions -/

/-- A region is its first byte and its length. -/
def Within (r s : Nat × Nat) : Prop := s.1 ≤ r.1 ∧ r.1 + r.2 ≤ s.1 + s.2

def Disj (r s : Nat × Nat) : Prop := r.1 + r.2 ≤ s.1 ∨ s.1 + s.2 ≤ r.1

theorem Disj.mono {r r' s : Nat × Nat} (h : Disj r s) (hr : Within r' r) : Disj r' s := by
  unfold Within at hr
  unfold Disj at h ⊢
  omega

/-- The bytes are of a region that `calloc` has handed out.  `process_request` does not look: at other bytes what it does
is undefined. -/
def Server.Reserves (h : Server) (r : Nat × Nat) : Prop := ∃ l ∈ h.live, Within r l

/-- What `calloc` promises of the region it returns: inside the address space, not at the null pointer, apart from every
live region. -/
structure Fresh (live : List (Nat × Nat)) (r : Nat × Nat) : Prop where
  not_null : 0 < r.1
  fits : r.1 + r.2 ≤ 2 ^ 64
  apart : ∀ l ∈ live, Disj r l

/-- The bytes a client address of `n` bytes denotes. -/
def Ip6Memaddr.range (a : Ip6Memaddr) (n : Nat) : Nat × Nat := (a.paddr.toNat, n)

/-- `n` bytes at `a` are the client's: on server `s`, inside the region reserved and apart from what was live. -/
structure Owned (s : UInt16) (live : List (Nat × Nat)) (reg : Nat × Nat) (n : Nat) (a : Ip6Memaddr) : Prop where
  subid : a.subid = s
  within : Within (a.range n) reg
  apart : ∀ l ∈ live, Disj (a.range n) l

/-! ## The request -/

section Request

variable {B : Nat} {C : Cluster} {alloc : Server → Nat → UInt64} {fifo : Prop} {me targetIp : SockaddrIn6} {n : UInt64}
  {st : UInt16 → Server}

/-- The servers after a request for `size` bytes. -/
def reserved (alloc : Server → Nat → UInt64) (st : UInt16 → Server) (s : UInt16) (size : Nat) : UInt16 → Server :=
  update st s ((st s).calloc (alloc (st s) size) size)

/-- The packet both functions send. -/
def allocBulkPkt (me targetIp : SockaddrIn6) (n : UInt64) : Packet :=
  preparePacket me ⟨{ targetIp.addr with cmd := allocBulkCmd }, targetIp.port, bytes64 n⟩

def allocBulkReply (C : Cluster) (me : SockaddrIn6) (s : UInt16) (p : UInt64) : Packet :=
  preparePacket ⟨C.addr s, C.port⟩ ⟨returnID me allocBulkCmd p, me.port, []⟩

/-- What `allocate_mem_bulk` reserves for a request of `n`: a zero is taken for a one. -/
def bulkSize (n : UInt64) : Nat := if n = 0 then 1 else n.toNat

theorem handlePacket_bulkSize (B : Nat) (hport : targetIp.port = C.port) :
    handlePacket B C alloc st (allocBulkPkt me targetIp n) =
      (reserved alloc st targetIp.addr.subid (bulkSize n),
        [allocBulkReply C me targetIp.addr.subid (alloc (st targetIp.addr.subid) (bulkSize n))]) := by
  rw [handlePacket, if_pos (show (allocBulkPkt me targetIp n).dst.port = C.port from hport)]
  have hcmd : (allocBulkPkt me targetIp n).dst.addr.cmd = allocBulkCmd := rfl
  have hdata : le64 (allocBulkPkt me targetIp n).data = n := le64_bytes64 n
  simp only [processRequest, hcmd, hdata, allocateMemBulk,
    if_neg (show ¬ allocBulkCmd = writeCmd by decide), if_neg (show ¬ allocBulkCmd = writeBulkCmd by decide),
    if_neg (show ¬ allocBulkCmd = readCmd by decide), if_neg (show ¬ allocBulkCmd = readBulkCmd by decide),
    if_neg (show ¬ allocBulkCmd = freeCmd by decide), if_neg (show ¬ allocBulkCmd = allocCmd by decide), if_true]
  rfl

theorem handlePacket_allocBulk (B : Nat) (hport : targetIp.port = C.port) (hn : n ≠ 0) :
    handlePacket B C alloc st (allocBulkPkt me targetIp n) =
      (reserved alloc st targetIp.addr.subid n.toNat,
        [allocBulkReply C me targetIp.addr.subid (alloc (st targetIp.addr.subid) n.toNat)]) := by
  rw [handlePacket_bulkSize B hport, bulkSize, if_neg hn]

/-- The address the answer is taken for. -/
def baseAddr (C : Cluster) (me : SockaddrIn6) (s : UInt16) (p : UInt64) : Ip6Memaddr :=
  { returnID me allocBulkCmd p with subid := (C.addr s).subid }

theorem allocateUniformRmem_runs (hport : targetIp.port = C.port) (hn : n ≠ 0) :
    Runs (rmemNet B C alloc fifo) (allocateUniformRmem me targetIp n) st (fun r st' => r.1.port = C.port ∧
      r.2 = ⟨baseAddr C me targetIp.addr.subid (alloc (st targetIp.addr.subid) n.toNat), n, 0⟩ ∧
      st' = reserved alloc st targetIp.addr.subid n.toNat) := by
  have hserve : (rmemNet B C alloc fifo).serve st (allocBulkPkt me targetIp n) = _ :=
    handlePacket_allocBulk B hport hn
  refine (runs_request (fun p : Packet => (p.src, (⟨{ p.dst.addr with subid := p.src.addr.subid }, n, 0⟩ :
    Ip6MemaddrBlock))) hserve).mono ?_
  rintro r st' ⟨rfl, rfl⟩
  exact ⟨rfl, rfl, rfl⟩

/-- The `i`th address of the list the client builds from one pointer. -/
def blockAddr (B : Nat) (base : Ip6Memaddr) (i : Nat) : Ip6Memaddr :=
  { base with paddr := base.paddr + UInt64.ofNat (i * B) }

def bulkAddrs (B : Nat) (base : Ip6Memaddr) (n : Nat) : List Ip6Memaddr := (List.range n).map (blockAddr B base)

theorem allocateBulkRmem_eq (hmalloc : n.toNat * 16 < 2 ^ 64) : allocateBulkRmem B me targetIp n =
    request (allocBulkPkt me targetIp n) (fun p : Packet =>
      (p.src, bulkAddrs B { p.dst.addr with subid := p.src.addr.subid } n.toNat)) := by
  unfold allocateBulkRmem
  simp only [if_pos hmalloc]
  rfl

theorem allocateBulkRmem_runs (hport : targetIp.port = C.port) (hn : n ≠ 0) (hmalloc : n.toNat * 16 < 2 ^ 64) :
    Runs (rmemNet B C alloc fifo) (allocateBulkRmem B me targetIp n) st (fun r st' =>
      r.2 = bulkAddrs B (baseAddr C me targetIp.addr.subid (alloc (st targetIp.addr.subid) n.toNat)) n.toNat ∧
      st' = reserved alloc st targetIp.addr.subid n.toNat) := by
  have hserve : (rmemNet B C alloc fifo).serve st (allocBulkPkt me targetIp n) = _ :=
    handlePacket_allocBulk B hport hn
  rw [allocateBulkRmem_eq hmalloc]
  refine (runs_request _ hserve).mono ?_
  rintro r st' ⟨rfl, rfl⟩
  exact ⟨rfl, rfl⟩

/-- A list too long for `malloc` is written past its end. -/
theorem not_runs_allocateBulkRmem {Q : SockaddrIn6 × List Ip6Memaddr → (UInt16 → Server) → Prop}
    (hport : targetIp.port = C.port) (hn : n ≠ 0) (hmalloc : ¬ n.toNat * 16 < 2 ^ 64) :
    ¬ Runs (rmemNet B C alloc fifo) (allocateBulkRmem B me targetIp n) st Q := by
  intro h
  have hserve : (rmemNet B C alloc fifo).serve st (allocBulkPkt me targetIp n) = _ :=
    handlePacket_allocBulk B hport hn
  have heq : allocateBulkRmem B me targetIp n =
      (request (allocBulkPkt me targetIp n) (fun p : Packet => p)).bind (fun _ => .fail) := by
    unfold allocateBulkRmem
    simp only [if_neg hmalloc]
    rfl
  rw [heq] at h
  obtain ⟨_, _, _, _, -, hfail⟩ := (runs_request (fun p : Packet => p) hserve).rest (h [] [])
  exact not_ends_fail rfl hfail

theorem live_reserved (alloc : Server → Nat → UInt64) (st : UInt16 → Server) (s : UInt16) (size : Nat) :
    (reserved alloc st s size s).live = ((alloc (st s) size).toNat, size) :: (st s).live := by
  rw [reserved, update_self]
  rfl

end Request

/-! ## What the client gets -/

/-- **`allocate_bulk_rmem` gives memory the server reserved**: as many addresses as asked for, and if `calloc` kept its
promise, each block is the client's and no two overlap. -/
def BulkReserved (B : Nat) (C : Cluster) (n : UInt64) : Prop :=
  ∀ (alloc : Server → Nat → UInt64) (fifo : Prop) (me targetIp : SockaddrIn6) (st : UInt16 → Server),
    targetIp.port = C.port →
    Runs (rmemNet B C alloc fifo) (allocateBulkRmem B me targetIp n) st (fun r st' => r.2.length = n.toNat ∧
      ∃ reg, (st' targetIp.addr.subid).live = reg :: (st targetIp.addr.subid).live ∧
        (Fresh (st targetIp.addr.subid).live reg →
          (∀ a ∈ r.2, Owned targetIp.addr.subid (st targetIp.addr.subid).live reg B a) ∧
          r.2.Pairwise (fun a b => Disj (a.range B) (b.range B))))

/-- **`allocate_uniform_rmem` gives memory the server reserved.** -/
def UniformReserved (B : Nat) (C : Cluster) (n : UInt64) : Prop :=
  ∀ (alloc : Server → Nat → UInt64) (fifo : Prop) (me targetIp : SockaddrIn6) (st : UInt16 → Server),
    targetIp.port = C.port →
    Runs (rmemNet B C alloc fifo) (allocateUniformRmem me targetIp n) st (fun r st' => r.2.length = n ∧
      ∃ reg, (st' targetIp.addr.subid).live = reg :: (st targetIp.addr.subid).live ∧
        (Fresh (st targetIp.addr.subid).live reg →
          Owned targetIp.addr.subid (st targetIp.addr.subid).live reg (r.2.length.toNat * B) r.2.memaddr))

theorem Fresh.owned {live : List (Nat × Nat)} {reg : Nat × Nat} {s : UInt16} {n : Nat} {a : Ip6Memaddr}
    (h : Fresh live reg) (hs : a.subid = s) (hw : Within (a.range n) reg) : Owned s live reg n a :=
  ⟨hs, hw, fun l hl => (h.apart l hl).mono hw⟩

theorem range_blockAddr {B i : Nat} {base : Ip6Memaddr} (h : base.paddr.toNat + i * B < 2 ^ 64) :
    (blockAddr B base i).range B = (base.paddr.toNat + i * B, B) := by
  have hi : (UInt64.ofNat (i * B)).toNat = i * B :=
    UInt64.toNat_ofNat_of_lt' (Nat.lt_of_le_of_lt (Nat.le_add_left ..) h)
  unfold Ip6Memaddr.range blockAddr
  rw [UInt64.toNat_add, hi, Nat.mod_eq_of_lt h]

theorem bulkReserved_of_one {C : Cluster} {n : UInt64} (hn : n ≠ 0) (hmalloc : n.toNat * 16 < 2 ^ 64) :
    BulkReserved 1 C n := by
  intro alloc fifo me targetIp st hport
  refine (allocateBulkRmem_runs hport hn hmalloc).mono ?_
  rintro ⟨ip, addrs⟩ st' ⟨haddrs, rfl⟩
  subst haddrs
  refine ⟨by simp [bulkAddrs], _, live_reserved .., fun hfresh => ?_⟩
  generalize hbase : baseAddr C me targetIp.addr.subid (alloc (st targetIp.addr.subid) n.toNat) = base
  have hpaddr : base.paddr = alloc (st targetIp.addr.subid) n.toNat := by rw [← hbase]; rfl
  have hsubid : base.subid = targetIp.addr.subid := by rw [← hbase]; exact C.subid_addr _
  have hfits := hfresh.fits
  rw [← hpaddr] at hfresh hfits ⊢
  have hrange : ∀ i, i < n.toNat → (blockAddr 1 base i).range 1 = (base.paddr.toNat + i * 1, 1) := fun i hi =>
    range_blockAddr (by simp only at hfits; omega)
  constructor
  · intro a ha
    obtain ⟨i, hi, rfl⟩ := List.mem_map.1 ha
    have hi := List.mem_range.1 hi
    apply hfresh.owned (show (blockAddr 1 base i).subid = _ from hsubid)
    rw [hrange i hi]
    unfold Within
    omega
  · apply List.pairwise_map.2
    refine List.pairwise_lt_range.imp_of_mem (fun {i j} hi hj hij => ?_)
    rw [hrange i (List.mem_range.1 hi), hrange j (List.mem_range.1 hj)]
    unfold Disj
    omega

theorem uniformReserved_of_one {C : Cluster} {n : UInt64} (hn : n ≠ 0) : UniformReserved 1 C n := by
  intro alloc fifo me targetIp st hport
  refine (allocateUniformRmem_runs hport hn).mono ?_
  rintro ⟨ip, blk⟩ st' ⟨-, hblk, rfl⟩
  subst hblk
  refine ⟨rfl, _, live_reserved .., fun hfresh => hfresh.owned (C.subid_addr _) ?_⟩
  unfold Within Ip6Memaddr.range
  simp only [baseAddr, returnID]
  omega

/-! ## What it does not get -/

/-- A client with the whole heap of its servers to itself, where `calloc` returns address 1. -/
theorem fresh_one {n : UInt64} : Fresh [] ((1 : UInt64).toNat, n.toNat) := by
  have := n.toNat_lt
  exact ⟨Nat.one_pos, by simp only [UInt64.toNat_one]; omega, fun l hl => by cases hl⟩

theorem one_of_bulkReserved {B : Nat} {C : Cluster} {n : UInt64} (hB : 0 < B) (hn : n ≠ 0) (h : BulkReserved B C n) :
    B = 1 ∧ n.toNat < 2 ^ 60 := by
  have hruns := h (fun _ _ => 1) True ⟨⟨0, 0, 0, 0⟩, 0⟩ ⟨⟨0, 0, 0, 0⟩, C.port⟩ (fun _ => ⟨fun _ => 0, []⟩) rfl
  have hmalloc : n.toNat * 16 < 2 ^ 64 := by
    by_contra hbad
    exact not_runs_allocateBulkRmem rfl hn hbad hruns
  refine ⟨?_, by omega⟩
  obtain ⟨⟨ip, addrs⟩, st', ⟨-, reg, hreg, hown⟩, ⟨haddrs, rfl⟩⟩ :=
    hruns.both (allocateBulkRmem_runs rfl hn hmalloc)
  rw [live_reserved] at hreg
  cases hreg
  subst haddrs
  obtain ⟨hall, -⟩ := hown fresh_one
  -- the block that begins at or before the last byte of the region, and ends after it
  have hin : ∀ i, i < n.toNat → 1 + i * B < 2 ^ 64 → i * B + B ≤ n.toNat := by
    intro i hi hfits
    have hw := (hall _ (List.mem_map.2 ⟨i, List.mem_range.2 hi, rfl⟩)).within
    rw [range_blockAddr hfits] at hw
    have := hw.2
    simp only [baseAddr, returnID] at this
    omega
  by_contra hne
  have hn₀ : 0 < n.toNat := Nat.pos_of_ne_zero (fun h => hn (UInt64.toNat_inj.1 h))
  have hle : B ≤ n.toNat := by have := hin 0 hn₀ (by omega); omega
  have hdiv : n.toNat / B < n.toNat := Nat.div_lt_self hn₀ (by omega)
  have hmul : n.toNat / B * B ≤ n.toNat := Nat.div_mul_le_self ..
  have hlast := hin (n.toNat / B) hdiv (by omega)
  have := Nat.lt_div_mul_add hB (a := n.toNat)
  omega

theorem one_of_uniformReserved {B : Nat} {C : Cluster} {n : UInt64} (hB : 0 < B) (hn : n ≠ 0)
    (h : UniformReserved B C n) : B = 1 := by
  have hruns := h (fun _ _ => 1) True ⟨⟨0, 0, 0, 0⟩, 0⟩ ⟨⟨0, 0, 0, 0⟩, C.port⟩ (fun _ => ⟨fun _ => 0, []⟩) rfl
  obtain ⟨⟨ip, blk⟩, st', ⟨-, reg, hreg, hown⟩, ⟨-, hblk, rfl⟩⟩ := hruns.both (allocateUniformRmem_runs rfl hn)
  rw [live_reserved] at hreg
  cases hreg
  subst hblk
  have hw := (hown fresh_one).within.2
  have hn₀ : 0 < n.toNat := Nat.pos_of_ne_zero (fun h => hn (UInt64.toNat_inj.1 h))
  simp only [Ip6Memaddr.range, baseAddr, returnID] at hw
  have : n.toNat * B ≤ n.toNat * 1 := by omega
  have := Nat.le_of_mul_le_mul_left this hn₀
  omega

/-- **Bulk allocation gives the client memory the server reserved exactly if blocks are single bytes** (and the address
list has a length `malloc` can be asked for). -/
theorem allocateBulk_reserved_iff {B : Nat} {C : Cluster} {n : UInt64} (hB : 0 < B) (hn : 0 < n.toNat) :
    (BulkReserved B C n ↔ B = 1 ∧ n.toNat < 2 ^ 60) ∧ (UniformReserved B C n ↔ B = 1) := by
  have hn' : n ≠ 0 := by
    rintro rfl
    exact absurd hn (by decide)
  constructor
  · constructor
    · exact one_of_bulkReserved hB hn'
    · rintro ⟨rfl, h60⟩
      exact bulkReserved_of_one hn' (by omega)
  · constructor
    · exact one_of_uniformReserved hB hn'
    · rintro rfl
      exact uniformReserved_of_one hn'

theorem allocateBulk_reserved_iff_one_byte : BulkReserved 1 plainCluster 8 ∧ UniformReserved 1 plainCluster 8 :=
  have h := allocateBulk_reserved_iff (C := plainCluster) (B := 1) (n := 8) (by decide) (by decide)
  ⟨h.1.2 ⟨rfl, by decide⟩, h.2.2 rfl⟩

/-- Blocks of two bytes: for one block the server reserves one byte, and the client's block reaches into the region
behind it. -/
theorem allocateBulkRmem_short :
    ∃ r c, Reach (rmemNet 2 plainCluster (fun _ _ => 10) True)
        (start (allocateBulkRmem 2 ⟨⟨9, 0, 0, 0⟩, 6000⟩ ⟨⟨1, 0, 0, 0⟩, 5000⟩ 1) (fun _ => ⟨fun _ => 0, [(11, 4)]⟩)) c ∧
      c.prog = .ret r ∧ (c.srv 1).live = [(10, 1), (11, 4)] ∧ r.2.map (·.range 2) = [(10, 2)] ∧
      ¬ Disj (10, 2) (11, 4) := by
  have hruns := @allocateBulkRmem_runs 2 plainCluster (fun _ _ => 10) True ⟨⟨9, 0, 0, 0⟩, 6000⟩ ⟨⟨1, 0, 0, 0⟩, 5000⟩ 1
    (fun _ => ⟨fun _ => 0, [(11, 4)]⟩) rfl (by decide) (by decide)
  obtain ⟨r, c, hc, hret, -, -, haddrs, hsrv⟩ := (hruns [] []).returns
  refine ⟨r, c, hc, hret, by rw [hsrv]; rfl, by rw [haddrs]; decide, ?_⟩
  unfold Disj
  decide

end Rmem
end Bb
