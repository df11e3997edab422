import BlueBridge.RmemBlocks
import BlueBridge.VmemProgram
import BlueBridge.VmemTraffic
/-!
# RmemStore — the virtual memory over remote memory (`ip6/lib/vmem/rmem.c`)

`rmem_read` and `rmem_write` name a block of the remote disk by its number and ask its server.  If the blocks of the
list share no byte, the disk is an array of blocks: whatever the network does, a call returns what the array has and
leaves the servers as the array is left (`rmemRead_runs`, `rmemWrite_runs`, `doCalls_runs`).  So the virtual memory may
use it (`remoteStore`).  Its state is the servers' own memory, and what a program has stored is there after a flush, for
anyone who knows the addresses (`remote_flush`).

`rmem_allocate` makes such a disk, but the servers reserve a byte for each block of it, so that its blocks are all
memory that `calloc` handed out exactly if they are single bytes (`remote_paging_iff`).
-/
namespace Bb
namespace RemoteDisk

open Bytes Wire Bb.Rmem Vmem
open Function (update update_self update_of_ne)

/-! ## The calls -/

section Client

variable (B : Nat) (me : SockaddrIn6)

/-- `rmem_read`, with the client's memory and the frame the block goes to. -/
def rmemRead (targetIp : SockaddrIn6) (r : Rmem) (block : Nat) (mem : Nat → UInt8) (data : Nat) :
    Prog Packet (SockaddrIn6 × Rmem × (Nat → UInt8)) :=
  if block ≥ r.nblocks then .fail
  else match r.memList[block]? with
  | some (some a) => do
    let (targetIp, a, mem, _) ← readRmem me targetIp a mem data (UInt16.ofNat r.blockSize)
    pure (targetIp, { r with memList := r.memList.set block (some a) }, mem)
  | _ => .fail

/-- `rmem_write`. -/
def rmemWrite (targetIp : SockaddrIn6) (r : Rmem) (block : Nat) (mem : Nat → UInt8) (data : Nat) :
    Prog Packet (SockaddrIn6 × Rmem) :=
  if block ≥ r.nblocks then .fail
  else match r.memList[block]? with
  | some (some a) => do
    let (targetIp, a) ← writeRmem me targetIp a mem data (UInt16.ofNat B)
    pure (targetIp, { r with memList := r.memList.set block (some a) })
  | _ => .fail

end Client

/-! ## The blocks as an array -/

/-- Addresses of `n` blocks that share no byte. -/
structure Blocks (B n : Nat) where
  addrs : List Ip6Memaddr
  length : addrs.length = n
  apart : addrs.Pairwise (Apart B)

variable {B n : Nat}

def blockAt (mem : Nat → UInt8) (p : Nat) : Block B := fun i => mem (p + i)

theorem blockAt_congr {mem mem' : Nat → UInt8} {p : Nat} (h : readBytes mem p B = readBytes mem' p B) :
    (blockAt mem p : Block B) = blockAt mem' p := by
  funext i
  have hi := congrArg (·.getD i 0) h
  simp only [getD_readBytes _ _ i.isLt] at hi
  exact hi

theorem blockAt_writeBytes (mem : Nat → UInt8) (p : Nat) (b : Block B) :
    blockAt (writeBytes mem p (List.ofFn b)) p = b := by
  funext i
  rw [blockAt, writeBytes_of_lt _ _ (by simp)]
  simp

theorem readBytes_ofFn (mem : Nat → UInt8) (p : Nat) : readBytes mem p B = List.ofFn (blockAt mem p : Block B) := by
  refine List.ext_getElem (by simp) (fun i h₁ h₂ => ?_)
  simp [readBytes, blockAt]

def Blocks.at (K : Blocks B n) (p : Nat) : Ip6Memaddr := K.addrs.getD p ⟨0, 0, 0, 0⟩

def Blocks.content (K : Blocks B n) (st : UInt16 → Server) (p : Nat) : Block B :=
  blockAt (st (K.at p).subid).mem (K.at p).paddr.toNat

def Blocks.store (K : Blocks B n) (st : UInt16 → Server) (p : Nat) (b : Block B) : UInt16 → Server :=
  update st (K.at p).subid ((st (K.at p).subid).write (K.at p).paddr (List.ofFn b))

theorem Blocks.getElem? (K : Blocks B n) {p : Nat} (hp : p < n) : K.addrs[p]? = some (K.at p) := by
  have h : p < K.addrs.length := K.length.symm ▸ hp
  rw [Blocks.at, List.getD_eq_getElem?_getD, List.getElem?_eq_getElem h]
  rfl

theorem Blocks.content_store (K : Blocks B n) (st : UInt16 → Server) {p q : Nat} (b : Block B) (hp : p < n) (hq : q < n) :
    K.content (K.store st p b) q = if q = p then b else K.content st q := by
  by_cases hqp : q = p
  · subst hqp
    rw [if_pos rfl, Blocks.content, Blocks.store, update_self]
    exact blockAt_writeBytes _ _ b
  · rw [if_neg hqp]
    refine blockAt_congr ?_
    rw [Blocks.store, ← storeAll_single]
    refine read_storeAll_apart (fun w hw => ⟨K.at p, ?_, ?_⟩)
    · exact apart_of_getElem? K.apart (K.getElem? hp) (K.getElem? hq) (Ne.symm hqp)
    · rw [List.mem_singleton.1 hw]
      exact ⟨rfl, rfl, by simp⟩

/-- **The remote disk as a backing store**: its state is the servers'. -/
def remoteStore (K : Blocks B n) : BackingStore B n where
  State := UInt16 → Server
  content := K.content
  read := fun st p => (K.content st p, st)
  write := K.store
  read_val := fun _ _ _ => rfl
  read_content := fun _ _ _ _ _ => rfl
  write_content := fun st _ b _ hp hq => K.content_store st b hp hq

/-! ## The calls over the network -/

/-- A disk with the blocks of `K`, whatever else its addresses have. -/
structure Mounted (C : Cluster) (K : Blocks B n) (targetIp : SockaddrIn6) (r : Rmem) : Prop where
  port : targetIp.port = C.port
  size : r.blockSize = B
  blocks : r.nblocks = n
  addrs : r.memList.map (Option.map place) = K.addrs.map (fun a => some (place a))

section Runs

variable {C : Cluster} {K : Blocks B n} {alloc : Server → Nat → UInt64} {fifo : Prop} {me targetIp : SockaddrIn6}
  {r : Rmem} {st : UInt16 → Server} {p : Nat}

theorem Mounted.getElem? (h : Mounted C K targetIp r) (hp : p < n) :
    ∃ a, r.memList[p]? = some (some a) ∧ place a = place (K.at p) := by
  have hget := congrArg (·[p]?) h.addrs
  simp only [List.getElem?_map, K.getElem? hp, Option.map_some] at hget
  obtain ⟨x, hx, hplace⟩ := Option.map_eq_some_iff.1 hget
  obtain ⟨a, rfl, ha⟩ := Option.map_eq_some_iff.1 hplace
  exact ⟨a, hx, ha⟩

/-- An address whose command and arguments are overwritten is the same block. -/
theorem Mounted.set (h : Mounted C K targetIp r) {ip : SockaddrIn6} (hip : ip.port = C.port) {a a' : Ip6Memaddr}
    (ha : r.memList[p]? = some (some a)) (ha' : place a' = place a) :
    Mounted C K ip { r with memList := r.memList.set p (some a') } where
  port := hip
  size := h.size
  blocks := h.blocks
  addrs := by
    obtain ⟨hlt, hget⟩ := List.getElem?_eq_some_iff.1 ha
    rw [← h.addrs, List.map_set, Option.map_some, ha']
    refine List.ext_getElem? (fun i => ?_)
    by_cases hi : p = i
    · subst hi
      rw [List.getElem?_set_self (by simpa using hlt), List.getElem?_map, ha]
      rfl
    · rw [List.getElem?_set_ne hi]

/-- **A read returns the block.** -/
theorem rmemRead_runs (hB : B < 2 ^ 16) (h : Mounted C K targetIp r) (hp : p < n) (mem : Nat → UInt8) (data : Nat) :
    Runs (rmemNet B C alloc fifo) (rmemRead me targetIp r p mem data) st (fun out st' => Mounted C K out.1 out.2.1 ∧
      out.2.2 = writeBytes mem data (List.ofFn ((remoteStore K).read st p).1) ∧ st' = ((remoteStore K).read st p).2) := by
  obtain ⟨a, ha, hplace⟩ := h.getElem? hp
  obtain ⟨hsub, hptr⟩ := Prod.mk.inj hplace
  have hlen : (UInt16.ofNat r.blockSize).toNat = B := by rw [h.size]; exact UInt16.toNat_ofNat_of_lt' hB
  rw [rmemRead, if_neg (by rw [h.blocks]; exact Nat.not_le.2 hp), ha]
  refine Runs.bind (readRmem_runs B alloc fifo me st h.port a mem data (UInt16.ofNat r.blockSize)) ?_
  rintro ⟨ip, a', mem', len⟩ st' ⟨hip, ha', hmem, rfl⟩
  refine Runs.ret ⟨h.set hip ha ((congrArg place ha').trans rfl), ?_, rfl⟩
  rw [show mem' = _ from hmem, hlen, readBytes_ofFn, hsub, hptr]
  rfl

/-- **A write puts it there.** -/
theorem rmemWrite_runs (hB : B < 2 ^ 16) (h : Mounted C K targetIp r) (hp : p < n) (mem : Nat → UInt8) (data : Nat) :
    Runs (rmemNet B C alloc fifo) (rmemWrite B me targetIp r p mem data) st (fun out st' => Mounted C K out.1 out.2 ∧
      st' = (remoteStore K).write st p (blockAt mem data)) := by
  obtain ⟨a, ha, hplace⟩ := h.getElem? hp
  obtain ⟨hsub, hptr⟩ := Prod.mk.inj hplace
  have hlen : (UInt16.ofNat B).toNat = B := UInt16.toNat_ofNat_of_lt' hB
  rw [rmemWrite, if_neg (by rw [h.blocks]; exact Nat.not_le.2 hp), ha]
  refine Runs.bind (writeRmem_runs B alloc fifo me st h.port a mem data (UInt16.ofNat B)) ?_
  rintro ⟨ip, a'⟩ st' ⟨hip, ha', rfl⟩
  refine Runs.ret ⟨h.set hip ha ((congrArg place ha').trans rfl), ?_⟩
  rw [hlen, readBytes_ofFn, storeAll_single, hsub, hptr]
  rfl

/-! ## Sequences of calls -/

/-- The calls one after the other, each with the block at `data`: what was read, and the disk afterwards. -/
def doCalls (B : Nat) (me : SockaddrIn6) (data : Nat) : List (Vmem.Call B) → SockaddrIn6 → Rmem →
    Prog Packet (List (Block B) × SockaddrIn6 × Rmem)
  | [],              targetIp, r => pure ([], targetIp, r)
  | .read p :: cs,   targetIp, r => do
    let (targetIp, r, mem) ← rmemRead me targetIp r p (fun _ => 0) data
    let (blocks, targetIp, r) ← doCalls B me data cs targetIp r
    pure (blockAt mem data :: blocks, targetIp, r)
  | .write p b :: cs, targetIp, r => do
    let (targetIp, r) ← rmemWrite B me targetIp r p (writeBytes (fun _ => 0) data (List.ofFn b)) data
    doCalls B me data cs targetIp r

/-- **Remote memory answers as an array of blocks**, whatever the network does. -/
theorem doCalls_runs (hB : B < 2 ^ 16) (data : Nat) : ∀ (cs : List (Vmem.Call B)) (targetIp : SockaddrIn6) (r : Rmem)
    (st : UInt16 → Server), Mounted C K targetIp r → (∀ c ∈ cs, c.page < n) →
    Runs (rmemNet B C alloc fifo) (doCalls B me data cs targetIp r) st (fun out st' => Mounted C K out.2.1 out.2.2 ∧
      (out.1, st') = answer (remoteStore K) cs st)
  | [], targetIp, r, st, h, _ => Runs.ret ⟨h, rfl⟩
  | .read p :: cs, targetIp, r, st, h, hcs => by
    refine Runs.bind (rmemRead_runs hB h (hcs _ List.mem_cons_self) _ data) ?_
    rintro ⟨ip₁, r₁, mem₁⟩ st₁ ⟨h₁, hmem, rfl⟩
    refine Runs.bind (doCalls_runs hB data cs ip₁ r₁ _ h₁ (fun c hc => hcs c (List.mem_cons_of_mem _ hc))) ?_
    rintro ⟨blocks, ip₂, r₂⟩ st₂ ⟨h₂, hans⟩
    refine Runs.ret ⟨h₂, ?_⟩
    obtain ⟨hblocks, hst⟩ := Prod.mk.inj hans
    show (blockAt mem₁ data :: blocks, st₂) = _
    rw [show mem₁ = _ from hmem, blockAt_writeBytes, show blocks = _ from hblocks, hst]
    rfl
  | .write p b :: cs, targetIp, r, st, h, hcs => by
    refine Runs.bind (rmemWrite_runs hB h (hcs _ List.mem_cons_self) _ data) ?_
    rintro ⟨ip₁, r₁⟩ st₁ ⟨h₁, rfl⟩
    rw [blockAt_writeBytes]
    exact doCalls_runs hB data cs ip₁ r₁ _ h₁ (fun c hc => hcs c (List.mem_cons_of_mem _ hc))

end Runs

/-! ## The virtual memory on it -/

section Paging

variable {C : Cluster} {K : Blocks B n} {alloc : Server → Nat → UInt64} {fifo : Prop} {me targetIp : SockaddrIn6}
  {r : Rmem} {st : UInt16 → Server} [NeZero B]

/-- **What a program stores reaches the servers.**  The calls that the virtual memory makes in a program of loads, stores
and flushes and in a flush at its end, sent over the network, leave every byte on its server as it was last stored,
whatever the policy, `rand()` and the network do. -/
theorem remote_flush (hB : B < 2 ^ 16) (h : Mounted C K targetIp r) (pol : Policy) {nframes : Nat} (hn : 1 ≤ nframes)
    (physmem : Nat → Block B) (rands : Nat → Nat) (fuel data : Nat) (ops : List Vmem.Op)
    {m m' : Machine (remoteStore K).logged.State B}
    (hrun : runOps (remoteStore K).logged pol fuel
      (initVirtualMemory (remoteStore K).logged nframes (st, []) physmem rands) ops = some m)
    (hflush : pageTableFlush (remoteStore K).logged pol m = some m') :
    Runs (rmemNet B C alloc fifo) (doCalls B me data m'.pt.store.2.reverse targetIp r) st (fun out st' =>
      Mounted C K out.2.1 out.2.2 ∧ ∀ a < n * B, (remoteStore K).bytes st' a =
        (lastStore a ops).getD ((remoteStore K).bytes st a)) := by
  obtain ⟨hb, hrep⟩ := replays_runOps hn hrun
  have hrep' := hrep.flush hb hflush
  refine (doCalls_runs hB data _ targetIp r st h (fun c hc => hrep'.pages c (List.mem_reverse.1 hc))).mono ?_
  rintro out st' ⟨hm, hans⟩
  refine ⟨hm, fun a ha => ?_⟩
  have hst : st' = m'.pt.store.1 := (congrArg Prod.snd hans).trans hrep'.state.symm
  have hs : Vmem.Shows (remoteStore K).logged (initVirtualMemory (remoteStore K).logged nframes (st, []) physmem rands)
      ((remoteStore K).bytes st) := fun _ _ => rfl
  obtain ⟨-, -, hs'⟩ := runOps_inv ops (initVirtualMemory_inv pol hn _ physmem rands) hn hs hrun
  have hpage : a / B < n := (Nat.div_lt_iff_lt_mul (Nat.pos_of_neZero B)).2 ha
  have hcontent : (remoteStore K).bytes st' a = shown (remoteStore K).logged m.pt (a / B) (Fin.ofNat B a) := by
    rw [hst, ← (hb.writesBack hflush).content _ hpage]
    rfl
  rw [hcontent]
  exact hs' a hpage

/-- A block on each of two servers, and one frame. -/
def twoBlocks : Blocks 2 2 := ⟨[⟨1, 0, 0, 16⟩, ⟨2, 0, 0, 16⟩], rfl, by simp [Apart]⟩

theorem remote_flush_two_blocks : ∃ m m', runOps (remoteStore twoBlocks).logged .fifo 3
      (initVirtualMemory (remoteStore twoBlocks).logged 1 ((fun _ => ⟨fun _ => 0, []⟩), []) (fun _ _ => 0) (fun _ => 0))
      [.store 1 7, .store 2 8] = some m ∧
    pageTableFlush (remoteStore twoBlocks).logged .fifo m = some m' ∧
    Runs (rmemNet 2 plainCluster (fun _ _ => 16) False)
      (doCalls 2 ⟨⟨9, 0, 0, 0⟩, 6000⟩ 0 m'.pt.store.2.reverse ⟨⟨0, 0, 0, 0⟩, 5000⟩ ⟨twoBlocks.addrs.map some, 2, 2⟩)
      (fun _ => ⟨fun _ => 0, []⟩) (fun _ st' => (remoteStore twoBlocks).bytes st' 1 = 7 ∧
        (remoteStore twoBlocks).bytes st' 2 = 8) := by
  have hrun : (runOps (remoteStore twoBlocks).logged .fifo 3
      (initVirtualMemory (remoteStore twoBlocks).logged 1 ((fun _ => ⟨fun _ => 0, []⟩), []) (fun _ _ => 0) (fun _ => 0))
      [.store 1 7, .store 2 8]).isSome = true := by decide
  obtain ⟨m, e⟩ := Option.isSome_iff_exists.1 hrun
  obtain ⟨m', e'⟩ := (between_runOps (by decide) e).flushes (by decide)
  have hm : Mounted plainCluster twoBlocks ⟨⟨0, 0, 0, 0⟩, 5000⟩ ⟨twoBlocks.addrs.map some, 2, 2⟩ := ⟨rfl, rfl, rfl, rfl⟩
  refine ⟨m, m', e, e', (remote_flush (by decide) hm .fifo (by decide) _ _ 3 0 _ e e').mono ?_⟩
  rintro out st' ⟨-, hbytes⟩
  exact ⟨hbytes 1 (by decide), hbytes 2 (by decide)⟩

end Paging

/-! ## The disk that `rmem_allocate` makes -/

section Allocate

variable {C : Cluster} {alloc : Server → Nat → UInt64} {fifo : Prop} {me targetIp : SockaddrIn6} {conf : Config}
  {st : UInt16 → Server}

/-- No share wraps round the address space of its host. -/
def SharesFit (B : Nat) (alloc : Server → Nat → UInt64) (conf : Config) (n : Nat) (st : UInt16 → Server) : Prop :=
  ∀ i < conf.hosts.length, (region alloc conf n st i).2.toNat + hostLength n conf.hosts.length i * B ≤ 2 ^ 64

theorem toNat_blockAddr {base : Ip6Memaddr} {len j : Nat} (hfit : base.paddr.toNat + len * B ≤ 2 ^ 64) (hB₀ : 0 < B)
    (hj : j < len) : (blockAddr B base j).paddr.toNat = base.paddr.toNat + j * B := by
  have hlt : (j + 1) * B ≤ len * B := Nat.mul_le_mul_right B hj
  rw [Nat.succ_mul] at hlt
  rw [blockAddr, UInt64.toNat_add, UInt64.toNat_ofNat_of_lt' (by show _ < 2 ^ 64; omega), Nat.mod_eq_of_lt (by omega)]

theorem subid_shareAddrs {i : Nat} {a : Ip6Memaddr} (ha : a ∈ shareAddrs B C alloc me conf n st i) :
    a.subid = (conf.host i).subid := by
  obtain ⟨j, -, rfl⟩ := List.mem_map.1 ha
  exact C.subid_addr _

theorem apart_shareAddrs (hB₀ : 0 < B) (hfit : SharesFit B alloc conf n st) :
    ((List.range conf.hosts.length).flatMap (shareAddrs B C alloc me conf n st)).Pairwise (Apart B) := by
  rw [List.pairwise_flatMap]
  constructor
  · intro i hi
    refine List.pairwise_map.2 (List.pairwise_lt_range.imp_of_mem (fun {j k} hj hk hjk => ?_))
    have hbase := hfit i (List.mem_range.1 hi)
    have hle : (j + 1) * B ≤ k * B := Nat.mul_le_mul_right B hjk
    rw [Nat.succ_mul] at hle
    refine Or.inr (Or.inl ?_)
    rw [toNat_blockAddr hbase hB₀ (List.mem_range.1 hj), toNat_blockAddr hbase hB₀ (List.mem_range.1 hk)]
    omega
  · refine List.pairwise_lt_range.imp_of_mem (fun {i j} hi hj hij a ha b hb => Or.inl (fun h => ?_))
    rw [subid_shareAddrs ha, subid_shareAddrs hb] at h
    exact host_subid_ne conf (List.mem_range.1 hi) (List.mem_range.1 hj) (by omega) h

/-- The blocks of the disk. -/
def allocated (C : Cluster) (me : SockaddrIn6) (hB₀ : 0 < B) (hH : 0 < conf.hosts.length)
    (hfit : SharesFit B alloc conf n st) : Blocks B n where
  addrs := (List.range conf.hosts.length).flatMap (shareAddrs B C alloc me conf n st)
  length := by rw [length_shares (Nat.lt_succ_self _) hH, filledTo, if_neg (Nat.lt_irrefl _)]
  apart := apart_shareAddrs hB₀ hfit

theorem regionSize_eq (hint : n < 2 ^ 31) (i : Nat) : regionSize conf n i = max 1 (hostLength n conf.hosts.length i) := by
  have hlt : hostLength n conf.hosts.length i < 2 ^ 64 :=
    Nat.lt_trans (Nat.lt_of_le_of_lt (hostLength_le i) hint) (by decide)
  unfold regionSize bulkSize
  by_cases h0 : hostLength n conf.hosts.length i = 0
  · rw [h0]
    rfl
  · have hne : UInt64.ofNat (hostLength n conf.hosts.length i) ≠ 0 := fun h => by
      have := congrArg UInt64.toNat h
      rw [UInt64.toNat_ofNat_of_lt' hlt] at this
      exact h0 this
    rw [if_neg hne, UInt64.toNat_ofNat_of_lt' hlt]
    omega

/-- What `calloc` promises for requests of up to `n` bytes. -/
def Promised (alloc : Server → Nat → UInt64) (n : Nat) (st : UInt16 → Server) : Prop :=
  ∀ s size, 0 < size → size ≤ n → Fresh (st s).live ((alloc (st s) size).toNat, size)

theorem Promised.region (h : Promised alloc n st) (conf : Config) (hn : 1 ≤ n) (hint : n < 2 ^ 31) (i : Nat) :
    (region alloc conf n st i).2.toNat + max 1 (hostLength n conf.hosts.length i) ≤ 2 ^ 64 := by
  have hle := @hostLength_le n i conf.hosts.length
  have hsize := @regionSize_eq n conf hint i
  have hfits := (h (conf.host i).subid (regionSize conf n i) (by omega) (by omega)).fits
  rw [← hsize]
  exact hfits

/-- An address of the disk is one of its blocks. -/
theorem Mounted.of_mem {K : Blocks B n} {r : Rmem} (h : Mounted C K targetIp r) {a : Ip6Memaddr}
    (ha : some a ∈ r.memList) : ∃ p < n, place (K.at p) = place a := by
  have hmem : some (place a) ∈ r.memList.map (Option.map place) := List.mem_map.2 ⟨some a, ha, rfl⟩
  rw [h.addrs] at hmem
  obtain ⟨b, hb, hplace⟩ := List.mem_map.1 hmem
  obtain ⟨p, hp, rfl⟩ := List.getElem_of_mem hb
  refine ⟨p, K.length ▸ hp, ?_⟩
  rw [← Option.some.inj hplace, ← Option.some.inj ((K.getElem? (K.length ▸ hp)).symm.trans (List.getElem?_eq_getElem hp))]

/-- **If `calloc` keeps its promise**, `rmem_allocate` returns a disk of `n` blocks that the servers have reserved, and
on a virtual memory over it a program that keeps to an array with the servers' bytes returns what it returns there, and
leaves the same bytes, under every policy. -/
def PagesRemotely (B n : Nat) [NeZero B] (C : Cluster) (me : SockaddrIn6) (conf : Config) : Prop :=
  ∀ (alloc : Server → Nat → UInt64) (fifo : Prop) (st : UInt16 → Server) (targetIp : SockaddrIn6),
    targetIp.port = C.port → Promised alloc n st →
    Runs (rmemNet B C alloc fifo) (rmemAllocate B me conf targetIp n) st (fun out st' => ∃ K : Blocks B n,
      Mounted C K out.1 out.2 ∧ (∀ p < n, (st' (K.at p).subid).Reserves ((K.at p).range B)) ∧
      ∀ (pol : Policy) (nframes : Nat) (physmem : Nat → Block B) (rands : Nat → Nat) (fuel : Nat) (α : Type) (c : Code α)
        (r : α) (mem : Nat → UInt8), 1 ≤ nframes → AgesFit pol nframes n →
        c.flat (n * B) ((remoteStore K).bytes st') = some (r, mem) →
        ∃ m, c.paged (remoteStore K) pol (fuel + 3) (initVirtualMemory (remoteStore K) nframes st' physmem rands) =
            some (r, m) ∧ m.bytes (remoteStore K) = readBytes mem 0 (n * B))

/-- With blocks of one byte a share is the region reserved for it. -/
theorem pagesRemotely_of_one (hn : 1 ≤ n) (hint : n < 2 ^ 31) (hH : 1 ≤ conf.hosts.length) :
    PagesRemotely 1 n C me conf := by
  intro alloc fifo st targetIp hport hpromise
  have hregion := hpromise.region conf hn hint
  have hfit : SharesFit 1 alloc conf n st := fun i _ => by
    have := hregion i
    omega
  refine (Logs.runs (rmemAllocate_logs hint hH hport)).mono ?_
  rintro ⟨ip, r⟩ st' ⟨D, R, hip, rfl, hres, -, -⟩
  refine ⟨allocated C me Nat.one_pos hH hfit, ⟨hip, rfl, rfl, ?_⟩, fun p hp => ?_, ?_⟩
  · show (List.map some _).map _ = _
    rw [List.map_map]
    rfl
  · obtain ⟨i, hi, hmem⟩ := List.mem_flatMap.1 (List.mem_of_getElem? ((allocated C me Nat.one_pos hH hfit).getElem? hp))
    obtain ⟨j, hj, ha⟩ := List.mem_map.1 hmem
    have hj := List.mem_range.1 hj
    have hlive := hres.live i (Nat.zero_le i) (List.mem_range.1 hi)
    have hbound := hregion i
    rw [subid_shareAddrs hmem, ← ha, range_blockAddr (show (region alloc conf n st i).2.toNat + j * 1 < 2 ^ 64 by omega)]
    refine ⟨((region alloc conf n st i).2.toNat, regionSize conf n i), ?_, Nat.le_add_right _ _, ?_⟩
    · rw [hlive]
      exact List.mem_cons_self
    · show (region alloc conf n st i).2.toNat + j * 1 + 1 ≤ (region alloc conf n st i).2.toNat + regionSize conf n i
      rw [regionSize_eq hint]
      omega
  · intro pol nframes physmem rands fuel α c r mem hframes hages hflat
    have hb : Backs (remoteStore (allocated C me Nat.one_pos hH hfit)) pol _ _ :=
      backs_initVirtualMemory hframes hages st' physmem rands
    exact hb.paged_eq fuel c hflat

theorem hostLength_last_pos {H : Nat} (hn : 1 ≤ n) (hH : 1 ≤ H) : 0 < hostLength n H (H - 1) := by
  rw [hostLength, if_pos rfl, hostOffset]
  refine Nat.sub_pos_of_lt ?_
  rcases Nat.eq_zero_or_pos (n / H) with h0 | hpos
  · rw [h0, Nat.zero_mul]
    exact hn
  · exact Nat.lt_of_lt_of_le (Nat.mul_lt_mul_of_pos_left (by omega) hpos) (Nat.div_mul_le_self n H)

/-- With larger blocks a block of the last share reaches beyond its region. -/
theorem one_of_pagesRemotely [NeZero B] (hn : 1 ≤ n) (hint : n < 2 ^ 31) (hH : 1 ≤ conf.hosts.length)
    (h : PagesRemotely B n C me conf) : B = 1 := by
  have hpromise : Promised (fun _ _ => 1) n (fun _ => ⟨fun _ => 0, []⟩) := fun s size _ hsize =>
    ⟨Nat.one_pos, show 1 + size ≤ 2 ^ 64 by omega, nofun⟩
  obtain ⟨⟨ip, r⟩, st', ⟨K, hm, hreserved, -⟩, D, R, -, rfl, hres, -, -⟩ :=
    (h _ True _ ⟨⟨0, 0, 0, 0⟩, C.port⟩ rfl hpromise).both (Logs.runs (rmemAllocate_logs hint hH rfl))
  have hlast : conf.hosts.length - 1 < conf.hosts.length := by omega
  have hlive := hres.live _ (Nat.zero_le _) hlast
  have hsize := @regionSize_eq n conf hint (conf.hosts.length - 1)
  have hle := @hostLength_le n (conf.hosts.length - 1) conf.hosts.length
  have hpos : 0 < hostLength n conf.hosts.length (conf.hosts.length - 1) := hostLength_last_pos hn hH
  -- every block of the last share ends within the bytes reserved for it
  have hin : ∀ j < hostLength n conf.hosts.length (conf.hosts.length - 1), 1 + j * B < 2 ^ 64 →
      j * B + B ≤ hostLength n conf.hosts.length (conf.hosts.length - 1) := by
    intro j hj hfits
    have hmem : blockAddr B (baseAddr C me (conf.host (conf.hosts.length - 1)).subid 1) j ∈
        shareAddrs B C (fun _ _ => 1) me conf n (fun _ => ⟨fun _ => 0, []⟩) (conf.hosts.length - 1) :=
      List.mem_map_of_mem (List.mem_range.2 hj)
    obtain ⟨p, hp, hplace⟩ := hm.of_mem (List.mem_map_of_mem (List.mem_flatMap.2 ⟨_, List.mem_range.2 hlast, hmem⟩))
    obtain ⟨hsub, hptr⟩ := Prod.mk.inj hplace
    obtain ⟨l, hl, hw⟩ := hreserved p hp
    rw [hsub, subid_shareAddrs hmem, hlive, List.mem_singleton] at hl
    have hbase : (baseAddr C me (conf.host (conf.hosts.length - 1)).subid 1).paddr.toNat = 1 := rfl
    have hrange := range_blockAddr (B := B) (i := j) (hbase.symm ▸ hfits)
    have hsame : (K.at p).range B = (1 + j * B, B) := by
      rw [← hbase, ← hrange]
      exact congrArg (fun x : UInt64 => (x.toNat, B)) hptr
    rw [hsame, hl] at hw
    have hend : 1 + j * B + B ≤ 1 + regionSize conf n (conf.hosts.length - 1) := hw.2
    omega
  generalize hostLength n conf.hosts.length (conf.hosts.length - 1) = len at *
  have hB := Nat.pos_of_neZero B
  have h0 := hin 0 hpos (by omega)
  have hmul : (len - 1) * B ≤ 2 ^ 31 * 2 ^ 31 := Nat.mul_le_mul (by omega) (by omega)
  have hend := hin (len - 1) (by omega) (by omega)
  have hsucc : (len - 1) * B + B = len * B := by rw [← Nat.succ_mul, Nat.succ_eq_add_one, Nat.sub_add_cancel hpos]
  rw [hsucc] at hend
  have := Nat.le_of_mul_le_mul_left (Nat.le_trans hend (Nat.le_of_eq (Nat.mul_one len).symm)) hpos
  omega

end Allocate

end RemoteDisk
end Bb
