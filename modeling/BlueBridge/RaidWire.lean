import BlueBridge.RaidLoss
import BlueBridge.RmemAlloc
import BlueBridge.RmemBulk
import Mathlib.Data.List.Perm.Basic
/-!
# RaidWire — the block store and the memory servers (`rrmem_allocate`, `rrmem_write`, `rrmem_read`, `process_request`)

The store asks each host for its blocks, and sends its requests to the addresses it got.  Two things are left to those
addresses: the length of a read is whatever their `args` are, which are those of the client's own address, and the host
of an answer is taken from byte 5 of its source address.  So a block comes back exactly if the client's address carries
`BLOCK_SIZE` and host `i`'s address carries `i + 2`, and the memory it was in is the store's own exactly if `BLOCK_SIZE`
is 1, since a host reserves one byte a block (`raid_end_to_end_iff`); the shipped addresses carry zeros.

The network loses nothing, so each of the receive loops gets one packet for each host.
-/
namespace Bb
namespace Raid

open Bytes Wire Rmem
open Function (update update_self update_of_ne)

/-- `s6_addr[5]`: the second byte of `args`. -/
def s6Addr5 (a : Ip6Memaddr) : UInt8 := (a.args >>> 8).toUInt8

/-- What `read_raid_mem` and `write_raid_mem` take from a packet. -/
def rcvOf (p : Packet) : Rcv := some (s6Addr5 p.src.addr, p.data)

/-! ## The client -/

section Client

variable (B maxHosts : Nat) (me : SockaddrIn6)

def fillRrmem (nblocks : UInt64) (hostList : Nat → Ip6Memaddr) : List Nat → SockaddrIn6 → (Nat → List Ip6Memaddr) →
    Prog Packet (SockaddrIn6 × (Nat → List Ip6Memaddr))
  | [],     targetIp, rsmem => pure (targetIp, rsmem)
  | i :: r, targetIp, rsmem => do
    let (targetIp, memList) ← allocateBulkRmem B me { targetIp with addr := hostList i } nblocks
    fillRrmem nblocks hostList r targetIp (update rsmem i memList)

def rrmemAllocate (hostList : Nat → Ip6Memaddr) (numHosts nblocks : Nat) (targetIp : SockaddrIn6) :
    Prog Packet (SockaddrIn6 × Rrmem × (Nat → List Ip6Memaddr)) := do
  let (targetIp, rsmem) ← fillRrmem B me (UInt64.ofNat nblocks) hostList (List.range numHosts) targetIp (fun _ => [])
  pure (targetIp, ⟨4, B, nblocks⟩, rsmem)

/-- `wremote_addrs` and `rremote_addrs`. -/
def remoteAddrs (rsmem : Nat → List Ip6Memaddr) (numHosts block : Nat) : Option (List Ip6Memaddr) :=
  (List.range numHosts).mapM (fun i => (rsmem i)[block]?)

/-- `target_ip` after a receive loop. -/
def lastSrc (targetIp : SockaddrIn6) (ps : List Packet) : SockaddrIn6 := (ps.getLast?.map (·.src)).getD targetIp

variable (numHosts : Nat) (targetIp : SockaddrIn6) (r : Rrmem) (rsmem : Nat → List Ip6Memaddr) (block : Nat)

def writeRqst (wbufs : Bufs) (i : Nat) (a : Ip6Memaddr) : Packet :=
  preparePacket me ⟨{ a with cmd := writeCmd }, targetIp.port, readBytes (wbufs i) 0 B⟩

def rrmemWriteWire (data rxBuf : Nat → UInt8) : Prog Packet SockaddrIn6 :=
  match writeBufs maxHosts numHosts r block data, remoteAddrs rsmem numHosts block with
  | some wbufs, some addrs => do
    let ps ← exchange (addrs.mapIdx (writeRqst B me targetIp wbufs))
    match writeRaidMem maxHosts B numHosts (needed numHosts r) wbufs rxBuf (ps.map rcvOf) with
    | none   => .fail
    | some _ => pure (lastSrc targetIp ps)
  | _, _ => .fail

/-- The request leaves the `args` of the address as they are. -/
def readRqst (a : Ip6Memaddr) : Packet := preparePacket me ⟨{ a with cmd := readCmd }, targetIp.port, []⟩

def rrmemReadWire (rxBuf data : Nat → UInt8) : Prog Packet (Nat → UInt8) :=
  match remoteAddrs rsmem numHosts block with
  | none       => .fail
  | some addrs => do
    let ps ← exchange (addrs.map (readRqst me targetIp))
    match rrmemRead maxHosts numHosts r block rxBuf (ps.map rcvOf) data with
    | none          => .fail
    | some (out, _) => pure out

/-- Allocate, write a block and read it back; `rxBuf`, `rxBuf'` and `out` are what the buffers held before. -/
def allocWriteRead (hostList : Nat → Ip6Memaddr) (nblocks : Nat) (data rxBuf rxBuf' out : Nat → UInt8) :
    Prog Packet (Nat → UInt8) := do
  let (targetIp, r, rsmem) ← rrmemAllocate B me hostList numHosts nblocks targetIp
  let targetIp ← rrmemWriteWire B maxHosts me numHosts targetIp r rsmem block data rxBuf
  rrmemReadWire maxHosts me numHosts targetIp r rsmem block rxBuf' out

end Client

/-- How many bytes a request is for: a write has them with it, a read asks for them. -/
def asked (p : Packet) : Nat := if p.dst.addr.cmd = writeCmd then p.data.length else p.dst.addr.args.toUInt16.toNat

/-- **The store works end to end**: whatever was there before and in whatever order packets are served and received, if
`calloc` keeps its promise for the requests made, a block written is read back, every write and read is for `BLOCK_SIZE`
bytes that its host has reserved, and an answer from host `i` goes to the row of host `i`. -/
def EndToEnd (B maxHosts : Nat) (me : SockaddrIn6) (C : Cluster) (host : Nat → UInt16) (numHosts nblocks : Nat) : Prop :=
  ∀ (alloc : Server → Nat → UInt64) (fifo : Prop) (st : UInt16 → Server) (targetIp : SockaddrIn6) (block : Nat)
    (data rxBuf rxBuf' out : Nat → UInt8), targetIp.port = C.port → block < nblocks →
    (∀ i, i < numHosts → Fresh (st (host i)).live ((alloc (st (host i)) nblocks).toNat, nblocks)) →
    Ends (rmemNet B C alloc fifo) (fun out c =>
        readBytes out 0 B = readBytes data 0 B ∧
        (∀ p ∈ c.served, p.dst.addr.cmd = writeCmd ∨ p.dst.addr.cmd = readCmd → asked p = B ∧
          (c.srv p.dst.addr.subid).Reserves (p.dst.addr.range (asked p))) ∧
        ∀ p ∈ c.rcvd, ∀ i, i < numHosts → p.src.addr.subid = host i → hostOf maxHosts (s6Addr5 p.src.addr) = some i)
      (start (allocWriteRead B maxHosts me numHosts targetIp block (fun i => C.addr (host i)) nblocks data rxBuf rxBuf'
        out) st)

/-! ## Allocation -/

section Alloc

variable {B : Nat} {me : SockaddrIn6} {C : Cluster} {alloc : Server → Nat → UInt64} {fifo : Prop} {host : Nat → UInt16}
  {n : UInt64}

theorem allocateBulkRmem_ends {targetIp : SockaddrIn6} (hport : targetIp.port = C.port) (hn : n ≠ 0)
    (hmalloc : n.toNat * 16 < 2 ^ 64) (st : UInt16 → Server) (d rc : List Packet) :
    Ends (rmemNet B C alloc fifo) (fun r c => c.flight = [] ∧ c.answers = [] ∧ r.1.port = C.port ∧
        r.2 = bulkAddrs B (baseAddr C me targetIp.addr.subid (alloc (st targetIp.addr.subid) n.toNat)) n.toNat ∧
        c.srv = reserved alloc st targetIp.addr.subid n.toNat ∧
        (∀ p ∈ c.served, p ∈ d ∨ p.dst.addr.cmd = allocBulkCmd) ∧
        ∀ p ∈ c.rcvd, p ∈ rc ∨ p.src.addr = C.addr targetIp.addr.subid)
      ⟨allocateBulkRmem B me targetIp n, [], st, d, [], rc⟩ := by
  have hserve : (rmemNet B C alloc fifo).serve st (allocBulkPkt me targetIp n) = _ :=
    handlePacket_allocBulk B hport hn
  rw [allocateBulkRmem_eq hmalloc]
  refine (ends_request _ hserve d rc).mono ?_
  rintro r c ⟨hF, hA, rfl, hsrv, hserved, hrcvd⟩
  refine ⟨hF, hA, rfl, rfl, hsrv, fun p hp => ?_, fun p hp => ?_⟩
  · rw [hserved, List.mem_append, List.mem_singleton] at hp
    exact hp.imp_right (fun h => by rw [h]; rfl)
  · rw [hrcvd, List.mem_append, List.mem_singleton] at hp
    exact hp.imp_right (fun h => by rw [h]; rfl)

/-- Host `i` has reserved its blocks, and the list has their addresses. -/
structure Lent (B : Nat) (me : SockaddrIn6) (C : Cluster) (alloc : Server → Nat → UInt64) (n : Nat)
    (st st' : UInt16 → Server) (s : UInt16) (memList : List Ip6Memaddr) : Prop where
  list : memList = bulkAddrs B (baseAddr C me s (alloc (st s) n)) n
  live : (st' s).live = ((alloc (st s) n).toNat, n) :: (st s).live

/-- What `fill_rrmem` leaves: a list from each host of `is`, and only allocation requests behind it. -/
theorem fillRrmem_ends (hn : n ≠ 0) (hmalloc : n.toNat * 16 < 2 ^ 64) : ∀ (is : List Nat) (targetIp : SockaddrIn6)
    (rsmem : Nat → List Ip6Memaddr) (st : UInt16 → Server) (d rc : List Packet), targetIp.port = C.port →
    (is.map host).Nodup →
    Ends (rmemNet B C alloc fifo) (fun r c => c.flight = [] ∧ c.answers = [] ∧ r.1.port = C.port ∧
        (∀ i ∈ is, Lent B me C alloc n.toNat st c.srv (host i) (r.2 i)) ∧
        (∀ i, i ∉ is → r.2 i = rsmem i) ∧ (∀ s, s ∉ is.map host → c.srv s = st s) ∧
        (∀ p ∈ c.served, p ∈ d ∨ p.dst.addr.cmd = allocBulkCmd) ∧
        ∀ p ∈ c.rcvd, p ∈ rc ∨ ∃ i ∈ is, p.src.addr = C.addr (host i))
      ⟨fillRrmem B me n (fun i => C.addr (host i)) is targetIp rsmem, [], st, d, [], rc⟩
  | [], targetIp, rsmem, st, d, rc, hport, _ =>
    .ret rfl ⟨rfl, rfl, hport, fun i hi => (nomatch hi), fun _ _ => rfl, fun _ _ => rfl, fun _ hp => .inl hp,
      fun _ hp => .inl hp⟩
  | i :: is, targetIp, rsmem, st, d, rc, hport, hnd => by
    rw [List.map_cons, List.nodup_cons] at hnd
    have hfirst := @allocateBulkRmem_ends B me C alloc fifo n { targetIp with addr := C.addr (host i) } hport hn hmalloc
      st d rc
    refine ends_bind hfirst ?_
    rintro ⟨targetIp', memList⟩ c ⟨hF, hA, hport', hlist, hsrv, hserved, hrcvd⟩
    rw [hF, hA]
    refine (fillRrmem_ends hn hmalloc is targetIp' (update rsmem i memList) c.srv c.served c.rcvd hport' hnd.2).mono ?_
    rintro r c' ⟨hF', hA', hport'', hlists, hothers, hsame, hserved', hrcvd'⟩
    simp only [C.subid_addr] at hlist hsrv hrcvd
    have hi : i ∉ is := fun h => hnd.1 (List.mem_map.2 ⟨i, h, rfl⟩)
    refine ⟨hF', hA', hport'', fun j hj => ?_, fun j hj => ?_, fun s hs => ?_, fun p hp => ?_, fun p hp => ?_⟩
    · rcases List.mem_cons.mp hj with rfl | hj
      · refine ⟨(hothers j hi).trans ((update_self ..).trans hlist), ?_⟩
        rw [hsame _ hnd.1, hsrv, live_reserved]
      · -- the other hosts are as they were
        have hne : host j ≠ host i := fun h => hnd.1 (h ▸ List.mem_map.2 ⟨j, hj, rfl⟩)
        have hst : c.srv (host j) = st (host j) := by rw [hsrv, reserved, update_of_ne hne]
        obtain ⟨hl, hv⟩ := hlists j hj
        rw [hst] at hl hv
        exact ⟨hl, hv⟩
    · rw [List.mem_cons, not_or] at hj
      rw [hothers j hj.2, update_of_ne hj.1]
    · rw [List.map_cons, List.mem_cons, not_or] at hs
      rw [hsame s hs.2, hsrv, reserved, update_of_ne hs.1]
    · rcases hserved' p hp with h | h
      · exact hserved p h
      · exact .inr h
    · rcases hrcvd' p hp with h | ⟨j, hj, h⟩
      · exact (hrcvd p h).imp_right (fun h => ⟨i, List.mem_cons_self, h⟩)
      · exact .inr ⟨j, List.mem_cons_of_mem i hj, h⟩

end Alloc

/-! ## The hosts' addresses -/

/-- The addresses of a block: on the hosts, with the `args` of the client's own address. -/
structure Placed (me : SockaddrIn6) (host : Nat → UInt16) (numHosts : Nat) (addr : Nat → Ip6Memaddr) : Prop where
  subid : ∀ i, i < numHosts → (addr i).subid = host i
  args : ∀ i, i < numHosts → (addr i).args = me.addr.args

theorem mapM_some {α β : Type} {f : α → Option β} {g : α → β} : ∀ (l : List α), (∀ a ∈ l, f a = some (g a)) →
    l.mapM f = some (l.map g)
  | [], _ => rfl
  | a :: l, h => by
    rw [List.mapM_cons, h a List.mem_cons_self, mapM_some l (fun b hb => h b (List.mem_cons_of_mem a hb))]
    rfl

theorem mapIdx_map_range {α β : Type} (f : Nat → α → β) (g : Nat → α) (n : Nat) :
    ((List.range n).map g).mapIdx f = (List.range n).map (fun i => f i (g i)) := by
  apply List.ext_getElem
  · simp
  · intro i h₁ h₂
    simp

/-- Where host `i` has the block: `ptr i` is what its `calloc` returned. -/
def blockOn (B : Nat) (me : SockaddrIn6) (C : Cluster) (host : Nat → UInt16) (ptr : Nat → UInt64) (block i : Nat) :
    Ip6Memaddr :=
  blockAddr B (baseAddr C me (host i) (ptr i)) block

theorem placed_blockOn (B : Nat) (me : SockaddrIn6) (C : Cluster) (host : Nat → UInt16) (ptr : Nat → UInt64)
    (block H : Nat) : Placed me host H (blockOn B me C host ptr block) := ⟨fun _ _ => C.subid_addr _, fun _ _ => rfl⟩

theorem remoteAddrs_blockOn {B n block numHosts : Nat} {me : SockaddrIn6} {C : Cluster} {host : Nat → UInt16}
    {ptr : Nat → UInt64} {rsmem : Nat → List Ip6Memaddr} (hb : block < n)
    (h : ∀ i, i < numHosts → rsmem i = bulkAddrs B (baseAddr C me (host i) (ptr i)) n) :
    remoteAddrs rsmem numHosts block = some ((List.range numHosts).map (blockOn B me C host ptr block)) := by
  apply mapM_some
  intro i hi
  rw [h i (List.mem_range.mp hi), bulkAddrs, List.getElem?_map, List.getElem?_range hb]
  rfl

/-- A list of all answers, one for each host, in any order. -/
theorem exists_hosts {α : Type} {f : Nat → α} {n : Nat} {ps : List α} (h : ps.Perm ((List.range n).map f)) :
    ∃ is : List Nat, is.Perm (List.range n) ∧ ps = is.map f := by
  have hcomp : Relation.Comp (· = List.map f ·) List.Perm ps (List.range n) := by
    rw [List.eq_map_comp_perm]
    exact h
  obtain ⟨is, hps, hperm⟩ := hcomp
  exact ⟨is, hperm, hps⟩

/-! ## The servers -/

section Servers

variable {B : Nat} {me targetIp : SockaddrIn6} {C : Cluster} {alloc : Server → Nat → UInt64} {fifo : Prop}
  {host : Nat → UInt16} {H : Nat} {addr : Nat → Ip6Memaddr} {w : Bufs} {st : UInt16 → Server}

theorem serve_write (hB : B < 2 ^ 16) (hport : targetIp.port = C.port) (i : Nat) (a : Ip6Memaddr) (st : UInt16 → Server) :
    (rmemNet B C alloc fifo).serve st (writeRqst B me targetIp w i a) =
      (update st a.subid ((st a.subid).write a.paddr (readBytes (w i) 0 B)), [ackOf C (writeRqst B me targetIp w i a)]) :=
  handlePacket_write B alloc st hport rfl (by rw [writeRqst, preparePacket, length_readBytes]; exact hB)

theorem serve_read (hport : targetIp.port = C.port) (a : Ip6Memaddr) (st : UInt16 → Server) :
    (rmemNet B C alloc fifo).serve st (readRqst me targetIp a) =
      (st, [readReply C a.args.toUInt16 st (readRqst me targetIp a)]) :=
  handlePacket_read B alloc st hport rfl rfl

/-- A server none of the writes is for is left alone. -/
theorem run_writes_other (hB : B < 2 ^ 16) (hport : targetIp.port = C.port) {s : UInt16} : ∀ (is : List Nat)
    (st : UInt16 → Server), (∀ i ∈ is, (addr i).subid ≠ s) →
    ((rmemNet B C alloc fifo).run st (is.map (fun i => writeRqst B me targetIp w i (addr i)))).1 s = st s
  | [], _, _ => rfl
  | i :: is, st, h => by
    rw [List.map_cons, Net.run, serve_write hB hport,
      run_writes_other hB hport is _ (fun j hj => h j (List.mem_cons_of_mem i hj))]
    exact update_of_ne (Ne.symm (h i List.mem_cons_self)) ..

/-- **Every host has its row**, in whatever order the writes are served. -/
theorem run_writes_row (hB : B < 2 ^ 16) (hport : targetIp.port = C.port) {j : Nat} : ∀ (is : List Nat)
    (st : UInt16 → Server), (is.map (fun i => (addr i).subid)).Nodup → j ∈ is →
    readBytes (((rmemNet B C alloc fifo).run st (is.map (fun i => writeRqst B me targetIp w i (addr i)))).1
      (addr j).subid).mem (addr j).paddr.toNat B = readBytes (w j) 0 B
  | i :: is, st, hnd, hj => by
    rw [List.map_cons, List.nodup_cons] at hnd
    rw [List.map_cons, Net.run, serve_write hB hport]
    rcases List.mem_cons.mp hj with rfl | hj
    · have hother : ∀ i ∈ is, (addr i).subid ≠ (addr j).subid := fun i hi heq =>
        hnd.1 (List.mem_map.mpr ⟨i, hi, heq⟩)
      rw [run_writes_other hB hport is _ hother]
      dsimp only
      rw [update_self]
      have hwrite := readBytes_writeBytes (st (addr j).subid).mem (addr j).paddr.toNat (readBytes (w j) 0 B)
      rwa [length_readBytes] at hwrite
    · exact run_writes_row hB hport is _ hnd.2 hj

/-- Writes reserve and free nothing. -/
theorem run_writes_live (hB : B < 2 ^ 16) (hport : targetIp.port = C.port) : ∀ (is : List Nat) (st : UInt16 → Server)
    (s : UInt16), (((rmemNet B C alloc fifo).run st (is.map (fun i => writeRqst B me targetIp w i (addr i)))).1 s).live =
      (st s).live
  | [], _, _ => rfl
  | i :: is, st, s => by
    rw [List.map_cons, Net.run, serve_write hB hport]
    refine (run_writes_live hB hport is _ s).trans ?_
    dsimp only
    by_cases hs : s = (addr i).subid
    · subst hs
      rw [update_self]
      rfl
    · rw [update_of_ne hs]

end Servers

/-! ## The three phases -/

section Phases

variable {B maxHosts H nblocks block : Nat} {me targetIp : SockaddrIn6} {C : Cluster} {alloc : Server → Nat → UInt64}
  {fifo : Prop} {host : Nat → UInt16} {r : Rrmem} {rsmem : Nat → List Ip6Memaddr} {addr : Nat → Ip6Memaddr} {w : Bufs}
  {st : UInt16 → Server}

/-- The store after `rrmem_allocate`: each host has reserved `nblocks` bytes, and the addresses of every block are those
of the hosts. -/
theorem rrmemAllocate_ends (hn : 0 < nblocks) (hint : nblocks < 2 ^ 31) (hport : targetIp.port = C.port)
    (hinj : ∀ i j, i < H → j < H → host i = host j → i = j) :
    Ends (rmemNet B C alloc fifo) (fun a c => c.flight = [] ∧ c.answers = [] ∧ a.1.port = C.port ∧
        a.2.1 = ⟨4, B, nblocks⟩ ∧
        (∀ block, block < nblocks → remoteAddrs a.2.2 H block =
          some ((List.range H).map (blockOn B me C host (fun i => alloc (st (host i)) nblocks) block))) ∧
        (∀ i, i < H → (c.srv (host i)).live = ((alloc (st (host i)) nblocks).toNat, nblocks) :: (st (host i)).live) ∧
        (∀ p ∈ c.served, p.dst.addr.cmd = allocBulkCmd) ∧ ∀ p ∈ c.rcvd, ∃ i, i < H ∧ p.src.addr = C.addr (host i))
      (start (rrmemAllocate B me (fun i => C.addr (host i)) H nblocks targetIp) st) := by
  have hnat : (UInt64.ofNat nblocks).toNat = nblocks := UInt64.toNat_ofNat_of_lt' (Nat.lt_trans hint (by decide))
  have hne : UInt64.ofNat nblocks ≠ 0 := by
    intro h
    rw [h] at hnat
    exact absurd hnat (Nat.ne_of_lt hn)
  have hnd : ((List.range H).map host).Nodup := List.nodup_range.map_on (fun i hi j hj heq =>
    hinj i j (List.mem_range.mp hi) (List.mem_range.mp hj) heq)
  refine ends_bind (fillRrmem_ends hne (by rw [hnat]; omega) (List.range H) targetIp (fun _ => []) st [] [] hport hnd) ?_
  rintro ⟨targetIp', rsmem⟩ c ⟨hF, hA, hport', hlent, -, -, hserved, hrcvd⟩
  rw [hnat] at hlent
  refine .ret rfl ⟨hF, hA, hport', rfl, fun block hb => ?_, fun i hi => ?_, fun p hp => ?_, fun p hp => ?_⟩
  · exact remoteAddrs_blockOn hb (fun i hi => (hlent i (List.mem_range.mpr hi)).list)
  · exact (hlent i (List.mem_range.mpr hi)).live
  · exact (hserved p hp).resolve_left List.not_mem_nil
  · obtain ⟨i, hi, h⟩ := (hrcvd p hp).resolve_left List.not_mem_nil
    exact ⟨i, List.mem_range.mp hi, h⟩

/-- An exchange with every host: answers and services each come in some order of the hosts. -/
theorem exchange_hosts_ends {W : Net Packet (UInt16 → Server) UInt16} {f : Nat → Packet} {ack : Packet → Packet}
    (hrun : ∀ D, (∀ p ∈ D, p ∈ (List.range H).map f) → (W.run st D).2 = D.map ack) (d rc : List Packet) :
    Ends W (fun ps c => c.flight = [] ∧ c.answers = [] ∧ ∃ is js : List Nat, is.Perm (List.range H) ∧
        js.Perm (List.range H) ∧ ps = is.map (fun i => ack (f i)) ∧ c.srv = (W.run st (js.map f)).1 ∧
        c.served = d ++ js.map f ∧ c.rcvd = rc ++ ps)
      ⟨exchange ((List.range H).map f), [], st, d, [], rc⟩ := by
  refine (exchange_ends hrun d rc).mono ?_
  rintro ps c ⟨hF, hA, hps, D, hD, hsrv, hserved, hrcvd⟩
  rw [List.map_map] at hps
  obtain ⟨is, his, rfl⟩ := exists_hosts hps
  obtain ⟨js, hjs, rfl⟩ := exists_hosts hD
  exact ⟨hF, hA, is, js, his, hjs, rfl, hsrv, hserved, hrcvd⟩

theorem exchange_writes_ends (hB : B < 2 ^ 16) (hport : targetIp.port = C.port) (d rc : List Packet) :
    Ends (rmemNet B C alloc fifo) (fun ps c => c.flight = [] ∧ c.answers = [] ∧ ∃ is js : List Nat,
        is.Perm (List.range H) ∧ js.Perm (List.range H) ∧
        ps = is.map (fun i => ackOf C (writeRqst B me targetIp w i (addr i))) ∧
        c.srv = ((rmemNet B C alloc fifo).run st (js.map (fun i => writeRqst B me targetIp w i (addr i)))).1 ∧
        c.served = d ++ js.map (fun i => writeRqst B me targetIp w i (addr i)) ∧ c.rcvd = rc ++ ps)
      ⟨exchange ((List.range H).map (fun i => writeRqst B me targetIp w i (addr i))), [], st, d, [], rc⟩ := by
  refine exchange_hosts_ends (fun D hD => Net.run_answers D st (fun p hp st => ?_)) d rc
  obtain ⟨i, -, rfl⟩ := List.mem_map.mp (hD p hp)
  rw [serve_write hB hport]

theorem exchange_reads_ends (hport : targetIp.port = C.port) (hp : Placed me host H addr) (d rc : List Packet) :
    Ends (rmemNet B C alloc fifo) (fun ps c => c.flight = [] ∧ c.answers = [] ∧ ∃ is js : List Nat,
        is.Perm (List.range H) ∧ js.Perm (List.range H) ∧
        ps = is.map (fun i => readReply C me.addr.args.toUInt16 st (readRqst me targetIp (addr i))) ∧ c.srv = st ∧
        c.served = d ++ js.map (fun i => readRqst me targetIp (addr i)) ∧ c.rcvd = rc ++ ps)
      ⟨exchange ((List.range H).map (fun i => readRqst me targetIp (addr i))), [], st, d, [], rc⟩ := by
  have hrun : ∀ D, (∀ p ∈ D, p ∈ (List.range H).map (fun i => readRqst me targetIp (addr i))) →
      (rmemNet B C alloc fifo).run st D = (st, D.map (readReply C me.addr.args.toUInt16 st)) := by
    refine fun D hD => Net.run_const D (fun p hpD => ?_)
    obtain ⟨i, hi, rfl⟩ := List.mem_map.mp (hD p hpD)
    rw [serve_read hport, hp.args i (List.mem_range.mp hi)]
  refine (exchange_hosts_ends (fun D hD => congrArg Prod.snd (hrun D hD)) d rc).mono
    (fun ps c ⟨hF, hA, is, js, his, hjs, hps, hsrv, hs, hr⟩ => ⟨hF, hA, is, js, his, hjs, hps, hsrv.trans ?_, hs, hr⟩)
  refine congrArg Prod.fst (hrun _ (fun p hpD => ?_))
  obtain ⟨i, hi, rfl⟩ := List.mem_map.mp hpD
  exact List.mem_map.mpr ⟨i, hjs.subset hi, rfl⟩

theorem rrmemWriteWire_eq {data : Nat → UInt8} (rxBuf : Nat → UInt8)
    (hw : writeBufs maxHosts H r block data = some w)
    (haddr : remoteAddrs rsmem H block = some ((List.range H).map addr)) :
    rrmemWriteWire B maxHosts me H targetIp r rsmem block data rxBuf =
      (exchange ((List.range H).map (fun i => writeRqst B me targetIp w i (addr i)))).bind (fun ps =>
        match writeRaidMem maxHosts B H (needed H r) w rxBuf (ps.map rcvOf) with
        | none   => .fail
        | some _ => .ret (lastSrc targetIp ps)) := by
  unfold rrmemWriteWire
  rw [hw, haddr]
  dsimp only
  rw [mapIdx_map_range]
  rfl

theorem rrmemReadWire_eq (rxBuf out : Nat → UInt8)
    (haddr : remoteAddrs rsmem H block = some ((List.range H).map addr)) :
    rrmemReadWire maxHosts me H targetIp r rsmem block rxBuf out =
      (exchange ((List.range H).map (fun i => readRqst me targetIp (addr i)))).bind (fun ps =>
        match rrmemRead maxHosts H r block rxBuf (ps.map rcvOf) out with
        | none          => .fail
        | some (out, _) => .ret out) := by
  unfold rrmemReadWire
  rw [haddr]
  dsimp only
  rw [List.map_map]
  rfl

theorem lastSrc_port {ps : List Packet} (hport : targetIp.port = C.port) (h : ∀ p ∈ ps, p.src.port = C.port) :
    (lastSrc targetIp ps).port = C.port := by
  unfold lastSrc
  cases hl : ps.getLast? with
  | none => exact hport
  | some p => exact h p (List.mem_of_getLast? hl)

theorem mem_append_map {d : List Packet} {js : List Nat} {f : Nat → Packet} {p : Packet} (hjs : js.Perm (List.range H))
    (hp : p ∈ d ++ js.map f) : p ∈ d ∨ ∃ i, i < H ∧ p = f i := by
  rcases List.mem_append.mp hp with hp | hp
  · exact .inl hp
  · obtain ⟨i, hi, rfl⟩ := List.mem_map.mp hp
    exact .inr ⟨i, List.mem_range.mp (hjs.subset hi), rfl⟩

/-- The addresses are on different hosts. -/
theorem Placed.nodup (hp : Placed me host H addr) (hinj : ∀ i j, i < H → j < H → host i = host j → i = j)
    {js : List Nat} (hjs : js.Perm (List.range H)) : (js.map (fun i => (addr i).subid)).Nodup := by
  apply List.Nodup.map_on
  · intro i hi j hj heq
    have hi := List.mem_range.mp (hjs.subset hi)
    have hj := List.mem_range.mp (hjs.subset hj)
    rw [hp.subid i hi, hp.subid j hj] at heq
    exact hinj i j hi hj heq
  · exact hjs.nodup_iff.mpr List.nodup_range

theorem asked_writeRqst (i : Nat) (a : Ip6Memaddr) : asked (writeRqst B me targetIp w i a) = B :=
  (if_pos rfl).trans (length_readBytes ..)

theorem asked_readRqst (a : Ip6Memaddr) : asked (readRqst me targetIp a) = a.args.toUInt16.toNat :=
  if_neg (show ¬ readCmd = writeCmd by decide)

/-- A request for `B` bytes at `a`. -/
structure AskedAt (B : Nat) (a : Ip6Memaddr) (p : Packet) : Prop where
  size : asked p = B
  subid : p.dst.addr.subid = a.subid
  paddr : p.dst.addr.paddr = a.paddr

/-- **A write that finds its hosts** leaves each with its row. -/
theorem rrmemWriteWire_ends {data : Nat → UInt8} (hmax : maxHosts ≤ 254) (hB : B < 2 ^ 16) (hH : H ≤ maxHosts)
    (hinj : ∀ i j, i < H → j < H → host i = host j → i = j) (hp : Placed me host H addr)
    (hsrc : ∀ i, i < H → s6Addr5 (C.addr (host i)) = UInt8.ofNat (i + 2)) (hport : targetIp.port = C.port)
    (hw : writeBufs maxHosts H r block data = some w)
    (haddr : remoteAddrs rsmem H block = some ((List.range H).map addr)) (rxBuf : Nat → UInt8) (d rc : List Packet) :
    Ends (rmemNet B C alloc fifo) (fun t c => c.flight = [] ∧ c.answers = [] ∧ t.port = C.port ∧
        (∀ i, i < H → readBytes (c.srv (host i)).mem (addr i).paddr.toNat B = readBytes (w i) 0 B) ∧
        (∀ s, (c.srv s).live = (st s).live) ∧ (∀ p ∈ c.served, p ∈ d ∨ ∃ i, i < H ∧ AskedAt B (addr i) p) ∧
        ∀ p ∈ c.rcvd, p ∈ rc ∨ ∃ i, i < H ∧ p.src.addr = C.addr (host i))
      ⟨rrmemWriteWire B maxHosts me H targetIp r rsmem block data rxBuf, [], st, d, [], rc⟩ := by
  rw [rrmemWriteWire_eq rxBuf hw haddr]
  refine ends_bind (exchange_writes_ends hB hport d rc) ?_
  rintro ps c ⟨hF, hA, is, js, his, hjs, rfl, hsrv, hserved, hrcvd⟩
  have hps : (is.map (fun i => ackOf C (writeRqst B me targetIp w i (addr i)))).map rcvOf =
      is.map (fun j => some (UInt8.ofNat (j + 2), [])) := by
    rw [List.map_map]
    apply List.map_congr_left
    intro i hi
    have hi := List.mem_range.mp (his.subset hi)
    rw [← hsrc i hi, ← hp.subid i hi]
    rfl
  have hheard : Heard H (needed H r) (fun _ => []) 0 is _ := heard_all is 0 (by rw [his.length_eq]; simp)
  have hlt : ∀ i ∈ is, i < H := fun i hi => List.mem_range.mp (his.subset hi)
  rw [hps, writeRaidMem_heard hmax hH hlt hheard]
  refine .ret rfl ⟨hF, hA, lastSrc_port hport ?_, fun i hi => ?_, fun s => ?_, fun p hp' => ?_, fun p hp' => ?_⟩
  · intro p hp'
    obtain ⟨i, -, rfl⟩ := List.mem_map.mp hp'
    rfl
  · rw [hsrv, ← hp.subid i hi]
    exact run_writes_row hB hport js st (hp.nodup hinj hjs) (hjs.mem_iff.mpr (List.mem_range.mpr hi))
  · rw [hsrv]
    exact run_writes_live hB hport js st s
  · rw [hserved] at hp'
    refine (mem_append_map hjs hp').imp_right ?_
    rintro ⟨i, hi, rfl⟩
    exact ⟨i, hi, asked_writeRqst i (addr i), rfl, rfl⟩
  · rw [hrcvd] at hp'
    refine (mem_append_map his hp').imp_right ?_
    rintro ⟨i, hi, rfl⟩
    exact ⟨i, hi, congrArg C.addr (hp.subid i hi)⟩

/-- **A read of hosts that have their rows** gives the block, if the addresses ask for all of it. -/
theorem rrmemReadWire_ends {data : Nat → UInt8} (hmax : maxHosts ≤ 254) (hv : Valid maxHosts H r block)
    (hraid : r.raid = 4) (hsize : r.blockSize = B) (hargs : me.addr.args.toUInt16.toNat = B) (hp : Placed me host H addr)
    (hsrc : ∀ i, i < H → s6Addr5 (C.addr (host i)) = UInt8.ofNat (i + 2)) (hport : targetIp.port = C.port)
    (hrows : ∀ i, i < H → readBytes (st (host i)).mem (addr i).paddr.toNat B =
      readBytes (columns B (H - 1) (H - 1) data i) 0 B)
    (haddr : remoteAddrs rsmem H block = some ((List.range H).map addr)) (rxBuf out : Nat → UInt8)
    (d rc : List Packet) :
    Ends (rmemNet B C alloc fifo) (fun out c => readBytes out 0 B = readBytes data 0 B ∧ c.srv = st ∧
        (∀ p ∈ c.served, p ∈ d ∨ ∃ i, i < H ∧ AskedAt B (addr i) p) ∧
        ∀ p ∈ c.rcvd, p ∈ rc ∨ ∃ i, i < H ∧ p.src.addr = C.addr (host i))
      ⟨rrmemReadWire maxHosts me H targetIp r rsmem block rxBuf out, [], st, d, [], rc⟩ := by
  have hn : 0 < H - 1 := by have := hv.2.1; omega
  subst hsize
  rw [rrmemReadWire_eq rxBuf out haddr]
  refine ends_bind (exchange_reads_ends hport hp d rc) ?_
  rintro ps c ⟨-, -, is, js, his, hjs, rfl, hsrv, hserved, hrcvd⟩
  have hps : (is.map (fun i => readReply C me.addr.args.toUInt16 st (readRqst me targetIp (addr i)))).map rcvOf =
      is.map (fun j => some (UInt8.ofNat (j + 2),
        readBytes (columns r.blockSize (H - 1) (H - 1) data j) 0 r.blockSize)) := by
    rw [List.map_map]
    apply List.map_congr_left
    intro i hi
    have hi := List.mem_range.mp (his.subset hi)
    rw [← hsrc i hi, ← hrows i hi, ← hp.subid i hi, ← hargs]
    rfl
  have hheard : Heard H (needed H r) (fun j => readBytes (columns r.blockSize (H - 1) (H - 1) data j) 0 r.blockSize) 0 is
    _ := heard_all is 0 (by rw [his.length_eq]; simp)
  have his' : ∀ i, i ∈ is ↔ i < H ∧ none ≠ some i := fun i => by simp [his.mem_iff]
  have hnone : ∀ m ∈ (none : Option Nat), m < H := fun m hm => absurd hm (Option.not_mem_none m)
  obtain ⟨b, hread, hb⟩ := readRaidMem_heard hmax hv.2.2 (fun j => length_readBytes ..) hnone his' hheard rxBuf
  obtain ⟨out', hout, hiff⟩ := readBufs_iff hv (.inl hraid) none b out data
  have hrr : rrmemRead maxHosts H r block rxBuf (is.map (fun j => some (UInt8.ofNat (j + 2),
      readBytes (columns r.blockSize (H - 1) (H - 1) data j) 0 r.blockSize))) out = some (out', []) := by
    simp only [rrmemRead, hraid, hread, hout, Option.bind_eq_bind, Option.bind_some]
    rfl
  rw [hps, hrr]
  refine .ret rfl ⟨hiff.mpr ?_, hsrv, fun p hp' => ?_, fun p hp' => ?_⟩
  · rw [parityHost, if_pos hraid]
    refine holds_of_columns hv.2.1 hnone (fun j hj _ => ?_)
    rw [hb j, if_pos ((his' j).mpr ⟨hj, (Option.some_ne_none j).symm⟩)]
    exact writeBytes_columns hn data j
  · rw [hserved] at hp'
    refine (mem_append_map hjs hp').imp_right ?_
    rintro ⟨i, hi, rfl⟩
    exact ⟨i, hi, by rw [asked_readRqst, hp.args i hi, hargs], rfl, rfl⟩
  · rw [hrcvd] at hp'
    refine (mem_append_map his hp').imp_right ?_
    rintro ⟨i, hi, rfl⟩
    exact ⟨i, hi, congrArg C.addr (hp.subid i hi)⟩

/-! A run of the three phases that returns has been through each of them. -/

theorem ends_after_write {α : Type} {data rxBuf : Nat → UInt8} {k : SockaddrIn6 → Prog Packet α}
    {Q : α → Conf Packet (UInt16 → Server) α → Prop} {d rc : List Packet} (hB : B < 2 ^ 16)
    (hport : targetIp.port = C.port) (hw : writeBufs maxHosts H r block data = some w)
    (haddr : remoteAddrs rsmem H block = some ((List.range H).map addr))
    (h : Ends (rmemNet B C alloc fifo) Q
      ⟨(rrmemWriteWire B maxHosts me H targetIp r rsmem block data rxBuf).bind k, [], st, d, [], rc⟩) :
    ∃ t st' d' rc', t.port = C.port ∧ (∀ s, (st' s).live = (st s).live) ∧
      Ends (rmemNet B C alloc fifo) Q ⟨k t, [], st', d', [], rc'⟩ := by
  rw [rrmemWriteWire_eq _ hw haddr, Prog.bind_assoc] at h
  obtain ⟨ps, c, -, -, ⟨hF, hA, is, js, -, -, hps, hsrv, -⟩, hE⟩ :=
    ((exchange_writes_ends hB hport d rc).and (ends_of_bind h ⟨_, _, _, _, _, _⟩ rfl)).returns
  rw [hF, hA] at hE
  refine ⟨lastSrc targetIp ps, c.srv, c.served, c.rcvd, lastSrc_port hport (fun p hp => ?_), fun s => ?_, ?_⟩
  · rw [hps] at hp
    obtain ⟨i, -, rfl⟩ := List.mem_map.mp hp
    rfl
  · rw [hsrv]
    exact run_writes_live hB hport js st s
  · split at hE
    · exact absurd hE (not_ends_fail rfl)
    · exact hE

theorem ends_after_read {rxBuf out : Nat → UInt8}
    {Q : (Nat → UInt8) → Conf Packet (UInt16 → Server) (Nat → UInt8) → Prop} {d rc : List Packet}
    (hport : targetIp.port = C.port) (hp : Placed me host H addr)
    (haddr : remoteAddrs rsmem H block = some ((List.range H).map addr))
    (h : Ends (rmemNet B C alloc fifo) Q ⟨rrmemReadWire maxHosts me H targetIp r rsmem block rxBuf out, [], st, d, [],
      rc⟩) :
    ∃ out c, Q out c ∧ c.srv = st ∧ (∀ i, i < H → readRqst me targetIp (addr i) ∈ c.served) ∧
      ∀ i, i < H → readReply C me.addr.args.toUInt16 st (readRqst me targetIp (addr i)) ∈ c.rcvd := by
  rw [rrmemReadWire_eq _ _ haddr] at h
  obtain ⟨ps, c, -, -, ⟨-, -, is, js, his, hjs, hps, hsrv, hserved, hrcvd⟩, hE⟩ :=
    ((exchange_reads_ends hport hp d rc).and (ends_of_bind h ⟨_, _, _, _, _, _⟩ rfl)).returns
  split at hE
  · exact absurd hE (not_ends_fail rfl)
  · refine ⟨_, _, hE.of_ret rfl, hsrv, fun i hi => ?_, fun i hi => ?_⟩
    · rw [hserved]
      exact List.mem_append_right _ (List.mem_map.mpr ⟨i, hjs.mem_iff.mpr (List.mem_range.mpr hi), rfl⟩)
    · rw [hrcvd, hps]
      exact List.mem_append_right _ (List.mem_map.mpr ⟨i, his.mem_iff.mpr (List.mem_range.mpr hi), rfl⟩)

end Phases

/-! ## End to end -/

section EndToEnd

variable {B maxHosts H nblocks : Nat} {me : SockaddrIn6} {C : Cluster} {host : Nat → UInt16}

/-- **One byte a block is what a host reserves.** -/
theorem reserves_blockOn {ptr : Nat → UInt64} {block i : Nat} {h : Server} {live : List (Nat × Nat)}
    (hfresh : Fresh live ((ptr i).toNat, nblocks)) (hlive : h.live = ((ptr i).toNat, nblocks) :: live)
    (hb : block < nblocks) : h.Reserves ((blockOn 1 me C host ptr block i).range 1) := by
  have hfits : (ptr i).toNat + nblocks ≤ 2 ^ 64 := hfresh.fits
  have hrange : (blockOn 1 me C host ptr block i).range 1 = ((ptr i).toNat + block * 1, 1) :=
    range_blockAddr (by show (ptr i).toNat + block * 1 < 2 ^ 64; omega)
  refine ⟨_, hlive ▸ List.mem_cons_self, ?_⟩
  rw [hrange]
  unfold Within
  dsimp only
  omega

theorem endToEnd_of_addrs (hmax : maxHosts ≤ 254) (hH : 2 ≤ H) (hle : H ≤ maxHosts)
    (hinj : ∀ i j, i < H → j < H → host i = host j → i = j) (hn : 0 < nblocks) (hint : nblocks < 2 ^ 31)
    (hargs : me.addr.args.toUInt16.toNat = 1) (hbyte : ∀ i, i < H → (s6Addr5 (C.addr (host i))).toNat = i + 2) :
    EndToEnd 1 maxHosts me C host H nblocks := by
  intro alloc fifo st targetIp block data rxBuf rxBuf' out hport hb hfresh
  have hsrc : ∀ i, i < H → s6Addr5 (C.addr (host i)) = UInt8.ofNat (i + 2) := by
    intro i hi
    rw [← hbyte i hi, UInt8.ofNat_toNat]
  refine ends_bind (rrmemAllocate_ends hn hint hport hinj) ?_
  rintro ⟨targetIp₁, r, rsmem⟩ c ⟨hF, hA, hport₁, hr, hblocks, hlive, hserved, hrcvd⟩
  cases hr
  have haddr := hblocks block hb
  have hp := placed_blockOn 1 me C host (fun i => alloc (st (host i)) nblocks) block H
  have hv : Valid maxHosts H ⟨4, 1, nblocks⟩ block := ⟨hb, hH, hle⟩
  obtain ⟨w, hw, hcol⟩ := writeBufs_columns hv (.inl rfl) data
  rw [hF, hA]
  refine ends_bind (rrmemWriteWire_ends hmax (by decide) hle hinj hp hsrc hport₁ hw haddr rxBuf c.served c.rcvd) ?_
  rintro targetIp₂ c₂ ⟨hF₂, hA₂, hport₂, hrows, hlive₂, hserved₂, hrcvd₂⟩
  rw [hF₂, hA₂]
  have hrows' : ∀ i, i < H → readBytes (c₂.srv (host i)).mem
      (blockOn 1 me C host (fun i => alloc (st (host i)) nblocks) block i).paddr.toNat 1 =
      readBytes (columns 1 (H - 1) (H - 1) data i) 0 1 := by
    intro i hi
    rw [hrows i hi, hcol i hi]
    rfl
  refine (rrmemReadWire_ends hmax hv rfl rfl hargs hp hsrc hport₂ hrows' haddr rxBuf' out c₂.served c₂.rcvd).mono ?_
  rintro out' c₃ ⟨hout, hsrv₃, hserved₃, hrcvd₃⟩
  refine ⟨hout, fun p hp' hcmd => ?_, fun p hp' i hi hsub => ?_⟩
  · have hat : ∃ i, i < H ∧ AskedAt 1 (blockOn 1 me C host (fun i => alloc (st (host i)) nblocks) block i) p := by
      rcases hserved₃ p hp' with h | h
      · rcases hserved₂ p h with h | h
        · -- an allocation request
          rw [hserved p h] at hcmd
          exact absurd hcmd (by decide)
        · exact h
      · exact h
    obtain ⟨i, hi, hask⟩ := hat
    refine ⟨hask.size, ?_⟩
    rw [hask.size, hask.subid, hp.subid i hi, Ip6Memaddr.range, hask.paddr]
    refine reserves_blockOn (hfresh i hi) ?_ hb
    rw [hsrv₃, hlive₂, hlive i hi]
  · have hfrom : ∃ j, j < H ∧ p.src.addr = C.addr (host j) := by
      rcases hrcvd₃ p hp' with h | h
      · rcases hrcvd₂ p h with h | h
        · exact hrcvd p h
        · exact h
      · exact h
    obtain ⟨j, hj, hjp⟩ := hfrom
    rw [hjp, C.subid_addr] at hsub
    rw [hjp, hinj j i hj hi hsub, hsrc i hi]
    exact hostOf_ofNat (by omega) hmax

theorem addrs_of_endToEnd (hB₀ : 0 < B) (hB : B < 2 ^ 16) (hH : 2 ≤ H) (hle : H ≤ maxHosts)
    (hinj : ∀ i j, i < H → j < H → host i = host j → i = j) (hn : 0 < nblocks) (hint : nblocks < 2 ^ 31)
    (h : EndToEnd B maxHosts me C host H nblocks) :
    B = 1 ∧ me.addr.args.toUInt16.toNat = B ∧ ∀ i, i < H → (s6Addr5 (C.addr (host i))).toNat = i + 2 := by
  -- one run is enough, with the last block: its read requests carry the client's `args`, and each host answers
  have hlast : nblocks - 1 < nblocks := Nat.sub_lt hn Nat.one_pos
  have hfresh : ∀ i, i < H → Fresh [] ((1 : UInt64).toNat, nblocks) := fun _ _ =>
    ⟨Nat.one_pos, by rw [UInt64.toNat_one]; omega, fun l hl => by cases hl⟩
  have hE := h (fun _ _ => 1) True (fun _ => ⟨fun _ => 0, []⟩) ⟨⟨0, 0, 0, 0⟩, C.port⟩ (nblocks - 1) (fun _ => 0)
    (fun _ => 0) (fun _ => 0) (fun _ => 0) rfl hlast hfresh
  obtain ⟨⟨targetIp₁, r, rsmem⟩, c, -, -, ⟨hF, hA, hport₁, hr, hblocks, hlive, -, -⟩, hE₁⟩ :=
    ((rrmemAllocate_ends hn hint rfl hinj).and (ends_of_bind hE (start _ _) rfl)).returns
  cases hr
  have haddr := hblocks _ hlast
  have hp := placed_blockOn B me C host (fun _ => 1) (nblocks - 1) H
  obtain ⟨w, hw, -⟩ := writeBufs_columns (⟨hlast, hH, hle⟩ : Valid maxHosts H ⟨4, B, nblocks⟩ (nblocks - 1)) (.inl rfl)
    (fun _ => 0)
  rw [hF, hA] at hE₁
  obtain ⟨targetIp₂, st₂, d₂, rc₂, hport₂, hlive₂, hE₂⟩ := ends_after_write hB hport₁ hw haddr hE₁
  obtain ⟨out, c₃, ⟨-, hasked, hstored⟩, hsrv, hserved, hrcvd⟩ := ends_after_read hport₂ hp haddr hE₂
  obtain ⟨hsize, hres⟩ := hasked _ (hserved 0 (by omega)) (.inr rfl)
  refine ⟨?_, ?_, ?_⟩
  · -- the block ends where the region does
    have hmul : (nblocks - 1) * B ≤ 2 ^ 31 * 2 ^ 16 := Nat.mul_le_mul (by omega) (Nat.le_of_lt hB)
    have hrange : (blockOn B me C host (fun _ => 1) (nblocks - 1) 0).range B = (1 + (nblocks - 1) * B, B) :=
      range_blockAddr (by show 1 + (nblocks - 1) * B < 2 ^ 64; omega)
    rw [hsize, show (readRqst me targetIp₂ (blockOn B me C host (fun _ => 1) (nblocks - 1) 0)).dst.addr.range B = _ from
      hrange] at hres
    obtain ⟨l, hl, hwithin⟩ := hres
    rw [show (readRqst me targetIp₂ (blockOn B me C host (fun _ => 1) (nblocks - 1) 0)).dst.addr.subid = host 0 from
      hp.subid 0 (by omega), hsrv, hlive₂, hlive 0 (by omega), List.mem_singleton] at hl
    subst hl
    have hend : 1 + (nblocks - 1) * B + B ≤ 1 + nblocks := hwithin.2
    have hsucc : (nblocks - 1) * B + B = nblocks * B := by
      rw [← Nat.succ_mul, Nat.succ_eq_add_one, Nat.sub_add_cancel hn]
    have hle' : nblocks * B ≤ nblocks * 1 := by omega
    have := Nat.le_of_mul_le_mul_left hle' hn
    omega
  · rwa [asked_readRqst, hp.args 0 (by omega)] at hsize
  · intro i hi
    have hsub : (C.addr (blockOn B me C host (fun _ => 1) (nblocks - 1) i).subid).subid = host i :=
      (C.subid_addr _).trans (hp.subid i hi)
    have hbyte := hostOf_eq_some (hstored _ (hrcvd i hi) i hi hsub)
    rw [← hbyte, ← hp.subid i hi]
    rfl

/-- **The store works over the wire exactly if blocks are single bytes and the addresses carry what it takes from them**:
the client's the length of a block, and host `i`'s the number `i + 2` in byte 5. -/
theorem raid_end_to_end_iff (hmax : maxHosts ≤ 254) (hB₀ : 0 < B) (hB : B < 2 ^ 16) (hH : 2 ≤ H) (hle : H ≤ maxHosts)
    (hinj : ∀ i j, i < H → j < H → host i = host j → i = j) (hn : 0 < nblocks) (hint : nblocks < 2 ^ 31) :
    EndToEnd B maxHosts me C host H nblocks ↔
      B = 1 ∧ me.addr.args.toUInt16.toNat = B ∧ ∀ i, i < H → (s6Addr5 (C.addr (host i))).toNat = i + 2 := by
  constructor
  · exact addrs_of_endToEnd hB₀ hB hH hle hinj hn hint
  · rintro ⟨rfl, hargs, hbyte⟩
    exact endToEnd_of_addrs hmax hH hle hinj hn hint hargs hbyte

/-- Hosts whose addresses, and a client whose address, carry what the store takes from them. -/
def numberedCluster : Cluster := ⟨5000, fun s => ⟨s, 0, s.toUInt32 <<< 8, 0⟩, fun _ => rfl⟩

theorem raid_end_to_end_iff_numbered :
    EndToEnd 1 5 ⟨⟨0x0101, 0, 1, 0⟩, 6000⟩ numberedCluster (fun i => UInt16.ofNat (i + 2)) 3 8 := by
  refine (raid_end_to_end_iff (by decide) (by decide) (by decide) (by decide) (by decide) ?_ (by decide)
    (by decide)).mpr ⟨rfl, rfl, by decide⟩
  intro i j hi hj h
  have := congrArg UInt16.toNat h
  simp only [UInt16.toNat_ofNat'] at this
  omega

/-- An answer whose source address names no host is copied outside the rows. -/
theorem writeRaidMem_no_host {needed : Nat} {w : Bufs} {rxBuf : Nat → UInt8} {src : UInt8} {d : List UInt8}
    {outs : List Rcv} (hH : 0 < H) (h : hostOf maxHosts src = none) :
    writeRaidMem maxHosts B H needed w rxBuf (some (src, d) :: outs) = none := by
  simp only [writeRaidMem, rcvLoop, if_pos hH, storeAck, h, Option.bind_eq_bind, Option.bind_none]

/-- **With addresses that name no host, the first write does not return.** -/
theorem not_ends_of_no_host (hB : B < 2 ^ 16) (hH : 2 ≤ H) (hle : H ≤ maxHosts)
    (hinj : ∀ i j, i < H → j < H → host i = host j → i = j) (hn : 0 < nblocks) (hint : nblocks < 2 ^ 31)
    (hnone : ∀ i, i < H → hostOf maxHosts (s6Addr5 (C.addr (host i))) = none)
    {alloc : Server → Nat → UInt64} {fifo : Prop} {st : UInt16 → Server} {targetIp : SockaddrIn6} {block : Nat}
    {data rxBuf rxBuf' out : Nat → UInt8} {Q : (Nat → UInt8) → Conf Packet (UInt16 → Server) (Nat → UInt8) → Prop}
    (hport : targetIp.port = C.port) (hb : block < nblocks) :
    ¬ Ends (rmemNet B C alloc fifo) Q (start (allocWriteRead B maxHosts me H targetIp block (fun i => C.addr (host i))
      nblocks data rxBuf rxBuf' out) st) := by
  intro hE
  obtain ⟨⟨targetIp₁, r, rsmem⟩, c, -, -, ⟨hF, hA, hport₁, hr, hblocks, -⟩, hE₁⟩ :=
    ((rrmemAllocate_ends hn hint hport hinj).and (ends_of_bind hE (start _ _) rfl)).returns
  cases hr
  obtain ⟨addr, hp, haddr⟩ : ∃ addr, Placed me host H addr ∧ remoteAddrs rsmem H block = some ((List.range H).map addr) :=
    ⟨_, placed_blockOn B me C host (fun i => alloc (st (host i)) nblocks) block H, hblocks block hb⟩
  obtain ⟨w, hw, -⟩ := writeBufs_columns (⟨hb, hH, hle⟩ : Valid maxHosts H ⟨4, B, nblocks⟩ block) (.inl rfl) data
  rw [hF, hA] at hE₁
  dsimp only at hE₁ haddr hport₁
  rw [rrmemWriteWire_eq _ hw haddr, Prog.bind_eq, Prog.bind_assoc] at hE₁
  obtain ⟨ps, c₂, -, -, ⟨-, -, is, -, his, -, hps, -⟩, hE₂⟩ :=
    ((exchange_writes_ends hB hport₁ c.served c.rcvd).and (ends_of_bind hE₁ ⟨_, _, _, _, _, _⟩ rfl)).returns
  cases is with
  | nil =>
    have := his.length_eq
    rw [List.length_range] at this
    exact absurd this (by simp; omega)
  | cons i is =>
    have hi := List.mem_range.mp (his.subset List.mem_cons_self)
    have hno : hostOf maxHosts (s6Addr5 (C.addr (addr i).subid)) = none := by
      rw [hp.subid i hi]
      exact hnone i hi
    rw [hps, List.map_cons, List.map_cons] at hE₂
    rw [show rcvOf (ackOf C (writeRqst B me targetIp₁ w i (addr i))) = some (s6Addr5 (C.addr (addr i).subid), []) from rfl,
      writeRaidMem_no_host (by omega) hno] at hE₂
    exact not_ends_fail rfl hE₂

/-- The shipped configuration: the client at `101::`, hosts `102::` and `103::`, one-byte blocks. -/
theorem raid_shipped_addresses_fail :
    ¬ Ends (rmemNet 1 plainCluster (fun _ _ => 4096) True) (fun _ _ => True)
      (start (allocWriteRead 1 5 ⟨⟨0x0101, 0, 0, 0⟩, 6000⟩ 2 ⟨⟨0, 0, 0, 0⟩, 5000⟩ 0
        (fun i => plainCluster.addr ([0x0201, 0x0301].getD i 0)) 1 (fun _ => 7) (fun _ => 0) (fun _ => 0) (fun _ => 0))
        (fun _ => ⟨fun _ => 0, []⟩)) := by
  have hinj : ∀ i, i < 2 → ∀ j, j < 2 → ([0x0201, 0x0301].getD i 0 : UInt16) = [0x0201, 0x0301].getD j 0 → i = j := by
    decide
  exact not_ends_of_no_host (by decide) (by decide) (by decide) (fun i j hi hj => hinj i hi j hj) (by decide) (by decide)
    (by decide) rfl (by decide)

end EndToEnd

end Raid
end Bb
