import BlueBridge.RmemLinear
/-!
# RmemBlocks — the blocks of a remote disk (`fill_rmem`, `rmem_allocate`, `rmem_deallocate`)

The blocks are split evenly over the hosts and the last host takes the rest.  Each host reserves its share in one region,
and the list of the disk holds an address for every block.  `rmem_deallocate` splits the blocks once more and frees the
first address of every share.  With fewer blocks than hosts every share but the last is empty: the server reserves a
byte for it that has no address in the list, and the frees meant for it go to the first block again.
-/
namespace Bb
namespace RemoteDisk

open Wire Rmem
open Function (update_of_ne)

/-- `struct config`: at most forty hosts, in different subnets. -/
structure Config where
  hosts : List Ip6Memaddr
  room : hosts.length ≤ 40
  distinct : (hosts.map (·.subid)).Nodup

/-- `struct rmem`.  `malloc` leaves the list undefined. -/
structure Rmem where
  memList : List (Option Ip6Memaddr)
  blockSize : Nat
  nblocks : Nat

/-- `get_ip6_target`, whose index is a `uint8_t`. -/
def getIp6Target (conf : Config) (index : UInt8) : Option Ip6Memaddr := conf.hosts[index.toNat]?

/-! ## The split -/

def hostOffset (nblocks numHosts i : Nat) : Nat := nblocks / numHosts * i

def hostLength (nblocks numHosts i : Nat) : Nat :=
  if i = numHosts - 1 then nblocks - hostOffset nblocks numHosts i else nblocks / numHosts

/-- `memcpy(&memList[offset], temp, …)`. -/
def memcpyList (memList : List (Option Ip6Memaddr)) (offset : Nat) (temp : List Ip6Memaddr) :
    Option (List (Option Ip6Memaddr)) :=
  if offset + temp.length ≤ memList.length then
    some (memList.take offset ++ temp.map some ++ memList.drop (offset + temp.length))
  else none

section Client

variable (B : Nat) (me : SockaddrIn6) (conf : Config)

def fillRmem (nblocks : Nat) : List Nat → SockaddrIn6 → List (Option Ip6Memaddr) →
    Prog Packet (SockaddrIn6 × List (Option Ip6Memaddr))
  | [],     targetIp, memList => pure (targetIp, memList)
  | i :: r, targetIp, memList =>
    match getIp6Target conf (UInt8.ofNat i) with
    | none      => .fail
    | some host => do
      let length := hostLength nblocks conf.hosts.length i
      let (targetIp, temp) ← allocateBulkRmem B me { targetIp with addr := host } (UInt64.ofNat length)
      match memcpyList memList (hostOffset nblocks conf.hosts.length i) temp with
      | none         => .fail
      | some memList => fillRmem nblocks r targetIp memList

def rmemAllocate (targetIp : SockaddrIn6) (nblocks : Nat) : Prog Packet (SockaddrIn6 × Rmem) := do
  let (targetIp, memList) ← fillRmem B me conf nblocks (List.range conf.hosts.length) targetIp
    (List.replicate nblocks none)
  pure (targetIp, ⟨memList, B, nblocks⟩)

/-- The loop of `rmem_deallocate`. -/
def freeRmems (nblocks : Nat) : List Nat → SockaddrIn6 → List (Option Ip6Memaddr) → Prog Packet SockaddrIn6
  | [],     targetIp, _       => pure targetIp
  | i :: r, targetIp, memList =>
    match memList[hostOffset nblocks conf.hosts.length i]? with
    | some (some a) => do
      let (targetIp, a) ← freeRmem me targetIp a
      freeRmems nblocks r targetIp (memList.set (hostOffset nblocks conf.hosts.length i) (some a))
    | _ => .fail

def rmemDeallocate (targetIp : SockaddrIn6) (r : Rmem) : Prog Packet SockaddrIn6 :=
  freeRmems me conf r.nblocks (List.range conf.hosts.length) targetIp r.memList

/-- `rmem_allocate` and `rmem_deallocate`, with the disk as it was in between. -/
def allocateDeallocate (targetIp : SockaddrIn6) (nblocks : Nat) : Prog Packet Rmem := do
  let (targetIp, r) ← rmemAllocate B me conf targetIp nblocks
  let _ ← rmemDeallocate me conf targetIp r
  pure r

end Client

/-! ## Shares -/

section Split

variable {n H : Nat}

/-- The blocks of the first `k` hosts. -/
def filledTo (n H k : Nat) : Nat := if k < H then n / H * k else n

theorem filledTo_succ {k : Nat} (hk : k < H) : filledTo n H k + hostLength n H k = filledTo n H (k + 1) := by
  have hle : n / H * k ≤ n := Nat.le_trans (Nat.mul_le_mul_left _ (Nat.le_of_lt hk)) (Nat.div_mul_le_self ..)
  unfold filledTo hostLength hostOffset
  rw [if_pos hk]
  by_cases hlast : k = H - 1
  · rw [if_pos hlast, if_neg (by omega)]
    omega
  · rw [if_neg hlast, if_pos (by omega), Nat.mul_succ]

theorem filledTo_le (k : Nat) : filledTo n H k ≤ n := by
  unfold filledTo
  split
  · next hk => exact Nat.le_trans (Nat.mul_le_mul_left _ (Nat.le_of_lt hk)) (Nat.div_mul_le_self ..)
  · exact Nat.le_refl n

theorem hostOffset_eq {k : Nat} (hk : k < H) : hostOffset n H k = filledTo n H k := (if_pos hk).symm

/-- The entries of the list the shares are copied to, in order. -/
def copied (n H : Nat) : List Nat :=
  (List.range H).flatMap (fun i => List.range' (hostOffset n H i) (hostLength n H i))

theorem flatMap_shares : ∀ (m k : Nat), k + m = H →
    (List.range' k m).flatMap (fun i => List.range' (hostOffset n H i) (hostLength n H i)) =
      List.range' (filledTo n H k) (n - filledTo n H k)
  | 0, k, h => by
    have : filledTo n H k = n := if_neg (by omega)
    rw [this, Nat.sub_self]
    rfl
  | m + 1, k, h => by
    have hk : k < H := by omega
    have hsucc := filledTo_succ (n := n) hk
    have hle := filledTo_le (n := n) (H := H) (k + 1)
    rw [List.range'_succ, List.flatMap_cons, flatMap_shares m (k + 1) (by omega), hostOffset_eq hk, ← hsucc,
      List.range'_append_1]
    exact congrArg (List.range' (filledTo n H k)) (by omega)

/-- **The shares fill the list**, every entry once. -/
theorem copied_eq (hH : 0 < H) : copied n H = List.range n := by
  have h0 : filledTo n H 0 = 0 := if_pos hH
  rw [copied, List.range_eq_range', flatMap_shares H 0 (Nat.zero_add H), h0, Nat.sub_zero, ← List.range_eq_range']

end Split

/-! ## Allocation -/

def Config.host (conf : Config) (i : Nat) : Ip6Memaddr := conf.hosts.getD i ⟨0, 0, 0, 0⟩

theorem getIp6Target_eq (conf : Config) {i : Nat} (h : i < conf.hosts.length) :
    getIp6Target conf (UInt8.ofNat i) = some (conf.host i) := by
  have hroom := conf.room
  have hi : (UInt8.ofNat i).toNat = i := UInt8.toNat_ofNat_of_lt' (by show i < 256; omega)
  rw [getIp6Target, hi, Config.host, List.getD_eq_getElem?_getD, List.getElem?_eq_getElem h]
  rfl

theorem host_subid_ne (conf : Config) {i j : Nat} (hi : i < conf.hosts.length) (hj : j < conf.hosts.length)
    (hij : i ≠ j) : (conf.host i).subid ≠ (conf.host j).subid := by
  intro h
  have hmap : ∀ k, k < conf.hosts.length → (conf.hosts.map (·.subid))[k]? = some (conf.host k).subid := fun k hk => by
    rw [List.getElem?_map, Config.host, List.getD_eq_getElem?_getD, List.getElem?_eq_getElem hk]
    rfl
  refine hij ((List.getElem?_inj (by rwa [List.length_map]) conf.distinct).1 ?_)
  rw [hmap i hi, hmap j hj, h]

/-- The blocks freed, by the requests the servers served. -/
def freesOf (ps : List Packet) : List (UInt16 × UInt64) :=
  (ps.filter (fun p => p.dst.addr.cmd = freeCmd)).map (fun p => place p.dst.addr)

/-- The regions the servers reserved, by their answers. -/
def regionsOf (ps : List Packet) : List (UInt16 × UInt64) :=
  (ps.filter (fun p => p.dst.addr.cmd = allocBulkCmd)).map (fun p => (p.src.addr.subid, p.dst.addr.paddr))

theorem freesOf_append (ps qs : List Packet) : freesOf (ps ++ qs) = freesOf ps ++ freesOf qs := by
  simp only [freesOf, List.filter_append, List.map_append]

theorem regionsOf_append (ps qs : List Packet) : regionsOf (ps ++ qs) = regionsOf ps ++ regionsOf qs := by
  simp only [regionsOf, List.filter_append, List.map_append]

section Alloc

variable (B : Nat) (C : Cluster) (alloc : Server → Nat → UInt64) (me : SockaddrIn6) (conf : Config) (n : Nat)
  (st₀ : UInt16 → Server)

/-- The region host `i` reserves for its share. -/
def region (i : Nat) : UInt16 × UInt64 :=
  ((conf.host i).subid,
    alloc (st₀ (conf.host i).subid) (bulkSize (UInt64.ofNat (hostLength n conf.hosts.length i))))

/-- The addresses of the share. -/
def shareAddrs (i : Nat) : List Ip6Memaddr :=
  bulkAddrs B (baseAddr C me (region alloc conf n st₀ i).1 (region alloc conf n st₀ i).2)
    (hostLength n conf.hosts.length i)

/-- The bytes it reserves: as many as the share has blocks, one if it has none. -/
def regionSize (i : Nat) : Nat := bulkSize (UInt64.ofNat (hostLength n conf.hosts.length i))

variable {B C alloc me conf n st₀} {fifo : Prop} {targetIp : SockaddrIn6} {st : UInt16 → Server}

/-- The hosts from `k` on have their regions, and no other server has changed since `st`. -/
structure SharesReserved (alloc : Server → Nat → UInt64) (conf : Config) (n : Nat) (st₀ : UInt16 → Server) (k : Nat)
    (st st' : UInt16 → Server) : Prop where
  live : ∀ i, k ≤ i → i < conf.hosts.length → (st' (conf.host i).subid).live =
    ((region alloc conf n st₀ i).2.toNat, regionSize conf n i) :: (st₀ (conf.host i).subid).live
  others : ∀ s, (∀ i, k ≤ i → i < conf.hosts.length → (conf.host i).subid ≠ s) → st' s = st s

theorem length_shareAddrs (i : Nat) :
    (shareAddrs B C alloc me conf n st₀ i).length = hostLength n conf.hosts.length i := by
  rw [shareAddrs, bulkAddrs, List.length_map, List.length_range]

theorem hostLength_le (i : Nat) {H : Nat} : hostLength n H i ≤ n := by
  unfold hostLength
  split
  · exact Nat.sub_le ..
  · exact Nat.div_le_self ..

theorem allocateBulkRmem_logs {len : Nat} (hport : targetIp.port = C.port) (hlen : len < 2 ^ 31) :
    Logs (rmemNet B C alloc fifo) (allocateBulkRmem B me targetIp (UInt64.ofNat len)) st (fun r st' D R =>
      r.1.port = C.port ∧
      r.2 = bulkAddrs B (baseAddr C me targetIp.addr.subid
        (alloc (st targetIp.addr.subid) (bulkSize (UInt64.ofNat len)))) len ∧
      st' = reserved alloc st targetIp.addr.subid (bulkSize (UInt64.ofNat len)) ∧ freesOf D = [] ∧
      regionsOf R = [(targetIp.addr.subid, alloc (st targetIp.addr.subid) (bulkSize (UInt64.ofNat len)))]) := by
  have htoNat : (UInt64.ofNat len).toNat = len := UInt64.toNat_ofNat_of_lt' (Nat.lt_trans hlen (by decide))
  have hserve : (rmemNet B C alloc fifo).serve st (allocBulkPkt me targetIp (UInt64.ofNat len)) = _ :=
    handlePacket_bulkSize B hport
  rw [allocateBulkRmem_eq (by rw [htoNat]; omega), htoNat]
  refine (logs_request _ hserve).mono ?_
  rintro r st' D R ⟨rfl, rfl, rfl, rfl⟩
  refine ⟨rfl, rfl, rfl, rfl, ?_⟩
  show [((C.addr targetIp.addr.subid).subid, _)] = _
  rw [C.subid_addr]
  rfl

theorem memcpyList_done {done temp : List Ip6Memaddr} (h : done.length + temp.length ≤ n) :
    memcpyList (done.map some ++ List.replicate (n - done.length) none) done.length temp =
      some ((done ++ temp).map some ++ List.replicate (n - (done ++ temp).length) none) := by
  have hlen : (done.map some ++ List.replicate (n - done.length) (none : Option Ip6Memaddr)).length = n := by
    rw [List.length_append, List.length_map, List.length_replicate]
    omega
  rw [memcpyList, if_pos (by rwa [hlen]), List.take_left' (List.length_map ..), List.drop_append, List.length_map,
    List.drop_eq_nil_of_le (by rw [List.length_map]; omega), List.nil_append, List.drop_replicate, List.map_append,
    List.length_append]
  congr 3
  omega

/-- **What `fill_rmem` leaves**: the shares one after the other, each in a region of its host. -/
theorem fillRmem_logs (hint : n < 2 ^ 31) : ∀ (m k : Nat) (done : List Ip6Memaddr) (targetIp : SockaddrIn6)
    (st : UInt16 → Server), k + m = conf.hosts.length → targetIp.port = C.port →
    done.length = filledTo n conf.hosts.length k →
    (∀ i, k ≤ i → i < conf.hosts.length → st (conf.host i).subid = st₀ (conf.host i).subid) →
    Logs (rmemNet B C alloc fifo) (fillRmem B me conf n (List.range' k m) targetIp
      (done.map some ++ List.replicate (n - done.length) none)) st (fun r st' D R => r.1.port = C.port ∧
        r.2 = (done ++ (List.range' k m).flatMap (shareAddrs B C alloc me conf n st₀)).map some ∧
        SharesReserved alloc conf n st₀ k st st' ∧
        freesOf D = [] ∧ regionsOf R = (List.range' k m).map (region alloc conf n st₀))
  | 0, k, done, targetIp, st, hk, hport, hdone, _ => by
    have hall : filledTo n conf.hosts.length k = n := if_neg (by omega)
    refine Logs.ret ⟨hport, ?_, ⟨fun i _ _ => by omega, fun _ _ => rfl⟩, rfl, rfl⟩
    rw [hdone, hall, Nat.sub_self]
    simp
  | m + 1, k, done, targetIp, st, hk, hport, hdone, hst => by
    have hlt : k < conf.hosts.length := by omega
    have hsucc := filledTo_succ (n := n) hlt
    have hle := filledTo_le (n := n) (H := conf.hosts.length) (k + 1)
    have hself := hst k (Nat.le_refl k) hlt
    rw [List.range'_succ, fillRmem, getIp6Target_eq conf hlt]
    refine Logs.bind (allocateBulkRmem_logs hport (Nat.lt_of_le_of_lt (hostLength_le k) hint)) ?_
    rintro ⟨ip, temp⟩ st₁ D R ⟨hip, htemp, hst₁, hD, hR⟩
    simp only [hself] at htemp hst₁ hR
    replace htemp : temp = shareAddrs B C alloc me conf n st₀ k := htemp
    have hcopy := @memcpyList_done n done temp (by rw [htemp, length_shareAddrs, hdone]; omega)
    show Logs _ (match memcpyList _ _ temp with | none => .fail | some memList => fillRmem B me conf n _ ip memList) _ _
    rw [hostOffset_eq hlt, ← hdone, hcopy]
    refine (fillRmem_logs hint m (k + 1) (done ++ temp) ip st₁ (by omega) hip ?_ ?_).mono ?_
    · rw [List.length_append, htemp, length_shareAddrs, hdone, hsucc]
    · intro i hi hiH
      rw [hst₁, reserved, update_of_ne (host_subid_ne conf hiH hlt (by omega))]
      exact hst i (by omega) hiH
    · rintro r st₂ D' R' ⟨hport', hlist, hres, hD', hR'⟩
      refine ⟨hport', ?_, ⟨fun i hi hiH => ?_, fun s hs => ?_⟩, ?_, ?_⟩
      · rw [hlist, List.flatMap_cons, htemp, List.append_assoc]
      · rcases Nat.eq_or_lt_of_le hi with rfl | hi
        · rw [hres.others _ (fun j hj hjH => host_subid_ne conf hjH hlt (by omega)), hst₁, live_reserved, hself]
          rfl
        · exact hres.live i hi hiH
      · rw [hres.others s (fun j hj => hs j (by omega)), hst₁, reserved, update_of_ne (hs k (Nat.le_refl k) hlt).symm]
      · rw [freesOf_append, hD, hD', List.append_nil]
      · rw [regionsOf_append, hR, hR', List.map_cons, List.singleton_append]
        rfl

theorem place_blockAddr (s : UInt16) (p : UInt64) (j : Nat) :
    place (blockAddr B (baseAddr C me s p) j) = (s, p + UInt64.ofNat (j * B)) := by
  show ((C.addr s).subid, _) = _
  rw [C.subid_addr]
  rfl

theorem map_place_shareAddrs (i : Nat) : (shareAddrs B C alloc me conf n st₀ i).map place =
    (List.range (hostLength n conf.hosts.length i)).map (fun j =>
      ((region alloc conf n st₀ i).1, (region alloc conf n st₀ i).2 + UInt64.ofNat (j * B))) := by
  rw [shareAddrs, bulkAddrs, List.map_map]
  exact List.map_congr_left (fun j _ => place_blockAddr ..)

/-- **No block is in the list twice**: within a share the pointers differ, and shares are on different hosts. -/
theorem nodup_addrs (hB₀ : 0 < B) (hB : B < 2 ^ 31) (hint : n < 2 ^ 31) :
    (((List.range conf.hosts.length).flatMap (shareAddrs B C alloc me conf n st₀)).map place).Nodup := by
  rw [List.map_flatMap, List.nodup_flatMap]
  constructor
  · intro i _
    rw [map_place_shareAddrs]
    have hmul : ∀ j ∈ List.range (hostLength n conf.hosts.length i), j * B < 2 ^ 64 := fun j hj => by
      have hj := Nat.le_trans (Nat.le_of_lt (List.mem_range.1 hj)) (hostLength_le i)
      have := Nat.mul_le_mul (Nat.le_trans hj (Nat.le_of_lt hint)) (Nat.le_of_lt hB)
      exact Nat.lt_of_le_of_lt this (by decide)
    refine List.Nodup.map_on (fun j hj j' hj' heq => ?_) List.nodup_range
    have hptr := (UInt64.add_right_inj _).1 (Prod.ext_iff.1 heq).2
    rw [← UInt64.toNat_inj, UInt64.toNat_ofNat_of_lt' (hmul j hj), UInt64.toNat_ofNat_of_lt' (hmul j' hj')] at hptr
    exact Nat.eq_of_mul_eq_mul_right hB₀ hptr
  · refine List.pairwise_lt_range.imp_of_mem (fun {i j} hi hj hij => ?_)
    rw [Function.onFun_apply, map_place_shareAddrs, map_place_shareAddrs]
    intro x hx hx'
    obtain ⟨_, -, rfl⟩ := List.mem_map.1 hx
    obtain ⟨_, -, heq⟩ := List.mem_map.1 hx'
    exact host_subid_ne conf (List.mem_range.1 hj) (List.mem_range.1 hi) (by omega) (Prod.ext_iff.1 heq).1

theorem length_shares : ∀ {k : Nat}, k < conf.hosts.length + 1 → 0 < conf.hosts.length →
    ((List.range k).flatMap (shareAddrs B C alloc me conf n st₀)).length = filledTo n conf.hosts.length k
  | 0, _, hH => by
    rw [filledTo, if_pos hH]
    rfl
  | k + 1, hk, hH => by
    have ih := length_shares (Nat.lt_of_succ_lt hk) hH
    rw [List.range_succ, List.flatMap_append, List.flatMap_singleton, List.length_append, ih, length_shareAddrs]
    exact filledTo_succ (by omega)

/-- The first entry of a share that has one is the region of its host. -/
theorem first_of_share {k : Nat} (hk : k < conf.hosts.length) (hlen : 0 < hostLength n conf.hosts.length k) :
    ∃ a, ((List.range conf.hosts.length).flatMap (shareAddrs B C alloc me conf n st₀))[
        filledTo n conf.hosts.length k]? = some a ∧ place a = region alloc conf n st₀ k := by
  obtain ⟨m, hm⟩ : ∃ m, conf.hosts.length = k + (m + 1) := ⟨conf.hosts.length - k - 1, by omega⟩
  have hsplit : List.range conf.hosts.length = List.range k ++ k :: List.range' (k + 1) m := by
    rw [hm, List.range_eq_range', ← List.range'_append_1, Nat.zero_add, List.range'_succ, List.range_eq_range']
  refine ⟨blockAddr B (baseAddr C me (region alloc conf n st₀ k).1 (region alloc conf n st₀ k).2) 0, ?_, ?_⟩
  · have hpre := @length_shares B C alloc me conf n st₀ k (by omega) (by omega)
    rw [hsplit, List.flatMap_append, List.flatMap_cons, List.getElem?_append_right (Nat.le_of_eq hpre), hpre, Nat.sub_self,
      List.getElem?_append_left (by rw [length_shareAddrs]; exact hlen),
      shareAddrs, bulkAddrs, List.getElem?_map, List.getElem?_range hlen]
    rfl
  · rw [place_blockAddr, Nat.zero_mul]
    exact Prod.ext rfl (UInt64.add_zero _)

end Alloc

/-! ## Deallocation -/

section Free

variable {B : Nat} {C : Cluster} {alloc : Server → Nat → UInt64} {me : SockaddrIn6} {conf : Config} {n : Nat}
  {fifo : Prop} {targetIp : SockaddrIn6} {st : UInt16 → Server}

/-- A free goes to the block of its address, which is then the caller's own, with the same pointer. -/
theorem freeRmem_logs (hport : targetIp.port = C.port) (a : Ip6Memaddr) :
    Logs (rmemNet B C alloc fifo) (freeRmem me targetIp a) st (fun r _ D R => r.1.port = C.port ∧
      place r.2 = (me.addr.subid, a.paddr) ∧ freesOf D = [place a] ∧ regionsOf R = []) := by
  have hserve : (rmemNet B C alloc fifo).serve st
      (preparePacket me ⟨{ a with cmd := freeCmd }, targetIp.port, []⟩) = _ :=
    handlePacket_free B C alloc st hport rfl
  refine (logs_request (fun p : Packet => (p.src, p.dst.addr)) hserve).mono ?_
  rintro r st' D R ⟨rfl, rfl, rfl, rfl⟩
  exact ⟨rfl, rfl, rfl, rfl⟩

/-- **Non-empty shares are freed one by one.** -/
theorem freeRmems_logs (hsplit : 0 < n / conf.hosts.length) (x : Nat → UInt16 × UInt64) :
    ∀ (m k : Nat) (memList : List (Option Ip6Memaddr)) (targetIp : SockaddrIn6) (st : UInt16 → Server),
    targetIp.port = C.port →
    (∀ i ∈ List.range' k m, ∃ a, memList[hostOffset n conf.hosts.length i]? = some (some a) ∧ place a = x i) →
    Logs (rmemNet B C alloc fifo) (freeRmems me conf n (List.range' k m) targetIp memList) st (fun _ _ D R =>
      freesOf D = (List.range' k m).map x ∧ regionsOf R = [])
  | 0, _, _, _, _, _, _ => Logs.ret ⟨rfl, rfl⟩
  | m + 1, k, memList, targetIp, st, hport, hlist => by
    rw [List.range'_succ] at hlist ⊢
    obtain ⟨a, ha, hx⟩ := hlist k List.mem_cons_self
    rw [freeRmems, ha]
    refine Logs.bind (freeRmem_logs hport a) ?_
    rintro ⟨ip, a'⟩ st₁ D R ⟨hip, -, hD, hR⟩
    refine (freeRmems_logs hsplit x m (k + 1) _ ip st₁ hip (fun i hi => ?_)).mono ?_
    · obtain ⟨b, hb, hxb⟩ := hlist i (List.mem_cons_of_mem _ hi)
      have hne : hostOffset n conf.hosts.length k ≠ hostOffset n conf.hosts.length i := by
        intro heq
        have := Nat.eq_of_mul_eq_mul_left hsplit heq
        have := (List.mem_range'_1.1 hi).1
        omega
      exact ⟨b, by rw [List.getElem?_set_ne hne, hb], hxb⟩
    · rintro _ _ D' R' ⟨hD', hR'⟩
      rw [freesOf_append, regionsOf_append, hD, hD', hR, hR', hx, List.map_cons]
      exact ⟨rfl, rfl⟩

/-- **With an empty split every free has the first pointer.** -/
theorem freeRmems_zero (hsplit : n / conf.hosts.length = 0) (p : UInt64) : ∀ (is : List Nat)
    (memList : List (Option Ip6Memaddr)) (targetIp : SockaddrIn6) (st : UInt16 → Server), targetIp.port = C.port →
    (∃ a : Ip6Memaddr, memList[0]? = some (some a) ∧ a.paddr = p) →
    Logs (rmemNet B C alloc fifo) (freeRmems me conf n is targetIp memList) st (fun _ _ D R =>
      (∀ x ∈ freesOf D, x.2 = p) ∧ regionsOf R = [])
  | [], _, _, _, _, _ => Logs.ret ⟨fun x hx => (nomatch hx), rfl⟩
  | i :: r, memList, targetIp, st, hport, ⟨a, ha, hp⟩ => by
    have hoff : hostOffset n conf.hosts.length i = 0 := by rw [hostOffset, hsplit, Nat.zero_mul]
    rw [freeRmems, hoff, ha]
    refine Logs.bind (freeRmem_logs hport a) ?_
    rintro ⟨ip, a'⟩ st₁ D R ⟨hip, ha', hD, hR⟩
    have hlt : 0 < memList.length := (List.getElem?_eq_some_iff.1 ha).1
    refine (freeRmems_zero hsplit p r _ ip st₁ hip ⟨a', List.getElem?_set_self hlt, ?_⟩).mono ?_
    · exact (Prod.ext_iff.1 ha').2.trans hp
    · rintro _ _ D' R' ⟨hD', hR'⟩
      rw [freesOf_append, regionsOf_append, hD, hR, hR']
      refine ⟨fun x hx => ?_, rfl⟩
      rcases List.mem_cons.1 hx with rfl | hx
      · exact hp
      · exact hD' x hx

end Free

/-! ## Allocated and freed -/

/-- If `calloc` keeps its promise: the frees are for the regions the servers reserved, one for each and each to its
server, and in between every entry of the list has been filled once and no two are the same block. -/
def FreedOnce (B : Nat) (C : Cluster) (me : SockaddrIn6) (conf : Config) (nblocks : Nat) : Prop :=
  ∀ (alloc : Server → Nat → UInt64) (fifo : Prop) (st : UInt16 → Server) (targetIp : SockaddrIn6),
    targetIp.port = C.port →
    (∀ s size, 0 < size → size ≤ nblocks → Fresh (st s).live ((alloc (st s) size).toNat, size)) →
    Logs (rmemNet B C alloc fifo) (allocateDeallocate B me conf targetIp nblocks) st (fun r _ D R =>
      (freesOf D).Perm (regionsOf R) ∧ copied nblocks conf.hosts.length = List.range nblocks ∧
      ∃ addrs : List Ip6Memaddr, r.memList = addrs.map some ∧ addrs.length = nblocks ∧ (addrs.map place).Nodup)

section Main

variable {B : Nat} {C : Cluster} {alloc : Server → Nat → UInt64} {me : SockaddrIn6} {conf : Config} {n : Nat}
  {fifo : Prop} {targetIp : SockaddrIn6} {st : UInt16 → Server}

theorem rmemAllocate_logs (hint : n < 2 ^ 31) (hH : 0 < conf.hosts.length) (hport : targetIp.port = C.port) :
    Logs (rmemNet B C alloc fifo) (rmemAllocate B me conf targetIp n) st (fun r st' D R => r.1.port = C.port ∧
      r.2 = ⟨((List.range conf.hosts.length).flatMap (shareAddrs B C alloc me conf n st)).map some, B, n⟩ ∧
      SharesReserved alloc conf n st 0 st st' ∧
      freesOf D = [] ∧ regionsOf R = (List.range conf.hosts.length).map (region alloc conf n st)) := by
  have hfill := @fillRmem_logs B C alloc me conf n st fifo hint conf.hosts.length 0 [] targetIp st (Nat.zero_add _) hport
    (if_pos hH).symm (fun _ _ _ => rfl)
  rw [← List.range_eq_range'] at hfill
  refine Logs.bind hfill ?_
  rintro ⟨ip, memList⟩ st' D R ⟨hip, rfl, hres, hD, hR⟩
  exact Logs.ret ⟨hip, rfl, hres, by rw [List.append_nil]; exact hD, by rw [List.append_nil]; exact hR⟩

/-- What follows `rmem_allocate`, with its log before. -/
theorem allocateDeallocate_logs {Q : List Packet → List Packet → Prop} (hint : n < 2 ^ 31) (hH : 0 < conf.hosts.length)
    (hport : targetIp.port = C.port)
    (hfree : ∀ (ip : SockaddrIn6) (st' : UInt16 → Server), ip.port = C.port →
      Logs (rmemNet B C alloc fifo) (freeRmems me conf n (List.range conf.hosts.length) ip
        (((List.range conf.hosts.length).flatMap (shareAddrs B C alloc me conf n st)).map some)) st'
        (fun _ _ D R => Q D R)) :
    Logs (rmemNet B C alloc fifo) (allocateDeallocate B me conf targetIp n) st (fun r _ D R =>
      r.memList = ((List.range conf.hosts.length).flatMap (shareAddrs B C alloc me conf n st)).map some ∧
      ∃ D' R', freesOf D = freesOf D' ∧
        regionsOf R = (List.range conf.hosts.length).map (region alloc conf n st) ++ regionsOf R' ∧ Q D' R') := by
  refine Logs.bind (rmemAllocate_logs hint hH hport) ?_
  rintro ⟨ip, r⟩ st₁ D R ⟨hip, rfl, -, hD, hR⟩
  refine Logs.bind (hfree ip st₁ hip) (fun ip' st₂ D' R' hQ => Logs.ret ⟨rfl, D', R', ?_, ?_, hQ⟩)
  · rw [List.append_nil, freesOf_append, hD, List.nil_append]
  · rw [List.append_nil, regionsOf_append, hR]

theorem hostLength_pos {H : Nat} (h : H ≤ n) (hH : 0 < H) (i : Nat) (hi : i < H) : 0 < hostLength n H i := by
  have hsplit : 0 < n / H := Nat.div_pos h hH
  unfold hostLength
  split
  · have hlt : n / H * i < n / H * H := Nat.mul_lt_mul_of_pos_left hi hsplit
    exact Nat.sub_pos_of_lt (Nat.lt_of_lt_of_le hlt (Nat.div_mul_le_self ..))
  · exact hsplit

theorem freedOnce_of_le (hB₀ : 0 < B) (hB : B < 2 ^ 31) (hint : n < 2 ^ 31) (hH : 0 < conf.hosts.length)
    (hle : conf.hosts.length ≤ n) : FreedOnce B C me conf n := by
  intro alloc fifo st targetIp hport _
  have hsplit : 0 < n / conf.hosts.length := Nat.div_pos hle hH
  refine (allocateDeallocate_logs (Q := fun D R => freesOf D = (List.range conf.hosts.length).map (region alloc conf n st) ∧
    regionsOf R = []) hint hH hport (fun ip st' hip => ?_)).mono ?_
  · rw [List.range_eq_range']
    refine freeRmems_logs hsplit (region alloc conf n st) _ 0 _ ip st' hip (fun i hi => ?_)
    have hi : i < conf.hosts.length := by
      have := (List.mem_range'_1.1 hi).2
      omega
    obtain ⟨a, ha, hplace⟩ := @first_of_share B C alloc me conf n st i hi (hostLength_pos hle hH i hi)
    refine ⟨a, ?_, hplace⟩
    rw [hostOffset_eq hi, List.getElem?_map, ← List.range_eq_range', ha]
    rfl
  · rintro r st' D R ⟨hlist, D', R', hD, hR, hD', hR'⟩
    refine ⟨?_, copied_eq hH, _, hlist, ?_, nodup_addrs hB₀ hB hint⟩
    · rw [hD, hD', hR, hR', List.append_nil]
    · rw [length_shares (Nat.lt_succ_self _) hH, filledTo, if_neg (Nat.lt_irrefl _)]

/-- The next pointer of a server with nothing live, and of one that has a byte. -/
def nextPtr (h : Server) (_size : Nat) : UInt64 := if h.live.isEmpty then 16 else 64

theorem fresh_nextPtr {h : Server} (hlive : h.live = [] ∨ h.live = [(16, 1)]) {size : Nat} (hsize : size ≤ 2 ^ 31) :
    Fresh h.live ((nextPtr h size).toNat, size) := by
  rcases hlive with hlive | hlive
  · rw [nextPtr, hlive]
    refine ⟨show 0 < 16 by decide, ?_, fun l hl => (nomatch hl)⟩
    show 16 + size ≤ 2 ^ 64
    omega
  · rw [nextPtr, hlive]
    refine ⟨show 0 < 64 by decide, ?_, fun l hl => ?_⟩
    · show 64 + size ≤ 2 ^ 64
      omega
    · cases List.mem_singleton.1 hl
      exact Or.inr (show 16 + 1 ≤ 64 by decide)

/-- The region of the first host is not among the frees, which all have the pointer of the last. -/
theorem not_freedOnce (hn : 1 ≤ n) (hint : n < 2 ^ 31) (hlt : n < conf.hosts.length) : ¬ FreedOnce B C me conf n := by
  intro h
  have hsplit : n / conf.hosts.length = 0 := Nat.div_eq_of_lt hlt
  have hlast : conf.hosts.length - 1 < conf.hosts.length := by omega
  let st : UInt16 → Server := fun s =>
    if s = (conf.host (conf.hosts.length - 1)).subid then ⟨fun _ => 0, [(16, 1)]⟩ else ⟨fun _ => 0, []⟩
  have hst : ∀ s, (st s).live = [] ∨ (st s).live = [(16, 1)] := fun s => by
    by_cases hs : s = (conf.host (conf.hosts.length - 1)).subid
    · exact Or.inr (by rw [show st s = _ from if_pos hs])
    · exact Or.inl (by rw [show st s = _ from if_neg hs])
  have hruns := h nextPtr True st ⟨⟨0, 0, 0, 0⟩, C.port⟩ rfl
    (fun s size _ hsize => fresh_nextPtr (hst s) (Nat.le_trans hsize (Nat.le_of_lt hint)))
  have hfree := @allocateDeallocate_logs B C nextPtr me conf n True ⟨⟨0, 0, 0, 0⟩, C.port⟩ st
    (fun D R => (∀ x ∈ freesOf D, x.2 = (region nextPtr conf n st (conf.hosts.length - 1)).2) ∧ regionsOf R = [])
    hint (by omega) rfl (fun ip st' hip => freeRmems_zero hsplit _ _ _ ip st' hip ?_)
  · obtain ⟨r, st', D, R, ⟨hperm, -⟩, -, D', R', hD, hR, hD', hR'⟩ := hruns.both hfree
    have hmem : region nextPtr conf n st 0 ∈ regionsOf R := by
      rw [hR]
      exact List.mem_append_left _ (List.mem_map_of_mem (List.mem_range.2 (by omega)))
    have hptr := hD' _ (by rw [← hD]; exact hperm.symm.subset hmem)
    have hne := host_subid_ne conf (i := 0) (by omega) hlast (by omega)
    rw [region, region, show st (conf.host 0).subid = _ from if_neg hne,
      show st (conf.host (conf.hosts.length - 1)).subid = _ from if_pos rfl] at hptr
    cases hptr
  · have hzero : filledTo n conf.hosts.length (conf.hosts.length - 1) = 0 := by
      rw [filledTo, if_pos hlast, hsplit, Nat.zero_mul]
    have hlen : 0 < hostLength n conf.hosts.length (conf.hosts.length - 1) := by
      rw [hostLength, if_pos rfl, hostOffset, hsplit, Nat.zero_mul]
      exact hn
    obtain ⟨a, ha, hplace⟩ := @first_of_share B C nextPtr me conf n st _ hlast hlen
    rw [hzero] at ha
    exact ⟨a, by rw [List.getElem?_map, ha]; rfl, (Prod.ext_iff.1 hplace).2⟩

/-- **Remote regions are freed exactly once** if and only if there are at least as many blocks as hosts. -/
theorem freedOnce_iff (hB₀ : 1 ≤ B) (hB : B < 2 ^ 31) (hn : 1 ≤ n) (hint : n < 2 ^ 31) (hH : 1 ≤ conf.hosts.length) :
    FreedOnce B C me conf n ↔ conf.hosts.length ≤ n := by
  constructor
  · intro h
    by_contra hlt
    exact not_freedOnce hn hint (Nat.lt_of_not_le hlt) h
  · exact freedOnce_of_le hB₀ hB hint hH

def twoHosts : Config := ⟨[⟨1, 0, 0, 0⟩, ⟨2, 0, 0, 0⟩], by decide, by decide⟩

theorem freedOnce_four_blocks : FreedOnce 1 plainCluster ⟨⟨9, 0, 0, 0⟩, 6000⟩ twoHosts 4 :=
  (freedOnce_iff (by decide) (by decide) (by decide) (by decide) (by decide)).2 (by decide)

/-- One block over two hosts: both reserve a region, that of host 1 is never freed, and the second free is for the
client's own subnet. -/
theorem one_block_leaks :
    Logs (rmemNet 1 plainCluster (fun _ _ => 16) False)
      (allocateDeallocate 1 ⟨⟨9, 0, 0, 0⟩, 6000⟩ twoHosts ⟨⟨0, 0, 0, 0⟩, 5000⟩ 1) (fun _ => ⟨fun _ => 0, []⟩)
      (fun _ _ D R => regionsOf R = [(1, 16), (2, 16)] ∧ freesOf D = [(2, 16), (9, 16)]) := by
  refine (allocateDeallocate_logs (Q := fun D R => freesOf D = [(2, 16), (9, 16)] ∧ regionsOf R = []) (by decide)
    (by decide) rfl (fun ip st' hip => ?_)).mono ?_
  · refine Logs.bind (freeRmem_logs hip ⟨2, 5, 0, 16⟩) ?_
    rintro ⟨ip₁, a₁⟩ st₁ D₁ R₁ ⟨hip₁, ha₁, hD₁, hR₁⟩
    refine Logs.bind (freeRmem_logs hip₁ a₁) ?_
    rintro ⟨ip₂, a₂⟩ st₂ D₂ R₂ ⟨-, -, hD₂, hR₂⟩
    refine Logs.ret ⟨?_, ?_⟩
    · rw [freesOf_append, freesOf_append, hD₁, hD₂, ha₁]
      rfl
    · rw [regionsOf_append, regionsOf_append, hR₁, hR₂]
      rfl
  · rintro r st' D R ⟨-, D', R', hD, hR, hD', hR'⟩
    rw [hD, hD', hR, hR']
    exact ⟨rfl, rfl⟩

end Main

end RemoteDisk
end Bb
