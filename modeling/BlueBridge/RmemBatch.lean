import BlueBridge.Rmem
/-!
# RmemBatch — batched writes and their acknowledgements (`batch_write`, `cooked_batched_send`, `write_mem_bulk`)

A batch numbers its packets server by server and stamps each with its server's total; the server answers the packet
whose number is the total, so the client waits for as many answers as there are servers.
-/
namespace Bb
namespace Rmem

open Bytes Wire
open Function (update update_self update_of_ne)

/-! ## The argument word -/

theorem toNat_or_count (x y : UInt32) (hx : x.toNat < 2 ^ 16) :
    (x ||| (y <<< 16)).toNat = 2 ^ 16 * (y.toNat % 2 ^ 16) + x.toNat := by
  have hy : (y <<< 16).toNat = (y.toNat % 2 ^ 16) <<< 16 := by
    rw [UInt32.toNat_shiftLeft, Nat.shiftLeft_eq, Nat.shiftLeft_eq]
    show y.toNat * 2 ^ 16 % 2 ^ 32 = _
    omega
  rw [UInt32.toNat_or, hy, Nat.or_comm, ← Nat.shiftLeft_add_eq_or_of_lt hx, Nat.shiftLeft_eq, Nat.mul_comm]

theorem toNat_low (w : UInt32) : (w &&& 0x0000ffff).toNat = w.toNat % 2 ^ 16 := by
  rw [UInt32.toNat_and]
  exact Nat.and_two_pow_sub_one_eq_mod w.toNat 16

theorem toNat_high (w : UInt32) : ((w &&& 0xffff0000) >>> 16).toNat = w.toNat / 2 ^ 16 := by
  rw [UInt32.toNat_shiftRight, UInt32.toNat_and]
  show (w.toNat &&& 0xffff0000) >>> 16 = _
  rw [Nat.shiftRight_and_distrib, Nat.shiftRight_eq_div_pow]
  show w.toNat / 2 ^ 16 &&& (2 ^ 16 - 1) = _
  rw [Nat.and_two_pow_sub_one_eq_mod, Nat.mod_eq_of_lt]
  have := w.toNat_lt
  omega

/-- The server's test for the packet it acknowledges. -/
def acked (p : Packet) : Bool :=
  (p.dst.addr.args &&& (0x0000ffff : UInt32)) = ((p.dst.addr.args &&& (0xffff0000 : UInt32)) >>> 16)

theorem acked_stamp {p : Packet} {x y : UInt32} (hp : p.dst.addr.args = x ||| (y <<< 16)) (hx : x.toNat < 2 ^ 16)
    (hy : y.toNat < 2 ^ 16) : acked p = true ↔ x = y := by
  rw [acked, decide_eq_true_iff, hp, ← UInt32.toNat_inj, toNat_low, toNat_high, toNat_or_count x y hx,
    Nat.mod_eq_of_lt hy, ← UInt32.toNat_inj]
  omega

/-! ## The packets of a batch -/

/-- The packets for one server. -/
def countFor (k : Nat) (addrs : List Ip6Memaddr) : Nat := addrs.countP (fun a => a.subid.toNat = k)

def bump (subIds : Nat → UInt32) (a : Ip6Memaddr) : Nat → UInt32 :=
  update subIds a.subid.toNat (subIds a.subid.toNat + 1)

def stamped (mk : Nat → UInt32 → Ip6Memaddr → PktRqst) : Nat → List Ip6Memaddr → (Nat → UInt32) → List PktRqst
  | _, [],     _      => []
  | i, a :: r, subIds => mk i (subIds a.subid.toNat) a :: stamped mk (i + 1) r (bump subIds a)

def tally : List Ip6Memaddr → (Nat → UInt32) → Nat → UInt32
  | [],     subIds => subIds
  | a :: r, subIds => tally r (bump subIds a)

theorem marshal_eq (mk : Nat → UInt32 → Ip6Memaddr → PktRqst) : ∀ (i : Nat) (addrs : List Ip6Memaddr)
    (subIds : Nat → UInt32), (∀ a ∈ addrs, a.subid.toNat < ushrtMax) →
    marshal mk i addrs subIds = some (stamped mk i addrs subIds, tally addrs subIds)
  | _, [], _, _ => rfl
  | i, a :: r, subIds, h => by
    have hr := marshal_eq mk (i + 1) r (bump subIds a) (fun b hb => h b (List.mem_cons_of_mem _ hb))
    rw [bump] at hr
    rw [marshal, if_pos (h a List.mem_cons_self), hr]
    rfl

/-- `sub_ids` has no entry for the last server number. -/
theorem marshal_none {mk : Nat → UInt32 → Ip6Memaddr → PktRqst} {a : Ip6Memaddr} (ha : ¬ a.subid.toNat < ushrtMax) :
    ∀ (addrs : List Ip6Memaddr) (i : Nat) (subIds : Nat → UInt32), a ∈ addrs → marshal mk i addrs subIds = none
  | b :: r, i, subIds, hmem => by
    unfold marshal
    by_cases hb : b.subid.toNat < ushrtMax
    · have hr : a ∈ r := (List.mem_cons.1 hmem).resolve_left (fun h => ha (h ▸ hb))
      rw [if_pos hb, marshal_none ha r _ _ hr]
      rfl
    · rw [if_neg hb]

theorem tally_apply : ∀ (addrs : List Ip6Memaddr) (subIds : Nat → UInt32) (k : Nat),
    tally addrs subIds k = subIds k + UInt32.ofNat (countFor k addrs)
  | [], subIds, k => by simp [tally, countFor]
  | a :: r, subIds, k => by
    rw [tally, tally_apply r, countFor, countFor, List.countP_cons]
    by_cases hk : a.subid.toNat = k
    · rw [if_pos (by simpa using hk), ← hk, bump, update_self, UInt32.ofNat_add, UInt32.add_assoc, UInt32.add_comm 1]
      rfl
    · rw [if_neg (by simpa using hk), bump, update_of_ne (Ne.symm hk), Nat.add_zero]

theorem toNat_tally {addrs : List Ip6Memaddr} {k : Nat} (h : countFor k addrs < 2 ^ 16) :
    (tally addrs (fun _ => 0) k).toNat = countFor k addrs := by
  rw [tally_apply, UInt32.zero_add, UInt32.toNat_ofNat_of_lt']
  exact Nat.lt_trans h (by decide)

/-- The batch as it goes out. -/
def batchPackets (me : SockaddrIn6) (mk : Nat → UInt32 → Ip6Memaddr → PktRqst) (addrs : List Ip6Memaddr) :
    List Packet :=
  cookedBatchedSend me (tally addrs (fun _ => 0)) (stamped mk 0 addrs (fun _ => 0))

theorem countFor_eq_zero {s : UInt16} {addrs : List Ip6Memaddr} :
    countFor s.toNat addrs = 0 ↔ s ∉ addrs.map (·.subid) := by
  rw [countFor, List.countP_eq_zero]
  simp only [decide_eq_true_iff, UInt16.toNat_inj, List.mem_map, not_exists, not_and]

theorem cookedBatchedSend_cons (me : SockaddrIn6) (T : Nat → UInt32) (mk : Nat → UInt32 → Ip6Memaddr → PktRqst)
    (i : Nat) (a : Ip6Memaddr) (r : List Ip6Memaddr) (t : Nat → UInt32) :
    cookedBatchedSend me T (stamped mk i (a :: r) t) =
      cookedBatchedSend me T [mk i (t a.subid.toNat) a] ++
        cookedBatchedSend me T (stamped mk (i + 1) r (bump t a)) := rfl

theorem map_subid_stamped {mk : Nat → UInt32 → Ip6Memaddr → PktRqst} (hmk : ∀ i x a, (mk i x a).dstAddr.subid = a.subid)
    (me : SockaddrIn6) (T : Nat → UInt32) : ∀ (addrs : List Ip6Memaddr) (i : Nat) (t : Nat → UInt32),
    (cookedBatchedSend me T (stamped mk i addrs t)).map (·.dst.addr.subid) = addrs.map (·.subid)
  | [], _, _ => rfl
  | a :: r, i, t => by
    rw [cookedBatchedSend_cons, List.map_append, map_subid_stamped hmk me T r, List.map_cons]
    exact congrArg (· :: _) (hmk i _ a)

/-- A packet is acknowledged exactly if no later one goes to its server. -/
theorem endsMarked_stamped (me : SockaddrIn6) (port : UInt16) (mem : Nat → UInt8) (payload : Nat) (len : UInt16) :
    ∀ (addrs : List Ip6Memaddr) (i : Nat) (t : Nat → UInt32), (∀ k, (t k).toNat + countFor k addrs < 2 ^ 16) →
    EndsMarked (·.dst.addr.subid) acked
      (cookedBatchedSend me (tally addrs t) (stamped (batchWriteRqst port mem payload len) i addrs t))
  | [], _, _, _ => trivial
  | a :: r, i, t, h => by
    have ha := h a.subid.toNat
    have hcons : countFor a.subid.toNat (a :: r) = countFor a.subid.toNat r + 1 := by simp [countFor]
    have hx : (t a.subid.toNat + 1).toNat = (t a.subid.toNat).toNat + 1 := by
      rw [UInt32.toNat_add]
      exact Nat.mod_eq_of_lt (by show _ + 1 < 2 ^ 32; omega)
    have htot : tally (a :: r) t a.subid.toNat =
        (t a.subid.toNat + 1) + UInt32.ofNat (countFor a.subid.toNat r) := by
      rw [tally, tally_apply, bump, update_self]
    have hy : (tally (a :: r) t a.subid.toNat).toNat = (t a.subid.toNat).toNat + 1 + countFor a.subid.toNat r := by
      rw [htot, UInt32.toNat_add, hx, UInt32.toNat_ofNat_of_lt' (by show _ < 2 ^ 32; omega),
        Nat.mod_eq_of_lt (by omega)]
    refine ⟨?_, endsMarked_stamped me port mem payload len r (i + 1) (bump t a) (fun k => ?_)⟩
    · rw [acked_stamp (x := t a.subid.toNat + 1) (y := tally (a :: r) t a.subid.toNat) rfl (by omega) (by omega),
        ← UInt32.toNat_inj, hx, hy]
      show _ ↔ _ ∉ (cookedBatchedSend _ _ _).map _
      rw [map_subid_stamped (fun _ _ _ => rfl)]
      show _ ↔ a.subid ∉ _
      rw [← countFor_eq_zero]
      omega
    · have hk := h k
      by_cases hak : a.subid.toNat = k
      · subst hak
        rw [bump, update_self, hx]
        omega
      · rw [bump, update_of_ne (Ne.symm hak)]
        rw [countFor, List.countP_cons] at hk
        rw [countFor]
        omega

/-! ## The receives -/

theorem rcvAcks_eq (subIds : Nat → UInt32) : ∀ (ids : List Nat) (targetIp : SockaddrIn6),
    rcvAcks subIds ids targetIp = recvN (fun _ p => p.src) (ids.countP (fun i => subIds i ≠ 0)) targetIp
  | [], _ => rfl
  | i :: r, targetIp => by
    rw [rcvAcks, List.countP_cons]
    by_cases h : subIds i ≠ 0
    · rw [if_pos h, if_pos (by simpa using h), recvN]
      exact congrArg Prog.recv (funext (fun p => rcvAcks_eq subIds r p.src))
    · rw [if_neg h, if_neg (by simpa using h), rcvAcks_eq subIds r]
      rfl

/-- The servers a batch is for. -/
def serversOf (addrs : List Ip6Memaddr) : List UInt16 := (addrs.map (·.subid)).dedup

theorem tally_ne_zero {addrs : List Ip6Memaddr} {k : Nat} (h : countFor k addrs < 2 ^ 16) :
    tally addrs (fun _ => 0) k ≠ 0 ↔ ∃ a ∈ addrs, a.subid.toNat = k := by
  rw [Ne, ← UInt32.toNat_inj, toNat_tally h, countFor]
  show ¬ _ = 0 ↔ _
  rw [List.countP_eq_zero]
  simp

theorem countP_tally {addrs : List Ip6Memaddr} (hsub : ∀ a ∈ addrs, a.subid.toNat < ushrtMax)
    (hcount : ∀ k, countFor k addrs < 2 ^ 16) :
    (List.range ushrtMax).countP (fun i => tally addrs (fun _ => 0) i ≠ 0) = (serversOf addrs).length := by
  rw [List.countP_eq_length_filter, ← @List.length_map _ _ (serversOf addrs) UInt16.toNat]
  refine List.Perm.length_eq ((List.perm_ext_iff_of_nodup (List.nodup_range.filter _) ?_).2 (fun k => ?_))
  · exact (List.nodup_dedup _).map (fun _ _ h => UInt16.toNat_inj.1 h)
  · simp only [List.mem_filter, List.mem_range, decide_eq_true_iff, tally_ne_zero (hcount k), serversOf, List.mem_map,
      List.mem_dedup, exists_exists_and_eq_and]
    exact ⟨fun h => h.2, fun ⟨a, ha, hk⟩ => ⟨hk ▸ hsub a ha, a, ha, hk⟩⟩

/-- **A batched write is a burst** of its packets that waits for one answer from each of its servers. -/
theorem batchWrite_eq (me targetIp : SockaddrIn6) {addrs : List Ip6Memaddr} (mem : Nat → UInt8) (payload : Nat)
    (len : UInt16) (hsub : ∀ a ∈ addrs, a.subid.toNat < ushrtMax) (hcount : ∀ k, countFor k addrs < 2 ^ 16) :
    batchWrite me targetIp addrs mem payload len =
      burst (batchPackets me (batchWriteRqst targetIp.port mem payload len) addrs) (serversOf addrs).length
        (fun _ p => p.src) targetIp := by
  rw [batchWrite, marshal_eq _ _ _ _ hsub]
  show sendAll _ (rcvAcks _ _ _) = _
  rw [rcvAcks_eq, countP_tally hsub hcount]
  rfl

theorem batchWrite_fail (me targetIp : SockaddrIn6) {addrs : List Ip6Memaddr} {a : Ip6Memaddr}
    (ha : ¬ a.subid.toNat < ushrtMax) (hmem : a ∈ addrs) (mem : Nat → UInt8) (payload : Nat) (len : UInt16) :
    batchWrite me targetIp addrs mem payload len = .fail := by
  rw [batchWrite, marshal_none ha addrs _ _ hmem]

/-! ## What the servers do with a batch -/

/-- A `WRITE_BULK` packet the servers accept. -/
structure BulkWrite (C : Cluster) (p : Packet) : Prop where
  port : p.dst.port = C.port
  cmd : p.dst.addr.cmd = writeBulkCmd
  fits : p.data.length < 2 ^ 16

/-- The answer of a server that sends no data. -/
def ackOf (C : Cluster) (p : Packet) : Packet :=
  preparePacket ⟨C.addr p.dst.addr.subid, C.port⟩ ⟨returnID p.src p.dst.addr.cmd p.dst.addr.paddr, p.src.port, []⟩

theorem take_fits {d : List UInt8} (h : d.length < 2 ^ 16) : d.take (UInt16.ofNat d.length).toNat = d := by
  rw [UInt16.toNat_ofNat_of_lt' h, List.take_length]

theorem handlePacket_writeBulk {C : Cluster} {p : Packet} (h : BulkWrite C p) (B : Nat)
    (alloc : Server → Nat → UInt64) (st : UInt16 → Server) :
    handlePacket B C alloc st p =
      (update st p.dst.addr.subid ((st p.dst.addr.subid).write p.dst.addr.paddr p.data),
        if acked p then [ackOf C p] else []) := by
  have hw : ¬ writeBulkCmd = writeCmd := by decide
  rw [handlePacket, if_pos h.port]
  simp only [processRequest, h.cmd, if_neg hw, if_true, writeMemBulk, take_fits h.fits, acked, decide_eq_true_iff]
  split
  · rw [ackOf, h.cmd]; rfl
  · rfl

/-- What a write packet puts where. -/
def wrote (p : Packet) : Nat × List UInt8 := (p.dst.addr.paddr.toNat, p.data)

def Server.writes (h : Server) (ws : List (Nat × List UInt8)) : Server := { h with mem := writeAll h.mem ws }

/-- **Served in any order**, a list of bulk writes is answered packet by packet, and each server has made the writes
sent to it in the order it got them. -/
theorem run_bulkWrites (B : Nat) {C : Cluster} (alloc : Server → Nat → UInt64) (fifo : Prop) : ∀ (D : List Packet)
    (st : UInt16 → Server), (∀ p ∈ D, BulkWrite C p) →
    ((rmemNet B C alloc fifo).run st D).2 = (D.filter acked).map (ackOf C) ∧
      ∀ s, ((rmemNet B C alloc fifo).run st D).1 s =
        (st s).writes ((D.filter (fun p => p.dst.addr.subid = s)).map wrote)
  | [], st, _ => ⟨rfl, fun _ => rfl⟩
  | p :: D, st, h => by
    have hserve : (rmemNet B C alloc fifo).serve st p = _ :=
      handlePacket_writeBulk (h p List.mem_cons_self) B alloc st
    obtain ⟨hans, hmem⟩ := run_bulkWrites B alloc fifo D
      (update st p.dst.addr.subid ((st p.dst.addr.subid).write p.dst.addr.paddr p.data))
      (fun q hq => h q (List.mem_cons_of_mem _ hq))
    rw [Net.run, hserve]
    refine ⟨?_, fun s => ?_⟩
    · show (if acked p then [ackOf C p] else []) ++ _ = _
      rw [hans, List.filter_cons]
      split <;> rfl
    · show ((rmemNet B C alloc fifo).run _ D).1 s = _
      rw [hmem s]
      by_cases hs : p.dst.addr.subid = s
      · subst hs
        rw [update_self, List.filter_cons_of_pos (by simp)]
        rfl
      · rw [update_of_ne (Ne.symm hs), List.filter_cons_of_neg (by simpa using hs)]

theorem mem_stamped {mk : Nat → UInt32 → Ip6Memaddr → PktRqst} {pkt : PktRqst} : ∀ {addrs : List Ip6Memaddr} {i : Nat}
    {t : Nat → UInt32}, pkt ∈ stamped mk i addrs t → ∃ j x a, a ∈ addrs ∧ pkt = mk j x a
  | a :: r, i, t, h => by
    rcases List.mem_cons.1 h with h | h
    · exact ⟨i, _, a, List.mem_cons_self, h⟩
    · obtain ⟨j, x, b, hb, hpkt⟩ := mem_stamped h
      exact ⟨j, x, b, List.mem_cons_of_mem _ hb, hpkt⟩

theorem bulkWrite_of_mem {C : Cluster} {me targetIp : SockaddrIn6} {mem : Nat → UInt8} {payload : Nat} {len : UInt16}
    {addrs : List Ip6Memaddr} (hport : targetIp.port = C.port) :
    ∀ p ∈ batchPackets me (batchWriteRqst targetIp.port mem payload len) addrs, BulkWrite C p := by
  intro p hp
  obtain ⟨pkt, hpkt, rfl⟩ := List.mem_map.1 hp
  obtain ⟨j, x, a, -, rfl⟩ := mem_stamped hpkt
  refine ⟨hport, rfl, ?_⟩
  show (readBytes _ _ _).length < _
  rw [length_readBytes]
  exact len.toNat_lt

/-- The chunks of the payload, each with its server and pointer. -/
def batchChunks (mem : Nat → UInt8) (payload len : Nat) (addrs : List Ip6Memaddr) :
    List (UInt16 × Nat × List UInt8) :=
  addrs.zipIdx.map (fun x => (x.1.subid, x.1.paddr.toNat, readBytes mem (payload + len * x.2) len))

theorem map_wrote_stamped (me : SockaddrIn6) (port : UInt16) (mem : Nat → UInt8) (payload : Nat) (len : UInt16)
    (T : Nat → UInt32) : ∀ (addrs : List Ip6Memaddr) (i : Nat) (t : Nat → UInt32),
    (cookedBatchedSend me T (stamped (batchWriteRqst port mem payload len) i addrs t)).map
        (fun p => (p.dst.addr.subid, wrote p)) =
      (addrs.zipIdx i).map (fun x => (x.1.subid, x.1.paddr.toNat, readBytes mem (payload + len.toNat * x.2) len.toNat))
  | [], _, _ => rfl
  | a :: r, i, t => by
    rw [cookedBatchedSend_cons, List.map_append, map_wrote_stamped me port mem payload len T r, List.zipIdx_cons,
      List.map_cons]
    rfl

/-- Every server makes the writes meant for it, in list order. -/
def storeAll (st : UInt16 → Server) (ws : List (UInt16 × Nat × List UInt8)) : UInt16 → Server := fun s =>
  (st s).writes ((ws.filter (fun x => x.1 = s)).map (·.2))

theorem map_wrote_batch (me : SockaddrIn6) (port : UInt16) (mem : Nat → UInt8) (payload : Nat) (len : UInt16)
    (addrs : List Ip6Memaddr) (s : UInt16) :
    ((batchPackets me (batchWriteRqst port mem payload len) addrs).filter (fun p => p.dst.addr.subid = s)).map wrote =
      ((batchChunks mem payload len.toNat addrs).filter (fun x => x.1 = s)).map (·.2) := by
  rw [batchChunks, ← map_wrote_stamped me port mem payload len (tally addrs (fun _ => 0)) addrs 0 (fun _ => 0),
    List.filter_map, List.map_map]
  rfl

/-! ## Whole runs -/

/-- A cluster of servers at the plain addresses of their subnets. -/
def plainCluster : Cluster where
  port := 5000
  addr := fun s => ⟨s, 0, 0, 0⟩
  subid_addr := fun _ => rfl

section Runs

variable (B : Nat) (C : Cluster) (alloc : Server → Nat → UInt64) (me targetIp : SockaddrIn6) (addrs : List Ip6Memaddr)
  (mem : Nat → UInt8) (payload : Nat) (len : UInt16) (st : UInt16 → Server)

/-- The packets `batch_write` sends. -/
def writePkts : List Packet := batchPackets me (batchWriteRqst targetIp.port mem payload len) addrs

variable {B C alloc me targetIp addrs mem payload len st}

theorem map_subid_writePkts :
    (writePkts me targetIp addrs mem payload len).map (·.dst.addr.subid) = addrs.map (·.subid) :=
  map_subid_stamped (fun _ _ _ => rfl) me _ addrs 0 _

theorem endsMarked_writePkts (hcount : ∀ k, countFor k addrs < 2 ^ 16) :
    EndsMarked (·.dst.addr.subid) acked (writePkts me targetIp addrs mem payload len) :=
  endsMarked_stamped me targetIp.port mem payload len addrs 0 (fun _ => 0) (fun k => by simpa using hcount k)

theorem servers_writePkts (me targetIp : SockaddrIn6) (mem : Nat → UInt8) (payload : Nat) (len : UInt16)
    (hcount : ∀ k, countFor k addrs < 2 ^ 16) :
    ((writePkts me targetIp addrs mem payload len).filter acked).map (·.dst.addr.subid) = serversOf addrs := by
  rw [(endsMarked_writePkts hcount).links, map_subid_writePkts, serversOf]

theorem length_acked_writePkts (hcount : ∀ k, countFor k addrs < 2 ^ 16) :
    ((writePkts me targetIp addrs mem payload len).filter acked).length = (serversOf addrs).length := by
  rw [← servers_writePkts me targetIp mem payload len hcount, List.length_map]

theorem countFor_lt (h : addrs.length ≤ batchSize) (k : Nat) : countFor k addrs < 2 ^ 16 :=
  Nat.lt_of_le_of_lt (Nat.le_trans List.countP_le_length h) (by decide)

variable (B C alloc me targetIp addrs mem payload len st) in
/-- A batched write that has taken its answers `R`, the servers having served `D`. -/
def WriteDone (fifo : Prop) (d rc D R : List Packet) (c : Conf Packet (UInt16 → Server) SockaddrIn6) : Prop :=
  Burst (rmemNet B C alloc fifo) (writePkts me targetIp addrs mem payload len) (serversOf addrs).length
    (fun _ p => p.src) targetIp st d rc (writePkts me targetIp addrs mem payload len) [] D R c ∧
  R.length = (serversOf addrs).length

variable {fifo : Prop} {d rc D R : List Packet} {c : Conf Packet (UInt16 → Server) SockaddrIn6} {ip : SockaddrIn6}

/-- The answers taken are those to the acknowledged packets, none is left, and the servers have made the writes they
served. -/
theorem WriteDone.answers (h : WriteDone B C alloc me targetIp addrs mem payload len st fifo d rc D R c)
    (hport : targetIp.port = C.port) (hcount : ∀ k, countFor k addrs < 2 ^ 16) :
    c.answers = [] ∧ c.flight.filter acked = [] ∧
      R.Perm (((writePkts me targetIp addrs mem payload len).filter acked).map (ackOf C)) ∧
      ∀ s, c.srv s = (st s).writes ((D.filter (fun p => p.dst.addr.subid = s)).map wrote) := by
  obtain ⟨hb, hR⟩ := h
  have hD : ∀ p ∈ D, BulkWrite C p := fun p hp =>
    bulkWrite_of_mem hport p (hb.flight.subset (List.mem_append_left _ hp))
  obtain ⟨hans, hmem⟩ := run_bulkWrites B alloc fifo D st hD
  obtain ⟨hA, hF, hperm⟩ := hb.acked hR hans (length_acked_writePkts hcount)
  rw [hb.srv]
  exact ⟨hA, hF, hperm, hmem⟩

theorem batchWrite_returned (hsub : ∀ a ∈ addrs, a.subid.toNat < ushrtMax) (hcount : ∀ k, countFor k addrs < 2 ^ 16)
    (h : Reach (rmemNet B C alloc fifo) (start (batchWrite me targetIp addrs mem payload len) st) c)
    (hret : c.prog = .ret ip) :
    ∃ D R, WriteDone B C alloc me targetIp addrs mem payload len st fifo [] [] D R c := by
  rw [batchWrite_eq me targetIp mem payload len hsub hcount] at h
  obtain ⟨sent, rest, D, R, hb⟩ := burst_reach h
  obtain ⟨rfl, hR, -⟩ := hb.returned hret
  have hrest : rest = [] := by simpa using hb.split
  subst hrest
  exact ⟨D, R, hb, hR⟩

/-- **A batched write returns.** -/
theorem batchWrite_ends (B : Nat) (alloc : Server → Nat → UInt64) (fifo : Prop) (st : UInt16 → Server)
    (d rc : List Packet) (hport : targetIp.port = C.port) (hsub : ∀ a ∈ addrs, a.subid.toNat < ushrtMax)
    (hcount : ∀ k, countFor k addrs < 2 ^ 16) :
    Ends (rmemNet B C alloc fifo)
      (fun ip c => ∃ D R, WriteDone B C alloc me targetIp addrs mem payload len st fifo d rc D R c ∧
        ip = R.foldl (fun _ p => p.src) targetIp)
      ⟨batchWrite me targetIp addrs mem payload len, [], st, d, [], rc⟩ := by
  rw [batchWrite_eq me targetIp mem payload len hsub hcount]
  refine (burst_ends (fun D hD _ => ?_)).mono (fun ip c ⟨D, R, hb, hR, hip⟩ => ⟨D, R, ⟨hb, hR⟩, hip⟩)
  have hw : ∀ p ∈ D, BulkWrite C p := fun p hp => bulkWrite_of_mem hport p (hD.subset hp)
  rw [(run_bulkWrites B alloc fifo D st hw).1, List.length_map, (hD.filter acked).length_eq]
  exact Nat.le_of_eq (length_acked_writePkts hcount).symm

theorem length_filter_eq_count {P K : Type} [DecidableEq K] (key : P → K) (k : K) (l : List P) :
    (l.filter (fun p => key p = k)).length = (l.map key).count k := by
  rw [List.count_eq_countP, List.countP_map, List.countP_eq_length_filter]
  rfl

theorem count_servers {s : UInt16} (hs : s ∈ addrs.map (·.subid)) : (serversOf addrs).count s = 1 :=
  List.count_eq_one_of_mem (List.nodup_dedup _) (List.mem_dedup.2 hs)

/-- **Every server of a batch acknowledges it exactly once, and the client takes exactly those acknowledgements**,
whatever the order in which packets and answers arrive: it returns, one packet for each server passes the server's test,
and when it has returned no acknowledgement is on its way or still to come. -/
theorem batchWrite_one_ack_each (fifo : Prop) (hport : targetIp.port = C.port) (hlen : addrs.length ≤ batchSize)
    (hsub : ∀ a ∈ addrs, a.subid.toNat ≤ 65534) :
    Ends (rmemNet B C alloc fifo) (fun _ _ => True) (start (batchWrite me targetIp addrs mem payload len) st) ∧
    (∀ s ∈ addrs.map (·.subid), (((writePkts me targetIp addrs mem payload len).filter acked).filter
      (fun p => p.dst.addr.subid = s)).length = 1) ∧
    ∀ c ip, Reach (rmemNet B C alloc fifo) (start (batchWrite me targetIp addrs mem payload len) st) c →
      c.prog = .ret ip →
      (c.served ++ c.flight).Perm (writePkts me targetIp addrs mem payload len) ∧
      c.rcvd.length = (addrs.map (·.subid)).dedup.length ∧
      (∀ s ∈ addrs.map (·.subid), (c.rcvd.filter (fun p => p.src.addr.subid = s)).length = 1) ∧
      c.answers = [] ∧ ∀ p ∈ c.flight, acked p = false := by
  have hsub' : ∀ a ∈ addrs, a.subid.toNat < ushrtMax := fun a ha => Nat.lt_succ_of_le (hsub a ha)
  have hcount := countFor_lt hlen
  refine ⟨(batchWrite_ends B alloc fifo st [] [] hport hsub' hcount).mono (fun _ _ _ => trivial), fun s hs => ?_,
    fun c ip hc hret => ?_⟩
  · rw [length_filter_eq_count (fun p : Packet => p.dst.addr.subid), servers_writePkts _ _ _ _ _ hcount,
      count_servers hs]
  · obtain ⟨D, R, hdone⟩ := batchWrite_returned hsub' hcount hc hret
    obtain ⟨hA, hF, hperm, -⟩ := hdone.answers hport hcount
    rw [← show c.rcvd = R from hdone.1.rcvd] at hperm
    have hsrc : (c.rcvd.map (fun p => p.src.addr.subid)).Perm (serversOf addrs) := by
      refine (hperm.map _).trans (List.Perm.of_eq ?_)
      rw [List.map_map, ← servers_writePkts me targetIp mem payload len hcount]
      exact List.map_congr_left (fun p _ => C.subid_addr _)
    refine ⟨?_, ?_, fun s hs => ?_, hA, fun p hp => ?_⟩
    · rw [show c.served = D from hdone.1.served]
      exact hdone.1.flight
    · rw [← List.length_map (f := fun p : Packet => p.src.addr.subid), hsrc.length_eq]
      rfl
    · rw [length_filter_eq_count (fun p : Packet => p.src.addr.subid), hsrc.count_eq, count_servers hs]
    · exact Bool.eq_false_iff.2 (List.filter_eq_nil_iff.1 hF p hp)

theorem batchWrite_one_ack_each_mixed :
    let c₀ := start (batchWrite ⟨⟨9, 0, 0, 0⟩, 6000⟩ ⟨⟨1, 0, 0, 0⟩, 5000⟩
      [⟨1, 0, 0, 0⟩, ⟨2, 0, 0, 0⟩, ⟨1, 0, 0, 1⟩] (fun _ => 7) 0 1) (fun _ => (⟨fun _ => 0, []⟩ : Server))
    ∀ c ip, Reach (rmemNet 1 plainCluster (fun _ _ => 0) False) c₀ c → c.prog = .ret ip →
      c.rcvd.length = 2 ∧ c.answers = [] :=
  fun c ip hc hret =>
    have h := (batchWrite_one_ack_each False rfl (by decide) (by decide)).2.2 c ip hc hret
    ⟨h.2.1, h.2.2.2.1⟩

/-- A batch is on its servers: no packet is left in flight, and every server has made the writes meant for it. -/
def Applied (addrs : List Ip6Memaddr) (mem : Nat → UInt8) (payload : Nat) (len : UInt16) (st : UInt16 → Server)
    (c : Conf Packet (UInt16 → Server) SockaddrIn6) : Prop :=
  c.flight = [] ∧ c.srv = storeAll st (batchChunks mem payload len.toNat addrs)

theorem applied_of_order (me targetIp : SockaddrIn6) (hfl : c.flight = [])
    (hsrv : ∀ s, c.srv s = (st s).writes ((D.filter (fun p => p.dst.addr.subid = s)).map wrote))
    (horder : ∀ s, D.filter (fun p => p.dst.addr.subid = s) =
      (writePkts me targetIp addrs mem payload len).filter (fun p => p.dst.addr.subid = s)) :
    Applied addrs mem payload len st c := by
  refine ⟨hfl, funext (fun s => ?_)⟩
  rw [hsrv, horder, writePkts, map_wrote_batch, storeAll]

/-- With no server addressed twice, every packet is acknowledged. -/
theorem acked_of_nodup (hcount : ∀ k, countFor k addrs < 2 ^ 16) (hnd : (addrs.map (·.subid)).Nodup) :
    ∀ p ∈ writePkts me targetIp addrs mem payload len, acked p = true := by
  rw [← List.filter_eq_self]
  refine List.filter_sublist.eq_of_length ?_
  rw [length_acked_writePkts hcount, serversOf, hnd.dedup, ← @map_subid_writePkts me targetIp addrs mem payload len,
    List.length_map]

theorem WriteDone.applied_of_fifo (h : WriteDone B C alloc me targetIp addrs mem payload len st fifo d rc D R c)
    (hf : fifo) (hport : targetIp.port = C.port) (hcount : ∀ k, countFor k addrs < 2 ^ 16) :
    Applied addrs mem payload len st c := by
  obtain ⟨-, hF, -, hsrv⟩ := h.answers hport hcount
  have hfl := h.1.all_served hf (endsMarked_writePkts hcount) hF
  refine applied_of_order me targetIp hfl hsrv (fun s => ?_)
  have := h.1.order hf s
  rwa [hfl, List.append_nil] at this

theorem perm_eq_of_short {P : Type} : ∀ {l l' : List P}, l.Perm l' → l'.length ≤ 1 → l = l'
  | _, [], h, _ => h.eq_nil
  | _, [_], h, _ => List.perm_singleton.1 h

theorem WriteDone.applied_of_nodup (h : WriteDone B C alloc me targetIp addrs mem payload len st fifo d rc D R c)
    (hnd : (addrs.map (·.subid)).Nodup) (hport : targetIp.port = C.port) (hcount : ∀ k, countFor k addrs < 2 ^ 16) :
    Applied addrs mem payload len st c := by
  obtain ⟨-, hF, -, hsrv⟩ := h.answers hport hcount
  have hfl : c.flight = [] := by
    rwa [List.filter_eq_self.2 (fun p hp =>
      acked_of_nodup hcount hnd p (h.1.flight.subset (List.mem_append_right _ hp)))] at hF
  have hperm := h.1.flight
  rw [hfl, List.append_nil] at hperm
  refine applied_of_order me targetIp hfl hsrv (fun s => ?_)
  -- at most one packet went to the server
  have hone : ((writePkts me targetIp addrs mem payload len).filter (fun p => p.dst.addr.subid = s)).length ≤ 1 := by
    rw [length_filter_eq_count (fun p : Packet => p.dst.addr.subid), map_subid_writePkts]
    exact List.nodup_iff_count_le_one.1 hnd s
  exact perm_eq_of_short (hperm.filter _) hone

/-- Two packets for one server: the client can return on the second while the first is in flight. -/
theorem batchWrite_overtaken (B : Nat) (alloc : Server → Nat → UInt64) (st : UInt16 → Server)
    (hport : targetIp.port = C.port) (hsub : ∀ a ∈ addrs, a.subid.toNat < ushrtMax)
    (hcount : ∀ k, countFor k addrs < 2 ^ 16) (hnd : ¬ (addrs.map (·.subid)).Nodup) :
    ∃ ip c, Reach (rmemNet B C alloc False) (start (batchWrite me targetIp addrs mem payload len) st) c ∧
      c.prog = .ret ip ∧ c.flight ≠ [] := by
  have hperm := List.filter_append_perm acked (writePkts me targetIp addrs mem payload len)
  have hD : ∀ p ∈ (writePkts me targetIp addrs mem payload len).filter acked, BulkWrite C p := fun p hp =>
    bulkWrite_of_mem hport p (List.mem_filter.1 hp).1
  obtain ⟨ip, c, hc, hret, hfl⟩ := burst_can_return (W := rmemNet B C alloc False) (n := (serversOf addrs).length)
    not_false (fun _ p => p.src) targetIp st hperm.symm (by
      rw [(run_bulkWrites B alloc False _ st hD).1, List.length_map, List.filter_filter]
      simp only [Bool.and_self]
      exact Nat.le_of_eq (length_acked_writePkts hcount).symm)
  refine ⟨ip, c, ?_, hret, fun hnil => hnd ?_⟩
  · rw [batchWrite_eq me targetIp mem payload len hsub hcount]
    exact hc
  · rw [hnil] at hfl
    have hall := List.filter_eq_nil_iff.1 hfl.symm.eq_nil
    have hself := List.filter_eq_self.2 (fun p hp => by simpa using hall p hp : ∀ p ∈ _, acked p = true)
    rw [← @map_subid_writePkts me targetIp addrs mem payload len, ← hself, servers_writePkts _ _ _ _ _ hcount]
    exact List.nodup_dedup _

/-- **A batch is on its servers when `batch_write` has returned**, if each server gets its packets in the order they
were sent; if packets may overtake each other, exactly if no server is addressed twice. -/
theorem batchWrite_durable (hport : targetIp.port = C.port) (hsub : ∀ a ∈ addrs, a.subid.toNat ≤ 65534)
    (hcount : ∀ k, countFor k addrs < 2 ^ 16) :
    (Ends (rmemNet B C alloc True) (fun _ _ => True) (start (batchWrite me targetIp addrs mem payload len) st) ∧
      ∀ c ip, Reach (rmemNet B C alloc True) (start (batchWrite me targetIp addrs mem payload len) st) c →
        c.prog = .ret ip → Applied addrs mem payload len st c) ∧
    ((∀ c ip, Reach (rmemNet B C alloc False) (start (batchWrite me targetIp addrs mem payload len) st) c →
        c.prog = .ret ip → Applied addrs mem payload len st c) ↔ (addrs.map (·.subid)).Nodup) := by
  have hsub' : ∀ a ∈ addrs, a.subid.toNat < ushrtMax := fun a ha => Nat.lt_succ_of_le (hsub a ha)
  refine ⟨⟨(batchWrite_ends B alloc True st [] [] hport hsub' hcount).mono (fun _ _ _ => trivial),
    fun c ip hc hret => ?_⟩, fun h => ?_, fun hnd c ip hc hret => ?_⟩
  · obtain ⟨D, R, hdone⟩ := batchWrite_returned hsub' hcount hc hret
    exact hdone.applied_of_fifo trivial hport hcount
  · by_contra hnd
    obtain ⟨ip, c, hc, hret, hfl⟩ := batchWrite_overtaken B alloc st hport hsub' hcount hnd
    exact hfl (h c ip hc hret).1
  · obtain ⟨D, R, hdone⟩ := batchWrite_returned hsub' hcount hc hret
    exact hdone.applied_of_nodup hnd hport hcount

theorem batchWrite_durable_two_servers :
    let c₀ := start (batchWrite ⟨⟨9, 0, 0, 0⟩, 6000⟩ ⟨⟨1, 0, 0, 0⟩, 5000⟩ [⟨1, 0, 0, 0⟩, ⟨2, 0, 0, 1⟩] (fun _ => 7) 0 1)
      (fun _ => (⟨fun _ => 0, []⟩ : Server))
    ∀ c ip, Reach (rmemNet 1 plainCluster (fun _ _ => 0) False) c₀ c → c.prog = .ret ip →
      Applied [⟨1, 0, 0, 0⟩, ⟨2, 0, 0, 1⟩] (fun _ => 7) 0 1 (fun _ => ⟨fun _ => 0, []⟩) c :=
  (batchWrite_durable (by decide) (by decide) (countFor_lt (by decide))).2.2 (by decide)

/-- The second packet for server 1 is served first: the client has returned, the first is in flight and its byte is
still the old one. -/
theorem batchWrite_returns_early :
    let c₀ := start (batchWrite ⟨⟨9, 0, 0, 0⟩, 6000⟩ ⟨⟨1, 0, 0, 0⟩, 5000⟩ [⟨1, 0, 0, 0⟩, ⟨1, 0, 0, 1⟩] (fun _ => 7) 0 1)
      (fun _ => (⟨fun _ => 0, []⟩ : Server))
    ∃ c ip, Reach (rmemNet 1 plainCluster (fun _ _ => 0) False) c₀ c ∧ c.prog = .ret ip ∧ c.flight.length = 1 ∧
      (c.srv 1).mem 0 = 0 ∧ (c.srv 1).mem 1 = 7 := by
  rw [batchWrite_eq _ _ _ _ _ (by decide) (countFor_lt (by decide))]
  exact ⟨_, _, .head .send (.head .send (.head (.serve (A := [_]) (C := []) (fun h => h.elim))
    (.head (.recv (A := []) (C := [])) .refl))), rfl, rfl, rfl, rfl⟩

theorem port_foldl_src : ∀ {R : List Packet} {targetIp : SockaddrIn6}, (∀ p ∈ R, p.src.port = C.port) →
    targetIp.port = C.port → (R.foldl (fun _ p => p.src) targetIp).port = C.port
  | [], _, _, h => h
  | p :: _, _, hR, _ => by
    rw [List.foldl_cons]
    exact port_foldl_src (fun q hq => hR q (List.mem_cons_of_mem _ hq)) (hR p List.mem_cons_self)

/-- **In order, a batched write runs** and stores its chunks. -/
theorem batchWrite_runs (B : Nat) (alloc : Server → Nat → UInt64) (me : SockaddrIn6) (mem : Nat → UInt8)
    (payload : Nat) (len : UInt16) (st : UInt16 → Server) (hport : targetIp.port = C.port)
    (hsub : ∀ a ∈ addrs, a.subid.toNat < ushrtMax) (hcount : ∀ k, countFor k addrs < 2 ^ 16) :
    Runs (rmemNet B C alloc True) (batchWrite me targetIp addrs mem payload len) st
      (fun ip st' => ip.port = C.port ∧ st' = storeAll st (batchChunks mem payload len.toNat addrs)) := by
  intro d rc
  refine (batchWrite_ends B alloc True st d rc hport hsub hcount).mono (fun ip c ⟨D, R, hdone, hip⟩ => ?_)
  obtain ⟨hA, -, hperm, -⟩ := hdone.answers hport hcount
  obtain ⟨hfl, hsrv⟩ := hdone.applied_of_fifo trivial hport hcount
  refine ⟨hfl, hA, ?_, hsrv⟩
  rw [hip]
  refine port_foldl_src (fun p hp => ?_) hport
  obtain ⟨q, -, rfl⟩ := List.mem_map.1 (hperm.subset hp)
  rfl

end Runs

end Rmem
end Bb
