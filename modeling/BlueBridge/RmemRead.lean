import BlueBridge.RmemBatch
/-!
# RmemRead — batched reads (`batch_read`, `read_mem_ptr`, `write_packets`)

A batched read ships a pointer into the caller's buffer with each request, and copies every answer to the pointer that
comes back.  Reads leave the servers as they are, so the answers do not depend on the order in which the requests are
served; the pointers are of disjoint slots, so the buffer does not depend on the order in which the answers arrive.
-/
namespace Bb
namespace Rmem

open Bytes Wire
open Function (update)

/-! ## What the servers do with a batch -/

/-- A `READ_BULK` packet the servers accept and take `len` as the length of. -/
structure BulkRead (C : Cluster) (len : UInt16) (p : Packet) : Prop where
  port : p.dst.port = C.port
  cmd : p.dst.addr.cmd = readBulkCmd
  length : p.dst.addr.args.toUInt16 = len

/-- The bytes at the packet's pointer, for the pointer the packet carries. -/
def readAnswer (C : Cluster) (len : UInt16) (st : UInt16 → Server) (p : Packet) : Packet :=
  preparePacket ⟨C.addr p.dst.addr.subid, C.port⟩ ⟨returnID p.src p.dst.addr.cmd (le64 p.data), p.src.port,
    readBytes (st p.dst.addr.subid).mem p.dst.addr.paddr.toNat len.toNat⟩

theorem handlePacket_readBulk {C : Cluster} {len : UInt16} {p : Packet} (h : BulkRead C len p) (B : Nat)
    (alloc : Server → Nat → UInt64) (st : UInt16 → Server) :
    handlePacket B C alloc st p = (st, [readAnswer C len st p]) := by
  have hw : ¬ readBulkCmd = writeCmd := by decide
  have hwb : ¬ readBulkCmd = writeBulkCmd := by decide
  have hr : ¬ readBulkCmd = readCmd := by decide
  rw [handlePacket, if_pos h.port]
  simp only [processRequest, h.cmd, if_neg hw, if_neg hwb, if_neg hr, if_true, readMemPtr, h.length,
    Function.update_eq_self]
  rw [readAnswer, h.cmd]
  rfl

theorem run_bulkReads (B : Nat) {C : Cluster} {len : UInt16} (alloc : Server → Nat → UInt64) (fifo : Prop)
    (st : UInt16 → Server) (D : List Packet) (h : ∀ p ∈ D, BulkRead C len p) :
    (rmemNet B C alloc fifo).run st D = (st, D.map (readAnswer C len st)) :=
  Net.run_const D (fun p hp => handlePacket_readBulk (h p hp) B alloc st)

/-! ## The packets of a batch -/

section Packets

variable (me targetIp : SockaddrIn6) (addrs : List Ip6Memaddr) (buffer : Nat) (len : UInt16)

/-- The packets `batch_read` sends. -/
def readPkts : List Packet := batchPackets me (batchReadRqst targetIp.port buffer len) addrs

variable {me targetIp addrs buffer len}

theorem batchRead_eq (me targetIp : SockaddrIn6) (mem : Nat → UInt8) (buffer : Nat) (len : UInt16)
    (hsub : ∀ a ∈ addrs, a.subid.toNat < ushrtMax) :
    batchRead me targetIp addrs mem buffer len =
      burst (readPkts me targetIp addrs buffer len) addrs.length writePackets mem := by
  rw [batchRead, marshal_eq _ _ _ _ hsub]
  rfl

theorem batchRead_fail (me targetIp : SockaddrIn6) {a : Ip6Memaddr} (ha : ¬ a.subid.toNat < ushrtMax)
    (hmem : a ∈ addrs) (mem : Nat → UInt8) (buffer : Nat) (len : UInt16) :
    batchRead me targetIp addrs mem buffer len = .fail := by
  rw [batchRead, marshal_none ha addrs _ _ hmem]

theorem length_readPkts : (readPkts me targetIp addrs buffer len).length = addrs.length := by
  have := congrArg List.length (@map_subid_stamped (batchReadRqst targetIp.port buffer len) (fun _ _ _ => rfl) me
    (tally addrs (fun _ => 0)) addrs 0 (fun _ => 0))
  rwa [List.length_map, List.length_map] at this

/-- **The count in the upper half of `args` leaves the length**, which the server takes from the lower. -/
theorem toUInt16_or_count (len : UInt16) (y : UInt32) : (len.toUInt32 ||| (y <<< 16)).toUInt16 = len := by
  have hlen : len.toUInt32.toNat < 2 ^ 16 := len.toNat_lt
  rw [← UInt16.toNat_inj, UInt32.toNat_toUInt16, toNat_or_count _ _ hlen, Nat.mul_add_mod, Nat.mod_eq_of_lt hlen]
  rfl

theorem bulkRead_of_mem {C : Cluster} (hport : targetIp.port = C.port) :
    ∀ p ∈ readPkts me targetIp addrs buffer len, BulkRead C len p := by
  intro p hp
  obtain ⟨pkt, hpkt, rfl⟩ := List.mem_map.1 hp
  obtain ⟨j, x, a, -, rfl⟩ := mem_stamped hpkt
  exact ⟨hport, rfl, toUInt16_or_count len _⟩

/-- What the servers hold at the addresses of a batch. -/
def remoteBytes (st : UInt16 → Server) (len : Nat) (addrs : List Ip6Memaddr) : List (List UInt8) :=
  addrs.map (fun a => readBytes (st a.subid).mem a.paddr.toNat len)

theorem map_answers_stamped (C : Cluster) (me : SockaddrIn6) (port : UInt16) (buffer : Nat) (len : UInt16)
    (st : UInt16 → Server) (T : Nat → UInt32) : ∀ (addrs : List Ip6Memaddr) (i : Nat) (t : Nat → UInt32),
    (i + addrs.length) * len.toNat < 2 ^ 32 → buffer + (i + addrs.length) * len.toNat < 2 ^ 64 →
    (cookedBatchedSend me T (stamped (batchReadRqst port buffer len) i addrs t)).map
        (fun p => wrote (readAnswer C len st p)) =
      ((remoteBytes st len.toNat addrs).zipIdx i).map (fun x => (buffer + x.2 * len.toNat, x.1))
  | [], _, _, _, _ => rfl
  | a :: r, i, t, h32, h64 => by
    have hi : i * len.toNat ≤ (i + (a :: r).length) * len.toNat := Nat.mul_le_mul_right _ (Nat.le_add_right _ _)
    have hptr : (UInt64.ofNat (buffer + i * len.toNat % 2 ^ 32)).toNat = buffer + i * len.toNat := by
      rw [Nat.mod_eq_of_lt (by omega), UInt64.toNat_ofNat_of_lt' (Nat.lt_of_le_of_lt (by omega) h64)]
    have hnext : i + 1 + r.length = i + (a :: r).length := by simp only [List.length_cons]; omega
    rw [cookedBatchedSend_cons, List.map_append,
      map_answers_stamped C me port buffer len st T r (i + 1) _ (by rwa [hnext]) (by rwa [hnext]), remoteBytes,
      remoteBytes, List.map_cons, List.zipIdx_cons, List.map_cons, ← hptr, ← le64_bytes64 (UInt64.ofNat _)]
    rfl

theorem map_answers_readPkts (C : Cluster) (st : UInt16 → Server) (hlen : addrs.length ≤ batchSize)
    (hbuf : buffer + addrs.length * len.toNat < 2 ^ 64) :
    (readPkts me targetIp addrs buffer len).map (fun p => wrote (readAnswer C len st p)) =
      slots buffer len.toNat (remoteBytes st len.toNat addrs) := by
  have hmul : addrs.length * len.toNat ≤ 40 * 2 ^ 16 := Nat.mul_le_mul hlen (Nat.le_of_lt len.toNat_lt)
  exact map_answers_stamped C me targetIp.port buffer len st _ addrs 0 _ (by rw [Nat.zero_add]; omega)
    (by rwa [Nat.zero_add])

end Packets

/-! ## Whole runs -/

section Runs

variable {B : Nat} {C : Cluster} {alloc : Server → Nat → UInt64} {me targetIp : SockaddrIn6} {addrs : List Ip6Memaddr}
  {mem : Nat → UInt8} {buffer : Nat} {len : UInt16} {st : UInt16 → Server} {fifo : Prop} {d rc D R : List Packet}
  {c : Conf Packet (UInt16 → Server) (Nat → UInt8)}

variable (B C alloc me targetIp addrs mem buffer len st) in
/-- A batched read that has taken its answers `R`, the servers having served `D`. -/
def ReadDone (fifo : Prop) (d rc D R : List Packet) (c : Conf Packet (UInt16 → Server) (Nat → UInt8)) : Prop :=
  Burst (rmemNet B C alloc fifo) (readPkts me targetIp addrs buffer len) addrs.length writePackets mem st d rc
    (readPkts me targetIp addrs buffer len) [] D R c ∧ R.length = addrs.length

/-- Nothing is left in flight, and the answers taken are those to all the packets. -/
theorem ReadDone.answers (h : ReadDone B C alloc me targetIp addrs mem buffer len st fifo d rc D R c)
    (hport : targetIp.port = C.port) :
    c.answers = [] ∧ c.flight = [] ∧ c.srv = st ∧ D.Perm (readPkts me targetIp addrs buffer len) ∧
      R.Perm ((readPkts me targetIp addrs buffer len).map (readAnswer C len st)) := by
  obtain ⟨hb, hR⟩ := h
  have hD : ∀ p ∈ D, BulkRead C len p := fun p hp =>
    bulkRead_of_mem hport p (hb.flight.subset (List.mem_append_left _ hp))
  have hrun := run_bulkReads B alloc fifo st D hD
  have hans : ((rmemNet B C alloc fifo).run st D).2 = (D.filter (fun _ => true)).map (readAnswer C len st) := by
    rw [hrun, List.filter_true]
  obtain ⟨hA, hF, hperm⟩ := hb.acked hR hans (by rw [List.filter_true, length_readPkts])
  rw [List.filter_true] at hF hperm
  have hflight := hb.flight
  rw [hF, List.append_nil] at hflight
  exact ⟨hA, hF, by rw [hb.srv, hrun], hflight, hperm⟩

theorem foldl_writePackets (mem : Nat → UInt8) (R : List Packet) :
    R.foldl writePackets mem = writeAll mem (R.map wrote) := by
  rw [writeAll, List.foldl_map]
  rfl

/-- The buffer's slots are filled from the servers, in some order. -/
theorem ReadDone.slots (h : ReadDone B C alloc me targetIp addrs mem buffer len st fifo d rc D R c)
    (hport : targetIp.port = C.port) (hlen : addrs.length ≤ batchSize)
    (hbuf : buffer + addrs.length * len.toNat < 2 ^ 64) :
    (R.map wrote).Perm (slots buffer len.toNat (remoteBytes st len.toNat addrs)) := by
  obtain ⟨-, -, -, -, hperm⟩ := h.answers hport
  have := hperm.map wrote
  rw [List.map_map] at this
  rwa [← @map_answers_readPkts me targetIp addrs buffer len C st hlen hbuf]

theorem length_remoteBytes (st : UInt16 → Server) (len : Nat) (addrs : List Ip6Memaddr) :
    ∀ v ∈ remoteBytes st len addrs, v.length = len := by
  intro v hv
  obtain ⟨a, -, rfl⟩ := List.mem_map.1 hv
  exact length_readBytes ..

theorem batchRead_returned {mem' : Nat → UInt8} (hsub : ∀ a ∈ addrs, a.subid.toNat < ushrtMax)
    (h : Reach (rmemNet B C alloc fifo) (start (batchRead me targetIp addrs mem buffer len) st) c)
    (hret : c.prog = .ret mem') :
    ∃ D R, ReadDone B C alloc me targetIp addrs mem buffer len st fifo [] [] D R c ∧
      mem' = writeAll mem (R.map wrote) := by
  rw [batchRead_eq me targetIp mem buffer len hsub] at h
  obtain ⟨sent, rest, D, R, hb⟩ := burst_reach h
  obtain ⟨rfl, hR, hmem⟩ := hb.returned hret
  have hrest : rest = [] := by simpa using hb.split
  subst hrest
  exact ⟨D, R, ⟨hb, hR⟩, hmem.trans (foldl_writePackets mem R)⟩

/-- **A batched read returns.** -/
theorem batchRead_ends (B : Nat) (alloc : Server → Nat → UInt64) (fifo : Prop) (st : UInt16 → Server)
    (d rc : List Packet) (hport : targetIp.port = C.port) (hsub : ∀ a ∈ addrs, a.subid.toNat < ushrtMax) :
    Ends (rmemNet B C alloc fifo)
      (fun mem' c => ∃ D R, ReadDone B C alloc me targetIp addrs mem buffer len st fifo d rc D R c ∧
        mem' = writeAll mem (R.map wrote))
      ⟨batchRead me targetIp addrs mem buffer len, [], st, d, [], rc⟩ := by
  rw [batchRead_eq me targetIp mem buffer len hsub]
  refine (burst_ends (fun D hD _ => ?_)).mono
    (fun mem' c ⟨D, R, hb, hR, hmem⟩ => ⟨D, R, ⟨hb, hR⟩, hmem.trans (foldl_writePackets mem R)⟩)
  have hr : ∀ p ∈ D, BulkRead C len p := fun p hp => bulkRead_of_mem hport p (hD.subset hp)
  apply Nat.le_of_eq
  rw [run_bulkReads B alloc fifo st D hr, List.length_map, hD.length_eq, length_readPkts]

variable (B C alloc me targetIp addrs mem buffer len st) in
/-- **What a batched read is to do**, in whatever order requests and answers arrive: it returns, slot `i` then has the
bytes at the `i`th address, every other byte of the caller is as it was, no answer is left, and every packet was read
with the length the caller gave. -/
structure Fills (fifo : Prop) : Prop where
  ends : Ends (rmemNet B C alloc fifo) (fun _ _ => True) (start (batchRead me targetIp addrs mem buffer len) st)
  fills : ∀ c mem', Reach (rmemNet B C alloc fifo) (start (batchRead me targetIp addrs mem buffer len) st) c →
    c.prog = .ret mem' →
    (∀ i a, addrs[i]? = some a → readBytes mem' (buffer + i * len.toNat) len.toNat =
      readBytes (c.srv a.subid).mem a.paddr.toNat len.toNat) ∧
    (∀ q, q < buffer ∨ buffer + addrs.length * len.toNat ≤ q → mem' q = mem q) ∧
    c.srv = st ∧ c.answers = [] ∧ c.flight = [] ∧ c.served.length = addrs.length ∧
    ∀ p ∈ c.served, p.dst.addr.args.toUInt16 = len

/-- A batched read of servers that `sub_ids` can count. -/
theorem batchRead_fills (fifo : Prop) (hport : targetIp.port = C.port) (hlen : addrs.length ≤ batchSize)
    (hsub : ∀ a ∈ addrs, a.subid.toNat < ushrtMax) (hbuf : buffer + addrs.length * len.toNat < 2 ^ 64) :
    Fills B C alloc me targetIp addrs mem buffer len st fifo := by
  refine ⟨(batchRead_ends B alloc fifo st [] [] hport hsub).mono (fun _ _ _ => trivial), fun c mem' hc hret => ?_⟩
  obtain ⟨D, R, hdone, rfl⟩ := batchRead_returned hsub hc hret
  obtain ⟨hA, hF, hsrv, hD, -⟩ := hdone.answers hport
  have hslots := hdone.slots hport hlen hbuf
  have hserved : c.served = D := hdone.1.served
  rw [hserved, hsrv]
  refine ⟨fun i a ha => ?_, fun q hq => ?_, rfl, hA, hF, ?_, fun p hp => ?_⟩
  · refine readBytes_slots mem hslots (length_remoteBytes st len.toNat addrs) ?_
    rw [remoteBytes, List.getElem?_map, ha]
    rfl
  · refine slots_outside mem hslots (length_remoteBytes st len.toNat addrs) ?_
    rwa [remoteBytes, List.length_map]
  · rw [hD.length_eq, length_readPkts]
  · exact (bulkRead_of_mem hport p (hD.subset hp)).length

/-- **A batched read fills the buffer with what the servers hold, and nothing else**, exactly if no address is of the
server with the last number: `sub_ids` ends before it. -/
theorem batchRead_fills_iff (fifo : Prop) (hport : targetIp.port = C.port) (hlen : addrs.length ≤ batchSize)
    (hbuf : buffer + addrs.length * len.toNat < 2 ^ 64) :
    Fills B C alloc me targetIp addrs mem buffer len st fifo ↔ ∀ a ∈ addrs, a.subid.toNat ≤ 65534 := by
  constructor
  · intro h a ha
    by_contra hbad
    have hfail : batchRead me targetIp addrs mem buffer len = .fail :=
      batchRead_fail me targetIp (fun hlt => hbad (Nat.le_of_lt_succ hlt)) ha mem buffer len
    exact not_ends_fail hfail h.ends
  · intro hsub
    exact batchRead_fills fifo hport hlen (fun a ha => Nat.lt_succ_of_le (hsub a ha)) hbuf

theorem batchRead_fills_repeated :
    let c₀ := start (batchRead ⟨⟨9, 0, 0, 0⟩, 6000⟩ ⟨⟨1, 0, 0, 0⟩, 5000⟩ [⟨1, 0, 0, 4⟩, ⟨2, 0, 0, 0⟩, ⟨1, 0, 0, 4⟩]
      (fun _ => 0) 100 2) (fun s => (⟨fun q => UInt8.ofNat (q + s.toNat), []⟩ : Server))
    ∀ c mem', Reach (rmemNet 1 plainCluster (fun _ _ => 0) False) c₀ c → c.prog = .ret mem' →
      readBytes mem' (100 + 2 * 2) 2 = [5, 6] ∧ mem' 106 = 0 := by
  intro c₀ c mem' hc hret
  have hfills : Fills 1 plainCluster (fun _ _ => 0) ⟨⟨9, 0, 0, 0⟩, 6000⟩ ⟨⟨1, 0, 0, 0⟩, 5000⟩
      [⟨1, 0, 0, 4⟩, ⟨2, 0, 0, 0⟩, ⟨1, 0, 0, 4⟩] (fun _ => 0) 100 2 (fun s => ⟨fun q => UInt8.ofNat (q + s.toNat), []⟩)
      False := (batchRead_fills_iff False rfl (by decide) (by decide)).2 (by decide)
  obtain ⟨hslots, hout, hsrv, -⟩ := hfills.fills c mem' hc hret
  refine ⟨?_, hout 106 (Or.inr (by decide))⟩
  rw [hsrv] at hslots
  exact hslots 2 _ rfl

/-- A batch with an address of the server with the last number does not return. -/
theorem batchRead_last_subid : ¬ Fills 1 plainCluster (fun _ _ => 0) ⟨⟨9, 0, 0, 0⟩, 6000⟩ ⟨⟨1, 0, 0, 0⟩, 5000⟩
    [⟨1, 0, 0, 4⟩, ⟨65535, 0, 0, 4⟩] (fun _ => 0) 100 2 (fun _ => ⟨fun _ => 0, []⟩) False := by
  intro h
  have hbad : ¬ (⟨65535, 0, 0, 4⟩ : Ip6Memaddr).subid.toNat < ushrtMax := by decide
  have hmem : ⟨65535, 0, 0, 4⟩ ∈ [(⟨1, 0, 0, 4⟩ : Ip6Memaddr), ⟨65535, 0, 0, 4⟩] := by decide
  exact not_ends_fail (batchRead_fail ⟨⟨9, 0, 0, 0⟩, 6000⟩ ⟨⟨1, 0, 0, 0⟩, 5000⟩ hbad hmem (fun _ => 0) 100 2) h.ends

/-- A batched read between quiet states. -/
theorem batchRead_runs (B : Nat) (alloc : Server → Nat → UInt64) (fifo : Prop) (me : SockaddrIn6) (mem : Nat → UInt8)
    (buffer : Nat) (len : UInt16) (st : UInt16 → Server) (hport : targetIp.port = C.port)
    (hlen : addrs.length ≤ batchSize) (hsub : ∀ a ∈ addrs, a.subid.toNat < ushrtMax)
    (hbuf : buffer + addrs.length * len.toNat < 2 ^ 64) :
    Runs (rmemNet B C alloc fifo) (batchRead me targetIp addrs mem buffer len) st
      (fun mem' st' => st' = st ∧
        readBytes mem' buffer (addrs.length * len.toNat) = (remoteBytes st len.toNat addrs).flatten ∧
        ∀ q, q < buffer ∨ buffer + addrs.length * len.toNat ≤ q → mem' q = mem q) := by
  intro d rc
  refine (batchRead_ends B alloc fifo st d rc hport hsub).mono (fun mem' c ⟨D, R, hdone, hmem⟩ => ?_)
  obtain ⟨hA, hF, hsrv, -, -⟩ := hdone.answers hport
  have hslots := hdone.slots hport hlen hbuf
  have hn : addrs.length = (remoteBytes st len.toNat addrs).length := by rw [remoteBytes, List.length_map]
  subst hmem
  refine ⟨hF, hA, hsrv, ?_, fun q hq => ?_⟩
  · rw [hn]
    exact readBytes_flatten (fun i v hi => readBytes_slots mem hslots (length_remoteBytes st len.toNat addrs) hi)
  · exact slots_outside mem hslots (length_remoteBytes st len.toNat addrs) (by rwa [← hn])

end Runs

end Rmem
end Bb
