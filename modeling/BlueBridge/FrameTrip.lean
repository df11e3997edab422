import BlueBridge.Dpdk
/-!
# FrameTrip — packets through frames and back

Whatever was in `ether_frame` or in an mbuf before, a packet becomes the bytes `frame` of it, and those are all that a
receiver needs: what is behind them in the slot does not matter.  So a sequence of packets is received as it was sent, by
every receiver and from either backend, but for the source port, to which the raw backend adds the thread's number
(`packets_round_trip`).

A frame that fits a slot is short enough for the 16-bit length.
-/
namespace Bb
namespace Frame

open Bytes Rmem Bb.Ring RxRing Dpdk

/-! ## Sending -/

/-- The frames of `prepare_packet`, packet after packet in the one buffer. -/
def prepared : Buf → List PktRqst → List (List UInt8)
  | _,          []          => []
  | etherFrame, pkt :: pkts => (preparePacket etherFrame pkt).2 :: prepared (preparePacket etherFrame pkt).1 pkts

/-- The frames of `dpdk_assemble`, the `i`-th in whatever buffer `mbufs i` the pool has. -/
def assembled (etherFrame : Buf) (mbufs : Nat → Buf) (pkts : List PktRqst) : List (List UInt8) :=
  pkts.mapIdx (fun i pkt => dpdkAssemble etherFrame (mbufs i) pkt)

theorem prepared_eq {me : SockaddrIn6} : ∀ (pkts : List PktRqst) {f : Buf}, Configured broadcastMac me f →
    prepared f pkts = pkts.map (frame broadcastMac ethPIpv6 me)
  | [],          _, _ => rfl
  | pkt :: pkts, f, h => by
    rw [prepared, preparePacket_eq h, prepared_eq pkts (h.preparePacket pkt)]
    rfl

theorem assembled_eq (me : SockaddrIn6) (mbufs : Nat → Buf) (pkts : List PktRqst) :
    assembled (genDpdkPacketInfo me) mbufs pkts = pkts.map (frame dstMac ethPIpv6 me) := by
  refine List.ext_getElem (by simp [assembled]) (fun i h _ => ?_)
  simp [assembled, dpdkAssemble_eq]

/-- Who sends, and on the raw backend which thread. -/
inductive Backend where
  | raw (threadIdTx : Int)
  | dpdk

/-- The frames of a sequence of packets, whatever is in the buffers. -/
def Backend.frames (me : SockaddrIn6) (etherFrame : Buf) (mbufs : Nat → Buf) (pkts : List PktRqst) :
    Backend → List (List UInt8)
  | .raw threadIdTx => prepared (configureTx me threadIdTx etherFrame) pkts
  | .dpdk           => assembled (genDpdkPacketInfo me) mbufs pkts

/-- Where the frames come from. -/
def Backend.source (me : SockaddrIn6) : Backend → SockaddrIn6
  | .raw threadIdTx => onThread me threadIdTx
  | .dpdk           => me

/-! ## Words -/

section Words

variable {f : Buf} {p : Nat}

theorem uint16At_of_bytes {v : UInt16} (h : readBytes f p 2 = bytes16 v) : uint16At f p = v := by
  unfold uint16At bytes16 at *
  rw [h, leNat_leBytes, Nat.mod_eq_of_lt (show v.toNat < 256 ^ 2 from v.toNat_lt)]
  exact UInt16.ofNat_toNat

theorem uint32At_of_bytes {v : UInt32} (h : readBytes f p 4 = leBytes 4 v.toNat) : uint32At f p = v := by
  unfold uint32At
  rw [h, leNat_leBytes, Nat.mod_eq_of_lt (show v.toNat < 256 ^ 4 from v.toNat_lt)]
  exact UInt32.ofNat_toNat

theorem uint64At_of_bytes {v : UInt64} (h : readBytes f p 8 = bytes64 v) : uint64At f p = v := by
  unfold uint64At bytes64 at *
  rw [h, leNat_leBytes, Nat.mod_eq_of_lt (show v.toNat < 256 ^ 8 from v.toNat_lt)]
  exact UInt64.ofNat_toNat

theorem memaddrAt_of_bytes {a : Ip6Memaddr} (h : readBytes f p 16 = a.bytes) : memaddrAt f p = a := by
  have hsplit : readBytes f p 16 = readBytes f p 2 ++ (readBytes f (p + 2) 2 ++ (readBytes f (p + 4) 4 ++
      readBytes f (p + 8) 8)) := by
    rw [show 16 = 2 + (2 + (4 + 8)) from rfl, readBytes_add, readBytes_add, readBytes_add]
  rw [hsplit, Ip6Memaddr.bytes, List.append_assoc, List.append_assoc] at h
  obtain ⟨hsubid, h⟩ := List.append_inj h (by simp)
  obtain ⟨hcmd, h⟩ := List.append_inj h (by simp)
  obtain ⟨hargs, hpaddr⟩ := List.append_inj h (by simp)
  unfold memaddrAt
  rw [uint16At_of_bytes hsubid, uint16At_of_bytes hcmd, uint32At_of_bytes hargs, uint64At_of_bytes hpaddr]

end Words

/-! ## Receiving -/

/-- `C_FRAMESIZE`, and the `MTU` that mbufs are made for. -/
def cFramesize : Nat := 8192

/-- The packet's frame fits a slot. -/
def Fits (pkt : PktRqst) : Prop := 62 + pkt.data.length ≤ cFramesize

/-- The slot begins with the frame; anything may be behind it. -/
def Carries (f : Buf) (bytes : List UInt8) : Prop := readBytes f 0 bytes.length = bytes

/-- **What a slot says of the packet it carries.** -/
structure Says (me : SockaddrIn6) (f : Buf) (pkt : PktRqst) : Prop where
  dst : readBytes f 38 16 = pkt.dstAddr.bytes
  dstAddr : ip6Dst f = pkt.dstAddr
  dstPort : udpDest f = pkt.dstPort
  source : (⟨ip6Src f, udpSource f⟩ : SockaddrIn6) = me
  size : msgSize f = UInt16.ofNat pkt.data.length
  size_toNat : (msgSize f).toNat = pkt.data.length
  data : payload f (msgSize f) = pkt.data

theorem says_of_carries {mac : List UInt8} {me : SockaddrIn6} {f : Buf} {pkt : PktRqst} (hmac : mac.length = 6)
    (hfit : Fits pkt) (h : Carries f (frame mac ethPIpv6 me pkt)) : Says me f pkt := by
  have hlen : (frame mac ethPIpv6 me pkt).length = 62 + pkt.data.length := by
    simp [frame, hmac]
    omega
  unfold Carries at h
  rw [hlen, readBytes_fields, frame] at h
  -- field after field, by the lengths
  obtain ⟨-, h⟩ := List.append_inj h (by simp [hmac])
  obtain ⟨-, h⟩ := List.append_inj h (by simp)
  obtain ⟨-, h⟩ := List.append_inj h (by simp)
  obtain ⟨-, h⟩ := List.append_inj h (by simp)
  obtain ⟨-, h⟩ := List.append_inj h (by simp)
  obtain ⟨-, h⟩ := List.append_inj h (by simp)
  obtain ⟨hsrc, h⟩ := List.append_inj h (by simp)
  obtain ⟨hdst, h⟩ := List.append_inj h (by simp)
  obtain ⟨hsport, h⟩ := List.append_inj h (by simp)
  obtain ⟨hdport, h⟩ := List.append_inj h (by simp)
  obtain ⟨hplen, h⟩ := List.append_inj h (by simp)
  obtain ⟨-, hdata⟩ := List.append_inj h (by simp)
  have hbound : pkt.data.length < 2 ^ 16 := by
    unfold Fits cFramesize at hfit
    omega
  have hsize : msgSize f = UInt16.ofNat pkt.data.length := by
    unfold msgSize
    rw [uint16At_of_bytes hplen, htons_htons, Nat.add_comm, UInt16.ofNat_add]
    exact UInt16.add_sub_cancel _ _
  have htoNat : (msgSize f).toNat = pkt.data.length := by
    rw [hsize]
    exact UInt16.toNat_ofNat_of_lt' hbound
  refine ⟨hdst, memaddrAt_of_bytes hdst, uint16At_of_bytes hdport, ?_, hsize, htoNat, ?_⟩
  · rw [ip6Src, udpSource, memaddrAt_of_bytes hsrc, uint16At_of_bytes hsport]
  · rw [payload, htoNat, hdata]

/-- What a receive call returns of a packet from `me`. -/
def decoded (rcvBuf remoteAddr : Bool) (me : SockaddrIn6) (pkt : PktRqst) : Received where
  msgSize := UInt16.ofNat pkt.data.length
  rcvBuf := if rcvBuf then some pkt.data else none
  remoteAddr := if remoteAddr then some pkt.dstAddr else none
  targetIp := me

/-- **What the receivers make of a slot**: `simple_epoll_rcv`, `dpdk_client_rcv` on whatever port it listens, and
`handle_packet`, which hands `process_request` the data where it is; there, a request too short for the word it is to
have is read on. -/
structure Recovered (me : SockaddrIn6) (f : Buf) (pkt : PktRqst) : Prop where
  dst : readBytes f 38 16 = pkt.dstAddr.bytes
  size : (UInt16.ofNat pkt.data.length).toNat = pkt.data.length
  epoll : ∀ rcvBuf remoteAddr, (rcvReader rcvBuf remoteAddr).eval f = decoded rcvBuf remoteAddr me pkt
  burst : ∀ srcClientPort rcvBuf remoteAddr, rcvBurst srcClientPort rcvBuf remoteAddr [f] =
    if pkt.dstPort = srcClientPort then some (decoded rcvBuf remoteAddr me pkt) else none
  handle : handleReader.eval f = (me, UInt16.ofNat pkt.data.length)
  process : ∃ behind, behind.length = 8 - pkt.data.length ∧ ∀ B alloc h,
    (processRequestAt B alloc me (UInt16.ofNat pkt.data.length)).eval f h =
      processRequest B (alloc h) h me pkt.dstAddr (pkt.data ++ behind) (UInt16.ofNat pkt.data.length)

section Receive

variable {me : SockaddrIn6} {f : Buf} {pkt : PktRqst}

theorem Says.received (h : Says me f pkt) (rcvBuf remoteAddr : Bool) :
    received rcvBuf remoteAddr f = decoded rcvBuf remoteAddr me pkt := by
  unfold RxRing.received decoded
  rw [h.data, h.size, h.dstAddr, h.source]

theorem Says.recovered (h : Says me f pkt) : Recovered me f pkt where
  dst := h.dst
  size := h.size ▸ h.size_toNat
  epoll := fun rcvBuf remoteAddr => (eval_rcvReader rcvBuf remoteAddr f).trans (h.received rcvBuf remoteAddr)
  burst := fun srcClientPort rcvBuf remoteAddr => by
    rw [rcvBurst, rcvBurst, h.dstPort, h.received]
  handle := by rw [eval_handleReader, h.source, h.size]
  process := by
    refine ⟨readBytes f (62 + pkt.data.length) (8 - pkt.data.length), length_readBytes .., fun B alloc server => ?_⟩
    have hdata : readBytes f 62 pkt.data.length = pkt.data := by
      rw [← h.size_toNat]
      exact h.data
    have hmax : max 8 (UInt16.ofNat pkt.data.length).toNat = pkt.data.length + (8 - pkt.data.length) := by
      rw [← h.size, h.size_toNat]
      omega
    rw [eval_processRequestAt, h.dstAddr, hmax, readBytes_add, hdata]

end Receive

/-! ## The round trip -/

theorem says_slots {me : SockaddrIn6} {mac : List UInt8} (hmac : mac.length = 6) :
    ∀ {slots : List Buf} {pkts : List PktRqst}, (∀ pkt ∈ pkts, Fits pkt) →
      List.Forall₂ Carries slots (pkts.map (frame mac ethPIpv6 me)) → List.Forall₂ (Says me) slots pkts
  | [],         [],          _,    _           => .nil
  | _ :: _,     _ :: _,      hfit, .cons h hs  =>
    .cons (says_of_carries hmac (hfit _ List.mem_cons_self) h)
      (says_slots hmac (fun pkt hp => hfit pkt (List.mem_cons_of_mem _ hp)) hs)

theorem map_received {me : SockaddrIn6} (rcvBuf remoteAddr : Bool) : ∀ {slots : List Buf} {pkts : List PktRqst},
    List.Forall₂ (Says me) slots pkts → slots.map (received rcvBuf remoteAddr) = pkts.map (decoded rcvBuf remoteAddr me)
  | _, _, .nil       => rfl
  | _, _, .cons h hs => by rw [List.map_cons, List.map_cons, h.received, map_received rcvBuf remoteAddr hs]

/-- The slots of either backend's frames. -/
theorem Backend.says (b : Backend) {me : SockaddrIn6} {etherFrame : Buf} {mbufs : Nat → Buf} {pkts : List PktRqst}
    (hfit : ∀ pkt ∈ pkts, Fits pkt) {slots : List Buf}
    (h : List.Forall₂ Carries slots (b.frames me etherFrame mbufs pkts)) :
    List.Forall₂ (Says (b.source me)) slots pkts := by
  cases b with
  | raw threadIdTx =>
    rw [Backend.frames, prepared_eq pkts (configured_configureTx me threadIdTx etherFrame)] at h
    exact says_slots length_broadcastMac hfit h
  | dpdk =>
    rw [Backend.frames, assembled_eq] at h
    exact says_slots length_dstMac hfit h

/-- **Packets are received as they were sent.**  Any sequence of packets that fit a slot, through `prepare_packet` or
through `dpdk_assemble`, whatever was in the buffers: from each frame every receiver recovers the packet and its sender,
and successive calls of `simple_epoll_rcv` on a ring that the frames came into return them in their order.  The sender is
the configured address, with the configured port of the DPDK backend and that of the thread on the raw one, the two being
the same exactly if the thread's number is 0 modulo `2 ^ 16`. -/
theorem packets_round_trip (b : Backend) (me : SockaddrIn6) (etherFrame : Buf) (mbufs : Nat → Buf) (pkts : List PktRqst)
    (hfit : ∀ pkt ∈ pkts, Fits pkt) {slots : List Buf}
    (hslots : List.Forall₂ Carries slots (b.frames me etherFrame mbufs pkts)) :
    List.Forall₂ (Recovered (b.source me)) slots pkts ∧
    (∀ threadIdTx, b = .raw threadIdTx → (b.source me = Backend.source me .dpdk ↔ threadIdTx % 2 ^ 16 = 0)) ∧
    ∀ n rcvBuf remoteAddr f s, 0 < n →
      Reach n (simpleEpollRcv rcvBuf remoteAddr) (fun _ => True) (start (simpleEpollRcv rcvBuf remoteAddr) f) s →
      s.filled.map Slot.frame = slots → (∀ x ∈ s.filled, flagged skips x.status = false) →
      ∃ k, s.out = (pkts.take k).map (decoded rcvBuf remoteAddr (b.source me)) := by
  have hsaid := b.says hfit hslots
  refine ⟨hsaid.imp (fun _ _ h => h.recovered), ?_, fun n rcvBuf remoteAddr f s hn hs hfilled hun => ?_⟩
  · rintro threadIdTx rfl
    exact onThread_eq_iff me threadIdTx
  obtain ⟨⟨k, hout⟩, -⟩ := copying_faithful hn (eval_rcvReader rcvBuf remoteAddr) hs
  have hfilter : (s.filled.take k).filter (fun x => !flagged skips x.status) = s.filled.take k :=
    List.filter_eq_self.2 (fun x hx => by rw [hun x (List.mem_of_mem_take hx)]; rfl)
  refine ⟨k, ?_⟩
  calc s.out = (s.filled.take k).map (fun x => received rcvBuf remoteAddr x.frame) := by rw [hout, hfilter]
    _ = ((s.filled.map Slot.frame).map (received rcvBuf remoteAddr)).take k := by
      rw [List.map_map, ← List.map_take]
      rfl
    _ = (pkts.take k).map (decoded rcvBuf remoteAddr (b.source me)) := by
      rw [hfilled, map_received rcvBuf remoteAddr hsaid, List.map_take]

/-- A frame with other bytes behind it. -/
theorem carries_getD (bytes : List UInt8) (b : UInt8) : Carries (fun i => bytes.getD i b) bytes := by
  unfold Carries readBytes
  refine List.ext_getElem (by simp) (fun i _ hi => ?_)
  simp [List.getElem?_eq_getElem hi]

/-- Three bytes and then one, sent by the second thread, in slots that have `0xee` behind their frames. -/
theorem packets_round_trip_shorter : ∃ f₁ f₂,
    List.Forall₂ (Recovered ⟨⟨2, 0, 0, 0⟩, htons 6001⟩) [f₁, f₂]
      [⟨⟨3, 2, 0, 64⟩, 9, [1, 2, 3]⟩, ⟨⟨3, 2, 0, 80⟩, 9, [4]⟩] :=
  ⟨_, _, (packets_round_trip (.raw 1) ⟨⟨2, 0, 0, 0⟩, htons 6000⟩ (fun _ => 0) (fun _ _ => 0)
    [⟨⟨3, 2, 0, 64⟩, 9, [1, 2, 3]⟩, ⟨⟨3, 2, 0, 80⟩, 9, [4]⟩] (by unfold Fits; decide)
    (.cons (carries_getD _ 0xee) (.cons (carries_getD _ 0xee) .nil))).1⟩

/-- The second thread's frame is not received as from the configured port, and DPDK's frame of the same packet is. -/
theorem second_thread_port : ∃ f g,
    List.Forall₂ Carries [f] ((Backend.raw 1).frames ⟨⟨2, 0, 0, 0⟩, htons 6000⟩ (fun _ => 0) (fun _ _ => 0)
      [⟨⟨3, 2, 0, 64⟩, 9, [1]⟩]) ∧
    List.Forall₂ Carries [g] (Backend.dpdk.frames ⟨⟨2, 0, 0, 0⟩, htons 6000⟩ (fun _ => 0) (fun _ _ => 0)
      [⟨⟨3, 2, 0, 64⟩, 9, [1]⟩]) ∧
    ¬ Recovered ⟨⟨2, 0, 0, 0⟩, htons 6000⟩ f ⟨⟨3, 2, 0, 64⟩, 9, [1]⟩ ∧ handleReader.eval f ≠ handleReader.eval g := by
  refine ⟨_, _, .cons (carries_getD _ 0) .nil, .cons (carries_getD _ 0) .nil, fun h => ?_, by decide⟩
  exact absurd h.handle (by decide)

end Frame
end Bb
