import BlueBridge.Rmem
/-!
# Frame — packets as bytes (`raw_backend/udp_raw_send.c`, `dpdk_backend/dpdk_common.c`, `types.h`)

A frame is an Ethernet, an IPv6 and a UDP header, 62 bytes in all, and the data.  The raw backend keeps one frame,
`ether_frame`, in which it overwrites what changes from packet to packet; the DPDK backend fills in a new one from a
skeleton.  Either way the frame is the concatenation `frame` (`preparePacket_eq`, `dpdkAssemble_eq`).

The hosts are little-endian; a port is in network byte order all along, so it is copied as it is.
-/
namespace Bb
namespace Frame

open Bytes Rmem

/-- A frame in memory, from its Ethernet header on. -/
abbrev Buf := Nat → UInt8

def bytes16 (v : UInt16) : List UInt8 := leBytes 2 v.toNat

def htons (v : UInt16) : UInt16 := v >>> 8 ||| v <<< 8

@[simp] theorem length_bytes16 (v : UInt16) : (bytes16 v).length = 2 := length_leBytes ..

end Frame

/-- The 16 bytes of an `ip6_memaddr`. -/
def Rmem.Ip6Memaddr.bytes (a : Rmem.Ip6Memaddr) : List UInt8 :=
  Frame.bytes16 a.subid ++ Frame.bytes16 a.cmd ++ Bytes.leBytes 4 a.args.toNat ++ Bytes.bytes64 a.paddr

@[simp] theorem Rmem.Ip6Memaddr.length_bytes (a : Rmem.Ip6Memaddr) : a.bytes.length = 16 := by simp [bytes]

namespace Frame

open Bytes Rmem

/-! ## What receivers take from a frame -/

def uint16At (f : Buf) (p : Nat) : UInt16 := UInt16.ofNat (leNat (readBytes f p 2))
def uint32At (f : Buf) (p : Nat) : UInt32 := UInt32.ofNat (leNat (readBytes f p 4))
def uint64At (f : Buf) (p : Nat) : UInt64 := UInt64.ofNat (leNat (readBytes f p 8))

def memaddrAt (f : Buf) (p : Nat) : Ip6Memaddr :=
  ⟨uint16At f p, uint16At f (p + 2), uint32At f (p + 4), uint64At f (p + 8)⟩

def ip6Src (f : Buf) : Ip6Memaddr := memaddrAt f 22
def ip6Dst (f : Buf) : Ip6Memaddr := memaddrAt f 38
def udpSource (f : Buf) : UInt16 := uint16At f 54
def udpDest (f : Buf) : UInt16 := uint16At f 56

/-- `ntohs(udp_hdr->len) - UDP_HDRLEN`. -/
def msgSize (f : Buf) : UInt16 := htons (uint16At f 58) - 8

def payload (f : Buf) (size : UInt16) : List UInt8 := readBytes f 62 size.toNat

/-! ## Senders -/

def srcMac : List UInt8 := [0xa0, 0x36, 0x9f, 0x45, 0xd8, 0x74]

/-- `ETH_P_IPV6`. -/
def ethPIpv6 : List UInt8 := [0x86, 0xdd]

/-- `ip6_flow`: version 6, no traffic class, no flow label. -/
def ip6Flow : List UInt8 := [0x60, 0, 0, 0]

/-- `ip6_nxt` and `ip6_hops`: UDP, the most hops. -/
def ip6NxtHops : List UInt8 := [17, 255]

/-- The length of header and data, as `ip6_plen` and as UDP's `len`. -/
def plen (pkt : PktRqst) : List UInt8 := bytes16 (htons (UInt16.ofNat (8 + pkt.data.length)))

/-- Either backend's frame, for its destination MAC and EtherType and the sender's own address and port. -/
def frame (dstMac etherType : List UInt8) (me : SockaddrIn6) (pkt : PktRqst) : List UInt8 :=
  dstMac ++ (srcMac ++ (etherType ++ (ip6Flow ++ (plen pkt ++ (ip6NxtHops ++ (me.addr.bytes ++ (pkt.dstAddr.bytes ++
    (bytes16 me.port ++ (bytes16 pkt.dstPort ++ (plen pkt ++ (bytes16 0xFFAA ++ pkt.data)))))))))))

/-- The raw backend's destination MAC. -/
def broadcastMac : List UInt8 := [0xff, 0xff, 0xff, 0xff, 0xff, 0xff]

/-- `htons(ntohs(cfg->src_port) + thread_id_tx)`, the sum cut to 16 bits by the call. -/
def sourcePort (srcPort : UInt16) (threadIdTx : Int) : UInt16 :=
  htons (UInt16.ofNat (((htons srcPort).toNat + threadIdTx) % 2 ^ 16).toNat)

/-- `configure_tx` for the configured address and port `me` and the thread's `thread_id_tx`; what it leaves undefined is
whatever was in `etherFrame`. -/
def configureTx (me : SockaddrIn6) (threadIdTx : Int) (etherFrame : Buf) : Buf :=
  let f := writeBytes etherFrame 0 broadcastMac
  let f := writeBytes f 6 srcMac
  let f := writeBytes f 12 ethPIpv6
  let f := writeBytes f 14 ip6Flow
  let f := writeBytes f 20 ip6NxtHops
  let f := writeBytes f 22 me.addr.bytes
  writeBytes f 54 (bytes16 (sourcePort me.port threadIdTx))

/-- `prepare_packet`: the frame buffer and what is put into the ring. -/
def preparePacket (etherFrame : Buf) (pkt : PktRqst) : Buf × List UInt8 :=
  let f := writeBytes etherFrame 38 pkt.dstAddr.bytes
  let f := writeBytes f 18 (plen pkt)
  let f := writeBytes f 56 (bytes16 pkt.dstPort)
  let f := writeBytes f 58 (plen pkt)
  let f := writeBytes f 60 (bytes16 0xFFAA)
  let f := writeBytes f 62 pkt.data
  (f, readBytes f 0 (62 + pkt.data.length))

/-- `DST_MAC` of the DPDK backend. -/
def dstMac : List UInt8 := [0xa0, 0x36, 0x9f, 0x45, 0xd8, 0x75]

/-- `gen_dpdk_packet_info`. -/
def genDpdkPacketInfo (me : SockaddrIn6) : Buf :=
  let f := writeBytes (fun _ => 0) 6 srcMac
  let f := writeBytes f 0 dstMac
  let f := writeBytes f 12 ethPIpv6
  let f := writeBytes f 22 me.addr.bytes
  let f := writeBytes f 14 ip6Flow
  let f := writeBytes f 20 ip6NxtHops
  let f := writeBytes f 54 (bytes16 me.port)
  writeBytes f 60 (bytes16 0xFFAA)

/-- `dpdk_assemble` in a buffer from the pool. -/
def dpdkAssemble (etherFrame mbuf : Buf) (pkt : PktRqst) : List UInt8 :=
  let f := writeBytes mbuf 0 (readBytes etherFrame 0 62)
  let f := writeBytes f 38 pkt.dstAddr.bytes
  let f := writeBytes f 18 (plen pkt)
  let f := writeBytes f 56 (bytes16 pkt.dstPort)
  let f := writeBytes f 58 (plen pkt)
  let f := writeBytes f 62 pkt.data
  readBytes f 0 (62 + pkt.data.length)

/-! ## The frames they send -/

@[simp] theorem length_plen (pkt : PktRqst) : (plen pkt).length = 2 := length_bytes16 _

@[simp] theorem length_broadcastMac : broadcastMac.length = 6 := by decide
@[simp] theorem length_dstMac : dstMac.length = 6 := by decide
@[simp] theorem length_srcMac : srcMac.length = 6 := by decide
@[simp] theorem length_ethPIpv6 : ethPIpv6.length = 2 := by decide
@[simp] theorem length_ip6Flow : ip6Flow.length = 4 := by decide
@[simp] theorem length_ip6NxtHops : ip6NxtHops.length = 2 := by decide

theorem readBytes_written {m : Buf} {p n : Nat} {d : List UInt8} (h : d.length = n) :
    readBytes (writeBytes m p d) p n = d := by
  rw [← h, readBytes_writeBytes]

/-- The fields of a frame, one after another. -/
theorem readBytes_fields (f : Buf) (n : Nat) :
    readBytes f 0 (62 + n) = readBytes f 0 6 ++ (readBytes f 6 6 ++ (readBytes f 12 2 ++ (readBytes f 14 4 ++
      (readBytes f 18 2 ++ (readBytes f 20 2 ++ (readBytes f 22 16 ++ (readBytes f 38 16 ++ (readBytes f 54 2 ++
      (readBytes f 56 2 ++ (readBytes f 58 2 ++ (readBytes f 60 2 ++ readBytes f 62 n))))))))))) := by
  rw [show 62 + n = 6 + (6 + (2 + (4 + (2 + (2 + (16 + (16 + (2 + (2 + (2 + (2 + n))))))))))) by omega]
  simp only [readBytes_add, Nat.zero_add, Nat.reduceAdd]

/-- The fields that are the same in all frames. -/
structure Configured (mac : List UInt8) (me : SockaddrIn6) (f : Buf) : Prop where
  mac : readBytes f 0 6 = mac
  src : readBytes f 6 6 = srcMac
  type : readBytes f 12 2 = ethPIpv6
  flow : readBytes f 14 4 = ip6Flow
  nxt : readBytes f 20 2 = ip6NxtHops
  addr : readBytes f 22 16 = me.addr.bytes
  port : readBytes f 54 2 = bytes16 me.port

/-- Where a thread's frames come from. -/
def onThread (me : SockaddrIn6) (threadIdTx : Int) : SockaddrIn6 := { me with port := sourcePort me.port threadIdTx }

theorem configured_configureTx (me : SockaddrIn6) (threadIdTx : Int) (f : Buf) :
    Configured broadcastMac (onThread me threadIdTx) (configureTx me threadIdTx f) := by
  constructor <;> simp (disch := simp) [configureTx, onThread, readBytes_written, readBytes_writeBytes_disjoint]

theorem htons_htons (v : UInt16) : htons (htons v) = v := by
  unfold htons
  apply UInt16.toBitVec_inj.1
  simp only [UInt16.toBitVec_or, UInt16.toBitVec_shiftRight, UInt16.toBitVec_shiftLeft]
  ext i hi
  simp only [UInt16.toBitVec_ofNat, BitVec.ofNat_eq_ofNat, BitVec.reduceMod, BitVec.ushiftRight_eq', BitVec.toNat_ofNat,
    Nat.reducePow, Nat.reduceMod, BitVec.shiftLeft_eq', BitVec.getElem_or, BitVec.getElem_ushiftRight,
    BitVec.getLsbD_or, BitVec.getLsbD_ushiftRight, BitVec.getLsbD_shiftLeft, Nat.add_sub_cancel_left,
    BitVec.getElem_shiftLeft]
  grind

theorem sourcePort_eq_iff (srcPort : UInt16) (threadIdTx : Int) :
    sourcePort srcPort threadIdTx = srcPort ↔ threadIdTx % 2 ^ 16 = 0 := by
  have hport : sourcePort srcPort threadIdTx = srcPort ↔
      UInt16.ofNat (((htons srcPort).toNat + threadIdTx) % 2 ^ 16).toNat = htons srcPort := by
    unfold sourcePort
    constructor
    · intro h
      exact (htons_htons _).symm.trans (congrArg htons h)
    · intro h
      rw [h, htons_htons]
  have hlt : (((htons srcPort).toNat + threadIdTx) % 2 ^ 16).toNat < 2 ^ 16 := by omega
  have hq := (htons srcPort).toNat_lt
  rw [hport, ← UInt16.toNat_inj, UInt16.toNat_ofNat_of_lt' hlt]
  omega

theorem onThread_eq_iff (me : SockaddrIn6) (threadIdTx : Int) : onThread me threadIdTx = me ↔ threadIdTx % 2 ^ 16 = 0 := by
  rw [← sourcePort_eq_iff me.port]
  exact ⟨fun h => congrArg SockaddrIn6.port h, fun h => by unfold onThread; rw [h]⟩

/-- The main thread sends from the configured port. -/
@[simp] theorem onThread_zero (me : SockaddrIn6) : onThread me 0 = me := (onThread_eq_iff me 0).2 rfl

theorem sourcePort_zero (srcPort : UInt16) : sourcePort srcPort 0 = srcPort := (sourcePort_eq_iff srcPort 0).2 rfl

/-- **A thread's frames are the main thread's of a host with the thread's port.** -/
theorem configureTx_onThread (me : SockaddrIn6) (threadIdTx : Int) (f : Buf) :
    configureTx me threadIdTx f = configureTx (onThread me threadIdTx) 0 f := by
  unfold configureTx
  rw [sourcePort_zero]
  rfl

theorem configured_main (me : SockaddrIn6) (f : Buf) : Configured broadcastMac me (configureTx me 0 f) := by
  have h := configured_configureTx me 0 f
  rwa [onThread_zero] at h

theorem configured_genDpdkPacketInfo (me : SockaddrIn6) : Configured dstMac me (genDpdkPacketInfo me) := by
  constructor <;> simp (disch := simp) [genDpdkPacketInfo, readBytes_written, readBytes_writeBytes_disjoint]

/-- A packet leaves the fixed fields as they are. -/
theorem Configured.preparePacket {mac : List UInt8} {me : SockaddrIn6} {f : Buf} (h : Configured mac me f)
    (pkt : PktRqst) : Configured mac me (preparePacket f pkt).1 := by
  constructor <;> simp (disch := simp) [Frame.preparePacket, readBytes_writeBytes_disjoint, h.mac, h.src, h.type, h.flow,
    h.nxt, h.addr, h.port]

/-- **The raw backend's frame.** -/
theorem preparePacket_eq {me : SockaddrIn6} {f : Buf} (h : Configured broadcastMac me f) (pkt : PktRqst) :
    (preparePacket f pkt).2 = frame broadcastMac ethPIpv6 me pkt := by
  unfold preparePacket frame
  dsimp only
  rw [readBytes_fields]
  simp (disch := simp) [readBytes_written, readBytes_writeBytes_disjoint, h.mac, h.src, h.type, h.flow, h.nxt, h.addr,
    h.port]

/-- **The DPDK backend's frame.** -/
theorem dpdkAssemble_eq (me : SockaddrIn6) (mbuf : Buf) (pkt : PktRqst) :
    dpdkAssemble (genDpdkPacketInfo me) mbuf pkt = frame dstMac ethPIpv6 me pkt := by
  have h := configured_genDpdkPacketInfo me
  have hcheck : readBytes (genDpdkPacketInfo me) 60 2 = bytes16 0xFFAA := by
    simp (disch := simp) [genDpdkPacketInfo, readBytes_written]
  have hcopy : ∀ p n, p + n ≤ 62 →
      readBytes (writeBytes mbuf 0 (readBytes (genDpdkPacketInfo me) 0 62)) p n = readBytes (genDpdkPacketInfo me) p n := by
    intro p n hle
    refine readBytes_congr (fun i hi => ?_)
    have := writeBytes_of_lt mbuf 0 (d := readBytes (genDpdkPacketInfo me) 0 62) (i := p + i) (by simp; omega)
    rw [Nat.zero_add, getD_readBytes _ _ (by omega), Nat.zero_add] at this
    exact this
  unfold dpdkAssemble frame
  rw [readBytes_fields]
  simp (disch := simp) [readBytes_written, readBytes_writeBytes_disjoint, hcopy, h.mac, h.src, h.type, h.flow, h.nxt,
    h.addr, h.port, hcheck]

end Frame
end Bb
