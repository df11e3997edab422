import BlueBridge.Headers
/-!
# SwitchParse — the switch's parser and deparser (`p4/p4_switch/ip6_16.p4`)

The headers in the order of their declarations, `MyParser` state by state, and `MyDeparser`.  A header is valid if it is
there.  The deparser has one order for all packets; every path through the parser extracts the headers in that order, so
what was parsed and what was not are the packet again (`deparse_parse`).
-/
namespace Bb
namespace Switch

open Headers

/-! ## Header types -/

structure ArpT where
  hType : BitVec 16
  pType : BitVec 16
  hSize : BitVec 8
  pSize : BitVec 8
  opcode : BitVec 16
  sMac : BitVec 48
  sIP : BitVec 32
  dMac : BitVec 48
  dIP : BitVec 32
  deriving DecidableEq

structure Icmp6T where
  ipType : BitVec 8
  code : BitVec 8
  checksum : BitVec 16
  deriving DecidableEq

structure BbT where
  version : BitVec 4
  trafficClass : BitVec 8
  flowLabel : BitVec 20
  payloadLen : BitVec 16
  nextHdr : BitVec 8
  hopLimit : BitVec 8
  sWildcard : BitVec 32
  sSubnet : BitVec 16
  sCmd : BitVec 16
  sBbPointer : BitVec 64
  dWildcard : BitVec 32
  dSubnet : BitVec 16
  dCmd : BitVec 16
  dBbPointer : BitVec 64
  deriving DecidableEq

structure BbAllocT where
  srcPort : BitVec 16
  dstPort : BitVec 16
  length_ : BitVec 16
  checksum : BitVec 16
  deriving DecidableEq

structure EthernetT where
  dstAddr : BitVec 48
  srcAddr : BitVec 48
  etherType : BitVec 16
  deriving DecidableEq

structure Ipv4T where
  version : BitVec 4
  ihl : BitVec 4
  diffserv : BitVec 8
  totalLen : BitVec 16
  identification : BitVec 16
  flags : BitVec 3
  fragOffset : BitVec 13
  ttl : BitVec 8
  protocol : BitVec 8
  hdrChecksum : BitVec 16
  srcAddr : BitVec 32
  dstAddr : BitVec 32
  deriving DecidableEq

structure Ipv6T where
  version : BitVec 4
  trafficClass : BitVec 8
  flowLabel : BitVec 20
  payloadLen : BitVec 16
  nextHdr : BitVec 8
  hopLimit : BitVec 8
  srcAddr : BitVec 128
  dstAddr : BitVec 128
  deriving DecidableEq

structure TcpT where
  srcPort : BitVec 16
  dstPort : BitVec 16
  seqNo : BitVec 32
  ackNo : BitVec 32
  dataOffset : BitVec 4
  res : BitVec 4
  flags : BitVec 8
  window : BitVec 16
  checksum : BitVec 16
  urgentPtr : BitVec 16
  deriving DecidableEq

structure ThriftT where
  version : BitVec 16
  ttype : BitVec 16
  len : BitVec 32
  name : BitVec 128
  seq : BitVec 32
  deriving DecidableEq

structure ThriftIpT where
  crap : BitVec 56
  wildcard : BitVec 32
  subnet : BitVec 16
  cmd : BitVec 16
  bbPointer : BitVec 64
  deriving DecidableEq

structure UdpT where
  srcPort : BitVec 16
  dstPort : BitVec 16
  length_ : BitVec 16
  checksum : BitVec 16
  deriving DecidableEq

instance : Header ArpT where
  widths := [16, 16, 8, 8, 16, 48, 32, 48, 32]
  bytes := 28
  widths_sum := rfl
  fields := ⟨fun h => (h.hType, h.pType, h.hSize, h.pSize, h.opcode, h.sMac, h.sIP, h.dMac, h.dIP, ()),
    fun (a, b, c, d, e, f, g, h, i, _) => ⟨a, b, c, d, e, f, g, h, i⟩, fun _ => rfl, fun _ => rfl⟩

instance : Header Icmp6T where
  widths := [8, 8, 16]
  bytes := 4
  widths_sum := rfl
  fields := ⟨fun h => (h.ipType, h.code, h.checksum, ()), fun (a, b, c, _) => ⟨a, b, c⟩, fun _ => rfl, fun _ => rfl⟩

instance : Header BbT where
  widths := [4, 8, 20, 16, 8, 8, 32, 16, 16, 64, 32, 16, 16, 64]
  bytes := 40
  widths_sum := rfl
  fields := ⟨fun h => (h.version, h.trafficClass, h.flowLabel, h.payloadLen, h.nextHdr, h.hopLimit, h.sWildcard, h.sSubnet,
      h.sCmd, h.sBbPointer, h.dWildcard, h.dSubnet, h.dCmd, h.dBbPointer, ()),
    fun (a, b, c, d, e, f, g, h, i, j, k, l, m, n, _) => ⟨a, b, c, d, e, f, g, h, i, j, k, l, m, n⟩,
    fun _ => rfl, fun _ => rfl⟩

instance : Header BbAllocT where
  widths := [16, 16, 16, 16]
  bytes := 8
  widths_sum := rfl
  fields := ⟨fun h => (h.srcPort, h.dstPort, h.length_, h.checksum, ()), fun (a, b, c, d, _) => ⟨a, b, c, d⟩,
    fun _ => rfl, fun _ => rfl⟩

instance : Header EthernetT where
  widths := [48, 48, 16]
  bytes := 14
  widths_sum := rfl
  fields := ⟨fun h => (h.dstAddr, h.srcAddr, h.etherType, ()), fun (a, b, c, _) => ⟨a, b, c⟩,
    fun _ => rfl, fun _ => rfl⟩

instance : Header Ipv4T where
  widths := [4, 4, 8, 16, 16, 3, 13, 8, 8, 16, 32, 32]
  bytes := 20
  widths_sum := rfl
  fields := ⟨fun h => (h.version, h.ihl, h.diffserv, h.totalLen, h.identification, h.flags, h.fragOffset, h.ttl,
      h.protocol, h.hdrChecksum, h.srcAddr, h.dstAddr, ()),
    fun (a, b, c, d, e, f, g, h, i, j, k, l, _) => ⟨a, b, c, d, e, f, g, h, i, j, k, l⟩, fun _ => rfl, fun _ => rfl⟩

instance : Header Ipv6T where
  widths := [4, 8, 20, 16, 8, 8, 128, 128]
  bytes := 40
  widths_sum := rfl
  fields := ⟨fun h => (h.version, h.trafficClass, h.flowLabel, h.payloadLen, h.nextHdr, h.hopLimit, h.srcAddr,
      h.dstAddr, ()),
    fun (a, b, c, d, e, f, g, h, _) => ⟨a, b, c, d, e, f, g, h⟩, fun _ => rfl, fun _ => rfl⟩

instance : Header TcpT where
  widths := [16, 16, 32, 32, 4, 4, 8, 16, 16, 16]
  bytes := 20
  widths_sum := rfl
  fields := ⟨fun h => (h.srcPort, h.dstPort, h.seqNo, h.ackNo, h.dataOffset, h.res, h.flags, h.window, h.checksum,
      h.urgentPtr, ()),
    fun (a, b, c, d, e, f, g, h, i, j, _) => ⟨a, b, c, d, e, f, g, h, i, j⟩, fun _ => rfl, fun _ => rfl⟩

instance : Header ThriftT where
  widths := [16, 16, 32, 128, 32]
  bytes := 28
  widths_sum := rfl
  fields := ⟨fun h => (h.version, h.ttype, h.len, h.name, h.seq, ()), fun (a, b, c, d, e, _) => ⟨a, b, c, d, e⟩,
    fun _ => rfl, fun _ => rfl⟩

instance : Header ThriftIpT where
  widths := [56, 32, 16, 16, 64]
  bytes := 23
  widths_sum := rfl
  fields := ⟨fun h => (h.crap, h.wildcard, h.subnet, h.cmd, h.bbPointer, ()), fun (a, b, c, d, e, _) => ⟨a, b, c, d, e⟩,
    fun _ => rfl, fun _ => rfl⟩

instance : Header UdpT where
  widths := [16, 16, 16, 16]
  bytes := 8
  widths_sum := rfl
  fields := ⟨fun h => (h.srcPort, h.dstPort, h.length_, h.checksum, ()), fun (a, b, c, d, _) => ⟨a, b, c, d⟩,
    fun _ => rfl, fun _ => rfl⟩

structure Hdrs where
  arp : Option ArpT := none
  icmp6 : Option Icmp6T := none
  bb : Option BbT := none
  bbAlloc : Option BbAllocT := none
  ethernet : Option EthernetT := none
  ipv4 : Option Ipv4T := none
  ipv6 : Option Ipv6T := none
  tcp : Option TcpT := none
  thrift : Option ThriftT := none
  thriftIp : Option ThriftIpT := none
  udp : Option UdpT := none

/-! ## The parser -/

/-- `packet.extract`; a packet that is too short stops the parser. -/
def extractThen {H : Type} [Header H] (hdr : Hdrs) (packet : List UInt8)
    (next : H → List UInt8 → Hdrs × List UInt8) : Hdrs × List UInt8 :=
  match extract H packet with
  | none           => (hdr, packet)
  | some (h, rest) => next h rest

section Parser

variable (hdr : Hdrs) (packet : List UInt8)

def parseArp : Hdrs × List UInt8 :=
  extractThen hdr packet (fun (h : ArpT) rest => ({ hdr with arp := some h }, rest))

def parseNdp : Hdrs × List UInt8 :=
  extractThen hdr packet (fun (h : Icmp6T) rest => ({ hdr with icmp6 := some h }, rest))

def parseBbAlloc : Hdrs × List UInt8 :=
  extractThen hdr packet (fun (h : BbAllocT) rest => ({ hdr with bbAlloc := some h }, rest))

def parseBb : Hdrs × List UInt8 :=
  extractThen hdr packet (fun (h : BbT) rest =>
    if h.dCmd = 0x100 ∨ h.dCmd = 0x400 ∨ h.dCmd = 0x600 then parseBbAlloc { hdr with bb := some h } rest
    else ({ hdr with bb := some h }, rest))

def parseTcp : Hdrs × List UInt8 :=
  extractThen hdr packet (fun (h : TcpT) rest => ({ hdr with tcp := some h }, rest))

def parseThriftIp : Hdrs × List UInt8 :=
  extractThen hdr packet (fun (h : ThriftIpT) rest => ({ hdr with thriftIp := some h }, rest))

def parseThrift : Hdrs × List UInt8 :=
  extractThen hdr packet (fun (h : ThriftT) rest =>
    if h.version = 0x8001 then parseThriftIp { hdr with thrift := some h } rest
    else ({ hdr with thrift := some h }, rest))

def parseUdp : Hdrs × List UInt8 :=
  extractThen hdr packet (fun (h : UdpT) rest => parseThrift { hdr with udp := some h } rest)

def parseIpv4 : Hdrs × List UInt8 :=
  extractThen hdr packet (fun (h : Ipv4T) rest =>
    if h.protocol = 6 then parseTcp { hdr with ipv4 := some h } rest
    else if h.protocol = 17 then parseUdp { hdr with ipv4 := some h } rest
    else ({ hdr with ipv4 := some h }, rest))

def parseIpv6 : Hdrs × List UInt8 :=
  extractThen hdr packet (fun (h : Ipv6T) rest =>
    if h.nextHdr = 6 then parseTcp { hdr with ipv6 := some h } rest
    else if h.nextHdr = 17 then parseUdp { hdr with ipv6 := some h } rest
    else if h.nextHdr = 0x3a then parseNdp { hdr with ipv6 := some h } rest
    else ({ hdr with ipv6 := some h }, rest))

def parseEthernet : Hdrs × List UInt8 :=
  extractThen hdr packet (fun (h : EthernetT) rest =>
    if h.etherType = 0x806 then parseArp { hdr with ethernet := some h } rest
    else if h.etherType = 0x800 then parseIpv4 { hdr with ethernet := some h } rest
    else if h.etherType = 0x86dd then parseIpv6 { hdr with ethernet := some h } rest
    else if h.etherType = 0xffff then parseBb { hdr with ethernet := some h } rest
    else ({ hdr with ethernet := some h }, rest))

end Parser

/-- `MyParser`: the headers, and what was not parsed. -/
def myParser (packet : List UInt8) : Hdrs × List UInt8 := parseEthernet {} packet

/-! ## The deparser -/

/-- `packet.emit` of a header that may not be valid. -/
def emitValid {H : Type} [Header H] : Option H → List UInt8
  | none   => []
  | some h => emit h

/-- What `MyDeparser` emits, in its order. -/
def Hdrs.emitted (hdr : Hdrs) : List (List UInt8) :=
  [emitValid hdr.ethernet, emitValid hdr.arp, emitValid hdr.ipv6, emitValid hdr.icmp6, emitValid hdr.ipv4,
    emitValid hdr.bb, emitValid hdr.bbAlloc, emitValid hdr.udp, emitValid hdr.thrift, emitValid hdr.thriftIp,
    emitValid hdr.tcp]

def myDeparser (hdr : Hdrs) : List UInt8 := hdr.emitted.flatten

/-! ## Parsing and deparsing -/

/-- The headers from place `k` of the deparser's order on are not valid. -/
def Clear (k : Nat) (hdr : Hdrs) : Prop := ∀ j, k ≤ j → hdr.emitted.getD j [] = []

/-- Nothing is lost or moved between `hdr` with `packet` to come and the result `r`. -/
def Reproduces (r : Hdrs × List UInt8) (hdr : Hdrs) (packet : List UInt8) : Prop :=
  myDeparser r.1 ++ r.2 = myDeparser hdr ++ packet

theorem flatten_set : ∀ (l : List (List UInt8)) (k : Nat) (x : List UInt8), k < l.length →
    (∀ j, k ≤ j → l.getD j [] = []) → (l.set k x).flatten = l.flatten ++ x
  | y :: l, 0, x, _, h => by
    have hy : y = [] := h 0 (Nat.le_refl _)
    have hl : l.flatten = [] := by
      rw [List.flatten_eq_nil_iff]
      intro z hz
      obtain ⟨j, hj, rfl⟩ := List.getElem_of_mem hz
      have := h (j + 1) (Nat.zero_le _)
      rw [List.getD_cons_succ, List.getD_eq_getElem?_getD, List.getElem?_eq_getElem hj] at this
      exact this
    rw [List.set_cons_zero, List.flatten_cons, List.flatten_cons, hl, hy, List.nil_append, List.nil_append,
      List.append_nil]
  | y :: l, k + 1, x, hk, h => by
    have ih := flatten_set l k x (Nat.lt_of_succ_lt_succ hk) (fun j hj => by
      have := h (j + 1) (Nat.succ_le_succ hj)
      rwa [List.getD_cons_succ] at this)
    rw [List.set_cons_succ, List.flatten_cons, List.flatten_cons, ih, List.append_assoc]

theorem Clear.set {k : Nat} {hdr hdr' : Hdrs} {x : List UInt8} (h : Clear k hdr)
    (hset : hdr'.emitted = hdr.emitted.set k x) : Clear (k + 1) hdr' := by
  intro j hj
  rw [hset, List.getD_eq_getElem?_getD, List.getElem?_set_ne (by omega), ← List.getD_eq_getElem?_getD]
  exact h j (by omega)

theorem Clear.mono {k j : Nat} {hdr : Hdrs} (h : Clear k hdr) (hkj : k ≤ j) : Clear j hdr :=
  fun i hi => h i (Nat.le_trans hkj hi)

theorem Reproduces.refl (hdr : Hdrs) (packet : List UInt8) : Reproduces (hdr, packet) hdr packet := rfl

/-- **A state that extracts the header at place `k`** of the deparser's order reproduces the packet if the states after
it do. -/
theorem extractThen_reproduces {H : Type} [Header H] (k : Nat) {hdr : Hdrs} (set : H → Hdrs) {packet : List UInt8}
    {next : H → List UInt8 → Hdrs × List UInt8} (hk : k < 11) (hclear : Clear k hdr)
    (hset : ∀ h, (set h).emitted = hdr.emitted.set k (emit h))
    (hnext : ∀ h rest, Clear (k + 1) (set h) → Reproduces (next h rest) (set h) rest) :
    Reproduces (extractThen hdr packet next) hdr packet := by
  unfold extractThen
  cases he : extract H packet with
  | none => exact .refl hdr packet
  | some x =>
    obtain ⟨h, rest⟩ := x
    have hrest := hnext h rest (hclear.set (hset h))
    have hemit : myDeparser (set h) = myDeparser hdr ++ emit h := by
      unfold myDeparser
      rw [hset]
      exact flatten_set _ _ _ hk hclear
    unfold Reproduces at hrest ⊢
    dsimp only
    rw [hrest, hemit, List.append_assoc, emit_extract he]

section Reproduces

variable {hdr : Hdrs} {packet : List UInt8}

theorem parseTcp_reproduces (h : Clear 10 hdr) : Reproduces (parseTcp hdr packet) hdr packet :=
  extractThen_reproduces 10 (fun x => { hdr with tcp := some x }) (by decide) h (fun _ => rfl) (fun _ _ _ => .refl ..)

theorem parseThriftIp_reproduces (h : Clear 9 hdr) : Reproduces (parseThriftIp hdr packet) hdr packet :=
  extractThen_reproduces 9 (fun x => { hdr with thriftIp := some x }) (by decide) h (fun _ => rfl)
    (fun _ _ _ => .refl ..)

theorem parseThrift_reproduces (h : Clear 8 hdr) : Reproduces (parseThrift hdr packet) hdr packet := by
  apply extractThen_reproduces 8 (fun x => { hdr with thrift := some x }) (by decide) h (fun _ => rfl)
  intro t rest hc
  split
  · exact parseThriftIp_reproduces hc
  · exact .refl ..

theorem parseUdp_reproduces (h : Clear 7 hdr) : Reproduces (parseUdp hdr packet) hdr packet :=
  extractThen_reproduces 7 (fun x => { hdr with udp := some x }) (by decide) h (fun _ => rfl)
    (fun _ _ hc => parseThrift_reproduces hc)

theorem parseBbAlloc_reproduces (h : Clear 6 hdr) : Reproduces (parseBbAlloc hdr packet) hdr packet :=
  extractThen_reproduces 6 (fun x => { hdr with bbAlloc := some x }) (by decide) h (fun _ => rfl) (fun _ _ _ => .refl ..)

theorem parseBb_reproduces (h : Clear 5 hdr) : Reproduces (parseBb hdr packet) hdr packet := by
  apply extractThen_reproduces 5 (fun x => { hdr with bb := some x }) (by decide) h (fun _ => rfl)
  intro b rest hc
  split
  · exact parseBbAlloc_reproduces hc
  · exact .refl ..

theorem parseIpv4_reproduces (h : Clear 4 hdr) : Reproduces (parseIpv4 hdr packet) hdr packet := by
  apply extractThen_reproduces 4 (fun x => { hdr with ipv4 := some x }) (by decide) h (fun _ => rfl)
  intro i rest hc
  split
  · exact parseTcp_reproduces (hc.mono (by decide))
  split
  · exact parseUdp_reproduces (hc.mono (by decide))
  · exact .refl ..

theorem parseNdp_reproduces (h : Clear 3 hdr) : Reproduces (parseNdp hdr packet) hdr packet :=
  extractThen_reproduces 3 (fun x => { hdr with icmp6 := some x }) (by decide) h (fun _ => rfl) (fun _ _ _ => .refl ..)

theorem parseIpv6_reproduces (h : Clear 2 hdr) : Reproduces (parseIpv6 hdr packet) hdr packet := by
  apply extractThen_reproduces 2 (fun x => { hdr with ipv6 := some x }) (by decide) h (fun _ => rfl)
  intro i rest hc
  split
  · exact parseTcp_reproduces (hc.mono (by decide))
  split
  · exact parseUdp_reproduces (hc.mono (by decide))
  split
  · exact parseNdp_reproduces hc
  · exact .refl ..

theorem parseArp_reproduces (h : Clear 1 hdr) : Reproduces (parseArp hdr packet) hdr packet :=
  extractThen_reproduces 1 (fun x => { hdr with arp := some x }) (by decide) h (fun _ => rfl) (fun _ _ _ => .refl ..)

theorem parseEthernet_reproduces (h : Clear 0 hdr) : Reproduces (parseEthernet hdr packet) hdr packet := by
  apply extractThen_reproduces 0 (fun x => { hdr with ethernet := some x }) (by decide) h (fun _ => rfl)
  intro e rest hc
  split
  · exact parseArp_reproduces hc
  split
  · exact parseIpv4_reproduces (hc.mono (by decide))
  split
  · exact parseIpv6_reproduces (hc.mono (by decide))
  split
  · exact parseBb_reproduces (hc.mono (by decide))
  · exact .refl ..

end Reproduces

theorem clear_empty : Clear 0 {} := by
  intro j _
  match j with
  | 0 | 1 | 2 | 3 | 4 | 5 | 6 | 7 | 8 | 9 | 10 => rfl
  | _ + 11 => rfl

/-- **What was parsed and the rest are the packet again.** -/
theorem deparse_parse (packet : List UInt8) : myDeparser (myParser packet).1 ++ (myParser packet).2 = packet :=
  parseEthernet_reproduces clear_empty

end Switch
end Bb
