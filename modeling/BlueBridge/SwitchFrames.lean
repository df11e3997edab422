import BlueBridge.Switch
/-!
# SwitchFrames — the hosts' frames in the switch

What `MyParser` and `MyIngress` make of the frames of `prepare_packet` and `dpdk_assemble`.  The frames have the EtherType
of IPv6, so none is a BlueBridge packet; under EtherType `0xffff` the switch would look for the subnet and the command
where the hosts put `args` (`hosts_frames_seen_iff`).  As UDP packets, they are forwarded by their destination unless the
data starts with `0x8001`: then the data is taken for a Thrift call, and decides (`payload_steers_iff`).
-/
namespace Bb
namespace Switch

open Bytes Headers Rmem Bb.Frame

/-! ## The headers of a frame -/

def ethBytes (mac etherType : List UInt8) : List UInt8 := mac ++ (srcMac ++ etherType)

def ip6Bytes (me : SockaddrIn6) (pkt : PktRqst) : List UInt8 :=
  ip6Flow ++ (plen pkt ++ (ip6NxtHops ++ (me.addr.bytes ++ pkt.dstAddr.bytes)))

def udpBytes (me : SockaddrIn6) (pkt : PktRqst) : List UInt8 :=
  bytes16 me.port ++ (bytes16 pkt.dstPort ++ (plen pkt ++ bytes16 0xFFAA))

theorem frame_eq (mac etherType : List UInt8) (me : SockaddrIn6) (pkt : PktRqst) :
    frame mac etherType me pkt = ethBytes mac etherType ++ (ip6Bytes me pkt ++ (udpBytes me pkt ++ pkt.data)) := by
  simp only [frame, ethBytes, ip6Bytes, udpBytes, List.append_assoc]

theorem length_ip6Bytes (me : SockaddrIn6) (pkt : PktRqst) : (ip6Bytes me pkt).length = 40 := by simp [ip6Bytes]

theorem length_udpBytes (me : SockaddrIn6) (pkt : PktRqst) : (udpBytes me pkt).length = 8 := by simp [udpBytes]

section Eth

variable {mac etherType : List UInt8}

theorem length_ethBytes (hm : mac.length = 6) (ht : etherType.length = 2) : (ethBytes mac etherType).length = 14 := by
  simp [ethBytes, hm, ht]

theorem etherType_eq (ht : etherType.length = 2) :
    (decode EthernetT (ethBytes mac etherType)).etherType = BitVec.ofNat 16 (beNat etherType) := by
  have := ofNat_beNat_middle (mac ++ srcMac) etherType [] (w := 16) (r := 0) (by omega) rfl
  rw [List.append_nil, List.append_assoc] at this
  exact this

theorem extract_frame (me : SockaddrIn6) (pkt : PktRqst) (hm : mac.length = 6) (ht : etherType.length = 2) :
    extract EthernetT (frame mac etherType me pkt) =
      some (decode EthernetT (ethBytes mac etherType), ip6Bytes me pkt ++ (udpBytes me pkt ++ pkt.data)) := by
  rw [frame_eq]
  exact extract_append (length_ethBytes hm ht) _

end Eth

/-- Bytes are determined by the number they stand for. -/
theorem ofNat_beNat_inj {a b : List UInt8} {w : Nat} (hlen : a.length = b.length) (hle : 8 * a.length ≤ w) :
    BitVec.ofNat w (beNat a) = BitVec.ofNat w (beNat b) ↔ a = b := by
  constructor
  · intro h
    have hpow : 256 ^ a.length ≤ 2 ^ w := by
      rw [pow_256]
      exact Nat.pow_le_pow_right (by decide) hle
    have hla := Nat.lt_of_lt_of_le (beNat_lt a) hpow
    have hlb := Nat.lt_of_lt_of_le (beNat_lt b) (hlen ▸ hpow)
    have hnat := congrArg BitVec.toNat h
    rw [BitVec.toNat_ofNat, BitVec.toNat_ofNat, Nat.mod_eq_of_lt hla, Nat.mod_eq_of_lt hlb] at hnat
    rw [← beBytes_beNat a, ← beBytes_beNat b, hnat, hlen]
  · rintro rfl
    rfl

/-- The frames of `prepare_packet`, after `configure_tx` and earlier packets; `me` has the port that the thread sends from
(`configureTx_onThread`). -/
def sent (me : SockaddrIn6) (etherFrame : Buf) (earlier : List PktRqst) (pkt : PktRqst) : List UInt8 :=
  (preparePacket (earlier.foldl (fun f p => (preparePacket f p).1) (configureTx me 0 etherFrame)) pkt).2

theorem sent_eq (me : SockaddrIn6) (etherFrame : Buf) (earlier : List PktRqst) (pkt : PktRqst) :
    sent me etherFrame earlier pkt = frame broadcastMac ethPIpv6 me pkt := by
  have hconf : ∀ f, Configured broadcastMac me f →
      Configured broadcastMac me (earlier.foldl (fun f p => (preparePacket f p).1) f) := by
    induction earlier with
    | nil => exact fun f hf => hf
    | cons p earlier ih => exact fun f hf => ih _ (hf.preparePacket p)
  exact preparePacket_eq (hconf _ (configured_main me etherFrame)) pkt

/-! ## As BlueBridge packets -/

def wire64 (v : UInt64) : BitVec 64 := BitVec.ofNat 64 (beNat (bytes64 v))

/-- The switch takes the packet for a BlueBridge packet to the address, and applies the tables for those. -/
def SeenAsBb (packet : List UInt8) (a : Ip6Memaddr) : Prop :=
  ∃ b, (myParser packet).1.bb = some b ∧ b.dSubnet = wire16 a.subid ∧ b.dCmd = wire16 a.cmd ∧
    b.dBbPointer = wire64 a.paddr ∧ ∀ T, pipeline T packet = applyBb T { hdr := (myParser packet).1 }

section Bb

variable (me : SockaddrIn6) (pkt : PktRqst)

/-- What stands before `args` in an IPv6 header. -/
def beforeArgs : List UInt8 :=
  ip6Flow ++ (plen pkt ++ (ip6NxtHops ++ (me.addr.bytes ++ (bytes16 pkt.dstAddr.subid ++ bytes16 pkt.dstAddr.cmd))))

def argsLow : List UInt8 := leBytes 2 pkt.dstAddr.args.toNat
def argsHigh : List UInt8 := leBytes 2 (pkt.dstAddr.args.toNat / 65536)

theorem ip6Bytes_eq :
    ip6Bytes me pkt = beforeArgs me pkt ++ (argsLow pkt ++ (argsHigh pkt ++ bytes64 pkt.dstAddr.paddr)) := by
  have hargs : leBytes 4 pkt.dstAddr.args.toNat = argsLow pkt ++ argsHigh pkt := by
    simp [argsLow, argsHigh, leBytes, Nat.div_div_eq_div_mul]
  simp only [ip6Bytes, Ip6Memaddr.bytes, beforeArgs, hargs, List.append_assoc]

theorem dSubnet_eq : (decode BbT (ip6Bytes me pkt)).dSubnet = BitVec.ofNat 16 (beNat (argsLow pkt)) := by
  rw [ip6Bytes_eq]
  exact ofNat_beNat_middle _ _ _ rfl (by simp [argsHigh])

theorem dCmd_eq : (decode BbT (ip6Bytes me pkt)).dCmd = BitVec.ofNat 16 (beNat (argsHigh pkt)) := by
  rw [ip6Bytes_eq, ← List.append_assoc]
  exact ofNat_beNat_middle _ _ _ rfl (by simp)

theorem dBbPointer_eq : (decode BbT (ip6Bytes me pkt)).dBbPointer = wire64 pkt.dstAddr.paddr := by
  have := ofNat_beNat_middle (beforeArgs me pkt ++ (argsLow pkt ++ argsHigh pkt)) (bytes64 pkt.dstAddr.paddr) []
    (w := 64) (r := 0) (by simp) rfl
  rw [List.append_nil] at this
  rw [ip6Bytes_eq, ← List.append_assoc, ← List.append_assoc, List.append_assoc (beforeArgs me pkt)]
  exact this

/-- The words of `args` are the subnet and the command. -/
def ArgsRepeat (a : Ip6Memaddr) : Prop := a.args.toNat % 65536 = a.subid.toNat ∧ a.args.toNat / 65536 = a.cmd.toNat

theorem leBytes_two_inj {v v' : Nat} : leBytes 2 v = leBytes 2 v' ↔ v % 65536 = v' % 65536 := by
  constructor
  · intro h
    have := congrArg leNat h
    rwa [leNat_leBytes, leNat_leBytes] at this
  · intro h
    have hbytes := leBytes_leNat (leBytes 2 v)
    have hbytes' := leBytes_leNat (leBytes 2 v')
    rw [leNat_leBytes, length_leBytes] at hbytes hbytes'
    rw [← hbytes, ← hbytes']
    exact congrArg (leBytes 2) h

theorem args_seen_iff : (decode BbT (ip6Bytes me pkt)).dSubnet = wire16 pkt.dstAddr.subid ∧
    (decode BbT (ip6Bytes me pkt)).dCmd = wire16 pkt.dstAddr.cmd ↔ ArgsRepeat pkt.dstAddr := by
  have hsubid := pkt.dstAddr.subid.toNat_lt
  have hcmd := pkt.dstAddr.cmd.toNat_lt
  have hargs := pkt.dstAddr.args.toNat_lt
  have hlow : BitVec.ofNat 16 (beNat (argsLow pkt)) = wire16 pkt.dstAddr.subid ↔ _ := ofNat_beNat_inj rfl (Nat.le_refl _)
  have hhigh : BitVec.ofNat 16 (beNat (argsHigh pkt)) = wire16 pkt.dstAddr.cmd ↔ _ := ofNat_beNat_inj rfl (Nat.le_refl _)
  rw [dSubnet_eq, dCmd_eq, hlow, hhigh, argsLow, argsHigh, bytes16, bytes16, leBytes_two_inj, leBytes_two_inj, ArgsRepeat]
  omega

theorem frame_seen_iff {mac etherType : List UInt8} (hm : mac.length = 6) (ht : etherType.length = 2) :
    SeenAsBb (frame mac etherType me pkt) pkt.dstAddr ↔ etherType = [0xff, 0xff] ∧ ArgsRepeat pkt.dstAddr := by
  have he := extract_frame me pkt hm ht
  have hb : extract BbT (ip6Bytes me pkt ++ (udpBytes me pkt ++ pkt.data)) =
      some (decode BbT (ip6Bytes me pkt), udpBytes me pkt ++ pkt.data) := extract_append (length_ip6Bytes me pkt) _
  have htype : (decode EthernetT (ethBytes mac etherType)).etherType = 0xffff ↔ etherType = [0xff, 0xff] := by
    rw [etherType_eq ht]
    exact ofNat_beNat_inj (a := etherType) (b := [0xff, 0xff]) ht (by omega)
  rw [← htype, ← args_seen_iff me pkt]
  constructor
  · rintro ⟨b, hbb, hsubnet, hcmd, -, -⟩
    obtain ⟨e', r₁, r₂, he', ht', hb'⟩ := myParser_bb hbb
    rw [he] at he'
    cases he'
    rw [hb] at hb'
    cases hb'
    exact ⟨ht', hsubnet, hcmd⟩
  · rintro ⟨ht', hsubnet, hcmd⟩
    have hbb : (myParser (frame mac etherType me pkt)).1.bb = some (decode BbT (ip6Bytes me pkt)) := by
      rw [myParser_ffff he ht' hb]
    exact ⟨_, hbb, hsubnet, hcmd, dBbPointer_eq me pkt, fun T => pipeline_bb hbb⟩

/-- **The hosts' frames are not seen as BlueBridge packets.**  With another EtherType they would be exactly if it is
`0xffff` and the words of `args` repeat the subnet and the command. -/
theorem hosts_frames_seen_iff (etherFrame mbuf : Buf) (earlier : List PktRqst) :
    ¬ SeenAsBb (sent me etherFrame earlier pkt) pkt.dstAddr ∧
    ¬ SeenAsBb (dpdkAssemble (genDpdkPacketInfo me) mbuf pkt) pkt.dstAddr ∧
    ∀ mac etherType, mac.length = 6 → etherType.length = 2 →
      (SeenAsBb (frame mac etherType me pkt) pkt.dstAddr ↔ etherType = [0xff, 0xff] ∧ ArgsRepeat pkt.dstAddr) := by
  refine ⟨?_, ?_, fun mac etherType hm ht => frame_seen_iff me pkt hm ht⟩
  · rw [sent_eq, frame_seen_iff me pkt rfl rfl]
    exact fun h => absurd h.1 (by decide)
  · rw [dpdkAssemble_eq, frame_seen_iff me pkt rfl rfl]
    exact fun h => absurd h.1 (by decide)

end Bb

/-- A write of one byte to pointer 64 of the server `0x0102`. -/
def writePkt : PktRqst := ⟨⟨0x0102, writeCmd, 0, 64⟩, 5000, [1]⟩

theorem hosts_frames_seen_iff_repeated :
    SeenAsBb (frame broadcastMac [0xff, 0xff] ⟨⟨0x0101, 0, 0, 0⟩, 6000⟩ ⟨⟨0x0102, 2, 0x20102, 64⟩, 5000, [1]⟩)
      ⟨0x0102, 2, 0x20102, 64⟩ :=
  ((hosts_frames_seen_iff ⟨⟨0x0101, 0, 0, 0⟩, 6000⟩ ⟨⟨0x0102, 2, 0x20102, 64⟩, 5000, [1]⟩ (fun _ => 0) (fun _ => 0)
    []).2.2 broadcastMac [0xff, 0xff] rfl rfl).mpr ⟨rfl, rfl, rfl⟩

/-- **A write is an IPv6 packet to the switch.** -/
theorem written_frame_not_bb :
    (myParser (sent ⟨⟨0x0101, 0, 0, 0⟩, 6000⟩ (fun _ => 0) [] writePkt)).1.bb = none ∧
      (myParser (sent ⟨⟨0x0101, 0, 0, 0⟩, 6000⟩ (fun _ => 0) [] writePkt)).1.ipv6.isSome = true := by
  decide +kernel

/-! ## As UDP packets -/

/-- What the switch takes from the data of a UDP packet: nothing, or the type, the address and, for a call, the name. -/
structure Steering where
  ttype : BitVec 16
  subnet : BitVec 16
  cmd : BitVec 16
  bbPointer : BitVec 64
  name : Option (BitVec 128)
  deriving DecidableEq

def steering (data : List UInt8) : Option Steering :=
  match extract ThriftT data with
  | none           => none
  | some (t, rest) =>
    if t.version = 0x8001 then
      let ip := (extract ThriftIpT rest).map Prod.fst
      some ⟨t.ttype, (ip.map ThriftIpT.subnet).getD 0, (ip.map ThriftIpT.cmd).getD 0, (ip.map ThriftIpT.bbPointer).getD 0,
        if t.ttype = 1 then some t.name else none⟩
    else none

/-- The port, group and digests that the ingress chooses. -/
def Ingress.choice (s : Ingress) : BitVec 9 × BitVec 16 × List Digest := (s.egressSpec, s.mcastGrp, s.digests)

/-- The port an entry stands for. -/
def portOf : Option Forward → BitVec 9
  | some (.port p) => p
  | some .drop     => dropPort
  | none           => 0

/-- The choice for a packet to `dst` whose data gives `v`. -/
def choose (T : Tables) (dst : BitVec 128) : Option Steering → BitVec 9 × BitVec 16 × List Digest
  | none   => (portOf (lookup T.ipv6 () dst), 0, [])
  | some v =>
    (portOf (match v.name with | some n => T.thrift n | none => lookup T.ipv6 () dst), 0,
      [.thrift v.subnet v.cmd v.bbPointer v.ttype])

section Udp

variable {T : Tables}

theorem applyForward_choice {s : Ingress} {fwd : BitVec 9 → Ingress} (h0 : s.egressSpec = 0)
    (hf : ∀ p, (fwd p).choice = (p, s.mcastGrp, s.digests)) (o : Option Forward) :
    (applyForward s fwd o).choice = (portOf o, s.mcastGrp, s.digests) := by
  match o with
  | some (.port p) => exact hf p
  | some .drop => rfl
  | none => rw [applyForward, Ingress.choice, h0, portOf]

theorem parseThrift_thrift {hdr : Hdrs} {data rest : List UInt8} {t : ThriftT} (hip : hdr.thriftIp = none)
    (he : extract ThriftT data = some (t, rest)) (hv : t.version = 0x8001) :
    (parseThrift hdr data).1 =
      { hdr with thrift := some t, thriftIp := (extract ThriftIpT rest).map Prod.fst } := by
  rw [parseThrift, extractThen_some he, if_pos hv, parseThriftIp]
  cases hi : extract ThriftIpT rest with
  | none => rw [extractThen_none hi, hip]; rfl
  | some x => rw [extractThen_some hi]; rfl

/-- **The data counts only by its steering.** -/
theorem myIngress_choice (e : EthernetT) (i : Ipv6T) (u : UdpT) (data : List UInt8) :
    (myIngress T (parseThrift { ethernet := some e, ipv6 := some i, udp := some u } data).1).choice =
      choose T i.dstAddr (steering data) := by
  unfold steering
  cases he : extract ThriftT data with
  | none =>
    rw [parseThrift, extractThen_none he]
    exact applyForward_choice rfl (fun _ => rfl) _
  | some x =>
    obtain ⟨t, rest⟩ := x
    dsimp only
    by_cases hv : t.version = 0x8001
    · rw [parseThrift_thrift rfl he hv, if_pos hv, myIngress]
      dsimp only [Option.isSome_none, Option.any_some]
      rw [if_neg (by decide), if_pos (decide_eq_true hv)]
      by_cases ht : t.ttype = 1
      · rw [if_pos (decide_eq_true ht), if_pos ht]
        exact applyForward_choice rfl (fun _ => rfl) _
      · rw [if_neg (by rw [decide_eq_true_iff]; exact ht), if_neg ht]
        exact applyForward_choice rfl (fun _ => rfl) _
    · rw [parseThrift, extractThen_some he, if_neg hv, if_neg hv, myIngress]
      dsimp only [Option.isSome_none, Option.any_some]
      rw [if_neg (by decide), if_neg (by rw [decide_eq_true_iff]; exact hv)]
      exact applyForward_choice rfl (fun _ => rfl) _

theorem name_of_steering {data : List UInt8} {v : Steering} (h : steering data = some v) :
    v.name.isSome = decide (v.ttype = 1) := by
  unfold steering at h
  split at h
  case h_1 => cases h
  case h_2 t rest _ =>
    split at h
    case isFalse => cases h
    case isTrue =>
      cases h
      by_cases ht : t.ttype = 1
      · simp only [ht, if_true, Option.isSome_some, decide_true]
      · simp only [ht, if_false, Option.isSome_none, decide_false]

/-- Tables that forward calls of `n` only. -/
def callTables (n : BitVec 128) : Tables :=
  ⟨[], [], [], fun _ => none, fun m => if m = n then some (.port 1) else none⟩

/-- If all tables choose alike, then the steering is the same. -/
theorem steering_of_choose {dst : BitVec 128} {data data' : List UInt8}
    (h : ∀ T, choose T dst (steering data) = choose T dst (steering data')) : steering data = steering data' := by
  cases hv : steering data with
  | none =>
    cases hv' : steering data' with
    | none => rfl
    | some v' =>
      have := congrArg (fun x => x.2.2) (h closedTables)
      rw [hv, hv'] at this
      cases this
  | some v =>
    cases hv' : steering data' with
    | none =>
      have := congrArg (fun x => x.2.2) (h closedTables)
      rw [hv, hv'] at this
      cases this
    | some v' =>
      have hdig := congrArg (fun x => x.2.2) (h closedTables)
      rw [hv, hv'] at hdig
      simp only [choose, List.cons.injEq, Digest.thrift.injEq, and_true] at hdig
      obtain ⟨hsubnet, hcmd, hptr, htype⟩ := hdig
      have hname : v.name = v'.name := by
        have hn := name_of_steering hv
        have hn' := name_of_steering hv'
        rw [← htype] at hn'
        cases hvn : v.name with
        | none =>
          rw [hvn] at hn
          rw [← hn] at hn'
          exact (Option.not_isSome_iff_eq_none.mp (by rw [hn']; decide)).symm
        | some n =>
          rw [hvn] at hn
          rw [← hn] at hn'
          obtain ⟨n', hn'⟩ := Option.isSome_iff_exists.mp hn'
          have hport := congrArg (fun x => x.1) (h (callTables n))
          rw [hv, hv'] at hport
          simp only [choose, hvn, hn', callTables, if_true] at hport
          by_cases heq : n' = n
          · rw [hn', heq]
          · rw [if_neg heq] at hport
            exact absurd hport (by decide)
      cases v
      cases v'
      simp only at hsubnet hcmd hptr htype hname
      rw [hsubnet, hcmd, hptr, htype, hname]

theorem myParser_sent (me : SockaddrIn6) (etherFrame : Buf) (earlier : List PktRqst) (pkt : PktRqst) :
    myParser (sent me etherFrame earlier pkt) = parseThrift
      { ethernet := some (decode EthernetT (ethBytes broadcastMac ethPIpv6)),
        ipv6 := some (decode Ipv6T (ip6Bytes me pkt)), udp := some (decode UdpT (udpBytes me pkt)) } pkt.data := by
  have htype : (decode EthernetT (ethBytes broadcastMac ethPIpv6)).etherType = 0x86dd := by
    rw [etherType_eq rfl]
    rfl
  have hnext : (decode Ipv6T (ip6Bytes me pkt)).nextHdr = 17 := by
    have := ofNat_beNat_middle (ip6Flow ++ plen pkt) [17] (255 :: (me.addr.bytes ++ pkt.dstAddr.bytes)) (w := 8)
      (r := [8, 128, 128].sum) rfl (by simp)
    rw [List.append_assoc] at this
    exact this
  have he := @extract_frame broadcastMac ethPIpv6 me pkt rfl rfl
  have hi := extract_append (H := Ipv6T) (length_ip6Bytes me pkt) (udpBytes me pkt ++ pkt.data)
  have hu := extract_append (H := UdpT) (length_udpBytes me pkt) pkt.data
  rw [sent_eq, myParser, parseEthernet, extractThen_some he, htype, if_neg (by decide), if_neg (by decide), if_pos rfl,
    parseIpv6, extractThen_some hi, hnext, if_neg (by decide), if_pos rfl, parseUdp, extractThen_some hu]

/-- **Two packets that differ in their data go the same way under all tables exactly if the switch takes the same from
their data.** -/
theorem payload_steers_iff (me : SockaddrIn6) (etherFrame etherFrame' : Buf) (earlier earlier' : List PktRqst)
    (pkt : PktRqst) (data : List UInt8) (hlen : data.length = pkt.data.length) :
    (∀ T, (pipeline T (sent me etherFrame earlier pkt)).choice =
      (pipeline T (sent me etherFrame' earlier' { pkt with data := data })).choice) ↔
    steering pkt.data = steering data := by
  have hplen : plen { pkt with data := data } = plen pkt := by
    unfold plen
    rw [hlen]
  have hip6 : ip6Bytes me { pkt with data := data } = ip6Bytes me pkt := by
    unfold ip6Bytes
    rw [hplen]
  have hleft : ∀ T, (pipeline T (sent me etherFrame earlier pkt)).choice =
      choose T (decode Ipv6T (ip6Bytes me pkt)).dstAddr (steering pkt.data) := by
    intro T
    rw [pipeline, myParser_sent]
    exact myIngress_choice ..
  have hright : ∀ T, (pipeline T (sent me etherFrame' earlier' { pkt with data := data })).choice =
      choose T (decode Ipv6T (ip6Bytes me pkt)).dstAddr (steering data) := by
    intro T
    rw [pipeline, myParser_sent, hip6]
    exact myIngress_choice ..
  simp only [hleft, hright]
  exact ⟨steering_of_choose, fun h T => by rw [h]⟩

/-- Tables with a default route only. -/
def routedTables : Tables := ⟨[], [⟨(), 0, 0, .port 3⟩], [], fun _ => none, fun _ => none⟩

theorem payload_steers_iff_plain :
    (pipeline routedTables (sent ⟨⟨0x0101, 0, 0, 0⟩, 6000⟩ (fun _ => 0) [] writePkt)).choice =
      (pipeline routedTables (sent ⟨⟨0x0101, 0, 0, 0⟩, 6000⟩ (fun _ => 0) [] { writePkt with data := [2] })).choice :=
  (payload_steers_iff _ _ _ [] [] writePkt [2] rfl).mpr (by decide) routedTables

/-- **Data that starts with `0x8001, 1`** is taken for a call: the packet does not go where its destination is, and a
digest goes to the controller. -/
theorem payload_taken_for_call :
    (pipeline routedTables (sent ⟨⟨0x0101, 0, 0, 0⟩, 6000⟩ (fun _ => 0) []
      { writePkt with data := List.replicate 28 0 })).choice = (3, 0, []) ∧
    (pipeline routedTables (sent ⟨⟨0x0101, 0, 0, 0⟩, 6000⟩ (fun _ => 0) []
      { writePkt with data := [0x80, 1, 0, 1] ++ List.replicate 24 0 })).choice = (0, 0, [.thrift 0 0 0 1]) := by
  decide +kernel

end Udp

end Switch
end Bb
