import BlueBridge.CString
import BlueBridge.FrameClient
import BlueBridge.SwitchFrames
/-!
# SwitchNet — the hosts behind a switch (`p4/p4_switch/ip6_16.p4`, `commands.txt`, `run_emulation.py`)

The P4 switch forwards a host's frame by its destination address if the data is too short for a Thrift header, and gives
it out as it came (`forward_frameOf`).  With an entry for every host's subnet the client library works through it as over
packets (`p4_runs_framed`), and so does the block device (`buse_over_switch`).

The entries of `commands.txt` are for addresses that have the subnet in their third word.  The hosts have it in the
first, and the command in the second: under these entries no request gets to a host (`serveFrame_shipped`), and no program
that waits for an answer is sure to return (`shipped_never_answers`).

The flows that `run_emulation.py` adds to the other switch are for the first word, but put the host's number in decimal
where the hosts' addresses have it in hexadecimal (`ovs_delivers_iff`).
-/
namespace Bb
namespace FrameNet

open Bytes Headers Wire Rmem Switch Bb.Frame

/-! ## The P4 switch -/

/-- The switch, and the hosts at its ports. -/
structure P4Net where
  tables : Tables
  host : BitVec 9 → Option UInt16
  host_drop : host dropPort = none

/-- A packet through parser, ingress and deparser.  What goes to the multicast group, ARP and neighbour discovery, passes
no packet filter. -/
def P4Net.forward (w : P4Net) (packet : List UInt8) : Option (UInt16 × List UInt8) :=
  let s := pipeline w.tables packet
  if s.mcastGrp = 0 then (w.host s.egressSpec).map (fun h => (h, myDeparser s.hdr ++ (myParser packet).2)) else none

def P4Net.fabric (w : P4Net) (behind : List UInt8 → Buf) : Fabric := ⟨fun _ packet => w.forward packet, behind⟩

/-- The address in the `dstAddr` of the switch. -/
def wireAddr (a : Ip6Memaddr) : BitVec 128 := BitVec.ofNat 128 (beNat a.bytes)

section Forward

variable {p : Packet}

theorem applyIpv6_spec (T : Tables) (hdr : Hdrs) : (applyIpv6 T { hdr := hdr }).hdr = hdr ∧
    (applyIpv6 T { hdr := hdr }).mcastGrp = 0 ∧
    (applyIpv6 T { hdr := hdr }).egressSpec = portOf (lookup T.ipv6 () ((hdr.ipv6.map Ipv6T.dstAddr).getD 0)) := by
  unfold applyIpv6
  match lookup T.ipv6 () ((hdr.ipv6.map Ipv6T.dstAddr).getD 0) with
  | some (.port _) => exact ⟨rfl, rfl, rfl⟩
  | some .drop     => exact ⟨rfl, rfl, rfl⟩
  | none           => exact ⟨rfl, rfl, rfl⟩

theorem dstAddr_ip6Bytes (me : SockaddrIn6) (pkt : PktRqst) :
    (decode Ipv6T (ip6Bytes me pkt)).dstAddr = wireAddr pkt.dstAddr := by
  have := ofNat_beNat_middle (ip6Flow ++ (plen pkt ++ (ip6NxtHops ++ me.addr.bytes))) pkt.dstAddr.bytes [] (w := 128)
    (r := 0) (by simp) rfl
  simp only [List.append_nil, List.append_assoc] at this
  exact this

/-- **The switch takes a short frame to the host at the port of its destination's entry**, as it is. -/
theorem forward_frameOf (w : P4Net) (h : p.data.length < 28) : w.forward (frameOf p) =
    (w.host (portOf (lookup w.tables.ipv6 () (wireAddr p.dst.addr)))).map (fun s => (s, frameOf p)) := by
  have hthrift : extract ThriftT p.data = none := if_neg (Nat.not_le.2 h)
  have hparse := myParser_sent p.src (fun _ => 0) [] ⟨p.dst.addr, p.dst.port, p.data⟩
  rw [sent_eq, parseThrift, extractThen_none hthrift] at hparse
  have hpipe : pipeline w.tables (frameOf p) = applyIpv6 w.tables { hdr := (myParser (frameOf p)).1 } := by
    rw [pipeline, frameOf, hparse]
    rfl
  obtain ⟨hhdr, hgroup, hport⟩ := applyIpv6_spec w.tables (myParser (frameOf p)).1
  have hdeparse : myDeparser (myParser (frameOf p)).1 ++ (myParser (frameOf p)).2 = frameOf p :=
    parseEthernet_reproduces clear_empty
  have hdst : ((myParser (frameOf p)).1.ipv6.map Ipv6T.dstAddr).getD 0 = wireAddr p.dst.addr := by
    rw [frameOf, hparse]
    exact dstAddr_ip6Bytes p.src ⟨p.dst.addr, p.dst.port, p.data⟩
  rw [P4Net.forward, hpipe, hhdr, hgroup, hport, hdst, if_pos rfl, hdeparse]

end Forward

/-! ## Entries for addresses -/

section Prefixes

variable {x x' y y' : List UInt8}

theorem ofNat_beNat_shift (hlen : x.length + y.length = 16) :
    BitVec.ofNat 128 (beNat (x ++ y)) >>> (8 * y.length) = BitVec.ofNat 128 (beNat x) := by
  have hxy := beNat_lt (x ++ y)
  have hx := beNat_lt x
  have hy := beNat_lt y
  have hle : 256 ^ x.length ≤ 256 ^ 16 := Nat.pow_le_pow_right (by decide) (by omega)
  rw [pow_256 16] at hle
  rw [List.length_append, hlen, pow_256] at hxy
  apply BitVec.eq_of_toNat_eq
  rw [BitVec.toNat_ushiftRight, BitVec.toNat_ofNat, BitVec.toNat_ofNat, Nat.mod_eq_of_lt hxy,
    Nat.mod_eq_of_lt (Nat.lt_of_lt_of_le hx hle), Nat.shiftRight_eq_div_pow, ← pow_256, beNat_append,
    Nat.mul_comm, Nat.mul_add_div (Nat.pow_pos (by decide)), Nat.div_eq_of_lt hy, Nat.add_zero]

/-- The entry for the addresses that begin with `x`. -/
def prefixEntry (x : List UInt8) (port : BitVec 9) : Entry Unit 128 Forward :=
  ⟨(), BitVec.ofNat 128 (beNat (x ++ List.replicate (16 - x.length) 0)), 8 * x.length, .port port⟩

theorem prefixEntry_matches (port : BitVec 9) (hlen : x'.length = x.length) (h : x.length + y.length = 16) :
    (prefixEntry x port).matches () (BitVec.ofNat 128 (beNat (x' ++ y))) = true ↔ x' = x := by
  have hwidth : 128 - 8 * x.length = 8 * y.length := by omega
  have hrep : (List.replicate (16 - x.length) (0 : UInt8)).length = y.length := by
    rw [List.length_replicate]
    omega
  have hshift := ofNat_beNat_shift (x := x) (y := List.replicate (16 - x.length) 0) (by omega)
  rw [hrep] at hshift
  simp only [Entry.matches, prefixEntry, hwidth, hshift, ofNat_beNat_shift (x := x') (y := y) (by omega), true_and,
    decide_eq_true_eq]
  exact ofNat_beNat_inj hlen (by omega)

end Prefixes

/-- Addresses with the subnet `s` go to the host `s`. -/
def P4Net.Routes (w : P4Net) (s : UInt16) : Prop :=
  ∀ a : Ip6Memaddr, a.subid = s → ∃ port, lookup w.tables.ipv6 () (wireAddr a) = some (.port port) ∧ w.host port = some s

theorem delivers_of_routes {w : P4Net} {hosts : UInt16 → Prop} (h : ∀ s, hosts s → w.Routes s)
    (behind : List UInt8 → Buf) : Delivers (w.fabric behind) hosts := by
  intro p hp hlen
  obtain ⟨port, hport, hhost⟩ := h _ hp p.dst.addr rfl
  rw [P4Net.fabric]
  dsimp only
  rw [forward_frameOf w hlen, hport, portOf, hhost, Option.map_some]

/-! ## An entry for every host's subnet -/

/-- `subnet::/16 => port`, for each. -/
def subnetRoutes (ports : List (UInt16 × BitVec 9)) : List (Entry Unit 128 Forward) :=
  ports.map (fun x => prefixEntry (bytes16 x.1) x.2)

theorem bytes16_inj {s s' : UInt16} (h : bytes16 s = bytes16 s') : s = s' := by
  have hnat := congrArg leNat h
  have hs : s.toNat < 256 ^ 2 := s.toNat_lt
  have hs' : s'.toNat < 256 ^ 2 := s'.toNat_lt
  rw [bytes16, bytes16, leNat_leBytes, leNat_leBytes, Nat.mod_eq_of_lt hs, Nat.mod_eq_of_lt hs'] at hnat
  exact UInt16.toNat_inj.1 hnat

theorem subnetRoutes_matches (a : Ip6Memaddr) (s : UInt16) (port : BitVec 9) :
    (prefixEntry (bytes16 s) port).matches () (wireAddr a) = true ↔ a.subid = s := by
  have hbytes : a.bytes = bytes16 a.subid ++ (bytes16 a.cmd ++ (leBytes 4 a.args.toNat ++ bytes64 a.paddr)) := by
    simp only [Ip6Memaddr.bytes, List.append_assoc]
  rw [wireAddr, hbytes, prefixEntry_matches port (by simp) (by simp)]
  exact ⟨bytes16_inj, fun h => by rw [h]⟩

/-- **With an entry for every host's subnet, addresses go to their hosts.** -/
theorem routes_subnetRoutes {w : P4Net} {ports : List (UInt16 × BitVec 9)} (hw : w.tables.ipv6 = subnetRoutes ports)
    (hports : ∀ x ∈ ports, w.host x.2 = some x.1) {s : UInt16} (hs : s ∈ ports.map Prod.fst) : w.Routes s := by
  intro a ha
  obtain ⟨⟨_, port⟩, hx, rfl⟩ := List.mem_map.1 hs
  rw [hw]
  cases hl : lookup (subnetRoutes ports) () (wireAddr a) with
  | none =>
    have hno := lookup_eq_none.1 hl (prefixEntry (bytes16 a.subid) port) (List.mem_map.2 ⟨_, hx, by rw [ha]⟩)
    rw [(subnetRoutes_matches a a.subid port).2 rfl] at hno
    cases hno
  | some act =>
    obtain ⟨e, he, hm, rfl⟩ := lookup_eq_some hl
    obtain ⟨⟨s', port'⟩, hx', rfl⟩ := List.mem_map.1 he
    obtain rfl := (subnetRoutes_matches a s' port').1 hm
    exact ⟨port', rfl, ha ▸ hports _ hx'⟩

section Runs

variable {B : Nat} {C : Cluster} {alloc : Server → Nat → UInt64} {me : SockaddrIn6} {hosts : UInt16 → Prop}
  {st : UInt16 → Server} {α : Type}

/-- **The client library works through the switch as over packets.**  If the switch has the hosts' subnets, every program
that sends them short requests, and returns over the network of packets with `Q`, returns over the network of frames with
`Q`, whatever is in the buffers. -/
theorem p4_runs_framed (w : P4Net) (hw : ∀ s, hosts s → w.Routes s) (hme : hosts me.addr.subid) {m : Prog Packet α}
    (hm : m.Sends (Carried hosts me) (Answered hosts) (fun _ => True)) {fifo : Prop} {Q : α → (UInt16 → Server) → Prop}
    (h : Runs (rmemNet B C alloc fifo) m st Q) (behind : List UInt8 → Buf) (etherFrame : Buf)
    (etherFrames : UInt16 → Buf) :
    Runs (frameNet (w.fabric behind) B C alloc me fifo) (framed (w.fabric behind) me etherFrame m)
      (equipped C st etherFrames) (fun a hs => Q a (fun s => (hs s).1)) :=
  runs_framed (delivers_of_routes hw behind) hme hm h etherFrame etherFrames

end Runs

/-- Two hosts, `101::` at port 1 and `102::` at port 2. -/
def twoHosts : P4Net where
  tables := ⟨[], subnetRoutes [(0x0101, 1), (0x0201, 2)], [], fun _ => none, fun _ => none⟩
  host := fun port => if port = 1 then some 0x0101 else if port = 2 then some 0x0201 else none
  host_drop := by decide

theorem twoHosts_routes (s : UInt16) (h : s = 0x0101 ∨ s = 0x0201) : twoHosts.Routes s := by
  have hports : ∀ x ∈ [((0x0101 : UInt16), (1 : BitVec 9)), (0x0201, 2)], twoHosts.host x.2 = some x.1 := by
    simp only [List.forall_mem_cons, List.not_mem_nil, false_implies, implies_true, and_true]
    exact ⟨rfl, rfl⟩
  exact routes_subnetRoutes rfl hports (by simpa using h)

/-- A read of the second host's byte. -/
theorem p4_runs_framed_read : Runs
    (frameNet (twoHosts.fabric (fun _ _ => 0xee)) 1 plainCluster (fun _ _ => 64) ⟨⟨0x0101, 0, 0, 0⟩, 6000⟩ True)
    (framed (twoHosts.fabric (fun _ _ => 0xee)) ⟨⟨0x0101, 0, 0, 0⟩, 6000⟩ (fun _ => 0xee)
      (readRmem ⟨⟨0x0101, 0, 0, 0⟩, 6000⟩ ⟨⟨0, 0, 0, 0⟩, 5000⟩ ⟨0x0201, 0, 0, 64⟩ (fun _ => 0) 7 1))
    (equipped plainCluster (fun _ => ⟨fun _ => 42, []⟩) (fun _ _ => 0xee)) (fun r _ => r.2.2.1 7 = 42) := by
  have hruns := @readRmem_runs plainCluster ⟨⟨0, 0, 0, 0⟩, 5000⟩ 1 (fun _ _ => 64) True ⟨⟨0x0101, 0, 0, 0⟩, 6000⟩
    (fun _ => ⟨fun _ => 42, []⟩) rfl ⟨0x0201, 0, 0, 64⟩ (fun _ => 0) 7 1
  have hsends := @sends_readRmem (fun s => s = 0x0101 ∨ s = 0x0201) ⟨⟨0x0101, 0, 0, 0⟩, 6000⟩ ⟨⟨0, 0, 0, 0⟩, 5000⟩
    ⟨0x0201, 0, 0, 64⟩ (.inr rfl) (fun _ => 0) 7 1 (by decide)
  refine (p4_runs_framed twoHosts twoHosts_routes (.inl rfl) (hsends.mono (fun _ _ => trivial)) hruns
    (fun _ _ => 0xee) (fun _ => 0xee) (fun _ _ => 0xee)).mono (fun r hs hr => ?_)
  rw [hr.2.2.1]
  rfl

/-! ## The block device behind the switch -/

section Device

open Disk Nbd

variable {B : Nat} {C : Cluster} {alloc : Server → Nat → UInt64} {me : SockaddrIn6} {hosts : UInt16 → Prop}
  {st : UInt16 → Server} {memList : List Ip6Memaddr} {disk : Nat → UInt8} {c : Caller} {k : Kernel}

theorem reaches_of_ready (hc : Ready C memList c) (h : ∀ a ∈ memList, hosts a.subid) : Reaches hosts c := by
  intro a ha
  have hplace : place a ∈ memList.map place := hc.addrs ▸ List.mem_map_of_mem ha
  obtain ⟨b, hb, heq⟩ := List.mem_map.1 hplace
  have hsubid : b.subid = a.subid := congrArg Prod.fst heq
  rw [← hsubid]
  exact h b hb

/-- **The block device is a disk behind the switch**: with blocks of fewer than 28 bytes on hosts that the switch has the
subnets of, the kernel gets the bytes it gets from a disk, and the servers have what is on the disk. -/
theorem buse_over_switch (w : P4Net) (hw : ∀ s, hosts s → w.Routes s) (hme : hosts me.addr.subid)
    (haddrs : ∀ a ∈ memList, hosts a.subid) (hB₀ : 0 < B) (hB : B < 28) (hap : memList.Pairwise (Apart B))
    (hc : Ready C memList c) (h : Shows B memList st disk) (qs : List Rqst) (hin : k.input = qs.flatMap Rqst.bytes)
    (hm : k.Mallocs) (hq : ∀ q ∈ qs, q.Fits B memList) (hh : ∀ i < asked qs, 28 ≤ k.headers i)
    (behind : List UInt8 → Buf) (etherFrame : Buf) (etherFrames : UInt16 → Buf) :
    Runs (frameNet (w.fabric behind) B C alloc me True)
      (framed (w.fabric behind) me etherFrame (buseMain (aop B me) c k)) (equipped C st etherFrames) (fun out hs =>
        out.2.output = k.output ++ (answers qs disk).1 ∧ Shows B memList (fun s => (hs s).1) (answers qs disk).2) := by
  have hf : qs.length < k.input.length + 1 := by
    rw [hin]
    exact Nat.lt_succ_of_le (length_le_flatMap_bytes qs)
  have hruns : Runs (rmemNet B C alloc True) (buseMain (aop B me) c k) st (fun out st' =>
      out.2.output = k.output ++ (answers qs disk).1 ∧ Shows B memList st' (answers qs disk).2) :=
    buseLoop_runs hB₀ hap qs hf hc h hin hm hq hh
  exact runs_framed (delivers_of_routes hw behind) hme (sends_buseMain hB₀ hB (reaches_of_ready hc haddrs) k) hruns
    etherFrame etherFrames

/-- A block of two bytes on the second host, written and read back. -/
theorem buse_over_switch_two :
    let memList : List Ip6Memaddr := [⟨0x0201, 0, 0, 16⟩]
    let qs : List Rqst := [⟨.write, [1, 2, 3, 4, 5, 6, 7, 8], 0, 2, [7, 9], rfl, rfl⟩,
      ⟨.read, [8, 7, 6, 5, 4, 3, 2, 1], 0, 2, [], rfl, rfl⟩, ⟨.disc, [0, 0, 0, 0, 0, 0, 0, 0], 0, 0, [], rfl, rfl⟩]
    Runs (frameNet (twoHosts.fabric (fun _ _ => 0xee)) 2 plainCluster (fun _ _ => 16) ⟨⟨0x0101, 0, 0, 0⟩, 6000⟩ True)
      (framed (twoHosts.fabric (fun _ _ => 0xee)) ⟨⟨0x0101, 0, 0, 0⟩, 6000⟩ (fun _ => 0xee)
        (buseMain (aop 2 ⟨⟨0x0101, 0, 0, 0⟩, 6000⟩) ⟨⟨⟨0, 0, 0, 0⟩, 5000⟩, memList, fun _ => 0⟩
          ⟨qs.flatMap Rqst.bytes, [], fun _ => 28, fun _ => 1, fun _ => 1, fun _ => 4096⟩))
      (equipped plainCluster (fun _ => ⟨fun _ => 0, []⟩) (fun _ _ => 0xee))
      (fun out _ => out.2.output = [0x67, 0x44, 0x66, 0x98, 0, 0, 0, 0, 1, 2, 3, 4, 5, 6, 7, 8,
        0x67, 0x44, 0x66, 0x98, 0, 0, 0, 0, 8, 7, 6, 5, 4, 3, 2, 1, 7, 9]) := by
  intro memList qs
  have hap : memList.Pairwise (Apart 2) := by simp [memList]
  have hq : ∀ q ∈ qs, q.Fits 2 memList := by
    unfold Rqst.Fits
    decide
  have hc : Ready plainCluster memList ⟨⟨⟨0, 0, 0, 0⟩, 5000⟩, memList, fun _ => 0⟩ := ⟨rfl, rfl⟩
  have hm : (4096 : Nat) + 2 ^ 32 ≤ 2 ^ 64 := by decide
  refine (buse_over_switch twoHosts twoHosts_routes (.inl rfl) (by simp [memList]) (by decide) (by decide) hap hc
    (shows_byteAt 2 memList _) qs rfl (fun _ => hm) hq (fun _ _ => Nat.le_refl _) (fun _ _ => 0xee) (fun _ => 0xee)
    (fun _ _ => 0xee)).mono (fun out hs hout => hout.1.trans ?_)
  decide

end Device

/-! ## The shipped entries -/

/-- `table_add ipv6 fwd_ip6 0:0:101::/48 => 1` and so on. -/
def shippedRoutes : List (Entry Unit 128 Forward) :=
  [1, 2, 3, 4, 5, 6].map (fun i => prefixEntry [0, 0, 0, 0, 1, UInt8.ofNat i] (BitVec.ofNat 9 i))

/-- **The shipped entries are for addresses without a command.** -/
theorem lookup_shippedRoutes {a : Ip6Memaddr} (h : a.cmd ≠ 0) : lookup shippedRoutes () (wireAddr a) = none := by
  refine lookup_eq_none.2 (fun e he => Bool.eq_false_iff.2 (fun hm => h ?_))
  obtain ⟨i, -, rfl⟩ := List.mem_map.1 he
  have hbytes : a.bytes = (bytes16 a.subid ++ (bytes16 a.cmd ++ leBytes 2 a.args.toNat)) ++
      (leBytes 2 (a.args.toNat / 65536) ++ bytes64 a.paddr) := by
    have hargs : leBytes 4 a.args.toNat = leBytes 2 a.args.toNat ++ leBytes 2 (a.args.toNat / 65536) := by
      simp [leBytes, Nat.div_div_eq_div_mul]
    simp only [Ip6Memaddr.bytes, hargs, List.append_assoc]
  rw [wireAddr, hbytes, prefixEntry_matches _ (by simp) (by simp)] at hm
  have hcmd := congrArg (fun l : List UInt8 => (l.drop 2).take 2) hm
  simp only [List.drop_left' (length_bytes16 a.subid), List.take_left' (length_bytes16 a.cmd)] at hcmd
  exact bytes16_inj (hcmd.trans rfl)

/-- A short request of the client's, with a command. -/
def Commanded (me : SockaddrIn6) (p : Packet) : Prop := p.src = me ∧ p.data.length < 28 ∧ p.dst.addr.cmd ≠ 0

theorem serveFrame_shipped {w : P4Net} (hw : w.tables.ipv6 = shippedRoutes) (h0 : w.host 0 = none) (B : Nat)
    (C : Cluster) (alloc : Server → Nat → UInt64) (me : SockaddrIn6) (behind : List UInt8 → Buf) (hs : Hosts) {p : Packet}
    (hp : Commanded me p) : (serveFrame (w.fabric behind) B C alloc me hs (frameOf p)).2 = [] := by
  have hlookup : lookup w.tables.ipv6 () (wireAddr p.dst.addr) = none := by
    rw [hw]
    exact lookup_shippedRoutes hp.2.2
  have hfwd : (w.fabric behind).forward me.addr.subid (frameOf p) = none := by
    rw [P4Net.fabric]
    dsimp only
    rw [forward_frameOf w hp.2.1, hlookup, portOf, h0, Option.map_none]
  rw [serveFrame_none hfwd]

/-- **Under the shipped entries the client library does not work.**  With no host at port 0, where a packet without an
entry goes, no program that waits for an answer to short requests with commands is one of which all runs return. -/
theorem shipped_never_answers {α : Type} (w : P4Net) (hw : w.tables.ipv6 = shippedRoutes) (h0 : w.host 0 = none) (B : Nat)
    (C : Cluster) (alloc : Server → Nat → UInt64) (me : SockaddrIn6) (fifo : Prop) (hs : Hosts) {m : Prog Packet α}
    (hwaits : m.Waits) (hm : m.Sends (Commanded me) (fun _ => False) (fun _ => True)) (behind : List UInt8 → Buf)
    (etherFrame : Buf) (Q : α → Conf (List UInt8) Hosts α → Prop) :
    ¬ Ends (frameNet (w.fabric behind) B C alloc me fifo) Q (start (framed (w.fabric behind) me etherFrame m) hs) := by
  intro h
  have hsilent : ∀ (hs : Hosts) (packet : List UInt8), (∃ p, Commanded me p ∧ frameOf p = packet) →
      ((frameNet (w.fabric behind) B C alloc me fifo).serve hs packet).2 = [] := by
    rintro hs _ ⟨p, hp, rfl⟩
    exact serveFrame_shipped hw h0 B C alloc me behind hs hp
  have hput : ∀ {t : Buf} {p : Packet}, Configured broadcastMac me t → Commanded me p →
      Configured broadcastMac me (sendFrame t p).1 ∧ (sendFrame t p).2 = frameOf p :=
    fun ht hp => ⟨ht.preparePacket _, by rw [sendFrame, preparePacket_eq ht, frameOf, hp.1]⟩
  refine not_ends_of_silent hsilent ⟨?_, rfl, hwaits.coded _, hm.coded hput (configured_main me etherFrame)⟩ h
  exact fun p hp => by cases hp

/-- An allocation at the second host. -/
theorem shipped_never_answers_alloc : ¬ Ends (frameNet (P4Net.fabric
      ⟨⟨[], shippedRoutes, [], fun _ => none, fun _ => none⟩, fun port => if port = 2 then some 0x0201 else none,
        by decide⟩ (fun _ _ => 0)) 1 plainCluster (fun _ _ => 64) ⟨⟨0x0101, 0, 0, 0⟩, 6000⟩ True) (fun _ _ => True)
    (start (framed (P4Net.fabric
      ⟨⟨[], shippedRoutes, [], fun _ => none, fun _ => none⟩, fun port => if port = 2 then some 0x0201 else none,
        by decide⟩ (fun _ _ => 0)) ⟨⟨0x0101, 0, 0, 0⟩, 6000⟩ (fun _ => 0)
      (allocateRmem ⟨⟨0x0101, 0, 0, 0⟩, 6000⟩ ⟨⟨0x0201, 0, 0, 0⟩, 5000⟩))
      (equipped plainCluster (fun _ => ⟨fun _ => 0, []⟩) (fun _ _ => 0))) := by
  refine shipped_never_answers _ rfl rfl 1 plainCluster _ _ True _ ?_ ?_ _ _ _
  · trivial
  · exact ⟨⟨rfl, by decide, by decide⟩, fun _ hf => hf.elim⟩

/-! ## The flows of the emulation -/

/-- The host's subnet: `01%02x::` of its number. -/
def hostSubid (hostId : Nat) : UInt16 := UInt16.ofNat (1 + 256 * hostId)

/-- `10%d` of the host's number, where an address has a word of at most four hexadecimal digits. -/
def flowNet (hostId : Nat) : Option (BitVec 16) :=
  let text := [49, 48] ++ CString.decimal hostId
  if text.length ≤ 4 then some (BitVec.ofNat 16 (text.foldl (fun v d => 16 * v + (d.toNat - 48)) 0)) else none

inductive Output where
  | port (n : Nat)
  | inPort

/-- A flow for IPv6, with the first word of its addresses. -/
structure Flow where
  priority : Nat
  ipv6Src : Option (BitVec 16)
  ipv6Dst : BitVec 16
  action : Output

/-- The flows of `configureSwitch` for the hosts; one with an address that is none is not added. -/
def configureSwitch (numHosts : Nat) : List Flow :=
  (List.range' 1 numHosts).flatMap (fun hostId =>
    match flowNet hostId with
    | some net => [⟨1, none, net, .port hostId⟩, ⟨2, some net, net, .inPort⟩]
    | none     => [])

def netAt (packet : List UInt8) (i : Nat) : BitVec 16 := BitVec.ofNat 16 (beNat ((packet.drop i).take 2))

def Flow.matches (f : Flow) (packet : List UInt8) : Bool :=
  (packet.drop 12).take 2 = ethPIpv6 ∧ netAt packet 38 = f.ipv6Dst ∧ f.ipv6Src.all (fun net => netAt packet 22 = net)

/-- The action of the flow with the highest priority; `miss` is what is done with a packet that matches none. -/
def ovsForward (numHosts : Nat) (miss : List UInt8 → Option (UInt16 × List UInt8)) (ingress : UInt16)
    (packet : List UInt8) : Option (UInt16 × List UInt8) :=
  match ((configureSwitch numHosts).filter (fun f => f.matches packet)).argmax Flow.priority with
  | some ⟨_, _, _, .port n⟩ => some (hostSubid n, packet)
  | some ⟨_, _, _, .inPort⟩ => some (ingress, packet)
  | none                    => miss packet

section Ovs

theorem wire16_inj {s s' : UInt16} (h : wire16 s = wire16 s') : s = s' :=
  bytes16_inj ((ofNat_beNat_inj (by simp) (by simp)).1 h)

theorem netAt_bytes {pre : List UInt8} {i : Nat} (hpre : pre.length = i) (a : Ip6Memaddr) (rest : List UInt8) :
    netAt (pre ++ (a.bytes ++ rest)) i = wire16 a.subid := by
  simp only [netAt, List.drop_left' hpre, Ip6Memaddr.bytes, List.append_assoc, List.take_left' (length_bytes16 a.subid)]
  rfl

theorem matches_frameOf (f : Flow) (p : Packet) : f.matches (frameOf p) = true ↔
    wire16 p.dst.addr.subid = f.ipv6Dst ∧ ∀ net ∈ f.ipv6Src, wire16 p.src.addr.subid = net := by
  have hframe : frameOf p = (broadcastMac ++ srcMac ++ ethPIpv6 ++ ip6Flow ++ plen ⟨p.dst.addr, p.dst.port, p.data⟩ ++
      ip6NxtHops) ++ (p.src.addr.bytes ++ (p.dst.addr.bytes ++ (udpBytes p.src ⟨p.dst.addr, p.dst.port, p.data⟩ ++
      p.data))) := by
    simp only [frameOf, frame, udpBytes, List.append_assoc]
  have htype : ((frameOf p).drop 12).take 2 = ethPIpv6 := by
    rw [frameOf, frame, ← List.append_assoc, List.drop_left' (by simp), List.take_left' (by simp)]
  have hsrc : netAt (frameOf p) 22 = wire16 p.src.addr.subid := by
    rw [hframe, netAt_bytes (by simp)]
  have hdst : netAt (frameOf p) 38 = wire16 p.dst.addr.subid := by
    rw [hframe, ← List.append_assoc, netAt_bytes (by simp)]
  simp only [Flow.matches, htype, hdst, hsrc, true_and, decide_eq_true_eq, Option.all_eq_true, Option.mem_def]

theorem wire16_hostSubid : ∀ h < 256, (wire16 (hostSubid h)).toNat = 0x0100 + h := by decide +kernel

/-- The flows' words have the host's number where the addresses have it, or are larger than the addresses'. -/
theorem flowNet_spec {h : Nat} (hh : h < 256) {net : BitVec 16} (hnet : flowNet h = some net) :
    0x1000 ≤ net.toNat ∨ h ≤ 9 ∧ net.toNat = 0x0100 + h := by
  have hall : ∀ h < 256, (flowNet h).all (fun net => 0x1000 ≤ net.toNat ∨ h ≤ 9 ∧ net.toNat = 0x0100 + h) = true := by
    decide +kernel
  have hone := hall h hh
  rw [hnet, Option.all_some, decide_eq_true_eq] at hone
  exact hone

theorem flowNet_of_le : ∀ h ≤ 9, flowNet h = some (wire16 (hostSubid h)) := by decide +kernel

theorem mem_configureSwitch {numHosts : Nat} {f : Flow} : f ∈ configureSwitch numHosts ↔
    ∃ h net, 1 ≤ h ∧ h ≤ numHosts ∧ flowNet h = some net ∧
      (f = ⟨1, none, net, .port h⟩ ∨ f = ⟨2, some net, net, .inPort⟩) := by
  rw [configureSwitch, List.mem_flatMap]
  constructor
  · rintro ⟨h, hh, hf⟩
    obtain ⟨hle, hlt⟩ := List.mem_range'_1.1 hh
    cases hnet : flowNet h with
    | none => rw [hnet] at hf; cases hf
    | some net =>
      rw [hnet] at hf
      exact ⟨h, net, hle, by omega, hnet, by simpa using hf⟩
  · rintro ⟨h, net, hle, hlt, hnet, hf⟩
    refine ⟨h, List.mem_range'_1.2 ⟨hle, by omega⟩, ?_⟩
    rw [hnet]
    simpa using hf

/-- **A flow that a frame to a host matches is that host's**, which is one of the first nine. -/
theorem flow_of_matches {numHosts : Nat} (hn : numHosts ≤ 255) {h : Nat} (hh : h ≤ numHosts) {f : Flow}
    (hf : f ∈ configureSwitch numHosts) {p : Packet} (hp : p.dst.addr.subid = hostSubid h)
    (hm : f.matches (frameOf p) = true) :
    h ≤ 9 ∧ (f.action = .port h ∨ f.action = .inPort ∧ p.src.addr.subid = hostSubid h) := by
  obtain ⟨hdst, hsrc⟩ := (matches_frameOf f p).1 hm
  obtain ⟨h', net, -, hle', hnet, hf⟩ := mem_configureSwitch.1 hf
  have heq : f.ipv6Dst = net := by rcases hf with rfl | rfl <;> rfl
  rw [hp, heq] at hdst
  have hspec := flowNet_spec (by omega) hnet
  rw [← hdst, wire16_hostSubid h (by omega)] at hspec
  obtain ⟨hle, rfl⟩ : h ≤ 9 ∧ h' = h := by omega
  refine ⟨hle, ?_⟩
  rcases hf with rfl | rfl
  · exact .inl rfl
  · exact .inr ⟨rfl, wire16_inj ((hsrc net rfl).trans hdst.symm)⟩

/-- **The flows take frames to the hosts exactly if there are at most nine**, whatever is done with other packets: the
tenth host's subnet is `10a::`, its flow is for `1010::`. -/
theorem ovs_delivers_iff {numHosts : Nat} (hn : numHosts ≤ 255) :
    (∀ miss behind, Delivers ⟨ovsForward numHosts miss, behind⟩ (fun s => ∃ h, 1 ≤ h ∧ h ≤ numHosts ∧ s = hostSubid h)) ↔
      numHosts ≤ 9 := by
  constructor
  · intro hd
    refine Nat.not_lt.1 (fun hlt => ?_)
    have hten := hd (fun _ => none) (fun _ _ => 0) ⟨⟨⟨0, 0, 0, 0⟩, 0⟩, ⟨⟨hostSubid 10, 0, 0, 0⟩, 0⟩, []⟩
      ⟨10, by decide, hlt, rfl⟩ (by simp)
    have hno : (configureSwitch numHosts).filter (fun f => f.matches
        (frameOf ⟨⟨⟨0, 0, 0, 0⟩, 0⟩, ⟨⟨hostSubid 10, 0, 0, 0⟩, 0⟩, []⟩)) = [] := by
      refine List.filter_eq_nil_iff.2 (fun f hf hm => ?_)
      exact absurd (flow_of_matches hn hlt hf rfl hm).1 (by decide)
    simp only [ovsForward, hno, List.argmax_nil] at hten
    cases hten
  · rintro hle miss behind p ⟨h, hpos, hh, hp⟩ -
    have hfirst : (⟨1, none, wire16 (hostSubid h), .port h⟩ : Flow) ∈
        (configureSwitch numHosts).filter (fun f => f.matches (frameOf p)) := by
      refine List.mem_filter.2 ⟨mem_configureSwitch.2 ⟨h, _, hpos, hh, flowNet_of_le h (by omega), .inl rfl⟩, ?_⟩
      rw [matches_frameOf, hp]
      exact ⟨rfl, fun net hnet => by cases hnet⟩
    dsimp only [ovsForward]
    cases hmax : ((configureSwitch numHosts).filter (fun f => f.matches (frameOf p))).argmax Flow.priority with
    | none =>
      rw [List.argmax_eq_none.1 hmax] at hfirst
      cases hfirst
    | some f =>
      obtain ⟨hf, hm⟩ := List.mem_filter.1 (List.argmax_mem hmax)
      obtain ⟨-, hact⟩ := flow_of_matches hn hh hf hp hm
      obtain ⟨priority, src, dst, action⟩ := f
      rcases hact with hact | ⟨hact, hsrc⟩
      · obtain rfl : action = .port h := hact
        rw [hp]
      · obtain rfl : action = .inPort := hact
        dsimp only
        rw [hsrc, hp]

theorem ovs_delivers_iff_ten : ¬ ∀ miss behind, Delivers ⟨ovsForward 10 miss, behind⟩
    (fun s => ∃ h, 1 ≤ h ∧ h ≤ 10 ∧ s = hostSubid h) :=
  fun h => absurd ((ovs_delivers_iff (by decide)).1 h) (by decide)

end Ovs

end FrameNet
end Bb
