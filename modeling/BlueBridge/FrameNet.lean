import BlueBridge.Coding
import BlueBridge.FrameSize
/-!
# FrameNet — the client library over a network of frames

Between `prepare_packet` at one host and the receive ring at another there are only bytes.  Here the servers and the
client send and receive frames: every host keeps its `ether_frame`, a `Fabric` takes a frame to a host, the host's
packet filter lets it into a slot of the ring, and there it is read in place.  If the fabric takes frames to the host
whose subnet they are for, as they are, this network codes the one of packets (`frames_code`).  So what is proved of the
client library over packets holds over frames (`runs_framed`), for programs that only send what `Carried` says.

The limit on the data is that of a header that the switch looks for behind the UDP header (`extract ThriftT`).
-/
namespace Bb
namespace FrameNet

open Bytes Wire Rmem RxRing Bb.Frame
open Function (update)

/-- To which host a frame from a host goes, if to any, and as what; and what is behind it in the slot it is put into. -/
structure Fabric where
  forward : UInt16 → List UInt8 → Option (UInt16 × List UInt8)
  behind : List UInt8 → Buf

def Fabric.slot (N : Fabric) (packet : List UInt8) : Buf := slotOf packet (N.behind packet)

/-- The servers, each with its `ether_frame`. -/
abbrev Hosts := UInt16 → Server × Buf

section Net

variable (N : Fabric) (B : Nat) (C : Cluster) (alloc : Server → Nat → UInt64) (me : SockaddrIn6) (hs : Hosts)

/-- What the client gets of a frame from the host `s`. -/
def toClient (s : UInt16) (packet : List UInt8) : List (List UInt8) :=
  match N.forward s packet with
  | some (s, packet) => if s = me.addr.subid ∧ packetFilter s me.port (N.slot packet) then [packet] else []
  | none             => []

/-- `handle_packet` on a slot. -/
def handleFrame (s : UInt16) (f : Buf) : Hosts × List (List UInt8) :=
  let (targetIp, size) := handleReader.eval f
  match (processRequestAt B alloc targetIp size).eval f (hs s).1 with
  | (server, none)     => (update hs s (server, (hs s).2), [])
  | (server, some pkt) =>
    let (etherFrame, packet) := preparePacket (hs s).2 pkt
    (update hs s (server, etherFrame), toClient N me s packet)

def serveFrame (packet : List UInt8) : Hosts × List (List UInt8) :=
  match N.forward me.addr.subid packet with
  | some (s, packet) =>
    if packetFilter s C.port (N.slot packet) then handleFrame N B alloc me hs s (N.slot packet) else (hs, [])
  | none             => (hs, [])

/-- The servers and the fabric; with `fifo`, frames to one host stay in their order. -/
def frameNet (fifo : Prop) : Net (List UInt8) Hosts (Option UInt16) where
  serve := serveFrame N B C alloc me
  fifo := fifo
  link := fun packet => (N.forward me.addr.subid packet).map Prod.fst

/-- `send_udp_raw`: what `prepare_packet` makes of the packet in the client's `ether_frame`. -/
def sendFrame (etherFrame : Buf) (p : Packet) : Buf × List UInt8 :=
  preparePacket etherFrame ⟨p.dst.addr, p.dst.port, p.data⟩

/-- `rcv_udp6_raw`. -/
def receiveFrame (packet : List UInt8) : Packet := packetOf (N.slot packet)

end Net

/-- The frame of a packet. -/
def frameOf (p : Packet) : List UInt8 := frame broadcastMac ethPIpv6 p.src ⟨p.dst.addr, p.dst.port, p.data⟩

/-! ## What frames carry -/

/-- The hosts that the fabric takes frames to, as they are. -/
def Delivers (N : Fabric) (hosts : UInt16 → Prop) : Prop :=
  ∀ p : Packet, hosts p.dst.addr.subid → p.data.length < 28 →
    N.forward p.src.addr.subid (frameOf p) = some (p.dst.addr.subid, frameOf p)

/-- The requests of a client: to such a host, too short to be taken for a call, as is what they ask for, and with the
word that their command has. -/
structure Carried (hosts : UInt16 → Prop) (me : SockaddrIn6) (p : Packet) : Prop where
  src : p.src = me
  dst : hosts p.dst.addr.subid
  short : p.data.length < 28
  word : p.dst.addr.cmd = readBulkCmd ∨ p.dst.addr.cmd = allocBulkCmd ∨ p.dst.addr.cmd = trimCmd → 8 ≤ p.data.length
  reads : p.dst.addr.cmd = readCmd ∨ p.dst.addr.cmd = readBulkCmd → p.dst.addr.args.toUInt16.toNat < 28

structure Answered (hosts : UInt16 → Prop) (p : Packet) : Prop where
  src : hosts p.src.addr.subid
  short : p.data.length < 28

theorem fits_of_short {pkt : PktRqst} (h : pkt.data.length < 28) : Fits pkt := by
  unfold Fits cFramesize
  omega

section Frames

variable {N : Fabric} {p : Packet}

theorem says_slot (N : Fabric) (h : p.data.length < 28) :
    Says p.src (N.slot (frameOf p)) ⟨p.dst.addr, p.dst.port, p.data⟩ :=
  says_of_carries length_broadcastMac (fits_of_short h) (readBytes_writeBytes ..)

theorem packetFilter_frameOf (h : p.data.length < 28) (port : UInt16) :
    packetFilter p.dst.addr.subid port (N.slot (frameOf p)) = decide (p.dst.port = port) := by
  have hs := says_slot N h
  have hlen : 62 ≤ (frameOf p).length := by
    simp [frameOf, frame]
    omega
  have hhead : ∀ i < 62, N.slot (frameOf p) i = (frameOf p).getD i 0 := fun i hi => by
    rw [Fabric.slot, slotOf, ← writeBytes_of_lt (N.behind _) 0 (Nat.lt_of_lt_of_le hi hlen), Nat.zero_add]
  have hipv6 : N.slot (frameOf p) 12 = 0x86 ∧ N.slot (frameOf p) 13 = 0xdd := ⟨hhead 12 (by decide), hhead 13 (by decide)⟩
  have hudp : N.slot (frameOf p) 20 = 17 := hhead 20 (by decide)
  rw [packetFilter, hipv6.1, hipv6.2, hudp, hs.dstPort, hs.dstAddr]
  apply Bool.eq_iff_iff.2
  simp

theorem receiveFrame_frameOf (h : p.data.length < 28) : receiveFrame N (frameOf p) = p := by
  have hs := says_slot N h
  rw [receiveFrame, packetOf, hs.source, hs.dstAddr, hs.dstPort, hs.data]

end Frames

/-! ## The server's answer -/

section Answer

variable {B : Nat} {calloc : Nat → UInt64} {h : Server} {targetIp : SockaddrIn6} {a : Ip6Memaddr}

theorem le64_append {d : List UInt8} (hd : 8 ≤ d.length) (e : List UInt8) : le64 (d ++ e) = le64 d := by
  rw [le64, le64, List.take_append_of_le_length hd]

/-- What is behind the data does not matter to a request that has the word it is to have. -/
theorem processRequest_behind {d : List UInt8} (hd : d.length < 2 ^ 16)
    (hword : a.cmd = readBulkCmd ∨ a.cmd = allocBulkCmd ∨ a.cmd = trimCmd → 8 ≤ d.length) (behind : List UInt8) :
    processRequest B calloc h targetIp a (d ++ behind) (UInt16.ofNat d.length) =
      processRequest B calloc h targetIp a d (UInt16.ofNat d.length) := by
  have htake : (d ++ behind).take (UInt16.ofNat d.length).toNat = d.take (UInt16.ofNat d.length).toNat := by
    rw [UInt16.toNat_ofNat_of_lt' hd, List.take_left, List.take_length]
  unfold processRequest writeMem writeMemBulk readMemPtr
  rw [htake]
  by_cases hw : a.cmd = readBulkCmd ∨ a.cmd = allocBulkCmd ∨ a.cmd = trimCmd
  · rw [le64_append (hword hw)]
  · simp only [not_or] at hw
    simp only [hw.1, hw.2.1, hw.2.2, if_false]

/-- **An answer goes back where the request came from**, and is as long as what was asked for. -/
theorem processRequest_answer {d : List UInt8} {size : UInt16} {pkt : PktRqst}
    (hreads : a.cmd = readCmd ∨ a.cmd = readBulkCmd → a.args.toUInt16.toNat < 28)
    (hr : (processRequest B calloc h targetIp a d size).2 = some pkt) :
    pkt.dstAddr.subid = targetIp.addr.subid ∧ pkt.dstPort = targetIp.port ∧ pkt.data.length < 28 := by
  have hnil : ([] : List UInt8).length < 28 := by decide
  unfold processRequest at hr
  split at hr
  · cases hr; exact ⟨rfl, rfl, hnil⟩
  split at hr
  · unfold writeMemBulk at hr
    dsimp only at hr
    split at hr
    · cases hr; exact ⟨rfl, rfl, hnil⟩
    · cases hr
  split at hr
  · next hcmd => cases hr; exact ⟨rfl, rfl, by rw [length_readBytes]; exact hreads (.inl hcmd)⟩
  split at hr
  · next hcmd => cases hr; exact ⟨rfl, rfl, by rw [length_readBytes]; exact hreads (.inr hcmd)⟩
  split at hr
  · cases hr; exact ⟨rfl, rfl, hnil⟩
  split at hr
  · cases hr; exact ⟨rfl, rfl, hnil⟩
  split at hr
  · cases hr; exact ⟨rfl, rfl, hnil⟩
  split at hr
  · cases hr; exact ⟨rfl, rfl, hnil⟩
  · cases hr

end Answer

/-! ## The code -/

/-- The hosts' servers, with frames made for their addresses. -/
def Equips (C : Cluster) (st : UInt16 → Server) (hs : Hosts) : Prop :=
  ∀ s, (hs s).1 = st s ∧ Configured broadcastMac ⟨C.addr s, C.port⟩ (hs s).2

theorem Equips.update {C : Cluster} {st : UInt16 → Server} {hs : Hosts} (h : Equips C st hs) {s : UInt16} (server : Server)
    {f : Buf} (hf : Configured broadcastMac ⟨C.addr s, C.port⟩ f) :
    Equips C (update st s server) (update hs s (server, f)) := by
  intro s'
  by_cases hs' : s' = s
  · subst hs'
    simpa only [Function.update_self] using ⟨trivial, hf⟩
  · simpa only [Function.update_of_ne hs'] using h s'

section Codes

variable {N : Fabric} {B : Nat} {C : Cluster} {alloc : Server → Nat → UInt64} {me : SockaddrIn6}
  {hosts : UInt16 → Prop} {st : UInt16 → Server} {hs : Hosts}

theorem toClient_frameOf (hN : Delivers N hosts) (hme : hosts me.addr.subid) {r : Packet}
    (hsubid : r.dst.addr.subid = me.addr.subid) (hport : r.dst.port = me.port) (hlen : r.data.length < 28) :
    toClient N me r.src.addr.subid (frameOf r) = [frameOf r] := by
  have hfwd := hN r (by rw [hsubid]; exact hme) hlen
  rw [toClient, hfwd]
  dsimp only
  rw [packetFilter_frameOf hlen, if_pos ⟨hsubid, by rw [hport]; exact decide_eq_true rfl⟩]

theorem serveFrame_none {packet : List UInt8} (h : N.forward me.addr.subid packet = none) :
    serveFrame N B C alloc me hs packet = (hs, []) := by
  rw [serveFrame, h]

/-- **A server does with a frame what it does with the packet.** -/
theorem serveFrame_frameOf (hN : Delivers N hosts) (hme : hosts me.addr.subid) (hst : Equips C st hs) {p : Packet}
    (hp : Carried hosts me p) :
    Equips C (handlePacket B C alloc st p).1 (serveFrame N B C alloc me hs (frameOf p)).1 ∧
    (serveFrame N B C alloc me hs (frameOf p)).2 = (handlePacket B C alloc st p).2.map frameOf ∧
    ∀ r ∈ (handlePacket B C alloc st p).2, Answered hosts r := by
  have hserve : serveFrame N B C alloc me hs (frameOf p) = if p.dst.port = C.port then
      handleFrame N B alloc me hs p.dst.addr.subid (N.slot (frameOf p)) else (hs, []) := by
    rw [serveFrame, ← hp.src, hN p hp.dst hp.short]
    dsimp only
    rw [packetFilter_frameOf hp.short]
    simp only [decide_eq_true_eq]
  by_cases hport : p.dst.port = C.port
  case neg =>
    rw [hserve, handlePacket, if_neg hport, if_neg hport]
    exact ⟨hst, rfl, fun r hr => by cases hr⟩
  obtain ⟨hserver, hconf⟩ := hst p.dst.addr.subid
  have hrec := (says_slot N hp.short).recovered
  obtain ⟨behind, -, hproc⟩ := hrec.process
  have hproc' := hproc B alloc (st p.dst.addr.subid)
  rw [processRequest_behind (Nat.lt_trans hp.short (by decide)) hp.word] at hproc'
  have hhandle : handleFrame N B alloc me hs p.dst.addr.subid (N.slot (frameOf p)) =
      match processRequest B (alloc (st p.dst.addr.subid)) (st p.dst.addr.subid) p.src p.dst.addr p.data
        (UInt16.ofNat p.data.length) with
      | (server, none)     => (update hs p.dst.addr.subid (server, (hs p.dst.addr.subid).2), [])
      | (server, some pkt) => (update hs p.dst.addr.subid (server, (preparePacket (hs p.dst.addr.subid).2 pkt).1),
          toClient N me p.dst.addr.subid (preparePacket (hs p.dst.addr.subid).2 pkt).2) := by
    rw [handleFrame, hrec.handle]
    dsimp only
    rw [hserver, hproc']
  rw [hserve, if_pos hport, hhandle, handlePacket, if_pos hport]
  dsimp only
  have hanswer := @processRequest_answer B (alloc (st p.dst.addr.subid)) (st p.dst.addr.subid) p.src p.dst.addr p.data
    (UInt16.ofNat p.data.length)
  rcases hr : processRequest B (alloc (st p.dst.addr.subid)) (st p.dst.addr.subid) p.src p.dst.addr p.data
    (UInt16.ofNat p.data.length) with ⟨server, _ | pkt⟩
  · exact ⟨hst.update server hconf, rfl, fun r hr => by cases hr⟩
  · rw [hr] at hanswer
    obtain ⟨hsubid, hdport, hlen⟩ := hanswer hp.reads rfl
    rw [hp.src] at hsubid hdport
    dsimp only
    rw [preparePacket_eq hconf]
    have hclient := toClient_frameOf (r := Rmem.preparePacket ⟨C.addr p.dst.addr.subid, C.port⟩ pkt) hN hme hsubid hdport
      hlen
    rw [Rmem.preparePacket, C.subid_addr] at hclient
    refine ⟨hst.update server (hconf.preparePacket pkt), hclient, fun r hr => ?_⟩
    obtain rfl := List.mem_singleton.1 hr
    exact ⟨by rw [Rmem.preparePacket, C.subid_addr]; exact hp.dst, hlen⟩

/-- **The network of frames codes the network of packets.** -/
theorem frames_code (hN : Delivers N hosts) (hme : hosts me.addr.subid) (fifo : Prop) :
    Codes (rmemNet B C alloc fifo) (frameNet N B C alloc me fifo) sendFrame (receiveFrame N) frameOf (Carried hosts me)
      (Answered hosts) (Configured broadcastMac me) (Equips C) where
  put := fun ht hp => ⟨ht.preparePacket _, by rw [sendFrame, preparePacket_eq ht, frameOf, hp.src]⟩
  get := fun hp => receiveFrame_frameOf hp.short
  serve := fun hst hp => serveFrame_frameOf hN hme hst hp
  fifo := id
  link := fun hp hq h => by
    have hfp := hN _ hp.dst hp.short
    have hfq := hN _ hq.dst hq.short
    rw [hp.src] at hfp
    rw [hq.src] at hfq
    simp only [frameNet, hfp, hfq, Option.map_some]
    exact congrArg some h

/-- The hosts after `configure_tx`, whatever was in their frames. -/
def equipped (C : Cluster) (st : UInt16 → Server) (etherFrames : UInt16 → Buf) : Hosts :=
  fun s => (st s, configureTx ⟨C.addr s, C.port⟩ 0 (etherFrames s))

/-- The program as the client runs it, after `configure_tx`; `me` has the port that its thread sends from
(`configureTx_onThread`). -/
def framed {α : Type} (N : Fabric) (me : SockaddrIn6) (etherFrame : Buf) (m : Prog Packet α) : Prog (List UInt8) α :=
  m.coded sendFrame (receiveFrame N) (configureTx me 0 etherFrame)

/-- **What holds over packets holds over frames**, of programs whose requests are carried. -/
theorem runs_framed {α : Type} {m : Prog Packet α} {fifo : Prop} {Q : α → (UInt16 → Server) → Prop}
    (hN : Delivers N hosts) (hme : hosts me.addr.subid)
    (hm : m.Sends (Carried hosts me) (Answered hosts) (fun _ => True)) (h : Runs (rmemNet B C alloc fifo) m st Q)
    (etherFrame : Buf) (etherFrames : UInt16 → Buf) :
    Runs (frameNet N B C alloc me fifo) (framed N me etherFrame m) (equipped C st etherFrames)
      (fun a hs => Q a (fun s => (hs s).1)) := by
  have hst : Equips C st (equipped C st etherFrames) := fun s => ⟨rfl, configured_main _ _⟩
  refine (h.coded (frames_code hN hme fifo) hm (configured_main me etherFrame) hst).mono (fun a hs hout => ?_)
  obtain ⟨st', hst', hQ⟩ := hout
  have heq : st' = fun s => (hs s).1 := funext (fun s => (hst' s).1.symm)
  exact heq ▸ hQ

end Codes

end FrameNet
end Bb
