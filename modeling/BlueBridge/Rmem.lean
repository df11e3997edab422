import BlueBridge.Bytes
import BlueBridge.Wire
import Mathlib.Logic.Function.Basic
/-!
# Rmem — remote memory, the two sides (`ip6/lib/client_lib.c`, `server_lib.c`, `types.h`)

The client names a remote block by an IPv6 address: the server's subnet, a command, an argument word and the pointer on
that server.  A request is one packet to such an address; the server acts on its own memory and answers to the
packet's source address with the command and a pointer written into it.

`target_ip`, the caller's address variables and its memory are passed and returned, since the functions write all three.
A packet is what `prepare_packet` and the receivers make of a frame: both ends' addresses and ports and the payload.  An
out-of-bounds access of the client is `fail`.  `BLOCK_SIZE` is the parameter `B`; what `calloc` returns is given.
-/
namespace Bb
namespace Rmem

open Bytes Wire
open Function (update)

structure Ip6Memaddr where
  subid : UInt16
  cmd : UInt16
  args : UInt32
  paddr : UInt64
  deriving DecidableEq, Repr

structure SockaddrIn6 where
  addr : Ip6Memaddr
  port : UInt16
  deriving DecidableEq, Repr

structure PktRqst where
  dstAddr : Ip6Memaddr
  dstPort : UInt16
  data : List UInt8
  deriving DecidableEq, Repr

structure Packet where
  src : SockaddrIn6
  dst : SockaddrIn6
  data : List UInt8
  deriving DecidableEq, Repr

structure Ip6MemaddrBlock where
  memaddr : Ip6Memaddr
  length : UInt64
  offset : UInt64
  deriving DecidableEq, Repr

def allocCmd : UInt16 := 1
def writeCmd : UInt16 := 2
def readCmd : UInt16 := 3
def freeCmd : UInt16 := 4
def allocBulkCmd : UInt16 := 5
def writeBulkCmd : UInt16 := 6
def readBulkCmd : UInt16 := 7
def trimCmd : UInt16 := 8

/-- `prepare_packet`: the request under the sender's own address and port. -/
def preparePacket (me : SockaddrIn6) (pkt : PktRqst) : Packet := ⟨me, ⟨pkt.dstAddr, pkt.dstPort⟩, pkt.data⟩

/-! ## The server -/

/-- A server's address space and the regions `calloc` has handed out.  Reads and writes go to whatever pointer a request
has; that it is one of a region is for the theorems to say. -/
structure Server where
  mem : Nat → UInt8
  live : List (Nat × Nat)

def Server.calloc (h : Server) (allocated : UInt64) (n : Nat) : Server where
  mem := zeroBytes h.mem allocated.toNat n
  live := (allocated.toNat, n) :: h.live

def Server.free (h : Server) (p : UInt64) : Server := { h with live := h.live.filter (fun r => r.1 ≠ p.toNat) }

def Server.write (h : Server) (p : UInt64) (d : List UInt8) : Server := { h with mem := writeBytes h.mem p.toNat d }

/-- `returnID`: the source address of the client's packet, with the command and the pointer of the answer. -/
def returnID (targetIp : SockaddrIn6) (cmd : UInt16) (paddr : UInt64) : Ip6Memaddr :=
  { targetIp.addr with cmd := cmd, paddr := paddr }

section Server

variable (B : Nat) (calloc : Nat → UInt64) (h : Server) (targetIp : SockaddrIn6)

def allocateMem : Server × Option PktRqst :=
  let allocated := calloc B
  (h.calloc allocated B, some ⟨returnID targetIp allocCmd allocated, targetIp.port, []⟩)

def allocateMemBulk (size : UInt64) : Server × Option PktRqst :=
  let size := if size = 0 then 1 else size.toNat
  let allocated := calloc size
  (h.calloc allocated size, some ⟨returnID targetIp allocBulkCmd allocated, targetIp.port, []⟩)

def readMem (rAddr : Ip6Memaddr) : Server × Option PktRqst :=
  let length := rAddr.args.toUInt16
  (h, some ⟨returnID targetIp rAddr.cmd rAddr.paddr, targetIp.port, readBytes h.mem rAddr.paddr.toNat length.toNat⟩)

/-- The answer goes to the pointer the client sent along. -/
def readMemPtr (rcvBuffer : List UInt8) (rAddr : Ip6Memaddr) : Server × Option PktRqst :=
  let length := rAddr.args.toUInt16
  (h, some ⟨returnID targetIp rAddr.cmd (le64 rcvBuffer), targetIp.port,
    readBytes h.mem rAddr.paddr.toNat length.toNat⟩)

def writeMem (rcvBuffer : List UInt8) (rAddr : Ip6Memaddr) (size : UInt16) : Server × Option PktRqst :=
  (h.write rAddr.paddr (rcvBuffer.take size.toNat),
    some ⟨returnID targetIp rAddr.cmd rAddr.paddr, targetIp.port, []⟩)

/-- Acknowledged only on the packet whose sequence number is the server's total. -/
def writeMemBulk (rcvBuffer : List UInt8) (rAddr : Ip6Memaddr) (size : UInt16) : Server × Option PktRqst :=
  (h.write rAddr.paddr (rcvBuffer.take size.toNat),
    if (rAddr.args &&& (0x0000ffff : UInt32)) = ((rAddr.args &&& (0xffff0000 : UInt32)) >>> 16) then
      some ⟨returnID targetIp rAddr.cmd rAddr.paddr, targetIp.port, []⟩
    else none)

def freeMem (rAddr : Ip6Memaddr) : Server × Option PktRqst :=
  (h.free rAddr.paddr, some ⟨returnID targetIp rAddr.cmd rAddr.paddr, targetIp.port, []⟩)

def trimMem (rAddr : Ip6Memaddr) (size : UInt64) : Server × Option PktRqst :=
  ({ h with mem := zeroBytes h.mem rAddr.paddr.toNat size.toNat },
    some ⟨returnID targetIp rAddr.cmd rAddr.paddr, targetIp.port, []⟩)

def processRequest (remoteAddr : Ip6Memaddr) (rcvBuffer : List UInt8) (size : UInt16) : Server × Option PktRqst :=
  if remoteAddr.cmd = writeCmd then writeMem h targetIp rcvBuffer remoteAddr size
  else if remoteAddr.cmd = writeBulkCmd then writeMemBulk h targetIp rcvBuffer remoteAddr size
  else if remoteAddr.cmd = readCmd then readMem h targetIp remoteAddr
  else if remoteAddr.cmd = readBulkCmd then readMemPtr h targetIp rcvBuffer remoteAddr
  else if remoteAddr.cmd = freeCmd then freeMem h targetIp remoteAddr
  else if remoteAddr.cmd = allocCmd then allocateMem B calloc h targetIp
  else if remoteAddr.cmd = allocBulkCmd then allocateMemBulk calloc h targetIp (le64 rcvBuffer)
  else if remoteAddr.cmd = trimCmd then trimMem h targetIp remoteAddr (le64 rcvBuffer)
  else (h, none)

end Server

/-- The servers' configuration: one port, and an address in its own subnet for each. -/
structure Cluster where
  port : UInt16
  addr : UInt16 → Ip6Memaddr
  subid_addr : ∀ s, (addr s).subid = s

/-- `handle_packet` at the server whose subnet the packet is for; its packet filter drops other ports. -/
def handlePacket (B : Nat) (C : Cluster) (alloc : Server → Nat → UInt64) (st : UInt16 → Server) (p : Packet) :
    (UInt16 → Server) × List Packet :=
  if p.dst.port = C.port then
    let s := p.dst.addr.subid
    let r := processRequest B (alloc (st s)) (st s) p.src p.dst.addr p.data (UInt16.ofNat p.data.length)
    (update st s r.1, (r.2.map (preparePacket ⟨C.addr s, C.port⟩)).toList)
  else (st, [])

/-- The servers behind a network that loses and duplicates nothing; with `fifo` it keeps the order to each server. -/
def rmemNet (B : Nat) (C : Cluster) (alloc : Server → Nat → UInt64) (fifo : Prop) :
    Net Packet (UInt16 → Server) UInt16 where
  serve := handlePacket B C alloc
  fifo := fifo
  link := fun p => p.dst.addr.subid

/-! ## The client: single requests -/

section Client

variable (B : Nat) (me : SockaddrIn6)

/-- `send_udp_raw`. -/
def sendUdpRaw (pkt : PktRqst) : Prog Packet Unit := .send (preparePacket me pkt) (.ret ())

/-- `rcv_udp6_raw`: the packet, whose source the caller puts in `target_ip`. -/
def rcvUdp6Raw : Prog Packet Packet := .recv .ret

def allocateRmem (targetIp : SockaddrIn6) : Prog Packet (SockaddrIn6 × Ip6Memaddr) := do
  let dst := { targetIp.addr with cmd := allocCmd }
  sendUdpRaw me ⟨dst, targetIp.port, []⟩
  let p ← rcvUdp6Raw
  pure (p.src, { p.dst.addr with subid := p.src.addr.subid })

/-- The list is `malloc`ed as `num_blocks * sizeof(ip6_memaddr)`, which must not wrap. -/
def allocateBulkRmem (targetIp : SockaddrIn6) (numBlocks : UInt64) : Prog Packet (SockaddrIn6 × List Ip6Memaddr) := do
  let dst := { targetIp.addr with cmd := allocBulkCmd }
  sendUdpRaw me ⟨dst, targetIp.port, bytes64 numBlocks⟩
  let p ← rcvUdp6Raw
  let retAddr := { p.dst.addr with subid := p.src.addr.subid }
  if numBlocks.toNat * 16 < 2 ^ 64 then
    pure (p.src, (List.range numBlocks.toNat).map (fun i =>
      { retAddr with paddr := retAddr.paddr + UInt64.ofNat (i * B) }))
  else .fail

def allocateUniformRmem (targetIp : SockaddrIn6) (numBlocks : UInt64) :
    Prog Packet (SockaddrIn6 × Ip6MemaddrBlock) := do
  let dst := { targetIp.addr with cmd := allocBulkCmd }
  sendUdpRaw me ⟨dst, targetIp.port, bytes64 numBlocks⟩
  let p ← rcvUdp6Raw
  pure (p.src, ⟨{ p.dst.addr with subid := p.src.addr.subid }, numBlocks, 0⟩)

/-- Returns `target_ip`, the caller's address, its memory and the number of bytes received. -/
def readRmem (targetIp : SockaddrIn6) (remoteAddr : Ip6Memaddr) (mem : Nat → UInt8) (rxBuf : Nat) (length : UInt16) :
    Prog Packet (SockaddrIn6 × Ip6Memaddr × (Nat → UInt8) × Nat) := do
  let remoteAddr := { remoteAddr with cmd := readCmd, args := length.toUInt32 }
  sendUdpRaw me ⟨remoteAddr, targetIp.port, []⟩
  let p ← rcvUdp6Raw
  pure (p.src, remoteAddr, writeBytes mem rxBuf p.data, p.data.length)

def writeRmem (targetIp : SockaddrIn6) (remoteAddr : Ip6Memaddr) (mem : Nat → UInt8) (payload : Nat)
    (length : UInt16) : Prog Packet (SockaddrIn6 × Ip6Memaddr) := do
  let remoteAddr := { remoteAddr with cmd := writeCmd }
  sendUdpRaw me ⟨remoteAddr, targetIp.port, readBytes mem payload length.toNat⟩
  let p ← rcvUdp6Raw
  pure (p.src, remoteAddr)

/-- The answer's destination address is written over the caller's. -/
def freeRmem (targetIp : SockaddrIn6) (remoteAddr : Ip6Memaddr) : Prog Packet (SockaddrIn6 × Ip6Memaddr) := do
  sendUdpRaw me ⟨{ remoteAddr with cmd := freeCmd }, targetIp.port, []⟩
  let p ← rcvUdp6Raw
  pure (p.src, p.dst.addr)

def trimBulkRmem (targetIp : SockaddrIn6) (remoteAddr : Ip6Memaddr) (size : UInt64) :
    Prog Packet (SockaddrIn6 × Ip6Memaddr) := do
  sendUdpRaw me ⟨{ remoteAddr with cmd := trimCmd }, targetIp.port, bytes64 size⟩
  let p ← rcvUdp6Raw
  pure (p.src, p.dst.addr)

/-! ## The client: batches -/

def ushrtMax : Nat := 65535
def batchSize : Nat := 40

/-- The loop of `batch_read` and `batch_write` over the address list: packet `i` is made from the number of packets
already made for its server, which is then counted in `sub_ids`, an array of `USHRT_MAX` entries. -/
def marshal (mk : Nat → UInt32 → Ip6Memaddr → PktRqst) : Nat → List Ip6Memaddr → (Nat → UInt32) →
    Option (List PktRqst × (Nat → UInt32))
  | _, [],     subIds => some ([], subIds)
  | i, a :: r, subIds =>
    if a.subid.toNat < ushrtMax then do
      let (pkts, subIds') ← marshal mk (i + 1) r (update subIds a.subid.toNat (subIds a.subid.toNat + 1))
      some (mk i (subIds a.subid.toNat) a :: pkts, subIds')
    else none

/-- `cooked_batched_send` and `dpdk_batched_send`: the server's total goes into the upper half of `args`. -/
def cookedBatchedSend (subIds : Nat → UInt32) (pkts : List PktRqst) : List Packet :=
  pkts.map (fun pkt => preparePacket me { pkt with
    dstAddr := { pkt.dstAddr with args := pkt.dstAddr.args ||| (subIds pkt.dstAddr.subid.toNat <<< 16) } })

/-- The last loop of `batch_write`: one answer for every server counted. -/
def rcvAcks (subIds : Nat → UInt32) : List Nat → SockaddrIn6 → Prog Packet SockaddrIn6
  | [],     targetIp => .ret targetIp
  | i :: r, targetIp => if subIds i ≠ 0 then .recv (fun p => rcvAcks subIds r p.src) else rcvAcks subIds r targetIp

def batchWriteRqst (port : UInt16) (mem : Nat → UInt8) (payload : Nat) (chunkLen : UInt16) (i : Nat) (seen : UInt32)
    (a : Ip6Memaddr) : PktRqst where
  dstAddr := { a with args := seen + 1, cmd := writeBulkCmd }
  dstPort := port
  data := readBytes mem (payload + chunkLen.toNat * i) chunkLen.toNat

def batchWrite (targetIp : SockaddrIn6) (remoteAddrs : List Ip6Memaddr) (mem : Nat → UInt8) (payload : Nat)
    (chunkLen : UInt16) : Prog Packet SockaddrIn6 :=
  match marshal (batchWriteRqst targetIp.port mem payload chunkLen) 0 remoteAddrs (fun _ => 0) with
  | none => .fail
  | some (pkts, subIds) =>
    sendAll (cookedBatchedSend me subIds pkts) (rcvAcks subIds (List.range ushrtMax) targetIp)

/-- `write_packets`: each answer is copied to the pointer its destination address carries. -/
def writePackets (mem : Nat → UInt8) (p : Packet) : Nat → UInt8 := writeBytes mem p.dst.addr.paddr.toNat p.data

/-- The sequence number is written into `args` and overwritten by the length. -/
def batchReadRqst (port : UInt16) (buffer : Nat) (chunkLen : UInt16) (i : Nat) (_seen : UInt32) (a : Ip6Memaddr) :
    PktRqst where
  dstAddr := { a with cmd := readBulkCmd, args := chunkLen.toUInt32 }
  dstPort := port
  data := bytes64 (UInt64.ofNat (buffer + i * chunkLen.toNat % 2 ^ 32))

def batchRead (targetIp : SockaddrIn6) (remoteAddrs : List Ip6Memaddr) (mem : Nat → UInt8) (buffer : Nat)
    (chunkLen : UInt16) : Prog Packet (Nat → UInt8) :=
  match marshal (batchReadRqst targetIp.port buffer chunkLen) 0 remoteAddrs (fun _ => 0) with
  | none => .fail
  | some (pkts, subIds) => burst (cookedBatchedSend me subIds pkts) remoteAddrs.length writePackets mem

/-! ## The client: bulk requests -/

/-- What the bulk functions work on: `target_ip`, the caller's address list and its memory. -/
structure Caller where
  targetIp : SockaddrIn6
  addrs : List Ip6Memaddr
  mem : Nat → UInt8

inductive Exit where
  | success | failure
  deriving DecidableEq, Repr

/-- `n` addresses from `&remote_addrs[i]` on. -/
def slice (addrs : List Ip6Memaddr) (i n : Nat) : Option (List Ip6Memaddr) :=
  if i + n ≤ addrs.length then some ((addrs.drop i).take n) else none

def Caller.writeFirst (c : Caller) (payload : Nat) (length : UInt16) : Prog Packet Caller :=
  match c.addrs with
  | []     => .fail
  | a :: r => do
    let (targetIp, a) ← writeRmem me c.targetIp a c.mem payload length
    pure { c with targetIp := targetIp, addrs := a :: r }

def Caller.readFirst (c : Caller) (rxBuf : Nat) (length : UInt16) : Prog Packet Caller :=
  match c.addrs with
  | []     => .fail
  | a :: r => do
    let (targetIp, a, mem, _) ← readRmem me c.targetIp a c.mem rxBuf length
    pure { targetIp := targetIp, addrs := a :: r, mem := mem }

def Caller.batchWrite (c : Caller) (i n payload : Nat) : Prog Packet Caller :=
  match slice c.addrs i n with
  | none       => .fail
  | some addrs => do
    let targetIp ← Rmem.batchWrite me c.targetIp addrs c.mem payload (UInt16.ofNat B)
    pure { c with targetIp := targetIp }

def Caller.batchRead (c : Caller) (i n rxBuf : Nat) : Prog Packet Caller :=
  match slice c.addrs i n with
  | none       => .fail
  | some addrs => do
    let mem ← Rmem.batchRead me c.targetIp addrs c.mem rxBuf (UInt16.ofNat B)
    pure { c with mem := mem }

/-- The full batches of `write_bulk_rmem`, whose index is a `uint64_t`. -/
def writeBatches (payload : Nat) : List Nat → Caller → Prog Packet Caller
  | [],     c => pure c
  | i :: r, c => do
    let c ← c.batchWrite B me (i * batchSize % 2 ^ 64) batchSize (payload + B * i * batchSize % 2 ^ 64)
    writeBatches payload r c

/-- The full batches of `read_bulk_rmem`, whose index is a `uint32_t`. -/
def readBatches (rxBuf : Nat) : List Nat → Caller → Prog Packet Caller
  | [],     c => pure c
  | i :: r, c => do
    let c ← c.batchRead B me (i * batchSize % 2 ^ 32) batchSize (rxBuf + B * i * batchSize % 2 ^ 32)
    readBatches rxBuf r c

def writeBulkRmem (c : Caller) (payload : Nat) (size : UInt64) : Prog Packet (Caller × Exit) :=
  if size.toNat ≤ B then do
    let c ← c.writeFirst me payload size.toUInt16
    pure (c, .success)
  else
    let numChunks := size.toNat / B
    let chunkResidual := UInt16.ofNat (size.toNat % B)
    if numChunks > c.addrs.length then pure (c, .failure)
    else do
      let batches := numChunks / batchSize
      let batchResidual := numChunks % batchSize
      let c ← writeBatches B me payload (List.range batches) c
      let offset := numChunks - batchResidual
      let c ← c.batchWrite B me offset batchResidual (payload + B * offset % 2 ^ 64)
      if chunkResidual ≠ 0 then do
        let c ← c.writeFirst me (payload + B * (offset + 1) % 2 ^ 64) chunkResidual
        pure (c, .success)
      else pure (c, .success)

def readBulkRmem (c : Caller) (rxBuf : Nat) (size : UInt64) : Prog Packet (Caller × Exit) :=
  if size.toNat ≤ B then do
    let c ← c.readFirst me rxBuf size.toUInt16
    pure (c, .success)
  else
    let numChunks := size.toNat / B
    let chunkResidual := UInt16.ofNat (size.toNat % B)
    if numChunks > c.addrs.length then pure (c, .failure)
    else do
      let batches := numChunks / batchSize % 2 ^ 32
      let batchResidual := numChunks % batchSize
      let c ← readBatches B me rxBuf (List.range batches) c
      let offset := numChunks - batchResidual
      let c ← c.batchRead B me offset batchResidual (rxBuf + B * offset % 2 ^ 64)
      if chunkResidual ≠ 0 then do
        let c ← c.readFirst me (rxBuf + B * (offset + 1) % 2 ^ 64) chunkResidual
        pure (c, .success)
      else pure (c, .success)

/-- `&tmp_addrs[offset]`.  A block whose offset is beyond its length is a pointer outside the array. -/
def tmpAddrs (b : Ip6MemaddrBlock) : Option (List Ip6Memaddr) :=
  if b.offset ≤ b.length then
    some ((List.range' b.offset.toNat (b.length.toNat - b.offset.toNat)).map (fun i =>
      { b.memaddr with paddr := b.memaddr.paddr + UInt64.ofNat (i * B) }))
  else none

/-- The verdict of the bulk function is dropped. -/
def writeUniformRmem (targetIp : SockaddrIn6) (remoteBlock : Ip6MemaddrBlock) (mem : Nat → UInt8) (payload : Nat)
    (size : UInt64) : Prog Packet (SockaddrIn6 × Exit) :=
  match tmpAddrs B remoteBlock with
  | none       => .fail
  | some addrs => do
    let (c, _) ← writeBulkRmem B me ⟨targetIp, addrs, mem⟩ payload size
    pure (c.targetIp, .success)

def readUniformRmem (targetIp : SockaddrIn6) (remoteBlock : Ip6MemaddrBlock) (mem : Nat → UInt8) (rxBuf : Nat)
    (size : UInt64) : Prog Packet ((SockaddrIn6 × (Nat → UInt8)) × Exit) :=
  match tmpAddrs B remoteBlock with
  | none       => .fail
  | some addrs => do
    let (c, _) ← readBulkRmem B me ⟨targetIp, addrs, mem⟩ rxBuf size
    pure ((c.targetIp, c.mem), .success)

end Client

end Rmem
end Bb
