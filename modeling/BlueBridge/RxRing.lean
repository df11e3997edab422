import BlueBridge.Frame
import BlueBridge.RingEarly
/-!
# RxRing — the receive ring and its consumers (`raw_backend/udp_raw_client.c`, `udp_raw_server.c`)

The kernel fills the slots of a mapped ring, and marks a frame `TP_STATUS_COPY` or `TP_STATUS_LOSING` when it was
truncated or when others were dropped.  `simple_epoll_rcv` and `write_packets` copy what they need and then set the slot
back to `TP_STATUS_KERNEL`.  `handle_packet` sets it back first and then hands `process_request` pointers into the slot,
so every request is read from a slot that is the kernel's (`rx_ring_ownership`), which may replace it while it is being
executed (`rawRcvLoop_acts_on_refill`).  All three pass over a marked slot without setting it back, and the kernel stops
when it comes round to it (`rx_ring_gives_back_iff`).

Frames are read byte by byte, and the kernel may fill between any two reads.
-/
namespace Bb
namespace RxRing

open Bytes Rmem Bb.Frame Bb.Ring

def tpStatusKernel : UInt32 := 0
def tpStatusUser : UInt32 := 1
def tpStatusCopy : UInt32 := 2
def tpStatusLosing : UInt32 := 4

/-- `C_RING_FRAMES * RX_RING_BLOCKS`. -/
def tpFrameNr : Nat := 2048 * 4

/-- What `set_packet_filter` lets through, `dst port P and ip6 net A/16`: IPv6 to the port by TCP, UDP or SCTP, with the
first two bytes of the address in the source or the destination. -/
def packetFilter (subid port : UInt16) (f : Buf) : Bool :=
  f 12 == 0x86 && f 13 == 0xdd && (f 20 == 6 || f 20 == 17 || f 20 == 132) && udpDest f == port &&
    ((ip6Src f).subid == subid || (ip6Dst f).subid == subid)

/-- The slots that are passed over. -/
def skips : List (UInt32 → Bool) := [fun st => st &&& tpStatusCopy != 0, fun st => st &&& tpStatusLosing != 0]

/-! ## Reading a slot -/

def bytesAt (p : Nat) : Nat → Reader Buf (List UInt8)
  | 0     => pure []
  | n + 1 => do
    let f ← Reader.frame
    let rest ← bytesAt (p + 1) n
    return f p :: rest

def readUint16 (p : Nat) : Reader Buf UInt16 := do return UInt16.ofNat (leNat (← bytesAt p 2))
def readUint32 (p : Nat) : Reader Buf UInt32 := do return UInt32.ofNat (leNat (← bytesAt p 4))
def readUint64 (p : Nat) : Reader Buf UInt64 := do return UInt64.ofNat (leNat (← bytesAt p 8))

def readMemaddr (p : Nat) : Reader Buf Ip6Memaddr := do
  return ⟨← readUint16 p, ← readUint16 (p + 2), ← readUint32 (p + 4), ← readUint64 (p + 8)⟩

/-- `ntohs(udp_hdr->len) - UDP_HDRLEN`. -/
def readMsgSize : Reader Buf UInt16 := do return htons (← readUint16 58) - 8

@[simp] theorem eval_bytesAt (f : Buf) : ∀ n p, (bytesAt p n).eval f = readBytes f p n
  | 0, p => by simp [bytesAt, readBytes]
  | n + 1, p => by
    rw [bytesAt, Nat.add_comm n 1, readBytes_add]
    simp [eval_bytesAt f n (p + 1), readBytes]

@[simp] theorem eval_readUint16 (f : Buf) (p : Nat) : (readUint16 p).eval f = uint16At f p := by
  simp [readUint16, uint16At]

@[simp] theorem eval_readUint32 (f : Buf) (p : Nat) : (readUint32 p).eval f = uint32At f p := by
  simp [readUint32, uint32At]

@[simp] theorem eval_readUint64 (f : Buf) (p : Nat) : (readUint64 p).eval f = uint64At f p := by
  simp [readUint64, uint64At]

@[simp] theorem eval_readMemaddr (f : Buf) (p : Nat) : (readMemaddr p).eval f = memaddrAt f p := by
  simp [readMemaddr, memaddrAt]

@[simp] theorem eval_readMsgSize (f : Buf) : readMsgSize.eval f = msgSize f := by simp [readMsgSize, msgSize]

/-! ## The clients -/

/-- What a receive call returns and writes to its arguments, where they are not `NULL`. -/
structure Received where
  msgSize : UInt16
  rcvBuf : Option (List UInt8)
  remoteAddr : Option Ip6Memaddr
  targetIp : SockaddrIn6
  deriving DecidableEq

/-- What is to be received of a frame. -/
def received (rcvBuf remoteAddr : Bool) (f : Buf) : Received where
  msgSize := msgSize f
  rcvBuf := if rcvBuf then some (payload f (msgSize f)) else none
  remoteAddr := if remoteAddr then some (ip6Dst f) else none
  targetIp := ⟨ip6Src f, udpSource f⟩

def rcvReader (rcvBuf remoteAddr : Bool) : Reader Buf Received := do
  let msgSize ← readMsgSize
  let buf ← if rcvBuf then some <$> bytesAt 62 msgSize.toNat else pure none
  let addr ← if remoteAddr then some <$> readMemaddr 38 else pure none
  let src ← readMemaddr 22
  let port ← readUint16 54
  return ⟨msgSize, buf, addr, ⟨src, port⟩⟩

/-- `simple_epoll_rcv`: one look at the ring. -/
def simpleEpollRcv (rcvBuf remoteAddr : Bool) : Prog Buf (Option Received) :=
  turn skips (rcvReader rcvBuf remoteAddr) .ret

theorem eval_rcvReader (rcvBuf remoteAddr : Bool) (f : Buf) :
    (rcvReader rcvBuf remoteAddr).eval f = received rcvBuf remoteAddr f := by
  simp only [rcvReader, received, payload, ip6Dst, ip6Src, udpSource, Reader.eval_bind, eval_readMsgSize]
  cases rcvBuf <;> cases remoteAddr <;>
    simp only [Bool.false_eq_true, if_true, if_false, Reader.eval_bind, Reader.eval_pure, Reader.eval_map, eval_bytesAt,
      eval_readMemaddr, eval_readUint16]

/-- What is to be written of a frame: the data, at the pointer of its destination address. -/
def written (f : Buf) : UInt64 × List UInt8 := ((ip6Dst f).paddr, payload f (msgSize f))

def writeReader : Reader Buf (UInt64 × List UInt8) := do
  let msgSize ← readMsgSize
  let paddr ← readUint64 46
  let data ← bytesAt 62 msgSize.toNat
  return (paddr, data)

/-- `write_packets`: one look at the ring. -/
def writePackets : Prog Buf (Option (UInt64 × List UInt8)) := turn skips writeReader .ret

theorem eval_writeReader (f : Buf) : writeReader.eval f = written f := by
  simp [writeReader, written, payload, ip6Dst, memaddrAt]

/-! ## The server -/

section Server

variable (B : Nat) (alloc : Server → Nat → UInt64) (targetIp : SockaddrIn6) (size : UInt16)

/-- What the server does on a request, to its memory and as an answer. -/
abbrev Request := Server → Server × Option PktRqst

/-- `remote_addr->cmd`, `->args` and `->paddr`: the address is still in the slot. -/
def readCmdField : Reader Buf UInt16 := readUint16 40
def readArgs : Reader Buf UInt32 := readUint32 42
def readPaddr : Reader Buf UInt64 := readUint64 46

/-- One comparison of `process_request`. -/
def ifCmd (cmd : UInt16) (yes no : Reader Buf Request) : Reader Buf Request := do
  if (← readCmdField) = cmd then yes else no

def writeMemAt : Reader Buf Request := do
  let paddr ← readPaddr
  let data ← bytesAt 62 size.toNat
  let cmd ← readCmdField
  let paddr' ← readPaddr
  return fun h => (h.write paddr data, some ⟨returnID targetIp cmd paddr', targetIp.port, []⟩)

def writeMemBulkAt : Reader Buf Request := do
  let paddr ← readPaddr
  let data ← bytesAt 62 size.toNat
  let args ← readArgs
  let args' ← readArgs
  if (args &&& (0x0000ffff : UInt32)) = ((args' &&& (0xffff0000 : UInt32)) >>> 16) then
    let cmd ← readCmdField
    let paddr' ← readPaddr
    return fun h => (h.write paddr data, some ⟨returnID targetIp cmd paddr', targetIp.port, []⟩)
  else return fun h => (h.write paddr data, none)

def readMemAt : Reader Buf Request := do
  let cmd ← readCmdField
  let paddr ← readPaddr
  let args ← readArgs
  let paddr' ← readPaddr
  return fun h => (h, some ⟨returnID targetIp cmd paddr, targetIp.port,
    readBytes h.mem paddr'.toNat args.toUInt16.toNat⟩)

def readMemPtrAt : Reader Buf Request := do
  let cmd ← readCmdField
  let args ← readArgs
  let ptr ← readUint64 62
  let paddr ← readPaddr
  return fun h => (h, some ⟨returnID targetIp cmd ptr, targetIp.port,
    readBytes h.mem paddr.toNat args.toUInt16.toNat⟩)

def freeMemAt : Reader Buf Request := do
  let paddr ← readPaddr
  let cmd ← readCmdField
  let paddr' ← readPaddr
  return fun h => (h.free paddr, some ⟨returnID targetIp cmd paddr', targetIp.port, []⟩)

def trimMemAt : Reader Buf Request := do
  let size ← readUint64 62
  let paddr ← readPaddr
  let cmd ← readCmdField
  let paddr' ← readPaddr
  return fun h => ({ h with mem := zeroBytes h.mem paddr.toNat size.toNat },
    some ⟨returnID targetIp cmd paddr', targetIp.port, []⟩)

/-- `process_request` on pointers into the slot. -/
def processRequestAt : Reader Buf Request :=
  ifCmd writeCmd (writeMemAt targetIp size) <|
  ifCmd writeBulkCmd (writeMemBulkAt targetIp size) <|
  ifCmd readCmd (readMemAt targetIp) <|
  ifCmd readBulkCmd (readMemPtrAt targetIp) <|
  ifCmd freeCmd (freeMemAt targetIp) <|
  ifCmd allocCmd (pure fun h => allocateMem B (alloc h) h targetIp) <|
  ifCmd allocBulkCmd (do
    let allocSize ← readUint64 62
    return fun h => allocateMemBulk (alloc h) h targetIp allocSize) <|
  ifCmd trimCmd (trimMemAt targetIp) <|
  pure fun h => (h, none)

/-- `handle_packet` up to `tp_status = TP_STATUS_KERNEL`: the copied destination address is not used any more. -/
def handleReader : Reader Buf (SockaddrIn6 × UInt16) := do
  let msgSize ← readMsgSize
  let _remoteAddr ← readMemaddr 38
  let src ← readMemaddr 22
  let port ← readUint16 54
  return (⟨src, port⟩, msgSize)

/-- `raw_rcv_loop`: one look at the ring. -/
def rawRcvLoop : Prog Buf (Option Request) := turn skips handleReader (fun r => processRequestAt B alloc r.1 r.2)

/-- What is to be done on a frame. -/
def requested (f : Buf) : Request := fun h =>
  processRequest B (alloc h) h ⟨ip6Src f, udpSource f⟩ (ip6Dst f) (readBytes f 62 (max 8 (msgSize f).toNat)) (msgSize f)

theorem eval_ifCmd {cmd : UInt16} {yes no : Reader Buf Request} {f : Buf} {h : Server} {y n : Server × Option PktRqst}
    (hyes : yes.eval f h = y) (hno : no.eval f h = n) :
    (ifCmd cmd yes no).eval f h = if (ip6Dst f).cmd = cmd then y else n := by
  have hcmd : (ip6Dst f).cmd = uint16At f 40 := rfl
  rw [ifCmd, Reader.eval_bind, readCmdField, eval_readUint16, hcmd]
  split
  · exact hyes
  · exact hno

theorem eval_handleReader (f : Buf) : handleReader.eval f = (⟨ip6Src f, udpSource f⟩, msgSize f) := by
  simp [handleReader, ip6Src, udpSource]

@[simp] theorem eval_readCmdField (f : Buf) : readCmdField.eval f = (ip6Dst f).cmd := eval_readUint16 f 40
@[simp] theorem eval_readArgs (f : Buf) : readArgs.eval f = (ip6Dst f).args := eval_readUint32 f 42
@[simp] theorem eval_readPaddr (f : Buf) : readPaddr.eval f = (ip6Dst f).paddr := eval_readUint64 f 46

theorem eval_writeMemBulkAt (f : Buf) (h : Server) {buf : List UInt8}
    (hbuf : buf.take size.toNat = readBytes f 62 size.toNat) :
    (writeMemBulkAt targetIp size).eval f h = writeMemBulk h targetIp buf (ip6Dst f) size := by
  simp only [writeMemBulkAt, writeMemBulk, hbuf, Reader.eval_bind, eval_readPaddr, eval_bytesAt, eval_readArgs]
  split <;> simp

theorem eval_processRequestAt (f : Buf) (h : Server) :
    (processRequestAt B alloc targetIp size).eval f h =
      processRequest B (alloc h) h targetIp (ip6Dst f) (readBytes f 62 (max 8 size.toNat)) size := by
  have hdata : (readBytes f 62 (max 8 size.toNat)).take size.toNat = readBytes f 62 size.toNat :=
    take_readBytes f 62 (Nat.le_max_right ..)
  have hptr : le64 (readBytes f 62 (max 8 size.toNat)) = uint64At f 62 := by
    rw [le64, take_readBytes f 62 (Nat.le_max_left ..)]
    rfl
  -- One comparison after the other, on both sides.
  refine eval_ifCmd ?_ <| eval_ifCmd ?_ <| eval_ifCmd ?_ <| eval_ifCmd ?_ <| eval_ifCmd ?_ <| eval_ifCmd ?_ <|
    eval_ifCmd ?_ <| eval_ifCmd ?_ ?_
  · simp [writeMemAt, writeMem, hdata]
  · exact eval_writeMemBulkAt targetIp size f h hdata
  · simp [readMemAt, readMem]
  · simp [readMemPtrAt, readMemPtr, hptr]
  · simp [freeMemAt, freeMem]
  · rfl
  · simp [hptr]
  · simp [trimMemAt, trimMem, hptr]
  · rfl

end Server

/-! ## Who owns what is read -/

section Runs

variable {n : Nat} {α : Type}

theorem skips_kernel : flagged skips tpStatusKernel = false := by decide

/-- The results are what `act` makes of frames as they were handed over, one after another. -/
def Faithful (act : Buf → α) (s : Sys Buf α) : Prop :=
  ∃ c, s.out = ((s.filled.take c).filter (fun x => !flagged skips x.status)).map (fun x => act x.frame)

theorem faithful_of_out {β : Type} {R : Reader Buf β} {S : β → Reader Buf α} {act : Buf → α} {s : Sys Buf α} {c : Nat}
    (hspec : ∀ f, spec R S f = act f) (h : s.out = results skips R S c s.filled) : Faithful act s := by
  refine ⟨c, ?_⟩
  rw [h, results]
  exact List.map_congr_left (fun x _ => hspec x.frame)

/-- **A consumer that has read all before it gives the slot back** gets the frames as they were handed over. -/
theorem copying_faithful {R : Reader Buf α} {act : Buf → α} {f : Buf} {s : Sys Buf α} (hn : 0 < n)
    (hspec : ∀ f, R.eval f = act f)
    (h : Reach n (turn skips R .ret) (fun _ => True) (start (turn skips R .ret) f) s) : Faithful act s ∧ s.Owns := by
  have hinv : Inv n skips R .ret True False s :=
    reach_inv hn skips_kernel (fun _ b => .inl ⟨b, rfl⟩) (fun h => h.elim) h
  obtain ⟨c, hc⟩ := hinv.out
  exact ⟨faithful_of_out (S := .ret) hspec hc, hinv.owns⟩

theorem spec_rawRcvLoop (B : Nat) (alloc : Server → Nat → UInt64) (f : Buf) :
    spec handleReader (fun r => processRequestAt B alloc r.1 r.2) f = requested B alloc f := by
  funext h
  rw [spec, eval_handleReader]
  exact eval_processRequestAt ..

/-- **The receive ring.**  The clients act on the frames as they were handed over, and read no slot they have given
back.  The server does so exactly if it has no request to handle: each is read from a slot that it has given back.  It
still acts on the frames as they were handed over if the kernel does not refill the slot it is about to read. -/
theorem rx_ring_ownership (hn : 0 < n) (f : Buf) :
    (∀ rcvBuf remoteAddr s,
      Reach n (simpleEpollRcv rcvBuf remoteAddr) (fun _ => True) (start (simpleEpollRcv rcvBuf remoteAddr) f) s →
      Faithful (received rcvBuf remoteAddr) s ∧ s.Owns) ∧
    (∀ s, Reach n writePackets (fun _ => True) (start writePackets f) s → Faithful written s ∧ s.Owns) ∧
    (∀ B alloc l s, run n (rawRcvLoop B alloc) l (start (rawRcvLoop B alloc) f) = some s →
      (Always n (rawRcvLoop B alloc) (fun s => Faithful (requested B alloc) s ∧ s.Owns) l
          (start (rawRcvLoop B alloc) f) ↔
        ∀ x, some x ∈ l → flagged skips x.status = true)) ∧
    (∀ B alloc s,
      Reach n (rawRcvLoop B alloc) (fun s => s.prog.reading ≠ some s.head) (start (rawRcvLoop B alloc) f) s →
      Faithful (requested B alloc) s) := by
  refine ⟨fun rcvBuf remoteAddr s h => copying_faithful hn (eval_rcvReader rcvBuf remoteAddr) h,
    fun s h => copying_faithful hn eval_writeReader h, fun B alloc l s hl => ?_, fun B alloc s h => ?_⟩
  · -- the first thing `process_request` does is to read the command
    exact always_owns_iff hn skips_kernel (fun _ => ⟨_, rfl⟩) hl (fun s hs => ⟨0, hs⟩)
  · have hinv : Inv n skips handleReader (fun r => processRequestAt B alloc r.1 r.2) True True s :=
      reach_inv hn skips_kernel (fun _ _ => .inr trivial) (fun _ s hok => hok) h
    obtain ⟨c, hc⟩ := hinv.out
    exact faithful_of_out (spec_rawRcvLoop B alloc) hc

/-- The headers of a frame without data from `101::` to `102::`, port 5000. -/
def headers (cmd udpLen : UInt8) : List UInt8 :=
  List.replicate 12 0 ++ [0x86, 0xdd] ++ [0x60, 0, 0, 0, 0, 8, 17, 255] ++ 1 :: 1 :: List.replicate 14 0 ++
    1 :: 2 :: cmd :: List.replicate 13 0 ++ [0x13, 0x88, 0x13, 0x88, 0, udpLen, 0, 0]

def bareFrame (cmd : UInt8) : Buf := fun i => (headers cmd 8).getD i 0

theorem rx_ring_ownership_one_frame :
    (∃ s, run tpFrameNr writePackets (some ⟨tpStatusUser, bareFrame 0⟩ :: List.replicate 17 none)
        (start writePackets (fun _ => 0)) = some s ∧ s.out = [(0, [])] ∧ Faithful written s ∧ s.Owns) ∧
    Always tpFrameNr (rawRcvLoop 1 (fun _ _ => 0)) (fun s => Faithful (requested 1 (fun _ _ => 0)) s ∧ s.Owns)
        [some ⟨tpStatusUser ||| tpStatusLosing, bareFrame 1⟩] (start (rawRcvLoop 1 (fun _ _ => 0)) (fun _ => 0)) ∧
    ¬ Always tpFrameNr (rawRcvLoop 1 (fun _ _ => 0)) (fun s => Faithful (requested 1 (fun _ _ => 0)) s ∧ s.Owns)
        [some ⟨tpStatusUser, bareFrame 1⟩] (start (rawRcvLoop 1 (fun _ _ => 0)) (fun _ => 0)) := by
  have hout : (run tpFrameNr writePackets (some ⟨tpStatusUser, bareFrame 0⟩ :: List.replicate 17 none)
      (start writePackets (fun _ => 0))).map (fun s => s.out) = some [(0, [])] := by decide +kernel
  obtain ⟨s, hs, hout⟩ := Option.map_eq_some_iff.mp hout
  have hring := rx_ring_ownership (n := tpFrameNr) (by decide) (fun _ => 0)
  refine ⟨⟨s, hs, hout, hring.2.1 s (reach_run _ _ _ .start hs)⟩, ?_, fun h => ?_⟩
  · refine (hring.2.2.1 1 _ _ _ rfl).mpr (fun x hx => ?_)
    cases List.mem_singleton.mp hx
    decide
  · have := (hring.2.2.1 1 _ _ _ rfl).mp h _ (List.mem_singleton_self _)
    exact absurd this (by decide)

/-- A full ring; its first slot is refilled as soon as the server has given it back. -/
def refillRun : List (Option (Slot Buf)) :=
  (List.replicate tpFrameNr ⟨tpStatusUser, bareFrame 0⟩).map some ++
    (List.replicate 42 none ++ some ⟨tpStatusUser, bareFrame 2⟩ :: List.replicate 21 none)

theorem frames_refill (k i j : Nat) (x y : Slot Buf) :
    ((List.replicate k x).map some ++ (List.replicate i none ++ some y :: List.replicate j none)).filterMap id =
      List.replicate k x ++ [y] := by
  simp

/-- **The server acts on a frame that came later**: it was handed a request that it does not answer, and answers. -/
theorem rawRcvLoop_acts_on_refill :
    ∃ s, Reach tpFrameNr (rawRcvLoop 1 (fun _ _ => 0)) (fun _ => True)
        (start (rawRcvLoop 1 (fun _ _ => 0)) (fun _ => 0)) s ∧
      (∀ x ∈ s.filled, packetFilter 0x0201 0x8813 x.frame = true) ∧ ¬ Faithful (requested 1 (fun _ _ => 0)) s := by
  let answers : Request → Bool := fun g => (g ⟨fun _ => 0, []⟩).2.isSome
  have hfull := run_full (n := tpFrameNr) (m := rawRcvLoop 1 (fun _ _ => 0)) (f := fun _ => 0)
    (List.replicate tpFrameNr ⟨tpStatusUser, bareFrame 0⟩) (by rw [List.length_replicate])
    (fun x hx => by rw [List.eq_of_mem_replicate hx]; decide)
  rw [List.length_replicate] at hfull
  have hrun : (run tpFrameNr (rawRcvLoop 1 (fun _ _ => 0)) refillRun
      (start (rawRcvLoop 1 (fun _ _ => 0)) (fun _ => 0))).map (fun s => s.out.map answers) = some [true] := by
    rw [refillRun, run_append, hfull]
    decide +kernel
  obtain ⟨s, hs, hout⟩ := Option.map_eq_some_iff.mp hrun
  have hfilled : s.filled = List.replicate tpFrameNr ⟨tpStatusUser, bareFrame 0⟩ ++ [⟨tpStatusUser, bareFrame 2⟩] := by
    rw [run_start_filled hs, refillRun, frames_refill]
  refine ⟨s, reach_run _ _ _ .start hs, fun x hx => ?_, ?_⟩
  · rw [hfilled, List.mem_append, List.mem_replicate, List.mem_singleton] at hx
    rcases hx with ⟨-, rfl⟩ | rfl <;> decide +kernel
  · rintro ⟨c, hc⟩
    obtain ⟨rest, hrest⟩ : ∃ rest, s.filled = ⟨tpStatusUser, bareFrame 0⟩ :: rest := ⟨_, hfilled⟩
    have hans : answers (requested 1 (fun _ _ => 0) (bareFrame 0)) = false := by decide +kernel
    -- the first frame is not answered
    rw [hc, hrest] at hout
    cases c with
    | zero => simp at hout
    | succ c => simp [hans, show flagged skips tpStatusUser = false by decide] at hout

theorem turn_gives_back_iff {β : Type} {R : Reader Buf β} {S : β → Reader Buf α} {f : Buf} {s : Sys Buf α} (hn : 0 < n)
    (h : Reach n (turn skips R S) (fun _ => True) (start (turn skips R S) f) s) :
    GivesBack n (turn skips R S) s ↔ ∀ x ∈ s.filled, flagged skips x.status = false := by
  have hinv : Inv n skips R S False False s := reach_inv hn skips_kernel (fun h => h.elim) (fun h => h.elim) h
  exact hinv.givesBack_iff hn skips_kernel (fun h => h.elim)

/-- **Slots are given back exactly if no frame is marked.** -/
theorem rx_ring_gives_back_iff (hn : 0 < n) (f : Buf) :
    (∀ rcvBuf remoteAddr s,
      Reach n (simpleEpollRcv rcvBuf remoteAddr) (fun _ => True) (start (simpleEpollRcv rcvBuf remoteAddr) f) s →
      (GivesBack n (simpleEpollRcv rcvBuf remoteAddr) s ↔ ∀ x ∈ s.filled, flagged skips x.status = false)) ∧
    (∀ s, Reach n writePackets (fun _ => True) (start writePackets f) s →
      (GivesBack n writePackets s ↔ ∀ x ∈ s.filled, flagged skips x.status = false)) ∧
    (∀ B alloc s, Reach n (rawRcvLoop B alloc) (fun _ => True) (start (rawRcvLoop B alloc) f) s →
      (GivesBack n (rawRcvLoop B alloc) s ↔ ∀ x ∈ s.filled, flagged skips x.status = false)) :=
  ⟨fun _ _ _ h => turn_gives_back_iff hn h, fun _ h => turn_gives_back_iff hn h, fun _ _ _ h => turn_gives_back_iff hn h⟩

theorem rx_ring_gives_back_iff_one_frame :
    ∃ s, (start writePackets (fun _ => 0)).fill tpFrameNr ⟨tpStatusUser, bareFrame 0⟩ = some s ∧
      GivesBack tpFrameNr writePackets s := by
  have hf : (start writePackets (fun _ => 0)).fill tpFrameNr ⟨tpStatusUser, bareFrame 0⟩ = some _ := rfl
  refine ⟨_, hf, ((rx_ring_gives_back_iff (by decide) _).2.1 _ (.fill .start trivial hf)).mpr ?_⟩
  intro x hx
  rw [List.mem_singleton.mp hx]
  decide

/-- Frames for a whole ring, the first of which is marked. -/
def markedFrames : List (Slot Buf) :=
  ⟨tpStatusUser ||| tpStatusCopy, bareFrame 0⟩ :: List.replicate (tpFrameNr - 1) ⟨tpStatusUser, bareFrame 0⟩

theorem length_markedFrames : markedFrames.length = tpFrameNr := by
  rw [markedFrames, List.length_cons, List.length_replicate]
  rfl

/-- **A marked frame stops the ring**: the consumer has moved past all there was, and the kernel can fill nothing. -/
theorem writePackets_wedges :
    ∃ s, Reach tpFrameNr writePackets (fun _ => True) (start writePackets (fun _ => 0)) s ∧
      ¬ GivesBack tpFrameNr writePackets s ∧ s.filled.length = tpFrameNr ∧ s.filled.length ≤ s.advanced.length ∧
      ∀ x, s.fill tpFrameNr x = none := by
  have hfull := run_full (n := tpFrameNr) (m := writePackets) (f := fun _ => 0) markedFrames
    (Nat.le_of_eq length_markedFrames) (fun x hx => by
      rcases List.mem_cons.mp hx with rfl | hx
      · decide
      · rw [List.eq_of_mem_replicate hx]
        decide)
  rw [length_markedFrames, Nat.mod_self] at hfull
  have hreach : Reach tpFrameNr writePackets (fun _ => True) (start writePackets (fun _ => 0)) _ :=
    reach_run _ _ _ .start hfull
  generalize hs : Sys.mk _ _ _ _ _ _ _ _ = s at hreach
  have hfilled : s.filled = markedFrames := by rw [← hs]
  have hhead : s.head = 0 := by rw [← hs]
  have hslot : s.slots 0 = ⟨tpStatusUser ||| tpStatusCopy, bareFrame 0⟩ := by rw [← hs]; rfl
  have hinv : Inv tpFrameNr skips writeReader .ret False False s :=
    reach_inv (by decide) skips_kernel (fun h => h.elim) (fun h => h.elim) hreach
  obtain ⟨j, hj⟩ := hinv.drains (by decide) skips_kernel (fun h => h.elim)
  have hmarked : flagged skips (s.slots 0).status = true := by
    rw [hslot]
    decide
  have hreach' := reach_after hreach j
  have hfilled' : (s.after tpFrameNr writePackets j).filled = markedFrames := by rw [after_filled, hfilled]
  refine ⟨s.after tpFrameNr writePackets j, hreach', fun h => ?_, ?_, ?_, fun x => if_neg ?_⟩
  · have := (turn_gives_back_iff (by decide) hreach').mp h (s.slots 0) (by
      rw [hfilled', hslot]
      exact List.mem_cons_self)
    cases this.symm.trans hmarked
  · rw [hfilled', length_markedFrames]
  · rw [after_filled]
    exact hj
  · rw [after_head, hhead]
    -- the first slot is as it was
    have hkept := hinv.after_flagged (by decide) skips_kernel hmarked j
    intro h
    have := h.2
    rw [writePackets, hkept, hslot] at this
    exact absurd this (by decide)

end Runs

end RxRing
end Bb
