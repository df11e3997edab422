import BlueBridge.RmemLinear
/-!
# RmemPointer — what becomes of a remote pointer (`read_rmem`, `write_rmem`, `trim_bulk_rmem`)

The caller's `ip6_memaddr` is the destination of every request.  `read_rmem` and `write_rmem` change its command and its
arguments only.  `trim_bulk_rmem` hands it to the receive path as well, which copies the destination of the answer over
it: the pointer is still the block's, but the subnet is now the caller's own.
-/
namespace Bb
namespace Rmem

open Bytes Wire
open Function (update update_self)

/-! ## Operations on one address -/

inductive PtrOp where
  | read (rxBuf : Nat) (length : UInt16)
  | write (payload : Nat) (length : UInt16)
  | trim (size : UInt64)
  deriving DecidableEq, Repr

def PtrOp.isTrim : PtrOp → Bool
  | .trim _ => true
  | _       => false

def PtrOp.isWrite : PtrOp → Bool
  | .write _ _ => true
  | _          => false

/-- The caller: `target_ip`, its variable for the address, and its memory. -/
structure Holder where
  targetIp : SockaddrIn6
  addr : Ip6Memaddr
  mem : Nat → UInt8

section Client

variable (me : SockaddrIn6)

def Holder.exec (h : Holder) : PtrOp → Prog Packet Holder
  | .read rxBuf length => do
    let (targetIp, addr, mem, _) ← readRmem me h.targetIp h.addr h.mem rxBuf length
    pure ⟨targetIp, addr, mem⟩
  | .write payload length => do
    let (targetIp, addr) ← writeRmem me h.targetIp h.addr h.mem payload length
    pure ⟨targetIp, addr, h.mem⟩
  | .trim size => do
    let (targetIp, addr) ← trimBulkRmem me h.targetIp h.addr size
    pure ⟨targetIp, addr, h.mem⟩

def Holder.execs : List PtrOp → Holder → Prog Packet Holder
  | [],      h => pure h
  | op :: r, h => do
    let h ← h.exec me op
    execs r h

/-- `allocate_rmem`, then the operations: the address as it was allocated, and the caller after them. -/
def useRmem (targetIp : SockaddrIn6) (mem : Nat → UInt8) (ops : List PtrOp) : Prog Packet (Ip6Memaddr × Holder) := do
  let (targetIp, addr) ← allocateRmem me targetIp
  let h ← Holder.execs me ops ⟨targetIp, addr, mem⟩
  pure (addr, h)

end Client

/-! ## What they do -/

/-- The servers and the caller's memory. -/
abbrev World := (UInt16 → Server) × (Nat → UInt8)

def Server.trim (h : Server) (p size : UInt64) : Server := { h with mem := zeroBytes h.mem p.toNat size.toNat }

/-- The operation on the block `x`. -/
def PtrOp.onBlock (x : UInt16 × UInt64) : PtrOp → World → World
  | .read rxBuf length, (st, mem) => (st, writeBytes mem rxBuf (readBytes (st x.1).mem x.2.toNat length.toNat))
  | .write payload length, (st, mem) => (update st x.1 ((st x.1).write x.2 (readBytes mem payload length.toNat)), mem)
  | .trim size, (st, mem) => (update st x.1 ((st x.1).trim x.2 size), mem)

/-- The block the address names after the operation. -/
def PtrOp.moves (me : SockaddrIn6) (op : PtrOp) (x : UInt16 × UInt64) : UInt16 × UInt64 :=
  if op.isTrim then (me.addr.subid, x.2) else x

/-- An operation on the block the address names at the time. -/
def PtrOp.step (me : SockaddrIn6) (s : (UInt16 × UInt64) × World) (op : PtrOp) : (UInt16 × UInt64) × World :=
  (op.moves me s.1, op.onBlock s.1 s.2)

section Runs

variable {B : Nat} {C : Cluster} {alloc : Server → Nat → UInt64} {fifo : Prop} {me targetIp : SockaddrIn6}
  {st : UInt16 → Server}

theorem handlePacket_trim {p : Packet} {size : UInt64} (hport : p.dst.port = C.port)
    (hcmd : p.dst.addr.cmd = trimCmd) (hsize : le64 p.data = size) :
    handlePacket B C alloc st p =
      (update st p.dst.addr.subid ((st p.dst.addr.subid).trim p.dst.addr.paddr size), [ackOf C p]) := by
  have hw : ¬ trimCmd = writeCmd := by decide
  have hwb : ¬ trimCmd = writeBulkCmd := by decide
  have hr : ¬ trimCmd = readCmd := by decide
  have hrb : ¬ trimCmd = readBulkCmd := by decide
  have hf : ¬ trimCmd = freeCmd := by decide
  have ha : ¬ trimCmd = allocCmd := by decide
  have hab : ¬ trimCmd = allocBulkCmd := by decide
  rw [handlePacket, if_pos hport]
  simp only [processRequest, hcmd, if_neg hw, if_neg hwb, if_neg hr, if_neg hrb, if_neg hf, if_neg ha, if_neg hab,
    if_true, trimMem, ackOf, hsize]
  rfl

theorem allocateRmem_runs (hport : targetIp.port = C.port) :
    Runs (rmemNet B C alloc fifo) (allocateRmem me targetIp) st (fun r st' =>
      r.1.port = C.port ∧ r.2.subid = targetIp.addr.subid ∧
      r.2.paddr = alloc (st targetIp.addr.subid) B ∧
      st' = update st targetIp.addr.subid ((st targetIp.addr.subid).calloc r.2.paddr B)) := by
  have hserve : (rmemNet B C alloc fifo).serve st
      (preparePacket me ⟨{ targetIp.addr with cmd := allocCmd }, targetIp.port, []⟩) = _ :=
    handlePacket_alloc B C alloc st hport rfl
  refine (runs_request (fun p : Packet => (p.src, { p.dst.addr with subid := p.src.addr.subid })) hserve).mono ?_
  rintro r st' ⟨rfl, rfl⟩
  exact ⟨rfl, C.subid_addr _, rfl, rfl⟩

theorem trimBulkRmem_runs (hport : targetIp.port = C.port) (a : Ip6Memaddr) (size : UInt64) :
    Runs (rmemNet B C alloc fifo) (trimBulkRmem me targetIp a size) st (fun r st' =>
      r.1.port = C.port ∧ place r.2 = (me.addr.subid, a.paddr) ∧
      st' = update st a.subid ((st a.subid).trim a.paddr size)) := by
  have hserve : (rmemNet B C alloc fifo).serve st
      (preparePacket me ⟨{ a with cmd := trimCmd }, targetIp.port, bytes64 size⟩) = _ :=
    handlePacket_trim hport rfl (le64_bytes64 size)
  refine (runs_request (fun p : Packet => (p.src, p.dst.addr)) hserve).mono ?_
  rintro r st' ⟨rfl, rfl⟩
  exact ⟨rfl, rfl, rfl⟩

/-- **An operation acts on the block its address names**, and a trim moves the address to the caller's own subnet. -/
theorem Holder.exec_runs {h : Holder} (hport : h.targetIp.port = C.port) (op : PtrOp) :
    Runs (rmemNet B C alloc fifo) (h.exec me op) st (fun h' st' => h'.targetIp.port = C.port ∧
      (place h'.addr, st', h'.mem) = op.step me (place h.addr, st, h.mem)) := by
  cases op with
  | read rxBuf length =>
    refine Runs.bind (readRmem_runs B alloc fifo me st hport h.addr h.mem rxBuf length) ?_
    rintro ⟨ip, a, mem, n⟩ st' ⟨hip, rfl, rfl, rfl⟩
    exact Runs.ret ⟨hip, rfl⟩
  | write payload length =>
    refine Runs.bind (writeRmem_runs B alloc fifo me st hport h.addr h.mem payload length) ?_
    rintro ⟨ip, a⟩ st' ⟨hip, rfl, rfl⟩
    refine Runs.ret ⟨hip, ?_⟩
    rw [storeAll_single]
    rfl
  | trim size =>
    refine Runs.bind (trimBulkRmem_runs hport h.addr size) ?_
    rintro ⟨ip, a⟩ st' ⟨hip, ha, rfl⟩
    refine Runs.ret ⟨hip, ?_⟩
    show (place a, _) = _
    rw [ha]
    rfl

theorem Holder.execs_runs : ∀ (ops : List PtrOp) (h : Holder) (st : UInt16 → Server), h.targetIp.port = C.port →
    Runs (rmemNet B C alloc fifo) (Holder.execs me ops h) st (fun h' st' =>
      (place h'.addr, st', h'.mem) = ops.foldl (PtrOp.step me) (place h.addr, st, h.mem))
  | [], _, _, _ => Runs.ret rfl
  | op :: r, h, st, hport => by
    rw [Holder.execs]
    refine Runs.bind (Holder.exec_runs hport op) ?_
    rintro h₁ st₁ ⟨hport₁, hstep⟩
    rw [List.foldl_cons, ← hstep]
    exact Holder.execs_runs r h₁ st₁ hport₁

/-- The address after a run, and the servers and the caller's memory. -/
theorem useRmem_runs (hport : targetIp.port = C.port) (mem : Nat → UInt8) (ops : List PtrOp) :
    Runs (rmemNet B C alloc fifo) (useRmem me targetIp mem ops) st (fun r st' =>
      r.1.subid = targetIp.addr.subid ∧ r.1.paddr = alloc (st targetIp.addr.subid) B ∧
      (place r.2.addr, st', r.2.mem) = ops.foldl (PtrOp.step me)
        (place r.1, update st targetIp.addr.subid ((st targetIp.addr.subid).calloc r.1.paddr B), mem)) := by
  refine Runs.bind (allocateRmem_runs hport) ?_
  rintro ⟨ip, a⟩ st' ⟨hip, hsub, hptr, rfl⟩
  refine Runs.bind (Holder.execs_runs ops ⟨ip, a, mem⟩ _ hip) ?_
  intro h st'' hfold
  exact Runs.ret ⟨hsub, hptr, hfold⟩

end Runs

/-! ## Runs on one block -/

/-- The operations on the block `x`, in order. -/
def onBlocks (x : UInt16 × UInt64) (ops : List PtrOp) (w : World) : World := ops.foldl (fun w op => op.onBlock x w) w

section Block

variable {me : SockaddrIn6} {x : UInt16 × UInt64}

theorem foldl_step_place (me : SockaddrIn6) : ∀ (ops : List PtrOp) (x : UInt16 × UInt64) (w : World),
    (ops.foldl (PtrOp.step me) (x, w)).1 = if ops.any PtrOp.isTrim then (me.addr.subid, x.2) else x
  | [], _, _ => rfl
  | op :: r, x, w => by
    rw [List.foldl_cons, PtrOp.step, foldl_step_place me r, List.any_cons, PtrOp.moves]
    cases op.isTrim <;> cases r.any PtrOp.isTrim <;> rfl

/-- As long as the address does not move, the run is one on the block it was allocated for. -/
theorem foldl_step_of_stays : ∀ (ops : List PtrOp) (w : World),
    (∀ op ∈ ops, op.isTrim = true → me.addr.subid = x.1) →
    ops.foldl (PtrOp.step me) (x, w) = (x, onBlocks x ops w)
  | [], _, _ => rfl
  | op :: r, w, h => by
    have hstay : op.moves me x = x := by
      unfold PtrOp.moves
      split
      · next ht => exact Prod.ext (h op List.mem_cons_self ht) rfl
      · rfl
    rw [List.foldl_cons, PtrOp.step, hstay]
    exact foldl_step_of_stays r _ (fun op hop => h op (List.mem_cons_of_mem _ hop))

theorem onBlocks_append (x : UInt16 × UInt64) (ops ops' : List PtrOp) (w : World) :
    onBlocks x (ops ++ ops') w = onBlocks x ops' (onBlocks x ops w) := List.foldl_append

/-- The first `n` bytes of the block are zero. -/
def Zeroed (x : UInt16 × UInt64) (n : Nat) (w : World) : Prop := ∀ k < n, (w.1 x.1).mem (x.2.toNat + k) = 0

theorem zeroed_trim (x : UInt16 × UInt64) (size : UInt64) (w : World) :
    Zeroed x size.toNat ((PtrOp.trim size).onBlock x w) := by
  intro k hk
  show (update w.1 x.1 ((w.1 x.1).trim x.2 size) x.1).mem _ = 0
  rw [update_self]
  exact if_pos ⟨Nat.le_add_right .., by omega⟩

theorem Zeroed.onBlock {n : Nat} {w : World} (h : Zeroed x n w) {op : PtrOp} (hop : op.isWrite = false) :
    Zeroed x n (op.onBlock x w) := by
  cases op with
  | read rxBuf length => exact h
  | write payload length => cases hop
  | trim size =>
    intro k hk
    show (update w.1 x.1 ((w.1 x.1).trim x.2 size) x.1).mem _ = 0
    rw [update_self]
    show zeroBytes _ _ _ _ = 0
    unfold zeroBytes
    split
    · rfl
    · exact h k hk

theorem Zeroed.onBlocks {n : Nat} : ∀ {ops : List PtrOp} {w : World}, Zeroed x n w →
    (∀ op ∈ ops, op.isWrite = false) → Zeroed x n (onBlocks x ops w)
  | [], _, h, _ => h
  | op :: _, _, h, hops =>
    (h.onBlock (hops op List.mem_cons_self)).onBlocks (fun op' hop' => hops op' (List.mem_cons_of_mem _ hop'))

/-- **After a trim a read gives zeros**, as far as the trim went, until the next write. -/
theorem read_after_trim (x : UInt16 × UInt64) (ops : List PtrOp) (size : UInt64) {mid : List PtrOp} (rxBuf : Nat)
    (length : UInt16) (w : World) (hmid : ∀ op ∈ mid, op.isWrite = false) {k : Nat} (hk : k < size.toNat)
    (hlen : k < length.toNat) :
    (onBlocks x (ops ++ .trim size :: (mid ++ [.read rxBuf length])) w).2 (rxBuf + k) = 0 := by
  have hz := (zeroed_trim x size (onBlocks x ops w)).onBlocks hmid
  rw [onBlocks_append]
  show (onBlocks x (mid ++ [_]) _).2 _ = 0
  rw [onBlocks_append]
  show writeBytes _ rxBuf (readBytes _ _ _) _ = 0
  rw [writeBytes_of_lt _ _ (by rwa [length_readBytes]), getD_readBytes _ _ hlen]
  exact hz k hk

end Block

/-! ## The pointer stays valid -/

/-- After the operations the address names the block it was allocated for, the servers and the caller are as after those
operations on that block, and a read after a trim, without a write in between, has given zeros. -/
def StaysValid (B : Nat) (C : Cluster) (alloc : Server → Nat → UInt64) (fifo : Prop) (me targetIp : SockaddrIn6)
    (ops : List PtrOp) : Prop :=
  ∀ (mem : Nat → UInt8) (st : UInt16 → Server),
    Runs (rmemNet B C alloc fifo) (useRmem me targetIp mem ops) st (fun r st' =>
      place r.2.addr = place r.1 ∧
      (st', r.2.mem) = onBlocks (place r.1) ops
        (update st targetIp.addr.subid ((st targetIp.addr.subid).calloc r.1.paddr B), mem) ∧
      ∀ (ops' : List PtrOp) (size : UInt64) (mid : List PtrOp) (rxBuf : Nat) (length : UInt16),
        ops = ops' ++ .trim size :: (mid ++ [.read rxBuf length]) → (∀ op ∈ mid, op.isWrite = false) →
        ∀ k < min (min size.toNat B) length.toNat, r.2.mem (rxBuf + k) = 0)

end Rmem
end Bb
