import BlueBridge.Vmem
/-!
# VmemFault — the five fault handlers, the flush and the accesses (`ip6/lib/vmem/page_table.c`)

`mprotect` and `remap_file_pages` are taken at their word: virtual page `p` shows frame `pageMapping p` with the rights
`pageBits p`.  A load or a store the rights refuse faults, runs the policy's handler and is tried again (`access`).  The
shared memory object has `npages` blocks (`ftruncate`), so a frame behind them has no memory, and reading or writing it
ends the process (`SIGBUS`).  `rand()` answers from a stream.
-/
namespace Bb
namespace Vmem

open Function (update)

inductive Policy where
  | fifo | lru | lfu | rand | ffifo
  deriving DecidableEq, Repr

/-- The process: the shared table, the running thread, and what `rand()` will answer. -/
structure Machine (S : Type) (B : Nat) where
  pt : PageTable S B
  th : Thread
  rands : Nat → Nat
  calls : Nat

section Handlers

variable {B npages : Nat} (bs : BackingStore B npages)

/-! ## Entries and blocks -/

def pageTableGetEntry {S : Type} (m : Machine S B) (page : Nat) : Option (Nat × Prot) :=
  if page ≥ m.pt.npages then none else some (m.pt.pageMapping page, m.pt.pageBits page)

def PageTable.setEntry {S : Type} (pt : PageTable S B) (page frame : Nat) (bits : Prot) : PageTable S B :=
  { pt with pageMapping := update pt.pageMapping page frame, pageBits := update pt.pageBits page bits }

def pageTableSetEntry {S : Type} (m : Machine S B) (page frame : Nat) (bits : Prot) : Option (Machine S B) :=
  if page ≥ m.pt.npages then none
  else if frame < m.th.startFrame ∨ frame ≥ m.th.endFrame then none
  else some { m with pt := m.pt.setEntry page frame bits }

def PageTable.readBlock (pt : PageTable bs.State B) (page frame : Nat) : PageTable bs.State B :=
  let r := bs.read pt.store page
  { pt with physmem := update pt.physmem frame r.1, store := r.2 }

def PageTable.writeBlock (pt : PageTable bs.State B) (page frame : Nat) : PageTable bs.State B :=
  { pt with store := bs.write pt.store page (pt.physmem frame) }

/-- `readData(page, &physmem[frame*BLOCK_SIZE])`, if the frame has memory. -/
def readData (m : Machine bs.State B) (page frame : Nat) : Option (Machine bs.State B) :=
  if frame < m.pt.npages then some { m with pt := m.pt.readBlock bs page frame } else none

def writeData (m : Machine bs.State B) (page frame : Nat) : Option (Machine bs.State B) :=
  if frame < m.pt.npages then some { m with pt := m.pt.writeBlock bs page frame } else none

/-- `if (bits == (PROT_READ|PROT_WRITE)) writeData(…)`: only a page that has been written goes back. -/
def writeBack (m : Machine bs.State B) (page frame : Nat) (bits : Prot) : Option (Machine bs.State B) :=
  if bits = .readWrite then writeData bs m page frame else some m

/-- What every handler does with its victim: write it back, read `page` over it, exchange the two entries. -/
def replacePage (m : Machine bs.State B) (page tempPage : Nat) : Option (Machine bs.State B) := do
  let (frame, bits) ← pageTableGetEntry m tempPage
  let m ← writeBack bs m tempPage frame bits
  let m ← readData bs m page frame
  let m ← pageTableSetEntry m page frame .read
  pageTableSetEntry m tempPage frame .none

/-- What every handler does with a free frame. -/
def fillFrame (m : Machine bs.State B) (page i : Nat) : Option (Machine bs.State B) := do
  let m ← pageTableSetEntry m page i .read
  readData bs m page i

/-! ## The handlers -/

def lruPageFaultHandler (m : Machine bs.State B) (page : Nat) : Option (Machine bs.State B) := do
  let n := m.pt.nframes
  let (frame, bits) ← pageTableGetEntry m page
  if bits = .none then
    if m.th.dllList.count < n then
      let i := m.th.dllList.count + m.th.startFrame
      let (l, node) ← createdllListNode m.th.dllList page
      let h := insertHashNode n m.th.hashTable page node
      fillFrame bs { m with th := { m.th with dllList := l, hashTable := h } } page i
    else
      let (h, l, victim) ← deleteLRU n m.th.hashTable m.th.dllList
      let tempPage := victim.getD 0
      let m ← replacePage bs { m with th := { m.th with dllList := l, hashTable := h } } page tempPage
      let (l, node) ← createdllListNode m.th.dllList page
      let h := insertHashNode n m.th.hashTable page node
      some { m with th := { m.th with dllList := l, hashTable := h } }
  else
    let node ← getHashNode n m.th.hashTable page
    let l ← moveListNodeToFront m.th.dllList node
    pageTableSetEntry { m with th := { m.th with dllList := l } } page frame .readWrite

def lfuPageFaultHandler (m : Machine bs.State B) (page : Nat) : Option (Machine bs.State B) := do
  let n := m.pt.nframes
  let (frame, bits) ← pageTableGetEntry m page
  if bits = .none then
    if m.th.freqList.count < n then
      let i := m.th.freqList.count + m.th.startFrame
      let (f, node) ← createlfuListNode m.th.freqList page
      let h := insertHashNode n m.th.hashTable page node
      fillFrame bs { m with th := { m.th with freqList := f, hashTable := h } } page i
    else
      let (h, f, victim) ← deleteLFU n m.th.hashTable m.th.freqList
      let tempPage := victim.getD 0
      let m ← replacePage bs { m with th := { m.th with freqList := f, hashTable := h } } page tempPage
      let (f, node) ← createlfuListNode m.th.freqList page
      let h := insertHashNode n m.th.hashTable page node
      some { m with th := { m.th with freqList := f, hashTable := h } }
  else
    let node ← getHashNode n m.th.hashTable page
    let f ← moveNodeToNextFreq m.th.freqList node
    pageTableSetEntry { m with th := { m.th with freqList := f } } page frame .readWrite

/-- `frameState` is an `int` array: an age that leaves its range is undefined. -/
def intMax : Int := 2147483647

/-- The first loop of FIFO: every frame in use ages by one fault. -/
def ageFrames (frameState : Nat → Int) : List Nat → Option (Nat → Int)
  | []     => some frameState
  | i :: r =>
    if frameState i ≠ 0 then
      if frameState i = intMax then none else ageFrames (update frameState i (frameState i + 1)) r
    else ageFrames frameState r

/-- The loop that picks the oldest frame: `value` and `frame` are the maximum so far. -/
def oldestFrame (frameState : Nat → Int) : List Nat → Int → Nat → Nat
  | [],     _,     frame => frame
  | i :: r, value, frame =>
    if frameState i > value then oldestFrame frameState r (frameState i) i else oldestFrame frameState r value frame

def threadFrames (t : Thread) : List Nat := List.range' t.startFrame (t.endFrame - t.startFrame)

def setFrame {S : Type} (m : Machine S B) (i page : Nat) : Machine S B :=
  { m with pt := { m.pt with frameState := update m.pt.frameState i 1, framePage := update m.pt.framePage i page } }

def fifoPageFaultHandler (m : Machine bs.State B) (page : Nat) : Option (Machine bs.State B) := do
  let (frame, bits) ← pageTableGetEntry m page
  let frameState ← ageFrames m.pt.frameState (threadFrames m.th)
  let m := { m with pt := { m.pt with frameState := frameState } }
  if bits = .none then
    match (threadFrames m.th).find? (fun i => m.pt.frameState i == 0) with
    | some i => fillFrame bs (setFrame m i page) page i
    | none =>
      let frame := oldestFrame m.pt.frameState (threadFrames m.th) 0 frame
      let tempPage := m.pt.framePage frame
      let (frame, _) ← pageTableGetEntry m tempPage
      let m ← replacePage bs m page tempPage
      some (setFrame m frame page)
  else
    let m ← pageTableSetEntry m page frame .readWrite
    some (setFrame m frame page)

/-- RAND's probe for a bucket that is not empty.  The walk is cyclic, so one that has seen all `nframes` buckets empty
never ends. -/
def probeBucket (h : HashTable) (nframes : Nat) : Nat → Nat → Option Nat
  | 0,        _         => none
  | fuel + 1, randIndex =>
    if (h.table randIndex).head = 0 then
      probeBucket h nframes fuel (if randIndex + 1 > nframes - 1 then 0 else randIndex + 1)
    else some randIndex

def randPageFaultHandler (m : Machine bs.State B) (page : Nat) : Option (Machine bs.State B) := do
  let n := m.pt.nframes
  let (frame, bits) ← pageTableGetEntry m page
  if bits = .none then
    if m.th.count < n then
      let i := m.th.count + m.th.startFrame
      let h := insertHashNode n m.th.hashTable page 0
      let m ← fillFrame bs { m with th := { m.th with hashTable := h } } page i
      some { m with th := { m.th with count := m.th.count + 1 } }
    else
      let randIndex ← probeBucket m.th.hashTable n n (m.rands m.calls % n)
      let c ← m.th.hashTable.nodes.cell (m.th.hashTable.table randIndex).head
      let tempPage := c.key
      let m ← replacePage bs { m with calls := m.calls + 1 } page tempPage
      let h ← deleteHashNode n m.th.hashTable tempPage
      let h := insertHashNode n h page 0
      some { m with th := { m.th with hashTable := h } }
  else
    pageTableSetEntry m page frame .readWrite

def ffifoPageFaultHandler (m : Machine bs.State B) (page : Nat) : Option (Machine bs.State B) := do
  let n := m.pt.nframes
  let (frame, bits) ← pageTableGetEntry m page
  if bits = .none then
    if m.th.dllList.count < n then
      let i := m.th.dllList.count + m.th.startFrame
      let (l, node) ← createdllListNode m.th.dllList page
      let h := insertHashNode n m.th.hashTable page node
      fillFrame bs { m with th := { m.th with dllList := l, hashTable := h } } page i
    else
      let t ← m.th.dllList.nodes.cell m.th.dllList.tail
      let tempPage := t.val
      let h ← deleteHashNode n m.th.hashTable tempPage
      let l ← deletedllListNode m.th.dllList m.th.dllList.tail
      let m ← replacePage bs { m with th := { m.th with dllList := l, hashTable := h } } page tempPage
      let (l, node) ← createdllListNode m.th.dllList page
      let h := insertHashNode n m.th.hashTable page node
      some { m with th := { m.th with dllList := l, hashTable := h } }
  else
    pageTableSetEntry m page frame .readWrite

def pageFaultHandler : Policy → Machine bs.State B → Nat → Option (Machine bs.State B)
  | .fifo  => fifoPageFaultHandler bs
  | .lru   => lruPageFaultHandler bs
  | .lfu   => lfuPageFaultHandler bs
  | .rand  => randPageFaultHandler bs
  | .ffifo => ffifoPageFaultHandler bs

/-! ## The flush -/

/-- One page of `page_table_flush`: written back if it was written, and out of the table. -/
def flushPage (m : Machine bs.State B) (tempPage : Nat) : Option (Machine bs.State B) := do
  let (frame, bits) ← pageTableGetEntry m tempPage
  let m ← writeBack bs m tempPage frame bits
  pageTableSetEntry m tempPage frame .none

def flushFifo : List Nat → Machine bs.State B → Option (Machine bs.State B)
  | [],     m => some m
  | i :: r, m => do
    let tempPage := m.pt.framePage i
    let (frame, _) ← pageTableGetEntry m tempPage
    let m ← flushPage bs m tempPage
    flushFifo r { m with pt := { m.pt with frameState := update m.pt.frameState frame 0 } }

/-- `while (dllList->count > 0)`: each turn takes one node, so `count` turns are all there are.  With `count` positive
and no tail, `tempPage` would be read uninitialised. -/
def flushDll : Nat → Machine bs.State B → Option (Machine bs.State B)
  | 0,        m => if m.th.dllList.count > 0 then none else some m
  | fuel + 1, m =>
    if m.th.dllList.count > 0 then do
      let (h, l, victim) ← deleteLRU m.pt.nframes m.th.hashTable m.th.dllList
      let tempPage ← victim
      let m ← flushPage bs { m with th := { m.th with dllList := l, hashTable := h } } tempPage
      flushDll fuel m
    else some m

def flushLfu : Nat → Machine bs.State B → Option (Machine bs.State B)
  | 0,        m => if m.th.freqList.count > 0 then none else some m
  | fuel + 1, m =>
    if m.th.freqList.count > 0 then do
      let (h, f, victim) ← deleteLFU m.pt.nframes m.th.hashTable m.th.freqList
      let tempPage ← victim
      let m ← flushPage bs { m with th := { m.th with freqList := f, hashTable := h } } tempPage
      flushLfu fuel m
    else some m

/-- The inner `while` of RAND's flush: bucket `i` is emptied from its head. -/
def flushBucket (i : Nat) : Nat → Machine bs.State B → Option (Machine bs.State B)
  | 0,        m => if (m.th.hashTable.table i).head = 0 then some m else none
  | fuel + 1, m =>
    if (m.th.hashTable.table i).head = 0 then some m
    else do
      let c ← m.th.hashTable.nodes.cell (m.th.hashTable.table i).head
      let tempPage := c.key
      let m ← flushPage bs m tempPage
      let h ← deleteHashNode m.pt.nframes m.th.hashTable tempPage
      flushBucket i fuel { m with th := { m.th with hashTable := h } }

def flushRand : List Nat → Machine bs.State B → Option (Machine bs.State B)
  | [],     m => some m
  | i :: r, m => do
    let m ← if (m.th.hashTable.table i).count = 0 then some m
      else flushBucket bs i m.th.hashTable.nodes.brk m
    flushRand r m

def pageTableFlush : Policy → Machine bs.State B → Option (Machine bs.State B)
  | .fifo,  m => flushFifo bs (List.range m.pt.nframes) m
  | .lru,   m => flushDll bs m.th.dllList.count m
  | .ffifo, m => flushDll bs m.th.dllList.count m
  | .lfu,   m => flushLfu bs m.th.freqList.count m
  | .rand,  m => flushRand bs (List.range m.pt.nframes) m

/-! ## Start, accesses and runs -/

/-- `init_virtual_memory`: nothing mapped, every structure fresh from `calloc`, the frames whatever the shared memory
object holds.  It has `npages` blocks, also if there are more frames. -/
def initVirtualMemory (nframes : Nat) (store : bs.State) (physmem : Nat → Block B) (rands : Nat → Nat) :
    Machine bs.State B where
  pt := { npages := npages, nframes := nframes, pageMapping := fun _ => 0, pageBits := fun _ => .none,
          physmem := physmem, frameState := fun _ => 0, framePage := fun _ => 0, store := store }
  th := { startFrame := 0, endFrame := nframes, count := 0, hashTable := HashTable.calloc,
          dllList := DllList.calloc, freqList := FreqList.calloc }
  rands := rands
  calls := 0

/-- Whether the rights of a page allow a load (`write = false`) or a store. -/
def Prot.allows : Prot → Bool → Bool
  | .none,      _ => false
  | .read,      w => !w
  | .readWrite, _ => true

/-- The access, fault and retry loop at the byte `a` of the virtual memory; `fuel` bounds the retries.  Beyond the last
page the loop is given up at once: if the address faults, `internal_fault_handler` aborts, but `physmem` is mapped next
to `virtmem`, and an address of it does not fault. -/
def access (pol : Policy) (a : Nat) (write : Bool) : Nat → Machine bs.State B → Option (Machine bs.State B)
  | 0,        _ => none
  | fuel + 1, m =>
    if a / B < m.pt.npages then
      if (m.pt.pageBits (a / B)).allows write then some m
      else do
        let m ← pageFaultHandler bs pol m (a / B)
        access pol a write fuel m
    else none

inductive Op where
  | load (a : Nat)
  | store (a : Nat) (v : UInt8)
  | flush
  deriving Repr

variable [NeZero B]

/-- What the byte `a` of the virtual memory shows, once its page may be read. -/
def loadByte {S : Type} (m : Machine S B) (a : Nat) : UInt8 :=
  m.pt.physmem (m.pt.pageMapping (a / B)) (Fin.ofNat B a)

def storeByte {S : Type} (m : Machine S B) (a : Nat) (v : UInt8) : Machine S B :=
  let f := m.pt.pageMapping (a / B)
  { m with pt := { m.pt with
      physmem := update m.pt.physmem f (fun o => if o = Fin.ofNat B a then v else m.pt.physmem f o) } }

/-- One operation of the program, and the byte a load returns. -/
def execOp (pol : Policy) (fuel : Nat) (m : Machine bs.State B) : Op → Option (Machine bs.State B × Option UInt8)
  | .load a    => do
    let m ← access bs pol a false fuel m
    some (m, some (loadByte m a))
  | .store a v => do
    let m ← access bs pol a true fuel m
    some (storeByte m a v, none)
  | .flush     => do
    let m ← pageTableFlush bs pol m
    some (m, none)

/-- A program of loads, stores and flushes; `none` when one of them does not complete. -/
def runOps (pol : Policy) (fuel : Nat) : Machine bs.State B → List Op → Option (Machine bs.State B)
  | m, []        => some m
  | m, op :: ops => do
    let (m, _) ← execOp bs pol fuel m op
    runOps pol fuel m ops

end Handlers

end Vmem
end Bb
