import BlueBridge.Cells
/-!
# Vmem — the page table and its lists (`ip6/lib/vmem/page_table.c`, `page_table.h`)

The data of the user-level virtual memory, and the helpers its fault handlers are written with.  `PageTable` is what
the process shares (the table, the frames, FIFO's two arrays and the backing store); `Thread` is what the source
declares `__thread`.  An `abort()`, a dereference of `NULL` or of freed memory and a read of an uninitialised variable
are `none`.

A frame is a block of `B = BLOCK_SIZE` bytes.  The backing store is whatever `readData` and `writeData` dispatch to
(`mem`, `rmem`, `disk`, `rrmem`), as long as it behaves as an array of `npages` blocks (`BackingStore`).
The statistics (`pageFaults`, `pageReads`, `pageWrites`) are read by nothing but `print_page_faults` and are left out.
-/
namespace Bb
namespace Vmem

open Cells (Heap Node)
open Function (update)

abbrev Block (B : Nat) := Fin B → UInt8

/-- `page_bits`: the three values of `PROT_READ | PROT_WRITE` the handlers write. -/
inductive Prot where
  | none | read | readWrite
  deriving DecidableEq, Repr

/-- **A backing store that behaves as an array of `npages` blocks.**  A read may change the state (the remote stores
rewrite their address structs), not the contents. -/
structure BackingStore (B npages : Nat) where
  State : Type
  content : State → Nat → Block B
  read : State → Nat → Block B × State
  write : State → Nat → Block B → State
  read_val : ∀ s p, p < npages → (read s p).1 = content s p
  read_content : ∀ s p q, p < npages → q < npages → content (read s p).2 q = content s q
  write_content : ∀ s p b q, p < npages → q < npages → content (write s p b) q = if q = p then b else content s q

/-- `mem.c`: the blocks in local memory. -/
def memStore (B npages : Nat) : BackingStore B npages where
  State := Nat → Block B
  content := fun s => s
  read := fun s p => (s p, s)
  write := fun s p b => update s p b
  read_val := fun _ _ _ => rfl
  read_content := fun _ _ _ _ _ => rfl
  write_content := fun _ _ _ _ _ _ => Function.update_apply ..

/-! ## The shared table and the thread's own structures -/

structure PageTable (S : Type) (B : Nat) where
  npages : Nat
  nframes : Nat
  pageMapping : Nat → Nat
  pageBits : Nat → Prot
  physmem : Nat → Block B
  frameState : Nat → Int
  framePage : Nat → Nat
  store : S

structure HashNode where
  key : Nat
  next : Nat
  listNodePointer : Nat

structure Hash where
  head : Nat
  count : Int

/-- The bucket array and the nodes chained from it. -/
structure HashTable where
  table : Nat → Hash
  nodes : Heap HashNode

/-- `struct dllList` and its nodes; a node's payload is its key. -/
structure DllList where
  head : Nat
  tail : Nat
  count : Nat
  nodes : Heap (Node Nat)

structure LfuVal where
  key : Nat
  parent : Nat

structure FreqVal where
  useCount : Nat
  head : Nat
  tail : Nat

/-- `struct freqList`, its buckets and their nodes. -/
structure FreqList where
  head : Nat
  count : Nat
  freqs : Heap (Node FreqVal)
  nodes : Heap (Node LfuVal)

structure Thread where
  startFrame : Nat
  endFrame : Nat
  count : Nat
  hashTable : HashTable
  dllList : DllList
  freqList : FreqList

def HashTable.calloc : HashTable := ⟨fun _ => ⟨0, 0⟩, Heap.empty⟩
def DllList.calloc : DllList := ⟨0, 0, 0, Heap.empty⟩
def FreqList.calloc : FreqList := ⟨0, 0, Heap.empty, Heap.empty⟩

/-! ## The hash table -/

def hashFunction (nframes key : Nat) : Nat := key % nframes

def insertHashNode (nframes : Nat) (h : HashTable) (key listnodePointer : Nat) : HashTable :=
  let hashIndex := hashFunction nframes key
  let newnode := h.nodes.brk
  if (h.table hashIndex).head = 0 then
    { table := update h.table hashIndex ⟨newnode, 1⟩
      nodes := h.nodes.malloc ⟨key, 0, listnodePointer⟩ }
  else
    { table := update h.table hashIndex ⟨newnode, (h.table hashIndex).count + 1⟩
      nodes := h.nodes.malloc ⟨key, (h.table hashIndex).head, listnodePointer⟩ }

/-- The `while` of `deleteHashNode`: `temp` trails `myNode`.  A chain has fewer nodes than `malloc` has handed out, so
a walk that has not ended after `nodes.brk` steps never does. -/
def deleteHashWalk (hashIndex key : Nat) : Nat → HashTable → Nat → Nat → Option HashTable
  | 0,        h, _,    myNode => if myNode = 0 then some h else none
  | fuel + 1, h, temp, myNode =>
    if myNode = 0 then some h
    else do
      let c ← h.nodes.cell myNode
      if c.key = key then
        let h ← if myNode = (h.table hashIndex).head then
            some { h with table := update h.table hashIndex { h.table hashIndex with head := c.next } }
          else do
            let nodes ← h.nodes.modify temp (fun d => { d with next := c.next })
            some { h with nodes := nodes }
        let table := update h.table hashIndex { h.table hashIndex with count := (h.table hashIndex).count - 1 }
        let nodes ← h.nodes.free myNode
        some { table := table, nodes := nodes }
      else deleteHashWalk hashIndex key fuel h myNode c.next

def deleteHashNode (nframes : Nat) (h : HashTable) (key : Nat) : Option HashTable :=
  let hashIndex := hashFunction nframes key
  deleteHashWalk hashIndex key h.nodes.brk h (h.table hashIndex).head (h.table hashIndex).head

/-- The `while` of `getHashNode`, then `myNode->listNodePointer`: a key that is not in the chain dereferences `NULL`. -/
def getHashWalk (h : HashTable) (key : Nat) : Nat → Nat → Option Nat
  | 0,        _      => none
  | fuel + 1, myNode => do
    let c ← h.nodes.cell myNode
    if c.key = key then some c.listNodePointer else getHashWalk h key fuel c.next

def getHashNode (nframes : Nat) (h : HashTable) (key : Nat) : Option Nat :=
  let myNode := (h.table (hashFunction nframes key)).head
  if myNode = 0 then some 0 else getHashWalk h key h.nodes.brk myNode

/-! ## The doubly linked list of LRU and FFIFO -/

def createdllListNode (l : DllList) (key : Nat) : Option (DllList × Nat) := do
  let newnode := l.nodes.brk
  let nodes := l.nodes.malloc ⟨key, l.head, 0⟩
  if l.count > 0 then
    let nodes ← nodes.modify l.head (fun c => { c with prev := newnode })
    some ({ head := newnode, tail := l.tail, count := l.count + 1, nodes := nodes }, newnode)
  else
    some ({ head := newnode, tail := newnode, count := l.count + 1, nodes := nodes }, newnode)

def moveListNodeToFront (l : DllList) (node : Nat) : Option DllList := do
  if l.head = node then
    some l
  else
    let nodes ← l.nodes.unlink node
    let n ← nodes.cell node
    let tail := if l.tail = node then n.prev else l.tail
    let nodes ← nodes.modify node (fun c => { c with next := l.head, prev := 0 })
    if l.count > 1 then
      let nodes ← nodes.modify l.head (fun c => { c with prev := node })
      some { l with head := node, tail := tail, nodes := nodes }
    else
      some { l with head := node, tail := node, nodes := nodes }

def deletedllListNode (l : DllList) (node : Nat) : Option DllList := do
  let n ← l.nodes.cell node
  let head := if node = l.head then n.next else l.head
  let tail := if node = l.tail then n.prev else l.tail
  let nodes ← l.nodes.unlink node
  let nodes ← nodes.free node
  some { head := head, tail := tail, count := l.count - 1, nodes := nodes }

/-- The key and the page written to `*page`, `none` when the list is empty and `*page` is left as it is. -/
def deleteLRU (nframes : Nat) (h : HashTable) (l : DllList) : Option (HashTable × DllList × Option Nat) := do
  if l.tail ≠ 0 then
    let t ← l.nodes.cell l.tail
    let h ← deleteHashNode nframes h t.val
    let l ← deletedllListNode l l.tail
    some (h, l, some t.val)
  else
    some (h, l, none)

/-! ## The frequency list of LFU -/

def createlfuListNode (f : FreqList) (key : Nat) : Option (FreqList × Nat) := do
  let newnode := f.nodes.brk
  match f.freqs.cell f.head with
  | some ⟨⟨0, first, tail⟩, nx, pv⟩ =>
    let nodes := f.nodes.malloc ⟨⟨key, f.head⟩, first, 0⟩
    let nodes ← nodes.modify first (fun c => { c with prev := newnode })
    let freqs := f.freqs.set f.head ⟨⟨0, newnode, tail⟩, nx, pv⟩
    some ({ f with count := f.count + 1, freqs := freqs, nodes := nodes }, newnode)
  | some _ | none =>
    let newFreqNode := f.freqs.brk
    let freqs := f.freqs.malloc ⟨⟨0, newnode, newnode⟩, f.head, 0⟩
    let freqs ← freqs.linkPrev f.head newFreqNode
    let nodes := f.nodes.malloc ⟨⟨key, newFreqNode⟩, 0, 0⟩
    some ({ head := newFreqNode, count := f.count + 1, freqs := freqs, nodes := nodes }, newnode)

/-- The first part of `moveNodeToNextFreq`: the bucket after `parent` is made to be the one for one more use. -/
def makeNextFreq (f : FreqList) (parent : Nat) : Option FreqList := do
  let p ← f.freqs.cell parent
  let newFreqNode := f.freqs.brk
  if p.next = 0 then
    let freqs := f.freqs.malloc ⟨⟨p.val.useCount + 1, 0, 0⟩, 0, parent⟩
    let freqs ← freqs.modify parent (fun c => { c with next := newFreqNode })
    some { f with freqs := freqs }
  else
    let nx ← f.freqs.cell p.next
    if nx.val.useCount > p.val.useCount + 1 then
      let freqs := f.freqs.malloc ⟨⟨p.val.useCount + 1, 0, 0⟩, p.next, parent⟩
      let freqs ← freqs.modify p.next (fun c => { c with prev := newFreqNode })
      let freqs ← freqs.modify parent (fun c => { c with next := newFreqNode })
      some { f with freqs := freqs }
    else
      some f

/-- `node` leaves the node list of its bucket; the bucket's ends move off it. -/
def leaveFreq (f : FreqList) (node : Nat) : Option FreqList := do
  let n ← f.nodes.cell node
  let nodes ← f.nodes.unlink node
  let freqs ← f.freqs.modify n.val.parent (fun p =>
    { p with val := { p.val with head := if p.val.head = node then n.next else p.val.head,
                                 tail := if p.val.tail = node then n.prev else p.val.tail } })
  some { f with freqs := freqs, nodes := nodes }

/-- `node` becomes the first node of bucket `parent`. -/
def enterFreq (f : FreqList) (node parent : Nat) : Option FreqList := do
  let p ← f.freqs.cell parent
  let nodes ← f.nodes.linkPrev p.val.head node
  let nodes ← nodes.modify node (fun c => ⟨{ c.val with parent := parent }, p.val.head, 0⟩)
  let freqs ← f.freqs.modify parent (fun c =>
    { c with val := { c.val with head := node, tail := if c.val.tail = 0 then node else c.val.tail } })
  some { f with freqs := freqs, nodes := nodes }

/-- The last part of `moveNodeToNextFreq`: the bucket `temp` the node left goes when it is empty. -/
def dropFreq (f : FreqList) (temp : Nat) : Option FreqList := do
  let t ← f.freqs.cell temp
  if t.val.head = 0 then
    let head := if temp = f.head then t.next else f.head
    let freqs ← f.freqs.unlink temp
    let freqs ← freqs.free temp
    some { f with head := head, freqs := freqs }
  else
    some f

def moveNodeToNextFreq (f : FreqList) (node : Nat) : Option FreqList := do
  let n ← f.nodes.cell node
  let temp := n.val.parent
  let f ← makeNextFreq f temp
  let f ← leaveFreq f node
  let p ← f.freqs.cell temp
  let f ← enterFreq f node p.next
  dropFreq f temp

/-- An emptied bucket that is the head is stepped over and keeps its memory; the two writes to its own links change
nothing that is read again. -/
def deletelfuListNode (f : FreqList) (node : Nat) : Option FreqList := do
  let n ← f.nodes.cell node
  let f ← leaveFreq f node
  let p ← f.freqs.cell n.val.parent
  let f ← if p.val.head = 0 then do
      let freqs ← f.freqs.modify n.val.parent (fun c => { c with prev := c.next })
      some { f with head := if n.val.parent = f.head then p.next else f.head, freqs := freqs }
    else
      some f
  let nodes ← f.nodes.free node
  some { f with count := f.count - 1, nodes := nodes }

def deleteLFU (nframes : Nat) (h : HashTable) (f : FreqList) : Option (HashTable × FreqList × Option Nat) := do
  if f.head ≠ 0 then
    let hd ← f.freqs.cell f.head
    let t ← f.nodes.cell hd.val.tail
    let h ← deleteHashNode nframes h t.val.key
    let f ← deletelfuListNode f hd.val.tail
    some (h, f, some t.val.key)
  else
    some (h, f, none)

end Vmem
end Bb
