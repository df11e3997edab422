import BlueBridge.Bytes
import BlueBridge.VmemThreads
/-!
# VmemProgram — a program does not see that it is paged

What a program loads next may depend on what it has loaded before, so a program is a tree of accesses (`Code`).  It runs
on an array of bytes (`flat`), if it keeps to it, and on the virtual memory (`paged`).  Between two accesses the table
stands for an array (`Backs`); an access that the array has gets through and leaves it standing for the array the access
makes.  So the two runs return the same value and leave the same memory (`paged_eq_flat`).

Of a program that leaves the array nothing is said: `physmem` is mapped next to `virtmem`, so that such an access need not
fault.
-/
namespace Bb
namespace Vmem

open Bytes
open Function (update)

/-! ## Programs -/

inductive Code (α : Type) where
  | ret (a : α)
  | load (a : Nat) (k : UInt8 → Code α)
  | store (a : Nat) (v : UInt8) (k : Code α)

namespace Code

variable {α β σ : Type}

protected def bind : Code α → (α → Code β) → Code β
  | .ret a,       f => f a
  | .load a k,    f => .load a (fun v => (k v).bind f)
  | .store a v k, f => .store a v (k.bind f)

instance : Monad Code where
  pure := .ret
  bind := Code.bind

/-- `data[a]`, read and written. -/
def read (a : Nat) : Code UInt8 := .load a .ret
def write (a : Nat) (v : UInt8) : Code Unit := .store a v (.ret ())

/-- A `for` loop over a list of indices, with what it carries. -/
def loop (f : σ → Nat → Code σ) : List Nat → σ → Code σ
  | [],     s => .ret s
  | i :: r, s => (f s i).bind (loop f r)

/-- The run on an array of `size` bytes; `none` if it leaves the array. -/
def flat (size : Nat) : Code α → (Nat → UInt8) → Option (α × (Nat → UInt8))
  | .ret a,       mem => some (a, mem)
  | .load a k,    mem => if a < size then (k (mem a)).flat size mem else none
  | .store a v k, mem => if a < size then k.flat size (update mem a v) else none

theorem flat_read {a size : Nat} (h : a < size) (mem : Nat → UInt8) : (read a).flat size mem = some (mem a, mem) :=
  if_pos h

theorem flat_write {a size : Nat} (h : a < size) (v : UInt8) (mem : Nat → UInt8) :
    (write a v).flat size mem = some ((), update mem a v) := if_pos h

theorem flat_bind (size : Nat) (f : α → Code β) : ∀ (c : Code α) (mem : Nat → UInt8),
    (c.bind f).flat size mem = (c.flat size mem).bind (fun x => (f x.1).flat size x.2)
  | .ret a, mem => rfl
  | .load a k, mem => by
    simp only [Code.bind, flat]
    split
    · exact flat_bind size f _ mem
    · rfl
  | .store a v k, mem => by
    simp only [Code.bind, flat]
    split
    · exact flat_bind size f _ _
    · rfl

end Code

variable {B npages : Nat} {bs : BackingStore B npages} {α : Type}

section Paged

variable [NeZero B]

/-- The run on the virtual memory; an access that faults `fuel` times is given up. -/
def Code.paged (bs : BackingStore B npages) (pol : Policy) (fuel : Nat) :
    Code α → Machine bs.State B → Option (α × Machine bs.State B)
  | .ret a,       m => some (a, m)
  | .load a k,    m => do
    let (m, r) ← execOp bs pol fuel m (.load a)
    (k (r.getD 0)).paged bs pol fuel m
  | .store a v k, m => do
    let (m, _) ← execOp bs pol fuel m (.store a v)
    k.paged bs pol fuel m

/-- The bytes the virtual memory stands for, from first to last. -/
def Machine.bytes (bs : BackingStore B npages) (m : Machine bs.State B) : List UInt8 :=
  readBytes (fun a => shown bs m.pt (a / B) (Fin.ofNat B a)) 0 (npages * B)

/-! ## The table stands for an array -/

/-- **Between two accesses**: the policy's structures are in order, no fault can fail, and the table shows `mem`. -/
structure Backs (bs : BackingStore B npages) (pol : Policy) (m : Machine bs.State B) (mem : Nat → UInt8) : Prop where
  inv : PolicyInv bs pol m
  ready : ∃ ks h, Ready bs pol m ks h
  shows : Shows bs m mem

section Access

variable {pol : Policy} {m : Machine bs.State B} {mem : Nat → UInt8} {a : Nat}

theorem Backs.frames (h : Backs bs pol m mem) : 0 < m.pt.nframes := by
  obtain ⟨ks, hs, hr⟩ := h.ready
  exact hr.frames

theorem Backs.exec {fuel : Nat} {op : Op} {m' : Machine bs.State B} {r : Option UInt8} (h : Backs bs pol m mem)
    (hop : op ≠ .flush) (he : execOp bs pol fuel m op = some (m', r)) :
    Backs bs pol m' (memAfter mem [op]) ∧ ∀ a, op = .load a → r = some (mem a) := by
  obtain ⟨hi, -, hs, hload⟩ := execOp_inv h.inv h.frames h.shows he
  exact ⟨⟨hi, ((stable_ready pol).execOp (fun hf => absurd hf hop) h.ready he).1, hs⟩, hload⟩

theorem Backs.load (h : Backs bs pol m mem) (ha : a / B < npages) (fuel : Nat) :
    ∃ m', execOp bs pol (fuel + 3) m (.load a) = some (m', some (mem a)) ∧ Backs bs pol m' mem := by
  obtain ⟨ks, hs, hr⟩ := h.ready
  obtain ⟨m₁, e₁⟩ := (hr.access ha (fuel + 1)).1
  have he : execOp bs pol (fuel + 3) m (.load a) = some (m₁, some (loadByte m₁ a)) := by
    rw [execOp, e₁]
    rfl
  obtain ⟨hb, hload⟩ := h.exec Op.noConfusion he
  rw [hload a rfl] at he
  exact ⟨m₁, he, hb⟩

theorem memAfter_store (mem : Nat → UInt8) (a : Nat) (v : UInt8) : memAfter mem [.store a v] = update mem a v := by
  funext b
  by_cases h : b = a
  · subst h
    simp [memAfter, lastStore]
  · simp [memAfter, lastStore, Ne.symm h, h]

theorem Backs.store (h : Backs bs pol m mem) (ha : a / B < npages) (v : UInt8) (fuel : Nat) :
    ∃ m' r, execOp bs pol (fuel + 3) m (.store a v) = some (m', r) ∧ Backs bs pol m' (update mem a v) := by
  obtain ⟨ks, hs, hr⟩ := h.ready
  obtain ⟨m₁, e₁⟩ := (hr.access ha fuel).2
  have he : execOp bs pol (fuel + 3) m (.store a v) = some (storeByte m₁ a v, none) := by
    rw [execOp, e₁]
    rfl
  refine ⟨_, _, he, ?_⟩
  rw [← memAfter_store]
  exact (h.exec Op.noConfusion he).1

/-- **The run on the array is gone through on the virtual memory**, access by access. -/
theorem Backs.run (fuel : Nat) : ∀ (c : Code α) {m : Machine bs.State B} {mem mem' : Nat → UInt8} {r : α},
    Backs bs pol m mem → c.flat (npages * B) mem = some (r, mem') →
    ∃ m', c.paged bs pol (fuel + 3) m = some (r, m') ∧ Backs bs pol m' mem'
  | .ret a, m, mem, mem', r, h, hf => by
    cases hf
    exact ⟨m, rfl, h⟩
  | .load a k, m, mem, mem', r, h, hf => by
    rw [Code.flat] at hf
    obtain ⟨ha, hf⟩ := Option.ite_none_right_eq_some.1 hf
    obtain ⟨m₁, e₁, h₁⟩ := h.load ((Nat.div_lt_iff_lt_mul (Nat.pos_of_neZero B)).2 ha) fuel
    rw [Code.paged, e₁]
    exact Backs.run fuel (k (mem a)) h₁ hf
  | .store a v k, m, mem, mem', r, h, hf => by
    rw [Code.flat] at hf
    obtain ⟨ha, hf⟩ := Option.ite_none_right_eq_some.1 hf
    obtain ⟨m₁, r₁, e₁, h₁⟩ := h.store ((Nat.div_lt_iff_lt_mul (Nat.pos_of_neZero B)).2 ha) v fuel
    rw [Code.paged, e₁]
    exact Backs.run fuel k h₁ hf

theorem Backs.result (h : Backs bs pol m mem) (fuel : Nat) (c : Code α) {r : α}
    (hf : (c.flat (npages * B) mem).map Prod.fst = some r) : (c.paged bs pol (fuel + 3) m).map Prod.fst = some r := by
  obtain ⟨⟨r, mem'⟩, hflat, rfl⟩ := Option.map_eq_some_iff.1 hf
  obtain ⟨m', e', -⟩ := h.run fuel c hflat
  rw [e']
  rfl

theorem Backs.bytes (h : Backs bs pol m mem) : m.bytes bs = readBytes mem 0 (npages * B) :=
  readBytes_congr (fun i hi => by
    rw [Nat.zero_add]
    exact h.shows i ((Nat.div_lt_iff_lt_mul (Nat.pos_of_neZero B)).2 hi))

/-- **Paged as flat**, in the value and in the memory. -/
theorem Backs.paged_eq (h : Backs bs pol m mem) (fuel : Nat) (c : Code α) {r : α} {mem' : Nat → UInt8}
    (hf : c.flat (npages * B) mem = some (r, mem')) :
    ∃ m', c.paged bs pol (fuel + 3) m = some (r, m') ∧ m'.bytes bs = readBytes mem' 0 (npages * B) := by
  obtain ⟨m', e', h'⟩ := h.run fuel c hf
  exact ⟨m', e', h'.bytes⟩

end Access

theorem backs_initVirtualMemory {pol : Policy} {nframes : Nat} (hn : 1 ≤ nframes) (hfit : AgesFit pol nframes npages)
    (store : bs.State) (physmem : Nat → Block B) (rands : Nat → Nat) :
    Backs bs pol (initVirtualMemory bs nframes store physmem rands) (bs.bytes store) where
  inv := initVirtualMemory_inv pol hn store physmem rands
  ready := ⟨[], [], ready_initVirtualMemory hn hfit store physmem rands⟩
  shows := fun _ _ => rfl

/-- **Paging is transparent to programs.**  On a fresh virtual memory, under every policy and whatever `rand()` answers,
a program that keeps to an array with the bytes of the backing store returns what it returns there, and leaves the same
bytes. -/
theorem paged_eq_flat (pol : Policy) {nframes : Nat} (hn : 1 ≤ nframes) (hfit : AgesFit pol nframes npages)
    (store : bs.State) (physmem : Nat → Block B) (rands : Nat → Nat) (fuel : Nat) (c : Code α) {r : α} {mem : Nat → UInt8}
    (hflat : c.flat (npages * B) (bs.bytes store) = some (r, mem)) :
    ∃ m, c.paged bs pol (fuel + 3) (initVirtualMemory bs nframes store physmem rands) = some (r, m) ∧
      m.bytes bs = readBytes mem 0 (npages * B) :=
  (backs_initVirtualMemory hn hfit store physmem rands).paged_eq fuel c hflat

/-- Two pages behind one frame: the second store turns the first page out and the last load brings it back. -/
theorem paged_eq_flat_swap :
    ∃ m, (do Code.write 1 7; Code.write 2 5; Code.read 1 : Code UInt8).paged (memStore 2 2) .fifo 3
        (initVirtualMemory (memStore 2 2) 1 (fun _ _ => 0) (fun _ _ => 0) (fun _ => 0)) = some (7, m) ∧
      m.bytes (memStore 2 2) = [0, 7, 5, 0] := by
  obtain ⟨m, e, hbytes⟩ := @paged_eq_flat 2 2 (memStore 2 2) _ _ .fifo 1 (by decide) (fun _ => by decide)
    (fun _ _ => 0) (fun _ _ => 0) (fun _ => 0) 0 (do Code.write 1 7; Code.write 2 5; Code.read 1 : Code UInt8) _ _ rfl
  exact ⟨m, e, hbytes.trans (by decide)⟩

end Paged

end Vmem
end Bb
