import BlueBridge.VmemLists
import BlueBridge.VmemScan
/-!
# VmemRun — paging is transparent

The abstract machine is a flat array of bytes.  `PolicyInv` is what a policy keeps between two faults; a fault and a
flush keep every page's bytes, a store changes one byte of one page, and a load reads the byte its page shows.  So a run
of any policy shows the flat memory that the stores of the run have made.
-/
namespace Bb
namespace Vmem

open Function (update update_self update_of_ne)

variable {B npages : Nat} {bs : BackingStore B npages}

def PolicyInv (bs : BackingStore B npages) (pol : Policy) (m : Machine bs.State B) : Prop :=
  match pol with
  | .fifo  => FifoInv bs m
  | .lru   => ∃ L, DllInv bs m L L.length
  | .ffifo => ∃ L, DllInv bs m L L.length
  | .lfu   => ∃ F, LfuInv bs m 0 F (lfuNodes F).length
  | .rand  => ∃ ks, RandInv bs m ks

theorem PolicyInv.core {pol : Policy} {m : Machine bs.State B} (h : PolicyInv bs pol m) :
    Core bs m.pt m.th.startFrame m.th.endFrame := by
  cases pol with
  | fifo  => exact h.toCore
  | lru   => obtain ⟨L, h⟩ := h; exact h.listed.toCore
  | ffifo => obtain ⟨L, h⟩ := h; exact h.listed.toCore
  | lfu   => obtain ⟨F, h⟩ := h; exact h.listed.toCore
  | rand  => obtain ⟨ks, h⟩ := h; exact h.listed.toCore

/-- `init_virtual_memory` establishes every policy's invariant. -/
theorem initVirtualMemory_inv (pol : Policy) {nframes : Nat} (hn : 0 < nframes) (store : bs.State)
    (physmem : Nat → Block B) (rands : Nat → Nat) :
    PolicyInv bs pol (initVirtualMemory bs nframes store physmem rands) := by
  have hres : ∀ p, ¬ Resident (initVirtualMemory bs nframes store physmem rands).pt p := fun p hr => hr.2 rfl
  have hcore : Core bs (initVirtualMemory bs nframes store physmem rands).pt 0 nframes :=
    ⟨rfl, fun p hr => absurd hr (hres p), fun p hr => absurd hr (hres p), fun p _ hr => absurd hr (hres p),
      fun p _ hb => by cases hb⟩
  have hlist : Listed bs (initVirtualMemory bs nframes store physmem rands).pt 0 nframes [] 0 :=
    ⟨hcore, List.nodup_nil, fun p => by simp [hres p], fun p hp => (by cases hp), (Nat.zero_add _).symm, Nat.zero_le _,
      Or.inl rfl⟩
  cases pol with
  | fifo  => exact ⟨hcore, rfl, rfl, hn, fun _ _ => hn, fun _ => Int.le_refl _, fun i _ hs => absurd rfl hs,
      fun p hr => absurd hr (hres p)⟩
  | lru   => exact ⟨[], dllRep_calloc, hashMaps_calloc _, hlist⟩
  | ffifo => exact ⟨[], dllRep_calloc, hashMaps_calloc _, hlist⟩
  | lfu   => exact ⟨[], freqRep_calloc, hashMaps_calloc _, hlist⟩
  | rand  => exact ⟨[], hashMaps_calloc _, hlist⟩

/-- **A fault keeps the policy's invariant and every page's bytes.** -/
theorem pageFaultHandler_inv {pol : Policy} {m m' : Machine bs.State B} (h : PolicyInv bs pol m)
    (hn : 0 < m.pt.nframes) {page : Nat} (hp : page < npages) (he : pageFaultHandler bs pol m page = some m') :
    PolicyInv bs pol m' ∧ Kept bs m.pt m'.pt := by
  cases pol with
  | fifo  => exact fifoPageFaultHandler_inv h hp he
  | lru   =>
    obtain ⟨L, h⟩ := h
    obtain ⟨m₁, L', e₁, hi, hk, -⟩ := lruPageFaultHandler_inv h hn hp
    cases e₁.symm.trans he
    exact ⟨⟨L', hi⟩, hk⟩
  | ffifo =>
    obtain ⟨L, h⟩ := h
    obtain ⟨m₁, L', e₁, hi, hk, -⟩ := ffifoPageFaultHandler_inv h hn hp
    cases e₁.symm.trans he
    exact ⟨⟨L', hi⟩, hk⟩
  | lfu   =>
    obtain ⟨F, h⟩ := h
    obtain ⟨m₁, F', e₁, hi, hk⟩ := lfuPageFaultHandler_inv h hn hp
    cases e₁.symm.trans he
    exact ⟨⟨F', hi⟩, hk⟩
  | rand  =>
    obtain ⟨ks, h⟩ := h
    obtain ⟨ks', hi, hk⟩ := randPageFaultHandler_inv h hp he
    exact ⟨⟨ks', hi⟩, hk⟩

/-- **So does a flush.** -/
theorem pageTableFlush_inv {pol : Policy} {m m' : Machine bs.State B} (h : PolicyInv bs pol m)
    (he : pageTableFlush bs pol m = some m') : PolicyInv bs pol m' ∧ Kept bs m.pt m'.pt := by
  cases pol with
  | fifo  => exact flushFifo_inv h he
  | lru   =>
    obtain ⟨L, h⟩ := h
    obtain ⟨m₁, e₁, hi, hk⟩ := flushDll_inv m.th.dllList.count h (Nat.le_of_eq h.dll.count.symm)
    cases e₁.symm.trans he
    exact ⟨⟨[], hi⟩, hk⟩
  | ffifo =>
    obtain ⟨L, h⟩ := h
    obtain ⟨m₁, e₁, hi, hk⟩ := flushDll_inv m.th.dllList.count h (Nat.le_of_eq h.dll.count.symm)
    cases e₁.symm.trans he
    exact ⟨⟨[], hi⟩, hk⟩
  | lfu   =>
    obtain ⟨F, h⟩ := h
    obtain ⟨m₁, e₁, hi, hk⟩ := flushLfu_inv m.th.freqList.count h (Nat.le_of_eq h.freq.count.symm)
    cases e₁.symm.trans he
    exact ⟨⟨[], hi⟩, hk⟩
  | rand  =>
    obtain ⟨ks, h⟩ := h
    obtain ⟨ks', hi, hk⟩ := flushRand_inv _ h he
    exact ⟨⟨ks', hi⟩, hk⟩

/-! ## Stores -/

/-- A frame overwritten through the page that has the right to. -/
def PageTable.poke {S : Type} (pt : PageTable S B) (page : Nat) (b : Block B) : PageTable S B :=
  { pt with physmem := update pt.physmem (pt.pageMapping page) b }

theorem Core.poke {pt : PageTable bs.State B} {s e page : Nat} (hc : Core bs pt s e) (hr : Resident pt page)
    (hw : pt.pageBits page = .readWrite) (b : Block B) : Core bs (pt.poke page b) s e := by
  refine ⟨hc.pages, hc.frame, hc.backed, hc.inj, fun q hq hqb => ?_⟩
  have hqb : pt.pageBits q = .read := hqb
  show update pt.physmem (pt.pageMapping page) b (pt.pageMapping q) = bs.content pt.store q
  have hne : pt.pageMapping q ≠ pt.pageMapping page := by
    intro heq
    have hqr : Resident pt q := ⟨by rw [hc.pages]; exact hq, by rw [hqb]; simp⟩
    rw [hc.inj q page hqr hr heq, hw] at hqb
    cases hqb
  rw [update_of_ne hne]
  exact hc.clean q hq hqb

theorem shown_poke {pt : PageTable bs.State B} {s e page : Nat} (hc : Core bs pt s e) (hr : Resident pt page)
    (b : Block B) {q : Nat} (hq : q < npages) :
    shown bs (pt.poke page b) q = if q = page then b else shown bs pt q := by
  show (if pt.pageBits q = .none then bs.content pt.store q
    else update pt.physmem (pt.pageMapping page) b (pt.pageMapping q)) = _
  by_cases hqp : q = page
  · subst hqp
    rw [if_neg hr.2, if_pos rfl, update_self]
  · rw [if_neg hqp]
    unfold shown
    by_cases hqb : pt.pageBits q = .none
    · rw [if_pos hqb, if_pos hqb]
    · have hne : pt.pageMapping q ≠ pt.pageMapping page := fun heq =>
        hqp (hc.inj q page ⟨by rw [hc.pages]; exact hq, hqb⟩ hr heq)
      rw [if_neg hqb, if_neg hqb, update_of_ne hne]

theorem Listed.poke {pt : PageTable bs.State B} {s e c page : Nat} {ks : List Nat} (h : Listed bs pt s e ks c)
    (hr : Resident pt page) (hw : pt.pageBits page = .readWrite) (b : Block B) : Listed bs (pt.poke page b) s e ks c :=
  ⟨h.toCore.poke hr hw b, h.nodup, h.res, h.low, h.span, h.room, h.memory⟩

theorem PolicyInv.poke {pol : Policy} {m : Machine bs.State B} (h : PolicyInv bs pol m) {page : Nat}
    (hr : Resident m.pt page) (hw : m.pt.pageBits page = .readWrite) (b : Block B) :
    PolicyInv bs pol { m with pt := m.pt.poke page b } := by
  cases pol with
  | fifo  => exact ⟨h.toCore.poke hr hw b, h.start, h.stop, h.some_frame, h.range, h.age, h.used, h.back⟩
  | lru   => obtain ⟨L, h⟩ := h; exact ⟨L, h.dll, h.hash, h.listed.poke hr hw b⟩
  | ffifo => obtain ⟨L, h⟩ := h; exact ⟨L, h.dll, h.hash, h.listed.poke hr hw b⟩
  | lfu   => obtain ⟨F, h⟩ := h; exact ⟨F, h.freq, h.hash, h.listed.poke hr hw b⟩
  | rand  => obtain ⟨ks, h⟩ := h; exact ⟨ks, h.hash, h.listed.poke hr hw b⟩

/-! ## Runs -/

/-- The value the last store to `a` wrote, if there is one. -/
def lastStore (a : Nat) : List Op → Option UInt8
  | []              => none
  | .store b v :: r => (lastStore a r).or (if b = a then some v else none)
  | .load _ :: r    => lastStore a r
  | .flush :: r     => lastStore a r

/-- The memory after a program: each byte as last stored, or as it was. -/
def memAfter (mem : Nat → UInt8) (ops : List Op) (a : Nat) : UInt8 := (lastStore a ops).getD (mem a)

theorem access_inv {pol : Policy} {a : Nat} {w : Bool} : ∀ (fuel : Nat) {m m' : Machine bs.State B},
    PolicyInv bs pol m → 0 < m.pt.nframes → access bs pol a w fuel m = some m' →
    PolicyInv bs pol m' ∧ Kept bs m.pt m'.pt ∧ a / B < npages ∧ (m'.pt.pageBits (a / B)).allows w = true
  | 0, _, _, _, _, he => by cases he
  | fuel + 1, m, m', h, hn, he => by
    rw [access, h.core.pages] at he
    by_cases hp : a / B < npages
    · rw [if_pos hp] at he
      by_cases hb : (m.pt.pageBits (a / B)).allows w = true
      · rw [if_pos hb] at he
        cases he
        exact ⟨h, Kept.refl _, hp, hb⟩
      · rw [if_neg hb] at he
        cases hf : pageFaultHandler bs pol m (a / B) with
        | none => rw [hf] at he; cases he
        | some m₁ =>
          rw [hf] at he
          obtain ⟨h₁, hk₁⟩ := pageFaultHandler_inv h hn hp hf
          obtain ⟨h₂, hk₂, hrest⟩ := access_inv fuel h₁ (hk₁.1 ▸ hn) he
          exact ⟨h₂, hk₁.trans hk₂, hrest⟩
    · rw [if_neg hp] at he; cases he

variable [NeZero B]

/-- The bytes the virtual memory stands for. -/
def Shows (bs : BackingStore B npages) (m : Machine bs.State B) (mem : Nat → UInt8) : Prop :=
  ∀ a, a / B < npages → shown bs m.pt (a / B) (Fin.ofNat B a) = mem a

theorem Shows.kept {m m' : Machine bs.State B} {mem : Nat → UInt8} (h : Shows bs m mem) (hk : Kept bs m.pt m'.pt) :
    Shows bs m' mem := fun a ha => by rw [hk.2 _ ha]; exact h a ha

/-- A load of a readable page returns the byte shown. -/
theorem Shows.loadByte {m : Machine bs.State B} {mem : Nat → UInt8} {a : Nat} (h : Shows bs m mem) (ha : a / B < npages)
    (hb : m.pt.pageBits (a / B) ≠ .none) : loadByte m a = mem a := by
  rw [← h a ha, shown_resident hb]
  rfl

/-- A store to a page of its own frame changes the one byte. -/
theorem Shows.storeByte {m : Machine bs.State B} {mem : Nat → UInt8} {s e a : Nat} (hs : Shows bs m mem)
    (hc : Core bs m.pt s e) (hr : Resident m.pt (a / B)) (v : UInt8) :
    Shows bs (storeByte m a v) (memAfter mem [.store a v]) := by
  intro b hbp
  show shown bs (m.pt.poke (a / B) _) (b / B) _ = _
  rw [shown_poke hc hr _ hbp]
  by_cases hab : a = b
  · subst hab
    simp [memAfter, lastStore]
  · have hmem : memAfter mem [.store a v] b = mem b := by simp [memAfter, lastStore, hab]
    rw [hmem, ← hs b hbp]
    by_cases hpage : b / B = a / B
    · -- the same page: another offset of the frame it shows
      have hoff : Fin.ofNat B b ≠ Fin.ofNat B a := by
        intro h
        have hmod : b % B = a % B := congrArg Fin.val h
        have hb := Nat.div_add_mod b B
        rw [hpage, hmod, Nat.div_add_mod] at hb
        exact hab hb
      rw [if_pos hpage, hpage, shown_resident hr.2]
      exact if_neg hoff
    · rw [if_neg hpage]

/-- **An operation keeps the invariant and does to the bytes shown what it says**; a load returns the byte shown. -/
theorem execOp_inv {pol : Policy} {fuel : Nat} {m m' : Machine bs.State B} {mem : Nat → UInt8} {op : Op}
    {r : Option UInt8} (h : PolicyInv bs pol m) (hn : 0 < m.pt.nframes) (hs : Shows bs m mem)
    (he : execOp bs pol fuel m op = some (m', r)) :
    PolicyInv bs pol m' ∧ 0 < m'.pt.nframes ∧ Shows bs m' (memAfter mem [op]) ∧
      ∀ a, op = .load a → r = some (mem a) := by
  cases op with
  | load a =>
    simp only [execOp, Option.bind_eq_bind, Option.bind_eq_some_iff, Option.some.injEq, Prod.mk.injEq] at he
    obtain ⟨m₁, ha, rfl, rfl⟩ := he
    obtain ⟨h₁, hk, hp, hb⟩ := access_inv fuel h hn ha
    have hs₁ : Shows bs m₁ mem := hs.kept hk
    refine ⟨h₁, hk.1 ▸ hn, hs₁, ?_⟩
    rintro b ⟨⟩
    have hres : m₁.pt.pageBits (a / B) ≠ .none := by intro h0; rw [h0] at hb; cases hb
    rw [hs₁.loadByte hp hres]
  | store a v =>
    simp only [execOp, Option.bind_eq_bind, Option.bind_eq_some_iff, Option.some.injEq, Prod.mk.injEq] at he
    obtain ⟨m₁, ha, rfl, rfl⟩ := he
    obtain ⟨h₁, hk, hp, hb⟩ := access_inv fuel h hn ha
    have hs₁ : Shows bs m₁ mem := hs.kept hk
    have hw : m₁.pt.pageBits (a / B) = .readWrite := by
      cases hc : m₁.pt.pageBits (a / B) <;> rw [hc] at hb <;> first | rfl | cases hb
    have hr : Resident m₁.pt (a / B) := ⟨by rw [h₁.core.pages]; exact hp, by rw [hw]; simp⟩
    exact ⟨h₁.poke hr hw _, hk.1 ▸ hn, hs₁.storeByte h₁.core hr v, fun b hb => by cases hb⟩
  | flush =>
    simp only [execOp, Option.bind_eq_bind, Option.bind_eq_some_iff, Option.some.injEq, Prod.mk.injEq] at he
    obtain ⟨m₁, ha, rfl, rfl⟩ := he
    obtain ⟨h₁, hk⟩ := pageTableFlush_inv h ha
    exact ⟨h₁, hk.1 ▸ hn, hs.kept hk, fun b hb => by cases hb⟩

theorem memAfter_cons (mem : Nat → UInt8) (op : Op) (ops : List Op) :
    memAfter (memAfter mem [op]) ops = memAfter mem (op :: ops) := by
  funext a
  cases op with
  | load b => rfl
  | flush => rfl
  | store b v =>
    simp only [memAfter, lastStore, Option.none_or]
    cases lastStore a ops <;> rfl

theorem memAfter_append (mem : Nat → UInt8) : ∀ ops ops' : List Op,
    memAfter (memAfter mem ops) ops' = memAfter mem (ops ++ ops')
  | [],        _    => rfl
  | op :: ops, ops' => by rw [← memAfter_cons, memAfter_append (memAfter mem [op]) ops, memAfter_cons, List.cons_append]

/-- **Every run shows the memory its stores have made.** -/
theorem runOps_inv {pol : Policy} {fuel : Nat} : ∀ (ops : List Op) {m m' : Machine bs.State B} {mem : Nat → UInt8},
    PolicyInv bs pol m → 0 < m.pt.nframes → Shows bs m mem → runOps bs pol fuel m ops = some m' →
    PolicyInv bs pol m' ∧ 0 < m'.pt.nframes ∧ Shows bs m' (memAfter mem ops)
  | [], _, _, _, h, hn, hs, he => by
    cases he
    exact ⟨h, hn, hs⟩
  | op :: ops, m, m', mem, h, hn, hs, he => by
    rw [runOps] at he
    cases hx : execOp bs pol fuel m op with
    | none => rw [hx] at he; cases he
    | some x =>
      rw [hx] at he
      obtain ⟨h₁, hn₁, hs₁, -⟩ := execOp_inv h hn hs hx
      rw [← memAfter_cons]
      exact runOps_inv ops h₁ hn₁ hs₁ he

/-- **Transparent paging.**  Under every policy, over every backing store and whatever `rand()` answers, a load that
completes after any program of loads, stores and flushes returns the value last stored to its byte, or the byte's
initial value in the backing store if there was no store to it. -/
theorem load_returns_last_store (pol : Policy) {nframes : Nat} (hn : 1 ≤ nframes) (store : bs.State)
    (physmem : Nat → Block B) (rands : Nat → Nat) (fuel : Nat) (ops : List Op) (a : Nat)
    {m m' : Machine bs.State B} {r : Option UInt8}
    (hrun : runOps bs pol fuel (initVirtualMemory bs nframes store physmem rands) ops = some m)
    (hload : execOp bs pol fuel m (.load a) = some (m', r)) :
    r = some ((lastStore a ops).getD (bs.content store (a / B) (Fin.ofNat B a))) := by
  have hs : Shows bs (initVirtualMemory bs nframes store physmem rands)
      (fun a => bs.content store (a / B) (Fin.ofNat B a)) := fun a _ => rfl
  obtain ⟨h₁, hn₁, hs₁⟩ := runOps_inv ops (initVirtualMemory_inv pol hn store physmem rands) hn hs hrun
  exact (execOp_inv h₁ hn₁ hs₁ hload).2.2.2 a rfl

/-- One frame for three pages: the stored page is evicted, written back and read again. -/
theorem load_returns_last_store_evicted : ∃ m m',
    runOps (memStore 2 3) .lru 3 (initVirtualMemory (memStore 2 3) 1 (fun _ _ => 0) (fun _ _ => 0) (fun _ => 0))
      [.store 0 7, .store 0 8, .load 2, .flush, .load 4] = some m ∧
    execOp (memStore 2 3) .lru 3 m (.load 0) = some (m', some 8) := by
  have hrun : (runOps (memStore 2 3) .lru 3
      (initVirtualMemory (memStore 2 3) 1 (fun _ _ => 0) (fun _ _ => 0) (fun _ => 0))
      [.store 0 7, .store 0 8, .load 2, .flush, .load 4]).isSome = true := by decide
  have hload : (execOp (memStore 2 3) .lru 3 ((runOps (memStore 2 3) .lru 3
      (initVirtualMemory (memStore 2 3) 1 (fun _ _ => 0) (fun _ _ => 0) (fun _ => 0))
      [.store 0 7, .store 0 8, .load 2, .flush, .load 4]).get (by decide)) (.load 0)).isSome = true := by decide
  obtain ⟨⟨m', r⟩, hm'⟩ := Option.isSome_iff_exists.1 hload
  have hr := load_returns_last_store .lru (by decide) _ _ _ 3 _ 0 (Option.some_get hrun).symm hm'
  exact ⟨_, m', (Option.some_get hrun).symm, by rw [hm', hr]; rfl⟩

end Vmem
end Bb
