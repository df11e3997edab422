import BlueBridge.VmemFlush
/-!
# VmemOrder — the list and the hash table of LRU and FFIFO, and the victim

Whatever faults and flushes a thread has had, following `next` from the head and `prev` from the tail of its list meets
the same nodes, one for each resident page, and each bucket of the hash table is a chain of one node for each of its
keys, which points at the key's list node (`Linked`).  The list is in the order of the last faults under LRU and of the
last loads under FFIFO, so the tail that is evicted is the oldest in that order (`list_hash_order`).
-/
namespace Bb
namespace Vmem

open Cells Recency
open Function (update update_self update_of_ne)

variable {B npages : Nat} {bs : BackingStore B npages}

/-! ## What the pointers say -/

/-- The list and the hash table of a thread, found by following their pointers. -/
structure Linked {S : Type} (m : Machine S B) (L : List (Nat × Nat)) : Prop where
  next : walk m.th.dllList.nodes.cell Node.next Node.val m.th.dllList.count m.th.dllList.head = some L
  prev : walk m.th.dllList.nodes.cell Node.prev Node.val m.th.dllList.count m.th.dllList.tail = some L.reverse
  count : L.length = m.th.dllList.count
  room : m.th.dllList.count ≤ m.pt.nframes
  keys : (L.map Prod.snd).Nodup
  resident : ∀ p, p ∈ L.map Prod.snd ↔ Resident m.pt p
  bucket : ∀ i, ∃ es, walk m.th.hashTable.nodes.cell HashNode.next (fun c => (c.key, c.listNodePointer))
      (m.th.hashTable.table i).count.toNat (m.th.hashTable.table i).head = some es ∧
    (m.th.hashTable.table i).count = es.length ∧
    (es.map (fun x => (x.2.2, x.2.1))).Perm (L.filter (fun x => x.2 % m.pt.nframes = i))

theorem Chain.walk {h : Heap HashNode} : ∀ {es : List HashEntry}, Chain h.cell es →
    walk h.cell HashNode.next (fun c => (c.key, c.listNodePointer)) es.length (headPtr 0 es) = some es
  | [],     _  => h.walk_null _ _ _
  | _ :: _, hc => h.walk_cons hc.1 hc.2.walk

theorem HashMaps.bucket {n : Nat} {h : HashTable} {L : List (Nat × Nat)} (hm : HashMaps n h L)
    (hnd : (L.map Prod.snd).Nodup) (i : Nat) :
    ∃ es, walk h.nodes.cell HashNode.next (fun c => (c.key, c.listNodePointer)) (h.table i).count.toNat
        (h.table i).head = some es ∧ (h.table i).count = es.length ∧
      (es.map (fun x => (x.2.2, x.2.1))).Perm (L.filter (fun x => x.2 % n = i)) := by
  obtain ⟨es, hr, hes⟩ := hm
  refine ⟨es i, ?_, hr.count i, ?_⟩
  · rw [hr.count, hr.head, Int.toNat_natCast]
    exact (hr.chain i).walk
  · have hkeys : ((es i).map (fun x => (x.2.2, x.2.1))).Nodup := by
      refine List.Nodup.of_map Prod.snd ?_
      rw [List.map_map]
      exact hr.nodup i
    refine (List.perm_ext_iff_of_nodup hkeys ((List.Nodup.of_map _ hnd).filter _)).2 (fun ⟨l, k⟩ => ?_)
    rw [List.mem_filter, ← hes, decide_eq_true_eq, List.mem_map]
    constructor
    · rintro ⟨⟨p, k', l'⟩, hmem, he⟩
      obtain ⟨rfl, rfl⟩ := Prod.mk.inj he
      have hk : k' % n = i := hr.hash i _ hmem
      exact ⟨⟨p, by rw [hashFunction, hk]; exact hmem⟩, hk⟩
    · rintro ⟨⟨p, hmem⟩, hk⟩
      have hk : k % n = i := hk
      rw [hashFunction, hk] at hmem
      exact ⟨(p, k, l), hmem, rfl⟩

theorem DllKeys.linked {m : Machine bs.State B} {L : List (Nat × Nat)} (hL : DllKeys m.pt.nframes m.th L) {c : Nat}
    (hl : Listed bs m.pt m.th.startFrame m.th.endFrame (L.map Prod.snd) c) : Linked m L where
  next := by rw [hL.dll.count, hL.dll.head]; exact hL.dll.seg.walk_next
  prev := by rw [hL.dll.count, hL.dll.tail]; exact hL.dll.seg.walk_prev
  count := hL.dll.count.symm
  room := by
    have := hl.length_le
    have := hl.room
    rw [List.length_map] at *
    rw [hL.dll.count]
    omega
  keys := hL.nodup
  resident := fun p => (hl.res p).symm
  bucket := hL.hash.bucket hL.nodup

/-! ## Faults, loads and flushes -/

inductive Event where
  | fault (page : Nat)
  | flush
  deriving Repr

/-- The pages that have faulted and those that were loaded, the latest first. -/
structure History where
  faults : List Nat
  loads : List Nat

def Event.exec (bs : BackingStore B npages) (pol : Policy) (x : Machine bs.State B × History) :
    Event → Option (Machine bs.State B × History)
  | .fault page => do
    let m ← pageFaultHandler bs pol x.1 page
    let loads := if x.1.pt.pageBits page = .none then page :: x.2.loads else x.2.loads
    some (m, ⟨page :: x.2.faults, loads⟩)
  | .flush => do
    let m ← pageTableFlush bs pol x.1
    some (m, x.2)

def runEvents (bs : BackingStore B npages) (pol : Policy) (x : Machine bs.State B × History) (evs : List Event) :
    Option (Machine bs.State B × History) := evs.foldlM (Event.exec bs pol) x

/-- What the order of the list is about. -/
def History.of (pol : Policy) (hist : History) : List Nat := if pol = .lru then hist.faults else hist.loads

theorem recent_loadKey {h ks : List Nat} {n page : Nat} (hr : Recent h ks) (hk : page ∉ ks) :
    Recent (page :: h) (loadKey n ks page) := by
  unfold loadKey
  split
  · exact hr.push (List.Sublist.refl _) hk
  · exact hr.push (List.dropLast_sublist _) (fun hm => hk (List.dropLast_subset _ hm))

theorem recent_lruKeys {h ks : List Nat} {n page : Nat} (hr : Recent h ks) (hnd : ks.Nodup) :
    Recent (page :: h) (lruKeys n ks page) := by
  unfold lruKeys
  split
  · exact hr.push List.erase_sublist (fun hm => (hnd.mem_erase_iff.1 hm).1 rfl)
  · exact recent_loadKey hr ‹_›

/-- A page that leaves is the victim of the move. -/
theorem Faulted.evicted {m m' : Machine bs.State B} {c page v : Nat} {ks ks' : List Nat} {mv : Move}
    (hf : Faulted bs m m' c page ks ks' mv) (hv : m.pt.pageBits v ≠ .none) (hv' : m'.pt.pageBits v = .none) :
    mv = .replace v := by
  by_contra hne
  by_cases hvp : v = page
  · subst hvp
    exact mv.bits_ne_none (hf.bits.symm.trans hv')
  · rw [hf.table] at hv'
    exact hv ((make_bits_of_ne _ _ hvp hne).symm.trans hv')

theorem DllKeys.tail {n v : Nat} {th : Thread} {L : List (Nat × Nat)} {A : List Nat} (hL : DllKeys n th L)
    (hA : L.map Prod.snd = A ++ [v]) : ∃ c, th.dllList.nodes.cell th.dllList.tail = some c ∧ c.val = v := by
  obtain ⟨A', C, rfl, -, hC⟩ := List.map_eq_append_iff.1 hA
  obtain ⟨⟨p, _⟩, C', rfl, rfl, hC'⟩ := List.map_eq_cons_iff.1 hC
  obtain rfl := List.map_eq_nil_iff.1 hC'
  obtain ⟨a, b, hc⟩ := hL.dll.seg.cell (p, _) (List.mem_append_right _ List.mem_cons_self)
  exact ⟨_, by rw [hL.dll.tail, lastPtr_append]; exact hc, rfl⟩

/-! ## Every sequence of faults and flushes -/

section Run

variable {pol : Policy}

/-- Between two events: keys in order. -/
def InOrder (bs : BackingStore B npages) (pol : Policy) (x : Machine bs.State B × History) : Prop :=
  ∃ ks, Paged bs pol 0 x.1 ks [] ∧ Recent (x.2.of pol) ks

/-- Only FIFO's keys are about a history. -/
theorem Paged.forget {c : Nat} {m : Machine bs.State B} {ks h : List Nat} (hpol : pol = .lru ∨ pol = .ffifo)
    (hp : Paged bs pol c m ks h) : Paged bs pol c m ks [] := by
  refine ⟨?_, hp.listed, ?_, hp.frames, hp.only⟩
  · rcases hpol with rfl | rfl
    · exact hp.keyed
    · exact hp.keyed
  · rintro rfl
    rcases hpol with h | h <;> cases h

theorem InOrder.fault {x : Machine bs.State B × History} {page : Nat} (hpol : pol = .lru ∨ pol = .ffifo)
    (hx : InOrder bs pol x) (hpage : page < npages) :
    ∃ x', Event.exec bs pol x (.fault page) = some x' ∧ InOrder bs pol x' := by
  obtain ⟨ks, hp, hr⟩ := hx
  have hnot : pol ≠ .fifo := by rcases hpol with rfl | rfl <;> decide
  obtain ⟨m', ks', mv, e, hp', hf, hord⟩ := hp.fault hpage (fun h => absurd h hnot) (Or.inl rfl)
    (fun h => absurd h hnot)
  refine ⟨_, by rw [Event.exec, e]; rfl, ks', hp'.forget hpol, ?_⟩
  rcases hpol with rfl | rfl
  · obtain ⟨rfl, -⟩ := hord
    exact recent_lruKeys hr hp.listed.nodup
  · obtain ⟨rfl, -⟩ := hord
    show Recent (if x.1.pt.pageBits page = .none then page :: x.2.loads else x.2.loads) (ffifoKeys _ ks page)
    unfold ffifoKeys
    by_cases hk : page ∈ ks
    · rw [if_pos hk, if_neg (fun hb => (hp.listed.bits_iff hpage).1 hb hk)]
      exact hr
    · rw [if_neg hk, if_pos ((hp.listed.bits_iff hpage).2 hk)]
      exact recent_loadKey hr hk

theorem InOrder.flush {x : Machine bs.State B × History} (hpol : pol = .lru ∨ pol = .ffifo) (hx : InOrder bs pol x) :
    ∃ x', Event.exec bs pol x .flush = some x' ∧ InOrder bs pol x' := by
  obtain ⟨ks, hp, hr⟩ := hx
  have hnot : pol ≠ .fifo := by rcases hpol with rfl | rfl <;> decide
  have hkept : kept pol x.1.th = 0 := if_neg (by rcases hpol with rfl | rfl <;> decide)
  obtain ⟨m', vs, e, -, -, -, hp'⟩ := hp.flush (fun h => absurd h hnot) (fun h => absurd h hnot)
  rw [hkept] at hp'
  exact ⟨_, by rw [Event.exec, e]; rfl, [], hp', Recent.nil _⟩

theorem InOrder.run (hpol : pol = .lru ∨ pol = .ffifo) : ∀ (evs : List Event) {x : Machine bs.State B × History},
    InOrder bs pol x → (∀ page, .fault page ∈ evs → page < npages) →
    ∃ x', runEvents bs pol x evs = some x' ∧ InOrder bs pol x'
  | [], x, hx, _ => ⟨x, rfl, hx⟩
  | ev :: evs, x, hx, hev => by
    obtain ⟨x₁, e₁, hx₁⟩ : ∃ x₁, ev.exec bs pol x = some x₁ ∧ InOrder bs pol x₁ := by
      cases ev with
      | fault page => exact hx.fault hpol (hev page List.mem_cons_self)
      | flush      => exact hx.flush hpol
    obtain ⟨x', e', hx'⟩ := InOrder.run hpol evs hx₁ (fun page hm => hev page (List.mem_cons_of_mem _ hm))
    refine ⟨x', ?_, hx'⟩
    rw [runEvents, List.foldlM_cons, e₁]
    exact e'

/-- The page `v` is the one at the tail, and of the resident pages the one whose last event is the oldest. -/
structure OldestAtTail {S : Type} (m : Machine S B) (hist : List Nat) (v : Nat) : Prop where
  tail : ∃ c, m.th.dllList.nodes.cell m.th.dllList.tail = some c ∧ c.val = v
  oldest : ∀ q, Resident m.pt q → q ≠ v → stamp hist v < stamp hist q

theorem InOrder.victim {x : Machine bs.State B × History} (hpol : pol = .lru ∨ pol = .ffifo) (hx : InOrder bs pol x)
    {page v : Nat} {m' : Machine bs.State B} (hpage : page < npages) (he : pageFaultHandler bs pol x.1 page = some m')
    (hv : x.1.pt.pageBits v ≠ .none) (hv' : m'.pt.pageBits v = .none) : OldestAtTail x.1 (x.2.of pol) v := by
  obtain ⟨ks, hp, hr⟩ := hx
  have hnot : pol ≠ .fifo := by rcases hpol with rfl | rfl <;> decide
  obtain ⟨ks', mv, -, hf, hord⟩ := hp.fault_some hpage (fun h => absurd h hnot) he
  obtain rfl := hf.evicted hv hv'
  obtain ⟨A, rfl⟩ : ∃ A, ks = A ++ [v] := by
    rcases hpol with rfl | rfl
    · exact hord.2 v rfl
    · exact hord.2 v rfl
  refine ⟨?_, fun q hq hqv => ?_⟩
  · rcases hpol with rfl | rfl
    · obtain ⟨L, hL, hks⟩ := hp.keyed
      exact hL.tail hks
    · obtain ⟨L, hL, hks⟩ := hp.keyed
      exact hL.tail hks
  · refine hr.last_lt q ((List.mem_append.1 ((hp.listed.res q).1 hq)).resolve_right (fun h => hqv ?_))
    exact List.mem_singleton.1 h

/-- **The list and the hash table stay in step, and the list in order**, through every sequence of faults and flushes. -/
theorem list_hash_order (hpol : pol = .lru ∨ pol = .ffifo) {nframes : Nat} (hn : 1 ≤ nframes) (store : bs.State)
    (physmem : Nat → Block B) (rands : Nat → Nat) (evs : List Event)
    (hev : ∀ page, .fault page ∈ evs → page < npages) :
    ∃ m hist L, runEvents bs pol (initVirtualMemory bs nframes store physmem rands, ⟨[], []⟩) evs = some (m, hist) ∧
      Linked m L ∧ Recent (hist.of pol) (L.map Prod.snd) ∧
      ∀ page m' v, page < npages → pageFaultHandler bs pol m page = some m' → m.pt.pageBits v ≠ .none →
        m'.pt.pageBits v = .none → OldestAtTail m (hist.of pol) v := by
  obtain ⟨⟨m, hist⟩, e, hx⟩ := InOrder.run hpol evs
    (x := (initVirtualMemory bs nframes store physmem rands, ⟨[], []⟩))
    ⟨[], paged_initVirtualMemory pol hn store physmem rands, Recent.nil _⟩ hev
  obtain ⟨ks, hp, hr⟩ := id hx
  have hkeyed : ∃ L, DllKeys m.pt.nframes m.th L ∧ L.map Prod.snd = ks := by
    rcases hpol with rfl | rfl
    · exact hp.keyed
    · exact hp.keyed
  obtain ⟨L, hL, rfl⟩ := hkeyed
  exact ⟨m, hist, L, e, hL.linked hp.listed, hr, fun page m' v hpage he hv hv' => hx.victim hpol hpage he hv hv'⟩

/-- LRU with two frames: an upgrade between two loads, an eviction and a flush. -/
theorem list_hash_order_lru : ∃ m hist L, runEvents (memStore 1 3) .lru
      (initVirtualMemory (memStore 1 3) 2 (fun _ _ => 0) (fun _ _ => 0) (fun _ => 0), ⟨[], []⟩)
      [.fault 0, .fault 1, .flush, .fault 0, .fault 1, .fault 0, .fault 2] = some (m, hist) ∧
    Linked m L ∧ Recent hist.faults (L.map Prod.snd) := by
  obtain ⟨m, hist, L, e, hL, hr, -⟩ := @list_hash_order 1 3 (memStore 1 3) .lru (Or.inl rfl) 2 (by decide)
    (fun _ _ => 0) (fun _ _ => 0) (fun _ => 0)
    [.fault 0, .fault 1, .flush, .fault 0, .fault 1, .fault 0, .fault 2] (by simp)
  exact ⟨m, hist, L, e, hL, hr⟩

end Run

end Vmem
end Bb
