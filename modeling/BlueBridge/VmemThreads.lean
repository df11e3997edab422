import BlueBridge.VmemFlush
/-!
# VmemThreads — workers that share a table (`register_vmem_threads`, `init_vmem_thread`)

After `register_vmem_threads(T)` each worker has `nframes` frames and its own lists; the table, the frames, FIFO's
arrays and the backing store are shared.  An access is tried again after each fault, and other threads may run in
between, so a run is a sequence of single tries (`attempt`).

A worker's handler reads and writes its own pages and frames only.  So what holds of a thread alone holds of each worker
and the part of the table that is its own (`Crew`), and a step of one leaves the parts of the others as they are
(`Untouched`).
-/
namespace Bb
namespace Vmem

open Cells Recency
open Function (update update_self update_of_ne)

variable {B npages : Nat} {bs : BackingStore B npages}

/-! ## Threads -/

inductive Who where
  | main
  | worker (t : Nat)
  deriving DecidableEq, Repr

/-- The shared table, and what each thread has for itself. -/
structure Process (S : Type) (B : Nat) where
  pt : PageTable S B
  threads : Who → Thread
  rands : Nat → Nat
  calls : Nat

/-- The process as one of its threads sees it. -/
def Process.machine {S : Type} (P : Process S B) (w : Who) : Machine S B := ⟨P.pt, P.threads w, P.rands, P.calls⟩

def Process.put {S : Type} (P : Process S B) (w : Who) (m : Machine S B) : Process S B :=
  ⟨m.pt, update P.threads w m.th, m.rands, m.calls⟩

/-- `register_vmem_threads`.  It exits when the frames are more than the pages; `mremap` to no frames at all fails. -/
def registerVmemThreads (bs : BackingStore B npages) (pol : Policy) (numThreads : Nat) (m : Machine bs.State B) :
    Option (Machine bs.State B) := do
  let m ← pageTableFlush bs pol m
  if m.pt.nframes * numThreads > m.pt.npages then none
  else if numThreads = 0 then none
  else if pol = .fifo then
    some { m with pt := { m.pt with frameState := fun _ => 0, framePage := fun _ => 0 } }
  else some m

/-- `init_vmem_thread` in a new thread, whose `count` is zero as all `__thread` variables are. -/
def initVmemThread (nframes tId : Nat) : Thread :=
  ⟨tId * nframes, (tId + 1) * nframes, 0, HashTable.calloc, DllList.calloc, FreqList.calloc⟩

/-- The main thread registers its workers, and they initialise. -/
def startWorkers (bs : BackingStore B npages) (pol : Policy) (numThreads : Nat) (m : Machine bs.State B) :
    Option (Process bs.State B) := do
  let m ← registerVmemThreads bs pol numThreads m
  let threads := fun
    | .main     => m.th
    | .worker t => initVmemThread m.pt.nframes t
  some ⟨m.pt, threads, m.rands, m.calls⟩

/-! ## Tries -/

inductive Access where
  | load (a : Nat)
  | store (a : Nat) (v : UInt8)
  deriving Repr

def Access.addr : Access → Nat
  | .load a    => a
  | .store a _ => a

def Access.writes : Access → Bool
  | .load _    => false
  | .store _ _ => true

def Access.op : Access → Op
  | .load a    => .load a
  | .store a v => .store a v

section Attempt

variable [NeZero B]

/-- An access that the page's rights allow. -/
def Access.perform {S : Type} (m : Machine S B) : Access → Machine S B × Option UInt8
  | .load a    => (m, some (loadByte m a))
  | .store a v => (storeByte m a v, none)

/-- One try of an access: it is performed, or its page faults. -/
def attempt (bs : BackingStore B npages) (pol : Policy) (m : Machine bs.State B) (x : Access) :
    Option (Machine bs.State B × Option (Option UInt8)) :=
  if x.addr / B < m.pt.npages then
    if (m.pt.pageBits (x.addr / B)).allows x.writes then some ((x.perform m).1, some (x.perform m).2)
    else do
      let m ← pageFaultHandler bs pol m (x.addr / B)
      some (m, none)
  else none

/-- A try of one thread, and the operation if it was performed. -/
def Process.step (bs : BackingStore B npages) (pol : Policy) (P : Process bs.State B) (s : Who × Access) :
    Option (Process bs.State B × List Op) := do
  let (m, r) ← attempt bs pol (P.machine s.1) s.2
  some (P.put s.1 m, if r.isSome then [s.2.op] else [])

/-- Tries in whatever order the threads run, and the operations performed. -/
def Process.run (bs : BackingStore B npages) (pol : Policy) :
    Process bs.State B → List (Who × Access) → Option (Process bs.State B × List Op)
  | P, []      => some (P, [])
  | P, s :: ss => do
    let (P₁, done₁) ← P.step bs pol s
    let (P₂, done₂) ← Process.run bs pol P₁ ss
    some (P₂, done₁ ++ done₂)

end Attempt

/-! ## What a thread does not touch -/

/-- The pages of `own` and the frames from `s` up to `e`, as they were. -/
structure Untouched (bs : BackingStore B npages) (own : Nat → Bool) (s e : Nat) (pt pt' : PageTable bs.State B) :
    Prop where
  pages : pt'.npages = pt.npages
  nframes : pt'.nframes = pt.nframes
  bits : ∀ q, own q = true → pt'.pageBits q = pt.pageBits q
  mapping : ∀ q, own q = true → pt'.pageMapping q = pt.pageMapping q
  content : ∀ q, own q = true → q < npages → bs.content pt'.store q = bs.content pt.store q
  physmem : ∀ i, s ≤ i → i < e → pt'.physmem i = pt.physmem i
  arrays : ∀ i, s ≤ i → i < e → pt'.frameState i = pt.frameState i ∧ pt'.framePage i = pt.framePage i

section Untouched

variable {own : Nat → Bool} {s e c : Nat} {pt pt' : PageTable bs.State B} {ks h : List Nat}

theorem Untouched.restrict_bits (hu : Untouched bs own s e pt pt') :
    (pt'.restrict own).pageBits = (pt.restrict own).pageBits := by
  funext q
  show (if own q then pt'.pageBits q else .none) = if own q then pt.pageBits q else .none
  by_cases hq : own q = true
  · rw [if_pos hq, if_pos hq, hu.bits q hq]
  · rw [if_neg hq, if_neg hq]

/-- The lists of the other policies are the thread's own. -/
theorem Keyed.of_nframes {S S' : Type} {pol : Policy} {pt : PageTable S B} {pt' : PageTable S' B} {th : Thread}
    (hk : Keyed pol c pt th ks h) (hpol : pol ≠ .fifo) (hn : pt'.nframes = pt.nframes) : Keyed pol c pt' th ks h := by
  cases pol with
  | fifo  => exact absurd rfl hpol
  | lru   => unfold Keyed at hk ⊢; rw [hn]; exact hk
  | ffifo => unfold Keyed at hk ⊢; rw [hn]; exact hk
  | lfu   => unfold Keyed at hk ⊢; rw [hn]; exact hk
  | rand  => unfold Keyed at hk ⊢; rw [hn]; exact hk

theorem FifoArr.untouched (hf : FifoArr pt s e ks h) (hu : Untouched bs own s e pt pt') (hown : ∀ p ∈ ks, own p = true) :
    FifoArr pt' s e ks h := by
  have hroom := hf.room
  have hmap : ∀ p ∈ ks, pt'.pageMapping p = pt.pageMapping p := fun p hp => hu.mapping p (hown p hp)
  have hin : ∀ p ∈ ks, s ≤ pt.pageMapping p ∧ pt.pageMapping p < e := fun p hp => by
    obtain ⟨hs, hlt, -⟩ := hf.back p hp
    exact ⟨hs, by omega⟩
  refine ⟨hroom, fun i hs he => ?_, fun i hs hlt => ?_, fun p hp => ?_, fun p hp => ?_, hf.recent, hf.nodup,
    fun h0 i hs he => ?_⟩
  · rw [(hu.arrays i hs he).1]
    exact hf.used i hs he
  · obtain ⟨hmem, hm⟩ := hf.name i hs hlt
    rw [(hu.arrays i hs (by omega)).2, hmap _ hmem]
    exact ⟨hmem, hm⟩
  · obtain ⟨hs, he⟩ := hin p hp
    rw [hmap p hp, (hu.arrays _ hs he).2]
    exact hf.back p hp
  · obtain ⟨hs, he⟩ := hin p hp
    rw [hmap p hp, (hu.arrays _ hs he).1]
    exact hf.ages p hp
  · rw [hu.pages] at h0 ⊢
    rw [(hu.arrays i hs he).2]
    exact hf.names h0 i hs he

theorem Listed.untouched (hl : Listed bs (pt.restrict own) s e ks c) (hu : Untouched bs own s e pt pt') :
    Listed bs (pt'.restrict own) s e ks c := by
  have hres : ∀ p, Resident (pt'.restrict own) p ↔ Resident (pt.restrict own) p := fun p => by
    unfold Resident
    rw [hu.restrict_bits]
    exact and_congr_left' (by rw [show (pt'.restrict own).npages = pt.npages from hu.pages]; rfl)
  have hmap : ∀ p, Resident (pt.restrict own) p → pt'.pageMapping p = pt.pageMapping p := fun p hr =>
    hu.mapping p (hl.own p ((hl.res p).1 hr))
  refine ⟨⟨hu.pages.trans hl.pages, fun p hr => ?_, fun p hr => ?_, fun p q hp hq heq => ?_, fun p hp hb => ?_⟩,
    hl.nodup, fun p => (hres p).trans (hl.res p), fun p hp => ?_, ?_, ?_, hl.memory⟩
  · have hr := (hres p).1 hr
    show s ≤ pt'.pageMapping p ∧ pt'.pageMapping p < e
    rw [hmap p hr]
    exact hl.frame p hr
  · have hr := (hres p).1 hr
    show pt'.pageMapping p < npages
    rw [hmap p hr]
    exact hl.backed p hr
  · have hp := (hres p).1 hp
    have hq := (hres q).1 hq
    have heq : pt'.pageMapping p = pt'.pageMapping q := heq
    rw [hmap p hp, hmap q hq] at heq
    exact hl.inj p q hp hq heq
  · rw [hu.restrict_bits] at hb
    have hr : Resident (pt.restrict own) p := ⟨hl.pages.symm ▸ hp, by rw [hb]; exact Prot.noConfusion⟩
    obtain ⟨hs, he⟩ : s ≤ pt.pageMapping p ∧ pt.pageMapping p < e := hl.frame p hr
    show pt'.physmem (pt'.pageMapping p) = bs.content pt'.store p
    rw [hmap p hr, hu.physmem _ hs he, hu.content p (hl.own p ((hl.res p).1 hr)) hp]
    exact hl.clean p hp hb
  · show pt'.pageMapping p < s + c
    rw [hmap p ((hl.res p).2 hp)]
    exact hl.low p hp
  · exact hl.span.trans (by rw [show (pt'.restrict own).nframes = pt.nframes from hu.nframes]; rfl)
  · exact Nat.le_trans hl.room (Nat.le_of_eq hu.nframes.symm)

/-- **A thread whose pages and frames are left alone.** -/
theorem Paged.untouched {pol : Policy} {th : Thread} {r r' : Nat → Nat} {k k' : Nat}
    (hp : Paged bs pol c (Machine.restrict ⟨pt, th, r, k⟩ own) ks h)
    (hu : Untouched bs own th.startFrame th.endFrame pt pt') :
    Paged bs pol c (Machine.restrict ⟨pt', th, r', k'⟩ own) ks h where
  keyed := by
    have hk := keyed_restrict.1 hp.keyed
    refine keyed_restrict.2 ?_
    by_cases hpol : pol = .fifo
    · subst hpol
      exact FifoArr.untouched hk hu hp.listed.own
    · exact hk.of_nframes hpol hu.nframes
  listed := hp.listed.untouched hu
  spread := fun hpol => by
    have hw : faultsOf (pt'.restrict own) = faultsOf (pt.restrict own) := by
      unfold faultsOf
      rw [hu.restrict_bits]
    exact (congrArg (fun w => Spread h w ks) hw).mpr (hp.spread hpol)
  frames := Nat.lt_of_lt_of_le hp.frames (Nat.le_of_eq hu.nframes.symm)
  only := hp.only

/-- **A fault is the affair of its thread.** -/
theorem Faulted.untouched {m m' : Machine bs.State B} {page : Nat} {ks' : List Nat} {mv : Move}
    (hf : Faulted bs m m' c page ks ks' mv) (hh : Held m.pt m.th.startFrame m.th.endFrame c ks page)
    (hpages : m.pt.npages = npages) (hown : ∀ q, own q = true → q ≠ page ∧ q ∉ ks)
    (hout : ∀ i, s ≤ i → i < e → i < m.th.startFrame ∨ m.th.endFrame ≤ i) : Untouched bs own s e m.pt m'.pt := by
  have hvictim : ∀ v, mv = .replace v → v ∈ ks := by
    rintro v rfl
    exact hf.turn.victim_mem
  refine ⟨hf.pages, hf.nframes, fun q hq => (hf.of_ne (hown q hq).1 (hown q hq).2).1,
    fun q hq => (hf.of_ne (hown q hq).1 (hown q hq).2).2, fun q hq hlt => ?_, fun i hs he => ?_,
    fun i hs he => hf.arrays i (hout i hs he)⟩
  · rw [hf.table]
    refine make_content_of_ne m.pt (hpages ▸ hh.lt) hlt (fun v hv => ⟨hpages ▸ (hh.frame v (hvictim v hv)).1, ?_⟩)
    rintro rfl
    exact (hown q hq).2 (hvictim q hv)
  · rw [hf.table]
    refine make_physmem_of_ne m.pt page ?_
    rintro rfl
    have := hh.frame_turn hf.turn
    have := hout _ hs he
    omega

theorem untouched_poke {page : Nat} (b : Block B) (hout : ¬ (s ≤ pt.pageMapping page ∧ pt.pageMapping page < e)) :
    Untouched bs own s e pt (pt.poke page b) := by
  refine ⟨rfl, rfl, fun _ _ => rfl, fun _ _ => rfl, fun _ _ _ => rfl, fun i hs he => ?_, fun _ _ _ => ⟨rfl, rfl⟩⟩
  refine update_of_ne ?_ _ _
  rintro rfl
  exact hout ⟨hs, he⟩

theorem Untouched.shown (hu : Untouched bs own s e pt pt') {q : Nat} (hq : own q = true) (hlt : q < npages)
    (hin : pt.pageBits q ≠ .none → s ≤ pt.pageMapping q ∧ pt.pageMapping q < e) : shown bs pt' q = shown bs pt q := by
  unfold Vmem.shown
  rw [hu.bits q hq, hu.mapping q hq, hu.content q hq hlt]
  split
  · rfl
  · exact hu.physmem _ (hin ‹_›).1 (hin ‹_›).2

end Untouched

/-! ## The crew -/

/-- The pages of worker `t`. -/
def mine (owner : Nat → Nat) (t p : Nat) : Bool := owner p == t

theorem mine_iff {owner : Nat → Nat} {t p : Nat} : mine owner t p = true ↔ owner p = t := beq_iff_eq

/-- **Each of the `T` workers pages as if it were alone**, with `n` frames and the pages it owns. -/
structure Crew (bs : BackingStore B npages) (pol : Policy) (T n : Nat) (owner : Nat → Nat) (P : Process bs.State B) :
    Prop where
  pages : P.pt.npages = npages
  nframes : P.pt.nframes = n
  owned : ∀ p, Resident P.pt p → owner p < T
  start : ∀ t, t < T → (P.threads (.worker t)).startFrame = t * n
  part : ∀ t, t < T → ∃ ks h, Paged bs pol 0 ((P.machine (.worker t)).restrict (mine owner t)) ks h

@[simp] theorem put_machine {S : Type} (P : Process S B) (w : Who) (m : Machine S B) : (P.put w m).machine w = m := by
  unfold Process.put Process.machine
  simp only [update_self]

theorem put_threads {S : Type} (P : Process S B) (w : Who) (m : Machine S B) : (P.put w m).threads w = m.th := by
  unfold Process.put
  exact update_self ..

theorem put_threads_of_ne {S : Type} (P : Process S B) {w w' : Who} (m : Machine S B) (h : w' ≠ w) :
    (P.put w m).threads w' = P.threads w' := update_of_ne h _ _

theorem range_apart {n t t' i : Nat} (hne : t' ≠ t) (hs : t' * n ≤ i) (he : i < (t' + 1) * n) :
    i < t * n ∨ (t + 1) * n ≤ i := by
  rcases Nat.lt_or_gt_of_ne hne with h | h
  · exact Or.inl (Nat.lt_of_lt_of_le he (Nat.mul_le_mul_right n h))
  · exact Or.inr (Nat.le_trans (Nat.mul_le_mul_right n h) hs)

section Crew

variable {pol : Policy} {T n t : Nat} {owner : Nat → Nat} {P : Process bs.State B}

theorem Crew.stop (hc : Crew bs pol T n owner P) (ht : t < T) :
    (P.threads (.worker t)).endFrame = (t + 1) * n := by
  obtain ⟨ks, h, hp⟩ := hc.part t ht
  have hspan : (P.threads (.worker t)).endFrame = (P.threads (.worker t)).startFrame + P.pt.nframes := hp.listed.span
  rw [hspan, hc.start t ht, hc.nframes, Nat.succ_mul]

/-- A resident page is in a frame of its owner. -/
theorem Crew.frame (hc : Crew bs pol T n owner P) {p : Nat} (hr : Resident P.pt p) :
    owner p * n ≤ P.pt.pageMapping p ∧ P.pt.pageMapping p < (owner p + 1) * n := by
  have ht := hc.owned p hr
  obtain ⟨ks, h, hp⟩ := hc.part _ ht
  have hres : Resident (P.pt.restrict (mine owner (owner p))) p :=
    ⟨hr.1, by rw [restrict_bits (mine_iff.2 rfl)]; exact hr.2⟩
  rw [← hc.start _ ht, ← hc.stop ht]
  exact hp.listed.frame p hres

theorem Crew.core (hc : Crew bs pol T n owner P) : Core bs P.pt 0 (T * n) := by
  -- pages of one worker are apart by its own invariant, pages of two by their ranges
  refine ⟨hc.pages, fun p hr => ⟨Nat.zero_le _, ?_⟩, fun p hr => ?_, fun p q hp hq heq => ?_, fun p hp hb => ?_⟩
  · exact Nat.lt_of_lt_of_le (hc.frame hr).2 (Nat.mul_le_mul_right n (hc.owned p hr))
  · obtain ⟨ks, h, hpaged⟩ := hc.part _ (hc.owned p hr)
    exact hpaged.listed.backed p ⟨hr.1, fun h => hr.2 ((restrict_bits (mine_iff.2 rfl)).symm.trans h)⟩
  · have hown : owner q = owner p := by
      by_contra hne
      have hfp := hc.frame hp
      have hfq := hc.frame hq
      rw [← heq] at hfq
      have := range_apart hne hfq.1 hfq.2
      omega
    obtain ⟨ks, h, hpaged⟩ := hc.part _ (hc.owned p hp)
    refine hpaged.listed.inj p q ⟨hp.1, ?_⟩ ⟨hq.1, ?_⟩ heq
    · exact fun h => hp.2 ((restrict_bits (mine_iff.2 rfl)).symm.trans h)
    · exact fun h => hq.2 ((restrict_bits (mine_iff.2 hown)).symm.trans h)
  · have hr : Resident P.pt p := ⟨hc.pages.symm ▸ hp, by rw [hb]; exact Prot.noConfusion⟩
    obtain ⟨ks, h, hpaged⟩ := hc.part _ (hc.owned p hr)
    exact hpaged.listed.clean p hp ((restrict_bits (mine_iff.2 rfl)).trans hb)

/-- **One worker moves, the others are not touched.** -/
theorem Crew.put (hc : Crew bs pol T n owner P) {m' : Machine bs.State B}
    (hn : m'.pt.nframes = n) (hstart : m'.th.startFrame = t * n) (howned : ∀ p, Resident m'.pt p → owner p < T)
    (hp : ∃ ks h, Paged bs pol 0 (m'.restrict (mine owner t)) ks h)
    (hothers : ∀ t', t' ≠ t → Untouched bs (mine owner t') (t' * n) ((t' + 1) * n) P.pt m'.pt) :
    Crew bs pol T n owner (P.put (.worker t) m') where
  pages := by
    obtain ⟨ks, h, hp⟩ := hp
    exact hp.listed.pages
  nframes := hn
  owned := howned
  start := fun t' ht' => by
    by_cases hne : t' = t
    · rw [hne, put_threads, hstart]
    · rw [put_threads_of_ne P m' (by simpa using hne)]
      exact hc.start t' ht'
  part := fun t' ht' => by
    by_cases hne : t' = t
    · rw [hne, put_machine]
      exact hp
    · obtain ⟨ks, h, hp'⟩ := hc.part t' ht'
      have hu := hothers t' hne
      rw [← hc.start t' ht', ← hc.stop ht'] at hu
      refine ⟨ks, h, ?_⟩
      unfold Process.machine
      rw [put_threads_of_ne P m' (by simpa using hne)]
      exact hp'.untouched hu

theorem Crew.fault (hc : Crew bs pol T n owner P) {m' : Machine bs.State B} {page : Nat} (ht : t < T)
    (hpage : page < npages) (ho : owner page = t) (hb : P.pt.pageBits page ≠ .readWrite)
    (he : pageFaultHandler bs pol (P.machine (.worker t)) page = some m') :
    Crew bs pol T n owner (P.put (.worker t) m') ∧ Kept bs P.pt m'.pt ∧ m'.pt.pageBits page ≠ .none ∧
      ∀ q, owner q ≠ t → m'.pt.pageBits q = P.pt.pageBits q := by
  obtain ⟨ks, h, hp⟩ := hc.part t ht
  have hmine := mine_iff.2 ho
  have hheld := hp.held_own hpage hmine (Or.inl rfl)
  obtain ⟨ks', mv, hp', hf, -⟩ := hp.fault_own_some hpage hmine (fun _ => hb) he
  have hothers : ∀ t' s e, t' ≠ t → (∀ i, s ≤ i → i < e → i < t * n ∨ (t + 1) * n ≤ i) →
      Untouched bs (mine owner t') s e P.pt m'.pt := by
    intro t' s e hne hout
    refine hf.untouched hheld hc.pages (fun q hq => ⟨?_, fun hk => ?_⟩) (fun i hs he => ?_)
    · rintro rfl
      exact hne ((mine_iff.1 hq).symm.trans ho)
    · exact hne ((mine_iff.1 hq).symm.trans (mine_iff.1 (hp.listed.own q hk)))
    · show i < (P.threads (.worker t)).startFrame ∨ (P.threads (.worker t)).endFrame ≤ i
      rw [hc.start t ht, hc.stop ht]
      exact hout i hs he
  have hempty : ∀ t', t' ≠ t → Untouched bs (mine owner t') 0 0 P.pt m'.pt := fun t' hne =>
    hothers t' 0 0 hne (fun i _ hi => absurd hi (Nat.not_lt_zero i))
  have hrange : ∀ t', t' ≠ t → Untouched bs (mine owner t') (t' * n) ((t' + 1) * n) P.pt m'.pt := fun t' hne =>
    hothers t' _ _ hne (fun i hs he => range_apart hne hs he)
  refine ⟨hc.put (hf.nframes.trans hc.nframes) (hf.start.trans (hc.start t ht)) (fun p hr => ?_) ⟨ks', _, hp'⟩ hrange,
    ⟨hf.nframes, fun q hq => ?_⟩, ?_, fun q hne => (hempty _ hne).bits q (mine_iff.2 rfl)⟩
  · by_cases hne : owner p = t
    · exact hne ▸ ht
    · have hu := hempty _ hne
      exact hc.owned p ⟨hu.pages ▸ hr.1, hu.bits p (mine_iff.2 rfl) ▸ hr.2⟩
  · by_cases hne : owner q = t
    · have hk := ((hf.restrict hmine hp.listed.own).listed hpage hp.listed).2.2 q hq
      unfold shown at hk ⊢
      rwa [Machine.restrict, Machine.restrict, restrict_bits (mine_iff.2 hne), restrict_bits (mine_iff.2 hne)] at hk
    · refine (hrange _ hne).shown (mine_iff.2 rfl) hq (fun hb => hc.frame ⟨hc.pages.symm ▸ hq, hb⟩)
  · rw [hf.bits]
    exact mv.bits_ne_none

/-- **No handler aborts** while FIFO's ages fit. -/
theorem Crew.faults (hc : Crew bs pol T n owner P) (hfit : AgesFit pol n npages) {page : Nat} (ht : t < T)
    (hpage : page < npages) (ho : owner page = t) (hb : P.pt.pageBits page ≠ .readWrite) :
    ∃ m', pageFaultHandler bs pol (P.machine (.worker t)) page = some m' := by
  obtain ⟨ks, h, hp⟩ := hc.part t ht
  have hready : Ready bs pol ((P.machine (.worker t)).restrict (mine owner t)) ks h :=
    ⟨hp, hc.nframes.symm ▸ hfit⟩
  obtain ⟨m', _, _, e, -⟩ := hp.fault_own hpage (mine_iff.2 ho) (fun _ => hb) (Or.inl rfl) hready.ages
  exact ⟨m', e⟩

theorem Crew.poke (hc : Crew bs pol T n owner P) {page : Nat} (hpage : page < npages)
    (hw : P.pt.pageBits page = .readWrite) (b : Block B) : Crew bs pol T n owner { P with pt := P.pt.poke page b } where
  pages := hc.pages
  nframes := hc.nframes
  owned := hc.owned
  start := hc.start
  part := fun t ht => by
    obtain ⟨ks, h, hp⟩ := hc.part t ht
    refine ⟨ks, h, ?_⟩
    by_cases ho : owner page = t
    · exact hp.poke hpage ((restrict_bits (mine_iff.2 ho)).trans hw) b
    · have hin := hc.frame ⟨hc.pages.symm ▸ hpage, by rw [hw]; exact Prot.noConfusion⟩
      refine hp.untouched (untouched_poke b (fun hout => ?_))
      have hout : (P.threads (.worker t)).startFrame ≤ P.pt.pageMapping page ∧
        P.pt.pageMapping page < (P.threads (.worker t)).endFrame := hout
      rw [hc.start t ht, hc.stop ht] at hout
      have := range_apart ho hin.1 hin.2
      omega

/-- The frames of a worker have memory. -/
theorem range_le {t T n k : Nat} (ht : t < T) (h : n * T ≤ k) : (t + 1) * n ≤ k := by
  refine Nat.le_trans (Nat.mul_le_mul_right n ht) ?_
  rw [Nat.mul_comm]
  exact h

/-- The workers as they begin. -/
theorem crew_start (pol : Policy) (T : Nat) (owner : Nat → Nat) {pt : PageTable bs.State B} {threads : Who → Thread}
    (rands : Nat → Nat) (calls : Nat) (hpages : pt.npages = npages) (hn : 0 < pt.nframes)
    (hfits : pt.nframes * T ≤ npages) (hres : ∀ p, ¬ Resident pt p)
    (hzero : pol = .fifo → ∀ i, pt.frameState i = 0 ∧ pt.framePage i = 0)
    (hth : ∀ t, threads (.worker t) = initVmemThread pt.nframes t) :
    Crew bs pol T pt.nframes owner ⟨pt, threads, rands, calls⟩ where
  pages := hpages
  nframes := rfl
  owned := fun p hr => absurd hr (hres p)
  start := fun t _ => by
    show (threads (.worker t)).startFrame = _
    rw [hth]
    rfl
  part := fun t ht => by
    refine ⟨[], [], ?_⟩
    unfold Process.machine
    simp only [hth]
    refine paged_fresh pol rands calls hpages hn (Nat.succ_mul t _) (Or.inr (range_le ht hfits))
      (fun p hr => hres p ⟨hr.1, fun hb => hr.2 ?_⟩) (fun hpol i _ _ => hzero hpol i)
    show (if mine owner t p then pt.pageBits p else .none) = .none
    rw [hb, ite_self]

end Crew

/-! ## Runs of tries -/

theorem put_self {S : Type} (P : Process S B) (w : Who) : P.put w (P.machine w) = P := by
  unfold Process.put Process.machine
  simp only [Function.update_eq_self]

section Runs

variable [NeZero B] {pol : Policy} {T n t : Nat} {owner : Nat → Nat} {P : Process bs.State B} {mem : Nat → UInt8}

theorem attempt_of_allows {m : Machine bs.State B} {x : Access} (hlt : x.addr / B < m.pt.npages)
    (hb : (m.pt.pageBits (x.addr / B)).allows x.writes = true) :
    attempt bs pol m x = some ((x.perform m).1, some (x.perform m).2) := by
  rw [attempt, if_pos hlt, if_pos hb]

theorem attempt_of_fault {m : Machine bs.State B} {x : Access} (hlt : x.addr / B < m.pt.npages)
    (hb : (m.pt.pageBits (x.addr / B)).allows x.writes = false) :
    attempt bs pol m x = (pageFaultHandler bs pol m (x.addr / B)).map (fun m => (m, none)) := by
  rw [attempt, if_pos hlt, if_neg (by rw [hb]; decide)]
  cases pageFaultHandler bs pol m (x.addr / B) <;> rfl

theorem run_cons {w : Who} {x : Access} {m : Machine bs.State B} {r : Option (Option UInt8)}
    {sched : List (Who × Access)} {P' : Process bs.State B} {done : List Op}
    (he : attempt bs pol (P.machine w) x = some (m, r)) (hrun : (P.put w m).run bs pol sched = some (P', done)) :
    P.run bs pol ((w, x) :: sched) = some (P', (if r.isSome then [x.op] else []) ++ done) := by
  rw [Process.run, Process.step, he]
  simp only [Option.bind_eq_bind, Option.bind_some]
  rw [hrun]
  rfl

theorem run_cons_inv {w : Who} {x : Access} {sched : List (Who × Access)} {P' : Process bs.State B} {done : List Op}
    (hrun : P.run bs pol ((w, x) :: sched) = some (P', done)) :
    ∃ m r done', attempt bs pol (P.machine w) x = some (m, r) ∧ (P.put w m).run bs pol sched = some (P', done') ∧
      done = (if r.isSome then [x.op] else []) ++ done' := by
  obtain ⟨⟨P₁, done₁⟩, e₁, hrest⟩ := Option.bind_eq_some_iff.1 hrun
  obtain ⟨⟨m, r⟩, e, h₁⟩ := Option.bind_eq_some_iff.1 e₁
  obtain ⟨⟨P₂, done₂⟩, e₂, h₂⟩ := Option.bind_eq_some_iff.1 hrest
  cases h₁
  cases h₂
  exact ⟨m, r, done₂, e, e₂, rfl⟩

/-- **What every try keeps, a run keeps**; the memory goes along with the operations performed. -/
theorem run_induct {ok : Who × Access → Prop} (I : Process bs.State B → (Nat → UInt8) → Prop)
    (hstep : ∀ {P mem w x m r}, ok (w, x) → I P mem → attempt bs pol (P.machine w) x = some (m, r) →
      I (P.put w m) (memAfter mem (if r.isSome then [x.op] else []))) :
    ∀ (sched : List (Who × Access)) {P P' : Process bs.State B} {done : List Op} {mem : Nat → UInt8},
      (∀ s ∈ sched, ok s) → I P mem → P.run bs pol sched = some (P', done) → I P' (memAfter mem done)
  | [], _, _, _, _, _, hi, he => by
    cases he
    exact hi
  | (w, x) :: sched, _, _, _, _, hok, hi, he => by
    obtain ⟨m, r, done', e, e', rfl⟩ := run_cons_inv he
    rw [← memAfter_append]
    exact run_induct I hstep sched (fun s hmem => hok s (List.mem_cons_of_mem _ hmem))
      (hstep (hok _ List.mem_cons_self) hi e) e'

/-- **What a try does.** -/
theorem attempt_cases {m m' : Machine bs.State B} {x : Access} {r : Option (Option UInt8)}
    (he : attempt bs pol m x = some (m', r)) : x.addr / B < m.pt.npages ∧
      (((m.pt.pageBits (x.addr / B)).allows x.writes = true ∧ m' = (x.perform m).1 ∧ r = some (x.perform m).2) ∨
        (m.pt.pageBits (x.addr / B)).allows x.writes = false ∧ pageFaultHandler bs pol m (x.addr / B) = some m' ∧
          r = none) := by
  unfold attempt at he
  split at he
  · refine ⟨‹_›, ?_⟩
    split at he
    · cases he
      exact Or.inl ⟨‹_›, rfl, rfl⟩
    · obtain ⟨m₁, e₁, he⟩ := Option.bind_eq_some_iff.1 he
      cases he
      exact Or.inr ⟨Bool.eq_false_iff.2 ‹_›, e₁, rfl⟩
  · cases he

theorem Shows.perform {m : Machine bs.State B} {s e : Nat} {x : Access} (hs : Shows bs m mem) (hc : Core bs m.pt s e)
    (ha : x.addr / B < npages) (hb : (m.pt.pageBits (x.addr / B)).allows x.writes = true) :
    Shows bs (x.perform m).1 (memAfter mem [x.op]) ∧ ∀ a, x = .load a → (x.perform m).2 = some (mem a) := by
  have hne : m.pt.pageBits (x.addr / B) ≠ .none := fun h => by rw [h] at hb; cases hb
  cases x with
  | load a =>
    refine ⟨hs, ?_⟩
    rintro _ ⟨⟩
    exact congrArg some (hs.loadByte ha hne)
  | store a v => exact ⟨hs.storeByte hc ⟨hc.pages.symm ▸ ha, hne⟩ v, fun _ h => by cases h⟩

/-- An access that is performed keeps the crew, whoever performs it. -/
theorem Crew.perform (hc : Crew bs pol T n owner P) (w : Who) {x : Access} (ha : x.addr / B < npages)
    (hb : (P.pt.pageBits (x.addr / B)).allows x.writes = true) :
    Crew bs pol T n owner (P.put w (x.perform (P.machine w)).1) := by
  cases x with
  | load a =>
    rw [show P.put w ((Access.load a).perform (P.machine w)).1 = P from put_self P w]
    exact hc
  | store a v =>
    rw [show P.put w ((Access.store a v).perform (P.machine w)).1 = { P with pt := (storeByte (P.machine w) a v).pt } from
      put_self { P with pt := (storeByte (P.machine w) a v).pt } w]
    exact hc.poke ha (allows_write hb) _

/-- **A try of a worker** keeps the crew, and does to the bytes shown what it says. -/
theorem Crew.tried (hc : Crew bs pol T n owner P) (hs : Shows bs (P.machine .main) mem) (ht : t < T) {x : Access}
    (ho : owner (x.addr / B) = t) {m' : Machine bs.State B} {r : Option (Option UInt8)}
    (he : attempt bs pol (P.machine (.worker t)) x = some (m', r)) :
    Crew bs pol T n owner (P.put (.worker t) m') ∧
      Shows bs ((P.put (.worker t) m').machine .main) (memAfter mem (if r.isSome then [x.op] else [])) ∧
      m'.pt.pageBits (x.addr / B) ≠ .none ∧ (∀ q, owner q ≠ t → m'.pt.pageBits q = P.pt.pageBits q) ∧
      ∀ a b, x = .load a → r = some b → b = some (mem a) := by
  obtain ⟨hlt, ⟨hb, rfl, rfl⟩ | ⟨hb, e, rfl⟩⟩ := attempt_cases he
  · have ha : x.addr / B < npages := hc.pages ▸ hlt
    have hbits : (x.perform (P.machine (.worker t))).1.pt.pageBits = P.pt.pageBits := by cases x <;> rfl
    obtain ⟨hs', hload⟩ := Shows.perform (m := P.machine (.worker t)) hs hc.core ha hb
    refine ⟨hc.perform _ ha hb, hs', ?_, fun q _ => by rw [hbits], ?_⟩
    · rw [hbits]
      intro h
      have hb : (P.pt.pageBits (x.addr / B)).allows x.writes = true := hb
      rw [h] at hb
      cases hb
    · rintro a b hx ⟨⟩
      exact hload a hx
  · have hrw : P.pt.pageBits (x.addr / B) ≠ .readWrite := fun h => by
      have hb : (P.pt.pageBits (x.addr / B)).allows x.writes = false := hb
      rw [h] at hb
      cases hb
    obtain ⟨hc', hk, hbits, hothers⟩ := hc.fault ht (hc.pages ▸ hlt) ho hrw e
    exact ⟨hc', Shows.kept (m := P.machine .main) hs hk, hbits, hothers, fun _ _ _ h => by cases h⟩

theorem Crew.tries (hc : Crew bs pol T n owner P) (hfit : AgesFit pol n npages) (ht : t < T) {x : Access}
    (ha : x.addr < npages * B) (ho : owner (x.addr / B) = t) :
    ∃ m' r, attempt bs pol (P.machine (.worker t)) x = some (m', r) := by
  have hpage : x.addr / B < npages := Nat.div_lt_of_lt_mul (by rw [Nat.mul_comm]; exact ha)
  have hlt : x.addr / B < (P.machine (.worker t)).pt.npages := Nat.lt_of_lt_of_eq hpage hc.pages.symm
  cases hb : (P.pt.pageBits (x.addr / B)).allows x.writes with
  | true  => exact ⟨_, _, attempt_of_allows hlt hb⟩
  | false =>
    obtain ⟨m', e⟩ := hc.faults hfit ht hpage ho (fun h => by rw [h] at hb; cases hb)
    exact ⟨m', none, by rw [attempt_of_fault hlt hb, e]; rfl⟩

/-- A schedule of the workers' tries, each at a page of its own. -/
def Scheduled (B npages T : Nat) (owner : Nat → Nat) (sched : List (Who × Access)) : Prop :=
  ∀ s ∈ sched, s.2.addr < npages * B ∧ owner (s.2.addr / B) < T ∧ s.1 = .worker (owner (s.2.addr / B))

/-- **Whatever the schedule**, the workers stay a crew, and the bytes shown are those last stored. -/
theorem Crew.run {P' : Process bs.State B} {sched : List (Who × Access)} {done : List Op} (hc : Crew bs pol T n owner P)
    (hs : Shows bs (P.machine .main) mem) (hsched : Scheduled B npages T owner sched)
    (he : P.run bs pol sched = some (P', done)) : Crew bs pol T n owner P' ∧
      Shows bs (P'.machine .main) (memAfter mem done) ∧ P'.threads .main = P.threads .main := by
  refine run_induct (fun Q μ => Crew bs pol T n owner Q ∧ Shows bs (Q.machine .main) μ ∧
    Q.threads .main = P.threads .main) (fun {Q _ w x m r} hok ⟨hc, hs, hmain⟩ e => ?_) sched hsched ⟨hc, hs, rfl⟩ he
  obtain ⟨-, ht, hw⟩ := hok
  obtain rfl : w = .worker (owner (x.addr / B)) := hw
  obtain ⟨hc', hs', -⟩ := hc.tried hs ht rfl e
  exact ⟨hc', hs', (put_threads_of_ne Q m Who.noConfusion).trans hmain⟩

/-- The others leave a worker's pages as they are. -/
theorem Crew.run_bits {P' : Process bs.State B} {sched : List (Who × Access)} {done : List Op} {q : Nat}
    (hc : Crew bs pol T n owner P) (hs : Shows bs (P.machine .main) mem) (hsched : Scheduled B npages T owner sched)
    (hnot : ∀ s ∈ sched, s.1 ≠ .worker (owner q)) (he : P.run bs pol sched = some (P', done)) :
    P'.pt.pageBits q = P.pt.pageBits q := by
  refine (run_induct (fun Q μ => (Crew bs pol T n owner Q ∧ Shows bs (Q.machine .main) μ) ∧
    Q.pt.pageBits q = P.pt.pageBits q) (fun {Q _ w x m r} hok ⟨⟨hc, hs⟩, hbits⟩ e => ?_) sched
    (fun s hmem => And.intro (hsched s hmem) (hnot s hmem)) ⟨⟨hc, hs⟩, rfl⟩ he).2
  obtain ⟨⟨-, ht, hw⟩, hne⟩ := hok
  obtain rfl : w = .worker (owner (x.addr / B)) := hw
  obtain ⟨hc', hs', -, hbits', -⟩ := hc.tried hs ht rfl e
  exact ⟨⟨hc', hs'⟩, (hbits' q (fun h => hne (congrArg Who.worker h.symm))).trans hbits⟩

/-- **No schedule comes to an abort** while FIFO's ages fit. -/
theorem Crew.runs (hfit : AgesFit pol n npages) : ∀ (sched : List (Who × Access)) {P : Process bs.State B},
    Crew bs pol T n owner P → Scheduled B npages T owner sched → ∃ P' done, P.run bs pol sched = some (P', done)
  | [], P, _, _ => ⟨P, [], rfl⟩
  | (w, x) :: sched, P, hc, hsched => by
    obtain ⟨ha, ht, hw⟩ := hsched _ List.mem_cons_self
    obtain rfl : w = .worker (owner (x.addr / B)) := hw
    obtain ⟨m₁, r, e₁⟩ := hc.tries hfit ht ha rfl
    have hs : Shows bs (P.machine .main) (fun a => shown bs P.pt (a / B) (Fin.ofNat B a)) := fun _ _ => rfl
    obtain ⟨P', done, e'⟩ := Crew.runs hfit sched (hc.tried hs ht rfl e₁).1
      (fun s hmem => hsched s (List.mem_cons_of_mem _ hmem))
    exact ⟨P', _, run_cons e₁ e'⟩

end Runs

/-! ## Registration -/

section Register

variable {pol : Policy} {T n : Nat}

/-- **After registration** no page is resident, every page has its bytes, and the main thread has no keys. -/
theorem Between.register {m m' : Machine bs.State B} (hb : Between bs pol n m)
    (hreg : registerVmemThreads bs pol T m = some m') : 0 < T ∧ m'.pt.nframes = n ∧ Kept bs m.pt m'.pt ∧
      m'.th.startFrame = m.th.startFrame ∧ (pol = .fifo → ∀ i, m'.pt.frameState i = 0 ∧ m'.pt.framePage i = 0) ∧
      Paged bs pol (kept pol m.th) m' [] [] := by
  obtain ⟨hn, hi, c, ks, h, hp⟩ := hb
  obtain ⟨m₁, e₁, he⟩ := Option.bind_eq_some_iff.1 hreg
  obtain ⟨vs, hd, hsub, hlt, hp₁⟩ := hp.flush_some hi.fifo e₁
  have hk := (hd.listed_nil hp.listed hsub hlt (Nat.zero_le _)).2
  have hn₁ := hd.nframes.trans hn
  split at he
  · cases he
  · split at he
    · cases he
    · refine ⟨by omega, ?_⟩
      split at he
      · next hpol =>
        subst hpol
        cases he
        have hl := hp₁.listed
        have hkeyed : Keyed .fifo 0 { m₁.pt with frameState := fun _ => 0, framePage := fun _ => 0 } m₁.th [] [] :=
          keyed_calloc .fifo (Nat.le.intro hl.span.symm) (fun _ _ _ _ => ⟨rfl, rfl⟩)
        refine ⟨hn₁, hk, hd.start, fun _ _ => ⟨rfl, rfl⟩, ?_⟩
        exact paged_of_empty hkeyed hl.pages hp₁.frames hl.span hl.memory (fun p hr => by cases (hl.res p).1 hr)
          (Nat.zero_le _) (Or.inl rfl)
      · cases he
        exact ⟨hn₁, hk, hd.start, fun h => absurd h ‹_›, hp₁⟩

theorem Between.fits {m : Machine bs.State B} {P : Process bs.State B} (hb : Between bs pol n m)
    (he : startWorkers bs pol T m = some P) : n * T ≤ npages := by
  obtain ⟨_, e', -⟩ := Option.bind_eq_some_iff.1 he
  obtain ⟨m₁, e₁, h₁⟩ := Option.bind_eq_some_iff.1 e'
  obtain ⟨hn₁, -, _, _, _, hp₁⟩ := hb.flush e₁
  split at h₁
  · cases h₁
  · next hle =>
    rw [hn₁, hp₁.listed.pages] at hle
    omega

theorem Between.starts {m : Machine bs.State B} (hb : Between bs pol n m) (hn : 0 < n) (hT : 0 < T)
    (hfits : T * n ≤ npages) : ∃ P, startWorkers bs pol T m = some P := by
  have hpages : 0 < npages := Nat.lt_of_lt_of_le (Nat.mul_pos hT hn) hfits
  obtain ⟨m₁, e₁⟩ := hb.flushes hpages
  obtain ⟨hn₁, -, _, _, _, hp₁⟩ := hb.flush e₁
  have hle : ¬ m₁.pt.nframes * T > m₁.pt.npages := by
    rw [hn₁, hp₁.listed.pages, Nat.mul_comm]
    omega
  unfold startWorkers registerVmemThreads
  rw [e₁]
  simp only [Option.bind_eq_bind, Option.bind_some]
  rw [if_neg hle, if_neg (by omega)]
  split <;> exact ⟨_, rfl⟩

theorem startWorkers_cases {m : Machine bs.State B} {P : Process bs.State B} (he : startWorkers bs pol T m = some P) :
    ∃ m', registerVmemThreads bs pol T m = some m' ∧ P.machine .main = m' ∧
      ∀ t, P.threads (.worker t) = initVmemThread P.pt.nframes t := by
  obtain ⟨m', e', he⟩ := Option.bind_eq_some_iff.1 he
  cases he
  exact ⟨m', e', rfl, fun _ => rfl⟩

/-- **The workers start as a crew**, whoever is to own which page. -/
theorem Between.crew {m : Machine bs.State B} {P : Process bs.State B} (hb : Between bs pol n m)
    (he : startWorkers bs pol T m = some P) (owner : Nat → Nat) :
    Crew bs pol T n owner P ∧ Kept bs m.pt P.pt ∧ 0 < T ∧ (P.threads .main).startFrame = m.th.startFrame ∧
      Paged bs pol (kept pol m.th) (P.machine .main) [] [] := by
  have hfits := hb.fits he
  obtain ⟨_, e', rfl, hth⟩ := startWorkers_cases he
  obtain ⟨hT, rfl, hk, hstart, hzero, hp⟩ := hb.register e'
  refine ⟨crew_start pol T owner P.rands P.calls hp.listed.pages hp.frames hfits (fun p hr => ?_) hzero hth, hk, hT,
    hstart, hp⟩
  cases (hp.listed.res p).1 hr

/-- A worker that begins has no pages. -/
theorem Between.worker {m : Machine bs.State B} {P : Process bs.State B} (hb : Between bs pol n m)
    (he : startWorkers bs pol T m = some P) {t : Nat} (ht : t < T) : Paged bs pol 0 (P.machine (.worker t)) [] [] := by
  have hfits := hb.fits he
  obtain ⟨_, e', rfl, hth⟩ := startWorkers_cases he
  obtain ⟨-, rfl, -, -, hzero, hp⟩ := hb.register e'
  unfold Process.machine
  rw [hth]
  refine paged_fresh pol _ _ hp.listed.pages hp.frames (Nat.succ_mul t _) (Or.inr (range_le ht hfits)) (fun p hr => ?_)
    (fun hpol i _ _ => hzero hpol i)
  cases (hp.listed.res p).1 hr

end Register

/-! ## A program as a schedule -/

theorem put_put {S : Type} (P : Process S B) (w : Who) (m m' : Machine S B) : (P.put w m).put w m' = P.put w m' := by
  unfold Process.put
  simp only [Function.update_idem]

section Schedules

variable [NeZero B] {pol : Policy} {P : Process bs.State B} {w : Who}

theorem run_append : ∀ (sched sched' : List (Who × Access)) {P P₁ : Process bs.State B} {done : List Op},
    P.run bs pol sched = some (P₁, done) →
    P.run bs pol (sched ++ sched') = (P₁.run bs pol sched').map (fun r => (r.1, done ++ r.2))
  | [], sched', P, _, _, he => by
    cases he
    rw [List.nil_append]
    cases P.run bs pol sched' <;> rfl
  | s :: sched, sched', P, P₁, done, he => by
    obtain ⟨⟨P₂, done₂⟩, e₂, he⟩ := Option.bind_eq_some_iff.1 he
    obtain ⟨⟨P₃, done₃⟩, e₃, he⟩ := Option.bind_eq_some_iff.1 he
    cases he
    rw [List.cons_append, Process.run, e₂]
    simp only [Option.bind_eq_bind, Option.bind_some]
    rw [run_append sched sched' e₃]
    cases P₁.run bs pol sched' with
    | none   => rfl
    | some r => simp

/-- An access alone is a number of tries. -/
theorem run_of_access {x : Access} : ∀ (fuel : Nat) {P : Process bs.State B} {m' : Machine bs.State B},
    access bs pol x.addr x.writes fuel (P.machine w) = some m' →
    ∃ k, P.run bs pol (List.replicate k (w, x)) = some (P.put w m', []) ∧
      attempt bs pol m' x = some ((x.perform m').1, some (x.perform m').2)
  | 0, _, _, he => by cases he
  | fuel + 1, P, m', he => by
    rw [access] at he
    split at he
    · next hlt =>
      split at he
      · next hb =>
        cases he
        exact ⟨0, by rw [put_self]; rfl, attempt_of_allows hlt hb⟩
      · next hb =>
        obtain ⟨m₁, e₁, he⟩ := Option.bind_eq_some_iff.1 he
        rw [← put_machine P w m₁] at he
        obtain ⟨k, hk, hlast⟩ := run_of_access fuel he
        have htry : attempt bs pol (P.machine w) x = some (m₁, none) := by
          rw [attempt_of_fault hlt (Bool.eq_false_iff.2 hb), e₁]
          rfl
        refine ⟨k + 1, ?_, hlast⟩
        rw [List.replicate_succ, ← put_put P w m₁ m']
        exact run_cons htry hk
    · cases he

theorem execOp_perform {fuel : Nat} {x : Access} {m m' : Machine bs.State B} {r : Option UInt8}
    (he : execOp bs pol fuel m x.op = some (m', r)) :
    ∃ m₁, access bs pol x.addr x.writes fuel m = some m₁ ∧ m' = (x.perform m₁).1 := by
  cases x with
  | load a =>
    obtain ⟨m₁, e₁, he⟩ := Option.bind_eq_some_iff.1 he
    cases he
    exact ⟨_, e₁, rfl⟩
  | store a v =>
    obtain ⟨m₁, e₁, he⟩ := Option.bind_eq_some_iff.1 he
    cases he
    exact ⟨_, e₁, rfl⟩

theorem run_of_execOp {fuel : Nat} {x : Access} {m' : Machine bs.State B} {r : Option UInt8}
    (he : execOp bs pol fuel (P.machine w) x.op = some (m', r)) :
    ∃ k, P.run bs pol (List.replicate k (w, x)) = some (P.put w m', [x.op]) := by
  obtain ⟨m₁, e₁, rfl⟩ := execOp_perform he
  obtain ⟨k, hk, hlast⟩ := run_of_access fuel e₁
  refine ⟨k + 1, ?_⟩
  rw [List.replicate_succ', run_append _ _ hk, Process.run, Process.step, put_machine, hlast]
  simp [Process.run, put_put]

/-- **What a thread can do alone, some schedule does.** -/
theorem run_of_runOps {fuel : Nat} : ∀ (ops : List Op) {P : Process bs.State B} {m' : Machine bs.State B},
    .flush ∉ ops → runOps bs pol fuel (P.machine w) ops = some m' →
    ∃ sched, (∀ s ∈ sched, s.1 = w ∧ s.2.addr / B ∈ touched B ops) ∧ P.run bs pol sched = some (P.put w m', ops)
  | [], P, _, _, he => by
    cases he
    exact ⟨[], fun s hs => (by cases hs), by rw [put_self]; rfl⟩
  | op :: ops, P, m', hops, he => by
    rw [List.mem_cons, not_or] at hops
    obtain ⟨x, rfl⟩ : ∃ x : Access, op = x.op := by
      cases op with
      | load a    => exact ⟨.load a, rfl⟩
      | store a v => exact ⟨.store a v, rfl⟩
      | flush     => exact absurd rfl hops.1
    obtain ⟨⟨m₁, r⟩, e₁, he⟩ := Option.bind_eq_some_iff.1 he
    rw [← put_machine P w m₁] at he
    obtain ⟨k, hk⟩ := run_of_execOp e₁
    obtain ⟨sched, hsched, e'⟩ := run_of_runOps ops hops.2 he
    have hpage : x.op.page? B = some (x.addr / B) := by cases x <;> rfl
    refine ⟨List.replicate k (w, x) ++ sched, fun s hs => ?_, ?_⟩
    · rw [touched_cons hpage]
      rcases List.mem_append.1 hs with hs | hs
      · rw [(List.mem_replicate.1 hs).2]
        exact ⟨rfl, List.mem_cons_self⟩
      · exact ⟨(hsched s hs).1, List.mem_cons_of_mem _ (hsched s hs).2⟩
    · rw [run_append _ _ hk, e', put_put]
      rfl

end Schedules

/-! ## Workers page independently -/

section Results

variable [NeZero B]

/-- The bytes of a backing store. -/
def BackingStore.bytes (bs : BackingStore B npages) (store : bs.State) (a : Nat) : UInt8 :=
  bs.content store (a / B) (Fin.ofNat B a)

/-- Each resident page is in a frame of its owner's, and in no other page's. -/
def Separate {S : Type} (owner : Nat → Nat) (n : Nat) (pt : PageTable S B) : Prop :=
  (∀ p, Resident pt p → owner p * n ≤ pt.pageMapping p ∧ pt.pageMapping p < (owner p + 1) * n) ∧
    ∀ p q, Resident pt p → Resident pt q → pt.pageMapping p = pt.pageMapping q → p = q

/-- A load of a worker returns what `mem` has, if it is performed; and it is performed at the second try at the latest,
whatever the others do in between. -/
def LoadsReturn (bs : BackingStore B npages) (pol : Policy) (T : Nat) (owner : Nat → Nat) (P : Process bs.State B)
    (mem : Nat → UInt8) : Prop :=
  ∀ t a, t < T → a < npages * B → owner (a / B) = t →
    (∀ m b, attempt bs pol (P.machine (.worker t)) (.load a) = some (m, some b) → b = some (mem a)) ∧
    ∀ sched, Scheduled B npages T owner sched → (∀ s ∈ sched, s.1 ≠ .worker t) →
      ∃ P' done m, P.run bs pol ((.worker t, .load a) :: sched) = some (P', done) ∧
        attempt bs pol (P'.machine (.worker t)) (.load a) = some (m, some (some (memAfter mem done a)))

theorem Crew.loadsReturn {pol : Policy} {T n : Nat} {owner : Nat → Nat} {P : Process bs.State B} {mem : Nat → UInt8}
    (hc : Crew bs pol T n owner P) (hfit : AgesFit pol n npages) (hs : Shows bs (P.machine .main) mem) :
    LoadsReturn bs pol T owner P mem := by
  intro t a ht ha ho
  refine ⟨fun m b he => (hc.tried hs ht (x := .load a) ho he).2.2.2.2 a b rfl rfl, fun sched hsched hnot => ?_⟩
  have hpage : a / B < npages := Nat.div_lt_of_lt_mul (by rw [Nat.mul_comm]; exact ha)
  obtain ⟨m₁, r, e₁⟩ := hc.tries hfit ht (x := .load a) ha ho
  obtain ⟨hc₁, hs₁, hb₁, -⟩ := hc.tried hs ht (x := .load a) ho e₁
  obtain ⟨P', done, e'⟩ := hc₁.runs hfit sched hsched
  obtain ⟨hc', hs', -⟩ := hc₁.run hs₁ hsched e'
  have hb' : P'.pt.pageBits (a / B) ≠ .none := by
    rw [hc₁.run_bits hs₁ hsched (ho.symm ▸ hnot) e']
    exact hb₁
  have hlt : a / B < (P'.machine (.worker t)).pt.npages := Nat.lt_of_lt_of_eq hpage hc'.pages.symm
  have hload : attempt bs pol (P'.machine (.worker t)) (.load a) =
      some (P'.machine (.worker t), some (some (loadByte (P'.machine (.worker t)) a))) :=
    attempt_of_allows (x := .load a) hlt (allows_read hb')
  rw [memAfter_append] at hs'
  rw [Shows.loadByte (m := P'.machine (.worker t)) hs' hpage hb'] at hload
  exact ⟨P', _, _, run_cons e₁ e', hload⟩

/-- FIFO with too many frames: worker 0 alone gets an age to its end. -/
theorem Between.stuck {T n : Nat} {m : Machine bs.State B} {P : Process bs.State B} (hb : Between bs .fifo n m)
    (he : startWorkers bs .fifo T m = some P) (hbig : 2 ^ 30 ≤ min n npages) :
    ∃ sched, Scheduled B npages T (fun _ => 0) sched ∧ P.run bs .fifo sched = none := by
  obtain ⟨hc, -, hpos, -⟩ := hb.crew he (fun _ => 0)
  have hp := hb.worker he hpos
  obtain ⟨ops, m', hops, e', hpages, hb', hnone⟩ := handler_overflow hp (by
    rw [show (P.machine (.worker 0)).pt.nframes = n from hc.nframes]
    exact hbig)
  obtain ⟨sched, hsched, hrun⟩ := run_of_runOps ops hops e'
  obtain ⟨-, hlt⟩ := (stable_paged .fifo 0 n).runOps ops (fun hm => absurd hm hops) ⟨hc.nframes, _, _, hp⟩ e'
  refine ⟨sched ++ [(.worker 0, .store 0 0)], fun s hs => ?_, ?_⟩
  · have hB : 0 < B := Nat.pos_of_ne_zero (NeZero.ne B)
    rcases List.mem_append.1 hs with hs | hs
    · obtain ⟨hw, hpage⟩ := hsched s hs
      exact ⟨(Nat.div_lt_iff_lt_mul hB).1 (hlt _ hpage), hpos, hw⟩
    · rw [List.mem_singleton.1 hs]
      exact ⟨Nat.mul_pos (by omega) hB, hpos, rfl⟩
  · have hzero : (Access.store 0 0).addr / B = 0 := Nat.zero_div B
    have hlast : attempt bs .fifo m' (.store 0 0) = none := by
      rw [attempt_of_fault (by rw [hzero]; omega) (by rw [hzero, hb']; rfl), hzero, hnone]
      rfl
    rw [run_append _ _ hrun, Process.run, Process.step, put_machine, hlast]
    rfl

/-- **Workers page independently.**  After any program of the main thread, `register_vmem_threads` for one worker at least
returns.  From then on no schedule of tries in which each page is accessed by its owner only comes to an abort; resident
pages are in frames of their owners, no two in one; and loads return what was last stored, by the main thread or by the
workers.  This is so for every policy but FIFO, and for FIFO exactly if its ages cannot leave an `int`. -/
theorem workers_page_iff (pol : Policy) {nframes T : Nat} (hn : 1 ≤ nframes) (hT : T * nframes ≤ npages)
    (store : bs.State) (physmem : Nat → Block B) :
    (∀ rands fuel ops m, runOps bs pol fuel (initVirtualMemory bs nframes store physmem rands) ops = some m →
      (1 ≤ T → (startWorkers bs pol T m).isSome) ∧
      ∀ P owner sched, startWorkers bs pol T m = some P → Scheduled B npages T owner sched →
        ∃ P' done, P.run bs pol sched = some (P', done) ∧ Separate owner nframes P'.pt ∧
          LoadsReturn bs pol T owner P' (memAfter (bs.bytes store) (ops ++ done))) ↔
    (pol = .fifo → 1 ≤ T → 2 * nframes < 2 ^ 31) := by
  constructor
  · rintro hall rfl hpos
    by_contra hbig
    obtain ⟨hstart, hrun⟩ := hall (fun _ => 0) 0 [] _ rfl
    obtain ⟨P, eP⟩ := Option.isSome_iff_exists.1 (hstart hpos)
    have e₀ : runOps bs .fifo 0 (initVirtualMemory bs nframes store physmem (fun _ => 0)) [] = some _ := rfl
    obtain ⟨sched, hsched, hnone⟩ := (between_runOps hn e₀).stuck eP (by
      have := Nat.le_mul_of_pos_left nframes hpos
      omega)
    obtain ⟨P', done, e', -⟩ := hrun P _ sched eP hsched
    cases hnone.symm.trans e'
  · intro hfit rands fuel ops m e
    have hb := between_runOps hn e
    have hs : Shows bs (initVirtualMemory bs nframes store physmem rands) (bs.bytes store) := fun a _ => rfl
    obtain ⟨-, -, hs'⟩ := runOps_inv ops (initVirtualMemory_inv pol hn store physmem rands) hn hs e
    constructor
    · exact fun hpos => Option.isSome_iff_exists.2 (hb.starts hn hpos hT)
    · intro P owner sched eP hsched
      obtain ⟨hc, hk, hpos, -⟩ := hb.crew eP owner
      have hfit' : AgesFit pol nframes npages := fun hpol => by
        have := hfit hpol hpos
        omega
      obtain ⟨P', done, e'⟩ := hc.runs hfit' sched hsched
      obtain ⟨hc', hs', -⟩ := hc.run (hs'.kept hk) hsched e'
      rw [memAfter_append] at hs'
      exact ⟨P', done, e', ⟨fun p hr => hc'.frame hr, hc'.core.inj⟩, hc'.loadsReturn hfit' hs'⟩

/-- Two workers with a frame each: the page that worker 0 stored to is evicted while worker 1 waits for its load. -/
theorem workers_page_lru : ∃ P P' done, startWorkers (memStore 2 4) .lru 2
      (initVirtualMemory (memStore 2 4) 1 (fun _ _ => 0) (fun _ _ => 0) (fun _ => 0)) = some P ∧
    P.run (memStore 2 4) .lru [(.worker 0, .store 0 7), (.worker 1, .load 2), (.worker 0, .store 0 7),
      (.worker 0, .store 0 7), (.worker 0, .load 5), (.worker 1, .load 2)] = some (P', done) ∧
    Separate (fun p => p % 2) 1 P'.pt ∧
    LoadsReturn (memStore 2 4) .lru 2 (fun p => p % 2) P' (memAfter (fun _ => 0) done) := by
  have h := (@workers_page_iff 2 4 (memStore 2 4) _ .lru 1 2 (by decide) (by decide) (fun _ _ => 0) (fun _ _ => 0)).2
    (by decide) (fun _ => 0) 0 [] _ rfl
  obtain ⟨P, eP⟩ := Option.isSome_iff_exists.1 (h.1 (by decide))
  obtain ⟨P', done, e', hrest⟩ := h.2 P (fun p => p % 2) [(.worker 0, .store 0 7), (.worker 1, .load 2),
    (.worker 0, .store 0 7), (.worker 0, .store 0 7), (.worker 0, .load 5), (.worker 1, .load 2)] eP
    (by unfold Scheduled; decide)
  exact ⟨P, P', done, eP, e', hrest⟩

/-- FIFO with `2 ^ 30` frames and one worker, which comes to a fault that is undefined. -/
theorem workers_page_overflows : ∃ P sched, startWorkers (memStore 1 (2 ^ 30)) .fifo 1
      (initVirtualMemory (memStore 1 (2 ^ 30)) (2 ^ 30) (fun _ _ => 0) (fun _ _ => 0) (fun _ => 0)) = some P ∧
    Scheduled 1 (2 ^ 30) 1 (fun _ => 0) sched ∧ P.run (memStore 1 (2 ^ 30)) .fifo sched = none := by
  have hn : 1 ≤ 2 ^ 30 := by decide
  have e₀ : runOps (memStore 1 (2 ^ 30)) .fifo 0 (initVirtualMemory (memStore 1 (2 ^ 30)) (2 ^ 30) (fun _ _ => 0)
    (fun _ _ => 0) (fun _ => 0)) [] = some _ := rfl
  have hb := between_runOps hn e₀
  obtain ⟨P, eP⟩ := hb.starts hn (T := 1) (by decide) (by decide)
  obtain ⟨sched, hsched, hnone⟩ := hb.stuck eP (Nat.le_of_eq (Nat.min_self _).symm)
  exact ⟨P, sched, eP, hsched, hnone⟩

end Results

end Vmem
end Bb
