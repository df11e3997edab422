import BlueBridge.VmemThreads
/-!
# VmemMain — the main thread after its workers

The frames of the main thread are those of worker 0.  FIFO keeps who is in a frame in arrays that all threads share, so
it goes on where worker 0 stopped; the lists of the other policies are empty after the flush, and the first page that
the main thread faults goes into frame 0, whatever worker 0 left there.
-/
namespace Bb
namespace Vmem

open Cells Recency
open Function (update update_self update_of_ne)

variable {B npages : Nat} {bs : BackingStore B npages}

/-- No two resident pages have one frame. -/
def Exclusive {S : Type} (pt : PageTable S B) : Prop :=
  ∀ p q, Resident pt p → Resident pt q → pt.pageMapping p = pt.pageMapping q → p = q

/-! ## The main thread's range -/

/-- The main thread has the first `n` frames, through every program. -/
def Rooted (bs : BackingStore B npages) (pol : Policy) (n : Nat) (m : Machine bs.State B) : Prop :=
  Between bs pol n m ∧ m.th.startFrame = 0

theorem stable_rooted (pol : Policy) (n : Nat) : Stable bs pol (Rooted bs pol n) where
  pages := fun h => (stable_between pol n).pages h.1
  fault := fun ⟨hb, hs⟩ hpage hrw he => by
    obtain ⟨-, -, _, _, _, hp⟩ := id hb
    obtain ⟨_, _, -, hf, -⟩ := hp.fault_some hpage (fun _ => hrw) he
    exact ⟨(stable_between pol n).fault hb hpage hrw he, hf.start.trans hs⟩
  poke := fun b ⟨hb, hs⟩ hpage hrw => ⟨(stable_between pol n).poke b hb hpage hrw, hs⟩

theorem Rooted.flush {pol : Policy} {n : Nat} {m m' : Machine bs.State B} (hr : Rooted bs pol n m)
    (he : pageTableFlush bs pol m = some m') : Rooted bs pol n m' := by
  obtain ⟨hb, hs⟩ := hr
  obtain ⟨-, hi, _, _, _, hp⟩ := id hb
  obtain ⟨_, hd, -⟩ := hp.flush_some hi.fifo he
  exact ⟨hb.flush he, hd.start.trans hs⟩

theorem rooted_runOps [NeZero B] {pol : Policy} {nframes fuel : Nat} (hn : 1 ≤ nframes) {store : bs.State}
    {physmem : Nat → Block B} {rands : Nat → Nat} {ops : List Op} {m : Machine bs.State B}
    (hrun : runOps bs pol fuel (initVirtualMemory bs nframes store physmem rands) ops = some m) :
    Rooted bs pol nframes m := by
  have e₀ : runOps bs pol fuel (initVirtualMemory bs nframes store physmem rands) [] = some _ := rfl
  exact ((stable_rooted pol nframes).runOps ops (fun _ => Rooted.flush) ⟨between_runOps hn e₀, rfl⟩ hrun).1

theorem setEntry_some {S : Type} {m m' : Machine S B} {page frame : Nat} {bits : Prot}
    (he : pageTableSetEntry m page frame bits = some m') :
    (m.th.startFrame ≤ frame ∧ frame < m.th.endFrame) ∧ m' = { m with pt := m.pt.setEntry page frame bits } := by
  unfold pageTableSetEntry at he
  split at he
  · cases he
  · split at he
    · cases he
    · cases he
      exact ⟨by omega, rfl⟩

/-- **The handler of a resident page** grants it the right to be written, in a frame of its thread, or aborts. -/
theorem pageFaultHandler_grant {pol : Policy} {m m' : Machine bs.State B} {page : Nat} (hpage : page < m.pt.npages)
    (hb : m.pt.pageBits page ≠ .none) (he : pageFaultHandler bs pol m page = some m') :
    (m.th.startFrame ≤ m.pt.pageMapping page ∧ m.pt.pageMapping page < m.th.endFrame) ∧
      (m'.th.startFrame = m.th.startFrame ∧ m'.th.endFrame = m.th.endFrame) ∧
      m'.pt = { m.pt.grant page with frameState := m'.pt.frameState, framePage := m'.pt.framePage } := by
  cases pol with
  | fifo =>
    obtain ⟨_, eg, he⟩ := Option.bind_eq_some_iff.1 he
    cases (getEntry_eq m hpage).symm.trans eg
    obtain ⟨fs, -, he⟩ := Option.bind_eq_some_iff.1 he
    obtain ⟨m₁, e₁, he⟩ := Option.bind_eq_some_iff.1 ((if_neg hb).symm.trans he)
    obtain ⟨hin, rfl⟩ := setEntry_some e₁
    cases he
    exact ⟨hin, ⟨rfl, rfl⟩, rfl⟩
  | lru =>
    obtain ⟨_, eg, he⟩ := Option.bind_eq_some_iff.1 he
    cases (getEntry_eq m hpage).symm.trans eg
    obtain ⟨node, -, he⟩ := Option.bind_eq_some_iff.1 ((if_neg hb).symm.trans he)
    obtain ⟨l, -, he⟩ := Option.bind_eq_some_iff.1 he
    obtain ⟨hin, rfl⟩ := setEntry_some he
    exact ⟨hin, ⟨rfl, rfl⟩, rfl⟩
  | lfu =>
    obtain ⟨_, eg, he⟩ := Option.bind_eq_some_iff.1 he
    cases (getEntry_eq m hpage).symm.trans eg
    obtain ⟨node, -, he⟩ := Option.bind_eq_some_iff.1 ((if_neg hb).symm.trans he)
    obtain ⟨f, -, he⟩ := Option.bind_eq_some_iff.1 he
    obtain ⟨hin, rfl⟩ := setEntry_some he
    exact ⟨hin, ⟨rfl, rfl⟩, rfl⟩
  | rand =>
    obtain ⟨_, eg, he⟩ := Option.bind_eq_some_iff.1 he
    cases (getEntry_eq m hpage).symm.trans eg
    obtain ⟨hin, rfl⟩ := setEntry_some ((if_neg hb).symm.trans he)
    exact ⟨hin, ⟨rfl, rfl⟩, rfl⟩
  | ffifo =>
    obtain ⟨_, eg, he⟩ := Option.bind_eq_some_iff.1 he
    cases (getEntry_eq m hpage).symm.trans eg
    obtain ⟨hin, rfl⟩ := setEntry_some ((if_neg hb).symm.trans he)
    exact ⟨hin, ⟨rfl, rfl⟩, rfl⟩

/-! ## FIFO: the main thread in the place of worker 0 -/

section Fifo

variable {T n : Nat} {owner : Nat → Nat} {P P' : Process bs.State B}

/-- FIFO's arrays are all it has: only the range of a thread counts. -/
theorem Paged.fifo_thread {c : Nat} {pt : PageTable bs.State B} {th th' : Thread} {r r' : Nat → Nat} {k k' : Nat}
    {own : Nat → Bool} {ks h : List Nat} (hp : Paged bs .fifo c (Machine.restrict ⟨pt, th, r, k⟩ own) ks h)
    (hs : th'.startFrame = th.startFrame) (he : th'.endFrame = th.endFrame) :
    Paged bs .fifo c (Machine.restrict ⟨pt, th', r', k'⟩ own) ks h := by
  obtain ⟨hk, hl, hsp, hf, ho⟩ := hp
  refine ⟨?_, ?_, hsp, hf, ho⟩
  · show FifoArr _ th'.startFrame th'.endFrame _ _
    rw [hs, he]
    exact hk
  · show Listed _ _ th'.startFrame th'.endFrame _ _
    rw [hs, he]
    exact hl

theorem Crew.fifo_threads (hc : Crew bs .fifo T n owner P) (hpt : P'.pt = P.pt)
    (hth : ∀ t, t < T → (P'.threads (.worker t)).startFrame = t * n ∧ (P'.threads (.worker t)).endFrame = (t + 1) * n) :
    Crew bs .fifo T n owner P' where
  pages := hpt ▸ hc.pages
  nframes := hpt ▸ hc.nframes
  owned := hpt ▸ hc.owned
  start := fun t ht => (hth t ht).1
  part := fun t ht => by
    obtain ⟨ks, h, hp⟩ := hc.part t ht
    refine ⟨ks, h, ?_⟩
    unfold Process.machine
    rw [hpt]
    exact hp.fifo_thread ((hth t ht).1.trans (hc.start t ht).symm) ((hth t ht).2.trans (hc.stop ht).symm)

/-- A page that is out of the table may change its owner. -/
theorem Crew.reown (hc : Crew bs .fifo T n owner P) {page : Nat} (hb : P.pt.pageBits page = .none) (t : Nat) :
    Crew bs .fifo T n (update owner page t) P where
  pages := hc.pages
  nframes := hc.nframes
  owned := fun p hr => by
    have hne : p ≠ page := fun h => hr.2 (h ▸ hb)
    rw [update_of_ne hne]
    exact hc.owned p hr
  start := hc.start
  part := fun t' ht' => by
    have hres : P.pt.restrict (mine (update owner page t) t') = P.pt.restrict (mine owner t') := by
      refine congrArg (fun b => PageTable.mk _ _ _ b _ _ _ _) (funext fun q => ?_)
      show (if mine (update owner page t) t' q then P.pt.pageBits q else .none) =
        if mine owner t' q then P.pt.pageBits q else .none
      by_cases hq : q = page
      · rw [hq, hb, ite_self, ite_self]
      · rw [mine, update_of_ne hq]
        rfl
    obtain ⟨ks, h, hp⟩ := hc.part t' ht'
    refine ⟨ks, h, ?_⟩
    unfold Machine.restrict
    rw [show ((P.machine (.worker t')).pt.restrict (mine (update owner page t) t')) = _ from hres]
    exact hp

/-- **The workers and the main thread**, which has worker 0's frames. -/
structure Joined (bs : BackingStore B npages) (T n : Nat) (owner : Nat → Nat) (P : Process bs.State B) : Prop
    extends Crew bs .fifo T n owner P where
  some_worker : 0 < T
  main_start : (P.threads .main).startFrame = 0
  main_stop : (P.threads .main).endFrame = n

/-- **A fault of the main thread**: worker 0 could have had it. -/
theorem Joined.fault (hj : Joined bs T n owner P) {page : Nat} {m' : Machine bs.State B} (hpage : page < npages)
    (ho : owner page = 0) (hb : P.pt.pageBits page ≠ .readWrite)
    (he : pageFaultHandler bs .fifo (P.machine .main) page = some m') :
    Joined bs T n owner (P.put .main m') ∧ Kept bs P.pt m'.pt := by
  have hc := hj.toCrew
  have hT := hj.some_worker
  have hQ : Crew bs .fifo T n owner (P.put (.worker 0) (P.machine .main)) := by
    refine hc.fifo_threads rfl (fun t ht => ?_)
    by_cases h0 : t = 0
    · subst h0
      rw [put_threads, Nat.zero_mul, Nat.zero_add, Nat.one_mul]
      exact ⟨hj.main_start, hj.main_stop⟩
    · rw [put_threads_of_ne P _ (by simpa using h0)]
      exact ⟨hc.start t ht, hc.stop ht⟩
  obtain ⟨hQ', hk, -, -⟩ := hQ.fault hT hpage ho hb (by rw [put_machine]; exact he)
  rw [put_put] at hQ'
  have hstart := hQ'.start 0 hT
  have hstop := hQ'.stop hT
  rw [put_threads] at hstart hstop
  refine ⟨⟨hQ'.fifo_threads rfl (fun t ht => ?_), hT, ?_, ?_⟩, hk⟩
  · rw [put_threads_of_ne P _ Who.noConfusion]
    exact ⟨hc.start t ht, hc.stop ht⟩
  · rw [put_threads, hstart, Nat.zero_mul]
  · rw [put_threads, hstop, Nat.zero_add, Nat.one_mul]

variable [NeZero B] {mem : Nat → UInt8}

/-- **A try of the main thread.** -/
theorem Joined.tried (hj : Joined bs T n owner P) (hs : Shows bs (P.machine .main) mem) {x : Access}
    {m' : Machine bs.State B} {r : Option (Option UInt8)}
    (he : attempt bs .fifo (P.machine .main) x = some (m', r)) :
    (∃ owner', Joined bs T n owner' (P.put .main m')) ∧
      Shows bs ((P.put .main m').machine .main) (memAfter mem (if r.isSome then [x.op] else [])) := by
  have hc := hj.toCrew
  obtain ⟨hlt, ⟨hb, rfl, rfl⟩ | ⟨hb, e, rfl⟩⟩ := attempt_cases he
  · have ha : x.addr / B < npages := hc.pages ▸ hlt
    have hth : (x.perform (P.machine .main)).1.th = P.threads .main := by cases x <;> rfl
    refine ⟨⟨owner, hc.perform .main ha hb, hj.some_worker, ?_, ?_⟩, ?_⟩
    · rw [put_threads, hth, hj.main_start]
    · rw [put_threads, hth, hj.main_stop]
    · rw [put_machine]
      exact (Shows.perform (m := P.machine .main) hs hc.core ha hb).1
  · have hpage : x.addr / B < npages := hc.pages ▸ hlt
    have hrw : P.pt.pageBits (x.addr / B) ≠ .readWrite := fun h => by
      have hb : (P.pt.pageBits (x.addr / B)).allows x.writes = false := hb
      rw [h] at hb
      cases hb
    -- the page is out of the table, or in one of the first frames: then it is worker 0's
    obtain ⟨owner', hj', ho⟩ : ∃ owner', Joined bs T n owner' P ∧ owner' (x.addr / B) = 0 := by
      by_cases hnone : P.pt.pageBits (x.addr / B) = .none
      · exact ⟨_, ⟨hc.reown hnone 0, hj.some_worker, hj.main_start, hj.main_stop⟩, update_self _ _ _⟩
      · obtain ⟨⟨-, hstop⟩, -⟩ := pageFaultHandler_grant hlt hnone e
        have hstop : P.pt.pageMapping (x.addr / B) < n := hj.main_stop ▸ hstop
        have hframe := hc.frame ⟨hlt, hnone⟩
        refine ⟨owner, hj, by_contra fun hne => ?_⟩
        have := range_apart hne hframe.1 hframe.2
        omega
    obtain ⟨hj', hk⟩ := hj'.fault hpage ho hrw e
    exact ⟨⟨owner', hj'⟩, Shows.kept (m := P.machine .main) hs hk⟩

end Fifo

/-! ## One page -/

section OnePage

variable {pol : Policy} {P : Process bs.State B}

/-- The one page is in the one frame, or the main thread has no keys. -/
structure Single (bs : BackingStore B npages) (pol : Policy) (P : Process bs.State B) : Prop where
  core : Core bs P.pt 0 1
  main_start : (P.threads .main).startFrame = 0
  main_stop : (P.threads .main).endFrame = 1
  out : P.pt.pageBits 0 = .none → ∃ c, Paged bs pol c (P.machine .main) [] []

theorem Single.fault (hs : Single bs pol P) {m' : Machine bs.State B} (hpages : 0 < npages)
    (hb : P.pt.pageBits 0 ≠ .readWrite) (he : pageFaultHandler bs pol (P.machine .main) 0 = some m') :
    Single bs pol (P.put .main m') ∧ Kept bs P.pt m'.pt := by
  by_cases hnone : P.pt.pageBits 0 = .none
  · obtain ⟨c, hp⟩ := hs.out hnone
    obtain ⟨ks', mv, hp', hf, -⟩ := hp.fault_some hpages (fun _ => hb) he
    have hstart : m'.th.startFrame = 0 := hf.start.trans hs.main_start
    have hstop : m'.th.endFrame = 1 := hf.stop.trans hs.main_stop
    refine ⟨⟨?_, ?_, ?_, fun h => ?_⟩, (hf.listed hpages hp.listed).2⟩
    · have := hp'.listed.toCore
      rwa [hstart, hstop] at this
    · rw [put_threads, hstart]
    · rw [put_threads, hstop]
    · have hbits := hf.bits
      exact absurd (hbits.symm.trans h) mv.bits_ne_none
  · have hlt : 0 < P.pt.npages := hs.core.pages.symm ▸ hpages
    obtain ⟨-, ⟨hstart, hstop⟩, htable⟩ := pageFaultHandler_grant hlt hnone he
    obtain ⟨hcore, hshown⟩ := hs.core.upgrade ⟨hlt, hnone⟩
    refine ⟨⟨?_, ?_, ?_, fun h => ?_⟩, ?_, fun q _ => ?_⟩
    · show Core bs m'.pt 0 1
      rw [htable]
      exact ⟨hcore.pages, hcore.frame, hcore.backed, hcore.inj, hcore.clean⟩
    · rw [put_threads, hstart]
      exact hs.main_start
    · rw [put_threads, hstop]
      exact hs.main_stop
    · have h : m'.pt.pageBits 0 = .none := h
      rw [htable] at h
      have h : update P.pt.pageBits 0 .readWrite 0 = .none := h
      rw [update_self] at h
      cases h
    · rw [htable]
      rfl
    · rw [htable]
      exact hshown q

variable [NeZero B] {mem : Nat → UInt8}

theorem Single.perform (hs : Single bs pol P) {x : Access} (ha : x.addr / B < npages) (hzero : x.addr / B = 0)
    (hb : (P.pt.pageBits (x.addr / B)).allows x.writes = true) :
    Single bs pol (P.put .main (x.perform (P.machine .main)).1) := by
  cases x with
  | load a =>
    rw [show P.put .main ((Access.load a).perform (P.machine .main)).1 = P from put_self P .main]
    exact hs
  | store a v =>
    rw [show P.put .main ((Access.store a v).perform (P.machine .main)).1 =
      { P with pt := (storeByte (P.machine .main) a v).pt } from
      put_self { P with pt := (storeByte (P.machine .main) a v).pt } .main]
    have hw := allows_write hb
    have hne : P.pt.pageBits ((Access.store a v).addr / B) ≠ .none := by rw [hw]; exact Prot.noConfusion
    refine ⟨hs.core.poke ⟨hs.core.pages.symm ▸ ha, hne⟩ hw _, hs.main_start, hs.main_stop, fun h => ?_⟩
    rw [hzero] at hne
    exact absurd h hne

theorem Single.tried (hs : Single bs pol P) (hone : npages ≤ 1) (hshow : Shows bs (P.machine .main) mem) {x : Access}
    {m' : Machine bs.State B} {r : Option (Option UInt8)} (he : attempt bs pol (P.machine .main) x = some (m', r)) :
    Single bs pol (P.put .main m') ∧
      Shows bs ((P.put .main m').machine .main) (memAfter mem (if r.isSome then [x.op] else [])) := by
  obtain ⟨hlt, hcase⟩ := attempt_cases he
  have ha : x.addr / B < npages := hs.core.pages ▸ hlt
  have hzero : x.addr / B = 0 := Nat.lt_one_iff.1 (Nat.lt_of_lt_of_le ha hone)
  rcases hcase with ⟨hb, rfl, rfl⟩ | ⟨hb, e, rfl⟩
  · refine ⟨hs.perform ha hzero hb, ?_⟩
    rw [put_machine]
    exact (Shows.perform (m := P.machine .main) hshow hs.core ha hb).1
  · rw [hzero] at hb e
    have hrw : P.pt.pageBits 0 ≠ .readWrite := fun h => by
      have hb : (P.pt.pageBits 0).allows x.writes = false := hb
      rw [h] at hb
      cases hb
    obtain ⟨hs', hk⟩ := hs.fault (Nat.zero_lt_of_lt ha) hrw e
    exact ⟨hs', Shows.kept (m := P.machine .main) hshow hk⟩

end OnePage

/-! ## A frame for two pages -/

theorem Faulted.first {m m' : Machine bs.State B} {page : Nat} {ks' : List Nat} {mv : Move}
    (hf : Faulted bs m m' 0 page [] ks' mv) :
    m'.pt.pageMapping page = m.th.startFrame ∧ m'.pt.pageBits page = .read := by
  have hmv : mv = .fill m.th.startFrame := by
    have hturn := hf.turn
    cases hturn with
    | fill          => rw [List.length_nil, Nat.zero_add]
    | replace _ _ h => exact absurd h.symm (by simp)
    | grant h       => cases h
  subst hmv
  rw [hf.table]
  exact ⟨update_self .., update_self ..⟩

section Collision

variable [NeZero B] {pol : Policy}

/-- A thread without keys loads a page that is out of the table: into its first frame. -/
theorem attempt_first {m : Machine bs.State B} {a : Nat} (hk : Keyed pol 0 m.pt m.th [] []) (hn : 0 < m.pt.nframes)
    (hspan : m.th.endFrame = m.th.startFrame + m.pt.nframes) (hmem : m.th.startFrame < m.pt.npages)
    (hlt : a / B < m.pt.npages) (hb : m.pt.pageBits (a / B) = .none) : ∃ m', attempt bs pol m (.load a) = some (m', none) ∧
      (m'.pt.npages = m.pt.npages ∧ m'.pt.nframes = m.pt.nframes) ∧
      (m'.pt.pageMapping (a / B) = m.th.startFrame ∧ m'.pt.pageBits (a / B) = .read) ∧
      ∀ q, q ≠ a / B → m'.pt.pageBits q = m.pt.pageBits q ∧ m'.pt.pageMapping q = m.pt.pageMapping q := by
  have hheld : Held m.pt m.th.startFrame m.th.endFrame 0 [] (a / B) :=
    ⟨hlt, iff_of_true hb List.not_mem_nil, fun p hk => (by cases hk), hspan, fun _ _ => by simpa using hmem⟩
  obtain ⟨m', ks', mv, e, -, hf, -⟩ := pageFaultHandler_faulted hk hn hheld (Or.inl rfl) (fun _ => hn)
    (fun _ p hk => by cases hk)
  refine ⟨m', ?_, ⟨hf.pages, hf.nframes⟩, hf.first, fun q hq => hf.of_ne hq List.not_mem_nil⟩
  rw [attempt_of_fault (x := .load a) hlt (by rw [show (Access.load a).addr = a from rfl, hb]; rfl)]
  exact congrArg (Option.map (fun m => (m, none))) e

/-- **The collision**: worker 0 loads page 0 and the main thread page 1, and both are in frame 0. -/
theorem Rooted.collides {T n : Nat} {m : Machine bs.State B} {P : Process bs.State B}
    (hr : Rooted bs pol n m) (he : startWorkers bs pol T m = some P) (hpol : pol ≠ .fifo) (hcount : m.th.count = 0)
    (hpages : 2 ≤ npages) : ∃ P₁ P₂, P.run bs pol [(.worker 0, .load 0)] = some (P₁, []) ∧
      P₁.run bs pol [(.main, .load B)] = some (P₂, []) ∧ ¬ Exclusive P₂.pt := by
  obtain ⟨hc, -, hT, hstart, hmain⟩ := hr.1.crew he (fun _ => 0)
  rw [show kept pol m.th = 0 by rw [kept, hcount, ite_self]] at hmain
  have hnone : ∀ p, p < npages → P.pt.pageBits p = .none := fun p hp => (hmain.listed.bits_iff hp).2 List.not_mem_nil
  have hdiv₀ : 0 / B = 0 := Nat.zero_div B
  have hdiv₁ : B / B = 1 := Nat.div_self (Nat.pos_of_ne_zero (NeZero.ne B))
  have hp := hr.1.worker he hT
  have hstart₁ : (P.machine (.worker 0)).th.startFrame = 0 := (hc.start 0 hT).trans (Nat.zero_mul n)
  obtain ⟨m₁, e₁, ⟨hpt₁, hn₁⟩, hzero₁, hothers₁⟩ := attempt_first hp.keyed hp.frames hp.listed.span
    (a := 0) (by rw [hstart₁, hp.listed.pages]; omega) (by rw [hdiv₀, hp.listed.pages]; omega)
    (by rw [hdiv₀]; exact hnone 0 (by omega))
  rw [hdiv₀] at hzero₁ hothers₁
  have hpages₁ : m₁.pt.npages = npages := hpt₁.trans hp.listed.pages
  -- the main thread's lists say that all its frames are free
  have hmachine : (P.put (.worker 0) m₁).machine .main = ⟨m₁.pt, P.threads .main, m₁.rands, m₁.calls⟩ := by
    rw [Process.machine, put_threads_of_ne P m₁ Who.noConfusion]
    rfl
  obtain ⟨m₂, e₂, ⟨hpt₂, -⟩, hone₂, hothers₂⟩ := attempt_first
    (m := ⟨m₁.pt, P.threads .main, m₁.rands, m₁.calls⟩) (a := B) (hmain.keyed.of_nframes hpol hn₁)
    (Nat.lt_of_lt_of_eq hmain.frames hn₁.symm) (hmain.listed.span.trans (congrArg _ hn₁.symm))
    (by rw [show (P.threads .main).startFrame = 0 from hstart.trans hr.2, hpages₁]; omega)
    (by rw [hdiv₁]; exact hpages₁.symm ▸ hpages)
    (by rw [hdiv₁]; exact (hothers₁ 1 Nat.one_ne_zero).1.trans (hnone 1 hpages))
  rw [hdiv₁] at hone₂ hothers₂
  obtain ⟨hb₂, hmap₂⟩ := hothers₂ 0 Nat.zero_ne_one
  refine ⟨_, _, run_cons e₁ rfl, run_cons (hmachine.symm ▸ e₂) rfl, fun hex => ?_⟩
  have hlt₂ : m₂.pt.npages = npages := hpt₂.trans hpages₁
  refine absurd (hex 0 1 ⟨?_, ?_⟩ ⟨?_, ?_⟩ ?_) Nat.zero_ne_one
  · exact Nat.lt_of_lt_of_eq (by omega) hlt₂.symm
  · exact fun h => Prot.noConfusion (hzero₁.2.symm.trans (hb₂.symm.trans h))
  · exact Nat.lt_of_lt_of_eq hpages hlt₂.symm
  · exact fun h => Prot.noConfusion (hone₂.2.symm.trans h)
  · exact (hmap₂.trans (hzero₁.1.trans hstart₁)).trans (hone₂.1.trans (hstart.trans hr.2)).symm

end Collision

/-! ## The whole run -/

theorem Rooted.main_range {pol : Policy} {T n : Nat} {m : Machine bs.State B} {P : Process bs.State B}
    (hr : Rooted bs pol n m) (he : startWorkers bs pol T m = some P) :
    (P.threads .main).startFrame = 0 ∧ (P.threads .main).endFrame = n := by
  obtain ⟨hc, -, -, hstart, hmain⟩ := hr.1.crew he (fun _ => 0)
  have hspan : (P.threads .main).endFrame = (P.threads .main).startFrame + P.pt.nframes := hmain.listed.span
  have h0 := hstart.trans hr.2
  have hn := hc.nframes
  omega

section Results

variable [NeZero B] {pol : Policy}

/-- No frame has two pages; the bytes are those of `mem`, and a load of the main thread that is performed returns them. -/
structure Intact (bs : BackingStore B npages) (pol : Policy) (P : Process bs.State B) (mem : Nat → UInt8) : Prop where
  exclusive : Exclusive P.pt
  bytes : Shows bs (P.machine .main) mem
  loads : ∀ a m b, attempt bs pol (P.machine .main) (.load a) = some (m, some b) → b = some (mem a)

theorem Core.intact {P : Process bs.State B} {mem : Nat → UInt8} {s e : Nat} (hc : Core bs P.pt s e)
    (hs : Shows bs (P.machine .main) mem) : Intact bs pol P mem := by
  refine ⟨hc.inj, hs, fun a m b he => ?_⟩
  obtain ⟨hlt, ⟨hb, -, hr⟩ | ⟨-, -, hr⟩⟩ := attempt_cases he
  · cases hr
    exact (Shows.perform (m := P.machine .main) (x := .load a) hs hc (hc.pages ▸ hlt) hb).2 a rfl
  · cases hr

variable {T n : Nat} {m : Machine bs.State B} {P P₁ P₂ : Process bs.State B} {owner : Nat → Nat}
  {sched later : List (Who × Access)} {done₁ done₂ : List Op} {mem : Nat → UInt8}

/-- FIFO: the main thread goes on with the workers' frames. -/
theorem Rooted.intact_fifo (hr : Rooted bs .fifo n m) (eP : startWorkers bs .fifo T m = some P) (hs : Shows bs m mem)
    (hsched : Scheduled B npages T owner sched) (e₁ : P.run bs .fifo sched = some (P₁, done₁))
    (hlater : ∀ s ∈ later, s.1 = .main) (e₂ : P₁.run bs .fifo later = some (P₂, done₂)) :
    Intact bs .fifo P₂ (memAfter mem (done₁ ++ done₂)) := by
  obtain ⟨hc, hk, hT, -⟩ := hr.1.crew eP owner
  obtain ⟨hstart, hstop⟩ := hr.main_range eP
  obtain ⟨hc₁, hs₁, hmain₁⟩ := hc.run (hs.kept hk) hsched e₁
  have hj : Joined bs T n owner P₁ := ⟨hc₁, hT, by rw [hmain₁, hstart], by rw [hmain₁, hstop]⟩
  obtain ⟨⟨_, hj₂⟩, hs₂⟩ := run_induct (fun Q μ => (∃ owner, Joined bs T n owner Q) ∧ Shows bs (Q.machine .main) μ)
    (fun {Q μ w x m r} (hw : w = .main) ⟨⟨_, hj⟩, hs⟩ e => by subst hw; exact hj.tried hs e) later hlater
    ⟨⟨owner, hj⟩, hs₁⟩ e₂
  rw [memAfter_append] at hs₂
  exact hj₂.core.intact hs₂

/-- One page: there is nothing to collide with. -/
theorem Rooted.intact_single (hr : Rooted bs pol n m) (hn : 1 ≤ n) (hpol : pol ≠ .fifo) (hone : npages = 1)
    (eP : startWorkers bs pol T m = some P) (hs : Shows bs m mem) (hsched : Scheduled B npages T owner sched)
    (e₁ : P.run bs pol sched = some (P₁, done₁)) (hlater : ∀ s ∈ later, s.1 = .main)
    (e₂ : P₁.run bs pol later = some (P₂, done₂)) : Intact bs pol P₂ (memAfter mem (done₁ ++ done₂)) := by
  obtain ⟨hc, hk, hT, -, hmain⟩ := hr.1.crew eP owner
  obtain ⟨hstart, hstop⟩ := hr.main_range eP
  obtain ⟨hc₁, hs₁, hmain₁⟩ := hc.run (hs.kept hk) hsched e₁
  have hfits := hr.1.fits eP
  obtain rfl : n = 1 := by
    have := Nat.le_mul_of_pos_right n hT
    omega
  have hsingle : Single bs pol P₁ := by
    refine ⟨?_, by rw [hmain₁, hstart], by rw [hmain₁, hstop], fun hb => ⟨kept pol m.th, ?_⟩⟩
    · have hcore := hc₁.core
      rwa [show T * 1 = 1 by omega] at hcore
    · -- the main thread's lists are as the flush left them
      have hnone : ∀ p, ¬ Resident P₁.pt p := fun p hres => by
        have hlt : p < npages := hc₁.pages ▸ hres.1
        obtain rfl : p = 0 := by omega
        exact hres.2 hb
      have hn₁ : P₁.pt.nframes = P.pt.nframes := hc₁.nframes.trans hc.nframes.symm
      have hkeyed : Keyed pol (kept pol m.th) P₁.pt (P.threads .main) [] [] := hmain.keyed.of_nframes hpol hn₁
      have hroom : kept pol m.th ≤ P₁.pt.nframes := by
        have := hmain.listed.room
        rw [List.length_nil, Nat.zero_add] at this
        exact hn₁.symm ▸ this
      rw [Process.machine, hmain₁]
      exact paged_of_empty hkeyed hc₁.pages (Nat.lt_of_lt_of_eq Nat.zero_lt_one hc₁.nframes.symm)
        (by rw [hn₁]; exact hmain.listed.span) hmain.listed.memory hnone hroom hmain.only
  obtain ⟨hs₂, hshow₂⟩ := run_induct (fun Q μ => Single bs pol Q ∧ Shows bs (Q.machine .main) μ)
    (fun {Q μ w x m r} (hw : w = .main) ⟨hs, hshow⟩ e => by subst hw; exact hs.tried (by omega) hshow e) later hlater
    ⟨hsingle, hs₁⟩ e₂
  rw [memAfter_append] at hshow₂
  exact hs₂.core.intact hshow₂

/-- **Frames are exclusive to the end.**  The main thread runs a program, registers `T` workers, these run by any
schedule, and the main thread accesses pages again.  Then no two resident pages have one frame at any point, and the
main thread's loads see what was last stored, exactly if the policy is FIFO, or there is but one page, or the
registration does not return. -/
theorem main_exclusive_iff (pol : Policy) {nframes T : Nat} (hn : 1 ≤ nframes) (store : bs.State)
    (physmem : Nat → Block B) :
    (∀ rands fuel ops m P owner sched P₁ done₁ later P₂ done₂,
      runOps bs pol fuel (initVirtualMemory bs nframes store physmem rands) ops = some m →
      startWorkers bs pol T m = some P → Scheduled B npages T owner sched → P.run bs pol sched = some (P₁, done₁) →
      (∀ s ∈ later, s.1 = .main) → P₁.run bs pol later = some (P₂, done₂) →
      Exclusive m.pt ∧ Exclusive P₁.pt ∧ Intact bs pol P₂ (memAfter (bs.bytes store) (ops ++ done₁ ++ done₂))) ↔
    (pol = .fifo ∨ npages = 1 ∨ T = 0 ∨ npages < T * nframes) := by
  constructor
  · intro hall
    by_contra hnot
    rw [not_or, not_or, not_or] at hnot
    obtain ⟨hpol, hone, hT, hfits⟩ := hnot
    have e₀ : runOps bs pol 0 (initVirtualMemory bs nframes store physmem (fun _ => 0)) [] = some _ := rfl
    have hr := rooted_runOps hn e₀
    have hpages : 1 ≤ T * nframes := Nat.mul_pos (Nat.pos_of_ne_zero hT) hn
    obtain ⟨P, eP⟩ := hr.1.starts hn (Nat.pos_of_ne_zero hT) (by omega)
    obtain ⟨P₁, P₂, e₁, e₂, hbad⟩ := hr.collides eP hpol rfl (by omega)
    have hsched : Scheduled B npages T (fun _ => 0) [(.worker 0, .load 0)] := by
      intro s hs
      rw [List.mem_singleton.1 hs]
      exact ⟨Nat.mul_pos (by omega) (Nat.pos_of_ne_zero (NeZero.ne B)), Nat.pos_of_ne_zero hT, rfl⟩
    have hmain : ∀ s ∈ [(Who.main, Access.load B)], s.1 = .main := by simp
    exact hbad (hall _ 0 [] _ P _ _ P₁ [] _ P₂ [] e₀ eP hsched e₁ hmain e₂).2.2.exclusive
  · intro hcond rands fuel ops m P owner sched P₁ done₁ later P₂ done₂ e eP hsched e₁ hlater e₂
    have hr := rooted_runOps hn e
    have hs₀ : Shows bs (initVirtualMemory bs nframes store physmem rands) (bs.bytes store) := fun a _ => rfl
    obtain ⟨hi, -, hs⟩ := runOps_inv ops (initVirtualMemory_inv pol hn store physmem rands) hn hs₀ e
    obtain ⟨hc, hk, hT, -⟩ := hr.1.crew eP owner
    refine ⟨hi.core.inj, (hc.run (hs.kept hk) hsched e₁).1.core.inj, ?_⟩
    rw [List.append_assoc, ← memAfter_append]
    by_cases hpol : pol = .fifo
    · subst hpol
      exact hr.intact_fifo eP hs hsched e₁ hlater e₂
    · have hfits := hr.1.fits eP
      rw [Nat.mul_comm] at hfits
      have hone : npages = 1 := by
        rcases hcond with h | h | h | h
        · exact absurd h hpol
        · exact h
        · exact absurd h (Nat.pos_iff_ne_zero.1 hT)
        · exact absurd hfits (Nat.not_le.2 h)
      exact hr.intact_single hn hpol hone eP hs hsched e₁ hlater e₂

/-- FIFO with a frame for each of two workers: the main thread evicts a page of worker 0 and loads what it stored. -/
theorem main_exclusive_fifo : ∃ P P₁ P₂ done₁ done₂, startWorkers (memStore 2 4) .fifo 2
      (initVirtualMemory (memStore 2 4) 1 (fun _ _ => 0) (fun _ _ => 0) (fun _ => 0)) = some P ∧
    P.run (memStore 2 4) .fifo [(.worker 0, .store 0 7), (.worker 1, .load 2), (.worker 0, .store 0 7),
      (.worker 0, .store 0 7)] = some (P₁, done₁) ∧
    P₁.run (memStore 2 4) .fifo [(.main, .load 4), (.main, .load 0), (.main, .load 0)] = some (P₂, done₂) ∧
    Intact (memStore 2 4) .fifo P₂ (memAfter (fun _ => 0) (done₁ ++ done₂)) := by
  have hrun : ((startWorkers (memStore 2 4) .fifo 2
      (initVirtualMemory (memStore 2 4) 1 (fun _ _ => 0) (fun _ _ => 0) (fun _ => 0))).bind fun P =>
      (P.run (memStore 2 4) .fifo [(.worker 0, .store 0 7), (.worker 1, .load 2), (.worker 0, .store 0 7),
        (.worker 0, .store 0 7)]).bind fun r =>
      r.1.run (memStore 2 4) .fifo [(.main, .load 4), (.main, .load 0), (.main, .load 0)]).isSome = true := by decide
  obtain ⟨⟨P₂, done₂⟩, e⟩ := Option.isSome_iff_exists.1 hrun
  obtain ⟨P, eP, e⟩ := Option.bind_eq_some_iff.1 e
  obtain ⟨⟨P₁, done₁⟩, e₁, e₂⟩ := Option.bind_eq_some_iff.1 e
  have h := (@main_exclusive_iff 2 4 (memStore 2 4) _ .fifo 1 2 (by decide) (fun _ _ => 0) (fun _ _ => 0)).2 (Or.inl rfl)
    (fun _ => 0) 0 [] _ P (fun p => p % 2) _ P₁ done₁ _ P₂ done₂ rfl eP (by unfold Scheduled; decide) e₁ (by simp) e₂
  exact ⟨P, P₁, P₂, done₁, done₂, eP, e₁, e₂, h.2.2⟩

/-- LRU, two pages, a frame and one worker: it stores to page 0, and once the main thread has loaded page 1 a load of
page 0 reads page 1. -/
theorem main_exclusive_lru_lost : ∃ P P₁ P₂ done₁ done₂ m, startWorkers (memStore 1 2) .lru 1
      (initVirtualMemory (memStore 1 2) 1 (fun _ _ => 0) (fun _ _ => 0) (fun _ => 0)) = some P ∧
    P.run (memStore 1 2) .lru [(.worker 0, .store 0 7), (.worker 0, .store 0 7), (.worker 0, .store 0 7)] =
      some (P₁, done₁) ∧
    P₁.run (memStore 1 2) .lru [(.main, .load 1)] = some (P₂, done₂) ∧ ¬ Exclusive P₂.pt ∧
    lastStore 0 (done₁ ++ done₂) = some 7 ∧
    attempt (memStore 1 2) .lru (P₂.machine .main) (.load 0) = some (m, some (some 0)) := by
  have hrun : ((startWorkers (memStore 1 2) .lru 1
      (initVirtualMemory (memStore 1 2) 1 (fun _ _ => 0) (fun _ _ => 0) (fun _ => 0))).bind fun P =>
      (P.run (memStore 1 2) .lru [(.worker 0, .store 0 7), (.worker 0, .store 0 7), (.worker 0, .store 0 7)]).bind fun r₁ =>
      (r₁.1.run (memStore 1 2) .lru [(.main, .load 1)]).bind fun r₂ =>
      (attempt (memStore 1 2) .lru (r₂.1.machine .main) (.load 0)).map fun x =>
        (r₂.1.pt.npages, r₂.1.pt.pageBits 0, r₂.1.pt.pageBits 1, r₂.1.pt.pageMapping 0, r₂.1.pt.pageMapping 1,
          lastStore 0 (r₁.2 ++ r₂.2), x.2)) = some (2, .readWrite, .read, 0, 0, some 7, some (some 0)) := by rfl
  obtain ⟨P, eP, e⟩ := Option.bind_eq_some_iff.1 hrun
  obtain ⟨⟨P₁, done₁⟩, e₁, e⟩ := Option.bind_eq_some_iff.1 e
  obtain ⟨⟨P₂, done₂⟩, e₂, e⟩ := Option.bind_eq_some_iff.1 e
  obtain ⟨⟨m, r⟩, e₃, e⟩ := Option.map_eq_some_iff.1 e
  simp only [Prod.mk.injEq] at e
  obtain ⟨hn, hb₀, hb₁, hm₀, hm₁, hlast, rfl⟩ := e
  refine ⟨P, P₁, P₂, done₁, done₂, m, eP, e₁, e₂, fun hex => ?_, hlast, e₃⟩
  have h := hex 0 1 ⟨by omega, by rw [hb₀]; decide⟩ ⟨by omega, by rw [hb₁]; decide⟩ (hm₀.trans hm₁.symm)
  cases h

end Results

end Vmem
end Bb
