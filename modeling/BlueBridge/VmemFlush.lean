import Mathlib.Data.List.Dedup
import BlueBridge.VmemProgress
/-!
# VmemFlush — what `page_table_flush` writes, and what it leaves

The flush takes pages out one by one, in whatever order the policy finds them; FIFO goes through the name of every
frame, the stale ones too.  A page is written when it goes if it was written to, and a page that has gone is not written
again: so every written page is written back once (`flush_writes_back`).

Afterwards the thread has no keys and its frames are free, except that RAND's `count` of the frames given out is not
reset (`Paged.flush`): it fills what is left of them, which may have no memory, and then has nothing to evict.  So the
frames are available again exactly if there was nothing to flush (`flush_frees_iff`).
-/
namespace Bb
namespace Vmem

open Cells Recency
open Function (update update_self update_of_ne)

variable {B npages : Nat} {bs : BackingStore B npages}

/-! ## Calls of the backing store -/

inductive Call (B : Nat) where
  | read (page : Nat)
  | write (page : Nat) (b : Block B)

def Call.page : Call B → Nat
  | .read p    => p
  | .write p _ => p

/-- A backing store that keeps its calls, the latest first. -/
def BackingStore.logged (bs : BackingStore B npages) : BackingStore B npages where
  State := bs.State × List (Call B)
  content := fun s => bs.content s.1
  read := fun s p => ((bs.read s.1 p).1, (bs.read s.1 p).2, .read p :: s.2)
  write := fun s p b => (bs.write s.1 p b, .write p b :: s.2)
  read_val := fun s p => bs.read_val s.1 p
  read_content := fun s p q => bs.read_content s.1 p q
  write_content := fun s p b q => bs.write_content s.1 p b q

theorem dropPage_calls (pt : PageTable bs.logged.State B) (v : Nat) :
    (pt.dropPage bs.logged v).store.2 =
      (if pt.pageBits v = .readWrite then [.write v (pt.physmem (pt.pageMapping v))] else []) ++ pt.store.2 := by
  unfold PageTable.dropPage PageTable.setEntry
  split <;> rfl

/-- **Pages that go are written once if they were written to**, and not otherwise. -/
theorem dropAll_calls : ∀ (vs : List Nat) (pt : PageTable bs.logged.State B),
    ∃ calls, (pt.dropAll bs.logged vs).store.2 = calls ++ pt.store.2 ∧ (calls.map Call.page).Nodup ∧
      ∀ c, c ∈ calls ↔ ∃ p ∈ vs, pt.pageBits p = .readWrite ∧ c = .write p (pt.physmem (pt.pageMapping p))
  | [], pt => ⟨[], rfl, List.nodup_nil, fun c => by simp⟩
  | v :: vs, pt => by
    obtain ⟨calls, hcalls, hnd, hmem⟩ := dropAll_calls vs (pt.dropPage bs.logged v)
    rw [dropPage_bits, dropPage_physmem, dropPage_mapping] at hmem
    -- what goes later is another page: `v` has no rights left
    have hne : ∀ c ∈ calls, c.page ≠ v := by
      intro c hc
      obtain ⟨p, -, hb, rfl⟩ := (hmem c).1 hc
      rintro rfl
      rw [Call.page, update_self] at hb
      cases hb
    rw [dropAll_cons, hcalls, dropPage_calls, ← List.append_assoc]
    refine ⟨_, rfl, ?_, fun c => ?_⟩
    · rw [List.map_append, List.nodup_append]
      refine ⟨hnd, ?_, fun a ha b hb => ?_⟩
      · split
        · exact List.pairwise_singleton _ _
        · exact List.nodup_nil
      · obtain ⟨c, hc, rfl⟩ := List.mem_map.1 ha
        split at hb
        · rw [List.mem_singleton.1 hb]
          exact hne c hc
        · cases hb
    · rw [List.mem_append, hmem]
      constructor
      · rintro (⟨p, hp, hb, rfl⟩ | hc)
        · have hpv : p ≠ v := by
            rintro rfl
            rw [update_self] at hb
            cases hb
          rw [update_of_ne hpv] at hb
          exact ⟨p, List.mem_cons_of_mem _ hp, hb, rfl⟩
        · split at hc
          · exact ⟨v, List.mem_cons_self, ‹_›, List.mem_singleton.1 hc⟩
          · cases hc
      · rintro ⟨p, hp, hb, rfl⟩
        by_cases hpv : p = v
        · subst hpv
          right
          rw [if_pos hb]
          exact List.mem_singleton_self _
        · left
          exact ⟨p, (List.mem_cons.1 hp).resolve_left hpv, by rw [update_of_ne hpv]; exact hb, rfl⟩

/-! ## The flush -/

/-- **All keys gone**, and perhaps more than they. -/
theorem Drops.listed_nil {m m' : Machine bs.State B} {c c' : Nat} {ks vs : List Nat} (h : Drops bs m m' vs)
    (hl : Listed bs m.pt m.th.startFrame m.th.endFrame ks c) (hsub : ∀ p ∈ ks, p ∈ vs) (hlt : ∀ v ∈ vs, v < npages)
    (hc : c' ≤ m.pt.nframes) : Listed bs m'.pt m'.th.startFrame m'.th.endFrame [] c' ∧ Kept bs m.pt m'.pt := by
  obtain ⟨hcore, hk⟩ := hl.toCore.dropAll vs hlt
  have hres : ∀ p, ¬ Resident m'.pt p := by
    intro p hr
    rw [Resident, h.pages, h.bits] at hr
    by_cases hpv : p ∈ vs
    · rw [if_pos hpv] at hr
      exact hr.2 rfl
    · rw [if_neg hpv] at hr
      exact hpv (hsub p ((hl.res p).1 hr))
  rw [h.start, h.stop]
  refine ⟨⟨?_, List.nodup_nil, fun p => ⟨fun hr => absurd hr (hres p), fun hp => (by cases hp)⟩, fun p hp => (by cases hp),
    ?_, ?_, hl.memory⟩, ?_⟩
  · rw [h.table]; exact ⟨hcore.pages, hcore.frame, hcore.backed, hcore.inj, hcore.clean⟩
  · rw [h.nframes]; exact hl.span
  · rw [h.nframes]; exact hc
  · rw [h.table]; exact hk

/-- The frames that a flush leaves given out. -/
def kept (pol : Policy) (th : Thread) : Nat := if pol = .rand then th.count else 0

section Flush

variable {pol : Policy} {m m' : Machine bs.State B} {c : Nat} {ks h : List Nat}

/-- What is left is the same for all policies: no keys and no pages. -/
theorem Paged.dropped {vs : List Nat} (hp : Paged bs pol c m ks h) (hd : Drops bs m m' vs) (hsub : ∀ p ∈ ks, p ∈ vs)
    (hlt : ∀ v ∈ vs, v < npages) (hk : Keyed pol (kept pol m.th) m'.pt m'.th [] []) (hle : kept pol m.th ≤ m.pt.nframes) :
    Paged bs pol (kept pol m.th) m' [] [] := by
  refine ⟨hk, ?_, fun _ => Spread.nil _ _, by rw [hd.nframes]; exact hp.frames, ?_⟩
  · rw [List.length_nil, Nat.zero_add]
    exact (hd.listed_nil hp.listed hsub hlt hle).1
  · unfold kept
    split
    · exact Or.inr ‹_›
    · exact Or.inl rfl

/-- FIFO's arrays at the end of its flush. -/
theorem FifoFlush.arr (hf : FifoFlush bs m m.pt.nframes) (hn : ∀ j, j < m.pt.nframes → m.pt.framePage j < npages) :
    FifoArr m.pt m.th.startFrame m.th.endFrame [] [] := by
  have hstart := hf.start
  have hstop := hf.stop
  refine ⟨by rw [hstart, hstop]; exact Nat.zero_le _, fun i hs he => ⟨fun _ => hs, fun _ => ?_⟩, fun i hs hi => ?_,
    fun p hp => (by cases hp), fun p hp => (by cases hp), Recent.nil _, List.nodup_nil, fun _ i _ he => ?_⟩
  · exact hf.behind i (by rw [← hstop]; exact he)
  · rw [List.length_nil] at hi
    omega
  · rw [hf.pages]
    exact hn i (by rw [← hstop]; exact he)

/-- **The flush takes every key out.** -/
theorem Paged.flush (hp : Paged bs pol c m ks h) (hi : pol = .fifo → FifoInv bs m)
    (hname : pol = .fifo → ∀ j, j < m.pt.nframes → m.pt.framePage j < npages) :
    ∃ m' vs, pageTableFlush bs pol m = some m' ∧ Drops bs m m' vs ∧ (∀ p ∈ ks, p ∈ vs) ∧ (∀ v ∈ vs, v < npages) ∧
      Paged bs pol (kept pol m.th) m' [] [] := by
  have hfr := hp.listed.inFrames
  have hkeys : ∀ {vs : List Nat}, vs.Perm ks → (∀ p ∈ ks, p ∈ vs) ∧ ∀ v ∈ vs, v < npages := fun hperm =>
    ⟨fun p hpk => hperm.mem_iff.2 hpk, fun v hv => hp.listed.lt_npages (hperm.mem_iff.1 hv)⟩
  cases pol with
  | fifo =>
    have hn := hname rfl
    have hi := hi rfl
    obtain ⟨m', e, hd, hf, hfp⟩ := flushFifo_drops m.pt.nframes 0 hi.flush (Nat.zero_add _) hn
    have hlt : ∀ v ∈ (List.range' 0 m.pt.nframes).map m.pt.framePage, v < npages := by
      intro v hv
      obtain ⟨j, hj, rfl⟩ := List.mem_map.1 hv
      exact hn j (by simpa using hj)
    have hsub : ∀ p ∈ ks, p ∈ (List.range' 0 m.pt.nframes).map m.pt.framePage := by
      intro p hpk
      have hr := (hp.listed.res p).2 hpk
      refine List.mem_map.2 ⟨m.pt.pageMapping p, ?_, (hi.back p hr).2⟩
      simpa using hi.range p (hp.listed.lt_npages hpk)
    refine ⟨m', _, ?_, hd, hsub, hlt, hp.dropped hd hsub hlt ?_ (Nat.zero_le _)⟩
    · show flushFifo bs (List.range m.pt.nframes) m = _
      rw [List.range_eq_range']
      exact e
    · exact hf.arr (fun j hj => by rw [hfp]; exact hn j (by rw [← hd.nframes]; exact hj))
  | lru =>
    obtain ⟨L, hL, rfl⟩ := hp.keyed
    obtain ⟨m', e, hd, hk'⟩ := flushDll_drops m.th.dllList.count hL hfr (Nat.le_of_eq hL.dll.count.symm)
    obtain ⟨hsub, hlt⟩ := hkeys (List.reverse_perm _)
    exact ⟨m', _, e, hd, hsub, hlt, hp.dropped hd hsub hlt ⟨[], hd.nframes.symm ▸ hk', rfl⟩ (Nat.zero_le _)⟩
  | ffifo =>
    obtain ⟨L, hL, rfl⟩ := hp.keyed
    obtain ⟨m', e, hd, hk'⟩ := flushDll_drops m.th.dllList.count hL hfr (Nat.le_of_eq hL.dll.count.symm)
    obtain ⟨hsub, hlt⟩ := hkeys (List.reverse_perm _)
    exact ⟨m', _, e, hd, hsub, hlt, hp.dropped hd hsub hlt ⟨[], hd.nframes.symm ▸ hk', rfl⟩ (Nat.zero_le _)⟩
  | lfu =>
    obtain ⟨F, hF, rfl⟩ := hp.keyed
    obtain ⟨m', vs, e, hd, hperm, hk'⟩ := flushLfu_drops m.th.freqList.count hF.freq hF.hash hF.nodup hfr
      (Nat.le_of_eq hF.freq.count.symm)
    obtain ⟨hsub, hlt⟩ := hkeys hperm
    exact ⟨m', vs, e, hd, hsub, hlt, hp.dropped hd hsub hlt ⟨[], hd.nframes.symm ▸ hk', rfl⟩ (Nat.zero_le _)⟩
  | rand =>
    have hk := hp.keyed
    obtain ⟨m', vs, e, hd, hperm, hh⟩ := flushRand_all hp.frames hk.hash hk.nodup hfr
    obtain ⟨hsub, hlt⟩ := hkeys hperm
    have hcount : m.th.count ≤ m.pt.nframes := by
      have := hp.listed.room
      have := hk.count
      omega
    refine ⟨m', vs, e, hd, hsub, hlt, hp.dropped hd hsub hlt ⟨?_, List.nodup_nil, ?_⟩ hcount⟩
    · rw [hd.nframes]; exact hh
    · rw [hd.count, List.length_nil, Nat.zero_add]
      rfl

theorem Paged.flush_some (hp : Paged bs pol c m ks h) (hi : pol = .fifo → FifoInv bs m)
    (he : pageTableFlush bs pol m = some m') :
    ∃ vs, Drops bs m m' vs ∧ (∀ p ∈ ks, p ∈ vs) ∧ (∀ v ∈ vs, v < npages) ∧ Paged bs pol (kept pol m.th) m' [] [] := by
  have hname : pol = .fifo → ∀ j, j < m.pt.nframes → m.pt.framePage j < npages := by
    rintro rfl j hj
    have he : flushFifo bs (List.range m.pt.nframes) m = some m' := he
    rw [List.range_eq_range'] at he
    exact framePage_lt_of_flushFifo _ 0 (hi rfl).flush (Nat.zero_add _) he j (Nat.zero_le _) hj
  obtain ⟨m₁, vs, e₁, hrest⟩ := hp.flush hi hname
  cases e₁.symm.trans he
  exact ⟨vs, hrest⟩

/-- With a page to name, FIFO names pages only. -/
theorem Paged.names (hp : Paged bs pol c m ks h) (hi : pol = .fifo → FifoInv bs m) (hpages : 0 < npages) :
    pol = .fifo → ∀ j, j < m.pt.nframes → m.pt.framePage j < npages := by
  rintro rfl j hj
  have hstart := (hi rfl).start
  have hstop := (hi rfl).stop
  have := hp.keyed.names (by rw [hp.listed.pages]; exact hpages) j (by omega) (by omega)
  rwa [hp.listed.pages] at this

end Flush

theorem PolicyInv.fifo {pol : Policy} {m : Machine bs.State B} (hi : PolicyInv bs pol m) : pol = .fifo → FifoInv bs m := by
  rintro rfl
  exact hi

/-- **What holds between any two operations of a program**, flushes among them. -/
def Between (bs : BackingStore B npages) (pol : Policy) (n : Nat) (m : Machine bs.State B) : Prop :=
  m.pt.nframes = n ∧ PolicyInv bs pol m ∧ ∃ c ks h, Paged bs pol c m ks h

theorem stable_between (pol : Policy) (n : Nat) : Stable bs pol (Between bs pol n) where
  pages := fun ⟨_, _, _, _, _, hp⟩ => hp.listed.pages
  fault := fun ⟨hn, hi, c, ks, h, hp⟩ hpage hb he => by
    obtain ⟨ks', mv, hp', hf, -⟩ := hp.fault_some hpage (fun _ => hb) he
    exact ⟨hf.nframes.trans hn, (pageFaultHandler_inv hi hp.frames hpage he).1, c, ks', _, hp'⟩
  poke := fun b ⟨hn, hi, c, ks, h, hp⟩ hpage hb =>
    have hr : Resident _ _ := ⟨hp.listed.pages.symm ▸ hpage, by rw [hb]; exact Prot.noConfusion⟩
    ⟨hn, hi.poke hr hb b, c, ks, h, hp.poke hpage hb b⟩

theorem Between.flush {pol : Policy} {n : Nat} {m m' : Machine bs.State B} (hb : Between bs pol n m)
    (he : pageTableFlush bs pol m = some m') : Between bs pol n m' := by
  obtain ⟨hn, hi, c, ks, h, hp⟩ := hb
  obtain ⟨vs, hd, -, -, hp'⟩ := hp.flush_some hi.fifo he
  exact ⟨hd.nframes.trans hn, (pageTableFlush_inv hi he).1, _, [], [], hp'⟩

theorem between_runOps [NeZero B] {pol : Policy} {nframes fuel : Nat} (hn : 1 ≤ nframes) {store : bs.State}
    {physmem : Nat → Block B} {rands : Nat → Nat} {ops : List Op} {m : Machine bs.State B}
    (hrun : runOps bs pol fuel (initVirtualMemory bs nframes store physmem rands) ops = some m) :
    Between bs pol nframes m :=
  ((stable_between pol nframes).runOps ops (fun _ => Between.flush)
    ⟨rfl, initVirtualMemory_inv pol hn store physmem rands, 0, [], [], paged_initVirtualMemory pol hn store physmem rands⟩
    hrun).1

/-! ## Everything is written back -/

/-- What a flush from `m` to `m'` is to do over a store that keeps its calls. -/
structure WritesBack (bs : BackingStore B npages) (m m' : Machine bs.logged.State B) : Prop where
  bits : ∀ p, p < npages → m'.pt.pageBits p = .none
  content : ∀ p, p < npages → bs.content m'.pt.store.1 p = shown bs.logged m.pt p
  calls : ∃ calls, m'.pt.store.2 = calls ++ m.pt.store.2 ∧ (calls.map Call.page).Nodup ∧
    ∀ c, c ∈ calls ↔ ∃ p, p < npages ∧ m.pt.pageBits p = .readWrite ∧ c = .write p (shown bs.logged m.pt p)

theorem Between.writesBack {pol : Policy} {n : Nat} {m m' : Machine bs.logged.State B}
    (hb : Between bs.logged pol n m) (he : pageTableFlush bs.logged pol m = some m') : WritesBack bs m m' := by
  obtain ⟨-, hi, c, ks, h, hp⟩ := hb
  obtain ⟨vs, hd, hsub, hlt, hp'⟩ := hp.flush_some hi.fifo he
  have hnone : ∀ p, p < npages → m'.pt.pageBits p = .none := fun p hpn =>
    (hp'.listed.bits_iff hpn).2 List.not_mem_nil
  refine ⟨hnone, fun p hpn => ?_, ?_⟩
  · have hk := (hd.listed_nil hp.listed hsub hlt (Nat.zero_le _)).2
    rw [← hk.2 p hpn, shown_none (hnone p hpn)]
    rfl
  · obtain ⟨calls, hcalls, hnd, hmem⟩ := dropAll_calls vs m.pt
    refine ⟨calls, ?_, hnd, fun c => (hmem c).trans ⟨?_, ?_⟩⟩
    · rw [hd.table]
      exact hcalls
    · rintro ⟨p, hpv, hrw, rfl⟩
      exact ⟨p, hlt p hpv, hrw, by rw [shown_resident (by rw [hrw]; exact Prot.noConfusion)]⟩
    · rintro ⟨p, hpn, hrw, rfl⟩
      have hres : m.pt.pageBits p ≠ .none := by rw [hrw]; exact Prot.noConfusion
      have hpk : p ∈ ks := by_contra fun hk => hres ((hp.listed.bits_iff hpn).2 hk)
      exact ⟨p, hsub p hpk, hrw, by rw [shown_resident hres]⟩

theorem Between.flushes {pol : Policy} {n : Nat} {m : Machine bs.State B} (hb : Between bs pol n m)
    (hpages : 0 < npages) : ∃ m', pageTableFlush bs pol m = some m' := by
  obtain ⟨-, hi, c, ks, h, hp⟩ := hb
  obtain ⟨m', -, e, -⟩ := hp.flush hi.fifo (hp.names hi.fifo hpages)
  exact ⟨m', e⟩

section Results

variable [NeZero B]

/-- **A flush writes everything back.**  After any program of loads, stores and flushes, `page_table_flush` returns, and
leaves no page with rights; the store has every byte as last stored; and each page that could be written has been
written once, no other page at all. -/
theorem flush_writes_back (pol : Policy) {nframes : Nat} (hn : 1 ≤ nframes) (store : bs.State) (physmem : Nat → Block B)
    (rands : Nat → Nat) (fuel : Nat) (ops : List Op) {m : Machine bs.logged.State B}
    (hrun : runOps bs.logged pol fuel (initVirtualMemory bs.logged nframes (store, []) physmem rands) ops = some m) :
    (0 < npages → ∃ m', pageTableFlush bs.logged pol m = some m') ∧
    ∀ m', pageTableFlush bs.logged pol m = some m' → WritesBack bs m m' ∧
      ∀ a, a / B < npages → bs.content m'.pt.store.1 (a / B) (Fin.ofNat B a) =
        (lastStore a ops).getD (bs.content store (a / B) (Fin.ofNat B a)) := by
  have hb := between_runOps hn hrun
  refine ⟨hb.flushes, fun m' he => ⟨hb.writesBack he, fun a ha => ?_⟩⟩
  have hs : Shows bs.logged (initVirtualMemory bs.logged nframes (store, []) physmem rands)
      (fun a => bs.content store (a / B) (Fin.ofNat B a)) := fun a _ => rfl
  obtain ⟨-, -, hs'⟩ := runOps_inv ops (initVirtualMemory_inv pol hn _ physmem rands) hn hs hrun
  rw [(hb.writesBack he).content _ ha]
  exact hs' a ha

/-- FIFO with a frame that was never used, after a flush that leaves stale names. -/
theorem flush_writes_back_fifo : ∃ m m', runOps (memStore 2 3).logged .fifo 3
      (initVirtualMemory (memStore 2 3).logged 3 ((fun _ _ => 0), []) (fun _ _ => 0) (fun _ => 0))
      [.store 4 7, .load 2, .flush, .store 2 8] = some m ∧
    pageTableFlush (memStore 2 3).logged .fifo m = some m' ∧ WritesBack (memStore 2 3) m m' := by
  have hrun : (runOps (memStore 2 3).logged .fifo 3
      (initVirtualMemory (memStore 2 3).logged 3 ((fun _ _ => 0), []) (fun _ _ => 0) (fun _ => 0))
      [.store 4 7, .load 2, .flush, .store 2 8]).isSome = true := by decide
  obtain ⟨m, e⟩ := Option.isSome_iff_exists.1 hrun
  have h := flush_writes_back .fifo (by decide) _ _ _ 3 _ e
  obtain ⟨m', e'⟩ := h.1 (by decide)
  exact ⟨m, m', e, e', (h.2 m' e').1⟩

end Results

/-! ## The frames are free again -/

section Fill

variable {pol : Policy} {c : Nat} {D : List Nat}

/-- The keys are among the pages of `D`, and those of `K` among the keys. -/
def Filled (bs : BackingStore B npages) (pol : Policy) (c : Nat) (D K : List Nat) (m : Machine bs.State B) : Prop :=
  D.length + c ≤ m.pt.nframes ∧ ∃ ks h, Paged bs pol c m ks h ∧ ks ⊆ D ∧ K ⊆ ks

/-- While there is a frame for each page of `D`, a fault on one of them evicts nothing. -/
theorem Filled.fault {m m' : Machine bs.State B} {K : List Nat} {page : Nat} (hf : Filled bs pol c D K m)
    (hpage : page < npages) (hD : page ∈ D) (hb : m.pt.pageBits page ≠ .readWrite)
    (he : pageFaultHandler bs pol m page = some m') : Filled bs pol c D (page :: K) m' := by
  obtain ⟨hlen, ks, h, hp, hsub, hK⟩ := hf
  obtain ⟨ks', mv, hp', hf', -⟩ := hp.fault_some hpage (fun _ => hb) he
  refine ⟨by rw [hf'.nframes]; exact hlen, ks', _, hp', ?_, ?_⟩
  · intro q hq
    rcases hf'.turn.mem_of_mem hq with rfl | hq
    · exact hD
    · exact hsub hq
  · refine List.cons_subset.2 ⟨hf'.turn.mem, fun q hq => ?_⟩
    have hqk := hK hq
    have hturn := hf'.turn
    cases hturn with
    | fill _ _ hperm => exact hperm.mem_iff.2 (List.mem_cons_of_mem _ hqk)
    | grant _ hperm => exact hperm.mem_iff.2 hqk
    | replace hk hfull =>
      -- the page and the keys are distinct pages of `D`: there was a frame left
      have hnd : (page :: ks).Nodup := List.nodup_cons.2 ⟨hk, hp.listed.nodup⟩
      have := hnd.length_le_of_subset (List.cons_subset.2 ⟨hD, hsub⟩)
      rw [List.length_cons] at this
      omega

theorem Filled.access {m m' : Machine bs.State B} {K : List Nat} {a fuel : Nat} {w : Bool} (hf : Filled bs pol c D K m)
    (hD : a / B ∈ D) (he : access bs pol a w fuel m = some m') :
    Filled bs pol c D (a / B :: K) m' ∧ a / B < npages ∧ (m'.pt.pageBits (a / B)).allows w = true := by
  obtain ⟨hf', hpage, hb⟩ := access_induct (P := Filled bs pol c D K) (fun ⟨_, _, _, hp, _⟩ => hp.listed.pages)
    (fun hf hpage hb he => by
      obtain ⟨hlen, ks, h, hp, hsub, hK⟩ := hf.fault hpage hD hb he
      exact ⟨hlen, ks, h, hp, hsub, (List.cons_subset.1 hK).2⟩) fuel hf he
  refine ⟨?_, hpage, hb⟩
  obtain ⟨hlen, ks, h, hp, hsub, hK⟩ := hf'
  refine ⟨hlen, ks, h, hp, hsub, List.cons_subset.2 ⟨?_, hK⟩⟩
  by_contra hk
  rw [(hp.listed.bits_iff hpage).2 hk] at hb
  cases hb

/-- The frames given out have memory: those given away and those of the keys. -/
theorem stable_stocked (pol : Policy) (c n : Nat) : Stable bs pol (fun m => m.pt.nframes = n ∧
    ∃ ks h, Paged bs pol c m ks h ∧ (ks ≠ [] → ks.length + c ≤ npages)) where
  pages := fun ⟨_, _, _, hp, _⟩ => hp.listed.pages
  fault := fun {m m' page} ⟨hn, ks, h, hp, hle⟩ hpage hb he => by
    obtain ⟨ks', mv, hp', hf, -⟩ := hp.fault_some hpage (fun _ => hb) he
    refine ⟨hf.nframes.trans hn, ks', _, hp', fun _ => ?_⟩
    have hmem : mv.frame m.pt page < npages := Nat.lt_of_lt_of_eq hf.memory hp.listed.pages
    have hturn := hf.turn
    cases hturn with
    | fill _ _ hperm =>
      have hmem : ks.length + c + m.th.startFrame < npages := hmem
      rw [hperm.length_eq, List.length_cons]
      omega
    | @replace _ A v C _ _ hks hperm =>
      subst hks
      have := hle (by simp)
      simp only [hperm.length_eq, List.length_append, List.length_cons] at this ⊢
      omega
    | grant hk hperm =>
      rw [hperm.length_eq]
      exact hle (List.ne_nil_of_mem hk)
  poke := fun b ⟨hn, ks, h, hp, hle⟩ hpage hb => ⟨hn, ks, h, hp.poke hpage hb b, hle⟩

variable [NeZero B]

/-- **The pages of a program stay while there is a frame for each.** -/
theorem Filled.runOps {fuel : Nat} : ∀ (ops : List Op) {m m' : Machine bs.State B} {K : List Nat},
    Filled bs pol c D K m → .flush ∉ ops → touched B ops ⊆ D → runOps bs pol fuel m ops = some m' →
    Filled bs pol c D (K ++ touched B ops) m'
  | [], _, _, K, hf, _, _, he => by
    cases he
    rw [touched, List.filterMap_nil, List.append_nil]
    exact hf
  | op :: ops, m, m', K, hf, hops, hD, he => by
    obtain ⟨⟨m₁, r⟩, e₁, he⟩ := Option.bind_eq_some_iff.1 he
    rw [List.mem_cons, not_or] at hops
    -- one access, then the rest of the program
    have hrest : ∀ {a : Nat}, op.page? B = some a → Filled bs pol c D (a :: K) m₁ →
        Filled bs pol c D (K ++ touched B (op :: ops)) m' := by
      intro a ha hf₁
      rw [touched_cons ha] at hD ⊢
      obtain ⟨hlen, ks, h, hp, hsub, hK⟩ := Filled.runOps ops hf₁ hops.2 (List.cons_subset.1 hD).2 he
      refine ⟨hlen, ks, h, hp, hsub, fun q hq => hK ?_⟩
      simp only [List.mem_append, List.mem_cons] at hq ⊢
      tauto
    cases op with
    | flush => exact absurd rfl hops.1
    | load a =>
      obtain ⟨m₂, e₂, e₁⟩ := Option.bind_eq_some_iff.1 e₁
      cases e₁
      exact hrest rfl (hf.access (hD List.mem_cons_self) e₂).1
    | store a v =>
      obtain ⟨m₂, e₂, e₁⟩ := Option.bind_eq_some_iff.1 e₁
      cases e₁
      obtain ⟨⟨hlen, ks, h, hp, hsub, hK⟩, hpage, hb⟩ := hf.access (hD List.mem_cons_self) e₂
      exact hrest rfl ⟨hlen, ks, h, hp.poke hpage (allows_write hb) _, hsub, hK⟩

/-- All frames are free: from here every access gets through, and as long as the pages touched are no more than the
frames, each of them stays in a frame of its own. -/
structure Frees (bs : BackingStore B npages) (pol : Policy) (m : Machine bs.State B) : Prop where
  progress : ∀ fuel ops m', .flush ∉ ops → runOps bs pol fuel m ops = some m' →
    ∀ a, a < npages * B → Progresses bs pol m' a
  fill : ∀ fuel ops m', .flush ∉ ops → runOps bs pol fuel m ops = some m' →
    (touched B ops).dedup.length ≤ m.pt.nframes →
    (∀ p ∈ touched B ops, m'.pt.pageBits p ≠ .none) ∧
    ∀ p ∈ touched B ops, ∀ q ∈ touched B ops, m'.pt.pageMapping p = m'.pt.pageMapping q → p = q

/-- No page and no frame given out. -/
theorem Ready.frees {m : Machine bs.State B} {h : List Nat} (hp : Ready bs pol m [] h) : Frees bs pol m where
  progress := fun fuel ops m' hops e a ha => by
    obtain ⟨⟨ks, h', hp'⟩, -⟩ := (stable_ready pol).runOps ops (fun hmem => absurd hmem hops) ⟨[], h, hp⟩ e
    exact hp'.progresses ha
  fill := fun fuel ops m' hops e hlen => by
    have hf : Filled bs pol 0 (touched B ops).dedup [] m :=
      ⟨hlen, [], h, hp.toPaged, List.nil_subset _, List.nil_subset _⟩
    obtain ⟨-, ks, h', hp', -, hK⟩ := hf.runOps ops hops (fun p hp => List.mem_dedup.2 hp) e
    have hres : ∀ p ∈ touched B ops, Resident m'.pt p := fun p hpt => (hp'.listed.res p).2 (hK hpt)
    exact ⟨fun p hpt => (hres p hpt).2, fun p hpt q hqt heq => hp'.listed.inj p q (hres p hpt) (hres q hqt) heq⟩

/-- Without pages there is nothing to access. -/
theorem frees_of_no_pages {m : Machine bs.State B} {h : List Nat} (hp : Paged bs pol c m [] h) (h0 : npages = 0) :
    Frees bs pol m where
  progress := fun fuel ops m' _ _ a ha => by
    rw [h0, Nat.zero_mul] at ha
    omega
  fill := fun fuel ops m' hops e _ => by
    obtain ⟨-, hlt⟩ := (stable_paged pol c m.pt.nframes).runOps ops (fun hmem => absurd hmem hops) ⟨rfl, [], h, hp⟩ e
    have hno : ∀ p, p ∉ touched B ops := fun p hp => by have := hlt p hp; omega
    exact ⟨fun p hp => absurd hp (hno p), fun p hp => absurd hp (hno p)⟩

/-- Loads of the first `k` pages. -/
def loadPages (B k : Nat) : List Op := (List.range k).map (fun p => .load (p * B))

theorem flush_not_mem_loadPages (B k : Nat) : .flush ∉ loadPages B k := by
  intro hm
  obtain ⟨p, -, hp⟩ := List.mem_map.1 hm
  cases hp

theorem touched_loadPages (k : Nat) : touched B (loadPages B k) = List.range k := by
  have hpos : 0 < B := Nat.pos_of_ne_zero (NeZero.ne B)
  unfold touched loadPages
  rw [List.filterMap_map]
  refine (List.filterMap_congr (fun p _ => ?_)).trans (List.filterMap_some ..)
  exact congrArg some (Nat.mul_div_cancel p hpos)

/-- When accesses get through, so do the loads of all pages. -/
theorem Frees.loads {m : Machine bs.State B} (hf : Frees bs pol m) : ∀ k, k ≤ npages →
    ∃ m', runOps bs pol 2 m (loadPages B k) = some m'
  | 0,     _  => ⟨m, rfl⟩
  | k + 1, hk => by
    have hpos : 0 < B := Nat.pos_of_ne_zero (NeZero.ne B)
    obtain ⟨m₁, e₁⟩ := hf.loads k (Nat.le_of_succ_le hk)
    have hlt : k * B < npages * B := Nat.mul_lt_mul_of_pos_right hk hpos
    obtain ⟨m₂, e₂⟩ := Option.isSome_iff_exists.1
      (hf.progress 2 _ m₁ (flush_not_mem_loadPages B k) e₁ (k * B) hlt).1
    refine ⟨m₂, ?_⟩
    unfold loadPages at e₁ ⊢
    rw [List.range_succ, List.map_append, runOps_append, e₁, Option.bind_some, List.map_cons, runOps, execOp, e₂]
    rfl

/-- **Frames given away are missed**: with one page for each frame, or a frame for each page, none is left over. -/
theorem Frees.none_given_away {m : Machine bs.State B} (hf : Frees bs pol m) (hp : Paged bs pol c m [] [])
    (hpages : 0 < npages) : c = 0 := by
  obtain ⟨m₂, e₂⟩ := hf.loads (min m.pt.nframes npages) (Nat.min_le_right _ _)
  have hops := flush_not_mem_loadPages B (min m.pt.nframes npages)
  obtain ⟨⟨hn₂, ks₂, h₂, hp₂, hle₂⟩, -⟩ := (stable_stocked pol c m.pt.nframes).runOps _ (fun hmem => absurd hmem hops)
    ⟨rfl, [], [], hp, fun h => absurd rfl h⟩ e₂
  have hres := (hf.fill 2 _ m₂ hops e₂ (by
    rw [touched_loadPages, List.nodup_range.dedup, List.length_range]
    exact Nat.min_le_left _ _)).1
  rw [touched_loadPages] at hres
  -- all these pages have a frame each, beside those that were given away
  have hsub : List.range (min m.pt.nframes npages) ⊆ ks₂ := by
    intro p hpr
    have hpn : p < npages := Nat.lt_of_lt_of_le (List.mem_range.1 hpr) (Nat.min_le_right _ _)
    exact by_contra fun hk => hres p hpr ((hp₂.listed.bits_iff hpn).2 hk)
  have hle := List.nodup_range.length_le_of_subset hsub
  have hroom := hp₂.listed.room
  have hframes := hp.frames
  rw [List.length_range] at hle
  rw [hn₂] at hroom
  have hmem := hle₂ (by
    rintro rfl
    rw [List.length_nil] at hle
    omega)
  omega

/-- **The flush makes every frame available again**, from any state a program of loads, stores and flushes leads to and
whatever `rand()` answers, exactly if RAND has given out no frame at all, and FIFO's ages fit. -/
theorem flush_frees_iff (pol : Policy) {nframes : Nat} (hn : 1 ≤ nframes) (store : bs.State) (physmem : Nat → Block B)
    (rands : Nat → Nat) (fuel : Nat) (ops : List Op) {m m' : Machine bs.State B}
    (hrun : runOps bs pol fuel (initVirtualMemory bs nframes store physmem rands) ops = some m)
    (hflush : pageTableFlush bs pol m = some m') :
    Frees bs pol m' ↔ (pol = .rand → 0 < npages → m.th.count = 0) ∧
      (pol = .fifo → 2 * min nframes npages < 2 ^ 31) := by
  obtain ⟨rfl, hi, c, ks, h, hp⟩ := between_runOps hn hrun
  obtain ⟨vs, hd, -, -, hp'⟩ := hp.flush_some hi.fifo hflush
  have hnf := hd.nframes
  rw [← hnf]
  constructor
  · intro hf
    refine ⟨?_, ?_⟩
    · rintro rfl hpages
      have hk : kept .rand m.th = m.th.count := if_pos rfl
      rw [← hk]
      exact hf.none_given_away hp' hpages
    · rintro rfl
      by_contra hbig
      obtain ⟨ops', m₂, hops, e₂, hnone⟩ := access_overflow hp' (show 2 ^ 30 ≤ min m'.pt.nframes npages by omega)
      have hpos : 0 < npages * B := Nat.mul_pos (by omega) (Nat.pos_of_ne_zero (NeZero.ne B))
      have hsome := (hf.progress 3 ops' m₂ hops e₂ 0 hpos).2.1
      rw [hnone] at hsome
      cases hsome
  · rintro ⟨hrand, hfifo⟩
    rcases Nat.eq_zero_or_pos npages with h0 | hpages
    · exact frees_of_no_pages hp' h0
    have hc : kept pol m.th = 0 := by
      unfold kept
      split
      · exact hrand ‹_› hpages
      · rfl
    rw [hc] at hp'
    exact Ready.frees ⟨hp', hfifo⟩

/-- LRU after a flush. -/
theorem flush_frees_lru : ∃ m m', runOps (memStore 2 3) .lru 3
      (initVirtualMemory (memStore 2 3) 2 (fun _ _ => 0) (fun _ _ => 0) (fun _ => 0))
      [.load 0, .store 2 7, .load 4] = some m ∧
    pageTableFlush (memStore 2 3) .lru m = some m' ∧ Frees (memStore 2 3) .lru m' := by
  have hrun : (runOps (memStore 2 3) .lru 3 (initVirtualMemory (memStore 2 3) 2 (fun _ _ => 0) (fun _ _ => 0)
      (fun _ => 0)) [.load 0, .store 2 7, .load 4]).isSome = true := by decide
  obtain ⟨m, e⟩ := Option.isSome_iff_exists.1 hrun
  obtain ⟨m', e'⟩ := (between_runOps (by decide) e).flushes (by decide)
  exact ⟨m, m', e, e', (flush_frees_iff .lru (by decide) _ _ _ 3 _ e e').2 ⟨Policy.noConfusion, Policy.noConfusion⟩⟩

/-- RAND with one frame and one page: the load after the flush probes an empty table for ever. -/
theorem flush_stuck_rand : ∃ m, runOps (memStore 1 1) .rand 3
      (initVirtualMemory (memStore 1 1) 1 (fun _ _ => 0) (fun _ _ => 0) (fun _ => 0)) [.load 0, .flush] = some m ∧
    access (memStore 1 1) .rand 0 false 3 m = none := by
  have hrun : ((runOps (memStore 1 1) .rand 3
      (initVirtualMemory (memStore 1 1) 1 (fun _ _ => 0) (fun _ _ => 0) (fun _ => 0)) [.load 0, .flush]).map
      (fun m => (access (memStore 1 1) .rand 0 false 3 m).isNone)) = some true := by decide
  obtain ⟨m, e, hm⟩ := Option.map_eq_some_iff.1 hrun
  exact ⟨m, e, Option.isNone_iff_eq_none.1 hm⟩

/-- With a second frame, which has no memory, it dies there. -/
example : runOps (memStore 1 1) .rand 3 (initVirtualMemory (memStore 1 1) 2 (fun _ _ => 0) (fun _ _ => 0) (fun _ => 0))
    [.load 0, .flush, .load 0] = none := rfl

end Fill

end Vmem
end Bb
