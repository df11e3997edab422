import BlueBridge.VmemFifo
import BlueBridge.VmemRun
/-!
# VmemPaged — every access makes progress

`Paged` is what holds of a thread whatever its policy: it knows its resident pages by a list of keys, and they are in
the first frames it was given.  Under it a handler can fail for three reasons only: RAND has given frames away (after a
flush), and has no key to evict or comes to a frame without memory, or one of FIFO's `int` ages is at its end.  Without
these (`Ready`) every handler returns, and leaves its page readable, or writable if it was resident; so a load is
through after one fault and a store after two (`Ready.access`).

A page faults at most twice while it is resident, so the oldest of `k` pages has at most `2 * k - 1` for its age.  This is
reached: with `2 ^ 30` frames and as many pages an age comes to `INT_MAX`, and the next fault overflows it
(`access_overflow`).
-/
namespace Bb
namespace Vmem

open Cells Recency
open Function (update update_self update_of_ne)

variable {B npages : Nat} {bs : BackingStore B npages}

/-! ## Keys, whatever the policy -/

/-- The keys of a thread as its policy keeps them.  `c` is the number of frames RAND has given away for good, and `h` is
the history of the faults, which FIFO's ages tell. -/
def Keyed {S : Type} (pol : Policy) (c : Nat) (pt : PageTable S B) (th : Thread) (ks h : List Nat) : Prop :=
  match pol with
  | .fifo  => FifoArr pt th.startFrame th.endFrame ks h
  | .lru   => ∃ L, DllKeys pt.nframes th L ∧ L.map Prod.snd = ks
  | .ffifo => ∃ L, DllKeys pt.nframes th L ∧ L.map Prod.snd = ks
  | .lfu   => ∃ F, LfuKeys pt.nframes th F ∧ (lfuNodes F).map Prod.snd = ks
  | .rand  => RandKeys pt.nframes th ks c

/-- The order of the keys after a fault, for the policies that have one. -/
def Ordered (pol : Policy) (n : Nat) (ks : List Nat) (page : Nat) (ks' : List Nat) (mv : Move) : Prop :=
  match pol with
  | .fifo  => ks' = lruKeys n ks page ∧ LastOut ks mv
  | .lru   => ks' = lruKeys n ks page ∧ LastOut ks mv
  | .ffifo => ks' = ffifoKeys n ks page ∧ LastOut ks mv
  | .lfu   => True
  | .rand  => True

/-- **Every handler does its move**, unless RAND has no key to evict, a frame has no memory or FIFO an age that cannot
grow. -/
theorem pageFaultHandler_faulted {pol : Policy} {m : Machine bs.State B} {c page : Nat} {ks h : List Nat}
    (hk : Keyed pol c m.pt m.th ks h) (hn : 0 < m.pt.nframes) (ht : Held m.pt m.th.startFrame m.th.endFrame c ks page)
    (hc : c = 0 ∨ pol = .rand) (hroom : ks = [] → c < m.pt.nframes)
    (hov : pol = .fifo → ∀ p ∈ ks, (age h p : Int) ≠ intMax) :
    ∃ m' ks' mv, pageFaultHandler bs pol m page = some m' ∧ Keyed pol c m'.pt m'.th ks' (page :: h) ∧
      Faulted bs m m' c page ks ks' mv ∧ Ordered pol m.pt.nframes ks page ks' mv := by
  cases pol with
  | fifo =>
    obtain rfl := hc.resolve_right (by decide)
    obtain ⟨m', mv, e, harr, hf, hlast⟩ := fifoPageFaultHandler_faulted hk hn ht (hov rfl)
    refine ⟨m', _, mv, e, ?_, hf, rfl, hlast⟩
    show FifoArr _ m'.th.startFrame m'.th.endFrame _ _
    rw [hf.start, hf.stop]
    exact harr
  | lru =>
    obtain rfl := hc.resolve_right (by decide)
    obtain ⟨L, hL, rfl⟩ := hk
    obtain ⟨m', L', mv, e, hL', hf, hkeys, hlast⟩ := lruPageFaultHandler_faulted hL hn ht
    exact ⟨m', _, mv, e, ⟨L', hf.nframes.symm ▸ hL', rfl⟩, hf, hkeys, hlast⟩
  | ffifo =>
    obtain rfl := hc.resolve_right (by decide)
    obtain ⟨L, hL, rfl⟩ := hk
    obtain ⟨m', L', mv, e, hL', hf, hkeys, hlast⟩ := ffifoPageFaultHandler_faulted hL hn ht
    exact ⟨m', _, mv, e, ⟨L', hf.nframes.symm ▸ hL', rfl⟩, hf, hkeys, hlast⟩
  | lfu =>
    obtain rfl := hc.resolve_right (by decide)
    obtain ⟨F, hF, rfl⟩ := hk
    obtain ⟨m', F', mv, e, hF', hf⟩ := lfuPageFaultHandler_faulted hF hn ht
    exact ⟨m', _, mv, e, ⟨F', hf.nframes.symm ▸ hF', rfl⟩, hf, trivial⟩
  | rand =>
    obtain ⟨m', ks', mv, e, hk', hf⟩ := randPageFaultHandler_faulted hk ht (fun _ hfull => by
      have hne : ks ≠ [] := by
        rintro rfl
        have := hroom rfl
        rw [List.length_nil] at hfull
        omega
      obtain ⟨k, hkm⟩ := List.exists_mem_of_ne_nil _ hne
      exact probeBucket_total hk.hash hn (List.mem_map.2 ⟨k, hkm, rfl⟩) (Nat.mod_lt _ hn))
    refine ⟨m', ks', mv, e, ?_, hf, trivial⟩
    show RandKeys m'.pt.nframes _ _ _
    rw [hf.nframes]
    exact hk'

/-- RAND's probe goes round for ever when there is no key. -/
theorem randPageFaultHandler_stuck {m : Machine bs.State B} {c page : Nat} (hk : RandKeys m.pt.nframes m.th [] c)
    (hp : page < m.pt.npages) (hb : m.pt.pageBits page = .none) (hc : m.pt.nframes ≤ c) :
    randPageFaultHandler bs m page = none := by
  have hnone : ∀ fuel i, probeBucket m.th.hashTable m.pt.nframes fuel i = none := by
    intro fuel
    induction fuel with
    | zero => exact fun _ => rfl
    | succ fuel ih =>
      intro i
      have hhead : (m.th.hashTable.table i).head = 0 := by
        by_contra hne
        obtain ⟨_, _, _, _, hmem⟩ := hk.hash.head_entry hne
        cases hmem
      rw [probeBucket, if_pos hhead]
      exact ih _
  have hcount : m.th.count = c := by rw [hk.count, List.length_nil, Nat.zero_add]
  unfold randPageFaultHandler
  rw [getEntry_eq m hp]
  simp only [Option.bind_eq_bind, Option.bind_some]
  rw [if_pos hb, if_neg (by omega), hnone]
  rfl

/-! ## A thread's own pages -/

/-- The table as far as the pages of `own` go. -/
def PageTable.restrict {S : Type} (pt : PageTable S B) (own : Nat → Bool) : PageTable S B :=
  { pt with pageBits := fun p => if own p then pt.pageBits p else .none }

def Machine.restrict {S : Type} (m : Machine S B) (own : Nat → Bool) : Machine S B := { m with pt := m.pt.restrict own }

theorem restrict_bits {S : Type} {pt : PageTable S B} {own : Nat → Bool} {p : Nat} (h : own p = true) :
    (pt.restrict own).pageBits p = pt.pageBits p := if_pos h

theorem restrict_bits_of_not {S : Type} {pt : PageTable S B} {own : Nat → Bool} {p : Nat} (h : own p = false) :
    (pt.restrict own).pageBits p = .none := if_neg (by rw [h]; decide)

theorem restrict_all {S : Type} (m : Machine S B) : m.restrict (fun _ => true) = m := rfl

theorem restrict_update {S : Type} (pt : PageTable S B) {own : Nat → Bool} {p : Nat} (h : own p = true) (b : Prot) :
    (fun q => if own q then update pt.pageBits p b q else .none) = update (pt.restrict own).pageBits p b := by
  funext q
  by_cases hq : q = p
  · subst hq
    rw [update_self, update_self, if_pos h]
  · rw [update_of_ne hq, update_of_ne hq]
    rfl

theorem restrict_dropPage (pt : PageTable bs.State B) {own : Nat → Bool} {v : Nat} (h : own v = true) :
    (pt.dropPage bs v).restrict own = (pt.restrict own).dropPage bs v := by
  unfold PageTable.dropPage
  rw [restrict_bits h]
  split <;> exact congrArg (fun b => PageTable.mk _ _ _ b _ _ _ _) (restrict_update _ h _)

/-- **A move within the thread's own pages.** -/
theorem restrict_make (pt : PageTable bs.State B) {own : Nat → Bool} {page : Nat} {mv : Move} (h : own page = true)
    (hv : ∀ v, mv = .replace v → own v = true) : (pt.make bs page mv).restrict own = (pt.restrict own).make bs page mv := by
  cases mv with
  | fill i    => exact congrArg (fun b => PageTable.mk _ _ _ b _ _ _ _) (restrict_update _ h _)
  | grant     => exact congrArg (fun b => PageTable.mk _ _ _ b _ _ _ _) (restrict_update _ h _)
  | replace v =>
    show ((pt.dropPage bs v).fillPage bs page (pt.pageMapping v)).restrict own =
      ((pt.restrict own).dropPage bs v).fillPage bs page (pt.pageMapping v)
    rw [← restrict_dropPage pt (hv v rfl)]
    exact congrArg (fun b => PageTable.mk _ _ _ b _ _ _ _) (restrict_update _ h _)

theorem keyed_restrict {S : Type} {pol : Policy} {c : Nat} {pt : PageTable S B} {th : Thread} {ks h : List Nat}
    {own : Nat → Bool} : Keyed pol c (pt.restrict own) th ks h ↔ Keyed pol c pt th ks h := by
  cases pol with
  | fifo  =>
    exact ⟨fun h => ⟨h.room, h.used, h.name, h.back, h.ages, h.recent, h.nodup, h.names⟩,
      fun h => ⟨h.room, h.used, h.name, h.back, h.ages, h.recent, h.nodup, h.names⟩⟩
  | lru   => exact Iff.rfl
  | ffifo => exact Iff.rfl
  | lfu   => exact Iff.rfl
  | rand  => exact Iff.rfl

/-- The keys are the thread's own. -/
theorem Listed.own {pt : PageTable bs.State B} {own : Nat → Bool} {s e c : Nat} {ks : List Nat}
    (h : Listed bs (pt.restrict own) s e ks c) : ∀ p ∈ ks, own p = true := by
  intro p hp
  by_contra hn
  exact ((h.res p).2 hp).2 (restrict_bits_of_not (Bool.eq_false_iff.2 hn))

theorem Faulted.restrict {m m' : Machine bs.State B} {c page : Nat} {ks ks' : List Nat} {mv : Move} {own : Nat → Bool}
    (hf : Faulted bs m m' c page ks ks' mv) (hown : own page = true) (hks : ∀ p ∈ ks, own p = true) :
    Faulted bs (m.restrict own) (m'.restrict own) c page ks ks' mv where
  turn := hf.turn
  memory := hf.memory
  table := by
    have hv : ∀ v, mv = .replace v → own v = true := by
      rintro v rfl
      exact hks v hf.turn.victim_mem
    have hmake : (m.pt.make bs page mv).restrict own = (m.restrict own).pt.make bs page mv := restrict_make m.pt hown hv
    rw [← hmake]
    exact congrArg (fun pt => PageTable.restrict pt own) hf.table
  start := hf.start
  stop := hf.stop
  arrays := hf.arrays

/-- How many faults a resident page has had. -/
def faultsOf {S : Type} (pt : PageTable S B) (p : Nat) : Nat := if pt.pageBits p = .readWrite then 2 else 1

theorem faultsOf_le {S : Type} (pt : PageTable S B) (p : Nat) : faultsOf pt p ≤ 2 := by
  unfold faultsOf
  split <;> decide

structure Paged (bs : BackingStore B npages) (pol : Policy) (c : Nat) (m : Machine bs.State B) (ks h : List Nat) :
    Prop where
  keyed : Keyed pol c m.pt m.th ks h
  listed : Listed bs m.pt m.th.startFrame m.th.endFrame ks (ks.length + c)
  spread : pol = .fifo → Spread h (faultsOf m.pt) ks
  frames : 0 < m.pt.nframes
  only : c = 0 ∨ pol = .rand

/-- FIFO's ages stay within an `int`, whatever faults are to come. -/
def AgesFit (pol : Policy) (nframes npages : Nat) : Prop := pol = .fifo → 2 * min nframes npages < 2 ^ 31

theorem agesFit_of_lt (pol : Policy) {nframes : Nat} (npages : Nat) (h : 2 * nframes < 2 ^ 31) :
    AgesFit pol nframes npages :=
  fun _ => Nat.lt_of_le_of_lt (Nat.mul_le_mul_left 2 (Nat.min_le_left _ _)) h

structure Ready (bs : BackingStore B npages) (pol : Policy) (m : Machine bs.State B) (ks h : List Nat) : Prop
    extends Paged bs pol 0 m ks h where
  fit : AgesFit pol m.pt.nframes npages

/-- No frame was given away; or RAND has a key or a frame left, and if it is to fill a frame then that has memory. -/
def Room {S : Type} (m : Machine S B) (c : Nat) (ks : List Nat) (page : Nat) : Prop :=
  c = 0 ∨ (ks = [] → c < m.pt.nframes) ∧
    (page ∉ ks → ks.length + c < m.pt.nframes → ks.length + c + m.th.startFrame < m.pt.npages)

section Fault

variable {pol : Policy} {m m' : Machine bs.State B} {c page : Nat} {ks ks' h : List Nat} {mv : Move}

theorem Paged.held_own {own : Nat → Bool} (hp : Paged bs pol c (m.restrict own) ks h) (hpage : page < npages)
    (hown : own page = true) (hroom : Room m c ks page) : Held m.pt m.th.startFrame m.th.endFrame c ks page := by
  have hheld : Held (m.restrict own).pt m.th.startFrame m.th.endFrame c ks page := by
    rcases hroom with rfl | ⟨-, hnext⟩
    · exact hp.listed.held_zero hpage
    · exact hp.listed.held hpage (fun hk hlt => Nat.lt_of_lt_of_eq (hnext hk hlt) hp.listed.pages)
  exact ⟨hheld.lt, restrict_bits hown ▸ hheld.bits, hheld.frame, hheld.span, hheld.next⟩

/-- FIFO's keys keep to their bound: a page faults when it comes in, and once more when it is first written. -/
theorem Paged.spread_fault (hp : Paged bs .fifo c m ks h) (hf : Faulted bs m m' c page ks ks' mv)
    (hord : Ordered .fifo m.pt.nframes ks page ks' mv) (hb : m.pt.pageBits page ≠ .readWrite) :
    Spread (page :: h) (faultsOf m'.pt) ks' := by
  have hs := hp.spread rfl
  have hnd := hp.listed.nodup
  obtain ⟨rfl, hlast⟩ := hord
  have hturn := hf.turn
  have hbits : ∀ q, m'.pt.pageBits q = (m.pt.make bs page mv).pageBits q := fun q => by rw [hf.table]
  have hsame : ∀ q, q ≠ page → mv ≠ .replace q → faultsOf m.pt q ≤ faultsOf m'.pt q := by
    intro q hq hv
    unfold faultsOf
    rw [hbits, make_bits_of_ne _ _ hq hv]
  have hone : 1 ≤ faultsOf m'.pt page := by
    unfold faultsOf
    split <;> decide
  unfold lruKeys loadKey at hturn ⊢
  cases hturn with
  | fill hk hlt hperm =>
    rw [if_neg hk] at hperm ⊢
    split
    · refine Spread.push_new (D := []) (by rw [List.append_nil]; exact hs) hk (fun q hq => ?_) hone
      exact hsame q (fun h => hk (h ▸ hq)) (by rintro ⟨⟩)
    · have hcz : c = 0 := hp.only.resolve_right (by decide)
      omega
  | @replace _ A v C hk hge hks hperm =>
    have hcz : c = 0 := hp.only.resolve_right (by decide)
    rw [if_neg hk, if_neg (by omega)]
    obtain ⟨A', rfl⟩ := hlast v rfl
    rw [List.dropLast_concat]
    have hkA : page ∉ A' := fun h => hk (List.mem_append_left _ h)
    refine Spread.push_new hs hkA (fun q hq => ?_) hone
    refine hsame q (fun h => hkA (h ▸ hq)) (fun h => ?_)
    cases h
    exact (List.nodup_append.1 hnd).2.2 v hq v List.mem_cons_self rfl
  | grant hk hperm =>
    rw [if_pos hk]
    obtain ⟨A, C, rfl⟩ := List.append_of_mem hk
    obtain ⟨hkAC, -⟩ := List.nodup_cons.1 ((List.perm_middle.nodup_iff).1 hnd)
    have hkA : page ∉ A := fun h => hkAC (List.mem_append_left _ h)
    rw [List.erase_append_right _ hkA, List.erase_cons_head]
    refine Spread.push_again hs hkAC (fun q hq => hsame q (fun h => hkAC (h ▸ hq)) (by rintro ⟨⟩)) ?_
    have hnew : m'.pt.pageBits page = .readWrite := (hbits page).trans (make_bits_self _ _ _)
    unfold faultsOf
    rw [if_neg hb, if_pos hnew]

/-- **A fault is handled**, and its page is a key.  The thread needs to know of its own pages only. -/
theorem Paged.fault_own {own : Nat → Bool} (hp : Paged bs pol c (m.restrict own) ks h) (hpage : page < npages)
    (hown : own page = true) (hb : pol = .fifo → m.pt.pageBits page ≠ .readWrite) (hroom : Room m c ks page)
    (hov : pol = .fifo → ∀ p ∈ ks, (age h p : Int) ≠ intMax) :
    ∃ m' ks' mv, pageFaultHandler bs pol m page = some m' ∧ Paged bs pol c (m'.restrict own) ks' (page :: h) ∧
      Faulted bs m m' c page ks ks' mv ∧ Ordered pol m.pt.nframes ks page ks' mv := by
  have hleft : ks = [] → c < m.pt.nframes := fun hks => hroom.elim (fun hc => hc ▸ hp.frames) (fun h => h.1 hks)
  obtain ⟨m', ks', mv, e, hk, hf, hord⟩ := pageFaultHandler_faulted (keyed_restrict.1 hp.keyed) hp.frames
    (hp.held_own hpage hown hroom) hp.only hleft hov
  have hf' := hf.restrict hown hp.listed.own
  refine ⟨m', ks', mv, e, ⟨keyed_restrict.2 hk, (hf'.listed hpage hp.listed).1, ?_, ?_, hp.only⟩, hf, hord⟩
  · rintro rfl
    refine hp.spread_fault hf' hord (fun h => hb rfl ?_)
    rwa [Machine.restrict, restrict_bits hown] at h
  · exact hf.nframes.symm ▸ hp.frames

/-- **Nothing else makes a handler fail.** -/
theorem Paged.fault_own_some {own : Nat → Bool} (hp : Paged bs pol c (m.restrict own) ks h) (hpage : page < npages)
    (hown : own page = true) (hb : pol = .fifo → m.pt.pageBits page ≠ .readWrite)
    (he : pageFaultHandler bs pol m page = some m') :
    ∃ ks' mv, Paged bs pol c (m'.restrict own) ks' (page :: h) ∧ Faulted bs m m' c page ks ks' mv ∧
      Ordered pol m.pt.nframes ks page ks' mv := by
  have hkeyed := keyed_restrict.1 hp.keyed
  have hlt : page < m.pt.npages := Nat.lt_of_lt_of_eq hpage hp.listed.pages.symm
  have hnone : page ∉ ks → m.pt.pageBits page = .none := fun hk =>
    restrict_bits hown ▸ (hp.listed.bits_iff hpage).2 hk
  have hroom : Room m c ks page := by
    refine hp.only.imp_right ?_
    rintro rfl
    refine ⟨?_, fun hk hroom => ?_⟩
    · rintro rfl
      by_contra hge
      cases (randPageFaultHandler_stuck hkeyed hlt (hnone List.not_mem_nil) (Nat.not_lt.1 hge)).symm.trans he
    · rw [← hkeyed.count] at hroom ⊢
      exact randPageFaultHandler_next (m := m) hlt (hnone hk) hroom he
  have hov : pol = .fifo → ∀ p ∈ ks, (age h p : Int) ≠ intMax := by
    rintro rfl p hpk hmax
    obtain rfl := hp.only.resolve_right (by decide)
    cases (fifoPageFaultHandler_overflow hkeyed (hp.held_own hpage hown (Or.inl rfl)) hpk hmax).symm.trans he
  obtain ⟨m₁, ks', mv, e₁, hp', hf, hord⟩ := hp.fault_own hpage hown hb hroom hov
  cases e₁.symm.trans he
  exact ⟨ks', mv, hp', hf, hord⟩

theorem Paged.fault (hp : Paged bs pol c m ks h) (hpage : page < npages)
    (hb : pol = .fifo → m.pt.pageBits page ≠ .readWrite) (hroom : Room m c ks page)
    (hov : pol = .fifo → ∀ p ∈ ks, (age h p : Int) ≠ intMax) :
    ∃ m' ks' mv, pageFaultHandler bs pol m page = some m' ∧ Paged bs pol c m' ks' (page :: h) ∧
      Faulted bs m m' c page ks ks' mv ∧ Ordered pol m.pt.nframes ks page ks' mv := by
  rw [← restrict_all m] at hp
  obtain ⟨m', ks', mv, e, hp', hrest⟩ := hp.fault_own hpage rfl hb hroom hov
  exact ⟨m', ks', mv, e, restrict_all m' ▸ hp', hrest⟩

theorem Paged.fault_some (hp : Paged bs pol c m ks h) (hpage : page < npages)
    (hb : pol = .fifo → m.pt.pageBits page ≠ .readWrite) (he : pageFaultHandler bs pol m page = some m') :
    ∃ ks' mv, Paged bs pol c m' ks' (page :: h) ∧ Faulted bs m m' c page ks ks' mv ∧
      Ordered pol m.pt.nframes ks page ks' mv := by
  rw [← restrict_all m] at hp
  obtain ⟨ks', mv, hp', hrest⟩ := hp.fault_own_some hpage rfl hb he
  exact ⟨ks', mv, restrict_all m' ▸ hp', hrest⟩

theorem Ready.ages (hp : Ready bs pol m ks h) : pol = .fifo → ∀ p ∈ ks, (age h p : Int) ≠ intMax := by
  intro hpol p hpk
  have hlt := (hp.spread hpol).age_lt (faultsOf_le m.pt) hpk
  have hle := hp.listed.length_le_npages
  have hroom := hp.listed.room
  have hmin := hp.fit hpol
  unfold intMax
  omega

theorem Ready.fault (hp : Ready bs pol m ks h) (hpage : page < npages)
    (hb : pol = .fifo → m.pt.pageBits page ≠ .readWrite) :
    ∃ m' ks' mv, pageFaultHandler bs pol m page = some m' ∧ Ready bs pol m' ks' (page :: h) ∧
      Faulted bs m m' 0 page ks ks' mv ∧ Ordered pol m.pt.nframes ks page ks' mv := by
  obtain ⟨m', ks', mv, e, hp', hf, hord⟩ := hp.toPaged.fault hpage hb (Or.inl rfl) hp.ages
  exact ⟨m', ks', mv, e, ⟨hp', hf.nframes.symm ▸ hp.fit⟩, hf, hord⟩

end Fault

/-! ## Accesses -/

section Access

variable {pol : Policy} {c : Nat}

/-- What a fault leaves its page good for. -/
theorem Faulted.bits {m m' : Machine bs.State B} {page : Nat} {ks ks' : List Nat} {mv : Move}
    (hf : Faulted bs m m' c page ks ks' mv) : m'.pt.pageBits page = mv.bits := by
  rw [hf.table]
  exact make_bits_self _ _ _

theorem Paged.grant_of_resident {m m' : Machine bs.State B} {page : Nat} {ks ks' h : List Nat} {mv : Move}
    (hp : Paged bs pol c m ks h) (hf : Faulted bs m m' c page ks ks' mv) (hpage : page < npages)
    (hb : m.pt.pageBits page ≠ .none) : mv = .grant := by
  have hk : page ∈ ks := by_contra fun hk => hb ((hp.listed.bits_iff hpage).2 hk)
  have hturn := hf.turn
  cases hturn with
  | fill h    => exact absurd hk h
  | replace h => exact absurd hk h
  | grant     => rfl

theorem access_of_allows {m : Machine bs.State B} {a : Nat} {w : Bool} (hpages : m.pt.npages = npages)
    (ha : a / B < npages) (hb : (m.pt.pageBits (a / B)).allows w = true) (fuel : Nat) :
    access bs pol a w (fuel + 1) m = some m := by
  rw [access, if_pos (hpages.symm ▸ ha), if_pos hb]

theorem access_of_fault {m m' : Machine bs.State B} {a : Nat} {w : Bool} (hpages : m.pt.npages = npages)
    (ha : a / B < npages) (hb : (m.pt.pageBits (a / B)).allows w = false)
    (he : pageFaultHandler bs pol m (a / B) = some m') (fuel : Nat) :
    access bs pol a w (fuel + 1) m = access bs pol a w fuel m' := by
  rw [access, if_pos (hpages.symm ▸ ha), if_neg (by rw [hb]; decide), he]
  rfl

theorem allows_read {b : Prot} (hb : b ≠ .none) : b.allows false = true := by
  cases b with
  | none      => exact absurd rfl hb
  | read      => rfl
  | readWrite => rfl

theorem Move.bits_ne_none (mv : Move) : mv.bits ≠ .none := by
  cases mv <;> exact Prot.noConfusion

section Progress

variable {m : Machine bs.State B} {ks h : List Nat} {a : Nat}

/-- A resident page may be written after one fault. -/
theorem Ready.access_resident (hp : Ready bs pol m ks h) (ha : a / B < npages)
    (hres : m.pt.pageBits (a / B) ≠ .none) (fuel : Nat) : ∃ m', access bs pol a true (fuel + 2) m = some m' := by
  cases hb : (m.pt.pageBits (a / B)).allows true with
  | true => exact ⟨m, access_of_allows hp.listed.pages ha hb _⟩
  | false =>
    have hrw : m.pt.pageBits (a / B) ≠ .readWrite := fun h => by rw [h] at hb; cases hb
    obtain ⟨m₁, ks₁, mv, e₁, hp₁, hf₁, -⟩ := hp.fault ha (fun _ => hrw)
    obtain rfl := hp.toPaged.grant_of_resident hf₁ ha hres
    rw [access_of_fault hp.listed.pages ha hb e₁]
    exact ⟨m₁, access_of_allows hp₁.listed.pages ha (by rw [hf₁.bits]; rfl) _⟩

/-- **A load is through after one fault, a store after two.** -/
theorem Ready.access (hp : Ready bs pol m ks h) (ha : a / B < npages) (fuel : Nat) :
    (∃ m', access bs pol a false (fuel + 2) m = some m') ∧ ∃ m', access bs pol a true (fuel + 3) m = some m' := by
  by_cases hres : m.pt.pageBits (a / B) = .none
  · obtain ⟨m₁, ks₁, mv, e₁, hp₁, hf₁, -⟩ := hp.fault ha (fun _ => by rw [hres]; decide)
    have hbits : m₁.pt.pageBits (a / B) ≠ .none := by
      rw [hf₁.bits]
      exact mv.bits_ne_none
    have hno : ∀ w, (m.pt.pageBits (a / B)).allows w = false := fun w => by rw [hres]; rfl
    rw [access_of_fault hp.listed.pages ha (hno _) e₁, access_of_fault hp.listed.pages ha (hno _) e₁]
    exact ⟨⟨m₁, access_of_allows hp₁.listed.pages ha (allows_read hbits) _⟩, hp₁.access_resident ha hbits _⟩
  · exact ⟨⟨m, access_of_allows hp.listed.pages ha (allows_read hres) _⟩, hp.access_resident ha hres _⟩

end Progress

end Access

/-! ## Runs -/

theorem Keyed.poke {pol : Policy} {c : Nat} {pt : PageTable bs.State B} {th : Thread} {ks h : List Nat}
    (hk : Keyed pol c pt th ks h) (page : Nat) (b : Block B) : Keyed pol c (pt.poke page b) th ks h := by
  cases pol with
  | fifo  => exact ⟨hk.room, hk.used, hk.name, hk.back, hk.ages, hk.recent, hk.nodup, hk.names⟩
  | lru   => exact hk
  | ffifo => exact hk
  | lfu   => exact hk
  | rand  => exact hk

theorem Paged.poke {pol : Policy} {c page : Nat} {m : Machine bs.State B} {ks h : List Nat}
    (hp : Paged bs pol c m ks h) (hpage : page < npages) (hw : m.pt.pageBits page = .readWrite) (b : Block B) :
    Paged bs pol c { m with pt := m.pt.poke page b } ks h :=
  have hr : Resident m.pt page := ⟨hp.listed.pages.symm ▸ hpage, by rw [hw]; exact Prot.noConfusion⟩
  ⟨hp.keyed.poke page b, hp.listed.poke hr hw b, hp.spread, hp.frames, hp.only⟩

/-- A thread with fresh structures has no keys. -/
theorem keyed_calloc (pol : Policy) {S : Type} {pt : PageTable S B} {s e : Nat} (hse : s ≤ e)
    (hzero : pol = .fifo → ∀ i, s ≤ i → i < e → pt.frameState i = 0 ∧ pt.framePage i = 0) :
    Keyed pol 0 pt ⟨s, e, 0, HashTable.calloc, DllList.calloc, FreqList.calloc⟩ [] [] := by
  cases pol with
  | fifo  =>
    refine ⟨hse, fun i hs he => ⟨fun _ => hs, fun _ => (hzero rfl i hs he).1⟩, fun i hs hlt => ?_, fun p hp => ?_,
      fun p hp => ?_, Recent.nil _, List.nodup_nil, fun h0 i hs he => ?_⟩
    · rw [List.length_nil] at hlt
      omega
    · cases hp
    · cases hp
    · rw [(hzero rfl i hs he).2]
      exact h0
  | lru   => exact ⟨[], ⟨dllRep_calloc, hashMaps_calloc _, List.nodup_nil⟩, rfl⟩
  | ffifo => exact ⟨[], ⟨dllRep_calloc, hashMaps_calloc _, List.nodup_nil⟩, rfl⟩
  | lfu   => exact ⟨[], ⟨freqRep_calloc, hashMaps_calloc _, List.nodup_nil⟩, rfl⟩
  | rand  => exact ⟨hashMaps_calloc _, List.nodup_nil, rfl⟩

/-- **A thread without keys, and a table without pages.** -/
theorem paged_of_empty {pol : Policy} {m : Machine bs.State B} {c : Nat} (hk : Keyed pol c m.pt m.th [] [])
    (hpages : m.pt.npages = npages) (hn : 0 < m.pt.nframes) (hspan : m.th.endFrame = m.th.startFrame + m.pt.nframes)
    (hmem : m.th.startFrame = 0 ∨ m.th.endFrame ≤ npages) (hres : ∀ p, ¬ Resident m.pt p) (hroom : c ≤ m.pt.nframes)
    (honly : c = 0 ∨ pol = .rand) :
    Paged bs pol c m [] [] where
  keyed := hk
  listed := by
    refine ⟨⟨hpages, fun p hr => absurd hr (hres p), fun p hr => absurd hr (hres p), fun p _ hr => absurd hr (hres p),
      fun p hp hb => ?_⟩, List.nodup_nil, fun p => ⟨fun hr => absurd hr (hres p), fun hp => (by cases hp)⟩,
      fun p hp => (by cases hp), hspan, ?_, hmem⟩
    · exact absurd ⟨hpages.symm ▸ hp, by rw [hb]; exact Prot.noConfusion⟩ (hres p)
    · rw [List.length_nil, Nat.zero_add]
      exact hroom
  spread := fun _ => Spread.nil _ _
  frames := hn
  only := honly

theorem paged_fresh (pol : Policy) {pt : PageTable bs.State B} {s e : Nat} (rands : Nat → Nat) (calls : Nat)
    (hpages : pt.npages = npages) (hn : 0 < pt.nframes) (hspan : e = s + pt.nframes) (hmem : s = 0 ∨ e ≤ npages)
    (hres : ∀ p, ¬ Resident pt p) (hzero : pol = .fifo → ∀ i, s ≤ i → i < e → pt.frameState i = 0 ∧ pt.framePage i = 0) :
    Paged bs pol 0 ⟨pt, ⟨s, e, 0, HashTable.calloc, DllList.calloc, FreqList.calloc⟩, rands, calls⟩ [] [] :=
  paged_of_empty (keyed_calloc pol (by omega) hzero) hpages hn hspan hmem hres (Nat.zero_le _) (Or.inl rfl)

theorem paged_initVirtualMemory (pol : Policy) {nframes : Nat} (hn : 0 < nframes) (store : bs.State)
    (physmem : Nat → Block B) (rands : Nat → Nat) :
    Paged bs pol 0 (initVirtualMemory bs nframes store physmem rands) [] [] :=
  paged_fresh pol rands 0 rfl hn (Nat.zero_add _).symm (Or.inl rfl) (fun _ hr => hr.2 rfl) (fun _ _ _ _ => ⟨rfl, rfl⟩)

theorem ready_initVirtualMemory {pol : Policy} {nframes : Nat} (hn : 0 < nframes) (hfit : AgesFit pol nframes npages)
    (store : bs.State) (physmem : Nat → Block B) (rands : Nat → Nat) :
    Ready bs pol (initVirtualMemory bs nframes store physmem rands) [] [] :=
  ⟨paged_initVirtualMemory pol hn store physmem rands, hfit⟩

/-- What every fault and every store keeps. -/
structure Stable (bs : BackingStore B npages) (pol : Policy) (P : Machine bs.State B → Prop) : Prop where
  pages : ∀ {m}, P m → m.pt.npages = npages
  fault : ∀ {m m' page}, P m → page < npages → m.pt.pageBits page ≠ .readWrite →
    pageFaultHandler bs pol m page = some m' → P m'
  poke : ∀ {m page} (b : Block B), P m → page < npages → m.pt.pageBits page = .readWrite →
    P { m with pt := m.pt.poke page b }

section Stable

variable {pol : Policy} {P : Machine bs.State B → Prop}

/-- **An access is a number of faults** on its page. -/
theorem access_induct {a : Nat} {w : Bool} (hpages : ∀ {m}, P m → m.pt.npages = npages)
    (hfault : ∀ {m m'}, P m → a / B < npages → m.pt.pageBits (a / B) ≠ .readWrite →
      pageFaultHandler bs pol m (a / B) = some m' → P m') :
    ∀ (fuel : Nat) {m m' : Machine bs.State B}, P m → access bs pol a w fuel m = some m' →
      P m' ∧ a / B < npages ∧ (m'.pt.pageBits (a / B)).allows w = true
  | 0, _, _, _, he => by cases he
  | fuel + 1, m, m', hp, he => by
    rw [access, hpages hp] at he
    by_cases hpage : a / B < npages
    · rw [if_pos hpage] at he
      by_cases hb : (m.pt.pageBits (a / B)).allows w = true
      · rw [if_pos hb] at he
        cases he
        exact ⟨hp, hpage, hb⟩
      · rw [if_neg hb] at he
        have hrw : m.pt.pageBits (a / B) ≠ .readWrite := fun h => hb (by rw [h]; rfl)
        obtain ⟨m₁, e₁, he⟩ := Option.bind_eq_some_iff.1 he
        exact access_induct hpages hfault fuel (hfault hp hpage hrw e₁) he
    · rw [if_neg hpage] at he
      cases he

theorem Stable.access (hs : Stable bs pol P) {a fuel : Nat} {w : Bool} {m m' : Machine bs.State B} (hp : P m)
    (he : access bs pol a w fuel m = some m') : P m' ∧ a / B < npages ∧ (m'.pt.pageBits (a / B)).allows w = true :=
  access_induct hs.pages hs.fault fuel hp he

theorem allows_write {b : Prot} (hb : b.allows true = true) : b = .readWrite := by
  cases b with
  | none      => cases hb
  | read      => cases hb
  | readWrite => rfl

/-- The page of an operation. -/
def Op.page? (B : Nat) : Op → Option Nat
  | .load a    => some (a / B)
  | .store a _ => some (a / B)
  | .flush     => none

/-- The pages that a program accesses. -/
def touched (B : Nat) (ops : List Op) : List Nat := ops.filterMap (Op.page? B)

theorem touched_cons {B p : Nat} {op : Op} (h : op.page? B = some p) (ops : List Op) :
    touched B (op :: ops) = p :: touched B ops := List.filterMap_cons_some h

theorem touched_subset {B : Nat} {ops ops' : List Op} (h : ops ⊆ ops') : touched B ops ⊆ touched B ops' :=
  List.filterMap_subset _ h

variable [NeZero B]

theorem Stable.execOp (hs : Stable bs pol P) {fuel : Nat} {op : Op} {m m' : Machine bs.State B} {r : Option UInt8}
    (hflush : op = .flush → ∀ {m m'}, P m → pageTableFlush bs pol m = some m' → P m') (hp : P m)
    (he : execOp bs pol fuel m op = some (m', r)) : P m' ∧ ∀ p ∈ op.page? B, p < npages := by
  cases op with
  | load a =>
    obtain ⟨m₂, e₂, he⟩ := Option.bind_eq_some_iff.1 he
    cases he
    obtain ⟨hp₂, hpage, -⟩ := hs.access hp e₂
    exact ⟨hp₂, fun p hp => by cases hp; exact hpage⟩
  | store a v =>
    obtain ⟨m₂, e₂, he⟩ := Option.bind_eq_some_iff.1 he
    cases he
    obtain ⟨hp₂, hpage, hb⟩ := hs.access hp e₂
    exact ⟨hs.poke _ hp₂ hpage (allows_write hb), fun p hp => by cases hp; exact hpage⟩
  | flush =>
    obtain ⟨m₂, e₂, he⟩ := Option.bind_eq_some_iff.1 he
    cases he
    exact ⟨hflush rfl hp e₂, fun p hp => by cases hp⟩

/-- **A run is a number of faults, stores and flushes.** -/
theorem Stable.runOps (hs : Stable bs pol P) {fuel : Nat} : ∀ (ops : List Op) {m m' : Machine bs.State B},
    (.flush ∈ ops → ∀ {m m'}, P m → pageTableFlush bs pol m = some m' → P m') → P m →
    runOps bs pol fuel m ops = some m' → P m' ∧ ∀ p ∈ touched B ops, p < npages
  | [], _, _, _, hp, he => by
    cases he
    exact ⟨hp, fun p hp => by cases hp⟩
  | op :: ops, m, m', hflush, hp, he => by
    obtain ⟨⟨m₁, r⟩, e₁, he⟩ := Option.bind_eq_some_iff.1 he
    obtain ⟨hp₁, hlt₁⟩ := hs.execOp (fun h => hflush (h ▸ List.mem_cons_self)) hp e₁
    obtain ⟨hp', hlt⟩ := hs.runOps ops (fun hmem => hflush (List.mem_cons_of_mem _ hmem)) hp₁ he
    refine ⟨hp', fun p hpt => ?_⟩
    obtain ⟨op', hop, hpage⟩ := List.mem_filterMap.1 hpt
    rcases List.mem_cons.1 hop with rfl | hop
    · exact hlt₁ p hpage
    · exact hlt p (List.mem_filterMap.2 ⟨op', hop, hpage⟩)

theorem runOps_append {fuel : Nat} : ∀ (ops ops' : List Op) (m : Machine bs.State B),
    runOps bs pol fuel m (ops ++ ops') = (runOps bs pol fuel m ops).bind (fun m => runOps bs pol fuel m ops')
  | [],        _,    _ => rfl
  | op :: ops, ops', m => by
    rw [List.cons_append, Vmem.runOps, Vmem.runOps]
    cases execOp bs pol fuel m op with
    | none   => rfl
    | some x => exact runOps_append ops ops' x.1

end Stable

/-- Keys and frames, through any run without a flush. -/
theorem stable_paged (pol : Policy) (c n : Nat) :
    Stable bs pol (fun m => m.pt.nframes = n ∧ ∃ ks h, Paged bs pol c m ks h) where
  pages := fun ⟨_, _, _, hp⟩ => hp.listed.pages
  fault := fun ⟨hn, _, _, hp⟩ hpage hb he => by
    obtain ⟨ks', mv, hp', hf, -⟩ := hp.fault_some hpage (fun _ => hb) he
    exact ⟨hf.nframes.trans hn, ks', _, hp'⟩
  poke := fun b ⟨hn, ks, h, hp⟩ hpage hb => ⟨hn, ks, h, hp.poke hpage hb b⟩

theorem stable_ready (pol : Policy) : Stable bs pol (fun m => ∃ ks h, Ready bs pol m ks h) where
  pages := fun ⟨_, _, hp⟩ => hp.listed.pages
  fault := fun ⟨_, _, hp⟩ hpage hb he => by
    obtain ⟨m₁, ks', mv, e₁, hp', -⟩ := hp.fault hpage (fun _ => hb)
    cases e₁.symm.trans he
    exact ⟨ks', _, hp'⟩
  poke := fun b ⟨ks, h, hp⟩ hpage hb => ⟨ks, h, hp.toPaged.poke hpage hb b, hp.fit⟩

/-- **Every program of accesses in range gets through**, with two faults for each. -/
theorem Ready.runOps [NeZero B] {pol : Policy} : ∀ (ops : List Op) {m : Machine bs.State B} {ks h : List Nat},
    Ready bs pol m ks h → .flush ∉ ops → (∀ p ∈ touched B ops, p < npages) → ∃ m', runOps bs pol 3 m ops = some m'
  | [],        m, _,  _, _,  _,    _   => ⟨m, rfl⟩
  | op :: ops, m, ks, h, hp, hops, hin => by
    rw [List.mem_cons, not_or] at hops
    obtain ⟨⟨m₁, r⟩, e₁⟩ : ∃ x, execOp bs pol 3 m op = some x := by
      cases op with
      | flush => exact absurd rfl hops.1
      | load a =>
        obtain ⟨m₁, e₁⟩ := (hp.access (hin _ List.mem_cons_self) 1).1
        exact ⟨_, by rw [execOp, e₁]; rfl⟩
      | store a v =>
        obtain ⟨m₁, e₁⟩ := (hp.access (hin _ List.mem_cons_self) 0).2
        exact ⟨_, by rw [execOp, e₁]; rfl⟩
    obtain ⟨⟨ks₁, h₁, hp₁⟩, -⟩ := (stable_ready pol).execOp (fun h => absurd h.symm hops.1) ⟨ks, h, hp⟩ e₁
    obtain ⟨m', e'⟩ := Ready.runOps ops hp₁ hops.2 (fun p hpt =>
      hin p (touched_subset (List.subset_cons_self _ _) hpt))
    exact ⟨m', by rw [Vmem.runOps, e₁]; exact e'⟩

end Vmem
end Bb
