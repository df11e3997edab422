import BlueBridge.VmemFlush
/-!
# VmemTraffic — what the virtual memory asks of its backing store

Over a store that keeps its calls, a fault reads its page unless the page is resident, and writes its victim if the victim
was written to; nothing else calls the store but a flush.  So the calls can be held against the program's own accesses:
a page is read at most as often as it is accessed, and written back at most as often as it is stored to and as it was read
(`traffic_bounded`).

How often a page comes in depends on the policy.  While the pages touched since the start are no more than the frames each
comes in once (`fetched_once`).  In the middle of a run the same is true of the policies that evict the page whose last
turn is longest ago, since they evict what the others left before they evict what came in lately; LFU and RAND do not keep
to it (`conservative_iff`).
-/
namespace Bb
namespace Vmem

open Function (update update_self update_of_ne)

variable {B npages : Nat} {bs : BackingStore B npages}

/-! ## Reads and writes of the store -/

def Call.read? : Call B → Option Nat
  | .read p    => some p
  | .write _ _ => none

def Call.write? : Call B → Option Nat
  | .read _    => none
  | .write p _ => some p

def reads (log : List (Call B)) : List Nat := log.filterMap Call.read?
def writes (log : List (Call B)) : List Nat := log.filterMap Call.write?

/-- The page that a move brings in. -/
def Move.fetched (page : Nat) : Move → List Nat
  | .grant => []
  | _      => [page]

/-- The page that goes out with it and was written to. -/
def Move.written {S : Type} (pt : PageTable S B) : Move → List Nat
  | .replace v => if pt.pageBits v = .readWrite then [v] else []
  | _          => []

theorem dropPage_reads (pt : PageTable bs.logged.State B) (v : Nat) :
    reads (pt.dropPage bs.logged v).store.2 = reads pt.store.2 := by
  rw [dropPage_calls]
  split <;> rfl

theorem dropPage_writes (pt : PageTable bs.logged.State B) (v : Nat) :
    writes (pt.dropPage bs.logged v).store.2 = (if pt.pageBits v = .readWrite then [v] else []) ++ writes pt.store.2 := by
  rw [dropPage_calls]
  split <;> rfl

/-- **The calls of a move.** -/
theorem make_calls (pt : PageTable bs.logged.State B) (page : Nat) (mv : Move) :
    ∃ calls, (pt.make bs.logged page mv).store.2 = calls ++ pt.store.2 ∧ reads calls = mv.fetched page ∧
      writes calls = mv.written pt := by
  cases mv with
  | fill i    => exact ⟨[.read page], rfl, rfl, rfl⟩
  | replace v =>
    refine ⟨.read page :: if pt.pageBits v = .readWrite then [.write v (pt.physmem (pt.pageMapping v))] else [],
      congrArg (Call.read page :: ·) (dropPage_calls pt v), ?_, ?_⟩
    · split <;> rfl
    · show _ = if pt.pageBits v = .readWrite then [v] else []
      split <;> rfl
  | grant     => exact ⟨[], rfl, rfl, rfl⟩

theorem make_reads (pt : PageTable bs.logged.State B) (page : Nat) (mv : Move) :
    reads (pt.make bs.logged page mv).store.2 = mv.fetched page ++ reads pt.store.2 := by
  obtain ⟨calls, hcalls, hreads, -⟩ := make_calls pt page mv
  rw [hcalls, ← hreads]
  exact List.filterMap_append

theorem make_writes (pt : PageTable bs.logged.State B) (page : Nat) (mv : Move) :
    writes (pt.make bs.logged page mv).store.2 = mv.written pt ++ writes pt.store.2 := by
  obtain ⟨calls, hcalls, -, hwrites⟩ := make_calls pt page mv
  rw [hcalls, ← hwrites]
  exact List.filterMap_append

/-- A move fetches its page exactly if it was out, and its victim is another page. -/
theorem Faulted.fetches {pol : Policy} {m m' : Machine bs.State B} {c page : Nat} {ks ks' h : List Nat} {mv : Move}
    (hf : Faulted bs m m' c page ks ks' mv) (hp : Paged bs pol c m ks h) (hpage : page < npages) :
    mv.fetched page = (if m.pt.pageBits page = .none then [page] else []) ∧ ∀ v, mv = .replace v → v ≠ page := by
  have hturn := hf.turn
  have hbits := hp.listed.bits_iff hpage
  cases hturn with
  | fill hk          => exact ⟨by rw [if_pos (hbits.2 hk)]; rfl, fun v hv => by cases hv⟩
  | replace hk _ hks =>
    refine ⟨by rw [if_pos (hbits.2 hk)]; rfl, ?_⟩
    rintro v ⟨⟩ rfl
    exact hk (hks ▸ List.mem_append_right _ List.mem_cons_self)
  | grant hk         => exact ⟨by rw [if_neg (fun hn => hbits.1 hn hk)]; rfl, fun v hv => by cases hv⟩

/-! ## The calls make the store -/

/-- What a store answers to calls, one after the other, and how it is left. -/
def answer (bs : BackingStore B npages) : List (Call B) → bs.State → List (Block B) × bs.State
  | [],               s => ([], s)
  | .read p :: cs,    s => ((bs.read s p).1 :: (answer bs cs (bs.read s p).2).1, (answer bs cs (bs.read s p).2).2)
  | .write p b :: cs, s => answer bs cs (bs.write s p b)

theorem answer_snd_append (bs : BackingStore B npages) : ∀ (cs cs' : List (Call B)) (s : bs.State),
    (answer bs (cs ++ cs') s).2 = (answer bs cs' (answer bs cs s).2).2
  | [],               _,   _ => rfl
  | .read _ :: cs,    cs', _ => answer_snd_append bs cs cs' _
  | .write _ _ :: cs, cs', _ => answer_snd_append bs cs cs' _

/-- **The store is as its calls have left it**, and they were for pages there are. -/
structure Replays (bs : BackingStore B npages) (s : bs.State) (pt : PageTable bs.logged.State B) : Prop where
  state : pt.store.1 = (answer bs pt.store.2.reverse s).2
  pages : ∀ c ∈ pt.store.2, c.page < npages

section Replays

variable {s : bs.State} {pt pt' : PageTable bs.logged.State B} {p : Nat}

theorem Replays.call (h : Replays bs s pt) {c : Call B} (hc : c.page < npages) (hlog : pt'.store.2 = c :: pt.store.2)
    (hstate : pt'.store.1 = (answer bs [c] pt.store.1).2) : Replays bs s pt' where
  state := by rw [hstate, hlog, List.reverse_cons, answer_snd_append, ← h.state]
  pages := fun d hd => by
    rw [hlog] at hd
    rcases List.mem_cons.1 hd with rfl | hd
    · exact hc
    · exact h.pages d hd

theorem Replays.congr (h : Replays bs s pt) (hs : pt'.store = pt.store) : Replays bs s pt' := by
  obtain ⟨h₁, h₂⟩ := h
  rw [← hs] at h₁ h₂
  exact ⟨h₁, h₂⟩

theorem Replays.fillPage (h : Replays bs s pt) (hp : p < npages) (i : Nat) : Replays bs s (pt.fillPage bs.logged p i) :=
  h.call (c := .read p) hp rfl rfl

theorem Replays.dropPage (h : Replays bs s pt) (hp : p < npages) : Replays bs s (pt.dropPage bs.logged p) := by
  by_cases hw : pt.pageBits p = .readWrite
  · refine h.call (c := .write p (pt.physmem (pt.pageMapping p))) hp ?_ ?_
    · rw [dropPage_calls, if_pos hw]
      rfl
    · unfold PageTable.dropPage
      rw [if_pos hw]
      rfl
  · refine h.congr ?_
    unfold PageTable.dropPage
    rw [if_neg hw]
    rfl

theorem Replays.dropAll : ∀ (vs : List Nat) {pt : PageTable bs.logged.State B}, (∀ v ∈ vs, v < npages) →
    Replays bs s pt → Replays bs s (pt.dropAll bs.logged vs)
  | [],      _, _,  h => h
  | v :: vs, _, hv, h =>
    Replays.dropAll vs (fun w hw => hv w (List.mem_cons_of_mem _ hw)) (h.dropPage (hv v List.mem_cons_self))

theorem Replays.make (h : Replays bs s pt) (hp : p < npages) {mv : Move} (hv : ∀ v, mv = .replace v → v < npages) :
    Replays bs s (pt.make bs.logged p mv) := by
  cases mv with
  | fill i    => exact h.fillPage hp i
  | replace v => exact (h.dropPage (hv v rfl)).fillPage hp _
  | grant     => exact h.congr rfl

theorem Replays.flush {pol : Policy} {n : Nat} {m m' : Machine bs.logged.State B} (hb : Between bs.logged pol n m)
    (h : Replays bs s m.pt) (he : pageTableFlush bs.logged pol m = some m') : Replays bs s m'.pt := by
  obtain ⟨-, hi, c, ks, hist, hp⟩ := hb
  obtain ⟨vs, hd, -, hlt, -⟩ := hp.flush_some hi.fifo he
  exact (h.dropAll vs hlt).congr (by rw [hd.table])

theorem stable_replays (pol : Policy) (n : Nat) (s : bs.State) :
    Stable bs.logged pol (fun m => Between bs.logged pol n m ∧ Replays bs s m.pt) where
  pages := fun h => (stable_between pol n).pages h.1
  fault := fun {m m' page} h hpage hb he => by
    refine ⟨(stable_between pol n).fault h.1 hpage hb he, ?_⟩
    obtain ⟨-, -, c, ks, hist, hp⟩ := h.1
    obtain ⟨ks', mv, -, hf, -⟩ := hp.fault_some hpage (fun _ => hb) he
    have hv : ∀ v, mv = .replace v → v < npages := by
      rintro v rfl
      exact hp.listed.lt_npages hf.turn.victim_mem
    exact (h.2.make hpage hv).congr (by rw [hf.table])
  poke := fun b h hpage hb => ⟨(stable_between pol n).poke b h.1 hpage hb, h.2.congr rfl⟩

/-- **A run replays.** -/
theorem replays_runOps [NeZero B] {pol : Policy} {nframes fuel : Nat} (hn : 1 ≤ nframes) {physmem : Nat → Block B}
    {rands : Nat → Nat} {ops : List Op} {m : Machine bs.logged.State B}
    (hrun : runOps bs.logged pol fuel (initVirtualMemory bs.logged nframes (s, []) physmem rands) ops = some m) :
    Between bs.logged pol nframes m ∧ Replays bs s m.pt :=
  ((stable_replays pol nframes s).runOps ops (fun _ _ _ h he => ⟨h.1.flush he, h.2.flush h.1 he⟩)
    ⟨⟨rfl, initVirtualMemory_inv pol hn _ physmem rands, 0, [], [], paged_initVirtualMemory pol hn _ physmem rands⟩,
      ⟨rfl, fun _ hc => (by cases hc)⟩⟩ hrun).1

end Replays

/-! ## Against the accesses -/

/-- The pages that a program stores to. -/
def stored (B : Nat) (ops : List Op) : List Nat :=
  ops.filterMap (fun | .store a _ => some (a / B) | .load _ => none | .flush => none)

def dirty {S : Type} (pt : PageTable S B) (p : Nat) : Nat := if pt.pageBits p = .readWrite then 1 else 0
def present {S : Type} (pt : PageTable S B) (p : Nat) : Nat := if pt.pageBits p = .none then 0 else 1

/-- **The calls so far**, when each page has been stored to `S` times and accessed `A` times. -/
structure Ledger (bs : BackingStore B npages) (S A : Nat → Nat) (pt : PageTable bs.logged.State B) : Prop where
  written : ∀ q, (writes pt.store.2).count q + dirty pt q ≤ S q
  back : ∀ q, (writes pt.store.2).count q + present pt q ≤ (reads pt.store.2).count q
  needed : ∀ q, (reads pt.store.2).count q ≤ A q

/-- The same within an access of page `p`: it may still come in, and if it is a store, it may be granted already. -/
structure Ledger.Within (bs : BackingStore B npages) (S A : Nat → Nat) (p : Nat) (w : Bool)
    (pt : PageTable bs.logged.State B) : Prop where
  written : ∀ q, (writes pt.store.2).count q + (if q = p ∧ w = true then 0 else dirty pt q) ≤ S q
  back : ∀ q, (writes pt.store.2).count q + present pt q ≤ (reads pt.store.2).count q
  needed : ∀ q, (reads pt.store.2).count q + (if q = p then 1 - present pt q else 0) ≤ A q + if q = p then 1 else 0

section Ledger

variable {S A : Nat → Nat} {p q : Nat} {w : Bool} {pt : PageTable bs.logged.State B}

theorem dirty_le_present {S : Type} (pt : PageTable S B) (p : Nat) : dirty pt p ≤ present pt p ∧ present pt p ≤ 1 := by
  unfold dirty present
  cases pt.pageBits p <;> decide

/-- A page that goes is written if it was stored to. -/
theorem dropPage_booked (pt : PageTable bs.logged.State B) (v q : Nat) :
    (writes (pt.dropPage bs.logged v).store.2).count q + dirty (pt.dropPage bs.logged v) q =
        (writes pt.store.2).count q + dirty pt q ∧
      (writes (pt.dropPage bs.logged v).store.2).count q + present (pt.dropPage bs.logged v) q ≤
        (writes pt.store.2).count q + present pt q := by
  rw [dropPage_writes, List.count_append]
  unfold dirty present
  rw [dropPage_bits]
  by_cases hq : q = v
  · subst hq
    rw [update_self]
    cases pt.pageBits q with
    | readWrite => simp; omega
    | _         => simp
  · rw [update_of_ne hq]
    have hnot : List.count q (if pt.pageBits v = .readWrite then [v] else []) = 0 := by
      split <;> simp [Ne.symm hq]
    omega

/-- A move books its victim. -/
theorem make_booked (pt : PageTable bs.logged.State B) (mv : Move) (hq : q ≠ p) :
    (writes (pt.make bs.logged p mv).store.2).count q + dirty (pt.make bs.logged p mv) q =
        (writes pt.store.2).count q + dirty pt q ∧
      (writes (pt.make bs.logged p mv).store.2).count q + present (pt.make bs.logged p mv) q ≤
        (writes pt.store.2).count q + present pt q := by
  cases mv with
  | fill i    =>
    have hbits : (pt.make bs.logged p (.fill i)).pageBits q = pt.pageBits q := update_of_ne hq _ _
    unfold dirty present
    rw [hbits, make_writes]
    exact ⟨rfl, Nat.le_refl _⟩
  | replace v =>
    have hbits : (pt.make bs.logged p (.replace v)).pageBits q = (pt.dropPage bs.logged v).pageBits q := update_of_ne hq _ _
    have hdrop := dropPage_booked pt v q
    unfold dirty present at hdrop ⊢
    rw [hbits, make_writes]
    rwa [dropPage_writes] at hdrop
  | grant     =>
    have hbits : (pt.make bs.logged p .grant).pageBits q = pt.pageBits q := update_of_ne hq _ _
    unfold dirty present
    rw [hbits, make_writes]
    exact ⟨rfl, Nat.le_refl _⟩

theorem Ledger.enter (h : Ledger bs S A pt) (p : Nat) (w : Bool) : Ledger.Within bs S A p w pt where
  written := fun q => by
    have := h.written q
    split <;> omega
  back := h.back
  needed := fun q => by
    have := h.needed q
    split <;> omega

theorem Ledger.Within.leave (h : Ledger.Within bs S A p w pt) :
    Ledger bs (fun q => S q + (if w then [p] else []).count q) (fun q => A q + [p].count q) pt where
  written := fun q => by
    have hle := dirty_le_present pt q
    have hq := h.written q
    by_cases hc : q = p ∧ w = true
    · obtain ⟨rfl, rfl⟩ := hc
      simp only [and_self, if_true, List.count_singleton_self] at hq ⊢
      omega
    · rw [if_neg hc] at hq
      omega
  back := h.back
  needed := fun q => by
    have hq := h.needed q
    by_cases hqp : q = p
    · subst hqp
      rw [if_pos rfl, if_pos rfl] at hq
      rw [List.count_singleton_self]
      omega
    · rw [if_neg hqp, if_neg hqp] at hq
      omega

/-- **A fault books its move.** -/
theorem Ledger.Within.make {mv : Move} (h : Ledger.Within bs S A p w pt)
    (hfetch : mv.fetched p = if pt.pageBits p = .none then [p] else []) (hv : ∀ v, mv = .replace v → v ≠ p)
    (hw : w = false → pt.pageBits p = .none) : Ledger.Within bs S A p w (pt.make bs.logged p mv) := by
  -- the page itself: it is not written, and read if it was out
  have hwrites : (writes (pt.make bs.logged p mv).store.2).count p = (writes pt.store.2).count p := by
    rw [make_writes, List.count_append, Nat.add_eq_right]
    unfold Move.written
    split
    · split <;> simp [hv _ rfl]
    · rfl
  have hreads : (reads (pt.make bs.logged p mv).store.2).count p = (reads pt.store.2).count p + (1 - present pt p) := by
    rw [make_reads, hfetch, List.count_append, Nat.add_comm]
    unfold present
    split <;> simp
  have hpresent : present (pt.make bs.logged p mv) p = 1 := by
    unfold present
    rw [make_bits_self, if_neg mv.bits_ne_none]
  have hothers : ∀ q, q ≠ p → (reads (pt.make bs.logged p mv).store.2).count q = (reads pt.store.2).count q := by
    intro q hq
    rw [make_reads, hfetch, List.count_append, Nat.add_eq_right]
    split <;> simp [Ne.symm hq]
  refine ⟨fun q => ?_, fun q => ?_, fun q => ?_⟩
  · have hq := h.written q
    by_cases hqp : q = p
    · subst hqp
      rw [hwrites]
      cases w with
      | true  => simpa using hq
      | false =>
        have hmv : mv.bits = .read := by
          rw [hw rfl, if_pos rfl] at hfetch
          cases mv with
          | grant => cases hfetch
          | _     => rfl
        have hzero : dirty (pt.make bs.logged q mv) q = 0 := by
          unfold dirty
          rw [make_bits_self, hmv]
          rfl
        simp only [Bool.false_eq_true, and_false, if_false] at hq ⊢
        omega
    · rw [if_neg (fun hc => hqp hc.1)] at hq ⊢
      rw [(make_booked pt mv hqp).1]
      exact hq
  · have hq := h.back q
    by_cases hqp : q = p
    · subst hqp
      have := (dirty_le_present pt q).2
      omega
    · rw [hothers q hqp]
      exact (make_booked pt mv hqp).2.trans hq
  · have hq := h.needed q
    by_cases hqp : q = p
    · subst hqp
      rw [if_pos rfl, if_pos rfl] at hq ⊢
      omega
    · rw [if_neg hqp, if_neg hqp] at hq ⊢
      rw [hothers q hqp]
      exact hq

theorem Ledger.dropAll : ∀ (vs : List Nat) {pt : PageTable bs.logged.State B}, Ledger bs S A pt →
    Ledger bs S A (pt.dropAll bs.logged vs)
  | [], _, h => h
  | v :: vs, pt, h => by
    refine Ledger.dropAll vs ⟨fun q => ?_, fun q => ?_, fun q => ?_⟩
    · exact (dropPage_booked pt v q).1.trans_le (h.written q)
    · rw [dropPage_reads]
      exact (dropPage_booked pt v q).2.trans (h.back q)
    · rw [dropPage_reads]
      exact h.needed q

/-- What is left of the booking does not depend on FIFO's arrays or on the frames' bytes. -/
theorem Ledger.congr {pt' : PageTable bs.logged.State B} (h : Ledger bs S A pt) (hb : pt'.pageBits = pt.pageBits)
    (hs : pt'.store = pt.store) : Ledger bs S A pt' := by
  obtain ⟨h₁, h₂, h₃⟩ := h
  unfold dirty at h₁
  unfold present at h₂
  rw [← hb, ← hs] at h₁ h₂
  exact ⟨h₁, h₂, hs.symm ▸ h₃⟩

theorem Ledger.Within.congr {pt' : PageTable bs.logged.State B} (h : Ledger.Within bs S A p w pt)
    (hb : pt'.pageBits = pt.pageBits) (hs : pt'.store = pt.store) : Ledger.Within bs S A p w pt' := by
  obtain ⟨h₁, h₂, h₃⟩ := h
  unfold dirty at h₁
  unfold present at h₂ h₃
  rw [← hb, ← hs] at h₁ h₂ h₃
  exact ⟨h₁, h₂, h₃⟩

end Ledger

section Run

variable {pol : Policy} {n : Nat} {S A : Nat → Nat}

/-- An access faults while its page does not allow it. -/
theorem access_faults {a : Nat} {w : Bool} {P : Machine bs.State B → Prop} (hpages : ∀ {m}, P m → m.pt.npages = npages)
    (hfault : ∀ {m m'}, P m → a / B < npages → (m.pt.pageBits (a / B)).allows w = false →
      pageFaultHandler bs pol m (a / B) = some m' → P m') :
    ∀ (fuel : Nat) {m m' : Machine bs.State B}, P m → access bs pol a w fuel m = some m' → P m'
  | 0, _, _, _, he => by cases he
  | fuel + 1, m, m', hp, he => by
    rw [access, hpages hp] at he
    by_cases hpage : a / B < npages
    · rw [if_pos hpage] at he
      cases hb : (m.pt.pageBits (a / B)).allows w with
      | true =>
        rw [hb, if_pos rfl] at he
        cases he
        exact hp
      | false =>
        rw [hb, if_neg Bool.false_ne_true] at he
        obtain ⟨m₁, e₁, he⟩ := Option.bind_eq_some_iff.1 he
        exact access_faults hpages hfault fuel (hfault hp hpage hb e₁) he
    · rw [if_neg hpage] at he
      cases he

/-- **An access is booked.** -/
theorem Between.access_booked {m m' : Machine bs.logged.State B} {a fuel : Nat} {w : Bool}
    (hb : Between bs.logged pol n m) (hl : Ledger bs S A m.pt) (he : access bs.logged pol a w fuel m = some m') :
    Between bs.logged pol n m' ∧ Ledger bs (fun q => S q + (if w then [a / B] else []).count q)
      (fun q => A q + [a / B].count q) m'.pt := by
  obtain ⟨hb', hl'⟩ := access_faults (a := a) (w := w)
    (P := fun m => Between bs.logged pol n m ∧ Ledger.Within bs S A (a / B) w m.pt)
    (fun h => (stable_between pol n).pages h.1)
    (fun {m m'} h hpage hno he => by
      have hrw : m.pt.pageBits (a / B) ≠ .readWrite := fun hrw => by rw [hrw] at hno; cases hno
      obtain ⟨hn, hi, c, ks, hist, hp⟩ := h.1
      obtain ⟨ks', mv, hp', hf, -⟩ := hp.fault_some hpage (fun _ => hrw) he
      obtain ⟨hfetch, hv⟩ := hf.fetches hp hpage
      refine ⟨(stable_between pol n).fault h.1 hpage hrw he, ?_⟩
      refine (h.2.make hfetch hv (fun hw => ?_)).congr (by rw [hf.table]) (by rw [hf.table])
      subst hw
      by_contra hne
      rw [allows_read hne] at hno
      cases hno) fuel ⟨hb, hl.enter _ _⟩ he
  exact ⟨hb', hl'.leave⟩

variable [NeZero B]

theorem Between.exec_booked {fuel : Nat} {op : Op} {m m' : Machine bs.logged.State B} {r : Option UInt8}
    (hb : Between bs.logged pol n m) (hl : Ledger bs S A m.pt) (he : execOp bs.logged pol fuel m op = some (m', r)) :
    Between bs.logged pol n m' ∧ Ledger bs (fun q => S q + (stored B [op]).count q)
      (fun q => A q + (touched B [op]).count q) m'.pt := by
  refine ⟨((stable_between pol n).execOp (fun _ => Between.flush) hb he).1, ?_⟩
  cases op with
  | load a =>
    obtain ⟨m₁, e₁, he⟩ := Option.bind_eq_some_iff.1 he
    cases he
    exact (hb.access_booked hl e₁).2
  | store a v =>
    obtain ⟨m₁, e₁, he⟩ := Option.bind_eq_some_iff.1 he
    cases he
    exact (hb.access_booked hl e₁).2.congr rfl rfl
  | flush =>
    obtain ⟨m₁, e₁, he⟩ := Option.bind_eq_some_iff.1 he
    cases he
    obtain ⟨-, hi, c, ks, h, hp⟩ := hb
    obtain ⟨vs, hd, -⟩ := hp.flush_some hi.fifo e₁
    exact (hl.dropAll vs).congr (by rw [hd.table]) (by rw [hd.table])

/-- **A run is booked**, flushes and all. -/
theorem Between.run_booked {fuel : Nat} : ∀ (ops : List Op) {S A : Nat → Nat} {m m' : Machine bs.logged.State B},
    Between bs.logged pol n m → Ledger bs S A m.pt → runOps bs.logged pol fuel m ops = some m' →
    Ledger bs (fun q => S q + (stored B ops).count q) (fun q => A q + (touched B ops).count q) m'.pt
  | [], _, _, _, _, _, hl, he => by
    cases he
    exact hl
  | op :: ops, S, A, m, m', hb, hl, he => by
    obtain ⟨⟨m₁, r⟩, e₁, he⟩ := Option.bind_eq_some_iff.1 he
    obtain ⟨hb₁, hl₁⟩ := hb.exec_booked hl e₁
    have hl' := Between.run_booked ops hb₁ hl₁ he
    simp only [Nat.add_assoc, ← List.count_append] at hl'
    have hstored : stored B (op :: ops) = stored B [op] ++ stored B ops := List.filterMap_append (l := [op])
    have htouched : touched B (op :: ops) = touched B [op] ++ touched B ops := List.filterMap_append (l := [op])
    rw [hstored, htouched]
    exact hl'

/-- **Against the accesses.**  Whatever the policy and `rand()`, a program of loads, stores and flushes has each page read
at most once for each of its accesses, and written back at most once for each of its stores; and a page is not written
back more often than it was read. -/
theorem traffic_bounded (pol : Policy) {nframes : Nat} (hn : 1 ≤ nframes) (store : bs.State) (physmem : Nat → Block B)
    (rands : Nat → Nat) (fuel : Nat) (ops : List Op) {m : Machine bs.logged.State B}
    (hrun : runOps bs.logged pol fuel (initVirtualMemory bs.logged nframes (store, []) physmem rands) ops = some m)
    (p : Nat) :
    (reads m.pt.store.2).count p ≤ (touched B ops).count p ∧
      (writes m.pt.store.2).count p ≤ min ((stored B ops).count p) ((reads m.pt.store.2).count p) := by
  have hb : Between bs.logged pol nframes (initVirtualMemory bs.logged nframes (store, []) physmem rands) :=
    ⟨rfl, initVirtualMemory_inv pol hn _ physmem rands, 0, [], [], paged_initVirtualMemory pol hn _ physmem rands⟩
  have hl : Ledger bs (fun _ => 0) (fun _ => 0) (initVirtualMemory bs.logged nframes (store, []) physmem rands).pt :=
    ⟨fun _ => Nat.le_refl _, fun _ => Nat.le_refl _, fun _ => Nat.le_refl _⟩
  have h := hb.run_booked ops hl hrun
  have hneed := h.needed p
  have hwrite := h.written p
  have hback := h.back p
  omega

/-- Two frames for three pages: page 0 goes out with what was stored to it, and comes back for the load. -/
theorem traffic_bounded_lru : ∃ m, runOps (memStore 2 3).logged .lru 3
      (initVirtualMemory (memStore 2 3).logged 2 ((fun _ _ => 0), []) (fun _ _ => 0) (fun _ => 0))
      [.store 0 7, .load 2, .load 4, .load 1] = some m ∧ (reads m.pt.store.2).count 0 ≤ 2 ∧
    (writes m.pt.store.2).count 0 ≤ 1 := by
  have hrun : (runOps (memStore 2 3).logged .lru 3
      (initVirtualMemory (memStore 2 3).logged 2 ((fun _ _ => 0), []) (fun _ _ => 0) (fun _ => 0))
      [.store 0 7, .load 2, .load 4, .load 1]).isSome = true := by decide
  obtain ⟨m, e⟩ := Option.isSome_iff_exists.1 hrun
  have h := traffic_bounded .lru (by decide) _ _ _ 3 _ e 0
  exact ⟨m, e, h.1, h.2.trans (Nat.min_le_left _ _)⟩

end Run

/-! ## Pages that come in once -/

section Within

variable {pol : Policy} {D : List Nat}

/-- **A program that keeps to the pages of `D`** is a number of faults on them and of stores. -/
theorem runOps_within [NeZero B] {P : Machine bs.State B → Prop} {fuel : Nat} (hpages : ∀ {m}, P m → m.pt.npages = npages)
    (hfault : ∀ {m m' page}, P m → page ∈ D → page < npages → m.pt.pageBits page ≠ .readWrite →
      pageFaultHandler bs pol m page = some m' → P m')
    (hpoke : ∀ {m page} (b : Block B), P m → page < npages → m.pt.pageBits page = .readWrite →
      P { m with pt := m.pt.poke page b }) :
    ∀ (ops : List Op) {m m' : Machine bs.State B}, .flush ∉ ops → touched B ops ⊆ D → P m →
      runOps bs pol fuel m ops = some m' → P m'
  | [], _, _, _, _, hp, he => by
    cases he
    exact hp
  | op :: ops, m, m', hops, hD, hp, he => by
    obtain ⟨⟨m₁, r⟩, e₁, he⟩ := Option.bind_eq_some_iff.1 he
    rw [List.mem_cons, not_or] at hops
    refine runOps_within hpages hfault hpoke ops hops.2
      (fun q hq => hD (touched_subset (List.subset_cons_self _ _) hq)) ?_ he
    cases op with
    | flush => exact absurd rfl hops.1
    | load a =>
      obtain ⟨m₂, e₂, e₁⟩ := Option.bind_eq_some_iff.1 e₁
      cases e₁
      exact (access_induct hpages (fun hp => hfault hp (hD List.mem_cons_self)) fuel hp e₂).1
    | store a v =>
      obtain ⟨m₂, e₂, e₁⟩ := Option.bind_eq_some_iff.1 e₁
      cases e₁
      obtain ⟨hp₂, hpage, hb⟩ := access_induct hpages (fun hp => hfault hp (hD List.mem_cons_self)) fuel hp e₂
      exact hpoke _ hp₂ hpage (allows_write hb)

/-- Since the start the store was only read, and each key once. -/
def Loaded (bs : BackingStore B npages) (pol : Policy) (D : List Nat) (m : Machine bs.logged.State B) : Prop :=
  D.length ≤ m.pt.nframes ∧ ∃ ks h, ∃ R : List Nat,
    Paged bs.logged pol 0 m ks h ∧ ks ⊆ D ∧ m.pt.store.2 = R.map .read ∧ R.Perm ks

theorem Loaded.fault {m m' : Machine bs.logged.State B} {page : Nat} (hl : Loaded bs pol D m) (hD : page ∈ D)
    (hpage : page < npages) (hb : m.pt.pageBits page ≠ .readWrite)
    (he : pageFaultHandler bs.logged pol m page = some m') : Loaded bs pol D m' := by
  obtain ⟨hlen, ks, h, R, hp, hsub, hlog, hR⟩ := hl
  obtain ⟨ks', mv, hp', hf, -⟩ := hp.fault_some hpage (fun _ => hb) he
  have hmove : (m.pt.make bs.logged page mv).store.2 = (mv.fetched page).map .read ++ m.pt.store.2 ∧
      (mv.fetched page ++ ks).Perm ks' := by
    have hturn := hf.turn
    cases hturn with
    | fill _ _ hperm => exact ⟨rfl, hperm.symm⟩
    | grant _ hperm => exact ⟨rfl, hperm.symm⟩
    | replace hk hfull =>
      -- the page and the keys are distinct pages of `D`: there was a frame left
      have hnd : (page :: ks).Nodup := List.nodup_cons.2 ⟨hk, hp.listed.nodup⟩
      have := hnd.length_le_of_subset (List.cons_subset.2 ⟨hD, hsub⟩)
      rw [List.length_cons] at this
      omega
  refine ⟨hf.nframes.symm ▸ hlen, ks', _, mv.fetched page ++ R, hp', fun q hq => ?_, ?_, ?_⟩
  · rcases hf.turn.mem_of_mem hq with rfl | hq
    · exact hD
    · exact hsub hq
  · rw [hf.table, List.map_append, ← hlog]
    exact hmove.1
  · exact (hR.append_left _).trans hmove.2

variable [NeZero B]

/-- **Each page comes in once, and none goes out**, while there is a frame for each page touched: whatever the policy, the
calls of the store are one read of each. -/
theorem fetched_once (pol : Policy) {nframes : Nat} (hn : 1 ≤ nframes) (hfit : AgesFit pol nframes npages)
    (store : bs.State) (physmem : Nat → Block B) (rands : Nat → Nat) (ops : List Op) (hops : .flush ∉ ops)
    (hin : ∀ p ∈ touched B ops, p < npages) (hlen : (touched B ops).dedup.length ≤ nframes) :
    ∃ m, runOps bs.logged pol 3 (initVirtualMemory bs.logged nframes (store, []) physmem rands) ops = some m ∧
      m.pt.store.2.Perm ((touched B ops).dedup.map .read) := by
  have hready : Ready bs.logged pol (initVirtualMemory bs.logged nframes (store, []) physmem rands) [] [] :=
    ready_initVirtualMemory hn hfit _ physmem rands
  obtain ⟨m, e⟩ := hready.runOps ops hops hin
  have hsub : touched B ops ⊆ (touched B ops).dedup := fun p hp => List.mem_dedup.2 hp
  obtain ⟨-, ks, h, R, hp, hks, hlog, hR⟩ := runOps_within (P := Loaded bs pol (touched B ops).dedup)
    (fun ⟨_, _, _, _, hp, _⟩ => hp.listed.pages) Loaded.fault
    (fun b ⟨hlen, ks, h, R, hp, hrest⟩ hpage hw => ⟨hlen, ks, h, R, hp.poke hpage hw b, hrest⟩) ops hops hsub
    ⟨hlen, [], [], [], hready.toPaged, List.nil_subset _, rfl, List.Perm.nil⟩ e
  have hres := (hready.frees.fill 3 ops m hops e hlen).1
  have hperm : ks.Perm (touched B ops).dedup := by
    refine (List.perm_ext_iff_of_nodup hp.listed.nodup (List.nodup_dedup _)).2
      (fun p => ⟨fun hpk => hks hpk, fun hpt => ?_⟩)
    have hpt := List.mem_dedup.1 hpt
    exact by_contra fun hk => hres p hpt ((hp.listed.bits_iff (hin p hpt)).2 hk)
  exact ⟨m, e, hlog ▸ (hR.trans hperm).map _⟩

theorem fetched_once_rand : ∃ m, runOps (memStore 2 3).logged .rand 3
      (initVirtualMemory (memStore 2 3).logged 2 ((fun _ _ => 0), []) (fun _ _ => 0) (fun _ => 0))
      [.store 4 7, .load 0, .load 5] = some m ∧ m.pt.store.2.Perm ([0, 2].map .read) :=
  fetched_once .rand (by decide) Policy.noConfusion _ _ _ _ (by simp) (by decide) (by decide)

end Within

/-! ## In the middle of a run -/

section Window

variable {pol : Policy} {n : Nat} {D : List Nat} {log : List (Call B)}

/-- Since the window began each page came in at most once, and is still ahead of the keys from before (`C`). -/
def Window (bs : BackingStore B npages) (pol : Policy) (n : Nat) (D : List Nat) (log : List (Call B))
    (m : Machine bs.logged.State B) : Prop :=
  m.pt.nframes = n ∧ ∃ A C h calls, Paged bs.logged pol 0 m (A ++ C) h ∧ A ⊆ D ∧ m.pt.store.2 = calls ++ log ∧
    (reads calls).Nodup ∧ reads calls ⊆ A

/-- **What was there before goes first.**  While the pages of the window have a frame each, a page that comes in takes the
frame of one that the window has not touched. -/
theorem keys_split {A C ks' : List Nat} {page : Nat} (hA : A ⊆ D) (hD : page ∈ D) (hlen : D.length ≤ n)
    (hnd : (A ++ C).Nodup) (hks : ks' = lruKeys n (A ++ C) page ∨ ks' = ffifoKeys n (A ++ C) page) :
    ∃ A' C', ks' = A' ++ C' ∧ A' ⊆ D ∧ A ⊆ A' ∧ (page ∉ A ++ C → page ∈ A') := by
  by_cases hk : page ∈ A ++ C
  · rcases hks with rfl | rfl
    · rw [lruKeys, if_pos hk]
      by_cases hkA : page ∈ A
      · refine ⟨page :: A.erase page, C, ?_, ?_, ?_, fun hn => absurd hk hn⟩
        · rw [List.erase_append_left _ hkA]
          rfl
        · exact List.cons_subset.2 ⟨hD, fun q hq => hA (List.mem_of_mem_erase hq)⟩
        · intro q hq
          by_cases hqp : q = page
          · exact List.mem_cons.2 (Or.inl hqp)
          · exact List.mem_cons_of_mem _ ((List.mem_erase_of_ne hqp).2 hq)
      · refine ⟨page :: A, C.erase page, ?_, List.cons_subset.2 ⟨hD, hA⟩, List.subset_cons_self _ _, fun hn => absurd hk hn⟩
        rw [List.erase_append_right _ hkA]
        rfl
    · exact ⟨A, C, by rw [ffifoKeys, if_pos hk], hA, List.Subset.refl _, fun hn => absurd hk hn⟩
  · have hload : ks' = loadKey n (A ++ C) page := by
      rcases hks with rfl | rfl
      · exact if_neg hk
      · exact if_neg hk
    rw [hload, loadKey]
    split
    · exact ⟨page :: A, C, rfl, List.cons_subset.2 ⟨hD, hA⟩, List.subset_cons_self _ _, fun _ => List.mem_cons_self⟩
    · have hC : C ≠ [] := by
        rintro rfl
        rw [List.append_nil] at *
        have := (List.nodup_cons.2 ⟨hk, hnd⟩).length_le_of_subset (List.cons_subset.2 ⟨hD, hA⟩)
        rw [List.length_cons] at this
        omega
      refine ⟨page :: A, C.dropLast, ?_, List.cons_subset.2 ⟨hD, hA⟩, List.subset_cons_self _ _,
        fun _ => List.mem_cons_self⟩
      rw [List.dropLast_append_of_ne_nil hC]
      rfl

theorem Window.fault {m m' : Machine bs.logged.State B} {page : Nat} (hpol : pol ≠ .lfu ∧ pol ≠ .rand)
    (hlen : D.length ≤ n) (hw : Window bs pol n D log m) (hD : page ∈ D) (hpage : page < npages)
    (hb : m.pt.pageBits page ≠ .readWrite) (he : pageFaultHandler bs.logged pol m page = some m') :
    Window bs pol n D log m' := by
  obtain ⟨rfl, A, C, h, calls, hp, hA, hlog, hnd, hsub⟩ := hw
  obtain ⟨ks', mv, hp', hf, hord⟩ := hp.fault_some hpage (fun _ => hb) he
  have hks : ks' = lruKeys m.pt.nframes (A ++ C) page ∨ ks' = ffifoKeys m.pt.nframes (A ++ C) page := by
    cases pol with
    | fifo  => exact Or.inl hord.1
    | lru   => exact Or.inl hord.1
    | ffifo => exact Or.inr hord.1
    | lfu   => exact absurd rfl hpol.1
    | rand  => exact absurd rfl hpol.2
  obtain ⟨A', C', rfl, hA', hAA', hin⟩ := keys_split hA hD hlen hp.listed.nodup hks
  obtain ⟨new, hnew, hreads, -⟩ := make_calls m.pt page mv
  have hfetch := (hf.fetches hp hpage).1
  have hcalls : reads (new ++ calls) = mv.fetched page ++ reads calls := by
    rw [← hreads]
    exact List.filterMap_append
  refine ⟨hf.nframes, A', C', _, new ++ calls, hp', hA', ?_, ?_, ?_⟩
  · rw [hf.table, List.append_assoc, ← hlog]
    exact hnew
  all_goals
    rw [hcalls, hfetch]
    split
  · have hk := (hp.listed.bits_iff hpage).1 ‹_›
    exact List.nodup_cons.2 ⟨fun hr => hk (List.mem_append_left _ (hsub hr)), hnd⟩
  · exact hnd
  · exact List.cons_subset.2 ⟨hin ((hp.listed.bits_iff hpage).1 ‹_›), List.Subset.trans hsub hAA'⟩
  · exact List.Subset.trans hsub hAA'

/-- A policy that fetches a page once at most while no more pages are touched than there are frames, at any point of any
run. -/
def Conservative (pol : Policy) : Prop :=
  ∀ (B npages : Nat) [NeZero B] (bs : BackingStore B npages) (nframes : Nat) (store : bs.State)
    (physmem : Nat → Block B) (rands : Nat → Nat) (fuel : Nat) (ops ops' : List Op) (m m' : Machine bs.logged.State B),
    1 ≤ nframes → runOps bs.logged pol fuel (initVirtualMemory bs.logged nframes (store, []) physmem rands) ops = some m →
    runOps bs.logged pol fuel m ops' = some m' → .flush ∉ ops' → (touched B ops').dedup.length ≤ nframes →
    ∃ calls, m'.pt.store.2 = calls ++ m.pt.store.2 ∧ (reads calls).Nodup

theorem conservative_of_order (hpol : pol ≠ .lfu ∧ pol ≠ .rand) : Conservative pol := by
  intro B npages _ bs nframes store physmem rands fuel ops ops' m m' hn hrun hrun' hops hlen
  obtain ⟨hframes, hi, c, ks, h, hp⟩ := between_runOps hn hrun
  obtain rfl := hp.only.resolve_right hpol.2
  obtain ⟨-, A, C, h', calls, -, -, hlog, hnd, -⟩ := runOps_within
    (P := Window bs pol nframes (touched B ops').dedup m.pt.store.2) (fun ⟨_, _, _, _, _, hp, _⟩ => hp.listed.pages)
    (Window.fault hpol hlen)
    (fun b ⟨hn, A, C, h, calls, hp, hrest⟩ hpage hw => ⟨hn, A, C, h, calls, hp.poke hpage hw b, hrest⟩) ops' hops
    (fun p hp => List.mem_dedup.2 hp)
    ⟨hframes, [], ks, h, [], hp, List.nil_subset _, rfl, List.nodup_nil, List.nil_subset _⟩ hrun'
  exact ⟨calls, hlog, hnd⟩

/-- A run with page 1 fetched twice, while pages 1 and 2 are all that is touched, and there are two frames. -/
theorem not_conservative {rands : Nat → Nat} {ops : List Op}
    (h : (runOps (memStore 1 3).logged pol 3
        (initVirtualMemory (memStore 1 3).logged 2 ((fun _ _ => 0), []) (fun _ _ => 0) rands) ops).bind (fun m =>
        (runOps (memStore 1 3).logged pol 3 m [.load 1, .load 2, .load 1]).map (fun m' =>
          (reads m.pt.store.2, reads m'.pt.store.2))) = some ([0], [1, 2, 1, 0])) : ¬ Conservative pol := by
  intro hc
  obtain ⟨m, e, h⟩ := Option.bind_eq_some_iff.1 h
  obtain ⟨m', e', h⟩ := Option.map_eq_some_iff.1 h
  obtain ⟨calls, hcalls, hnd⟩ := hc 1 3 (memStore 1 3) 2 _ _ rands 3 ops _ m m' (by decide) e e' (by simp) (by decide)
  obtain ⟨h₀, h₁⟩ := Prod.mk.inj h
  have happ : reads m'.pt.store.2 = reads calls ++ reads m.pt.store.2 := by
    rw [hcalls]
    exact List.filterMap_append
  rw [h₀, h₁] at happ
  have hreads : reads calls = [1, 2, 1] := List.append_cancel_right (happ.symm : _ = [1, 2, 1] ++ [0])
  rw [hreads] at hnd
  exact absurd hnd (by decide)

/-- **FIFO, LRU and FFIFO are conservative; LFU and RAND are not.**  A page that was written to has been used once more
than two that take turns, and LFU keeps it; RAND may draw the page that is needed next. -/
theorem conservative_iff (pol : Policy) : Conservative pol ↔ pol ≠ .lfu ∧ pol ≠ .rand := by
  refine ⟨fun hc => ⟨?_, ?_⟩, conservative_of_order⟩
  · rintro rfl
    exact @not_conservative .lfu (fun _ => 0) [.store 0 7] (by decide) hc
  · rintro rfl
    exact @not_conservative .rand (fun _ => 1) [.load 0] (by decide) hc

end Window

end Vmem
end Bb
