import BlueBridge.VmemOrder
/-!
# VmemTrace — FIFO, LRU and FFIFO side by side

A traced run keeps a record of every fault: the page, the rights before it, and the table after it.  Two policies agree
on a program when their traces and their tables are the same, FIFO's arrays apart; the store keeps its calls, so these
are then the same as well.

FIFO resets the age of a page on every fault of it, so it evicts the page whose last fault is the oldest, as LRU does
(`fifo_lru_agree`).  FFIFO evicts the page that was loaded first.  The two agree as long as this is the same page
(`agree_iff_sameFault`).
-/
namespace Bb
namespace Vmem

open Cells Recency
open Function (update update_self update_of_ne)

variable {B npages : Nat} {bs : BackingStore B npages}

/-! ## Traced runs -/

structure Fault where
  page : Nat
  before : Nat → Prot
  pageMapping : Nat → Nat
  pageBits : Nat → Prot

/-- The page that lost its frame. -/
def Fault.victim (npages : Nat) (f : Fault) : Option Nat :=
  (List.range npages).find? (fun v => decide (f.before v ≠ .none ∧ f.pageBits v = .none))

/-- The fault read its page from the store. -/
def Fault.loads (f : Fault) : Bool := decide (f.before f.page = .none)

/-- A machine and its faults, the latest first. -/
abbrev Traced (S : Type) (B : Nat) := Machine S B × List Fault

def handleTraced (bs : BackingStore B npages) (pol : Policy) (x : Traced bs.State B) (page : Nat) :
    Option (Traced bs.State B) := do
  let m ← pageFaultHandler bs pol x.1 page
  some (m, ⟨page, x.1.pt.pageBits, m.pt.pageMapping, m.pt.pageBits⟩ :: x.2)

def accessTraced (bs : BackingStore B npages) (pol : Policy) (a : Nat) (write : Bool) :
    Nat → Traced bs.State B → Option (Traced bs.State B)
  | 0,        _ => none
  | fuel + 1, x =>
    if a / B < x.1.pt.npages then
      if (x.1.pt.pageBits (a / B)).allows write then some x
      else do
        let x ← handleTraced bs pol x (a / B)
        accessTraced bs pol a write fuel x
    else none

section Runs

variable [NeZero B]

def execTraced (bs : BackingStore B npages) (pol : Policy) (fuel : Nat) (x : Traced bs.State B) :
    Op → Option (Traced bs.State B)
  | .load a    => accessTraced bs pol a false fuel x
  | .store a v => do
    let x ← accessTraced bs pol a true fuel x
    some (storeByte x.1 a v, x.2)
  | .flush     => do
    let m ← pageTableFlush bs pol x.1
    some (m, x.2)

def runTraced (bs : BackingStore B npages) (pol : Policy) (fuel : Nat) (x : Traced bs.State B) (ops : List Op) :
    Option (Traced bs.State B) := ops.foldlM (execTraced bs pol fuel) x

end Runs

theorem accessTraced_fst {pol : Policy} {a : Nat} {w : Bool} : ∀ (fuel : Nat) (x : Traced bs.State B),
    (accessTraced bs pol a w fuel x).map Prod.fst = access bs pol a w fuel x.1
  | 0,        _ => rfl
  | fuel + 1, x => by
    rw [accessTraced, access]
    split
    · split
      · rfl
      · rw [handleTraced]
        cases pageFaultHandler bs pol x.1 (a / B) with
        | none   => rfl
        | some m => exact accessTraced_fst fuel (m, _)
    · rfl

/-- **A traced run is the run.** -/
theorem runTraced_fst [NeZero B] {pol : Policy} {fuel : Nat} : ∀ (ops : List Op) (x : Traced bs.State B),
    (runTraced bs pol fuel x ops).map Prod.fst = runOps bs pol fuel x.1 ops
  | [],        _ => rfl
  | op :: ops, x => by
    rw [runTraced, List.foldlM_cons, runOps]
    cases op with
    | load a =>
      have h : _ = access bs pol a false fuel x.1 := accessTraced_fst fuel x
      rw [execTraced, execOp]
      cases e : accessTraced bs pol a false fuel x with
      | none   => rw [e] at h; rw [← h]; rfl
      | some y => rw [e] at h; rw [← h]; exact runTraced_fst ops y
    | store a v =>
      have h : _ = access bs pol a true fuel x.1 := accessTraced_fst fuel x
      rw [execTraced, execOp]
      cases e : accessTraced bs pol a true fuel x with
      | none   => rw [e] at h; rw [← h]; rfl
      | some y => rw [e] at h; rw [← h]; exact runTraced_fst ops (storeByte y.1 a v, y.2)
    | flush =>
      rw [execTraced, execOp]
      cases e : pageTableFlush bs pol x.1 with
      | none   => rfl
      | some m => exact runTraced_fst ops (m, x.2)

/-! ## Following another run -/

/-- `P` of every fault and those before it. -/
def AllPast (P : List Fault → Fault → Prop) : List Fault → Prop
  | []        => True
  | f :: past => P past f ∧ AllPast P past

theorem AllPast.suffix {P : List Fault → Fault → Prop} {l : List Fault} : ∀ {l' : List Fault}, l <:+ l' → AllPast P l' →
    AllPast P l
  | [],      hs, h => by rwa [List.suffix_nil.1 hs]
  | f :: l', hs, h => by
    rcases List.suffix_cons_iff.1 hs with rfl | hs
    · exact h
    · exact h.2.suffix hs

theorem AllPast.imp {P Q : List Fault → Fault → Prop} (hpq : ∀ past f, P past f → Q past f) : ∀ {past : List Fault},
    AllPast P past → AllPast Q past
  | [],     _ => trivial
  | _ :: _, h => ⟨hpq _ _ h.1, h.2.imp hpq⟩

theorem handleTraced_suffix {pol : Policy} {x x' : Traced bs.State B} {page : Nat}
    (he : handleTraced bs pol x page = some x') : x.2 <:+ x'.2 := by
  obtain ⟨m, -, he⟩ := Option.bind_eq_some_iff.1 he
  cases he
  exact List.suffix_cons _ _

theorem accessTraced_suffix {pol : Policy} {a : Nat} {w : Bool} : ∀ (fuel : Nat) {x x' : Traced bs.State B},
    accessTraced bs pol a w fuel x = some x' → x.2 <:+ x'.2
  | 0,        _, _,  he => by cases he
  | fuel + 1, x, x', he => by
    rw [accessTraced] at he
    split at he
    · split at he
      · cases he
        exact List.suffix_rfl
      · obtain ⟨x₁, e₁, he⟩ := Option.bind_eq_some_iff.1 he
        exact (handleTraced_suffix e₁).trans (accessTraced_suffix fuel he)
    · cases he

/-- **What makes the runs of `pol` follow those of `pol'`**, as long as `P` holds of the faults of `pol'`. -/
structure Follows [NeZero B] (bs : BackingStore B npages) (pol pol' : Policy) (P : List Fault → Fault → Prop)
    (R : Traced bs.State B → Traced bs.State B → Prop) : Prop where
  pages : ∀ {x y}, R x y → x.1.pt.npages = npages ∧ y.1.pt.npages = npages
  bits : ∀ {x y}, R x y → x.1.pt.pageBits = y.1.pt.pageBits
  fault : ∀ {x y y' page}, R x y → page < npages → y.1.pt.pageBits page ≠ .readWrite →
    handleTraced bs pol' y page = some y' → AllPast P y'.2 → ∃ x', handleTraced bs pol x page = some x' ∧ R x' y'
  store : ∀ {x y a} (v : UInt8), R x y → a / B < npages → y.1.pt.pageBits (a / B) = .readWrite →
    R (storeByte x.1 a v, x.2) (storeByte y.1 a v, y.2)

section Follow

variable [NeZero B] {pol pol' : Policy} {P : List Fault → Fault → Prop} {R : Traced bs.State B → Traced bs.State B → Prop}

theorem Follows.access (hs : Follows bs pol pol' P R) {a : Nat} {w : Bool} : ∀ (fuel : Nat) {x y y' : Traced bs.State B},
    R x y → accessTraced bs pol' a w fuel y = some y' → AllPast P y'.2 →
    ∃ x', accessTraced bs pol a w fuel x = some x' ∧ R x' y' ∧ a / B < npages ∧ (y'.1.pt.pageBits (a / B)).allows w = true
  | 0,        _, _, _,  _,  he, _ => by cases he
  | fuel + 1, x, y, y', hr, he, hp => by
    rw [accessTraced, (hs.pages hr).2] at he
    rw [accessTraced, (hs.pages hr).1, hs.bits hr]
    by_cases hpage : a / B < npages
    · rw [if_pos hpage] at he ⊢
      by_cases hb : (y.1.pt.pageBits (a / B)).allows w = true
      · rw [if_pos hb] at he ⊢
        cases he
        exact ⟨x, rfl, hr, hpage, hb⟩
      · rw [if_neg hb] at he ⊢
        have hrw : y.1.pt.pageBits (a / B) ≠ .readWrite := fun h => hb (by rw [h]; rfl)
        obtain ⟨y₁, e₁, he⟩ := Option.bind_eq_some_iff.1 he
        obtain ⟨x₁, ex₁, hr₁⟩ := hs.fault hr hpage hrw e₁ (hp.suffix (accessTraced_suffix fuel he))
        rw [ex₁]
        exact hs.access fuel hr₁ he hp
    · rw [if_neg hpage] at he
      cases he

theorem execTraced_suffix {fuel : Nat} {op : Op} {x x' : Traced bs.State B}
    (he : execTraced bs pol fuel x op = some x') : x.2 <:+ x'.2 := by
  cases op with
  | load a => exact accessTraced_suffix fuel he
  | store a v =>
    obtain ⟨x₁, e₁, he⟩ := Option.bind_eq_some_iff.1 he
    cases he
    show x.2 <:+ x₁.2
    exact accessTraced_suffix fuel e₁
  | flush =>
    obtain ⟨m, -, he⟩ := Option.bind_eq_some_iff.1 he
    cases he
    exact List.suffix_rfl

theorem runTraced_suffix {fuel : Nat} : ∀ (ops : List Op) {x x' : Traced bs.State B},
    runTraced bs pol fuel x ops = some x' → x.2 <:+ x'.2
  | [],        _, _, he => by cases he; exact List.suffix_rfl
  | op :: ops, x, x', he => by
    rw [runTraced, List.foldlM_cons] at he
    obtain ⟨x₁, e₁, he⟩ := Option.bind_eq_some_iff.1 he
    exact (execTraced_suffix e₁).trans (runTraced_suffix ops he)

/-- **The run of `pol` follows the run of `pol'`.** -/
theorem Follows.run (hs : Follows bs pol pol' P R) {fuel : Nat} : ∀ (ops : List Op) {x y y' : Traced bs.State B},
    .flush ∉ ops → R x y → runTraced bs pol' fuel y ops = some y' → AllPast P y'.2 →
    ∃ x', runTraced bs pol fuel x ops = some x' ∧ R x' y'
  | [],        x, _, _,  _,    hr, he, _ => by
    cases he
    exact ⟨x, rfl, hr⟩
  | op :: ops, x, y, y', hops, hr, he, hp => by
    rw [List.mem_cons, not_or] at hops
    rw [runTraced, List.foldlM_cons] at he
    obtain ⟨y₁, e₁, he⟩ := Option.bind_eq_some_iff.1 he
    have hp₁ : AllPast P y₁.2 := hp.suffix (runTraced_suffix ops he)
    obtain ⟨x₁, ex₁, hr₁⟩ : ∃ x₁, execTraced bs pol fuel x op = some x₁ ∧ R x₁ y₁ := by
      cases op with
      | flush => exact absurd rfl hops.1
      | load a =>
        obtain ⟨x₁, ex₁, hr₁, -⟩ := hs.access fuel hr e₁ hp₁
        exact ⟨x₁, ex₁, hr₁⟩
      | store a v =>
        obtain ⟨y₂, e₂, e₁⟩ := Option.bind_eq_some_iff.1 e₁
        cases e₁
        obtain ⟨x₂, ex₂, hr₂, hpage, hb⟩ := hs.access fuel hr e₂ hp₁
        exact ⟨_, by rw [execTraced, ex₂]; rfl, hs.store v hr₂ hpage (allows_write hb)⟩
    obtain ⟨x', ex', hr'⟩ := hs.run ops hops.2 hr₁ he hp
    refine ⟨x', ?_, hr'⟩
    rw [runTraced, List.foldlM_cons, ex₁]
    exact ex'

end Follow

/-! ## What is the same -/

/-- The table without FIFO's arrays. -/
def PageTable.plain {S : Type} (pt : PageTable S B) : PageTable S B :=
  { pt with frameState := fun _ => 0, framePage := fun _ => 0 }

/-- The same faults, and the same table but for FIFO's arrays. -/
structure Agree {S : Type} (x y : Traced S B) : Prop where
  trace : x.2 = y.2
  table : x.1.pt.plain = y.1.pt.plain

/-- The two threads have the same frames. -/
structure Beside {S : Type} (x y : Traced S B) : Prop extends Agree x y where
  start : x.1.th.startFrame = y.1.th.startFrame

theorem plain_eq_iff {S : Type} {pt pt' : PageTable S B} : pt.plain = pt'.plain ↔
    pt.npages = pt'.npages ∧ pt.nframes = pt'.nframes ∧ pt.pageMapping = pt'.pageMapping ∧ pt.pageBits = pt'.pageBits ∧
      pt.physmem = pt'.physmem ∧ pt.store = pt'.store := by
  cases pt
  cases pt'
  simp [PageTable.plain]

section Beside

variable {S : Type} {x y : Traced S B}

theorem Agree.bits (h : Agree x y) : x.1.pt.pageBits = y.1.pt.pageBits := (plain_eq_iff.1 h.table).2.2.2.1

theorem Agree.nframes (h : Agree x y) : x.1.pt.nframes = y.1.pt.nframes := (plain_eq_iff.1 h.table).2.1

theorem Agree.resident (h : Agree x y) (p : Nat) : Resident x.1.pt p ↔ Resident y.1.pt p := by
  rw [Resident, Resident, h.bits, (plain_eq_iff.1 h.table).1]

theorem Beside.store [NeZero B] (h : Beside x y) (a : Nat) (v : UInt8) :
    Beside (storeByte x.1 a v, x.2) (storeByte y.1 a v, y.2) := by
  obtain ⟨h1, h2, h3, h4, h5, h6⟩ := plain_eq_iff.1 h.table
  refine ⟨⟨h.trace, plain_eq_iff.2 ⟨h1, h2, h3, h4, ?_, h6⟩⟩, h.start⟩
  simp only [storeByte, h3, h5]

end Beside

theorem Faulted.plain {m m' : Machine bs.State B} {c page : Nat} {ks ks' : List Nat} {mv : Move}
    (hf : Faulted bs m m' c page ks ks' mv) : m'.pt.plain = m.pt.plain.make bs page mv := by
  rw [hf.table]
  exact (make_arrays m.pt page mv _ _).symm

/-- **The same move leaves the same table.** -/
theorem Beside.handled {x y : Traced bs.State B} {m m' : Machine bs.State B} {c c' page : Nat} {ks ks' ls ls' : List Nat}
    {mv : Move} (h : Beside x y) (hf : Faulted bs x.1 m c page ks ks' mv) (hf' : Faulted bs y.1 m' c' page ls ls' mv) :
    Beside (m, ⟨page, x.1.pt.pageBits, m.pt.pageMapping, m.pt.pageBits⟩ :: x.2)
      (m', ⟨page, y.1.pt.pageBits, m'.pt.pageMapping, m'.pt.pageBits⟩ :: y.2) := by
  have htable : m.pt.plain = m'.pt.plain := by
    rw [hf.plain, hf'.plain, h.table]
  obtain ⟨-, -, h3, h4, -⟩ := plain_eq_iff.1 htable
  refine ⟨⟨?_, htable⟩, hf.start.trans (h.start.trans hf'.start.symm)⟩
  rw [h.trace, h.bits, h3, h4]

/-! ## Victims -/

theorem move_of_victim {m m' : Machine bs.State B} {c page v : Nat} {ks ks' : List Nat} {mv : Move}
    (hf : Faulted bs m m' c page ks ks' mv)
    (hv : Fault.victim npages ⟨page, m.pt.pageBits, m'.pt.pageMapping, m'.pt.pageBits⟩ = some v) : mv = .replace v := by
  have hmem := List.find?_some hv
  rw [decide_eq_true_eq] at hmem
  exact hf.evicted hmem.1 hmem.2

/-- What a fault makes of its victim. -/
theorem victim_of_replace {m m' : Machine bs.State B} {c page v : Nat} {ks ks' : List Nat}
    (hf : Faulted bs m m' c page ks ks' (.replace v)) (hv : v < npages) (hb : m.pt.pageBits v ≠ .none) :
    Fault.victim npages ⟨page, m.pt.pageBits, m'.pt.pageMapping, m'.pt.pageBits⟩ = some v := by
  have hturn := hf.turn
  have hne : v ≠ page := by
    rintro rfl
    cases hturn with
    | replace hk _ hks => exact hk (by rw [hks]; simp)
  have hnone : m'.pt.pageBits v = .none := by
    rw [hf.table]
    refine (update_of_ne hne _ _).trans ?_
    rw [dropPage_bits, update_self]
  cases hfind : Fault.victim npages ⟨page, m.pt.pageBits, m'.pt.pageMapping, m'.pt.pageBits⟩ with
  | none =>
    have := List.find?_eq_none.1 hfind v (List.mem_range.2 hv)
    simp [hb, hnone] at this
  | some w => rw [Move.replace.inj (move_of_victim hf hfind)]

/-- The victim has the oldest last event of all pages with rights. -/
def Fault.Oldest (npages : Nat) (h : List Nat) (f : Fault) : Prop :=
  ∀ v, f.victim npages = some v → ∀ q, q < npages → f.before q ≠ .none → q ≠ v → stamp h v < stamp h q

def OldestFault (npages : Nat) (past : List Fault) (f : Fault) : Prop := f.Oldest npages (past.map Fault.page)

def loadsOf (past : List Fault) : List Nat := (past.filter Fault.loads).map Fault.page

def FirstLoaded (npages : Nat) (past : List Fault) (f : Fault) : Prop := f.Oldest npages (loadsOf past)

/-- No age is at the end of an `int`. -/
def AgesLeft (npages : Nat) (past : List Fault) (f : Fault) : Prop :=
  ∀ q, q < npages → f.before q ≠ .none → (age (past.map Fault.page) q : Int) ≠ intMax

/-- What FIFO needs at a fault to do as FFIFO. -/
def SameFault (npages : Nat) (past : List Fault) (f : Fault) : Prop := OldestFault npages past f ∧ AgesLeft npages past f

theorem oldest_of_last {m m' : Machine bs.State B} {s e c c' page : Nat} {ks ks' h : List Nat} {mv : Move}
    (hl : Listed bs m.pt s e ks c') (hf : Faulted bs m m' c page ks ks' mv) (hlast : LastOut ks mv) (hr : Recent h ks) :
    Fault.Oldest npages h ⟨page, m.pt.pageBits, m'.pt.pageMapping, m'.pt.pageBits⟩ := by
  intro v hv q hq hqb hqv
  obtain ⟨A, rfl⟩ := hlast v (move_of_victim hf hv)
  have hqk : q ∈ A ++ [v] := (hl.res q).1 ⟨hl.pages.symm ▸ hq, hqb⟩
  exact hr.last_lt q ((List.mem_append.1 hqk).resolve_right (fun h => hqv (List.mem_singleton.1 h)))

/-- Two turns of the same keys are the same move if they take the same victim. -/
theorem Turn.move_eq {s n page : Nat} {ks ls ks' ls' : List Nat} {mv mv' : Move} (ht : Turn s n 0 ks page mv ks')
    (ht' : Turn s n 0 ls page mv' ls') (hperm : ks.Perm ls)
    (hv : ∀ v v', mv = .replace v → mv' = .replace v' → v = v') : mv = mv' := by
  have hlen := hperm.length_eq
  cases ht with
  | fill hk hlt =>
    cases ht' with
    | fill => rw [hlen]
    | replace _ hge => omega
    | grant hk' => exact absurd (hperm.mem_iff.2 hk') hk
  | replace hk hge =>
    cases ht' with
    | fill _ hlt => omega
    | replace => rw [hv _ _ rfl rfl]
    | grant hk' => exact absurd (hperm.mem_iff.2 hk') hk
  | grant hk =>
    cases ht' with
    | fill hk' => exact absurd (hperm.mem_iff.1 hk) hk'
    | replace hk' => exact absurd (hperm.mem_iff.1 hk) hk'
    | grant => rfl

/-! ## FIFO's own trace -/

section Fifo

/-- Between two faults of FIFO. -/
def FifoTraced (bs : BackingStore B npages) (x : Traced bs.State B) : Prop :=
  (∃ ks, Paged bs .fifo 0 x.1 ks (x.2.map Fault.page)) ∧
    AllPast (SameFault npages) x.2

theorem FifoTraced.fault {x x' : Traced bs.State B} {page : Nat} (hx : FifoTraced bs x) (hpage : page < npages)
    (hb : x.1.pt.pageBits page ≠ .readWrite) (he : handleTraced bs .fifo x page = some x') : FifoTraced bs x' := by
  obtain ⟨⟨ks, hp⟩, hall⟩ := hx
  obtain ⟨m, e, he⟩ := Option.bind_eq_some_iff.1 he
  cases he
  obtain ⟨ks', mv, hp', hf, hord⟩ := hp.fault_some hpage (fun _ => hb) e
  refine ⟨⟨ks', hp'⟩, ⟨oldest_of_last hp.listed hf hord.2 hp.keyed.recent, fun q hq hqb hmax => ?_⟩, hall⟩
  have hqk : q ∈ ks := (hp.listed.res q).1 ⟨hp.listed.pages.symm ▸ hq, hqb⟩
  cases (fifoPageFaultHandler_overflow hp.keyed (hp.listed.held_zero hpage) hqk hmax).symm.trans e

theorem fifoTraced_follows [NeZero B] :
    Follows bs .fifo .fifo (fun _ _ => True) (fun x y => x = y ∧ FifoTraced bs y) where
  pages := by
    rintro x _ ⟨rfl, ⟨ks, hp⟩, -⟩
    exact ⟨hp.listed.pages, hp.listed.pages⟩
  bits := by
    rintro x _ ⟨rfl, -⟩
    rfl
  fault := by
    rintro x _ y' page ⟨rfl, hx⟩ hpage hb he -
    exact ⟨y', he, rfl, hx.fault hpage hb he⟩
  store := by
    rintro x _ a v ⟨rfl, ⟨ks, hp⟩, hall⟩ hpage hb
    exact ⟨rfl, ⟨ks, hp.poke hpage hb _⟩, hall⟩

end Fifo

theorem allPast_true : ∀ (past : List Fault), AllPast (fun _ _ => True) past
  | []        => trivial
  | _ :: past => ⟨trivial, allPast_true past⟩

theorem FifoTraced.run [NeZero B] {fuel : Nat} {ops : List Op} {x x' : Traced bs.State B} (hx : FifoTraced bs x)
    (hops : .flush ∉ ops) (he : runTraced bs .fifo fuel x ops = some x') : FifoTraced bs x' := by
  obtain ⟨_, -, -, hx'⟩ := fifoTraced_follows.run ops hops ⟨rfl, hx⟩ he (allPast_true _)
  exact hx'

theorem fifoTraced_init {nframes : Nat} (hn : 1 ≤ nframes) (store : bs.State) (physmem : Nat → Block B)
    (rands : Nat → Nat) : FifoTraced bs (initVirtualMemory bs nframes store physmem rands, []) :=
  ⟨⟨[], paged_initVirtualMemory .fifo hn store physmem rands⟩, trivial⟩

/-! ## FIFO and LRU -/

/-- FIFO beside LRU: the same keys in the same order. -/
def SameKeys (bs : BackingStore B npages) (x y : Traced bs.State B) : Prop :=
  Beside x y ∧ ∃ ks, Ready bs .fifo x.1 ks (x.2.map Fault.page) ∧ Ready bs .lru y.1 ks (x.2.map Fault.page)

theorem SameKeys.fault {x y : Traced bs.State B} {page : Nat} (h : SameKeys bs x y) (hpage : page < npages)
    (hb : y.1.pt.pageBits page ≠ .readWrite) :
    ∃ x' y', handleTraced bs .fifo x page = some x' ∧ handleTraced bs .lru y page = some y' ∧ SameKeys bs x' y' := by
  obtain ⟨hs, ks, hx, hy⟩ := h
  obtain ⟨m, ks₁, mv, e, hx', hf, rfl, hlast⟩ := hx.fault hpage (fun _ => by rw [hs.bits]; exact hb)
  obtain ⟨m', ks₂, mv', e', hy', hf', rfl, hlast'⟩ := hy.fault hpage (fun _ => hb)
  have hturn := hf.turn
  rw [hs.start, hs.nframes] at hturn
  obtain rfl := hturn.move_eq hf'.turn (.refl _) (fun v v' hv hv' => by
    obtain ⟨A, rfl⟩ := hlast v hv
    obtain ⟨A', hA⟩ := hlast' v' hv'
    exact List.singleton_injective (List.append_inj' hA rfl).2)
  refine ⟨_, _, by rw [handleTraced, e]; rfl, by rw [handleTraced, e']; rfl, hs.handled hf hf', _, hx', ?_⟩
  rw [hs.nframes]
  exact hy'

/-! ## FFIFO's own trace -/

/-- Between two faults of FFIFO. -/
def FfifoTraced (bs : BackingStore B npages) (y : Traced bs.State B) : Prop :=
  (∃ ls, Paged bs .ffifo 0 y.1 ls [] ∧ Recent (loadsOf y.2) ls) ∧ AllPast (FirstLoaded npages) y.2

theorem FfifoTraced.fault {y y' : Traced bs.State B} {page : Nat} (hy : FfifoTraced bs y) (hpage : page < npages)
    (he : handleTraced bs .ffifo y page = some y') : FfifoTraced bs y' := by
  obtain ⟨⟨ls, hp, hr⟩, hall⟩ := hy
  obtain ⟨m, e, he⟩ := Option.bind_eq_some_iff.1 he
  cases he
  obtain ⟨ls', mv, hp', hf, rfl, hlast⟩ := hp.fault_some hpage (fun h => by cases h) e
  refine ⟨⟨_, hp'.forget (Or.inr rfl), ?_⟩, oldest_of_last hp.listed hf hlast hr, hall⟩
  unfold loadsOf ffifoKeys
  by_cases hk : page ∈ ls
  · have hb : y.1.pt.pageBits page ≠ .none := fun hb => (hp.listed.bits_iff hpage).1 hb hk
    rw [if_pos hk, List.filter_cons_of_neg (by simp [Fault.loads, hb])]
    exact hr
  · have hb : y.1.pt.pageBits page = .none := (hp.listed.bits_iff hpage).2 hk
    rw [if_neg hk, List.filter_cons_of_pos (by simp [Fault.loads, hb])]
    exact recent_loadKey hr hk

/-! ## FIFO and FFIFO -/

/-- FIFO beside FFIFO: the same pages, in whatever orders. -/
def SamePages (bs : BackingStore B npages) (x y : Traced bs.State B) : Prop :=
  Beside x y ∧ FifoTraced bs x ∧ FfifoTraced bs y

/-- A victim that is both the first loaded and the least recently faulted page is both policies' victim. -/
theorem SamePages.fault {x y y' : Traced bs.State B} {page : Nat} (h : SamePages bs x y) (hpage : page < npages)
    (hb : y.1.pt.pageBits page ≠ .readWrite) (he : handleTraced bs .ffifo y page = some y')
    (hall : AllPast (SameFault npages) y'.2) :
    ∃ x', handleTraced bs .fifo x page = some x' ∧ SamePages bs x' y' := by
  obtain ⟨hs, hx, hy⟩ := h
  obtain ⟨⟨ks, hp⟩, -⟩ := id hx
  obtain ⟨⟨ls, hq, -⟩, -⟩ := id hy
  have hy' := hy.fault hpage he
  obtain ⟨m', e', he⟩ := Option.bind_eq_some_iff.1 he
  cases he
  obtain ⟨⟨hold, hages⟩, -⟩ := hall
  have hbx : x.1.pt.pageBits page ≠ .readWrite := by rw [hs.bits]; exact hb
  have hmem : ∀ p, p ∈ ks ↔ p ∈ ls := fun p =>
    (hp.listed.res p).symm.trans ((hs.resident p).trans (hq.listed.res p))
  have hperm : ks.Perm ls := (List.perm_ext_iff_of_nodup hp.listed.nodup hq.listed.nodup).2 hmem
  have hres : ∀ p ∈ ks, p < npages ∧ y.1.pt.pageBits p ≠ .none := fun p hpk =>
    ⟨hp.listed.lt_npages hpk, ((hs.resident p).1 ((hp.listed.res p).2 hpk)).2⟩
  obtain ⟨m, ks', mv, e, -, hf, -, hlast⟩ := hp.fault hpage (fun _ => hbx) (Or.inl rfl) (fun _ p hpk => by
    rw [hs.trace]
    exact hages p (hres p hpk).1 (hres p hpk).2)
  obtain ⟨ls', mv', -, hf', -⟩ := hq.fault_some hpage (fun h => by cases h) e'
  have hturn := hf.turn
  rw [hs.start, hs.nframes] at hturn
  obtain rfl := hturn.move_eq hf'.turn hperm (fun v v' hv hv' => by
    subst hv hv'
    obtain ⟨A, rfl⟩ := hlast v rfl
    have hv : v ∈ A ++ [v] := List.mem_append_right _ List.mem_cons_self
    have hv' : v' ∈ A ++ [v] := (hmem v').2 (hf'.turn.victim_mem)
    have hvic := victim_of_replace hf' (hres v' hv').1 (hres v' hv').2
    have hr := hp.keyed.recent
    rw [hs.trace] at hr
    by_contra hne
    have hlt := hold v' hvic v (hres v hv).1 (hres v hv).2 hne
    have hgt := hr.last_lt v' ((List.mem_append.1 hv').resolve_right (fun h => hne (List.mem_singleton.1 h).symm))
    omega)
  have hx' : handleTraced bs .fifo x page =
      some (m, ⟨page, x.1.pt.pageBits, m.pt.pageMapping, m.pt.pageBits⟩ :: x.2) := by
    rw [handleTraced, e]
    rfl
  exact ⟨_, hx', hs.handled hf hf', hx.fault hpage hbx hx', hy'⟩

section Results

variable [NeZero B]

theorem SameKeys.store {x y : Traced bs.State B} {a : Nat} (h : SameKeys bs x y) (v : UInt8) (hpage : a / B < npages)
    (hb : y.1.pt.pageBits (a / B) = .readWrite) : SameKeys bs (storeByte x.1 a v, x.2) (storeByte y.1 a v, y.2) := by
  obtain ⟨hs, ks, hx, hy⟩ := h
  have hbx : x.1.pt.pageBits (a / B) = .readWrite := by rw [hs.bits]; exact hb
  exact ⟨hs.store a v, ks, ⟨hx.toPaged.poke hpage hbx _, hx.fit⟩, hy.toPaged.poke hpage hb _, hy.fit⟩

theorem fifo_follows_lru : Follows bs .fifo .lru (fun _ _ => True) (SameKeys bs) where
  pages := fun ⟨_, _, hx, hy⟩ => ⟨hx.listed.pages, hy.listed.pages⟩
  bits := fun h => h.1.bits
  fault := fun h hpage hb he _ => by
    obtain ⟨x', y', ex, ey, h'⟩ := h.fault hpage hb
    cases ey.symm.trans he
    exact ⟨x', ex, h'⟩
  store := fun v h hpage hb => h.store v hpage hb

theorem lru_follows_fifo : Follows bs .lru .fifo (fun _ _ => True) (fun y x => SameKeys bs x y) where
  pages := fun ⟨_, _, hx, hy⟩ => ⟨hy.listed.pages, hx.listed.pages⟩
  bits := fun h => h.1.bits.symm
  fault := fun h hpage hb he _ => by
    obtain ⟨x', y', ex, ey, h'⟩ := h.fault hpage (by rw [← h.1.bits]; exact hb)
    cases ex.symm.trans he
    exact ⟨y', ey, h'⟩
  store := fun v h hpage hb => h.store v hpage (by rw [← h.1.bits]; exact hb)

/-- What there is to compare of a run. -/
def view {S : Type} (x : Traced S B) : List Fault × PageTable S B := (x.2, x.1.pt.plain)

/-- **FIFO and LRU are the same policy**: over equal stores they have the same faults and victims, the same table after
every fault and the same calls, and they evict the page whose last fault is the oldest. -/
theorem fifo_lru_agree {nframes : Nat} (hn : 1 ≤ nframes) (hfit : 2 * nframes < 2 ^ 31) (store : bs.State)
    (physmem : Nat → Block B) (rands : Nat → Nat) (fuel : Nat) (ops : List Op) (hops : .flush ∉ ops) :
    (runTraced bs.logged .fifo fuel (initVirtualMemory bs.logged nframes (store, []) physmem rands, []) ops).map view =
      (runTraced bs.logged .lru fuel (initVirtualMemory bs.logged nframes (store, []) physmem rands, []) ops).map view ∧
    ∀ x, runTraced bs.logged .fifo fuel (initVirtualMemory bs.logged nframes (store, []) physmem rands, []) ops = some x →
      AllPast (OldestFault npages) x.2 := by
  have hready : ∀ pol, Ready bs.logged pol (initVirtualMemory bs.logged nframes (store, []) physmem rands) [] [] :=
    fun pol => ready_initVirtualMemory hn (agesFit_of_lt pol npages hfit) _ physmem rands
  have hsame : SameKeys bs.logged (initVirtualMemory bs.logged nframes (store, []) physmem rands, [])
      (initVirtualMemory bs.logged nframes (store, []) physmem rands, []) :=
    ⟨⟨⟨rfl, rfl⟩, rfl⟩, [], hready .fifo, hready .lru⟩
  refine ⟨?_, fun x e => ?_⟩
  · cases ex : runTraced bs.logged .fifo fuel (initVirtualMemory bs.logged nframes (store, []) physmem rands, []) ops with
    | some x =>
      obtain ⟨y, ey, hxy⟩ := lru_follows_fifo.run ops hops hsame ex (allPast_true _)
      rw [ey]
      exact congrArg some (Prod.ext hxy.1.trace hxy.1.table)
    | none =>
      cases ey : runTraced bs.logged .lru fuel (initVirtualMemory bs.logged nframes (store, []) physmem rands, []) ops with
      | none => rfl
      | some y =>
        obtain ⟨x, ex', -⟩ := fifo_follows_lru.run ops hops hsame ey (allPast_true _)
        cases ex.symm.trans ex'
  · have hinit := @fifoTraced_init B npages bs.logged nframes hn (store, []) physmem rands
    exact AllPast.imp (fun _ _ h => h.1) (hinit.run hops e).2

/-- Two frames: a load, an upgrade and an eviction. -/
theorem fifo_lru_agree_two : ∃ x y,
    runTraced (memStore 1 3).logged .fifo 3
      (initVirtualMemory (memStore 1 3).logged 2 ((fun _ _ => 0), []) (fun _ _ => 0) (fun _ => 0), [])
      [.load 0, .load 1, .store 0 7, .load 2] = some x ∧
    runTraced (memStore 1 3).logged .lru 3
      (initVirtualMemory (memStore 1 3).logged 2 ((fun _ _ => 0), []) (fun _ _ => 0) (fun _ => 0), [])
      [.load 0, .load 1, .store 0 7, .load 2] = some y ∧ view x = view y ∧ AllPast (OldestFault 3) x.2 := by
  have h := @fifo_lru_agree 1 3 (memStore 1 3) _ 2 (by decide) (by decide) (fun _ _ => 0) (fun _ _ => 0) (fun _ => 0) 3
    [.load 0, .load 1, .store 0 7, .load 2] (by simp)
  have hrun : (runTraced (memStore 1 3).logged .fifo 3
      (initVirtualMemory (memStore 1 3).logged 2 ((fun _ _ => 0), []) (fun _ _ => 0) (fun _ => 0), [])
      [.load 0, .load 1, .store 0 7, .load 2]).isSome = true := by decide
  obtain ⟨x, ex⟩ := Option.isSome_iff_exists.1 hrun
  obtain ⟨hview, hold⟩ := h
  rw [ex, Option.map_some] at hview
  obtain ⟨y, ey, hxy⟩ := Option.map_eq_some_iff.1 hview.symm
  exact ⟨x, y, ex, ey, hxy.symm, hold x ex⟩

theorem fifo_follows_ffifo :
    Follows bs .fifo .ffifo (SameFault npages) (SamePages bs) where
  pages := fun ⟨_, ⟨⟨_, hx⟩, _⟩, ⟨_, hy, _⟩, _⟩ => ⟨hx.listed.pages, hy.listed.pages⟩
  bits := fun h => h.1.bits
  fault := fun h hpage hb he hall => h.fault hpage hb he hall
  store := by
    rintro x y a v ⟨hs, ⟨⟨ks, hx⟩, hallx⟩, ⟨ls, hy, hr⟩, hally⟩ hpage hb
    have hbx : x.1.pt.pageBits (a / B) = .readWrite := by rw [hs.bits]; exact hb
    exact ⟨hs.store a v, ⟨⟨ks, hx.poke hpage hbx _⟩, hallx⟩, ⟨ls, hy.poke hpage hb _, hr⟩, hally⟩

/-- FFIFO gets through every program of accesses in range. -/
theorem runTraced_ffifo {nframes : Nat} (hn : 1 ≤ nframes) (store : bs.State) (physmem : Nat → Block B)
    (rands : Nat → Nat) {ops : List Op} (hops : .flush ∉ ops) (hin : ∀ p ∈ touched B ops, p < npages) :
    ∃ y, runTraced bs .ffifo 3 (initVirtualMemory bs nframes store physmem rands, []) ops = some y := by
  have hready : Ready bs .ffifo (initVirtualMemory bs nframes store physmem rands) [] [] :=
    ready_initVirtualMemory hn (fun h => by cases h) store physmem rands
  obtain ⟨m, e⟩ := hready.runOps ops hops hin
  obtain ⟨y, ey, -⟩ := Option.map_eq_some_iff.1
    ((runTraced_fst ops (initVirtualMemory bs nframes store physmem rands, [])).trans e)
  exact ⟨y, ey⟩

/-- **FIFO agrees with FFIFO**, whose victims are the pages loaded first, exactly if each of these victims is the least
recently faulted page as well and no age overflows. -/
theorem agree_iff_sameFault {nframes : Nat} (hn : 1 ≤ nframes) (store : bs.State) (physmem : Nat → Block B)
    (rands : Nat → Nat) (ops : List Op) (hops : .flush ∉ ops) (hin : ∀ p ∈ touched B ops, p < npages) :
    ∃ y, runTraced bs.logged .ffifo 3 (initVirtualMemory bs.logged nframes (store, []) physmem rands, []) ops = some y ∧
    ((∃ x, runTraced bs.logged .fifo 3 (initVirtualMemory bs.logged nframes (store, []) physmem rands, []) ops = some x ∧
      view x = view y ∧ AllPast (FirstLoaded npages) x.2) ↔
    AllPast (SameFault npages) y.2) := by
  have hfifo : FifoTraced bs.logged (initVirtualMemory bs.logged nframes (store, []) physmem rands, []) :=
    @fifoTraced_init B npages bs.logged nframes hn (store, []) physmem rands
  have hffifo : FfifoTraced bs.logged (initVirtualMemory bs.logged nframes (store, []) physmem rands, []) :=
    ⟨⟨[], paged_initVirtualMemory .ffifo hn _ physmem rands, Recent.nil _⟩, trivial⟩
  obtain ⟨y, ey⟩ := @runTraced_ffifo B npages bs.logged _ nframes hn (store, []) physmem rands ops hops hin
  refine ⟨y, ey, ?_, fun hall => ?_⟩
  · rintro ⟨x, e, hview, -⟩
    have htrace : x.2 = y.2 := congrArg Prod.fst hview
    rw [← htrace]
    exact (hfifo.run hops e).2
  · obtain ⟨x, e, hs, -, hy⟩ := fifo_follows_ffifo.run ops hops ⟨⟨⟨rfl, rfl⟩, rfl⟩, hfifo, hffifo⟩ ey hall
    refine ⟨x, e, Prod.ext hs.trace hs.table, ?_⟩
    rw [hs.trace]
    exact hy.2

end Results

end Vmem
end Bb
