import BlueBridge.VmemTrace
/-!
# VmemStays — the programs on which FIFO and FFIFO agree

A page that comes into a frame faults, and faults once more at the first store to it.  So which pages a program has in
frames under first in, first out, when each was loaded and when it was first stored to can be told from its loads and
stores alone (`Queue`), with the faults for a clock.

FIFO resets the age of a page at its first store, FFIFO leaves the page where it is.  So they agree exactly if, whenever a
page has to go, the one loaded first has not been stored to since, or every other one was loaded or first stored to after
that store (`Queue.OldestFirst`); and no page waits for so many faults that its age comes to the end of an `int`.
-/
namespace Bb
namespace Vmem

open Cells Recency
open Function (update update_self update_of_ne)

variable {B npages : Nat} {bs : BackingStore B npages}

/-! ## What a program keeps in its frames -/

/-- A page in a frame, the fault that loaded it, and the one of the first store to it since. -/
structure Stay where
  page : Nat
  loaded : Nat
  stored : Option Nat
  deriving Repr, DecidableEq

def Stay.last (s : Stay) : Nat := s.stored.getD s.loaded

/-- The pages in frames, the one loaded last in front, and the number of faults so far. -/
structure Queue where
  stays : List Stay
  clock : Nat
  deriving Repr, DecidableEq

namespace Queue

def pages (q : Queue) : List Nat := q.stays.map Stay.page

/-- The page is in a frame, and no store has been to it. -/
def Clean (q : Queue) (page : Nat) : Prop := ∃ s ∈ q.stays, s.page = page ∧ s.stored = none

instance (q : Queue) (page : Nat) : Decidable (q.Clean page) := inferInstanceAs (Decidable (∃ s ∈ q.stays, _))

def load (n : Nat) (q : Queue) (page : Nat) : Queue :=
  ⟨⟨page, q.clock, none⟩ :: if q.stays.length < n then q.stays else q.stays.dropLast, q.clock + 1⟩

def store (q : Queue) (page : Nat) : Queue :=
  ⟨q.stays.map (fun s => if s.page = page then { s with stored := some q.clock } else s), q.clock + 1⟩

/-- A page is there before it is read. -/
def read (n : Nat) (q : Queue) (page : Nat) : Queue := if page ∈ q.pages then q else q.load n page

def write (q : Queue) (page : Nat) : Queue := if q.Clean page then q.store page else q

def exec (B n : Nat) (q : Queue) : Op → Queue
  | .load a    => q.read n (a / B)
  | .store a _ => (q.read n (a / B)).write (a / B)
  | .flush     => q

/-- The page loaded first has not been stored to, or all others were loaded or first stored to after that store. -/
def OldestFirst (q : Queue) : Prop :=
  ∀ v ∈ q.stays.getLast?, ∀ t ∈ v.stored, ∀ s ∈ q.stays.dropLast, t < s.loaded ∨ ∃ u ∈ s.stored, t < u

/-- No page has waited for `INT_MAX` faults. -/
def InTime (q : Queue) : Prop := ∀ s ∈ q.stays, q.clock - s.last ≠ 2 ^ 31 - 1

def ReadsAlike (n : Nat) (q : Queue) (page : Nat) : Prop :=
  page ∉ q.pages → q.InTime ∧ (n ≤ q.stays.length → q.OldestFirst)

def WritesAlike (q : Queue) (page : Nat) : Prop := q.Clean page → q.InTime

/-- The access does the same under FIFO and FFIFO. -/
def Alike (B n : Nat) (q : Queue) : Op → Prop
  | .load a    => q.ReadsAlike n (a / B)
  | .store a _ => q.ReadsAlike n (a / B) ∧ (q.read n (a / B)).WritesAlike (a / B)
  | .flush     => True

/-- So does every access of the program. -/
def AllAlike (B n : Nat) : Queue → List Op → Prop
  | _, []        => True
  | q, op :: ops => q.Alike B n op ∧ AllAlike B n (q.exec B n op) ops

section Decide

variable (q : Queue) (B n page : Nat)

instance : Decidable q.OldestFirst := by unfold OldestFirst; infer_instance

instance : Decidable q.InTime := by unfold InTime; infer_instance

instance : Decidable (q.ReadsAlike n page) := by unfold ReadsAlike; infer_instance

instance : Decidable (q.WritesAlike page) := by unfold WritesAlike; infer_instance

instance : (op : Op) → Decidable (q.Alike B n op)
  | .load _    => by unfold Alike; infer_instance
  | .store _ _ => by unfold Alike; infer_instance
  | .flush     => .isTrue trivial

end Decide

instance decidableAllAlike (B n : Nat) : (q : Queue) → (ops : List Op) → Decidable (AllAlike B n q ops)
  | _, []        => .isTrue trivial
  | q, op :: ops => by
    have := decidableAllAlike B n (q.exec B n op) ops
    unfold AllAlike
    infer_instance

/-! ## The times -/

/-- The stays are in the order of their loads, and a first store comes after the load. -/
structure Timed (q : Queue) : Prop where
  order : q.stays.Pairwise (fun a b => b.loaded < a.loaded)
  past : ∀ s ∈ q.stays, s.loaded < q.clock
  after : ∀ s ∈ q.stays, ∀ t ∈ s.stored, s.loaded < t

theorem load_sublist (n : Nat) (q : Queue) :
    (if q.stays.length < n then q.stays else q.stays.dropLast).Sublist q.stays := by
  split
  · exact List.Sublist.refl _
  · exact List.dropLast_sublist _

theorem Timed.load {q : Queue} (h : q.Timed) (n page : Nat) : (q.load n page).Timed where
  order := List.pairwise_cons.2 ⟨fun s hs => h.past s ((load_sublist n q).subset hs), h.order.sublist (load_sublist n q)⟩
  past := by
    intro s hs
    rcases List.mem_cons.1 hs with rfl | hs
    · exact Nat.lt_succ_self _
    · exact Nat.lt_succ_of_lt (h.past s ((load_sublist n q).subset hs))
  after := by
    intro s hs
    rcases List.mem_cons.1 hs with rfl | hs
    · exact fun _ ht => nomatch ht
    · exact h.after s ((load_sublist n q).subset hs)

/-- What a first store makes of the stays. -/
theorem mem_store {q : Queue} {page : Nat} {s' : Stay} (hs : s' ∈ (q.store page).stays) :
    (∃ s ∈ q.stays, s.page = page ∧ s' = { s with stored := some q.clock }) ∨ s' ∈ q.stays ∧ s'.page ≠ page := by
  obtain ⟨s, hmem, rfl⟩ := List.mem_map.1 hs
  by_cases hp : s.page = page
  · rw [if_pos hp]
    exact Or.inl ⟨s, hmem, hp, rfl⟩
  · rw [if_neg hp]
    exact Or.inr ⟨hmem, hp⟩

theorem pages_store (q : Queue) (page : Nat) : (q.store page).pages = q.pages := by
  unfold pages store
  rw [List.map_map]
  refine List.map_congr_left (fun s _ => ?_)
  rw [Function.comp_apply]
  split <;> rfl

theorem Timed.store {q : Queue} (h : q.Timed) (page : Nat) : (q.store page).Timed where
  order := by
    refine List.pairwise_map.2 (h.order.imp (fun hab => ?_))
    split <;> split <;> exact hab
  past := by
    intro s' hs
    rcases mem_store hs with ⟨s, hmem, -, rfl⟩ | ⟨hmem, -⟩
    · exact Nat.lt_succ_of_lt (h.past s hmem)
    · exact Nat.lt_succ_of_lt (h.past s' hmem)
  after := by
    intro s' hs
    rcases mem_store hs with ⟨s, hmem, -, rfl⟩ | ⟨hmem, -⟩
    · rintro _ ⟨⟩
      exact h.past s hmem
    · exact h.after s' hmem

/-- A first store is the last of the two faults. -/
theorem Timed.lt_last {q : Queue} (h : q.Timed) {s : Stay} (hs : s ∈ q.stays) (t : Nat) :
    t < s.last ↔ t < s.loaded ∨ ∃ u ∈ s.stored, t < u := by
  have hafter := h.after s hs
  unfold Stay.last
  cases hst : s.stored with
  | none   => simp
  | some u =>
    have := hafter u hst
    rw [Option.getD_some]
    constructor
    · exact fun htu => Or.inr ⟨u, rfl, htu⟩
    · rintro (hlt | ⟨_, ⟨⟩, hlt⟩) <;> omega

theorem Timed.oldestFirst_iff {q : Queue} (h : q.Timed) {A : List Stay} {v : Stay} (hq : q.stays = A ++ [v]) :
    q.OldestFirst ↔ ∀ s ∈ A, v.last < s.last := by
  have hA : ∀ s ∈ A, s ∈ q.stays := fun s hs => hq ▸ List.mem_append_left _ hs
  unfold OldestFirst
  rw [hq, List.getLast?_concat, List.dropLast_concat]
  constructor
  · intro hold s hs
    cases hst : v.stored with
    | some t =>
      rw [show v.last = t by rw [Stay.last, hst]; rfl]
      exact (h.lt_last (hA s hs) t).2 (hold v rfl t hst s hs)
    | none =>
      rw [show v.last = v.loaded by rw [Stay.last, hst]; rfl]
      have horder := h.order
      rw [hq] at horder
      exact (h.lt_last (hA s hs) _).2 (Or.inl ((List.pairwise_append.1 horder).2.2 s hs v List.mem_cons_self))
  · rintro hlast _ ⟨⟩ t ht s hs
    have hv := hlast s hs
    rw [show v.last = t by rw [Stay.last, ht]; rfl] at hv
    exact (h.lt_last (hA s hs) t).1 hv

theorem pages_load (n : Nat) (q : Queue) (page : Nat) : (q.load n page).pages = loadKey n q.pages page := by
  unfold pages load loadKey
  rw [List.length_map, List.map_cons]
  split
  · rfl
  · rw [List.map_dropLast]

end Queue

/-! ## FFIFO's trace is told by the program -/

/-- FFIFO's list is the queue, and the faults are those of the clock. -/
structure Tracks (bs : BackingStore B npages) (n : Nat) (q : Queue) (y : Traced bs.State B) : Prop where
  frames : y.1.pt.nframes = n
  paged : Paged bs .ffifo 0 y.1 q.pages []
  timed : q.Timed
  clock : y.2.length = q.clock
  bits : ∀ s ∈ q.stays, y.1.pt.pageBits s.page = if s.stored = none then .read else .readWrite
  stamp : ∀ s ∈ q.stays, stamp (y.2.map Fault.page) s.page = s.last + 1

section Tracks

variable {n : Nat} {q : Queue} {y y' : Traced bs.State B} {page : Nat}

theorem Tracks.resident (ht : Tracks bs n q y) (p : Nat) :
    (p < npages ∧ y.1.pt.pageBits p ≠ .none) ↔ ∃ s ∈ q.stays, s.page = p := by
  have hres := ht.paged.listed.res p
  rw [Resident, ht.paged.listed.pages] at hres
  exact hres.trans List.mem_map

theorem Tracks.agesLeft_iff (ht : Tracks bs n q y) (page : Nat) (mapping : Nat → Nat) (bits : Nat → Prot) :
    AgesLeft npages y.2 ⟨page, y.1.pt.pageBits, mapping, bits⟩ ↔ q.InTime := by
  have hage : ∀ s ∈ q.stays, ((age (y.2.map Fault.page) s.page : Int) ≠ intMax ↔ q.clock - s.last ≠ 2 ^ 31 - 1) := by
    intro s hs
    rw [age, List.length_map, ht.clock, ht.stamp s hs, Nat.add_sub_add_right]
    unfold intMax
    omega
  constructor
  · intro hages s hs
    have hr := (ht.resident s.page).2 ⟨s, hs, rfl⟩
    exact (hage s hs).1 (hages s.page hr.1 hr.2)
  · intro hin p hp hb
    obtain ⟨s, hs, rfl⟩ := (ht.resident p).1 ⟨hp, hb⟩
    exact (hage s hs).2 (hin s hs)

theorem Tracks.page_ne_last (ht : Tracks bs n q y) {S : List Stay} {w : Stay} (hq : q.stays = S ++ [w]) :
    ∀ s ∈ S, s.page ≠ w.page := by
  have hnd := ht.paged.listed.nodup
  rw [Queue.pages, hq, List.map_append] at hnd
  exact fun s hs => (List.nodup_append.1 hnd).2.2 _ (List.mem_map_of_mem hs) _ List.mem_cons_self

/-- The victim is the page loaded first. -/
theorem Tracks.oldest_iff (ht : Tracks bs n q y) {m : Machine bs.State B} {S : List Stay} {w : Stay} {ks : List Nat}
    (hq : q.stays = S ++ [w]) (hf : Faulted bs y.1 m 0 page q.pages ks (.replace w.page)) :
    OldestFault npages y.2 ⟨page, y.1.pt.pageBits, m.pt.pageMapping, m.pt.pageBits⟩ ↔ q.OldestFirst := by
  have hw : w ∈ q.stays := hq ▸ List.mem_append_right _ List.mem_cons_self
  have hS : ∀ s ∈ S, s ∈ q.stays := fun s hs => hq ▸ List.mem_append_left _ hs
  have hrw := (ht.resident w.page).2 ⟨w, hw, rfl⟩
  have hvictim := victim_of_replace hf hrw.1 hrw.2
  rw [ht.timed.oldestFirst_iff hq]
  constructor
  · intro hold s hs
    have hr := (ht.resident s.page).2 ⟨s, hS s hs, rfl⟩
    have := hold w.page hvictim s.page hr.1 hr.2 (ht.page_ne_last hq s hs)
    rw [ht.stamp w hw, ht.stamp s (hS s hs)] at this
    exact Nat.lt_of_succ_lt_succ this
  · intro hlast v hv p hp hb hpv
    obtain rfl := Option.some.inj (hvictim.symm.trans hv)
    obtain ⟨s, hs, rfl⟩ := (ht.resident p).1 ⟨hp, hb⟩
    rw [hq] at hs
    rcases List.mem_append.1 hs with hs | hs
    · rw [ht.stamp w hw, ht.stamp s (hS s hs)]
      exact Nat.succ_lt_succ (hlast s hs)
    · exact absurd (congrArg Stay.page (List.mem_singleton.1 hs)) hpv

/-- A fault that takes no page's frame away. -/
theorem oldestFault_of_ne {m : Machine bs.State B} {ks ks' : List Nat} {mv : Move}
    (hf : Faulted bs y.1 m 0 page ks ks' mv) (hmv : ∀ v, mv ≠ .replace v) :
    OldestFault npages y.2 ⟨page, y.1.pt.pageBits, m.pt.pageMapping, m.pt.pageBits⟩ :=
  fun v hv => absurd (move_of_victim hf hv) (hmv v)

/-- The queue after the load, once the stays that are left still have their rights. -/
theorem Tracks.load (ht : Tracks bs n q y) {m : Machine bs.State B} {ks : List Nat} {mv : Move} (hk : page ∉ q.pages)
    (hp : Paged bs .ffifo 0 m (q.load n page).pages []) (hf : Faulted bs y.1 m 0 page q.pages ks mv) (hmv : mv ≠ .grant)
    (hleft : ∀ s ∈ (if q.stays.length < n then q.stays else q.stays.dropLast), mv ≠ .replace s.page) :
    Tracks bs n (q.load n page) (m, ⟨page, y.1.pt.pageBits, m.pt.pageMapping, m.pt.pageBits⟩ :: y.2) where
  frames := hf.nframes.trans ht.frames
  paged := hp
  timed := ht.timed.load n page
  clock := congrArg Nat.succ ht.clock
  bits := by
    intro s hs
    rcases List.mem_cons.1 hs with rfl | hs
    · rw [if_pos rfl]
      refine hf.bits.trans ?_
      cases mv with
      | grant => exact absurd rfl hmv
      | _     => rfl
    · have hmem := (q.load_sublist n).subset hs
      have hne : s.page ≠ page := fun h => hk (h ▸ List.mem_map_of_mem hmem)
      rw [← ht.bits s hmem]
      show m.pt.pageBits s.page = _
      rw [hf.table]
      exact make_bits_of_ne _ _ hne (hleft s hs)
  stamp := by
    intro s hs
    rcases List.mem_cons.1 hs with rfl | hs
    · rw [List.map_cons, stamp_cons_self, List.length_map, ht.clock]
      rfl
    · have hmem := (q.load_sublist n).subset hs
      have hne : s.page ≠ page := fun h => hk (h ▸ List.mem_map_of_mem hmem)
      rw [List.map_cons, stamp_cons_of_ne hne]
      exact ht.stamp s hmem

/-- **A page that is not there** is loaded, and if it takes the frame of another one then of the page loaded first. -/
theorem Tracks.fault_load (ht : Tracks bs n q y) (hpage : page < npages) (hk : page ∉ q.pages)
    (he : handleTraced bs .ffifo y page = some y') :
    Tracks bs n (q.load n page) y' ∧ (AllPast (SameFault npages) y'.2 ↔
      AllPast (SameFault npages) y.2 ∧ q.InTime ∧ (n ≤ q.stays.length → q.OldestFirst)) := by
  obtain ⟨m, e, he⟩ := Option.bind_eq_some_iff.1 he
  cases he
  obtain ⟨ls, mv, hp', hf, rfl, hlast⟩ := ht.paged.fault_some hpage (fun h => by cases h) e
  rw [ht.frames, ffifoKeys, if_neg hk, ← Queue.pages_load] at hp'
  have hp' := hp'.forget (Or.inr rfl)
  have hlen : q.pages.length = q.stays.length := List.length_map _
  have hages := ht.agesLeft_iff page m.pt.pageMapping m.pt.pageBits
  have hturn := hf.turn
  rw [ht.frames] at hturn
  rw [AllPast, SameFault, hages]
  cases mv with
  | fill i =>
    have hlt : q.stays.length < n := by
      cases hturn with
      | fill _ hlt => omega
    refine ⟨ht.load hk hp' hf nofun (fun _ _ => nofun), ?_⟩
    have hold := oldestFault_of_ne hf (fun _ => nofun)
    constructor
    · exact fun ⟨⟨_, hin⟩, hall⟩ => ⟨hall, hin, fun hle => absurd hlt (Nat.not_lt.2 hle)⟩
    · exact fun ⟨hall, hin, _⟩ => ⟨⟨hold, hin⟩, hall⟩
  | grant =>
    cases hturn with
    | grant hmem => exact absurd hmem hk
  | replace v =>
    have hge : n ≤ q.stays.length := by
      cases hturn with
      | replace _ hge => omega
    obtain ⟨A, hA⟩ := hlast v rfl
    obtain ⟨S, W, hq, -, hW⟩ := List.map_eq_append_iff.1 hA
    obtain ⟨w, W', rfl, rfl, hW'⟩ := List.map_eq_cons_iff.1 hW
    obtain rfl := List.map_eq_nil_iff.1 hW'
    refine ⟨ht.load hk hp' hf nofun (fun s hs hmv => ?_), ?_⟩
    · rw [if_neg (Nat.not_lt.2 hge), hq, List.dropLast_concat] at hs
      exact ht.page_ne_last hq s hs (Move.replace.inj hmv).symm
    · rw [ht.oldest_iff hq hf]
      constructor
      · exact fun ⟨⟨hold, hin⟩, hall⟩ => ⟨hall, hin, fun _ => hold⟩
      · exact fun ⟨hall, hin, hold⟩ => ⟨⟨hold hge, hin⟩, hall⟩

/-- **The first store to a page** leaves all pages where they are. -/
theorem Tracks.fault_store (ht : Tracks bs n q y) (hpage : page < npages) (hk : page ∈ q.pages)
    (he : handleTraced bs .ffifo y page = some y') :
    Tracks bs n (q.store page) y' ∧ (AllPast (SameFault npages) y'.2 ↔ AllPast (SameFault npages) y.2 ∧ q.InTime) := by
  obtain ⟨m, e, he⟩ := Option.bind_eq_some_iff.1 he
  cases he
  obtain ⟨ls, mv, hp', hf, rfl, -⟩ := ht.paged.fault_some hpage (fun h => by cases h) e
  rw [ffifoKeys, if_pos hk, ← q.pages_store page] at hp'
  obtain rfl := ht.paged.grant_of_resident hf hpage (fun hb => (ht.paged.listed.bits_iff hpage).1 hb hk)
  refine ⟨⟨hf.nframes.trans ht.frames, hp'.forget (Or.inr rfl), ht.timed.store page, congrArg Nat.succ ht.clock,
    ?_, ?_⟩, ?_⟩
  · intro s' hs
    rcases Queue.mem_store hs with ⟨s, -, rfl, rfl⟩ | ⟨hmem, hne⟩
    · exact hf.bits
    · rw [← ht.bits s' hmem]
      show m.pt.pageBits s'.page = _
      rw [hf.table]
      exact make_bits_of_ne _ .grant hne nofun
  · intro s' hs
    rcases Queue.mem_store hs with ⟨s, -, rfl, rfl⟩ | ⟨hmem, hne⟩
    · rw [List.map_cons, stamp_cons_self, List.length_map, ht.clock]
      rfl
    · rw [List.map_cons, stamp_cons_of_ne hne]
      exact ht.stamp s' hmem
  · rw [AllPast, SameFault, ht.agesLeft_iff]
    have hold := oldestFault_of_ne hf (fun _ => nofun)
    exact ⟨fun ⟨⟨_, hin⟩, hall⟩ => ⟨hall, hin⟩, fun ⟨hall, hin⟩ => ⟨⟨hold, hin⟩, hall⟩⟩

/-! ## Accesses -/

theorem Tracks.bits_none (ht : Tracks bs n q y) (hpage : page < npages) : y.1.pt.pageBits page = .none ↔ page ∉ q.pages :=
  ht.paged.listed.bits_iff hpage

theorem Tracks.clean_iff (ht : Tracks bs n q y) (hk : page ∈ q.pages) : q.Clean page ↔ y.1.pt.pageBits page = .read := by
  obtain ⟨s, hs, rfl⟩ := List.mem_map.1 hk
  constructor
  · rintro ⟨s', hs', hpage, hnone⟩
    rw [← hpage, ht.bits s' hs', if_pos hnone]
  · intro hb
    rw [ht.bits s hs] at hb
    by_contra hdirty
    rw [if_neg (fun hnone => hdirty ⟨s, hs, rfl, hnone⟩)] at hb
    cases hb

/-- **The page comes in, if it is not there.** -/
theorem Tracks.read (ht : Tracks bs n q y) {a fuel : Nat} {w : Bool} (hpage : a / B < npages)
    (he : accessTraced bs .ffifo a w fuel y = some y') : ∃ fuel₁ y₁, accessTraced bs .ffifo a w fuel₁ y₁ = some y' ∧
    Tracks bs n (q.read n (a / B)) y₁ ∧ a / B ∈ (q.read n (a / B)).pages ∧
    (AllPast (SameFault npages) y₁.2 ↔ AllPast (SameFault npages) y.2 ∧ q.ReadsAlike n (a / B)) := by
  unfold Queue.read Queue.ReadsAlike
  by_cases hk : a / B ∈ q.pages
  · rw [if_pos hk]
    exact ⟨fuel, y, he, ht, hk, fun h => ⟨h, fun hn => absurd hk hn⟩, fun h => h.1⟩
  · rw [if_neg hk]
    cases fuel with
    | zero => cases he
    | succ fuel =>
      rw [accessTraced, ht.paged.listed.pages, if_pos hpage, (ht.bits_none hpage).2 hk,
        if_neg (by cases w <;> decide)] at he
      obtain ⟨y₁, e₁, he⟩ := Option.bind_eq_some_iff.1 he
      obtain ⟨ht₁, hall⟩ := ht.fault_load hpage hk e₁
      refine ⟨fuel, y₁, he, ht₁, List.mem_cons_self, hall.trans (and_congr_right fun _ => ?_)⟩
      exact ⟨fun h _ => h, fun h => h hk⟩

/-- A read of a page that is there is through. -/
theorem Tracks.read_done (ht : Tracks bs n q y) {a fuel : Nat} (hpage : a / B < npages) (hk : a / B ∈ q.pages)
    (he : accessTraced bs .ffifo a false fuel y = some y') : y' = y := by
  cases fuel with
  | zero => cases he
  | succ fuel =>
    have hb : y.1.pt.pageBits (a / B) ≠ .none := fun hb => (ht.bits_none hpage).1 hb hk
    rw [accessTraced, ht.paged.listed.pages, if_pos hpage, if_pos (allows_read hb)] at he
    exact (Option.some.inj he).symm

/-- **The page becomes writable, if it is not.** -/
theorem Tracks.write (ht : Tracks bs n q y) {a : Nat} (hpage : a / B < npages) (hk : a / B ∈ q.pages) : ∀ {fuel : Nat},
    accessTraced bs .ffifo a true fuel y = some y' → Tracks bs n (q.write (a / B)) y' ∧
      (AllPast (SameFault npages) y'.2 ↔ AllPast (SameFault npages) y.2 ∧ q.WritesAlike (a / B)) ∧
      y'.1.pt.pageBits (a / B) = .readWrite := by
  intro fuel he
  have hclean := ht.clean_iff hk
  have hnone : y.1.pt.pageBits (a / B) ≠ .none := fun hb => (ht.bits_none hpage).1 hb hk
  unfold Queue.write Queue.WritesAlike
  cases fuel with
  | zero => cases he
  | succ fuel =>
    rw [accessTraced, ht.paged.listed.pages, if_pos hpage] at he
    cases hb : y.1.pt.pageBits (a / B) with
    | none => exact absurd hb hnone
    | readWrite =>
      rw [hb] at he hclean
      cases he
      have hnot : ¬ q.Clean (a / B) := fun h => by cases hclean.1 h
      rw [if_neg hnot]
      exact ⟨ht, ⟨fun h => ⟨h, fun hc => absurd hc hnot⟩, fun h => h.1⟩, hb⟩
    | read =>
      rw [hb, if_neg (by decide)] at he
      obtain ⟨y₁, e₁, he⟩ := Option.bind_eq_some_iff.1 he
      obtain ⟨ht₁, hall⟩ := ht.fault_store hpage hk e₁
      have hk₁ : a / B ∈ (q.store (a / B)).pages := by rw [Queue.pages_store]; exact hk
      have hb₁ : y₁.1.pt.pageBits (a / B) = .readWrite := by
        obtain ⟨s, hs, hsp⟩ := List.mem_map.1 hk₁
        rcases Queue.mem_store hs with ⟨s₀, -, hs₀, rfl⟩ | ⟨-, hne⟩
        · exact hs₀ ▸ ht₁.bits _ hs
        · exact absurd hsp hne
      cases fuel with
      | zero => cases he
      | succ fuel =>
        rw [accessTraced, ht₁.paged.listed.pages, if_pos hpage, hb₁] at he
        cases he
        have hc := hclean.2 hb
        rw [if_pos hc]
        exact ⟨ht₁, hall.trans (and_congr_right fun _ => ⟨fun h _ => h, fun h => h hc⟩), hb₁⟩

theorem Tracks.poke (ht : Tracks bs n q y) (hpage : page < npages) (hb : y.1.pt.pageBits page = .readWrite)
    (b : Block B) : Tracks bs n q ({ y.1 with pt := y.1.pt.poke page b }, y.2) :=
  ⟨ht.frames, ht.paged.poke hpage hb b, ht.timed, ht.clock, ht.bits, ht.stamp⟩

end Tracks

/-! ## Programs -/

theorem tracks_init {nframes : Nat} (hn : 1 ≤ nframes) (store : bs.State) (physmem : Nat → Block B)
    (rands : Nat → Nat) : Tracks bs nframes ⟨[], 0⟩ (initVirtualMemory bs nframes store physmem rands, []) where
  frames := rfl
  paged := paged_initVirtualMemory .ffifo hn store physmem rands
  timed := ⟨List.Pairwise.nil, nofun, nofun⟩
  clock := rfl
  bits := nofun
  stamp := nofun

section Programs

variable [NeZero B] {n : Nat}

theorem Tracks.exec {q : Queue} {y y' : Traced bs.State B} {op : Op} {fuel : Nat} (ht : Tracks bs n q y)
    (hop : .flush ≠ op) (hin : ∀ p ∈ op.page? B, p < npages) (he : execTraced bs .ffifo fuel y op = some y') :
    Tracks bs n (q.exec B n op) y' ∧
      (AllPast (SameFault npages) y'.2 ↔ AllPast (SameFault npages) y.2 ∧ q.Alike B n op) := by
  cases op with
  | flush => exact absurd rfl hop
  | load a =>
    have hpage : a / B < npages := hin _ rfl
    obtain ⟨fuel₁, y₁, he₁, ht₁, hk, hall⟩ := ht.read hpage he
    obtain rfl := ht₁.read_done hpage hk he₁
    exact ⟨ht₁, hall⟩
  | store a v =>
    have hpage : a / B < npages := hin _ rfl
    obtain ⟨y₂, e₂, he⟩ := Option.bind_eq_some_iff.1 he
    cases he
    obtain ⟨fuel₁, y₁, he₁, ht₁, hk, hall₁⟩ := ht.read hpage e₂
    obtain ⟨ht₂, hall₂, hb⟩ := ht₁.write hpage hk he₁
    exact ⟨ht₂.poke hpage hb _, hall₂.trans ((and_congr_left fun _ => hall₁).trans and_assoc)⟩

/-- **The program tells whether FFIFO's faults would do for FIFO.** -/
theorem Tracks.run {fuel : Nat} : ∀ (ops : List Op) {q : Queue} {y y' : Traced bs.State B}, Tracks bs n q y →
    .flush ∉ ops → (∀ p ∈ touched B ops, p < npages) → runTraced bs .ffifo fuel y ops = some y' →
    (AllPast (SameFault npages) y'.2 ↔ AllPast (SameFault npages) y.2 ∧ q.AllAlike B n ops)
  | [],        _, _, _,  _,  _,    _,   he => by
    cases he
    exact (and_iff_left trivial).symm
  | op :: ops, q, y, y', ht, hops, hin, he => by
    rw [List.mem_cons, not_or] at hops
    rw [runTraced, List.foldlM_cons] at he
    obtain ⟨y₁, e₁, he⟩ := Option.bind_eq_some_iff.1 he
    have hop : ∀ p ∈ op.page? B, p < npages := fun p hp => hin p (by rw [touched_cons hp]; exact List.mem_cons_self)
    obtain ⟨ht₁, hall₁⟩ := ht.exec hops.1 hop e₁
    have hrest : ∀ p ∈ touched B ops, p < npages := fun p hp =>
      hin p (touched_subset (List.subset_cons_self op ops) hp)
    exact (Tracks.run ops ht₁ hops.2 hrest he).trans ((and_congr_left fun _ => hall₁).trans and_assoc)

/-- **FIFO agrees with FFIFO on a program**, evicting the pages loaded first, exactly if no access is at a time when the
page loaded first has to go, has been stored to since, and another one has been neither loaded nor first stored to after
that, or when an age would overflow. -/
theorem fifo_ffifo_agree_iff {nframes : Nat} (hn : 1 ≤ nframes) (store : bs.State) (physmem : Nat → Block B)
    (rands : Nat → Nat) (ops : List Op) (hops : .flush ∉ ops) (hin : ∀ p ∈ touched B ops, p < npages) :
    ∃ y, runTraced bs.logged .ffifo 3 (initVirtualMemory bs.logged nframes (store, []) physmem rands, []) ops = some y ∧
    ((∃ x, runTraced bs.logged .fifo 3 (initVirtualMemory bs.logged nframes (store, []) physmem rands, []) ops = some x ∧
      view x = view y ∧ AllPast (FirstLoaded npages) x.2) ↔ Queue.AllAlike B nframes ⟨[], 0⟩ ops) := by
  obtain ⟨y, ey, hiff⟩ := @agree_iff_sameFault B npages bs _ nframes hn store physmem rands ops hops hin
  refine ⟨y, ey, hiff.trans ?_⟩
  exact ((@tracks_init B npages bs.logged nframes hn (store, []) physmem rands).run ops hops hin ey).trans
    (and_iff_right trivial)

/-- Two frames.  When the other page is first stored to after the page loaded first, the two agree; when it is not, they
do not. -/
theorem fifo_ffifo_agree_stored :
    (Queue.AllAlike 1 2 ⟨[], 0⟩ [.load 0, .load 1, .store 0 7, .store 1 8, .load 2] ∧
      ∃ x y, runTraced (memStore 1 3).logged .fifo 3
          (initVirtualMemory (memStore 1 3).logged 2 ((fun _ _ => 0), []) (fun _ _ => 0) (fun _ => 0), [])
          [.load 0, .load 1, .store 0 7, .store 1 8, .load 2] = some x ∧
        runTraced (memStore 1 3).logged .ffifo 3
          (initVirtualMemory (memStore 1 3).logged 2 ((fun _ _ => 0), []) (fun _ _ => 0) (fun _ => 0), [])
          [.load 0, .load 1, .store 0 7, .store 1 8, .load 2] = some y ∧
        view x = view y ∧ AllPast (FirstLoaded 3) x.2) ∧
    ¬ Queue.AllAlike 1 2 ⟨[], 0⟩ [.load 0, .load 1, .store 0 7, .load 2] ∧
      ∃ y, runTraced (memStore 1 3).logged .ffifo 3
          (initVirtualMemory (memStore 1 3).logged 2 ((fun _ _ => 0), []) (fun _ _ => 0) (fun _ => 0), [])
          [.load 0, .load 1, .store 0 7, .load 2] = some y ∧
        ¬ ∃ x, runTraced (memStore 1 3).logged .fifo 3
          (initVirtualMemory (memStore 1 3).logged 2 ((fun _ _ => 0), []) (fun _ _ => 0) (fun _ => 0), [])
          [.load 0, .load 1, .store 0 7, .load 2] = some x ∧ view x = view y ∧ AllPast (FirstLoaded 3) x.2 := by
  have hsame : Queue.AllAlike 1 2 ⟨[], 0⟩ [.load 0, .load 1, .store 0 7, .store 1 8, .load 2] := by decide
  have hdiffer : ¬ Queue.AllAlike 1 2 ⟨[], 0⟩ [.load 0, .load 1, .store 0 7, .load 2] := by decide
  obtain ⟨y, ey, hy⟩ := @fifo_ffifo_agree_iff 1 3 (memStore 1 3) _ 2 (by decide) (fun _ _ => 0) (fun _ _ => 0)
    (fun _ => 0) [.load 0, .load 1, .store 0 7, .store 1 8, .load 2] (by simp) (by decide)
  obtain ⟨z, ez, hz⟩ := @fifo_ffifo_agree_iff 1 3 (memStore 1 3) _ 2 (by decide) (fun _ _ => 0) (fun _ _ => 0)
    (fun _ => 0) [.load 0, .load 1, .store 0 7, .load 2] (by simp) (by decide)
  obtain ⟨x, ex, hxy⟩ := hy.2 hsame
  exact ⟨⟨hsame, x, y, ex, ey, hxy⟩, hdiffer, z, ez, fun h => hdiffer (hz.1 h)⟩

/-- Two frames: a store to the page loaded first makes FIFO keep it and evict the other one. -/
theorem fifo_ffifo_differ :
    (runTraced (memStore 1 3).logged .fifo 3
      (initVirtualMemory (memStore 1 3).logged 2 ((fun _ _ => 0), []) (fun _ _ => 0) (fun _ => 0), [])
      [.load 0, .load 1, .store 0 7, .load 2]).map (fun x => x.2.map (Fault.victim 3)) =
        some [some 1, none, none, none] ∧
    (runTraced (memStore 1 3).logged .ffifo 3
      (initVirtualMemory (memStore 1 3).logged 2 ((fun _ _ => 0), []) (fun _ _ => 0) (fun _ => 0), [])
      [.load 0, .load 1, .store 0 7, .load 2]).map (fun x => x.2.map (Fault.victim 3)) =
        some [some 0, none, none, none] := by
  decide

end Programs

end Vmem
end Bb
