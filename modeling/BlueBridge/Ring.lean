import Mathlib.Logic.Function.Basic
/-!
# Ring — slots that a producer fills and a consumer gives back

A slot with status 0 is the producer's: it may be filled at any time.  The producer fills the slots in ring order, and
only while the next one is its own.  The consumer is a program that is run again and again: it looks up its slot, reads
a status or a frame, gives a slot back or moves on to the next.  Between any two of its operations the producer may fill.

A consumer's turn (`turn`) is one look at the ring: nothing there, a slot to be passed over, or a frame to be taken,
read (`R`), given back and worked on (`S`).  `Window` says where in the ring the frames are that the consumer has not
dealt with.
-/
namespace Bb
namespace Ring

open Function (update update_self update_of_ne)

variable {F α β : Type}

structure Slot (F : Type) where
  status : UInt32
  frame : F

/-! ## Consumers -/

inductive Prog (F α : Type) where
  | ret (a : α)
  | get (k : Nat → Prog F α)
  | status (i : Nat) (k : UInt32 → Prog F α)
  | read (i : Nat) (k : F → Prog F α)
  | release (i : Nat) (k : Prog F α)
  | next (k : Prog F α)

/-- Something worked out from a frame by reading it, each time anew. -/
inductive Reader (F β : Type) where
  | ret (b : β)
  | read (k : F → Reader F β)

def Reader.bind {γ : Type} : Reader F β → (β → Reader F γ) → Reader F γ
  | .ret b,  f => f b
  | .read k, f => .read (fun x => (k x).bind f)

instance : Monad (Reader F) where
  pure := .ret
  bind := .bind

/-- The frame as it is now. -/
def Reader.frame : Reader F F := .read .ret

/-- What it gives if the frame stays the same. -/
def Reader.eval : Reader F β → F → β
  | .ret b,  _ => b
  | .read k, f => (k f).eval f

@[simp] theorem Reader.eval_pure (b : β) (f : F) : (pure b : Reader F β).eval f = b := rfl

@[simp] theorem Reader.eval_frame (f : F) : Reader.frame.eval f = f := rfl

@[simp] theorem Reader.eval_bind {γ : Type} (g : β → Reader F γ) (f : F) :
    ∀ r : Reader F β, (r >>= g).eval f = (g (r.eval f)).eval f
  | .ret _  => rfl
  | .read k => eval_bind g f (k f)

@[simp] theorem Reader.eval_map {γ : Type} (g : β → γ) (f : F) (r : Reader F β) : (g <$> r).eval f = g (r.eval f) :=
  eval_bind (fun b => pure (g b)) f r

/-- Reading the frame of slot `i`. -/
def Reader.at (i : Nat) (c : β → Prog F α) : Reader F β → Prog F α
  | .ret b  => c b
  | .read k => .read i (fun f => (k f).at i c)

/-- A slot whose status fails a test is passed over; each test reads the status anew. -/
def tests (i : Nat) (body : Prog F (Option α)) : List (UInt32 → Bool) → Prog F (Option α)
  | []      => body
  | t :: ts => .status i (fun st => if t st then .next (.ret none) else tests i body ts)

/-- A frame is read, its slot given back, and the frame worked on. -/
def body (R : Reader F β) (S : β → Reader F α) (i : Nat) : Prog F (Option α) :=
  R.at i (fun b => .release i (.next ((S b).at i (fun a => .ret (some a)))))

/-- **One look at the ring.** -/
def turn (ts : List (UInt32 → Bool)) (R : Reader F β) (S : β → Reader F α) : Prog F (Option α) :=
  .get (fun i => .status i (fun st => if st = 0 then .ret none else tests i (body R S i) ts))

/-- The slot whose frame is still to be read. -/
def Prog.reading : Prog F α → Option Nat
  | .read i _    => some i
  | .release _ k => k.reading
  | .next k      => k.reading
  | _            => none

/-! ## Runs -/

/-- The ring, the producer's and the consumer's place in it, and what is left of the consumer's turn.  For the record:
what was filled in, whether the consumer's slot was given back, and for each slot it moved past, whether that was; and
the consumer's results. -/
structure Sys (F α : Type) where
  slots : Nat → Slot F
  head : Nat
  cur : Nat
  prog : Prog F (Option α)
  filled : List (Slot F)
  given : Bool
  advanced : List Bool
  out : List α

section Runs

variable (n : Nat) (m : Prog F (Option α))

/-- The producer fills the next slot, if it is its own. -/
def Sys.fill (x : Slot F) (s : Sys F α) : Option (Sys F α) :=
  if x.status ≠ 0 ∧ (s.slots s.head).status = 0 then
    some { s with slots := update s.slots s.head x, head := (s.head + 1) % n, filled := s.filled ++ [x] }
  else none

/-- The consumer's next operation; a turn that is over is followed by another. -/
def Sys.go (s : Sys F α) : Sys F α :=
  match s.prog with
  | .ret none     => { s with prog := m }
  | .ret (some a) => { s with prog := m, out := s.out ++ [a] }
  | .get k        => { s with prog := k s.cur }
  | .status i k   => { s with prog := k (s.slots i).status }
  | .read i k     => { s with prog := k (s.slots i).frame }
  | .release i k  => { s with prog := k, slots := update s.slots i { s.slots i with status := 0 },
                              given := s.given || i = s.cur }
  | .next k       => { s with prog := k, cur := (s.cur + 1) % n, given := false, advanced := s.advanced ++ [s.given] }

/-- Runs in which the producer fills only when `ok`. -/
inductive Reach (ok : Sys F α → Prop) (s₀ : Sys F α) : Sys F α → Prop
  | start : Reach ok s₀ s₀
  | fill {s s' x} : Reach ok s₀ s → ok s → s.fill n x = some s' → Reach ok s₀ s'
  | go {s} : Reach ok s₀ s → Reach ok s₀ (s.go n m)

/-- An empty ring, the consumer about to look. -/
def start (f : F) : Sys F α := ⟨fun _ => ⟨0, f⟩, 0, 0, m, [], false, [], []⟩

/-- Any interleaving: `some x` fills, `none` lets the consumer go. -/
def run : List (Option (Slot F)) → Sys F α → Option (Sys F α)
  | [],          s => some s
  | some x :: l, s => (s.fill n x).bind (run l)
  | none :: l,   s => run l (s.go n m)

section Go

variable {n m} {s : Sys F α}

theorem go_none (hp : s.prog = .ret none) : s.go n m = { s with prog := m } := by
  unfold Sys.go
  rw [hp]

theorem go_some {a : α} (hp : s.prog = .ret (some a)) : s.go n m = { s with prog := m, out := s.out ++ [a] } := by
  unfold Sys.go
  rw [hp]

theorem go_get {k : Nat → Prog F (Option α)} (hp : s.prog = .get k) : s.go n m = { s with prog := k s.cur } := by
  unfold Sys.go
  rw [hp]

theorem go_status {i : Nat} {k : UInt32 → Prog F (Option α)} (hp : s.prog = .status i k) :
    s.go n m = { s with prog := k (s.slots i).status } := by
  unfold Sys.go
  rw [hp]

theorem go_read {i : Nat} {k : F → Prog F (Option α)} (hp : s.prog = .read i k) :
    s.go n m = { s with prog := k (s.slots i).frame } := by
  unfold Sys.go
  rw [hp]

theorem go_release {k : Prog F (Option α)} (hp : s.prog = .release s.cur k) :
    s.go n m = { s with prog := k, given := true,
                        slots := update s.slots s.cur { s.slots s.cur with status := 0 } } := by
  unfold Sys.go
  rw [hp]
  simp

theorem go_next {k : Prog F (Option α)} (hp : s.prog = .next k) :
    s.go n m = { s with prog := k, cur := (s.cur + 1) % n, given := false, advanced := s.advanced ++ [s.given] } := by
  unfold Sys.go
  rw [hp]

end Go

theorem reach_run {s₀ : Sys F α} : ∀ (l : List (Option (Slot F))) {s s' : Sys F α},
    Reach n m (fun _ => True) s₀ s → run n m l s = some s' → Reach n m (fun _ => True) s₀ s'
  | [], s, s', hs, h => by
    cases h
    exact hs
  | some x :: l, s, s', hs, h => by
    obtain ⟨s₁, h₁, h⟩ := Option.bind_eq_some_iff.mp h
    exact reach_run l (.fill hs trivial h₁) h
  | none :: l, s, s', hs, h => reach_run l (.go hs) h

end Runs

/-! ## The window -/

section Window

variable (n : Nat) (ts : List (UInt32 → Bool))

def flagged (st : UInt32) : Bool := ts.any (fun t => t st)

/-- `e` frames have been dealt with.  Those after them are in their slots; every other slot is the producer's, or has a
frame that was passed over.  The producer has not come round to a slot it does not own. -/
structure Window (e : Nat) (s : Sys F α) : Prop where
  head : s.head = s.filled.length % n
  nonzero : ∀ x ∈ s.filled, x.status ≠ 0
  live : ∀ j x, e ≤ j → s.filled[j]? = some x → s.slots (j % n) = x
  bound : s.filled.length ≤ e + n
  idle : ∀ i, i < n → (∀ j, e ≤ j → j < s.filled.length → j % n ≠ i) →
    (s.slots i).status = 0 ∨ s.slots i ∈ s.filled.take e ∧ flagged ts (s.slots i).status = true
  past : ∀ j, s.filled.length ≤ j → j < e → flagged ts (s.slots (j % n)).status = true

variable {n ts} {e : Nat} {s s' : Sys F α}

theorem mod_ne_mod {i j : Nat} (h : i < j) (hn : j < i + n) : j % n ≠ i % n := by
  intro heq
  have hsub := Nat.sub_mod_eq_zero_of_mod_eq heq
  rw [Nat.mod_eq_of_lt (by omega)] at hsub
  omega

theorem Window.congr (h : Window n ts e s) (hslots : s'.slots = s.slots) (hhead : s'.head = s.head)
    (hfilled : s'.filled = s.filled) : Window n ts e s' := by
  constructor
  · rw [hhead, hfilled]; exact h.head
  · rw [hfilled]; exact h.nonzero
  · rw [hfilled, hslots]; exact h.live
  · rw [hfilled]; exact h.bound
  · rw [hfilled, hslots]; exact h.idle
  · rw [hfilled, hslots]; exact h.past

theorem fill_eq {x : Slot F} (hf : s.fill n x = some s') :
    x.status ≠ 0 ∧ (s.slots s.head).status = 0 ∧
      s' = { s with slots := update s.slots s.head x, head := (s.head + 1) % n, filled := s.filled ++ [x] } := by
  unfold Sys.fill at hf
  split at hf
  case isFalse => cases hf
  case isTrue h =>
    cases hf
    exact ⟨h.1, h.2, rfl⟩

/-- The producer fills only what the consumer has dealt with. -/
theorem Window.fill (hn : 0 < n) (hz : flagged ts 0 = false) {x : Slot F} (h : Window n ts e s)
    (hf : s.fill n x = some s') : e ≤ s.filled.length ∧ Window n ts e s' := by
  obtain ⟨hx, hfree, rfl⟩ := fill_eq hf
  have hfree' := hfree
  rw [h.head] at hfree'
  have hle : e ≤ s.filled.length := by
    by_contra hlt
    have := h.past _ (Nat.le_refl _) (Nat.not_le.mp hlt)
    rw [hfree', hz] at this
    cases this
  have hlt : s.filled.length < e + n := by
    refine Nat.lt_of_le_of_ne h.bound (fun heq => ?_)
    have hlive := h.live e s.filled[e] (Nat.le_refl e) (List.getElem?_eq_getElem (by omega))
    rw [heq, Nat.add_mod_right, hlive] at hfree'
    exact h.nonzero _ (List.getElem_mem ..) hfree'
  refine ⟨hle, ?_, ?_, ?_, ?_, ?_, ?_⟩
  · simp only [h.head, List.length_append, List.length_singleton]
    exact Nat.mod_add_mod ..
  · intro y hy
    rcases List.mem_append.mp hy with hy | hy
    · exact h.nonzero y hy
    · rw [List.mem_singleton.mp hy]
      exact hx
  · intro j y hj hy
    dsimp only at hy ⊢
    rw [h.head]
    rcases Nat.lt_trichotomy j s.filled.length with hjm | rfl | hjm
    · rw [List.getElem?_append_left hjm] at hy
      rw [update_of_ne (Ne.symm (mod_ne_mod hjm (by omega)))]
      exact h.live j y hj hy
    · rw [List.getElem?_concat_length] at hy
      cases hy
      exact update_self ..
    · rw [List.getElem?_eq_none (by simp; omega)] at hy
      cases hy
  · simp only [List.length_append, List.length_singleton]
    omega
  · intro i hi hout
    simp only [List.length_append, List.length_singleton] at hout ⊢
    have hne : i ≠ s.head := by
      rw [h.head]
      exact Ne.symm (hout s.filled.length hle (by omega))
    rw [update_of_ne hne, List.take_append_of_le_length hle]
    exact h.idle i hi (fun j hj hjm => hout j hj (by omega))
  · intro j hj hje
    simp only [List.length_append, List.length_singleton] at hj
    omega

/-- A slot that is neither empty nor passed over has the next frame. -/
theorem Window.ready (hn : 0 < n) (h : Window n ts e s) (hst : (s.slots (e % n)).status ≠ 0)
    (hfl : flagged ts (s.slots (e % n)).status = false) : s.filled[e]? = some (s.slots (e % n)) := by
  by_cases hlt : e < s.filled.length
  · rw [h.live e _ (Nat.le_refl e) (List.getElem?_eq_getElem hlt)]
    exact List.getElem?_eq_getElem hlt
  · rcases h.idle (e % n) (Nat.mod_lt e hn) (fun j hj hjm => by omega) with h0 | ⟨-, h1⟩
    · exact absurd h0 hst
    · rw [hfl] at h1
      cases h1

theorem Window.release {x : Slot F} (h : Window n ts e s) (hx : s.filled[e]? = some x)
    (hslots : s'.slots = update s.slots (e % n) { s.slots (e % n) with status := 0 }) (hhead : s'.head = s.head)
    (hfilled : s'.filled = s.filled) : Window n ts (e + 1) s' := by
  have hlt : e < s.filled.length := (List.getElem?_eq_some_iff.mp hx).1
  constructor
  · rw [hhead, hfilled]
    exact h.head
  · rw [hfilled]
    exact h.nonzero
  · intro j y hj hy
    rw [hfilled] at hy
    have hjm : j < s.filled.length := (List.getElem?_eq_some_iff.mp hy).1
    have := h.bound
    rw [hslots, update_of_ne (mod_ne_mod (by omega) (by omega))]
    exact h.live j y (by omega) hy
  · rw [hfilled]
    have := h.bound
    omega
  · intro i hi hout
    rw [hslots, hfilled]
    rw [hfilled] at hout
    by_cases hie : i = e % n
    · subst hie
      rw [update_self]
      exact .inl rfl
    · rw [update_of_ne hie]
      refine (h.idle i hi (fun j hj hjm => ?_)).imp_right (fun hst => ⟨?_, hst.2⟩)
      · rcases Nat.eq_or_lt_of_le hj with rfl | hj
        · exact Ne.symm hie
        · exact hout j hj hjm
      · exact (List.take_sublist_take_left (Nat.le_succ e)).subset hst.1
  · intro j hj hje
    rw [hfilled] at hj
    omega

theorem Window.skip (hz : flagged ts 0 = false) (h : Window n ts e s)
    (hfl : flagged ts (s.slots (e % n)).status = true) : Window n ts (e + 1) s := by
  refine ⟨h.head, h.nonzero, fun j y hj => h.live j y (by omega), by have := h.bound; omega, fun i hi hout => ?_,
    fun j hj hje => ?_⟩
  · by_cases hie : i = e % n
    · subst hie
      refine .inr ⟨?_, hfl⟩
      by_cases hlt : e < s.filled.length
      · rw [h.live e _ (Nat.le_refl e) (List.getElem?_eq_getElem hlt)]
        exact List.mem_take_iff_getElem.mpr ⟨e, by omega, rfl⟩
      · rcases h.idle _ hi (fun j hj hjm => by omega) with h0 | ⟨h1, -⟩
        · rw [h0, hz] at hfl
          cases hfl
        · exact (List.take_sublist_take_left (Nat.le_succ e)).subset h1
    · refine (h.idle i hi (fun j hj hjm => ?_)).imp_right (fun hst => ⟨?_, hst.2⟩)
      · rcases Nat.eq_or_lt_of_le hj with rfl | hj
        · exact Ne.symm hie
        · exact hout j hj hjm
      · exact (List.take_sublist_take_left (Nat.le_succ e)).subset hst.1
  · rcases Nat.eq_or_lt_of_le (Nat.le_of_lt_succ hje) with rfl | hlt
    · exact hfl
    · exact h.past j hj hlt

end Window

/-! ## In ring order -/

/-- The `n` slots in ring order, from slot `i` on. -/
def ordered (n i : Nat) (slots : Nat → Slot F) : List (Slot F) := (List.range n).map (fun k => slots ((i + k) % n))

/-- **A slot written and passed is the last in ring order**, and the slot after it the first. -/
theorem ordered_put {n i : Nat} (hi : i < n) (slots : Nat → Slot F) (x : Slot F) :
    ordered n ((i + 1) % n) (update slots i x) = (ordered n i slots).tail ++ [x] := by
  unfold ordered
  refine List.ext_getElem (by simp; omega) (fun k hk _ => ?_)
  have hkn : k < n := by simpa using hk
  have hidx : ((i + 1) % n + k) % n = (i + (k + 1)) % n := by rw [Nat.mod_add_mod]; congr 1; omega
  rw [List.getElem_map, List.getElem_range, hidx]
  by_cases hlast : k + 1 < n
  · have hne : (i + (k + 1)) % n ≠ i := by
      have := mod_ne_mod (show i < i + (k + 1) by omega) (show i + (k + 1) < i + n by omega)
      rwa [Nat.mod_eq_of_lt hi] at this
    rw [update_of_ne hne, List.getElem_append_left (by simp; omega), List.getElem_tail, List.getElem_map,
      List.getElem_range]
  · have hwrap : (i + (k + 1)) % n = i := by
      rw [show i + (k + 1) = i + n by omega, Nat.add_mod_right, Nat.mod_eq_of_lt hi]
    rw [hwrap, update_self, List.getElem_append_right (by simp; omega)]
    simp

end Ring
end Bb
