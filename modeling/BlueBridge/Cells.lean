import Mathlib.Algebra.Order.Ring.Nat
import Mathlib.Data.List.Induction
import Mathlib.Logic.Function.Basic
/-!
# Cells — a typed heap and the doubly linked lists in it

A heap maps pointers to cells; `0` is `NULL` and is never allocated.  `malloc` hands out the pointer after every one
it has handed out, so a freed pointer is not reused, and an access to a pointer that is not allocated is `none`: an
undefined behaviour is never given a value.

`Seg m nx pv l` says that the nodes `l`, pointers and payloads in order, are linked both ways in `m`, entered from `pv`
and left to `nx`.  A list splits where its links do (`seg_append`), and a write outside it leaves it alone
(`Seg.frame`).  A node is unlinked (`Heap.unlink_seg`) or put after another (`Heap.insert_after`).
-/
namespace Bb
namespace Cells

open Function (update update_self update_of_ne)

/-! ## The heap -/

structure Heap (β : Type) where
  cell : Nat → Option β
  brk : Nat
  null : cell 0 = none
  pos : 0 < brk
  fresh : ∀ p, brk ≤ p → cell p = none

def Heap.empty {β : Type} : Heap β := ⟨fun _ => none, 1, rfl, by decide, fun _ _ => rfl⟩

/-- `malloc`, and the first write of the new cell. -/
def Heap.malloc {β : Type} (h : Heap β) (b : β) : Heap β where
  cell := update h.cell h.brk (some b)
  brk := h.brk + 1
  null := by rw [update_of_ne (Nat.ne_of_lt h.pos)]; exact h.null
  pos := Nat.succ_pos _
  fresh := fun p hp => by rw [update_of_ne (by omega)]; exact h.fresh p (by omega)

/-- A write to an allocated cell; a pointer that is not allocated is left alone. -/
def Heap.set {β : Type} (h : Heap β) (p : Nat) (b : β) : Heap β where
  cell := fun q => if q = p ∧ (h.cell p).isSome = true then some b else h.cell q
  brk := h.brk
  null := by
    split
    · rename_i hc; rw [← hc.1, h.null] at hc; cases hc.2
    · exact h.null
  pos := h.pos
  fresh := fun q hq => by
    split
    · rename_i hc; rw [← hc.1, h.fresh q hq] at hc; cases hc.2
    · exact h.fresh q hq

/-- `p->field = …`: undefined when `p` is not allocated. -/
def Heap.modify {β : Type} (h : Heap β) (p : Nat) (f : β → β) : Option (Heap β) :=
  (h.cell p).map (fun c => h.set p (f c))

def Heap.erase {β : Type} (h : Heap β) (p : Nat) : Heap β where
  cell := update h.cell p none
  brk := h.brk
  null := by rw [Function.update_apply]; split <;> first | rfl | exact h.null
  pos := h.pos
  fresh := fun q hq => by rw [Function.update_apply]; split <;> first | rfl | exact h.fresh q hq

/-- `free(p)`: undefined when `p` is not allocated. -/
def Heap.free {β : Type} (h : Heap β) (p : Nat) : Option (Heap β) := (h.cell p).map (fun _ => h.erase p)

theorem Heap.ne_zero {β : Type} (h : Heap β) {p : Nat} {b : β} (hp : h.cell p = some b) : p ≠ 0 := by
  rintro rfl; rw [h.null] at hp; cases hp

theorem Heap.lt_brk {β : Type} (h : Heap β) {p : Nat} {b : β} (hp : h.cell p = some b) : p < h.brk := by
  rcases Nat.lt_or_ge p h.brk with hlt | hge
  · exact hlt
  · rw [h.fresh p hge] at hp; cases hp

@[simp] theorem Heap.malloc_cell {β : Type} (h : Heap β) (b : β) :
    (h.malloc b).cell = update h.cell h.brk (some b) := rfl

theorem Heap.set_cell {β : Type} (h : Heap β) {p : Nat} {c : β} (b : β) (hp : h.cell p = some c) :
    (h.set p b).cell = update h.cell p (some b) := by
  funext q
  simp [Heap.set, Function.update_apply, hp]

/-- A field write to an allocated cell changes that cell and no other. -/
theorem Heap.modify_of_cell {β : Type} (h : Heap β) {p : Nat} {c : β} (f : β → β) (hp : h.cell p = some c) :
    ∃ h', h.modify p f = some h' ∧ h'.cell = update h.cell p (some (f c)) ∧ h'.brk = h.brk :=
  ⟨h.set p (f c), by simp [Heap.modify, hp], h.set_cell _ hp, rfl⟩

theorem Heap.free_of_cell {β : Type} (h : Heap β) {p : Nat} {c : β} (hp : h.cell p = some c) :
    ∃ h', h.free p = some h' ∧ h'.cell = update h.cell p none ∧ h'.brk = h.brk :=
  ⟨h.erase p, by simp [Heap.free, hp], rfl, rfl⟩

/-! ## Doubly linked segments -/

structure Node (α : Type) where
  val : α
  next : Nat
  prev : Nat

variable {α : Type}

/-- The pointer a list of nodes is entered at, `nx` when it is empty. -/
def headPtr (nx : Nat) : List (Nat × α) → Nat
  | []     => nx
  | x :: _ => x.1

/-- The pointer a list of nodes ends at, `pv` when it is empty. -/
def lastPtr (pv : Nat) : List (Nat × α) → Nat
  | []     => pv
  | x :: t => lastPtr x.1 t

def ptrs (l : List (Nat × α)) : List Nat := l.map Prod.fst

def Seg (m : Nat → Option (Node α)) (nx : Nat) : Nat → List (Nat × α) → Prop
  | _,  []     => True
  | pv, x :: t => m x.1 = some ⟨x.2, headPtr nx t, pv⟩ ∧ Seg m nx x.1 t

@[simp] theorem headPtr_nil (nx : Nat) : headPtr nx ([] : List (Nat × α)) = nx := rfl
@[simp] theorem headPtr_cons (nx : Nat) (x : Nat × α) (t : List (Nat × α)) : headPtr nx (x :: t) = x.1 := rfl
@[simp] theorem lastPtr_nil (pv : Nat) : lastPtr pv ([] : List (Nat × α)) = pv := rfl
@[simp] theorem lastPtr_cons (pv : Nat) (x : Nat × α) (t : List (Nat × α)) :
    lastPtr pv (x :: t) = lastPtr x.1 t := rfl
@[simp] theorem ptrs_nil : ptrs ([] : List (Nat × α)) = [] := rfl
@[simp] theorem ptrs_cons (x : Nat × α) (t : List (Nat × α)) : ptrs (x :: t) = x.1 :: ptrs t := rfl
@[simp] theorem ptrs_append (A B : List (Nat × α)) : ptrs (A ++ B) = ptrs A ++ ptrs B := List.map_append

theorem headPtr_append (nx : Nat) (A B : List (Nat × α)) : headPtr nx (A ++ B) = headPtr (headPtr nx B) A := by
  cases A <;> rfl

theorem lastPtr_append : ∀ (A B : List (Nat × α)) (pv : Nat), lastPtr pv (A ++ B) = lastPtr (lastPtr pv A) B
  | [], _, _ => rfl
  | x :: A, B, _ => lastPtr_append A B x.1

theorem headPtr_mem {nx : Nat} : ∀ {l : List (Nat × α)}, l ≠ [] → headPtr nx l ∈ ptrs l
  | [], h => absurd rfl h
  | x :: t, _ => by simp

theorem lastPtr_mem : ∀ {l : List (Nat × α)} {pv : Nat}, l ≠ [] → lastPtr pv l ∈ ptrs l
  | [], _, h => absurd rfl h
  | [x], _, _ => by simp
  | x :: y :: t, _, _ => by
    have := @lastPtr_mem (y :: t) x.1 (by simp)
    simp only [lastPtr_cons, ptrs_cons, List.mem_cons] at this ⊢
    exact Or.inr this

/-- A segment splits where its links do. -/
theorem seg_append (m : Nat → Option (Node α)) (nx : Nat) : ∀ (A B : List (Nat × α)) (pv : Nat),
    Seg m nx pv (A ++ B) ↔ Seg m (headPtr nx B) pv A ∧ Seg m nx (lastPtr pv A) B
  | [], B, pv => by simp [Seg]
  | x :: A, B, pv => by
    simp only [List.cons_append, Seg, seg_append m nx A B x.1, headPtr_append, lastPtr_cons]
    exact and_assoc.symm

/-- Every node of a segment is allocated, with its payload. -/
theorem Seg.cell {m : Nat → Option (Node α)} {nx : Nat} : ∀ {l : List (Nat × α)} {pv : Nat}, Seg m nx pv l →
    ∀ x ∈ l, ∃ a b, m x.1 = some ⟨x.2, a, b⟩
  | y :: t, pv, h, x, hx => by
    rcases List.mem_cons.1 hx with rfl | hx
    · exact ⟨_, _, h.1⟩
    · exact h.2.cell x hx

theorem Seg.lt_brk {h : Heap (Node α)} {nx pv : Nat} {l : List (Nat × α)} (hs : Seg h.cell nx pv l) {p : Nat}
    (hp : p ∈ ptrs l) : p < h.brk := by
  obtain ⟨x, hx, rfl⟩ := List.mem_map.1 hp
  obtain ⟨a, b, hc⟩ := hs.cell x hx
  exact h.lt_brk hc

theorem Seg.ne_zero {h : Heap (Node α)} {nx pv : Nat} {l : List (Nat × α)} (hs : Seg h.cell nx pv l) {p : Nat}
    (hp : p ∈ ptrs l) : p ≠ 0 := by
  obtain ⟨x, hx, rfl⟩ := List.mem_map.1 hp
  obtain ⟨a, b, hc⟩ := hs.cell x hx
  exact h.ne_zero hc

theorem Seg.brk_not_mem {h : Heap (Node α)} {nx pv : Nat} {l : List (Nat × α)} (hs : Seg h.cell nx pv l) :
    h.brk ∉ ptrs l := fun hp => Nat.lt_irrefl _ (hs.lt_brk hp)

theorem not_mem_of_nodup_mid {A C : List (Nat × α)} {p : Nat} {v : α} (hn : (ptrs (A ++ (p, v) :: C)).Nodup) :
    p ∉ ptrs (A ++ C) ∧ (ptrs (A ++ C)).Nodup := by
  simp only [ptrs_append, ptrs_cons] at hn ⊢
  exact List.nodup_cons.1 ((List.perm_middle.nodup_iff).1 hn)

/-- The head of a list that loses the node `p`, as the source computes it. -/
theorem headPtr_cut {A C : List (Nat × α)} {p : Nat} {v : α} (hp : p ∉ ptrs (A ++ C)) :
    (if p = headPtr 0 (A ++ (p, v) :: C) then headPtr 0 C else headPtr 0 (A ++ (p, v) :: C)) =
      headPtr 0 (A ++ C) := by
  cases A with
  | nil => simp
  | cons a A' =>
    rw [if_neg]
    · rfl
    · intro h; exact hp (by simp at h; simp [h])

theorem lastPtr_cut {A C : List (Nat × α)} {p : Nat} {v : α} (hp : p ∉ ptrs (A ++ C)) :
    (if p = lastPtr 0 (A ++ (p, v) :: C) then lastPtr 0 A else lastPtr 0 (A ++ (p, v) :: C)) =
      lastPtr 0 (A ++ C) := by
  rw [lastPtr_append, lastPtr_append, lastPtr_cons]
  cases C with
  | nil => simp
  | cons c C' =>
    rw [if_neg]
    · rfl
    · intro hc
      have : lastPtr p (c :: C') ∈ ptrs (A ++ (c :: C')) := by
        rw [ptrs_append]; exact List.mem_append_right _ (lastPtr_mem (by simp))
      exact hp (hc ▸ this)

/-- **A change outside a segment leaves it alone.** -/
theorem Seg.frame {m m' : Nat → Option (Node α)} {nx : Nat} : ∀ {l : List (Nat × α)} {pv : Nat}, Seg m nx pv l →
    (∀ p ∈ ptrs l, m' p = m p) → Seg m' nx pv l
  | [], _, _, _ => trivial
  | x :: t, _, h, hm => by
    refine ⟨?_, h.2.frame (fun p hp => hm p (by simp [hp]))⟩
    rw [hm x.1 (by simp)]; exact h.1

theorem Seg.upd_of_not_mem {m : Nat → Option (Node α)} {nx pv p : Nat} {l : List (Nat × α)} {b : Option (Node α)}
    (h : Seg m nx pv l) (hp : p ∉ ptrs l) : Seg (update m p b) nx pv l := by
  refine h.frame (fun q hq => ?_)
  have hqp : q ≠ p := fun hqp => hp (hqp ▸ hq)
  rw [update_of_ne hqp]

/-- Writing the first node's `prev` re-enters the segment. -/
theorem Seg.setPrev {m : Nat → Option (Node α)} {nx pv : Nat} {x : Nat × α} {t : List (Nat × α)} (pv' : Nat)
    (h : Seg m nx pv (x :: t)) (hx : x.1 ∉ ptrs t) :
    Seg (update m x.1 (some ⟨x.2, headPtr nx t, pv'⟩)) nx pv' (x :: t) :=
  ⟨by simp, h.2.upd_of_not_mem hx⟩

/-- Writing the last node's `next` leaves the segment elsewhere. -/
theorem Seg.setNext {m : Nat → Option (Node α)} {nx pv : Nat} {x : Nat × α} {A : List (Nat × α)} (nx' : Nat)
    (h : Seg m nx pv (A ++ [x])) (hx : x.1 ∉ ptrs A) :
    Seg (update m x.1 (some ⟨x.2, nx', lastPtr pv A⟩)) nx' pv (A ++ [x]) := by
  rw [seg_append] at h ⊢
  exact ⟨h.1.upd_of_not_mem hx, by simp [Seg]⟩

/-- Writing a node's payload keeps its place. -/
theorem Seg.setVal {m : Nat → Option (Node α)} {nx pv p : Nat} {v : α} {A C : List (Nat × α)} (v' : α)
    (h : Seg m nx pv (A ++ (p, v) :: C)) (hp : p ∉ ptrs (A ++ C)) :
    Seg (update m p (some ⟨v', headPtr nx C, lastPtr pv A⟩)) nx pv (A ++ (p, v') :: C) := by
  rw [seg_append] at h ⊢
  simp only [ptrs_append, List.mem_append, not_or] at hp
  refine ⟨h.1.upd_of_not_mem hp.1, by simp, h.2.2.upd_of_not_mem hp.2⟩

/-- `if (p != NULL) p->next = v;` -/
def Heap.linkNext (h : Heap (Node α)) (p v : Nat) : Option (Heap (Node α)) :=
  if p ≠ 0 then h.modify p (fun c => { c with next := v }) else some h

/-- `if (p != NULL) p->prev = v;` -/
def Heap.linkPrev (h : Heap (Node α)) (p v : Nat) : Option (Heap (Node α)) :=
  if p ≠ 0 then h.modify p (fun c => { c with prev := v }) else some h

/-- The last node of a list, if there is one, is made to leave elsewhere. -/
theorem Heap.linkNext_last (h : Heap (Node α)) {nx : Nat} (nx' : Nat) : ∀ {A : List (Nat × α)},
    Seg h.cell nx 0 A → (ptrs A).Nodup →
    ∃ h', h.linkNext (lastPtr 0 A) nx' = some h' ∧ Seg h'.cell nx' 0 A ∧ h'.brk = h.brk ∧
      ∀ q, q ∉ ptrs A → h'.cell q = h.cell q := by
  intro A hs hn
  rcases List.eq_nil_or_concat A with rfl | ⟨A', x, rfl⟩
  · exact ⟨h, by simp [Heap.linkNext], trivial, rfl, fun _ _ => rfl⟩
  · rw [List.concat_eq_append] at hs hn ⊢
    have hx : x.1 ∉ ptrs A' := by
      intro hm
      simp only [ptrs_append, List.nodup_append] at hn
      exact hn.2.2 _ hm _ (by simp) rfl
    have hc : h.cell x.1 = some ⟨x.2, nx, lastPtr 0 A'⟩ := by
      rw [seg_append] at hs; exact hs.2.1
    obtain ⟨h', hm, hcell, hbrk⟩ := h.modify_of_cell (fun c => { c with next := nx' }) hc
    refine ⟨h', ?_, ?_, hbrk, ?_⟩
    · rw [lastPtr_append, Heap.linkNext]
      simp [h.ne_zero hc, hm]
    · rw [hcell]; exact hs.setNext nx' hx
    · intro q hq
      rw [hcell, update_of_ne]
      rintro rfl
      exact hq (by simp)

/-- The first node of a list, if there is one, is made to be entered from elsewhere. -/
theorem Heap.linkPrev_head (h : Heap (Node α)) {pv : Nat} (pv' : Nat) : ∀ {B : List (Nat × α)},
    Seg h.cell 0 pv B → (ptrs B).Nodup →
    ∃ h', h.linkPrev (headPtr 0 B) pv' = some h' ∧ Seg h'.cell 0 pv' B ∧ h'.brk = h.brk ∧
      ∀ q, q ∉ ptrs B → h'.cell q = h.cell q
  | [], _, _ => ⟨h, by simp [Heap.linkPrev], trivial, rfl, fun _ _ => rfl⟩
  | x :: t, hs, hn => by
    obtain ⟨h', hm, hcell, hbrk⟩ := h.modify_of_cell (fun c => { c with prev := pv' }) hs.1
    refine ⟨h', ?_, ?_, hbrk, ?_⟩
    · simp [Heap.linkPrev, h.ne_zero hs.1, hm]
    · rw [hcell]; exact hs.setPrev pv' (by simp at hn; exact hn.1)
    · intro q hq
      rw [hcell, update_of_ne]
      rintro rfl
      exact hq (by simp)

/-- `node->prev`'s `next` and `node->next`'s `prev` skip `node`, whose own links are kept. -/
def Heap.unlink (h : Heap (Node α)) (p : Nat) : Option (Heap (Node α)) := do
  let n ← h.cell p
  let h ← h.linkNext n.prev n.next
  let n ← h.cell p
  h.linkPrev n.next n.prev

/-- **Unlinking a node joins what stands before it to what stands after it.** -/
theorem Heap.unlink_seg (h : Heap (Node α)) {A B : List (Nat × α)} {p : Nat} {v : α}
    (hs : Seg h.cell 0 0 (A ++ (p, v) :: B)) (hn : (ptrs (A ++ (p, v) :: B)).Nodup) :
    ∃ h', h.unlink p = some h' ∧ Seg h'.cell 0 0 (A ++ B) ∧ h'.cell p = h.cell p ∧ h'.brk = h.brk ∧
      ∀ q, q ∉ ptrs (A ++ B) → h'.cell q = h.cell q := by
  simp only [ptrs_append, ptrs_cons, List.nodup_append, List.nodup_cons, List.mem_cons] at hn
  obtain ⟨hnA, ⟨hpB, hnB⟩, hAB⟩ := hn
  have hpA : p ∉ ptrs A := fun hm => hAB p hm p (Or.inl rfl) rfl
  rw [seg_append] at hs
  obtain ⟨hA, hc, hB⟩ := hs
  obtain ⟨h₁, e₁, s₁, b₁, f₁⟩ := h.linkNext_last (headPtr 0 B) hA hnA
  have hB₁ : Seg h₁.cell 0 p B := hB.frame (fun q hq => f₁ q (fun hm => hAB q hm q (Or.inr hq) rfl))
  obtain ⟨h₂, e₂, s₂, b₂, f₂⟩ := h₁.linkPrev_head (lastPtr 0 A) hB₁ hnB
  refine ⟨h₂, ?_, ?_, ?_, by rw [b₂, b₁], ?_⟩
  · simp only [Heap.unlink, hc, Option.bind_eq_bind, Option.bind_some, e₁, f₁ p hpA, e₂]
  · rw [seg_append]
    exact ⟨s₁.frame (fun q hq => f₂ q (fun hm => hAB q hq q (Or.inr hm) rfl)), s₂⟩
  · rw [f₂ p hpB, f₁ p hpA]
  · intro q hq
    simp only [ptrs_append, List.mem_append, not_or] at hq
    rw [f₂ q hq.2, f₁ q hq.1]

/-- **A new cell that points at both neighbours, which are made to point at it, stands between them.** -/
theorem Heap.insert_after (h : Heap (Node α)) {pv : Nat} {A C : List (Nat × α)} {x : Nat × α} (v : α)
    (hs : Seg h.cell 0 pv (A ++ x :: C)) (hn : (ptrs (A ++ x :: C)).Nodup) :
    ∃ h₁ h₂, (h.malloc ⟨v, headPtr 0 C, x.1⟩).linkPrev (headPtr 0 C) h.brk = some h₁ ∧
      h₁.modify x.1 (fun c => { c with next := h.brk }) = some h₂ ∧
      Seg h₂.cell 0 pv (A ++ x :: (h.brk, v) :: C) := by
  have hb := hs.brk_not_mem
  have hs₀ : Seg (h.malloc ⟨v, headPtr 0 C, x.1⟩).cell 0 pv (A ++ x :: C) := hs.upd_of_not_mem hb
  simp only [ptrs_append, ptrs_cons, List.nodup_append, List.nodup_cons, List.mem_cons, List.mem_append,
    not_or] at hn hb
  obtain ⟨-, ⟨hxC, hnC⟩, hAC⟩ := hn
  obtain ⟨hbA, hbx, hbC⟩ := hb
  have hxA : x.1 ∉ ptrs A := fun hm => hAC _ hm _ (Or.inl rfl) rfl
  obtain ⟨sA, sx, sC⟩ := (seg_append _ _ _ _ _).1 hs₀
  obtain ⟨h₁, e₁, s₁, -, f₁⟩ := (h.malloc ⟨v, headPtr 0 C, x.1⟩).linkPrev_head h.brk sC hnC
  have cx₁ := (f₁ x.1 hxC).trans sx
  obtain ⟨h₂, e₂, c₂, -⟩ := h₁.modify_of_cell (fun c => { c with next := h.brk }) cx₁
  refine ⟨h₁, h₂, e₁, e₂, (seg_append _ _ _ _ _).2 ⟨?_, ?_, ?_, ?_⟩⟩
  · refine sA.frame (fun q hq => ?_)
    have hqx : q ≠ x.1 := fun h => hxA (h ▸ hq)
    rw [c₂, update_of_ne hqx, f₁ q (fun hm => hAC q hq q (Or.inr hm) rfl)]
  · rw [c₂, update_self]; rfl
  · show h₂.cell h.brk = _
    rw [c₂, update_of_ne hbx, f₁ _ hbC, Heap.malloc_cell, update_self]
  · rw [c₂]; exact s₁.upd_of_not_mem hxC

/-! ## Walks -/

/-- The pointers and values met from `p` on, following `link` up to `NULL`; `none` if a pointer is not allocated or
`fuel` cells are not all. -/
def walk {β γ : Type} (cell : Nat → Option β) (link : β → Nat) (val : β → γ) : Nat → Nat → Option (List (Nat × γ))
  | 0,        p => if p = 0 then some [] else none
  | fuel + 1, p =>
    if p = 0 then some []
    else do
      let c ← cell p
      let r ← walk cell link val fuel (link c)
      some ((p, val c) :: r)

theorem Heap.walk_null {β γ : Type} (h : Heap β) (link : β → Nat) (val : β → γ) (fuel : Nat) :
    walk h.cell link val fuel 0 = some [] := by
  cases fuel <;> rfl

theorem Heap.walk_cons {β γ : Type} (h : Heap β) {link : β → Nat} {val : β → γ} {fuel p : Nat} {c : β}
    {r : List (Nat × γ)} (hc : h.cell p = some c) (hr : walk h.cell link val fuel (link c) = some r) :
    walk h.cell link val (fuel + 1) p = some ((p, val c) :: r) := by
  rw [walk, if_neg (h.ne_zero hc), hc]
  simp only [Option.bind_eq_bind, Option.bind_some, hr]

theorem Seg.walk_next {h : Heap (Node α)} : ∀ {l : List (Nat × α)} {pv : Nat}, Seg h.cell 0 pv l →
    walk h.cell Node.next Node.val l.length (headPtr 0 l) = some l
  | [],     _, _  => h.walk_null _ _ _
  | _ :: _, _, hs => h.walk_cons hs.1 hs.2.walk_next

/-- The same nodes the other way. -/
theorem Seg.walk_prev {h : Heap (Node α)} {l : List (Nat × α)} : ∀ {nx : Nat}, Seg h.cell nx 0 l →
    walk h.cell Node.prev Node.val l.length (lastPtr 0 l) = some l.reverse := by
  induction l using List.reverseRecOn with
  | nil => exact fun _ => h.walk_null _ _ _
  | append_singleton A x ih =>
    intro nx hs
    obtain ⟨hA, hx⟩ := (seg_append _ _ _ _ _).1 hs
    rw [lastPtr_append, List.length_append, List.reverse_append]
    exact h.walk_cons hx.1 (ih hA)

end Cells
end Bb
