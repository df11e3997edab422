import BlueBridge.VmemHash
/-!
# VmemDll — the list of LRU and FFIFO is the list of its keys

`DllRep l L` says that `l` is the list of nodes `L` (pointer and key, most recent first), linked both ways between its
head and its tail and counted.  Each helper of the source is one edit of `L`.
-/
namespace Bb
namespace Vmem

open Cells
open Function (update update_self update_of_ne)

structure DllRep (l : DllList) (L : List (Nat × Nat)) : Prop where
  seg : Seg l.nodes.cell 0 0 L
  head : l.head = headPtr 0 L
  tail : l.tail = lastPtr 0 L
  count : l.count = L.length
  nodup : (ptrs L).Nodup

theorem dllRep_calloc : DllRep DllList.calloc [] := ⟨trivial, rfl, rfl, rfl, by simp⟩

/-- **A new node goes to the front.** -/
theorem createdllListNode_rep {l : DllList} {L : List (Nat × Nat)} (hr : DllRep l L) (key : Nat) :
    ∃ l', createdllListNode l key = some (l', l.nodes.brk) ∧ DllRep l' ((l.nodes.brk, key) :: L) := by
  have hfresh := hr.seg.brk_not_mem
  have hnd : (ptrs ((l.nodes.brk, key) :: L)).Nodup := by
    rw [ptrs_cons, List.nodup_cons]; exact ⟨hfresh, hr.nodup⟩
  have hseg : Seg (l.nodes.malloc ⟨key, l.head, 0⟩).cell 0 0 L := hr.seg.upd_of_not_mem hfresh
  unfold createdllListNode
  cases L with
  | nil =>
    have h0 : l.count = 0 := hr.count
    refine ⟨⟨l.nodes.brk, l.nodes.brk, l.count + 1, l.nodes.malloc ⟨key, l.head, 0⟩⟩, ?_, ?_⟩
    · rw [h0]; rfl
    · refine ⟨⟨?_, trivial⟩, rfl, rfl, by rw [h0]; rfl, hnd⟩
      rw [Heap.malloc_cell, hr.head]; simp
  | cons x t =>
    have hpos : l.count > 0 := by rw [hr.count]; simp
    have hx : x.1 ∉ ptrs t := by have := hr.nodup; simp at this; exact this.1
    obtain ⟨h', e', c', b'⟩ := (l.nodes.malloc ⟨key, l.head, 0⟩).modify_of_cell
      (fun c => { c with prev := l.nodes.brk }) hseg.1
    refine ⟨⟨l.nodes.brk, l.tail, l.count + 1, h'⟩, ?_, ?_⟩
    · rw [hr.head] at e' ⊢
      simp only [if_pos hpos]
      rw [headPtr_cons] at e' ⊢
      rw [e']; rfl
    · refine ⟨⟨?_, ?_⟩, rfl, hr.tail, by rw [hr.count]; rfl, hnd⟩
      · show h'.cell _ = _
        have hbx : l.nodes.brk ≠ x.1 := fun hb => hfresh (by rw [hb]; simp)
        rw [c', update_of_ne hbx, Heap.malloc_cell, hr.head]
        simp
      · show Seg h'.cell 0 l.nodes.brk (x :: t)
        rw [c']; exact hseg.setPrev l.nodes.brk hx

/-- **A node moves to the front**, from wherever it stands. -/
theorem moveListNodeToFront_rep {l : DllList} {A C : List (Nat × Nat)} {p k : Nat}
    (hr : DllRep l (A ++ (p, k) :: C)) :
    ∃ l', moveListNodeToFront l p = some l' ∧ DllRep l' ((p, k) :: (A ++ C)) := by
  have hnd := hr.nodup
  cases A with
  | nil =>
    refine ⟨l, ?_, hr⟩
    unfold moveListNodeToFront
    rw [if_pos (by rw [hr.head]; rfl)]
  | cons a A' =>
    -- the node is behind the head `a`: it is unlinked, then entered before `a`
    have hne : l.head ≠ p := by
      rw [hr.head]
      simp only [List.cons_append, headPtr_cons]
      rintro rfl
      simp at hnd
    obtain ⟨h₁, e₁, s₁, p₁, b₁, f₁⟩ := l.nodes.unlink_seg hr.seg hnd
    have hcp : l.nodes.cell p = some ⟨k, headPtr 0 C, lastPtr 0 (a :: A')⟩ := ((seg_append _ _ _ _ _).1 hr.seg).2.1
    obtain ⟨hp, hnAC⟩ := not_mem_of_nodup_mid hnd
    have hhead : l.head = a.1 := by rw [hr.head]; rfl
    obtain ⟨h₂, e₂, c₂, b₂⟩ := h₁.modify_of_cell (fun c => { c with next := a.1, prev := 0 }) (p₁.trans hcp)
    have s₂ : Seg h₂.cell 0 0 ((a :: A') ++ C) := by rw [c₂]; exact s₁.upd_of_not_mem hp
    obtain ⟨h₃, e₃, c₃, b₃⟩ := h₂.modify_of_cell (fun c => { c with prev := p }) s₂.1
    have hcount : l.count > 1 := by
      rw [hr.count, List.length_append, List.length_cons, List.length_cons]
      omega
    have htail : (if l.tail = p then lastPtr 0 (a :: A') else l.tail) = lastPtr 0 ((a :: A') ++ C) := by
      simp only [eq_comm (a := l.tail)]
      rw [hr.tail]; exact lastPtr_cut hp
    refine ⟨{ l with head := p, tail := lastPtr 0 ((a :: A') ++ C), nodes := h₃ }, ?_, ?_⟩
    · unfold moveListNodeToFront
      rw [if_neg hne, e₁]
      simp only [Option.bind_eq_bind, Option.bind_some, p₁, hcp, hhead, e₂, if_pos hcount, e₃, htail]
    · refine ⟨⟨?_, ?_⟩, rfl, rfl, ?_, List.nodup_cons.2 ⟨hp, hnAC⟩⟩
      · show h₃.cell p = _
        have hpa : p ≠ a.1 := fun h => hp (by simp [h])
        rw [c₃, update_of_ne hpa, c₂]
        simp
      · show Seg h₃.cell 0 p ((a :: A') ++ C)
        rw [c₃]
        exact s₂.setPrev p (by simp at hnAC; simpa using hnAC.1)
      · rw [hr.count]; simp; omega

/-- **A deleted node leaves the rest linked.** -/
theorem deletedllListNode_rep {l : DllList} {A C : List (Nat × Nat)} {p k : Nat} (hr : DllRep l (A ++ (p, k) :: C)) :
    ∃ l', deletedllListNode l p = some l' ∧ DllRep l' (A ++ C) := by
  have hnd := hr.nodup
  obtain ⟨h₁, e₁, s₁, p₁, b₁, f₁⟩ := l.nodes.unlink_seg hr.seg hnd
  have hcp : l.nodes.cell p = some ⟨k, headPtr 0 C, lastPtr 0 A⟩ := ((seg_append _ _ _ _ _).1 hr.seg).2.1
  obtain ⟨hp, hnAC⟩ := not_mem_of_nodup_mid hnd
  obtain ⟨h₂, e₂, c₂, b₂⟩ := h₁.free_of_cell (p₁.trans hcp)
  have hhead : (if p = l.head then headPtr 0 C else l.head) = headPtr 0 (A ++ C) := by
    rw [hr.head]; exact headPtr_cut hp
  have htail : (if p = l.tail then lastPtr 0 A else l.tail) = lastPtr 0 (A ++ C) := by
    rw [hr.tail]; exact lastPtr_cut hp
  refine ⟨⟨headPtr 0 (A ++ C), lastPtr 0 (A ++ C), l.count - 1, h₂⟩, ?_, ?_⟩
  · unfold deletedllListNode
    simp only [hcp, e₁, Option.bind_eq_bind, Option.bind_some, e₂, hhead, htail]
  · refine ⟨?_, rfl, rfl, ?_, hnAC⟩
    · show Seg h₂.cell 0 0 (A ++ C)
      rw [c₂]; exact s₁.upd_of_not_mem hp
    · rw [hr.count]; simp

end Vmem
end Bb
