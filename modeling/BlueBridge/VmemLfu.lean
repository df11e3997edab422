import BlueBridge.VmemDll
/-!
# VmemLfu — the frequency list is a list of buckets

`FreqLinks f pv F` says that `f` is the list of buckets `F`, each with its own list of nodes, every link of both levels
in place; `pv` is what the first bucket's `prev` holds.  `FreqRep` adds what holds between two faults: no bucket is
empty, the use counts increase and the nodes are counted.  `deletelfuListNode` steps over an emptied head bucket and
leaves its successor's `prev` behind, so `pv` is not `NULL` until `createlfuListNode` puts a bucket in front of it.
-/
namespace Bb
namespace Vmem

open Cells
open Function (update update_self update_of_ne)

structure Bucket where
  ptr : Nat
  useCount : Nat
  nodes : List (Nat × Nat)

def Bucket.cell (b : Bucket) : Nat × FreqVal := (b.ptr, ⟨b.useCount, headPtr 0 b.nodes, lastPtr 0 b.nodes⟩)

def bucketCells (F : List Bucket) : List (Nat × FreqVal) := F.map Bucket.cell

def nodeCells (parent : Nat) (l : List (Nat × Nat)) : List (Nat × LfuVal) := l.map (fun x => (x.1, ⟨x.2, parent⟩))

/-- All nodes, bucket by bucket. -/
def lfuNodes (F : List Bucket) : List (Nat × Nat) := F.flatMap Bucket.nodes

structure FreqLinks (f : FreqList) (pv : Nat) (F : List Bucket) : Prop where
  seg : Seg f.freqs.cell 0 pv (bucketCells F)
  head : f.head = headPtr 0 (bucketCells F)
  nodes : ∀ b ∈ F, Seg f.nodes.cell 0 0 (nodeCells b.ptr b.nodes)
  bptrs : (F.map Bucket.ptr).Nodup
  nptrs : (ptrs (lfuNodes F)).Nodup

structure FreqRep (f : FreqList) (pv : Nat) (F : List Bucket) : Prop extends FreqLinks f pv F where
  full : ∀ b ∈ F, b.nodes ≠ []
  incr : F.Pairwise (fun b c => b.useCount < c.useCount)
  count : f.count = (lfuNodes F).length

theorem freqRep_calloc : FreqRep FreqList.calloc 0 [] where
  seg := trivial
  head := rfl
  nodes := fun _ hb => by cases hb
  bptrs := by simp
  nptrs := by simp [lfuNodes]
  full := fun _ hb => by cases hb
  incr := List.Pairwise.nil
  count := rfl

@[simp] theorem ptrs_nodeCells (q : Nat) (l : List (Nat × Nat)) : ptrs (nodeCells q l) = ptrs l := by
  simp [ptrs, nodeCells, Function.comp_def]

@[simp] theorem headPtr_nodeCells (q nx : Nat) (l : List (Nat × Nat)) : headPtr nx (nodeCells q l) = headPtr nx l := by
  cases l <;> rfl

@[simp] theorem lastPtr_nodeCells (q : Nat) : ∀ (l : List (Nat × Nat)) (pv : Nat),
    lastPtr pv (nodeCells q l) = lastPtr pv l
  | [], _ => rfl
  | x :: t, _ => lastPtr_nodeCells q t x.1

@[simp] theorem nodeCells_append (q : Nat) (A C : List (Nat × Nat)) :
    nodeCells q (A ++ C) = nodeCells q A ++ nodeCells q C := List.map_append

@[simp] theorem nodeCells_cons (q : Nat) (x : Nat × Nat) (l : List (Nat × Nat)) :
    nodeCells q (x :: l) = (x.1, ⟨x.2, q⟩) :: nodeCells q l := rfl

@[simp] theorem bucketCells_append (F G : List Bucket) : bucketCells (F ++ G) = bucketCells F ++ bucketCells G :=
  List.map_append

@[simp] theorem bucketCells_cons (b : Bucket) (F : List Bucket) : bucketCells (b :: F) = b.cell :: bucketCells F := rfl

@[simp] theorem ptrs_bucketCells (F : List Bucket) : ptrs (bucketCells F) = F.map Bucket.ptr := by
  simp [ptrs, bucketCells, Bucket.cell, Function.comp_def]

@[simp] theorem lfuNodes_append (F G : List Bucket) : lfuNodes (F ++ G) = lfuNodes F ++ lfuNodes G := by simp [lfuNodes]

@[simp] theorem lfuNodes_cons (b : Bucket) (F : List Bucket) : lfuNodes (b :: F) = b.nodes ++ lfuNodes F := by
  simp [lfuNodes]

theorem mem_ptrs_lfuNodes {F : List Bucket} {p : Nat} : p ∈ ptrs (lfuNodes F) ↔ ∃ b ∈ F, p ∈ ptrs b.nodes := by
  simp only [ptrs, lfuNodes, List.mem_map, List.mem_flatMap]
  constructor
  · rintro ⟨x, ⟨b, hb, hx⟩, rfl⟩; exact ⟨b, hb, x, hx, rfl⟩
  · rintro ⟨b, hb, x, hx, rfl⟩; exact ⟨x, ⟨b, hb, hx⟩, rfl⟩

theorem FreqLinks.brk_not_mem {f : FreqList} {pv : Nat} {F : List Bucket} (hl : FreqLinks f pv F) :
    f.nodes.brk ∉ ptrs (lfuNodes F) := by
  intro hp
  obtain ⟨b, hb, hp⟩ := mem_ptrs_lfuNodes.1 hp
  exact (hl.nodes b hb).brk_not_mem (by simpa using hp)

/-- What a node says of itself: its key, its bucket and its two neighbours. -/
theorem FreqLinks.node {f : FreqList} {pv : Nat} {F : List Bucket} (hl : FreqLinks f pv F) {b : Bucket} (hb : b ∈ F)
    {A C : List (Nat × Nat)} {p k : Nat} (hn : b.nodes = A ++ (p, k) :: C) :
    f.nodes.cell p = some ⟨⟨k, b.ptr⟩, headPtr 0 C, lastPtr 0 A⟩ := by
  have hs := hl.nodes b hb
  rw [hn, nodeCells_append, nodeCells_cons, seg_append] at hs
  simpa using hs.2.1

/-- The cell of a bucket between its neighbours. -/
theorem FreqLinks.bucket {f : FreqList} {pv : Nat} {F G : List Bucket} {b : Bucket}
    (hl : FreqLinks f pv (F ++ b :: G)) : f.freqs.cell b.ptr =
      some ⟨⟨b.useCount, headPtr 0 b.nodes, lastPtr 0 b.nodes⟩, headPtr 0 (bucketCells G),
        lastPtr pv (bucketCells F)⟩ := by
  have hs := hl.seg
  rw [bucketCells_append, seg_append] at hs
  exact hs.2.1

theorem ptr_not_mem_of_nodup {F G : List Bucket} {b : Bucket} (hn : ((F ++ b :: G).map Bucket.ptr).Nodup) :
    b.ptr ∉ (F ++ G).map Bucket.ptr ∧ ((F ++ G).map Bucket.ptr).Nodup := by
  simp only [List.map_append, List.map_cons] at hn ⊢
  exact List.nodup_cons.1 ((List.perm_middle.nodup_iff).1 hn)

/-- The nodes of one bucket are in no other. -/
theorem FreqLinks.disjoint {f : FreqList} {pv : Nat} {F G : List Bucket} {b : Bucket} {p : Nat}
    (hl : FreqLinks f pv (F ++ b :: G)) (hp : p ∈ ptrs b.nodes) : p ∉ ptrs (lfuNodes (F ++ G)) := by
  intro hpc
  have hperm : (ptrs (lfuNodes (F ++ b :: G))).Perm (ptrs b.nodes ++ ptrs (lfuNodes (F ++ G))) := by
    simp only [lfuNodes_append, lfuNodes_cons, ptrs_append]
    exact List.perm_append_comm_assoc _ _ _
  exact (List.nodup_append.1 (hperm.nodup_iff.1 hl.nptrs)).2.2 p hp p hpc rfl

/-- **One bucket's nodes are exchanged**, all else in place. -/
theorem FreqLinks.setNodes {f f' : FreqList} {pv : Nat} {F G : List Bucket} {b : Bucket}
    (hl : FreqLinks f pv (F ++ b :: G)) (l : List (Nat × Nat)) (hh : f'.head = f.head)
    (hc : f'.freqs.cell = update f.freqs.cell b.ptr
      (some ⟨⟨b.useCount, headPtr 0 l, lastPtr 0 l⟩, headPtr 0 (bucketCells G), lastPtr pv (bucketCells F)⟩))
    (hs : Seg f'.nodes.cell 0 0 (nodeCells b.ptr l))
    (hf : ∀ q ∈ ptrs (lfuNodes (F ++ G)), f'.nodes.cell q = f.nodes.cell q)
    (hn : (ptrs (lfuNodes (F ++ ⟨b.ptr, b.useCount, l⟩ :: G))).Nodup) :
    FreqLinks f' pv (F ++ ⟨b.ptr, b.useCount, l⟩ :: G) := by
  refine ⟨?_, ?_, ?_, by simpa using hl.bptrs, hn⟩
  · have hseg := hl.seg
    rw [hc]
    simp only [bucketCells_append, bucketCells_cons] at hseg ⊢
    exact hseg.setVal _ (by rw [← bucketCells_append, ptrs_bucketCells]; exact (ptr_not_mem_of_nodup hl.bptrs).1)
  · rw [hh, hl.head]
    simp [headPtr_append, Bucket.cell]
  · intro c hcm
    have hother : c ∈ F ++ G → Seg f'.nodes.cell 0 0 (nodeCells c.ptr c.nodes) := fun hcm =>
      (hl.nodes c (by simp at hcm ⊢; exact hcm.imp_right Or.inr)).frame
        (fun q hq => hf q (mem_ptrs_lfuNodes.2 ⟨c, hcm, by simpa using hq⟩))
    rcases List.mem_append.1 hcm with hcm | hcm
    · exact hother (List.mem_append_left _ hcm)
    · rcases List.mem_cons.1 hcm with rfl | hcm
      · exact hs
      · exact hother (List.mem_append_right _ hcm)

/-- **A node leaves its bucket** and keeps its own cell. -/
theorem leaveFreq_links {f : FreqList} {pv : Nat} {F G : List Bucket} {b : Bucket}
    (hl : FreqLinks f pv (F ++ b :: G)) {A C : List (Nat × Nat)} {p k : Nat} (hn : b.nodes = A ++ (p, k) :: C) :
    ∃ f', leaveFreq f p = some f' ∧ FreqLinks f' pv (F ++ ⟨b.ptr, b.useCount, A ++ C⟩ :: G) ∧
      f'.nodes.cell p = f.nodes.cell p ∧ f'.head = f.head ∧ f'.count = f.count ∧ f'.freqs.brk = f.freqs.brk ∧
      p ∉ ptrs (lfuNodes (F ++ ⟨b.ptr, b.useCount, A ++ C⟩ :: G)) := by
  have hb : b ∈ F ++ b :: G := by simp
  have hcp := hl.node hb hn
  have hs := hl.nodes b hb
  rw [hn, nodeCells_append, nodeCells_cons] at hs
  have hperm : (ptrs (lfuNodes (F ++ b :: G))).Perm
      (p :: ptrs (lfuNodes (F ++ ⟨b.ptr, b.useCount, A ++ C⟩ :: G))) := by
    simp only [lfuNodes_append, lfuNodes_cons, hn, ptrs_append, ptrs_cons]
    refine List.Perm.trans ?_ List.perm_middle
    refine List.Perm.append_left _ ?_
    simp only [List.append_assoc, List.cons_append]
    exact List.perm_middle
  obtain ⟨hp, hnd⟩ := List.nodup_cons.1 (hperm.nodup_iff.1 hl.nptrs)
  have hpb : p ∉ ptrs (A ++ C) := fun h =>
    hp (mem_ptrs_lfuNodes.2 ⟨⟨b.ptr, b.useCount, A ++ C⟩, by simp, h⟩)
  have hnb : (ptrs b.nodes).Nodup := by
    have := hl.nptrs
    simp only [lfuNodes_append, lfuNodes_cons, ptrs_append, List.nodup_append] at this
    exact this.2.1.1
  obtain ⟨h₁, e₁, s₁, p₁, b₁, f₁⟩ := f.nodes.unlink_seg hs (by simpa [hn] using hnb)
  obtain ⟨h₂, e₂, c₂, b₂⟩ := f.freqs.modify_of_cell (fun q =>
    { q with val := { q.val with head := if q.val.head = p then headPtr 0 C else q.val.head,
                                 tail := if q.val.tail = p then lastPtr 0 A else q.val.tail } }) hl.bucket
  have hhead : (if headPtr 0 b.nodes = p then headPtr 0 C else headPtr 0 b.nodes) = headPtr 0 (A ++ C) := by
    rw [hn]; simp only [eq_comm (b := p)]; exact headPtr_cut hpb
  have htail : (if lastPtr 0 b.nodes = p then lastPtr 0 A else lastPtr 0 b.nodes) = lastPtr 0 (A ++ C) := by
    rw [hn]; simp only [eq_comm (b := p)]; exact lastPtr_cut hpb
  refine ⟨{ f with freqs := h₂, nodes := h₁ }, ?_, ?_, p₁, rfl, rfl, b₂, hp⟩
  · unfold leaveFreq
    simp only [hcp, Option.bind_eq_bind, Option.bind_some, e₁, e₂]
  · refine hl.setNodes (A ++ C) rfl ?_ (by rw [nodeCells_append]; exact s₁) ?_ hnd
    · rw [c₂, ← hhead, ← htail]
    · intro q hq
      refine f₁ q (fun hm => hl.disjoint ?_ hq)
      rw [hn]
      simp at hm ⊢
      exact hm.imp_right Or.inr

/-- **A node enters a bucket** in front of its nodes. -/
theorem enterFreq_links {f : FreqList} {pv : Nat} {F G : List Bucket} {b : Bucket}
    (hl : FreqLinks f pv (F ++ b :: G)) {p k : Nat} {q nx pr : Nat} (hp : p ∉ ptrs (lfuNodes (F ++ b :: G)))
    (hcp : f.nodes.cell p = some ⟨⟨k, q⟩, nx, pr⟩) :
    ∃ f', enterFreq f p b.ptr = some f' ∧ FreqLinks f' pv (F ++ ⟨b.ptr, b.useCount, (p, k) :: b.nodes⟩ :: G) ∧
      f'.head = f.head ∧ f'.count = f.count := by
  have hs := hl.nodes b (by simp)
  have hpb : p ∉ ptrs b.nodes := fun h => hp (mem_ptrs_lfuNodes.2 ⟨b, by simp, h⟩)
  have hnd : (ptrs (lfuNodes (F ++ ⟨b.ptr, b.useCount, (p, k) :: b.nodes⟩ :: G))).Nodup := by
    simp only [lfuNodes_append, lfuNodes_cons, ptrs_append, ptrs_cons, List.cons_append]
    refine (List.perm_middle.nodup_iff).2 (List.nodup_cons.2 ⟨by simpa using hp, by simpa using hl.nptrs⟩)
  have hnb : (ptrs b.nodes).Nodup := by
    have := hl.nptrs
    simp only [lfuNodes_append, lfuNodes_cons, ptrs_append, List.nodup_append] at this
    exact this.2.1.1
  obtain ⟨h₁, e₁, s₁, b₁, f₁⟩ := f.nodes.linkPrev_head p hs (by simpa using hnb)
  rw [headPtr_nodeCells] at e₁
  have hcp₁ : h₁.cell p = some ⟨⟨k, q⟩, nx, pr⟩ := (f₁ p (by simpa using hpb)).trans hcp
  obtain ⟨h₂, e₂, c₂, b₂⟩ := h₁.modify_of_cell
    (fun c => ⟨{ c.val with parent := b.ptr }, headPtr 0 b.nodes, 0⟩) hcp₁
  obtain ⟨h₃, e₃, c₃, b₃⟩ := f.freqs.modify_of_cell (fun c =>
    { c with val := { c.val with head := p, tail := if c.val.tail = 0 then p else c.val.tail } }) hl.bucket
  have htail : (if lastPtr 0 b.nodes = 0 then p else lastPtr 0 b.nodes) = lastPtr p b.nodes := by
    cases hbn : b.nodes with
    | nil => simp
    | cons x t =>
      have : lastPtr 0 (x :: t) ∈ ptrs (nodeCells b.ptr b.nodes) := by
        rw [ptrs_nodeCells, hbn]; exact lastPtr_mem (by simp)
      rw [if_neg (hs.ne_zero this)]; rfl
  refine ⟨{ f with freqs := h₃, nodes := h₂ }, ?_, ?_, rfl, rfl⟩
  · unfold enterFreq
    simp only [hl.bucket, Option.bind_eq_bind, Option.bind_some, e₁, e₂, e₃]
  · refine hl.setNodes ((p, k) :: b.nodes) rfl ?_ ?_ ?_ hnd
    · rw [c₃, lastPtr_cons, ← htail]; rfl
    · show Seg h₂.cell 0 0 _
      rw [nodeCells_cons, c₂]
      exact ⟨by simp, s₁.upd_of_not_mem (by simpa using hpb)⟩
    · intro r hr
      show h₂.cell r = _
      have hrp : r ≠ p := by
        rintro rfl
        exact hp (by simp at hr ⊢; exact hr.imp_right Or.inr)
      rw [c₂, update_of_ne hrp, f₁ r]
      exact fun hm => hl.disjoint (by simpa using hm) hr

/-- A bucket left with the nodes `l` stays only if there are any. -/
def keepBucket (b : Bucket) (l : List (Nat × Nat)) : List Bucket := if l = [] then [] else [⟨b.ptr, b.useCount, l⟩]

@[simp] theorem keepBucket_nil (b : Bucket) : keepBucket b [] = [] := rfl

theorem keepBucket_of_ne (b : Bucket) {l : List (Nat × Nat)} (hl : l ≠ []) :
    keepBucket b l = [⟨b.ptr, b.useCount, l⟩] := if_neg hl

@[simp] theorem lfuNodes_keepBucket (b : Bucket) (l : List (Nat × Nat)) : lfuNodes (keepBucket b l) = l := by
  unfold keepBucket
  by_cases hl : l = []
  · simp [hl, lfuNodes]
  · simp [hl, lfuNodes]

theorem mem_keepBucket {b c : Bucket} {l : List (Nat × Nat)} (hc : c ∈ keepBucket b l) :
    c.useCount = b.useCount ∧ c.nodes ≠ [] := by
  unfold keepBucket at hc
  split at hc
  · cases hc
  · rename_i hl; simp at hc; subst hc; exact ⟨rfl, hl⟩

theorem keepBucket_incr (b : Bucket) (l : List (Nat × Nat)) :
    (keepBucket b l).Pairwise (fun b c => b.useCount < c.useCount) := by
  unfold keepBucket
  split <;> simp

/-- The buckets after `x` has gone to the bucket of use count `uc`, made at `ptr` when there is none. -/
def addNext (ptr uc : Nat) (x : Nat × Nat) : List Bucket → List Bucket
  | []     => [⟨ptr, uc, [x]⟩]
  | c :: G => if c.useCount > uc then ⟨ptr, uc, [x]⟩ :: c :: G else ⟨c.ptr, c.useCount, x :: c.nodes⟩ :: G

@[simp] theorem lfuNodes_addNext (ptr uc : Nat) (x : Nat × Nat) (F : List Bucket) :
    lfuNodes (addNext ptr uc x F) = x :: lfuNodes F := by
  cases F with
  | nil => rfl
  | cons c G => rw [addNext]; split <;> simp

theorem addNext_full {ptr uc : Nat} {x : Nat × Nat} {F : List Bucket} (hF : ∀ b ∈ F, b.nodes ≠ []) :
    ∀ b ∈ addNext ptr uc x F, b.nodes ≠ [] := by
  intro b hb
  cases F with
  | nil => simp [addNext] at hb; simp [hb]
  | cons c G =>
    rw [addNext] at hb
    split at hb
    · rcases List.mem_cons.1 hb with rfl | hb
      · simp
      · exact hF b hb
    · rcases List.mem_cons.1 hb with rfl | hb
      · simp
      · exact hF b (List.mem_cons_of_mem _ hb)

theorem addNext_incr (ptr : Nat) (x : Nat × Nat) {uc : Nat} {F : List Bucket}
    (hF : F.Pairwise (fun b c => b.useCount < c.useCount)) (hu : ∀ b ∈ F, uc ≤ b.useCount) :
    (addNext ptr uc x F).Pairwise (fun b c => b.useCount < c.useCount) ∧
      ∀ b ∈ addNext ptr uc x F, uc ≤ b.useCount := by
  cases F with
  | nil => simp [addNext]
  | cons c G =>
    rw [List.pairwise_cons] at hF
    have hc := hu c (by simp)
    rw [addNext]
    split
    · rename_i hgt
      refine ⟨List.pairwise_cons.2 ⟨?_, List.pairwise_cons.2 hF⟩, ?_⟩
      · intro d hd
        show uc < d.useCount
        rcases List.mem_cons.1 hd with rfl | hd
        · exact hgt
        · exact Nat.lt_trans hgt (hF.1 d hd)
      · intro d hd
        rcases List.mem_cons.1 hd with rfl | hd
        · exact Nat.le_refl _
        · exact hu d hd
    · refine ⟨List.pairwise_cons.2 ⟨hF.1, hF.2⟩, ?_⟩
      intro d hd
      rcases List.mem_cons.1 hd with rfl | hd
      · exact hc
      · exact hu d (List.mem_cons_of_mem _ hd)

/-- The bucket for one more use is there. -/
theorem makeNextFreq_found {f : FreqList} {pv : Nat} {F G : List Bucket} {b c : Bucket}
    (hl : FreqLinks f pv (F ++ b :: c :: G)) (hc : ¬ c.useCount > b.useCount + 1) : makeNextFreq f b.ptr = some f := by
  have hs := hl.seg
  rw [bucketCells_append, seg_append] at hs
  have hcc : f.freqs.cell c.ptr = some ⟨c.cell.2, headPtr 0 (bucketCells G), b.ptr⟩ := hs.2.2.1
  unfold makeNextFreq
  simp only [hl.bucket, Option.bind_eq_bind, Option.bind_some, bucketCells_cons, headPtr_cons]
  have hc0 : c.cell.1 ≠ 0 := f.freqs.ne_zero hcc
  rw [if_neg hc0]
  simp only [show f.freqs.cell c.cell.1 = _ from hcc, Option.bind_some]
  exact if_neg hc

/-- It is made: both ways of doing so allocate it between `b` and what follows. -/
theorem makeNextFreq_made {f : FreqList} {pv : Nat} {F G : List Bucket} {b : Bucket}
    (hl : FreqLinks f pv (F ++ b :: G)) (hgt : ∀ c G', G = c :: G' → c.useCount > b.useCount + 1) :
    ∃ h', makeNextFreq f b.ptr = some { f with freqs := h' } ∧
      Seg h'.cell 0 pv (bucketCells (F ++ b :: ⟨f.freqs.brk, b.useCount + 1, []⟩ :: G)) := by
  have hs := hl.seg
  rw [bucketCells_append, bucketCells_cons] at hs
  obtain ⟨h₁, h₂, e₁, e₂, s₂⟩ := f.freqs.insert_after ⟨b.useCount + 1, 0, 0⟩ hs
    (by rw [← bucketCells_cons, ← bucketCells_append, ptrs_bucketCells]; exact hl.bptrs)
  refine ⟨h₂, ?_, by simpa [Bucket.cell] using s₂⟩
  unfold makeNextFreq
  simp only [hl.bucket, Option.bind_eq_bind, Option.bind_some]
  cases G with
  | nil =>
    have e₁ : some (f.freqs.malloc _) = some h₁ := e₁
    cases e₁
    rw [show headPtr 0 (bucketCells []) = 0 from rfl, if_pos rfl]
    exact congrArg (Option.bind · _) e₂
  | cons c G' =>
    have hcc : f.freqs.cell c.ptr = some ⟨c.cell.2, headPtr 0 (bucketCells G'), b.ptr⟩ :=
      ((seg_append _ _ _ _ _).1 hs).2.2.1
    have hc0 : c.ptr ≠ 0 := f.freqs.ne_zero hcc
    rw [show headPtr 0 (bucketCells (c :: G')) = c.ptr from rfl] at e₁ ⊢
    rw [Heap.linkPrev, if_pos hc0] at e₁
    rw [if_neg hc0]
    simp only [hcc, Option.bind_some]
    rw [if_pos (show c.cell.2.useCount > _ from hgt c G' rfl)]
    simp only [show b.cell.1 = b.ptr from rfl] at e₁ e₂
    simp only [e₁, Option.bind_some, e₂]

/-- An empty bucket after `b`, all else in place. -/
theorem FreqLinks.insertEmpty {f : FreqList} {pv uc : Nat} {F G : List Bucket} {b : Bucket}
    (hl : FreqLinks f pv (F ++ b :: G)) {h' : Heap (Node FreqVal)}
    (hs : Seg h'.cell 0 pv (bucketCells (F ++ b :: ⟨f.freqs.brk, uc, []⟩ :: G))) :
    FreqLinks { f with freqs := h' } pv (F ++ b :: ⟨f.freqs.brk, uc, []⟩ :: G) := by
  have hnb : f.freqs.brk ∉ (F ++ b :: G).map Bucket.ptr := by
    have := hl.seg.brk_not_mem
    rwa [ptrs_bucketCells] at this
  refine ⟨hs, ?_, ?_, ?_, by simpa using hl.nptrs⟩
  · show f.head = _
    rw [hl.head]; simp [headPtr_append]
  · intro d hd
    rcases List.mem_append.1 hd with hd | hd
    · exact hl.nodes d (List.mem_append_left _ hd)
    · rcases List.mem_cons.1 hd with rfl | hd
      · exact hl.nodes d (by simp)
      · rcases List.mem_cons.1 hd with rfl | hd
        · trivial
        · exact hl.nodes d (List.mem_append_right _ (List.mem_cons_of_mem _ hd))
  · have hmid : ((F ++ b :: ⟨f.freqs.brk, uc, []⟩ :: G).map Bucket.ptr).Perm
        (f.freqs.brk :: (F ++ b :: G).map Bucket.ptr) := by
      simp only [List.map_append, List.map_cons]
      rw [← List.singleton_append, ← List.append_assoc]
      exact List.perm_middle.trans (by simp)
    exact (hmid.nodup_iff).2 (List.nodup_cons.2 ⟨hnb, hl.bptrs⟩)

/-- **The bucket after `b` is the one for one more use**, made empty if it was not there. -/
theorem makeNextFreq_links {f : FreqList} {pv : Nat} {F G : List Bucket} {b : Bucket}
    (hl : FreqLinks f pv (F ++ b :: G)) :
    ∃ f' c G', makeNextFreq f b.ptr = some f' ∧ FreqLinks f' pv (F ++ b :: c :: G') ∧ f'.nodes = f.nodes ∧
      f'.count = f.count ∧ lfuNodes (F ++ b :: c :: G') = lfuNodes (F ++ b :: G) ∧
      ∀ x, ⟨c.ptr, c.useCount, x :: c.nodes⟩ :: G' = addNext f.freqs.brk (b.useCount + 1) x G := by
  by_cases hnext : ∃ c G', G = c :: G' ∧ ¬ c.useCount > b.useCount + 1
  · obtain ⟨c, G', rfl, hc⟩ := hnext
    exact ⟨f, c, G', makeNextFreq_found hl hc, hl, rfl, rfl, rfl, fun x => by rw [addNext, if_neg hc]⟩
  · have hgt : ∀ c G', G = c :: G' → c.useCount > b.useCount + 1 := by
      intro c G' hG
      by_cases hc : c.useCount > b.useCount + 1
      · exact hc
      · exact absurd ⟨c, G', hG, hc⟩ hnext
    obtain ⟨h', e', s'⟩ := makeNextFreq_made hl hgt
    refine ⟨{ f with freqs := h' }, _, G, e', hl.insertEmpty s', rfl, rfl, by simp, fun x => ?_⟩
    cases G with
    | nil => rfl
    | cons c G' => rw [addNext, if_pos (hgt c G' rfl)]

/-- **The bucket a node left goes if that was its last node.** -/
theorem dropFreq_links {f : FreqList} {F G : List Bucket} {b : Bucket} (hl : FreqLinks f 0 (F ++ b :: G)) :
    ∃ f', dropFreq f b.ptr = some f' ∧ FreqLinks f' 0 (F ++ keepBucket b b.nodes ++ G) ∧
      f'.count = f.count := by
  unfold dropFreq
  simp only [hl.bucket, Option.bind_eq_bind, Option.bind_some]
  by_cases hb : b.nodes = []
  · have hs := hl.seg
    rw [bucketCells_append, bucketCells_cons] at hs
    obtain ⟨hp, hnd⟩ := ptr_not_mem_of_nodup hl.bptrs
    obtain ⟨h₁, e₁, s₁, p₁, b₁, f₁⟩ := f.freqs.unlink_seg (p := b.ptr) hs
      (by simpa using hl.bptrs)
    obtain ⟨h₂, e₂, c₂, -⟩ := h₁.free_of_cell (p₁.trans hl.bucket)
    have hpc : b.ptr ∉ ptrs (bucketCells F ++ bucketCells G) := by simpa using hp
    have hhead : (if b.ptr = f.head then headPtr 0 (bucketCells G) else f.head) = headPtr 0 (bucketCells (F ++ G)) := by
      rw [hl.head, bucketCells_append, bucketCells_append]; exact headPtr_cut hpc
    rw [if_pos (by rw [hb]; rfl), e₁, hhead, keepBucket, if_pos hb]
    simp only [Option.bind_some, e₂, List.append_nil]
    refine ⟨_, rfl, ⟨?_, rfl, ?_, hnd, by simpa [hb] using hl.nptrs⟩, rfl⟩
    · show Seg h₂.cell 0 0 _
      rw [c₂, bucketCells_append]; exact s₁.upd_of_not_mem hpc
    · intro c hc
      exact hl.nodes c (by simp at hc ⊢; exact hc.imp_right Or.inr)
  · have hh : headPtr 0 b.nodes ≠ 0 := by
      refine (hl.nodes b (by simp)).ne_zero ?_
      rw [ptrs_nodeCells]; exact headPtr_mem hb
    rw [if_neg hh, keepBucket, if_neg hb]
    exact ⟨f, rfl, by simpa using hl, rfl⟩

/-- **A touched page goes to the bucket of one more use.** -/
theorem moveNodeToNextFreq_rep {f : FreqList} {F G : List Bucket} {b : Bucket} (hr : FreqRep f 0 (F ++ b :: G))
    {A C : List (Nat × Nat)} {p k : Nat} (hn : b.nodes = A ++ (p, k) :: C) :
    ∃ f', moveNodeToNextFreq f p = some f' ∧
      FreqRep f' 0 (F ++ keepBucket b (A ++ C) ++ addNext f.freqs.brk (b.useCount + 1) (p, k) G) := by
  have hcp := hr.node (b := b) (by simp) hn
  obtain ⟨f₁, c, G', e₁, l₁, n₁, t₁, nodes₁, hadd⟩ := makeNextFreq_links hr.toFreqLinks
  obtain ⟨f₂, e₂, l₂, c₂, hd₂, t₂, b₂, hp₂⟩ := leaveFreq_links l₁ hn
  have hcp₂ : f₂.nodes.cell p = some ⟨⟨k, b.ptr⟩, headPtr 0 C, lastPtr 0 A⟩ := by rw [c₂, n₁, hcp]
  have hnext : f₂.freqs.cell b.ptr = _ := l₂.bucket
  have hsplit : F ++ ⟨b.ptr, b.useCount, A ++ C⟩ :: c :: G' = (F ++ [⟨b.ptr, b.useCount, A ++ C⟩]) ++ c :: G' := by simp
  rw [hsplit] at l₂ hp₂
  obtain ⟨f₃, e₃, l₃, hd₃, t₃⟩ := enterFreq_links l₂ hp₂ hcp₂
  rw [hadd (p, k), List.append_assoc] at l₃
  obtain ⟨f₄, e₄, l₄, t₄⟩ := dropFreq_links l₃
  obtain ⟨iF, iG, hFG⟩ := List.pairwise_append.1 hr.incr
  rw [List.pairwise_cons] at iG
  have hadd' := addNext_incr f.freqs.brk (p, k) iG.2 iG.1
  refine ⟨f₄, ?_, l₄, ?_, ?_, ?_⟩
  · unfold moveNodeToNextFreq
    simp only [hcp, Option.bind_eq_bind, Option.bind_some, e₁, e₂, hnext, bucketCells_cons, headPtr_cons]
    rw [show c.cell.1 = c.ptr from rfl, e₃]
    exact e₄
  · intro d hd
    simp only [List.mem_append] at hd
    rcases hd with (hd | hd) | hd
    · exact hr.full d (List.mem_append_left _ hd)
    · exact (mem_keepBucket hd).2
    · exact addNext_full (fun e he => hr.full e (by simp [he])) d hd
  · refine List.pairwise_append.2 ⟨List.pairwise_append.2 ⟨iF, keepBucket_incr _ _, ?_⟩, hadd'.1, ?_⟩
    · intro d hd e he
      rw [(mem_keepBucket he).1]; exact hFG d hd b (by simp)
    · intro d hd e he
      have hle := hadd'.2 e he
      rcases List.mem_append.1 hd with hd | hd
      · exact Nat.lt_trans (hFG d hd b (by simp)) hle
      · rw [(mem_keepBucket hd).1]; exact hle
  · rw [t₄, t₃, t₂, t₁, hr.count]
    simp [hn]
    omega

/-- A bucket of its own for the new page, in front of all others. -/
theorem createlfuListNode_front {f : FreqList} {pv : Nat} {F : List Bucket} (hr : FreqRep f pv F) (key : Nat)
    (hF : ∀ b ∈ F, 0 < b.useCount) :
    ∃ f', createlfuListNode f key = some (f', f.nodes.brk) ∧
      FreqRep f' 0 (⟨f.freqs.brk, 0, [(f.nodes.brk, key)]⟩ :: F) := by
  have hfresh := hr.seg.brk_not_mem
  have hnode := hr.brk_not_mem
  have hs : Seg (f.freqs.malloc ⟨⟨0, f.nodes.brk, f.nodes.brk⟩, f.head, 0⟩).cell 0 pv (bucketCells F) :=
    hr.seg.upd_of_not_mem hfresh
  obtain ⟨h₁, e₁, s₁, b₁, f₁⟩ := Heap.linkPrev_head _ f.freqs.brk hs (by simpa using hr.bptrs)
  rw [← hr.head] at e₁
  refine ⟨⟨f.freqs.brk, f.count + 1, h₁, f.nodes.malloc ⟨⟨key, f.freqs.brk⟩, 0, 0⟩⟩, ?_,
    ⟨⟨?_, s₁⟩, rfl, ?_, ?_, ?_⟩, ?_, ?_, ?_⟩
  · unfold createlfuListNode
    split
    · -- the first bucket is not the one for no use
      rename_i first tail nx pr hc
      cases F with
      | nil => rw [hr.head, bucketCells, List.map_nil, headPtr_nil, f.freqs.null] at hc; cases hc
      | cons b G =>
        have h0 := hF b (by simp)
        rw [hr.head, bucketCells_cons, headPtr_cons, hr.seg.1] at hc
        simp only [Bucket.cell, Option.some.injEq, Node.mk.injEq, FreqVal.mk.injEq] at hc
        omega
    all_goals
      simp only [e₁, Option.bind_eq_bind, Option.bind_some]
  · show h₁.cell f.freqs.brk = _
    rw [f₁ _ hfresh, Heap.malloc_cell, update_self, hr.head]; rfl
  · intro c hc
    rcases List.mem_cons.1 hc with rfl | hc
    · exact ⟨by simp, trivial⟩
    · refine (hr.nodes c hc).upd_of_not_mem (fun hm => hnode (mem_ptrs_lfuNodes.2 ⟨c, hc, by simpa using hm⟩))
  · exact List.nodup_cons.2 ⟨by simpa using hfresh, hr.bptrs⟩
  · simp only [lfuNodes_cons, List.singleton_append, ptrs_cons]
    exact List.nodup_cons.2 ⟨hnode, hr.nptrs⟩
  · intro c hc
    rcases List.mem_cons.1 hc with rfl | hc
    · simp
    · exact hr.full c hc
  · exact List.pairwise_cons.2 ⟨hF, hr.incr⟩
  · rw [hr.count]; simp

/-- In front of the nodes of the first bucket, which is the one for no use. -/
theorem createlfuListNode_first {f : FreqList} {G : List Bucket} {b : Bucket} (hr : FreqRep f 0 (b :: G)) (key : Nat)
    (hb0 : b.useCount = 0) :
    ∃ f', createlfuListNode f key = some (f', f.nodes.brk) ∧
      FreqRep f' 0 (⟨b.ptr, b.useCount, (f.nodes.brk, key) :: b.nodes⟩ :: G) := by
  have hfresh := hr.brk_not_mem
  have hcb : f.freqs.cell b.ptr =
      some ⟨⟨0, headPtr 0 b.nodes, lastPtr 0 b.nodes⟩, headPtr 0 (bucketCells G), 0⟩ := by
    have := hr.toFreqLinks.bucket (F := [])
    rw [hb0] at this
    exact this
  have hhead : f.head = b.ptr := hr.head
  have hbn : f.nodes.brk ∉ ptrs b.nodes := fun h => hfresh (mem_ptrs_lfuNodes.2 ⟨b, by simp, h⟩)
  have hs : Seg (f.nodes.malloc ⟨⟨key, f.head⟩, headPtr 0 b.nodes, 0⟩).cell 0 0 (nodeCells b.ptr b.nodes) :=
    (hr.nodes b (by simp)).upd_of_not_mem (by simpa using hbn)
  obtain ⟨h₁, e₁, s₁, b₁, f₁⟩ := Heap.linkPrev_head _ f.nodes.brk hs (by
    have := hr.nptrs
    simp only [lfuNodes_cons, ptrs_append, List.nodup_append] at this
    simpa using this.1)
  have hnd : (ptrs (lfuNodes (⟨b.ptr, b.useCount, (f.nodes.brk, key) :: b.nodes⟩ :: G))).Nodup := by
    simp only [lfuNodes_cons, List.cons_append, ptrs_cons]
    exact List.nodup_cons.2 ⟨by simpa using hfresh, by simpa using hr.nptrs⟩
  have hfirst : headPtr 0 b.nodes ≠ 0 := by
    refine (hr.nodes b (by simp)).ne_zero ?_
    rw [ptrs_nodeCells]; exact headPtr_mem (hr.full b (by simp))
  rw [headPtr_nodeCells, Heap.linkPrev, if_pos hfirst] at e₁
  refine ⟨⟨f.head, f.count + 1, f.freqs.set b.ptr
    ⟨⟨0, f.nodes.brk, lastPtr 0 b.nodes⟩, headPtr 0 (bucketCells G), 0⟩, h₁⟩, ?_, ?_, ?_, ?_, ?_⟩
  · unfold createlfuListNode
    simp only [hhead] at e₁ ⊢
    simp only [hcb, e₁, Option.bind_eq_bind, Option.bind_some]
  · refine hr.toFreqLinks.setNodes (F := []) ((f.nodes.brk, key) :: b.nodes) rfl ?_ ?_ ?_ hnd
    · show (f.freqs.set b.ptr _).cell = _
      rw [f.freqs.set_cell _ hcb, hb0]
      cases hbn' : b.nodes with
      | nil => exact absurd hbn' (hr.full b (by simp))
      | cons x t => rfl
    · rw [nodeCells_cons]
      refine ⟨?_, s₁⟩
      show h₁.cell f.nodes.brk = _
      rw [f₁ _ (by simpa using hbn), Heap.malloc_cell, update_self, headPtr_nodeCells, hhead]
    · intro q hq
      show h₁.cell q = _
      have hqb : q ≠ f.nodes.brk := fun h => hfresh (h ▸ by simp at hq ⊢; exact Or.inr hq)
      rw [f₁ q (fun hm => hr.toFreqLinks.disjoint (F := []) (by simpa using hm) hq), Heap.malloc_cell,
        update_of_ne hqb]
  · intro c hc
    rcases List.mem_cons.1 hc with rfl | hc
    · simp
    · exact hr.full c (by simp [hc])
  · exact List.pairwise_cons.2 (List.pairwise_cons.1 hr.incr)
  · show f.count + 1 = _
    rw [hr.count]; simp

/-- **A new page goes to the bucket of no use.**  A stale `prev` of the first bucket is overwritten unless that bucket
is the one for no use. -/
theorem createlfuListNode_rep {f : FreqList} {pv : Nat} {F : List Bucket} (hr : FreqRep f pv F) (key : Nat)
    (hpv : pv = 0 ∨ ∀ b ∈ F, 0 < b.useCount) :
    ∃ f', createlfuListNode f key = some (f', f.nodes.brk) ∧
      FreqRep f' 0 (addNext f.freqs.brk 0 (f.nodes.brk, key) F) := by
  cases F with
  | nil => exact createlfuListNode_front hr key (fun _ hb => by cases hb)
  | cons b G =>
    rw [addNext]
    split
    · rename_i hb
      refine createlfuListNode_front hr key (fun c hc => ?_)
      rcases List.mem_cons.1 hc with rfl | hc
      · exact hb
      · exact Nat.lt_trans hb ((List.pairwise_cons.1 hr.incr).1 c hc)
    · rename_i hb
      obtain rfl : pv = 0 := hpv.resolve_right (fun h => hb (h b (by simp)))
      exact createlfuListNode_first hr key (by omega)

/-- **The victim is the last node of the first bucket.**  If it was the only one, the next bucket comes first, its
`prev` still at the bucket that went. -/
theorem deletelfuListNode_rep {f : FreqList} {pv : Nat} {G : List Bucket} {b : Bucket} (hr : FreqRep f pv (b :: G))
    {A : List (Nat × Nat)} {p k : Nat} (hn : b.nodes = A ++ [(p, k)]) :
    ∃ f', deletelfuListNode f p = some f' ∧
      FreqRep f' (if A = [] then b.ptr else pv) (keepBucket b A ++ G) := by
  have hcp := hr.node (b := b) (by simp) hn
  obtain ⟨f₁, e₁, l₁, c₁, hd₁, t₁, b₁, hp₁⟩ := leaveFreq_links (F := []) hr.toFreqLinks hn
  rw [List.append_nil, List.nil_append] at l₁ hp₁
  have hb₁ := l₁.bucket (F := [])
  obtain ⟨h₂, e₂, c₂, -⟩ := f₁.nodes.free_of_cell (c₁.trans hcp)
  have hhead : b.ptr = f₁.head := by rw [hd₁, hr.head]; rfl
  have hnodes : ∀ c ∈ (⟨b.ptr, b.useCount, A⟩ :: G : List Bucket), Seg h₂.cell 0 0 (nodeCells c.ptr c.nodes) := by
    intro c hc
    rw [c₂]
    exact (l₁.nodes c hc).upd_of_not_mem (fun hm => hp₁ (mem_ptrs_lfuNodes.2 ⟨c, hc, by simpa using hm⟩))
  have hcount : f₁.count - 1 = (lfuNodes (keepBucket b A ++ G)).length := by
    rw [t₁, hr.count]; simp [hn]
  have hincr := List.pairwise_cons.1 hr.incr
  unfold deletelfuListNode
  simp only [hcp, Option.bind_eq_bind, Option.bind_some, e₁, hb₁]
  by_cases hA : A = []
  · subst hA
    obtain ⟨h₃, e₃, c₃, -⟩ := f₁.freqs.modify_of_cell (fun c => { c with prev := c.next }) hb₁
    simp only [headPtr_nil, if_true, e₃, Option.bind_some, if_pos hhead, e₂, keepBucket_nil, List.nil_append]
      at hcount ⊢
    have hptr := List.nodup_cons.1 l₁.bptrs
    refine ⟨_, rfl, ⟨?_, rfl, fun c hc => hnodes c (List.mem_cons_of_mem _ hc), hptr.2, by simpa using l₁.nptrs⟩,
      fun c hc => hr.full c (List.mem_cons_of_mem _ hc), hincr.2, hcount⟩
    show Seg h₃.cell 0 b.ptr _
    rw [c₃]
    have hbG : b.ptr ∉ ptrs (bucketCells G) := by rw [ptrs_bucketCells]; exact hptr.1
    exact l₁.seg.2.upd_of_not_mem hbG
  · have hh : headPtr 0 A ≠ 0 := by
      refine (l₁.nodes _ (List.mem_cons_self)).ne_zero ?_
      rw [ptrs_nodeCells]; exact headPtr_mem hA
    rw [keepBucket_of_ne b hA] at hcount ⊢
    rw [if_neg hh, if_neg hA]
    simp only [Option.bind_some, e₂]
    refine ⟨_, rfl, ⟨l₁.seg, l₁.head, hnodes, l₁.bptrs, l₁.nptrs⟩, ?_, ?_, hcount⟩
    · intro c hc
      rcases List.mem_cons.1 hc with rfl | hc
      · exact hA
      · exact hr.full c (List.mem_cons_of_mem _ hc)
    · exact List.pairwise_cons.2 hincr

end Vmem
end Bb
