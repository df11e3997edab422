import BlueBridge.Vmem
/-!
# VmemHash — the hash table holds what was inserted and not deleted

`Chain m es` says that the entries `es` (pointer, key, list-node pointer) are chained in `m`.  In `HashRep n h es` the
bucket `i` of `h` is the chain `es i`, its keys are distinct and hash to `i`, and its counter is its length.  A key
decides its bucket, so two buckets share no node and an edit of one is an edit of no other.
-/
namespace Bb
namespace Vmem

open Cells
open Function (update update_self update_of_ne)

abbrev HashEntry := Nat × Nat × Nat

def Chain (m : Nat → Option HashNode) : List HashEntry → Prop
  | []     => True
  | x :: t => m x.1 = some ⟨x.2.1, headPtr 0 t, x.2.2⟩ ∧ Chain m t

def entryKeys (es : List HashEntry) : List Nat := es.map (fun x => x.2.1)

structure HashRep (n : Nat) (h : HashTable) (es : Nat → List HashEntry) : Prop where
  chain : ∀ i, Chain h.nodes.cell (es i)
  head : ∀ i, (h.table i).head = headPtr 0 (es i)
  count : ∀ i, (h.table i).count = (es i).length
  hash : ∀ i, ∀ x ∈ es i, hashFunction n x.2.1 = i
  nodup : ∀ i, (entryKeys (es i)).Nodup

theorem Chain.cell {m : Nat → Option HashNode} : ∀ {es : List HashEntry}, Chain m es →
    ∀ x ∈ es, ∃ nx, m x.1 = some ⟨x.2.1, nx, x.2.2⟩
  | y :: t, h, x, hx => by
    rcases List.mem_cons.1 hx with rfl | hx
    · exact ⟨_, h.1⟩
    · exact h.2.cell x hx

theorem Chain.frame {m m' : Nat → Option HashNode} : ∀ {es : List HashEntry}, Chain m es →
    (∀ p ∈ ptrs es, m' p = m p) → Chain m' es
  | [], _, _ => trivial
  | x :: t, h, hm => by
    refine ⟨?_, h.2.frame (fun p hp => hm p (by simp [hp]))⟩
    rw [hm x.1 (by simp)]; exact h.1

theorem Chain.ne_zero {h : Heap HashNode} {es : List HashEntry} (hc : Chain h.cell es) {p : Nat}
    (hp : p ∈ ptrs es) : p ≠ 0 := by
  obtain ⟨x, hx, rfl⟩ := List.mem_map.1 hp
  obtain ⟨nx, hcell⟩ := hc.cell x hx
  exact h.ne_zero hcell

/-- Distinct keys sit in distinct nodes. -/
theorem Chain.not_mem_ptrs {m : Nat → Option HashNode} {es : List HashEntry} (hc : Chain m es) {p k nx l : Nat}
    (hp : m p = some ⟨k, nx, l⟩) (hk : k ∉ entryKeys es) : p ∉ ptrs es := by
  intro hm
  obtain ⟨x, hx, rfl⟩ := List.mem_map.1 hm
  obtain ⟨nx', hcell⟩ := hc.cell x hx
  rw [hcell] at hp
  simp only [Option.some.injEq, HashNode.mk.injEq] at hp
  exact hk (List.mem_map.2 ⟨x, hx, hp.1⟩)

theorem Chain.ptrs_nodup {m : Nat → Option HashNode} : ∀ {es : List HashEntry}, Chain m es →
    (entryKeys es).Nodup → (ptrs es).Nodup
  | [], _, _ => by simp
  | x :: t, h, hn => by
    simp only [entryKeys, List.map_cons, List.nodup_cons] at hn
    rw [ptrs_cons, List.nodup_cons]
    exact ⟨h.2.not_mem_ptrs h.1 hn.1, h.2.ptrs_nodup hn.2⟩

/-- A chain has fewer nodes than `malloc` has handed out. -/
theorem Chain.length_le_brk {h : Heap HashNode} {es : List HashEntry} (hc : Chain h.cell es)
    (hn : (entryKeys es).Nodup) : es.length ≤ h.brk := by
  have hsub : ptrs es ⊆ List.range h.brk := by
    intro p hp
    obtain ⟨x, hx, rfl⟩ := List.mem_map.1 hp
    obtain ⟨nx, hcell⟩ := hc.cell x hx
    exact List.mem_range.2 (h.lt_brk hcell)
  have := (hc.ptrs_nodup hn).length_le_of_subset hsub
  simpa [ptrs] using this

/-- A node of one bucket is in no other. -/
theorem HashRep.not_mem_other {n : Nat} {h : HashTable} {es : Nat → List HashEntry} (hr : HashRep n h es) {i j p : Nat}
    (hij : j ≠ i) (hp : p ∈ ptrs (es i)) : p ∉ ptrs (es j) := by
  intro hpj
  obtain ⟨x, hx, rfl⟩ := List.mem_map.1 hp
  obtain ⟨y, hy, hxy⟩ := List.mem_map.1 hpj
  obtain ⟨nx, hcx⟩ := (hr.chain i).cell x hx
  obtain ⟨ny, hcy⟩ := (hr.chain j).cell y hy
  rw [hxy, hcx] at hcy
  simp only [Option.some.injEq, HashNode.mk.injEq] at hcy
  exact hij (by rw [← hr.hash i x hx, ← hr.hash j y hy, hcy.1])

theorem hashRep_calloc (n : Nat) : HashRep n HashTable.calloc (fun _ => []) where
  chain := fun _ => trivial
  head := fun _ => rfl
  count := fun _ => rfl
  hash := fun _ _ hx => by cases hx
  nodup := fun _ => by simp [entryKeys]

/-- **One bucket is exchanged**, all else in place. -/
theorem HashRep.setBucket {n : Nat} {h h' : HashTable} {es : Nat → List HashEntry} (hr : HashRep n h es) {i : Nat}
    {l : List HashEntry} (ht : h'.table = update h.table i ⟨headPtr 0 l, l.length⟩) (hc : Chain h'.nodes.cell l)
    (hother : ∀ j, j ≠ i → Chain h'.nodes.cell (es j)) (hhash : ∀ x ∈ l, hashFunction n x.2.1 = i)
    (hnd : (entryKeys l).Nodup) : HashRep n h' (update es i l) := by
  refine ⟨?_, ?_, ?_, ?_, ?_⟩ <;> intro j
  · by_cases hj : j = i
    · subst hj; rw [update_self]; exact hc
    · rw [update_of_ne hj]; exact hother j hj
  · rw [ht]
    by_cases hj : j = i
    · subst hj; rw [update_self, update_self]
    · rw [update_of_ne hj, update_of_ne hj]; exact hr.head j
  · rw [ht]
    by_cases hj : j = i
    · subst hj; rw [update_self, update_self]
    · rw [update_of_ne hj, update_of_ne hj]; exact hr.count j
  · by_cases hj : j = i
    · subst hj; rw [update_self]; exact hhash
    · rw [update_of_ne hj]; exact hr.hash j
  · by_cases hj : j = i
    · subst hj; rw [update_self]; exact hnd
    · rw [update_of_ne hj]; exact hr.nodup j

/-- **An insertion puts the key in front of its bucket.** -/
theorem insertHashNode_rep {n : Nat} {h : HashTable} {es : Nat → List HashEntry} (hr : HashRep n h es)
    {key : Nat} (lp : Nat) (hk : key ∉ entryKeys (es (hashFunction n key))) :
    HashRep n (insertHashNode n h key lp)
      (update es (hashFunction n key) ((h.nodes.brk, key, lp) :: es (hashFunction n key))) := by
  generalize hi : hashFunction n key = i at hk
  have hnodes : (insertHashNode n h key lp).nodes.cell =
      update h.nodes.cell h.nodes.brk (some ⟨key, headPtr 0 (es i), lp⟩) := by
    unfold insertHashNode
    simp only [hi]
    split
    · rename_i h0; rw [← hr.head i, h0]; rfl
    · rw [← hr.head i]; rfl
  have htable : (insertHashNode n h key lp).table = update h.table i ⟨h.nodes.brk, (es i).length + 1⟩ := by
    unfold insertHashNode
    simp only [hi]
    split
    · rename_i h0
      have he : es i = [] := by
        cases hes : es i with
        | nil => rfl
        | cons x t =>
          rw [hr.head i, hes] at h0
          exact absurd h0 ((hr.chain i).ne_zero (by rw [hes]; simp))
      simp [he]
    · simp [hr.count i]
  have hfresh : ∀ j, Chain (insertHashNode n h key lp).nodes.cell (es j) := fun j => by
    rw [hnodes]
    refine (hr.chain j).frame (fun p hp => ?_)
    obtain ⟨x, hx, rfl⟩ := List.mem_map.1 hp
    obtain ⟨nx, hcell⟩ := (hr.chain j).cell x hx
    rw [update_of_ne (Nat.ne_of_lt (h.nodes.lt_brk hcell))]
  refine hr.setBucket ?_ ⟨?_, hfresh i⟩ (fun j _ => hfresh j) (fun x hx => ?_) ?_
  · rw [htable]; rfl
  · rw [hnodes]
    exact update_self ..
  · rcases List.mem_cons.1 hx with rfl | hx
    · exact hi
    · exact hr.hash i x hx
  · simp only [entryKeys, List.map_cons, List.nodup_cons]
    exact ⟨hk, hr.nodup i⟩

/-- The chain without one key. -/
def without (key : Nat) (es : List HashEntry) : List HashEntry := es.filter (fun x => decide (x.2.1 ≠ key))

theorem without_of_not_mem {key : Nat} {es : List HashEntry} (h : key ∉ entryKeys es) : without key es = es := by
  apply List.filter_eq_self.2
  intro x hx
  simp only [decide_eq_true_eq]
  rintro rfl
  exact h (List.mem_map.2 ⟨x, hx, rfl⟩)

theorem without_cons_of_eq {key : Nat} {x : HashEntry} {es : List HashEntry} (hx : x.2.1 = key)
    (h : key ∉ entryKeys es) : without key (x :: es) = es := by
  rw [without, List.filter_cons_of_neg (by simpa using hx)]
  exact without_of_not_mem h

theorem without_cons_of_ne {key : Nat} {x : HashEntry} {es : List HashEntry} (h : x.2.1 ≠ key) :
    without key (x :: es) = x :: without key es := List.filter_cons_of_pos (by simpa using h)

theorem length_without {key : Nat} : ∀ {es : List HashEntry}, (entryKeys es).Nodup → key ∈ entryKeys es →
    (without key es).length + 1 = es.length
  | [], _, hk => by simp [entryKeys] at hk
  | x :: r, hn, hk => by
    simp only [entryKeys, List.map_cons, List.nodup_cons] at hn
    by_cases hx : x.2.1 = key
    · rw [without_cons_of_eq hx (hx ▸ hn.1)]; rfl
    · have hk' : key ∈ entryKeys r := by
        simp only [entryKeys, List.map_cons, List.mem_cons] at hk
        exact hk.resolve_left (Ne.symm hx)
      rw [without_cons_of_ne hx, List.length_cons, length_without hn.2 hk', List.length_cons]

/-- **The walk past the first node** of a chain cuts the key's node out behind `temp`, which is not the key's. -/
theorem deleteHashWalk_tail {i key : Nat} : ∀ (es : List HashEntry) (fuel : Nat) (h : HashTable) (t : HashEntry),
    Chain h.nodes.cell (t :: es) → (entryKeys (t :: es)).Nodup → (h.table i).head ∉ ptrs es →
    key ∈ entryKeys es → es.length ≤ fuel →
    ∃ h', deleteHashWalk i key fuel h t.1 (headPtr 0 es) = some h' ∧
      h'.table = update h.table i ⟨(h.table i).head, (h.table i).count - 1⟩ ∧
      Chain h'.nodes.cell (t :: without key es) ∧ ∀ q, q ∉ ptrs (t :: es) → h'.nodes.cell q = h.nodes.cell q
  | [], _, _, _, _, _, _, hk, _ => by simp [entryKeys] at hk
  | x :: r, 0, _, _, _, _, _, _, hf => by simp at hf
  | x :: r, fuel + 1, h, t, hc, hn, hhd, hk, hf => by
    have hx0 : x.1 ≠ 0 := hc.ne_zero (by simp)
    have hpn := hc.ptrs_nodup hn
    simp only [ptrs_cons, List.nodup_cons, List.mem_cons, not_or] at hpn
    obtain ⟨⟨htx, htr⟩, hxr, -⟩ := hpn
    simp only [ptrs_cons, List.mem_cons, not_or] at hhd
    rw [headPtr_cons]
    simp only [deleteHashWalk, if_neg hx0, hc.2.1, Option.bind_eq_bind, Option.bind_some]
    by_cases hxk : x.2.1 = key
    · obtain ⟨h₁, e₁, c₁, b₁⟩ := h.nodes.modify_of_cell (fun d => { d with next := headPtr 0 r }) hc.1
      have hx₁ : h₁.cell x.1 = some ⟨x.2.1, headPtr 0 r, x.2.2⟩ := by
        rw [c₁, update_of_ne (Ne.symm htx)]; exact hc.2.1
      obtain ⟨h₂, e₂, c₂, b₂⟩ := h₁.free_of_cell hx₁
      have hkr : key ∉ entryKeys r := by
        simp only [entryKeys, List.map_cons, List.nodup_cons, hxk] at hn
        exact hn.2.1
      refine ⟨⟨update h.table i ⟨(h.table i).head, (h.table i).count - 1⟩, h₂⟩, ?_, rfl, ?_, ?_⟩
      · rw [if_pos hxk, if_neg (Ne.symm hhd.1), e₁, Option.bind_some, e₂, Option.bind_some]
      · rw [without_cons_of_eq hxk hkr, c₂, c₁]
        refine ⟨?_, (hc.2.2).frame (fun p hp => ?_)⟩
        · rw [update_of_ne htx]; simp
        · have hpx : p ≠ x.1 := fun hpx => hxr (hpx ▸ hp)
          have hpt : p ≠ t.1 := fun hpt => htr (hpt ▸ hp)
          rw [update_of_ne hpx, update_of_ne hpt]
      · intro q hq
        simp only [ptrs_cons, List.mem_cons, not_or] at hq
        rw [c₂, c₁, update_of_ne hq.2.1, update_of_ne hq.1]
    · rw [if_neg hxk]
      have hn' : (entryKeys (x :: r)).Nodup := by
        simp only [entryKeys, List.map_cons, List.nodup_cons] at hn ⊢
        exact hn.2
      have hk' : key ∈ entryKeys r := by
        simp only [entryKeys, List.map_cons, List.mem_cons] at hk
        exact hk.resolve_left (Ne.symm hxk)
      obtain ⟨h', e', t', c', f'⟩ := deleteHashWalk_tail r fuel h x hc.2 hn' hhd.2 hk' (by simpa using hf)
      refine ⟨h', e', t', ?_, ?_⟩
      · rw [without_cons_of_ne hxk]
        exact ⟨by rw [f' t.1 (by simp [htx, htr])]; exact hc.1, c'⟩
      · intro q hq
        simp only [ptrs_cons, List.mem_cons, not_or] at hq
        exact f' q (by simp [hq.2.1, hq.2.2])

/-- A table whose bucket `i` lost one key, all else alone. -/
theorem HashRep.cut {n : Nat} {h h' : HashTable} {es : Nat → List HashEntry} (hr : HashRep n h es) {i key : Nat}
    (hk : key ∈ entryKeys (es i))
    (ht : h'.table = update h.table i ⟨headPtr 0 (without key (es i)), (h.table i).count - 1⟩)
    (hc : Chain h'.nodes.cell (without key (es i)))
    (hf : ∀ q, q ∉ ptrs (es i) → h'.nodes.cell q = h.nodes.cell q) :
    HashRep n h' (update es i (without key (es i))) := by
  have hcount := hr.count i
  have hlen := length_without (hr.nodup i) hk
  refine hr.setBucket ?_ hc (fun j hj => ?_) (fun x hx => hr.hash i x (List.mem_filter.1 hx).1)
    ((List.filter_sublist.map _).nodup (hr.nodup i))
  · rw [ht, hcount, ← hlen]
    simp
  · exact (hr.chain j).frame (fun p hp => hf p (hr.not_mem_other (Ne.symm hj) hp))

/-- **A deletion takes the key out of its bucket.** -/
theorem deleteHashNode_rep {n : Nat} {h : HashTable} {es : Nat → List HashEntry} (hr : HashRep n h es) {key : Nat}
    (hk : key ∈ entryKeys (es (hashFunction n key))) :
    ∃ h', deleteHashNode n h key = some h' ∧
      HashRep n h' (update es (hashFunction n key) (without key (es (hashFunction n key)))) := by
  generalize hi : hashFunction n key = i at hk
  have hci := hr.chain i
  have hni := hr.nodup i
  have hlen := hci.length_le_brk hni
  obtain ⟨b, hb⟩ : ∃ b, h.nodes.brk = b + 1 := ⟨h.nodes.brk - 1, by have := h.nodes.pos; omega⟩
  cases hes : es i with
  | nil => rw [hes] at hk; simp [entryKeys] at hk
  | cons x r =>
    have hhead : (h.table i).head = x.1 := by rw [hr.head i, hes]; rfl
    have hunf : deleteHashNode n h key = deleteHashWalk i key (b + 1) h x.1 x.1 := by
      simp only [deleteHashNode, hi, hb, hhead]
    rw [hes] at hci hni hlen
    have hx0 : x.1 ≠ 0 := hci.ne_zero (by simp)
    have hpn := hci.ptrs_nodup hni
    simp only [ptrs_cons, List.nodup_cons] at hpn
    rw [hunf]
    simp only [deleteHashWalk, if_neg hx0, hci.1, Option.bind_eq_bind, Option.bind_some]
    by_cases hxk : x.2.1 = key
    · -- the key's node is the bucket's head: no node is written, the head moves
      have hkr : key ∉ entryKeys r := by
        simp only [entryKeys, List.map_cons, List.nodup_cons, hxk] at hni
        exact hni.1
      have hw : without key (x :: r) = r := without_cons_of_eq hxk hkr
      obtain ⟨h₂, e₂, c₂, -⟩ := h.nodes.free_of_cell hci.1
      refine ⟨⟨update h.table i ⟨headPtr 0 r, (h.table i).count - 1⟩, h₂⟩, ?_, ?_⟩
      · rw [if_pos hxk, if_pos hhead.symm]
        simp only [Option.bind_some, e₂, update_self, Function.update_idem]
      · rw [← hes]
        refine hr.cut hk ?_ ?_ ?_
        · rw [hes, hw]
        · rw [hes, hw]
          exact hci.2.frame (fun p hp => by
            show h₂.cell p = _
            have hpx : p ≠ x.1 := fun hpx => hpn.1 (hpx ▸ hp)
            rw [c₂, update_of_ne hpx])
        · intro q hq
          rw [hes] at hq
          simp only [ptrs_cons, List.mem_cons, not_or] at hq
          show h₂.cell q = _
          rw [c₂, update_of_ne hq.1]
    · have hkr : key ∈ entryKeys r := by
        rw [hes] at hk
        simp only [entryKeys, List.map_cons, List.mem_cons] at hk
        exact hk.resolve_left (Ne.symm hxk)
      obtain ⟨h', e', t', c', f'⟩ := deleteHashWalk_tail r b h x hci hni (by rw [hhead]; exact hpn.1) hkr
        (by simp only [List.length_cons] at hlen; omega)
      refine ⟨h', by rw [if_neg hxk]; exact e', ?_⟩
      rw [← hes]
      refine hr.cut hk ?_ ?_ ?_
      · rw [t', hes, without_cons_of_ne hxk, hhead]; rfl
      · rw [hes, without_cons_of_ne hxk]; exact c'
      · rw [hes]; exact f'

theorem getHashWalk_eq {h : HashTable} {key lp : Nat} : ∀ (es : List HashEntry) (fuel : Nat),
    Chain h.nodes.cell es → (entryKeys es).Nodup → (∃ p, (p, key, lp) ∈ es) → es.length ≤ fuel →
    getHashWalk h key fuel (headPtr 0 es) = some lp
  | [], _, _, _, hm, _ => by obtain ⟨p, hp⟩ := hm; cases hp
  | x :: r, 0, _, _, _, hf => by simp at hf
  | x :: r, fuel + 1, hc, hn, ⟨p, hp⟩, hf => by
    simp only [entryKeys, List.map_cons, List.nodup_cons] at hn
    rw [headPtr_cons]
    simp only [getHashWalk, hc.1, Option.bind_eq_bind, Option.bind_some]
    rcases List.mem_cons.1 hp with rfl | hp
    · rw [if_pos rfl]
    · have hxk : x.2.1 ≠ key := fun hxk => hn.1 (List.mem_map.2 ⟨_, hp, hxk.symm⟩)
      rw [if_neg hxk]
      exact getHashWalk_eq r fuel hc.2 hn.2 ⟨p, hp⟩ (by simpa using hf)

/-- **A lookup finds the list node stored with the key.** -/
theorem getHashNode_rep {n : Nat} {h : HashTable} {es : Nat → List HashEntry} (hr : HashRep n h es) {key lp : Nat}
    (hk : ∃ p, (p, key, lp) ∈ es (hashFunction n key)) : getHashNode n h key = some lp := by
  obtain ⟨p, hp⟩ := hk
  have hc := hr.chain (hashFunction n key)
  have hne : headPtr 0 (es (hashFunction n key)) ≠ 0 := hc.ne_zero (headPtr_mem (List.ne_nil_of_mem hp))
  unfold getHashNode
  simp only
  rw [hr.head, if_neg hne]
  exact getHashWalk_eq _ _ hc (hr.nodup _) ⟨p, hp⟩ (hc.length_le_brk (hr.nodup _))

/-! ## The table as an index of a list -/

/-- The table finds every key of `L` at the pointer stored with it, and no other key. -/
def HashMaps (n : Nat) (h : HashTable) (L : List (Nat × Nat)) : Prop :=
  ∃ es, HashRep n h es ∧ ∀ k l, (∃ p, (p, k, l) ∈ es (hashFunction n k)) ↔ (l, k) ∈ L

theorem mem_entryKeys {es : List HashEntry} {k : Nat} : k ∈ entryKeys es ↔ ∃ l p, (p, k, l) ∈ es := by
  simp only [entryKeys, List.mem_map]
  constructor
  · rintro ⟨x, hx, rfl⟩; exact ⟨x.2.2, x.1, hx⟩
  · rintro ⟨l, p, hx⟩; exact ⟨_, hx, rfl⟩

theorem hashMaps_calloc (n : Nat) : HashMaps n HashTable.calloc [] :=
  ⟨_, hashRep_calloc n, fun k l => by simp⟩

theorem HashMaps.congr {n : Nat} {h : HashTable} {L L' : List (Nat × Nat)} (hm : HashMaps n h L)
    (hL : ∀ x, x ∈ L ↔ x ∈ L') : HashMaps n h L' := by
  obtain ⟨es, hr, hes⟩ := hm
  exact ⟨es, hr, fun k l => (hes k l).trans (hL _)⟩

theorem HashMaps.insert {n : Nat} {h : HashTable} {L : List (Nat × Nat)} (hm : HashMaps n h L) {key : Nat} (lp : Nat)
    (hk : key ∉ L.map Prod.snd) : HashMaps n (insertHashNode n h key lp) ((lp, key) :: L) := by
  obtain ⟨es, hr, hes⟩ := hm
  have hk' : key ∉ entryKeys (es (hashFunction n key)) := by
    intro hm
    obtain ⟨l, p, hp⟩ := mem_entryKeys.1 hm
    exact hk (List.mem_map.2 ⟨_, (hes key l).1 ⟨p, hp⟩, rfl⟩)
  refine ⟨_, insertHashNode_rep hr lp hk', fun k l => ?_⟩
  rw [List.mem_cons, ← hes k l]
  by_cases hi : hashFunction n k = hashFunction n key
  · rw [hi, update_self]
    simp only [List.mem_cons, Prod.mk.injEq]
    constructor
    · rintro ⟨p, ⟨-, rfl, rfl⟩ | hp⟩
      · exact Or.inl ⟨rfl, rfl⟩
      · exact Or.inr ⟨p, hp⟩
    · rintro (⟨rfl, rfl⟩ | ⟨p, hp⟩)
      · exact ⟨_, Or.inl ⟨rfl, rfl, rfl⟩⟩
      · exact ⟨p, Or.inr hp⟩
  · have hkk : k ≠ key := fun h => hi (by rw [h])
    rw [update_of_ne hi]
    simp [hkk]

theorem HashMaps.delete {n : Nat} {h : HashTable} {A C : List (Nat × Nat)} {lp key : Nat}
    (hm : HashMaps n h (A ++ (lp, key) :: C)) (hk : key ∉ (A ++ C).map Prod.snd) :
    ∃ h', deleteHashNode n h key = some h' ∧ HashMaps n h' (A ++ C) := by
  obtain ⟨es, hr, hes⟩ := hm
  have hmem : key ∈ entryKeys (es (hashFunction n key)) :=
    mem_entryKeys.2 ⟨lp, (hes key lp).2 (by simp)⟩
  obtain ⟨h', e', r'⟩ := deleteHashNode_rep hr hmem
  refine ⟨h', e', _, r', fun k l => ?_⟩
  have hiff : (l, k) ∈ A ++ C ↔ k ≠ key ∧ (l, k) ∈ A ++ (lp, key) :: C := by
    constructor
    · intro hx
      refine ⟨fun hkk => hk (List.mem_map.2 ⟨_, hx, hkk⟩), ?_⟩
      simp at hx ⊢; exact hx.imp_right Or.inr
    · rintro ⟨hkk, hx⟩
      simpa [hkk] using hx
  rw [hiff, ← hes k l]
  by_cases hi : hashFunction n k = hashFunction n key
  · rw [hi, update_self]
    simp only [without, List.mem_filter, decide_eq_true_eq]
    constructor
    · rintro ⟨p, hp, hne⟩; exact ⟨hne, p, hp⟩
    · rintro ⟨hne, p, hp⟩; exact ⟨p, hp, hne⟩
  · have hkk : k ≠ key := fun h => hi (by rw [h])
    rw [update_of_ne hi]
    simp [hkk]

/-- The first node of a bucket that is not empty holds a key of that bucket. -/
theorem HashMaps.head_entry {n : Nat} {h : HashTable} {L : List (Nat × Nat)} (hm : HashMaps n h L) {i : Nat}
    (hi : (h.table i).head ≠ 0) :
    ∃ c l, h.nodes.cell (h.table i).head = some c ∧ hashFunction n c.key = i ∧ (l, c.key) ∈ L := by
  obtain ⟨es, hr, hes⟩ := hm
  rw [hr.head i] at hi ⊢
  have hchain := hr.chain i
  have hhash := hr.hash i
  cases hei : es i with
  | nil => rw [hei] at hi; exact absurd rfl hi
  | cons x t =>
    rw [hei] at hchain hhash
    refine ⟨_, x.2.2, hchain.1, hhash x (by simp), (hes _ _).1 ⟨x.1, ?_⟩⟩
    show x ∈ es (hashFunction n x.2.1)
    rw [hhash x (by simp), hei]
    simp

/-- The bucket of a key is not empty. -/
theorem HashMaps.head_ne {n : Nat} {h : HashTable} {L : List (Nat × Nat)} (hm : HashMaps n h L) {lp key : Nat}
    (hk : (lp, key) ∈ L) : (h.table (hashFunction n key)).head ≠ 0 ∧ (h.table (hashFunction n key)).count ≠ 0 := by
  obtain ⟨es, hr, hes⟩ := hm
  obtain ⟨p, hp⟩ := (hes key lp).2 hk
  rw [hr.head, hr.count]
  exact ⟨(hr.chain _).ne_zero (headPtr_mem (List.ne_nil_of_mem hp)),
    fun h => List.ne_nil_of_mem hp (List.length_eq_zero_iff.1 (Int.natCast_eq_zero.1 h))⟩

/-- A bucket has fewer keys than `malloc` has handed out nodes. -/
theorem HashMaps.bucket_le {n : Nat} {h : HashTable} {L : List (Nat × Nat)} (hm : HashMaps n h L) (i : Nat)
    {ks : List Nat} (hnd : ks.Nodup) (hk : ∀ k ∈ ks, hashFunction n k = i ∧ ∃ l, (l, k) ∈ L) :
    ks.length ≤ h.nodes.brk := by
  obtain ⟨es, hr, hes⟩ := hm
  have hsub : ks ⊆ entryKeys (es i) := by
    intro k hkm
    obtain ⟨hi, l, hl⟩ := hk k hkm
    rw [← hi]
    exact mem_entryKeys.2 ⟨l, (hes k l).2 hl⟩
  have hle := hnd.length_le_of_subset hsub
  rw [entryKeys, List.length_map] at hle
  exact Nat.le_trans hle ((hr.chain i).length_le_brk (hr.nodup i))

theorem HashMaps.get {n : Nat} {h : HashTable} {L : List (Nat × Nat)} (hm : HashMaps n h L) {lp key : Nat}
    (hk : (lp, key) ∈ L) : getHashNode n h key = some lp := by
  obtain ⟨es, hr, hes⟩ := hm
  exact getHashNode_rep hr ((hes key lp).2 hk)

end Vmem
end Bb
