import BlueBridge.VmemMoves
import BlueBridge.VmemLfu
/-!
# VmemLists — LRU, FFIFO and LFU refine lists of keys

`DllInv bs m L c` ties the three structures of LRU and FFIFO together: the linked list is `L`, the hash table indexes
it and its keys are the resident pages, in the first `c` frames.  The order of the keys is the whole of a policy:
`lruKeys` and `ffifoKeys` are what the two handlers do to it.
-/
namespace Bb
namespace Vmem

open Cells
open Function (update update_self update_of_ne)

variable {B npages : Nat} {bs : BackingStore B npages}

structure DllInv (bs : BackingStore B npages) (m : Machine bs.State B) (L : List (Nat × Nat)) (c : Nat) : Prop where
  dll : DllRep m.th.dllList L
  hash : HashMaps m.pt.nframes m.th.hashTable L
  listed : Listed bs m.pt m.th.startFrame m.th.endFrame (L.map Prod.snd) c

/-- The keys after a fault that loads `page`: the last one goes when the frames are all taken. -/
def loadKey (n : Nat) (ks : List Nat) (page : Nat) : List Nat :=
  if ks.length < n then page :: ks else page :: ks.dropLast

/-- Under LRU a fault on a resident page makes it the most recent. -/
def lruKeys (n : Nat) (ks : List Nat) (page : Nat) : List Nat :=
  if page ∈ ks then page :: ks.erase page else loadKey n ks page

/-- Under FFIFO it does not. -/
def ffifoKeys (n : Nat) (ks : List Nat) (page : Nat) : List Nat := if page ∈ ks then ks else loadKey n ks page

/-- A new key enters the list and the table. -/
theorem push_dll {n : Nat} {h : HashTable} {l : DllList} {L : List (Nat × Nat)} (hd : DllRep l L)
    (hh : HashMaps n h L) {page : Nat} (hk : page ∉ L.map Prod.snd) :
    ∃ l' node, createdllListNode l page = some (l', node) ∧ DllRep l' ((node, page) :: L) ∧
      HashMaps n (insertHashNode n h page node) ((node, page) :: L) := by
  obtain ⟨l', e', r'⟩ := createdllListNode_rep hd page
  exact ⟨l', _, e', r', hh.insert _ hk⟩

/-- The last key leaves both. -/
theorem pop_dll {n : Nat} {h : HashTable} {l : DllList} {A : List (Nat × Nat)} {p k : Nat}
    (hd : DllRep l (A ++ [(p, k)])) (hh : HashMaps n h (A ++ [(p, k)])) (hk : k ∉ A.map Prod.snd) :
    ∃ h' l' c, l.tail ≠ 0 ∧ l.nodes.cell l.tail = some c ∧ c.val = k ∧ deleteHashNode n h k = some h' ∧
      deletedllListNode l l.tail = some l' ∧ DllRep l' A ∧ HashMaps n h' A := by
  have htail : l.tail = p := by rw [hd.tail, lastPtr_append]; rfl
  have hc : l.nodes.cell p = some ⟨k, 0, lastPtr 0 A⟩ := ((seg_append _ _ _ _ _).1 hd.seg).2.1
  obtain ⟨h', eh, rh⟩ := hh.delete (C := []) (by simpa using hk)
  obtain ⟨l', el, rl⟩ := deletedllListNode_rep (C := []) hd
  rw [List.append_nil] at rh rl
  rw [htail]
  exact ⟨h', l', _, l.nodes.ne_zero hc, hc, rfl, eh, el, rl, rh⟩

theorem deleteLRU_dll {n : Nat} {h : HashTable} {l : DllList} {A : List (Nat × Nat)} {p k : Nat}
    (hd : DllRep l (A ++ [(p, k)])) (hh : HashMaps n h (A ++ [(p, k)])) (hk : k ∉ A.map Prod.snd) :
    ∃ h' l', deleteLRU n h l = some (h', l', some k) ∧ DllRep l' A ∧ HashMaps n h' A := by
  obtain ⟨h', l', c, ht, hc, rfl, eh, el, rl, rh⟩ := pop_dll hd hh hk
  refine ⟨h', l', ?_, rl, rh⟩
  unfold deleteLRU
  rw [if_pos ht]
  simp only [hc, eh, el, Option.bind_eq_bind, Option.bind_some]

/-! ## The handlers -/

/-- The keys of LRU and FFIFO are in the list and in the table. -/
structure DllKeys (n : Nat) (th : Thread) (L : List (Nat × Nat)) : Prop where
  dll : DllRep th.dllList L
  hash : HashMaps n th.hashTable L
  nodup : (L.map Prod.snd).Nodup

theorem DllInv.keys {m : Machine bs.State B} {L : List (Nat × Nat)} {c : Nat} (hi : DllInv bs m L c) :
    DllKeys m.pt.nframes m.th L := ⟨hi.dll, hi.hash, hi.listed.nodup⟩

/-- A list that is not empty has a last key, which is nowhere else in it. -/
theorem DllKeys.last {n : Nat} {th : Thread} {L : List (Nat × Nat)} (hi : DllKeys n th L) (hL : 0 < L.length) :
    ∃ A p v, L = A ++ [(p, v)] ∧ v ∉ A.map Prod.snd := by
  rcases List.eq_nil_or_concat L with rfl | ⟨A, ⟨p, v⟩, rfl⟩
  · simp at hL
  · rw [List.concat_eq_append] at hi ⊢
    refine ⟨A, p, v, rfl, fun hm => ?_⟩
    have := hi.nodup
    simp only [List.map_append, List.nodup_append] at this
    exact this.2.2 v hm v (by simp) rfl

/-- The victim of the list policies is the last key. -/
def LastOut (ks : List Nat) (mv : Move) : Prop := ∀ v, mv = .replace v → ∃ A, ks = A ++ [v]

section Dll

variable {m : Machine bs.State B} {L : List (Nat × Nat)} {page : Nat}

/-- The fault that loads a page into the next frame, in the words both handlers share. -/
theorem DllKeys.fill (hi : DllKeys m.pt.nframes m.th L)
    (ht : Held m.pt m.th.startFrame m.th.endFrame 0 (L.map Prod.snd) page) (hk : page ∉ L.map Prod.snd)
    (hroom : L.length < m.pt.nframes) :
    ∃ l' node m', createdllListNode m.th.dllList page = some (l', node) ∧
      fillFrame bs { m with th := { m.th with
          dllList := l', hashTable := insertHashNode m.pt.nframes m.th.hashTable page node } } page
        (m.th.dllList.count + m.th.startFrame) = some m' ∧
      DllKeys m.pt.nframes m'.th ((node, page) :: L) ∧
      Faulted bs m m' 0 page (L.map Prod.snd) (page :: L.map Prod.snd) (.fill (L.length + m.th.startFrame)) := by
  obtain ⟨l', node, e', rl, rh⟩ := push_dll hi.dll hi.hash hk
  have hlt : (L.map Prod.snd).length + 0 < m.pt.nframes := by rw [List.length_map]; exact hroom
  have hturn := Turn.fill (s := m.th.startFrame) hk hlt (.refl _)
  have ef := Held.fillFrame { m.th with
    dllList := l', hashTable := insertHashNode m.pt.nframes m.th.hashTable page node } m.rands m.calls ht hk hlt
  rw [List.length_map] at hturn ef
  rw [hi.dll.count]
  exact ⟨l', node, _, e', ef, ⟨rl, rh, List.nodup_cons.2 ⟨hk, hi.nodup⟩⟩, .of_make ht hturn rfl rfl⟩

/-- The fault that loads a page over the last one. -/
theorem DllKeys.replace {A : List (Nat × Nat)} {p v : Nat} (hi : DllKeys m.pt.nframes m.th (A ++ [(p, v)]))
    (ht : Held m.pt m.th.startFrame m.th.endFrame 0 ((A ++ [(p, v)]).map Prod.snd) page)
    (hk : page ∉ (A ++ [(p, v)]).map Prod.snd) (hfull : m.pt.nframes ≤ (A ++ [(p, v)]).length) {h : HashTable}
    {l : DllList} (hl : DllRep l A) (hh : HashMaps m.pt.nframes h A) :
    ∃ l' node, replacePage bs { m with th := { m.th with dllList := l, hashTable := h } } page v =
        some { m with pt := m.pt.make bs page (.replace v), th := { m.th with dllList := l, hashTable := h } } ∧
      createdllListNode l page = some (l', node) ∧
      DllKeys m.pt.nframes { m.th with dllList := l', hashTable := insertHashNode m.pt.nframes h page node }
        ((node, page) :: A) ∧
      Turn m.th.startFrame m.pt.nframes 0 ((A ++ [(p, v)]).map Prod.snd) page (.replace v) (page :: A.map Prod.snd) := by
  have hnd := hi.nodup
  rw [List.map_append] at hnd hk ht
  have hkA : page ∉ A.map Prod.snd := fun hm => hk (List.mem_append_left _ hm)
  obtain ⟨l', node, e', rl, rh⟩ := push_dll hl hh hkA
  have hv : v ∈ A.map Prod.snd ++ [(p, v)].map Prod.snd := List.mem_append_right _ (by simp)
  refine ⟨l', node, Held.replacePage { m.th with dllList := l, hashTable := h } m.rands m.calls ht hk hv, e',
    ⟨rl, rh, List.nodup_cons.2 ⟨hkA, (List.nodup_append.1 hnd).1⟩⟩, ?_⟩
  rw [List.map_append]
  refine .replace hk ?_ rfl (by rw [List.map_nil, List.append_nil])
  rw [← List.map_append, List.length_map]
  exact hfull

/-- **LRU orders its pages by their last fault.** -/
theorem lruPageFaultHandler_faulted (hi : DllKeys m.pt.nframes m.th L) (hn : 0 < m.pt.nframes)
    (ht : Held m.pt m.th.startFrame m.th.endFrame 0 (L.map Prod.snd) page) :
    ∃ m' L' mv, lruPageFaultHandler bs m page = some m' ∧ DllKeys m.pt.nframes m'.th L' ∧
      Faulted bs m m' 0 page (L.map Prod.snd) (L'.map Prod.snd) mv ∧
      L'.map Prod.snd = lruKeys m.pt.nframes (L.map Prod.snd) page ∧ LastOut (L.map Prod.snd) mv := by
  unfold lruPageFaultHandler lruKeys loadKey
  rw [getEntry_eq m ht.lt]
  simp only [Option.bind_eq_bind, Option.bind_some]
  by_cases hb : m.pt.pageBits page = .none
  · have hk := ht.bits.1 hb
    rw [if_pos hb, hi.dll.count, if_neg hk, List.length_map]
    by_cases hroom : L.length < m.pt.nframes
    · obtain ⟨l', node, m', e', ef, hi', hf⟩ := hi.fill ht hk hroom
      rw [if_pos hroom, if_pos hroom, e']
      rw [hi.dll.count] at ef
      exact ⟨m', _, _, ef, hi', hf, rfl, fun v hv => by cases hv⟩
    · rw [if_neg hroom, if_neg hroom]
      obtain ⟨A, p, v, rfl, hv⟩ := hi.last (by omega)
      obtain ⟨h', l', ed, rl, rh⟩ := deleteLRU_dll hi.dll hi.hash hv
      obtain ⟨l'', node, er, ec, hi', hturn⟩ := hi.replace ht hk (by omega) rl rh
      simp only [ed, Option.bind_some, Option.getD_some, er, ec]
      exact ⟨_, (node, page) :: A, _, rfl, hi', .of_make ht hturn rfl rfl, by simp, fun w hw => ⟨A.map Prod.snd, by
        cases hw; simp⟩⟩
  · have hk : page ∈ L.map Prod.snd := by_contra fun hk => hb (ht.bits.2 hk)
    rw [if_neg hb, if_pos hk]
    obtain ⟨⟨node, k⟩, hx, rfl⟩ := List.mem_map.1 hk
    obtain ⟨A, C, rfl⟩ := List.append_of_mem hx
    obtain ⟨l', e', rl⟩ := moveListNodeToFront_rep hi.dll
    have hperm : (A ++ (node, k) :: C).Perm ((node, k) :: (A ++ C)) := List.perm_middle
    have hnd := hi.nodup
    have eg := Held.grant { m.th with dllList := l' } m.rands m.calls ht hk
    simp only [hi.hash.get hx, Option.bind_some, e', eg]
    refine ⟨_, _, _, rfl, ⟨rl, hi.hash.congr (fun x => hperm.mem_iff), ((hperm.map _).nodup_iff).1 hnd⟩,
      .of_make ht (.grant hk (hperm.map _).symm) rfl rfl, ?_, fun v hv => by cases hv⟩
    simp only [List.map_append, List.map_cons] at hnd
    have hkA : k ∉ A.map Prod.snd := fun hm => (List.nodup_append.1 hnd).2.2 k hm k (by simp) rfl
    simp [List.erase_append_right _ hkA]

/-- **FFIFO orders its pages by when they were loaded.** -/
theorem ffifoPageFaultHandler_faulted (hi : DllKeys m.pt.nframes m.th L) (hn : 0 < m.pt.nframes)
    (ht : Held m.pt m.th.startFrame m.th.endFrame 0 (L.map Prod.snd) page) :
    ∃ m' L' mv, ffifoPageFaultHandler bs m page = some m' ∧ DllKeys m.pt.nframes m'.th L' ∧
      Faulted bs m m' 0 page (L.map Prod.snd) (L'.map Prod.snd) mv ∧
      L'.map Prod.snd = ffifoKeys m.pt.nframes (L.map Prod.snd) page ∧ LastOut (L.map Prod.snd) mv := by
  unfold ffifoPageFaultHandler ffifoKeys loadKey
  rw [getEntry_eq m ht.lt]
  simp only [Option.bind_eq_bind, Option.bind_some]
  by_cases hb : m.pt.pageBits page = .none
  · have hk := ht.bits.1 hb
    rw [if_pos hb, hi.dll.count, if_neg hk, List.length_map]
    by_cases hroom : L.length < m.pt.nframes
    · obtain ⟨l', node, m', e', ef, hi', hf⟩ := hi.fill ht hk hroom
      rw [if_pos hroom, if_pos hroom, e']
      rw [hi.dll.count] at ef
      exact ⟨m', _, _, ef, hi', hf, rfl, fun v hv => by cases hv⟩
    · rw [if_neg hroom, if_neg hroom]
      obtain ⟨A, p, v, rfl, hv⟩ := hi.last (by omega)
      obtain ⟨h', l', t, -, hc, rfl, eh, el, rl, rh⟩ := pop_dll hi.dll hi.hash hv
      obtain ⟨l'', node, er, ec, hi', hturn⟩ := hi.replace ht hk (by omega) rl rh
      simp only [hc, eh, el, Option.bind_some, er, ec]
      exact ⟨_, (node, page) :: A, _, rfl, hi', .of_make ht hturn rfl rfl, by simp, fun w hw => ⟨A.map Prod.snd, by
        cases hw; simp⟩⟩
  · have hk : page ∈ L.map Prod.snd := by_contra fun hk => hb (ht.bits.2 hk)
    rw [if_neg hb, if_pos hk]
    exact ⟨_, L, _, Held.grant m.th m.rands m.calls ht hk, hi, .of_make ht (.grant hk (.refl _)) rfl rfl, rfl,
      fun v hv => by cases hv⟩

/-- What the turn of the keys leaves of the whole invariant. -/
theorem DllInv.faulted {m' : Machine bs.State B} {L' : List (Nat × Nat)} {mv : Move} (hi : DllInv bs m L L.length)
    (hp : page < npages) (hk : DllKeys m.pt.nframes m'.th L')
    (hf : Faulted bs m m' 0 page (L.map Prod.snd) (L'.map Prod.snd) mv) :
    DllInv bs m' L' L'.length ∧ Kept bs m.pt m'.pt := by
  have hlist := hi.listed
  rw [← List.length_map (f := Prod.snd)] at hlist
  obtain ⟨hl, hkept⟩ := hf.listed hp hlist
  rw [List.length_map] at hl
  exact ⟨⟨hk.dll, by rw [hf.nframes]; exact hk.hash, hl⟩, hkept⟩

end Dll

/-- **LRU keeps its structures and every page's bytes**, and orders its pages by their last fault. -/
theorem lruPageFaultHandler_inv {m : Machine bs.State B} {L : List (Nat × Nat)} (hi : DllInv bs m L L.length)
    (hn : 0 < m.pt.nframes) {page : Nat} (hp : page < npages) :
    ∃ m' L', lruPageFaultHandler bs m page = some m' ∧ DllInv bs m' L' L'.length ∧ Kept bs m.pt m'.pt ∧
      L'.map Prod.snd = lruKeys m.pt.nframes (L.map Prod.snd) page := by
  obtain ⟨m', L', mv, e, hk, hf, hkeys, -⟩ := lruPageFaultHandler_faulted hi.keys hn (hi.listed.held_zero hp)
  obtain ⟨hi', hkept⟩ := hi.faulted hp hk hf
  exact ⟨m', L', e, hi', hkept, hkeys⟩

/-- **FFIFO keeps its structures and every page's bytes**, and orders its pages by when they were loaded. -/
theorem ffifoPageFaultHandler_inv {m : Machine bs.State B} {L : List (Nat × Nat)} (hi : DllInv bs m L L.length)
    (hn : 0 < m.pt.nframes) {page : Nat} (hp : page < npages) :
    ∃ m' L', ffifoPageFaultHandler bs m page = some m' ∧ DllInv bs m' L' L'.length ∧ Kept bs m.pt m'.pt ∧
      L'.map Prod.snd = ffifoKeys m.pt.nframes (L.map Prod.snd) page := by
  obtain ⟨m', L', mv, e, hk, hf, hkeys, -⟩ := ffifoPageFaultHandler_faulted hi.keys hn (hi.listed.held_zero hp)
  obtain ⟨hi', hkept⟩ := hi.faulted hp hk hf
  exact ⟨m', L', e, hi', hkept, hkeys⟩

/-- **The flush empties the list**, one page at a time from its end. -/
theorem flushDll_drops : ∀ (fuel : Nat) {m : Machine bs.State B} {L : List (Nat × Nat)},
    DllKeys m.pt.nframes m.th L → InFrames m.pt m.th.startFrame m.th.endFrame (L.map Prod.snd) → L.length ≤ fuel →
    ∃ m', flushDll bs fuel m = some m' ∧ Drops bs m m' (L.map Prod.snd).reverse ∧ DllKeys m.pt.nframes m'.th []
  | fuel, m, L, hi, hfr, hf => by
    have hcount := hi.dll.count
    by_cases hL : 0 < L.length
    · cases fuel with
      | zero => omega
      | succ fuel =>
        obtain ⟨A, p, v, rfl, hv⟩ := hi.last hL
        obtain ⟨h', l', ed, rl, rh⟩ := deleteLRU_dll hi.dll hi.hash hv
        have hnd := hi.nodup
        rw [List.map_append] at hnd hfr
        have ef := InFrames.flushPage (m := { m with th := { m.th with dllList := l', hashTable := h' } }) hfr
          (List.mem_append_right _ List.mem_cons_self)
        have hd : Drops bs m ⟨m.pt.dropPage bs v, { m.th with dllList := l', hashTable := h' }, m.rands, m.calls⟩ [v] :=
          ⟨rfl, rfl, rfl, rfl⟩
        obtain ⟨m', e', hd', hi'⟩ := flushDll_drops fuel (m := ⟨m.pt.dropPage bs v, _, m.rands, m.calls⟩)
          ⟨rl, hd.nframes.symm ▸ rh, (List.nodup_append.1 hnd).1⟩
          (fun q hq => (hfr.drops hd) q (List.mem_append_left _ hq)) (by simp at hf; omega)
        refine ⟨m', ?_, ?_, hd.nframes ▸ hi'⟩
        · unfold flushDll
          rw [if_pos (by omega), ed]
          simp only [Option.bind_eq_bind, Option.bind_some, ef, e']
        · rw [List.map_append, List.reverse_append]
          exact hd.trans hd'
    · have hL : L = [] := List.length_eq_zero_iff.1 (by omega)
      subst hL
      refine ⟨m, ?_, Drops.refl m, hi⟩
      have h0 : ¬ m.th.dllList.count > 0 := by rw [hcount]; simp
      cases fuel <;> exact if_neg h0

theorem flushDll_inv (fuel : Nat) {m : Machine bs.State B} {L : List (Nat × Nat)} {c : Nat} (hi : DllInv bs m L c)
    (hf : L.length ≤ fuel) : ∃ m', flushDll bs fuel m = some m' ∧ DllInv bs m' [] 0 ∧ Kept bs m.pt m'.pt := by
  obtain ⟨m', e, hd, hk⟩ := flushDll_drops fuel hi.keys hi.listed.inFrames hf
  have hp : (L.map Prod.snd).Perm ((L.map Prod.snd).reverse ++ []) := by
    rw [List.append_nil]
    exact (List.reverse_perm _).symm
  obtain ⟨hl, hkept⟩ := hd.listed hi.listed hp
  exact ⟨m', e, ⟨hk.dll, hd.nframes.symm ▸ hk.hash, hl.restart 0 (Nat.zero_le _)⟩, hkept⟩

/-! ## LFU -/

structure LfuInv (bs : BackingStore B npages) (m : Machine bs.State B) (pv : Nat) (F : List Bucket) (c : Nat) :
    Prop where
  freq : FreqRep m.th.freqList pv F
  hash : HashMaps m.pt.nframes m.th.hashTable (lfuNodes F)
  listed : Listed bs m.pt m.th.startFrame m.th.endFrame ((lfuNodes F).map Prod.snd) c

theorem push_lfu {n pv : Nat} {h : HashTable} {f : FreqList} {F : List Bucket} (hf : FreqRep f pv F)
    (hh : HashMaps n h (lfuNodes F)) {page : Nat} (hk : page ∉ (lfuNodes F).map Prod.snd)
    (hpv : pv = 0 ∨ ∀ b ∈ F, 0 < b.useCount) :
    ∃ f' node ptr, createlfuListNode f page = some (f', node) ∧ FreqRep f' 0 (addNext ptr 0 (node, page) F) ∧
      HashMaps n (insertHashNode n h page node) (lfuNodes (addNext ptr 0 (node, page) F)) := by
  obtain ⟨f', e', r'⟩ := createlfuListNode_rep hf page hpv
  refine ⟨f', _, _, e', r', ?_⟩
  rw [lfuNodes_addNext]
  exact hh.insert _ hk

/-- The victim is the oldest node of the bucket with the fewest uses. -/
theorem deleteLFU_rep {n pv : Nat} {h : HashTable} {f : FreqList} {G : List Bucket} {b : Bucket}
    (hf : FreqRep f pv (b :: G)) (hh : HashMaps n h (lfuNodes (b :: G)))
    (hnd : ((lfuNodes (b :: G)).map Prod.snd).Nodup) :
    ∃ h' f' A p k, b.nodes = A ++ [(p, k)] ∧ deleteLFU n h f = some (h', f', some k) ∧
      FreqRep f' (if A = [] then b.ptr else pv) (keepBucket b A ++ G) ∧
      HashMaps n h' (lfuNodes (keepBucket b A ++ G)) ∧
      lfuNodes (b :: G) = A ++ (p, k) :: lfuNodes G ∧ lfuNodes (keepBucket b A ++ G) = A ++ lfuNodes G := by
  rcases List.eq_nil_or_concat b.nodes with hb | ⟨A, ⟨p, k⟩, hb⟩
  · exact absurd hb (hf.full b (by simp))
  · rw [List.concat_eq_append] at hb
    have hsplit : lfuNodes (b :: G) = A ++ (p, k) :: lfuNodes G := by simp [hb]
    have hrest : lfuNodes (keepBucket b A ++ G) = A ++ lfuNodes G := by simp
    rw [hsplit] at hh hnd
    have hk : k ∉ (A ++ lfuNodes G).map Prod.snd := by
      simp only [List.map_append, List.map_cons] at hnd ⊢
      exact (List.nodup_cons.1 ((List.perm_middle.nodup_iff).1 hnd)).1
    obtain ⟨h', eh, rh⟩ := hh.delete hk
    obtain ⟨f', ef, rf⟩ := deletelfuListNode_rep hf hb
    refine ⟨h', f', A, p, k, hb, ?_, rf, by rw [hrest]; exact rh, hsplit, hrest⟩
    have hhead : f.head = b.ptr := hf.head
    have hbc := hf.toFreqLinks.bucket (F := [])
    have htail : lastPtr 0 b.nodes = p := by rw [hb, lastPtr_append]; rfl
    have hnode := hf.node (b := b) (by simp) hb
    unfold deleteLFU
    rw [hhead, if_pos (f.freqs.ne_zero hbc)]
    simp only [hbc, htail, hnode, eh, ef, Option.bind_eq_bind, Option.bind_some]

structure LfuKeys (n : Nat) (th : Thread) (F : List Bucket) : Prop where
  freq : FreqRep th.freqList 0 F
  hash : HashMaps n th.hashTable (lfuNodes F)
  nodup : ((lfuNodes F).map Prod.snd).Nodup

/-- The buckets before and after a fault on `page`.  A page that is loaded goes to the bucket of no uses, the victim
leaves from the tail of the first bucket, and a page that faults again goes on to the next use count. -/
inductive Regroup (page : Nat) : Move → List Bucket → List Bucket → Prop
  | fill {F i node ptr} : Regroup page (.fill i) F (addNext ptr 0 (node, page) F)
  | replace {b G A p v node ptr} : b.nodes = A ++ [(p, v)] →
      Regroup page (.replace v) (b :: G) (addNext ptr 0 (node, page) (keepBucket b A ++ G))
  | grant {F b G A C node ptr} : b.nodes = A ++ (node, page) :: C →
      Regroup page .grant (F ++ b :: G) (F ++ keepBucket b (A ++ C) ++ addNext ptr (b.useCount + 1) (node, page) G)

/-- The victim is taken out and the page comes in. -/
theorem LfuKeys.swap {n page : Nat} {th : Thread} {b : Bucket} {G : List Bucket} (hi : LfuKeys n th (b :: G))
    (hk : page ∉ (lfuNodes (b :: G)).map Prod.snd) :
    ∃ h' f' p k f'' node ptr A, deleteLFU n th.hashTable th.freqList = some (h', f', some k) ∧
      createlfuListNode f' page = some (f'', node) ∧ b.nodes = A ++ [(p, k)] ∧
      LfuKeys n { th with freqList := f'', hashTable := insertHashNode n h' page node }
        (addNext ptr 0 (node, page) (keepBucket b A ++ G)) := by
  obtain ⟨h', f', A, p, k, hbn, ed, rf, rh, hsplit, hrest⟩ := deleteLFU_rep hi.freq hi.hash hi.nodup
  have hpv : (if A = [] then b.ptr else 0) = 0 ∨ ∀ c ∈ keepBucket b A ++ G, 0 < c.useCount := by
    by_cases hA : A = []
    · subst hA
      exact Or.inr (fun c hc => Nat.lt_of_le_of_lt (Nat.zero_le _)
        ((List.pairwise_cons.1 hi.freq.incr).1 c (by simpa using hc)))
    · exact Or.inl (if_neg hA)
  have hnd := hi.nodup
  rw [hsplit, List.map_append, List.map_cons] at hk hnd
  obtain ⟨hkn, hndr⟩ := List.nodup_cons.1 ((List.perm_middle.nodup_iff).1 hnd)
  have hk' : page ∉ (A ++ lfuNodes G).map Prod.snd := by
    rw [List.map_append]
    intro hm
    refine hk ((List.mem_append.1 hm).elim (List.mem_append_left _) (fun h => ?_))
    exact List.mem_append_right _ (List.mem_cons_of_mem _ h)
  obtain ⟨f'', node, ptr, e', rf', rh'⟩ := push_lfu rf rh (by rw [hrest]; exact hk') hpv
  refine ⟨h', f', p, k, f'', node, ptr, A, ed, e', hbn, ⟨rf', rh', ?_⟩⟩
  rw [lfuNodes_addNext, hrest, List.map_cons]
  exact List.nodup_cons.2 ⟨hk', by rw [List.map_append]; exact hndr⟩

/-- The page comes in while there is room. -/
theorem LfuKeys.push {n page : Nat} {th : Thread} {F : List Bucket} (hi : LfuKeys n th F)
    (hk : page ∉ (lfuNodes F).map Prod.snd) :
    ∃ f' node ptr, createlfuListNode th.freqList page = some (f', node) ∧
      LfuKeys n { th with freqList := f', hashTable := insertHashNode n th.hashTable page node }
        (addNext ptr 0 (node, page) F) := by
  obtain ⟨f', node, ptr, e', rf, rh⟩ := push_lfu hi.freq hi.hash hk (Or.inl rfl)
  refine ⟨f', node, ptr, e', rf, rh, ?_⟩
  rw [lfuNodes_addNext]
  exact List.nodup_cons.2 ⟨hk, hi.nodup⟩

/-- The page goes on to the next use count. -/
theorem LfuKeys.raise {n node page : Nat} {th : Thread} {F : List Bucket} (hi : LfuKeys n th F)
    (hx : (node, page) ∈ lfuNodes F) :
    ∃ f' F', moveNodeToNextFreq th.freqList node = some f' ∧ LfuKeys n { th with freqList := f' } F' ∧
      (lfuNodes F).Perm (lfuNodes F') ∧ Regroup page .grant F F' := by
  obtain ⟨b, hbF, hxb⟩ := List.mem_flatMap.1 hx
  obtain ⟨F₁, G, rfl⟩ := List.append_of_mem hbF
  obtain ⟨A, C, hbn⟩ := List.append_of_mem hxb
  obtain ⟨f', e', rf⟩ := moveNodeToNextFreq_rep hi.freq hbn
  have hperm : (lfuNodes (F₁ ++ b :: G)).Perm (lfuNodes (F₁ ++ keepBucket b (A ++ C) ++
      addNext th.freqList.freqs.brk (b.useCount + 1) (node, page) G)) := by
    simp only [lfuNodes_append, lfuNodes_cons, lfuNodes_keepBucket, lfuNodes_addNext, hbn, List.append_assoc]
    refine List.Perm.append_left _ (List.Perm.append_left _ ?_)
    exact List.perm_middle.symm
  exact ⟨f', _, e', ⟨rf, hi.hash.congr (fun x => hperm.mem_iff), ((hperm.map _).nodup_iff).1 hi.nodup⟩, hperm, .grant hbn⟩

/-- **LFU takes its victim from the pages of the fewest faults.** -/
theorem lfuPageFaultHandler_regroups {m : Machine bs.State B} {F : List Bucket} (hi : LfuKeys m.pt.nframes m.th F)
    (hn : 0 < m.pt.nframes) {page : Nat}
    (ht : Held m.pt m.th.startFrame m.th.endFrame 0 ((lfuNodes F).map Prod.snd) page) :
    ∃ m' F' mv, lfuPageFaultHandler bs m page = some m' ∧ LfuKeys m.pt.nframes m'.th F' ∧
      Faulted bs m m' 0 page ((lfuNodes F).map Prod.snd) ((lfuNodes F').map Prod.snd) mv ∧ Regroup page mv F F' := by
  unfold lfuPageFaultHandler
  rw [getEntry_eq m ht.lt]
  simp only [Option.bind_eq_bind, Option.bind_some]
  by_cases hb : m.pt.pageBits page = .none
  · have hk := ht.bits.1 hb
    rw [if_pos hb, hi.freq.count]
    by_cases hroom : (lfuNodes F).length < m.pt.nframes
    · obtain ⟨f', node, ptr, e', hi'⟩ := hi.push hk
      have hlt : ((lfuNodes F).map Prod.snd).length + 0 < m.pt.nframes := by rw [List.length_map]; exact hroom
      have ef := Held.fillFrame { m.th with
        freqList := f', hashTable := insertHashNode m.pt.nframes m.th.hashTable page node } m.rands m.calls ht hk hlt
      have hturn := Turn.fill (s := m.th.startFrame) hk hlt (.refl _)
      rw [List.length_map, Nat.add_zero] at hturn ef
      rw [if_pos hroom]
      simp only [e', Option.bind_some, ef]
      refine ⟨_, _, _, rfl, hi', .of_make ht ?_ rfl rfl, .fill⟩
      rw [lfuNodes_addNext]
      exact hturn
    · rw [if_neg hroom]
      cases F with
      | nil => simp [lfuNodes] at hroom; omega
      | cons b G =>
        obtain ⟨h', f', p, k, f'', node, ptr, A, ed, e', hbn, hi'⟩ := hi.swap hk
        have hfull : m.pt.nframes ≤ ((lfuNodes (b :: G)).map Prod.snd).length := by
          rw [List.length_map]
          exact Nat.not_lt.1 hroom
        have hkeys : (lfuNodes (b :: G)).map Prod.snd = A.map Prod.snd ++ k :: (lfuNodes G).map Prod.snd := by
          simp [hbn]
        have hv : k ∈ (lfuNodes (b :: G)).map Prod.snd := by
          rw [hkeys]
          exact List.mem_append_right _ List.mem_cons_self
        have er := Held.replacePage { m.th with freqList := f', hashTable := h' } m.rands m.calls ht hk hv
        simp only [ed, Option.bind_some, Option.getD_some, er, e']
        refine ⟨_, _, _, rfl, hi', .of_make ht ?_ rfl rfl, .replace hbn⟩
        rw [lfuNodes_addNext, lfuNodes_append, lfuNodes_keepBucket, List.map_cons, List.map_append]
        exact .replace hk hfull hkeys (.refl _)
  · have hk : page ∈ (lfuNodes F).map Prod.snd := by_contra fun hk => hb (ht.bits.2 hk)
    rw [if_neg hb]
    obtain ⟨⟨node, k⟩, hx, rfl⟩ := List.mem_map.1 hk
    obtain ⟨f', F', e', hi', hperm, hr⟩ := hi.raise hx
    have eg := Held.grant { m.th with freqList := f' } m.rands m.calls ht hk
    simp only [hi.hash.get hx, Option.bind_some, e', eg]
    exact ⟨_, F', _, rfl, hi', .of_make ht (.grant hk (hperm.map _).symm) rfl rfl, hr⟩

theorem lfuPageFaultHandler_faulted {m : Machine bs.State B} {F : List Bucket} (hi : LfuKeys m.pt.nframes m.th F)
    (hn : 0 < m.pt.nframes) {page : Nat}
    (ht : Held m.pt m.th.startFrame m.th.endFrame 0 ((lfuNodes F).map Prod.snd) page) :
    ∃ m' F' mv, lfuPageFaultHandler bs m page = some m' ∧ LfuKeys m.pt.nframes m'.th F' ∧
      Faulted bs m m' 0 page ((lfuNodes F).map Prod.snd) ((lfuNodes F').map Prod.snd) mv := by
  obtain ⟨m', F', mv, e, hk, hf, -⟩ := lfuPageFaultHandler_regroups hi hn ht
  exact ⟨m', F', mv, e, hk, hf⟩

/-- **LFU keeps its structures and every page's bytes.** -/
theorem lfuPageFaultHandler_inv {m : Machine bs.State B} {F : List Bucket}
    (hi : LfuInv bs m 0 F (lfuNodes F).length) (hn : 0 < m.pt.nframes) {page : Nat} (hp : page < npages) :
    ∃ m' F', lfuPageFaultHandler bs m page = some m' ∧ LfuInv bs m' 0 F' (lfuNodes F').length ∧
      Kept bs m.pt m'.pt := by
  have hlist := hi.listed
  obtain ⟨m', F', mv, e, hk, hf⟩ := lfuPageFaultHandler_faulted ⟨hi.freq, hi.hash, hlist.nodup⟩ hn (hlist.held_zero hp)
  rw [← List.length_map (f := Prod.snd)] at hlist
  obtain ⟨hl, hkept⟩ := hf.listed hp hlist
  rw [List.length_map] at hl
  exact ⟨m', F', e, ⟨hk.freq, by rw [hf.nframes]; exact hk.hash, hl⟩, hkept⟩

/-- With no bucket left, no stale link is. -/
theorem FreqRep.of_nil {f : FreqList} {pv : Nat} (hr : FreqRep f pv []) : FreqRep f 0 [] :=
  ⟨⟨trivial, hr.head, hr.nodes, hr.bptrs, hr.nptrs⟩, hr.full, hr.incr, hr.count⟩

/-- The body of the loop in LFU's flush. -/
def flushRound (bs : BackingStore B npages) (m : Machine bs.State B) : Option (Machine bs.State B) := do
  let (h, f, victim) ← deleteLFU m.pt.nframes m.th.hashTable m.th.freqList
  let tempPage ← victim
  flushPage bs { m with th := { m.th with freqList := f, hashTable := h } } tempPage

theorem flushLfu_succ (fuel : Nat) {m : Machine bs.State B} (hc : m.th.freqList.count > 0) :
    flushLfu bs (fuel + 1) m = (flushRound bs m).bind (flushLfu bs fuel) := by
  rw [flushLfu, if_pos hc, flushRound]
  rcases deleteLFU m.pt.nframes m.th.hashTable m.th.freqList with _ | ⟨h, f, _ | v⟩
  · rfl
  · rfl
  · rfl

/-- **A round takes the tail of the first bucket out.** -/
theorem flushRound_drops (bs : BackingStore B npages) {m : Machine bs.State B} {pv : Nat} {b : Bucket} {G : List Bucket}
    (hr : FreqRep m.th.freqList pv (b :: G)) (hh : HashMaps m.pt.nframes m.th.hashTable (lfuNodes (b :: G)))
    (hnd : ((lfuNodes (b :: G)).map Prod.snd).Nodup)
    (hfr : InFrames m.pt m.th.startFrame m.th.endFrame ((lfuNodes (b :: G)).map Prod.snd)) :
    ∃ m₁ h f A p v pv', b.nodes = A ++ [(p, v)] ∧
      deleteLFU m.pt.nframes m.th.hashTable m.th.freqList = some (h, f, some v) ∧ flushRound bs m = some m₁ ∧
      Drops bs m m₁ [v] ∧ FreqRep m₁.th.freqList pv' (keepBucket b A ++ G) ∧
      HashMaps m.pt.nframes m₁.th.hashTable (lfuNodes (keepBucket b A ++ G)) ∧
      ((lfuNodes (b :: G)).map Prod.snd).Perm (v :: (lfuNodes (keepBucket b A ++ G)).map Prod.snd) := by
  obtain ⟨h', f', A, p, v, hbn, ed, rf, rh, hsplit, hrest⟩ := deleteLFU_rep hr hh hnd
  have hperm : ((lfuNodes (b :: G)).map Prod.snd).Perm (v :: (lfuNodes (keepBucket b A ++ G)).map Prod.snd) := by
    rw [hsplit, hrest, List.map_append, List.map_cons, List.map_append]
    exact List.perm_middle
  have ef := InFrames.flushPage (m := { m with th := { m.th with freqList := f', hashTable := h' } }) hfr
    (hperm.mem_iff.2 List.mem_cons_self)
  refine ⟨⟨m.pt.dropPage bs v, { m.th with freqList := f', hashTable := h' }, m.rands, m.calls⟩, h', f', A, p, v, _, hbn,
    ed, ?_, ⟨rfl, rfl, rfl, rfl⟩, rf, rh, hperm⟩
  rw [flushRound, ed]
  exact ef

/-- **LFU's flush empties the buckets**, from the one with the fewest faults. -/
theorem flushLfu_drops : ∀ (fuel : Nat) {m : Machine bs.State B} {pv : Nat} {F : List Bucket},
    FreqRep m.th.freqList pv F → HashMaps m.pt.nframes m.th.hashTable (lfuNodes F) →
    ((lfuNodes F).map Prod.snd).Nodup → InFrames m.pt m.th.startFrame m.th.endFrame ((lfuNodes F).map Prod.snd) →
    (lfuNodes F).length ≤ fuel →
    ∃ m' vs, flushLfu bs fuel m = some m' ∧ Drops bs m m' vs ∧ vs.Perm ((lfuNodes F).map Prod.snd) ∧
      LfuKeys m.pt.nframes m'.th []
  | fuel, m, pv, [], hr, hh, hnd, _, _ => by
    have h0 : ¬ m.th.freqList.count > 0 := by rw [hr.count]; simp [lfuNodes]
    refine ⟨m, [], ?_, Drops.refl m, .refl _, hr.of_nil, hh, hnd⟩
    cases fuel <;> exact if_neg h0
  | fuel, m, pv, b :: G, hr, hh, hnd, hfr, hf => by
    obtain ⟨m₁, -, -, A, p, v, pv', -, -, e₁, hd, rf, rh, hperm⟩ := flushRound_drops bs hr hh hnd hfr
    have hlen := hperm.length_eq
    rw [List.length_map, List.length_cons, List.length_map] at hlen
    have hcount : m.th.freqList.count > 0 := by
      rw [hr.count]
      omega
    cases fuel with
    | zero => omega
    | succ fuel =>
      have hfr₁ : InFrames m₁.pt m₁.th.startFrame m₁.th.endFrame ((lfuNodes (keepBucket b A ++ G)).map Prod.snd) := by
        rw [hd.start, hd.stop]
        exact fun q hq => hfr.drops hd q (hperm.mem_iff.2 (List.mem_cons_of_mem _ hq))
      obtain ⟨m', vs, e', hd', hp', hi'⟩ := flushLfu_drops fuel rf (hd.nframes.symm ▸ rh)
        (List.nodup_cons.1 (hperm.nodup_iff.1 hnd)).2 hfr₁ (by omega)
      refine ⟨m', v :: vs, ?_, hd.trans hd', (hp'.cons v).trans hperm.symm, hd.nframes ▸ hi'⟩
      rw [flushLfu_succ fuel hcount, e₁]
      exact e'

theorem flushLfu_inv (fuel : Nat) {m : Machine bs.State B} {pv : Nat} {F : List Bucket} {c : Nat}
    (hi : LfuInv bs m pv F c) (hf : (lfuNodes F).length ≤ fuel) :
    ∃ m', flushLfu bs fuel m = some m' ∧ LfuInv bs m' 0 [] 0 ∧ Kept bs m.pt m'.pt := by
  obtain ⟨m', vs, e, hd, hp, hk⟩ := flushLfu_drops fuel hi.freq hi.hash hi.listed.nodup hi.listed.inFrames hf
  rw [← List.append_nil vs] at hp
  obtain ⟨hl, hkept⟩ := hd.listed hi.listed hp.symm
  exact ⟨m', e, ⟨hk.freq, hd.nframes.symm ▸ hk.hash, hl.restart 0 (Nat.zero_le _)⟩, hkept⟩

end Vmem
end Bb
