import BlueBridge.VmemPaged
/-!
# VmemProgress — from every state, every access gets through

Two faults are all a store takes, from any state that loads and stores lead to (`access_progresses_iff`).  FIFO with `2
^ 30` frames and pages is left out: load page 0, then store to the pages 1, 2, …, and page 0 ages by two with each of
them (`Climb`).
-/
namespace Bb
namespace Vmem

open Cells Recency
open Function (update update_self update_of_ne)

variable {B npages : Nat} {bs : BackingStore B npages}

/-! ## What `getHashNode` finds -/

/-- `getHashNode` returns the list node of the key; the other policies do not ask it. -/
def HashFinds {S : Type} (pol : Policy) (m : Machine S B) (page : Nat) : Prop :=
  match pol with
  | .lru => ∃ node c, getHashNode m.pt.nframes m.th.hashTable page = some node ∧
      m.th.dllList.nodes.cell node = some c ∧ c.val = page
  | .lfu => ∃ node c, getHashNode m.pt.nframes m.th.hashTable page = some node ∧
      m.th.freqList.nodes.cell node = some c ∧ c.val.key = page
  | _    => True

theorem HashMaps.getHashNode {n : Nat} {h : HashTable} {L : List (Nat × Nat)} (hm : HashMaps n h L) {lp key : Nat}
    (hk : (lp, key) ∈ L) : getHashNode n h key = some lp := by
  obtain ⟨es, hr, hes⟩ := hm
  exact getHashNode_rep hr ((hes key lp).2 hk)

theorem Keyed.hashFinds {pol : Policy} {c page : Nat} {m : Machine bs.State B} {ks h : List Nat}
    (hk : Keyed pol c m.pt m.th ks h) (hp : page ∈ ks) : HashFinds pol m page := by
  cases pol with
  | lru =>
    obtain ⟨L, hL, rfl⟩ := hk
    obtain ⟨⟨node, _⟩, hmem, rfl⟩ := List.mem_map.1 hp
    obtain ⟨a, b, hc⟩ := hL.dll.seg.cell _ hmem
    exact ⟨node, _, hL.hash.getHashNode hmem, hc, rfl⟩
  | lfu =>
    obtain ⟨F, hF, rfl⟩ := hk
    obtain ⟨⟨node, key⟩, hmem, rfl⟩ := List.mem_map.1 hp
    obtain ⟨b, hb, hbn⟩ := List.mem_flatMap.1 hmem
    obtain ⟨nx, pv, hc⟩ := (hF.freq.nodes b hb).cell (node, ⟨key, b.ptr⟩) (List.mem_map.2 ⟨_, hbn, rfl⟩)
    exact ⟨node, _, hF.hash.getHashNode hmem, hc, rfl⟩
  | fifo  => trivial
  | ffifo => trivial
  | rand  => trivial

/-- An access that gets through: one fault for a load, two for a store, and the hash table knows what is resident. -/
def Progresses (bs : BackingStore B npages) (pol : Policy) (m : Machine bs.State B) (a : Nat) : Prop :=
  (access bs pol a false 2 m).isSome ∧ (access bs pol a true 3 m).isSome ∧
    (m.pt.pageBits (a / B) ≠ .none → HashFinds pol m (a / B))

theorem Ready.progresses {pol : Policy} {a : Nat} {m : Machine bs.State B} {ks h : List Nat}
    (hp : Ready bs pol m ks h) (ha : a < npages * B) : Progresses bs pol m a := by
  have hpage : a / B < npages := Nat.div_lt_of_lt_mul (by rw [Nat.mul_comm]; exact ha)
  obtain ⟨⟨m₁, e₁⟩, m₂, e₂⟩ := hp.access hpage 0
  refine ⟨by rw [e₁]; rfl, by rw [e₂]; rfl, fun hb => hp.keyed.hashFinds ?_⟩
  exact by_contra fun hk => hb ((hp.listed.bits_iff hpage).2 hk)

/-! ## How an age comes to its end -/

/-- A fault of FIFO that leaves the oldest page where it is. -/
theorem Paged.fault_front {m : Machine bs.State B} {A h : List Nat} {v page : Nat}
    (hp : Paged bs .fifo 0 m (A ++ [v]) h) (hpage : page < npages) (hne : page ≠ v)
    (hb : m.pt.pageBits page ≠ .readWrite) (hroom : page ∈ A ∨ A.length + 1 < m.pt.nframes)
    (hage : (age h v : Int) < intMax) :
    ∃ m' mv, pageFaultHandler bs .fifo m page = some m' ∧ Paged bs .fifo 0 m' (page :: A.erase page ++ [v]) (page :: h) ∧
      Faulted bs m m' 0 page (A ++ [v]) (page :: A.erase page ++ [v]) mv ∧
      m'.pt.pageBits v = m.pt.pageBits v := by
  have hov : ∀ p ∈ A ++ [v], (age h p : Int) ≠ intMax := by
    intro p hpk
    rcases List.mem_append.1 hpk with hpA | hpv
    · have := age_lt (hp.keyed.recent.last_lt p hpA)
      omega
    · rw [List.mem_singleton.1 hpv]
      omega
  obtain ⟨m', ks', mv, e, hp', hf, hord, -⟩ := hp.fault hpage (fun _ => hb) (Or.inl rfl) (fun _ => hov)
  have hkeys : lruKeys m.pt.nframes (A ++ [v]) page = page :: A.erase page ++ [v] := by
    unfold lruKeys loadKey
    by_cases hA : page ∈ A
    · rw [if_pos (List.mem_append_left _ hA), List.erase_append_left _ hA]
      rfl
    · have hmem : page ∉ A ++ [v] := fun h =>
        (List.mem_append.1 h).elim hA (fun h => hne (List.mem_singleton.1 h))
      have hlt := hroom.resolve_left hA
      rw [if_neg hmem, if_pos (by rw [List.length_append, List.length_singleton]; exact hlt), List.erase_of_not_mem hA]
      rfl
  obtain rfl := hord.trans hkeys
  refine ⟨m', mv, e, hp', hf, ?_⟩
  rw [hf.table]
  refine make_bits_of_ne _ _ (Ne.symm hne) ?_
  rintro rfl
  have hturn := hf.turn
  cases hturn with
  | replace hk hfull =>
    rw [List.length_append, List.length_singleton] at hfull
    have hlt := hroom.resolve_left (fun hA => hk (List.mem_append_left _ hA))
    omega

/-- FIFO after a load of page 0 and a store to each of the pages 1 to `k`. -/
def Climb (bs : BackingStore B npages) (m : Machine bs.State B) (k : Nat) : Prop :=
  m.pt.pageBits 0 = .read ∧ ∃ A h, Paged bs .fifo 0 m (A ++ [0]) h ∧ A.length = k ∧ (∀ p ∈ A, p ≤ k) ∧ age h 0 = 2 * k + 1

/-- The load of page 0. -/
theorem Paged.climb {m : Machine bs.State B} {h : List Nat} (hp : Paged bs .fifo 0 m [] h) (hpages : 0 < npages) :
    ∃ m', pageFaultHandler bs .fifo m 0 = some m' ∧ Climb bs m' 0 := by
  have hb : m.pt.pageBits 0 = .none := (hp.listed.bits_iff hpages).2 List.not_mem_nil
  obtain ⟨m', ks', mv, e, hp', hf, hord, -⟩ := hp.fault hpages (fun _ => by rw [hb]; decide) (Or.inl rfl)
    (fun _ p hpk => by cases hpk)
  have hkeys : lruKeys m.pt.nframes [] 0 = [0] := if_pos hp.frames
  obtain rfl := hord.trans hkeys
  refine ⟨m', e, ?_, [], _, hp', rfl, fun p hpk => (by cases hpk), age_cons_self _ _⟩
  rw [hf.bits]
  have hturn := hf.turn
  cases hturn with
  | fill => rfl
  | replace => rfl
  | grant hk => cases hk

/-- **At an age of `INT_MAX` the next fault is undefined.** -/
theorem Climb.overflow {m : Machine bs.State B} {k : Nat} (hc : Climb bs m k) (hk : k + 1 = 2 ^ 30)
    (hpages : 0 < npages) : pageFaultHandler bs .fifo m 0 = none := by
  obtain ⟨-, A, h, hp, -, -, hage⟩ := hc
  refine fifoPageFaultHandler_overflow hp.keyed (hp.listed.held_zero hpages) (List.mem_append_right _ List.mem_cons_self) ?_
  unfold intMax
  omega

section Runs

variable [NeZero B]

/-- A store to the next page: two faults. -/
theorem Climb.store {m : Machine bs.State B} {k a : Nat} (hc : Climb bs m k) (ha : a / B = k + 1)
    (hk : k + 1 < min m.pt.nframes npages) (hmax : k + 1 < 2 ^ 30) :
    ∃ m', access bs .fifo a true 3 m = some m' ∧ m'.pt.nframes = m.pt.nframes ∧
      ∀ v, Climb bs (storeByte m' a v) (k + 1) := by
  obtain ⟨hb0, A, h, hp, hlen, hA, hage⟩ := hc
  have hpage : k + 1 < npages := by omega
  have hkA : k + 1 ∉ A := fun hm => by have := hA _ hm; omega
  have hk0 : k + 1 ∉ A ++ [0] := fun hm =>
    (List.mem_append.1 hm).elim hkA (fun h => Nat.succ_ne_zero k (List.mem_singleton.1 h))
  have hb : m.pt.pageBits (k + 1) = .none := (hp.listed.bits_iff hpage).2 hk0
  obtain ⟨m₁, mv₁, e₁, hp₁, hf₁, hz₁⟩ := hp.fault_front hpage (Nat.succ_ne_zero k) (by rw [hb]; decide)
    (Or.inr (by omega)) (by unfold intMax; omega)
  rw [List.erase_of_not_mem hkA] at hp₁ hf₁
  have hb₁ : m₁.pt.pageBits (k + 1) = .read := by
    rw [hf₁.bits]
    have hturn := hf₁.turn
    cases hturn with
    | fill => rfl
    | replace => rfl
    | grant hk => exact absurd hk hk0
  have hage₁ : age ((k + 1) :: h) 0 = 2 * k + 2 := by rw [age_cons_of_ne (Nat.succ_ne_zero k).symm, hage]
  obtain ⟨m₂, mv₂, e₂, hp₂, hf₂, hz₂⟩ := hp₁.fault_front hpage (Nat.succ_ne_zero k) (by rw [hb₁]; decide)
    (Or.inl List.mem_cons_self) (by rw [hage₁]; unfold intMax; omega)
  rw [List.erase_cons_head] at hp₂ hf₂
  obtain rfl := hp₁.grant_of_resident hf₂ hpage (by rw [hb₁]; decide)
  have hb₂ : m₂.pt.pageBits (k + 1) = .readWrite := hf₂.bits
  have hacc : access bs .fifo a true 3 m = some m₂ := by
    rw [← ha] at hpage hb hb₁ hb₂ e₁ e₂
    rw [access_of_fault hp.listed.pages hpage (by rw [hb]; rfl) e₁,
      access_of_fault hp₁.listed.pages hpage (by rw [hb₁]; rfl) e₂]
    exact access_of_allows hp₂.listed.pages hpage (by rw [hb₂]; rfl) 0
  refine ⟨m₂, hacc, hf₂.nframes.trans hf₁.nframes, fun v =>
    ⟨?_, (k + 1) :: A, (k + 1) :: (k + 1) :: h, ?_, ?_, ?_, ?_⟩⟩
  · exact (hz₂.trans hz₁).trans hb0
  · rw [← ha] at hpage hb₂
    exact hp₂.poke hpage hb₂ _
  · rw [List.length_cons, hlen]
  · intro p hm
    rcases List.mem_cons.1 hm with rfl | hm
    · exact Nat.le_refl _
    · exact Nat.le_succ_of_le (hA p hm)
  · rw [age_cons_of_ne (Nat.succ_ne_zero k).symm, hage₁]
    omega

/-- Stores to `j` pages from `i` on. -/
def storePages (B i j : Nat) : List Op := (List.range' i j).map (fun p => .store (p * B) 0)

theorem Climb.runOps : ∀ (j : Nat) {m : Machine bs.State B} {k : Nat}, Climb bs m k →
    k + j < min m.pt.nframes npages → k + j < 2 ^ 30 →
    ∃ m', runOps bs .fifo 3 m (storePages B (k + 1) j) = some m' ∧ Climb bs m' (k + j)
  | 0, m, k, hc, _, _ => ⟨m, rfl, hc⟩
  | j + 1, m, k, hc, hj, hmax => by
    have hdiv : (k + 1) * B / B = k + 1 := Nat.mul_div_cancel _ (Nat.pos_of_ne_zero (NeZero.ne B))
    obtain ⟨m₁, e₁, hn, hc₁⟩ := hc.store hdiv (by omega) (by omega)
    have hn₁ : (storeByte m₁ ((k + 1) * B) 0).pt.nframes = m.pt.nframes := hn
    obtain ⟨m', e', hc'⟩ := Climb.runOps j (hc₁ 0) (by rw [hn₁]; omega) (by omega)
    refine ⟨m', ?_, by rw [show k + (j + 1) = k + 1 + j by omega]; exact hc'⟩
    rw [storePages, List.range'_succ, List.map_cons, Vmem.runOps, execOp, e₁]
    exact e'

/-- **With `2 ^ 30` frames and pages FIFO comes to an age that cannot grow.** -/
theorem handler_overflow {m : Machine bs.State B} {h : List Nat} (hp : Paged bs .fifo 0 m [] h)
    (hbig : 2 ^ 30 ≤ min m.pt.nframes npages) :
    ∃ ops m', .flush ∉ ops ∧ runOps bs .fifo 3 m ops = some m' ∧ m'.pt.npages = npages ∧ m'.pt.pageBits 0 = .read ∧
      pageFaultHandler bs .fifo m' 0 = none := by
  have hpages : 0 < npages := by omega
  have hdiv : 0 / B = 0 := Nat.zero_div B
  have hb : m.pt.pageBits (0 / B) = .none := by
    rw [hdiv]
    exact (hp.listed.bits_iff hpages).2 List.not_mem_nil
  obtain ⟨m₁, e₁, hc₁⟩ := hp.climb hpages
  obtain ⟨-, _, _, hp₁, -⟩ := id hc₁
  have hn₁ : m₁.pt.nframes = m.pt.nframes := by
    obtain ⟨_, _, -, hf, -⟩ := hp.fault_some hpages (fun _ => by rw [← hdiv, hb]; decide) e₁
    exact hf.nframes
  have hload : execOp bs .fifo 3 m (.load 0) = some (m₁, some (loadByte m₁ 0)) := by
    rw [execOp, access_of_fault hp.listed.pages (by rw [hdiv]; exact hpages) (by rw [hb]; rfl) (by rw [hdiv]; exact e₁),
      access_of_allows hp₁.listed.pages (by rw [hdiv]; exact hpages) (by rw [hdiv, hc₁.1]; rfl)]
    rfl
  obtain ⟨k, hk⟩ : ∃ k, k + 1 = 2 ^ 30 := ⟨2 ^ 30 - 1, by omega⟩
  obtain ⟨m', e', hc'⟩ := hc₁.runOps k (by rw [hn₁]; omega) (by omega)
  rw [Nat.zero_add] at hc'
  obtain ⟨hb', _, _, hp', -⟩ := id hc'
  refine ⟨.load 0 :: storePages B 1 k, m', ?_, ?_, hp'.listed.pages, hb', hc'.overflow hk hpages⟩
  · rw [List.mem_cons, not_or]
    refine ⟨Op.noConfusion, fun hm => ?_⟩
    obtain ⟨p, -, hp⟩ := List.mem_map.1 hm
    cases hp
  · rw [Vmem.runOps, hload]
    exact e'

theorem access_overflow {m : Machine bs.State B} {h : List Nat} (hp : Paged bs .fifo 0 m [] h)
    (hbig : 2 ^ 30 ≤ min m.pt.nframes npages) :
    ∃ ops m', .flush ∉ ops ∧ runOps bs .fifo 3 m ops = some m' ∧ ∀ fuel, access bs .fifo 0 true fuel m' = none := by
  obtain ⟨ops, m', hops, e', hpages, hb, hnone⟩ := handler_overflow hp hbig
  refine ⟨ops, m', hops, e', fun fuel => ?_⟩
  cases fuel with
  | zero => rfl
  | succ fuel =>
    rw [access, Nat.zero_div, if_pos (by omega), if_neg (by rw [hb]; decide), hnone]
    rfl

/-! ## Progress -/

/-- **Every access in range makes progress**, from every state that loads and stores lead to and whatever `rand()`
answers, exactly if FIFO's ages cannot leave an `int`. -/
theorem access_progresses_iff (pol : Policy) {nframes : Nat} (hn : 1 ≤ nframes) (store : bs.State)
    (physmem : Nat → Block B) :
    (∀ rands fuel ops m, .flush ∉ ops →
      runOps bs pol fuel (initVirtualMemory bs nframes store physmem rands) ops = some m →
      ∀ a, a < npages * B → Progresses bs pol m a) ↔
    (pol = .fifo → 2 * min nframes npages < 2 ^ 31) := by
  constructor
  · rintro hall rfl
    by_contra hbig
    have hp : Paged bs .fifo 0 (initVirtualMemory bs nframes store physmem (fun _ => 0)) [] [] :=
      paged_initVirtualMemory .fifo hn store physmem _
    obtain ⟨ops, m, hops, e, hnone⟩ := access_overflow hp (show 2 ^ 30 ≤ min nframes npages by omega)
    have hpos : 0 < npages * B := Nat.mul_pos (by omega) (Nat.pos_of_ne_zero (NeZero.ne B))
    have hsome := (hall _ 3 ops m hops e 0 hpos).2.1
    rw [hnone] at hsome
    cases hsome
  · intro hfit rands fuel ops m hops e a ha
    have hready := ready_initVirtualMemory hn hfit store physmem rands
    obtain ⟨⟨ks, h, hp⟩, -⟩ := (stable_ready pol).runOps ops (fun hmem => absurd hmem hops) ⟨[], [], hready⟩ e
    exact hp.progresses ha

/-- One frame for three pages, with a written page in it. -/
theorem access_progresses_lru : ∃ m, runOps (memStore 2 3) .lru 3
      (initVirtualMemory (memStore 2 3) 1 (fun _ _ => 0) (fun _ _ => 0) (fun _ => 0)) [.load 2, .store 0 7] = some m ∧
    Progresses (memStore 2 3) .lru m 4 := by
  have hrun : (runOps (memStore 2 3) .lru 3 (initVirtualMemory (memStore 2 3) 1 (fun _ _ => 0) (fun _ _ => 0)
      (fun _ => 0)) [.load 2, .store 0 7]).isSome = true := by decide
  obtain ⟨m, e⟩ := Option.isSome_iff_exists.1 hrun
  exact ⟨m, e, (access_progresses_iff .lru (by decide) _ _).2 (by decide) _ 3 _ m (by simp) e 4 (by decide)⟩

/-- FIFO with `2 ^ 30` frames and pages: after a load and a store to every other page no store to page 0 gets through. -/
theorem access_overflows : ∃ ops m, .flush ∉ ops ∧
    runOps (memStore 1 (2 ^ 30)) .fifo 3
      (initVirtualMemory (memStore 1 (2 ^ 30)) (2 ^ 30) (fun _ _ => 0) (fun _ _ => 0) (fun _ => 0)) ops = some m ∧
    access (memStore 1 (2 ^ 30)) .fifo 0 true 3 m = none := by
  have hp : Paged (memStore 1 (2 ^ 30)) .fifo 0 (initVirtualMemory (memStore 1 (2 ^ 30)) (2 ^ 30) (fun _ _ => 0)
      (fun _ _ => 0) (fun _ => 0)) [] [] := paged_initVirtualMemory .fifo (by decide) _ _ _
  obtain ⟨ops, m, hops, e, hnone⟩ := access_overflow hp (Nat.le_of_eq (Nat.min_self _).symm)
  exact ⟨ops, m, hops, e, hnone 3⟩

end Runs

end Vmem
end Bb
