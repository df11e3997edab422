import BlueBridge.VmemCore
/-!
# VmemMoves — the one thing a fault does

A fault is a `Move` of the table and a `Turn` of the policy's keys: the page enters by the next frame, it takes the frame
of a victim among the keys, or it is a key and may be written from now on.  `Held` is what a handler has to find in the
table to make its move; the tables of other threads do not matter for it.  `Listed.turn` is what the move then keeps.
-/
namespace Bb
namespace Vmem

open Function (update update_self update_of_ne)

variable {B npages : Nat} {bs : BackingStore B npages}

inductive Move where
  | fill (i : Nat)
  | replace (v : Nat)
  | grant
  deriving DecidableEq

def PageTable.make (bs : BackingStore B npages) (pt : PageTable bs.State B) (page : Nat) :
    Move → PageTable bs.State B
  | .fill i    => pt.fillPage bs page i
  | .replace v => (pt.dropPage bs v).fillPage bs page (pt.pageMapping v)
  | .grant     => pt.grant page

@[simp] theorem make_npages (pt : PageTable bs.State B) (page : Nat) (mv : Move) :
    (pt.make bs page mv).npages = pt.npages := by
  cases mv with
  | fill i    => rfl
  | replace v => exact dropPage_npages pt v
  | grant     => rfl

@[simp] theorem make_nframes (pt : PageTable bs.State B) (page : Nat) (mv : Move) :
    (pt.make bs page mv).nframes = pt.nframes := by
  cases mv with
  | fill i    => rfl
  | replace v => exact dropPage_nframes pt v
  | grant     => rfl

/-- What the page may be used for afterwards. -/
def Move.bits : Move → Prot
  | .grant => .readWrite
  | _      => .read

@[simp] theorem make_bits_self (pt : PageTable bs.State B) (page : Nat) (mv : Move) :
    (pt.make bs page mv).pageBits page = mv.bits := by
  cases mv <;> exact update_self ..

theorem make_bits_of_ne (pt : PageTable bs.State B) {page q : Nat} (mv : Move) (hq : q ≠ page)
    (hv : mv ≠ .replace q) : (pt.make bs page mv).pageBits q = pt.pageBits q := by
  cases mv with
  | fill i    => exact update_of_ne hq _ _
  | replace v =>
    have hqv : q ≠ v := fun h => hv (h ▸ rfl)
    refine (update_of_ne hq _ _).trans ?_
    rw [dropPage_bits, update_of_ne hqv]
  | grant     => exact update_of_ne hq _ _

/-- The frame the page has afterwards. -/
def Move.frame {S : Type} (pt : PageTable S B) (page : Nat) : Move → Nat
  | .fill i    => i
  | .replace v => pt.pageMapping v
  | .grant     => pt.pageMapping page

theorem make_mapping (pt : PageTable bs.State B) (page : Nat) (mv : Move) :
    (pt.make bs page mv).pageMapping = update pt.pageMapping page (mv.frame pt page) := by
  cases mv with
  | fill i    => rfl
  | replace v => exact congrArg (fun f => update f page (pt.pageMapping v)) (dropPage_mapping pt v)
  | grant     => rfl

/-- A move writes the one frame. -/
theorem make_physmem_of_ne (pt : PageTable bs.State B) (page : Nat) {mv : Move} {i : Nat} (hi : i ≠ mv.frame pt page) :
    (pt.make bs page mv).physmem i = pt.physmem i := by
  cases mv with
  | fill j    => exact update_of_ne hi _ _
  | replace v => exact (update_of_ne hi _ _).trans (congrFun (dropPage_physmem pt v) i)
  | grant     => rfl

/-- A move writes the block of its victim, if any. -/
theorem make_content_of_ne (pt : PageTable bs.State B) {page q : Nat} {mv : Move} (hp : page < npages) (hq : q < npages)
    (hv : ∀ v, mv = .replace v → v < npages ∧ q ≠ v) :
    bs.content (pt.make bs page mv).store q = bs.content pt.store q := by
  cases mv with
  | fill i    => exact bs.read_content _ _ _ hp hq
  | replace v =>
    obtain ⟨hvlt, hne⟩ := hv v rfl
    refine (bs.read_content _ _ _ hp hq).trans ?_
    show bs.content (pt.dropPage bs v).store q = _
    rw [dropPage_content pt hvlt hq, if_neg (fun h => hne h.1)]
  | grant     => rfl

/-- FIFO writes its arrays beside the move. -/
theorem dropPage_arrays (pt : PageTable bs.State B) (v : Nat) (fs : Nat → Int) (fp : Nat → Nat) :
    ({ pt with frameState := fs, framePage := fp } : PageTable bs.State B).dropPage bs v =
      { pt.dropPage bs v with frameState := fs, framePage := fp } := by
  unfold PageTable.dropPage PageTable.setEntry PageTable.writeBlock
  split <;> rfl

theorem make_arrays (pt : PageTable bs.State B) (page : Nat) (mv : Move) (fs : Nat → Int) (fp : Nat → Nat) :
    ({ pt with frameState := fs, framePage := fp } : PageTable bs.State B).make bs page mv =
      { pt.make bs page mv with frameState := fs, framePage := fp } := by
  cases mv with
  | fill i    => rfl
  | replace v => exact congrArg (fun t => PageTable.fillPage bs t page (pt.pageMapping v)) (dropPage_arrays pt v fs fp)
  | grant     => rfl

/-- The keys before and after a fault on `page`, when the thread's frames start at `s` and the first `c` of the `n` are
gone for good. -/
inductive Turn (s n c : Nat) (ks : List Nat) (page : Nat) : Move → List Nat → Prop
  | fill {ks'} : page ∉ ks → ks.length + c < n → ks'.Perm (page :: ks) → Turn s n c ks page (.fill (ks.length + c + s)) ks'
  | replace {ks' A v C} : page ∉ ks → n ≤ ks.length + c → ks = A ++ v :: C → ks'.Perm (page :: (A ++ C)) →
      Turn s n c ks page (.replace v) ks'
  | grant {ks'} : page ∈ ks → ks'.Perm ks → Turn s n c ks page .grant ks'

theorem Turn.mem {s n c page : Nat} {ks ks' : List Nat} {mv : Move} (ht : Turn s n c ks page mv ks') : page ∈ ks' := by
  cases ht with
  | fill _ _ hp      => exact hp.mem_iff.2 List.mem_cons_self
  | replace _ _ _ hp => exact hp.mem_iff.2 List.mem_cons_self
  | grant hk hp      => exact hp.mem_iff.2 hk

/-- No key comes in but the page. -/
theorem Turn.mem_of_mem {s n c page q : Nat} {ks ks' : List Nat} {mv : Move} (ht : Turn s n c ks page mv ks')
    (hq : q ∈ ks') : q = page ∨ q ∈ ks := by
  cases ht with
  | fill _ _ hp => exact List.mem_cons.1 (hp.mem_iff.1 hq)
  | replace _ _ hk hp =>
    refine (List.mem_cons.1 (hp.mem_iff.1 hq)).imp_right (fun hq => ?_)
    rw [hk]
    exact (List.mem_append.1 hq).elim (List.mem_append_left _) (fun h => List.mem_append_right _ (List.mem_cons_of_mem _ h))
  | grant _ hp => exact Or.inr (hp.mem_iff.1 hq)

theorem Turn.victim_mem {s n c page v : Nat} {ks ks' : List Nat} (ht : Turn s n c ks page (.replace v) ks') : v ∈ ks := by
  cases ht with
  | replace _ _ hks => rw [hks]; exact List.mem_append_right _ List.mem_cons_self

/-- **The move keeps the list and every page's bytes.** -/
theorem Listed.turn {pt : PageTable bs.State B} {s e c page : Nat} {ks ks' : List Nat} {mv : Move}
    (h : Listed bs pt s e ks (ks.length + c)) (hp : page < npages) (ht : Turn s pt.nframes c ks page mv ks')
    (hm : mv.frame pt page < npages) :
    Listed bs (pt.make bs page mv) s e ks' (ks'.length + c) ∧ Kept bs pt (pt.make bs page mv) := by
  cases ht with
  | fill hk hlt hperm =>
    have hfree : ∀ q, Resident pt q → pt.pageMapping q ≠ ks.length + c + s := by
      intro q hq
      have := h.low q ((h.res q).1 hq)
      omega
    have hroom : ks.length + c + s < s + (ks.length + c + 1) := by omega
    obtain ⟨hf, hkept⟩ := h.fill hp hk (Nat.le_add_left _ _) hroom hm (Nat.le_succ _) hlt hfree
    refine ⟨?_, hkept⟩
    rw [hperm.length_eq, List.length_cons, Nat.add_right_comm _ 1 c]
    exact hf.perm hperm.symm
  | @replace ks' A v C hk _ hks hperm =>
    subst hks
    have hv : v ∈ A ++ v :: C := List.mem_append_right _ List.mem_cons_self
    have hres := (h.res v).2 hv
    obtain ⟨hd, hkd⟩ := h.drop
    have hk' : page ∉ A ++ C := by
      intro hm
      refine hk ((List.mem_append.1 hm).elim (List.mem_append_left _) (fun h => ?_))
      exact List.mem_append_right _ (List.mem_cons_of_mem _ h)
    obtain ⟨hf, hkf⟩ := hd.fill hp hk' (i := pt.pageMapping v) (h.frame v hres).1 (h.low v hv) hm (Nat.le_refl _)
      hd.room (h.toCore.freed hres)
    refine ⟨?_, hkd.trans hkf⟩
    have hlen : ks'.length = (A ++ v :: C).length := by
      rw [hperm.length_eq, List.length_cons, List.length_append, List.length_append, List.length_cons]
      omega
    rw [hlen]
    exact hf.perm hperm.symm
  | grant hk hperm =>
    obtain ⟨hg, hkept⟩ := h.grant hk
    refine ⟨?_, hkept⟩
    rw [hperm.length_eq]
    exact hg.perm hperm.symm

theorem make_frameState (pt : PageTable bs.State B) (page : Nat) (mv : Move) :
    (pt.make bs page mv).frameState = pt.frameState := by
  cases mv with
  | fill i    => rfl
  | replace v => exact dropPage_frameState pt v
  | grant     => rfl

theorem make_framePage (pt : PageTable bs.State B) (page : Nat) (mv : Move) :
    (pt.make bs page mv).framePage = pt.framePage := by
  cases mv with
  | fill i    => rfl
  | replace v => exact dropPage_framePage pt v
  | grant     => rfl

/-- **What a handler has done when it returns**: its move, to a frame with memory, and the turn of its keys.  FIFO has its
two arrays in the table, and writes them for its own frames. -/
structure Faulted (bs : BackingStore B npages) (m m' : Machine bs.State B) (c page : Nat) (ks ks' : List Nat)
    (mv : Move) : Prop where
  turn : Turn m.th.startFrame m.pt.nframes c ks page mv ks'
  memory : mv.frame m.pt page < m.pt.npages
  table : m'.pt = { m.pt.make bs page mv with frameState := m'.pt.frameState, framePage := m'.pt.framePage }
  start : m'.th.startFrame = m.th.startFrame
  stop : m'.th.endFrame = m.th.endFrame
  arrays : ∀ i, i < m.th.startFrame ∨ m.th.endFrame ≤ i →
    m'.pt.frameState i = m.pt.frameState i ∧ m'.pt.framePage i = m.pt.framePage i

theorem Faulted.nframes {m m' : Machine bs.State B} {c page : Nat} {ks ks' : List Nat} {mv : Move}
    (h : Faulted bs m m' c page ks ks' mv) : m'.pt.nframes = m.pt.nframes := by
  rw [h.table]
  exact make_nframes _ _ _

theorem Faulted.pages {m m' : Machine bs.State B} {c page : Nat} {ks ks' : List Nat} {mv : Move}
    (h : Faulted bs m m' c page ks ks' mv) : m'.pt.npages = m.pt.npages := by
  rw [h.table]
  exact make_npages _ _ _

/-- A page that is neither the faulting page nor a key. -/
theorem Faulted.of_ne {m m' : Machine bs.State B} {c page q : Nat} {ks ks' : List Nat} {mv : Move}
    (h : Faulted bs m m' c page ks ks' mv) (hq : q ≠ page) (hk : q ∉ ks) :
    m'.pt.pageBits q = m.pt.pageBits q ∧ m'.pt.pageMapping q = m.pt.pageMapping q := by
  rw [h.table]
  constructor
  · refine make_bits_of_ne _ _ hq ?_
    rintro rfl
    exact hk h.turn.victim_mem
  · refine (congrFun (make_mapping m.pt page mv) q).trans ?_
    exact update_of_ne hq _ _

/-- **A fault keeps the list of a policy and every page's bytes.** -/
theorem Faulted.listed {m m' : Machine bs.State B} {c page : Nat} {ks ks' : List Nat} {mv : Move}
    (h : Faulted bs m m' c page ks ks' mv) (hp : page < npages)
    (hl : Listed bs m.pt m.th.startFrame m.th.endFrame ks (ks.length + c)) :
    Listed bs m'.pt m'.th.startFrame m'.th.endFrame ks' (ks'.length + c) ∧ Kept bs m.pt m'.pt := by
  obtain ⟨hl', hk⟩ := hl.turn hp h.turn (Nat.lt_of_lt_of_eq h.memory hl.pages)
  rw [h.table, h.start, h.stop]
  exact ⟨⟨⟨hl'.pages, hl'.frame, hl'.backed, hl'.inj, hl'.clean⟩, hl'.nodup, hl'.res, hl'.low, hl'.span, hl'.room,
    hl'.memory⟩, hk⟩

/-- A policy has no more pages than frames. -/
theorem Listed.length_le {pt : PageTable bs.State B} {s e c : Nat} {ks : List Nat} (h : Listed bs pt s e ks c) :
    ks.length ≤ c := by
  have hnd : (ks.map pt.pageMapping).Nodup :=
    List.pairwise_map.2 (h.nodup.imp_of_mem (fun ha hb hne heq =>
      hne (h.inj _ _ ((h.res _).2 ha) ((h.res _).2 hb) heq)))
  have hsub : ks.map pt.pageMapping ⊆ List.range' s c := by
    intro i hi
    obtain ⟨p, hp, rfl⟩ := List.mem_map.1 hi
    exact List.mem_range'_1.2 ⟨(h.frame p ((h.res p).2 hp)).1, h.low p hp⟩
  have := hnd.length_le_of_subset hsub
  rwa [List.length_map, List.length_range'] at this

/-! ## Making the move -/

/-- The keys are pages, and their frames are the thread's and have memory. -/
def InFrames {S : Type} (pt : PageTable S B) (s e : Nat) (ks : List Nat) : Prop :=
  ∀ p ∈ ks, p < pt.npages ∧ (s ≤ pt.pageMapping p ∧ pt.pageMapping p < e) ∧ pt.pageMapping p < pt.npages

/-- Where the keys' pages are, and whether `page` is one of them.  If it is not, and there is a frame left, then that has
memory. -/
structure Held {S : Type} (pt : PageTable S B) (s e c : Nat) (ks : List Nat) (page : Nat) : Prop where
  lt : page < pt.npages
  bits : pt.pageBits page = .none ↔ page ∉ ks
  frame : InFrames pt s e ks
  span : e = s + pt.nframes
  next : page ∉ ks → ks.length + c < pt.nframes → ks.length + c + s < pt.npages

theorem Listed.inFrames {pt : PageTable bs.State B} {s e c : Nat} {ks : List Nat} (h : Listed bs pt s e ks c) :
    InFrames pt s e ks := fun p hk =>
  ⟨((h.res p).2 hk).1, h.frame p ((h.res p).2 hk), h.pages.symm ▸ h.backed p ((h.res p).2 hk)⟩

theorem Listed.held {pt : PageTable bs.State B} {s e c c' page : Nat} {ks : List Nat} (h : Listed bs pt s e ks c')
    (hp : page < npages) (hnext : page ∉ ks → ks.length + c < pt.nframes → ks.length + c + s < npages) :
    Held pt s e c ks page where
  lt := h.pages.symm ▸ hp
  bits := h.bits_iff hp
  frame := h.inFrames
  span := h.span
  next := h.pages.symm ▸ hnext

/-- There are no more keys than pages. -/
theorem Listed.length_le_npages {pt : PageTable bs.State B} {s e c : Nat} {ks : List Nat} (h : Listed bs pt s e ks c) :
    ks.length ≤ npages := by
  have hsub : ks ⊆ List.range npages := fun p hp => List.mem_range.2 (h.lt_npages hp)
  have := h.nodup.length_le_of_subset hsub
  rwa [List.length_range] at this

/-- **When no frame was given away the next one has memory**: there are fewer keys than pages. -/
theorem Listed.next_lt {pt : PageTable bs.State B} {s e c page : Nat} {ks : List Nat} (h : Listed bs pt s e ks c)
    (hp : page < npages) (hk : page ∉ ks) (hlt : ks.length < pt.nframes) : ks.length + s < npages := by
  rcases h.memory with rfl | he
  · have hnd : (page :: ks).Nodup := List.nodup_cons.2 ⟨hk, h.nodup⟩
    have hsub : page :: ks ⊆ List.range npages :=
      List.cons_subset.2 ⟨List.mem_range.2 hp, fun q hq => List.mem_range.2 (h.lt_npages hq)⟩
    have := hnd.length_le_of_subset hsub
    rwa [List.length_cons, List.length_range] at this
  · have := h.span
    omega

theorem Listed.held_zero {pt : PageTable bs.State B} {s e c page : Nat} {ks : List Nat} (h : Listed bs pt s e ks c)
    (hp : page < npages) : Held pt s e 0 ks page := h.held hp (h.next_lt hp)

/-- The frame that a turn puts its page into is the thread's. -/
theorem Held.frame_turn {S : Type} {pt : PageTable S B} {s e c page : Nat} {ks ks' : List Nat} {mv : Move}
    (h : Held pt s e c ks page) (ht : Turn s pt.nframes c ks page mv ks') :
    s ≤ mv.frame pt page ∧ mv.frame pt page < e := by
  have he := h.span
  cases ht with
  | fill _ hlt =>
    show s ≤ ks.length + c + s ∧ ks.length + c + s < e
    omega
  | replace _ _ hks => exact (h.frame _ (by rw [hks]; exact List.mem_append_right _ List.mem_cons_self)).2.1
  | grant hk        => exact (h.frame page hk).2.1

/-- It has memory. -/
theorem Held.memory {S : Type} {pt : PageTable S B} {s e c page : Nat} {ks ks' : List Nat} {mv : Move}
    (h : Held pt s e c ks page) (ht : Turn s pt.nframes c ks page mv ks') : mv.frame pt page < pt.npages := by
  cases ht with
  | fill hk hlt     => exact h.next hk hlt
  | replace _ _ hks => exact (h.frame _ (by rw [hks]; exact List.mem_append_right _ List.mem_cons_self)).2.2
  | grant hk        => exact (h.frame page hk).2.2

/-- A handler that leaves the arrays alone. -/
theorem Faulted.of_make {m : Machine bs.State B} {th' : Thread} {rands : Nat → Nat} {calls c page : Nat}
    {ks ks' : List Nat} {mv : Move} (hh : Held m.pt m.th.startFrame m.th.endFrame c ks page)
    (ht : Turn m.th.startFrame m.pt.nframes c ks page mv ks')
    (hs : th'.startFrame = m.th.startFrame) (he : th'.endFrame = m.th.endFrame) :
    Faulted bs m ⟨m.pt.make bs page mv, th', rands, calls⟩ c page ks ks' mv where
  turn := ht
  memory := hh.memory ht
  table := rfl
  start := hs
  stop := he
  arrays := fun i _ => ⟨congrFun (make_frameState _ _ _) i, congrFun (make_framePage _ _ _) i⟩

variable {pt : PageTable bs.State B} {page c : Nat} {ks : List Nat} (th : Thread) (rands : Nat → Nat) (calls : Nat)

/-- **A page goes into a frame of the thread.** -/
theorem Held.fillFrame (h : Held pt th.startFrame th.endFrame c ks page) (hk : page ∉ ks)
    (hi : ks.length + c < pt.nframes) :
    fillFrame bs ⟨pt, th, rands, calls⟩ page (ks.length + c + th.startFrame) =
      some ⟨pt.make bs page (.fill (ks.length + c + th.startFrame)), th, rands, calls⟩ := by
  have he := h.span
  exact fillFrame_eq ⟨pt, th, rands, calls⟩ h.lt (Nat.le_add_left _ _) (by show _ < th.endFrame; omega) (h.next hk hi)

/-- **A page takes its victim's frame.** -/
theorem Held.replacePage (h : Held pt th.startFrame th.endFrame c ks page) (hk : page ∉ ks) {v : Nat} (hv : v ∈ ks) :
    replacePage bs ⟨pt, th, rands, calls⟩ page v = some ⟨pt.make bs page (.replace v), th, rands, calls⟩ := by
  obtain ⟨hvp, ⟨hs, he⟩, hm⟩ := h.frame v hv
  exact replacePage_eq ⟨pt, th, rands, calls⟩ h.lt hvp (fun hpv => hk (hpv ▸ hv)) hs he hm

/-- **A resident page is granted the right to be written.** -/
theorem Held.grant (h : Held pt th.startFrame th.endFrame c ks page) (hk : page ∈ ks) :
    pageTableSetEntry ⟨pt, th, rands, calls⟩ page (pt.pageMapping page) .readWrite =
      some ⟨pt.make bs page .grant, th, rands, calls⟩ := by
  obtain ⟨hp, ⟨hs, he⟩, -⟩ := h.frame page hk
  exact setEntry_eq ⟨pt, th, rands, calls⟩ .readWrite hp hs he

/-! ## Taking pages out -/

def PageTable.dropAll (bs : BackingStore B npages) (pt : PageTable bs.State B) (vs : List Nat) : PageTable bs.State B :=
  vs.foldl (PageTable.dropPage bs) pt

@[simp] theorem dropAll_cons (pt : PageTable bs.State B) (v : Nat) (vs : List Nat) :
    pt.dropAll bs (v :: vs) = (pt.dropPage bs v).dropAll bs vs := rfl

theorem dropAll_append (pt : PageTable bs.State B) (vs ws : List Nat) :
    pt.dropAll bs (vs ++ ws) = (pt.dropAll bs vs).dropAll bs ws := List.foldl_append ..

@[simp] theorem dropAll_npages : ∀ (vs : List Nat) (pt : PageTable bs.State B), (pt.dropAll bs vs).npages = pt.npages
  | [],      _  => rfl
  | v :: vs, pt => (dropAll_npages vs _).trans (dropPage_npages pt v)

@[simp] theorem dropAll_nframes : ∀ (vs : List Nat) (pt : PageTable bs.State B), (pt.dropAll bs vs).nframes = pt.nframes
  | [],      _  => rfl
  | v :: vs, pt => (dropAll_nframes vs _).trans (dropPage_nframes pt v)

@[simp] theorem dropAll_mapping : ∀ (vs : List Nat) (pt : PageTable bs.State B),
    (pt.dropAll bs vs).pageMapping = pt.pageMapping
  | [],      _  => rfl
  | v :: vs, pt => (dropAll_mapping vs _).trans (dropPage_mapping pt v)

theorem dropAll_bits : ∀ (vs : List Nat) (pt : PageTable bs.State B) (p : Nat),
    (pt.dropAll bs vs).pageBits p = if p ∈ vs then .none else pt.pageBits p
  | [],      _,  _ => rfl
  | v :: vs, pt, p => by
    rw [dropAll_cons, dropAll_bits vs, dropPage_bits]
    by_cases hv : p = v
    · simp [hv]
    · simp [hv]

/-- **Pages taken out keep their bytes**, in the backing store. -/
theorem Core.dropAll {s e : Nat} : ∀ (vs : List Nat) {pt : PageTable bs.State B}, Core bs pt s e →
    (∀ v ∈ vs, v < npages) → Core bs (pt.dropAll bs vs) s e ∧ Kept bs pt (pt.dropAll bs vs)
  | [],      _,  hc, _  => ⟨hc, Kept.refl _⟩
  | v :: vs, pt, hc, hv => by
    have hp := hv v List.mem_cons_self
    obtain ⟨hc', hk⟩ := Core.dropAll vs (hc.drop hp) (fun w hw => hv w (List.mem_cons_of_mem _ hw))
    exact ⟨hc', Kept.trans ⟨dropPage_nframes _ _, fun q hq => shown_drop hc hp hq⟩ hk⟩

/-- The machine with the pages `vs` out of its table; FIFO clears its array on the way. -/
structure Drops (bs : BackingStore B npages) (m m' : Machine bs.State B) (vs : List Nat) : Prop where
  table : m'.pt = { m.pt.dropAll bs vs with frameState := m'.pt.frameState, framePage := m'.pt.framePage }
  start : m'.th.startFrame = m.th.startFrame
  stop : m'.th.endFrame = m.th.endFrame
  count : m'.th.count = m.th.count

theorem Drops.refl (m : Machine bs.State B) : Drops bs m m [] := ⟨rfl, rfl, rfl, rfl⟩

theorem Drops.nframes {m m' : Machine bs.State B} {vs : List Nat} (h : Drops bs m m' vs) :
    m'.pt.nframes = m.pt.nframes := by
  rw [h.table]
  exact dropAll_nframes _ _

theorem Drops.pages {m m' : Machine bs.State B} {vs : List Nat} (h : Drops bs m m' vs) :
    m'.pt.npages = m.pt.npages := by
  rw [h.table]
  exact dropAll_npages _ _

theorem Drops.mapping {m m' : Machine bs.State B} {vs : List Nat} (h : Drops bs m m' vs) :
    m'.pt.pageMapping = m.pt.pageMapping := by
  rw [h.table]
  exact dropAll_mapping _ _

theorem Drops.bits {m m' : Machine bs.State B} {vs : List Nat} (h : Drops bs m m' vs) (p : Nat) :
    m'.pt.pageBits p = if p ∈ vs then .none else m.pt.pageBits p := by
  rw [h.table]
  exact dropAll_bits _ _ _

/-- The arrays of FIFO are written beside the pages that go. -/
theorem dropAll_arrays (fs : Nat → Int) (fp : Nat → Nat) : ∀ (vs : List Nat) (pt : PageTable bs.State B),
    ({ pt with frameState := fs, framePage := fp } : PageTable bs.State B).dropAll bs vs =
      { pt.dropAll bs vs with frameState := fs, framePage := fp }
  | [],      _  => rfl
  | v :: vs, pt => by rw [dropAll_cons, dropPage_arrays, dropAll_arrays fs fp vs, dropAll_cons]

theorem Drops.trans {m m₁ m' : Machine bs.State B} {vs ws : List Nat} (h : Drops bs m m₁ vs) (h' : Drops bs m₁ m' ws) :
    Drops bs m m' (vs ++ ws) where
  table := by
    rw [dropAll_append, h'.table, h.table, dropAll_arrays]
  start := h'.start.trans h.start
  stop := h'.stop.trans h.stop
  count := h'.count.trans h.count

theorem InFrames.drops {m m' : Machine bs.State B} {s e : Nat} {ks vs : List Nat} (hf : InFrames m.pt s e ks)
    (h : Drops bs m m' vs) : InFrames m'.pt s e ks := by
  unfold InFrames
  rw [h.pages, h.mapping]
  exact hf

/-- **A policy is left with the pages that are not taken out.** -/
theorem Drops.listed {m m' : Machine bs.State B} {c : Nat} {ks ks' vs : List Nat} (h : Drops bs m m' vs)
    (hl : Listed bs m.pt m.th.startFrame m.th.endFrame ks c) (hp : ks.Perm (vs ++ ks')) :
    Listed bs m'.pt m'.th.startFrame m'.th.endFrame ks' c ∧ Kept bs m.pt m'.pt := by
  have hmem : ∀ p, p ∈ ks ↔ p ∈ vs ∨ p ∈ ks' := fun p => hp.mem_iff.trans List.mem_append
  have hnd := List.nodup_append.1 (hp.nodup_iff.1 hl.nodup)
  obtain ⟨hcore, hk⟩ := hl.toCore.dropAll vs (fun v hv => hl.lt_npages ((hmem v).2 (Or.inl hv)))
  have hres : ∀ p, Resident m'.pt p ↔ p ∈ ks' := by
    intro p
    rw [Resident, h.pages, h.bits]
    by_cases hpv : p ∈ vs
    · rw [if_pos hpv]
      exact ⟨fun hr => absurd rfl hr.2, fun hp' => absurd rfl (hnd.2.2 p hpv p hp')⟩
    · rw [if_neg hpv]
      exact (hl.res p).trans ((hmem p).trans (or_iff_right hpv))
  rw [h.start, h.stop]
  refine ⟨⟨?_, hnd.2.1, hres, fun p hp' => ?_, ?_, ?_, hl.memory⟩, ?_⟩
  · rw [h.table]; exact ⟨hcore.pages, hcore.frame, hcore.backed, hcore.inj, hcore.clean⟩
  · rw [h.mapping]; exact hl.low p ((hmem p).2 (Or.inr hp'))
  · rw [h.nframes]; exact hl.span
  · rw [h.nframes]; exact hl.room
  · rw [h.table]; exact hk

/-- One page of a flush. -/
theorem InFrames.flushPage {m : Machine bs.State B} {ks : List Nat}
    (hf : InFrames m.pt m.th.startFrame m.th.endFrame ks) {v : Nat} (hv : v ∈ ks) :
    flushPage bs m v = some { m with pt := m.pt.dropPage bs v } :=
  flushPage_eq m (hf v hv).1 (hf v hv).2.1.1 (hf v hv).2.1.2 (fun _ => (hf v hv).2.2)

end Vmem
end Bb
