import BlueBridge.VmemFault
/-!
# VmemCore — what a page shows, and the three moves that keep it

Whatever the policy, a handler does one of three things to the table: it reads a page into a free frame, it replaces a
victim, or it grants a resident page the right to be written; a flush takes resident pages out.  `shown` is the block a
page stands for: its frame while it is resident, its backing block otherwise.  Under `Core` — resident pages have
frames of their own inside the thread's range, which have memory, and an unwritten one agrees with its backing block —
each move keeps `shown` at every page.  What a policy owes is only that the free frame is free and has memory, and that
the victim is resident.
-/
namespace Bb
namespace Vmem

open Function (update update_self update_of_ne update_comm update_eq_self)

variable {B npages : Nat} {bs : BackingStore B npages}

def shown (bs : BackingStore B npages) (pt : PageTable bs.State B) (p : Nat) : Block B :=
  if pt.pageBits p = .none then bs.content pt.store p else pt.physmem (pt.pageMapping p)

def Resident {S : Type} (pt : PageTable S B) (p : Nat) : Prop := p < pt.npages ∧ pt.pageBits p ≠ .none

structure Core (bs : BackingStore B npages) (pt : PageTable bs.State B) (s e : Nat) : Prop where
  pages : pt.npages = npages
  frame : ∀ p, Resident pt p → s ≤ pt.pageMapping p ∧ pt.pageMapping p < e
  backed : ∀ p, Resident pt p → pt.pageMapping p < npages
  inj : ∀ p q, Resident pt p → Resident pt q → pt.pageMapping p = pt.pageMapping q → p = q
  clean : ∀ p, p < npages → pt.pageBits p = .read → pt.physmem (pt.pageMapping p) = bs.content pt.store p

theorem shown_none {pt : PageTable bs.State B} {p : Nat} (h : pt.pageBits p = .none) :
    shown bs pt p = bs.content pt.store p := if_pos h

theorem shown_resident {pt : PageTable bs.State B} {p : Nat} (h : pt.pageBits p ≠ .none) :
    shown bs pt p = pt.physmem (pt.pageMapping p) := if_neg h

theorem Resident.upd_iff {pt pt' : PageTable bs.State B} {p : Nat} {b : Prot} (hn : pt'.npages = pt.npages)
    (hb : pt'.pageBits = update pt.pageBits p b) (q : Nat) :
    Resident pt' q ↔ if q = p then q < pt.npages ∧ b ≠ .none else Resident pt q := by
  unfold Resident
  rw [hn, hb]
  by_cases hq : q = p
  · subst hq; simp
  · simp [hq]

theorem getEntry_eq {S : Type} (m : Machine S B) {page : Nat} (h : page < m.pt.npages) :
    pageTableGetEntry m page = some (m.pt.pageMapping page, m.pt.pageBits page) := by
  unfold pageTableGetEntry
  rw [if_neg (by omega)]

theorem setEntry_eq {S : Type} (m : Machine S B) {page frame : Nat} (bits : Prot) (h : page < m.pt.npages)
    (hs : m.th.startFrame ≤ frame) (he : frame < m.th.endFrame) :
    pageTableSetEntry m page frame bits = some { m with pt := m.pt.setEntry page frame bits } := by
  unfold pageTableSetEntry
  rw [if_neg (by omega), if_neg (by omega)]

/-! ## The moves -/

def PageTable.fillPage (bs : BackingStore B npages) (pt : PageTable bs.State B) (page i : Nat) :
    PageTable bs.State B :=
  (pt.setEntry page i .read).readBlock bs page i

def PageTable.grant {S : Type} (pt : PageTable S B) (page : Nat) : PageTable S B :=
  pt.setEntry page (pt.pageMapping page) .readWrite

theorem resident_fillPage {pt : PageTable bs.State B} {page i : Nat} (hp : page < pt.npages) (q : Nat) :
    Resident (pt.fillPage bs page i) q ↔ q = page ∨ Resident pt q := by
  rw [@Resident.upd_iff _ _ bs pt (pt.fillPage bs page i) page .read rfl rfl q]
  by_cases hq : q = page
  · subst hq; simp [hp]
  · simp [hq]

/-- **A page read into a free frame.** -/
theorem Core.fill {pt : PageTable bs.State B} {s e page i : Nat} (hc : Core bs pt s e) (hp : page < npages)
    (hs : s ≤ i) (he : i < e) (hm : i < npages) (hfree : ∀ q, Resident pt q → pt.pageMapping q ≠ i) :
    Core bs (pt.fillPage bs page i) s e := by
  have hres : ∀ q, q ≠ page → Resident (pt.fillPage bs page i) q → Resident pt q := fun q hqp hq =>
    ((resident_fillPage (hc.pages.symm ▸ hp) q).1 hq).resolve_left hqp
  refine ⟨hc.pages, ?_, ?_, ?_, ?_⟩
  · intro q hq
    show _ ≤ update pt.pageMapping page i q ∧ update pt.pageMapping page i q < _
    by_cases hqp : q = page
    · subst hqp; simpa using ⟨hs, he⟩
    · rw [update_of_ne hqp]; exact hc.frame q (hres q hqp hq)
  · intro q hq
    show update pt.pageMapping page i q < _
    by_cases hqp : q = page
    · subst hqp; simpa using hm
    · rw [update_of_ne hqp]; exact hc.backed q (hres q hqp hq)
  · intro q r hq hr heq
    have heq : update pt.pageMapping page i q = update pt.pageMapping page i r := heq
    by_cases hqp : q = page <;> by_cases hrp : r = page
    · rw [hqp, hrp]
    · subst hqp
      rw [update_self, update_of_ne hrp] at heq
      exact absurd heq.symm (hfree r (hres r hrp hr))
    · subst hrp
      rw [update_self, update_of_ne hqp] at heq
      exact absurd heq (hfree q (hres q hqp hq))
    · rw [update_of_ne hqp, update_of_ne hrp] at heq
      exact hc.inj q r (hres q hqp hq) (hres r hrp hr) heq
  · intro q hq hqb
    show update pt.physmem i (bs.read pt.store page).1 (update pt.pageMapping page i q) =
      bs.content (bs.read pt.store page).2 q
    rw [bs.read_content _ _ _ hp hq]
    by_cases hqp : q = page
    · subst hqp; simp [bs.read_val _ _ hp]
    · have hqb : update pt.pageBits page .read q = .read := hqb
      rw [update_of_ne hqp] at hqb
      have hqr : Resident pt q := ⟨by rw [hc.pages]; exact hq, by rw [hqb]; simp⟩
      rw [update_of_ne hqp, update_of_ne (hfree q hqr)]
      exact hc.clean q hq hqb

theorem shown_fill {pt : PageTable bs.State B} {s e page i : Nat} (hc : Core bs pt s e) (hp : page < npages)
    (hb : pt.pageBits page = .none) (hfree : ∀ q, Resident pt q → pt.pageMapping q ≠ i) {q : Nat} (hq : q < npages) :
    shown bs (pt.fillPage bs page i) q = shown bs pt q := by
  show (if update pt.pageBits page .read q = .none then bs.content (bs.read pt.store page).2 q
    else update pt.physmem i (bs.read pt.store page).1 (update pt.pageMapping page i q)) = _
  rw [bs.read_content _ _ _ hp hq]
  by_cases hqp : q = page
  · subst hqp
    rw [shown_none hb]
    simp [bs.read_val _ _ hp]
  · rw [update_of_ne hqp, update_of_ne hqp]
    unfold shown
    by_cases hqb : pt.pageBits q = .none
    · simp [hqb]
    · rw [if_neg hqb, if_neg hqb, update_of_ne (hfree q ⟨by rw [hc.pages]; exact hq, hqb⟩)]

/-- The table with `page` out of it, written back first if it was written. -/
def PageTable.dropPage (bs : BackingStore B npages) (pt : PageTable bs.State B) (page : Nat) :
    PageTable bs.State B :=
  (if pt.pageBits page = .readWrite then pt.writeBlock bs page (pt.pageMapping page) else pt).setEntry page
    (pt.pageMapping page) .none

@[simp] theorem dropPage_bits (pt : PageTable bs.State B) (page : Nat) :
    (pt.dropPage bs page).pageBits = update pt.pageBits page .none := by
  unfold PageTable.dropPage PageTable.setEntry; split <;> rfl

@[simp] theorem dropPage_nframes (pt : PageTable bs.State B) (page : Nat) :
    (pt.dropPage bs page).nframes = pt.nframes := by
  unfold PageTable.dropPage PageTable.setEntry; split <;> rfl

@[simp] theorem dropPage_frameState (pt : PageTable bs.State B) (page : Nat) :
    (pt.dropPage bs page).frameState = pt.frameState := by
  unfold PageTable.dropPage PageTable.setEntry; split <;> rfl

@[simp] theorem dropPage_framePage (pt : PageTable bs.State B) (page : Nat) :
    (pt.dropPage bs page).framePage = pt.framePage := by
  unfold PageTable.dropPage PageTable.setEntry; split <;> rfl

@[simp] theorem dropPage_mapping (pt : PageTable bs.State B) (page : Nat) :
    (pt.dropPage bs page).pageMapping = pt.pageMapping := by
  unfold PageTable.dropPage PageTable.setEntry; split <;> exact update_eq_self _ _

@[simp] theorem dropPage_physmem (pt : PageTable bs.State B) (page : Nat) :
    (pt.dropPage bs page).physmem = pt.physmem := by
  unfold PageTable.dropPage PageTable.setEntry; split <;> rfl

@[simp] theorem dropPage_npages (pt : PageTable bs.State B) (page : Nat) :
    (pt.dropPage bs page).npages = pt.npages := by
  unfold PageTable.dropPage PageTable.setEntry; split <;> rfl

theorem dropPage_content (pt : PageTable bs.State B) {page q : Nat} (hp : page < npages) (hq : q < npages) :
    bs.content (pt.dropPage bs page).store q =
      if q = page ∧ pt.pageBits page = .readWrite then pt.physmem (pt.pageMapping page)
      else bs.content pt.store q := by
  unfold PageTable.dropPage PageTable.setEntry
  by_cases hb : pt.pageBits page = .readWrite
  · simp [hb, PageTable.writeBlock, bs.write_content _ _ _ _ hp hq]
  · simp [hb]

theorem resident_dropPage (pt : PageTable bs.State B) (page q : Nat) :
    Resident (pt.dropPage bs page) q ↔ q ≠ page ∧ Resident pt q := by
  rw [@Resident.upd_iff _ _ bs pt (pt.dropPage bs page) page .none (by simp) (by simp) q]
  by_cases hq : q = page
  · simp [hq]
  · simp [hq]

/-- **A page taken out of the table.** -/
theorem Core.drop {pt : PageTable bs.State B} {s e page : Nat} (hc : Core bs pt s e) (hp : page < npages) :
    Core bs (pt.dropPage bs page) s e := by
  have hold : ∀ q, Resident (pt.dropPage bs page) q → Resident pt q := fun q hq =>
    ((resident_dropPage pt page q).1 hq).2
  refine ⟨by simpa using hc.pages, ?_, ?_, ?_, ?_⟩
  · intro q hq
    rw [dropPage_mapping]; exact hc.frame q (hold q hq)
  · intro q hq
    rw [dropPage_mapping]; exact hc.backed q (hold q hq)
  · intro q r hq hr heq
    rw [dropPage_mapping] at heq
    exact hc.inj q r (hold q hq) (hold r hr) heq
  · intro q hq hqb
    rw [dropPage_bits] at hqb
    have hqp : q ≠ page := by rintro rfl; simp at hqb
    rw [update_of_ne hqp] at hqb
    rw [dropPage_mapping, dropPage_physmem, dropPage_content pt hp hq, hc.clean q hq hqb]
    simp [hqp]

theorem shown_drop {pt : PageTable bs.State B} {s e page : Nat} (hc : Core bs pt s e) (hp : page < npages)
    {q : Nat} (hq : q < npages) : shown bs (pt.dropPage bs page) q = shown bs pt q := by
  unfold shown
  rw [dropPage_bits, dropPage_mapping, dropPage_physmem, dropPage_content pt hp hq]
  by_cases hqp : q = page
  · subst hqp
    rw [update_self, if_pos rfl]
    cases hb : pt.pageBits q
    · simp
    · simp [hc.clean q hq hb]
    · simp
  · simp [hqp]

/-! ## The moves as the handlers make them -/

/-- A frame is left by exactly one page when that page goes. -/
theorem Core.freed {pt : PageTable bs.State B} {s e page : Nat} (hc : Core bs pt s e) (hr : Resident pt page) :
    ∀ q, Resident (pt.dropPage bs page) q → (pt.dropPage bs page).pageMapping q ≠ pt.pageMapping page := by
  intro q hq heq
  obtain ⟨hqp, hqr⟩ := (resident_dropPage pt page q).1 hq
  rw [dropPage_mapping] at heq
  exact hqp (hc.inj q page hqr hr heq)

theorem readData_eq (m : Machine bs.State B) (page : Nat) {frame : Nat} (hm : frame < m.pt.npages) :
    readData bs m page frame = some { m with pt := m.pt.readBlock bs page frame } := if_pos hm

theorem writeData_eq (m : Machine bs.State B) (page : Nat) {frame : Nat} (hm : frame < m.pt.npages) :
    writeData bs m page frame = some { m with pt := m.pt.writeBlock bs page frame } := if_pos hm

theorem fillFrame_eq (m : Machine bs.State B) {page i : Nat} (hp : page < m.pt.npages)
    (hs : m.th.startFrame ≤ i) (he : i < m.th.endFrame) (hm : i < m.pt.npages) :
    fillFrame bs m page i = some { m with pt := m.pt.fillPage bs page i } := by
  rw [fillFrame, setEntry_eq m .read hp hs he]
  exact readData_eq { m with pt := m.pt.setEntry page i .read } page hm

/-- A frame that is filled has memory. -/
theorem fillFrame_backed {m m' : Machine bs.State B} {page i : Nat} (h : fillFrame bs m page i = some m') :
    i < m.pt.npages := by
  obtain ⟨m₁, e₁, h⟩ := Option.bind_eq_some_iff.1 h
  have hpages : m₁.pt.npages = m.pt.npages := by
    unfold pageTableSetEntry at e₁
    split at e₁
    · cases e₁
    · split at e₁
      · cases e₁
      · cases e₁
        rfl
  unfold readData at h
  split at h
  · exact hpages ▸ ‹_›
  · cases h

theorem flushPage_eq (m : Machine bs.State B) {page : Nat} (hp : page < m.pt.npages)
    (hs : m.th.startFrame ≤ m.pt.pageMapping page) (he : m.pt.pageMapping page < m.th.endFrame)
    (hm : m.pt.pageBits page = .readWrite → m.pt.pageMapping page < m.pt.npages) :
    flushPage bs m page = some { m with pt := m.pt.dropPage bs page } := by
  unfold flushPage
  rw [getEntry_eq m hp]
  simp only [Option.bind_eq_bind, Option.bind_some]
  unfold writeBack PageTable.dropPage
  split
  · rw [writeData_eq m page (hm ‹_›)]
    exact setEntry_eq { m with pt := m.pt.writeBlock bs page (m.pt.pageMapping page) } .none hp hs he
  · exact setEntry_eq m .none hp hs he

/-- **A replacement is the victim taken out and the page read into the frame it left.** -/
theorem replacePage_eq (m : Machine bs.State B) {page v : Nat} (hp : page < m.pt.npages) (hv : v < m.pt.npages)
    (hne : page ≠ v) (hs : m.th.startFrame ≤ m.pt.pageMapping v) (he : m.pt.pageMapping v < m.th.endFrame)
    (hm : m.pt.pageMapping v < m.pt.npages) :
    replacePage bs m page v = some { m with pt := (m.pt.dropPage bs v).fillPage bs page (m.pt.pageMapping v) } := by
  unfold replacePage
  rw [getEntry_eq m hv]
  simp only [Option.bind_eq_bind, Option.bind_some]
  unfold writeBack PageTable.dropPage PageTable.fillPage
  have hset : ∀ m' : Machine bs.State B, m'.th = m.th → m'.pt.npages = m.pt.npages →
      ((readData bs m' page (m.pt.pageMapping v)).bind fun m' =>
        (pageTableSetEntry m' page (m.pt.pageMapping v) .read).bind fun m' =>
          pageTableSetEntry m' v (m.pt.pageMapping v) .none) =
      some { m' with pt := ((m'.pt.readBlock bs page (m.pt.pageMapping v)).setEntry page (m.pt.pageMapping v)
        .read).setEntry v (m.pt.pageMapping v) .none } := by
    intro m' ht hn
    rw [readData_eq m' page (by omega), Option.bind_some,
      setEntry_eq _ .read (by simpa [PageTable.readBlock, hn] using hp) (by rw [ht]; exact hs) (by rw [ht]; exact he)]
    exact setEntry_eq _ .none (by simpa [PageTable.setEntry, PageTable.readBlock, hn] using hv) (by rw [ht]; exact hs)
      (by rw [ht]; exact he)
  split
  · rw [writeData_eq m v hm, Option.bind_some, hset { m with pt := m.pt.writeBlock bs v (m.pt.pageMapping v) } rfl rfl]
    simp only [PageTable.readBlock, PageTable.writeBlock, PageTable.setEntry, update_comm hne]
  · rw [Option.bind_some, hset m rfl rfl]
    simp only [PageTable.readBlock, PageTable.setEntry, update_comm hne]

@[simp] theorem grant_mapping {S : Type} (pt : PageTable S B) (page : Nat) :
    (pt.grant page).pageMapping = pt.pageMapping := update_eq_self _ _

theorem resident_grant {pt : PageTable bs.State B} {page : Nat} (hr : Resident pt page) (q : Nat) :
    Resident (pt.grant page) q ↔ Resident pt q := by
  rw [@Resident.upd_iff _ _ bs pt (pt.grant page) page .readWrite rfl rfl q]
  by_cases hq : q = page
  · subst hq; simp [hr, hr.1]
  · simp [hq]

/-- **The right to write changes no byte.** -/
theorem Core.upgrade {pt : PageTable bs.State B} {s e page : Nat} (hc : Core bs pt s e) (hr : Resident pt page) :
    Core bs (pt.grant page) s e ∧ ∀ q, shown bs (pt.grant page) q = shown bs pt q := by
  have hres := fun q => (resident_grant hr q).1
  refine ⟨⟨hc.pages, ?_, ?_, ?_, ?_⟩, ?_⟩
  · intro q hq
    rw [grant_mapping]; exact hc.frame q (hres q hq)
  · intro q hq
    rw [grant_mapping]; exact hc.backed q (hres q hq)
  · intro q r hq hr' heq
    rw [grant_mapping] at heq
    exact hc.inj q r (hres q hq) (hres r hr') heq
  · intro q hq hqb
    have hqb : update pt.pageBits page .readWrite q = .read := hqb
    have hqp : q ≠ page := by rintro rfl; simp at hqb
    rw [update_of_ne hqp] at hqb
    rw [grant_mapping]; exact hc.clean q hq hqb
  · intro q
    show (if update pt.pageBits page .readWrite q = .none then bs.content pt.store q
      else pt.physmem (update pt.pageMapping page (pt.pageMapping page) q)) = _
    rw [update_eq_self]
    by_cases hqp : q = page
    · subst hqp; simp [shown_resident hr.2]
    · rw [update_of_ne hqp]; rfl

/-! ## The pages of a policy's list

A policy knows its resident pages by a list of keys, and has handed out the first `c` frames of its range: the next
frame is free.  Its range starts with the first frame, or all frames of it have memory. -/

structure Listed (bs : BackingStore B npages) (pt : PageTable bs.State B) (s e : Nat) (ks : List Nat) (c : Nat) :
    Prop extends Core bs pt s e where
  nodup : ks.Nodup
  res : ∀ p, Resident pt p ↔ p ∈ ks
  low : ∀ p ∈ ks, pt.pageMapping p < s + c
  span : e = s + pt.nframes
  room : c ≤ pt.nframes
  memory : s = 0 ∨ e ≤ npages

/-- Every page still stands for the block it stood for. -/
def Kept (bs : BackingStore B npages) (pt pt' : PageTable bs.State B) : Prop :=
  pt'.nframes = pt.nframes ∧ ∀ q, q < npages → shown bs pt' q = shown bs pt q

theorem Kept.refl (pt : PageTable bs.State B) : Kept bs pt pt := ⟨rfl, fun _ _ => rfl⟩

theorem Kept.trans {pt pt' pt'' : PageTable bs.State B} (h : Kept bs pt pt') (h' : Kept bs pt' pt'') :
    Kept bs pt pt'' := ⟨h'.1.trans h.1, fun q hq => (h'.2 q hq).trans (h.2 q hq)⟩

theorem Listed.lt_npages {pt : PageTable bs.State B} {s e c p : Nat} {ks : List Nat} (h : Listed bs pt s e ks c)
    (hp : p ∈ ks) : p < npages := h.pages ▸ ((h.res p).2 hp).1

theorem Listed.bits_iff {pt : PageTable bs.State B} {s e c p : Nat} {ks : List Nat} (h : Listed bs pt s e ks c)
    (hp : p < npages) : pt.pageBits p = .none ↔ p ∉ ks := by
  rw [← h.res p, Resident, h.pages]
  simp [hp]

theorem Listed.perm {pt : PageTable bs.State B} {s e c : Nat} {ks ks' : List Nat} (h : Listed bs pt s e ks c)
    (hk : ks.Perm ks') : Listed bs pt s e ks' c where
  toCore := h.toCore
  nodup := hk.nodup_iff.1 h.nodup
  res := fun p => (h.res p).trans hk.mem_iff
  low := fun p hp => h.low p (hk.mem_iff.2 hp)
  span := h.span
  room := h.room
  memory := h.memory

/-- With no page resident, every frame is free again. -/
theorem Listed.restart {pt : PageTable bs.State B} {s e c : Nat} (h : Listed bs pt s e [] c) (c' : Nat)
    (hc : c' ≤ pt.nframes) : Listed bs pt s e [] c' where
  toCore := h.toCore
  nodup := h.nodup
  res := h.res
  low := fun p hp => by cases hp
  span := h.span
  room := hc
  memory := h.memory

theorem Listed.fill {pt : PageTable bs.State B} {s e c c' page i : Nat} {ks : List Nat} (h : Listed bs pt s e ks c)
    (hp : page < npages) (hk : page ∉ ks) (hs : s ≤ i) (hi : i < s + c') (hm : i < npages) (hc : c ≤ c')
    (hc' : c' ≤ pt.nframes) (hfree : ∀ q, Resident pt q → pt.pageMapping q ≠ i) :
    Listed bs (pt.fillPage bs page i) s e (page :: ks) c' ∧ Kept bs pt (pt.fillPage bs page i) := by
  have he : i < e := by rw [h.span]; omega
  refine ⟨⟨h.toCore.fill hp hs he hm hfree, List.nodup_cons.2 ⟨hk, h.nodup⟩, ?_, ?_, h.span, hc', h.memory⟩, rfl, ?_⟩
  · intro q
    rw [resident_fillPage (h.pages.symm ▸ hp), List.mem_cons, h.res q]
  · intro q hq
    show update pt.pageMapping page i q < _
    by_cases hqp : q = page
    · rw [hqp, update_self]; exact hi
    · rw [update_of_ne hqp]
      have := h.low q ((List.mem_cons.1 hq).resolve_left hqp)
      omega
  · exact fun q hq => shown_fill h.toCore hp ((h.bits_iff hp).2 hk) hfree hq

theorem Listed.drop {pt : PageTable bs.State B} {s e c v : Nat} {A C : List Nat}
    (h : Listed bs pt s e (A ++ v :: C) c) :
    Listed bs (pt.dropPage bs v) s e (A ++ C) c ∧ Kept bs pt (pt.dropPage bs v) := by
  have hv : v < npages := h.lt_npages (by simp)
  obtain ⟨hvn, hnd⟩ := List.nodup_cons.1 ((List.perm_middle.nodup_iff).1 h.nodup)
  refine ⟨⟨h.toCore.drop hv, hnd, ?_, ?_, h.span.trans (by simp), by simpa using h.room, h.memory⟩, by simp, ?_⟩
  · intro q
    rw [resident_dropPage, h.res q]
    by_cases hq : q = v
    · subst hq; simpa using hvn
    · simp [hq]
  · intro q hq
    rw [dropPage_mapping]
    exact h.low q (by simp at hq ⊢; exact hq.imp_right Or.inr)
  · exact fun q hq => shown_drop h.toCore hv hq

theorem Listed.grant {pt : PageTable bs.State B} {s e c page : Nat} {ks : List Nat} (h : Listed bs pt s e ks c)
    (hk : page ∈ ks) : Listed bs (pt.grant page) s e ks c ∧ Kept bs pt (pt.grant page) := by
  obtain ⟨hcore, hshown⟩ := h.toCore.upgrade ((h.res page).2 hk)
  refine ⟨⟨hcore, h.nodup, ?_, ?_, h.span, h.room, h.memory⟩, rfl, fun q _ => hshown q⟩
  · intro q
    rw [resident_grant ((h.res page).2 hk), h.res q]
  · intro q hq
    rw [grant_mapping]; exact h.low q hq

end Vmem
end Bb
