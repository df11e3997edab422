import BlueBridge.Recency
import BlueBridge.VmemLists
import BlueBridge.VmemScan
/-!
# VmemFifo — FIFO's ages are the order of the last faults

FIFO keeps an age for each frame and sets it to one whenever the frame's page faults, on an upgrade as well.  So the age
of a page is the number of faults since its last one, and the oldest frame is the one of the last key in the order of
LRU (`fifoPageFaultHandler_faulted`).  The ages are `int`s, and `frameState[i]++` is undefined at the greatest one
(`fifoPageFaultHandler_overflow`).

All of it is about one thread's frames: the ages of other frames are neither read nor written.
-/
namespace Bb
namespace Vmem

open Cells Recency
open Function (update update_self update_of_ne)

variable {B npages : Nat} {bs : BackingStore B npages}

/-! ## The scans -/

/-- The ages of the frames from `s` up to `e` after the first loop. -/
def aged (s e : Nat) (frameState : Nat → Int) (i : Nat) : Int :=
  if s ≤ i ∧ i < e ∧ frameState i ≠ 0 then frameState i + 1 else frameState i

theorem ageFrames_eq : ∀ (k s : Nat) {fs : Nat → Int}, (∀ i, s ≤ i → i < s + k → fs i ≠ intMax) →
    ageFrames fs (List.range' s k) = some (aged s (s + k) fs)
  | 0, s, fs, _ => by
    have : aged s (s + 0) fs = fs := funext fun i => if_neg (by omega)
    rw [this]
    rfl
  | k + 1, s, fs, h => by
    rw [List.range'_succ, ageFrames]
    by_cases h0 : fs s = 0
    · rw [if_neg (not_not.2 h0), ageFrames_eq k (s + 1) (fun i hs hi => h i (by omega) (by omega))]
      refine congrArg some (funext fun i => ?_)
      unfold aged
      by_cases hi : i = s
      · rw [if_neg (by omega), if_neg (by rw [hi, h0]; simp)]
      · exact if_congr (by omega) rfl rfl
    · rw [if_pos h0, if_neg (h s (Nat.le_refl _) (by omega)), ageFrames_eq k (s + 1) (fun i hs hi => by
        rw [update_of_ne (by omega)]
        exact h i (by omega) (by omega))]
      refine congrArg some (funext fun i => ?_)
      unfold aged
      by_cases hi : i = s
      · subst hi
        rw [if_neg (by omega), update_self, if_pos ⟨Nat.le_refl _, by omega, h0⟩]
      · rw [update_of_ne hi]
        exact if_congr (by omega) rfl rfl

/-- An age that is the greatest `int` cannot grow. -/
theorem ageFrames_none {i : Nat} : ∀ (l : List Nat) {fs : Nat → Int}, l.Nodup → i ∈ l → fs i = intMax →
    ageFrames fs l = none
  | j :: r, fs, hnd, hi, hmax => by
    obtain ⟨hj, hr⟩ := List.nodup_cons.1 hnd
    rw [ageFrames]
    rcases List.mem_cons.1 hi with rfl | hi
    · rw [if_pos (by rw [hmax]; decide), if_pos hmax]
    · have hne : i ≠ j := fun h => hj (h ▸ hi)
      split
      · split
        · rfl
        · exact ageFrames_none r hr hi (by rw [update_of_ne hne]; exact hmax)
      · exact ageFrames_none r hr hi hmax

/-- The loop has come through: no age was at its end. -/
theorem ageFrames_some {s k : Nat} {fs fs' : Nat → Int} (h : ageFrames fs (List.range' s k) = some fs') :
    fs' = aged s (s + k) fs := by
  have hmax : ∀ i, s ≤ i → i < s + k → fs i ≠ intMax := by
    intro i hs hi hmax
    rw [ageFrames_none _ List.nodup_range' (List.mem_range'_1.2 ⟨hs, hi⟩) hmax] at h
    cases h
  rw [ageFrames_eq k s hmax] at h
  exact (Option.some.inj h).symm

theorem oldestFrame_of_le (fs : Nat → Int) : ∀ (l : List Nat) {value : Int} (frame : Nat), (∀ j ∈ l, fs j ≤ value) →
    oldestFrame fs l value frame = frame
  | [], _, _, _ => rfl
  | i :: r, value, frame, h => by
    have hi := h i List.mem_cons_self
    rw [oldestFrame, if_neg (by omega)]
    exact oldestFrame_of_le fs r frame (fun j hj => h j (List.mem_cons_of_mem _ hj))

/-- **The scan ends on the oldest frame.** -/
theorem oldestFrame_eq (fs : Nat → Int) {i : Nat} : ∀ (l : List Nat) {value : Int} (frame : Nat), i ∈ l → value < fs i →
    (∀ j ∈ l, j ≠ i → fs j < fs i) → oldestFrame fs l value frame = i
  | j :: r, value, frame, hi, hv, hmax => by
    rw [oldestFrame]
    by_cases hj : j = i
    · subst hj
      rw [if_pos hv]
      refine oldestFrame_of_le fs r j (fun k hk => ?_)
      by_cases hkj : k = j
      · rw [hkj]
      · exact Int.le_of_lt (hmax k (List.mem_cons_of_mem _ hk) hkj)
    · have hir : i ∈ r := (List.mem_cons.1 hi).resolve_left (Ne.symm hj)
      have hmaxr : ∀ k ∈ r, k ≠ i → fs k < fs i := fun k hk => hmax k (List.mem_cons_of_mem _ hk)
      split
      · exact oldestFrame_eq fs r j hir (hmax j List.mem_cons_self hj) hmaxr
      · exact oldestFrame_eq fs r frame hir hv hmaxr

/-! ## The arrays -/

/-- The frames from `s` on hold the keys `ks`, and their ages are those of the pages in the history `h` of the faults. -/
structure FifoArr {S : Type} (pt : PageTable S B) (s e : Nat) (ks h : List Nat) : Prop where
  room : s + ks.length ≤ e
  used : ∀ i, s ≤ i → i < e → (pt.frameState i = 0 ↔ s + ks.length ≤ i)
  name : ∀ i, s ≤ i → i < s + ks.length → pt.framePage i ∈ ks ∧ pt.pageMapping (pt.framePage i) = i
  back : ∀ p ∈ ks, s ≤ pt.pageMapping p ∧ pt.pageMapping p < s + ks.length ∧ pt.framePage (pt.pageMapping p) = p
  ages : ∀ p ∈ ks, pt.frameState (pt.pageMapping p) = age h p
  recent : Recent h ks
  nodup : ks.Nodup
  names : 0 < pt.npages → ∀ i, s ≤ i → i < e → pt.framePage i < pt.npages

section Arrays

variable {S : Type} {pt pt' : PageTable S B} {s e page i : Nat} {ks ks₁ h : List Nat}

theorem FifoArr.aged_age (hi : FifoArr pt s e ks h) {p : Nat} (hp : p ∈ ks) :
    aged s e pt.frameState (pt.pageMapping p) = age h p + 1 := by
  obtain ⟨hs, hlt, -⟩ := hi.back p hp
  have hage := hi.ages p hp
  have hpos := age_pos h p
  have hroom := hi.room
  rw [aged, if_pos ⟨hs, by omega, by omega⟩, hage]

theorem FifoArr.aged_zero (hi : FifoArr pt s e ks h) {j : Nat} (hs : s ≤ j) (he : j < e) :
    aged s e pt.frameState j = 0 ↔ s + ks.length ≤ j := by
  have hused := hi.used j hs he
  unfold aged
  by_cases h0 : pt.frameState j = 0
  · rw [if_neg (by simp [h0]), hused]
  · -- a frame in use has the age of its page
    have hlt : j < s + ks.length := by by_contra hge; exact h0 (hused.2 (Nat.not_lt.1 hge))
    obtain ⟨hmem, hmap⟩ := hi.name j hs hlt
    have hage := hi.ages _ hmem
    rw [hmap] at hage
    rw [if_pos ⟨hs, he, h0⟩]
    omega

/-- **The page of a fault goes to frame `i`** with age one; the keys that stay are one fault older. -/
theorem FifoArr.enter (hi : FifoArr pt s e ks h) (hn : pt'.npages = pt.npages) (hlt : page < pt.npages)
    (hsub : ks₁.Sublist ks) (hpage : page ∉ ks₁)
    (hroom : s + (page :: ks₁).length ≤ e) (hfs : pt'.frameState = update (aged s e pt.frameState) i 1)
    (hfp : pt'.framePage = update pt.framePage i page) (hmap : pt'.pageMapping = update pt.pageMapping page i)
    (his : s ≤ i) (hie : i < s + (page :: ks₁).length) (hstay : ∀ q ∈ ks, q ∈ ks₁ ↔ pt.pageMapping q ≠ i)
    (hlen : ∀ j, j ≠ i → (s + ks.length ≤ j ↔ s + (page :: ks₁).length ≤ j)) :
    FifoArr pt' s e (page :: ks₁) (page :: h) := by
  have hq : ∀ q ∈ ks₁, q ∈ ks ∧ q ≠ page ∧ pt.pageMapping q ≠ i := fun q hq =>
    ⟨hsub.subset hq, fun h => hpage (h ▸ hq), (hstay q (hsub.subset hq)).1 hq⟩
  refine ⟨hroom, ?_, ?_, ?_, ?_, hi.recent.push hsub hpage, List.nodup_cons.2 ⟨hpage, hi.nodup.sublist hsub⟩, ?_⟩
  · intro j hs he
    rw [hfs]
    by_cases hj : j = i
    · subst hj
      rw [update_self]
      exact ⟨fun h => by omega, fun h => by omega⟩
    · rw [update_of_ne hj, hi.aged_zero hs he, hlen j hj]
  · intro j hs hlt
    rw [hfp, hmap]
    by_cases hj : j = i
    · subst hj
      rw [update_self, update_self]
      exact ⟨List.mem_cons_self, rfl⟩
    · have hlt' : j < s + ks.length := by by_contra hge; exact absurd ((hlen j hj).1 (Nat.not_lt.1 hge)) (by omega)
      obtain ⟨hmem, hm⟩ := hi.name j hs hlt'
      have hmem₁ := (hstay _ hmem).2 (by rw [hm]; exact hj)
      rw [update_of_ne hj, update_of_ne (hq _ hmem₁).2.1]
      exact ⟨List.mem_cons_of_mem _ hmem₁, hm⟩
  · intro p hp
    rw [hfp, hmap]
    rcases List.mem_cons.1 hp with rfl | hp
    · rw [update_self, update_self]
      exact ⟨his, hie, rfl⟩
    · obtain ⟨hk, hne, hm⟩ := hq p hp
      obtain ⟨hs, hlt, hname⟩ := hi.back p hk
      rw [update_of_ne hne, update_of_ne hm]
      refine ⟨hs, ?_, hname⟩
      by_contra hge
      have := (hlen _ hm).2 (Nat.not_lt.1 hge)
      omega
  · intro p hp
    rw [hfs, hmap]
    rcases List.mem_cons.1 hp with rfl | hp
    · rw [update_self, update_self, age_cons_self]
      rfl
    · obtain ⟨hk, hne, hm⟩ := hq p hp
      rw [update_of_ne hne, update_of_ne hm, hi.aged_age hk, age_cons_of_ne hne]
      rfl
  · intro h0 j hs he
    rw [hn] at h0 ⊢
    rw [hfp]
    by_cases hj : j = i
    · rw [hj, update_self]
      exact hlt
    · rw [update_of_ne hj]
      exact hi.names h0 j hs he

end Arrays

/-! ## The handler -/

section Handler

variable {m : Machine bs.State B} {ks h : List Nat} {page : Nat}

theorem threadFrames_eq (hspan : m.th.endFrame = m.th.startFrame + m.pt.nframes) :
    threadFrames m.th = List.range' m.th.startFrame m.pt.nframes := by
  unfold threadFrames
  rw [hspan, Nat.add_sub_cancel_left]

/-- The first loop, when no age is at its end. -/
theorem FifoArr.ageFrames (hi : FifoArr m.pt m.th.startFrame m.th.endFrame ks h)
    (hspan : m.th.endFrame = m.th.startFrame + m.pt.nframes) (hov : ∀ p ∈ ks, (age h p : Int) ≠ intMax) :
    ageFrames m.pt.frameState (threadFrames m.th) = some (aged m.th.startFrame m.th.endFrame m.pt.frameState) := by
  rw [threadFrames_eq hspan, hspan]
  refine ageFrames_eq _ _ (fun i hs he => ?_)
  rcases Nat.lt_or_ge i (m.th.startFrame + ks.length) with hlt | hge
  · obtain ⟨hmem, hmap⟩ := hi.name i hs hlt
    have hage := hi.ages _ hmem
    rw [hmap] at hage
    rw [hage]
    exact hov _ hmem
  · rw [(hi.used i hs (by omega)).2 hge]
    decide

/-- The machine after the fault, with the page in frame `i`. -/
def entered (m : Machine bs.State B) (page : Nat) (mv : Move) (i : Nat) : Machine bs.State B :=
  { m with pt := { m.pt.make bs page mv with
      frameState := update (aged m.th.startFrame m.th.endFrame m.pt.frameState) i 1,
      framePage := update m.pt.framePage i page } }

theorem faulted_entered {ks' : List Nat} {mv : Move} {i : Nat}
    (ht : Held m.pt m.th.startFrame m.th.endFrame 0 ks page) (hturn : Turn m.th.startFrame m.pt.nframes 0 ks page mv ks')
    (hs : m.th.startFrame ≤ i) (he : i < m.th.endFrame) : Faulted bs m (entered m page mv i) 0 page ks ks' mv := by
  refine ⟨hturn, ht.memory hturn, rfl, rfl, rfl, fun j hout => ?_⟩
  have hne : j ≠ i := by omega
  have haged : aged m.th.startFrame m.th.endFrame m.pt.frameState j = m.pt.frameState j := if_neg (by omega)
  exact ⟨(update_of_ne hne _ _).trans haged, update_of_ne hne _ _⟩

/-- The table after the first loop. -/
theorem Held.arrays (ht : Held m.pt m.th.startFrame m.th.endFrame 0 ks page) (fs : Nat → Int) (fp : Nat → Nat) :
    Held ({ m.pt with frameState := fs, framePage := fp } : PageTable bs.State B) m.th.startFrame m.th.endFrame 0 ks page :=
  ⟨ht.lt, ht.bits, ht.frame, ht.span, ht.next⟩

/-- **The frame of the last key is older than the others.** -/
theorem FifoArr.last_oldest {A : List Nat} {v : Nat} (hi : FifoArr m.pt m.th.startFrame m.th.endFrame (A ++ [v]) h)
    {j : Nat} (hs : m.th.startFrame ≤ j) (hlt : j < m.th.startFrame + (A ++ [v]).length) (hne : j ≠ m.pt.pageMapping v) :
    aged m.th.startFrame m.th.endFrame m.pt.frameState j <
      aged m.th.startFrame m.th.endFrame m.pt.frameState (m.pt.pageMapping v) := by
  have hv : v ∈ A ++ [v] := List.mem_append_right _ List.mem_cons_self
  obtain ⟨hmem, hmap⟩ := hi.name j hs hlt
  have hA : m.pt.framePage j ∈ A := by
    rcases List.mem_append.1 hmem with h | h
    · exact h
    · rw [List.mem_singleton.1 h] at hmap
      exact absurd hmap.symm hne
  have hlt := age_lt (hi.recent.last_lt _ hA)
  rw [← hmap, hi.aged_age hmem, hi.aged_age hv]
  omega

/-- **The oldest frame is the one of the last key.** -/
theorem FifoArr.oldest {A : List Nat} {v : Nat} (hi : FifoArr m.pt m.th.startFrame m.th.endFrame (A ++ [v]) h)
    (hspan : m.th.endFrame = m.th.startFrame + m.pt.nframes) (hfull : m.pt.nframes ≤ (A ++ [v]).length) (frame : Nat) :
    oldestFrame (aged m.th.startFrame m.th.endFrame m.pt.frameState) (threadFrames m.th) 0 frame =
      m.pt.pageMapping v := by
  have hroom := hi.room
  have hv : v ∈ A ++ [v] := List.mem_append_right _ List.mem_cons_self
  obtain ⟨hvs, hvlt, -⟩ := hi.back v hv
  rw [threadFrames_eq hspan]
  refine oldestFrame_eq _ _ _ (List.mem_range'_1.2 ⟨hvs, by omega⟩) ?_ (fun j hj hne => ?_)
  · rw [hi.aged_age hv]
    omega
  · obtain ⟨hs, he⟩ := List.mem_range'_1.1 hj
    exact hi.last_oldest hs (by omega) hne

/-- **The first free frame is the one after the keys.** -/
theorem FifoArr.find (hi : FifoArr m.pt m.th.startFrame m.th.endFrame ks h)
    (hspan : m.th.endFrame = m.th.startFrame + m.pt.nframes) :
    (threadFrames m.th).find? (fun i => aged m.th.startFrame m.th.endFrame m.pt.frameState i == 0) =
      if ks.length < m.pt.nframes then some (ks.length + m.th.startFrame) else none := by
  have hroom := hi.room
  rw [threadFrames_eq hspan]
  split
  · rw [List.find?_range'_eq_some]
    refine ⟨?_, List.mem_range'_1.2 (by omega), fun j hj hjk => ?_⟩
    · rw [beq_iff_eq, hi.aged_zero (by omega) (by omega)]
      omega
    · rw [Bool.not_eq_true', beq_eq_false_iff_ne, ne_eq, hi.aged_zero hj (by omega)]
      omega
  · rw [List.find?_eq_none]
    intro i hmem
    obtain ⟨hs, he⟩ := List.mem_range'_1.1 hmem
    rw [beq_iff_eq, hi.aged_zero hs (by omega)]
    omega

theorem FifoArr.fill (hi : FifoArr m.pt m.th.startFrame m.th.endFrame ks h) (hp : page < m.pt.npages) (hk : page ∉ ks)
    (hlt : m.th.startFrame + ks.length < m.th.endFrame) :
    FifoArr (entered m page (.fill (ks.length + m.th.startFrame)) (ks.length + m.th.startFrame)).pt m.th.startFrame
      m.th.endFrame (page :: ks) (page :: h) := by
  refine hi.enter rfl hp (List.Sublist.refl _) hk ?_ rfl rfl rfl (by omega) ?_ (fun q hq => ?_) (fun j hj => ?_)
  · rw [List.length_cons]; omega
  · rw [List.length_cons]; omega
  · have := (hi.back q hq).2.1
    exact ⟨fun _ => by omega, fun _ => hq⟩
  · rw [List.length_cons]; omega

theorem FifoArr.replace {A : List Nat} {v : Nat} (hi : FifoArr m.pt m.th.startFrame m.th.endFrame (A ++ [v]) h)
    (hp : page < m.pt.npages) (hk : page ∉ A ++ [v]) :
    FifoArr (entered m page (.replace v) (m.pt.pageMapping v)).pt m.th.startFrame m.th.endFrame (page :: A)
      (page :: h) := by
  obtain ⟨hvs, hvlt, hvname⟩ := hi.back v (List.mem_append_right _ List.mem_cons_self)
  have hkA : page ∉ A := fun h => hk (List.mem_append_left _ h)
  have hvA : v ∉ A := fun h => (List.nodup_append.1 hi.nodup).2.2 v h v List.mem_cons_self rfl
  have hlen : (page :: A).length = (A ++ [v]).length := by rw [List.length_cons, List.length_append]; rfl
  refine hi.enter (make_npages _ _ _) hp (List.sublist_append_left _ _) hkA ?_ rfl rfl (make_mapping _ _ _) hvs ?_
    (fun q hq => ?_) (fun j hj => ?_)
  · rw [hlen]; exact hi.room
  · rw [hlen]; exact hvlt
  · constructor
    · intro hqA heq
      refine hvA (?_ : v ∈ A)
      rw [← hvname, ← heq, (hi.back q hq).2.2]
      exact hqA
    · intro hne
      refine (List.mem_append.1 hq).resolve_right (fun hqv => hne ?_)
      rw [List.mem_singleton.1 hqv]
  · rw [hlen]

theorem FifoArr.grant (hi : FifoArr m.pt m.th.startFrame m.th.endFrame ks h) (hp : page < m.pt.npages) (hk : page ∈ ks) :
    FifoArr (entered m page .grant (m.pt.pageMapping page)).pt m.th.startFrame m.th.endFrame (page :: ks.erase page)
      (page :: h) := by
  obtain ⟨hps, hplt, hpname⟩ := hi.back page hk
  have hpos : 0 < ks.length := List.length_pos_of_mem hk
  have hlen : (page :: ks.erase page).length = ks.length := by
    rw [List.length_cons, List.length_erase_of_mem hk]
    omega
  have hpe : page ∉ ks.erase page := fun h => (hi.nodup.mem_erase_iff.1 h).1 rfl
  refine hi.enter (make_npages _ _ _) hp List.erase_sublist hpe ?_ rfl rfl (make_mapping _ _ _) hps ?_
    (fun q hq => ?_) (fun j hj => ?_)
  · rw [hlen]; exact hi.room
  · rw [hlen]; exact hplt
  · rw [hi.nodup.mem_erase_iff]
    constructor
    · intro hqe heq
      refine hqe.1 ?_
      rw [← (hi.back q hq).2.2, heq, hpname]
    · intro hne
      exact ⟨fun h => hne (by rw [h]), hq⟩
  · rw [hlen]

/-- **FIFO orders its pages by their last fault, as LRU does.** -/
theorem fifoPageFaultHandler_faulted (hi : FifoArr m.pt m.th.startFrame m.th.endFrame ks h) (hn : 0 < m.pt.nframes)
    (ht : Held m.pt m.th.startFrame m.th.endFrame 0 ks page) (hov : ∀ p ∈ ks, (age h p : Int) ≠ intMax) :
    ∃ m' mv, fifoPageFaultHandler bs m page = some m' ∧
      FifoArr m'.pt m.th.startFrame m.th.endFrame (lruKeys m.pt.nframes ks page) (page :: h) ∧
      Faulted bs m m' 0 page ks (lruKeys m.pt.nframes ks page) mv ∧ LastOut ks mv := by
  have hspan := ht.span
  have hroom := hi.room
  have hage := hi.ageFrames hspan hov
  have hfind := hi.find hspan
  unfold fifoPageFaultHandler lruKeys loadKey
  rw [getEntry_eq m ht.lt]
  simp only [Option.bind_eq_bind, Option.bind_some, hage, hfind]
  by_cases hb : m.pt.pageBits page = .none
  · have hk := ht.bits.1 hb
    rw [if_pos hb, if_neg hk]
    by_cases hlt : ks.length < m.pt.nframes
    · rw [if_pos hlt, if_pos hlt]
      have hturn : Turn m.th.startFrame m.pt.nframes 0 ks page (.fill (ks.length + m.th.startFrame)) (page :: ks) :=
        .fill hk hlt (.refl _)
      exact ⟨_, _, Held.fillFrame m.th m.rands m.calls (ht.arrays _ _) hk hlt, hi.fill ht.lt hk (by omega),
        faulted_entered ht hturn (by omega) (by omega), fun v hv => by cases hv⟩
    · rw [if_neg hlt, if_neg hlt]
      obtain ⟨A, v, rfl⟩ : ∃ A v, ks = A ++ [v] := by
        rcases List.eq_nil_or_concat ks with rfl | ⟨A, v, rfl⟩
        · rw [List.length_nil] at hlt; omega
        · exact ⟨A, v, List.concat_eq_append ..⟩
      have hv : v ∈ A ++ [v] := List.mem_append_right _ List.mem_cons_self
      obtain ⟨hvs, hvlt, hvname⟩ := hi.back v hv
      have hturn : Turn m.th.startFrame m.pt.nframes 0 (A ++ [v]) page (.replace v) (page :: A) :=
        .replace hk (Nat.not_lt.1 hlt) rfl (by rw [List.append_nil])
      have er := Held.replacePage m.th m.rands m.calls
        (ht.arrays (aged m.th.startFrame m.th.endFrame m.pt.frameState) m.pt.framePage) hk hv
      rw [make_arrays] at er
      have hget : pageTableGetEntry (⟨{ m.pt with frameState := aged m.th.startFrame m.th.endFrame m.pt.frameState }, m.th,
          m.rands, m.calls⟩ : Machine bs.State B) v = some (m.pt.pageMapping v, m.pt.pageBits v) :=
        getEntry_eq _ (ht.frame v hv).1
      simp only [hi.oldest hspan (Nat.not_lt.1 hlt), hvname, hget, Option.bind_some, er]
      rw [List.dropLast_concat]
      exact ⟨_, _, rfl, hi.replace ht.lt hk, faulted_entered ht hturn hvs (by omega), fun w hw => ⟨A, by cases hw; rfl⟩⟩
  · have hk : page ∈ ks := by_contra fun hk => hb (ht.bits.2 hk)
    rw [if_neg hb, if_pos hk]
    obtain ⟨hps, hplt, -⟩ := hi.back page hk
    have hturn : Turn m.th.startFrame m.pt.nframes 0 ks page .grant (page :: ks.erase page) :=
      .grant hk (List.perm_cons_erase hk).symm
    have eg := @Held.grant B npages bs _ _ _ _ m.th m.rands m.calls
      (ht.arrays (aged m.th.startFrame m.th.endFrame m.pt.frameState) m.pt.framePage) hk
    rw [make_arrays] at eg
    simp only [eg, Option.bind_some]
    exact ⟨_, _, rfl, hi.grant ht.lt hk, faulted_entered ht hturn hps (by omega), fun v hv => by cases hv⟩

/-- **An age at its end is undefined.** -/
theorem fifoPageFaultHandler_overflow (hi : FifoArr m.pt m.th.startFrame m.th.endFrame ks h)
    (ht : Held m.pt m.th.startFrame m.th.endFrame 0 ks page) {p : Nat} (hp : p ∈ ks) (hov : (age h p : Int) = intMax) :
    fifoPageFaultHandler bs m page = none := by
  have hroom := hi.room
  have hspan := ht.span
  obtain ⟨hs, hlt, -⟩ := hi.back p hp
  have hnone : ageFrames m.pt.frameState (threadFrames m.th) = none := by
    rw [threadFrames_eq hspan]
    exact ageFrames_none _ List.nodup_range' (List.mem_range'_1.2 ⟨hs, by omega⟩) ((hi.ages p hp).trans hov)
  unfold fifoPageFaultHandler
  rw [getEntry_eq m ht.lt]
  simp only [Option.bind_eq_bind, Option.bind_some, hnone, Option.bind_none]

end Handler

end Vmem
end Bb
