import BlueBridge.VmemMoves
import BlueBridge.VmemHash
/-!
# VmemScan — RAND and FIFO, which find their victims by scanning

RAND keeps its keys in the hash table alone and probes it from a random bucket.  It counts frames it has handed out, not
resident pages, and the flush leaves that count: after a flush the probe can run over an empty table for ever, and the
next frame can be one without memory, so the lemmas here are about the handler when it returns.  FIFO keeps two arrays
over the frames; the flush clears them through whatever page each frame last held, resident or not.
-/
namespace Bb
namespace Vmem

open Cells
open Function (update update_self update_of_ne)

variable {B npages : Nat} {bs : BackingStore B npages}

/-! ## RAND -/

structure RandInv (bs : BackingStore B npages) (m : Machine bs.State B) (ks : List Nat) : Prop where
  hash : HashMaps m.pt.nframes m.th.hashTable (ks.map (Prod.mk 0))
  listed : Listed bs m.pt m.th.startFrame m.th.endFrame ks m.th.count

theorem mem_of_hashed {ks : List Nat} {l k : Nat} (h : (l, k) ∈ ks.map (Prod.mk 0)) : k ∈ ks := by
  obtain ⟨k', hk', he⟩ := List.mem_map.1 h
  cases he
  exact hk'

theorem map_snd_hashed (ks : List Nat) : (ks.map (Prod.mk 0)).map Prod.snd = ks := by
  simp [Function.comp_def]

theorem HashMaps.delete_hashed {n : Nat} {h : HashTable} {A C : List Nat} {k : Nat}
    (hm : HashMaps n h ((A ++ k :: C).map (Prod.mk 0))) (hnd : (A ++ k :: C).Nodup) :
    ∃ h', deleteHashNode n h k = some h' ∧ HashMaps n h' ((A ++ C).map (Prod.mk 0)) := by
  rw [List.map_append, List.map_cons] at hm
  rw [List.map_append]
  refine hm.delete ?_
  rw [← List.map_append, map_snd_hashed]
  exact (List.nodup_cons.1 ((List.perm_middle.nodup_iff).1 hnd)).1

theorem probeBucket_some {h : HashTable} {n r : Nat} : ∀ (fuel i : Nat), probeBucket h n fuel i = some r →
    (h.table r).head ≠ 0
  | 0, _, hp => by simp [probeBucket] at hp
  | fuel + 1, i, hp => by
    unfold probeBucket at hp
    split at hp
    · exact probeBucket_some fuel _ hp
    · rename_i hi; cases hp; exact hi

/-- The probe goes round all buckets, so it finds one that is not empty if there is one. -/
theorem probeBucket_of_head {h : HashTable} {n : Nat} : ∀ (fuel i : Nat), i < n →
    (∃ j, j < fuel ∧ (h.table ((i + j) % n)).head ≠ 0) → ∃ r, probeBucket h n fuel i = some r
  | 0, _, _, ⟨_, hj, _⟩ => absurd hj (Nat.not_lt_zero _)
  | fuel + 1, i, hi, ⟨j, hj, hhead⟩ => by
    unfold probeBucket
    by_cases h0 : (h.table i).head = 0
    · rw [if_pos h0]
      cases j with
      | zero => rw [Nat.add_zero, Nat.mod_eq_of_lt hi] at hhead; exact absurd h0 hhead
      | succ j =>
        split
        · have hwrap : i + 1 = n := by omega
          refine probeBucket_of_head fuel 0 (by omega) ⟨j, by omega, ?_⟩
          rwa [Nat.zero_add, ← Nat.add_mod_right, ← hwrap, Nat.add_comm j, Nat.add_right_comm, Nat.add_assoc, hwrap]
        · refine probeBucket_of_head fuel (i + 1) (by omega) ⟨j, by omega, ?_⟩
          rwa [Nat.add_right_comm, Nat.add_assoc]
    · rw [if_neg h0]
      exact ⟨i, rfl⟩

/-- **The probe ends when there is a key.** -/
theorem probeBucket_total {h : HashTable} {n : Nat} {L : List (Nat × Nat)} (hm : HashMaps n h L) (hn : 0 < n)
    {lp key : Nat} (hk : (lp, key) ∈ L) {i : Nat} (hi : i < n) : ∃ r, probeBucket h n n i = some r := by
  have hhead := (hm.head_ne hk).1
  have hlt : hashFunction n key < n := Nat.mod_lt _ hn
  generalize hashFunction n key = b at hhead hlt
  refine probeBucket_of_head n i hi ?_
  rcases Nat.lt_or_ge b i with hbi | hbi
  · refine ⟨b + n - i, by omega, ?_⟩
    rwa [show i + (b + n - i) = b + n by omega, Nat.add_mod_right, Nat.mod_eq_of_lt hlt]
  · refine ⟨b - i, by omega, ?_⟩
    rwa [show i + (b - i) = b by omega, Nat.mod_eq_of_lt hlt]

/-- The keys of RAND are in the table alone; it has handed out `c` frames more. -/
structure RandKeys (n : Nat) (th : Thread) (ks : List Nat) (c : Nat) : Prop where
  hash : HashMaps n th.hashTable (ks.map (Prod.mk 0))
  nodup : ks.Nodup
  count : th.count = ks.length + c

/-- **RAND takes its victim from the bucket the probe ends on.** -/
theorem randPageFaultHandler_faulted {m : Machine bs.State B} {ks : List Nat} {c page : Nat}
    (hi : RandKeys m.pt.nframes m.th ks c) (ht : Held m.pt m.th.startFrame m.th.endFrame c ks page)
    (hprobe : page ∉ ks → m.pt.nframes ≤ ks.length + c →
      ∃ r, probeBucket m.th.hashTable m.pt.nframes m.pt.nframes (m.rands m.calls % m.pt.nframes) = some r) :
    ∃ m' ks' mv, randPageFaultHandler bs m page = some m' ∧ RandKeys m.pt.nframes m'.th ks' c ∧
      Faulted bs m m' c page ks ks' mv := by
  unfold randPageFaultHandler
  rw [getEntry_eq m ht.lt]
  simp only [Option.bind_eq_bind, Option.bind_some]
  by_cases hb : m.pt.pageBits page = .none
  · have hk := ht.bits.1 hb
    rw [if_pos hb]
    by_cases hroom : m.th.count < m.pt.nframes
    · have hlt : ks.length + c < m.pt.nframes := hi.count ▸ hroom
      have ef := Held.fillFrame { m.th with
        hashTable := insertHashNode m.pt.nframes m.th.hashTable page 0 } m.rands m.calls ht hk hlt
      have hturn := Turn.fill (s := m.th.startFrame) hk hlt (.refl _)
      rw [← hi.count] at hturn ef
      rw [if_pos hroom]
      simp only [ef, Option.bind_some]
      refine ⟨_, page :: ks, _, rfl, ⟨hi.hash.insert 0 (by rwa [map_snd_hashed]), List.nodup_cons.2 ⟨hk, hi.nodup⟩, ?_⟩,
        .of_make ht hturn rfl rfl⟩
      show m.th.count + 1 = ks.length + 1 + c
      rw [hi.count]
      omega
    · have hfull : m.pt.nframes ≤ ks.length + c := hi.count ▸ Nat.not_lt.1 hroom
      rw [if_neg hroom]
      obtain ⟨r, hr⟩ := hprobe hk hfull
      obtain ⟨x, l, hx, -, hxL⟩ := hi.hash.head_entry (probeBucket_some _ _ hr)
      obtain ⟨A, C, rfl⟩ := List.append_of_mem (mem_of_hashed hxL)
      have er := Held.replacePage m.th m.rands (m.calls + 1) ht hk (List.mem_append_right _ List.mem_cons_self)
      obtain ⟨h', eh, rh⟩ := hi.hash.delete_hashed hi.nodup
      have hnd := (List.nodup_cons.1 ((List.perm_middle.nodup_iff).1 hi.nodup)).2
      have hk' : page ∉ A ++ C := by
        intro hm
        refine hk ((List.mem_append.1 hm).elim (List.mem_append_left _) (fun h => ?_))
        exact List.mem_append_right _ (List.mem_cons_of_mem _ h)
      simp only [hr, hx, Option.bind_some, er, eh]
      refine ⟨_, page :: (A ++ C), _, rfl, ⟨rh.insert 0 (by rwa [map_snd_hashed]), List.nodup_cons.2 ⟨hk', hnd⟩, ?_⟩,
        .of_make ht (.replace hk hfull rfl (.refl _)) rfl rfl⟩
      show m.th.count = (page :: (A ++ C)).length + c
      rw [hi.count, List.length_append, List.length_cons, List.length_cons, List.length_append]
      omega
  · have hk : page ∈ ks := by_contra fun hk => hb (ht.bits.2 hk)
    rw [if_neg hb]
    exact ⟨_, ks, _, Held.grant m.th m.rands m.calls ht hk, hi, .of_make ht (.grant hk (.refl _)) rfl rfl⟩

/-- When RAND fills a frame and returns, that has memory. -/
theorem randPageFaultHandler_next {m m' : Machine bs.State B} {page : Nat} (hp : page < m.pt.npages)
    (hb : m.pt.pageBits page = .none) (hroom : m.th.count < m.pt.nframes)
    (he : randPageFaultHandler bs m page = some m') : m.th.count + m.th.startFrame < m.pt.npages := by
  unfold randPageFaultHandler at he
  rw [getEntry_eq m hp] at he
  simp only [Option.bind_eq_bind, Option.bind_some] at he
  rw [if_pos hb, if_pos hroom] at he
  obtain ⟨m₁, e₁, -⟩ := Option.bind_eq_some_iff.1 he
  have hm := fillFrame_backed e₁
  exact hm

/-- **RAND keeps its table and every page's bytes**, whatever `rand()` answers. -/
theorem randPageFaultHandler_inv {m m' : Machine bs.State B} {ks : List Nat} (hi : RandInv bs m ks) {page : Nat}
    (hp : page < npages) (he : randPageFaultHandler bs m page = some m') :
    ∃ ks', RandInv bs m' ks' ∧ Kept bs m.pt m'.pt := by
  have hlist := hi.listed
  have hcount : m.th.count = ks.length + (m.th.count - ks.length) := by
    have := hlist.length_le
    omega
  have hprobe : page ∉ ks → m.pt.nframes ≤ ks.length + (m.th.count - ks.length) →
      ∃ r, probeBucket m.th.hashTable m.pt.nframes m.pt.nframes (m.rands m.calls % m.pt.nframes) = some r := by
    intro hk hfull
    cases hr : probeBucket m.th.hashTable m.pt.nframes m.pt.nframes (m.rands m.calls % m.pt.nframes) with
    | some r => exact ⟨r, rfl⟩
    | none =>
      -- the handler is still probing
      unfold randPageFaultHandler at he
      rw [getEntry_eq m (hlist.pages.symm ▸ hp)] at he
      simp only [Option.bind_eq_bind, Option.bind_some] at he
      rw [if_pos ((hlist.bits_iff hp).2 hk), if_neg (by omega), hr] at he
      cases he
  have hnext : page ∉ ks → ks.length + (m.th.count - ks.length) < m.pt.nframes →
      ks.length + (m.th.count - ks.length) + m.th.startFrame < npages := by
    intro hk hroom
    rw [← hcount] at hroom ⊢
    exact Nat.lt_of_lt_of_eq (randPageFaultHandler_next (hlist.pages.symm ▸ hp) ((hlist.bits_iff hp).2 hk) hroom he)
      hlist.pages
  obtain ⟨m₁, ks', mv, e₁, hk, hf⟩ := randPageFaultHandler_faulted ⟨hi.hash, hlist.nodup, hcount⟩ (hlist.held hp hnext)
    hprobe
  cases e₁.symm.trans he
  rw [hcount] at hlist
  obtain ⟨hl, hkept⟩ := hf.listed hp hlist
  exact ⟨ks', ⟨by rw [hf.nframes]; exact hk.hash, by rw [hk.count]; exact hl⟩, hkept⟩

/-- A bucket is emptied from its head. -/
theorem flushBucket_drops {n i : Nat} : ∀ (fuel : Nat) {m : Machine bs.State B} {ks : List Nat}, m.pt.nframes = n →
    HashMaps n m.th.hashTable (ks.map (Prod.mk 0)) → ks.Nodup → InFrames m.pt m.th.startFrame m.th.endFrame ks →
    (ks.filter (fun k => hashFunction n k = i)).length ≤ fuel →
    ∃ m' vs ks', flushBucket bs i fuel m = some m' ∧ Drops bs m m' vs ∧ ks.Perm (vs ++ ks') ∧
      HashMaps n m'.th.hashTable (ks'.map (Prod.mk 0)) ∧ ∀ k ∈ ks', hashFunction n k ≠ i
  | fuel, m, ks, hn, hh, hnd, hfr, hf => by
    by_cases h0 : (m.th.hashTable.table i).head = 0
    · refine ⟨m, [], ks, ?_, Drops.refl m, .refl _, hh, fun k hk hki => ?_⟩
      · cases fuel <;> (rw [flushBucket, if_pos h0])
      · have hne := (hh.head_ne (List.mem_map.2 ⟨k, hk, rfl⟩)).1
        rw [hki] at hne
        exact hne h0
    · obtain ⟨x, l, hx, hxi, hxL⟩ := hh.head_entry h0
      obtain ⟨A, C, rfl⟩ := List.append_of_mem (mem_of_hashed hxL)
      rw [List.filter_append, List.filter_cons, if_pos (decide_eq_true hxi), List.length_append, List.length_cons] at hf
      cases fuel with
      | zero => omega
      | succ fuel =>
        have ef := hfr.flushPage (List.mem_append_right _ List.mem_cons_self)
        obtain ⟨h', eh, rh⟩ := hh.delete_hashed hnd
        have hd : Drops bs m ⟨m.pt.dropPage bs x.key, { m.th with hashTable := h' }, m.rands, m.calls⟩ [x.key] :=
          ⟨rfl, rfl, rfl, rfl⟩
        have hle : ((A ++ C).filter (fun k => hashFunction n k = i)).length ≤ fuel := by
          rw [List.filter_append, List.length_append]
          omega
        obtain ⟨m', vs, ks', e', hd', hp', hh', hne⟩ := flushBucket_drops fuel (hd.nframes.trans hn) rh
          (List.nodup_cons.1 ((List.perm_middle.nodup_iff).1 hnd)).2
          (fun q hq => (hfr.drops hd) q ((List.mem_append.1 hq).elim (List.mem_append_left _)
            (fun h => List.mem_append_right _ (List.mem_cons_of_mem _ h)))) hle
        refine ⟨m', x.key :: vs, ks', ?_, hd.trans hd', ?_, hh', hne⟩
        · rw [flushBucket, if_neg h0]
          simp only [hx, Option.bind_eq_bind, Option.bind_some, ef, dropPage_nframes, hn, eh]
          exact e'
        · exact List.perm_middle.trans (hp'.cons x.key)

theorem flushRand_cons (i : Nat) (r : List Nat) (m : Machine bs.State B) :
    flushRand bs (i :: r) m = (if (m.th.hashTable.table i).count = 0 then some m
      else flushBucket bs i m.th.hashTable.nodes.brk m).bind (flushRand bs r) := by
  rw [flushRand]
  split <;> rfl

/-- **RAND's flush empties the buckets it goes through.** -/
theorem flushRand_drops : ∀ (l : List Nat) {m : Machine bs.State B} {ks : List Nat},
    HashMaps m.pt.nframes m.th.hashTable (ks.map (Prod.mk 0)) → ks.Nodup →
    InFrames m.pt m.th.startFrame m.th.endFrame ks →
    ∃ m' vs ks', flushRand bs l m = some m' ∧ Drops bs m m' vs ∧ ks.Perm (vs ++ ks') ∧
      HashMaps m.pt.nframes m'.th.hashTable (ks'.map (Prod.mk 0)) ∧
      ∀ k ∈ ks', ∀ i ∈ l, hashFunction m.pt.nframes k ≠ i
  | [], m, ks, hh, _, _ => ⟨m, [], ks, rfl, Drops.refl m, .refl _, hh, fun _ _ _ hi => by cases hi⟩
  | i :: r, m, ks, hh, hnd, hfr => by
    have hbucket : ∃ m₁ vs ks₁, (if (m.th.hashTable.table i).count = 0 then some m
        else flushBucket bs i m.th.hashTable.nodes.brk m) = some m₁ ∧ Drops bs m m₁ vs ∧ ks.Perm (vs ++ ks₁) ∧
        HashMaps m.pt.nframes m₁.th.hashTable (ks₁.map (Prod.mk 0)) ∧ ∀ k ∈ ks₁, hashFunction m.pt.nframes k ≠ i := by
      by_cases hc : (m.th.hashTable.table i).count = 0
      · refine ⟨m, [], ks, if_pos hc, Drops.refl m, .refl _, hh, fun k hk hki => ?_⟩
        have hne := (hh.head_ne (List.mem_map.2 ⟨k, hk, rfl⟩)).2
        rw [hki] at hne
        exact hne hc
      · rw [if_neg hc]
        refine flushBucket_drops _ rfl hh hnd hfr (hh.bucket_le i (hnd.sublist List.filter_sublist) (fun k hk => ?_))
        obtain ⟨hk, hki⟩ := List.mem_filter.1 hk
        exact ⟨by simpa using hki, 0, List.mem_map.2 ⟨k, hk, rfl⟩⟩
    obtain ⟨m₁, vs₁, ks₁, e₁, hd₁, hp₁, hh₁, hne₁⟩ := hbucket
    have hsub : ∀ k ∈ ks₁, k ∈ ks := fun k hk => hp₁.mem_iff.2 (List.mem_append_right _ hk)
    obtain ⟨m', vs, ks', e', hd', hp', hh', hne'⟩ := flushRand_drops r (hd₁.nframes.symm ▸ hh₁)
      (List.nodup_append.1 ((hp₁.nodup_iff).1 hnd)).2.1 (by
        rw [hd₁.start, hd₁.stop]
        exact fun q hq => (hfr.drops hd₁) q (hsub q hq))
    rw [hd₁.nframes] at hh' hne'
    refine ⟨m', vs₁ ++ vs, ks', ?_, hd₁.trans hd', ?_, hh', fun k hk j hj => ?_⟩
    · rw [flushRand_cons, e₁]
      exact e'
    · rw [List.append_assoc]
      exact hp₁.trans (hp'.append_left vs₁)
    · rcases List.mem_cons.1 hj with rfl | hj
      · exact hne₁ k (hp'.mem_iff.2 (List.mem_append_right _ hk))
      · exact hne' k hk j hj

/-- **RAND's flush takes all its pages out**, and leaves its count of frames. -/
theorem flushRand_all {m : Machine bs.State B} {ks : List Nat} (hn : 0 < m.pt.nframes)
    (hh : HashMaps m.pt.nframes m.th.hashTable (ks.map (Prod.mk 0))) (hnd : ks.Nodup)
    (hfr : InFrames m.pt m.th.startFrame m.th.endFrame ks) :
    ∃ m' vs, flushRand bs (List.range m.pt.nframes) m = some m' ∧ Drops bs m m' vs ∧ vs.Perm ks ∧
      HashMaps m.pt.nframes m'.th.hashTable [] := by
  obtain ⟨m', vs, ks', e, hd, hp, hh', hne⟩ := flushRand_drops (List.range m.pt.nframes) hh hnd hfr
  have hks' : ks' = [] := by
    refine List.eq_nil_iff_forall_not_mem.2 (fun k hk => ?_)
    exact hne k hk _ (List.mem_range.2 (Nat.mod_lt k hn)) rfl
  subst hks'
  rw [List.append_nil] at hp
  exact ⟨m', vs, e, hd, hp.symm, hh'⟩

theorem flushRand_inv (l : List Nat) {m m' : Machine bs.State B} {ks : List Nat} (hi : RandInv bs m ks)
    (he : flushRand bs l m = some m') : ∃ ks', RandInv bs m' ks' ∧ Kept bs m.pt m'.pt := by
  obtain ⟨m₁, vs, ks', e₁, hd, hp, hh, -⟩ := flushRand_drops l hi.hash hi.listed.nodup hi.listed.inFrames
  cases e₁.symm.trans he
  obtain ⟨hl, hkept⟩ := hd.listed hi.listed hp
  exact ⟨ks', ⟨hd.nframes.symm ▸ hh, hd.count.symm ▸ hl⟩, hkept⟩

/-! ## FIFO -/

structure FifoInv (bs : BackingStore B npages) (m : Machine bs.State B) : Prop
    extends Core bs m.pt m.th.startFrame m.th.endFrame where
  start : m.th.startFrame = 0
  stop : m.th.endFrame = m.pt.nframes
  some_frame : 0 < m.pt.nframes
  range : ∀ p, p < npages → m.pt.pageMapping p < m.pt.nframes
  age : ∀ i, 0 ≤ m.pt.frameState i
  used : ∀ i, i < m.pt.nframes → m.pt.frameState i ≠ 0 →
    Resident m.pt (m.pt.framePage i) ∧ m.pt.pageMapping (m.pt.framePage i) = i
  back : ∀ p, Resident m.pt p → m.pt.frameState (m.pt.pageMapping p) ≠ 0 ∧ m.pt.framePage (m.pt.pageMapping p) = p

/-- Aging keeps a frame in use in use, and a free one free. -/
theorem ageFrames_spec : ∀ (l : List Nat) {fs fs' : Nat → Int}, (∀ i, 0 ≤ fs i) → ageFrames fs l = some fs' →
    (∀ i, 0 ≤ fs' i) ∧ ∀ i, fs' i = 0 ↔ fs i = 0
  | [], fs, fs', h, he => by cases he; exact ⟨h, fun _ => Iff.rfl⟩
  | i :: r, fs, fs', h, he => by
    rw [ageFrames] at he
    have hi := h i
    by_cases h0 : fs i = 0
    · rw [if_neg (by simp [h0])] at he
      exact ageFrames_spec r h he
    · rw [if_pos h0] at he
      split at he
      · cases he
      · have h' : ∀ j, 0 ≤ update fs i (fs i + 1) j := by
          intro j
          rw [Function.update_apply]
          split
          · omega
          · exact h j
        obtain ⟨h₁, h₂⟩ := ageFrames_spec r h' he
        refine ⟨h₁, fun j => (h₂ j).trans ?_⟩
        by_cases hj : j = i
        · subst hj; rw [update_self]; omega
        · rw [update_of_ne hj]

/-- The scan for the oldest frame ends on one of the frames scanned when all of them are in use. -/
theorem oldestFrame_mem (fs : Nat → Int) : ∀ (l : List Nat) (value : Int) (frame : Nat),
    oldestFrame fs l value frame ∈ l ∨
      (oldestFrame fs l value frame = frame ∧ ∀ i ∈ l, fs i ≤ value)
  | [], _, _ => Or.inr ⟨rfl, fun _ hi => by cases hi⟩
  | i :: r, value, frame => by
    rw [oldestFrame]
    split
    · left
      rcases oldestFrame_mem fs r (fs i) i with h | ⟨h, -⟩
      · exact List.mem_cons_of_mem _ h
      · rw [h]; exact List.mem_cons_self
    · rename_i hle
      rcases oldestFrame_mem fs r value frame with h | ⟨h, hr⟩
      · exact Or.inl (List.mem_cons_of_mem _ h)
      · refine Or.inr ⟨h, fun j hj => ?_⟩
        rcases List.mem_cons.1 hj with rfl | hj
        · omega
        · exact hr j hj

theorem FifoInv.mem_frames {m : Machine bs.State B} (hi : FifoInv bs m) {i : Nat} :
    i ∈ threadFrames m.th ↔ i < m.pt.nframes := by
  unfold threadFrames
  rw [hi.start, hi.stop]
  simp

/-- A page put into frame `i`, which holds no other page, with the two arrays set for it. -/
theorem FifoInv.enter {m : Machine bs.State B} (hi : FifoInv bs m) (pt' : PageTable bs.State B) {page i : Nat}
    (hc : Core bs pt' m.th.startFrame m.th.endFrame) (hnf : pt'.nframes = m.pt.nframes) (hif : i < m.pt.nframes)
    (hfs : pt'.frameState = m.pt.frameState) (hfp : pt'.framePage = m.pt.framePage)
    (hmap : ∀ q, pt'.pageMapping q = if q = page then i else m.pt.pageMapping q)
    (hpage : Resident m.pt page → m.pt.pageMapping page = i)
    (hres : ∀ q, Resident pt' q ↔ q = page ∨ (Resident m.pt q ∧ m.pt.pageMapping q ≠ i)) :
    FifoInv bs (setFrame ⟨pt', m.th, m.rands, m.calls⟩ i page) := by
  refine ⟨⟨hc.pages, hc.frame, hc.backed, hc.inj, hc.clean⟩, hi.start, hi.stop.trans hnf.symm, hnf ▸ hi.some_frame, ?_,
    ?_, ?_, ?_⟩
  · intro q hq
    show pt'.pageMapping q < pt'.nframes
    rw [hmap, hnf]
    split
    · exact hif
    · exact hi.range q hq
  · intro j
    show 0 ≤ update pt'.frameState i 1 j
    rw [Function.update_apply]
    split
    · decide
    · rw [hfs]; exact hi.age j
  · intro j hj hjs
    have hjs : update pt'.frameState i 1 j ≠ 0 := hjs
    show Resident pt' (update pt'.framePage i page j) ∧ pt'.pageMapping (update pt'.framePage i page j) = j
    by_cases hji : j = i
    · subst hji
      rw [update_self, hmap, if_pos rfl]
      exact ⟨(hres page).2 (Or.inl rfl), rfl⟩
    · rw [update_of_ne hji, hfs] at hjs
      rw [update_of_ne hji, hfp]
      obtain ⟨hr, hm⟩ := hi.used j (hnf ▸ hj) hjs
      have hne : m.pt.framePage j ≠ page := by
        intro h
        rw [h] at hr hm
        exact hji (hm.symm.trans (hpage hr))
      rw [hmap, if_neg hne]
      exact ⟨(hres _).2 (Or.inr ⟨hr, by rw [hm]; exact hji⟩), hm⟩
  · intro p hp
    show update pt'.frameState i 1 (pt'.pageMapping p) ≠ 0 ∧ update pt'.framePage i page (pt'.pageMapping p) = p
    rw [hmap]
    by_cases hpp : p = page
    · subst hpp; simp
    · obtain ⟨hr, hne⟩ := ((hres p).1 hp).resolve_left hpp
      rw [if_neg hpp, update_of_ne hne, update_of_ne hne, hfs, hfp]
      exact hi.back p hr

theorem FifoInv.fill {m : Machine bs.State B} (hi : FifoInv bs m) {page i : Nat} (hp : page < npages)
    (hb : m.pt.pageBits page = .none) (hif : i < m.pt.nframes) (hm : i < m.pt.npages) (h0 : m.pt.frameState i = 0) :
    ∃ m', fillFrame bs (setFrame m i page) page i = some m' ∧ FifoInv bs m' ∧ Kept bs m.pt m'.pt := by
  have hpt : page < m.pt.npages := by rw [hi.pages]; exact hp
  have hfree : ∀ q, Resident m.pt q → m.pt.pageMapping q ≠ i := by
    rintro q hq rfl
    exact (hi.back q hq).1 h0
  have hs : m.th.startFrame ≤ i := by rw [hi.start]; exact Nat.zero_le _
  have hlt : i < m.th.endFrame := by rw [hi.stop]; exact hif
  refine ⟨_, fillFrame_eq (setFrame m i page) hpt hs hlt hm, ?_, rfl, ?_⟩
  · refine hi.enter (m.pt.fillPage bs page i) (hi.toCore.fill hp hs hlt (hi.pages ▸ hm) hfree) rfl hif rfl rfl
      (fun _ => Function.update_apply ..)
      (fun hr => absurd hb hr.2) ?_
    intro q
    rw [resident_fillPage hpt]
    exact or_congr_right ⟨fun hr => ⟨hr, hfree q hr⟩, And.left⟩
  · exact fun q hq => shown_fill hi.toCore hp hb hfree hq

theorem FifoInv.replace {m : Machine bs.State B} (hi : FifoInv bs m) {page i : Nat} (hp : page < npages)
    (hb : m.pt.pageBits page = .none) (hif : i < m.pt.nframes) (h0 : m.pt.frameState i ≠ 0) :
    ∃ m', replacePage bs m page (m.pt.framePage i) = some m' ∧ FifoInv bs (setFrame m' i page) ∧
      Kept bs m.pt m'.pt := by
  obtain ⟨hr, hm⟩ := hi.used i hif h0
  generalize m.pt.framePage i = v at hr hm
  subst hm
  have hpt : page < m.pt.npages := by rw [hi.pages]; exact hp
  have hv : v < npages := by rw [← hi.pages]; exact hr.1
  have hne : page ≠ v := by rintro rfl; exact hr.2 hb
  obtain ⟨hs, he⟩ := hi.frame v hr
  have hm := hi.backed v hr
  have hbd : (m.pt.dropPage bs v).pageBits page = .none := by rw [dropPage_bits, update_of_ne hne]; exact hb
  have hcd := hi.toCore.drop hv
  have hfree := hi.toCore.freed hr
  refine ⟨_, replacePage_eq m hpt hr.1 hne hs he (hi.pages.symm ▸ hm), ?_, dropPage_nframes _ _, ?_⟩
  · refine hi.enter _ (hcd.fill hp hs he hm hfree) (dropPage_nframes _ _) hif (dropPage_frameState _ _)
      (dropPage_framePage _ _) ?_ (fun hr' => absurd hb hr'.2) ?_
    · intro q
      show update (m.pt.dropPage bs v).pageMapping page _ q = _
      rw [dropPage_mapping, Function.update_apply]
    · intro q
      rw [resident_fillPage (by simpa using hpt), resident_dropPage]
      refine or_congr_right ⟨fun hrq => ⟨hrq.2, fun h => hrq.1 (hi.inj q v hrq.2 hr h)⟩, ?_⟩
      rintro ⟨hrq, hmq⟩
      exact ⟨fun h => hmq (by rw [h]), hrq⟩
  · exact fun q hq => (shown_fill hcd hp hbd hfree hq).trans (shown_drop hi.toCore hv hq)

theorem FifoInv.grant {m : Machine bs.State B} (hi : FifoInv bs m) {page : Nat} (hr : Resident m.pt page) :
    ∃ m', pageTableSetEntry m page (m.pt.pageMapping page) .readWrite = some m' ∧
      FifoInv bs (setFrame m' (m.pt.pageMapping page) page) ∧ Kept bs m.pt m'.pt := by
  obtain ⟨hs, he⟩ := hi.frame page hr
  obtain ⟨hcore, hshown⟩ := hi.toCore.upgrade hr
  refine ⟨_, setEntry_eq m .readWrite hr.1 hs he, ?_, rfl, fun q _ => hshown q⟩
  refine hi.enter (m.pt.grant page) hcore rfl (hi.stop ▸ he) rfl rfl (fun q => Function.update_apply ..) (fun _ => rfl)
    (fun q => ?_)
  rw [resident_grant hr]
  constructor
  · intro hq
    by_cases hqp : q = page
    · exact Or.inl hqp
    · exact Or.inr ⟨hq, fun h => hqp (hi.inj q page hq hr h)⟩
  · rintro (rfl | hq)
    · exact hr
    · exact hq.1

/-- **FIFO keeps its arrays and every page's bytes.** -/
theorem fifoPageFaultHandler_inv {m m' : Machine bs.State B} (hi : FifoInv bs m) {page : Nat} (hp : page < npages)
    (he : fifoPageFaultHandler bs m page = some m') : FifoInv bs m' ∧ Kept bs m.pt m'.pt := by
  have hpt : page < m.pt.npages := by rw [hi.pages]; exact hp
  unfold fifoPageFaultHandler at he
  rw [getEntry_eq m hpt] at he
  simp only [Option.bind_eq_bind, Option.bind_some] at he
  cases ha : ageFrames m.pt.frameState (threadFrames m.th) with
  | none => rw [ha] at he; cases he
  | some fs =>
    rw [ha] at he
    obtain ⟨hage, hzero⟩ := ageFrames_spec _ hi.age ha
    -- the table after the first loop: only the ages have moved
    have hi₁ : FifoInv bs ⟨{ m.pt with frameState := fs }, m.th, m.rands, m.calls⟩ :=
      ⟨⟨hi.pages, hi.frame, hi.backed, hi.inj, hi.clean⟩, hi.start, hi.stop, hi.some_frame, hi.range, hage,
        fun i hif hs => hi.used i hif (fun h => hs ((hzero i).2 h)),
        fun p hr => ⟨fun h => (hi.back p hr).1 ((hzero _).1 h), (hi.back p hr).2⟩⟩
    have hkept₁ : Kept bs m.pt { m.pt with frameState := fs } := ⟨rfl, fun _ _ => rfl⟩
    simp only [Option.bind_some] at he
    by_cases hb : m.pt.pageBits page = .none
    · rw [if_pos hb] at he
      split at he
      · rename_i i hfind
        have h0 := List.find?_some hfind
        have hif := hi₁.mem_frames.1 (List.mem_of_find?_eq_some hfind)
        have hm := fillFrame_backed he
        obtain ⟨m₂, e₂, hi₂, hk₂⟩ := hi₁.fill hp hb hif hm (by simpa using h0)
        cases e₂.symm.trans he
        exact ⟨hi₂, hkept₁.trans hk₂⟩
      · rename_i hfind
        -- every frame is in use, so the scan ends on one of them
        have hall : ∀ i, i < m.pt.nframes → fs i ≠ 0 := by
          intro i hif h0
          have := List.find?_eq_none.1 hfind i (hi.mem_frames.2 hif)
          simp [h0] at this
        have hold : oldestFrame fs (threadFrames m.th) 0 (m.pt.pageMapping page) ∈ threadFrames m.th := by
          rcases oldestFrame_mem fs (threadFrames m.th) 0 (m.pt.pageMapping page) with h | ⟨-, hle⟩
          · exact h
          · have h0 := hle 0 (hi.mem_frames.2 hi.some_frame)
            have := hage 0
            exact absurd (by omega) (hall 0 hi.some_frame)
        generalize oldestFrame fs (threadFrames m.th) 0 (m.pt.pageMapping page) = i at he hold
        have hif := hi.mem_frames.1 hold
        obtain ⟨hr, hm⟩ := hi₁.used i hif (hall i hif)
        obtain ⟨m₂, e₂, hi₂, hk₂⟩ := hi₁.replace hp hb hif (hall i hif)
        rw [getEntry_eq _ hr.1, Option.bind_some] at he
        simp only [e₂, Option.bind_some, Option.some.injEq] at he
        rw [hm] at he
        subst he
        exact ⟨hi₂, hkept₁.trans hk₂⟩
    · rw [if_neg hb] at he
      have hr : Resident ({ m.pt with frameState := fs } : PageTable bs.State B) page := ⟨hpt, hb⟩
      obtain ⟨m₂, e₂, hi₂, hk₂⟩ := hi₁.grant hr
      simp only [e₂, Option.bind_some, Option.some.injEq] at he
      subst he
      exact ⟨hi₂, hkept₁.trans hk₂⟩

/-- What holds when the flush reaches frame `i`: the pages still resident are in frames to come, each named by its
frame; the frames behind are free. -/
structure FifoFlush (bs : BackingStore B npages) (m : Machine bs.State B) (i : Nat) : Prop
    extends Core bs m.pt m.th.startFrame m.th.endFrame where
  start : m.th.startFrame = 0
  stop : m.th.endFrame = m.pt.nframes
  some_frame : 0 < m.pt.nframes
  range : ∀ p, p < npages → m.pt.pageMapping p < m.pt.nframes
  age : ∀ j, 0 ≤ m.pt.frameState j
  ahead : ∀ p, Resident m.pt p → i ≤ m.pt.pageMapping p ∧ m.pt.framePage (m.pt.pageMapping p) = p
  named : ∀ j, i ≤ j → j < m.pt.nframes → m.pt.frameState j ≠ 0 → m.pt.pageMapping (m.pt.framePage j) = j
  behind : ∀ j, j < i → m.pt.frameState j = 0

/-- One turn of FIFO's flush: the page that frame `i` names goes, and the frame it is mapped to is free. -/
def clearFrame (bs : BackingStore B npages) (m : Machine bs.State B) (i : Nat) : Machine bs.State B :=
  { m with pt := { m.pt.dropPage bs (m.pt.framePage i) with
      frameState := update m.pt.frameState (m.pt.pageMapping (m.pt.framePage i)) 0 } }

theorem clearFrame_framePage (m : Machine bs.State B) (i : Nat) : (clearFrame bs m i).pt.framePage = m.pt.framePage :=
  dropPage_framePage _ _

theorem clearFrame_drops (m : Machine bs.State B) (i : Nat) : Drops bs m (clearFrame bs m i) [m.pt.framePage i] :=
  ⟨rfl, rfl, rfl, rfl⟩

theorem FifoFlush.step {m : Machine bs.State B} {i : Nat} (hi : FifoFlush bs m i) (hin : i < m.pt.nframes)
    (hp : m.pt.framePage i < npages) :
    flushPage bs m (m.pt.framePage i) = some { m with pt := m.pt.dropPage bs (m.pt.framePage i) } ∧
      FifoFlush bs (clearFrame bs m i) (i + 1) := by
  have hpt : m.pt.framePage i < m.pt.npages := by rw [hi.pages]; exact hp
  have hs : m.th.startFrame ≤ m.pt.pageMapping (m.pt.framePage i) := by rw [hi.start]; exact Nat.zero_le _
  have he : m.pt.pageMapping (m.pt.framePage i) < m.th.endFrame := by rw [hi.stop]; exact hi.range _ hp
  have hm : m.pt.pageBits (m.pt.framePage i) = .readWrite → m.pt.pageMapping (m.pt.framePage i) < m.pt.npages := by
    intro hb
    rw [hi.pages]
    exact hi.backed _ ⟨hpt, by rw [hb]; exact Prot.noConfusion⟩
  have hcd := hi.toCore.drop hp
  have hnf := (clearFrame_drops m i).nframes
  refine ⟨flushPage_eq m hpt hs he hm,
    ⟨⟨hcd.pages, hcd.frame, hcd.backed, hcd.inj, hcd.clean⟩, hi.start, ?_, ?_, ?_, ?_, ?_, ?_, ?_⟩⟩
  · exact hi.stop.trans hnf.symm
  · exact hnf.symm ▸ hi.some_frame
  · rw [hnf, (clearFrame_drops m i).mapping]; exact hi.range
  · intro j
    show 0 ≤ update m.pt.frameState _ 0 j
    rw [Function.update_apply]
    split
    · decide
    · exact hi.age j
  · intro p hr
    show i + 1 ≤ (m.pt.dropPage bs _).pageMapping p ∧
      (m.pt.dropPage bs _).framePage ((m.pt.dropPage bs _).pageMapping p) = p
    rw [dropPage_mapping, dropPage_framePage]
    obtain ⟨hne, hr⟩ := (resident_dropPage m.pt _ p).1 hr
    obtain ⟨hle, hname⟩ := hi.ahead p hr
    refine ⟨?_, hname⟩
    rcases Nat.lt_or_eq_of_le hle with h | h
    · exact h
    · exact absurd (by rw [h]; exact hname.symm) hne
  · intro j hj hjn hjs
    have hjs : update m.pt.frameState _ 0 j ≠ 0 := hjs
    show (m.pt.dropPage bs _).pageMapping ((m.pt.dropPage bs _).framePage j) = j
    rw [dropPage_mapping, dropPage_framePage]
    refine hi.named j (by omega) (hnf ▸ hjn) (fun h => hjs ?_)
    rw [Function.update_apply]
    split
    · rfl
    · exact h
  · intro j hj
    show update m.pt.frameState _ 0 j = 0
    by_cases hjm : j = m.pt.pageMapping (m.pt.framePage i)
    · rw [hjm, update_self]
    · rw [update_of_ne hjm]
      rcases Nat.lt_or_eq_of_le (Nat.le_of_lt_succ hj) with h | rfl
      · exact hi.behind j h
      · by_cases h0 : m.pt.frameState j = 0
        · exact h0
        · exact absurd (hi.named j (Nat.le_refl _) hin h0).symm hjm

theorem FifoFlush.flushFifo_cons {m : Machine bs.State B} {i : Nat} (hi : FifoFlush bs m i) (hin : i < m.pt.nframes)
    (hp : m.pt.framePage i < npages) (r : List Nat) :
    flushFifo bs (i :: r) m = flushFifo bs r (clearFrame bs m i) := by
  rw [flushFifo, getEntry_eq m (hi.pages.symm ▸ hp)]
  simp only [Option.bind_eq_bind, Option.bind_some, (hi.step hin hp).1, dropPage_frameState]
  rfl

/-- **FIFO's flush takes out whatever page each frame names**, resident or not. -/
theorem flushFifo_drops : ∀ (k i : Nat) {m : Machine bs.State B}, FifoFlush bs m i → i + k = m.pt.nframes →
    (∀ j, j < m.pt.nframes → m.pt.framePage j < npages) →
    ∃ m', flushFifo bs (List.range' i k) m = some m' ∧ Drops bs m m' ((List.range' i k).map m.pt.framePage) ∧
      FifoFlush bs m' m'.pt.nframes ∧ m'.pt.framePage = m.pt.framePage
  | 0, i, m, hi, hk, _ => by
    rw [Nat.add_zero] at hk
    exact ⟨m, rfl, Drops.refl m, hk ▸ hi, rfl⟩
  | k + 1, i, m, hi, hk, hname => by
    have hin : i < m.pt.nframes := by omega
    have hd := clearFrame_drops m i
    obtain ⟨m', e', hd', hi', hfp'⟩ := flushFifo_drops k (i + 1) (hi.step hin (hname i hin)).2
      (by rw [hd.nframes]; omega)
      (by rw [hd.nframes, clearFrame_framePage]; exact hname)
    rw [clearFrame_framePage] at hd' hfp'
    refine ⟨m', ?_, hd.trans hd', hi', hfp'⟩
    rw [List.range'_succ, hi.flushFifo_cons hin (hname i hin)]
    exact e'

/-- A flush that returns has found a page in every frame's name: `page_table_get_entry` would have aborted. -/
theorem framePage_lt_of_flushFifo : ∀ (k i : Nat) {m m' : Machine bs.State B}, FifoFlush bs m i →
    i + k = m.pt.nframes → flushFifo bs (List.range' i k) m = some m' →
    ∀ j, i ≤ j → j < m.pt.nframes → m.pt.framePage j < npages
  | 0, i, m, m', _, hk, _, j, hij, hj => by omega
  | k + 1, i, m, m', hi, hk, he, j, hij, hj => by
    have hin : i < m.pt.nframes := by omega
    have hd := clearFrame_drops m i
    by_cases hp : m.pt.framePage i < npages
    · rw [List.range'_succ, hi.flushFifo_cons hin hp] at he
      rcases Nat.lt_or_eq_of_le hij with hlt | rfl
      · have := framePage_lt_of_flushFifo k (i + 1) (hi.step hin hp).2 (by rw [hd.nframes]; omega) he j hlt
          (by rw [hd.nframes]; exact hj)
        rwa [clearFrame_framePage] at this
      · exact hp
    · have hnone : pageTableGetEntry m (m.pt.framePage i) = none := if_pos (by rw [hi.pages]; omega)
      rw [List.range'_succ, flushFifo, hnone] at he
      cases he

theorem FifoInv.flush {m : Machine bs.State B} (hi : FifoInv bs m) : FifoFlush bs m 0 :=
  ⟨hi.toCore, hi.start, hi.stop, hi.some_frame, hi.range, hi.age, fun p hr => ⟨Nat.zero_le _, (hi.back p hr).2⟩,
    fun j _ hj hs => (hi.used j hj hs).2, fun j hj => by omega⟩

theorem FifoFlush.inv {m : Machine bs.State B} (hf : FifoFlush bs m m.pt.nframes) : FifoInv bs m := by
  refine ⟨hf.toCore, hf.start, hf.stop, hf.some_frame, hf.range, hf.age, ?_, ?_⟩
  · intro j hj hs
    exact absurd (hf.behind j hj) hs
  · intro p hr
    have hlt := hf.range p (hf.pages ▸ hr.1)
    have := (hf.ahead p hr).1
    omega

/-- **FIFO's flush clears both arrays and keeps every page's bytes**, also through the stale names of free frames. -/
theorem flushFifo_inv {m m' : Machine bs.State B} (hi : FifoInv bs m)
    (he : flushFifo bs (List.range m.pt.nframes) m = some m') : FifoInv bs m' ∧ Kept bs m.pt m'.pt := by
  rw [List.range_eq_range'] at he
  have hname := framePage_lt_of_flushFifo _ 0 hi.flush (Nat.zero_add _) he
  obtain ⟨m₁, e₁, hd, hf, -⟩ := flushFifo_drops _ 0 hi.flush (Nat.zero_add _) (fun j hj => hname j (Nat.zero_le _) hj)
  cases e₁.symm.trans he
  refine ⟨hf.inv, ?_⟩
  rw [hd.table]
  refine (hi.toCore.dropAll _ (fun v hv => ?_)).2
  obtain ⟨j, hj, rfl⟩ := List.mem_map.1 hv
  exact hname j (Nat.zero_le _) (by simpa using hj)

end Vmem
end Bb
