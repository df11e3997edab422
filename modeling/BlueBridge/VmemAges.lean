import BlueBridge.VmemTries
/-!
# VmemAges — FIFO's ages stay bounded

The ages are an array of `int`s that every fault counts up, so their bound must not depend on how long the program runs.
A page faults at most twice while it is resident and the oldest page goes first, so the oldest of `nframes` pages has
seen at most two faults of each other one since its own last fault, and has at most `2 * nframes - 1` for its age
(`Aging.bound`).  The loop of the handler takes it to `2 * nframes` at most (`Aging.inside`), and the scan for the
oldest frame finds one frame older than all the others (`Aging.oldest`).
-/
namespace Bb
namespace Vmem

open Recency

variable {B npages : Nat} {bs : BackingStore B npages}

/-- FIFO's ages between two faults, and what the handler makes of them at the next one. -/
structure Aging (nframes : Nat) (m : Machine bs.State B) : Prop where
  frames : threadFrames m.th = List.range nframes
  bound : ∀ i < nframes, 0 ≤ m.pt.frameState i ∧ m.pt.frameState i ≤ 2 * nframes - 1
  distinct : ∀ i < nframes, ∀ j < nframes, m.pt.frameState i ≠ 0 → m.pt.frameState i = m.pt.frameState j → i = j
  inside : ∀ k fs, ageFrames m.pt.frameState ((threadFrames m.th).take k) = some fs → ∀ i < nframes, fs i ≤ 2 * nframes
  fits : 2 * nframes < 2 ^ 31 → ∀ k, ∃ fs, ageFrames m.pt.frameState ((threadFrames m.th).take k) = some fs
  oldest : ∀ fs, ageFrames m.pt.frameState (threadFrames m.th) = some fs → (∀ i < nframes, fs i ≠ 0) →
    ∃ i < nframes, (∀ j < nframes, j ≠ i → fs j < fs i) ∧ ∀ frame, oldestFrame fs (threadFrames m.th) 0 frame = i

theorem aged_le (s e : Nat) (fs : Nat → Int) (i : Nat) : aged s e fs i ≤ fs i + 1 := by
  unfold aged
  split <;> omega

section Bounds

variable {m : Machine bs.State B} {ks h : List Nat} {i j : Nat}

/-- The age of a frame in use is that of its page. -/
theorem FifoArr.frame_age (hi : FifoArr m.pt m.th.startFrame m.th.endFrame ks h) (hs : m.th.startFrame ≤ i)
    (he : i < m.th.endFrame) (h0 : m.pt.frameState i ≠ 0) :
    m.pt.framePage i ∈ ks ∧ m.pt.pageMapping (m.pt.framePage i) = i ∧ m.pt.frameState i = age h (m.pt.framePage i) := by
  have hlt : i < m.th.startFrame + ks.length := by
    by_contra hge
    exact h0 ((hi.used i hs he).2 (Nat.not_lt.1 hge))
  obtain ⟨hmem, hmap⟩ := hi.name i hs hlt
  have hage := hi.ages _ hmem
  rw [hmap] at hage
  exact ⟨hmem, hmap, hage⟩

theorem FifoArr.ages_distinct (hi : FifoArr m.pt m.th.startFrame m.th.endFrame ks h) (his : m.th.startFrame ≤ i)
    (hie : i < m.th.endFrame) (hjs : m.th.startFrame ≤ j) (hje : j < m.th.endFrame) (h0 : m.pt.frameState i ≠ 0)
    (hij : m.pt.frameState i = m.pt.frameState j) : i = j := by
  obtain ⟨himem, himap, hiage⟩ := hi.frame_age his hie h0
  obtain ⟨hjmem, hjmap, hjage⟩ := hi.frame_age hjs hje (hij ▸ h0)
  have hpage : m.pt.framePage i = m.pt.framePage j := hi.recent.age_inj himem hjmem (by omega)
  rw [← himap, ← hjmap, hpage]

/-- **No age is more than twice the number of frames, less one.** -/
theorem Paged.age_le {c : Nat} (hp : Paged bs .fifo c m ks h) (hs : m.th.startFrame ≤ i) (he : i < m.th.endFrame) :
    0 ≤ m.pt.frameState i ∧ m.pt.frameState i ≤ 2 * m.pt.nframes - 1 := by
  have hroom := hp.listed.room
  have hn := hp.frames
  by_cases h0 : m.pt.frameState i = 0
  · rw [h0]
    omega
  · obtain ⟨hmem, -, hage⟩ := FifoArr.frame_age hp.keyed hs he h0
    have hlt := (hp.spread rfl).age_lt (faultsOf_le m.pt) hmem
    rw [hage]
    omega

/-- **The last key's frame is the unique maximum** when all frames are in use. -/
theorem FifoArr.unique_oldest (hi : FifoArr m.pt m.th.startFrame m.th.endFrame ks h) (hn : 0 < m.pt.nframes)
    (hspan : m.th.endFrame = m.th.startFrame + m.pt.nframes)
    (hfull : ∀ i, m.th.startFrame ≤ i → i < m.th.endFrame → aged m.th.startFrame m.th.endFrame m.pt.frameState i ≠ 0) :
    ∃ i, m.th.startFrame ≤ i ∧ i < m.th.endFrame ∧
      (∀ j, m.th.startFrame ≤ j → j < m.th.endFrame → j ≠ i →
        aged m.th.startFrame m.th.endFrame m.pt.frameState j < aged m.th.startFrame m.th.endFrame m.pt.frameState i) ∧
      ∀ frame, oldestFrame (aged m.th.startFrame m.th.endFrame m.pt.frameState) (threadFrames m.th) 0 frame = i := by
  have hroom := hi.room
  have hlen : ks.length = m.pt.nframes := by
    by_contra hne
    apply hfull (m.th.startFrame + ks.length) (by omega) (by omega)
    exact (hi.aged_zero (by omega) (by omega)).2 (Nat.le_refl _)
  obtain ⟨A, v, rfl⟩ : ∃ A v, ks = A ++ [v] := by
    rcases List.eq_nil_or_concat ks with rfl | ⟨A, v, rfl⟩
    · rw [List.length_nil] at hlen
      omega
    · exact ⟨A, v, List.concat_eq_append ..⟩
  obtain ⟨hvs, hvlt, -⟩ := hi.back v (List.mem_append_right _ List.mem_cons_self)
  refine ⟨m.pt.pageMapping v, hvs, by omega, fun j hs he hne => ?_, hi.oldest hspan (Nat.le_of_eq hlen.symm)⟩
  exact hi.last_oldest hs (by omega) hne

end Bounds

/-! ## Every boundary -/

/-- What FIFO keeps on one thread that has all the frames. -/
def FifoPaged (bs : BackingStore B npages) (nframes : Nat) (m : Machine bs.State B) : Prop :=
  m.th.startFrame = 0 ∧ m.pt.nframes = nframes ∧ ∃ ks h, Paged bs .fifo 0 m ks h

theorem stable_fifoPaged (nframes : Nat) : Stable bs .fifo (FifoPaged bs nframes) where
  pages := fun ⟨_, _, _, _, hp⟩ => hp.listed.pages
  fault := fun ⟨hs, hn, _, _, hp⟩ hpage hb he => by
    obtain ⟨ks', mv, hp', hf, -⟩ := hp.fault_some hpage (fun _ => hb) he
    exact ⟨hf.start.trans hs, hf.nframes.trans hn, ks', _, hp'⟩
  poke := fun b ⟨hs, hn, ks, h, hp⟩ hpage hb => ⟨hs, hn, ks, h, hp.poke hpage hb b⟩

theorem FifoPaged.aging {nframes : Nat} {m : Machine bs.State B} (hm : FifoPaged bs nframes m) : Aging nframes m := by
  obtain ⟨hs, rfl, ks, h, hp⟩ := hm
  have hspan := hp.listed.span
  have harr : FifoArr m.pt m.th.startFrame m.th.endFrame ks h := hp.keyed
  have hend : m.th.endFrame = m.pt.nframes := by omega
  have hframes : threadFrames m.th = List.range m.pt.nframes := by
    rw [threadFrames_eq hspan, hs, List.range_eq_range']
  have htake : ∀ k, (threadFrames m.th).take k = List.range' 0 (min k m.pt.nframes) := by
    intro k
    rw [hframes, List.take_range, List.range_eq_range']
  have hbound : ∀ i < m.pt.nframes, 0 ≤ m.pt.frameState i ∧ m.pt.frameState i ≤ 2 * m.pt.nframes - 1 :=
    fun i hi => hp.age_le (by omega) (by omega)
  constructor
  · exact hframes
  · exact hbound
  · intro i hi j hj h0 hij
    exact harr.ages_distinct (by omega) (by omega) (by omega) (by omega) h0 hij
  · intro k fs he i hi
    rw [htake] at he
    rw [ageFrames_some he]
    have hle := aged_le 0 (0 + min k m.pt.nframes) m.pt.frameState i
    have := (hbound i hi).2
    omega
  · intro hfit k
    rw [htake]
    refine ⟨_, ageFrames_eq _ _ (fun i _ hi => ?_)⟩
    have := (hbound i (by omega)).2
    unfold intMax
    omega
  · intro fs he hfull
    rw [hframes, List.range_eq_range'] at he
    obtain rfl : fs = aged m.th.startFrame m.th.endFrame m.pt.frameState := by
      rw [ageFrames_some he, hs, hend, Nat.zero_add]
    obtain ⟨i, -, hi, hmax, hscan⟩ := harr.unique_oldest hp.frames hspan (fun i _ hi => hfull i (by omega))
    exact ⟨i, by omega, fun j hj hne => hmax j (by omega) (by omega) hne, hscan⟩

theorem fifoPaged_init {nframes : Nat} (hn : 1 ≤ nframes) (store : bs.State) (physmem : Nat → Block B)
    (rands : Nat → Nat) : FifoPaged bs nframes (initVirtualMemory bs nframes store physmem rands) :=
  ⟨rfl, rfl, [], [], paged_initVirtualMemory .fifo hn store physmem rands⟩

variable [NeZero B]

/-- **FIFO's ages are bounded at every boundary of its handler**, however long the program; and while twice the number of
frames is an `int`, every program of loads and stores in range gets through, so no age overflows. -/
theorem fifo_ages_bounded {nframes : Nat} (hn : 1 ≤ nframes) (store : bs.State) (physmem : Nat → Block B)
    (rands : Nat → Nat) :
    (∀ tried m log, .flush ∉ tried →
      tryOps bs .fifo (initVirtualMemory bs nframes store physmem rands, []) tried = some (m, log) → Aging nframes m) ∧
    (2 * nframes < 2 ^ 31 → ∀ prog, .flush ∉ prog → (∀ p ∈ touched B prog, p < npages) →
      ∃ ks, ks.length = prog.length ∧
        runOps bs .fifo 3 (initVirtualMemory bs nframes store physmem rands) prog =
          (tryOps bs .fifo (initVirtualMemory bs nframes store physmem rands, [])
            (List.zipWith List.replicate ks prog).flatten).map Prod.fst ∧
        ∀ tried, tried <+: (List.zipWith List.replicate ks prog).flatten →
          ∃ m log, tryOps bs .fifo (initVirtualMemory bs nframes store physmem rands, []) tried = some (m, log)) := by
  constructor
  · intro tried m log hops he
    exact ((stable_fifoPaged nframes).tryOps tried hops (fifoPaged_init hn store physmem rands) he).aging
  · intro hfit prog hops hin
    have hready := ready_initVirtualMemory hn (agesFit_of_lt .fifo npages hfit) store physmem rands
    obtain ⟨m', e'⟩ := hready.runOps prog hops hin
    exact runOps_tries prog e'

/-- Two frames: the page of the first is three faults old when the other one has been loaded and written. -/
theorem fifo_ages_bounded_two : ∃ m log,
    tryOps (memStore 1 3) .fifo (initVirtualMemory (memStore 1 3) 2 (fun _ _ => 0) (fun _ _ => 0) (fun _ => 0), [])
      [.load 0, .load 1, .store 1 7] = some (m, log) ∧ m.pt.frameState 0 = 3 ∧ Aging 2 m := by
  have hrun : (tryOps (memStore 1 3) .fifo
      (initVirtualMemory (memStore 1 3) 2 (fun _ _ => 0) (fun _ _ => 0) (fun _ => 0), [])
      [.load 0, .load 1, .store 1 7]).map (fun x => x.1.pt.frameState 0) = some 3 := by decide
  obtain ⟨⟨m, log⟩, e, hage⟩ := Option.map_eq_some_iff.1 hrun
  exact ⟨m, log, e, hage, (fifo_ages_bounded (by decide) _ _ _).1 _ m log (by simp) e⟩

end Vmem
end Bb
