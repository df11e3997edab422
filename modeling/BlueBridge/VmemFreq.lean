import BlueBridge.VmemTries
/-!
# VmemFreq — the buckets of LFU at every handler boundary, and the victim

At every boundary of the handler (`tryOps`) the pointers of the frequency list spell out buckets of increasing use
counts, none empty (`Buckets`).  A fault takes its page to the head of a bucket: of the first one when the page is
loaded, of the next one after that.  So the use count of a page is the number of its faults since it was loaded, every
bucket has the latest to come in first, and the tail of the first bucket is the page to evict (`Fewest`).
-/
namespace Bb
namespace Vmem

open Cells Recency
open Function (update update_self update_of_ne)

variable {B npages : Nat} {bs : BackingStore B npages}

/-! ## What the log says of a bucket -/

/-- The faults of a page since the one that loaded it. -/
def usesSince : List Fault → Nat → Nat
  | [],       _    => 0
  | f :: log, page =>
    if f.page = page then (if f.loads then 0 else usesSince log page + 1) else usesSince log page

theorem usesSince_of_ne {f : Fault} (log : List Fault) {page : Nat} (h : page ≠ f.page) :
    usesSince (f :: log) page = usesSince log page := if_neg (Ne.symm h)

def Bucket.keys (b : Bucket) : List Nat := b.nodes.map Prod.snd

theorem mem_keys_lfuNodes {F : List Bucket} {k : Nat} : k ∈ (lfuNodes F).map Prod.snd ↔ ∃ b ∈ F, k ∈ b.keys := by
  simp only [lfuNodes, Bucket.keys, List.mem_map, List.mem_flatMap]
  constructor
  · rintro ⟨x, ⟨b, hb, hx⟩, rfl⟩
    exact ⟨b, hb, x, hx, rfl⟩
  · rintro ⟨b, hb, x, hx, rfl⟩
    exact ⟨x, ⟨b, hb, hx⟩, rfl⟩

structure Bucket.Fits (bits : Nat → Prot) (log : List Fault) (b : Bucket) : Prop where
  uses : ∀ k ∈ b.keys, usesSince log k = b.useCount
  rights : ∀ k ∈ b.keys, bits k = .read ∧ b.useCount = 0 ∨ bits k = .readWrite ∧ b.useCount = 1
  recent : Recent (log.map Fault.page) b.keys

section Fits

variable {bits bits' : Nat → Prot} {log : List Fault} {b c : Bucket} {f : Fault}

theorem Bucket.Fits.thin (hb : b.Fits bits log) (hu : c.useCount = b.useCount) (hsub : c.keys.Sublist b.keys)
    (hbits : ∀ k ∈ c.keys, bits' k = bits k) : c.Fits bits' log where
  uses := fun k hk => (hb.uses k (hsub.subset hk)).trans hu.symm
  rights := fun k hk => by rw [hu, hbits k hk]; exact hb.rights k (hsub.subset hk)
  recent := hb.recent.sublist hsub

/-- A fault on a page of another bucket. -/
theorem Bucket.Fits.later (hb : b.Fits bits log) (hf : f.page ∉ b.keys) : b.Fits bits (f :: log) where
  uses := fun k hk => (usesSince_of_ne log (ne_of_mem_of_not_mem hk hf)).trans (hb.uses k hk)
  rights := hb.rights
  recent := (List.pairwise_cons.1 (hb.recent.push (List.Sublist.refl _) hf)).2

/-- The page of the fault comes in, at the head. -/
theorem Bucket.Fits.enter (hb : b.Fits bits log) (hf : f.page ∉ b.keys) (hc : c.keys = f.page :: b.keys)
    (hu : c.useCount = b.useCount) (huse : usesSince (f :: log) f.page = c.useCount)
    (hr : bits f.page = .read ∧ c.useCount = 0 ∨ bits f.page = .readWrite ∧ c.useCount = 1) :
    c.Fits bits (f :: log) where
  uses := by
    rw [hc]
    intro k hk
    rcases List.mem_cons.1 hk with rfl | hk
    · exact huse
    · exact ((hb.later hf).uses k hk).trans hu.symm
  rights := by
    rw [hc]
    intro k hk
    rcases List.mem_cons.1 hk with rfl | hk
    · exact hr
    · rw [hu]
      exact hb.rights k hk
  recent := by
    rw [hc]
    exact hb.recent.push (List.Sublist.refl _) hf

theorem Bucket.fits_nil (bits : Nat → Prot) (log : List Fault) (ptr uc : Nat) :
    (⟨ptr, uc, []⟩ : Bucket).Fits bits log where
  uses := fun _ hk => by cases hk
  rights := fun _ hk => by cases hk
  recent := Recent.nil _

/-- A part of a bucket of `F`. -/
def Bucket.Within (F : List Bucket) (b : Bucket) : Prop := ∃ c ∈ F, b.useCount = c.useCount ∧ b.keys.Sublist c.keys

theorem Bucket.within_of_mem {F : List Bucket} (hb : b ∈ F) : b.Within F := ⟨b, hb, rfl, List.Sublist.refl _⟩

theorem within_of_keepBucket {F : List Bucket} {l : List (Nat × Nat)} (hc : c ∈ F) (hsub : l.Sublist c.nodes)
    (hb : b ∈ keepBucket c l) : b.Within F := by
  unfold keepBucket at hb
  split at hb
  · cases hb
  · obtain rfl := List.mem_singleton.1 hb
    exact ⟨c, hc, rfl, hsub.map _⟩

/-- The buckets without the tail of the first. -/
theorem within_of_delete {G : List Bucket} {A : List (Nat × Nat)} {x : Nat × Nat} (hb : b.nodes = A ++ [x]) :
    ∀ c ∈ keepBucket b A ++ G, c.Within (b :: G) := by
  intro c hc
  rcases List.mem_append.1 hc with hc | hc
  · refine within_of_keepBucket List.mem_cons_self ?_ hc
    rw [hb]
    exact List.sublist_append_left _ _
  · exact Bucket.within_of_mem (List.mem_cons_of_mem _ hc)

end Fits

/-! ## A fault -/

/-- The bucket that `x` has gone to, and the ones behind it. -/
theorem addNext_split (ptr : Nat) {uc : Nat} (x : Nat × Nat) {F : List Bucket} (hu : ∀ b ∈ F, uc ≤ b.useCount) :
    ∃ p l Q, addNext ptr uc x F = ⟨p, uc, x :: l⟩ :: Q ∧ (∀ b ∈ Q, b ∈ F) ∧
      (l = [] ∨ ∃ b ∈ F, b.useCount = uc ∧ b.nodes = l) := by
  cases F with
  | nil => exact ⟨ptr, [], [], rfl, fun _ hb => hb, Or.inl rfl⟩
  | cons c G =>
    have hc := hu c List.mem_cons_self
    rw [addNext]
    split
    · exact ⟨ptr, [], c :: G, rfl, fun _ hb => hb, Or.inl rfl⟩
    · have heq : c.useCount = uc := by omega
      refine ⟨c.ptr, c.nodes, G, by rw [heq], fun _ hb => List.mem_cons_of_mem _ hb, Or.inr ?_⟩
      exact ⟨c, List.mem_cons_self, heq, rfl⟩

/-- **One bucket takes the page in**; of the others nothing but the page and the victim goes. -/
theorem Regroup.split {page : Nat} {mv : Move} {F F' : List Bucket} (hr : Regroup page mv F F')
    (hincr : F.Pairwise (fun b c => b.useCount < c.useCount)) :
    ∃ P p uc node l Q, F' = P ++ ⟨p, uc, (node, page) :: l⟩ :: Q ∧ (∀ b ∈ P ++ Q, b.Within F) ∧
      (l = [] ∨ (⟨p, uc, l⟩ : Bucket).Within F) ∧ (mv ≠ .grant → uc = 0) ∧
      (mv = .grant → ∃ b ∈ F, page ∈ b.keys ∧ uc = b.useCount + 1) := by
  cases hr with
  | @fill _ i node ptr =>
    obtain ⟨p, l, Q, e, hQ, hl⟩ := addNext_split ptr (node, page) (fun b (_ : b ∈ F) => Nat.zero_le b.useCount)
    refine ⟨[], p, 0, node, l, Q, e, fun b hb => Bucket.within_of_mem (hQ b hb), hl.imp_right ?_, fun _ => rfl, ?_⟩
    · rintro ⟨c, hc, hu, rfl⟩
      exact ⟨c, hc, hu.symm, List.Sublist.refl _⟩
    · rintro ⟨⟩
  | @replace b G A q v node ptr hbn =>
    have hin := within_of_delete hbn (G := G)
    obtain ⟨p, l, Q, e, hQ, hl⟩ := addNext_split ptr (node, page)
      (fun c (_ : c ∈ keepBucket b A ++ G) => Nat.zero_le c.useCount)
    refine ⟨[], p, 0, node, l, Q, e, fun c hc => hin c (hQ c hc), hl.imp_right ?_, fun _ => rfl, ?_⟩
    · rintro ⟨c, hc, hu, rfl⟩
      obtain ⟨d, hd, hcd, hsub⟩ := hin c hc
      exact ⟨d, hd, hu.symm.trans hcd, hsub⟩
    · rintro ⟨⟩
  | @grant F₁ b G A C node ptr hbn =>
    have hG : ∀ c ∈ G, b.useCount + 1 ≤ c.useCount :=
      (List.pairwise_cons.1 (List.pairwise_append.1 hincr).2.1).1
    have hmem : ∀ c ∈ G, c ∈ F₁ ++ b :: G := fun c hc => List.mem_append_right _ (List.mem_cons_of_mem _ hc)
    have hbF : b ∈ F₁ ++ b :: G := List.mem_append_right _ List.mem_cons_self
    obtain ⟨p, l, Q, e, hQ, hl⟩ := addNext_split ptr (node, page) hG
    refine ⟨F₁ ++ keepBucket b (A ++ C), p, b.useCount + 1, node, l, Q, by rw [e], fun c hc => ?_, hl.imp_right ?_,
      fun h => absurd rfl h, fun _ => ⟨b, hbF, ?_, rfl⟩⟩
    · rcases List.mem_append.1 hc with hc | hc
      · rcases List.mem_append.1 hc with hc | hc
        · exact Bucket.within_of_mem (List.mem_append_left _ hc)
        · refine within_of_keepBucket hbF ?_ hc
          rw [hbn]
          exact (List.sublist_cons_self _ _).append_left A
      · exact Bucket.within_of_mem (hmem c (hQ c hc))
    · rintro ⟨c, hc, hu, rfl⟩
      exact ⟨c, hmem c hc, hu.symm, List.Sublist.refl _⟩
    · rw [Bucket.keys, hbn, List.map_append]
      exact List.mem_append_right _ List.mem_cons_self

theorem Move.bits_of_ne_grant {mv : Move} (hmv : mv ≠ .grant) : mv.bits = .read := by
  cases mv with
  | fill i    => rfl
  | replace v => rfl
  | grant     => exact absurd rfl hmv

/-- **The buckets fit the longer log.** -/
theorem Regroup.fits {mv : Move} {F F' : List Bucket} {bits bits' : Nat → Prot} {log : List Fault} {f : Fault}
    (hr : Regroup f.page mv F F') (hincr : F.Pairwise (fun b c => b.useCount < c.useCount))
    (hnd : ((lfuNodes F').map Prod.snd).Nodup) (hfits : ∀ b ∈ F, b.Fits bits log)
    (hkeep : ∀ k ∈ (lfuNodes F').map Prod.snd, k ≠ f.page → bits' k = bits k) (hself : bits' f.page = mv.bits)
    (hload : f.loads = decide (mv ≠ .grant)) (hb : bits f.page ≠ .readWrite) : ∀ b ∈ F', b.Fits bits' (f :: log) := by
  obtain ⟨P, p, uc, node, l, Q, rfl, hrest, hl, hzero, hgrant⟩ := hr.split hincr
  have hperm : ((lfuNodes (P ++ ⟨p, uc, (node, f.page) :: l⟩ :: Q)).map Prod.snd).Perm
      (f.page :: ((⟨p, uc, l⟩ : Bucket).keys ++ (lfuNodes (P ++ Q)).map Prod.snd)) := by
    simp only [lfuNodes_append, lfuNodes_cons, List.map_append, List.map_cons, Bucket.keys, List.cons_append]
    exact List.perm_middle.trans ((List.perm_append_comm_assoc _ _ _).cons _)
  have hout := (List.nodup_cons.1 (hperm.nodup_iff.1 hnd)).1
  have hin : ∀ k ∈ (⟨p, uc, l⟩ : Bucket).keys ++ (lfuNodes (P ++ Q)).map Prod.snd, bits' k = bits k := fun k hk =>
    hkeep k (hperm.mem_iff.2 (List.mem_cons_of_mem _ hk)) (ne_of_mem_of_not_mem hk hout)
  have hstay : ∀ {b : Bucket}, b.Within F →
      (∀ k ∈ b.keys, k ∈ (⟨p, uc, l⟩ : Bucket).keys ++ (lfuNodes (P ++ Q)).map Prod.snd) → b.Fits bits' log := by
    rintro b ⟨c, hc, hu, hsub⟩ hk
    exact (hfits c hc).thin hu hsub (fun k hkb => hin k (hk k hkb))
  have hother : ∀ b ∈ P ++ Q, b.Fits bits' (f :: log) := by
    intro b hb
    have hk : ∀ k ∈ b.keys, k ∈ (⟨p, uc, l⟩ : Bucket).keys ++ (lfuNodes (P ++ Q)).map Prod.snd := fun k hk =>
      List.mem_append_right _ (mem_keys_lfuNodes.2 ⟨b, hb, hk⟩)
    exact (hstay (hrest b hb) hk).later (fun h => hout (hk _ h))
  have hpage : (⟨p, uc, (node, f.page) :: l⟩ : Bucket).Fits bits' (f :: log) := by
    have hrest : (⟨p, uc, l⟩ : Bucket).Fits bits' log := by
      rcases hl with rfl | hl
      · exact Bucket.fits_nil _ _ _ _
      · exact hstay hl (fun k hk => List.mem_append_left _ hk)
    have huse : usesSince (f :: log) f.page = if f.loads then 0 else usesSince log f.page + 1 := if_pos rfl
    refine hrest.enter (fun h => hout (List.mem_append_left _ h)) rfl rfl ?_ ?_
    · by_cases hmv : mv = .grant
      · obtain ⟨b, hbF, hk, rfl⟩ := hgrant hmv
        rw [huse, hload, if_neg (by simp [hmv]), (hfits b hbF).uses _ hk]
      · rw [huse, hload, if_pos (by simp [hmv]), hzero hmv]
    · by_cases hmv : mv = .grant
      · obtain ⟨b, hbF, hk, rfl⟩ := hgrant hmv
        have h0 : b.useCount = 0 := (((hfits b hbF).rights _ hk).resolve_right (fun h => hb h.1)).2
        exact Or.inr ⟨by rw [hself, hmv]; rfl, by rw [h0]⟩
      · exact Or.inl ⟨hself.trans (Move.bits_of_ne_grant hmv), hzero hmv⟩
  intro b hb
  rcases List.mem_append.1 hb with hb | hb
  · exact hother b (List.mem_append_left _ hb)
  · rcases List.mem_cons.1 hb with rfl | hb
    · exact hpage
    · exact hother b (List.mem_append_right _ hb)

/-- A page that is left resident is no victim, and keeps its rights. -/
theorem Faulted.bits_kept {m m' : Machine bs.State B} {c page k : Nat} {ks ks' : List Nat} {mv : Move}
    (hf : Faulted bs m m' c page ks ks' mv) (hne : k ≠ page) (hres : m'.pt.pageBits k ≠ .none) :
    m'.pt.pageBits k = m.pt.pageBits k := by
  rw [hf.table]
  refine make_bits_of_ne _ _ hne (fun h => hres ?_)
  rw [hf.table, h]
  exact (update_of_ne hne _ _).trans (by rw [dropPage_bits]; exact update_self ..)

/-- Between two tries: the structures, and a log that they fit. -/
structure Grouped (bs : BackingStore B npages) (x : Traced bs.State B) (F : List Bucket) : Prop where
  inv : LfuInv bs x.1 0 F (lfuNodes F).length
  frames : 0 < x.1.pt.nframes
  fits : ∀ b ∈ F, b.Fits x.1.pt.pageBits x.2

section Grouped

variable {x : Traced bs.State B} {F : List Bucket} {page : Nat}

theorem Grouped.keys (hg : Grouped bs x F) : LfuKeys x.1.pt.nframes x.1.th F :=
  ⟨hg.inv.freq, hg.inv.hash, hg.inv.listed.nodup⟩

theorem Grouped.regroups (hg : Grouped bs x F) (hpage : page < npages) :
    ∃ m' F' mv, pageFaultHandler bs .lfu x.1 page = some m' ∧ LfuKeys x.1.pt.nframes m'.th F' ∧
      Faulted bs x.1 m' 0 page ((lfuNodes F).map Prod.snd) ((lfuNodes F').map Prod.snd) mv ∧ Regroup page mv F F' :=
  lfuPageFaultHandler_regroups hg.keys hg.frames (hg.inv.listed.held_zero hpage)

/-- **A fault regroups the buckets**, and they fit the log that has it. -/
theorem Grouped.fault (hg : Grouped bs x F) (hpage : page < npages) (hb : x.1.pt.pageBits page ≠ .readWrite) :
    ∃ x' F', handleTraced bs .lfu x page = some x' ∧ Grouped bs x' F' := by
  have hlist := hg.inv.listed
  obtain ⟨m', F', mv, e, hk, hf, hr⟩ := hg.regroups hpage
  rw [← List.length_map (f := Prod.snd)] at hlist
  obtain ⟨hl, -⟩ := hf.listed hpage hlist
  rw [List.length_map] at hl
  have hmove : mv ≠ .grant ↔ x.1.pt.pageBits page = .none := by
    rw [hlist.bits_iff hpage]
    have hturn := hf.turn
    cases hturn with
    | fill h    => exact ⟨fun _ => h, fun _ h => by cases h⟩
    | replace h => exact ⟨fun _ => h, fun _ h => by cases h⟩
    | grant h   => exact ⟨fun h => absurd rfl h, fun hn => absurd h hn⟩
  refine ⟨_, F', by rw [handleTraced, e]; rfl, ⟨hk.freq, ?_, hl⟩, ?_, ?_⟩
  · show HashMaps m'.pt.nframes _ _
    rw [hf.nframes]
    exact hk.hash
  · show 0 < m'.pt.nframes
    rw [hf.nframes]
    exact hg.frames
  · refine Regroup.fits (f := ⟨page, x.1.pt.pageBits, m'.pt.pageMapping, m'.pt.pageBits⟩) hr hg.inv.freq.incr hk.nodup
      hg.fits (fun k hkk hne => ?_) hf.bits ?_ hb
    · exact hf.bits_kept hne ((hl.res k).2 hkk).2
    · rw [Fault.loads]
      exact decide_eq_decide.2 hmove.symm

theorem Grouped.poke (hg : Grouped bs x F) (hpage : page < npages) (hw : x.1.pt.pageBits page = .readWrite)
    (b : Block B) : Grouped bs ({ x.1 with pt := x.1.pt.poke page b }, x.2) F :=
  have hr : Resident x.1.pt page := ⟨hg.inv.listed.pages.symm ▸ hpage, by rw [hw]; exact Prot.noConfusion⟩
  ⟨⟨hg.inv.freq, hg.inv.hash, hg.inv.listed.poke hr hw b⟩, hg.frames, hg.fits⟩

theorem Grouped.flush (hg : Grouped bs x F) :
    ∃ m', pageTableFlush bs .lfu x.1 = some m' ∧ Grouped bs (m', x.2) [] := by
  obtain ⟨m', e, hi, hk⟩ := flushLfu_inv x.1.th.freqList.count hg.inv (Nat.le_of_eq hg.inv.freq.count.symm)
  exact ⟨m', e, hi, by rw [hk.1]; exact hg.frames, fun _ hb => by cases hb⟩

theorem grouped_initVirtualMemory {nframes : Nat} (hn : 0 < nframes) (store : bs.State) (physmem : Nat → Block B)
    (rands : Nat → Nat) : Grouped bs (initVirtualMemory bs nframes store physmem rands, []) [] where
  inv := ⟨freqRep_calloc, hashMaps_calloc _, (paged_initVirtualMemory .lfu hn store physmem rands).listed⟩
  frames := hn
  fits := fun _ hb => by cases hb

end Grouped

/-! ## The victim -/

/-- Of the resident pages, `v` is among those of the fewest uses, and of these the first to come into their bucket: with
its last fault, as each fault of a page takes it to another bucket. -/
structure Fewest {S : Type} (pt : PageTable S B) (log : List Fault) (v : Nat) : Prop where
  resident : Resident pt v
  least : ∀ q, Resident pt q → usesSince log v ≤ usesSince log q
  first : ∀ q, Resident pt q → usesSince log q = usesSince log v → q ≠ v →
    stamp (log.map Fault.page) v < stamp (log.map Fault.page) q
  unwritten : pt.pageBits v = .readWrite → ∀ q, Resident pt q → pt.pageBits q = .readWrite

/-- **The tail of the first bucket.** -/
theorem fewest_of_tail {S : Type} {pt : PageTable S B} {log : List Fault} {b : Bucket} {G : List Bucket}
    {A : List (Nat × Nat)} {p v : Nat} (hincr : (b :: G).Pairwise (fun b c => b.useCount < c.useCount))
    (hfits : ∀ c ∈ b :: G, c.Fits pt.pageBits log) (hres : ∀ q, Resident pt q ↔ q ∈ (lfuNodes (b :: G)).map Prod.snd)
    (hb : b.nodes = A ++ [(p, v)]) : Fewest pt log v := by
  have hkeys : b.keys = A.map Prod.snd ++ [v] := by rw [Bucket.keys, hb, List.map_append]; rfl
  have hv : v ∈ b.keys := by rw [hkeys]; exact List.mem_append_right _ (List.mem_singleton_self v)
  have hbf := hfits b List.mem_cons_self
  have hof : ∀ q, Resident pt q → (q ∈ b.keys ∨ b.useCount < usesSince log q) ∧ b.useCount ≤ usesSince log q := by
    intro q hq
    obtain ⟨c, hc, hqc⟩ := mem_keys_lfuNodes.1 ((hres q).1 hq)
    rw [(hfits c hc).uses q hqc]
    rcases List.mem_cons.1 hc with rfl | hc
    · exact ⟨Or.inl hqc, Nat.le_refl _⟩
    · have := (List.pairwise_cons.1 hincr).1 c hc
      exact ⟨Or.inr this, Nat.le_of_lt this⟩
  refine ⟨(hres v).2 (mem_keys_lfuNodes.2 ⟨b, List.mem_cons_self, hv⟩), fun q hq => ?_, fun q hq heq hne => ?_,
    fun hw q hq => ?_⟩
  · rw [hbf.uses v hv]
    exact (hof q hq).2
  · rw [hbf.uses v hv] at heq
    have hqb : q ∈ b.keys := (hof q hq).1.resolve_right (by omega)
    have hr := hbf.recent
    rw [hkeys] at hqb hr
    refine hr.last_lt q ((List.mem_append.1 hqb).resolve_right (fun h => hne ?_))
    exact List.mem_singleton.1 h
  · have h1 : b.useCount = 1 := by
      rcases hbf.rights v hv with h | h
      · cases hw.symm.trans h.1
      · exact h.2
    obtain ⟨c, hc, hqc⟩ := mem_keys_lfuNodes.1 ((hres q).1 hq)
    have hle := (hof q hq).2
    rw [(hfits c hc).uses q hqc, h1] at hle
    exact (((hfits c hc).rights q hqc).resolve_left (fun h => by omega)).1

/-- **What the handler evicts.** -/
theorem Grouped.evicts {x : Traced bs.State B} {F : List Bucket} (hg : Grouped bs x F) {page v : Nat}
    {m' : Machine bs.State B} (hpage : page < npages) (he : pageFaultHandler bs .lfu x.1 page = some m')
    (hv : x.1.pt.pageBits v ≠ .none) (hv' : m'.pt.pageBits v = .none) : Fewest x.1.pt x.2 v := by
  obtain ⟨m₁, F', mv, e, -, hf, hr⟩ := hg.regroups hpage
  cases Option.some.inj (e.symm.trans he)
  obtain rfl := hf.evicted hv hv'
  cases hr with
  | replace hbn => exact fewest_of_tail hg.inv.freq.incr hg.fits hg.inv.listed.res hbn

/-! ## The rounds of a flush -/

def flushRounds (bs : BackingStore B npages) : Nat → Machine bs.State B → Option (Machine bs.State B)
  | 0,     m => some m
  | k + 1, m => (flushRound bs m).bind (flushRounds bs k)

section Rounds

variable {log : List Fault}

/-- **A round takes the tail of the first bucket out.** -/
theorem LfuInv.round {m : Machine bs.State B} {pv c : Nat} {b : Bucket} {G : List Bucket}
    (hi : LfuInv bs m pv (b :: G) c) (hfits : ∀ d ∈ b :: G, d.Fits m.pt.pageBits log) :
    ∃ m₁ h f v pv' A, deleteLFU m.pt.nframes m.th.hashTable m.th.freqList = some (h, f, some v) ∧ Fewest m.pt log v ∧
      flushRound bs m = some m₁ ∧ LfuInv bs m₁ pv' (keepBucket b A ++ G) c ∧
      (∀ d ∈ keepBucket b A ++ G, d.Fits m₁.pt.pageBits log) ∧
      (lfuNodes (b :: G)).length = (lfuNodes (keepBucket b A ++ G)).length + 1 := by
  obtain ⟨m₁, h, f, A, p, v, pv', hbn, ed, e₁, hd, rf, rh, hperm⟩ := flushRound_drops bs hi.freq hi.hash
    hi.listed.nodup hi.listed.inFrames
  have hlen := hperm.length_eq
  rw [List.length_map, List.length_cons, List.length_map] at hlen
  refine ⟨m₁, h, f, v, pv', A, ed, fewest_of_tail hi.freq.incr hfits hi.listed.res hbn, e₁,
    ⟨rf, hd.nframes.symm ▸ rh, (hd.listed hi.listed hperm).1⟩, fun d hdm => ?_, hlen⟩
  obtain ⟨e, heF, hu, hsub⟩ := within_of_delete hbn d hdm
  refine (hfits e heF).thin hu hsub (fun k hk => ?_)
  have hne : k ≠ v := ne_of_mem_of_not_mem (mem_keys_lfuNodes.2 ⟨d, hdm, hk⟩)
    (List.nodup_cons.1 (hperm.nodup_iff.1 hi.listed.nodup)).1
  rw [hd.bits, if_neg (fun h => hne (List.mem_singleton.1 h))]

/-- A flush is one round for each node. -/
theorem LfuInv.flush_rounds : ∀ (k : Nat) {m : Machine bs.State B} {pv c : Nat} {F : List Bucket}, LfuInv bs m pv F c →
    (∀ d ∈ F, d.Fits m.pt.pageBits log) → (lfuNodes F).length = k → flushLfu bs k m = flushRounds bs k m
  | 0, m, pv, c, F, hi, _, hk => by
    have h0 : ¬ m.th.freqList.count > 0 := by
      rw [hi.freq.count, hk]
      exact Nat.lt_irrefl 0
    exact if_neg h0
  | k + 1, m, pv, c, [], hi, _, hk => by cases hk
  | k + 1, m, pv, c, b :: G, hi, hfits, hk => by
    obtain ⟨m₁, h, f, v, pv', A, -, -, e₁, hi₁, hfits₁, hlen⟩ := hi.round hfits
    have hcount : m.th.freqList.count > 0 := by rw [hi.freq.count, hk]; exact Nat.succ_pos k
    rw [flushLfu_succ k hcount, flushRounds, e₁]
    exact hi₁.flush_rounds k hfits₁ (by omega)

/-- **Every round of a flush** takes the page that an eviction would take then. -/
theorem LfuInv.rounds : ∀ (k : Nat) {m : Machine bs.State B} {pv c : Nat} {F : List Bucket}, LfuInv bs m pv F c →
    (∀ d ∈ F, d.Fits m.pt.pageBits log) → k < (lfuNodes F).length →
    ∃ m₁ h f v, flushRounds bs k m = some m₁ ∧
      deleteLFU m₁.pt.nframes m₁.th.hashTable m₁.th.freqList = some (h, f, some v) ∧ Fewest m₁.pt log v
  | _, _, _, _, [], _, _, hk => by cases hk
  | 0, m, pv, c, b :: G, hi, hfits, _ => by
    obtain ⟨m₁, h, f, v, pv', A, ed, hv, -⟩ := hi.round hfits
    exact ⟨m, h, f, v, rfl, ed, hv⟩
  | k + 1, m, pv, c, b :: G, hi, hfits, hk => by
    obtain ⟨m₁, -, -, -, pv', A, -, -, e₁, hi₁, hfits₁, hlen⟩ := hi.round hfits
    rw [flushRounds, e₁]
    exact hi₁.rounds k hfits₁ (by omega)

end Rounds

/-! ## What the pointers say -/

/-- The frequency list of a thread, found by following its pointers. -/
structure Buckets {S : Type} (m : Machine S B) (log : List Fault) (F : List Bucket) : Prop where
  next : walk m.th.freqList.freqs.cell Node.next Node.val F.length m.th.freqList.head = some (bucketCells F)
  prev : walk m.th.freqList.freqs.cell Node.prev Node.val F.length (lastPtr 0 (bucketCells F)) =
    some (bucketCells F).reverse
  nodes : ∀ b ∈ F, walk m.th.freqList.nodes.cell Node.next Node.val b.nodes.length (headPtr 0 b.nodes) =
      some (nodeCells b.ptr b.nodes) ∧
    walk m.th.freqList.nodes.cell Node.prev Node.val b.nodes.length (lastPtr 0 b.nodes) =
      some (nodeCells b.ptr b.nodes).reverse
  full : ∀ b ∈ F, b.nodes ≠ []
  incr : F.Pairwise (fun b c => b.useCount < c.useCount)
  keys : ((lfuNodes F).map Prod.snd).Nodup
  resident : ∀ p, p ∈ (lfuNodes F).map Prod.snd ↔ Resident m.pt p
  count : (lfuNodes F).length = m.th.freqList.count
  uses : ∀ b ∈ F, ∀ k ∈ b.keys, b.useCount = usesSince log k ∧
    (m.pt.pageBits k = .read ∧ b.useCount = 0 ∨ m.pt.pageBits k = .readWrite ∧ b.useCount = 1)

theorem Grouped.buckets {x : Traced bs.State B} {F : List Bucket} (hg : Grouped bs x F) : Buckets x.1 x.2 F where
  next := by
    have h := hg.inv.freq.seg.walk_next
    rwa [← hg.inv.freq.head, bucketCells, List.length_map] at h
  prev := by
    have h := hg.inv.freq.seg.walk_prev
    rwa [bucketCells, List.length_map] at h
  nodes := fun b hb => by
    have hs := hg.inv.freq.nodes b hb
    have hn := hs.walk_next
    have hp := hs.walk_prev
    rw [headPtr_nodeCells, nodeCells, List.length_map] at hn
    rw [lastPtr_nodeCells, nodeCells, List.length_map] at hp
    exact ⟨hn, hp⟩
  full := hg.inv.freq.full
  incr := hg.inv.freq.incr
  keys := hg.inv.listed.nodup
  resident := fun p => (hg.inv.listed.res p).symm
  count := hg.inv.freq.count.symm
  uses := fun b hb k hk => ⟨((hg.fits b hb).uses k hk).symm, (hg.fits b hb).rights k hk⟩

/-- A boundary of the handler: the buckets, and whom `deleteLFU` takes, called by the handler or by a flush. -/
structure Boundary (bs : BackingStore B npages) (m : Machine bs.State B) (log : List Fault) : Prop where
  buckets : ∃ F, Buckets m log F
  evicts : ∀ page m' v, page < npages → pageFaultHandler bs .lfu m page = some m' → m.pt.pageBits v ≠ .none →
    m'.pt.pageBits v = .none → Fewest m.pt log v
  flush : pageTableFlush bs .lfu m = flushRounds bs m.th.freqList.count m
  rounds : ∀ k, k < m.th.freqList.count → ∃ m₁ h f v, flushRounds bs k m = some m₁ ∧
    deleteLFU m₁.pt.nframes m₁.th.hashTable m₁.th.freqList = some (h, f, some v) ∧ Fewest m₁.pt log v

theorem Grouped.boundary {x : Traced bs.State B} {F : List Bucket} (hg : Grouped bs x F) : Boundary bs x.1 x.2 where
  buckets := ⟨F, hg.buckets⟩
  evicts := fun _ _ _ hpage he hv hv' => hg.evicts hpage he hv hv'
  flush := hg.inv.flush_rounds _ hg.fits hg.inv.freq.count.symm
  rounds := fun k hk => hg.inv.rounds k hg.fits (by rw [← hg.inv.freq.count]; exact hk)

theorem Grouped.ready {x : Traced bs.State B} {F : List Bucket} (hg : Grouped bs x F) :
    Ready bs .lfu x.1 ((lfuNodes F).map Prod.snd) [] where
  keyed := ⟨F, hg.keys, rfl⟩
  listed := by rw [List.length_map]; exact hg.inv.listed
  spread := fun h => by cases h
  frames := hg.frames
  only := Or.inl rfl
  fit := fun h => by cases h

/-! ## Every program of loads, stores and flushes -/

theorem Grouped.tryAccess {x : Traced bs.State B} {F : List Bucket} (hg : Grouped bs x F) {a : Nat} {w : Bool}
    {g : Traced bs.State B → Traced bs.State B} (ha : a / B < npages)
    (hperform : (x.1.pt.pageBits (a / B)).allows w = true → Grouped bs (g x) F) :
    ∃ y F', tryAccess bs .lfu a w g x = some y ∧ Grouped bs y F' := by
  have hpages : a / B < x.1.pt.npages := hg.inv.listed.pages.symm ▸ ha
  rw [Vmem.tryAccess, if_pos hpages]
  cases hb : (x.1.pt.pageBits (a / B)).allows w with
  | true  => exact ⟨_, F, if_pos rfl, hperform hb⟩
  | false =>
    have hrw : x.1.pt.pageBits (a / B) ≠ .readWrite := fun h => by rw [h] at hb; cases hb
    obtain ⟨y, F', e, hg'⟩ := hg.fault ha hrw
    exact ⟨y, F', (if_neg Bool.false_ne_true).trans e, hg'⟩

section Run

variable [NeZero B] {x : Traced bs.State B} {F : List Bucket}

theorem Grouped.tryOp (hg : Grouped bs x F) {op : Op} (hin : ∀ p ∈ op.page? B, p < npages) :
    ∃ y F', tryOp bs .lfu x op = some y ∧ Grouped bs y F' := by
  cases op with
  | load a    => exact hg.tryAccess (g := id) (hin _ rfl) (fun _ => hg)
  | store a v =>
    exact hg.tryAccess (g := fun x => (storeByte x.1 a v, x.2)) (hin _ rfl)
      (fun hb => hg.poke (hin _ rfl) (allows_write hb) _)
  | flush     =>
    obtain ⟨m', e, hg'⟩ := hg.flush
    exact ⟨(m', x.2), [], by rw [Vmem.tryOp, e]; rfl, hg'⟩

/-- **Whatever is tried**, the buckets stay in order. -/
theorem Grouped.tryOps : ∀ (ops : List Op) {x : Traced bs.State B} {F : List Bucket}, Grouped bs x F →
    (∀ p ∈ touched B ops, p < npages) → ∃ y F', tryOps bs .lfu x ops = some y ∧ Grouped bs y F'
  | [],        x, F, hg, _   => ⟨x, F, rfl, hg⟩
  | op :: ops, x, F, hg, hin => by
    obtain ⟨y, F₁, e, hg₁⟩ := hg.tryOp (fun p hp => hin p (by rw [touched_cons hp]; exact List.mem_cons_self))
    rw [tryOps_cons e]
    exact hg₁.tryOps ops (fun p hp => hin p (touched_subset (List.subset_cons_self _ _) hp))

/-- An operation gets through with two faults. -/
theorem Grouped.exec (hg : Grouped bs x F) {op : Op} (hin : ∀ p ∈ op.page? B, p < npages) :
    ∃ y, execTraced bs .lfu 3 x op = some y := by
  have htraced : ∀ {a w m}, access bs .lfu a w 3 x.1 = some m → ∃ y, accessTraced bs .lfu a w 3 x = some y := by
    intro a w m he
    rw [← accessTraced_fst] at he
    obtain ⟨y, ey, -⟩ := Option.map_eq_some_iff.1 he
    exact ⟨y, ey⟩
  cases op with
  | load a =>
    obtain ⟨m, e⟩ := (hg.ready.access (hin _ rfl) 1).1
    exact htraced e
  | store a v =>
    obtain ⟨m, e⟩ := (hg.ready.access (hin _ rfl) 0).2
    obtain ⟨y, ey⟩ := htraced e
    exact ⟨_, by rw [execTraced, ey]; rfl⟩
  | flush =>
    obtain ⟨m, e, -⟩ := hg.flush
    exact ⟨_, by rw [execTraced, e]; rfl⟩

theorem Grouped.runTraced : ∀ (prog : List Op) {x : Traced bs.State B} {F : List Bucket}, Grouped bs x F →
    (∀ p ∈ touched B prog, p < npages) → ∃ y, runTraced bs .lfu 3 x prog = some y
  | [],         x, _, _,  _   => ⟨x, rfl⟩
  | op :: prog, x, F, hg, hin => by
    obtain ⟨y, ey⟩ := hg.exec (fun p hp => hin p (by rw [touched_cons hp]; exact List.mem_cons_self))
    obtain ⟨k, hk⟩ := execTraced_tries ey
    have hrep : List.replicate k op ⊆ op :: prog := fun o ho => by
      rw [List.eq_of_mem_replicate ho]
      exact List.mem_cons_self
    obtain ⟨y', F₁, ey', hg₁⟩ := hg.tryOps (List.replicate k op) (fun p hp => hin p (touched_subset hrep hp))
    obtain rfl := Option.some.inj (ey'.symm.trans hk)
    obtain ⟨z, ez⟩ := hg₁.runTraced prog (fun p hp => hin p (touched_subset (List.subset_cons_self _ _) hp))
    exact ⟨z, by rw [Vmem.runTraced, List.foldlM_cons, ey]; exact ez⟩

/-- **LFU's buckets, at every boundary of its handler.**  A program of loads, stores and flushes gets through as a
sequence of tries, each operation some number of times; before the first, between any two and after the last, the
frequency list is in order and says whom to evict. -/
theorem lfu_boundaries {nframes : Nat} (hn : 1 ≤ nframes) (store : bs.State) (physmem : Nat → Block B)
    (rands : Nat → Nat) (prog : List Op) (hin : ∀ p ∈ touched B prog, p < npages) :
    ∃ ks, ks.length = prog.length ∧
      runOps bs .lfu 3 (initVirtualMemory bs nframes store physmem rands) prog =
        (tryOps bs .lfu (initVirtualMemory bs nframes store physmem rands, [])
          (List.zipWith List.replicate ks prog).flatten).map Prod.fst ∧
      ∀ tried, tried <+: (List.zipWith List.replicate ks prog).flatten →
        ∃ m log, tryOps bs .lfu (initVirtualMemory bs nframes store physmem rands, []) tried = some (m, log) ∧
          Boundary bs m log := by
  have hg : Grouped bs (initVirtualMemory bs nframes store physmem rands, []) [] :=
    grouped_initVirtualMemory hn store physmem rands
  obtain ⟨y, ey⟩ := hg.runTraced prog hin
  obtain ⟨ks, hlen, hks⟩ := runTraced_tries prog ey
  refine ⟨ks, hlen, ?_, fun tried hpre => ?_⟩
  · rw [hks, ← runTraced_fst prog (initVirtualMemory bs nframes store physmem rands, []), ey]
  · have hsub : tried ⊆ prog := List.Subset.trans hpre.subset (flatten_replicate_subset ks prog)
    obtain ⟨⟨m, log⟩, F, e, hg'⟩ := hg.tryOps tried (fun p hp => hin p (touched_subset hsub hp))
    exact ⟨m, log, e, hg'.boundary⟩

/-- Two frames: a page written and another read, an eviction, a flush, and a store after it. -/
theorem lfu_boundaries_two_frames : ∃ ks : List Nat, ks.length = 5 ∧
    runOps (memStore 1 3) .lfu 3 (initVirtualMemory (memStore 1 3) 2 (fun _ _ => 0) (fun _ _ => 0) (fun _ => 0))
        [.store 0 7, .load 1, .load 2, .flush, .store 1 8] =
      (tryOps (memStore 1 3) .lfu (initVirtualMemory (memStore 1 3) 2 (fun _ _ => 0) (fun _ _ => 0) (fun _ => 0), [])
        (List.zipWith List.replicate ks [.store 0 7, .load 1, .load 2, .flush, .store 1 8]).flatten).map Prod.fst ∧
    ∀ tried, tried <+: (List.zipWith List.replicate ks [.store 0 7, .load 1, .load 2, .flush, .store 1 8]).flatten →
      ∃ m log, tryOps (memStore 1 3) .lfu
          (initVirtualMemory (memStore 1 3) 2 (fun _ _ => 0) (fun _ _ => 0) (fun _ => 0), []) tried = some (m, log) ∧
        Boundary (memStore 1 3) m log :=
  lfu_boundaries (by decide) _ _ _ [.store 0 7, .load 1, .load 2, .flush, .store 1 8] (by decide)

end Run

end Vmem
end Bb
