import BlueBridge.RaidLoss
/-!
# RaidMissing — which host `read_raid_mem` takes for the missing one

The receive loop counts responses.  It does not look whether a host has answered before, nor which request an answer is
for.  It returns the first host it has not heard of; so with two answers of one host, two others may be missing, and the
caller repairs one stripe with the other, which it has not got.  `Answer.own` is what the loop does not see.
-/
namespace Bb
namespace Raid

open Bytes Stripes
open Function (update update_self update_of_ne)

/-! ## The answers taken -/

/-- A response; `own` if it answers a request of this call, not of an earlier one. -/
structure Answer where
  own : Bool
  src : UInt8
  data : List UInt8
  deriving DecidableEq, Repr

/-- What the receive loop sees of it. -/
def Answer.rcv (a : Answer) : UInt8 × List UInt8 := (a.src, a.data)

/-- It is from host `h`, by the byte of its source address. -/
def Answer.From (a : Answer) (h : Nat) : Prop := a.src.toNat = h + 2

instance (a : Answer) (h : Nat) : Decidable (a.From h) := inferInstanceAs (Decidable (_ = _))

/-- The answers a receive loop takes, from its `i`th turn on. -/
def taken (hosts needed : Nat) : List (Option Answer) → Nat → List Answer
  | [],     _ => []
  | o :: r, i =>
    if i < hosts then
      match o with
      | none   => if needed ≤ i then [] else taken hosts needed r i
      | some a => a :: taken hosts needed r (i + 1)
    else []

/-- The last answer of host `h`: what is in its row in the end. -/
def lastFrom (h : Nat) : List Answer → Option Answer
  | []      => none
  | a :: as => (lastFrom h as).or (if a.From h then some a else none)

theorem lastFrom_eq_none_iff {h : Nat} : ∀ {as : List Answer}, lastFrom h as = none ↔ ∀ a ∈ as, ¬ a.From h
  | [] => by simp [lastFrom]
  | a :: as => by simp [lastFrom, @lastFrom_eq_none_iff h as, and_comm]

theorem rcvLoop_taken {σ : Type} {hosts needed : Nat} {got : σ → UInt8 → List UInt8 → Option σ} :
    ∀ {outs : List (Option Answer)} {i : Nat} {s s' : σ} {rest : List Rcv},
      rcvLoop hosts needed got (outs.map (Option.map Answer.rcv)) i s = some (s', rest) →
      (taken hosts needed outs i).foldlM (fun s a => got s a.src a.data) s = some s'
  | [], i, s, s', rest, h => by
    simp only [List.map_nil, rcvLoop] at h
    split at h
    · cases h
    · cases h; rfl
  | none :: r, i, s, s', rest, h => by
    simp only [List.map_cons, Option.map_none, rcvLoop] at h
    simp only [taken]
    by_cases hi : i < hosts
    · rw [if_pos hi] at h ⊢
      by_cases hneed : needed ≤ i
      · rw [if_pos hneed] at h ⊢
        cases h
        rfl
      · rw [if_neg hneed] at h ⊢
        exact rcvLoop_taken h
    · rw [if_neg hi] at h ⊢
      cases h
      rfl
  | some a :: r, i, s, s', rest, h => by
    simp only [List.map_cons, Option.map_some, rcvLoop] at h
    simp only [taken]
    by_cases hi : i < hosts
    · rw [if_pos hi] at h ⊢
      obtain ⟨s₁, hgot, h⟩ := Option.bind_eq_some_iff.1 h
      rw [List.foldlM_cons, Option.bind_eq_bind, show got s a.src a.data = some s₁ from hgot, Option.bind_some]
      exact rcvLoop_taken h
    · rw [if_neg hi] at h ⊢
      cases h
      rfl

/-! ## What is stored -/

section Stored

variable {maxHosts B : Nat}

/-- A response that was stored: its host is noted, and its row written. -/
theorem storeAnswer_eq {s s' : Rx × (Nat → Bool)} {src : UInt8} {d : List UInt8}
    (h : storeAnswer maxHosts B s src d = some s') :
    ∃ host, src.toNat = host + 2 ∧ d.length ≤ B ∧ s' = (copied B s.1 host d, update s.2 host true) := by
  simp only [storeAnswer, Option.bind_eq_bind, Option.bind_eq_some_iff] at h
  obtain ⟨host, hhost, rx, hrx, h⟩ := h
  cases h
  unfold Rx.copy at hrx
  split at hrx
  · cases hrx
    exact ⟨host, hostOf_eq_some hhost, ‹_›, rfl⟩
  · cases hrx

/-- A host is found exactly if one of its answers was taken. -/
theorem found_iff {h : Nat} : ∀ {as : List Answer} {s s' : Rx × (Nat → Bool)},
    as.foldlM (fun s a => storeAnswer maxHosts B s a.src a.data) s = some s' →
    (s'.2 h = true ↔ s.2 h = true ∨ ∃ a ∈ as, a.From h)
  | [], s, s', hf => by
    cases hf
    simp
  | a :: as, s, s', hf => by
    rw [List.foldlM_cons] at hf
    obtain ⟨s₁, h₁, hf⟩ := Option.bind_eq_some_iff.1 hf
    obtain ⟨host, hsrc, -, rfl⟩ := storeAnswer_eq h₁
    rw [found_iff hf, List.exists_mem_cons_iff, ← or_assoc]
    refine or_congr_left ?_
    unfold Answer.From
    by_cases hh : h = host
    · simp [hh, hsrc]
    · simp only [update_of_ne hh, hsrc]
      exact ⟨.inl, fun hor => hor.resolve_right (by omega)⟩

theorem copied_of_ne {rx : Rx} {h host : Nat} {d : List UInt8} (hh : h ≠ host) :
    (copied B rx host d).bufs h = rx.bufs h := by
  simp only [copied, update_of_ne hh]

/-- Behind a block nothing is written. -/
theorem copied_zero {rx : Rx} {h host : Nat} {d : List UInt8} (hz : ∀ x, B ≤ x → rx.bufs h x = 0) :
    ∀ x, B ≤ x → (copied B rx host d).bufs h x = 0 := by
  intro x hx
  by_cases hh : h = host
  · subst hh
    simp only [copied, update_self]
    rw [writeBytes_of_not_mem _ (by rw [length_readBytes]; omega)]
    exact hz x hx
  · rw [copied_of_ne hh]
    exact hz x hx

theorem copied_whole {rx : Rx} {h : Nat} {d : List UInt8} (hz : ∀ x, B ≤ x → rx.bufs h x = 0) (hlen : d.length = B) :
    (copied B rx h d).bufs h = writeBytes (fun _ => 0) 0 d := by
  rw [copied_rows hlen, update_self]
  funext x
  unfold writeBytes
  by_cases hx : x < d.length
  · rw [if_pos (by omega), if_pos (by omega)]
  · rw [if_neg (by omega), if_neg (by omega)]
    exact hz x (by omega)

/-- A row is that of the host's last answer, if this was a whole block. -/
theorem row_of_last {h : Nat} : ∀ {as : List Answer} {s s' : Rx × (Nat → Bool)},
    as.foldlM (fun s a => storeAnswer maxHosts B s a.src a.data) s = some s' → (∀ x, B ≤ x → s.1.bufs h x = 0) →
    (lastFrom h as = none → s'.1.bufs h = s.1.bufs h) ∧
      ∀ a ∈ lastFrom h as, a.data.length = B → s'.1.bufs h = writeBytes (fun _ => 0) 0 a.data
  | [], s, s', hf, _ => by
    cases hf
    exact ⟨fun _ => rfl, fun a ha => absurd ha (by simp [lastFrom])⟩
  | a :: as, s, s', hf, hz => by
    rw [List.foldlM_cons] at hf
    obtain ⟨s₁, h₁, hf⟩ := Option.bind_eq_some_iff.1 hf
    obtain ⟨host, hsrc, -, rfl⟩ := storeAnswer_eq h₁
    obtain ⟨hnone, hsome⟩ := row_of_last hf (copied_zero hz)
    have hfrom : a.From h ↔ h = host := by unfold Answer.From; omega
    refine ⟨fun hlast => ?_, fun b hb hlen => ?_⟩
    · -- no answer of `h` at all
      rw [lastFrom, Option.or_eq_none_iff] at hlast
      have hh : h ≠ host := fun hh => by rw [if_pos (hfrom.2 hh)] at hlast; cases hlast.2
      exact (hnone hlast.1).trans (copied_of_ne hh)
    · cases hlast : lastFrom h as with
      | some c =>
        rw [lastFrom, hlast] at hb
        cases hb
        exact hsome b hlast hlen
      | none =>
        rw [lastFrom, hlast, Option.none_or] at hb
        by_cases hh : h = host
        · rw [if_pos (hfrom.2 hh)] at hb
          cases hb
          subst hh
          exact (hnone hlast).trans (copied_whole hz hlen)
        · rw [if_neg (fun hf => hh (hfrom.1 hf))] at hb
          cases hb

end Stored

/-! ## The missing host -/

section Missing

variable {maxHosts B H needed block : Nat} {r : Rrmem}

/-- What a returning `read_raid_mem` has done with the answers it took. -/
theorem readRaidMem_taken {outs : List (Option Answer)} {bufs : Bufs} {rxBuf : Nat → UInt8} {missing : Option Nat}
    {rest : List Rcv}
    (hret : readRaidMem maxHosts B H needed zeros rxBuf (outs.map (Option.map Answer.rcv)) = some (missing, bufs, rest)) :
    (∀ h, h < H → missing = none → ∃ a ∈ taken H needed outs 0, a.From h) ∧
    (∀ i, missing = some i → i < H ∧ ∀ a ∈ taken H needed outs 0, ¬ a.From i) ∧
    ∀ h, ∀ a ∈ lastFrom h (taken H needed outs 0), a.data.length = B → bufs h = writeBytes (fun _ => 0) 0 a.data := by
  simp only [readRaidMem, Option.bind_eq_bind, Option.bind_eq_some_iff] at hret
  obtain ⟨⟨s, rest'⟩, hloop, hret⟩ := hret
  cases hret
  have hfold := rcvLoop_taken hloop
  have hfound : ∀ h, s.2 h = true ↔ ∃ a ∈ taken H needed outs 0, a.From h := fun h => by
    rw [found_iff hfold]
    simp
  refine ⟨fun h hh hnone => ?_, fun i hi => ?_, fun h => ?_⟩
  · rw [List.find?_range_eq_none] at hnone
    have := hnone h hh
    exact (hfound h).1 (by simpa using this)
  · rw [List.find?_range_eq_some] at hi
    obtain ⟨hfalse, hlt, -⟩ := hi
    refine ⟨List.mem_range.1 hlt, fun a ha hfrom => ?_⟩
    rw [(hfound i).2 ⟨a, ha, hfrom⟩] at hfalse
    simp at hfalse
  · exact (row_of_last hfold (fun _ _ => rfl)).2

/-- In the row of host `h` there is an answer to this call's request. -/
def Stored (as : List Answer) (h : Nat) : Prop := ∃ a ∈ lastFrom h as, a.own = true

/-- **The missing host is the one that is named**: all others have stored an answer to this call, and so the repair of
the caller at level 4 gives the block, whatever it is, that the hosts answer with. -/
structure Identifies (maxHosts : Nat) (r : Rrmem) (block H : Nat) (as : List Answer) (missing : Option Nat)
    (bufs : Bufs) : Prop where
  all : missing = none → ∀ h, h < H → Stored as h
  others : ∀ i, missing = some i → ∀ h, h < H → h ≠ i → Stored as h
  sound : ∀ d, (∀ a ∈ as, a.own = true → ∀ h, a.From h →
      a.data = readBytes (columns r.blockSize (H - 1) (H - 1) d h) 0 r.blockSize) →
    ∀ data, ∃ out, readBufs maxHosts H r block missing bufs data = some out ∧
      readBytes out 0 r.blockSize = readBytes d 0 r.blockSize

/-- All hosts but at most one have been heard, and of each host that was heard the last answer is to this call. -/
structure Distinct (H : Nat) (as : List Answer) : Prop where
  heard : ∃ m, ∀ h, h < H → h ≠ m → ∃ a ∈ as, a.From h
  own : ∀ h, h < H → ∀ a ∈ lastFrom h as, a.own = true

theorem mem_of_lastFrom {h : Nat} {a : Answer} : ∀ {as : List Answer}, a ∈ lastFrom h as → a ∈ as ∧ a.From h
  | b :: as, ha => by
    rw [lastFrom, Option.mem_def, Option.or_eq_some_iff] at ha
    rcases ha with ha | ⟨-, ha⟩
    · obtain ⟨hmem, hfrom⟩ := mem_of_lastFrom ha
      exact ⟨List.mem_cons_of_mem _ hmem, hfrom⟩
    · split at ha
      · cases ha
        exact ⟨List.mem_cons_self, ‹_›⟩
      · cases ha

theorem Distinct.stored {as : List Answer} (hd : Distinct H as) {h : Nat} (hh : h < H)
    (hheard : ∃ a ∈ as, a.From h) : Stored as h := by
  obtain ⟨a, ha, hfrom⟩ := hheard
  cases hlast : lastFrom h as with
  | none => exact absurd hfrom (lastFrom_eq_none_iff.1 hlast a ha)
  | some b => exact ⟨b, hlast, hd.own h hh b hlast⟩

theorem Stored.heard {as : List Answer} {h : Nat} (hs : Stored as h) : ∃ a ∈ as, a.From h := by
  obtain ⟨a, ha, -⟩ := hs
  obtain ⟨hmem, hfrom⟩ := mem_of_lastFrom ha
  exact ⟨a, hmem, hfrom⟩

/-- With all but one heard, the host that is named is the one not heard. -/
theorem Distinct.others {as : List Answer} {missing : Option Nat} (hd : Distinct H as)
    (hall : ∀ h, h < H → missing = none → ∃ a ∈ as, a.From h)
    (hmiss : ∀ i, missing = some i → i < H ∧ ∀ a ∈ as, ¬ a.From i) {h : Nat} (hh : h < H) (hne : missing ≠ some h) :
    Stored as h := by
  cases hm : missing with
  | none => exact hd.stored hh (hall h hh hm)
  | some i =>
    obtain ⟨m, hm'⟩ := hd.heard
    obtain ⟨hi, hsilent⟩ := hmiss i hm
    have him : i = m := by
      by_contra hne'
      obtain ⟨a, ha, hfrom⟩ := hm' i hi hne'
      exact hsilent a ha hfrom
    exact hd.stored hh (hm' h hh (fun heq => hne (by rw [hm, him, heq])))

/-- **`read_raid_mem` names the missing host exactly if the answers it takes are of all hosts but at most one, and the
last of each is to this call.** -/
theorem identifies_iff {outs : List (Option Answer)} {bufs : Bufs} {rxBuf : Nat → UInt8} {missing : Option Nat}
    {rest : List Rcv} (hv : Valid maxHosts H r block) (hraid : r.raid = 4)
    (hret : readRaidMem maxHosts r.blockSize H (H - 1) zeros rxBuf (outs.map (Option.map Answer.rcv)) =
      some (missing, bufs, rest)) :
    Identifies maxHosts r block H (taken H (H - 1) outs 0) missing bufs ↔ Distinct H (taken H (H - 1) outs 0) := by
  obtain ⟨hall, hmiss, hrows⟩ := readRaidMem_taken hret
  generalize taken H (H - 1) outs 0 = as at hall hmiss hrows ⊢
  constructor
  · intro hid
    cases hm : missing with
    | none =>
      refine ⟨⟨0, fun h hh _ => hall h hh hm⟩, fun h hh a ha => ?_⟩
      obtain ⟨b, hb, hown⟩ := hid.all hm h hh
      cases ha.symm.trans hb
      exact hown
    | some i =>
      refine ⟨⟨i, fun h hh hne => (hid.others i hm h hh hne).heard⟩, fun h hh a ha => ?_⟩
      have hne : h ≠ i := fun heq => (hmiss i hm).2 a (mem_of_lastFrom ha).1 (heq ▸ (mem_of_lastFrom ha).2)
      obtain ⟨b, hb, hown⟩ := hid.others i hm h hh hne
      cases ha.symm.trans hb
      exact hown
  · intro hd
    have hothers : ∀ h, h < H → missing ≠ some h → Stored as h := fun h hh hne => hd.others hall hmiss hh hne
    refine ⟨fun hm h hh => hothers h hh (by rw [hm]; simp), fun i hm h hh hne => hothers h hh ?_, fun d hown data => ?_⟩
    · rw [hm]
      exact fun heq => hne (Option.some.inj heq).symm
    · obtain ⟨out, hout, hiff⟩ := readBufs_iff hv (.inl hraid) missing bufs data d
      refine ⟨out, hout, hiff.2 ?_⟩
      rw [parityHost, if_pos hraid]
      refine holds_of_columns hv.2.1 (fun k hk => (hmiss k hk).1) (fun h hh hne => ?_)
      obtain ⟨a, ha, hao⟩ := hothers h hh hne
      obtain ⟨hmem, hfrom⟩ := mem_of_lastFrom ha
      have hdata := hown a hmem hao h hfrom
      have hlen : a.data.length = r.blockSize := by rw [hdata, length_readBytes]
      have hn : 0 < H - 1 := by have := hv.2.1; omega
      rw [hrows h a ha hlen, hdata, writeBytes_columns hn]

end Missing

/-- Three hosts with the block `1, 2` and its parity; host 1 does not answer, after a time-out. -/
def oneSilent : List (Option Answer) := [some ⟨true, 2, [1, 0]⟩, none, some ⟨true, 4, [3, 0]⟩, none]

theorem identifies_silent : ∃ bufs,
    readRaidMem 5 2 3 2 zeros (fun _ => 0) (oneSilent.map (Option.map Answer.rcv)) = some (some 1, bufs, []) ∧
    Identifies 5 ⟨4, 2, 1⟩ 0 3 (taken 3 2 oneSilent 0) (some 1) bufs := by
  have hret : readRaidMem 5 2 3 (3 - 1) zeros (fun _ => 0) (oneSilent.map (Option.map Answer.rcv)) =
      some (some 1, _, []) := rfl
  refine ⟨_, hret, (identifies_iff (r := ⟨4, 2, 1⟩) (by decide) rfl hret).2 ⟨⟨1, fun h hh hne => ?_⟩, ?_⟩⟩
  · obtain rfl | rfl : h = 0 ∨ h = 2 := by omega
    · exact ⟨_, List.mem_cons_self, rfl⟩
    · exact ⟨_, List.mem_cons_of_mem _ List.mem_cons_self, rfl⟩
  · have hown : ∀ a ∈ taken 3 (3 - 1) oneSilent 0, a.own = true := by decide
    exact fun h _ a ha => hown a (mem_of_lastFrom ha).1

/-- Host 0 is heard twice, the others not at all. -/
def twiceHeard : List (Option Answer) := [some ⟨true, 2, [1, 0]⟩, some ⟨true, 2, [1, 0]⟩, none]

theorem identifies_wrong_host : ∃ bufs out,
    readRaidMem 5 2 3 2 zeros (fun _ => 0) (twiceHeard.map (Option.map Answer.rcv)) = some (some 1, bufs, []) ∧
    ¬ Identifies 5 ⟨4, 2, 1⟩ 0 3 (taken 3 2 twiceHeard 0) (some 1) bufs ∧
    readBufs 5 3 ⟨4, 2, 1⟩ 0 (some 1) bufs (fun _ => 0) = some out ∧ readBytes out 0 2 = [1, 1] := by
  refine ⟨_, _, rfl, fun h => ?_, rfl, by decide⟩
  obtain ⟨a, ha, -⟩ := h.others 1 rfl 2 (by decide) (by decide)
  cases ha

end Raid
end Bb
