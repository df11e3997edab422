import BlueBridge.RaidLoss
/-!
# RaidCrash — a host that goes down and stays down (`rrmem_write`, `rrmem_read` at level 4)

A host that misses one write and answers again gives a later read its old row (`RaidLoss`).  A host that goes down for
good does not: from then on `write_raid_mem` has one acknowledgement fewer and `read_raid_mem` reports that host
missing, so nobody reads a row it did not write.  The invariant is about the hosts that are up: each has its row of
every block as last written (`Intact`).  It holds through any number of writes and reads of any blocks, with the crash
anywhere in between or in the middle of a write.

All this takes a receive that reports silence with `-1`.  `simple_epoll_rcv` and `dpdk_client_rcv` wait instead, and the
first call after the crash waits for ever.  So a call in a run is right exactly if the receive times out or no host has
gone down before it (`raid4_survives_crash_iff`).
-/
namespace Bb
namespace Raid

open Bytes Stripes
open Function (update update_self update_of_ne)

/-! ## What is received -/

/-- The outcomes of a receive loop when the hosts `rs` answer.  Without time-outs each answer comes once, and then
nothing. -/
def Told (timesOut : Bool) (hosts needed : Nat) (resp : Nat → List UInt8) (rs : List Nat) (outs : List Rcv) : Prop :=
  match timesOut with
  | true  => Heard hosts needed resp 0 rs outs
  | false => rs.Nodup ∧ outs = rs.map (fun j => some (UInt8.ofNat (j + 2), resp j))

/-- The hosts but one. -/
def up (H : Nat) (down : Option Nat) : List Nat := (List.range H).filter (fun i => down ≠ some i)

theorem mem_up {H i : Nat} {down : Option Nat} : i ∈ up H down ↔ i < H ∧ down ≠ some i := by
  simp [up]

theorem length_up_none (H : Nat) : (up H none).length = H := by
  simp [up]

theorem length_up_some {H m : Nat} (hm : m < H) : (up H (some m)).length = H - 1 := by
  have herase : (List.range H).erase m = up H (some m) := by
    rw [List.nodup_range.erase_eq_filter, up]
    refine List.filter_congr (fun i _ => Bool.eq_iff_iff.2 ?_)
    rw [bne_iff_ne, decide_eq_true_iff, ne_comm, ne_eq, ne_eq, Option.some.injEq]
  rw [← herase, List.length_erase_of_mem (List.mem_range.2 hm), List.length_range]

theorem length_of_mem_iff {H : Nat} {down : Option Nat} {rs : List Nat} (hnd : rs.Nodup)
    (hrs : ∀ i, i ∈ rs ↔ i < H ∧ down ≠ some i) : rs.length = (up H down).length := by
  refine ((List.perm_ext_iff_of_nodup hnd (List.nodup_range.filter _)).2 (fun i => ?_)).length_eq
  rw [hrs]
  exact mem_up.symm

section Told

variable {timesOut : Bool} {H needed : Nat} {resp : Nat → List UInt8} {rs : List Nat} {outs : List Rcv}

/-- With every host heard the loop returns, time-outs or not. -/
theorem Told.heard (h : Told timesOut H needed resp rs outs) (hall : timesOut = false → rs.length = H) :
    Heard H needed resp 0 rs outs := by
  cases timesOut with
  | true => exact h
  | false =>
    rw [h.2]
    exact heard_all rs 0 (by rw [Nat.zero_add]; exact hall rfl)

/-- **Without time-outs a loop that is short of an answer waits.** -/
theorem rcvLoop_waits {σ : Type} {got : σ → UInt8 → List UInt8 → Option σ} : ∀ (rs : List Nat) (i : Nat) (s : σ),
    i + rs.length < H → rcvLoop H needed got (rs.map (fun j => some (UInt8.ofNat (j + 2), resp j))) i s = none
  | [], i, s, h => if_pos h
  | j :: rs, i, s, h => by
    rw [List.length_cons] at h
    rw [List.map_cons, rcvLoop, if_pos (by omega)]
    refine Option.bind_eq_none_iff.2 (fun s' _ => rcvLoop_waits rs (i + 1) s' (by omega))

theorem rrmemWrite_waits {maxHosts block : Nat} {r : Rrmem} (hlen : rs.length < H) (d rxBuf : Nat → UInt8)
    (lost : Nat → Bool) (disks : Disks) :
    rrmemWrite maxHosts H r block d rxBuf lost (rs.map (fun j => some (UInt8.ofNat (j + 2), resp j))) disks = none := by
  refine Option.bind_eq_none_iff.2 (fun w _ => ?_)
  rw [writeRaidMem, rcvLoop_waits rs 0 _ (by rwa [Nat.zero_add])]
  rfl

theorem rrmemRead_waits {maxHosts block : Nat} {r : Rrmem} (hraid : r.raid = 4) (hlen : rs.length < H)
    (rxBuf data : Nat → UInt8) :
    rrmemRead maxHosts H r block rxBuf (rs.map (fun j => some (UInt8.ofNat (j + 2), resp j))) data = none := by
  rw [rrmemRead, if_pos (Or.inr (Or.inl hraid)), readRaidMem, rcvLoop_waits rs 0 _ (by rwa [Nat.zero_add])]
  rfl

end Told

/-! ## Runs -/

/-- The hosts' blocks, and the host that is down. -/
structure Hosts where
  disks : Disks
  down : Option Nat

/-- What a client did, and what came back: of a write and of a read, what the function returned. -/
inductive Event where
  | write (block : Nat) (data : Nat → UInt8) (res : Option (Disks × List Rcv))
  | read (block : Nat) (res : Option ((Nat → UInt8) × List Rcv))
  | crash (m : Nat)

/-- The call, if it is one, has come back. -/
def Event.Returned : Event → Prop
  | .write _ _ res => res ≠ none
  | .read _ res    => res ≠ none
  | .crash _       => True

section Steps

variable (maxHosts H : Nat) (r : Rrmem) (timesOut : Bool)

/-- One operation, or a crash while all hosts are up.  A write is acknowledged by the hosts that are up; whether one that
is down wrote it before it crashed is left open.  A read with time-outs may give up on a host that is only slow. -/
inductive Step : Hosts → Event → Hosts → Prop
  | crash {a m} (hup : a.down = none) (hm : m < H) : Step a (.crash m) { a with down := some m }
  | write {a block data rxBuf lost ws outs} (hblock : block < r.nblocks) (hlost : ∀ i, lost i = true → a.down = some i)
      (hws : ∀ i, i ∈ ws ↔ i < H ∧ a.down ≠ some i) (hacks : Told timesOut H (needed H r) (fun _ => []) ws outs) :
      Step a (.write block data (rrmemWrite maxHosts H r block data rxBuf lost outs a.disks))
        { a with disks := ((rrmemWrite maxHosts H r block data rxBuf lost outs a.disks).map Prod.fst).getD a.disks }
  | read {a block rxBuf data missing rs outs} (hblock : block < r.nblocks) (hmiss : ∀ k ∈ missing, k < H)
      (hdown : ∀ m, a.down = some m → missing = some m) (hslow : timesOut = false → missing = a.down)
      (hrs : ∀ i, i ∈ rs ↔ i < H ∧ missing ≠ some i)
      (hheard : Told timesOut H (needed H r) (fun i => readBytes (a.disks i block) 0 r.blockSize) rs outs) :
      Step a (.read block (rrmemRead maxHosts H r block rxBuf outs data)) a

/-- The client makes its next call when the last one has returned. -/
inductive Run : Hosts → List Event → Hosts → Prop
  | nil {a} : Run a [] a
  | snoc {a b c es e} : Run a es b → (∀ e' ∈ es, e'.Returned) → Step maxHosts H r timesOut b e c → Run a (es ++ [e]) c

end Steps

/-- The data last written to a block. -/
def lastWritten (block : Nat) : List Event → Option (Nat → UInt8)
  | []                => none
  | .write b d _ :: es => (lastWritten block es).orElse (fun _ => if b = block then some d else none)
  | _ :: es           => lastWritten block es

/-- **What the client is to see**: every call returns, and a read of a block that was written with what was last written
to it. -/
def Event.Right (size : Nat) (before : List Event) : Event → Prop
  | .write _ _ res => ∃ disks, res = some (disks, [])
  | .read b res    => ∃ out, res = some (out, []) ∧
    ∀ d, lastWritten b before = some d → readBytes out 0 size = readBytes d 0 size
  | .crash _       => True

theorem lastWritten_append (block : Nat) : ∀ es es' : List Event,
    lastWritten block (es ++ es') = (lastWritten block es').orElse (fun _ => lastWritten block es)
  | [], es' => by
    rw [List.nil_append]
    cases lastWritten block es' <;> rfl
  | .write b d res :: es, es' => by
    rw [List.cons_append, lastWritten, lastWritten, lastWritten_append block es es']
    cases lastWritten block es' <;> rfl
  | .read _ _ :: es, es' => lastWritten_append block es es'
  | .crash _ :: es, es' => lastWritten_append block es es'

/-! ## The rows of the hosts that are up -/

/-- **Every host that is up has its row of every block as last written.** -/
def Intact (H : Nat) (r : Rrmem) (es : List Event) (a : Hosts) : Prop :=
  ∀ block d, lastWritten block es = some d → ∀ i, i < H → a.down ≠ some i →
    readBytes (a.disks i block) 0 r.blockSize = readBytes (columns r.blockSize (H - 1) (H - 1) d i) 0 r.blockSize

theorem deliver_other (lost : Nat → Bool) {block block' : Nat} (hne : block' ≠ block) (i : Nat) :
    ∀ (sent : List (Nat × List UInt8)) (disks : Disks), disks.deliver lost block sent i block' = disks i block'
  | [], _ => rfl
  | s :: sent, disks => by
    rw [Disks.deliver, List.foldl_cons]
    refine (deliver_other lost hne i sent _).trans ?_
    split
    · rfl
    · by_cases hi : i = s.1
      · subst hi
        rw [update_self, update_of_ne hne]
      · rw [update_of_ne hi]

section Steps

variable {maxHosts H block : Nat} {r : Rrmem} {timesOut : Bool} {a a' : Hosts} {e : Event} {es : List Event}

theorem rrmemWrite_other {d rxBuf : Nat → UInt8} {lost : Nat → Bool} {outs rest : List Rcv} {disks disks' : Disks}
    (h : rrmemWrite maxHosts H r block d rxBuf lost outs disks = some (disks', rest)) {block' : Nat}
    (hne : block' ≠ block) (i : Nat) : disks' i block' = disks i block' := by
  simp only [rrmemWrite, Option.bind_eq_bind, Option.bind_eq_some_iff] at h
  obtain ⟨w, -, ⟨sent, rest'⟩, -, h⟩ := h
  cases h
  exact deliver_other lost hne i sent disks

/-- **A read returns**, and if the rows are all of one block, then that block, without any one of the hosts. -/
theorem rrmemRead_heard {disks : Disks} {rxBuf data : Nat → UInt8} {missing : Option Nat} {rs : List Nat}
    {outs : List Rcv} (hv : Valid maxHosts H r block) (hraid : r.raid = 4) (hmax : maxHosts ≤ 254)
    (hmiss : ∀ k ∈ missing, k < H) (hrs : ∀ i, i ∈ rs ↔ i < H ∧ missing ≠ some i)
    (hheard : Heard H (needed H r) (fun i => readBytes (disks i block) 0 r.blockSize) 0 rs outs) :
    ∃ out, rrmemRead maxHosts H r block rxBuf outs data = some (out, []) ∧ ∀ d, (∀ i, i < H → missing ≠ some i →
      readBytes (disks i block) 0 r.blockSize = readBytes (columns r.blockSize (H - 1) (H - 1) d i) 0 r.blockSize) →
      readBytes out 0 r.blockSize = readBytes d 0 r.blockSize := by
  have hn : 0 < H - 1 := by have := hv.2.1; omega
  obtain ⟨b, hread, hb⟩ := readRaidMem_heard hmax hv.2.2 (fun j => length_readBytes ..) hmiss hrs hheard rxBuf
  obtain ⟨out, hout, -⟩ := readBufs_iff hv (.inl hraid) missing b data data
  refine ⟨out, ?_, fun d hrows => ?_⟩
  · simp only [rrmemRead, hraid, hread, hout, Option.bind_eq_bind, Option.bind_some]
    rfl
  · obtain ⟨out', hout', hiff⟩ := readBufs_iff hv (.inl hraid) missing b data d
    cases hout.symm.trans hout'
    apply hiff.mpr
    rw [parityHost, if_pos hraid]
    refine holds_of_columns hv.2.1 hmiss (fun j hj hne => ?_)
    rw [hb j, if_pos ((hrs j).mpr ⟨hj, hne⟩), hrows j hj hne]
    exact writeBytes_columns hn d j

theorem Intact.write {data rxBuf : Nat → UInt8} {lost : Nat → Bool} {outs : List Rcv} {disks' : Disks}
    {rest : List Rcv} {res : Option (Disks × List Rcv)} (h : Intact H r es a) (hv : Valid maxHosts H r block)
    (hraid : r.raid = 4) (hlost : ∀ i, lost i = true → a.down = some i)
    (hw : rrmemWrite maxHosts H r block data rxBuf lost outs a.disks = some (disks', rest)) :
    Intact H r (es ++ [.write block data res]) { a with disks := disks' } := by
  intro b d hlast i hi hup
  rw [lastWritten_append] at hlast
  by_cases hb : block = b
  · subst hb
    have hd : data = d := by simpa [lastWritten] using hlast
    subst hd
    have hnot : lost i = false := Bool.eq_false_iff.2 (fun hl => hup (hlost i hl))
    have hrow := rrmemWrite_rows hv hraid hw i hi
    rwa [hnot, if_neg Bool.false_ne_true] at hrow
  · have hlast' : lastWritten b es = some d := by simpa [lastWritten, hb] using hlast
    show readBytes (disks' i b) 0 r.blockSize = _
    rw [rrmemWrite_other hw (Ne.symm hb) i]
    exact h b d hlast' i hi hup

theorem Step.down_lt (hs : Step maxHosts H r timesOut a e a') (h : ∀ m, a.down = some m → m < H) :
    ∀ m, a'.down = some m → m < H := by
  cases hs with
  | crash hup hm =>
    rintro _ ⟨⟩
    exact hm
  | write => exact h
  | read => exact h

/-- **A call that has returned keeps the rows.** -/
theorem Intact.step (hH : 2 ≤ H) (hle : H ≤ maxHosts) (hraid : r.raid = 4) (h : Intact H r es a)
    (hs : Step maxHosts H r timesOut a e a') (hret : e.Returned) : Intact H r (es ++ [e]) a' := by
  cases hs with
  | @crash m hup hm =>
    intro b d hlast i hi _
    rw [lastWritten_append] at hlast
    exact h b d hlast i hi (by rw [hup]; exact (Option.some_ne_none i).symm)
  | @write block data rxBuf lost ws outs hblock hlost hws hacks =>
    obtain ⟨⟨disks', rest⟩, hw⟩ := Option.ne_none_iff_exists'.1 hret
    rw [hw]
    exact h.write ⟨hblock, hH, hle⟩ hraid hlost hw
  | @read block rxBuf data missing rs outs hblock hmiss hdown hslow hrs hheard =>
    intro b d hlast i hi hup
    rw [lastWritten_append] at hlast
    exact h b d hlast i hi hup

/-- **A call is right if the receive times out or all hosts are up.** -/
theorem Intact.right (hH : 2 ≤ H) (hle : H ≤ maxHosts) (hmax : maxHosts ≤ 254) (hraid : r.raid = 4)
    (h : Intact H r es a) (hs : Step maxHosts H r timesOut a e a') (hok : timesOut = true ∨ a.down = none) :
    e.Right r.blockSize es := by
  -- without time-outs every host is heard
  have hlen : ∀ {rs : List Nat} {missing : Option Nat}, rs.Nodup → (∀ i, i ∈ rs ↔ i < H ∧ missing ≠ some i) →
      missing = a.down → timesOut = false → rs.length = H := by
    rintro rs missing hnd hrs rfl rfl
    rw [length_of_mem_iff hnd hrs, hok.resolve_left Bool.false_ne_true, length_up_none]
  cases hs with
  | crash => trivial
  | @write block data rxBuf lost ws outs hblock hlost hws hacks =>
    have hheard := hacks.heard (fun ht => by subst ht; exact hlen hacks.1 hws rfl rfl)
    exact rrmemWrite_returns ⟨hblock, hH, hle⟩ hraid hmax (fun i hi => ((hws i).1 hi).1) hheard data rxBuf lost a.disks
  | @read block rxBuf data missing rs outs hblock hmiss hdown hslow hrs htold =>
    have hheard := htold.heard (fun ht => by subst ht; exact hlen htold.1 hrs (hslow rfl) rfl)
    obtain ⟨out, hout, hbytes⟩ := rrmemRead_heard ⟨hblock, hH, hle⟩ hraid hmax hmiss hrs hheard
    refine ⟨out, hout, fun d hlast => hbytes d (fun i hi hne => h block d hlast i hi ?_)⟩
    exact fun hd => hne (hdown i hd)

/-- **Without time-outs a call waits for a host that is down.** -/
theorem Step.waits (hraid : r.raid = 4) (hs : Step maxHosts H r false a e a') {m : Nat} (hdown : a.down = some m)
    (hm : m < H) (he : ∀ k, e ≠ .crash k) : ¬ e.Returned := by
  have hlen : ∀ {rs : List Nat}, rs.Nodup → (∀ i, i ∈ rs ↔ i < H ∧ a.down ≠ some i) → rs.length < H := by
    intro rs hnd hrs
    rw [length_of_mem_iff hnd hrs, hdown, length_up_some hm]
    omega
  cases hs with
  | crash => exact absurd rfl (he _)
  | @write block data rxBuf lost ws outs hblock hlost hws hacks =>
    obtain ⟨hnd, rfl⟩ := hacks
    exact fun hret => hret (rrmemWrite_waits (hlen hnd hws) data rxBuf lost a.disks)
  | @read block rxBuf data missing rs outs hblock hmiss hmd hslow hrs htold =>
    obtain ⟨hnd, rfl⟩ := htold
    obtain rfl := hslow rfl
    exact fun hret => hret (rrmemRead_waits hraid (hlen hnd hrs) rxBuf data)

theorem Event.Right.returned {size : Nat} (h : e.Right size es) : e.Returned := by
  cases e with
  | write =>
    obtain ⟨_, rfl⟩ := h
    exact Option.some_ne_none _
  | read =>
    obtain ⟨_, rfl, -⟩ := h
    exact Option.some_ne_none _
  | crash => trivial

/-- What holds after a run whose calls have returned. -/
theorem Run.inv (hH : 2 ≤ H) (hle : H ≤ maxHosts) (hraid : r.raid = 4) (hup : a.down = none)
    (hrun : Run maxHosts H r timesOut a es a') : (∀ e ∈ es, e.Returned) →
    Intact H r es a' ∧ (∀ m, a'.down = some m → m < H) ∧ (a'.down = none ↔ ∀ m, .crash m ∉ es) := by
  induction hrun with
  | nil =>
    refine fun _ => ⟨fun _ _ hlast => (by cases hlast), fun m hm => ?_, iff_of_true hup (fun _ => List.not_mem_nil)⟩
    rw [hup] at hm
    cases hm
  | @snoc b c es e hr hpre hs ih =>
    intro hret
    obtain ⟨hi, hlt, hnone⟩ := ih hpre
    refine ⟨hi.step hH hle hraid hs (hret e (by simp)), hs.down_lt hlt, ?_⟩
    cases hs with
    | @crash m => exact iff_of_false (Option.some_ne_none m) (fun h => h m (by simp))
    | write => exact hnone.trans (by simp)
    | read => exact hnone.trans (by simp)

/-- **With time-outs every call returns.** -/
theorem Run.returned (hH : 2 ≤ H) (hle : H ≤ maxHosts) (hmax : maxHosts ≤ 254) (hraid : r.raid = 4) (hup : a.down = none)
    (hrun : Run maxHosts H r true a es a') : ∀ e ∈ es, e.Returned := by
  cases hrun with
  | nil => exact nofun
  | @snoc b _ es e hr hpre hs =>
    intro e' he'
    rcases List.mem_append.1 he' with he' | he'
    · exact hpre e' he'
    · rw [List.mem_singleton.1 he']
      exact ((hr.inv hH hle hraid hup hpre).1.right hH hle hmax hraid hs (Or.inl rfl)).returned

/-- The run up to an event of it. -/
theorem Run.split (hrun : Run maxHosts H r timesOut a es a') (pre post : List Event) (hes : es = pre ++ e :: post) :
    ∃ b c, Run maxHosts H r timesOut a pre b ∧ (∀ e' ∈ pre, e'.Returned) ∧ Step maxHosts H r timesOut b e c := by
  induction hrun generalizing pre post with
  | nil => cases pre <;> cases hes
  | @snoc b c es e' hr hpre hs ih =>
    rcases List.eq_nil_or_concat post with rfl | ⟨post', e'', rfl⟩
    · obtain ⟨rfl, he⟩ := List.append_inj' hes rfl
      cases he
      exact ⟨b, c, hr, hpre, hs⟩
    · rw [List.concat_eq_append, ← List.cons_append, ← List.append_assoc] at hes
      exact ih pre post' (List.append_inj' hes rfl).1

/-- **RAID 4 survives a crash exactly if the receive times out.**  Whatever is written and read, starting with all hosts
up: a call returns, a read with what was last written to its block, if the receive reports silence or no host has gone
down; and if the receive only waits, then so does the first call after a host has gone down. -/
theorem raid4_survives_crash_iff (hH : 2 ≤ H) (hle : H ≤ maxHosts) (hmax : maxHosts ≤ 254) (hraid : r.raid = 4)
    (hup : a.down = none) (hrun : Run maxHosts H r timesOut a es a') (pre post : List Event) (hes : es = pre ++ e :: post)
    (he : ∀ m, e ≠ .crash m) : e.Right r.blockSize pre ↔ timesOut = true ∨ ∀ m, .crash m ∉ pre := by
  obtain ⟨b, c, hr, hpre, hs⟩ := hrun.split pre post hes
  obtain ⟨hi, hlt, hnone⟩ := hr.inv hH hle hraid hup hpre
  rw [← hnone]
  refine ⟨fun hright => ?_, hi.right hH hle hmax hraid hs⟩
  cases timesOut with
  | true => exact Or.inl rfl
  | false =>
    refine Or.inr (Option.eq_none_iff_forall_ne_some.2 (fun m hm => ?_))
    exact hs.waits hraid hm (hlt m hm) he hright.returned

theorem mem_three (i : Nat) : i ∈ [0, 1, 2] ↔ i < 3 ∧ (none : Option Nat) ≠ some i := by
  simp only [List.mem_cons, List.not_mem_nil, or_false, ne_eq, reduceCtorEq, not_false_eq_true, and_true]
  omega

theorem mem_last_two (i : Nat) : i ∈ [1, 2] ↔ i < 3 ∧ some 0 ≠ some i := by
  simp only [List.mem_cons, List.not_mem_nil, or_false, ne_eq, Option.some.injEq]
  omega

/-- Three hosts; the first goes down between two writes.  With time-outs the read does without it; without them the second
write never returns. -/
theorem raid4_survives_crash_iff_first :
    (∃ res₁ res₂ res a', Run 5 3 ⟨4, 2, 1⟩ true ⟨fun _ _ _ => 9, none⟩ [.write 0 (fun i => [1, 2].getD i 0) res₁, .crash 0,
      .write 0 (fun i => [3, 4].getD i 0) res₂, .read 0 res] a' ∧
      ∃ out, res = some (out, []) ∧ readBytes out 0 2 = [3, 4]) ∧
    ∃ res a', Run 5 3 ⟨4, 2, 1⟩ false ⟨fun _ _ _ => 9, none⟩ [.crash 0, .write 0 (fun i => [3, 4].getD i 0) res] a' ∧
      ∀ disks, res ≠ some (disks, []) := by
  have hheard : ∀ resp, Heard 3 2 resp 0 [1, 2] [some (3, resp 1), some (4, resp 2), none] :=
    fun resp => .answer (by decide) (.answer (by decide) (.done (by decide) (by decide)))
  constructor
  · obtain ⟨res₁, a₁, s₁, hd₁⟩ : ∃ res a, Step 5 3 ⟨4, 2, 1⟩ true ⟨fun _ _ _ => 9, none⟩
        (.write 0 (fun i => [1, 2].getD i 0) res) a ∧ a.down = none :=
      ⟨_, _, @Step.write 5 3 ⟨4, 2, 1⟩ true _ 0 _ (fun _ => 0) (fun _ => false) _ _ (by decide) (fun _ h => by cases h)
        mem_three (heard_all [0, 1, 2] 0 rfl), rfl⟩
    obtain ⟨res₂, a₂, s₂, hd₂⟩ : ∃ res a, Step 5 3 ⟨4, 2, 1⟩ true { a₁ with down := some 0 }
        (.write 0 (fun i => [3, 4].getD i 0) res) a ∧ a.down = some 0 :=
      ⟨_, _, @Step.write 5 3 ⟨4, 2, 1⟩ true _ 0 _ (fun _ => 0) (fun i => i = 0) _ _ (by decide)
        (fun i h => by rw [of_decide_eq_true h]) mem_last_two (hheard _), rfl⟩
    obtain ⟨res, s₃⟩ : ∃ res, Step 5 3 ⟨4, 2, 1⟩ true a₂ (.read 0 res) a₂ :=
      ⟨_, @Step.read 5 3 ⟨4, 2, 1⟩ true _ 0 (fun _ => 0) (fun _ => 0) (some 0) _ _ (by decide) (by decide)
        (fun m hm => hd₂.symm.trans hm) nofun mem_last_two (hheard _)⟩
    have hnext : ∀ {es b c e}, Run 5 3 ⟨4, 2, 1⟩ true ⟨fun _ _ _ => 9, none⟩ es b → Step 5 3 ⟨4, 2, 1⟩ true b e c →
        Run 5 3 ⟨4, 2, 1⟩ true ⟨fun _ _ _ => 9, none⟩ (es ++ [e]) c :=
      fun hr hs => hr.snoc (hr.returned (by decide) (by decide) (by decide) rfl rfl) hs
    have hrun := hnext (hnext (hnext (hnext .nil s₁) (.crash hd₁ (by decide : 0 < 3))) s₂) s₃
    obtain ⟨out, hout, hbytes⟩ := (raid4_survives_crash_iff (by decide) (by decide) (by decide) rfl rfl hrun
      [.write 0 _ res₁, .crash 0, .write 0 _ res₂] [] rfl nofun).2 (Or.inl rfl)
    exact ⟨res₁, res₂, res, a₂, hrun, out, hout, hbytes _ rfl⟩
  · obtain ⟨res, a', s⟩ : ∃ res a, Step 5 3 ⟨4, 2, 1⟩ false ⟨fun _ _ _ => 9, some 0⟩
        (.write 0 (fun i => [3, 4].getD i 0) res) a :=
      ⟨_, _, @Step.write 5 3 ⟨4, 2, 1⟩ false _ 0 _ (fun _ => 0) (fun _ => false) _ _ (by decide) (fun _ h => by cases h)
        mem_last_two ⟨by decide, rfl⟩⟩
    have hcrash : Step 5 3 ⟨4, 2, 1⟩ false ⟨fun _ _ _ => 9, none⟩ (.crash 0) ⟨fun _ _ _ => 9, some 0⟩ :=
      .crash rfl (by decide)
    have hrun := ((Run.nil.snoc nofun hcrash).snoc (by simp [Event.Returned]) s)
    refine ⟨res, a', hrun, fun disks hres => ?_⟩
    have hiff := raid4_survives_crash_iff (by decide) (by decide) (by decide) rfl rfl hrun [.crash 0] [] rfl nofun
    rcases hiff.1 ⟨disks, hres⟩ with h | h
    · cases h
    · exact h 0 List.mem_cons_self

end Steps

end Raid
end Bb
