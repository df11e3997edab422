import BlueBridge.Bytes
import Mathlib.Data.List.Range
import Mathlib.Logic.Function.Basic
/-!
# Raid — a block store over several hosts (`ip6/lib/vmem/rrmem.c`; `read_raid_mem`, `write_raid_mem` of `client_lib.c`)

A block is cut into stripes, one for each data host; levels 4 and 5 keep the parity of the stripes on a further host,
level 5 on another one for each block.  A read does without one host: its stripe is computed from the others.

The buffers are arrays of `MAX_HOSTS` rows of `BLOCK_SIZE` bytes, the block size; `MAX_HOSTS` is a parameter.  What
`rcv_udp6_raw` returns is given: a time-out or a response, with the byte of its source address that names the host.
`none` is an `abort`, a failed `assert`, an `exit`, an access out of bounds, or a call that still waits.
-/
namespace Bb
namespace Raid

open Bytes
open Function (update)

abbrev Bufs := Nat → Nat → UInt8

def zeros : Bufs := fun _ _ => 0

/-- Which hosts the loops visit and which of the `n` stripes each holds; a host without one is skipped. -/
structure Layout where
  n : Nat
  hosts : List Nat
  stripe : Nat → Option Nat
  nodup : hosts.Nodup
  order : hosts.filterMap stripe = List.range n

/-- Levels 0 and 4: host `i` has stripe `i`. -/
def plain (n : Nat) : Layout where
  n := n
  hosts := List.range n
  stripe := some
  nodup := List.nodup_range
  order := List.filterMap_some

/-- Level 5: host `p` has the parity, and `t` shifts the stripes of the hosts after it. -/
def stripe5 (p i : Nat) : Option Nat :=
  if i = p then none
  else
    let t := if i > p then 1 else 0
    some (i - t)

theorem stripe5_of_lt {p i : Nat} (h : i < p) : stripe5 p i = some i := by
  simp [stripe5, Nat.ne_of_lt h, Nat.not_lt_of_lt h]

@[simp] theorem stripe5_self (p : Nat) : stripe5 p p = none := if_pos rfl

theorem stripe5_of_gt {p i : Nat} (h : p < i) : stripe5 p i = some (i - 1) := by
  simp [stripe5, Nat.ne_of_gt h, h]

theorem stripe5_eq_none_iff {p i : Nat} : stripe5 p i = none ↔ i = p := by
  simp [stripe5]

theorem stripe5_eq_some_iff {p i k : Nat} : stripe5 p i = some k ↔ i < p ∧ k = i ∨ p < i ∧ k = i - 1 := by
  rcases Nat.lt_trichotomy i p with h | rfl | h
  · rw [stripe5_of_lt h, Option.some.injEq]
    omega
  · simp
  · rw [stripe5_of_gt h, Option.some.injEq]
    omega

theorem filterMap_stripe5 {H p : Nat} (h : p < H) : (List.range H).filterMap (stripe5 p) = List.range (H - 1) := by
  obtain ⟨q, rfl⟩ := Nat.exists_eq_add_of_lt h
  have hlow : (List.range p).filterMap (stripe5 p) = List.range p := by
    rw [List.filterMap_congr (fun i hi => stripe5_of_lt (List.mem_range.mp hi)), List.filterMap_some]
  have hhigh : ∀ j, (stripe5 p ∘ fun x => p + 1 + x) j = (some ∘ fun x => p + x) j := fun j => by
    have hj : p < p + 1 + j := by omega
    rw [Function.comp_apply, stripe5_of_gt hj, Function.comp_apply]
    congr 1
    omega
  have hrange : List.range (p + q + 1) = List.range p ++ p :: (List.range q).map (fun x => p + 1 + x) := by
    rw [Nat.add_right_comm, List.range_add, List.range_succ, List.append_assoc]
    rfl
  rw [Nat.add_sub_cancel, hrange, List.filterMap_append, hlow, List.filterMap_cons_none (stripe5_self p),
    List.filterMap_map, funext hhigh, List.filterMap_eq_map, List.range_add]

def rotated (H p : Nat) (h : p < H) : Layout where
  n := H - 1
  hosts := List.range H
  stripe := stripe5 p
  nodup := List.nodup_range
  order := filterMap_stripe5 h

/-! ## Slicing and reassembly -/

/-- `alloc` before the loops: the length of the longer stripes. -/
def startAlloc (size n : Nat) : Nat := if size % n > 0 then size / n + 1 else size / n

/-- The loop over the hosts of `rrmem_write` and the last one of `rrmem_read`, which copy a stripe each time. -/
def stripeLoop {σ : Type} (size : Nat) (L : Layout) (copy : σ → Nat → Nat → Nat → σ) : List Nat → Nat → Nat → σ → σ
  | [],     _,     _,    s => s
  | i :: r, alloc, base, s =>
    match L.stripe i with
    | none   => stripeLoop size L copy r alloc base s
    | some k =>
      let alloc := if size % L.n ≤ k then size / L.n else alloc
      stripeLoop size L copy r alloc (base + alloc) (copy s i base alloc)

def slice (size : Nat) (L : Layout) (data : Nat → UInt8) (w : Bufs) : Bufs :=
  stripeLoop size L (fun w i base alloc => update w i (writeBytes (w i) 0 (readBytes data base alloc)))
    L.hosts (startAlloc size L.n) 0 w

def gather (size : Nat) (L : Layout) (bufs : Bufs) (data : Nat → UInt8) : Nat → UInt8 :=
  stripeLoop size L (fun data i base alloc => writeBytes data base (readBytes (bufs i) 0 alloc))
    L.hosts (startAlloc size L.n) 0 data

/-! ## Parity -/

/-- Byte `i` of the parity: `base` runs over the stripes. -/
def parityByte (data : Nat → UInt8) (size stripes i : Nat) : UInt8 :=
  ((List.range stripes).foldl (fun (s : UInt8 × Nat) j =>
    (s.1 ^^^ data (i + s.2), s.2 + size / stripes + if j < size % stripes then 1 else 0)) (0, 0)).1

/-- The byte only the longer stripes have. -/
def lastParityByte (data : Nat → UInt8) (size stripes : Nat) : UInt8 :=
  ((List.range (size % stripes)).foldl (fun (s : UInt8 × Nat) _ =>
    (s.1 ^^^ data s.2, s.2 + (size / stripes + 1))) (0, size / stripes)).1

def parity45 (data : Nat → UInt8) (size stripes : Nat) (parity : Nat → UInt8) : Nat → UInt8 :=
  let alloc := size / stripes
  let parity := (List.range alloc).foldl (fun parity i => update parity i (parityByte data size stripes i)) parity
  if size % stripes > 0 then update parity alloc (lastParityByte data size stripes) else parity

/-- `paritybyte` of `checkParity45`, a signed `char`: the exclusive or of byte `i` of the first `n` rows. -/
def checkByte (stripes : Bufs) (i n : Nat) : Int8 :=
  (List.range n).foldl (fun paritybyte j => paritybyte ^^^ (stripes j i).toInt8) 0

/-- `paritybyte != (*parity)[i]` compares two `int`s. -/
def sameByte (paritybyte : Int8) (parity : UInt8) : Bool := paritybyte.toInt = parity.toNat

/-- The message for the last column prints `*parity[alloc]`, the first byte of the row `alloc` rows behind the one that
`parity` points to: outside the buffer unless `alloc` is 0. -/
def checkParity45 (stripes : Bufs) (numStripes : Nat) (parity : Nat → UInt8) (size : Nat) : Option Bool :=
  let alloc := size / numStripes
  if (List.range alloc).all (fun i => sameByte (checkByte stripes i numStripes) (parity i)) then
    if size % numStripes > 0 then
      if sameByte (checkByte stripes alloc (size % numStripes)) (parity alloc) then some true
      else if alloc = 0 then some false else none
    else some true
  else some false

/-- The exclusive or of byte `i` of the first `n` rows but the missing one. -/
def repairByte (stripes : Bufs) (missing i n : Nat) : UInt8 :=
  (List.range n).foldl (fun repairbyte j => if j ≠ missing then repairbyte ^^^ stripes j i else repairbyte) 0

/-- `repair` is the row `missing` of `stripes`, and `parity` a row of it too. -/
def repairStripeFromParity45 (stripes : Bufs) (parity missing numStripes size : Nat) : Bufs :=
  let alloc := size / numStripes
  let repaired := fun (stripes : Bufs) i n => update stripes missing
    (update (stripes missing) i (repairByte stripes missing i n ^^^ stripes parity i))
  let stripes := (List.range alloc).foldl (fun stripes i => repaired stripes i numStripes) stripes
  if size % numStripes > missing then repaired stripes alloc (size % numStripes) else stripes

/-! ## `rrmem_write` and `rrmem_read`, but for the exchange with the hosts -/

structure Rrmem where
  raid : Nat
  blockSize : Nat
  nblocks : Nat
  deriving Repr

section Levels

variable (maxHosts numHosts : Nat) (r : Rrmem) (block : Nat)

/-- The range check and the `assert`s. -/
def Valid : Prop := block < r.nblocks ∧ 2 ≤ numHosts ∧ numHosts ≤ maxHosts

instance : Decidable (Valid maxHosts numHosts r block) := inferInstanceAs (Decidable (_ ∧ _ ∧ _))

/-- Level 5's layout for the block. -/
def layout5 (h : 2 ≤ numHosts) : Layout := rotated numHosts (block % numHosts) (Nat.mod_lt _ (by omega))

/-- `wbufs`, as `rrmem_write` hands them to `write_raid_mem`. -/
def writeBufs (data : Nat → UInt8) : Option Bufs :=
  if h : Valid maxHosts numHosts r block then
    match r.raid with
    | 0 => some (slice r.blockSize (plain numHosts) data zeros)
    | 4 =>
      let parity := parity45 data r.blockSize (numHosts - 1) (zeros (numHosts - 1))
      some (slice r.blockSize (plain (numHosts - 1)) data (update zeros (numHosts - 1) parity))
    | 5 =>
      let p := block % numHosts
      let parity := parity45 data r.blockSize (numHosts - 1) (zeros p)
      some (slice r.blockSize (layout5 numHosts block h.2.1) data (update zeros p parity))
    | _ => none
  else none

/-- What `rrmem_read` makes of `rbufs` and the missing host `read_raid_mem` reports. -/
def readBufs (missingIndex : Option Nat) (rbufs : Bufs) (data : Nat → UInt8) : Option (Nat → UInt8) :=
  match r.raid with
  | 0 =>
    if Valid maxHosts numHosts r block ∧ missingIndex = none then some (gather r.blockSize (plain numHosts) rbufs data)
    else none
  | 4 =>
    if Valid maxHosts numHosts r block then
      let rbufs := match missingIndex with
        | none   => rbufs
        | some m => if m = numHosts - 1 then rbufs
                    else repairStripeFromParity45 rbufs (numHosts - 1) m (numHosts - 1) r.blockSize
      some (gather r.blockSize (plain (numHosts - 1)) rbufs data)
    else none
  | 5 =>
    if h : Valid maxHosts numHosts r block then
      let p := block % numHosts
      let rbufs := match missingIndex with
        | none   => rbufs
        | some m => if m = p then rbufs else repairStripeFromParity45 rbufs p m (numHosts - 1) r.blockSize
      some (gather r.blockSize (layout5 numHosts block h.2.1) rbufs data)
    else none
  | _ => if block < r.nblocks then some data else none

end Levels

/-! ## The exchange with the hosts -/

/-- What `rcv_udp6_raw` returns: `none` for -1, or the byte `s6_addr[5]` of the source address and the payload. -/
abbrev Rcv := Option (UInt8 × List UInt8)

/-- The receive loop of `read_raid_mem` and `write_raid_mem`, and what it leaves to be received. -/
def rcvLoop {σ : Type} (hosts needed : Nat) (got : σ → UInt8 → List UInt8 → Option σ) :
    List Rcv → Nat → σ → Option (σ × List Rcv)
  | [],     i, s => if i < hosts then none else some (s, [])
  | o :: r, i, s =>
    if i < hosts then
      match o with
      | none          => if needed ≤ i then some (s, r) else rcvLoop hosts needed got r i s
      | some (src, d) => do
        let s ← got s src d
        rcvLoop hosts needed got r (i + 1) s
    else some (s, o :: r)

/-- `rx_buf` and the rows the payloads are copied to. -/
structure Rx where
  rxBuf : Nat → UInt8
  bufs : Bufs

section Exchange

variable (maxHosts blockSize : Nat)

def hostOf (src : UInt8) : Option Nat :=
  if 2 ≤ src.toNat ∧ src.toNat - 2 < maxHosts then some (src.toNat - 2) else none

/-- All of `rx_buf` is copied, however short the payload. -/
def Rx.copy (s : Rx) (host : Nat) (d : List UInt8) : Option Rx :=
  if d.length ≤ blockSize then
    let rxBuf := writeBytes s.rxBuf 0 d
    some ⟨rxBuf, update s.bufs host (writeBytes (s.bufs host) 0 (readBytes rxBuf 0 blockSize))⟩
  else none

/-- A response in `read_raid_mem`, which notes the host in `found`. -/
def storeAnswer (s : Rx × (Nat → Bool)) (src : UInt8) (d : List UInt8) : Option (Rx × (Nat → Bool)) := do
  let host ← hostOf maxHosts src
  let rx ← s.1.copy blockSize host d
  some (rx, update s.2 host true)

/-- An acknowledgement in `write_raid_mem`, copied over the payload. -/
def storeAck (s : Rx) (src : UInt8) (d : List UInt8) : Option Rx := do
  let host ← hostOf maxHosts src
  s.copy blockSize host d

/-- The missing host, the rows and what is left to be received; the requests change nothing on the hosts. -/
def readRaidMem (hosts needed : Nat) (bufs : Bufs) (rxBuf : Nat → UInt8) (outs : List Rcv) :
    Option (Option Nat × Bufs × List Rcv) := do
  let (s, rest) ← rcvLoop hosts needed (storeAnswer maxHosts blockSize) outs 0 (⟨rxBuf, bufs⟩, fun _ => false)
  some ((List.range hosts).find? (fun i => s.2 i = false), s.1.bufs, rest)

/-- The payloads, all sent before the first answer is awaited, and what is left to be received. -/
def writeRaidMem (hosts needed : Nat) (payload : Bufs) (rxBuf : Nat → UInt8) (outs : List Rcv) :
    Option (List (Nat × List UInt8) × List Rcv) := do
  let sent := (List.range hosts).map (fun i => (i, readBytes (payload i) 0 blockSize))
  let (_, rest) ← rcvLoop hosts needed (storeAck maxHosts blockSize) outs 0 ⟨rxBuf, payload⟩
  some (sent, rest)

end Exchange

/-- The bytes of each block of each host, at `rsmem[i].memList[block]`. -/
abbrev Disks := Nat → Nat → Nat → UInt8

/-- The hosts write what reaches them. -/
def Disks.deliver (lost : Nat → Bool) (block : Nat) (sent : List (Nat × List UInt8)) (disks : Disks) : Disks :=
  sent.foldl (fun disks s =>
    if lost s.1 then disks
    else update disks s.1 (update (disks s.1) block (writeBytes (disks s.1 block) 0 s.2))) disks

section Store

variable (maxHosts numHosts : Nat) (r : Rrmem) (block : Nat)

/-- `needed`: level 0 waits for every host. -/
def needed : Nat := if r.raid = 0 then numHosts else numHosts - 1

def rrmemWrite (data rxBuf : Nat → UInt8) (lost : Nat → Bool) (outs : List Rcv) (disks : Disks) :
    Option (Disks × List Rcv) := do
  let w ← writeBufs maxHosts numHosts r block data
  let (sent, rest) ← writeRaidMem maxHosts r.blockSize numHosts (needed numHosts r) w rxBuf outs
  some (disks.deliver lost block sent, rest)

/-- An unknown level reads nothing and leaves `data`. -/
def rrmemRead (rxBuf : Nat → UInt8) (outs : List Rcv) (data : Nat → UInt8) : Option ((Nat → UInt8) × List Rcv) := do
  if r.raid = 0 ∨ r.raid = 4 ∨ r.raid = 5 then
    let (missing, rbufs, rest) ← readRaidMem maxHosts r.blockSize numHosts (needed numHosts r) zeros rxBuf outs
    let out ← readBufs maxHosts numHosts r block missing rbufs data
    some (out, rest)
  else
    let out ← readBufs maxHosts numHosts r block none zeros data
    some (out, outs)

end Store

end Raid
end Bb
