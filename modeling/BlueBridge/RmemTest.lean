import BlueBridge.VmemProgram
import BlueBridge.WordCount
/-!
# RmemTest — the benchmark programs on the virtual memory (`ip6/apps/rmem_test.c`)

`scan_program` and `wc_program` as the accesses they make.  On an array they compute a sum and a word count; paged they
compute the same under every policy (`scan_paged`, `wc_paged`).  The `int` length of `scan_program` is compared with an
`unsigned` index, so it is the length modulo `2 ^ 32`; `wc_program` asks nobody how large the memory is, and stores a
file that is larger past its end.
-/
namespace Bb
namespace RmemTest

open Vmem WordCount
open Vmem.Code (loop flat_bind flat_read flat_write)
open Function (update)

/-! ## The programs -/

/-- The first loop of `scan_program`. -/
def scanWrite (length : UInt32) : Code Unit :=
  loop (fun _ i => Code.write i (UInt8.ofNat (i % 256))) (List.range length.toNat) ()

/-- One of its ten rounds. -/
def scanSum (length total : UInt32) : Code UInt32 :=
  loop (fun total i => do
    let v ← Code.read i
    pure (total + v.toUInt32)) (List.range length.toNat) total

def scanProgram (length : UInt32) : Code UInt32 := do
  scanWrite length
  loop (fun total _ => scanSum length total) (List.range 10) 0

/-- The loop that stores the file. -/
def storeFile : List UInt8 → Nat → Code Nat
  | [],          i => .ret i
  | symbol :: r, i => if symbol = 255 then .ret i else .store i symbol (storeFile r (i + 1))

/-- The loop that counts: `cdata[index]` is read twice. -/
def countFile : Nat → Nat → UInt8 → Nat → Code Nat
  | 0,     _,     _,    count => .ret count
  | k + 1, index, prev, count => do
    let cur ← Code.read index
    let next ← Code.read index
    countFile k (index + 1) next (if isWord prev cur then count + 1 else count)

def wcProgram (input : List UInt8) : Code Nat := do
  let fsize ← storeFile input 0
  countFile fsize 0 32 0

/-! ## On an array -/

section Flat

variable {size : Nat} {mem : Nat → UInt8}

theorem flat_writes (g : Nat → UInt8) : ∀ (l : List Nat) (mem : Nat → UInt8), (∀ i ∈ l, i < size) →
    (loop (fun _ i => Code.write i (g i)) l ()).flat size mem = some ((), fun a => if a ∈ l then g a else mem a)
  | [], mem, _ => by simp [loop, Code.flat]
  | i :: l, mem, h => by
    rw [loop, flat_bind, flat_write (h i List.mem_cons_self), Option.bind_some,
      flat_writes g l _ (fun j hj => h j (List.mem_cons_of_mem i hj))]
    refine congrArg some (Prod.ext rfl (funext (fun a => ?_)))
    by_cases hl : a ∈ l
    · simp [hl]
    · by_cases ha : a = i <;> simp [hl, ha]

theorem flat_sum : ∀ (l : List Nat) (total : UInt32), (∀ i ∈ l, i < size) →
    (loop (fun total i => (Code.read i).bind (fun v => .ret (total + v.toUInt32))) l total).flat size mem =
      some (total + UInt32.ofNat ((l.map (fun i => (mem i).toNat)).sum), mem)
  | [], total, _ => by simp [loop, Code.flat]
  | i :: l, total, h => by
    have hi : (mem i).toUInt32 = UInt32.ofNat (mem i).toNat := (UInt32.ofNat_uInt8ToNat _).symm
    rw [loop, flat_bind, flat_bind, flat_read (h i List.mem_cons_self), Option.bind_some, Code.flat, Option.bind_some,
      flat_sum l _ (fun j hj => h j (List.mem_cons_of_mem i hj)), hi, List.map_cons, List.sum_cons, UInt32.ofNat_add,
      UInt32.add_assoc]

theorem flat_rounds {length : UInt32} (h : length.toNat ≤ size) : ∀ (l : List Nat) (total : UInt32),
    (loop (fun total _ => scanSum length total) l total).flat size mem =
      some (total + UInt32.ofNat (l.length * ((List.range length.toNat).map (fun i => (mem i).toNat)).sum), mem)
  | [], total => by simp [loop, Code.flat]
  | _ :: l, total => by
    have hsum := @flat_sum size mem (List.range length.toNat) total
      (fun i hi => Nat.lt_of_lt_of_le (List.mem_range.1 hi) h)
    rw [loop, flat_bind, show (scanSum length total).flat size mem = _ from hsum, Option.bind_some, flat_rounds h l,
      List.length_cons, Nat.succ_mul, Nat.add_comm (_ * _), UInt32.ofNat_add, UInt32.add_assoc]

/-- **Ten times the sum of the bytes written.** -/
theorem scanProgram_flat {length : UInt32} (h : length.toNat ≤ size) :
    ((scanProgram length).flat size mem).map Prod.fst =
      some (UInt32.ofNat (10 * ((List.range length.toNat).map (· % 256)).sum)) := by
  have hin : ∀ i ∈ List.range length.toNat, i < size := fun i hi => Nat.lt_of_lt_of_le (List.mem_range.1 hi) h
  have hwrite : (scanWrite length).flat size mem = _ := flat_writes _ _ mem hin
  have hsum : (List.range length.toNat).map (fun i => ((fun a => if a ∈ List.range length.toNat then
      UInt8.ofNat (a % 256) else mem a) i).toNat) = (List.range length.toNat).map (· % 256) := by
    refine List.map_congr_left (fun i hi => ?_)
    dsimp only
    rw [if_pos hi, UInt8.toNat_ofNat', Nat.mod_mod]
  have hprog : scanProgram length = (scanWrite length).bind (fun _ =>
      loop (fun total _ => scanSum length total) (List.range 10) 0) := rfl
  rw [hprog, flat_bind, hwrite, Option.bind_some, flat_rounds h, hsum,
    List.length_range, Option.map_some, UInt32.zero_add]

/-- The file is stored up to its first byte 255, if it fits. -/
theorem storeFile_flat : ∀ (input : List UInt8) (i : Nat) (mem : Nat → UInt8), i ≤ size →
    (storeFile input i).flat size mem = if i + (input.takeWhile (· ≠ 255)).length ≤ size then
      some ((storeText mem input i).2, (storeText mem input i).1) else none
  | [], i, mem, h => by simp [storeFile, Code.flat, storeText, h]
  | symbol :: r, i, mem, h => by
    rw [storeFile, storeText]
    by_cases hs : symbol = 255
    · simp [hs, Code.flat, h]
    · rw [if_neg hs, if_neg hs, List.takeWhile_cons_of_pos (by simp [hs]), Code.flat, List.length_cons]
      by_cases hi : i < size
      · rw [if_pos hi, storeFile_flat r (i + 1) _ hi, Nat.add_assoc, Nat.add_comm 1]
      · rw [if_neg hi, if_neg (by omega)]

theorem countFile_flat : ∀ (k index : Nat) (prev : UInt8) (count : Nat), index + k ≤ size →
    (countFile k index prev count).flat size mem = some (countLoop mem k index prev count, mem)
  | 0, _, _, _, _ => rfl
  | k + 1, index, prev, count, h => by
    have hi : index < size := by omega
    have hprog : countFile (k + 1) index prev count = (Code.read index).bind (fun cur => (Code.read index).bind
        (fun next => countFile k (index + 1) next (if isWord prev cur then count + 1 else count))) := rfl
    rw [hprog, flat_bind, flat_read hi, Option.bind_some, flat_bind, flat_read hi, Option.bind_some,
      countFile_flat k (index + 1) _ _ (by omega), countLoop]

/-- The loop that counts reads no other byte than those it is told to. -/
theorem countLoop_congr {mem mem' : Nat → UInt8} : ∀ (k index : Nat) (prev : UInt8) (count : Nat),
    (∀ i < index + k, mem i = mem' i) → countLoop mem k index prev count = countLoop mem' k index prev count
  | 0, _, _, _, _ => rfl
  | k + 1, index, prev, count, h => by
    rw [countLoop, countLoop, h index (by omega)]
    exact countLoop_congr k (index + 1) _ _ (fun i hi => h i (by omega))

/-- What stood in memory before does not matter to the bytes stored. -/
theorem storeText_congr : ∀ (input : List UInt8) (i : Nat) {mem mem' : Nat → UInt8}, (∀ a < i, mem a = mem' a) →
    (storeText mem input i).2 = (storeText mem' input i).2 ∧
      ∀ a < (storeText mem input i).2, (storeText mem input i).1 a = (storeText mem' input i).1 a
  | [], i, mem, mem', h => ⟨rfl, h⟩
  | symbol :: r, i, mem, mem', h => by
    rw [storeText, storeText]
    split
    · exact ⟨rfl, h⟩
    · refine storeText_congr r (i + 1) (fun a ha => ?_)
      by_cases hai : a = i
      · simp [hai]
      · rw [Function.update_of_ne hai, Function.update_of_ne hai, h a (by omega)]

theorem storeText_snd : ∀ (input : List UInt8) (i : Nat) (mem : Nat → UInt8),
    (storeText mem input i).2 = i + (input.takeWhile (· ≠ 255)).length
  | [], i, mem => rfl
  | symbol :: r, i, mem => by
    rw [storeText]
    by_cases hs : symbol = 255
    · simp [hs]
    · rw [if_neg hs, storeText_snd r (i + 1), List.takeWhile_cons_of_pos (by simp [hs]), List.length_cons]
      omega

/-- **The words of the file, if it fits.** -/
theorem wcProgram_flat (input : List UInt8) :
    ((wcProgram input).flat size mem).map Prod.fst =
      if (input.takeWhile (· ≠ 255)).length ≤ size then some (WordCount.wcProgram input) else none := by
  have hprog : wcProgram input = (storeFile input 0).bind (fun fsize => countFile fsize 0 32 0) := rfl
  rw [hprog, flat_bind, storeFile_flat input 0 mem (Nat.zero_le size), Nat.zero_add]
  by_cases hfit : (input.takeWhile (· ≠ 255)).length ≤ size
  · obtain ⟨hsize, hmem⟩ := @storeText_congr input 0 mem (fun _ => 0) (fun a ha => absurd ha a.not_lt_zero)
    have hlen : (storeText mem input 0).2 ≤ size := by rw [storeText_snd]; omega
    rw [if_pos hfit, if_pos hfit, Option.bind_some, countFile_flat _ 0 32 0 (by omega), Option.map_some,
      countLoop_congr _ 0 32 0 (fun i hi => hmem i (by omega)), hsize]
    rfl
  · rw [if_neg hfit, if_neg hfit]
    rfl

end Flat

/-! ## Paged -/

section Paged

variable {B npages : Nat} [NeZero B] {bs : BackingStore B npages}

/-- **`scan` adds up what it has written**, under every policy: ten times the sum of the byte values of the addresses,
of as many bytes as an `int` can say. -/
theorem scan_paged (pol : Policy) {nframes : Nat} (hn : 1 ≤ nframes) (hfit : AgesFit pol nframes npages)
    (store : bs.State) (physmem : Nat → Block B) (rands : Nat → Nat) (fuel : Nat) :
    ((scanProgram (UInt32.ofNat (npages * B))).paged bs pol (fuel + 3)
        (initVirtualMemory bs nframes store physmem rands)).map Prod.fst =
      some (UInt32.ofNat (10 * ((List.range (npages * B % 2 ^ 32)).map (· % 256)).sum)) := by
  have hlen : (UInt32.ofNat (npages * B)).toNat = npages * B % 2 ^ 32 := UInt32.toNat_ofNat'
  refine (backs_initVirtualMemory hn hfit store physmem rands).result fuel _ ?_
  rw [scanProgram_flat (by rw [hlen]; exact Nat.mod_le _ _), hlen]

theorem scan_paged_three :
    ((scanProgram (UInt32.ofNat (3 * 2))).paged (memStore 2 3) .lru 3
        (initVirtualMemory (memStore 2 3) 2 (fun _ _ => 9) (fun _ _ => 1) (fun _ => 0))).map Prod.fst = some 150 :=
  (scan_paged .lru (by decide) Policy.noConfusion _ _ _ 0).trans (by decide)

/-- **`wc` counts the words of the file**, under every policy and whatever the backing store held, if the file up to its
first byte 255 fits into the virtual memory. -/
theorem wc_paged (pol : Policy) {nframes : Nat} (hn : 1 ≤ nframes) (hfit : AgesFit pol nframes npages)
    (store : bs.State) (physmem : Nat → Block B) (rands : Nat → Nat) (fuel : Nat) (input : List UInt8)
    (hsize : (input.takeWhile (· ≠ 255)).length ≤ npages * B) :
    ((wcProgram input).paged bs pol (fuel + 3) (initVirtualMemory bs nframes store physmem rands)).map Prod.fst =
      some (WordCount.wcProgram input) := by
  refine (backs_initVirtualMemory hn hfit store physmem rands).result fuel _ ?_
  rw [wcProgram_flat, if_pos hsize]

theorem wc_paged_two :
    ((wcProgram [104, 105, 32, 33, 10]).paged (memStore 2 3) .rand 3
        (initVirtualMemory (memStore 2 3) 1 (fun _ _ => 9) (fun _ _ => 1) (fun _ => 0))).map Prod.fst = some 2 :=
  (wc_paged .rand (by decide) Policy.noConfusion _ _ _ 0 _ (by decide)).trans (by decide)

end Paged

end RmemTest
end Bb
