import BlueBridge.CString
import Mathlib.Algebra.BigOperators.Group.Finset.Basic
import Mathlib.Order.Interval.Finset.Nat
/-!
# WordCount — the word count, whole and in chunks (`ip6/apps/rmem_test.c`)

A word ends at a space that a graphic character stands before.  `wc_program` goes over the text once;
`wc_program_threads` cuts it into chunks, counts each with its own `prev = ' '` and adds the counts up.  So a thread
does not see a word end at the first byte of its chunk, and the chunks count what the whole text does exactly if no word
ends where a chunk begins and the `int` lengths leave nothing out (`threads_count_iff`).

The virtual memory is its contents.  The threads share it but write to their own `thread_data_t` only, so the order in
which they run does not matter and they are evaluated one after the other.  A `char` is signed: a byte from 128 on is
negative and neither a space nor graphic.
-/
namespace Bb
namespace WordCount

open CString (isspace)

def intMax : Nat := 2 ^ 31 - 1

/-- The conversion of a `uint64_t` to `int`. -/
def toInt (x : Nat) : Int := if x % 2 ^ 32 < 2 ^ 31 then x % 2 ^ 32 else x % 2 ^ 32 - 2 ^ 32

/-- An addition of `int`s that are not negative. -/
def intAdd (a b : Nat) : Option Nat := if a + b ≤ intMax then some (a + b) else none

def isgraph (c : UInt8) : Bool := 33 ≤ c && c ≤ 126

def isWord (prev cur : UInt8) : Bool := isspace cur && isgraph prev

/-! ## The programs -/

structure ThreadData where
  tid : Nat
  data : Nat
  length : Int
  count : Nat

/-- The loop of `wc`: so many bytes are left, from address `p` on. -/
def wcLoop (cdata : Nat → UInt8) : Nat → Nat → UInt8 → Nat → Option Nat
  | 0,     _, _,    count => some count
  | k + 1, p, prev, count => do
    let count ← if isspace (cdata p) && isgraph prev then intAdd count 1 else some count
    wcLoop cdata k (p + 1) (cdata p) count

def wc (cdata : Nat → UInt8) (data : ThreadData) : Option ThreadData := do
  let count ← wcLoop cdata data.length.toNat data.data 32 data.count
  some { data with count := count }

/-- The loop that stores the file: a byte 255 is `EOF` as a `char`. -/
def storeText (cdata : Nat → UInt8) : List UInt8 → Nat → (Nat → UInt8) × Nat
  | [],          fSize => (cdata, fSize)
  | symbol :: r, fSize =>
    if symbol = 255 then (cdata, fSize) else storeText (Function.update cdata fSize symbol) r (fSize + 1)

/-- The bytes for each thread, rounded up to whole blocks, and `split`, the same as a `uint64_t`. -/
def chunk (B T fSize : Nat) : Nat := fSize / T + (B - fSize / T % B)

def split (B T fSize : Nat) : Nat := chunk B T fSize % 2 ^ 64

def threadData (B T fSize i : Nat) : ThreadData :=
  let offset := split B T fSize * i % 2 ^ 64
  { tid := i
    data := offset
    length := if i = T - 1 then toInt ((fSize + 2 ^ 64 - offset) % 2 ^ 64) else toInt (split B T fSize)
    count := 0 }

/-- `wc_program_threads` after the text is stored: the chunks, the threads and the sum after they are joined. -/
def countThreads (B T : Nat) (cdata : Nat → UInt8) (fSize : Nat) : Option Nat := do
  let thrData ← ((List.range T).map (threadData B T fSize)).mapM (wc cdata)
  thrData.foldlM (fun count d => intAdd count d.count) 0

/-- The loop of `wc_program`. -/
def countLoop (cdata : Nat → UInt8) : Nat → Nat → UInt8 → Nat → Nat
  | 0,     _,     _,    count => count
  | k + 1, index, prev, count =>
    countLoop cdata k (index + 1) (cdata index) (if isWord prev (cdata index) then count + 1 else count)

def countWords (cdata : Nat → UInt8) (fsize : Nat) : Nat := countLoop cdata fsize 0 32 0

def wcProgramThreads (B T : Nat) (input : List UInt8) : Option Nat :=
  let (cdata, fSize) := storeText (fun _ => 0) input 0
  countThreads B T cdata fSize

def wcProgram (input : List UInt8) : Nat :=
  let (cdata, fsize) := storeText (fun _ => 0) input 0
  countWords cdata fsize

/-- A text at the start of memory that is zero behind it. -/
def stored (text : List UInt8) (i : Nat) : UInt8 := text.getD i 0

theorem stored_snoc (text : List UInt8) (symbol : UInt8) :
    Function.update (stored text) text.length symbol = stored (text ++ [symbol]) := by
  funext i
  by_cases hi : i = text.length
  · simp [hi, stored]
  · rw [Function.update_of_ne hi, stored, stored, List.getD_eq_getElem?_getD, List.getD_eq_getElem?_getD]
    rcases Nat.lt_or_gt_of_ne hi with hlt | hgt
    · rw [List.getElem?_append_left hlt]
    · rw [List.getElem?_eq_none (by omega), List.getElem?_eq_none (by simp; omega)]

/-- The loop stores the file up to its first byte 255. -/
theorem storeText_stored : ∀ (input text : List UInt8),
    storeText (stored text) input text.length =
      (stored (text ++ input.takeWhile (· ≠ 255)), (text ++ input.takeWhile (· ≠ 255)).length)
  | [],          text => by simp [storeText]
  | symbol :: r, text => by
    rw [storeText]
    by_cases hs : symbol = 255
    · simp [hs]
    · have hlen : text.length + 1 = (text ++ [symbol]).length := by simp
      rw [if_neg hs, stored_snoc, hlen, storeText_stored r (text ++ [symbol]), List.takeWhile_cons_of_pos (by simp [hs])]
      simp

/-- **Both programs count the text that the file's loop has stored.** -/
theorem programs_eq (B T : Nat) (input : List UInt8) :
    wcProgramThreads B T input =
        countThreads B T (stored (input.takeWhile (· ≠ 255))) (input.takeWhile (· ≠ 255)).length ∧
      wcProgram input = countWords (stored (input.takeWhile (· ≠ 255))) (input.takeWhile (· ≠ 255)).length := by
  have hstore : storeText (fun _ => 0) input 0 = _ := storeText_stored input []
  rw [wcProgramThreads, wcProgram, hstore, List.nil_append]
  exact ⟨rfl, rfl⟩

/-! ## Word ends -/

def endsWord (cdata : Nat → UInt8) (i : Nat) : Bool := 0 < i && isWord (cdata (i - 1)) (cdata i)

section Loops

variable (cdata : Nat → UInt8)

theorem countLoop_eq : ∀ (k p : Nat) (count : Nat),
    countLoop cdata k (p + 1) (cdata p) count = count + (List.range' (p + 1) k).countP (endsWord cdata)
  | 0,     _, _     => rfl
  | k + 1, p, count => by
    rw [countLoop, countLoop_eq k (p + 1), List.range'_succ, List.countP_cons]
    have hend : endsWord cdata (p + 1) = isWord (cdata p) (cdata (p + 1)) := by simp [endsWord]
    rw [hend]
    split <;> omega

theorem wcLoop_eq : ∀ (k p : Nat) (count : Nat), count + k ≤ intMax →
    wcLoop cdata k (p + 1) (cdata p) count = some (count + (List.range' (p + 1) k).countP (endsWord cdata))
  | 0,     _, _,     _ => rfl
  | k + 1, p, count, h => by
    have hend : endsWord cdata (p + 1) = (isspace (cdata (p + 1)) && isgraph (cdata p)) := by simp [endsWord, isWord]
    rw [wcLoop, List.range'_succ, List.countP_cons, ← hend]
    by_cases hw : endsWord cdata (p + 1) = true
    · have hadd : intAdd count 1 = some (count + 1) := if_pos (by omega)
      simp only [hw, if_true, hadd, Option.bind_eq_bind, Option.bind_some]
      rw [wcLoop_eq k (p + 1) (count + 1) (by omega)]
      simp
      omega
    · simp only [hw, Option.bind_eq_bind, Option.bind_some]
      rw [wcLoop_eq k (p + 1) count (by omega)]
      simp

/-- **The word ends strictly inside a chunk** are what a count that starts with a space sees. -/
theorem countWords_eq (n : Nat) : countWords cdata n = (List.range' 1 (n - 1)).countP (endsWord cdata) := by
  cases n with
  | zero   => rfl
  | succ n =>
    have hfirst : isWord 32 (cdata 0) = false := by simp [isWord, isgraph]
    rw [countWords, countLoop, hfirst, countLoop_eq]
    simp

theorem wc_eq (d : ThreadData) (hlen : d.length.toNat ≤ intMax) (hcount : d.count = 0) :
    wc cdata d = some { d with count := (List.range' (d.data + 1) (d.length.toNat - 1)).countP (endsWord cdata) } := by
  rw [wc, hcount]
  cases hk : d.length.toNat with
  | zero   => simp [wcLoop]
  | succ k =>
    rw [hk] at hlen
    have hfirst : (isspace (cdata d.data) && isgraph 32) = false := by simp [isgraph]
    rw [wcLoop, hfirst]
    simp only [Option.bind_eq_bind, Option.bind_some]
    rw [wcLoop_eq cdata k d.data 0 (by omega)]
    simp

end Loops

/-! ## Sets of word ends -/

section Ends

variable (cdata : Nat → UInt8)

/-- The word ends from `a` up to `b`. -/
def wordEnds (a b : Nat) : Finset Nat := (Finset.Ico a b).filter (fun i => endsWord cdata i = true)

theorem mem_wordEnds {a b i : Nat} : i ∈ wordEnds cdata a b ↔ (a ≤ i ∧ i < b) ∧ endsWord cdata i = true := by
  rw [wordEnds, Finset.mem_filter, Finset.mem_Ico]

theorem countP_endsWord (a l : Nat) : (List.range' a l).countP (endsWord cdata) = (wordEnds cdata a (a + l)).card := by
  rw [wordEnds, Nat.Ico_eq_range', Nat.add_sub_cancel_left, List.countP_eq_length_filter]
  simp [Finset.filter, Finset.card]

theorem card_countWords (n : Nat) : countWords cdata n = (wordEnds cdata 0 n).card := by
  rw [countWords_eq, countP_endsWord]
  congr 1
  ext i
  have hpos : endsWord cdata i = true → 0 < i := fun h => by simp_all [endsWord]
  rw [mem_wordEnds, mem_wordEnds]
  constructor
  · rintro ⟨hi, hw⟩
    exact ⟨by omega, hw⟩
  · rintro ⟨hi, hw⟩
    have := hpos hw
    exact ⟨by omega, hw⟩

/-- The word ends a thread sees. -/
def seen (d : ThreadData) : Finset Nat := wordEnds cdata (d.data + 1) (d.data + d.length.toNat)

theorem wc_seen (d : ThreadData) (hlen : d.length.toNat ≤ intMax) (hcount : d.count = 0) :
    wc cdata d = some { d with count := (seen cdata d).card } := by
  rw [wc_eq cdata d hlen hcount, countP_endsWord, seen]
  cases d.length.toNat with
  | zero   => simp [wordEnds]
  | succ k => rw [Nat.add_sub_cancel, Nat.add_assoc, Nat.add_comm 1 k]

end Ends

/-! ## The sum -/

theorem foldlM_intAdd : ∀ (ds : List ThreadData) {count : Nat}, count ≤ intMax →
    ds.foldlM (fun count d => intAdd count d.count) count =
      if count + (ds.map ThreadData.count).sum ≤ intMax then some (count + (ds.map ThreadData.count).sum) else none
  | [],      count, h => by simp [h]
  | d :: ds, count, _ => by
    rw [List.foldlM_cons, List.map_cons, List.sum_cons, ← Nat.add_assoc]
    by_cases hd : count + d.count ≤ intMax
    · have hadd : intAdd count d.count = some (count + d.count) := if_pos hd
      rw [hadd]
      exact foldlM_intAdd ds hd
    · have hadd : intAdd count d.count = none := if_neg hd
      rw [hadd, if_neg (by omega)]
      rfl

section Chunks

variable {B T n k : Nat}

theorem toInt_toNat_le (x : Nat) : (toInt x).toNat ≤ x ∧ (toInt x).toNat ≤ intMax := by
  unfold toInt intMax
  split <;> omega

theorem toInt_eq {x : Nat} (h : x ≤ intMax) : toInt x = x := by
  unfold intMax at h
  unfold toInt
  rw [if_pos (by omega)]
  omega

theorem length_le_intMax (B T n k : Nat) : (threadData B T n k).length.toNat ≤ intMax := by
  unfold threadData
  split
  · exact (toInt_toNat_le _).2
  · exact (toInt_toNat_le _).2

/-- **The program's sum**, if it is an `int`. -/
theorem countThreads_eq (B T : Nat) (cdata : Nat → UInt8) (n : Nat) :
    countThreads B T cdata n =
      if ∑ k ∈ Finset.range T, (seen cdata (threadData B T n k)).card ≤ intMax then
        some (∑ k ∈ Finset.range T, (seen cdata (threadData B T n k)).card) else none := by
  have hwc : ((List.range T).map (threadData B T n)).mapM (wc cdata) =
      some ((List.range T).map (fun k => { threadData B T n k with count := (seen cdata (threadData B T n k)).card })) := by
    have hfun : wc cdata ∘ threadData B T n =
        fun k => pure { threadData B T n k with count := (seen cdata (threadData B T n k)).card } := by
      funext k
      exact wc_seen cdata _ (length_le_intMax B T n k) rfl
    rw [List.mapM_map, hfun, List.mapM_pure]
    rfl
  rw [countThreads, hwc]
  simp only [Option.bind_eq_bind, Option.bind_some]
  rw [foldlM_intAdd _ (Nat.zero_le _), List.map_map, Nat.zero_add]
  rfl

theorem lt_chunk_mul (hB : 1 ≤ B) (hT : 1 ≤ T) : n < T * chunk B T n := by
  have hdiv := Nat.lt_mul_div_succ n hT
  have hmod := Nat.mod_lt (n / T) hB
  have hle : n / T + 1 ≤ chunk B T n := by
    unfold chunk
    omega
  exact Nat.lt_of_lt_of_le hdiv (Nat.mul_le_mul_left T hle)

section Fits

variable (hmem : T * chunk B T n < 2 ^ 64)

include hmem

theorem split_eq (hT : 1 ≤ T) : split B T n = chunk B T n :=
  Nat.mod_eq_of_lt (Nat.lt_of_le_of_lt (Nat.le_mul_of_pos_left _ hT) hmem)

theorem threadData_data (hk : k < T) : (threadData B T n k).data = chunk B T n * k := by
  have hle : chunk B T n * k ≤ T * chunk B T n := by
    rw [Nat.mul_comm]
    exact Nat.mul_le_mul_right _ (Nat.le_of_lt hk)
  show split B T n * k % 2 ^ 64 = _
  rw [split_eq hmem (by omega)]
  exact Nat.mod_eq_of_lt (Nat.lt_of_le_of_lt hle hmem)

/-- A chunk ends before the next one begins. -/
theorem seen_lt {cdata : Nat → UInt8} {i : Nat} (hk : k + 1 < T) (hi : i ∈ seen cdata (threadData B T n k)) :
    i < chunk B T n * (k + 1) := by
  obtain ⟨⟨-, hlt⟩, -⟩ := (mem_wordEnds cdata).1 hi
  have hlen : (threadData B T n k).length = toInt (split B T n) := if_neg (by omega)
  have hle := (toInt_toNat_le (split B T n)).1
  rw [threadData_data hmem (by omega), hlen] at hlt
  rw [split_eq hmem (by omega)] at hlt hle
  rw [Nat.mul_succ]
  omega

theorem seen_disjoint (cdata : Nat → UInt8) :
    (Finset.range T : Set Nat).PairwiseDisjoint (fun k => seen cdata (threadData B T n k)) := by
  have hlt : ∀ j k, j < k → k < T → Disjoint (seen cdata (threadData B T n j)) (seen cdata (threadData B T n k)) := by
    intro j k hjk hk
    rw [Finset.disjoint_left]
    intro i hj hik
    obtain ⟨⟨hge, -⟩, -⟩ := (mem_wordEnds cdata).1 hik
    have hnext := seen_lt hmem (by omega) hj
    have hle : chunk B T n * (j + 1) ≤ chunk B T n * k := Nat.mul_le_mul_left _ hjk
    rw [threadData_data hmem hk] at hge
    omega
  intro j hj k hk hne
  rw [Finset.coe_range, Set.mem_Iio] at hj hk
  rcases Nat.lt_or_gt_of_ne hne with h | h
  · exact hlt j k h hk
  · exact (hlt k j h hj).symm

end Fits

theorem endsWord_lt {text : List UInt8} {i : Nat} (h : endsWord (stored text) i = true) : i < text.length := by
  by_contra hge
  have hzero : stored text i = 0 := by
    rw [stored, List.getD_eq_getElem?_getD, List.getElem?_eq_none (Nat.not_lt.1 hge)]
    rfl
  simp [endsWord, isWord, hzero, isspace] at h

end Chunks

/-! ## Whole and in chunks -/

section Compare

variable {B T : Nat} {text : List UInt8}

/-- A thread sees every word end behind the first byte of its chunk. -/
def Covered (B T n : Nat) (cdata : Nat → UInt8) : Prop :=
  ∀ i, endsWord cdata i = true → ∃ k < T, (threadData B T n k).data < i ∧
    (i : Int) < (threadData B T n k).data + (threadData B T n k).length

/-- **The chunks count no word twice**, and all of them if they cover all word ends. -/
theorem sum_seen_eq_iff (hmem : T * chunk B T text.length < 2 ^ 64) :
    ∑ k ∈ Finset.range T, (seen (stored text) (threadData B T text.length k)).card =
      countWords (stored text) text.length ↔ Covered B T text.length (stored text) := by
  rw [card_countWords, ← Finset.card_biUnion (seen_disjoint hmem (stored text))]
  have hmem_seen : ∀ {i k}, i ∈ seen (stored text) (threadData B T text.length k) ↔
      ((threadData B T text.length k).data < i ∧
        (i : Int) < (threadData B T text.length k).data + (threadData B T text.length k).length) ∧
      endsWord (stored text) i = true := by
    intro i k
    rw [seen, mem_wordEnds]
    exact and_congr_left (fun _ => by omega)
  have hsub : (Finset.range T).biUnion (fun k => seen (stored text) (threadData B T text.length k)) ⊆
      wordEnds (stored text) 0 text.length := by
    intro i hi
    obtain ⟨k, -, hik⟩ := Finset.mem_biUnion.1 hi
    have hw := (hmem_seen.1 hik).2
    exact (mem_wordEnds _).2 ⟨⟨Nat.zero_le _, endsWord_lt hw⟩, hw⟩
  constructor
  · intro hcard i hw
    have hall := Finset.eq_of_subset_of_card_le hsub (Nat.le_of_eq hcard.symm)
    have hi : i ∈ wordEnds (stored text) 0 text.length := (mem_wordEnds _).2 ⟨⟨Nat.zero_le _, endsWord_lt hw⟩, hw⟩
    rw [← hall] at hi
    obtain ⟨k, hk, hik⟩ := Finset.mem_biUnion.1 hi
    exact ⟨k, Finset.mem_range.1 hk, (hmem_seen.1 hik).1⟩
  · intro hcov
    apply congrArg Finset.card
    apply Finset.Subset.antisymm hsub
    intro i hi
    have hw := ((mem_wordEnds _).1 hi).2
    obtain ⟨k, hk, hin⟩ := hcov i hw
    exact Finset.mem_biUnion.2 ⟨k, Finset.mem_range.2 hk, hmem_seen.2 ⟨hin, hw⟩⟩

theorem countWords_le (cdata : Nat → UInt8) (n : Nat) : countWords cdata n ≤ n := by
  rw [card_countWords]
  calc (wordEnds cdata 0 n).card ≤ (Finset.Ico 0 n).card := Finset.card_filter_le _ _
    _ = n := by simp

section Ints

variable (hB : 1 ≤ B) (hT : 1 ≤ T) (hmem : T * chunk B T text.length < 2 ^ 64) (hn : text.length ≤ intMax)
  (hc : chunk B T text.length ≤ intMax)

include hT hmem hn hc

theorem threadData_length {k : Nat} (hk : k < T) (hle : chunk B T text.length * k ≤ text.length) :
    (threadData B T text.length k).length =
      if k = T - 1 then ((text.length - chunk B T text.length * k : Nat) : Int) else chunk B T text.length := by
  have hsub : (text.length + 2 ^ 64 - chunk B T text.length * k) % 2 ^ 64 = text.length - chunk B T text.length * k := by
    unfold intMax at hn
    omega
  have hint : text.length - chunk B T text.length * k ≤ intMax := by omega
  rw [← toInt_eq hint, ← toInt_eq hc, ← hsub, ← threadData_data hmem hk, ← split_eq hmem hT]
  rfl

theorem not_endsWord_of_covered (hcov : Covered B T text.length (stored text)) {k : Nat} (hkT : k < T) :
    endsWord (stored text) (k * chunk B T text.length) = false := by
  by_contra hw
  rw [Bool.not_eq_false] at hw
  obtain ⟨j, hj, hlo, hhi⟩ := hcov _ hw
  have hlt := endsWord_lt hw
  rw [threadData_data hmem hj] at hlo hhi
  rw [Nat.mul_comm k] at hlo hhi hlt
  have hjk : j < k := Nat.lt_of_mul_lt_mul_left hlo
  have hle : chunk B T text.length * (j + 1) ≤ chunk B T text.length * k := Nat.mul_le_mul_left _ hjk
  rw [Nat.mul_succ] at hle
  rw [threadData_length hT hmem hn hc hj (by omega), if_neg (by omega)] at hhi
  omega

include hB

theorem covered_of_not_endsWord
    (hstart : ∀ k, 0 < k → k < T → endsWord (stored text) (k * chunk B T text.length) = false) :
    Covered B T text.length (stored text) := by
  intro i hw
  have hin := endsWord_lt hw
  have hlt := lt_chunk_mul (n := text.length) hB hT
  have hcpos : 0 < chunk B T text.length := Nat.pos_of_mul_pos_left (Nat.zero_lt_of_lt hlt)
  -- the chunk that `i` falls into
  obtain ⟨k, hk⟩ : ∃ k, k = i / chunk B T text.length := ⟨_, rfl⟩
  have hle : chunk B T text.length * k ≤ i := hk ▸ Nat.mul_div_le i _
  have hnext : i < chunk B T text.length * (k + 1) := hk ▸ Nat.lt_mul_div_succ i hcpos
  have hkT : k < T := by
    rw [hk]
    exact Nat.div_lt_of_lt_mul (by rw [Nat.mul_comm]; omega)
  have hne : chunk B T text.length * k ≠ i := by
    rintro rfl
    rcases Nat.eq_zero_or_pos k with rfl | hpos
    · simp [endsWord] at hw
    · rw [Nat.mul_comm, hstart k hpos hkT] at hw
      cases hw
  rw [Nat.mul_succ] at hnext
  refine ⟨k, hkT, ?_, ?_⟩
  · rw [threadData_data hmem hkT]
    omega
  · rw [threadData_data hmem hkT, threadData_length hT hmem hn hc hkT (by omega)]
    split <;> omega

end Ints

/-- **The threads count what one pass counts** exactly if each of them sees the word ends of its chunk: for texts and
chunks within an `int`, exactly if no word ends where a chunk begins. -/
theorem threads_count_iff (hB : 1 ≤ B) (hT : 1 ≤ T) (text : List UInt8) (hmem : T * chunk B T text.length < 2 ^ 64) :
    (countThreads B T (stored text) text.length = some (countWords (stored text) text.length) ↔
      Covered B T text.length (stored text) ∧ countWords (stored text) text.length ≤ intMax) ∧
    (text.length ≤ intMax → chunk B T text.length ≤ intMax →
      (countThreads B T (stored text) text.length = some (countWords (stored text) text.length) ↔
        ∀ k, 0 < k → k < T → endsWord (stored text) (k * chunk B T text.length) = false)) := by
  have hiff : countThreads B T (stored text) text.length = some (countWords (stored text) text.length) ↔
      Covered B T text.length (stored text) ∧ countWords (stored text) text.length ≤ intMax := by
    rw [countThreads_eq, ← sum_seen_eq_iff hmem]
    constructor
    · intro h
      split at h
      · have heq := Option.some.inj h
        exact ⟨heq, heq ▸ ‹_›⟩
      · cases h
    · rintro ⟨heq, hle⟩
      rw [heq, if_pos hle]
  refine ⟨hiff, fun hn hc => ?_⟩
  rw [hiff, and_iff_left (Nat.le_trans (countWords_le _ _) hn)]
  constructor
  · intro hcov k _ hkT
    exact not_endsWord_of_covered hT hmem hn hc hcov hkT
  · exact covered_of_not_endsWord hB hT hmem hn hc

/-- Eight threads and blocks of a byte: `a b c d ` in chunks of two bytes. -/
theorem threads_count_four : countThreads 1 8 (stored [97, 32, 98, 32, 99, 32, 100, 32]) 8 = some 4 := by
  have hstart : ∀ k < 8, endsWord (stored [97, 32, 98, 32, 99, 32, 100, 32]) (k * chunk 1 8 8) = false := by decide
  exact ((threads_count_iff (by decide) (by decide) [97, 32, 98, 32, 99, 32, 100, 32] (by decide)).2 (by decide)
    (by decide)).2 (fun k _ hk => hstart k hk)

/-- The constants of the source: eight threads, blocks of a byte, and the text `ab cd ef`.  The first word ends at byte 2,
where the second chunk begins. -/
theorem threads_miss_word : countWords (stored [97, 98, 32, 99, 100, 32, 101, 102]) 8 = 2 ∧
    countThreads 1 8 (stored [97, 98, 32, 99, 100, 32, 101, 102]) 8 = some 1 := by decide

end Compare

end WordCount
end Bb
