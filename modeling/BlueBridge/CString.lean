import BlueBridge.Bytes
/-!
# CString — terminated strings in buffers of a fixed size

A buffer is a memory of which the first `size` bytes are there, and the string at `p` goes up to the next byte 0 below
`size`.  A read that finds none has left the buffer and is `none`.  `IsStr size b p s` says that `s` is the string at
`p`; it is what a write, a cut or a step forward is followed through with.
-/
namespace Bb
namespace CString

open Bytes
open Function (update update_self update_of_ne)

def ascii (s : String) : List UInt8 := s.toList.map (fun c => UInt8.ofNat c.toNat)

/-! ## Strings -/

def strFrom (b : Nat → UInt8) : Nat → Nat → Option (List UInt8)
  | 0,     _ => none
  | n + 1, p => if b p = 0 then some [] else (strFrom b n (p + 1)).map (b p :: ·)

/-- The string at `p`, read byte by byte. -/
def str (size : Nat) (b : Nat → UInt8) (p : Nat) : Option (List UInt8) := strFrom b (size - p) p

structure IsStr (size : Nat) (b : Nat → UInt8) (p : Nat) (s : List UInt8) : Prop where
  fits : p + s.length < size
  bytes : readBytes b p s.length = s
  stop : b (p + s.length) = 0
  plain : 0 ∉ s

section Strings

variable {size p : Nat} {b : Nat → UInt8} {s u v : List UInt8} {c : UInt8}

theorem readBytes_succ (b : Nat → UInt8) (p n : Nat) : readBytes b p (n + 1) = b p :: readBytes b (p + 1) n := by
  rw [Nat.add_comm, readBytes_add]
  rfl

theorem strFrom_eq : ∀ (s : List UInt8) {n p : Nat}, s.length < n → readBytes b p s.length = s → b (p + s.length) = 0 →
    0 ∉ s → strFrom b n p = some s
  | [],     n + 1, p, _,    _,     hstop, _      => if_pos hstop
  | c :: s, n + 1, p, hlen, hread, hstop, hplain => by
    rw [List.length_cons, readBytes_succ] at hread
    obtain ⟨hc, hs⟩ := List.cons.inj hread
    rw [List.mem_cons, not_or] at hplain
    have hne : b p ≠ 0 := fun h => hplain.1 (h ▸ hc)
    have htail := strFrom_eq s (Nat.lt_of_succ_lt_succ hlen) hs (by rw [← hstop]; congr 1; simp; omega) hplain.2
    rw [strFrom, if_neg hne, htail, Option.map_some, hc]

/-- **A string is read as it is.** -/
theorem IsStr.str_eq (h : IsStr size b p s) : str size b p = some s :=
  strFrom_eq s (by have := h.fits; omega) h.bytes h.stop h.plain

/-- Without a terminator the read leaves the buffer. -/
theorem strFrom_none : ∀ {n p : Nat}, (∀ k < n, b (p + k) ≠ 0) → strFrom b n p = none
  | 0,     _, _ => rfl
  | n + 1, p, h => by
    have htail : strFrom b n (p + 1) = none := strFrom_none (fun k hk => by
      have := h (k + 1) (by omega)
      rwa [Nat.add_comm k 1, ← Nat.add_assoc] at this)
    have hp : b p ≠ 0 := h 0 (Nat.succ_pos n)
    rw [strFrom, if_neg hp, htail, Option.map_none]

/-- What is written with its terminator is a string. -/
theorem isStr_write (b : Nat → UInt8) (p : Nat) (hs : 0 ∉ s) (hfit : p + s.length < size) :
    IsStr size (writeBytes b p (s ++ [0])) p s := by
  have hread : readBytes (writeBytes b p (s ++ [0])) p (s.length + 1) = s ++ [0] := by
    have := readBytes_writeBytes b p (s ++ [0])
    rwa [List.length_append, List.length_singleton] at this
  rw [readBytes_add] at hread
  obtain ⟨hbytes, hstop⟩ := List.append_inj hread (length_readBytes ..)
  exact ⟨hfit, hbytes, (List.cons.inj hstop).1, hs⟩

/-- The rest of a string is a string. -/
theorem IsStr.drop (h : IsStr size b p (u ++ v)) : IsStr size b (p + u.length) v := by
  have hfit := h.fits
  have hread := h.bytes
  have hstop := h.stop
  rw [List.length_append] at hfit hread hstop
  rw [readBytes_add] at hread
  rw [← Nat.add_assoc] at hstop
  obtain ⟨-, hv⟩ := List.append_inj hread (length_readBytes ..)
  exact ⟨by omega, hv, hstop, fun h0 => h.plain (List.mem_append_right _ h0)⟩

/-- A string is cut at one of its bytes. -/
theorem IsStr.cut (h : IsStr size b p (u ++ v)) : IsStr size (update b (p + u.length) 0) p u := by
  have hfit := h.fits
  have hread := h.bytes
  rw [List.length_append] at hfit hread
  rw [readBytes_add] at hread
  obtain ⟨hu, -⟩ := List.append_inj hread (length_readBytes ..)
  constructor
  · omega
  · have hframe : readBytes (update b (p + u.length) 0) p u.length = readBytes b p u.length := by
      apply readBytes_congr
      intro i hi
      rw [update_of_ne (by omega)]
    rw [hframe, hu]
  · exact update_self ..
  · exact fun h0 => h.plain (List.mem_append_left _ h0)

/-- A write in front of a string leaves it. -/
theorem IsStr.update_lt (h : IsStr size b p s) {q : Nat} (hq : q < p) (c : UInt8) : IsStr size (update b q c) p s := by
  constructor
  · exact h.fits
  · have hframe : readBytes (update b q c) p s.length = readBytes b p s.length := by
      apply readBytes_congr
      intro i _
      rw [update_of_ne (by omega)]
    rw [hframe]
    exact h.bytes
  · rw [update_of_ne (by omega)]
    exact h.stop
  · exact h.plain

/-- A string is copied with the bytes behind it. -/
theorem IsStr.copy (h : IsStr size b p s) (m : Nat → UInt8) {n : Nat} (hn : s.length < n) :
    IsStr n (writeBytes m 0 (readBytes b p n)) 0 s := by
  have hread : readBytes (writeBytes m 0 (readBytes b p n)) 0 n = readBytes b p n := by
    have := readBytes_writeBytes m 0 (readBytes b p n)
    rwa [length_readBytes] at this
  constructor
  · omega
  · rw [← take_readBytes _ _ (Nat.le_of_lt hn), hread, take_readBytes _ _ (Nat.le_of_lt hn)]
    exact h.bytes
  · have hstop := congrArg (·.getD s.length 0) hread
    rw [getD_readBytes _ 0 hn, getD_readBytes b p hn] at hstop
    exact hstop.trans h.stop
  · exact h.plain

/-- `strncpy` of a string's own length: the terminator has to be there. -/
theorem isStr_strncpy {m : Nat → UInt8} (hs : 0 ∉ s) (hfit : s.length < size) (hzero : m s.length = 0) :
    IsStr size (writeBytes m 0 s) 0 s := by
  constructor
  · omega
  · exact readBytes_writeBytes m 0 s
  · rw [writeBytes_of_not_mem m (by omega), Nat.zero_add]
    exact hzero
  · exact hs

/-- A string that fills the buffer has no terminator. -/
theorem str_none_of_full (m : Nat → UInt8) (hs : 0 ∉ s) : str s.length (writeBytes m 0 s) 0 = none := by
  apply strFrom_none
  intro k hk
  rw [Nat.sub_zero] at hk
  rw [writeBytes_of_lt m 0 hk, List.getD_eq_getElem?_getD, List.getElem?_eq_getElem hk]
  exact ne_of_mem_of_not_mem (List.getElem_mem hk) hs

end Strings

/-- The first place of a byte. -/
theorem idxOf?_append_cons {u : List UInt8} {c : UInt8} (hu : c ∉ u) (v : List UInt8) :
    (u ++ c :: v).idxOf? c = some u.length := by
  have hnone : u.findIdx? (· == c) = none := List.idxOf?_eq_none_iff.2 hu
  have hfirst : (c :: v).findIdx? (· == c) = some 0 := by simp [List.findIdx?_cons]
  rw [List.idxOf?, List.findIdx?_append, hnone, hfirst]
  simp

/-! ## `fgets` -/

/-- At most so many bytes, up to the end of the line. -/
def lineOf : Nat → List UInt8 → List UInt8
  | 0,     _      => []
  | _ + 1, []     => []
  | n + 1, c :: r => if c = 10 then [c] else c :: lineOf n r

def fgets (size : Nat) (b : Nat → UInt8) (file : List UInt8) : Option ((Nat → UInt8) × List UInt8) :=
  if file = [] then none
  else some (writeBytes b 0 (lineOf (size - 1) file ++ [0]), file.drop (lineOf (size - 1) file).length)

theorem lineOf_line : ∀ {n : Nat} {s : List UInt8} (rest : List UInt8), 10 ∉ s → s.length < n →
    lineOf n (s ++ 10 :: rest) = s ++ [10]
  | n + 1, [],     rest, _,  _    => if_pos rfl
  | n + 1, c :: s, rest, hs, hlen => by
    rw [List.mem_cons, not_or] at hs
    rw [List.cons_append, lineOf, if_neg (Ne.symm hs.1), lineOf_line rest hs.2 (Nat.lt_of_succ_lt_succ hlen)]
    rfl

/-- A line that is too long is read in part. -/
theorem lineOf_long : ∀ {n : Nat} {s : List UInt8} (rest : List UInt8), 10 ∉ s → n ≤ s.length →
    lineOf n (s ++ 10 :: rest) = s.take n
  | 0,     _,      _,    _,  _    => by simp [lineOf]
  | n + 1, c :: s, rest, hs, hlen => by
    rw [List.mem_cons, not_or] at hs
    rw [List.cons_append, lineOf, if_neg (Ne.symm hs.1), lineOf_long rest hs.2 (Nat.le_of_succ_le_succ hlen)]
    rfl

/-! ## `strtok` -/

/-- The next token from `p` on, for one separator: where it starts, the buffer in which it is cut off, and where to go on.
The inner `none` is the `NULL` at the end of the string. -/
def strtok (size : Nat) (sep : UInt8) (b : Nat → UInt8) (p : Nat) : Option (Option (Nat × (Nat → UInt8) × Nat)) := do
  let s ← str size b p
  let skipped := (s.takeWhile (· == sep)).length
  let s := s.drop skipped
  let token := s.takeWhile (· != sep)
  let stop := p + skipped + token.length
  if s = [] then some none
  else if token.length = s.length then some (some (p + skipped, b, stop))
  else some (some (p + skipped, update b stop 0, stop + 1))

section Tokens

variable {size p : Nat} {b : Nat → UInt8} {sep : UInt8} {t s : List UInt8}

theorem strtok_end (h : IsStr size b p []) : strtok size sep b p = some none := by
  simp [strtok, h.str_eq]

theorem takeWhile_sep (hne : t ≠ []) (ht : sep ∉ t) (r : List UInt8) : (t ++ r).takeWhile (· == sep) = [] := by
  cases t with
  | nil      => exact absurd rfl hne
  | cons c t =>
    rw [List.mem_cons, not_or] at ht
    rw [List.cons_append, List.takeWhile_cons_of_neg (by simpa using Ne.symm ht.1)]

theorem takeWhile_token (ht : sep ∉ t) (r : List UInt8) :
    (t ++ r).takeWhile (· != sep) = t ++ r.takeWhile (· != sep) := by
  apply List.takeWhile_append_of_pos
  intro c hc
  simpa using ne_of_mem_of_not_mem hc ht

/-- The last token. -/
theorem strtok_last (h : IsStr size b p t) (hne : t ≠ []) (ht : sep ∉ t) :
    strtok size sep b p = some (some (p, b, p + t.length)) := by
  have hskip := takeWhile_sep hne ht []
  have htok := takeWhile_token ht []
  rw [List.append_nil] at hskip htok
  simp [strtok, h.str_eq, hskip, htok, hne]

/-- **A token and what follows it.** -/
theorem strtok_next (h : IsStr size b p (t ++ sep :: s)) (hne : t ≠ []) (ht : sep ∉ t) :
    strtok size sep b p = some (some (p, update b (p + t.length) 0, p + t.length + 1)) := by
  simp [strtok, h.str_eq, takeWhile_sep hne ht, takeWhile_token ht]

end Tokens

/-! ## Decimal numbers -/

def isspace (c : UInt8) : Bool := c == 32 || (9 ≤ c && c ≤ 13)

def isdigit (c : UInt8) : Bool := 48 ≤ c && c ≤ 57

/-- The value of the digits in front. -/
def digitsVal : List UInt8 → Nat → Nat
  | [],     n => n
  | c :: r, n => if isdigit c then digitsVal r (10 * n + (c.toNat - 48)) else n

/-- `atoi`: blanks, a sign, digits; undefined for a number that is not an `int`. -/
def atoi (s : List UInt8) : Option Int :=
  let r := s.dropWhile isspace
  let v : Int := if r.head? = some 45 then -digitsVal r.tail 0
    else if r.head? = some 43 then digitsVal r.tail 0
    else digitsVal r 0
  if -2 ^ 31 ≤ v ∧ v < 2 ^ 31 then some v else none

def decimal (n : Nat) : List UInt8 := (Nat.toDigits 10 n).map (fun c => UInt8.ofNat c.toNat)

/-- The digit of a number below ten. -/
def digit (d : Nat) : UInt8 := UInt8.ofNat (Nat.digitChar d).toNat

theorem digit_spec : ∀ d < 10, isdigit (digit d) = true ∧ (digit d).toNat - 48 = d := by decide

theorem decimal_eq (n : Nat) : decimal n = if n < 10 then [digit n] else decimal (n / 10) ++ [digit (n % 10)] := by
  rw [decimal, Nat.toDigits_eq_if (by decide)]
  split
  · rfl
  · rw [List.map_append]
    rfl

theorem digitsVal_append : ∀ {s : List UInt8} (r : List UInt8) (n : Nat), (∀ c ∈ s, isdigit c = true) →
    digitsVal (s ++ r) n = digitsVal r (digitsVal s n)
  | [],     _, _, _ => rfl
  | c :: s, r, n, h => by
    have hc := h c List.mem_cons_self
    rw [List.cons_append, digitsVal, digitsVal, if_pos hc, if_pos hc]
    exact digitsVal_append r _ (fun d hd => h d (List.mem_cons_of_mem _ hd))

/-- **A number is written in digits, and they have its value.** -/
theorem decimal_spec (n : Nat) : (∀ c ∈ decimal n, isdigit c = true) ∧ digitsVal (decimal n) 0 = n := by
  induction n using Nat.strongRecOn with
  | _ n ih =>
    rw [decimal_eq]
    split
    · obtain ⟨hd, hv⟩ := digit_spec n ‹_›
      simp [digitsVal, hd, hv]
    · obtain ⟨hall, hval⟩ := ih (n / 10) (by omega)
      obtain ⟨hd, hv⟩ := digit_spec (n % 10) (by omega)
      constructor
      · intro c hc
        rcases List.mem_append.1 hc with hc | hc
        · exact hall c hc
        · rw [List.mem_singleton.1 hc]
          exact hd
      · rw [digitsVal_append _ _ hall, hval]
        simp [digitsVal, hd, hv]
        omega

theorem decimal_ne_nil (n : Nat) : decimal n ≠ [] := by
  rw [decimal_eq]
  split <;> simp

theorem not_sign_of_isdigit {c : UInt8} (h : isdigit c = true) : isspace c = false ∧ c ≠ 45 ∧ c ≠ 43 := by
  simp only [isdigit, Bool.and_eq_true, decide_eq_true_eq, UInt8.le_iff_toNat_le] at h
  simp only [isspace, Bool.or_eq_false_iff, beq_eq_false_iff_ne, Bool.and_eq_false_imp, decide_eq_true_eq,
    decide_eq_false_iff_not, ne_eq, ← UInt8.toNat_inj, UInt8.le_iff_toNat_le]
  simp only [UInt8.reduceToNat] at *
  omega

theorem atoi_decimal {n : Nat} (h : n < 2 ^ 31) : atoi (decimal n) = some n := by
  obtain ⟨hall, hval⟩ := decimal_spec n
  obtain ⟨c, s, hs⟩ := List.exists_cons_of_ne_nil (decimal_ne_nil n)
  rw [hs] at hall hval ⊢
  obtain ⟨hblank, hminus, hplus⟩ := not_sign_of_isdigit (hall c List.mem_cons_self)
  have hdrop : (c :: s).dropWhile isspace = c :: s := List.dropWhile_cons_of_neg (by simp [hblank])
  simp only [atoi, hdrop, List.head?_cons, Option.some.injEq, if_neg hminus, if_neg hplus, hval]
  exact if_pos (by omega)

theorem length_decimal_le_iff {n k : Nat} (hk : 0 < k) : (decimal n).length ≤ k ↔ n < 10 ^ k := by
  rw [decimal, List.length_map, Nat.length_toDigits_le_iff (by decide) hk]

end CString
end Bb
