import BlueBridge.CString
import Mathlib.Data.List.GetD
/-!
# PacketFilter — a socket filter read from text (`set_packet_filter` of `raw_backend/udp_raw_receive.c`)

`tcpdump -ddd` prints a filter program in decimal: the number of instructions, and a line with four fields for each.
`set_packet_filter` reads every field with `%u`, four bytes each, into fields of two, one, one and four bytes, so that a
field is stored over those behind it; they are read in the order in which this does no harm (`readBytes_put`).  And it
attaches the array after every line: the instructions read so far, and then zeros.  So the last filter it attaches is
the program that was printed (`attaches_listing`).

The output of `popen` is given, `none` if there is none.  A number that its conversion cannot represent is undefined
behaviour, `none`.
-/
namespace Bb
namespace PacketFilter

open Bytes CString

/-- `struct sock_filter` -/
structure SockFilter where
  code : UInt16
  jt : UInt8
  jf : UInt8
  k : UInt32
  deriving DecidableEq, Repr

/-- The eight bytes of an instruction. -/
def SockFilter.bytes (x : SockFilter) : List UInt8 :=
  leBytes 2 x.code.toNat ++ [x.jt, x.jf] ++ leBytes 4 x.k.toNat

def instrAt (mem : Nat → UInt8) (i : Nat) : SockFilter where
  code := UInt16.ofNat (leNat (readBytes mem (8 * i) 2))
  jt := mem (8 * i + 2)
  jf := mem (8 * i + 3)
  k := UInt32.ofNat (leNat (readBytes mem (8 * i + 4) 4))

/-! ## The program -/

/-- A number and what is behind it: blanks, a sign, digits. -/
def number (s : List UInt8) : Option (Int × List UInt8) :=
  let s := s.dropWhile isspace
  let neg := s.head? = some 45
  let s := if neg ∨ s.head? = some 43 then s.tail else s
  let digits := s.takeWhile isdigit
  if digits = [] then none
  else some (if neg then -digitsVal digits 0 else digitsVal digits 0, s.dropWhile isdigit)

/-- A conversion of `fscanf`: undefined, nothing to convert, or a number. -/
def conversion (lo hi : Int) (s : List UInt8) : Option (Option (Int × List UInt8)) :=
  match number s with
  | none        => some none
  | some (v, r) => if lo ≤ v ∧ v < hi then some (some (v, r)) else none

/-- `%u` into each of the addresses, and whether all were converted. -/
def scanFields : List Nat → (Nat → UInt8) → List UInt8 → Option (Bool × (Nat → UInt8) × List UInt8)
  | [],      mem, s => some (true, mem, s.dropWhile isspace)
  | p :: ps, mem, s =>
    match conversion (1 - 2 ^ 32) (2 ^ 32) s with
    | none               => none
    | some none          => some (false, mem, s.dropWhile isspace)
    | some (some (v, s)) => scanFields ps (writeBytes mem p (leBytes 4 (v % 2 ^ 32).toNat)) s

/-- The fields of instruction `i`. -/
def fieldsOf (i : Nat) : List Nat := [8 * i, 8 * i + 2, 8 * i + 3, 8 * i + 4]

/-- What `setsockopt` is given; `len` is an `unsigned short`. -/
def program (mem : Nat → UInt8) (lineCount : Nat) : List SockFilter := (List.range (lineCount % 2 ^ 16)).map (instrAt mem)

/-- The loop, from line `i` on with `n` lines to come: whether it got to its end, and the filters attached. -/
def attachLoop (lineCount : Nat) : Nat → Nat → (Nat → UInt8) → List UInt8 → List (List SockFilter) →
    Option (Bool × List (List SockFilter))
  | 0,     _, _,   _, attached => some (true, attached)
  | n + 1, i, mem, s, attached =>
    match scanFields (fieldsOf i) mem s with
    | none                 => none
    | some (false, _, _)   => some (false, attached)
    | some (true, mem, s)  => attachLoop lineCount n (i + 1) mem s (attached ++ [program mem lineCount])

def setPacketFilter (output : Option (List UInt8)) : Option (Bool × List (List SockFilter)) :=
  match output with
  | none   => some (false, [])
  | some s =>
    match conversion (-2 ^ 31) (2 ^ 31) s with
    | none               => none
    | some none          => some (false, [])
    | some (some (v, s)) => attachLoop v.toNat v.toNat 0 (fun _ => 0) (s.dropWhile isspace) []

/-- What `tcpdump -ddd` prints. -/
def line (x : SockFilter) : List UInt8 :=
  decimal x.code.toNat ++ 32 :: (decimal x.jt.toNat ++ 32 :: (decimal x.jf.toNat ++ 32 :: (decimal x.k.toNat ++ [10])))

def listing (prog : List SockFilter) : List UInt8 := decimal prog.length ++ 10 :: prog.flatMap line

/-! ## Numbers -/

theorem number_decimal (n : Nat) {c : UInt8} (hc : isspace c = true) (r : List UInt8) :
    number (decimal n ++ c :: r) = some ((n : Int), c :: r) := by
  obtain ⟨hall, hval⟩ := decimal_spec n
  obtain ⟨d, ds, hds⟩ := List.exists_cons_of_ne_nil (decimal_ne_nil n)
  have hd : isdigit d = true := hall d (by rw [hds]; exact List.mem_cons_self)
  obtain ⟨hblank, hminus, hplus⟩ := not_sign_of_isdigit hd
  have hcd : isdigit c = false := Bool.eq_false_iff.2 (fun h => by rw [(not_sign_of_isdigit h).1] at hc; cases hc)
  have hdrop : (decimal n ++ c :: r).dropWhile isspace = decimal n ++ c :: r := by
    rw [hds, List.cons_append, List.dropWhile_cons_of_neg (by simp [hblank])]
  have hhead : (decimal n ++ c :: r).head? = some d := by rw [hds]; rfl
  have htake : (decimal n ++ c :: r).takeWhile isdigit = decimal n := by
    rw [List.takeWhile_append_of_pos hall, List.takeWhile_cons_of_neg (by simp [hcd]), List.append_nil]
  have hrest : (decimal n ++ c :: r).dropWhile isdigit = c :: r := by
    rw [List.dropWhile_append_of_pos hall, List.dropWhile_cons_of_neg (by simp [hcd])]
  simp [number, hdrop, hhead, hminus, hplus, htake, hrest, decimal_ne_nil, hval]

theorem number_blank {c : UInt8} (hc : isspace c = true) (s : List UInt8) : number (c :: s) = number s := by
  unfold number
  rw [List.dropWhile_cons_of_pos hc]

theorem isspace_blank : isspace 32 = true := rfl
theorem isspace_newline : isspace 10 = true := rfl

/-- **A field of the listing is stored as it is.** -/
theorem scanFields_cons {n : Nat} (hn : n < 2 ^ 32) {c : UInt8} (hc : isspace c = true) (p : Nat) (ps : List Nat)
    (mem : Nat → UInt8) (r : List UInt8) :
    scanFields (p :: ps) mem (decimal n ++ c :: r) = scanFields ps (writeBytes mem p (leBytes 4 n)) (c :: r) := by
  have hrange : (1 - 2 ^ 32 : Int) ≤ n ∧ (n : Int) < 2 ^ 32 := by omega
  have hmod : ((n : Int) % 2 ^ 32).toNat = n := by omega
  simp only [scanFields, conversion, number_decimal n hc, if_pos hrange, hmod]

theorem scanFields_blank {c : UInt8} (hc : isspace c = true) (ps : List Nat) (mem : Nat → UInt8) (s : List UInt8) :
    scanFields ps mem (c :: s) = scanFields ps mem s := by
  cases ps with
  | nil => simp only [scanFields, List.dropWhile_cons_of_pos hc]
  | cons p ps => simp only [scanFields, conversion, number_blank hc, List.dropWhile_cons_of_pos hc]

/-! ## The overlapping fields -/

/-- The four stores of a line. -/
def put (mem : Nat → UInt8) (i : Nat) (x : SockFilter) : Nat → UInt8 :=
  writeBytes (writeBytes (writeBytes (writeBytes mem (8 * i) (leBytes 4 x.code.toNat)) (8 * i + 2)
    (leBytes 4 x.jt.toNat)) (8 * i + 3) (leBytes 4 x.jf.toNat)) (8 * i + 4) (leBytes 4 x.k.toNat)

theorem put_of_not_mem (mem : Nat → UInt8) {i q : Nat} (x : SockFilter) (h : q < 8 * i ∨ 8 * i + 8 ≤ q) :
    put mem i x q = mem q := by
  unfold put
  rw [writeBytes_of_not_mem, writeBytes_of_not_mem, writeBytes_of_not_mem, writeBytes_of_not_mem] <;>
    rw [length_leBytes] <;> omega

/-- **Every field is stored before those behind it**, so the instruction is what was read. -/
theorem readBytes_put (mem : Nat → UInt8) (i : Nat) (x : SockFilter) : readBytes (put mem i x) (8 * i) 8 = x.bytes := by
  have hjt : UInt8.ofNat x.jt.toNat = x.jt := UInt8.ofNat_toNat
  have hjf : UInt8.ofNat x.jf.toNat = x.jf := UInt8.ofNat_toNat
  simp [readBytes, put, SockFilter.bytes, leBytes, writeBytes, List.range_succ, hjt, hjf]

theorem instrAt_of_bytes {mem : Nat → UInt8} {i : Nat} {x : SockFilter} (h : readBytes mem (8 * i) 8 = x.bytes) :
    instrAt mem i = x := by
  have hget : ∀ o < 8, mem (8 * i + o) = x.bytes.getD o 0 := fun o ho => by rw [← h, getD_readBytes _ _ ho]
  have hcode : readBytes mem (8 * i) 2 = leBytes 2 x.code.toNat := by
    have := congrArg (List.take 2) h
    rwa [take_readBytes _ _ (by decide)] at this
  have hk : readBytes mem (8 * i + 4) 4 = leBytes 4 x.k.toNat := by
    have := congrArg (List.drop 4) h
    rwa [drop_readBytes _ _ (by decide)] at this
  have hlt : x.code.toNat < 256 ^ 2 := x.code.toNat_lt
  have hlt' : x.k.toNat < 256 ^ 4 := x.k.toNat_lt
  simp only [instrAt, hcode, hk, leNat_leBytes, Nat.mod_eq_of_lt hlt, Nat.mod_eq_of_lt hlt', hget 2 (by decide),
    hget 3 (by decide), UInt16.ofNat_toNat, UInt32.ofNat_toNat]
  rfl

theorem instrAt_put (mem : Nat → UInt8) (i j : Nat) (x : SockFilter) :
    instrAt (put mem i x) j = if j = i then x else instrAt mem j := by
  split
  · next h => rw [h, instrAt_of_bytes (readBytes_put mem i x)]
  · next h =>
    have hkeep : ∀ o < 8, put mem i x (8 * j + o) = mem (8 * j + o) := fun o ho => put_of_not_mem mem x (by omega)
    have hcode : readBytes (put mem i x) (8 * j) 2 = readBytes mem (8 * j) 2 :=
      readBytes_congr (fun o ho => hkeep o (by omega))
    have hk : readBytes (put mem i x) (8 * j + 4) 4 = readBytes mem (8 * j + 4) 4 :=
      readBytes_congr (fun o ho => by rw [Nat.add_assoc]; exact hkeep (4 + o) (by omega))
    simp only [instrAt, hcode, hk, hkeep 2 (by decide), hkeep 3 (by decide)]

/-! ## The loop -/

/-- **A line of the listing is read**, with the blanks behind it. -/
theorem scanFields_line (mem : Nat → UInt8) (i : Nat) (x : SockFilter) (r : List UInt8) :
    scanFields (fieldsOf i) mem (line x ++ r) = some (true, put mem i x, r.dropWhile isspace) := by
  have hcode : x.code.toNat < 2 ^ 32 := Nat.lt_trans x.code.toNat_lt (by decide)
  have hjt : x.jt.toNat < 2 ^ 32 := Nat.lt_trans x.jt.toNat_lt (by decide)
  have hjf : x.jf.toNat < 2 ^ 32 := Nat.lt_trans x.jf.toNat_lt (by decide)
  simp only [fieldsOf, line, List.append_assoc, List.cons_append, List.nil_append]
  rw [scanFields_cons hcode isspace_blank, scanFields_blank isspace_blank, scanFields_cons hjt isspace_blank,
    scanFields_blank isspace_blank, scanFields_cons hjf isspace_blank, scanFields_blank isspace_blank,
    scanFields_cons x.k.toNat_lt isspace_newline, scanFields_blank isspace_newline]
  rfl

/-- An instruction of zeros. -/
def zero : SockFilter := ⟨0, 0, 0, 0⟩

theorem program_eq {mem : Nat → UInt8} {pre : List SockFilter} (hmem : ∀ j, instrAt mem j = pre.getD j zero) {n : Nat}
    (hn : pre.length + n < 2 ^ 16) : program mem (pre.length + n) = pre ++ List.replicate n zero := by
  rw [program, Nat.mod_eq_of_lt hn]
  refine List.ext_getElem (by simp) (fun j h₁ h₂ => ?_)
  rw [List.getElem_map, List.getElem_range, hmem]
  by_cases hj : j < pre.length
  · rw [List.getElem_append_left hj, List.getD_eq_getElem _ _ hj]
  · rw [List.getElem_append_right (Nat.not_lt.1 hj), List.getElem_replicate, List.getD_eq_default _ _ (Nat.not_lt.1 hj)]

theorem dropWhile_flatMap_line (rest : List SockFilter) : (rest.flatMap line).dropWhile isspace = rest.flatMap line := by
  cases rest with
  | nil => rfl
  | cons x rest =>
    obtain ⟨d, ds, hds⟩ := List.exists_cons_of_ne_nil (decimal_ne_nil x.code.toNat)
    have hd := (not_sign_of_isdigit ((decimal_spec x.code.toNat).1 d (by rw [hds]; exact List.mem_cons_self))).1
    rw [List.flatMap_cons, line, hds, List.cons_append, List.cons_append, List.dropWhile_cons_of_neg (by simp [hd])]

/-- What the loop attaches, one after the other, with `pre` already read. -/
def attachedFrom (pre rest : List SockFilter) : List (List SockFilter) :=
  (List.range rest.length).map (fun i => pre ++ rest.take (i + 1) ++ List.replicate (rest.length - (i + 1)) zero)

theorem attachedFrom_cons (pre : List SockFilter) (x : SockFilter) (rest : List SockFilter) :
    attachedFrom pre (x :: rest) = (pre ++ [x] ++ List.replicate rest.length zero) :: attachedFrom (pre ++ [x]) rest := by
  rw [attachedFrom, List.length_cons, List.range_succ_eq_map, List.map_cons, List.map_map]
  simp [attachedFrom, Function.comp_def]

/-- **The loop reads the lines**, `pre` being what is in the array. -/
theorem attachLoop_listing {n : Nat} (hn : n < 2 ^ 16) : ∀ (rest pre : List SockFilter) (mem : Nat → UInt8)
    (attached : List (List SockFilter)), (∀ j, instrAt mem j = pre.getD j zero) → n = pre.length + rest.length →
    attachLoop n rest.length pre.length mem (rest.flatMap line) attached = some (true, attached ++ attachedFrom pre rest)
  | [], pre, mem, attached, _, _ => by
    rw [List.length_nil, attachLoop, attachedFrom, List.length_nil, List.range_zero, List.map_nil, List.append_nil]
  | x :: rest, pre, mem, attached, hmem, hlen => by
    have hmem' : ∀ j, instrAt (put mem pre.length x) j = (pre ++ [x]).getD j zero := by
      intro j
      rw [instrAt_put, hmem]
      rcases Nat.lt_trichotomy j pre.length with hj | hj | hj
      · rw [if_neg (by omega), List.getD_append _ _ _ _ hj]
      · rw [if_pos hj, hj, List.getD_append_right _ _ _ _ (Nat.le_refl _), Nat.sub_self]
        rfl
      · rw [if_neg (by omega), List.getD_eq_default _ _ (by omega), List.getD_eq_default _ _ (by simp; omega)]
    have hone : (pre ++ [x]).length = pre.length + 1 := by simp
    have hlen' : n = (pre ++ [x]).length + rest.length := by rw [hlen, hone, List.length_cons]; omega
    have hprog : program (put mem pre.length x) n = pre ++ [x] ++ List.replicate rest.length zero := by
      rw [hlen', program_eq hmem' (by omega)]
    rw [List.flatMap_cons, List.length_cons, attachLoop, scanFields_line]
    simp only [dropWhile_flatMap_line]
    rw [← hone, attachLoop_listing hn rest (pre ++ [x]) _ _ hmem' hlen', hprog, attachedFrom_cons, List.append_assoc,
      List.singleton_append]

/-- **What is printed is what is attached.**  For every program with a length that fits, `set_packet_filter` reads all of
the listing and attaches, line by line, the instructions up to that line with zeros behind them: at last, the program. -/
theorem attaches_listing (prog : List SockFilter) (h : prog.length < 2 ^ 16) :
    setPacketFilter (some (listing prog)) = some (true, (List.range prog.length).map (fun i =>
      prog.take (i + 1) ++ List.replicate (prog.length - (i + 1)) ⟨0, 0, 0, 0⟩)) := by
  have hrange : (-2 ^ 31 : Int) ≤ prog.length ∧ (prog.length : Int) < 2 ^ 31 := by omega
  have hzero : ∀ j, instrAt (fun _ => 0) j = ([] : List SockFilter).getD j zero := fun j => rfl
  have hloop := attachLoop_listing h prog [] (fun _ => 0) [] hzero (Nat.zero_add _).symm
  simp only [setPacketFilter, listing, conversion, number_decimal prog.length isspace_newline, if_pos hrange,
    Int.toNat_natCast, List.dropWhile_cons_of_pos isspace_newline, dropWhile_flatMap_line]
  exact hloop

/-- A load of the ethernet type, a jump and the two returns. -/
theorem attaches_listing_ethertype : (setPacketFilter (some (listing [⟨40, 0, 0, 12⟩, ⟨21, 0, 1, 34525⟩,
      ⟨6, 0, 0, 262144⟩, ⟨6, 0, 0, 0⟩]))).map (fun r => r.2.getLast?) =
    some (some [⟨40, 0, 0, 12⟩, ⟨21, 0, 1, 34525⟩, ⟨6, 0, 0, 262144⟩, ⟨6, 0, 0, 0⟩]) := by
  rw [attaches_listing _ (by decide)]
  decide

end PacketFilter
end Bb
