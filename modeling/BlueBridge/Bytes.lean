import Mathlib.Algebra.Order.Ring.Nat
/-!
# Bytes — byte-addressed memory, `memcpy` and little-endian words

A memory maps addresses to bytes; `readBytes` and `writeBytes` are the two halves of a `memcpy`.  What several writes
leave at an address does not depend on their order when the writes that cover it agree (`writeAll_eq`), which is how
packets that may be reordered are reasoned about.
-/
namespace Bb
namespace Bytes

def readBytes (m : Nat → UInt8) (p n : Nat) : List UInt8 := (List.range n).map (fun i => m (p + i))

def writeBytes (m : Nat → UInt8) (p : Nat) (d : List UInt8) : Nat → UInt8 := fun q =>
  if p ≤ q ∧ q < p + d.length then d.getD (q - p) 0 else m q

/-- `memset(p, 0, n)`. -/
def zeroBytes (m : Nat → UInt8) (p n : Nat) : Nat → UInt8 := fun q => if p ≤ q ∧ q < p + n then 0 else m q

@[simp] theorem length_readBytes (m : Nat → UInt8) (p n : Nat) : (readBytes m p n).length = n := by simp [readBytes]

theorem getD_readBytes (m : Nat → UInt8) (p : Nat) {i n : Nat} (h : i < n) :
    (readBytes m p n).getD i 0 = m (p + i) := by
  simp [readBytes, List.getD_eq_getElem?_getD, h]

theorem readBytes_congr {m m' : Nat → UInt8} {p n : Nat} (h : ∀ i, i < n → m (p + i) = m' (p + i)) :
    readBytes m p n = readBytes m' p n :=
  List.map_congr_left (fun i hi => h i (List.mem_range.1 hi))

theorem readBytes_add (m : Nat → UInt8) (p n k : Nat) :
    readBytes m p (n + k) = readBytes m p n ++ readBytes m (p + n) k := by
  simp [readBytes, List.range_add, Function.comp_def, Nat.add_assoc]

theorem writeBytes_of_lt (m : Nat → UInt8) (p : Nat) {d : List UInt8} {i : Nat} (h : i < d.length) :
    writeBytes m p d (p + i) = d.getD i 0 := by
  unfold writeBytes
  rw [if_pos (by omega)]
  congr 1
  omega

theorem writeBytes_of_not_mem (m : Nat → UInt8) {p q : Nat} {d : List UInt8} (h : ¬ (p ≤ q ∧ q < p + d.length)) :
    writeBytes m p d q = m q := if_neg h

theorem readBytes_writeBytes (m : Nat → UInt8) (p : Nat) (d : List UInt8) :
    readBytes (writeBytes m p d) p d.length = d := by
  refine List.ext_getElem (by simp) (fun i hi hi' => ?_)
  have := writeBytes_of_lt m p hi'
  simp [readBytes, this, List.getD_eq_getElem?_getD, hi']

theorem writeBytes_idem (m : Nat → UInt8) (p : Nat) (d : List UInt8) :
    writeBytes (writeBytes m p d) p d = writeBytes m p d := by
  funext q
  unfold writeBytes
  split
  · rfl
  · rfl

theorem writeBytes_nil (m : Nat → UInt8) (p : Nat) : writeBytes m p [] = m :=
  funext (fun _ => writeBytes_of_not_mem m (by simp))

theorem writeBytes_append (m : Nat → UInt8) (p : Nat) (d e : List UInt8) :
    writeBytes (writeBytes m p d) (p + d.length) e = writeBytes m p (d ++ e) := by
  funext q
  simp only [writeBytes, List.length_append, List.getD_eq_getElem?_getD]
  by_cases hd : q < p + d.length
  · by_cases hp : p ≤ q
    · rw [if_neg (by omega), if_pos ⟨hp, hd⟩, if_pos ⟨hp, by omega⟩, List.getElem?_append_left (by omega)]
    · rw [if_neg (by omega), if_neg (fun h => hp h.1), if_neg (fun h => hp h.1)]
  · by_cases he : p ≤ q ∧ q < p + (d.length + e.length)
    · rw [if_pos ⟨by omega, by omega⟩, if_pos he, List.getElem?_append_right (by omega), Nat.sub_sub]
    · rw [if_neg (by omega), if_neg (fun h => hd h.2), if_neg he]

theorem readBytes_writeBytes_disjoint (m : Nat → UInt8) {p q n : Nat} {d : List UInt8}
    (h : p + d.length ≤ q ∨ q + n ≤ p) : readBytes (writeBytes m p d) q n = readBytes m q n :=
  readBytes_congr (fun i hi => writeBytes_of_not_mem m (by omega))

theorem take_readBytes (m : Nat → UInt8) (p : Nat) {k n : Nat} (h : k ≤ n) :
    (readBytes m p n).take k = readBytes m p k := by
  obtain ⟨j, rfl⟩ := Nat.exists_eq_add_of_le h
  rw [readBytes_add, List.take_left' (length_readBytes ..)]

theorem drop_readBytes (m : Nat → UInt8) (p : Nat) {k n : Nat} (h : k ≤ n) :
    (readBytes m p n).drop k = readBytes m (p + k) (n - k) := by
  obtain ⟨j, rfl⟩ := Nat.exists_eq_add_of_le h
  rw [readBytes_add, List.drop_left' (length_readBytes ..), Nat.add_sub_cancel_left]

/-- A write over the first bytes of what is read. -/
theorem readBytes_writeBytes_le (m : Nat → UInt8) (p : Nat) {d : List UInt8} {n : Nat} (h : d.length ≤ n) :
    readBytes (writeBytes m p d) p n = d ++ (readBytes m p n).drop d.length := by
  obtain ⟨j, rfl⟩ := Nat.exists_eq_add_of_le h
  rw [drop_readBytes m p h, Nat.add_sub_cancel_left, readBytes_add, readBytes_writeBytes,
    readBytes_writeBytes_disjoint m (.inl (Nat.le_refl _))]

theorem readBytes_zeroBytes (m : Nat → UInt8) (p n : Nat) : readBytes (zeroBytes m p n) p n = List.replicate n 0 := by
  refine List.ext_getElem (by simp) (fun i hi _ => ?_)
  rw [length_readBytes] at hi
  simp [readBytes, zeroBytes, hi]

theorem readBytes_zeroBytes_disjoint (m : Nat → UInt8) {p k q n : Nat} (h : p + k ≤ q ∨ q + n ≤ p) :
    readBytes (zeroBytes m p k) q n = readBytes m q n :=
  readBytes_congr (fun i hi => if_neg (by omega))

/-! ## Several writes -/

/-- A write of `w.2` at the address `w.1` reaches `q`. -/
def Covers (w : Nat × List UInt8) (q : Nat) : Prop := w.1 ≤ q ∧ q < w.1 + w.2.length

def writeAll (m : Nat → UInt8) (ws : List (Nat × List UInt8)) : Nat → UInt8 :=
  ws.foldl (fun m w => writeBytes m w.1 w.2) m

theorem writeAll_of_not_covered {q : Nat} : ∀ {ws : List (Nat × List UInt8)} {m : Nat → UInt8},
    (∀ w ∈ ws, ¬ Covers w q) → writeAll m ws q = m q
  | [], _, _ => rfl
  | w :: ws, m, h => by
    show writeAll (writeBytes m w.1 w.2) ws q = m q
    rw [writeAll_of_not_covered (fun w' hw => h w' (List.mem_cons_of_mem _ hw)),
      writeBytes_of_not_mem m (h w List.mem_cons_self)]

/-- **Writes that agree on an address leave what they agree on**, in whatever order they are made. -/
theorem writeAll_eq {q : Nat} {v : UInt8} : ∀ {ws : List (Nat × List UInt8)} {m : Nat → UInt8},
    (∀ w ∈ ws, Covers w q → w.2.getD (q - w.1) 0 = v) → (∃ w ∈ ws, Covers w q) → writeAll m ws q = v
  | [], _, _, hc => by obtain ⟨w, hw, -⟩ := hc; cases hw
  | w :: ws, m, h, hc => by
    show writeAll (writeBytes m w.1 w.2) ws q = v
    by_cases hrest : ∃ w' ∈ ws, Covers w' q
    · exact writeAll_eq (fun w' hw => h w' (List.mem_cons_of_mem _ hw)) hrest
    · rw [writeAll_of_not_covered (fun w' hw hcov => hrest ⟨w', hw, hcov⟩)]
      obtain ⟨w', hw', hcov⟩ := hc
      rcases List.mem_cons.1 hw' with rfl | hw'
      · rw [← h w' List.mem_cons_self hcov]
        exact if_pos hcov
      · exact absurd ⟨w', hw', hcov⟩ hrest

/-- Values for the consecutive slots of `len` bytes from `p` on. -/
def slots (p len : Nat) (vals : List (List UInt8)) : List (Nat × List UInt8) :=
  vals.zipIdx.map (fun x => (p + x.2 * len, x.1))

theorem mem_slots {p len : Nat} {vals : List (List UInt8)} {w : Nat × List UInt8} :
    w ∈ slots p len vals ↔ ∃ i v, vals[i]? = some v ∧ w = (p + i * len, v) := by
  simp only [slots, List.mem_map, Prod.exists, List.mem_zipIdx_iff_getElem?]
  constructor
  · rintro ⟨v, i, hv, rfl⟩; exact ⟨i, v, hv, rfl⟩
  · rintro ⟨i, v, hv, rfl⟩; exact ⟨v, i, hv, rfl⟩

theorem slot_inj {i j len a b : Nat} (ha : a < len) (hb : b < len) (h : i * len + a = j * len + b) : i = j ∧ a = b := by
  have hmod := congrArg (· % len) h
  simp only [Nat.mul_add_mod', Nat.mod_eq_of_lt ha, Nat.mod_eq_of_lt hb] at hmod
  subst hmod
  exact ⟨Nat.eq_of_mul_eq_mul_right (by omega) (Nat.add_right_cancel h), rfl⟩

/-- **Slots filled in any order hold their values.** -/
theorem readBytes_slots {p len : Nat} {vals : List (List UInt8)} {ws : List (Nat × List UInt8)} (m : Nat → UInt8)
    (hws : ws.Perm (slots p len vals)) (hlen : ∀ v ∈ vals, v.length = len) {i : Nat} {v : List UInt8}
    (hi : vals[i]? = some v) : readBytes (writeAll m ws) (p + i * len) len = v := by
  have hv := hlen v (List.mem_of_getElem? hi)
  refine List.ext_getElem (by simp [hv]) (fun k hk hk' => ?_)
  rw [length_readBytes] at hk
  have hcov : Covers (p + i * len, v) (p + i * len + k) := ⟨Nat.le_add_right _ _, by simp only [hv]; omega⟩
  have hval : writeAll m ws (p + i * len + k) = v.getD k 0 := by
    refine writeAll_eq (fun w hw hc => ?_) ⟨_, hws.mem_iff.2 (mem_slots.2 ⟨i, v, hi, rfl⟩), hcov⟩
    obtain ⟨j, u, hu, rfl⟩ := mem_slots.1 (hws.mem_iff.1 hw)
    have hul := hlen u (List.mem_of_getElem? hu)
    simp only [Covers, hul] at hc
    obtain ⟨rfl, hb⟩ := slot_inj (i := i) (j := j) (b := p + i * len + k - (p + j * len)) hk (by omega) (by omega)
    rw [hi] at hu
    cases hu
    rw [← hb]
  simp [readBytes, hval, List.getD_eq_getElem?_getD, hk']

theorem readBytes_flatten {m : Nat → UInt8} {len : Nat} : ∀ {vals : List (List UInt8)} {p : Nat},
    (∀ i v, vals[i]? = some v → readBytes m (p + i * len) len = v) →
    readBytes m p (vals.length * len) = vals.flatten
  | [], p, _ => by simp [readBytes]
  | v :: vals, p, h => by
    have hv := h 0 v rfl
    rw [Nat.zero_mul, Nat.add_zero] at hv
    have hrest : readBytes m (p + len) (vals.length * len) = vals.flatten := by
      refine readBytes_flatten (fun i u hu => ?_)
      rw [Nat.add_assoc, Nat.add_comm len, ← Nat.succ_mul]
      exact h (i + 1) u hu
    rw [List.length_cons, Nat.succ_mul, Nat.add_comm (_ * _), readBytes_add, hv, hrest, List.flatten_cons]

theorem slots_outside {p len q : Nat} {vals : List (List UInt8)} {ws : List (Nat × List UInt8)} (m : Nat → UInt8)
    (hws : ws.Perm (slots p len vals)) (hlen : ∀ v ∈ vals, v.length = len)
    (hq : q < p ∨ p + vals.length * len ≤ q) : writeAll m ws q = m q := by
  refine writeAll_of_not_covered (fun w hw hc => ?_)
  obtain ⟨j, u, hu, rfl⟩ := mem_slots.1 (hws.mem_iff.1 hw)
  have hj : j + 1 ≤ vals.length := (List.getElem?_eq_some_iff.1 hu).1
  have := Nat.mul_le_mul_right len hj
  simp only [Covers, hlen u (List.mem_of_getElem? hu)] at hc
  rw [Nat.succ_mul] at this
  omega

/-! ## Little-endian words -/

def leBytes : Nat → Nat → List UInt8
  | 0,     _ => []
  | n + 1, v => UInt8.ofNat v :: leBytes n (v / 256)

def leNat : List UInt8 → Nat
  | []     => 0
  | b :: r => b.toNat + 256 * leNat r

@[simp] theorem length_leBytes : ∀ n v, (leBytes n v).length = n
  | 0, _ => rfl
  | n + 1, v => by simp [leBytes, length_leBytes n]

theorem leNat_leBytes : ∀ n v, leNat (leBytes n v) = v % 256 ^ n
  | 0, v => by simp [leBytes, leNat, Nat.mod_one]
  | n + 1, v => by
    rw [leBytes, leNat, leNat_leBytes n, Nat.pow_succ, Nat.mul_comm (256 ^ n), Nat.mod_mul]
    simp

/-- A word as the machine lays it out, and back. -/
def bytes64 (v : UInt64) : List UInt8 := leBytes 8 v.toNat
def le64 (d : List UInt8) : UInt64 := UInt64.ofNat (leNat (d.take 8))

@[simp] theorem length_bytes64 (v : UInt64) : (bytes64 v).length = 8 := length_leBytes ..

@[simp] theorem le64_bytes64 (v : UInt64) : le64 (bytes64 v) = v := by
  have hlen := length_bytes64 v
  have hlt : v.toNat < 256 ^ 8 := v.toNat_lt
  unfold le64
  rw [List.take_of_length_le (by omega), bytes64, leNat_leBytes, Nat.mod_eq_of_lt hlt]
  simp

end Bytes
end Bb
