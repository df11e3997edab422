import BlueBridge.Bytes
import Mathlib.Data.List.MinMax
import Mathlib.Logic.Equiv.Defs
/-!
# Headers — headers of bit fields, and match tables

A header is a sequence of bit fields, most significant bit first, that fills whole bytes.  `extract` takes one off the
front of a packet, or leaves a packet that is too short alone; `emit` writes one out.  Each undoes the other
(`extract_emit`, `emit_extract`).

A table entry matches a key exactly and a value up to a length; of the entries that match, the longest is the one.
-/
namespace Bb
namespace Headers

open Bytes

/-! ## Big-endian numbers -/

def beBytes (n v : Nat) : List UInt8 := (leBytes n v).reverse

def beNat (l : List UInt8) : Nat := leNat l.reverse

@[simp] theorem length_beBytes (n v : Nat) : (beBytes n v).length = n := by simp [beBytes]

theorem leNat_lt : ∀ l : List UInt8, leNat l < 256 ^ l.length
  | []     => Nat.one_pos
  | b :: l => by
    have hb : b.toNat < 256 := b.toNat_lt
    have ih := leNat_lt l
    rw [leNat, List.length_cons, Nat.pow_succ]
    omega

theorem leNat_append : ∀ a b : List UInt8, leNat (a ++ b) = leNat a + 256 ^ a.length * leNat b
  | [],     b => by simp [leNat]
  | x :: a, b => by
    rw [List.cons_append, leNat, leNat, leNat_append a b, List.length_cons, Nat.pow_succ, Nat.mul_add,
      ← Nat.mul_assoc, Nat.mul_comm 256 (256 ^ _), Nat.add_assoc]

theorem leBytes_leNat : ∀ l : List UInt8, leBytes l.length (leNat l) = l
  | []     => rfl
  | b :: l => by
    have hb : b.toNat < 256 := b.toNat_lt
    have hdiv : (b.toNat + 256 * leNat l) / 256 = leNat l := by omega
    have hhead : UInt8.ofNat (b.toNat + 256 * leNat l) = b := by
      apply UInt8.toNat_inj.mp
      rw [UInt8.toNat_ofNat']
      omega
    rw [List.length_cons, leNat, leBytes, hdiv, leBytes_leNat l, hhead]

theorem beNat_beBytes (n v : Nat) : beNat (beBytes n v) = v % 256 ^ n := by
  rw [beNat, beBytes, List.reverse_reverse, leNat_leBytes]

theorem beBytes_beNat (l : List UInt8) : beBytes l.length (beNat l) = l := by
  have := leBytes_leNat l.reverse
  rw [List.length_reverse] at this
  rw [beBytes, beNat, this, List.reverse_reverse]

theorem beNat_lt (l : List UInt8) : beNat l < 256 ^ l.length := by
  have := leNat_lt l.reverse
  rwa [List.length_reverse] at this

theorem beNat_append (a b : List UInt8) : beNat (a ++ b) = beNat a * 256 ^ b.length + beNat b := by
  rw [beNat, List.reverse_append, leNat_append, List.length_reverse, Nat.add_comm, Nat.mul_comm]
  rfl

theorem pow_256 (n : Nat) : 256 ^ n = 2 ^ (8 * n) := by rw [Nat.pow_mul]

/-- The number that some bytes in the middle stand for. -/
theorem ofNat_beNat_middle (a b c : List UInt8) {w r : Nat} (hw : 8 * b.length = w) (hr : 8 * c.length = r) :
    BitVec.ofNat w (beNat (a ++ (b ++ c)) / 2 ^ r) = BitVec.ofNat w (beNat b) := by
  subst hw hr
  apply BitVec.eq_of_toNat_eq
  have hb := beNat_lt b
  have hc := beNat_lt c
  rw [BitVec.toNat_ofNat, BitVec.toNat_ofNat, beNat_append, beNat_append, List.length_append, ← pow_256, ← pow_256,
    Nat.pow_add, Nat.mul_comm (256 ^ b.length), ← Nat.mul_assoc, Nat.mul_assoc, Nat.mul_comm (256 ^ c.length),
    ← Nat.mul_assoc, ← Nat.add_assoc, ← Nat.add_mul, Nat.add_comm _ (beNat c),
    Nat.add_mul_div_right _ _ (Nat.pow_pos (by decide)), Nat.div_eq_of_lt hc, Nat.zero_add, Nat.add_comm,
    Nat.add_mul_mod_self_right]

/-! ## Fields -/

/-- One bit vector for each width. -/
def Fields : List Nat → Type
  | []      => Unit
  | w :: ws => BitVec w × Fields ws

def join : (ws : List Nat) → Fields ws → Nat
  | [],      _       => 0
  | _ :: ws, (b, fs) => b.toNat * 2 ^ ws.sum + join ws fs

def split : (ws : List Nat) → Nat → Fields ws
  | [],      _ => ()
  | w :: ws, v => (BitVec.ofNat w (v / 2 ^ ws.sum), split ws v)

theorem join_lt : ∀ (ws : List Nat) (fs : Fields ws), join ws fs < 2 ^ ws.sum
  | [],      _       => Nat.one_pos
  | w :: ws, (b, fs) => by
    have hb : b.toNat + 1 ≤ 2 ^ w := b.isLt
    have ih := join_lt ws fs
    have := Nat.mul_le_mul_right (2 ^ ws.sum) hb
    rw [join, List.sum_cons, Nat.pow_add]
    rw [Nat.add_mul] at this
    omega

theorem join_split : ∀ (ws : List Nat) (v : Nat), join ws (split ws v) = v % 2 ^ ws.sum
  | [],      v => (Nat.mod_one v).symm
  | w :: ws, v => by
    rw [split, join, join_split ws v, BitVec.toNat_ofNat, List.sum_cons, Nat.add_comm w, Nat.pow_add, Nat.mod_mul,
      Nat.mul_comm, Nat.add_comm]

/-- Bits above a header do not change its fields. -/
theorem split_above : ∀ (ws : List Nat) (a v : Nat), split ws (a * 2 ^ ws.sum + v) = split ws v
  | [],      _, _ => rfl
  | w :: ws, a, v => by
    have hmul : a * 2 ^ (w + ws.sum) = a * 2 ^ w * 2 ^ ws.sum := by rw [Nat.pow_add, Nat.mul_assoc]
    have hhead : BitVec.ofNat w ((a * 2 ^ w * 2 ^ ws.sum + v) / 2 ^ ws.sum) = BitVec.ofNat w (v / 2 ^ ws.sum) := by
      apply BitVec.eq_of_toNat_eq
      rw [BitVec.toNat_ofNat, BitVec.toNat_ofNat, Nat.add_comm, Nat.add_mul_div_right _ _ (Nat.two_pow_pos _),
        Nat.add_mul_mod_self_right]
    rw [split, split, List.sum_cons, hmul, hhead, split_above ws]

theorem split_join : ∀ (ws : List Nat) (fs : Fields ws), split ws (join ws fs) = fs
  | [],      _       => rfl
  | w :: ws, (b, fs) => by
    have hlt := join_lt ws fs
    have hhead : BitVec.ofNat w ((b.toNat * 2 ^ ws.sum + join ws fs) / 2 ^ ws.sum) = b := by
      rw [Nat.add_comm, Nat.add_mul_div_right _ _ (Nat.two_pow_pos _), Nat.div_eq_of_lt hlt, Nat.zero_add,
        BitVec.ofNat_toNat, BitVec.setWidth_eq]
    rw [join, split, hhead, split_above, split_join ws fs]

/-! ## Headers -/

/-- A header type: the widths of its fields, and its length in bytes. -/
class Header (H : Type) where
  widths : List Nat
  bytes : Nat
  widths_sum : widths.sum = 8 * bytes
  fields : H ≃ Fields widths

section Header

variable {H : Type} [Header H]

def emit (h : H) : List UInt8 := beBytes (Header.bytes H) (join (Header.widths H) (Header.fields h))

/-- The header that some bytes make. -/
def decode (H : Type) [Header H] (l : List UInt8) : H := Header.fields.symm (split (Header.widths H) (beNat l))

/-- A header off the front of a packet; a packet that is too short is left as it is. -/
def extract (H : Type) [Header H] (packet : List UInt8) : Option (H × List UInt8) :=
  if Header.bytes H ≤ packet.length then
    some (decode H (packet.take (Header.bytes H)), packet.drop (Header.bytes H))
  else none

@[simp] theorem length_emit (h : H) : (emit h).length = Header.bytes H := length_beBytes ..

theorem pow_bytes : 256 ^ Header.bytes H = 2 ^ (Header.widths H).sum := by rw [pow_256, ← Header.widths_sum]

theorem decode_emit (h : H) : decode H (emit h) = h := by
  rw [decode, emit, beNat_beBytes, pow_bytes, Nat.mod_eq_of_lt (join_lt ..), split_join, Equiv.symm_apply_apply]

theorem emit_decode {l : List UInt8} (hl : l.length = Header.bytes H) : emit (decode H l) = l := by
  have hlt := beNat_lt l
  rw [hl, pow_bytes (H := H)] at hlt
  rw [emit, decode, Equiv.apply_symm_apply, join_split, Nat.mod_eq_of_lt hlt, ← hl, beBytes_beNat]

/-- **What was emitted is extracted.** -/
theorem extract_emit (h : H) (rest : List UInt8) : extract H (emit h ++ rest) = some (h, rest) := by
  rw [extract, if_pos (by simp), List.take_left' (length_emit h), List.drop_left' (length_emit h), decode_emit]

theorem extract_append {l : List UInt8} (hl : l.length = Header.bytes H) (rest : List UInt8) :
    extract H (l ++ rest) = some (decode H l, rest) := by
  conv_lhs => rw [← emit_decode hl]
  exact extract_emit ..

/-- **What was extracted is emitted again.** -/
theorem emit_extract {packet rest : List UInt8} {h : H} (he : extract H packet = some (h, rest)) :
    emit h ++ rest = packet := by
  unfold extract at he
  split at he
  case isFalse => cases he
  case isTrue hle =>
    cases he
    rw [emit_decode (List.length_take_of_le hle), List.take_append_drop]

end Header

/-! ## Tables -/

/-- An entry for the values that agree with `value` in their first `len` bits. -/
structure Entry (K : Type) (w : Nat) (A : Type) where
  key : K
  value : BitVec w
  len : Nat
  action : A

section Table

variable {K A : Type} [DecidableEq K] {w : Nat}

def Entry.matches (e : Entry K w A) (k : K) (v : BitVec w) : Bool :=
  e.key = k ∧ v >>> (w - e.len) = e.value >>> (w - e.len)

/-- The action of the longest entry that matches. -/
def lookup (es : List (Entry K w A)) (k : K) (v : BitVec w) : Option A :=
  ((es.filter (fun e => e.matches k v)).argmax Entry.len).map Entry.action

theorem lookup_eq_some {es : List (Entry K w A)} {k : K} {v : BitVec w} {a : A} (h : lookup es k v = some a) :
    ∃ e ∈ es, e.matches k v = true ∧ e.action = a := by
  obtain ⟨e, he, rfl⟩ := Option.map_eq_some_iff.mp h
  obtain ⟨hmem, hm⟩ := List.mem_filter.mp (List.argmax_mem he)
  exact ⟨e, hmem, hm, rfl⟩

theorem lookup_eq_none {es : List (Entry K w A)} {k : K} {v : BitVec w} :
    lookup es k v = none ↔ ∀ e ∈ es, e.matches k v = false := by
  rw [lookup, Option.map_eq_none_iff, List.argmax_eq_none, List.filter_eq_nil_iff]
  exact forall₂_congr (fun e _ => by simp)

end Table

end Headers
end Bb
