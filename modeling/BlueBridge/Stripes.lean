import Mathlib.Data.List.Range
/-!
# Stripes — a block in nearly equal pieces, and their parity

`size` bytes are cut into `n` pieces, the first `size % n` of them one byte longer.  `off` is where a piece starts and
`len` its length; the pieces lie end to end and cover the block.  `xorTo` is the exclusive or of a row of bytes: what is
left of it without one byte gives that byte back (`xorTo_recover`).
-/
namespace Bb
namespace Stripes

/-! ## Pieces -/

def len (size n k : Nat) : Nat := size / n + if k < size % n then 1 else 0

def off (size n k : Nat) : Nat := k * (size / n) + min k (size % n)

variable {size n k q : Nat}

@[simp] theorem off_zero (size n : Nat) : off size n 0 = 0 := by simp [off]

theorem off_succ (size n k : Nat) : off size n (k + 1) = off size n k + len size n k := by
  unfold off len
  rw [Nat.succ_mul]
  split <;> omega

theorem off_self (hn : 0 < n) : off size n n = size := by
  unfold off
  have hmod := Nat.mod_lt size hn
  have hdiv := Nat.div_add_mod size n
  rw [Nat.min_eq_right (Nat.le_of_lt hmod)]
  exact hdiv

theorem off_mono {j k : Nat} (h : j ≤ k) : off size n j ≤ off size n k := by
  induction h with
  | refl => exact Nat.le_refl _
  | step _ ih => exact Nat.le_trans ih (by rw [off_succ]; omega)

theorem off_add_len_le (hk : k < n) : off size n k + len size n k ≤ size := by
  rw [← off_succ]
  exact (off_mono hk).trans_eq (off_self (Nat.zero_lt_of_lt hk))

theorem len_le (hn : 0 < n) (k : Nat) : len size n k ≤ size := by
  have hdiv := Nat.div_add_mod size n
  have hle : size / n ≤ n * (size / n) := Nat.le_mul_of_pos_left _ hn
  unfold len
  split <;> omega

/-- Every byte before a piece lies in an earlier one. -/
theorem exists_piece_lt : ∀ {k : Nat}, q < off size n k → ∃ j x, j < k ∧ x < len size n j ∧ q = off size n j + x
  | 0, h => by simp at h
  | k + 1, h => by
    by_cases hq : q < off size n k
    · obtain ⟨j, x, hj, hx, rfl⟩ := exists_piece_lt hq
      exact ⟨j, x, by omega, hx, rfl⟩
    · rw [off_succ] at h
      exact ⟨k, q - off size n k, by omega, by omega, by omega⟩

theorem exists_piece (hn : 0 < n) (h : q < size) : ∃ k x, k < n ∧ x < len size n k ∧ q = off size n k + x :=
  exists_piece_lt (by rwa [off_self hn])

/-- A piece is empty exactly if the block ends before its turn. -/
theorem len_eq_zero_iff (hk : k < n) : len size n k = 0 ↔ size ≤ k := by
  unfold len
  have hn : 0 < n := Nat.zero_lt_of_lt hk
  constructor
  · intro h
    have hdiv : size / n = 0 := (Nat.add_eq_zero_iff.mp h).1
    have hsize : size < n := (Nat.div_eq_zero_iff_lt hn).mp hdiv
    rw [Nat.mod_eq_of_lt hsize] at h
    split at h <;> omega
  · intro h
    have hsize : size < n := by omega
    rw [Nat.div_eq_of_lt hsize, Nat.mod_eq_of_lt hsize, if_neg (by omega)]

/-! ## Exclusive or -/

/-- `f 0 ^ … ^ f (n - 1)`. -/
def xorTo (n : Nat) (f : Nat → UInt8) : UInt8 := (List.range n).foldl (fun a k => a ^^^ f k) 0

variable {f g : Nat → UInt8} {m r : Nat}

@[simp] theorem xorTo_zero (f : Nat → UInt8) : xorTo 0 f = 0 := rfl

theorem xorTo_succ (n : Nat) (f : Nat → UInt8) : xorTo (n + 1) f = xorTo n f ^^^ f n := by
  simp [xorTo, List.range_succ]

theorem xorTo_congr : ∀ {n : Nat}, (∀ k, k < n → f k = g k) → xorTo n f = xorTo n g
  | 0, _ => rfl
  | n + 1, h => by
    rw [xorTo_succ, xorTo_succ, xorTo_congr (fun k hk => h k (by omega)), h n (by omega)]

/-- A row that ends in zeros. -/
theorem xorTo_eq_of_zero (hr : r ≤ n) (hz : ∀ k, r ≤ k → k < n → f k = 0) : xorTo n f = xorTo r f := by
  induction hr with
  | refl => rfl
  | @step n hr ih =>
    rw [xorTo_succ, hz n hr (Nat.lt_succ_self n), UInt8.xor_zero]
    exact ih (fun k hk hn => hz k hk (by omega))

theorem xorTo_except : ∀ {n : Nat}, m < n → xorTo n (fun k => if k ≠ m then f k else 0) ^^^ f m = xorTo n f
  | n + 1, h => by
    rw [xorTo_succ, xorTo_succ]
    by_cases hm : m = n
    · subst hm
      rw [if_neg (not_not_intro rfl), UInt8.xor_zero]
      exact congrArg (· ^^^ f m) (xorTo_congr (fun k hk => if_pos (Nat.ne_of_lt hk)))
    · rw [if_pos (Ne.symm hm), UInt8.xor_assoc, UInt8.xor_comm (f n), ← UInt8.xor_assoc, xorTo_except (by omega)]

/-- **The others and the whole row give the byte that is left out.** -/
theorem xorTo_recover (hm : m < n) : xorTo n (fun k => if k ≠ m then f k else 0) ^^^ xorTo n f = f m := by
  rw [← xorTo_except (f := f) hm, ← UInt8.xor_assoc, UInt8.xor_self, UInt8.zero_xor]

theorem xorTo_single (hm : m < n) (hz : ∀ k, k < n → k ≠ m → f k = 0) : xorTo n f = f m := by
  have hothers : xorTo n (fun k => if k ≠ m then f k else 0) = xorTo 0 (fun k => if k ≠ m then f k else 0) := by
    refine xorTo_eq_of_zero (Nat.zero_le n) (fun k _ hk => ?_)
    by_cases hkm : k = m
    · exact if_neg (not_not_intro hkm)
    · rw [if_pos hkm, hz k hk hkm]
  rw [← xorTo_except hm, hothers, xorTo_zero, UInt8.zero_xor]

end Stripes
end Bb
