import BlueBridge.RaidStripes
/-!
# RaidRecover — reads that miss a host

Level 0 needs every host.  At level 4 the repair computes any stripe from the others and the parity.  At level 5 it
takes the first rows for the stripes, whichever of them has the parity: if that is not the last row, the parity is
counted twice and the last stripe not at all (`raid5_recovers_iff`).
-/
namespace Bb
namespace Raid

open Bytes Stripes
open Function (update update_self update_of_ne)

/-- `rbufs` of a read that misses a host. -/
def without (missing : Option Nat) (w : Bufs) : Bufs := fun i => if missing = some i then zeros i else w i

/-- **A read that misses `missing` gives the block written.** -/
def Recovers (maxHosts numHosts : Nat) (r : Rrmem) (block : Nat) (missing : Option Nat) (d : Nat → UInt8) : Prop :=
  ∃ w, writeBufs maxHosts numHosts r block d = some w ∧
    ∀ data, ∃ out, readBufs maxHosts numHosts r block missing (without missing w) data = some out ∧
      readBytes out 0 r.blockSize = readBytes d 0 r.blockSize

section Repair

variable {size H p : Nat} {missing : Option Nat} {d : Nat → UInt8} {b : Bufs}

theorem stripe5_ne {m k : Nat} (hk : stripe5 p m = some k) : m ≠ p := by
  rintro rfl
  rw [stripe5_self] at hk
  cases hk

/-- Of the hosts that were read nothing is changed. -/
theorem mended_of_ne {n i : Nat} (hmiss : missing ≠ some i) : mended size n p missing b i = b i := by
  unfold mended
  split
  · rfl
  · split
    · rfl
    · exact update_of_ne (fun heq => hmiss (by rw [heq])) ..

/-- If the data hosts that were read have their pieces, only the missing one is in question. -/
theorem holds_mended_iff (hm : ∀ m ∈ missing, m < H)
    (hb : ∀ j, j < H → j ≠ p → missing ≠ some j → b j = columns size (H - 1) p d j) :
    Holds size H p d (mended size (H - 1) p missing b) ↔ ∀ m ∈ missing, ∀ k, stripe5 p m = some k →
      ∀ x, x < len size (H - 1) k → repairedRow b p m (H - 1) size x = piece size (H - 1) d k x := by
  constructor
  · intro h m hmiss k hk x hx
    have hrow := h m (hm m hmiss) k hk x hx
    rw [Option.mem_def] at hmiss
    simp only [mended, hmiss, if_neg (stripe5_ne hk), update_self] at hrow
    exact hrow
  · intro h i hi k hk x hx
    by_cases hmiss : missing = some i
    · simp only [mended, hmiss, if_neg (stripe5_ne hk), update_self]
      exact h i hmiss k hk x hx
    · rw [mended_of_ne hmiss, hb i hi (stripe5_ne hk) hmiss]
      simp only [columns, hk]

/-- With the first `c` rows the first `c` stripes, the repair gives the missing one. -/
theorem repair_row {n c m x : Nat} (hcp : c ≤ p) (hmc : m < c)
    (hpar : parity size n d x = xorTo c (fun k => piece size n d k x)) :
    xorTo c (fun j => if j ≠ m then columns size n p d j x else 0) ^^^ parity size n d x = piece size n d m x := by
  have hrows : xorTo c (fun j => if j ≠ m then columns size n p d j x else 0) =
      xorTo c (fun j => if j ≠ m then piece size n d j x else 0) := by
    refine xorTo_congr (fun j hj => ?_)
    simp only [columns, stripe5_of_lt (show j < p by omega)]
  rw [hrows, hpar]
  exact xorTo_recover hmc

/-- The rows the repair reads. -/
theorem repairByte_columns {c m : Nat} (hb : ∀ j, j < H → j ≠ m → b j = columns size (H - 1) p d j) (hc : c ≤ H)
    (hp : p < H) (hpm : p ≠ m) (x : Nat) : repairByte b m x c ^^^ b p x =
      xorTo c (fun j => if j ≠ m then columns size (H - 1) p d j x else 0) ^^^ parity size (H - 1) d x := by
  rw [repairByte_eq, hb p hp hpm]
  congr 1
  · refine xorTo_congr (fun j hj => ?_)
    split
    · rw [hb j (by omega) ‹_›]
    · rfl
  · simp only [columns, stripe5_self]

/-- The repair is right if the parity comes after the stripes, or after the bytes of the block. -/
theorem repairedRow_eq {m k x : Nat} (hH : 2 ≤ H) (hp : p < H) (hgood : p = H - 1 ∨ size ≤ p)
    (hb : ∀ j, j < H → j ≠ m → b j = columns size (H - 1) p d j) (hm : m < H) (hk : stripe5 p m = some k)
    (hx : x < len size (H - 1) k) : repairedRow b p m (H - 1) size x = piece size (H - 1) d k x := by
  have hpm : p ≠ m := (stripe5_ne hk).symm
  have hn : 0 < H - 1 := by omega
  have hmod : size % (H - 1) < H - 1 := Nat.mod_lt size hn
  have hmodle : size % (H - 1) ≤ size := Nat.mod_le ..
  unfold repairedRow
  by_cases hshort : x < size / (H - 1)
  · -- a block of at least one byte for each stripe: the parity is last
    have hsize : H - 1 ≤ size := by
      by_contra hlt
      rw [Nat.div_eq_of_lt (by omega)] at hshort
      omega
    have hmk : m < H - 1 ∧ k = m := by
      rcases stripe5_eq_some_iff.mp hk with h | h <;> omega
    rw [if_pos hshort, repairByte_columns hb (Nat.sub_le H 1) hp hpm, hmk.2]
    exact repair_row (by omega) hmk.1 rfl
  · -- the last byte of a longer stripe
    have hlast : x = size / (H - 1) ∧ k < size % (H - 1) := by
      unfold len at hx
      split at hx <;> omega
    have hmk : m < size % (H - 1) ∧ k = m := by
      rcases stripe5_eq_some_iff.mp hk with h | h <;> omega
    rw [if_neg hshort, if_pos ⟨hlast.1, hmk.1⟩, repairByte_columns hb (by omega) hp hpm, hmk.2]
    exact repair_row (by omega) hmk.1 (by rw [hlast.1]; exact parity_last hn)

/-- A block of zeros but for the first byte of piece `k`. -/
def onlyByte (size n k q : Nat) : UInt8 := if q = off size n k then 1 else 0

theorem piece_onlyByte {n k : Nat} (hk : 0 < len size n k) : piece size n (onlyByte size n k) k 0 = 1 := by
  rw [piece_of_lt _ hk]
  exact if_pos rfl

theorem piece_onlyByte_ne {n j k : Nat} (hk : 0 < len size n k) (hjk : j ≠ k) :
    piece size n (onlyByte size n k) j 0 = 0 := by
  unfold piece onlyByte
  split
  · refine if_neg (fun heq => ?_)
    rcases Nat.lt_or_gt_of_ne hjk with hlt | hlt
    · have := @off_mono size n _ _ (Nat.succ_le_of_lt hlt)
      rw [Nat.succ_eq_add_one, off_succ] at this
      omega
    · have := @off_mono size n _ _ (Nat.succ_le_of_lt hlt)
      rw [Nat.succ_eq_add_one, off_succ] at this
      omega
  · rfl

theorem parity_onlyByte {n k : Nat} (hkn : k < n) (hk : 0 < len size n k) :
    parity size n (onlyByte size n k) 0 = 1 := by
  unfold parity
  rw [xorTo_single hkn (fun j _ hj => piece_onlyByte_ne hk hj), piece_onlyByte hk]

/-- With the parity among the rows, the byte is lost: the parity is counted twice. -/
theorem repairByte_onlyByte {m k c : Nat}
    (hb : ∀ j, j < H → j ≠ m → b j = columns size (H - 1) p (onlyByte size (H - 1) k) j)
    (hc : c ≤ H) (hp : p < c) (hkn : k < H - 1) (hk : stripe5 p m = some k) (hlen : 0 < len size (H - 1) k) :
    repairByte b m 0 c ^^^ b p 0 = 0 := by
  have hpm : p ≠ m := (stripe5_ne hk).symm
  rw [repairByte_columns hb hc (by omega) hpm, parity_onlyByte hkn hlen, xorTo_single hp]
  · simp only [columns, stripe5_self, if_pos hpm, parity_onlyByte hkn hlen]
    decide
  · intro j _ hjp
    split
    · obtain ⟨k', hk'⟩ : ∃ k', stripe5 p j = some k' := by
        cases hj : stripe5 p j with
        | none => exact absurd (stripe5_eq_none_iff.mp hj) hjp
        | some k' => exact ⟨k', rfl⟩
      have hkk : k' ≠ k := by
        have h₁ := stripe5_eq_some_iff.mp hk
        have h₂ := stripe5_eq_some_iff.mp hk'
        omega
      simp only [columns, hk']
      exact piece_onlyByte_ne hlen hkk
    · rfl

/-- The repair is wrong for some block if the parity comes before a byte of the block. -/
theorem repairedRow_ne {m k : Nat} (hH : 2 ≤ H) (hp : p < H - 1) (hsize : p < size) (hm : m < H)
    (hk : stripe5 p m = some k) (hks : k < size)
    (hb : ∀ j, j < H → j ≠ m → b j = columns size (H - 1) p (onlyByte size (H - 1) k) j) (hbm : b m 0 = 0) :
    repairedRow b p m (H - 1) size 0 ≠ piece size (H - 1) (onlyByte size (H - 1) k) k 0 := by
  have hkn : k < H - 1 := by
    rcases stripe5_eq_some_iff.mp hk with h | h <;> omega
  have hlen : 0 < len size (H - 1) k :=
    Nat.pos_of_ne_zero (fun h => absurd ((len_eq_zero_iff hkn).mp h) (by omega))
  have hzero : repairedRow b p m (H - 1) size 0 = 0 := by
    unfold repairedRow
    split
    · exact repairByte_onlyByte hb (Nat.sub_le H 1) hp hkn hk hlen
    · split
      · rename_i hshort hlast
        have hlt : size < H - 1 := (Nat.div_eq_zero_iff_lt (by omega)).mp hlast.1.symm
        rw [Nat.mod_eq_of_lt hlt]
        exact repairByte_onlyByte hb (by omega) hsize hkn hk hlen
      · exact hbm
  rw [hzero, piece_onlyByte hlen]
  decide

end Repair

/-! ## The levels -/

section Levels

variable {maxHosts H : Nat} {r : Rrmem} {block : Nat} {missing : Option Nat}

theorem recovers_zero (hv : Valid maxHosts H r block) (hraid : r.raid = 0) (d : Nat → UInt8) :
    Recovers maxHosts H r block none d := by
  obtain ⟨w, hw, hpiece⟩ := writeBufs_zero hv hraid d
  refine ⟨w, hw, fun data => ⟨_, readBufs_zero hv hraid _ data, ?_⟩⟩
  have hH : 0 < (plain H).n := by have := hv.2.1; exact Nat.lt_of_lt_of_le Nat.zero_lt_two this
  apply (gather_iff hH).mpr
  intro i hi k hk x _
  obtain rfl : i = k := Option.some.inj hk
  exact congrFun (hpiece i (List.mem_range.mp hi)) x

/-- At levels 4 and 5 the block is recovered exactly if the missing stripe is repaired. -/
theorem recovers_iff (hv : Valid maxHosts H r block) (hraid : r.raid = 4 ∨ r.raid = 5) (hm : ∀ m ∈ missing, m < H)
    (d : Nat → UInt8) : ∃ w, (∀ i, i < H → w i = columns r.blockSize (H - 1) (parityHost H r.raid block) d i) ∧
      (Recovers maxHosts H r block missing d ↔ ∀ m ∈ missing, ∀ k, stripe5 (parityHost H r.raid block) m = some k →
        ∀ x, x < len r.blockSize (H - 1) k →
          repairedRow (without missing w) (parityHost H r.raid block) m (H - 1) r.blockSize x =
            piece r.blockSize (H - 1) d k x) := by
  obtain ⟨w, hw, hcol⟩ := writeBufs_columns hv hraid d
  refine ⟨w, hcol, ?_⟩
  have hrows : ∀ j, j < H → j ≠ parityHost H r.raid block → missing ≠ some j →
      without missing w j = columns r.blockSize (H - 1) (parityHost H r.raid block) d j :=
    fun j hj _ hne => (if_neg hne).trans (hcol j hj)
  rw [← holds_mended_iff hm hrows]
  constructor
  · rintro ⟨w', hw', hread⟩
    cases Option.some.inj (hw.symm.trans hw')
    obtain ⟨out, hout, hiff⟩ := readBufs_iff hv hraid missing (without missing w) (fun _ => 0) d
    obtain ⟨out', hout', heq⟩ := hread (fun _ => 0)
    cases Option.some.inj (hout.symm.trans hout')
    exact hiff.mp heq
  · intro h
    refine ⟨w, hw, fun data => ?_⟩
    obtain ⟨out, hout, hiff⟩ := readBufs_iff hv hraid missing (without missing w) data d
    exact ⟨out, hout, hiff.mpr h⟩

/-- The rows of the hosts that were read. -/
theorem without_of_ne {w : Bufs} {size n p m : Nat} {d : Nat → UInt8} (hmiss : missing = some m)
    (hcol : ∀ i, i < H → w i = columns size n p d i) (j : Nat) (hj : j < H) (hjm : j ≠ m) :
    without missing w j = columns size n p d j := by
  unfold without
  rw [if_neg (fun heq => hjm (Option.some.inj (heq.symm.trans hmiss))), hcol j hj]

/-- **Levels 0 and 4 recover every block**, level 4 without any one host. -/
theorem raid04_recovers (hv : Valid maxHosts H r block) :
    (r.raid = 0 → ∀ d, Recovers maxHosts H r block none d) ∧
    (r.raid = 4 → ∀ missing : Option Nat, (∀ m ∈ missing, m < H) → ∀ d, Recovers maxHosts H r block missing d) := by
  refine ⟨recovers_zero hv, fun hraid missing hm d => ?_⟩
  obtain ⟨w, hcol, hiff⟩ := recovers_iff hv (.inl hraid) hm d
  apply hiff.mpr
  intro m hmiss k hk x hx
  have hlast : parityHost H r.raid block = H - 1 := if_pos hraid
  have hH := hv.2.1
  exact repairedRow_eq hH (by omega) (.inl hlast) (without_of_ne hmiss hcol) (hm m hmiss) hk hx

/-- Three bytes on two data hosts, the host with the longer stripe missing. -/
theorem raid04_recovers_uneven :
    Recovers 5 3 ⟨4, 3, 1⟩ 0 (some 0) (fun i => [7, 8, 9].getD i 0) ∧
    Recovers 5 3 ⟨0, 3, 1⟩ 0 none (fun i => [7, 8, 9].getD i 0) :=
  ⟨(raid04_recovers (by decide)).2 rfl (some 0) (by decide) _, (raid04_recovers (by decide)).1 rfl _⟩

/-- **Level 5 recovers every block exactly if** the missing host has the parity or no byte of the block, or the parity
is on the last host, or on one past the bytes of the block. -/
theorem raid5_recovers_iff (hv : Valid maxHosts H r block) (hraid : r.raid = 5) (hm : ∀ m ∈ missing, m < H) :
    (∀ d, Recovers maxHosts H r block missing d) ↔ ∀ m ∈ missing, ∀ k, stripe5 (block % H) m = some k →
      block % H = H - 1 ∨ r.blockSize ≤ block % H ∨ r.blockSize ≤ k := by
  have hp : parityHost H r.raid block = block % H := if_neg (by omega)
  have hH := hv.2.1
  have hlt : block % H < H := Nat.mod_lt block (by omega)
  constructor
  · intro h m hmiss k hk
    by_contra hbad
    obtain ⟨w, hcol, hiff⟩ := recovers_iff hv (.inr hraid) hm (onlyByte r.blockSize (H - 1) k)
    rw [hp] at hcol hiff
    have hkn : k < H - 1 := by
      have := hm m hmiss
      rcases stripe5_eq_some_iff.mp hk with h | h <;> omega
    have hlen : 0 < len r.blockSize (H - 1) k :=
      Nat.pos_of_ne_zero (fun h => absurd ((len_eq_zero_iff hkn).mp h) (by omega))
    refine repairedRow_ne hH (by omega) (by omega) (hm m hmiss) hk (by omega) (without_of_ne hmiss hcol) ?_
      (hiff.mp (h _) m hmiss k hk 0 hlen)
    rw [without, if_pos (Option.mem_def.mp hmiss)]
    rfl
  · intro hcond d
    obtain ⟨w, hcol, hiff⟩ := recovers_iff hv (.inr hraid) hm d
    rw [hp] at hcol hiff
    apply hiff.mpr
    intro m hmiss k hk x hx
    have hkn : k < H - 1 := by
      have := hm m hmiss
      rcases stripe5_eq_some_iff.mp hk with h | h <;> omega
    rcases hcond m hmiss k hk with hlast | hsize | hempty
    · exact repairedRow_eq hH hlt (.inl hlast) (without_of_ne hmiss hcol) (hm m hmiss) hk hx
    · exact repairedRow_eq hH hlt (.inr hsize) (without_of_ne hmiss hcol) (hm m hmiss) hk hx
    · rw [(len_eq_zero_iff hkn).mpr hempty] at hx
      omega

/-- With the parity of block 2 on the last of three hosts, the first one may be missing. -/
theorem raid5_recovers_iff_last : 2 % 3 = 3 - 1 ∧ ∀ d, Recovers 5 3 ⟨5, 2, 4⟩ 2 (some 0) d :=
  ⟨by decide, (raid5_recovers_iff (by decide) rfl (by decide)).mpr (by decide)⟩

/-- Two bytes on three hosts, the parity on the first one: without the second host its byte reads as zero. -/
theorem raid5_loses_stripe : ¬ Recovers 5 3 ⟨5, 2, 1⟩ 0 (some 1) (fun i => [1, 2].getD i 0) := by
  rintro ⟨w, hw, hread⟩
  obtain rfl := Option.some.inj hw
  obtain ⟨out, hout, heq⟩ := hread (fun _ => 0)
  obtain rfl := Option.some.inj hout
  exact absurd heq (by decide)

end Levels

end Raid
end Bb
