import BlueBridge.Raid
import BlueBridge.Stripes
/-!
# RaidStripes — what slicing, reassembly, parity and repair compute

Each of the loops keeps its own running `alloc` and `base`; all of them follow the pieces of `Stripes`.  Reassembly
gives a block back exactly if every host holds its piece of it (`gather_iff`), the parity is that of the pieces
(`parity45_eq`), and the buffers of levels 4 and 5 are the `columns` of the block.
-/
namespace Bb
namespace Raid

open Bytes Stripes
open Function (update update_self update_of_ne)

/-! ## The loop over the hosts -/

/-- The hosts of a list that have a stripe, with its number. -/
def visits (L : Layout) (r : List Nat) : List (Nat × Nat) := r.filterMap (fun i => (L.stripe i).map (i, ·))

theorem mem_visits {L : Layout} {r : List Nat} {i k : Nat} : (i, k) ∈ visits L r ↔ i ∈ r ∧ L.stripe i = some k := by
  simp [visits, List.mem_filterMap]

/-- The running `alloc` is the length of the piece, since the longer pieces come first. -/
theorem alloc_eq {size n k alloc : Nat} (h : k < size % n → alloc = size / n + 1) :
    (if size % n ≤ k then size / n else alloc) = len size n k := by
  unfold len
  split
  · rw [if_neg (by omega), Nat.add_zero]
  · rw [if_pos (by omega)]
    exact h (by omega)

theorem stripeLoop_eq {σ : Type} {size : Nat} {L : Layout} (copy : σ → Nat → Nat → Nat → σ) :
    ∀ {r : List Nat} {k j alloc : Nat} (s : σ), r.filterMap L.stripe = List.range' k j →
      (k < size % L.n → alloc = size / L.n + 1) →
      stripeLoop size L copy r alloc (off size L.n k) s =
        (visits L r).foldl (fun s v => copy s v.1 (off size L.n v.2) (len size L.n v.2)) s
  | [], _, _, _, _, _, _ => rfl
  | i :: r, k, j, alloc, s, hr, ha => by
    unfold stripeLoop visits
    cases hi : L.stripe i with
    | none =>
      rw [List.filterMap_cons_none hi] at hr
      rw [List.filterMap_cons_none (by rw [hi]; rfl)]
      exact stripeLoop_eq copy s hr ha
    | some k' =>
      rw [List.filterMap_cons_some hi] at hr
      cases j with
      | zero => cases hr
      | succ j =>
        obtain ⟨rfl, hr⟩ := List.cons.inj hr
        rw [List.filterMap_cons_some (by rw [hi]; rfl), List.foldl_cons]
        simp only [alloc_eq ha, ← off_succ]
        refine stripeLoop_eq copy _ hr (fun hk => ?_)
        unfold len
        rw [if_pos (by omega)]

/-- The loop as `slice` and `gather` start it. -/
theorem stripeLoop_start {σ : Type} {size : Nat} {L : Layout} (copy : σ → Nat → Nat → Nat → σ) (s : σ) :
    stripeLoop size L copy L.hosts (startAlloc size L.n) 0 s =
      (visits L L.hosts).foldl (fun s v => copy s v.1 (off size L.n v.2) (len size L.n v.2)) s := by
  rw [← off_zero size L.n]
  refine stripeLoop_eq copy s (L.order.trans List.range_eq_range') (fun h => ?_)
  exact if_pos h

/-! ## Slicing -/

/-- Byte `x` of piece `k` of a block, zero past its end. -/
def piece (size n : Nat) (d : Nat → UInt8) (k x : Nat) : UInt8 :=
  if x < len size n k then d (off size n k + x) else 0

theorem piece_of_lt {size n k x : Nat} (d : Nat → UInt8) (h : x < len size n k) :
    piece size n d k x = d (off size n k + x) := if_pos h

theorem writeBytes_piece (size n : Nat) (d : Nat → UInt8) (k : Nat) :
    writeBytes (fun _ => 0) 0 (readBytes d (off size n k) (len size n k)) = piece size n d k := by
  funext x
  unfold writeBytes piece
  rw [length_readBytes, Nat.sub_zero, Nat.zero_add]
  by_cases hx : x < len size n k
  · rw [if_pos ⟨Nat.zero_le x, hx⟩, if_pos hx, getD_readBytes _ _ hx]
  · rw [if_neg (fun h => hx h.2), if_neg hx]

section Slice

variable {size : Nat} {L : Layout} {d : Nat → UInt8} {w : Bufs} {i k : Nat}

theorem foldl_slice_other : ∀ {vs : List (Nat × Nat)} {w : Bufs}, i ∉ vs.map Prod.fst →
    vs.foldl (fun w v => update w v.1 (writeBytes (w v.1) 0 (readBytes d (off size L.n v.2) (len size L.n v.2)))) w i
      = w i
  | [], _, _ => rfl
  | v :: vs, w, h => by
    rw [List.map_cons, List.mem_cons, not_or] at h
    rw [List.foldl_cons, foldl_slice_other h.2, update_of_ne h.1]

theorem foldl_slice_mem : ∀ {vs : List (Nat × Nat)} {w : Bufs}, (i, k) ∈ vs → (vs.map Prod.fst).Nodup →
    vs.foldl (fun w v => update w v.1 (writeBytes (w v.1) 0 (readBytes d (off size L.n v.2) (len size L.n v.2)))) w i
      = writeBytes (w i) 0 (readBytes d (off size L.n k) (len size L.n k))
  | v :: vs, w, h, hnd => by
    rw [List.map_cons, List.nodup_cons] at hnd
    rw [List.foldl_cons]
    rcases List.mem_cons.mp h with rfl | h
    · rw [foldl_slice_other hnd.1, update_self]
    · have hne : i ≠ v.1 := fun heq => hnd.1 (heq ▸ List.mem_map_of_mem h)
      rw [foldl_slice_mem h hnd.2, update_of_ne hne]

theorem map_fst_visits_sublist (L : Layout) : ∀ r : List Nat, ((visits L r).map Prod.fst).Sublist r
  | [] => .slnil
  | i :: r => by
    unfold visits
    cases hi : L.stripe i with
    | none =>
      rw [List.filterMap_cons_none (by rw [hi]; rfl)]
      exact (map_fst_visits_sublist L r).cons i
    | some k =>
      rw [List.filterMap_cons_some (by rw [hi]; rfl)]
      exact (map_fst_visits_sublist L r).cons_cons i

/-- A data host gets its piece; the rest of its buffer is as it was. -/
theorem slice_data (hi : i ∈ L.hosts) (hk : L.stripe i = some k) :
    slice size L d w i = writeBytes (w i) 0 (readBytes d (off size L.n k) (len size L.n k)) := by
  rw [slice, stripeLoop_start]
  exact foldl_slice_mem (mem_visits.mpr ⟨hi, hk⟩) ((map_fst_visits_sublist L L.hosts).nodup L.nodup)

theorem slice_other (hi : i ∈ L.hosts → L.stripe i = none) : slice size L d w i = w i := by
  rw [slice, stripeLoop_start]
  refine foldl_slice_other (fun h => ?_)
  obtain ⟨⟨j, k⟩, hjk, rfl⟩ := List.mem_map.mp h
  obtain ⟨hj, hk⟩ := mem_visits.mp hjk
  rw [hi hj] at hk
  cases hk

end Slice

/-! ## Reassembly -/

section Gather

variable {size : Nat} {L : Layout} {bufs : Bufs}

/-- The pieces are laid end to end: later ones leave what lies before them. -/
theorem foldl_gather : ∀ {vs : List (Nat × Nat)} {k j : Nat} (data : Nat → UInt8), vs.map Prod.snd = List.range' k j →
    (∀ q, q < off size L.n k → vs.foldl (fun data v =>
      writeBytes data (off size L.n v.2) (readBytes (bufs v.1) 0 (len size L.n v.2))) data q = data q) ∧
    ∀ v ∈ vs, ∀ x, x < len size L.n v.2 → vs.foldl (fun data v =>
      writeBytes data (off size L.n v.2) (readBytes (bufs v.1) 0 (len size L.n v.2))) data (off size L.n v.2 + x)
        = bufs v.1 x
  | [], _, _, _, _ => ⟨fun _ _ => rfl, fun v hv => absurd hv List.not_mem_nil⟩
  | v :: vs, k, 0, _, h => by cases h
  | v :: vs, k, j + 1, data, h => by
    obtain ⟨rfl, h⟩ := List.cons.inj h
    obtain ⟨hbelow, hmem⟩ := foldl_gather (writeBytes data (off size L.n v.2)
      (readBytes (bufs v.1) 0 (len size L.n v.2))) h
    constructor
    · intro q hq
      rw [List.foldl_cons, hbelow q (by rw [off_succ]; omega), writeBytes_of_not_mem _ (by omega)]
    · intro v' hv' x hx
      rw [List.foldl_cons]
      rcases List.mem_cons.mp hv' with rfl | hv'
      · have hlt : x < (readBytes (bufs v'.1) 0 (len size L.n v'.2)).length := by rwa [length_readBytes]
        rw [hbelow _ (by rw [off_succ]; omega), writeBytes_of_lt _ _ hlt, getD_readBytes _ _ hx, Nat.zero_add]
      · exact hmem v' hv' x hx

theorem map_snd_visits (L : Layout) (r : List Nat) : (visits L r).map Prod.snd = r.filterMap L.stripe := by
  rw [visits, List.map_filterMap]
  congr 1
  funext i
  cases L.stripe i <;> rfl

theorem gather_byte {i k x : Nat} {data : Nat → UInt8} (hi : i ∈ L.hosts) (hk : L.stripe i = some k)
    (hx : x < len size L.n k) : gather size L bufs data (off size L.n k + x) = bufs i x := by
  rw [gather, stripeLoop_start]
  have hsnd : (visits L L.hosts).map Prod.snd = List.range' 0 L.n :=
    (map_snd_visits L L.hosts).trans (L.order.trans List.range_eq_range')
  exact (foldl_gather data hsnd).2 (i, k) (mem_visits.mpr ⟨hi, hk⟩) x hx

theorem Layout.stripe_lt {i k : Nat} (hi : i ∈ L.hosts) (hk : L.stripe i = some k) : k < L.n := by
  have hmem : k ∈ L.hosts.filterMap L.stripe := List.mem_filterMap.mpr ⟨i, hi, hk⟩
  rwa [L.order, List.mem_range] at hmem

theorem Layout.exists_host {k : Nat} (hk : k < L.n) : ∃ i ∈ L.hosts, L.stripe i = some k := by
  have hmem : k ∈ List.range L.n := List.mem_range.mpr hk
  rwa [← L.order, List.mem_filterMap] at hmem

/-- **Reassembly gives a block exactly if every data host holds its piece of it.** -/
theorem gather_iff {d data : Nat → UInt8} (hn : 0 < L.n) :
    readBytes (gather size L bufs data) 0 size = readBytes d 0 size ↔
      ∀ i ∈ L.hosts, ∀ k, L.stripe i = some k → ∀ x, x < len size L.n k → bufs i x = piece size L.n d k x := by
  constructor
  · intro h i hi k hk x hx
    have hlt : off size L.n k + x < size := by
      have := @off_add_len_le size _ _ (Layout.stripe_lt hi hk)
      omega
    have hbyte := congrArg (fun l => l.getD (off size L.n k + x) 0) h
    simp only [getD_readBytes _ _ hlt, Nat.zero_add] at hbyte
    rw [piece_of_lt d hx]
    exact (gather_byte hi hk hx).symm.trans hbyte
  · intro h
    refine readBytes_congr (fun q hq => ?_)
    obtain ⟨k, x, hk, hx, rfl⟩ := exists_piece hn hq
    obtain ⟨i, hi, hik⟩ := Layout.exists_host hk
    rw [Nat.zero_add, gather_byte hi hik hx, h i hi k hik x hx, piece_of_lt d hx]

end Gather

/-! ## Parity -/

section Parity

variable {size n : Nat} {d : Nat → UInt8}

/-- Byte `x` of the parity of a block. -/
def parity (size n : Nat) (d : Nat → UInt8) (x : Nat) : UInt8 := xorTo n (fun k => piece size n d k x)

/-- `base` is where the next piece starts. -/
theorem parityByte_run (d : Nat → UInt8) (size n i : Nat) : ∀ j,
    (List.range j).foldl (fun (s : UInt8 × Nat) j =>
      (s.1 ^^^ d (i + s.2), s.2 + size / n + if j < size % n then 1 else 0)) (0, 0)
    = (xorTo j (fun k => d (i + off size n k)), off size n j)
  | 0 => by simp
  | j + 1 => by
    rw [List.range_succ, List.foldl_append, parityByte_run d size n i j, xorTo_succ, off_succ]
    simp only [List.foldl_cons, List.foldl_nil, len, Nat.add_assoc]

theorem parityByte_eq {x : Nat} (h : x < size / n) : parityByte d size n x = parity size n d x := by
  unfold parityByte
  rw [parityByte_run]
  refine xorTo_congr (fun k _ => ?_)
  rw [piece_of_lt d (by unfold len; omega), Nat.add_comm]

/-- Among the longer pieces, `base` is at the last byte of the next one. -/
theorem lastParityByte_run (d : Nat → UInt8) (size n : Nat) : ∀ j, j ≤ size % n →
    (List.range j).foldl (fun (s : UInt8 × Nat) _ => (s.1 ^^^ d s.2, s.2 + (size / n + 1))) (0, size / n)
    = (xorTo j (fun k => piece size n d k (size / n)), off size n j + size / n)
  | 0, _ => by simp
  | j + 1, h => by
    have hlong : size / n < len size n j := by
      unfold len
      rw [if_pos (by omega)]
      omega
    have hlen : len size n j = size / n + 1 := by
      unfold len
      rw [if_pos (by omega)]
    rw [List.range_succ, List.foldl_append, lastParityByte_run d size n j (by omega), xorTo_succ, off_succ,
      piece_of_lt d hlong, hlen]
    simp only [List.foldl_cons, List.foldl_nil, Prod.mk.injEq, true_and]
    omega

/-- The shorter pieces have no byte at `size / n`. -/
theorem parity_last (hn : 0 < n) :
    parity size n d (size / n) = xorTo (size % n) (fun k => piece size n d k (size / n)) := by
  refine xorTo_eq_of_zero (Nat.le_of_lt (Nat.mod_lt size hn)) (fun k hk _ => ?_)
  unfold piece len
  rw [if_neg (show ¬ k < size % n by omega), if_neg (by omega)]

theorem lastParityByte_eq (hn : 0 < n) : lastParityByte d size n = parity size n d (size / n) := by
  unfold lastParityByte
  rw [lastParityByte_run d size n _ (Nat.le_refl _), parity_last hn]

theorem parity_of_long {x : Nat} (h : ∀ k, len size n k ≤ x) : parity size n d x = 0 := by
  refine (xorTo_eq_of_zero (Nat.zero_le n) (fun k _ _ => ?_)).trans (xorTo_zero _)
  exact if_neg (Nat.not_lt.mpr (h k))

theorem foldl_update (g f : Nat → UInt8) : ∀ a x,
    (List.range a).foldl (fun p i => update p i (g i)) f x = if x < a then g x else f x
  | 0, _ => rfl
  | a + 1, x => by
    rw [List.range_succ, List.foldl_append, List.foldl_cons, List.foldl_nil]
    by_cases hx : x = a
    · subst hx
      rw [update_self, if_pos (Nat.lt_succ_self x)]
    · rw [update_of_ne hx, foldl_update g f a x]
      congr 1
      exact propext ⟨by omega, by omega⟩

/-- **`parity45` computes the parity of the pieces.** -/
theorem parity45_eq (hn : 0 < n) : parity45 d size n (fun _ => 0) = parity size n d := by
  have hlong : ∀ k x, size / n < x ∨ size / n = x ∧ size % n = 0 → len size n k ≤ x := by
    intro k x hx
    unfold len
    split <;> omega
  funext x
  unfold parity45
  split
  · by_cases hx : x = size / n
    · rw [hx, update_self, lastParityByte_eq hn]
    · rw [update_of_ne hx, foldl_update]
      split
      · exact parityByte_eq ‹_›
      · exact (parity_of_long (fun k => hlong k x (.inl (by omega)))).symm
  · rw [foldl_update]
    split
    · exact parityByte_eq ‹_›
    · exact (parity_of_long (fun k => hlong k x (by omega))).symm

end Parity

/-! ## The parity check -/

section Check

variable {size n : Nat} {d : Nat → UInt8} {w : Bufs}

theorem checkByte_eq (b : Bufs) (i : Nat) : ∀ n, checkByte b i n = (xorTo n (fun k => b k i)).toInt8
  | 0 => by simp [checkByte]
  | n + 1 => by
    have ih := checkByte_eq b i n
    unfold checkByte at ih ⊢
    rw [List.range_succ, List.foldl_append, ih, xorTo_succ, UInt8.toInt8_xor]
    rfl

/-- **A signed byte is equal to an unsigned one only below `0x80`.** -/
theorem sameByte_iff (b q : UInt8) : sameByte b.toInt8 q = true ↔ q = b ∧ b.toNat < 128 := by
  have hb := b.toNat_lt
  have hq := q.toNat_lt
  have htoInt : b.toInt8.toInt = if 2 * b.toNat < 2 ^ 8 then (b.toNat : Int) else (b.toNat : Int) - 2 ^ 8 :=
    BitVec.toInt_eq_toNat_cond ..
  rw [sameByte, decide_eq_true_iff, htoInt, ← UInt8.toNat_inj]
  split <;> omega

/-- Byte `x` of a stripe as `rrmem_write` slices the block, whatever was in the buffers. -/
theorem slice_plain {k x : Nat} (hk : k < n) (hx : x < len size n k) :
    slice size (plain n) d w k x = piece size n d k x := by
  rw [slice_data (L := plain n) (List.mem_range.mpr hk) rfl, piece_of_lt d hx]
  have hlt : x < (readBytes d (off size n k) (len size n k)).length := by rwa [length_readBytes]
  have := writeBytes_of_lt (w k) 0 hlt
  rw [Nat.zero_add] at this
  exact this.trans (getD_readBytes _ _ hx)

/-- A full column of the stripes. -/
theorem checkByte_column {x : Nat} (hx : x < size / n) :
    checkByte (slice size (plain n) d w) x n = (parity size n d x).toInt8 := by
  rw [checkByte_eq]
  exact congrArg _ (xorTo_congr (fun k hk => slice_plain hk (by unfold len; omega)))

/-- The column only the longer stripes have. -/
theorem checkByte_last (hn : 0 < n) :
    checkByte (slice size (plain n) d w) (size / n) (size % n) = (parity size n d (size / n)).toInt8 := by
  have hmod := Nat.mod_lt size hn
  rw [checkByte_eq, parity_last hn]
  refine congrArg _ (xorTo_congr (fun k hk => slice_plain (by omega) ?_))
  unfold len
  rw [if_pos hk]
  omega

/-- The full columns of `p` are found right. -/
theorem columns_iff (p : Nat → UInt8) :
    (List.range (size / n)).all (fun i => sameByte (checkByte (slice size (plain n) d w) i n) (p i)) = true ↔
      ∀ x, x < size / n → p x = parity size n d x ∧ (parity size n d x).toNat < 128 := by
  simp only [List.all_eq_true, List.mem_range]
  exact forall_congr' (fun x => forall_congr' (fun hx => by rw [checkByte_column hx, sameByte_iff]))

/-- The last column as well. -/
theorem forall_startAlloc_iff {P : Nat → Prop} :
    (∀ x, x < startAlloc size n → P x) ↔ (∀ x, x < size / n → P x) ∧ (size % n > 0 → P (size / n)) := by
  unfold startAlloc
  constructor
  · intro h
    exact ⟨fun x hx => h x (by split <;> omega), fun hmod => h _ (by rw [if_pos hmod]; exact Nat.lt_succ_self _)⟩
  · rintro ⟨hlow, hlast⟩ x hx
    split at hx
    · rcases Nat.lt_succ_iff_lt_or_eq.1 hx with hx | rfl
      · exact hlow x hx
      · exact hlast ‹_›
    · exact hlow x hx

/-- **What the check accepts**: the parity of the block, if all of it is below `0x80`. -/
theorem checkParity45_iff (hn : 0 < n) (p : Nat → UInt8) :
    checkParity45 (slice size (plain n) d w) n p size = some true ↔
      ∀ x, x < startAlloc size n → p x = parity size n d x ∧ (parity size n d x).toNat < 128 := by
  rw [forall_startAlloc_iff]
  unfold checkParity45
  simp only [columns_iff, checkByte_last hn, sameByte_iff]
  by_cases hlow : ∀ x, x < size / n → p x = parity size n d x ∧ (parity size n d x).toNat < 128
  · rw [if_pos hlow]
    by_cases hmod : size % n > 0
    · rw [if_pos hmod]
      split
      · exact ⟨fun _ => ⟨hlow, fun _ => ‹_›⟩, fun _ => rfl⟩
      · refine ⟨fun h => ?_, fun h => absurd (h.2 hmod) ‹_›⟩
        split at h <;> cases h
    · rw [if_neg hmod]
      exact ⟨fun _ => ⟨hlow, fun h => absurd h hmod⟩, fun _ => rfl⟩
  · rw [if_neg hlow]
    exact ⟨fun h => (by cases h), fun h => absurd h.1 hlow⟩

/-- The check reads nothing but the buffer if there is no last column, or no other. -/
theorem checkParity45_returns (h : n ∣ size ∨ size < n) (b : Bufs) (p : Nat → UInt8) :
    ∃ r, checkParity45 b n p size = some r := by
  have hshape : size % n > 0 → size / n = 0 := fun hmod =>
    h.elim (fun hdvd => absurd hmod (by rw [Nat.mod_eq_zero_of_dvd hdvd]; exact Nat.lt_irrefl 0)) Nat.div_eq_of_lt
  unfold checkParity45
  dsimp only
  split
  · split
    · rw [if_pos (hshape ‹_›)]
      split <;> exact ⟨_, rfl⟩
    · exact ⟨_, rfl⟩
  · exact ⟨_, rfl⟩

/-- **A wrong last byte behind right ones is not reported**: the report reads outside the buffer. -/
theorem checkParity45_none (hn : 0 < n) {p : Nat → UInt8} (hmod : size % n > 0) (hdiv : n ≤ size)
    (hlow : ∀ x, x < size / n → p x = parity size n d x ∧ (parity size n d x).toNat < 128)
    (hlast : p (size / n) ≠ parity size n d (size / n)) : checkParity45 (slice size (plain n) d w) n p size = none := by
  have hpos : size / n ≠ 0 := Nat.pos_iff_ne_zero.1 (Nat.div_pos hdiv hn)
  unfold checkParity45
  simp only [columns_iff, checkByte_last hn, sameByte_iff]
  rw [if_pos hlow, if_pos hmod, if_neg (fun h => hlast h.1), if_neg hpos]

/-- `p` has the bytes that `parity45` computes for the block. -/
def AgreesWithParity (size n : Nat) (d p : Nat → UInt8) : Prop :=
  ∀ x, x < startAlloc size n → p x = parity45 d size n (fun _ => 0) x

end Check

/-- **The check answers for every buffer, and accepts exactly the correct parity of a block**, if no byte of the parity
has its top bit set and the stripes are of one length or of one byte, and only then. -/
theorem checkParity45_exact_iff {size n : Nat} (hn : 1 ≤ n) (d : Nat → UInt8) (w : Bufs) :
    (∀ p, ∃ r, checkParity45 (slice size (plain n) d w) n p size = some r ∧ (r = true ↔ AgreesWithParity size n d p)) ↔
      (∀ x, x < startAlloc size n → (parity45 d size n (fun _ => 0) x).toNat < 128) ∧ (n ∣ size ∨ size < n) := by
  simp only [AgreesWithParity, parity45_eq hn]
  constructor
  · intro h
    have hlow : ∀ x, x < startAlloc size n → (parity size n d x).toNat < 128 := by
      obtain ⟨r, hr, hiff⟩ := h (parity size n d)
      obtain rfl : r = true := hiff.2 (fun _ _ => rfl)
      exact fun x hx => ((checkParity45_iff hn _).1 hr x hx).2
    refine ⟨hlow, ?_⟩
    by_contra hbad
    rw [not_or, Nat.not_lt] at hbad
    have hmod : size % n > 0 := Nat.pos_of_ne_zero (fun h0 => hbad.1 (Nat.dvd_of_mod_eq_zero h0))
    -- the parity with its last byte changed
    obtain ⟨r, hr, -⟩ := h (update (parity size n d) (size / n) (parity size n d (size / n) + 1))
    rw [checkParity45_none hn hmod hbad.2 ?_ ?_] at hr
    · cases hr
    · intro x hx
      rw [update_of_ne (Nat.ne_of_lt hx)]
      exact ⟨rfl, (forall_startAlloc_iff.1 hlow).1 x hx⟩
    · rw [update_self]
      simp
  · rintro ⟨hlow, hshape⟩ p
    obtain ⟨r, hr⟩ := checkParity45_returns hshape (slice size (plain n) d w) p
    refine ⟨r, hr, ?_⟩
    have haccept := @checkParity45_iff size n d w hn p
    rw [hr, Option.some_inj] at haccept
    rw [haccept]
    exact ⟨fun h x hx => (h x hx).1, fun h x hx => ⟨h x hx, hlow x hx⟩⟩

theorem checkParity45_exact_text : startAlloc 4 2 = 2 ∧
    ∀ p, ∃ r, checkParity45 (slice 4 (plain 2) (fun i => [0x61, 0x62, 0x63, 0x64].getD i 0) zeros) 2 p 4 = some r ∧
      (r = true ↔ AgreesWithParity 4 2 (fun i => [0x61, 0x62, 0x63, 0x64].getD i 0) p) :=
  ⟨rfl, (checkParity45_exact_iff (by decide) _ zeros).2 ⟨by decide, by decide⟩⟩

theorem checkParity45_rejects_own : checkParity45 (slice 1 (plain 1) (fun _ => 0x80) zeros) 1
    (parity45 (fun _ => 0x80) 1 1 (fun _ => 0)) 1 = some false ∧
    AgreesWithParity 1 1 (fun _ => 0x80) (parity45 (fun _ => 0x80) 1 1 (fun _ => 0)) :=
  ⟨by decide, fun _ _ => rfl⟩

/-! ## Repair -/

section Repair

variable {b : Bufs} {p m n size : Nat}

theorem repairByte_eq (b : Bufs) (m x n : Nat) :
    repairByte b m x n = xorTo n (fun j => if j ≠ m then b j x else 0) := by
  unfold repairByte xorTo
  congr 1
  funext a j
  by_cases hj : j = m
  · simp [hj]
  · simp [hj]

/-- The missing row after the repair. -/
def repairedRow (b : Bufs) (p m n size x : Nat) : UInt8 :=
  if x < size / n then repairByte b m x n ^^^ b p x
  else if x = size / n ∧ m < size % n then repairByte b m x (size % n) ^^^ b p x
  else b m x

/-- Only rows that the repair does not write are read. -/
theorem repairByte_update (b : Bufs) (m x n : Nat) (row : Nat → UInt8) :
    repairByte (update b m row) m x n = repairByte b m x n := by
  rw [repairByte_eq, repairByte_eq]
  refine xorTo_congr (fun j _ => ?_)
  split
  · rw [update_of_ne ‹_›]
  · rfl

theorem foldl_repair (hp : p ≠ m) (b : Bufs) : ∀ a,
    (List.range a).foldl (fun b i => update b m (update (b m) i (repairByte b m i n ^^^ b p i))) b =
      update b m (fun x => if x < a then repairByte b m x n ^^^ b p x else b m x)
  | 0 => by simp
  | a + 1 => by
    rw [List.range_succ, List.foldl_append, foldl_repair hp b a, List.foldl_cons, List.foldl_nil, repairByte_update,
      update_self, update_of_ne hp, Function.update_idem]
    congr 1
    funext x
    by_cases hx : x = a
    · subst hx
      rw [update_self, if_pos (Nat.lt_succ_self x)]
    · rw [update_of_ne hx]
      congr 1
      exact propext ⟨by omega, by omega⟩

theorem repair_eq (hp : p ≠ m) (b : Bufs) :
    repairStripeFromParity45 b p m n size = update b m (repairedRow b p m n size) := by
  unfold repairStripeFromParity45
  simp only [foldl_repair hp b]
  split
  · rw [repairByte_update, update_self, update_of_ne hp, Function.update_idem]
    congr 1
    funext x
    unfold repairedRow
    by_cases hx : x = size / n
    · subst hx
      rw [update_self, if_neg (Nat.lt_irrefl _), if_pos ⟨rfl, ‹_›⟩]
    · rw [update_of_ne hx]
      split
      · rfl
      · rw [if_neg (fun h => hx h.1)]
  · congr 1
    funext x
    unfold repairedRow
    split
    · rfl
    · rw [if_neg (fun h => ‹¬ size % n > m› h.2)]

end Repair

/-! ## Levels 4 and 5 -/

/-- What host `i` of a block has, the parity being on host `p`. -/
def columns (size n p : Nat) (d : Nat → UInt8) (i : Nat) : Nat → UInt8 :=
  match stripe5 p i with
  | none   => parity size n d
  | some k => piece size n d k

/-- The host with the parity: the last one at level 4. -/
def parityHost (numHosts raid block : Nat) : Nat := if raid = 4 then numHosts - 1 else block % numHosts

/-- `rbufs` when the stripes are put together. -/
def mended (size n p : Nat) (missing : Option Nat) (b : Bufs) : Bufs :=
  match missing with
  | none   => b
  | some m => if m = p then b else update b m (repairedRow b p m n size)

/-- Every data host has its piece of the block. -/
def Holds (size numHosts p : Nat) (d : Nat → UInt8) (b : Bufs) : Prop :=
  ∀ i, i < numHosts → ∀ k, stripe5 p i = some k →
    ∀ x, x < len size (numHosts - 1) k → b i x = piece size (numHosts - 1) d k x

section Levels

variable {maxHosts H : Nat} {r : Rrmem} {block : Nat} {d : Nat → UInt8}

theorem writeBufs_zero (hv : Valid maxHosts H r block) (hraid : r.raid = 0) (d : Nat → UInt8) :
    ∃ w, writeBufs maxHosts H r block d = some w ∧ ∀ i, i < H → w i = piece r.blockSize H d i := by
  refine ⟨slice r.blockSize (plain H) d zeros, ?_, fun i hi => ?_⟩
  · rw [writeBufs, dif_pos hv, hraid]
    rfl
  · rw [slice_data (L := plain H) (List.mem_range.mpr hi) rfl]
    exact writeBytes_piece r.blockSize H d i

theorem writeBufs_columns (hv : Valid maxHosts H r block) (hraid : r.raid = 4 ∨ r.raid = 5) (d : Nat → UInt8) :
    ∃ w, writeBufs maxHosts H r block d = some w ∧
      ∀ i, i < H → w i = columns r.blockSize (H - 1) (parityHost H r.raid block) d i := by
  have hn : 0 < H - 1 := by have := hv.2.1; omega
  have hparity : parity45 d r.blockSize (H - 1) (zeros 0) = parity r.blockSize (H - 1) d := parity45_eq hn
  rcases hraid with hraid | hraid
  · refine ⟨slice r.blockSize (plain (H - 1)) d (update zeros (H - 1) (parity r.blockSize (H - 1) d)), ?_,
      fun i hi => ?_⟩
    · rw [writeBufs, dif_pos hv, hraid, ← hparity]
      rfl
    · rw [parityHost, if_pos hraid]
      unfold columns
      by_cases hlast : i = H - 1
      · subst hlast
        rw [stripe5_self, slice_other (fun h => absurd (List.mem_range.mp h) (Nat.lt_irrefl _)), update_self]
      · have hlt : i < H - 1 := by omega
        rw [stripe5_of_lt hlt, slice_data (L := plain (H - 1)) (List.mem_range.mpr hlt) rfl, update_of_ne hlast]
        exact writeBytes_piece r.blockSize (H - 1) d i
  · have hne : r.raid ≠ 4 := by omega
    refine ⟨slice r.blockSize (layout5 H block hv.2.1) d (update zeros (block % H) (parity r.blockSize (H - 1) d)), ?_,
      fun i hi => ?_⟩
    · rw [writeBufs, dif_pos hv, hraid, ← hparity]
      rfl
    · rw [parityHost, if_neg hne]
      unfold columns
      cases hk : stripe5 (block % H) i with
      | none => rw [slice_other (fun _ => hk), stripe5_eq_none_iff.mp hk, update_self]
      | some k =>
        have hp : i ≠ block % H := fun hp => by
          rw [stripe5_eq_none_iff.mpr hp] at hk
          cases hk
        rw [slice_data (L := layout5 H block hv.2.1) (List.mem_range.mpr hi) hk, update_of_ne hp]
        exact writeBytes_piece r.blockSize (H - 1) d k

theorem readBufs_zero (hv : Valid maxHosts H r block) (hraid : r.raid = 0) (b : Bufs) (data : Nat → UInt8) :
    readBufs maxHosts H r block none b data = some (gather r.blockSize (plain H) b data) := by
  unfold readBufs
  rw [hraid]
  exact if_pos ⟨hv, rfl⟩

/-- **A read at level 4 or 5 gives a block exactly if, once mended, every data host has its piece.** -/
theorem readBufs_iff (hv : Valid maxHosts H r block) (hraid : r.raid = 4 ∨ r.raid = 5) (missing : Option Nat) (b : Bufs)
    (data d : Nat → UInt8) :
    ∃ out, readBufs maxHosts H r block missing b data = some out ∧
      (readBytes out 0 r.blockSize = readBytes d 0 r.blockSize ↔ Holds r.blockSize H (parityHost H r.raid block) d
        (mended r.blockSize (H - 1) (parityHost H r.raid block) missing b)) := by
  have hn : 0 < H - 1 := by have := hv.2.1; omega
  have hmend : ∀ p, (match missing with
      | none   => b
      | some m => if m = p then b else repairStripeFromParity45 b p m (H - 1) r.blockSize) =
      mended r.blockSize (H - 1) p missing b := by
    intro p
    unfold mended
    cases missing with
    | none => rfl
    | some m =>
      by_cases hm : m = p
      · simp [hm]
      · simp [hm, repair_eq (Ne.symm hm)]
  rcases hraid with hraid | hraid
  · refine ⟨gather r.blockSize (plain (H - 1)) (mended r.blockSize (H - 1) (H - 1) missing b) data, ?_, ?_⟩
    · unfold readBufs
      rw [hraid, ← hmend]
      exact if_pos hv
    · rw [parityHost, if_pos hraid, gather_iff (L := plain (H - 1)) hn]
      constructor
      · intro h i hi k hk
        rcases stripe5_eq_some_iff.mp hk with ⟨hlt, rfl⟩ | ⟨hlt, -⟩
        · exact h k (List.mem_range.mpr hlt) k rfl
        · omega
      · intro h i hi k hk
        have hlt := List.mem_range.mp hi
        exact h i (by omega) k ((stripe5_of_lt hlt).trans hk)
  · have hne : r.raid ≠ 4 := by omega
    refine ⟨gather r.blockSize (layout5 H block hv.2.1) (mended r.blockSize (H - 1) (block % H) missing b) data, ?_, ?_⟩
    · unfold readBufs
      rw [hraid, ← hmend]
      exact dif_pos hv
    · rw [parityHost, if_neg hne, gather_iff (L := layout5 H block hv.2.1) hn]
      exact ⟨fun h i hi => h i (List.mem_range.mpr hi), fun h i hi => h i (List.mem_range.mp hi)⟩

end Levels

end Raid
end Bb
