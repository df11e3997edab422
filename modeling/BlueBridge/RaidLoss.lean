import BlueBridge.RaidRecover
/-!
# RaidLoss — a write that one host missed, and a later read (`read_raid_mem`, `write_raid_mem`)

`write_raid_mem` returns when one acknowledgement is missing, and nothing is kept of which host that was.  That host
still has its part of the old block, and a read takes it for the new one: the read gives the new block exactly if it
does without that host, or the bytes it uses of it are the same in both (`raid4_read_after_loss_iff`).
-/
namespace Bb
namespace Raid

open Bytes Stripes
open Function (update update_self update_of_ne)

/-! ## The receive loop -/

/-- The outcomes of a receive loop that returns, from its `i`th turn on: the hosts `rs` are heard, each answering
`resp`, with time-outs while too few have been heard, and with one at the end unless all have been.  A receive that never
times out, as `simple_epoll_rcv` and `dpdk_client_rcv`, is told of all hosts or does not return. -/
inductive Heard (hosts needed : Nat) (resp : Nat → List UInt8) : Nat → List Nat → List Rcv → Prop
  | all {i} (h : hosts ≤ i) : Heard hosts needed resp i [] []
  | done {i} (h : needed ≤ i) (hi : i < hosts) : Heard hosts needed resp i [] [none]
  | timeout {i rs outs} (h : i < needed) (hi : i < hosts) :
      Heard hosts needed resp i rs outs → Heard hosts needed resp i rs (none :: outs)
  | answer {i j rs outs} (hi : i < hosts) : Heard hosts needed resp (i + 1) rs outs →
      Heard hosts needed resp i (j :: rs) (some (UInt8.ofNat (j + 2), resp j) :: outs)

theorem heard_all {resp : Nat → List UInt8} {H needed : Nat} : ∀ (is : List Nat) (i : Nat), i + is.length = H →
    Heard H needed resp i is (is.map (fun j => some (UInt8.ofNat (j + 2), resp j)))
  | [], i, h => .all (by simp at h; omega)
  | j :: is, i, h => by
    rw [List.length_cons] at h
    exact .answer (by omega) (heard_all is (i + 1) (by omega))

theorem rcvLoop_heard {σ : Type} {hosts needed : Nat} {resp : Nat → List UInt8} {f : σ → Nat → σ}
    {got : σ → UInt8 → List UInt8 → Option σ} {i : Nat} {rs : List Nat} {outs : List Rcv}
    (h : Heard hosts needed resp i rs outs)
    (hgot : ∀ s, ∀ j ∈ rs, got s (UInt8.ofNat (j + 2)) (resp j) = some (f s j)) (s : σ) :
    rcvLoop hosts needed got outs i s = some (rs.foldl f s, []) := by
  induction h generalizing s with
  | all h => simp [rcvLoop, Nat.not_lt.mpr h]
  | done h hi => simp [rcvLoop, hi, h]
  | timeout h hi _ ih =>
    rw [rcvLoop, if_pos hi]
    simp only [if_neg (Nat.not_le.mpr h)]
    exact ih hgot s
  | @answer i j rs outs hi _ ih =>
    rw [rcvLoop, if_pos hi]
    simp only [hgot s j List.mem_cons_self]
    exact ih (fun s j' hj => hgot s j' (List.mem_cons_of_mem j hj)) (f s j)

section Exchange

variable {maxHosts B : Nat}

theorem hostOf_ofNat {j : Nat} (hj : j < maxHosts) (hmax : maxHosts ≤ 254) :
    hostOf maxHosts (UInt8.ofNat (j + 2)) = some j := by
  have hbyte : (UInt8.ofNat (j + 2)).toNat = j + 2 := UInt8.toNat_ofNat_of_lt' (show j + 2 < 256 by omega)
  unfold hostOf
  rw [hbyte, if_pos (by omega), Nat.add_sub_cancel]

theorem hostOf_eq_some {src : UInt8} {i : Nat} (h : hostOf maxHosts src = some i) : src.toNat = i + 2 := by
  unfold hostOf at h
  split at h
  · cases h
    omega
  · cases h

/-- `Rx.copy` for a payload that fits. -/
def copied (B : Nat) (s : Rx) (host : Nat) (d : List UInt8) : Rx :=
  ⟨writeBytes s.rxBuf 0 d, update s.bufs host (writeBytes (s.bufs host) 0 (readBytes (writeBytes s.rxBuf 0 d) 0 B))⟩

theorem copy_eq {s : Rx} {host : Nat} {d : List UInt8} (hd : d.length ≤ B) :
    s.copy B host d = some (copied B s host d) := if_pos hd

theorem copied_rows {s : Rx} {j : Nat} {d : List UInt8} (hd : d.length = B) :
    (copied B s j d).bufs = update s.bufs j (writeBytes (s.bufs j) 0 d) := by
  subst hd
  simp only [copied, readBytes_writeBytes]

/-- The rows of the hosts heard, when each answers with a whole block. -/
theorem foldl_copied {resp : Nat → List UInt8} (hresp : ∀ j, (resp j).length = B) :
    ∀ (rs : List Nat) (s : Rx) (fd : Nat → Bool),
    let s' := rs.foldl (fun (s : Rx × (Nat → Bool)) j => (copied B s.1 j (resp j), update s.2 j true)) (s, fd)
    ∀ i, (s'.2 i = true ↔ i ∈ rs ∨ fd i = true) ∧
      s'.1.bufs i = if i ∈ rs then writeBytes (s.bufs i) 0 (resp i) else s.bufs i
  | [], s, fd, i => by simp
  | j :: rs, s, fd, i => by
    obtain ⟨hfound, hrow⟩ := foldl_copied hresp rs (copied B s j (resp j)) (update fd j true) i
    simp only [List.foldl_cons]
    refine ⟨hfound.trans ?_, hrow.trans ?_⟩
    · by_cases hij : i = j
      · simp [hij]
      · simp [hij]
    · rw [copied_rows (hresp j)]
      by_cases hij : i = j
      · subst hij
        rw [update_self, writeBytes_idem, ite_self, if_pos List.mem_cons_self]
      · rw [update_of_ne hij]
        simp [hij]

/-- **What a returning `read_raid_mem` gives**: the one host that was not heard, and the blocks of the others. -/
theorem readRaidMem_heard {H needed : Nat} {resp : Nat → List UInt8} {rs : List Nat} {outs : List Rcv}
    {missing : Option Nat} (hmax : maxHosts ≤ 254) (hH : H ≤ maxHosts) (hresp : ∀ j, (resp j).length = B)
    (hm : ∀ m ∈ missing, m < H) (hrs : ∀ i, i ∈ rs ↔ i < H ∧ missing ≠ some i)
    (h : Heard H needed resp 0 rs outs) (rxBuf : Nat → UInt8) :
    ∃ b, readRaidMem maxHosts B H needed zeros rxBuf outs = some (missing, b, []) ∧
      ∀ i, b i = if i ∈ rs then writeBytes (fun _ => 0) 0 (resp i) else fun _ => 0 := by
  have hgot : ∀ s, ∀ j ∈ rs, storeAnswer maxHosts B s (UInt8.ofNat (j + 2)) (resp j) =
      some (copied B s.1 j (resp j), update s.2 j true) := by
    intro s j hj
    have hlt := ((hrs j).mp hj).1
    simp only [storeAnswer, hostOf_ofNat (show j < maxHosts by omega) hmax, Option.bind_eq_bind, Option.bind_some,
      copy_eq (hresp j).le]
  have hrows := foldl_copied hresp rs ⟨rxBuf, zeros⟩ (fun _ => false)
  refine ⟨_, ?_, fun i => (hrows i).2⟩
  unfold readRaidMem
  simp only [rcvLoop_heard h hgot, Option.bind_eq_bind, Option.bind_some, Option.some.injEq, Prod.mk.injEq, and_true]
  have hfound : ∀ i, i < H → ((rs.foldl (fun (s : Rx × (Nat → Bool)) j => (copied B s.1 j (resp j), update s.2 j true))
      (⟨rxBuf, zeros⟩, fun _ => false)).2 i = false ↔ missing = some i) := by
    intro i hi
    rw [← Bool.not_eq_true, (hrows i).1, hrs i]
    simp [hi]
  cases missing with
  | none =>
    rw [List.find?_range_eq_none]
    intro i hi
    simp [hfound i hi]
  | some m =>
    rw [List.find?_range_eq_some]
    have hmH := hm m rfl
    refine ⟨by simp [hfound m hmH], List.mem_range.mpr hmH, fun j hj => ?_⟩
    simp [hfound j (by omega), Nat.ne_of_gt hj]

theorem writeRaidMem_heard {H needed : Nat} {ws : List Nat} {outs : List Rcv} (hmax : maxHosts ≤ 254)
    (hH : H ≤ maxHosts) (hws : ∀ i ∈ ws, i < H) (h : Heard H needed (fun _ => []) 0 ws outs) (w : Bufs)
    (rxBuf : Nat → UInt8) :
    writeRaidMem maxHosts B H needed w rxBuf outs =
      some ((List.range H).map (fun i => (i, readBytes (w i) 0 B)), []) := by
  have hgot : ∀ s, ∀ j ∈ ws, storeAck maxHosts B s (UInt8.ofNat (j + 2)) [] = some (copied B s j []) := by
    intro s j hj
    have hlt := hws j hj
    simp only [storeAck, hostOf_ofNat (show j < maxHosts by omega) hmax, Option.bind_eq_bind, Option.bind_some]
    exact copy_eq (Nat.zero_le B)
  unfold writeRaidMem
  simp only [rcvLoop_heard h hgot, Option.bind_eq_bind, Option.bind_some]

end Exchange

theorem writeRaidMem_sent {maxHosts B H needed : Nat} {w : Bufs} {rxBuf : Nat → UInt8} {outs rest : List Rcv}
    {sent : List (Nat × List UInt8)} (h : writeRaidMem maxHosts B H needed w rxBuf outs = some (sent, rest)) :
    sent = (List.range H).map (fun i => (i, readBytes (w i) 0 B)) := by
  simp only [writeRaidMem, Option.bind_eq_bind, Option.bind_eq_some_iff] at h
  obtain ⟨s, -, h⟩ := h
  cases h
  rfl

theorem deliver_row (lost : Nat → Bool) (block : Nat) (f : Nat → List UInt8) (disks : Disks) : ∀ H i,
    disks.deliver lost block ((List.range H).map (fun i => (i, f i))) i block =
      if i < H ∧ lost i = false then writeBytes (disks i block) 0 (f i) else disks i block
  | 0, i => by simp [Disks.deliver]
  | H + 1, i => by
    have ih := deliver_row lost block f disks H
    unfold Disks.deliver at ih ⊢
    rw [List.range_succ, List.map_append, List.foldl_append, List.map_singleton, List.foldl_cons, List.foldl_nil]
    by_cases hi : i = H
    · subst hi
      have hrow := ih i
      rw [if_neg (fun h => Nat.lt_irrefl i h.1)] at hrow
      cases hl : lost i with
      | true => simp [hrow]
      | false => simp [hrow]
    · have hrow := ih i
      have hlt : i < H + 1 ↔ i < H := by omega
      simp only [hlt]
      split
      · exact hrow
      · rw [update_of_ne hi, hrow]

/-! ## The host that missed the write -/

section Loss

variable {size H : Nat} {missing : Option Nat} {o d : Nat → UInt8} {b : Bufs} {m : Nat}

/-- The bytes of host `m` that a read without `missing` uses, the parity being on host `n`. -/
def Used (size n : Nat) (missing : Option Nat) (m x : Nat) : Prop :=
  if m < n then x < len size n m else ∃ j ∈ missing, j < n ∧ x < len size n j

theorem columns_of_le {n p i x : Nat} (hn : 0 < n) (hx : size ≤ x) : columns size n p d i x = 0 := by
  have hlong : ∀ k, len size n k ≤ x := fun k => (len_le hn k).trans hx
  unfold columns
  cases stripe5 p i with
  | none => exact parity_of_long hlong
  | some k => exact if_neg (Nat.not_lt.mpr (hlong k))

/-- A whole block read back is the column. -/
theorem writeBytes_columns {n p : Nat} (hn : 0 < n) (d : Nat → UInt8) (i : Nat) :
    writeBytes (fun _ => 0) 0 (readBytes (columns size n p d i) 0 size) = columns size n p d i := by
  funext x
  unfold writeBytes
  rw [length_readBytes, Nat.sub_zero, Nat.zero_add]
  by_cases hx : x < size
  · rw [if_pos ⟨Nat.zero_le x, hx⟩, getD_readBytes _ _ hx, Nat.zero_add]
  · rw [if_neg (fun h => hx h.2), columns_of_le hn (Nat.not_lt.mp hx)]

/-- How the repair computes a byte of a stripe, whatever the rows hold. -/
theorem repairedRow_of_lt {n p j x : Nat} (hx : x < len size n j) (hn : 0 < n) :
    ∃ c, c ≤ n ∧ ∀ b : Bufs, repairedRow b p j n size x = repairByte b j x c ^^^ b p x := by
  by_cases hshort : x < size / n
  · exact ⟨n, Nat.le_refl n, fun b => if_pos hshort⟩
  · have hlast : x = size / n ∧ j < size % n := by
      unfold len at hx
      split at hx <;> omega
    refine ⟨size % n, Nat.le_of_lt (Nat.mod_lt size hn), fun b => ?_⟩
    unfold repairedRow
    rw [if_neg hshort, if_pos hlast]

/-- With every row but the missing one of the new block, the read gives it. -/
theorem holds_of_columns (hH : 2 ≤ H) (hm : ∀ k ∈ missing, k < H)
    (hb : ∀ j, j < H → missing ≠ some j → b j = columns size (H - 1) (H - 1) d j) :
    Holds size H (H - 1) d (mended size (H - 1) (H - 1) missing b) := by
  apply (holds_mended_iff hm (fun j hj _ => hb j hj)).mpr
  intro k hk i hki x hx
  refine repairedRow_eq hH (by omega) (.inl rfl) (fun j hj hjk => hb j hj ?_) (hm k hk) hki hx
  exact fun heq => hjk (Option.some.inj (heq.symm.trans hk))

/-- A stale parity shows in a repaired stripe, byte by byte. -/
theorem repairedRow_stale {j x : Nat} (hH : 2 ≤ H) (hj : j < H - 1) (hx : x < len size (H - 1) j)
    (hb : ∀ i, i < H - 1 → i ≠ j → b i = columns size (H - 1) (H - 1) d i) (hpar : b (H - 1) = parity size (H - 1) o) :
    repairedRow b (H - 1) j (H - 1) size x = piece size (H - 1) d j x ↔
      parity size (H - 1) o x = parity size (H - 1) d x := by
  obtain ⟨c, hc, hrow⟩ := repairedRow_of_lt (p := H - 1) hx (by omega)
  have hgood : repairedRow (columns size (H - 1) (H - 1) d) (H - 1) j (H - 1) size x = piece size (H - 1) d j x :=
    repairedRow_eq hH (by omega) (.inl rfl) (fun _ _ _ => rfl) (by omega) (stripe5_of_lt hj) hx
  have hsame : repairByte b j x c = repairByte (columns size (H - 1) (H - 1) d) j x c := by
    rw [repairByte_eq, repairByte_eq]
    refine xorTo_congr (fun i hi => ?_)
    split
    · rw [hb i (by omega) ‹_›]
    · rfl
  have hlast : columns size (H - 1) (H - 1) d (H - 1) x = parity size (H - 1) d x := by
    simp only [columns, stripe5_self]
  rw [← hgood, hrow, hrow, hsame, hpar, hlast]
  exact UInt8.xor_right_inj _

/-- **When a read does not see the loss**, the hosts having answered with what they have. -/
theorem holds_after_loss_iff (hH : 2 ≤ H) (hmH : m < H) (hm : ∀ k ∈ missing, k < H)
    (hb : ∀ j, j < H → missing ≠ some j → b j = columns size (H - 1) (H - 1) (if j = m then o else d) j) :
    Holds size H (H - 1) d (mended size (H - 1) (H - 1) missing b) ↔ missing = some m ∨ ∀ x,
      Used size (H - 1) missing m x → columns size (H - 1) (H - 1) o m x = columns size (H - 1) (H - 1) d m x := by
  have hother : ∀ j, j < H → missing ≠ some j → j ≠ m → b j = columns size (H - 1) (H - 1) d j := by
    intro j hj hmiss hjm
    rw [hb j hj hmiss, if_neg hjm]
  by_cases hmiss : missing = some m
  · -- the stale host is the one that is repaired
    refine iff_of_true (holds_of_columns hH hm (fun j hj hne => hother j hj hne ?_)) (.inl hmiss)
    exact fun hjm => hne (by rw [hjm, hmiss])
  · have hstale : b m = columns size (H - 1) (H - 1) o m := by rw [hb m hmH hmiss, if_pos rfl]
    rw [or_iff_right hmiss]
    by_cases hdata : m < H - 1
    · have hcol : ∀ c, columns size (H - 1) (H - 1) c m = piece size (H - 1) c m := by
        intro c
        simp only [columns, stripe5_of_lt hdata]
      simp only [Used, if_pos hdata, hcol] at hstale ⊢
      constructor
      · -- its stripe is copied as it is
        intro h x hx
        have hrow := h m hmH m (stripe5_of_lt hdata) x hx
        rwa [mended_of_ne hmiss, hstale] at hrow
      · intro h
        have hpiece : piece size (H - 1) o m = piece size (H - 1) d m := by
          funext x
          by_cases hx : x < len size (H - 1) m
          · exact h x hx
          · unfold piece
            rw [if_neg hx, if_neg hx]
        refine holds_of_columns hH hm (fun j hj hne => ?_)
        by_cases hjm : j = m
        · rw [hjm, hstale, hcol, hpiece]
        · exact hother j hj hne hjm
    · -- its parity is used in a repair only
      obtain rfl : m = H - 1 := by omega
      have hcol : ∀ c, columns size (H - 1) (H - 1) c (H - 1) = parity size (H - 1) c := by
        intro c
        simp only [columns, stripe5_self]
      simp only [Used, if_neg hdata, hcol] at hstale ⊢
      rw [holds_mended_iff hm (fun j hj hjp hne => hother j hj hne hjp)]
      have hrow : ∀ {j x}, missing = some j → j < H - 1 → x < len size (H - 1) j →
          (repairedRow b (H - 1) j (H - 1) size x = piece size (H - 1) d j x ↔
            parity size (H - 1) o x = parity size (H - 1) d x) := by
        intro j x hj hlt hx
        refine repairedRow_stale hH hlt hx (fun i hi hij => hother i (by omega) ?_ (by omega)) hstale
        exact fun heq => hij (Option.some.inj (heq.symm.trans hj))
      constructor
      · rintro h x ⟨j, hj, hlt, hx⟩
        exact (hrow hj hlt hx).mp (h j hj j (stripe5_of_lt hlt) x hx)
      · intro h j hj k hk x hx
        rcases stripe5_eq_some_iff.mp hk with ⟨hlt, rfl⟩ | ⟨hlt, -⟩
        · exact (hrow hj hlt hx).mpr (h x ⟨k, hj, hlt, hx⟩)
        · have := hm j hj
          omega

end Loss

/-! ## The write and the read -/

section Store

variable {maxHosts H block : Nat} {r : Rrmem}

theorem needed_four (H : Nat) (hraid : r.raid = 4) : needed H r = H - 1 := if_neg (by omega)

theorem rrmemWrite_returns {ws : List Nat} {outs : List Rcv} (hv : Valid maxHosts H r block) (hraid : r.raid = 4)
    (hmax : maxHosts ≤ 254) (hws : ∀ i ∈ ws, i < H) (hacks : Heard H (needed H r) (fun _ => []) 0 ws outs)
    (d rxBuf : Nat → UInt8) (lost : Nat → Bool) (disks : Disks) :
    ∃ disks', rrmemWrite maxHosts H r block d rxBuf lost outs disks = some (disks', []) := by
  obtain ⟨w, hw, -⟩ := writeBufs_columns hv (.inl hraid) d
  simp only [rrmemWrite, hw, Option.bind_eq_bind, Option.bind_some, writeRaidMem_heard hmax hv.2.2 hws hacks]
  exact ⟨_, rfl⟩

/-- What a write at level 4 that returns leaves on the hosts it reached. -/
theorem rrmemWrite_rows {d rxBuf : Nat → UInt8} {lost : Nat → Bool} {outs rest : List Rcv} {disks disks' : Disks}
    (hv : Valid maxHosts H r block) (hraid : r.raid = 4)
    (h : rrmemWrite maxHosts H r block d rxBuf lost outs disks = some (disks', rest)) (i : Nat) (hi : i < H) :
    readBytes (disks' i block) 0 r.blockSize = if lost i then readBytes (disks i block) 0 r.blockSize
      else readBytes (columns r.blockSize (H - 1) (H - 1) d i) 0 r.blockSize := by
  obtain ⟨w, hw, hcol⟩ := writeBufs_columns hv (.inl hraid) d
  rw [parityHost, if_pos hraid] at hcol
  simp only [rrmemWrite, hw, Option.bind_eq_bind, Option.bind_some, Option.bind_eq_some_iff] at h
  obtain ⟨⟨sent, rest'⟩, hsent, h⟩ := h
  cases h
  rw [writeRaidMem_sent hsent, deliver_row]
  have hrow : readBytes (w i) 0 r.blockSize = readBytes (columns r.blockSize (H - 1) (H - 1) d i) 0 r.blockSize := by
    rw [hcol i hi]
  cases lost i with
  | true => simp
  | false =>
    have hwrite := readBytes_writeBytes (disks i block) 0 (readBytes (w i) 0 r.blockSize)
    rw [length_readBytes] at hwrite
    simpa [hi, hwrite] using hrow

/-- **A read after a write at level 4 that host `m` missed** returns, and gives the new block exactly if it does without
host `m`, or the bytes it uses of host `m` are the same in the old block and the new. -/
theorem raid4_read_after_loss_iff {m : Nat} {o rx₀ : Nat → UInt8} {disks disks₀ : Disks} {outs₀ outs₁ rest : List Rcv}
    {ws : List Nat} (d rx₁ : Nat → UInt8) (hv : Valid maxHosts H r block) (hraid : r.raid = 4) (hmax : maxHosts ≤ 254)
    (hm : m < H)
    (hold : rrmemWrite maxHosts H r block o rx₀ (fun _ => false) outs₀ disks = some (disks₀, rest))
    (hws : ∀ i, i ∈ ws ↔ i < H ∧ i ≠ m) (hacks : Heard H (H - 1) (fun _ => []) 0 ws outs₁) :
    ∃ disks₁, rrmemWrite maxHosts H r block d rx₁ (fun i => i = m) outs₁ disks₀ = some (disks₁, []) ∧
      ∀ (missing : Option Nat) (rs : List Nat) (outs₂ : List Rcv) (rx₂ data : Nat → UInt8),
        (∀ k ∈ missing, k < H) → (∀ i, i ∈ rs ↔ i < H ∧ missing ≠ some i) →
        Heard H (H - 1) (fun i => readBytes (disks₁ i block) 0 r.blockSize) 0 rs outs₂ →
        ∃ out, rrmemRead maxHosts H r block rx₂ outs₂ data = some (out, []) ∧
          (readBytes out 0 r.blockSize = readBytes d 0 r.blockSize ↔ missing = some m ∨ ∀ x,
            Used r.blockSize (H - 1) missing m x →
              columns r.blockSize (H - 1) (H - 1) o m x = columns r.blockSize (H - 1) (H - 1) d m x) := by
  have hn : 0 < H - 1 := by have := hv.2.1; omega
  have hneeded := needed_four H hraid
  rw [← hneeded] at hacks
  obtain ⟨disks₁, hwrite⟩ := rrmemWrite_returns hv hraid hmax (fun i hi => ((hws i).mp hi).1) hacks d rx₁
    (fun i => i = m) disks₀
  refine ⟨disks₁, hwrite, fun missing rs outs₂ rx₂ data hmiss hrs hheard => ?_⟩
  obtain ⟨b, hread, hrows⟩ := readRaidMem_heard hmax hv.2.2 (fun j => length_readBytes ..) hmiss hrs hheard rx₂
  obtain ⟨out, hout, hiff⟩ := readBufs_iff hv (.inl hraid) missing b data d
  refine ⟨out, ?_, hiff.trans ?_⟩
  · simp only [rrmemRead, hraid, hneeded, hread, hout, Option.bind_eq_bind, Option.bind_some]
    rfl
  · rw [parityHost, if_pos hraid]
    refine holds_after_loss_iff hv.2.1 hm hmiss (fun j hj hne => ?_)
    have hrow := rrmemWrite_rows hv hraid hwrite j hj
    have hrow₀ := rrmemWrite_rows hv hraid hold j hj
    rw [hrows j, if_pos ((hrs j).mpr ⟨hj, hne⟩), hrow]
    by_cases hjm : j = m
    · rw [if_pos (decide_eq_true hjm), if_pos hjm, hrow₀]
      exact writeBytes_columns hn o j
    · rw [if_neg (by simpa using hjm), if_neg hjm]
      exact writeBytes_columns hn d j

/-- Three hosts; the first one missed the write of `1, 2` over zeros.  Without it, the read gives `1, 2`. -/
theorem raid4_read_after_loss_iff_without : ∃ disks₀ disks₁ out,
    rrmemWrite 5 3 ⟨4, 2, 1⟩ 0 (fun _ => 0) (fun _ => 0) (fun _ => false)
      [some (2, []), some (3, []), some (4, [])] (fun _ _ _ => 9) = some (disks₀, []) ∧
    rrmemWrite 5 3 ⟨4, 2, 1⟩ 0 (fun i => [1, 2].getD i 0) (fun _ => 0) (fun i => i = 0)
      [some (3, []), some (4, []), none] disks₀ = some (disks₁, []) ∧
    rrmemRead 5 3 ⟨4, 2, 1⟩ 0 (fun _ => 0)
      [some (3, readBytes (disks₁ 1 0) 0 2), some (4, readBytes (disks₁ 2 0) 0 2), none] (fun _ => 0) = some (out, []) ∧
    readBytes out 0 2 = [1, 2] := by
  have hold : rrmemWrite 5 3 ⟨4, 2, 1⟩ 0 (fun _ => 0) (fun _ => 0) (fun _ => false)
      [some (2, []), some (3, []), some (4, [])] (fun _ _ _ => 9) = some (_, []) := rfl
  have hrs : ∀ i, i ∈ [1, 2] ↔ i < 3 ∧ i ≠ 0 := by
    intro i
    simp only [List.mem_cons, List.not_mem_nil, or_false]
    omega
  have hrs' : ∀ i, i ∈ [1, 2] ↔ i < 3 ∧ some 0 ≠ some i := by
    intro i
    rw [hrs, ne_eq, ne_eq, Option.some.injEq, eq_comm]
  have hheard : ∀ resp, Heard 3 (3 - 1) resp 0 [1, 2] [some (3, resp 1), some (4, resp 2), none] :=
    fun resp => .answer (by decide) (.answer (by decide) (.done (by decide) (by decide)))
  obtain ⟨disks₁, hwrite, hread⟩ := raid4_read_after_loss_iff (fun i => [1, 2].getD i 0) (fun _ => 0) (by decide) rfl
    (by decide) (by decide) hold hrs (hheard _)
  obtain ⟨out, hout, hiff⟩ := hread (some 0) [1, 2] _ (fun _ => 0) (fun _ => 0) (by decide) hrs' (hheard _)
  exact ⟨_, disks₁, out, hold, hwrite, hout, hiff.mpr (.inl rfl)⟩

/-- With all three hosts the same read gives `0, 2`, neither the old block nor the new. -/
theorem raid4_reads_mixture : ∃ disks₀ disks₁ out,
    rrmemWrite 5 3 ⟨4, 2, 1⟩ 0 (fun _ => 0) (fun _ => 0) (fun _ => false)
      [some (2, []), some (3, []), some (4, [])] (fun _ _ _ => 9) = some (disks₀, []) ∧
    rrmemWrite 5 3 ⟨4, 2, 1⟩ 0 (fun i => [1, 2].getD i 0) (fun _ => 0) (fun i => i = 0)
      [some (3, []), some (4, []), none] disks₀ = some (disks₁, []) ∧
    rrmemRead 5 3 ⟨4, 2, 1⟩ 0 (fun _ => 0) [some (2, readBytes (disks₁ 0 0) 0 2), some (3, readBytes (disks₁ 1 0) 0 2),
      some (4, readBytes (disks₁ 2 0) 0 2)] (fun _ => 0) = some (out, []) ∧
    readBytes out 0 2 = [0, 2] :=
  ⟨_, _, _, rfl, rfl, rfl, by decide⟩

end Store

end Raid
end Bb
