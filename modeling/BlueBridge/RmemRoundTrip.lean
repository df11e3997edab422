import BlueBridge.RmemSchedule
import Mathlib.Data.List.GetD
/-!
# RmemRoundTrip — when a bulk write comes back

`RoundTrip` is what `write_bulk_rmem` followed by `read_bulk_rmem` is for: the blocks hold the data, the bytes behind it
are as they were, and the read gives the data back.  It holds exactly for a size of at most one block, and for a size of
whole blocks whose servers `sub_ids` can count (`roundTrip_iff`).
-/
namespace Bb
namespace Rmem

open Bytes Wire

/-- Every block of the list is inside a live region of its server. -/
def Live (B : Nat) (addrs : List Ip6Memaddr) (st : UInt16 → Server) : Prop :=
  ∀ a ∈ addrs, ∃ r ∈ (st a.subid).live, r.1 ≤ a.paddr.toNat ∧ a.paddr.toNat + B ≤ r.1 + r.2

/-- **The round trip**: on an in-order network, for every payload and all servers' contents, the write returns with the
data in the blocks and the rest of them unchanged, and a read after it returns with the data in the buffer. -/
def RoundTrip (B : Nat) (C : Cluster) (alloc : Server → Nat → UInt64) (me : SockaddrIn6) (addrs : List Ip6Memaddr)
    (size : UInt64) : Prop :=
  ∀ (targetIp : SockaddrIn6) (mem : Nat → UInt8) (payload rxBuf : Nat) (st : UInt16 → Server),
    targetIp.port = C.port → payload + size.toNat < 2 ^ 64 → rxBuf + size.toNat < 2 ^ 64 → Live B addrs st →
    Runs (rmemNet B C alloc True) (writeBulkRmem B me ⟨targetIp, addrs, mem⟩ payload size) st (fun r st' =>
      r.2 = .success ∧
      remote B st' addrs = readBytes mem payload size.toNat ++ (remote B st addrs).drop size.toNat ∧
      Runs (rmemNet B C alloc True) (readBulkRmem B me r.1 rxBuf size) st' (fun r' _ =>
        r'.2 = .success ∧ readBytes r'.1.mem rxBuf size.toNat = readBytes mem payload size.toNat ∧
        ∀ q, q < rxBuf ∨ rxBuf + size.toNat ≤ q → r'.1.mem q = r.1.mem q))

variable {B : Nat} {C : Cluster} {alloc : Server → Nat → UInt64} {me : SockaddrIn6} {st : UInt16 → Server}
  {addrs : List Ip6Memaddr} {size : UInt64}

/-! ## Sizes that come back -/

theorem remote_bulkStores (st : UInt16 → Server) (hB₀ : 0 < B) (hap : addrs.Pairwise (Apart B)) (hne : addrs ≠ [])
    (mem : Nat → UInt8) (payload : Nat) {size : Nat} (hcov : size ≤ addrs.length * B) (h : size ≤ B ∨ B ∣ size) :
    remote B (storeAll st (bulkStores B addrs mem payload size)) addrs =
      readBytes mem payload size ++ (remote B st addrs).drop size := by
  unfold bulkStores
  by_cases hle : size ≤ B
  · obtain ⟨a, r, rfl⟩ := List.exists_cons_of_ne_nil hne
    have := remote_firstStore hap st (d := readBytes mem payload size) (by rwa [length_readBytes])
    rw [length_readBytes] at this
    rwa [if_pos hle]
  · have hdvd := h.resolve_left hle
    have hn : size / B ≤ addrs.length := by
      rw [Nat.div_le_iff_le_mul_add_pred hB₀, Nat.mul_comm]
      omega
    have := remote_chunks hap st mem payload hn
    rw [Nat.div_mul_cancel hdvd] at this
    rwa [if_neg hle, if_neg (fun h => h (Nat.mod_eq_zero_of_dvd hdvd)), List.append_nil]

theorem subid_of_place {as bs : List Ip6Memaddr} (h : as.map place = bs.map place)
    (hs : ∀ b ∈ bs, b.subid.toNat < ushrtMax) : ∀ a ∈ as, a.subid.toNat < ushrtMax := by
  intro a ha
  have hmem : place a ∈ bs.map place := by rw [← h]; exact List.mem_map_of_mem ha
  obtain ⟨b, hb, hab⟩ := List.mem_map.1 hmem
  rw [show a.subid = b.subid from congrArg Prod.fst hab.symm]
  exact hs b hb

theorem roundTrip_of_whole (hB₀ : 0 < B) (hB : B < 2 ^ 16) (hsize : size.toNat + B < 2 ^ 32)
    (hcov : size.toNat ≤ addrs.length * B) (hap : addrs.Pairwise (Apart B)) (hne : addrs ≠ [])
    (h : size.toNat ≤ B ∨ B ∣ size.toNat ∧ ∀ a ∈ addrs.take (size.toNat / B), a.subid.toNat < ushrtMax) :
    RoundTrip B C alloc me addrs size := by
  intro targetIp mem payload rxBuf st hport _ hrx _
  have hsub : B < size.toNat → ∀ a ∈ addrs.take (size.toNat / B), a.subid.toNat < ushrtMax :=
    fun hlt => (h.resolve_left (Nat.not_le.2 hlt)).2
  refine (writeBulkRmem_runs (c := ⟨targetIp, addrs, mem⟩) hB₀ (by omega) payload hport hne (by omega) hcov
    hsub).mono ?_
  rintro ⟨c, e⟩ st' ⟨rfl, hport', hplace, hmem, rfl⟩
  have hstored := remote_bulkStores st hB₀ hap hne mem payload hcov (h.imp_right And.left)
  refine ⟨rfl, hstored, ?_⟩
  have hlen : c.addrs.length = addrs.length := by simpa using congrArg List.length hplace
  have htake : (c.addrs.take (size.toNat / B)).map place = (addrs.take (size.toNat / B)).map place := by
    rw [List.map_take, List.map_take, hplace]
  have hne' : c.addrs ≠ [] := by
    rw [← List.length_pos_iff, hlen]
    exact List.length_pos_iff.2 hne
  refine (readBulkRmem_runs hB₀ (by omega) rxBuf hport' hne' (by omega) (by rwa [hlen]) hrx
    (h.imp_right (And.imp_right (subid_of_place htake)))).mono ?_
  rintro ⟨c', e'⟩ st'' ⟨rfl, -, -, hbytes, hframe, -⟩
  refine ⟨rfl, ?_, hframe⟩
  rw [hbytes, remote_place hplace, hstored, List.take_left' (length_readBytes ..)]

/-! ## Sizes that do not -/

/-- A batch that returns has only servers `sub_ids` can count. -/
theorem Caller.batchRead_subids {c : Caller} {i n rxBuf : Nat} {α : Type} {f : Caller → Prog Packet α}
    {Q : α → Conf Packet (UInt16 → Server) α → Prop} {d rc : List Packet} (hin : i + n ≤ c.addrs.length)
    (h : Ends (rmemNet B C alloc True) Q ⟨(c.batchRead B me i n rxBuf).bind f, [], st, d, [], rc⟩) :
    ∀ a ∈ part c.addrs i n, a.subid.toNat < ushrtMax := by
  refine subids_of_ends (fun a ha hbad => ?_) h
  rw [Caller.batchRead, slice, if_pos hin]
  exact congrArg (Prog.bind · _) (batchRead_fail me c.targetIp hbad ha c.mem rxBuf (UInt16.ofNat B))

theorem writeBulkRmem_subids (hB₀ : 0 < B) {payload : Nat} {c : Caller} {d rc : List Packet}
    {Q : Caller × Exit → Conf Packet (UInt16 → Server) (Caller × Exit) → Prop} (hport : c.targetIp.port = C.port)
    (hcov : size.toNat ≤ c.addrs.length * B) (hlt : B < size.toNat)
    (h : Ends (rmemNet B C alloc True) Q ⟨writeBulkRmem B me c payload size, [], st, d, [], rc⟩) :
    ∀ a ∈ c.addrs.take (size.toNat / B), a.subid.toNat < ushrtMax := by
  have hchunks : size.toNat / B ≤ c.addrs.length := by
    rw [Nat.div_le_iff_le_mul_add_pred hB₀, Nat.mul_comm]
    omega
  have h64 : size.toNat / B < 2 ^ 64 := Nat.lt_of_le_of_lt (Nat.div_le_self ..) size.toNat_lt
  rw [writeBulkRmem_eq, if_neg (Nat.not_le.2 hlt), if_neg (Nat.not_lt.2 hchunks)] at h
  exact subids_of_writeCalls h64
    (counted_of_ends (batchOp_write payload) _ c st d rc hport (within_writeCalls B hchunks) h)

theorem getD_remote (st : UInt16 → Server) {k : Nat} (hk : k < B) :
    ∀ {addrs : List Ip6Memaddr} {i : Nat} {a : Ip6Memaddr},
    addrs[i]? = some a → (remote B st addrs).getD (i * B + k) 0 = (st a.subid).mem (a.paddr.toNat + k)
  | b :: r, 0, a, h => by
    cases h
    have hsplit : remote B st (b :: r) = readBytes (st b.subid).mem b.paddr.toNat B ++ remote B st r := rfl
    rw [hsplit, Nat.zero_mul, Nat.zero_add, List.getD_append _ _ _ _ (by rwa [length_readBytes]), getD_readBytes _ _ hk]
  | b :: r, i + 1, a, h => by
    have hsplit : remote B st (b :: r) = readBytes (st b.subid).mem b.paddr.toNat B ++ remote B st r := rfl
    have hidx : i * B + B + k - B = i * B + k := by omega
    rw [hsplit, Nat.succ_mul, List.getD_append_right _ _ _ _ (by rw [length_readBytes]; omega), length_readBytes, hidx]
    exact getD_remote st hk h

/-- What a bulk write stores is in the blocks it is given; if it is of more than one block, in the whole ones. -/
theorem mem_bulkStores (hB₀ : 0 < B) {mem : Nat → UInt8} {payload size : Nat} {w : UInt16 × Nat × List UInt8}
    (hw : w ∈ bulkStores B addrs mem payload size) : ∃ i a, addrs[i]? = some a ∧ (B < size → i < size / B) ∧
      w.1 = a.subid ∧ w.2.1 = a.paddr.toNat ∧ w.2.2.length ≤ B := by
  have hfirst : ∀ {d : List UInt8}, d.length ≤ B → w ∈ firstStore addrs d → ∃ i a, addrs[i]? = some a ∧
      (B < size → i < size / B) ∧ w.1 = a.subid ∧ w.2.1 = a.paddr.toNat ∧ w.2.2.length ≤ B := by
    intro d hd hw
    obtain ⟨a, ha, rfl⟩ := List.mem_map.1 hw
    cases addrs with
    | nil => cases ha
    | cons x r =>
      cases List.mem_singleton.1 ha
      exact ⟨0, a, rfl, fun hlt => Nat.div_pos (Nat.le_of_lt hlt) hB₀, rfl, rfl, hd⟩
  unfold bulkStores at hw
  split at hw
  · next hle => exact hfirst (by rwa [length_readBytes]) hw
  · rcases List.mem_append.1 hw with hw | hw
    · obtain ⟨i, a, ha, rfl⟩ := mem_batchChunks.1 hw
      rw [List.getElem?_take] at ha
      split at ha
      · next hi => exact ⟨i, a, ha, fun _ => hi, rfl, rfl, Nat.le_of_eq (length_readBytes ..)⟩
      · cases ha
    · split at hw
      · exact hfirst (by rw [length_readBytes]; exact Nat.le_of_lt (Nat.mod_lt _ hB₀)) hw
      · cases hw

/-- The block after the whole ones is not written to. -/
theorem read_bulkStores (st : UInt16 → Server) (hB₀ : 0 < B) (hap : addrs.Pairwise (Apart B)) (mem : Nat → UInt8)
    (payload : Nat) {size : Nat} (hlt : B < size) {b : Ip6Memaddr} (hb : addrs[size / B]? = some b) :
    readBytes (storeAll st (bulkStores B addrs mem payload size) b.subid).mem b.paddr.toNat B =
      readBytes (st b.subid).mem b.paddr.toNat B := by
  refine read_storeAll_apart (fun w hw => ?_)
  obtain ⟨i, a, ha, hi, hw⟩ := mem_bulkStores hB₀ hw
  exact ⟨a, apart_of_getElem? hap ha hb (Nat.ne_of_lt (hi hlt)), hw⟩

/-- So the data is not in the blocks if its next byte differs from what that block had. -/
theorem remote_bulkStores_ne (st : UInt16 → Server) (hB₀ : 0 < B) (hap : addrs.Pairwise (Apart B)) (mem : Nat → UInt8)
    (payload : Nat) {size : Nat} (hlt : B < size) (hres : ¬ B ∣ size) {b : Ip6Memaddr} (hb : addrs[size / B]? = some b)
    (hne : mem (payload + size / B * B) ≠ (st b.subid).mem b.paddr.toNat) :
    remote B (storeAll st (bulkStores B addrs mem payload size)) addrs ≠
      readBytes mem payload size ++ (remote B st addrs).drop size := by
  intro heq
  have hmod : 0 < size % B := Nat.pos_of_ne_zero (fun h => hres (Nat.dvd_of_mod_eq_zero h))
  have hidx : size / B * B < size := by
    have := Nat.div_add_mod' size B
    omega
  have hnew := congrArg (·.getD (size / B * B + 0) 0) heq
  simp only [getD_remote _ hB₀ hb] at hnew
  have hold := congrArg (·.getD 0 0) (read_bulkStores st hB₀ hap mem payload hlt hb)
  simp only [getD_readBytes _ _ hB₀] at hold
  rw [hold, Nat.add_zero, Nat.add_zero, List.getD_append _ _ _ _ (by rwa [length_readBytes]),
    getD_readBytes _ _ hidx] at hnew
  exact hne hnew.symm

/-- **A bulk write comes back exactly if it is of at most one block, or of whole blocks on servers `sub_ids` can
count.** -/
theorem roundTrip_iff (hB₀ : 0 < B) (hfit : 8 + B < 2 ^ 16) (hsize : size.toNat + B < 2 ^ 32)
    (hcov : size.toNat ≤ addrs.length * B) (hap : addrs.Pairwise (Apart B)) :
    RoundTrip B C alloc me addrs size ↔
      addrs ≠ [] ∧ (size.toNat ≤ B ∨ B ∣ size.toNat ∧ ∀ a ∈ addrs.take (size.toNat / B), a.subid.toNat ≤ 65534) := by
  have hB : B < 2 ^ 16 := by omega
  constructor
  · intro h
    -- zeroed servers with just these blocks, and a payload of ones
    have hwrite := h ⟨me.addr, C.port⟩ (fun _ => 1) 0 0 (fun _ => ⟨fun _ => 0, addrs.map (fun a => (a.paddr.toNat, B))⟩)
      rfl (by omega) (by omega)
      (fun a ha => ⟨_, List.mem_map_of_mem ha, Nat.le_refl _, Nat.le_refl _⟩)
    have hne : addrs ≠ [] := by
      rintro rfl
      have hz : size.toNat ≤ B := by
        rw [List.length_nil, Nat.zero_mul] at hcov
        omega
      unfold writeBulkRmem at hwrite
      rw [if_pos hz] at hwrite
      exact not_ends_fail rfl (hwrite [] [])
    refine ⟨hne, ?_⟩
    by_cases hle : size.toNat ≤ B
    · exact Or.inl hle
    · have hlt := Nat.lt_of_not_le hle
      have hsub := writeBulkRmem_subids hB₀ rfl hcov hlt (hwrite [] [])
      refine Or.inr ⟨?_, fun a ha => Nat.le_of_lt_succ (hsub a ha)⟩
      by_contra hres
      have hn : size.toNat / B < addrs.length := by
        rw [Nat.div_lt_iff_lt_mul hB₀]
        exact Nat.lt_of_le_of_ne hcov (fun h => hres (h ▸ Nat.dvd_mul_left ..))
      obtain ⟨r, st', ⟨-, hstored, -⟩, ⟨-, -, -, -, rfl⟩⟩ :=
        hwrite.both (writeBulkRmem_runs hB₀ (by omega) 0 rfl hne (by omega) hcov (fun _ => hsub))
      exact remote_bulkStores_ne _ hB₀ hap _ 0 hlt hres (List.getElem?_eq_getElem hn)
        (show (1 : UInt8) ≠ 0 by decide) hstored
  · rintro ⟨hne, h⟩
    exact roundTrip_of_whole hB₀ hB hsize hcov hap hne
      (h.imp_right (And.imp_right (fun hs a ha => Nat.lt_succ_of_le (hs a ha))))

theorem roundTrip_iff_two_blocks :
    RoundTrip 2 plainCluster (fun _ _ => 0) ⟨⟨9, 0, 0, 0⟩, 6000⟩ [⟨1, 0, 0, 0⟩, ⟨1, 0, 0, 2⟩] 4 :=
  (roundTrip_iff (by decide) (by decide) (by decide) (by decide) (by unfold Apart; decide)).2
    ⟨by decide, Or.inr ⟨by decide, by decide⟩⟩

/-- Writing 1, 2, 3 to two blocks of two bytes: the third byte lands on the first. -/
theorem writeBulkRmem_overwrites :
    ∃ r c, Reach (rmemNet 2 plainCluster (fun _ _ => 0) True)
        (start (writeBulkRmem 2 ⟨⟨9, 0, 0, 0⟩, 6000⟩ ⟨⟨⟨1, 0, 0, 0⟩, 5000⟩, [⟨1, 0, 0, 0⟩, ⟨1, 0, 0, 2⟩],
          fun q => UInt8.ofNat (q + 1)⟩ 0 3) (fun _ => ⟨fun _ => 0, [(0, 2), (2, 2)]⟩)) c ∧
      c.prog = .ret r ∧ remote 2 c.srv [⟨1, 0, 0, 0⟩, ⟨1, 0, 0, 2⟩] = [3, 2, 0, 0] := by
  have hruns := @writeBulkRmem_runs 2 plainCluster (fun _ _ => 0) ⟨⟨9, 0, 0, 0⟩, 6000⟩
    (fun _ => ⟨fun _ => 0, [(0, 2), (2, 2)]⟩)
    ⟨⟨⟨1, 0, 0, 0⟩, 5000⟩, [⟨1, 0, 0, 0⟩, ⟨1, 0, 0, 2⟩], fun q => UInt8.ofNat (q + 1)⟩ 3 (by decide) (by decide) 0 rfl
    (by decide) (by decide) (by decide) (by decide)
  obtain ⟨r, c, hc, hret, -, -, -, -, -, -, hsrv⟩ := (hruns [] []).returns
  exact ⟨r, c, hc, hret, by rw [hsrv]; decide⟩

end Rmem
end Bb
