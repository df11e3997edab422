import BlueBridge.ArrComp
import BlueBridge.RmemLinear
/-!
# RmemArrays — arrays in remote memory

Processes that allocate, read, write and free arrays with the uniform functions.  What they have in remote memory at a
time is some arrays (`Piece`), in regions apart from each other and from what was live before they started (`Arena`).  An
allocation adds an array, a write changes one, a read gets one and a free takes one away, and nothing else changes.  So a
program on remote arrays is followed on the list of them alone.

The blocks are single bytes, as `types.h` has it; with larger ones the uniform functions allocate too little.
-/
namespace Bb
namespace ArrComp

open Bytes Wire Rmem
open Function (update update_self update_of_ne)

/-- An array in a region that was allocated for it. -/
structure Piece where
  addr : Ip6Memaddr
  size : Nat
  data : List UInt8
  pos : 0 < size
  fits : addr.paddr.toNat + size ≤ 2 ^ 64
  room : data.length ≤ size
  /-- The batches of the bulk functions count on its server. -/
  counted : addr.subid.toNat < ushrtMax

def Piece.reg (x : Piece) : Nat × Nat := (x.addr.paddr.toNat, x.size)

def Piece.put (x : Piece) (d : List UInt8) (h : d.length ≤ x.size) : Piece := { x with data := d, room := h }

/-- On different servers, or in different places. -/
def Piece.Apart (x y : Piece) : Prop := x.addr.subid = y.addr.subid → Disj x.reg y.reg

theorem Piece.Apart.symm {x y : Piece} (h : x.Apart y) : y.Apart x := fun hs => Or.symm (h hs.symm)

/-- The regions of the arrays on a server. -/
def regions (own : List Piece) (s : UInt16) : List (Nat × Nat) := (own.filter (fun x => x.addr.subid = s)).map Piece.reg

/-- The arrays are there, apart from each other, and what was live at first is as it was. -/
structure Holds (st₀ : UInt16 → Server) (own : List Piece) (st : UInt16 → Server) : Prop where
  apart : own.Pairwise Piece.Apart
  outside : ∀ x ∈ own, ∀ r ∈ (st₀ x.addr.subid).live, Disj x.reg r
  bytes : ∀ x ∈ own, readBytes (st x.addr.subid).mem x.addr.paddr.toNat x.data.length = x.data
  kept : ∀ s, ∀ r ∈ (st₀ s).live, readBytes (st s).mem r.1 r.2 = readBytes (st₀ s).mem r.1 r.2

/-- **The arrays in remote memory**, beside what was there at first. -/
structure Arena (st₀ : UInt16 → Server) (own : List Piece) (st : UInt16 → Server) : Prop extends Holds st₀ own st where
  live : ∀ s, (st s).live.Perm (regions own s ++ (st₀ s).live)

theorem Arena.start (st₀ : UInt16 → Server) : Arena st₀ [] st₀ :=
  ⟨⟨.nil, nofun, nofun, fun _ _ _ => rfl⟩, fun _ => .refl _⟩

section Arena

variable {st₀ st st' : UInt16 → Server} {own own' : List Piece} {x : Piece}

theorem Arena.perm (h : Arena st₀ own st) (hp : own.Perm own') : Arena st₀ own' st where
  apart := (hp.pairwise_iff Piece.Apart.symm).1 h.apart
  outside := fun x hx => h.outside x (hp.mem_iff.2 hx)
  bytes := fun x hx => h.bytes x (hp.mem_iff.2 hx)
  kept := h.kept
  live := fun s => (h.live s).trans (((hp.filter _).map _).append_right _)

theorem Holds.tail (h : Holds st₀ (x :: own) st) : Holds st₀ own st where
  apart := (List.pairwise_cons.1 h.apart).2
  outside := fun y hy => h.outside y (List.mem_cons_of_mem _ hy)
  bytes := fun y hy => h.bytes y (List.mem_cons_of_mem _ hy)
  kept := h.kept

theorem regions_cons_self (x : Piece) (own : List Piece) :
    regions (x :: own) x.addr.subid = x.reg :: regions own x.addr.subid := by
  simp [regions]

theorem regions_cons_of_ne {s : UInt16} (hs : s ≠ x.addr.subid) (own : List Piece) :
    regions (x :: own) s = regions own s := by
  simp [regions, Ne.symm hs]

theorem mem_regions {s : UInt16} {r : Nat × Nat} : r ∈ regions own s ↔ ∃ y ∈ own, y.addr.subid = s ∧ y.reg = r := by
  simp [regions, and_assoc]

theorem disj_of_le {r : Nat × Nat} {p n k : Nat} (h : Disj r (p, n)) (hk : k ≤ n) : Disj r (p, k) := by
  unfold Disj at *
  omega

/-- The other arrays and what was live at first do not change with what is in a region apart from them. -/
theorem Holds.change (h : Holds st₀ own st) (hapart : ∀ y ∈ own, x.Apart y)
    (houtside : ∀ r ∈ (st₀ x.addr.subid).live, Disj x.reg r)
    (hbytes : readBytes (st' x.addr.subid).mem x.addr.paddr.toNat x.data.length = x.data)
    (hframe : ∀ s q, (s = x.addr.subid → q < x.reg.1 ∨ x.reg.1 + x.reg.2 ≤ q) → (st' s).mem q = (st s).mem q) :
    Holds st₀ (x :: own) st' := by
  have hother : ∀ {s : UInt16} {p n : Nat}, (s = x.addr.subid → Disj x.reg (p, n)) →
      readBytes (st' s).mem p n = readBytes (st s).mem p n := by
    intro s p n hd
    refine readBytes_congr (fun i hi => hframe s _ (fun hs => ?_))
    have := hd hs
    unfold Disj at this
    omega
  constructor
  · exact List.pairwise_cons.2 ⟨hapart, h.apart⟩
  · exact List.forall_mem_cons.2 ⟨houtside, h.outside⟩
  · refine List.forall_mem_cons.2 ⟨hbytes, fun y hy => ?_⟩
    rw [hother (fun hs => disj_of_le (hapart y hy hs.symm) y.room)]
    exact h.bytes y hy
  · intro s r hr
    rw [hother (fun hs => houtside r (hs ▸ hr))]
    exact h.kept s r hr

/-- **An array is written.** -/
theorem Arena.write (h : Arena st₀ (x :: own) st) {d : List UInt8} (hd : d.length ≤ x.size)
    (hlive : ∀ s, (st' s).live = (st s).live)
    (hbytes : readBytes (st' x.addr.subid).mem x.addr.paddr.toNat d.length = d)
    (hframe : ∀ s q, (s = x.addr.subid → q < x.addr.paddr.toNat ∨ x.addr.paddr.toNat + d.length ≤ q) →
      (st' s).mem q = (st s).mem q) : Arena st₀ (x.put d hd :: own) st' := by
  have hframe' : ∀ s q, (s = x.addr.subid → q < x.reg.1 ∨ x.reg.1 + x.reg.2 ≤ q) → (st' s).mem q = (st s).mem q :=
    fun s q hq => hframe s q (fun hs => (hq hs).imp_right (fun hle =>
      Nat.le_trans (Nat.add_le_add_left hd x.addr.paddr.toNat) hle))
  refine ⟨h.tail.change (x := x.put d hd) (List.pairwise_cons.1 h.apart).1 (h.outside x List.mem_cons_self) hbytes
    hframe', fun s => ?_⟩
  rw [hlive]
  refine (h.live s).trans (.of_eq ?_)
  by_cases hs : s = x.addr.subid
  · subst hs
    rw [regions_cons_self]
    exact congrArg (· ++ _) (regions_cons_self (x.put d hd) own).symm
  · rw [regions_cons_of_ne hs, regions_cons_of_ne (x := x.put d hd) hs]

/-- **An array is allocated**, with nothing in it, where `calloc` keeps its promise. -/
theorem Arena.reserve (h : Arena st₀ own st) {alloc : Server → Nat → UInt64} {a : Ip6Memaddr} {n : Nat} (hn : 0 < n)
    (hsub : a.subid.toNat < ushrtMax) (hfresh : Fresh (st a.subid).live ((alloc (st a.subid) n).toNat, n))
    (ha : a.paddr = alloc (st a.subid) n) :
    ∃ x : Piece, x.addr = a ∧ x.size = n ∧ Arena st₀ (x :: own) (reserved alloc st a.subid n) := by
  have hfits : a.paddr.toNat + n ≤ 2 ^ 64 := by rw [ha]; exact hfresh.fits
  refine ⟨⟨a, n, [], hn, hfits, Nat.zero_le n, hsub⟩, rfl, rfl, ?_⟩
  have hin : ∀ r ∈ regions own a.subid ++ (st₀ a.subid).live, Disj (a.paddr.toNat, n) r := fun r hr => by
    rw [ha]
    exact hfresh.apart r ((h.live a.subid).mem_iff.2 hr)
  refine ⟨h.change (fun y hy hs => ?_) (fun r hr => ?_) rfl ?_, fun s => ?_⟩
  · exact hin _ (List.mem_append_left _ (mem_regions.2 ⟨y, hy, hs.symm, rfl⟩))
  · exact hin r (List.mem_append_right _ hr)
  · intro s q hq
    by_cases hs : s = a.subid
    · subst hs
      have := hq rfl
      rw [reserved, update_self]
      exact if_neg (by rw [← ha]; unfold Piece.reg at this; dsimp only at this; omega)
    · rw [reserved, update_of_ne hs]
  · by_cases hs : s = a.subid
    · subst hs
      rw [regions_cons_self, reserved, update_self, List.cons_append]
      unfold Piece.reg
      rw [ha]
      exact (h.live _).cons _
    · rw [regions_cons_of_ne hs, reserved, update_of_ne hs]
      exact h.live s

/-- **An array is freed.** -/
theorem Arena.free (h : Arena st₀ (x :: own) st) (hpos : ∀ r ∈ (st₀ x.addr.subid).live, 0 < r.2) :
    Arena st₀ own (update st x.addr.subid ((st x.addr.subid).free x.addr.paddr)) := by
  have hmem : ∀ s, (update st x.addr.subid ((st x.addr.subid).free x.addr.paddr) s).mem = (st s).mem := by
    intro s
    by_cases hs : s = x.addr.subid
    · subst hs
      rw [update_self]
      rfl
    · rw [update_of_ne hs]
  have ht := h.tail
  refine ⟨⟨ht.apart, ht.outside, fun y hy => ?_, fun s r hr => ?_⟩, fun s => ?_⟩
  · rw [hmem]
    exact ht.bytes y hy
  · rw [hmem]
    exact ht.kept s r hr
  · by_cases hs : s = x.addr.subid
    · subst hs
      rw [update_self]
      have hlive := h.live x.addr.subid
      rw [regions_cons_self, List.cons_append] at hlive
      -- the region of `x` is the only one that starts where it starts
      have hne : ∀ r ∈ regions own x.addr.subid ++ (st₀ x.addr.subid).live, decide (r.1 ≠ x.addr.paddr.toNat) = true := by
        intro r hr
        have hd : Disj x.reg r ∧ 0 < r.2 := by
          rcases List.mem_append.1 hr with hr | hr
          · obtain ⟨y, hy, hsy, rfl⟩ := mem_regions.1 hr
            exact ⟨(List.pairwise_cons.1 h.apart).1 y hy hsy.symm, y.pos⟩
          · exact ⟨h.outside x List.mem_cons_self r hr, hpos r hr⟩
        have hx := x.pos
        unfold Disj Piece.reg at hd
        dsimp only at hd
        exact decide_eq_true (by omega)
      refine (hlive.filter _).trans (.of_eq ?_)
      rw [List.filter_cons_of_neg (by simp [Piece.reg]), List.filter_eq_self.2 hne]
    · rw [update_of_ne hs, ← regions_cons_of_ne hs own]
      exact h.live s

end Arena

/-! ## Runs -/

section Runs

variable {C : Cluster} {alloc : Server → Nat → UInt64} {me targetIp : SockaddrIn6} {hostList : List Ip6Memaddr}
  {rand len : Nat} {st₀ st : UInt16 → Server} {own : List Piece} {x : Piece}

/-- **`calloc` keeps its promise** for `k` regions of `n` bytes beside what is live at first. -/
def Promises (alloc : Server → Nat → UInt64) (st₀ : UInt16 → Server) (n k : Nat) : Prop :=
  ∀ (s : UInt16) (srv : Server) (more : List (Nat × Nat)), more.length < k → (∀ r ∈ more, r.2 = n) →
    srv.live.Perm (more ++ (st₀ s).live) → Fresh srv.live ((alloc srv n).toNat, n)

/-- The bytes `get_pointer` allocates for an array. -/
def arraySize (len : Nat) : Nat := (numPtrs 1 (UInt64.ofNat len)).toNat

theorem arraySize_eq (hlen : len < 2 ^ 31) : arraySize len = if len = 0 then 1 else len := by
  have h := numPtrs_eq (Nat.le_refl 1) hlen (Nat.one_dvd len)
  rwa [Nat.div_one] at h

theorem le_arraySize (hlen : len < 2 ^ 31) : len ≤ arraySize len :=
  le_numPtrs (Nat.le_refl 1) hlen (Nat.one_dvd len) (.inr rfl)

theorem Piece.row (hlen : len < 2 ^ 31) (hsize : x.size = arraySize len) :
    Row 1 x.addr (numPtrs 1 (UInt64.ofNat len)) (UInt64.ofNat len) := by
  have hfits := x.fits
  have hle := le_arraySize hlen
  exact row_of_one (Nat.le_refl 1) hlen (Nat.one_dvd len) (.inr rfl) (by omega) (.inr x.counted)

theorem genRdmIp6Target_mem (hne : hostList ≠ []) (rand : Nat) :
    ∃ host ∈ hostList, genRdmIp6Target hostList rand = some host := by
  have hidx : rand % hostList.length % 256 < hostList.length :=
    Nat.lt_of_le_of_lt (Nat.mod_le ..) (Nat.mod_lt _ (List.length_pos_iff.2 hne))
  exact ⟨_, List.getElem_mem hidx, List.getElem?_eq_getElem hidx⟩

/-- **A new array**, on some server. -/
theorem Arena.getPointer (h : Arena st₀ own st) (hlen : len < 2 ^ 31) (hne : hostList ≠ [])
    (hsub : ∀ h ∈ hostList, h.subid.toNat < ushrtMax) (hsizes : ∀ x ∈ own, x.size = arraySize len) {k : Nat}
    (hk : own.length < k) (hpromise : Promises alloc st₀ (arraySize len) k) (hport : targetIp.port = C.port)
    (rand : Nat) :
    Runs (rmemNet 1 C alloc True) (getPointer 1 me hostList rand targetIp (UInt64.ofNat len)) st (fun r st' =>
      r.1.port = C.port ∧ ∃ x : Piece, x.size = arraySize len ∧ r.2 = ⟨x.addr, numPtrs 1 (UInt64.ofNat len), 0⟩ ∧
        Arena st₀ (x :: own) st') := by
  obtain ⟨host, hmem, hhost⟩ := genRdmIp6Target_mem hne rand
  refine (getPointer_runs hhost hport (numPtrs_ne_zero (Nat.le_refl 1) hlen (Nat.one_dvd len))).mono ?_
  rintro ⟨ip, addr⟩ st' ⟨hip, rfl, rfl⟩
  have hsubid : (C.addr host.subid).subid = host.subid := C.subid_addr _
  have hfresh : Fresh (st host.subid).live ((alloc (st host.subid) (arraySize len)).toNat, arraySize len) := by
    refine hpromise host.subid (st host.subid) (regions own host.subid) ?_ (fun r hr => ?_) (h.live _)
    · rw [regions, List.length_map]
      exact Nat.lt_of_le_of_lt (List.length_filter_le ..) hk
    · obtain ⟨y, hy, -, rfl⟩ := mem_regions.1 hr
      exact hsizes y hy
  obtain ⟨x, hx, hsize, harena⟩ := h.reserve (a := baseAddr C me host.subid (alloc (st host.subid) (arraySize len)))
    (numPtrs_pos (Nat.le_refl 1) hlen (Nat.one_dvd len)) (by rw [baseAddr, hsubid]; exact hsub host hmem)
    (by rw [baseAddr, hsubid]; exact hfresh) (by rw [baseAddr, hsubid]; rfl)
  refine ⟨hip, x, hsize, by rw [hx]; rfl, ?_⟩
  rwa [baseAddr, hsubid] at harena

/-- A uniform write allocates and frees nothing. -/
theorem writeUniformRmem_live {base : Ip6Memaddr} {n size : UInt64} (h : Row 1 base n size)
    (hport : targetIp.port = C.port) (mem : Nat → UInt8) (payload : Nat) :
    Runs (rmemNet 1 C alloc True) (writeUniformRmem 1 me targetIp ⟨base, n, 0⟩ mem payload size) st
      (fun _ st' => ∀ s, (st' s).live = (st s).live) := by
  unfold writeUniformRmem
  rw [tmpAddrs_zero]
  refine Runs.bind (writeBulkRmem_runs (c := ⟨targetIp, bulkAddrs 1 base n.toNat, mem⟩) Nat.one_pos h.packet payload hport
    h.ne_nil h.small h.covered (fun hlt => (h.subids.resolve_left (Nat.not_le.2 hlt)).2)) ?_
  rintro ⟨c, e⟩ st' ⟨-, -, -, -, rfl⟩
  exact Runs.ret (fun s => rfl)

/-- **An array is written** from the writer's memory. -/
theorem Arena.writeUniform (h : Arena st₀ (x :: own) st) (hlen : len < 2 ^ 31) (hsize : x.size = arraySize len)
    (hport : targetIp.port = C.port) (mem : Nat → UInt8) (payload : Nat) :
    Runs (rmemNet 1 C alloc True)
      (writeUniformRmem 1 me targetIp ⟨x.addr, numPtrs 1 (UInt64.ofNat len), 0⟩ mem payload (UInt64.ofNat len)) st
      (fun r st' => r.1.port = C.port ∧ ∃ y : Piece, y.addr = x.addr ∧ y.size = x.size ∧
        y.data = readBytes mem payload len ∧ Arena st₀ (y :: own) st') := by
  have hrow := Piece.row hlen hsize
  have hdata : (readBytes mem payload len).length ≤ x.size := by
    rw [length_readBytes, hsize]
    exact le_arraySize hlen
  refine ((writeUniformRmem_runs Nat.one_pos hrow hport mem payload).and
    (writeUniformRmem_live hrow hport mem payload)).mono ?_
  rintro r st' ⟨⟨hip, hbytes, hframe⟩, hlive⟩
  rw [toNat_ofNat_of_int hlen] at hbytes hframe
  refine ⟨hip, x.put _ hdata, rfl, rfl, rfl, h.write hdata hlive ?_ ?_⟩
  · rw [length_readBytes]
    exact hbytes
  · rw [length_readBytes]
    exact hframe

/-- A uniform read changes no other byte of the reader's memory. -/
theorem readUniformRmem_frame {base : Ip6Memaddr} {n size : UInt64} (h : Row 1 base n size)
    (hport : targetIp.port = C.port) (mem : Nat → UInt8) {rxBuf : Nat} (hbuf : rxBuf + size.toNat < 2 ^ 64) :
    Runs (rmemNet 1 C alloc True) (readUniformRmem 1 me targetIp ⟨base, n, 0⟩ mem rxBuf size) st
      (fun r _ => ∀ q, q < rxBuf ∨ rxBuf + size.toNat ≤ q → r.1.2 q = mem q) := by
  unfold readUniformRmem
  rw [tmpAddrs_zero]
  refine Runs.bind (readBulkRmem_runs (c := ⟨targetIp, bulkAddrs 1 base n.toNat, mem⟩) Nat.one_pos h.packet rxBuf hport
    h.ne_nil h.small h.covered hbuf h.subids) ?_
  rintro ⟨c, e⟩ st' ⟨-, -, -, -, hframe, -⟩
  exact Runs.ret hframe

/-- **An array is read** into the reader's memory. -/
theorem Arena.readUniform (h : Arena st₀ own st) (hx : x ∈ own) (hlen : len < 2 ^ 31) (hsize : x.size = arraySize len)
    (hdata : x.data.length = len) {addr : Ip6Memaddr} (haddr : addr = x.addr) (hport : targetIp.port = C.port)
    (mem : Nat → UInt8) {rxBuf : Nat} (hbuf : rxBuf + len < 2 ^ 64) :
    Runs (rmemNet 1 C alloc True)
      (readUniformRmem 1 me targetIp ⟨addr, numPtrs 1 (UInt64.ofNat len), 0⟩ mem rxBuf (UInt64.ofNat len)) st
      (fun r st' => r.1.1.port = C.port ∧ readBytes r.1.2 rxBuf len = x.data ∧
        (∀ q, q < rxBuf ∨ rxBuf + len ≤ q → r.1.2 q = mem q) ∧ st' = st) := by
  subst haddr
  have hrow := Piece.row hlen hsize
  have hofNat := toNat_ofNat_of_int hlen
  have hbuf' : rxBuf + (UInt64.ofNat len).toNat < 2 ^ 64 := by rwa [hofNat]
  refine ((readUniformRmem_runs Nat.one_pos hrow hport mem hbuf').and
    (readUniformRmem_frame hrow hport mem hbuf')).mono ?_
  rintro r st' ⟨⟨hip, hbytes, rfl⟩, hframe⟩
  rw [hofNat] at hbytes hframe
  refine ⟨hip, ?_, hframe, rfl⟩
  have := h.bytes x hx
  rw [hdata] at this
  rw [hbytes, this]

/-- **An array is freed.** -/
theorem Arena.freeRmem (h : Arena st₀ (x :: own) st) (hpos : ∀ s, ∀ r ∈ (st₀ s).live, 0 < r.2)
    (hport : targetIp.port = C.port) {addr : Ip6Memaddr} (haddr : addr = x.addr) :
    Runs (rmemNet 1 C alloc True) (Rmem.freeRmem me targetIp addr) st
      (fun r st' => r.1.port = C.port ∧ Arena st₀ own st') := by
  subst haddr
  have hserve : (rmemNet 1 C alloc True).serve st
      (preparePacket me ⟨{ x.addr with cmd := freeCmd }, targetIp.port, []⟩) = _ :=
    handlePacket_free 1 C alloc st hport rfl
  refine (runs_request (fun p : Packet => (p.src, p.dst.addr)) hserve).mono ?_
  rintro r st' ⟨rfl, rfl⟩
  exact ⟨rfl, h.free (hpos _)⟩

end Runs

end ArrComp
end Bb
