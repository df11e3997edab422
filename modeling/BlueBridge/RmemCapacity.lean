import BlueBridge.RmemRoundTrip
/-!
# RmemCapacity — the sizes a bulk request takes

`num_addrs` addresses have room for `num_addrs * BLOCK_SIZE` bytes.  The check of the bulk functions compares whole
blocks, after the bytes below `BLOCK_SIZE` have been split off, so a size less than a block too large passes.  A request
of at most one block is not checked at all.  The uniform functions drop the verdict and return success.
-/
namespace Bb
namespace Rmem

open Bytes Wire

/-! ## Verdicts -/

/-- The verdict for room for `capacity` bytes: a larger size is refused at once, with nothing sent, and any other
succeeds in every run. -/
def Exact {α : Type} (W : Net Packet (UInt16 → Server) UInt16) (m : Prog Packet (α × Exit)) (st : UInt16 → Server)
    (capacity size : Nat) : Prop :=
  (capacity < size → ∃ r, m = .ret (r, .failure)) ∧ (size ≤ capacity → Runs W m st (fun r _ => r.2 = .success))

/-- Enough room, and addresses the functions can use. -/
def Served (B : Nat) (addrs : List Ip6Memaddr) (size : Nat) (bs : List Batch) : Prop :=
  size ≤ addrs.length * B ∧ (size ≤ B → addrs ≠ []) ∧ (B < size → Counted addrs bs)

/-- Too large by a whole block, and larger than one. -/
def Refused (B : Nat) (addrs : List Ip6Memaddr) (size : Nat) : Prop := B < size ∧ addrs.length < size / B

section Verdicts

variable {B : Nat} {C : Cluster} {alloc : Server → Nat → UInt64} {me : SockaddrIn6} {st : UInt16 → Server} {c : Caller}
  {W : Net Packet (UInt16 → Server) UInt16} {m : Prog Packet (Caller × Exit)} {addrs : List Ip6Memaddr}
  {size : Nat} {bs : List Batch}

/-- What a bulk function of either kind does, by the size and the number of addresses. -/
structure BulkOp (W : Net Packet (UInt16 → Server) UInt16) (m : Prog Packet (Caller × Exit)) (st : UInt16 → Server)
    (B : Nat) (addrs : List Ip6Memaddr) (size : Nat) (bs : List Batch) : Prop where
  none : size ≤ B → addrs = [] → m = .fail
  small : size ≤ B → addrs ≠ [] → Runs W m st (fun r _ => r.2 = .success)
  refused : Refused B addrs size → ∃ r, m = .ret (r, .failure)
  taken : B < size → size / B ≤ addrs.length → ∀ r, m ≠ .ret (r, .failure)
  runs : B < size → size / B ≤ addrs.length → Counted addrs bs → Runs W m st (fun r _ => r.2 = .success)
  counted : B < size → size / B ≤ addrs.length → ∀ {α : Type} {f : Caller × Exit → Prog Packet α}
    {Q : α → (UInt16 → Server) → Prop}, Runs W (m.bind f) st Q → Counted addrs bs

theorem lt_of_refused (h : Refused B addrs size) : addrs.length * B < size := by
  obtain ⟨hlt, hdiv⟩ := h
  rcases Nat.eq_zero_or_pos B with rfl | hpos
  · rwa [Nat.mul_zero]
  · have := (Nat.le_div_iff_mul_le hpos).1 hdiv
    rw [Nat.succ_mul] at this
    omega

/-- A bulk function that runs to an end, whatever follows it, has what it needs. -/
theorem BulkOp.served (h : BulkOp W m st B addrs size bs) (hcap : size ≤ addrs.length * B) {α : Type}
    {f : Caller × Exit → Prog Packet α} {Q : α → (UInt16 → Server) → Prop} (hruns : Runs W (m.bind f) st Q) :
    Served B addrs size bs := by
  refine ⟨hcap, fun hle hnil => ?_, fun hlt => ?_⟩
  · rw [h.none hle hnil] at hruns
    exact not_ends_fail rfl (hruns [] [])
  · exact h.counted hlt (Nat.div_le_of_le_mul (by rwa [Nat.mul_comm])) hruns

theorem BulkOp.runs_of_served (h : BulkOp W m st B addrs size bs) (hs : Served B addrs size bs) :
    Runs W m st (fun r _ => r.2 = .success) := by
  obtain ⟨hcap, hne, hcount⟩ := hs
  rcases Nat.lt_or_ge B size with hlt | hle
  · exact h.runs hlt (Nat.div_le_of_le_mul (by rwa [Nat.mul_comm])) (hcount hlt)
  · exact h.small hle (hne hle)

/-- **The verdict of a bulk function is exact** when the request is served or too large by a whole block. -/
theorem BulkOp.exact_iff (h : BulkOp W m st B addrs size bs) :
    Exact W m st (addrs.length * B) size ↔ Served B addrs size bs ∨ Refused B addrs size := by
  constructor
  · rintro ⟨hfail, hok⟩
    rcases Nat.lt_or_ge (addrs.length * B) size with hlt | hcap
    · obtain ⟨r, hr⟩ := hfail hlt
      rcases Nat.lt_or_ge B size with hB | hB
      · refine Or.inr ⟨hB, Nat.lt_of_not_le (fun hle => h.taken hB hle r hr)⟩
      · -- a request of at most one block is never refused
        exfalso
        rcases Classical.em (addrs = []) with hnil | hne
        · rw [h.none hB hnil] at hr
          cases hr
        · have := (h.small hB hne [] []).of_ret hr
          cases this.2.2
    · exact Or.inl (h.served hcap (Runs.bind (hok hcap) (fun r _ _ => Runs.ret (Q := fun _ _ => True) (a := r) trivial)))
  · rintro (hs | hr)
    · exact ⟨fun hlt => absurd hs.1 (Nat.not_le.2 hlt), fun _ => h.runs_of_served hs⟩
    · exact ⟨fun _ => h.refused hr, fun hle => absurd hle (Nat.not_le.2 (lt_of_refused hr))⟩

/-- **A verdict that is dropped is exact** only when the request is served. -/
theorem BulkOp.dropped_iff (h : BulkOp W m st B addrs size bs) {α : Type} (g : Caller → α) :
    Exact W (m.bind (fun r => .ret (g r.1, .success))) st (addrs.length * B) size ↔ Served B addrs size bs := by
  constructor
  · rintro ⟨hfail, hok⟩
    rcases Nat.lt_or_ge (addrs.length * B) size with hlt | hcap
    · exfalso
      obtain ⟨r, hr⟩ := hfail hlt
      obtain ⟨a, -, ha⟩ := Prog.bind_eq_ret hr
      cases ha
    · exact h.served hcap (hok hcap)
  · intro hs
    refine ⟨fun hlt => absurd hs.1 (Nat.not_le.2 hlt), fun _ => ?_⟩
    exact Runs.bind (h.runs_of_served hs) (fun _ _ _ => Runs.ret rfl)

/-- A bulk function is a single request, a refusal, or its batches and a request for the bytes below `BLOCK_SIZE`. -/
theorem bulkOp_of_calls {op : Caller → Batch → Prog Packet Caller} (first : Nat → UInt16 → Caller → Prog Packet Caller)
    {buf buf' : Nat} {len len' : UInt16} (hB₀ : 0 < B) (hport : c.targetIp.port = C.port)
    (hop : BatchOp B C alloc op) (hin : size / B ≤ c.addrs.length → ∀ b ∈ bs, b.Within c.addrs.length)
    (hnil : ∀ p l c, c.addrs = [] → first p l c = .fail)
    (hfirst : ∀ p l c st, c.targetIp.port = C.port → c.addrs ≠ [] →
      Runs (rmemNet B C alloc True) (first p l c) st (fun _ _ => True))
    (hm : m = if size ≤ B then (first buf len c).bind (fun c => .ret (c, .success))
      else if size / B > c.addrs.length then .ret (c, .failure)
      else (Caller.calls op bs c).bind (fun c =>
        if len' ≠ 0 then (first buf' len' c).bind (fun c => .ret (c, .success)) else .ret (c, .success))) :
    BulkOp (rmemNet B C alloc True) m st B c.addrs size bs := by
  have hbig : B < size → size / B ≤ c.addrs.length → m = _ := fun hlt hle =>
    hm.trans ((if_neg (Nat.not_le.2 hlt)).trans (if_neg (Nat.not_lt.2 hle)))
  constructor
  · intro hle haddrs
    rw [hm, if_pos hle, hnil _ _ _ haddrs]
    rfl
  · intro hle hne
    rw [hm, if_pos hle]
    exact Runs.bind (hfirst _ _ c st hport hne) (fun _ _ _ => Runs.ret rfl)
  · intro hr
    exact ⟨c, by rw [hm, if_neg (Nat.not_le.2 hr.1), if_pos hr.2]⟩
  · intro hlt hle r hret
    rw [hbig hlt hle] at hret
    -- whatever has returned has returned success
    obtain ⟨c', -, hret⟩ := Prog.bind_eq_ret hret
    split at hret
    · obtain ⟨c'', -, hret⟩ := Prog.bind_eq_ret hret
      cases hret
    · cases hret
  · intro hlt hle hcount
    rw [hbig hlt hle]
    refine Runs.bind (calls_runs hop bs c st hport (hin hle) hcount) ?_
    rintro c' st' ⟨hport', haddrs'⟩
    have hne : c'.addrs ≠ [] := by
      intro hnil'
      rw [← haddrs', hnil'] at hle
      exact absurd hle (Nat.not_le.2 (Nat.div_pos (Nat.le_of_lt hlt) hB₀))
    split
    · exact Runs.bind (hfirst _ _ c' st' hport' hne) (fun _ _ _ => Runs.ret rfl)
    · exact Runs.ret rfl
  · intro hlt hle α f Q hruns
    rw [hbig hlt hle, Prog.bind_assoc] at hruns
    exact counted_of_ends hop bs c st [] [] hport (hin hle) (hruns [] [])

theorem bulkOp_write (hB₀ : 0 < B) (hport : c.targetIp.port = C.port) (payload : Nat) (size : UInt64) :
    BulkOp (rmemNet B C alloc True) (writeBulkRmem B me c payload size) st B c.addrs size.toNat
      (writeCalls B (size.toNat / B)) := by
  refine bulkOp_of_calls (fun p l c => c.writeFirst me p l) hB₀ hport (batchOp_write payload)
    (fun hle => within_writeCalls B hle) ?_ ?_ (writeBulkRmem_eq B me c payload size)
  · intro p l c hnil
    rw [Caller.writeFirst, hnil]
  · intro p l c st hport hne
    obtain ⟨a, r, ha⟩ := List.exists_cons_of_ne_nil hne
    exact (Caller.writeFirst_runs hport ha p l).mono (fun _ _ _ => trivial)

theorem bulkOp_read (hB₀ : 0 < B) (hport : c.targetIp.port = C.port) (rxBuf : Nat) (size : UInt64) :
    BulkOp (rmemNet B C alloc True) (readBulkRmem B me c rxBuf size) st B c.addrs size.toNat
      (readCalls B (size.toNat / B)) := by
  refine bulkOp_of_calls (fun p l c => c.readFirst me p l) hB₀ hport (batchOp_read rxBuf)
    (fun hle => within_readCalls B hle) ?_ ?_ (readBulkRmem_eq B me c rxBuf size)
  · intro p l c hnil
    rw [Caller.readFirst, hnil]
  · intro p l c st hport hne
    obtain ⟨a, r, ha⟩ := List.exists_cons_of_ne_nil hne
    rw [Caller.readFirst, ha]
    exact Runs.bind (readRmem_runs B alloc True me st hport a c.mem p l) (fun _ _ _ => Runs.ret trivial)

end Verdicts

/-! ## The four functions -/

section Capacity

variable (B : Nat) (C : Cluster) (alloc : Server → Nat → UInt64) (me : SockaddrIn6)

def WriteExact (addrs : List Ip6Memaddr) (size : UInt64) : Prop :=
  ∀ (targetIp : SockaddrIn6) (mem : Nat → UInt8) (payload : Nat) (st : UInt16 → Server), targetIp.port = C.port →
    Exact (rmemNet B C alloc True) (writeBulkRmem B me ⟨targetIp, addrs, mem⟩ payload size) st
      (addrs.length * B) size.toNat

def ReadExact (addrs : List Ip6Memaddr) (size : UInt64) : Prop :=
  ∀ (targetIp : SockaddrIn6) (mem : Nat → UInt8) (rxBuf : Nat) (st : UInt16 → Server), targetIp.port = C.port →
    Exact (rmemNet B C alloc True) (readBulkRmem B me ⟨targetIp, addrs, mem⟩ rxBuf size) st
      (addrs.length * B) size.toNat

def WriteUniformExact (block : Ip6MemaddrBlock) (size : UInt64) : Prop :=
  ∀ (targetIp : SockaddrIn6) (mem : Nat → UInt8) (payload : Nat) (st : UInt16 → Server), targetIp.port = C.port →
    Exact (rmemNet B C alloc True) (writeUniformRmem B me targetIp block mem payload size) st
      ((block.length.toNat - block.offset.toNat) * B) size.toNat

def ReadUniformExact (block : Ip6MemaddrBlock) (size : UInt64) : Prop :=
  ∀ (targetIp : SockaddrIn6) (mem : Nat → UInt8) (rxBuf : Nat) (st : UInt16 → Server), targetIp.port = C.port →
    Exact (rmemNet B C alloc True) (readUniformRmem B me targetIp block mem rxBuf size) st
      ((block.length.toNat - block.offset.toNat) * B) size.toNat

/-- The block is one, and its addresses from the offset on have room for the request. -/
def BlockServed (block : Ip6MemaddrBlock) (size : Nat) (bs : List Batch) : Prop :=
  ∃ addrs, tmpAddrs B block = some addrs ∧ Served B addrs size bs

variable {B C alloc me} {block : Ip6MemaddrBlock} {size : UInt64}

theorem length_tmpAddrs {addrs : List Ip6Memaddr} (h : tmpAddrs B block = some addrs) :
    addrs.length = block.length.toNat - block.offset.toNat := by
  unfold tmpAddrs at h
  split at h
  · cases h
    rw [List.length_map, List.length_range']
  · cases h

theorem not_exact_fail {α : Type} {W : Net Packet (UInt16 → Server) UInt16} {st : UInt16 → Server} {capacity n : Nat} :
    ¬ Exact W (.fail : Prog Packet (α × Exit)) st capacity n := by
  rintro ⟨hfail, hok⟩
  rcases Nat.lt_or_ge capacity n with hlt | hle
  · obtain ⟨r, hr⟩ := hfail hlt
    cases hr
  · exact not_ends_fail rfl (hok hle [] [])

/-- A uniform function drops the verdict of the bulk function over the block's addresses. -/
theorem uniform_iff {α : Type} {W : Net Packet (UInt16 → Server) UInt16} {st : UInt16 → Server} {bs : List Batch}
    {bulk : List Ip6Memaddr → Prog Packet (Caller × Exit)} {m : Prog Packet (α × Exit)} (g : Caller → α)
    (hm : m = match tmpAddrs B block with
      | none => .fail
      | some addrs => (bulk addrs).bind (fun r => .ret (g r.1, .success)))
    (h : ∀ addrs, BulkOp W (bulk addrs) st B addrs size.toNat bs) :
    Exact W m st ((block.length.toNat - block.offset.toNat) * B) size.toNat ↔ BlockServed B block size.toNat bs := by
  rw [hm, BlockServed]
  cases hb : tmpAddrs B block with
  | none =>
    refine ⟨fun he => absurd he not_exact_fail, ?_⟩
    rintro ⟨addrs, haddrs, -⟩
    cases haddrs
  | some addrs =>
    rw [← length_tmpAddrs hb]
    refine ((h addrs).dropped_iff g).trans ⟨fun hs => ⟨addrs, rfl, hs⟩, ?_⟩
    rintro ⟨addrs', haddrs, hs⟩
    cases haddrs
    exact hs

theorem forall_caller_iff {P : SockaddrIn6 → (Nat → UInt8) → Nat → (UInt16 → Server) → Prop} {q : Prop}
    (h : ∀ targetIp mem buf st, targetIp.port = C.port → (P targetIp mem buf st ↔ q)) :
    (∀ targetIp mem buf st, targetIp.port = C.port → P targetIp mem buf st) ↔ q := by
  constructor
  · intro hP
    exact (h ⟨⟨0, 0, 0, 0⟩, C.port⟩ (fun _ => 0) 0 (fun _ => ⟨fun _ => 0, []⟩) rfl).1 (hP _ _ _ _ rfl)
  · exact fun hq targetIp mem buf st hport => (h targetIp mem buf st hport).2 hq

/-- **When the verdicts are exact.**  The bulk functions refuse what is too large by a whole block and serve what fits,
given an address to send to and servers `sub_ids` can count; in between, and for a request of at most one block without
an address, they do neither.  The uniform functions never refuse. -/
theorem capacity_exact_iff (hB₀ : 1 ≤ B) (addrs : List Ip6Memaddr) (block : Ip6MemaddrBlock) (size : UInt64) :
    (WriteExact B C alloc me addrs size ↔
      Served B addrs size.toNat (writeCalls B (size.toNat / B)) ∨ Refused B addrs size.toNat) ∧
    (ReadExact B C alloc me addrs size ↔
      Served B addrs size.toNat (readCalls B (size.toNat / B)) ∨ Refused B addrs size.toNat) ∧
    (WriteUniformExact B C alloc me block size ↔ BlockServed B block size.toNat (writeCalls B (size.toNat / B))) ∧
    (ReadUniformExact B C alloc me block size ↔ BlockServed B block size.toNat (readCalls B (size.toNat / B))) := by
  have hwrite := fun (targetIp : SockaddrIn6) (mem : Nat → UInt8) (payload : Nat) (st : UInt16 → Server)
    (hport : targetIp.port = C.port) (addrs : List Ip6Memaddr) =>
      @bulkOp_write B C alloc me st ⟨targetIp, addrs, mem⟩ hB₀ hport payload size
  have hread := fun (targetIp : SockaddrIn6) (mem : Nat → UInt8) (rxBuf : Nat) (st : UInt16 → Server)
    (hport : targetIp.port = C.port) (addrs : List Ip6Memaddr) =>
      @bulkOp_read B C alloc me st ⟨targetIp, addrs, mem⟩ hB₀ hport rxBuf size
  refine ⟨forall_caller_iff ?_, forall_caller_iff ?_, forall_caller_iff ?_, forall_caller_iff ?_⟩
  · exact fun targetIp mem payload st hport => (hwrite targetIp mem payload st hport addrs).exact_iff
  · exact fun targetIp mem rxBuf st hport => (hread targetIp mem rxBuf st hport addrs).exact_iff
  · exact fun targetIp mem payload st hport => uniform_iff (·.targetIp) rfl (hwrite targetIp mem payload st hport)
  · exact fun targetIp mem rxBuf st hport =>
      uniform_iff (fun c => (c.targetIp, c.mem)) rfl (hread targetIp mem rxBuf st hport)

theorem capacity_exact_two_blocks :
    WriteExact 2 plainCluster (fun _ _ => 0) ⟨⟨9, 0, 0, 0⟩, 6000⟩ [⟨1, 0, 0, 0⟩, ⟨1, 0, 0, 2⟩] 4 ∧
      ReadUniformExact 2 plainCluster (fun _ _ => 0) ⟨⟨9, 0, 0, 0⟩, 6000⟩ ⟨⟨1, 0, 0, 0⟩, 3, 1⟩ 4 := by
  have h := @capacity_exact_iff 2 plainCluster (fun _ _ => 0) ⟨⟨9, 0, 0, 0⟩, 6000⟩ (by decide)
    [⟨1, 0, 0, 0⟩, ⟨1, 0, 0, 2⟩] ⟨⟨1, 0, 0, 0⟩, 3, 1⟩ 4
  refine ⟨h.1.2 (Or.inl ⟨by decide, by decide, fun _ => ?_⟩), h.2.2.2.2 ⟨_, rfl, by decide, by decide, fun _ => ?_⟩⟩
  · unfold Counted
    decide
  · unfold Counted
    decide

/-- Five bytes for two blocks of two are taken, and a uniform write of a hundred bytes to one block sends nothing and
returns success. -/
theorem capacity_exceeded :
    Runs (rmemNet 2 plainCluster (fun _ _ => 0) True)
        (writeBulkRmem 2 ⟨⟨9, 0, 0, 0⟩, 6000⟩
          ⟨⟨⟨1, 0, 0, 0⟩, 5000⟩, [⟨1, 0, 0, 0⟩, ⟨1, 0, 0, 2⟩], fun _ => 0⟩ 0 5)
        (fun _ => ⟨fun _ => 0, []⟩) (fun r _ => r.2 = .success) ∧
      writeUniformRmem 2 ⟨⟨9, 0, 0, 0⟩, 6000⟩ ⟨⟨1, 0, 0, 0⟩, 5000⟩ ⟨⟨1, 0, 0, 0⟩, 1, 0⟩ (fun _ => 0) 0 100 =
        .ret (⟨⟨1, 0, 0, 0⟩, 5000⟩, .success) := by
  refine ⟨(bulkOp_write (by decide) rfl 0 5).runs (by decide) (by decide) ?_, rfl⟩
  unfold Counted
  decide

end Capacity

end Rmem
end Bb
