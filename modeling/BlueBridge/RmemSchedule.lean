import BlueBridge.RmemBulk
/-!
# RmemSchedule — which block goes where (`read_bulk_rmem`, `write_bulk_rmem`)

The two bulk functions are near copies: chunk `k` of the buffer goes with address `k`, forty chunks to a batch.  They
differ in the widths of their counters.  The write counts its batches in a `uint64_t`, the read in a `uint32_t`, and the
place of a batch in the buffer is a product of that width.  From the first batch at or beyond `2 ^ 32` bytes on, the read
asks for blocks to be put over others.

Either kind of batch runs if `sub_ids` can count its servers and is undefined if not (`BatchOp`).
-/
namespace Bb
namespace Rmem

open Bytes Wire

/-! ## Batches -/

/-- A call of `batch_read` or `batch_write`: its first address, its packets and its place in the buffer. -/
structure Batch where
  index : Nat
  count : Nat
  offset : Nat
  deriving DecidableEq, Repr

def readBatch (B i : Nat) : Batch := ⟨i * batchSize % 2 ^ 32, batchSize, B * i * batchSize % 2 ^ 32⟩

def writeBatch (B i : Nat) : Batch := ⟨i * batchSize % 2 ^ 64, batchSize, B * i * batchSize % 2 ^ 64⟩

/-- The incomplete batch, whose `offset` is a `uint64_t` in both functions. -/
def lastBatch (B chunks : Nat) : Batch :=
  ⟨chunks - chunks % batchSize, chunks % batchSize, B * (chunks - chunks % batchSize) % 2 ^ 64⟩

def readCalls (B chunks : Nat) : List Batch :=
  (List.range (chunks / batchSize % 2 ^ 32)).map (readBatch B) ++ [lastBatch B chunks]

def writeCalls (B chunks : Nat) : List Batch :=
  (List.range (chunks / batchSize)).map (writeBatch B) ++ [lastBatch B chunks]

/-- Batch after batch. -/
def Caller.calls (op : Caller → Batch → Prog Packet Caller) : List Batch → Caller → Prog Packet Caller
  | [],     c => pure c
  | b :: r, c => do
    let c ← op c b
    calls op r c

theorem Caller.calls_append (op : Caller → Batch → Prog Packet Caller) : ∀ (bs bs' : List Batch) (c : Caller),
    Caller.calls op (bs ++ bs') c = (Caller.calls op bs c).bind (Caller.calls op bs')
  | [], _, _ => rfl
  | b :: r, bs', c => by
    rw [List.cons_append, Caller.calls, Caller.calls, Prog.bind_eq, Prog.bind_eq, Prog.bind_assoc]
    exact congrArg _ (funext (Caller.calls_append op r bs'))

theorem Caller.calls_single_bind {α : Type} (op : Caller → Batch → Prog Packet Caller) (b : Batch) (c : Caller)
    (f : Caller → Prog Packet α) : (Caller.calls op [b] c).bind f = (op c b).bind f := by
  rw [Caller.calls, Prog.bind_eq, Prog.bind_assoc]
  rfl

section Calls

variable (B : Nat) (me : SockaddrIn6)

def Caller.writeCall (payload : Nat) (c : Caller) (b : Batch) : Prog Packet Caller :=
  c.batchWrite B me b.index b.count (payload + b.offset)

def Caller.readCall (rxBuf : Nat) (c : Caller) (b : Batch) : Prog Packet Caller :=
  c.batchRead B me b.index b.count (rxBuf + b.offset)

theorem writeBatches_eq (payload : Nat) : ∀ (l : List Nat) (c : Caller),
    writeBatches B me payload l c = Caller.calls (Caller.writeCall B me payload) (l.map (writeBatch B)) c
  | [], _ => rfl
  | i :: r, c => by
    rw [writeBatches, List.map_cons, Caller.calls]
    exact congrArg _ (funext (writeBatches_eq payload r))

theorem readBatches_eq (rxBuf : Nat) : ∀ (l : List Nat) (c : Caller),
    readBatches B me rxBuf l c = Caller.calls (Caller.readCall B me rxBuf) (l.map (readBatch B)) c
  | [], _ => rfl
  | i :: r, c => by
    rw [readBatches, List.map_cons, Caller.calls]
    exact congrArg _ (funext (readBatches_eq rxBuf r))

/-- **A bulk write is its batches**, and a request for the bytes below `BLOCK_SIZE`. -/
theorem writeBulkRmem_eq (c : Caller) (payload : Nat) (size : UInt64) :
    writeBulkRmem B me c payload size =
      if size.toNat ≤ B then (c.writeFirst me payload size.toUInt16).bind (fun c => .ret (c, .success))
      else if size.toNat / B > c.addrs.length then .ret (c, .failure)
      else (Caller.calls (Caller.writeCall B me payload) (writeCalls B (size.toNat / B)) c).bind (fun c =>
        if UInt16.ofNat (size.toNat % B) ≠ 0 then
          (c.writeFirst me (payload + B * (size.toNat / B - size.toNat / B % batchSize + 1) % 2 ^ 64)
            (UInt16.ofNat (size.toNat % B))).bind (fun c => .ret (c, .success))
        else .ret (c, .success)) := by
  rw [writeBulkRmem, writeCalls, Caller.calls_append, Prog.bind_assoc, ← writeBatches_eq]
  simp only [Caller.calls_single_bind]
  rfl

/-- **A bulk read is its batches**, and a request for the bytes below `BLOCK_SIZE`. -/
theorem readBulkRmem_eq (c : Caller) (rxBuf : Nat) (size : UInt64) :
    readBulkRmem B me c rxBuf size =
      if size.toNat ≤ B then (c.readFirst me rxBuf size.toUInt16).bind (fun c => .ret (c, .success))
      else if size.toNat / B > c.addrs.length then .ret (c, .failure)
      else (Caller.calls (Caller.readCall B me rxBuf) (readCalls B (size.toNat / B)) c).bind (fun c =>
        if UInt16.ofNat (size.toNat % B) ≠ 0 then
          (c.readFirst me (rxBuf + B * (size.toNat / B - size.toNat / B % batchSize + 1) % 2 ^ 64)
            (UInt16.ofNat (size.toNat % B))).bind (fun c => .ret (c, .success))
        else .ret (c, .success)) := by
  rw [readBulkRmem, readCalls, Caller.calls_append, Prog.bind_assoc, ← readBatches_eq]
  simp only [Caller.calls_single_bind]
  rfl

end Calls

/-! ## Runs of batches -/

/-- `sub_ids` can count the servers of the batches. -/
def Counted (addrs : List Ip6Memaddr) (bs : List Batch) : Prop :=
  ∀ b ∈ bs, ∀ a ∈ part addrs b.index b.count, a.subid.toNat < ushrtMax

/-- The batch uses the first `n` addresses only. -/
def Batch.Within (n : Nat) (b : Batch) : Prop := b.index + b.count ≤ n ∧ b.count ≤ batchSize

theorem within_calls (B : Nat) {q n m : Nat} {f : Nat → Batch} (h : q ≤ n) (hm : m ≤ q / batchSize)
    (hf : ∀ i, (f i).index ≤ i * batchSize ∧ (f i).count = batchSize) :
    ∀ b ∈ (List.range m).map f ++ [lastBatch B q], b.Within n := by
  intro b hb
  rcases List.mem_append.1 hb with hb | hb
  · obtain ⟨i, hi, rfl⟩ := List.mem_map.1 hb
    have hi := List.mem_range.1 hi
    obtain ⟨hidx, hcount⟩ := hf i
    unfold Batch.Within
    unfold batchSize at *
    omega
  · cases List.mem_singleton.1 hb
    refine ⟨?_, Nat.le_of_lt (Nat.mod_lt _ (by decide))⟩
    show q - q % batchSize + q % batchSize ≤ n
    rwa [Nat.sub_add_cancel (Nat.mod_le ..)]

theorem within_readCalls (B : Nat) {q n : Nat} (h : q ≤ n) : ∀ b ∈ readCalls B q, b.Within n :=
  within_calls B h (Nat.mod_le ..) (fun _ => ⟨Nat.mod_le .., rfl⟩)

theorem within_writeCalls (B : Nat) {q n : Nat} (h : q ≤ n) : ∀ b ∈ writeCalls B q, b.Within n :=
  within_calls B h (Nat.le_refl _) (fun _ => ⟨Nat.mod_le .., rfl⟩)

section Runs

variable {B : Nat} {C : Cluster} {alloc : Server → Nat → UInt64} {me : SockaddrIn6} {st : UInt16 → Server}
  {addrs : List Ip6Memaddr} {op : Caller → Batch → Prog Packet Caller}

/-- What fails on a server `sub_ids` cannot count and returns has none. -/
theorem subids_of_ends {α β : Type} {m : Prog Packet α} {f : α → Prog Packet β}
    {Q : β → Conf Packet (UInt16 → Server) β → Prop} {d rc : List Packet}
    (hfail : ∀ a ∈ addrs, ¬ a.subid.toNat < ushrtMax → m = .fail)
    (h : Ends (rmemNet B C alloc True) Q ⟨m.bind f, [], st, d, [], rc⟩) : ∀ a ∈ addrs, a.subid.toNat < ushrtMax := by
  intro a ha
  by_contra hbad
  rw [hfail a ha hbad] at h
  exact not_ends_fail rfl h

/-- The caller's list is as it was, `target_ip` a server's. -/
def Caller.Same (C : Cluster) (c c' : Caller) : Prop := c'.targetIp.port = C.port ∧ c'.addrs = c.addrs

/-- What a batch of either kind does: it runs if its servers can be counted, and is undefined if not. -/
structure BatchOp (B : Nat) (C : Cluster) (alloc : Server → Nat → UInt64) (op : Caller → Batch → Prog Packet Caller) :
    Prop where
  runs : ∀ {c : Caller} {b : Batch} (st : UInt16 → Server), c.targetIp.port = C.port → b.Within c.addrs.length →
    (∀ a ∈ part c.addrs b.index b.count, a.subid.toNat < ushrtMax) →
    Runs (rmemNet B C alloc True) (op c b) st (fun c' _ => c.Same C c')
  fails : ∀ {c : Caller} {b : Batch} {a : Ip6Memaddr}, b.Within c.addrs.length →
    a ∈ part c.addrs b.index b.count → ¬ a.subid.toNat < ushrtMax → op c b = .fail

theorem batchOp_write (payload : Nat) : BatchOp B C alloc (Caller.writeCall B me payload) where
  runs := by
    intro c b st hport hin hsub
    have hlen : (part c.addrs b.index b.count).length ≤ batchSize := by
      rw [length_part hin.1]
      exact hin.2
    rw [Caller.writeCall, Caller.batchWrite, slice, if_pos hin.1]
    refine Runs.bind (Rmem.batchWrite_runs B alloc me c.mem _ (UInt16.ofNat B) st hport hsub (countFor_lt hlen)) ?_
    rintro ip st' ⟨hip, -⟩
    exact Runs.ret ⟨hip, rfl⟩
  fails := by
    intro c b a hin ha hbad
    rw [Caller.writeCall, Caller.batchWrite, slice, if_pos hin.1]
    exact congrArg (Prog.bind · _) (batchWrite_fail me c.targetIp hbad ha c.mem _ (UInt16.ofNat B))

theorem batchOp_read (rxBuf : Nat) : BatchOp B C alloc (Caller.readCall B me rxBuf) where
  runs := by
    intro c b st hport hin hsub
    rw [Caller.readCall, Caller.batchRead, slice, if_pos hin.1]
    refine Runs.bind (Q := fun _ _ => True) (fun d rc => ?_) (fun mem' st' _ => Runs.ret ⟨hport, rfl⟩)
    refine (batchRead_ends B alloc True st d rc hport hsub).mono ?_
    rintro mem' c ⟨D, R, hdone, -⟩
    obtain ⟨hA, hF, -⟩ := hdone.answers hport
    exact ⟨hF, hA, trivial⟩
  fails := by
    intro c b a hin ha hbad
    rw [Caller.readCall, Caller.batchRead, slice, if_pos hin.1]
    exact congrArg (Prog.bind · _) (batchRead_fail me c.targetIp hbad ha c.mem _ (UInt16.ofNat B))

/-- **Batches whose servers can be counted run**, one after the other. -/
theorem calls_runs (hop : BatchOp B C alloc op) : ∀ (bs : List Batch) (c : Caller) (st : UInt16 → Server),
    c.targetIp.port = C.port → (∀ b ∈ bs, b.Within c.addrs.length) → Counted c.addrs bs →
    Runs (rmemNet B C alloc True) (Caller.calls op bs c) st (fun c' _ => c.Same C c')
  | [], c, _, hport, _, _ => Runs.ret ⟨hport, rfl⟩
  | b :: r, c, st, hport, hin, hcount => by
    rw [Caller.calls]
    refine Runs.bind (hop.runs st hport (hin b List.mem_cons_self) (hcount b List.mem_cons_self)) ?_
    rintro c₁ st₁ ⟨hport₁, haddrs₁⟩
    refine (calls_runs hop r c₁ st₁ hport₁ ?_ ?_).mono (fun c₂ _ h => ⟨h.1, h.2.trans haddrs₁⟩)
    · rw [haddrs₁]
      exact fun b' hb' => hin b' (List.mem_cons_of_mem _ hb')
    · rw [haddrs₁]
      exact fun b' hb' => hcount b' (List.mem_cons_of_mem _ hb')

/-- **Batches that return have only servers that can be counted.** -/
theorem counted_of_ends (hop : BatchOp B C alloc op) {α : Type} {f : Caller → Prog Packet α}
    {Q : α → Conf Packet (UInt16 → Server) α → Prop} : ∀ (bs : List Batch) (c : Caller) (st : UInt16 → Server)
    (d rc : List Packet), c.targetIp.port = C.port → (∀ b ∈ bs, b.Within c.addrs.length) →
    Ends (rmemNet B C alloc True) Q ⟨(Caller.calls op bs c).bind f, [], st, d, [], rc⟩ → Counted c.addrs bs
  | [], _, _, _, _, _, _, _ => fun b hb => by cases hb
  | b :: r, c, st, d, rc, hport, hin, h => by
    rw [Caller.calls, Prog.bind_eq, Prog.bind_assoc] at h
    have hfirst := subids_of_ends (fun a ha hbad => hop.fails (hin b List.mem_cons_self) ha hbad) h
    obtain ⟨c₁, st₁, d₁, rc₁, ⟨hport₁, haddrs₁⟩, h₁⟩ :=
      (hop.runs st hport (hin b List.mem_cons_self) hfirst).rest h
    have hrest := counted_of_ends hop r c₁ st₁ d₁ rc₁ hport₁
      (by rw [haddrs₁]; exact fun b' hb' => hin b' (List.mem_cons_of_mem _ hb')) h₁
    rw [haddrs₁] at hrest
    intro b' hb'
    rcases List.mem_cons.1 hb' with rfl | hb'
    · exact hfirst
    · exact hrest b' hb'

theorem mem_part_batches {addrs : List Ip6Memaddr} {a : Ip6Memaddr} : ∀ (m k : Nat),
    a ∈ part addrs (k * batchSize) (m * batchSize) → ∃ i, i < k + m ∧ a ∈ part addrs (i * batchSize) batchSize
  | 0, k, ha => by
    rw [Nat.zero_mul, part, List.take_zero] at ha
    cases ha
  | m + 1, k, ha => by
    rw [part_succ] at ha
    rcases List.mem_append.1 ha with ha | ha
    · exact ⟨k, by omega, ha⟩
    · obtain ⟨i, hi, ha⟩ := mem_part_batches m (k + 1) ha
      exact ⟨i, by omega, ha⟩

/-- The batches are all of the addresses the request covers. -/
theorem subids_of_calls {n : Nat} {f : Nat → Batch}
    (hf : ∀ i < n / batchSize, (f i).index = i * batchSize ∧ (f i).count = batchSize)
    (h : Counted addrs ((List.range (n / batchSize)).map f ++ [lastBatch B n])) :
    ∀ a ∈ addrs.take n, a.subid.toNat < ushrtMax := by
  intro a ha
  rw [take_eq_parts] at ha
  rcases List.mem_append.1 ha with ha | ha
  · obtain ⟨i, hi, ha⟩ := mem_part_batches _ 0 ha
    rw [Nat.zero_add] at hi
    obtain ⟨hidx, hcount⟩ := hf i hi
    refine h (f i) (List.mem_append_left _ (List.mem_map_of_mem (List.mem_range.2 hi))) a ?_
    rw [hidx, hcount]
    exact ha
  · exact h (lastBatch B n) (List.mem_append_right _ (List.mem_singleton_self _)) a ha

theorem subids_of_writeCalls {n : Nat} (h64 : n < 2 ^ 64) (h : Counted addrs (writeCalls B n)) :
    ∀ a ∈ addrs.take n, a.subid.toNat < ushrtMax := by
  refine subids_of_calls (fun i hi => ⟨Nat.mod_eq_of_lt ?_, rfl⟩) h
  unfold batchSize at *
  omega

theorem subids_of_readCalls {n : Nat} (h32 : n < 2 ^ 32) (h : Counted addrs (readCalls B n)) :
    ∀ a ∈ addrs.take n, a.subid.toNat < ushrtMax := by
  rw [readCalls, Nat.mod_eq_of_lt (Nat.lt_of_le_of_lt (Nat.div_le_self ..) h32)] at h
  refine subids_of_calls (fun i hi => ⟨Nat.mod_eq_of_lt ?_, rfl⟩) h
  unfold batchSize at *
  omega

end Runs

/-! ## Chunks -/

/-- What one packet moves: the index of its address, its place in the buffer and its length. -/
abbrev Chunk := Nat × Nat × Nat

/-- `batch_read` multiplies a `uint32_t` by the length. -/
def Batch.readChunks (len : UInt16) (b : Batch) : List Chunk :=
  (List.range b.count).map (fun i => (b.index + i, b.offset + i * len.toNat % 2 ^ 32, len.toNat))

def Batch.writeChunks (len : UInt16) (b : Batch) : List Chunk :=
  (List.range b.count).map (fun i => (b.index + i, b.offset + len.toNat * i, len.toNat))

/-- The request for the bytes below `BLOCK_SIZE`, to the first address. -/
def residualChunk (B size : Nat) : List Chunk :=
  let len := UInt16.ofNat (size % B)
  if len ≠ 0 then [(0, B * (size / B - size / B % batchSize + 1) % 2 ^ 64, len.toNat)] else []

/-- What a bulk function requests, in order, for `num_addrs` addresses. -/
def schedule (calls : Nat → Nat → List Batch) (chunks : UInt16 → Batch → List Chunk) (B numAddrs : Nat)
    (size : UInt64) : List Chunk :=
  if size.toNat ≤ B then [(0, 0, size.toUInt16.toNat)]
  else if size.toNat / B > numAddrs then []
  else (calls B (size.toNat / B)).flatMap (chunks (UInt16.ofNat B)) ++ residualChunk B size.toNat

def readSchedule : Nat → Nat → UInt64 → List Chunk := schedule readCalls Batch.readChunks

def writeSchedule : Nat → Nat → UInt64 → List Chunk := schedule writeCalls Batch.writeChunks

/-- Block `k` at `k * BLOCK_SIZE`, for the first `n` blocks. -/
def blocks (B n : Nat) : List Chunk := (List.range n).map (fun k => (k, k * B, B))

section Packets

variable {addrs : List Ip6Memaddr} {b : Batch}

theorem getElem?_part (i : Nat) {n j : Nat} (hj : j < n) : (part addrs i n)[j]? = addrs[i + j]? := by
  rw [part, List.getElem?_take_of_lt hj, List.getElem?_drop]

theorem map_some_part {α : Type} (i n : Nat) (h : i + n ≤ addrs.length) (f : Nat → Ip6Memaddr → α) :
    ((part addrs i n).zipIdx.map (fun x => some (f x.2 x.1))) =
      (List.range n).map (fun j => addrs[i + j]?.map (f j)) := by
  refine List.ext_getElem? (fun j => ?_)
  rcases Nat.lt_or_ge j n with hj | hj
  · obtain ⟨a, ha⟩ : ∃ a, addrs[i + j]? = some a := ⟨_, List.getElem?_eq_getElem (by omega)⟩
    rw [List.getElem?_map, List.getElem?_zipIdx, getElem?_part i hj, ha, List.getElem?_map, List.getElem?_range hj,
      Nat.zero_add, Option.map_some, Option.map_some, Option.map_some, ha]
    rfl
  · rw [List.getElem?_eq_none (by rw [List.length_map, List.length_zipIdx, length_part h]; exact hj),
      List.getElem?_eq_none (by rw [List.length_map, List.length_range]; exact hj)]

/-- **The packets of a batched write are its chunks**: to each address the bytes at its place in the buffer. -/
theorem writePackets_chunks (h : b.index + b.count ≤ addrs.length) (me : SockaddrIn6) (port : UInt16)
    (mem : Nat → UInt8) (payload : Nat) (len : UInt16) :
    (batchPackets me (batchWriteRqst port mem (payload + b.offset) len) (part addrs b.index b.count)).map
        (fun p => some (p.dst.addr.subid, wrote p)) =
      (b.writeChunks len).map (fun t => addrs[t.1]?.map (fun a =>
        (a.subid, a.paddr.toNat, readBytes mem (payload + t.2.1) t.2.2))) := by
  rw [← Function.comp_def some, ← List.map_map, batchPackets, map_wrote_stamped, List.map_map, Batch.writeChunks,
    List.map_map]
  refine (map_some_part b.index b.count h (fun j a =>
    (a.subid, a.paddr.toNat, readBytes mem (payload + b.offset + len.toNat * j) len.toNat))).trans ?_
  simp only [Nat.add_assoc]
  rfl

/-- What a `READ_BULK` packet asks for: the block, where its bytes are to be put, and how many. -/
def asked (p : Packet) : UInt16 × UInt64 × UInt64 × UInt16 :=
  (p.dst.addr.subid, p.dst.addr.paddr, le64 p.data, p.dst.addr.args.toUInt16)

theorem map_asked_stamped (me : SockaddrIn6) (port : UInt16) (buffer : Nat) (len : UInt16) (T : Nat → UInt32) :
    ∀ (addrs : List Ip6Memaddr) (i : Nat) (t : Nat → UInt32),
    (cookedBatchedSend me T (stamped (batchReadRqst port buffer len) i addrs t)).map asked =
      (addrs.zipIdx i).map (fun x =>
        (x.1.subid, x.1.paddr, UInt64.ofNat (buffer + x.2 * len.toNat % 2 ^ 32), len))
  | [], _, _ => rfl
  | a :: r, i, t => by
    have hone : (cookedBatchedSend me T [batchReadRqst port buffer len i (t a.subid.toNat) a]).map asked =
        [(a.subid, a.paddr, UInt64.ofNat (buffer + i * len.toNat % 2 ^ 32), len)] := by
      show [(a.subid, a.paddr, le64 (bytes64 _), (len.toUInt32 ||| (T a.subid.toNat <<< 16)).toUInt16)] = _
      rw [le64_bytes64, toUInt16_or_count]
    rw [cookedBatchedSend_cons, List.map_append, map_asked_stamped me port buffer len T r, hone, List.zipIdx_cons,
      List.map_cons, List.singleton_append]

/-- **The packets of a batched read are its chunks**: each address is asked for the bytes of its place in the buffer. -/
theorem readPkts_chunks (h : b.index + b.count ≤ addrs.length) (me targetIp : SockaddrIn6) (rxBuf : Nat)
    (len : UInt16) :
    (readPkts me targetIp (part addrs b.index b.count) (rxBuf + b.offset) len).map (fun p => some (asked p)) =
      (b.readChunks len).map (fun t => addrs[t.1]?.map (fun a =>
        (a.subid, a.paddr, UInt64.ofNat (rxBuf + t.2.1), UInt16.ofNat t.2.2))) := by
  rw [← Function.comp_def some, ← List.map_map, readPkts, batchPackets, map_asked_stamped, List.map_map,
    Batch.readChunks, List.map_map]
  refine (map_some_part b.index b.count h (fun j a =>
    (a.subid, a.paddr, UInt64.ofNat (rxBuf + b.offset + j * len.toNat % 2 ^ 32), len))).trans ?_
  simp only [Nat.add_assoc, Function.comp_def, UInt16.ofNat_toNat]

end Packets

/-! ## The two schedules -/

/-- Batches of forty, numbered through. -/
theorem flatMap_batches {α : Type} (f : Nat → α) (r : Nat) : ∀ m : Nat,
    (List.range m).flatMap (fun i => (List.range batchSize).map (fun j => f (i * batchSize + j))) ++
        (List.range r).map (fun j => f (m * batchSize + j)) =
      (List.range (m * batchSize + r)).map f
  | 0 => by simp
  | m + 1 => by
    have ih := flatMap_batches f batchSize m
    rw [List.range_succ, List.flatMap_append, List.flatMap_singleton, ih, ← Nat.succ_mul, List.range_add, List.map_append,
      List.map_map]
    rfl

/-- Lists cut into pieces of the same lengths agree piece by piece. -/
theorem eq_of_flatMap_eq {α β : Type} {f g : α → List β} (hlen : ∀ i, (f i).length = (g i).length) :
    ∀ {l : List α} {t t' : List β}, l.flatMap f ++ t = l.flatMap g ++ t' → ∀ i ∈ l, f i = g i
  | a :: l, t, t', h, i, hi => by
    rw [List.flatMap_cons, List.flatMap_cons, List.append_assoc, List.append_assoc] at h
    obtain ⟨hhead, htail⟩ := List.append_inj h (hlen a)
    rcases List.mem_cons.1 hi with rfl | hi
    · exact hhead
    · exact eq_of_flatMap_eq hlen htail i hi

theorem length_flatMap_const {α β : Type} {f : α → List β} {k : Nat} (h : ∀ a, (f a).length = k) (l : List α) :
    (l.flatMap f).length = l.length * k := by
  rw [List.length_flatMap, List.map_congr_left (fun a _ => h a), List.map_const', List.sum_replicate_nat]

section Schedule

variable {B numAddrs : Nat} {size : UInt64}

/-- The blocks of the `i`th batch of forty. -/
def batchBlocks (B i : Nat) : List Chunk :=
  (List.range batchSize).map (fun j => (i * batchSize + j, (i * batchSize + j) * B, B))

def restBlocks (B n : Nat) : List Chunk :=
  (List.range (n % batchSize)).map (fun j => (n / batchSize * batchSize + j, (n / batchSize * batchSize + j) * B, B))

theorem blocks_eq (B n : Nat) :
    blocks B n = (List.range (n / batchSize)).flatMap (batchBlocks B) ++ restBlocks B n := by
  have h := flatMap_batches (fun k => (k, k * B, B)) (n % batchSize) (n / batchSize)
  rw [Nat.div_add_mod'] at h
  exact h.symm

theorem schedule_of_whole (calls : Nat → Nat → List Batch) (chunks : UInt16 → Batch → List Chunk)
    (hdvd : B ∣ size.toNat) (hlt : B < size.toNat) (hcap : size.toNat / B ≤ numAddrs) :
    schedule calls chunks B numAddrs size = (calls B (size.toNat / B)).flatMap (chunks (UInt16.ofNat B)) := by
  have hres : residualChunk B size.toNat = [] := by
    rw [residualChunk, Nat.mod_eq_zero_of_dvd hdvd]
    rfl
  rw [schedule, if_neg (Nat.not_le.2 hlt), if_neg (Nat.not_lt.2 hcap), hres, List.append_nil]

/-- A chunk within a batch is less than `2 ^ 32` bytes from its start. -/
theorem chunk_no_wrap (hB : B < 2 ^ 16) {j : Nat} (hj : j < batchSize) : j * B % 2 ^ 32 = j * B := by
  have := Nat.mul_le_mul (Nat.le_of_lt hj) (Nat.le_of_lt hB)
  exact Nat.mod_eq_of_lt (Nat.lt_of_le_of_lt this (by decide))

theorem readChunks_readBatch (hB₀ : 0 < B) (hB : B < 2 ^ 16) (i : Nat) :
    (readBatch B i).readChunks (UInt16.ofNat B) = batchBlocks B i ↔ B * (i * batchSize) < 2 ^ 32 := by
  have hlen : (UInt16.ofNat B).toNat = B := UInt16.toNat_ofNat_of_lt' hB
  rw [Batch.readChunks, batchBlocks, readBatch, hlen, List.map_inj_left]
  constructor
  · intro h
    have h0 := congrArg (fun t : Chunk => t.2.1) (h 0 (List.mem_range.2 (show 0 < batchSize by decide)))
    simp only [Nat.zero_mul, Nat.zero_mod, Nat.add_zero] at h0
    rw [Nat.mul_comm B, ← h0]
    exact Nat.mod_lt _ (by decide)
  · intro hlt j hj
    have hidx : i * batchSize < 2 ^ 32 := Nat.lt_of_le_of_lt (Nat.le_mul_of_pos_left _ hB₀) hlt
    rw [chunk_no_wrap hB (List.mem_range.1 hj), Nat.mod_eq_of_lt hidx, Nat.mul_assoc B, Nat.mod_eq_of_lt hlt,
      Nat.add_mul, Nat.mul_comm B]

theorem writeChunks_writeBatch (hB₀ : 0 < B) (hB : B < 2 ^ 16) {i : Nat} (hlt : B * (i * batchSize) < 2 ^ 64) :
    (writeBatch B i).writeChunks (UInt16.ofNat B) = batchBlocks B i := by
  have hlen : (UInt16.ofNat B).toNat = B := UInt16.toNat_ofNat_of_lt' hB
  have hidx : i * batchSize < 2 ^ 64 := Nat.lt_of_le_of_lt (Nat.le_mul_of_pos_left _ hB₀) hlt
  rw [Batch.writeChunks, batchBlocks, writeBatch, hlen, Nat.mod_eq_of_lt hidx, Nat.mul_assoc B, Nat.mod_eq_of_lt hlt]
  refine List.map_congr_left (fun j _ => ?_)
  rw [Nat.add_mul, Nat.mul_comm B, Nat.mul_comm B]

theorem chunks_lastBatch (hB : B < 2 ^ 16) {n : Nat} (hlt : B * n < 2 ^ 64) :
    (lastBatch B n).readChunks (UInt16.ofNat B) = restBlocks B n ∧
      (lastBatch B n).writeChunks (UInt16.ofNat B) = restBlocks B n := by
  have hlen : (UInt16.ofNat B).toNat = B := UInt16.toNat_ofNat_of_lt' hB
  have hoff : B * (n - n % batchSize) < 2 ^ 64 :=
    Nat.lt_of_le_of_lt (Nat.mul_le_mul_left B (Nat.sub_le ..)) hlt
  rw [Batch.readChunks, Batch.writeChunks, restBlocks, lastBatch, hlen, Nat.mod_eq_of_lt hoff,
    Nat.div_mul_self_eq_mod_sub_self]
  refine ⟨List.map_congr_left (fun j hj => ?_), List.map_congr_left (fun j _ => ?_)⟩
  · rw [chunk_no_wrap hB (Nat.lt_trans (List.mem_range.1 hj) (Nat.mod_lt _ (by decide))), Nat.add_mul, Nat.mul_comm B]
  · rw [Nat.add_mul, Nat.mul_comm B, Nat.mul_comm B]

/-- **A bulk write takes block `k` for address `k`**, at every size. -/
theorem writeCalls_blocks (hB₀ : 0 < B) (hB : B < 2 ^ 16) {n : Nat} (hlt : B * n < 2 ^ 64) :
    (writeCalls B n).flatMap (Batch.writeChunks (UInt16.ofNat B)) = blocks B n := by
  rw [writeCalls, List.flatMap_append, List.flatMap_singleton, (chunks_lastBatch hB hlt).2, blocks_eq, List.flatMap_map]
  refine congrArg (· ++ _) (List.flatMap_congr (fun i hi => writeChunks_writeBatch hB₀ hB ?_))
  have hi : i * batchSize ≤ n :=
    Nat.le_trans (Nat.mul_le_mul_right _ (Nat.le_of_lt (List.mem_range.1 hi))) (Nat.div_mul_le_self ..)
  exact Nat.lt_of_le_of_lt (Nat.mul_le_mul_left B hi) hlt

/-- **A bulk read does as long as its last full batch starts below `2 ^ 32` bytes.** -/
theorem readCalls_blocks (hB₀ : 0 < B) (hB : B < 2 ^ 16) {n : Nat} (hlt : B * n < 2 ^ 64) :
    (readCalls B n).flatMap (Batch.readChunks (UInt16.ofNat B)) = blocks B n ↔
      B * ((n / batchSize - 1) * batchSize) < 2 ^ 32 := by
  have hlen : ∀ i, ((readBatch B i).readChunks (UInt16.ofNat B)).length = batchSize := fun i => by
    rw [Batch.readChunks, List.length_map, List.length_range]
    rfl
  have hlen' : ∀ i, (batchBlocks B i).length = batchSize := fun i => by
    rw [batchBlocks, List.length_map, List.length_range]
  rw [readCalls, List.flatMap_append, List.flatMap_singleton, (chunks_lastBatch hB hlt).1, blocks_eq, List.flatMap_map]
  generalize n / batchSize = m
  constructor
  · intro h
    -- as many batches as there are, and the last of them in its place
    have hcount := congrArg List.length (List.append_cancel_right h)
    rw [length_flatMap_const hlen, length_flatMap_const hlen', List.length_range, List.length_range] at hcount
    have hm : m % 2 ^ 32 = m := Nat.eq_of_mul_eq_mul_right (by decide) hcount
    rw [hm] at h
    rcases Nat.eq_zero_or_pos m with rfl | hpos
    · rw [Nat.zero_sub, Nat.zero_mul, Nat.mul_zero]
      decide
    · exact (readChunks_readBatch hB₀ hB (m - 1)).1 (eq_of_flatMap_eq (fun i => (hlen i).trans (hlen' i).symm) h (m - 1)
        (List.mem_range.2 (by omega)))
  · intro h
    have hm : (m - 1) * batchSize < 2 ^ 32 := Nat.lt_of_le_of_lt (Nat.le_mul_of_pos_left _ hB₀) h
    rw [Nat.mod_eq_of_lt (by unfold batchSize at hm; omega)]
    refine congrArg (· ++ _) (List.flatMap_congr (fun i hi => (readChunks_readBatch hB₀ hB i).2 ?_))
    have hi : i ≤ m - 1 := by
      have := List.mem_range.1 hi
      omega
    exact Nat.lt_of_le_of_lt (Nat.mul_le_mul_left B (Nat.mul_le_mul_right _ hi)) h

/-- The length in a schedule is what is left of `BLOCK_SIZE` in a `uint16_t`. -/
theorem lt_of_readCalls_blocks {n : Nat} (hn : 0 < n)
    (h : (readCalls B n).flatMap (Batch.readChunks (UInt16.ofNat B)) = blocks B n) : B < 2 ^ 16 := by
  have hmem : (0, 0 * B, B) ∈ blocks B n := List.mem_map.2 ⟨0, List.mem_range.2 hn, rfl⟩
  rw [← h, List.mem_flatMap] at hmem
  obtain ⟨b, -, hb⟩ := hmem
  obtain ⟨j, -, hj⟩ := List.mem_map.1 hb
  have hlen : (UInt16.ofNat B).toNat = B := congrArg (fun t : Chunk => t.2.2) hj
  rw [← hlen]
  exact (UInt16.ofNat B).toNat_lt

/-- **The two bulk functions request the same chunks**, block `k` at `k * BLOCK_SIZE` for address `k`, exactly for block
sizes a `uint16_t` can hold and as long as the last full batch of the read starts below `2 ^ 32` bytes. -/
theorem schedules_agree_iff (hB₀ : 1 ≤ B) (hdvd : B ∣ size.toNat) (hlt : B < size.toNat)
    (hcap : size.toNat ≤ numAddrs * B) :
    (readSchedule B numAddrs size = blocks B (size.toNat / B) ∧
        writeSchedule B numAddrs size = readSchedule B numAddrs size) ↔
      B < 2 ^ 16 ∧ B * ((size.toNat / B / batchSize - 1) * batchSize) < 2 ^ 32 := by
  have hcap' : size.toNat / B ≤ numAddrs := Nat.div_le_of_le_mul (by rwa [Nat.mul_comm])
  have hsize : B * (size.toNat / B) < 2 ^ 64 := Nat.lt_of_le_of_lt (Nat.mul_div_le ..) size.toNat_lt
  have hpos : 0 < size.toNat / B := Nat.div_pos (Nat.le_of_lt hlt) hB₀
  rw [readSchedule, writeSchedule, schedule_of_whole _ _ hdvd hlt hcap', schedule_of_whole _ _ hdvd hlt hcap']
  constructor
  · rintro ⟨hread, -⟩
    have hB := lt_of_readCalls_blocks hpos hread
    exact ⟨hB, (readCalls_blocks hB₀ hB hsize).1 hread⟩
  · rintro ⟨hB, hlast⟩
    have hread := (readCalls_blocks hB₀ hB hsize).2 hlast
    exact ⟨hread, (writeCalls_blocks hB₀ hB hsize).trans hread.symm⟩

theorem schedules_agree_three_blocks :
    readSchedule 4096 3 12288 = [(0, 0, 4096), (1, 4096, 4096), (2, 8192, 4096)] ∧
      writeSchedule 4096 3 12288 = readSchedule 4096 3 12288 := by
  have h := (@schedules_agree_iff 4096 3 12288 (by decide) (by decide) (by decide) (by decide)).2 (by decide)
  exact ⟨h.1.trans (by decide), h.2⟩

/-- In a read of just over 4 GiB, block 1048600 is to be put over block 24.  The write takes it from its own place. -/
theorem readSchedule_wraps :
    (1048600, 98304, 4096) ∈ readSchedule 4096 1048640 4295229440 ∧
      (1048600, 98304, 4096) ∉ blocks 4096 1048640 ∧
      (1048600, 4295065600, 4096) ∈ writeSchedule 4096 1048640 4295229440 := by
  rw [readSchedule, writeSchedule, schedule_of_whole _ _ (by decide) (by decide) (by decide),
    schedule_of_whole _ _ (by decide) (by decide) (by decide)]
  refine ⟨List.mem_flatMap.2 ⟨readBatch 4096 26215, List.mem_append_left _ (List.mem_map_of_mem ?_), ?_⟩, ?_,
    List.mem_flatMap.2 ⟨writeBatch 4096 26215, List.mem_append_left _ (List.mem_map_of_mem ?_), ?_⟩⟩
  · exact List.mem_range.2 (by decide)
  · exact List.mem_map.2 ⟨0, List.mem_range.2 (by decide), by decide⟩
  · intro h
    obtain ⟨k, -, hk⟩ := List.mem_map.1 h
    cases hk
  · exact List.mem_range.2 (by decide)
  · exact List.mem_map.2 ⟨0, List.mem_range.2 (by decide), by decide⟩

end Schedule

end Rmem
end Bb
