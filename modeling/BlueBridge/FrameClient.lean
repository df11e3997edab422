import BlueBridge.FrameNet
import BlueBridge.Nbd
/-!
# FrameClient — what the client library sends

Blocks of fewer than 28 bytes: then every request of the client library to a host that frames are delivered to is one that
frames carry, whatever it is answered.  Requests ask for a block at most, bulk requests for a block per packet.

The block device only sends what the bulk functions send (`sends_buseMain`).
-/
namespace Bb
namespace FrameNet

open Bytes Wire Rmem

section Carried

variable {hosts : UInt16 → Prop} {me : SockaddrIn6} {pkt : PktRqst}

/-- A request whose data is not read as a word and that asks for nothing. -/
theorem carried_plain (cmd : UInt16) (hplain : cmd ∉ [readCmd, readBulkCmd, allocBulkCmd, trimCmd])
    (hcmd : pkt.dstAddr.cmd = cmd) (hdst : hosts pkt.dstAddr.subid) (hlen : pkt.data.length < 28) :
    Carried hosts me (preparePacket me pkt) := by
  simp only [List.mem_cons, List.not_mem_nil, or_false, not_or] at hplain
  refine ⟨rfl, hdst, hlen, fun h => ?_, fun h => ?_⟩
  · simp only [preparePacket, hcmd, hplain, or_false] at h
  · simp only [preparePacket, hcmd, hplain, or_false] at h

/-- A request with a word, that asks for nothing or for little. -/
theorem carried_word {v : UInt64} (hdata : pkt.data = bytes64 v) (hdst : hosts pkt.dstAddr.subid)
    (hask : pkt.dstAddr.cmd = allocBulkCmd ∨ pkt.dstAddr.args.toUInt16.toNat < 28) :
    Carried hosts me (preparePacket me pkt) := by
  have hlen : pkt.data.length = 8 := by rw [hdata, length_bytes64]
  refine ⟨rfl, hdst, by rw [preparePacket, hlen]; decide, fun _ => hlen.ge, fun hc => ?_⟩
  rcases hask with h | h
  · simp only [preparePacket, h, allocBulkCmd, readCmd, readBulkCmd] at hc
    exact absurd hc (by decide)
  · exact h

end Carried

section Library

variable {hosts : UInt16 → Prop} {me : SockaddrIn6}

/-! ## Single requests -/

theorem sends_allocateRmem {targetIp : SockaddrIn6} (h : hosts targetIp.addr.subid) :
    (allocateRmem me targetIp).Sends (Carried hosts me) (Answered hosts) (fun r => hosts r.2.subid) :=
  sends_request (carried_plain allocCmd (by decide) rfl h (by simp)) (fun _ hr => hr.src)

theorem sends_allocateUniformRmem {targetIp : SockaddrIn6} (h : hosts targetIp.addr.subid) (n : UInt64) :
    (allocateUniformRmem me targetIp n).Sends (Carried hosts me) (Answered hosts) (fun r => hosts r.2.memaddr.subid) :=
  sends_request (carried_word rfl h (.inl rfl)) (fun _ hr => hr.src)

theorem sends_allocateBulkRmem (B : Nat) {targetIp : SockaddrIn6} (h : hosts targetIp.addr.subid) (n : UInt64) :
    (allocateBulkRmem B me targetIp n).Sends (Carried hosts me) (Answered hosts) (fun r => ∀ a ∈ r.2, hosts a.subid) := by
  refine ⟨carried_word rfl h (.inl rfl), fun p hp => ?_⟩
  dsimp only
  split
  · rintro a ha
    obtain ⟨i, -, rfl⟩ := List.mem_map.1 ha
    exact hp.src
  · trivial

theorem sends_readRmem (targetIp : SockaddrIn6) {a : Ip6Memaddr} (ha : hosts a.subid) (mem : Nat → UInt8) (rxBuf : Nat)
    {length : UInt16} (hlen : length.toNat < 28) :
    (readRmem me targetIp a mem rxBuf length).Sends (Carried hosts me) (Answered hosts)
      (fun r => hosts r.2.1.subid) := by
  have hargs : length.toUInt32.toUInt16 = length := by simp
  refine sends_request ⟨rfl, ha, by simp [preparePacket], fun hc => ?_, fun _ => ?_⟩ (fun _ _ => ha)
  · exact absurd (show readCmd = readBulkCmd ∨ readCmd = allocBulkCmd ∨ readCmd = trimCmd from hc) (by decide)
  · simpa only [preparePacket, hargs] using hlen

theorem sends_writeRmem (targetIp : SockaddrIn6) {a : Ip6Memaddr} (ha : hosts a.subid) (mem : Nat → UInt8)
    (payload : Nat) {length : UInt16} (hlen : length.toNat < 28) :
    (writeRmem me targetIp a mem payload length).Sends (Carried hosts me) (Answered hosts) (fun r => hosts r.2.subid) :=
  sends_request (carried_plain writeCmd (by decide) rfl ha (by rw [length_readBytes]; exact hlen)) (fun _ _ => ha)

theorem sends_freeRmem (targetIp : SockaddrIn6) {a : Ip6Memaddr} (ha : hosts a.subid) :
    (freeRmem me targetIp a).Sends (Carried hosts me) (Answered hosts) (fun _ => True) :=
  sends_request (carried_plain freeCmd (by decide) rfl ha (by simp)) (fun _ _ => trivial)

/-! ## Batches -/

theorem mem_marshal {mk : Nat → UInt32 → Ip6Memaddr → PktRqst} : ∀ {addrs : List Ip6Memaddr} {i : Nat}
    {t t' : Nat → UInt32} {pkts : List PktRqst}, marshal mk i addrs t = some (pkts, t') →
    ∀ pkt ∈ pkts, ∃ j x a, a ∈ addrs ∧ pkt = mk j x a
  | [], _, _, _, _, h => by
    cases h
    exact fun pkt hp => by cases hp
  | a :: r, i, t, _, _, h => by
    rw [marshal] at h
    split at h
    case isFalse => cases h
    case isTrue =>
      obtain ⟨⟨pkts, t'⟩, hr, h⟩ := Option.bind_eq_some_iff.1 h
      cases h
      intro pkt hp
      rcases List.mem_cons.1 hp with rfl | hp
      · exact ⟨_, _, a, List.mem_cons_self, rfl⟩
      · obtain ⟨j, x, b, hb, hpkt⟩ := mem_marshal hr pkt hp
        exact ⟨j, x, b, List.mem_cons_of_mem _ hb, hpkt⟩

theorem sends_batchWrite (targetIp : SockaddrIn6) {addrs : List Ip6Memaddr} (ha : ∀ a ∈ addrs, hosts a.subid)
    (mem : Nat → UInt8) (payload : Nat) {len : UInt16} (hlen : len.toNat < 28) :
    (batchWrite me targetIp addrs mem payload len).Sends (Carried hosts me) (Answered hosts) (fun _ => True) := by
  unfold batchWrite
  split
  case h_1 => trivial
  case h_2 pkts subIds hm =>
    rw [rcvAcks_eq]
    refine sends_sendAll (sends_recvN _ _) (fun p hp => ?_)
    obtain ⟨pkt, hpkt, rfl⟩ := List.mem_map.1 hp
    obtain ⟨j, x, a, hmem, rfl⟩ := mem_marshal hm pkt hpkt
    refine carried_plain writeBulkCmd (by decide) rfl (ha a hmem) ?_
    rw [batchWriteRqst, length_readBytes]
    exact hlen

/-- The length stays in the lower half of `args`. -/
theorem toUInt16_args {len : UInt16} (t : UInt32) : (len.toUInt32 ||| t <<< 16).toUInt16.toNat = len.toNat := by
  have hlt : len.toUInt32.toNat < 2 ^ 16 := by
    rw [UInt16.toNat_toUInt32]
    exact len.toNat_lt
  rw [UInt32.toNat_toUInt16, toNat_or_count _ _ hlt, UInt16.toNat_toUInt32, Nat.mul_add_mod,
    Nat.mod_eq_of_lt len.toNat_lt]

theorem sends_batchRead (targetIp : SockaddrIn6) {addrs : List Ip6Memaddr} (ha : ∀ a ∈ addrs, hosts a.subid)
    (mem : Nat → UInt8) (buffer : Nat) {len : UInt16} (hlen : len.toNat < 28) :
    (batchRead me targetIp addrs mem buffer len).Sends (Carried hosts me) (Answered hosts) (fun _ => True) := by
  unfold batchRead
  split
  case h_1 => trivial
  case h_2 pkts subIds hm =>
    refine sends_sendAll (sends_recvN _ _) (fun p hp => ?_)
    obtain ⟨pkt, hpkt, rfl⟩ := List.mem_map.1 hp
    obtain ⟨j, x, a, hmem, rfl⟩ := mem_marshal hm pkt hpkt
    refine carried_word rfl (ha a hmem) (.inr ?_)
    rw [batchReadRqst, toUInt16_args]
    exact hlen

/-! ## Bulk requests -/

/-- The addresses that a caller has are of hosts that frames are delivered to. -/
def Reaches (hosts : UInt16 → Prop) (c : Caller) : Prop := ∀ a ∈ c.addrs, hosts a.subid

variable {B : Nat} {c : Caller}

theorem mem_slice {addrs addrs' : List Ip6Memaddr} {i n : Nat} (h : slice addrs i n = some addrs') {a : Ip6Memaddr}
    (ha : a ∈ addrs') : a ∈ addrs := by
  unfold slice at h
  split at h
  · cases h
    exact List.mem_of_mem_drop (List.mem_of_mem_take ha)
  · cases h

theorem Reaches.cons {a : Ip6Memaddr} {r : List Ip6Memaddr} (hc : ∀ b ∈ a :: r, hosts b.subid) {a' : Ip6Memaddr}
    (ha : hosts a'.subid) : ∀ b ∈ a' :: r, hosts b.subid := by
  intro b hb
  rcases List.mem_cons.1 hb with rfl | hb
  · exact ha
  · exact hc b (List.mem_cons_of_mem _ hb)

theorem sends_writeFirst (hc : Reaches hosts c) (payload : Nat) {length : UInt16} (hlen : length.toNat < 28) :
    (c.writeFirst me payload length).Sends (Carried hosts me) (Answered hosts) (Reaches hosts) := by
  unfold Caller.writeFirst
  unfold Reaches at hc
  split
  case h_1 => trivial
  case h_2 a r haddrs =>
    rw [haddrs] at hc
    exact (sends_writeRmem c.targetIp (hc a List.mem_cons_self) c.mem payload hlen).bind
      (fun r hr => Reaches.cons hc hr)

theorem sends_readFirst (hc : Reaches hosts c) (rxBuf : Nat) {length : UInt16} (hlen : length.toNat < 28) :
    (c.readFirst me rxBuf length).Sends (Carried hosts me) (Answered hosts) (Reaches hosts) := by
  unfold Caller.readFirst
  unfold Reaches at hc
  split
  case h_1 => trivial
  case h_2 a r haddrs =>
    rw [haddrs] at hc
    exact (sends_readRmem c.targetIp (hc a List.mem_cons_self) c.mem rxBuf hlen).bind
      (fun r hr => Reaches.cons hc hr)

theorem toNat_ofNat_lt {n : Nat} (h : n < 28) : (UInt16.ofNat n).toNat < 28 :=
  Nat.lt_of_le_of_lt (by rw [UInt16.toNat_ofNat']; exact Nat.mod_le ..) h

theorem sends_callerBatchWrite (hB : B < 28) (hc : Reaches hosts c) (i n payload : Nat) :
    (c.batchWrite B me i n payload).Sends (Carried hosts me) (Answered hosts) (Reaches hosts) := by
  unfold Caller.batchWrite
  split
  case h_1 => trivial
  case h_2 addrs haddrs =>
    exact (sends_batchWrite c.targetIp (fun a ha => hc a (mem_slice haddrs ha)) c.mem payload (toNat_ofNat_lt hB)).bind
      (fun _ _ => hc)

theorem sends_callerBatchRead (hB : B < 28) (hc : Reaches hosts c) (i n rxBuf : Nat) :
    (c.batchRead B me i n rxBuf).Sends (Carried hosts me) (Answered hosts) (Reaches hosts) := by
  unfold Caller.batchRead
  split
  case h_1 => trivial
  case h_2 addrs haddrs =>
    exact (sends_batchRead c.targetIp (fun a ha => hc a (mem_slice haddrs ha)) c.mem rxBuf (toNat_ofNat_lt hB)).bind
      (fun _ _ => hc)

theorem sends_writeBatches (hB : B < 28) (payload : Nat) : ∀ (is : List Nat) {c : Caller}, Reaches hosts c →
    (writeBatches B me payload is c).Sends (Carried hosts me) (Answered hosts) (Reaches hosts)
  | [],      _, hc => hc
  | _ :: is, _, hc => (sends_callerBatchWrite hB hc _ _ _).bind (fun _ hc' => sends_writeBatches hB payload is hc')

theorem sends_readBatches (hB : B < 28) (rxBuf : Nat) : ∀ (is : List Nat) {c : Caller}, Reaches hosts c →
    (readBatches B me rxBuf is c).Sends (Carried hosts me) (Answered hosts) (Reaches hosts)
  | [],      _, hc => hc
  | _ :: is, _, hc => (sends_callerBatchRead hB hc _ _ _).bind (fun _ hc' => sends_readBatches hB rxBuf is hc')

/-- A bulk request of at most a block. -/
theorem toUInt16_size {size : UInt64} (hB : B < 28) (h : size.toNat ≤ B) : size.toUInt16.toNat < 28 := by
  rw [UInt64.toNat_toUInt16]
  exact Nat.lt_of_le_of_lt (Nat.mod_le ..) (Nat.lt_of_le_of_lt h hB)

theorem sends_writeBulkRmem (hB₀ : 0 < B) (hB : B < 28) (hc : Reaches hosts c) (payload : Nat) (size : UInt64) :
    (writeBulkRmem B me c payload size).Sends (Carried hosts me) (Answered hosts) (fun r => Reaches hosts r.1) := by
  have hres : (UInt16.ofNat (size.toNat % B)).toNat < 28 := toNat_ofNat_lt (Nat.lt_trans (Nat.mod_lt _ hB₀) hB)
  unfold writeBulkRmem
  split
  · next h => exact (sends_writeFirst hc payload (toUInt16_size hB h)).bind (fun _ hc' => hc')
  · dsimp only
    split
    · exact hc
    · refine (sends_writeBatches hB payload _ hc).bind (fun c₁ hc₁ => ?_)
      refine (sends_callerBatchWrite hB hc₁ _ _ _).bind (fun c₂ hc₂ => ?_)
      split
      · exact (sends_writeFirst hc₂ _ hres).bind (fun _ hc₃ => hc₃)
      · exact hc₂

theorem sends_readBulkRmem (hB₀ : 0 < B) (hB : B < 28) (hc : Reaches hosts c) (rxBuf : Nat) (size : UInt64) :
    (readBulkRmem B me c rxBuf size).Sends (Carried hosts me) (Answered hosts) (fun r => Reaches hosts r.1) := by
  have hres : (UInt16.ofNat (size.toNat % B)).toNat < 28 := toNat_ofNat_lt (Nat.lt_trans (Nat.mod_lt _ hB₀) hB)
  unfold readBulkRmem
  split
  · next h => exact (sends_readFirst hc rxBuf (toUInt16_size hB h)).bind (fun _ hc' => hc')
  · dsimp only
    split
    · exact hc
    · refine (sends_readBatches hB rxBuf _ hc).bind (fun c₁ hc₁ => ?_)
      refine (sends_callerBatchRead hB hc₁ _ _ _).bind (fun c₂ hc₂ => ?_)
      split
      · exact (sends_readFirst hc₂ _ hres).bind (fun _ hc₃ => hc₃)
      · exact hc₂

end Library

/-! ## The block device -/

section Device

open Disk Nbd

variable {hosts : UInt16 → Prop} {me : SockaddrIn6} {B : Nat} {c : Caller}

theorem sends_bulkAt {bulk : Caller → Prog Packet (Caller × Exit)} (hbulk : ∀ c, Reaches hosts c →
      (bulk c).Sends (Carried hosts me) (Answered hosts) (fun r => Reaches hosts r.1)) (hc : Reaches hosts c) (p n : Nat) :
    (bulkAt c p n bulk).Sends (Carried hosts me) (Answered hosts) (Reaches hosts) := by
  unfold bulkAt
  split
  case h_1 => trivial
  case h_2 addrs haddrs =>
    refine (hbulk _ (fun a ha => hc a (mem_slice haddrs ha))).bind (fun r hr a ha => ?_)
    rcases List.mem_append.1 ha with ha | ha
    · exact hc a (List.mem_of_mem_take ha)
    rcases List.mem_append.1 ha with ha | ha
    · exact hr a ha
    · exact hc a (List.mem_of_mem_drop ha)

theorem sends_readLoop {Req Ans : Packet → Prop} : ∀ (fuel : Nat) (mem : Nat → UInt8) (buf count : Nat) (k : Kernel),
    (readLoop fuel mem buf count k).Sends Req Ans (fun _ => True)
  | 0, mem, buf, count, k => by
    unfold readLoop
    split <;> trivial
  | fuel + 1, mem, buf, count, k => by
    unfold readLoop
    split
    · trivial
    · dsimp only
      split
      · trivial
      · exact sends_readLoop fuel _ _ _ _

theorem sends_readAll {Req Ans : Packet → Prop} (mem : Nat → UInt8) (buf count : Nat) (k : Kernel) :
    (readAll mem buf count k).Sends Req Ans (fun _ => True) :=
  sends_readLoop count mem buf count k

theorem sends_writeAll {Req Ans : Packet → Prop} (d : List UInt8) (k : Kernel) :
    (writeAll d k).Sends Req Ans (fun _ => True) := by
  obtain ⟨w, hw⟩ := writeAll_eq d k
  rw [hw]
  trivial

theorem sends_command (hB₀ : 0 < B) (hB : B < 28) (q : NbdRequest) (k : Kernel) (hc : Reaches hosts c) :
    (command (aop B me) q c k).Sends (Carried hosts me) (Answered hosts) (fun r => Reaches hosts r.2.1) := by
  have hop : ∀ {m : Prog Packet Caller}, m.Sends (Carried hosts me) (Answered hosts) (Reaches hosts) →
      (m.bind (fun c => .ret ((0 : UInt32), c))).Sends (Carried hosts me) (Answered hosts) (fun r => Reaches hosts r.2) :=
    fun hm => hm.bind (fun _ hc' => hc')
  have hread : ∀ buf len offset, (xmpRead B me c buf len offset).Sends (Carried hosts me) (Answered hosts)
      (Reaches hosts) :=
    fun buf len offset => sends_bulkAt (fun c hc => sends_readBulkRmem hB₀ hB hc buf _) hc _ _
  have hwrite : ∀ mem buf len offset, (xmpWrite B me { c with mem := mem } buf len offset).Sends (Carried hosts me)
      (Answered hosts) (Reaches hosts) :=
    fun mem buf len offset =>
      sends_bulkAt (c := { c with mem := mem }) (fun c hc => sends_writeBulkRmem hB₀ hB hc buf _) hc _ _
  simp only [command, aop, Kernel.malloc, Prog.bind_eq, Prog.pure_eq]
  split
  case h_1 =>
    refine (hop (hread _ _ _)).bind (fun r hr => ?_)
    refine (sends_writeAll _ _).bind (fun _ _ => ?_)
    exact (sends_writeAll _ _).bind (fun _ _ => hr)
  case h_2 =>
    refine (sends_readAll _ _ _ _).bind (fun r _ => ?_)
    refine (hop (hwrite r.1 _ _ _)).bind (fun r hr => ?_)
    exact (sends_writeAll _ _).bind (fun _ _ => hr)
  case h_3 => exact hc
  case h_4 => exact (sends_writeAll _ _).bind (fun _ _ => hc)
  case h_5 => exact (sends_writeAll _ _).bind (fun _ _ => hc)
  case h_6 => trivial

theorem sends_buseLoop (hB₀ : 0 < B) (hB : B < 28) : ∀ (fuel : Nat) (k : Kernel) {c : Caller}, Reaches hosts c →
    (buseLoop (aop B me) fuel c k).Sends (Carried hosts me) (Answered hosts) (fun _ => True)
  | 0, _, _, _ => trivial
  | fuel + 1, k, c, hc => by
    rw [buseLoop]
    obtain ⟨bytes, k'⟩ := k.readHeader
    simp only [Prog.bind_eq, Prog.pure_eq]
    split
    · trivial
    split
    · trivial
    split
    · trivial
    refine (sends_command hB₀ hB (NbdRequest.ofBytes bytes) k' hc).bind (fun r hr => ?_)
    split
    · exact sends_buseLoop hB₀ hB fuel _ hr
    · trivial

theorem sends_buseMain (hB₀ : 0 < B) (hB : B < 28) (hc : Reaches hosts c) (k : Kernel) :
    (buseMain (aop B me) c k).Sends (Carried hosts me) (Answered hosts) (fun _ => True) :=
  sends_buseLoop hB₀ hB _ k hc

end Device

end FrameNet
end Bb
