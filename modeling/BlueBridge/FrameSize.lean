import BlueBridge.FrameTrip
/-!
# FrameSize — how much of a frame the receivers take

Every receiver takes the size of the data from the UDP length in the frame, less the header's eight bytes, in 16 bits.
None of them compares it with the length of the frame or of the caller's buffer.  A length field beyond the frame makes
them read what lies behind it, and one below eight wraps to nearly 64 KiB (`frame_contained_iff`).
-/
namespace Bb
namespace Frame

open Bytes Rmem Wire Bb.Ring RxRing Dpdk

/-- The bytes of a frame in a slot or an mbuf, `behind` being what was there before. -/
def slotOf (bytes : List UInt8) (behind : Buf) : Buf := writeBytes behind 0 bytes

/-- `ntohs(udp_hdr->len)`. -/
def udpLen (f : Buf) : Nat := (htons (uint16At f 58)).toNat

/-- The packet that a receive call makes of a frame. -/
def packetOf (f : Buf) : Packet := ⟨⟨ip6Src f, udpSource f⟩, ⟨ip6Dst f, udpDest f⟩, payload f (msgSize f)⟩

/-- **No receiver takes more than the data of a frame of `L` bytes**, and `read_rmem` no more than it asked for.  The
frame is for the port each receiver listens on. -/
structure Contained (f : Buf) (L : Nat) (length : UInt16) : Prop where
  handlePacket : (handleReader.eval f).2.toNat ≤ L - 62
  rcvLoop : ∀ srcAddr a, rcvRequest (udpDest f) srcAddr f = some a → a.size.toNat ≤ L - 62
  simpleEpollRcv : ∀ remoteAddr, ∀ d ∈ ((rcvReader true remoteAddr).eval f).rcvBuf, d.length ≤ L - 62
  dpdkClientRcv : ∀ remoteAddr r, rcvBurst (udpDest f) true remoteAddr [f] = some r → ∀ d ∈ r.rcvBuf, d.length ≤ L - 62
  readRmem : ∀ me targetIp addr mem rxBuf r, (readRmem me targetIp addr mem rxBuf length).feed [packetOf f] = some r →
    r.2.2.2 ≤ length.toNat ∧ ∀ q, rxBuf + length.toNat ≤ q → r.2.2.1 q = mem q

theorem msgSize_toNat (f : Buf) : (msgSize f).toNat = if 8 ≤ udpLen f then udpLen f - 8 else udpLen f + 65528 := by
  have hlt : udpLen f < 2 ^ 16 := UInt16.toNat_lt _
  rw [msgSize, UInt16.toNat_sub, show (8 : UInt16).toNat = 8 from rfl]
  change (2 ^ 16 - 8 + udpLen f) % 2 ^ 16 = _
  split <;> omega

theorem length_payload (f : Buf) (size : UInt16) : (payload f size).length = size.toNat := length_readBytes ..

/-- All receivers go by the one size. -/
theorem contained_iff (f : Buf) (L : Nat) (length : UInt16) :
    Contained f L length ↔ (msgSize f).toNat ≤ L - 62 ∧ (msgSize f).toNat ≤ length.toNat := by
  constructor
  · intro h
    have hhandle := h.handlePacket
    rw [eval_handleReader] at hhandle
    have hread := (h.readRmem ⟨ip6Src f, udpDest f⟩ ⟨ip6Src f, udpDest f⟩ (ip6Src f) f 0 _ rfl).1
    exact ⟨hhandle, by simpa only [packetOf, length_payload] using hread⟩
  · rintro ⟨hL, hlen⟩
    refine ⟨by rw [eval_handleReader]; exact hL, fun srcAddr a ha => ?_, fun remoteAddr d hd => ?_,
      fun remoteAddr r hr d hd => ?_, fun me targetIp addr mem rxBuf r hr => ?_⟩
    · rw [rcvRequest, if_pos rfl] at ha
      split at ha
      · cases ha
        exact hL
      · cases ha
    · rw [eval_rcvReader] at hd
      cases hd
      rwa [length_payload]
    · rw [rcvBurst, if_pos rfl] at hr
      cases hr
      cases hd
      rwa [length_payload]
    · cases hr
      refine ⟨by simpa only [packetOf, length_payload] using hlen, fun q hq => ?_⟩
      refine writeBytes_of_not_mem _ ?_
      rw [show (packetOf f).data = payload f (msgSize f) from rfl, length_payload]
      omega

/-- **A byte string in a slot is taken for no more than it is exactly if its UDP length fits it**, and the reader's
request; a length below eight is one of nearly 64 KiB. -/
theorem frame_contained_iff (bytes : List UInt8) (behind : Buf) (length : UInt16) :
    Contained (slotOf bytes behind) bytes.length length ↔
      8 ≤ udpLen (slotOf bytes behind) ∧ udpLen (slotOf bytes behind) - 8 ≤ min (bytes.length - 62) length.toNat ∨
      udpLen (slotOf bytes behind) < 8 ∧
        udpLen (slotOf bytes behind) + 65528 ≤ min (bytes.length - 62) length.toNat := by
  rw [contained_iff, msgSize_toNat]
  split <;> omega

/-- A frame of headers only that the filter lets through: its UDP length is zero. -/
theorem zero_length_stretches : packetFilter 0x0201 0x8813 (slotOf (headers 0 0) (fun _ => 0xee)) = true ∧
    ¬ Contained (slotOf (headers 0 0) (fun _ => 0xee)) (headers 0 0).length 4096 ∧
    (handleReader.eval (slotOf (headers 0 0) (fun _ => 0xee))).2 = 65528 := by
  have hsize : msgSize (slotOf (headers 0 0) (fun _ => 0xee)) = 65528 := by decide +kernel
  refine ⟨by decide +kernel, fun h => ?_, by rw [eval_handleReader]; exact hsize⟩
  have := ((contained_iff _ _ _).1 h).1
  rw [hsize] at this
  exact absurd this (by decide)

end Frame
end Bb
