import BlueBridge.FrameTrip
/-!
# TxRing — the send ring (`raw_backend/udp_raw_send.c`, `udp_raw_common.h`)

`send_mmap` puts a frame into the next slot of a mapped ring and marks it `TP_STATUS_SEND_REQUEST`; `flush_buffer` has
the kernel transmit the marked slots, the oldest first, and set them back.  The ring has `C_RING_FRAMES` slots.
`cooked_batched_send` places packet after packet and flushes at the end; inside the loop it flushes from packet number
`C_RING_FRAMES` on, once that packet is placed.  By then it lies over packet 0, which is never sent
(`cookedBatchedSend_sent`).

In ring order, from the slot to be written next, the ring is a list of `C_RING_FRAMES` slots that is shifted by one with
every packet placed (`Tx.window`).  A frame that does not fit its slot would run into the header of the next one, and the
kernel refuses it: it is not given a meaning.
-/
namespace Bb
namespace TxRing

open Rmem Bb.Frame Bb.Ring
open Function (update)

def tpStatusAvailable : UInt32 := 0
def tpStatusSendRequest : UInt32 := 1

def cRingFrames : Nat := 2048
def txRingBlocks : Nat := 1

/-- `TPACKET_HDRLEN - sizeof(struct sockaddr_ll)`: where in a slot the frame begins. -/
def txOffset : Nat := 32

/-- The sender's frame buffer, its ring, and what the kernel has transmitted. -/
structure Tx where
  etherFrame : Buf
  slots : Nat → Slot (List UInt8)
  ringOffset : Nat
  sent : List (List UInt8)

def sendMmap (t : Tx) (pkt : List UInt8) : Option Tx :=
  if txOffset + pkt.length ≤ cFramesize then
    some { t with
      slots := update t.slots t.ringOffset ⟨tpStatusSendRequest, pkt⟩
      ringOffset := (t.ringOffset + 1) &&& (cRingFrames - 1) }
  else none

def marked (x : Slot (List UInt8)) : Bool := x.status = tpStatusSendRequest

def release (x : Slot (List UInt8)) : Slot (List UInt8) :=
  if marked x then { x with status := tpStatusAvailable } else x

/-- The slots in ring order, from the oldest on. -/
def Tx.window (t : Tx) : List (Slot (List UInt8)) := ordered cRingFrames t.ringOffset t.slots

def flushBuffer (t : Tx) : Tx :=
  { t with
    slots := fun i => release (t.slots i)
    sent := t.sent ++ (t.window.filter marked).map Slot.frame }

def preparePacket (t : Tx) (pkt : PktRqst) : Option Tx :=
  let r := Frame.preparePacket t.etherFrame pkt
  sendMmap { t with etherFrame := r.1 } r.2

/-- The server's total goes into the upper half of `args`. -/
def tagged (subIds : Nat → UInt32) (pkt : PktRqst) : PktRqst :=
  { pkt with dstAddr := { pkt.dstAddr with args := pkt.dstAddr.args ||| (subIds pkt.dstAddr.subid.toNat <<< 16) } }

/-- The loop of `cooked_batched_send` from packet `i` on. -/
def batchLoop (subIds : Nat → UInt32) : Nat → List PktRqst → Tx → Option Tx
  | _, [],          t => some t
  | i, pkt :: pkts, t => do
    let t ← preparePacket t (tagged subIds pkt)
    batchLoop subIds (i + 1) pkts (if i ≥ txRingBlocks * cRingFrames then flushBuffer t else t)

def cookedBatchedSend (subIds : Nat → UInt32) (pkts : List PktRqst) (t : Tx) : Option Tx :=
  (batchLoop subIds 0 pkts t).map flushBuffer

/-- No packet from the `i`th on is placed over one that is waiting. -/
def NoOverwrite (subIds : Nat → UInt32) : Nat → List PktRqst → Tx → Prop
  | _, [],          _ => True
  | i, pkt :: pkts, t => marked (t.slots t.ringOffset) = false ∧
    ∀ t' ∈ preparePacket t (tagged subIds pkt),
      NoOverwrite subIds (i + 1) pkts (if i ≥ txRingBlocks * cRingFrames then flushBuffer t' else t')

/-! ## One packet -/

/-- The packet's frame fits a slot of the send ring. -/
def Fits (pkt : PktRqst) : Prop := txOffset + (62 + pkt.data.length) ≤ cFramesize

instance (pkt : PktRqst) : Decidable (Fits pkt) := inferInstanceAs (Decidable (_ ≤ _))

/-- A slot with a frame to be transmitted. -/
def waiting (frame : List UInt8) : Slot (List UInt8) := ⟨tpStatusSendRequest, frame⟩

@[simp] theorem marked_waiting (frame : List UInt8) : marked (waiting frame) = true := rfl

theorem marked_release (x : Slot (List UInt8)) : marked (release x) = false := by
  unfold release
  split
  · rfl
  · exact Bool.eq_false_iff.2 ‹_›

/-- What placing a packet does. -/
structure Placed (t : Tx) (pkt : PktRqst) (t' : Tx) : Prop where
  etherFrame : t'.etherFrame = (Frame.preparePacket t.etherFrame pkt).1
  offset : t'.ringOffset < cRingFrames
  window : t'.window = t.window.tail ++ [waiting (Frame.preparePacket t.etherFrame pkt).2]
  sent : t'.sent = t.sent

theorem length_preparePacket (f : Buf) (pkt : PktRqst) :
    (Frame.preparePacket f pkt).2.length = 62 + pkt.data.length := Bytes.length_readBytes ..

theorem preparePacket_none {t : Tx} {pkt : PktRqst} (h : ¬ Fits pkt) : preparePacket t pkt = none := by
  rw [preparePacket, sendMmap]
  exact if_neg (by rwa [length_preparePacket])

theorem preparePacket_placed {t : Tx} {pkt : PktRqst} (hoff : t.ringOffset < cRingFrames) (h : Fits pkt) :
    ∃ t', preparePacket t pkt = some t' ∧ Placed t pkt t' := by
  have hnext : (t.ringOffset + 1) &&& (cRingFrames - 1) = (t.ringOffset + 1) % cRingFrames :=
    Nat.and_two_pow_sub_one_eq_mod _ 11
  rw [preparePacket, sendMmap]
  refine ⟨_, if_pos (by rwa [length_preparePacket]), rfl, ?_, ?_, rfl⟩
  · show (t.ringOffset + 1) &&& (cRingFrames - 1) < cRingFrames
    rw [hnext]
    exact Nat.mod_lt _ (by decide)
  · show ordered cRingFrames ((t.ringOffset + 1) &&& (cRingFrames - 1)) _ = _
    rw [hnext]
    exact ordered_put hoff t.slots _

theorem window_flush (t : Tx) : (flushBuffer t).window = t.window.map release := by
  simp [Tx.window, flushBuffer, ordered]

/-! ## The loop -/

/-- The ring has the slots `free` to be written, and after them the frames `fs` to be transmitted. -/
structure Tx.Holds (t : Tx) (free : List (Slot (List UInt8))) (fs : List (List UInt8)) : Prop where
  offset : t.ringOffset < cRingFrames
  window : t.window = free ++ fs.map waiting
  free : ∀ x ∈ free, marked x = false

/-- Nothing is waiting in the ring. -/
structure Tx.Idle (t : Tx) : Prop where
  offset : t.ringOffset < cRingFrames
  free : ∀ i < cRingFrames, marked (t.slots i) = false

theorem length_window (t : Tx) : t.window.length = cRingFrames := by simp [Tx.window, ordered]

/-- The slot to be written next is the first of the window. -/
theorem slots_ringOffset {t : Tx} (h : t.ringOffset < cRingFrames) {x : Slot (List UInt8)} {l : List (Slot (List UInt8))}
    (hw : t.window = x :: l) : t.slots t.ringOffset = x := by
  have h0 : t.window[0]? = some (t.slots t.ringOffset) := by
    simp [Tx.window, ordered, cRingFrames, Nat.mod_eq_of_lt (show t.ringOffset < 2048 from h)]
  rw [hw] at h0
  exact (Option.some.inj h0).symm

theorem Tx.Idle.holds {t : Tx} (h : t.Idle) : t.Holds t.window [] := by
  refine ⟨h.offset, by simp, fun x hx => ?_⟩
  obtain ⟨k, -, rfl⟩ := List.mem_map.1 hx
  exact h.free _ (Nat.mod_lt _ (by decide))

section Holds

variable {t t' : Tx} {free : List (Slot (List UInt8))} {fs : List (List UInt8)} {pkt : PktRqst}

theorem Tx.Holds.length (h : t.Holds free fs) : free.length + fs.length = cRingFrames := by
  rw [← length_window t, h.window, List.length_append, List.length_map]

/-- What a flush transmits is what is waiting, in order. -/
theorem Tx.Holds.flush (h : t.Holds free fs) :
    (flushBuffer t).sent = t.sent ++ fs ∧ (flushBuffer t).Holds (flushBuffer t).window [] := by
  have hfree : free.filter marked = [] := List.filter_eq_nil_iff.2 (fun x hx => by simp [h.free x hx])
  have hfs : (fs.map waiting).filter marked = fs.map waiting := by simp
  refine ⟨?_, h.offset, by simp, fun x hx => ?_⟩
  · show t.sent ++ (t.window.filter marked).map Slot.frame = t.sent ++ fs
    rw [h.window, List.filter_append, hfree, hfs, List.nil_append, List.map_map]
    exact congrArg _ (List.map_id fs)
  · rw [window_flush] at hx
    obtain ⟨y, -, rfl⟩ := List.mem_map.1 hx
    exact marked_release y

/-- A packet placed in a free slot. -/
theorem Tx.Holds.place {x : Slot (List UInt8)} (h : t.Holds (x :: free) fs) (hp : Placed t pkt t') :
    t'.Holds free (fs ++ [(Frame.preparePacket t.etherFrame pkt).2]) := by
  refine ⟨hp.offset, ?_, fun y hy => h.free y (List.mem_cons_of_mem _ hy)⟩
  rw [hp.window, h.window]
  simp

/-- A packet placed over the oldest one. -/
theorem Tx.Holds.overwrite {f : List UInt8} (h : t.Holds [] (f :: fs)) (hp : Placed t pkt t') :
    t'.Holds [] (fs ++ [(Frame.preparePacket t.etherFrame pkt).2]) := by
  refine ⟨hp.offset, ?_, fun y hy => absurd hy List.not_mem_nil⟩
  rw [hp.window, h.window]
  simp

end Holds

section Loop

variable (subIds : Nat → UInt32)

theorem batchLoop_append : ∀ (as bs : List PktRqst) (i : Nat) (t : Tx),
    batchLoop subIds i (as ++ bs) t = (batchLoop subIds i as t).bind (batchLoop subIds (i + as.length) bs)
  | [],      bs, i, t => rfl
  | a :: as, bs, i, t => by
    simp only [List.cons_append, batchLoop, Option.bind_eq_bind, Option.bind_assoc]
    refine congrArg _ (funext (fun t' => ?_))
    rw [batchLoop_append as bs (i + 1), List.length_cons]
    congr 2
    omega

/-- While there are free slots the packets are placed one after another. -/
theorem batchLoop_place : ∀ (pkts : List PktRqst) (i : Nat) {t : Tx} {free : List (Slot (List UInt8))}
    {fs : List (List UInt8)}, t.Holds free fs → (∀ pkt ∈ pkts, Fits pkt) → pkts.length ≤ free.length →
    i + pkts.length ≤ cRingFrames →
    NoOverwrite subIds i pkts t ∧ ∃ t', batchLoop subIds i pkts t = some t' ∧ t'.sent = t.sent ∧
      t'.Holds (free.drop pkts.length) (fs ++ prepared t.etherFrame (pkts.map (tagged subIds))) ∧
      ∀ more, prepared t.etherFrame (pkts.map (tagged subIds) ++ more) =
        prepared t.etherFrame (pkts.map (tagged subIds)) ++ prepared t'.etherFrame more
  | [],          _, t, free, fs, h, _, _, _ => ⟨trivial, t, rfl, rfl, by simpa [prepared] using h, fun _ => rfl⟩
  | pkt :: pkts, i, t, [], fs, h, _, hfree, _ => by simp at hfree
  | pkt :: pkts, i, t, x :: free, fs, h, hfits, hfree, hi => by
    rw [List.length_cons] at hi hfree
    obtain ⟨t₁, h₁, hp⟩ := preparePacket_placed h.offset (show Fits (tagged subIds pkt) from hfits pkt List.mem_cons_self)
    obtain ⟨hover, t', ht', hsent, hholds, hmore⟩ := batchLoop_place pkts (i + 1) (h.place hp)
      (fun p hp => hfits p (List.mem_cons_of_mem _ hp)) (Nat.le_of_succ_le_succ hfree) (by omega)
    have hlt : ¬ i ≥ txRingBlocks * cRingFrames := by unfold txRingBlocks; omega
    refine ⟨⟨?_, fun t₂ h₂ => ?_⟩, t', ?_, hsent.trans hp.sent, ?_, fun more => ?_⟩
    · rw [slots_ringOffset h.offset h.window]
      exact h.free x List.mem_cons_self
    · rw [h₁] at h₂
      cases h₂
      rw [if_neg hlt]
      exact hover
    · simp only [batchLoop, Option.bind_eq_bind, h₁, Option.bind_some, if_neg hlt]
      exact ht'
    · rw [hp.etherFrame, List.append_assoc] at hholds
      exact hholds
    · have := hmore more
      rw [hp.etherFrame] at this
      simp only [List.map_cons, List.cons_append, prepared, this]

/-- Once the loop flushes after every packet, each is transmitted in its turn. -/
theorem batchLoop_flush : ∀ (pkts : List PktRqst) {i : Nat} {t : Tx}, cRingFrames ≤ i → t.Holds t.window [] →
    (∀ pkt ∈ pkts, Fits pkt) →
    ∃ t', batchLoop subIds i pkts t = some t' ∧ t'.Holds t'.window [] ∧
      t'.sent = t.sent ++ prepared t.etherFrame (pkts.map (tagged subIds))
  | [],          _, t, _, h, _ => ⟨t, rfl, h, (List.append_nil _).symm⟩
  | pkt :: pkts, i, t, hi, h, hfits => by
    obtain ⟨t₁, h₁, hp⟩ := preparePacket_placed h.offset (show Fits (tagged subIds pkt) from hfits pkt List.mem_cons_self)
    obtain ⟨x, free, hwin⟩ := List.exists_cons_of_length_pos (l := t.window)
      (by rw [length_window]; decide)
    rw [hwin] at h
    obtain ⟨hsent₁, hfree₁⟩ := (h.place hp).flush
    obtain ⟨t', ht', hholds, hsent⟩ := batchLoop_flush pkts (Nat.le_succ_of_le hi) hfree₁
      (fun p hp => hfits p (List.mem_cons_of_mem _ hp))
    refine ⟨t', ?_, hholds, ?_⟩
    · have hge : i ≥ txRingBlocks * cRingFrames := by unfold txRingBlocks; omega
      simp only [batchLoop, Option.bind_eq_bind, h₁, Option.bind_some, if_pos hge]
      exact ht'
    · rw [hsent, hsent₁, hp.sent, show (flushBuffer t₁).etherFrame = t₁.etherFrame from rfl, hp.etherFrame]
      simp [prepared]

/-! ## The batch -/

variable {pkts : List PktRqst} {t : Tx}

theorem fits_of_batchLoop : ∀ {pkts : List PktRqst} {i : Nat} {t t' : Tx}, batchLoop subIds i pkts t = some t' →
    ∀ pkt ∈ pkts, Fits pkt
  | [],           _, _, _, _, pkt, hpkt => absurd hpkt List.not_mem_nil
  | pkt₀ :: pkts, i, t, t', h, pkt, hpkt => by
    obtain ⟨t₁, h₁, h⟩ := Option.bind_eq_some_iff.1 h
    rcases List.mem_cons.1 hpkt with rfl | hpkt
    · refine Decidable.byContradiction (fun hnot => ?_)
      rw [preparePacket_none (show ¬ Fits (tagged subIds pkt) from hnot)] at h₁
      cases h₁
    · exact fits_of_batchLoop h pkt hpkt

/-- A batch the ring has room for. -/
theorem cookedBatchedSend_short (h : t.Idle) (hfits : ∀ pkt ∈ pkts, Fits pkt) (hlen : pkts.length ≤ cRingFrames) :
    NoOverwrite subIds 0 pkts t ∧ ∃ t', cookedBatchedSend subIds pkts t = some t' ∧
      t'.sent = t.sent ++ prepared t.etherFrame (pkts.map (tagged subIds)) := by
  obtain ⟨hover, t₁, h₁, hsent, hholds, -⟩ := batchLoop_place subIds pkts 0 h.holds hfits
    (by rw [length_window]; exact hlen) (by omega)
  refine ⟨hover, flushBuffer t₁, by rw [cookedBatchedSend, h₁]; rfl, ?_⟩
  rw [hholds.flush.1, hsent, List.nil_append]

/-- A packet as a frame of the raw backend. -/
def packetFrame (p : Packet) : List UInt8 := frame broadcastMac ethPIpv6 p.src ⟨p.dst.addr, p.dst.port, p.data⟩

/-- **The ring puts on the wire what a batched send is to send**, for the batches of `BATCH_SIZE` and longer ones. -/
theorem cookedBatchedSend_refines {me : SockaddrIn6} (hconf : Configured broadcastMac me t.etherFrame) (h : t.Idle)
    (hfits : ∀ pkt ∈ pkts, Fits pkt) (hlen : pkts.length ≤ cRingFrames) :
    ∃ t', cookedBatchedSend subIds pkts t = some t' ∧
      t'.sent = t.sent ++ (Rmem.cookedBatchedSend me subIds pkts).map packetFrame := by
  obtain ⟨-, t', h', hsent⟩ := cookedBatchedSend_short subIds h hfits hlen
  refine ⟨t', h', ?_⟩
  rw [hsent, prepared_eq _ hconf, Rmem.cookedBatchedSend, List.map_map, List.map_map]
  rfl

/-- **A batch longer than the ring loses its first packet**: the last slot is taken when packet `C_RING_FRAMES` is
placed, before the first flush. -/
theorem cookedBatchedSend_long (h : t.Idle) (hfits : ∀ pkt ∈ pkts, Fits pkt) (hlen : cRingFrames < pkts.length) :
    ∃ t', cookedBatchedSend subIds pkts t = some t' ∧
      t'.sent = t.sent ++ (prepared t.etherFrame (pkts.map (tagged subIds))).tail := by
  obtain ⟨pkt, rest, hrest⟩ := List.exists_cons_of_length_pos (l := pkts.drop cRingFrames) (by simp; omega)
  have hsplit : pkts = pkts.take cRingFrames ++ pkt :: rest := by rw [← hrest, List.take_append_drop]
  have hhead : (pkts.take cRingFrames).length = cRingFrames := by rw [List.length_take]; omega
  generalize pkts.take cRingFrames = head at hsplit hhead
  subst hsplit
  -- the ring is full
  obtain ⟨-, t₁, h₁, hsent₁, hholds₁, hmore⟩ := batchLoop_place subIds head 0 h.holds
    (fun p hp => hfits p (List.mem_append_left _ hp)) (Nat.le_of_eq (by rw [length_window, hhead])) (by omega)
  rw [hhead, List.drop_of_length_le (Nat.le_of_eq (length_window t)), List.nil_append] at hholds₁
  obtain ⟨f, fs, hfs⟩ := List.exists_cons_of_length_pos
    (l := prepared t.etherFrame (head.map (tagged subIds))) (by
      have := hholds₁.length
      rw [List.length_nil, Nat.zero_add] at this
      rw [this]; decide)
  rw [hfs] at hholds₁
  -- one packet over the oldest, and the first flush
  obtain ⟨t₂, h₂, hp⟩ := preparePacket_placed hholds₁.offset
    (show Fits (tagged subIds pkt) from hfits pkt (List.mem_append_right _ List.mem_cons_self))
  obtain ⟨hsent₂, hholds₂⟩ := (hholds₁.overwrite hp).flush
  obtain ⟨t₃, h₃, hholds₃, hsent₃⟩ := batchLoop_flush subIds rest (Nat.le_succ cRingFrames) hholds₂
    (fun p hp => hfits p (List.mem_append_right _ (List.mem_cons_of_mem _ hp)))
  refine ⟨flushBuffer t₃, ?_, ?_⟩
  · have hge : cRingFrames ≥ txRingBlocks * cRingFrames := by unfold txRingBlocks; omega
    rw [cookedBatchedSend, batchLoop_append, h₁, Option.bind_some, hhead, Nat.zero_add]
    simp only [batchLoop, Option.bind_eq_bind, h₂, Option.bind_some, if_pos hge, h₃, Option.map_some]
  · rw [hholds₃.flush.1, List.append_nil, hsent₃, hsent₂, hp.sent, hsent₁,
      show (flushBuffer t₂).etherFrame = t₂.etherFrame from rfl, hp.etherFrame, List.map_append, hmore, hfs]
    simp [prepared]

/-- Every packet is transmitted once and in list order, and none is written over while it waits. -/
structure Transmits (subIds : Nat → UInt32) (pkts : List PktRqst) (t : Tx) : Prop where
  sent : ∃ t', cookedBatchedSend subIds pkts t = some t' ∧
    t'.sent = t.sent ++ prepared t.etherFrame (pkts.map (tagged subIds))
  spared : NoOverwrite subIds 0 pkts t

theorem length_prepared : ∀ (pkts : List PktRqst) (f : Buf), (prepared f pkts).length = pkts.length
  | [],          _ => rfl
  | pkt :: pkts, f => congrArg (· + 1) (length_prepared pkts (Frame.preparePacket f pkt).1)

variable {subIds}

theorem Transmits.fits (h : Transmits subIds pkts t) : ∀ pkt ∈ pkts, Fits pkt := by
  obtain ⟨t', h', -⟩ := h.sent
  obtain ⟨t₁, h₁, -⟩ := Option.map_eq_some_iff.1 h'
  exact fits_of_batchLoop subIds h₁

theorem Transmits.length_le (h : Transmits subIds pkts t) (hidle : t.Idle) : pkts.length ≤ cRingFrames := by
  refine Nat.le_of_not_lt (fun hlong => ?_)
  obtain ⟨t₁, h₁, hsent₁⟩ := cookedBatchedSend_long subIds hidle h.fits hlong
  obtain ⟨t₂, h₂, hsent₂⟩ := h.sent
  rw [h₁] at h₂
  cases h₂
  have hlen := congrArg List.length (List.append_cancel_left (hsent₁.symm.trans hsent₂))
  rw [List.length_tail, length_prepared, List.length_map] at hlen
  omega

/-- **A batched send transmits every packet exactly if there are no more of them than slots**, and each fits one. -/
theorem batched_send_iff (subIds : Nat → UInt32) (pkts : List PktRqst) (t : Tx) (hidle : t.Idle) :
    Transmits subIds pkts t ↔ pkts.length ≤ cRingFrames ∧ ∀ pkt ∈ pkts, Fits pkt := by
  refine ⟨fun h => ⟨h.length_le hidle, h.fits⟩, fun ⟨hlen, hfits⟩ => ?_⟩
  obtain ⟨hover, hsent⟩ := cookedBatchedSend_short subIds hidle hfits hlen
  exact ⟨hsent, hover⟩

end Loop

/-- A new ring, `ring_offset` at `off`. -/
def Tx.new (off : Nat) : Tx := ⟨fun _ => 0, fun _ => ⟨tpStatusAvailable, []⟩, off, []⟩

theorem Tx.idle_new {off : Nat} (h : off < cRingFrames) : (Tx.new off).Idle := ⟨h, fun _ _ => rfl⟩

/-- A request of `n` bytes. -/
def rqst (n : Nat) : PktRqst := ⟨⟨1, writeBulkCmd, 1, 0x1000⟩, 5000, List.replicate n 0⟩

theorem fits_rqst {n : Nat} (h : 94 + n ≤ 8192) : Fits (rqst n) := by
  simp only [Fits, rqst, txOffset, cFramesize, List.length_replicate]
  omega

theorem batched_send_wraps : Transmits (fun _ => 3) [rqst 1, rqst 4096, rqst 2] (Tx.new 2046) :=
  (batched_send_iff (fun _ => 3) [rqst 1, rqst 4096, rqst 2] (Tx.new 2046) (Tx.idle_new (by decide))).2
    ⟨by decide, by simp [fits_rqst]⟩

theorem batched_send_loses_first : (Tx.new 0).Idle ∧ (∀ pkt ∈ List.replicate 2049 (rqst 1), Fits pkt) ∧
    ¬ Transmits (fun _ => 1) (List.replicate 2049 (rqst 1)) (Tx.new 0) := by
  refine ⟨Tx.idle_new (by decide), fun pkt hpkt => ?_, fun h => ?_⟩
  · rw [(List.mem_replicate.1 hpkt).2]
    exact fits_rqst (by decide)
  · have hlen := h.length_le (Tx.idle_new (by decide))
    rw [List.length_replicate] at hlen
    exact absurd hlen (by decide)

end TxRing
end Bb
