import BlueBridge.Frame
import BlueBridge.SwitchParse
/-!
# Switch — forwarding and access control (`p4/p4_switch/ip6_16.p4`)

`MyIngress` over arbitrary table contents; the default actions are those of the program.  A packet that is marked to drop
has the egress port 511; a digest goes out even if its packet is dropped.

A memory access without a matching `bb_acl` entry is dropped, unless it is taken for the answer to an allocation, which
is left to two fields of the packet (`acl_protects_iff`).
-/
namespace Bb
namespace Switch

open Headers

/-! ## `MyIngress` -/

inductive Digest where
  | bb (sSubnet dCmd : BitVec 16) (dBbPointer : BitVec 64) (etherType : BitVec 16)
  | thrift (subnet cmd : BitVec 16) (bbPointer : BitVec 64) (ttype : BitVec 16)
  deriving DecidableEq

/-- The headers, `standard_metadata` as far as it is written, and the digests. -/
structure Ingress where
  hdr : Hdrs
  egressSpec : BitVec 9 := 0
  mcastGrp : BitVec 16 := 0
  digests : List Digest := []

def dropPort : BitVec 9 := 511

section Actions

variable (s : Ingress)

/-- The fields of a header that is not valid read as zero. -/
def Ingress.updateAccessBb : Ingress :=
  { s with digests := s.digests ++ [.bb ((s.hdr.bb.map BbT.sSubnet).getD 0) ((s.hdr.bb.map BbT.dCmd).getD 0)
      ((s.hdr.bb.map BbT.dBbPointer).getD 0) ((s.hdr.ethernet.map EthernetT.etherType).getD 0)] }

def Ingress.drop : Ingress := { s with egressSpec := dropPort }
def Ingress.broadcast : Ingress := { s with mcastGrp := 1 }
def Ingress.setBb (port : BitVec 9) : Ingress := { s with egressSpec := port }
def Ingress.fwdIp4 (port : BitVec 9) : Ingress := { s with egressSpec := port }
def Ingress.fwdIp6 (port : BitVec 9) : Ingress := { s with egressSpec := port }

def Ingress.updateAccessThrift : Ingress :=
  { s with digests := s.digests ++ [.thrift ((s.hdr.thriftIp.map ThriftIpT.subnet).getD 0)
      ((s.hdr.thriftIp.map ThriftIpT.cmd).getD 0) ((s.hdr.thriftIp.map ThriftIpT.bbPointer).getD 0)
      ((s.hdr.thrift.map ThriftT.ttype).getD 0)] }

def Ingress.thriftForward (port : BitVec 9) : Ingress :=
  { s with egressSpec := port,
           hdr := { s.hdr with ipv6 := s.hdr.ipv6.map (fun h => { h with hopLimit := h.hopLimit - 1 }) } }

end Actions

/-- An entry of `ipv4`, `ipv6`, `bb_fwd` or `thrift`: a port to forward to, or `_drop`. -/
inductive Forward where
  | port (p : BitVec 9)
  | drop
  deriving DecidableEq

inductive AclAction where
  | nop
  | drop
  deriving DecidableEq

/-- The contents of the tables that have keys. -/
structure Tables where
  ipv4 : List (Entry Unit 32 Forward)
  ipv6 : List (Entry Unit 128 Forward)
  bbAcl : List (Entry (BitVec 16) 64 AclAction)
  bbFwd : BitVec 16 → Option Forward
  thrift : BitVec 128 → Option Forward

section Apply

variable (T : Tables) (s : Ingress)

/-- A table whose default is to do nothing. -/
def applyForward (fwd : BitVec 9 → Ingress) : Option Forward → Ingress
  | some (.port p) => fwd p
  | some .drop     => s.drop
  | none           => s

def applyIpv4 : Ingress := applyForward s s.fwdIp4 (lookup T.ipv4 () ((s.hdr.ipv4.map Ipv4T.dstAddr).getD 0))
def applyIpv6 : Ingress := applyForward s s.fwdIp6 (lookup T.ipv6 () ((s.hdr.ipv6.map Ipv6T.dstAddr).getD 0))
def applyBbFwd : Ingress := applyForward s s.setBb (T.bbFwd ((s.hdr.bb.map BbT.dSubnet).getD 0))
def applyThrift : Ingress := applyForward s s.thriftForward (T.thrift ((s.hdr.thrift.map ThriftT.name).getD 0))

def applyBbAcl : Ingress :=
  match lookup T.bbAcl ((s.hdr.bb.map BbT.dSubnet).getD 0) ((s.hdr.bb.map BbT.dBbPointer).getD 0) with
  | some .nop  => s
  | some .drop => s.drop
  | none       => s.drop

/-- The branch for a valid `bb` header. -/
def applyBb : Ingress :=
  let s := applyBbFwd T s
  if s.hdr.bbAlloc.any (fun a => a.srcPort = 0x1388) then s.updateAccessBb else applyBbAcl T s

/-- `MyIngress.apply`. -/
def myIngress (hdr : Hdrs) : Ingress :=
  let s : Ingress := { hdr := hdr }
  if hdr.arp.isSome then s.broadcast
  else if hdr.thrift.any (fun t => t.version = 0x8001) then
    let s := s.updateAccessThrift
    if hdr.thrift.any (fun t => t.ttype = 1) then applyThrift T s else applyIpv6 T s
  else if hdr.ipv4.isSome then applyIpv4 T s
  else if hdr.ipv6.isSome then
    if hdr.icmp6.isSome then s.broadcast else applyIpv6 T s
  else if hdr.bb.isSome then applyBb T s
  else s

end Apply

/-- A packet through `MyParser` and `MyIngress`. -/
def pipeline (T : Tables) (packet : List UInt8) : Ingress := myIngress T (myParser packet).1

/-! ## BlueBridge packets -/

section Parsed

variable {hdr : Hdrs} {packet rest : List UInt8}

theorem extractThen_some {H : Type} [Header H] {h : H} {next : H → List UInt8 → Hdrs × List UInt8}
    (he : extract H packet = some (h, rest)) : extractThen hdr packet next = next h rest := by
  rw [extractThen, he]

theorem extractThen_none {H : Type} [Header H] {next : H → List UInt8 → Hdrs × List UInt8}
    (he : extract H packet = none) : extractThen hdr packet next = (hdr, packet) := by
  rw [extractThen, he]

/-- What neither a state nor those after it touch. -/
theorem extractThen_keeps {H β : Type} [Header H] (f : Hdrs → β) {next : H → List UInt8 → Hdrs × List UInt8}
    (hnext : ∀ h rest, f (next h rest).1 = f hdr) : f (extractThen hdr packet next).1 = f hdr := by
  unfold extractThen
  split
  · rfl
  · exact hnext ..

theorem parseArp_bb : (parseArp hdr packet).1.bb = hdr.bb := extractThen_keeps Hdrs.bb (fun _ _ => rfl)

theorem parseThrift_bb : (parseThrift hdr packet).1.bb = hdr.bb := by
  apply extractThen_keeps Hdrs.bb
  intro t rest
  split
  · exact extractThen_keeps Hdrs.bb (fun _ _ => rfl)
  · rfl

theorem parseUdp_bb : (parseUdp hdr packet).1.bb = hdr.bb :=
  extractThen_keeps Hdrs.bb (fun _ _ => parseThrift_bb)

theorem parseIpv4_bb : (parseIpv4 hdr packet).1.bb = hdr.bb := by
  apply extractThen_keeps Hdrs.bb
  intro i rest
  split
  · exact extractThen_keeps Hdrs.bb (fun _ _ => rfl)
  split
  · exact parseUdp_bb
  · rfl

theorem parseIpv6_bb : (parseIpv6 hdr packet).1.bb = hdr.bb := by
  apply extractThen_keeps Hdrs.bb
  intro i rest
  split
  · exact extractThen_keeps Hdrs.bb (fun _ _ => rfl)
  split
  · exact parseUdp_bb
  split
  · exact extractThen_keeps Hdrs.bb (fun _ _ => rfl)
  · rfl

/-- The `bb_alloc` header after a `bb` header. -/
def allocAfter (b : BbT) (rest : List UInt8) : Option BbAllocT :=
  if b.dCmd = 0x100 ∨ b.dCmd = 0x400 ∨ b.dCmd = 0x600 then (extract BbAllocT rest).map Prod.fst else none

theorem parseBb_some {b : BbT} (he : extract BbT packet = some (b, rest)) :
    (parseBb hdr packet).1 =
      { hdr with bb := some b, bbAlloc := if (allocAfter b rest).isSome then allocAfter b rest else hdr.bbAlloc } := by
  rw [parseBb, extractThen_some he, allocAfter]
  split
  · cases ha : extract BbAllocT rest with
    | none => rw [parseBbAlloc, extractThen_none ha]; rfl
    | some x => rw [parseBbAlloc, extractThen_some ha]; rfl
  · rfl

/-- **A packet with EtherType `0xffff` that is long enough is a BlueBridge packet.** -/
theorem myParser_ffff {e : EthernetT} {b : BbT} {r₁ r₂ : List UInt8} (he : extract EthernetT packet = some (e, r₁))
    (ht : e.etherType = 0xffff) (hb : extract BbT r₁ = some (b, r₂)) :
    (myParser packet).1 = { ethernet := some e, bb := some b, bbAlloc := allocAfter b r₂ } := by
  have hfirst : myParser packet = parseBb { ethernet := some e } r₁ := by
    rw [myParser, parseEthernet, extractThen_some he, ht]
    rfl
  rw [hfirst, parseBb_some hb]
  cases allocAfter b r₂ <;> rfl

/-- **Nothing else is.** -/
theorem myParser_bb {b : BbT} (h : (myParser packet).1.bb = some b) :
    ∃ e r₁ r₂, extract EthernetT packet = some (e, r₁) ∧ e.etherType = 0xffff ∧ extract BbT r₁ = some (b, r₂) := by
  rw [myParser, parseEthernet] at h
  cases he : extract EthernetT packet with
  | none => rw [extractThen_none he] at h; cases h
  | some x =>
    obtain ⟨e, r₁⟩ := x
    rw [extractThen_some he] at h
    split at h
    · rw [parseArp_bb] at h; cases h
    split at h
    · rw [parseIpv4_bb] at h; cases h
    split at h
    · rw [parseIpv6_bb] at h; cases h
    split at h
    case isFalse => cases h
    case isTrue ht =>
      cases hb : extract BbT r₁ with
      | none => rw [parseBb, extractThen_none hb] at h; cases h
      | some y =>
        obtain ⟨b', r₂⟩ := y
        rw [parseBb_some hb] at h
        cases h
        exact ⟨e, r₁, r₂, rfl, ht, hb⟩

end Parsed

section Acl

variable {T : Tables} {s : Ingress}

theorem applyBbFwd_hdr : (applyBbFwd T s).hdr = s.hdr := by
  unfold applyBbFwd applyForward
  split <;> rfl

theorem applyBbFwd_digests : (applyBbFwd T s).digests = s.digests := by
  unfold applyBbFwd applyForward
  split <;> rfl

/-- An answer to an allocation, as the switch sees it. -/
def Hdrs.answersAlloc (hdr : Hdrs) : Bool := hdr.bbAlloc.any (fun a => a.srcPort = 0x1388)

theorem applyBb_of_answer (h : s.hdr.answersAlloc = true) : applyBb T s = (applyBbFwd T s).updateAccessBb := by
  unfold applyBb
  dsimp only
  rw [applyBbFwd_hdr]
  exact if_pos h

theorem applyBb_of_not_answer (h : s.hdr.answersAlloc = false) : applyBb T s = applyBbAcl T (applyBbFwd T s) := by
  unfold applyBb
  dsimp only
  rw [applyBbFwd_hdr]
  exact if_neg (Bool.eq_false_iff.mp h)

theorem pipeline_bb {packet : List UInt8} {b : BbT} (h : (myParser packet).1.bb = some b) :
    pipeline T packet = applyBb T { hdr := (myParser packet).1 } := by
  obtain ⟨e, r₁, r₂, he, ht, hb⟩ := myParser_bb h
  rw [pipeline, myParser_ffff he ht hb]
  rfl

/-- A host's word as the switch reads it off the wire. -/
def wire16 (v : UInt16) : BitVec 16 := BitVec.ofNat 16 (beNat (Frame.bytes16 v))

/-- The commands that access memory. -/
def accessCmds : List (BitVec 16) :=
  [Rmem.readCmd, Rmem.writeCmd, Rmem.readBulkCmd, Rmem.writeBulkCmd, Rmem.freeCmd, Rmem.trimCmd].map wire16

/-- Only a free, a bulk write and an allocation can be taken for the answer to an allocation. -/
theorem cmd_of_alloc {packet : List UInt8} {b : BbT} {a : BbAllocT} (hb : (myParser packet).1.bb = some b)
    (ha : (myParser packet).1.bbAlloc = some a) : b.dCmd = 0x100 ∨ b.dCmd = 0x400 ∨ b.dCmd = 0x600 := by
  obtain ⟨e, r₁, r₂, he, ht, hb'⟩ := myParser_bb hb
  rw [myParser_ffff he ht hb', allocAfter] at ha
  by_contra hcmd
  rw [if_neg hcmd] at ha
  cases ha

theorem answersAlloc_iff {hdr : Hdrs} :
    hdr.answersAlloc = true ↔ ∃ a, hdr.bbAlloc = some a ∧ a.srcPort = 0x1388 := by
  rw [Hdrs.answersAlloc, Option.any_eq_true]
  exact exists_congr (fun a => and_congr_right (fun _ => decide_eq_true_iff))

/-- The table drops what no entry allows. -/
theorem applyBbAcl_drops {b : BbT} (hb : s.hdr.bb = some b)
    (hacl : ∀ e ∈ T.bbAcl, e.matches b.dSubnet b.dBbPointer = true → e.action ≠ .nop) : applyBbAcl T s = s.drop := by
  unfold applyBbAcl
  rw [hb]
  split
  · next hl =>
    obtain ⟨e, he, hm, ha⟩ := lookup_eq_some hl
    exact absurd ha (hacl e he hm)
  · rfl
  · rfl

/-- **An access that no entry allows is dropped without a digest**, unless it is a free or a bulk write that comes from
port 5000. -/
theorem acl_protects_iff (packet : List UInt8) (b : BbT) (hb : (myParser packet).1.bb = some b)
    (hcmd : b.dCmd ∈ accessCmds)
    (hacl : ∀ e ∈ T.bbAcl, e.matches b.dSubnet b.dBbPointer = true → e.action ≠ .nop) :
    ((pipeline T packet).egressSpec = dropPort ∧ (pipeline T packet).digests = []) ↔
      ¬ ((b.dCmd = wire16 Rmem.freeCmd ∨ b.dCmd = wire16 Rmem.writeBulkCmd) ∧
        ∃ a, (myParser packet).1.bbAlloc = some a ∧ a.srcPort = 0x1388) := by
  rw [pipeline_bb hb, ← answersAlloc_iff]
  cases hans : (myParser packet).1.answersAlloc with
  | true =>
    obtain ⟨a, ha, -⟩ := answersAlloc_iff.mp hans
    have hkind : b.dCmd = wire16 Rmem.freeCmd ∨ b.dCmd = wire16 Rmem.writeBulkCmd := by
      rcases cmd_of_alloc hb ha with h | h | h
      · rw [h] at hcmd
        exact absurd hcmd (by decide)
      · exact .inl h
      · exact .inr h
    rw [applyBb_of_answer hans]
    refine ⟨fun h => absurd h.2 ?_, fun h => absurd ⟨hkind, rfl⟩ h⟩
    exact List.append_ne_nil_of_right_ne_nil _ (List.cons_ne_nil _ _)
  | false =>
    have hbb : (applyBbFwd T { hdr := (myParser packet).1 }).hdr.bb = some b := by
      rw [applyBbFwd_hdr]
      exact hb
    rw [applyBb_of_not_answer hans, applyBbAcl_drops hbb hacl]
    refine ⟨fun _ h => Bool.false_ne_true h.2, fun _ => ⟨rfl, ?_⟩⟩
    exact applyBbFwd_digests

/-- A BlueBridge packet to pointer `p` of subnet 2, from port `port`. -/
def bbPacket (cmd port : BitVec 16) (p : BitVec 64) : List UInt8 :=
  emit (⟨0, 0, 0xffff⟩ : EthernetT) ++ (emit (⟨6, 0, 0, 8, 17, 255, 0, 1, 0, 0, 0, 2, cmd, p⟩ : BbT) ++
    emit (⟨port, 5000, 8, 0⟩ : BbAllocT))

/-- Tables without access entries, in which subnet 2 is at port 7. -/
def closedTables : Tables := ⟨[], [], [], fun n => if n = 2 then some (.port 7) else none, fun _ => none⟩

theorem acl_protects_iff_read :
    (pipeline closedTables (bbPacket 0x300 0x1388 64)).egressSpec = dropPort ∧
      (pipeline closedTables (bbPacket 0x300 0x1388 64)).digests = [] := by
  refine (acl_protects_iff _ _ (?_ : _ = some ⟨6, 0, 0, 8, 17, 255, 0, 1, 0, 0, 0, 2, 0x300, 64⟩) (by decide)
    (fun e he => absurd he List.not_mem_nil)).mpr ?_
  · rw [bbPacket, myParser_ffff (extract_emit _ _) rfl (extract_emit _ _)]
  · exact fun h => absurd h.1 (by decide)

/-- **A bulk write from port 5000 passes**, whatever it writes to. -/
theorem bulk_write_bypasses_acl :
    (pipeline closedTables (bbPacket 0x600 0x1388 64)).egressSpec = 7 ∧
      (pipeline closedTables (bbPacket 0x600 0x1388 64)).digests = [.bb 1 0x600 64 0xffff] := by
  have hparse : (myParser (bbPacket 0x600 0x1388 64)).1 =
      { ethernet := some ⟨0, 0, 0xffff⟩, bb := some ⟨6, 0, 0, 8, 17, 255, 0, 1, 0, 0, 0, 2, 0x600, 64⟩,
        bbAlloc := some ⟨0x1388, 5000, 8, 0⟩ } := by
    rw [bbPacket, myParser_ffff (extract_emit _ _) rfl (extract_emit _ _)]
    rfl
  rw [pipeline, hparse]
  decide

end Acl

end Switch
end Bb
