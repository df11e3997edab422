import BlueBridge.Heimdall
/-!
# Access — who may read and write, from allocation to free

The switch and its controller over whole runs of exchanges: a request goes through the switch, the controller learns from
its digests, and if the request was not dropped the server's answer does the same.  The controller's map is taken to
compare all ten bytes of its keys, so that the table is right for what the controller is told (`learn_tracks`).

It is not told of bulk allocations, since the parser has `0x600`, the bulk write, in the place of `0x500`; and an entry
that was there from the start outlives a free (`access_lifecycle_iff`).
-/
namespace Bb
namespace Access

open Headers Switch Heimdall

/-! ## Exchanges -/

inductive Cmd where
  | alloc
  | allocBulk
  | free
  | read
  | write
  deriving DecidableEq

def Cmd.wire : Cmd → BitVec 16
  | .alloc     => wire16 Rmem.allocCmd
  | .allocBulk => wire16 Rmem.allocBulkCmd
  | .free      => wire16 Rmem.freeCmd
  | .read      => wire16 Rmem.readCmd
  | .write     => wire16 Rmem.writeCmd

/-- A BlueBridge packet; the UDP header is where the switch looks for `bb_alloc`. -/
structure Packet where
  dstAddr : BitVec 48
  srcAddr : BitVec 48
  bb : BbT
  udp : BbAllocT
  data : List UInt8

def Packet.bytes (k : Packet) : List UInt8 :=
  emit (⟨k.dstAddr, k.srcAddr, 0xffff⟩ : EthernetT) ++ (emit k.bb ++ (emit k.udp ++ k.data))

/-- The pair that a packet is for. -/
def Packet.target (k : Packet) : Pair := (k.bb.dSubnet, k.bb.dBbPointer)

/-- The pair that an answer tells of. -/
def Packet.told (k : Packet) : Pair := (k.bb.sSubnet, k.bb.dBbPointer)

/-- The switch as it is set up: `bb_acl` has pointer 0 of each server and the whole subnet of each client. -/
structure Network where
  servers : List (BitVec 16)
  clients : List (BitVec 16)
  base : Table
  base_acl : base.map Prod.snd = servers.map (fun s => acl (s, 0)) ++ clients.map (fun c => ⟨c, 0, 0, .nop⟩)
  others : Tables
  bbFwd_server : ∀ s ∈ servers, ∃ p, others.bbFwd s = some (.port p) ∧ p ≠ dropPort

/-- The tables with `entries` in `bb_acl`. -/
def Network.tables (N : Network) (entries : List AclEntry) : Tables := { N.others with bbAcl := entries }

/-- A client's request, and the answer that the server has for it: to its sender, from port 5000, with its command and,
but for an allocation, its pointer. -/
structure Exchange (N : Network) where
  cmd : Cmd
  request : Packet
  answer : Packet
  server_mem : request.bb.dSubnet ∈ N.servers
  client_mem : request.bb.sSubnet ∈ N.clients
  request_cmd : request.bb.dCmd = cmd.wire
  answer_sSubnet : answer.bb.sSubnet = request.bb.dSubnet
  answer_dSubnet : answer.bb.dSubnet = request.bb.sSubnet
  answer_cmd : answer.bb.dCmd = cmd.wire
  answer_port : answer.udp.srcPort = 0x1388
  answer_pointer : cmd = .alloc ∨ cmd = .allocBulk ∨ answer.bb.dBbPointer = request.bb.dBbPointer

/-! ## Runs -/

/-- A digest as the controller reads it. -/
def sampleOf : Digest → Sample
  | .bb sSubnet dCmd dBbPointer etherType  => ⟨sSubnet, dCmd, dBbPointer, etherType⟩
  | .thrift subnet cmd bbPointer ttype     => ⟨subnet, cmd, bbPointer, ttype⟩

/-- The controller and the switch's table, and the answers that there were. -/
structure State where
  ctl : Ctl (List UInt8)
  log : List (Cmd × Pair)

section Run

variable (N : Network)

/-- A packet through the switch. -/
def pass (c : Ctl (List UInt8)) (k : Packet) : Ingress := pipeline (N.tables (c.table.map Prod.snd)) k.bytes

def forwarded (c : Ctl (List UInt8)) (k : Packet) : Prop := (pass N c k).egressSpec ≠ dropPort

instance (c : Ctl (List UInt8)) (k : Packet) : Decidable (forwarded N c k) := inferInstanceAs (Decidable (_ ≠ _))

/-- The controller after a packet. -/
def learned (H : Handles) (c : Ctl (List UInt8)) (k : Packet) : Ctl (List UInt8) :=
  (pass N c k).digests.foldl (fun c d => c.learnCb tenBytes H (sampleOf d)) c

def State.step (st : State) (H : Handles) (x : Exchange N) : State :=
  let c := learned N H st.ctl x.request
  if forwarded N st.ctl x.request then ⟨learned N H c x.answer, st.log ++ [(x.cmd, x.answer.told)]⟩
  else ⟨c, st.log⟩

def run (xs : List (Handles × Exchange N)) : State :=
  xs.foldl (fun st x => st.step N x.1 x.2) ⟨learn tenBytes N.base [], []⟩

end Run

/-- The last of the given commands that was answered for `q`. -/
def lastOf (cmds : List Cmd) (log : List (Cmd × Pair)) (q : Pair) : Option Cmd :=
  (log.reverse.find? (fun e => e.2 = q ∧ e.1 ∈ cmds)).map Prod.fst

/-! ## What a packet does -/

section Pass

variable {N : Network} {c : Ctl (List UInt8)} {k : Packet}

/-- What the parser makes of a packet. -/
def Packet.hdr (k : Packet) : Hdrs where
  ethernet := some ⟨k.dstAddr, k.srcAddr, 0xffff⟩
  bb := some k.bb
  bbAlloc := if k.bb.dCmd = 0x100 ∨ k.bb.dCmd = 0x400 ∨ k.bb.dCmd = 0x600 then some k.udp else none

theorem Packet.myParser_bytes (k : Packet) : (myParser k.bytes).1 = k.hdr := by
  rw [Packet.bytes, myParser_ffff (extract_emit _ _) rfl (extract_emit _ _), allocAfter, extract_emit, Option.map_some]
  rfl

theorem Packet.answersAlloc_hdr (k : Packet) : k.hdr.answersAlloc = true ↔
    (k.bb.dCmd = 0x100 ∨ k.bb.dCmd = 0x400 ∨ k.bb.dCmd = 0x600) ∧ k.udp.srcPort = 0x1388 := by
  rw [Packet.hdr, Hdrs.answersAlloc]
  split <;> simp_all

theorem pass_eq : pass N c k = applyBb (N.tables (c.table.map Prod.snd)) { hdr := k.hdr } := by
  have hbb : (myParser k.bytes).1.bb = some k.bb := by
    rw [k.myParser_bytes]
    rfl
  rw [pass, pipeline_bb hbb, k.myParser_bytes]

/-- What is taken for the answer to an allocation is told to the controller. -/
theorem pass_digests_of_answer (h : k.hdr.answersAlloc = true) :
    (pass N c k).digests = [.bb k.bb.sSubnet k.bb.dCmd k.bb.dBbPointer 0xffff] := by
  rw [pass_eq, applyBb_of_answer h, Ingress.updateAccessBb, applyBbFwd_digests, applyBbFwd_hdr]
  rfl

theorem applyBbAcl_digests {T : Tables} {s : Ingress} : (applyBbAcl T s).digests = s.digests := by
  unfold applyBbAcl
  split <;> rfl

theorem pass_digests_of_not_answer (h : k.hdr.answersAlloc = false) : (pass N c k).digests = [] := by
  rw [pass_eq, applyBb_of_not_answer h, applyBbAcl_digests, applyBbFwd_digests]

/-- The other packets go by the tables. -/
theorem forwarded_iff (hs : k.bb.dSubnet ∈ N.servers) (hans : k.hdr.answersAlloc = false)
    (hnop : ∀ e ∈ c.table.map Prod.snd, e.action = .nop) :
    forwarded N c k ↔ ∃ e ∈ c.table.map Prod.snd, e.matches k.bb.dSubnet k.bb.dBbPointer = true := by
  obtain ⟨port, hport, hne⟩ := N.bbFwd_server _ hs
  have hfwd : applyBbFwd (N.tables (c.table.map Prod.snd)) { hdr := k.hdr } = { hdr := k.hdr, egressSpec := port } := by
    rw [applyBbFwd]
    exact congrArg (applyForward _ _) hport
  rw [forwarded, pass_eq, applyBb_of_not_answer hans, hfwd, applyBbAcl]
  split
  · next hl =>
    obtain ⟨e, he, hm, -⟩ := lookup_eq_some hl
    exact ⟨fun _ => ⟨e, he, hm⟩, fun _ => hne⟩
  · next hl =>
    obtain ⟨e, he, -, ha⟩ := lookup_eq_some hl
    exact absurd (ha.symm.trans (hnop e he)) (by decide)
  · next hl =>
    refine ⟨fun h => absurd rfl h, ?_⟩
    rintro ⟨e, he, hm⟩
    exact absurd (hm.symm.trans (lookup_eq_none.mp hl e he)) (by decide)

end Pass

/-! ## What the table allows -/

theorem tenBytes_injective : Function.Injective tenBytes := by
  intro q q' h
  obtain ⟨h1, h2⟩ := List.append_inj h (by simp)
  have hnat : ∀ {n w : Nat} (a b : BitVec w), 256 ^ n = 2 ^ w → beBytes n a.toNat = beBytes n b.toNat → a = b := by
    intro n w a b hw hab
    have := congrArg beNat hab
    rw [beNat_beBytes, beNat_beBytes, hw, Nat.mod_eq_of_lt a.isLt, Nat.mod_eq_of_lt b.isLt] at this
    exact BitVec.eq_of_toNat_eq this
  exact Prod.ext (hnat _ _ (by decide) h1) (hnat _ _ (by decide) h2)

section Allowed

variable {N : Network} {hist : List (Handles × Sample)} {q : Pair}

theorem matches_acl {q' : Pair} : (acl q').matches q.1 q.2 = true ↔ q' = q := by
  simp [Entry.matches, acl, Prod.ext_iff, eq_comm (a := q.2)]

theorem mem_base {e : AclEntry} : e ∈ N.base.map Prod.snd ↔
    (∃ s ∈ N.servers, acl (s, 0) = e) ∨ ∃ c ∈ N.clients, (⟨c, 0, 0, .nop⟩ : AclEntry) = e := by
  rw [N.base_acl, List.mem_append, List.mem_map, List.mem_map]

/-- The entries from the start take the match of pointer 0 of each server. -/
theorem taken_base : taken N.base q = true ↔ q.1 ∈ N.servers ∧ q.2 = 0 := by
  have hany : taken N.base q = true ↔ ∃ e ∈ N.base.map Prod.snd, sameMatch e (acl q) = true := by
    rw [← List.any_eq_true, List.any_map]
    rfl
  rw [hany]
  constructor
  · rintro ⟨e, he, hsame⟩
    obtain ⟨s, hs, rfl⟩ | ⟨c, -, rfl⟩ := mem_base.mp he
    · rw [← sameMatch_acl.mp hsame]
      exact ⟨hs, rfl⟩
    · simp [sameMatch, acl] at hsame
  · rintro ⟨hs, hp⟩
    exact ⟨acl q, mem_base.mpr (.inl ⟨q.1, hs, by rw [← hp]⟩), sameMatch_acl.mpr rfl⟩

theorem tracks_ten : Tracks ((learn tenBytes N.base hist).table.map Prod.snd) N.base hist :=
  learn_tracks (S := Set.univ) tenBytes_injective.injOn (fun _ _ => trivial)

/-- **Allowed are pointer 0 of the servers, the clients' subnets, and what the controller was told to add.** -/
theorem learn_matches (hist : List (Handles × Sample)) (q : Pair) :
    (∃ e ∈ (learn tenBytes N.base hist).table.map Prod.snd, e.matches q.1 q.2 = true) ↔
      (q.1 ∈ N.servers ∧ q.2 = 0) ∨ q.1 ∈ N.clients ∨ live hist q = true := by
  constructor
  · rintro ⟨e, he, hm⟩
    obtain hb | ⟨q', rfl, hl, -⟩ := (tracks_ten e).mp he
    · obtain ⟨s, hs, rfl⟩ | ⟨c, hc, rfl⟩ := mem_base.mp hb
      · rw [← matches_acl.mp hm]
        exact .inl ⟨hs, rfl⟩
      · exact .inr (.inl ((of_decide_eq_true hm).1 ▸ hc))
    · rw [← matches_acl.mp hm]
      exact .inr (.inr hl)
  · have hbase : ∀ e ∈ N.base.map Prod.snd, e ∈ (learn tenBytes N.base hist).table.map Prod.snd :=
      fun e he => (tracks_ten e).mpr (.inl he)
    have hzero : q.1 ∈ N.servers ∧ q.2 = 0 → acl q ∈ N.base.map Prod.snd :=
      fun h => mem_base.mpr (.inl ⟨q.1, h.1, by rw [← h.2]⟩)
    rintro (h | h | h)
    · exact ⟨acl q, hbase _ (hzero h), matches_acl.mpr rfl⟩
    · exact ⟨_, hbase _ (mem_base.mpr (.inr ⟨q.1, h, rfl⟩)), by simp [Entry.matches, BitVec.ushiftRight_eq_zero]⟩
    · refine ⟨acl q, (tracks_ten _).mpr ?_, matches_acl.mpr rfl⟩
      by_cases ht : taken N.base q = true
      · exact .inl (hzero (taken_base.mp ht))
      · exact .inr ⟨q, rfl, h, Bool.eq_false_iff.mpr ht⟩

theorem learn_nop : ∀ e ∈ (learn tenBytes N.base hist).table.map Prod.snd, e.action = .nop := by
  intro e he
  obtain hb | ⟨q, rfl, -⟩ := (tracks_ten e).mp he
  · obtain ⟨s, -, rfl⟩ | ⟨c, -, rfl⟩ := mem_base.mp hb <;> rfl
  · rfl

end Allowed

/-! ## What the controller was told -/

theorem lastOf_snoc (cmds : List Cmd) (log : List (Cmd × Pair)) (e : Cmd × Pair) (q : Pair) :
    lastOf cmds (log ++ [e]) q = if e.2 = q ∧ e.1 ∈ cmds then some e.1 else lastOf cmds log q := by
  rw [lastOf, List.reverse_append, List.reverse_singleton, List.singleton_append, List.find?_cons]
  split <;> simp_all [lastOf]

/-- The last of some commands is the last of fewer, if it is one of them. -/
theorem lastOf_of_mem {cmds cmds' : List Cmd} {q : Pair} {a : Cmd} (hsub : cmds' ⊆ cmds) (ha : a ∈ cmds')
    (log : List (Cmd × Pair)) (h : lastOf cmds log q = some a) : lastOf cmds' log q = some a := by
  induction log using List.reverseRecOn with
  | nil => cases h
  | append_singleton log e ih =>
    rw [lastOf_snoc] at h ⊢
    by_cases hq : e.2 = q ∧ e.1 ∈ cmds
    · rw [if_pos hq] at h
      cases h
      rw [if_pos ⟨hq.1, ha⟩]
    · rw [if_neg hq] at h
      rw [if_neg (fun he => hq ⟨he.1, hsub he.2⟩)]
      exact ih h

section Told

variable {N : Network} {H : Handles} {c : Ctl (List UInt8)} {hist : List (Handles × Sample)} {q : Pair}

/-- The samples of a packet. -/
def samples (N : Network) (H : Handles) (c : Ctl (List UInt8)) (k : Packet) : List (Handles × Sample) :=
  (pass N c k).digests.map (fun d => (H, sampleOf d))

theorem learned_learn (k : Packet) : learned N H (learn tenBytes N.base hist) k =
    learn tenBytes N.base (hist ++ samples N H (learn tenBytes N.base hist) k) := by
  rw [learned, learn, learn, List.foldl_append, samples, List.foldl_map]

/-- What a packet changes. -/
theorem live_samples (k : Packet) : live (hist ++ samples N H c k) q =
    if k.hdr.answersAlloc = true ∧ k.told = q then decide (k.bb.dCmd ≠ Cmd.free.wire) else live hist q := by
  cases hans : k.hdr.answersAlloc with
  | false => simp [samples, pass_digests_of_not_answer hans]
  | true =>
    have hdel : (!(sampleOf (.bb k.bb.sSubnet k.bb.dCmd k.bb.dBbPointer 0xffff)).deletes) =
        decide (k.bb.dCmd ≠ Cmd.free.wire) := by
      rw [sampleOf, Sample.deletes, ← decide_not]
      apply decide_eq_decide.mpr
      rcases (k.answersAlloc_hdr.mp hans).1 with h | h | h <;> dsimp only <;> rw [h] <;> decide
    rw [samples, pass_digests_of_answer hans, List.map_singleton, live_snoc, hdel]
    simp [Packet.told, sampleOf, Sample.pair]

/-- The controller is told of the answers to allocations and frees. -/
theorem Exchange.answersAlloc_answer (x : Exchange N) :
    x.answer.hdr.answersAlloc = true ↔ x.cmd ∈ [Cmd.alloc, Cmd.free] := by
  have hwire : ∀ cmd : Cmd, (cmd.wire = 0x100 ∨ cmd.wire = 0x400 ∨ cmd.wire = 0x600) ↔ cmd ∈ [Cmd.alloc, Cmd.free] := by
    intro cmd
    cases cmd <;> decide
  rw [Packet.answersAlloc_hdr, x.answer_cmd, hwire]
  exact and_iff_left x.answer_port

/-- The controller has learned `hist`, which says of the pairs outside the clients' subnets what the answers to
allocations and frees do. -/
structure Follows (N : Network) (st : State) (hist : List (Handles × Sample)) : Prop where
  ctl : st.ctl = learn tenBytes N.base hist
  live : ∀ q : Pair, q.1 ∉ N.clients → (live hist q = true ↔ lastOf [.alloc, .free] st.log q = some .alloc)

theorem Follows.step {st : State} (f : Follows N st hist) (H : Handles) (x : Exchange N) :
    ∃ hist', Follows N (st.step N H x) hist' := by
  -- A request tells of nothing but its client's subnet.
  have hreq : ∀ q : Pair, q.1 ∉ N.clients →
      Heimdall.live (hist ++ samples N H st.ctl x.request) q = Heimdall.live hist q := by
    intro q hq
    rw [live_samples, if_neg]
    rintro ⟨-, rfl⟩
    exact hq x.client_mem
  unfold State.step
  dsimp only
  split
  case isFalse =>
    refine ⟨hist ++ samples N H st.ctl x.request, ?_, fun q hq => ?_⟩
    · dsimp only
      rw [f.ctl, learned_learn]
    · rw [hreq q hq]
      exact f.live q hq
  case isTrue =>
    refine ⟨hist ++ samples N H st.ctl x.request ++ samples N H (learned N H st.ctl x.request) x.answer, ?_,
      fun q hq => ?_⟩
    · dsimp only
      rw [f.ctl, learned_learn, learned_learn]
    · rw [live_samples, lastOf_snoc, hreq q hq]
      by_cases hcmd : x.answer.told = q ∧ x.cmd ∈ [Cmd.alloc, Cmd.free]
      · have hkind : ∀ cmd ∈ [Cmd.alloc, Cmd.free], cmd.wire ≠ Cmd.free.wire ↔ cmd = .alloc := by decide
        rw [if_pos hcmd, if_pos ⟨x.answersAlloc_answer.mpr hcmd.2, hcmd.1⟩, x.answer_cmd, decide_eq_true_iff,
          Option.some_inj]
        exact hkind _ hcmd.2
      · rw [if_neg hcmd, if_neg (fun h => hcmd ⟨h.2, x.answersAlloc_answer.mp h.1⟩)]
        exact f.live q hq

theorem run_follows (xs : List (Handles × Exchange N)) : ∃ hist, Follows N (run N xs) hist := by
  induction xs using List.reverseRecOn with
  | nil => exact ⟨[], rfl, fun _ _ => by simp [live_nil, run, lastOf]⟩
  | append_singleton xs x ih =>
    obtain ⟨hist, f⟩ := ih
    rw [run, List.foldl_concat]
    exact f.step x.1 x.2

end Told

/-! ## The lifecycle -/

/-- The answers that decide whether a pointer is in use. -/
def lifeCmds : List Cmd := [.alloc, .allocBulk, .free]

section Lifecycle

variable (N : Network) (xs : List (Handles × Exchange N)) (k : Packet) (hs : k.bb.dSubnet ∈ N.servers)
  (hcmd : k.bb.dCmd = Cmd.read.wire ∨ k.bb.dCmd = Cmd.write.wire)
include hs hcmd

/-- **Who may read and write.** -/
theorem run_forwarded_iff : forwarded N (run N xs).ctl k ↔
    k.bb.dBbPointer = 0 ∨ k.bb.dSubnet ∈ N.clients ∨ lastOf [.alloc, .free] (run N xs).log k.target = some .alloc := by
  obtain ⟨hist, f⟩ := run_follows xs
  have hans : k.hdr.answersAlloc = false := by
    rw [Bool.eq_false_iff, Ne, k.answersAlloc_hdr]
    rintro ⟨h, -⟩
    rcases hcmd with hc | hc <;> rw [hc] at h <;> exact absurd h (by decide)
  rw [f.ctl, forwarded_iff hs hans learn_nop]
  refine (learn_matches hist k.target).trans (or_congr (and_iff_right hs) ?_)
  by_cases hc : k.bb.dSubnet ∈ N.clients
  · exact iff_of_true (.inl hc) (.inl hc)
  · exact or_congr_right (f.live k.target hc)

/-- **Reads and writes go through while a pointer is allocated and are dropped once it is freed**, iff a pointer from a
bulk allocation has an entry for another reason, and a freed one has none from the start. -/
theorem access_lifecycle_iff :
    ((lastOf lifeCmds (run N xs).log k.target = some .alloc ∨
        lastOf lifeCmds (run N xs).log k.target = some .allocBulk → forwarded N (run N xs).ctl k) ∧
      (lastOf lifeCmds (run N xs).log k.target = some .free → ¬ forwarded N (run N xs).ctl k)) ↔
    (lastOf lifeCmds (run N xs).log k.target = some .allocBulk →
        k.bb.dBbPointer = 0 ∨ k.bb.dSubnet ∈ N.clients ∨ lastOf [.alloc, .free] (run N xs).log k.target = some .alloc) ∧
      (lastOf lifeCmds (run N xs).log k.target = some .free → k.bb.dBbPointer ≠ 0 ∧ k.bb.dSubnet ∉ N.clients) := by
  have hsub : [Cmd.alloc, Cmd.free] ⊆ lifeCmds := by decide
  have halloc := lastOf_of_mem (q := k.target) hsub (a := .alloc) (by decide) (run N xs).log
  have hfree := lastOf_of_mem (q := k.target) hsub (a := .free) (by decide) (run N xs).log
  rw [run_forwarded_iff N xs k hs hcmd]
  refine and_congr ⟨fun h hb => h (.inr hb), fun h => ?_⟩ (imp_congr_right fun hl => ?_)
  · rintro (ha | hb)
    · exact .inr (.inr (halloc ha))
    · exact h hb
  · rw [hfree hl, not_or, not_or]
    exact and_congr_right (fun _ => and_iff_left (by decide))

end Lifecycle

def ports : List (BitVec 16 × BitVec 9) :=
  [(0x0101, 1), (0x0102, 2), (0x0103, 3), (0x0104, 4), (0x0105, 5), (0x0106, 6)]

/-- The entries of `commands.txt` for BlueBridge packets. -/
def shipped : Network where
  servers := [0x0103, 0x0104, 0x0105, 0x0106]
  clients := [0x0101, 0x0102, 0x0103]
  base := [(0, acl (0x0103, 0)), (1, acl (0x0104, 0)), (2, acl (0x0105, 0)), (3, acl (0x0106, 0)),
    (4, ⟨0x0101, 0, 0, .nop⟩), (5, ⟨0x0102, 0, 0, .nop⟩), (6, ⟨0x0103, 0, 0, .nop⟩)]
  base_acl := rfl
  others := ⟨[], [], [], fun s => (ports.lookup s).map .port, fun _ => none⟩
  bbFwd_server s hs := by
    simp only [List.mem_cons, List.not_mem_nil, or_false] at hs
    rcases hs with rfl | rfl | rfl | rfl <;> exact ⟨_, rfl, by decide⟩

/-- A packet from port `port` of `src` to `dst`. -/
def packetOf (src dst port : BitVec 16) (cmd : Cmd) (p : BitVec 64) : Packet :=
  ⟨0, 0, ⟨6, 0, 0, 8, 17, 255, 0, src, 0, 0, 0, dst, cmd.wire, p⟩, ⟨port, 0x1388, 8, 0⟩, []⟩

/-- An allocation at server `0x0104` that returns pointer `0x1000`. -/
def allocation (cmd : Cmd) (h : cmd = .alloc ∨ cmd = .allocBulk) : Exchange shipped where
  cmd := cmd
  request := packetOf 0x0101 0x0104 0x1389 cmd 0
  answer := packetOf 0x0104 0x0101 0x1388 cmd 0x0010000000000000
  server_mem := List.mem_cons_of_mem _ List.mem_cons_self
  client_mem := List.mem_cons_self
  request_cmd := rfl
  answer_sSubnet := rfl
  answer_dSubnet := rfl
  answer_cmd := rfl
  answer_port := rfl
  answer_pointer := by rcases h with h | h <;> simp [h]

def readBack : Packet := packetOf 0x0101 0x0104 0x1389 .read 0x0010000000000000

theorem access_lifecycle_iff_alloc :
    forwarded shipped (run shipped [(.above, allocation .alloc (.inl rfl))]).ctl readBack := by
  have hlast : lastOf lifeCmds (run shipped [(.above, allocation .alloc (.inl rfl))]).log readBack.target =
      some .alloc := by decide +kernel
  have h := (access_lifecycle_iff shipped [(.above, allocation .alloc (.inl rfl))] readBack (by decide) (.inl rfl)).mpr
  rw [hlast] at h
  exact (h ⟨nofun, nofun⟩).1 (.inl rfl)

/-- **What a bulk allocation has returned cannot be read.** -/
theorem bulk_allocation_unreadable :
    lastOf lifeCmds (run shipped [(.above, allocation .allocBulk (.inr rfl))]).log readBack.target = some .allocBulk ∧
      ¬ forwarded shipped (run shipped [(.above, allocation .allocBulk (.inr rfl))]).ctl readBack := by
  decide +kernel

end Access
end Bb
