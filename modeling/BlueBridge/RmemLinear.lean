import BlueBridge.Clients
import BlueBridge.RmemAlloc
import BlueBridge.RmemBulk
/-!
# RmemLinear — single-block operations of many clients (`allocate_rmem`, `write_rmem`, `read_rmem`, `free_rmem`)

Any number of clients on any number of servers.  The store is abstract: a block's contents are zeros from its allocation
on, and each write is laid over them (`replay`).  What the servers do is replayed by the events of their log (`Refines`,
`Refines.step`): a block that is live holds what the events before gave it, and a read answers with it.  Together with
what the clients see of the log this is linearizability (`rmem_linearizable`).
-/
namespace Bb
namespace Rmem

open Bytes Wire
open Clients (Many Sys logOf)
open Function (update update_self update_of_ne)

/-! ## The block store -/

inductive Op where
  | alloc
  | write (d : List UInt8)
  | read (d : List UInt8)
  | free
  deriving DecidableEq, Repr

structure Event where
  server : UInt16
  paddr : UInt64
  op : Op
  deriving DecidableEq, Repr

def Event.block (e : Event) : UInt16 × UInt64 := (e.server, e.paddr)

abbrev Store := UInt16 × UInt64 → List UInt8

def Op.apply (B : Nat) (cur : List UInt8) : Op → List UInt8
  | .alloc         => List.replicate B 0
  | .write d       => d ++ cur.drop d.length
  | .read _ | .free => cur

def Event.apply (B : Nat) (store : Store) (e : Event) : Store :=
  update store e.block (e.op.apply B (store e.block))

def replay (B : Nat) (L : List Event) : Store := L.foldl (Event.apply B) (fun _ => [])

theorem replay_snoc (B : Nat) (L : List Event) (e : Event) : replay B (L ++ [e]) = e.apply B (replay B L) := by
  simp [replay]

/-! ## What the servers do -/

/-- What a request does at its server, given that `calloc` keeps its promise and only live blocks are named. -/
inductive Effect (B : Nat) (h : Server) (q : UInt64) : Op → Server → Prop
  | alloc (hq : Fresh h.live (q.toNat, B)) : Effect B h q .alloc (h.calloc q B)
  | write {d} (hq : (q.toNat, B) ∈ h.live) (hd : d.length ≤ B) : Effect B h q (.write d) (h.write q d)
  | read {n} (hq : (q.toNat, B) ∈ h.live) (hn : n ≤ B) : Effect B h q (.read (readBytes h.mem q.toNat n)) h
  | free (hq : (q.toNat, B) ∈ h.live) : Effect B h q .free (h.free q)

/-- The blocks of a server: all of one size, and apart. -/
structure Blocks (B : Nat) (live : List (Nat × Nat)) : Prop where
  size : ∀ r ∈ live, r.2 = B
  apart : ∀ r ∈ live, ∀ r' ∈ live, r ≠ r' → Disj r r'

section Effect

variable {B : Nat} {h h' : Server} {q : UInt64} {op : Op}

theorem Effect.live (he : Effect B h q op h') {r : Nat × Nat} (hr : r ∈ h'.live) :
    r ∈ h.live ∨ op = .alloc ∧ r = (q.toNat, B) ∧ Fresh h.live r := by
  cases he with
  | alloc hq =>
    rcases List.mem_cons.mp hr with rfl | hr
    · exact .inr ⟨rfl, rfl, hq⟩
    · exact .inl hr
  | write hq hd => exact .inl hr
  | read hq hn => exact .inl hr
  | free hq => exact .inl (List.mem_of_mem_filter hr)

theorem Disj.symm {r s : Nat × Nat} (hd : Disj r s) : Disj s r := Or.symm hd

theorem Effect.blocks (he : Effect B h q op h') (hb : Blocks B h.live) : Blocks B h'.live := by
  constructor
  · intro r hr
    rcases he.live hr with hr | ⟨-, rfl, -⟩
    · exact hb.size r hr
    · rfl
  · intro r hr r' hr' hne
    rcases he.live hr with hr | ⟨-, rfl, hf⟩ <;> rcases he.live hr' with hr' | ⟨-, rfl, hf'⟩
    · exact hb.apart r hr r' hr' hne
    · exact (hf'.apart r hr).symm
    · exact hf.apart r' hr'
    · exact absurd rfl hne

/-- **No operation changes a byte of another live block.** -/
theorem Effect.isolated (he : Effect B h q op h') (hb : Blocks B h.live) {q' : UInt64} (hq' : (q'.toNat, B) ∈ h.live)
    (hne : q' = q → ∀ d, op ≠ .write d) : readBytes h'.mem q'.toNat B = readBytes h.mem q'.toNat B := by
  cases he with
  | alloc hq => exact readBytes_zeroBytes_disjoint _ (hq.apart _ hq')
  | @write d hq hd =>
    have hqq : q.toNat ≠ q'.toNat := fun heq => hne (UInt64.toNat_inj.mp heq.symm) d rfl
    have hdisj := hb.apart _ hq _ hq' (fun heq => hqq (Prod.ext_iff.mp heq).1)
    unfold Disj at hdisj
    apply readBytes_writeBytes_disjoint
    omega
  | read hq hn => rfl
  | free hq => rfl

/-- What the operation leaves in its own block. -/
theorem Effect.contents (he : Effect B h q op h') (hq : (q.toNat, B) ∈ h'.live) :
    readBytes h'.mem q.toNat B = op.apply B (readBytes h.mem q.toNat B) := by
  cases he with
  | alloc hf => exact readBytes_zeroBytes h.mem q.toNat B
  | write _ hd => exact readBytes_writeBytes_le h.mem q.toNat hd
  | read => rfl
  | free => rfl

theorem Effect.answered {d : List UInt8} (he : Effect B h q (.read d) h') :
    (q.toNat, B) ∈ h.live ∧ d = (readBytes h.mem q.toNat B).take d.length := by
  generalize hop : Op.read d = op at he
  cases he with
  | read hq hn =>
    cases hop
    rw [length_readBytes, take_readBytes _ _ hn]
    exact ⟨hq, rfl⟩
  | _ => cases hop

end Effect

/-- **The servers refine the store**: a live block holds what the events gave it, and every read was answered with what
the events before it gave. -/
structure Refines (B : Nat) (L : List Event) (st : UInt16 → Server) : Prop where
  blocks : ∀ s, Blocks B (st s).live
  holds : ∀ s (q : UInt64), (q.toNat, B) ∈ (st s).live → readBytes (st s).mem q.toNat B = replay B L (s, q)
  reads : ∀ pre s q d post, L = pre ++ ⟨s, q, .read d⟩ :: post → d = (replay B pre (s, q)).take d.length

theorem Refines.step {B : Nat} {L : List Event} {st : UInt16 → Server} {e : Event} {h' : Server} (hr : Refines B L st)
    (he : Effect B (st e.server) e.paddr e.op h') : Refines B (L ++ [e]) (update st e.server h') := by
  refine ⟨fun s => ?_, fun s q hq => ?_, fun pre s q d post hL => ?_⟩
  · by_cases hs : s = e.server
    · subst hs
      rw [update_self]
      exact he.blocks (hr.blocks _)
    · rw [update_of_ne hs]
      exact hr.blocks s
  · rw [replay_snoc, Event.apply, Event.block]
    by_cases hs : s = e.server
    · subst hs
      rw [update_self] at hq ⊢
      by_cases hqe : q = e.paddr
      · subst hqe
        rw [update_self, he.contents hq]
        -- a block just allocated was not live, but then its old contents do not matter
        rcases he.live hq with hq | ⟨hop, -, -⟩
        · rw [hr.holds _ _ hq]
        · rw [hop]
          rfl
      · have hold := (he.live hq).resolve_right (fun ⟨_, heq, _⟩ => hqe (UInt64.toNat_inj.mp (Prod.ext_iff.mp heq).1))
        rw [update_of_ne (fun heq => hqe (Prod.ext_iff.mp heq).2), ← hr.holds _ _ hold]
        exact he.isolated (hr.blocks _) hold (fun heq => absurd heq hqe)
    · rw [update_of_ne hs] at hq ⊢
      rw [update_of_ne (fun heq => hs (Prod.ext_iff.mp heq).1)]
      exact hr.holds s q hq
  · rcases List.eq_nil_or_concat post with rfl | ⟨post', e', rfl⟩
    · obtain ⟨rfl, heq⟩ := List.append_inj' hL rfl
      cases List.singleton_inj.mp heq
      obtain ⟨hq, hd⟩ := he.answered
      rw [← hr.holds _ _ hq]
      exact hd
    · refine hr.reads pre s q d post' ?_
      rw [List.concat_eq_append, ← List.cons_append, ← List.append_assoc] at hL
      exact (List.append_inj' hL rfl).1

/-! ## Answers -/

section Answers

variable (B : Nat) (C : Cluster) (alloc : Server → Nat → UInt64) (st : UInt16 → Server)

/-- An answer, if there is one, to the client that has sent the request. -/
def AnswersTo (targetIp : SockaddrIn6) (r : Server × Option PktRqst) : Prop :=
  ∀ k ∈ r.2, k.dstAddr.subid = targetIp.addr.subid ∧ k.dstPort = targetIp.port

theorem answersTo_reply (targetIp : SockaddrIn6) (h : Server) (cmd : UInt16) (q : UInt64) (d : List UInt8) :
    AnswersTo targetIp (h, some ⟨returnID targetIp cmd q, targetIp.port, d⟩) := by
  rintro k ⟨⟩
  exact ⟨rfl, rfl⟩

theorem answersTo_none (targetIp : SockaddrIn6) (h : Server) : AnswersTo targetIp (h, none) := nofun

theorem answersTo_ite {targetIp : SockaddrIn6} {c : Prop} [Decidable c] {r r' : Server × Option PktRqst}
    (hr : AnswersTo targetIp r) (hr' : AnswersTo targetIp r') : AnswersTo targetIp (if c then r else r') := by
  split
  · exact hr
  · exact hr'

/-- Every command that is answered is answered to the client that sent it. -/
theorem processRequest_answer (calloc : Nat → UInt64) (h : Server) (targetIp : SockaddrIn6) (a : Ip6Memaddr)
    (d : List UInt8) (size : UInt16) : AnswersTo targetIp (processRequest B calloc h targetIp a d size) := by
  have hreply : ∀ h cmd q d, AnswersTo targetIp (h, some ⟨returnID targetIp cmd q, targetIp.port, d⟩) :=
    answersTo_reply targetIp
  have hnone := answersTo_none targetIp
  -- only the last packet of a batch is answered
  have hbulk : AnswersTo targetIp (writeMemBulk h targetIp d a size) := by
    intro k hk
    unfold writeMemBulk at hk
    split at hk
    · exact hreply _ _ _ _ k hk
    · cases hk
  exact answersTo_ite (hreply _ _ _ _) <| answersTo_ite hbulk <| answersTo_ite (hreply _ _ _ _) <|
    answersTo_ite (hreply _ _ _ _) <| answersTo_ite (hreply _ _ _ _) <| answersTo_ite (hreply _ _ _ _) <|
    answersTo_ite (hreply _ _ _ _) <| answersTo_ite (hreply _ _ _ _) (hnone _)

theorem handlePacket_answer {p r : Packet} {st' : UInt16 → Server} (h : handlePacket B C alloc st p = (st', [r])) :
    p.dst.port = C.port ∧ r.src = ⟨C.addr p.dst.addr.subid, C.port⟩ ∧
      r.dst.addr.subid = p.src.addr.subid ∧ r.dst.port = p.src.port := by
  unfold handlePacket at h
  split_ifs at h with hport
  · obtain ⟨-, hr⟩ := Prod.ext_iff.mp h
    have ⟨k, hk, hkr⟩ := Option.map_eq_some_iff.mp (Option.toList_eq_singleton_iff.mp hr)
    have hans := processRequest_answer B _ _ _ _ _ _ k hk
    subst hkr
    exact ⟨hport, rfl, hans.1, hans.2⟩
  · simp at h

theorem handlePacket_alloc {p : Packet} (hport : p.dst.port = C.port) (hcmd : p.dst.addr.cmd = allocCmd) :
    handlePacket B C alloc st p =
      (update st p.dst.addr.subid ((st p.dst.addr.subid).calloc (alloc (st p.dst.addr.subid) B) B),
        [preparePacket ⟨C.addr p.dst.addr.subid, C.port⟩
          ⟨returnID p.src allocCmd (alloc (st p.dst.addr.subid) B), p.src.port, []⟩]) := by
  have hw : ¬ allocCmd = writeCmd := by decide
  have hwb : ¬ allocCmd = writeBulkCmd := by decide
  have hr : ¬ allocCmd = readCmd := by decide
  have hrb : ¬ allocCmd = readBulkCmd := by decide
  have hf : ¬ allocCmd = freeCmd := by decide
  rw [handlePacket, if_pos hport]
  simp only [processRequest, hcmd, if_neg hw, if_neg hwb, if_neg hr, if_neg hrb, if_neg hf, if_true, allocateMem]
  rfl

theorem handlePacket_free {p : Packet} (hport : p.dst.port = C.port) (hcmd : p.dst.addr.cmd = freeCmd) :
    handlePacket B C alloc st p =
      (update st p.dst.addr.subid ((st p.dst.addr.subid).free p.dst.addr.paddr), [ackOf C p]) := by
  have hw : ¬ freeCmd = writeCmd := by decide
  have hwb : ¬ freeCmd = writeBulkCmd := by decide
  have hr : ¬ freeCmd = readCmd := by decide
  have hrb : ¬ freeCmd = readBulkCmd := by decide
  rw [handlePacket, if_pos hport]
  simp only [processRequest, hcmd, if_neg hw, if_neg hwb, if_neg hr, if_neg hrb, if_true, freeMem, ackOf]
  rfl

end Answers

/-! ## Calls -/

/-- What a single-block call works on: `target_ip`, the caller's address variable and its memory. -/
structure Vars where
  targetIp : SockaddrIn6
  addr : Ip6Memaddr
  mem : Nat → UInt8

inductive Call (B : Nat) where
  | alloc
  | write (payload : Nat) (length : UInt16) (h : length.toNat ≤ B)
  | read (rxBuf : Nat) (length : UInt16) (h : length.toNat ≤ B)
  | free

section Call

variable {B : Nat} (me : SockaddrIn6) (v : Vars)

def Call.prog : Call B → Prog Packet Vars
  | .alloc => do
    let (targetIp, addr) ← allocateRmem me v.targetIp
    pure ⟨targetIp, addr, v.mem⟩
  | .write payload length _ => do
    let (targetIp, addr) ← writeRmem me v.targetIp v.addr v.mem payload length
    pure ⟨targetIp, addr, v.mem⟩
  | .read rxBuf length _ => do
    let (targetIp, addr, mem, _) ← readRmem me v.targetIp v.addr v.mem rxBuf length
    pure ⟨targetIp, addr, mem⟩
  | .free => do
    let (targetIp, addr) ← freeRmem me v.targetIp v.addr
    pure ⟨targetIp, addr, v.mem⟩

def Call.req (c : Call B) : Packet :=
  preparePacket me (match c with
    | .alloc                  => ⟨{ v.targetIp.addr with cmd := allocCmd }, v.targetIp.port, []⟩
    | .write payload length _ =>
      ⟨{ v.addr with cmd := writeCmd }, v.targetIp.port, readBytes v.mem payload length.toNat⟩
    | .read _ length _        => ⟨{ v.addr with cmd := readCmd, args := length.toUInt32 }, v.targetIp.port, []⟩
    | .free                   => ⟨{ v.addr with cmd := freeCmd }, v.targetIp.port, []⟩)

def Call.out (c : Call B) (r : Packet) : Vars :=
  match c with
  | .alloc               => ⟨r.src, { r.dst.addr with subid := r.src.addr.subid }, v.mem⟩
  | .write _ _ _         => ⟨r.src, { v.addr with cmd := writeCmd }, v.mem⟩
  | .read rxBuf length _ =>
    ⟨r.src, { v.addr with cmd := readCmd, args := length.toUInt32 }, writeBytes v.mem rxBuf r.data⟩
  | .free                => ⟨r.src, r.dst.addr, v.mem⟩

theorem Call.prog_eq (c : Call B) : c.prog me v = request (c.req me v) (c.out v) := by
  cases c <;> rfl

end Call

/-! ## Requests that may be served -/

/-- What is assumed of a request when it is served, `q` being the pointer `calloc` returns: `calloc` keeps its promise,
and clients only use addresses that are live. -/
def Allowed (B : Nat) (st : UInt16 → Server) (p : Packet) (q : UInt64) : Prop :=
  if p.dst.addr.cmd = allocCmd then Fresh (st p.dst.addr.subid).live (q.toNat, B)
  else (p.dst.addr.paddr.toNat, B) ∈ (st p.dst.addr.subid).live

def blockServe (B : Nat) (C : Cluster) (st : UInt16 → Server) (p : Packet) (st' : UInt16 → Server) (r : Packet) :
    Prop :=
  ∃ q, handlePacket B C (fun _ _ => q) st p = (st', [r]) ∧ Allowed B st p q

/-- What a request and its answer are to the store. -/
def eventOf (p r : Packet) : Event where
  server := p.dst.addr.subid
  paddr := if p.dst.addr.cmd = allocCmd then r.dst.addr.paddr else p.dst.addr.paddr
  op :=
    if p.dst.addr.cmd = allocCmd then .alloc
    else if p.dst.addr.cmd = writeCmd then .write p.data
    else if p.dst.addr.cmd = readCmd then .read r.data
    else .free

/-- **A call that has returned, and its event**: the data is the event's, `target_ip` is the server that answered, and
the caller's address still names the block. -/
def Returned {B : Nat} (C : Cluster) (v : Vars) (c : Call B) (v' : Vars) (e : Event) : Prop :=
  v'.targetIp = ⟨C.addr e.server, C.port⟩ ∧
  match c with
  | .alloc => e.server = v.targetIp.addr.subid ∧ e.op = .alloc ∧ place v'.addr = e.block ∧ v'.mem = v.mem
  | .write payload length _ => place v.addr = e.block ∧ e.op = .write (readBytes v.mem payload length.toNat) ∧
      place v'.addr = e.block ∧ v'.mem = v.mem
  | .read rxBuf length _ => ∃ d, place v.addr = e.block ∧ e.op = .read d ∧ d.length = length.toNat ∧
      place v'.addr = e.block ∧ v'.mem = writeBytes v.mem rxBuf d
  | .free => place v.addr = e.block ∧ e.op = .free ∧ v'.mem = v.mem

section Served

variable {B : Nat} {C : Cluster} {me : SockaddrIn6} {v : Vars} {c : Call B} {st st' : UInt16 → Server} {r : Packet}

/-- The equation of each request: it is answered, and has its effect. -/
theorem Call.handled (hport : v.targetIp.port = C.port) {q : UInt64} (ha : Allowed B st (c.req me v) q) :
    ∃ h' r, handlePacket B C (fun _ _ => q) st (c.req me v) = (update st (c.req me v).dst.addr.subid h', [r]) ∧
      Effect B (st (c.req me v).dst.addr.subid) (eventOf (c.req me v) r).paddr (eventOf (c.req me v) r).op h' ∧
      Returned C v c (c.out v r) (eventOf (c.req me v) r) := by
  cases c with
  | alloc =>
    refine ⟨_, _, handlePacket_alloc B C _ st hport rfl, .alloc ha, rfl, rfl, rfl, ?_, rfl⟩
    exact Prod.ext (C.subid_addr _) rfl
  | write payload length hlen =>
    have hlength : (readBytes v.mem payload length.toNat).length = length.toNat := length_readBytes ..
    refine ⟨_, _, handlePacket_write B _ st hport rfl ?_, .write ha ?_, rfl, rfl, rfl, rfl, rfl⟩
    · exact hlength ▸ length.toNat_lt
    · exact hlength ▸ hlen
  | read rxBuf length hlen =>
    refine ⟨st v.addr.subid, readReply C length st ((Call.read rxBuf length hlen).req me v), ?_, .read ha hlen,
      rfl, _, rfl, rfl, length_readBytes .., rfl, rfl⟩
    rw [handlePacket_read B _ st hport rfl (UInt16.toUInt16_toUInt32 length)]
    exact congrArg (·, _) (Function.update_eq_self v.addr.subid st).symm
  | free => exact ⟨_, _, handlePacket_free B C _ st hport rfl, .free ha, rfl, rfl, rfl, rfl⟩

theorem Call.req_port (me : SockaddrIn6) (v : Vars) (c : Call B) : (c.req me v).dst.port = v.targetIp.port := by
  cases c <;> rfl

theorem Call.served (hs : blockServe B C st (c.req me v) st' r) :
    (∃ h', Effect B (st (eventOf (c.req me v) r).server) (eventOf (c.req me v) r).paddr (eventOf (c.req me v) r).op h' ∧
      st' = update st (eventOf (c.req me v) r).server h') ∧
    Returned C v c (c.out v r) (eventOf (c.req me v) r) := by
  obtain ⟨q, hh, ha⟩ := hs
  have hport : v.targetIp.port = C.port := (c.req_port me v).symm.trans (handlePacket_answer B C _ st hh).1
  obtain ⟨h', r', hh', he, hret⟩ := Call.handled hport ha
  obtain ⟨rfl, hr⟩ := Prod.ext_iff.mp (hh.symm.trans hh')
  cases List.singleton_inj.mp hr
  exact ⟨⟨h', he, rfl⟩, hret⟩

theorem Call.can_serve (hport : v.targetIp.port = C.port) {q : UInt64} (ha : Allowed B st (c.req me v) q) :
    ∃ st' r, blockServe B C st (c.req me v) st' r := by
  obtain ⟨h', r, hh, -, -⟩ := Call.handled hport ha
  exact ⟨_, r, q, hh, ha⟩

end Served

/-! ## Any number of clients and servers -/

variable {ι : Type} {B : Nat} {C : Cluster} {me : ι → SockaddrIn6}

/-- The clients' sockets differ in subnet or port, by which the network and the packet filters tell them apart. -/
def Distinct (me : ι → SockaddrIn6) : Prop := Function.Injective (fun i => ((me i).addr.subid, (me i).port))

def blockNet (B : Nat) (C : Cluster) (me : ι → SockaddrIn6) (hme : Distinct me) :
    Many ι Packet (UInt16 → Server) Vars (Call B) where
  serve := blockServe B C
  prog := fun i v c => c.prog (me i) v
  req := fun i v c => c.req (me i) v
  out := fun _ v c => c.out v
  prog_eq := fun i v c => c.prog_eq (me i) v
  mine := fun i p => (p.src.addr.subid, p.src.port) == ((me i).addr.subid, (me i).port)
  forMe := fun i r => (r.dst.addr.subid, r.dst.port) == ((me i).addr.subid, (me i).port)
  req_mine := fun i v c => by cases c <;> exact beq_self_eq_true _
  mine_unique := fun i j p hi hj => hme ((beq_iff_eq.mp hi).symm.trans (beq_iff_eq.mp hj))
  forMe_unique := fun i j p hi hj => hme ((beq_iff_eq.mp hi).symm.trans (beq_iff_eq.mp hj))
  answer := by
    rintro i st p st' r ⟨q, hh, -⟩
    obtain ⟨-, -, hsubid, hport⟩ := handlePacket_answer B C _ st hh
    rw [hsubid, hport]

/-- The events of a log. -/
def history (log : List (Packet × Packet)) : List Event := log.map (fun y => eventOf y.1 y.2)

theorem history_append (L L' : List (Packet × Packet)) : history (L ++ L') = history L ++ history L' :=
  List.map_append

variable {hme : Distinct me} {v₀ : ι → Vars} {st₀ : UInt16 → Server}

theorem refines_of_served (hlive : ∀ s, (st₀ s).live = []) {L : List (Packet × Packet)} {st : UInt16 → Server}
    (h : Clients.Served (blockNet B C me hme) st₀ L st) (hL : ∀ y ∈ L, ∃ i v c, y.1 = (blockNet B C me hme).req i v c) :
    Refines B (history L) st := by
  refine Clients.Served.induct (I := fun L st => Refines B (history L) st) ?_ ?_ h hL
  · refine ⟨fun s => ?_, fun s q hq => ?_, fun pre s q d post hL => by simp [history] at hL⟩
    · rw [hlive s]
      exact ⟨nofun, nofun⟩
    · rw [hlive s] at hq
      cases hq
  · rintro L st p st' r hr ⟨i, v, c, rfl⟩ hs
    obtain ⟨⟨h', he, rfl⟩, -⟩ := Call.served hs
    rw [history_append]
    exact hr.step he

theorem returned_of_matched {i : ι} {cs : List (Vars × Call B × Vars)} {L : List (Packet × Packet)}
    (hm : Clients.Matched (blockNet B C me hme) i cs L) (hs : ∀ y ∈ L, ∃ st st', blockServe B C st y.1 st' y.2) :
    List.Forall₂ (fun c e => Returned C c.1 c.2.1 c.2.2 e) cs (history L) := by
  induction hm with
  | nil => exact .nil
  | @cons c y cs L hcy _ ih =>
    refine .cons ?_ (ih (fun y hy => hs y (List.mem_cons_of_mem _ hy)))
    obtain ⟨st, st', hserve⟩ := hs y List.mem_cons_self
    rw [hcy.1] at hserve
    simp only [hcy.1, hcy.2]
    exact (Call.served hserve).2

/-- The calls a client has completed, and at most one that is served. -/
theorem completed_of_inv {x : Sys ι Packet (UInt16 → Server) Vars (Call B)}
    (hinv : Clients.Inv (blockNet B C me hme) st₀ x) (i : ι) :
    ∃ done rest, history (logOf (blockNet B C me hme) i x.log) = done ++ rest ∧
      List.Forall₂ (fun c e => Returned C c.1 c.2.1 c.2.2 e) (x.calls i) done ∧ rest.length ≤ 1 ∧
      ((∃ v, x.client i = .idle v) → rest = []) := by
  obtain ⟨L, rest, hL, hm, hrest, hidle⟩ := (hinv.phase i).matched
  have hserved : ∀ z ∈ L, ∃ t t', (blockNet B C me hme).serve t z.1 t' z.2 := fun z hz =>
    hinv.served.mem z (List.mem_of_mem_filter (hL ▸ List.mem_append_left rest hz))
  refine ⟨history L, history rest, ?_, returned_of_matched hm hserved, ?_, fun h => ?_⟩
  · rw [hL, history_append]
  · simpa [history] using hrest
  · rw [hidle h]
    rfl

variable [DecidableEq ι]

/-- **A linearizable block store.**  The servers' log, in the order they served it, is one history of the store that
every client's completed calls are part of, in order; only a last call may be served and not yet completed. -/
structure Linearizable (B : Nat) (C : Cluster) (me : ι → SockaddrIn6) (hme : Distinct me)
    (x : Sys ι Packet (UInt16 → Server) Vars (Call B)) : Prop where
  returned : ∀ i, ∃ done rest, history (logOf (blockNet B C me hme) i x.log) = done ++ rest ∧
    List.Forall₂ (fun c e => Returned C c.1 c.2.1 c.2.2 e) (x.calls i) done ∧ rest.length ≤ 1 ∧
    ((∃ v, x.client i = .idle v) → rest = [])
  /-- A read gives what the last writes left, zeros where there was none since the allocation. -/
  reads : ∀ pre s q d post, history x.log = pre ++ ⟨s, q, .read d⟩ :: post → d = (replay B pre (s, q)).take d.length
  /-- A byte of a live block changes by a write to that block only. -/
  isolated : ∀ y, Clients.Step (blockNet B C me hme) x y → ∀ s (q : UInt64), (q.toNat, B) ∈ (x.srv s).live →
    readBytes (y.srv s).mem q.toNat B ≠ readBytes (x.srv s).mem q.toNat B →
    ∃ d, history y.log = history x.log ++ [⟨s, q, .write d⟩]
  /-- The history only grows, so a call that returned before another was made comes before it. -/
  grows : ∀ y, Clients.Reach (blockNet B C me hme) x y → ∃ L, history y.log = history x.log ++ L
  returns : ∀ i v c m, x.client i = .busy v c m → v.targetIp.port = C.port →
    (∃ q, Allowed B x.srv (c.req (me i) v) q) → ∃ y v', Clients.Reach (blockNet B C me hme) x y ∧ y.client i = .idle v'

/-- The event that changed a live block wrote to it. -/
theorem changed_by_write {st st' : UInt16 → Server} {e : Event} {L : List Event}
    (he : ∃ h', Effect B (st e.server) e.paddr e.op h' ∧ st' = update st e.server h') {s : UInt16} {q : UInt64}
    (hb : Blocks B (st s).live) (hq : (q.toNat, B) ∈ (st s).live)
    (hne : readBytes (st' s).mem q.toNat B ≠ readBytes (st s).mem q.toNat B) :
    ∃ d, L ++ [e] = L ++ [⟨s, q, .write d⟩] := by
  obtain ⟨h', he, rfl⟩ := he
  by_cases hs : s = e.server
  · subst hs
    rw [update_self] at hne
    have hw : ¬ (q = e.paddr → ∀ d, e.op ≠ .write d) := fun h => hne (he.isolated hb hq h)
    push Not at hw
    obtain ⟨rfl, d, hd⟩ := hw
    exact ⟨d, by rw [← hd]⟩
  · rw [update_of_ne hs] at hne
    exact absurd rfl hne

/-- **Remote memory is a linearizable block store**, for any clients and servers and in every run. -/
theorem rmem_linearizable (hme : Distinct me) (hlive : ∀ s, (st₀ s).live = [])
    {x : Sys ι Packet (UInt16 → Server) Vars (Call B)}
    (hx : Clients.Reach (blockNet B C me hme) (Clients.start v₀ st₀) x) : Linearizable B C me hme x := by
  have hinv := Clients.reach_inv hx
  have href := refines_of_served hlive hinv.served hinv.logged
  refine ⟨completed_of_inv hinv, href.reads, fun y hy s q hq hne => ?_, fun y hy => ?_,
    fun i v c m hm hport ⟨q, ha⟩ => ?_⟩
  · rcases hy.log with ⟨-, hsrv⟩ | ⟨p, r, hp, hs, hlog⟩
    · exact absurd (by rw [hsrv]) hne
    · obtain ⟨i, v, c, rfl⟩ := hinv.inFlight p hp
      rw [hlog, history_append]
      exact changed_by_write (Call.served hs).1 (href.blocks s) hq hne
  · obtain ⟨L, hL⟩ := Clients.reach_log hy
    exact ⟨history L, by rw [hL, history_append]⟩
  · obtain ⟨st', r, hs⟩ := Call.can_serve hport ha
    exact hinv.can_return hm hs

/-- One client allocates a block on server 7 and writes to it, another reads it. -/
theorem rmem_linearizable_two_clients :
    let me : Bool → SockaddrIn6 := fun i => ⟨⟨1, 0, 0, 0⟩, if i then 1 else 2⟩
    ∃ (hme : Distinct me) (x : Sys Bool Packet (UInt16 → Server) Vars (Call 2)),
      Clients.Reach (blockNet 2 plainCluster me hme)
        (Clients.start (fun _ => ⟨⟨⟨7, 0, 0, 0⟩, 5000⟩, ⟨0, 0, 0, 0⟩, fun i => UInt8.ofNat i⟩)
          (fun _ => ⟨fun _ => 9, []⟩)) x ∧
      history x.log = [⟨7, 16, .alloc⟩, ⟨7, 16, .write [3]⟩, ⟨7, 16, .read [3, 0]⟩] ∧
      Linearizable 2 plainCluster me hme x := by
  intro me
  have hme : Distinct me := by
    rintro (_ | _) (_ | _) h
    · rfl
    · exact absurd h (by decide)
    · exact absurd h (by decide)
    · rfl
  let v : Vars := ⟨⟨⟨7, 0, 0, 0⟩, 5000⟩, ⟨7, 0, 0, 16⟩, fun i => UInt8.ofNat i⟩
  have hfresh : Fresh [] ((16 : UInt64).toNat, 2) := ⟨by decide, by decide, by simp⟩
  have hone : (1 : UInt16).toNat ≤ 2 := by decide
  have htwo : (2 : UInt16).toNat ≤ 2 := by decide
  have hfits : 1 < 2 ^ 16 := by decide
  have h₁ := Clients.reach_round (W := blockNet 2 plainCluster me hme) (t := fun _ => ⟨fun _ => 9, []⟩) (L := [])
    (f := fun _ => .idle ⟨⟨⟨7, 0, 0, 0⟩, 5000⟩, ⟨0, 0, 0, 0⟩, fun i => UInt8.ofNat i⟩) (K := fun _ => []) (i := true)
    rfl v .alloc ⟨16, handlePacket_alloc 2 plainCluster _ _ rfl rfl, hfresh⟩
  have h₂ := h₁.trans (Clients.reach_round (update_self ..) v (.write 3 1 hone)
    ⟨0, handlePacket_write 2 _ _ (p := (Call.write 3 1 hone).req (me true) v) rfl rfl hfits, List.mem_cons_self⟩)
  have h₃ := h₂.trans (Clients.reach_round (W := blockNet 2 plainCluster me hme) (i := false) rfl v (.read 0 2 htwo)
    ⟨0, handlePacket_read 2 _ _ rfl rfl rfl, List.mem_cons_self⟩)
  exact ⟨hme, _, h₃, rfl, rmem_linearizable hme (fun _ => rfl) h₃⟩

end Rmem
end Bb
