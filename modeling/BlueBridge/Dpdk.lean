import BlueBridge.RxRing
/-!
# Dpdk — receiving in bursts (`dpdk_backend/dpdk_client.c`, `dpdk_server.c`)

`rte_eth_rx_burst` hands over up to `MAX_PKT_BURST` packets at a time.  `dpdk_client_rcv` returns with the first one of a
burst that is for the client's port, and the rest of the burst is gone: the next call asks for a new burst.  So its calls
return the first such packet of each burst (`rcvs_eq`), and nothing is lost exactly if no burst has two
(`dpdk_rcv_loses_nothing_iff`).  The raw backend's calls return all packets.

The server's loop acts on every packet of a burst that is for its port and its subnet (`rcvLoop_eq`).
-/
namespace Bb
namespace Dpdk

open Bytes Rmem Bb.Frame Bb.Ring RxRing

def maxPktBurst : Nat := 100

section Bursts

variable (srcClientPort : UInt16) (rcvBuf remoteAddr : Bool)

/-- The loop over a burst: what is returned, if any of it is for the client's port. -/
def rcvBurst : List Buf → Option Received
  | []          => none
  | m :: pktsBurst =>
    if udpDest m = srcClientPort then some (received rcvBuf remoteAddr m) else rcvBurst pktsBurst

/-- `dpdk_client_rcv` on the bursts to come: what it returns and the bursts after that.  On `none` it does not return. -/
def dpdkClientRcv : List (List Buf) → Option (Received × List (List Buf))
  | []                  => none
  | pktsBurst :: bursts =>
    match rcvBurst srcClientPort rcvBuf remoteAddr pktsBurst with
    | some r => some (r, bursts)
    | none   => dpdkClientRcv bursts

/-- Successive calls. -/
def rcvs : Nat → List (List Buf) → Option (List Received)
  | 0,     _      => some []
  | k + 1, bursts => do
    let (r, rest) ← dpdkClientRcv srcClientPort rcvBuf remoteAddr bursts
    let rs ← rcvs k rest
    return r :: rs

/-- The packets for the client's port. -/
def mine (pkts : List Buf) : List Buf := pkts.filter (fun m => udpDest m = srcClientPort)

/-- As many calls as there are packets return them all, in order. -/
def LosesNothing (bursts : List (List Buf)) : Prop :=
  ∀ k, k ≤ (mine srcClientPort bursts.flatten).length → rcvs srcClientPort rcvBuf remoteAddr k bursts =
    some (((mine srcClientPort bursts.flatten).take k).map (received rcvBuf remoteAddr))

/-- The first packet of each burst. -/
def firsts (bursts : List (List Buf)) : List Buf := bursts.filterMap (fun b => (mine srcClientPort b).head?)

theorem rcvBurst_eq : ∀ b : List Buf,
    rcvBurst srcClientPort rcvBuf remoteAddr b = (mine srcClientPort b).head?.map (received rcvBuf remoteAddr)
  | []     => rfl
  | m :: b => by
    rw [rcvBurst, mine, List.filter_cons]
    split <;> rename_i h
    · simp [h]
    · simp only [h, decide_false, Bool.false_eq_true, if_false]
      exact rcvBurst_eq b

theorem dpdkClientRcv_cases : ∀ bursts : List (List Buf),
    firsts srcClientPort bursts = [] ∧ dpdkClientRcv srcClientPort rcvBuf remoteAddr bursts = none ∨
      ∃ x rest, firsts srcClientPort bursts = x :: firsts srcClientPort rest ∧
        dpdkClientRcv srcClientPort rcvBuf remoteAddr bursts = some (received rcvBuf remoteAddr x, rest)
  | []          => .inl ⟨rfl, rfl⟩
  | b :: bursts => by
    rw [dpdkClientRcv, rcvBurst_eq, firsts, List.filterMap_cons]
    cases (mine srcClientPort b).head? with
    | none => exact dpdkClientRcv_cases bursts
    | some x => exact .inr ⟨x, bursts, rfl, rfl⟩

/-- **The calls return the first packet of each burst.** -/
theorem rcvs_eq : ∀ (k : Nat) (bursts : List (List Buf)), rcvs srcClientPort rcvBuf remoteAddr k bursts =
    if k ≤ (firsts srcClientPort bursts).length then
      some (((firsts srcClientPort bursts).take k).map (received rcvBuf remoteAddr))
    else none
  | 0, bursts => by simp [rcvs]
  | k + 1, bursts => by
    rcases dpdkClientRcv_cases srcClientPort rcvBuf remoteAddr bursts with ⟨hf, h⟩ | ⟨x, rest, hf, h⟩
    · simp [rcvs, h, hf]
    · rw [rcvs, h, hf, Option.bind_eq_bind, Option.bind_some]
      dsimp only
      rw [rcvs_eq k rest]
      by_cases hk : k ≤ (firsts srcClientPort rest).length <;> simp [hk]

theorem firsts_cons (b : List Buf) (bursts : List (List Buf)) : firsts srcClientPort (b :: bursts) =
    (mine srcClientPort b).head?.toList ++ firsts srcClientPort bursts := by
  rw [firsts, List.filterMap_cons]
  cases (mine srcClientPort b).head? <;> rfl

theorem mine_flatten (b : List Buf) (bursts : List (List Buf)) : mine srcClientPort (b :: bursts).flatten =
    mine srcClientPort b ++ mine srcClientPort bursts.flatten := by
  simp [mine]

theorem length_firsts_le : ∀ bursts : List (List Buf),
    (firsts srcClientPort bursts).length ≤ (mine srcClientPort bursts.flatten).length
  | []          => Nat.le_refl _
  | b :: bursts => by
    have ih := length_firsts_le bursts
    rw [mine_flatten, firsts_cons, List.length_append, List.length_append]
    cases mine srcClientPort b with
    | nil => simpa using ih
    | cons x l => simp only [List.head?_cons, Option.toList_some, List.length_cons, List.length_nil]; omega

/-- If all packets are first in their burst, then no burst has two. -/
theorem le_one_of_firsts : ∀ bursts : List (List Buf),
    (mine srcClientPort bursts.flatten).length ≤ (firsts srcClientPort bursts).length →
    ∀ b ∈ bursts, (mine srcClientPort b).length ≤ 1
  | []          => fun _ b hb => absurd hb List.not_mem_nil
  | b :: bursts => by
    intro h b' hb'
    have hle := length_firsts_le srcClientPort bursts
    have ih := le_one_of_firsts bursts
    rw [mine_flatten, firsts_cons, List.length_append, List.length_append] at h
    have hhead : (mine srcClientPort b).head?.toList.length ≤ 1 := by cases (mine srcClientPort b).head? <;> simp
    rcases List.mem_cons.mp hb' with rfl | hb'
    · omega
    · refine ih ?_ b' hb'
      cases hb : mine srcClientPort b with
      | nil => simpa [hb] using h
      | cons x l =>
        simp only [hb, List.head?_cons, Option.toList_some, List.length_cons, List.length_nil] at h
        omega

theorem firsts_of_le_one : ∀ bursts : List (List Buf), (∀ b ∈ bursts, (mine srcClientPort b).length ≤ 1) →
    firsts srcClientPort bursts = mine srcClientPort bursts.flatten
  | [],          _ => rfl
  | b :: bursts, h => by
    have ih := firsts_of_le_one bursts (fun b' hb' => h b' (List.mem_cons_of_mem _ hb'))
    have hb := h b List.mem_cons_self
    rw [mine_flatten, ← ih, firsts_cons]
    match hm : mine srcClientPort b with
    | []          => rfl
    | [x]         => rfl
    | x :: y :: l => simp [hm] at hb

theorem losesNothing_iff (bursts : List (List Buf)) :
    LosesNothing srcClientPort rcvBuf remoteAddr bursts ↔ ∀ b ∈ bursts, (mine srcClientPort b).length ≤ 1 := by
  constructor
  · intro h
    apply le_one_of_firsts
    by_contra hlt
    have := h _ (Nat.le_refl _)
    rw [rcvs_eq, if_neg hlt] at this
    cases this
  · intro h k hk
    rw [rcvs_eq, firsts_of_le_one srcClientPort bursts h, if_pos hk]

end Bursts

/-! ## Against the raw backend -/

section Raw

variable {n : Nat}

theorem results_unmarked {R : Reader Buf Received} {act : Buf → Received} {l : List (Slot Buf)} (c : Nat)
    (hspec : ∀ f, R.eval f = act f) (hun : ∀ x ∈ l, flagged skips x.status = false) :
    results skips R .ret c l = (l.take c).map (fun x => act x.frame) := by
  have hfilter : (l.take c).filter (fun x => !flagged skips x.status) = l.take c := by
    refine List.filter_eq_self.mpr (fun x hx => ?_)
    rw [hun x (List.mem_of_mem_take hx)]
    rfl
  rw [results, hfilter]
  exact List.map_congr_left (fun x _ => hspec x.frame)

/-- **Nothing is lost exactly if no burst has two packets for the client**; on the raw ring, the calls return what has
come in, in order, and they come to return all of it. -/
theorem dpdk_rcv_loses_nothing_iff (hn : 0 < n) (f : Buf) (srcClientPort : UInt16) (rcvBuf remoteAddr : Bool) :
    (∀ bursts, LosesNothing srcClientPort rcvBuf remoteAddr bursts ↔
      ∀ b ∈ bursts, (mine srcClientPort b).length ≤ 1) ∧
    (∀ s, Reach n (simpleEpollRcv rcvBuf remoteAddr) (fun _ => True) (start (simpleEpollRcv rcvBuf remoteAddr) f) s →
      (∀ x ∈ s.filled, flagged skips x.status = false) →
      (∃ k, s.out = (s.filled.take k).map (fun x => received rcvBuf remoteAddr x.frame)) ∧
        ∃ j, (s.after n (simpleEpollRcv rcvBuf remoteAddr) j).out =
          s.filled.map (fun x => received rcvBuf remoteAddr x.frame)) := by
  refine ⟨losesNothing_iff srcClientPort rcvBuf remoteAddr, fun s h hun => ?_⟩
  have hsafe : True → ∀ b : Received, (∃ a, Reader.ret (F := Buf) b = .ret a) ∨ False := fun _ b => .inl ⟨b, rfl⟩
  have hinv : Inv n skips (rcvReader rcvBuf remoteAddr) .ret True False s :=
    reach_inv hn skips_kernel hsafe (fun h => h.elim) h
  have hspec := eval_rcvReader rcvBuf remoteAddr
  constructor
  · obtain ⟨k, hk⟩ := hinv.out
    exact ⟨k, by rw [hk, results_unmarked k hspec hun]⟩
  · obtain ⟨j, hj⟩ := hinv.finishes hn skips_kernel hsafe
    refine ⟨j, hj.trans ?_⟩
    rw [results_unmarked _ hspec hun, List.take_length]

/-- An acknowledgement from the server with subnet `s`. -/
def ackFrom (s : UInt8) : Buf := fun i => if i = 22 then s else if i = 59 then 8 else 0

theorem dpdk_rcv_loses_nothing_iff_two_bursts : LosesNothing 0 true true [[ackFrom 2], [], [ackFrom 3]] :=
  ((dpdk_rcv_loses_nothing_iff (n := tpFrameNr) (by decide) (fun _ => 0) 0 true true).1 _).mpr (by decide +kernel)

/-- **The acknowledgements of two servers in one burst**: the second call does not return, whatever number of empty
bursts follows. -/
theorem dpdkClientRcv_loses_ack : 2 ≤ maxPktBurst ∧ ¬ LosesNothing 0 true true [[ackFrom 2, ackFrom 3]] ∧
    ∀ empty, rcvs 0 true true 2 ([ackFrom 2, ackFrom 3] :: List.replicate empty []) = none := by
  refine ⟨by decide, ?_, fun empty => ?_⟩
  · rw [losesNothing_iff]
    decide +kernel
  · rw [rcvs_eq, if_neg]
    have : firsts 0 (List.replicate empty []) = [] := by simp [firsts, mine]
    rw [firsts_cons, this]
    decide +kernel

end Raw

/-! ## The server -/

section Server

variable (B : Nat) (alloc : Server → Nat → UInt64) (srcServerPort : UInt16) (srcAddr : Ip6Memaddr)

/-- The arguments of `process_request` for a packet, but for the pointer to its data. -/
structure Args where
  targetIp : SockaddrIn6
  remoteAddr : Ip6Memaddr
  size : UInt16

/-- The packet is for the server's port and its subnet. -/
def rcvRequest (m : Buf) : Option Args :=
  if udpDest m = srcServerPort then
    if (ip6Dst m).subid = srcAddr.subid then some ⟨⟨ip6Src m, udpSource m⟩, ip6Dst m, msgSize m⟩ else none
  else none

/-- The inner loop of `rcv_loop`, over a burst, and the answers.  `process_request` reads a word of a request even if
its data is shorter. -/
def serveBurst : List Buf → Server → Server × List PktRqst
  | [],             h => (h, [])
  | m :: pktsBurst, h =>
    match rcvRequest srcServerPort srcAddr m with
    | none   => serveBurst pktsBurst h
    | some a =>
      let r := processRequest B (alloc h) h a.targetIp a.remoteAddr (readBytes m 62 (max 8 a.size.toNat)) a.size
      let rest := serveBurst pktsBurst r.1
      (rest.1, r.2.toList ++ rest.2)

/-- `rcv_loop` on the bursts to come. -/
def rcvLoop : List (List Buf) → Server → Server × List PktRqst
  | [],                  h => (h, [])
  | pktsBurst :: bursts, h =>
    let r := serveBurst B alloc srcServerPort srcAddr pktsBurst h
    let rest := rcvLoop bursts r.1
    (rest.1, r.2 ++ rest.2)

/-- One request after another. -/
def serveAll : List Request → Server → Server × List PktRqst
  | [],        h => (h, [])
  | act :: rs, h =>
    let rest := serveAll rs (act h).1
    (rest.1, (act h).2.toList ++ rest.2)

theorem serveAll_append : ∀ (as bs : List Request) (h : Server), serveAll (as ++ bs) h =
    ((serveAll bs (serveAll as h).1).1, (serveAll as h).2 ++ (serveAll bs (serveAll as h).1).2)
  | [],      bs, h => rfl
  | a :: as, bs, h => by simp only [List.cons_append, serveAll, serveAll_append as bs, List.append_assoc]

/-- The packets for the server. -/
def forServer (m : Buf) : Bool := udpDest m = srcServerPort ∧ (ip6Dst m).subid = srcAddr.subid

theorem serveBurst_eq : ∀ (pkts : List Buf) (h : Server), serveBurst B alloc srcServerPort srcAddr pkts h =
    serveAll ((pkts.filter (forServer srcServerPort srcAddr)).map (requested B alloc)) h
  | [],        h => rfl
  | m :: pkts, h => by
    by_cases hport : udpDest m = srcServerPort
    · by_cases hsub : (ip6Dst m).subid = srcAddr.subid
      · have hm : forServer srcServerPort srcAddr m = true := decide_eq_true ⟨hport, hsub⟩
        rw [List.filter_cons_of_pos hm, List.map_cons, serveAll, serveBurst, rcvRequest, if_pos hport, if_pos hsub]
        simp only [serveBurst_eq pkts]
        rfl
      · have hm : ¬ forServer srcServerPort srcAddr m = true := fun h => hsub (of_decide_eq_true h).2
        rw [List.filter_cons_of_neg hm, serveBurst, rcvRequest, if_pos hport, if_neg hsub]
        exact serveBurst_eq pkts h
    · have hm : ¬ forServer srcServerPort srcAddr m = true := fun h => hport (of_decide_eq_true h).1
      rw [List.filter_cons_of_neg hm, serveBurst, rcvRequest, if_neg hport]
      exact serveBurst_eq pkts h

/-- **The server acts on every packet that is for it**, in order and as the raw server does on a frame. -/
theorem rcvLoop_eq : ∀ (bursts : List (List Buf)) (h : Server), rcvLoop B alloc srcServerPort srcAddr bursts h =
    serveAll ((bursts.flatten.filter (forServer srcServerPort srcAddr)).map (requested B alloc)) h
  | [],          h => rfl
  | b :: bursts, h => by
    rw [rcvLoop, List.flatten_cons, List.filter_append, List.map_append, serveAll_append, serveBurst_eq]
    simp only [rcvLoop_eq bursts]

end Server

end Dpdk
end Bb
