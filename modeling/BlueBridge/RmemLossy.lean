import BlueBridge.Lossy
import BlueBridge.RmemLinear
/-!
# RmemLossy — remote memory over UDP

UDP may lose a packet, and `rcv_udp6_raw` polls until one comes: no call of `client_lib.c` gives up or sends again.  So a
loss costs the call it was part of and nothing else.  The store stays linearizable, for the clients whose calls return and
for those whose calls do not, and every other call can still return (`rmem_lossy`).
-/
namespace Bb
namespace Rmem

open Bytes
open Clients (Sys logOf Lossy LossyReach Hung)
open Function (update update_self update_of_ne)

variable {ι : Type} {B : Nat} {C : Cluster} {me : ι → SockaddrIn6} [DecidableEq ι]

/-- **A linearizable block store that loses packets**: as `Linearizable`, but a call returns only if no packet of it is
lost. -/
structure LossyLinearizable (B : Nat) (C : Cluster) (me : ι → SockaddrIn6) (hme : Distinct me)
    (x : Sys ι Packet (UInt16 → Server) Vars (Call B)) : Prop where
  returned : ∀ i, ∃ done rest, history (logOf (blockNet B C me hme) i x.log) = done ++ rest ∧
    List.Forall₂ (fun c e => Returned C c.1 c.2.1 c.2.2 e) (x.calls i) done ∧ rest.length ≤ 1 ∧
    ((∃ v, x.client i = .idle v) → rest = [])
  reads : ∀ pre s q d post, history x.log = pre ++ ⟨s, q, .read d⟩ :: post → d = (replay B pre (s, q)).take d.length
  isolated : ∀ y, Lossy (blockNet B C me hme) x y → ∀ s (q : UInt64), (q.toNat, B) ∈ (x.srv s).live →
    readBytes (y.srv s).mem q.toNat B ≠ readBytes (x.srv s).mem q.toNat B →
    ∃ d, history y.log = history x.log ++ [⟨s, q, .write d⟩]
  grows : ∀ y, LossyReach (blockNet B C me hme) x y → ∃ L, history y.log = history x.log ++ L
  returns : ∀ i v c m, x.client i = .busy v c m → v.targetIp.port = C.port →
    (∃ q, Allowed B x.srv (c.req (me i) v) q) →
    ((∃ y v', LossyReach (blockNet B C me hme) x y ∧ y.client i = .idle v') ↔ ¬ Hung (blockNet B C me hme) i x)

variable {hme : Distinct me} {v₀ : ι → Vars} {st₀ : UInt16 → Server}
  {x y : Sys ι Packet (UInt16 → Server) Vars (Call B)}

/-- **Remote memory is linearizable whatever the network loses**, and a call hangs if and only if its request or its
answer is lost. -/
theorem rmem_lossy (hlive : ∀ s, (st₀ s).live = [])
    (hx : LossyReach (blockNet B C me hme) (Clients.start v₀ st₀) x) : LossyLinearizable B C me hme x := by
  -- the run without losses, in which what `x` has lost is still in flight
  obtain ⟨y, hy, hd⟩ := Lossy.delays hx
  have hinv := Clients.reach_inv hy
  have href := refines_of_served hlive hinv.served hinv.logged
  refine ⟨fun i => ?_, hd.log ▸ href.reads, fun z hz s q hq hne => ?_, fun z hz => ?_, fun i v c m hm hport ⟨q, ha⟩ => ?_⟩
  · rw [← hd.log, ← hd.calls, ← hd.client]
    exact completed_of_inv hinv i
  · cases hz with
    | step hs =>
      rcases hs.log with ⟨-, hsrv⟩ | ⟨p, r, hp, hs, hlog⟩
      · exact absurd (by rw [hsrv]) hne
      · obtain ⟨i, v, c, rfl⟩ := hinv.inFlight p (hd.requests.subset hp)
        rw [hlog, history_append]
        exact changed_by_write (Call.served hs).1 (hd.srv ▸ href.blocks s) hq hne
    | request => exact absurd rfl hne
    | answer => exact absurd rfl hne
  · obtain ⟨y', hy', hd'⟩ := hd.run hz
    obtain ⟨L, hL⟩ := Clients.reach_log hy'
    exact ⟨history L, by rw [← hd'.log, hL, hd.log, history_append]⟩
  · obtain ⟨st', r, hs⟩ := Call.can_serve hport ha
    exact hd.can_return_iff hinv hm hs

/-- A client's write to its block is lost on the way: it waits for ever, and a read of the block gets zeros. -/
theorem rmem_lossy_write :
    let me : Bool → SockaddrIn6 := fun i => ⟨⟨1, 0, 0, 0⟩, if i then 1 else 2⟩
    ∃ (hme : Distinct me) (x : Sys Bool Packet (UInt16 → Server) Vars (Call 2)),
      LossyReach (blockNet 2 plainCluster me hme)
        (Clients.start (fun _ => ⟨⟨⟨7, 0, 0, 0⟩, 5000⟩, ⟨0, 0, 0, 0⟩, fun i => UInt8.ofNat i⟩)
          (fun _ => ⟨fun _ => 9, []⟩)) x ∧
      history x.log = [⟨7, 16, .alloc⟩, ⟨7, 16, .read [0, 0]⟩] ∧
      ¬ ∃ y v', LossyReach (blockNet 2 plainCluster me hme) x y ∧ y.client true = .idle v' := by
  intro me
  have hme : Distinct me := by
    rintro (_ | _) (_ | _) h
    · rfl
    · exact absurd h (by decide)
    · exact absurd h (by decide)
    · rfl
  let v : Vars := ⟨⟨⟨7, 0, 0, 0⟩, 5000⟩, ⟨7, 0, 0, 16⟩, fun i => UInt8.ofNat i⟩
  have hfresh : Fresh [] ((16 : UInt64).toNat, 2) := ⟨by decide, by decide, by simp⟩
  have hone : (1 : UInt16).toNat ≤ 2 := by decide
  have htwo : (2 : UInt16).toNat ≤ 2 := by decide
  have h₁ := Clients.reach_round (W := blockNet 2 plainCluster me hme) (t := fun _ => ⟨fun _ => 9, []⟩) (L := [])
    (f := fun _ => .idle ⟨⟨⟨7, 0, 0, 0⟩, 5000⟩, ⟨0, 0, 0, 0⟩, fun i => UInt8.ofNat i⟩) (K := fun _ => []) (i := true)
    rfl v .alloc ⟨16, handlePacket_alloc 2 plainCluster _ _ rfl rfl, hfresh⟩
  have h₂ := h₁.lossy.trans (Clients.reach_lost (update_self ..) v (.write 3 1 hone))
  have h₃ := h₂.trans (Clients.reach_round (W := blockNet 2 plainCluster me hme) (i := false) rfl v (.read 0 2 htwo)
    ⟨0, handlePacket_read 2 _ _ rfl rfl rfl, List.mem_cons_self⟩).lossy
  have hret := (rmem_lossy (fun _ => rfl) h₃).returns true v (.write 3 1 hone) _ rfl rfl ⟨0, List.mem_cons_self⟩
  exact ⟨hme, _, h₃, rfl, fun h => hret.1 h ⟨⟨_, _, _, rfl⟩, nofun, nofun⟩⟩

end Rmem
end Bb
