import Mathlib.Data.List.Perm.Subperm
import BlueBridge.Clients
/-!
# Lossy — clients on a network that loses packets

The steps of `Clients`, and two more: a request or an answer in flight is lost.  Nothing tells a client, a server or the
log that a packet was lost and not delayed for ever, so a run with losses is a run without them in which the lost
packets are still in flight (`Delays`).  What is said of every run without losses about the clients, the servers and the
log holds with losses as well (`Lossy.delays`).

What is lost is the call: a client waits for an answer and sends nothing again.  A call whose request or answer was lost
(`Hung`) does not return, and any other can (`Delays.can_return_iff`).
-/
namespace Bb
namespace Clients

open Wire (Prog request)
open Function (update update_self update_of_ne)
open Relation (ReflTransGen)

variable {ι P S σ κ : Type} {W : Many ι P S σ κ}

/-- `y` is `x` with what was lost still in flight. -/
structure Delays (x y : Sys ι P S σ κ) : Prop where
  client : y.client = x.client
  srv : y.srv = x.srv
  log : y.log = x.log
  calls : y.calls = x.calls
  requests : x.requests.Subperm y.requests
  answers : x.answers.Subperm y.answers

theorem Delays.refl (x : Sys ι P S σ κ) : Delays x x := ⟨rfl, rfl, rfl, rfl, .refl _, .refl _⟩

theorem sublist_take (A C : List P) (p : P) : (A ++ C).Sublist (A ++ p :: C) :=
  (List.sublist_cons_self p C).append_left A

theorem subset_take {A C Q : List P} {p : P} (h : Q = A ++ p :: C) : A ++ C ⊆ Q := h ▸ (sublist_take A C p).subset

/-- The same packet is taken on both sides. -/
theorem subperm_take {A C A' C' : List P} {p : P} (h : (A ++ p :: C).Subperm (A' ++ p :: C')) :
    (A ++ C).Subperm (A' ++ C') :=
  (List.subperm_cons p).1 ((List.perm_middle.subperm_left).1 ((List.perm_middle.subperm_right).1 h))

/-- The client waits, and no packet in flight is its own. -/
structure Hung (W : Many ι P S σ κ) (i : ι) (x : Sys ι P S σ κ) : Prop where
  waits : ∃ v c k, x.client i = .busy v c (.recv k)
  requests : ∀ p ∈ x.requests, W.mine i p = false
  answers : ∀ r ∈ x.answers, W.forMe i r = false

section Hung

variable {x x' : Sys ι P S σ κ} {i : ι}

theorem Hung.of_subset (h : Hung W i x) (hi : x'.client i = x.client i) (hreq : x'.requests ⊆ x.requests)
    (hans : x'.answers ⊆ x.answers) : Hung W i x' :=
  ⟨hi ▸ h.waits, fun p hp => h.requests p (hreq hp), fun r hr => h.answers r (hans hr)⟩

theorem mem_of_not_hung (h : ¬ Hung W i x) {v : σ} {c : κ} {k : P → Prog P σ}
    (hk : x.client i = .busy v c (.recv k)) :
    (∃ p ∈ x.requests, W.mine i p = true) ∨ ∃ r ∈ x.answers, W.forMe i r = true := by
  by_contra hno
  push Not at hno
  exact h ⟨⟨v, c, k, hk⟩, fun p hp => Bool.eq_false_iff.2 (hno.1 p hp), fun r hr => Bool.eq_false_iff.2 (hno.2 r hr)⟩

end Hung

theorem eq_of_filter_singleton {f : P → Bool} {l : List P} {p q : P} (h : l.filter f = [p]) (hq : q ∈ l)
    (hf : f q = true) : q = p := by
  have hm : q ∈ l.filter f := List.mem_filter.2 ⟨hq, hf⟩
  rw [h] at hm
  exact List.mem_singleton.1 hm

variable [DecidableEq ι]

inductive Lossy (W : Many ι P S σ κ) : Sys ι P S σ κ → Sys ι P S σ κ → Prop
  | step {x y : Sys ι P S σ κ} (h : Step W x y) : Lossy W x y
  | request {x : Sys ι P S σ κ} {A p C} (hp : x.requests = A ++ p :: C) : Lossy W x { x with requests := A ++ C }
  | answer {x : Sys ι P S σ κ} {A r C} (hr : x.answers = A ++ r :: C) : Lossy W x { x with answers := A ++ C }

abbrev LossyReach (W : Many ι P S σ κ) : Sys ι P S σ κ → Sys ι P S σ κ → Prop := ReflTransGen (Lossy W)

theorem Reach.lossy {x y : Sys ι P S σ κ} (h : Reach W x y) : LossyReach W x y :=
  ReflTransGen.mono (fun _ _ => Lossy.step) _ _ h

/-! ## Losing is delaying -/

theorem Delays.step {x y x' : Sys ι P S σ κ} (h : Delays x y) (hs : Step W x x') :
    ∃ y', Step W y y' ∧ Delays x' y' := by
  obtain ⟨hclient, hsrv, hlog, hcalls, hreq, hans⟩ := h
  cases hs with
  | call v' c hi =>
    refine ⟨_, .call v' c (hclient ▸ hi), ⟨?_, hsrv, hlog, hcalls, hreq, hans⟩⟩
    rw [hclient]
  | send hi =>
    refine ⟨_, .send (hclient ▸ hi), ⟨?_, hsrv, hlog, hcalls, (List.subperm_append_right _).2 hreq, hans⟩⟩
    rw [hclient]
  | serve hp hserve =>
    rw [hp] at hreq
    obtain ⟨A', C', hp'⟩ := List.append_of_mem (hreq.subset (List.mem_append_right _ List.mem_cons_self))
    rw [hp'] at hreq
    refine ⟨_, .serve hp' (hsrv ▸ hserve), ⟨hclient, rfl, ?_, hcalls, subperm_take hreq,
      (List.subperm_append_right _).2 hans⟩⟩
    rw [hlog]
  | recv hi hr hfor =>
    rw [hr] at hans
    obtain ⟨A', C', hr'⟩ := List.append_of_mem (hans.subset (List.mem_append_right _ List.mem_cons_self))
    rw [hr'] at hans
    refine ⟨_, .recv (hclient ▸ hi) hr' hfor, ⟨?_, hsrv, hlog, hcalls, hreq, subperm_take hans⟩⟩
    rw [hclient]
  | ret hi =>
    refine ⟨_, .ret (hclient ▸ hi), ⟨?_, hsrv, hlog, ?_, hreq, hans⟩⟩
    · rw [hclient]
    · rw [hcalls]

/-- A loss is no step where the packet is only delayed. -/
theorem Delays.lossy {x y x' : Sys ι P S σ κ} (h : Delays x y) (hs : Lossy W x x') :
    Delays x' y ∨ ∃ y', Step W y y' ∧ Delays x' y' := by
  cases hs with
  | step hs    => exact .inr (h.step hs)
  | request hp => exact .inl { h with requests := (sublist_take ..).subperm.trans (hp ▸ h.requests) }
  | answer hr  => exact .inl { h with answers := (sublist_take ..).subperm.trans (hr ▸ h.answers) }

theorem Delays.run {x y x' : Sys ι P S σ κ} (h : Delays x y) (hs : LossyReach W x x') :
    ∃ y', Reach W y y' ∧ Delays x' y' := by
  induction hs with
  | refl => exact ⟨y, .refl, h⟩
  | tail _ hs ih =>
    obtain ⟨y₁, hy, h₁⟩ := ih
    rcases h₁.lossy hs with h₂ | ⟨y₂, hs₂, h₂⟩
    · exact ⟨y₁, hy, h₂⟩
    · exact ⟨y₂, hy.tail hs₂, h₂⟩

/-- **A run with losses is a run without them**, in which the lost packets are never taken. -/
theorem Lossy.delays {x₀ x : Sys ι P S σ κ} (h : LossyReach W x₀ x) : ∃ y, Reach W x₀ y ∧ Delays x y :=
  (Delays.refl x₀).run h

/-- A call whose request is lost, while nothing else is in flight. -/
theorem reach_lost {f : ι → Client P σ κ} {t : S} {L : List (P × P)} {K : ι → List (σ × κ × σ)} {i : ι} {v : σ}
    (h : f i = .idle v) (v' : σ) (c : κ) : LossyReach W ⟨f, [], [], t, L, K⟩
      ⟨update f i (.busy v' c (.recv (fun r => .ret (W.out i v' c r)))), [], [], t, L, K⟩ := by
  let g : Prog P σ → ι → Client P σ κ := fun m => update f i (.busy v' c m)
  have hcall : Step W ⟨f, [], [], t, L, K⟩ ⟨g (W.prog i v' c), [], [], t, L, K⟩ := .call v' c h
  have hprog : g (W.prog i v' c) i = .busy v' c (request (W.req i v' c) (W.out i v' c)) := by
    rw [W.prog_eq]
    exact update_self ..
  have hsend := Step.send (W := W) (x := ⟨g (W.prog i v' c), [], [], t, L, K⟩) hprog
  have hlost := Lossy.request (W := W) (A := []) (C := [])
    (x := ⟨g (.recv (fun r => .ret (W.out i v' c r))), [W.req i v' c], [], t, L, K⟩) rfl
  simp only [g, Function.update_idem] at hsend
  exact .head (.step hcall) (.head (.step hsend) (.single hlost))

/-! ## What a loss costs -/

section Hung

variable {s₀ : S} {x y x' : Sys ι P S σ κ} {i : ι}

/-- No step is the hung client's own, and none of the others brings it a packet. -/
theorem Hung.step (hy : Inv W s₀ y) (hd : Delays x y) (h : Hung W i x) (hs : Step W x x') :
    Hung W i x' ∧ x'.client i = x.client i := by
  obtain ⟨v, c, k, hk⟩ := h.waits
  cases hs with
  | @call j w v' c' hj =>
    have hne : i ≠ j := fun he => by rw [he, hj] at hk; cases hk
    have hi : update x.client j (.busy v' c' (W.prog j v' c')) i = x.client i := update_of_ne hne ..
    exact ⟨h.of_subset hi (List.Subset.refl _) (List.Subset.refl _), hi⟩
  | @send j w d p m hj =>
    have hne : i ≠ j := fun he => by rw [he, hj] at hk; cases hk
    have hp := hy.phase j
    rw [hd.client, hj] at hp
    have hmine : W.mine i p = false := mine_of_ne hp.send.1 hne
    refine ⟨⟨⟨v, c, k, (update_of_ne hne ..).trans hk⟩, fun q hq => ?_, h.answers⟩, update_of_ne hne ..⟩
    rcases List.mem_append.1 hq with hq | hq
    · exact h.requests q hq
    · rw [List.mem_singleton.1 hq]
      exact hmine
  | @serve A p C s r hp hserve =>
    have hfor : W.forMe i r = false := (W.answer i _ _ _ _ hserve).trans (h.requests p (by rw [hp]; simp))
    refine ⟨⟨h.waits, fun q hq => h.requests q (subset_take hp hq), fun q hq => ?_⟩, rfl⟩
    rcases List.mem_append.1 hq with hq | hq
    · exact h.answers q hq
    · rw [List.mem_singleton.1 hq]
      exact hfor
  | @recv j w d m A r C hj hr hfor =>
    have hne : i ≠ j := fun he => by
      have hno := h.answers r (by rw [hr]; simp)
      rw [he, hfor] at hno
      cases hno
    have hi : update x.client j (.busy w d (m r)) i = x.client i := update_of_ne hne ..
    exact ⟨h.of_subset hi (List.Subset.refl _) (subset_take hr), hi⟩
  | @ret j w d v' hj =>
    have hne : i ≠ j := fun he => by rw [he, hj] at hk; cases hk
    have hi : update x.client j (.idle v') i = x.client i := update_of_ne hne ..
    exact ⟨h.of_subset hi (List.Subset.refl _) (List.Subset.refl _), hi⟩

theorem Hung.lossy (hy : Inv W s₀ y) (hd : Delays x y) (h : Hung W i x) (hs : Lossy W x x') :
    Hung W i x' ∧ x'.client i = x.client i := by
  cases hs with
  | step hs    => exact h.step hy hd hs
  | request hp => exact ⟨h.of_subset rfl (subset_take hp) (List.Subset.refl _), rfl⟩
  | answer hr  => exact ⟨h.of_subset rfl (List.Subset.refl _) (subset_take hr), rfl⟩

/-- **A hung client stays where it is.** -/
theorem Hung.run (hy : Inv W s₀ y) (hd : Delays x y) (h : Hung W i x) (hs : LossyReach W x x') :
    Hung W i x' ∧ x'.client i = x.client i := by
  -- along with the run without losses, whose invariant says whose the requests of the others are
  suffices (∃ y', Inv W s₀ y' ∧ Delays x' y') ∧ Hung W i x' ∧ x'.client i = x.client i from this.2
  induction hs with
  | refl => exact ⟨⟨y, hy, hd⟩, h, rfl⟩
  | tail _ hs ih =>
    obtain ⟨⟨y₁, hy₁, hd₁⟩, h₁, he₁⟩ := ih
    obtain ⟨h₂, he₂⟩ := h₁.lossy hy₁ hd₁ hs
    refine ⟨?_, h₂, he₂.trans he₁⟩
    rcases hd₁.lossy hs with hd₂ | ⟨y₂, hs₂, hd₂⟩
    · exact ⟨y₁, hy₁, hd₂⟩
    · exact ⟨y₂, hy₁.step hs₂, hd₂⟩

/-- **A call can return if and only if no packet of it was lost**, where the servers can take its request. -/
theorem Delays.can_return_iff {s : S} {r : P} {v : σ} {c : κ} {m : Prog P σ} (hy : Inv W s₀ y) (hd : Delays x y)
    (h : x.client i = .busy v c m) (hs : W.serve x.srv (W.req i v c) s r) :
    (∃ x' v', LossyReach W x x' ∧ x'.client i = .idle v') ↔ ¬ Hung W i x := by
  constructor
  · rintro ⟨x', v', hr, hv⟩ hh
    have he := (hh.run hy hd hr).2
    rw [hv, h] at he
    cases he
  · intro hno
    suffices ∃ x' v', Reach W x x' ∧ x'.client i = .idle v' from
      let ⟨x', v', hr, hv⟩ := this
      ⟨x', v', hr.lossy, hv⟩
    have hi := hy.phase i
    rw [hd.client, h] at hi
    generalize hq : y.requests.filter (W.mine i) = q at hi
    generalize ha : y.answers.filter (W.forMe i) = a at hi
    generalize logOf W i y.log = L at hi
    cases hi with
    | ready => exact can_send (by rw [h, W.prog_eq]) (W.req_mine i v c) hs
    | sent =>
      rcases mem_of_not_hung hno h with ⟨p, hp, hmine⟩ | ⟨t, ht, hfor⟩
      · obtain rfl := eq_of_filter_singleton hq (hd.requests.subset hp) hmine
        exact can_serve h hp hmine hs
      · exact absurd hfor (List.filter_eq_nil_iff.1 ha t (hd.answers.subset ht))
    | answered =>
      rcases mem_of_not_hung hno h with ⟨p, hp, hmine⟩ | ⟨t, ht, hfor⟩
      · exact absurd hmine (List.filter_eq_nil_iff.1 hq p (hd.requests.subset hp))
      · exact can_recv h ht hfor
    | got => exact can_ret h

end Hung

end Clients
end Bb
