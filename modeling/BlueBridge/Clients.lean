import BlueBridge.Wire
import Mathlib.Data.List.Forall2
/-!
# Clients — many clients of atomic servers

Any number of clients, each making one call after another; a call sends a request and takes its answer.  Requests and
answers are in flight in any order, and the servers take one request at a time.  What the clients see is what one
sequential run of the servers does: the log of the requests served, with their answers, is such a run (`Served`), and
the completed calls of every client are its part of the log, in order and with the logged answers (`Phase.matched`).  A
call is never stuck: it can return as soon as the servers can take its request (`Inv.can_return`).
-/
namespace Bb
namespace Clients

open Wire (Prog request)
open Function (update update_self update_of_ne)
open Relation (ReflTransGen)

/-- The servers, the program of a call of client `i` with variables `v`, which sends `req` and makes `out` of the
answer, and whose a packet is. -/
structure Many (ι P S σ κ : Type) where
  serve : S → P → S → P → Prop
  prog : ι → σ → κ → Prog P σ
  req : ι → σ → κ → P
  out : ι → σ → κ → P → σ
  prog_eq : ∀ i v c, prog i v c = request (req i v c) (out i v c)
  mine : ι → P → Bool
  forMe : ι → P → Bool
  req_mine : ∀ i v c, mine i (req i v c) = true
  mine_unique : ∀ i j p, mine i p = true → mine j p = true → i = j
  forMe_unique : ∀ i j r, forMe i r = true → forMe j r = true → i = j
  answer : ∀ i s p s' r, serve s p s' r → forMe i r = mine i p

inductive Client (P σ κ : Type) where
  | idle (v : σ)
  | busy (v : σ) (c : κ) (m : Prog P σ)

/-- The clients, the packets in flight and the servers; what has been served, and every client's completed calls with
its variables before and after. -/
structure Sys (ι P S σ κ : Type) where
  client : ι → Client P σ κ
  requests : List P
  answers : List P
  srv : S
  log : List (P × P)
  calls : ι → List (σ × κ × σ)

variable {ι P S σ κ : Type} {W : Many ι P S σ κ}

/-- A sequential run of the servers. -/
inductive Served (W : Many ι P S σ κ) (s₀ : S) : List (P × P) → S → Prop
  | nil : Served W s₀ [] s₀
  | snoc {L s p s' r} : Served W s₀ L s → W.serve s p s' r → Served W s₀ (L ++ [(p, r)]) s'

/-- What holds of every state a sequential run of the servers leads to, given the log. -/
theorem Served.induct {s₀ : S} {I : List (P × P) → S → Prop} (h₀ : I [] s₀)
    (hstep : ∀ L s p s' r, I L s → (∃ i v c, p = W.req i v c) → W.serve s p s' r → I (L ++ [(p, r)]) s') :
    ∀ {L s}, Served W s₀ L s → (∀ y ∈ L, ∃ i v c, y.1 = W.req i v c) → I L s
  | _, _, .nil, _ => h₀
  | _, _, .snoc (p := p) (r := r) hs h, hL => by
    refine hstep _ _ _ _ _ (Served.induct h₀ hstep hs (fun y hy => hL y (List.mem_append_left _ hy))) ?_ h
    exact hL (p, r) (by simp)

theorem Served.mem {s₀ : S} : ∀ {L s}, Served W s₀ L s → ∀ y ∈ L, ∃ t t', W.serve t y.1 t' y.2
  | _, _, .nil, _, hy => absurd hy List.not_mem_nil
  | _, _, .snoc hs h, y, hy => by
    rcases List.mem_append.mp hy with hy | hy
    · exact Served.mem hs y hy
    · cases List.mem_singleton.mp hy
      exact ⟨_, _, h⟩

/-- The completed calls of a client and its part of the log. -/
def Matched (W : Many ι P S σ κ) (i : ι) : List (σ × κ × σ) → List (P × P) → Prop :=
  List.Forall₂ (fun x y => y.1 = W.req i x.1 x.2.1 ∧ x.2.2 = W.out i x.1 x.2.1 y.2)

/-! ## One client -/

/-- Where a client is with its current call, given its requests and answers in flight, its completed calls and its part
of the log. -/
inductive Phase (W : Many ι P S σ κ) (i : ι) :
    Client P σ κ → List P → List P → List (σ × κ × σ) → List (P × P) → Prop
  | idle {v cs L} : Matched W i cs L → Phase W i (.idle v) [] [] cs L
  | ready {v c cs L} : Matched W i cs L → Phase W i (.busy v c (W.prog i v c)) [] [] cs L
  | sent {v c cs L} : Matched W i cs L →
      Phase W i (.busy v c (.recv (fun r => .ret (W.out i v c r)))) [W.req i v c] [] cs L
  | answered {v c cs L r} : Matched W i cs L →
      Phase W i (.busy v c (.recv (fun r => .ret (W.out i v c r)))) [] [r] cs (L ++ [(W.req i v c, r)])
  | got {v c cs L r} : Matched W i cs L →
      Phase W i (.busy v c (.ret (W.out i v c r))) [] [] cs (L ++ [(W.req i v c, r)])

section Phase

variable {i : ι} {v v' : σ} {c : κ} {req ans : List P} {cs : List (σ × κ × σ)} {L : List (P × P)}

theorem Phase.call (h : Phase W i (.idle v) req ans cs L) (v' : σ) (c : κ) :
    Phase W i (.busy v' c (W.prog i v' c)) req ans cs L := by
  cases h with
  | idle hm => exact .ready hm

theorem Phase.send {p : P} {k : Prog P σ} (h : Phase W i (.busy v c (.send p k)) req ans cs L) :
    W.mine i p = true ∧ p = W.req i v c ∧ Phase W i (.busy v c k) (req ++ [p]) ans cs L := by
  generalize hx : Client.busy v c (Prog.send p k) = x at h
  cases h with
  | ready hm =>
    rw [W.prog_eq] at hx
    cases hx
    exact ⟨W.req_mine i v c, rfl, .sent hm⟩
  | _ => cases hx

theorem Phase.serve {x : Client P σ κ} {A C : List P} {p r : P} (h : Phase W i x (A ++ p :: C) ans cs L) :
    Phase W i x (A ++ C) (ans ++ [r]) cs (L ++ [(p, r)]) := by
  generalize hq : A ++ p :: C = q at h
  cases h with
  | sent hm =>
    obtain ⟨rfl, rfl, rfl⟩ : A = [] ∧ p = _ ∧ C = [] := by simpa [List.append_eq_singleton_iff] using hq
    exact .answered hm
  | _ => simp at hq

theorem Phase.recv {k : P → Prog P σ} {A C : List P} {r : P}
    (h : Phase W i (.busy v c (.recv k)) req (A ++ r :: C) cs L) : Phase W i (.busy v c (k r)) req (A ++ C) cs L := by
  generalize hx : Client.busy v c (Prog.recv k) = x at h
  generalize ha : A ++ r :: C = a at h
  cases h with
  | answered hm =>
    obtain ⟨rfl, rfl, rfl⟩ : A = [] ∧ r = _ ∧ C = [] := by simpa [List.append_eq_singleton_iff] using ha
    cases hx
    exact .got hm
  | _ => simp at ha

theorem Phase.ret (h : Phase W i (.busy v c (.ret v')) req ans cs L) :
    Phase W i (.idle v') req ans (cs ++ [(v, c, v')]) L := by
  generalize hx : Client.busy v c (Prog.ret v') = x at h
  cases h with
  | got hm =>
    cases hx
    exact .idle (List.rel_append hm (.cons ⟨rfl, rfl⟩ .nil))
  | ready hm => rw [W.prog_eq] at hx; cases hx
  | _ => cases hx

/-- The completed calls are the client's part of the log, but for a last call that is not completed. -/
theorem Phase.matched {x : Client P σ κ} (h : Phase W i x req ans cs L) :
    ∃ L' rest, L = L' ++ rest ∧ Matched W i cs L' ∧ rest.length ≤ 1 ∧ ((∃ v, x = .idle v) → rest = []) := by
  cases h with
  | idle hm | ready hm | sent hm => exact ⟨L, [], by simp, hm, by simp, fun _ => rfl⟩
  | answered hm | got hm => exact ⟨_, _, rfl, hm, by simp, by simp⟩

end Phase

/-! ## All clients -/

/-- A client's part of the log. -/
def logOf (W : Many ι P S σ κ) (i : ι) (L : List (P × P)) : List (P × P) := L.filter (fun y => W.mine i y.1)

theorem mine_of_ne {i j : ι} {p : P} (h : W.mine i p = true) (hj : j ≠ i) : W.mine j p = false :=
  Bool.eq_false_iff.mpr (fun hp => hj (W.mine_unique j i p hp h))

theorem forMe_of_ne {i j : ι} {r : P} (h : W.forMe i r = true) (hj : j ≠ i) : W.forMe j r = false :=
  Bool.eq_false_iff.mpr (fun hr => hj (W.forMe_unique j i r hr h))

/-- A packet that is not one's own does not change what one has in flight. -/
theorem filter_drop {f : P → Bool} {p : P} (h : f p = false) (A C : List P) :
    (A ++ p :: C).filter f = (A ++ C).filter f := by
  simp [h]

theorem filter_snoc {f : P → Bool} {p : P} (h : f p = true) (A : List P) : (A ++ [p]).filter f = A.filter f ++ [p] := by
  simp [h]

theorem logOf_snoc_mine {i : ι} {p r : P} (h : W.mine i p = true) (L : List (P × P)) :
    logOf W i (L ++ [(p, r)]) = logOf W i L ++ [(p, r)] := by
  simp [logOf, h]

theorem logOf_snoc_other {i : ι} {p r : P} (h : W.mine i p = false) (L : List (P × P)) :
    logOf W i (L ++ [(p, r)]) = logOf W i L := by
  simp [logOf, h]

structure Inv (W : Many ι P S σ κ) (s₀ : S) (x : Sys ι P S σ κ) : Prop where
  phase : ∀ i, Phase W i (x.client i) (x.requests.filter (W.mine i)) (x.answers.filter (W.forMe i)) (x.calls i)
    (logOf W i x.log)
  served : Served W s₀ x.log x.srv
  inFlight : ∀ p ∈ x.requests, ∃ i v c, p = W.req i v c
  logged : ∀ y ∈ x.log, ∃ i v c, y.1 = W.req i v c

variable [DecidableEq ι]

/-- Between calls a client may change its variables. -/
inductive Step (W : Many ι P S σ κ) : Sys ι P S σ κ → Sys ι P S σ κ → Prop
  | call {x : Sys ι P S σ κ} {i v} (v' : σ) (c : κ) (h : x.client i = .idle v) :
      Step W x { x with client := update x.client i (.busy v' c (W.prog i v' c)) }
  | send {x : Sys ι P S σ κ} {i v c p k} (h : x.client i = .busy v c (.send p k)) :
      Step W x { x with client := update x.client i (.busy v c k), requests := x.requests ++ [p] }
  | serve {x : Sys ι P S σ κ} {A p C s r} (hp : x.requests = A ++ p :: C) (h : W.serve x.srv p s r) :
      Step W x { x with requests := A ++ C, answers := x.answers ++ [r], srv := s, log := x.log ++ [(p, r)] }
  | recv {x : Sys ι P S σ κ} {i v c k A r C} (h : x.client i = .busy v c (.recv k)) (hr : x.answers = A ++ r :: C)
      (hi : W.forMe i r = true) :
      Step W x { x with client := update x.client i (.busy v c (k r)), answers := A ++ C }
  | ret {x : Sys ι P S σ κ} {i v c v'} (h : x.client i = .busy v c (.ret v')) :
      Step W x { x with client := update x.client i (.idle v'), calls := update x.calls i (x.calls i ++ [(v, c, v')]) }

section Inv

variable {s₀ : S} {x : Sys ι P S σ κ}

theorem Inv.call (hx : Inv W s₀ x) {i : ι} {v : σ} (v' : σ) (c : κ) (h : x.client i = .idle v) :
    Inv W s₀ { x with client := update x.client i (.busy v' c (W.prog i v' c)) } := by
  refine ⟨fun j => ?_, hx.served, hx.inFlight, hx.logged⟩
  have hp := hx.phase j
  by_cases hj : j = i
  · subst hj
    rw [h] at hp
    simpa only [update_self] using hp.call v' c
  · simpa only [update_of_ne hj] using hp

theorem Inv.send (hx : Inv W s₀ x) {i : ι} {v : σ} {c : κ} {p : P} {k : Prog P σ}
    (h : x.client i = .busy v c (.send p k)) :
    Inv W s₀ { x with client := update x.client i (.busy v c k), requests := x.requests ++ [p] } := by
  have hi := hx.phase i
  rw [h] at hi
  obtain ⟨hmine, rfl, hk⟩ := hi.send
  refine ⟨fun j => ?_, hx.served, ?_, hx.logged⟩
  · by_cases hj : j = i
    · subst hj
      simpa only [update_self, filter_snoc hmine] using hk
    · simpa only [update_of_ne hj, filter_drop (mine_of_ne hmine hj), List.append_nil] using hx.phase j
  · intro q hq
    rcases List.mem_append.mp hq with hq | hq
    · exact hx.inFlight q hq
    · exact ⟨i, v, c, List.mem_singleton.mp hq⟩

theorem Inv.serve (hx : Inv W s₀ x) {A C : List P} {p r : P} {s : S} (hp : x.requests = A ++ p :: C)
    (h : W.serve x.srv p s r) :
    Inv W s₀ { x with requests := A ++ C, answers := x.answers ++ [r], srv := s, log := x.log ++ [(p, r)] } := by
  obtain ⟨i, v, c, hpi⟩ := hx.inFlight p (by rw [hp]; simp)
  have hmine : W.mine i p = true := by rw [hpi]; exact W.req_mine i v c
  have hfor : ∀ j, W.forMe j r = W.mine j p := fun j => W.answer j _ _ _ _ h
  refine ⟨fun j => ?_, .snoc hx.served h, ?_, ?_⟩
  · have hj := hx.phase j
    rw [hp] at hj
    by_cases hji : j = i
    · subst hji
      rw [List.filter_append, List.filter_cons_of_pos hmine] at hj
      simpa only [List.filter_append A C, filter_snoc ((hfor j).trans hmine), logOf_snoc_mine hmine] using hj.serve
    · have hm := mine_of_ne hmine hji
      rw [filter_drop hm] at hj
      simpa only [filter_drop ((hfor j).trans hm), List.append_nil, logOf_snoc_other hm] using hj
  · intro q hq
    refine hx.inFlight q ?_
    rw [hp]
    exact List.mem_append.mpr ((List.mem_append.mp hq).imp_right (List.mem_cons_of_mem p))
  · intro y hy
    rcases List.mem_append.mp hy with hy | hy
    · exact hx.logged y hy
    · exact ⟨i, v, c, by rw [List.mem_singleton.mp hy, hpi]⟩

theorem Inv.recv (hx : Inv W s₀ x) {i : ι} {v : σ} {c : κ} {k : P → Prog P σ} {A C : List P} {r : P}
    (h : x.client i = .busy v c (.recv k)) (hr : x.answers = A ++ r :: C) (hi : W.forMe i r = true) :
    Inv W s₀ { x with client := update x.client i (.busy v c (k r)), answers := A ++ C } := by
  refine ⟨fun j => ?_, hx.served, hx.inFlight, hx.logged⟩
  have hj := hx.phase j
  rw [hr] at hj
  by_cases hji : j = i
  · subst hji
    rw [h, List.filter_append, List.filter_cons_of_pos hi] at hj
    simpa only [update_self, List.filter_append] using hj.recv
  · rw [filter_drop (forMe_of_ne hi hji)] at hj
    simpa only [update_of_ne hji] using hj

theorem Inv.ret (hx : Inv W s₀ x) {i : ι} {v v' : σ} {c : κ} (h : x.client i = .busy v c (.ret v')) :
    Inv W s₀ { x with
      client := update x.client i (.idle v'), calls := update x.calls i (x.calls i ++ [(v, c, v')]) } := by
  refine ⟨fun j => ?_, hx.served, hx.inFlight, hx.logged⟩
  have hj := hx.phase j
  by_cases hji : j = i
  · subst hji
    rw [h] at hj
    simpa only [update_self] using hj.ret
  · simpa only [update_of_ne hji] using hj

theorem Inv.step {y : Sys ι P S σ κ} (hx : Inv W s₀ x) (h : Step W x y) : Inv W s₀ y := by
  cases h with
  | call v' c h => exact hx.call v' c h
  | send h => exact hx.send h
  | serve hp h => exact hx.serve hp h
  | recv h hr hi => exact hx.recv h hr hi
  | ret h => exact hx.ret h

end Inv

/-! ## Runs -/

abbrev Reach (W : Many ι P S σ κ) : Sys ι P S σ κ → Sys ι P S σ κ → Prop := ReflTransGen (Step W)

/-- No client has made a call. -/
def start (v₀ : ι → σ) (s₀ : S) : Sys ι P S σ κ where
  client := fun i => .idle (v₀ i)
  requests := []
  answers := []
  srv := s₀
  log := []
  calls := fun _ => []

theorem reach_inv {v₀ : ι → σ} {s₀ : S} {x : Sys ι P S σ κ} (h : Reach W (start v₀ s₀) x) : Inv W s₀ x := by
  induction h with
  | refl => exact ⟨fun i => .idle .nil, .nil, by simp [start], by simp [start]⟩
  | tail _ h ih => exact ih.step h

theorem Step.log {x y : Sys ι P S σ κ} (h : Step W x y) :
    y.log = x.log ∧ y.srv = x.srv ∨
      ∃ p r, p ∈ x.requests ∧ W.serve x.srv p y.srv r ∧ y.log = x.log ++ [(p, r)] := by
  cases h with
  | serve hp h => exact .inr ⟨_, _, by rw [hp]; simp, h, rfl⟩
  | _ => exact .inl ⟨rfl, rfl⟩

/-- What has been served stays served, in its place. -/
theorem reach_log {x y : Sys ι P S σ κ} (h : Reach W x y) : ∃ L, y.log = x.log ++ L := by
  induction h with
  | refl => exact ⟨[], (List.append_nil _).symm⟩
  | tail _ hs ih =>
    obtain ⟨L, hL⟩ := ih
    rcases hs.log with ⟨hlog, -⟩ | ⟨p, r, -, -, hlog⟩
    · exact ⟨L, hlog.trans hL⟩
    · exact ⟨L ++ [(p, r)], by rw [hlog, hL, List.append_assoc]⟩

/-- A whole call while nothing is in flight. -/
theorem reach_round {f : ι → Client P σ κ} {t s : S} {L : List (P × P)} {K : ι → List (σ × κ × σ)} {i : ι} {v : σ}
    {r : P} (h : f i = .idle v) (v' : σ) (c : κ) (hs : W.serve t (W.req i v' c) s r) :
    Reach W ⟨f, [], [], t, L, K⟩ ⟨update f i (.idle (W.out i v' c r)), [], [], s, L ++ [(W.req i v' c, r)],
      update K i (K i ++ [(v', c, W.out i v' c r)])⟩ := by
  let g : Prog P σ → ι → Client P σ κ := fun m => update f i (.busy v' c m)
  have hg : ∀ m, g m i = .busy v' c m := fun m => update_self ..
  have hup : ∀ m x, update (g m) i x = update f i x := fun m x => Function.update_idem ..
  have hcall : Step W ⟨f, [], [], t, L, K⟩ ⟨g (W.prog i v' c), [], [], t, L, K⟩ := .call v' c h
  have hprog : g (W.prog i v' c) i = .busy v' c (request (W.req i v' c) (W.out i v' c)) := by rw [hg, W.prog_eq]
  have hsend := Step.send (W := W) (x := ⟨g (W.prog i v' c), [], [], t, L, K⟩) hprog
  have hserve := Step.serve (W := W) (x := ⟨g (.recv (fun r => .ret (W.out i v' c r))), [W.req i v' c], [], t, L, K⟩)
    (A := []) rfl hs
  have hrecv := Step.recv (W := W) (A := [])
    (x := ⟨g (.recv (fun r => .ret (W.out i v' c r))), [], [r], s, L ++ [(W.req i v' c, r)], K⟩)
    (hg _) rfl ((W.answer i _ _ _ _ hs).trans (W.req_mine i v' c))
  have hret := Step.ret (W := W) (x := ⟨g (.ret (W.out i v' c r)), [], [], s, L ++ [(W.req i v' c, r)], K⟩) (hg _)
  simp only [hup] at hsend hrecv hret
  exact .head hcall (.head hsend (.head hserve (.head hrecv (.single hret))))

/-! ## No call is stuck -/

section Return

variable {x : Sys ι P S σ κ} {i : ι} {v v' : σ} {c : κ}

theorem can_ret (h : x.client i = .busy v c (.ret v')) : ∃ y v', Reach W x y ∧ y.client i = .idle v' :=
  ⟨_, v', .single (.ret h), update_self ..⟩

theorem can_recv {f : P → σ} {r : P} (h : x.client i = .busy v c (.recv (fun r => .ret (f r)))) (hr : r ∈ x.answers)
    (hi : W.forMe i r = true) : ∃ y v', Reach W x y ∧ y.client i = .idle v' := by
  obtain ⟨A, C, hAC⟩ := List.append_of_mem hr
  obtain ⟨y, v', hy, hv⟩ := can_ret (W := W) (x := { x with
    client := update x.client i (.busy v c (.ret (f r))), answers := A ++ C }) (update_self ..)
  exact ⟨y, v', .head (.recv h hAC hi) hy, hv⟩

theorem can_serve {f : P → σ} {p r : P} {s : S} (h : x.client i = .busy v c (.recv (fun r => .ret (f r))))
    (hp : p ∈ x.requests) (hi : W.mine i p = true) (hs : W.serve x.srv p s r) :
    ∃ y v', Reach W x y ∧ y.client i = .idle v' := by
  obtain ⟨A, C, hAC⟩ := List.append_of_mem hp
  have hr : W.forMe i r = true := (W.answer i _ _ _ _ hs).trans hi
  obtain ⟨y, v', hy, hv⟩ := can_recv (W := W) (x := { x with
    requests := A ++ C, answers := x.answers ++ [r], srv := s, log := x.log ++ [(p, r)] }) h (by simp) hr
  exact ⟨y, v', .head (.serve hAC hs) hy, hv⟩

theorem can_send {p r : P} {f : P → σ} {s : S} (h : x.client i = .busy v c (request p f)) (hi : W.mine i p = true)
    (hs : W.serve x.srv p s r) : ∃ y v', Reach W x y ∧ y.client i = .idle v' := by
  obtain ⟨y, v', hy, hv⟩ := can_serve (W := W) (x := { x with
    client := update x.client i (.busy v c (.recv (fun r => .ret (f r)))), requests := x.requests ++ [p] })
    (update_self ..) (by simp) hi hs
  exact ⟨y, v', .head (.send h) hy, hv⟩

/-- **A call can return whenever the servers can take its request.** -/
theorem Inv.can_return {s₀ s : S} {r : P} {m : Prog P σ} (hx : Inv W s₀ x) (h : x.client i = .busy v c m)
    (hs : W.serve x.srv (W.req i v c) s r) : ∃ y v', Reach W x y ∧ y.client i = .idle v' := by
  have hi := hx.phase i
  rw [h] at hi
  generalize hq : x.requests.filter (W.mine i) = q at hi
  generalize ha : x.answers.filter (W.forMe i) = a at hi
  generalize logOf W i x.log = L at hi
  cases hi with
  | ready => exact can_send (by rw [h, W.prog_eq]) (W.req_mine i v c) hs
  | sent =>
    refine can_serve h (List.mem_of_mem_filter (p := W.mine i) ?_) (W.req_mine i v c) hs
    rw [hq]
    exact List.mem_singleton_self _
  | answered =>
    have hr := ha ▸ List.mem_singleton_self _
    exact can_recv h (List.mem_of_mem_filter hr) (List.of_mem_filter hr)
  | got => exact can_ret h

end Return

end Clients
end Bb
