import Mathlib.Data.List.Dedup
import Mathlib.Logic.Relation
/-!
# Wire — a program that sends and receives, and the servers that answer it

`Prog` is a client: it sends requests, waits for answers and returns.  `Wire` is the other side: servers that take one
request at a time and may answer it, and a network that loses and duplicates nothing.  A request in flight may be served
before or after any other; with `fifo`, not before an earlier one of its own link.  Answers arrive in any order.

`Ends W Q c` is total correctness: every run from `c` returns, and `Q` holds when it does.  `ends_bind` composes
programs, `ends_of_inv` proves a program from an invariant: no run is infinite, so the invariant only owes that a
program that has not returned can move.  `Burst` is the invariant of the one shape every client function here has: send
a list of requests, then take a number of answers.
-/
namespace Bb
namespace Wire

open Relation (ReflTransGen)

inductive Prog (P α : Type) where
  | ret (a : α)
  | fail
  | send (p : P) (k : Prog P α)
  | recv (k : P → Prog P α)

variable {P S L α β σ : Type}

def Prog.bind : Prog P α → (α → Prog P β) → Prog P β
  | .ret a,    f => f a
  | .fail,     _ => .fail
  | .send p k, f => .send p (k.bind f)
  | .recv k,   f => .recv (fun p => (k p).bind f)

instance : Monad (Prog P) where
  pure := .ret
  bind := .bind

@[simp] theorem Prog.pure_eq (a : α) : (pure a : Prog P α) = .ret a := rfl
@[simp] theorem Prog.bind_eq (m : Prog P α) (f : α → Prog P β) : m >>= f = m.bind f := rfl
@[simp] theorem Prog.ret_bind (a : α) (f : α → Prog P β) : (Prog.ret a : Prog P α).bind f = f a := rfl

theorem Prog.bind_assoc {γ : Type} (f : α → Prog P β) (g : β → Prog P γ) : ∀ m : Prog P α,
    (m.bind f).bind g = m.bind (fun a => (f a).bind g)
  | .ret _ => rfl
  | .fail => rfl
  | .send p k => congrArg (Prog.send p) (Prog.bind_assoc f g k)
  | .recv k => congrArg Prog.recv (funext (fun p => Prog.bind_assoc f g (k p)))

/-- What a program returns that is given these answers, whoever they are from. -/
def Prog.feed : Prog P α → List P → Option α
  | .ret a,    _       => some a
  | .fail,     _       => none
  | .send _ k, ps      => k.feed ps
  | .recv _,   []      => none
  | .recv k,   p :: ps => (k p).feed ps

/-- The servers and the network's discipline: with `fifo`, requests of one link are served in the order sent. -/
structure Net (P S L : Type) where
  serve : S → P → S × List P
  fifo : Prop
  link : P → L

/-- A client and what surrounds it: the requests in flight, the servers' state, the requests they have served, the
answers in flight and those received. -/
structure Conf (P S α : Type) where
  prog : Prog P α
  flight : List P
  srv : S
  served : List P
  answers : List P
  rcvd : List P

inductive Step (W : Net P S L) : Conf P S α → Conf P S α → Prop
  | send {p k fl s d an rc} : Step W ⟨.send p k, fl, s, d, an, rc⟩ ⟨k, fl ++ [p], s, d, an, rc⟩
  | serve {m A p C s d an rc} (h : W.fifo → ∀ q ∈ A, W.link q ≠ W.link p) :
      Step W ⟨m, A ++ p :: C, s, d, an, rc⟩ ⟨m, A ++ C, (W.serve s p).1, d ++ [p], an ++ (W.serve s p).2, rc⟩
  | recv {k fl s d A p C rc} : Step W ⟨.recv k, fl, s, d, A ++ p :: C, rc⟩ ⟨k p, fl, s, d, A ++ C, rc ++ [p]⟩

abbrev Reach (W : Net P S L) : Conf P S α → Conf P S α → Prop := ReflTransGen (Step W)

/-- A client about to run `m`, nothing in flight. -/
def start (m : Prog P α) (s : S) : Conf P S α := ⟨m, [], s, [], [], []⟩

/-- **Every run returns, and `Q` holds when it does.** -/
inductive Ends (W : Net P S L) (Q : α → Conf P S α → Prop) : Conf P S α → Prop
  | ret {c a} : c.prog = .ret a → Q a c → Ends W Q c
  | step {c} : (∀ a, c.prog ≠ .ret a) → (∃ c', Step W c c') → (∀ c', Step W c c' → Ends W Q c') → Ends W Q c

theorem Ends.mono {W : Net P S L} {Q Q' : α → Conf P S α → Prop} {c : Conf P S α} (h : Ends W Q c)
    (hq : ∀ a c, Q a c → Q' a c) : Ends W Q' c := by
  induction h with
  | ret hp hQ => exact .ret hp (hq _ _ hQ)
  | step hp he _ ih => exact .step hp he ih

/-! ## Composition -/

def Conf.bind (c : Conf P S α) (f : α → Prog P β) : Conf P S β :=
  ⟨c.prog.bind f, c.flight, c.srv, c.served, c.answers, c.rcvd⟩

theorem Step.bind {W : Net P S L} {c c' : Conf P S α} (h : Step W c c') (f : α → Prog P β) :
    Step W (c.bind f) (c'.bind f) := by
  cases h with
  | send => exact .send
  | serve h => exact .serve h
  | recv => exact .recv

/-- While the first program has not returned, the steps of the composition are its steps. -/
theorem Step.of_bind {W : Net P S L} {c : Conf P S α} {f : α → Prog P β} {d : Conf P S β}
    (hp : ∀ a, c.prog ≠ .ret a) (h : Step W (c.bind f) d) : ∃ c', Step W c c' ∧ d = c'.bind f := by
  obtain ⟨m, fl, s, dn, an, rc⟩ := c
  generalize hc : Conf.bind ⟨m, fl, s, dn, an, rc⟩ f = e at h
  cases h with
  | send =>
    simp only [Conf.bind, Conf.mk.injEq] at hc
    obtain ⟨hm, rfl, rfl, rfl, rfl, rfl⟩ := hc
    cases m with
    | ret a => exact absurd rfl (hp a)
    | fail => cases hm
    | recv k => cases hm
    | send p k => cases hm; exact ⟨_, .send, rfl⟩
  | serve h =>
    simp only [Conf.bind, Conf.mk.injEq] at hc
    obtain ⟨rfl, rfl, rfl, rfl, rfl, rfl⟩ := hc
    exact ⟨_, .serve h, rfl⟩
  | recv =>
    simp only [Conf.bind, Conf.mk.injEq] at hc
    obtain ⟨hm, rfl, rfl, rfl, rfl, rfl⟩ := hc
    cases m with
    | ret a => exact absurd rfl (hp a)
    | fail => cases hm
    | send p k => cases hm
    | recv k => cases hm; exact ⟨_, .recv, rfl⟩

theorem Prog.bind_eq_ret {m : Prog P α} {f : α → Prog P β} {b : β} (h : m.bind f = .ret b) :
    ∃ a, m = .ret a ∧ f a = .ret b := by
  cases m with
  | ret a => exact ⟨a, rfl, h⟩
  | fail => cases h
  | send p k => cases h
  | recv k => cases h

theorem Prog.bind_ne_ret {m : Prog P α} {f : α → Prog P β} (hp : ∀ a, m ≠ .ret a) (b : β) : m.bind f ≠ .ret b := by
  intro h
  obtain ⟨a, ha, -⟩ := Prog.bind_eq_ret h
  exact hp a ha

/-- **Sequencing**: what follows starts from where the first program returned. -/
theorem ends_bind {W : Net P S L} {Q : α → Conf P S α → Prop} {Q' : β → Conf P S β → Prop} {f : α → Prog P β}
    {c : Conf P S α} (h : Ends W Q c)
    (hf : ∀ a c, Q a c → Ends W Q' ⟨f a, c.flight, c.srv, c.served, c.answers, c.rcvd⟩) : Ends W Q' (c.bind f) := by
  induction h with
  | @ret c a hp hQ =>
    have := hf a c hQ
    rwa [Conf.bind, hp]
  | @step c hp he _ ih =>
    refine .step (fun b => Prog.bind_ne_ret hp b) ?_ ?_
    · obtain ⟨c', h'⟩ := he
      exact ⟨_, h'.bind f⟩
    · intro d hd
      obtain ⟨c', h', rfl⟩ := Step.of_bind hp hd
      exact ih c' h'

/-- Conversely, a composition returns only through its first program. -/
theorem ends_of_bind {W : Net P S L} {Q : β → Conf P S β → Prop} {f : α → Prog P β} {d : Conf P S β} (h : Ends W Q d) :
    ∀ c : Conf P S α, d = c.bind f →
      Ends W (fun a c => Ends W Q ⟨f a, c.flight, c.srv, c.served, c.answers, c.rcvd⟩) c := by
  induction h with
  | @ret d b hp hQ =>
    rintro c rfl
    have hm : c.prog.bind f = .ret b := hp
    cases hc : c.prog with
    | ret a =>
      rw [hc] at hm
      exact .ret hc (.ret hm (by rwa [Conf.bind, hc] at hQ))
    | fail => rw [hc] at hm; cases hm
    | send p k => rw [hc] at hm; cases hm
    | recv k => rw [hc] at hm; cases hm
  | @step d hp he hs ih =>
    rintro c rfl
    by_cases hr : ∃ a, c.prog = .ret a
    · obtain ⟨a, ha⟩ := hr
      have := Ends.step hp he hs
      rw [Conf.bind, ha] at this
      exact .ret ha this
    · have hr' : ∀ a, c.prog ≠ .ret a := fun a ha => hr ⟨a, ha⟩
      obtain ⟨d', hd⟩ := he
      obtain ⟨c', hc', -⟩ := Step.of_bind hr' hd
      exact .step hr' ⟨c', hc'⟩ (fun c'' hc'' => ih _ (hc''.bind f) c'' rfl)

theorem Ends.and {W : Net P S L} {Q Q' : α → Conf P S α → Prop} {c : Conf P S α} (h : Ends W Q c) (h' : Ends W Q' c) :
    Ends W (fun a c => Q a c ∧ Q' a c) c := by
  induction h with
  | ret hp hQ =>
    cases h' with
    | ret hp' hQ' =>
      rw [hp] at hp'
      cases hp'
      exact .ret hp ⟨hQ, hQ'⟩
    | step hn => exact absurd hp (hn _)
  | step hp he _ ih =>
    cases h' with
    | ret hp' => exact absurd hp' (hp _)
    | step _ _ hs' => exact .step hp he (fun c' hc => ih c' hc (hs' c' hc))

theorem Ends.returns {W : Net P S L} {Q : α → Conf P S α → Prop} {c : Conf P S α} (h : Ends W Q c) :
    ∃ a c', Reach W c c' ∧ c'.prog = .ret a ∧ Q a c' := by
  induction h with
  | ret hp hQ => exact ⟨_, _, .refl, hp, hQ⟩
  | step _ he _ ih =>
    obtain ⟨c', hc⟩ := he
    obtain ⟨a, c'', hr, hret⟩ := ih c' hc
    exact ⟨a, c'', .head hc hr, hret⟩

theorem Ends.of_ret {W : Net P S L} {Q : α → Conf P S α → Prop} {c : Conf P S α} {a : α} (h : Ends W Q c)
    (hp : c.prog = .ret a) : Q a c := by
  cases h with
  | ret hp' hQ =>
    rw [hp] at hp'
    cases hp'
    exact hQ
  | step hn => exact absurd hp (hn a)

theorem not_ends_fail {W : Net P S L} {Q : α → Conf P S α → Prop} {c : Conf P S α} (hc : c.prog = .fail) :
    ¬ Ends W Q c := by
  intro h
  induction h with
  | ret hp => rw [hc] at hp; cases hp
  | step _ he _ ih =>
    obtain ⟨c', hs⟩ := he
    refine ih c' hs ?_
    cases hs with
    | send => cases hc
    | serve => exact hc
    | recv => cases hc

/-! ## No run is infinite -/

/-- A step either moves the program on or serves a request. -/
theorem Step.cases {W : Net P S L} {c c' : Conf P S α} (h : Step W c c') :
    (∃ p, c.prog = .send p c'.prog) ∨ (∃ k p, c.prog = .recv k ∧ c'.prog = k p) ∨
      (c'.prog = c.prog ∧ c'.flight.length < c.flight.length) := by
  cases h with
  | send => exact .inl ⟨_, rfl⟩
  | serve h => exact .inr (.inr ⟨rfl, by simp⟩)
  | recv => exact .inr (.inl ⟨_, _, rfl, rfl⟩)

theorem acc_of_prog {W : Net P S L} {m : Prog P α}
    (hm : ∀ c c' : Conf P S α, c.prog = m → Step W c c' →
      (c'.prog = m ∧ c'.flight.length < c.flight.length) ∨ Acc (fun c' c => Step W c c') c')
    (c : Conf P S α) (hc : c.prog = m) : Acc (fun c' c => Step W c c') c := by
  generalize hn : c.flight.length = n
  induction n using Nat.strongRecOn generalizing c with
  | ind n ih =>
    refine Acc.intro c (fun c' h => ?_)
    rcases hm c c' hc h with ⟨hp, hl⟩ | hacc
    · exact ih _ (hn ▸ hl) c' hp rfl
    · exact hacc

/-- **Every run is finite**: the program shrinks with each of its own steps and the flight with each other. -/
theorem step_acc (W : Net P S L) : ∀ (m : Prog P α) (c : Conf P S α), c.prog = m → Acc (fun c' c => Step W c c') c := by
  intro m
  induction m with
  | ret a =>
    refine acc_of_prog (fun c c' hc h => .inl ?_)
    rcases h.cases with ⟨p, hp⟩ | ⟨k, p, hp, -⟩ | ⟨hp, hl⟩
    · rw [hc] at hp; cases hp
    · rw [hc] at hp; cases hp
    · exact ⟨hp.trans hc, hl⟩
  | fail =>
    refine acc_of_prog (fun c c' hc h => .inl ?_)
    rcases h.cases with ⟨p, hp⟩ | ⟨k, p, hp, -⟩ | ⟨hp, hl⟩
    · rw [hc] at hp; cases hp
    · rw [hc] at hp; cases hp
    · exact ⟨hp.trans hc, hl⟩
  | send p k ih =>
    refine acc_of_prog (fun c c' hc h => ?_)
    rcases h.cases with ⟨q, hp⟩ | ⟨k', q, hp, -⟩ | ⟨hp, hl⟩
    · rw [hc] at hp; cases hp; exact .inr (ih c' rfl)
    · rw [hc] at hp; cases hp
    · exact .inl ⟨hp.trans hc, hl⟩
  | recv k ih =>
    refine acc_of_prog (fun c c' hc h => ?_)
    rcases h.cases with ⟨q, hp⟩ | ⟨k', q, hp, hp'⟩ | ⟨hp, hl⟩
    · rw [hc] at hp; cases hp
    · rw [hc] at hp; cases hp; exact .inr (ih q c' hp')
    · exact .inl ⟨hp.trans hc, hl⟩

/-- **An invariant under which a program that has not returned can move holds when it returns**, as it does. -/
theorem ends_of_inv {W : Net P S L} (I : Conf P S α → Prop) (hstep : ∀ c c', I c → Step W c c' → I c')
    (hmove : ∀ c, I c → (∃ a, c.prog = .ret a) ∨ ∃ c', Step W c c') {c : Conf P S α} (hc : I c) :
    Ends W (fun a c => I c ∧ c.prog = .ret a) c := by
  have hacc := step_acc W c.prog c rfl
  induction hacc with
  | intro c _ ih =>
    by_cases hr : ∃ a, c.prog = .ret a
    · obtain ⟨a, ha⟩ := hr
      exact .ret ha ⟨hc, ha⟩
    · exact .step (fun a ha => hr ⟨a, ha⟩) ((hmove c hc).resolve_left hr) (fun c' h => ih c' h (hstep c c' hc h))

theorem reach_inv {W : Net P S L} (I : Conf P S α → Prop) (hstep : ∀ c c', I c → Step W c c' → I c')
    {c c' : Conf P S α} (hc : I c) (h : Reach W c c') : I c' := by
  induction h with
  | refl => exact hc
  | tail _ h ih => exact hstep _ _ ih h

/-! ## Programs between quiet states -/

/-- **Total correctness between quiet states**: started with nothing in flight, every run of `m` returns with nothing in
flight, and `Q` holds of what it returns and of the servers. -/
def Runs (W : Net P S L) (m : Prog P α) (s : S) (Q : α → S → Prop) : Prop :=
  ∀ d rc, Ends W (fun a c => c.flight = [] ∧ c.answers = [] ∧ Q a c.srv) ⟨m, [], s, d, [], rc⟩

theorem Runs.ret {W : Net P S L} {a : α} {s : S} {Q : α → S → Prop} (h : Q a s) : Runs W (.ret a) s Q :=
  fun _ _ => .ret rfl ⟨rfl, rfl, h⟩

theorem Runs.mono {W : Net P S L} {m : Prog P α} {s : S} {Q Q' : α → S → Prop} (h : Runs W m s Q)
    (hq : ∀ a s, Q a s → Q' a s) : Runs W m s Q' :=
  fun d rc => (h d rc).mono (fun _ _ hQ => ⟨hQ.1, hQ.2.1, hq _ _ hQ.2.2⟩)

theorem Runs.bind {W : Net P S L} {m : Prog P α} {f : α → Prog P β} {s : S} {Q : α → S → Prop} {Q' : β → S → Prop}
    (h : Runs W m s Q) (hf : ∀ a s', Q a s' → Runs W (f a) s' Q') : Runs W (m.bind f) s Q' := by
  intro d rc
  refine ends_bind (h d rc) (fun a c hQ => ?_)
  rw [hQ.1, hQ.2.1]
  exact hf a c.srv hQ.2.2 c.served c.rcvd

theorem Runs.and {W : Net P S L} {m : Prog P α} {s : S} {Q Q' : α → S → Prop} (h : Runs W m s Q) (h' : Runs W m s Q') :
    Runs W m s (fun a s' => Q a s' ∧ Q' a s') :=
  fun d rc => ((h d rc).and (h' d rc)).mono (fun _ _ hQ => ⟨hQ.1.1, hQ.1.2.1, hQ.1.2.2, hQ.2.2.2⟩)

theorem Runs.both {W : Net P S L} {m : Prog P α} {s : S} {Q Q' : α → S → Prop} (h : Runs W m s Q) (h' : Runs W m s Q') :
    ∃ a s', Q a s' ∧ Q' a s' := by
  obtain ⟨a, c, -, -, hQ, hQ'⟩ := ((h [] []).and (h' [] [])).returns
  exact ⟨a, c.srv, hQ.2.2, hQ'.2.2⟩

/-- If a composition ends, so does its second program from some state its first can return in. -/
theorem Runs.rest {W : Net P S L} {m : Prog P α} {f : α → Prog P β} {s : S} {Q : α → S → Prop}
    {Q' : β → Conf P S β → Prop} {d rc : List P} (h : Runs W m s Q) (hf : Ends W Q' ⟨m.bind f, [], s, d, [], rc⟩) :
    ∃ a s' d' rc', Q a s' ∧ Ends W Q' ⟨f a, [], s', d', [], rc'⟩ := by
  obtain ⟨a, c, -, -, ⟨hfl, han, hQ⟩, hE⟩ := ((h d rc).and (ends_of_bind hf ⟨m, [], s, d, [], rc⟩ rfl)).returns
  rw [hfl, han] at hE
  exact ⟨a, c.srv, c.served, c.rcvd, hQ, hE⟩

/-- A composition that ends in a value made of what its first program returns, ends in such a value. -/
theorem Ends.bind_ret {W : Net P S L} {m : Prog P α} {g : α → β} {Q : β → Conf P S β → Prop} {s : S} {d rc : List P}
    (h : Ends W Q ⟨m.bind (fun a => .ret (g a)), [], s, d, [], rc⟩) : ∃ a c, Q (g a) c := by
  obtain ⟨a, c, -, -, hE⟩ := (ends_of_bind h ⟨m, [], s, d, [], rc⟩ rfl).returns
  exact ⟨a, _, hE.of_ret rfl⟩

/-- **Total correctness with the logs**: as `Runs`, with `Q` also about the requests that were served and the answers
that were received. -/
def Logs (W : Net P S L) (m : Prog P α) (s : S) (Q : α → S → List P → List P → Prop) : Prop :=
  ∀ d rc, Ends W (fun a c => c.flight = [] ∧ c.answers = [] ∧ ∃ D R, c.served = d ++ D ∧ c.rcvd = rc ++ R ∧ Q a c.srv D R)
    ⟨m, [], s, d, [], rc⟩

theorem Logs.ret {W : Net P S L} {a : α} {s : S} {Q : α → S → List P → List P → Prop} (h : Q a s [] []) :
    Logs W (.ret a) s Q :=
  fun d rc => .ret rfl ⟨rfl, rfl, [], [], (List.append_nil d).symm, (List.append_nil rc).symm, h⟩

theorem Logs.mono {W : Net P S L} {m : Prog P α} {s : S} {Q Q' : α → S → List P → List P → Prop} (h : Logs W m s Q)
    (hq : ∀ a s D R, Q a s D R → Q' a s D R) : Logs W m s Q' :=
  fun d rc => (h d rc).mono (fun _ _ ⟨hF, hA, D, R, hD, hR, hQ⟩ => ⟨hF, hA, D, R, hD, hR, hq _ _ _ _ hQ⟩)

theorem Logs.bind {W : Net P S L} {m : Prog P α} {f : α → Prog P β} {s : S} {Q : α → S → List P → List P → Prop}
    {Q' : β → S → List P → List P → Prop} (h : Logs W m s Q)
    (hf : ∀ a s' D R, Q a s' D R → Logs W (f a) s' (fun b s'' D' R' => Q' b s'' (D ++ D') (R ++ R'))) :
    Logs W (m.bind f) s Q' := by
  intro d rc
  refine ends_bind (h d rc) (fun a c ⟨hF, hA, D, R, hD, hR, hQ⟩ => ?_)
  rw [hF, hA, hD, hR]
  refine (hf a c.srv D R hQ (d ++ D) (rc ++ R)).mono (fun b c' ⟨hF', hA', D', R', hD', hR', hQ'⟩ => ?_)
  exact ⟨hF', hA', D ++ D', R ++ R', by rw [hD', List.append_assoc], by rw [hR', List.append_assoc], hQ'⟩

theorem Logs.both {W : Net P S L} {m : Prog P α} {s : S} {Q Q' : α → S → List P → List P → Prop} (h : Logs W m s Q)
    (h' : Logs W m s Q') : ∃ a s' D R, Q a s' D R ∧ Q' a s' D R := by
  obtain ⟨a, c, -, -, ⟨-, -, D, R, hD, hR, hQ⟩, ⟨-, -, D', R', hD', hR', hQ'⟩⟩ := ((h [] []).and (h' [] [])).returns
  rw [hD, List.nil_append, List.nil_append] at hD'
  rw [hR, List.nil_append, List.nil_append] at hR'
  subst hD' hR'
  exact ⟨a, c.srv, D, R, hQ, hQ'⟩

theorem Logs.runs {W : Net P S L} {m : Prog P α} {s : S} {Q : α → S → List P → List P → Prop} (h : Logs W m s Q) :
    Runs W m s (fun a s' => ∃ D R, Q a s' D R) :=
  fun d rc => (h d rc).mono (fun _ _ ⟨hF, hA, D, R, _, _, hQ⟩ => ⟨hF, hA, D, R, hQ⟩)

/-- One request, one answer. -/
def request (p : P) (f : P → α) : Prog P α := .send p (.recv (fun r => .ret (f r)))

/-! ## Bursts -/

/-- The servers' state and answers after a list of requests. -/
def Net.run (W : Net P S L) : S → List P → S × List P
  | s, []     => (s, [])
  | s, p :: r => ((W.run (W.serve s p).1 r).1, (W.serve s p).2 ++ (W.run (W.serve s p).1 r).2)

theorem Net.run_snoc (W : Net P S L) : ∀ (s : S) (D : List P) (p : P),
    W.run s (D ++ [p]) = ((W.serve (W.run s D).1 p).1, (W.run s D).2 ++ (W.serve (W.run s D).1 p).2)
  | s, [], p => by simp [Net.run]
  | s, q :: D, p => by
    simp only [List.cons_append, Net.run, W.run_snoc (W.serve s q).1 D p, List.append_assoc]

/-- Requests that are each answered at once, whatever the servers' state. -/
theorem Net.run_answers {W : Net P S L} {ack : P → P} : ∀ (D : List P) (s : S),
    (∀ p ∈ D, ∀ s, (W.serve s p).2 = [ack p]) → (W.run s D).2 = D.map ack
  | [], _, _ => rfl
  | p :: D, s, h => by
    rw [Net.run, h p List.mem_cons_self, W.run_answers D _ (fun q hq => h q (List.mem_cons_of_mem _ hq))]
    rfl

/-- Requests that are each answered at once and change nothing. -/
theorem Net.run_const {W : Net P S L} {ack : P → P} {s : S} : ∀ (D : List P),
    (∀ p ∈ D, W.serve s p = (s, [ack p])) → W.run s D = (s, D.map ack)
  | [], _ => rfl
  | p :: D, h => by
    rw [Net.run, h p List.mem_cons_self, W.run_const D (fun q hq => h q (List.mem_cons_of_mem _ hq))]
    rfl

def sendAll : List P → Prog P α → Prog P α
  | [],     k => k
  | p :: r, k => .send p (sendAll r k)

/-- Takes `n` answers into `a`. -/
def recvN (f : σ → P → σ) : Nat → σ → Prog P σ
  | 0,     a => .ret a
  | n + 1, a => .recv (fun p => recvN f n (f a p))

/-- Sends `pkts`, then takes `n` answers. -/
def burst (pkts : List P) (n : Nat) (f : σ → P → σ) (a : σ) : Prog P σ := sendAll pkts (recvN f n a)

/-! ## Runs of a burst that need not wait -/

theorem reach_sendAll (W : Net P S L) (k : Prog P σ) (s : S) (d an rc : List P) : ∀ (pkts fl : List P),
    Reach W ⟨sendAll pkts k, fl, s, d, an, rc⟩ ⟨k, fl ++ pkts, s, d, an, rc⟩
  | [], fl => by rw [List.append_nil]; exact .refl
  | p :: pkts, fl => by
    have := reach_sendAll W k s d an rc pkts (fl ++ [p])
    rw [List.append_assoc, List.singleton_append] at this
    exact .head .send this

/-- Without an order to keep, any of the requests in flight can be served first. -/
theorem reach_serve {W : Net P S L} (hf : ¬ W.fifo) (m : Prog P σ) (rc F : List P) : ∀ (D fl : List P) (s : S)
    (d an : List P), fl.Perm (D ++ F) →
    ∃ fl', fl'.Perm F ∧ Reach W ⟨m, fl, s, d, an, rc⟩ ⟨m, fl', (W.run s D).1, d ++ D, an ++ (W.run s D).2, rc⟩
  | [], fl, s, d, an, h => ⟨fl, h, by simpa [Net.run] using .refl⟩
  | p :: D, fl, s, d, an, h => by
    obtain ⟨A, C, rfl⟩ := List.append_of_mem (h.mem_iff.2 List.mem_cons_self)
    have hAC : (A ++ C).Perm (D ++ F) := (List.perm_middle.symm.trans h).cons_inv
    obtain ⟨fl', hF, hr⟩ := reach_serve hf m rc F D (A ++ C) (W.serve s p).1 (d ++ [p]) (an ++ (W.serve s p).2) hAC
    simp only [List.append_assoc, List.singleton_append] at hr
    exact ⟨fl', hF, .head (.serve (fun h => absurd h hf)) hr⟩

theorem reach_recvN (W : Net P S L) (f : σ → P → σ) (fl : List P) (s : S) (d : List P) : ∀ (n : Nat) (a : σ)
    (an rc : List P), n ≤ an.length → ∃ b an' rc', Reach W ⟨recvN f n a, fl, s, d, an, rc⟩ ⟨.ret b, fl, s, d, an', rc'⟩
  | 0, a, an, rc, _ => ⟨a, an, rc, .refl⟩
  | n + 1, a, [], rc, h => absurd h (by simp)
  | n + 1, a, p :: an, rc, h => by
    obtain ⟨b, an', rc', hr⟩ := reach_recvN W f fl s d n (f a p) an (rc ++ [p]) (by simpa using h)
    exact ⟨b, an', rc', .head (.recv (A := [])) hr⟩

/-- **A burst can return with requests in flight** when the others get it enough answers. -/
theorem burst_can_return {W : Net P S L} (hf : ¬ W.fifo) {pkts D F : List P} {n : Nat} (f : σ → P → σ) (a : σ) (s : S)
    (hD : pkts.Perm (D ++ F)) (hn : n ≤ (W.run s D).2.length) :
    ∃ b c, Reach W (start (burst pkts n f a) s) c ∧ c.prog = .ret b ∧ c.flight.Perm F := by
  have hsend := reach_sendAll W (recvN f n a) s [] [] [] pkts []
  obtain ⟨fl', hF, hserve⟩ := reach_serve hf (recvN f n a) [] F D pkts s [] [] hD
  obtain ⟨b, an', rc', hrecv⟩ := reach_recvN W f fl' (W.run s D).1 ([] ++ D) n a ([] ++ (W.run s D).2) [] hn
  exact ⟨b, _, hsend.trans (hserve.trans hrecv), rfl, hF⟩

/-! ## All runs of a burst -/

variable [DecidableEq L]

def Net.onLink (W : Net P S L) (l : L) (ps : List P) : List P := ps.filter (fun p => W.link p = l)

/-- Every reachable state of a burst: `sent` are out and `rest` to come, the servers have served `D` of those sent and
the client has taken the answers `R`. -/
structure Burst (W : Net P S L) (pkts : List P) (n : Nat) (f : σ → P → σ) (a : σ) (s : S) (d rc : List P)
    (sent rest D R : List P) (c : Conf P S σ) : Prop where
  split : pkts = sent ++ rest
  prog : c.prog = sendAll rest (recvN f (n - R.length) (R.foldl f a))
  some_left : R.length ≤ n
  none_yet : rest ≠ [] → R = []
  served : c.served = d ++ D
  rcvd : c.rcvd = rc ++ R
  srv : c.srv = (W.run s D).1
  answers : (R ++ c.answers).Perm (W.run s D).2
  flight : (D ++ c.flight).Perm sent
  order : W.fifo → ∀ l, W.onLink l (D ++ c.flight) = W.onLink l sent

theorem burst_init (W : Net P S L) (pkts : List P) (n : Nat) (f : σ → P → σ) (a : σ) (s : S) (d rc : List P) :
    Burst W pkts n f a s d rc [] pkts [] [] ⟨burst pkts n f a, [], s, d, [], rc⟩ where
  split := rfl
  prog := rfl
  some_left := Nat.zero_le _
  none_yet := fun _ => rfl
  served := (List.append_nil _).symm
  rcvd := (List.append_nil _).symm
  srv := rfl
  answers := List.Perm.refl _
  flight := List.Perm.refl _
  order := fun _ _ => rfl

theorem recvN_ne_send (f : σ → P → σ) : ∀ (n : Nat) (a : σ) (p : P) (k : Prog P σ), recvN f n a ≠ .send p k
  | 0, _, _, _ => by simp [recvN]
  | _ + 1, _, _, _ => by simp [recvN]

theorem onLink_append (W : Net P S L) (l : L) (A B : List P) :
    W.onLink l (A ++ B) = W.onLink l A ++ W.onLink l B := List.filter_append ..

theorem perm_pick (D A C : List P) (p : P) : (D ++ [p] ++ (A ++ C)).Perm (D ++ (A ++ p :: C)) := by
  simp only [List.append_assoc, List.singleton_append]
  exact (List.perm_middle.symm).append_left _

/-- A request that comes before those of other links only leaves every link in order. -/
theorem onLink_pick (W : Net P S L) (l : L) (D C : List P) {A : List P} {p : P} (hA : ∀ q ∈ A, W.link q ≠ W.link p) :
    W.onLink l (D ++ [p] ++ (A ++ C)) = W.onLink l (D ++ (A ++ p :: C)) := by
  have hcons : W.onLink l (p :: C) = W.onLink l [p] ++ W.onLink l C := onLink_append W l [p] C
  simp only [onLink_append, hcons, List.append_assoc]
  by_cases hl : W.link p = l
  · have hA0 : W.onLink l A = [] := List.filter_eq_nil_iff.2 (fun q hq => by simpa [hl] using hA q hq)
    rw [hA0]; simp
  · have hp0 : W.onLink l [p] = [] := List.filter_eq_nil_iff.2 (fun q hq => by simp at hq; simp [hq, hl])
    rw [hp0]; simp

/-- **A burst's steps keep its invariant.** -/
theorem Burst.step {W : Net P S L} {pkts : List P} {n : Nat} {f : σ → P → σ} {a : σ} {s : S}
    {d rc sent rest D R : List P} {c c' : Conf P S σ} (h : Burst W pkts n f a s d rc sent rest D R c)
    (hs : Step W c c') : ∃ sent rest D R, Burst W pkts n f a s d rc sent rest D R c' := by
  cases hs with
  | @send p k fl sv dn an rcv =>
    have hprog : Prog.send p k = _ := h.prog
    cases rest with
    | nil => exact absurd hprog.symm (recvN_ne_send _ _ _ _ _)
    | cons q rest =>
      simp only [sendAll, Prog.send.injEq] at hprog
      obtain ⟨rfl, rfl⟩ := hprog
      have hR := h.none_yet (by simp)
      refine ⟨sent ++ [p], rest, D, R, by simpa using h.split, rfl, h.some_left, fun _ => hR, h.served, h.rcvd, h.srv,
        h.answers, ?_, ?_⟩
      · show (D ++ (fl ++ [p])).Perm (sent ++ [p])
        rw [← List.append_assoc]
        exact h.flight.append_right _
      · intro hf l
        show W.onLink l (D ++ (fl ++ [p])) = _
        rw [← List.append_assoc, onLink_append, onLink_append _ _ sent, h.order hf l]
  | @serve m A p C sv dn an rcv hA =>
    refine ⟨sent, rest, D ++ [p], R, h.split, h.prog, h.some_left, h.none_yet, ?_, h.rcvd, ?_, ?_, ?_, ?_⟩
    · show dn ++ [p] = _
      rw [show dn = d ++ D from h.served, List.append_assoc]
    · show (W.serve sv p).1 = _
      rw [W.run_snoc, ← show sv = _ from h.srv]
    · show (R ++ (an ++ (W.serve sv p).2)).Perm _
      rw [W.run_snoc, ← show sv = _ from h.srv, ← List.append_assoc]
      exact h.answers.append_right _
    · exact (perm_pick D A C p).trans h.flight
    · intro hf l
      rw [← h.order hf l]
      exact onLink_pick W l D C (hA hf)
  | @recv k fl sv dn A p C rcv =>
    have hprog : Prog.recv k = _ := h.prog
    cases rest with
    | cons q rest => cases hprog
    | nil =>
      obtain ⟨j, hj⟩ : ∃ j, n - R.length = j + 1 := by
        cases hn : n - R.length with
        | zero => rw [hn] at hprog; cases hprog
        | succ j => exact ⟨j, rfl⟩
      rw [hj] at hprog
      simp only [sendAll, recvN, Prog.recv.injEq] at hprog
      subst hprog
      refine ⟨sent, [], D, R ++ [p], h.split, ?_, ?_, fun h0 => absurd rfl h0, h.served, ?_, h.srv, ?_, h.flight,
        h.order⟩
      · have hlen : n - (R ++ [p]).length = j := by simp; omega
        rw [hlen, List.foldl_append]; rfl
      · simp; omega
      · show rcv ++ [p] = _
        rw [show rcv = rc ++ R from h.rcvd, List.append_assoc]
      · exact (perm_pick R A C p).trans h.answers

theorem burst_reach {W : Net P S L} {pkts : List P} {n : Nat} {f : σ → P → σ} {a : σ} {s : S} {c : Conf P S σ}
    (h : Reach W (start (burst pkts n f a) s) c) : ∃ sent rest D R, Burst W pkts n f a s [] [] sent rest D R c :=
  reach_inv (fun c => ∃ sent rest D R, Burst W pkts n f a s [] [] sent rest D R c)
    (fun _ _ ⟨_, _, _, _, hb⟩ hs => hb.step hs) ⟨_, _, _, _, burst_init W pkts n f a s [] []⟩ h

/-- What is known of a burst that has returned: all its requests are out, and it took `n` answers. -/
theorem Burst.returned {W : Net P S L} {pkts : List P} {n : Nat} {f : σ → P → σ} {a b : σ} {s : S}
    {d rc sent rest D R : List P} {c : Conf P S σ} (h : Burst W pkts n f a s d rc sent rest D R c)
    (hb : c.prog = .ret b) : sent = pkts ∧ R.length = n ∧ b = R.foldl f a := by
  rw [h.prog] at hb
  cases rest with
  | cons q rest => cases hb
  | nil =>
    have hsplit := h.split
    rw [List.append_nil] at hsplit
    have hle := h.some_left
    cases hn : n - R.length with
    | zero =>
      rw [hn] at hb
      cases hb
      exact ⟨hsplit.symm, by omega, rfl⟩
    | succ j => rw [hn] at hb; cases hb

/-- **A burst returns if its requests, in whatever order they may be served, get it enough answers.** -/
theorem burst_ends {W : Net P S L} {pkts : List P} {n : Nat} {f : σ → P → σ} {a : σ} {s : S} {d rc : List P}
    (hn : ∀ D, D.Perm pkts → (W.fifo → ∀ l, W.onLink l D = W.onLink l pkts) → n ≤ (W.run s D).2.length) :
    Ends W (fun b c => ∃ D R, Burst W pkts n f a s d rc pkts [] D R c ∧ R.length = n ∧ b = R.foldl f a)
      ⟨burst pkts n f a, [], s, d, [], rc⟩ := by
  have hends := ends_of_inv (W := W) (fun c => ∃ sent rest D R, Burst W pkts n f a s d rc sent rest D R c)
    (fun _ _ ⟨_, _, _, _, hb⟩ hs => hb.step hs) ?_ ⟨_, _, _, _, burst_init W pkts n f a s d rc⟩
  · refine hends.mono ?_
    rintro b c ⟨⟨sent, rest, D, R, hb⟩, hret⟩
    obtain ⟨rfl, hR, rfl⟩ := hb.returned hret
    have hrest : rest = [] := by have := hb.split; simpa using this
    subst hrest
    exact ⟨D, R, hb, hR, rfl⟩
  · rintro ⟨m, fl, sv, dn, an, rcv⟩ ⟨sent, rest, D, R, hb⟩
    cases rest with
    | cons q rest =>
      have hm : m = _ := hb.prog
      subst hm
      exact .inr ⟨_, .send⟩
    | nil =>
      cases fl with
      | cons p fl => exact .inr ⟨_, .serve (A := []) (fun _ q hq => by cases hq)⟩
      | nil =>
        -- nothing to send and nothing in flight: everything has been served, so an answer is waiting
        have hsplit := hb.split
        rw [List.append_nil] at hsplit
        subst hsplit
        have hflight := hb.flight
        have horder := hb.order
        rw [List.append_nil] at hflight horder
        have hlen := hn D hflight horder
        have hans := hb.answers.length_eq
        rw [List.length_append] at hans
        have hm : m = _ := hb.prog
        cases hj : n - R.length with
        | zero =>
          rw [hj] at hm
          exact .inl ⟨_, hm⟩
        | succ j =>
          rw [hj] at hm
          subst hm
          cases an with
          | nil => simp at hans; omega
          | cons q an => exact .inr ⟨_, .recv (A := [])⟩

/-! ## Bursts whose last request on each link is answered -/

/-- A mark on exactly the requests that no later one of their link follows. -/
def EndsMarked (link : P → L) (mark : P → Bool) : List P → Prop
  | []     => True
  | p :: r => (mark p = true ↔ link p ∉ r.map link) ∧ EndsMarked link mark r

theorem EndsMarked.links {link : P → L} {mark : P → Bool} : ∀ {pkts : List P}, EndsMarked link mark pkts →
    (pkts.filter mark).map link = (pkts.map link).dedup
  | [], _ => rfl
  | p :: r, ⟨hp, hr⟩ => by
    rw [List.map_cons]
    by_cases hm : link p ∈ r.map link
    · rw [List.dedup_cons_of_mem hm, List.filter_cons_of_neg (fun h => hp.1 h hm), hr.links]
    · rw [List.dedup_cons_of_notMem hm, List.filter_cons_of_pos (hp.2 hm), List.map_cons, hr.links]

theorem EndsMarked.last {link : P → L} {mark : P → Bool} {l : L} {q : P} : ∀ {pkts : List P},
    EndsMarked link mark pkts → (pkts.filter (fun p => link p = l)).getLast? = some q → mark q = true
  | [], _, h => by cases h
  | p :: r, ⟨hp, hr⟩, h => by
    by_cases hl : link p = l
    · rw [List.filter_cons_of_pos (by simpa using hl), List.getLast?_cons] at h
      cases hlast : (r.filter (fun p => link p = l)).getLast? with
      | some q' =>
        rw [hlast] at h
        cases h
        exact hr.last hlast
      | none =>
        rw [hlast] at h
        cases h
        rw [List.getLast?_eq_none_iff, List.filter_eq_nil_iff] at hlast
        refine hp.2 (fun hmem => ?_)
        obtain ⟨x, hx, hxl⟩ := List.mem_map.1 hmem
        exact hlast x hx (by simpa [hl] using hxl)
    · rw [List.filter_cons_of_neg (by simpa using hl)] at h
      exact hr.last h

/-- **A burst that waits for the answers of its marked requests gets them all**, and leaves no answer behind. -/
theorem Burst.acked {W : Net P S L} {pkts : List P} {n : Nat} {f : σ → P → σ} {a : σ} {s : S} {d rc D R : List P}
    {c : Conf P S σ} {mark : P → Bool} {ack : P → P} (h : Burst W pkts n f a s d rc pkts [] D R c) (hR : R.length = n)
    (hrun : (W.run s D).2 = (D.filter mark).map ack) (hn : (pkts.filter mark).length = n) :
    c.answers = [] ∧ c.flight.filter mark = [] ∧ R.Perm ((pkts.filter mark).map ack) := by
  have hfl : (D.filter mark ++ c.flight.filter mark).Perm (pkts.filter mark) := by
    rw [← List.filter_append]
    exact h.flight.filter mark
  have hans := h.answers
  rw [hrun] at hans
  have hlen := hfl.length_eq
  have hlen' := hans.length_eq
  rw [List.length_append] at hlen hlen'
  rw [List.length_map] at hlen'
  have hA : c.answers = [] := List.eq_nil_of_length_eq_zero (by omega)
  have hF : c.flight.filter mark = [] := List.eq_nil_of_length_eq_zero (by omega)
  rw [hF, List.append_nil] at hfl
  rw [hA, List.append_nil] at hans
  exact ⟨hA, hF, hans.trans (hfl.map ack)⟩

/-- **In order, nothing is left in flight**: what is in flight on a link ends with its marked request. -/
theorem Burst.all_served {W : Net P S L} (hf : W.fifo) {pkts : List P} {n : Nat} {f : σ → P → σ} {a : σ} {s : S}
    {d rc rest D R : List P} {c : Conf P S σ} {mark : P → Bool} (h : Burst W pkts n f a s d rc pkts rest D R c)
    (hm : EndsMarked W.link mark pkts) (hF : c.flight.filter mark = []) : c.flight = [] := by
  refine List.eq_nil_iff_forall_not_mem.2 (fun p hp => ?_)
  have hne : W.onLink (W.link p) c.flight ≠ [] := List.ne_nil_of_mem (List.mem_filter.2 ⟨hp, by simp⟩)
  obtain ⟨q, hq⟩ := Option.ne_none_iff_exists'.1 (fun hn => hne (List.getLast?_eq_none_iff.1 hn))
  have hlast : (W.onLink (W.link p) pkts).getLast? = some q := by
    rw [← h.order hf, onLink_append, List.getLast?_append, hq]
    rfl
  have hqm : q ∈ c.flight := (List.mem_filter.1 (List.mem_of_getLast? hq)).1
  have : q ∈ c.flight.filter mark := List.mem_filter.2 ⟨hqm, hm.last hlast⟩
  rw [hF] at this
  cases this

/-- **A request that is answered returns**: the caller gets the answer, the servers are as they left themselves. -/
theorem ends_request {W : Net P S L} {p r : P} {s s' : S} (f : P → α) (h : W.serve s p = (s', [r])) (d rc : List P) :
    Ends W (fun a c => c.flight = [] ∧ c.answers = [] ∧ a = f r ∧ c.srv = s' ∧ c.served = d ++ [p] ∧ c.rcvd = rc ++ [r])
      ⟨request p f, [], s, d, [], rc⟩ := by
  have hrun : W.run s [p] = (s', [r]) := by rw [Net.run, h, Net.run]; rfl
  have hends : Ends W (fun b c => ∃ D R, Burst W [p] 1 (fun _ q => f q) (f r) s d rc [p] [] D R c ∧ R.length = 1 ∧
      b = R.foldl (fun _ q => f q) (f r)) ⟨request p f, [], s, d, [], rc⟩ :=
    burst_ends (fun D hD _ => by rw [List.perm_singleton.1 hD, hrun]; exact Nat.le_refl _)
  refine hends.mono (fun b c ⟨D, R, hb, hR, hres⟩ => ?_)
  have hans := hb.answers
  rcases List.append_eq_singleton_iff.1 (List.perm_singleton.1 hb.flight) with ⟨rfl, -⟩ | ⟨rfl, hF⟩
  · -- nothing was served, so nothing can have been received
    have := hans.length_eq
    rw [List.length_append, hR] at this
    exact absurd this (by simp [Net.run])
  · rw [hrun] at hans
    rcases List.append_eq_singleton_iff.1 (List.perm_singleton.1 hans) with ⟨rfl, -⟩ | ⟨rfl, hA⟩
    · cases hR
    · exact ⟨hF, hA, hres, by rw [hb.srv, hrun], hb.served, hb.rcvd⟩

theorem runs_request {W : Net P S L} {p r : P} {s s' : S} (f : P → α) (h : W.serve s p = (s', [r])) :
    Runs W (request p f) s (fun a t => a = f r ∧ t = s') :=
  fun d rc => (ends_request f h d rc).mono (fun _ _ ⟨hF, hA, hres, hs, _⟩ => ⟨hF, hA, hres, hs⟩)

theorem logs_request {W : Net P S L} {p r : P} {s s' : S} (f : P → α) (h : W.serve s p = (s', [r])) :
    Logs W (request p f) s (fun a t D R => a = f r ∧ t = s' ∧ D = [p] ∧ R = [r]) :=
  fun d rc => (ends_request f h d rc).mono (fun _ _ ⟨hF, hA, hres, hs, hD, hR⟩ =>
    ⟨hF, hA, [p], [r], hD, hR, hres, hs, rfl, rfl⟩)

/-! ## Exchanges -/

/-- Sends `pkts`, then takes an answer for each, in the order they arrive. -/
def exchange (pkts : List P) : Prog P (List P) := burst pkts pkts.length (fun ps p => ps ++ [p]) []

theorem foldl_snoc : ∀ (R ps : List P), R.foldl (fun ps p => ps ++ [p]) ps = ps ++ R
  | [], ps => (List.append_nil ps).symm
  | p :: R, ps => by rw [List.foldl_cons, foldl_snoc R, List.append_assoc, List.singleton_append]

/-- **An exchange whose requests are all answered returns the answers**, in some order, and leaves nothing behind. -/
theorem exchange_ends {W : Net P S L} {pkts : List P} {ack : P → P} {s : S}
    (hrun : ∀ D, (∀ p ∈ D, p ∈ pkts) → (W.run s D).2 = D.map ack) (d rc : List P) :
    Ends W (fun ps c => c.flight = [] ∧ c.answers = [] ∧ ps.Perm (pkts.map ack) ∧
        ∃ D, D.Perm pkts ∧ c.srv = (W.run s D).1 ∧ c.served = d ++ D ∧ c.rcvd = rc ++ ps)
      ⟨exchange pkts, [], s, d, [], rc⟩ := by
  have hends := @burst_ends P S L (List P) _ W pkts pkts.length (fun ps p => ps ++ [p]) [] s d rc (fun D hD _ => by
    apply Nat.le_of_eq
    rw [hrun D (fun p hp => hD.subset hp), List.length_map, hD.length_eq])
  refine hends.mono ?_
  rintro ps c ⟨D, R, hb, hR, rfl⟩
  have hD : ∀ p ∈ D, p ∈ pkts := fun p hp => hb.flight.subset (List.mem_append_left _ hp)
  have hans : (W.run s D).2 = (D.filter (fun _ => true)).map ack := by rw [hrun D hD, List.filter_true]
  obtain ⟨hA, hF, hperm⟩ := hb.acked hR hans (by rw [List.filter_true])
  rw [List.filter_true] at hF hperm
  have hflight := hb.flight
  rw [hF, List.append_nil] at hflight
  rw [foldl_snoc, List.nil_append]
  exact ⟨hF, hA, hperm, D, hflight, hb.srv, hb.served, hb.rcvd⟩

end Wire
end Bb
