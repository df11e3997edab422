import BlueBridge.Wire
/-!
# Coding — a network that carries packets as something else

`m.coded put get t` is the program `m` where every packet is sent as what `put` makes of it, which may keep a state `t`,
and what is received is read by `get`.  A network `W'` codes `W` if it does with the code of a request what `W` does with
the request (`Codes`).  Then every run of the coded program over `W'` is one of the program over `W`, so what is proved
of the program holds of the coded one (`Runs.coded`).

A code need not carry all packets: `Req` is what it carries to the servers, `Ans` what it carries back.  `m.Sends Req Ans
Q` says that `m` sends nothing else as long as it is answered nothing else, and what it then returns.
-/
namespace Bb
namespace Wire

variable {P F S S' L L' τ α β : Type}

/-- A fact about the packets in flight, when one of them is taken out. -/
theorem forall_mem_middle {X : P → Prop} {A C : List P} {p : P} (h : ∀ q ∈ A ++ p :: C, X q) :
    X p ∧ ∀ q ∈ A ++ C, X q := by
  simp only [List.forall_mem_append, List.forall_mem_cons] at h ⊢
  exact ⟨h.2.1, h.1, h.2.2⟩

/-! ## What a program sends -/

def Prog.Sends (Req Ans : P → Prop) (Q : α → Prop) : Prog P α → Prop
  | .ret a    => Q a
  | .fail     => True
  | .send p k => Req p ∧ k.Sends Req Ans Q
  | .recv k   => ∀ p, Ans p → (k p).Sends Req Ans Q

section Sends

variable {Req Ans : P → Prop}

theorem Prog.Sends.mono {Q Q' : α → Prop} : ∀ {m : Prog P α}, m.Sends Req Ans Q → (∀ a, Q a → Q' a) →
    m.Sends Req Ans Q'
  | .ret _,    h, hq => hq _ h
  | .fail,     _, _  => trivial
  | .send _ _, h, hq => ⟨h.1, h.2.mono hq⟩
  | .recv _,   h, hq => fun p hp => (h p hp).mono hq

theorem Prog.Sends.bind {Q : α → Prop} {Q' : β → Prop} {f : α → Prog P β} : ∀ {m : Prog P α}, m.Sends Req Ans Q →
    (∀ a, Q a → (f a).Sends Req Ans Q') → (m.bind f).Sends Req Ans Q'
  | .ret _,    h, hf => hf _ h
  | .fail,     _, _  => trivial
  | .send _ _, h, hf => ⟨h.1, h.2.bind hf⟩
  | .recv _,   h, hf => fun p hp => (h p hp).bind hf

theorem sends_request {Q : α → Prop} {p : P} {f : P → α} (hp : Req p) (hf : ∀ r, Ans r → Q (f r)) :
    (request p f).Sends Req Ans Q :=
  ⟨hp, hf⟩

theorem sends_sendAll {Q : α → Prop} {k : Prog P α} (hk : k.Sends Req Ans Q) : ∀ {pkts : List P}, (∀ p ∈ pkts, Req p) →
    (sendAll pkts k).Sends Req Ans Q
  | [],     _ => hk
  | _ :: _, h => ⟨h _ List.mem_cons_self, sends_sendAll hk (fun p hp => h p (List.mem_cons_of_mem _ hp))⟩

theorem sends_recvN {f : α → P → α} : ∀ (n : Nat) (a : α), (recvN f n a).Sends Req Ans (fun _ => True)
  | 0,     _ => trivial
  | n + 1, a => fun p _ => sends_recvN n (f a p)

end Sends

/-! ## Coded programs -/

def Prog.coded (put : τ → P → τ × F) (get : F → P) : τ → Prog P α → Prog F α
  | _, .ret a    => .ret a
  | _, .fail     => .fail
  | t, .send p k => .send (put t p).2 (k.coded put get (put t p).1)
  | t, .recv k   => .recv (fun f => (k (get f)).coded put get t)

/-- **`W'` codes `W`**: `R` relates the states of the servers, and `T` holds of the senders' states. -/
structure Codes (W : Net P S L) (W' : Net F S' L') (put : τ → P → τ × F) (get : F → P) (enc : P → F)
    (Req Ans : P → Prop) (T : τ → Prop) (R : S → S' → Prop) : Prop where
  put : ∀ {t p}, T t → Req p → T (put t p).1 ∧ (put t p).2 = enc p
  get : ∀ {p}, Ans p → get (enc p) = p
  serve : ∀ {s s' p}, R s s' → Req p → R (W.serve s p).1 (W'.serve s' (enc p)).1 ∧
    (W'.serve s' (enc p)).2 = (W.serve s p).2.map enc ∧ ∀ r ∈ (W.serve s p).2, Ans r
  fifo : W.fifo → W'.fifo
  link : ∀ {p q}, Req p → Req q → W.link p = W.link q → W'.link (enc p) = W'.link (enc q)

section Coded

variable {W : Net P S L} {W' : Net F S' L'} {put : τ → P → τ × F} {get : F → P} {enc : P → F} {Req Ans : P → Prop}
  {T : τ → Prop} {R : S → S' → Prop}

/-- A configuration and its code. -/
structure CodedConf (put : τ → P → τ × F) (get : F → P) (enc : P → F) (Req Ans : P → Prop) (T : τ → Prop)
    (R : S → S' → Prop) (c : Conf P S α) (c' : Conf F S' α) : Prop where
  prog : ∃ t, T t ∧ c'.prog = c.prog.coded put get t
  sends : c.prog.Sends Req Ans (fun _ => True)
  flight : c'.flight = c.flight.map enc
  req : ∀ p ∈ c.flight, Req p
  srv : R c.srv c'.srv
  answers : c'.answers = c.answers.map enc
  ans : ∀ p ∈ c.answers, Ans p

theorem Prog.coded_eq_ret {t : τ} {m : Prog P α} {a : α} (h : m.coded put get t = .ret a) : m = .ret a := by
  cases m with
  | ret b => cases h; rfl
  | fail => cases h
  | send p k => cases h
  | recv k => cases h

theorem CodedConf.ret {c : Conf P S α} {c' : Conf F S' α} (h : CodedConf put get enc Req Ans T R c c') {a : α} :
    c.prog = .ret a ↔ c'.prog = .ret a := by
  obtain ⟨t, -, hp⟩ := h.prog
  constructor
  · intro hc
    rw [hp, hc]
    rfl
  · intro hc
    exact Prog.coded_eq_ret (hp.symm.trans hc)

/-- **A step of the coded configuration is a step of the configuration.** -/
theorem CodedConf.step (hW : Codes W W' put get enc Req Ans T R) {c : Conf P S α} {c' d' : Conf F S' α}
    (h : CodedConf put get enc Req Ans T R c c') (hs : Step W' c' d') :
    ∃ d, Step W c d ∧ CodedConf put get enc Req Ans T R d d' := by
  obtain ⟨m, fl, s, dn, an, rc⟩ := c
  obtain ⟨m', fl', s', dn', an', rc'⟩ := c'
  obtain ⟨⟨t, ht, hp⟩, hsends, hfl, hreq, hsrv, han, hans⟩ := h
  dsimp only at hp hsends hfl hreq hsrv han hans
  cases hs with
  | send =>
    cases m with
    | ret a => cases hp
    | fail => cases hp
    | recv k => cases hp
    | send p k =>
      cases hp
      obtain ⟨ht', henc⟩ := hW.put ht hsends.1
      refine ⟨_, .send, ⟨_, ht', rfl⟩, hsends.2, ?_, ?_, hsrv, han, hans⟩
      · dsimp only
        rw [hfl, henc, List.map_append]
        rfl
      · exact List.forall_mem_append.2 ⟨hreq, List.forall_mem_singleton.2 hsends.1⟩
  | @serve _ A' f C' _ _ _ _ hlink =>
    obtain ⟨A, B, rfl, rfl, hB⟩ := List.map_eq_append_iff.1 hfl.symm
    obtain ⟨p, C, rfl, rfl, rfl⟩ := List.map_eq_cons_iff.1 hB
    obtain ⟨hp', hrest⟩ := forall_mem_middle hreq
    obtain ⟨hR, hout, hansp⟩ := hW.serve hsrv hp'
    refine ⟨_, .serve (fun hf q hq heq => ?_), ⟨t, ht, hp⟩, hsends, ?_, ?_, hR, ?_, ?_⟩
    · exact hlink (hW.fifo hf) (enc q) (List.mem_map_of_mem hq) (hW.link (hreq q (by simp [hq])) hp' heq)
    · exact List.map_append.symm
    · exact hrest
    · dsimp only
      rw [hout, han, List.map_append]
    · exact List.forall_mem_append.2 ⟨hans, hansp⟩
  | @recv k' _ _ _ A' f C' _ =>
    obtain ⟨A, B, rfl, rfl, hB⟩ := List.map_eq_append_iff.1 han.symm
    obtain ⟨p, C, rfl, rfl, rfl⟩ := List.map_eq_cons_iff.1 hB
    cases m with
    | ret a => cases hp
    | fail => cases hp
    | send p k => cases hp
    | recv k =>
      cases hp
      obtain ⟨hp', hrest⟩ := forall_mem_middle hans
      refine ⟨_, .recv, ⟨t, ht, ?_⟩, hsends p hp', hfl, hreq, hsrv, List.map_append.symm, hrest⟩
      dsimp only
      rw [hW.get hp']

/-- The coded configuration can move if the configuration can. -/
theorem CodedConf.moves {c d : Conf P S α} {c' : Conf F S' α} (h : CodedConf put get enc Req Ans T R c c')
    (hs : Step W c d) : ∃ d', Step W' c' d' := by
  obtain ⟨m, fl, s, dn, an, rc⟩ := c
  obtain ⟨m', fl', s', dn', an', rc'⟩ := c'
  obtain ⟨⟨t, ht, hp⟩, hsends, hfl, hreq, hsrv, han, hans⟩ := h
  dsimp only at hp hfl han
  cases hs with
  | send =>
    subst hp
    exact ⟨_, .send⟩
  | serve hlink =>
    -- the first request in flight has no earlier one of its own link
    cases fl' with
    | nil => rw [List.map_append] at hfl; simp at hfl
    | cons f fl' => exact ⟨_, .serve (A := []) (fun _ q hq => by cases hq)⟩
  | @recv k _ _ _ A p C _ =>
    subst hp
    rw [han, List.map_append, List.map_cons]
    exact ⟨_, .recv⟩

theorem Ends.coded (hW : Codes W W' put get enc Req Ans T R) {Q : α → Conf P S α → Prop} {c : Conf P S α}
    (h : Ends W Q c) : ∀ {c' : Conf F S' α}, CodedConf put get enc Req Ans T R c c' →
      Ends W' (fun a d' => ∃ d, CodedConf put get enc Req Ans T R d d' ∧ Q a d) c' := by
  induction h with
  | @ret c a hp hQ => exact fun hc => .ret (hc.ret.1 hp) ⟨c, hc, hQ⟩
  | @step c hp he _ ih =>
    intro c' hc
    obtain ⟨d, hd⟩ := he
    refine .step (fun a ha => hp a (hc.ret.2 ha)) (hc.moves hd) (fun d' hd' => ?_)
    obtain ⟨e, hs, he⟩ := hc.step hW hd'
    exact ih e hs he

/-- **What is proved of a program holds of the coded program over a network that codes its own.** -/
theorem Runs.coded (hW : Codes W W' put get enc Req Ans T R) {m : Prog P α} {s : S} {s' : S'} {t : τ}
    {Q : α → S → Prop} (h : Runs W m s Q) (hm : m.Sends Req Ans (fun _ => True)) (ht : T t) (hs : R s s') :
    Runs W' (m.coded put get t) s' (fun a s' => ∃ s, R s s' ∧ Q a s) := by
  intro d rc
  have hc : CodedConf put get enc Req Ans T R (⟨m, [], s, [], [], []⟩ : Conf P S α)
      ⟨m.coded put get t, [], s', d, [], rc⟩ := by
    refine ⟨⟨t, ht, rfl⟩, hm, rfl, ?_, hs, rfl, ?_⟩
    · exact fun p hp => by cases hp
    · exact fun p hp => by cases hp
  refine ((h [] []).coded hW hc).mono (fun a d' hd => ?_)
  obtain ⟨e, he, hfl, han, hQ⟩ := hd
  refine ⟨?_, ?_, e.srv, he.srv, hQ⟩
  · rw [he.flight, hfl]
    rfl
  · rw [he.answers, han]
    rfl

end Coded

/-! ## Programs that are never answered -/

/-- It does not return before it has received something. -/
def Prog.Waits : Prog P α → Prop
  | .ret _    => False
  | .fail     => True
  | .send _ k => k.Waits
  | .recv _   => True

/-- Nothing has been answered, and the program waits for an answer to the requests of `Req` it sends. -/
structure Unanswered (Req : P → Prop) (c : Conf P S α) : Prop where
  flight : ∀ p ∈ c.flight, Req p
  answers : c.answers = []
  waits : c.prog.Waits
  sends : c.prog.Sends Req (fun _ => False) (fun _ => True)

section Unanswered

variable {W : Net P S L} {Req : P → Prop} {c c' : Conf P S α}

theorem Unanswered.step (hW : ∀ s p, Req p → (W.serve s p).2 = []) (hc : Unanswered Req c) (hs : Step W c c') :
    Unanswered Req c' := by
  obtain ⟨hfl, han, hwaits, hsends⟩ := hc
  cases hs with
  | send => exact ⟨List.forall_mem_append.2 ⟨hfl, List.forall_mem_singleton.2 hsends.1⟩, han, hwaits, hsends.2⟩
  | @serve _ _ p _ s _ _ _ _ =>
    obtain ⟨hp, hrest⟩ := forall_mem_middle hfl
    refine ⟨hrest, ?_, hwaits, hsends⟩
    dsimp only at han ⊢
    rw [hW s p hp, han, List.append_nil]
  | recv => simp at han

/-- **Where requests are not answered, a program that waits for an answer returns in no run.** -/
theorem Unanswered.not_ret (hW : ∀ s p, Req p → (W.serve s p).2 = []) (hc : Unanswered Req c) (hr : Reach W c c')
    (a : α) : c'.prog ≠ .ret a := by
  intro hp
  have hwaits := (reach_inv (Unanswered Req) (fun _ _ hc hs => hc.step hW hs) hc hr).waits
  rw [hp] at hwaits
  exact hwaits

theorem not_ends_of_silent (hW : ∀ s p, Req p → (W.serve s p).2 = []) (hc : Unanswered Req c)
    {Q : α → Conf P S α → Prop} : ¬ Ends W Q c := by
  intro h
  obtain ⟨a, c', hr, hp, -⟩ := h.returns
  exact hc.not_ret hW hr a hp

end Unanswered

/-- The coded program sends codes. -/
theorem Prog.Sends.coded {put : τ → P → τ × F} {get : F → P} {enc : P → F} {Req : P → Prop} {T : τ → Prop}
    (hput : ∀ {t p}, T t → Req p → T (put t p).1 ∧ (put t p).2 = enc p) : ∀ {m : Prog P α} {t : τ}, T t →
      m.Sends Req (fun _ => False) (fun _ => True) →
      (m.coded put get t).Sends (fun f => ∃ p, Req p ∧ enc p = f) (fun _ => False) (fun _ => True)
  | .ret _,    _, _,  _ => trivial
  | .fail,     _, _,  _ => trivial
  | .send p _, _, ht, h =>
    ⟨⟨p, h.1, (hput ht h.1).2.symm⟩, Prog.Sends.coded hput (hput ht h.1).1 h.2⟩
  | .recv _,   _, _,  _ => fun _ hf => hf.elim

theorem Prog.Waits.coded {put : τ → P → τ × F} {get : F → P} {m : Prog P α} (h : m.Waits) (t : τ) :
    (m.coded put get t).Waits := by
  induction m generalizing t with
  | ret a => exact h
  | fail => trivial
  | send p k ih => exact ih h _
  | recv k => trivial

end Wire
end Bb
