import BlueBridge.Ring
/-!
# RingRun — what every run of a ring keeps

`Inv` says where the consumer is in its turn, and what it has to show for the slots it has moved past.  It holds in
every run (`reach_inv`), so the results are those of the frames filled in, in order (`Inv.out`).  A consumer that works
on frames it has given back needs a producer that leaves alone what is being read.  Left to itself the consumer takes
all frames there are (`Inv.finishes`), and if none was passed over then the producer can go on (`Inv.fill_ready`).
-/
namespace Bb
namespace Ring

open Function (update update_self update_of_ne)

variable {F α β : Type}

/-! ## The invariant -/

section Invariant

variable (n : Nat) (ts : List (UInt32 → Bool)) (R : Reader F β) (S : β → Reader F α)

/-- What is made of a frame that stays the same. -/
def spec (f : F) : α := (S (R.eval f)).eval f

/-- What is made of the first `c` frames filled in, but for those passed over. -/
def results (c : Nat) (l : List (Slot F)) : List α :=
  ((l.take c).filter (fun x => !flagged ts x.status)).map (fun x => spec R S x.frame)

/-- A slot was given back exactly if it had a frame that was not to be passed over. -/
def GivenBack (s : Sys F α) : Prop :=
  ∀ (j : Nat) b, s.advanced[j]? = some b → (b = true ↔ ∃ x, s.filled[j]? = some x ∧ flagged ts x.status = false)

/-- Where the consumer is in its turn, having moved past `c` slots.  With `strict`, its results are those of the frames it
took: then, while it still reads a slot it has given back, the frame it took is there, which `guard` has to see to. -/
inductive Phase (strict guard : Prop) (c : Nat) (s : Sys F α) : Prop
  | look (hp : s.prog = .ret none ∨ s.prog = turn ts R S ∨ s.prog =
        .status s.cur (fun st => if st = 0 then .ret none else tests s.cur (body R S s.cur) ts))
      (hg : s.given = false) (hw : Window n ts c s) (ho : strict → s.out = results ts R S c s.filled)
  | test (pre : List (UInt32 → Bool)) (t : UInt32 → Bool) (post : List (UInt32 → Bool)) (hts : ts = pre ++ t :: post)
      (hp : s.prog = tests s.cur (body R S s.cur) (t :: post)) (hst : (s.slots s.cur).status ≠ 0)
      (hpre : ∀ u ∈ pre, u (s.slots s.cur).status = false)
      (hg : s.given = false) (hw : Window n ts c s) (ho : strict → s.out = results ts R S c s.filled)
  | skip (hp : s.prog = .next (.ret none)) (hfl : flagged ts (s.slots s.cur).status = true)
      (hg : s.given = false) (hw : Window n ts c s) (ho : strict → s.out = results ts R S c s.filled)
  | read (R' : Reader F β) (hp : s.prog = R'.at s.cur (fun b => .release s.cur (.next ((S b).at s.cur
        (fun a => .ret (some a))))))
      (heval : R'.eval (s.slots s.cur).frame = R.eval (s.slots s.cur).frame) (hst : (s.slots s.cur).status ≠ 0)
      (hfl : flagged ts (s.slots s.cur).status = false)
      (hg : s.given = false) (hw : Window n ts c s) (ho : strict → s.out = results ts R S c s.filled)
  | moving (S' : Reader F α) (x : Slot F) (hp : s.prog = .next (S'.at s.cur (fun a => .ret (some a))))
      (hx : s.filled[c]? = some x) (hfl : flagged ts x.status = false)
      (heval : strict → S'.eval x.frame = spec R S x.frame)
      (hkeep : strict → ∀ k, S' = .read k → s.slots s.cur = { x with status := 0 } ∧ guard)
      (hg : s.given = true) (hw : Window n ts (c + 1) s) (ho : strict → s.out = results ts R S c s.filled)
  | work (S' : Reader F α) (x : Slot F) (i j : Nat) (hp : s.prog = S'.at i (fun a => .ret (some a))) (hc : c = j + 1)
      (hx : s.filled[j]? = some x) (hfl : flagged ts x.status = false)
      (heval : strict → S'.eval x.frame = spec R S x.frame)
      (hkeep : strict → ∀ k, S' = .read k → s.slots i = { x with status := 0 } ∧ guard)
      (hg : s.given = false) (hw : Window n ts c s) (ho : strict → s.out = results ts R S j s.filled)

structure Inv (strict guard : Prop) (s : Sys F α) : Prop where
  cur : s.cur = s.advanced.length % n
  given : GivenBack ts s
  phase : Phase n ts R S strict guard s.advanced.length s

variable {n ts R S} {strict guard : Prop} {s s' : Sys F α} {c : Nat} {l : List (Slot F)}

theorem results_concat {x : Slot F} (h : c ≤ l.length) : results ts R S c (l ++ [x]) = results ts R S c l := by
  unfold results
  rw [List.take_append_of_le_length h]

theorem results_succ {x : Slot F} (hx : l[c]? = some x) (hfl : flagged ts x.status = false) :
    results ts R S (c + 1) l = results ts R S c l ++ [spec R S x.frame] := by
  unfold results
  rw [List.take_add_one, hx, Option.toList_some, List.filter_append, List.map_append]
  simp [hfl]

theorem results_skip (h : ∀ x, l[c]? = some x → flagged ts x.status = true) :
    results ts R S (c + 1) l = results ts R S c l := by
  unfold results
  rw [List.take_add_one]
  cases hx : l[c]? with
  | none => simp
  | some x => simp [h x hx]

theorem GivenBack.concat {x : Slot F} (h : GivenBack ts s) (hle : s.advanced.length ≤ s.filled.length)
    (hfilled : s'.filled = s.filled ++ [x]) (hadv : s'.advanced = s.advanced) : GivenBack ts s' := by
  intro j b hb
  rw [hadv] at hb
  have hj := (List.getElem?_eq_some_iff.mp hb).1
  rw [hfilled, List.getElem?_append_left (by omega)]
  exact h j b hb

theorem GivenBack.snoc {b : Bool} (h : GivenBack ts s) (hfilled : s'.filled = s.filled)
    (hadv : s'.advanced = s.advanced ++ [b])
    (hb : b = true ↔ ∃ x, s.filled[s.advanced.length]? = some x ∧ flagged ts x.status = false) : GivenBack ts s' := by
  intro j b' hb'
  rw [hadv] at hb'
  rw [hfilled]
  rcases Nat.lt_trichotomy j s.advanced.length with hj | rfl | hj
  · rw [List.getElem?_append_left hj] at hb'
    exact h j b' hb'
  · rw [List.getElem?_concat_length] at hb'
    cases hb'
    exact hb
  · rw [List.getElem?_eq_none (by simp; omega)] at hb'
    cases hb'

/-- A slot the consumer owns is not filled. -/
theorem slots_of_fill {x : Slot F} {i : Nat} (hf : s.fill n x = some s') (hst : (s.slots i).status ≠ 0) :
    s'.slots i = s.slots i := by
  obtain ⟨-, hfree, rfl⟩ := fill_eq hf
  have hne : i ≠ s.head := by
    rintro rfl
    exact hst hfree
  exact update_of_ne hne ..

theorem slots_of_fill_ne {x : Slot F} {i : Nat} (hf : s.fill n x = some s') (hi : s.head ≠ i) :
    s'.slots i = s.slots i := by
  obtain ⟨-, -, rfl⟩ := fill_eq hf
  exact update_of_ne (Ne.symm hi) ..

/-- Nor is one that the consumer reads, if the producer leaves it alone. -/
theorem slots_of_fill_reading {x : Slot F} {i : Nat} (hf : s.fill n x = some s') (hi : s.prog.reading = some i)
    (hok : s.prog.reading ≠ some s.head) : s'.slots i = s.slots i := by
  apply slots_of_fill_ne hf
  rintro rfl
  exact hok hi

theorem filled_of_fill {x y : Slot F} {j : Nat} (hf : s.fill n x = some s') (hy : s.filled[j]? = some y) :
    s'.filled[j]? = some y := by
  obtain ⟨-, -, rfl⟩ := fill_eq hf
  exact (List.getElem?_append_left (List.getElem?_eq_some_iff.mp hy).1).trans hy

/-- The results so far are those of the frames before. -/
theorem out_of_fill {x : Slot F} (hf : s.fill n x = some s') (hle : c ≤ s.filled.length)
    (ho : strict → s.out = results ts R S c s.filled) : strict → s'.out = results ts R S c s'.filled := by
  obtain ⟨-, -, rfl⟩ := fill_eq hf
  intro hs
  exact (ho hs).trans (results_concat hle).symm

/-- **A fill keeps the invariant**, if the producer leaves alone what the consumer still reads. -/
theorem Inv.fill {ok : Sys F α → Prop} (hn : 0 < n) (hz : flagged ts 0 = false)
    (hguard : guard → ∀ s, ok s → s.prog.reading ≠ some s.head) {x : Slot F} (h : Inv n ts R S strict guard s)
    (hok : ok s) (hf : s.fill n x = some s') : Inv n ts R S strict guard s' := by
  obtain ⟨hcur, hgiven, hphase⟩ := h
  obtain ⟨-, -, hs'⟩ := fill_eq hf
  have hprog : s'.prog = s.prog := by rw [hs']
  have hcur' : s'.cur = s.cur := by rw [hs']
  have hg' : s'.given = s.given := by rw [hs']
  have hadv : s'.advanced = s.advanced := by rw [hs']
  have hfilled : s'.filled = s.filled ++ [x] := by rw [hs']
  have hslot : (s.slots s.cur).status ≠ 0 → s'.slots s'.cur = s.slots s.cur := by
    rw [hcur']
    exact slots_of_fill hf
  have hfinish : ∀ {e}, Window n ts e s → s.advanced.length ≤ e → Phase n ts R S strict guard s.advanced.length s' →
      Inv n ts R S strict guard s' := by
    intro e hw he hph
    have hle := (hw.fill hn hz hf).1
    exact ⟨by rw [hcur', hadv]; exact hcur, hgiven.concat (by omega) hfilled hadv, by rw [hadv]; exact hph⟩
  cases hphase with
  | look hp hg hw ho =>
    obtain ⟨hle, hw'⟩ := hw.fill hn hz hf
    refine hfinish hw (Nat.le_refl _) (.look ?_ (hg'.trans hg) hw' (out_of_fill hf hle ho))
    rw [hprog, hcur']
    exact hp
  | test pre t post hts hp hst hpre hg hw ho =>
    obtain ⟨hle, hw'⟩ := hw.fill hn hz hf
    refine hfinish hw (Nat.le_refl _) (.test pre t post hts ?_ ?_ ?_ (hg'.trans hg) hw' (out_of_fill hf hle ho))
    · rw [hprog, hcur']
      exact hp
    · rw [hslot hst]
      exact hst
    · rw [hslot hst]
      exact hpre
  | skip hp hfl hg hw ho =>
    obtain ⟨hle, hw'⟩ := hw.fill hn hz hf
    have hst : (s.slots s.cur).status ≠ 0 := by
      intro h0
      rw [h0, hz] at hfl
      cases hfl
    refine hfinish hw (Nat.le_refl _) (.skip (hprog.trans hp) ?_ (hg'.trans hg) hw' (out_of_fill hf hle ho))
    rw [hslot hst]
    exact hfl
  | read R' hp heval hst hfl hg hw ho =>
    obtain ⟨hle, hw'⟩ := hw.fill hn hz hf
    refine hfinish hw (Nat.le_refl _) (.read R' ?_ ?_ ?_ ?_ (hg'.trans hg) hw' (out_of_fill hf hle ho))
    · rw [hprog, hcur']
      exact hp
    · rw [hslot hst]
      exact heval
    · rw [hslot hst]
      exact hst
    · rw [hslot hst]
      exact hfl
  | moving S' y hp hx hfl heval hkeep hg hw ho =>
    obtain ⟨hle, hw'⟩ := hw.fill hn hz hf
    refine hfinish hw (Nat.le_succ _) (.moving S' y ?_ (filled_of_fill hf hx) hfl heval ?_ (hg'.trans hg) hw'
      (out_of_fill hf (by omega) ho))
    · rw [hprog, hcur']
      exact hp
    · intro hs k hk
      obtain ⟨hframe, hgd⟩ := hkeep hs k hk
      have hreading : s.prog.reading = some s.cur := by rw [hp, hk]; rfl
      rw [hcur', slots_of_fill_reading hf hreading (hguard hgd s hok)]
      exact ⟨hframe, hgd⟩
  | work S' y i j hp hc hx hfl heval hkeep hg hw ho =>
    obtain ⟨hle, hw'⟩ := hw.fill hn hz hf
    refine hfinish hw (Nat.le_refl _) (.work S' y i j (hprog.trans hp) hc (filled_of_fill hf hx) hfl heval ?_
      (hg'.trans hg) hw' (out_of_fill hf (by omega) ho))
    intro hs k hk
    obtain ⟨hframe, hgd⟩ := hkeep hs k hk
    have hreading : s.prog.reading = some i := by rw [hp, hk]; rfl
    rw [slots_of_fill_reading hf hreading (hguard hgd s hok)]
    exact ⟨hframe, hgd⟩

theorem flagged_eq_false {st : UInt32} : flagged ts st = false ↔ ∀ t ∈ ts, t st = false := by
  simp [flagged]

/-- On to the tests that are left; after the last the frame is read. -/
theorem Phase.tests (pre post : List (UInt32 → Bool)) (hts : ts = pre ++ post)
    (hp : s.prog = tests s.cur (body R S s.cur) post) (hst : (s.slots s.cur).status ≠ 0)
    (hpre : ∀ u ∈ pre, u (s.slots s.cur).status = false) (hg : s.given = false) (hw : Window n ts c s)
    (ho : strict → s.out = results ts R S c s.filled) : Phase n ts R S strict guard c s := by
  cases post with
  | nil =>
    rw [List.append_nil] at hts
    subst hts
    exact .read R hp rfl hst (flagged_eq_false.mpr hpre) hg hw ho
  | cons t post => exact .test pre t post hts hp hst hpre hg hw ho

theorem cur_succ (hcur : s.cur = s.advanced.length % n) (b : Bool) :
    (s.cur + 1) % n = (s.advanced ++ [b]).length % n := by
  rw [hcur, List.length_append, List.length_singleton]
  exact Nat.mod_add_mod ..

/-- A slot that is passed over is not given back. -/
theorem Inv.passOver (hz : flagged ts 0 = false) (hcur : s.cur = s.advanced.length % n) (hgiven : GivenBack ts s)
    (hp : s.prog = .next (.ret none)) (hfl : flagged ts (s.slots s.cur).status = true) (hg : s.given = false)
    (hw : Window n ts s.advanced.length s) (ho : strict → s.out = results ts R S s.advanced.length s.filled) :
    Inv n ts R S strict guard (s.go n (turn ts R S)) := by
  rw [go_next hp]
  have hnone : ∀ x, s.filled[s.advanced.length]? = some x → flagged ts x.status = true := by
    intro x hx
    rw [← hw.live _ x (Nat.le_refl _) hx, ← hcur]
    exact hfl
  refine ⟨cur_succ hcur _, hgiven.snoc rfl rfl ?_, ?_⟩
  · rw [hg]
    refine ⟨(nomatch ·), fun ⟨x, hx, hx'⟩ => ?_⟩
    rw [hnone x hx] at hx'
    cases hx'
  · rw [List.length_append, List.length_singleton]
    refine .look (.inl rfl) rfl ((hw.skip hz (hcur ▸ hfl)).congr rfl rfl rfl) ?_
    rw [results_skip hnone]
    exact ho

/-- A slot that has been read is given back; what is still read of it is what was there. -/
theorem Inv.giveBack (hn : 0 < n) (hsafe : strict → ∀ b, (∃ a, S b = .ret a) ∨ guard)
    (hcur : s.cur = s.advanced.length % n) (hgiven : GivenBack ts s) {b : β}
    (hp : s.prog = .release s.cur (.next ((S b).at s.cur (fun a => .ret (some a)))))
    (heval : b = R.eval (s.slots s.cur).frame) (hst : (s.slots s.cur).status ≠ 0)
    (hfl : flagged ts (s.slots s.cur).status = false) (hw : Window n ts s.advanced.length s)
    (ho : strict → s.out = results ts R S s.advanced.length s.filled) :
    Inv n ts R S strict guard (s.go n (turn ts R S)) := by
  rw [go_release hp]
  rw [hcur] at hst hfl
  have hx := hw.ready hn hst hfl
  refine ⟨hcur, hgiven, .moving (S b) _ rfl hx hfl (fun _ => ?_) (fun hs k hk => ⟨?_, ?_⟩) rfl ?_ ho⟩
  · rw [← hcur, spec, ← heval]
  · rw [← hcur]
    exact update_self ..
  · rcases hsafe hs b with ⟨a, ha⟩ | hgd
    · rw [ha] at hk
      cases hk
    · exact hgd
  · exact hw.release hx (by rw [hcur]) rfl rfl

/-- **The consumer's operations keep the invariant.** -/
theorem Inv.go (hn : 0 < n) (hz : flagged ts 0 = false) (hsafe : strict → ∀ b, (∃ a, S b = .ret a) ∨ guard)
    (h : Inv n ts R S strict guard s) : Inv n ts R S strict guard (s.go n (turn ts R S)) := by
  obtain ⟨hcur, hgiven, hphase⟩ := h
  cases hphase with
  | look hp hg hw ho =>
    rcases hp with hp | hp | hp
    · rw [go_none hp]
      exact ⟨hcur, hgiven, .look (.inr (.inl rfl)) hg (hw.congr rfl rfl rfl) ho⟩
    · rw [go_get hp]
      exact ⟨hcur, hgiven, .look (.inr (.inr rfl)) hg (hw.congr rfl rfl rfl) ho⟩
    · rw [go_status hp]
      by_cases h0 : (s.slots s.cur).status = 0
      · rw [if_pos h0]
        exact ⟨hcur, hgiven, .look (.inl rfl) hg (hw.congr rfl rfl rfl) ho⟩
      · rw [if_neg h0]
        exact ⟨hcur, hgiven, .tests [] ts rfl rfl h0 (fun u hu => nomatch hu) hg (hw.congr rfl rfl rfl) ho⟩
  | test pre t post hts hp hst hpre hg hw ho =>
    rw [go_status hp]
    cases ht : t (s.slots s.cur).status with
    | true =>
      have hfl : flagged ts (s.slots s.cur).status = true := by
        rw [flagged, List.any_eq_true]
        exact ⟨t, hts ▸ List.mem_append_right _ List.mem_cons_self, ht⟩
      exact ⟨hcur, hgiven, .skip rfl hfl hg (hw.congr rfl rfl rfl) ho⟩
    | false =>
      have hpre' : ∀ u ∈ pre ++ [t], u (s.slots s.cur).status = false := by
        intro u hu
        rcases List.mem_append.mp hu with hu | hu
        · exact hpre u hu
        · rw [List.mem_singleton.mp hu]
          exact ht
      exact ⟨hcur, hgiven, .tests (pre ++ [t]) post (by rw [hts, List.append_cons]) rfl hst hpre' hg
        (hw.congr rfl rfl rfl) ho⟩
  | skip hp hfl hg hw ho => exact Inv.passOver hz hcur hgiven hp hfl hg hw ho
  | read R' hp heval hst hfl hg hw ho =>
    cases R' with
    | read k =>
      rw [go_read hp]
      exact ⟨hcur, hgiven, .read (k _) rfl heval hst hfl hg (hw.congr rfl rfl rfl) ho⟩
    | ret b => exact Inv.giveBack hn hsafe hcur hgiven hp heval hst hfl hw ho
  | moving S' x hp hx hfl heval hkeep hg hw ho =>
    rw [go_next hp]
    refine ⟨cur_succ hcur _, hgiven.snoc rfl rfl ?_, ?_⟩
    · rw [hg]
      exact ⟨fun _ => ⟨x, hx, hfl⟩, fun _ => rfl⟩
    · rw [List.length_append, List.length_singleton]
      exact .work S' x s.cur s.advanced.length rfl rfl hx hfl heval hkeep rfl (hw.congr rfl rfl rfl) ho
  | work S' x i j hp hc hx hfl heval hkeep hg hw ho =>
    cases S' with
    | read k =>
      rw [go_read hp]
      refine ⟨hcur, hgiven, .work (k _) x i j rfl hc hx hfl (fun hs => ?_) (fun hs _ _ => hkeep hs k rfl) hg
        (hw.congr rfl rfl rfl) ho⟩
      rw [(hkeep hs k rfl).1]
      exact heval hs
    | ret a =>
      rw [go_some hp]
      refine ⟨hcur, hgiven, .look (.inr (.inl rfl)) hg (hw.congr rfl rfl rfl) (fun hs => ?_)⟩
      dsimp only
      rw [hc, results_succ hx hfl, ho hs, ← heval hs]
      rfl

theorem inv_start (f : F) : Inv n ts R S strict guard (start (turn ts R S) f) := by
  refine ⟨(Nat.zero_mod n).symm, fun j b hb => (nomatch hb), .look (.inr (.inl rfl)) rfl ?_ (fun _ => rfl)⟩
  exact ⟨(Nat.zero_mod n).symm, fun x hx => (nomatch hx), fun j x _ hx => (nomatch hx), Nat.zero_le _,
    fun i _ _ => .inl rfl, fun j _ hj => nomatch hj⟩

/-- **Every run keeps the invariant.**  If the consumer still reads what it has given back, then this asks of the
producer to leave alone what is being read. -/
theorem reach_inv {ok : Sys F α → Prop} {f : F} (hn : 0 < n) (hz : flagged ts 0 = false)
    (hsafe : strict → ∀ b, (∃ a, S b = .ret a) ∨ guard) (hguard : guard → ∀ s, ok s → s.prog.reading ≠ some s.head)
    (h : Reach n (turn ts R S) ok (start (turn ts R S) f) s) : Inv n ts R S strict guard s := by
  induction h with
  | start => exact inv_start f
  | fill _ hok hf ih => exact ih.fill hn hz hguard hok hf
  | go _ ih => exact ih.go hn hz hsafe

/-! ## What a run has come to -/

/-- **The results are those of the frames filled in, in order.** -/
theorem Inv.out (h : Inv n ts R S True guard s) : ∃ c, s.out = results ts R S c s.filled := by
  cases h.phase with
  | look _ _ _ ho | test _ _ _ _ _ _ _ _ _ ho | skip _ _ _ _ ho | read _ _ _ _ _ _ _ ho
  | moving _ _ _ _ _ _ _ _ _ ho | work _ _ _ _ _ _ _ _ _ _ _ _ ho => exact ⟨_, ho trivial⟩

theorem Inv.window (h : Inv n ts R S strict guard s) :
    ∃ e, Window n ts e s ∧ s.advanced.length ≤ e ∧ (s.filled.length ≤ s.advanced.length → e = s.advanced.length) := by
  cases h.phase with
  | look _ _ hw _ | test _ _ _ _ _ _ _ _ hw _ | skip _ _ _ hw _ | read _ _ _ _ _ _ hw _
  | work _ _ _ _ _ _ _ _ _ _ _ hw _ => exact ⟨_, hw, Nat.le_refl _, fun _ => rfl⟩
  | moving _ _ _ hx _ _ _ _ hw _ =>
    have := (List.getElem?_eq_some_iff.mp hx).1
    exact ⟨_, hw, Nat.le_succ _, fun hle => absurd this (Nat.not_lt.mpr hle)⟩

/-- Moving past more slots than were filled takes a frame that is passed over. -/
theorem Window.stale {e : Nat} (hn : 0 < n) (hz : flagged ts 0 = false) (h : Window n ts e s) (hlt : s.filled.length < e) :
    ∃ x ∈ s.filled, flagged ts x.status = true := by
  have hfl := h.past _ (Nat.le_refl _) hlt
  rcases h.idle _ (Nat.mod_lt s.filled.length hn) (fun j hj hjm => by omega) with h0 | ⟨hmem, -⟩
  · rw [h0, hz] at hfl
    cases hfl
  · exact ⟨_, List.mem_of_mem_take hmem, hfl⟩

theorem count_given : ∀ (a : List Bool) (l : List (Slot F)),
    (∀ (j : Nat) b, a[j]? = some b → (b = true ↔ ∃ x, l[j]? = some x ∧ flagged ts x.status = false)) →
    a.count true = ((l.take a.length).filter (fun x => !flagged ts x.status)).length
  | [], l, _ => by simp
  | b :: a, [], h => by
    have hb : b = false := by
      have := h 0 b rfl
      simpa using this
    have := count_given a [] (fun j => h (j + 1))
    rw [hb, List.count_cons_of_ne (by decide), this]
    simp
  | b :: a, x :: l, h => by
    have hb : b = !flagged ts x.status := by
      have := h 0 b rfl
      cases b <;> simpa using this
    have := count_given a l (fun j => h (j + 1))
    rw [List.length_cons, List.take_succ_cons, List.filter_cons, ← hb]
    cases b with
    | true => rw [List.count_cons_self, this, if_pos rfl, List.length_cons]
    | false => rw [List.count_cons_of_ne (by decide), this, if_neg (by decide)]

theorem Inv.count (h : Inv n ts R S strict guard s) :
    s.advanced.count true = (results ts R S s.advanced.length s.filled).length := by
  rw [results, List.length_map]
  exact count_given _ _ h.given

/-- The slots given back are those of frames that were not to be passed over, and there were such frames. -/
theorem Inv.advanced_true (hn : 0 < n) (hz : flagged ts 0 = false) (h : Inv n ts R S strict guard s)
    (hun : ∀ x ∈ s.filled, flagged ts x.status = false) : ∀ b ∈ s.advanced, b = true := by
  intro b hb
  obtain ⟨j, hj, rfl⟩ := List.getElem_of_mem hb
  refine (h.given j _ (List.getElem?_eq_getElem hj)).mpr ?_
  obtain ⟨e, hw, hce, -⟩ := h.window
  have hlt : j < s.filled.length := by
    by_contra hle
    obtain ⟨x, hx, hfl⟩ := hw.stale hn hz (by omega)
    rw [hun x hx] at hfl
    cases hfl
  exact ⟨s.filled[j], List.getElem?_eq_getElem hlt, hun _ (List.getElem_mem hlt)⟩

/-- The producer can go on filling. -/
theorem Inv.fill_ready (hn : 0 < n) (h : Inv n ts R S strict guard s) (hun : ∀ x ∈ s.filled, flagged ts x.status = false)
    (hdr : s.filled.length ≤ s.advanced.length) {x : Slot F} (hx : x.status ≠ 0) : ∃ s', s.fill n x = some s' := by
  obtain ⟨e, hw, -, he⟩ := h.window
  have hfree : (s.slots s.head).status = 0 := by
    rw [hw.head]
    have := he hdr
    rcases hw.idle _ (Nat.mod_lt _ hn) (fun j hj hjm => by omega) with h0 | ⟨hmem, hfl⟩
    · exact h0
    · rw [hun _ (List.mem_of_mem_take hmem)] at hfl
      cases hfl
  exact ⟨_, if_pos ⟨hx, hfree⟩⟩

/-! ## The consumer alone -/

/-- The consumer's next `j` operations. -/
def Sys.after (n : Nat) (m : Prog F (Option α)) : Nat → Sys F α → Sys F α
  | 0,     s => s
  | j + 1, s => (s.go n m).after n m j

variable {m : Prog F (Option α)}

theorem after_add (i j : Nat) (s : Sys F α) : s.after n m (i + j) = (s.after n m i).after n m j := by
  induction i generalizing s with
  | zero => rw [Nat.zero_add, Sys.after]
  | succ i ih => rw [Nat.succ_add, Sys.after, Sys.after, ih]

theorem go_filled (s : Sys F α) : (s.go n m).filled = s.filled := by
  unfold Sys.go
  split <;> rfl

theorem go_advanced (s : Sys F α) : s.advanced.length ≤ (s.go n m).advanced.length := by
  unfold Sys.go
  split <;> simp

theorem after_filled (j : Nat) (s : Sys F α) : (s.after n m j).filled = s.filled := by
  induction j generalizing s with
  | zero => rfl
  | succ j ih => rw [Sys.after, ih, go_filled]

theorem after_advanced (j : Nat) (s : Sys F α) : s.advanced.length ≤ (s.after n m j).advanced.length := by
  induction j generalizing s with
  | zero => exact Nat.le_refl _
  | succ j ih => exact Nat.le_trans (go_advanced s) (ih _)

theorem Inv.after (hn : 0 < n) (hz : flagged ts 0 = false) (hsafe : strict → ∀ b, (∃ a, S b = .ret a) ∨ guard)
    (h : Inv n ts R S strict guard s) (j : Nat) : Inv n ts R S strict guard (s.after n (turn ts R S) j) := by
  induction j generalizing s with
  | zero => exact h
  | succ j ih => exact ih (h.go hn hz hsafe)

/-- Induction over what is left of a turn. -/
theorem go_induct {P : Sys F α → Prop} (hret : ∀ s r, s.prog = .ret r → P s) (hgo : ∀ s, P (s.go n m) → P s) :
    ∀ (p : Prog F (Option α)) (s : Sys F α), s.prog = p → P s
  | .ret r,       s, hp => hret s r hp
  | .get k,       s, hp => hgo s (go_induct hret hgo (k s.cur) _ (by rw [go_get hp]))
  | .status i k,  s, hp => hgo s (go_induct hret hgo (k (s.slots i).status) _ (by rw [go_status hp]))
  | .read i k,    s, hp => hgo s (go_induct hret hgo (k (s.slots i).frame) _ (by rw [go_read hp]))
  | .release _ k, s, hp => hgo s (go_induct hret hgo k _ (by unfold Sys.go; rw [hp]))
  | .next k,      s, hp => hgo s (go_induct hret hgo k _ (by rw [go_next hp]))

/-- A turn ends. -/
theorem exists_ret (s : Sys F α) : ∃ j r, (s.after n m j).prog = .ret r := by
  apply go_induct (n := n) (m := m) (P := fun s => ∃ j r, (s.after n m j).prog = .ret r) _ _ s.prog s rfl
  · exact fun s r hp => ⟨0, r, hp⟩
  · rintro s ⟨j, r, h⟩
    exact ⟨j + 1, r, h⟩

/-- Whatever it reads, it moves on to the next slot. -/
def Prog.Moves : Prog F α → Prop
  | .ret _       => False
  | .get k       => ∀ i, (k i).Moves
  | .status _ k  => ∀ st, (k st).Moves
  | .read _ k    => ∀ f, (k f).Moves
  | .release _ k => k.Moves
  | .next _      => True

theorem moves_at {i : Nat} {c : β → Prog F α} (hc : ∀ b, (c b).Moves) : ∀ r : Reader F β, (r.at i c).Moves
  | .ret b  => hc b
  | .read k => fun f => moves_at hc (k f)

theorem moves_body (i : Nat) : (body R S i).Moves := by
  apply moves_at
  intro b
  trivial

theorem moves_tests {i : Nat} {p : Prog F (Option α)} (hp : p.Moves) : ∀ ts, (tests i p ts).Moves
  | []      => hp
  | t :: ts => by
    intro st
    dsimp only
    split
    · trivial
    · exact moves_tests hp ts

theorem Prog.Moves.go {s : Sys F α} (hm : s.prog.Moves) :
    s.advanced.length < (s.go n m).advanced.length ∨ (s.go n m).prog.Moves := by
  cases hp : s.prog with
  | ret r => rw [hp] at hm; exact hm.elim
  | get k => rw [hp] at hm; rw [go_get hp]; exact .inr (hm _)
  | status i k => rw [hp] at hm; rw [go_status hp]; exact .inr (hm _)
  | read i k => rw [hp] at hm; rw [go_read hp]; exact .inr (hm _)
  | release i k => rw [hp] at hm; unfold Sys.go; rw [hp]; exact .inr hm
  | next k =>
    left
    rw [go_next hp, List.length_append]
    exact Nat.lt_succ_self _

theorem Prog.Moves.advances {s : Sys F α} :
    s.prog.Moves → ∃ j, s.advanced.length < (s.after n m j).advanced.length := by
  apply go_induct (n := n) (m := m) (P := fun s => s.prog.Moves →
    ∃ j, s.advanced.length < (s.after n m j).advanced.length) _ _ s.prog s rfl
  · intro s r hp hm
    rw [hp] at hm
    exact hm.elim
  · intro s ih hm
    rcases hm.go (n := n) (m := m) with h | h
    · exact ⟨1, h⟩
    · obtain ⟨j, hj⟩ := ih h
      exact ⟨j + 1, Nat.lt_of_le_of_lt (go_advanced s) hj⟩

/-- Between turns the consumer is about to look again. -/
theorem Inv.look {r : Option α} (h : Inv n ts R S strict guard s) (hp : s.prog = .ret r) :
    (s.go n (turn ts R S)).prog = turn ts R S ∧ (s.go n (turn ts R S)).slots = s.slots ∧
      (s.go n (turn ts R S)).cur = s.cur ∧ Window n ts s.advanced.length s := by
  refine ⟨?_, ?_, ?_, ?_⟩
  · cases r with
    | none => rw [go_none hp]
    | some a => rw [go_some hp]
  · cases r with
    | none => rw [go_none hp]
    | some a => rw [go_some hp]
  · cases r with
    | none => rw [go_none hp]
    | some a => rw [go_some hp]
  · cases h.phase with
    | look _ _ hw _ | test _ _ _ _ _ _ _ _ hw _ | skip _ _ _ hw _ | read _ _ _ _ _ _ hw _
    | work _ _ _ _ _ _ _ _ _ _ _ hw _ => exact hw
    | moving _ _ hp' => cases hp.symm.trans hp'

/-- While there is a frame left, the consumer gets on. -/
theorem Inv.advances (hn : 0 < n) (hz : flagged ts 0 = false) (hsafe : strict → ∀ b, (∃ a, S b = .ret a) ∨ guard)
    (h : Inv n ts R S strict guard s) (hlt : s.advanced.length < s.filled.length) :
    ∃ j, s.advanced.length < (s.after n (turn ts R S) j).advanced.length := by
  obtain ⟨j, r, hp⟩ := exists_ret (n := n) (m := turn ts R S) s
  have hj := h.after hn hz hsafe j
  have hmono := after_advanced (n := n) (m := turn ts R S) j s
  have hfilled := after_filled (n := n) (m := turn ts R S) j s
  generalize hs : s.after n (turn ts R S) j = t at hp hj hmono hfilled
  rcases Nat.eq_or_lt_of_le hmono with heq | hgt
  case inr => exact ⟨j, by rw [hs]; exact hgt⟩
  obtain ⟨hp₁, hslots, hcur, hw⟩ := hj.look hp
  have hst : (t.slots t.cur).status ≠ 0 := by
    have hlt' : t.advanced.length < t.filled.length := by rw [← heq, hfilled]; exact hlt
    rw [hj.cur, hw.live _ _ (Nat.le_refl _) (List.getElem?_eq_getElem hlt')]
    exact hw.nonzero _ (List.getElem_mem hlt')
  -- two more operations find the slot occupied
  have hmoves : ((t.after n (turn ts R S) 3).prog).Moves := by
    rw [Sys.after, Sys.after, Sys.after, Sys.after, go_status (by rw [go_get hp₁])]
    rw [go_get hp₁, hslots, hcur, if_neg hst]
    exact moves_tests (moves_body _) ts
  obtain ⟨i, hi⟩ := hmoves.advances (n := n) (m := turn ts R S)
  refine ⟨j + (3 + i), ?_⟩
  rw [after_add, hs, after_add, heq]
  exact Nat.lt_of_le_of_lt (after_advanced 3 t) hi

/-- **The consumer drains the ring.** -/
theorem Inv.drains (hn : 0 < n) (hz : flagged ts 0 = false) (hsafe : strict → ∀ b, (∃ a, S b = .ret a) ∨ guard)
    (h : Inv n ts R S strict guard s) : ∃ j, s.filled.length ≤ (s.after n (turn ts R S) j).advanced.length := by
  generalize hd : s.filled.length - s.advanced.length = d
  induction d using Nat.strongRecOn generalizing s with
  | ind d ih =>
    by_cases hlt : s.advanced.length < s.filled.length
    · obtain ⟨j, hj⟩ := h.advances hn hz hsafe hlt
      have hfilled := after_filled (n := n) (m := turn ts R S) j s
      obtain ⟨i, hi⟩ := ih _ (by rw [← hd, hfilled]; omega) (h.after hn hz hsafe j) rfl
      exact ⟨j + i, by rw [after_add, ← hfilled]; exact hi⟩
    · exact ⟨0, by rw [Sys.after]; omega⟩

theorem results_all (h : l.length ≤ c) : results ts R S c l = results ts R S l.length l := by
  unfold results
  rw [List.take_of_length_le h, List.take_length]

/-- **The consumer comes to have the results of all frames.** -/
theorem Inv.finishes (hn : 0 < n) (hz : flagged ts 0 = false) (hsafe : True → ∀ b, (∃ a, S b = .ret a) ∨ guard)
    (h : Inv n ts R S True guard s) : ∃ j, (s.after n (turn ts R S) j).out = results ts R S s.filled.length s.filled := by
  obtain ⟨j, hj⟩ := h.drains hn hz hsafe
  obtain ⟨i, r, hp⟩ := exists_ret (n := n) (m := turn ts R S) (s.after n (turn ts R S) j)
  have hinv := (h.after hn hz hsafe j).after hn hz hsafe i
  have hlook := (hinv.look hp).1
  refine ⟨j + (i + 1), ?_⟩
  rw [after_add, after_add, Sys.after, Sys.after]
  have hfilled := after_filled (n := n) (m := turn ts R S) (j + (i + 1)) s
  have hadv := after_advanced (n := n) (m := turn ts R S) (i + 1) (s.after n (turn ts R S) j)
  rw [after_add, after_add, Sys.after, Sys.after] at hfilled
  rw [after_add, Sys.after, Sys.after] at hadv
  have hinv' := hinv.go hn hz hsafe
  rw [← hfilled]
  cases hinv'.phase with
  | look _ _ _ ho =>
    rw [ho trivial]
    exact results_all (by rw [hfilled]; omega)
  | test _ _ _ _ hp' => cases hlook.symm.trans hp'
  | skip hp' => cases hlook.symm.trans hp'
  | read R' hp' => cases R' <;> cases hlook.symm.trans hp'
  | moving _ _ hp' => cases hlook.symm.trans hp'
  | work S' _ _ _ hp' => cases S' <;> cases hlook.symm.trans hp'

/-- Going on alone, the consumer gives back every slot it moves past, it drains the ring, and once it has done so the
producer can fill. -/
structure GivesBack (n : Nat) (m : Prog F (Option α)) (s : Sys F α) : Prop where
  given : ∀ j, ∀ b ∈ (s.after n m j).advanced, b = true
  drains : ∃ j, s.filled.length ≤ (s.after n m j).advanced.length
  ready : ∀ j, s.filled.length ≤ (s.after n m j).advanced.length → ∀ x : Slot F, x.status ≠ 0 →
    ∃ s', (s.after n m j).fill n x = some s'

/-- **The slots are given back exactly if no frame is to be passed over.** -/
theorem Inv.givesBack_iff (hn : 0 < n) (hz : flagged ts 0 = false)
    (hsafe : strict → ∀ b, (∃ a, S b = .ret a) ∨ guard) (h : Inv n ts R S strict guard s) :
    GivesBack n (turn ts R S) s ↔ ∀ x ∈ s.filled, flagged ts x.status = false := by
  have hinv := h.after hn hz hsafe
  have hfilled := fun j => after_filled (n := n) (m := turn ts R S) j s
  constructor
  · rintro ⟨hgiven, ⟨j, hj⟩, -⟩ x hx
    obtain ⟨i, hi, rfl⟩ := List.getElem_of_mem hx
    have hi' : i < (s.after n (turn ts R S) j).advanced.length := by omega
    obtain ⟨y, hy, hfl⟩ := ((hinv j).given i _ (List.getElem?_eq_getElem hi')).mp
      (hgiven j _ (List.getElem_mem hi'))
    rw [hfilled, List.getElem?_eq_getElem hi] at hy
    cases hy
    exact hfl
  · intro hun
    have hun' : ∀ j, ∀ x ∈ (s.after n (turn ts R S) j).filled, flagged ts x.status = false := by
      intro j
      rw [hfilled]
      exact hun
    refine ⟨fun j => (hinv j).advanced_true hn hz (hun' j), h.drains hn hz hsafe, fun j hj x hx => ?_⟩
    exact (hinv j).fill_ready hn (hun' j) (by rw [hfilled]; exact hj) hx

end Invariant

end Ring
end Bb
