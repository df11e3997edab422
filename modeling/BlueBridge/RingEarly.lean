import BlueBridge.RingRun
import Mathlib.Data.List.Induction
/-!
# RingEarly — consumers that give a slot back before they have read it

A consumer `Owns` what it is going to read if no such slot is the producer's.  One that works on nothing it has given
back owns it in every state (`Inv.owns`).  One that still reads after giving back (`hS` below) does not own what it reads
from the moment a frame is given back, whatever the producer does: so in the states of a schedule, and those the consumer
comes to when it is then left alone, it owns what it reads exactly if all frames of the schedule are passed over
(`always_owns_iff`).
-/
namespace Bb
namespace Ring

open Function (update update_self update_of_ne)

variable {F α β : Type}

/-- What is still to be read is not the producer's. -/
def Sys.Owns (s : Sys F α) : Prop := ∀ i, s.prog.reading = some i → (s.slots i).status ≠ 0

/-- In every state of the schedule, and for as long as the consumer then goes on alone. -/
def Always (n : Nat) (m : Prog F (Option α)) (P : Sys F α → Prop) (l : List (Option (Slot F))) (s₀ : Sys F α) : Prop :=
  ∀ j l' s, l' <+: l ++ List.replicate j none → run n m l' s₀ = some s → P s

/-! ## Schedules -/

section Schedules

variable {n : Nat} {m : Prog F (Option α)}

theorem run_append : ∀ (l l' : List (Option (Slot F))) (s : Sys F α),
    run n m (l ++ l') s = (run n m l s).bind (run n m l')
  | [], _, _ => rfl
  | none :: l, l', s => run_append l l' (s.go n m)
  | some x :: l, l', s => by
    rw [List.cons_append, run, run, Option.bind_assoc]
    exact congrArg _ (funext (run_append l l'))

theorem run_alone (j : Nat) (s : Sys F α) : run n m (List.replicate j none) s = some (s.after n m j) := by
  induction j generalizing s with
  | zero => rfl
  | succ j ih => exact ih _

theorem reach_after {s₀ s : Sys F α} (h : Reach n m (fun _ => True) s₀ s) (j : Nat) :
    Reach n m (fun _ => True) s₀ (s.after n m j) :=
  reach_run _ _ _ h (run_alone j s)

theorem go_head (s : Sys F α) : (s.go n m).head = s.head := by
  unfold Sys.go
  split <;> rfl

theorem after_head (j : Nat) (s : Sys F α) : (s.after n m j).head = s.head := by
  induction j generalizing s with
  | zero => rfl
  | succ j ih => rw [Sys.after, ih, go_head]

theorem run_filled : ∀ (l : List (Option (Slot F))) {s s' : Sys F α},
    run n m l s = some s' → s'.filled = s.filled ++ l.filterMap id
  | [], s, s', h => by
    cases h
    simp
  | none :: l, s, s', h => by
    rw [run_filled l h, go_filled]
    simp
  | some x :: l, s, s', h => by
    obtain ⟨t, ht, h⟩ := Option.bind_eq_some_iff.mp h
    obtain ⟨-, -, rfl⟩ := fill_eq ht
    rw [run_filled l h]
    simp

theorem run_start_filled {l : List (Option (Slot F))} {f : F} {s : Sys F α} (h : run n m l (start m f) = some s) :
    s.filled = l.filterMap id := by
  rw [run_filled l h, start, List.nil_append]

/-- **A ring can be filled at once.** -/
theorem run_full {f : F} (xs : List (Slot F)) (hlen : xs.length ≤ n) (hxs : ∀ x ∈ xs, x.status ≠ 0) :
    run n m (xs.map some) (start m f) = some { start m f with
      slots := fun i => xs[i]?.getD ⟨0, f⟩, head := xs.length % n, filled := xs } := by
  induction xs using List.reverseRecOn with
  | nil => simp [run, start]
  | append_singleton xs x ih =>
    rw [List.length_append, List.length_singleton] at hlen
    have hmod : xs.length % n = xs.length := Nat.mod_eq_of_lt (by omega)
    rw [List.map_append, run_append, ih (by omega) (fun y hy => hxs y (List.mem_append_left _ hy)), Option.bind_some,
      List.map_singleton, run, Sys.fill, if_pos ⟨hxs x (by simp), by simp [hmod]⟩, Option.bind_some, run]
    simp only [hmod, List.length_append, List.length_singleton]
    congr 2
    funext i
    rcases Nat.lt_trichotomy i xs.length with h | rfl | h
    · rw [update_of_ne (by omega), List.getElem?_append_left h]
    · rw [update_self, List.getElem?_concat_length, Option.getD_some]
    · rw [update_of_ne (by omega), List.getElem?_eq_none (by omega), List.getElem?_eq_none (by simp; omega)]

end Schedules

section Early

variable {n : Nat} {ts : List (UInt32 → Bool)} {R : Reader F β} {S : β → Reader F α} {strict guard : Prop}
  {s s' : Sys F α}

theorem reading_at {i j : Nat} {c : β → Prog F α} (hc : ∀ b, (c b).reading = none ∨ (c b).reading = some i)
    {r : Reader F β} (h : (r.at i c).reading = some j) : j = i := by
  cases r with
  | read k => exact (Option.some.inj h).symm
  | ret b =>
    rcases hc b with h0 | h0
    · cases h0.symm.trans h
    · exact Option.some.inj (h.symm.trans h0)

theorem reading_work {i : Nat} (r : Reader F α) :
    (r.at i (fun a => Prog.ret (some a))).reading = none ∨ (r.at i (fun a => Prog.ret (some a))).reading = some i := by
  cases r with
  | read k => exact .inr rfl
  | ret a => exact .inl rfl

/-- **What is read before it is given back is owned.** -/
theorem Inv.owns (h : Inv n ts R S True False s) : s.Owns := by
  intro i hi
  cases h.phase with
  | look hp => rcases hp with hp | hp | hp <;> (rw [hp] at hi; cases hi)
  | test pre t post hts hp => rw [hp] at hi; cases hi
  | skip hp => rw [hp] at hi; cases hi
  | read R' hp heval hst =>
    rw [hp] at hi
    have hcur : i = s.cur := reading_at (fun b => by exact reading_work (S b)) hi
    rw [hcur]
    exact hst
  | moving S' x hp hx hfl heval hkeep =>
    cases S' with
    | read k => exact (hkeep trivial k rfl).2.elim
    | ret a => rw [hp] at hi; cases hi
  | work S' x i' j hp hc hx hfl heval hkeep =>
    cases S' with
    | read k => exact (hkeep trivial k rfl).2.elim
    | ret a => rw [hp] at hi; cases hi

/-- The slot that is given back is the consumer's, it has a frame to be taken, and the work is still to be done. -/
theorem Inv.release {i : Nat} {k : Prog F (Option α)} (h : Inv n ts R S strict guard s) (hp : s.prog = .release i k) :
    i = s.cur ∧ flagged ts (s.slots i).status = false ∧ ∃ b, k = .next ((S b).at i (fun a => .ret (some a))) := by
  cases h.phase with
  | look hp' => rcases hp' with hp' | hp' | hp' <;> cases hp.symm.trans hp'
  | test pre t post hts hp' => cases hp.symm.trans hp'
  | skip hp' => cases hp.symm.trans hp'
  | moving S' x hp' => cases hp.symm.trans hp'
  | work S' x i' j hp' => cases S' <;> cases hp.symm.trans hp'
  | read R' hp' heval hst hfl =>
    cases R' with
    | read k' => cases hp.symm.trans hp'
    | ret b =>
      cases hp.symm.trans hp'
      exact ⟨rfl, hfl, b, rfl⟩

/-! ## Frames that are passed over -/

/-- A slot that is to be passed over stays as it is. -/
theorem Inv.go_flagged {i : Nat} (h : Inv n ts R S strict guard s) (hi : flagged ts (s.slots i).status = true) :
    (s.go n (turn ts R S)).slots i = s.slots i := by
  cases hp : s.prog with
  | ret r => cases r <;> simp [Sys.go, hp]
  | get k | status j k | read j k | next k => simp [Sys.go, hp]
  | release j k =>
    have hne : i ≠ j := by
      rintro rfl
      rw [(h.release hp).2.1] at hi
      cases hi
    simp [Sys.go, hp, update_of_ne hne]

theorem Inv.after_flagged (hn : 0 < n) (hz : flagged ts 0 = false) {i : Nat} (h : Inv n ts R S False False s)
    (hi : flagged ts (s.slots i).status = true) (j : Nat) : (s.after n (turn ts R S) j).slots i = s.slots i := by
  induction j generalizing s with
  | zero => rfl
  | succ j ih =>
    have hgo := h.go_flagged hi
    rw [Sys.after, ih (h.go hn hz (fun h => h.elim)) (hgo ▸ hi), hgo]

/-- If all frames are to be passed over then none is read or worked on. -/
theorem Inv.idle (hn : 0 < n) (h : Inv n ts R S strict guard s) (hall : ∀ x ∈ s.filled, flagged ts x.status = true) :
    s.prog.reading = none ∧ ∀ a, s.prog ≠ .ret (some a) := by
  have hno : ∀ (j : Nat) x, s.filled[j]? = some x → flagged ts x.status ≠ false := by
    intro j x hx hfl
    rw [hall x (List.mem_of_getElem? hx)] at hfl
    cases hfl
  cases h.phase with
  | look hp => rcases hp with hp | hp | hp <;> (rw [hp]; exact ⟨rfl, nofun⟩)
  | test pre t post hts hp => rw [hp]; exact ⟨rfl, nofun⟩
  | skip hp => rw [hp]; exact ⟨rfl, nofun⟩
  | read R' hp heval hst hfl hg hw =>
    rw [h.cur] at hst hfl
    exact (hno _ _ (hw.ready hn hst hfl) hfl).elim
  | moving S' x hp hx hfl => exact (hno _ _ hx hfl).elim
  | work S' x i j hp hc hx hfl => exact (hno _ _ hx hfl).elim

theorem go_out {m : Prog F (Option α)} (h : ∀ a, s.prog ≠ .ret (some a)) : (s.go n m).out = s.out := by
  unfold Sys.go
  split <;> first | rfl | exact (h _ ‹_›).elim

/-- **If all frames are to be passed over there are no results.** -/
theorem reach_idle {ok : Sys F α → Prop} {f : F} (hn : 0 < n) (hz : flagged ts 0 = false)
    (h : Reach n (turn ts R S) ok (start (turn ts R S) f) s) (hall : ∀ x ∈ s.filled, flagged ts x.status = true) :
    s.out = [] := by
  induction h with
  | start => rfl
  | fill h hok hf ih =>
    obtain ⟨-, -, rfl⟩ := fill_eq hf
    exact ih (fun x hx => hall x (List.mem_append_left _ hx))
  | go h ih =>
    have hinv : Inv n ts R S False False _ := reach_inv hn hz (fun h => h.elim) (fun h => h.elim) h
    rw [go_filled] at hall
    rw [go_out (hinv.idle hn hall).2]
    exact ih hall

/-! ## Frames that are taken -/

/-- While what is read is owned, no slot is given back: the work would be done on a slot of the producer's. -/
theorem Inv.go_not_given (hS : ∀ b, ∃ k, S b = .read k) (h : Inv n ts R S strict guard s)
    (hown : (s.go n (turn ts R S)).Owns) (hg : s.given = false) (hadv : true ∉ s.advanced) :
    (s.go n (turn ts R S)).given = false ∧ true ∉ (s.go n (turn ts R S)).advanced := by
  cases hp : s.prog with
  | ret r => cases r <;> simp [Sys.go, hp, hg, hadv]
  | get k | status j k | read j k | next k => simp [Sys.go, hp, hg, hadv]
  | release i k =>
    obtain ⟨-, -, b, rfl⟩ := h.release hp
    obtain ⟨k', hk'⟩ := hS b
    rw [hk'] at hp
    exact (hown i (by simp [Sys.go, hp]; rfl) (by simp [Sys.go, hp])).elim

theorem run_not_given (hn : 0 < n) (hz : flagged ts 0 = false) (hS : ∀ b, ∃ k, S b = .read k) :
    ∀ (l : List (Option (Slot F))) {s s' : Sys F α}, Inv n ts R S False False s → s.given = false →
      true ∉ s.advanced → (∀ l' t, l' <+: l → run n (turn ts R S) l' s = some t → t.Owns) →
      run n (turn ts R S) l s = some s' → true ∉ s'.advanced
  | [], s, s', _, _, hadv, _, h => by
    cases h
    exact hadv
  | none :: l, s, s', hinv, hg, hadv, hown, h => by
    have hgo := hinv.go_not_given hS (hown [none] _ (by simp) rfl) hg hadv
    exact run_not_given hn hz hS l (hinv.go hn hz (fun h => h.elim)) hgo.1 hgo.2
      (fun l' t hl' ht => hown (none :: l') t (List.cons_prefix_cons.mpr ⟨rfl, hl'⟩) ht) h
  | some x :: l, s, s', hinv, hg, hadv, hown, h => by
    obtain ⟨t, ht, h⟩ := Option.bind_eq_some_iff.mp h
    have ht' := ht
    have hguard : False → ∀ s : Sys F α, True → s.prog.reading ≠ some s.head := fun h => h.elim
    have hinv' := hinv.fill hn hz hguard trivial ht
    obtain ⟨-, -, rfl⟩ := fill_eq ht
    refine run_not_given hn hz hS l hinv' hg hadv (fun l' u hl' hu => ?_) h
    exact hown (some x :: l') u (List.cons_prefix_cons.mpr ⟨rfl, hl'⟩) (by rw [run, ht', Option.bind_some, hu])

/-- **A consumer that works on what it has given back owns what it reads exactly if it takes no frame**, and then it has
no results. -/
theorem always_owns_iff {f : F} {l : List (Option (Slot F))} (hn : 0 < n) (hz : flagged ts 0 = false)
    (hS : ∀ b, ∃ k, S b = .read k) (hl : run n (turn ts R S) l (start (turn ts R S) f) = some s) {P : Sys F α → Prop}
    (hP : ∀ s, s.out = [] → P s) :
    Always n (turn ts R S) (fun s => P s ∧ s.Owns) l (start (turn ts R S) f) ↔
      ∀ x, some x ∈ l → flagged ts x.status = true := by
  constructor
  · intro hown x hx
    by_contra hfl
    rw [Bool.not_eq_true] at hfl
    have hinv : Inv n ts R S False False s :=
      reach_inv hn hz (fun h => h.elim) (fun h => h.elim) (reach_run _ _ _ .start hl)
    obtain ⟨j, hj⟩ := hinv.drains hn hz (fun h => h.elim)
    have hrun : run n (turn ts R S) (l ++ List.replicate j none) (start (turn ts R S) f) =
        some (s.after n (turn ts R S) j) := by
      rw [run_append, hl, Option.bind_some, run_alone]
    have hnot := run_not_given hn hz hS _ (inv_start f) rfl (by simp [start])
      (fun l' t hl' ht => (hown j l' t hl' ht).2) hrun
    -- but the frame was taken by then
    have hmem : x ∈ s.filled := by
      rw [run_start_filled hl]
      exact List.mem_filterMap.mpr ⟨_, hx, rfl⟩
    obtain ⟨i, hi, rfl⟩ := List.getElem_of_mem hmem
    have hi' : i < (s.after n (turn ts R S) j).advanced.length := by omega
    have hgiven := ((hinv.after hn hz (fun h => h.elim) j).given i _ (List.getElem?_eq_getElem hi')).mpr
      ⟨_, by rw [after_filled]; exact List.getElem?_eq_getElem hi, hfl⟩
    exact hnot (hgiven ▸ List.getElem_mem hi')
  · intro hall j l' t hl' ht
    have hreach : Reach n (turn ts R S) (fun _ => True) (start (turn ts R S) f) t := reach_run _ _ _ .start ht
    have hmem : ∀ x ∈ t.filled, flagged ts x.status = true := by
      intro x hx
      rw [run_start_filled ht] at hx
      obtain ⟨y, hy, rfl⟩ := List.mem_filterMap.mp hx
      rcases List.mem_append.mp (hl'.subset hy) with h | h
      · exact hall x h
      · cases (List.mem_replicate.mp h).2
    have hinv : Inv n ts R S False False t := reach_inv hn hz (fun h => h.elim) (fun h => h.elim) hreach
    refine ⟨hP t (reach_idle hn hz hreach hmem), fun i hi => ?_⟩
    cases (hinv.idle hn hmem).1.symm.trans hi

end Early

end Ring
end Bb
