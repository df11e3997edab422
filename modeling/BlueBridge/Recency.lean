import Mathlib.Algebra.Order.BigOperators.Group.List
import Mathlib.Algebra.Order.Ring.Nat
import Mathlib.Data.List.Nodup
/-!
# Recency — keys in the order of their last events

A history is the list of the keys that events were about, the latest first.  `stamp h k` is the number of events up to
the last one of `k`, and `Recent h ks` says that `ks` has the latest key in front.  A list of this kind is kept up by
putting the key of each event in front (`Recent.push`); its last key is the one whose last event is the oldest
(`Recent.last_lt`).

`age h k` counts the events since the last one of `k`, that one included.  `Spread h w ks` bounds it by the weights of the
keys in front.
-/
namespace Bb
namespace Recency

variable {α : Type} [DecidableEq α]

def stamp : List α → α → Nat
  | [],     _ => 0
  | e :: h, k => if e = k then h.length + 1 else stamp h k

@[simp] theorem stamp_cons_self (h : List α) (k : α) : stamp (k :: h) k = h.length + 1 := if_pos rfl

theorem stamp_cons_of_ne {h : List α} {e k : α} (he : k ≠ e) : stamp (e :: h) k = stamp h k := if_neg (Ne.symm he)

theorem stamp_le : ∀ (h : List α) (k : α), stamp h k ≤ h.length
  | [],     _ => Nat.le_refl _
  | e :: h, k => by
    have := stamp_le h k
    rw [stamp, List.length_cons]
    split <;> omega

def age (h : List α) (k : α) : Nat := h.length + 1 - stamp h k

@[simp] theorem age_cons_self (h : List α) (k : α) : age (k :: h) k = 1 := by
  rw [age, stamp_cons_self, List.length_cons]
  omega

theorem age_cons_of_ne {h : List α} {e k : α} (he : k ≠ e) : age (e :: h) k = age h k + 1 := by
  have := stamp_le h k
  rw [age, age, stamp_cons_of_ne he, List.length_cons]
  omega

theorem age_pos (h : List α) (k : α) : 0 < age h k := by
  have := stamp_le h k
  rw [age]
  omega

theorem age_lt {h : List α} {a b : α} (hab : stamp h b < stamp h a) : age h a < age h b := by
  have := stamp_le h a
  rw [age, age]
  omega

def Recent (h ks : List α) : Prop := ks.Pairwise (fun a b => stamp h b < stamp h a)

theorem Recent.nil (h : List α) : Recent h [] := List.Pairwise.nil

/-- **The key of the event goes to the front**; keys may leave on the way. -/
theorem Recent.push {h ks ks' : List α} {e : α} (hr : Recent h ks) (hsub : ks'.Sublist ks) (he : e ∉ ks') :
    Recent (e :: h) (e :: ks') := by
  refine List.pairwise_cons.2 ⟨fun k hk => ?_, ?_⟩
  · have hne : k ≠ e := fun h => he (h ▸ hk)
    rw [stamp_cons_self, stamp_cons_of_ne hne]
    exact Nat.lt_succ_of_le (stamp_le h k)
  · refine (hr.sublist hsub).imp_of_mem (fun {a b} ha hb hab => ?_)
    have hane : a ≠ e := fun h => he (h ▸ ha)
    have hbne : b ≠ e := fun h => he (h ▸ hb)
    rw [stamp_cons_of_ne hane, stamp_cons_of_ne hbne]
    exact hab

theorem Recent.last_lt {h A : List α} {v : α} (hr : Recent h (A ++ [v])) : ∀ q ∈ A, stamp h v < stamp h q :=
  fun q hq => (List.pairwise_append.1 hr).2.2 q hq v (by simp)

/-- **Keys of one age are one key.** -/
theorem Recent.age_inj {h ks : List α} {p q : α} (hr : Recent h ks) (hp : p ∈ ks) (hq : q ∈ ks)
    (hpq : age h p = age h q) : p = q := by
  have hnd : (ks.map (stamp h)).Nodup := List.pairwise_map.2 (hr.imp (fun hab => Nat.ne_of_gt hab))
  apply List.inj_on_of_nodup_map hnd hp hq
  have hple := stamp_le h p
  have hqle := stamp_le h q
  rw [age, age] at hpq
  omega

/-! ## How far back -/

def Spread (h : List α) (w : α → Nat) (ks : List α) : Prop :=
  ∀ A p C, ks = A ++ p :: C → h.length ≤ stamp h p + (A.map w).sum

theorem Spread.nil (h : List α) (w : α → Nat) : Spread h w [] := by
  intro A p C hk
  cases A <;> cases hk

/-- An event of a key that was not there. -/
theorem Spread.push_new {h ks D : List α} {w w' : α → Nat} {e : α} (hs : Spread h w (ks ++ D)) (he : e ∉ ks)
    (hw : ∀ k ∈ ks, w k ≤ w' k) (hpos : 1 ≤ w' e) : Spread (e :: h) w' (e :: ks) := by
  intro A p C hk
  cases A with
  | nil =>
    cases hk
    rw [stamp_cons_self, List.length_cons]
    exact Nat.le_add_right _ _
  | cons a A =>
    rw [List.cons_append, List.cons.injEq] at hk
    obtain ⟨rfl, rfl⟩ := hk
    have hne : p ≠ e := fun h => he (h ▸ List.mem_append_right _ List.mem_cons_self)
    have hold := hs A p (C ++ D) (by rw [List.append_assoc, List.cons_append])
    have hsum : (A.map w).sum ≤ (A.map w').sum :=
      List.sum_le_sum (fun k hk => hw k (List.mem_append_left _ hk))
    rw [stamp_cons_of_ne hne, List.map_cons, List.sum_cons, List.length_cons]
    omega

/-- An event of a key that was: its weight has to grow. -/
theorem Spread.push_again {h A₀ C₀ : List α} {w w' : α → Nat} {e : α} (hs : Spread h w (A₀ ++ e :: C₀))
    (he : e ∉ A₀ ++ C₀) (hw : ∀ k ∈ A₀ ++ C₀, w k ≤ w' k) (hpos : w e + 1 ≤ w' e) :
    Spread (e :: h) w' (e :: (A₀ ++ C₀)) := by
  intro A p C hk
  cases A with
  | nil =>
    cases hk
    rw [stamp_cons_self, List.length_cons]
    exact Nat.le_add_right _ _
  | cons a A =>
    rw [List.cons_append, List.cons.injEq] at hk
    obtain ⟨rfl, hk⟩ := hk
    have hmem : p ∈ A₀ ++ C₀ := by rw [hk]; simp
    have hne : p ≠ e := fun h => he (h ▸ hmem)
    have hsum : (A.map w).sum ≤ (A.map w').sum :=
      List.sum_le_sum (fun k hkA => hw k (by rw [hk]; exact List.mem_append_left _ hkA))
    rw [stamp_cons_of_ne hne, List.map_cons, List.sum_cons, List.length_cons]
    -- `p` stands before or behind the place that `e` has left
    rcases List.append_eq_append_iff.1 hk with ⟨D, rfl, rfl⟩ | ⟨D, rfl, hC⟩
    · have hold := hs (A₀ ++ e :: D) p C (by simp)
      rw [List.map_append, List.sum_append, List.map_cons, List.sum_cons] at hold
      rw [List.map_append, List.map_append, List.sum_append, List.sum_append] at hsum
      rw [List.map_append, List.sum_append]
      omega
    · cases D with
      | nil =>
        have hold := hs (A ++ [e]) p C (by simpa using hC.symm)
        rw [List.map_append, List.sum_append, List.map_cons, List.sum_cons, List.map_nil, List.sum_nil] at hold
        omega
      | cons d D =>
        obtain ⟨rfl, rfl⟩ := List.cons.inj hC
        have hold := hs A p (D ++ e :: C₀) (by simp)
        omega

/-- **With weights of at most two, the last key is the oldest by less than twice the number of keys.** -/
theorem Spread.age_lt {h : List α} {w : α → Nat} {ks : List α} (hs : Spread h w ks) (hw : ∀ k, w k ≤ 2) {p : α}
    (hp : p ∈ ks) : age h p < 2 * ks.length := by
  obtain ⟨A, C, rfl⟩ := List.append_of_mem hp
  have hle := hs A p C rfl
  have hsum : (A.map w).sum ≤ (A.map w).length • 2 :=
    List.sum_le_card_nsmul _ _ (fun x hx => by
      obtain ⟨k, -, rfl⟩ := List.mem_map.1 hx
      exact hw k)
  rw [List.length_map, Nat.nsmul_eq_mul] at hsum
  rw [age, List.length_append, List.length_cons]
  omega

end Recency
end Bb
