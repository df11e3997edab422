import BlueBridge.VmemTrace
/-!
# VmemTries — the boundaries of the fault handler

An access is tried until its page allows it, and every try that does not get through is one run of the handler, so the
states between two tries of a program are the boundaries of its handler runs (`tryOps`).  A program that gets through is
some number of tries of each of its operations (`runTraced_tries`).  What every fault and every store keeps holds at every
boundary (`Stable.tryOps`).
-/
namespace Bb
namespace Vmem

variable {B npages : Nat} {bs : BackingStore B npages}

/-! ## Tries -/

/-- One try: the access is performed, or its page faults. -/
def tryAccess (bs : BackingStore B npages) (pol : Policy) (a : Nat) (write : Bool)
    (perform : Traced bs.State B → Traced bs.State B) (x : Traced bs.State B) : Option (Traced bs.State B) :=
  if a / B < x.1.pt.npages then
    if (x.1.pt.pageBits (a / B)).allows write then some (perform x) else handleTraced bs pol x (a / B)
  else none

theorem Stable.tryAccess {pol : Policy} {P : Machine bs.State B → Prop} (hs : Stable bs pol P) {a : Nat} {w : Bool}
    {g : Traced bs.State B → Traced bs.State B} {x y : Traced bs.State B} (hp : P x.1)
    (hperform : a / B < npages → (x.1.pt.pageBits (a / B)).allows w = true → P (g x).1)
    (he : tryAccess bs pol a w g x = some y) : P y.1 := by
  rw [Vmem.tryAccess, hs.pages hp] at he
  split at he
  · split at he
    · cases he
      exact hperform ‹_› ‹_›
    · obtain ⟨m, e, he⟩ := Option.bind_eq_some_iff.1 he
      cases he
      have hrw : x.1.pt.pageBits (a / B) ≠ .readWrite := fun h => ‹¬ _› (by rw [h]; rfl)
      exact hs.fault hp ‹_› hrw e
  · cases he

section Tries

variable [NeZero B] {pol : Policy}

def tryOp (bs : BackingStore B npages) (pol : Policy) (x : Traced bs.State B) : Op → Option (Traced bs.State B)
  | .load a    => tryAccess bs pol a false id x
  | .store a v => tryAccess bs pol a true (fun x => (storeByte x.1 a v, x.2)) x
  | .flush     => do
    let m ← pageTableFlush bs pol x.1
    some (m, x.2)

def tryOps (bs : BackingStore B npages) (pol : Policy) (x : Traced bs.State B) (ops : List Op) :
    Option (Traced bs.State B) := ops.foldlM (tryOp bs pol) x

theorem tryOps_cons {x y : Traced bs.State B} {op : Op} (h : tryOp bs pol x op = some y) (ops : List Op) :
    tryOps bs pol x (op :: ops) = tryOps bs pol y ops := by
  rw [tryOps, List.foldlM_cons, h]
  rfl

theorem tryOps_append {x y : Traced bs.State B} {ops : List Op} (h : tryOps bs pol x ops = some y) (ops' : List Op) :
    tryOps bs pol x (ops ++ ops') = tryOps bs pol y ops' := by
  rw [tryOps] at h
  rw [tryOps, List.foldlM_append, h]
  rfl

/-- **An access is its tries.** -/
theorem accessTraced_tries {a : Nat} {w : Bool} {g : Traced bs.State B → Traced bs.State B} {op : Op}
    (hop : ∀ x, tryOp bs pol x op = tryAccess bs pol a w g x) : ∀ (fuel : Nat) {x y : Traced bs.State B},
    accessTraced bs pol a w fuel x = some y → ∃ k, tryOps bs pol x (List.replicate k op) = some (g y)
  | 0,        _, _, he => by cases he
  | fuel + 1, x, y, he => by
    rw [accessTraced] at he
    have htry := hop x
    rw [tryAccess] at htry
    split at he
    · rw [if_pos ‹_›] at htry
      split at he
      · cases he
        rw [if_pos ‹_›] at htry
        exact ⟨1, tryOps_cons htry []⟩
      · obtain ⟨x₁, e₁, he⟩ := Option.bind_eq_some_iff.1 he
        rw [if_neg ‹_›, e₁] at htry
        obtain ⟨k, hk⟩ := accessTraced_tries hop fuel he
        exact ⟨k + 1, (tryOps_cons htry _).trans hk⟩
    · cases he

theorem execTraced_tries {fuel : Nat} {x y : Traced bs.State B} {op : Op} (he : execTraced bs pol fuel x op = some y) :
    ∃ k, tryOps bs pol x (List.replicate k op) = some y := by
  cases op with
  | load a => exact accessTraced_tries (g := id) (fun _ => rfl) fuel he
  | store a v =>
    obtain ⟨z, ez, he⟩ := Option.bind_eq_some_iff.1 he
    cases he
    exact accessTraced_tries (g := fun x => (storeByte x.1 a v, x.2)) (fun _ => rfl) fuel ez
  | flush =>
    have htry : tryOp bs pol x .flush = some y := he
    exact ⟨1, tryOps_cons htry []⟩

theorem flatten_replicate_subset : ∀ (ks : List Nat) (prog : List Op),
    (List.zipWith List.replicate ks prog).flatten ⊆ prog
  | [],      _          => fun _ h => by cases h
  | _ :: _,  []         => fun _ h => by cases h
  | _ :: ks, op :: prog => fun o h => by
    rw [List.zipWith_cons_cons, List.flatten_cons] at h
    rcases List.mem_append.1 h with h | h
    · rw [List.eq_of_mem_replicate h]
      exact List.mem_cons_self
    · exact List.mem_cons_of_mem _ (flatten_replicate_subset ks prog h)

/-- **A program is its tries**, some number of each operation. -/
theorem runTraced_tries {fuel : Nat} : ∀ (prog : List Op) {x y : Traced bs.State B},
    runTraced bs pol fuel x prog = some y →
    ∃ ks, ks.length = prog.length ∧ tryOps bs pol x (List.zipWith List.replicate ks prog).flatten = some y
  | [],         x, y, he => ⟨[], rfl, he⟩
  | op :: prog, x, y, he => by
    obtain ⟨x₁, e₁, he⟩ := Option.bind_eq_some_iff.1 he
    obtain ⟨k, hk⟩ := execTraced_tries e₁
    obtain ⟨ks, hlen, hks⟩ := runTraced_tries prog he
    refine ⟨k :: ks, by rw [List.length_cons, hlen, List.length_cons], ?_⟩
    rw [List.zipWith_cons_cons, List.flatten_cons, tryOps_append hk]
    exact hks

/-- The boundaries before a boundary. -/
theorem tryOps_prefix {x y : Traced bs.State B} {ops ops' : List Op} (hpre : ops <+: ops')
    (he : tryOps bs pol x ops' = some y) : ∃ z, tryOps bs pol x ops = some z := by
  obtain ⟨r, rfl⟩ := hpre
  rw [Vmem.tryOps, List.foldlM_append] at he
  obtain ⟨z, ez, -⟩ := Option.bind_eq_some_iff.1 he
  exact ⟨z, ez⟩

/-- **A program that gets through is its tries**, and every boundary on the way is reached. -/
theorem runOps_tries {fuel : Nat} (prog : List Op) {m m' : Machine bs.State B}
    (he : runOps bs pol fuel m prog = some m') :
    ∃ ks, ks.length = prog.length ∧
      runOps bs pol fuel m prog = (tryOps bs pol (m, []) (List.zipWith List.replicate ks prog).flatten).map Prod.fst ∧
      ∀ tried, tried <+: (List.zipWith List.replicate ks prog).flatten →
        ∃ x log, tryOps bs pol (m, []) tried = some (x, log) := by
  have hfst : _ = runOps bs pol fuel m prog := runTraced_fst prog (m, [])
  rw [he] at hfst
  obtain ⟨y, ey, rfl⟩ := Option.map_eq_some_iff.1 hfst
  obtain ⟨ks, hlen, hks⟩ := runTraced_tries prog ey
  refine ⟨ks, hlen, by rw [he, hks]; rfl, fun tried hpre => ?_⟩
  obtain ⟨z, ez⟩ := tryOps_prefix hpre hks
  exact ⟨z.1, z.2, ez⟩

/-! ## What holds at every boundary -/

section Boundaries

variable {P : Machine bs.State B → Prop}

/-- What one try keeps. -/
theorem Stable.tryOp (hs : Stable bs pol P) {x y : Traced bs.State B} {op : Op} (hop : op ≠ .flush) (hp : P x.1)
    (he : tryOp bs pol x op = some y) : P y.1 := by
  cases op with
  | load a    => exact hs.tryAccess (g := id) hp (fun _ _ => hp) he
  | store a v =>
    exact hs.tryAccess (g := fun x => (storeByte x.1 a v, x.2)) hp (fun hpage hb => hs.poke _ hp hpage (allows_write hb)) he
  | flush     => exact absurd rfl hop

/-- **What every fault and every store keeps holds at every boundary.** -/
theorem Stable.tryOps (hs : Stable bs pol P) : ∀ (ops : List Op) {x y : Traced bs.State B}, .flush ∉ ops → P x.1 →
    tryOps bs pol x ops = some y → P y.1
  | [],        x, y, _,    hp, he => by
    cases he
    exact hp
  | op :: ops, x, y, hops, hp, he => by
    rw [List.mem_cons, not_or] at hops
    obtain ⟨x₁, e₁, he⟩ := Option.bind_eq_some_iff.1 he
    exact hs.tryOps ops hops.2 (hs.tryOp (Ne.symm hops.1) hp e₁) he

end Boundaries

end Tries

end Vmem
end Bb
