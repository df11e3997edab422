import BlueBridge.Switch
import Mathlib.Algebra.Order.BigOperators.Group.List
import Mathlib.Algebra.Order.Group.Nat
import Mathlib.Data.Set.Function
/-!
# Heimdall — the controller of the access table (`p4/p4_switch/heimdall/heimdall.cpp`)

`learn_cb` adds a `bb_acl` entry for the subnet and the pointer of a sample, or deletes the one it has added, and finds
the handle of that entry again in `entry_map`.  The map's key is a `std::string` made from the array `key[10]`, which
ends at the first zero byte; without one it goes on into the memory after the array.

The table is right for all histories over a set of pairs iff no two of them have the same key (`tracks_live_iff`); two
pointers that begin with a zero byte have (`learnCb_keeps_freed`).
-/
namespace Bb
namespace Heimdall

open Headers Switch

abbrev AclEntry := Entry (BitVec 16) 64 AclAction

/-- `sample_t`, each field as the number that its bytes are on the wire. -/
structure Sample where
  bbSubnet : BitVec 16
  bbCmd : BitVec 16
  bbPtr : BitVec 64
  type : BitVec 16
  deriving DecidableEq

/-- A subnet and a pointer. -/
abbrev Pair := BitVec 16 × BitVec 64

def Sample.pair (x : Sample) : Pair := (x.bbSubnet, x.bbPtr)

/-- The condition to delete.  The command is read in the host's order, the type in the network's. -/
def Sample.deletes (x : Sample) : Bool := x.type = 2 ∨ Bytes.leNat (beBytes 2 x.bbCmd.toNat) = 4

/-- The array `key`. -/
def tenBytes (q : Pair) : List UInt8 := beBytes 2 q.1.toNat ++ beBytes 8 q.2.toNat

/-- The `std::string` that `key` is turned into, `tail` being the memory after it. -/
def keyOf (tail : List UInt8) (q : Pair) : List UInt8 := (tenBytes q ++ tail).takeWhile (· ≠ 0)

/-- The entry for a pair. -/
def acl (q : Pair) : AclEntry := ⟨q.1, q.2, 64, .nop⟩

def sameMatch (a b : AclEntry) : Bool :=
  a.key = b.key ∧ a.len = b.len ∧ a.value >>> (64 - a.len) = b.value >>> (64 - a.len)

/-- `bb_acl` with the handles of its entries. -/
abbrev Table := List (Nat × AclEntry)

/-- How the switch picks the handle of a new entry. -/
structure Handles where
  next : Table → Nat
  next_ne_zero : ∀ t, next t ≠ 0
  next_fresh : ∀ t, next t ∉ t.map Prod.fst

/-- `bm_mt_add_entry`; `none` where it throws. -/
def addEntry (H : Handles) (t : Table) (e : AclEntry) : Option (Nat × Table) :=
  if t.any (fun p => sameMatch p.2 e) then none else some (H.next t, t ++ [(H.next t, e)])

/-- `bm_mt_delete_entry`. -/
def deleteEntry (t : Table) (h : Nat) : Table := t.filter (fun p => p.1 ≠ h)

/-- The switch's table and the controller's map. -/
structure Ctl (K : Type) where
  table : Table
  entryMap : K → Option Nat

section Learn

variable {K : Type} [DecidableEq K] (key : Pair → K)

/-- `learn_cb` for one sample.  Looking a key up puts a zero under it if there is nothing. -/
def Ctl.learnCb (c : Ctl K) (H : Handles) (x : Sample) : Ctl K :=
  let k := key x.pair
  if x.deletes then
    let h := (c.entryMap k).getD 0
    if h ≠ 0 then ⟨deleteEntry c.table h, Function.update c.entryMap k none⟩
    else { c with entryMap := Function.update c.entryMap k (some h) }
  else
    match addEntry H c.table (acl x.pair) with
    | some (h, t) => ⟨t, Function.update c.entryMap k (some h)⟩
    | none        => c

/-- A history of samples, each with the way its handle is picked, from a table that is there before. -/
def learn (base : Table) (hist : List (Handles × Sample)) : Ctl K :=
  hist.foldl (fun c x => c.learnCb key x.1 x.2) ⟨base, fun _ => none⟩

/-- The handle that the controller finds for a pair. -/
def Ctl.handleOf (c : Ctl K) (q : Pair) : Option Nat := (c.entryMap (key q)).filter (· ≠ 0)

end Learn

/-- The last sample for `q` was an add. -/
def live (hist : List (Handles × Sample)) (q : Pair) : Bool :=
  (hist.reverse.find? (fun x => x.2.pair = q)).any (fun x => !x.2.deletes)

/-- A table that has an entry for what `q` matches, whatever its action. -/
def taken (base : Table) (q : Pair) : Bool := base.any (fun p => sameMatch p.2 (acl q))

/-- **The entries are those from before and the live pairs'**, as far as they were free. -/
def Tracks (entries : List AclEntry) (base : Table) (hist : List (Handles × Sample)) : Prop :=
  ∀ e, e ∈ entries ↔ e ∈ base.map Prod.snd ∨ ∃ q, e = acl q ∧ live hist q = true ∧ taken base q = false

/-! ## Distinct keys -/

theorem acl_inj {q q' : Pair} : acl q = acl q' ↔ q = q' := by simp [acl, Prod.ext_iff]

theorem sameMatch_acl {q q' : Pair} : sameMatch (acl q) (acl q') = true ↔ q = q' := by
  simp [sameMatch, acl, Prod.ext_iff]

theorem live_nil (q : Pair) : live [] q = false := rfl

theorem live_snoc (hist : List (Handles × Sample)) (x : Handles × Sample) (q : Pair) :
    live (hist ++ [x]) q = if x.2.pair = q then !x.2.deletes else live hist q := by
  rw [live, List.reverse_append, List.reverse_singleton, List.singleton_append, List.find?_cons]
  split <;> simp_all [live]

section Distinct

variable {K : Type} {key : Pair → K} {S : Set Pair} {base m : Table} {hist : List (Handles × Sample)} {c : Ctl K}
  {q q₀ : Pair}

/-- The entries that the controller has added are `m`. -/
structure Inv (key : Pair → K) (S : Set Pair) (base : Table) (hist : List (Handles × Sample)) (c : Ctl K)
    (m : Table) : Prop where
  table : c.table = base ++ m
  apart : ∀ p ∈ m, p.1 ∉ base.map Prod.fst
  unique : ∀ p ∈ m, ∀ p' ∈ m, p.1 = p'.1 → p = p'
  mine : ∀ p ∈ m, ∃ q ∈ S, p.2 = acl q
  handle : ∀ q ∈ S, ∀ h, (h, acl q) ∈ m ↔ c.handleOf key q = some h
  live : ∀ q ∈ S, (c.handleOf key q).isSome = true ↔ live hist q = true ∧ taken base q = false

theorem Inv.start : Inv key S base [] ⟨base, fun _ => none⟩ [] where
  table := (List.append_nil base).symm
  apart _ h := absurd h List.not_mem_nil
  unique _ h := absurd h List.not_mem_nil
  mine _ h := absurd h List.not_mem_nil
  handle _ _ _ := by simp [Ctl.handleOf]
  live _ _ := by simp [Ctl.handleOf, live_nil]

/-- A pair's match is taken by an entry from before or by its own. -/
theorem Inv.taken_iff (inv : Inv key S base hist c m) (hq : q ∈ S) :
    taken c.table q = true ↔ taken base q = true ∨ (c.handleOf key q).isSome = true := by
  have hm : m.any (fun p => sameMatch p.2 (acl q)) = true ↔ (c.handleOf key q).isSome = true := by
    rw [List.any_eq_true, Option.isSome_iff_exists]
    constructor
    · rintro ⟨p, hp, hsame⟩
      obtain ⟨q', -, hpq⟩ := inv.mine p hp
      rw [hpq, sameMatch_acl] at hsame
      rw [hsame] at hpq
      exact ⟨p.1, (inv.handle q hq p.1).mp (hpq ▸ hp)⟩
    · rintro ⟨h, hh⟩
      exact ⟨_, (inv.handle q hq h).mpr hh, sameMatch_acl.mpr rfl⟩
  rw [taken, inv.table, List.any_append, Bool.or_eq_true, hm, taken]

/-- The match is taken: the pair's entry is there, or an older one is in its place. -/
theorem Inv.taken (inv : Inv key S base hist c m) (H : Handles) {x : Sample} (hx : x.pair ∈ S)
    (hadd : x.deletes = false) (ht : Heimdall.taken c.table x.pair = true) : Inv key S base (hist ++ [(H, x)]) c m := by
  refine { inv with live := fun q hq => ?_ }
  rw [inv.live q hq, live_snoc, hadd]
  split
  case isFalse => rfl
  case isTrue hqx =>
    subst hqx
    rcases (inv.taken_iff hx).mp ht with hb | hsome
    · simp [hb]
    · simp [(inv.live _ hq).mp hsome]

variable [DecidableEq K]

theorem learn_snoc (base : Table) (hist : List (Handles × Sample)) (x : Handles × Sample) :
    learn key base (hist ++ [x]) = (learn key base hist).learnCb key x.1 x.2 := List.foldl_concat ..

/-- What is stored under one pair's key is found for that pair alone. -/
theorem handleOf_update (hinj : Set.InjOn key S) (hq : q ∈ S) (hq₀ : q₀ ∈ S) (t : Table) (v : Option Nat) :
    (⟨t, Function.update c.entryMap (key q₀) v⟩ : Ctl K).handleOf key q =
      if q = q₀ then v.filter (· ≠ 0) else c.handleOf key q := by
  unfold Ctl.handleOf
  dsimp only
  split
  case isTrue h => rw [h, Function.update_self]
  case isFalse h => rw [Function.update_of_ne (fun hk => h (hinj hq hq₀ hk))]

section Step

variable {H : Handles} {x : Sample}

theorem learnCb_taken (hadd : x.deletes = false) (ht : taken c.table x.pair = true) : c.learnCb key H x = c := by
  rw [taken] at ht
  simp [Ctl.learnCb, addEntry, hadd, ht]

theorem learnCb_free (hadd : x.deletes = false) (ht : taken c.table x.pair = false) :
    c.learnCb key H x = ⟨c.table ++ [(H.next c.table, acl x.pair)],
      Function.update c.entryMap (key x.pair) (some (H.next c.table))⟩ := by
  rw [taken] at ht
  simp [Ctl.learnCb, addEntry, hadd, ht]

theorem learnCb_absent (hdel : x.deletes = true) (hh : c.handleOf key x.pair = none) :
    c.learnCb key H x = ⟨c.table, Function.update c.entryMap (key x.pair) (some 0)⟩ := by
  have hzero : (c.entryMap (key x.pair)).getD 0 = 0 := by
    unfold Ctl.handleOf at hh
    cases he : c.entryMap (key x.pair) with
    | none => rfl
    | some h => simpa [he] using hh
  simp [Ctl.learnCb, hdel, hzero]

theorem learnCb_present {h : Nat} (hdel : x.deletes = true) (hh : c.handleOf key x.pair = some h) :
    c.learnCb key H x = ⟨deleteEntry c.table h, Function.update c.entryMap (key x.pair) none⟩ := by
  obtain ⟨he, hne⟩ := Option.filter_eq_some_iff.mp hh
  have hne : h ≠ 0 := by simpa using hne
  simp [Ctl.learnCb, hdel, he, hne]

end Step

section Preserved

variable (hinj : Set.InjOn key S) (inv : Inv key S base hist c m) (H : Handles) {x : Sample} (hx : x.pair ∈ S)
include hinj inv hx

theorem Inv.free (hadd : x.deletes = false) (ht : Heimdall.taken c.table x.pair = false) :
    Inv key S base (hist ++ [(H, x)]) ⟨c.table ++ [(H.next c.table, acl x.pair)],
      Function.update c.entryMap (key x.pair) (some (H.next c.table))⟩ (m ++ [(H.next c.table, acl x.pair)]) := by
  have hfresh := H.next_fresh c.table
  generalize hn : H.next c.table = n at hfresh
  have hn0 : n ≠ 0 := hn ▸ H.next_ne_zero c.table
  rw [inv.table, List.map_append, List.mem_append, not_or] at hfresh
  have hnew : ∀ p ∈ m, p.1 ≠ n := fun p hp he => hfresh.2 (he ▸ List.mem_map_of_mem hp)
  rw [← Bool.not_eq_true, inv.taken_iff hx, not_or] at ht
  constructor
  case table => rw [inv.table, List.append_assoc]
  case apart =>
    intro p hp
    rcases List.mem_append.mp hp with hp | hp
    · exact inv.apart p hp
    · rw [List.mem_singleton.mp hp]
      exact hfresh.1
  case unique =>
    intro p hp p' hp' he
    rcases List.mem_append.mp hp with hp | hp <;> rcases List.mem_append.mp hp' with hp' | hp'
    · exact inv.unique p hp p' hp' he
    · exact absurd (he.trans (congrArg Prod.fst (List.mem_singleton.mp hp'))) (hnew p hp)
    · exact absurd (he.symm.trans (congrArg Prod.fst (List.mem_singleton.mp hp))) (hnew p' hp')
    · rw [List.mem_singleton.mp hp, List.mem_singleton.mp hp']
  case mine =>
    intro p hp
    rcases List.mem_append.mp hp with hp | hp
    · exact inv.mine p hp
    · exact ⟨_, hx, congrArg Prod.snd (List.mem_singleton.mp hp)⟩
  case handle =>
    intro q hq h
    rw [handleOf_update hinj hq hx, List.mem_append, List.mem_singleton, inv.handle q hq h, Prod.mk.injEq, acl_inj]
    split
    case isTrue hqx =>
      subst hqx
      have hnone := Option.not_isSome_iff_eq_none.mp ht.2
      simp [Option.filter_some, hn0, hnone, eq_comm (a := h)]
    case isFalse hqx => simp [hqx]
  case live =>
    intro q hq
    rw [handleOf_update hinj hq hx, live_snoc, hadd]
    split
    case isTrue hqx =>
      subst hqx
      simp [hn0, ht.1]
    case isFalse hqx =>
      rw [if_neg (Ne.symm hqx)]
      exact inv.live q hq

theorem Inv.absent (hdel : x.deletes = true) (hh : c.handleOf key x.pair = none) :
    Inv key S base (hist ++ [(H, x)]) ⟨c.table, Function.update c.entryMap (key x.pair) (some 0)⟩ m := by
  have hsame : ∀ q ∈ S, (⟨c.table, Function.update c.entryMap (key x.pair) (some 0)⟩ : Ctl K).handleOf key q =
      c.handleOf key q := by
    intro q hq
    rw [handleOf_update hinj hq hx]
    split
    case isTrue hqx => rw [hqx, hh]; rfl
    case isFalse => rfl
  refine { inv with handle := fun q hq h => ?_, live := fun q hq => ?_ }
  · rw [hsame q hq]
    exact inv.handle q hq h
  · rw [hsame q hq, live_snoc, hdel]
    split
    case isTrue hqx => simp [← hqx, hh]
    case isFalse => exact inv.live q hq

theorem Inv.present {h : Nat} (hdel : x.deletes = true) (hh : c.handleOf key x.pair = some h) :
    Inv key S base (hist ++ [(H, x)]) ⟨deleteEntry c.table h, Function.update c.entryMap (key x.pair) none⟩
      (deleteEntry m h) := by
  have hmem := (inv.handle _ hx h).mpr hh
  have hsub : ∀ p ∈ deleteEntry m h, p ∈ m := fun p hp => List.mem_of_mem_filter hp
  constructor
  case table =>
    have hbase : deleteEntry base h = base := by
      refine List.filter_eq_self.mpr (fun p hp => decide_eq_true ?_)
      intro he
      exact inv.apart _ hmem (List.mem_map.mpr ⟨p, hp, he⟩)
    dsimp only
    rw [inv.table, deleteEntry, List.filter_append]
    exact congrArg (· ++ deleteEntry m h) hbase
  case apart => exact fun p hp => inv.apart p (hsub p hp)
  case unique => exact fun p hp p' hp' => inv.unique p (hsub p hp) p' (hsub p' hp')
  case mine => exact fun p hp => inv.mine p (hsub p hp)
  case handle =>
    intro q hq h'
    rw [handleOf_update hinj hq hx, deleteEntry, List.mem_filter, inv.handle q hq h']
    split
    case isTrue hqx =>
      rw [hqx, hh]
      simp [eq_comm (a := h)]
    case isFalse hqx =>
      -- Another pair's entry has another handle.
      refine and_iff_left_of_imp (fun hq' => decide_eq_true ?_)
      rintro rfl
      have := inv.unique _ ((inv.handle q hq h').mpr hq') _ hmem rfl
      exact hqx (acl_inj.mp (congrArg Prod.snd this))
  case live =>
    intro q hq
    rw [handleOf_update hinj hq hx, live_snoc, hdel]
    split
    case isTrue hqx => simp [hqx]
    case isFalse hqx =>
      rw [if_neg (Ne.symm hqx)]
      exact inv.live q hq

/-- **One sample.** -/
theorem Inv.learnCb : ∃ m', Inv key S base (hist ++ [(H, x)]) (c.learnCb key H x) m' := by
  cases hd : x.deletes with
  | false =>
    cases ht : Heimdall.taken c.table x.pair with
    | true => rw [learnCb_taken hd ht]; exact ⟨_, inv.taken H hx hd ht⟩
    | false => rw [learnCb_free hd ht]; exact ⟨_, inv.free hinj H hx hd ht⟩
  | true =>
    cases hh : c.handleOf key x.pair with
    | none => rw [learnCb_absent hd hh]; exact ⟨_, inv.absent hinj H hx hd hh⟩
    | some h => rw [learnCb_present hd hh]; exact ⟨_, inv.present hinj H hx hd hh⟩

end Preserved

/-- **A whole history.** -/
theorem learn_inv (hinj : Set.InjOn key S) (base : Table) (hist : List (Handles × Sample))
    (hS : ∀ x ∈ hist, x.2.pair ∈ S) : ∃ m, Inv key S base hist (learn key base hist) m := by
  induction hist using List.reverseRecOn with
  | nil => exact ⟨[], Inv.start⟩
  | append_singleton hist x ih =>
    obtain ⟨m, inv⟩ := ih (fun y hy => hS y (List.mem_append_left _ hy))
    rw [learn_snoc]
    exact inv.learnCb hinj x.1 (hS x List.mem_concat_self)

theorem live_mem (hl : live hist q = true) : ∃ x ∈ hist, x.2.pair = q := by
  obtain ⟨x, hx, -⟩ := (Option.any_eq_true _ _).mp hl
  have hpair := List.find?_some hx
  exact ⟨x, List.mem_reverse.mp (List.mem_of_find?_eq_some hx), of_decide_eq_true hpair⟩

theorem learn_tracks (hinj : Set.InjOn key S) (hS : ∀ x ∈ hist, x.2.pair ∈ S) :
    Tracks ((learn key base hist).table.map Prod.snd) base hist := by
  obtain ⟨m, inv⟩ := learn_inv hinj base hist hS
  intro e
  rw [inv.table, List.map_append, List.mem_append]
  refine or_congr_right ⟨fun he => ?_, ?_⟩
  · obtain ⟨p, hp, rfl⟩ := List.mem_map.mp he
    obtain ⟨q, hq, hpq⟩ := inv.mine p hp
    have hh := (inv.handle q hq p.1).mp (hpq ▸ hp)
    exact ⟨q, hpq, (inv.live q hq).mp (hh ▸ rfl)⟩
  · rintro ⟨q, rfl, hl⟩
    obtain ⟨x, hx, rfl⟩ := live_mem hl.1
    obtain ⟨h, hh⟩ := Option.isSome_iff_exists.mp ((inv.live _ (hS x hx)).mpr hl)
    exact List.mem_map.mpr ⟨_, (inv.handle _ (hS x hx) h).mpr hh, rfl⟩

end Distinct

/-! ## The controller's keys -/

/-- A handle above all that are in use. -/
def Handles.above : Handles where
  next t := (t.map Prod.fst).sum + 1
  next_ne_zero _ := Nat.succ_ne_zero _
  next_fresh _ hmem := absurd (List.le_sum_of_mem hmem) (Nat.not_succ_le_self _)

/-- The samples of an allocation and of a free. -/
def addOf (q : Pair) : Handles × Sample := (.above, ⟨q.1, 0x100, q.2, 0xffff⟩)
def delOf (q : Pair) : Handles × Sample := (.above, ⟨q.1, 0x400, q.2, 0xffff⟩)

theorem addOf_deletes (q : Pair) : (addOf q).2.deletes = false := decide_eq_false (by dsimp only [addOf]; decide)

theorem delOf_deletes (q : Pair) : (delOf q).2.deletes = true := decide_eq_true (by dsimp only [delOf]; decide)

theorem addOf_pair (q : Pair) : (addOf q).2.pair = q := rfl
theorem delOf_pair (q : Pair) : (delOf q).2.pair = q := rfl

/-- Two pairs under one key: the first one's free deletes the second one's entry. -/
theorem learn_confused {K : Type} [DecidableEq K] {key : Pair → K} {a b : Pair} (hne : a ≠ b) (hkey : key a = key b) :
    (learn key [] [addOf a, addOf b, delOf a]).table.map Prod.snd = [acl a] := by
  have hmatch : sameMatch (acl a) (acl b) = false := Bool.eq_false_iff.mpr (fun h => hne (sameMatch_acl.mp h))
  have hfirst : ∀ q, (addOf q).1 = Handles.above := fun _ => rfl
  simp [learn, Ctl.learnCb, addEntry, deleteEntry, addOf_deletes, delOf_deletes, addOf_pair, delOf_pair, hfirst, hkey,
    hmatch, Handles.above]

theorem live_confused {a b : Pair} (hne : a ≠ b) :
    live [addOf a, addOf b, delOf a] a = false ∧ live [addOf a, addOf b, delOf a] b = true := by
  simp [live, addOf_pair, delOf_pair, addOf_deletes, delOf_deletes, hne]

/-- **The access entries are the live pairs', whatever the history over a set of pairs, iff no two of them have the same
key.** -/
theorem tracks_live_iff (tail : List UInt8) (S : Set Pair) :
    (∀ base hist, (∀ x ∈ hist, x.2.pair ∈ S) →
      Tracks ((learn (keyOf tail) base hist).table.map Prod.snd) base hist) ↔ Set.InjOn (keyOf tail) S := by
  refine ⟨fun h a ha b hb hkey => ?_, fun hinj base hist hS => learn_tracks hinj hS⟩
  by_contra hne
  have hfreed := h [] [addOf a, addOf b, delOf a] (by simp [addOf_pair, delOf_pair, ha, hb])
  rw [learn_confused hne hkey] at hfreed
  obtain hbase | ⟨q, hq, hl, -⟩ := (hfreed (acl a)).mp List.mem_cons_self
  · exact absurd hbase List.not_mem_nil
  · rw [← acl_inj.mp hq, (live_confused hne).1] at hl
    cases hl

/-- Server `0x0103` has the pointers `0x1000` and `0x2000`, whose bytes on the wire begin with zero. -/
def first : Pair := (0x0103, 0x0010000000000000)
def second : Pair := (0x0103, 0x0020000000000000)

/-- **Freeing the first pointer takes the entry of the second**, and leaves its own. -/
theorem learnCb_keeps_freed :
    (learn (keyOf []) [] [addOf first, addOf second, delOf first]).table.map Prod.snd = [acl first] ∧
      live [addOf first, addOf second, delOf first] first = false ∧
      live [addOf first, addOf second, delOf first] second = true :=
  ⟨learn_confused (by decide) (by decide), live_confused (by decide)⟩

end Heimdall
end Bb
