import BlueBridge.VmemRun
/-!
# VmemSignal — which page an address faults on (`internal_fault_handler`)

The signal handler has the faulting address and the start of the mapping.  It takes the page from a signed pointer
difference, divided as C divides, and compares it as an unsigned number with `npages`.  Inside the mapping this is the
page of the byte, so the loop of accesses and faults is the one of `access` (`accessAt_in_range`).  Outside it is out of
range, with one exception: the last `BLOCK_SIZE - 1` bytes before the mapping are divided to 0 and taken for page 0
(`out_of_range_iff`).  Such an access is handled and tried again for ever (`accessAt_misread`).
-/
namespace Bb
namespace Vmem

/-! ## The page of an address -/

/-- `addr - pt->virtmem`, a `ptrdiff_t`. -/
def ptrDiff (addr virtmem : UInt64) : Int := (addr - virtmem).toBitVec.toInt

/-- `uint64_t page = (addr-pt->virtmem) / BLOCK_SIZE`. -/
def faultPage (B : Nat) (addr virtmem : UInt64) : Nat := ((ptrDiff addr virtmem).tdiv B % 2 ^ 64).toNat

section Page

variable {B : Nat} {addr virtmem : UInt64}

/-- The difference up to a multiple of `2 ^ 64`, in the range of a `ptrdiff_t`. -/
theorem ptrDiff_cases (addr virtmem : UInt64) :
    (-2 ^ 63 ≤ ptrDiff addr virtmem ∧ ptrDiff addr virtmem < 2 ^ 63) ∧
      (ptrDiff addr virtmem = addr.toNat - virtmem.toNat ∨ ptrDiff addr virtmem = addr.toNat - virtmem.toNat + 2 ^ 64 ∨
        ptrDiff addr virtmem = addr.toNat - virtmem.toNat - 2 ^ 64) := by
  have hsub : (addr - virtmem).toBitVec.toNat = (2 ^ 64 - virtmem.toNat + addr.toNat) % 2 ^ 64 := UInt64.toNat_sub ..
  have hv := virtmem.toNat_lt
  have ha := addr.toNat_lt
  rw [ptrDiff, BitVec.toInt_eq_toNat_cond, hsub]
  split <;> omega

theorem faultPage_of_nonneg {d : Nat} (h : ptrDiff addr virtmem = d) : faultPage B addr virtmem = d / B % 2 ^ 64 := by
  rw [faultPage, h, ← Int.ofNat_tdiv]
  norm_cast

theorem faultPage_of_neg {d : Nat} (h : ptrDiff addr virtmem = -(d : Int)) (hd : d ≤ 2 ^ 63) :
    faultPage B addr virtmem = if d / B = 0 then 0 else 2 ^ 64 - d / B := by
  have hle : d / B ≤ d := Nat.div_le_self ..
  rw [faultPage, h, Int.neg_tdiv, ← Int.ofNat_tdiv]
  generalize d / B = q at hle ⊢
  split <;> omega

/-- An address inside the mapping is on the page of its byte. -/
theorem faultPage_in_range {a : Nat} (ha : addr.toNat = virtmem.toNat + a) (hsize : a < 2 ^ 63) :
    faultPage B addr virtmem = a / B := by
  have hcases := ptrDiff_cases addr virtmem
  have hd : ptrDiff addr virtmem = a := by omega
  have hle : a / B ≤ a := Nat.div_le_self ..
  rw [faultPage_of_nonneg hd]
  exact Nat.mod_eq_of_lt (by omega)

/-- An address outside the mapping is out of range unless it is less than a block below it. -/
theorem npages_le_faultPage {npages : Nat} (hB : 0 < B) (hfits : virtmem.toNat + npages * B ≤ 2 ^ 64)
    (hout : addr.toNat < virtmem.toNat ∨ virtmem.toNat + npages * B ≤ addr.toNat)
    (hfar : 0 ≤ ptrDiff addr virtmem ∨ ptrDiff addr virtmem ≤ -(B : Int)) : npages ≤ faultPage B addr virtmem := by
  have hcases := ptrDiff_cases addr virtmem
  have haddr := addr.toNat_lt
  by_cases hneg : ptrDiff addr virtmem < 0
  · obtain ⟨d, hd⟩ := Int.eq_ofNat_of_zero_le (show 0 ≤ -ptrDiff addr virtmem by omega)
    have hle : d / B ≤ d := Nat.div_le_self ..
    have hnz : d / B ≠ 0 := Nat.div_ne_zero_iff.2 ⟨by omega, by omega⟩
    have hpages : npages ≤ npages * B := Nat.le_mul_of_pos_right _ hB
    rw [faultPage_of_neg (show ptrDiff addr virtmem = -(d : Int) by omega) (by omega), if_neg hnz]
    generalize d / B = q at hle ⊢
    omega
  · obtain ⟨d, hd⟩ := Int.eq_ofNat_of_zero_le (show 0 ≤ ptrDiff addr virtmem by omega)
    have hle : d / B ≤ d := Nat.div_le_self ..
    rw [faultPage_of_nonneg hd, Nat.mod_eq_of_lt (by generalize d / B = q at hle ⊢; omega)]
    exact (Nat.le_div_iff_mul_le hB).2 (by omega)

/-- **Less than a block below the mapping is taken for page 0.** -/
theorem faultPage_misread (hneg : ptrDiff addr virtmem < 0) (hnear : -(B : Int) < ptrDiff addr virtmem) :
    faultPage B addr virtmem = 0 := by
  have hcases := ptrDiff_cases addr virtmem
  obtain ⟨d, hd⟩ := Int.eq_ofNat_of_zero_le (show 0 ≤ -ptrDiff addr virtmem by omega)
  rw [faultPage_of_neg (show ptrDiff addr virtmem = -(d : Int) by omega) (by omega),
    if_pos (Nat.div_eq_of_lt (by omega))]

end Page

/-! ## The signal handler -/

/-- The process is aborted, or the policy's handler was called and left this. -/
inductive Signalled (S : Type) (B : Nat) where
  | abort
  | handled (r : Option (Machine S B))

/-- How a loop of accesses and faults ends; `undefined` is a handler that aborts or does what C leaves undefined. -/
inductive Ending (S : Type) (B : Nat) where
  | done (m : Machine S B)
  | aborted (m : Machine S B)
  | undefined

section Handler

variable {B npages : Nat} (bs : BackingStore B npages) (pol : Policy) (virtmem addr : UInt64)

/-- With no page table yet (`the_page_table` is `NULL`) every fault aborts. -/
def internalFaultHandler : Option (Machine bs.State B) → Signalled bs.State B
  | none   => .abort
  | some m =>
    let page := faultPage B addr virtmem
    if page < m.pt.npages then .handled (pageFaultHandler bs pol m page) else .abort

/-- The access is inside the mapping and its page grants it. -/
def Granted {S : Type} (virtmem addr : UInt64) (write : Bool) (m : Machine S B) : Prop :=
  virtmem.toNat ≤ addr.toNat ∧ addr.toNat < virtmem.toNat + m.pt.npages * B ∧
    (m.pt.pageBits ((addr.toNat - virtmem.toNat) / B)).allows write = true

instance {S : Type} (write : Bool) (m : Machine S B) : Decidable (Granted virtmem addr write m) :=
  inferInstanceAs (Decidable (_ ∧ _))

/-- The access, fault and retry loop at an address; `none` if it is still faulting after `fuel` turns.  Nothing else is
mapped at the address. -/
def accessAt (write : Bool) : Nat → Machine bs.State B → Option (Ending bs.State B)
  | 0,        _ => none
  | fuel + 1, m =>
    if Granted virtmem addr write m then some (.done m)
    else match internalFaultHandler bs pol virtmem addr (some m) with
      | .abort            => some (.aborted m)
      | .handled none     => some .undefined
      | .handled (some m) => accessAt write fuel m

variable {bs pol virtmem addr}

/-- **Inside the mapping the loop is that of `access`.** -/
theorem accessAt_in_range {a : Nat} {write : Bool} (ha : a < npages * B) (haddr : addr.toNat = virtmem.toNat + a)
    (hsize : npages * B ≤ 2 ^ 63) : ∀ (fuel : Nat) {m m' : Machine bs.State B}, PolicyInv bs pol m →
    0 < m.pt.nframes →
    (accessAt bs pol virtmem addr write fuel m = some (.done m') ↔ access bs pol a write fuel m = some m')
  | 0,        m, m', _, _ => by simp [accessAt, access]
  | fuel + 1, m, m', h, hn => by
    have hpage : faultPage B addr virtmem = a / B := faultPage_in_range haddr (by omega)
    have hlt : a / B < npages := Nat.div_lt_of_lt_mul (by rw [Nat.mul_comm]; exact ha)
    have hlt' : a / B < m.pt.npages := by rw [h.core.pages]; exact hlt
    have hgrant : Granted virtmem addr write m ↔ (m.pt.pageBits (a / B)).allows write = true := by
      unfold Granted
      rw [show addr.toNat - virtmem.toNat = a by omega, h.core.pages]
      exact ⟨fun hg => hg.2.2, fun hg => ⟨by omega, by omega, hg⟩⟩
    by_cases hb : (m.pt.pageBits (a / B)).allows write = true
    · simp only [accessAt, access, if_pos (hgrant.2 hb), if_pos hlt', if_pos hb, Option.some.injEq, Ending.done.injEq]
    · simp only [accessAt, access, if_neg (fun hg => hb (hgrant.1 hg)), if_pos hlt', if_neg hb, internalFaultHandler,
        hpage]
      cases hf : pageFaultHandler bs pol m (a / B) with
      | none => simp
      | some m₁ =>
        obtain ⟨h₁, hk⟩ := pageFaultHandler_inv h hn hlt hf
        exact accessAt_in_range ha haddr hsize fuel h₁ (by rw [hk.1]; exact hn)

/-- **A misread address is handled and tried again for ever**: the loop neither completes nor aborts. -/
theorem accessAt_misread {write : Bool} (hpages : 0 < npages) (hneg : ptrDiff addr virtmem < 0)
    (hnear : -(B : Int) < ptrDiff addr virtmem)
    (hout : addr.toNat < virtmem.toNat ∨ virtmem.toNat + npages * B ≤ addr.toNat) :
    ∀ (fuel : Nat) {m : Machine bs.State B}, PolicyInv bs pol m → 0 < m.pt.nframes →
    accessAt bs pol virtmem addr write fuel m = none ∨ accessAt bs pol virtmem addr write fuel m = some .undefined
  | 0,        m, _, _ => .inl rfl
  | fuel + 1, m, h, hn => by
    have hgrant : ¬ Granted virtmem addr write m := by
      rintro ⟨hlo, hhi, -⟩
      rw [h.core.pages] at hhi
      omega
    have hzero : 0 < m.pt.npages := by rw [h.core.pages]; exact hpages
    simp only [accessAt, if_neg hgrant, internalFaultHandler, faultPage_misread hneg hnear, if_pos hzero]
    cases hf : pageFaultHandler bs pol m 0 with
    | none => exact .inr rfl
    | some m₁ =>
      obtain ⟨h₁, hk⟩ := pageFaultHandler_inv h hn hpages hf
      exact accessAt_misread hpages hneg hnear hout fuel h₁ (by rw [hk.1]; exact hn)

/-! ## Outside the mapping -/

/-- The fault aborts the process and no handler runs: the loop ends at once, in the state it was in. -/
structure Rejected (bs : BackingStore B npages) (pol : Policy) (virtmem addr : UInt64) (m : Machine bs.State B) :
    Prop where
  abort : internalFaultHandler bs pol virtmem addr (some m) = .abort
  ends : ∀ write fuel, accessAt bs pol virtmem addr write (fuel + 1) m = some (.aborted m)

theorem rejected_iff {m : Machine bs.State B}
    (hout : addr.toNat < virtmem.toNat ∨ virtmem.toNat + m.pt.npages * B ≤ addr.toNat) :
    Rejected bs pol virtmem addr m ↔ m.pt.npages ≤ faultPage B addr virtmem := by
  constructor
  · intro h
    have habort := h.abort
    simp only [internalFaultHandler] at habort
    split at habort
    · cases habort
    · omega
  · intro h
    have habort : internalFaultHandler bs pol virtmem addr (some m) = .abort := if_neg (by omega)
    refine ⟨habort, fun write fuel => ?_⟩
    have hgrant : ¬ Granted virtmem addr write m := fun hg => by
      have := hg.1
      have := hg.2.1
      omega
    simp only [accessAt, if_neg hgrant, habort]

end Handler

/-- **A fault outside the mapping is rejected exactly if it is not less than a block below it**, or there are no
pages. -/
theorem out_of_range_iff {B npages : Nat} (hB : 1 ≤ B) (bs : BackingStore B npages) (pol : Policy)
    (m : Machine bs.State B) (virtmem addr : UInt64) (hfits : virtmem.toNat + m.pt.npages * B ≤ 2 ^ 64)
    (hout : addr.toNat < virtmem.toNat ∨ virtmem.toNat + m.pt.npages * B ≤ addr.toNat) :
    Rejected bs pol virtmem addr m ↔
      m.pt.npages = 0 ∨ 0 ≤ ptrDiff addr virtmem ∨ ptrDiff addr virtmem ≤ -(B : Int) := by
  rw [rejected_iff hout]
  constructor
  · intro h
    refine Decidable.byContradiction (fun hnot => ?_)
    rw [faultPage_misread (by omega) (by omega)] at h
    omega
  · rintro (h | h)
    · rw [h]
      exact Nat.zero_le _
    · exact npages_le_faultPage hB hfits hout h

/-- Two pages of two bytes over local memory, at address 4096, and one frame. -/
def twoPages : Machine (memStore 2 2).State 2 := initVirtualMemory (memStore 2 2) 1 (fun _ _ => 7) (fun _ _ => 0) id

theorem out_of_range_below : Rejected (memStore 2 2) .lru 4096 4094 twoPages :=
  (out_of_range_iff (by decide) (memStore 2 2) .lru twoPages 4096 4094 (by decide) (by decide)).2 (by decide)

theorem below_mapping_handled : (4095 : UInt64).toNat < (4096 : UInt64).toNat ∧
    ¬ Rejected (memStore 2 2) .lru 4096 4095 twoPages ∧
    ∃ m, internalFaultHandler (memStore 2 2) .lru 4096 4095 (some twoPages) = .handled (some m) ∧
      twoPages.pt.pageBits 0 = .none ∧ m.pt.pageBits 0 = .read ∧ m.pt.physmem 0 0 = 7 := by
  have hout : (4095 : UInt64).toNat < (4096 : UInt64).toNat := by decide
  refine ⟨hout, fun h => ?_, _, rfl, rfl, rfl, rfl⟩
  exact absurd ((rejected_iff (.inl hout)).1 h) (by decide)

end Vmem
end Bb
