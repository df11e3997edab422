import BlueBridge.RmemUniform
/-!
# ArrComp — the increment RPC over shared memory (`ip6/apps/thrift/ddc_simple_arr_comp_server.c`, `thrift_utils.c`)

The handler gets a remote array by its 16-byte pointer, adds a value to every byte and returns the pointer of a new
remote array.  It reads through an `ip6_memaddr_block` on its stack of which it sets the address and the length, but not
the offset `read_uniform_rmem` starts from.  So the offset is what the stack held before, and the handler increments
exactly if that is zero, the blocks are single bytes, and `sub_ids` can count the servers (`increments_iff`).

The handler's memory, what `malloc` returned, the block as the stack holds it and the value of `rand` are given.  `length`
is a `gint32` that is not negative.  `get_pointer` initialises a pointer with the address `gen_rdm_ip6_target` returns by
value; it is modelled as the copy of that address its comment says it is.
-/
namespace Bb
namespace ArrComp

open Bytes Wire Rmem
open Function (update update_self update_of_ne)

/-! ## The program -/

/-- `gen_rdm_ip6_target`: the index is a `uint8_t`. -/
def genRdmIp6Target (hostList : List Ip6Memaddr) (rand : Nat) : Option Ip6Memaddr :=
  hostList[rand % hostList.length % 256]?

/-- The number of blocks `get_pointer` asks for, an `int` passed on as a `uint64_t`. -/
def numPtrs (B : Nat) (size : UInt64) : UInt64 :=
  let n := if size = 0 then 1 else (size.toNat + B - 1) % 2 ^ 64 / B
  UInt64.ofNat (if n % 2 ^ 32 < 2 ^ 31 then n % 2 ^ 32 else n % 2 ^ 32 + (2 ^ 64 - 2 ^ 32))

def marshallShmemPtr (ptr : List UInt8) (addr : Ip6Memaddr) : List UInt8 :=
  ptr ++ leBytes 2 addr.subid.toNat ++ leBytes 2 addr.cmd.toNat ++ leBytes 4 addr.args.toNat ++ leBytes 8 addr.paddr.toNat

/-- The first 16 bytes, which have to be there. -/
def unmarshallShmemPtr (data : List UInt8) : Option Ip6Memaddr :=
  if 16 ≤ data.length then
    some ⟨UInt16.ofNat (leNat (data.take 2)), UInt16.ofNat (leNat ((data.drop 2).take 2)),
      UInt32.ofNat (leNat ((data.drop 4).take 4)), UInt64.ofNat (leNat ((data.drop 8).take 8))⟩
  else none

/-- An `ip6_memaddr_block` as it is laid out. -/
def blockBytes (b : Ip6MemaddrBlock) : List UInt8 :=
  marshallShmemPtr [] b.memaddr ++ bytes64 b.length ++ bytes64 b.offset

/-- The loop over the array, from the given indices. -/
def addLoop (intArr : Nat) (value : Int8) : List Nat → (Nat → UInt8) → Nat → UInt8
  | [],     mem => mem
  | i :: r, mem => addLoop intArr value r (update mem (intArr + i) (mem (intArr + i) + value.toUInt8))

section Program

variable (B : Nat) (me : SockaddrIn6) (hostList : List Ip6Memaddr)

def getPointer (rand : Nat) (targetIp : SockaddrIn6) (size : UInt64) : Prog Packet (SockaddrIn6 × Ip6MemaddrBlock) :=
  match genRdmIp6Target hostList rand with
  | none      => .fail
  | some ipv6 => allocateUniformRmem me { targetIp with addr := ipv6 } (numPtrs B size)

/-- `args_addr` as the handler fills it: the offset is left. -/
def setArgsAddr (argsAddr : Ip6MemaddrBlock) (memaddr : Ip6Memaddr) (length : Nat) : Ip6MemaddrBlock :=
  { argsAddr with
    memaddr := memaddr
    length := UInt64.ofNat (if length = 0 then 1 else 1 + (length - 1) / B) }

/-- `tutorial_simple_arr_comp_handler_increment_array`: returns `target_ip` and the bytes of `_return`. -/
def incrementArray (rand : Nat) (targetIp : SockaddrIn6) (mem : Nat → UInt8) (intArr : Nat) (argsAddr : Ip6MemaddrBlock)
    (pointer : List UInt8) (value : Int8) (length : Nat) : Prog Packet (SockaddrIn6 × List UInt8) := do
  let (targetIp, resultAddr) ← getPointer B me hostList rand targetIp (UInt64.ofNat length)
  match unmarshallShmemPtr pointer with
  | none         => .fail
  | some memaddr => do
    let argsAddr := setArgsAddr B argsAddr memaddr length
    let ((targetIp, mem), _) ← readUniformRmem B me targetIp argsAddr mem intArr (UInt64.ofNat length)
    let mem := addLoop intArr value (List.range length) mem
    let (targetIp, _) ← writeUniformRmem B me targetIp resultAddr mem intArr (UInt64.ofNat length)
    pure (targetIp, marshallShmemPtr [] resultAddr.memaddr ++ (blockBytes resultAddr).take 16)

end Program

/-! ## What it is for -/

/-- An array that is stored at an address on one of the hosts, inside a live region. -/
structure Stored (hostList : List Ip6Memaddr) (st : UInt16 → Server) (arg : Ip6Memaddr) (array : List UInt8) : Prop where
  host : ∃ h ∈ hostList, h.subid = arg.subid
  live : ∃ r ∈ (st arg.subid).live, Within (arg.range array.length) r
  fits : arg.paddr.toNat + array.length ≤ 2 ^ 64
  bytes : readBytes (st arg.subid).mem arg.paddr.toNat array.length = array

/-- **The increment is computed**: the pointer returned names the incremented array, and the argument is as it was. -/
def Incremented (arg : Ip6Memaddr) (array : List UInt8) (value : Int8) (ret : List UInt8) (st : UInt16 → Server) : Prop :=
  ∃ a, unmarshallShmemPtr (ret.take 16) = some a ∧
    readBytes (st a.subid).mem a.paddr.toNat array.length = array.map (· + value.toUInt8) ∧
    readBytes (st arg.subid).mem arg.paddr.toNat array.length = array

/-- **The RPC increments** arrays of this length, given what the handler's `args_addr` holds at first: on an in-order
network, whatever the array, the value, the servers and the handler's memory, every call returns with the increment
computed.  `calloc` is taken to keep its promise for the request that is made. -/
def Increments (B : Nat) (C : Cluster) (me : SockaddrIn6) (hostList : List Ip6Memaddr) (length : Nat)
    (argsAddr : Ip6MemaddrBlock) : Prop :=
  ∀ (alloc : Server → Nat → UInt64) (rand : Nat) (targetIp : SockaddrIn6) (mem : Nat → UInt8) (intArr : Nat)
    (arg : Ip6Memaddr) (array : List UInt8) (value : Int8) (st : UInt16 → Server),
    targetIp.port = C.port → intArr + length < 2 ^ 64 → array.length = length → Stored hostList st arg array →
    (∀ h ∈ hostList, Fresh (st h.subid).live ((alloc (st h.subid) (numPtrs B (UInt64.ofNat length)).toNat).toNat,
      (numPtrs B (UInt64.ofNat length)).toNat)) →
    Runs (rmemNet B C alloc True)
      (incrementArray B me hostList rand targetIp mem intArr argsAddr (marshallShmemPtr [] arg) value length) st
      (fun r st' => Incremented arg array value r.2 st')

/-! ## The pieces -/

theorem length_marshallShmemPtr (addr : Ip6Memaddr) : (marshallShmemPtr [] addr).length = 16 := by
  simp [marshallShmemPtr]

/-- **A pointer comes back as it was sent.** -/
theorem unmarshall_marshall (addr : Ip6Memaddr) : unmarshallShmemPtr (marshallShmemPtr [] addr) = some addr := by
  have hsubid : addr.subid.toNat % 256 ^ 2 = addr.subid.toNat := Nat.mod_eq_of_lt addr.subid.toNat_lt
  have hcmd : addr.cmd.toNat % 256 ^ 2 = addr.cmd.toNat := Nat.mod_eq_of_lt addr.cmd.toNat_lt
  have hargs : addr.args.toNat % 256 ^ 4 = addr.args.toNat := Nat.mod_eq_of_lt addr.args.toNat_lt
  have hpaddr : addr.paddr.toNat % 256 ^ 8 = addr.paddr.toNat := Nat.mod_eq_of_lt addr.paddr.toNat_lt
  rw [unmarshallShmemPtr, if_pos (Nat.le_of_eq (length_marshallShmemPtr addr).symm)]
  show some (Ip6Memaddr.mk (UInt16.ofNat (leNat (leBytes 2 addr.subid.toNat)))
    (UInt16.ofNat (leNat (leBytes 2 addr.cmd.toNat))) (UInt32.ofNat (leNat (leBytes 4 addr.args.toNat)))
    (UInt64.ofNat (leNat (leBytes 8 addr.paddr.toNat)))) = some addr
  simp only [leNat_leBytes, hsubid, hcmd, hargs, hpaddr, UInt16.ofNat_toNat, UInt32.ofNat_toNat, UInt64.ofNat_toNat]

theorem take_ret (b : Ip6MemaddrBlock) :
    (marshallShmemPtr [] b.memaddr ++ (blockBytes b).take 16).take 16 = marshallShmemPtr [] b.memaddr :=
  List.take_left' (length_marshallShmemPtr _)

theorem addLoop_of_not_mem {intArr : Nat} {value : Int8} {q : Nat} : ∀ {is : List Nat} {mem : Nat → UInt8},
    (∀ i ∈ is, q ≠ intArr + i) → addLoop intArr value is mem q = mem q
  | [],      _,   _ => rfl
  | i :: is, mem, h => by
    rw [addLoop, addLoop_of_not_mem (fun j hj => h j (List.mem_cons_of_mem i hj)), update_of_ne (h i List.mem_cons_self)]

theorem addLoop_of_mem {intArr : Nat} {value : Int8} {i : Nat} : ∀ {is : List Nat} {mem : Nat → UInt8}, is.Nodup → i ∈ is →
    addLoop intArr value is mem (intArr + i) = mem (intArr + i) + value.toUInt8
  | j :: is, mem, hnodup, hi => by
    obtain ⟨hj, hnodup⟩ := List.nodup_cons.1 hnodup
    rw [addLoop]
    rcases List.mem_cons.1 hi with rfl | hi
    · rw [addLoop_of_not_mem (fun k hk heq => ne_of_mem_of_not_mem hk hj (Nat.add_left_cancel heq.symm)), update_self]
    · have hne : i ≠ j := ne_of_mem_of_not_mem hi hj
      rw [addLoop_of_mem hnodup hi, update_of_ne (by omega)]

/-- **The loop adds the value to every byte of the array.** -/
theorem readBytes_addLoop (intArr : Nat) (value : Int8) (length : Nat) (mem : Nat → UInt8) :
    readBytes (addLoop intArr value (List.range length) mem) intArr length =
      (readBytes mem intArr length).map (· + value.toUInt8) := by
  rw [readBytes, readBytes, List.map_map]
  apply List.map_congr_left
  intro i hi
  exact addLoop_of_mem List.nodup_range hi

theorem toNat_ofNat_of_int {n : Nat} (h : n < 2 ^ 31) : (UInt64.ofNat n).toNat = n :=
  UInt64.toNat_ofNat_of_lt' (Nat.lt_of_lt_of_le h (by decide))

section Lengths

variable {B length : Nat} (hB : 1 ≤ B) (hlen : length < 2 ^ 31) (hdvd : B ∣ length)

include hB hlen hdvd

/-- Both lengths are the number of the array's blocks, but at least one. -/
theorem numPtrs_eq : (numPtrs B (UInt64.ofNat length)).toNat = if length = 0 then 1 else length / B := by
  have hofNat := toNat_ofNat_of_int hlen
  have hzero : UInt64.ofNat length = 0 ↔ length = 0 := by
    rw [← UInt64.toNat_inj, hofNat]
    rfl
  by_cases h0 : length = 0
  · simp [numPtrs, h0]
  · have hBle : B ≤ length := Nat.le_of_dvd (Nat.pos_of_ne_zero h0) hdvd
    have hdiv : (length + B - 1) / B = length / B := by
      obtain ⟨k, rfl⟩ := hdvd
      rw [Nat.mul_div_cancel_left k hB]
      rw [Nat.div_eq_iff hB]
      rw [Nat.mul_comm B k]
      omega
    have hle : length / B ≤ length := Nat.div_le_self ..
    have hmod : (length + B - 1) % 2 ^ 64 = length + B - 1 := Nat.mod_eq_of_lt (by omega)
    have hmod' : length / B % 2 ^ 32 = length / B := Nat.mod_eq_of_lt (by omega)
    simp only [numPtrs, hofNat, hzero, if_neg h0, hmod, hdiv, hmod']
    rw [if_pos (by omega), toNat_ofNat_of_int (by omega)]

theorem setArgsAddr_length (argsAddr : Ip6MemaddrBlock) (memaddr : Ip6Memaddr) :
    (setArgsAddr B argsAddr memaddr length).length = numPtrs B (UInt64.ofNat length) := by
  apply UInt64.toNat_inj.1
  rw [numPtrs_eq hB hlen hdvd, setArgsAddr]
  by_cases h0 : length = 0
  · simp [h0]
  · have hdiv : 1 + (length - 1) / B = length / B := by
      obtain ⟨k, rfl⟩ := hdvd
      have hk : 0 < k := Nat.pos_of_ne_zero (fun h => h0 (by rw [h, Nat.mul_zero]))
      rw [Nat.mul_div_cancel_left k hB]
      have hpred : (B * k - 1) / B = k - 1 := by
        rw [Nat.div_eq_iff hB, Nat.sub_mul, Nat.one_mul, Nat.mul_comm B k]
        have : B ≤ k * B := Nat.le_mul_of_pos_left B hk
        omega
      omega
    have hle : length / B ≤ length := Nat.div_le_self ..
    rw [if_neg h0, if_neg h0, hdiv, toNat_ofNat_of_int (by omega)]

theorem setArgsAddr_zero {argsAddr : Ip6MemaddrBlock} (hoff : argsAddr.offset = 0) (memaddr : Ip6Memaddr) :
    setArgsAddr B argsAddr memaddr length = ⟨memaddr, numPtrs B (UInt64.ofNat length), 0⟩ := by
  rw [← setArgsAddr_length hB hlen hdvd argsAddr memaddr, ← hoff]
  rfl

/-- Behind the first block there is not enough of the array left. -/
theorem readArgs_offset {argsAddr : Ip6MemaddrBlock} (hoff : argsAddr.offset ≠ 0) (me targetIp : SockaddrIn6)
    (memaddr : Ip6Memaddr) (mem : Nat → UInt8) (intArr : Nat) :
    readUniformRmem B me targetIp (setArgsAddr B argsAddr memaddr length) mem intArr (UInt64.ofNat length) = .fail ∨
    B < length ∧ readUniformRmem B me targetIp (setArgsAddr B argsAddr memaddr length) mem intArr (UInt64.ofNat length) =
      .ret ((targetIp, mem), .success) := by
  have hofNat := toNat_ofNat_of_int hlen
  have hcount : (setArgsAddr B argsAddr memaddr length).length.toNat = if length = 0 then 1 else length / B := by
    rw [setArgsAddr_length hB hlen hdvd, numPtrs_eq hB hlen hdvd]
  have hlt : B < length ↔ B < (UInt64.ofNat length).toNat := by rw [hofNat]
  rw [hlt]
  apply readUniformRmem_offset hB (show (setArgsAddr B argsAddr memaddr length).offset ≠ 0 from hoff)
  · rw [hofNat, hcount]
    split
    · exact .inl (Nat.le_refl 1)
    · exact .inr (Nat.le_refl _)
  · intro hle
    rw [hofNat] at hle
    rw [hcount]
    split
    · exact Nat.le_refl 1
    · exact Nat.div_le_of_le_mul (by rwa [Nat.mul_one])

end Lengths

/-! ## Runs -/

section Runs

variable {B : Nat} {C : Cluster} {alloc : Server → Nat → UInt64} {me targetIp : SockaddrIn6} {hostList : List Ip6Memaddr}
  {rand length intArr : Nat} {mem : Nat → UInt8} {argsAddr : Ip6MemaddrBlock} {arg : Ip6Memaddr} {value : Int8}
  {array : List UInt8} {st : UInt16 → Server}

theorem getPointer_runs {host : Ip6Memaddr} {size : UInt64} (hhost : genRdmIp6Target hostList rand = some host)
    (hport : targetIp.port = C.port) (hn : numPtrs B size ≠ 0) :
    Runs (rmemNet B C alloc True) (getPointer B me hostList rand targetIp size) st (fun r st' => r.1.port = C.port ∧
      r.2 = ⟨baseAddr C me host.subid (alloc (st host.subid) (numPtrs B size).toNat), numPtrs B size, 0⟩ ∧
      st' = reserved alloc st host.subid (numPtrs B size).toNat) := by
  rw [getPointer, hhost]
  exact allocateUniformRmem_runs hport hn

/-- The handler from the answer of `get_pointer` on. -/
def afterPointer (B : Nat) (me : SockaddrIn6) (mem : Nat → UInt8) (intArr : Nat) (argsAddr : Ip6MemaddrBlock)
    (arg : Ip6Memaddr) (value : Int8) (length : Nat) (x : SockaddrIn6 × Ip6MemaddrBlock) :
    Prog Packet (SockaddrIn6 × List UInt8) :=
  (readUniformRmem B me x.1 (setArgsAddr B argsAddr arg length) mem intArr (UInt64.ofNat length)).bind (fun y =>
    (writeUniformRmem B me y.1.1 x.2 (addLoop intArr value (List.range length) y.1.2) intArr (UInt64.ofNat length)).bind
      (fun z => .ret (z.1, marshallShmemPtr [] x.2.memaddr ++ (blockBytes x.2).take 16)))

theorem incrementArray_eq : incrementArray B me hostList rand targetIp mem intArr argsAddr (marshallShmemPtr [] arg) value
    length = (getPointer B me hostList rand targetIp (UInt64.ofNat length)).bind
      (afterPointer B me mem intArr argsAddr arg value length) := by
  unfold incrementArray
  simp only [unmarshall_marshall]
  rfl

/-- **Of what `args_addr` holds at first, only the offset matters.** -/
theorem incrementArray_congr {argsAddr argsAddr' : Ip6MemaddrBlock} (h : argsAddr.offset = argsAddr'.offset)
    (pointer : List UInt8) :
    incrementArray B me hostList rand targetIp mem intArr argsAddr pointer value length =
      incrementArray B me hostList rand targetIp mem intArr argsAddr' pointer value length := by
  have hset : ∀ memaddr, setArgsAddr B argsAddr memaddr length = setArgsAddr B argsAddr' memaddr length := by
    intro memaddr
    rw [setArgsAddr, setArgsAddr, h]
  unfold incrementArray
  simp only [hset]

section Sizes

variable (hB : 1 ≤ B) (hlen : length < 2 ^ 31) (hdvd : B ∣ length)

include hB hlen hdvd

theorem numPtrs_pos : 0 < (numPtrs B (UInt64.ofNat length)).toNat := by
  rw [numPtrs_eq hB hlen hdvd]
  split
  · exact Nat.one_pos
  · next h0 => exact Nat.div_pos (Nat.le_of_dvd (Nat.pos_of_ne_zero h0) hdvd) hB

theorem numPtrs_ne_zero : numPtrs B (UInt64.ofNat length) ≠ 0 := by
  intro h
  have hpos := numPtrs_pos hB hlen hdvd
  rw [h] at hpos
  exact absurd hpos (by decide)

/-- With blocks of single bytes, `calloc` is asked for what the array needs. -/
theorem le_numPtrs (hone : length = 0 ∨ B = 1) : length ≤ (numPtrs B (UInt64.ofNat length)).toNat := by
  rw [numPtrs_eq hB hlen hdvd]
  rcases hone with rfl | rfl
  · exact Nat.zero_le _
  · split
    · omega
    · rw [Nat.div_one]

theorem row_of_one (hone : length = 0 ∨ B = 1) {base : Ip6Memaddr} (hfits : base.paddr.toNat + length ≤ 2 ^ 64)
    (hsub : length ≤ B ∨ base.subid.toNat < ushrtMax) :
    Row B base (numPtrs B (UInt64.ofNat length)) (UInt64.ofNat length) := by
  have hofNat := toNat_ofNat_of_int hlen
  have hn := numPtrs_eq hB hlen hdvd
  constructor
  · exact numPtrs_pos hB hlen hdvd
  · omega
  · omega
  · rw [hofNat]
    exact Nat.le_trans (le_numPtrs hB hlen hdvd hone) (Nat.le_mul_of_pos_right _ hB)
  · intro i hi
    have := base.paddr.toNat_lt
    rw [hn] at hi
    split at hi
    · have : i = 0 := by omega
      rw [this, Nat.zero_mul]
      omega
    · next h0 =>
      have hB1 := hone.resolve_left h0
      rw [hB1, Nat.div_one] at hi
      rw [hB1]
      omega
  · rw [hofNat]
    exact hsub.imp_right (fun h => ⟨hdvd, h⟩)

end Sizes

/-- The bytes of another region are as they were when `calloc` has zeroed a new one. -/
theorem readBytes_reserved {s : UInt16} {n q k : Nat} {s' : UInt16}
    (h : s' = s → Disj ((alloc (st s) n).toNat, n) (q, k)) :
    readBytes (reserved alloc st s n s').mem q k = readBytes (st s').mem q k := by
  by_cases hs : s' = s
  · subst hs
    rw [reserved, update_self]
    exact readBytes_zeroBytes_disjoint _ (h rfl)
  · rw [reserved, update_of_ne hs]

/-- **The increment**, from the answer of `get_pointer` on. -/
theorem afterPointer_runs (hB : 1 ≤ B) (hlen : length < 2 ^ 31) (hdvd : B ∣ length) (hone : length = 0 ∨ B = 1)
    (hoff : argsAddr.offset = 0) (hport : targetIp.port = C.port) (hbuf : intArr + length < 2 ^ 64)
    (harray : array.length = length) (hbytes : readBytes (st arg.subid).mem arg.paddr.toNat length = array)
    (hargs : arg.paddr.toNat + length ≤ 2 ^ 64) {base : Ip6Memaddr} (hbase : base.paddr.toNat + length ≤ 2 ^ 64)
    (hapart : arg.subid = base.subid → Disj (base.range length) (arg.range length))
    (hsub : length ≤ B ∨ arg.subid.toNat < ushrtMax ∧ base.subid.toNat < ushrtMax) :
    Runs (rmemNet B C alloc True)
      (afterPointer B me mem intArr argsAddr arg value length (targetIp, ⟨base, numPtrs B (UInt64.ofNat length), 0⟩)) st
      (fun r st' => Incremented arg array value r.2 st') := by
  have hofNat := toNat_ofNat_of_int hlen
  rw [afterPointer, setArgsAddr_zero hB hlen hdvd hoff]
  apply Runs.bind (readUniformRmem_runs hB (row_of_one hB hlen hdvd hone hargs (hsub.imp_right And.left)) hport mem
    (by rw [hofNat]; exact hbuf))
  rintro ⟨⟨ip, mem₁⟩, e⟩ st₁ ⟨hip, hmem₁, rfl⟩
  apply Runs.bind (writeUniformRmem_runs hB (row_of_one hB hlen hdvd hone hbase (hsub.imp_right And.right)) hip
    (addLoop intArr value (List.range length) mem₁) intArr)
  rintro ⟨ip₂, e₂⟩ st₂ ⟨-, hresult, hframe⟩
  rw [hofNat] at hmem₁ hresult hframe
  refine Runs.ret ⟨base, ?_, ?_, ?_⟩
  · rw [take_ret]
    exact unmarshall_marshall base
  · rw [harray, hresult, readBytes_addLoop, hmem₁, hbytes]
  · rw [harray, ← hbytes]
    apply readBytes_congr
    intro i hi
    apply hframe
    intro hs
    have := hapart hs
    unfold Disj Ip6Memaddr.range at this
    omega

/-- A refused read leaves the handler with what `malloc` gave it, and it increments that. -/
theorem afterPointer_refused (hlen : length < 2 ^ 31)
    (hread : readUniformRmem 1 me targetIp (setArgsAddr 1 argsAddr arg length) mem intArr (UInt64.ofNat length) =
      .ret ((targetIp, mem), .success))
    (hport : targetIp.port = C.port) {base : Ip6Memaddr} (hbase : base.paddr.toNat + length ≤ 2 ^ 64)
    (hsub : base.subid.toNat < ushrtMax) :
    Runs (rmemNet 1 C alloc True)
      (afterPointer 1 me mem intArr argsAddr arg value length (targetIp, ⟨base, numPtrs 1 (UInt64.ofNat length), 0⟩)) st
      (fun r st' => r.2.take 16 = marshallShmemPtr [] base ∧
        readBytes (st' base.subid).mem base.paddr.toNat length =
          (readBytes mem intArr length).map (· + value.toUInt8)) := by
  have hB : 1 ≤ 1 := Nat.le_refl 1
  rw [afterPointer, hread, Prog.ret_bind]
  apply Runs.bind (writeUniformRmem_runs hB (row_of_one hB hlen (Nat.one_dvd length) (.inr rfl) hbase (.inr hsub)) hport
    (addLoop intArr value (List.range length) mem) intArr)
  rintro ⟨ip, e⟩ st' ⟨-, hresult, -⟩
  rw [toNat_ofNat_of_int hlen, readBytes_addLoop] at hresult
  exact Runs.ret ⟨take_ret _, hresult⟩

/-- A new region is apart from an array that is stored on its server. -/
theorem Stored.apart (h : Stored hostList st arg array) {s : UInt16} {reg : Nat × Nat} (hnew : Fresh (st s).live reg)
    (hs : arg.subid = s) : Disj reg (arg.range array.length) := by
  obtain ⟨r, hr, hin⟩ := h.live
  rw [hs] at hr
  have := hnew.apart r hr
  unfold Disj Within at *
  omega

/-- **The handler increments** if the offset on its stack is zero. -/
theorem increments_of_offset (hB : 1 ≤ B) (hlen : length < 2 ^ 31) (hdvd : B ∣ length) (hone : length = 0 ∨ B = 1)
    (hne : hostList ≠ []) (hoff : argsAddr.offset = 0)
    (hsub : length ≤ B ∨ ∀ h ∈ hostList, h.subid.toNat < ushrtMax) : Increments B C me hostList length argsAddr := by
  intro alloc rand targetIp mem intArr arg array value st hport hbuf harray hstored hfresh
  have hidx : rand % hostList.length % 256 < hostList.length :=
    Nat.lt_of_le_of_lt (Nat.mod_le ..) (Nat.mod_lt _ (List.length_pos_iff.2 hne))
  obtain ⟨host, hhost⟩ : ∃ host, genRdmIp6Target hostList rand = some host :=
    ⟨_, List.getElem?_eq_getElem hidx⟩
  have hmem : host ∈ hostList := List.mem_of_getElem? hhost
  have hle := le_numPtrs hB hlen hdvd hone
  have hnew := hfresh host hmem
  have hbytes := hstored.bytes
  have hfits := hstored.fits
  rw [harray] at hbytes hfits
  have hapart : arg.subid = host.subid → Disj _ (arg.range array.length) := hstored.apart hnew
  rw [harray] at hapart
  rw [incrementArray_eq]
  apply Runs.bind (getPointer_runs hhost hport (numPtrs_ne_zero hB hlen hdvd))
  rintro ⟨ip, resultAddr⟩ st₁ ⟨hip, rfl, rfl⟩
  have hsubid : (C.addr host.subid).subid = host.subid := C.subid_addr _
  refine afterPointer_runs hB hlen hdvd hone hoff hip hbuf harray ?_ hfits ?_ ?_ ?_
  · rw [readBytes_reserved hapart]
    exact hbytes
  · have := hnew.fits
    simp only [baseAddr, returnID]
    simp only at this
    omega
  · intro hs
    have := hapart (hs.trans hsubid)
    simp only [Disj, Ip6Memaddr.range, baseAddr, returnID] at *
    omega
  · refine hsub.imp_right (fun h => ⟨?_, ?_⟩)
    · obtain ⟨h', hmem', hs⟩ := hstored.host
      rw [← hs]
      exact h h' hmem'
    · simp only [baseAddr, hsubid]
      exact h host hmem

end Runs

/-! ## When it does not -/

section Fails

variable {B : Nat} {C : Cluster} {me : SockaddrIn6} {hostList : List Ip6Memaddr} {length : Nat} {argsAddr : Ip6MemaddrBlock}
  {host : Ip6Memaddr} (hB : 1 ≤ B) (hlen : length < 2 ^ 31) (hdvd : B ∣ length)
  (hinc : Increments B C me hostList length argsAddr)

/-- An argument of zeros right behind the region `calloc` returns, at address 1 of the same server. -/
def behind (host : Ip6Memaddr) (n : UInt64) : Ip6Memaddr := ⟨host.subid, 0, 0, n + 1⟩

include hB hlen hdvd

theorem numPtrs_le : (numPtrs B (UInt64.ofNat length)).toNat ≤ length + 1 := by
  rw [numPtrs_eq hB hlen hdvd]
  split
  · omega
  · exact Nat.le_succ_of_le (Nat.div_le_self ..)

theorem toNat_numPtrs_succ :
    (numPtrs B (UInt64.ofNat length) + 1).toNat = (numPtrs B (UInt64.ofNat length)).toNat + 1 := by
  have hle := numPtrs_le hB hlen hdvd
  rw [UInt64.toNat_add, UInt64.toNat_one]
  omega

include hinc

/-- What the handler does with that argument and a buffer of ones, once it has the pointer. -/
theorem ends_behind (hmem : host ∈ hostList) (hhosts : hostList.length ≤ 256) (value : Int8) :
    ∃ ip st d rc, ip.port = C.port ∧ Ends (rmemNet B C (fun _ _ => 1) True)
      (fun r c => Incremented (behind host (numPtrs B (UInt64.ofNat length))) (List.replicate length 0) value r.2 c.srv)
      ⟨afterPointer B me (fun _ => 1) 0 argsAddr (behind host (numPtrs B (UInt64.ofNat length))) value length
        (ip, ⟨baseAddr C me host.subid 1, numPtrs B (UInt64.ofNat length), 0⟩), [], st, d, [], rc⟩ := by
  have hsucc := toNat_numPtrs_succ hB hlen hdvd
  obtain ⟨k, hk⟩ := List.mem_iff_getElem?.1 hmem
  have hlt : k < hostList.length := (List.getElem?_eq_some_iff.1 hk).1
  have hhost : genRdmIp6Target hostList k = some host := by
    rw [genRdmIp6Target, Nat.mod_eq_of_lt hlt, Nat.mod_eq_of_lt (by omega)]
    exact hk
  have hle := numPtrs_le hB hlen hdvd
  have hruns := hinc (fun _ _ => 1) k ⟨host, C.port⟩ (fun _ => 1) 0 (behind host (numPtrs B (UInt64.ofNat length)))
    (List.replicate length 0) value
    (fun _ => ⟨fun _ => 0, [((numPtrs B (UInt64.ofNat length)).toNat + 1, length)]⟩) rfl (by omega) List.length_replicate
    ?_ ?_
  · rw [incrementArray_eq] at hruns
    obtain ⟨⟨ip, resultAddr⟩, st, d, rc, ⟨hip, rfl, -⟩, hends⟩ :=
      (getPointer_runs hhost rfl (numPtrs_ne_zero hB hlen hdvd)).rest (hruns [] [])
    exact ⟨ip, st, d, rc, hip, hends.mono (fun _ _ h => h.2.2)⟩
  · constructor
    · exact ⟨host, hmem, rfl⟩
    · refine ⟨_, List.mem_singleton_self _, ?_⟩
      simp only [Within, Ip6Memaddr.range, behind, hsucc, List.length_replicate]
      omega
    · simp only [behind, hsucc, List.length_replicate]
      omega
    · rw [List.length_replicate, readBytes, List.map_const', List.length_range]
  · intro h _
    constructor
    · exact Nat.one_pos
    · simp only [UInt64.toNat_one]
      omega
    · intro l hl
      cases List.mem_singleton.1 hl
      simp only [Disj, UInt64.toNat_one]
      omega

/-- **Blocks of more than a byte overlap**: `calloc` is asked for one byte a block, so the result runs into the
argument. -/
theorem one_of_increments (hmem : host ∈ hostList) (hhosts : hostList.length ≤ 256) : length = 0 ∨ B = 1 := by
  by_contra hbad
  rw [not_or] at hbad
  obtain ⟨h0, hB1⟩ := hbad
  have hn := numPtrs_eq hB hlen hdvd
  rw [if_neg h0] at hn
  have hlt : length / B < length := Nat.div_lt_self (Nat.pos_of_ne_zero h0) (by omega)
  obtain ⟨ip, st, d, rc, -, hends⟩ := ends_behind hB hlen hdvd hinc hmem hhosts 1
  rw [afterPointer, ← Prog.bind_assoc] at hends
  obtain ⟨z, c, a, ha, hresult, hargs⟩ := hends.bind_ret
  rw [take_ret, unmarshall_marshall] at ha
  cases ha
  rw [List.length_replicate] at hresult hargs
  -- the first byte of the argument is one of the result
  have hsubid : (baseAddr C me host.subid 1).subid = host.subid := C.subid_addr _
  have hpaddr : (baseAddr C me host.subid 1).paddr.toNat = 1 := rfl
  have hone := congrArg (·.getD (length / B) 0) hresult
  have hzero := congrArg (·.getD 0 0) hargs
  simp only [getD_readBytes _ _ hlt, getD_readBytes _ _ (Nat.pos_of_ne_zero h0), hsubid, hpaddr, behind,
    toNat_numPtrs_succ hB hlen hdvd, hn, Nat.add_zero] at hone hzero
  rw [Nat.add_comm 1, hzero] at hone
  simp [hlt] at hone
  exact absurd hone (by decide)

/-- **An offset that is not zero** sends the read outside its list or has it refused, and then the handler increments what
`malloc` gave it. -/
theorem offset_of_increments (hmem : host ∈ hostList) (hhosts : hostList.length ≤ 256) : argsAddr.offset = 0 := by
  by_contra hoff
  have hone := one_of_increments hB hlen hdvd hinc hmem hhosts
  have hofNat := toNat_ofNat_of_int hlen
  have hn := numPtrs_eq hB hlen hdvd
  obtain ⟨ip, st, d, rc, hip, hends⟩ := ends_behind hB hlen hdvd hinc hmem hhosts 0
  rcases readArgs_offset hB hlen hdvd hoff me ip (behind host (numPtrs B (UInt64.ofNat length))) (fun _ => 1) 0 with
    hread | ⟨hlt, hread⟩
  · rw [afterPointer, hread] at hends
    exact not_ends_fail rfl hends
  · have hB1 : B = 1 := hone.resolve_left (by omega)
    subst hB1
    have hends' := hends
    rw [afterPointer, hread, Prog.ret_bind] at hends
    have hroom : (UInt64.ofNat length).toNat / 1 ≤ (numPtrs 1 (UInt64.ofNat length)).toNat := by
      rw [hn, hofNat, if_neg (by omega)]
    have hsub := writeUniformRmem_subid hB hip (by rw [hofNat]; exact hlt) hroom hends
    have hfits : (baseAddr C me host.subid 1).paddr.toNat + length ≤ 2 ^ 64 := by
      simp only [baseAddr, returnID, UInt64.toNat_one]
      omega
    obtain ⟨r, c, -, -, ⟨-, -, hret, hresult⟩, a, ha, hinc', -⟩ :=
      (Ends.and (afterPointer_refused hlen hread hip hfits hsub d rc) hends').returns
    rw [hret, unmarshall_marshall] at ha
    cases ha
    rw [List.length_replicate, hresult, readBytes, List.map_const', List.length_range, List.map_replicate,
      List.map_replicate, List.replicate_right_inj (by omega)] at hinc'
    exact absurd hinc' (by decide)

/-- A server `sub_ids` cannot count ends in an access behind the array. -/
theorem subids_of_increments (hhosts : hostList.length ≤ 256) :
    length ≤ B ∨ ∀ h ∈ hostList, h.subid.toNat < ushrtMax := by
  rcases Nat.lt_or_ge B length with hlt | hle
  · refine .inr (fun host hmem => ?_)
    have hofNat := toNat_ofNat_of_int hlen
    have hoff := offset_of_increments hB hlen hdvd hinc hmem hhosts
    obtain ⟨ip, st, d, rc, hip, hends⟩ := ends_behind hB hlen hdvd hinc hmem hhosts 0
    rw [afterPointer, setArgsAddr_zero hB hlen hdvd hoff] at hends
    have hroom : (UInt64.ofNat length).toNat / B ≤ (numPtrs B (UInt64.ofNat length)).toNat := by
      rw [hofNat, numPtrs_eq hB hlen hdvd, if_neg (by omega)]
    have hsub : (behind host (numPtrs B (UInt64.ofNat length))).subid.toNat < ushrtMax :=
      readUniformRmem_subid hB hip (by rw [hofNat]; exact hlt) hroom (by rw [hofNat]; omega) hends
    exact hsub
  · exact .inl hle

end Fails

/-- **The handler increments exactly if the offset that `args_addr` happens to hold is zero**, blocks are single bytes
(or the array is empty), and `sub_ids` can count the servers if there is more than one block to read. -/
theorem increments_iff {B : Nat} {C : Cluster} {me : SockaddrIn6} {hostList : List Ip6Memaddr} {length : Nat}
    (hB : 1 ≤ B) (hhosts : 1 ≤ hostList.length ∧ hostList.length ≤ 40) (hlen : length < 2 ^ 31) (hdvd : B ∣ length)
    (argsAddr : Ip6MemaddrBlock) :
    Increments B C me hostList length argsAddr ↔ argsAddr.offset = 0 ∧ (length = 0 ∨ B = 1) ∧
      (length ≤ B ∨ ∀ h ∈ hostList, h.subid.toNat ≤ 65534) := by
  have hne : hostList ≠ [] := List.ne_nil_of_length_pos hhosts.1
  constructor
  · intro hinc
    obtain ⟨host, hmem⟩ := List.exists_mem_of_ne_nil hostList hne
    refine ⟨offset_of_increments hB hlen hdvd hinc hmem (by omega), one_of_increments hB hlen hdvd hinc hmem (by omega), ?_⟩
    exact (subids_of_increments hB hlen hdvd hinc (by omega)).imp_right
      (fun h host hmem => Nat.le_of_lt_succ (h host hmem))
  · rintro ⟨hoff, hone, hsub⟩
    exact increments_of_offset hB hlen hdvd hone hne hoff
      (hsub.imp_right (fun h host hmem => Nat.lt_succ_of_le (h host hmem)))

theorem increments_iff_four :
    Increments 1 plainCluster ⟨⟨9, 0, 0, 0⟩, 6000⟩ [⟨1, 0, 0, 0⟩, ⟨2, 0, 0, 0⟩] 4 ⟨⟨3, 3, 3, 3⟩, 7, 0⟩ :=
  (increments_iff (by decide) (by decide) (by decide) (by decide) _).2 ⟨rfl, .inr rfl, .inr (by decide)⟩

/-- **An offset of 1 on the stack**: the array 5, 6 is to be incremented by 1, and the result is two bytes of what
`malloc` returned, incremented. -/
theorem increment_of_malloc :
    let st : UInt16 → Server := fun _ => ⟨writeBytes (fun _ => 0) 100 [5, 6], [(100, 2)]⟩
    Stored [⟨1, 0, 0, 0⟩] st ⟨1, 0, 0, 100⟩ [5, 6] ∧ Fresh (st 1).live (10, 2) ∧
    ∃ r c, Reach (rmemNet 1 plainCluster (fun _ _ => 10) True)
        (start (incrementArray 1 ⟨⟨9, 0, 0, 0⟩, 6000⟩ [⟨1, 0, 0, 0⟩] 0 ⟨⟨1, 0, 0, 0⟩, 5000⟩ (fun _ => 7) 0
          ⟨⟨0, 0, 0, 0⟩, 0, 1⟩ (marshallShmemPtr [] ⟨1, 0, 0, 100⟩) 1 2) st) c ∧
      c.prog = .ret r ∧ unmarshallShmemPtr (r.2.take 16) = some ⟨1, 5, 0, 10⟩ ∧
      readBytes (c.srv 1).mem 10 2 = [8, 8] ∧ ¬Incremented ⟨1, 0, 0, 100⟩ [5, 6] 1 r.2 c.srv := by
  intro st
  have hstored : Stored [⟨1, 0, 0, 0⟩] st ⟨1, 0, 0, 100⟩ [5, 6] := by
    constructor
    · exact ⟨⟨1, 0, 0, 0⟩, List.mem_singleton_self _, rfl⟩
    · exact ⟨(100, 2), List.mem_singleton_self _, by unfold Within; decide⟩
    · decide
    · decide
  have hfresh : Fresh (st 1).live (10, 2) := by
    constructor
    · decide
    · decide
    · intro l hl
      cases List.mem_singleton.1 hl
      unfold Disj
      decide
  refine ⟨hstored, hfresh, ?_⟩
  have hpointer : Runs (rmemNet 1 plainCluster (fun _ _ => 10) True) (getPointer 1 ⟨⟨9, 0, 0, 0⟩, 6000⟩ [⟨1, 0, 0, 0⟩] 0
      ⟨⟨1, 0, 0, 0⟩, 5000⟩ 2) st _ := getPointer_runs rfl rfl (by decide)
  have hruns : Runs (rmemNet 1 plainCluster (fun _ _ => 10) True) (incrementArray 1 ⟨⟨9, 0, 0, 0⟩, 6000⟩ [⟨1, 0, 0, 0⟩] 0
      ⟨⟨1, 0, 0, 0⟩, 5000⟩ (fun _ => 7) 0 ⟨⟨0, 0, 0, 0⟩, 0, 1⟩ (marshallShmemPtr [] ⟨1, 0, 0, 100⟩) 1 2) st
      (fun r st' => r.2.take 16 = marshallShmemPtr [] ⟨1, 5, 0, 10⟩ ∧ readBytes (st' 1).mem 10 2 = [8, 8]) := by
    rw [incrementArray_eq]
    refine hpointer.bind ?_
    rintro ⟨ip, resultAddr⟩ st' ⟨hip, rfl, rfl⟩
    exact afterPointer_refused (by decide) rfl hip (by decide) (by decide)
  obtain ⟨r, c, hc, hret, -, -, htake, hbytes⟩ := (hruns [] []).returns
  refine ⟨r, c, hc, hret, by rw [htake, unmarshall_marshall], hbytes, ?_⟩
  rintro ⟨a, ha, hresult, -⟩
  rw [htake, unmarshall_marshall] at ha
  cases ha
  exact absurd (hbytes.symm.trans hresult) (by decide)

end ArrComp
end Bb
