import BlueBridge.RmemArrays
/-!
# ArrRpc — calls by reference and by value (`ip6/apps/thrift/ddc_client.c`, `tcp_client.c` and their servers)

The array service comes twice.  Over TCP an array is an argument of the call (`Tcp`).  Over shared memory the client
puts it into remote memory and sends the pointer, the handler reads it from there and returns the pointer of a new
remote array, and the client reads that and frees all of them.  A session of tests over shared memory, in any order and
of any sizes, gets the arrays and the failures the tests over TCP get, and leaves the remote memory as it was
(`session_eq_tcp`).  This takes that the offsets on the stacks are zero, as no one sets them (`ArrComp`).

A process's memory, what `malloc` returns in it, its stack and its draws from `rand` are given.  Thrift is the call of the
handler.  A line that reports a failure is its three numbers.
-/
namespace Bb
namespace ArrComp

open Bytes Wire Rmem
open Function (update update_self update_of_ne)

/-! ## What both share -/

/-- The loop of `populate_array`, from index `i` on.  Without draws it counts. -/
def populateLoop (random : Option (Nat → Nat)) (array : Nat) : Nat → Nat → UInt8 → (Nat → UInt8) → Nat → UInt8
  | 0,     _, _,   mem => mem
  | n + 1, i, num, mem =>
    let next := match random with
      | none      => (num + 1) % 255
      | some draw => UInt8.ofNat (draw i) % 255
    populateLoop random array n (i + 1) next (update mem (array + i) num)

def populateArray (mem : Nat → UInt8) (array arrayLen : Nat) (startNum : UInt8) (random : Option (Nat → Nat)) :
    Nat → UInt8 :=
  populateLoop random array arrayLen 0 startNum mem

/-- `FAILED: result (%d) does not match expected result (%d) at index (%d)` -/
structure Failed where
  result : Nat
  expected : Nat
  index : Nat
deriving DecidableEq, Repr

/-- The comparison of a test, made if it prints. -/
def failures (print : Bool) (result expected : Nat → Nat) (len : Nat) : List Failed :=
  if print then
    (List.range len).filterMap (fun i => if result i ≠ expected i then some ⟨result i, expected i, i⟩ else none)
  else []

/-! ## By value -/

namespace Tcp

/-- The loop of the handler; an index outside the array is a fault. -/
def incrementLoop (arr : List UInt8) (value : Int8) : List Nat → List UInt8 → Option (List UInt8)
  | [],     ret => some ret
  | i :: r, ret =>
    match arr[i]? with
    | none   => none
    | some b => incrementLoop arr value r (ret ++ [b + value.toUInt8])

def incrementArray (arr : List UInt8) (value : Int8) (length : Nat) : Option (List UInt8) :=
  incrementLoop arr value (List.range length) []

def addLoop (array1 array2 : List UInt8) : List Nat → List UInt8 → Option (List UInt8)
  | [],     ret => some ret
  | i :: r, ret =>
    match array1[i]?, array2[i]? with
    | some a, some b => addLoop array1 array2 r (ret ++ [a + b])
    | _,      _      => none

def addArrays (array1 array2 : List UInt8) (length : Nat) : Option (List UInt8) :=
  addLoop array1 array2 (List.range length) []

/-- `test_increment_array`: the array that comes back and the failures printed. -/
def testIncrementArray (print : Bool) (mem : Nat → UInt8) (temp arrLen : Nat) : Option (List UInt8 × List Failed) :=
  let mem := populateArray mem temp arrLen 0 none
  let arr := readBytes mem temp arrLen
  (incrementArray arr 1 arrLen).map (fun resultArr =>
    (resultArr, failures print (fun i => (resultArr.getD i 0).toNat) (fun i => (arr.getD i 0).toNat + 1) arrLen))

def testAddArrays (print : Bool) (mem : Nat → UInt8) (temp1 temp2 : Nat) (draw1 draw2 : Nat → Nat) (arraysLen : Nat) :
    Option (List UInt8 × List Failed) :=
  let mem := populateArray mem temp1 arraysLen 3 (some draw1)
  let mem := populateArray mem temp2 arraysLen 5 (some draw2)
  (addArrays (readBytes mem temp1 arraysLen) (readBytes mem temp2 arraysLen) arraysLen).map (fun resultArr =>
    (resultArr, failures print (fun i => (resultArr.getD i 0).toNat)
      (fun i => (mem (temp1 + i) + mem (temp2 + i)).toNat) arraysLen))

end Tcp

/-! ## By reference -/

/-- The loop of the handler over the two arrays. -/
def sumLoop (resultArray arr1 arr2 : Nat) : List Nat → (Nat → UInt8) → Nat → UInt8
  | [],     mem => mem
  | i :: r, mem => sumLoop resultArray arr1 arr2 r (update mem (resultArray + i) (mem (arr1 + i) + mem (arr2 + i)))

/-- What a handler call of `increment_array` finds: the draw for the server, the memory, the buffer and the stack. -/
structure IncrementCall (len : Nat) where
  rand : Nat
  mem : Nat → UInt8
  intArr : Nat
  argsAddr : Ip6MemaddrBlock
  fits : intArr + len < 2 ^ 64

/-- What a handler call of `add_arrays` finds. -/
structure AddCall (len : Nat) where
  rand : Nat
  mem : Nat → UInt8
  arr1 : Nat
  arr2 : Nat
  resultArray : Nat
  arg1Addr : Ip6MemaddrBlock
  arg2Addr : Ip6MemaddrBlock
  fits : arr1 + len < 2 ^ 64 ∧ arr2 + len < 2 ^ 64
  apart : Disj (arr1, len) (arr2, len) ∧ Disj (arr1, len) (resultArray, len) ∧ Disj (arr2, len) (resultArray, len)

/-- What the client's `test_increment_array` finds. -/
structure IncrementTest (len : Nat) where
  rand : Nat
  mem : Nat → UInt8
  arr : Nat
  resultArr : Nat
  resultAddr : Ip6MemaddrBlock
  fits : resultArr + len < 2 ^ 64
  apart : Disj (arr, len) (resultArr, len)

/-- What the client's `test_add_arrays` finds. -/
structure AddTest (len : Nat) where
  rand1 : Nat
  rand2 : Nat
  mem : Nat → UInt8
  arr1 : Nat
  arr2 : Nat
  draw1 : Nat → Nat
  draw2 : Nat → Nat
  resultArr : Nat
  resultAddr : Ip6MemaddrBlock
  fits : resultArr + len < 2 ^ 64
  apart : Disj (arr1, len) (resultArr, len) ∧ Disj (arr2, len) (resultArr, len)

section Program

variable (B : Nat) (me : SockaddrIn6) (hostList : List Ip6Memaddr)

/-- `tutorial_simple_arr_comp_handler_add_arrays`: returns `target_ip` and the bytes of `_return`. -/
def addArrays {length : Nat} (h : AddCall length) (targetIp : SockaddrIn6) (array1 array2 : List UInt8) :
    Prog Packet (SockaddrIn6 × List UInt8) := do
  let (targetIp, resultAddr) ← getPointer B me hostList h.rand targetIp (UInt64.ofNat length)
  match unmarshallShmemPtr array1, unmarshallShmemPtr array2 with
  | some memaddr1, some memaddr2 => do
    let arg1Addr := setArgsAddr B h.arg1Addr memaddr1 length
    let arg2Addr := setArgsAddr B h.arg2Addr memaddr2 length
    let ((targetIp, mem), _) ← readUniformRmem B me targetIp arg1Addr h.mem h.arr1 (UInt64.ofNat length)
    let ((targetIp, mem), _) ← readUniformRmem B me targetIp arg2Addr mem h.arr2 (UInt64.ofNat length)
    let mem := sumLoop h.resultArray h.arr1 h.arr2 (List.range length) mem
    let (targetIp, _) ← writeUniformRmem B me targetIp resultAddr mem h.resultArray (UInt64.ofNat length)
    pure (targetIp, marshallShmemPtr [] resultAddr.memaddr)
  | _, _ => .fail

/-- `test_increment_array`, given the call: returns the two processes' `target_ip`, the array read and the failures. -/
def testIncrementArray (print : Bool) {arrLen : Nat} (t : IncrementTest arrLen)
    (rpc : List UInt8 → Prog Packet (SockaddrIn6 × List UInt8)) (targetIp : SockaddrIn6) :
    Prog Packet ((SockaddrIn6 × SockaddrIn6) × List UInt8 × List Failed) := do
  let (targetIp, argsAddr) ← getPointer B me hostList t.rand targetIp (UInt64.ofNat arrLen)
  let mem := populateArray t.mem t.arr arrLen 0 none
  let (targetIp, _) ← writeUniformRmem B me targetIp argsAddr mem t.arr (UInt64.ofNat arrLen)
  let (serverIp, resultPtr) ← rpc (marshallShmemPtr [] argsAddr.memaddr)
  match unmarshallShmemPtr resultPtr with
  | none         => .fail
  | some memaddr => do
    let resultAddr := setArgsAddr B t.resultAddr memaddr arrLen
    let ((targetIp, mem), _) ← readUniformRmem B me targetIp resultAddr mem t.resultArr (UInt64.ofNat arrLen)
    let failed := failures print (fun i => (mem (t.resultArr + i)).toNat) (fun i => (mem (t.arr + i)).toNat + 1) arrLen
    let (targetIp, _) ← freeRmem me targetIp argsAddr.memaddr
    let (targetIp, _) ← freeRmem me targetIp resultAddr.memaddr
    pure ((targetIp, serverIp), readBytes mem t.resultArr arrLen, failed)

/-- `test_add_arrays`; it stops at the first failure. -/
def testAddArrays (print : Bool) {arrLen : Nat} (t : AddTest arrLen)
    (rpc : List UInt8 → List UInt8 → Prog Packet (SockaddrIn6 × List UInt8)) (targetIp : SockaddrIn6) :
    Prog Packet ((SockaddrIn6 × SockaddrIn6) × List UInt8 × List Failed) := do
  let (targetIp, arg1Addr) ← getPointer B me hostList t.rand1 targetIp (UInt64.ofNat arrLen)
  let (targetIp, arg2Addr) ← getPointer B me hostList t.rand2 targetIp (UInt64.ofNat arrLen)
  let mem := populateArray t.mem t.arr1 arrLen 3 (some t.draw1)
  let mem := populateArray mem t.arr2 arrLen 5 (some t.draw2)
  let (targetIp, _) ← writeUniformRmem B me targetIp arg1Addr mem t.arr1 (UInt64.ofNat arrLen)
  let (targetIp, _) ← writeUniformRmem B me targetIp arg2Addr mem t.arr2 (UInt64.ofNat arrLen)
  let (serverIp, resultPtr) ← rpc (marshallShmemPtr [] arg1Addr.memaddr) (marshallShmemPtr [] arg2Addr.memaddr)
  match unmarshallShmemPtr resultPtr with
  | none         => .fail
  | some memaddr => do
    let resultAddr := setArgsAddr B t.resultAddr memaddr arrLen
    let ((targetIp, mem), _) ← readUniformRmem B me targetIp resultAddr mem t.resultArr (UInt64.ofNat arrLen)
    let failed := (failures print (fun i => (mem (t.resultArr + i)).toNat)
      (fun i => (mem (t.arr1 + i) + mem (t.arr2 + i)).toNat) arrLen).take 1
    let (targetIp, _) ← freeRmem me targetIp resultAddr.memaddr
    let (targetIp, _) ← freeRmem me targetIp arg1Addr.memaddr
    let (targetIp, _) ← freeRmem me targetIp arg2Addr.memaddr
    pure ((targetIp, serverIp), readBytes mem t.resultArr arrLen, failed)

end Program

/-- One test of a session: what the client and the handler find. -/
inductive Test where
  | increment (len : Nat) (t : IncrementTest len) (h : IncrementCall len)
  | add (len : Nat) (t : AddTest len) (h : AddCall len)

namespace Test

def len : Test → Nat
  | increment len _ _ => len
  | add len _ _       => len

/-- **The stacks are clean**: no block on them has an offset. -/
def Clean : Test → Prop
  | increment _ t h => t.resultAddr.offset = 0 ∧ h.argsAddr.offset = 0
  | add _ t h       => t.resultAddr.offset = 0 ∧ h.arg1Addr.offset = 0 ∧ h.arg2Addr.offset = 0

instance : DecidablePred Clean
  | increment .. => inferInstanceAs (Decidable (_ ∧ _))
  | add ..       => inferInstanceAs (Decidable (_ ∧ _ ∧ _))

/-- The test over shared memory: the client at `me`, the handler at `srv`. -/
def ddc (B : Nat) (me srv : SockaddrIn6) (hostList : List Ip6Memaddr) (print : Bool) (ips : SockaddrIn6 × SockaddrIn6) :
    Test → Prog Packet ((SockaddrIn6 × SockaddrIn6) × List UInt8 × List Failed)
  | increment len t h => testIncrementArray B me hostList print t (fun pointer =>
      incrementArray B srv hostList h.rand ips.2 h.mem h.intArr h.argsAddr pointer 1 len) ips.1
  | add _ t h => testAddArrays B me hostList print t (addArrays B srv hostList h ips.2) ips.1

/-- The same test over TCP. -/
def tcp (print : Bool) : Test → Option (List UInt8 × List Failed)
  | increment len t _ => Tcp.testIncrementArray print t.mem t.arr len
  | add len t _       => Tcp.testAddArrays print t.mem t.arr1 t.arr2 t.draw1 t.draw2 len

end Test

/-- A session of tests, one after the other. -/
def session (B : Nat) (me srv : SockaddrIn6) (hostList : List Ip6Memaddr) (print : Bool) :
    List Test → SockaddrIn6 × SockaddrIn6 → Prog Packet (List (List UInt8 × List Failed))
  | [],      _   => pure []
  | t :: ts, ips => do
    let (ips, out) ← t.ddc B me srv hostList print ips
    let outs ← session B me srv hostList print ts ips
    pure (out :: outs)

/-! ## The loops -/

theorem failures_eq_nil {print : Bool} {result expected : Nat → Nat} {len : Nat} (h : ∀ i < len, result i = expected i) :
    failures print result expected len = [] := by
  unfold failures
  split
  · refine List.filterMap_eq_nil_iff.2 (fun i hi => if_neg (not_not.2 (h i (List.mem_range.1 hi))))
  · rfl

section Populate

variable {random : Option (Nat → Nat)} {array : Nat}

/-- **No byte of a populated array is 255**, so an increment by one does not wrap. -/
theorem populateLoop_lt : ∀ (n : Nat) {i : Nat} {num : UInt8} {mem : Nat → UInt8}, num.toNat < 255 →
    (∀ j < i, (mem (array + j)).toNat < 255) →
    ∀ j < i + n, (populateLoop random array n i num mem (array + j)).toNat < 255
  | 0,     _, _,   _,   _,    hmem, j, hj => hmem j hj
  | n + 1, i, num, mem, hnum, hmem, j, hj => by
    refine populateLoop_lt n ?_ (fun k hk => ?_) j (by omega)
    · have hmod : ∀ u : UInt8, (u % 255).toNat < 255 := fun u => by
        rw [UInt8.toNat_mod]
        exact Nat.mod_lt _ (by decide)
      cases random with
      | none => exact hmod _
      | some draw => exact hmod _
    · by_cases hki : k = i
      · rw [hki, update_self]
        exact hnum
      · rw [update_of_ne (by omega)]
        exact hmem k (by omega)

end Populate

namespace Tcp

theorem incrementLoop_eq {arr : List UInt8} {value : Int8} : ∀ (is : List Nat) (ret : List UInt8),
    (∀ i ∈ is, i < arr.length) →
    incrementLoop arr value is ret = some (ret ++ is.map (fun i => arr.getD i 0 + value.toUInt8))
  | [],      ret, _ => by rw [incrementLoop, List.map_nil, List.append_nil]
  | i :: is, ret, h => by
    have hi : i < arr.length := h i List.mem_cons_self
    rw [incrementLoop, List.getElem?_eq_getElem hi]
    simp only [incrementLoop_eq is _ (fun j hj => h j (List.mem_cons_of_mem i hj)), List.map_cons, List.append_assoc,
      List.singleton_append, List.getD_eq_getElem _ _ hi]

/-- **The handler increments every byte.** -/
theorem incrementArray_eq (arr : List UInt8) (value : Int8) :
    incrementArray arr value arr.length = some (arr.map (· + value.toUInt8)) := by
  rw [incrementArray, incrementLoop_eq _ _ (fun i hi => List.mem_range.1 hi), List.nil_append]
  refine congrArg some (List.ext_getElem (by simp) (fun i h _ => ?_))
  rw [List.length_map, List.length_range] at h
  simp [List.getElem?_eq_getElem h]

theorem addLoop_eq {array1 array2 : List UInt8} : ∀ (is : List Nat) (ret : List UInt8),
    (∀ i ∈ is, i < array1.length ∧ i < array2.length) →
    addLoop array1 array2 is ret = some (ret ++ is.map (fun i => array1.getD i 0 + array2.getD i 0))
  | [],      ret, _ => by rw [addLoop, List.map_nil, List.append_nil]
  | i :: is, ret, h => by
    obtain ⟨h1, h2⟩ := h i List.mem_cons_self
    rw [addLoop, List.getElem?_eq_getElem h1, List.getElem?_eq_getElem h2]
    simp only [addLoop_eq is _ (fun j hj => h j (List.mem_cons_of_mem i hj)), List.map_cons, List.append_assoc,
      List.singleton_append, List.getD_eq_getElem _ _ h1, List.getD_eq_getElem _ _ h2]

/-- **The handler adds the arrays.** -/
theorem addArrays_eq {array1 array2 : List UInt8} (h : array2.length = array1.length) :
    addArrays array1 array2 array1.length = some (List.zipWith (· + ·) array1 array2) := by
  rw [addArrays, addLoop_eq _ _ (fun i hi => ?_), List.nil_append]
  · refine congrArg some (List.ext_getElem (by simp [h]) (fun i hi _ => ?_))
    rw [List.length_map, List.length_range] at hi
    simp [List.getElem?_eq_getElem hi, List.getElem?_eq_getElem (h ▸ hi : i < array2.length)]
  · rw [h]
    exact ⟨List.mem_range.1 hi, List.mem_range.1 hi⟩

end Tcp

section SumLoop

variable {resultArray arr1 arr2 : Nat}

theorem sumLoop_of_not_mem {q : Nat} : ∀ {is : List Nat} {mem : Nat → UInt8}, (∀ i ∈ is, q ≠ resultArray + i) →
    sumLoop resultArray arr1 arr2 is mem q = mem q
  | [],      _,   _ => rfl
  | i :: is, mem, h => by
    rw [sumLoop, sumLoop_of_not_mem (fun j hj => h j (List.mem_cons_of_mem i hj)), update_of_ne (h i List.mem_cons_self)]

theorem sumLoop_of_mem {len i : Nat} (h1 : Disj (arr1, len) (resultArray, len))
    (h2 : Disj (arr2, len) (resultArray, len)) :
    ∀ {is : List Nat} {mem : Nat → UInt8}, is.Nodup → (∀ j ∈ is, j < len) → i ∈ is →
    sumLoop resultArray arr1 arr2 is mem (resultArray + i) = mem (arr1 + i) + mem (arr2 + i)
  | j :: is, mem, hnodup, hlen, hi => by
    obtain ⟨hj, hnodup⟩ := List.nodup_cons.1 hnodup
    have hilen : i < len := hlen i hi
    have hjlen : j < len := hlen j List.mem_cons_self
    unfold Disj at h1 h2
    dsimp only at h1 h2
    rw [sumLoop]
    rcases List.mem_cons.1 hi with rfl | hi
    · rw [sumLoop_of_not_mem (fun k hk heq => ne_of_mem_of_not_mem hk hj (Nat.add_left_cancel heq.symm)), update_self]
    · rw [sumLoop_of_mem h1 h2 hnodup (fun k hk => hlen k (List.mem_cons_of_mem j hk)) hi, update_of_ne (by omega),
        update_of_ne (by omega)]

/-- **The handler's loop adds the arrays.** -/
theorem readBytes_sumLoop {len : Nat} (h1 : Disj (arr1, len) (resultArray, len))
    (h2 : Disj (arr2, len) (resultArray, len)) (mem : Nat → UInt8) :
    readBytes (sumLoop resultArray arr1 arr2 (List.range len) mem) resultArray len =
      List.zipWith (· + ·) (readBytes mem arr1 len) (readBytes mem arr2 len) := by
  simp only [readBytes, List.zipWith_map, List.zipWith_self]
  exact List.map_congr_left (fun i hi => sumLoop_of_mem h1 h2 List.nodup_range (fun j hj => List.mem_range.1 hj) hi)

end SumLoop

/-! ## The handlers, on the arrays -/

/-- Only the first 16 bytes of a pointer are read. -/
theorem unmarshall_append (addr : Ip6Memaddr) (r : List UInt8) :
    unmarshallShmemPtr (marshallShmemPtr [] addr ++ r) = some addr := by
  have hlen := length_marshallShmemPtr addr
  rw [← unmarshall_marshall addr, unmarshallShmemPtr, unmarshallShmemPtr, if_pos (by simp [hlen]), if_pos (by omega)]
  simp only [List.take_append_of_le_length, List.drop_append_of_le_length, List.length_drop, hlen, Nat.reduceLeDiff,
    Nat.reduceSub]

section Handlers

variable {C : Cluster} {alloc : Server → Nat → UInt64} {me targetIp : SockaddrIn6} {hostList : List Ip6Memaddr}
  {len k : Nat} {st₀ st : UInt16 → Server} {own : List Piece} {x x₁ x₂ : Piece}
  (hlen : len < 2 ^ 31) (hne : hostList ≠ []) (hsub : ∀ h ∈ hostList, h.subid.toNat < ushrtMax)
  (hpromise : Promises alloc st₀ (arraySize len) k)

/-- An array of the length in a region of the size for it. -/
structure Piece.Full (len : Nat) (x : Piece) : Prop where
  size : x.size = arraySize len
  data : x.data.length = len

include hlen hne hsub hpromise

/-- **`increment_array` makes a new array**, the argument's incremented. -/
theorem Arena.incrementArray (h : Arena st₀ own st) (hx : x ∈ own) (hfull : ∀ y ∈ own, y.Full len) (hk : own.length < k)
    (hport : targetIp.port = C.port) (c : IncrementCall len) (hoff : c.argsAddr.offset = 0) (value : Int8) :
    Runs (rmemNet 1 C alloc True) (ArrComp.incrementArray 1 me hostList c.rand targetIp c.mem c.intArr c.argsAddr
      (marshallShmemPtr [] x.addr) value len) st (fun r st' => r.1.port = C.port ∧ ∃ y : Piece,
        unmarshallShmemPtr r.2 = some y.addr ∧ y.Full len ∧ y.data = x.data.map (· + value.toUInt8) ∧
        Arena st₀ (y :: own) st') := by
  rw [incrementArray_eq]
  refine Runs.bind (h.getPointer hlen hne hsub (fun y hy => (hfull y hy).size) hk hpromise hport c.rand) ?_
  rintro ⟨ip, resultAddr⟩ st₁ ⟨hip, y, hysize, rfl, h₁⟩
  unfold afterPointer
  rw [setArgsAddr_zero (Nat.le_refl 1) hlen (Nat.one_dvd len) hoff]
  refine Runs.bind (h₁.readUniform (List.mem_cons_of_mem y hx) hlen (hfull x hx).size (hfull x hx).data rfl hip c.mem
    c.fits) ?_
  rintro ⟨⟨ip₂, mem⟩, e⟩ st₂ ⟨hip₂, hbytes, -, rfl⟩
  refine Runs.bind (h₁.writeUniform hlen hysize hip₂ (addLoop c.intArr value (List.range len) mem) c.intArr) ?_
  rintro ⟨ip₃, e⟩ st₃ ⟨hip₃, z, hz, hzsize, hzdata, h₃⟩
  refine Runs.ret ⟨hip₃, z, ?_, ⟨hzsize.trans hysize, ?_⟩, ?_, h₃⟩
  · rw [hz]
    exact unmarshall_append y.addr _
  · rw [hzdata, length_readBytes]
  · dsimp only at hbytes
    rw [hzdata, readBytes_addLoop, hbytes]

/-- **`add_arrays` makes a new array**, the sum of the arguments. -/
theorem Arena.addArrays (h : Arena st₀ own st) (hx₁ : x₁ ∈ own) (hx₂ : x₂ ∈ own) (hfull : ∀ y ∈ own, y.Full len)
    (hk : own.length < k) (hport : targetIp.port = C.port) (c : AddCall len) (hoff₁ : c.arg1Addr.offset = 0)
    (hoff₂ : c.arg2Addr.offset = 0) :
    Runs (rmemNet 1 C alloc True) (ArrComp.addArrays 1 me hostList c targetIp (marshallShmemPtr [] x₁.addr)
      (marshallShmemPtr [] x₂.addr)) st (fun r st' => r.1.port = C.port ∧ ∃ y : Piece,
        unmarshallShmemPtr r.2 = some y.addr ∧ y.Full len ∧ y.data = List.zipWith (· + ·) x₁.data x₂.data ∧
        Arena st₀ (y :: own) st') := by
  obtain ⟨h12, h1r, h2r⟩ := c.apart
  unfold ArrComp.addArrays
  simp only [unmarshall_marshall]
  refine Runs.bind (h.getPointer hlen hne hsub (fun y hy => (hfull y hy).size) hk hpromise hport c.rand) ?_
  rintro ⟨ip, resultAddr⟩ st₁ ⟨hip, y, hysize, rfl, h₁⟩
  simp only [setArgsAddr_zero (Nat.le_refl 1) hlen (Nat.one_dvd len) hoff₁,
    setArgsAddr_zero (Nat.le_refl 1) hlen (Nat.one_dvd len) hoff₂]
  refine Runs.bind (h₁.readUniform (List.mem_cons_of_mem y hx₁) hlen (hfull x₁ hx₁).size (hfull x₁ hx₁).data rfl hip c.mem
    c.fits.1) ?_
  rintro ⟨⟨ip₂, mem₁⟩, e⟩ st₂ ⟨hip₂, hbytes₁, -, rfl⟩
  refine Runs.bind (h₁.readUniform (List.mem_cons_of_mem y hx₂) hlen (hfull x₂ hx₂).size (hfull x₂ hx₂).data rfl hip₂ mem₁
    c.fits.2) ?_
  rintro ⟨⟨ip₃, mem₂⟩, e⟩ st₃ ⟨hip₃, hbytes₂, hframe, rfl⟩
  refine Runs.bind (h₁.writeUniform hlen hysize hip₃ (sumLoop c.resultArray c.arr1 c.arr2 (List.range len) mem₂)
    c.resultArray) ?_
  rintro ⟨ip₄, e⟩ st₄ ⟨hip₄, z, hz, hzsize, hzdata, h₄⟩
  refine Runs.ret ⟨hip₄, z, ?_, ⟨hzsize.trans hysize, ?_⟩, ?_, h₄⟩
  · rw [hz]
    exact unmarshall_marshall y.addr
  · rw [hzdata, length_readBytes]
  · dsimp only at hbytes₁ hbytes₂ hframe
    -- the second read leaves the first array
    have hkeep : readBytes mem₂ c.arr1 len = readBytes mem₁ c.arr1 len := by
      refine readBytes_congr (fun i hi => hframe _ ?_)
      unfold Disj at h12
      omega
    rw [hzdata, readBytes_sumLoop h1r h2r, hkeep, hbytes₁, hbytes₂]

end Handlers

/-! ## The tests -/

/-- **The remote memory is as it was**: the same regions are live, with the same bytes in them. -/
def Unchanged (st st' : UInt16 → Server) : Prop :=
  ∀ s, (st' s).live.Perm (st s).live ∧ ∀ r ∈ (st s).live, readBytes (st' s).mem r.1 r.2 = readBytes (st s).mem r.1 r.2

theorem Arena.unchanged {st₀ st : UInt16 → Server} (h : Arena st₀ [] st) : Unchanged st₀ st :=
  fun s => ⟨h.live s, h.kept s⟩

theorem Unchanged.trans {st st' st'' : UInt16 → Server} (h : Unchanged st st') (h' : Unchanged st' st'') :
    Unchanged st st'' :=
  fun s => ⟨(h' s).1.trans (h s).1, fun r hr => ((h' s).2 r ((h s).1.mem_iff.2 hr)).trans ((h s).2 r hr)⟩

theorem Unchanged.promises {alloc : Server → Nat → UInt64} {st st' : UInt16 → Server} {n k : Nat} (h : Unchanged st st')
    (hpromise : Promises alloc st n k) : Promises alloc st' n k :=
  fun s srv more hlt hsize hlive => hpromise s srv more hlt hsize (hlive.trans ((h s).1.append_left more))

theorem forall_of_readBytes_map {m m' : Nat → UInt8} {p q n : Nat} {f : UInt8 → UInt8}
    (h : readBytes m' q n = (readBytes m p n).map f) : ∀ i < n, m' (q + i) = f (m (p + i)) := by
  simp only [readBytes, List.map_map] at h
  exact fun i hi => List.map_inj_left.1 h i (List.mem_range.2 hi)

theorem forall_of_readBytes_zipWith {m m' : Nat → UInt8} {p p' q n : Nat} {f : UInt8 → UInt8 → UInt8}
    (h : readBytes m' q n = List.zipWith f (readBytes m p n) (readBytes m p' n)) :
    ∀ i < n, m' (q + i) = f (m (p + i)) (m (p' + i)) := by
  simp only [readBytes, List.zipWith_map, List.zipWith_self] at h
  exact fun i hi => List.map_inj_left.1 h i (List.mem_range.2 hi)

/-- The byte incremented is the number incremented, in a populated array. -/
theorem toNat_populated_succ (mem : Nat → UInt8) (array : Nat) {len i : Nat} (hi : i < len) :
    (populateArray mem array len 0 none (array + i) + 1).toNat =
      (populateArray mem array len 0 none (array + i)).toNat + 1 := by
  have hlt : (populateArray mem array len 0 none (array + i)).toNat < 255 :=
    populateLoop_lt len (by decide) (fun j hj => absurd hj (Nat.not_lt_zero j)) i (by omega)
  rw [UInt8.toNat_add, UInt8.toNat_one]
  omega

namespace Tcp

theorem testIncrementArray_eq (print : Bool) (mem : Nat → UInt8) (temp len : Nat) :
    testIncrementArray print mem temp len =
      some ((readBytes (populateArray mem temp len 0 none) temp len).map (· + 1), []) := by
  have hinc := incrementArray_eq (readBytes (populateArray mem temp len 0 none) temp len) 1
  have hone : (1 : Int8).toUInt8 = 1 := rfl
  rw [length_readBytes, hone] at hinc
  rw [testIncrementArray, hinc, Option.map_some]
  refine congrArg (fun l => some (_, l)) (failures_eq_nil (fun i hi => ?_))
  have hget := getD_readBytes (populateArray mem temp len 0 none) temp hi
  have hi' : i < (readBytes (populateArray mem temp len 0 none) temp len).length := by rwa [length_readBytes]
  rw [hget, ← toNat_populated_succ mem temp hi, ← hget]
  simp [List.getElem?_eq_getElem hi']

theorem testAddArrays_eq (print : Bool) (mem : Nat → UInt8) (temp1 temp2 : Nat) (draw1 draw2 : Nat → Nat) (len : Nat) :
    let mem' := populateArray (populateArray mem temp1 len 3 (some draw1)) temp2 len 5 (some draw2)
    testAddArrays print mem temp1 temp2 draw1 draw2 len =
      some (List.zipWith (· + ·) (readBytes mem' temp1 len) (readBytes mem' temp2 len), []) := by
  intro mem'
  have hlen : (readBytes mem' temp2 len).length = (readBytes mem' temp1 len).length := by simp
  have hadd := addArrays_eq hlen
  rw [length_readBytes] at hadd
  show Option.map _ (addArrays (readBytes mem' temp1 len) (readBytes mem' temp2 len) len) = _
  rw [hadd, Option.map_some]
  refine congrArg (fun l => some (_, l)) (failures_eq_nil (fun i hi => ?_))
  simp [readBytes, hi, mem']

end Tcp

section Tests

variable {C : Cluster} {alloc : Server → Nat → UInt64} {me srv targetIp serverIp : SockaddrIn6}
  {hostList : List Ip6Memaddr} {len : Nat} {st : UInt16 → Server}
  (hlen : len < 2 ^ 31) (hne : hostList ≠ []) (hsub : ∀ h ∈ hostList, h.subid.toNat < ushrtMax)
  (hpos : ∀ s, ∀ r ∈ (st s).live, 0 < r.2) (hpromise : Promises alloc st (arraySize len) 3)
  (hport : targetIp.port = C.port) (hserver : serverIp.port = C.port) (print : Bool)

include hlen hne hsub hpos hpromise hport hserver

/-- **The increment test over shared memory** gets what it gets over TCP. -/
theorem testIncrementArray_runs (t : IncrementTest len) (c : IncrementCall len) (hoff : t.resultAddr.offset = 0)
    (hoffc : c.argsAddr.offset = 0) :
    Runs (rmemNet 1 C alloc True) (testIncrementArray 1 me hostList print t (fun pointer =>
        incrementArray 1 srv hostList c.rand serverIp c.mem c.intArr c.argsAddr pointer 1 len) targetIp) st
      (fun r st' => (r.1.1.port = C.port ∧ r.1.2.port = C.port) ∧
        Tcp.testIncrementArray print t.mem t.arr len = some r.2 ∧ Unchanged st st') := by
  rw [Tcp.testIncrementArray_eq]
  unfold testIncrementArray
  generalize hmem : populateArray t.mem t.arr len 0 none = mem
  refine Runs.bind ((Arena.start st).getPointer hlen hne hsub nofun (by decide) hpromise hport t.rand) ?_
  rintro ⟨ip, argsAddr⟩ st₁ ⟨hip, x, hxsize, rfl, h₁⟩
  refine Runs.bind (h₁.writeUniform hlen hxsize hip mem t.arr) ?_
  rintro ⟨ip₂, e⟩ st₂ ⟨hip₂, y, hyaddr, hysize, hydata, h₂⟩
  have hyfull : y.Full len := ⟨hysize.trans hxsize, by rw [hydata, length_readBytes]⟩
  have hfull : ∀ z ∈ [y], z.Full len := by simpa using hyfull
  have hcall : Runs _ (incrementArray 1 srv hostList c.rand serverIp c.mem c.intArr c.argsAddr
      (marshallShmemPtr [] y.addr) 1 len) st₂ _ :=
    h₂.incrementArray hlen hne hsub hpromise (List.mem_singleton_self y) hfull (by simp) hserver c hoffc 1
  rw [hyaddr] at hcall
  refine Runs.bind hcall ?_
  rintro ⟨sip, resultPtr⟩ st₃ ⟨hsip, z, hz, hzfull, hzdata, h₃⟩
  simp only at hz
  simp only [hz, setArgsAddr_zero (Nat.le_refl 1) hlen (Nat.one_dvd len) hoff]
  refine Runs.bind (h₃.readUniform List.mem_cons_self hlen hzfull.size hzfull.data rfl hip₂ mem t.fits) ?_
  rintro ⟨⟨ip₃, mem₃⟩, e⟩ st₄ ⟨hip₃, hbytes, hframe, rfl⟩
  refine Runs.bind ((h₃.perm (.swap ..)).freeRmem hpos hip₃ hyaddr.symm) ?_
  rintro ⟨ip₄, a⟩ st₅ ⟨hip₄, h₅⟩
  refine Runs.bind (h₅.freeRmem hpos hip₄ rfl) ?_
  rintro ⟨ip₅, a'⟩ st₆ ⟨hip₅, h₆⟩
  dsimp only at hbytes hframe
  rw [hzdata, hydata] at hbytes
  refine Runs.ret ⟨⟨hip₅, hsip⟩, congrArg some (Prod.ext hbytes.symm (failures_eq_nil (fun i hi => ?_)).symm),
    h₆.unchanged⟩
  show (mem₃ (t.resultArr + i)).toNat = (mem₃ (t.arr + i)).toNat + 1
  have hkeep : mem₃ (t.arr + i) = mem (t.arr + i) := hframe _ (by have := t.apart; unfold Disj at this; omega)
  rw [forall_of_readBytes_map hbytes i hi, hkeep, ← hmem]
  exact toNat_populated_succ t.mem t.arr hi

/-- **The addition test over shared memory** gets what it gets over TCP. -/
theorem testAddArrays_runs (t : AddTest len) (c : AddCall len) (hoff : t.resultAddr.offset = 0)
    (hoff₁ : c.arg1Addr.offset = 0) (hoff₂ : c.arg2Addr.offset = 0) :
    Runs (rmemNet 1 C alloc True) (testAddArrays 1 me hostList print t (addArrays 1 srv hostList c serverIp) targetIp) st
      (fun r st' => (r.1.1.port = C.port ∧ r.1.2.port = C.port) ∧
        Tcp.testAddArrays print t.mem t.arr1 t.arr2 t.draw1 t.draw2 len = some r.2 ∧ Unchanged st st') := by
  rw [Tcp.testAddArrays_eq]
  unfold testAddArrays
  dsimp only
  generalize populateArray (populateArray t.mem t.arr1 len 3 (some t.draw1)) t.arr2 len 5 (some t.draw2) = mem
  refine Runs.bind ((Arena.start st).getPointer hlen hne hsub nofun (by decide) hpromise hport t.rand1) ?_
  rintro ⟨ip, arg1Addr⟩ st₁ ⟨hip, x₁, hx₁, rfl, h₁⟩
  refine Runs.bind (h₁.getPointer hlen hne hsub (by simpa using hx₁) (by simp) hpromise hip t.rand2) ?_
  rintro ⟨ip₂, arg2Addr⟩ st₂ ⟨hip₂, x₂, hx₂, rfl, h₂⟩
  refine Runs.bind ((h₂.perm (.swap ..)).writeUniform hlen hx₁ hip₂ mem t.arr1) ?_
  rintro ⟨ip₃, e⟩ st₃ ⟨hip₃, y₁, hy₁, hysize₁, hydata₁, h₃⟩
  refine Runs.bind ((h₃.perm (.swap ..)).writeUniform hlen hx₂ hip₃ mem t.arr2) ?_
  rintro ⟨ip₄, e⟩ st₄ ⟨hip₄, y₂, hy₂, hysize₂, hydata₂, h₄⟩
  have hfull₁ : y₁.Full len := ⟨hysize₁.trans hx₁, by rw [hydata₁, length_readBytes]⟩
  have hfull₂ : y₂.Full len := ⟨hysize₂.trans hx₂, by rw [hydata₂, length_readBytes]⟩
  have hfull : ∀ z ∈ [y₂, y₁], z.Full len := by simpa using ⟨hfull₂, hfull₁⟩
  have hcall : Runs _ (addArrays 1 srv hostList c serverIp (marshallShmemPtr [] y₁.addr) (marshallShmemPtr [] y₂.addr))
      st₄ _ := h₄.addArrays hlen hne hsub hpromise (by simp) (by simp) hfull (by simp) hserver c hoff₁ hoff₂
  rw [hy₁, hy₂] at hcall
  refine Runs.bind hcall ?_
  rintro ⟨sip, resultPtr⟩ st₅ ⟨hsip, z, hz, hzfull, hzdata, h₅⟩
  simp only at hz
  simp only [hz, setArgsAddr_zero (Nat.le_refl 1) hlen (Nat.one_dvd len) hoff]
  refine Runs.bind (h₅.readUniform List.mem_cons_self hlen hzfull.size hzfull.data rfl hip₄ mem t.fits) ?_
  rintro ⟨⟨ip₅, mem₅⟩, e⟩ st₆ ⟨hip₅, hbytes, hframe, rfl⟩
  refine Runs.bind (h₅.freeRmem hpos hip₅ rfl) ?_
  rintro ⟨ip₆, a⟩ st₆ ⟨hip₆, h₆⟩
  refine Runs.bind ((h₆.perm (.swap ..)).freeRmem hpos hip₆ hy₁.symm) ?_
  rintro ⟨ip₇, a'⟩ st₇ ⟨hip₇, h₇⟩
  refine Runs.bind (h₇.freeRmem hpos hip₇ hy₂.symm) ?_
  rintro ⟨ip₈, a''⟩ st₈ ⟨hip₈, h₈⟩
  dsimp only at hbytes hframe
  rw [hzdata, hydata₁, hydata₂] at hbytes
  have hnil : ∀ i < len, (mem₅ (t.resultArr + i)).toNat = (mem₅ (t.arr1 + i) + mem₅ (t.arr2 + i)).toNat := by
    intro i hi
    obtain ⟨h1, h2⟩ := t.apart
    unfold Disj at h1 h2
    rw [forall_of_readBytes_zipWith hbytes i hi, hframe (t.arr1 + i) (by omega), hframe (t.arr2 + i) (by omega)]
  refine Runs.ret ⟨⟨hip₈, hsip⟩, congrArg some (Prod.ext hbytes.symm ?_), h₈.unchanged⟩
  dsimp only
  rw [failures_eq_nil hnil]
  rfl

end Tests

/-! ## Sessions -/

section Sessions

variable {C : Cluster} {alloc : Server → Nat → UInt64} {me srv : SockaddrIn6} {hostList : List Ip6Memaddr}

/-- One test of a session. -/
theorem Test.ddc_runs (hne : hostList ≠ []) (hsub : ∀ h ∈ hostList, h.subid.toNat < ushrtMax) {st : UInt16 → Server}
    (hpos : ∀ s, ∀ r ∈ (st s).live, 0 < r.2) {ips : SockaddrIn6 × SockaddrIn6}
    (hips : ips.1.port = C.port ∧ ips.2.port = C.port) (print : Bool) {t : Test} (hlen : t.len < 2 ^ 31) (hclean : t.Clean)
    (hpromise : Promises alloc st (arraySize t.len) 3) :
    Runs (rmemNet 1 C alloc True) (t.ddc 1 me srv hostList print ips) st (fun r st' =>
      (r.1.1.port = C.port ∧ r.1.2.port = C.port) ∧ t.tcp print = some r.2 ∧ Unchanged st st') := by
  cases t with
  | increment len t c =>
    exact testIncrementArray_runs hlen hne hsub hpos hpromise hips.1 hips.2 print t c hclean.1 hclean.2
  | add len t c =>
    exact testAddArrays_runs hlen hne hsub hpos hpromise hips.1 hips.2 print t c hclean.1 hclean.2.1 hclean.2.2

/-- **A session by reference is one by value**: whatever the tests, their order and their sizes, and whatever the network
does with the packets, the arrays and the failures of the tests are those of the tests over TCP, and the remote memory is
as it was at the start. -/
theorem session_eq_tcp (hne : hostList ≠ []) (hsub : ∀ h ∈ hostList, h.subid.toNat < ushrtMax) (print : Bool)
    (tests : List Test) (hlen : ∀ t ∈ tests, t.len < 2 ^ 31) (hclean : ∀ t ∈ tests, t.Clean) (st : UInt16 → Server)
    (hpos : ∀ s, ∀ r ∈ (st s).live, 0 < r.2) (hpromise : ∀ t ∈ tests, Promises alloc st (arraySize t.len) 3)
    (ips : SockaddrIn6 × SockaddrIn6) (hips : ips.1.port = C.port ∧ ips.2.port = C.port) :
    Runs (rmemNet 1 C alloc True) (session 1 me srv hostList print tests ips) st (fun outs st' =>
      tests.map (Test.tcp print) = outs.map some ∧ Unchanged st st') := by
  induction tests generalizing st ips with
  | nil => exact Runs.ret ⟨rfl, fun s => ⟨.refl _, fun _ _ => rfl⟩⟩
  | cons t ts ih =>
    rw [List.forall_mem_cons] at hlen hclean hpromise
    refine Runs.bind (t.ddc_runs hne hsub hpos hips print hlen.1 hclean.1 hpromise.1) ?_
    rintro ⟨ips', out⟩ st₁ ⟨hips', htcp, hsame⟩
    have hpos₁ : ∀ s, ∀ r ∈ (st₁ s).live, 0 < r.2 := fun s r hr => hpos s r ((hsame s).1.mem_iff.1 hr)
    refine Runs.bind (ih hlen.2 hclean.2 st₁ hpos₁ (fun t' ht' => hsame.promises (hpromise.2 t' ht')) ips' hips') ?_
    rintro outs st₂ ⟨hrest, hsame₂⟩
    refine Runs.ret ⟨?_, hsame.trans hsame₂⟩
    rw [List.map_cons, List.map_cons, htcp, hrest]

/-- A region of `n` bytes at the first of three places, each as far from the next as it is long. -/
def firstFit (srv : Server) (n : Nat) : UInt64 :=
  if srv.live.all (fun r => 16 + n ≤ r.1 ∨ r.1 + r.2 ≤ 16) then 16
  else if srv.live.all (fun r => 16 + 3 * n ≤ r.1 ∨ r.1 + r.2 ≤ 16 + 2 * n) then UInt64.ofNat (16 + 2 * n)
  else UInt64.ofNat (16 + 4 * n)

/-- Two regions of the length leave one of the places. -/
theorem promises_firstFit {n : Nat} (hn : 16 + 5 * n < 2 ^ 64) {st : UInt16 → Server}
    (hlive : ∀ s, (st s).live = [(8, 8)]) : Promises firstFit st n 3 := by
  intro s srv more hlt hsize hperm
  have hmem : ∀ r ∈ srv.live, r ∈ more ∨ r = (8, 8) := fun r hr => by
    have := hperm.mem_iff.1 hr
    rwa [hlive, List.mem_append, List.mem_singleton] at this
  have hof : ∀ m ≤ 4, (UInt64.ofNat (16 + m * n)).toNat = 16 + m * n := fun m hm =>
    UInt64.toNat_ofNat_of_lt' (Nat.lt_of_le_of_lt (Nat.add_le_add_left (Nat.mul_le_mul_right n hm) 16)
      (show 16 + 4 * n < 2 ^ 64 by omega))
  unfold firstFit
  split
  · next h =>
    simp only [List.all_eq_true, decide_eq_true_eq] at h
    exact ⟨by show 0 < 16; decide, by show 16 + n ≤ 2 ^ 64; omega, fun r hr => h r hr⟩
  · next h₁ =>
    split
    · next h =>
      simp only [List.all_eq_true, decide_eq_true_eq] at h
      rw [hof 2 (by omega)]
      exact ⟨by show 0 < 16 + 2 * n; omega, by show 16 + 2 * n + n ≤ 2 ^ 64; omega,
        fun r hr => (h r hr).imp_left (fun hle => by show 16 + 2 * n + n ≤ r.1; omega)⟩
    · next h₂ =>
      simp only [List.all_eq_true, decide_eq_true_eq, not_forall] at h₁ h₂
      obtain ⟨a, ha, hna⟩ := h₁
      obtain ⟨b, hb, hnb⟩ := h₂
      have ha' : a ∈ more := (hmem a ha).resolve_right (fun h => by rw [h] at hna; dsimp only at hna; omega)
      have hb' : b ∈ more := (hmem b hb).resolve_right (fun h => by rw [h] at hnb; dsimp only at hnb; omega)
      have hna' := hsize a ha'
      have hnb' := hsize b hb'
      have hne : a ≠ b := fun h => by rw [h] at hna hna'; omega
      have hall : ∀ r ∈ more, r = a ∨ r = b := by
        match more, hlt, ha', hb' with
        | [x], _, ha', hb' => exact absurd ((List.mem_singleton.1 ha').trans (List.mem_singleton.1 hb').symm) hne
        | [x, y], _, ha', hb' => grind
      rw [hof 4 (by omega)]
      refine ⟨by show 0 < 16 + 4 * n; omega, by show 16 + 4 * n + n ≤ 2 ^ 64; omega, fun r hr => ?_⟩
      unfold Disj
      rcases hmem r hr with hr | rfl
      · rcases hall r hr with rfl | rfl
        · dsimp only; omega
        · dsimp only; omega
      · dsimp only; omega

/-- An increment of `[0, 1, 2]` and an addition of `[3, 7]` and `[5, 250]`, beside a region of a third party. -/
theorem session_eq_tcp_two : Runs (rmemNet 1 plainCluster firstFit True)
    (session 1 ⟨⟨9, 0, 0, 0⟩, 6000⟩ ⟨⟨8, 0, 0, 0⟩, 6000⟩ [⟨1, 0, 0, 0⟩, ⟨2, 0, 0, 0⟩] true
      [.increment 3 ⟨0, fun _ => 0, 100, 200, ⟨⟨0, 0, 0, 0⟩, 0, 0⟩, by decide, by unfold Disj; decide⟩
          ⟨1, fun _ => 7, 100, ⟨⟨0, 0, 0, 0⟩, 0, 0⟩, by decide⟩,
        .add 2 ⟨0, 1, fun _ => 0, 100, 200, fun _ => 7, fun _ => 250, 300, ⟨⟨0, 0, 0, 0⟩, 0, 0⟩, by decide,
            by unfold Disj; decide⟩
          ⟨1, fun _ => 7, 100, 200, 300, ⟨⟨0, 0, 0, 0⟩, 0, 0⟩, ⟨⟨0, 0, 0, 0⟩, 0, 0⟩, by decide, by unfold Disj; decide⟩]
      (⟨⟨1, 0, 0, 0⟩, 5000⟩, ⟨⟨1, 0, 0, 0⟩, 5000⟩)) (fun _ => ⟨fun _ => 5, [(8, 8)]⟩)
    (fun outs st' => outs = [([1, 2, 3], []), ([8, 1], [])] ∧ ∀ s, (st' s).live = [(8, 8)] ∧
      readBytes (st' s).mem 8 8 = List.replicate 8 5) := by
  refine (session_eq_tcp (by decide) (by decide) true _ (by decide) (by decide) _ ?_ ?_ _ ⟨rfl, rfl⟩).mono ?_
  · intro s r hr
    cases List.mem_singleton.1 hr
    decide
  · intro t ht
    refine promises_firstFit ?_ (fun _ => rfl)
    rw [arraySize_eq] <;> simp at ht <;> rcases ht with rfl | rfl <;> decide
  · rintro outs st' ⟨hout, hsame⟩
    refine ⟨List.map_injective_iff.2 (Option.some_injective _) (hout.symm.trans (by decide)), fun s => ?_⟩
    exact ⟨List.perm_singleton.1 (hsame s).1, (hsame s).2 (8, 8) (List.mem_singleton_self _)⟩

end Sessions

end ArrComp
end Bb
