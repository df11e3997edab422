import BlueBridge.Disk
import BlueBridge.Headers
/-!
# Nbd — the kernel's requests (`buse_main`, `read_all`, `write_all` of `buse.c`)

The kernel writes its requests into a stream socket: a header of 28 bytes in network byte order and, of a write, its data.
`buse_main` reads them one after the other, hands them to the device and writes the replies into the socket.  The socket
gives and takes bytes in pieces of any size.  `read_all` and `write_all` go on until they have all of them; the header is
read by a single `read`, and less than a header fails an assertion.

So the device is a disk, byte for byte what the kernel reads from the socket, if and only if no header comes in pieces
(`buse_serves_iff`).
-/
namespace Bb
namespace Nbd

open Bytes Headers Wire Rmem Disk

/-! ## Byte order -/

/-- `ntohl` and `htonl`: the bytes the other way round. -/
def ntohl (v : UInt32) : UInt32 := UInt32.ofNat (leNat (leBytes 4 v.toNat).reverse)

def ntohll (a : UInt64) : UInt64 :=
  let lo := (a &&& 0xffffffff).toUInt32
  let hi := (a >>> 32).toUInt32
  (ntohl lo).toUInt64 <<< 32 ||| (ntohl hi).toUInt64

theorem ntohl_leNat {d : List UInt8} (hd : d.length = 4) :
    ntohl (UInt32.ofNat (leNat d)) = UInt32.ofNat (beNat d) := by
  have hlt := leNat_lt d
  rw [hd] at hlt
  have hnat : (UInt32.ofNat (leNat d)).toNat = leNat d := UInt32.toNat_ofNat_of_lt' hlt
  rw [ntohl, hnat, ← hd, leBytes_leNat, beNat]

theorem ntohl_beBytes (v : UInt32) : ntohl (UInt32.ofNat (leNat (beBytes 4 v.toNat))) = v := by
  have hlt : v.toNat < 256 ^ 4 := v.toNat_lt
  rw [ntohl_leNat (length_beBytes ..), beNat_beBytes, Nat.mod_eq_of_lt hlt, UInt32.ofNat_toNat]

theorem ntohll_leNat {d : List UInt8} (hd : d.length = 8) :
    ntohll (UInt64.ofNat (leNat d)) = UInt64.ofNat (beNat d) := by
  have hsplit := List.take_append_drop 4 d
  generalize hl : d.take 4 = l at hsplit
  generalize hh : d.drop 4 = h at hsplit
  have hll : l.length = 4 := by rw [← hl, List.length_take]; omega
  have hhl : h.length = 4 := by rw [← hh, List.length_drop]; omega
  subst hsplit
  have hlt := leNat_lt l
  have hht := leNat_lt h
  have hlt' := beNat_lt l
  have hht' := beNat_lt h
  rw [hll] at hlt hlt'
  rw [hhl] at hht hht'
  have hnat : (UInt64.ofNat (leNat (l ++ h))).toNat = leNat l + 2 ^ 32 * leNat h := by
    rw [leNat_append, hll]
    exact UInt64.toNat_ofNat_of_lt' (by show _ < 2 ^ 64; omega)
  have hlo : (UInt64.ofNat (leNat (l ++ h)) &&& 0xffffffff).toUInt32 = UInt32.ofNat (leNat l) := by
    apply UInt32.toNat_inj.1
    rw [UInt64.toNat_toUInt32, UInt64.toNat_and, hnat, UInt32.toNat_ofNat']
    have hmask : (0xffffffff : UInt64).toNat = 2 ^ 32 - 1 := rfl
    rw [hmask, Nat.and_two_pow_sub_one_eq_mod]
    omega
  have hhi : (UInt64.ofNat (leNat (l ++ h)) >>> 32).toUInt32 = UInt32.ofNat (leNat h) := by
    apply UInt32.toNat_inj.1
    rw [UInt64.toNat_toUInt32, UInt64.toNat_shiftRight, hnat, UInt32.toNat_ofNat', Nat.shiftRight_eq_div_pow]
    have hshift : (32 : UInt64).toNat % 64 = 32 := rfl
    rw [hshift]
    omega
  apply UInt64.toNat_inj.1
  rw [ntohll, hlo, hhi, ntohl_leNat hll, ntohl_leNat hhl, beNat_append, hhl,
    UInt64.toNat_or, UInt64.toNat_shiftLeft, UInt32.toNat_toUInt64, UInt32.toNat_toUInt64,
    UInt32.toNat_ofNat_of_lt' hlt', UInt32.toNat_ofNat_of_lt' hht', UInt64.toNat_ofNat_of_lt' (by show _ < 2 ^ 64; omega)]
  have hshift : (32 : UInt64).toNat % 64 = 32 := rfl
  rw [hshift, Nat.mod_eq_of_lt (by rw [Nat.shiftLeft_eq]; omega), ← Nat.shiftLeft_add_eq_or_of_lt hht', Nat.shiftLeft_eq]
  omega

theorem ntohll_beBytes (v : UInt64) : ntohll (UInt64.ofNat (leNat (beBytes 8 v.toNat))) = v := by
  have hlt : v.toNat < 256 ^ 8 := v.toNat_lt
  rw [ntohll_leNat (length_beBytes ..), beNat_beBytes, Nat.mod_eq_of_lt hlt, UInt64.ofNat_toNat]

/-! ## The socket -/

/-- The kernel's end of the socket: what it has sent and is not read yet, what it has been sent, and how many bytes the
next reads of a header, the other reads and the writes give or take at most; and the addresses that `malloc` returns. -/
structure Kernel where
  input : List UInt8
  output : List UInt8
  headers : Nat → Nat
  reads : Nat → Nat
  writes : Nat → Nat
  mallocs : Nat → Nat

def next (f : Nat → Nat) : Nat → Nat := fun i => f (i + 1)

/-- `read(sk, &request, sizeof(request))`: nothing where the kernel has sent all. -/
def Kernel.readHeader (k : Kernel) : List UInt8 × Kernel :=
  let n := min 28 (max 1 (k.headers 0))
  (k.input.take n, { k with input := k.input.drop n, headers := next k.headers })

def Kernel.read (k : Kernel) (count : Nat) : List UInt8 × Kernel :=
  let n := min count (max 1 (k.reads 0))
  (k.input.take n, { k with input := k.input.drop n, reads := next k.reads })

def Kernel.write (k : Kernel) (d : List UInt8) : Nat × Kernel :=
  let n := min d.length (max 1 (k.writes 0))
  (n, { k with output := k.output ++ d.take n, writes := next k.writes })

def Kernel.malloc (k : Kernel) : Nat × Kernel := (k.mallocs 0, { k with mallocs := next k.mallocs })

/-- The loop of `read_all`, of which `count` turns are enough. -/
def readLoop : Nat → (Nat → UInt8) → Nat → Nat → Kernel → Prog Packet ((Nat → UInt8) × Kernel)
  | 0,        mem, _,   count, k => if count = 0 then .ret (mem, k) else .fail
  | fuel + 1, mem, buf, count, k =>
    if count = 0 then .ret (mem, k)
    else
      let (bytes, k) := k.read count
      -- `assert(bytes_read > 0)`
      if bytes.length = 0 then .fail
      else readLoop fuel (writeBytes mem buf bytes) (buf + bytes.length) (count - bytes.length) k

def readAll (mem : Nat → UInt8) (buf count : Nat) (k : Kernel) : Prog Packet ((Nat → UInt8) × Kernel) :=
  readLoop count mem buf count k

def writeLoop : Nat → List UInt8 → Kernel → Prog Packet Kernel
  | 0,        d, k => if d.length = 0 then .ret k else .fail
  | fuel + 1, d, k =>
    if d.length = 0 then .ret k
    else
      let (n, k) := k.write d
      if n = 0 then .fail else writeLoop fuel (d.drop n) k

def writeAll (d : List UInt8) (k : Kernel) : Prog Packet Kernel := writeLoop d.length d k

/-- **`read_all` reads all**, whatever the pieces. -/
theorem readLoop_eq : ∀ (fuel : Nat) (mem : Nat → UInt8) (buf : Nat) {count : Nat} (k : Kernel), count ≤ fuel →
    count ≤ k.input.length → ∃ r, readLoop fuel mem buf count k =
      .ret (writeBytes mem buf (k.input.take count), { k with input := k.input.drop count, reads := r })
  | 0, mem, buf, count, k, hf, hin => by
    obtain rfl : count = 0 := by omega
    exact ⟨k.reads, by simp [readLoop, writeBytes_nil]⟩
  | fuel + 1, mem, buf, count, k, hf, hin => by
    by_cases h0 : count = 0
    · subst h0
      exact ⟨k.reads, by simp [readLoop, writeBytes_nil]⟩
    · have hn : min count (max 1 (k.reads 0)) ≤ count := Nat.min_le_left ..
      have hpos : 0 < min count (max 1 (k.reads 0)) := by omega
      rw [readLoop, if_neg h0]
      unfold Kernel.read
      generalize min count (max 1 (k.reads 0)) = n at hn hpos
      have hlen : (k.input.take n).length = n := by rw [List.length_take]; omega
      dsimp only
      rw [hlen, if_neg (by omega)]
      obtain ⟨r, hr⟩ := readLoop_eq fuel (writeBytes mem buf (k.input.take n)) (buf + n)
        { k with input := k.input.drop n, reads := next k.reads } (show count - n ≤ fuel by omega)
        (by rw [List.length_drop]; omega)
      refine ⟨r, hr.trans ?_⟩
      have htake : k.input.take n ++ (k.input.drop n).take (count - n) = k.input.take count := by
        rw [← List.take_add, Nat.add_sub_cancel' hn]
      have hwrite := writeBytes_append mem buf (k.input.take n) ((k.input.drop n).take (count - n))
      rw [hlen, htake] at hwrite
      rw [hwrite, List.drop_drop, Nat.add_sub_cancel' hn]

theorem readAll_eq (mem : Nat → UInt8) (buf : Nat) {count : Nat} {k : Kernel} (h : count ≤ k.input.length) :
    ∃ r, readAll mem buf count k =
      .ret (writeBytes mem buf (k.input.take count), { k with input := k.input.drop count, reads := r }) :=
  readLoop_eq count mem buf k (Nat.le_refl _) h

/-- **`write_all` writes all.** -/
theorem writeLoop_eq : ∀ (fuel : Nat) {d : List UInt8} (k : Kernel), d.length ≤ fuel →
    ∃ w, writeLoop fuel d k = .ret { k with output := k.output ++ d, writes := w }
  | 0, d, k, hf => by
    obtain rfl : d = [] := List.length_eq_zero_iff.1 (by omega)
    exact ⟨k.writes, by simp [writeLoop]⟩
  | fuel + 1, d, k, hf => by
    by_cases h0 : d.length = 0
    · obtain rfl := List.length_eq_zero_iff.1 h0
      exact ⟨k.writes, by simp [writeLoop]⟩
    · have hpos : min d.length (max 1 (k.writes 0)) ≠ 0 := by omega
      rw [writeLoop, if_neg h0]
      unfold Kernel.write
      generalize min d.length (max 1 (k.writes 0)) = n at hpos
      dsimp only
      rw [if_neg hpos]
      obtain ⟨w, hw⟩ := writeLoop_eq fuel { k with output := k.output ++ d.take n, writes := next k.writes }
        (show (d.drop n).length ≤ fuel by rw [List.length_drop]; omega)
      refine ⟨w, hw.trans ?_⟩
      rw [List.append_assoc, List.take_append_drop]

theorem writeAll_eq (d : List UInt8) (k : Kernel) :
    ∃ w, writeAll d k = .ret { k with output := k.output ++ d, writes := w } :=
  writeLoop_eq d.length k (Nat.le_refl _)

/-! ## The loop -/

/-- The commands of `linux/nbd.h` that `buse_main` knows. -/
inductive Command where
  | read | write | disc | flush | trim
  deriving DecidableEq, Repr

def Command.code : Command → UInt32
  | .read  => 0
  | .write => 1
  | .disc  => 2
  | .flush => 3
  | .trim  => 4

def Command.ofCode (v : UInt32) : Option Command :=
  [Command.read, .write, .disc, .flush, .trim].find? (fun c => c.code == v)

@[simp] theorem Command.ofCode_code (c : Command) : Command.ofCode c.code = some c := by cases c <;> rfl

def nbdRequestMagic : UInt32 := 0x25609513
def nbdReplyMagic : UInt32 := 0x67446698
def ePerm : UInt32 := 1

/-- `struct nbd_request`, as it is in memory. -/
structure NbdRequest where
  magic : UInt32
  type : UInt32
  handle : List UInt8
  offset : UInt64
  len : UInt32

def NbdRequest.ofBytes (d : List UInt8) : NbdRequest where
  magic := UInt32.ofNat (leNat (d.take 4))
  type := UInt32.ofNat (leNat ((d.drop 4).take 4))
  handle := (d.drop 8).take 8
  offset := UInt64.ofNat (leNat ((d.drop 16).take 8))
  len := UInt32.ofNat (leNat ((d.drop 24).take 4))

/-- `struct nbd_reply`, as it is in memory. -/
def nbdReply (error : UInt32) (handle : List UInt8) : List UInt8 :=
  leBytes 4 (ntohl nbdReplyMagic).toNat ++ leBytes 4 error.toNat ++ handle

/-- `struct buse_operations`; what an operation returns is put into the reply as it is. -/
structure BuseOperations where
  read : Option (Caller → Nat → UInt32 → UInt64 → Prog Packet (UInt32 × Caller))
  write : Option (Caller → Nat → UInt32 → UInt64 → Prog Packet (UInt32 × Caller))
  disc : Option (Caller → Prog Packet Caller)
  flush : Option (Caller → Prog Packet (UInt32 × Caller))
  trim : Option (Caller → UInt64 → UInt32 → Prog Packet (UInt32 × Caller))

/-- The `switch` of `buse_main`; `false` is its `return`. -/
def command (aop : BuseOperations) (request : NbdRequest) (c : Caller) (k : Kernel) :
    Prog Packet (Bool × Caller × Kernel) :=
  let len := ntohl request.len
  let offset := ntohll request.offset
  match Command.ofCode (ntohl request.type) with
  | some .read => do
    let (chunk, k) := k.malloc
    let (error, c) ← match aop.read with
      | some read => read c chunk len offset
      | none      => pure (ntohl ePerm, c)
    let k ← writeAll (nbdReply error request.handle) k
    let k ← writeAll (readBytes c.mem chunk len.toNat) k
    pure (true, c, k)
  | some .write => do
    let (chunk, k) := k.malloc
    let (mem, k) ← readAll c.mem chunk len.toNat k
    let (error, c) ← match aop.write with
      | some write => write { c with mem := mem } chunk len offset
      | none       => pure (ntohl ePerm, { c with mem := mem })
    let k ← writeAll (nbdReply error request.handle) k
    pure (true, c, k)
  | some .disc => do
    let c ← match aop.disc with
      | some disc => disc c
      | none      => pure c
    pure (false, c, k)
  | some .flush => do
    let (error, c) ← match aop.flush with
      | some flush => flush c
      | none       => pure (ntohl 0, c)
    let k ← writeAll (nbdReply error request.handle) k
    pure (true, c, k)
  | some .trim => do
    let (error, c) ← match aop.trim with
      | some trim => trim c offset len
      | none      => pure (ntohl 0, c)
    let k ← writeAll (nbdReply error request.handle) k
    pure (true, c, k)
  | none => .fail

def buseLoop (aop : BuseOperations) : Nat → Caller → Kernel → Prog Packet (Caller × Kernel)
  | 0,        _, _ => .fail
  | fuel + 1, c, k =>
    let (bytes, k) := k.readHeader
    if bytes.length = 0 then .ret (c, k)
    else if bytes.length ≠ 28 then .fail
    else if (NbdRequest.ofBytes bytes).magic ≠ ntohl nbdRequestMagic then .fail
    else do
      let (more, c, k) ← command aop (NbdRequest.ofBytes bytes) c k
      if more then buseLoop aop fuel c k else pure (c, k)

/-- The parent's part of `buse_main`.  Each turn but the last reads a byte at least. -/
def buseMain (aop : BuseOperations) (c : Caller) (k : Kernel) : Prog Packet (Caller × Kernel) :=
  buseLoop aop (k.input.length + 1) c k

/-! ## `bb_disk.c` -/

def xmpDisc (c : Caller) : Prog Packet Caller := pure c

def xmpFlush (c : Caller) : Prog Packet (UInt32 × Caller) := pure (0, c)

/-- `xmp_trim` only says that it was called. -/
def xmpTrim (c : Caller) (_offset : UInt64) (_len : UInt32) : Prog Packet (UInt32 × Caller) := pure (0, c)

def aop (B : Nat) (me : SockaddrIn6) : BuseOperations where
  read := some (fun c buf len offset => do return (0, ← xmpRead B me c buf len offset))
  write := some (fun c buf len offset => do return (0, ← xmpWrite B me c buf len offset))
  disc := some xmpDisc
  flush := some xmpFlush
  trim := some xmpTrim

/-! ## What the kernel sees -/

/-- A request of the kernel's; only a write has data. -/
structure Rqst where
  command : Command
  handle : List UInt8
  offset : UInt64
  len : UInt32
  data : List UInt8
  handle_length : handle.length = 8
  data_length : data.length = if command = .write then len.toNat else 0

def Rqst.header (q : Rqst) : List UInt8 :=
  beBytes 4 nbdRequestMagic.toNat ++ (beBytes 4 q.command.code.toNat ++ (q.handle ++
    (beBytes 8 q.offset.toNat ++ beBytes 4 q.len.toNat)))

def Rqst.bytes (q : Rqst) : List UInt8 := q.header ++ q.data

/-- No error, in network byte order. -/
def Rqst.reply (q : Rqst) : List UInt8 := beBytes 4 nbdReplyMagic.toNat ++ beBytes 4 0 ++ q.handle

/-- **A disk's answer**, and the disk after it. -/
def Rqst.answer (q : Rqst) (disk : Nat → UInt8) : List UInt8 × (Nat → UInt8) :=
  match q.command with
  | .read  => (q.reply ++ readBytes disk q.offset.toNat q.len.toNat, disk)
  | .write => (q.reply, writeBytes disk q.offset.toNat q.data)
  | .disc  => ([], disk)
  | .flush => (q.reply, disk)
  | .trim  => (q.reply, disk)

/-- A disk's answers, up to the disconnect. -/
def answers : List Rqst → (Nat → UInt8) → List UInt8 × (Nat → UInt8)
  | [],      disk => ([], disk)
  | q :: qs, disk =>
    if q.command = .disc then q.answer disk
    else ((q.answer disk).1 ++ (answers qs (q.answer disk).2).1, (answers qs (q.answer disk).2).2)

/-- How many requests there are, the disconnect counted and none behind it. -/
def asked : List Rqst → Nat
  | []      => 0
  | q :: qs => if q.command = .disc then 1 else asked qs + 1

theorem Rqst.length_header (q : Rqst) : q.header.length = 28 := by simp [Rqst.header, q.handle_length]

/-- **The header says what the kernel means.** -/
theorem Rqst.ofBytes_header (q : Rqst) :
    (NbdRequest.ofBytes q.header).magic = ntohl nbdRequestMagic ∧
      ntohl (NbdRequest.ofBytes q.header).type = q.command.code ∧
      (NbdRequest.ofBytes q.header).handle = q.handle ∧
      ntohll (NbdRequest.ofBytes q.header).offset = q.offset ∧ ntohl (NbdRequest.ofBytes q.header).len = q.len := by
  have h₄ : ∀ (v : Nat) (l : List UInt8), (beBytes 4 v ++ l).take 4 = beBytes 4 v := fun v l =>
    List.take_left' (length_beBytes 4 v)
  have hd₄ : ∀ (v n : Nat) (l : List UInt8), (beBytes 4 v ++ l).drop (4 + n) = l.drop n := fun v n l => by
    rw [← List.drop_drop, List.drop_left' (length_beBytes 4 v)]
  have hd₈ : ∀ (n : Nat) (l : List UInt8), (q.handle ++ l).drop (8 + n) = l.drop n := fun n l => by
    rw [← List.drop_drop, List.drop_left' q.handle_length]
  have h₈ : ∀ (v : Nat) (l : List UInt8), (beBytes 8 v ++ l).take 8 = beBytes 8 v := fun v l =>
    List.take_left' (length_beBytes 8 v)
  refine ⟨?_, ?_, ?_, ?_, ?_⟩
  · show UInt32.ofNat (leNat (q.header.take 4)) = _
    rw [Rqst.header, h₄]
    rfl
  · show ntohl (UInt32.ofNat (leNat ((q.header.drop (4 + 0)).take 4))) = _
    rw [Rqst.header, hd₄, List.drop_zero, h₄, ntohl_beBytes]
  · show (q.header.drop (4 + (4 + 0))).take 8 = _
    rw [Rqst.header, hd₄, hd₄, List.drop_zero, List.take_left' q.handle_length]
  · show ntohll (UInt64.ofNat (leNat ((q.header.drop (4 + (4 + (8 + 0)))).take 8))) = _
    rw [Rqst.header, hd₄, hd₄, hd₈, List.drop_zero, h₈, ntohll_beBytes]
  · show ntohl (UInt32.ofNat (leNat ((q.header.drop (4 + (4 + (8 + 8)))).take 4))) = _
    rw [Rqst.header, hd₄, hd₄, hd₈, List.drop_left' (length_beBytes 8 _), List.take_of_length_le (by simp),
      ntohl_beBytes]

theorem Rqst.nbdReply_eq (q : Rqst) : nbdReply 0 q.handle = q.reply := rfl

/-! ## One request -/

/-- The device can serve it: the extent of a read or a write is one that it has and serves. -/
def Rqst.Fits (B : Nat) (memList : List Ip6Memaddr) (q : Rqst) : Prop :=
  q.command = .read ∨ q.command = .write →
    Served B memList (q.offset, q.len) ∧ q.offset.toNat + q.len.toNat ≤ memList.length * B

/-- `malloc` gives no address near the end of the address space. -/
def Kernel.Mallocs (k : Kernel) : Prop := ∀ i, k.mallocs i + 2 ^ 32 ≤ 2 ^ 64

/-- The socket when a request has been taken off and answered. -/
structure Took (k : Kernel) (rest reply : List UInt8) (k' : Kernel) : Prop where
  input : k'.input = rest
  output : k'.output = k.output ++ reply
  headers : k'.headers = k.headers
  mallocs : k'.Mallocs

section Device

variable {B : Nat} {C : Cluster} {alloc : Server → Nat → UInt64} {me : SockaddrIn6} {memList : List Ip6Memaddr}
  {st : UInt16 → Server} {disk : Nat → UInt8} {c : Caller} {k : Kernel} {q : Rqst} {rest : List UInt8}

/-- An operation that returns 0, and what is written when it has returned. -/
theorem replied {m : Prog Packet Caller} {Q : Caller → (UInt16 → Server) → Prop} {k₁ : Kernel} {g : Caller → List UInt8}
    {f : UInt32 × Caller → Prog Packet (Bool × Caller × Kernel)} (h : Runs (rmemNet B C alloc True) m st Q)
    (hk : Took k rest [] k₁)
    (hf : ∀ c', ∃ w, f (0, c') = .ret (true, c', { k₁ with output := k₁.output ++ g c', writes := w })) :
    Runs (rmemNet B C alloc True) ((m.bind (fun c => .ret (0, c))).bind f) st (fun out st' =>
      out.1 = true ∧ Q out.2.1 st' ∧ Took k rest (g out.2.1) out.2.2) := by
  rw [Prog.bind_assoc]
  refine Runs.bind h (fun c' st' hQ => ?_)
  obtain ⟨w, hw⟩ := hf c'
  rw [Prog.ret_bind, hw]
  refine Runs.ret ⟨rfl, hQ, hk.input, ?_, hk.headers, hk.mallocs⟩
  show k₁.output ++ g c' = _
  rw [hk.output, List.append_nil]

theorem readAll_runs (mem : Nat → UInt8) (buf : Nat) {d : List UInt8} {count : Nat} (hd : d.length = count)
    (hin : k.input = d ++ rest) (hm : k.Mallocs) :
    Runs (rmemNet B C alloc True) (readAll mem buf count k) st (fun out st' =>
      st' = st ∧ readBytes out.1 buf count = d ∧ Took k rest [] out.2) := by
  subst hd
  obtain ⟨r, hr⟩ := readAll_eq mem buf (show d.length ≤ k.input.length by rw [hin, List.length_append]; omega)
  rw [hr, hin, List.take_left, List.drop_left]
  exact Runs.ret ⟨rfl, readBytes_writeBytes .., rfl, (List.append_nil _).symm, rfl, hm⟩

/-- The reply alone. -/
theorem writeReply (q : Rqst) (c : Caller) (k : Kernel) :
    ∃ w, (writeAll (nbdReply 0 q.handle) k).bind (fun k => .ret (true, c, k)) =
      .ret (true, c, { k with output := k.output ++ q.reply, writes := w }) := by
  obtain ⟨w, hw⟩ := writeAll_eq (nbdReply 0 q.handle) k
  exact ⟨w, by rw [hw]; rfl⟩

theorem Rqst.no_data (q : Rqst) (h : q.command ≠ .write) : q.data = [] :=
  List.length_eq_zero_iff.1 (q.data_length.trans (if_neg h))

/-- **Every request is answered as by a disk.** -/
theorem command_runs (hB₀ : 0 < B) (hap : memList.Pairwise (Apart B)) (hc : Ready C memList c)
    (h : Shows B memList st disk) (hin : k.input = q.data ++ rest) (hm : k.Mallocs) (hq : q.Fits B memList) :
    Runs (rmemNet B C alloc True) (command (aop B me) (NbdRequest.ofBytes q.header) c k) st (fun out st' =>
      out.1 = decide (q.command ≠ .disc) ∧ Ready C memList out.2.1 ∧ Shows B memList st' (q.answer disk).2 ∧
        Took k rest (q.answer disk).1 out.2.2) := by
  obtain ⟨-, htype, hhandle, hoffset, hlen⟩ := q.ofBytes_header
  have hquiet : q.command ≠ .write → k.input = rest := fun hne => by rw [hin, q.no_data hne, List.nil_append]
  have hbuf : k.mallocs 0 + q.len.toNat < 2 ^ 64 := by
    have hlt := q.len.toNat_lt
    have := hm 0
    omega
  have hm' : ∀ i, next k.mallocs i + 2 ^ 32 ≤ 2 ^ 64 := fun i => hm (i + 1)
  unfold command Rqst.answer
  rw [htype, hhandle, hoffset, hlen, Command.ofCode_code]
  cases hcmd : q.command with
  | read =>
    obtain ⟨hs, hext⟩ := hq (.inl hcmd)
    have hk : Took k rest [] { k with mallocs := next k.mallocs } :=
      ⟨hquiet (by rw [hcmd]; exact Command.noConfusion), (List.append_nil _).symm, rfl, hm'⟩
    refine (replied (g := fun c' => q.reply ++ readBytes c'.mem (k.mallocs 0) q.len.toNat)
      (xmpRead_runs hB₀ hc h hext hs hbuf) hk (fun c' => ?_)).mono ?_
    · obtain ⟨w, hw⟩ := writeAll_eq (nbdReply 0 q.handle) { k with mallocs := next k.mallocs }
      obtain ⟨w', hw'⟩ := writeAll_eq (readBytes c'.mem (k.mallocs 0) q.len.toNat)
        { k with mallocs := next k.mallocs, output := k.output ++ nbdReply 0 q.handle, writes := w }
      refine ⟨w', ?_⟩
      show (writeAll _ _).bind (fun k => (writeAll _ k).bind _) = _
      rw [hw, Prog.ret_bind, hw', List.append_assoc]
      rfl
    · rintro ⟨more, c', k'⟩ st' ⟨rfl, ⟨hc', hbytes, rfl⟩, hk'⟩
      exact ⟨rfl, hc', h, hbytes ▸ hk'⟩
  | write =>
    obtain ⟨hs, hext⟩ := hq (.inr hcmd)
    have hlen : q.data.length = q.len.toNat := q.data_length.trans (if_pos hcmd)
    refine Runs.bind (readAll_runs (k := { k with mallocs := next k.mallocs }) c.mem (k.mallocs 0) hlen hin hm') ?_
    rintro ⟨mem, k₁⟩ st' ⟨rfl, hmem, hk⟩
    have hk₁ : Took k rest [] k₁ := ⟨hk.input, hk.output, hk.headers, hk.mallocs⟩
    refine (replied (g := fun _ => q.reply)
      (xmpWrite_runs hB₀ hap (c := { c with mem := mem }) ⟨hc.port, hc.addrs⟩ h hext hs (k.mallocs 0)) hk₁
      (fun c' => writeReply q c' k₁)).mono ?_
    rintro ⟨more, c', k'⟩ st' ⟨rfl, ⟨hc', h'⟩, hk'⟩
    rw [hmem] at h'
    exact ⟨rfl, hc', h', hk'⟩
  | disc =>
    exact Runs.ret ⟨rfl, hc, h, hquiet (by rw [hcmd]; exact Command.noConfusion), (List.append_nil _).symm, rfl, hm⟩
  | flush | trim =>
    have hk : Took k rest [] k :=
      ⟨hquiet (by rw [hcmd]; exact Command.noConfusion), (List.append_nil _).symm, rfl, hm⟩
    refine (replied (m := .ret c) (g := fun _ => q.reply) (Q := fun c' st' => Ready C memList c' ∧ Shows B memList st' disk)
      (Runs.ret ⟨hc, h⟩) hk (fun c' => writeReply q c' k)).mono ?_
    rintro ⟨more, c', k'⟩ st' ⟨rfl, ⟨hc', h'⟩, hk'⟩
    exact ⟨rfl, hc', h', hk'⟩

/-! ## All requests -/

theorem readHeader_of_le {r : List UInt8} (hin : k.input = q.bytes ++ r) (hh : 28 ≤ k.headers 0) :
    k.readHeader = (q.header, { k with input := q.data ++ r, headers := next k.headers }) := by
  have hn : min 28 (max 1 (k.headers 0)) = 28 := by omega
  unfold Kernel.readHeader
  dsimp only
  rw [hn, hin, Rqst.bytes, List.append_assoc, List.take_left' q.length_header, List.drop_left' q.length_header]

theorem readHeader_of_lt {r : List UInt8} (hin : k.input = q.bytes ++ r) (hh : k.headers 0 < 28) :
    0 < k.readHeader.1.length ∧ k.readHeader.1.length < 28 := by
  have hlen : 28 ≤ k.input.length := by
    rw [hin, Rqst.bytes, List.length_append, List.length_append, q.length_header]
    omega
  unfold Kernel.readHeader
  rw [List.length_take]
  omega

/-- What is left of the loop when a header has come. -/
theorem buseLoop_cons {r : List UInt8} (hin : k.input = q.bytes ++ r) (hh : 28 ≤ k.headers 0) (fuel : Nat) :
    buseLoop (aop B me) (fuel + 1) c k = (command (aop B me) (NbdRequest.ofBytes q.header) c
      { k with input := q.data ++ r, headers := next k.headers }).bind
        (fun x => if x.1 then buseLoop (aop B me) fuel x.2.1 x.2.2 else .ret (x.2.1, x.2.2)) := by
  rw [buseLoop, readHeader_of_le hin hh]
  dsimp only
  rw [q.length_header, if_neg (by decide), if_neg (fun h => h rfl), if_neg (fun h => h q.ofBytes_header.1)]
  rfl

theorem buseLoop_short {r : List UInt8} (hin : k.input = q.bytes ++ r) (hh : k.headers 0 < 28) (fuel : Nat) :
    buseLoop (aop B me) (fuel + 1) c k = .fail := by
  obtain ⟨hpos, hlt⟩ := readHeader_of_lt hin hh
  rw [buseLoop]
  generalize k.readHeader = x at hpos hlt
  dsimp only
  rw [if_neg (by omega), if_pos (by omega)]

theorem buseLoop_nil (hin : k.input = []) (fuel : Nat) :
    ∃ k', buseLoop (aop B me) (fuel + 1) c k = .ret (c, k') ∧ k'.output = k.output := by
  refine ⟨k.readHeader.2, ?_, rfl⟩
  rw [buseLoop]
  unfold Kernel.readHeader
  simp [hin]

/-- **The requests are answered as by a disk**, while no header comes in pieces. -/
theorem buseLoop_runs (hB₀ : 0 < B) (hap : memList.Pairwise (Apart B)) : ∀ (qs : List Rqst) {fuel : Nat} {c : Caller}
    {k : Kernel} {st : UInt16 → Server} {disk : Nat → UInt8}, qs.length < fuel → Ready C memList c →
    Shows B memList st disk → k.input = qs.flatMap Rqst.bytes → k.Mallocs → (∀ q ∈ qs, q.Fits B memList) →
    (∀ i < asked qs, 28 ≤ k.headers i) →
    Runs (rmemNet B C alloc True) (buseLoop (aop B me) fuel c k) st (fun out st' =>
      out.2.output = k.output ++ (answers qs disk).1 ∧ Shows B memList st' (answers qs disk).2)
  | [], fuel + 1, c, k, st, disk, _, _, h, hin, _, _, _ => by
    obtain ⟨k', hk', hout⟩ := buseLoop_nil hin fuel
    rw [hk']
    exact Runs.ret ⟨hout.trans (List.append_nil _).symm, h⟩
  | q :: qs, fuel + 1, c, k, st, disk, hf, hc, h, hin, hm, hq, hh => by
    rw [List.flatMap_cons] at hin
    have hfirst : 28 ≤ k.headers 0 := hh 0 (by unfold asked; split <;> omega)
    rw [buseLoop_cons hin hfirst]
    refine Runs.bind (command_runs hB₀ hap hc h rfl hm (hq q List.mem_cons_self)) ?_
    rintro ⟨more, c', k'⟩ st' ⟨rfl, hc', h', hk'⟩
    by_cases hdisc : q.command = .disc
    · rw [if_neg (by simp [hdisc]), answers, if_pos hdisc]
      exact Runs.ret ⟨hk'.output, h'⟩
    · rw [if_pos (by simp [hdisc]), answers, if_neg hdisc]
      refine (buseLoop_runs hB₀ hap qs (by simpa using hf) hc' h' hk'.input hk'.mallocs
        (fun p hp => hq p (List.mem_cons_of_mem _ hp)) (fun i hi => ?_)).mono ?_
      · rw [hk'.headers]
        exact hh (i + 1) (by rw [asked, if_neg hdisc]; omega)
      · rintro out st'' ⟨hout, hs⟩
        refine ⟨hout.trans ?_, hs⟩
        rw [hk'.output, List.append_assoc]

/-- A header that comes in pieces is the end. -/
theorem headers_of_ends (hB₀ : 0 < B) (hap : memList.Pairwise (Apart B))
    {Q : Caller × Kernel → Conf Packet (UInt16 → Server) (Caller × Kernel) → Prop} {qs : List Rqst} {fuel : Nat}
    {d rc : List Packet} (hf : qs.length < fuel) (hc : Ready C memList c) (h : Shows B memList st disk)
    (hin : k.input = qs.flatMap Rqst.bytes) (hm : k.Mallocs) (hq : ∀ q ∈ qs, q.Fits B memList)
    (he : Ends (rmemNet B C alloc True) Q ⟨buseLoop (aop B me) fuel c k, [], st, d, [], rc⟩) :
    ∀ i < asked qs, 28 ≤ k.headers i := by
  induction qs generalizing fuel c k st disk d rc with
  | nil => exact fun i hi => absurd hi (Nat.not_lt_zero i)
  | cons q qs ih =>
    obtain ⟨fuel, rfl⟩ := Nat.exists_eq_add_of_lt hf
    rw [List.flatMap_cons] at hin
    have hfirst : 28 ≤ k.headers 0 := by
      by_contra hlt
      rw [buseLoop_short hin (by omega)] at he
      exact not_ends_fail rfl he
    rw [buseLoop_cons hin hfirst] at he
    have hrun : Runs (rmemNet B C alloc True) (command (aop B me) (NbdRequest.ofBytes q.header) c
        { k with input := q.data ++ qs.flatMap Rqst.bytes, headers := next k.headers }) st _ :=
      command_runs hB₀ hap hc h rfl hm (hq q List.mem_cons_self)
    obtain ⟨⟨more, c', k'⟩, st', d', rc', ⟨rfl, hc', h', hk'⟩, he'⟩ := hrun.rest he
    rintro (_ | i) hi
    · exact hfirst
    · by_cases hdisc : q.command = .disc
      · rw [asked, if_pos hdisc] at hi
        omega
      · rw [asked, if_neg hdisc] at hi
        rw [if_pos (by simp [hdisc])] at he'
        have hrest := ih (by simp; omega) hc' h' hk'.input hk'.mallocs
          (fun p hp => hq p (List.mem_cons_of_mem _ hp)) he' i (by omega)
        rw [hk'.headers] at hrest
        exact hrest

theorem length_le_flatMap_bytes : ∀ qs : List Rqst, qs.length ≤ (qs.flatMap Rqst.bytes).length
  | []      => Nat.le_refl _
  | q :: qs => by
    have ih := length_le_flatMap_bytes qs
    rw [List.flatMap_cons, List.length_append, Rqst.bytes, List.length_append, q.length_header, List.length_cons]
    omega

/-- **The device is a disk, if and only if no header comes in pieces.**  Whatever the kernel asks for, of extents that the
device serves, and in whatever pieces the data is read and the replies are taken, the kernel gets the bytes it gets from a
disk, reply by reply with the handle of its request, and the servers have what is on the disk. -/
theorem buse_serves_iff (hB₀ : 0 < B) (hap : memList.Pairwise (Apart B)) (hc : Ready C memList c)
    (h : Shows B memList st disk) (qs : List Rqst) (hin : k.input = qs.flatMap Rqst.bytes) (hm : k.Mallocs)
    (hq : ∀ q ∈ qs, q.Fits B memList) :
    Runs (rmemNet B C alloc True) (buseMain (aop B me) c k) st (fun out st' =>
        out.2.output = k.output ++ (answers qs disk).1 ∧ Shows B memList st' (answers qs disk).2) ↔
      ∀ i < asked qs, 28 ≤ k.headers i := by
  have hf : qs.length < k.input.length + 1 := by
    rw [hin]
    exact Nat.lt_succ_of_le (length_le_flatMap_bytes qs)
  exact ⟨fun hr => headers_of_ends hB₀ hap hf hc h hin hm hq (hr [] []),
    buseLoop_runs hB₀ hap qs hf hc h hin hm hq⟩

end Device

/-- Two blocks of two bytes; the second is written and read back, the data one byte at a time. -/
theorem buse_serves_write_read :
    let memList : List Ip6Memaddr := [⟨1, 0, 0, 16⟩, ⟨2, 0, 0, 16⟩]
    let qs : List Rqst := [⟨.write, [1, 2, 3, 4, 5, 6, 7, 8], 2, 2, [7, 9], rfl, rfl⟩,
      ⟨.read, [8, 7, 6, 5, 4, 3, 2, 1], 2, 2, [], rfl, rfl⟩, ⟨.disc, [0, 0, 0, 0, 0, 0, 0, 0], 0, 0, [], rfl, rfl⟩]
    Runs (rmemNet 2 plainCluster (fun _ _ => 16) True) (buseMain (aop 2 ⟨⟨9, 0, 0, 0⟩, 6000⟩)
      ⟨⟨⟨0, 0, 0, 0⟩, 5000⟩, memList, fun _ => 0⟩
      ⟨qs.flatMap Rqst.bytes, [], fun _ => 28, fun _ => 1, fun _ => 1, fun _ => 4096⟩) (fun _ => ⟨fun _ => 0, []⟩)
      (fun out _ => out.2.output = [0x67, 0x44, 0x66, 0x98, 0, 0, 0, 0, 1, 2, 3, 4, 5, 6, 7, 8,
        0x67, 0x44, 0x66, 0x98, 0, 0, 0, 0, 8, 7, 6, 5, 4, 3, 2, 1, 7, 9]) := by
  intro memList qs
  have hap : memList.Pairwise (Apart 2) := by simp [memList, Apart]
  have hq : ∀ q ∈ qs, q.Fits 2 memList := by
    unfold Rqst.Fits
    decide
  have hc : Ready plainCluster memList ⟨⟨⟨0, 0, 0, 0⟩, 5000⟩, memList, fun _ => 0⟩ := ⟨rfl, rfl⟩
  have hm : (4096 : Nat) + 2 ^ 32 ≤ 2 ^ 64 := by decide
  refine ((buse_serves_iff (by decide) hap hc (shows_byteAt 2 memList _) qs rfl (fun _ => hm) hq).2
    (fun _ _ => Nat.le_refl _)).mono (fun out st' hout => hout.1.trans ?_)
  decide

end Nbd
end Bb
