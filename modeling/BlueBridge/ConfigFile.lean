import BlueBridge.CString
import BlueBridge.Frame
/-!
# ConfigFile — reading the configuration (`ip6/lib/config.c`, `config.h`)

`set_bb_config` reads the file line by line into a buffer of 1024 bytes, takes what stands behind the first `=` and
stores it by the number of the line: the interface, the hosts, the two ports, the source address and the debug flag.  An
access outside `line`, `interface`, `hosts` or `server_port` is `none`, and so is the `NULL` of a `strstr` that finds no
`=`.

A configuration comes back as it was written exactly if the line of the hosts fits into the buffer with its end of line,
and the server port has a place left for its terminator in `server_port[5]` (`setBbConfig_iff`).

`inet_pton` and `getsockname` are parameters.  The `ioctl`s of `set_interface_ip` change nothing of the configuration
and are left out.
-/
namespace Bb
namespace ConfigFile

open Bytes CString
open Bb.Frame (htons)
open Function (update update_self update_of_ne)

variable {α : Type}

/-! ## The program -/

/-- `struct config`, with the addresses left abstract. -/
structure Config (α : Type) where
  interface : Nat → UInt8
  serverPort : Nat → UInt8
  srcPort : UInt16
  srcAddr : α
  debug : Int
  numHosts : Nat
  hosts : Nat → α

def interfaceSize : Nat := 20
def serverPortSize : Nat := 5
def hostsSize : Nat := 40
def lineSize : Nat := 1024

section Program

variable (inetPton : List UInt8 → Option α) (getsockname : Option UInt16) (isServer : Bool)

/-- The port `set_source_port` goes by: a server sends from the port it listens on. -/
def sourcePort (config : Config α) (srcPort : List UInt8) : Option Int :=
  if isServer then (str serverPortSize config.serverPort 0).bind atoi else atoi srcPort

/-- Without a port the one `getsockname` tells is taken; if that fails, the port stays as it is. -/
def setSourcePort (config : Config α) (srcPort : List UInt8) : Option (Config α) := do
  let port ← sourcePort isServer config srcPort
  if port = 0 then
    match getsockname with
    | none     => some config
    | some sin => some { config with srcPort := htons sin }
  else some { config with srcPort := htons (UInt16.ofInt port) }

/-- The loop over the tokens of the hosts' line. -/
def hostLoop : Nat → (Nat → UInt8) → Nat → (Nat → α) → Nat → Option ((Nat → UInt8) × (Nat → α) × Nat)
  | 0,        _,    _,    _,     _ => none
  | fuel + 1, line, save, hosts, j => do
    match ← strtok lineSize 44 line save with
    | none => some (line, hosts, j)
    | some (token, line, save) =>
      let t ← str lineSize line token
      let hosts ← match inetPton t with
        | none   => some hosts
        | some a => if j < hostsSize then some (update hosts j a) else none
      hostLoop fuel line save hosts (j + 1)

/-- What is done with the value of line `i`. -/
def setField (i : Nat) (line : Nat → UInt8) (cfline : Nat) (config : Config α) : Option ((Nat → UInt8) × Config α) :=
  match i with
  | 0 =>
    if cfline + interfaceSize ≤ lineSize then
      some (line, { config with interface := writeBytes config.interface 0 (readBytes line cfline interfaceSize) })
    else none
  | 1 => do
    let (line, hosts, j) ← hostLoop inetPton lineSize line cfline config.hosts 0
    some (line, { config with hosts := hosts, numHosts := j })
  | 2 => do
    let s ← str lineSize line cfline
    if s.length ≤ serverPortSize then some (line, { config with serverPort := writeBytes config.serverPort 0 s }) else none
  | 3 => do
    let s ← str lineSize line cfline
    let config ← setSourcePort getsockname isServer config s
    some (line, config)
  | 4 => do
    let s ← str lineSize line cfline
    match inetPton s with
    | none   => some (line, config)
    | some a => some (line, { config with srcAddr := a })
  | 5 => do
    let s ← str lineSize line cfline
    let debug ← atoi s
    some (line, { config with debug := debug })
  | _ => some (line, config)

/-- The loop over the lines; every round takes at least a byte of the file. -/
def readLines : Nat → List UInt8 → Nat → (Nat → UInt8) → Config α → Option (Config α)
  | 0,        _,    _, _,    _      => none
  | fuel + 1, file, i, line, config =>
    match fgets lineSize line file with
    | none => some config
    | some (line, file) => do
      let s ← str lineSize line 0
      let delim ← s.idxOf? 61
      let cfline := delim + 1
      let v ← str lineSize line cfline
      let line := update line (cfline + (v.takeWhile (· != 10)).length) 0
      let (line, config) ← setField inetPton getsockname isServer i line cfline config
      readLines fuel file (i + 1) line config

/-- `set_bb_config` on a file that could be opened: the lines, then the report, which reads the two strings and the
hosts. -/
def setBbConfig (file : List UInt8) (line : Nat → UInt8) (config : Config α) : Option (Config α) := do
  let config ← readLines inetPton getsockname isServer (file.length + 1) file 0 line config
  let _ ← str interfaceSize config.interface 0
  let _ ← str serverPortSize config.serverPort 0
  if config.numHosts ≤ hostsSize then some config else none

end Program

/-! ## What is written -/

/-- What is asked of `inet_pton`: it takes hexadecimal digits, colons and dots, at least one of them and at most 45. -/
structure Standard (inetPton : List UInt8 → Option α) : Prop where
  chars : ∀ t a, inetPton t = some a → ∀ c ∈ t, isdigit c = true ∨ (65 ≤ c ∧ c ≤ 70) ∨ (97 ≤ c ∧ c ≤ 102) ∨ c = 58 ∨ c = 46
  length : ∀ t a, inetPton t = some a → t ≠ [] ∧ t.length ≤ 45

/-- Lines of the form `KEY=VALUE`. -/
def linesOf (fs : List (List UInt8 × List UInt8)) : List UInt8 := fs.flatMap (fun f => f.1 ++ 61 :: f.2 ++ [10])

/-- A configuration as it is written down. -/
structure Settings (inetPton : List UInt8 → Option α) where
  interface : List UInt8
  hosts : List (List UInt8)
  serverPort : Nat
  srcPort : Nat
  srcAddr : List UInt8
  debug : Bool
  interface_short : interface.length ≤ 15
  interface_plain : ∀ c ∈ interface, c ≠ 0 ∧ c ≠ 10
  hosts_count : 1 ≤ hosts.length ∧ hosts.length ≤ 40
  hosts_valid : ∀ t ∈ hosts, ∃ a, inetPton t = some a
  serverPort_range : 1 ≤ serverPort ∧ serverPort ≤ 65535
  srcPort_range : srcPort ≤ 65535
  srcAddr_valid : ∃ a, inetPton srcAddr = some a

variable {inetPton : List UInt8 → Option α}

def Settings.hostsText (w : Settings inetPton) : List UInt8 := List.intercalate [44] w.hosts

/-- The key and the value of each line. -/
def Settings.fields (w : Settings inetPton) : List (List UInt8 × List UInt8) :=
  [(ascii "INTERFACE", w.interface), (ascii "HOSTS", w.hostsText), (ascii "SERVERPORT", decimal w.serverPort),
    (ascii "SRCPORT", decimal w.srcPort), (ascii "SRCADDR", w.srcAddr),
    (ascii "DEBUG", ascii (if w.debug then "1" else "0"))]

def Settings.text (w : Settings inetPton) : List UInt8 := linesOf w.fields

/-- **The configuration read is the one written.** -/
def Recovers (w : Settings inetPton) (r : Option (Config α)) : Prop :=
  ∃ config, r = some config ∧ str interfaceSize config.interface 0 = some w.interface ∧
    str serverPortSize config.serverPort 0 = some (decimal w.serverPort) ∧ config.numHosts = w.hosts.length ∧
    (∀ k t, w.hosts[k]? = some t → inetPton t = some (config.hosts k)) ∧ inetPton w.srcAddr = some config.srcAddr ∧
    config.debug = if w.debug then 1 else 0

/-! ## One line -/

section Line

variable (inetPton) (getsockname : Option UInt16) (isServer : Bool)

/-- **A line that fits** is read, cut at its `=` and at its end, and its value is stored. -/
theorem readLines_line {key value : List UInt8} (rest : List UInt8) (hkey : ∀ c ∈ key, c ≠ 0 ∧ c ≠ 10 ∧ c ≠ 61)
    (hval : ∀ c ∈ value, c ≠ 0 ∧ c ≠ 10) (hlen : key.length + value.length + 2 < lineSize) (fuel i : Nat)
    (line : Nat → UInt8) (config : Config α) :
    ∃ line', IsStr lineSize line' (key.length + 1) value ∧
      readLines inetPton getsockname isServer (fuel + 1) (key ++ 61 :: value ++ 10 :: rest) i line config =
        (setField inetPton getsockname isServer i line' (key.length + 1) config).bind
          (fun x => readLines inetPton getsockname isServer fuel rest (i + 1) x.1 x.2) := by
  have hmem : ∀ c ∈ key ++ 61 :: value, c ≠ 0 ∧ c ≠ 10 := by
    intro c hc
    simp only [List.mem_append, List.mem_cons] at hc
    rcases hc with hc | rfl | hc
    · exact ⟨(hkey c hc).1, (hkey c hc).2.1⟩
    · decide
    · exact hval c hc
  have hline : lineOf (lineSize - 1) (key ++ 61 :: value ++ 10 :: rest) = key ++ 61 :: value ++ [10] :=
    lineOf_line rest (fun h => (hmem 10 h).2 rfl) (by simp; omega)
  have hgets : fgets lineSize line (key ++ 61 :: value ++ 10 :: rest) =
      some (writeBytes line 0 (key ++ 61 :: value ++ [10] ++ [0]), rest) := by
    rw [fgets, if_neg (by simp), hline]
    simp
  have hstr : IsStr lineSize (writeBytes line 0 (key ++ 61 :: value ++ [10] ++ [0])) 0 (key ++ 61 :: value ++ [10]) := by
    apply isStr_write
    · intro h
      rcases List.mem_append.1 h with h | h
      · exact (hmem 0 h).1 rfl
      · simp at h
    · simp
      omega
  have hdelim : (key ++ 61 :: value ++ [10]).idxOf? 61 = some key.length := by
    rw [List.append_assoc, List.cons_append, idxOf?_append_cons (fun h => (hkey 61 h).2.2 rfl)]
  have hrest : IsStr lineSize (writeBytes line 0 (key ++ 61 :: value ++ [10] ++ [0])) (key.length + 1) (value ++ [10]) := by
    have hsplit : key ++ 61 :: value ++ [10] = (key ++ [61]) ++ (value ++ [10]) := by simp
    have h := hstr
    rw [hsplit] at h
    have hdrop := h.drop
    rw [Nat.zero_add, List.length_append, List.length_singleton, ← hsplit] at hdrop
    exact hdrop
  have hcut : (value ++ [10]).takeWhile (· != 10) = value := by
    rw [takeWhile_token (fun h => (hval 10 h).2 rfl)]
    simp
  refine ⟨_, hrest.cut, ?_⟩
  rw [readLines, hgets]
  simp only [hstr.str_eq, hdelim, hrest.str_eq, hcut, Option.bind_eq_bind, Option.bind_some]

/-- What is left of a line that did not fit has no `=`. -/
theorem readLines_no_delim {tail : List UInt8} (rest : List UInt8) (htail : ∀ c ∈ tail, c ≠ 0 ∧ c ≠ 10 ∧ c ≠ 61)
    (fuel i : Nat) (line : Nat → UInt8) (config : Config α) :
    readLines inetPton getsockname isServer (fuel + 1) (tail ++ 10 :: rest) i line config = none := by
  have hten : 10 ∉ tail := fun h => (htail 10 h).2.1 rfl
  obtain ⟨s, hs, hlen, hmem⟩ : ∃ s, lineOf (lineSize - 1) (tail ++ 10 :: rest) = s ∧ s.length < lineSize ∧
      ∀ c ∈ s, c ≠ 0 ∧ c ≠ 61 := by
    rcases Nat.lt_or_ge tail.length (lineSize - 1) with h | h
    · refine ⟨_, lineOf_line rest hten h, by simp; omega, fun c hc => ?_⟩
      rcases List.mem_append.1 hc with hc | hc
      · exact ⟨(htail c hc).1, (htail c hc).2.2⟩
      · rw [List.mem_singleton.1 hc]
        decide
    · refine ⟨_, lineOf_long rest hten h, ?_, fun c hc => ?_⟩
      · rw [List.length_take, lineSize]
        omega
      · have hc := List.mem_of_mem_take hc
        exact ⟨(htail c hc).1, (htail c hc).2.2⟩
  have hstr : IsStr lineSize (writeBytes line 0 (s ++ [0])) 0 s :=
    isStr_write line 0 (fun h => (hmem 0 h).1 rfl) (by omega)
  have hdelim : s.idxOf? 61 = none := List.idxOf?_eq_none_iff.2 (fun h => (hmem 61 h).2 rfl)
  rw [readLines, fgets, if_neg (by simp), hs]
  simp only [hstr.str_eq, hdelim, Option.bind_eq_bind, Option.bind_some, Option.bind_none]

/-- **A line that does not fit** ends in a `strstr` without a result. -/
theorem readLines_long {key value : List UInt8} (rest : List UInt8) (hkey : 10 ∉ key)
    (hval : ∀ c ∈ value, c ≠ 0 ∧ c ≠ 10 ∧ c ≠ 61) (hshort : key.length + 1 < lineSize)
    (hlen : lineSize ≤ key.length + value.length + 2) (fuel i : Nat) (line : Nat → UInt8) (config : Config α) :
    readLines inetPton getsockname isServer (fuel + 2) (key ++ 61 :: value ++ 10 :: rest) i line config = none := by
  have hten : 10 ∉ key ++ 61 :: value := by
    intro h
    simp only [List.mem_append, List.mem_cons] at h
    rcases h with h | h | h
    · exact hkey h
    · cases h
    · exact (hval 10 h).2.1 rfl
  have hline : lineOf (lineSize - 1) (key ++ 61 :: value ++ 10 :: rest) = (key ++ 61 :: value).take (lineSize - 1) :=
    lineOf_long rest hten (by simp; omega)
  have hdrop : (key ++ 61 :: value ++ 10 :: rest).drop ((key ++ 61 :: value).take (lineSize - 1)).length =
      value.drop (lineSize - 1 - (key.length + 1)) ++ 10 :: rest := by
    have hle : lineSize - 1 ≤ (key ++ 61 :: value).length := by
      simp
      omega
    have hkeep : (key ++ [61]).drop (lineSize - 1) = [] := by
      apply List.drop_eq_nil_of_le
      simp
      omega
    rw [List.length_take, Nat.min_eq_left hle, List.drop_append_of_le_length hle, List.append_cons key,
      List.drop_append, hkeep]
    simp
  have hrest : ∀ line config, readLines inetPton getsockname isServer (fuel + 1)
      (value.drop (lineSize - 1 - (key.length + 1)) ++ 10 :: rest) (i + 1) line config = none :=
    fun line config => readLines_no_delim _ _ _ rest (fun c hc => hval c (List.mem_of_mem_drop hc)) fuel (i + 1) line config
  rw [readLines, fgets, if_neg (by simp), hline, hdrop]
  simp only [hrest]
  simp

end Line

section ServerPort

variable {getsockname : Option UInt16} {isServer : Bool}

/-- The source port is all that `set_source_port` sets. -/
theorem setSourcePort_cases {config config' : Config α} {srcPort : List UInt8}
    (h : setSourcePort getsockname isServer config srcPort = some config') :
    ∃ port, config' = { config with srcPort := port } := by
  unfold setSourcePort at h
  obtain ⟨port, -, h⟩ := Option.bind_eq_some_iff.1 h
  split at h
  · split at h
    all_goals
      cases h
      exact ⟨_, rfl⟩
  · cases h
    exact ⟨_, rfl⟩

/-- A later line keeps the server port. -/
theorem setField_serverPort {i cfline : Nat} (hi : i ≠ 2) {line line' : Nat → UInt8} {config config' : Config α}
    (h : setField inetPton getsockname isServer i line cfline config = some (line', config')) :
    config'.serverPort = config.serverPort := by
  match i, hi, h with
  | 0, _, h =>
    rw [setField] at h
    split at h
    · cases h
      rfl
    · cases h
  | 1, _, h =>
    obtain ⟨⟨line₁, hosts, j⟩, -, h⟩ := Option.bind_eq_some_iff.1 h
    cases h
    rfl
  | 3, _, h =>
    obtain ⟨s, -, h⟩ := Option.bind_eq_some_iff.1 h
    obtain ⟨config₁, hport, h⟩ := Option.bind_eq_some_iff.1 h
    cases h
    obtain ⟨port, rfl⟩ := setSourcePort_cases hport
    rfl
  | 4, _, h =>
    obtain ⟨s, -, h⟩ := Option.bind_eq_some_iff.1 h
    split at h
    all_goals
      cases h
      rfl
  | 5, _, h =>
    obtain ⟨s, -, h⟩ := Option.bind_eq_some_iff.1 h
    obtain ⟨debug, -, h⟩ := Option.bind_eq_some_iff.1 h
    cases h
    rfl
  | i + 6, _, h =>
    cases h
    rfl

theorem readLines_serverPort : ∀ (fuel : Nat) {file : List UInt8} {i : Nat} {line : Nat → UInt8}
    {config config' : Config α},
    3 ≤ i → readLines inetPton getsockname isServer fuel file i line config = some config' →
    config'.serverPort = config.serverPort
  | 0,        _,    _, _,    _,      _,       _,  h => by cases h
  | fuel + 1, file, i, line, config, config', hi, h => by
    rw [readLines] at h
    split at h
    · cases h
      rfl
    · obtain ⟨s, -, h⟩ := Option.bind_eq_some_iff.1 h
      obtain ⟨d, -, h⟩ := Option.bind_eq_some_iff.1 h
      obtain ⟨v, -, h⟩ := Option.bind_eq_some_iff.1 h
      obtain ⟨⟨line₁, config₁⟩, hset, h⟩ := Option.bind_eq_some_iff.1 h
      rw [readLines_serverPort fuel (by omega) h, setField_serverPort (by omega) hset]

end ServerPort

/-! ## The hosts -/

section Hosts

/-- What `inet_pton` takes has none of the bytes that mean something to the parser. -/
theorem Standard.plain (hstd : Standard inetPton) {t : List UInt8} {a : α} (ht : inetPton t = some a) :
    ∀ c ∈ t, c ≠ 0 ∧ c ≠ 10 ∧ c ≠ 44 ∧ c ≠ 61 := by
  intro c hc
  have h := hstd.chars t a ht c hc
  simp only [isdigit, Bool.and_eq_true, decide_eq_true_eq, UInt8.le_iff_toNat_le, ← UInt8.toNat_inj] at h
  simp only [ne_eq, ← UInt8.toNat_inj]
  simp only [UInt8.reduceToNat] at *
  omega

theorem mem_intercalate {c : UInt8} : ∀ {ts : List (List UInt8)}, c ∈ List.intercalate [44] ts → c = 44 ∨ ∃ t ∈ ts, c ∈ t
  | [],           h => by simp at h
  | [t],          h => by
    rw [List.intercalate_singleton] at h
    exact .inr ⟨t, List.mem_cons_self, h⟩
  | t :: u :: ts, h => by
    rw [List.intercalate_cons_cons, List.append_assoc, List.mem_append, List.mem_append, List.mem_singleton] at h
    rcases h with h | h | h
    · exact .inr ⟨t, List.mem_cons_self, h⟩
    · exact .inl h
    · rcases mem_intercalate h with h | ⟨v, hv, h⟩
      · exact .inl h
      · exact .inr ⟨v, List.mem_cons_of_mem _ hv, h⟩

theorem Settings.hostsText_plain (w : Settings inetPton) (hstd : Standard inetPton) :
    ∀ c ∈ w.hostsText, c ≠ 0 ∧ c ≠ 10 ∧ c ≠ 61 := by
  intro c hc
  rcases mem_intercalate hc with rfl | ⟨t, ht, hct⟩
  · decide
  · obtain ⟨a, ha⟩ := w.hosts_valid t ht
    obtain ⟨h0, h10, -, h61⟩ := hstd.plain ha c hct
    exact ⟨h0, h10, h61⟩

/-- One round of the loop: the token's address is stored. -/
theorem hostLoop_token {fuel save token save' j : Nat} {line line' : Nat → UInt8} {t : List UInt8} {a : α}
    (htok : strtok lineSize 44 line save = some (some (token, line', save'))) (ht : IsStr lineSize line' token t)
    (ha : inetPton t = some a) (hj : j < hostsSize) (hosts : Nat → α) :
    hostLoop inetPton (fuel + 1) line save hosts j = hostLoop inetPton fuel line' save' (update hosts j a) (j + 1) := by
  rw [hostLoop, htok]
  simp only [Option.bind_eq_bind, Option.bind_some, ht.str_eq, ha, if_pos hj]

/-- The first address is stored, and then the others. -/
theorem stored_cons {hosts hosts' : Nat → α} {t : List UInt8} {ts : List (List UInt8)} {a : α} {j : Nat}
    (ha : inetPton t = some a) (hkeep : ∀ k < j + 1, hosts' k = update hosts j a k)
    (hset : ∀ k u, ts[k]? = some u → inetPton u = some (hosts' (j + 1 + k))) :
    (∀ k < j, hosts' k = hosts k) ∧ ∀ k u, (t :: ts)[k]? = some u → inetPton u = some (hosts' (j + k)) := by
  constructor
  · intro k hk
    rw [hkeep k (by omega), update_of_ne (by omega)]
  · intro k u hu
    cases k with
    | zero   =>
      cases hu
      rw [Nat.add_zero, hkeep j (Nat.lt_succ_self j), update_self]
      exact ha
    | succ k =>
      have := hset k u hu
      rwa [Nat.add_assoc, Nat.add_comm 1 k] at this

/-- **The addresses are stored in their order.**  By induction on the texts: a token that is not the last is cut off in
the buffer, behind which the rest of the line is as it was. -/
theorem hostLoop_texts (hstd : Standard inetPton) : ∀ {ts : List (List UInt8)} {fuel save j : Nat} {line : Nat → UInt8}
    (hosts : Nat → α), ts ≠ [] → (∀ t ∈ ts, ∃ a, inetPton t = some a) →
    IsStr lineSize line save (List.intercalate [44] ts) → ts.length < fuel → j + ts.length ≤ hostsSize →
    ∃ line' hosts', hostLoop inetPton fuel line save hosts j = some (line', hosts', j + ts.length) ∧
      (∀ k < j, hosts' k = hosts k) ∧ ∀ k t, ts[k]? = some t → inetPton t = some (hosts' (j + k))
  | [],           _,        _,    _, _,    _,     hne, _,      _,    _,     _    => absurd rfl hne
  | [t],          fuel + 2, save, j, line, hosts, _,   hvalid, hstr, _,     hfit => by
    obtain ⟨a, ha⟩ := hvalid t List.mem_cons_self
    rw [List.intercalate_singleton] at hstr
    have hplain : 44 ∉ t := fun h => (hstd.plain ha 44 h).2.2.1 rfl
    have hend : IsStr lineSize line (save + t.length) [] := IsStr.drop (by rwa [List.append_nil])
    refine ⟨line, update hosts j a, ?_, stored_cons ha (fun _ _ => rfl) (fun k u hu => by simp at hu)⟩
    rw [hostLoop_token (strtok_last hstr (hstd.length t a ha).1 hplain) hstr ha (by simp at hfit; omega), hostLoop,
      strtok_end hend]
    rfl
  | t :: u :: ts, fuel + 1, save, j, line, hosts, _,   hvalid, hstr, hfuel, hfit => by
    obtain ⟨a, ha⟩ := hvalid t List.mem_cons_self
    rw [List.intercalate_cons_cons, List.append_assoc, List.singleton_append] at hstr
    have hplain : 44 ∉ t := fun h => (hstd.plain ha 44 h).2.2.1 rfl
    have hcut : IsStr lineSize (update line (save + t.length) 0) save t := hstr.cut
    have hrest : IsStr lineSize (update line (save + t.length) 0) (save + t.length + 1)
        (List.intercalate [44] (u :: ts)) := by
      rw [List.append_cons] at hstr
      have hdrop := hstr.drop
      rw [List.length_append, List.length_singleton, ← Nat.add_assoc] at hdrop
      exact hdrop.update_lt (Nat.lt_succ_self _) 0
    obtain ⟨line', hosts', hloop, hkeep, hset⟩ := hostLoop_texts hstd (j := j + 1) (update hosts j a)
      (List.cons_ne_nil u ts) (fun v hv => hvalid v (List.mem_cons_of_mem t hv)) hrest
      (Nat.lt_of_succ_lt_succ hfuel) (by simp at hfit ⊢; omega)
    refine ⟨line', hosts', ?_, stored_cons ha hkeep hset⟩
    rw [hostLoop_token (strtok_next hstr (hstd.length t a ha).1 hplain) hcut ha (by simp at hfit; omega), hloop]
    simp only [List.length_cons, Option.some.injEq, Prod.mk.injEq, true_and]
    omega

end Hosts

/-! ## Line by line -/

section Fields

variable {getsockname : Option UInt16} {isServer : Bool} {w : Settings inetPton}

/-- A line of the file: its key ends at the first `=`, its value at the end of the line. -/
structure Plain (f : List UInt8 × List UInt8) : Prop where
  key : ∀ c ∈ f.1, c ≠ 0 ∧ c ≠ 10 ∧ c ≠ 61
  value : ∀ c ∈ f.2, c ≠ 0 ∧ c ≠ 10

theorem linesOf_cons (f : List UInt8 × List UInt8) (fs : List (List UInt8 × List UInt8)) (rest : List UInt8) :
    linesOf (f :: fs) ++ rest = f.1 ++ 61 :: f.2 ++ 10 :: (linesOf fs ++ rest) := by
  simp [linesOf]

/-- **Lines that fit keep what every one of them keeps.** -/
theorem readLines_run (getsockname : Option UInt16) (isServer : Bool) {P : Nat → Config α → Prop} (rest : List UInt8)
    (fuel : Nat) : ∀ (fs : List (List UInt8 × List UInt8)) {i : Nat} {config : Config α} (line : Nat → UInt8), P i config →
    (∀ f k, (f, k) ∈ fs.zipIdx i → Plain f ∧ f.1.length + f.2.length + 2 < lineSize ∧
      ∀ line config, IsStr lineSize line (f.1.length + 1) f.2 → P k config →
        ∃ line' config', setField inetPton getsockname isServer k line (f.1.length + 1) config = some (line', config') ∧
          P (k + 1) config') →
    ∃ line' config', P (i + fs.length) config' ∧
      readLines inetPton getsockname isServer (fuel + fs.length) (linesOf fs ++ rest) i line config =
        readLines inetPton getsockname isServer fuel rest (i + fs.length) line' config'
  | [],      _, config, line, hP, _    => ⟨line, config, hP, rfl⟩
  | f :: fs, i, config, line, hP, hall => by
    rw [List.zipIdx_cons] at hall
    obtain ⟨⟨hkey, hval⟩, hlen, hstep⟩ := hall f i List.mem_cons_self
    obtain ⟨line₁, hstr, hread⟩ := readLines_line inetPton getsockname isServer (linesOf fs ++ rest) hkey hval hlen
      (fuel + fs.length) i line config
    obtain ⟨line₂, config₂, hset, hP₂⟩ := hstep line₁ config hstr hP
    obtain ⟨line₃, config₃, hP₃, hrun⟩ := readLines_run getsockname isServer rest fuel fs line₂ hP₂
      (fun g k hg => hall g k (List.mem_cons_of_mem _ hg))
    rw [Nat.add_assoc, Nat.add_comm 1] at hP₃ hrun
    refine ⟨line₃, config₃, hP₃, ?_⟩
    rw [linesOf_cons, List.length_cons, ← Nat.add_assoc, hread, hset, Option.bind_some, hrun]

/-- A property of all bytes of a string, by running through it. -/
theorem forall_of_all {s : List UInt8} {P : UInt8 → Prop} [DecidablePred P] (h : s.all (fun c => decide (P c)) = true) :
    ∀ c ∈ s, P c := by
  simpa using h

theorem decimal_plain (n : Nat) : ∀ c ∈ decimal n, c ≠ 0 ∧ c ≠ 10 := by
  intro c hc
  have h := (decimal_spec n).1 c hc
  constructor <;> rintro rfl <;> exact absurd h (by decide)

theorem decimal_port {n : Nat} (h : n ≤ 65535) : (decimal n).length ≤ 5 := (length_decimal_le_iff (by decide)).2 (by omega)

/-- The lines a configuration is written in. -/
theorem Settings.fields_plain (hstd : Standard inetPton) : ∀ f ∈ w.fields, Plain f := by
  obtain ⟨a, ha⟩ := w.srcAddr_valid
  have hkeys : ∀ f ∈ w.fields, ∀ c ∈ f.1, c ≠ 0 ∧ c ≠ 10 ∧ c ≠ 61 := by
    simp only [Settings.fields, List.forall_mem_cons, List.not_mem_nil, false_implies, implies_true, and_true]
    exact ⟨forall_of_all (by decide), forall_of_all (by decide), forall_of_all (by decide), forall_of_all (by decide),
      forall_of_all (by decide), forall_of_all (by decide)⟩
  have hvalues : ∀ f ∈ w.fields, ∀ c ∈ f.2, c ≠ 0 ∧ c ≠ 10 := by
    simp only [Settings.fields, List.forall_mem_cons, List.not_mem_nil, false_implies, implies_true, and_true]
    refine ⟨w.interface_plain, fun c hc => ?_, decimal_plain w.serverPort, decimal_plain w.srcPort, fun c hc => ?_, ?_⟩
    · exact ⟨(w.hostsText_plain hstd c hc).1, (w.hostsText_plain hstd c hc).2.1⟩
    · exact ⟨(hstd.plain ha c hc).1, (hstd.plain ha c hc).2.1⟩
    · cases w.debug <;> exact forall_of_all (by decide)
  exact fun f hf => ⟨hkeys f hf, hvalues f hf⟩

theorem Settings.fields_cases (w : Settings inetPton) {f : List UInt8 × List UInt8} {k : Nat} (hf : w.fields[k]? = some f) :
    (k = 0 ∧ f = (ascii "INTERFACE", w.interface)) ∨ (k = 1 ∧ f = (ascii "HOSTS", w.hostsText)) ∨
    (k = 2 ∧ f = (ascii "SERVERPORT", decimal w.serverPort)) ∨ (k = 3 ∧ f = (ascii "SRCPORT", decimal w.srcPort)) ∨
    (k = 4 ∧ f = (ascii "SRCADDR", w.srcAddr)) ∨ (k = 5 ∧ f = (ascii "DEBUG", ascii (if w.debug then "1" else "0"))) := by
  have hlt : k < 6 := (List.getElem?_eq_some_iff.1 hf).1
  rcases k with _ | _ | _ | _ | _ | _ | k
  · exact .inl ⟨rfl, (Option.some.inj hf).symm⟩
  · exact .inr (.inl ⟨rfl, (Option.some.inj hf).symm⟩)
  · exact .inr (.inr (.inl ⟨rfl, (Option.some.inj hf).symm⟩))
  · exact .inr (.inr (.inr (.inl ⟨rfl, (Option.some.inj hf).symm⟩)))
  · exact .inr (.inr (.inr (.inr (.inl ⟨rfl, (Option.some.inj hf).symm⟩))))
  · exact .inr (.inr (.inr (.inr (.inr ⟨rfl, (Option.some.inj hf).symm⟩))))
  · omega

/-- Every line but the one with the hosts fits. -/
theorem Settings.fields_fit (hstd : Standard inetPton) {f : List UInt8 × List UInt8} {k : Nat} (hf : w.fields[k]? = some f)
    (hhosts : k = 1 → w.hostsText.length ≤ 1016) : f.1.length + f.2.length + 2 < lineSize := by
  have hkeys : (ascii "INTERFACE").length = 9 ∧ (ascii "HOSTS").length = 5 ∧ (ascii "SERVERPORT").length = 10 ∧
      (ascii "SRCPORT").length = 7 ∧ (ascii "SRCADDR").length = 7 ∧ (ascii "DEBUG").length = 5 := by decide
  obtain ⟨a, ha⟩ := w.srcAddr_valid
  have haddr := (hstd.length w.srcAddr a ha).2
  have hserver := decimal_port w.serverPort_range.2
  have hsrc := decimal_port w.srcPort_range
  have hdebug : (ascii (if w.debug then "1" else "0")).length = 1 := by cases w.debug <;> rfl
  have hinterface := w.interface_short
  simp only [lineSize]
  rcases w.fields_cases hf with ⟨-, rfl⟩ | ⟨hk, rfl⟩ | ⟨-, rfl⟩ | ⟨-, rfl⟩ | ⟨-, rfl⟩ | ⟨-, rfl⟩
  · simp only
    omega
  · have := hhosts hk
    simp only
    omega
  all_goals
    simp only
    omega

/-- What the first `i` lines have set. -/
structure Stage (w : Settings inetPton) (i : Nat) (config : Config α) : Prop where
  interface : 0 < i → str interfaceSize config.interface 0 = some w.interface
  hosts : 1 < i → config.numHosts = w.hosts.length ∧ ∀ k t, w.hosts[k]? = some t → inetPton t = some (config.hosts k)
  zero : i ≤ 2 → ∀ k < serverPortSize, config.serverPort k = 0
  serverPort : 2 < i → str serverPortSize config.serverPort 0 = some (decimal w.serverPort)
  srcAddr : 4 < i → inetPton w.srcAddr = some config.srcAddr
  debug : 5 < i → config.debug = if w.debug then 1 else 0

variable {line : Nat → UInt8} {p : Nat} {config : Config α}

theorem Stage.setInterface (hstage : Stage w 0 config) (hstr : IsStr lineSize line p w.interface) (hp : p ≤ 1004) :
    ∃ line' config', setField inetPton getsockname isServer 0 line p config = some (line', config') ∧
      Stage w 1 config' := by
  have hcopy := hstr.copy config.interface (n := interfaceSize) (by have := w.interface_short; simp [interfaceSize]; omega)
  refine ⟨_, _, if_pos (by simp only [interfaceSize, lineSize]; omega), ?_⟩
  constructor <;> intro hi
  · exact hcopy.str_eq
  · omega
  · exact hstage.zero (by omega)
  all_goals omega

theorem Stage.setHosts (hstd : Standard inetPton) (hstage : Stage w 1 config) (hstr : IsStr lineSize line p w.hostsText) :
    ∃ line' config', setField inetPton getsockname isServer 1 line p config = some (line', config') ∧
      Stage w 2 config' := by
  have hne : w.hosts ≠ [] := List.ne_nil_of_length_pos w.hosts_count.1
  have hcount := w.hosts_count.2
  obtain ⟨line', hosts, hloop, -, hset⟩ := hostLoop_texts hstd config.hosts hne w.hosts_valid hstr
    (show w.hosts.length < lineSize by rw [lineSize]; omega) (show 0 + w.hosts.length ≤ hostsSize by rw [hostsSize]; omega)
  simp only [Nat.zero_add] at hloop hset
  refine ⟨line', { config with hosts := hosts, numHosts := w.hosts.length }, ?_, ?_⟩
  · rw [setField, hloop]
    rfl
  · constructor <;> intro hi
    · exact hstage.interface (by omega)
    · exact ⟨rfl, hset⟩
    · exact hstage.zero (by omega)
    all_goals omega

theorem Stage.setServerPort (hport : w.serverPort < 10000) (hstage : Stage w 2 config)
    (hstr : IsStr lineSize line p (decimal w.serverPort)) :
    ∃ line' config', setField inetPton getsockname isServer 2 line p config = some (line', config') ∧
      Stage w 3 config' := by
  have hlen : (decimal w.serverPort).length ≤ 4 := (length_decimal_le_iff (by decide)).2 hport
  have hcopy : IsStr serverPortSize (writeBytes config.serverPort 0 (decimal w.serverPort)) 0 (decimal w.serverPort) :=
    isStr_strncpy hstr.plain (by rw [serverPortSize]; omega) (hstage.zero (Nat.le_refl 2) _ (by rw [serverPortSize]; omega))
  refine ⟨line, { config with serverPort := writeBytes config.serverPort 0 (decimal w.serverPort) }, ?_, ?_⟩
  · simp only [setField, hstr.str_eq, Option.bind_eq_bind, Option.bind_some]
    exact if_pos (by rw [serverPortSize]; omega)
  · constructor <;> intro hi
    · exact hstage.interface (by omega)
    · exact hstage.hosts (by omega)
    · omega
    · exact hcopy.str_eq
    all_goals omega

theorem Stage.setSrcPort (hstage : Stage w 3 config) (hstr : IsStr lineSize line p (decimal w.srcPort)) :
    ∃ line' config', setField inetPton getsockname isServer 3 line p config = some (line', config') ∧
      Stage w 4 config' := by
  have hport : ∃ port, sourcePort isServer config (decimal w.srcPort) = some port := by
    have hserver := w.serverPort_range.2
    have hsrc := w.srcPort_range
    rw [sourcePort, hstage.serverPort (by decide), Option.bind_some, atoi_decimal (by omega), atoi_decimal (by omega)]
    split <;> exact ⟨_, rfl⟩
  obtain ⟨config', hset⟩ : ∃ config', setSourcePort getsockname isServer config (decimal w.srcPort) = some config' := by
    obtain ⟨port, hport⟩ := hport
    unfold setSourcePort
    rw [hport, Option.bind_eq_bind, Option.bind_some]
    split
    · split <;> exact ⟨_, rfl⟩
    · exact ⟨_, rfl⟩
  obtain ⟨port, rfl⟩ := setSourcePort_cases hset
  refine ⟨line, { config with srcPort := port },
    by simp only [setField, hstr.str_eq, Option.bind_eq_bind, Option.bind_some, hset], ?_⟩
  constructor <;> intro hi
  · exact hstage.interface (by omega)
  · exact hstage.hosts (by omega)
  · omega
  · exact hstage.serverPort (by omega)
  all_goals omega

theorem Stage.setSrcAddr (hstage : Stage w 4 config) (hstr : IsStr lineSize line p w.srcAddr) :
    ∃ line' config', setField inetPton getsockname isServer 4 line p config = some (line', config') ∧
      Stage w 5 config' := by
  obtain ⟨a, ha⟩ := w.srcAddr_valid
  refine ⟨line, { config with srcAddr := a },
    by simp only [setField, hstr.str_eq, Option.bind_eq_bind, Option.bind_some, ha], ?_⟩
  constructor <;> intro hi
  · exact hstage.interface (by omega)
  · exact hstage.hosts (by omega)
  · omega
  · exact hstage.serverPort (by omega)
  · exact ha
  · omega

theorem Stage.setDebug (hstage : Stage w 5 config) (hstr : IsStr lineSize line p (ascii (if w.debug then "1" else "0"))) :
    ∃ line' config', setField inetPton getsockname isServer 5 line p config = some (line', config') ∧
      Stage w 6 config' := by
  have hatoi : atoi (ascii (if w.debug then "1" else "0")) = some (if w.debug then 1 else 0) := by cases w.debug <;> decide
  refine ⟨line, { config with debug := if w.debug then 1 else 0 },
    by simp only [setField, hstr.str_eq, Option.bind_eq_bind, Option.bind_some, hatoi], ?_⟩
  constructor <;> intro hi
  · exact hstage.interface (by omega)
  · exact hstage.hosts (by omega)
  · omega
  · exact hstage.serverPort (by omega)
  · exact hstage.srcAddr (by omega)
  · rfl

/-- **Every line sets what it is there for.** -/
theorem Stage.step (hstd : Standard inetPton) {f : List UInt8 × List UInt8} {k : Nat} (hf : w.fields[k]? = some f)
    (hport : k = 2 → w.serverPort < 10000) (hstage : Stage w k config) (hstr : IsStr lineSize line (f.1.length + 1) f.2) :
    ∃ line' config', setField inetPton getsockname isServer k line (f.1.length + 1) config = some (line', config') ∧
      Stage w (k + 1) config' := by
  rcases w.fields_cases hf with ⟨rfl, rfl⟩ | ⟨rfl, rfl⟩ | ⟨rfl, rfl⟩ | ⟨rfl, rfl⟩ | ⟨rfl, rfl⟩ | ⟨rfl, rfl⟩
  · exact hstage.setInterface hstr (show (ascii "INTERFACE").length + 1 ≤ 1004 by decide)
  · exact hstage.setHosts hstd hstr
  · exact hstage.setServerPort (hport rfl) hstr
  · exact hstage.setSrcPort hstr
  · exact hstage.setSrcAddr hstr
  · exact hstage.setDebug hstr

end Fields

/-! ## The whole file -/

section File

variable (getsockname : Option UInt16) (isServer : Bool) {w : Settings inetPton} {config : Config α}

/-- The first `n` lines, if they fit. -/
theorem readLines_stage (hstd : Standard inetPton) (hzero : ∀ k < serverPortSize, config.serverPort k = 0) {n : Nat}
    (hn : n ≤ 6) (hhosts : 1 < n → w.hostsText.length ≤ 1016) (hport : 2 < n → w.serverPort < 10000) (fuel : Nat)
    (line : Nat → UInt8) :
    ∃ line' config', Stage w n config' ∧ readLines inetPton getsockname isServer (fuel + n) w.text 0 line config =
      readLines inetPton getsockname isServer fuel (linesOf (w.fields.drop n)) n line' config' := by
  have hstart : Stage w 0 config := by
    constructor <;> intro hi
    · omega
    · omega
    · exact hzero
    all_goals omega
  have hlen : (w.fields.take n).length = n := List.length_take_of_le hn
  have htext : linesOf (w.fields.take n) ++ linesOf (w.fields.drop n) = w.text := by
    rw [linesOf, linesOf, ← List.flatMap_append, List.take_append_drop]
    rfl
  obtain ⟨line', config', hstage, hrun⟩ := readLines_run getsockname isServer (linesOf (w.fields.drop n)) fuel
    (w.fields.take n) line hstart (fun f k hk => by
      obtain ⟨-, hk⟩ := List.mem_zipIdx_iff_le_and_getElem?_sub.1 hk
      rw [Nat.sub_zero, List.getElem?_take] at hk
      split at hk
      · refine ⟨w.fields_plain hstd f (List.mem_of_getElem? hk), w.fields_fit hstd hk (fun h => hhosts (by omega)), ?_⟩
        exact fun line config hstr hstage => hstage.step hstd hk (fun h => hport (by omega)) hstr
      · cases hk)
  rw [hlen, Nat.zero_add, htext] at hrun
  rw [hlen, Nat.zero_add] at hstage
  exact ⟨line', config', hstage, hrun⟩

/-- The fuel is enough: there are at least as many bytes as lines. -/
theorem Settings.text_length (w : Settings inetPton) : ∃ n, w.text.length + 1 = n + 7 := by
  refine ⟨w.text.length - 6, ?_⟩
  have : 6 ≤ w.text.length := by
    simp only [Settings.text, linesOf, Settings.fields, List.flatMap_cons, List.length_append, List.length_cons]
    omega
  omega

theorem setBbConfig_recovers (hstd : Standard inetPton) (hzero : ∀ k < serverPortSize, config.serverPort k = 0)
    (hport : w.serverPort < 10000) (hhosts : w.hostsText.length ≤ 1016) (line : Nat → UInt8) :
    Recovers w (setBbConfig inetPton getsockname isServer w.text line config) := by
  obtain ⟨n, hn⟩ := w.text_length
  obtain ⟨line', config', hstage, hrun⟩ := readLines_stage getsockname isServer hstd hzero
    (Nat.le_refl 6) (fun _ => hhosts) (fun _ => hport) (n + 1) line
  have hread : readLines inetPton getsockname isServer (w.text.length + 1) w.text 0 line config = some config' := by
    rw [hn, show n + 7 = n + 1 + 6 from rfl, hrun]
    rfl
  have hcount := hstage.hosts (by decide)
  have hle : config'.numHosts ≤ hostsSize := by
    rw [hcount.1, hostsSize]
    exact w.hosts_count.2
  refine ⟨config', ?_, hstage.interface (by decide), hstage.serverPort (by decide), hcount.1, hcount.2,
    hstage.srcAddr (by decide), hstage.debug (by decide)⟩
  rw [setBbConfig, hread]
  simp only [Option.bind_eq_bind, Option.bind_some, hstage.interface (by decide), hstage.serverPort (by decide), if_pos hle]

/-- The rest of a line of hosts that does not fit is taken for a line of its own. -/
theorem setBbConfig_long (hstd : Standard inetPton) (hzero : ∀ k < serverPortSize, config.serverPort k = 0)
    (hhosts : 1016 < w.hostsText.length) (line : Nat → UInt8) :
    setBbConfig inetPton getsockname isServer w.text line config = none := by
  obtain ⟨n, hn⟩ := w.text_length
  obtain ⟨line', config', -, hrun⟩ := readLines_stage getsockname isServer hstd hzero
    (show 1 ≤ 6 by decide) (fun h => absurd h (by decide)) (fun h => absurd h (by decide)) (n + 6) line
  have hkey : (ascii "HOSTS").length = 5 := by decide
  have hsplit : linesOf (w.fields.drop 1) = ascii "HOSTS" ++ 61 :: w.hostsText ++ 10 :: linesOf (w.fields.drop 2) := by
    have := linesOf_cons (ascii "HOSTS", w.hostsText) (w.fields.drop 2) []
    rwa [List.append_nil, List.append_nil] at this
  have hread : readLines inetPton getsockname isServer (w.text.length + 1) w.text 0 line config = none := by
    rw [hn, show n + 7 = n + 6 + 1 from rfl, hrun, hsplit]
    exact readLines_long _ _ _ _ (by decide) (w.hostsText_plain hstd) (by rw [hkey]; decide)
      (by rw [hkey, lineSize]; omega) (n + 4) 1 line' config'
  rw [setBbConfig, hread]
  rfl

/-- A port of five digits fills `server_port`, and the report finds no terminator. -/
theorem setBbConfig_port (hstd : Standard inetPton) (hzero : ∀ k < serverPortSize, config.serverPort k = 0)
    (hhosts : w.hostsText.length ≤ 1016) (hport : 10000 ≤ w.serverPort) (line : Nat → UInt8) :
    setBbConfig inetPton getsockname isServer w.text line config = none := by
  obtain ⟨n, hn⟩ := w.text_length
  obtain ⟨line', config', -, hrun⟩ := readLines_stage getsockname isServer hstd hzero (show 2 ≤ 6 by decide)
    (fun _ => hhosts) (fun h => absurd h (by decide)) (n + 5) line
  have hsplit : linesOf (w.fields.drop 2) =
      ascii "SERVERPORT" ++ 61 :: decimal w.serverPort ++ 10 :: linesOf (w.fields.drop 3) := by
    have := linesOf_cons (ascii "SERVERPORT", decimal w.serverPort) (w.fields.drop 3) []
    rwa [List.append_nil, List.append_nil] at this
  have hfull : (decimal w.serverPort).length = serverPortSize := by
    have hle := decimal_port w.serverPort_range.2
    have hgt : ¬(decimal w.serverPort).length ≤ 4 := fun h => by
      have := (length_decimal_le_iff (by decide)).1 h
      omega
    rw [serverPortSize]
    omega
  have hfit := w.fields_fit hstd (k := 2) (f := (ascii "SERVERPORT", decimal w.serverPort)) rfl
    (fun h => absurd h (by decide))
  have hplain := w.fields_plain hstd (ascii "SERVERPORT", decimal w.serverPort) (List.mem_of_getElem? (i := 2) rfl)
  obtain ⟨line'', hstr, hread⟩ := readLines_line inetPton getsockname isServer (linesOf (w.fields.drop 3)) hplain.key
    hplain.value hfit (n + 4) 2 line' config'
  have hset : setField inetPton getsockname isServer 2 line'' ((ascii "SERVERPORT").length + 1) config' =
      some (line'', { config' with serverPort := writeBytes config'.serverPort 0 (decimal w.serverPort) }) := by
    simp only [setField, hstr.str_eq, Option.bind_eq_bind, Option.bind_some]
    exact if_pos (Nat.le_of_eq hfull)
  rw [hset, Option.bind_some] at hread
  rw [setBbConfig, hn, show n + 7 = n + 5 + 2 from rfl, hrun, hsplit, hread, Option.bind_eq_bind, Option.bind_eq_none_iff]
  -- the later lines leave the port alone
  intro config'' hlast
  have hnone : str serverPortSize config''.serverPort 0 = none := by
    rw [readLines_serverPort _ (Nat.le_refl 3) hlast, ← hfull]
    exact str_none_of_full _ hstr.plain
  rw [hnone]
  simp

/-- **A configuration comes back as it was written** exactly if its server port has at most four digits and the line
with its hosts fits into the buffer; otherwise an array is left. -/
theorem setBbConfig_iff (hstd : Standard inetPton) (w : Settings inetPton) (line : Nat → UInt8) (config : Config α)
    (hzero : ∀ k < serverPortSize, config.serverPort k = 0) :
    (Recovers w (setBbConfig inetPton getsockname isServer w.text line config) ↔
      w.serverPort < 10000 ∧ w.hostsText.length ≤ 1016) ∧
    (setBbConfig inetPton getsockname isServer w.text line config = none ↔
      ¬(w.serverPort < 10000 ∧ w.hostsText.length ≤ 1016)) := by
  have hnot : ¬Recovers w none := by
    rintro ⟨_, h, -⟩
    cases h
  by_cases h : w.serverPort < 10000 ∧ w.hostsText.length ≤ 1016
  · have hrec := setBbConfig_recovers getsockname isServer hstd hzero h.1 h.2 line
    refine ⟨iff_of_true hrec h, iff_of_false ?_ (not_not_intro h)⟩
    intro hnone
    rw [hnone] at hrec
    exact hnot hrec
  · have hnone : setBbConfig inetPton getsockname isServer w.text line config = none := by
      by_cases hhosts : w.hostsText.length ≤ 1016
      · exact setBbConfig_port getsockname isServer hstd hzero hhosts (by omega) line
      · exact setBbConfig_long getsockname isServer hstd hzero (by omega) line
    rw [hnone]
    exact ⟨iff_of_false hnot h, iff_of_true rfl h⟩

/-- An `inet_pton` that knows two addresses. -/
def twoAddresses (t : List UInt8) : Option Nat :=
  if t = ascii "0101::" then some 0x101 else if t = ascii "0102::" then some 0x102 else none

theorem standard_twoAddresses : Standard twoAddresses := by
  have hcases : ∀ t a, twoAddresses t = some a → t = ascii "0101::" ∨ t = ascii "0102::" := by
    intro t a h
    unfold twoAddresses at h
    split at h
    · exact .inl ‹_›
    · split at h
      · exact .inr ‹_›
      · cases h
  constructor
  · intro t a h
    rcases hcases t a h with rfl | rfl
    · exact forall_of_all (by decide)
    · exact forall_of_all (by decide)
  · intro t a h
    rcases hcases t a h with rfl | rfl
    · decide
    · decide

/-- The configuration the emulation writes for its first host, with two hosts, and with a server port of its own. -/
def emulated (port : Nat) (hport : 1 ≤ port ∧ port ≤ 65535) : Settings twoAddresses where
  interface := ascii "h1-eth0"
  hosts := [ascii "0102::", ascii "0101::"]
  serverPort := port
  srcPort := 0
  srcAddr := ascii "0101::"
  debug := true
  interface_short := by decide
  interface_plain := forall_of_all (by decide)
  hosts_count := by decide
  hosts_valid := List.forall_mem_cons.2 ⟨⟨0x102, by decide⟩, List.forall_mem_cons.2 ⟨⟨0x101, by decide⟩, by simp⟩⟩
  serverPort_range := hport
  srcPort_range := by decide
  srcAddr_valid := ⟨0x101, by decide⟩

/-- The configuration before anything is read. -/
def unset : Config Nat := ⟨fun _ => 0, fun _ => 0, 0, 0, 0, 0, fun _ => 0⟩

theorem setBbConfig_iff_emulated :
    Recovers (emulated 5000 (by decide))
      (setBbConfig twoAddresses none true (emulated 5000 (by decide)).text (fun _ => 0) unset) :=
  (setBbConfig_iff none true standard_twoAddresses (emulated 5000 (by decide)) (fun _ => 0) unset (fun _ _ => rfl)).1.2
    (by decide)

/-- **Port 50000 is not recovered**: the report reads on behind `server_port`. -/
theorem setBbConfig_port_five :
    setBbConfig twoAddresses none false (emulated 50000 (by decide)).text (fun _ => 0) unset = none ∧
    ¬Recovers (emulated 50000 (by decide))
      (setBbConfig twoAddresses none false (emulated 50000 (by decide)).text (fun _ => 0) unset) := by
  have hnone : setBbConfig twoAddresses none false (emulated 50000 (by decide)).text (fun _ => 0) unset = none :=
    Option.isNone_iff_eq_none.1 (by decide +kernel)
  refine ⟨hnone, ?_⟩
  rintro ⟨config, h, -⟩
  rw [hnone] at h
  cases h

end File

end ConfigFile
end Bb
