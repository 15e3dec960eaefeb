/-
# The hosts table

`common/resolver.c`: the hosts file is read twice.  A first pass counts the names, which gives the
size of a table with double hashing, and a second pass puts them there; a lookup probes the table.

A pointer into the buffer is the text from there on, and `none` stands for a read outside of the
buffer or of the table, for a failed assertion, and for a probe that does not end.
-/
import MtprotoProxy.CScan
import MtprotoProxy.OpenAddressing

namespace MtprotoProxy

open CLib

/-! ## The table -/

/-- `pr`. -/
def pr : List ℕ :=
  [29, 41, 59, 89, 131, 197, 293, 439, 659, 991, 1481, 2221, 3329, 4993, 7487, 11239, 16843, 25253,
   37879, 56821, 85223, 127837, 191773, 287629, 431441, 647161, 970747, 1456121, 2184179, 3276253,
   4914373, 7371571, 11057357, 16586039, 24879017, 37318507]

def maxHostsSize : ℕ := 2 ^ 24

/-- `struct host`; `len` is the length of the name. -/
structure Host where
  ip : ℕ
  name : Bytes

structure ResolverConf where
  hsize : ℤ
  htable : ℕ → Option Host

/-- A `char` is signed. -/
def schar (c : UInt8) : ℤ := c.toInt8.toInt

/-- `h1` and `h2` of a name. -/
def nameHash (hsize : ℤ) (name : Bytes) : ℤ × ℤ :=
  name.foldl (fun (h1, h2) c =>
    ((wrap32 (h1 * 17 + schar c)).tmod hsize, (wrap32 (h2 * 239 + schar c)).tmod (hsize - 1)))
    (0, 0)

namespace ResolverConf

/-- `htable[i]`, for an index in the table. -/
def slot (R : ResolverConf) (i : ℤ) : Option (Option Host) :=
  if 0 ≤ i ∧ i < R.hsize then some (R.htable i.toNat) else none

/-- The loop of `getHash`.  The number bounds the rounds: after `hsize` rounds without an end the
same slots come again. -/
def probe (R : ResolverConf) (name : Bytes) (h2 : ℤ) : ℕ → ℤ → Option (ℤ × Option Host)
  | 0, _ => none
  | n + 1, h1 => do
    match ← R.slot h1 with
    | none => return (h1, none)
    | some H =>
      if name = H.name then return (h1, some H)
      else
        let h1 := wrap32 (h1 + h2)
        R.probe name h2 n (if R.hsize ≤ h1 then h1 - R.hsize else h1)

/-- `getHash`: the table after it, and the host. -/
def getHash (R : ResolverConf) (name : Bytes) (ip : ℕ) :
    Option (ResolverConf × Option Host) := do
  guard (name.length < 128)
  let (h1, h2) := nameHash R.hsize name
  let (h1, found) ← R.probe name (h2 + 1) R.hsize.toNat h1
  match found with
  | some H => return (R, some H)
  | none =>
    if ip = 0 then return (R, none)
    else
      let tmp : Host := ⟨ip, name⟩
      return ({ R with htable := Function.update R.htable h1.toNat (some tmp) }, some tmp)

end ResolverConf

/-! ## The file -/

/-- A space or a tab. -/
def isBlank (c : UInt8) : Bool := c == 32 || c == 9

def skipspc : Bytes → Option Bytes
  | [] => none
  | c :: ptr => if isBlank c then skipspc ptr else some (c :: ptr)

def skiptoeoln : Bytes → Option Bytes
  | [] => none
  | c :: ptr => if c = 0 then some (c :: ptr) else if c = 10 then some ptr else skiptoeoln ptr

/-- The loop of `getword`: the word at `tmp`, and what follows it. -/
def wordEnd : Bytes → Option (Bytes × Bytes)
  | [] => none
  | c :: tmp =>
    if c = 0 ∨ isBlank c ∨ c = 10 then some ([], c :: tmp)
    else do
      let (word, tmp) ← wordEnd tmp
      return (c :: word, tmp)

/-- `getword`: the word, which is empty when there is none, and `*ptr`. -/
def getword (ptr : Bytes) : Option (Bytes × Bytes) := do
  let start ← skipspc ptr
  wordEnd start

/-- `readbyte`: the byte and `*ptr`, or no byte. -/
def readbyte (ptr : Bytes) : Option (ℕ × Bytes) :=
  let (val, tmp) := strtoul ptr
  let val := val % 2 ^ 32
  if tmp = ptr ∨ 255 < val then none else some (val, tmp)

/-- The loop that reads an address, with `n` bytes to come: whether `i` comes to 4, the address and
`ptr`. -/
def readAddress : ℕ → ℕ → Bytes → Option (Bool × ℕ × Bytes)
  | 0, ip, ptr => some (true, ip, ptr)
  | n + 1, ip, ptr =>
    match readbyte ptr with
    | none => some (false, ip, ptr)
    | some (res, ptr) =>
      let ip := (ip <<< 8) % 2 ^ 32 ||| res
      if n = 0 then some (true, ip, ptr)
      else
        match ptr with
        | [] => none
        | c :: ptr => if c ≠ 46 then some (false, ip, ptr) else readAddress n ip ptr

/-- What is done with a word in the two modes. -/
def visitWord (mode : Bool) (R : ResolverConf) (word : Bytes) (ip : ℕ) : Option ResolverConf :=
  if mode then do
    let (R, _) ← R.getHash word ip
    return R
  else some R

/-- The loop over the words of a line.  The number bounds the rounds. -/
def wordLoop (mode : Bool) (ip : ℕ) :
    ℕ → ResolverConf → Bytes → ℕ → Option (ResolverConf × Bytes × ℕ)
  | 0, _, _, _ => none
  | n + 1, R, ptr, ans => do
    let (word, ptr) ← getword ptr
    if word = [] then return (R, ptr, ans)
    else if word.length < 128 then do
      let R ← visitWord mode R word ip
      wordLoop mode ip n R ptr (ans + 1)
    else wordLoop mode ip n R ptr ans

/-- The loop of `parse_hosts`, up to `continue`. -/
def parseLine (mode : Bool) (R : ResolverConf) (ptr : Bytes) (ans : ℕ) :
    Option (ResolverConf × Bytes × ℕ) := do
  let ptr ← skipspc ptr
  let (read, ip, ptr) ← readAddress 4 0 ptr
  if read = false ∨ ptr.head?.any isBlank = false ∨ ip = 0 then return (R, ptr, ans)
  else wordLoop mode ip (ptr.length + 1) R ptr ans

/-- The loop of `parse_hosts`.  The number bounds the rounds. -/
def parseHostsLoop (mode : Bool) : ℕ → ResolverConf → Bytes → ℕ → Option (ResolverConf × ℕ)
  | 0, _, _, _ => none
  | n + 1, R, ptr, ans =>
    match ptr with
    | [] => none
    | c :: _ =>
      if c = 0 then some (R, ans)
      else do
        let (R, ptr, ans) ← parseLine mode R ptr ans
        let ptr ← skiptoeoln ptr
        parseHostsLoop mode n R ptr ans

/-- `parse_hosts`. -/
def parseHosts (R : ResolverConf) (data : Bytes) (mode : Bool) : Option (ResolverConf × ℕ) :=
  parseHostsLoop mode (data.length + 1) R data 0

/-- `kdb_load_hosts_internal` for the content of the file; without a table the file is too large. -/
def kdbLoadHostsInternal (data : Bytes) : Option (Option ResolverConf) := do
  if maxHostsSize ≤ data.length then return none
  else do
    let buffer := data ++ [0]
    let (_, ans) ← parseHosts ⟨0, fun _ => none⟩ buffer false
    match pr.find? (fun p => ans * 2 < p) with
    | none => return none
    | some hsize => do
      let (R, res) ← parseHosts ⟨hsize, fun _ => none⟩ buffer true
      guard (res = ans)
      return some R

/-! ## What a hosts file says -/

/-- `n` decimal bytes with dots between them: the address and the rest of the line. -/
def dottedBytes : ℕ → ℕ → Bytes → Option (ℕ × Bytes)
  | 0, ip, s => some (ip, s)
  | n + 1, ip, s =>
    let ds := s.takeWhile isDigit
    if ds = [] ∨ 255 < decValue ds then none
    else
      let ip := ip * 256 + decValue ds
      if n = 0 then some (ip, s.dropWhile isDigit)
      else
        match s.dropWhile isDigit with
        | [] => none
        | c :: t => if c = 46 then dottedBytes n ip t else none

/-- **A line of hosts**: an address, a blank, and words. -/
def hostsLine (l : Bytes) : Option (ℕ × List Bytes) := do
  let (ip, t) ← dottedBytes 4 0 l
  guard (t.head?.any isBlank)
  return (ip, strtok isBlank t)

/-- **The address of the first line that lists the name.** -/
def firstAddress (data name : Bytes) : Option ℕ :=
  (data.splitOn 10).findSome? (fun l => do
    let (ip, names) ← hostsLine l
    guard (name ∈ names)
    return ip)

/-- What a lookup gives after the file is loaded: the address, or nothing. -/
def hostsLookup (data name : Bytes) : Option (Option ℕ) := do
  let loaded ← kdbLoadHostsInternal data
  let R ← loaded
  let (_, found) ← R.getHash name 0
  return found.map Host.ip

/-- **A lookup finds what the file says**: the file is loaded, every slot that is probed is in the
table, and the probes end. -/
def LookupFinds (data name : Bytes) : Prop := hostsLookup data name = some (firstAddress data name)

instance (data name : Bytes) : Decidable (LookupFinds data name) :=
  inferInstanceAs (Decidable (_ = _))

/-! ## Which files are read as they are written -/

/-- Where up to `n` bytes of an address follow, `strtoul` does not find a byte behind spaces, line
ends or a sign, nor one in a number above 255, and no number before the last byte ends the line. -/
def plainBytes : ℕ → Bytes → Bool
  | 0, _ => true
  | n + 1, s =>
    let ds := s.takeWhile isDigit
    if ds = [] ∨ 255 < decValue ds then (readbyte s).isNone
    else
      n = 0 ||
        match s.dropWhile isDigit with
        | [] => false
        | c :: t => if c = 46 then plainBytes n t else c != 10 && c != 0

/-- The text `s` starts with a line of blanks and line ends, or with a plain line. -/
def PlainLine (s : Bytes) : Prop :=
  (∀ c ∈ s.takeWhile (· != 10), isSpace c) ∨ plainBytes 4 (s.dropWhile isBlank ++ [0])

instance (s : Bytes) : Decidable (PlainLine s) := inferInstanceAs (Decidable (_ ∨ _))

/-- No blanks stand before a line of hosts, and its address is not zero. -/
def countedLine (l : Bytes) : Bool :=
  match hostsLine (l.dropWhile isBlank) with
  | none => true
  | some (ip, _) => l.dropWhile isBlank == l && ip != 0

/-- The texts that start at the lines of a text. -/
def lineStarts : Bytes → List Bytes
  | [] => [[]]
  | c :: s => (c :: s) :: if c = 10 then lineStarts s else (lineStarts s).tail

/-- The second hash of a name never runs over, from the hash `h` on. -/
def HashFits (m : ℕ) : ℕ → Bytes → Prop
  | _, [] => True
  | h, c :: s => h * 239 + c.toNat < 2 ^ 31 ∧ HashFits m ((h * 239 + c.toNat) % m) s

/-- A name of 7-bit characters whose hash does not run over. -/
def PlainName (hsize : ℕ) (name : Bytes) : Prop :=
  (∀ c ∈ name, c < 128) ∧ HashFits (hsize - 1) 0 name

/-- The hosts of a line: the words of less than 128 bytes. -/
def lineHosts (l : Bytes) : List Host :=
  match hostsLine l with
  | none => []
  | some (ip, names) => (names.filter (fun w => w.length < 128)).map (fun w => ⟨ip, w⟩)

/-- The hosts of a file, in their order. -/
def fileHosts (data : Bytes) : List Host := (data.splitOn 10).flatMap lineHosts

/-- **A plain file**, for the lookup of a name. -/
structure PlainFile (data name : Bytes) : Prop where
  nonzero : 0 ∉ data
  lines : ∀ s ∈ lineStarts data, PlainLine s
  counted : ∀ l ∈ data.splitOn 10, countedLine l
  names : ∀ hsize, pr.find? (fun p => (fileHosts data).length * 2 < p) = some hsize →
    PlainName hsize name ∧ ∀ H ∈ fileHosts data, PlainName hsize H.name

end MtprotoProxy
