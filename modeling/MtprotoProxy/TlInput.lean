/-
# Reading serialized data

The reading half of the serialization layer (`tl-parse.h`, `tl-parse.c`): one set of operations,
`tlf_int` and the others, over a table of methods.  There are two tables: one for a string in
memory, one for a raw message.

`TlIn` is what the operations themselves keep: how much is left, the position, the first error.
The rest of a state is where the bytes come from and where copied bytes go.  An operation has no
result when an assertion fails, or when it reads outside of the bytes.
-/
import MtprotoProxy.Lockstep
import MtprotoProxy.MsgRun

namespace MtprotoProxy

open CLib

/-! ## The state -/

/-- `in_remaining`, `in_pos`, `in_mark_pos`, and `error` with `errnum`. -/
structure TlIn where
  remaining : ℤ
  pos : ℤ
  markPos : ℤ
  error : Option (ℤ × String)

/-- `out` of an output state: the bytes written behind the start of a string, or a message. -/
inductive TlBuffer where
  | str (written : Bytes)
  | rawMsg (i : ℕ)

/-- `struct tl_out_state`. -/
structure TlOut where
  buffer : TlBuffer
  pos : ℤ
  remaining : ℤ

/-- A `struct tl_in_state`, an output state, and the messages; `ι` is what `in` and `in_mark`
point to. -/
structure TlState (ι : Type) where
  msgs : MsgState
  input : Option ι
  mark : Option ι
  cur : TlIn
  out : TlOut

/-- An operation on such a state. -/
abbrev TlM (ι : Type) : Type → Type := StateT (TlState ι) Option

namespace TlIn

def tlErrorSyntax : ℤ := -1000
def tlErrorNotEnoughData : ℤ := -1004
def tlErrorTooLongString : ℤ := -2003
def tlErrorValueNotInRange : ℤ := -2004

variable (c : TlIn)

/-- `tlf_set_error_format`: the first error stays. -/
def setError (errnum : ℤ) (text : String) : TlIn :=
  if c.error.isSome then c else { c with error := some (errnum, text) }

/-- `nbytes` can be read, or taken back. -/
def Fits (nbytes : ℤ) : Prop :=
  (0 ≤ nbytes → nbytes ≤ c.remaining) ∧ (nbytes < 0 → -nbytes ≤ c.pos)

instance (nbytes : ℤ) : Decidable (c.Fits nbytes) := inferInstanceAs (Decidable (_ ∧ _))

def notEnoughText (nbytes : ℤ) : String :=
  "Trying to read " ++ toString nbytes ++ " bytes at position " ++ toString c.pos ++
    " (size = " ++ toString (c.pos + c.remaining) ++ ")"

/-- `tlf_check`; the flag is set when it returns 0. -/
def check (nbytes : ℤ) : Bool × TlIn :=
  if c.Fits nbytes then (c.error.isNone, c)
  else (false, c.setError tlErrorNotEnoughData (c.notEnoughText nbytes))

def advance (size : ℤ) : TlIn := { c with pos := c.pos + size, remaining := c.remaining - size }

/-- `pos` goes back to the mark. -/
def restore : TlIn :=
  { c with pos := c.markPos, remaining := c.remaining + (c.pos - c.markPos) }

end TlIn

/-- What the methods of one input type do. -/
structure TlInMethods (ι : Type) where
  fetchRawData : ℤ → TlM ι Bytes
  fetchMove : ℤ → TlM ι Unit
  fetchLookup : ℤ → TlM ι Bytes
  fetchMark : TlM ι Unit
  fetchMarkRestore : TlM ι Unit
  fetchMarkDelete : TlM ι Unit
  /-- The entry of this input type in `copy_through` of the output. -/
  copyThrough : ℤ → ℤ → TlM ι Unit

/-! ## A string -/

/-- The bytes at `in`. -/
def strRead (s : Bytes) (p : Option ℤ) (len : ℤ) : Option Bytes := do
  let p ← p
  if 0 ≤ p ∧ 0 ≤ len ∧ p + len ≤ s.length then some (slice s p.toNat len.toNat) else none

namespace TlState

variable {ι : Type}

/-- `TL_IN += len`. -/
def moveIn (X : TlState ℤ) (len : ℤ) : TlState ℤ := { X with input := X.input.map (· + len) }

/-- Bytes of memory go to the output: `memcpy`, or `rwm_push_data`. -/
def write (X : TlState ι) (bs : Bytes) : Option (TlState ι) :=
  match X.out.buffer with
  | .str w => some { X with out := { X.out with buffer := .str (w ++ bs) } }
  | .rawMsg k => (X.msgs.step (.pushData k bs)).map (fun r => { X with msgs := r.1 })

end TlState

def strFetchRawData (s : Bytes) (len : ℤ) : TlM ℤ Bytes := fun X => do
  let bs ← strRead s X.input len
  some (bs, X.moveIn len)

def strFetchMove (len : ℤ) : TlM ℤ Unit := fun X => some ((), X.moveIn len)

def strFetchLookup (s : Bytes) (len : ℤ) : TlM ℤ Bytes := fun X => do
  let bs ← strRead s X.input len
  some (bs, X)

def strFetchMark : TlM ℤ Unit := fun X =>
  if X.mark.isSome then none
  else some ((), { X with mark := X.input, cur := { X.cur with markPos := X.cur.pos } })

def strFetchMarkRestore : TlM ℤ Unit := fun X =>
  some ((), { X with input := X.mark, mark := none, cur := X.cur.restore })

def strFetchMarkDelete : TlM ℤ Unit := fun X => some ((), { X with mark := none })

/-- `__tl_str_raw_msg_copy_through` and `__tl_str_str_copy_through`: the pointer moves by the flag
`advance`, not by the length. -/
def strCopyThrough (s : Bytes) (len advance : ℤ) : TlM ℤ Unit := fun X => do
  let bs ← strRead s X.input len
  let X ← X.write bs
  some ((), X.moveIn advance)

/-- `tl_in_str_methods`, with the string that `in` points into. -/
def tlInStrMethods (s : Bytes) : TlInMethods ℤ where
  fetchRawData := strFetchRawData s
  fetchMove := strFetchMove
  fetchLookup := strFetchLookup s
  fetchMark := strFetchMark
  fetchMarkRestore := strFetchMarkRestore
  fetchMarkDelete := strFetchMarkDelete
  copyThrough := strCopyThrough s

/-! ## A raw message -/

/-- `rwm_fetch_data` of all `len` bytes. -/
def rawFetchRawData (len : ℤ) : TlM ℕ Bytes := fun X => do
  let i ← X.input
  let (S, bs) ← X.msgs.step (.fetch i len.toNat)
  if 0 ≤ len ∧ bs.length = len.toNat then some (bs, { X with msgs := S }) else none

/-- `rwm_skip_data` of all `len` bytes. -/
def rawFetchMove (len : ℤ) : TlM ℕ Unit := fun X => do
  let i ← X.input
  let raw ← X.msgs.handles.cell i
  let (H, raw, n) ← X.msgs.heap.rwmSkipData raw len.toNat
  if 0 ≤ len ∧ n = len.toNat
  then some ((), { X with msgs := ⟨H, X.msgs.handles.put i (some raw)⟩ }) else none

/-- `rwm_fetch_lookup` of all `len` bytes. -/
def rawFetchLookup (len : ℤ) : TlM ℕ Bytes := fun X => do
  let i ← X.input
  let raw ← X.msgs.handles.cell i
  let bs ← X.msgs.heap.rwmFetchLookup raw len.toNat
  if 0 ≤ len ∧ bs.length = len.toNat then some (bs, X) else none

def rawFetchMark : TlM ℕ Unit := fun X =>
  if X.mark.isSome then none
  else do
    let i ← X.input
    let (S, _) ← X.msgs.step (.clone i)
    some ((), { X with
      msgs := S, mark := some X.msgs.handles.size, cur := { X.cur with markPos := X.cur.pos } })

/-- The message that was marked becomes the input. -/
def rawFetchMarkRestore : TlM ℕ Unit := fun X => do
  let j ← X.mark
  let i ← X.input
  let (S, _) ← X.msgs.step (.free i)
  some ((), { X with msgs := S, input := some j, mark := none, cur := X.cur.restore })

def rawFetchMarkDelete : TlM ℕ Unit := fun X => do
  let j ← X.mark
  let (S, _) ← X.msgs.step (.free j)
  some ((), { X with msgs := S, mark := none })

/-- `rwm_union` of the output and a copy of the first `len` bytes. -/
def rawCopyLookup (i k : ℕ) (len : ℤ) (S : MsgState) : Option MsgState := do
  let r := S.handles.size
  let (S, _) ← S.step (.clone i)
  let (S, _) ← S.step (.trunc r len.toNat)
  let (S, _) ← S.step (.union k r)
  some S

/-- `rwm_union` of the output and the first `len` bytes, split off. -/
def rawCopySplit (i k : ℕ) (len : ℤ) (S : MsgState) : Option MsgState := do
  let r := S.handles.size
  let (S, _) ← S.step (.splitHead i len.toNat)
  let (S, _) ← S.step (.union k r)
  some S

/-- `__tl_raw_msg_raw_msg_copy_through` and `__tl_raw_msg_str_copy_through`. -/
def rawCopyThrough (len advance : ℤ) : TlM ℕ Unit := fun X =>
  match X.out.buffer with
  | .str _ => do
    let (bs, X) ← (if advance = 0 then rawFetchLookup len else rawFetchRawData len) X
    let X ← X.write bs
    some ((), X)
  | .rawMsg k => do
    let i ← X.input
    if advance = 0 then
      (rawCopyLookup i k len X.msgs).map (fun S => ((), { X with msgs := S }))
    else if 0 ≤ len then
      (rawCopySplit i k len X.msgs).map (fun S => ((), { X with msgs := S }))
    else none

/-- `tl_in_raw_msg_methods`. -/
def tlInRawMsgMethods : TlInMethods ℕ where
  fetchRawData := rawFetchRawData
  fetchMove := rawFetchMove
  fetchLookup := rawFetchLookup
  fetchMark := rawFetchMark
  fetchMarkRestore := rawFetchMarkRestore
  fetchMarkDelete := rawFetchMarkDelete
  copyThrough := rawCopyThrough

/-! ## The operations -/

/-- The `int` and the `long long` at the start of the bytes. -/
def int32At (bs : Bytes) : ℤ := wrap32 (leWord (bs.take 4))
def int64At (bs : Bytes) : ℤ := Int.bmod (leWord (bs.take 8)) (2 ^ 64)

section Operations

variable {ι : Type}

def tlIn : TlM ι TlIn := fun X => some (X.cur, X)

def tlSetIn (c : TlIn) : TlM ι Unit := fun X => some ((), { X with cur := c })

def tlfSetError (errnum : ℤ) (text : String) : TlM ι Unit := do
  let c ← tlIn
  tlSetIn (c.setError errnum text)

def tlfCheck (nbytes : ℤ) : TlM ι Bool := do
  let c ← tlIn
  tlSetIn (c.check nbytes).2
  pure (c.check nbytes).1

variable (M : TlInMethods ι)

/-- `__tlf_raw_data`. -/
def tlfTakeRawData (size : ℤ) : TlM ι Bytes := do
  let bs ← M.fetchRawData size
  let c ← tlIn
  tlSetIn (c.advance size)
  pure bs

/-- `__tlf_skip_raw_data`. -/
def tlfSkipRawData (size : ℤ) : TlM ι Unit := do
  M.fetchMove size
  let c ← tlIn
  tlSetIn (c.advance size)

/-- The bytes in front are seen, and `f` of them is returned; `d` when they are not there. -/
def tlfLookup {α : Type} (n : ℤ) (f : Bytes → α) (d : α) : TlM ι α := do
  if ← tlfCheck n then
    let x ← M.fetchLookup n
    pure (f x)
  else pure d

/-- The same with bytes that are taken. -/
def tlfFetch {α : Type} (n : ℤ) (f : Bytes → α) (d : α) : TlM ι α := do
  if ← tlfCheck n then
    let x ← tlfTakeRawData M n
    pure (f x)
  else pure d

def tlfLookupInt : TlM ι ℤ := tlfLookup M 4 int32At (-1)

def tlfLookupSecondInt : TlM ι ℤ := tlfLookup M 8 (fun x => int32At (x.drop 4)) (-1)

def tlfLookupLong : TlM ι ℤ := tlfLookup M 8 int64At (-1)

def tlfLookupData (len : ℤ) : TlM ι (ℤ × Bytes) := tlfLookup M len (fun x => (len, x)) (-1, [])

def tlfInt : TlM ι ℤ := tlfFetch M 4 int32At (-1)

def tlfLong : TlM ι ℤ := tlfFetch M 8 int64At (-1)

def rangeText (kind : String) (lo hi x : ℤ) : String :=
  "Expected " ++ kind ++ " in range [" ++ toString lo ++ "," ++ toString hi ++ "], " ++
    toString x ++ " presented"

/-- The value is checked, and returned all the same. -/
def tlfRange (kind : String) (lo hi x : ℤ) : TlM ι ℤ := do
  if x < lo ∨ hi < x then
    tlfSetError TlIn.tlErrorValueNotInRange (rangeText kind lo hi x)
    pure x
  else pure x

def tlfIntRange (lo hi : ℤ) : TlM ι ℤ := do
  let x ← tlfInt M
  tlfRange "int32" lo hi x

def tlfLongRange (lo hi : ℤ) : TlM ι ℤ := do
  let x ← tlfLong M
  tlfRange "int64" lo hi x

/-- The length of a long string takes three more bytes. -/
def tlfStringLenRest (x : Bytes) : TlM ι ℤ := do
  if leWord x = 254 then
    let y ← tlfTakeRawData M 3
    pure (leWord y)
  else pure (leWord x)

/-- The bounds of `tlf_string_len`. -/
def tlfStringBound (maxLen x : ℤ) : TlM ι ℤ := do
  let c ← tlIn
  if maxLen < x then
    tlfSetError TlIn.tlErrorTooLongString
      ("string is too long: max_len = " ++ toString maxLen ++ ", len = " ++ toString x)
    pure (-1)
  else if c.remaining < x then
    tlfSetError TlIn.tlErrorNotEnoughData
      ("string is too long: remaining_bytes = " ++ toString c.remaining ++ ", len = " ++ toString x)
    pure (-1)
  else pure x

def tlfStringLen (maxLen : ℤ) : TlM ι ℤ := do
  if ← tlfCheck 4 then
    let x ← tlfTakeRawData M 1
    if leWord x = 255 then
      tlfSetError TlIn.tlErrorSyntax "String len can not start with 0xff"
      pure (-1)
    else
      let x ← tlfStringLenRest M x
      tlfStringBound maxLen x
  else pure (-1)

def tlfPad : TlM ι ℤ := do
  let c ← tlIn
  -- `(-pos) & 3`
  let pad := (-c.pos) % 4
  if ← tlfCheck pad then
    assert (pad ≤ c.remaining)
    let t ← tlfTakeRawData M pad
    if leWord t = 0 then pure pad
    else
      tlfSetError TlIn.tlErrorSyntax "Padding with non-zeroes"
      pure (-1)
  else pure (-1)

def tlfRawData (len : ℤ) : TlM ι (ℤ × Bytes) := do
  assert (len % 4 = 0)
  tlfFetch M len (fun x => (len, x)) (-1, [])

def tlfStringData (len : ℤ) : TlM ι (ℤ × Bytes) := do
  if ← tlfCheck len then
    let bs ← tlfTakeRawData M len
    let pad ← tlfPad M
    pure (if pad < 0 then -1 else len, bs)
  else pure (-1, [])

def tlfSkipStringData (len : ℤ) : TlM ι ℤ := do
  if ← tlfCheck len then
    tlfSkipRawData M len
    let pad ← tlfPad M
    pure (if pad < 0 then -1 else len)
  else pure (-1)

def tlfString (maxLen : ℤ) : TlM ι (ℤ × Bytes) := do
  let l ← tlfStringLen M maxLen
  if l < 0 then pure (-1, [])
  else
    let (r, bs) ← tlfStringData M l
    pure (if r < 0 then -1 else l, bs)

def tlfSkipString (maxLen : ℤ) : TlM ι ℤ := do
  let l ← tlfStringLen M maxLen
  if l < 0 then pure (-1)
  else
    let r ← tlfSkipStringData M l
    pure (if r < 0 then -1 else l)

/-- A zero byte is put behind a string that was read. -/
def tlfString0 (maxLen : ℤ) : TlM ι (ℤ × Bytes) := do
  let (l, bs) ← tlfString M maxLen
  pure (l, if l < 0 then bs else bs ++ [0])

def tlfSkip (len : ℤ) : TlM ι ℤ := do
  if ← tlfCheck len then
    tlfSkipRawData M len
    pure len
  else pure (-1)

/-- Where the output is after `len` more bytes. -/
def tlAdvanceOut (len : ℤ) : TlM ι Unit := fun X =>
  some ((), { X with
    out := { X.out with pos := X.out.pos + len, remaining := X.out.remaining - len } })

/-- `tls_check`; the flag is set when it returns 0. -/
def tlsCheck (size : ℤ) : TlM ι Bool := fun X => some (decide (size ≤ X.out.remaining), X)

def tlAdvance (len advance : ℤ) : TlM ι Unit := do
  let c ← tlIn
  tlSetIn (if advance = 0 then c else c.advance len)

def tlCopyThrough (len advance : ℤ) : TlM ι ℤ := do
  if ← tlfCheck len then
    if ← tlsCheck len then
      M.copyThrough len advance
      tlAdvance len advance
      tlAdvanceOut len
      pure len
    else pure (-1)
  else pure (-1)

end Operations

/-- The operations, with their arguments. -/
inductive TlOp where
  | lookupInt
  | lookupSecondInt
  | lookupLong
  | lookupData (len : ℤ)
  | int
  | long
  | intRange (lo hi : ℤ)
  | longRange (lo hi : ℤ)
  | stringLen (maxLen : ℤ)
  | pad
  | rawData (len : ℤ)
  | stringData (len : ℤ)
  | skipStringData (len : ℤ)
  | string (maxLen : ℤ)
  | skipString (maxLen : ℤ)
  | string0 (maxLen : ℤ)
  | skip (len : ℤ)
  | mark
  | markRestore
  | markDelete
  | copyThrough (len advance : ℤ)

section Runs

variable {ι : Type} (M : TlInMethods ι)

/-- An operation that fills no buffer. -/
def noBytes (m : TlM ι ℤ) : TlM ι (ℤ × Bytes) := do
  let x ← m
  pure (x, [])

/-- An operation without a result. -/
def noResult (m : TlM ι Unit) : TlM ι (ℤ × Bytes) := do
  m
  pure (0, [])

/-- What an operation returns, and the bytes in its buffer. -/
def tlStep : TlOp → TlM ι (ℤ × Bytes)
  | .lookupInt => noBytes (tlfLookupInt M)
  | .lookupSecondInt => noBytes (tlfLookupSecondInt M)
  | .lookupLong => noBytes (tlfLookupLong M)
  | .lookupData len => tlfLookupData M len
  | .int => noBytes (tlfInt M)
  | .long => noBytes (tlfLong M)
  | .intRange lo hi => noBytes (tlfIntRange M lo hi)
  | .longRange lo hi => noBytes (tlfLongRange M lo hi)
  | .stringLen maxLen => noBytes (tlfStringLen M maxLen)
  | .pad => noBytes (tlfPad M)
  | .rawData len => tlfRawData M len
  | .stringData len => tlfStringData M len
  | .skipStringData len => noBytes (tlfSkipStringData M len)
  | .string maxLen => tlfString M maxLen
  | .skipString maxLen => noBytes (tlfSkipString M maxLen)
  | .string0 maxLen => tlfString0 M maxLen
  | .skip len => noBytes (tlfSkip M len)
  | .mark => noResult M.fetchMark
  | .markRestore => noResult M.fetchMarkRestore
  | .markDelete => noResult M.fetchMarkDelete
  | .copyThrough len advance => noBytes (tlCopyThrough M len advance)

/-- What is seen of a state: position, remaining count and error, and the bytes copied out. -/
structure TlView where
  remaining : ℤ
  pos : ℤ
  error : Option (ℤ × String)
  outRemaining : ℤ
  outPos : ℤ
  copied : Option Bytes
deriving DecidableEq

def TlState.view (X : TlState ι) : TlView where
  remaining := X.cur.remaining
  pos := X.cur.pos
  error := X.cur.error
  outRemaining := X.out.remaining
  outPos := X.out.pos
  copied := match X.out.buffer with
    | .str w => some w
    | .rawMsg k => X.msgs.contents k

/-- What is seen of a run: each result with the state after it, up to the first assertion that
fails. -/
def tlTrace : TlState ι → List TlOp → List (Option ((ℤ × Bytes) × TlView))
  | _, [] => []
  | X, op :: ops =>
    match tlStep M op X with
    | none => [none]
    | some (r, X') => some (r, X'.view) :: tlTrace X' ops

end Runs

/-! ## The start -/

/-- An output to be opened: a string with its size, or a message. -/
inductive TlOutType where
  | str (size : ℤ)
  | rawMsg

/-- `tls_init_str`, and `tls_init_raw_msg` or `tls_init_tcp_raw_msg`. -/
def tlsInit (S : MsgState) : TlOutType → Option (MsgState × TlOut)
  | .str size => some (S, ⟨.str [], 0, size⟩)
  | .rawMsg => (S.step (.create [])).map (fun r => (r.1, ⟨.rawMsg S.handles.size, 0, 2 ^ 27⟩))

/-- `tlf_init_str`. -/
def tlfInitStr (S : MsgState) (out : TlOut) (size : ℤ) : TlState ℤ where
  msgs := S
  input := some 0
  mark := none
  cur := ⟨size, 0, 0, none⟩
  out := out

/-- The message that is read: `msg` itself, `msg` with an empty one in its place, or a clone. -/
def tlfInitMessage (S : MsgState) (msg dup : ℕ) : Option MsgState :=
  if dup = 0 then (S.step (.move msg)).map Prod.fst
  else if dup = 1 then
    (S.step (.move msg)).map (fun r => ⟨r.1.heap, r.1.handles.put msg (some rwmClean)⟩)
  else (S.step (.clone msg)).map Prod.fst

/-- `tlf_init_raw_message`. -/
def tlfInitRawMessage (S : MsgState) (out : TlOut) (msg : ℕ) (size : ℤ) (dup : ℕ) :
    Option (TlState ℕ) :=
  (tlfInitMessage S msg dup).map (fun S' =>
    { msgs := S', input := some S.handles.size, mark := none, cur := ⟨size, 0, 0, none⟩, out := out })

end MtprotoProxy
