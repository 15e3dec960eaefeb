/-
# The bodies of the admin server

`ext_http_append_list_json` and `ext_http_append_stats_json` of `net/net-tcp-rpc-ext-server.c`:
the texts are put together by formatted appends (`extSbAppendf`) into a buffer that grows, and
nothing is escaped.

* `adminBodies_decode`: in every state that a run of the store reaches, both bodies are JSON texts
  of the entries in their order.

A block from `realloc` has arbitrary bytes behind those that were copied.  A format is read by
`parseFormat`: the literal texts with the conversion behind each of them.
-/
import MtprotoProxy.JsonDecode
import MtprotoProxy.StoreRun

namespace MtprotoProxy

open CLib

/-! ## Formats -/

/-- The conversions `%s`, `%d` and `%lld`. -/
inductive FmtSpec where
  | s
  | d
  | lld
  deriving DecidableEq

/-- An argument of a variadic call. -/
inductive FmtArg where
  | str (x : Bytes)
  | int (x : ℤ)
  | longLong (x : Int64)

/-- The text of an argument; of another type than the conversion wants, nothing. -/
def FmtSpec.text : FmtSpec → FmtArg → Bytes
  | .s, .str x => cstr x
  | .d, .int x => fmtInt x
  | .lld, .longLong x => fmtInt x.toInt
  | _, _ => []

/-- A byte in front of the first literal. -/
def consLiteral (c : UInt8) : List (Bytes × FmtSpec) × Bytes → List (Bytes × FmtSpec) × Bytes
  | ([], last) => ([], c :: last)
  | ((lit, spec) :: parts, last) => ((c :: lit, spec) :: parts, last)

/-- The literals with the conversions behind them, and the last literal.  Behind a `%`, the
number of the letters `l` so far is kept. -/
def parseFormat : Option ℕ → Bytes → List (Bytes × FmtSpec) × Bytes
  | _, [] => ([], [])
  | none, c :: fmt =>
    if c = 37 then parseFormat (some 0) fmt else consLiteral c (parseFormat none fmt)
  | some l, c :: fmt =>
    if c = 108 then parseFormat (some (l + 1)) fmt
    else
      let out := parseFormat none fmt
      (([], if c = 115 then .s else if l = 0 then .d else .lld) :: out.1, out.2)

/-- The arguments between the literals. -/
def fillFormat : List (Bytes × FmtSpec) → List FmtArg → Bytes → Bytes
  | (lit, spec) :: parts, a :: args, last => lit ++ (spec.text a ++ fillFormat parts args last)
  | _, _, last => last

/-- What `vsnprintf` makes of a format and its arguments. -/
def formatText (fmt : Bytes) (args : List FmtArg) : Bytes :=
  fillFormat (parseFormat none fmt).1 args (parseFormat none fmt).2

/-! ## The buffer -/

/-- `struct ext_strbuf`; `s` are the `cap` bytes of the block. -/
structure ExtStrbuf where
  s : Bytes
  len : ℕ
  cap : ℕ

/-- `struct ext_strbuf B = {}`. -/
def ExtStrbuf.empty : ExtStrbuf := ⟨[], 0, 0⟩

/-- What `realloc` does: whether there is a block of a size, and what stands in it. -/
structure ReallocEnv where
  ok : ℕ → Bool
  fresh : ℕ → UInt8

/-- `while (new_cap < want) new_cap *= 2`. -/
def growCap (want : ℕ) : ℕ → ℕ → ℕ
  | 0, newCap => newCap
  | fuel + 1, newCap => if newCap < want then growCap want fuel (newCap * 2) else newCap

/-- `ext_sb_grow`; `none` is the return value `-1`. -/
def extSbGrow (M : ReallocEnv) (B : ExtStrbuf) (needExtra : ℕ) : Option ExtStrbuf :=
  if B.len + needExtra + 1 ≤ B.cap then some B
  else
    let want := B.len + needExtra + 1
    let newCap := growCap want want (if B.cap ≠ 0 then B.cap else 512)
    if M.ok newCap then
      some { B with
        s := B.s ++ (List.range (newCap - B.cap)).map (fun i => M.fresh (B.cap + i))
        cap := newCap }
    else none

/-- The bytes that `vsnprintf` writes at an offset where it may write `size` bytes. -/
def vsnprintf (s : Bytes) (offset size : ℕ) (text : Bytes) : Bytes :=
  if size = 0 then s
  else
    s.take offset ++ (text.take (size - 1) ++
      0 :: s.drop (offset + (text.take (size - 1)).length + 1))

/-- `ext_sb_appendf`; `none` is the return value `-1`.  A text that is too long for an `int` is an
error of `vsnprintf`. -/
def extSbAppendf (M : ReallocEnv) (fmt : Bytes) (args : List FmtArg) (B : ExtStrbuf) :
    Option ExtStrbuf :=
  let text := formatText fmt args
  if 2 ^ 31 ≤ text.length then none
  else
    (extSbGrow M B text.length).map (fun B =>
      { B with
        s := vsnprintf B.s B.len (B.cap - B.len) text
        len := B.len + text.length })

/-! ## The bodies -/

/-- The counters `M` of an entry. -/
def entryMetric (s : ExtStore) (E : ExtSecretEntry) : ExtSecretMetric :=
  if 0 < E.id ∧ E.id < s.extSecretMetricsCap then s.metric E.id else .zero

/-- `x ? "true" : "false"`. -/
def boolText (b : Bool) : Bytes := if b then trueText else falseText

def listItemFormat : Bytes :=
  ("\x7b\"secret\":\"%s\",\"enabled\":%s,\"active\":%s," ++
    "\"expires\":%lld,\"created\":%lld,\"updated\":%lld,\"id\":%d," ++
    "\"bytes_in\":%lld,\"bytes_out\":%lld,\"bytes_total\":%lld,\"connections\":%lld," ++
    "\"last_seen\":%lld,\"last_ip\":\"%s\",\"label\":\"%s\"\x7d").toUTF8.toList

def listItemArgs (s : ExtStore) (now : Int64) (E : ExtSecretEntry) : List FmtArg :=
  let M := entryMetric s E
  [.str E.hex, .str (boolText (E.enabled ≠ 0)), .str (boolText (extIsActiveLocked E now)),
    .longLong E.expiresAt, .longLong E.createdAt, .longLong E.updatedAt, .int E.id,
    .longLong M.bytesIn, .longLong M.bytesOut, .longLong (M.bytesIn + M.bytesOut),
    .longLong M.connections, .longLong E.lastSeenAt, .str E.lastIp, .str E.label]

def statsItemFormat : Bytes :=
  ("\x7b\"secret\":\"%s\",\"label\":\"%s\",\"id\":%d,\"enabled\":%s,\"active\":%s," ++
    "\"bytes_in\":%lld,\"bytes_out\":%lld,\"bytes_total\":%lld,\"connections\":%lld," ++
    "\"last_seen\":%lld,\"last_ip\":\"%s\"\x7d").toUTF8.toList

def statsItemArgs (s : ExtStore) (now : Int64) (E : ExtSecretEntry) : List FmtArg :=
  let M := entryMetric s E
  [.str E.hex, .str E.label, .int E.id, .str (boolText (E.enabled ≠ 0)),
    .str (boolText (extIsActiveLocked E now)), .longLong M.bytesIn, .longLong M.bytesOut,
    .longLong (M.bytesIn + M.bytesOut), .longLong M.connections, .longLong E.lastSeenAt,
    .str E.lastIp]

def statsFormat : Bytes :=
  ("\x7b\"ok\":true,\"now\":%lld," ++
    "\"totals\":\x7b\"bytes_in\":%lld,\"bytes_out\":%lld,\"bytes_total\":%lld,\"connections\":%lld\x7d," ++
    "\"secrets\":\x7b\"total\":%d,\"active\":%d,\"items\":[").toUTF8.toList

def statsArgs (s : ExtStore) (now : Int64) : List FmtArg :=
  [.longLong now, .longLong s.extTotalBytesIn, .longLong s.extTotalBytesOut,
    .longLong (s.extTotalBytesIn + s.extTotalBytesOut), .longLong s.extTotalConnections,
    .int s.extSecretCnt, .int (tcpRpcsActiveSecretCount s now)]

/-- The loop over the entries, with its index. -/
def appendItems (M : ReallocEnv) (fmt : Bytes) (args : ExtSecretEntry → List FmtArg) :
    ℕ → List ExtSecretEntry → ExtStrbuf → Option ExtStrbuf
  | _, [], B => some B
  | i, E :: es, B => do
    let B ← if i ≠ 0 then extSbAppendf M [44] [] B else some B
    let B ← extSbAppendf M fmt (args E) B
    appendItems M fmt args (i + 1) es B

/-- `ext_http_append_list_json` at the time `now`. -/
def extHttpAppendListJson (M : ReallocEnv) (now : Int64) (s : ExtStore) (B : ExtStrbuf) :
    Option ExtStrbuf := do
  let B ← extSbAppendf M "\x7b\"ok\":true,\"secrets\":[".toUTF8.toList [] B
  let B ← appendItems M listItemFormat (listItemArgs s now) 0 s.extSecrets B
  extSbAppendf M "]\x7d".toUTF8.toList [] B

/-- `ext_http_append_stats_json` at the time `now`. -/
def extHttpAppendStatsJson (M : ReallocEnv) (now : Int64) (s : ExtStore) (B : ExtStrbuf) :
    Option ExtStrbuf := do
  let B ← extSbAppendf M statsFormat (statsArgs s now) B
  let B ← appendItems M statsItemFormat (statsItemArgs s now) 0 s.extSecrets B
  extSbAppendf M "]\x7d\x7d".toUTF8.toList [] B

/-! ## Appending -/

/-- The text of the buffer, with its zero. -/
def HoldsText (B : ExtStrbuf) (text : Bytes) : Prop :=
  (B = .empty ∧ text = []) ∨
    ∃ behind, B.s = text ++ 0 :: behind ∧ B.len = text.length ∧ B.cap = B.s.length

theorem le_growCap (want fuel newCap : ℕ) : newCap ≤ growCap want fuel newCap := by
  induction fuel generalizing newCap with
  | zero => exact le_rfl
  | succ fuel ih =>
    rw [growCap]
    split_ifs
    · exact (Nat.le_mul_of_pos_right newCap Nat.two_pos).trans (ih _)
    · exact le_rfl

/-- Doubling a capacity that is not zero gets to any size. -/
theorem growCap_ge {want fuel newCap : ℕ} (hpos : 0 < newCap) (h : want ≤ newCap + fuel) :
    want ≤ growCap want fuel newCap := by
  induction fuel generalizing newCap with
  | zero => exact h
  | succ fuel ih =>
    rw [growCap]
    split_ifs with hlt
    · exact ih (by omega) (by omega)
    · omega

/-- The buffer gets room for more bytes and their zero, and keeps its text. -/
theorem extSbGrow_spec {M : ReallocEnv} (hok : ∀ n, M.ok n = true) (B : ExtStrbuf) (n : ℕ)
    (hcap : B.cap = B.s.length) :
    ∃ B' behind, extSbGrow M B n = some B' ∧ B'.s = B.s ++ behind ∧ B'.len = B.len ∧
      B'.cap = B'.s.length ∧ B.len + n + 1 ≤ B'.cap := by
  unfold extSbGrow
  by_cases hroom : B.len + n + 1 ≤ B.cap
  · exact ⟨B, [], if_pos hroom, (List.append_nil _).symm, rfl, hcap, hroom⟩
  · rw [if_neg hroom]
    dsimp only
    generalize hstart : (if B.cap ≠ 0 then B.cap else 512) = start
    have hpos : 0 < start ∧ B.cap ≤ start := by
      split_ifs at hstart <;> omega
    have hge : B.len + n + 1 ≤ growCap (B.len + n + 1) (B.len + n + 1) start :=
      growCap_ge hpos.1 (Nat.le_add_left _ _)
    have hle := hpos.2.trans (le_growCap (B.len + n + 1) (B.len + n + 1) start)
    rw [if_pos (hok _)]
    refine ⟨_, _, rfl, rfl, rfl, ?_, hge⟩
    rw [List.length_append, List.length_map, List.length_range, ← hcap]
    show growCap _ _ _ = _
    omega

/-- A text that fits is printed whole. -/
theorem vsnprintf_of_lt {size : ℕ} {text : Bytes} (h : text.length < size) (s : Bytes)
    (offset : ℕ) : vsnprintf s offset size text =
      s.take offset ++ (text ++ 0 :: s.drop (offset + text.length + 1)) := by
  have htake : text.take (size - 1) = text := List.take_of_length_le (by omega)
  unfold vsnprintf
  rw [if_neg (by omega), htake]

/-- **An append is not cut short.** -/
theorem HoldsText.appendf {M : ReallocEnv} (hok : ∀ n, M.ok n = true) {B : ExtStrbuf} {text : Bytes}
    (h : HoldsText B text) (fmt : Bytes) (args : List FmtArg)
    (hshort : (formatText fmt args).length < 2 ^ 31) :
    ∃ B', extSbAppendf M fmt args B = some B' ∧ HoldsText B' (text ++ formatText fmt args) := by
  generalize hmore : formatText fmt args = more at hshort ⊢
  have hstart : B.cap = B.s.length ∧ B.len = text.length ∧ B.s.take B.len = text := by
    rcases h with ⟨rfl, rfl⟩ | ⟨behind, hs, hlen, hcap⟩
    · exact ⟨rfl, rfl, rfl⟩
    · refine ⟨hcap, hlen, ?_⟩
      rw [hs, hlen]
      exact List.take_left' rfl
  obtain ⟨hcap, hlen, htake⟩ := hstart
  obtain ⟨B', behind, hgrow, hs, hlen', hcap', hroom⟩ := extSbGrow_spec hok B more.length hcap
  have htext : B'.s.take B'.len = text := by
    rw [hs, hlen', List.take_append_of_le_length (by rw [hlen, ← htake]; simp), htake]
  have hwrite : vsnprintf B'.s B'.len (B'.cap - B'.len) more
      = text ++ more ++ 0 :: B'.s.drop (B'.len + more.length + 1) := by
    rw [vsnprintf_of_lt (by omega), htext, List.append_assoc]
  refine ⟨⟨vsnprintf B'.s B'.len (B'.cap - B'.len) more, B'.len + more.length, B'.cap⟩, ?_,
    Or.inr ⟨B'.s.drop (B'.len + more.length + 1), hwrite, ?_, ?_⟩⟩
  · unfold extSbAppendf
    dsimp only
    rw [hmore, if_neg (not_le.mpr hshort), hgrow]
    rfl
  · show B'.len + more.length = (text ++ more).length
    rw [List.length_append, hlen', hlen]
  · show B'.cap = (vsnprintf B'.s B'.len (B'.cap - B'.len) more).length
    rw [hwrite, List.length_append, List.length_append, List.length_cons, List.length_drop]
    omega

/-- What a C function reads from the buffer. -/
theorem HoldsText.cstr_eq {B : ExtStrbuf} {text : Bytes} (h : HoldsText B text) (hne : text ≠ [])
    (hzero : (0 : UInt8) ∉ text) : cstr B.s = text := by
  rcases h with ⟨-, rfl⟩ | ⟨behind, hs, -, -⟩
  · exact absurd rfl hne
  · rw [hs]
    exact cstr_append_zero hzero behind

/-- Texts with commas between them. -/
theorem HoldsText.appendItems {M : ReallocEnv} (hok : ∀ n, M.ok n = true) {fmt : Bytes}
    {args : ExtSecretEntry → List FmtArg} {es : List ExtSecretEntry}
    (hshort : ∀ E ∈ es, (formatText fmt (args E)).length < 2 ^ 31) {B : ExtStrbuf} {text : Bytes}
    (h : HoldsText B text) :
    ∃ B', appendItems M fmt args 0 es B = some B' ∧
      HoldsText B' (text ++ Json.commas (es.map (fun E => formatText fmt (args E)))) := by
  -- from the second entry on there is a comma in front of every text
  have hrest : ∀ (es : List ExtSecretEntry) (i : ℕ) (B : ExtStrbuf) (text : Bytes),
      (∀ E ∈ es, (formatText fmt (args E)).length < 2 ^ 31) → HoldsText B text →
      ∃ B', MtprotoProxy.appendItems M fmt args (i + 1) es B = some B' ∧
        HoldsText B' (text ++ es.flatMap (fun E => 44 :: formatText fmt (args E))) := by
    intro es
    induction es with
    | nil =>
      intro i B text _ h
      exact ⟨B, rfl, by rwa [List.flatMap_nil, List.append_nil]⟩
    | cons E es ih =>
      intro i B text hshort h
      obtain ⟨hE, hes⟩ := List.forall_mem_cons.mp hshort
      obtain ⟨B₁, hB₁, h₁⟩ := h.appendf hok [44] [] (by decide)
      obtain ⟨B₂, hB₂, h₂⟩ := h₁.appendf hok fmt (args E) hE
      obtain ⟨B₃, hB₃, h₃⟩ := ih (i + 1) B₂ _ hes h₂
      refine ⟨B₃, ?_, ?_⟩
      · rw [MtprotoProxy.appendItems, if_pos (Nat.succ_ne_zero i), hB₁]
        show (extSbAppendf M fmt (args E) B₁).bind _ = _
        rw [hB₂]
        exact hB₃
      · rw [List.flatMap_cons]
        have hcomma : formatText [44] [] = [44] := rfl
        rw [hcomma] at h₃
        simpa only [List.append_assoc, List.cons_append, List.nil_append] using h₃
  cases es with
  | nil => exact ⟨B, rfl, by simpa [Json.commas] using h⟩
  | cons E es =>
    obtain ⟨hE, hes⟩ := List.forall_mem_cons.mp hshort
    obtain ⟨B₁, hB₁, h₁⟩ := h.appendf hok fmt (args E) hE
    obtain ⟨B₂, hB₂, h₂⟩ := hrest es 0 B₁ _ hes h₁
    refine ⟨B₂, ?_, ?_⟩
    · rw [MtprotoProxy.appendItems, if_neg (not_not.mpr rfl)]
      show (extSbAppendf M fmt (args E) B).bind _ = _
      rw [hB₁]
      exact hB₂
    · rw [List.map_cons, Json.commas_cons, List.flatMap_map, ← List.append_assoc]
      exact h₂

/-! ## Lengths -/

/-- The length of a number. -/
theorem length_fmtNat_le {n k : ℕ} (hk : 0 < k) (h : n < 10 ^ k) : (fmtNat n).length ≤ k := by
  unfold fmtNat
  split_ifs
  · exact hk
  · rw [List.length_map, List.length_reverse]
    exact (Nat.digits_length_le_iff (by norm_num) n).mpr h

theorem length_fmtInt_le {z : ℤ} {k : ℕ} (hk : 0 < k) (h : z.natAbs < 10 ^ k) :
    (fmtInt z).length ≤ k + 1 := by
  have hle := length_fmtNat_le hk h
  unfold fmtInt
  split_ifs
  · exact Nat.succ_le_succ hle
  · exact hle.trans (Nat.le_succ k)

/-- No conversion makes more than 96 bytes of the argument. -/
def FmtArg.Short (a : FmtArg) : Prop := ∀ spec : FmtSpec, (spec.text a).length ≤ 96

theorem short_str {x : Bytes} (h : x.length ≤ 96) : (FmtArg.str x).Short := by
  have hcstr : (cstr x).length ≤ 96 := (List.takeWhile_prefix _).length_le.trans h
  rintro (_ | _ | _)
  · exact hcstr
  · exact Nat.zero_le 96
  · exact Nat.zero_le 96

theorem short_int {z : ℤ} (h : z.natAbs < 2 ^ 31) : (FmtArg.int z).Short := by
  have hlen : (fmtInt z).length ≤ 96 :=
    (length_fmtInt_le (k := 10) (by norm_num) (by omega)).trans (by norm_num)
  rintro (_ | _ | _)
  · exact Nat.zero_le 96
  · exact hlen
  · exact Nat.zero_le 96

theorem short_longLong (x : Int64) : (FmtArg.longLong x).Short := by
  have hlo := Int64.le_toInt x
  have hhi := Int64.toInt_lt x
  have hlen : (fmtInt x.toInt).length ≤ 96 :=
    (length_fmtInt_le (k := 19) (by norm_num) (by omega)).trans (by norm_num)
  rintro (_ | _ | _)
  · exact Nat.zero_le 96
  · exact Nat.zero_le 96
  · exact hlen

/-- Short arguments make a text of bounded length. -/
theorem length_fillFormat_le (parts : List (Bytes × FmtSpec)) {args : List FmtArg}
    (h : ∀ a ∈ args, a.Short) (last : Bytes) :
    (fillFormat parts args last).length
      ≤ (parts.map (fun part => part.1.length + 96)).sum + last.length := by
  induction parts generalizing args with
  | nil => exact Nat.le_add_left _ _
  | cons part parts ih =>
    obtain ⟨lit, spec⟩ := part
    cases args with
    | nil => exact Nat.le_add_left _ _
    | cons a args =>
      obtain ⟨ha, hargs⟩ := List.forall_mem_cons.mp h
      have htext := ha spec
      have hrest := ih hargs
      rw [fillFormat, List.length_append, List.length_append, List.map_cons, List.sum_cons]
      dsimp only
      omega

/-! ## Objects -/

def jsonKey (k : String) : Bytes := k.toUTF8.toList

/-- A member that is printed by a conversion, in quotes or not. -/
structure FmtField where
  name : String
  quoted : Bool
  spec : FmtSpec
  arg : FmtArg
  value : Json

namespace FmtField

def quote (quoted : Bool) : Bytes := if quoted then [34] else []

def string (k : String) (x : Bytes) : FmtField := ⟨k, true, .s, .str x, .str x⟩

def bool (k : String) (b : Bool) : FmtField := ⟨k, false, .s, .str (boolText b), .bool b⟩

def longLong (k : String) (x : Int64) : FmtField := ⟨k, false, .lld, .longLong x, .num x.toInt 0⟩

def int (k : String) (z : ℤ) : FmtField := ⟨k, false, .d, .int z, .num z 0⟩

variable (f : FmtField)

/-- What the format says of the member. -/
def shape : String × Bool × FmtSpec := (f.name, f.quoted, f.spec)

def member : Bytes × Json := (jsonKey f.name, f.value)

/-- The conversion prints the value, and the value can be read back. -/
def Prints : Prop :=
  f.value.print = quote f.quoted ++ (f.spec.text f.arg ++ quote f.quoted) ∧ f.value.Plain

/-- Every kind of field prints what its JSON value does. -/
theorem prints_string (k : String) {x : Bytes} (h : Json.PlainString x) :
    (string k x).Prints := by
  have hcstr : cstr x = x := cstr_of_not_mem (fun h0 => absurd (h 0 h0).1 (by decide))
  refine ⟨?_, .str x h⟩
  show 34 :: x ++ [34] = [34] ++ (cstr x ++ [34])
  rw [hcstr]
  rfl

theorem prints_bool (k : String) (b : Bool) : (bool k b).Prints := by
  have hcstr : cstr (boolText b) = boolText b := by
    cases b <;> decide +kernel
  refine ⟨?_, .bool b⟩
  show boolText b = [] ++ (cstr (boolText b) ++ [])
  rw [hcstr, List.append_nil, List.nil_append]

theorem prints_longLong (k : String) (x : Int64) : (longLong k x).Prints :=
  ⟨(List.append_nil _).symm, .num x.toInt⟩

theorem prints_int (k : String) (z : ℤ) : (int k z).Prints :=
  ⟨(List.append_nil _).symm, .num z⟩

end FmtField

/-- The format of an object, behind `before`. -/
def objectFormat : Bytes → List (String × Bool × FmtSpec) → List (Bytes × FmtSpec) × Bytes
  | before, [] => ([], before ++ [125])
  | before, (k, quoted, spec) :: ms =>
    let out := objectFormat (FmtField.quote quoted ++ if ms.isEmpty then [] else [44]) ms
    ((before ++ 34 :: jsonKey k ++ 34 :: 58 :: FmtField.quote quoted, spec) :: out.1, out.2)

/-- **A format of an object prints the object.** -/
theorem fillFormat_object {fs : List FmtField} (h : ∀ f ∈ fs, f.Prints) (hne : fs ≠ [])
    (before : Bytes) :
    fillFormat (objectFormat before (fs.map FmtField.shape)).1 (fs.map FmtField.arg)
        (objectFormat before (fs.map FmtField.shape)).2
      = before ++ Json.commas (Json.printMembers (fs.map FmtField.member)) ++ [125] := by
  induction fs generalizing before with
  | nil => exact absurd rfl hne
  | cons f fs ih =>
    obtain ⟨⟨hf, -⟩, hfs⟩ := List.forall_mem_cons.mp h
    obtain ⟨name, quoted, spec, arg, value⟩ := f
    cases fs with
    | nil =>
      have hone : Json.commas (Json.printMembers [(jsonKey name, value)])
          = 34 :: jsonKey name ++ 34 :: 58 :: value.print := Json.commas_singleton _
      show _ ++ (spec.text arg ++ (FmtField.quote quoted ++ [] ++ [125])) = before ++ Json.commas
        (Json.printMembers [(jsonKey name, value)]) ++ [125]
      rw [hone, hf]
      simp only [List.append_assoc, List.cons_append, List.nil_append]
    | cons g fs =>
      have hmore := ih hfs (List.cons_ne_nil g fs) (FmtField.quote quoted ++ [44])
      have hcons : Json.commas (Json.printMembers
            ((jsonKey name, value) :: (g :: fs).map FmtField.member))
          = 34 :: jsonKey name ++ 34 :: 58 :: value.print
            ++ 44 :: Json.commas (Json.printMembers ((g :: fs).map FmtField.member)) :=
        Json.commas_cons_cons _ _ _
      show _ ++ (spec.text arg ++ fillFormat
          (objectFormat (FmtField.quote quoted ++ [44]) ((g :: fs).map FmtField.shape)).1
          ((g :: fs).map FmtField.arg)
          (objectFormat (FmtField.quote quoted ++ [44]) ((g :: fs).map FmtField.shape)).2)
        = before ++ Json.commas (Json.printMembers
            ((jsonKey name, value) :: (g :: fs).map FmtField.member)) ++ [125]
      rw [hmore, hcons, hf]
      simp only [List.append_assoc, List.cons_append, List.nil_append]

/-- The length of a text of a format. -/
theorem length_formatText_lt {fmt : Bytes} {args : List FmtArg} (h : ∀ a ∈ args, a.Short)
    (hfmt : ((parseFormat none fmt).1.map (fun part => part.1.length + 96)).sum
      + (parseFormat none fmt).2.length < 2 ^ 31) : (formatText fmt args).length < 2 ^ 31 :=
  (length_fillFormat_le _ h _).trans_lt hfmt

/-! ## The entries -/

def listItemFields (s : ExtStore) (now : Int64) (E : ExtSecretEntry) : List FmtField :=
  let M := entryMetric s E
  [.string "secret" E.hex, .bool "enabled" (E.enabled ≠ 0),
    .bool "active" (extIsActiveLocked E now), .longLong "expires" E.expiresAt,
    .longLong "created" E.createdAt, .longLong "updated" E.updatedAt, .int "id" E.id,
    .longLong "bytes_in" M.bytesIn, .longLong "bytes_out" M.bytesOut,
    .longLong "bytes_total" (M.bytesIn + M.bytesOut), .longLong "connections" M.connections,
    .longLong "last_seen" E.lastSeenAt, .string "last_ip" E.lastIp, .string "label" E.label]

def statsItemFields (s : ExtStore) (now : Int64) (E : ExtSecretEntry) : List FmtField :=
  let M := entryMetric s E
  [.string "secret" E.hex, .string "label" E.label, .int "id" E.id,
    .bool "enabled" (E.enabled ≠ 0), .bool "active" (extIsActiveLocked E now),
    .longLong "bytes_in" M.bytesIn, .longLong "bytes_out" M.bytesOut,
    .longLong "bytes_total" (M.bytesIn + M.bytesOut), .longLong "connections" M.connections,
    .longLong "last_seen" E.lastSeenAt, .string "last_ip" E.lastIp]

/-- The format of an item is the format of its fields. -/
theorem parse_listItemFormat (s : ExtStore) (now : Int64) (E : ExtSecretEntry) :
    parseFormat none listItemFormat
      = objectFormat [123] ((listItemFields s now E).map FmtField.shape) := by
  show _ = objectFormat [123] [("secret", true, .s), ("enabled", false, .s), ("active", false, .s),
    ("expires", false, .lld), ("created", false, .lld), ("updated", false, .lld),
    ("id", false, .d), ("bytes_in", false, .lld), ("bytes_out", false, .lld),
    ("bytes_total", false, .lld), ("connections", false, .lld), ("last_seen", false, .lld),
    ("last_ip", true, .s), ("label", true, .s)]
  decide +kernel

theorem parse_statsItemFormat (s : ExtStore) (now : Int64) (E : ExtSecretEntry) :
    parseFormat none statsItemFormat
      = objectFormat [123] ((statsItemFields s now E).map FmtField.shape) := by
  show _ = objectFormat [123] [("secret", true, .s), ("label", true, .s), ("id", false, .d),
    ("enabled", false, .s), ("active", false, .s), ("bytes_in", false, .lld),
    ("bytes_out", false, .lld), ("bytes_total", false, .lld), ("connections", false, .lld),
    ("last_seen", false, .lld), ("last_ip", true, .s)]
  decide +kernel

theorem plain_of_isXdigit {c : UInt8} (h : isXdigit c = true) : 32 ≤ c ∧ c ≠ 34 ∧ c ≠ 92 := by
  revert c
  decide +kernel

theorem plain_of_labelChar {c : UInt8} (h : labelChar c = some c) : 32 ≤ c ∧ c ≠ 34 ∧ c ≠ 92 := by
  revert c
  decide +kernel

theorem plain_of_ipChar {c : UInt8} (h : ipChar c = some c) : 32 ≤ c ∧ c ≠ 34 ∧ c ≠ 92 := by
  revert c
  decide +kernel

/-- What the sanitizers leave needs no escapes. -/
structure PlainEntry (E : ExtSecretEntry) : Prop where
  hex : Json.PlainString E.hex ∧ E.hex.length ≤ 96
  label : Json.PlainString E.label ∧ E.label.length ≤ 96
  lastIp : Json.PlainString E.lastIp ∧ E.lastIp.length ≤ 96

/-- The texts of an entry need no escapes. -/
theorem EntryOk.plain {E : ExtSecretEntry} (h : EntryOk E) : PlainEntry E where
  hex := by
    refine ⟨fun c hc => ?_, ?_⟩
    · rw [h.hex_eq] at hc
      exact plain_of_isXdigit (isXdigit_of_mem_toHex hc)
    · rw [h.hex_eq, length_extSecret16ToHex]
      norm_num
  label := by
    refine ⟨fun c hc => plain_of_labelChar (labelChar_of_mem_fixed h.label_fixed hc), ?_⟩
    rw [← h.label_fixed]
    exact (length_sanitize_le _ _ _).trans (by decide)
  lastIp := by
    refine ⟨fun c hc => plain_of_ipChar (ipChar_of_mem_fixed h.ip_fixed hc), ?_⟩
    rw [← h.ip_fixed]
    exact (length_sanitize_le _ _ _).trans (by decide)

/-- The object of an entry in the list. -/
def listItem (s : ExtStore) (now : Int64) (E : ExtSecretEntry) : Json :=
  .obj ((listItemFields s now E).map FmtField.member)

/-- The object of an entry in the statistics. -/
def statsItem (s : ExtStore) (now : Int64) (E : ExtSecretEntry) : Json :=
  .obj ((statsItemFields s now E).map FmtField.member)

variable {s : ExtStore} {now : Int64} {E : ExtSecretEntry}

/-- All fields of an item print their values. -/
theorem listItemFields_prints (h : PlainEntry E) : ∀ f ∈ listItemFields s now E, f.Prints := by
  intro f hf
  simp only [listItemFields, List.mem_cons, List.not_mem_nil, or_false] at hf
  rcases hf with rfl | rfl | rfl | rfl | rfl | rfl | rfl | rfl | rfl | rfl | rfl | rfl | rfl | rfl
  all_goals first
    | exact FmtField.prints_string _ h.hex.1
    | exact FmtField.prints_string _ h.label.1
    | exact FmtField.prints_string _ h.lastIp.1
    | exact FmtField.prints_bool _ _
    | exact FmtField.prints_longLong _ _
    | exact FmtField.prints_int _ _

theorem short_boolText (b : Bool) : (FmtArg.str (boolText b)).Short :=
  short_str (by cases b <;> decide)

/-- All fields of an item are short. -/
theorem listItemFields_short (h : PlainEntry E)
    (hid : E.id.natAbs < 2 ^ 31) : ∀ f ∈ listItemFields s now E, f.arg.Short := by
  intro f hf
  simp only [listItemFields, List.mem_cons, List.not_mem_nil, or_false] at hf
  rcases hf with rfl | rfl | rfl | rfl | rfl | rfl | rfl | rfl | rfl | rfl | rfl | rfl | rfl | rfl
  all_goals first
    | exact short_longLong _
    | exact short_boolText _
    | exact short_int hid
    | exact short_str h.hex.2
    | exact short_str h.label.2
    | exact short_str h.lastIp.2

/-- The list has all that the statistics have. -/
theorem statsItemFields_subset (s : ExtStore) (now : Int64) (E : ExtSecretEntry) :
    statsItemFields s now E ⊆ listItemFields s now E := by
  intro f hf
  simp only [statsItemFields, listItemFields, List.mem_cons, List.not_mem_nil, or_false] at hf ⊢
  tauto

/-- The arguments for some of the fields of an entry are short. -/
theorem itemArgs_short {fs : List FmtField}
    (h : PlainEntry E) (hid : E.id.natAbs < 2 ^ 31) (hsub : fs ⊆ listItemFields s now E) :
    ∀ a ∈ fs.map FmtField.arg, a.Short :=
  List.forall_mem_map.mpr (fun f hf => listItemFields_short h hid f (hsub hf))

/-- The text of an object that a format prints. -/
theorem formatText_object {fmt : Bytes} {fs : List FmtField} (h : ∀ f ∈ fs, f.Prints)
    (hne : fs ≠ []) (hfmt : parseFormat none fmt = objectFormat [123] (fs.map FmtField.shape)) :
    formatText fmt (fs.map FmtField.arg) = (Json.obj (fs.map FmtField.member)).print := by
  unfold formatText
  rw [hfmt, fillFormat_object h hne [123]]
  rfl

/-- All names that are printed. -/
def jsonNames : List String :=
  ["ok", "now", "totals", "secrets", "total", "items", "secret", "label", "id", "enabled", "active",
    "expires", "created", "updated", "bytes_in", "bytes_out", "bytes_total", "connections",
    "last_seen", "last_ip"]

theorem plain_jsonKey : ∀ k ∈ jsonNames, Json.PlainString (jsonKey k) := by
  have hall : jsonNames.all (fun k => (jsonKey k).all
      (fun c => 32 ≤ c && c != 34 && c != 92)) = true := by decide +kernel
  intro k hk c hc
  have hplain := List.all_eq_true.mp (List.all_eq_true.mp hall k hk) c hc
  simpa [and_assoc] using hplain

/-- An object with some of the names. -/
theorem plain_members {ms : List (Bytes × Json)} (names : List String)
    (hnames : ms.map Prod.fst = names.map jsonKey) (hsub : names ⊆ jsonNames)
    (h : ∀ m ∈ ms, m.2.Plain) : (Json.obj ms).Plain := by
  refine .obj ms (fun m hm => ?_) h
  have hmem : m.1 ∈ names.map jsonKey := hnames ▸ List.mem_map_of_mem hm
  obtain ⟨k, hk, hkm⟩ := List.mem_map.mp hmem
  rw [← hkm]
  exact plain_jsonKey k (hsub hk)

/-- The text of an item is its JSON value. -/
theorem listItem_text (h : PlainEntry E) :
    formatText listItemFormat (listItemArgs s now E) = (listItem s now E).print :=
  formatText_object (listItemFields_prints h) (List.cons_ne_nil _ _)
    (parse_listItemFormat s now E)

theorem statsItem_text (h : PlainEntry E) :
    formatText statsItemFormat (statsItemArgs s now E) = (statsItem s now E).print :=
  formatText_object (fun f hf => listItemFields_prints h f (statsItemFields_subset s now E hf))
    (List.cons_ne_nil _ _) (parse_statsItemFormat s now E)

theorem listItem_plain (h : PlainEntry E) :
    (listItem s now E).Plain := by
  refine plain_members ["secret", "enabled", "active", "expires", "created", "updated", "id",
    "bytes_in", "bytes_out", "bytes_total", "connections", "last_seen", "last_ip", "label"]
    rfl (by decide +kernel) ?_
  exact List.forall_mem_map.mpr (fun f hf => (listItemFields_prints h f hf).2)

theorem statsItem_plain (h : PlainEntry E) :
    (statsItem s now E).Plain := by
  refine plain_members ["secret", "label", "id", "enabled", "active", "bytes_in", "bytes_out",
    "bytes_total", "connections", "last_seen", "last_ip"] rfl (by decide +kernel) ?_
  exact List.forall_mem_map.mpr
    (fun f hf => (listItemFields_prints h f (statsItemFields_subset s now E hf)).2)

/-! ## The bodies as values -/

def listBody (s : ExtStore) (now : Int64) : Json :=
  .obj [(jsonKey "ok", .bool true), (jsonKey "secrets", .arr (s.extSecrets.map (listItem s now)))]

/-- The totals of the statistics. -/
def statsTotals (s : ExtStore) : Json :=
  .obj [(jsonKey "bytes_in", .num s.extTotalBytesIn.toInt 0),
    (jsonKey "bytes_out", .num s.extTotalBytesOut.toInt 0),
    (jsonKey "bytes_total", .num (s.extTotalBytesIn + s.extTotalBytesOut).toInt 0),
    (jsonKey "connections", .num s.extTotalConnections.toInt 0)]

/-- The secrets of the statistics. -/
def statsSecrets (s : ExtStore) (now : Int64) : Json :=
  .obj [(jsonKey "total", .num s.extSecretCnt 0),
    (jsonKey "active", .num (tcpRpcsActiveSecretCount s now) 0),
    (jsonKey "items", .arr (s.extSecrets.map (statsItem s now)))]

def statsBody (s : ExtStore) (now : Int64) : Json :=
  .obj [(jsonKey "ok", .bool true), (jsonKey "now", .num now.toInt 0),
    (jsonKey "totals", statsTotals s), (jsonKey "secrets", statsSecrets s now)]

/-- Entries whose texts need no escapes, and numbers that are `int`. -/
structure PrintsAll (s : ExtStore) : Prop where
  plain : ∀ E ∈ s.extSecrets, PlainEntry E
  id_int : ∀ E ∈ s.extSecrets, E.id.natAbs < 2 ^ 31
  count_int : s.extSecrets.length < 2 ^ 31

/-- Every entry of a store in order prints. -/
theorem StoreInv.printsAll (h : StoreInv s) : PrintsAll s where
  plain E hE := (h.entries_ok E hE).plain
  id_int E hE := by
    have hpos := h.id_pos E hE
    have hnext := h.id_lt_next E hE
    have hint := h.next_int
    omega
  count_int := by
    -- the ids are different numbers below the next one
    have hsub : (s.extSecrets.map (·.id)).toFinset ⊆ Finset.Ico 1 (2 ^ 31) := by
      intro id hid
      obtain ⟨E, hE, rfl⟩ := List.mem_map.mp (List.mem_toFinset.mp hid)
      have hpos := h.id_pos E hE
      have hnext := h.id_lt_next E hE
      have hint := h.next_int
      rw [Finset.mem_Ico]
      omega
    have hcard := Finset.card_le_card hsub
    rw [List.toFinset_card_of_nodup h.ids_nodup, List.length_map, Int.card_Ico] at hcard
    exact hcard.trans_lt (by norm_num)

/-- The items behind a text, and what closes the body. -/
theorem HoldsText.items {M : ReallocEnv} (hok : ∀ n, M.ok n = true) {B : ExtStrbuf} {text : Bytes}
    (h : HoldsText B text) {fmt : Bytes} (closing : Bytes) {args : ExtSecretEntry → List FmtArg}
    {item : ExtSecretEntry → Json} {es : List ExtSecretEntry}
    (htext : ∀ E ∈ es, formatText fmt (args E) = (item E).print)
    (hshort : ∀ E ∈ es, (formatText fmt (args E)).length < 2 ^ 31)
    (hclosing : formatText closing [] = closing ∧ closing.length < 2 ^ 31) :
    ∃ B', ((MtprotoProxy.appendItems M fmt args 0 es B).bind (extSbAppendf M closing []))
        = some B' ∧
      HoldsText B' (text ++ (Json.commas (Json.printItems (es.map item)) ++ closing)) := by
  obtain ⟨B₁, hB₁, h₁⟩ := h.appendItems hok hshort
  have hlen : (formatText closing []).length < 2 ^ 31 := by
    rw [hclosing.1]
    exact hclosing.2
  obtain ⟨B₂, hB₂, h₂⟩ := h₁.appendf hok closing [] hlen
  refine ⟨B₂, ?_, ?_⟩
  · rw [hB₁]
    exact hB₂
  · rw [hclosing.1, List.map_congr_left htext, ← Json.printItems_map item, List.append_assoc] at h₂
    exact h₂

/-- **The list.** -/
theorem extHttpAppendListJson_eq {M : ReallocEnv} (hok : ∀ n, M.ok n = true) (h : PrintsAll s)
    (now : Int64) :
    ∃ B, extHttpAppendListJson M now s .empty = some B ∧ HoldsText B (listBody s now).print := by
  have hopen : formatText "\x7b\"ok\":true,\"secrets\":[".toUTF8.toList []
      = 123 :: 34 :: (jsonKey "ok" ++ 34 :: 58 :: (trueText ++ 44 :: 34 ::
        (jsonKey "secrets" ++ [34, 58, 91]))) := by
    decide +kernel
  have hempty : HoldsText .empty [] := Or.inl ⟨rfl, rfl⟩
  obtain ⟨B₁, hB₁, h₁⟩ :=
    hempty.appendf hok "\x7b\"ok\":true,\"secrets\":[".toUTF8.toList [] (by decide +kernel)
  obtain ⟨B₂, hB₂, h₂⟩ := h₁.items hok "]\x7d".toUTF8.toList
    (fun E hE => listItem_text (h.plain E hE))
    (fun E hE => length_formatText_lt (itemArgs_short (h.plain E hE) (h.id_int E hE)
      (List.Subset.refl (listItemFields s now E))) (by decide +kernel))
    (by decide +kernel)
  refine ⟨B₂, ?_, ?_⟩
  · unfold extHttpAppendListJson
    rw [hB₁]
    exact hB₂
  · have hclose : "]\x7d".toUTF8.toList = [93, 125] := by decide +kernel
    rw [List.nil_append, hopen, hclose] at h₂
    simp only [listBody, Json.print, Json.printMembers, Json.commas_cons_cons,
      Json.commas_singleton, if_true, List.append_assoc, List.cons_append, List.nil_append]
      at h₂ ⊢
    exact h₂

/-- The numbers of the answer are short. -/
theorem statsArgs_short (h : PrintsAll s) (now : Int64) :
    ∀ a ∈ statsArgs s now, a.Short := by
  have hcount := h.count_int
  have hactive : tcpRpcsActiveSecretCount s now ≤ s.extSecrets.length := List.countP_le_length
  intro a ha
  simp only [statsArgs, List.mem_cons, List.not_mem_nil, or_false] at ha
  rcases ha with rfl | rfl | rfl | rfl | rfl | rfl | rfl
  · exact short_longLong _
  · exact short_longLong _
  · exact short_longLong _
  · exact short_longLong _
  · exact short_longLong _
  · apply short_int
    unfold ExtStore.extSecretCnt
    omega
  · apply short_int
    omega

/-- The format of the statistics, cut at its arguments. -/
theorem parse_statsFormat : parseFormat none statsFormat =
    ([(123 :: 34 :: (jsonKey "ok" ++ 34 :: 58 :: (trueText ++ 44 :: 34 :: (jsonKey "now" ++
        [34, 58]))), .lld),
      (44 :: 34 :: (jsonKey "totals" ++ 34 :: 58 :: 123 :: 34 :: (jsonKey "bytes_in" ++ [34, 58])),
        .lld),
      (44 :: 34 :: (jsonKey "bytes_out" ++ [34, 58]), .lld),
      (44 :: 34 :: (jsonKey "bytes_total" ++ [34, 58]), .lld),
      (44 :: 34 :: (jsonKey "connections" ++ [34, 58]), .lld),
      (125 :: 44 :: 34 :: (jsonKey "secrets" ++ 34 :: 58 :: 123 :: 34 :: (jsonKey "total" ++
        [34, 58])), .d),
      (44 :: 34 :: (jsonKey "active" ++ [34, 58]), .d)],
      44 :: 34 :: (jsonKey "items" ++ [34, 58, 91])) := by
  decide +kernel

/-- **The statistics.** -/
theorem extHttpAppendStatsJson_eq {M : ReallocEnv} (hok : ∀ n, M.ok n = true) (h : PrintsAll s)
    (now : Int64) :
    ∃ B, extHttpAppendStatsJson M now s .empty = some B ∧ HoldsText B (statsBody s now).print := by
  have hempty : HoldsText .empty [] := Or.inl ⟨rfl, rfl⟩
  obtain ⟨B₁, hB₁, h₁⟩ := hempty.appendf hok statsFormat (statsArgs s now)
    (length_formatText_lt (statsArgs_short h now) (by decide +kernel))
  obtain ⟨B₂, hB₂, h₂⟩ := h₁.items hok "]\x7d\x7d".toUTF8.toList
    (fun E hE => statsItem_text (h.plain E hE))
    (fun E hE => length_formatText_lt (itemArgs_short (h.plain E hE) (h.id_int E hE)
      (statsItemFields_subset s now E)) (by decide +kernel))
    (by decide +kernel)
  refine ⟨B₂, ?_, ?_⟩
  · unfold extHttpAppendStatsJson
    rw [hB₁]
    exact hB₂
  · have hclose : "]\x7d\x7d".toUTF8.toList = [93, 125, 125] := by decide +kernel
    rw [List.nil_append, hclose, formatText, parse_statsFormat] at h₂
    simp only [statsArgs, fillFormat, FmtSpec.text, statsBody, statsTotals, statsSecrets,
      Json.print, Json.printMembers, Json.commas_cons_cons, Json.commas_singleton, if_true,
      List.append_assoc, List.cons_append, List.nil_append] at h₂ ⊢
    exact h₂

/-- The two answers are plain JSON. -/
theorem listBody_plain (h : PrintsAll s) (now : Int64) :
    (listBody s now).Plain := by
  apply plain_members ["ok", "secrets"] rfl (by decide)
  simp only [List.forall_mem_cons]
  refine ⟨.bool true, .arr _ (List.forall_mem_map.mpr (fun E hE => listItem_plain (h.plain E hE))),
    by simp⟩

theorem statsBody_plain (h : PrintsAll s) (now : Int64) :
    (statsBody s now).Plain := by
  have htotals : (statsTotals s).Plain := by
    apply plain_members ["bytes_in", "bytes_out", "bytes_total", "connections"] rfl (by decide)
    simp only [List.forall_mem_cons]
    exact ⟨.num _, .num _, .num _, .num _, by simp⟩
  have hsecrets : (statsSecrets s now).Plain := by
    apply plain_members ["total", "active", "items"] rfl (by decide)
    simp only [List.forall_mem_cons]
    exact ⟨.num _, .num _,
      .arr _ (List.forall_mem_map.mpr (fun E hE => statsItem_plain (h.plain E hE))), by simp⟩
  apply plain_members ["ok", "now", "totals", "secrets"] rfl (by decide)
  simp only [List.forall_mem_cons]
  exact ⟨.bool true, .num _, htotals, hsecrets, by simp⟩

/-! ## What the bodies say -/

/-- A field is found by its name. -/
theorem field_fields {fs : List FmtField} (hnodup : (fs.map (fun f => jsonKey f.name)).Nodup)
    {f : FmtField} (h : f ∈ fs) :
    (Json.obj (fs.map FmtField.member)).field (jsonKey f.name) = some f.value := by
  have hnames : (fs.map FmtField.member).map Prod.fst = fs.map (fun f => jsonKey f.name) :=
    List.map_map
  exact Json.field_of_mem (hnames ▸ hnodup) (List.mem_map_of_mem (f := FmtField.member) h)

/-- An `Int64` sum that is the sum. -/
def SumFits (a b : Int64) : Prop := -2 ^ 63 ≤ a.toInt + b.toInt ∧ a.toInt + b.toInt < 2 ^ 63

/-- What an item of both bodies says of its entry. -/
structure SaysEntry (s : ExtStore) (now : Int64) (E : ExtSecretEntry) (v : Json) : Prop where
  secret : v.field (jsonKey "secret") = some (.str (extSecret16ToHex E.secret))
  label : v.field (jsonKey "label") = some (.str E.label)
  id : v.field (jsonKey "id") = some (.num E.id 0)
  enabled : v.field (jsonKey "enabled") = some (.bool (E.enabled ≠ 0))
  active : v.field (jsonKey "active") = some (.bool (extIsActiveLocked E now))
  bytesIn : v.field (jsonKey "bytes_in") = some (.num (s.metric E.id).bytesIn.toInt 0)
  bytesOut : v.field (jsonKey "bytes_out") = some (.num (s.metric E.id).bytesOut.toInt 0)
  bytesTotal : v.field (jsonKey "bytes_total")
    = some (.num ((s.metric E.id).bytesIn.toInt + (s.metric E.id).bytesOut.toInt) 0)
  connections : v.field (jsonKey "connections") = some (.num (s.metric E.id).connections.toInt 0)
  lastSeen : v.field (jsonKey "last_seen") = some (.num E.lastSeenAt.toInt 0)
  lastIp : v.field (jsonKey "last_ip") = some (.str E.lastIp)

/-- What an item of the list says of its entry: its times too. -/
structure ListsEntry (s : ExtStore) (now : Int64) (E : ExtSecretEntry) (v : Json) : Prop
    extends SaysEntry s now E v where
  expires : v.field (jsonKey "expires") = some (.num E.expiresAt.toInt 0)
  created : v.field (jsonKey "created") = some (.num E.createdAt.toInt 0)
  updated : v.field (jsonKey "updated") = some (.num E.updatedAt.toInt 0)

theorem listItemFields_nodup (s : ExtStore) (now : Int64) (E : ExtSecretEntry) :
    ((listItemFields s now E).map (fun f => jsonKey f.name)).Nodup := by
  show (["secret", "enabled", "active", "expires", "created", "updated", "id", "bytes_in",
    "bytes_out", "bytes_total", "connections", "last_seen", "last_ip", "label"].map jsonKey).Nodup
  decide +kernel

theorem statsItemFields_nodup (s : ExtStore) (now : Int64) (E : ExtSecretEntry) :
    ((statsItemFields s now E).map (fun f => jsonKey f.name)).Nodup := by
  show (["secret", "label", "id", "enabled", "active", "bytes_in", "bytes_out", "bytes_total",
    "connections", "last_seen", "last_ip"].map jsonKey).Nodup
  decide +kernel

/-- An entry of the store has its counters in its own cell. -/
theorem StoreInv.entryMetric_eq (h : StoreInv s) {E : ExtSecretEntry}
    (hE : E ∈ s.extSecrets) : entryMetric s E = s.metric E.id :=
  if_pos ⟨h.id_pos E hE, h.id_lt_cap E hE⟩

/-- Fields that include those of the statistics say all about an entry. -/
theorem saysEntry_fields (h : StoreInv s)
    (hE : E ∈ s.extSecrets) (hsum : SumFits (s.metric E.id).bytesIn (s.metric E.id).bytesOut)
    {fs : List FmtField} (hnodup : (fs.map (fun f => jsonKey f.name)).Nodup)
    (hsub : statsItemFields s now E ⊆ fs) :
    SaysEntry s now E (.obj (fs.map FmtField.member)) := by
  have hget : ∀ f ∈ statsItemFields s now E,
      (Json.obj (fs.map FmtField.member)).field (jsonKey f.name) = some f.value :=
    fun f hf => field_fields hnodup (hsub hf)
  have hmetric := h.entryMetric_eq hE
  simp only [statsItemFields, hmetric, List.forall_mem_cons] at hget
  obtain ⟨hsecret, hlabel, hid, henabled, hactive, hin, hout, htotal, hconn, hseen, hip, -⟩ := hget
  refine ⟨?_, hlabel, hid, henabled, hactive, hin, hout, ?_, hconn, hseen, hip⟩
  · rw [← (h.entries_ok E hE).hex_eq]
    exact hsecret
  · rw [← toInt_add_of_lt hsum.1 hsum.2]
    exact htotal

theorem listsEntry_listItem (h : StoreInv s)
    (hE : E ∈ s.extSecrets) (hsum : SumFits (s.metric E.id).bytesIn (s.metric E.id).bytesOut) :
    ListsEntry s now E (listItem s now E) := by
  have hnodup := listItemFields_nodup s now E
  refine ⟨saysEntry_fields h hE hsum hnodup (statsItemFields_subset s now E), ?_, ?_, ?_⟩
  · exact field_fields hnodup (f := .longLong "expires" E.expiresAt) (by simp [listItemFields])
  · exact field_fields hnodup (f := .longLong "created" E.createdAt) (by simp [listItemFields])
  · exact field_fields hnodup (f := .longLong "updated" E.updatedAt) (by simp [listItemFields])

theorem saysEntry_statsItem (h : StoreInv s)
    (hE : E ∈ s.extSecrets) (hsum : SumFits (s.metric E.id).bytesIn (s.metric E.id).bytesOut) :
    SaysEntry s now E (statsItem s now E) :=
  saysEntry_fields h hE hsum (statsItemFields_nodup s now E) (List.Subset.refl _)

/-- A C function that reads the body reads the value. -/
theorem HoldsText.decode {B : ExtStrbuf} {v : Json} (h : HoldsText B v.print) (hplain : v.Plain) :
    Json.decode (cstr B.s) = some v := by
  obtain ⟨c, cs, hcons, -⟩ := Json.print_cons v
  have hne : v.print ≠ [] := by
    rw [hcons]
    exact List.cons_ne_nil c cs
  have hzero : (0 : UInt8) ∉ v.print :=
    fun h0 => absurd (hplain.le_of_mem_print 0 h0) (by decide)
  rw [h.cstr_eq hne hzero]
  exact Json.decode_print hplain

theorem forall₂_map_of_mem {α : Type*} {l : List α} {r : α → Json → Prop} {f : α → Json}
    (h : ∀ x ∈ l, r x (f x)) : List.Forall₂ r l (l.map f) := by
  rw [List.forall₂_map_right_iff]
  exact List.forall₂_same.mpr h

/-- A member of an object with these names. -/
theorem field_of_names {ms : List (Bytes × Json)} (names : List String)
    (hnames : ms.map Prod.fst = names.map jsonKey) (hnodup : (names.map jsonKey).Nodup)
    {k : String} {v : Json} (h : (jsonKey k, v) ∈ ms) :
    (Json.obj ms).field (jsonKey k) = some v :=
  Json.field_of_mem (hnames ▸ hnodup) h

/-- What the statistics say of the totals. -/
structure SaysTotals (s : ExtStore) (v : Json) : Prop where
  bytesIn : v.field (jsonKey "bytes_in") = some (.num s.extTotalBytesIn.toInt 0)
  bytesOut : v.field (jsonKey "bytes_out") = some (.num s.extTotalBytesOut.toInt 0)
  bytesTotal : v.field (jsonKey "bytes_total")
    = some (.num (s.extTotalBytesIn.toInt + s.extTotalBytesOut.toInt) 0)
  connections : v.field (jsonKey "connections") = some (.num s.extTotalConnections.toInt 0)

/-- The totals of the answer are those of the store. -/
theorem saysTotals_statsTotals (hsum : SumFits s.extTotalBytesIn s.extTotalBytesOut) :
    SaysTotals s (statsTotals s) := by
  have hget : ∀ k v, (jsonKey k, v) ∈ [(jsonKey "bytes_in", Json.num s.extTotalBytesIn.toInt 0),
      (jsonKey "bytes_out", .num s.extTotalBytesOut.toInt 0),
      (jsonKey "bytes_total", .num (s.extTotalBytesIn + s.extTotalBytesOut).toInt 0),
      (jsonKey "connections", .num s.extTotalConnections.toInt 0)] →
      (statsTotals s).field (jsonKey k) = some v :=
    fun k v => field_of_names ["bytes_in", "bytes_out", "bytes_total", "connections"] rfl
      (by decide +kernel)
  refine ⟨hget _ _ (by simp), hget _ _ (by simp), ?_, hget _ _ (by simp)⟩
  rw [← toInt_add_of_lt hsum.1 hsum.2]
  exact hget _ _ (by simp)

/-- **Both bodies are JSON texts of the entries in their order**, after every run of the store. -/
theorem adminBodies_decode {stateFile : Bytes} {file : Option Bytes} {es : List StoreEvent}
    {p : Process} (hrun : Runs.run Process.step (Process.start stateFile file) es = some p)
    (halloc : ∀ e ∈ es, e.AllocOk) {M : ReallocEnv} (hok : ∀ n, M.ok n = true) (now : Int64)
    (hsums : ∀ E ∈ p.store.extSecrets,
      SumFits (p.store.metric E.id).bytesIn (p.store.metric E.id).bytesOut)
    (htotal : SumFits p.store.extTotalBytesIn p.store.extTotalBytesOut) :
    (∃ B v items, extHttpAppendListJson M now p.store .empty = some B ∧
      Json.decode (cstr B.s) = some v ∧
      v.field (jsonKey "ok") = some (.bool true) ∧
      v.field (jsonKey "secrets") = some (.arr items) ∧
      List.Forall₂ (ListsEntry p.store now) p.store.extSecrets items) ∧
    (∃ B v totals secrets items, extHttpAppendStatsJson M now p.store .empty = some B ∧
      Json.decode (cstr B.s) = some v ∧
      v.field (jsonKey "ok") = some (.bool true) ∧
      v.field (jsonKey "now") = some (.num now.toInt 0) ∧
      v.field (jsonKey "totals") = some totals ∧ SaysTotals p.store totals ∧
      v.field (jsonKey "secrets") = some secrets ∧
      secrets.field (jsonKey "total") = some (.num p.store.extSecrets.length 0) ∧
      secrets.field (jsonKey "active")
        = some (.num (p.store.extSecrets.countP (extIsActiveLocked · now)) 0) ∧
      secrets.field (jsonKey "items") = some (.arr items) ∧
      List.Forall₂ (SaysEntry p.store now) p.store.extSecrets items) := by
  have hinv := storeInv_of_run halloc hrun
  have hprints := hinv.printsAll
  constructor
  · obtain ⟨B, hB, hholds⟩ := extHttpAppendListJson_eq hok hprints now
    have hnodup : (["ok", "secrets"].map jsonKey).Nodup := by decide +kernel
    refine ⟨B, listBody p.store now, p.store.extSecrets.map (listItem p.store now), hB,
      hholds.decode (listBody_plain hprints now), ?_, ?_, ?_⟩
    · exact field_of_names ["ok", "secrets"] rfl hnodup (by simp)
    · exact field_of_names ["ok", "secrets"] rfl hnodup (by simp)
    · exact forall₂_map_of_mem (fun E hE => listsEntry_listItem hinv hE (hsums E hE))
  · obtain ⟨B, hB, hholds⟩ := extHttpAppendStatsJson_eq hok hprints now
    have hnodup : (["ok", "now", "totals", "secrets"].map jsonKey).Nodup := by decide +kernel
    have hnodup' : (["total", "active", "items"].map jsonKey).Nodup := by decide +kernel
    refine ⟨B, statsBody p.store now, statsTotals p.store, statsSecrets p.store now,
      p.store.extSecrets.map (statsItem p.store now), hB,
      hholds.decode (statsBody_plain hprints now), ?_, ?_, ?_, saysTotals_statsTotals htotal, ?_,
      ?_, ?_, ?_, ?_⟩
    · exact field_of_names ["ok", "now", "totals", "secrets"] rfl hnodup (by simp)
    · exact field_of_names ["ok", "now", "totals", "secrets"] rfl hnodup (by simp)
    · exact field_of_names ["ok", "now", "totals", "secrets"] rfl hnodup (by simp)
    · exact field_of_names ["ok", "now", "totals", "secrets"] rfl hnodup (by simp)
    · exact field_of_names ["total", "active", "items"] rfl hnodup' (by simp [ExtStore.extSecretCnt])
    · exact field_of_names ["total", "active", "items"] rfl hnodup'
        (by simp [tcpRpcsActiveSecretCount])
    · exact field_of_names ["total", "active", "items"] rfl hnodup' (by simp)
    · exact forall₂_map_of_mem (fun E hE => saysEntry_statsItem hinv hE (hsums E hE))

/-- The secrets of `sampleEvents`, and a connection that has used the first of them. -/
def adminSample : List StoreEvent :=
  sampleEvents ++
    [.handshake 0 true ⟨5, by decide⟩, .accept 0 0 ⟨5, by decide⟩ ⟨2130706433, [], none⟩,
      .traffic 0 100 200]

theorem adminBodies_decode_adminSample :
    ∃ p B v items, Runs.run Process.step (Process.start [115] none) adminSample = some p ∧
      p.store.extSecrets.length = 2 ∧
      extHttpAppendListJson ⟨fun _ => true, fun _ => 1⟩ 7 p.store .empty = some B ∧
      Json.decode (cstr B.s) = some v ∧ v.field (jsonKey "secrets") = some (.arr items) ∧
      List.Forall₂ (ListsEntry p.store 7) p.store.extSecrets items := by
  have hsome : ((Runs.run Process.step (Process.start [115] none) adminSample).map
      (fun p => (p.store.extSecrets.length,
        p.store.extSecrets.map (fun E => ((p.store.metric E.id).bytesIn.toInt,
          (p.store.metric E.id).bytesOut.toInt)),
        p.store.extTotalBytesIn.toInt, p.store.extTotalBytesOut.toInt)))
      = some (2, [(100, 200), (0, 0)], 100, 200) := by
    decide +kernel
  obtain ⟨p, hp, hvalues⟩ := Option.map_eq_some_iff.mp hsome
  simp only [Prod.mk.injEq] at hvalues
  obtain ⟨hlen, hmetrics, hin, hout⟩ := hvalues
  have halloc : ∀ e ∈ adminSample, e.AllocOk := by
    intro e he
    simp only [adminSample, sampleEvents, List.cons_append, List.nil_append, List.mem_cons,
      List.not_mem_nil, or_false] at he
    rcases he with rfl | rfl | rfl | rfl | rfl | rfl
    · trivial
    · exact fun _ => ⟨rfl, rfl⟩
    · trivial
    · trivial
    · trivial
    · trivial
  have hsums : ∀ E ∈ p.store.extSecrets,
      SumFits (p.store.metric E.id).bytesIn (p.store.metric E.id).bytesOut := by
    intro E hE
    have hmem := List.mem_map_of_mem (f := fun E => ((p.store.metric E.id).bytesIn.toInt,
      (p.store.metric E.id).bytesOut.toInt)) hE
    rw [hmetrics] at hmem
    simp only [List.mem_cons, List.not_mem_nil, or_false, Prod.mk.injEq] at hmem
    unfold SumFits
    omega
  have htotal : SumFits p.store.extTotalBytesIn p.store.extTotalBytesOut := by
    unfold SumFits
    omega
  obtain ⟨⟨B, v, items, hB, hv, -, hsecrets, hitems⟩, -⟩ :=
    adminBodies_decode (M := ⟨fun _ => true, fun _ => 1⟩) hp halloc (fun _ => rfl) 7 hsums htotal
  exact ⟨p, B, v, items, hp, hlen, hB, hv, hsecrets, hitems⟩

/-- A secret that is added with an expiry. -/
def addExpiring (expiresAt : Int64) : Option Process :=
  Runs.run Process.step (Process.start [115] none)
    [.admin OpEnv.healthy (.add (List.replicate 32 48) [120] expiresAt 1)]

/-- The statistics of that secret. -/
def statsText (expiresAt : Int64) : Option Bytes :=
  (addExpiring expiresAt).bind (fun p =>
    (extHttpAppendStatsJson ⟨fun _ => true, fun _ => 1⟩ 2 p.store .empty).map (·.s))

/-- **The statistics say nothing of the expiries**: no function of the body has them. -/
theorem statsBody_noExpiry :
    ¬ ∃ expiriesOf : Bytes → List Int64, ∀ es p,
      Runs.run Process.step (Process.start [115] none) es = some p →
      (∀ e ∈ es, e.AllocOk) →
      (∀ E ∈ p.store.extSecrets,
        SumFits (p.store.metric E.id).bytesIn (p.store.metric E.id).bytesOut) →
      SumFits p.store.extTotalBytesIn p.store.extTotalBytesOut →
      ∀ B, extHttpAppendStatsJson ⟨fun _ => true, fun _ => 1⟩ 2 p.store .empty = some B →
      expiriesOf (cstr B.s) = p.store.extSecrets.map (·.expiresAt) := by
  rintro ⟨expiriesOf, hall⟩
  have hread : ∀ expiresAt text, statsText expiresAt = some text →
      (addExpiring expiresAt).map (fun p => (p.store.extSecrets.map (fun E => (E.expiresAt,
        (p.store.metric E.id).bytesIn.toInt, (p.store.metric E.id).bytesOut.toInt)),
        p.store.extTotalBytesIn.toInt, p.store.extTotalBytesOut.toInt))
        = some ([(expiresAt, 0, 0)], 0, 0) →
      expiriesOf (cstr text) = [expiresAt] := by
    intro expiresAt text htext hvalues
    obtain ⟨p, hp, hvalues⟩ := Option.map_eq_some_iff.mp hvalues
    unfold statsText at htext
    rw [hp, Option.bind_some] at htext
    obtain ⟨B, hB, rfl⟩ := Option.map_eq_some_iff.mp htext
    simp only [Prod.mk.injEq] at hvalues
    obtain ⟨hentries, hin, hout⟩ := hvalues
    obtain ⟨E, hE, hentry⟩ := List.map_eq_singleton_iff.mp hentries
    simp only [Prod.mk.injEq] at hentry
    obtain ⟨hexpires, hbytesIn, hbytesOut⟩ := hentry
    rw [hall _ p hp (by simp [StoreEvent.AllocOk]) ?_ ?_ B hB, hE, List.map_singleton, hexpires]
    · intro F hF
      rw [hE, List.mem_singleton] at hF
      subst hF
      unfold SumFits
      omega
    · unfold SumFits
      omega
  -- the two bodies are one text
  have hsame : (statsText 10).isSome = true ∧ statsText 10 = statsText 20 := by decide +kernel
  obtain ⟨text, htext⟩ := Option.isSome_iff_exists.mp hsame.1
  have hten := hread 10 text htext (by decide +kernel)
  have htwenty := hread 20 text (hsame.2 ▸ htext) (by decide +kernel)
  exact absurd (hten.symm.trans htwenty) (by decide)

end MtprotoProxy
