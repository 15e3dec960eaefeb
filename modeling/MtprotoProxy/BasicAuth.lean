/-
# Credentials of the bot interface

`parse_basic_auth` of `scripts/proxybot-httpd`, and the comparison of strings it is used
with.  A `str` is the list of its characters; what `base64.b64decode` and
`bytes.decode` raise is `none`.

`hmac.compare_digest` raises an exception for strings that are not ASCII, also when they
differ (`compareDigest_eq_none`).
-/
import MtprotoProxy.CString

namespace MtprotoProxy

/-- A Python `str`. -/
abbrev PyStr : Type := List Char

/-- The characters that `str.strip` takes off. -/
def isPySpace (c : Char) : Bool :=
  (9 ≤ c.toNat && c.toNat ≤ 13) || (28 ≤ c.toNat && c.toNat ≤ 32)
    || (8192 ≤ c.toNat && c.toNat ≤ 8202)
    || [133, 160, 5760, 8232, 8233, 8239, 8287, 12288].contains c.toNat

/-- `str.strip`. -/
def pyStrip (s : PyStr) : PyStr := (s.dropWhile isPySpace).rdropWhile isPySpace

/-- `str.isascii`. -/
def isAsciiStr (s : PyStr) : Bool := s.all (fun c => c.toNat < 128)

/-- The value of a base64 digit. -/
def b64Value (c : Char) : Option ℕ :=
  let n := c.toNat
  if 65 ≤ n ∧ n ≤ 90 then some (n - 65)
  else if 97 ≤ n ∧ n ≤ 122 then some (n - 71)
  else if 48 ≤ n ∧ n ≤ 57 then some (n + 4)
  else if n = 43 then some 62
  else if n = 47 then some 63
  else none

/-- The loop of `binascii.a2b_base64`, which is not strict: the place in the group of four
digits, the padding characters seen in it, and the bits left over.  Other characters are
skipped, and enough padding ends the text. -/
def b64Loop : PyStr → ℕ → ℕ → ℕ → Option (List UInt8)
  | [], quadPos, _, _ => if quadPos = 0 then some [] else none
  | c :: s, quadPos, pads, leftchar =>
    if c = '=' then
      if 2 ≤ quadPos then
        if 4 ≤ quadPos + (pads + 1) then some [] else b64Loop s quadPos (pads + 1) leftchar
      else b64Loop s quadPos pads leftchar
    else
      match b64Value c with
      | none => b64Loop s quadPos pads leftchar
      | some v =>
        match quadPos with
        | 0 => b64Loop s 1 0 v
        | 1 => (b64Loop s 2 0 (v &&& 15)).map (UInt8.ofNat (leftchar <<< 2 ||| v >>> 4) :: ·)
        | 2 => (b64Loop s 3 0 (v &&& 3)).map (UInt8.ofNat (leftchar <<< 4 ||| v >>> 2) :: ·)
        | _ => (b64Loop s 0 0 0).map (UInt8.ofNat (leftchar <<< 6 ||| v) :: ·)

/-- `base64.b64decode` of a `str`. -/
def b64decode (s : PyStr) : Option (List UInt8) :=
  if isAsciiStr s then b64Loop s 0 0 0 else none

/-- `bytes.decode ("utf-8", errors="strict")`. -/
def utf8Decode (raw : List UInt8) : Option PyStr :=
  (ByteArray.mk raw.toArray).utf8Decode?.map Array.toList

/-- `"Basic "`. -/
def basicPrefix : PyStr := ['B', 'a', 's', 'i', 'c', ' ']

/-- `raw.split (":", 1)` of a text with a colon. -/
def splitColon (raw : PyStr) : PyStr × PyStr :=
  (raw.takeWhile (· ≠ ':'), (raw.dropWhile (· ≠ ':')).drop 1)

/-- `parse_basic_auth`: user and password. -/
def parseBasicAuth (header : PyStr) : Option (PyStr × PyStr) :=
  if header = [] ∨ ¬ basicPrefix.isPrefixOf header then none
  else
    match (b64decode (pyStrip (header.drop 6))).bind utf8Decode with
    | none => none
    | some raw => if ':' ∉ raw then none else some (splitColon raw)

/-- `hmac.compare_digest` of two `str`; `none` is the `TypeError`. -/
def compareDigest (a b : PyStr) : Option Bool :=
  if isAsciiStr a ∧ isAsciiStr b then some (decide (a = b)) else none

/-- `TypeError` comes exactly with a string that is not ASCII. -/
theorem compareDigest_eq_none {a b : PyStr} :
    compareDigest a b = none ↔ ¬ (isAsciiStr a ∧ isAsciiStr b) := by
  unfold compareDigest
  split_ifs with h <;> simp [h]

/-- Otherwise the answer is equality. -/
theorem compareDigest_eq_some {a b : PyStr} {ok : Bool} :
    compareDigest a b = some ok ↔
      (isAsciiStr a ∧ isAsciiStr b) ∧ ok = decide (a = b) := by
  unfold compareDigest
  split_ifs with h
  · simp only [Option.some.injEq, h, and_self, true_and]
    exact eq_comm
  · simp [h]

/-- `Basic w6k6eA==`, that is `é:x`. -/
example : parseBasicAuth (basicPrefix ++ ['w', '6', 'k', '6', 'e', 'A', '=', '=']) =
    some (['é'], ['x']) := by decide +kernel

end MtprotoProxy
