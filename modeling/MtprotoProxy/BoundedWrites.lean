/-
# Filling a buffer of fixed size

Programs that fill a buffer from the front and give up when it is full.  `Appends` says what
such a step does: it appends certain bytes when there is room for them, and fails otherwise.
Steps one after the other append their bytes one after the other.
-/
import MtprotoProxy.CInt

namespace CLib

variable {ε : Type} {cap : ℕ} {full : ε}

/-- A step: from the bytes that are written to those that are written then. -/
abbrev Writer (ε : Type) : Type := Bytes → Except ε Bytes

/-- **The step appends these bytes** to a buffer of `cap` bytes, or fails because it is full. -/
def Appends (cap : ℕ) (full : ε) (w : Writer ε) (bs : Bytes) : Prop :=
  ∀ str : Bytes, str.length ≤ cap →
    w str = if str.length + bs.length ≤ cap then .ok (str ++ bs) else .error full

/-- One step after the other. -/
theorem Appends.bind {w w' : Writer ε} {a b : Bytes} (hw : Appends cap full w a)
    (hw' : Appends cap full w' b) : Appends cap full (fun str => w str >>= w') (a ++ b) := by
  intro str hstr
  show w str >>= w' = _
  rw [hw str hstr, List.length_append]
  by_cases ha : str.length + a.length ≤ cap
  · rw [if_pos ha]
    show w' (str ++ a) = _
    rw [hw' (str ++ a) (by rw [List.length_append]; exact ha), List.length_append,
      List.append_assoc, Nat.add_assoc]
  · rw [if_neg ha, if_neg (by omega)]
    rfl

/-- There is room. -/
theorem Appends.eq_ok {w : Writer ε} {bs str : Bytes} (hw : Appends cap full w bs)
    (hroom : str.length + bs.length ≤ cap) : w str = .ok (str ++ bs) := by
  rw [hw str (by omega), if_pos hroom]

/-- There is none. -/
theorem Appends.eq_error {w : Writer ε} {bs str : Bytes} (hw : Appends cap full w bs)
    (hstr : str.length ≤ cap) (hfull : cap < str.length + bs.length) : w str = .error full := by
  rw [hw str hstr, if_neg (by omega)]

end CLib
