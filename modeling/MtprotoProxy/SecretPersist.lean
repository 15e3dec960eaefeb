/-
# Writing the state file

`ext_persist_locked` of `net/net-tcp-rpc-ext-server.c`, with the outcome of every
library call it makes as an input (`PersistIo`): the directories, the temporary file,
each `fprintf`, `fflush`, `fsync`, `fclose`, `rename`.

The state file is `Option Bytes` (`none`: it does not exist).  The temporary file is a
stdio stream: `written` has reached the file, `pending` is still in the buffer.  A
failing write keeps only a prefix of its text.
-/
import MtprotoProxy.SecretStore

namespace MtprotoProxy

open CLib

/-! ## Serialization -/

/-- `"v3"`. -/
def v3Tag : Bytes := [118, 51]

/-- Columns joined by tabs and closed by a newline. -/
def tsvLine (cols : List Bytes) : Bytes := [9].intercalate cols ++ [10]

/-- The columns of the header line. -/
def headerCols (s : ExtStore) : List Bytes :=
  [v3Tag, fmtInt s.extTotalBytesIn.toInt, fmtInt s.extTotalBytesOut.toInt,
    fmtInt s.extTotalConnections.toInt, fmtInt s.extSecretNextId]

/-- The counters `ext_persist_locked` prints for an entry. -/
def persistedMetric (s : ExtStore) (id : ℤ) : ExtSecretMetric :=
  if 0 < id ∧ id < s.extSecretMetricsCap then s.metric id else ExtSecretMetric.zero

/-- The twelve columns of an entry's line. -/
def entryCols (s : ExtStore) (E : ExtSecretEntry) : List Bytes :=
  let M := persistedMetric s E.id
  [E.hex, fmtInt E.enabled, fmtInt E.expiresAt.toInt, fmtInt E.createdAt.toInt,
    fmtInt E.updatedAt.toInt, fmtInt E.id, fmtInt M.bytesIn.toInt, fmtInt M.bytesOut.toInt,
    fmtInt M.connections.toInt, fmtInt E.lastSeenAt.toInt, E.lastIp, E.label]

/-- The texts of the `fprintf` calls, in order: the header, then one line an entry. -/
def persistTexts (s : ExtStore) : List Bytes :=
  tsvLine (headerCols s) :: s.extSecrets.map (fun E => tsvLine (entryCols s E))

/-- The complete serialization of the store. -/
def serialize (s : ExtStore) : Bytes := (persistTexts s).flatten

/-! ## The library calls -/

/-- The outcome of a call that writes: all of it, or a failure that keeps a prefix. -/
inductive WriteOutcome : Type where
  | ok : WriteOutcome
  | fail (kept : ℕ) : WriteOutcome
  deriving DecidableEq

/-- How many of `n` bytes a writing call passes on. -/
def WriteOutcome.keeps : WriteOutcome → ℕ → ℕ
  | .ok, n => n
  | .fail kept, n => min kept n

/-- The outcomes of the library calls of one run of `ext_persist_locked`. -/
structure PersistIo where
  mkdir : Bytes → Bool
  mkstemp : Bool
  fdopen : Bool
  fprintf : ℕ → WriteOutcome
  fflush : WriteOutcome
  fsync : Bool
  fclose : WriteOutcome
  rename : Bool

/-- Every call succeeds. -/
def PersistIo.allOk : PersistIo where
  mkdir := fun _ => true
  mkstemp := true
  fdopen := true
  fprintf := fun _ => .ok
  fflush := .ok
  fsync := true
  fclose := .ok
  rename := true

/-- The temporary file behind a stdio stream. -/
structure Stream where
  written : Bytes
  pending : Bytes

namespace Stream

/-- `fprintf`. -/
def fprintf (f : Stream) (o : WriteOutcome) (text : Bytes) : Stream :=
  { f with pending := f.pending ++ text.take (o.keeps text.length) }

/-- `fflush`: what a failure leaves stays in the buffer. -/
def fflush (f : Stream) (o : WriteOutcome) : Stream where
  written := f.written ++ f.pending.take (o.keeps f.pending.length)
  pending := f.pending.drop (o.keeps f.pending.length)

/-- `fclose`: the file's contents afterwards; what a failure leaves is lost. -/
def fclose (f : Stream) (o : WriteOutcome) : Bytes :=
  f.written ++ f.pending.take (o.keeps f.pending.length)

/-- The `fprintf` calls, numbered from `i`. -/
def fprintfAll (io : PersistIo) : ℕ → List Bytes → Stream → Stream
  | _, [], f => f
  | i, text :: texts, f => fprintfAll io (i + 1) texts (f.fprintf (io.fprintf i) text)

end Stream

/-- `PATH_MAX`. -/
def pathMax : ℕ := 4096

/-- The directories `ext_mkdirs_for_file` creates: the prefixes before each `/` past the
first character. -/
def parentDirs (path : Bytes) : List Bytes :=
  ((List.range path.length).filter (fun i => 0 < i && byteAt path i == 47)).map path.take

/-- `ext_mkdirs_for_file`; `mkdir` tells whether a directory is there after the call. -/
def extMkdirsForFile (mkdir : Bytes → Bool) (path : Bytes) : ℤ :=
  if path = [] then 0
  else if pathMax ≤ path.length then -1
  else if (parentDirs path).all mkdir then 0
  else -1

/-- The bytes in the temporary file when `rename` is called. -/
def tmpContents (io : PersistIo) (s : ExtStore) : Bytes :=
  ((Stream.fprintfAll io 0 (persistTexts s) ⟨[], []⟩).fflush io.fflush).fclose io.fclose

/-- `ext_persist_locked`: the return value and the state file afterwards.  The results
of `fprintf`, `fflush`, `fsync` and `fclose` are not looked at. -/
def extPersistLocked (io : PersistIo) (s : ExtStore) (file : Option Bytes) : ℤ × Option Bytes :=
  if s.extSecretStateFile = [] then (0, file)
  else if extMkdirsForFile io.mkdir s.extSecretStateFile < 0 then (-1, file)
  else if pathMax ≤ s.extSecretStateFile.length + 10 then (-1, file)
  else if io.mkstemp = false then (-1, file)
  else if io.fdopen = false then (-1, file)
  else if io.rename = false then (-1, file)
  else (0, some (tmpContents io s))

/-! ## What a run can do -/

/-- A checked step before the first `fprintf` fails. -/
def PersistIo.SetupFails (io : PersistIo) (s : ExtStore) : Prop :=
  extMkdirsForFile io.mkdir s.extSecretStateFile < 0 ∨
    pathMax ≤ s.extSecretStateFile.length + 10 ∨ io.mkstemp = false ∨ io.fdopen = false

instance (io : PersistIo) (s : ExtStore) : Decidable (io.SetupFails s) := by
  unfold PersistIo.SetupFails
  infer_instance

/-- A checked call of a run fails: the run returns `-1`. -/
def PersistIo.Fails (io : PersistIo) (s : ExtStore) : Prop :=
  s.extSecretStateFile ≠ [] ∧ (io.SetupFails s ∨ io.rename = false)

instance (io : PersistIo) (s : ExtStore) : Decidable (io.Fails s) := by
  unfold PersistIo.Fails
  infer_instance

/-- **The three ends of a run**: no state file is configured; a checked call fails and
the file stays; or the temporary file, whatever reached it, takes its place. -/
theorem extPersistLocked_cases (io : PersistIo) (s : ExtStore) (file : Option Bytes) :
    (s.extSecretStateFile = [] ∧ extPersistLocked io s file = (0, file)) ∨
      (io.Fails s ∧ extPersistLocked io s file = (-1, file)) ∨
      (s.extSecretStateFile ≠ [] ∧ ¬ io.Fails s ∧
        extPersistLocked io s file = (0, some (tmpContents io s))) := by
  unfold extPersistLocked PersistIo.Fails PersistIo.SetupFails
  by_cases hpath : s.extSecretStateFile = []
  · exact Or.inl ⟨hpath, if_pos hpath⟩
  · right
    rw [if_neg hpath]
    by_cases hmk : extMkdirsForFile io.mkdir s.extSecretStateFile < 0
    · exact Or.inl ⟨⟨hpath, Or.inl (Or.inl hmk)⟩, if_pos hmk⟩
    rw [if_neg hmk]
    by_cases hlen : pathMax ≤ s.extSecretStateFile.length + 10
    · exact Or.inl ⟨⟨hpath, Or.inl (Or.inr (Or.inl hlen))⟩, if_pos hlen⟩
    rw [if_neg hlen]
    by_cases hst : io.mkstemp = false
    · exact Or.inl ⟨⟨hpath, Or.inl (Or.inr (Or.inr (Or.inl hst)))⟩, if_pos hst⟩
    rw [if_neg hst]
    by_cases hfd : io.fdopen = false
    · exact Or.inl ⟨⟨hpath, Or.inl (Or.inr (Or.inr (Or.inr hfd)))⟩, if_pos hfd⟩
    rw [if_neg hfd]
    by_cases hren : io.rename = false
    · exact Or.inl ⟨⟨hpath, Or.inr hren⟩, if_pos hren⟩
    · refine Or.inr ⟨hpath, ?_, if_neg hren⟩
      rintro ⟨-, (h | h | h | h) | h⟩
      · exact hmk h
      · exact hlen h
      · exact hst h
      · exact hfd h
      · exact hren h

/-- The return value is negative exactly when a checked call fails. -/
theorem extPersistLocked_neg_iff (io : PersistIo) (s : ExtStore) (file : Option Bytes) :
    (extPersistLocked io s file).1 < 0 ↔ io.Fails s := by
  rcases extPersistLocked_cases io s file with ⟨hpath, h⟩ | ⟨hf, h⟩ | ⟨-, hnf, h⟩
  · rw [h]
    simp [PersistIo.Fails, hpath]
  · rw [h]
    simp [hf]
  · rw [h]
    simp [hnf]

/-- Whether a run fails depends on the store only through the file's path. -/
theorem PersistIo.fails_congr (io : PersistIo) {s t : ExtStore}
    (h : s.extSecretStateFile = t.extSecretStateFile) : io.Fails s ↔ io.Fails t := by
  unfold PersistIo.Fails PersistIo.SetupFails
  rw [h]

/-! ## What reaches the temporary file -/

/-- Every `fprintf` of the texts from number `i` on keeps its whole text. -/
def FprintfKeeps (io : PersistIo) : ℕ → List Bytes → Prop
  | _, [] => True
  | i, text :: texts =>
    (io.fprintf i).keeps text.length = text.length ∧ FprintfKeeps io (i + 1) texts

theorem WriteOutcome.keeps_le (o : WriteOutcome) (n : ℕ) : o.keeps n ≤ n := by
  cases o with
  | ok => exact le_rfl
  | fail kept => exact min_le_right kept n

/-- The buffer never holds more than was printed. -/
theorem length_fprintfAll_le (io : PersistIo) :
    ∀ (texts : List Bytes) (i : ℕ) (f : Stream),
      (Stream.fprintfAll io i texts f).pending.length ≤
        f.pending.length + texts.flatten.length := by
  intro texts
  induction texts with
  | nil => intro i f; simp [Stream.fprintfAll]
  | cons text texts ih =>
    intro i f
    rw [Stream.fprintfAll]
    have hih := ih (i + 1) (f.fprintf (io.fprintf i) text)
    have hk := (io.fprintf i).keeps_le text.length
    simp only [Stream.fprintf, List.length_append, List.length_take, List.flatten_cons]
      at hih ⊢
    omega

@[simp] theorem written_fprintfAll (io : PersistIo) :
    ∀ (texts : List Bytes) (i : ℕ) (f : Stream),
      (Stream.fprintfAll io i texts f).written = f.written := by
  intro texts
  induction texts with
  | nil => intro i f; rfl
  | cons text texts ih =>
    intro i f
    rw [Stream.fprintfAll, ih]
    rfl

/-- When nothing is cut the buffer holds all the texts. -/
theorem pending_fprintfAll (io : PersistIo) :
    ∀ (texts : List Bytes) (i : ℕ) (f : Stream), FprintfKeeps io i texts →
      (Stream.fprintfAll io i texts f).pending = f.pending ++ texts.flatten := by
  intro texts
  induction texts with
  | nil => intro i f _; simp [Stream.fprintfAll]
  | cons text texts ih =>
    intro i f hk
    obtain ⟨hk₁, hk₂⟩ := hk
    rw [Stream.fprintfAll, ih (i + 1) _ hk₂]
    simp [Stream.fprintf, hk₁]

/-- When something is cut the buffer is shorter than the texts. -/
theorem length_fprintfAll_lt (io : PersistIo) :
    ∀ (texts : List Bytes) (i : ℕ) (f : Stream), ¬ FprintfKeeps io i texts →
      (Stream.fprintfAll io i texts f).pending.length <
        f.pending.length + texts.flatten.length := by
  intro texts
  induction texts with
  | nil => intro i f hk; exact absurd trivial hk
  | cons text texts ih =>
    intro i f hk
    rw [Stream.fprintfAll]
    by_cases hk₁ : (io.fprintf i).keeps text.length = text.length
    · have hk₂ : ¬ FprintfKeeps io (i + 1) texts := fun h => hk ⟨hk₁, h⟩
      have hih := ih (i + 1) (f.fprintf (io.fprintf i) text) hk₂
      simp only [Stream.fprintf, List.length_append, List.length_take, List.flatten_cons]
        at hih ⊢
      omega
    · have hlt : (io.fprintf i).keeps text.length < text.length :=
        lt_of_le_of_ne ((io.fprintf i).keeps_le _) hk₁
      have hle := length_fprintfAll_le io texts (i + 1) (f.fprintf (io.fprintf i) text)
      simp only [Stream.fprintf, List.length_append, List.length_take, List.flatten_cons]
        at hle ⊢
      omega

/-- No byte of the serialization is lost on its way to the file: every `fprintf` keeps
its text, and `fclose` writes what `fflush` left in the buffer. -/
def PersistIo.LosesNothing (io : PersistIo) (s : ExtStore) : Prop :=
  FprintfKeeps io 0 (persistTexts s) ∧
    let left := (serialize s).length - io.fflush.keeps (serialize s).length
    io.fclose.keeps left = left

/-- **The temporary file is complete exactly when nothing was lost.** -/
theorem tmpContents_eq_serialize_iff (io : PersistIo) (s : ExtStore) :
    tmpContents io s = serialize s ↔ io.LosesNothing s := by
  unfold tmpContents PersistIo.LosesNothing
  set f := Stream.fprintfAll io 0 (persistTexts s) ⟨[], []⟩ with hf
  have hwritten : f.written = [] := written_fprintfAll io _ _ _
  by_cases hk : FprintfKeeps io 0 (persistTexts s)
  · have hpend : f.pending = serialize s := by
      rw [hf, pending_fprintfAll io _ _ _ hk]
      rfl
    have hflush := io.fflush.keeps_le (serialize s).length
    have hclose := io.fclose.keeps_le
      ((serialize s).length - io.fflush.keeps (serialize s).length)
    simp only [Stream.fclose, Stream.fflush, hwritten, hpend, List.nil_append,
      List.length_drop, hk, true_and]
    constructor
    · intro h
      have hlen := congrArg List.length h
      simp only [List.length_append, List.length_take, List.length_drop] at hlen
      omega
    · intro h
      rw [h, List.take_of_length_le (l := List.drop _ _) (by rw [List.length_drop]),
        List.take_append_drop]
  · have hlt := length_fprintfAll_lt io (persistTexts s) 0 ⟨[], []⟩ hk
    rw [← hf] at hlt
    simp only [hk, false_and, iff_false]
    intro h
    have hlen := congrArg List.length h
    have hser : (serialize s).length = (persistTexts s).flatten.length := rfl
    simp only [Stream.fclose, Stream.fflush, hwritten, List.nil_append, List.length_append,
      List.length_take, List.length_drop, List.length_nil] at hlen hlt
    omega

theorem fprintfKeeps_allOk : ∀ (texts : List Bytes) (i : ℕ),
    FprintfKeeps PersistIo.allOk i texts
  | [], _ => trivial
  | _ :: texts, i => ⟨rfl, fprintfKeeps_allOk texts (i + 1)⟩

/-- With a healthy disk the file is the serialization. -/
theorem tmpContents_allOk (s : ExtStore) : tmpContents PersistIo.allOk s = serialize s :=
  (tmpContents_eq_serialize_iff PersistIo.allOk s).mpr ⟨fprintfKeeps_allOk _ _, rfl⟩

end MtprotoProxy
