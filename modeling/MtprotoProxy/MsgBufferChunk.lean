/-
# A chunk of message buffers

`net/net-msg-buffers.c`: a chunk holds buffers of one size, and `free_cnt`, a tree that counts the
free ones.  An allocation goes down the tree to a free buffer, and it has three ways to do that: the
buffer after a neighbour, the one nearest to it, or a random one among the first.

Addresses are numbers.  A function gives `none` when an assertion fails.
-/
import MtprotoProxy.CountTree
import MtprotoProxy.Runs

namespace MtprotoProxy

/-! ## The code -/

def msgBuffersChunkSize : ℕ := 2 ^ 21 - 64

/-- `offsetof (struct msg_buffers_chunk, free_cnt)`. -/
def offsetofFreeCnt : ℕ := 84

def buffHdBytes : ℕ := 16

def msgBufferFreeMagic : BitVec 32 := 0x4abdc351

def msgBufferUsedMagic : BitVec 32 := 0x72e39317

def msgChunkUsedMagic : BitVec 32 := 0x5c75e681

def msgChunkUsedLockedMagic : BitVec 32 := ~~~msgChunkUsedMagic

def msgChunkHeadMagic : BitVec 32 := 0x2dfecca3

def msgChunkHeadLockedMagic : BitVec 32 := ~~~msgChunkHeadMagic

/-- The fields of a `struct msg_buffer`; `chunk` is the address of its chunk. -/
structure MsgBufferHeader where
  chunk : ℕ
  refcnt : ℤ
  magic : BitVec 32

/-- A chunk at the address `addr`; `freeCnt` is an array of `unsigned short`. -/
structure MsgBuffersChunk where
  addr : ℕ
  magic : BitVec 32
  bufferSize : ℕ
  chHead : ℕ
  firstBuffer : ℕ
  twoPower : ℕ
  totBuffers : ℕ
  bsInverse : BitVec 32
  bsShift : ℕ
  freeBlockQueue : List ℕ
  freeCnt : ℕ → ℕ

/-- `__builtin_ctz`. -/
def ctz (n : ℕ) : ℕ := if n = 0 then 0 else if n % 2 = 1 then 0 else ctz (n / 2) + 1
termination_by n

/-- The loop of `prepare_bs_inv`.  The number bounds the rounds. -/
def bsInvLoop : ℕ → BitVec 32 → BitVec 32 → Option (BitVec 32)
  | 0, _, _ => none
  | n + 1, x, y => if x ≠ 0 then bsInvLoop n (x * x) (y * (1 + x)) else some y

/-- `prepare_bs_inv`: `bs_inverse` and `bs_shift`. -/
def prepareBsInv (bufferSize : ℕ) : Option (BitVec 32 × ℕ) := do
  let x := bufferSize + 16
  let i := ctz x
  let x := BitVec.ofNat 32 (x >>> i)
  let y ← bsInvLoop 32 (1 - x) 1
  return (y, i)

/-- `--` on an `unsigned short`. -/
def dec16 (c : ℕ) : ℕ := (c + 65535) % 65536

/-- `++` on an `unsigned short`. -/
def inc16 (c : ℕ) : ℕ := (c + 1) % 65536

/-- The loop that finds `two_power`, for `t` buffers.  The number bounds the rounds. -/
def twoPowerLoop (t : ℕ) : ℕ → ℕ → ℕ
  | 0, twoPower => twoPower
  | n + 1, twoPower => if twoPower ≤ t then twoPowerLoop t n (twoPower <<< 1) else twoPower

/-- `free_cnt` of a new chunk: the leaves, and then the `n` nodes below `two_power`. -/
def initFreeCnt (twoPower chunkBuffers : ℕ) : ℕ → ℕ :=
  ((List.range (twoPower - 1)).map (fun k => twoPower - 1 - k)).foldl
    (fun cnt i => Function.update cnt i ((cnt (2 * i) + cnt (2 * i + 1)) % 65536))
    (fun i => if twoPower ≤ i ∧ i < twoPower + chunkBuffers then 1 else 0)

/-- `align`: `buffer_hd_size & -buffer_hd_size`, from 8 to 64. -/
def chunkAlign (bufferHdSize : ℕ) : ℕ := min 64 (max 8 (2 ^ ctz bufferHdSize))

/-- `two_power`. -/
def chunkTwoPower (bufferHdSize : ℕ) : ℕ :=
  let t := (msgBuffersChunkSize - offsetofFreeCnt) / (bufferHdSize + 4)
  twoPowerLoop t 32 1

/-- `chunk_buffers`. -/
def chunkBuffers (bufferHdSize : ℕ) : ℕ :=
  (msgBuffersChunkSize - offsetofFreeCnt - chunkTwoPower bufferHdSize * 4 - chunkAlign bufferHdSize)
    / bufferHdSize

/-- **A chunk can be laid out** with buffers of this size. -/
def ChunkFits (bufferHdSize : ℕ) : Prop :=
  0 < chunkBuffers bufferHdSize ∧ chunkBuffers bufferHdSize < 65536 ∧
    chunkBuffers bufferHdSize ≤ chunkTwoPower bufferHdSize

instance (bufferHdSize : ℕ) : Decidable (ChunkFits bufferHdSize) := by
  unfold ChunkFits
  infer_instance

/-- `alloc_new_msg_buffers_chunk`, with a chunk that `malloc` puts at `addr`, for the head at
`head`.  `& -align` rounds down to a multiple of `align`. -/
def allocNewMsgBuffersChunk (addr head bufferSize : ℕ) : Option MsgBuffersChunk := do
  let bufferHdSize := bufferSize + buffHdBytes
  let align := chunkAlign bufferHdSize
  let twoPower := chunkTwoPower bufferHdSize
  let chunkBuffers := chunkBuffers bufferHdSize
  guard (ChunkFits bufferHdSize)
  let firstBuffer := (addr + offsetofFreeCnt + twoPower * 4 + align - 1) / align * align
  guard (firstBuffer + chunkBuffers * bufferHdSize ≤ addr + msgBuffersChunkSize)
  let (bsInverse, bsShift) ← prepareBsInv bufferSize
  return {
    addr := addr
    magic := msgChunkUsedLockedMagic
    bufferSize := bufferSize
    chHead := head
    firstBuffer := firstBuffer
    twoPower := twoPower
    totBuffers := chunkBuffers
    bsInverse := bsInverse
    bsShift := bsShift
    freeBlockQueue := []
    freeCnt := initFreeCnt twoPower chunkBuffers }

/-- `get_buffer_no`. -/
def MsgBuffersChunk.getBufferNo (C : MsgBuffersChunk) (X : ℕ) : Option ℕ := do
  let x := BitVec.ofInt 32 ((X : ℤ) - C.firstBuffer)
  let x := x >>> C.bsShift
  let x := x * C.bsInverse
  guard (x.toNat ≤ C.totBuffers ∧
    X = C.firstBuffer + (BitVec.ofNat 32 (C.bufferSize + 16) * x).toNat)
  return x.toNat

/-! ## The search in the tree -/

/-- `while (k > 0)`: the node `k` and those above it count one less. -/
def takeUp (cnt : ℕ → ℕ) (k : ℕ) : ℕ → ℕ :=
  if k = 0 then cnt else takeUp (Function.update cnt k (dec16 (cnt k))) (k / 2)
termination_by k

/-- The inner loop: from the node `i` down to a free buffer. -/
def takeDown (twoPower : ℕ) : ℕ → (ℕ → ℕ) → ℕ → Option (ℕ × (ℕ → ℕ))
  | 0, _, _ => none
  | n + 1, cnt, i =>
    if i < twoPower then
      let i := 2 * i
      let i := if cnt i = 0 then i + 1 else i
      takeDown twoPower n (Function.update cnt i (dec16 (cnt i))) i
    else some (i, cnt)

/-- The loop for the buffer nearest to `x`: `i`, `k` and `free_cnt` after it. -/
def nearLoop (twoPower x : ℕ) : ℕ → (ℕ → ℕ) → ℕ → ℕ → ℕ → ℕ → Option (ℕ × ℕ × (ℕ → ℕ))
  | 0, _, _, _, _, _ => none
  | n + 1, cnt, i, j, l, r =>
    if i < twoPower then
      let i := 2 * i
      let m := (l + r) / 2
      if x < m then
        if 0 < cnt i then
          nearLoop twoPower x n cnt i (if 0 < cnt (i + 1) then i + 1 else j) l m
        else nearLoop twoPower x n cnt (i + 1) j m r
      else if 0 < cnt (i + 1) then nearLoop twoPower x n cnt (i + 1) j m r
      else do
        let (i, cnt) ← takeDown twoPower (twoPower + 1) cnt j
        return (i, j, cnt)
    else some (i, 0, cnt)

/-- The buffer after the neighbour `x`, or the one nearest to it. -/
def MsgBuffersChunk.takeNear (C : MsgBuffersChunk) (x : ℕ) : Option (ℕ × (ℕ → ℕ)) :=
  if x < C.twoPower - 1 ∧ C.freeCnt (C.twoPower + x + 1) ≠ 0 then
    let i := C.twoPower + x + 1
    some (i, takeUp C.freeCnt i)
  else do
    let (i, k, cnt) ← nearLoop C.twoPower x (C.twoPower + 1) C.freeCnt 1 1 0 C.twoPower
    let k := if k = 0 then i else k
    return (i, takeUp cnt k)

/-- The loop for the free buffer `j`. -/
def randomLoop (twoPower : ℕ) : ℕ → (ℕ → ℕ) → ℕ → ℕ → Option (ℕ × (ℕ → ℕ))
  | 0, _, _, _ => none
  | n + 1, cnt, i, j =>
    if i < twoPower then
      let cnt := Function.update cnt i (dec16 (cnt i))
      let i := 2 * i
      if cnt i ≤ j then randomLoop twoPower n cnt (i + 1) (j - cnt i)
      else randomLoop twoPower n cnt i j
    else do
      guard (dec16 (cnt i) = 0)
      return (i, Function.update cnt i (dec16 (cnt i)))

/-- A random buffer; `rnd` is what `lrand48_j` gives. -/
def MsgBuffersChunk.takeRandom (C : MsgBuffersChunk) (rnd : ℕ) : Option (ℕ × (ℕ → ℕ)) := do
  let j := if C.freeCnt 1 < 16 then C.freeCnt 1 else 16
  let j := (rnd * j) >>> 31
  guard (j < C.freeCnt 1)
  randomLoop C.twoPower (C.twoPower + 1) C.freeCnt 1 j

/-- `do … while (x >>= 1)`: the node `x` and those above it count one more. -/
def giveUp (cnt : ℕ → ℕ) (x : ℕ) : Option (ℕ → ℕ) :=
  let cnt' := Function.update cnt x (inc16 (cnt x))
  if 0 < inc16 (cnt x) then
    if x / 2 = 0 then some cnt' else giveUp cnt' (x / 2)
  else none
termination_by x
decreasing_by omega

/-! ## The allocator -/

/-- A chunk, the address and the magic of the head of its chunks, and the buffer headers in the
memory. -/
structure ChunkState where
  chunk : MsgBuffersChunk
  head : ℕ
  headMagic : BitVec 32
  buffer : ℕ → MsgBufferHeader

namespace ChunkState

variable (S : ChunkState)

/-- The magic of the chunk is set. -/
def setMagic (magic : BitVec 32) : ChunkState := { S with chunk := { S.chunk with magic := magic } }

def setFreeCnt (cnt : ℕ → ℕ) : ChunkState := { S with chunk := { S.chunk with freeCnt := cnt } }

def setBuffer (X : ℕ) (B : MsgBufferHeader) : ChunkState :=
  { S with buffer := Function.update S.buffer X B }

/-- `free_std_msg_buffer`. -/
def freeStdMsgBuffer (X : ℕ) : Option ChunkState := do
  guard ((S.buffer X).refcnt = 0 ∧ (S.buffer X).magic = msgBufferUsedMagic ∧
    S.chunk.magic = msgChunkUsedLockedMagic ∧ (S.buffer X).chunk = S.chunk.addr)
  let x ← S.chunk.getBufferNo X
  let x := x + S.chunk.twoPower
  guard (S.chunk.freeCnt x = 0)
  let cnt ← giveUp S.chunk.freeCnt x
  return (S.setFreeCnt cnt).setBuffer X
    { S.buffer X with magic := msgBufferFreeMagic, refcnt := -0x40000000 }

/-- The buffers that wait in `free_block_queue` are freed. -/
def drainQueue : Option ChunkState := do
  let S' ← S.chunk.freeBlockQueue.foldlM
    (fun (S : ChunkState) X => do
      guard ((S.buffer X).chunk = S.chunk.addr)
      S.freeStdMsgBuffer X)
    S
  return { S' with chunk := { S'.chunk with freeBlockQueue := [] } }

/-- `try_lock_chunk`, and whether it succeeds. -/
def tryLockChunk : Option (ChunkState × Bool) :=
  if S.chunk.magic ≠ msgChunkUsedMagic then some (S, false)
  else do
    let S ← (S.setMagic msgChunkUsedLockedMagic).drainQueue
    return (S, true)

/-- `unlock_chunk`: with one thread the queue is empty when the lock is given back. -/
def unlockChunk : Option ChunkState := do
  let S ← S.drainQueue
  return S.setMagic msgChunkUsedMagic

/-- The node of the buffer that is taken, and `free_cnt` after it. -/
def takeBuffer (neighbor : Option ℕ) (rnd : ℕ) : Option (ℕ × (ℕ → ℕ)) :=
  match neighbor with
  | some X =>
    if (S.buffer X).chunk = S.chunk.addr then do
      let x ← S.chunk.getBufferNo X
      S.chunk.takeNear x
    else S.chunk.takeRandom rnd
  | none => S.chunk.takeRandom rnd

/-- `alloc_msg_buffer_internal`, from where the chunk is chosen and locked. -/
def allocFromChunk (neighbor : Option ℕ) (rnd : ℕ) : Option (ChunkState × ℕ) := do
  guard (S.chunk.addr ≠ S.head ∧ S.chunk.freeCnt 1 ≠ 0 ∧ S.chunk.magic = msgChunkUsedLockedMagic)
  let (i, cnt) ← S.takeBuffer neighbor rnd
  let S ← (S.setFreeCnt cnt).unlockChunk
  guard (S.chunk.twoPower ≤ i ∧ i - S.chunk.twoPower < S.chunk.totBuffers)
  let X := S.chunk.firstBuffer + (i - S.chunk.twoPower) * (S.chunk.bufferSize + 16)
  return (S.setBuffer X ⟨S.chunk.addr, 1, msgBufferUsedMagic⟩, X)

/-- `alloc_msg_buffer_internal` with the chunk as `C_hint`; without a result, the buffer comes from
another chunk. -/
def allocMsgBufferInternal (neighbor : Option ℕ) (rnd : ℕ) : Option (ChunkState × Option ℕ) := do
  guard (S.headMagic = msgChunkHeadMagic ∨ S.headMagic = msgChunkHeadLockedMagic)
  if S.chunk.freeCnt 1 = 0 then return (S, none)
  else do
    let (S, locked) ← S.tryLockChunk
    if locked = false then return (S, none)
    else do
      guard (S.chunk.chHead = S.head)
      if S.chunk.freeCnt 1 = 0 then do
        let S ← S.unlockChunk
        return (S, none)
      else do
        let (S, X) ← S.allocFromChunk neighbor rnd
        return (S, some X)

/-- `free_msg_buffer`; a second try to lock the chunk fails like the first. -/
def freeMsgBuffer (X : ℕ) : Option ChunkState := do
  guard ((S.buffer X).magic = msgBufferUsedMagic ∧ (S.buffer X).refcnt = 0)
  guard (S.chunk.magic = msgChunkUsedMagic ∨ S.chunk.magic = msgChunkUsedLockedMagic)
  let (S, locked) ← S.tryLockChunk
  if locked then do
    let S ← S.freeStdMsgBuffer X
    S.unlockChunk
  else
    return { S with
      chunk := { S.chunk with freeBlockQueue := S.chunk.freeBlockQueue ++ [X] } }

/-- `msg_buffer_decref` by the last that uses a buffer. -/
def msgBufferDecref (X : ℕ) : Option ChunkState :=
  (S.setBuffer X { S.buffer X with refcnt := 0 }).freeMsgBuffer X

end ChunkState

/-! ## The number of a buffer -/

theorem exists_odd_ctz {n : ℕ} (hn : n ≠ 0) : ∃ m, n = (2 * m + 1) * 2 ^ ctz n := by
  induction n using Nat.strong_induction_on with
  | _ n ih =>
    rw [ctz, if_neg hn]
    by_cases hodd : n % 2 = 1
    · rw [if_pos hodd]
      exact ⟨n / 2, by omega⟩
    · rw [if_neg hodd]
      obtain ⟨m, hm⟩ := ih (n / 2) (by omega) (by omega)
      refine ⟨m, ?_⟩
      rw [pow_succ, ← mul_assoc, ← hm]
      omega

/-- Every round squares `x`, which ends as a multiple of `2 ^ 32`. -/
theorem bsInvLoop_spec {n a : ℕ} (ha : 32 ≤ a * 2 ^ n) (z y o : BitVec 32)
    (hy : y * o = 1 - 2 ^ a * z) :
    ∃ y', bsInvLoop (n + 1) (2 ^ a * z) y = some y' ∧ y' * o = 1 := by
  induction n generalizing a z y with
  | zero =>
    have hzero : (2 : BitVec 32) ^ a * z = 0 := by
      have hpow : (2 : BitVec 32) ^ 32 = 0 := by decide
      obtain ⟨b, rfl⟩ : ∃ b, a = 32 + b := ⟨a - 32, by omega⟩
      rw [pow_add, hpow, zero_mul, zero_mul]
    refine ⟨y, ?_, ?_⟩
    · rw [hzero]
      rfl
    · rw [hy, hzero, sub_zero]
  | succ n ih =>
    rw [bsInvLoop]
    by_cases hzero : (2 : BitVec 32) ^ a * z = 0
    · rw [if_neg (not_not.mpr hzero)]
      exact ⟨y, rfl, by rw [hy, hzero, sub_zero]⟩
    · have hsquare : (2 : BitVec 32) ^ a * z * (2 ^ a * z) = 2 ^ (2 * a) * (z * z) := by ring
      rw [if_pos hzero, hsquare]
      apply ih
      · rw [pow_succ] at ha
        linarith
      · linear_combination (1 + 2 ^ a * z) * hy

/-- **`prepare_bs_inv`** finds the inverse of the odd part of the size. -/
theorem prepareBsInv_spec (bufferSize : ℕ) :
    ∃ y o, prepareBsInv bufferSize = some (y, ctz (bufferSize + 16)) ∧
      bufferSize + 16 = o * 2 ^ ctz (bufferSize + 16) ∧ y * BitVec.ofNat 32 o = 1 := by
  obtain ⟨m, hm⟩ := exists_odd_ctz (Nat.succ_ne_zero (bufferSize + 15))
  change bufferSize + 16 = (2 * m + 1) * 2 ^ ctz (bufferSize + 16) at hm
  have hodd : (bufferSize + 16) >>> ctz (bufferSize + 16) = 2 * m + 1 := by
    rw [Nat.shiftRight_eq_div_pow]
    exact Nat.div_eq_of_eq_mul_left (Nat.two_pow_pos _) hm
  have hx : 1 - BitVec.ofNat 32 (2 * m + 1) = 2 ^ 1 * -BitVec.ofNat 32 m := by
    have hcast : BitVec.ofNat 32 (2 * m + 1) = 2 * BitVec.ofNat 32 m + 1 := by
      rw [BitVec.ofNat_add, BitVec.ofNat_mul]
      rfl
    rw [hcast]
    ring
  obtain ⟨y, hrun, hinv⟩ := bsInvLoop_spec (n := 31) (a := 1) (by norm_num)
    (-BitVec.ofNat 32 m) 1 (BitVec.ofNat 32 (2 * m + 1)) (by rw [← hx]; ring)
  refine ⟨y, 2 * m + 1, ?_, hm, hinv⟩
  unfold prepareBsInv
  simp only [hodd, hx, hrun, some_bind, Option.pure_def]

/-- The address of the buffer `t`. -/
def MsgBuffersChunk.bufferAt (C : MsgBuffersChunk) (t : ℕ) : ℕ :=
  C.firstBuffer + t * (C.bufferSize + 16)

theorem MsgBuffersChunk.bufferAt_injective (C : MsgBuffersChunk) :
    Function.Injective C.bufferAt := by
  intro t t' h
  unfold bufferAt at h
  exact Nat.eq_of_mul_eq_mul_right (Nat.succ_pos _) (Nat.add_left_cancel h)

/-- **`get_buffer_no`** gives the number of every buffer. -/
theorem MsgBuffersChunk.getBufferNo_bufferAt {C : MsgBuffersChunk}
    (hinv : prepareBsInv C.bufferSize = some (C.bsInverse, C.bsShift)) {t : ℕ}
    (ht : t ≤ C.totBuffers) (hsize : t * (C.bufferSize + 16) < 2 ^ 32) :
    C.getBufferNo (C.bufferAt t) = some t := by
  obtain ⟨y, o, hrun, ho, hone⟩ := prepareBsInv_spec C.bufferSize
  obtain ⟨rfl, hshift⟩ := Prod.mk.inj (Option.some.inj (hinv.symm.trans hrun))
  rw [← hshift] at ho
  have hdist : BitVec.ofInt 32 ((C.bufferAt t : ℤ) - C.firstBuffer)
      = BitVec.ofNat 32 (t * o * 2 ^ C.bsShift) := by
    unfold bufferAt
    rw [mul_assoc, ← ho, ← BitVec.ofInt_natCast]
    congr 1
    push_cast
    ring
  have hfit : t * o * 2 ^ C.bsShift < 2 ^ 32 := by
    rwa [mul_assoc, ← ho]
  have hquot : BitVec.ofNat 32 (t * o * 2 ^ C.bsShift) >>> C.bsShift = BitVec.ofNat 32 (t * o) := by
    apply BitVec.eq_of_toNat_eq
    have hle : t * o ≤ t * o * 2 ^ C.bsShift := Nat.le_mul_of_pos_right _ (Nat.two_pow_pos _)
    rw [BitVec.toNat_ushiftRight, BitVec.toNat_ofNat, BitVec.toNat_ofNat, Nat.mod_eq_of_lt hfit,
      Nat.mod_eq_of_lt (hle.trans_lt hfit), Nat.shiftRight_eq_div_pow,
      Nat.mul_div_cancel _ (Nat.two_pow_pos _)]
  have hno : BitVec.ofNat 32 (t * o) * C.bsInverse = BitVec.ofNat 32 t := by
    rw [BitVec.ofNat_mul]
    linear_combination BitVec.ofNat 32 t * hone
  have hlt : t < 2 ^ 32 := by
    have hle : t ≤ t * (C.bufferSize + 16) := Nat.le_mul_of_pos_right _ (Nat.succ_pos _)
    omega
  have hback : (BitVec.ofNat 32 (C.bufferSize + 16) * BitVec.ofNat 32 t).toNat
      = t * (C.bufferSize + 16) := by
    rw [← BitVec.ofNat_mul, BitVec.toNat_ofNat, mul_comm, Nat.mod_eq_of_lt hsize]
  have htoNat : (BitVec.ofNat 32 t).toNat = t := by
    rw [BitVec.toNat_ofNat, Nat.mod_eq_of_lt hlt]
  unfold getBufferNo
  simp only [hdist, hquot, hno, hback, htoNat]
  rw [guard, if_pos ⟨ht, rfl⟩]
  rfl

/-! ## A new chunk -/

theorem twoPowerLoop_spec (t fuel : ℕ) {a : ℕ} (ha : ∃ d, a = 2 ^ d) :
    ∃ d, twoPowerLoop t fuel a = 2 ^ d := by
  induction fuel generalizing a with
  | zero => exact ha
  | succ fuel ih =>
    obtain ⟨d, rfl⟩ := ha
    rw [twoPowerLoop]
    by_cases hle : 2 ^ d ≤ t
    · rw [if_pos hle]
      exact ih ⟨d + 1, by rw [Nat.shiftLeft_eq, pow_one, pow_succ]⟩
    · rw [if_neg hle]
      exact ⟨d, rfl⟩

/-- **The tree of a new chunk** counts the leaves that are buffers. -/
theorem initFreeCnt_eq {n m : ℕ} (hm : m ≤ n) (hm' : m < 65536) {i : ℕ} (hi : 0 < i)
    (hin : i < 2 * n) : initFreeCnt n m i = CountTree.leavesBelow n m i := by
  have hfold : ∀ k ≤ n - 1, ∀ i, n - 1 - k < i → i < 2 * n →
      ((List.range k).map (fun k => n - 1 - k)).foldl
        (fun cnt i => Function.update cnt i ((cnt (2 * i) + cnt (2 * i + 1)) % 65536))
        (fun i => if n ≤ i ∧ i < n + m then 1 else 0) i = CountTree.leavesBelow n m i := by
    intro k hk
    induction k with
    | zero =>
      intro i hlo hhi
      obtain ⟨t, rfl⟩ : ∃ t, i = n + t := ⟨i - n, by omega⟩
      rw [CountTree.leavesBelow_leaf (by omega) hm]
      show (if n ≤ n + t ∧ n + t < n + m then 1 else 0) = _
      by_cases ht : t < m
      · rw [if_pos ht, if_pos ⟨by omega, by omega⟩]
      · rw [if_neg ht, if_neg (by omega)]
    | succ k ih =>
      intro i hlo hhi
      rw [List.range_succ, List.map_append, List.map_singleton, List.foldl_concat]
      by_cases hself : i = n - 1 - k
      · have hcount := CountTree.isCount_leavesBelow (n := n) (m := m) i (by omega) (by omega)
        have hle := CountTree.leavesBelow_le (n := n) (m := m) i
        rw [← hself, Function.update_self, ih (by omega) _ (by omega) (by omega),
          ih (by omega) _ (by omega) (by omega), ← hcount, Nat.mod_eq_of_lt (by omega)]
      · rw [Function.update_of_ne hself]
        exact ih (by omega) i (by omega) hhi
  exact hfold (n - 1) le_rfl i (by omega) hin

/-- **The layout of a chunk.** -/
structure MsgBuffersChunk.Layout (C : MsgBuffersChunk) : Prop where
  power : ∃ d, C.twoPower = 2 ^ d
  pos : 0 < C.totBuffers
  lt : C.totBuffers < 65536
  le : C.totBuffers ≤ C.twoPower
  inverse : prepareBsInv C.bufferSize = some (C.bsInverse, C.bsShift)
  lower : C.addr + offsetofFreeCnt + C.twoPower * 4 ≤ C.firstBuffer
  upper : C.firstBuffer + C.totBuffers * (C.bufferSize + 16) ≤ C.addr + msgBuffersChunkSize

theorem chunkAlign_pos (n : ℕ) : 0 < chunkAlign n := by
  unfold chunkAlign
  omega

/-- **`alloc_new_msg_buffers_chunk`** lays out a chunk whenever that can be done. -/
theorem allocNewMsgBuffersChunk_spec {bufferSize : ℕ}
    (hfits : ChunkFits (bufferSize + buffHdBytes)) (addr head : ℕ) :
    ∃ C, allocNewMsgBuffersChunk addr head bufferSize = some C ∧ C.Layout ∧ C.addr = addr ∧
      C.chHead = head ∧ C.bufferSize = bufferSize ∧ C.freeBlockQueue = [] ∧
      C.magic = msgChunkUsedLockedMagic ∧ C.freeCnt = initFreeCnt C.twoPower C.totBuffers := by
  obtain ⟨y, o, hinv, -⟩ := prepareBsInv_spec bufferSize
  obtain ⟨hpos, hlt, hle⟩ := id hfits
  obtain ⟨A, hA⟩ : ∃ A, chunkAlign (bufferSize + buffHdBytes) = A := ⟨_, rfl⟩
  obtain ⟨p, hp⟩ : ∃ p, chunkTwoPower (bufferSize + buffHdBytes) = p := ⟨_, rfl⟩
  obtain ⟨m, hm⟩ : ∃ m, chunkBuffers (bufferSize + buffHdBytes) = m := ⟨_, rfl⟩
  have hApos : 0 < A := hA ▸ chunkAlign_pos _
  -- the buffers fit behind the tree
  have hroom : m * (bufferSize + buffHdBytes)
      ≤ msgBuffersChunkSize - offsetofFreeCnt - p * 4 - A := by
    rw [← hm, chunkBuffers, hp, hA]
    exact Nat.div_mul_le_self _ _
  have hmpos : 0 < m * (bufferSize + buffHdBytes) := by
    rw [hm] at hpos
    exact Nat.mul_pos hpos (Nat.succ_pos _)
  have hdown := Nat.div_mul_le_self (addr + offsetofFreeCnt + p * 4 + A - 1) A
  have hup := Nat.lt_div_mul_add (a := addr + offsetofFreeCnt + p * 4 + A - 1) hApos
  have hlast : (addr + offsetofFreeCnt + p * 4 + A - 1) / A * A + m * (bufferSize + buffHdBytes)
      ≤ addr + msgBuffersChunkSize := by omega
  rw [hm] at hpos hlt hle
  rw [hp] at hle
  obtain ⟨d, hd⟩ : ∃ d, p = 2 ^ d := hp ▸ twoPowerLoop_spec _ 32 ⟨0, rfl⟩
  refine ⟨⟨addr, msgChunkUsedLockedMagic, bufferSize, head,
    (addr + offsetofFreeCnt + p * 4 + A - 1) / A * A, p, m, y, ctz (bufferSize + 16), [],
    initFreeCnt p m⟩, ?_, ⟨⟨d, hd⟩, hpos, hlt, hle, hinv, ?_, hlast⟩, rfl, rfl, rfl, rfl, rfl, rfl⟩
  · unfold allocNewMsgBuffersChunk
    simp only [hA, hp, hm, hlast, hfits, hinv, guard_true, Option.pure_def, some_bind]
  · show addr + offsetofFreeCnt + p * 4 ≤ (addr + offsetofFreeCnt + p * 4 + A - 1) / A * A
    omega

/-- Every buffer is inside the chunk, behind the tree. -/
theorem MsgBuffersChunk.Layout.inside {C : MsgBuffersChunk} (h : C.Layout) {t : ℕ}
    (ht : t < C.totBuffers) :
    C.addr + offsetofFreeCnt + C.twoPower * 4 ≤ C.bufferAt t ∧
      C.bufferAt t + (C.bufferSize + 16) ≤ C.addr + msgBuffersChunkSize := by
  have hlower := h.lower
  have hupper := h.upper
  have hle : (t + 1) * (C.bufferSize + 16) ≤ C.totBuffers * (C.bufferSize + 16) :=
    Nat.mul_le_mul_right _ ht
  rw [add_mul, one_mul] at hle
  unfold bufferAt
  omega

theorem MsgBuffersChunk.Layout.getBufferNo {C : MsgBuffersChunk} (h : C.Layout) {t : ℕ}
    (ht : t < C.totBuffers) : C.getBufferNo (C.bufferAt t) = some t := by
  obtain ⟨hlo, hhi⟩ := h.inside ht
  have hlower := h.lower
  apply getBufferNo_bufferAt h.inverse ht.le
  unfold bufferAt msgBuffersChunkSize at *
  omega

end MtprotoProxy
