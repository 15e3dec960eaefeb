/-
# Messages that are encrypted and decrypted

`rwm_encrypt_decrypt_to` takes whole blocks from a message, and puts what a cipher makes of them
behind another one.  The blocks straddle the parts of the source and the buffers of the
destination: the bytes of a block that is not there as a whole wait in `buf`, and what comes out of
it can go into two buffers.

* `MsgHeap.rwmEncryptDecryptTo_streams`: neither matters.  The destination gets what the cipher
  makes of the bytes in one piece, whatever buffers the allocator returns.
-/
import MtprotoProxy.BlockCipher
import MtprotoProxy.MsgSlicing
import MtprotoProxy.MsgVisit

namespace MtprotoProxy

open CLib

/-- How `alloc_msg_buffer` answers: for a request it takes the buffer that `bufferSize` chooses for
`hint`, which is large enough for what can be asked for. -/
structure MsgAllocator where
  hint : MsgHeap → ℕ → ℕ
  enough : ∀ H n, n ≤ msgStdBuffer → n ≤ MsgHeap.bufferSize (hint H n)

/-- The allocator of `net/net-msg-buffers.c`. -/
def MsgAllocator.std : MsgAllocator := ⟨fun _ n => n, fun _ _ h => MsgHeap.le_bufferSize h⟩

/-- `struct rwm_encrypt_decrypt_tmp`; the state of the cipher is that of `evp_ctx`. -/
structure RwmEncryptDecryptTmp (κ : Type) where
  bp : ℕ
  bufLeft : ℕ
  left : ℕ
  blockSize : ℕ
  raw : RawMessage
  evpCtx : κ
  buf : Bytes

/-- `x & -b`. -/
def roundDown (x b : ℕ) : ℕ := x - (x &&& (b - 1))

/-! ## Block sizes -/

/-- The block size is a power of two up to 16. -/
def IsBlockSize (n : ℕ) : Prop := ∃ j ≤ 4, n = 2 ^ j

section BlockSizes

variable {n : ℕ}

theorem IsBlockSize.pos (h : IsBlockSize n) : 0 < n := by
  obtain ⟨j, -, rfl⟩ := h
  exact Nat.two_pow_pos j

theorem IsBlockSize.le (h : IsBlockSize n) : n ≤ 16 := by
  obtain ⟨j, hj, rfl⟩ := h
  exact Nat.pow_le_pow_right (by decide) hj

theorem IsBlockSize.and_eq_mod (h : IsBlockSize n) (x : ℕ) : x &&& (n - 1) = x % n := by
  obtain ⟨j, -, rfl⟩ := h
  exact Nat.and_two_pow_sub_one_eq_mod x j

theorem IsBlockSize.roundDown (h : IsBlockSize n) (x : ℕ) : roundDown x n = wholeBytes n x := by
  have hdiv := Nat.div_add_mod' x n
  unfold MtprotoProxy.roundDown wholeBytes
  rw [h.and_eq_mod]
  omega

/-- What `rwm_encrypt_decrypt_to` asserts about the block size. -/
theorem IsBlockSize.asserted (h : IsBlockSize n) : ¬ (n = 0 ∨ n &&& (n - 1) ≠ 0) := by
  rw [h.and_eq_mod, Nat.mod_self]
  rintro (hzero | hne)
  · exact absurd h.pos (by omega)
  · exact hne rfl

end BlockSizes

namespace MsgHeap

/-! ## The functions -/

section Defs

variable {κ : Type} {n : ℕ} (C : BlockCipher κ n) (A : MsgAllocator)

/-- `evp_crypt`, which asserts that as many bytes come out as go in. -/
def evpCrypt (k : κ) (src : Bytes) : Option (κ × Bytes) :=
  let r := C.crypt k src
  if r.2.length = src.length then some r else none

/-- `alloc_msg_buffer` for `want` bytes, and `new_msg_part` behind the last part: the size of the
buffer comes last. -/
def cryptPart (H : MsgHeap) (raw : RawMessage) (want : ℕ) :
    Option (MsgHeap × RawMessage × ℕ) := do
  let l ← raw.last
  let hint := A.hint H (if msgStdBuffer ≤ want then msgStdBuffer else want)
  let c := H.parts.size
  let (H, raw) ← (H.newDataPart hint 0 [] none).linkAfter raw (some l) c
  some (H, { raw with last := some c, lastOffset := 0 }, bufferSize hint)

def cryptGrow (H : MsgHeap) (x : RwmEncryptDecryptTmp κ) (want : ℕ) :
    Option (MsgHeap × RwmEncryptDecryptTmp κ) := do
  let (H, raw, size) ← cryptPart A H x.raw want
  some (H, { x with raw := raw, bufLeft := size })

/-- A new part where it is asked for. -/
def cryptGrowIf (H : MsgHeap) (x : RwmEncryptDecryptTmp κ) (ask : Prop) [Decidable ask] (want : ℕ) :
    Option (MsgHeap × RwmEncryptDecryptTmp κ) :=
  if ask then cryptGrow A H x want else some (H, x)

/-- Bytes that are written to the room behind the last ones, and counted. -/
def cryptPut (H : MsgHeap) (x : RwmEncryptDecryptTmp κ) (src : Bytes) :
    Option (MsgHeap × RwmEncryptDecryptTmp κ) := do
  let l ← x.raw.last
  let mp ← H.parts.cell l
  let X ← H.buffers.cell mp.part
  if X.data.length < x.raw.lastOffset + src.length then none
  else
    some ((H.write mp.part X x.raw.lastOffset src).setPart l
        { mp with dataEnd := mp.dataEnd + src.length },
      { x with
        raw := { x.raw with
          lastOffset := x.raw.lastOffset + src.length
          totalBytes := x.raw.totalBytes + src.length }
        bufLeft := x.bufLeft - src.length })

/-- `assert (x->buf_left + res->last_offset <= res->last->part->chunk->buffer_size)`. -/
def cryptCheck (H : MsgHeap) (x : RwmEncryptDecryptTmp κ) : Option Unit := do
  let l ← x.raw.last
  let mp ← H.parts.cell l
  let X ← H.buffers.cell mp.part
  if x.bufLeft + x.raw.lastOffset ≤ X.data.length then some () else none

/-- The block in `buf` that has become whole, when `len` bytes are left.  Where it does not fit, it
is divided between the last part and a new one. -/
def cryptBuf (H : MsgHeap) (x : RwmEncryptDecryptTmp κ) (len : ℕ) :
    Option (MsgHeap × RwmEncryptDecryptTmp κ) := do
  let (k, out) ← evpCrypt C x.evpCtx (x.buf.take x.blockSize)
  if x.blockSize ≤ x.bufLeft then cryptPut H { x with evpCtx := k } out
  else do
    let x := { x with evpCtx := k, buf := memcpyAt x.buf 0 out }
    let t := x.bufLeft
    let (H, x) ← cryptPut H x (x.buf.take t)
    let (H, x) ← cryptGrow A H x (x.left + len + x.blockSize)
    if x.blockSize - t ≤ x.bufLeft then cryptPut H x (slice x.buf t (x.blockSize - t)) else none

/-- The loop on whole blocks.  The fuel bounds the number of bytes. -/
def cryptLoop : ℕ → MsgHeap → RwmEncryptDecryptTmp κ → Bytes →
    Option (MsgHeap × RwmEncryptDecryptTmp κ)
  | 0, _, _, _ => none
  | m + 1, H, x, data => do
    let (H, x) ← cryptGrowIf A H x (x.bufLeft < x.blockSize) (x.left + data.length)
    cryptCheck H x
    if data.length ≤ x.bufLeft then
      if data.length &&& (x.blockSize - 1) ≠ 0 then none
      else do
        let (k, out) ← evpCrypt C x.evpCtx data
        cryptPut H { x with evpCtx := k } out
    else do
      let t := roundDown x.bufLeft x.blockSize
      let (k, out) ← evpCrypt C x.evpCtx (data.take t)
      let (H, x) ← cryptPut H { x with evpCtx := k } out
      cryptLoop m H x (data.drop t)

/-- The bytes when no block waits in `buf`: what is behind the last whole block waits there. -/
def cryptRest (H : MsgHeap) (x : RwmEncryptDecryptTmp κ) (data : Bytes) :
    Option (MsgHeap × RwmEncryptDecryptTmp κ) := do
  let l := roundDown data.length x.blockSize
  let (x, data) :=
    if data.length &&& (x.blockSize - 1) ≠ 0 then
      ({ x with buf := memcpyAt x.buf 0 (data.drop l), bp := data.length - l }, data.take l)
    else (x, data)
  cryptCheck H x
  cryptLoop C A (data.length + 1) H x data

/-- `rwm_process_encrypt_decrypt`. -/
def rwmProcessEncryptDecrypt (H : MsgHeap) (x : RwmEncryptDecryptTmp κ) (data : Bytes) :
    Option (MsgHeap × RwmEncryptDecryptTmp κ) := do
  let (H, x) ← cryptGrowIf A H x (x.bufLeft = 0) x.left
  let x := { x with left := x.left - data.length }
  cryptCheck H x
  if x.bp = 0 then cryptRest C A H x data
  else
    let toFill := x.blockSize - x.bp
    if toFill ≤ data.length then do
      let (H, x) ← cryptBuf C A H
        { x with buf := memcpyAt x.buf x.bp (data.take toFill), bp := 0 } (data.length - toFill)
      cryptRest C A H x (data.drop toFill)
    else some (H, { x with buf := memcpyAt x.buf x.bp data, bp := x.bp + data.length })

/-- The last part of the destination gets a buffer of its own. -/
def cryptStart (H : MsgHeap) (res : RawMessage) (bytes : ℕ) : Option (MsgHeap × RawMessage) :=
  match res.last with
  | none =>
    let l := bytes + rmPrependReserve
    let hint := A.hint H (if msgStdBuffer ≤ l then msgStdBuffer else l)
    let c := H.parts.size
    some (H.newDataPart hint rmPrependReserve [] none,
      { res with
        first := some c
        last := some c
        firstOffset := rmPrependReserve
        lastOffset := rmPrependReserve })
  | some l => do
    let mp ← H.parts.cell l
    let X ← H.buffers.cell mp.part
    if X.refcnt = 1 then some (H, res)
    else (cryptPart A H res bytes).map (fun r => (r.1, r.2.1))

/-- `rwm_encrypt_decrypt_to`: the source, the destination, the state of the cipher and the number
of bytes. -/
def rwmEncryptDecryptTo (H : MsgHeap) (raw res : RawMessage) (bytes : ℕ) (evpCtx : κ)
    (blockSize : ℕ) : Option (MsgHeap × RawMessage × RawMessage × κ × ℕ) :=
  if blockSize = 0 ∨ blockSize &&& (blockSize - 1) ≠ 0 then none
  else
    let bytes := roundDown (if raw.totalBytes < bytes then raw.totalBytes else bytes) blockSize
    if bytes = 0 then some (H, raw, res, evpCtx, 0)
    else do
      let (locked, H, res) ← H.rwmLockLastPart none res
      let (H, res) ← cryptStart A H res bytes
      let l ← res.last
      let mp ← H.parts.cell l
      let X ← H.buffers.cell mp.part
      let bufLeft := if X.refcnt = 1 then X.data.length - res.lastOffset else 0
      -- the bytes of `buf` are not read before they are written
      let (H, raw, x, r) ← rwmProcessAndAdvance (rwmProcessEncryptDecrypt C A) locked H raw bytes
        ⟨0, bufLeft, bytes, blockSize, res, evpCtx, List.replicate 16 0⟩
      some (H, raw, x.raw, x.evpCtx, r)

end Defs

/-! ## The end of the destination -/

section Tails

variable {H H' H'' : MsgHeap} {r : ℕ → ℕ} {κ : Type} {n : ℕ} {C : BlockCipher κ n}
  {A : MsgAllocator} {x : RwmEncryptDecryptTmp κ} {raw raw' raw'' : RawMessage} {bs : Bytes}
  {left : ℕ}

/-- Bytes can be put behind the message, and there is room for `left` of them in a buffer that is
used for nothing else. -/
structure Tail (H : MsgHeap) (r : ℕ → ℕ) (raw : RawMessage) (left : ℕ) (bs : Bytes) : Prop where
  app : Appendable H r raw bs
  room : ∃ l ml X, raw.last = some l ∧ H.parts.cell l = some ml ∧
    H.buffers.cell ml.part = some X ∧ X.refcnt = 1 ∧ left + raw.lastOffset = X.data.length

/-- What happens to the memory when bytes are put behind a message. -/
structure Lengthens (r : ℕ → ℕ) (H : MsgHeap) (raw : RawMessage) (H' : MsgHeap)
    (raw' : RawMessage) : Prop where
  grows : Grows H H'
  frame : Frame True r H H'
  first : raw'.first = raw.first

theorem Lengthens.refl (r : ℕ → ℕ) (H : MsgHeap) (raw : RawMessage) : Lengthens r H raw H raw :=
  ⟨Grows.refl H, Frame.refl _ _ _, rfl⟩

theorem Lengthens.trans (h : Lengthens r H raw H' raw') (h' : Lengthens r H' raw' H'' raw'') :
    Lengthens r H raw H'' raw'' :=
  ⟨h.grows.trans h'.grows, h.frame.trans h'.frame, h'.first.trans h.first⟩

theorem Appendable.eq (h : Appendable H r raw bs) :
    ∃ f l s e, raw = ⟨some f, some l, bs.length, s, e⟩ := by
  obtain ⟨l, ml, hl, -⟩ := h.last
  cases h.holds with
  | clean => exact absurd hl (by simp [rwmClean])
  | @chain n f l s e bs hspan => exact ⟨f, l, s, e, rfl⟩

theorem cryptCheck_spec (h : Tail H r x.raw x.bufLeft bs) : cryptCheck H x = some () := by
  obtain ⟨l, ml, X, hlast, hl, hX, -, hroom⟩ := h.room
  unfold cryptCheck
  simp only [hlast, hl, hX, some_bind]
  exact if_pos hroom.le

/-- **A new part** at the end. -/
theorem cryptPart_spec (h : Appendable H r raw bs) (want : ℕ) :
    ∃ H' raw' left, cryptPart A H raw want = some (H', raw', left) ∧ 48 ≤ left ∧
      Tail H' r raw' left bs ∧ Lengthens r H raw H' raw' := by
  obtain ⟨f, l, s, e, rfl⟩ := h.eq
  obtain ⟨l', ml, hl₀, hl, hnone, hend⟩ := h.last
  obtain rfl := Option.some.inj hl₀
  unfold cryptPart
  generalize A.hint H (if msgStdBuffer ≤ want then msgStdBuffer else want) = hint
  have hnil : ([] : Bytes).length ≤ bufferSize hint := Nat.zero_le _
  obtain ⟨happ, hfr⟩ := h.part hl hnil
  rw [List.append_nil] at happ
  have hne : H.parts.size ≠ l := by
    have hlt := Store.lt_size hl
    omega
  have hc : ((H.newDataPart hint 0 [] none).setPart l
      { ml with next := some H.parts.size }).parts.cell H.parts.size
      = some ⟨1, none, H.buffers.size, 0, 0⟩ :=
    (cell_setPart_ne hne).trans cell_newDataPart_self
  refine ⟨_, _, bufferSize hint, ?_, ?_, ⟨happ, H.parts.size, _, _, rfl, hc,
    Store.cell_alloc_self _, rfl, ?_⟩, ?_, hfr, rfl⟩
  · simp only [linkAfter_some (cell_newDataPart hl), some_bind]
    rfl
  · unfold bufferSize
    split_ifs <;> omega
  · exact (length_newData 0 hint [] H.buffers.size (Nat.zero_le _)).symm
  · exact (Grows.newDataPart H hint 0 [] none).trans
      (Grows.setPart (cell_newDataPart hl) rfl (.inl hnone))

theorem cryptGrow_spec (h : Appendable H r x.raw bs) (want : ℕ) :
    ∃ H' raw' left, cryptGrow A H x want = some (H', { x with raw := raw', bufLeft := left }) ∧
      48 ≤ left ∧ Tail H' r raw' left bs ∧ Lengthens r H x.raw H' raw' := by
  obtain ⟨H', raw', left, hpart, hleft, htail, hext⟩ := cryptPart_spec (A := A) h want
  refine ⟨H', raw', left, ?_, hleft, htail, hext⟩
  unfold cryptGrow
  rw [hpart]
  rfl

theorem cryptGrowIf_spec (h : Tail H r x.raw x.bufLeft bs) (ask : Prop) [Decidable ask]
    (want : ℕ) :
    ∃ H' raw' left, cryptGrowIf A H x ask want
        = some (H', { x with raw := raw', bufLeft := left }) ∧
      (48 ≤ left ∨ (¬ask ∧ left = x.bufLeft)) ∧ Tail H' r raw' left bs ∧
      Lengthens r H x.raw H' raw' := by
  unfold cryptGrowIf
  by_cases hask : ask
  · obtain ⟨H', raw', left, hgrow, hleft, htail, hext⟩ := cryptGrow_spec (A := A) h.app want
    exact ⟨H', raw', left, (if_pos hask).trans hgrow, .inl hleft, htail, hext⟩
  · exact ⟨H, x.raw, x.bufLeft, if_neg hask, .inr ⟨hask, rfl⟩, h, Lengthens.refl _ _ _⟩

/-- **Bytes in the room** at the end. -/
theorem cryptPut_spec (h : Tail H r x.raw x.bufLeft bs) (src : Bytes)
    (hfit : src.length ≤ x.bufLeft) :
    ∃ H' raw', cryptPut H x src
        = some (H', { x with raw := raw', bufLeft := x.bufLeft - src.length }) ∧
      Tail H' r raw' (x.bufLeft - src.length) (bs ++ src) ∧ Lengthens r H x.raw H' raw' := by
  obtain ⟨l, ml, X, hlast, hl, hX, hone, hroom⟩ := h.room
  have happ := h.app
  obtain ⟨f, l', s, e, heq⟩ := happ.eq
  rw [heq] at happ hlast hroom
  obtain rfl := Option.some.inj hlast
  dsimp only at hroom
  obtain ⟨hnone, hend⟩ := happ.last_cell rfl hl
  have hroom' : e + src.length ≤ X.data.length := by omega
  obtain ⟨happ', hfr⟩ := happ.write hl hX hone hroom'
  have hl₁ : (H.write ml.part X e src).parts.cell l' = some ml := hl
  refine ⟨_, _, ?_, ⟨happ', l', _, _, rfl, cell_setPart_self hl₁, buffer_write hX, hone, ?_⟩, ?_,
    hfr, ?_⟩
  · unfold cryptPut
    rw [heq]
    simp only [hl, hX, some_bind]
    rw [if_neg (by omega)]
  · dsimp only
    rw [length_memcpyAt hroom']
    omega
  · exact (Grows.write H ml.part X e src).trans (Grows.setPart hl₁ rfl (.inl hnone))
  · rw [heq]

end Tails

/-! ## The blocks -/

section Blocks

variable {H H' H'' : MsgHeap} {r : ℕ → ℕ} {κ : Type} {n : ℕ} {C : BlockCipher κ n}
  {A : MsgAllocator} {x : RwmEncryptDecryptTmp κ} {raw raw' raw'' : RawMessage} {bs data : Bytes}

theorem length_crypt_of_dvd {k : κ} (h : n ∣ data.length) :
    (C.crypt k data).2.length = data.length := by
  rw [BlockCipher.length_crypt, wholeBytes_of_dvd h]

/-- Whole blocks go in, and as many bytes come out. -/
theorem evpCrypt_eq {k : κ} (h : n ∣ data.length) : evpCrypt C k data = some (C.crypt k data) := by
  unfold evpCrypt
  exact if_pos (length_crypt_of_dvd h)

/-- **The block in `buf`**: it is put behind the message, in one piece or in two. -/
theorem cryptBuf_spec (hn : IsBlockSize n) (h : Tail H r x.raw x.bufLeft bs) (len : ℕ)
    (hsize : x.blockSize = n) (hbuf : x.buf.length = 16) :
    ∃ H' raw' left buf', cryptBuf C A H x len = some (H', { x with
        raw := raw'
        bufLeft := left
        evpCtx := (C.crypt x.evpCtx (x.buf.take n)).1
        buf := buf' }) ∧
      buf'.length = 16 ∧ Tail H' r raw' left (bs ++ (C.crypt x.evpCtx (x.buf.take n)).2) ∧
      Lengthens r H x.raw H' raw' := by
  subst hsize
  have hle := hn.le
  have hblock : (x.buf.take x.blockSize).length = x.blockSize := List.length_take_of_le (by omega)
  have hdvd : x.blockSize ∣ (x.buf.take x.blockSize).length := by rw [hblock]
  have hout : (C.crypt x.evpCtx (x.buf.take x.blockSize)).2.length = x.blockSize :=
    (length_crypt_of_dvd hdvd).trans hblock
  unfold cryptBuf
  simp only [evpCrypt_eq hdvd, Option.bind_eq_bind, Option.bind_some]
  generalize C.crypt x.evpCtx (x.buf.take x.blockSize) = out at hout ⊢
  by_cases hfits : x.blockSize ≤ x.bufLeft
  · obtain ⟨H', raw', hput, htail, hext⟩ :=
      cryptPut_spec (x := { x with evpCtx := out.1 }) h out.2 (by rw [hout]; exact hfits)
    refine ⟨H', raw', _, x.buf, ?_, hbuf, htail, hext⟩
    rw [if_pos hfits, hput]
  · -- the block is divided
    rw [if_neg hfits]
    have hmem : (memcpyAt x.buf 0 out.2).length = 16 := by
      rw [length_memcpyAt (by omega), hbuf]
    have hhead : (memcpyAt x.buf 0 out.2).take x.bufLeft = out.2.take x.bufLeft := by
      unfold memcpyAt
      rw [List.take_zero, List.nil_append, List.take_append_of_le_length (by omega)]
    have hrest : slice (memcpyAt x.buf 0 out.2) x.bufLeft (x.blockSize - x.bufLeft)
        = out.2.drop x.bufLeft := by
      unfold slice memcpyAt
      rw [List.take_zero, List.nil_append, List.drop_append_of_le_length (by omega),
        List.take_append_of_le_length (by rw [List.length_drop]; omega),
        List.take_of_length_le (by rw [List.length_drop]; omega)]
    have hlen : (out.2.take x.bufLeft).length = x.bufLeft := List.length_take_of_le (by omega)
    obtain ⟨H₁, raw₁, hput, htail₁, hext₁⟩ := cryptPut_spec
      (x := { x with evpCtx := out.1, buf := memcpyAt x.buf 0 out.2 }) h (out.2.take x.bufLeft)
      hlen.le
    obtain ⟨H₂, raw₂, left, hgrow, hleft, htail₂, hext₂⟩ := cryptGrow_spec (A := A)
      (x := { x with
        evpCtx := out.1
        buf := memcpyAt x.buf 0 out.2
        raw := raw₁
        bufLeft := x.bufLeft - (out.2.take x.bufLeft).length }) htail₁.app
      (x.left + len + x.blockSize)
    obtain ⟨H₃, raw₃, hput', htail₃, hext₃⟩ := cryptPut_spec
      (x := { x with
        evpCtx := out.1
        buf := memcpyAt x.buf 0 out.2
        raw := raw₂
        bufLeft := left }) htail₂ (out.2.drop x.bufLeft) (by
          rw [List.length_drop]
          dsimp only
          omega)
    rw [List.append_assoc, List.take_append_drop] at htail₃
    refine ⟨H₃, raw₃, _, _, ?_, hmem, htail₃, (hext₁.trans hext₂).trans hext₃⟩
    dsimp only at hput hgrow hput' ⊢
    rw [hhead, hput, Option.bind_some]
    dsimp only
    rw [hgrow, Option.bind_some]
    dsimp only
    rw [if_pos (by omega), hrest, hput']

/-- **The loop on whole blocks**, by induction on the fuel: every round fills a buffer or is the
last one. -/
theorem cryptLoop_spec (hn : IsBlockSize n) (fuel : ℕ) (h : Tail H r x.raw x.bufLeft bs)
    (hsize : x.blockSize = n) (hdvd : n ∣ data.length) (hfuel : data.length < fuel) :
    ∃ H' raw' left, cryptLoop C A fuel H x data = some (H', { x with
        raw := raw'
        bufLeft := left
        evpCtx := (C.crypt x.evpCtx data).1 }) ∧
      Tail H' r raw' left (bs ++ (C.crypt x.evpCtx data).2) ∧ Lengthens r H x.raw H' raw' := by
  induction fuel generalizing H x bs data with
  | zero => exact absurd hfuel (Nat.not_lt_zero _)
  | succ fuel ih =>
    subst hsize
    have hle := hn.le
    have hpos := hn.pos
    obtain ⟨H₁, raw₁, left, hgrow, hleft, htail, hext⟩ := cryptGrowIf_spec (A := A) h
      (x.bufLeft < x.blockSize) (x.left + data.length)
    have hroom : x.blockSize ≤ left := by
      rcases hleft with hleft | ⟨hask, rfl⟩
      · omega
      · omega
    have hcheck : cryptCheck H₁ { x with raw := raw₁, bufLeft := left } = some () :=
      cryptCheck_spec htail
    unfold cryptLoop
    simp only [hgrow, hcheck, Option.bind_eq_bind, Option.bind_some]
    by_cases hlast : data.length ≤ left
    · obtain ⟨H₂, raw₂, hput, htail₂, hext₂⟩ := cryptPut_spec
        (x := { x with raw := raw₁, bufLeft := left, evpCtx := (C.crypt x.evpCtx data).1 })
        htail (C.crypt x.evpCtx data).2 (by rw [length_crypt_of_dvd hdvd]; exact hlast)
      have hmask : ¬ data.length &&& (x.blockSize - 1) ≠ 0 := by
        rw [hn.and_eq_mod, not_not]
        exact Nat.mod_eq_zero_of_dvd hdvd
      refine ⟨H₂, raw₂, _, ?_, htail₂, hext.trans hext₂⟩
      rw [if_pos hlast, if_neg hmask, evpCrypt_eq hdvd, Option.bind_some, hput]
    · -- the buffer takes some of the blocks
      rw [if_neg hlast, hn.roundDown]
      have hfill := wholeBytes_le x.blockSize left
      have hsome : 0 < wholeBytes x.blockSize left :=
        Nat.mul_pos (Nat.div_pos hroom hpos) hpos
      have hlen : (data.take (wholeBytes x.blockSize left)).length = wholeBytes x.blockSize left :=
        List.length_take_of_le (by omega)
      have hdvd₁ : x.blockSize ∣ (data.take (wholeBytes x.blockSize left)).length := by
        rw [hlen]
        exact dvd_wholeBytes _ _
      have hdvd₂ : x.blockSize ∣ (data.drop (wholeBytes x.blockSize left)).length := by
        rw [List.length_drop]
        exact Nat.dvd_sub hdvd (dvd_wholeBytes _ _)
      have hsplit := BlockCipher.crypt_append (C := C) (k := x.evpCtx)
        (b := data.drop (wholeBytes x.blockSize left)) hpos hdvd₁
      rw [List.take_append_drop] at hsplit
      generalize wholeBytes x.blockSize left = t at *
      rw [evpCrypt_eq hdvd₁, hsplit]
      obtain ⟨H₂, raw₂, hput, htail₂, hext₂⟩ := cryptPut_spec
        (x := { x with raw := raw₁, bufLeft := left, evpCtx := (C.crypt x.evpCtx (data.take t)).1 })
        htail (C.crypt x.evpCtx (data.take t)).2 (by
          rw [length_crypt_of_dvd hdvd₁, hlen]
          exact hfill)
      have hfuel' : (data.drop t).length < fuel := by
        rw [List.length_drop]
        omega
      obtain ⟨H₃, raw₃, left₃, hloop, htail₃, hext₃⟩ := ih (x := { x with
        raw := raw₂
        bufLeft := left - (C.crypt x.evpCtx (data.take t)).2.length
        evpCtx := (C.crypt x.evpCtx (data.take t)).1 }) htail₂ rfl hdvd₂ hfuel'
      rw [List.append_assoc] at htail₃
      refine ⟨H₃, raw₃, left₃, ?_, htail₃, (hext.trans hext₂).trans hext₃⟩
      rw [Option.bind_some, hput, Option.bind_some, hloop]

theorem take_memcpyAt {dst : Bytes} {i : ℕ} (src : Bytes) (hi : i ≤ dst.length) :
    (memcpyAt dst i src).take (i + src.length) = dst.take i ++ src := by
  have hlen : (dst.take i ++ src).length = i + src.length := by
    rw [List.length_append, List.length_take_of_le hi]
  unfold memcpyAt
  rw [← hlen, List.take_left]

/-- **The bytes when no block waits.** -/
theorem cryptRest_spec (hn : IsBlockSize n) (h : Tail H r x.raw x.bufLeft bs)
    (hsize : x.blockSize = n) (hbuf : x.buf.length = 16) (hbp : x.bp = 0) (data : Bytes) :
    ∃ H' raw' left bp buf, cryptRest C A H x data = some (H', { x with
        raw := raw'
        bufLeft := left
        evpCtx := (C.crypt x.evpCtx data).1
        bp := bp
        buf := buf }) ∧
      buf.length = 16 ∧ buf.take bp = data.drop (wholeBytes n data.length) ∧
      bp = (data.drop (wholeBytes n data.length)).length ∧
      Tail H' r raw' left (bs ++ (C.crypt x.evpCtx data).2) ∧ Lengthens r H x.raw H' raw' := by
  subst hsize
  have hle := hn.le
  have hwait : (data.drop (wholeBytes x.blockSize data.length)).length < x.blockSize := by
    rw [List.length_drop]
    exact sub_wholeBytes_lt hn.pos data.length
  have hlen : (data.take (wholeBytes x.blockSize data.length)).length
      = wholeBytes x.blockSize data.length := List.length_take_of_le (wholeBytes_le _ _)
  have hdvd := dvd_wholeBytes x.blockSize data.length
  have hcrypt := BlockCipher.crypt_take (C := C) hn.pos x.evpCtx data
  have hmod : data.length % x.blockSize = data.length - wholeBytes x.blockSize data.length := by
    have hdiv := Nat.div_add_mod' data.length x.blockSize
    unfold wholeBytes
    omega
  unfold cryptRest
  rw [hn.and_eq_mod, hn.roundDown, hmod]
  generalize wholeBytes x.blockSize data.length = l at *
  dsimp only
  by_cases hall : data.length - l ≠ 0
  · rw [if_pos hall]
    have hcheck : cryptCheck H { x with
        buf := memcpyAt x.buf 0 (data.drop l)
        bp := data.length - l } = some () := cryptCheck_spec h
    obtain ⟨H', raw', left, hloop, htail, hext⟩ := cryptLoop_spec (C := C) (A := A)
      (x := { x with buf := memcpyAt x.buf 0 (data.drop l), bp := data.length - l }) hn
      ((data.take l).length + 1) h rfl (by rw [hlen]; exact hdvd) (Nat.lt_succ_self _)
    dsimp only at hloop ⊢
    rw [hcrypt] at hloop htail
    refine ⟨H', raw', left, data.length - l, memcpyAt x.buf 0 (data.drop l), ?_, ?_, ?_,
      List.length_drop.symm, htail, hext⟩
    · rw [hcheck, some_bind, hloop]
    · rw [length_memcpyAt (by omega), hbuf]
    · have htake := take_memcpyAt (data.drop l) (Nat.zero_le x.buf.length)
      rwa [Nat.zero_add, List.length_drop, List.take_zero, List.nil_append] at htake
  · rw [if_neg hall]
    have hcheck : cryptCheck H x = some () := cryptCheck_spec h
    have hle' : data.length ≤ l := by omega
    rw [List.take_of_length_le hle'] at hlen
    obtain ⟨H', raw', left, hloop, htail, hext⟩ := cryptLoop_spec (C := C) (A := A) hn
      (data.length + 1) h rfl (by rw [hlen]; exact hdvd) (Nat.lt_succ_self _)
    refine ⟨H', raw', left, 0, x.buf, ?_, hbuf, ?_, ?_, htail, hext⟩
    · dsimp only
      rw [hcheck, some_bind, hloop, hbp]
    · rw [List.drop_of_length_le hle', List.take_zero]
    · rw [List.drop_of_length_le hle', List.length_nil]

end Blocks

/-! ## The pieces of the source -/

section Pieces

variable {H H' : MsgHeap} {r : ℕ → ℕ} {κ : Type} {n : ℕ} {C : BlockCipher κ n} {A : MsgAllocator}
  {x : RwmEncryptDecryptTmp κ} {st : κ × Bytes} {bs : Bytes}

/-- The cipher is in the state of `st`, the bytes of `st` wait in `buf`, and the message holds
`bs`. -/
structure Streams (n : ℕ) (H : MsgHeap) (r : ℕ → ℕ) (x : RwmEncryptDecryptTmp κ) (st : κ × Bytes)
    (bs : Bytes) : Prop where
  tail : Tail H r x.raw x.bufLeft bs
  size : x.blockSize = n
  evpCtx : x.evpCtx = st.1
  buf : x.buf.length = 16
  pending : x.buf.take x.bp = st.2
  bp : x.bp = st.2.length

/-- **`rwm_process_encrypt_decrypt`** feeds the cipher with a piece of the source. -/
theorem rwmProcessEncryptDecrypt_spec (hn : IsBlockSize n) (h : Streams n H r x st bs)
    (hwait : st.2.length < n) (data : Bytes) :
    ∃ H' x', rwmProcessEncryptDecrypt C A H x data = some (H', x') ∧
      Streams n H' r x' (C.feed st data).1 (bs ++ (C.feed st data).2) ∧
      Lengthens r H x.raw H' x'.raw := by
  obtain ⟨htail, hsize, hctx, hbuf, hpending, hbp⟩ := h
  obtain ⟨k, pending⟩ := st
  dsimp only at hctx hpending hbp hwait
  subst hsize hctx
  have hle := hn.le
  obtain ⟨H₁, raw₁, left, hgrow, -, htail₁, hext₁⟩ := cryptGrowIf_spec (A := A) htail
    (x.bufLeft = 0) x.left
  have hcheck : cryptCheck H₁ { x with
      raw := raw₁
      bufLeft := left
      left := x.left - data.length } = some () := cryptCheck_spec htail₁
  unfold rwmProcessEncryptDecrypt
  simp only [hgrow, hcheck, Option.bind_eq_bind, Option.bind_some]
  by_cases hzero : x.bp = 0
  · -- no block waits
    have hnil : pending = [] := List.eq_nil_of_length_eq_zero (hbp.symm.trans hzero)
    obtain ⟨H₂, raw₂, left₂, bp, buf, hrest, hbuf₂, hpending₂, hbp₂, htail₂, hext₂⟩ :=
      cryptRest_spec (C := C) (A := A)
        (x := { x with raw := raw₁, bufLeft := left, left := x.left - data.length }) hn htail₁ rfl
        hbuf hzero data
    subst hnil
    rw [if_pos hzero, hrest]
    exact ⟨H₂, _, rfl, ⟨htail₂, rfl, rfl, hbuf₂, hpending₂, hbp₂⟩, hext₁.trans hext₂⟩
  · rw [if_neg hzero]
    by_cases hfill : x.blockSize - x.bp ≤ data.length
    · -- the block that waits becomes whole
      rw [if_pos hfill]
      have hlen : (data.take (x.blockSize - x.bp)).length = x.blockSize - x.bp :=
        List.length_take_of_le hfill
      have hsum : x.bp + (data.take (x.blockSize - x.bp)).length = x.blockSize := by
        rw [hlen]
        omega
      have hblock : (memcpyAt x.buf x.bp (data.take (x.blockSize - x.bp))).take x.blockSize
          = pending ++ data.take (x.blockSize - x.bp) := by
        have htake := take_memcpyAt (data.take (x.blockSize - x.bp))
          (by omega : x.bp ≤ x.buf.length)
        rwa [hsum, hpending] at htake
      have hwhole : x.blockSize ∣ (pending ++ data.take (x.blockSize - x.bp)).length := by
        rw [List.length_append, ← hbp, hsum]
      have hfeed := BlockCipher.feed_append (C := C) hn.pos (x.evpCtx, pending)
        (data.take (x.blockSize - x.bp)) (data.drop (x.blockSize - x.bp))
      rw [List.take_append_drop, BlockCipher.feed_of_dvd hwhole] at hfeed
      obtain ⟨H₂, raw₂, left₂, buf₂, hput, hbuf₂, htail₂, hext₂⟩ := cryptBuf_spec (C := C) (A := A)
        (x := { x with
          raw := raw₁
          bufLeft := left
          left := x.left - data.length
          buf := memcpyAt x.buf x.bp (data.take (x.blockSize - x.bp))
          bp := 0 }) hn htail₁ (data.length - (x.blockSize - x.bp)) rfl
        (by
          dsimp only
          rw [length_memcpyAt (by omega), hbuf])
      dsimp only at hput htail₂
      rw [hblock] at hput htail₂
      generalize C.crypt x.evpCtx (pending ++ data.take (x.blockSize - x.bp)) = out at *
      obtain ⟨H₃, raw₃, left₃, bp₃, buf₃, hrest, hbuf₃, hpending₃, hbp₃, htail₃, hext₃⟩ :=
        cryptRest_spec (C := C) (A := A)
          (x := { x with
            raw := raw₂
            bufLeft := left₂
            left := x.left - data.length
            evpCtx := out.1
            buf := buf₂
            bp := 0 }) hn htail₂ rfl hbuf₂ rfl (data.drop (x.blockSize - x.bp))
      dsimp only at hrest
      rw [hfeed, hput, Option.bind_some, hrest]
      refine ⟨H₃, _, rfl, ⟨?_, rfl, rfl, hbuf₃, hpending₃, hbp₃⟩, (hext₁.trans hext₂).trans hext₃⟩
      rw [← List.append_assoc]
      exact htail₃
    · rw [if_neg hfill]
      have hshort : (pending ++ data).length < x.blockSize := by
        rw [List.length_append]
        omega
      rw [BlockCipher.feed_of_lt hshort, List.append_nil]
      refine ⟨H₁, _, rfl, ⟨htail₁, rfl, rfl, ?_, ?_, ?_⟩, hext₁⟩
      · dsimp only
        rw [length_memcpyAt (by omega), hbuf]
      · dsimp only
        rw [take_memcpyAt data (by omega), hpending]
      · dsimp only
        rw [List.length_append, hbp]

end Pieces

/-! ## The whole function -/

section Whole

variable {H H' : MsgHeap} {r : ℕ → ℕ} {κ : Type} {n : ℕ} {C : BlockCipher κ n} {A : MsgAllocator}
  {raw res : RawMessage} {bs bs₀ : Bytes}

/-- The part `held` is one of the parts of the message. -/
def PartOf (H : MsgHeap) (raw : RawMessage) (held : Option ℕ) : Prop :=
  ∀ x, held = some x → ∃ a, raw.first = some a ∧ H.Path a x

theorem PartOf.extends {raw' : RawMessage} {held : Option ℕ} (h : PartOf H raw held)
    (hext : Lengthens r H raw H' raw') : PartOf H' raw' held := by
  intro x hx
  obtain ⟨a, ha, hpath⟩ := h x hx
  exact ⟨a, hext.first.trans ha, hext.grows.path hpath⟩

/-- A message that ends in a buffer with one reference has what the buffer leaves. -/
theorem Appendable.tail {l : ℕ} {ml : MsgPart} {X : MsgBuffer} (h : Appendable H r raw bs)
    (hlast : raw.last = some l) (hl : H.parts.cell l = some ml)
    (hX : H.buffers.cell ml.part = some X) (hone : X.refcnt = 1) :
    Tail H r raw (X.data.length - raw.lastOffset) bs := by
  refine ⟨h, l, ml, X, hlast, hl, hX, hone, ?_⟩
  obtain ⟨-, hend⟩ := h.last_cell hlast hl
  obtain ⟨Y, hY, -, hle⟩ := h.inv.buffer l ml hl
  obtain rfl := Option.mem_unique hX hY
  omega

/-- **The destination is ready** for bytes: its last part has a buffer of its own. -/
theorem cryptStart_spec (hinv : Inv H (fun q => ref res.first q + r q)) (hres : Holds H res bs₀)
    (bytes : ℕ) :
    ∃ locked H₁ res₁ H' res' l ml X, H.rwmLockLastPart none res = some (locked, H₁, res₁) ∧
      cryptStart A H₁ res₁ bytes = some (H', res') ∧ res'.last = some l ∧
      H'.parts.cell l = some ml ∧ H'.buffers.cell ml.part = some X ∧ X.refcnt = 1 ∧
      Tail H' r res' (X.data.length - res'.lastOffset) bs₀ ∧ Frame True r H H' ∧
      PartOf H' res' locked := by
  cases hres with
  | clean =>
    -- the first part of an empty message
    have hinv₀ : Inv H r := hinv.congr (fun q => Nat.zero_add _)
    have hroom := A.enough H
      (if msgStdBuffer ≤ bytes + rmPrependReserve then msgStdBuffer else bytes + rmPrependReserve)
      (by split_ifs <;> omega)
    have hsize : rmPrependReserve ≤ (if msgStdBuffer ≤ bytes + rmPrependReserve then msgStdBuffer
        else bytes + rmPrependReserve) := by
      unfold msgStdBuffer rmPrependReserve
      split_ifs <;> omega
    have happ := hinv₀.newMessage (show rmPrependReserve + ([] : Bytes).length ≤ _ from
      hsize.trans hroom)
    refine ⟨none, H, rwmClean, _, _, H.parts.size, _, _, rfl, rfl, rfl, cell_newDataPart_self,
      Store.cell_alloc_self _, rfl, ?_, Frame.newDataPart _ _ _ _, fun x hx => absurd hx (by simp)⟩
    exact happ.tail rfl cell_newDataPart_self (Store.cell_alloc_self _) rfl
  | @chain n f l s e bs hspan =>
    obtain ⟨locked, H₁, f₁, l₁, hlock, happ, hfr₁, hlocked⟩ :=
      rwmLockLastPart_spec none hinv (by simp) hspan
    have hpart : PartOf H₁ ⟨some f₁, some l₁, bs₀.length, s, e⟩ locked := by
      intro x hx
      rcases hlocked with ⟨hl, rfl, rfl, rfl, -⟩ | ⟨hnone, -⟩
      · rw [hl] at hx
        exact ⟨f₁, rfl, Option.some.inj hx ▸ hspan.path⟩
      · rw [hnone] at hx
        exact absurd hx (by simp)
    obtain ⟨l', ml, hlast, hl, -, -⟩ := happ.last
    obtain ⟨X, hX, -⟩ := happ.inv.buffer l' ml hl
    obtain rfl := Option.some.inj hlast
    by_cases hone : X.refcnt = 1
    · refine ⟨locked, H₁, _, H₁, _, l₁, ml, X, hlock, ?_, rfl, hl, hX, hone,
        happ.tail rfl hl hX hone, hfr₁.weaken, hpart⟩
      unfold cryptStart
      simp only [hl, hX, some_bind]
      exact if_pos hone
    · obtain ⟨H₂, raw₂, left, hgrow, -, htail, hext⟩ := cryptPart_spec (A := A) happ bytes
      obtain ⟨l₂, ml₂, X₂, hlast₂, hl₂, hX₂, hone₂, -⟩ := htail.room
      refine ⟨locked, H₁, _, H₂, raw₂, l₂, ml₂, X₂, hlock, ?_, hlast₂, hl₂, hX₂, hone₂,
        htail.app.tail hlast₂ hl₂ hX₂ hone₂, hfr₁.weaken.trans hext.frame, hpart.extends hext⟩
      unfold cryptStart
      simp only [hl, hX, some_bind]
      rw [if_neg hone, hgrow]
      rfl

/-- What holds when `rwm_encrypt_decrypt_to` has handed on the bytes `done` of the source. -/
def Crypting (C : BlockCipher κ n) (r : ℕ → ℕ) (f : ℕ) (locked : Option ℕ) (k : κ) (bs₀ : Bytes)
    (H : MsgHeap) (x : RwmEncryptDecryptTmp κ) (done : Bytes) : Prop :=
  Streams n H (fun q => ref (some f) q + r q) x (C.feed (k, []) done).1
    (bs₀ ++ (C.feed (k, []) done).2) ∧ PartOf H x.raw locked

/-- **`rwm_process_encrypt_decrypt` is a visitor** of the source. -/
theorem crypting_visitor (hn : IsBlockSize n) (A : MsgAllocator) (f : ℕ) (locked : Option ℕ) (k : κ)
    (bs₀ : Bytes) :
    Visitor (rwmProcessEncryptDecrypt C A) locked f r (fun x q => ref x.raw.first q + r q)
      (Crypting C r f locked k bs₀) where
  inv := fun h => h.1.tail.app.inv.congr (fun q => Nat.add_left_comm _ _ _)
  held := by
    intro H x done h y hy
    obtain ⟨a, ha, hpath⟩ := h.2 y hy
    rw [ha]
    exact (reach_ref a).path hpath
  call := by
    intro H x done chunk h
    obtain ⟨H', x', hcall, hstreams, hext⟩ := rwmProcessEncryptDecrypt_spec (C := C) (A := A) hn h.1
      (BlockCipher.length_feed_lt hn.pos _ _) chunk
    refine ⟨H', x', hcall, ⟨?_, h.2.extends hext⟩, hext.grows, hext.frame⟩
    rw [BlockCipher.feed_append hn.pos, ← List.append_assoc]
    exact hstreams

/-- **Streaming does not depend on the segmentation**: the destination gets what the cipher makes of
the first whole blocks of the source in one piece, and the source loses them, whatever parts and
buffers there are. -/
theorem rwmEncryptDecryptTo_streams (C : BlockCipher κ n) (A : MsgAllocator) (hn : IsBlockSize n)
    (hinv : Inv H (fun q => ref raw.first q + (ref res.first q + r q))) (hraw : Holds H raw bs)
    (hres : Holds H res bs₀) (bytes : ℕ) (k : κ) :
    ∃ H' raw' res' m, m = wholeBytes n (min bytes bs.length) ∧
      rwmEncryptDecryptTo C A H raw res bytes k n
        = some (H', raw', res', (C.crypt k (bs.take m)).1, m) ∧
      Inv H' (fun q => ref raw'.first q + (ref res'.first q + r q)) ∧ Holds H' raw' (bs.drop m) ∧
      Holds H' res' (bs₀ ++ (C.crypt k (bs.take m)).2) ∧ Frame True r H H' := by
  have htotal := hraw.totalBytes
  have hmin : (if raw.totalBytes < bytes then raw.totalBytes else bytes) = min bytes bs.length := by
    rw [htotal]
    split_ifs <;> omega
  have hle : wholeBytes n (min bytes bs.length) ≤ bs.length :=
    (wholeBytes_le _ _).trans (Nat.min_le_right _ _)
  have hdvd := dvd_wholeBytes n (min bytes bs.length)
  unfold rwmEncryptDecryptTo
  rw [if_neg hn.asserted, hn.roundDown, hmin]
  generalize wholeBytes n (min bytes bs.length) = m at *
  dsimp only
  by_cases hzero : m = 0
  · subst hzero
    have hcrypt : C.crypt k (bs.take 0) = (k, []) := by
      rw [List.take_zero]
      exact BlockCipher.crypt_of_lt hn.pos
    refine ⟨H, raw, res, 0, rfl, ?_, hinv, hraw, ?_, Frame.refl _ _ _⟩
    · rw [if_pos rfl, hcrypt]
    · rwa [hcrypt, List.append_nil]
  · rw [if_neg hzero]
    cases hraw with
    | clean => exact absurd hle (by simp; omega)
    | @chain n' f l c e bs hspan =>
      dsimp only at hinv
      obtain ⟨locked, H₁, res₁, H₂, res₂, l₂, ml₂, X₂, hlock, hstart, hlast₂, hl₂, hX₂, hone₂,
        htail, hfr₂, hpart⟩ := cryptStart_spec (A := A) (r := fun q => ref (some f) q + r q)
          (hinv.congr (fun q => Nat.add_left_comm _ _ _)) hres m
      have hspan₂ := hspan.frame hfr₂ (ref_add_pos f)
      -- nothing is handed on yet
      have hnil : C.feed (k, []) [] = ((k, []), []) := BlockCipher.feed_of_lt hn.pos
      have hP : Crypting C r f locked k bs₀ H₂
          ⟨0, X₂.data.length - res₂.lastOffset, m, n, res₂, k, List.replicate 16 0⟩ [] := by
        refine ⟨?_, hpart⟩
        rw [hnil, List.append_nil]
        exact ⟨htail, rfl, rfl, rfl, rfl, rfl⟩
      obtain ⟨H₃, x, H', raw', hrun, hP', hfr₃, howns, hfr'⟩ := rwmProcessAndAdvance_spec
        (crypting_visitor hn A f locked k bs₀) hP hspan₂ (Nat.pos_of_ne_zero hzero) hle
      -- all that was handed on is whole
      have hwhole : n ∣ ([] ++ bs.take m).length := by
        rw [List.nil_append, List.length_take_of_le hle]
        exact hdvd
      obtain ⟨hstreams, -⟩ := hP'
      rw [BlockCipher.feed_of_dvd hwhole, List.nil_append] at hstreams
      refine ⟨H', raw', x.raw, m, rfl, ?_, howns.inv, howns.holds, ?_, ?_⟩
      · simp only [hlock, hstart, hlast₂, hl₂, hX₂, hone₂, some_bind, if_true, hrun,
          hstreams.evpCtx]
      · refine hstreams.tail.app.holds.frame hfr' (fun a ha => ?_)
        rw [ha]
        exact ref_add_pos a
      · have hr : ∀ q, r q ≤ ref (some f) q + r q := fun q => Nat.le_add_left _ _
        apply ((hfr₂.mono hr).trans (hfr₃.mono hr)).trans
        exact hfr'.weaken.mono (fun q => Nat.le_add_left _ _)

end Whole

/-- A cipher that adds a number to every byte, and counts the blocks of two bytes. -/
def addingCipher : BlockCipher UInt8 2 :=
  ⟨fun k b => (k + 1, b.map (· + k)), fun k _ h => (List.length_map (· + k)).trans h⟩

/-- Two of three bytes, behind an empty message. -/
theorem rwmEncryptDecryptTo_streams_twoParts :
    ∃ H' raw' res' m, m = wholeBytes 2 (min 5 3) ∧
      rwmEncryptDecryptTo addingCipher MsgAllocator.std twoParts twoPartsMessage rwmClean 5 7 2
        = some (H', raw', res', (addingCipher.crypt 7 (List.take m [1, 2, 3])).1, m) ∧
      Inv H' (fun q => ref raw'.first q + (ref res'.first q + 0)) ∧
      Holds H' raw' (List.drop m [1, 2, 3]) ∧
      Holds H' res' ([] ++ (addingCipher.crypt 7 (List.take m [1, 2, 3])).2) ∧
      Frame True (fun _ => 0) twoParts H' := by
  have hinv : Inv twoParts (fun q => ref twoPartsMessage.first q + (ref rwmClean.first q + 0)) :=
    twoParts_owns.inv
  exact rwmEncryptDecryptTo_streams addingCipher MsgAllocator.std ⟨1, by decide, rfl⟩ hinv
    twoParts_owns.holds Holds.clean 5 7

example : (addingCipher.crypt 7 [1, 2, 3, 4]).2 = [8, 9, 11, 12] := by decide

end MsgHeap

end MtprotoProxy
