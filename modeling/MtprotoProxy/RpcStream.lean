/-
# Streams of RPC packets

What `tcp_rpc_write_packet` and `tcp_rpc_flush` put into the output of a connection, and what the
loop of the RPC server makes of it when it comes in, cut in any way (`rpc_round_trip`).  The cipher
in between is left out; it takes blocks of 16 bytes off the output, which `tcp_rpc_flush` does not
see.
-/
import MtprotoProxy.RpcServer

namespace MtprotoProxy

open CLib

/-! ## Writing -/

/-- `tcp_rpc_flush`, with the words of `pad_str`; a failed assertion is `none`. -/
def tcpRpcFlush (o : OutConn) : Option OutConn :=
  if o.crypto.isSome then
    let padBytes := (16 - o.out.length % 16) % 16
    if padBytes % 4 = 0 then
      some { o with out := o.out ++ (List.replicate (padBytes / 4) (intBytes 4)).flatten }
    else none
  else some o

/-- A call that writes. -/
inductive RpcWrite where
  | packet (raw : Bytes)
  | flush

def OutConn.rpcWrite (k : Checksums) (o : OutConn) : RpcWrite → Option OutConn
  | .packet raw => some (tcpRpcWritePacket k raw o)
  | .flush => tcpRpcFlush o

/-- The payloads. -/
def payloads (ws : List RpcWrite) : List Bytes :=
  ws.filterMap fun w =>
    match w with
    | .packet raw => some raw
    | .flush => none

/-- A payload that the server takes. -/
structure RpcsSetup.Fits (setup : RpcsSetup) (raw : Bytes) : Prop where
  four_le : 4 ≤ raw.length
  aligned : raw.length % 4 = 0
  short : raw.length + 12 < 2 ^ 30
  max : raw.length + 12 ≤ setup.maxPacketLen ∨ setup.maxPacketLen ≤ 0

/-- Packets from the number `n` on, and pad words (`none`). -/
def rpcStream (k : Checksums) (crc : CrcPartial) : ℤ → List (Option Bytes) → Bytes
  | _, [] => []
  | n, some raw :: items => frameBytes k crc n raw ++ rpcStream k crc (n + 1) items
  | n, none :: items => intBytes 4 ++ rpcStream k crc n items

theorem rpcStream_pads (k : Checksums) (crc : CrcPartial) (n : ℤ) (j : ℕ)
    (items : List (Option Bytes)) :
    rpcStream k crc n (List.replicate j none ++ items) =
      (List.replicate j (intBytes 4)).flatten ++ rpcStream k crc n items := by
  induction j with
  | zero => rfl
  | succ j ih =>
    rw [List.replicate_succ, List.replicate_succ, List.flatten_cons, List.append_assoc, ← ih]
    rfl

theorem length_frameBytes (k : Checksums) (crc : CrcPartial) (n : ℤ) (raw : Bytes) :
    (frameBytes k crc n raw).length = raw.length + 12 := by
  simp [frameBytes]
  omega

/-- **What is written** is a stream of the payloads with pad words between them. -/
theorem run_rpcWrite {setup : RpcsSetup} {ws : List RpcWrite} {o : OutConn}
    (hmode : ¬ (o.rpcFlags.compact ∨ o.rpcFlags.medium)) (halign : o.out.length % 4 = 0)
    (hfits : ∀ raw ∈ payloads ws, setup.Fits raw) (hlo : 0 ≤ o.outPacketNum)
    (hhi : o.outPacketNum + (payloads ws).length < 2 ^ 31) :
    ∃ o' items, Runs.run (OutConn.rpcWrite setup.checksums) o ws = some o' ∧
      items.reduceOption = payloads ws ∧ o'.out = o.out ++
        rpcStream setup.checksums o.customCrcPartial o.outPacketNum items := by
  induction ws generalizing o with
  | nil => exact ⟨o, [], rfl, rfl, (List.append_nil _).symm⟩
  | cons w ws ih =>
    cases w with
    | packet raw =>
      rw [show payloads (.packet raw :: ws) = raw :: payloads ws from rfl] at hfits hhi ⊢
      rw [List.length_cons] at hhi
      have hraw := hfits raw List.mem_cons_self
      have hwrite : tcpRpcWritePacket setup.checksums raw o = { o with
          outPacketNum := o.outPacketNum + 1
          out := o.out ++ frameBytes setup.checksums o.customCrcPartial o.outPacketNum raw } := by
        unfold tcpRpcWritePacket
        rw [if_neg hmode, wrap32_of_isInt32 ⟨by omega, by omega⟩]
        rfl
      obtain ⟨o', items, hrun, hitems, hout⟩ := ih
        (o := tcpRpcWritePacket setup.checksums raw o) (by rw [hwrite]; exact hmode)
        (by
          rw [hwrite, List.length_append, length_frameBytes]
          have := hraw.aligned
          omega)
        (fun r hr => hfits r (List.mem_cons_of_mem _ hr)) (by rw [hwrite]; show 0 ≤ _ + 1; omega)
        (by rw [hwrite]; show _ + 1 + _ < _; omega)
      refine ⟨o', some raw :: items, Runs.run_cons.mpr ⟨_, rfl, hrun⟩, ?_, ?_⟩
      · rw [List.reduceOption_cons_of_some, hitems]
      · rw [hout, hwrite]
        exact List.append_assoc _ _ _
    | flush =>
      obtain ⟨j, o₁, hflush, hsame⟩ : ∃ j o₁, tcpRpcFlush o = some o₁ ∧
          o₁ = { o with out := o.out ++ (List.replicate j (intBytes 4)).flatten } := by
        unfold tcpRpcFlush
        split
        · dsimp only
          rw [if_pos (by omega)]
          exact ⟨_, _, rfl, rfl⟩
        · exact ⟨0, o, rfl, by simp⟩
      obtain ⟨o', items, hrun, hitems, hout⟩ := ih (o := o₁) (by rw [hsame]; exact hmode)
        (by
          rw [hsame]
          simp
          omega)
        hfits (by rw [hsame]; exact hlo) (by rw [hsame]; exact hhi)
      refine ⟨o', List.replicate j none ++ items, Runs.run_cons.mpr ⟨o₁, hflush, hrun⟩, ?_, ?_⟩
      · rw [List.reduceOption_append, List.reduceOption_replicate_none, hitems]
        rfl
      · rw [hout, hsame, rpcStream_pads, List.append_assoc]

/-! ## Reading -/

section Reading

variable {setup : RpcsSetup} {conn : RpcsConn} {w : RpcsWorld} {raw future : Bytes}
  {items : List (Option Bytes)} {ex : ℤ → Bytes → ExecEffect}

/-- What is answered to a payload. -/
def answersOf (ex : ℤ → Bytes → ExecEffect) (raw : Bytes) : List Bytes :=
  if intAt raw 0 = rpcPing then if raw.length = 12 then [pongOf raw] else []
  else (ex (intAt raw 0) raw).replies

/-- The server is past the handshake, and what is at hand and what is still to come is a stream. -/
structure Awaits (setup : RpcsSetup) (items : List (Option Bytes)) (future : Bytes)
    (conn : RpcsConn) : Prop where
  open_ : conn.error = false ∧ conn.stopParse = false ∧ conn.http = false
  quickack : conn.cryptoFlags.quickack = false
  fits : ∀ raw ∈ items.reduceOption, setup.Fits raw
  num : 0 ≤ conn.inPacketNum ∧ conn.inPacketNum + items.reduceOption.length < 2 ^ 31
  stream : conn.input ++ future =
    rpcStream setup.checksums conn.customCrcPartial conn.inPacketNum items

/-- The length in front of what is at hand. -/
theorem front_word {len : ℤ} {more rest : Bytes} (hquick : conn.cryptoFlags.quickack = false)
    (hint : IsInt32 len) (hfour : 4 ≤ conn.input.length)
    (hfront : conn.input ++ more = intBytes len ++ rest) :
    rwmFetchLookup conn.input 4 = intBytes len ∧ framedLength conn (intBytes len) = len := by
  have htake := congrArg (List.take 4) hfront
  rw [List.take_append_of_le_length hfour, List.take_left' (length_intBytes len)] at htake
  have hlen := asInt32_intBytes hint []
  rw [List.append_nil] at hlen
  rw [framedLength, hquick, if_neg (by simp), hlen]
  exact ⟨htake, rfl⟩

/-- The loop waits for the length. -/
theorem takeFrame_short (hshort : conn.input.length < 4) :
    ∃ need, takeFrame setup conn = .ok (.wait need) := by
  unfold takeFrame
  dsimp only
  split
  · exact ⟨_, rfl⟩
  · rw [if_pos (by omega)]
    exact ⟨_, rfl⟩

/-- The loop waits where fewer bytes are at hand than the frame has. -/
theorem takeFrame_waits {more : Bytes} {n : ℤ} (hraw : setup.Fits raw)
    (hquick : conn.cryptoFlags.quickack = false) (hmore : more ≠ [])
    (hpart : frameBytes setup.checksums conn.customCrcPartial n raw = conn.input ++ more) :
    ∃ need, takeFrame setup conn = .ok (.wait need) := by
  have hlen := congrArg List.length hpart
  rw [length_frameBytes, List.length_append] at hlen
  have hpos := List.length_pos_iff.mpr hmore
  obtain ⟨hfour, halign, hshort, hmax⟩ := hraw
  by_cases hword : conn.input.length < 4
  · exact takeFrame_short hword
  · have hint : IsInt32 (raw.length + 12) := ⟨by omega, by omega⟩
    obtain ⟨hlook, hpacketLen⟩ := front_word hquick hint (not_lt.mp hword)
      (hpart.symm.trans (by simp only [frameBytes, List.append_assoc]; rfl))
    unfold takeFrame
    dsimp only
    rw [if_neg (by omega), if_neg (by omega), hlook, require_ok (length_intBytes _), ok_bind,
      hpacketLen, if_neg (by omega), if_neg (by omega), if_neg (by omega), if_neg (by omega),
      if_pos (by omega)]
    exact ⟨_, rfl⟩

/-- A pad word is skipped. -/
theorem takeFrame_pad {rest : Bytes} (hquick : conn.cryptoFlags.quickack = false)
    (hmax : 4 ≤ setup.maxPacketLen ∨ setup.maxPacketLen ≤ 0)
    (hinput : conn.input = intBytes 4 ++ rest) : takeFrame setup conn = .ok (.skip rest) := by
  have hlen := congrArg List.length hinput
  rw [List.length_append, length_intBytes] at hlen
  have hint : IsInt32 4 := by decide
  obtain ⟨hlook, hpacketLen⟩ := front_word hquick hint (by omega) ((List.append_nil _).trans hinput)
  have hcut : rwmFetchData conn.input 4 = (intBytes 4, rest) := by
    rw [hinput]
    simp [rwmFetchData]
  unfold takeFrame
  dsimp only
  rw [if_neg (by omega), if_neg (by omega), hlook, require_ok (length_intBytes _), ok_bind,
    hpacketLen, if_neg (by omega), if_neg (by omega), if_pos rfl, hcut]
  rfl

/-- A payload is answered. -/
theorem executeFramed_eq (hex : (w.execute (intAt raw 0) raw).fails = false ∧
    (w.execute (intAt raw 0) raw).stopsParse = false) :
    executeFramed w (intAt raw 0) raw conn =
      .ok { conn with sent := conn.sent ++ answersOf w.execute raw } := by
  unfold executeFramed answersOf
  split
  · split
    · rename_i hlen
      have hcut : rwmFetchData raw 12 = (raw, []) := by simp [rwmFetchData, ← hlen]
      rw [hcut]
      dsimp only
      rw [require_ok hlen]
      rfl
    · rw [List.append_nil]
      rfl
  · dsimp only
    rw [hex.1, hex.2, Bool.or_false, Bool.or_false]
    rfl

/-- A packet is served, and the loop goes on. -/
theorem parseRound_packet (hopen : conn.error = false ∧ conn.stopParse = false)
    (hquick : conn.cryptoFlags.quickack = false) (hraw : setup.Fits raw)
    (hnum : 0 ≤ conn.inPacketNum ∧ conn.inPacketNum + 1 < 2 ^ 31)
    (hex : (w.execute (intAt raw 0) raw).fails = false ∧
      (w.execute (intAt raw 0) raw).stopsParse = false) {rest : Bytes}
    (hinput : conn.input =
      frameBytes setup.checksums conn.customCrcPartial conn.inPacketNum raw ++ rest) :
    parseRound setup w conn = .ok (none, { conn with
      input := rest
      sent := conn.sent ++ answersOf w.execute raw
      inPacketNum := conn.inPacketNum + 1 }) := by
  have hint : IsInt32 conn.inPacketNum := ⟨by omega, by omega⟩
  have hstart : RpcsConn.startCount { conn with input := rest } = { conn with input := rest } :=
    if_neg (by show conn.inPacketNum ≠ -3; omega)
  rw [parseRound_of_packet hopen.1 hopen.2 hquick (takeFrame_frameBytes setup hint hraw.four_le
    hraw.aligned hraw.short hraw.max hquick hinput)]
  unfold handlePacket
  dsimp only
  rw [hstart, if_neg (by simp), if_neg (by omega), executeFramed_eq hex, ok_bind]
  unfold RpcsConn.countPacket
  dsimp only
  rw [wrap32_of_isInt32 ⟨by omega, by omega⟩]
  rfl

/-- A read ends within a frame, or behind it. -/
theorem frame_or_rest {a b c d : Bytes} (h : a ++ b = c ++ d) :
    (∃ more, more ≠ [] ∧ c = a ++ more ∧ b ≠ []) ∨ ∃ rest, a = c ++ rest ∧ rest ++ b = d := by
  rcases List.append_eq_append_iff.mp h with ⟨more, hc, hb⟩ | ⟨rest, ha, hd⟩
  · by_cases hmore : more = []
    · exact Or.inr ⟨[], by rw [hc, hmore]; simp, by rw [hb, hmore]; simp⟩
    · exact Or.inl ⟨more, hmore, hc, by rw [hb]; simp [hmore]⟩
  · exact Or.inr ⟨rest, ha, hd.symm⟩

/-- What the loop makes of a stream: it serves the packets that are at hand, and waits for the
rest. -/
def Gives (setup : RpcsSetup) (ex : ℤ → Bytes → ExecEffect) (items : List (Option Bytes))
    (future : Bytes) (conn : RpcsConn) (run : Except Fault (ℤ × RpcsConn)) : Prop :=
  ∃ ret conn' done rest, run = .ok (ret, conn') ∧ items = done ++ rest ∧
    Awaits setup rest future conn' ∧ (future = [] → rest = []) ∧
    conn'.sent = conn.sent ++ done.reduceOption.flatMap (answersOf ex)

section Loop

variable {world : ℕ → RpcsWorld} {i fuel : ℕ}

/-- A round that finds no packet. -/
theorem Awaits.round (h : Awaits setup items future conn) {f : Frame}
    (hf : takeFrame setup conn = .ok f) :
    (∀ need, f = .wait need → parseRound setup w conn = .ok (some need, conn)) ∧
      ∀ rest, f = .skip rest →
        parseRound setup w conn = .ok (none, { conn with input := rest }) := by
  have hnote : noteQuickack conn = conn := if_neg (fun hq => by simp [h.quickack] at hq)
  unfold parseRound
  rw [if_neg (by simp [h.open_])]
  dsimp only
  rw [hnote, hf]
  constructor
  · rintro need rfl
    rfl
  · rintro rest rfl
    rfl

theorem Awaits.waits (h : Awaits setup items future conn) (hall : future = [] → items = [])
    (hwait : ∃ need, takeFrame setup conn = .ok (.wait need)) :
    Gives setup ex items future conn (parsePackets setup world i (fuel + 1) conn) := by
  obtain ⟨need, hwait⟩ := hwait
  exact ⟨need, conn, [], items, parsePackets_of_some ((h.round hwait).1 need rfl), rfl, h, hall,
    (List.append_nil _).symm⟩

/-- A round takes an item off. -/
theorem Gives.cons {item : Option Bytes} {conn₁ : RpcsConn}
    (hround : parseRound setup (world i) conn = .ok (none, conn₁))
    (hsent : conn₁.sent = conn.sent ++ item.toList.flatMap (answersOf ex))
    (h : Gives setup ex items future conn₁ (parsePackets setup world (i + 1) fuel conn₁)) :
    Gives setup ex (item :: items) future conn (parsePackets setup world i (fuel + 1) conn) := by
  obtain ⟨ret, conn', done, rest, hloop, hsplit, hlast, hall, hserved⟩ := h
  refine ⟨ret, conn', item :: done, rest, (parsePackets_of_none hround).trans hloop, ?_, hlast,
    hall, ?_⟩
  · rw [hsplit, List.cons_append]
  · rw [hserved, hsent, List.append_assoc, ← List.flatMap_append]
    cases item <;> rfl

/-- **The loop** serves what is at hand. -/
theorem parsePackets_serves (hw : ∀ i, (world i).execute = ex)
    (hex : ∀ op msg, (ex op msg).fails = false ∧ (ex op msg).stopsParse = false)
    (hmax : 4 ≤ setup.maxPacketLen ∨ setup.maxPacketLen ≤ 0)
    (h : Awaits setup items future conn) (hfuel : conn.input.length < fuel) :
    Gives setup ex items future conn (parsePackets setup world i fuel conn) := by
  induction fuel generalizing i items conn with
  | zero => omega
  | succ fuel ih =>
    obtain ⟨hopen, hquick, hfits, hnum, hstream⟩ := id h
    cases items with
    | nil =>
      have hempty : conn.input = [] := (List.append_eq_nil_iff.mp hstream).1
      exact h.waits (fun _ => rfl) (takeFrame_short (by simp [hempty]))
    | cons item items =>
      cases item with
      | none =>
        rcases frame_or_rest hstream with ⟨more, hmore, hpart, hfuture⟩ | ⟨rest, hinput, hrest⟩
        · apply h.waits (fun hnil => absurd hnil hfuture)
          have hlen := congrArg List.length hpart
          rw [length_intBytes, List.length_append] at hlen
          have hpos := List.length_pos_iff.mpr hmore
          exact takeFrame_short (by omega)
        · refine Gives.cons ((h.round (takeFrame_pad hquick hmax hinput)).2 rest rfl)
            (List.append_nil _).symm (ih ⟨hopen, hquick, hfits, hnum, hrest⟩ ?_)
          rw [hinput, List.length_append, length_intBytes] at hfuel
          show rest.length < fuel
          omega
      | some raw =>
        rw [List.reduceOption_cons_of_some] at hfits hnum
        rw [List.length_cons] at hnum
        have hraw := hfits raw List.mem_cons_self
        rcases frame_or_rest hstream with ⟨more, hmore, hpart, hfuture⟩ | ⟨rest, hinput, hrest⟩
        · exact h.waits (fun hnil => absurd hnil hfuture) (takeFrame_waits hraw hquick hmore hpart)
        · refine Gives.cons (parseRound_packet ⟨hopen.1, hopen.2.1⟩ hquick hraw
            ⟨hnum.1, by omega⟩ (by rw [hw]; exact hex _ _) hinput) (by rw [hw]; simp)
            (ih ⟨hopen, hquick, fun r hr => hfits r (List.mem_cons_of_mem _ hr), ⟨?_, ?_⟩, hrest⟩
              ?_)
          · show 0 ≤ conn.inPacketNum + 1
            omega
          · show conn.inPacketNum + 1 + _ < _
            omega
          · rw [hinput, List.length_append, length_frameBytes] at hfuel
            show rest.length < fuel
            omega

end Loop

/-- **Reads in any cutting** serve all that was written. -/
theorem run_readStep {es : List RpcsRead} (hw : ∀ e ∈ es, ∀ i, (e.world i).execute = ex)
    (hex : ∀ op msg, (ex op msg).fails = false ∧ (ex op msg).stopsParse = false)
    (hmax : 4 ≤ setup.maxPacketLen ∨ setup.maxPacketLen ≤ 0)
    (h : Awaits setup items (es.flatMap (·.chunk)) conn) (hlast : conn.input = [] ∨ es ≠ []) :
    ∃ conn', Runs.run (readStep setup) conn es = some conn' ∧ Awaits setup [] [] conn' ∧
      conn'.sent = conn.sent ++ items.reduceOption.flatMap (answersOf ex) := by
  induction es generalizing items conn with
  | nil =>
    have hempty : conn.input = [] := hlast.resolve_right (fun hne => hne rfl)
    have hstream := h.stream
    rw [hempty] at hstream
    cases items with
    | nil => exact ⟨conn, rfl, h, (List.append_nil _).symm⟩
    | cons item items =>
      have hlen := congrArg List.length hstream
      cases item <;> simp [rpcStream, length_frameBytes] at hlen <;> omega
  | cons e es ih =>
    rw [List.flatMap_cons] at h
    have hread : Awaits setup items (es.flatMap (·.chunk))
        { conn with input := conn.input ++ e.chunk } :=
      ⟨h.open_, h.quickack, h.fits, h.num, (List.append_assoc _ _ _).trans h.stream⟩
    obtain ⟨ret, conn₁, done, rest, hloop, hsplit, hnext, hall, hsent⟩ :=
      parsePackets_serves (i := 0) (hw e List.mem_cons_self) hex hmax hread (Nat.lt_succ_self _)
    have hstep : readStep setup conn e = some conn₁ := by
      unfold readStep readCall tcpRpcsParseExecute
      rw [if_neg (by simp [h.open_]), hloop]
    have hmore : conn₁.input = [] ∨ es ≠ [] := by
      by_cases hes : es = []
      · left
        have hstream := hnext.stream
        rw [hall (by rw [hes]; rfl)] at hstream
        exact (List.append_eq_nil_iff.mp hstream).1
      · exact Or.inr hes
    obtain ⟨conn', hrun, hend, hserved⟩ :=
      ih (fun e he => hw e (List.mem_cons_of_mem _ he)) hnext hmore
    refine ⟨conn', Runs.run_cons.mpr ⟨conn₁, hstep, hrun⟩, hend, ?_⟩
    rw [hserved, hsent, hsplit, List.reduceOption_append, List.flatMap_append, List.append_assoc]

/-- The two ends of a connection after the handshake. -/
structure RpcPair (setup : RpcsSetup) (o : OutConn) (conn : RpcsConn) : Prop where
  full : ¬ (o.rpcFlags.compact ∨ o.rpcFlags.medium)
  quickack : conn.cryptoFlags.quickack = false
  open_ : conn.error = false ∧ conn.stopParse = false ∧ conn.http = false
  empty : o.out = [] ∧ conn.input = []
  number : o.outPacketNum = conn.inPacketNum ∧ 0 ≤ conn.inPacketNum
  crc : o.customCrcPartial = conn.customCrcPartial

/-- **The round trip**: whatever is written and flushed, and whatever reads it comes in, the server
answers to each payload once, in their order, and nothing is left of the input. -/
theorem rpc_round_trip {o : OutConn} (hpair : RpcPair setup o conn)
    (hmax : 4 ≤ setup.maxPacketLen ∨ setup.maxPacketLen ≤ 0)
    (hex : ∀ op msg, (ex op msg).fails = false ∧ (ex op msg).stopsParse = false)
    {ws : List RpcWrite} (hfits : ∀ raw ∈ payloads ws, setup.Fits raw)
    (hcount : o.outPacketNum + (payloads ws).length < 2 ^ 31) :
    ∃ o', Runs.run (OutConn.rpcWrite setup.checksums) o ws = some o' ∧
      ∀ es : List RpcsRead, (∀ e ∈ es, ∀ i, (e.world i).execute = ex) →
        es.flatMap (·.chunk) = o'.out →
        ∃ conn', Runs.run (readStep setup) conn es = some conn' ∧ conn'.input = [] ∧
          conn'.error = false ∧
          conn'.sent = conn.sent ++ (payloads ws).flatMap (answersOf ex) := by
  obtain ⟨o', items, hrun, hitems, hout⟩ := run_rpcWrite hpair.full (by rw [hpair.empty.1]; rfl)
    hfits (by rw [hpair.number.1]; exact hpair.number.2) hcount
  refine ⟨o', hrun, fun es hw hchunks => ?_⟩
  have hstream : Awaits setup items (es.flatMap (·.chunk)) conn := by
    refine ⟨hpair.open_, hpair.quickack, by rw [hitems]; exact hfits, ⟨hpair.number.2, ?_⟩, ?_⟩
    · rw [hitems, ← hpair.number.1]
      exact hcount
    · rw [hpair.empty.2, hchunks, hout, hpair.empty.1, hpair.crc, hpair.number.1]
      rfl
  obtain ⟨conn', hreads, hend, hsent⟩ := run_readStep hw hex hmax hstream (Or.inl hpair.empty.2)
  rw [hitems] at hsent
  exact ⟨conn', hreads, (List.append_eq_nil_iff.mp hend.stream).1, hend.open_.1, hsent⟩

/-- A payload of four bytes and a flush, to a server that sends each payload back. -/
theorem rpc_round_trip_echo :
    ∃ o', Runs.run (OutConn.rpcWrite RpcsSetup.local.checksums)
        { OutConn.compact with rpcFlags := ⟨false, false, false, false, false⟩ }
        [.packet [1, 2, 3, 4], .flush] = some o' ∧
      ∀ es : List RpcsRead,
        (∀ e ∈ es, ∀ i, (e.world i).execute = fun _ msg => ⟨false, false, [msg]⟩) →
        es.flatMap (·.chunk) = o'.out →
        ∃ conn', Runs.run (readStep RpcsSetup.local) { RpcsConn.local with inPacketNum := 0 } es =
            some conn' ∧ conn'.input = [] ∧ conn'.error = false ∧
          conn'.sent = [] ++ [[1, 2, 3, 4]] := by
  have hpair : RpcPair RpcsSetup.local
      { OutConn.compact with rpcFlags := ⟨false, false, false, false, false⟩ }
      { RpcsConn.local with inPacketNum := 0 } :=
    ⟨by decide, rfl, ⟨rfl, rfl, rfl⟩, ⟨rfl, rfl⟩, ⟨rfl, le_rfl⟩, rfl⟩
  have hfits : ∀ raw ∈ payloads [.packet [1, 2, 3, 4], .flush], RpcsSetup.local.Fits raw := by
    intro raw hraw
    rw [List.mem_singleton.mp hraw]
    exact ⟨by decide, by decide, by decide, by decide⟩
  exact rpc_round_trip hpair (by decide) (fun _ _ => ⟨rfl, rfl⟩) hfits (by decide)

end Reading

end MtprotoProxy
