/-
# HTTP dates

`gen_http_date` and `gen_http_time` from `net/net-http-server.c`, and that the second reads what
the first writes.

Both functions use and change the table `dd` of the lengths of the months: `gen_http_date` sets
February to the length that it has in the year, `gen_http_time` to 28.  Whatever was called before,
`dd` is the table with some length of February (`ddWith`), and both set it before they use it.

The two directions do the calendar differently: `gen_http_date` divides by the cycle of four years
and takes the years and the months off, `gen_http_time` counts the leap years with a shift.  They
meet in `dayNumber`.  A failed assertion and a write outside the buffer are `none`.
-/
import MtprotoProxy.CStdio
import MtprotoProxy.Runs

namespace MtprotoProxy

open CLib Runs

/-! ## The code -/

/-- The table `months`. -/
def months : Bytes := "JanFebMarAprMayJunJulAugSepOctNovDecGlk".toUTF8.toList

/-- The table `dows`. -/
def dows : Bytes := "SunMonTueWedThuFriSatEar".toUTF8.toList

/-- The table `dd` with a length of February. -/
def ddWith (feb : ℤ) : List ℤ := [31, feb, 31, 30, 31, 30, 31, 31, 30, 31, 30, 31]

/-- The table `dd` at process start. -/
def ddInit : List ℤ := ddWith 28

/-- The year within its cycle of four years, and the day in the year. -/
def yearInCycle (year xd : ℤ) : ℤ × ℤ :=
  if 365 ≤ xd then
    if 365 ≤ xd - 365 then
      if 366 ≤ xd - 365 - 365 then (year + 1 + 1 + 1, xd - 365 - 365 - 366)
      else (year + 1 + 1, xd - 365 - 365)
    else (year + 1, xd - 365)
  else (year, xd)

/-- The loop over the months: the month, and the day in it. -/
def monthLoop : List ℤ → ℤ → ℕ → ℕ × ℤ
  | [], xd, i => (i, xd)
  | len :: dd, xd, i => if xd < len then (i, xd) else monthLoop dd (xd - len) (i + 1)

/-- What `sprintf` writes for the format `"%.3s, %.2d %.3s %d %.2d:%.2d:%.2d GM"`. -/
def dateText (dow : ℕ) (day : ℤ) (mon : ℕ) (year hour min sec : ℤ) : Bytes :=
  slice dows (3 * dow) 3 ++ [44, 32] ++ fmtPrec 2 day ++ [32] ++ slice months (3 * mon) 3 ++ [32]
    ++ fmtInt year ++ [32] ++ fmtPrec 2 hour ++ [58] ++ fmtPrec 2 min ++ [58] ++ fmtPrec 2 sec
    ++ [32, 71, 77]

/-- `gen_http_date`: the table `dd` and the buffer afterwards. -/
def genHttpDate (dd : List ℤ) (date_buffer : Bytes) (time : ℤ) : Option (List ℤ × Bytes) := do
  let time := if time < 0 then 0 else time
  let sec := time % 60
  let time := time / 60
  let min := time % 60
  let time := time / 60
  let hour := time % 24
  let time := time / 24
  let dow := (time + 4) % 7
  let xd := time % (365 * 3 + 366)
  let time := time / (365 * 3 + 366)
  let (year, xd) := yearInCycle (time * 4 + 1970) xd
  let dd := dd.set 1 (if year % 4 ≠ 0 then 28 else 29)
  let (mon, xd) := monthLoop dd xd 0
  let day := xd + 1
  guard (1 ≤ day ∧ day ≤ 31 ∧ mon ≤ 11 ∧ 1970 ≤ year ∧ year ≤ 2039)
  let text := dateText dow.toNat day mon year hour min sec
  guard (text.length < date_buffer.length)
  some (dd, (memcpyAt date_buffer 0 (text ++ [0])).set 28 84)

/-- The format `"%3s, %d %3s %d %d:%d:%d %15s"`. -/
def dateFormat : List ScanDirective :=
  [.word 3, .char 44, .blank, .int, .blank, .word 3, .blank, .int, .blank, .int, .char 58, .int,
    .char 58, .int, .blank, .word 15]

/-- The loop of `gen_http_time` over the names of the months; `month` is compared with its
terminating zero. -/
def findMonth (month : Bytes) : Option ℕ :=
  (List.range 12).find? (fun mon => slice months (3 * mon) 3 = (month ++ [0, 0, 0]).take 3)

/-- The number of the day, counted from the start of 1970. -/
def dayNumber (dd : List ℤ) (year : ℤ) (mon : ℕ) (day : ℤ) : ℤ :=
  (year - 1970) * 365 + (year - 1969) / 4 + (day - 1) + (if year % 4 = 0 ∧ 2 ≤ mon then 1 else 0)
    + (dd.take mon).sum

/-- `gen_http_time`: the table `dd` afterwards, the result, and what is stored in `time`. -/
def genHttpTime (dd : List ℤ) (date_buffer : Bytes) : List ℤ × ℤ × Option ℤ :=
  match sscanf dateFormat (cstr date_buffer) with
  | [.word _, .int day, .word month, .int year, .int hour, .int min, .int sec, .word tz] =>
    match findMonth month with
    | none => (dd, -11, none)
    | some mon =>
      if year < 1970 ∨ 2039 < year then (dd, -12, none)
      else if hour < 0 ∨ 24 ≤ hour then (dd, -13, none)
      else if min < 0 ∨ 60 ≤ min then (dd, -14, none)
      else if sec < 0 ∨ 60 ≤ sec then (dd, -15, none)
      else if tz ≠ [71, 77, 84] then (dd, -16, none)
      else
        let dd := dd.set 1 28
        let d := dayNumber dd year mon day
        (dd, 0, some (wrap32 (((d * 24 + hour) * 60 + min) * 60 + sec)))
  | values => (dd, if 0 < values.length then -values.length else -8, none)

/-! ## The calendar -/

@[simp] theorem ddWith_set (feb feb' : ℤ) : (ddWith feb).set 1 feb' = ddWith feb' := rfl

/-- **The month and the day in it**: the lengths of the months before it add up to the rest. -/
theorem monthLoop_spec : ∀ {dd : List ℤ} {xd : ℤ} {i : ℕ}, 0 ≤ xd → xd < dd.sum →
    ∃ j rest, monthLoop dd xd i = (i + j, rest) ∧ j < dd.length ∧ 0 ≤ rest ∧
      rest < dd.getD j 0 ∧ (dd.take j).sum + rest = xd := by
  intro dd
  induction dd with
  | nil =>
    intro xd i h0 h
    rw [List.sum_nil] at h
    omega
  | cons len dd ih =>
    intro xd i h0 h
    rw [List.sum_cons] at h
    rw [monthLoop]
    by_cases hlt : xd < len
    · rw [if_pos hlt]
      exact ⟨0, xd, rfl, Nat.succ_pos _, h0, by simpa using hlt, by simp⟩
    · rw [if_neg hlt]
      obtain ⟨j, rest, hloop, hj, hr0, hr, hsum⟩ := ih (i := i + 1) (sub_nonneg.mpr (not_lt.mp hlt))
        (by omega : xd - len < dd.sum)
      refine ⟨j + 1, rest, ?_, Nat.succ_lt_succ hj, hr0, by simpa using hr, ?_⟩
      · rw [hloop, Nat.add_assoc, Nat.add_comm 1 j]
      · rw [List.take_succ_cons, List.sum_cons]
        omega

/-- The days before a month, with February counted as 28 days and with its length. -/
theorem sum_take_ddWith {mon : ℕ} (h : mon < 12) (feb : ℤ) :
    ((ddWith feb).take mon).sum = ((ddWith 28).take mon).sum + if 2 ≤ mon then feb - 28 else 0 := by
  interval_cases mon <;> simp [ddWith] <;> ring

/-- No month is longer than 31 days. -/
theorem getD_ddWith_le {feb : ℤ} (hfeb : feb ≤ 29) (mon : ℕ) : (ddWith feb).getD mon 0 ≤ 31 := by
  by_cases h : mon < 12
  · interval_cases mon <;> simp [ddWith]
    omega
  · rw [List.getD_eq_default _ _ (by simpa [ddWith] using h)]
    norm_num

/-- **The year within its cycle.**  The third year of a cycle is the leap year. -/
theorem yearInCycle_spec {q xd : ℤ} (h0 : 0 ≤ xd) (h : xd < 1461) :
    ∃ year rest, yearInCycle (q * 4 + 1970) xd = (year, rest) ∧ q * 4 + 1970 ≤ year ∧
      year ≤ q * 4 + 1973 ∧ 0 ≤ rest ∧
      rest < (ddWith (if year % 4 ≠ 0 then 28 else 29)).sum ∧
      (year - 1970) * 365 + (year - 1969) / 4 + rest = 1461 * q + xd := by
  have hsum : ∀ feb, (ddWith feb).sum = 337 + feb := by
    intro feb
    simp [ddWith]
    ring
  simp only [hsum]
  unfold yearInCycle
  split
  · split
    · split
      · refine ⟨_, _, rfl, by omega, by omega, by omega, ?_, by omega⟩
        rw [if_pos (by omega)]
        omega
      · refine ⟨_, _, rfl, by omega, by omega, by omega, ?_, by omega⟩
        rw [if_neg (by omega)]
        omega
    · refine ⟨_, _, rfl, by omega, by omega, by omega, ?_, by omega⟩
      rw [if_pos (by omega)]
      omega
  · refine ⟨_, _, rfl, by omega, by omega, by omega, ?_, by omega⟩
    rw [if_pos (by omega)]
    omega

/-! ## The text -/

/-- The names are three letters long. -/
theorem dow_name {dow : ℕ} (h : dow < 7) :
    (slice dows (3 * dow) 3).length = 3 ∧ ∀ c ∈ slice dows (3 * dow) 3, isSpace c = false ∧ c ≠ 0 := by
  revert h dow
  decide +kernel

theorem month_name {mon : ℕ} (h : mon < 12) :
    ((slice months (3 * mon) 3).length = 3 ∧
      ∀ c ∈ slice months (3 * mon) 3, isSpace c = false ∧ c ≠ 0) ∧
      findMonth (slice months (3 * mon) 3) = some mon := by
  revert h mon
  decide +kernel

/-- Two digits. -/
theorem length_padDigits_two : ∀ n < 100, (padDigits 2 (fmtNat n)).length = 2 := by
  decide +kernel

/-- Four digits. -/
theorem length_fmtNat_year : ∀ n < 70, (fmtNat (1970 + n)).length = 4 := by
  decide +kernel

/-- The fields of a date. -/
structure DateFields (dow day mon year hour min sec : ℕ) : Prop where
  dow : dow < 7
  day : 1 ≤ day ∧ day ≤ 31
  mon : mon < 12
  year : 1970 ≤ year ∧ year < 2040
  hour : hour < 24
  min : min < 60
  sec : sec < 60

section Text

variable {dow day mon year hour min sec : ℕ}

/-- **The text is 28 characters long**, so that its zero is the last byte of the buffer. -/
theorem length_dateText (h : DateFields dow day mon year hour min sec) :
    (dateText dow day mon year hour min sec).length = 28 := by
  obtain ⟨hdow, ⟨-, hday⟩, hmon, ⟨hyear, hyear'⟩, hhour, hmin, hsec⟩ := h
  have hy := length_fmtNat_year (year - 1970) (by omega)
  rw [show 1970 + (year - 1970) = year by omega] at hy
  simp only [dateText, fmtPrec_natCast, fmtInt_natCast, List.length_append,
    (dow_name hdow).1, (month_name hmon).1.1, length_padDigits_two day (by omega),
    length_padDigits_two hour (by omega), length_padDigits_two min (by omega),
    length_padDigits_two sec (by omega), hy, List.length_cons, List.length_nil]

/-- The text has no zero in it. -/
theorem zero_notMem_dateText (h : DateFields dow day mon year hour min sec) :
    (0 : UInt8) ∉ dateText dow day mon year hour min sec := by
  have hdigits : ∀ n k, (0 : UInt8) ∉ padDigits n (fmtNat k) := by
    intro n k hmem
    exact absurd (isDigit_of_mem_padDigits hmem) (by decide)
  have hyear : (0 : UInt8) ∉ fmtNat year :=
    fun hmem => absurd (isDigit_of_mem_fmtNat hmem) (by decide)
  have hdow : (0 : UInt8) ∉ slice dows (3 * dow) 3 :=
    fun hmem => ((dow_name h.dow).2 0 hmem).2 rfl
  have hmon : (0 : UInt8) ∉ slice months (3 * mon) 3 :=
    fun hmem => ((month_name h.mon).1.2 0 hmem).2 rfl
  simp only [dateText, fmtPrec_natCast, fmtInt_natCast, List.mem_append, hdigits, hyear, hdow,
    hmon, false_or, or_false]
  decide

/-- **The scanner reads the fields of the text.** -/
theorem sscanf_dateText (h : DateFields dow day mon year hour min sec) :
    sscanf dateFormat (dateText dow day mon year hour min sec ++ [84])
      = [.word (slice dows (3 * dow) 3), .int day, .word (slice months (3 * mon) 3), .int year,
          .int hour, .int min, .int sec, .word [71, 77, 84]] := by
  obtain ⟨hdow, ⟨-, hday⟩, hmon, ⟨-, hyear⟩, hhour, hmin, hsec⟩ := h
  obtain ⟨hdowlen, hdow⟩ := dow_name hdow
  obtain ⟨⟨hmonlen, hmon⟩, -⟩ := month_name hmon
  have hdigits : ∀ k, ∀ c ∈ padDigits 2 (fmtNat k), isDigit c = true :=
    fun k c hc => isDigit_of_mem_padDigits hc
  have hspace : ∀ k, ∀ c ∈ padDigits 2 (fmtNat k), isSpace c = false :=
    fun k c hc => isDigit_not_isSpace (hdigits k c hc)
  have hydigits : ∀ c ∈ fmtNat year, isDigit c = true := fun c hc => isDigit_of_mem_fmtNat hc
  have hne : ∀ k, padDigits 2 (fmtNat k) ≠ [] := padDigits_ne_nil 2
  have hnil : ∀ {w : Bytes}, w.length = 3 → w ≠ [] := by
    rintro w hw rfl
    exact absurd hw (by decide)
  have hstop : ∀ {c : UInt8} {rest : Bytes}, isDigit c = false → NoDigit (c :: rest) := by
    intro c rest hc d hd
    rw [List.head?_cons, Option.mem_some] at hd
    rw [← hd, hc]
  simp only [dateText, fmtPrec_natCast, fmtInt_natCast, List.append_assoc, List.cons_append,
    List.nil_append, dateFormat]
  rw [sscanf_word (fun c hc => (hdow c hc).1) (hnil hdowlen) hdowlen.le (Or.inl hdowlen),
    sscanf_char, sscanf_blank (hne day) (hspace day),
    sscanf_int (hdigits day) (hne day) (hstop (by decide)) (by rw [decValue_padDigits]; omega),
    sscanf_blank (hnil hmonlen) (fun c hc => (hmon c hc).1),
    sscanf_word (fun c hc => (hmon c hc).1) (hnil hmonlen) hmonlen.le (Or.inl hmonlen),
    sscanf_blank (fmtNat_ne_nil year) (fun c hc => isDigit_not_isSpace (hydigits c hc)),
    sscanf_int hydigits (fmtNat_ne_nil year) (hstop (by decide)) (by rw [decValue_fmtNat]; omega),
    sscanf_blank (hne hour) (hspace hour),
    sscanf_int (hdigits hour) (hne hour) (hstop (by decide)) (by rw [decValue_padDigits]; omega),
    sscanf_char,
    sscanf_int (hdigits min) (hne min) (hstop (by decide)) (by rw [decValue_padDigits]; omega),
    sscanf_char,
    sscanf_int (hdigits sec) (hne sec) (hstop (by decide)) (by rw [decValue_padDigits]; omega)]
  simp only [decValue_padDigits, decValue_fmtNat]
  rfl

end Text

/-! ## The two functions -/

/-- What `gen_http_date` has in its buffer: the text, with the last letter over its zero. -/
theorem buffer_dateText {buf text : Bytes} (hbuf : buf.length = 29) (htext : text.length = 28) :
    (memcpyAt buf 0 (text ++ [0])).set 28 84 = text ++ [84] := by
  have hlen : (text ++ [(0 : UInt8)]).length = 29 := by simp [htext]
  have hcopy : memcpyAt buf 0 (text ++ [0]) = text ++ [0] := by
    unfold memcpyAt
    rw [hlen, List.take_zero, List.nil_append, List.drop_of_length_le (by omega), List.append_nil]
  rw [hcopy, List.set_append_right _ _ (by omega), htext]
  rfl

/-- **`gen_http_date` fails no assertion** and writes the text of the fields whose time it was
given, negative times counting as 0. -/
theorem genHttpDate_spec {feb t : ℤ} {buf : Bytes} (hbuf : buf.length = 29) (ht : t < 2 ^ 31) :
    ∃ (feb' : ℤ) (dow day mon year hour min sec : ℕ),
      DateFields dow day mon year hour min sec ∧
      genHttpDate (ddWith feb) buf t
        = some (ddWith feb', dateText dow day mon year hour min sec ++ [84]) ∧
      ((dayNumber (ddWith 28) year mon day * 24 + hour) * 60 + min) * 60 + sec = max t 0 := by
  obtain ⟨n, hn, hmax⟩ : ∃ n : ℕ, (if t < 0 then 0 else t) = (n : ℤ) ∧ max t 0 = n := by
    by_cases hneg : t < 0
    · exact ⟨0, by rw [if_pos hneg]; rfl, by rw [max_eq_right hneg.le]; rfl⟩
    · refine ⟨t.toNat, ?_, ?_⟩
      · rw [if_neg hneg]
        omega
      · rw [max_eq_left (not_lt.mp hneg)]
        omega
  have hlt : n < 2 ^ 31 := by
    have : max t 0 < 2 ^ 31 := max_lt ht (by norm_num)
    omega
  set days : ℤ := (n : ℤ) / 60 / 60 / 24 with hdays
  have hdays' : 0 ≤ days ∧ days < 24856 := by omega
  obtain ⟨year, rest, hcycle, hylo, hyhi, hr0, hr, hcount⟩ :=
    @yearInCycle_spec (days / (365 * 3 + 366)) (days % (365 * 3 + 366)) (by omega) (by omega)
  set feb' : ℤ := if year % 4 ≠ 0 then 28 else 29 with hfeb'
  have hfeb : feb' ≤ 29 := by
    rw [hfeb']
    split <;> omega
  obtain ⟨mon, xd, hloop, hmon, hx0, hx, hsum⟩ := monthLoop_spec (i := 0) hr0 hr
  rw [Nat.zero_add] at hloop
  have hmon' : mon < 12 := hmon
  have hx31 := hx.trans_le (getD_ddWith_le hfeb mon)
  have hyear : 1970 ≤ year ∧ year ≤ 2039 := by omega
  obtain ⟨dayN, hday⟩ : ∃ d : ℕ, xd + 1 = (d : ℤ) := ⟨(xd + 1).toNat, by omega⟩
  obtain ⟨yearN, rfl⟩ : ∃ y : ℕ, year = (y : ℤ) := ⟨year.toNat, by omega⟩
  have hdow : ((days + 4) % 7).toNat < 7 := by omega
  have hfields : DateFields ((days + 4) % 7).toNat dayN mon yearN (n / 60 / 60 % 24) (n / 60 % 60)
      (n % 60) :=
    ⟨hdow, by omega, hmon', by omega, Nat.mod_lt _ (by norm_num), Nat.mod_lt _ (by norm_num),
      Nat.mod_lt _ (by norm_num)⟩
  refine ⟨feb', _, _, _, _, _, _, _, hfields, ?_, ?_⟩
  · have hlen := length_dateText hfields
    unfold genHttpDate
    simp only [hn, ← hdays, hcycle, ddWith_set, ← hfeb', hloop, hday]
    have hassert : 1 ≤ (dayN : ℤ) ∧ (dayN : ℤ) ≤ 31 ∧ mon ≤ 11 ∧ 1970 ≤ (yearN : ℤ) ∧
        (yearN : ℤ) ≤ 2039 := ⟨by omega, by omega, by omega, hyear⟩
    push_cast at hlen ⊢
    simp only [guard, if_pos hassert, Option.pure_def, some_bind, hlen, hbuf, if_pos (by norm_num :
      28 < 29), buffer_dateText hbuf hlen]
  · rw [hmax]
    have hleap := sum_take_ddWith hmon' feb'
    rw [hleap] at hsum
    have hday_number : dayNumber (ddWith 28) yearN mon dayN = days := by
      unfold dayNumber
      by_cases hy : (yearN : ℤ) % 4 = 0
      · have hleap29 : feb' = 29 := by rw [hfeb', if_neg (not_not.mpr hy)]
        rw [hleap29] at hsum
        by_cases hm : 2 ≤ mon
        · rw [if_pos hm] at hsum
          rw [if_pos ⟨hy, hm⟩]
          omega
        · rw [if_neg hm] at hsum
          rw [if_neg (fun h => hm h.2)]
          omega
      · have hleap28 : feb' = 28 := by rw [hfeb', if_pos hy]
        rw [hleap28, sub_self, ite_self] at hsum
        rw [if_neg (fun h => hy h.1)]
        omega
    rw [hday_number]
    push_cast
    omega

/-- **`gen_http_time` reads the time** off a text with good fields. -/
theorem genHttpTime_dateText {feb : ℤ} {dow day mon year hour min sec : ℕ} {t : ℤ}
    (h : DateFields dow day mon year hour min sec)
    (ht : ((dayNumber (ddWith 28) year mon day * 24 + hour) * 60 + min) * 60 + sec = t)
    (hint : IsInt32 t) :
    genHttpTime (ddWith feb) (dateText dow day mon year hour min sec ++ [84] ++ [0])
      = (ddWith 28, 0, some t) := by
  have hcstr : cstr (dateText dow day mon year hour min sec ++ [84] ++ [0])
      = dateText dow day mon year hour min sec ++ [84] := by
    apply cstr_append_zero
    rw [List.mem_append, not_or]
    exact ⟨zero_notMem_dateText h, by decide⟩
  have hmonth := (month_name h.mon).2
  obtain ⟨-, -, -, ⟨hyear, hyear'⟩, hhour, hmin, hsec⟩ := id h
  unfold genHttpTime
  rw [hcstr, sscanf_dateText h]
  simp only [hmonth, ddWith_set, ht, wrap32_of_isInt32 hint]
  rw [if_neg (by omega), if_neg (by omega), if_neg (by omega), if_neg (by omega),
    if_neg (by decide)]

/-! ## Runs -/

/-- A call of `gen_http_date` with any buffer and time, or of `gen_http_time` with any text. -/
inductive DateEvent where
  | gen (buf : { b : Bytes // b.length = 29 }) (t : { t : ℤ // IsInt32 t })
  | parse (buf : Bytes)

/-- What a call does to the table `dd`; `none` is a failed assertion. -/
def DateEvent.step (dd : List ℤ) : DateEvent → Option (List ℤ)
  | .gen buf t => (genHttpDate dd buf.val t.val).map Prod.fst
  | .parse buf => some (genHttpTime dd buf).1

/-- Parsing any text leaves a table of month lengths. -/
theorem genHttpTime_dd (feb : ℤ) (buf : Bytes) :
    ∃ feb', (genHttpTime (ddWith feb) buf).1 = ddWith feb' := by
  unfold genHttpTime
  split
  · split
    · exact ⟨feb, rfl⟩
    · split_ifs
      · exact ⟨feb, rfl⟩
      · exact ⟨feb, rfl⟩
      · exact ⟨feb, rfl⟩
      · exact ⟨feb, rfl⟩
      · exact ⟨feb, rfl⟩
      · exact ⟨28, rfl⟩
  · exact ⟨feb, rfl⟩

/-- **One call** fails no assertion and leaves a table of month lengths. -/
theorem DateEvent.step_spec (feb : ℤ) (e : DateEvent) :
    ∃ dd', e.step (ddWith feb) = some dd' ∧ ∃ feb', dd' = ddWith feb' := by
  cases e with
  | gen buf t =>
    obtain ⟨feb', _, _, _, _, _, _, _, -, hrun, -⟩ :=
      @genHttpDate_spec feb t.val buf.val buf.property t.property.2
    exact ⟨ddWith feb', by rw [DateEvent.step, hrun]; rfl, feb', rfl⟩
  | parse buf =>
    obtain ⟨feb', h⟩ := genHttpTime_dd feb buf
    exact ⟨_, rfl, feb', h⟩

/-- **The round trip of HTTP dates.**  After any calls of the two functions, none of which fails an
assertion, `gen_http_date` fails none for any time from 0 below `2^31`, and `gen_http_time` reads
that time from the buffer and a zero behind it. -/
theorem http_date_round_trip (es : List DateEvent) (buf : { b : Bytes // b.length = 29 }) {t : ℤ}
    (h0 : 0 ≤ t) (ht : t < 2 ^ 31) :
    ∃ dd dd' date, run DateEvent.step ddInit es = some dd ∧
      genHttpDate dd buf.val t = some (dd', date) ∧ date.length = 29 ∧
      (genHttpTime dd' (date ++ [0])).2 = (0, some t) := by
  have hstep : ∀ (dd : List ℤ) (e : DateEvent), (∃ feb, dd = ddWith feb) → True →
      ∃ dd', e.step dd = some dd' ∧ ∃ feb, dd' = ddWith feb := by
    rintro dd e ⟨feb, rfl⟩ -
    exact e.step_spec feb
  obtain ⟨dd, hrun, feb, rfl⟩ := run_total hstep ⟨28, rfl⟩
    (along_of_always (fun _ _ _ => trivial))
  obtain ⟨feb', dow, day, mon, year, hour, min, sec, hfields, hgen, htime⟩ :=
    @genHttpDate_spec feb t buf.val buf.property ht
  rw [max_eq_left h0] at htime
  refine ⟨_, _, _, hrun, hgen, ?_, ?_⟩
  · rw [List.length_append, length_dateText hfields]
    rfl
  · rw [genHttpTime_dateText hfields htime ⟨by omega, ht⟩]

/-- The last second of the range, after a date before 1970 and a text that is no date. -/
theorem http_date_round_trip_last :
    ∃ dd dd' date, run DateEvent.step ddInit
        [.gen ⟨List.replicate 29 0, rfl⟩ ⟨-1, by decide⟩, .parse [65]] = some dd ∧
      genHttpDate dd (List.replicate 29 0) 2147483647 = some (dd', date) ∧ date.length = 29 ∧
      (genHttpTime dd' (date ++ [0])).2 = (0, some 2147483647) :=
  http_date_round_trip _ ⟨List.replicate 29 0, rfl⟩ (by norm_num) (by norm_num)

end MtprotoProxy
