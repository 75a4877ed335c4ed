import DtCore.Foundation.CString
import DtCore.Log.RtLog.Buffers
import DtCore.Log.RtTui.Sink

/-!
# Raw messages

`LogRaw` writes a message to the standard error without the queue and without spdlog.  Its
line is put together in an array on the stack: the header, what fits of the message, and a
newline in the place of the terminator.

A write outside of the array and a subtraction of unsigned numbers below zero are errors, as
for the buffers of the stream objects.  The array holds anything before.  The result of
`write` is not used, so that the call alone counts.

Main definitions:

- `rawHeader`: the text of the header.
- `rawLine`: the work on the array, for any text of the header.
- `logRaw`: `LogRaw`.

Main results:

- Theorem `rawLine_eq`: the line for every header and every message.
- Theorem `length_rawHeader_le`: the header fits.
- Theorem `logRaw_clean`: one line without null bytes.
- Theorem `longText_lost`: a text that is too long for `vsnprintf`.
-/

namespace DtCore
namespace Log
namespace RtLog

open Foundation
open RtTui (Bytes ascii ansi sinkColorFor)

/-! ## The header -/

/-- `struct timespec`. -/
structure Timespec where
  tvSec : Int
  tvNsec : Nat
  tvNsec_lt : tvNsec < 10 ^ 9

/-- `lc`. -/
def levelLetter : LogLevel → UInt8
  | .trace => 'T'.toUInt8
  | .debug => 'D'.toUInt8
  | .info => 'I'.toUInt8
  | .warn => 'W'.toUInt8
  | .err => 'E'.toUInt8
  | .critical => 'C'.toUInt8
  | .off => '?'.toUInt8

/-- `%02d` and `%06d`. -/
def zeroPadded (width : Nat) (val : Int) : Bytes :=
  IntFormat.print { zeroPad := true, width := width, conv := .signed } (BitVec.ofInt 64 val)

/-- The text of the header; `tzOffset` is `s_tz_offset`. -/
def rawHeader (lvl : LogLevel) (tzOffset : Int) (ts : Timespec) : Bytes :=
  let localSec := ts.tvSec + tzOffset
  let sod := localSec.tmod 86400
  let hh := sod.tdiv 3600
  let mm := (sod.tmod 3600).tdiv 60
  let ss := sod.tmod 60
  let us : Int := (ts.tvNsec / 1000 : Nat)
  sinkColorFor lvl ++ ascii "[" ++ [levelLetter lvl] ++ ascii "][" ++ zeroPadded 2 hh ++
    ascii ":" ++ zeroPadded 2 mm ++ ascii ":" ++ zeroPadded 2 ss ++ ascii "." ++
    zeroPadded 6 us ++ ascii "]" ++ ansi "[0m" ++ ansi "[1m" ++ ascii "[RAW]" ++
    ansi "[0m" ++ ascii " "

/-! ## The line -/

/-- `sizeof(buf)`. -/
def rawLen : Nat := 512

/-- `STDERR_FILENO`. -/
def stderrFileno : Int := 2

def newline : UInt8 := '\n'.toUInt8

/-- A call of `write`. -/
structure WriteCall where
  fd : Int
  data : Bytes

/-- `hdr` behind the check of what `snprintf` returned. -/
def checkedHdr (hdr : Int) : Nat :=
  if hdr < 0 ∨ hdr ≥ rawLen then 0 else hdr.toNat

/-- `total` in front of the newline. -/
def rawTotal (hdr : Nat) (msgN : Int) : Nat :=
  let msgN := if msgN < 0 then 0 else msgN.toNat
  let total := hdr + msgN
  if total ≥ rawLen - 1 then rawLen - 2 else total

/-- The message behind `hdr` bytes of a header, the newline, and the call of `write`. -/
def finishLine (hdr : Nat) (message : FormatResult) (buf : Block UInt8 rawLen) :
    Option WriteCall := do
  let room ← Buffers.unsignedSub rawLen hdr
  let room ← Buffers.unsignedSub room 1
  let (msgN, buf) ← buf.vsnprintf hdr room message
  let total := rawTotal hdr msgN
  let buf ← buf.copyIn total [newline]
  let data ← buf.slice 0 (total + 1)
  some { fd := stderrFileno, data := data }

/-- The message of a format, which may be a null pointer. -/
def messageOf (fmt : Option FormatResult) : FormatResult :=
  fmt.getD (.text (ascii "(null)"))

/-- The work on the array, for any text of the header. -/
def rawLine (header : Bytes) (fmt : Option FormatResult) (buf : Block UInt8 rawLen) :
    Option WriteCall := do
  let (hdr, buf) ← buf.vsnprintf 0 rawLen (.text header)
  finishLine (checkedHdr hdr) (messageOf fmt) buf

/-- `LogRaw`, where `fmt` is what the format and the arguments stand for. -/
def logRaw (lvl : LogLevel) (tzOffset : Int) (ts : Timespec) (fmt : Option FormatResult)
    (buf : Block UInt8 rawLen) : Option WriteCall :=
  rawLine (rawHeader lvl tzOffset ts) fmt buf

/-! ## What is written -/

/-- What stays of the text of a header. -/
def keptHeader (header : Bytes) : Bytes :=
  if header.length < rawLen then header.take (rawLen - 2) else []

/-- What stays of a message in some room: a text whose length is no `int` is an error. -/
def keptMessage (room : Nat) : FormatResult → Bytes
  | .text bytes => if bytes.length < 2 ^ 31 then bytes.take room else []
  | .error _ => []

theorem keptMessage_of_lt (room : Nat) {bytes : Bytes} (h : bytes.length < 2 ^ 31) :
    keptMessage room (.text bytes) = bytes.take room :=
  if_pos h

theorem keptMessage_of_le (room : Nat) {bytes : Bytes} (h : 2 ^ 31 ≤ bytes.length) :
    keptMessage room (.text bytes) = [] :=
  if_neg (Nat.not_lt.mpr h)

theorem rawTotal_error (hdr : Nat) : rawTotal hdr (-1) = min hdr (rawLen - 2) := by
  have hneg : (-1 : Int) < 0 := by decide
  unfold rawTotal
  dsimp only
  rw [if_pos hneg, Nat.add_zero]
  split
  · omega
  · omega

theorem rawTotal_natCast (hdr n : Nat) : rawTotal hdr n = min (hdr + n) (rawLen - 2) := by
  have hnonneg : ¬ (n : Int) < 0 := by omega
  unfold rawTotal
  dsimp only
  rw [if_neg hnonneg, Int.toNat_natCast]
  split
  · omega
  · omega

/-- The bytes in front of the newline are in the array, and they are what stays of the header
and of the message. -/
theorem take_rawTotal {front : Bytes} (hlt : front.length < rawLen) (message : FormatResult) :
    rawTotal front.length message.value ≤
        front.length + (message.stored (rawLen - front.length - 1)).length ∧
      (front ++ message.stored (rawLen - front.length - 1)).take
          (rawTotal front.length message.value) =
        front.take (rawLen - 2) ++ keptMessage (rawLen - 2 - front.length) message := by
  -- behind an error the newline comes right behind the header
  have herror : ∀ bytes : Bytes, rawTotal front.length (-1) ≤ front.length + bytes.length ∧
      (front ++ bytes).take (rawTotal front.length (-1)) = front.take (rawLen - 2) := by
    intro bytes
    have hle : min front.length (rawLen - 2) ≤ front.length := Nat.min_le_left _ _
    rw [rawTotal_error]
    refine ⟨Nat.le_add_right_of_le hle, ?_⟩
    rw [List.take_append_of_le_length hle, Nat.min_comm, ← List.take_take, List.take_length]
  cases message with
  | text bytes =>
      have hroom : rawLen - front.length - 1 - 1 = rawLen - 2 - front.length := by omega
      unfold FormatResult.value FormatResult.stored Block.printed
      dsimp only
      by_cases hshort : bytes.length < 2 ^ 31
      · rw [if_pos hshort, keptMessage_of_lt _ hshort, rawTotal_natCast, hroom]
        refine ⟨?_, ?_⟩
        · rw [List.length_take]
          omega
        · have hfront : front.take (min (front.length + bytes.length) (rawLen - 2)) =
              front.take (rawLen - 2) := by
            rw [List.take_eq_take_iff]
            omega
          have hbytes : (bytes.take (rawLen - 2 - front.length)).take
              (min (front.length + bytes.length) (rawLen - 2) - front.length) =
                bytes.take (rawLen - 2 - front.length) := by
            rw [List.take_take, List.take_eq_take_iff]
            omega
          rw [List.take_append, hfront, hbytes]
      · rw [if_neg hshort, keptMessage_of_le _ (Nat.le_of_not_lt hshort), List.append_nil]
        exact herror _
  | error bytes =>
      unfold FormatResult.value FormatResult.stored keptMessage
      dsimp only
      rw [List.append_nil front, List.append_nil]
      have hnone := herror []
      rw [List.append_nil] at hnone
      exact hnone

/-- The line that `finishLine` writes behind the beginning of a header. -/
theorem finishLine_eq {front : Bytes} {buf : Block UInt8 rawLen}
    (hfront : buf.cells.take front.length = front) (hlt : front.length < rawLen)
    (message : FormatResult) :
    finishLine front.length message buf =
      some
        { fd := stderrFileno
          data := front.take (rawLen - 2) ++
            keptMessage (rawLen - 2 - front.length) message ++ [newline] } := by
  have hline : Ensures (fun w => w =
      { fd := stderrFileno
        data := front.take (rawLen - 2) ++
          keptMessage (rawLen - 2 - front.length) message ++ [newline] })
      (finishLine front.length message buf) := by
    rcases take_rawTotal hlt message with ⟨hinside, hkept⟩
    have hstored := message.length_stored_le (rawLen - front.length - 1)
    unfold finishLine
    refine (Buffers.unsignedSub_spec (Nat.le_of_lt hlt)).bind (fun rest hrest => ?_)
    refine (Buffers.unsignedSub_spec (by omega : 1 ≤ rest)).bind (fun room hroom => ?_)
    subst hrest hroom
    refine (Block.take_vsnprintf hfront rfl (by omega) message).bind (fun p hp => ?_)
    rcases p with ⟨msgN, buf₁⟩
    rcases hp with ⟨hvalue, htake⟩
    dsimp only at hvalue htake ⊢
    rw [hvalue]
    generalize rawTotal front.length message.value = total at hinside hkept ⊢
    have hroom : total + [newline].length ≤ rawLen := by
      rw [List.length_singleton]
      omega
    refine (ensures_of_exists (buf₁.copyIn_isSome hroom)).bind (fun buf₂ hbuf₂ => ?_)
    have hdata : buf₂.cells.take (total + 1) = buf₁.cells.take total ++ [newline] :=
      Block.take_copyIn hbuf₂
    have hbefore : buf₁.cells.take total =
        front.take (rawLen - 2) ++ keptMessage (rawLen - 2 - front.length) message := by
      rw [← hkept, ← htake, List.take_take, Nat.min_eq_left hinside]
    have hslice : buf₂.slice 0 (total + 1) = some (buf₂.cells.take (total + 1)) :=
      if_pos (by omega)
    rw [hslice, hdata, hbefore]
    exact ensures_some rfl
  rcases hline with ⟨w, hw, rfl⟩
  exact hw

theorem checkedHdr_printed (header : Bytes) :
    checkedHdr (Block.printed header) = if header.length < rawLen then header.length else 0 := by
  have hrawLen : rawLen = 512 := rfl
  unfold checkedHdr Block.printed
  by_cases hlt : header.length < rawLen
  · have hshort : header.length < 2 ^ 31 := by omega
    rw [if_pos hlt, if_pos hshort, if_neg (by omega), Int.toNat_natCast]
  · rw [if_neg hlt]
    by_cases hshort : header.length < 2 ^ 31
    · rw [if_pos hshort, if_pos (by omega)]
    · have hneg : (-1 : Int) < 0 := by decide
      rw [if_neg hshort, if_pos (Or.inl hneg)]

/-- The line for every text of the header and every message. -/
theorem rawLine_eq (header : Bytes) (fmt : Option FormatResult) (buf : Block UInt8 rawLen) :
    rawLine header fmt buf =
      some
        { fd := stderrFileno
          data := keptHeader header ++
            keptMessage (rawLen - 2 - (keptHeader header).length) (messageOf fmt) ++
              [newline] } := by
  have hstart : buf.cells.take 0 = [] := List.take_zero
  have hsize : 0 + rawLen ≤ rawLen := Nat.le_of_eq (Nat.zero_add rawLen)
  rcases Block.take_vsnprintf hstart rfl hsize (.text header) with
    ⟨⟨hdr, buf₁⟩, hprint, hvalue, htake⟩
  dsimp only at hvalue htake
  have hrest : rawLine header fmt buf = finishLine (checkedHdr hdr) (messageOf fmt) buf₁ := by
    unfold rawLine
    rw [hprint]
    rfl
  rw [hrest, hvalue, FormatResult.value, checkedHdr_printed]
  unfold keptHeader
  -- a header that does not fit is overwritten from the start of the array on
  by_cases hlt : header.length < rawLen
  · have hall : header.take (rawLen - 1) = header := List.take_of_length_le (by omega)
    rw [FormatResult.stored, hall, Nat.zero_add, List.nil_append] at htake
    have hroom : rawLen - 2 - (header.take (rawLen - 2)).length = rawLen - 2 - header.length := by
      rw [List.length_take]
      omega
    rw [if_pos hlt, if_pos hlt, finishLine_eq htake hlt, hroom]
  · rw [if_neg hlt, if_neg hlt]
    have hempty : buf₁.cells.take ([] : Bytes).length = [] := List.take_zero
    have hpos : ([] : Bytes).length < rawLen := by decide
    exact finishLine_eq hempty hpos (messageOf fmt)

/-! ## The header fits -/

theorem length_zeroPadded_le {width : Nat} (h : width ≤ 21) (val : Int) :
    (zeroPadded width val).length ≤ 21 := by
  unfold zeroPadded
  rw [length_print]
  exact Nat.max_le.mpr ⟨h, length_plain_le _ _⟩

theorem zero_not_mem_zeroPadded (width : Nat) (val : Int) : 0 ∉ zeroPadded width val := by
  intro h
  have hdigit : ∀ d < 16, (0 : UInt8) ≠ d.digitChar.toUInt8 ∧
      (0 : UInt8) ≠ upperDigit d.digitChar.toUInt8 := by decide
  rcases mem_print h with hminus | hblank | ⟨d, hd, hchar⟩
  · revert hminus
    decide
  · revert hblank
    decide
  · rcases hchar with hlower | hupper
    · exact (hdigit d hd).1 hlower
    · exact (hdigit d hd).2 hupper

theorem sinkColorFor_fits (lvl : LogLevel) :
    (sinkColorFor lvl).length ≤ 10 ∧ 0 ∉ sinkColorFor lvl ∧ 0 ≠ levelLetter lvl := by
  cases lvl <;> decide

/-- The header fits, whatever the level and the time. -/
theorem length_rawHeader_le (lvl : LogLevel) (tzOffset : Int) (ts : Timespec) :
    (rawHeader lvl tzOffset ts).length ≤ 120 := by
  have hcolour := (sinkColorFor_fits lvl).1
  have htwo := fun val => @length_zeroPadded_le 2 (by decide) val
  have hsix := fun val => @length_zeroPadded_le 6 (by decide) val
  have hmarks : (ascii "[").length = 1 ∧ (ascii "][").length = 2 ∧ (ascii ":").length = 1 ∧
      (ascii ".").length = 1 ∧ (ascii "]").length = 1 ∧ (ascii " ").length = 1 := by decide
  have htag : (ansi "[0m").length = 4 ∧ (ansi "[1m").length = 4 ∧
      (ascii "[RAW]").length = 5 := by decide
  unfold rawHeader
  simp only [List.length_append, List.length_singleton, hmarks, htag]
  have hh := htwo (((ts.tvSec + tzOffset).tmod 86400).tdiv 3600)
  have mm := htwo ((((ts.tvSec + tzOffset).tmod 86400).tmod 3600).tdiv 60)
  have ss := htwo (((ts.tvSec + tzOffset).tmod 86400).tmod 60)
  have us := hsix (ts.tvNsec / 1000 : Nat)
  omega

theorem zero_not_mem_rawHeader (lvl : LogLevel) (tzOffset : Int) (ts : Timespec) :
    0 ∉ rawHeader lvl tzOffset ts := by
  have hmarks : 0 ∉ ascii "[" ∧ 0 ∉ ascii "][" ∧ 0 ∉ ascii ":" ∧ 0 ∉ ascii "." ∧
      0 ∉ ascii "]" ∧ 0 ∉ ascii " " := by decide
  have htag : 0 ∉ ansi "[0m" ∧ 0 ∉ ansi "[1m" ∧ 0 ∉ ascii "[RAW]" := by decide
  unfold rawHeader
  simp only [List.mem_append, List.mem_singleton, zero_not_mem_zeroPadded, hmarks, htag,
    sinkColorFor_fits lvl, or_self, not_false_eq_true]

/-! ## One line -/

/-- One clean line: the header, what fits of the text, and a newline.  A text whose length is
no `int` is lost. -/
structure CleanLine (header : Bytes) (message : FormatResult) (w : WriteCall) : Prop where
  fd : w.fd = stderrFileno
  shown : ∀ text, message = .text text → text.length < 2 ^ 31 →
    w.data = header ++ text.take (min text.length (510 - header.length)) ++ [newline]
  lost : ∀ text, message = .text text → 2 ^ 31 ≤ text.length → w.data = header ++ [newline]
  noNul : 0 ∉ header → ∀ text, message = .text text → 0 ∉ text → 0 ∉ w.data
  length_le : w.data.length ≤ 511

theorem length_keptMessage_le (room : Nat) (message : FormatResult) :
    (keptMessage room message).length ≤ room := by
  cases message with
  | text bytes =>
      unfold keptMessage
      dsimp only
      split
      · exact List.length_take_le _ _
      · exact Nat.zero_le _
  | error bytes => exact Nat.zero_le _

theorem mem_of_mem_keptMessage {room : Nat} {bytes : Bytes} {b : UInt8}
    (h : b ∈ keptMessage room (.text bytes)) : b ∈ bytes := by
  by_cases hshort : bytes.length < 2 ^ 31
  · rw [keptMessage_of_lt _ hshort] at h
    exact List.mem_of_mem_take h
  · rw [keptMessage_of_le _ (Nat.le_of_not_lt hshort)] at h
    contradiction

/-- What is written behind a header of at most 510 bytes is one clean line. -/
theorem rawLine_clean {header : Bytes} (h : header.length ≤ 510) (fmt : Option FormatResult)
    (buf : Block UInt8 rawLen) :
    Ensures (CleanLine header (messageOf fmt)) (rawLine header fmt buf) := by
  have hlt : header.length < rawLen := Nat.lt_of_le_of_lt h (by decide)
  have hkept : keptHeader header = header := by
    unfold keptHeader
    rw [if_pos hlt]
    exact List.take_of_length_le h
  have hroom : rawLen - 2 - header.length = 510 - header.length := rfl
  refine ⟨_, rawLine_eq header fmt buf, ?_⟩
  rw [hkept, hroom]
  refine ⟨rfl, ?_, ?_, ?_, ?_⟩
  · intro text htext hshort
    have htake : text.take (min text.length (510 - header.length)) =
        text.take (510 - header.length) := by
      rw [List.take_eq_take_iff]
      omega
    rw [htext, keptMessage_of_lt _ hshort, htake]
  · intro text htext hlong
    rw [htext, keptMessage_of_le _ hlong, List.append_nil]
  · intro hheader text htext hzero hmem
    rw [htext] at hmem
    rcases List.mem_append.mp hmem with hmem | hmem
    · rcases List.mem_append.mp hmem with hmem | hmem
      · exact hheader hmem
      · exact hzero (mem_of_mem_keptMessage hmem)
    · exact absurd (List.mem_singleton.mp hmem) (by decide)
  · have hle := length_keptMessage_le (510 - header.length) (messageOf fmt)
    simp only [List.length_append, List.length_singleton]
    omega

/-- `LogRaw` writes one clean line: behind every header of at most 510 bytes, and so behind
the header of every level at every time. -/
theorem logRaw_clean :
    (∀ (header : Bytes) (fmt : Option FormatResult) (buf : Block UInt8 rawLen),
      header.length ≤ 510 →
        Ensures (CleanLine header (messageOf fmt)) (rawLine header fmt buf)) ∧
      ∀ (lvl : LogLevel) (tzOffset : Int) (ts : Timespec) (fmt : Option FormatResult)
        (buf : Block UInt8 rawLen),
        (rawHeader lvl tzOffset ts).length ≤ 510 ∧ 0 ∉ rawHeader lvl tzOffset ts ∧
          Ensures (CleanLine (rawHeader lvl tzOffset ts) (messageOf fmt))
            (logRaw lvl tzOffset ts fmt buf) := by
  refine ⟨fun header fmt buf h => rawLine_clean h fmt buf, ?_⟩
  intro lvl tzOffset ts fmt buf
  have hfits := Nat.le_trans (length_rawHeader_le lvl tzOffset ts) (by decide : 120 ≤ 510)
  exact ⟨hfits, zero_not_mem_rawHeader lvl tzOffset ts, rawLine_clean hfits fmt buf⟩

theorem logRaw_clean_short :
    ∃ w, rawLine (ascii "[I] ") (some (.text (ascii "ready"))) (Block.fill 0) = some w ∧
      w.data = ascii "[I] ready\n" := by
  rcases logRaw_clean.1 (ascii "[I] ") (some (.text (ascii "ready"))) (Block.fill 0)
    (by decide) with ⟨w, hw, hclean⟩
  refine ⟨w, hw, ?_⟩
  rw [hclean.shown (ascii "ready") rfl (by decide)]
  decide

def letters (n : Nat) : Bytes :=
  List.replicate n 'a'.toUInt8

def epoch : Timespec where
  tvSec := 0
  tvNsec := 0
  tvNsec_lt := by decide

/-- A text of 2 GiB, whose length is no `int`, is not in the line. -/
theorem longText_lost :
    ∃ w, logRaw .info 0 epoch (some (.text (letters (2 ^ 31)))) (Block.fill 0) = some w ∧
      w.data ≠ rawHeader .info 0 epoch ++
        (letters (2 ^ 31)).take (min (letters (2 ^ 31)).length
          (510 - (rawHeader .info 0 epoch).length)) ++ [newline] := by
  have hfits := length_rawHeader_le .info 0 epoch
  have hlong : (letters (2 ^ 31)).length = 2 ^ 31 := List.length_replicate
  generalize letters (2 ^ 31) = text at hlong ⊢
  rcases rawLine_clean (Nat.le_trans hfits (by decide)) (some (.text text)) (Block.fill 0) with
    ⟨w, hw, hclean⟩
  refine ⟨w, hw, ?_⟩
  rw [hclean.lost text rfl (Nat.le_of_eq hlong.symm)]
  intro heq
  have hlen := congrArg List.length heq
  rw [List.length_append, List.length_append, List.length_append, List.length_take, hlong] at hlen
  omega

end RtLog
end Log
end DtCore
