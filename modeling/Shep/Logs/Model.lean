import Shep.Common.Lines
import Shep.Common.Utf8

/-!
# Logs — the end of a log file

`logtail.rs`'s `read_tail` and `read_window` over the bytes of one file, and
`logstamp.rs`'s `strip`. A `String` is its bytes. The errors of opening,
seeking and reading are left out.
-/

namespace Shep

namespace Logs

open Utf8

/-- `\n`. -/
def newline : UInt8 := 0x0a

/-! ## The stamp -/

/-- `LOG_STAMP_BYTES`. -/
def logStampBytes : ℕ := 30

/-- `STAMP_SHAPE`: `####-##-##T##:##:##.###z##:## `. -/
def stampShape : List UInt8 :=
  [0x23, 0x23, 0x23, 0x23, 0x2d, 0x23, 0x23, 0x2d, 0x23, 0x23, 0x54, 0x23, 0x23, 0x3a, 0x23, 0x23,
    0x3a, 0x23, 0x23, 0x2e, 0x23, 0x23, 0x23, 0x7a, 0x23, 0x23, 0x3a, 0x23, 0x23, 0x20]

/-- `STAMP_FIELDS`. -/
def stampFields : List (ℕ × ℕ × ℕ) :=
  [(5, 1, 12), (8, 1, 31), (11, 0, 23), (14, 0, 59), (17, 0, 60), (24, 0, 23), (27, 0, 59)]

/-- What may stand where the shape has a marker: a digit at `#`, a sign at `z`,
and the marker itself elsewhere. -/
def shape (byte marker : UInt8) : Bool :=
  if marker = 0x23 then 0x30 ≤ byte && byte ≤ 0x39
  else if marker = 0x7a then byte == 0x2b || byte == 0x2d
  else byte == marker

/-- The number two digits spell. -/
def field (stamp : List UInt8) (at' : ℕ) : ℕ :=
  ((stamp[at']?.getD 0) - 0x30).toNat * 10 + ((stamp[at' + 1]?.getD 0) - 0x30).toNat

/-- `shaped_like_a_stamp`. -/
def shapedLikeAStamp (bytes : List UInt8) : Bool :=
  if bytes.length < logStampBytes then false
  else
    let stamp := bytes.take logStampBytes
    if (stamp.zip stampShape).all fun e => shape e.1 e.2 then
      stampFields.all fun f => f.2.1 ≤ field stamp f.1 && field stamp f.1 ≤ f.2.2
    else false

/-- `str::is_char_boundary`. -/
def isCharBoundary (text : List UInt8) (n : ℕ) : Bool :=
  match text[n]? with
  | some byte => !(0x80 ≤ byte && byte ≤ 0xbf)
  | none => n == text.length

/-- `strip`. -/
def strip (line : List UInt8) : List UInt8 :=
  if isCharBoundary line logStampBytes then
    if shapedLikeAStamp (line.take logStampBytes) then line.drop logStampBytes else line
  else line

/-! ## The tail -/

/-- `TAIL_WINDOW_BYTES`. -/
def tailWindowBytes : ℕ := 256 * 1024

/-- What `read_window` reads of its source. -/
def windowRead (source : List UInt8) (len : ℕ) : List UInt8 :=
  let start := len - tailWindowBytes
  let windowTruncated := 0 < start
  let from' := start - 1
  (source.drop from').take (tailWindowBytes + if windowTruncated then 1 else 0)

/-- `read_window`. -/
def readWindow (source : List UInt8) (len : ℕ) : List UInt8 × Bool :=
  let start := len - tailWindowBytes
  let windowTruncated := 0 < start
  let window := windowRead source len
  if windowTruncated then
    match window.idxOf? newline with
    | some at' => (window.drop (at' + 1), true)
    | none => ([], true)
  else (window, false)

/-- `read_tail`, of a file with these bytes. -/
def readTail (file : List UInt8) (limit : ℕ) (stamped : Bool) : List (List UInt8) × Bool :=
  let read := readWindow file file.length
  let text := lossy read.1
  let lines := (text.splitOn newline).map fun line => if stamped then strip line else line
  let lines := if lines.getLast? = some [] then lines.dropLast else lines
  let keepFrom := lines.length - limit
  (lines.drop keepFrom, read.2 || 0 < keepFrom)

end Logs

end Shep
