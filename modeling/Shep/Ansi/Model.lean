import Shep.Common.Utf8

/-!
# Ansi — the filter between a terminal and the log

`tokio_runner/ansi.rs`: the automaton that takes escape sequences out of
what a pty's master reads (`step`, `ground`), the decoding of what is left
(`decode`), and the reader over both (`poll_read`). What the inner reader
will yet read is a list of its reads, in the order it makes them; the end of
the list is the end of the file. A read that is not ready changes nothing,
and is left out, as is one that fails.
-/

namespace Shep

namespace Ansi

open Utf8

/-- `STRING_LIMIT`. -/
def stringLimit : ℕ := 4096

/-- `\n`. -/
def newline : UInt8 := 0x0a

/-- `\r`. -/
def carriageReturn : UInt8 := 0x0d

/-- `ESC`. -/
def esc : UInt8 := 0x1b

/-- `LINE_BREAKING_FINALS`: ABCDEFGHJKXadef and the grave accent. -/
def lineBreakingFinals : List UInt8 :=
  [0x41, 0x42, 0x43, 0x44, 0x45, 0x46, 0x47, 0x48, 0x4a, 0x4b, 0x58, 0x61, 0x64, 0x65, 0x66, 0x60]

/-- `State`. -/
inductive State where
  | ground
  | escape
  | escapeIntermediate
  | csi
  | text (bellEnds : Bool) (seen : ℕ)
  | textEscape
  deriving Repr, DecidableEq

/-- The fields of `AnsiLines` that decide what becomes of a byte. -/
structure Filter where
  state : State := .ground
  crPending : Bool := false
  lineHasText : Bool := false
  deriving Repr, DecidableEq

namespace Filter

/-! Each of these is the text a byte adds, and the filter after it. -/

/-- `break_line`. -/
def breakLine (f : Filter) : List UInt8 × Filter :=
  if f.lineHasText then ([newline], { f with lineHasText := false }) else ([], f)

/-- `settle_cr`. -/
def settleCr (f : Filter) : List UInt8 × Filter :=
  if f.crPending then { f with crPending := false }.breakLine else ([], f)

/-- The C0 controls that draw nothing in a log, and DEL. -/
def drawsNothing (byte : UInt8) : Bool :=
  byte ≤ 0x08 || (0x0b ≤ byte && byte ≤ 0x0c) || (0x0e ≤ byte && byte ≤ 0x1a) ||
    (0x1c ≤ byte && byte ≤ 0x1f) || byte == 0x7f

/-- A byte that shows on its line: not a tab, and not a space. -/
def shows (byte : UInt8) : Bool := byte != 0x09 && byte != 0x20

/-- `ground`. -/
def ground (byte : UInt8) (f : Filter) : List UInt8 × Filter :=
  if byte = carriageReturn then ([], { f with crPending := true })
  else if byte = newline then ([newline], { f with crPending := false, lineHasText := false })
  else if byte = esc then (f.settleCr.1, { f.settleCr.2 with state := .escape })
  else if drawsNothing byte then ([], f)
  else (f.settleCr.1 ++ [byte],
    if shows byte then { f.settleCr.2 with lineHasText := true } else f.settleCr.2)

/-- The arm of `step` after `ESC`. -/
def escape (byte : UInt8) (f : Filter) : List UInt8 × Filter :=
  if byte = 0x5b then ([], { f with state := .csi })
  else if byte = 0x5d then ([], { f with state := .text true 0 })
  else if byte ∈ [0x50, 0x58, 0x5e, 0x5f] then ([], { f with state := .text false 0 })
  else if 0x20 ≤ byte ∧ byte ≤ 0x2f then ([], { f with state := .escapeIntermediate })
  else if byte = esc then ([], { f with state := .escape })
  else if 0x30 ≤ byte ∧ byte ≤ 0x7e then ([], { f with state := .ground })
  else { f with state := .ground }.ground byte

/-- `step`. -/
def step (byte : UInt8) (f : Filter) : List UInt8 × Filter :=
  match f.state with
  | .ground => f.ground byte
  | .escape => f.escape byte
  | .escapeIntermediate =>
    if 0x20 ≤ byte ∧ byte ≤ 0x2f then ([], f)
    else if 0x30 ≤ byte ∧ byte ≤ 0x7e then ([], { f with state := .ground })
    else { f with state := .ground }.ground byte
  | .csi =>
    if 0x20 ≤ byte ∧ byte ≤ 0x3f then ([], f)
    else if 0x40 ≤ byte ∧ byte ≤ 0x7e then
      let f := { f with state := .ground }
      if byte ∈ lineBreakingFinals then
        (f.settleCr.1 ++ f.settleCr.2.breakLine.1, f.settleCr.2.breakLine.2)
      else ([], f)
    else if byte = esc then ([], { f with state := .escape })
    else { f with state := .ground }.ground byte
  | .text bellEnds seen =>
    if byte = 0x07 ∧ bellEnds then ([], { f with state := .ground })
    else if byte = esc then ([], { f with state := .textEscape })
    else if stringLimit ≤ seen then { f with state := .ground }.ground byte
    else ([], { f with state := .text bellEnds (seen + 1) })
  | .textEscape =>
    if byte = 0x5c then ([], { f with state := .ground })
    -- `step` again, in the state it has just set
    else { f with state := .escape }.escape byte

/-- Several bytes. -/
def feed (f : Filter) : List UInt8 → List UInt8 × Filter
  | [] => ([], f)
  | byte :: bytes =>
    ((f.step byte).1 ++ ((f.step byte).2.feed bytes).1, ((f.step byte).2.feed bytes).2)

end Filter

/-- The loop of `decode` over what it has left: what it makes ready, and what
it carries to the next read. The first argument bounds its rounds. -/
def decodeLoop (last : Bool) : ℕ → List UInt8 → List UInt8 × List UInt8
  | 0, _ => ([], [])
  | fuel + 1, rest =>
    match fromUtf8 rest with
    | none => (rest, [])
    | some error =>
      let valid := rest.take error.validUpTo
      let after := rest.drop error.validUpTo
      match error.errorLen with
      | some skip =>
        let more := decodeLoop last fuel (after.drop skip)
        (valid ++ (replacement ++ more.1), more.2)
      | none => if last then (valid ++ replacement, []) else (valid, after)

/-- `AnsiLines`, and what its inner reader will yet read. -/
structure AnsiLines where
  inner : List (List UInt8)
  filter : Filter := {}
  carry : List UInt8 := []
  ready : List UInt8 := []
  sent : ℕ := 0
  eof : Bool := false
  deriving Repr, DecidableEq

namespace AnsiLines

/-- `decode`, into an empty `ready`. -/
def decode (text : List UInt8) (last : Bool) (a : AnsiLines) : AnsiLines :=
  let bytes := a.carry ++ text
  let decoded := decodeLoop last (bytes.length + 1) bytes
  { a with ready := decoded.1, carry := decoded.2 }

/-- One round of `poll_read`: what the inner reader has just read. -/
def take (read : List UInt8) (a : AnsiLines) : AnsiLines :=
  let a := { a with ready := [], sent := 0 }
  if read = [] then
    { a with eof := true, filter := a.filter.settleCr.2 }.decode a.filter.settleCr.1 true
  else
    let fed := a.filter.feed read
    { a with filter := fed.2 }.decode fed.1 a.eof

/-- The rounds of `poll_read`, while nothing is ready. -/
def fill : List (List UInt8) → AnsiLines → AnsiLines
  | [], a =>
    if a.sent = a.ready.length ∧ a.eof = false then { a with inner := [] }.take []
    else { a with inner := [] }
  | read :: reads, a =>
    if a.sent = a.ready.length ∧ a.eof = false then fill reads (a.take read)
    else { a with inner := read :: reads }

/-- `poll_read`, into a buffer with room for `remaining` bytes. -/
def pollRead (remaining : ℕ) (a : AnsiLines) : List UInt8 × AnsiLines :=
  let a := a.fill a.inner
  let pending := a.ready.drop a.sent
  let count := min pending.length remaining
  (pending.take count, { a with sent := a.sent + count })

/-- Several reads, and all they hand out. -/
def reads (a : AnsiLines) : List ℕ → List UInt8 × AnsiLines
  | [] => ([], a)
  | remaining :: sizes =>
    ((a.pollRead remaining).1 ++ ((a.pollRead remaining).2.reads sizes).1,
      ((a.pollRead remaining).2.reads sizes).2)

/-- The end of the file has been read, and all is handed out. -/
def Finished (a : AnsiLines) : Prop := a.eof = true ∧ a.sent = a.ready.length

instance (a : AnsiLines) : Decidable a.Finished := inferInstanceAs (Decidable (_ ∧ _))

end AnsiLines

end Ansi

end Shep
