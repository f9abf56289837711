import Mathlib.Algebra.Order.Ring.Nat
import Mathlib.Data.List.Basic

/-!
# Values — sizes and durations

`values.rs`'s `MemSize` and `UpDuration`: a `u64` each, of bytes and of
milliseconds, read from digits and a unit and shown under the largest unit
that divides it. A string is read by its characters: a byte of a character
outside ASCII is neither a digit nor a unit.
-/

namespace Shep

namespace Values

/-! ## Reading digits -/

/-- `u64::checked_mul`. -/
def checkedMul (a b : UInt64) : Option UInt64 :=
  if a.toNat * b.toNat < 2 ^ 64 then some (a * b) else none

/-- `u64::checked_add`. -/
def checkedAdd (a b : UInt64) : Option UInt64 :=
  if a.toNat + b.toNat < 2 ^ 64 then some (a + b) else none

/-- One digit read after a number. -/
def readDigit (acc : UInt64) (c : Char) : Option UInt64 :=
  (checkedMul acc 10).bind fun tens => checkedAdd tens (UInt64.ofNat (c.toNat - '0'.toNat))

/-- `u64::from_str`, of digits. -/
def parseDigits (digits : List Char) : Option UInt64 := digits.foldlM readDigit 0

/-! ## A number and its unit -/

/-- `ParseMemSizeError` and `ParseUpDurationError`. -/
inductive ParseError where
  | empty
  | missingDigits
  | invalidCharacter
  | overflow
  deriving Repr, DecidableEq

/-- What both parsers do once the unit is off. -/
def scaled (digits : List Char) (unit : UInt64) : Except ParseError UInt64 :=
  if digits.isEmpty then .error .missingDigits
  else if !digits.all Char.isDigit then .error .invalidCharacter
  else match parseDigits digits with
    | none => .error .overflow
    | some value =>
      match checkedMul value unit with
      | none => .error .overflow
      | some product => .ok product

/-- A number of units, as it is written. -/
def written (number : UInt64) (unit : String) : String := number.toNat.repr ++ unit

/-! ## Sizes -/

/-- `KIB`. -/
def kib : UInt64 := 1024

/-- `MIB`. -/
def mib : UInt64 := 1024 * kib

/-- `GIB`. -/
def gib : UInt64 := 1024 * mib

/-- `MemSize`. -/
structure MemSize where
  bytes : UInt64
  deriving Repr, DecidableEq

namespace MemSize

/-- The digits of a size, and its unit. -/
def splitUnit (text : List Char) : List Char × UInt64 :=
  match text.getLast? with
  | some 'G' => (text.dropLast, gib)
  | some 'M' => (text.dropLast, mib)
  | some 'K' => (text.dropLast, kib)
  | _ => (text, 1)

/-- `from_str`. -/
def fromStr (s : String) : Except ParseError MemSize :=
  let text := s.toList
  if text.isEmpty then .error .empty
  else match scaled (splitUnit text).1 (splitUnit text).2 with
    | .error err => .error err
    | .ok bytes => .ok ⟨bytes⟩

/-- `fmt`. -/
def display (size : MemSize) : String :=
  let b := size.bytes
  if b = 0 then "0"
  else if b % gib = 0 then written (b / gib) "G"
  else if b % mib = 0 then written (b / mib) "M"
  else if b % kib = 0 then written (b / kib) "K"
  else written b ""

end MemSize

/-! ## Durations -/

/-- `MS_PER_S`. -/
def msPerS : UInt64 := 1000

/-- `MS_PER_MIN`. -/
def msPerMin : UInt64 := 60 * msPerS

/-- `MS_PER_H`. -/
def msPerH : UInt64 := 60 * msPerMin

/-- `MS_PER_D`. -/
def msPerD : UInt64 := 24 * msPerH

/-- `UpDuration`, as the milliseconds every constructor of it is given. -/
structure UpDuration where
  millis : UInt64
  deriving Repr, DecidableEq

namespace UpDuration

/-- `strip_suffix("ms")`. -/
def stripMs (text : List Char) : Option (List Char) :=
  if ['m', 's'].isSuffixOf text then some (text.take (text.length - 2)) else none

/-- The digits of a duration, and its unit: `ms` comes before the
single-letter units. -/
def splitUnit (text : List Char) : List Char × UInt64 :=
  match stripMs text with
  | some rest => (rest, 1)
  | none =>
    match text.getLast? with
    | some 'd' => (text.dropLast, msPerD)
    | some 'h' => (text.dropLast, msPerH)
    | some 'm' => (text.dropLast, msPerMin)
    | some 's' => (text.dropLast, msPerS)
    | _ => (text, 1)

/-- `from_str`. -/
def fromStr (s : String) : Except ParseError UpDuration :=
  let text := s.toList
  if text.isEmpty then .error .empty
  else match scaled (splitUnit text).1 (splitUnit text).2 with
    | .error err => .error err
    | .ok millis => .ok ⟨millis⟩

/-- `fmt`, which stops at hours. -/
def display (duration : UpDuration) : String :=
  let v := duration.millis
  if v = 0 then "0"
  else if v % msPerH = 0 then written (v / msPerH) "h"
  else if v % msPerMin = 0 then written (v / msPerMin) "m"
  else if v % msPerS = 0 then written (v / msPerS) "s"
  else written v ""

end UpDuration

end Values

end Shep
