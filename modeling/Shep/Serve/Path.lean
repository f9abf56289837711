import Shep.Common.Utf8

/-!
# Serve — request targets and links

`serve/path.rs` and `serve/listing.rs`: what a request target names below
the root, and the page that lists a directory. A `str` is its bytes.
-/

namespace Shep

namespace Serve

/-- A `str`, as its bytes. -/
abbrev Text := List UInt8

/-- An ASCII literal. -/
def ascii (s : String) : Text := s.toList.map fun c => c.toNat.toUInt8

def slash : UInt8 := 0x2F
def percent : UInt8 := 0x25
def dot : UInt8 := 0x2E

/-! ## Resolution -/

/-- Why a request target cannot be resolved. -/
inductive Refusal where
  | notAbsolute
  | badEscape
  | forbiddenByte
  | notUtf8
  | aboveRoot
  deriving Repr, DecidableEq

/-- The text of a refusal. -/
def Refusal.display : Refusal → String
  | .notAbsolute => "request target does not begin with \"/\""
  | .badEscape => "a \"%\" escape is not followed by two hex digits"
  | .forbiddenByte => "a decoded segment carries a byte a path segment may not: " ++
      "a control byte, \"/\", \"\\\", or \":\""
  | .notUtf8 => "a decoded segment is not valid UTF-8"
  | .aboveRoot => "the target reaches above the root"

/-- The value of a hex digit, either case. -/
def hexValue (byte : UInt8) : Option UInt8 :=
  if 0x30 ≤ byte ∧ byte ≤ 0x39 then some (byte - 0x30)
  else if 0x61 ≤ byte ∧ byte ≤ 0x66 then some (byte - 0x61 + 10)
  else if 0x41 ≤ byte ∧ byte ≤ 0x46 then some (byte - 0x41 + 10)
  else none

/-- A control byte, `/`, `\` or `:`. -/
def isForbiddenByte (byte : UInt8) : Bool :=
  byte < 0x20 || byte == 0x7f || byte == slash || byte == 0x5C || byte == 0x3A

/-- A segment, percent-decoded byte by byte. -/
def decodeSegment : Text → Except Refusal Text
  | [] => .ok []
  | byte :: bytes =>
    if byte = percent then
      match bytes with
      | high :: low :: rest =>
        match hexValue high, hexValue low with
        | some hi, some lo => (decodeSegment rest).map ((hi <<< 4 ||| lo) :: ·)
        | _, _ => .error .badEscape
      | _ => .error .badEscape
    else (decodeSegment bytes).map (byte :: ·)

/-- What stands before the first `?` or `#`, or all of it. -/
def pathOf (target : Text) : Text := target.takeWhile fun byte => byte != 0x3F && byte != 0x23

/-- One segment of the path, on the stack of those before it. -/
def onSegment (stack : List Text) (rawSegment : Text) : Except Refusal (List Text) :=
  match decodeSegment rawSegment with
  | .error refusal => .error refusal
  | .ok decoded =>
    if decoded.any isForbiddenByte then .error .forbiddenByte
    else if (Utf8.fromUtf8 decoded).isSome then .error .notUtf8
    else if decoded = [] ∨ decoded = [dot] then .ok stack
    else if decoded = [dot, dot] then
      if stack = [] then .error .aboveRoot else .ok stack.dropLast
    else .ok (stack ++ [decoded])

/-- `resolve`: the segments a target names below the root. -/
def resolve (target : Text) : Except Refusal (List Text) :=
  if target.head? = some slash then
    (((pathOf target).drop 1).splitOn slash).foldlM onSegment []
  else .error .notAbsolute

/-- Whether a segment begins with a dot. -/
def isHidden (segments : List Text) : Bool := segments.any fun segment => segment.head? == some dot

/-! ## Links -/

/-- A byte that stands for itself in a segment: a letter, a digit, or one of
`-_.~!*'()`. -/
def isSafeSegmentByte (byte : UInt8) : Bool :=
  (0x41 ≤ byte && byte ≤ 0x5A) || (0x61 ≤ byte && byte ≤ 0x7A) || (0x30 ≤ byte && byte ≤ 0x39) ||
    (ascii "-_.~!*'()").contains byte

/-- An upper-case hex digit. -/
def hexUpper (n : UInt8) : UInt8 := if n < 10 then 0x30 + n else 0x37 + n

/-- One byte of a segment in a URL. -/
def encodeByte (byte : UInt8) : Text :=
  if isSafeSegmentByte byte then [byte]
  else [percent, hexUpper (byte >>> 4), hexUpper (byte &&& 0xF)]

/-- `encode_segment`. -/
def encodeSegment (name : Text) : Text := name.flatMap encodeByte

/-- `a/b/c`. -/
def joined (segments : List Text) : Text := [slash].intercalate segments

/-- The `Location` a directory without its trailing slash redirects to. -/
def location (segments : List Text) : Text :=
  slash :: (joined (segments.map encodeSegment) ++ [slash])

/-! ## Listings -/

/-- A row of a listing. -/
structure Entry where
  name : Text
  isDir : Bool
  deriving Repr, DecidableEq

/-- One byte of a text node or an attribute: the escaped characters are all
ASCII. -/
def escapedByte (byte : UInt8) : Text :=
  if byte = 0x26 then ascii "&amp;"
  else if byte = 0x3C then ascii "&lt;"
  else if byte = 0x3E then ascii "&gt;"
  else if byte = 0x22 then ascii "&quot;"
  else if byte = 0x27 then ascii "&#39;"
  else [byte]

/-- `escape_html`. -/
def escapeHtml (s : Text) : Text := s.flatMap escapedByte

/-- What a directory's name is followed by. -/
def Entry.suffix (entry : Entry) : Text := if entry.isDir then [slash] else []

/-- The link of a row. -/
def Entry.href (entry : Entry) : Text := encodeSegment entry.name ++ entry.suffix

/-- A row, as HTML. -/
def Entry.row (entry : Entry) : Text :=
  ascii "<li><a href=\"" ++ entry.href ++ ascii "\">" ++ escapeHtml entry.name ++ entry.suffix ++
    ascii "</a></li>"

/-- `render`. -/
def render (pagePath : Text) (entries : List Entry) : Text :=
  ascii "<!doctype html>\n<html><head><meta charset=\"utf-8\">" ++ ascii "<title>Index of " ++
    escapeHtml pagePath ++ ascii "</title></head><body><h1>Index of " ++ escapeHtml pagePath ++
    ascii "</h1><ul>" ++
    (if pagePath = [slash] then [] else ascii "<li><a href=\"../\">../</a></li>") ++
    entries.flatMap Entry.row ++ ascii "</ul></body></html>"

/-- The path a listing is shown under. -/
def listingPath (segments : List Text) : Text :=
  let path := slash :: joined segments
  if path.getLast? = some slash then path else path ++ [slash]

end Serve

end Shep
