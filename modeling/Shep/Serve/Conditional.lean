import Shep.Serve.Path

/-!
# Serve — requests, heads and the log

The request head `http.rs` parses, the response head it writes, and the line
`worker/response.rs` logs. Unicode's lower-case letters are a parameter.
-/

namespace Shep

namespace Serve

/-! ## Text -/

def newline : UInt8 := 0x0A
def carriageReturn : UInt8 := 0x0D
def space : UInt8 := 0x20

/-- A number, as it is displayed. -/
def decimal (n : Nat) : Text := ascii (Nat.repr n)

/-- `split_once` -/
def splitOnce (sep : UInt8) (text : Text) : Option (Text × Text) :=
  match text.span (· != sep) with
  | (before, _ :: behind) => some (before, behind)
  | (_, []) => none

/-- The whitespace `trim` takes off, in UTF-8. -/
def whitespace : List Text :=
  [[0x09], [0x0A], [0x0B], [0x0C], [0x0D], [0x20], [0xC2, 0x85], [0xC2, 0xA0], [0xE1, 0x9A, 0x80],
    [0xE2, 0x80, 0x80], [0xE2, 0x80, 0x81], [0xE2, 0x80, 0x82], [0xE2, 0x80, 0x83],
    [0xE2, 0x80, 0x84], [0xE2, 0x80, 0x85], [0xE2, 0x80, 0x86], [0xE2, 0x80, 0x87],
    [0xE2, 0x80, 0x88], [0xE2, 0x80, 0x89], [0xE2, 0x80, 0x8A], [0xE2, 0x80, 0xA8],
    [0xE2, 0x80, 0xA9], [0xE2, 0x80, 0xAF], [0xE2, 0x81, 0x9F], [0xE3, 0x80, 0x80]]

/-- What is left behind the blanks that lead a text, at most so many. -/
def dropBlanks (blanks : List Text) : Nat → Text → Text
  | 0, text => text
  | count + 1, text =>
    match blanks.find? (·.isPrefixOf text) with
    | none => text
    | some blank => dropBlanks blanks count (text.drop blank.length)

/-- `trim` -/
def trim (text : Text) : Text :=
  let front := dropBlanks whitespace text.length text
  (dropBlanks (whitespace.map List.reverse) front.length front.reverse).reverse

/-! ## Requests -/

/-- `HttpRequest`. Of two headers with one name the later stands first. -/
structure HttpRequest where
  method : Text
  target : Text
  headers : List (Text × Text)
  deriving Repr, DecidableEq

/-- A header's value, by its name. -/
def HttpRequest.header (request : HttpRequest) (name : String) : Option Text :=
  request.headers.lookup (ascii name)

/-- `strip_trailing_cr` -/
def strip_trailing_cr (line : Text) : Text :=
  if line.getLast? = some carriageReturn then line.dropLast else line

/-- The header lines of a head, up to the first that is empty. -/
def parseFields (lowercase : Text → Text) :
    List Text → List (Text × Text) → Except String (List (Text × Text))
  | [], headers => .ok headers
  | raw :: lines, headers =>
    let line := strip_trailing_cr raw
    if line = [] then .ok headers
    else if (Utf8.fromUtf8 line).isSome then .error "header line is not valid utf-8"
    else match splitOnce 0x3A line with
      | none => .error "header line has no colon"
      | some (name, value) =>
        parseFields lowercase lines ((lowercase (trim name), trim value) :: headers)

/-- `parse_head` -/
def parse_head (lowercase : Text → Text) (head : Text) : Except String HttpRequest :=
  match head.splitOn newline with
  | [] => .error "no request line"
  | raw :: lines =>
    let line := strip_trailing_cr raw
    if (Utf8.fromUtf8 line).isSome then .error "request line is not valid utf-8"
    else
      let (method, rest) := (splitOnce space line).elim (line, none) fun (m, r) => (m, some r)
      if method = [] then .error "no method in the request line"
      else
        let target := rest.elim [] fun r => (splitOnce space r).elim r Prod.fst
        if target = [] then .error "no target in the request line"
        else (parseFields lowercase lines []).map fun headers => ⟨method, target, headers⟩

/-! ## Responses -/

/-- `Header` -/
structure Header where
  name : Text
  value : Text
  deriving Repr, DecidableEq

/-- Printable ASCII. -/
def isPrintable (byte : UInt8) : Bool := 0x20 ≤ byte && byte ≤ 0x7E

/-- `has_control_byte` -/
def has_control_byte (s : Text) : Bool := s.any fun byte => !isPrintable byte

def crlf : Text := [carriageReturn, newline]

/-- A response head. -/
structure Head where
  status : Nat
  content_type : Text
  content_length : Nat
  headers : List Header
  deriving Repr, DecidableEq

/-- The lines of a head. A 304 carries no length. -/
def Head.lines (head : Head) : List Text :=
  [ascii "HTTP/1.1 " ++ decimal head.status ++ ascii " ",
    ascii "Content-Type: " ++ head.content_type] ++
    (if head.status ≠ 304 then [ascii "Content-Length: " ++ decimal head.content_length] else []) ++
    head.headers.map (fun header => header.name ++ ascii ": " ++ header.value) ++
    [ascii "Connection: close"]

/-- A head, as it is written. -/
def Head.text (head : Head) : Text := head.lines.flatMap (· ++ crlf) ++ crlf

/-- `HttpError::BadHeader` -/
inductive HttpError where
  | BadHeader (what : String)
  deriving Repr, DecidableEq

/-- What is wrong with a header. -/
def Header.fault (header : Header) : Option HttpError :=
  if has_control_byte header.name then some (.BadHeader "a header name")
  else if has_control_byte header.value then some (.BadHeader "a header value")
  else none

/-- `write_head`: the head it writes; of one with a bad header, nothing. -/
def write_head (head : Head) : Except HttpError Head :=
  match head.headers.findSome? Header.fault with
  | some err => .error err
  | none => .ok head

/-- The header every response ends with. -/
def nosniff : Header := ⟨ascii "X-Content-Type-Options", ascii "nosniff"⟩

/-- `respond` -/
def respond (head : Head) : Except HttpError Head :=
  write_head { head with headers := head.headers ++ [nosniff] }

/-! ## The access log -/

/-- One byte of `escape_for_log`. -/
def escapeByte (byte : UInt8) : Text :=
  if isPrintable byte then [byte]
  else ascii "\\x" ++ [hexUpper (byte >>> 4), hexUpper (byte &&& 0xF)]

/-- `escape_for_log` -/
def escape_for_log (s : Text) : Text := s.flatMap escapeByte

/-- `log_access`, without the newline it prints behind. -/
def log_access (peer : Option Text) (method path : Text) (status bytes : Nat) : Text :=
  peer.getD (ascii "-") ++ ascii " \"" ++ method ++ ascii " " ++ escape_for_log path ++
    ascii "\" " ++ decimal status ++ ascii " " ++ decimal bytes

end Serve

end Shep

/-!
## Conditional requests and ranges

`serve/conditional.rs`. The dates `chrono` reads and writes are parameters; a
length or a position is a `u64`, and its arithmetic wraps.
-/

namespace Shep

namespace Serve

/-! ## Arithmetic -/

/-- The values of a `u64`. -/
def u64 : Nat := 2 ^ 64

/-- `a + b`, wrapping. -/
def wrappingAdd (a b : Nat) : Nat := (a + b) % u64

/-- `a - b`, wrapping. -/
def wrappingSub (a b : Nat) : Nat := (a + (u64 - b)) % u64

/-! ## Ranges -/

/-- `Range` -/
inductive Range where
  | Whole
  | Slice (start stop : Nat)
  | Unsatisfiable
  deriving Repr, DecidableEq

/-- `Spec` -/
inductive Spec where
  | Ignored
  | Suffix (n : Nat)
  | From (first : Nat)
  | Span (first last : Nat)
  deriving Repr, DecidableEq

/-- An ASCII digit. -/
def isDigit (byte : UInt8) : Bool := 0x30 ≤ byte && byte ≤ 0x39

/-- The number some digits spell. -/
def valueOf (token : Text) : Nat :=
  token.foldl (fun value byte => 10 * value + (byte.toNat - 0x30)) 0

/-- `digits`: a number past `u64` does not parse. -/
def digits (token : Text) : Option Nat :=
  if token = [] ∨ token.all isDigit = false then none
  else if valueOf token < u64 then some (valueOf token) else none

/-- `strip_prefix` -/
def stripPrefix (lead text : Text) : Option Text :=
  if lead.isPrefixOf text then some (text.drop lead.length) else none

/-- `spec_of` -/
def spec_of (value : Text) : Spec :=
  match stripPrefix (ascii "bytes=") value with
  | none => .Ignored
  | some spec =>
    match splitOnce 0x2D spec with
    | none => .Ignored
    | some ([], []) => .Ignored
    | some ([], last) => (digits last).elim .Ignored .Suffix
    | some (first, []) => (digits first).elim .Ignored .From
    | some (first, last) =>
      match digits first, digits last with
      | some first, some last => .Span first last
      | _, _ => .Ignored

/-- `range_of` -/
def range_of (header : Option Text) (len : Nat) : Range :=
  match header with
  | none => .Whole
  | some value =>
    match spec_of value with
    | .Ignored => .Whole
    | .Suffix n =>
      if len = 0 then .Unsatisfiable
      else if n = 0 then .Unsatisfiable
      else .Slice (wrappingSub len (min n len)) (wrappingSub len 1)
    | .From first =>
      if len = 0 then .Unsatisfiable
      else if len ≤ first then .Unsatisfiable
      else .Slice first (wrappingSub len 1)
    | .Span first last =>
      if len = 0 then .Unsatisfiable
      else if len ≤ first ∨ last < first then .Unsatisfiable
      else .Slice first (min last (wrappingSub len 1))

/-! ## Validators -/

/-- The dates of `chrono`: an `HTTP-date` in one of the formats, in seconds,
and such seconds in the first. -/
structure Chrono where
  parse_from_str : Text → Text → Option Int
  format : Int → Option Text

/-- `IMF_FIXDATE` -/
def IMF_FIXDATE : Text := ascii "%a, %d %b %Y %H:%M:%S GMT"

/-- `OBSOLETE_HTTP_DATES` -/
def OBSOLETE_HTTP_DATES : List Text :=
  [ascii "%a, %d-%b-%y %H:%M:%S GMT", ascii "%a %b %e %H:%M:%S %Y"]

/-- `parse_http_date` -/
def parse_http_date (chrono : Chrono) (value : Text) : Option Int :=
  (IMF_FIXDATE :: OBSOLETE_HTTP_DATES).findSome? (chrono.parse_from_str (trim value))

/-- A signed number, as it is displayed. -/
def signed (n : Int) : Text := if n < 0 then ascii "-" ++ decimal n.natAbs else decimal n.natAbs

/-- `Validators` -/
structure Validators where
  etag : Text
  modified : Option Int
  deriving Repr, DecidableEq

/-- `Validators::new`, of a modification time in whole seconds. -/
def Validators.new (len : Nat) (modified : Option Int) : Validators :=
  match modified with
  | some secs => ⟨ascii "W/\"" ++ decimal len ++ ascii "-" ++ signed secs ++ ascii "\"", modified⟩
  | none => ⟨ascii "W/\"" ++ decimal len ++ ascii "\"", modified⟩

/-- `last_modified` -/
def Validators.last_modified (chrono : Chrono) (validators : Validators) : Option Text :=
  validators.modified.bind chrono.format

/-- `tag_value` -/
def tag_value (tag : Text) : Text := (stripPrefix (ascii "W/") tag).getD tag

/-- `none_match_agrees` -/
def Validators.none_match_agrees (validators : Validators) (header : Text) : Bool :=
  (header.splitOn 0x2C).any fun item =>
    trim item == ascii "*" || tag_value (trim item) == tag_value validators.etag

/-- `not_newer_than` -/
def Validators.not_newer_than (chrono : Chrono) (validators : Validators) (header : Text) : Bool :=
  match validators.modified, parse_http_date chrono header with
  | some secs, some since => secs ≤ since
  | _, _ => false

/-- `if_range_agrees` -/
def Validators.if_range_agrees (chrono : Chrono) (validators : Validators) (header : Text) : Bool :=
  if (trim header).contains 0x22 then false
  else match validators.modified, parse_http_date chrono (trim header) with
    | some secs, some ifRange => secs == ifRange
    | _, _ => false

/-- `Outcome` -/
inductive Outcome where
  | Whole
  | Partial (start stop : Nat)
  | Unsatisfiable
  | NotModified
  deriving Repr, DecidableEq

/-- Whether a validator says that the client's copy is still good. -/
def notModified (chrono : Chrono) (request : HttpRequest) (validators : Validators) : Bool :=
  match request.header "if-none-match" with
  | some header => validators.none_match_agrees header
  | none =>
    match request.header "if-modified-since" with
    | some header => validators.not_newer_than chrono header
    | none => false

/-- Whether an `If-Range` has the range ignored. -/
def rangeIgnored (chrono : Chrono) (request : HttpRequest) (validators : Validators) : Bool :=
  match request.header "if-range" with
  | some header => !validators.if_range_agrees chrono header
  | none => false

/-- `decide` -/
def decideOutcome (chrono : Chrono) (request : HttpRequest) (len : Nat) (validators : Validators) :
    Outcome :=
  if notModified chrono request validators then .NotModified
  else
    match if rangeIgnored chrono request validators then .Whole
      else range_of (request.header "range") len with
    | .Whole => .Whole
    | .Slice start stop => .Partial start stop
    | .Unsatisfiable => .Unsatisfiable

end Serve

end Shep
