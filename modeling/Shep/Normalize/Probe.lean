import Shep.Template.Model

/-!
# Normalize — a probe's target

`config/probe.rs`: parsing a probe's `target` once, at config time. Exec
targets are kept as written; the other two are trimmed and split.
-/

namespace Shep

namespace Normalize

open Template (Text)

/-- `char::is_whitespace`: Unicode's `White_Space`. -/
def isWhitespace (c : Char) : Bool :=
  let n := c.toNat
  (0x9 ≤ n && n ≤ 0xD) || n == 0x20 || n == 0x85 || n == 0xA0 || n == 0x1680 ||
    (0x2000 ≤ n && n ≤ 0x200A) || n == 0x2028 || n == 0x2029 || n == 0x202F || n == 0x205F ||
    n == 0x3000

/-- `char::is_control`: Unicode's `Cc`. -/
def isControl (c : Char) : Bool := c.toNat ≤ 0x1F || (0x7F ≤ c.toNat && c.toNat ≤ 0x9F)

/-- `str::trim`. -/
def trim (s : Text) : Text := ((s.dropWhile isWhitespace).reverse.dropWhile isWhitespace).reverse

/-- How a probe checks a sheep. -/
inductive ProbeKind where
  | http
  | tcp
  | exec
deriving DecidableEq, Repr

/-- A readiness or liveness probe. Durations are in milliseconds. -/
structure ProbeConfig where
  kind : ProbeKind
  target : Text
  interval : ℕ
  timeout : ℕ
  failureThreshold : ℕ
deriving DecidableEq, Repr

/-- A target after validation. -/
inductive ProbeTarget where
  | http (host : Text) (port : ℕ) (path : Text)
  | tcp (host : Text) (port : ℕ)
  | exec (command : Text)
deriving DecidableEq, Repr

/-- Why a target was rejected, with the target as written. -/
inductive ProbeTargetError where
  | empty
  | httpsUnsupported (target : Text)
  | notHttpUrl (target : Text)
  | missingHost (target : Text)
  | invalidHost (target : Text)
  | invalidPath (target : Text)
  | missingPort (target : Text)
  | badPort (target : Text)
deriving DecidableEq, Repr

/-- `u16::from_str`: digits, behind a plus if any, that do not overflow. -/
def parseU16 (s : Text) : Option ℕ :=
  let digits := match s with
    | '+' :: rest => rest
    | s => s
  if digits ≠ [] ∧ digits.all Char.isDigit = true then
    let n := Nat.ofDigitChars 10 digits 0
    if n < 65536 then some n else none
  else none

def parsePort (port target : Text) : Except ProbeTargetError ℕ :=
  match parseU16 port with
  | some n => .ok n
  | none => .error (.badPort target)

/-- An authority as host and port, a bracketed host first. -/
def splitAuthority (authority target : Text) : Except ProbeTargetError (Text × Option Text) :=
  match authority with
  | '[' :: inner =>
    match inner.span (· != ']') with
    | (_, []) => .error (.missingHost target)
    | (host, _ :: ':' :: port) => .ok (host, some port)
    | (host, [_]) => .ok (host, none)
    | (_, _ :: _ :: _) => .error (.badPort target)
  | authority =>
    -- the last colon, found from the other end
    match authority.reverse.span (· != ':') with
    | (_, []) => .ok (authority, none)
    | (port, _ :: host) => .ok (host.reverse, some port.reverse)

def validateHost (host authority target : Text) : Except ProbeTargetError Unit :=
  if host.contains '@' || host.any isWhitespace ||
      (authority.head? != some '[' && host.contains ':') then .error (.invalidHost target)
  else .ok ()

def validatePath (path target : Text) : Except ProbeTargetError Unit :=
  if path.any fun c => isWhitespace c || isControl c then .error (.invalidPath target) else .ok ()

/-- What follows a prefix, spelled in any case. -/
def stripPrefixIgnoreAsciiCase (s front : Text) : Option Text :=
  if front.length ≤ s.length ∧ (s.take front.length).map Char.toLower = front.map Char.toLower then
    some (s.drop front.length)
  else none

def parseHttp (target : Text) : Except ProbeTargetError ProbeTarget :=
  let trimmed := trim target
  match stripPrefixIgnoreAsciiCase trimmed "http://".toList with
  | none =>
    if (stripPrefixIgnoreAsciiCase trimmed "https://".toList).isSome then
      .error (.httpsUnsupported target)
    else .error (.notHttpUrl target)
  | some rest => do
    let authority := rest.takeWhile (· != '/')
    let path := if rest.dropWhile (· != '/') = [] then ['/'] else rest.dropWhile (· != '/')
    if authority = [] then throw (.missingHost target)
    let (host, port) ← splitAuthority authority target
    if host = [] then throw (.missingHost target)
    validateHost host authority target
    validatePath path target
    let port ← parsePort (port.getD ['8', '0']) target
    return .http host port path

def parseTcp (target : Text) : Except ProbeTargetError ProbeTarget := do
  let trimmed := trim target
  let (host, port) ← splitAuthority trimmed target
  if host = [] then throw (.missingHost target)
  validateHost host trimmed target
  match port with
  | none => throw (.missingPort target)
  | some [] => throw (.missingPort target)
  | some port =>
    let port ← parsePort port target
    return .tcp host port

/-- `ProbeTarget::parse`. -/
def ProbeConfig.parse (config : ProbeConfig) : Except ProbeTargetError ProbeTarget :=
  if trim config.target = [] then .error .empty
  else
    match config.kind with
    | .http => parseHttp config.target
    | .tcp => parseTcp config.target
    | .exec => .ok (.exec config.target)

end Normalize

end Shep
