import Shep.Normalize.Probe
import Shep.Template.Literal
import Std.Data.ExtTreeMap.Lemmas

/-!
# Dotenv — reading a `.env`

`import/dotenv/parse.rs`: the grammar, which cuts a text into lines before
it looks for a quote. `plan.rs`: which store each key goes to, with
`globset`'s patterns as what they match. `mod.rs`: what the import puts into
a sheep's env.
-/

namespace Shep

namespace Dotenv

open Template (Text escapeTemplate)
open Normalize (isWhitespace trim)

/-! ## Characters -/

/-- `str::trim_start`. -/
def trimStart (s : Text) : Text := s.dropWhile isWhitespace

/-- `str::trim_end`. -/
def trimEnd (s : Text) : Text := (s.reverse.dropWhile isWhitespace).reverse

/-- `str::strip_prefix`. -/
def stripPrefix (front s : Text) : Option Text :=
  if front.isPrefixOf s then some (s.drop front.length) else none

/-- `str::split_once`. -/
def splitOnce (sep : Char) (s : Text) : Option (Text × Text) :=
  match s.span (· != sep) with
  | (_, []) => none
  | (before, _ :: behind) => some (before, behind)

/-- A line without the carriage return that ends it. -/
def stripReturn (line : Text) : Text :=
  if line.getLast? = some '\r' then line.dropLast else line

/-- The byte order mark. -/
def bom : Char := '\ufeff'

/-! ## The grammar -/

/-- `Entry`. -/
structure Entry where
  key : Text
  value : Text
  line : ℕ
  deriving Repr, DecidableEq

/-- `ParseReason`. -/
inductive ParseReason where
  | noEquals
  | emptyKey
  | unterminatedQuote
  | badEscape
  | ambiguousComment
  | trailingText
  | duplicate (first : ℕ)
  deriving Repr, DecidableEq

/-- `ParseError`. -/
structure ParseError where
  line : ℕ
  reason : ParseReason
  deriving Repr, DecidableEq

/-- `ParseError`'s `Display`. -/
def ParseError.text (err : ParseError) : String :=
  "line " ++ toString err.line ++ ": " ++
    match err.reason with
    | .noEquals => "no `=`; every line is `KEY=value`"
    | .emptyKey => "the name before the `=` is empty"
    | .unterminatedQuote => "a quote opened and never closed"
    | .badEscape => "a backslash inside double quotes must be followed by n, r, t, \\\" or \\\\"
    | .ambiguousComment => "a ` #` after a value that already has spaces in it reads two ways; " ++
      "quote the value if the `#` is part of it"
    | .trailingText => "unexpected text after the closing quote"
    | .duplicate first => "this key was already set on line " ++ toString first

/-- `check_tail`. -/
def checkTail (tail : Text) (lineNumber : ℕ) : Except ParseError Unit :=
  let tail := trim tail
  if tail.isEmpty || tail.head? == some '#' then .ok () else .error ⟨lineNumber, .trailingText⟩

/-- What stands before the first `#` with white space before it, `last`
being the character before the text. -/
def beforeComment (last : Option Char) : Text → Option Text
  | [] => none
  | c :: rest =>
    if c == '#' && last.any isWhitespace then some []
    else (beforeComment (some c) rest).map (c :: ·)

/-- `unquoted_value`. -/
def unquotedValue (rest : Text) (lineNumber : ℕ) : Except ParseError Text :=
  match beforeComment none rest with
  | none => .ok (trim rest)
  | some before =>
    let value := trim before
    if value.any isWhitespace then .error ⟨lineNumber, .ambiguousComment⟩ else .ok value

/-- `single_quoted`. -/
def singleQuoted (afterQuote : Text) (lineNumber : ℕ) : Except ParseError Text :=
  match splitOnce '\'' afterQuote with
  | none => .error ⟨lineNumber, .unterminatedQuote⟩
  | some (value, tail) =>
    match checkTail tail lineNumber with
    | .error err => .error err
    | .ok () => .ok value

/-- The character an escape stands for. -/
def unescaped : Char → Option Char
  | 'n' => some '\n'
  | 'r' => some '\r'
  | 't' => some '\t'
  | '"' => some '"'
  | '\\' => some '\\'
  | _ => none

/-- Where the scan of a line inside double quotes has got: to the quote, with
the text behind it, or to the end of the line. -/
inductive Scan where
  | closed (value tail : Text)
  | through (value : Text)
  | refused (reason : ParseReason)
  deriving Repr, DecidableEq

/-- The inner loop of `double_quoted`, with the value so far. -/
def scanLine (value : Text) : Text → Scan
  | [] => .through value
  | '"' :: tail => .closed value tail
  | ['\\'] => .refused .unterminatedQuote
  | '\\' :: escaped :: rest =>
    match unescaped escaped with
    | some c => scanLine (value ++ [c]) rest
    | none => .refused .badEscape
  | other :: rest => scanLine (value ++ [other]) rest

/-- What `double_quoted` does with a line scanned, where `further` goes on
behind the line. -/
def closeQuote (lineNumber consumed : ℕ) (further : Text → Except ParseError (Text × ℕ)) :
    Scan → Except ParseError (Text × ℕ)
  | .refused reason => .error ⟨lineNumber, reason⟩
  | .closed value tail =>
    match checkTail tail lineNumber with
    | .error err => .error err
    | .ok () => .ok (value, consumed)
  | .through value => further value

/-- `double_quoted`, with the value and the count of lines so far. -/
def doubleQuoted (lineNumber : ℕ) (value : Text) (consumed : ℕ) (current : Text) :
    List Text → Except ParseError (Text × ℕ)
  | [] =>
    closeQuote lineNumber consumed (fun _ => .error ⟨lineNumber, .unterminatedQuote⟩)
      (scanLine value current)
  | next :: following =>
    closeQuote lineNumber consumed
      (fun value => doubleQuoted lineNumber (value ++ ['\n']) (consumed + 1) next following)
      (scanLine value current)

/-- `read_value`: the value, and how many further lines it took. -/
def readValue (rest : Text) (following : List Text) (lineNumber : ℕ) :
    Except ParseError (Text × ℕ) :=
  match trimStart rest with
  | '\'' :: afterQuote => (singleQuoted afterQuote lineNumber).map fun value => (value, 0)
  | '"' :: afterQuote => doubleQuoted lineNumber [] 0 afterQuote following
  | _ => (unquotedValue rest lineNumber).map fun value => (value, 0)

/-- The loop of `parse` over the lines from one on, with the keys seen and
the entries so far. It takes a line at least, which the count bounds. -/
def entriesFrom : ℕ → ℕ → Std.ExtTreeMap Text ℕ → List Entry → List Text →
    Except ParseError (List Entry)
  | 0, _, _, entries, _ => .ok entries
  | _ + 1, _, _, entries, [] => .ok entries
  | fuel + 1, index, seen, entries, raw :: following =>
    let lineNumber := index + 1
    let line := trimStart raw
    if line.isEmpty || line.head? == some '#' then
      entriesFrom fuel (index + 1) seen entries following
    else
      let body := match stripPrefix "export ".toList line with
        | some body => trimStart body
        | none => line
      match splitOnce '=' body with
      | none => .error ⟨lineNumber, .noEquals⟩
      | some (rawKey, rest) =>
        let key := trimEnd rawKey
        if key.isEmpty then .error ⟨lineNumber, .emptyKey⟩
        else
          match seen[key]? with
          | some first => .error ⟨lineNumber, .duplicate first⟩
          | none =>
            match readValue rest following lineNumber with
            | .error err => .error err
            | .ok (value, extraLines) =>
              entriesFrom fuel (index + 1 + extraLines) (seen.insert key lineNumber)
                (entries ++ [⟨key, value, lineNumber⟩]) (following.drop extraLines)

/-- The lines of a file, without its byte order mark. -/
def fileLines (text : Text) : List Text :=
  let text := if text.head? = some bom then text.tail else text
  (text.splitOn '\n').map stripReturn

/-- `parse`. -/
def parse (text : Text) : Except ParseError (List Entry) :=
  entriesFrom (fileLines text).length 0 ∅ [] (fileLines text)

/-! ## The plan -/

/-- `Class`. -/
inductive Class where
  | secret
  | plain
  deriving Repr, DecidableEq

/-- `Planned`. -/
structure Planned where
  key : Text
  value : Text
  cls : Class
  deriving Repr, DecidableEq

/-- `ImportPlan`. -/
structure ImportPlan where
  entries : List Planned
  unnamed : List Text
  deriving Repr, DecidableEq

/-- `PlanError`. -/
inductive PlanError where
  | badPattern (pattern message : Text)
  | matchedNothing (pattern : Text)
  | nothingToImport
  | keyNotStorable (key : Text)
  | valueTooLong (key : Text) (len : ℕ)
  deriving Repr, DecidableEq

/-- `globset`: what a pattern matches, or why it does not compile. -/
abbrev Glob := Text → Except Text (Text → Bool)

/-- `select`: the keys the patterns match, refusing one that matches none. -/
def select (glob : Glob) (entries : List Entry) : List Text → Except PlanError (List Text)
  | [] => .ok []
  | pattern :: patterns =>
    match glob pattern with
    | .error message => .error (.badPattern pattern message)
    | .ok isMatch =>
      let hits := (entries.filter fun entry => isMatch entry.key).map Entry.key
      if hits.isEmpty then .error (.matchedNothing pattern)
      else
        match select glob entries patterns with
        | .error err => .error err
        | .ok matched => .ok (hits ++ matched)

/-- `SECRETISH`. -/
def secretish : List Text :=
  ["PASSWORD", "SECRET", "TOKEN", "KEY", "DSN", "CREDENTIAL", "PRIVATE"].map String.toList

/-- `looks_secret`. -/
def looksSecret (key : Text) : Bool :=
  let upper := key.map Char.toUpper
  secretish.any fun needle => upper.tails.any fun rest => needle.isPrefixOf rest

/-- `MAX_VALUE_BYTES`, of the secret store. -/
def maxValueBytes : ℕ := 4096

/-- `String::len`. -/
def byteLen (value : Text) : ℕ := (String.ofList value).utf8ByteSize

/-- One entry of `build`'s loop. -/
def planEntry (secretsNamed : List Text) (plan : ImportPlan) (entry : Entry) :
    Except PlanError ImportPlan :=
  if secretsNamed.contains entry.key then
    if !Template.isName entry.key then .error (.keyNotStorable entry.key)
    else if maxValueBytes < byteLen entry.value then
      .error (.valueTooLong entry.key (byteLen entry.value))
    else .ok ⟨plan.entries ++ [⟨entry.key, entry.value, .secret⟩], plan.unnamed⟩
  else
    let unnamed := if looksSecret entry.key then plan.unnamed ++ [entry.key] else plan.unnamed
    .ok ⟨plan.entries ++ [⟨entry.key, entry.value, .plain⟩], unnamed⟩

/-- The entries `--only` leaves. -/
def keptEntries (glob : Glob) (entries : List Entry) (only : List Text) :
    Except PlanError (List Entry) :=
  if only.isEmpty then .ok entries
  else (select glob entries only).map fun matched =>
    entries.filter fun entry => matched.contains entry.key

/-- `build`. -/
def build (glob : Glob) (entries : List Entry) (only secret : List Text) :
    Except PlanError ImportPlan := do
  let kept ← keptEntries glob entries only
  if kept.isEmpty then throw .nothingToImport
  let secretsNamed ← select glob kept secret
  kept.foldlM (planEntry secretsNamed) ⟨[], []⟩

/-! ## What goes into the env -/

/-- The value `wire_entries` puts for a key: a reference to the secret, or
the value escaped. -/
def wireValue (planned : Planned) : Text :=
  match planned.cls with
  | .secret => Template.braced (Template.secretPrefix ++ planned.key)
  | .plain => escapeTemplate planned.value

/-- `wire_entries`. -/
def wireEntries (plan : ImportPlan) : Std.ExtTreeMap Text Text :=
  .ofList (plan.entries.map fun planned => (planned.key, wireValue planned))

end Dotenv

end Shep
