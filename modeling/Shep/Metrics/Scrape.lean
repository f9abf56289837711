import Shep.Common.Lines
import Shep.Metrics.Model

/-!
# Metrics — the text format, as a scraper reads it

The exposition format, version 0.0.4: lines, which a line feed ends, of
samples and of comments, where a comment that begins with `HELP` or `TYPE`
says something of a metric. `parse` is its reader. A number of a metric is
read by `read`, which is the scraper's own `ParseFloat`. Histograms and
summaries are not among the kinds read here.
-/

namespace Shep

namespace Metrics

namespace Scrape

/-! ## Tokens -/

/-- What may stand between two tokens. -/
def isBlank (c : Char) : Bool := c == ' ' || c == '\t'

def skipBlanks (s : Text) : Text := s.dropWhile isBlank

/-- A token, and what is behind it. -/
def token (s : Text) : Text × Text := s.span fun c => !isBlank c

def isNameChar (c : Char) : Bool := isAsciiAlphanumeric c ∨ c = '_' ∨ c = ':'

def isLabelChar (c : Char) : Bool := isAsciiAlphanumeric c ∨ c = '_'

/-- The text of a `HELP` comment without its escapes. -/
def unescapeHelp : Text → Option Text
  | [] => some []
  | '\\' :: '\\' :: rest => (unescapeHelp rest).map ('\\' :: ·)
  | '\\' :: 'n' :: rest => (unescapeHelp rest).map ('\n' :: ·)
  | '\\' :: _ => none
  | c :: rest => (unescapeHelp rest).map (c :: ·)

/-- A label value without its escapes, and what is behind the quote that
ends it. -/
def labelValue : Text → Option (Text × Text)
  | [] => none
  | '"' :: rest => some ([], rest)
  | '\\' :: '\\' :: rest => (labelValue rest).map fun r => ('\\' :: r.1, r.2)
  | '\\' :: '"' :: rest => (labelValue rest).map fun r => ('"' :: r.1, r.2)
  | '\\' :: 'n' :: rest => (labelValue rest).map fun r => ('\n' :: r.1, r.2)
  | '\\' :: _ => none
  | c :: rest => (labelValue rest).map fun r => (c :: r.1, r.2)

/-- One label, and what is behind its value. -/
def labelPair (s : Text) : Option (Label × Text) :=
  let (key, rest) := s.span isLabelChar
  if validLabelName key then
    match skipBlanks rest with
    | '=' :: rest =>
      match skipBlanks rest with
      | '"' :: rest => (labelValue rest).map fun r => ((key, r.1), r.2)
      | _ => none
    | _ => none
  else none

/-- The labels up to the closing brace. A label takes a character at least,
which the count bounds. -/
def labelsFrom : ℕ → Text → Option (List Label × Text)
  | 0, _ => none
  | fuel + 1, s =>
    match skipBlanks s with
    | '}' :: rest => some ([], rest)
    | s =>
      match labelPair s with
      | none => none
      | some (pair, rest) =>
        match skipBlanks rest with
        | '}' :: rest => some ([pair], rest)
        | ',' :: rest => (labelsFrom fuel rest).map fun r => (pair :: r.1, r.2)
        | _ => none

/-! ## Lines -/

/-- What a line says. -/
inductive Line where
  | help (name docstring : Text)
  | type (name : Text) (kind : MetricType)
  | sample (name : Text) (labels : List Label) (value : F64)
  deriving Repr, DecidableEq

/-- The metric a line is about. -/
def Line.metric : Line → Text
  | .help name _ => name
  | .type name _ => name
  | .sample name _ _ => name

/-- What may stand behind a value: a timestamp. -/
def isTimestamp (s : Text) : Bool :=
  let (digits, rest) := token s
  let digits := if digits.head? = some '-' then digits.tail else digits
  (s.isEmpty || (!digits.isEmpty && digits.all Char.isDigit)) && rest.all isBlank

/-- A sample from its value on. -/
def sampleFrom (read : Text → Text → Option F64) (name : Text) (labels : List Label) (s : Text) :
    Option Line :=
  let (text, rest) := token (skipBlanks s)
  (read name text).bind fun value =>
    if isTimestamp (skipBlanks rest) then some (.sample name labels value) else none

/-- The line of a sample. -/
def parseSample (read : Text → Text → Option F64) (s : Text) : Option Line :=
  let (name, rest) := s.span isNameChar
  if validMetricName name then
    match skipBlanks rest with
    | '{' :: inner =>
      match labelsFrom (inner.length + 1) inner with
      | none => none
      | some (labels, rest) =>
        if (labels.map Prod.fst).Nodup then sampleFrom read name labels rest else none
    | _ => if (rest.head?.any isBlank) then sampleFrom read name [] rest else none
  else none

def parseKind (word : Text) : Option MetricType :=
  if word = "gauge".toList then some .gauge
  else if word = "counter".toList then some .counter
  else none

/-- A comment, from behind the hash: one that says nothing of a metric is
passed over. -/
def parseComment (s : Text) : Option (Option Line) :=
  let (word, rest) := token (skipBlanks s)
  let (name, rest) := token (skipBlanks rest)
  if word = "HELP".toList then
    if validMetricName name then
      (unescapeHelp (skipBlanks rest)).map fun docstring => some (.help name docstring)
    else none
  else if word = "TYPE".toList then
    let (kind, rest) := token (skipBlanks rest)
    if validMetricName name ∧ rest.all isBlank = true then
      (parseKind kind).map fun kind => some (.type name kind)
    else none
  else some none

/-- One line. -/
def parseLine (read : Text → Text → Option F64) (line : Text) : Option (Option Line) :=
  match skipBlanks line with
  | [] => some none
  | '#' :: rest => parseComment rest
  | s => (parseSample read s).map some

/-! ## Metrics -/

/-- A metric as it is read. -/
structure Family where
  name : Text
  kind : Option MetricType
  help : Option Text
  series : List (List Label × F64)
  deriving Repr, DecidableEq

/-- A line added to its metric: the `HELP` and the `TYPE` come once each, and
before the samples. -/
def addTo (family : Family) : Line → Option Family
  | .help _ docstring =>
    if family.help.isSome ∨ family.series ≠ [] then none
    else some { family with help := some docstring }
  | .type _ kind =>
    if family.kind.isSome ∨ family.series ≠ [] then none
    else some { family with kind := some kind }
  | .sample _ labels value => some { family with series := family.series ++ [(labels, value)] }

/-- A line added to the metrics so far. All the lines of a metric are in one
group. -/
def addLine (families : List Family) (line : Line) : Option (List Family) :=
  match families.getLast? with
  | none => (addTo ⟨line.metric, none, none, []⟩ line).map fun family => [family]
  | some current =>
    if current.name = line.metric then
      (addTo current line).map fun family => families.dropLast ++ [family]
    else if families.any fun family => family.name = line.metric then none
    else (addTo ⟨line.metric, none, none, []⟩ line).map fun family => families ++ [family]

/-- The metrics of a text. -/
def parse (read : Text → Text → Option F64) (text : Text) : Option (List Family) :=
  if text ≠ [] ∧ text.getLast? ≠ some '\n' then none
  else ((lines '\n' text).mapM (parseLine read)).bind fun parsed =>
    (parsed.filterMap id).foldlM addLine []

end Scrape

end Metrics

end Shep
