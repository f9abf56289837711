import Shep.Secrets.Model

/-!
# Template — the passes over a value

`template.rs`: the walker of the `{{...}}` grammar and the passes built on
it, and `refs.rs`'s reading of a reference. A value is a list of
characters. The walker's patterns are ASCII, so that the byte positions it
stops at are positions of characters. A pass is a step over the segments of
the walk that ends it with an error or goes on.
-/

namespace Shep

namespace Template

open Secrets (SecretRef SecretView Resolution)

/-- The text a value is read as. -/
abbrev Text := List Char

/-! ## References -/

/-- `MAX_KEY_BYTES`. -/
def maxKeyBytes : ℕ := 128

/-- `is_name`. A name is ASCII, so its length in bytes is its length. -/
def isName (value : Text) : Bool :=
  !value.isEmpty && decide (value.length ≤ maxKeyBytes) && value.head? != some '.' &&
    value.all fun c => c.isAlphanum || c == '.' || c == '_' || c == '-'

/-- `SecretRef::parse`, which cuts at the first slash. -/
def parseRef (body : Text) : Option SecretRef :=
  match body.span (· != '/') with
  | (key, []) => if isName key then some ⟨none, String.ofList key⟩ else none
  | (ns, _ :: key) =>
    if isName ns && isName key then some ⟨some (String.ofList ns), String.ofList key⟩ else none

/-- A reference as the operator wrote it, without prefix and braces. -/
def spelled (reference : SecretRef) : Text :=
  match reference.ns with
  | some ns => ns.toList ++ '/' :: reference.key.toList
  | none => reference.key.toList

/-- `SECRET_PREFIX`. -/
def secretPrefix : Text := ['s', 'e', 'c', 'r', 'e', 't', ':']

/-- `secret_reference`. -/
def secretReference (token : Text) : Option SecretRef :=
  if secretPrefix.isPrefixOf token then parseRef (token.drop secretPrefix.length) else none

/-! ## The walk -/

def openBraces : Text := ['{', '{']

def closeBraces : Text := ['}', '}']

/-- A token with its braces, as `push_token` writes it. -/
def braced (token : Text) : Text := openBraces ++ token ++ closeBraces

/-- `SecretRef`'s `Display`. -/
def shown (reference : SecretRef) : Text := braced (secretPrefix ++ spelled reference)

/-- `Segment`. -/
inductive Segment where
  | literal (text : Text)
  | token (name : Text)
  deriving Repr, DecidableEq

/-- `Completion`. -/
inductive Completion where
  | complete
  | unclosed
  deriving Repr, DecidableEq

/-- The text on either side of the first `}}`. -/
def findClose : Text → Option (Text × Text)
  | [] => none
  | c :: rest =>
    if closeBraces.isPrefixOf (c :: rest) then some ([], rest.drop 1)
    else (findClose rest).map fun found => (c :: found.1, found.2)

/-- The loop of `walk`, with the literal run it is in and what is ahead. It
takes a character at least from what is ahead, which the count bounds. -/
def segmentsFrom : ℕ → Text → Text → List Segment × Completion
  | 0, run, rest => ([.literal (run ++ rest)], .complete)
  | fuel + 1, run, rest =>
    if (openBraces ++ openBraces).isPrefixOf rest then
      let next := segmentsFrom fuel [] (rest.drop 4)
      (.literal run :: .literal openBraces :: next.1, next.2)
    else if (closeBraces ++ closeBraces).isPrefixOf rest then
      let next := segmentsFrom fuel [] (rest.drop 4)
      (.literal run :: .literal closeBraces :: next.1, next.2)
    else if openBraces.isPrefixOf rest then
      match findClose (rest.drop 2) with
      | none => ([.literal run], .unclosed)
      | some (token, after) =>
        let next := segmentsFrom fuel [] after
        (.literal run :: .token token :: next.1, next.2)
    else
      match rest with
      | [] => ([.literal run], .complete)
      | c :: rest => segmentsFrom fuel (run ++ [c]) rest

/-- The segments of a value, and how far its walk got. -/
def segments (value : Text) : List Segment × Completion := segmentsFrom value.length [] value

variable {ε σ : Type}

/-- `walk`: the first segment refused ends it. -/
def walk (value : Text) (onSegment : σ → Segment → Except ε σ) (s : σ) :
    Except ε (σ × Completion) :=
  match (segments value).1.foldlM onSegment s with
  | .error err => .error err
  | .ok s => .ok (s, (segments value).2)

/-- `walk`, of a step that refuses nothing. -/
def walkAll (value : Text) (onSegment : σ → Segment → σ) (s : σ) : σ :=
  (segments value).1.foldl onSegment s

/-- One segment of `secret_references_in`. -/
def onReference (found : List SecretRef) : Segment → List SecretRef
  | .literal _ => found
  | .token token => found ++ (secretReference token).toList

/-- `secret_references_in`. -/
def secretReferencesIn (value : Text) : List SecretRef := walkAll value onReference []

/-- `references_in`. -/
def referencesIn (value : Text) : Finset Text :=
  ((secretReferencesIn value).map spelled).toFinset

/-- One segment of `holds_token`. -/
def onWanted (wanted : Text → Bool) (found : Bool) : Segment → Bool
  | .literal _ => found
  | .token token => found || wanted token

/-- `holds_token`. -/
def holdsToken (value : Text) (wanted : Text → Bool) : Bool :=
  walkAll value (onWanted wanted) false

/-- `holds_secret`. -/
def holdsSecret (value : Text) : Bool :=
  holdsToken value fun token => (secretReference token).isSome

/-- `SHEP_HOME`. -/
def shepHomeToken : Text := ['S', 'H', 'E', 'P', '_', 'H', 'O', 'M', 'E']

/-- `holds_shep_home`. -/
def holdsShepHome (value : Text) : Bool := holdsToken value (· == shepHomeToken)

/-! ## Validation -/

/-- `TOKENS`. -/
def tokenNames : List Text :=
  [['i', 'n', 's', 't', 'a', 'n', 'c', 'e'], ['n', 'a', 'm', 'e'], shepHomeToken]

/-- `TemplateError`. -/
inductive TemplateError where
  | unknownToken (token : Text)
  | unclosed
  deriving Repr, DecidableEq

/-- `TemplateError`'s `Display`. -/
def TemplateError.text : TemplateError → String
  | .unknownToken token =>
    let quoted := fun token => "`" ++ String.ofList (braced token) ++ "`"
    if secretPrefix.isPrefixOf token then
      quoted token ++ " is not a valid secret reference: write " ++
        quoted (secretPrefix ++ "KEY".toList) ++ " or " ++
        quoted (secretPrefix ++ "namespace/KEY".toList) ++ ", where each part holds only " ++
        "letters, digits, `.`, `_` or `-` and does not start with `.`"
    else quoted token ++ " is not a template token: valid tokens are " ++
      ", ".intercalate ((tokenNames ++ [secretPrefix ++ "...".toList]).map quoted)
  | .unclosed => "a `\x7b\x7b` in this value is never closed by a `\x7d\x7d`"

/-- A token `validate` lets through. -/
def knows (token : Text) : Bool := tokenNames.contains token || (secretReference token).isSome

/-- One segment of `validate`. -/
def onValidated (_ : Unit) : Segment → Except TemplateError Unit
  | .literal _ => .ok ()
  | .token token => if knows token then .ok () else .error (.unknownToken token)

/-- `validate`. -/
def validate (value : Text) : Except TemplateError Unit :=
  match walk value onValidated () with
  | .error err => .error err
  | .ok (_, .complete) => .ok ()
  | .ok (_, .unclosed) => .error .unclosed

/-! ## Rendering -/

/-- `RenderError`. -/
inductive RenderError where
  | unresolved (reference : Text) (environment : String)
  | namespaceUnready (ns : String) (reference : Text) (environment : String)
  | malformed (reference : Text)
  deriving Repr, DecidableEq

/-- `is_retriable`. -/
def RenderError.isRetriable : RenderError → Bool
  | .namespaceUnready _ _ _ => true
  | .unresolved _ _ | .malformed _ => false

/-- `positional`. -/
def positional (token name slot : Text) (shepHome : Option Text) : Option Text :=
  if token == ['i', 'n', 's', 't', 'a', 'n', 'c', 'e'] then some slot
  else if token == ['n', 'a', 'm', 'e'] then some name
  else if token == shepHomeToken then shepHome
  else none

/-- `resolve_secret`. -/
def resolveSecret (reference : SecretRef) (secrets : SecretView) : Except RenderError Text :=
  match secrets.resolve reference, reference.ns with
  | .found value, _ => .ok value.toList
  | .missingNamespace, some ns =>
    .error (.namespaceUnready ns (shown reference) secrets.environment)
  | .missingKey, _ | .missingNamespace, none =>
    .error (.unresolved (shown reference) secrets.environment)

/-- One segment of `render_positional`. -/
def onPositional (name slot : Text) (shepHome : Option Text) (out : Text) : Segment → Text
  | .literal literal => out ++ literal
  | .token token =>
    match positional token name slot shepHome with
    | some text => out ++ text
    | none => out ++ braced token

/-- `render_positional`. -/
def renderPositional (value name : Text) (inst : ℕ) (shepHome : Option Text) : Text :=
  walkAll value (onPositional name inst.repr.toList shepHome) []

/-- One segment of `render`. -/
def onRendered (name slot : Text) (shepHome : Option Text) (secrets : SecretView) (out : Text) :
    Segment → Except RenderError Text
  | .literal literal => .ok (out ++ literal)
  | .token token =>
    match positional token name slot shepHome with
    | some text => .ok (out ++ text)
    | none =>
      match secretReference token with
      | some reference =>
        match resolveSecret reference secrets with
        | .error err => .error err
        | .ok value => .ok (out ++ value)
      | none => .ok (out ++ braced token)

/-- `render`. -/
def render (value name : Text) (inst : ℕ) (shepHome : Option Text) (secrets : SecretView) :
    Except RenderError Text :=
  match walk value (onRendered name inst.repr.toList shepHome secrets) [] with
  | .error err => .error err
  | .ok (out, _) => .ok out

/-- A literal the walk hands over for an escape, if the value has the escape
where it stands. -/
def isEscape (literal ahead : Text) : Bool :=
  (literal == openBraces || literal == closeBraces) && (literal ++ literal).isPrefixOf ahead

/-- One segment of `render_secrets`, with how much of the value the segments
before it account for. -/
def onSecretSegment (value : Text) (secrets : SecretView) (s : Text × ℕ) :
    Segment → Except RenderError (Text × ℕ)
  | .literal literal =>
    if isEscape literal (value.drop s.2) then .ok (s.1 ++ (literal ++ literal), s.2 + 4)
    else .ok (s.1 ++ literal, s.2 + literal.length)
  | .token token =>
    match secretReference token with
    | some reference =>
      match resolveSecret reference secrets with
      | .error err => .error err
      | .ok found => .ok (s.1 ++ found, s.2 + (token.length + 4))
    | none =>
      if secretPrefix.isPrefixOf token then .error (.malformed (braced token))
      else .ok (s.1 ++ braced token, s.2 + (token.length + 4))

/-- `render_secrets`. -/
def renderSecrets (value : Text) (secrets : SecretView) : Except RenderError Text :=
  match walk value (onSecretSegment value secrets) ([], 0) with
  | .error err => .error err
  | .ok ((out, _), .complete) => .ok out
  | .ok ((out, at'), .unclosed) => .ok (out ++ value.drop at')

end Template

end Shep
