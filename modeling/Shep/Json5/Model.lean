import Mathlib.Algebra.Order.Ring.Nat
import Mathlib.Data.List.Basic
import Mathlib.Data.List.Induction
import Mathlib.Order.Bounds.Basic

/-!
# Json5 — the nesting guard

`config/flockfile/json5.rs`: the depth of a source text, counted by a scan
that skips strings and comments, and of `config/flockfile/parse.rs` the
JSON5 arm of `parse_into_ignoring`, which gives the text to the `json5`
crate only when the depth is within the bound. The crate is a parameter.
-/

namespace Shep

namespace Json5

/-- `u32::MAX`. -/
def u32Max : ℕ := 2 ^ 32 - 1

def MAX_JSON5_NESTING_DEPTH : ℕ := 64

/-- The loop over the rest of a line comment: what it leaves. -/
def skipLine : List Char → List Char
  | [] => []
  | c2 :: chars => if c2 = '\n' then chars else skipLine chars

/-- The loop over the rest of a block comment: what it leaves once it is
closed. -/
def skipBlock (prev : Char) : List Char → Option (List Char)
  | [] => none
  | c2 :: chars => if prev = '*' ∧ c2 = '/' then some chars else skipBlock c2 chars

theorem length_skipLine (chars : List Char) : (skipLine chars).length ≤ chars.length := by
  induction chars with
  | nil => exact Nat.le_refl _
  | cons c2 chars ih =>
    rw [skipLine]
    split <;> simp only [List.length_cons] <;> omega

theorem length_skipBlock {prev : Char} {chars rest : List Char}
    (h : skipBlock prev chars = some rest) : rest.length ≤ chars.length := by
  induction chars generalizing prev with
  | nil => cases h
  | cons c2 chars ih =>
    rw [skipBlock] at h
    split at h
    · obtain rfl := Option.some.inj h
      simp
    · exact Nat.le_trans (ih h) (by simp)

/-- The loop of `json5_nesting_depth`. -/
def scan (depth maxDepth : ℕ) (inString : Option Char) : List Char → ℕ
  | [] => if inString.isSome then u32Max else maxDepth
  | c :: chars =>
    match inString with
    | some quote =>
      -- the character after a backslash is skipped, whatever it is
      if c = '\\' then scan depth maxDepth (some quote) chars.tail
      else if c = quote then scan depth maxDepth none chars
      else scan depth maxDepth (some quote) chars
    | none =>
      if c = '/' ∧ chars.head? = some '/' then
        scan depth maxDepth none (skipLine chars.tail)
      else if c = '/' ∧ chars.head? = some '*' then
        match _hrest : skipBlock '\x00' chars.tail with
        | some rest => scan depth maxDepth none rest
        | none => u32Max
      else if c = '"' ∨ c = '\'' then scan depth maxDepth (some c) chars
      else if c = '[' ∨ c = '{' then
        scan (min (depth + 1) u32Max) (max maxDepth (min (depth + 1) u32Max)) none chars
      else if c = ']' ∨ c = '}' then scan (depth - 1) maxDepth none chars
      else scan depth maxDepth none chars
  termination_by chars => chars.length
  decreasing_by
    all_goals
      have htail : chars.tail.length ≤ chars.length := by simp
      have hline := length_skipLine chars.tail
      simp only [List.length_cons]
    all_goals first
      | omega
      | exact Nat.lt_succ_of_le (Nat.le_trans (length_skipBlock _hrest) htail)

/-- `json5_nesting_depth`. -/
def json5NestingDepth (source : List Char) : ℕ := scan 0 0 none source

/-- `FlockfileError::Parse` of the JSON5 arm. -/
structure ParseError where
  message : String
  deriving Repr, DecidableEq

/-- The JSON5 arm of `parse_into_ignoring`; `fromStr` is what the crate and
the deserializer make of a text. -/
def parseInto {α : Type} (fromStr : List Char → Except ParseError α) (source : List Char) :
    Except ParseError α :=
  if json5NestingDepth source > MAX_JSON5_NESTING_DEPTH then .error ⟨"nesting depth exceeds 64"⟩
  else fromStr source

end Json5

end Shep

/-!
## Reading a text

What a reader of JSON5 makes of a text, one character at a time, as far as
it decides where strings and comments begin and end and which brackets are
open. It stops at what the lexical grammar rules out: a bracket that closes
no open one of its kind, a line end inside a string that no backslash
stands before, a slash that begins no comment. A reader that knows the rest
of the grammar stops earlier or at the same place, so what it reaches is
reached here too.
-/

namespace Shep

namespace Json5

/-- What ends a line comment: line feed, carriage return, `U+2028` and
`U+2029`. -/
def isLineTerminator (c : Char) : Prop :=
  c = '\n' ∨ c = '\r' ∨ c = '\u2028' ∨ c = '\u2029'

instance (c : Char) : Decidable (isLineTerminator c) := inferInstanceAs (Decidable (_ ∨ _))

/-- Where in a text a reader is. -/
inductive Place where
  /-- outside strings and comments -/
  | code
  /-- behind a slash -/
  | slash
  /-- in a line comment -/
  | line
  /-- in a block comment, behind a star or not -/
  | block (star : Bool)
  /-- in a string -/
  | string (quote : Char)
  /-- in a string, behind a backslash -/
  | escape (quote : Char)
  /-- in a string, behind a backslash and a carriage return -/
  | escapeCr (quote : Char)
  deriving Repr, DecidableEq

/-- The quote of the string that a reader is in. -/
def Place.quote? : Place → Option Char
  | .string quote | .escape quote | .escapeCr quote => some quote
  | .code | .slash | .line | .block _ => none

/-- A reader, with the open brackets, the innermost first. -/
structure Reader where
  place : Place := .code
  stack : List Char := []
  deriving Repr, DecidableEq

namespace Reader

variable (r : Reader)

/-- A bracket that closes the innermost open one. -/
def close (c : Char) : Option Reader :=
  match r.stack with
  | [] => none
  | top :: stack => if top = '[' ↔ c = ']' then some ⟨.code, stack⟩ else none

/-- A character outside strings and comments. -/
def codeStep (c : Char) : Option Reader :=
  if c = '/' then some { r with place := .slash }
  else if c = '"' ∨ c = '\'' then some { r with place := .string c }
  else if c = '[' ∨ c = '{' then some ⟨.code, c :: r.stack⟩
  else if c = ']' ∨ c = '}' then r.close c
  else some { r with place := .code }

/-- A character of a string. -/
def stringStep (quote c : Char) : Option Reader :=
  if c = '\\' then some { r with place := .escape quote }
  else if c = quote then some { r with place := .code }
  else if c = '\n' ∨ c = '\r' then none
  else some { r with place := .string quote }

/-- The next character, unless it is an error. -/
def step (c : Char) : Option Reader :=
  match r.place with
  | .code => r.codeStep c
  | .slash =>
    if c = '/' then some { r with place := .line }
    else if c = '*' then some { r with place := .block false }
    else none
  | .line => some { r with place := if isLineTerminator c then .code else .line }
  | .block star => some { r with place := if star ∧ c = '/' then .code else .block (c = '*') }
  | .string quote => r.stringStep quote c
  -- a carriage return and a line feed behind a backslash are one line end
  | .escape quote => some { r with place := if c = '\r' then .escapeCr quote else .string quote }
  | .escapeCr quote =>
    if c = '\n' then some { r with place := .string quote } else r.stringStep quote c

end Reader

/-- The reader behind a text, if it reads all of it. -/
def read (text : List Char) : Option Reader := text.foldlM Reader.step {}

/-- How many brackets are open at a point of the text that is read before
the first error. -/
def depths (text : List Char) : Set ℕ :=
  {n | ∃ before r, before <+: text ∧ read before = some r ∧ r.stack.length = n}

/-- A text read whole, with nothing left open: every well-formed document
is one. -/
def isWhole (text : List Char) : Prop :=
  ∃ r, read text = some r ∧ r.stack = [] ∧ (r.place = .code ∨ r.place = .line)

theorem read_append (text rest : List Char) :
    read (text ++ rest) = (read text).bind fun r => rest.foldlM Reader.step r := by
  simp [read, List.foldlM_append]

theorem read_snoc (text : List Char) (c : Char) :
    read (text ++ [c]) = (read text).bind fun r => r.step c := by
  rw [read_append]
  simp

theorem mem_depths {text before : List Char} (h : before <+: text) {r : Reader}
    (hr : read before = some r) : r.stack.length ∈ depths text := ⟨before, r, h, hr, rfl⟩

theorem depths_mono {text before : List Char} (h : before <+: text) :
    depths before ⊆ depths text := by
  rintro n ⟨pre, r, hpre, hr, rfl⟩
  exact mem_depths (hpre.trans h) hr

theorem depths_snoc {text : List Char} {c : Char} {r : Reader} (hr : read (text ++ [c]) = some r) :
    depths (text ++ [c]) = insert r.stack.length (depths text) := by
  ext n
  constructor
  · rintro ⟨before, r', hbefore, hr', rfl⟩
    rcases List.prefix_concat_iff.1 hbefore with rfl | hbefore
    · rw [hr] at hr'
      obtain rfl := Option.some.inj hr'
      exact Set.mem_insert _ _
    · exact Set.mem_insert_of_mem _ (mem_depths hbefore hr')
  · rintro (rfl | hn)
    · exact mem_depths (List.prefix_refl _) hr
    · exact depths_mono (List.prefix_append _ _) hn

/-- A string is between two quotes of one kind. -/
def Place.Quoted (place : Place) : Prop := ∀ quote ∈ place.quote?, quote = '"' ∨ quote = '\''

theorem Reader.codeStep_quoted {r r' : Reader} {c : Char} (h : r.codeStep c = some r') :
    r'.place.Quoted := by
  unfold codeStep close at h
  split_ifs at h with hslash hquote hopen hclose
  · obtain rfl := Option.some.inj h
    rintro quote ⟨⟩
  · obtain rfl := Option.some.inj h
    rintro quote ⟨⟩
    exact hquote
  · obtain rfl := Option.some.inj h
    rintro quote ⟨⟩
  · split at h
    · cases h
    · split_ifs at h
      obtain rfl := Option.some.inj h
      rintro quote ⟨⟩
  · obtain rfl := Option.some.inj h
    rintro quote ⟨⟩

theorem Reader.stringStep_quoted {r r' : Reader} {quote c : Char}
    (h : r.stringStep quote c = some r') (hquote : quote = '"' ∨ quote = '\'') :
    r'.place.Quoted := by
  unfold stringStep at h
  split_ifs at h
  all_goals
    obtain rfl := Option.some.inj h
    rintro _ ⟨⟩ <;> exact hquote

theorem Reader.step_quoted {r r' : Reader} {c : Char} (h : r.step c = some r')
    (hquoted : r.place.Quoted) : r'.place.Quoted := by
  unfold step at h
  cases hr : r.place with
  | code => exact codeStep_quoted (by rw [hr] at h; exact h)
  | slash =>
    simp only [hr] at h
    split_ifs at h <;> (obtain rfl := Option.some.inj h; rintro quote ⟨⟩)
  | line | block star =>
    simp only [hr] at h
    obtain rfl := Option.some.inj h
    split_ifs <;> rintro quote ⟨⟩
  | string quote =>
    exact stringStep_quoted (by rw [hr] at h; exact h) (hquoted quote (by rw [hr]; rfl))
  | escape quote =>
    simp only [hr] at h
    obtain rfl := Option.some.inj h
    have hown := hquoted quote (by rw [hr]; rfl)
    split_ifs <;> (rintro _ ⟨⟩; exact hown)
  | escapeCr quote =>
    simp only [hr] at h
    have hown := hquoted quote (by rw [hr]; rfl)
    split_ifs at h
    · obtain rfl := Option.some.inj h
      rintro _ ⟨⟩
      exact hown
    · exact stringStep_quoted h hown

theorem read_quoted {text : List Char} {r : Reader} (h : read text = some r) :
    r.place.Quoted := by
  induction text using List.reverseRecOn generalizing r with
  | nil =>
    obtain rfl := Option.some.inj h
    rintro quote ⟨⟩
  | append_singleton text c ih =>
    rw [read_snoc] at h
    obtain ⟨r', hr', hstep⟩ := Option.bind_eq_some_iff.1 h
    exact Reader.step_quoted hstep (ih hr')

theorem Reader.length_step {r r' : Reader} {c : Char} (h : r.step c = some r') :
    r'.stack.length ≤ r.stack.length + 1 := by
  unfold step codeStep stringStep close at h
  split at h <;> split_ifs at h
  all_goals first
    | (obtain rfl := Option.some.inj h; simp)
    | (split at h
       · cases h
       · next hstack =>
         split_ifs at h
         obtain rfl := Option.some.inj h
         rw [hstack, List.length_cons]
         exact (Nat.le_succ _).trans (Nat.le_succ _))

theorem length_stack_le {text : List Char} {r : Reader} (h : read text = some r) :
    r.stack.length ≤ text.length := by
  induction text using List.reverseRecOn generalizing r with
  | nil =>
    obtain rfl := Option.some.inj h
    exact le_refl _
  | append_singleton text c ih =>
    rw [read_snoc] at h
    obtain ⟨r', hr', hstep⟩ := Option.bind_eq_some_iff.1 h
    rw [List.length_append, List.length_singleton]
    exact (Reader.length_step hstep).trans (Nat.succ_le_succ (ih hr'))

/-- A run of opening brackets behind a text that ends outside strings and
comments is read whole. -/
theorem read_brackets {text : List Char} {r : Reader} (hr : read text = some r)
    (hplace : r.place = .code) (n : ℕ) :
    ∃ r', read (text ++ List.replicate n '[') = some r' ∧ r'.place = .code ∧
      r'.stack.length = r.stack.length + n := by
  induction n with
  | zero => exact ⟨r, by simpa using hr, hplace, rfl⟩
  | succ n ih =>
    obtain ⟨r', hr', hcode, hlen⟩ := ih
    refine ⟨⟨.code, '[' :: r'.stack⟩, ?_, rfl, by simp [hlen, Nat.add_assoc]⟩
    rw [List.replicate_succ', ← List.append_assoc, read_snoc, hr', Option.bind_some, Reader.step,
      hcode]
    rfl

end Json5

end Shep
