import Mathlib.Data.Bool.AllAny
import Mathlib.Data.List.Induction
import Shep.Json5.Model

/-!
# Json5 — when the guard counts what is read

The scan is a machine that takes one character at a time (`scan_eq`), and
it walks in step with the reader (`Agrees`) as long as both leave every
line comment together. The scan leaves one at a line feed and nowhere else.

**`guards_of_linesEndAtLf`**: where no line comment is ended by another
terminator, the depth bounds every point that is read, is reached at one,
and a deeper text does not come to the parser. **`not_guards_behind`**:
behind any other terminator the brackets that follow are not counted.
-/

namespace Shep

namespace Json5

/-! ## What the guard promises -/

/-- The depth guard does its work on a text. -/
structure Guards (text : List Char) : Prop where
  bounds : json5NestingDepth text ∈ upperBounds (depths text)
  refuses : ∀ {α : Type} (fromStr : List Char → Except ParseError α), ∀ n ∈ depths text,
    MAX_JSON5_NESTING_DEPTH < n → parseInto fromStr text = .error ⟨"nesting depth exceeds 64"⟩
  exact : isWhole text → IsGreatest (depths text) (json5NestingDepth text)

/-- Every line comment the reader comes to ends at a line feed, at a
carriage return before one, or with the text. -/
def LinesEndAtLf (text : List Char) : Prop :=
  ∀ before c rest r, text = before ++ c :: rest → read before = some r → r.place = .line →
    isLineTerminator c → c = '\n' ∨ rest = [] ∨ (c = '\r' ∧ rest.head? = some '\n')

/-- No more brackets are open at once than a counter of 32 bits counts. -/
def Countable (text : List Char) : Prop := u32Max ∈ upperBounds (depths text)

/-! ## The scan, one character at a time -/

/-- The state of the scan between two characters. -/
structure Scan where
  place : Place := .code
  depth : ℕ := 0
  maxDepth : ℕ := 0

namespace Scan

variable (g : Scan)

def codeStep (c : Char) : Scan :=
  if c = '/' then { g with place := .slash }
  else if c = '"' ∨ c = '\'' then { g with place := .string c }
  else if c = '[' ∨ c = '{' then
    ⟨.code, min (g.depth + 1) u32Max, max g.maxDepth (min (g.depth + 1) u32Max)⟩
  else if c = ']' ∨ c = '}' then ⟨.code, g.depth - 1, g.maxDepth⟩
  else { g with place := .code }

def stringStep (quote c : Char) : Scan :=
  if c = '\\' then { g with place := .escape quote }
  else if c = quote then { g with place := .code }
  else { g with place := .string quote }

def step (c : Char) : Scan :=
  match g.place with
  | .code => g.codeStep c
  | .slash =>
    if c = '/' then { g with place := .line }
    else if c = '*' then { g with place := .block false }
    else g.codeStep c
  | .line => { g with place := if c = '\n' then .code else .line }
  | .block star => { g with place := if star ∧ c = '/' then .code else .block (c = '*') }
  | .string quote => g.stringStep quote c
  | .escape quote => { g with place := .string quote }
  | .escapeCr quote => g.stringStep quote c

/-- What the scan returns if the text ends here. -/
def result : ℕ :=
  match g.place with
  | .code | .slash | .line => g.maxDepth
  | .block _ | .string _ | .escape _ | .escapeCr _ => u32Max

/-- The scan behind a text. -/
def after (text : List Char) : Scan := text.foldl step {}

theorem after_snoc (text : List Char) (c : Char) : after (text ++ [c]) = (after text).step c := by
  simp [after]

theorem result_skipLine (d m : ℕ) (chars : List Char) :
    (chars.foldl step ⟨.line, d, m⟩).result = ((skipLine chars).foldl step ⟨.code, d, m⟩).result := by
  induction chars with
  | nil => rfl
  | cons c2 chars ih =>
    rw [skipLine, List.foldl_cons]
    by_cases hc : c2 = '\n'
    · rw [if_pos hc]
      simp only [step, hc, if_true]
    · rw [if_neg hc, ← ih]
      simp only [step, hc, if_false]

theorem result_skipBlock (d m : ℕ) (prev : Char) (chars : List Char) :
    (chars.foldl step ⟨.block (prev = '*'), d, m⟩).result =
      match skipBlock prev chars with
      | some rest => (rest.foldl step ⟨.code, d, m⟩).result
      | none => u32Max := by
  induction chars generalizing prev with
  | nil => rfl
  | cons c2 chars ih =>
    rw [skipBlock, List.foldl_cons]
    by_cases hc : prev = '*' ∧ c2 = '/'
    · rw [if_pos hc]
      simp only [step, decide_eq_true_eq, hc, and_self, if_true]
    · rw [if_neg hc, ← ih]
      simp only [step, decide_eq_true_eq, hc, if_false]

/-- The place a scan with an open string or none is at. -/
def placeOf : Option Char → Place
  | some quote => .string quote
  | none => .code

theorem result_skipped (d m : ℕ) (quote : Char) (chars : List Char) :
    (chars.foldl step ⟨.escape quote, d, m⟩).result =
      (chars.tail.foldl step ⟨.string quote, d, m⟩).result := by
  cases chars with
  | nil => rfl
  | cons c chars => rfl

theorem result_slash (d m : ℕ) {chars : List Char} (hline : chars.head? ≠ some '/')
    (hblock : chars.head? ≠ some '*') :
    (chars.foldl step ⟨.slash, d, m⟩).result = (chars.foldl step ⟨.code, d, m⟩).result := by
  cases chars with
  | nil => rfl
  | cons c chars =>
    have hc : c ≠ '/' := fun h => hline (by rw [h]; rfl)
    have hc' : c ≠ '*' := fun h => hblock (by rw [h]; rfl)
    rw [List.foldl_cons, List.foldl_cons]
    simp only [step, if_neg hc, if_neg hc']
    rfl

end Scan

open Scan in
/-- **The scan is the machine.** -/
theorem scan_eq (d m : ℕ) (inString : Option Char) (chars : List Char) :
    scan d m inString chars = (chars.foldl step ⟨placeOf inString, d, m⟩).result := by
  fun_induction scan d m inString chars with
  | case1 d m inString h =>
    obtain ⟨quote, rfl⟩ := Option.isSome_iff_exists.1 h
    rfl
  | case2 d m inString h =>
    rw [Option.not_isSome_iff_eq_none.1 h]
    rfl
  | case3 d m chars quote ih =>
    rw [ih, placeOf, ← result_skipped]
    rfl
  | case4 d m chars quote hback ih =>
    rw [ih, List.foldl_cons]
    simp only [placeOf, step, stringStep, if_neg hback, if_true]
  | case5 d m c chars quote hback hquote ih =>
    rw [ih, List.foldl_cons]
    simp only [placeOf, step, stringStep, if_neg hback, if_neg hquote]
  | case6 d m c chars h ih =>
    obtain ⟨rfl, hnext⟩ := h
    obtain ⟨rest, rfl⟩ := List.head?_eq_some_iff.1 hnext
    rw [ih]
    exact (result_skipLine d m rest).symm
  | case7 d m c chars hline h rest hrest ih =>
    obtain ⟨rfl, hnext⟩ := h
    obtain ⟨text, rfl⟩ := List.head?_eq_some_iff.1 hnext
    have hblock := result_skipBlock d m '\x00' text
    rw [List.tail_cons] at hrest
    rw [hrest] at hblock
    rw [ih]
    exact hblock.symm
  | case8 d m c chars hline h hrest =>
    obtain ⟨rfl, hnext⟩ := h
    obtain ⟨text, rfl⟩ := List.head?_eq_some_iff.1 hnext
    have hblock := result_skipBlock d m '\x00' text
    rw [List.tail_cons] at hrest
    rw [hrest] at hblock
    exact hblock.symm
  | case9 d m c chars hline hblock hquote ih =>
    have hslash : c ≠ '/' := by rintro rfl; revert hquote; decide
    rw [ih, List.foldl_cons]
    simp only [placeOf, step, codeStep, if_neg hslash, if_pos hquote]
  | case10 d m c chars hline hblock hquote hopen ih =>
    have hslash : c ≠ '/' := by rintro rfl; revert hopen; decide
    rw [ih, List.foldl_cons]
    simp only [placeOf, step, codeStep, if_neg hslash, if_neg hquote, if_pos hopen]
  | case11 d m c chars hline hblock hquote hopen hclose ih =>
    have hslash : c ≠ '/' := by rintro rfl; revert hclose; decide
    rw [ih, List.foldl_cons]
    simp only [placeOf, step, codeStep, if_neg hslash, if_neg hquote, if_neg hopen, if_pos hclose]
  | case12 d m c chars hline hblock hquote hopen hclose ih =>
    rw [ih, List.foldl_cons]
    by_cases hslash : c = '/'
    · subst hslash
      have hnext : chars.head? ≠ some '/' := fun h => hline ⟨rfl, h⟩
      have hnext' : chars.head? ≠ some '*' := fun h => hblock ⟨rfl, h⟩
      exact (result_slash d m hnext hnext').symm
    · simp only [placeOf, step, codeStep, if_neg hslash, if_neg hquote, if_neg hopen,
        if_neg hclose]

theorem json5NestingDepth_eq (text : List Char) :
    json5NestingDepth text = (Scan.after text).result := scan_eq 0 0 none text

/-! ## What the scan has counted stays counted -/

namespace Scan

variable {g : Scan} {text before : List Char}

theorem codeStep_maxDepth (g : Scan) (c : Char) (h : g.maxDepth ≤ u32Max) :
    g.maxDepth ≤ (g.codeStep c).maxDepth ∧ (g.codeStep c).maxDepth ≤ u32Max := by
  unfold codeStep
  split_ifs
  · exact ⟨le_refl _, h⟩
  · exact ⟨le_refl _, h⟩
  · exact ⟨le_max_left _ _, max_le h (min_le_right _ _)⟩
  · exact ⟨le_refl _, h⟩
  · exact ⟨le_refl _, h⟩

theorem stringStep_maxDepth (g : Scan) (quote c : Char) :
    (g.stringStep quote c).maxDepth = g.maxDepth := by
  unfold stringStep
  split_ifs <;> rfl

theorem step_maxDepth (g : Scan) (c : Char) (h : g.maxDepth ≤ u32Max) :
    g.maxDepth ≤ (g.step c).maxDepth ∧ (g.step c).maxDepth ≤ u32Max := by
  unfold step
  split
  · exact codeStep_maxDepth g c h
  · split_ifs
    · exact ⟨le_refl _, h⟩
    · exact ⟨le_refl _, h⟩
    · exact codeStep_maxDepth g c h
  · exact ⟨le_refl _, h⟩
  · exact ⟨le_refl _, h⟩
  · rw [stringStep_maxDepth]
    exact ⟨le_refl _, h⟩
  · exact ⟨le_refl _, h⟩
  · rw [stringStep_maxDepth]
    exact ⟨le_refl _, h⟩

theorem foldl_maxDepth (rest : List Char) (h : g.maxDepth ≤ u32Max) :
    g.maxDepth ≤ (rest.foldl step g).maxDepth ∧ (rest.foldl step g).maxDepth ≤ u32Max := by
  induction rest generalizing g with
  | nil => exact ⟨le_refl _, h⟩
  | cons c rest ih =>
    obtain ⟨hle, hmax⟩ := step_maxDepth g c h
    exact ⟨hle.trans (ih hmax).1, (ih hmax).2⟩

theorem after_maxDepth_le (text : List Char) : (after text).maxDepth ≤ u32Max :=
  (foldl_maxDepth text (Nat.zero_le _)).2

theorem maxDepth_le_result (h : g.maxDepth ≤ u32Max) : g.maxDepth ≤ g.result := by
  unfold result
  split <;> first | exact le_refl _ | exact h

/-- What has been counted behind the first characters is counted at the
end. -/
theorem after_le (h : before <+: text) : (after before).maxDepth ≤ json5NestingDepth text := by
  obtain ⟨rest, rfl⟩ := h
  have hfold : after (before ++ rest) = rest.foldl step (after before) := by simp [after]
  obtain ⟨hle, hmax⟩ := foldl_maxDepth rest (after_maxDepth_le before)
  rw [json5NestingDepth_eq, hfold]
  exact hle.trans (maxDepth_le_result hmax)

end Scan

/-! ## In step with the reader -/

/-- The scan's place for a reader's. -/
def Place.scanned : Place → Place
  | .escapeCr quote => .string quote
  | place => place

/-- The scan is where the reader is, or still in a line comment that ends
at once; and it has counted what is open. -/
structure Agrees (r : Reader) (g : Scan) (rest : List Char) : Prop where
  place : g.place = r.place.scanned ∨
    (g.place = .line ∧ r.place = .code ∧ (rest = [] ∨ rest.head? = some '\n'))
  depth : g.depth = r.stack.length

/-- The scan behind one more character: where the reader is, with what is
open counted. -/
structure Follows (r : Reader) (g : Scan) (m : ℕ) : Prop where
  place : g.place = r.place.scanned
  depth : g.depth = r.stack.length
  maxDepth : g.maxDepth = max m r.stack.length

section Step

variable {r r' : Reader} {g : Scan} {c : Char} {rest : List Char}

theorem Follows.agrees {m : ℕ} (h : Follows r g m) : Agrees r g rest := ⟨Or.inl h.place, h.depth⟩

theorem follows_of_stack {place place' : Place} (hdepth : g.depth = r.stack.length)
    (hmax : r.stack.length ≤ g.maxDepth) (hplace : place = place'.scanned) :
    Follows { r with place := place' } { g with place := place } g.maxDepth :=
  ⟨hplace, hdepth, (max_eq_left hmax).symm⟩

theorem follows_codeStep (hstep : r.codeStep c = some r') (hdepth : g.depth = r.stack.length)
    (hmax : r.stack.length ≤ g.maxDepth) (hle : r'.stack.length ≤ u32Max) :
    Follows r' (g.codeStep c) g.maxDepth := by
  unfold Reader.codeStep at hstep
  unfold Scan.codeStep
  split_ifs at hstep ⊢
  · obtain rfl := Option.some.inj hstep
    exact follows_of_stack hdepth hmax rfl
  · obtain rfl := Option.some.inj hstep
    exact follows_of_stack hdepth hmax rfl
  · obtain rfl := Option.some.inj hstep
    have hlen : min (g.depth + 1) u32Max = r.stack.length + 1 := by
      rw [hdepth]
      exact min_eq_left hle
    rw [hlen]
    exact ⟨rfl, rfl, rfl⟩
  · unfold Reader.close at hstep
    split at hstep
    · cases hstep
    · next top stack hstack =>
      split_ifs at hstep
      obtain rfl := Option.some.inj hstep
      rw [hstack, List.length_cons] at hdepth hmax
      refine ⟨rfl, ?_, (max_eq_left (Nat.le_of_succ_le hmax)).symm⟩
      simp only [hdepth, Nat.add_sub_cancel]
  · obtain rfl := Option.some.inj hstep
    exact follows_of_stack hdepth hmax rfl

theorem follows_stringStep {quote : Char} (hstep : r.stringStep quote c = some r')
    (hdepth : g.depth = r.stack.length) (hmax : r.stack.length ≤ g.maxDepth) :
    Follows r' (g.stringStep quote c) g.maxDepth := by
  unfold Reader.stringStep at hstep
  unfold Scan.stringStep
  split_ifs at hstep ⊢
  all_goals
    obtain rfl := Option.some.inj hstep
    exact follows_of_stack hdepth hmax rfl

/-- **One character.** The scan stays in step, unless the character ends a
line comment for the reader alone. -/
theorem Agrees.step (h : Agrees r g (c :: rest)) (hstep : r.step c = some r')
    (hquoted : r.place.Quoted) (hmax : r.stack.length ≤ g.maxDepth)
    (hle : r'.stack.length ≤ u32Max)
    (hline : r.place = .line → isLineTerminator c →
      c = '\n' ∨ rest = [] ∨ (c = '\r' ∧ rest.head? = some '\n')) :
    Agrees r' (g.step c) rest ∧ (g.step c).maxDepth = max g.maxDepth r'.stack.length := by
  rcases h.place with hplace | ⟨hplace, hcode, hends⟩
  · have hfollows : r.place ≠ .line → Follows r' (g.step c) g.maxDepth := by
      intro hne
      unfold Reader.step at hstep
      unfold Scan.step
      rw [hplace]
      cases hr : r.place with
      | code => exact follows_codeStep (by rw [hr] at hstep; exact hstep) h.depth hmax hle
      | slash =>
        simp only [hr] at hstep
        simp only [Place.scanned]
        split_ifs at hstep ⊢
        all_goals
          obtain rfl := Option.some.inj hstep
          exact follows_of_stack h.depth hmax rfl
      | line => exact absurd hr hne
      | block star | escape quote =>
        simp only [hr] at hstep
        obtain rfl := Option.some.inj hstep
        exact follows_of_stack h.depth hmax (by split_ifs <;> rfl)
      | string quote =>
        exact follows_stringStep (by rw [hr] at hstep; exact hstep) h.depth hmax
      | escapeCr quote =>
        simp only [hr] at hstep
        simp only [Place.scanned]
        split_ifs at hstep with hc
        · obtain rfl := Option.some.inj hstep
          have hother : c ≠ quote := by
            rintro rfl
            rcases hquoted c (by rw [hr]; rfl) with h | h <;> exact absurd (hc.symm.trans h) (by decide)
          have hback : c ≠ '\\' := by rw [hc]; decide
          rw [Scan.stringStep, if_neg hback, if_neg hother]
          exact follows_of_stack h.depth hmax rfl
        · exact follows_stringStep hstep h.depth hmax
    by_cases hr : r.place = .line
    · rw [hr] at hplace
      simp only [Reader.step, hr] at hstep
      obtain rfl := Option.some.inj hstep
      have hscan : g.step c = { g with place := if c = '\n' then .code else .line } := by
        rw [Scan.step, hplace]
        rfl
      rw [hscan]
      refine ⟨⟨?_, h.depth⟩, (max_eq_left hmax).symm⟩
      by_cases hends : isLineTerminator c
      · rw [if_pos hends]
        by_cases hlf : c = '\n'
        · exact Or.inl (by rw [if_pos hlf]; rfl)
        · rw [if_neg hlf]
          rcases hline hr hends with hc | hrest | ⟨-, hrest⟩
          · exact absurd hc hlf
          · exact Or.inr ⟨rfl, rfl, Or.inl hrest⟩
          · exact Or.inr ⟨rfl, rfl, Or.inr hrest⟩
      · have hlf : c ≠ '\n' := fun hc => hends (Or.inl hc)
        rw [if_neg hends, if_neg hlf]
        exact Or.inl rfl
    · exact ⟨(hfollows hr).agrees, (hfollows hr).maxDepth⟩
  -- the line feed behind a carriage return: a blank to the reader
  · rcases hends with hends | hends
    · cases hends
    obtain rfl : c = '\n' := Option.some.inj hends
    rw [Reader.step, hcode] at hstep
    obtain rfl : { r with place := .code } = r' := Option.some.inj hstep
    rw [Scan.step, hplace]
    exact ⟨⟨Or.inl rfl, h.depth⟩, (max_eq_left hmax).symm⟩

end Step

/-! ## A whole text -/

section Text

variable {text before rest : List Char} {r : Reader} {c : Char}

theorem countable_of_length (h : text.length ≤ u32Max) : Countable text := by
  rintro n ⟨before, r, hbefore, hr, rfl⟩
  exact (length_stack_le hr).trans (hbefore.length_le.trans h)

/-- **As far as the text is read.** The scan is in step behind every part
of it, and its maximum is the deepest point so far. -/
theorem agrees_after (hline : LinesEndAtLf text) (hcount : Countable text)
    (htext : text = before ++ rest) (hr : read before = some r) :
    Agrees r (Scan.after before) rest ∧
      IsGreatest (depths before) (Scan.after before).maxDepth := by
  induction before using List.reverseRecOn generalizing r rest with
  | nil =>
    obtain rfl := Option.some.inj hr
    refine ⟨⟨Or.inl rfl, rfl⟩, mem_depths (List.prefix_refl _) hr, ?_⟩
    rintro n ⟨before, r, hbefore, hr, rfl⟩
    obtain rfl := List.prefix_nil.1 hbefore
    obtain rfl := Option.some.inj hr
    exact le_refl _
  | append_singleton before c ih =>
    have hsplit : text = before ++ c :: rest := by rw [htext, List.append_assoc]; rfl
    have hread := hr
    rw [read_snoc] at hr
    obtain ⟨r', hr', hstep⟩ := Option.bind_eq_some_iff.1 hr
    obtain ⟨hagrees, hgreatest⟩ := ih hsplit hr'
    have hle : r.stack.length ≤ u32Max :=
      hcount (mem_depths (htext ▸ List.prefix_append _ _) hread)
    have hmax : r'.stack.length ≤ (Scan.after before).maxDepth :=
      hgreatest.2 (mem_depths (List.prefix_refl _) hr')
    obtain ⟨hagrees', hmaxDepth⟩ := hagrees.step hstep (read_quoted hr') hmax hle
      fun hp ht => hline before c rest r' hsplit hr' hp ht
    rw [Scan.after_snoc, depths_snoc hread, hmaxDepth, max_comm]
    exact ⟨hagrees', hgreatest.insert _⟩

/-- **Where every line comment ends at a line feed, the guard holds.** -/
theorem guards_of_linesEndAtLf (hline : LinesEndAtLf text) (hcount : Countable text) :
    Guards text := by
  have hbounds : json5NestingDepth text ∈ upperBounds (depths text) := by
    rintro n ⟨before, r, ⟨rest, htext⟩, hr, rfl⟩
    obtain ⟨-, hgreatest⟩ := agrees_after hline hcount htext.symm hr
    exact (hgreatest.2 (mem_depths (List.prefix_refl _) hr)).trans
      (Scan.after_le (htext ▸ List.prefix_append _ _))
  refine ⟨hbounds, fun fromStr n hn hdeep => ?_, ?_⟩
  · rw [parseInto, if_pos (hdeep.trans_le (hbounds hn))]
  · rintro ⟨r, hr, -, hplace⟩
    obtain ⟨hagrees, hgreatest⟩ := agrees_after hline hcount (List.append_nil text).symm hr
    have hresult : json5NestingDepth text = (Scan.after text).maxDepth := by
      rw [json5NestingDepth_eq, Scan.result]
      rcases hagrees.place with hp | ⟨hp, -, -⟩
      · rcases hplace with h | h <;> rw [hp, h] <;> rfl
      · rw [hp]
    rw [hresult]
    exact hgreatest

/-- In a line comment the scan counts nothing that is not behind a line
feed. -/
theorem foldl_brackets {g : Scan} (hplace : g.place = .line) (n : ℕ) :
    (List.replicate n '[').foldl Scan.step g = g := by
  induction n with
  | zero => rfl
  | succ n ih =>
    have hstep : g.step '[' = g := by
      rw [Scan.step, hplace]
      exact congrArg (fun p => Scan.mk p g.depth g.maxDepth) hplace.symm
    rw [List.replicate_succ, List.foldl_cons, hstep, ih]

theorem json5NestingDepth_behind (hline : LinesEndAtLf before) (hcount : Countable before)
    (hr : read before = some r) (hplace : r.place = .line) (hlf : c ≠ '\n') (n : ℕ) :
    json5NestingDepth (before ++ c :: List.replicate n '[') = json5NestingDepth before := by
  obtain ⟨hagrees, -⟩ := agrees_after hline hcount (List.append_nil before).symm hr
  have hscan : (Scan.after before).place = .line := by
    rcases hagrees.place with hp | ⟨hp, -, -⟩
    · rw [hp, hplace]
      rfl
    · exact hp
  have hstep : (Scan.after before).step c = Scan.after before := by
    rw [Scan.step, hscan]
    simp only [if_neg hlf]
    exact congrArg (fun p => Scan.mk p _ _) hscan.symm
  rw [json5NestingDepth_eq, json5NestingDepth_eq, Scan.after, List.foldl_append, List.foldl_cons]
  change ((List.replicate n '[').foldl Scan.step ((Scan.after before).step c)).result = _
  rw [hstep, foldl_brackets hscan]

/-- **But the reader reads them.** -/
theorem not_guards_behind (hline : LinesEndAtLf before) (hcount : Countable before)
    (hr : read before = some r) (hplace : r.place = .line) (hends : isLineTerminator c)
    (hlf : c ≠ '\n') {n : ℕ} (hn : json5NestingDepth before < n) :
    ¬ Guards (before ++ c :: List.replicate n '[') := by
  intro hguards
  -- the reader is behind the comment, and each bracket opens
  have hread : read (before ++ [c]) = some { r with place := .code } := by
    rw [read_snoc, hr, Option.bind_some, Reader.step, hplace]
    simp only [if_pos hends]
  obtain ⟨r', hr', -, hlen⟩ := read_brackets hread rfl n
  rw [List.append_assoc, List.singleton_append] at hr'
  have hle := hguards.bounds (mem_depths (List.prefix_refl _) hr')
  rw [json5NestingDepth_behind hline hcount hr hplace hlf, hlen] at hle
  omega

theorem linesEndAtLf_of_not (h : ∀ c ∈ text, ¬ isLineTerminator c) : LinesEndAtLf text := by
  rintro before c rest r rfl - - hends
  exact absurd hends (h c (by simp))

/-- **The guard holds where every line comment ends at a line feed**, and
for every other terminator there is a text it does not hold of. -/
theorem depth_guard (text : List Char) :
    (LinesEndAtLf text → Countable text → Guards text) ∧
      ∀ r c n, LinesEndAtLf text → Countable text → read text = some r →
        r.place = .line → isLineTerminator c → c ≠ '\n' → json5NestingDepth text < n →
          ¬ Guards (text ++ c :: List.replicate n '[') :=
  ⟨fun hline hcount => guards_of_linesEndAtLf hline hcount,
    fun _ _ _ hline hcount hr hplace hends hlf hn =>
      not_guards_behind hline hcount hr hplace hends hlf hn⟩

end Text

/-- Brackets that are read, and one behind a carriage return that is not
counted. -/
theorem depth_guard_brackets :
    Guards ['[', '{', '}', ']'] ∧ ¬ Guards (['/', '/'] ++ '\r' :: List.replicate 1 '[') := by
  refine ⟨(depth_guard _).1 (linesEndAtLf_of_not (List.all_iff_forall_prop.1 (by decide)))
      (countable_of_length (by decide)),
    (depth_guard ['/', '/']).2 ⟨.line, []⟩ '\r' 1
      (linesEndAtLf_of_not (List.all_iff_forall_prop.1 (by decide)))
      (countable_of_length (by decide)) (by decide) rfl (by decide) (by decide) ?_⟩
  rw [json5NestingDepth_eq]
  decide

/-- A line comment that ends at a carriage return, and 65 brackets. -/
def hiddenBrackets : List Char := ['/', '/'] ++ '\r' :: List.replicate 65 '['

/-- Their depth is 65, the guard counts none of them, and they reach the
parser. -/
theorem hidden_past_guard :
    ¬ Guards hiddenBrackets ∧ json5NestingDepth hiddenBrackets = 0 ∧ 65 ∈ depths hiddenBrackets ∧
      ∀ fromStr : List Char → Except ParseError Unit,
        parseInto fromStr hiddenBrackets = fromStr hiddenBrackets := by
  have hline : LinesEndAtLf ['/', '/'] :=
    linesEndAtLf_of_not (List.all_iff_forall_prop.1 (by decide))
  have hcount : Countable ['/', '/'] := countable_of_length (by decide)
  have hr : read ['/', '/'] = some ⟨.line, []⟩ := by decide
  have hnone : json5NestingDepth ['/', '/'] = 0 := by rw [json5NestingDepth_eq]; rfl
  have hzero : json5NestingDepth hiddenBrackets = 0 :=
    (json5NestingDepth_behind hline hcount hr rfl (by decide) 65).trans hnone
  refine ⟨not_guards_behind hline hcount hr rfl (by decide) (by decide) (by omega), hzero, ?_,
    fun fromStr => ?_⟩
  · have hread : read ['/', '/', '\r'] = some ⟨.code, []⟩ := by decide
    obtain ⟨r, hr, -, hlen⟩ := read_brackets hread rfl 65
    exact ⟨_, r, List.prefix_refl _, hr, hlen⟩
  · rw [parseInto, hzero, if_neg (by decide)]

end Json5

end Shep
