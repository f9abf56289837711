import Mathlib.Data.Bool.AllAny
import Shep.Common.Table
import Shep.Dotenv.Model

/-!
# Dotenv — a value reaches the child byte for byte

**`dotenv_faithful`.** Pairs written one a line, with their values in double
quotes and escaped, are what `parse` reads, each with its line; the values
may hold anything, and `Writable` is what the keys have to be. And however a
value was spelled, the entry made for a plain key is a template that every
pass turns into the value.
-/

namespace Shep

namespace Dotenv

open Template (Text escapeTemplate)
open Normalize (isWhitespace trim)
open Secrets (SecretView)

variable {key value rest : Text} {following : List Text} {pairs : List (Text × Text)}
  {entries : List Entry} {seen : Std.ExtTreeMap Text ℕ} {lineNumber index fuel : ℕ}

/-! ## Writing -/

/-- A character inside double quotes. -/
def escapedChar (c : Char) : Text :=
  if c = '\\' then ['\\', '\\']
  else if c = '"' then ['\\', '"']
  else if c = '\n' then ['\\', 'n']
  else if c = '\r' then ['\\', 'r']
  else if c = '\t' then ['\\', 't']
  else [c]

/-- A value inside double quotes. -/
def escaped (value : Text) : Text := value.flatMap escapedChar

/-- A pair on a line of its own. -/
def writtenLine (pair : Text × Text) : Text := pair.1 ++ '=' :: '"' :: (escaped pair.2 ++ ['"'])

/-- Pairs, one a line. -/
def written (pairs : List (Text × Text)) : Text := ['\n'].intercalate (pairs.map writtenLine)

/-- The entries of pairs written so. -/
def entriesOf (pairs : List (Text × Text)) : List Entry :=
  (pairs.zipIdx 1).map fun p => ⟨p.1.1, p.1.2, p.2⟩

/-- A key the format has a line for. -/
structure Writable (key : Text) : Prop where
  nonempty : key ≠ []
  apart : ∀ c ∈ key, c ≠ '=' ∧ c ≠ '\n' ∧ c ≠ '\r'
  first : ∀ c, key.head? = some c → isWhitespace c = false ∧ c ≠ '#' ∧ c ≠ bom
  last : ∀ c, key.getLast? = some c → isWhitespace c = false
  noExport : ¬ "export ".toList <+: key

/-! ## One value -/

theorem scanLine_other {c : Char} (h : c ≠ '"') (h' : c ≠ '\\') (out : Text) :
    scanLine out (c :: rest) = scanLine (out ++ [c]) rest := by
  rw [scanLine]
  · exact h
  · rintro rfl
    exact absurd rfl h'
  · rintro _ _ rfl
    exact absurd rfl h'

theorem scanLine_escaped (value out tail : Text) :
    scanLine out (escaped value ++ '"' :: tail) = .closed (out ++ value) tail := by
  induction value generalizing out with
  | nil => simp [escaped, scanLine]
  | cons c value ih =>
    have hout : out ++ c :: value = (out ++ [c]) ++ value := by simp
    rw [escaped, List.flatMap_cons, List.append_assoc, hout, ← ih]
    unfold escapedChar
    split
    · next h => subst h; rfl
    split
    · next h => subst h; rfl
    split
    · next h => subst h; rfl
    split
    · next h => subst h; rfl
    split
    · next h => subst h; rfl
    · next hback hquote _ _ _ => exact scanLine_other hquote hback out

theorem readValue_written (value : Text) (following : List Text) (lineNumber : ℕ) :
    readValue ('"' :: (escaped value ++ ['"'])) following lineNumber = .ok (value, 0) := by
  have htrim : trimStart ('"' :: (escaped value ++ ['"'])) = '"' :: (escaped value ++ ['"']) :=
    List.dropWhile_cons_of_neg (by decide)
  have htail : checkTail [] lineNumber = .ok () := rfl
  unfold readValue
  rw [htrim]
  simp only
  cases following <;> simp [doubleQuoted, scanLine_escaped, closeQuote, htail]

theorem splitOnce_append {sep : Char} {before : Text} (h : sep ∉ before) (behind : Text) :
    splitOnce sep (before ++ sep :: behind) = some (before, behind) := by
  have hspan : (before ++ sep :: behind).span (· != sep) = (before, sep :: behind) := by
    rw [List.span_eq_takeWhile_dropWhile, List.takeWhile_append_of_pos,
      List.dropWhile_append_of_pos]
    · simp
    · intro c hc
      exact bne_iff_ne.2 fun e => h (e ▸ hc)
    · intro c hc
      exact bne_iff_ne.2 fun e => h (e ▸ hc)
  rw [splitOnce, hspan]

/-! ## One line -/

namespace Writable

theorem trimStart (h : Writable key) (rest : Text) :
    Dotenv.trimStart (key ++ rest) = key ++ rest := by
  obtain ⟨c, tail, rfl⟩ := List.exists_cons_of_ne_nil h.nonempty
  exact List.dropWhile_cons_of_neg (by simp [(h.first c rfl).1])

theorem trimEnd (h : Writable key) : Dotenv.trimEnd key = key := by
  obtain ⟨front, c, hkey⟩ := (List.eq_nil_or_concat key).resolve_left h.nonempty
  have hc : isWhitespace c = false := h.last c (by simp [hkey])
  rw [hkey, Dotenv.trimEnd, List.concat_eq_append, List.reverse_append]
  simp [hc]

theorem stripPrefix (h : Writable key) (rest : Text) :
    Dotenv.stripPrefix "export ".toList (key ++ '=' :: rest) = none := by
  rw [Dotenv.stripPrefix, if_neg]
  intro hprefix
  rw [List.isPrefixOf_iff_prefix] at hprefix
  rcases List.prefix_or_prefix_of_prefix hprefix (List.prefix_append key _) with hin | ⟨tail, htail⟩
  · exact h.noExport hin
  · rw [← htail, List.prefix_append_right_inj] at hprefix
    cases tail with
    | nil => exact h.noExport ⟨[], by rw [← htail, List.append_nil, List.append_nil]⟩
    | cons c tail =>
      obtain ⟨rfl, -⟩ := List.cons_prefix_cons.1 hprefix
      have hin : '=' ∈ "export ".toList := htail ▸ List.mem_append_right _ List.mem_cons_self
      exact absurd hin (by decide)

end Writable

/-- A written line is read as its pair. -/
theorem entriesFrom_written (h : Writable key) (hseen : seen[key]? = none) (value : Text) :
    entriesFrom (fuel + 1) index seen entries (writtenLine (key, value) :: following) =
      entriesFrom fuel (index + 1) (seen.insert key (index + 1))
        (entries ++ [⟨key, value, index + 1⟩]) following := by
  have hcomment : (writtenLine (key, value)).isEmpty = false ∧
      ((writtenLine (key, value)).head? == some '#') = false := by
    obtain ⟨c, tail, rfl⟩ := List.exists_cons_of_ne_nil h.nonempty
    exact ⟨rfl, by simpa [writtenLine] using (h.first c rfl).2.1⟩
  have hempty : key.isEmpty = false := List.isEmpty_eq_false_iff.2 h.nonempty
  have hkey : '=' ∉ key := fun hin => (h.apart _ hin).1 rfl
  have htrim : trimStart (writtenLine (key, value)) = writtenLine (key, value) :=
    h.trimStart _
  have hexport : stripPrefix "export ".toList (writtenLine (key, value)) = none :=
    h.stripPrefix _
  have hsplit : splitOnce '=' (writtenLine (key, value)) =
      some (key, '"' :: (escaped value ++ ['"'])) := splitOnce_append hkey _
  conv_lhs => unfold entriesFrom
  simp only [htrim, hcomment, Bool.or_self, Bool.false_eq_true, if_false, hexport, hsplit,
    h.trimEnd, hempty, hseen, readValue_written, Nat.add_zero, List.drop_zero]

theorem entriesFrom_blank (h : ∀ line ∈ following, line = []) :
    entriesFrom fuel index seen entries following = .ok entries := by
  induction following generalizing fuel index with
  | nil => cases fuel <;> rfl
  | cons line following ih =>
    obtain rfl := h line List.mem_cons_self
    cases fuel with
    | zero => rfl
    | succ fuel => exact ih fun line hline => h line (List.mem_cons_of_mem _ hline)

/-! ## All of them -/

/-- Written lines are read as their pairs, from wherever the loop is. -/
theorem entriesFrom_pairs {blank : List Text} (hblank : ∀ line ∈ blank, line = [])
    (hkeys : (pairs.map Prod.fst).Nodup) (hwritable : ∀ p ∈ pairs, Writable p.1)
    (hseen : ∀ p ∈ pairs, seen[p.1]? = none) (hfuel : pairs.length ≤ fuel) :
    entriesFrom fuel index seen entries (pairs.map writtenLine ++ blank) =
      .ok (entries ++ (pairs.zipIdx (index + 1)).map fun p => ⟨p.1.1, p.1.2, p.2⟩) := by
  induction pairs generalizing fuel index seen entries with
  | nil => simpa using entriesFrom_blank hblank
  | cons p pairs ih =>
    obtain ⟨key, value⟩ := p
    obtain ⟨fuel, rfl⟩ := Nat.exists_eq_add_one.2 (Nat.lt_of_lt_of_le (by simp) hfuel)
    obtain ⟨hkey, hkeys⟩ := List.nodup_cons.1 hkeys
    rw [List.map_cons, List.cons_append, entriesFrom_written
      (hwritable _ List.mem_cons_self) (hseen _ List.mem_cons_self),
      ih hkeys (fun q hq => hwritable q (List.mem_cons_of_mem _ hq)) ?_
        (Nat.le_of_succ_le_succ hfuel)]
    · simp [List.zipIdx_cons]
    · intro q hq
      rw [Table.get_insert, if_neg fun e => hkey (List.mem_map.2 ⟨q, hq, e⟩)]
      exact hseen q (List.mem_cons_of_mem _ hq)

theorem mem_escapedChar {b c : Char} (h : b ∈ escapedChar c) : b ≠ '\n' ∧ b ≠ '\r' := by
  unfold escapedChar at h
  split at h
  · rcases List.mem_pair.1 h with rfl | rfl <;> decide
  split at h
  · rcases List.mem_pair.1 h with rfl | rfl <;> decide
  split at h
  · rcases List.mem_pair.1 h with rfl | rfl <;> decide
  split at h
  · rcases List.mem_pair.1 h with rfl | rfl <;> decide
  split at h
  · rcases List.mem_pair.1 h with rfl | rfl <;> decide
  · next hn hr _ =>
    obtain rfl := List.mem_singleton.1 h
    exact ⟨hn, hr⟩

theorem not_mem_writtenLine {pair : Text × Text} (h : Writable pair.1) :
    '\n' ∉ writtenLine pair := by
  unfold writtenLine escaped
  intro hin
  simp only [List.mem_append, List.mem_cons, List.mem_flatMap, List.not_mem_nil, or_false] at hin
  rcases hin with hin | hin | hin | ⟨c, -, hin⟩ | hin
  · exact (h.apart _ hin).2.1 rfl
  · exact absurd hin (by decide)
  · exact absurd hin (by decide)
  · exact (mem_escapedChar hin).1 rfl
  · exact absurd hin (by decide)

theorem stripReturn_writtenLine (pair : Text × Text) :
    stripReturn (writtenLine pair) = writtenLine pair := by
  rw [stripReturn, if_neg]
  simp [writtenLine, List.getLast?_append, List.getLast?_cons]

theorem head?_written (h : ∀ p ∈ pairs, Writable p.1) (tail : Text)
    (htail : tail.head? ≠ some bom) : (written pairs ++ tail).head? ≠ some bom := by
  cases pairs with
  | nil => exact htail
  | cons p pairs =>
    obtain ⟨c, front, hkey⟩ := List.exists_cons_of_ne_nil (h p List.mem_cons_self).nonempty
    have hc := ((h p List.mem_cons_self).first c (by rw [hkey]; rfl)).2.2
    cases pairs <;> simpa [written, writtenLine, hkey, List.intercalate] using hc

/-- Behind the written lines stands nothing. -/
theorem fileLines_written (h : ∀ p ∈ pairs, Writable p.1) {tail : Text}
    (htail : tail = [] ∨ tail = ['\n']) : ∃ blank : List Text,
      fileLines (written pairs ++ tail) = pairs.map writtenLine ++ blank ∧
      ∀ line ∈ blank, line = [] := by
  have hbom := head?_written h tail (by rcases htail with rfl | rfl <;> decide)
  have hlines : ∃ blank : List Text,
      (written pairs).splitOn '\n' = pairs.map writtenLine ++ blank ∧
      ∀ line ∈ blank, line = [] := by
    cases pairs with
    | nil => exact ⟨[[]], by simp [written], by simp⟩
    | cons p pairs =>
      refine ⟨[], ?_, by simp⟩
      rw [List.append_nil]
      refine List.splitOn_intercalate '\n' ?_ (by simp)
      intro line hline
      obtain ⟨q, hq, rfl⟩ := List.mem_map.1 hline
      exact not_mem_writtenLine (h q hq)
  obtain ⟨blank, hsplit, hblank⟩ := hlines
  have hreturn : (pairs.map writtenLine).map stripReturn = pairs.map writtenLine := by
    rw [List.map_map]
    exact List.map_congr_left fun p _ => stripReturn_writtenLine p
  have hstrip : ∀ line ∈ blank.map stripReturn, line = [] := by
    intro line hline
    obtain ⟨old, hold, rfl⟩ := List.mem_map.1 hline
    rw [hblank old hold]
    rfl
  unfold fileLines
  simp only [if_neg hbom]
  rcases htail with rfl | rfl
  · refine ⟨blank.map stripReturn, ?_, hstrip⟩
    rw [List.append_nil, hsplit, List.map_append, hreturn]
  · refine ⟨blank.map stripReturn ++ [[]], ?_, ?_⟩
    · rw [List.splitOn_append_cons_self, hsplit, List.map_append, List.map_append, hreturn,
        List.append_assoc]
      rfl
    · intro line hline
      rcases List.mem_append.1 hline with hline | hline
      · exact hstrip line hline
      · exact List.mem_singleton.1 hline

/-- **What is written is read**, with or without a line end behind it. -/
theorem parse_written (hkeys : (pairs.map Prod.fst).Nodup) (h : ∀ p ∈ pairs, Writable p.1)
    {tail : Text} (htail : tail = [] ∨ tail = ['\n']) :
    parse (written pairs ++ tail) = .ok (entriesOf pairs) := by
  obtain ⟨blank, hlines, hblank⟩ := fileLines_written h htail
  rw [parse, hlines, entriesFrom_pairs hblank hkeys h (by simp) (by simp)]
  rfl

/-! ## From the text to the env -/

/-- The keys of what `parse` has read are the ones it has seen. -/
def Seen (seen : Std.ExtTreeMap Text ℕ) (entries : List Entry) : Prop :=
  (entries.map Entry.key).Nodup ∧ ∀ key ∈ entries.map Entry.key, (seen[key]?).isSome = true

theorem Seen.insert (h : Seen seen entries) (hnew : seen[key]? = none) (value : Text) (n line : ℕ) :
    Seen (seen.insert key n) (entries ++ [⟨key, value, line⟩]) := by
  have hout : key ∉ entries.map Entry.key := by
    intro hin
    have := h.2 key hin
    rw [hnew] at this
    cases this
  constructor
  · rw [List.map_append, List.nodup_append']
    refine ⟨h.1, List.nodup_singleton _, ?_⟩
    rw [List.map_singleton, List.disjoint_singleton]
    exact hout
  · intro other hother
    rw [Table.get_insert]
    split
    · rfl
    · next hne =>
      rw [List.map_append, List.mem_append, List.map_singleton, List.mem_singleton] at hother
      exact h.2 other (hother.resolve_right hne)

theorem entriesFrom_seen {lines : List Text} {read : List Entry} (hs : Seen seen entries)
    (h : entriesFrom fuel index seen entries lines = .ok read) : (read.map Entry.key).Nodup := by
  induction fuel generalizing index seen entries lines with
  | zero =>
    obtain rfl := Except.ok.inj h
    exact hs.1
  | succ fuel ih =>
    cases lines with
    | nil =>
      obtain rfl := Except.ok.inj h
      exact hs.1
    | cons raw following =>
      unfold entriesFrom at h
      dsimp only at h
      split at h
      · exact ih hs h
      split at h
      · cases h
      split at h
      · cases h
      split at h
      · cases h
      · next hnew =>
        split at h
        · cases h
        · next value extra _ => exact ih (hs.insert hnew value _ _) h

/-- **No key is read twice.** -/
theorem parse_nodup {text : Text} (h : parse text = .ok entries) :
    (entries.map Entry.key).Nodup := by
  have hstart : Seen ∅ [] := ⟨List.nodup_nil, fun _ hkey => absurd hkey List.not_mem_nil⟩
  exact entriesFrom_seen hstart h

/-- What a plan keeps of an entry. -/
def Planned.pair (planned : Planned) : Text × Text := (planned.key, planned.value)

def Entry.pair (entry : Entry) : Text × Text := (entry.key, entry.value)

theorem planEntry_pairs {secretsNamed : List Text} {plan plan' : ImportPlan} {entry : Entry}
    (h : planEntry secretsNamed plan entry = .ok plan') :
    plan'.entries.map Planned.pair = plan.entries.map Planned.pair ++ [entry.pair] := by
  unfold planEntry at h
  split at h
  · split at h
    · cases h
    split at h
    · cases h
    · obtain rfl := Except.ok.inj h
      exact List.map_append
  · obtain rfl := Except.ok.inj h
    exact List.map_append

theorem foldlM_planEntry {secretsNamed : List Text} {plan plan' : ImportPlan}
    (h : entries.foldlM (planEntry secretsNamed) plan = .ok plan') :
    plan'.entries.map Planned.pair = plan.entries.map Planned.pair ++ entries.map Entry.pair := by
  induction entries generalizing plan with
  | nil =>
    obtain rfl := Except.ok.inj h
    exact (List.append_nil _).symm
  | cons entry entries ih =>
    rw [List.foldlM_cons] at h
    cases hstep : planEntry secretsNamed plan entry with
    | error err =>
      rw [hstep] at h
      cases h
    | ok next =>
      rw [hstep] at h
      rw [ih h, planEntry_pairs hstep, List.append_assoc]
      rfl

/-- A plan is of some of the entries, in their order. -/
theorem build_sublist {glob : Glob} {only secret : List Text} {plan : ImportPlan}
    (h : build glob entries only secret = .ok plan) :
    (plan.entries.map Planned.pair).Sublist (entries.map Entry.pair) := by
  unfold build at h
  cases hkept : keptEntries glob entries only with
  | error err =>
    rw [hkept] at h
    cases h
  | ok kept =>
    have hsub : kept.Sublist entries := by
      unfold keptEntries at hkept
      split at hkept
      · obtain rfl := Except.ok.inj hkept
        exact List.Sublist.refl _
      · cases hs : select glob entries only with
        | error err =>
          rw [hs] at hkept
          cases hkept
        | ok matched =>
          rw [hs] at hkept
          obtain rfl := Except.ok.inj hkept
          exact List.filter_sublist
    simp only [hkept, bind, Except.bind] at h
    split at h
    · cases h
    cases hs : select glob kept secret with
    | error err =>
      simp only [hs] at h
      cases h
    | ok secretsNamed =>
      simp only [hs] at h
      rw [foldlM_planEntry h]
      exact hsub.map _

theorem wireEntries_get {plan : ImportPlan} (h : (plan.entries.map Planned.key).Nodup)
    {planned : Planned} (hin : planned ∈ plan.entries) :
    (wireEntries plan)[planned.key]? = some (wireValue planned) := by
  refine Std.ExtTreeMap.getElem?_ofList_of_mem Std.ReflCmp.compare_self ?_
    (List.mem_map.2 ⟨planned, hin, rfl⟩)
  rw [List.pairwise_map]
  rw [List.Nodup, List.pairwise_map] at h
  exact h.imp fun hne he => hne (Std.LawfulEqCmp.compare_eq_iff_eq.1 he)

/-- The child gets the text: the value is accepted, holds no token, and is
rendered as the text whatever the sheep. -/
structure Reaches (value text : Text) : Prop where
  validate : Template.validate value = .ok ()
  holdsToken : ∀ wanted, Template.holdsToken value wanted = false
  renderPositional : ∀ name inst shepHome,
    Template.renderPositional value name inst shepHome = text
  render : ∀ name inst shepHome (view : SecretView),
    Template.render value name inst shepHome view = .ok text

theorem reaches_wireValue {planned : Planned} (h : planned.cls = .plain) :
    Reaches (wireValue planned) planned.value := by
  have hreads := Template.reads_escapeTemplate planned.value
  rw [wireValue, h]
  exact ⟨hreads.validate, hreads.holdsToken, hreads.renderPositional, hreads.render⟩

/-- **A `.env` value reaches the child byte for byte.** The pairs written
are the entries read; a plan has the values that were read, each key once;
and a plain key's entry of the env reaches the child as its value. -/
theorem dotenv_faithful :
    (∀ pairs : List (Text × Text), (pairs.map Prod.fst).Nodup → (∀ p ∈ pairs, Writable p.1) →
      parse (written pairs) = .ok (entriesOf pairs) ∧
      parse (written pairs ++ ['\n']) = .ok (entriesOf pairs)) ∧
    (∀ (glob : Glob) (text : Text) (only secret : List Text) (entries : List Entry)
      (plan : ImportPlan), parse text = .ok entries → build glob entries only secret = .ok plan →
      (plan.entries.map Planned.key).Nodup ∧
      ∀ planned ∈ plan.entries, ∃ entry ∈ entries,
        entry.key = planned.key ∧ entry.value = planned.value) ∧
    ∀ plan : ImportPlan, (plan.entries.map Planned.key).Nodup →
      ∀ planned ∈ plan.entries, planned.cls = .plain →
        ∃ value, (wireEntries plan)[planned.key]? = some value ∧ Reaches value planned.value := by
  refine ⟨fun pairs hkeys h => ⟨?_, parse_written hkeys h (Or.inr rfl)⟩, ?_, ?_⟩
  · simpa using parse_written hkeys h (Or.inl rfl)
  · intro glob text only secret entries plan hparse hbuild
    have hsub := build_sublist hbuild
    have hkeys : (plan.entries.map Planned.key).Sublist (entries.map Entry.key) := by
      simpa [List.map_map, Function.comp_def, Planned.pair, Entry.pair] using hsub.map Prod.fst
    refine ⟨hkeys.nodup (parse_nodup hparse), fun planned hin => ?_⟩
    obtain ⟨entry, hentry, hpair⟩ :=
      List.mem_map.1 (hsub.subset (List.mem_map.2 ⟨planned, hin, rfl⟩))
    obtain ⟨hkey, hvalue⟩ := Prod.mk.inj hpair
    exact ⟨entry, hentry, hkey, hvalue⟩
  · intro plan hkeys planned hin hplain
    exact ⟨_, wireEntries_get hkeys hin, reaches_wireValue hplain⟩

/-- A value with braces, a line end and a quote in it. -/
def bracedValue : Text := ['{', '{', 'a', '\n', '"']

/-- It is read from a line, and reaches the child from a plan. -/
theorem dotenv_faithful_braces :
    parse (written [(['A'], bracedValue)]) = .ok [⟨['A'], bracedValue, 1⟩] ∧
    ∃ value, (wireEntries ⟨[⟨['A'], bracedValue, .plain⟩], []⟩)[(['A'] : Text)]? = some value ∧
      Reaches value bracedValue := by
  have hkey : Writable ['A'] := by
    refine ⟨by simp, List.all_iff_forall_prop.1 (by decide), ?_, ?_, by decide⟩
    · rintro c ⟨⟩
      decide
    · rintro c ⟨⟩
      decide
  have hone : ∀ p ∈ [((['A'] : Text), bracedValue)], Writable p.1 := by
    intro p hp
    rw [List.mem_singleton.1 hp]
    exact hkey
  exact ⟨(dotenv_faithful.1 _ (by simp) hone).1,
    dotenv_faithful.2.2 ⟨[⟨['A'], bracedValue, .plain⟩], []⟩ (by simp) _ List.mem_cons_self rfl⟩

end Dotenv

end Shep
