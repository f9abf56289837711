import Shep.Template.Passes

/-!
# Template — values that hold no token

`Reads value text`: the walk of the value is complete, comes upon no token,
and hands over the text. Every pass then makes the text of it, whatever it
is given to fill tokens with. `escapeTemplate`, `import/dotenv/mod.rs`'s own
writer, makes of any text a value that reads as it. A text that is `Inert`
reads as itself, and no other is rendered as itself for a sheep whose name
has no brace: every escape and every token costs braces.
-/

namespace Shep

namespace Template

open Secrets (SecretView)

variable {value rest text : Text} {c : Char}

/-! ## Reading -/

/-- The value holds no token, and the text is what its escapes and the rest
of it stand for. -/
inductive Reads : Text → Text → Prop
  | done : Reads [] []
  | plain {rest text : Text} {c : Char} :
      ¬ Opens (c :: rest) → Reads rest text → Reads (c :: rest) (c :: text)
  | escape {rest text braces : Text} :
      braces = openBraces ∨ braces = closeBraces → Reads rest text →
      Reads (braces ++ braces ++ rest) (braces ++ text)

/-- The walk of such a value is its literals, which make up the text. -/
theorem Reads.segmentsFrom (h : Reads value text) {fuel : ℕ} (hfuel : value.length ≤ fuel)
    (run : Text) : ∃ texts : List Text,
      Template.segmentsFrom fuel run value = (texts.map .literal, .complete) ∧
      texts.flatten = run ++ text := by
  induction h generalizing fuel run with
  | done =>
    refine ⟨[run], ?_, by simp⟩
    cases fuel <;> simp [Template.segmentsFrom, openBraces, closeBraces]
  | @plain rest text c hopens h ih =>
    obtain ⟨fuel, rfl⟩ := Nat.exists_eq_add_one.2 (Nat.lt_of_lt_of_le (by simp) hfuel)
    obtain ⟨texts, hwalk, hflat⟩ := ih (Nat.le_of_succ_le_succ hfuel) (run ++ [c])
    unfold Opens Escapes at hopens
    rw [not_or, not_or] at hopens
    refine ⟨texts, ?_, by simpa using hflat⟩
    simp only [Template.segmentsFrom, List.isPrefixOf_iff_prefix]
    rw [if_neg hopens.1.1, if_neg hopens.1.2, if_neg hopens.2, hwalk]
  | @escape rest text braces hbraces h ih =>
    obtain ⟨fuel, rfl⟩ := Nat.exists_eq_add_one.2
      (Nat.lt_of_lt_of_le (by rcases hbraces with rfl | rfl <;> simp [openBraces, closeBraces])
        hfuel)
    have hrest : rest.length ≤ fuel := by
      rcases hbraces with rfl | rfl <;> simp [openBraces, closeBraces] at hfuel <;> omega
    obtain ⟨texts, hwalk, hflat⟩ := ih hrest []
    refine ⟨run :: braces :: texts, ?_, by simpa using hflat⟩
    rcases hbraces with rfl | rfl <;>
      simp [Template.segmentsFrom, openBraces, closeBraces, hwalk]

theorem Reads.segments (h : Reads value text) : ∃ texts : List Text,
    Template.segments value = (texts.map .literal, .complete) ∧ texts.flatten = text := by
  obtain ⟨texts, hwalk, hflat⟩ := h.segmentsFrom le_rfl []
  exact ⟨texts, hwalk, hflat⟩

/-! ## What the passes make of it -/

theorem filterMap_name?_literal (texts : List Text) :
    (texts.map Segment.literal).filterMap Segment.name? = [] := by
  rw [List.filterMap_map]
  exact List.filterMap_eq_nil_iff.2 fun _ _ => rfl

theorem Reads.tokens (h : Reads value text) : Template.tokens value = [] := by
  obtain ⟨texts, hwalk, -⟩ := h.segments
  unfold Template.tokens
  rw [hwalk]
  exact filterMap_name?_literal texts

theorem Reads.validate (h : Reads value text) : Template.validate value = .ok () := by
  obtain ⟨texts, hwalk, -⟩ := h.segments
  rw [validate_eq_ok, hwalk, h.tokens]
  exact ⟨rfl, fun _ ht => absurd ht List.not_mem_nil⟩

theorem Reads.holdsToken (h : Reads value text) (wanted : Text → Bool) :
    Template.holdsToken value wanted = false := by
  rw [holdsToken_eq, h.tokens, List.any_nil]

theorem foldl_onPositional_literal {name slot : Text} {shepHome : Option Text}
    (texts : List Text) (out : Text) :
    (texts.map Segment.literal).foldl (onPositional name slot shepHome) out =
      out ++ texts.flatten := by
  induction texts generalizing out with
  | nil => simp
  | cons literal texts ih =>
    rw [List.map_cons, List.foldl_cons, ih, List.flatten_cons, ← List.append_assoc]
    rfl

theorem Reads.renderPositional (h : Reads value text) (name : Text) (inst : ℕ)
    (shepHome : Option Text) : Template.renderPositional value name inst shepHome = text := by
  obtain ⟨texts, hwalk, hflat⟩ := h.segments
  unfold Template.renderPositional walkAll
  rw [hwalk, foldl_onPositional_literal, List.nil_append, hflat]

theorem Reads.render (h : Reads value text) (name : Text) (inst : ℕ) (shepHome : Option Text)
    (view : SecretView) : Template.render value name inst shepHome view = .ok text := by
  rw [render_eq_renderPositional, h.renderPositional]
  rw [secretReferencesIn_eq, h.tokens, List.filterMap_nil]

/-! ## Escaping -/

/-- `str::replace` of a pair of braces by two: from the left, and never a
brace twice. -/
def doublePairs (brace : Char) : Text → Text
  | c :: d :: rest =>
    if c = brace ∧ d = brace then brace :: brace :: brace :: brace :: doublePairs brace rest
    else c :: doublePairs brace (d :: rest)
  | short => short

/-- `escape_template`. -/
def escapeTemplate (value : Text) : Text := doublePairs '}' (doublePairs '{' value)

theorem head?_doublePairs (brace : Char) (value : Text) :
    (doublePairs brace value).head? = value.head? := by
  fun_cases doublePairs brace value with
  | case1 c d rest h => simp [h.1]
  | case2 c d rest h => rfl
  | case3 => rfl

theorem doublePairs_cons {brace : Char} (h : c = brace → rest.head? ≠ some brace) :
    doublePairs brace (c :: rest) = c :: doublePairs brace rest := by
  cases rest with
  | nil => rfl
  | cons d rest =>
    rw [doublePairs, if_neg]
    rintro ⟨hc, hd⟩
    exact h hc (congrArg some hd)

theorem doublePairs_cons_of_ne {brace : Char} (h : c ≠ brace) :
    doublePairs brace (c :: rest) = c :: doublePairs brace rest :=
  doublePairs_cons fun hc => absurd hc h

theorem not_opens_cons (hopen : c = '{' → rest.head? ≠ some '{')
    (hclose : c = '}' → rest.head? ≠ some '}') : ¬ Opens (c :: rest) := by
  rintro ((⟨tail, h⟩ | ⟨tail, h⟩) | ⟨tail, h⟩)
  · obtain ⟨rfl, rfl⟩ := List.cons.inj h
    exact hopen rfl rfl
  · obtain ⟨rfl, rfl⟩ := List.cons.inj h
    exact hclose rfl rfl
  · obtain ⟨rfl, rfl⟩ := List.cons.inj h
    exact hopen rfl rfl

/-- **An escaped text reads as the text.** -/
theorem reads_escapeTemplate (value : Text) : Reads (escapeTemplate value) value := by
  induction hn : value.length using Nat.strong_induction_on generalizing value with
  | _ n ih =>
    cases value with
    | nil => exact .done
    | cons c rest =>
      have hhead : (escapeTemplate rest).head? = rest.head? := by
        rw [escapeTemplate, head?_doublePairs, head?_doublePairs]
      by_cases hopen : c = '{' → rest.head? ≠ some '{'
      · by_cases hclose : c = '}' → rest.head? ≠ some '}'
        · have hstep : escapeTemplate (c :: rest) = c :: escapeTemplate rest := by
            rw [escapeTemplate, doublePairs_cons hopen, doublePairs_cons]
            · rfl
            · rwa [head?_doublePairs]
          rw [hstep]
          refine .plain (not_opens_cons ?_ ?_) (ih rest.length (by simp [← hn]) rest rfl)
          · rwa [hhead]
          · rwa [hhead]
        · rw [Classical.not_imp, not_not] at hclose
          obtain ⟨rfl, hrest⟩ := hclose
          obtain ⟨rest, rfl⟩ := List.head?_eq_some_iff.1 hrest
          have hstep : escapeTemplate ('}' :: '}' :: rest) =
              closeBraces ++ closeBraces ++ escapeTemplate rest := by
            rw [escapeTemplate, doublePairs_cons_of_ne (by decide : '}' ≠ '{'),
              doublePairs_cons_of_ne (by decide : '}' ≠ '{'), doublePairs, if_pos ⟨rfl, rfl⟩]
            rfl
          rw [hstep]
          exact .escape (Or.inr rfl) (ih rest.length (by rw [← hn]; simp only [List.length_cons]; omega) rest rfl)
      · rw [Classical.not_imp, not_not] at hopen
        obtain ⟨rfl, hrest⟩ := hopen
        obtain ⟨rest, rfl⟩ := List.head?_eq_some_iff.1 hrest
        have hstep : escapeTemplate ('{' :: '{' :: rest) =
            openBraces ++ openBraces ++ escapeTemplate rest := by
          rw [escapeTemplate, doublePairs, if_pos ⟨rfl, rfl⟩]
          simp only [doublePairs_cons_of_ne (by decide : '{' ≠ '}')]
          rfl
        rw [hstep]
        exact .escape (Or.inl rfl) (ih rest.length (by rw [← hn]; simp only [List.length_cons]; omega) rest rfl)

/-! ## Texts that stand for themselves -/

/-- No pair of opening braces, and no two pairs of closing ones in a row. -/
def Inert (text : Text) : Prop :=
  ¬ openBraces <:+: text ∧ ¬ closeBraces ++ closeBraces <:+: text

instance : DecidablePred Inert := fun text =>
  inferInstanceAs (Decidable (¬ openBraces <:+: text ∧ ¬ closeBraces ++ closeBraces <:+: text))

theorem inert_cons : Inert (c :: rest) ↔ ¬ Opens (c :: rest) ∧ Inert rest := by
  have hescape : openBraces ++ openBraces <+: c :: rest → openBraces <+: c :: rest :=
    (List.prefix_append openBraces openBraces).trans
  unfold Inert Opens Escapes
  rw [List.infix_cons_iff, List.infix_cons_iff]
  tauto

theorem Inert.reads (h : Inert text) : Reads text text := by
  induction text with
  | nil => exact .done
  | cons c text ih =>
    obtain ⟨hopens, hrest⟩ := inert_cons.1 h
    exact .plain hopens (ih hrest)

/-- The braces of a text. -/
def braces (text : Text) : ℕ := text.countP fun c => c == '{' || c == '}'

theorem braces_nil : braces [] = 0 := rfl

theorem braces_append (text text' : Text) : braces (text ++ text') = braces text + braces text' :=
  List.countP_append

/-- A text without braces. -/
def BraceFree (text : Text) : Prop := braces text = 0

theorem braceFree_repr (n : ℕ) : BraceFree n.repr.toList := by
  refine List.countP_eq_zero.2 fun c hc => ?_
  have hdigit : c.isDigit = true :=
    Nat.isDigit_of_mem_toDigits (b := 10) (by decide) le_rfl (by simpa [Nat.repr] using hc)
  intro hbrace
  rw [Bool.or_eq_true, beq_iff_eq, beq_iff_eq] at hbrace
  rcases hbrace with rfl | rfl <;> exact absurd hdigit (by decide)

theorem braceFree_positional {token name slot out : Text} (hname : BraceFree name)
    (hslot : BraceFree slot) (h : positional token name slot (some []) = some out) :
    BraceFree out := by
  unfold positional at h
  split at h
  · exact Option.some.inj h ▸ hslot
  split at h
  · exact Option.some.inj h ▸ hname
  split at h
  · exact Option.some.inj h ▸ rfl
  · cases h

/-- A view that has no value for a reference. -/
def Bare (view : SecretView) : Prop := ∀ reference, ∃ err, resolveSecret reference view = .error err

/-- A rendered text has a brace fewer than the value at least, unless the
value is inert. -/
theorem Scans.braces_lt {run rest : Text} {segs : List Segment} {k : Completion}
    (h : Scans run rest segs k) {name slot out out' : Text} {view : SecretView}
    (hname : BraceFree name) (hslot : BraceFree slot) (hview : Bare view) (hk : k = .complete)
    (hknown : ∀ token ∈ segs.filterMap Segment.name?, knows token = true)
    (hout : segs.foldlM (onRendered name slot (some []) view) out = .ok out') :
    braces out' ≤ braces out + braces run + braces rest ∧
      (¬ Inert rest → braces out' < braces out + braces run + braces rest) := by
  induction h generalizing out with
  | done run =>
    obtain rfl : out ++ run = out' := Except.ok.inj hout
    rw [braces_append]
    exact ⟨le_rfl, fun hinert => absurd (by decide) hinert⟩
  | @plain run rest segs k c hopens _ ih =>
    obtain ⟨hle, hlt⟩ := ih hk hknown hout
    have hsum : braces out + braces (run ++ [c]) + braces rest =
        braces out + braces run + braces (c :: rest) := by
      rw [braces_append, ← List.singleton_append (l := rest), braces_append]
      omega
    rw [hsum] at hle hlt
    exact ⟨hle, fun hinert => hlt fun hrest => hinert (inert_cons.2 ⟨hopens, hrest⟩)⟩
  | @escape run rest pair segs k hpair _ ih =>
    have hpair : braces pair = 2 := by rcases hpair with rfl | rfl <;> rfl
    obtain ⟨hle, -⟩ := ih hk hknown hout
    simp only [braces_append, braces_nil] at hle ⊢
    omega
  | @token run after token segs k _ _ _ ih =>
    rw [List.filterMap_cons_none (f := Segment.name?) rfl,
      List.filterMap_cons_some (f := Segment.name?) rfl, List.forall_mem_cons] at hknown
    have hbraced : 4 ≤ braces (braced token) := by
      rw [braced, braces_append, braces_append]
      have hpairs : braces openBraces = 2 ∧ braces closeBraces = 2 := ⟨rfl, rfl⟩
      omega
    have hnext : (Segment.token token :: segs).foldlM (onRendered name slot (some []) view)
      (out ++ run) = .ok out' := hout
    rw [List.foldlM_cons] at hnext
    have hstep : ∃ text, positional token name slot (some []) = some text := by
      have hexpands : (positional token name slot (some [])).isSome = true ∨
          (secretReference token).isSome = true ∨ token = shepHomeToken ∧ some [] = none :=
        known_expands hknown.1
      rcases hexpands with hpos | href | ⟨-, hnone⟩
      · exact Option.isSome_iff_exists.1 hpos
      · obtain ⟨reference, href⟩ := Option.isSome_iff_exists.1 href
        obtain ⟨err, herr⟩ := hview reference
        cases hpos : positional token name slot (some []) with
        | some text => exact ⟨text, rfl⟩
        | none =>
          simp [onRendered, hpos, href, herr, bind, Except.bind] at hnext
      · cases hnone
    obtain ⟨text, htext⟩ := hstep
    have hrest : segs.foldlM (onRendered name slot (some []) view) (out ++ run ++ text) =
        .ok out' := by
      simpa [onRendered, htext, bind, Except.bind] using hnext
    obtain ⟨hle, -⟩ := ih hk hknown.2 hrest
    have hfree : braces text = 0 := braceFree_positional hname hslot htext
    simp only [braces_append, braces_nil, hfree] at hle ⊢
    omega
  | unclosed => cases hk

/-- **A value that is rendered as itself is inert**, if the sheep's name has
no brace: some home and some view tell. -/
theorem inert_of_render {name : Text} {inst : ℕ} {view : SecretView} (hname : BraceFree name)
    (hview : Bare view) (hvalid : validate value = .ok ())
    (h : render value name inst (some []) view = .ok value) : Inert value := by
  obtain ⟨hk, hknown⟩ := validate_eq_ok.1 hvalid
  by_contra hinert
  unfold render walk at h
  cases hout : (segments value).1.foldlM (onRendered name inst.repr.toList (some []) view) [] with
  | error err =>
    rw [hout] at h
    cases h
  | ok out =>
    rw [hout] at h
    obtain rfl : out = value := Except.ok.inj h
    have hlt := ((scans out).braces_lt hname (braceFree_repr inst) hview hk hknown hout).2 hinert
    rw [braces_nil] at hlt
    omega

/-- A view with nothing in it. -/
def emptyView : SecretView where
  environment := ""
  store := ∅
  providers := ⟨∅, ∅⟩

theorem bare_emptyView : Bare emptyView := by
  intro reference
  have hnone : ∀ found, emptyView.resolve reference ≠ .found found := by
    intro found
    unfold SecretView.resolve emptyView
    cases reference.ns <;> simp
    split <;> simp
  cases hres : resolveSecret reference emptyView with
  | error err => exact ⟨err, rfl⟩
  | ok text =>
    obtain ⟨found, hfound⟩ := resolveSecret_eq_ok.1 ⟨text, hres⟩
    exact absurd hfound (hnone found)

end Template

end Shep
