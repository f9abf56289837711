import Shep.Template.Scans

/-!
# Template — that the passes agree

**`passes_agree`**, of every value. `validate` lets it through exactly if
its walk is complete and every token is known, and then no pass has a token
to refuse. `render` succeeds exactly if every reference `references_in`
lists resolves, and what it fails with is retriable exactly if the first
reference that fails is in a namespace nobody has pushed. Without a
reference it is `render_positional`. And `render_secrets` rewrites the
references and nothing else: `Splices` is the grammar once more, with what
becomes of each piece.

`validate_unclosed` is a value whose walk yields no token at all and that is
refused.
-/

namespace Shep

namespace Template

open Secrets (SecretRef SecretView Resolution)

variable {value run rest after token v out : Text} {segs : List Segment} {k : Completion}
  {view : SecretView} {name : Text} {slot : Text} {inst : ℕ} {shepHome : Option Text}

/-! ## What a pass without errors collects -/

/-- What `secret_references_in` collects of some segments. -/
def references (segs : List Segment) : List SecretRef :=
  (segs.filterMap Segment.name?).filterMap secretReference

theorem references_token (token : Text) : references (.token token :: segs) =
    (secretReference token).toList ++ references segs := by
  unfold references
  rw [List.filterMap_cons_some (f := Segment.name?) rfl]
  cases hr : secretReference token with
  | none => rw [List.filterMap_cons_none hr]; rfl
  | some r => rw [List.filterMap_cons_some hr]; rfl

theorem foldl_onReference (segs : List Segment) (found : List SecretRef) :
    segs.foldl onReference found = found ++ references segs := by
  induction segs generalizing found with
  | nil => exact (List.append_nil found).symm
  | cons seg segs ih =>
    rw [List.foldl_cons, ih]
    cases seg with
    | literal text => rfl
    | token token => rw [references_token, ← List.append_assoc]; rfl

theorem secretReferencesIn_eq (value : Text) :
    secretReferencesIn value = (tokens value).filterMap secretReference := by
  unfold secretReferencesIn walkAll
  rw [foldl_onReference, List.nil_append]
  rfl

theorem foldl_onWanted (wanted : Text → Bool) (segs : List Segment) (found : Bool) :
    segs.foldl (onWanted wanted) found =
      (found || (segs.filterMap Segment.name?).any wanted) := by
  induction segs generalizing found with
  | nil => exact (Bool.or_false found).symm
  | cons seg segs ih =>
    rw [List.foldl_cons, ih]
    cases seg with
    | literal text => rfl
    | token token =>
      rw [List.filterMap_cons_some (f := Segment.name?) rfl, List.any_cons, ← Bool.or_assoc]
      rfl

theorem holdsToken_eq (value : Text) (wanted : Text → Bool) :
    holdsToken value wanted = (tokens value).any wanted :=
  (foldl_onWanted wanted _ false).trans (Bool.false_or _)

/-! ## Validation -/

theorem foldlM_onValidated (segs : List Segment) :
    segs.foldlM onValidated () = .ok () ↔
      ∀ token ∈ segs.filterMap Segment.name?, knows token = true := by
  induction segs with
  | nil => exact ⟨fun _ token ht => absurd ht List.not_mem_nil, fun _ => rfl⟩
  | cons seg segs ih =>
    rw [List.foldlM_cons]
    cases seg with
    | literal text => exact ih
    | token token =>
      rw [List.filterMap_cons_some (f := Segment.name?) rfl, List.forall_mem_cons]
      have hstep : onValidated () (.token token) =
          if knows token then .ok () else .error (.unknownToken token) := rfl
      rw [hstep]
      cases knows token with
      | true => exact ih.trans ⟨fun h => ⟨rfl, h⟩, And.right⟩
      | false => simp [bind, Except.bind]

/-- **`validate` lets a value through exactly if its walk is complete and
every token of it is known.** -/
theorem validate_eq_ok : validate value = .ok () ↔
    (segments value).2 = .complete ∧ ∀ token ∈ tokens value, knows token = true := by
  unfold validate walk tokens
  rw [← foldlM_onValidated]
  generalize (segments value).1.foldlM onValidated () = r
  cases r with
  | error err => simp
  | ok u => cases (segments value).2 <;> simp

theorem secretReference_of_positional {text : Text}
    (h : positional token name slot shepHome = some text) :
    secretReference token = none := by
  unfold positional at h
  split at h
  · next he =>
    rw [eq_of_beq he]
    decide
  · split at h
    · next he =>
      rw [eq_of_beq he]
      decide
    · split at h
      · next he =>
        rw [eq_of_beq he]
        decide
      · cases h

/-- A known token is one of the positional ones or a reference. Only
`SHEP_HOME` can be left as it is written, where there is none. -/
theorem known_expands (h : knows token = true) :
    (positional token name slot shepHome).isSome = true ∨
      (secretReference token).isSome = true ∨ token = shepHomeToken ∧ shepHome = none := by
  unfold knows at h
  rw [Bool.or_eq_true] at h
  rcases h with h | h
  · simp only [tokenNames, List.contains_cons, List.contains_nil, Bool.or_false, Bool.or_eq_true,
      beq_iff_eq] at h
    rcases h with rfl | rfl | rfl
    · exact Or.inl rfl
    · exact Or.inl rfl
    · cases shepHome with
      | none => exact Or.inr (Or.inr ⟨rfl, rfl⟩)
      | some home => exact Or.inl rfl
  · exact Or.inr (Or.inl h)

/-! ## Resolving -/

theorem resolveSecret_eq_ok {r : SecretRef} :
    (∃ text, resolveSecret r view = .ok text) ↔ ∃ found, view.resolve r = .found found := by
  unfold resolveSecret
  cases hr : view.resolve r with
  | found text => simp
  | missingKey => simp
  | missingNamespace => cases r.ns <;> simp

/-- What a reference fails with is retriable exactly if nobody has pushed
its namespace. -/
theorem resolveSecret_retriable {r : SecretRef} {err : RenderError}
    (h : resolveSecret r view = .error err) :
    err.isRetriable = true ↔ ∃ ns, r.ns = some ns ∧ view.isPushed ns = false := by
  unfold resolveSecret at h
  unfold SecretView.resolve at h
  dsimp only at h
  generalize (Option.bind _ _ : Option String) = found at h
  cases found with
  | some text => cases h
  | none =>
    cases hns : r.ns with
    | none =>
      simp only [hns] at h
      rw [← Except.error.inj h]
      simp [RenderError.isRetriable]
    | some ns =>
      simp only [hns] at h
      cases hp : view.isPushed ns with
      | true =>
        simp only [hp, if_true] at h
        rw [← Except.error.inj h]
        simp [RenderError.isRetriable, hp]
      | false =>
        simp only [hp, Bool.false_eq_true, if_false] at h
        rw [← Except.error.inj h]
        simp [RenderError.isRetriable, hp]

theorem resolveSecret_ne_malformed {r : SecretRef} (text : Text) :
    resolveSecret r view ≠ .error (.malformed text) := by
  unfold resolveSecret
  cases view.resolve r with
  | found text => simp
  | missingKey => simp
  | missingNamespace => cases r.ns <;> simp

/-- Whether the view has no value for a reference. -/
def fails (view : SecretView) (r : SecretRef) : Bool := (view.resolve r).value?.isNone

theorem fails_eq_false {r : SecretRef} :
    fails view r = false ↔ ∃ found, view.resolve r = .found found := by
  unfold fails
  cases view.resolve r <;> simp [Resolution.value?]

theorem fails_of_error {r : SecretRef} {err : RenderError}
    (h : resolveSecret r view = .error err) : fails view r = true := by
  by_contra hf
  obtain ⟨text, hok⟩ := resolveSecret_eq_ok.2 (fails_eq_false.1 (Bool.not_eq_true _ ▸ hf))
  rw [hok] at h
  cases h

/-! ## Rendering -/

/-- What `render` answers, of the references it meets: an error is that of
the first one without a value. -/
def RendersAs (view : SecretView) (refs : List SecretRef) : Except RenderError Text → Prop
  | .ok _ => ∀ r ∈ refs, fails view r = false
  | .error err => ∃ r, refs.find? (fails view) = some r ∧ resolveSecret r view = .error err

theorem RendersAs.cons {refs : List SecretRef} {res : Except RenderError Text} {r : SecretRef}
    (h : RendersAs view refs res) (hr : fails view r = false) :
    RendersAs view (r :: refs) res := by
  cases res with
  | ok out => exact List.forall_mem_cons.2 ⟨hr, h⟩
  | error err =>
    obtain ⟨first, hfirst, herr⟩ := h
    exact ⟨first, (List.find?_cons_of_neg (ne_true_of_eq_false hr)).trans hfirst, herr⟩

theorem foldlM_onRendered (name slot : Text) (shepHome : Option Text) (view : SecretView)
    (segs : List Segment) (out : Text) :
    RendersAs view (references segs)
      (segs.foldlM (onRendered name slot shepHome view) out) := by
  induction segs generalizing out with
  | nil => exact fun r hr => absurd hr List.not_mem_nil
  | cons seg segs ih =>
    rw [List.foldlM_cons]
    cases seg with
    | literal text => exact ih (out ++ text)
    | token token =>
      rw [references_token]
      unfold onRendered
      dsimp only
      split
      · next text hpos =>
        rw [secretReference_of_positional hpos]
        exact ih (out ++ text)
      · split
        · next reference href =>
          rw [href]
          split
          · next err herr =>
            exact ⟨reference, List.find?_cons_of_pos (fails_of_error herr), herr⟩
          · next found hfound =>
            exact (ih (out ++ found)).cons (fails_eq_false.2 (resolveSecret_eq_ok.1 ⟨found, hfound⟩))
        · next href =>
          rw [href]
          exact ih (out ++ braced token)

theorem render_rendersAs (value name : Text) (inst : ℕ) (shepHome : Option Text)
    (view : SecretView) :
    RendersAs view (secretReferencesIn value) (render value name inst shepHome view) := by
  have h := foldlM_onRendered name inst.repr.toList shepHome view (segments value).1 []
  rw [secretReferencesIn_eq]
  unfold render walk
  cases hr : (segments value).1.foldlM (onRendered name inst.repr.toList shepHome view) [] <;>
    rw [hr] at h <;> exact h

/-- Without a reference nothing is looked up. -/
theorem foldlM_onRendered_positional (segs : List Segment) (out : Text)
    (h : references segs = []) :
    segs.foldlM (onRendered name slot shepHome view) out =
      .ok (segs.foldl (onPositional name slot shepHome) out) := by
  induction segs generalizing out with
  | nil => rfl
  | cons seg segs ih =>
    rw [List.foldlM_cons, List.foldl_cons]
    cases seg with
    | literal text => exact ih (out ++ text) h
    | token token =>
      rw [references_token] at h
      obtain ⟨hnone, hrest⟩ := List.append_eq_nil_iff.1 h
      rw [Option.toList_eq_nil_iff] at hnone
      unfold onRendered onPositional
      dsimp only
      cases positional token name slot shepHome with
      | some text => exact ih (out ++ text) hrest
      | none =>
        rw [hnone]
        exact ih (out ++ braced token) hrest

theorem render_eq_renderPositional (h : secretReferencesIn value = []) :
    render value name inst shepHome view = .ok (renderPositional value name inst shepHome) := by
  rw [secretReferencesIn_eq] at h
  unfold render walk renderPositional walkAll
  rw [foldlM_onRendered_positional _ [] h]

/-! ## Only the secrets -/

/-- A copy of a text in which every reference stands resolved and all else
as it was: what no pattern opens, the escapes, the tokens that are no
reference, and an open that nothing closes. -/
inductive Splices (view : SecretView) : Text → Text → Prop
  | done : Splices view [] []
  | plain {rest out : Text} {c : Char} :
      ¬ Opens (c :: rest) → Splices view rest out → Splices view (c :: rest) (c :: out)
  | escape {rest out braces : Text} :
      braces = openBraces ∨ braces = closeBraces → Splices view rest out →
      Splices view (braces ++ braces ++ rest) (braces ++ braces ++ out)
  | token {after out token : Text} :
      ¬ Escapes (braced token ++ after) →
      findClose (token ++ closeBraces ++ after) = some (token, after) →
      secretReference token = none → Splices view after out →
      Splices view (braced token ++ after) (braced token ++ out)
  | secret {after out token : Text} {r : SecretRef} {found : String} :
      ¬ Escapes (braced token ++ after) →
      findClose (token ++ closeBraces ++ after) = some (token, after) →
      secretReference token = some r → view.resolve r = .found found → Splices view after out →
      Splices view (braced token ++ after) (found.toList ++ out)
  | unclosed {rest : Text} : ¬ Escapes (openBraces ++ rest) → findClose rest = none →
      Splices view (openBraces ++ rest) (openBraces ++ rest)

theorem resolveSecret_found {r : SecretRef} {text : Text} (h : resolveSecret r view = .ok text) :
    ∃ found, view.resolve r = .found found ∧ text = found.toList := by
  unfold resolveSecret at h
  cases hr : view.resolve r with
  | found value =>
    rw [hr] at h
    exact ⟨value, rfl, (Except.ok.inj h).symm⟩
  | missingKey =>
    rw [hr] at h
    cases h
  | missingNamespace =>
    rw [hr] at h
    cases hns : r.ns <;> rw [hns] at h <;> cases h

/-- What is left to copy once the segments are dealt with. -/
def leftover (value : Text) (at' : ℕ) : Completion → Text
  | .complete => []
  | .unclosed => value.drop at'

theorem onSecretSegment_run (view : SecretView) (out : Text) {at' : ℕ}
    (hat : value.drop at' = run ++ rest)
    (ha : Apart run rest) :
    onSecretSegment value view (out, at') (.literal run) =
        .ok (out ++ run, at' + run.length) ∧
      value.drop (at' + run.length) = rest := by
  constructor
  · unfold onSecretSegment
    dsimp only
    rw [hat, ha.isEscape]
    rfl
  · rw [← List.drop_drop, hat, List.drop_left]

theorem onSecretSegment_escape (view : SecretView) {at' : ℕ} {braces : Text}
    (hb : braces = openBraces ∨ braces = closeBraces)
    (hat : value.drop at' = braces ++ braces ++ rest) :
    onSecretSegment value view (out, at') (.literal braces) =
        .ok (out ++ (braces ++ braces), at' + 4) ∧
      value.drop (at' + 4) = rest := by
  constructor
  · unfold onSecretSegment isEscape
    dsimp only
    rw [hat, List.isPrefixOf_iff_prefix.2 (List.prefix_append _ _), Bool.and_true]
    rcases hb with rfl | rfl <;> rfl
  · rw [← List.drop_drop, hat]
    rcases hb with rfl | rfl <;> rfl

theorem foldlM_cons_ok {σ ε : Type} {f : σ → Segment → Except ε σ} {s t : σ} {seg : Segment}
    (h : f s seg = .ok t) : (seg :: segs).foldlM f s = segs.foldlM f t := by
  rw [List.foldlM_cons, h]
  rfl

/-- What the rest of a walk adds, by induction on the walk: how far it got
is the run it is in and what is ahead. -/
theorem foldlM_onSecretSegment (hs : Scans run rest segs k) {at' : ℕ}
    (hat : value.drop at' = run ++ rest) (ha : Apart run rest) {s : Text × ℕ}
    (h : segs.foldlM (onSecretSegment value view) (out, at') = .ok s) :
    ∃ tail, s.1 ++ leftover value s.2 k = out ++ run ++ tail ∧ Splices view rest tail := by
  induction hs generalizing out at' with
  | done run =>
    obtain ⟨hrun, -⟩ := onSecretSegment_run view out hat ha
    rw [foldlM_cons_ok hrun] at h
    obtain rfl := Except.ok.inj h
    exact ⟨[], rfl, .done⟩
  | plain hc hs ih =>
    obtain ⟨tail, hout, hsp⟩ := ih (by rw [hat]; simp) (ha.snoc hc) h
    exact ⟨_ :: tail, by rw [hout]; simp, .plain hc hsp⟩
  | escape hb hs ih =>
    obtain ⟨hrun, hat⟩ := onSecretSegment_run view out hat ha
    rw [foldlM_cons_ok hrun] at h
    obtain ⟨hesc, hat⟩ := onSecretSegment_escape view hb hat
    rw [foldlM_cons_ok hesc] at h
    obtain ⟨tail, hout, hsp⟩ := ih hat apart_nil h
    exact ⟨_, by rw [hout]; simp, .escape hb hsp⟩
  | @token run after token segs k hopen hclose hs ih =>
    obtain ⟨hrun, hat⟩ := onSecretSegment_run view out hat ha
    rw [foldlM_cons_ok hrun] at h
    have hat : value.drop (at' + run.length + (token.length + 4)) = [] ++ after := by
      rw [← List.drop_drop, hat]
      exact List.drop_left' (by simp [braced, openBraces, closeBraces])
    rw [List.foldlM_cons] at h
    unfold onSecretSegment at h
    dsimp only at h
    cases href : secretReference token with
    | none =>
      rw [href] at h
      dsimp only at h
      split at h
      · cases h
      · obtain ⟨tail, hout, hsp⟩ := ih hat apart_nil h
        exact ⟨_, by rw [hout]; simp, .token hopen hclose href hsp⟩
    | some r =>
      rw [href] at h
      dsimp only at h
      cases hres : resolveSecret r view with
      | error err =>
        rw [hres] at h
        cases h
      | ok text =>
        rw [hres] at h
        obtain ⟨found, hfound, rfl⟩ := resolveSecret_found hres
        obtain ⟨tail, hout, hsp⟩ := ih hat apart_nil h
        exact ⟨_, by rw [hout]; simp, .secret hopen hclose href hfound hsp⟩
  | unclosed hopen hclose =>
    obtain ⟨hrun, hat⟩ := onSecretSegment_run view out hat ha
    rw [foldlM_cons_ok hrun] at h
    obtain rfl := Except.ok.inj h
    exact ⟨_, congrArg (out ++ _ ++ ·) hat, .unclosed hopen hclose⟩

/-- **`render_secrets` changes nothing but the references.** -/
theorem renderSecrets_splices (h : renderSecrets value view = .ok out) :
    Splices view value out := by
  unfold renderSecrets walk at h
  cases hr : (segments value).1.foldlM (onSecretSegment value view) ([], 0) with
  | error err =>
    rw [hr] at h
    cases h
  | ok s =>
    obtain ⟨tail, hout, hsp⟩ := foldlM_onSecretSegment (scans value) rfl apart_nil hr
    rw [hr] at h
    have heq : s.1 ++ leftover value s.2 (segments value).2 = out := by
      revert h
      cases (segments value).2 with
      | complete => exact fun h => (List.append_nil _).trans (Except.ok.inj h)
      | unclosed => exact Except.ok.inj
    rw [← heq, hout]
    exact hsp

/-! ## Malformed references -/

theorem no_prefix (h : tokenNames.contains token = true) :
    secretPrefix.isPrefixOf token = false := by
  simp only [tokenNames, List.contains_cons, List.contains_nil, Bool.or_false, Bool.or_eq_true,
    beq_iff_eq] at h
  rcases h with rfl | rfl | rfl <;> rfl

theorem foldlM_onSecretSegment_malformed {s : Text × ℕ} {text : Text}
    (hk : ∀ token ∈ segs.filterMap Segment.name?, knows token = true) :
    segs.foldlM (onSecretSegment value view) s ≠ .error (.malformed text) := by
  induction segs generalizing s with
  | nil => exact fun h => nomatch h
  | cons seg segs ih =>
    rw [List.foldlM_cons]
    cases seg with
    | literal literal =>
      unfold onSecretSegment
      dsimp only
      split <;> exact ih hk
    | token token =>
      rw [List.filterMap_cons_some (f := Segment.name?) rfl, List.forall_mem_cons] at hk
      unfold onSecretSegment
      dsimp only
      split
      · next r href =>
        split
        · next err herr =>
          intro h
          obtain rfl := Except.error.inj h
          exact resolveSecret_ne_malformed text herr
        · exact ih hk.2
      · next href =>
        split
        · next hprefix =>
          have hknown := hk.1
          unfold knows at hknown
          rw [href, Option.isSome_none, Bool.or_false] at hknown
          exact absurd hprefix (Bool.not_eq_true _ ▸ no_prefix hknown)
        · exact ih hk.2

theorem render_ne_malformed (text : Text) :
    render value name inst shepHome view ≠ .error (.malformed text) := by
  intro h
  have hr := render_rendersAs value name inst shepHome view
  rw [h] at hr
  obtain ⟨r, -, herr⟩ := hr
  exact resolveSecret_ne_malformed text herr

theorem renderSecrets_ne_malformed (hv : validate value = .ok ()) (text : Text) :
    renderSecrets value view ≠ .error (.malformed text) := by
  intro h
  unfold renderSecrets walk at h
  cases hr : (segments value).1.foldlM (onSecretSegment value view) ([], 0) with
  | error err =>
    rw [hr] at h
    obtain rfl := Except.error.inj h
    exact foldlM_onSecretSegment_malformed (validate_eq_ok.1 hv).2 hr
  | ok s =>
    rw [hr] at h
    cases hk : (segments value).2 <;> rw [hk] at h <;> cases h

/-! ## The passes agree -/

theorem forall_referencesIn : (∀ text ∈ referencesIn value, ∃ r found,
      parseRef text = some r ∧ view.resolve r = .found found) ↔
    ∀ r ∈ secretReferencesIn value, fails view r = false := by
  unfold referencesIn
  simp only [List.mem_toFinset, List.mem_map, forall_exists_index, and_imp,
    forall_apply_eq_imp_iff₂]
  refine forall₂_congr fun r hr => ?_
  have hparse : parseRef (spelled r) = some r := by
    rw [secretReferencesIn_eq] at hr
    obtain ⟨token, -, href⟩ := List.mem_filterMap.1 hr
    exact (shown_of_secretReference href).2
  rw [fails_eq_false]
  constructor
  · rintro ⟨r', found, hr', hfound⟩
    obtain rfl := Option.some.inj (hparse.symm.trans hr')
    exact ⟨found, hfound⟩
  · rintro ⟨found, hfound⟩
    exact ⟨r, found, hparse, hfound⟩

theorem render_ok_iff : (∃ out, render value name inst shepHome view = .ok out) ↔
    ∀ r ∈ secretReferencesIn value, fails view r = false := by
  have hr := render_rendersAs value name inst shepHome view
  cases h : render value name inst shepHome view with
  | ok out =>
    rw [h] at hr
    exact ⟨fun _ => hr, fun _ => ⟨out, rfl⟩⟩
  | error err =>
    rw [h] at hr
    obtain ⟨r, hfind, -⟩ := hr
    constructor
    · rintro ⟨out, hout⟩
      cases hout
    · intro hall
      have := hall r (List.mem_of_find?_eq_some hfind)
      rw [List.find?_some hfind] at this
      cases this

/-- **The passes agree on every value.** -/
theorem passes_agree (value name : Text) (inst : ℕ) (shepHome : Option Text)
    (view : SecretView) :
    -- what is let through, and that nothing let through is refused or cut later
    ((validate value = .ok () ↔
        (segments value).2 = .complete ∧ ∀ token ∈ tokens value, knows token = true) ∧
      (validate value = .ok () →
        (∀ token ∈ tokens value,
          (positional token name inst.repr.toList shepHome).isSome = true ∨
            (secretReference token).isSome = true ∨ token = shepHomeToken ∧ shepHome = none) ∧
        (∀ text, render value name inst shepHome view ≠ .error (.malformed text)) ∧
        ∀ text, renderSecrets value view ≠ .error (.malformed text))) ∧
    -- when a value renders, and whether to try again
    (((∃ out, render value name inst shepHome view = .ok out) ↔
        ∀ text ∈ referencesIn value, ∃ r found,
          parseRef text = some r ∧ view.resolve r = .found found) ∧
      ∀ err, render value name inst shepHome view = .error err →
        ∃ r, (secretReferencesIn value).find? (fails view) = some r ∧
          (err.isRetriable = true ↔ ∃ ns, r.ns = some ns ∧ view.isPushed ns = false)) ∧
    -- without a reference
    (secretReferencesIn value = [] →
      render value name inst shepHome view =
        .ok (renderPositional value name inst shepHome)) ∧
    -- the secrets alone
    ∀ out, renderSecrets value view = .ok out → Splices view value out := by
  refine ⟨⟨validate_eq_ok, fun hv => ⟨?_, render_ne_malformed, renderSecrets_ne_malformed hv⟩⟩,
    ⟨render_ok_iff.trans forall_referencesIn.symm, fun err h => ?_⟩,
    render_eq_renderPositional, fun out => renderSecrets_splices⟩
  · exact fun token ht => known_expands ((validate_eq_ok.1 hv).2 token ht)
  · have hr := render_rendersAs value name inst shepHome view
    rw [h] at hr
    obtain ⟨r, hfind, herr⟩ := hr
    exact ⟨r, hfind, resolveSecret_retriable herr⟩

/-- An open that nothing closes yields no token, and is refused. -/
theorem validate_unclosed :
    ¬ (validate openBraces = .ok () ↔ ∀ token ∈ tokens openBraces, knows token = true) := by
  have htokens : tokens openBraces = [] := rfl
  have hrefused : validate openBraces = .error .unclosed := rfl
  rw [htokens, hrefused]
  simp

end Template

end Shep
