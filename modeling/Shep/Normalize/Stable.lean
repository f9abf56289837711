import Mathlib.Data.List.TakeWhile
import Shep.Normalize.Model
import Shep.Template.Passes

/-!
# Normalize — a normalized config stays as it is

An expanded path is absolute where it was rewritten, so that no tilde is
left, and has the tokens of the path as written, since the home has no brace
in it. `expandPaths_again` and `dedupTargets_again` are the two rewrites run
again; `normalizeWithHome_again` puts them together with the checks.
-/

namespace Shep

namespace Normalize

open Template (Text tokens segments)

variable {Rest : Type} {g : Grammars} {home shepHome : Option Text} {app app' : AppConfig Rest}
variable {value path name : Text} {slot slot' : Option Text} {field : String} {bad : Bool}
variable {err : NormalizeError}

/-- No brace in a text. -/
def Plain (t : Text) : Prop := ∀ c ∈ t, c ≠ '{' ∧ c ≠ '}'

/-- A home directory that is absolute and free of braces, if there is one. -/
def HomeOk (home : Option Text) : Prop := ∀ h, home = some h → h.head? = some '/' ∧ Plain h

/-! ## Checks -/

theorem allOk_eq_ok {checks : List Checked} : allOk checks = .ok () ↔ ∀ c ∈ checks, c = .ok () := by
  induction checks with
  | nil => simp [allOk]
  | cons check checks ih =>
    rw [List.forall_mem_cons, ← ih]
    cases check with
    | error err => simp [allOk]
    | ok u => simp [allOk]

theorem refuseIf_eq_ok : refuseIf bad err = .ok () ↔ bad = false := by
  cases bad <;> simp [refuseIf]

/-! ## One path -/

theorem Plain.cons {c : Char} {t : Text} (hc : c ≠ '{' ∧ c ≠ '}') (h : Plain t) :
    Plain (c :: t) := List.forall_mem_cons.2 ⟨hc, h⟩

theorem Plain.append {t u : Text} (h : Plain t) (h' : Plain u) : Plain (t ++ u) :=
  List.forall_mem_append.2 ⟨h, h'⟩

theorem join_cases {h rest : Text} (habs : h.head? = some '/') (hplain : Plain h)
    (hrel : rest.head? ≠ some '/') :
    ∃ front, join h rest = front ++ rest ∧ Plain front ∧ front.head? = some '/' := by
  rw [join, if_neg hrel]
  split
  · exact ⟨h, rfl, hplain, habs⟩
  · refine ⟨h ++ ['/'], by simp, hplain.append (Plain.cons (by decide) (by simp [Plain])), ?_⟩
    cases h with
    | nil => simp at habs
    | cons c h => simpa using habs

/-- What a tilde expands to: nothing changes, or one brace-free front is
replaced by another, which is absolute. -/
theorem expandHomeTilde_cases (hhome : HomeOk home) (h : expandHomeTilde value home = .ok path) :
    path = value ∧ value.head? ≠ some '~' ∨
      path.head? = some '/' ∧ ∃ front front' rest, value = front ++ rest ∧
        path = front' ++ rest ∧ Plain front ∧ Plain front' := by
  unfold expandHomeTilde at h
  split at h
  · next rest =>
    split at h
    · split at h
      · cases h
      · next dir =>
        obtain ⟨habs, hplain⟩ := hhome dir rfl
        have hrel : (rest.dropWhile (· == '/')).head? ≠ some '/' := by
          intro hslash
          have := List.head?_dropWhile_not (· == '/') rest
          simp [hslash] at this
        obtain ⟨front', hjoin, hfront', hhead⟩ := join_cases habs hplain hrel
        obtain rfl : join dir (rest.dropWhile (· == '/')) = path := Except.ok.inj h
        have hslashes : Plain (rest.takeWhile (· == '/')) := by
          intro c hc
          have := List.mem_takeWhile_imp hc
          obtain rfl : c = '/' := by simpa using this
          decide
        refine .inr ⟨?_, '~' :: rest.takeWhile (· == '/'), front', rest.dropWhile (· == '/'),
          by simp [List.takeWhile_append_dropWhile], hjoin, hslashes.cons (by decide), hfront'⟩
        rw [hjoin]
        cases front' with
        | nil => simp at hhead
        | cons c front' => simpa using hhead
    · cases h
  · next hno =>
    obtain rfl : value = path := Except.ok.inj h
    refine .inl ⟨rfl, fun hhead => ?_⟩
    obtain ⟨rest, rfl⟩ := List.head?_eq_some_iff.1 hhead
    exact hno rest rfl

theorem expandHomeTilde_of_head (h : value.head? ≠ some '~') :
    expandHomeTilde value home = .ok value := by
  unfold expandHomeTilde
  split
  · simp at h
  · rfl

theorem expandHomeTilde_again (hhome : HomeOk home) (h : expandHomeTilde value home = .ok path) :
    expandHomeTilde path home = .ok path := by
  refine expandHomeTilde_of_head ?_
  rcases expandHomeTilde_cases hhome h with ⟨rfl, hhead⟩ | ⟨hhead, -⟩
  · exact hhead
  · simp [hhead]

theorem tokens_expandHomeTilde (hhome : HomeOk home) (h : expandHomeTilde value home = .ok path) :
    tokens path = tokens value ∧ (segments path).2 = (segments value).2 := by
  rcases expandHomeTilde_cases hhome h with ⟨rfl, -⟩ |
    ⟨-, front, front', rest, rfl, rfl, hfront, hfront'⟩
  · exact ⟨rfl, rfl⟩
  · obtain ⟨ht, hk⟩ := Template.tokens_append (v := rest) hfront
    obtain ⟨ht', hk'⟩ := Template.tokens_append (v := rest) hfront'
    exact ⟨ht'.trans ht.symm, hk'.trans hk.symm⟩

theorem expandTilde_eq_ok (name : Text) (field : String) :
    expandTilde value home name field = .ok path ↔ expandHomeTilde value home = .ok path := by
  unfold expandTilde
  cases expandHomeTilde value home with
  | ok found => simp
  | error err => cases err <;> simp

theorem expandSlot_cases (h : expandSlot slot home name field = .ok slot') :
    (slot = none ∧ slot' = none) ∨ ∃ value path, slot = some value ∧ slot' = some path ∧
      expandHomeTilde value home = .ok path := by
  cases slot with
  | none =>
    obtain rfl : none = slot' := Except.ok.inj h
    exact .inl ⟨rfl, rfl⟩
  | some value =>
    cases hvalue : expandTilde value home name field with
    | error err => simp [expandSlot, hvalue, Except.map] at h
    | ok path =>
      obtain rfl : some path = slot' := by simpa [expandSlot, hvalue, Except.map] using h
      exact .inr ⟨value, path, rfl, rfl, (expandTilde_eq_ok _ _).1 hvalue⟩

theorem expandSlot_again (hhome : HomeOk home) (h : expandSlot slot home name field = .ok slot') :
    expandSlot slot' home name field = .ok slot' := by
  obtain ⟨rfl, rfl⟩ | ⟨value, path, rfl, rfl, hvalue⟩ := expandSlot_cases h
  · rfl
  · have hagain := expandHomeTilde_again hhome hvalue
    simp [expandSlot, (expandTilde_eq_ok _ _).2 hagain, Except.map]

/-! ## What an expansion keeps -/

theorem validateTemplate_eq_ok : validateTemplate name field shepHome value = .ok () ↔
    ((segments value).2 = .complete ∧ ∀ token ∈ tokens value, Template.knows token = true) ∧
      (shepHome.isNone && (tokens value).any (· == Template.shepHomeToken)) = false := by
  unfold validateTemplate
  rw [← Template.validate_eq_ok, ← Template.holdsToken_eq, ← Template.holdsShepHome]
  cases Template.validate value with
  | error reason => simp
  | ok u =>
    rw [refuseIf_eq_ok]
    simp

theorem validateLogPath_expanded (hhome : HomeOk home)
    (h : expandSlot slot home name field = .ok slot')
    (hok : validateLogPath name field shepHome slot = .ok ()) :
    validateLogPath name field shepHome slot' = .ok () := by
  obtain ⟨rfl, rfl⟩ | ⟨value, path, rfl, rfl, hvalue⟩ := expandSlot_cases h
  · rfl
  · obtain ⟨ht, hk⟩ := tokens_expandHomeTilde hhome hvalue
    have hsame : ∀ v : Text, validateLogPath name field shepHome (some v) = .ok () ↔
        validateTemplate name field shepHome v = .ok () ∧ Template.holdsSecret v = false := by
      intro v
      rw [validateLogPath, allOk_eq_ok]
      simp [refuseIf_eq_ok]
    rw [hsame, validateTemplate_eq_ok, Template.holdsSecret, Template.holdsToken_eq] at hok ⊢
    rwa [ht, hk]

theorem expandHomeTilde_ne_nil (hhome : HomeOk home) (h : expandHomeTilde value home = .ok path)
    (hne : value ≠ []) : path ≠ [] := by
  rcases expandHomeTilde_cases hhome h with ⟨rfl, -⟩ | ⟨hhead, -⟩
  · exact hne
  · rintro rfl
    cases hhead

theorem dedupTargets_again {seen targets found : List Text}
    (h : dedupTargets name seen targets = .ok found) :
    dedupTargets name seen found = .ok found := by
  induction targets generalizing seen found with
  | nil =>
    obtain rfl : [] = found := Except.ok.inj h
    rfl
  | cons target targets ih =>
    simp only [dedupTargets] at h
    split at h
    · cases h
    · next hself =>
      split at h
      · cases h
      · next hcolon =>
        split at h
        · exact ih h
        · next hnew =>
          cases hrest : dedupTargets name (target :: seen) targets with
          | error err => simp [hrest, Except.map] at h
          | ok rest =>
            obtain rfl : target :: rest = found := by simpa [hrest, Except.map] using h
            simp only [dedupTargets, if_neg hself, if_neg hcolon, if_neg hnew, ih hrest, Except.map]

/-! ## The whole -/

theorem expandPaths_eq_ok : expandPaths app home = .ok app' ↔
    ∃ script cwd outFile errFile, expandHomeTilde app.script home = .ok script ∧
      expandSlot app.cwd home app.name "cwd" = .ok cwd ∧
      expandSlot app.outFile home app.name "out_file" = .ok outFile ∧
      expandSlot app.errFile home app.name "err_file" = .ok errFile ∧
      app' = { app with script := script, cwd := cwd, outFile := outFile, errFile := errFile } := by
  unfold expandPaths
  simp only [← expandTilde_eq_ok app.name "script"]
  cases expandTilde app.script home app.name "script" <;>
    cases expandSlot app.cwd home app.name "cwd" <;>
    cases expandSlot app.outFile home app.name "out_file" <;>
    cases expandSlot app.errFile home app.name "err_file" <;>
    simp [bind, Except.bind, pure, Except.pure, eq_comm]

/-- The config `normalizeWithHome` answers with, and why it has. -/
theorem normalizeWithHome_eq_ok : normalizeWithHome g home shepHome app = .ok app' ↔
    checkWritten shepHome app = .ok () ∧ ∃ expanded, expandPaths app home = .ok expanded ∧
      checkExpanded g shepHome expanded = .ok () ∧
      ∃ dependsOn, dedupTargets expanded.name [] expanded.dependsOn = .ok dependsOn ∧
        app' = { expanded with dependsOn := dependsOn } := by
  unfold normalizeWithHome
  cases checkWritten shepHome app with
  | error err => simp [bind, Except.bind]
  | ok u =>
    cases hexpanded : expandPaths app home with
    | error err => simp [bind, Except.bind]
    | ok expanded =>
      cases hchecked : checkExpanded g shepHome expanded with
      | error err => simp [bind, Except.bind, hchecked]
      | ok u =>
        cases hdedup : dedupTargets expanded.name [] expanded.dependsOn with
        | error err => simp [bind, Except.bind, hchecked, hdedup]
        | ok dependsOn =>
          simp [bind, Except.bind, pure, Except.pure, hchecked, hdedup, eq_comm]

/-- **Normalizing is idempotent.** -/
theorem normalizeWithHome_again (hhome : HomeOk home)
    (h : normalizeWithHome g home shepHome app = .ok app') :
    normalizeWithHome g home shepHome app' = .ok app' := by
  obtain ⟨hwritten, expanded, hexpanded, hchecked, dependsOn, hdedup, rfl⟩ :=
    normalizeWithHome_eq_ok.1 h
  obtain ⟨script, cwd, outFile, errFile, hscript, hcwd, hout, herr, rfl⟩ :=
    expandPaths_eq_ok.1 hexpanded
  refine normalizeWithHome_eq_ok.2 ⟨?_, { app with
    script := script, cwd := cwd, outFile := outFile, errFile := errFile, dependsOn := dependsOn },
    ?_, hchecked, dependsOn, dedupTargets_again hdedup, rfl⟩
  · rw [checkWritten, allOk_eq_ok] at hwritten ⊢
    simp only [List.forall_mem_cons] at hwritten ⊢
    obtain ⟨hname, hsandbox, henvironment, hreserved, henv, hargs, ho, he, hs, hnil⟩ := hwritten
    refine ⟨hname, hsandbox, henvironment, hreserved, henv, hargs,
      validateLogPath_expanded hhome hout ho, validateLogPath_expanded hhome herr he, ?_, hnil⟩
    rw [refuseIf_eq_ok] at hs ⊢
    simpa using expandHomeTilde_ne_nil hhome hscript (by simpa using hs)
  · exact expandPaths_eq_ok.2 ⟨script, cwd, outFile, errFile,
      expandHomeTilde_again hhome hscript, expandSlot_again hhome hcwd,
      expandSlot_again hhome hout, expandSlot_again hhome herr, rfl⟩

end Normalize

end Shep
