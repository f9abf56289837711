import Shep.Template.Model

/-!
# Template — the grammar of a walk

`Scans` is what a walk does with a value, one rule for each branch of its
loop and without the loop's count: the proofs about a pass go by induction
on it. `scans` says that the walk is one. Nothing of a pattern starts inside
a literal run (`Apart`), and a reference is read back from what it is
spelled as.
-/

namespace Shep

namespace Template

open Secrets (SecretRef)

variable {value run rest after token v : Text} {segs : List Segment} {k : Completion} {c : Char}

/-! ## Where a walk stops -/

/-- One of the two escapes stands here. -/
def Escapes (text : Text) : Prop :=
  openBraces ++ openBraces <+: text ∨ closeBraces ++ closeBraces <+: text

/-- An escape or a token begins here. -/
def Opens (text : Text) : Prop := Escapes text ∨ openBraces <+: text

theorem findClose_eq_some (h : findClose v = some (token, after)) :
    v = token ++ closeBraces ++ after := by
  induction v generalizing token with
  | nil => cases h
  | cons c v ih =>
    unfold findClose at h
    split at h
    · next hclose =>
      obtain ⟨rfl, rfl⟩ := Prod.mk.inj (Option.some.inj h)
      obtain ⟨rest, hrest⟩ := List.isPrefixOf_iff_prefix.1 hclose
      simp only [closeBraces, List.cons_append, List.nil_append, List.cons.injEq] at hrest
      obtain ⟨rfl, rfl⟩ := hrest
      rfl
    · obtain ⟨⟨before, behind⟩, hfound, heq⟩ := Option.map_eq_some_iff.1 h
      obtain ⟨rfl, rfl⟩ := Prod.mk.inj heq
      rw [ih hfound]
      rfl

/-- What a walk makes of a value, in a literal run and with the rest of the
value ahead. -/
inductive Scans : Text → Text → List Segment → Completion → Prop
  | done (run : Text) : Scans run [] [.literal run] .complete
  | plain {run rest : Text} {segs : List Segment} {k : Completion} {c : Char} :
      ¬ Opens (c :: rest) → Scans (run ++ [c]) rest segs k → Scans run (c :: rest) segs k
  | escape {run rest braces : Text} {segs : List Segment} {k : Completion} :
      braces = openBraces ∨ braces = closeBraces → Scans [] rest segs k →
      Scans run (braces ++ braces ++ rest) (.literal run :: .literal braces :: segs) k
  | token {run after token : Text} {segs : List Segment} {k : Completion} :
      ¬ Escapes (braced token ++ after) →
      findClose (token ++ closeBraces ++ after) = some (token, after) → Scans [] after segs k →
      Scans run (braced token ++ after) (.literal run :: .token token :: segs) k
  | unclosed {run rest : Text} : ¬ Escapes (openBraces ++ rest) → findClose rest = none →
      Scans run (openBraces ++ rest) [.literal run] .unclosed

theorem scans_segmentsFrom (fuel : ℕ) (run rest : Text) (h : rest.length ≤ fuel) :
    Scans run rest (segmentsFrom fuel run rest).1 (segmentsFrom fuel run rest).2 := by
  induction fuel generalizing run rest with
  | zero =>
    obtain rfl := List.length_eq_zero_iff.1 (Nat.le_zero.1 h)
    unfold segmentsFrom
    rw [List.append_nil]
    exact .done run
  | succ fuel ih =>
    unfold segmentsFrom
    split
    · next hopen =>
      obtain ⟨rest, rfl⟩ := List.isPrefixOf_iff_prefix.1 hopen
      exact .escape (Or.inl rfl) (ih [] rest (by simp [openBraces] at h; omega))
    · next hopen =>
      split
      · next hclose =>
        obtain ⟨rest, rfl⟩ := List.isPrefixOf_iff_prefix.1 hclose
        exact .escape (Or.inr rfl) (ih [] rest (by simp [closeBraces] at h; omega))
      · next hclose =>
        have hesc : ¬ Escapes rest := by
          rintro (he | he)
          · exact hopen (List.isPrefixOf_iff_prefix.2 he)
          · exact hclose (List.isPrefixOf_iff_prefix.2 he)
        split
        · next htoken =>
          obtain ⟨rest, rfl⟩ := List.isPrefixOf_iff_prefix.1 htoken
          rw [List.drop_left' (by rfl)]
          split
          · next hnone => exact .unclosed hesc hnone
          · next token after hfound =>
            have hrest := findClose_eq_some hfound
            subst hrest
            have hshape : openBraces ++ (token ++ closeBraces ++ after) = braced token ++ after := by
              simp [braced]
            rw [hshape] at hesc ⊢
            refine .token hesc hfound (ih [] after ?_)
            simp only [List.length_append] at h
            simp only [openBraces, List.length_cons, List.length_nil] at h
            omega
        · next htoken =>
          cases rest with
          | nil => exact .done run
          | cons c rest =>
            refine .plain ?_ (ih _ rest (by simpa using h))
            rintro (he | he)
            · exact hesc he
            · exact htoken (List.isPrefixOf_iff_prefix.2 he)

/-- **A walk is a scan of its value.** -/
theorem scans (value : Text) : Scans [] value (segments value).1 (segments value).2 :=
  scans_segmentsFrom value.length [] value le_rfl

/-! ## Tokens -/

/-- The name of a token. -/
def Segment.name? : Segment → Option Text
  | .literal _ => none
  | .token name => some name

/-- The tokens a walk yields, in its order. -/
def tokens (value : Text) : List Text := (segments value).1.filterMap Segment.name?

/-- The run a walk is in is only handed over. -/
theorem segmentsFrom_run (fuel : ℕ) (run rest : Text) :
    (segmentsFrom fuel run rest).1.filterMap Segment.name? =
      (segmentsFrom fuel [] rest).1.filterMap Segment.name? ∧
    (segmentsFrom fuel run rest).2 = (segmentsFrom fuel [] rest).2 := by
  induction fuel generalizing run rest with
  | zero => exact ⟨rfl, rfl⟩
  | succ fuel ih =>
    unfold segmentsFrom
    split
    · exact ⟨rfl, rfl⟩
    · split
      · exact ⟨rfl, rfl⟩
      · split
        · split <;> exact ⟨rfl, rfl⟩
        · split
          · exact ⟨rfl, rfl⟩
          · next c rest _ _ _ =>
            obtain ⟨ht, hk⟩ := ih (run ++ [c]) rest
            obtain ⟨ht', hk'⟩ := ih ([] ++ [c]) rest
            exact ⟨ht.trans ht'.symm, hk.trans hk'.symm⟩

theorem tokens_cons (h : c ≠ '{' ∧ c ≠ '}') :
    tokens (c :: v) = tokens v ∧ (segments (c :: v)).2 = (segments v).2 := by
  have hno : ∀ (b : Char) (p : Text), b = '{' ∨ b = '}' → (b :: p).isPrefixOf (c :: v) = false := by
    rintro b p (rfl | rfl)
    · simp [List.isPrefixOf, Ne.symm h.1]
    · simp [List.isPrefixOf, Ne.symm h.2]
  have hstep : segments (c :: v) = segmentsFrom v.length [c] v := by
    unfold segments
    rw [List.length_cons]
    conv_lhs => unfold segmentsFrom
    simp [openBraces, closeBraces, hno]
  unfold tokens
  rw [hstep]
  exact segmentsFrom_run v.length [c] v

theorem tokens_append {front : Text} (h : ∀ c ∈ front, c ≠ '{' ∧ c ≠ '}') :
    tokens (front ++ v) = tokens v ∧ (segments (front ++ v)).2 = (segments v).2 := by
  induction front with
  | nil => exact ⟨rfl, rfl⟩
  | cons c front ih =>
    obtain ⟨ht, hk⟩ := ih fun c hc => h c (List.mem_cons_of_mem _ hc)
    obtain ⟨ht', hk'⟩ := tokens_cons (v := front ++ v) (h c List.mem_cons_self)
    exact ⟨ht'.trans ht, hk'.trans hk⟩

/-! ## Runs -/

/-- Nothing of a pattern begins inside the run. -/
def Apart (run rest : Text) : Prop := ∀ a b, run = a ++ b → b ≠ [] → ¬ Opens (b ++ rest)

theorem apart_nil : Apart [] rest := by
  intro a b h hb
  exact absurd (List.append_eq_nil_iff.1 h.symm).2 hb

theorem Apart.snoc (h : Apart run (c :: rest)) (hc : ¬ Opens (c :: rest)) :
    Apart (run ++ [c]) rest := by
  intro a b hab hb
  rcases List.eq_nil_or_concat b with rfl | ⟨front, last, rfl⟩
  · exact absurd rfl hb
  rw [List.concat_eq_append, ← List.append_assoc] at hab
  obtain ⟨hrun, hlast⟩ := List.append_inj' hab rfl
  obtain rfl := (List.cons.inj hlast).1
  rw [List.concat_eq_append, List.append_assoc]
  by_cases hfront : front = []
  · rw [hfront]
    exact hc
  · exact h a front hrun hfront

theorem Apart.isEscape (h : Apart run rest) : isEscape run (run ++ rest) = false := by
  unfold Template.isEscape
  by_contra hesc
  rw [Bool.not_eq_false, Bool.and_eq_true, Bool.or_eq_true, beq_iff_eq, beq_iff_eq,
    List.isPrefixOf_iff_prefix] at hesc
  obtain ⟨hrun | hrun, hprefix⟩ := hesc
  · refine h [] run rfl (by simp [hrun, openBraces]) (Or.inr ?_)
    rw [hrun]
    exact List.prefix_append _ _
  · refine h [] run rfl (by simp [hrun, closeBraces]) (Or.inl (Or.inr ?_))
    rw [hrun] at hprefix ⊢
    exact hprefix

/-! ## References -/

theorem span_slash {body ns key : Text} (h : body.span (· != '/') = (ns, key)) :
    body = ns ++ key ∧ ∀ c, key.head? = some c → c = '/' := by
  rw [List.span_eq_takeWhile_dropWhile] at h
  obtain ⟨rfl, rfl⟩ := Prod.mk.inj h
  refine ⟨List.takeWhile_append_dropWhile.symm, fun c hc => ?_⟩
  have := List.head?_dropWhile_not (· != '/') body
  rw [hc] at this
  simpa using this

theorem parseRef_eq_some {r : SecretRef} (h : parseRef v = some r) :
    spelled r = v ∧ parseRef (spelled r) = some r := by
  suffices hs : spelled r = v from ⟨hs, hs ▸ h⟩
  unfold parseRef at h
  split at h
  · next key hspan =>
    obtain ⟨hv, -⟩ := span_slash hspan
    split at h
    · obtain rfl := Option.some.inj h
      simpa [spelled] using hv.symm
    · cases h
  · next ns c key hspan =>
    obtain ⟨hv, hc⟩ := span_slash hspan
    split at h
    · obtain rfl := Option.some.inj h
      rw [hv, hc c rfl]
      simp [spelled]
    · cases h

theorem shown_of_secretReference {r : SecretRef} (h : secretReference token = some r) :
    shown r = braced token ∧ parseRef (spelled r) = some r := by
  unfold secretReference at h
  split at h
  · next hprefix =>
    obtain ⟨body, rfl⟩ := List.isPrefixOf_iff_prefix.1 hprefix
    rw [List.drop_left] at h
    obtain ⟨hs, hparse⟩ := parseRef_eq_some h
    exact ⟨by rw [shown, hs], hparse⟩
  · cases h

end Template

end Shep
