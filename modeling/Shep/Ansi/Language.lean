import Mathlib.Data.List.DropRight
import Shep.Ansi.Lines

/-!
# Ansi — the language of the output

What one byte can add is said once (`step_cases`): nothing, the byte, or a
newline of the filter's own before either, and that only on a line with a
byte that shows. The rest is read off it.
-/

namespace Shep

namespace Ansi

open Utf8 Filter

/-- What a log line may hold: no control character but tab and newline. -/
def IsPlain (b : UInt8) : Prop :=
  b ≠ esc ∧ b ≠ carriageReturn ∧ b ≠ 0x7f ∧ (b < 0x20 → b = 0x09 ∨ b = newline)

instance (b : UInt8) : Decidable (IsPlain b) := inferInstanceAs (Decidable (_ ∧ _))

theorem isPlain_newline : IsPlain newline := by decide

theorem isPlain_iff {b : UInt8} :
    IsPlain b ↔ b ≠ carriageReturn ∧ b ≠ esc ∧ drawsNothing b = false := by
  have hb := b.toNat_lt
  simp only [IsPlain, drawsNothing, carriageReturn, esc, newline, Bool.or_eq_false_iff,
    Bool.and_eq_false_iff, decide_eq_false_iff_not, beq_eq_false_iff_ne, ne_eq,
    UInt8.le_iff_toNat_le, UInt8.lt_iff_toNat_lt, ← UInt8.toNat_inj]
  simp only [UInt8.reduceToNat]
  omega

/-! ## One byte -/

namespace Filter

theorem settleCr_cases (f : Filter) :
    f.settleCr.1 = [] ∧ f.settleCr.2.lineHasText = f.lineHasText ∨
      f.lineHasText = true ∧ f.settleCr.1 = [newline] ∧ f.settleCr.2.lineHasText = false := by
  unfold settleCr breakLine
  grind

/-- What one byte adds to a line that has text, or has none. -/
inductive Adds (hasText : Bool) (byte : UInt8) : List UInt8 × Filter → Prop
  | nothing {f : Filter} (same : f.lineHasText = hasText) : Adds hasText byte ([], f)
  | given {f : Filter} (is : byte = newline) (none : f.lineHasText = false) :
      Adds hasText byte ([newline], f)
  | ends {f : Filter} (ne : byte ≠ newline) (text : hasText = true)
      (none : f.lineHasText = false) : Adds hasText byte ([newline], f)
  | draws {f : Filter} (plain : IsPlain byte) (ne : byte ≠ newline)
      (shown : f.lineHasText = (hasText || shows byte)) : Adds hasText byte ([byte], f)
  | both {f : Filter} (plain : IsPlain byte) (ne : byte ≠ newline) (text : hasText = true)
      (shown : f.lineHasText = shows byte) : Adds hasText byte ([newline, byte], f)

theorem ground_adds (f : Filter) (byte : UInt8) : Adds f.lineHasText byte (f.ground byte) := by
  unfold ground
  split
  · exact .nothing rfl
  split
  · next hnl => exact .given hnl rfl
  split
  · next hne hesc =>
    rcases f.settleCr_cases with ⟨hnone, hsame⟩ | ⟨htext, hone, hnot⟩
    · rw [hnone]
      exact .nothing hsame
    · rw [hone]
      exact .ends hne htext hnot
  split
  · exact .nothing rfl
  · next hcr hne hesc hdraws =>
    have hplain : IsPlain byte := isPlain_iff.2 ⟨hcr, hesc, by simpa using hdraws⟩
    rcases f.settleCr_cases with ⟨hnone, hsame⟩ | ⟨htext, hone, hnot⟩
    · rw [hnone]
      refine .draws hplain hne ?_
      split <;> simp_all
    · rw [hone]
      refine .both hplain hne htext ?_
      split <;> simp_all

theorem escape_adds (f : Filter) (byte : UInt8) : Adds f.lineHasText byte (f.escape byte) := by
  unfold escape
  repeat' split
  all_goals first
    | exact .nothing rfl
    | exact ground_adds { f with state := .ground } byte

theorem moves_adds (f : Filter) {byte : UInt8} (hne : byte ≠ newline) :
    Adds f.lineHasText byte
      (f.settleCr.1 ++ f.settleCr.2.breakLine.1, f.settleCr.2.breakLine.2) := by
  rcases f.settleCr_cases with ⟨hnone, hsame⟩ | ⟨htext, hone, hnot⟩
  · rw [hnone, List.nil_append, breakLine, hsame]
    split
    · next htext => exact .ends hne htext rfl
    · exact .nothing hsame
  · rw [hone, breakLine, hnot]
    exact .ends hne htext hnot

/-- Every byte, in every state. -/
theorem step_adds (f : Filter) (byte : UInt8) : Adds f.lineHasText byte (f.step byte) := by
  -- in each state, what falls through is ruled on as plain text
  have hground : Adds f.lineHasText byte ({ f with state := .ground }.ground byte) :=
    ground_adds { f with state := .ground } byte
  unfold step
  split
  · exact ground_adds f byte
  · exact escape_adds f byte
  · split
    · exact .nothing rfl
    split
    · exact .nothing rfl
    · exact hground
  · split
    · exact .nothing rfl
    split
    · next hfinal =>
      have hne : byte ≠ newline := by
        rintro rfl
        exact absurd hfinal.1 (by decide)
      dsimp only
      split
      · exact moves_adds { f with state := .ground } hne
      · exact .nothing rfl
    split
    · exact .nothing rfl
    · exact hground
  · split
    · exact .nothing rfl
    split
    · exact .nothing rfl
    split
    · exact hground
    · exact .nothing rfl
  · split
    · exact .nothing rfl
    · exact escape_adds { f with state := .escape } byte

end Filter

/-! ## The line being written -/

/-- The bytes after the last newline. -/
def lastLine (text : List UInt8) : List UInt8 := text.rtakeWhile (· != newline)

/-- The last line has a byte that shows. -/
def Shows (text : List UInt8) : Prop := ∃ b ∈ lastLine text, shows b = true

theorem lastLine_newline (text : List UInt8) : lastLine (text ++ [newline]) = [] := by
  simp [lastLine]

theorem lastLine_snoc (text : List UInt8) {b : UInt8} (hb : b ≠ newline) :
    lastLine (text ++ [b]) = lastLine text ++ [b] := by
  simp [lastLine, hb]

theorem lastLine_split (text : List UInt8) : newline ∉ lastLine text ∧
    (text = lastLine text ∨ ∃ before, text = before ++ newline :: lastLine text) := by
  induction text using List.reverseRecOn with
  | nil => simp [lastLine]
  | append_singleton text b ih =>
    by_cases hb : b = newline
    · subst hb
      rw [lastLine_newline]
      exact ⟨by simp, .inr ⟨text, rfl⟩⟩
    · rw [lastLine_snoc _ hb]
      obtain ⟨hout, hsplit⟩ := ih
      refine ⟨by simp [hout, Ne.symm hb], hsplit.imp (fun hall => ?_) fun ⟨before, hbefore⟩ => ?_⟩
      · rw [← hall]
      · refine ⟨before, ?_⟩
        conv_lhs => rw [hbefore]
        simp

theorem lastLine_append {before line : List UInt8} (hline : newline ∉ line) :
    lastLine (before ++ newline :: line) = line := by
  induction line using List.reverseRecOn with
  | nil => exact lastLine_newline before
  | append_singleton line b ih =>
    simp only [List.mem_append, List.mem_singleton, not_or] at hline
    have hsnoc := lastLine_snoc (before ++ newline :: line) (Ne.symm hline.2)
    rw [ih hline.1] at hsnoc
    simpa using hsnoc

theorem lastLine_self {line : List UInt8} (hline : newline ∉ line) : lastLine line = line := by
  induction line using List.reverseRecOn with
  | nil => rfl
  | append_singleton line b ih =>
    simp only [List.mem_append, List.mem_singleton, not_or] at hline
    rw [lastLine_snoc _ (Ne.symm hline.2), ih hline.1]

theorem lastLine_lossy (text : List UInt8) : lastLine (lossy text) = lossy (lastLine text) := by
  obtain ⟨hout, hsplit⟩ := lastLine_split text
  have hnone : newline ∉ lossy (lastLine text) := fun hin =>
    hout (mem_of_mem_lossy hin (by decide))
  rcases hsplit with hall | ⟨before, hbefore⟩
  · rw [← hall] at hnone ⊢
    exact lastLine_self hnone
  · conv_lhs => rw [hbefore, lossy_ascii (by decide)]
    exact lastLine_append hnone

theorem Shows.lossy {text : List UInt8} (h : Shows text) : Shows (lossy text) := by
  obtain ⟨b, hb, hshows⟩ := h
  rw [Shows, lastLine_lossy]
  by_cases hlow : b < 0x80
  · obtain ⟨before, after, hsplit⟩ := List.append_of_mem hb
    exact ⟨b, by simp [hsplit, lossy_ascii hlow], hshows⟩
  · by_contra hnone
    have hall : ∀ x ∈ Utf8.lossy (lastLine text), x < 0x80 := by
      intro x hx
      by_contra hhigh
      refine hnone ⟨x, hx, ?_⟩
      simp only [shows, bne_iff_ne, Bool.and_eq_true]
      constructor <;> rintro rfl <;> exact hhigh (by decide)
    exact hlow ((decode_low Held.sound_empty hall).2 b hb)

/-! ## All the bytes -/

namespace Filter

theorem feed_snoc (f : Filter) (bytes : List UInt8) (byte : UInt8) :
    f.feed (bytes ++ [byte]) = ((f.feed bytes).1 ++ ((f.feed bytes).2.step byte).1,
      ((f.feed bytes).2.step byte).2) := by
  simp [Filter.feed_append, Filter.feed]

theorem feed_plain (f : Filter) (bytes : List UInt8) : ∀ b ∈ (f.feed bytes).1, IsPlain b := by
  induction bytes generalizing f with
  | nil => simp [Filter.feed]
  | cons byte bytes ih =>
    intro b hb
    rcases List.mem_append.1 hb with hb | hb
    · have hadds := f.step_adds byte
      generalize f.step byte = out at hadds hb
      cases hadds with
      | nothing => cases hb
      | given | ends => exact List.mem_singleton.1 hb ▸ isPlain_newline
      | draws hplain => rwa [List.mem_singleton.1 hb]
      | both hplain =>
        rcases List.mem_cons.1 hb with rfl | hb
        · exact isPlain_newline
        · rwa [List.mem_singleton.1 hb]
    · exact ih _ b hb

/-- The filter has text on its line only where a byte on it shows. -/
theorem feed_shows (bytes : List UInt8) (h : (Filter.feed {} bytes).2.lineHasText = true) :
    Shows (Filter.feed {} bytes).1 := by
  induction bytes using List.reverseRecOn with
  | nil => cases h
  | append_singleton bytes byte ih =>
    rw [feed_snoc] at h ⊢
    have hadds := (Filter.feed {} bytes).2.step_adds byte
    generalize (Filter.feed {} bytes).2.step byte = out at hadds h
    cases hadds with
    | nothing hsame =>
      rw [List.append_nil]
      exact ih (hsame ▸ h)
    | given _ hnone | ends _ _ hnone => exact absurd (hnone ▸ h) (by decide)
    | draws hplain hne hshown =>
      rw [Shows, lastLine_snoc _ hne]
      rcases Bool.or_eq_true_iff.1 (hshown ▸ h) with hold | hnew
      · obtain ⟨b, hb, hshows⟩ := ih hold
        exact ⟨b, List.mem_append_left _ hb, hshows⟩
      · exact ⟨byte, by simp, hnew⟩
    | both hplain hne _ hshown =>
      rw [Shows, ← List.singleton_append, ← List.append_assoc, lastLine_snoc _ hne]
      exact ⟨byte, by simp, hshown ▸ h⟩

theorem feed_self {f : Filter} (hstate : f.state = .ground) (hcr : f.crPending = false)
    {bytes : List UInt8} (hplain : ∀ b ∈ bytes, IsPlain b) :
    (f.feed bytes).1 = bytes ∧ (f.feed bytes).2.crPending = false := by
  induction bytes generalizing f with
  | nil => exact ⟨rfl, hcr⟩
  | cons byte bytes ih =>
    obtain ⟨hcr', hesc, hdraws⟩ := isPlain_iff.1 (hplain byte List.mem_cons_self)
    have hone : (f.step byte).1 = [byte] ∧ (f.step byte).2.state = .ground ∧
        (f.step byte).2.crPending = false := by
      simp only [step, hstate, ground, hcr', hesc, hdraws, settleCr, hcr]
      grind
    obtain ⟨hout, hstate', hcr''⟩ := hone
    obtain ⟨hrest, hlast⟩ := ih hstate' hcr'' fun b hb => hplain b (List.mem_cons_of_mem _ hb)
    rw [Filter.feed, hout, hrest]
    exact ⟨rfl, hlast⟩

end Filter

/-! ## The output -/

/-- The text is what came of the first bytes, and then a newline behind a byte
that shows on its line, and so on. -/
def EndsLine (before text : List UInt8) : Prop :=
  lossy before ++ [newline] <+: text ∧ Shows (lossy before)

/-- Each newline of the filter's own ends a line with a byte that shows: one
that a byte other than a newline adds, and one that the end of the file
adds. -/
def OwnNewlines (bytes text : List UInt8) : Prop :=
  (∀ before byte after, bytes = before ++ byte :: after → byte ≠ newline →
      newline ∈ ((Filter.feed {} before).2.step byte).1 → EndsLine (Filter.feed {} before).1 text) ∧
    (newline ∈ (Filter.feed {} bytes).2.settleCr.1 → EndsLine (Filter.feed {} bytes).1 text)

theorem filtered_plain (bytes : List UInt8) : ∀ b ∈ filtered bytes, IsPlain b := by
  intro b hb
  have hreplaced : ∀ x ∈ replacement, IsPlain x := by decide +kernel
  rcases decode_mem hb with hb | hb | hb
  · cases hb
  · rcases List.mem_append.1 hb with hb | hb
    · exact feed_plain {} bytes b hb
    · rcases (Filter.feed {} bytes).2.settleCr_cases with ⟨hnone, -⟩ | ⟨-, hone, -⟩
      · rw [hnone] at hb
        cases hb
      · rw [hone] at hb
        exact List.mem_singleton.1 hb ▸ isPlain_newline
  · exact hreplaced b hb

theorem filtered_self {bytes : List UInt8} (hvalid : Valid bytes) (hplain : ∀ b ∈ bytes, IsPlain b) :
    filtered bytes = bytes := by
  obtain ⟨hfeed, hcr⟩ := feed_self (f := {}) rfl rfl hplain
  rw [filtered, plain, settleCr, hcr, hfeed]
  simpa using hvalid.lossy

theorem endsLine {before : List UInt8} (htext : (Filter.feed {} before).2.lineHasText = true)
    {text after : List UInt8}
    (hsplit : text = lossy ((Filter.feed {} before).1 ++ newline :: after)) :
    EndsLine (Filter.feed {} before).1 text := by
  refine ⟨?_, (feed_shows before htext).lossy⟩
  rw [hsplit, lossy_ascii (by decide)]
  exact ⟨lossy after, by simp⟩

theorem filtered_ownNewlines (bytes : List UInt8) : OwnNewlines bytes (filtered bytes) := by
  refine ⟨fun before byte after hbytes hne hin => ?_, fun hin => ?_⟩
  · have hsplit : filtered bytes = lossy ((Filter.feed {} before).1 ++
        (((Filter.feed {} before).2.step byte).1 ++
          ((((Filter.feed {} before).2.step byte).2.feed after).1 ++
            (Filter.feed {} bytes).2.settleCr.1))) := by
      rw [filtered, plain]
      conv_lhs =>
        rw [show (Filter.feed {} bytes).1 = (Filter.feed {} (before ++ byte :: after)).1 by rw [hbytes]]
      rw [Filter.feed_append, Filter.feed]
      simp only [List.append_assoc]
    have hadds := (Filter.feed {} before).2.step_adds byte
    generalize (Filter.feed {} before).2.step byte = out at hadds hin hsplit
    cases hadds with
    | nothing => cases hin
    | given heq => exact absurd heq hne
    | ends _ htext | both _ _ htext => exact endsLine htext hsplit
    | draws => exact absurd (List.mem_singleton.1 hin).symm hne
  · rcases (Filter.feed {} bytes).2.settleCr_cases with ⟨hnone, -⟩ | ⟨htext, hone, -⟩
    · rw [hnone] at hin
      cases hin
    · have hsplit : filtered bytes = lossy ((Filter.feed {} bytes).1 ++ newline :: []) := by
        rw [filtered, plain, hone]
      exact endsLine htext hsplit

/-- **The language of the output.** All that is handed out up to the end of
the file is well formed and plain; a newline of the filter's own ends a line
with a byte that shows; bytes that are well formed and plain come out as
they are; and so the output comes out of a second filter as it is. -/
theorem output_language {chunks : List (List UInt8)} (hne : ∀ chunk ∈ chunks, chunk ≠ [])
    {sizes : List ℕ} {text : List UInt8} (h : HandsOut chunks sizes text) :
    Valid text ∧ (∀ b ∈ text, IsPlain b) ∧ OwnNewlines chunks.flatten text ∧
      (Valid chunks.flatten → (∀ b ∈ chunks.flatten, IsPlain b) → text = chunks.flatten) ∧
      ∀ chunks' sizes' text', (∀ chunk ∈ chunks', chunk ≠ []) → chunks'.flatten = text →
        HandsOut chunks' sizes' text' → text' = text := by
  obtain rfl := h.filtered hne
  refine ⟨lossy_valid _, filtered_plain _, filtered_ownNewlines _, filtered_self, ?_⟩
  intro chunks' sizes' text' hne' hflatten h'
  rw [h'.filtered hne', hflatten]
  exact filtered_self (lossy_valid _) (filtered_plain _)

/-- A progress bar in red, cut inside its escape sequence. -/
def progress : List (List UInt8) :=
  [[0x1b, 0x5b, 0x33], [0x31, 0x6d, 0x31, 0x25, 0x0d], [0x32, 0x25, 0x0a]]

theorem output_language_progress : IsPlain 0x25 ∧
    Valid (AnsiLines.reads { inner := progress } [4, 4, 4]).1 := by
  have h : HandsOut progress [4, 4, 4] [0x31, 0x25, 0x0a, 0x32, 0x25, 0x0a] := by
    refine ⟨by decide +kernel, by decide +kernel⟩
  have hlanguage := output_language (by decide) h
  exact ⟨hlanguage.2.1 0x25 (by decide), h.2 ▸ hlanguage.1⟩

end Ansi

end Shep
