import Shep.Ansi.Model

/-!
# Ansi — what the filter hands out

`filtered` is what becomes of a byte sequence that is read in one piece:
the automaton over all of it, and the decoder over what that leaves.

**`reads_anywhere`**: however the bytes are cut into reads, and however much
the caller takes at a time, the text handed out is that.
**`output_language`**: it is well formed, has no control character but tab
and newline, has a newline of the filter's own only behind a byte that
shows, and is unchanged where the bytes were such a text already.
-/

namespace Shep

namespace Ansi

open Utf8

/-! ## In one piece -/

namespace Filter

theorem feed_append (f : Filter) (xs ys : List UInt8) :
    f.feed (xs ++ ys) = ((f.feed xs).1 ++ ((f.feed xs).2.feed ys).1, ((f.feed xs).2.feed ys).2) := by
  induction xs generalizing f with
  | nil => rfl
  | cons byte xs ih => simp [feed, ih]

/-- All that is left of a byte sequence, the pending `\r` settled at its
end. -/
def plain (bytes : List UInt8) : List UInt8 :=
  (Filter.feed {} bytes).1 ++ (Filter.feed {} bytes).2.settleCr.1

end Filter

open Filter

/-- The text of a byte sequence. -/
def filtered (bytes : List UInt8) : List UInt8 := lossy (plain bytes)

/-- The loop over the check is the decoder. -/
theorem decodeLoop_eq (last : Bool) (fuel : ℕ) (rest : List UInt8) (hfuel : rest.length < fuel) :
    decodeLoop last fuel rest =
      if last then (lossy rest, []) else ((Utf8.decode {} rest).1, (Utf8.decode {} rest).2.bytes) := by
  induction fuel generalizing rest with
  | zero => omega
  | succ fuel ih =>
    have hcases := fromUtf8_cases rest
    rw [decodeLoop]
    cases hcheck : fromUtf8 rest with
    | none =>
      rw [hcheck] at hcases
      simp only [Explains, List.nil_append] at hcases
      simp [lossy, hcases, Held.closed]
    | some error =>
      obtain ⟨validUpTo, errorLen⟩ := error
      rw [hcheck] at hcases
      cases errorLen with
      | none =>
        obtain ⟨valid, cut, s, hsplit, hn, hcut, hs, hdecode⟩ := hcases
        rw [List.nil_append] at hsplit
        rw [Nat.zero_add] at hn
        subst hsplit hn hs
        simp [lossy, hdecode, Held.closed, hcut]
      | some skip =>
        obtain ⟨valid, bad, more, hsplit, hn, hbad, hne, hdecode⟩ := hcases
        rw [List.nil_append] at hsplit
        rw [Nat.zero_add] at hn
        subst hsplit hn hbad
        have hpos : 0 < bad.length := List.length_pos_of_ne_nil hne
        have hless : more.length < fuel := by
          simp only [List.length_append] at hfuel
          omega
        simp only [List.drop_left, List.take_left, ih more hless]
        cases last <;> simp [lossy, hdecode]

/-! ## In several reads -/

namespace AnsiLines

/-- What a reader over `bytes` has come to, `out` handed out. -/
structure Keeps (bytes out : List UInt8) (a : AnsiLines) : Prop where
  sent : a.sent ≤ a.ready.length
  reads : ∀ read ∈ a.inner, read ≠ []
  reading : a.eof = false → ∃ seen, seen ++ a.inner.flatten = bytes ∧
    (Filter.feed {} seen).2 = a.filter ∧
    (Utf8.decode {} (Filter.feed {} seen).1).1 = out ++ a.ready.drop a.sent ∧
    (Utf8.decode {} (Filter.feed {} seen).1).2.bytes = a.carry
  ended : a.eof = true → out ++ a.ready.drop a.sent = filtered bytes

variable {bytes out : List UInt8} {a : AnsiLines}

theorem keeps_init {chunks : List (List UInt8)} (hne : ∀ chunk ∈ chunks, chunk ≠ []) :
    Keeps chunks.flatten [] { inner := chunks } where
  sent := le_refl _
  reads := hne
  reading := fun _ => ⟨[], rfl, rfl, rfl, rfl⟩
  ended := fun h => (by cases h)

theorem decode_carry {seen text : List UInt8} (hcarry : (Utf8.decode {} seen).2.bytes = a.carry) :
    Utf8.decode {} (a.carry ++ text) = Utf8.decode (Utf8.decode {} seen).2 text := by
  have hs := (decode_sound Held.sound_empty seen).2
  rw [← hcarry, decode_append, decode_held hs]
  rfl

/-- The read of the next bytes. -/
theorem Keeps.take (h : Keeps bytes out a) (hsent : a.sent = a.ready.length) (heof : a.eof = false)
    {read : List UInt8} {reads : List (List UInt8)} (hinner : a.inner = read :: reads) :
    Keeps bytes out { a.take read with inner := reads } := by
  have hread : read ≠ [] := h.reads read (by simp [hinner])
  obtain ⟨seen, hseen, hfilter, hout, hcarry⟩ := h.reading heof
  rw [hsent, List.drop_length, List.append_nil] at hout
  have hloop : decodeLoop false ((a.carry ++ (a.filter.feed read).1).length + 1)
      (a.carry ++ (a.filter.feed read).1) =
        ((Utf8.decode (Utf8.decode {} (Filter.feed {} seen).1).2 (a.filter.feed read).1).1,
          (Utf8.decode (Utf8.decode {} (Filter.feed {} seen).1).2 (a.filter.feed read).1).2.bytes) := by
    rw [decodeLoop_eq _ _ _ (Nat.lt_succ_self _), decode_carry hcarry]
    rfl
  rw [AnsiLines.take, if_neg hread]
  simp only [heof, decode]
  rw [hloop]
  refine ⟨Nat.zero_le _, fun r hr => h.reads r (by simp [hinner, hr]), fun _ => ?_,
    fun h' => (by simp at h')⟩
  refine ⟨seen ++ read, ?_, ?_, ?_, ?_⟩
  · rw [← hseen, hinner]
    simp
  · rw [Filter.feed_append, hfilter]
  · rw [Filter.feed_append, hfilter, decode_append, hout]
    rfl
  · rw [Filter.feed_append, hfilter, decode_append]

theorem Keeps.end (h : Keeps bytes out a) (hsent : a.sent = a.ready.length) (heof : a.eof = false)
    (hinner : a.inner = []) : Keeps bytes out (a.take []) := by
  obtain ⟨seen, hseen, hfilter, hout, hcarry⟩ := h.reading heof
  rw [hsent, List.drop_length, List.append_nil] at hout
  rw [hinner, List.flatten_nil, List.append_nil] at hseen
  subst hseen
  have hloop : decodeLoop true ((a.carry ++ a.filter.settleCr.1).length + 1)
      (a.carry ++ a.filter.settleCr.1) = (lossy (a.carry ++ a.filter.settleCr.1), []) := by
    rw [decodeLoop_eq _ _ _ (Nat.lt_succ_self _)]
    rfl
  rw [AnsiLines.take, if_pos rfl]
  simp only [decode]
  rw [hloop]
  refine ⟨Nat.zero_le _, fun r hr => h.reads r hr, fun h' => (by cases h'), fun _ => ?_⟩
  show out ++ (lossy (a.carry ++ a.filter.settleCr.1)).drop 0 = _
  rw [List.drop_zero, filtered, plain, hfilter, lossy, lossy, decode_carry hcarry, decode_append,
    hout, List.append_assoc]

theorem take_inner {read : List UInt8} {before after : List (List UInt8)} :
    { take read { a with inner := before } with inner := after } =
      { take read a with inner := after } := by
  unfold take
  split <;> rfl

/-- The rounds before something is handed out. -/
theorem Keeps.fill {reads : List (List UInt8)} (h : Keeps bytes out { a with inner := reads }) :
    Keeps bytes out (a.fill reads) ∧
      ((a.fill reads).sent = (a.fill reads).ready.length → (a.fill reads).eof = true) := by
  induction reads generalizing a with
  | nil =>
    rw [AnsiLines.fill]
    split
    · next hempty =>
      refine ⟨h.end hempty.1 hempty.2 rfl, fun _ => ?_⟩
      rw [AnsiLines.take, if_pos rfl]
      rfl
    · next hempty =>
      exact ⟨h, fun hsent => by simpa using not_and.1 hempty hsent⟩
  | cons read reads ih =>
    rw [AnsiLines.fill]
    split
    · next hempty =>
      refine ih ?_
      rw [← take_inner]
      exact h.take hempty.1 hempty.2 rfl
    · next hempty => exact ⟨h, fun hsent => by simpa using not_and.1 hempty hsent⟩

/-- A read of the caller's. -/
theorem Keeps.pollRead (h : Keeps bytes out a) (remaining : ℕ) :
    Keeps bytes (out ++ (a.pollRead remaining).1) (a.pollRead remaining).2 ∧
      (0 < remaining → (a.pollRead remaining).1 = [] → (a.pollRead remaining).2.Finished) := by
  have hsame : Keeps bytes out { a with inner := a.inner } := h
  obtain ⟨hkeeps, hfull⟩ := hsame.fill
  have hsent := hkeeps.sent
  rw [AnsiLines.pollRead]
  generalize a.fill a.inner = b at hkeeps hfull hsent
  -- what is handed out and what is still ready were ready before
  have hsplit : ∀ n, (b.ready.drop b.sent).take n ++ b.ready.drop (b.sent + n) =
      b.ready.drop b.sent := fun n => by rw [← List.drop_drop, List.take_append_drop]
  refine ⟨⟨?_, hkeeps.reads, fun heof => ?_, fun heof => ?_⟩, fun hpos hnone => ?_⟩
  · simp only [List.length_drop]
    omega
  · obtain ⟨seen, hseen, hfilter, hout, hcarry⟩ := hkeeps.reading heof
    refine ⟨seen, hseen, hfilter, ?_, hcarry⟩
    rw [hout, List.append_assoc, hsplit]
  · rw [← hkeeps.ended heof, List.append_assoc, hsplit]
  · have hall : b.sent = b.ready.length := by
      have hlen := congrArg List.length hnone
      simp only [List.length_take, List.length_drop, List.length_nil] at hlen
      omega
    refine ⟨hfull hall, ?_⟩
    simp only [List.length_drop]
    omega

theorem Finished.pollRead (h : a.Finished) (remaining : ℕ) :
    (a.pollRead remaining).1 = [] ∧ (a.pollRead remaining).2.Finished := by
  obtain ⟨heof, hsent⟩ := h
  have hfill : ∃ inner, a.fill a.inner = { a with inner } := by
    cases a.inner with
    | nil => exact ⟨[], by rw [AnsiLines.fill, if_neg (by simp [heof])]⟩
    | cons read reads => exact ⟨read :: reads, by rw [AnsiLines.fill, if_neg (by simp [heof])]⟩
  obtain ⟨inner, hfill⟩ := hfill
  rw [AnsiLines.pollRead, hfill]
  simp [hsent, Finished, heof]

theorem Keeps.readsAll (h : Keeps bytes out a) (sizes : List ℕ) :
    Keeps bytes (out ++ (a.reads sizes).1) (a.reads sizes).2 := by
  induction sizes generalizing a out with
  | nil => simpa [AnsiLines.reads] using h
  | cons remaining sizes ih =>
    have hnext := ih (h.pollRead remaining).1
    rw [List.append_assoc] at hnext
    exact hnext

theorem Finished.reads (h : a.Finished) (sizes : List ℕ) : (a.reads sizes).2.Finished := by
  induction sizes generalizing a with
  | nil => exact h
  | cons remaining sizes ih => exact ih (h.pollRead remaining).2

theorem Keeps.advances (h : Keeps bytes out a) {sizes : List ℕ} (hpos : ∀ n ∈ sizes, 0 < n) :
    (a.reads sizes).2.Finished ∨ sizes.length ≤ (a.reads sizes).1.length := by
  induction sizes generalizing a out with
  | nil => exact .inr (Nat.zero_le _)
  | cons remaining sizes ih =>
    obtain ⟨hnext, hend⟩ := h.pollRead remaining
    by_cases hnone : (a.pollRead remaining).1 = []
    · exact .inl (Finished.reads (hend (hpos _ List.mem_cons_self) hnone) sizes)
    · refine (ih hnext fun n hn => hpos n (List.mem_cons_of_mem _ hn)).imp_right fun hlen => ?_
      have hone : 0 < (a.pollRead remaining).1.length := List.length_pos_of_ne_nil hnone
      rw [AnsiLines.reads, List.length_append, List.length_cons]
      omega

/-- What is handed out is the beginning of the text, and all of it at the
end of the file. -/
theorem Keeps.isPrefix (h : Keeps bytes out a) :
    out <+: filtered bytes ∧ (a.Finished → out = filtered bytes) := by
  refine ⟨?_, fun ⟨heof, hsent⟩ => ?_⟩
  · cases heof : a.eof with
    | true => exact ⟨_, h.ended heof⟩
    | false =>
      obtain ⟨seen, hseen, -, hout, -⟩ := h.reading heof
      refine (List.prefix_append out (a.ready.drop a.sent)).trans ?_
      rw [← hout, filtered, plain, lossy, ← hseen, Filter.feed_append, List.append_assoc,
        decode_append]
      simp only [List.append_assoc]
      exact List.prefix_append _ _
  · have hall := h.ended heof
    rwa [hsent, List.drop_length, List.append_nil] at hall

end AnsiLines

/-- A reader over these reads hands out this text up to the end of the
file. -/
def HandsOut (chunks : List (List UInt8)) (sizes : List ℕ) (text : List UInt8) : Prop :=
  (AnsiLines.reads { inner := chunks } sizes).2.Finished ∧
    (AnsiLines.reads { inner := chunks } sizes).1 = text

theorem HandsOut.filtered {chunks : List (List UInt8)} {sizes : List ℕ} {text : List UInt8}
    (hne : ∀ chunk ∈ chunks, chunk ≠ []) (h : HandsOut chunks sizes text) :
    text = filtered chunks.flatten := by
  have hkeeps := (AnsiLines.keeps_init hne).readsAll sizes
  rw [List.nil_append] at hkeeps
  exact h.2.symm.trans (hkeeps.isPrefix.2 h.1)

/-- **Independence of read boundaries.** Two readers over one byte sequence,
cut into reads as each likes and asked for as much at a time as each likes,
hand out one text up to the end of the file; and a reader comes to it, once
it has been asked often enough for something. -/
theorem reads_anywhere {chunks chunks' : List (List UInt8)} (hne : ∀ chunk ∈ chunks, chunk ≠ [])
    (hne' : ∀ chunk ∈ chunks', chunk ≠ []) (hsame : chunks.flatten = chunks'.flatten) :
    (∀ sizes sizes' text text', HandsOut chunks sizes text → HandsOut chunks' sizes' text' →
      text = text') ∧
    ∃ enough, ∀ sizes : List ℕ, (∀ n ∈ sizes, 0 < n) → enough ≤ sizes.length →
      ∃ text, HandsOut chunks sizes text ∧ ∀ sizes' text', HandsOut chunks' sizes' text' →
        text = text' := by
  have hone : ∀ sizes sizes' text text', HandsOut chunks sizes text → HandsOut chunks' sizes' text' →
      text = text' := by
    intro sizes sizes' text text' h h'
    rw [h.filtered hne, h'.filtered hne', hsame]
  refine ⟨hone, (filtered chunks.flatten).length + 1, fun sizes hpos hlen => ?_⟩
  have hfinished : (AnsiLines.reads { inner := chunks } sizes).2.Finished := by
    refine ((AnsiLines.keeps_init hne).advances hpos).resolve_right fun hadvances => ?_
    have hkeeps := (AnsiLines.keeps_init hne).readsAll sizes
    rw [List.nil_append] at hkeeps
    have hbound := hkeeps.isPrefix.1.length_le
    omega
  exact ⟨_, ⟨hfinished, rfl⟩, fun sizes' text' h' => hone sizes sizes' _ text' ⟨hfinished, rfl⟩ h'⟩

/-- The euro sign, in one piece and in three. -/
theorem reads_anywhere_euro : HandsOut [[0xe2], [0x82], [0xac]] [2, 2, 2] [0xe2, 0x82, 0xac] := by
  have hbytes : [[0xe2, 0x82, 0xac]].flatten = [[0xe2], [0x82], [(0xac : UInt8)]].flatten := rfl
  have hsame := (reads_anywhere (by decide) (by decide) hbytes).1 [4, 4] [2, 2, 2] [0xe2, 0x82, 0xac]
  have hwhole : HandsOut [[0xe2, 0x82, 0xac]] [4, 4] [0xe2, 0x82, 0xac] :=
    ⟨by decide +kernel, by decide +kernel⟩
  have hcut : HandsOut [[0xe2], [0x82], [0xac]] [2, 2, 2]
      (AnsiLines.reads { inner := [[0xe2], [0x82], [0xac]] } [2, 2, 2]).1 := ⟨by decide +kernel, rfl⟩
  exact hsame _ hwhole hcut ▸ hcut

end Ansi

end Shep
