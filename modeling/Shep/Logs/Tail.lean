import Shep.Logs.Model

/-!
# Logs — what a tail answers

`tailOf` is the answer asked for: the last lines of the file, of those that
begin in the window, and whether any line of the file is not among them.
**`log_tail_exact`**: `read_tail` answers that, if and only if the file does
not end in a stamp and nothing behind it, or what is lost with that line
does not show. **`log_tail_short`** is a file of which it loses a line.
-/

namespace Shep

namespace Logs

open Utf8

/-! ## The stamp -/

theorem shape_low {byte marker : UInt8} (h : shape byte marker = true) (hm : marker < 0x80) :
    byte < 0x80 := by
  unfold shape at h
  split at h
  · simp only [Bool.and_eq_true, decide_eq_true_eq] at h
    exact UInt8.lt_of_le_of_lt h.2 (by decide)
  split at h
  · simp only [Bool.or_eq_true, beq_iff_eq] at h
    rcases h with rfl | rfl <;> decide
  · rwa [beq_iff_eq.1 h]

theorem zip_low {bytes markers : List UInt8} (hlen : bytes.length ≤ markers.length)
    (hm : ∀ marker ∈ markers, marker < 0x80)
    (h : (bytes.zip markers).all (fun e => shape e.1 e.2) = true) : ∀ byte ∈ bytes, byte < 0x80 := by
  induction bytes generalizing markers with
  | nil => simp
  | cons b bytes ih =>
    cases markers with
    | nil => simp at hlen
    | cons marker markers =>
      simp only [List.zip_cons_cons, List.all_cons, Bool.and_eq_true] at h
      intro byte hbyte
      rcases List.mem_cons.1 hbyte with rfl | hbyte
      · exact shape_low h.1 (hm marker List.mem_cons_self)
      · exact ih (Nat.le_of_succ_le_succ hlen) (fun m hin => hm m (List.mem_cons_of_mem _ hin)) h.2
          byte hbyte

/-- A line with the stamp's shape is a stamp, all below `0x80`, and more. -/
theorem exists_of_shaped {line : List UInt8} (h : shapedLikeAStamp line = true) :
    ∃ stamp rest, line = stamp ++ rest ∧ stamp.length = logStampBytes ∧
      ∀ byte ∈ stamp, byte < 0x80 := by
  unfold shapedLikeAStamp at h
  split at h
  · cases h
  · next hlen =>
    dsimp only at h
    split at h
    · next hall =>
      have hstamp : (line.take logStampBytes).length = logStampBytes := by
        rw [List.length_take]
        omega
      exact ⟨line.take logStampBytes, line.drop logStampBytes, (List.take_append_drop _ _).symm,
        hstamp, zip_low (by rw [hstamp]; decide) (by decide +kernel) hall⟩
    · cases h

theorem shaped_append {stamp : List UInt8} (hlen : stamp.length = logStampBytes) (rest : List UInt8) :
    shapedLikeAStamp (stamp ++ rest) = shapedLikeAStamp stamp := by
  have h : ¬ (stamp ++ rest).length < logStampBytes := by
    rw [List.length_append]
    omega
  have hself : ¬ stamp.length < logStampBytes := by omega
  rw [shapedLikeAStamp, shapedLikeAStamp, if_neg h, if_neg hself, List.take_left' hlen,
    List.take_of_length_le (Nat.le_of_eq hlen)]

/-- The line without its stamp, where it has one and is to lose it. -/
def unstamped (stamped : Bool) (line : List UInt8) : List UInt8 :=
  if stamped && shapedLikeAStamp line then lossy (line.drop logStampBytes) else lossy line

/-- `strip` sees the stamp of a line that has one, and no other. -/
theorem strip_lossy (line : List UInt8) : strip (lossy line) = unstamped true line := by
  rw [unstamped, Bool.true_and]
  by_cases hshaped : shapedLikeAStamp line = true
  · obtain ⟨stamp, rest, rfl, hlen, hlow⟩ := exists_of_shaped hshaped
    have hboundary : isCharBoundary (stamp ++ lossy rest) logStampBytes = true := by
      have hvalid := lossy_valid rest
      rw [isCharBoundary, ← hlen, List.getElem?_append_right (Nat.le_refl _), Nat.sub_self]
      cases hrest : lossy rest with
      | nil => simp
      | cons y ys =>
        rw [hrest] at hvalid
        have hhead := hvalid.head
        simp only [List.getElem?_cons_zero, Bool.not_eq_true', Bool.and_eq_false_iff,
          decide_eq_false_iff_not]
        exact Decidable.not_and_iff_or_not.1 hhead
    rw [if_pos hshaped, strip, lossy_low hlow, if_pos hboundary, List.take_left' hlen,
      List.drop_left' hlen, List.drop_left' hlen, if_pos]
    rwa [shaped_append hlen] at hshaped
  · rw [if_neg hshaped, strip]
    split
    · split
      · next hstamp =>
        exfalso
        obtain ⟨stamp, more, hsplit, hlen, hlow⟩ := exists_of_shaped hstamp
        have hall : lossy line = stamp ++ (more ++ (lossy line).drop logStampBytes) := by
          conv_lhs => rw [← List.take_append_drop logStampBytes (lossy line), hsplit]
          rw [List.append_assoc]
        obtain ⟨rest, rfl, -⟩ := lossy_append hlow hall
        rw [hsplit, shaped_append hlen] at hstamp
        exact hshaped (by rw [shaped_append hlen, hstamp])
      · rfl
    · rfl

/-- A stamp and nothing behind it. -/
def BareStamp (line : List UInt8) : Prop :=
  line.length = logStampBytes ∧ shapedLikeAStamp line = true

instance (line : List UInt8) : Decidable (BareStamp line) := inferInstanceAs (Decidable (_ ∧ _))

theorem unstamped_eq_nil {stamped : Bool} {line : List UInt8} :
    unstamped stamped line = [] ↔ line = [] ∨ stamped = true ∧ BareStamp line := by
  rw [unstamped]
  by_cases hshaped : (stamped && shapedLikeAStamp line) = true
  · obtain ⟨hstamped, hline⟩ := Bool.and_eq_true_iff.1 hshaped
    obtain ⟨stamp, rest, rfl, hlen, -⟩ := exists_of_shaped hline
    have hne : stamp ≠ [] := fun hnil => by simp [hnil, logStampBytes] at hlen
    rw [if_pos hshaped, List.drop_left' hlen, lossy_eq_nil, BareStamp, List.length_append]
    simp only [List.append_eq_nil_iff, hne, false_and, false_or, hstamped, true_and, hline, and_true]
    rw [← List.length_eq_zero_iff]
    omega
  · rw [if_neg hshaped, lossy_eq_nil, BareStamp]
    simp only [Bool.and_eq_true] at hshaped
    exact ⟨.inl, fun h => h.resolve_right fun ⟨hstamped, _, hline⟩ => hshaped ⟨hstamped, hline⟩⟩

/-! ## The window -/

theorem splitOn_lossy (bytes : List UInt8) :
    (lossy bytes).splitOn newline = (bytes.splitOn newline).map lossy := by
  induction hlen : bytes.length using Nat.strong_induction_on generalizing bytes with
  | _ n ih =>
    by_cases hin : newline ∈ bytes
    · obtain ⟨line, rest, rfl, hline⟩ := List.eq_append_cons_of_mem hin
      have hline' : newline ∉ lossy line := fun h => hline (mem_of_mem_lossy h (by decide))
      rw [lossy_ascii (by decide), List.splitOn_append_cons_self_of_not_mem hline',
        List.splitOn_append_cons_self_of_not_mem hline, List.map_cons]
      rw [ih rest.length (by simp only [List.length_append, List.length_cons] at hlen; omega) rest rfl]
    · have hout : newline ∉ lossy bytes := fun h => hin (mem_of_mem_lossy h (by decide))
      rw [List.splitOn_eq_singleton hout, List.splitOn_eq_singleton hin]
      rfl

theorem length_windowRead_le (source : List UInt8) (len : ℕ) :
    (windowRead source len).length ≤ tailWindowBytes + 1 := by
  rw [windowRead, List.length_take]
  split <;> omega

/-- The part of the file behind its last newline is a bare stamp, which is to
be taken off. -/
def EndsBare (stamped : Bool) (file : List UInt8) : Prop :=
  stamped = true ∧ ∃ part, (file.splitOn newline).getLast? = some part ∧ BareStamp part

theorem endsBare_iff {stamped : Bool} {file part : List UInt8}
    (h : (file.splitOn newline).getLast? = some part) :
    EndsBare stamped file ↔ stamped = true ∧ BareStamp part := by simp [EndsBare, h]

instance (stamped : Bool) (file : List UInt8) : Decidable (EndsBare stamped file) :=
  match hpart : (file.splitOn newline).getLast? with
  | some part => decidable_of_iff (stamped = true ∧ BareStamp part) (endsBare_iff hpart).symm
  | none => .isFalse fun ⟨_, _, h, _⟩ => by simp [h] at hpart

theorem endsBare_append {stamped : Bool} (xs ys : List UInt8) :
    EndsBare stamped (xs ++ newline :: ys) ↔ EndsBare stamped ys := by
  rw [EndsBare, EndsBare, List.splitOn_append_cons_self,
    List.getLast?_append_of_ne_nil _ (List.splitOn_ne_nil newline ys)]

/-- A part longer than a stamp is none. -/
theorem not_endsBare {stamped : Bool} {pre cut : List UInt8} (hcut : newline ∉ cut)
    (hlong : logStampBytes < cut.length) : ¬ EndsBare stamped (pre ++ cut) := by
  rintro ⟨-, part, hpart, hlen, -⟩
  obtain ⟨before, hbefore⟩ : ∃ before, ((pre ++ cut).splitOn newline).getLast? = some (before ++ cut) := by
    clear hpart
    induction pre with
    | nil => exact ⟨[], by rw [List.nil_append, List.splitOn_eq_singleton hcut]; rfl⟩
    | cons x pre ih =>
      obtain ⟨before, hbefore⟩ := ih
      obtain ⟨line, rest, hsplit⟩ := List.exists_cons_of_ne_nil (List.splitOn_ne_nil newline (pre ++ cut))
      rw [List.cons_append, List.splitOn_cons_eq_if_modifyHead]
      rw [hsplit] at hbefore ⊢
      split
      · exact ⟨before, by rwa [List.getLast?_cons_cons]⟩
      · rw [List.modifyHead_cons]
        cases rest with
        | nil =>
          obtain rfl := Option.some.inj hbefore
          exact ⟨x :: before, rfl⟩
        | cons next rest => exact ⟨before, by simpa using hbefore⟩
  rw [hpart] at hbefore
  obtain rfl := Option.some.inj hbefore
  rw [List.length_append] at hlen
  omega

/-- Of a file longer than the window, what is read is all behind a part the
window begins one byte after. -/
theorem windowRead_long {file : List UInt8} (hlong : tailWindowBytes < file.length) :
    ∃ before, file = before ++ windowRead file file.length ∧
      before.length + 1 = file.length - tailWindowBytes ∧
      (windowRead file file.length).length = tailWindowBytes + 1 := by
  have hread : windowRead file file.length = file.drop (file.length - tailWindowBytes - 1) := by
    simp only [windowRead]
    rw [if_pos (by omega), List.take_of_length_le]
    rw [List.length_drop]
    omega
  refine ⟨file.take (file.length - tailWindowBytes - 1), ?_, ?_, ?_⟩
  · rw [hread, List.take_append_drop]
  · rw [List.length_take]
    omega
  · rw [hread, List.length_drop]
    omega

/-- The lines of the window are those of the file that begin in it. -/
theorem lines_window (file : List UInt8) :
    lines newline (readWindow file file.length).1 =
      linesFrom newline (file.length - tailWindowBytes) file ∧
    (readWindow file file.length).2 = decide (tailWindowBytes < file.length) ∧
    ∀ stamped, EndsBare stamped (readWindow file file.length).1 ↔ EndsBare stamped file := by
  by_cases hlong : tailWindowBytes < file.length
  · have hstart : 0 < file.length - tailWindowBytes := by omega
    obtain ⟨before, hfile, hbefore, hread⟩ := windowRead_long hlong
    rw [readWindow, ← hbefore]
    simp only [Nat.succ_pos, if_true]
    cases hfind : (windowRead file file.length).idxOf? newline with
    | some at' =>
      obtain ⟨cut, rest, hsplit, hcut, hlen⟩ := exists_of_idxOf? hfind
      have hrest : (windowRead file file.length).drop (at' + 1) = rest := by
        rw [hsplit, ← hlen, List.append_cons, List.drop_left' (by simp)]
      rw [hsplit, ← List.append_assoc] at hfile
      refine ⟨?_, by simp [hlong], fun stamped => ?_⟩
      · conv_rhs => rw [hfile]
        simp only [hrest, linesFrom_cut hcut]
      · conv_rhs => rw [hfile]
        simp only [hrest, endsBare_append]
    | none =>
      -- The line that began before the window goes on to the end.
      rw [List.idxOf?_eq_none_iff] at hfind
      refine ⟨?_, by simp [hlong], fun stamped => ?_⟩
      · conv_rhs => rw [hfile]
        rw [linesFrom_none hfind, lines_nil]
      · refine iff_of_false ?_ ?_
        · rintro ⟨-, part, hpart, hlen, -⟩
          obtain rfl : part = [] := by simpa using hpart.symm
          simp [logStampBytes] at hlen
        · rw [hfile]
          exact not_endsBare hfind (by rw [hread]; decide)
  · have hstart : file.length - tailWindowBytes = 0 := by omega
    have hwhole : readWindow file file.length = (file, false) := by
      have hread : windowRead file file.length = file := by
        simp only [windowRead, hstart]
        rw [Nat.zero_sub, List.drop_zero, List.take_of_length_le]
        simp only [Nat.lt_irrefl, if_false]
        omega
      simp [readWindow, hstart, hread]
    rw [hwhole, hstart, linesFrom_zero]
    exact ⟨rfl, by simp [hlong], fun _ => Iff.rfl⟩

/-! ## The answer -/

/-- The lines that lie wholly in the last `tailWindowBytes` of the file. -/
def wholeLines (file : List UInt8) : List (List UInt8) :=
  linesFrom newline (file.length - tailWindowBytes) file

/-- The answer asked for: the last `limit` of those, and whether any line of
the file is left out. -/
def tailOf (file : List UInt8) (limit : ℕ) (stamped : Bool) : List (List UInt8) × Bool :=
  let k := (wholeLines file).length
  (((wholeLines file).map (unstamped stamped)).drop (k - limit),
    decide (min limit k < (lines newline file).length))

/-- Of the lines before the last, the last `limit` are all blank, and at least
so many are there; and where they are all, the file is longer than the
window. -/
def Hidden (file : List UInt8) (limit : ℕ) : Prop :=
  let others := (wholeLines file).dropLast
  limit ≤ others.length ∧
    (∀ line ∈ others.drop (others.length - limit), line = [] ∨ BareStamp line) ∧
    (limit = others.length → tailWindowBytes < file.length)

/-- Of a file no longer than the window every line is in it; of a longer one
the first is not. -/
theorem length_wholeLines (file : List UInt8) :
    if tailWindowBytes < file.length then (wholeLines file).length < (lines newline file).length
    else (wholeLines file).length = (lines newline file).length := by
  split
  · next hlong =>
    refine length_linesFrom_lt (by omega) fun hnil => ?_
    rw [hnil] at hlong
    exact absurd hlong (by decide)
  · next hlong =>
    rw [wholeLines, Nat.sub_eq_zero_of_le (by omega), linesFrom_zero]

/-- What `read_tail` takes for the lines of the window. -/
theorem tail_lines (window : List UInt8) (stamped : Bool) :
    (let parts := ((lossy window).splitOn newline).map fun line => if stamped then strip line else line
     if parts.getLast? = some [] then parts.dropLast else parts) =
      if EndsBare stamped window then ((lines newline window).map (unstamped stamped)).dropLast
      else (lines newline window).map (unstamped stamped) := by
  have hparts : (((lossy window).splitOn newline).map fun line => if stamped then strip line else line) =
      (window.splitOn newline).map (unstamped stamped) := by
    rw [splitOn_lossy, List.map_map]
    refine List.map_congr_left fun line _ => ?_
    cases stamped with
    | true => exact strip_lossy line
    | false => rfl
  obtain ⟨part, hpart⟩ := Option.ne_none_iff_exists'.1
    (mt List.getLast?_eq_none_iff.1 (List.splitOn_ne_nil newline window))
  dsimp only
  rw [hparts, lines, List.getLast?_map]
  simp only [hpart, Option.map_some, Option.some.injEq, unstamped_eq_nil]
  by_cases hnil : part = []
  · have hnot : ¬ EndsBare stamped window := by
      rw [endsBare_iff hpart, hnil]
      rintro ⟨-, hlen, -⟩
      simp [logStampBytes] at hlen
    rw [if_pos (.inl hnil), if_pos hnil, if_neg hnot, List.map_dropLast]
  · by_cases hbare : EndsBare stamped window
    · rw [if_pos (.inr ((endsBare_iff hpart).1 hbare)), if_neg hnil, if_pos hbare]
    · rw [if_neg (not_or.2 ⟨hnil, mt (endsBare_iff hpart).2 hbare⟩), if_neg hnil, if_neg hbare]

theorem readTail_eq (file : List UInt8) (limit : ℕ) (stamped : Bool) :
    readTail file limit stamped =
      let whole := (wholeLines file).map (unstamped stamped)
      let found := if EndsBare stamped file then whole.dropLast else whole
      (found.drop (found.length - limit),
        decide (tailWindowBytes < file.length) || decide (0 < found.length - limit)) := by
  obtain ⟨hlines, htruncated, hbare⟩ := lines_window file
  have hfound := tail_lines (readWindow file file.length).1 stamped
  simp only [readTail, htruncated, hfound, wholeLines, ← hlines]
  by_cases h : EndsBare stamped file
  · simp only [if_pos h, if_pos ((hbare stamped).2 h)]
  · simp only [if_neg h, if_neg (mt (hbare stamped).1 h)]

theorem EndsBare.lines {stamped : Bool} {file : List UInt8} (h : EndsBare stamped file) :
    stamped = true ∧ ∃ others part, lines newline file = others ++ [part] ∧ BareStamp part := by
  obtain ⟨hstamped, part, hpart, hbare⟩ := h
  have hne : part ≠ [] := by
    rintro rfl
    exact absurd hbare.1 (by decide)
  refine ⟨hstamped, (file.splitOn newline).dropLast, part, ?_, hbare⟩
  rw [Shep.lines, hpart, if_neg (by simpa using hne), List.dropLast_append_getLast? part hpart]

/-- A list is the same moved up by one, and a blank at the end, if all of it
is blank. -/
theorem cons_eq_append_nil {line : List UInt8} {rest : List (List UInt8)} :
    line :: rest = rest ++ [[]] ↔ ∀ l ∈ line :: rest, l = [] := by
  induction rest generalizing line with
  | nil => simp
  | cons next rest ih =>
    rw [List.cons_append, List.cons.injEq, ih, List.forall_mem_cons (a := line)]
    refine and_congr_left fun hrest => ?_
    rw [hrest next List.mem_cons_self]

/-- The end of a list is the end of the list and a blank, if all of it is
blank. -/
theorem drop_eq_append_nil (others : List (List UInt8)) (limit : ℕ) :
    others.drop (others.length - limit) = (others ++ [[]]).drop (others.length + 1 - limit) ↔
      limit ≤ others.length ∧ ∀ l ∈ others.drop (others.length - limit), l = [] := by
  by_cases hmore : others.length < limit
  · refine iff_of_false (fun h => ?_) fun h => by omega
    have := congrArg List.length h
    simp only [List.length_drop, List.length_append, List.length_cons, List.length_nil] at this
    omega
  by_cases hzero : limit = 0
  · subst hzero
    simp
  have hlt : others.length - limit < others.length := by omega
  have hnext : others.length + 1 - limit = others.length - limit + 1 := by omega
  rw [hnext, List.drop_append_of_le_length hlt, List.drop_eq_getElem_cons hlt, cons_eq_append_nil]
  exact ⟨fun h => ⟨by omega, h⟩, fun h => h.2⟩

theorem readTail_exact {file : List UInt8} {limit : ℕ} {stamped : Bool}
    (h : ¬ EndsBare stamped file) : readTail file limit stamped = tailOf file limit stamped := by
  have hlen := length_wholeLines file
  rw [readTail_eq, tailOf]
  simp only [if_neg h, List.length_map, Prod.mk.injEq, true_and]
  rw [Bool.eq_iff_iff, Bool.or_eq_true, decide_eq_true_eq, decide_eq_true_eq, decide_eq_true_eq]
  split at hlen <;> omega

/-- Where it does, the last line is missing, and the answer is the one asked
for only where that does not show. -/
theorem readTail_bare {file : List UInt8} {limit : ℕ} {stamped : Bool} (h : EndsBare stamped file) :
    readTail file limit stamped = tailOf file limit stamped ↔ Hidden file limit := by
  have hlen := length_wholeLines file
  obtain ⟨hstamped, others, part, hwhole, hbare⟩ :=
    EndsBare.lines (((lines_window file).2.2 stamped).2 h)
  rw [(lines_window file).1] at hwhole
  change wholeLines file = others ++ [part] at hwhole
  have hpart : unstamped stamped part = [] := unstamped_eq_nil.2 (.inr ⟨hstamped, hbare⟩)
  rw [readTail_eq, tailOf, Hidden]
  simp only [if_pos h, hwhole, List.map_append, List.map_cons, List.map_nil, hpart,
    List.dropLast_concat, List.length_map, List.length_append, List.length_cons, List.length_nil,
    Prod.mk.injEq] at hlen ⊢
  have hblank : (∀ l ∈ (others.map (unstamped stamped)).drop (others.length - limit), l = []) ↔
      ∀ line ∈ others.drop (others.length - limit), line = [] ∨ BareStamp line := by
    simp only [← List.map_drop, List.forall_mem_map, unstamped_eq_nil, hstamped, true_and]
  have hdrop := drop_eq_append_nil (others.map (unstamped stamped)) limit
  rw [List.length_map, hblank] at hdrop
  rw [hdrop, and_assoc]
  refine and_congr_right fun hle => and_congr_right fun _ => ?_
  rw [Bool.eq_iff_iff, Bool.or_eq_true, decide_eq_true_eq, decide_eq_true_eq, decide_eq_true_eq]
  split at hlen <;> omega

/-- `read_tail` answers what is asked for if and only if the file does not end
in a stamp and nothing behind it, or the line it loses there does not show.
It never reads more than the window and one byte. -/
theorem log_tail_exact (file : List UInt8) (limit : ℕ) (stamped : Bool) :
    (readTail file limit stamped = tailOf file limit stamped ↔
      (EndsBare stamped file → Hidden file limit)) ∧
    ∀ source len, (windowRead source len).length ≤ tailWindowBytes + 1 := by
  refine ⟨?_, length_windowRead_le⟩
  by_cases h : EndsBare stamped file
  · rw [readTail_bare h]
    exact ⟨fun hhidden _ => hhidden, fun hhidden => hhidden h⟩
  · exact iff_of_true (readTail_exact h) fun hbare => absurd hbare h

/-- A file of one line, all of it a stamp: asked for ten lines the answer is
none, and nothing left out, and the line is there. -/
theorem log_tail_short :
    let file : List UInt8 := [0x32, 0x30, 0x32, 0x36, 0x2d, 0x30, 0x39, 0x2d, 0x30, 0x32, 0x54, 0x31,
      0x34, 0x3a, 0x32, 0x32, 0x3a, 0x33, 0x31, 0x2e, 0x34, 0x31, 0x32, 0x2b, 0x30, 0x32, 0x3a, 0x30,
      0x30, 0x20]
    readTail file 10 true = ([], false) ∧ tailOf file 10 true = ([[]], false) := by
  decide +kernel

end Logs

end Shep
