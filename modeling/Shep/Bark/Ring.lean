import Shep.Common.Lines
import Shep.Common.Utf8

/-!
# Bark — the ring of fired alerts

`barks.jsonl`, and shep-core's `barks.rs`: `append`, which evicts the oldest
lines under a byte cap, `read`, and `read_last`, which reads a growing
window at the end. The lock makes the appends one after the other, so that
a run of them is a list. serde_json is the parameter `Json`.
**`ring_bounded`** is what a run of appends leaves in the file and what the
two readers make of it.
-/

namespace Shep

namespace Barks

open Utf8

/-! ## Records -/

/-- `SinkOutcome`. -/
structure SinkOutcome where
  sink : String
  error : Option String
  deriving Repr, DecidableEq

/-- `Bark`: one fired alert. -/
structure Bark where
  atMs : ℕ
  rule : String
  subject : String
  message : String
  sinks : List SinkOutcome
  deriving Repr, DecidableEq

/-- `BarkError`. The I/O error is the one a reader meets in the bytes. -/
inductive BarkError where
  | io
  | encode
  deriving Repr, DecidableEq

/-- `serde_json`, for a `Bark`. -/
structure Json where
  write : Bark → Option (List UInt8)
  parse : List UInt8 → Option Bark

/-- The bytes of a file, where there is one. -/
abbrev File := Option (List UInt8)

def newline : UInt8 := 0x0a

def carriageReturn : UInt8 := 0x0d

/-- One line and nothing else is written for the record, and read back. -/
def Json.Faithful (json : Json) (bark : Bark) : Prop :=
  ∃ line, json.write bark = some line ∧ json.parse line = some bark ∧ Valid line ∧
    newline ∉ line ∧ carriageReturn ∉ line

/-! ## Lines -/

/-- What stands before a newline, less one carriage return. -/
def chomp (line : List UInt8) : List UInt8 :=
  if line.getLast? = some carriageReturn then line.dropLast else line

/-- `str::lines`: only a line with a newline behind it is chomped. -/
def textLines (text : List UInt8) : List (List UInt8) :=
  let parts := text.splitOn newline
  parts.dropLast.map chomp ++ if parts.getLastD [] = [] then [] else [parts.getLastD []]

/-- `line_bytes`. -/
def lineBytes (line : List UInt8) : ℕ := line.length + 1

/-- `ring_bytes`. -/
def ringBytes (lines : List (List UInt8)) : ℕ := (lines.map lineBytes).sum

/-! ## The ring -/

/-- `read_text`. -/
def readText : File → Except BarkError (List UInt8)
  | none => .ok []
  | some text => if fromUtf8 text = none then .ok text else .error .io

/-- `read_lines`. -/
def readLines (file : File) : Except BarkError (List (List UInt8)) :=
  return textLines (← readText file)

/-- The loop of `append`: how many lines go. The last one stays. -/
def evicted (maxBytes ring : ℕ) : List (List UInt8) → ℕ
  | line :: next :: rest =>
    if maxBytes < ring then evicted maxBytes (ring - lineBytes line) (next :: rest) + 1 else 0
  | _ => 0

/-- `write_ring`. -/
def writeRing (lines : List (List UInt8)) : List UInt8 :=
  lines.flatMap fun line => line ++ [newline]

/-- `append`. -/
def append (json : Json) (file : File) (bark : Bark) (maxBytes : ℕ) : Except BarkError File := do
  let lines ← readLines file
  let newLine ← (json.write bark).elim (.error .encode) .ok
  let lines := lines ++ [newLine]
  return some (writeRing (lines.drop (evicted maxBytes (ringBytes lines) lines)))

/-- A run of appends, each with its own cap. -/
def appendAll (json : Json) (file : File) (calls : List (Bark × ℕ)) : Except BarkError File :=
  calls.foldlM (fun file call => append json file call.1 call.2) file

/-- The records of a text; what does not parse is skipped. -/
def records (json : Json) (text : List UInt8) : List Bark := (textLines text).filterMap json.parse

/-- `read`. -/
def read (json : Json) (file : File) : Except BarkError (List Bark) :=
  return records json (← readText file)

/-! ## The tail -/

def TAIL_WINDOW_BYTES : ℕ := 64 * 1024

/-- `read_window`: from a byte before the window, where there is one. -/
def readWindow (json : Json) (text : List UInt8) (window : ℕ) : List Bark :=
  let start := text.length - window
  let bytes := text.drop (start - if 0 < start then 1 else 0)
  if 0 < start then
    match bytes.idxOf? newline with
    | some newline => records json (lossy (bytes.drop (newline + 1)))
    | none => []
  else records json (lossy bytes)

/-- The loop of `read_last`. A length is below `2 ^ 64`, and so is twice a
window unless the `min` cuts it. -/
def tailLoop (json : Json) (text : List UInt8) (limit : ℕ) : ℕ → ℕ → Option (List Bark)
  | 0, _ => none
  | fuel + 1, window =>
    let barks := readWindow json text window
    if limit ≤ barks.length ∨ text.length ≤ window then some (barks.drop (barks.length - limit))
    else tailLoop json text limit fuel (min (window * 2) text.length)

/-- `read_last`; none where the fuel runs out. -/
def readLast (json : Json) (fuel : ℕ) (file : File) (limit : ℕ) : Option (List Bark) :=
  if limit = 0 then some []
  else
    match file with
    | none => some []
    | some text => tailLoop json text limit fuel (min TAIL_WINDOW_BYTES text.length)

/-! ## The lines of a text in two parts -/

variable {json : Json} {text line : List UInt8} {earlier : List (List UInt8)}

theorem textLines_append (xs ys : List UInt8) :
    textLines (xs ++ newline :: ys) = (xs.splitOn newline).map chomp ++ textLines ys := by
  have hne : ys.splitOn newline ≠ [] := List.splitOn_ne_nil newline ys
  have hlast : (xs.splitOn newline ++ ys.splitOn newline).getLastD [] =
      (ys.splitOn newline).getLastD [] := by
    rw [List.getLastD_eq_getLast?, List.getLastD_eq_getLast?, List.getLast?_append_of_ne_nil _ hne]
  simp only [textLines, List.splitOn_append_cons_self, List.dropLast_append_of_ne_nil hne, hlast,
    List.map_append, List.append_assoc]

theorem records_append (xs ys : List UInt8) :
    records json (xs ++ newline :: ys) =
      ((xs.splitOn newline).map chomp).filterMap json.parse ++ records json ys := by
  rw [records, textLines_append, List.filterMap_append, records]

theorem chomp_eq (h : carriageReturn ∉ line) : chomp line = line := by
  rw [chomp, if_neg fun hlast => h (List.mem_of_getLast? hlast)]

theorem textLines_writeRing (h : ∀ line ∈ earlier, newline ∉ line) :
    textLines (writeRing earlier) = earlier.map chomp := by
  induction earlier with
  | nil => rfl
  | cons line earlier ih =>
    have hline : newline ∉ line := h line List.mem_cons_self
    rw [writeRing, List.flatMap_cons, List.append_assoc, List.singleton_append, textLines_append,
      List.splitOn_eq_singleton hline, ← writeRing,
      ih fun other hin => h other (List.mem_cons_of_mem line hin)]
    rfl

theorem length_writeRing (lines : List (List UInt8)) :
    (writeRing lines).length = ringBytes lines := by
  simp only [writeRing, ringBytes, List.length_flatMap, List.length_append, List.length_singleton]
  rfl

theorem textLines_cons {pre : List UInt8} (h : newline ∉ pre) (rest : List UInt8) :
    textLines (pre ++ newline :: rest) = chomp pre :: textLines rest := by
  rw [textLines_append, List.splitOn_eq_singleton h]
  rfl

theorem textLines_eq (h : newline ∉ text) : textLines text = if text = [] then [] else [text] := by
  rw [textLines, List.splitOn_eq_singleton h]
  rfl

theorem valid_chomp (h : Valid line) : Valid (chomp line) := by
  rw [chomp]
  split
  · next hlast =>
    obtain ⟨pre, rfl⟩ := List.getLast?_eq_some_iff.1 hlast
    rw [List.dropLast_concat]
    exact (Valid.split (by decide) h).1
  · exact h

theorem mem_of_mem_chomp {b : UInt8} (h : b ∈ chomp line) : b ∈ line := by
  rw [chomp] at h
  split at h
  · exact List.mem_of_mem_dropLast h
  · exact h

/-- A line of a well-formed text is well formed and has no newline. -/
theorem of_mem_textLines (htext : Valid text) (h : line ∈ textLines text) :
    Valid line ∧ newline ∉ line := by
  -- by the length of the text, its first line taken off
  induction hn : text.length using Nat.strongRecOn generalizing text with
  | _ n ih =>
    by_cases hin : newline ∈ text
    · obtain ⟨pre, rest, rfl, hpre⟩ := List.eq_append_cons_of_mem hin
      rw [textLines_cons hpre] at h
      obtain ⟨hvalid, hrest⟩ := Valid.split (by decide) htext
      rcases List.mem_cons.1 h with rfl | h
      · exact ⟨valid_chomp hvalid, fun hmem => hpre (mem_of_mem_chomp hmem)⟩
      · refine ih rest.length ?_ hrest h rfl
        rw [← hn, List.length_append, List.length_cons]
        omega
    · rw [textLines_eq hin] at h
      split at h
      · cases h
      · obtain rfl := List.mem_singleton.1 h
        exact ⟨htext, hin⟩

/-! ## What is evicted -/

theorem ringBytes_cons (line : List UInt8) (lines : List (List UInt8)) :
    ringBytes (line :: lines) = lineBytes line + ringBytes lines := by
  simp [ringBytes]

/-- **What `append` keeps.** Of the earlier lines the longest end that fits
the cap with the new line; none where not even that line fits. -/
structure Kept (earlier : List (List UInt8)) (line : List UInt8) (maxBytes : ℕ)
    (kept : List (List UInt8)) : Prop where
  suffix : kept <:+ earlier
  fits : ringBytes (kept ++ [line]) ≤ maxBytes ∨ kept = [] ∧ maxBytes < lineBytes line
  longest : ∀ more, more <:+ earlier → ringBytes (more ++ [line]) ≤ maxBytes → more <:+ kept

theorem evicted_kept (maxBytes : ℕ) (line : List UInt8) (earlier : List (List UInt8)) :
    ∃ kept, (earlier ++ [line]).drop
        (evicted maxBytes (ringBytes (earlier ++ [line])) (earlier ++ [line])) = kept ++ [line] ∧
      Kept earlier line maxBytes kept := by
  induction earlier with
  | nil =>
    refine ⟨[], rfl, List.suffix_refl [], ?_, fun more hmore _ => hmore⟩
    rcases Nat.lt_or_ge maxBytes (lineBytes line) with hlt | hge
    · exact .inr ⟨rfl, hlt⟩
    · exact .inl (by simpa [ringBytes] using hge)
  | cons first earlier ih =>
    obtain ⟨next, rest, hnext⟩ := List.exists_cons_of_ne_nil
      (show earlier ++ [line] ≠ [] by simp)
    by_cases hover : maxBytes < ringBytes (first :: earlier ++ [line])
    · -- the first line goes, and what is kept is kept of the others
      obtain ⟨kept, hdrop, hsuffix, hfits, hlongest⟩ := ih
      have hless : ringBytes (first :: (earlier ++ [line])) - lineBytes first =
          ringBytes (earlier ++ [line]) := by
        rw [ringBytes_cons]
        omega
      refine ⟨kept, ?_, hsuffix.trans (List.suffix_cons first earlier), hfits, ?_⟩
      · rw [List.cons_append] at hover ⊢
        rw [← hdrop, hnext, evicted, if_pos (hnext ▸ hover), ← hnext, hless, List.drop_succ_cons]
      · intro more hmore hmax
        rcases List.suffix_cons_iff.1 hmore with rfl | hmore
        · omega
        · exact hlongest more hmore hmax
    · refine ⟨first :: earlier, ?_, List.suffix_refl _, .inl (by omega), fun more hmore _ => hmore⟩
      rw [List.cons_append, hnext] at hover ⊢
      rw [evicted, if_neg hover, List.drop_zero]

/-! ## One append -/

/-- The file, where there is one, is well-formed UTF-8. -/
def Sound (file : File) : Prop := ∀ text ∈ file, Valid text

theorem readText_eq {file : File} (h : Sound file) : readText file = .ok (file.getD []) := by
  cases file with
  | none => rfl
  | some text => rw [readText, if_pos (h text rfl).fromUtf8, Option.getD_some]

/-- **One append.** The new line stands last, behind what is kept. -/
structure Appended (json : Json) (before : List UInt8) (bark : Bark) (maxBytes : ℕ)
    (after : List UInt8) : Prop where
  written : ∃ line kept, json.write bark = some line ∧ Kept (textLines before) line maxBytes kept ∧
    after = writeRing (kept ++ [line]) ∧
    (after.length ≤ maxBytes ∨ kept = [] ∧ maxBytes < lineBytes line)
  read : ∃ older, records json after = older ++ [bark]

theorem valid_writeRing {lines : List (List UInt8)} (h : ∀ line ∈ lines, Valid line) :
    Valid (writeRing lines) := by
  induction lines with
  | nil => exact .nil
  | cons line lines ih =>
    have hend : Valid [newline] := ⟨[[newline]], by simp [IsChar, leads, newline], rfl⟩
    exact ((h line List.mem_cons_self).append hend).append
      (ih fun other hin => h other (List.mem_cons_of_mem line hin))

theorem append_appended {file : File} {bark : Bark} (hfile : Sound file)
    (hjson : json.Faithful bark) (maxBytes : ℕ) :
    ∃ after, append json file bark maxBytes = .ok (some after) ∧ Valid after ∧
      Appended json (file.getD []) bark maxBytes after := by
  obtain ⟨line, hwrite, hparse, hline, hnewline, hreturn⟩ := hjson
  have htext : Valid (file.getD []) := by
    cases file with
    | none => exact .nil
    | some text => exact hfile text rfl
  obtain ⟨kept, hdrop, hkept⟩ := evicted_kept maxBytes line (textLines (file.getD []))
  have hlines : ∀ other ∈ kept ++ [line], Valid other ∧ newline ∉ other := by
    intro other hin
    rcases List.mem_append.1 hin with hin | hin
    · exact of_mem_textLines htext (hkept.suffix.subset hin)
    · obtain rfl := List.mem_singleton.1 hin
      exact ⟨hline, hnewline⟩
  refine ⟨writeRing (kept ++ [line]), ?_, valid_writeRing fun other hin => (hlines other hin).1,
    ?_, ?_⟩
  · simp only [append, readLines, readText_eq hfile, hwrite]
    rw [← hdrop]
    rfl
  · refine ⟨line, kept, hwrite, hkept, rfl, ?_⟩
    rw [length_writeRing]
    exact hkept.fits
  · rw [records, textLines_writeRing fun other hin => (hlines other hin).2, List.map_append,
      List.filterMap_append]
    exact ⟨_, by rw [List.map_singleton, chomp_eq hreturn, List.filterMap_cons_some hparse]; rfl⟩

theorem appendAll_sound {file : File} {calls : List (Bark × ℕ)} (hfile : Sound file)
    (hjson : ∀ call ∈ calls, json.Faithful call.1) :
    ∃ after, appendAll json file calls = .ok after ∧ Sound after := by
  induction calls generalizing file with
  | nil => exact ⟨file, rfl, hfile⟩
  | cons call calls ih =>
    obtain ⟨after, happend, hafter, -⟩ :=
      append_appended hfile (hjson call List.mem_cons_self) call.2
    have hsound : Sound (some after) := by
      rintro text ⟨⟩
      exact hafter
    obtain ⟨last, hlast, hsound⟩ :=
      ih hsound fun other hin => hjson other (List.mem_cons_of_mem call hin)
    refine ⟨last, ?_, hsound⟩
    rw [appendAll, List.foldlM_cons, happend]
    exact hlast

/-! ## The tail -/

/-- A window's records are the last of the file's. -/
theorem readWindow_suffix (htext : Valid text) (window : ℕ) :
    readWindow json text window <:+ records json text := by
  rw [readWindow]
  by_cases hstart : 0 < text.length - window
  · simp only [hstart, if_true]
    cases hat : (text.drop (text.length - window - 1)).idxOf? newline with
    | none => exact List.nil_suffix
    | some n =>
      -- the first newline in reach ends a line of the file
      obtain ⟨cut, rest, hdrop, -, hn⟩ := exists_of_idxOf? hat
      have hsplit : text = (text.take (text.length - window - 1) ++ cut) ++ newline :: rest := by
        rw [List.append_assoc, ← hdrop, List.take_append_drop]
      have hrest : Valid rest := (Valid.split (by decide) (hsplit ▸ htext)).2
      have hbehind : (cut ++ newline :: rest).drop (n + 1) = rest := by
        rw [← hn, List.append_cons, List.drop_left' (by simp)]
      simp only [hdrop, hbehind, hrest.lossy]
      rw [hsplit, records_append]
      exact List.suffix_append _ _
  · have hzero : text.length - window = 0 := by omega
    simp only [hzero, Nat.lt_irrefl, if_false, Nat.sub_self, List.drop_zero, htext.lossy]
    exact List.suffix_refl _

theorem readWindow_whole (htext : Valid text) {window : ℕ} (h : text.length ≤ window) :
    readWindow json text window = records json text := by
  have hzero : text.length - window = 0 := by omega
  simp only [readWindow, hzero, Nat.lt_irrefl, if_false, Nat.sub_self, List.drop_zero, htext.lossy]

theorem drop_of_suffix {α : Type*} {xs ys : List α} {n : ℕ} (h : xs <:+ ys) (hn : n ≤ xs.length) :
    xs.drop (xs.length - n) = ys.drop (ys.length - n) := by
  obtain ⟨zs, rfl⟩ := h
  rw [List.length_append, show zs.length + xs.length - n = zs.length + (xs.length - n) by omega,
    List.drop_length_add_append]

theorem tailLoop_eq (htext : Valid text) (limit : ℕ) {fuel window : ℕ}
    (hfuel : text.length - window < fuel) (hwindow : 0 < window ∨ text.length ≤ window) :
    tailLoop json text limit fuel window =
      some ((records json text).drop ((records json text).length - limit)) := by
  induction fuel generalizing window with
  | zero => omega
  | succ fuel ih =>
    simp only [tailLoop]
    split
    · next hdone =>
      rcases hdone with hmany | hwhole
      · rw [drop_of_suffix (readWindow_suffix htext window) hmany]
      · rw [readWindow_whole htext hwhole]
    · next hmore =>
      obtain ⟨-, hwindow'⟩ := not_or.1 hmore
      exact ih (by omega) (by omega)

theorem readLast_eq {file : File} (hfile : Sound file) (limit : ℕ) {fuel : ℕ}
    (hfuel : (file.getD []).length < fuel) : ∃ barks, read json file = .ok barks ∧
      readLast json fuel file limit = some (barks.drop (barks.length - limit)) := by
  refine ⟨records json (file.getD []), by rw [read, readText_eq hfile]; rfl, ?_⟩
  unfold readLast
  split
  · next hzero => rw [hzero, Nat.sub_zero, List.drop_length]
  · cases file with
    | none => simp [records, textLines]
    | some text =>
      refine tailLoop_eq (hfile text rfl) limit ?_ ?_
      · rw [Option.getD_some] at hfuel
        omega
      · simp only [TAIL_WINDOW_BYTES]
        omega

/-- **The ring.** From any file of valid UTF-8, whatever was appended under
whatever caps, an append succeeds and leaves the new record last, behind
the longest end of the earlier lines that fits; and the tail reader answers
the last records of the whole reader, in no more rounds than the file has
bytes and one. -/
theorem ring_bounded (json : Json) {file : File} (hfile : Sound file) :
    (∀ (calls : List (Bark × ℕ)) (bark : Bark) (maxBytes : ℕ),
      (∀ call ∈ calls ++ [(bark, maxBytes)], json.Faithful call.1) →
      ∃ before after, appendAll json file calls = .ok before ∧ Sound before ∧
        appendAll json file (calls ++ [(bark, maxBytes)]) = .ok (some after) ∧
        Sound (some after) ∧ Appended json (before.getD []) bark maxBytes after) ∧
    ∀ limit fuel, (file.getD []).length < fuel → ∃ barks, read json file = .ok barks ∧
      readLast json fuel file limit = some (barks.drop (barks.length - limit)) := by
  refine ⟨fun calls bark maxBytes hjson => ?_, fun limit fuel => readLast_eq hfile limit⟩
  obtain ⟨before, hbefore, hsound⟩ :=
    appendAll_sound hfile fun call hin => hjson call (List.mem_append_left _ hin)
  obtain ⟨after, happend, hafter, happended⟩ :=
    append_appended hsound (hjson (bark, maxBytes) (by simp)) maxBytes
  refine ⟨before, after, hbefore, hsound, ?_, ?_, happended⟩
  · rw [appendAll, List.foldlM_append, ← appendAll, hbefore]
    exact (bind_pure _).trans happend
  · rintro text ⟨⟩
    exact hafter

/-! ## Two alerts -/

def webGaveUp : Bark :=
  ⟨1700000000000, "give-up", "web", "web gave up", [⟨"ops", none⟩]⟩

def apiGaveUp : Bark := ⟨1700000000500, "daemon", "api", "api gave up", []⟩

def bytesOf (text : String) : List UInt8 := text.toUTF8.data.toList

def webLine : List UInt8 :=
  bytesOf ("\x7b\"at_ms\":1700000000000,\"rule\":\"give-up\",\"subject\":\"web\"," ++
    "\"message\":\"web gave up\",\"sinks\":[\x7b\"sink\":\"ops\",\"error\":null\x7d]\x7d")

def apiLine : List UInt8 :=
  bytesOf ("\x7b\"at_ms\":1700000000500,\"rule\":\"daemon\",\"subject\":\"api\"," ++
    "\"message\":\"api gave up\",\"sinks\":[]\x7d")

/-- What serde_json makes of the two. -/
def spelled : Json where
  write bark :=
    if bark = webGaveUp then some webLine else if bark = apiGaveUp then some apiLine else none
  parse line :=
    if line = webLine then some webGaveUp else if line = apiLine then some apiGaveUp else none

theorem valid_low {bytes : List UInt8} (h : ∀ b ∈ bytes, b < 0x80) : Valid bytes := by
  refine ⟨bytes.map fun b => [b], ?_, ?_⟩
  · intro c hc
    obtain ⟨b, hb, rfl⟩ := List.mem_map.1 hc
    exact ⟨[], leads_ascii (h b hb), .nil⟩
  · induction bytes with
    | nil => rfl
    | cons b bytes ih => simpa using ih fun x hx => h x (List.mem_cons_of_mem b hx)

theorem spelled_web : spelled.Faithful webGaveUp :=
  ⟨webLine, by decide +kernel, by decide +kernel, valid_low (by decide +kernel), by decide +kernel,
    by decide +kernel⟩

theorem spelled_api : spelled.Faithful apiGaveUp :=
  ⟨apiLine, by decide +kernel, by decide +kernel, valid_low (by decide +kernel), by decide +kernel,
    by decide +kernel⟩

/-- The two alerts under a cap with room for one of them, from no file at all. -/
theorem ring_bounded_apiGaveUp :
    ∃ after, appendAll spelled none [(webGaveUp, 150), (apiGaveUp, 150)] = .ok (some after) ∧
      after = writeRing [apiLine] ∧
      ∃ barks, read spelled (some after) = .ok barks ∧
        readLast spelled 1000 (some after) 1 = some (barks.drop (barks.length - 1)) := by
  have hnone : Sound none := by simp [Sound]
  obtain ⟨before, after, -, -, hrun, hsound, happended⟩ :=
    (ring_bounded spelled hnone).1 [(webGaveUp, 150)] apiGaveUp 150 (by
      intro call hcall
      rcases List.mem_cons.1 hcall with rfl | hcall
      · exact spelled_web
      · obtain rfl := List.mem_singleton.1 hcall
        exact spelled_api)
  have hafter : after = writeRing [apiLine] := by
    have hrun' : appendAll spelled none [(webGaveUp, 150), (apiGaveUp, 150)] =
        .ok (some (writeRing [apiLine])) := by decide +kernel
    exact Option.some.inj (Except.ok.inj (hrun.symm.trans hrun'))
  refine ⟨after, hrun, hafter, (ring_bounded spelled hsound).2 1 1000 ?_⟩
  rw [hafter]
  decide +kernel

end Barks

end Shep
