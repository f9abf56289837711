import Mathlib.Data.List.Forall2
import Mathlib.Data.UInt

/-!
# UTF-8, with its invalid sequences

Well-formed byte sequences, the check that says how far a text is well
formed and what is wrong with it, and a decoder that takes one byte at a
time and puts a replacement character where the text is not well formed.
`fromUtf8_cases` says what the check's answer means for the decoder, so
that a loop written with the check can be read as the decoder; and since
the decoder goes byte by byte, `decode_append` lets a text be cut anywhere.
-/

namespace Shep

namespace Utf8

/-! ## Characters -/

/-- The bytes from `lo` to `hi`. -/
structure Range where
  lo : UInt8
  hi : UInt8
  deriving Repr, DecidableEq

/-- The byte is in the range. -/
def Range.Has (r : Range) (b : UInt8) : Prop := r.lo ≤ b ∧ b ≤ r.hi

instance (r : Range) (b : UInt8) : Decidable (r.Has b) := inferInstanceAs (Decidable (_ ∧ _))

/-- Any continuation byte. -/
def tail : Range := ⟨0x80, 0xBF⟩

/-- What must follow a character's first byte: none where no character
starts with it. -/
def leads (b : UInt8) : Option (List Range) :=
  if b < 0x80 then some []
  else if b < 0xC2 then none
  else if b < 0xE0 then some [tail]
  else if b = 0xE0 then some [⟨0xA0, 0xBF⟩, tail]
  else if b = 0xED then some [⟨0x80, 0x9F⟩, tail]
  else if b < 0xF0 then some [tail, tail]
  else if b = 0xF0 then some [⟨0x90, 0xBF⟩, tail, tail]
  else if b < 0xF4 then some [tail, tail, tail]
  else if b = 0xF4 then some [⟨0x80, 0x8F⟩, tail, tail]
  else none

/-- The bytes of one character. -/
def IsChar : List UInt8 → Prop
  | [] => False
  | b :: rest => ∃ needs, leads b = some needs ∧ List.Forall₂ Range.Has needs rest

/-- A well-formed text. -/
def Valid (bytes : List UInt8) : Prop := ∃ cs : List (List UInt8), (∀ c ∈ cs, IsChar c) ∧ cs.flatten = bytes

theorem Valid.nil : Valid [] := ⟨[], by simp, rfl⟩

theorem Valid.append {xs ys : List UInt8} (hx : Valid xs) (hy : Valid ys) : Valid (xs ++ ys) := by
  obtain ⟨cs, hcs, rfl⟩ := hx
  obtain ⟨ds, hds, rfl⟩ := hy
  refine ⟨cs ++ ds, fun c hc => ?_, List.flatten_append⟩
  rcases List.mem_append.1 hc with hc | hc
  · exact hcs c hc
  · exact hds c hc

theorem IsChar.valid {c : List UInt8} (hc : IsChar c) : Valid c := ⟨[c], by simpa using hc, by simp⟩

/-- A byte below `0x80` is a character of its own. -/
theorem leads_ascii {b : UInt8} (hb : b < 0x80) : leads b = some [] := if_pos hb

/-- U+FFFD, the replacement character. -/
def replacement : List UInt8 := [0xEF, 0xBF, 0xBD]

theorem replacement_isChar : IsChar replacement :=
  ⟨[tail, tail], by decide, .cons (by decide) (.cons (by decide) .nil)⟩

/-- Whatever follows a first byte is a continuation byte. -/
theorem leads_high {b : UInt8} {needs : List Range} (h : leads b = some needs) :
    ∀ r ∈ needs, 0x80 ≤ r.lo := by
  have hranges : needs ∈ [[], [tail], [⟨0xA0, 0xBF⟩, tail], [⟨0x80, 0x9F⟩, tail], [tail, tail],
      [⟨0x90, 0xBF⟩, tail, tail], [tail, tail, tail], [⟨0x80, 0x8F⟩, tail, tail]] := by
    unfold leads at h
    grind
  intro r hr
  have hall : ∀ needs ∈ [[], [tail], [⟨0xA0, 0xBF⟩, tail], [⟨0x80, 0x9F⟩, tail], [tail, tail],
      [⟨0x90, 0xBF⟩, tail, tail], [tail, tail, tail], [⟨0x80, 0x8F⟩, tail, tail]],
      ∀ r ∈ needs, 0x80 ≤ r.lo := by decide
  exact hall needs hranges r hr

/-! ## The check -/

/-- `Utf8Error`: how much is well formed, and the length of the sequence
after it that no character starts with; none where the text ends inside
one. -/
structure Utf8Error where
  validUpTo : ℕ
  errorLen : Option ℕ
  deriving Repr, DecidableEq

/-- The check, `held` bytes into a character that still needs `need`. -/
def check (validUpTo held : ℕ) : List Range → List UInt8 → Option Utf8Error
  | [], [] => none
  | _ :: _, [] => some ⟨validUpTo, none⟩
  | [], b :: bytes =>
    match leads b with
    | none => some ⟨validUpTo, some 1⟩
    | some [] => check (validUpTo + 1) 0 [] bytes
    | some need => check validUpTo 1 need bytes
  | r :: need, b :: bytes =>
    if r.Has b then
      match need with
      | [] => check (validUpTo + held + 1) 0 [] bytes
      | need => check validUpTo (held + 1) need bytes
    else some ⟨validUpTo, some held⟩

/-- `core::str::from_utf8`: what is wrong with the text, if anything is. -/
def fromUtf8 (bytes : List UInt8) : Option Utf8Error := check 0 0 [] bytes

/-! ## The decoder -/

/-- The bytes of a character cut short, and what it still needs. -/
structure Held where
  bytes : List UInt8 := []
  need : List Range := []
  deriving Repr, DecidableEq

/-- A byte between characters. -/
def decodeLead (b : UInt8) : List UInt8 × Held :=
  match leads b with
  | none => (replacement, {})
  | some [] => ([b], {})
  | some need => ([], ⟨[b], need⟩)

/-- One byte, and what it completes. -/
def decodeByte (s : Held) (b : UInt8) : List UInt8 × Held :=
  match s.need with
  | [] => decodeLead b
  | r :: need =>
    if r.Has b then
      match need with
      | [] => (s.bytes ++ [b], {})
      | need => ([], ⟨s.bytes ++ [b], need⟩)
    else (replacement ++ (decodeLead b).1, (decodeLead b).2)

/-- A text, from a character cut short. -/
def decode (s : Held) : List UInt8 → List UInt8 × Held
  | [] => ([], s)
  | b :: bytes =>
    ((decodeByte s b).1 ++ (decode (decodeByte s b).2 bytes).1, (decode (decodeByte s b).2 bytes).2)

/-- What a character cut short by the end of the text comes to. -/
def Held.closed (s : Held) : List UInt8 := if s.bytes = [] then [] else replacement

/-- `String::from_utf8_lossy`. -/
def lossy (bytes : List UInt8) : List UInt8 := (decode {} bytes).1 ++ (decode {} bytes).2.closed

/-- A text may be cut anywhere. -/
theorem decode_append (s : Held) (xs ys : List UInt8) :
    decode s (xs ++ ys) =
      ((decode s xs).1 ++ (decode (decode s xs).2 ys).1, (decode (decode s xs).2 ys).2) := by
  induction xs generalizing s with
  | nil => rfl
  | cons b xs ih => simp [decode, ih]

/-- What is held is the beginning of a character. -/
def Held.Sound (s : Held) : Prop :=
  s.bytes = [] ∧ s.need = [] ∨
    ∃ b rest done, s.bytes = b :: rest ∧ leads b = some (done ++ s.need) ∧
      List.Forall₂ Range.Has done rest ∧ s.need ≠ []

theorem Held.sound_empty : Held.Sound {} := .inl ⟨rfl, rfl⟩

theorem decodeLead_sound (b : UInt8) : Valid (decodeLead b).1 ∧ (decodeLead b).2.Sound := by
  unfold decodeLead
  split
  · exact ⟨replacement_isChar.valid, Held.sound_empty⟩
  · next hb => exact ⟨IsChar.valid ⟨[], hb, .nil⟩, Held.sound_empty⟩
  · next need hne hb =>
    exact ⟨Valid.nil, .inr ⟨b, [], [], rfl, hb, .nil, fun hnil => hne hnil⟩⟩

theorem decodeByte_sound {s : Held} (hs : s.Sound) (b : UInt8) :
    Valid (decodeByte s b).1 ∧ (decodeByte s b).2.Sound := by
  have hlead := decodeLead_sound b
  unfold decodeByte
  split
  · exact hlead
  · next r need hneed =>
    rcases hs with ⟨-, hnil⟩ | ⟨first, rest, done, hbytes, hfirst, hdone, -⟩
    · rw [hnil] at hneed
      cases hneed
    · rw [hneed] at hfirst
      have hmore : r.Has b → List.Forall₂ Range.Has (done ++ [r]) (rest ++ [b]) := fun hb =>
        List.rel_append hdone (.cons hb .nil)
      split
      · next hb =>
        split
        · refine ⟨IsChar.valid ?_, Held.sound_empty⟩
          rw [hbytes]
          exact ⟨done ++ [r], hfirst, hmore hb⟩
        · next need hne =>
          refine ⟨Valid.nil, .inr ⟨first, rest ++ [b], done ++ [r], ?_, ?_, hmore hb,
            fun hnil => hne hnil⟩⟩
          · rw [hbytes]
            rfl
          · rw [hfirst, List.append_assoc]
            rfl
      · exact ⟨replacement_isChar.valid.append hlead.1, hlead.2⟩

theorem decode_sound {s : Held} (hs : s.Sound) (bytes : List UInt8) :
    Valid (decode s bytes).1 ∧ (decode s bytes).2.Sound := by
  induction bytes generalizing s with
  | nil => exact ⟨Valid.nil, hs⟩
  | cons b bytes ih =>
    obtain ⟨hvalid, hsound⟩ := decodeByte_sound hs b
    exact ⟨hvalid.append (ih hsound).1, (ih hsound).2⟩

/-- What the decoder hands out at the end is well formed, whatever it was
given. -/
theorem lossy_valid (bytes : List UInt8) : Valid (lossy bytes) := by
  obtain ⟨hvalid, -⟩ := decode_sound Held.sound_empty bytes
  refine hvalid.append ?_
  unfold Held.closed
  split
  · exact Valid.nil
  · exact replacement_isChar.valid

/-! ## What passes unchanged -/

/-- The rest of a character completes it. -/
theorem decode_rest (pre : List UInt8) {rest : List UInt8} {need : List Range} (hne : need ≠ [])
    (hrest : List.Forall₂ Range.Has need rest) : decode ⟨pre, need⟩ rest = (pre ++ rest, {}) := by
  induction hrest generalizing pre with
  | nil => exact absurd rfl hne
  | @cons r b need rest hb hrest ih =>
    cases need with
    | nil =>
      cases hrest
      simp [decode, decodeByte, hb]
    | cons r' need =>
      have hnext := ih (pre ++ [b]) (by simp)
      simp only [decode, decodeByte, hb, if_true, hnext]
      simp

theorem IsChar.decode {c : List UInt8} (hc : IsChar c) : decode {} c = (c, {}) := by
  cases c with
  | nil => exact hc.elim
  | cons b rest =>
    obtain ⟨needs, hb, hrest⟩ := hc
    cases hrest with
    | nil => simp [Utf8.decode, decodeByte, decodeLead, hb]
    | @cons r b' needs rest hb' hrest =>
      have hnext := decode_rest [b] (List.cons_ne_nil r needs) (.cons hb' hrest)
      rw [Utf8.decode]
      simp only [decodeByte, decodeLead, hb, hnext]
      rfl

/-- A well-formed text comes out as it is. -/
theorem Valid.decode {bytes : List UInt8} (h : Valid bytes) : decode {} bytes = (bytes, {}) := by
  obtain ⟨cs, hcs, rfl⟩ := h
  induction cs with
  | nil => rfl
  | cons c cs ih =>
    rw [List.flatten_cons, decode_append, (hcs c List.mem_cons_self).decode,
      ih fun d hd => hcs d (List.mem_cons_of_mem _ hd)]

theorem Valid.lossy {bytes : List UInt8} (h : Valid bytes) : lossy bytes = bytes := by
  simp [Utf8.lossy, h.decode, Held.closed]

/-- A byte below `0x80` ends what is held, and stands for itself. -/
theorem decodeByte_ascii {s : Held} (hs : s.Sound) {b : UInt8} (hb : b < 0x80) :
    decodeByte s b = (s.closed ++ [b], {}) := by
  have hlead : decodeLead b = ([b], {}) := by simp [decodeLead, leads_ascii hb]
  rcases hs with ⟨hbytes, hneed⟩ | ⟨first, rest, done, hbytes, hfirst, -, hne⟩
  · simp [decodeByte, hneed, hlead, Held.closed, hbytes]
  · obtain ⟨r, need, hneed⟩ := List.exists_cons_of_ne_nil hne
    have hhigh : 0x80 ≤ r.lo := leads_high hfirst r (by simp [hneed])
    have hout : ¬ r.Has b := fun hin =>
      UInt8.not_le.2 hb (UInt8.le_trans hhigh hin.1)
    simp [decodeByte, hneed, hout, hlead, Held.closed, hbytes]

/-- A text is decoded apart on either side of a byte below `0x80`. -/
theorem lossy_ascii {xs ys : List UInt8} {b : UInt8} (hb : b < 0x80) :
    lossy (xs ++ b :: ys) = lossy xs ++ b :: lossy ys := by
  have hs := (decode_sound Held.sound_empty xs).2
  simp only [lossy, decode_append, decode, decodeByte_ascii hs hb]
  simp

/-! ## What is held -/

/-- The beginning of a character is held. -/
theorem decode_begin (pre : List UInt8) {rest : List UInt8} {done need : List Range} (hne : need ≠ [])
    (hdone : List.Forall₂ Range.Has done rest) :
    decode ⟨pre, done ++ need⟩ rest = ([], ⟨pre ++ rest, need⟩) := by
  induction hdone generalizing pre with
  | nil => simp [decode]
  | @cons r b done rest hb hdone ih =>
    obtain ⟨r', more, hmore⟩ := List.exists_cons_of_ne_nil
      (List.append_ne_nil_of_right_ne_nil done hne)
    have hnext := ih (pre ++ [b])
    rw [hmore] at hnext
    rw [List.cons_append, hmore, decode]
    simp only [decodeByte, hb, if_true, hnext]
    simp

/-- What is held is all there is to know: the decoder comes to it from the
bytes alone. -/
theorem decode_held {s : Held} (hs : s.Sound) : decode {} s.bytes = ([], s) := by
  obtain ⟨bytes, need⟩ := s
  rcases hs with ⟨rfl, rfl⟩ | ⟨b, rest, done, rfl, hb, hdone, hne⟩
  · rfl
  · obtain ⟨r, more, hmore⟩ := List.exists_cons_of_ne_nil
      (List.append_ne_nil_of_right_ne_nil done hne)
    have hnext := decode_begin [b] hne hdone
    rw [hmore] at hb hnext
    rw [decode]
    simp only [decodeByte, decodeLead, hb, hnext]
    rfl

/-- Whatever is handed out or held was given, or replaces what was. -/
theorem decodeByte_mem {s : Held} {b x : UInt8} :
    (x ∈ (decodeByte s b).1 → x ∈ s.bytes ∨ x = b ∨ x ∈ replacement) ∧
      (x ∈ (decodeByte s b).2.bytes → x ∈ s.bytes ∨ x = b) := by
  have hlead : (x ∈ (decodeLead b).1 → x = b ∨ x ∈ replacement) ∧
      (x ∈ (decodeLead b).2.bytes → x = b) := by
    unfold decodeLead
    split <;> simp +contextual
  unfold decodeByte
  split
  · exact ⟨fun h => .inr (hlead.1 h), fun h => .inr (hlead.2 h)⟩
  · split
    · split
      · refine ⟨fun h => ?_, fun h => by cases h⟩
        rcases List.mem_append.1 h with h | h
        · exact .inl h
        · exact .inr (.inl (List.mem_singleton.1 h))
      · simp
    · refine ⟨fun h => ?_, fun h => .inr (hlead.2 h)⟩
      rcases List.mem_append.1 h with h | h
      · exact .inr (.inr h)
      · exact .inr (hlead.1 h)

theorem decode_mem {s : Held} {bytes : List UInt8} {x : UInt8}
    (h : x ∈ (decode s bytes).1 ++ (decode s bytes).2.closed) :
    x ∈ s.bytes ∨ x ∈ bytes ∨ x ∈ replacement := by
  induction bytes generalizing s with
  | nil =>
    rw [decode, List.nil_append, Held.closed] at h
    split at h
    · cases h
    · exact .inr (.inr h)
  | cons b bytes ih =>
    rw [decode, List.append_assoc] at h
    rcases List.mem_append.1 h with h | h
    · rcases decodeByte_mem.1 h with h | rfl | h
      · exact .inl h
      · exact .inr (.inl List.mem_cons_self)
      · exact .inr (.inr h)
    · rcases ih h with h | h | h
      · rcases decodeByte_mem.2 h with h | rfl
        · exact .inl h
        · exact .inr (.inl List.mem_cons_self)
      · exact .inr (.inl (List.mem_cons_of_mem _ h))
      · exact .inr (.inr h)

/-- A byte below `0x80` that is handed out was given. -/
theorem mem_of_mem_lossy {bytes : List UInt8} {x : UInt8} (h : x ∈ lossy bytes) (hx : x < 0x80) :
    x ∈ bytes := by
  rcases decode_mem h with h | h | h
  · cases h
  · exact h
  · have hhigh : ∀ y ∈ replacement, ¬ y < 0x80 := by decide +kernel
    exact absurd hx (hhigh x h)

theorem ascii_of_leads {b : UInt8} (h : leads b = some []) : b < 0x80 := by
  unfold leads at h
  grind

/-- Where all that is handed out is below `0x80`, so is all that was given. -/
theorem decode_low {s : Held} (hs : s.Sound) {bytes : List UInt8}
    (hlow : ∀ x ∈ (decode s bytes).1 ++ (decode s bytes).2.closed, x < 0x80) :
    s.bytes = [] ∧ ∀ x ∈ bytes, x < 0x80 := by
  have hreplaced : ¬ ∀ x ∈ replacement, x < 0x80 := by decide +kernel
  induction bytes generalizing s with
  | nil =>
    by_cases hnil : s.bytes = []
    · exact ⟨hnil, by simp⟩
    · simp only [decode, Held.closed, hnil, if_false, List.nil_append] at hlow
      exact absurd hlow hreplaced
  | cons b bytes ih =>
    rw [decode, List.append_assoc] at hlow
    have hout : ∀ x ∈ (decodeByte s b).1, x < 0x80 := fun x hx => hlow x (List.mem_append_left _ hx)
    obtain ⟨hnil, hrest⟩ := ih (decodeByte_sound hs b).2 fun x hx => hlow x (List.mem_append_right _ hx)
    rcases hs with ⟨hbytes, hneed⟩ | ⟨first, rest, done, hbytes, hfirst, -, hne⟩
    · refine ⟨hbytes, fun x hx => ?_⟩
      rcases List.mem_cons.1 hx with rfl | hx
      · simp only [decodeByte, hneed, decodeLead] at hout hnil
        split at hout
        · exact absurd hout hreplaced
        · next hlead => exact ascii_of_leads hlead
        · next need hne hlead => simp [hlead] at hnil
      · exact hrest x hx
    · -- whatever comes after it, what is held is not handed out as it is
      exfalso
      obtain ⟨r, need, hneed⟩ := List.exists_cons_of_ne_nil hne
      have hhigh : 0x80 ≤ r.lo := leads_high hfirst r (by simp [hneed])
      by_cases hb : r.Has b
      · cases need with
        | nil =>
          simp only [decodeByte, hneed, hb, if_true] at hout
          exact UInt8.not_le.2 (hout b (by simp)) (UInt8.le_trans hhigh hb.1)
        | cons r' need =>
          simp [decodeByte, hneed, hb] at hnil
      · simp only [decodeByte, hneed, hb, if_false] at hout
        exact hreplaced fun x hx => hout x (List.mem_append_left _ hx)

/-- What is held comes to something that begins with no byte below `0x80`. -/
theorem decode_head {s : Held} (hs : s.Sound) (hne : s.bytes ≠ []) (bytes : List UInt8) :
    ∃ x rest, (decode s bytes).1 ++ (decode s bytes).2.closed = x :: rest ∧ ¬ x < 0x80 := by
  have hreplaced : ∀ ys : List UInt8, ∃ x rest, replacement ++ ys = x :: rest ∧ ¬ x < 0x80 :=
    fun ys => ⟨0xEF, [0xBF, 0xBD] ++ ys, rfl, by decide⟩
  induction bytes generalizing s with
  | nil =>
    simp only [decode, Held.closed, hne, if_false, List.nil_append]
    simpa using hreplaced []
  | cons b bytes ih =>
    rw [decode, List.append_assoc]
    have hnext := (decodeByte_sound hs b).2
    rcases hs with ⟨hnil, -⟩ | ⟨first, rest, done, hbytes, hfirst, -, hneed⟩
    · exact absurd hnil hne
    · obtain ⟨r, need, hneed'⟩ := List.exists_cons_of_ne_nil hneed
      by_cases hb : r.Has b
      · cases need with
        | nil =>
          have hout : (decodeByte s b).1 = first :: (rest ++ [b]) := by
            simp only [decodeByte, hneed', hb, if_true, hbytes]
            rfl
          rw [hout, List.cons_append]
          refine ⟨first, _, rfl, fun hlow => ?_⟩
          rw [leads_ascii hlow] at hfirst
          exact hneed (List.append_eq_nil_iff.1 (Option.some.inj hfirst).symm).2
        | cons r' need =>
          have hmore : (decodeByte s b).1 = [] ∧ (decodeByte s b).2.bytes ≠ [] := by
            simp [decodeByte, hneed', hb]
          rw [hmore.1, List.nil_append]
          exact ih hnext hmore.2
      · simp only [decodeByte, hneed', hb, if_false, List.append_assoc]
        exact hreplaced _

/-- A text that begins with a byte below `0x80` was decoded from one. -/
theorem lossy_cons {bytes rest : List UInt8} {x : UInt8} (h : lossy bytes = x :: rest)
    (hx : x < 0x80) : ∃ more, bytes = x :: more ∧ lossy more = rest := by
  cases bytes with
  | nil => cases h
  | cons b bytes =>
    by_cases hb : b < 0x80
    · rw [show b :: bytes = [] ++ b :: bytes from rfl, lossy_ascii hb] at h
      obtain ⟨rfl, hrest⟩ := List.cons.inj h
      exact ⟨bytes, rfl, hrest⟩
    · exfalso
      have hhead : ∃ y ys, lossy (b :: bytes) = y :: ys ∧ ¬ y < 0x80 := by
        rw [lossy, decode, List.append_assoc]
        have hnext := (decodeLead_sound b).2
        simp only [decodeByte]
        cases hlead : leads b with
        | none => exact ⟨0xEF, _, by simp only [decodeLead, hlead]; rfl, by decide⟩
        | some need =>
          cases need with
          | nil => exact absurd (ascii_of_leads hlead) hb
          | cons r need =>
            have hheld : (decodeLead b).1 = [] ∧ (decodeLead b).2.bytes ≠ [] := by
              simp [decodeLead, hlead]
            rw [hheld.1, List.nil_append]
            exact decode_head hnext hheld.2 bytes
      obtain ⟨y, ys, hy, hhigh⟩ := hhead
      rw [hy] at h
      obtain ⟨rfl, -⟩ := List.cons.inj h
      exact hhigh hx

/-- The same of several bytes. -/
theorem lossy_append {low bytes rest : List UInt8} (hlow : ∀ x ∈ low, x < 0x80)
    (h : lossy bytes = low ++ rest) : ∃ more, bytes = low ++ more ∧ lossy more = rest := by
  induction low generalizing bytes with
  | nil => exact ⟨bytes, rfl, h⟩
  | cons x low ih =>
    obtain ⟨more, rfl, hmore⟩ := lossy_cons h (hlow x List.mem_cons_self)
    obtain ⟨more, rfl, hrest⟩ := ih (fun y hy => hlow y (List.mem_cons_of_mem _ hy)) hmore
    exact ⟨more, rfl, hrest⟩

theorem lossy_low {low : List UInt8} (hlow : ∀ x ∈ low, x < 0x80) (bytes : List UInt8) :
    lossy (low ++ bytes) = low ++ lossy bytes := by
  induction low with
  | nil => rfl
  | cons x low ih =>
    rw [List.cons_append, show x :: (low ++ bytes) = [] ++ x :: (low ++ bytes) from rfl,
      lossy_ascii (hlow x List.mem_cons_self), ih fun y hy => hlow y (List.mem_cons_of_mem _ hy)]
    rfl

/-- Nothing comes of nothing else. -/
theorem lossy_eq_nil {bytes : List UInt8} : lossy bytes = [] ↔ bytes = [] := by
  refine ⟨fun h => ?_, by rintro rfl; rfl⟩
  have hplain : ∀ x ∈ (decode {} bytes).1 ++ (decode {} bytes).2.closed, x < 0x80 := by
    rw [← lossy, h]
    exact fun x hx => absurd hx List.not_mem_nil
  have hlow := (decode_low Held.sound_empty hplain).2
  have hall := lossy_low hlow []
  rw [List.append_nil, h] at hall
  exact (List.append_eq_nil_iff.1 hall.symm).1

/-- A well-formed text does not begin in the middle of a character. -/
theorem Valid.head {x : UInt8} {rest : List UInt8} (h : Valid (x :: rest)) :
    ¬ (0x80 ≤ x ∧ x ≤ 0xBF) := by
  obtain ⟨cs, hcs, hflatten⟩ := h
  cases cs with
  | nil => cases hflatten
  | cons c cs =>
    have hc := hcs c List.mem_cons_self
    cases c with
    | nil => exact hc.elim
    | cons b c =>
      obtain ⟨rfl, -⟩ := List.cons.inj hflatten
      obtain ⟨needs, hlead, -⟩ := hc
      unfold leads at hlead
      grind

/-! ## The check and the decoder -/

/-- What the check's answer says of the decoder. -/
def Explains (held : List UInt8) (need : List Range) (bytes : List UInt8) (validUpTo : ℕ) :
    Option Utf8Error → Prop
  | none => decode ⟨held, need⟩ bytes = (held ++ bytes, {})
  | some ⟨n, none⟩ => ∃ valid cut s, held ++ bytes = valid ++ cut ∧ n = validUpTo + valid.length ∧
      cut ≠ [] ∧ s.bytes = cut ∧ decode ⟨held, need⟩ bytes = (valid, s)
  | some ⟨n, some skip⟩ => ∃ valid bad rest, held ++ bytes = valid ++ (bad ++ rest) ∧
      n = validUpTo + valid.length ∧ bad.length = skip ∧ bad ≠ [] ∧
      decode ⟨held, need⟩ bytes = (valid ++ (replacement ++ (decode {} rest).1), (decode {} rest).2)

/-- More of a character that the check has taken in. -/
theorem Explains.cons {held : List UInt8} {need need' : List Range} {b : UInt8} {bytes : List UInt8}
    {n : ℕ} (hb : decodeByte ⟨held, need⟩ b = ([], ⟨held ++ [b], need'⟩)) :
    ∀ {answer}, Explains (held ++ [b]) need' bytes n answer → Explains held need (b :: bytes) n answer
  | none, h => by
    simp only [Explains, decode, hb] at h ⊢
    simpa using h
  | some ⟨m, none⟩, ⟨valid, cut, s, hsplit, hn, hcut, hs, hdecode⟩ => by
    refine ⟨valid, cut, s, by simpa using hsplit, hn, hcut, hs, ?_⟩
    simp [decode, hb, hdecode]
  | some ⟨m, some skip⟩, ⟨valid, bad, rest, hsplit, hn, hbad, hne, hdecode⟩ => by
    refine ⟨valid, bad, rest, by simpa using hsplit, hn, hbad, hne, ?_⟩
    simp [decode, hb, hdecode]

/-- A character that the check has found whole. -/
theorem Explains.char {held : List UInt8} {need : List Range} {b : UInt8} {bytes : List UInt8}
    {n : ℕ} (hb : decodeByte ⟨held, need⟩ b = (held ++ [b], {})) :
    ∀ {answer}, Explains [] [] bytes (n + (held.length + 1)) answer →
      Explains held need (b :: bytes) n answer
  | none, h => by
    simp only [Explains, decode, hb, List.nil_append] at h ⊢
    simp [show decode {} bytes = _ from h]
  | some ⟨m, none⟩, ⟨valid, cut, s, hsplit, hn, hcut, hs, hdecode⟩ => by
    refine ⟨held ++ b :: valid, cut, s, ?_, ?_, hcut, hs, ?_⟩
    · simp only [List.nil_append] at hsplit
      simp [hsplit]
    · simp only [List.length_append, List.length_cons]
      omega
    · simp [decode, hb, show decode {} bytes = _ from hdecode]
  | some ⟨m, some skip⟩, ⟨valid, bad, rest, hsplit, hn, hbad, hne, hdecode⟩ => by
    refine ⟨held ++ b :: valid, bad, rest, ?_, ?_, hbad, hne, ?_⟩
    · simp only [List.nil_append] at hsplit
      simp [hsplit]
    · simp only [List.length_append, List.length_cons]
      omega
    · simp [decode, hb, show decode {} bytes = _ from hdecode]

theorem check_explains (bytes : List UInt8) : ∀ (n : ℕ) (held : List UInt8) (need : List Range),
    (need = [] ↔ held = []) → Explains held need bytes n (check n held.length need bytes) := by
  induction bytes with
  | nil =>
    intro n held need hboth
    cases need with
    | nil =>
      obtain rfl := hboth.1 rfl
      simp [check, Explains, decode]
    | cons r need =>
      have hne : held ≠ [] := fun hnil => List.cons_ne_nil r need (hboth.2 hnil)
      exact ⟨[], held, ⟨held, r :: need⟩, by simp, rfl, hne, rfl, rfl⟩
  | cons b bytes ih =>
    intro n held need hboth
    cases need with
    | nil =>
      obtain rfl := hboth.1 rfl
      cases hlead : leads b with
      | none =>
        simp only [check, hlead]
        refine ⟨[], [b], bytes, rfl, rfl, rfl, by simp, ?_⟩
        simp [decode, decodeByte, decodeLead, hlead]
      | some need =>
        cases need with
        | nil =>
          simp only [check, hlead]
          exact Explains.char (by simp [decodeByte, decodeLead, hlead]) (ih (n + 1) [] [] (by simp))
        | cons r need =>
          simp only [check, hlead]
          exact Explains.cons (by simp [decodeByte, decodeLead, hlead])
            (ih n [b] (r :: need) (by simp))
    | cons r need =>
      have hne : held ≠ [] := fun hnil => List.cons_ne_nil r need (hboth.2 hnil)
      by_cases hb : r.Has b
      · cases need with
        | nil =>
          simp only [check, hb, if_true]
          exact Explains.char (by simp [decodeByte, hb]) (ih (n + (held.length + 1)) [] [] (by simp))
        | cons r' need =>
          simp only [check, hb, if_true]
          have hmore := ih n (held ++ [b]) (r' :: need) (by simp)
          rw [List.length_append, List.length_singleton] at hmore
          exact Explains.cons (by simp [decodeByte, hb]) hmore
      · -- the byte begins a character of its own
        simp only [check, hb, if_false]
        refine ⟨[], held, b :: bytes, by simp, rfl, rfl, hne, ?_⟩
        simp [decode, decodeByte, hb]

/-- **The check and the decoder.** A text with nothing wrong is decoded as
it is; one that ends inside a character, up to that; and one with an
invalid sequence, up to it, with a replacement for it and the rest of the
text decoded from there. -/
theorem fromUtf8_cases (bytes : List UInt8) : Explains [] [] bytes 0 (fromUtf8 bytes) :=
  check_explains bytes 0 [] [] (by simp)

/-! ## Texts with nothing wrong -/

theorem check_rest {need : List Range} {rest : List UInt8} (hne : need ≠ [])
    (hrest : List.Forall₂ Range.Has need rest) (n held : ℕ) (more : List UInt8) :
    check n held need (rest ++ more) = check (n + held + rest.length) 0 [] more := by
  induction hrest generalizing held with
  | nil => exact absurd rfl hne
  | @cons r b need rest hb hrest ih =>
    rw [List.cons_append]
    cases need with
    | nil =>
      obtain rfl := List.forall₂_nil_left_iff.1 hrest
      simp [check, hb]
    | cons r' need =>
      have hnext := ih (by simp) (held + 1)
      simp only [check, hb, if_true, hnext, List.length_cons]
      congr 1
      omega

theorem IsChar.check {c : List UInt8} (hc : IsChar c) (n : ℕ) (more : List UInt8) :
    check n 0 [] (c ++ more) = Utf8.check (n + c.length) 0 [] more := by
  cases c with
  | nil => exact hc.elim
  | cons b rest =>
    obtain ⟨needs, hb, hrest⟩ := hc
    rw [List.cons_append]
    cases needs with
    | nil =>
      obtain rfl := List.forall₂_nil_left_iff.1 hrest
      simp [Utf8.check, hb]
    | cons r needs =>
      simp only [Utf8.check, hb, check_rest (List.cons_ne_nil r needs) hrest, List.length_cons]
      congr 1
      omega

/-- A well-formed text passes the check. -/
theorem Valid.fromUtf8 {bytes : List UInt8} (h : Valid bytes) : fromUtf8 bytes = none := by
  obtain ⟨cs, hcs, rfl⟩ := h
  have hpass : ∀ n, check n 0 [] cs.flatten = none := by
    induction cs with
    | nil => intro n; rfl
    | cons c cs ih =>
      intro n
      rw [List.flatten_cons, (hcs c List.mem_cons_self).check]
      exact ih (fun d hd => hcs d (List.mem_cons_of_mem c hd)) _
  exact hpass 0

/-- Past its first byte a character has none below `0x80`. -/
theorem IsChar.high {b : UInt8} {rest : List UInt8} (h : IsChar (b :: rest)) :
    ∀ x ∈ rest, 0x80 ≤ x := by
  obtain ⟨needs, hb, hrest⟩ := h
  have hlo := leads_high hb
  clear hb
  induction hrest with
  | nil => simp
  | @cons r x needs rest hx hrest ih =>
    intro y hy
    rcases List.mem_cons.1 hy with rfl | hy
    · exact UInt8.le_trans (hlo r List.mem_cons_self) hx.1
    · exact ih (fun r hr => hlo r (List.mem_cons_of_mem _ hr)) y hy

/-- A text may be cut at a byte below `0x80`. -/
theorem Valid.split {xs ys : List UInt8} {b : UInt8} (hb : b < 0x80) (h : Valid (xs ++ b :: ys)) :
    Valid xs ∧ Valid ys := by
  obtain ⟨cs, hcs, hflat⟩ := h
  induction cs generalizing xs with
  | nil => simp at hflat
  | cons c cs ih =>
    have hmore : ∀ {zs : List UInt8}, cs.flatten = zs ++ b :: ys → Valid zs ∧ Valid ys :=
      ih fun d hd => hcs d (List.mem_cons_of_mem c hd)
    have hc := hcs c List.mem_cons_self
    rw [List.flatten_cons] at hflat
    rcases List.append_eq_append_iff.1 hflat with ⟨zs, rfl, hzs⟩ | ⟨zs, rfl, hzs⟩
    · obtain ⟨hpre, hys⟩ := hmore hzs
      exact ⟨hc.valid.append hpre, hys⟩
    · cases zs with
      | nil =>
        obtain ⟨-, hys⟩ := hmore (show cs.flatten = [] ++ b :: ys from hzs.symm)
        simp only [List.append_nil] at hc
        exact ⟨hc.valid, hys⟩
      | cons z zs =>
        obtain ⟨rfl, rfl⟩ := List.cons.inj hzs
        cases xs with
        | nil =>
          -- the byte is the whole of its character
          obtain ⟨needs, hneeds, hrest⟩ := hc
          obtain rfl := Option.some.inj (hneeds.symm.trans (leads_ascii hb))
          obtain rfl := List.forall₂_nil_left_iff.1 hrest
          exact ⟨.nil, cs, fun d hd => hcs d (List.mem_cons_of_mem _ hd), rfl⟩
        | cons x xs =>
          have := hc.high b (by simp)
          exact absurd hb (UInt8.not_lt.2 this)

end Utf8

end Shep
