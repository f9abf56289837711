import Mathlib.Tactic.Ring
import Shep.Values.Model

/-!
# Values — what is read, and that it is read back

`Reads` is the documented grammar: digits and a unit of a table, and the
number they come to. **`values_exact`**: both parsers accept just the
strings of their grammar whose value fits in a `u64` and return that value,
and what either type shows is read back as it was.
-/

namespace Shep

namespace Values

open Nat (ofDigitChars)

/-- The grammar of a table of units: a string of digits and a unit that
come to `n`. -/
def Reads (units : List (String × UInt64)) (s : String) (n : ℕ) : Prop :=
  ∃ (digits : List Char) (suffix : String) (unit : UInt64), digits ≠ [] ∧
    (∀ c ∈ digits, c.isDigit = true) ∧ (suffix, unit) ∈ units ∧
    s.toList = digits ++ suffix.toList ∧ n = ofDigitChars 10 digits 0 * unit.toNat

/-- `^\d+(G|M|K)?$`. -/
def memUnits : List (String × UInt64) := [("", 1), ("G", gib), ("M", mib), ("K", kib)]

/-- `^\d+(ms|d|h|m|s)?$`. -/
def durationUnits : List (String × UInt64) :=
  [("", 1), ("ms", 1), ("d", msPerD), ("h", msPerH), ("m", msPerMin), ("s", msPerS)]

variable {a b v unit : UInt64} {digits text : List Char} {c : Char} {s : String}

/-! ## Digits -/

theorem checkedMul_eq_some : checkedMul a b = some v ↔ a.toNat * b.toNat = v.toNat := by
  unfold checkedMul
  split
  · next h =>
    rw [Option.some.injEq, ← UInt64.toNat_inj, UInt64.toNat_mul, Nat.mod_eq_of_lt h]
  · next h =>
    have := v.toNat_lt
    simp only [reduceCtorEq, false_iff]
    omega

theorem checkedAdd_eq_some : checkedAdd a b = some v ↔ a.toNat + b.toNat = v.toNat := by
  unfold checkedAdd
  split
  · next h =>
    rw [Option.some.injEq, ← UInt64.toNat_inj, UInt64.toNat_add, Nat.mod_eq_of_lt h]
  · next h =>
    have := v.toNat_lt
    simp only [reduceCtorEq, false_iff]
    omega

theorem digit_lt (hc : c.isDigit = true) : c.toNat - '0'.toNat < 10 := by
  have h := Char.isDigit_iff_toNat.1 hc
  simp only [Char.reduceToNat] at h ⊢
  omega

/-- One more digit is read, if the number it makes fits. -/
theorem readDigit_eq_some (hc : c.isDigit = true) :
    readDigit a c = some v ↔ 10 * a.toNat + (c.toNat - '0'.toNat) = v.toNat := by
  have hlt := digit_lt hc
  have hd : (UInt64.ofNat (c.toNat - '0'.toNat)).toNat = c.toNat - '0'.toNat :=
    UInt64.toNat_ofNat_of_lt' (by simp only [UInt64.size]; omega)
  unfold readDigit
  constructor
  · intro h
    obtain ⟨tens, htens, hadd⟩ := Option.bind_eq_some_iff.1 h
    have hmul := checkedMul_eq_some.1 htens
    have hsum := checkedAdd_eq_some.1 hadd
    simp only [UInt64.reduceToNat] at hmul
    omega
  · intro h
    have hfits : 10 * a.toNat < 2 ^ 64 := by
      have := v.toNat_lt
      omega
    refine Option.bind_eq_some_iff.2 ⟨UInt64.ofNat (10 * a.toNat), checkedMul_eq_some.2 ?_,
      checkedAdd_eq_some.2 ?_⟩
    · rw [UInt64.toNat_ofNat_of_lt' hfits, Nat.mul_comm]
      rfl
    · rw [UInt64.toNat_ofNat_of_lt' hfits, hd]
      exact h

theorem le_ofDigitChars (digits : List Char) (init : ℕ) : init ≤ ofDigitChars 10 digits init := by
  induction digits generalizing init with
  | nil => simp
  | cons c digits ih =>
    rw [Nat.ofDigitChars_cons]
    have := ih (10 * init + (c.toNat - '0'.toNat))
    omega

/-- Digits are read to the number they stand for, if it fits. Where a prefix
does not fit, no more does the whole. -/
theorem foldlM_readDigit (hd : ∀ c ∈ digits, c.isDigit = true) :
    digits.foldlM readDigit a = some v ↔ ofDigitChars 10 digits a.toNat = v.toNat := by
  induction digits generalizing a with
  | nil => simp [UInt64.toNat_inj]
  | cons c digits ih =>
    have hc := hd c List.mem_cons_self
    have hrest : ∀ c ∈ digits, c.isDigit = true := fun c hc => hd c (List.mem_cons_of_mem _ hc)
    rw [List.foldlM_cons, Nat.ofDigitChars_cons, Option.bind_eq_bind]
    cases hr : readDigit a c with
    | some next =>
      rw [Option.bind_some, ih hrest, (readDigit_eq_some hc).1 hr]
    | none =>
      have hle := le_ofDigitChars digits (10 * a.toNat + (c.toNat - '0'.toNat))
      simp only [Option.bind_none, reduceCtorEq, false_iff]
      intro h
      have hlt := v.toNat_lt
      have hsome : readDigit a c =
          some (UInt64.ofNat (10 * a.toNat + (c.toNat - '0'.toNat))) := by
        rw [readDigit_eq_some hc, UInt64.toNat_ofNat_of_lt' (by simp only [UInt64.size]; omega)]
      rw [hr] at hsome
      cases hsome

theorem parseDigits_eq_some (hd : ∀ c ∈ digits, c.isDigit = true) :
    parseDigits digits = some v ↔ ofDigitChars 10 digits 0 = v.toNat :=
  foldlM_readDigit hd

theorem parseDigits_eq_none (hd : ∀ c ∈ digits, c.isDigit = true) (h : parseDigits digits = none) :
    2 ^ 64 ≤ ofDigitChars 10 digits 0 := by
  by_contra hlt
  have hsome : parseDigits digits = some (UInt64.ofNat (ofDigitChars 10 digits 0)) := by
    rw [parseDigits_eq_some hd, UInt64.toNat_ofNat_of_lt' (Nat.not_le.1 hlt)]
  rw [h] at hsome
  cases hsome

/-- Digits under a unit. -/
theorem scaled_eq_ok (hu : 0 < unit.toNat) : scaled digits unit = .ok v ↔ digits ≠ [] ∧
    (∀ c ∈ digits, c.isDigit = true) ∧ v.toNat = ofDigitChars 10 digits 0 * unit.toNat := by
  unfold scaled
  by_cases hne : digits = []
  · simp [hne]
  by_cases hd : ∀ c ∈ digits, c.isDigit = true
  · have hall : (!digits.all Char.isDigit) = false := by
      rw [List.all_eq_true.2 hd]
      rfl
    rw [if_neg (by simpa using hne), hall, if_neg Bool.false_ne_true]
    have hiff : (digits ≠ [] ∧ (∀ c ∈ digits, c.isDigit = true) ∧
        v.toNat = ofDigitChars 10 digits 0 * unit.toNat) ↔
          ofDigitChars 10 digits 0 * unit.toNat = v.toNat :=
      ⟨fun h => h.2.2.symm, fun h => ⟨hne, hd, h.symm⟩⟩
    rw [hiff]
    cases hp : parseDigits digits with
    | some value =>
      dsimp only
      rw [(parseDigits_eq_some hd).1 hp, ← checkedMul_eq_some]
      cases checkedMul value unit <;> simp
    | none =>
      -- the digits alone are too much, and no unit makes them less
      have hlarge := parseDigits_eq_none hd hp
      have hle := Nat.le_mul_of_pos_right (ofDigitChars 10 digits 0) hu
      have hlt := v.toNat_lt
      simp only [reduceCtorEq, false_iff]
      omega
  · have hall : (!digits.all Char.isDigit) = true := by
      rw [Bool.not_eq_true', ← Bool.not_eq_true, List.all_eq_true]
      exact hd
    rw [if_neg (by simpa using hne), hall, if_pos rfl]
    simp [hd]

/-! ## Units -/

theorem getLast?_isDigit (hne : digits ≠ []) (hd : ∀ c ∈ digits, c.isDigit = true) :
    ∃ c, digits.getLast? = some c ∧ c.isDigit = true :=
  ⟨_, List.getLast?_eq_some_getLast hne, hd _ (List.getLast_mem hne)⟩

/-- A split into digits and a unit is right for a table, if it takes every
unit of the table off the digits before it and nothing else off anything. -/
structure Splits (units : List (String × UInt64)) (split : List Char → List Char × UInt64) :
    Prop where
  pos : ∀ e ∈ units, 0 < e.2.toNat
  /-- What is taken off is a unit. -/
  unit : ∀ text, ∃ suffix : String, (suffix, (split text).2) ∈ units ∧
    text = (split text).1 ++ suffix.toList
  /-- A unit behind digits is taken off. -/
  digits : ∀ (digits : List Char) (suffix : String) (unit : UInt64), digits ≠ [] →
    (∀ c ∈ digits, c.isDigit = true) → (suffix, unit) ∈ units →
    split (digits ++ suffix.toList) = (digits, unit)

/-- **What a right split reads is the grammar**, as far as a `u64` goes. -/
theorem Splits.scaled_iff {units : List (String × UInt64)}
    {split : List Char → List Char × UInt64} (h : Splits units split) :
    scaled (split s.toList).1 (split s.toList).2 = .ok v ↔ Reads units s v.toNat := by
  have hpos : 0 < (split s.toList).2.toNat := by
    obtain ⟨suffix, hmem, -⟩ := h.unit s.toList
    exact h.pos _ hmem
  rw [scaled_eq_ok hpos]
  constructor
  · rintro ⟨hne, hd, hv⟩
    obtain ⟨suffix, hmem, htext⟩ := h.unit s.toList
    exact ⟨_, suffix, _, hne, hd, hmem, htext, hv⟩
  · rintro ⟨digits, suffix, unit, hne, hd, hmem, htext, hv⟩
    rw [htext, h.digits digits suffix unit hne hd hmem]
    exact ⟨hne, hd, hv⟩

theorem not_reads_empty {units : List (String × UInt64)} {n : ℕ} (hs : s.toList = []) :
    ¬ Reads units s n := by
  rintro ⟨digits, suffix, unit, hne, -, -, htext, -⟩
  rw [hs] at htext
  exact hne (List.append_eq_nil_iff.1 htext.symm).1

theorem getLast?_ne (hne : digits ≠ []) (hd : ∀ c ∈ digits, c.isDigit = true)
    (hc : c.isDigit = false) : digits.getLast? ≠ some c := by
  obtain ⟨last, hlast, hdigit⟩ := getLast?_isDigit hne hd
  rw [hlast]
  rintro h
  rw [Option.some.inj h, hc] at hdigit
  cases hdigit

theorem MemSize.splits : Splits memUnits MemSize.splitUnit where
  pos := by decide
  unit text := by
    unfold splitUnit
    split
    · next h => exact ⟨"G", by simp [memUnits], (List.dropLast_append_getLast? _ h).symm⟩
    · next h => exact ⟨"M", by simp [memUnits], (List.dropLast_append_getLast? _ h).symm⟩
    · next h => exact ⟨"K", by simp [memUnits], (List.dropLast_append_getLast? _ h).symm⟩
    · exact ⟨"", by simp [memUnits], (List.append_nil _).symm⟩
  digits digits suffix unit hne hd hmem := by
    simp only [memUnits, List.mem_cons, Prod.mk.injEq, List.not_mem_nil, or_false] at hmem
    rcases hmem with ⟨rfl, rfl⟩ | ⟨rfl, rfl⟩ | ⟨rfl, rfl⟩ | ⟨rfl, rfl⟩
    · rw [String.toList_empty, List.append_nil]
      unfold splitUnit
      split
      · next h => exact absurd h (getLast?_ne hne hd (by decide))
      · next h => exact absurd h (getLast?_ne hne hd (by decide))
      · next h => exact absurd h (getLast?_ne hne hd (by decide))
      · rfl
    · rw [show "G".toList = ['G'] from rfl]
      simp [splitUnit]
    · rw [show "M".toList = ['M'] from rfl]
      simp [splitUnit]
    · rw [show "K".toList = ['K'] from rfl]
      simp [splitUnit]

namespace UpDuration

theorem stripMs_eq_some {rest : List Char} : stripMs text = some rest ↔ text = rest ++ ['m', 's'] := by
  unfold stripMs
  constructor
  · intro h
    split at h
    · next hs =>
      obtain ⟨front, rfl⟩ := List.isSuffixOf_iff_suffix.1 hs
      obtain rfl := Option.some.inj h
      simp
    · cases h
  · rintro rfl
    rw [if_pos (List.isSuffixOf_iff_suffix.2 ⟨rest, rfl⟩)]
    simp

/-- Digits, with one more character behind them or none, do not end in
`ms`. -/
theorem stripMs_digits (hd : ∀ c ∈ digits, c.isDigit = true) (unit : List Char)
    (hu : unit.length ≤ 1) : stripMs (digits ++ unit) = none := by
  cases h : stripMs (digits ++ unit) with
  | none => rfl
  | some rest =>
    have htext := stripMs_eq_some.1 h
    have hm : 'm' ∈ digits := by
      have hsplit : digits ++ unit = (rest ++ ['m']) ++ ['s'] := by simp [htext]
      rcases List.append_eq_append_iff.1 hsplit with ⟨more, hmore, hback⟩ | ⟨more, hmore, hback⟩
      · have hlen := congrArg List.length hback
        simp only [List.length_append, List.length_singleton] at hlen
        obtain rfl : more = [] := List.length_eq_zero_iff.1 (by omega)
        rw [List.append_nil] at hmore
        rw [← hmore]
        simp
      · rw [hmore]
        simp
    exact absurd (hd _ hm) (by decide)

theorem splits : Splits durationUnits splitUnit where
  pos := by decide
  unit text := by
    unfold splitUnit
    split
    · next rest h => exact ⟨"ms", by simp [durationUnits], stripMs_eq_some.1 h⟩
    · split
      · next h => exact ⟨"d", by simp [durationUnits], (List.dropLast_append_getLast? _ h).symm⟩
      · next h => exact ⟨"h", by simp [durationUnits], (List.dropLast_append_getLast? _ h).symm⟩
      · next h => exact ⟨"m", by simp [durationUnits], (List.dropLast_append_getLast? _ h).symm⟩
      · next h => exact ⟨"s", by simp [durationUnits], (List.dropLast_append_getLast? _ h).symm⟩
      · exact ⟨"", by simp [durationUnits], (List.append_nil _).symm⟩
  digits digits suffix unit hne hd hmem := by
    simp only [durationUnits, List.mem_cons, Prod.mk.injEq, List.not_mem_nil, or_false] at hmem
    rcases hmem with ⟨rfl, rfl⟩ | ⟨rfl, rfl⟩ | ⟨rfl, rfl⟩ | ⟨rfl, rfl⟩ | ⟨rfl, rfl⟩ | ⟨rfl, rfl⟩
    · rw [String.toList_empty]
      unfold splitUnit
      rw [stripMs_digits hd [] (by simp), List.append_nil]
      dsimp only
      split
      · next h => exact absurd h (getLast?_ne hne hd (by decide))
      · next h => exact absurd h (getLast?_ne hne hd (by decide))
      · next h => exact absurd h (getLast?_ne hne hd (by decide))
      · next h => exact absurd h (getLast?_ne hne hd (by decide))
      · rfl
    · have hms : stripMs (digits ++ "ms".toList) = some digits := stripMs_eq_some.2 rfl
      unfold splitUnit
      rw [hms]
    · have hms := stripMs_digits hd ['d'] (by simp)
      rw [show "d".toList = ['d'] from rfl]
      simp [splitUnit, hms]
    · have hms := stripMs_digits hd ['h'] (by simp)
      rw [show "h".toList = ['h'] from rfl]
      simp [splitUnit, hms]
    · have hms := stripMs_digits hd ['m'] (by simp)
      rw [show "m".toList = ['m'] from rfl]
      simp [splitUnit, hms]
    · have hms := stripMs_digits hd ['s'] (by simp)
      rw [show "s".toList = ['s'] from rfl]
      simp [splitUnit, hms]

end UpDuration

/-! ## Both parsers -/

theorem MemSize.fromStr_eq_ok {size : MemSize} :
    fromStr s = .ok size ↔ Reads memUnits s size.bytes.toNat := by
  unfold fromStr
  by_cases hs : s.toList = []
  · simp [hs, not_reads_empty hs]
  · dsimp only
    rw [if_neg (by simpa using hs), ← MemSize.splits.scaled_iff]
    obtain ⟨bytes⟩ := size
    cases scaled (splitUnit s.toList).1 (splitUnit s.toList).2 <;> simp

theorem UpDuration.fromStr_eq_ok {duration : UpDuration} :
    fromStr s = .ok duration ↔ Reads durationUnits s duration.millis.toNat := by
  unfold fromStr
  by_cases hs : s.toList = []
  · simp [hs, not_reads_empty hs]
  · dsimp only
    rw [if_neg (by simpa using hs), ← UpDuration.splits.scaled_iff]
    obtain ⟨millis⟩ := duration
    cases scaled (splitUnit s.toList).1 (splitUnit s.toList).2 <;> simp

/-! ## What is shown -/

theorem reads_written {units : List (String × UInt64)} {suffix : String} {number : UInt64}
    (unit : UInt64)
    (hmem : (suffix, unit) ∈ units) (hv : v.toNat = number.toNat * unit.toNat) :
    Reads units (written number suffix) v.toNat := by
  refine ⟨Nat.toDigits 10 number.toNat, suffix, unit, Nat.toDigits_ne_nil,
    fun c hc => Nat.isDigit_of_mem_toDigits (by decide) (by decide) hc, hmem, ?_, ?_⟩
  · rw [written, String.toList_append, Nat.toList_repr]
  · rw [Nat.ofDigitChars_ten_toDigits, hv]

theorem toNat_div_mul (h : v % unit = 0) : v.toNat = (v / unit).toNat * unit.toNat := by
  have hmod : v.toNat % unit.toNat = 0 := by
    rw [← UInt64.toNat_mod, h]
    rfl
  rw [UInt64.toNat_div, Nat.div_mul_cancel (Nat.dvd_of_mod_eq_zero hmod)]

theorem reads_zero {units : List (String × UInt64)} (hmem : ("", 1) ∈ units) :
    Reads units "0" 0 :=
  ⟨['0'], "", 1, by simp, by simp [Char.isDigit], hmem, rfl, rfl⟩

theorem MemSize.reads_display (size : MemSize) :
    Reads memUnits size.display size.bytes.toNat := by
  obtain ⟨b⟩ := size
  unfold display
  dsimp only
  split
  · next h =>
    rw [h]
    exact reads_zero (by simp [memUnits])
  · split
    · next h => exact reads_written _ (by simp [memUnits]) (toNat_div_mul h)
    · split
      · next h => exact reads_written _ (by simp [memUnits]) (toNat_div_mul h)
      · split
        · next h => exact reads_written _ (by simp [memUnits]) (toNat_div_mul h)
        · exact reads_written 1 (by simp [memUnits]) (Nat.mul_one _).symm

theorem UpDuration.reads_display (duration : UpDuration) :
    Reads durationUnits duration.display duration.millis.toNat := by
  obtain ⟨v⟩ := duration
  unfold display
  dsimp only
  split
  · next h =>
    rw [h]
    exact reads_zero (by simp [durationUnits])
  · split
    · next h => exact reads_written _ (by simp [durationUnits]) (toNat_div_mul h)
    · split
      · next h => exact reads_written _ (by simp [durationUnits]) (toNat_div_mul h)
      · split
        · next h => exact reads_written _ (by simp [durationUnits]) (toNat_div_mul h)
        · exact reads_written 1 (by simp [durationUnits]) (Nat.mul_one _).symm

/-- **Sizes and durations are read exactly, and read back.** A string is
accepted as a value if and only if the grammar reads it as that value, and
every value is read back from what it is shown as. -/
theorem values_exact :
    (∀ (s : String) (size : MemSize),
      MemSize.fromStr s = .ok size ↔ Reads memUnits s size.bytes.toNat) ∧
    (∀ (s : String) (duration : UpDuration),
      UpDuration.fromStr s = .ok duration ↔ Reads durationUnits s duration.millis.toNat) ∧
    (∀ size : MemSize, MemSize.fromStr size.display = .ok size) ∧
    ∀ duration : UpDuration, UpDuration.fromStr duration.display = .ok duration :=
  ⟨fun _ _ => MemSize.fromStr_eq_ok, fun _ _ => UpDuration.fromStr_eq_ok,
    fun size => MemSize.fromStr_eq_ok.2 size.reads_display,
    fun duration => UpDuration.fromStr_eq_ok.2 duration.reads_display⟩

/-- The largest size is in whole bytes only. -/
example : MemSize.fromStr "18446744073709551615" = .ok ⟨18446744073709551615⟩ ∧
    MemSize.fromStr "17179869184G" = .error .overflow := by decide +kernel

end Values

end Shep
