import Mathlib.Data.Finset.Insert
import Mathlib.Data.Finset.Filter
import Shep.Bark.Model

/-!
# Metrics — the samples the metrics dog keeps

`grammar.rs`, `samples.rs` and what `feed.rs` does with a bus event: the
rules a channel sample has to satisfy, and the store that keeps the last one
for each sender, name and label set. Texts are the characters of a `String`;
an `Instant` is a number of nanoseconds.
-/

namespace Shep

namespace Metrics

open Bark (ProcessEventKind ProcStatus)

/-- A `String`, as its characters. -/
abbrev Text := List Char

/-- A label and its value. -/
abbrev Label := Text × Text

/-- `str::len`. -/
def len (text : Text) : ℕ := (text.map Char.utf8Size).sum

/-- The order of a pair in Rust: by the first, then by the second. -/
instance pairOrd {α β : Type} [Ord α] [Ord β] : Ord (α × β) := lexOrd

/-! ## Numbers -/

instance neZeroExponent : NeZero 2048 := ⟨by decide⟩

instance neZeroFraction : NeZero (2 ^ 52) := ⟨by decide⟩

instance neZeroExponent32 : NeZero 256 := ⟨by decide⟩

instance neZeroFraction32 : NeZero (2 ^ 23) := ⟨by decide⟩

/-- An `f64`, by its sign, exponent and fraction. -/
structure F64 where
  negative : Bool
  exponent : Fin 2048
  fraction : Fin (2 ^ 52)
  deriving Repr, DecidableEq

namespace F64

def isFinite (x : F64) : Bool := x.exponent ≠ 2047

def isNan (x : F64) : Bool := x.exponent = 2047 ∧ x.fraction ≠ 0

/-- The significant bits of a number with `e + 1` of them, `52 < e`: 53,
rounded to the nearest and from halfway to the even one. -/
def rounded (n e : ℕ) : ℕ :=
  let shift := e - 52
  let q := n / 2 ^ shift
  let r := n % 2 ^ shift
  if 2 ^ (shift - 1) < r ∨ r = 2 ^ (shift - 1) ∧ q % 2 = 1 then q + 1 else q

/-- `n as f64`, for a `u64`. -/
def ofU64 (n : ℕ) : F64 :=
  if n = 0 then ⟨false, 0, 0⟩
  else
    let e := Nat.log2 n
    if e ≤ 52 then
      ⟨false, Fin.ofNat 2048 (e + 1023), Fin.ofNat (2 ^ 52) (n * 2 ^ (52 - e) - 2 ^ 52)⟩
    else if rounded n e = 2 ^ 53 then ⟨false, Fin.ofNat 2048 (e + 1024), 0⟩
    else ⟨false, Fin.ofNat 2048 (e + 1023), Fin.ofNat (2 ^ 52) (rounded n e - 2 ^ 52)⟩

/-- `x as u64`: toward zero, and to the nearest end of the range. -/
def toU64 (x : F64) : ℕ :=
  if x.isNan ∨ x.negative then 0
  else
    let significand := x.fraction.val + if x.exponent = 0 then 0 else 2 ^ 52
    if 1075 ≤ x.exponent.val then min (significand * 2 ^ (x.exponent.val - 1075)) (2 ^ 64 - 1)
    else significand / 2 ^ (1075 - x.exponent.val)

end F64

/-! ## The grammar -/

/-- `MetricType`. -/
inductive MetricType where
  | gauge
  | counter
  deriving Repr, DecidableEq

def MAX_NAME_BYTES : ℕ := 128

def MAX_LABEL_NAME_BYTES : ℕ := 64

def MAX_LABEL_VALUE_BYTES : ℕ := 256

def MAX_HELP_BYTES : ℕ := 512

def MAX_LABELS : ℕ := 16

def MAX_SERIES_PER_SENDER : ℕ := 1024

def RESERVED_NAME_PREFIX : Text := "shep_".toList

def SENDER_LABELS : List Text :=
  ["sheep".toList, "id".toList, "fold".toList, "dog".toList, "source".toList]

def REFUSED_TOTAL : Text := "shep_channel_samples_refused_total".toList

/-- `RefusalReason`, in its order. -/
inductive RefusalReason where
  | reservedName
  | invalidName
  | invalidLabel
  | reservedLabel
  | tooLong
  | seriesCap
  | typeConflict
  deriving Repr, DecidableEq

namespace RefusalReason

def label : RefusalReason → Text
  | reservedName => "reserved_name".toList
  | invalidName => "invalid_name".toList
  | invalidLabel => "invalid_label".toList
  | reservedLabel => "reserved_label".toList
  | tooLong => "too_long".toList
  | seriesCap => "series_cap".toList
  | typeConflict => "type_conflict".toList

/-- The place of a reason in the declaration. -/
def place : RefusalReason → ℕ
  | reservedName => 0
  | invalidName => 1
  | invalidLabel => 2
  | reservedLabel => 3
  | tooLong => 4
  | seriesCap => 5
  | typeConflict => 6

theorem place_injective : Function.Injective place := by
  intro a b h
  cases a <;> cases b <;> first | rfl | cases h

instance : Ord RefusalReason := ⟨compareOn place⟩

instance : Std.TransOrd RefusalReason := inferInstanceAs (Std.TransCmp (compareOn place))

instance : Std.LawfulEqOrd RefusalReason where
  eq_of_compare h := place_injective (Nat.compare_eq_eq.1 h)

end RefusalReason

/-- `char::is_ascii_alphabetic`. -/
def isAsciiAlphabetic (ch : Char) : Bool := ('a' ≤ ch ∧ ch ≤ 'z') ∨ ('A' ≤ ch ∧ ch ≤ 'Z')

/-- `char::is_ascii_alphanumeric`. -/
def isAsciiAlphanumeric (ch : Char) : Bool := isAsciiAlphabetic ch ∨ ('0' ≤ ch ∧ ch ≤ '9')

/-- `valid_metric_name`. -/
def validMetricName : Text → Bool
  | [] => false
  | first :: rest =>
    (isAsciiAlphabetic first ∨ first = '_' ∨ first = ':') ∧
      rest.all fun ch => isAsciiAlphanumeric ch ∨ ch = '_' ∨ ch = ':'

/-- `valid_label_name`. -/
def validLabelName : Text → Bool
  | [] => false
  | first :: rest =>
    (isAsciiAlphabetic first ∨ first = '_') ∧
      rest.all fun ch => isAsciiAlphanumeric ch ∨ ch = '_'

/-- The labels of `refusal_for`, one after the other. -/
def refusalForLabels : List Label → Option RefusalReason
  | [] => none
  | (key, _) :: labels =>
    if "__".toList.isPrefixOf key ∨ MAX_LABEL_NAME_BYTES < len key ∨ ¬ validLabelName key then
      some .invalidLabel
    else if SENDER_LABELS.contains key then some .reservedLabel
    else refusalForLabels labels

/-- `refusal_for`. -/
def refusalFor (name : Text) (labels : List Label) (help : Option Text) : Option RefusalReason :=
  if RESERVED_NAME_PREFIX.isPrefixOf name then some .reservedName
  else if MAX_NAME_BYTES < len name ∨ ¬ validMetricName name then some .invalidName
  else (refusalForLabels labels).or
    (if MAX_LABELS < labels.length ∨ (labels.any fun l => MAX_LABEL_VALUE_BYTES < len l.2) ∨
        (help.any fun text => MAX_HELP_BYTES < len text) then some .tooLong
      else none)

/-- `Refusal`. -/
structure Refusal where
  sender : ℕ
  name : Text
  reason : RefusalReason
  first : Bool
  deriving Repr, DecidableEq

/-! ## The store -/

/-- `ChannelMetric`. -/
structure ChannelMetric where
  name : Text
  value : F64
  kind : Option MetricType
  labels : List Label
  help : Option Text
  deriving Repr, DecidableEq

/-- A series is kept under its name and labels. -/
abbrev SeriesKey := Text × List Label

instance seriesKeyTrans : Std.TransOrd (Text × List Label) := Std.instTransOrdProd

/-- `Series`. -/
structure Series where
  value : F64
  kind : MetricType
  help : Option Text
  arrived : ℕ
  deriving Repr, DecidableEq

/-- `SenderEntry`: what one sender retains. -/
abbrev SenderEntry := Std.ExtTreeMap SeriesKey Series

/-- `SenderEntry::since`. -/
def since (entry : SenderEntry) : Option ℕ := (entry.toList.map fun e => e.2.arrived).min?

/-- `StoreState`. The counts wrap as a `u32` and a `u64` do. -/
structure StoreState where
  senders : Std.ExtTreeMap ℕ SenderEntry
  kinds : Std.ExtTreeMap Text (MetricType × ℕ)
  refused : Std.ExtTreeMap RefusalReason ℕ
  announced : Finset (ℕ × RefusalReason)

namespace StoreState

/-- `SampleStore::new`. -/
def new : StoreState := ⟨∅, ∅, ∅, ∅⟩

/-- `record_refusal`. -/
def recordRefusal (s : StoreState) (sender : ℕ) (name : Text) (reason : RefusalReason) :
    StoreState × Refusal :=
  ({ s with
      refused := s.refused.insert reason ((s.refused[reason]?.getD 0 + 1) % 2 ^ 64)
      announced := insert (sender, reason) s.announced },
    ⟨sender, name, reason, (sender, reason) ∉ s.announced⟩)

/-- A name that one series less holds. -/
def release (kinds : Std.ExtTreeMap Text (MetricType × ℕ)) (name : Text) :
    Std.ExtTreeMap Text (MetricType × ℕ) :=
  match kinds[name]? with
  | none => kinds
  | some (kind, held) =>
    if held - 1 = 0 then kinds.erase name else kinds.insert name (kind, held - 1)

/-- A name that one series more holds. -/
def hold (kinds : Std.ExtTreeMap Text (MetricType × ℕ)) (name : Text) (kind : MetricType) :
    Std.ExtTreeMap Text (MetricType × ℕ) :=
  match kinds[name]? with
  | none => kinds.insert name (kind, 1)
  | some (held, count) => kinds.insert name (held, (count + 1) % 2 ^ 32)

/-- `drop_sender`: a sender that holds nothing is left alone, with what has
been announced of it. -/
def dropSender (s : StoreState) (sender : ℕ) : StoreState :=
  match s.senders[sender]? with
  | none => s
  | some entry =>
    { s with
      senders := s.senders.erase sender
      kinds := (entry.toList.map fun e => e.1.1).foldl release s.kinds
      announced := s.announced.filter fun e => e.1 ≠ sender }

/-- `SampleStore::upsert`. -/
def upsert (s : StoreState) (sender : ℕ) (metric : ChannelMetric) (now : ℕ) :
    StoreState × Option Refusal :=
  let refuse reason :=
    let (s, refusal) := s.recordRefusal sender metric.name reason
    (s, some refusal)
  match refusalFor metric.name metric.labels metric.help with
  | some reason => refuse reason
  | none =>
    let kind := metric.kind.getD .gauge
    if (s.kinds[metric.name]?.any fun held => held.1 ≠ kind) then refuse .typeConflict
    else
      let key : SeriesKey := (metric.name, metric.labels)
      let entry := s.senders[sender]?.getD ∅
      let fresh := entry[key]?.isNone
      if fresh ∧ MAX_SERIES_PER_SENDER ≤ entry.size then refuse .seriesCap
      else
        let help := metric.help.or (entry[key]?.bind Series.help)
        ({ s with
          senders := s.senders.insert sender (entry.insert key ⟨metric.value, kind, help, now⟩)
          kinds := if fresh then hold s.kinds metric.name kind else s.kinds }, none)

end StoreState

/-! ## The snapshot -/

/-- `DogSource`. -/
inductive DogSource where
  | builtIn
  | adopted
  | unrecognized
  deriving Repr, DecidableEq

/-- An `f32`, by its sign, exponent and fraction. -/
structure F32 where
  negative : Bool
  exponent : Fin 256
  fraction : Fin (2 ^ 23)
  deriving Repr, DecidableEq

/-- `ProcessInfo`: what the dog reads of a listing's row. -/
structure ProcessInfo where
  id : ℕ
  name : Text
  status : ProcStatus
  restarts : ℕ
  uptimeMs : ℕ
  fold : Option Text
  cpuPercent : Option F32
  memoryBytes : Option ℕ
  dog : Option DogSource
  disabled : Option Bool
  deriving Repr, DecidableEq

/-- `SamplePoint`. -/
structure SamplePoint where
  labels : List Label
  value : F64
  deriving Repr, DecidableEq

/-- `SampleFamily`. -/
structure SampleFamily where
  name : Text
  help : Option Text
  kind : MetricType
  points : List SamplePoint
  deriving Repr, DecidableEq

/-- `DogSource::as_str`. -/
def DogSource.text : DogSource → Text
  | .builtIn => "built-in".toList
  | .adopted => "adopted".toList
  | .unrecognized => "unrecognized".toList

/-- `u32::to_string`. -/
def decimal (n : ℕ) : Text := (Nat.repr n).toList

/-- `sender_labels`. -/
def senderLabels (info : ProcessInfo) : List Label :=
  match info.dog with
  | some source => [("dog".toList, info.name), ("source".toList, source.text)]
  | none =>
    [("sheep".toList, info.name), ("id".toList, decimal info.id),
      ("fold".toList, info.fold.getD [])]

/-- `STALE_MARGIN`, in nanoseconds. -/
def STALE_MARGIN : ℕ := 1000000000

/-- The row of an id; the last of several. -/
def live (flock : List ProcessInfo) (sender : ℕ) : Option ProcessInfo :=
  flock.reverse.find? fun info => info.id = sender

/-- What `snapshot` drops a sender for. -/
def isGone (flock : List ProcessInfo) (now sender : ℕ) (entry : SenderEntry) : Bool :=
  match live flock sender, since entry with
  | some info, some since =>
    info.status ≠ .online ∨ info.uptimeMs * 1000000 + STALE_MARGIN < now - since
  | _, _ => true

/-- The families as they are gathered, by their names. -/
abbrev Families := Std.ExtTreeMap Text SampleFamily

/-- One retained series, in its family. -/
def gather (owned : List Label) (families : Families) (e : SeriesKey × Series) : Families :=
  let family := families[e.1.1]?.getD ⟨e.1.1, e.2.help, e.2.kind, []⟩
  families.insert e.1.1
    { family with
      help := family.help.or e.2.help
      points := family.points ++ [⟨owned ++ e.1.2, e.2.value⟩] }

/-- One sender's series. -/
def gatherSender (flock : List ProcessInfo) (families : Families) (e : ℕ × SenderEntry) :
    Families :=
  match live flock e.1 with
  | none => families
  | some info => e.2.toList.foldl (gather (senderLabels info)) families

/-- The dog's own counter. -/
def refusedFamily (refused : Std.ExtTreeMap RefusalReason ℕ) : SampleFamily where
  name := REFUSED_TOTAL
  help := some "Channel samples this dog refused, by reason.".toList
  kind := .counter
  points := refused.toList.map fun e => ⟨[("reason".toList, e.1.label)], F64.ofU64 e.2⟩

namespace StoreState

/-- The senders that `snapshot` drops. -/
def gone (s : StoreState) (flock : List ProcessInfo) (now : ℕ) : List ℕ :=
  (s.senders.toList.filter fun e => isGone flock now e.1 e.2).map Prod.fst

/-- What `snapshot` answers, once the senders that are gone are dropped. -/
def families (s : StoreState) (flock : List ProcessInfo) : List SampleFamily :=
  let families := s.senders.toList.foldl (gatherSender flock) ∅
  let families :=
    if s.refused.isEmpty then families
    else families.insert REFUSED_TOTAL (refusedFamily s.refused)
  families.toList.map Prod.snd

/-- `SampleStore::snapshot`. -/
def snapshot (s : StoreState) (flock : List ProcessInfo) (now : ℕ) :
    StoreState × List SampleFamily :=
  let s := (s.gone flock now).foldl dropSender s
  (s, s.families flock)

end StoreState

/-! ## The feed -/

/-- `ChildMessage`. -/
inductive ChildMessage where
  | ready
  | metric (name : Text) (value : F64) (metricType : Option MetricType)
      (labels : Std.ExtTreeMap Text Text) (help : Option Text)
  | actionReply
  | lambLabel
  | note

/-- `ChannelMetric::from_child`. -/
def ChannelMetric.fromChild : ChildMessage → Option ChannelMetric
  | .metric name value metricType labels help => some ⟨name, value, metricType, labels.toList, help⟩
  | .ready | .actionReply | .lambLabel | .note => none

/-- `BusEvent`, of which the feed reads two. -/
inductive BusEvent where
  | channel (id : ℕ) (message : ChildMessage)
  | process (event : ProcessEventKind) (id : ℕ)
  | other

/-- `clears_samples`. -/
def clearsSamples : ProcessEventKind → Bool
  | .start | .restart | .exit | .stop | .delete | .errored | .sandboxRefused => true
  | .online | .reload | .reloaded | .reloadAbandoned => false
  | .unrecognized => true

namespace StoreState

/-- `apply`, with the refusal it prints. -/
def apply (s : StoreState) (event : BusEvent) (now : ℕ) : StoreState × Option Refusal :=
  match event with
  | .channel id message =>
    match ChannelMetric.fromChild message with
    | none => (s, none)
    | some metric => ((s.upsert id metric now).1, (s.upsert id metric now).2.filter Refusal.first)
  | .process event id => (if clearsSamples event then s.dropSender id else s, none)
  | .other => (s, none)

end StoreState

end Metrics

end Shep
