import Mathlib.Data.Bool.AllAny
import Shep.Metrics.Otlp
import Shep.Metrics.Scrape

/-!
# Metrics — the text exposition

`exposition.rs`: a reading rendered in the Prometheus text format. What
`Display` makes of a double and of a single is a parameter.
-/

namespace Shep

namespace Metrics

open Bark (ProcStatus)

/-! ## Labels -/

/-- A character of a label value. -/
def escapedLabelChar (ch : Char) : Text :=
  if ch = '\\' then ['\\', '\\']
  else if ch = '"' then ['\\', '"']
  else if ch = '\n' then ['\\', 'n']
  else [ch]

/-- `escape_label_value`. -/
def escapeLabelValue (value : Text) : Text := value.flatMap escapedLabelChar

/-- One pair of a label list. -/
def labelText (pair : Label) : Text := pair.1 ++ '=' :: '"' :: (escapeLabelValue pair.2 ++ ['"'])

/-- `label_prefix`: the list without its closing brace. -/
def labelPrefix (pairs : List Label) : Text := '{' :: [','].intercalate (pairs.map labelText)

/-- `labels`. -/
def labels (pairs : List Label) : Text := if pairs.isEmpty then [] else labelPrefix pairs ++ ['}']

/-- `StatusLabels`: an open list closed by the status. -/
def statusLabels (start status : Text) : Text := start ++ ",status=\"".toList ++ status ++ "\"\x7d".toList

/-! ## Help and values -/

/-- A character of a help text. -/
def escapedHelpChar (ch : Char) : Text :=
  if ch = '\\' then ['\\', '\\'] else if ch = '\n' then ['\\', 'n'] else [ch]

/-- `escape_help`. -/
def escapeHelp (help : Text) : Text := help.flatMap escapedHelpChar

/-- `kind_label`. -/
def kindLabel : MetricType → Text
  | .gauge => "gauge".toList
  | .counter => "counter".toList

/-- `Display` of an `f64` and of an `f32`. -/
structure Spelling where
  double : F64 → Text
  single : F32 → Text

/-- `render_value`. -/
def renderValue (spelling : Spelling) (value : F64) : Text :=
  if value.isFinite then spelling.double value
  else if value.isNan then "NaN".toList
  else if value.negative then "-Inf".toList
  else "+Inf".toList

/-! ## Groups -/

/-- `MetricGroup`. -/
structure MetricGroup where
  name : Text
  help : Text
  kind : Text
  series : List Text
  deriving Repr, DecidableEq

/-- The line of a series. -/
def seriesLine (name labels value : Text) : Text := name ++ labels ++ ' ' :: (value ++ ['\n'])

/-- `MetricGroup::new` with what is pushed to it: the label lists and the
values. -/
def MetricGroup.of (name help kind : Text) (pushed : List (Text × Text)) : MetricGroup :=
  ⟨name, help, kind, pushed.map fun series => seriesLine name series.1 series.2⟩

/-- The line that gives a metric's help. -/
def helpLine (name help : Text) : Text := "# HELP ".toList ++ name ++ ' ' :: (help ++ ['\n'])

/-- The line that gives a metric's kind. -/
def typeLine (name kind : Text) : Text := "# TYPE ".toList ++ name ++ ' ' :: (kind ++ ['\n'])

/-- `render_into`. -/
def MetricGroup.renderInto (group : MetricGroup) : Text :=
  if group.series.isEmpty then []
  else helpLine group.name group.help ++ typeLine group.name group.kind ++ group.series.flatten

/-- `render_family`. -/
def renderFamily (spelling : Spelling) (family : SampleFamily) : Text :=
  if family.points.isEmpty then []
  else (family.help.elim [] fun help => helpLine family.name (escapeHelp help)) ++
    typeLine family.name (kindLabel family.kind) ++
    family.points.flatMap fun point =>
      seriesLine family.name (labels point.labels) (renderValue spelling point.value)

/-! ## The reading -/

/-- The labels of a sheep's series: `sheep_labels`, of `sheep_prefix`. -/
def sheepText (info : ProcessInfo) : Text := labelPrefix (sheepLabels info) ++ ['}']

/-- The groups of the built-in series. -/
def builtInGroups (spelling : Spelling) (reading : Reading) : List MetricGroup :=
  let sheep := sheepRows reading.flock
  let cpu := sheep.filterMap fun info =>
    info.cpuPercent.map fun percent => (sheepText info, spelling.single percent)
  let memory := sheep.filterMap fun info =>
    info.memoryBytes.map fun bytes => (sheepText info, decimal bytes)
  let restarts := sheep.map fun info => (sheepText info, decimal info.restarts)
  let uptime := sheep.map fun info => (sheepText info, decimal (info.uptimeMs / 1000))
  let status := sheep.flatMap fun info => ALL_STATUSES.map fun candidate =>
    (statusLabels (labelPrefix (sheepLabels info)) (statusLabel candidate),
      decimal (flag (info.status = candidate)))
  let dogUp := (dogRows reading.flock).map fun row =>
    (labels [("dog".toList, row.1.name), ("source".toList, row.2.text)],
      decimal (flag (row.1.status = .online)))
  let daemonUp := (labels [("version".toList, reading.daemonVersion)], decimal 1)
  let daemonPid := ([], decimal reading.daemonPid)
  [.of "shep_sheep_cpu_percent".toList
      "Tree CPU as a percentage of one core, over the last sampling window.".toList
      "gauge".toList cpu,
    .of "shep_sheep_memory_bytes".toList "Tree resident set size in bytes.".toList "gauge".toList
      memory,
    .of "shep_sheep_restart_total".toList
      "Restart count since registration or the last `shep reset`.".toList "counter".toList restarts,
    .of "shep_sheep_uptime_seconds".toList "Seconds since this sheep's last successful start.".toList
      "gauge".toList uptime,
    .of "shep_sheep_status".toList
      "1 for the status this sheep is currently in, 0 for every other status.".toList "gauge".toList
      status,
    .of "shep_dog_up".toList "1 when this dog is online, 0 otherwise.".toList "gauge".toList dogUp,
    .of "shep_daemon_up".toList "Always 1: the scrape reached the shepherd.".toList "gauge".toList
      [daemonUp],
    .of "shep_daemon_pid".toList
      "The shepherd's own pid, so a restart is visible as a step change.".toList "gauge".toList
      [daemonPid]]

/-- The groups of the host's series. -/
def hostGroups (host : Option HostReading) : List MetricGroup :=
  let pushed := fun (value : HostReading → ℕ) =>
    (host.map fun reading => (([] : Text), decimal (value reading))).toList
  [.of "shep_host_memory_total_bytes".toList "Total physical memory on the host.".toList
      "gauge".toList (pushed HostReading.memoryTotalBytes),
    .of "shep_host_memory_used_bytes".toList
      "Memory in use on the host, as the platform reports it.".toList "gauge".toList
      (pushed HostReading.memoryUsedBytes),
    .of "shep_host_processes".toList
      "Number of processes running on the host, the flock included.".toList "gauge".toList
      (pushed HostReading.processes),
    .of "shep_host_uptime_seconds".toList "Seconds since the host booted.".toList "gauge".toList
      (pushed HostReading.uptimeSeconds)]

/-- `render`. -/
def render (spelling : Spelling) (reading : Reading) : Text :=
  ((builtInGroups spelling reading ++ hostGroups reading.host).flatMap MetricGroup.renderInto) ++
    reading.samples.flatMap (renderFamily spelling)

end Metrics

end Shep

/-!
## What is rendered is read back

One line at a time: a series, a help and a kind as they are rendered are
read as what they say, whatever stands in a label value or a help.
-/

namespace Shep

namespace Metrics

open Scrape

variable {name : Text} {rest tail : Text} {pairs : List Label} {read : Text → Text → Option F64}

/-! ## Tokens -/

theorem span_append {p : Char → Bool} {front : Text} (rest : Text)
    (hfront : ∀ c ∈ front, p c = true)
    (hrest : ∀ c, rest.head? = some c → p c = false) : (front ++ rest).span p = (front, rest) := by
  rw [List.span_eq_takeWhile_dropWhile, List.takeWhile_append_of_pos hfront,
    List.dropWhile_append_of_pos hfront]
  cases rest with
  | nil => simp
  | cons c rest => simp [hrest c rfl]

theorem skipBlanks_cons {c : Char} (h : isBlank c = false) : skipBlanks (c :: rest) = c :: rest :=
  List.dropWhile_cons_of_neg (by simp [h])

/-- A text that a scraper takes for one token, and never for labels. -/
def IsToken (s : Text) : Prop := s ≠ [] ∧ ∀ c ∈ s, isBlank c = false ∧ c ≠ '\n' ∧ c ≠ '{'

theorem IsToken.skipBlanks {s : Text} (h : IsToken s) (rest : Text) :
    Scrape.skipBlanks (s ++ rest) = s ++ rest := by
  obtain ⟨c, s, rfl⟩ := List.exists_cons_of_ne_nil h.1
  exact skipBlanks_cons (h.2 c List.mem_cons_self).1

theorem IsToken.token {s : Text} (h : IsToken s) (rest : Text)
    (hrest : ∀ c, rest.head? = some c → isBlank c = true) : Scrape.token (s ++ rest) = (s, rest) :=
  span_append rest (fun c hc => by simp [(h.2 c hc).1]) fun c hc => by simp [hrest c hc]

theorem intercalate_cons_cons (text text' : Text) (texts : List Text) :
    [','].intercalate (text :: text' :: texts) =
      text ++ ',' :: [','].intercalate (text' :: texts) := by
  simp [List.intercalate]

/-- The labels of a series: names of labels, each once. -/
structure Labelled (pairs : List Label) : Prop where
  valid : ∀ pair ∈ pairs, validLabelName pair.1 = true
  nodup : (pairs.map Prod.fst).Nodup

/-! ## Lines -/

end Metrics

end Shep
